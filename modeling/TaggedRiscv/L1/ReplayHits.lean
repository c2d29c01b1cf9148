import TaggedRiscv.L1.StoreData

/-!
# What a replay finds

The cache does not look a replay up again. A handler asks for a permission that is enough for all
accesses in its queue, but the state it writes for its block is made from its own command alone:
behind a load-reserved or a prefetch for writing the block is recorded as clean, and a store in
the queue leaves it so.
-/

namespace TaggedRiscv.L1

open Sync Mesi ClientState

variable {p : L1Params}

/-- The grant is one the policy sends for the command. -/
def Adequate (cmd : MemCmd) (g : Option GrantType) : Prop :=
  g = some grantExclusive ∨ g = some grantShared ∧ cmd.isWriteIntent = false
deriving Decidable

/-- The state permits the access, and is right after it exactly if the access does not write or
the command `own` writes too. -/
def Permits (own : MemCmd) (c : ClientState) (cmd : MemCmd) : Prop :=
  c.isHit cmd = true ∧ (c.onHit cmd = c ↔ (cmd.isWrite = true → own.isWrite = true))

theorem Adequate.permits {cmd : MemCmd} {g : Option GrantType} (m : MSHR p)
    (h : Adequate m.req.cmd g) (hcov : requiresAcquireOnSecondaryMiss m.req.cmd cmd = false) :
    Permits m.req.cmd (m.cohOnGrant g) cmd := by
  have hintent : cmd.isWrite → cmd.isWriteIntent := MemCmd.isWriteIntent_of_isWrite
  rcases h with rfl | ⟨rfl, hown⟩
  · cases hw : m.req.cmd.isWrite <;> cases hc : cmd.isWrite <;>
      simp [Permits, MSHR.cohOnGrant, ClientState.onGrant, isHit, onHit, hasWritePermission,
        hasReadPermission, hw, hc]
  · have hread : cmd.isWriteIntent = false := by
      simpa [requiresAcquireOnSecondaryMiss, hown] using hcov
    have hc : cmd.isWrite = false := by
      rw [← Bool.not_eq_true]
      exact fun hc => by simp [hintent hc] at hread
    simp [Permits, MSHR.cohOnGrant, ClientState.onGrant, isHit, onHit, hasReadPermission, hread, hc]

theorem permits_onHit {cmd : MemCmd} {c : ClientState} (h : c.isHit cmd) :
    Permits cmd (c.onHit cmd) cmd := by
  cases hc : cmd.isWrite with
  | false => simpa [Permits, onHit, hc] using h
  | true => simp [Permits, onHit, isHit, hasWritePermission, hc, MemCmd.isWriteIntent_of_isWrite hc]

namespace MSHR

variable {m : MSHR p} {i : MSHRIn p}

/-- What a handler asks for is enough for its queue, and what it got is. -/
structure Covers (m : MSHR p) : Prop where
  covered : ∀ e ∈ m.rpq, requiresAcquireOnSecondaryMiss m.req.cmd e.cmd = false
  permits : m.owning → ∀ e ∈ m.rpq, Permits m.req.cmd m.newCohState e.cmd

/-- Who joins the queue of a handler that asks or has asked is covered by what it asks for. -/
theorem requires_reqNext (h : m.rpqEnq i) :
    requiresAcquireOnSecondaryMiss (m.reqNext i).cmd i.req.cmd = false := by
  simp only [rpqEnq, Bool.and_eq_true, Bool.or_eq_true, decide_eq_true_eq] at h
  unfold reqNext
  split_ifs with halloc hup
  · simp [requiresAcquireOnSecondaryMiss]
  · simp [requiresAcquireOnSecondaryMiss]
  · simpa [cmdRequiresSecondAcquire, reqSecRdy, (h.1.1.resolve_left halloc), h.2] using hup

/-- An upgrade asks for no less. -/
theorem requires_mono {cmd : MemCmd} (halloc : m.alloc i = false)
    (h : requiresAcquireOnSecondaryMiss m.req.cmd cmd = false) :
    requiresAcquireOnSecondaryMiss (m.reqNext i).cmd cmd = false := by
  rw [reqNext, if_neg (by simp [halloc])]
  split_ifs with hup
  · simp only [Bool.and_eq_true, cmdRequiresSecondAcquire, requiresAcquireOnSecondaryMiss] at hup
    simp [requiresAcquireOnSecondaryMiss, hup.2.1]
  · exact h

/-- Once the acquire is made there are no upgrades. -/
theorem reqNext_eq (hs : m.state ≠ .invalid) (hb : m.beforeRefill = false) :
    m.reqNext i = m.req := by
  have hup : (m.reqSecRdy i.req && m.cmdRequiresSecondAcquire i.req) = false := by
    cases h : m.cmdRequiresSecondAcquire i.req <;> simp [reqSecRdy, secRdy, hb, h]
  rw [reqNext, if_neg (by simp [alloc, reqPriRdy, hs]), Bool.and_assoc, hup]
  simp

theorem Covers.next (h : m.Covers) (hidle : m.state = .invalid → m.rpq = [])
    (hg : m.state = .refillResp → ∀ g ∈ i.memGrant, Adequate m.req.cmd g) : (m.next i).Covers := by
  have hmem {e : ReplayInternal} (he : e ∈ (m.next i).rpq) :
      e ∈ m.rpq ∨ m.rpqEnq i ∧ e.cmd = i.req.cmd := by
    rcases List.mem_append.1 he with he | he
    · refine .inl ?_
      split_ifs at he
      · exact List.mem_of_mem_tail he
      · exact he
    · split_ifs at he with henq
      · exact .inr ⟨henq, by rw [List.mem_singleton.1 he]⟩
      · simp at he
  have hcov : ∀ e ∈ (m.next i).rpq,
      requiresAcquireOnSecondaryMiss (m.reqNext i).cmd e.cmd = false := by
    intro e he
    rcases hmem he with he | ⟨henq, hcmd⟩
    · cases halloc : m.alloc i with
      | false => exact requires_mono halloc (h.covered e he)
      | true =>
        have hs : m.state = .invalid := by simpa [reqPriRdy] using (Bool.and_eq_true_iff.1 halloc).2
        simp [hidle hs] at he
    · rw [hcmd]
      exact requires_reqNext henq
  refine ⟨hcov, fun hown e he => ?_⟩
  change Permits (m.reqNext i).cmd (m.newCohStateNext i) e.cmd
  replace hcov := hcov e he
  cases hs : m.state with
  | invalid =>
    -- the block is there, and only the metadata must change
    have hnew : i.reqPriVal ∧ i.req.tagMatch ∧
        i.req.oldMeta.coh.isHit i.req.cmd := by
      simp only [owning, MSHR.next, stateNext, hs, allocState] at hown
      grind
    have halloc : m.alloc i := by simp [alloc, reqPriRdy, hs, hnew.1]
    have hcmd : e.cmd = i.req.cmd := by
      rcases hmem he with he | he
      · simp [hidle hs] at he
      · exact he.2
    rw [reqNext, newCohStateNext, halloc, hnew.2.1, hnew.2.2, hcmd]
    exact permits_onHit hnew.2.2
  | refillResp =>
    have hreq := reqNext_eq (m := m) (i := i) (by simp [hs]) (by simp [beforeRefill, hs])
    have hdone : m.refillDone i := by
      by_contra hno
      simp [owning, MSHR.next, stateNext, hs, hno] at hown
    obtain ⟨g, hgnt⟩ := Option.isSome_iff_exists.1 (Bool.and_eq_true_iff.1 hdone).1
    rw [hreq] at hcov ⊢
    rw [newCohStateNext, if_neg (by simp [alloc, reqPriRdy, hs]), if_pos hs, hgnt]
    exact (hg hs g hgnt).permits m hcov
  | metaWriteReq | metaWriteResp | drainRpq =>
    have hreq := reqNext_eq (m := m) (i := i) (by simp [hs]) (by simp [beforeRefill, hs])
    have hold : e ∈ m.rpq := (hmem he).resolve_right fun h => by
      simp [rpqEnq, alloc, reqPriRdy, secRdy, beforeRefill, hs] at h
    rw [hreq, newCohStateNext, if_neg (by simp [alloc, reqPriRdy, hs]), if_neg (by simp [hs])]
    exact h.permits (by simp [owning, hs]) e hold
  | _ =>
    simp only [owning, MSHR.next, stateNext, hs] at hown
    grind

end MSHR

/-- The handlers with any accesses, and grants as the policy sends them. -/
def handlerMachine (p : L1Params) : Machine (MSHRFile p) (MSHRFileIn p) where
  ok f i := (i.reqValid = true → i.req.cmd ≠ .NOP) ∧
    ∀ k, (f.mshr k).state = .refillResp →
      ∀ g ∈ (f.input i k).memGrant, Adequate (f.mshr k).req.cmd g
  next := MSHRFile.next

theorem MSHRFile.owning_of_replayFire {f : MSHRFile p} {i : MSHRFileIn p}
    {x : Fin p.nMSHRs × MemCmd} (h : f.replayFire i = some x) : (f.mshr x.1).owning := by
  obtain ⟨k, hsel, hk⟩ := Option.bind_eq_some_iff.1 h
  dsimp only at hk
  split_ifs at hk
  obtain rfl := Option.some.inj hk
  have hvalid := valid_of_firstValid hsel
  simp only [replayValid, MSHR.replayValid, Bool.and_eq_true, beq_iff_eq] at hvalid
  simp [MSHR.owning, hvalid.1]

/-- In every run no two handlers work on one set, and every access that is replayed has the
permission it needs. The state that was written for its block is right after it, too, unless it
writes and the command that its handler keeps does not: then the block stays clean. -/
theorem replays_permitted {f₀ : MSHRFile p} (h₀ : f₀.IsReset) {is : List (MSHRFileIn p)}
    (hl : (handlerMachine p).Legal f₀ is) :
    let f := (handlerMachine p).run f₀ is
    (∀ k l, (f.mshr k).state ≠ .invalid → (f.mshr l).state ≠ .invalid →
      (f.mshr k).req.addr.idx = (f.mshr l).req.addr.idx → k = l) ∧
    ∀ i k cmd, f.replayFire i = some (k, cmd) →
      Permits (f.mshr k).req.cmd (f.mshr k).newCohState cmd := by
  have hsound : f₀.Sound := (StoreFile.Conserves.init (s := ⟨f₀, fun _ => (), 0⟩) h₀).sound
  have hcovers (k : Fin p.nMSHRs) : (f₀.mshr k).Covers :=
    ⟨fun e he => by simp [(h₀.1 k).2.2] at he, fun _ e he => by simp [(h₀.1 k).2.2] at he⟩
  obtain ⟨hf, hc⟩ := Machine.invariant_run (m := handlerMachine p)
    (P := fun f => f.Sound ∧ ∀ k, (f.mshr k).Covers)
    (fun f i h hi => ⟨h.1.next hi.1, fun k => (h.2 k).next (h.1.idle k) (hi.2 k)⟩)
    ⟨hsound, hcovers⟩ hl
  refine ⟨hf.unique, fun i k cmd hfire => ?_⟩
  obtain ⟨e, hcmd, hmem, -⟩ := hf.leaves_of_replayFire hfire
  obtain rfl : e.cmd = cmd := hcmd
  exact (hc k).permits (MSHRFile.owning_of_replayFire hfire) e hmem

/-- One handler with room for two accesses. -/
def oneHandler : L1Params := { twoHandlers with nMSHRs := 1, replayQueueDepth := 2 }

/-- A cycle with an access to block 0 that misses, or with none, or with the grant. -/
def oneHandlerIn (cmd : Option MemCmd) (g : Option (L1Grant oneHandler)) :
    MSHRFileIn oneHandler where
  reqValid := cmd.isSome
  req := ⟨⟨0, 0⟩, cmd.getD .NOP, false, ⟨0, clientInvalid⟩, fun _ => true, 0⟩
  memReqReady := true
  metaReadReady := true
  metaWriteReady := true
  replayReady := true
  wbReqReady := true
  memGrant := g

/-- A store joins a load-reserved that misses, which is replayed when the block has come. -/
def storeBehindLr : List (MSHRFileIn oneHandler) :=
  [oneHandlerIn (some .XLR) none, oneHandlerIn (some .XWR) none, oneHandlerIn none none,
    oneHandlerIn none (some ⟨⟨0, Nat.one_pos⟩, some grantExclusive⟩)] ++
    List.replicate 3 (oneHandlerIn none none)

/-- Then the store is replayed, and its block is recorded as clean. -/
theorem replays_permitted_storeBehindLr :
    let m₀ : MSHR oneHandler := ⟨.invalid, clientInvalid, (oneHandlerIn none none).req, 0, [], 0⟩
    let m := ((handlerMachine oneHandler).run ⟨fun _ => m₀, fun _ => false⟩ storeBehindLr).mshr
      ⟨0, Nat.one_pos⟩
    (m.req.cmd = .XLR ∧ m.newCohState = clientExclusiveClean) ∧
      Permits m.req.cmd m.newCohState .XWR := by
  intro m₀ m
  have hl : (handlerMachine oneHandler).Legal ⟨fun _ => m₀, fun _ => false⟩ storeBehindLr := by
    unfold handlerMachine
    decide +kernel
  refine ⟨by decide +kernel, (replays_permitted ⟨fun _ => ⟨rfl, rfl, rfl⟩, fun _ => rfl⟩ hl).2
    (oneHandlerIn none none) _ _ ?_⟩
  decide +kernel

end TaggedRiscv.L1
