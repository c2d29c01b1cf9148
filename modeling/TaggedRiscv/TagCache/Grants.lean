import TaggedRiscv.TagCache.Registers

/-!
# Grants of the tag cache

What a tracker answers to the transactions it accepts.

A read keeps its grant valid until all four beats are taken. The grant of a write
is valid for one cycle only, whether or not it is taken in that cycle.
-/

namespace TaggedRiscv.TagCache

open Sync Tracker

variable {g : Geometry}

namespace Request

/-- One grant for a write, the four beats of the block in order for a read, and each
for the client that asked. -/
def Answered (r : Request) (grants : List GrantMsg) : Prop :=
  (if r.isWrite then grants.length = 1 else grants.map (·.addrBeat) = [0, 1, 2, 3]) ∧
    ∀ m ∈ grants, m.id = r.id
deriving Decidable

end Request

/-- The transactions a tracker has accepted, the one it handles with its grants so
far, and the ones it has finished with the grants each of them got. -/
structure GrantLog where
  accepted : List Request
  current : Option Request
  grants : List GrantMsg
  finished : List (Request × List GrantMsg)
  deriving DecidableEq, Repr

namespace GrantLog

/-- Nothing has happened yet. -/
def empty : GrantLog := ⟨[], none, [], []⟩

/-- The log after a cycle. -/
def step (l : GrantLog) (t : Tracker g) (i : TrackerIn g) : GrantLog :=
  let grants := if t.grantFire i then l.grants ++ [t.grantBits] else l.grants
  match requestOf t i with
  | some r => { l with accepted := l.accepted ++ [r], current := some r, grants := [] }
  | none =>
    if t.state = .busy ∧ t.nextState i = .idle then
      { accepted := l.accepted, current := none, grants := []
        finished := l.finished ++ (l.current.map (·, grants)).toList }
    else { l with grants := grants }

/-! ## The invariant -/

/-- The grants so far of a read whose beat counter shows `k`. -/
def ReadSoFar (r : Request) (k : Fin 4) (grants : List GrantMsg) : Prop :=
  grants.map (·.addrBeat) = (List.finRange 4).take k ∧ ∀ m ∈ grants, m.id = r.id

/-- How far the answer to a request is, by the tracker's state: before the last state
no grant is out, and there the grant either is being offered or has been given. -/
def Progress (t : Tracker g) (r : Request) (grants : List GrantMsg) : Prop :=
  if t.state = .busy then
    if t.gntEnable then
      if t.isWriteProcess then grants = [] ∧ t.gntDataCnt = 0
      else ReadSoFar r t.gntDataCnt grants
    else r.Answered grants ∧ t.gntDataCnt = 0
  else grants = [] ∧ t.gntEnable = false ∧ t.gntDataCnt = 0

/-- What the log has to do with the tracker's registers. -/
structure Inv (t : Tracker g) (l : GrantLog) : Prop where
  idle : t.state = .idle → l.current = none ∧ t.gntEnable = false ∧ t.gntDataCnt = 0
  open_ : t.state ≠ .idle →
    ∃ r, l.current = some r ∧ t.tagOut = r.id ∧ t.isWriteProcess = r.isWrite ∧
      Progress t r l.grants
  accepted : l.accepted = l.finished.map (·.1) ++ l.current.toList
  finished : ∀ e ∈ l.finished, e.1.Answered e.2

/-! ## One step -/

section Step

variable {t : Tracker g} {i : TrackerIn g} {l : GrantLog}

/-- Where no grant is offered the grant registers rest. -/
theorem grant_registers_next (hg : t.state ≠ .gnt) (he : t.gntEnable = false) :
    (t.next i).gntEnable = false ∧ (t.next i).gntDataCnt = t.gntDataCnt := by
  simp [Tracker.next, gntDataCount, grantFire, hg, he]

theorem grantBits_id : t.grantBits.id = t.tagOut := by
  unfold grantBits
  split_ifs <;> rfl

/-- An idle tracker opens an entry for the request it accepts. -/
theorem step_inv_idle (h : Inv t l) (hs : t.state = .idle) : Inv (t.next i) (l.step t i) := by
  obtain ⟨hcur, he, hc⟩ := h.idle hs
  obtain ⟨he', hc'⟩ := grant_registers_next (i := i) (by simp [hs]) he
  rw [hc] at hc'
  have hstate : (t.next i).state =
      if i.acquire.valid || i.release.valid then .metaRead else .idle := by
    simp [Tracker.next, nextState, hs]
  have hfin : (l.step t i).finished = l.finished := by
    unfold step
    cases requestOf t i <;> simp [hs]
  have hacc := h.accepted
  rw [hcur, Option.toList_none, List.append_nil] at hacc
  refine ⟨fun hid => ⟨?_, he', hc'⟩, fun hne => ?_, ?_, fun e he => h.finished e (hfin ▸ he)⟩
  · have hno : i.acquire.valid = false ∧ i.release.valid = false := by
      by_contra hv
      have hv' : (i.acquire.valid || i.release.valid) = true := by
        cases ha : i.acquire.valid <;> simp_all
      rw [hstate, hv'] at hid
      exact absurd hid (by simp)
    simp [step, requestOf, acceptRelease, acceptAcquire, hno, hs, hcur]
  · -- the channels say which of the two kinds of request it is
    cases hr : i.release.valid with
    | true =>
      refine ⟨.release i.release.bits, ?_, ?_, ?_, ?_⟩ <;>
        simp [step, requestOf, Tracker.next, acceptRelease, rdy, Request.id,
          Request.isWrite, Progress, nextState, gntDataCount, grantFire,
          hs, hr, he, hc]
    | false =>
      cases ha : i.acquire.valid with
      | false => simp [hstate, hr, ha] at hne
      | true =>
        refine ⟨.acquire i.acquire.bits, ?_, ?_, ?_, ?_⟩ <;>
          simp [step, requestOf, Tracker.next, acceptRelease, acceptAcquire,
            rdy, Request.id, Request.isWrite, Progress, nextState,
            gntDataCount, grantFire, hs, hr, ha, he, hc]
  · unfold step
    cases requestOf t i <;> simp [hs, hacc, hcur]

/-- The log of a tracker that stays with its transaction collects its grants. -/
theorem step_of_not_idle (hi : t.state ≠ .idle) (hn : t.nextState i ≠ .idle) :
    l.step t i =
      { l with grants := if t.grantFire i then l.grants ++ [t.grantBits] else l.grants } := by
  simp [step, requestOf_eq_none hi, hn]

/-- To keep the invariant within a transaction it is enough to keep the progress. -/
theorem inv_of_progress (h : Inv t l) (hi : t.state ≠ .idle) (hn : t.nextState i ≠ .idle)
    (hp : ∀ r, l.current = some r → t.tagOut = r.id → t.isWriteProcess = r.isWrite →
      Progress t r l.grants →
      Progress (t.next i) r (if t.grantFire i then l.grants ++ [t.grantBits] else l.grants)) :
    Inv (t.next i) (l.step t i) := by
  rw [step_of_not_idle hi hn]
  obtain ⟨r, hcur, hid, hw, hprog⟩ := h.open_ hi
  refine ⟨fun hs => absurd hs hn, fun _ => ⟨r, hcur, ?_, ?_, hp r hcur hid hw hprog⟩,
    h.accepted, h.finished⟩
  · rw [tagOut_next hi, hid]
  · rw [isWriteProcess_next hi hn, hw]

/-- Before the last state no grant is given. -/
theorem step_inv_early (h : Inv t l) (hi : t.state ≠ .idle) (hb : t.state ≠ .busy) :
    Inv (t.next i) (l.step t i) := by
  apply inv_of_progress h hi (nextState_ne_idle hi hb)
  intro r _ _ hw hp
  obtain ⟨hg, he, hc⟩ : l.grants = [] ∧ t.gntEnable = false ∧ t.gntDataCnt = 0 := by
    simpa [Progress, hb] using hp
  have hfire : t.grantFire i = false := by simp [grantFire, he]
  have hc' : (t.next i).gntDataCnt = 0 := by simp [Tracker.next, gntDataCount, hfire, hc]
  rw [hfire, if_neg (by simp), hg]
  by_cases hgnt : t.state = .gnt ∧ t.acqDataProcess = false
  · -- the grant is offered from the next cycle on
    have hs : (t.next i).state = .busy := by simp [Tracker.next, nextState, hgnt]
    have he' : (t.next i).gntEnable := by simp [Tracker.next, hgnt]
    simp [Progress, hs, he', hc', ReadSoFar]
  · have hs : (t.next i).state ≠ .busy := by
      by_cases hs : t.state = .gnt
      · simp_all [Tracker.next, nextState]
      · exact nextState_ne_busy hs hb
    have he' : (t.next i).gntEnable = false := by
      simp only [Tracker.next]
      grind
    simp [Progress, hs, he', hc']

theorem take_finRange_succ :
    ∀ k : Fin 4, k ≠ 3 →
      (List.finRange 4).take k ++ [k] = (List.finRange 4).take (k + 1 : Fin 4) := by
  decide

variable {r : Request}

/-- One more beat of a read. -/
theorem readSoFar_snoc {k : Fin 4} {grants : List GrantMsg} {m : GrantMsg}
    (h : ReadSoFar r k grants) (hk : k ≠ 3) (hb : m.addrBeat = k) (hid : m.id = r.id) :
    ReadSoFar r (k + 1) (grants ++ [m]) := by
  obtain ⟨hbeats, hids⟩ := h
  refine ⟨?_, ?_⟩
  · rw [List.map_append, hbeats]
    rw [List.map_singleton, hb]
    exact take_finRange_succ k hk
  · intro m' hm'
    rcases List.mem_append.1 hm' with hm' | hm'
    · exact hids m' hm'
    · rw [List.mem_singleton.1 hm', hid]

/-- The last beat of a read. -/
theorem answered_of_readSoFar {grants : List GrantMsg} {m : GrantMsg}
    (h : ReadSoFar r 3 grants) (hb : m.addrBeat = 3) (hid : m.id = r.id)
    (hr : r.isWrite = false) : r.Answered (grants ++ [m]) := by
  obtain ⟨hbeats, hids⟩ := h
  refine ⟨?_, ?_⟩
  · simp [hr, hbeats, hb, List.finRange_succ]
  · intro m' hm'
    rcases List.mem_append.1 hm' with hm' | hm'
    · exact hids m' hm'
    · rw [List.mem_singleton.1 hm', hid]

/-- The grant of a write is over after one cycle, and so has to be taken in it. -/
theorem progress_write (hs : t.state = .busy) (he : t.gntEnable)
    (hwp : t.isWriteProcess) (hready : i.grantReady)
    (hid : t.tagOut = r.id) (hw : t.isWriteProcess = r.isWrite) (hp : Progress t r l.grants) :
    Progress (t.next i) r (if t.grantFire i then l.grants ++ [t.grantBits] else l.grants) := by
  obtain ⟨hg, hc⟩ : l.grants = [] ∧ t.gntDataCnt = 0 := by simpa [Progress, hs, he, hwp] using hp
  have hfire : t.grantFire i := by simp [grantFire, he, hready]
  have hs' : (t.next i).state = .busy := by simp [Tracker.next, nextState, hs, he]
  have he' : (t.next i).gntEnable = false := by simp [Tracker.next, hs, he, hwp]
  have hc' : (t.next i).gntDataCnt = 0 := by simp [Tracker.next, gntDataCount, hwp, hc]
  rw [hfire, if_pos rfl, hg]
  simp only [Progress, hs', he', hc']
  simp [Request.Answered, ← hw, hwp, grantBits_id, hid]

/-- The grant of a read stays until its last beat is taken. -/
theorem progress_read (hs : t.state = .busy) (he : t.gntEnable) (hwp : t.isWriteProcess = false)
    (hid : t.tagOut = r.id) (hw : t.isWriteProcess = r.isWrite) (hp : Progress t r l.grants) :
    Progress (t.next i) r (if t.grantFire i then l.grants ++ [t.grantBits] else l.grants) := by
  have hsofar : ReadSoFar r t.gntDataCnt l.grants := by simpa [Progress, hs, he, hwp] using hp
  have hs' : (t.next i).state = .busy := by simp [Tracker.next, nextState, hs, he]
  have hwp' : (t.next i).isWriteProcess = false := by
    rw [isWriteProcess_next (by simp [hs]) (by simp [nextState, hs, he]), hwp]
  have hbeat : t.grantBits.addrBeat = t.gntDataCnt := by simp [grantBits, hwp]
  have hmid : t.grantBits.id = r.id := by rw [grantBits_id, hid]
  cases hfire : t.grantFire i with
  | false =>
    have he' : (t.next i).gntEnable := by
      simp [Tracker.next, gntDataDone, gntDataCount, hs, he, hwp, hfire]
    have hc' : (t.next i).gntDataCnt = t.gntDataCnt := by simp [Tracker.next, gntDataCount, hfire]
    simpa [Progress, hs', he', hwp', hc'] using hsofar
  | true =>
    have hc' : (t.next i).gntDataCnt = t.gntDataCnt + 1 := by
      simp [Tracker.next, gntDataCount, hfire, hwp]
    rw [if_pos rfl]
    by_cases hlast : t.gntDataCnt = 3
    · have he' : (t.next i).gntEnable = false := by
        simp [Tracker.next, gntDataDone, gntDataCount, hs, he, hwp, hfire, hlast]
      simp only [Progress, hs', he', hc', hlast]
      exact ⟨answered_of_readSoFar (hlast ▸ hsofar) (hbeat.trans hlast) hmid (hw ▸ hwp), rfl⟩
    · have he' : (t.next i).gntEnable := by
        simp [Tracker.next, gntDataDone, gntDataCount, hs, he, hwp, hfire, hlast]
      simp only [Progress, hs', he', hwp', hc']
      exact readSoFar_snoc hsofar hlast hbeat hmid

/-- A transaction with all its grants is closed. -/
theorem step_inv_close (h : Inv t l) (hs : t.state = .busy) (he : t.gntEnable = false)
    (hp : t.acqDataProcess = false) : Inv (t.next i) (l.step t i) := by
  have hi : t.state ≠ .idle := by simp [hs]
  have hn : t.nextState i = .idle := by simp [nextState, hs, he, hp]
  obtain ⟨r, hcur, _, _, hprog⟩ := h.open_ hi
  obtain ⟨hans, hc⟩ : r.Answered l.grants ∧ t.gntDataCnt = 0 := by
    simpa [Progress, hs, he] using hprog
  obtain ⟨he', hc'⟩ := grant_registers_next (i := i) (by simp [hs]) he
  have hstep : l.step t i =
      { accepted := l.accepted, current := none, grants := []
        finished := l.finished ++ [(r, l.grants)] } := by
    simp [step, requestOf_eq_none hi, hs, hn, hcur, grantFire, he]
  rw [hstep]
  refine ⟨fun _ => ⟨rfl, he', hc'.trans hc⟩, fun hne => absurd hn hne, ?_, ?_⟩
  · rw [h.accepted, hcur]
    simp
  · intro e hmem
    rcases List.mem_append.1 hmem with hmem | hmem
    · exact h.finished e hmem
    · rw [List.mem_singleton.1 hmem]
      exact hans

theorem step_inv (h : Inv t l) (hready : t.gntEnable → t.isWriteProcess → i.grantReady) :
    Inv (t.next i) (l.step t i) := by
  by_cases hi : t.state = .idle
  · exact step_inv_idle h hi
  by_cases hs : t.state = .busy
  · cases he : t.gntEnable with
    | true =>
      have hn : t.nextState i ≠ .idle := by simp [nextState, hs, he]
      apply inv_of_progress h hi hn
      intro r _ hid hw hp
      cases hwp : t.isWriteProcess with
      | true => exact progress_write hs he hwp (hready he hwp) hid hw hp
      | false => exact progress_read hs he hwp hid hw hp
    | false =>
      cases hp : t.acqDataProcess with
      | false => exact step_inv_close h hs he hp
      | true =>
        -- nothing moves while the transaction's own data is on its way
        have hn : t.nextState i ≠ .idle := by simp [nextState, hs, hp]
        apply inv_of_progress h hi hn
        intro r _ _ _ hprog
        obtain ⟨he', hc'⟩ := grant_registers_next (i := i) (by simp [hs]) he
        have hs' : (t.next i).state = .busy := by simp [Tracker.next, nextState, hs, hp]
        simpa [Progress, hs, he, hs', he', hc', grantFire] using hprog
  · exact step_inv_early h hi hs

end Step

end GrantLog

/-! ## One tracker -/

/-- The tag cache with one tracker, in an environment that takes the grant of a write
in the cycle it is offered. -/
abbrev grantMachine (g : Geometry) : Machine (TagCache 1 g) (CacheIn 1 g) where
  ok c i := (c.tracker 0).gntEnable = true → (c.tracker 0).isWriteProcess = true →
    i.grantReady = true
  next := next

/-- The log of the tracker's transactions along a run. -/
def logStep (l : GrantLog) (c : TagCache 1 g) (i : CacheIn 1 g) : GrantLog :=
  l.step (c.tracker 0) (c.trackerIn i 0)

/-- The single tracker is served whenever the grant channel is ready. -/
theorem trackerIn_grantReady (c : TagCache 1 g) (i : CacheIn 1 g) (he : (c.tracker 0).gntEnable)
    (hr : i.grantReady) : (c.trackerIn i 0).grantReady := by
  simp [trackerIn, grantServed, LockArb.served, LockArb.chosen_one, he, hr]

/-- If the grant of a write is never refused, every transaction that the tracker has
accepted is answered exactly once by the time it is idle again: a write by one
grant and a read by the four beats of the block in order, each with the ids of the
request. -/
theorem every_transaction_answered_once (u : TagCache 1 g) (is : List (CacheIn 1 g))
    (hl : (grantMachine g).Legal u.reset is) :
    let l := (grantMachine g).history logStep u.reset .empty is
    (∀ e ∈ l.finished, e.1.Answered e.2) ∧
      ((((grantMachine g).run u.reset is).tracker 0).state = .idle →
        l.finished.map (·.1) = l.accepted) := by
  have hinit : GrantLog.Inv (u.reset.tracker 0) .empty := by
    refine ⟨fun _ => ⟨rfl, rfl, rfl⟩, fun hne => absurd rfl hne, rfl, ?_⟩
    intro e he
    simp [GrantLog.empty] at he
  have hinv := Machine.invariant_history (m := grantMachine g)
    (Q := fun c l => GrantLog.Inv (c.tracker 0) l) logStep ?_ hinit hl
  · refine ⟨hinv.finished, fun hidle => ?_⟩
    rw [hinv.accepted, (hinv.idle hidle).1]
    simp
  · intro c l i h hok
    exact GrantLog.step_inv h fun he hw => trackerIn_grantReady c i he (hok he hw)

/-- A cycle of the shipped cache in which a client may offer a beat of a `PutBlock` to
the first block of the DRAM and the memory may answer. -/
def putCycle (beat grantReady answer : Bool) : CacheIn 1 shipped :=
  { acquire := ⟨beat, ⟨⟨1, 2⟩, .builtIn .putBlockType, 0⟩⟩
    release := ⟨false, ⟨⟨0, 0⟩, 0⟩⟩
    phyAddrAcq := 0x1000000
    phyAddrRel := 0
    grantReady := grantReady
    outAcquireReady := true
    outGrant := if answer then some (0, 0) else none
    replaceWay := 0 }

/-- A `PutBlock` that misses, after reset: the four beats and their acknowledgement,
the reset sweep, and the four beats of the tag line. -/
def putRun (grantReady : Bool) : List (CacheIn 1 shipped) :=
  List.replicate 5 (putCycle true grantReady false) ++
    putCycle false grantReady true :: List.replicate 30 (putCycle false grantReady false) ++
    List.replicate 4 (putCycle false grantReady true) ++
    List.replicate 10 (putCycle false grantReady false)

/-- A grant channel that is not ready in the one cycle loses the grant of the write. -/
theorem putRun_refused_unanswered :
    (((grantMachine shipped).run (zero 1 shipped).reset (putRun false)).tracker 0).state =
        .idle ∧
      ¬ ∀ e ∈ ((grantMachine shipped).history logStep (zero 1 shipped).reset .empty
          (putRun false)).finished, e.1.Answered e.2 := by
  decide +kernel

/-- With the channel always ready the same run answers it. -/
theorem every_transaction_answered_once_putRun :
    (grantMachine shipped).Legal (zero 1 shipped).reset (putRun true) ∧
      ∀ e ∈ ((grantMachine shipped).history logStep (zero 1 shipped).reset .empty
          (putRun true)).finished, e.1.Answered e.2 := by
  have hl : (grantMachine shipped).Legal (zero 1 shipped).reset (putRun true) := by
    decide +kernel
  exact ⟨hl, (every_transaction_answered_once _ _ hl).1⟩

end TaggedRiscv.TagCache
