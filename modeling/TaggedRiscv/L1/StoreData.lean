import TaggedRiscv.L1.ReplayQueues
import TaggedRiscv.Lib.Progress

/-!
# The store data queue

The data of a store that misses, with its tag, waits in a queue of the file while the store waits
in the replay queue of its handler. The replay port presents it one cycle after the replay, when
the entry has been freed already; it can have been allocated again, but not written.
-/

namespace TaggedRiscv.L1

open Sync

variable (p : L1Params) (D : Type*)

/-- The miss handlers with the data of the waiting stores (`sdq`). -/
structure StoreFile where
  file : MSHRFile p
  sdq : ℕ → D
  /-- The entry of the last store that was replayed. -/
  replaySdqId : ℕ

/-- The inputs of a cycle, with the data of the request. -/
structure StoreIn extends MSHRFileIn p where
  data : D

/-- An access to a block; a store carries its data and tag. -/
structure MissAccess where
  addr : BlockAddr p
  cmd : MemCmd
  data : Option D
  deriving DecidableEq

/-- The accesses taken on and the accesses replayed. -/
structure StoreLog where
  accepted : List (MissAccess p D)
  replayed : List (MissAccess p D)

variable {p D}

namespace StoreFile

variable (s : StoreFile p D) (i : StoreIn p D)

def next : StoreFile p D where
  file := s.file.next i.toMSHRFileIn
  sdq := if s.file.sdqEnq i.toMSHRFileIn then Function.update s.sdq s.file.sdqAllocId i.data
    else s.sdq
  replaySdqId := (s.file.freeSdq i.toMSHRFileIn).getD s.replaySdqId

/-- The data on the replay port. It belongs to the replay of the cycle before. -/
def replayData : D := s.sdq s.replaySdqId

/-- The request that is taken on, unless it is a prefetch. -/
def accepted : Option (MissAccess p D) :=
  if i.reqValid && s.file.reqReady i.req && !i.req.cmd.isPrefetch then
    some ⟨i.req.addr, i.req.cmd, if i.req.cmd.isWrite then some i.data else none⟩
  else none

/-- The replay as the cache sees it, with the data of the following cycle. -/
def replayed : Option (MissAccess p D) :=
  (s.file.replayFire i.toMSHRFileIn).map fun x =>
    ⟨(s.file.mshr x.1).req.addr, x.2, if x.2.isWrite then some (s.next i).replayData else none⟩

/-- An access that waits. -/
def access (addr : BlockAddr p) (e : ReplayInternal) : MissAccess p D :=
  ⟨addr, e.cmd, if e.cmd.isWrite then some (s.sdq e.sdqId) else none⟩

def waitingAt (k : Fin p.nMSHRs) : List (MissAccess p D) :=
  (s.file.mshr k).rpq.map (s.access (s.file.mshr k).req.addr)

/-- The accesses to a block that wait: the queue of the handler that works on the block. -/
def waitingFor (a : BlockAddr p) : List (MissAccess p D) :=
  match firstValid fun k => (s.file.mshr k).state != .invalid && (s.file.mshr k).req.addr == a with
  | some k => s.waitingAt k
  | none => []

end StoreFile

/-- The accesses to one block. -/
def forBlock (a : BlockAddr p) (l : List (MissAccess p D)) : List (MissAccess p D) :=
  l.filter fun x => x.addr == a

def StoreLog.step (g : StoreLog p D) (s : StoreFile p D) (i : StoreIn p D) : StoreLog p D :=
  ⟨g.accepted ++ (s.accepted i).toList, g.replayed ++ (s.replayed i).toList⟩

/-- The handlers in any environment whose requests are accesses. -/
def storeMachine (p : L1Params) (D : Type*) :
    Machine (StoreFile p D × StoreLog p D) (StoreIn p D) where
  ok _ i := i.reqValid = true → i.req.cmd ≠ .NOP
  next x i := (x.1.next i, x.2.step x.1 i)

/-! ## The data of the stores -/

namespace StoreFile

variable {s : StoreFile p D} {i : StoreIn p D}

open MSHRFile

variable {k : Fin p.nMSHRs}

/-- A store that waits keeps its data. -/
theorem sdq_next (ho : s.file.Owned) {e : ReplayInternal} (he : e ∈ (s.file.mshr k).rpq)
    (hw : e.cmd.isWrite) : (s.next i).sdq e.sdqId = s.sdq e.sdqId := by
  have hheld := ho.held e (mem_queued he) hw
  change (if _ then _ else s.sdq) e.sdqId = _
  split_ifs with henq
  · have hne : e.sdqId ≠ s.file.sdqAllocId := fun heq =>
      not_holds_sdqAllocId (sdqRdy_of_sdqEnq henq) (heq ▸ hheld)
    exact Function.update_of_ne hne _ _
  · rfl

theorem access_next (hf : s.file.Sound) (ho : s.file.Owned)
    {e : ReplayInternal} (he : e ∈ (s.file.mshr k).rpq) :
    (s.next i).access ((s.next i).file.mshr k).req.addr e =
      s.access (s.file.mshr k).req.addr e := by
  have hbusy : (s.file.mshr k).state ≠ .invalid := fun hs => by simp [hf.idle k hs] at he
  have halloc : (s.file.mshr k).alloc (s.file.input i.toMSHRFileIn k) = false := by
    simp [MSHR.alloc, MSHR.reqPriRdy, hbusy]
  have haddr : ((s.next i).file.mshr k).req.addr = (s.file.mshr k).req.addr := by
    change ((s.file.next i.toMSHRFileIn).mshr k).req.addr = _
    rw [next_addr, halloc]
    rfl
  rw [access, access, haddr]
  by_cases hw : e.cmd.isWrite
  · rw [if_pos hw, if_pos hw, sdq_next ho he hw]
  · rw [if_neg hw, if_neg hw]

variable {a : BlockAddr p}

/-- A handler that works on a block, and is alone with it, has all that waits for the block. -/
theorem waitingFor_eq (hf : s.file.Sound) (hk : (s.file.mshr k).req.addr = a)
    (halone : ∀ l, (s.file.mshr l).state ≠ .invalid → (s.file.mshr l).req.addr = a → l = k) :
    s.waitingFor a = s.waitingAt k := by
  unfold waitingFor
  split
  · next l hl =>
    have hl' := valid_of_firstValid hl
    simp only [Bool.and_eq_true, bne_iff_ne, beq_iff_eq] at hl'
    rw [halone l hl'.1 hl'.2]
  · next hnone =>
    have hidle : (s.file.mshr k).state = .invalid := by
      by_contra hbusy
      obtain ⟨l, hl⟩ := exists_firstValid (v := fun k =>
        (s.file.mshr k).state != .invalid && (s.file.mshr k).req.addr == a) (i := k)
        (by simp [hbusy, hk])
      rw [hl] at hnone
      exact absurd hnone (by simp)
    rw [waitingAt, hf.idle k hidle]
    rfl

theorem waitingFor_eq_nil
    (h : ∀ l, (s.file.mshr l).state ≠ .invalid → (s.file.mshr l).req.addr ≠ a) :
    s.waitingFor a = [] := by
  unfold waitingFor
  split
  · next l hl =>
    have hl' := valid_of_firstValid hl
    simp only [Bool.and_eq_true, bne_iff_ne, beq_iff_eq] at hl'
    exact absurd hl'.2 (h l hl'.1)
  · rfl

theorem waitingAt_eq (k : Fin p.nMSHRs) : s.waitingAt k =
    (s.file.leaves i.toMSHRFileIn k).map (s.access (s.file.mshr k).req.addr) ++
      (s.file.stays i.toMSHRFileIn k).map (s.access (s.file.mshr k).req.addr) := by
  rw [waitingAt, ← List.map_append, ← rpq_eq]

theorem waitingAt_next (hf : s.file.Sound) (ho : s.file.Owned) (k : Fin p.nMSHRs) :
    (s.next i).waitingAt k =
      (s.file.stays i.toMSHRFileIn k).map (s.access (s.file.mshr k).req.addr) ++
        (s.file.joins i.toMSHRFileIn k).map
          ((s.next i).access ((s.next i).file.mshr k).req.addr) := by
  have hstays : (s.file.stays i.toMSHRFileIn k).map
        ((s.next i).access ((s.next i).file.mshr k).req.addr) =
      (s.file.stays i.toMSHRFileIn k).map (s.access (s.file.mshr k).req.addr) :=
    List.map_congr_left fun e he => access_next hf ho (mem_rpq_of_stays he)
  rw [waitingAt, ← hstays, ← List.map_append]
  rfl

/-- The request that is taken on, as it then waits. -/
theorem access_of_takes (hk : s.file.takes i.toMSHRFileIn k) (hv : i.reqValid)
    (hready : s.file.reqReady i.req) (haddr : ((s.next i).file.mshr k).req.addr = i.req.addr) :
    (s.file.joins i.toMSHRFileIn k).map ((s.next i).access ((s.next i).file.mshr k).req.addr) =
      [⟨i.req.addr, i.req.cmd, if i.req.cmd.isWrite then some i.data else none⟩] := by
  rw [joins, if_pos hk, List.map_singleton, access, haddr]
  by_cases hw : i.req.cmd.isWrite
  · have henq : s.file.sdqEnq i.toMSHRFileIn := by
      rw [sdqEnq, hv, hready, hw]
      rfl
    simp [hw, next, henq]
  · simp [hw]

/-- The accesses to a block taken on in a cycle are those that join the queue of its handler. -/
theorem forBlock_accepted (hf : s.file.Sound) (hq : 0 < p.replayQueueDepth)
    (hk : ((s.next i).file.mshr k).req.addr = a)
    (halone : ∀ l, s.file.takes i.toMSHRFileIn l → ((s.next i).file.mshr l).req.addr = a → l = k) :
    forBlock a (s.accepted i).toList =
      (s.file.joins i.toMSHRFileIn k).map
        ((s.next i).access ((s.next i).file.mshr k).req.addr) := by
  unfold accepted
  by_cases h : (i.reqValid && s.file.reqReady i.req && !i.req.cmd.isPrefetch) = true
  · rw [if_pos h]
    simp only [Bool.and_eq_true, Bool.not_eq_true'] at h
    obtain ⟨l, htakes, haddr⟩ := exists_takes hf hq h.1.1 h.1.2 h.2
    replace haddr : ((s.next i).file.mshr l).req.addr = i.req.addr := haddr
    by_cases hl : l = k
    · subst hl
      rw [access_of_takes (by simp [htakes]) h.1.1 h.1.2 haddr]
      simp [forBlock, ← hk, haddr]
    · have hne : i.req.addr ≠ a := fun heq => hl (halone l (by simp [htakes]) (haddr.trans heq))
      simp [joins, htakes, Ne.symm hl, forBlock, hne]
  · rw [if_neg h]
    simp only [Bool.and_eq_true, Bool.not_eq_true', and_assoc] at h
    simp [joins, takes_eq_false hf hq h k, forBlock]

/-- The accesses to a block replayed in a cycle are those that leave the queue of its handler. -/
theorem forBlock_replayed (hf : s.file.Sound) (ho : s.file.Owned)
    (hk : (s.file.mshr k).req.addr = a)
    (halone : ∀ l, (s.file.mshr l).state ≠ .invalid → (s.file.mshr l).req.addr = a → l = k) :
    forBlock a (s.replayed i).toList =
      (s.file.leaves i.toMSHRFileIn k).map (s.access (s.file.mshr k).req.addr) := by
  unfold replayed
  cases h : s.file.replayFire i.toMSHRFileIn with
  | none => simp [(hf.leaves_of_none h).1, forBlock]
  | some x =>
    obtain ⟨e, hcmd, he, hleaves, hfree⟩ := hf.leaves_of_replayFire h
    by_cases hl : x.1 = k
    · have hdata : x.2.isWrite → (s.next i).replayData = s.sdq e.sdqId := by
        intro hw
        have hid : (s.next i).replaySdqId = e.sdqId := by
          change (s.file.freeSdq i.toMSHRFileIn).getD _ = _
          rw [hfree, if_pos hw]
          rfl
        rw [replayData, hid, sdq_next ho he (hcmd ▸ hw)]
      by_cases hw : x.2.isWrite
      · simp [hleaves, forBlock, access, hl, hk, hcmd, hw, hdata hw]
      · simp [hleaves, forBlock, access, hl, hk, hcmd, hw]
    · have hbusy : (s.file.mshr x.1).state ≠ .invalid := fun hs => by simp [hf.idle _ hs] at he
      have hne : (s.file.mshr x.1).req.addr ≠ a := fun heq => hl (halone x.1 hbusy heq)
      simp [hleaves, Ne.symm hl, forBlock, hne]

/-- The invariant: of the accesses to a block that were taken on, the first have been replayed, in
order, and the others wait; and every waiting store has an entry of its own. -/
structure Conserves (s : StoreFile p D) (g : StoreLog p D) : Prop where
  sound : s.file.Sound
  owned : s.file.Owned
  log : ∀ a, forBlock a g.accepted = forBlock a g.replayed ++ s.waitingFor a

/-- A handler that is busy with a block after a cycle, or takes a request for it, was busy with it
before or takes on a miss of it. -/
theorem alloc_or_busy {l : Fin p.nMSHRs}
    (h : ((s.next i).file.mshr l).state ≠ .invalid ∨ s.file.takes i.toMSHRFileIn l)
    (haddr : ((s.next i).file.mshr l).req.addr = a) :
    (s.file.mshr l).alloc (s.file.input i.toMSHRFileIn l) ∧ i.req.addr = a ∨
      (s.file.mshr l).state ≠ .invalid ∧ (s.file.mshr l).req.addr = a := by
  replace haddr : ((s.file.next i.toMSHRFileIn).mshr l).req.addr = a := haddr
  rw [next_addr] at haddr
  cases halloc : (s.file.mshr l).alloc (s.file.input i.toMSHRFileIn l) with
  | true =>
    rw [halloc] at haddr
    exact .inl ⟨rfl, haddr⟩
  | false =>
    rw [halloc] at haddr
    refine .inr ⟨?_, haddr⟩
    rcases h with h | h
    · exact busy_of_next halloc h
    · exact busy_of_next halloc (busy_of_takes h)

/-- No miss is taken on for a block that a handler works on. -/
theorem not_alloc_of_busy {k l : Fin p.nMSHRs} (hk : (s.file.mshr k).state ≠ .invalid)
    (hl : (s.file.mshr l).alloc (s.file.input i.toMSHRFileIn l)) :
    i.req.addr ≠ (s.file.mshr k).req.addr :=
  fun heq => idx_ne_of_alloc hl hk (congrArg BlockAddr.idx heq.symm)

/-- A block that a handler works on. -/
theorem waitingFor_next_of_busy (hf : s.file.Sound) (ho : s.file.Owned)
    (hq : 0 < p.replayQueueDepth) (hi : i.reqValid → i.req.cmd ≠ .NOP)
    (hbusy : (s.file.mshr k).state ≠ .invalid) (hk : (s.file.mshr k).req.addr = a) :
    s.waitingFor a ++ forBlock a (s.accepted i).toList =
      forBlock a (s.replayed i).toList ++ (s.next i).waitingFor a := by
  have halone (l : Fin p.nMSHRs) (hl : (s.file.mshr l).state ≠ .invalid)
      (haddr : (s.file.mshr l).req.addr = a) : l = k :=
    hf.unique l k hl hbusy (congrArg BlockAddr.idx (haddr.trans hk.symm))
  have halone' (l : Fin p.nMSHRs)
      (hl : ((s.next i).file.mshr l).state ≠ .invalid ∨ s.file.takes i.toMSHRFileIn l)
      (haddr : ((s.next i).file.mshr l).req.addr = a) : l = k := by
    rcases alloc_or_busy hl haddr with ⟨halloc, hreq⟩ | ⟨hl, haddr⟩
    · exact absurd (hreq.trans hk.symm) (not_alloc_of_busy hbusy halloc)
    · exact halone l hl haddr
  have hk' : ((s.next i).file.mshr k).req.addr = a := by
    have halloc : (s.file.mshr k).alloc (s.file.input i.toMSHRFileIn k) = false := by
      simp [MSHR.alloc, MSHR.reqPriRdy, hbusy]
    change ((s.file.next i.toMSHRFileIn).mshr k).req.addr = a
    rw [next_addr, halloc]
    exact hk
  rw [waitingFor_eq hf hk halone, waitingFor_eq (hf.next hi) hk' fun l hl => halone' l (.inl hl),
    forBlock_accepted hf hq hk' fun l hl => halone' l (.inr hl), forBlock_replayed hf ho hk halone,
    waitingAt_eq (i := i), waitingAt_next hf ho, List.append_assoc]

/-- A block that no handler works on. -/
theorem waitingFor_next_of_idle (hf : s.file.Sound) (ho : s.file.Owned)
    (hq : 0 < p.replayQueueDepth) (hi : i.reqValid → i.req.cmd ≠ .NOP)
    (hidle : ∀ k, (s.file.mshr k).state ≠ .invalid → (s.file.mshr k).req.addr ≠ a) :
    s.waitingFor a ++ forBlock a (s.accepted i).toList =
      forBlock a (s.replayed i).toList ++ (s.next i).waitingFor a := by
  have hreplayed : forBlock a (s.replayed i).toList = [] := by
    unfold replayed
    cases h : s.file.replayFire i.toMSHRFileIn with
    | none => rfl
    | some x =>
      obtain ⟨e, -, he, -⟩ := hf.leaves_of_replayFire h
      have hbusy : (s.file.mshr x.1).state ≠ .invalid := fun hs => by simp [hf.idle _ hs] at he
      simp [forBlock, hidle x.1 hbusy]
  rw [waitingFor_eq_nil hidle, hreplayed, List.nil_append, List.nil_append]
  by_cases hl : ∃ l, (s.file.mshr l).alloc (s.file.input i.toMSHRFileIn l) ∧ i.req.addr = a
  · obtain ⟨l, halloc, haddr⟩ := hl
    have hl' : ((s.next i).file.mshr l).req.addr = a := by
      change ((s.file.next i.toMSHRFileIn).mshr l).req.addr = a
      rw [next_addr, if_pos halloc, haddr]
    have halone (j : Fin p.nMSHRs)
        (hj : ((s.next i).file.mshr j).state ≠ .invalid ∨ s.file.takes i.toMSHRFileIn j)
        (hja : ((s.next i).file.mshr j).req.addr = a) : j = l := by
      rcases alloc_or_busy hj hja with ⟨hj, -⟩ | ⟨hj, hja⟩
      · exact alloc_unique hj halloc
      · exact absurd hja (hidle j hj)
    have hempty : (s.file.mshr l).rpq = [] := by
      have hstate : (s.file.mshr l).state = .invalid := by
        have hrdy := valid_of_firstValid ((alloc_eq l).mp halloc).2.2.2
        simpa [MSHR.reqPriRdy] using hrdy
      exact hf.idle l hstate
    have hstays : s.file.stays i.toMSHRFileIn l = [] := by simp [stays, hempty]
    rw [forBlock_accepted hf hq hl' fun j hj => halone j (.inr hj),
      waitingFor_eq (hf.next hi) hl' fun j hj => halone j (.inl hj), waitingAt_next hf ho, hstays]
    rfl
  · have hnone (j : Fin p.nMSHRs)
        (hj : ((s.next i).file.mshr j).state ≠ .invalid ∨ s.file.takes i.toMSHRFileIn j) :
        ((s.next i).file.mshr j).req.addr ≠ a := by
      intro hja
      rcases alloc_or_busy hj hja with halloc | ⟨hj, hja⟩
      · exact hl ⟨j, halloc⟩
      · exact hidle j hj hja
    rw [waitingFor_eq_nil fun j hj => hnone j (.inl hj)]
    unfold accepted
    by_cases h : (i.reqValid && s.file.reqReady i.req && !i.req.cmd.isPrefetch) = true
    · rw [if_pos h]
      simp only [Bool.and_eq_true, Bool.not_eq_true'] at h
      obtain ⟨j, htakes, haddr⟩ := exists_takes hf hq h.1.1 h.1.2 h.2
      have hne : i.req.addr ≠ a := haddr ▸ hnone j (.inr (by simp [htakes]))
      simp [forBlock, hne]
    · rw [if_neg h]
      rfl

/-- What waits for a block and what is taken on for it is what is replayed of it and what then
waits for it. -/
theorem waitingFor_next (hf : s.file.Sound) (ho : s.file.Owned) (hq : 0 < p.replayQueueDepth)
    (hi : i.reqValid → i.req.cmd ≠ .NOP) (a : BlockAddr p) :
    s.waitingFor a ++ forBlock a (s.accepted i).toList =
      forBlock a (s.replayed i).toList ++ (s.next i).waitingFor a := by
  by_cases hk : ∃ k, (s.file.mshr k).state ≠ .invalid ∧ (s.file.mshr k).req.addr = a
  · obtain ⟨k, hbusy, hk⟩ := hk
    exact waitingFor_next_of_busy hf ho hq hi hbusy hk
  · exact waitingFor_next_of_idle hf ho hq hi fun k hbusy haddr => hk ⟨k, hbusy, haddr⟩

theorem Conserves.next {g : StoreLog p D} (h : s.Conserves g) (hq : 0 < p.replayQueueDepth)
    (hi : i.reqValid → i.req.cmd ≠ .NOP) : (s.next i).Conserves (g.step s i) where
  sound := h.sound.next hi
  owned := h.owned.next h.sound hq
  log a := by
    have hwait := waitingFor_next h.sound h.owned hq hi a
    have happend (l l' : List (MissAccess p D)) :
        forBlock a (l ++ l') = forBlock a l ++ forBlock a l' := List.filter_append ..
    rw [StoreLog.step, happend, happend, h.log, List.append_assoc, List.append_assoc, hwait]

end StoreFile

/-! ## The runs -/

section Runs

variable {s : StoreFile p D} {g : StoreLog p D}

/-- The handlers out of reset. -/
def MSHRFile.IsReset (f : MSHRFile p) : Prop :=
  (∀ k, (f.mshr k).state = .invalid ∧ (f.mshr k).refillCnt = 0 ∧ (f.mshr k).rpq = []) ∧
    ∀ j, f.sdqVal j = false

theorem StoreFile.waitingFor_of_idle (h : ∀ k, (s.file.mshr k).state = .invalid)
    (a : BlockAddr p) : s.waitingFor a = [] :=
  StoreFile.waitingFor_eq_nil fun k hk => absurd (h k) hk

theorem StoreFile.Conserves.init (h : s.file.IsReset) : s.Conserves ⟨[], []⟩ where
  sound := by
    refine ⟨fun k _ hk _ _ => absurd (h.1 k).1 hk, fun k _ => (h.1 k).2.2, fun k e he => ?_⟩
    simp [(h.1 k).2.2] at he
  owned := by
    have hq : s.file.queued = 0 := Finset.sum_eq_zero fun k _ => by simp [(h.1 k).2.2]
    exact ⟨fun e he => by simp [hq] at he, by simp [hq, MSHRFile.storeIds]⟩
  log a := by rw [StoreFile.waitingFor_of_idle (fun k => (h.1 k).1) a]; rfl

/-- Everything that waits is replayed when the environment lets the handlers finish. -/
theorem leads_replayed (hq : 0 < p.replayQueueDepth) (h : s.Conserves g) (hcnt : s.file.Counting) :
    ((storeMachine p D).restrict fun x i => x.1.file.Serves i.toMSHRFileIn).Leads (fun _ => True)
      (fun x => x.2.accepted = g.accepted ∧
        ∀ a, forBlock a x.2.accepted = forBlock a x.2.replayed) (s, g) := by
  induction hk : ∑ k, (s.file.mshr k).rank using Nat.strong_induction_on generalizing s g with
  | _ n ih =>
    by_cases hbusy : ∃ k, (s.file.mshr k).state ≠ .invalid
    · obtain ⟨k, hbusy⟩ := hbusy
      refine .step trivial fun i hi => ?_
      have haccepted : (g.step s i).accepted = g.accepted := by
        simp [StoreLog.step, StoreFile.accepted, hi.2.noReq]
      rw [← haccepted]
      refine ih _ ?_ (h.next hq hi.1) hcnt.next rfl
      exact hk ▸ hi.2.sum_rank_lt hcnt hbusy
    · simp only [not_exists, not_not] at hbusy
      refine .here ⟨rfl, fun a => ?_⟩
      rw [h.log, StoreFile.waitingFor_of_idle hbusy, List.append_nil]

theorem conserves_run (hq : 0 < p.replayQueueDepth) (hs : s.file.IsReset)
    {is : List (StoreIn p D)} (hl : (storeMachine p D).Legal (s, ⟨[], []⟩) is) :
    let x := (storeMachine p D).run (s, ⟨[], []⟩) is
    x.1.Conserves x.2 ∧ x.1.file.Counting := by
  refine Machine.invariant_run (m := storeMachine p D)
    (P := fun x => x.1.Conserves x.2 ∧ x.1.file.Counting)
    (fun x i hx hi => ⟨hx.1.next hq hi, hx.2.next⟩) ⟨.init hs, fun k => ?_⟩ hl
  rw [(hs.1 k).2.1]
  exact Nat.mul_pos p.refillCyclesPerBeat_pos p.outerDataBeats_pos

/-- The store data queue keeps the data of every store until the store has been replayed. The
accesses taken on for a block are replayed in order, each once, with the command and the data they
came with: those replayed so far are the first ones and the others wait. No entry of a waiting
store is given to another one. And what waits is replayed, as soon as the environment lets the
handlers finish. -/
theorem store_data_kept (p : L1Params) {D : Type*} (hq : 0 < p.replayQueueDepth)
    {s : StoreFile p D} (hs : s.file.IsReset) {is : List (StoreIn p D)}
    (hl : (storeMachine p D).Legal (s, ⟨[], []⟩) is) :
    let m := storeMachine p D
    let x := m.run (s, ⟨[], []⟩) is
    (∀ a, forBlock a x.2.accepted = forBlock a x.2.replayed ++ x.1.waitingFor a) ∧
      (∀ k, ∀ e ∈ (x.1.file.mshr k).rpq, e.cmd.isWrite = true → x.1.file.sdqRdy = true →
        e.sdqId ≠ x.1.file.sdqAllocId) ∧
      ∀ f : ℕ → StoreIn p D,
        (∀ n, (m.run x (Machine.firstInputs f n)).1.file.Serves (f n).toMSHRFileIn) →
        ∃ n, let y := m.run x (Machine.firstInputs f n)
          y.2.accepted = x.2.accepted ∧
            ∀ a, forBlock a y.2.accepted = forBlock a y.2.replayed := by
  obtain ⟨hinv, hcnt⟩ := conserves_run hq hs hl
  refine ⟨hinv.log, fun k e he hw hrdy heq => ?_, fun f hf => ?_⟩
  · exact MSHRFile.not_holds_sdqAllocId hrdy
      (heq ▸ hinv.owned.held e (MSHRFile.mem_queued he) hw)
  · obtain ⟨n, hn, -⟩ := (leads_replayed hq hinv hcnt).exists_run f fun n => by
      rw [Machine.run_restrict]
      exact ⟨fun hv => absurd hv (by simp [(hf n).noReq]), hf n⟩
    rw [Machine.run_restrict] at hn
    exact ⟨n, hn⟩

/-- Two handlers with one entry each, and two entries for store data. -/
def twoHandlers : L1Params := { L1Params.small with nMSHRs := 2, sdqDepth := 2 }

/-- A store that misses and a grant. -/
def twoHandlersCycle (store : Option (BitVec 1 × BitVec 68)) (grant : Option (Fin 2)) :
    StoreIn twoHandlers (BitVec 68) where
  reqValid := store.isSome
  req := ⟨⟨0, (store.map Prod.fst).getD 0⟩, .XWR, false, ⟨0, .clientInvalid⟩, fun _ => true, 0⟩
  memReqReady := true
  metaReadReady := true
  metaWriteReady := true
  replayReady := true
  wbReqReady := true
  memGrant := grant.map fun k => ⟨k, some .grantExclusive⟩
  data := (store.map Prod.snd).getD 0

/-- The registers out of reset. -/
def twoHandlersReset : StoreFile twoHandlers (BitVec 68) where
  file :=
    { mshr := fun _ =>
        { state := .invalid, newCohState := .clientInvalid, req := (twoHandlersCycle none none).req
          refillCnt := 0, rpq := [], metaHazard := 0 }
      sdqVal := fun _ => false }
  sdq := fun _ => 0
  replaySdqId := 0

/-- Stores to two blocks; the first one is granted and replayed. -/
def twoHandlersRun : List (StoreIn twoHandlers (BitVec 68)) :=
  [twoHandlersCycle (some (0, 5)) none, twoHandlersCycle (some (1, 7)) none,
    twoHandlersCycle none none, twoHandlersCycle none (some ⟨0, Nat.two_pos⟩),
    twoHandlersCycle none none, twoHandlersCycle none none, twoHandlersCycle none none]

theorem store_data_kept_twoHandlers :
    let x := (storeMachine twoHandlers (BitVec 68)).run (twoHandlersReset, ⟨[], []⟩) twoHandlersRun
    x.2.accepted = [⟨⟨0, 0⟩, .XWR, some 5⟩, ⟨⟨0, 1⟩, .XWR, some 7⟩] ∧
      x.2.replayed = [⟨⟨0, 0⟩, .XWR, some 5⟩] ∧
      ∀ a, forBlock a x.2.accepted = forBlock a x.2.replayed ++ x.1.waitingFor a := by
  refine ⟨by decide +kernel, by decide +kernel, (store_data_kept twoHandlers (by decide) ?_ ?_).1⟩
  · exact ⟨fun _ => ⟨rfl, rfl, rfl⟩, fun _ => rfl⟩
  · simp [storeMachine, twoHandlersRun, twoHandlersCycle]

end Runs

end TaggedRiscv.L1
