import TaggedRiscv.TagCache.Isolation
import TaggedRiscv.TagCache.SliceStep

/-!
# The tag cache as a composition of slices

Every tracker of the tag cache has its slice of the system: its registers, its side
of the memory, the set its block belongs to, and the blocks of the memory that its
transaction can reach. While no other tracker works on the same set, the system's
clock edge is the slice's own, and the rest of the system is for the slice what
`Slice.Env` asks for.
-/

namespace TaggedRiscv.TagCache

open Sync TagUtil Function

variable {n : ℕ} {g : Geometry}

namespace Slice

variable {s : Slice g} {i : TrackerIn g} {store : ℕ → Fin 4 → Row}

/-! ## What a slice leaves alone -/

/-- A tracker does not read the metadata array again before the answer. -/
theorem Inv.metaReadValid_of_token (hi : s.Inv store) (h : s.metaToken ≠ .none) :
    s.metaReadValid = false := by
  have hst : s.state = .metaResp := by
    by_contra hst
    exact h (hi.rest.metaToken hst)
  simp [Tracker.metaReadValid, hst]

/-- What a slice stores leaves the lines of other sets alone. -/
theorem Inv.backAfter_apart (hi : s.Inv store) (he : s.Env i) {idx : Fin g.nSets}
    (hne : s.idx ≠ idx) (back : ℕ → Fin 4 → Row) : backAfter idx back (s.stored i) = back := by
  rcases hi.stored_cases he with h | ⟨_, _, b, h⟩ | ⟨_, _, _, _, w, hv, h⟩
  · rw [h]
    rfl
  · funext tag
    rw [h, backAfter_some, if_neg]
    rintro ⟨hl, hadr⟩
    exact not_inWindow_tagAddr hl (hadr ▸ hi.window)
  · funext tag
    rw [h, backAfter_some, if_neg]
    rintro ⟨hl, hadr⟩
    exact hne (lineAt_inj (tagAddr_inj (hv.ok.dataLine hv.valid) hl hadr)).1

/-- What a slice stores leaves the other blocks alone, and a read leaves all blocks. -/
theorem Inv.blockAfter_apart (hi : s.Inv store) (he : s.Env i) {addr : ℕ} (hw : InWindow addr)
    (hne : s.isWriteProcess → s.addrOut ≠ addr) (b : Fin 4 → Raw) :
    blockAfter addr b (s.stored i) = b := by
  rcases hi.stored_cases he with h | ⟨_, hwp, b, h⟩ | ⟨_, _, _, _, w, hv, h⟩
  · rw [h]
    rfl
  · simp [h, blockAfter, hne hwp]
  · have hadr : tagAddr (lineAt s.idx (s.metas w).tag) ≠ addr := by
      rintro rfl
      exact not_inWindow_tagAddr (hv.ok.dataLine hv.valid) hw
    simp [h, blockAfter, hadr]

end Slice

namespace Sys

section Defs

variable (s : Sys n g) (i : SysIn n g)

/-- A tracker handles a transaction. -/
def Active (k : Fin n) : Prop := (s.tracker k).state ≠ .idle
deriving Decidable

/-- The set of a tracker's block. -/
def set (k : Fin n) : Fin g.nSets := addrToIndex g (s.tracker k).addrOut

/-- The lines of a set in the tag partition. -/
def lines (mem : ℕ → Fin 4 → Raw) (idx : Fin g.nSets) (tag : ℕ) : Fin 4 → Row :=
  if DataLine (lineAt idx tag) then fun r => rowOf (mem (tagAddr (lineAt idx tag)) r)
  else fun _ _ => 0

/-- The metadata of a set. Until the reset sweep is over nobody reads or writes the
array, so the set counts as cleared already. -/
def metas (idx : Fin g.nSets) : Fin g.nWays → Meta :=
  if s.cache.metaArr.rst then fun _ => ⟨false, false, false, 0⟩
  else s.cache.metaArr.metaArray idx

/-- The reset sweep has cleared the sets it has passed. -/
def Swept : Prop :=
  s.cache.metaArr.rst = true → ∀ idx : Fin g.nSets, idx.val < s.cache.metaArr.rstCnt →
    s.cache.metaArr.metaArray idx = fun _ => ⟨false, false, false, 0⟩

/-- A tracker's read of the metadata array on its way. -/
def metaToken (k : Fin n) : MetaToken g :=
  if s.cache.metaArr.respValidFor k then .answered s.cache.metaArr.resp
  else if s.cache.metaArr.s1ClkEn && s.cache.metaArr.s1.map (·.id) == some k then .asked
  else .none

/-- A tracker's read of the data array on its way. -/
def dataToken (k : Fin n) : Option (Fin 4 × (Fin g.nWays → Bool)) :=
  if s.cache.dataArr.respValidFor k then s.cache.dataArr.rReq.map fun r => (r.row, r.wayEn)
  else none

/-- The slice of a tracker. -/
def slice (k : Fin n) : Slice g :=
  { idx := s.set k
    toTracker := s.tracker k
    port := s.port k
    metas := s.metas (s.set k)
    rows := fun w => s.cache.dataArr.array w (s.set k)
    back := lines s.mem (s.set k)
    block := s.mem (s.tracker k).addrOut
    metaToken := s.metaToken k
    dataToken := s.dataToken k }

/-- A read that is on its way for a tracker is one of the tracker's set, made after the
reset sweep, and there is one at a time. -/
structure Latched (k : Fin n) : Prop where
  metaRead : s.cache.metaArr.s1ClkEn → ∀ r, s.cache.metaArr.s1 = some r → r.id = k →
    r = s.cache.metaReadReq k ∧ s.cache.metaArr.rst = false
  dataRead : s.cache.dataArr.rValid → ∀ r, s.cache.dataArr.rReq = some r → r.id = k →
    r.idx = s.set k
  single : s.cache.metaArr.respValidFor k →
    (s.cache.metaArr.s1ClkEn && s.cache.metaArr.s1.map (·.id) == some k) = false

end Defs

variable {s : Sys n g} {i : SysIn n g} {k : Fin n} {idx : Fin g.nSets}

@[simp] theorem slice_tracker : (s.slice k).toTracker = s.tracker k := rfl

theorem next_tracker : (s.next i).tracker k = (s.tracker k).next (s.trackerIn i k) := rfl

/-! ## Who is served -/

theorem outAcquireFire_iff :
    (s.tracker k).outAcquireFire (s.trackerIn i k) ↔
      s.cache.outServed (s.cacheIn i) = some k := by
  constructor
  · intro h
    have hready : (s.trackerIn i k).outAcquireReady := (Bool.and_eq_true _ _ ▸ h).2
    exact beq_iff_eq.1 hready
  · intro h
    have hv : s.cache.outValid (s.cacheIn i) k := LockArb.valid_of_served _ h
    have hready : (s.trackerIn i k).outAcquireReady := beq_iff_eq.2 h
    rw [Tracker.outAcquireFire, hready, Bool.and_true]
    exact hv

theorem metaWrite_iff :
    ((s.tracker k).metaWriteValid && (s.trackerIn i k).metaWriteReady) = true ↔
      s.cache.metaWriter = some k ∧ s.cache.metaArr.rst = false := by
  have hready : (s.trackerIn i k).metaWriteReady =
      (s.cache.metaWriter == some k && !s.cache.metaArr.rst) := rfl
  rw [hready, Bool.and_eq_true, Bool.and_eq_true, beq_iff_eq, Bool.not_eq_true']
  exact ⟨And.right, fun h => ⟨LockArb.valid_of_chosen _ h.1, h⟩⟩

theorem dataWrite_iff :
    ((s.tracker k).dataWriteValid && (s.trackerIn i k).dataWriteReady) = true ↔
      s.cache.dataWriter = some k := by
  rw [Bool.and_eq_true]
  exact ⟨fun h => beq_iff_eq.1 h.2, fun h => ⟨LockArb.valid_of_chosen _ h, beq_iff_eq.2 h⟩⟩

theorem metaRead_iff :
    ((s.tracker k).metaReadValid && (s.trackerIn i k).metaReadReady) = true ↔
      s.cache.metaReader = some k ∧ s.cache.metaReadReady := by
  have hready : (s.trackerIn i k).metaReadReady =
      (s.cache.metaReader == some k && s.cache.metaReadReady) := rfl
  rw [hready, Bool.and_eq_true, Bool.and_eq_true, beq_iff_eq]
  exact ⟨And.right, fun h => ⟨LockArb.valid_of_chosen _ h.1, h⟩⟩

theorem dataRead_iff :
    ((s.tracker k).dataReadValid && (s.trackerIn i k).dataReadReady) = true ↔
      s.cache.dataReader = some k ∧ s.cache.dataReadReady := by
  have hready : (s.trackerIn i k).dataReadReady =
      (s.cache.dataReader == some k && s.cache.dataReadReady) := rfl
  rw [hready, Bool.and_eq_true, Bool.and_eq_true, beq_iff_eq]
  exact ⟨And.right, fun h => ⟨LockArb.valid_of_chosen _ h.1, h⟩⟩

/-- A tracker that uses the arrays handles a transaction. -/
theorem active_of_metaWriter (h : s.cache.metaWriter = some k) : s.Active k := by
  intro hs
  have hv := LockArb.valid_of_chosen _ h
  simp [Tracker.metaWriteValid, hs] at hv

theorem active_of_dataWriter (h : s.cache.dataWriter = some k) : s.Active k := by
  intro hs
  have hv := LockArb.valid_of_chosen _ h
  simp [Tracker.dataWriteValid, hs] at hv

theorem active_of_metaReader (h : s.cache.metaReader = some k) : s.Active k := by
  intro hs
  have hv := LockArb.valid_of_chosen _ h
  simp [Tracker.metaReadValid, hs] at hv

theorem active_of_dataReader (h : s.cache.dataReader = some k) : s.Active k := by
  intro hs
  have hv := LockArb.valid_of_chosen _ h
  simp [Tracker.dataReadValid, hs] at hv

/-- A tracker that sends a request handles a transaction. -/
theorem active_of_outServed (hwf : (s.tracker k).Wf)
    (h : s.cache.outServed (s.cacheIn i) = some k) : s.Active k := by
  intro hs
  have hv : s.cache.outValid (s.cacheIn i) k := LockArb.valid_of_served _ h
  obtain ⟨hr, hw, _⟩ := hwf.done (hwf.process_of_idle hs)
  simp [outValid, Tracker.outAcquireValid, Tracker.memSendTag, Tracker.memReceiveTag, hs,
    hr, hw] at hv

/-! ## What is stored -/

theorem slice_msg : (s.slice k).msg (s.trackerIn i k) = s.outBits i k := rfl

theorem slice_stored :
    (s.slice k).stored (s.trackerIn i k) =
      if s.cache.outServed (s.cacheIn i) = some k then s.stored i else none := by
  by_cases h : s.cache.outServed (s.cacheIn i) = some k
  · have hf : (s.slice k).outAcquireFire (s.trackerIn i k) :=
      outAcquireFire_iff.2 h
    rw [if_pos h, Slice.stored, hf, if_pos rfl, stored, h]
    rfl
  · have hf : (s.slice k).outAcquireFire (s.trackerIn i k) ≠ true :=
      fun hf => h (outAcquireFire_iff.1 hf)
    rw [if_neg h, Slice.stored, if_neg hf]

theorem slice_stored_of_served (h : s.cache.outServed (s.cacheIn i) = some k) :
    (s.slice k).stored (s.trackerIn i k) = s.stored i := by
  rw [slice_stored, if_pos h]

theorem mem_next (addr : ℕ) :
    (s.next i).mem addr = Slice.blockAfter addr (s.mem addr) (s.stored i) := by
  simp only [next]
  cases s.stored i with
  | none => rfl
  | some b =>
    by_cases h : addr = b.1
    · subst h
      simp [Slice.blockAfter]
    · simp [Slice.blockAfter, update_of_ne h, Ne.symm h]

theorem lines_next (idx : Fin g.nSets) :
    lines (s.next i).mem idx = Slice.backAfter idx (lines s.mem idx) (s.stored i) := by
  funext tag
  by_cases hl : DataLine (lineAt idx tag)
  · rw [lines, if_pos hl, mem_next]
    cases s.stored i with
    | none => simp [Slice.blockAfter, Slice.backAfter, lines, hl]
    | some b =>
      by_cases h : b.1 = tagAddr (lineAt idx tag) <;>
        simp [Slice.blockAfter, Slice.backAfter, lines, hl, h]
  · cases s.stored i <;> simp [lines, Slice.backAfter, hl]

/-! ## Frames -/

theorem rstCnt_next :
    (s.next i).cache.metaArr.rstCnt =
      if s.cache.metaArr.rst then s.cache.metaArr.rstCnt + 1 else s.cache.metaArr.rstCnt := rfl

/-- The reset sweep does not start again. -/
theorem rst_next (hrst : s.cache.metaArr.rst = false) : (s.next i).cache.metaArr.rst = false := by
  rw [MetaArray.rst, rstCnt_next, hrst]
  exact hrst

/-- The sweep clears the next set. -/
theorem metaArray_sweep (hrst : s.cache.metaArr.rst) (hsw : s.Swept) (idx : Fin g.nSets)
    (hidx : idx.val < s.cache.metaArr.rstCnt + 1) :
    (s.next i).cache.metaArr.metaArray idx = fun _ => ⟨false, false, false, 0⟩ := by
  have hdef : (s.next i).cache.metaArr.metaArray =
      fun idx => if idx.val = s.cache.metaArr.rstCnt then fun _ => ⟨false, false, false, 0⟩
        else s.cache.metaArr.metaArray idx := by
    change (s.cache.metaArr.next (s.cache.metaWriter.map s.cache.metaWriteReq)
      (s.cache.metaReader.map s.cache.metaReadReq) i.replaceWay).metaArray = _
    simp only [MetaArray.next, hrst, if_true]
  rw [hdef]
  by_cases h : idx.val = s.cache.metaArr.rstCnt
  · simp [h]
  · simp only [h, if_false]
    exact hsw hrst idx (by omega)

theorem swept_next (hsw : s.Swept) : (s.next i).Swept := by
  intro hrst idx hidx
  cases hold : s.cache.metaArr.rst with
  | false => rw [rst_next hold] at hrst; exact absurd hrst (by simp)
  | true =>
    rw [rstCnt_next, hold, if_pos rfl] at hidx
    exact metaArray_sweep hold hsw idx hidx

/-- The metadata of a set after a cycle: only a writer of the set changes it. -/
theorem metas_next (hsw : s.Swept) (idx : Fin g.nSets) :
    (s.next i).metas idx =
      if s.cache.metaArr.rst then s.metas idx
      else match s.cache.metaWriter with
      | some j =>
        if s.set j = idx then fun v =>
          if (s.tracker j).acqWayEn v then (s.tracker j).metaWriteTag else s.metas idx v
        else s.metas idx
      | none => s.metas idx := by
  cases hrst : s.cache.metaArr.rst with
  | true =>
    -- the set has been cleared by the time the sweep is over
    rw [if_pos rfl, metas, metas, hrst, if_pos rfl]
    split_ifs with hrst'
    · rfl
    · apply metaArray_sweep hrst hsw
      rw [MetaArray.rst, rstCnt_next, hrst, if_pos rfl, decide_eq_true_eq] at hrst'
      omega
  | false =>
    have hdef : (s.next i).cache.metaArr.metaArray = (s.cache.metaArr.next
        (s.cache.metaWriter.map s.cache.metaWriteReq)
        (s.cache.metaReader.map s.cache.metaReadReq) i.replaceWay).metaArray := rfl
    rw [metas, rst_next hrst, hdef]
    simp only [MetaArray.next, metas, hrst, Bool.false_eq_true, if_false]
    cases s.cache.metaWriter with
    | none => rfl
    | some j =>
      by_cases h : s.set j = idx
      · subst h
        simp only [Option.map_some, if_true]
        exact update_self ..
      · simp only [Option.map_some, h, if_false]
        exact update_of_ne (Ne.symm h) ..

theorem array_next (idx : Fin g.nSets) (w : Fin g.nWays) :
    (s.next i).cache.dataArr.array w idx =
      match s.cache.dataWriter with
      | some j =>
        if s.set j = idx ∧ (s.tracker j).acqWayEn w = true then
          update (s.cache.dataArr.array w idx) (s.tracker j).dataWriteRow
            (DataArray.writeRow (s.cache.dataArr.array w idx (s.tracker j).dataWriteRow)
              (rowOf (s.tracker j).dataWriteBits) (s.tracker j).dataWriteMask)
        else s.cache.dataArr.array w idx
      | none => s.cache.dataArr.array w idx := by
  have hdef : (s.next i).cache.dataArr = s.cache.dataArr.next
      (s.cache.dataWriter.map s.cache.dataWriteReq)
      (s.cache.dataReader.map s.cache.dataReadReq) := rfl
  rw [hdef]
  simp only [DataArray.next]
  cases s.cache.dataWriter with
  | none => rfl
  | some j =>
    change (if (s.tracker j).acqWayEn w then update (s.cache.dataArr.array w) (s.set j) _
      else s.cache.dataArr.array w) idx = _
    by_cases hw : (s.cache.tracker j).acqWayEn w
    · by_cases h : s.set j = idx
      · subst h
        simp only [tracker, hw, and_self, if_true]
        exact update_self ..
      · simp only [tracker, hw, h, false_and, if_true, if_false]
        exact update_of_ne (Ne.symm h) ..
    · have hno : ¬ (s.set j = idx ∧ (s.tracker j).acqWayEn w) := fun h => hw h.2
      rw [if_neg hw]
      exact (if_neg hno).symm

section Frames

variable (hwf : ∀ j, (s.tracker j).Wf)
variable
  (hact : ∀ j, s.Active j → ∃ store, (s.slice j).Inv store ∧ (s.slice j).Env (s.trackerIn i j))

include hwf hact

/-- Only a tracker of the set changes its lines. -/
theorem lines_frame (h : ∀ j, s.cache.outServed (s.cacheIn i) = some j → s.set j ≠ idx) :
    lines (s.next i).mem idx = lines s.mem idx := by
  rw [lines_next]
  cases hj : s.cache.outServed (s.cacheIn i) with
  | none =>
    rw [stored, hj]
    rfl
  | some j =>
    obtain ⟨store, hi, he⟩ := hact j (active_of_outServed (hwf j) hj)
    rw [← slice_stored_of_served hj]
    exact hi.backAfter_apart he (h j hj) _

/-- Only a write to a block changes it. -/
theorem mem_frame {addr : ℕ} (hw : InWindow addr)
    (h : ∀ j, s.Active j → (s.tracker j).isWriteProcess → (s.tracker j).addrOut ≠ addr) :
    (s.next i).mem addr = s.mem addr := by
  rw [mem_next]
  cases hj : s.cache.outServed (s.cacheIn i) with
  | none =>
    rw [stored, hj]
    rfl
  | some j =>
    have ha := active_of_outServed (hwf j) hj
    obtain ⟨store, hi, he⟩ := hact j ha
    rw [← slice_stored_of_served hj]
    exact hi.blockAfter_apart he hw (h j ha) _

end Frames

/-! ## The reads on their way -/

/-- The metadata array answers for the tracker in its first stage. -/
theorem respValidFor_next :
    (s.next i).cache.metaArr.respValidFor k =
      (s.cache.metaArr.s1ClkEn && s.cache.metaArr.s1.map (·.id) == some k) := by
  change (s.cache.metaArr.s1ClkEn &&
    (if s.cache.metaArr.s1ClkEn then s.cache.metaArr.s1.map (·.id) else s.cache.metaArr.s2Id) ==
      some k) = _
  cases s.cache.metaArr.s1ClkEn <;> simp

/-- A read enters the first stage when it is served. -/
theorem s1_next :
    (s.next i).cache.metaArr.s1ClkEn = (s.cache.metaReader.isSome && s.cache.metaReadReady) ∧
      (s.next i).cache.metaArr.s1 =
        (s.cache.metaReader.map s.cache.metaReadReq <|> s.cache.metaArr.s1) := by
  refine ⟨?_, rfl⟩
  change ((s.cache.metaReader.map s.cache.metaReadReq).isSome && !s.cache.metaArr.rst &&
    (s.cache.metaWriter.map s.cache.metaWriteReq).isNone) = _
  simp [metaReadReady, Bool.and_assoc]

theorem asked_next :
    ((s.next i).cache.metaArr.s1ClkEn &&
        (s.next i).cache.metaArr.s1.map (·.id) == some k) =
      ((s.tracker k).metaReadValid && (s.trackerIn i k).metaReadReady) := by
  rw [s1_next.1, s1_next.2, Bool.eq_iff_iff, metaRead_iff]
  cases s.cache.metaReader with
  | none => simp
  | some j => simp [metaReadReq, and_comm]

/-- What the first stage looks up for a tracker. -/
theorem resp_next (hl : s.Latched k)
    (ha : (s.cache.metaArr.s1ClkEn && s.cache.metaArr.s1.map (·.id) == some k) = true) :
    (s.next i).cache.metaArr.resp = (s.slice k).lookup i.replaceWay := by
  rw [Bool.and_eq_true, beq_iff_eq, Option.map_eq_some_iff] at ha
  obtain ⟨hen, r, hs1, hid⟩ := ha
  obtain ⟨rfl, hrst⟩ := hl.metaRead hen r hs1 hid
  have hdef : (s.next i).cache.metaArr = s.cache.metaArr.next
      (s.cache.metaWriter.map s.cache.metaWriteReq) (s.cache.metaReader.map s.cache.metaReadReq)
      i.replaceWay := rfl
  rw [hdef, MetaArray.resp]
  simp only [MetaArray.next, hen, hs1, Slice.lookup, slice, metas, hrst, Bool.false_eq_true,
    if_false]
  rfl

/-- A read of the metadata array moves on by one stage in every cycle. -/
theorem metaToken_next (hl : s.Latched k)
    (hread : s.metaToken k ≠ .none → (s.tracker k).metaReadValid = false) :
    (s.next i).metaToken k =
      match s.metaToken k with
      | .none =>
        if (s.tracker k).metaReadValid && (s.trackerIn i k).metaReadReady then .asked else .none
      | .asked => .answered ((s.slice k).lookup i.replaceWay)
      | .answered _ => .none := by
  have hnext : (s.next i).metaToken k =
      if s.cache.metaArr.s1ClkEn && s.cache.metaArr.s1.map (·.id) == some k then
        .answered (s.next i).cache.metaArr.resp
      else if (s.tracker k).metaReadValid && (s.trackerIn i k).metaReadReady then .asked
      else .none := by
    rw [metaToken, respValidFor_next, asked_next]
  rw [hnext]
  by_cases hans : s.cache.metaArr.respValidFor k
  · have htok : s.metaToken k = .answered s.cache.metaArr.resp := by rw [metaToken, if_pos hans]
    rw [htok, hl.single hans, hread (by simp [htok])]
    rfl
  · by_cases hask : (s.cache.metaArr.s1ClkEn && s.cache.metaArr.s1.map (·.id) == some k) = true
    · have htok : s.metaToken k = .asked := by rw [metaToken, if_neg hans, if_pos hask]
      rw [htok, if_pos hask, resp_next hl hask]
    · have htok : s.metaToken k = .none := by rw [metaToken, if_neg hans, if_neg hask]
      rw [htok, if_neg hask]

/-- A read of the data array is answered in the next cycle. -/
theorem dataToken_next :
    (s.next i).dataToken k =
      if (s.tracker k).dataReadValid && (s.trackerIn i k).dataReadReady then
        some ((s.tracker k).dataReadRow, (s.tracker k).acqWayEn)
      else none := by
  have hreq : (s.next i).cache.dataArr.rReq =
      (s.cache.dataReader.map s.cache.dataReadReq <|> s.cache.dataArr.rReq) := rfl
  have hvalid : (s.next i).cache.dataArr.rValid =
      (s.cache.dataReader.isSome && s.cache.dataReadReady) := by
    change ((s.cache.dataReader.map s.cache.dataReadReq).isSome &&
      (s.cache.dataWriter.map s.cache.dataWriteReq).isNone) = _
    simp [dataReadReady]
  have hfor : (s.next i).cache.dataArr.respValidFor k =
      ((s.tracker k).dataReadValid && (s.trackerIn i k).dataReadReady) := by
    rw [Bool.eq_iff_iff, dataRead_iff, DataArray.respValidFor, hvalid, hreq]
    cases s.cache.dataReader with
    | none => simp
    | some j => simp [dataReadReq, and_comm]
  rw [dataToken, hfor]
  by_cases h : ((s.tracker k).dataReadValid && (s.trackerIn i k).dataReadReady) = true
  · rw [if_pos h, if_pos h, hreq, (dataRead_iff.1 h).1]
    rfl
  · rw [if_neg h, if_neg h]

theorem set_next (hs : s.Active k) : (s.next i).set k = s.set k := by
  have haddr : ((s.next i).tracker k).addrOut = (s.tracker k).addrOut := Tracker.addrOut_next hs
  rw [set, set, haddr]

theorem latched_next (hl : s.Latched k)
    (hread : s.metaToken k ≠ .none → (s.tracker k).metaReadValid = false) :
    (s.next i).Latched k := by
  refine ⟨fun hen r hs1 hid => ?_, fun hv r hreq hid => ?_, fun ha => ?_⟩
  · rw [s1_next.1, Bool.and_eq_true] at hen
    obtain ⟨j, hj⟩ := Option.isSome_iff_exists.1 hen.1
    rw [s1_next.2, hj] at hs1
    obtain rfl : s.cache.metaReadReq j = r := Option.some.inj hs1
    obtain rfl : j = k := hid
    have haddr : ((s.next i).tracker j).addrOut = (s.tracker j).addrOut :=
      Tracker.addrOut_next (active_of_metaReader hj)
    have hready := hen.2
    rw [metaReadReady, Bool.and_eq_true, Bool.not_eq_true'] at hready
    exact ⟨by rw [metaReadReq, metaReadReq, haddr], rst_next hready.1⟩
  · have hvalid : (s.cache.dataReader.map s.cache.dataReadReq).isSome :=
      (Bool.and_eq_true _ _ ▸ hv).1
    rw [Option.isSome_map] at hvalid
    obtain ⟨j, hj⟩ := Option.isSome_iff_exists.1 hvalid
    have hreq' : (s.cache.dataReader.map s.cache.dataReadReq <|> s.cache.dataArr.rReq) =
      some r := hreq
    rw [hj] at hreq'
    obtain rfl : s.cache.dataReadReq j = r := Option.some.inj hreq'
    obtain rfl : j = k := hid
    exact (set_next (active_of_dataReader hj)).symm
  · -- the answered read was in the first stage, so no other one of the tracker was served
    rw [respValidFor_next] at ha
    have htok : s.metaToken k ≠ .none := by
      unfold metaToken
      rw [if_pos ha]
      split <;> simp
    rw [asked_next, hread htok]
    rfl

/-! ## The clock edge of a slice -/

section Slice

variable (hsw : s.Swept) (hk : s.Active k)
variable (halone : ∀ j, s.Active j → s.set j = s.set k → j = k)

include hsw hk halone

theorem slice_metas_next :
    ((s.next i).slice k).metas =
      ((s.slice k).next (s.trackerIn i k) i.replaceWay).metas := by
  have hl : ((s.next i).slice k).metas = (s.next i).metas ((s.next i).set k) := rfl
  rw [hl, set_next hk, metas_next hsw]
  by_cases hw : s.cache.metaWriter = some k ∧ s.cache.metaArr.rst = false
  · have hwr : ((s.slice k).metaWriteValid && (s.trackerIn i k).metaWriteReady) = true :=
      metaWrite_iff.2 hw
    simp only [hw.1, hw.2, Bool.false_eq_true, if_false, if_true, Slice.next, hwr]
    rfl
  · have hwr : ¬ ((s.slice k).metaWriteValid && (s.trackerIn i k).metaWriteReady) = true :=
      fun h => hw (metaWrite_iff.1 h)
    simp only [Slice.next, if_neg hwr]
    cases hrst : s.cache.metaArr.rst with
    | true => rfl
    | false =>
      cases hj : s.cache.metaWriter with
      | none => rfl
      | some j =>
        have hne : s.set j ≠ s.set k := fun h =>
          hw ⟨by rw [hj, halone j (active_of_metaWriter hj) h], hrst⟩
        simp only [hne, Bool.false_eq_true, if_false]
        rfl

omit hsw in
theorem slice_rows_next :
    ((s.next i).slice k).rows =
      ((s.slice k).next (s.trackerIn i k) i.replaceWay).rows := by
  funext w
  have hl : ((s.next i).slice k).rows w =
      (s.next i).cache.dataArr.array w ((s.next i).set k) := rfl
  rw [hl, set_next hk, array_next]
  by_cases hw : s.cache.dataWriter = some k
  · have hwr : ((s.slice k).dataWriteValid && (s.trackerIn i k).dataWriteReady) = true :=
      dataWrite_iff.2 hw
    simp only [hw, true_and, Slice.next, hwr, if_true]
    rfl
  · have hwr : ¬ ((s.slice k).dataWriteValid && (s.trackerIn i k).dataWriteReady) = true :=
      fun h => hw (dataWrite_iff.1 h)
    simp only [Slice.next, if_neg hwr]
    cases hj : s.cache.dataWriter with
    | none => rfl
    | some j =>
      have hne : s.set j ≠ s.set k := fun h => hw (by rw [hj, halone j (active_of_dataWriter hj) h])
      simp only [hne, false_and, if_false]
      rfl

variable (hwf : ∀ j, (s.tracker j).Wf)
variable
  (hact : ∀ j, s.Active j → ∃ store, (s.slice j).Inv store ∧ (s.slice j).Env (s.trackerIn i j))

include hwf hact

omit hsw in
theorem slice_back_next :
    ((s.next i).slice k).back =
      ((s.slice k).next (s.trackerIn i k) i.replaceWay).back := by
  have hl : ((s.next i).slice k).back = lines (s.next i).mem ((s.next i).set k) := rfl
  have hr : ((s.slice k).next (s.trackerIn i k) i.replaceWay).back =
      Slice.backAfter (s.set k) (lines s.mem (s.set k))
        ((s.slice k).stored (s.trackerIn i k)) := rfl
  rw [hl, set_next hk, hr, slice_stored]
  by_cases hserved : s.cache.outServed (s.cacheIn i) = some k
  · rw [if_pos hserved, lines_next]
  · rw [if_neg hserved]
    apply lines_frame hwf hact
    intro j hj hset
    exact hserved (halone j (active_of_outServed (hwf j) hj) hset ▸ hj)

omit hsw in
theorem slice_block_next :
    ((s.next i).slice k).block =
      ((s.slice k).next (s.trackerIn i k) i.replaceWay).block := by
  have hl : ((s.next i).slice k).block = (s.next i).mem ((s.next i).tracker k).addrOut := rfl
  have hr : ((s.slice k).next (s.trackerIn i k) i.replaceWay).block =
      Slice.blockAfter (s.tracker k).addrOut (s.mem (s.tracker k).addrOut)
        ((s.slice k).stored (s.trackerIn i k)) := rfl
  have haddr : ((s.next i).tracker k).addrOut = (s.tracker k).addrOut := Tracker.addrOut_next hk
  rw [hl, haddr, hr, slice_stored]
  by_cases hserved : s.cache.outServed (s.cacheIn i) = some k
  · rw [if_pos hserved, mem_next]
  · rw [if_neg hserved, mem_next]
    obtain ⟨_, hik, _⟩ := hact k hk
    cases hj : s.cache.outServed (s.cacheIn i) with
    | none =>
      rw [stored, hj]
      rfl
    | some j =>
      have hja := active_of_outServed (hwf j) hj
      obtain ⟨_, hij, hej⟩ := hact j hja
      rw [← slice_stored_of_served hj]
      refine hij.blockAfter_apart hej hik.window (fun _ h => ?_) _
      have hset : s.set j = s.set k := congrArg (addrToIndex g) h
      exact hserved (halone j hja hset ▸ hj)

/-- The clock edge of the system is that of the slice. -/
theorem slice_next (hl : s.Latched k) :
    (s.next i).slice k = (s.slice k).next (s.trackerIn i k) i.replaceWay := by
  obtain ⟨_, hik, _⟩ := hact k hk
  apply Slice.ext
  case idx => exact set_next hk
  case metas => exact slice_metas_next hsw hk halone
  case rows => exact slice_rows_next hk halone
  case back => exact slice_back_next hk halone hwf hact
  case block => exact slice_block_next hk halone hwf hact
  case metaToken => exact metaToken_next hl hik.metaReadValid_of_token
  case dataToken => exact dataToken_next
  all_goals rfl

end Slice

/-! ## The surroundings of a slice -/

theorem outGrantValid_iff :
    (s.trackerIn i k).outGrantValid ↔ i.answer = some k := by
  change ((s.cacheIn i).outGrant.map (·.1) == some k) = true ↔ _
  rw [beq_iff_eq]
  cases ha : i.answer with
  | none => simp [cacheIn, ha]
  | some j => simp [cacheIn, ha]

/-- The answer of the memory that a tracker sees is the one that is due to it. -/
theorem outGrantData_eq (h : (s.trackerIn i k).outGrantValid) :
    (s.trackerIn i k).outGrantData = (s.port k).data s.mem := by
  change ((s.cacheIn i).outGrant.map (·.2)).getD 0 = _
  simp [cacheIn, outGrantValid_iff.1 h]

/-- The surroundings of a slice, when the memory answers what is due, the channels show
the tracker its own beats, and the DRAM bit of a write back is right. -/
theorem env {store : ℕ → Fin 4 → Row} (hi : (s.slice k).Inv store) (hl : s.Latched k)
    (hmem : s.MemoryOk i) (hown : (s.tracker k).SeesOwn (s.trackerIn i k))
    (hdram : (s.tracker k).memSendTag →
      s.cache.metaArr.resp.tag.dram = (s.tracker k).acqReplMeta.dram) :
    (s.slice k).Env (s.trackerIn i k) := by
  refine
    { metaResp := fun r hr => ?_
      noMetaResp := fun hv => ?_
      dataResp := fun r en hr => ?_
      noDataResp := fun hr => ?_
      due := fun hv => hmem k (outGrantValid_iff.1 hv)
      blockData := fun cnt hv hp => ?_
      lineData := fun cnt hv hp => ?_
      own := hown
      dram := hdram }
  · have htok : s.metaToken k = .answered r := hr
    unfold metaToken at htok
    split_ifs at htok with hans
    exact ⟨hans, MetaToken.answered.inj htok⟩
  · have hans : s.cache.metaArr.respValidFor k := hv
    exact ⟨_, if_pos hans⟩
  · have htok : s.dataToken k = some (r, en) := hr
    unfold dataToken at htok
    split_ifs at htok with hans
    obtain ⟨req, hreq, he⟩ := Option.map_eq_some_iff.1 htok
    obtain ⟨rfl, rfl⟩ : req.row = r ∧ req.wayEn = en := by simpa using he
    refine ⟨hans, ?_⟩
    rw [DataArray.respValidFor, Bool.and_eq_true, hreq] at hans
    have hset := hl.dataRead hans.1 req hreq (by simpa using hans.2)
    change s.cache.dataArr.resp = _
    rw [DataArray.resp, hreq]
    simp only [hset]
    rfl
  · have htok : s.dataToken k = none := hr
    change s.cache.dataArr.respValidFor k = false
    by_contra hans
    have hans' : s.cache.dataArr.respValidFor k := by simpa using hans
    rw [dataToken, if_pos hans', Option.map_eq_none_iff] at htok
    simp [DataArray.respValidFor, htok] at hans'
  · have hport : s.port k = .get (s.tracker k).addrOut cnt := hp
    rw [outGrantData_eq hv, hport, Port.data, removeTag_insertEmptyTag]
    rfl
  · have hport : s.port k = .get (tagAddr ((s.tracker k).addrOut / 16)) cnt := hp
    have hline : lineAt (s.set k) (tagOf g (s.tracker k).addrOut) = (s.tracker k).addrOut / 16 :=
      lineAt_addr _
    have hback : (s.slice k).back (s.slice k).tag cnt =
        rowOf (s.mem (tagAddr ((s.tracker k).addrOut / 16)) cnt) := by
      change lines s.mem (s.set k) (tagOf g (s.tracker k).addrOut) cnt = _
      have hdata : DataLine ((s.tracker k).addrOut / 16) := dataLine_of_inWindow hi.window
      rw [lines, hline, if_pos hdata]
    rw [outGrantData_eq hv, hport, Port.data, removeTag_insertEmptyTag, hback, rowBits_rowOf]

end Sys

end TaggedRiscv.TagCache
