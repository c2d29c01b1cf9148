import TaggedRiscv.Uncore.AmoShift
import TaggedRiscv.Uncore.L2Tracker

/-!
# Partial writes to the second-level cache

A write mask has a bit for every byte of data. In a tagged beat the bytes of a word lie above the
tags of the words before it, but the tracker spreads the mask over the beat as if there were no tags
(`flatMask`); the mask that is meant is `TagUtil.insertTagMask` (`tagMask`), which nothing uses. So
a partial write replaces the right bytes and tags only where the two masks differ over equal bits.
-/

namespace TaggedRiscv

open Packed Sync TagUtil BitVec

variable {c : L2Params}

/-! ## The layout of a beat -/

namespace L2Params

variable (c) in
/-- A beat as a line of tagged words. -/
def line (x : BitVec c.tl.dataBits) : BitVec (c.words * (c.tagBits + 8 * 8)) := x.cast c.dataBits_eq

variable (c) in
/-- The write mask of a message, with 8 bits for a word. -/
def byteMask (a : Acquire c.tl) : BitVec (c.words * 8) := a.wmaskBits.cast c.maskBits_eq

variable (c) in
/-- The bits of a beat that a write mask selects in the tracker. -/
def flatMask (a : Acquire c.tl) : BitVec c.tl.dataBits := (fillInterleaved 8 a.wmaskBits).setWidth _

variable (c) in
/-- The bits of the selected bytes, and of the tags of their words. -/
def tagMask (a : Acquire c.tl) : BitVec c.tl.dataBits :=
  (insertTagMask c.tagBits (c.byteMask a)).cast c.dataBits_eq.symm

variable (c) in
/-- The number of bits that a write mask covers. -/
def flatBits : ℕ := c.tl.writeMaskBits * 8

theorem flatBits_eq : c.flatBits = c.words * 64 := by
  rw [flatBits, c.maskBits_eq, Nat.mul_assoc]

theorem flatBits_le : c.flatBits ≤ c.tl.dataBits := by
  rw [flatBits_eq, c.dataBits_eq]
  exact Nat.mul_le_mul_left _ (Nat.le_add_left _ _)

theorem words_pos : 0 < c.words := by
  have : 0 < c.tl.writeMaskBits := Nat.two_pow_pos _
  have := c.maskBits_eq
  omega

@[simp] theorem getLsbD_wmaskBits (a : Acquire c.tl) (j : ℕ) :
    a.wmaskBits.getLsbD j = (decide (j < c.tl.writeMaskBits) && a.wmask j) := by
  by_cases h : j < c.tl.writeMaskBits
  · simp [Acquire.wmaskBits, h]
  · simp [h, getLsbD_of_ge a.wmaskBits j (by omega)]

theorem getLsbD_flatMask (a : Acquire c.tl) {q : ℕ} (hq : q < c.tl.dataBits) :
    (c.flatMask a).getLsbD q = a.wmaskBits.getLsbD (q / 8) := by
  simp only [flatMask, getLsbD_setWidth, hq, decide_true, Bool.true_and,
    getLsbD_fillInterleaved (by decide : 0 < 8)]

theorem lt_flatBits {a : Acquire c.tl} {q : ℕ} (h : (c.flatMask a).getLsbD q) : q < c.flatBits := by
  have hq : q < c.tl.dataBits := lt_of_getLsbD h
  rw [getLsbD_flatMask a hq] at h
  have := lt_of_getLsbD h
  rw [flatBits]
  omega

end L2Params

open L2Params

/-! ## What is meant -/

/-- The data that a request writes: what it carries or, for an atomic operation, the result on
every word. -/
def Acquire.written (a : Acquire c.tl) (old : BitVec c.tl.dataBits) : BitVec (c.words * (8 * 8)) :=
  if a.isBuiltIn .putAtomicType then
    toBits fun i => a.amoOut (fromBits (removeTag (c.line old)) i)
      (fromBits (removeTag (c.line a.data)) i)
  else removeTag (c.line a.data)

/-- The selected bytes of every word are replaced and the others are not; a word with a selected
byte has its new tag, and any other word its old one. -/
structure RightBeat (a : Acquire c.tl) (old out : BitVec c.tl.dataBits) : Prop where
  data : removeTag (c.line out) =
    mergeBytes (c.byteMask a) (removeTag (c.line old)) (a.written old)
  tags : ∀ i, fromBits (extractTag (c.line out)) i =
    if fromBits (c.byteMask a) i ≠ 0 then fromBits (extractTag (c.line a.data)) i
    else fromBits (extractTag (c.line old)) i

/-- The result of an atomic operation on the 64 bits at its offset, which are not those of its
word when there are tags below. -/
def Acquire.flatResult (a : Acquire c.tl) (old : BitVec c.tl.dataBits) : BitVec 64 :=
  a.amoOut ((old >>> a.amoShiftBits).setWidth 64) ((a.data >>> a.amoShiftBits).setWidth 64)

/-- The byte address of a message is within its beat. -/
theorem Acquire.addrByte_div_lt (a : Acquire c.tl) : a.addrByte.toNat / 8 < c.words := by
  have := a.addrByte.isLt
  have heq := c.maskBits_eq
  rw [TLParams.writeMaskBits] at heq
  omega

/-- The word of an atomic operation. -/
def Acquire.amoWord (a : Acquire c.tl) : Fin c.words := ⟨a.addrByte.toNat / 8, a.addrByte_div_lt⟩

/-- The result of an atomic operation on its word. -/
def Acquire.wordResult (a : Acquire c.tl) (old : BitVec c.tl.dataBits) : BitVec 64 :=
  a.amoOut (fromBits (removeTag (c.line old)) a.amoWord)
    (fromBits (removeTag (c.line a.data)) a.amoWord)

/-- The atomic operations of the instruction set, on a word or on an aligned doubleword. -/
def Acquire.IsAMO (a : Acquire c.tl) : Prop :=
  (MemCmd.ofCode a.opCode).isAMO = true ∧ ((MemTyp.ofCode a.opSize).word = true ∨
    MemTyp.ofCode a.opSize = .D ∧ BitVec.ofNat 3 a.fullAddr = 0)

/-- The number of bits that such an operation works on. -/
def Acquire.amoWidth (a : Acquire c.tl) : ℕ := if (MemTyp.ofCode a.opSize).word then 32 else 64

/-- The first of them in a doubleword. -/
def Acquire.amoStart (a : Acquire c.tl) : ℕ :=
  if (MemTyp.ofCode a.opSize).word && (BitVec.ofNat 3 a.fullAddr).getLsbD 2 then 32 else 0

/-- Old data and operands for which an atomic operation at a multiple of 64 bits does what it should
do in its word, which lies above the tags of the words before. -/
def AtomicFits (a : Acquire c.tl) (old : BitVec c.tl.dataBits) : Prop :=
  AmoFits (.ofCode a.opCode) (a.amoWord * c.tagBits)
    (old.extractLsb' (a.amoShiftBits + a.amoStart) a.amoWidth)
    (a.data.extractLsb' a.amoShiftBits a.amoWidth)
    (old.extractLsb' (a.amoWord * (c.tagBits + 64) + a.amoStart) a.amoWidth)
    (a.data.extractLsb' (a.amoWord * (c.tagBits + 64)) a.amoWidth)

/-- The line that a request would write if its mask were full. -/
def Acquire.newLine (a : Acquire c.tl) (old : BitVec c.tl.dataBits) : BitVec c.tl.dataBits :=
  (insertTag (a.written old) (extractTag (c.line a.data))).cast c.dataBits_eq.symm

theorem newLine_of_not_atomic {a : Acquire c.tl} (ha : a.isBuiltIn .putAtomicType = false)
    (old : BitVec c.tl.dataBits) : a.newLine old = a.data := by
  rw [Acquire.newLine, Acquire.written, if_neg (by simp [ha]), insertTag_removeTag_extractTag]
  simp [line]

/-- The beat that is meant is a merge under the mask with tags. -/
theorem rightBeat_iff {a : Acquire c.tl} {old out : BitVec c.tl.dataBits} :
    RightBeat a old out ↔ out = merge (c.tagMask a) old (a.newLine old) := by
  -- both the beat and the merge are determined by their data and their tags
  have hline : c.line (merge (c.tagMask a) old (a.newLine old)) =
      merge (insertTagMask c.tagBits (c.byteMask a)) (c.line old)
        (insertTag (a.written old) (extractTag (c.line a.data))) := by
    apply eq_of_getLsbD_eq
    intro q hq
    have hq' : q < c.tl.dataBits := by
      rw [c.dataBits_eq]
      exact hq
    rw [line, getLsbD_cast, getLsbD_merge _ _ _ hq', getLsbD_merge _ _ _ hq]
    simp [tagMask, Acquire.newLine, line]
  have hdata := removeTag_merge (c.byteMask a) (c.line old)
    (insertTag (a.written old) (extractTag (c.line a.data)))
  have htags := extractTag_merge (c.byteMask a) (c.line old)
    (insertTag (a.written old) (extractTag (c.line a.data)))
  rw [← hline, removeTag_insertTag] at hdata
  simp only [← hline, extractTag_insertTag] at htags
  constructor
  · rintro ⟨hd, ht⟩
    have hcodec : c.line out = c.line (merge (c.tagMask a) old (a.newLine old)) := by
      rw [← insertTag_removeTag_extractTag (c.line out),
        ← insertTag_removeTag_extractTag (c.line (merge _ _ _)), hd, hdata]
      congr 1
      exact ext_fromBits fun i => by rw [ht, htags]
    simpa [line] using congrArg (BitVec.cast c.dataBits_eq.symm) hcodec
  · rintro rfl
    exact ⟨hdata, htags⟩

/-! ## What is written -/

theorem Acquire.wmask_of_atomic {a : Acquire c.tl} (ha : a.isBuiltIn .putAtomicType)
    (j : ℕ) : a.wmask j = (j / 8 == a.addrByte.toNat / 8) := by
  rw [wmask, if_pos ha]

/-- The operand of an atomic operation lies above the 64 bits at its offset. -/
theorem Acquire.amoShiftBits_add (a : Acquire c.tl) :
    a.amoShiftBits + a.amoWord * c.tagBits = a.amoWord * (c.tagBits + 64) := by
  change 64 * a.amoWord.val + _ = _
  ring

theorem Acquire.amoShiftBits_add_lt (a : Acquire c.tl) {i : ℕ} (hi : i < 64) :
    a.amoShiftBits + i < c.flatBits := by
  have hlt := a.addrByte_div_lt
  rw [flatBits_eq, amoShiftBits]
  omega

/-- The mask of an atomic operation selects 64 bits. -/
theorem Acquire.flatMask_of_atomic {a : Acquire c.tl} (ha : a.isBuiltIn .putAtomicType)
    {q : ℕ} (hq : q < c.tl.dataBits) :
    (c.flatMask a).getLsbD q = decide (a.amoShiftBits ≤ q ∧ q < a.amoShiftBits + 64) := by
  have hlt := a.addrByte_div_lt
  have hbytes := c.maskBits_eq
  rw [getLsbD_flatMask a hq, getLsbD_wmaskBits, Acquire.wmask_of_atomic ha, amoShiftBits,
    Bool.eq_iff_iff, Bool.and_eq_true, decide_eq_true_iff, beq_iff_eq, decide_eq_true_iff]
  omega

namespace L2Beat

variable {b : L2Beat c} {a : Acquire c.tl}

theorem getLsbD_fullMask {q : ℕ} : b.fullMask.getLsbD q = b.wmask.getLsbD (q / 8) := by
  rw [fullMask, getLsbD_cast, getLsbD_fillInterleaved (by decide)]

theorem writeRow_eq (b : L2Beat c) (row : BitVec c.tl.dataBits) :
    b.writeRow row = merge b.fullMask row b.data := by
  have hcast : (b.writeRow row).cast c.rowBits_eq =
      (merge b.fullMask row b.data).cast c.rowBits_eq := by
    apply ext_fromBits
    intro i
    apply eq_of_getLsbD_eq
    intro k hk
    have hq := index_lt i hk
    have hdiv : (i * 8 + k) / 8 = i := by omega
    rw [getLsbD_fromBits _ _ hk, getLsbD_fromBits _ _ hk, getLsbD_cast,
      getLsbD_cast, getLsbD_merge _ _ _ (c.rowBits_eq ▸ hq), getLsbD_fullMask, hdiv,
      writeRow, getLsbD_cast, getLsbD_toBits _ _ hk]
    split <;> rw [getLsbD_fromBits _ _ hk, getLsbD_cast]
  simpa using congrArg (BitVec.cast c.rowBits_eq.symm) hcast

/-- A beat whose mask is full is written as it is. -/
theorem writeRow_of_full (hb : b.wmask = BitVec.allOnes _) (row : BitVec c.tl.dataBits) :
    b.writeRow row = b.data := by
  rw [writeRow_eq]
  apply eq_of_getLsbD_eq
  intro q hq
  have hbyte : q / 8 < c.rowBytes := by
    have := c.rowBits_eq
    omega
  simp [getLsbD_merge _ _ _ hq, getLsbD_fullMask, hb, hbyte]

/-- The data of a buffer after a request. The bits above the flat mask are lost. -/
theorem getLsbD_accept (idle : Bool) {q : ℕ} (hq : q < c.tl.dataBits) :
    (b.accept idle a).data.getLsbD q =
      if (c.flatMask a).getLsbD q then a.data.getLsbD q
      else decide (q < c.flatBits) && b.data.getLsbD q := by
  have hflat : ((~~~fillInterleaved 8 a.wmaskBits).setWidth c.tl.dataBits).getLsbD q =
      (decide (q < c.flatBits) && !(c.flatMask a).getLsbD q) := by
    rw [getLsbD_setWidth, getLsbD_not, flatMask, getLsbD_setWidth]
    simp only [hq, decide_true, Bool.true_and]
    rfl
  simp only [accept, getLsbD_or, getLsbD_and, hflat]
  rw [← flatMask]
  cases h : (c.flatMask a).getLsbD q <;> simp

/-- The mask of an empty buffer after a request. -/
theorem fullMask_accept (hb : b.wmask = 0) (idle : Bool) :
    (b.accept idle a).fullMask = c.flatMask a := by
  apply eq_of_getLsbD_eq
  intro q hq
  have hbyte : q / 8 < c.rowBytes := by
    have := c.rowBits_eq
    omega
  rw [getLsbD_fullMask, getLsbD_flatMask a hq]
  cases idle <;> simp [accept, hb, hbyte]

/-- The operand of an atomic operation is under its mask. -/
theorem accept_operand (ha : a.isBuiltIn .putAtomicType) (idle : Bool) :
    ((b.accept idle a).data >>> a.amoShiftBits).setWidth 64 =
      (a.data >>> a.amoShiftBits).setWidth 64 := by
  apply eq_of_getLsbD_eq
  intro i hi
  have hq := (a.amoShiftBits_add_lt hi).trans_le c.flatBits_le
  have hflat : (c.flatMask a).getLsbD (a.amoShiftBits + i) = true := by
    simp [Acquire.flatMask_of_atomic ha hq, hi]
  simp only [getLsbD_setWidth, getLsbD_ushiftRight, hi, decide_true, Bool.true_and,
    getLsbD_accept idle hq, hflat, if_true]

theorem mergeData_data (x : Acquire c.tl) (old : BitVec c.tl.dataBits) :
    (b.mergeData x old).data = merge b.fullMask old
      (if x.isBuiltIn .putAtomicType then
        (x.amoOut ((old >>> x.amoShiftBits).setWidth 64)
          ((b.data >>> x.amoShiftBits).setWidth 64)).setWidth _ <<< x.amoShiftBits
      else b.data) := by
  rw [mergeData, BitVec.or_comm, and_or_not_and]

end L2Beat

open L2Beat

/-! ## The orders of request and old data -/

/-- An event brings the old data of a beat. -/
def L2Event.Brings (k : BeatId c) (old : BitVec c.tl.dataBits) (e : L2Event c) : Prop :=
  e = .irel k old ∨ e = .ognt k old ∨ e = .resp k old

/-- The request comes first. Either the row of the data array is the old beat and is written under
the mask, or the old beat comes later. -/
inductive Early (k : BeatId c) (a : Acquire c.tl) (old : BitVec c.tl.dataBits) :
    BitVec c.tl.dataBits → List (L2Event c) → Prop
  | hit : Early k a old old [.iacq a]
  | merged (row : BitVec c.tl.dataBits) (e : L2Event c) (he : e.Brings k old) :
      Early k a old row [.iacq a, e]

/-- The old data comes first: a later beat of a block, or a secondary miss. -/
inductive Late (k : BeatId c) (a : Acquire c.tl) (old : BitVec c.tl.dataBits) :
    List (L2Event c) → Prop
  | merged (e : L2Event c) (he : e.Brings k old) : Late k a old [e, .iacq a]

theorem Early.mem {k : BeatId c} {a : Acquire c.tl} {old row : BitVec c.tl.dataBits}
    {l : List (L2Event c)} (h : Early k a old row l) : .iacq a ∈ l := by
  cases h <;> simp

theorem Late.mem {k : BeatId c} {a : Acquire c.tl} {old : BitVec c.tl.dataBits}
    {l : List (L2Event c)} (h : Late k a old l) : .iacq a ∈ l := by
  cases h
  simp

theorem L2Event.Brings.apply_eq {k : BeatId c} {old : BitVec c.tl.dataBits} {e : L2Event c}
    (he : e.Brings k old) (x : Acquire c.tl) (b : L2Beat c) : e.apply x b = b.mergeData x old := by
  rcases he with rfl | rfl | rfl <;> rfl

variable {s : L2Tracker c} {es : List (L2Event c)} {k : BeatId c} {a : Acquire c.tl}
  {old row : BitVec c.tl.dataBits}

/-- A beat is written in a transaction that an idle tracker begins, some time after reset. -/
structure BeatWrite (s : L2Tracker c) (es : List (L2Event c)) (k : BeatId c) : Prop where
  reached : ∃ x is, (trackerMachine c).Legal (L2Tracker.reset c x) is ∧
    (trackerMachine c).run (L2Tracker.reset c x) is = s
  idle : s.idle
  legal : (trackerMachine c).Legal s es
  running : .done ∉ es
  write : ((trackerMachine c).run s es).ok (.write k)

/-- The row of the data array after the write. -/
def L2Tracker.rowAfter (s : L2Tracker c) (es : List (L2Event c)) (k : BeatId c)
    (row : BitVec c.tl.dataBits) : BitVec c.tl.dataBits :=
  (((trackerMachine c).run s es).beats k).writeRow row

namespace BeatWrite

variable (h : BeatWrite s es k)

include h

theorem clear : s.Clear := by
  obtain ⟨x, is, hl, rfl⟩ := h.reached
  exact L2Tracker.clear_run x hl

/-- The buffer of the beat is what the events on it make of an empty one. -/
theorem beats_eq (ha : .iacq a ∈ es.filter (·.onBeat k)) :
    ((trackerMachine c).run s es).beats k =
      (es.filter (·.onBeat k)).foldl (L2Event.apply a) (s.beats k) :=
  L2Tracker.beats_transaction h.idle h.clear h.legal h.running (List.mem_of_mem_filter ha)

/-- What is written for a request that comes first, other than an atomic one. -/
theorem rowAfter_early (ha : a.isBuiltIn .putAtomicType = false)
    (hp : Early k a old row (es.filter (·.onBeat k))) :
    s.rowAfter es k row = merge (c.flatMask a) old a.data := by
  have hclear := h.clear h.idle k
  rw [L2Tracker.rowAfter, h.beats_eq hp.mem]
  generalize es.filter (·.onBeat k) = l at hp
  apply eq_of_getLsbD_eq
  intro q hq
  rw [getLsbD_merge _ _ _ hq]
  cases hp with
  | hit =>
    rw [writeRow_eq, getLsbD_merge _ _ _ hq]
    change (if ((s.beats k).accept false a).fullMask.getLsbD q then
      ((s.beats k).accept false a).data.getLsbD q else old.getLsbD q) = _
    rw [fullMask_accept hclear, getLsbD_accept false hq]
    split <;> simp_all
  | merged row e he =>
    change ((e.apply a ((s.beats k).accept false a)).writeRow row).getLsbD q = _
    rw [he.apply_eq, writeRow_of_full rfl, mergeData_data, if_neg (by simp [ha]),
      fullMask_accept hclear, getLsbD_merge _ _ _ hq, getLsbD_accept false hq]
    split <;> simp_all

/-- What is written for a request that comes after the old data. -/
theorem getLsbD_rowAfter_late (hp : Late k a old (es.filter (·.onBeat k))) {q : ℕ}
    (hq : q < c.tl.dataBits) :
    (s.rowAfter es k row).getLsbD q =
      if (c.flatMask a).getLsbD q then a.data.getLsbD q
      else decide (q < c.flatBits) && old.getLsbD q := by
  have hclear := h.clear h.idle k
  rw [L2Tracker.rowAfter, h.beats_eq hp.mem]
  generalize es.filter (·.onBeat k) = l at hp
  obtain ⟨e, he⟩ := hp
  -- nothing was put yet when the old data came, so that the buffer is the old data
  have hmerge : ((s.beats k).mergeData a old).data = old := by
    apply eq_of_getLsbD_eq
    intro q hq
    rw [mergeData_data, getLsbD_merge _ _ _ hq, getLsbD_fullMask, hclear]
    simp
  have hfull : (((s.beats k).mergeData a old).accept false a).wmask = BitVec.allOnes _ := by
    simp [accept, mergeData]
  change (((e.apply a (s.beats k)).accept false a).writeRow row).getLsbD q = _
  rw [he.apply_eq, writeRow_of_full hfull, getLsbD_accept false hq, hmerge]

/-- A request that comes after the old data is not atomic. -/
theorem not_atomic_of_late (hp : Late k a old (es.filter (·.onBeat k))) :
    a.isBuiltIn .putAtomicType = false := by
  obtain ⟨e₀, es, rfl⟩ : ∃ e₀ es', es = e₀ :: es' := by
    apply List.exists_cons_of_ne_nil
    rintro rfl
    cases hp
  obtain ⟨x, rfl⟩ := L2Tracker.head_of_legal h.idle h.legal
  have hactive : (s.accept x).idle = false := by simp [L2Tracker.accept, h.idle]
  have hrest : .done ∉ es := fun hd => h.running (List.mem_cons_of_mem _ hd)
  -- the old data came before the request, which is therefore not the first one
  have hmem : .iacq a ∈ es := by
    rw [List.filter_cons] at hp
    split at hp
    · generalize hl : es.filter (·.onBeat k) = l at hp
      cases hp with
      | merged e he => rcases he with he | he | he <;> cases he
    · generalize hl : es.filter (·.onBeat k) = l at hp
      cases hp with
      | merged e he =>
        apply List.mem_of_mem_filter (p := (·.onBeat k))
        rw [hl]
        simp
  exact (L2Tracker.not_atomic_of_mem hactive hrest h.legal.2 hmem).2

/-- What is written for an atomic operation: the result on the 64 bits at its offset. -/
theorem rowAfter_atomic (ha : a.isBuiltIn .putAtomicType)
    (hp : Early k a old row (es.filter (·.onBeat k))) :
    s.rowAfter es k row =
      merge (c.flatMask a) old ((a.flatResult old).setWidth _ <<< a.amoShiftBits) := by
  have hclear := h.clear h.idle k
  -- the write waits for the old data
  have hnot : es.filter (·.onBeat k) ≠ [.iacq a] := by
    intro heq
    have := L2Tracker.not_write_of_atomic h.idle h.legal h.running heq ha
    rw [h.write] at this
    exact absurd this (by decide)
  rw [L2Tracker.rowAfter, h.beats_eq hp.mem]
  generalize es.filter (·.onBeat k) = l at hp hnot
  cases hp with
  | hit => exact absurd rfl hnot
  | merged row e he =>
    change (e.apply a ((s.beats k).accept false a)).writeRow row = _
    rw [he.apply_eq, writeRow_of_full rfl, mergeData_data, if_pos ha, fullMask_accept hclear,
      accept_operand ha, Acquire.flatResult]

end BeatWrite

/-! ## Words of a beat -/

/-- A bit of the data of a word. -/
theorem getLsbD_removeTag (x : BitVec c.tl.dataBits) (i : Fin c.words) {r : ℕ} (hr : r < 64) :
    (fromBits (removeTag (c.line x)) i).getLsbD r =
      x.getLsbD (i * (c.tagBits + 64) + r) := by
  rw [removeTag, fromBits_toBits, getLsbD_extractLsb',
    getLsbD_fromBits _ _ (by omega), line, getLsbD_cast]
  simp [hr]

/-- A bit of the tag of a word. -/
theorem getLsbD_extractTag (x : BitVec c.tl.dataBits) (i : Fin c.words) {r : ℕ}
    (hr : r < c.tagBits) :
    (fromBits (extractTag (c.line x)) i).getLsbD r =
      x.getLsbD (i * (c.tagBits + 64) + (64 + r)) := by
  rw [extractTag, fromBits_toBits, getLsbD_extractLsb',
    getLsbD_fromBits _ _ (by omega), line, getLsbD_cast]
  simp [hr]

theorem word_lt (i : Fin c.words) {r : ℕ} (hr : r < c.tagBits + 64) :
    i * (c.tagBits + 64) + r < c.tl.dataBits := by
  rw [c.dataBits_eq]
  exact index_lt i hr

/-- Every bit of a beat is a bit of a word. -/
theorem exists_word {q : ℕ} (hq : q < c.tl.dataBits) :
    ∃ (i : Fin c.words) (r : ℕ), r < c.tagBits + 64 ∧ q = i * (c.tagBits + 64) + r := by
  rw [c.dataBits_eq, Nat.mul_comm] at hq
  exact ⟨⟨_, Nat.div_lt_of_lt_mul hq⟩, q % (c.tagBits + 64), Nat.mod_lt _ (by omega),
    (Nat.div_add_mod' _ _).symm⟩

/-- The tags of a word in two beats, bit by bit. -/
theorem extractTag_eq_iff (x y : BitVec c.tl.dataBits) (i : Fin c.words) :
    fromBits (extractTag (c.line x)) i = fromBits (extractTag (c.line y)) i ↔
      ∀ q, i * (c.tagBits + 64) + 64 ≤ q ∧ q < i * (c.tagBits + 64) + 64 + c.tagBits →
        x.getLsbD q = y.getLsbD q := by
  constructor
  · intro h q hq
    obtain ⟨r, rfl⟩ := Nat.exists_eq_add_of_le hq.1
    have hr : r < c.tagBits := by omega
    rw [Nat.add_assoc, ← getLsbD_extractTag _ i hr, ← getLsbD_extractTag _ i hr, h]
  · intro h
    apply eq_of_getLsbD_eq
    intro r hr
    rw [getLsbD_extractTag _ i hr, getLsbD_extractTag _ i hr]
    exact h _ (by omega)

theorem getLsbD_byteMask (a : Acquire c.tl) (i : Fin c.words) {b : ℕ} (hb : b < 8) :
    (fromBits (c.byteMask a) i).getLsbD b = a.wmask (i * 8 + b) := by
  have hlt : i * 8 + b < c.tl.writeMaskBits := by
    rw [c.maskBits_eq]
    exact index_lt i hb
  rw [getLsbD_fromBits _ _ hb, L2Params.byteMask, getLsbD_cast, getLsbD_wmaskBits]
  simp [hlt]

theorem byteMask_ne_zero {a : Acquire c.tl} {i : Fin c.words} :
    fromBits (c.byteMask a) i ≠ 0 ↔ ∃ b < 8, a.wmask (i * 8 + b) = true := by
  rw [ne_zero_iff_getLsbD]
  constructor
  · rintro ⟨b, hb, h⟩
    exact ⟨b, hb, by rwa [getLsbD_byteMask a i hb] at h⟩
  · rintro ⟨b, hb, h⟩
    exact ⟨b, hb, by rwa [getLsbD_byteMask a i hb]⟩

/-- Only the word of an atomic operation has selected bytes. -/
theorem getLsbD_byteMask_of_atomic (ha : a.isBuiltIn .putAtomicType) (j : Fin c.words)
    {b : ℕ} (hb : b < 8) : (fromBits (c.byteMask a) j).getLsbD b = decide (j = a.amoWord) := by
  rw [getLsbD_byteMask a j hb, Acquire.wmask_of_atomic ha, show (j * 8 + b) / 8 = j by omega,
    Bool.eq_iff_iff, beq_iff_eq, decide_eq_true_iff, Fin.ext_iff]
  rfl

namespace RightBeat

variable {out : BitVec c.tl.dataBits} (h : RightBeat a old out)
  (ha : a.isBuiltIn .putAtomicType) (j : Fin c.words) {r : ℕ}

include h ha

/-- The data of the words that an atomic operation should leave. -/
theorem getLsbD_data (hr : r < 64) : out.getLsbD (j * (c.tagBits + 64) + r) =
    if j = a.amoWord then (a.wordResult old).getLsbD r
    else old.getLsbD (j * (c.tagBits + 64) + r) := by
  rw [← getLsbD_removeTag out j hr, h.data, getLsbD_mergeBytes _ _ _ j hr,
    getLsbD_byteMask_of_atomic ha j (Nat.div_lt_of_lt_mul hr), ← getLsbD_removeTag old j hr,
    Acquire.written, if_pos ha, fromBits_toBits]
  by_cases hj : j = a.amoWord
  · simp [hj, Acquire.wordResult]
  · simp [hj]

/-- The tags of the words that an atomic operation should leave. -/
theorem getLsbD_tag (hr : r < c.tagBits) : out.getLsbD (j * (c.tagBits + 64) + (64 + r)) =
    if j = a.amoWord then a.data.getLsbD (j * (c.tagBits + 64) + (64 + r))
    else old.getLsbD (j * (c.tagBits + 64) + (64 + r)) := by
  have hmask : fromBits (c.byteMask a) j ≠ 0 ↔ j = a.amoWord := by
    rw [ne_zero_iff_getLsbD]
    constructor
    · rintro ⟨b, hb, hsel⟩
      simpa [getLsbD_byteMask_of_atomic ha j hb] using hsel
    · exact fun hj => ⟨0, by decide, by rw [getLsbD_byteMask_of_atomic ha j (by decide)]; simp [hj]⟩
  rw [← getLsbD_extractTag out j hr, h.tags j, ← getLsbD_extractTag a.data j hr,
    ← getLsbD_extractTag old j hr]
  simp only [hmask]
  split <;> rfl

end RightBeat

/-- An atomic operation changes the bits of its field. -/
theorem getLsbD_amoOut (ha : a.IsAMO) (lhs rhs : BitVec 64) {k : ℕ} (hk : k < 64) :
    (a.amoOut lhs rhs).getLsbD k =
      if a.amoStart ≤ k ∧ k < a.amoStart + a.amoWidth then
        (amoOp (.ofCode a.opCode) (lhs.extractLsb' a.amoStart a.amoWidth)
          (rhs.extractLsb' 0 a.amoWidth)).getLsbD (k - a.amoStart)
      else lhs.getLsbD k := by
  obtain ⟨hc, hw | ⟨hd, haddr⟩⟩ := ha
  · -- a bit of the doubleword is a bit of one of its words
    have hbit (x : BitVec 64) : x.getLsbD k =
        (wordOf x ⟨k / 32, by omega⟩).getLsbD (k % 32) := by
      rw [wordOf, getLsbD_fromBits _ _ (Nat.mod_lt k (by decide)), Nat.div_add_mod']
    have hstart : a.amoStart = wordIdx (BitVec.ofNat 3 a.fullAddr) * 32 := by
      simp only [Acquire.amoStart, hw, wordIdx, Bool.true_and]
      split <;> rfl
    have hwidth : a.amoWidth = 32 := if_pos hw
    rw [hbit lhs, hbit, Acquire.amoOut, AMOALU.wordOf_out hc hw, hstart, hwidth]
    by_cases hk : (⟨k / 32, by omega⟩ : Fin 2) = wordIdx (BitVec.ofNat 3 a.fullAddr)
    · have hdiv : k / 32 = (wordIdx (BitVec.ofNat 3 a.fullAddr)).val := congrArg Fin.val hk
      have hmod : k % 32 = k - wordIdx (BitVec.ofNat 3 a.fullAddr) * 32 := by omega
      rw [if_pos hk, hk, if_pos (by omega), hmod]
      rfl
    · have hdiv : k / 32 ≠ (wordIdx (BitVec.ofNat 3 a.fullAddr)).val := fun h => hk (Fin.ext h)
      rw [if_neg hk, if_neg (by omega)]
  · have hnot : (MemTyp.ofCode a.opSize).word = false := by rw [hd]; rfl
    have hstart : a.amoStart = 0 := by simp [Acquire.amoStart, hnot]
    have hwidth : a.amoWidth = 64 := if_neg (by simp [hnot])
    rw [hstart, hwidth, if_pos (by omega), Acquire.amoOut, hd, haddr, AMOALU.out_double hc,
      BitVec.extractLsb'_eq_self, BitVec.extractLsb'_eq_self, Nat.sub_zero]

/-! ## When the two masks do the same -/

namespace BeatWrite

variable (h : BeatWrite s es k)

include h

theorem right_iff_early (ha : a.isBuiltIn .putAtomicType = false)
    (hp : Early k a old row (es.filter (·.onBeat k))) :
    RightBeat a old (s.rowAfter es k row) ↔
      ∀ q, (c.flatMask a).getLsbD q ≠ (c.tagMask a).getLsbD q →
        old.getLsbD q = a.data.getLsbD q := by
  rw [rightBeat_iff, h.rowAfter_early ha hp, newLine_of_not_atomic ha, merge_eq_merge_iff]

theorem right_iff_late (hp : Late k a old (es.filter (·.onBeat k))) :
    RightBeat a old (s.rowAfter es k row) ↔
      (∀ q < c.flatBits, (c.flatMask a).getLsbD q ≠ (c.tagMask a).getLsbD q →
        old.getLsbD q = a.data.getLsbD q) ∧
      ∀ q < c.tl.dataBits, c.flatBits ≤ q →
        (if (c.tagMask a).getLsbD q then a.data.getLsbD q else old.getLsbD q) = false := by
  rw [rightBeat_iff, newLine_of_not_atomic (h.not_atomic_of_late hp)]
  have hbit (q : ℕ) (hq : q < c.tl.dataBits) :
      (s.rowAfter es k row).getLsbD q = (merge (c.tagMask a) old a.data).getLsbD q ↔
        (q < c.flatBits → (c.flatMask a).getLsbD q ≠ (c.tagMask a).getLsbD q →
          old.getLsbD q = a.data.getLsbD q) ∧
        (c.flatBits ≤ q →
          (if (c.tagMask a).getLsbD q then a.data.getLsbD q else old.getLsbD q) = false) := by
    rw [h.getLsbD_rowAfter_late hp hq, getLsbD_merge _ _ _ hq]
    -- bits under the flat mask, and bits above it
    by_cases hlt : q < c.flatBits
    · cases (c.flatMask a).getLsbD q <;> cases (c.tagMask a).getLsbD q <;>
        cases old.getLsbD q <;> cases a.data.getLsbD q <;> simp [hlt, Nat.not_le.2 hlt]
    · have hflat : (c.flatMask a).getLsbD q = false :=
        Bool.eq_false_iff.2 fun hf => hlt (lt_flatBits hf)
      simp only [hflat, hlt, Nat.not_lt.1 hlt, Bool.false_eq_true, if_false, decide_false,
        Bool.false_and, false_implies, true_and, true_implies]
      exact eq_comm
  constructor
  · intro heq
    have hall (q : ℕ) (hq : q < c.tl.dataBits) := (hbit q hq).1 (congrArg (·.getLsbD q) heq)
    exact ⟨fun q hlt => (hall q (hlt.trans_le c.flatBits_le)).1 hlt, fun q hq => (hall q hq).2⟩
  · rintro ⟨hlow, hhigh⟩
    apply eq_of_getLsbD_eq
    intro q hq
    exact (hbit q hq).2 ⟨hlow q, hhigh q hq⟩

/-- Outside the flat mask a request that comes first leaves the old beat. -/
theorem getLsbD_rowAfter_of_not_flat (hp : Early k a old row (es.filter (·.onBeat k))) {q : ℕ}
    (hq : q < c.tl.dataBits) (hflat : (c.flatMask a).getLsbD q = false) :
    (s.rowAfter es k row).getLsbD q = old.getLsbD q := by
  cases ha : a.isBuiltIn .putAtomicType with
  | false => rw [h.rowAfter_early ha hp, getLsbD_merge _ _ _ hq, if_neg (by simp [hflat])]
  | true => rw [h.rowAfter_atomic ha hp, getLsbD_merge _ _ _ hq, if_neg (by simp [hflat])]

variable (ha : a.isBuiltIn .putAtomicType) (hp : Early k a old row (es.filter (·.onBeat k)))

include ha hp

/-- What is written for an atomic operation, bit by bit. -/
theorem getLsbD_rowAfter_atomic {q : ℕ} (hq : q < c.tl.dataBits) :
    (s.rowAfter es k row).getLsbD q =
      if a.amoShiftBits ≤ q ∧ q < a.amoShiftBits + 64 then
        (a.flatResult old).getLsbD (q - a.amoShiftBits)
      else old.getLsbD q := by
  rw [h.rowAfter_atomic ha hp, getLsbD_merge _ _ _ hq, Acquire.flatMask_of_atomic ha hq]
  simp only [decide_eq_true_eq]
  split
  · next hin => simp [hq, Nat.not_lt.2 hin.1]
  · rfl

/-- An atomic operation that changes a field of the 64 bits at its offset, and the same field of
its word. -/
theorem right_iff_fields {start n : ℕ} (hle : start + n ≤ 64) (z z' : BitVec n)
    (hz : ∀ i < 64, (a.flatResult old).getLsbD i = if start ≤ i ∧ i < start + n then
      z.getLsbD (i - start) else old.getLsbD (a.amoShiftBits + i))
    (hz' : ∀ i < 64, (a.wordResult old).getLsbD i = if start ≤ i ∧ i < start + n then
      z'.getLsbD (i - start) else old.getLsbD (a.amoWord * (c.tagBits + 64) + i)) :
    RightBeat a old (s.rowAfter es k row) ↔
      fromBits (extractTag (c.line old)) a.amoWord =
        fromBits (extractTag (c.line a.data)) a.amoWord ∧
      SameBits (a.amoWord * c.tagBits) (old.extractLsb' (a.amoShiftBits + start) n) z
        (old.extractLsb' (a.amoWord * (c.tagBits + 64) + start) n) z' := by
  set i := a.amoWord with hi
  let right := merge (c.tagMask a) old (a.newLine old)
  have hright : RightBeat a old right := rightBeat_iff.2 rfl
  have hshift : a.amoShiftBits + i * c.tagBits = i * (c.tagBits + 64) := a.amoShiftBits_add
  have hword {r : ℕ} (hr : r < c.tagBits + 64) : i * (c.tagBits + 64) + r < c.tl.dataBits :=
    word_lt i hr
  rw [rightBeat_iff, extractTag_eq_iff, ← forall_eq_iff_sameBits (s.rowAfter es k row).getLsbD
    right.getLsbD (N := c.tl.dataBits) (p := a.amoShiftBits + start)]
  · exact ⟨fun h q _ => h ▸ rfl, fun h => eq_of_getLsbD_eq h⟩
  · have := hword (r := 63) (by omega)
    omega
  · rintro q ⟨hge, hlt⟩
    have := hword (r := c.tagBits + 63) (by omega)
    omega
  · intro r hr
    simp [hr]
  · intro r hr
    rw [show a.amoShiftBits + start + i * c.tagBits = i * (c.tagBits + 64) + start by omega]
    simp [hr]
  · intro q hq
    rw [h.getLsbD_rowAfter_atomic ha hp hq]
    by_cases hin : a.amoShiftBits ≤ q ∧ q < a.amoShiftBits + 64
    · rw [if_pos hin, hz _ (by omega), Nat.add_sub_cancel' hin.1, Nat.sub_sub]
      exact if_congr (by omega) rfl rfl
    · rw [if_neg hin, if_neg (by omega)]
  · intro r hr
    rw [show a.amoShiftBits + start + i * c.tagBits + r = i * (c.tagBits + 64) + (start + r) by
      omega, hright.getLsbD_data ha i (by omega), if_pos hi, hz' _ (by omega), if_pos (by omega),
      Nat.add_sub_cancel_left]
  · rintro q ⟨hge, hlt⟩
    obtain ⟨r, rfl⟩ := Nat.exists_eq_add_of_le hge
    rw [Nat.add_assoc, hright.getLsbD_tag ha i (by omega), if_pos hi]
  · intro q hq hfield htag
    -- a bit of the data or of the tag of a word
    obtain ⟨j, r, hr, rfl⟩ := exists_word hq
    rcases Nat.lt_or_ge r 64 with hlt | hge
    · rw [hright.getLsbD_data ha j hlt]
      split
      · next hji =>
        rw [hji, ← hi] at hfield ⊢
        rw [hz' r hlt, if_neg (by omega)]
      · rfl
    · obtain ⟨u, rfl⟩ := Nat.exists_eq_add_of_le hge
      rw [hright.getLsbD_tag ha j (by omega), if_neg]
      intro hji
      rw [hji, ← hi] at htag
      omega

/-- An atomic operation on the first word finds its operand, and loses its tag. -/
theorem right_iff_first (hfirst : a.addrByte.toNat < 8) :
    RightBeat a old (s.rowAfter es k row) ↔
      fromBits (extractTag (c.line old)) ⟨0, c.words_pos⟩ =
        fromBits (extractTag (c.line a.data)) ⟨0, c.words_pos⟩ := by
  have hword : a.amoWord = ⟨0, c.words_pos⟩ := Fin.ext (Nat.div_eq_of_lt hfirst)
  have hshift : a.amoShiftBits = 0 := by rw [Acquire.amoShiftBits, Nat.div_eq_of_lt hfirst]
  have hsame : a.wordResult old = a.flatResult old := by
    rw [Acquire.wordResult, Acquire.flatResult, hshift, hword]
    congr 1 <;> refine eq_of_getLsbD_eq fun r hr => ?_ <;>
      rw [getLsbD_removeTag _ _ hr] <;> simp [hr]
  rw [h.right_iff_fields ha hp (show 0 + 64 ≤ 64 from le_rfl) (a.flatResult old)
    (a.flatResult old) (fun i hi => by simp [hi]) (fun i hi => by simp [hi, hsame]), hword]
  refine and_iff_left ⟨fun r _ hlt => ?_, fun r _ _ => by simp, fun r hr hge => ?_⟩
  · simp at hlt
  · simp only [Nat.zero_mul] at hge
    omega

/-- An atomic operation on any word: the old data and the operands must fit its offset. -/
theorem right_iff_amo (hamo : a.IsAMO) :
    RightBeat a old (s.rowAfter es k row) ↔
      fromBits (extractTag (c.line old)) a.amoWord =
        fromBits (extractTag (c.line a.data)) a.amoWord ∧ AtomicFits a old := by
  have hle : a.amoStart + a.amoWidth ≤ 64 := by
    rw [Acquire.amoStart, Acquire.amoWidth]
    cases (MemTyp.ofCode a.opSize).word <;> simp
    split <;> simp
  have hwindow {x : BitVec c.tl.dataBits} {p : ℕ} (hp : p + a.amoWidth ≤ 64) :
      ((x >>> a.amoShiftBits).setWidth 64).extractLsb' p a.amoWidth =
        x.extractLsb' (a.amoShiftBits + p) a.amoWidth := by
    refine eq_of_getLsbD_eq fun r hr => ?_
    simp [hr, show p + r < 64 by omega, Nat.add_assoc]
  have hword {x : BitVec c.tl.dataBits} {p : ℕ} (hp : p + a.amoWidth ≤ 64) :
      (fromBits (removeTag (c.line x)) a.amoWord).extractLsb' p a.amoWidth =
        x.extractLsb' (a.amoWord * (c.tagBits + 64) + p) a.amoWidth := by
    refine eq_of_getLsbD_eq fun r hr => ?_
    rw [getLsbD_extractLsb', getLsbD_removeTag _ _ (by omega)]
    simp [hr, Nat.add_assoc]
  have hshift := a.amoShiftBits_add
  have hmoved {x : BitVec c.tl.dataBits} {p r : ℕ} (hr : r < a.amoWidth)
      (hge : a.amoWord * c.tagBits ≤ r) :
      (x.extractLsb' (a.amoShiftBits + p) a.amoWidth).getLsbD r =
        (x.extractLsb' (a.amoWord * (c.tagBits + 64) + p) a.amoWidth).getLsbD
          (r - a.amoWord * c.tagBits) := by
    rw [getLsbD_extractLsb', getLsbD_extractLsb', decide_eq_true hr,
      decide_eq_true (by omega)]
    congr 2
    omega
  have hzero : 0 + a.amoWidth ≤ 64 := by omega
  refine (h.right_iff_fields ha hp hle _ _ ?_ ?_).trans (and_congr_right fun _ => sameBits_amoOp
    (fun r hr hge => hmoved hr hge) (fun r hr hge => hmoved (p := 0) hr hge) hamo.1)
  · intro i hi
    rw [Acquire.flatResult, getLsbD_amoOut hamo _ _ hi, hwindow hle, hwindow hzero]
    simp [hi]
  · intro i hi
    rw [Acquire.wordResult, getLsbD_amoOut hamo _ _ hi, hword hle, hword hzero,
      getLsbD_removeTag _ _ hi]

end BeatWrite

/-! ## Every mask fails on some data -/

/-- The last selected byte of a write mask. -/
theorem exists_last_byte (hsel : ∃ j < c.tl.writeMaskBits, a.wmask j) :
    ∃ j < c.tl.writeMaskBits, a.wmask j ∧
      ∀ j' < c.tl.writeMaskBits, j < j' → a.wmask j' = false := by
  obtain ⟨j₀, hj₀, hsel₀⟩ := hsel
  let n := c.tl.writeMaskBits - 1
  let P : ℕ → Prop := fun j => a.wmask j = true
  have hP : P (Nat.findGreatest P n) := Nat.findGreatest_spec (m := j₀) (by omega) hsel₀
  have hle : Nat.findGreatest P n ≤ n := Nat.findGreatest_le n
  refine ⟨Nat.findGreatest P n, by omega, hP, fun j' hj' hlt => ?_⟩
  exact Bool.eq_false_iff.2 (Nat.findGreatest_is_greatest hlt (by omega))

/-- The top bit of the tag of the last word with a selected byte is above the flat mask. -/
theorem exists_tag_bit (htag : 0 < c.tagBits) (hsel : ∃ j < c.tl.writeMaskBits, a.wmask j) :
    ∃ i : Fin c.words, fromBits (c.byteMask a) i ≠ 0 ∧
      (c.flatMask a).getLsbD (i * (c.tagBits + 64) + (64 + (c.tagBits - 1))) = false := by
  obtain ⟨j, hj, hsel, hlast⟩ := exists_last_byte hsel
  have hmask := c.maskBits_eq
  have hi : j / 8 < c.words := by omega
  refine ⟨⟨j / 8, hi⟩, byteMask_ne_zero.2 ⟨j % 8, by omega, ?_⟩, ?_⟩
  · rwa [show j / 8 * 8 + j % 8 = j by omega]
  · have hq := word_lt (⟨j / 8, hi⟩ : Fin c.words) (r := 64 + (c.tagBits - 1)) (by omega)
    rw [getLsbD_flatMask a hq, getLsbD_wmaskBits]
    -- the tags of the words before only move the bit up
    have hup : j / 8 * 64 ≤ j / 8 * (c.tagBits + 64) := Nat.mul_le_mul_left _ (Nat.le_add_left _ _)
    by_cases hlt : (j / 8 * (c.tagBits + 64) + (64 + (c.tagBits - 1))) / 8 < c.tl.writeMaskBits
    · rw [hlast _ hlt (by omega), Bool.and_false]
    · simp [hlt]

theorem hasData_of_wmask {j : ℕ} (hsel : a.wmask j) : a.hasData := by
  unfold Acquire.wmask at hsel
  unfold Acquire.hasData
  split at hsel
  · simp_all
  · simp_all [Or.comm]

/-- A request to a tracker after reset, a release of the old data, and the write of the beat. -/
theorem beatWrite_released (x : Acquire c.tl) (old : BitVec c.tl.dataBits) :
    BeatWrite (L2Tracker.reset c x) [.iacq a, .irel a.addrBeat old] a.addrBeat where
  reached := ⟨x, [], trivial, rfl⟩
  idle := rfl
  legal := by
    refine ⟨?_, ?_, trivial⟩ <;>
      simp [L2Tracker.ok, L2Tracker.accepts, L2Tracker.next, L2Tracker.accept,
        L2Tracker.reset]
  running := by simp
  write := by
    simp [trackerMachine, L2Tracker.ok, L2Tracker.next, L2Tracker.accept, L2Tracker.merge,
      L2Tracker.reset]

/-- A request with a selected byte writes a wrong beat for some data: a new tag is not written. -/
theorem exists_wrong (htag : 0 < c.tagBits) (hsel : ∃ j < c.tl.writeMaskBits, a.wmask j) :
    ∃ (old new : BitVec c.tl.dataBits) (s : L2Tracker c) (es : List (L2Event c)) (k : BeatId c)
      (row : BitVec c.tl.dataBits), BeatWrite s es k ∧
        Early k { a with data := new } old row (es.filter (·.onBeat k)) ∧
        ¬ RightBeat { a with data := new } old (s.rowAfter es k row) := by
  obtain ⟨i, hi, hflat⟩ := exists_tag_bit htag hsel
  obtain ⟨j, -, hj⟩ := hsel
  let a' : Acquire c.tl := { a with data := BitVec.allOnes _ }
  have hwrite := beatWrite_released (a := a') a' 0
  have hdata : a'.hasData := hasData_of_wmask (a := a') hj
  have hp : Early a'.addrBeat a' 0 0
      ([L2Event.iacq a', .irel a'.addrBeat 0].filter (·.onBeat a'.addrBeat)) := by
    simpa [L2Event.onBeat, hdata] using Early.merged 0 (.irel a'.addrBeat 0) (.inl rfl)
  refine ⟨0, BitVec.allOnes _, _, _, _, 0, hwrite, hp, fun hright => ?_⟩
  have hq := word_lt i (show 64 + (c.tagBits - 1) < c.tagBits + 64 by omega)
  have htop := congrArg (·.getLsbD (c.tagBits - 1)) (hright.tags i)
  rw [if_pos (show fromBits (c.byteMask a') i ≠ 0 from hi)] at htop
  simp only [getLsbD_extractTag _ i (show c.tagBits - 1 < c.tagBits by omega)] at htop
  rw [hwrite.getLsbD_rowAfter_of_not_flat hp hq hflat] at htop
  simp [hq] at htop

/-- When a partial write does what it should. A request with a selected byte does so for some data
only: a `Put` where the two masks differ over equal bits, and also leaves nothing but zeros above
the flat mask when it comes after the old data; an atomic operation where the tags of its word are
equal and, on a word other than the first, the old data and the operands fit the offset. -/
theorem partial_write_right_iff (htag : 0 < c.tagBits) (a : Acquire c.tl) :
    (∀ s es k old row, BeatWrite s es k → Early k a old row (es.filter (·.onBeat k)) →
      (a.isBuiltIn .putAtomicType = false →
        (RightBeat a old (s.rowAfter es k row) ↔
          ∀ q, (c.flatMask a).getLsbD q ≠ (c.tagMask a).getLsbD q →
            old.getLsbD q = a.data.getLsbD q)) ∧
      (a.isBuiltIn .putAtomicType = true → a.addrByte.toNat < 8 →
        (RightBeat a old (s.rowAfter es k row) ↔
          fromBits (extractTag (c.line old)) ⟨0, c.words_pos⟩ =
            fromBits (extractTag (c.line a.data)) ⟨0, c.words_pos⟩)) ∧
      (a.isBuiltIn .putAtomicType = true → a.IsAMO →
        (RightBeat a old (s.rowAfter es k row) ↔
          fromBits (extractTag (c.line old)) a.amoWord =
            fromBits (extractTag (c.line a.data)) a.amoWord ∧ AtomicFits a old))) ∧
    (∀ s es k old row, BeatWrite s es k → Late k a old (es.filter (·.onBeat k)) →
      (RightBeat a old (s.rowAfter es k row) ↔
        (∀ q < c.flatBits, (c.flatMask a).getLsbD q ≠ (c.tagMask a).getLsbD q →
          old.getLsbD q = a.data.getLsbD q) ∧
        ∀ q < c.tl.dataBits, c.flatBits ≤ q →
          (if (c.tagMask a).getLsbD q then a.data.getLsbD q else old.getLsbD q) = false)) ∧
    ((∃ j < c.tl.writeMaskBits, a.wmask j = true) →
      ∃ old new s es k row, BeatWrite s es k ∧
        Early k { a with data := new } old row (es.filter (·.onBeat k)) ∧
        ¬ RightBeat { a with data := new } old (s.rowAfter es k row)) := by
  refine ⟨fun s es k old row hw hp => ⟨fun ha => hw.right_iff_early ha hp,
    fun ha hfirst => hw.right_iff_first ha hp hfirst, fun ha hamo => hw.right_iff_amo ha hp hamo⟩,
    fun s es k old row hw hp => hw.right_iff_late hp, fun hsel => exists_wrong htag hsel⟩

/-- Two words of 64 bits in a beat, with tags of 4 bits as in the shipped configuration. -/
def l2Params : L2Params where
  tl :=
    { TLParams.small with
      blockAddrBits := 2, beatAddrBits := 2, byteAddrBits := 4, dataBits := 136, dataBeats := 4
      releaseTypeBits := 2 }
  words := 2
  tagBits := 4
  rowBytes := 17
  dataBits_eq := rfl
  rowBits_eq := rfl
  maskBits_eq := rfl

/-- The same with tags of 8 bits. -/
def l2WideParams : L2Params where
  tl := { l2Params.tl with dataBits := 144 }
  words := 2
  tagBits := 8
  rowBytes := 18
  dataBits_eq := rfl
  rowBits_eq := rfl
  maskBits_eq := rfl

/-- A `Put` to the first beat that allocates, with its write mask. -/
def l2Put (c : L2Params) (mask : ℕ) (data : BitVec c.tl.dataBits) : Acquire c.tl :=
  { isBuiltinType := true, aType := 2, clientXactId := 0, addrBlock := 0, addrBeat := 0
    data := data, union := BitVec.ofNat _ (2 * mask + 1) }

/-- A tracker after reset. -/
def l2Reset (c : L2Params) : L2Tracker c := .reset c (l2Put c 0 0)

/-- A `Put` of the whole beat. Its top byte, the tag of the last word and half a byte of data, is
above the flat mask. -/
def wholePut : Acquire l2Params.tl := l2Put l2Params 0xffff 0xa50123456789abcdef0123456789abcdef

/-- An exclusive or on the second word. Its operand has bits only where the word overlaps with the
64 bits at its offset. -/
def secondXor : Acquire l2Params.tl :=
  { l2Put l2Params 0 (0xa#136 <<< 132 ||| 0xff#136 <<< 80) with
    aType := 4, union := BitVec.ofNat _ (1 + 2 * 9 + 64 * 3 + 1024 * 8) }

theorem partial_write_right_iff_whole :
    RightBeat wholePut (0xa5#136 <<< 128)
      ((l2Reset l2Params).rowAfter [.iacq wholePut] 0 (0xa5#136 <<< 128)) ∧
    RightBeat secondXor (0xa5#136 <<< 128)
      ((l2Reset l2Params).rowAfter [.iacq secondXor, .irel 0 (0xa5#136 <<< 128)] 0 0) := by
  have hfits : AtomicFits secondXor (0xa5#136 <<< 128) := by
    unfold AtomicFits
    rw [show MemCmd.ofCode secondXor.opCode = .XA_XOR by decide +kernel, AmoFits, Unshared]
    decide +kernel
  have hxor := ((partial_write_right_iff (by decide) secondXor).1 _ _ _ _ 0
    (beatWrite_released (a := secondXor) (l2Put l2Params 0 0) (0xa5#136 <<< 128))
    (.merged 0 _ (.inl rfl))).2.2 (by decide +kernel) ⟨by decide +kernel, .inr (by decide +kernel)⟩
  refine ⟨?_, hxor.2 ⟨by decide +kernel, hfits⟩⟩
  have hwrite : BeatWrite (l2Reset l2Params) [.iacq wholePut] 0 :=
    ⟨⟨_, [], trivial, rfl⟩, rfl, by decide +kernel, by simp, by decide +kernel⟩
  have hagree : ∀ q : Fin 136, (l2Params.flatMask wholePut).getLsbD q ≠
      (l2Params.tagMask wholePut).getLsbD q →
        (0xa5#136 <<< 128).getLsbD q = wholePut.data.getLsbD q := by
    decide +kernel
  refine (((partial_write_right_iff (by decide) wholePut).1 _ _ _ _ _ hwrite .hit).1
    (by decide)).2 fun q hne => ?_
  have hq : q < 136 := by
    by_contra hq
    have hge : l2Params.tl.dataBits ≤ q := Nat.le_of_not_lt hq
    rw [getLsbD_of_ge _ _ hge, getLsbD_of_ge _ _ hge] at hne
    exact hne rfl
  exact hagree ⟨q, hq⟩ hne

/-- A `Put` of the first byte of the second word sets the tag of the first word, which has no
selected byte: half of the written byte is that tag or, with tags of 8 bits, all of it. -/
theorem neighbour_tag_written :
    (BeatWrite (l2Reset l2Params) [.iacq (l2Put l2Params 0x100 (BitVec.allOnes _))] 0 ∧
      (l2Reset l2Params).rowAfter [.iacq (l2Put l2Params 0x100 (BitVec.allOnes _))] 0 0 =
        0xff0000000000000000 ∧
      ¬ RightBeat (l2Put l2Params 0x100 (BitVec.allOnes _)) 0 0xff0000000000000000) ∧
    BeatWrite (l2Reset l2WideParams) [.iacq (l2Put l2WideParams 0x100 (BitVec.allOnes _))] 0 ∧
      (l2Reset l2WideParams).rowAfter [.iacq (l2Put l2WideParams 0x100 (BitVec.allOnes _))] 0 0 =
        0xff0000000000000000 ∧
      ¬ RightBeat (l2Put l2WideParams 0x100 (BitVec.allOnes _)) 0 0xff0000000000000000 := by
  refine ⟨⟨?_, by decide +kernel, fun h => ?_⟩, ?_, by decide +kernel, fun h => ?_⟩
  · exact ⟨⟨_, [], trivial, rfl⟩, rfl, by decide +kernel, by simp, by decide +kernel⟩
  · exact absurd (h.tags (0 : Fin 2)) (by decide +kernel)
  · exact ⟨⟨_, [], trivial, rfl⟩, rfl, by decide +kernel, by simp, by decide +kernel⟩
  · exact absurd (h.tags (0 : Fin 2)) (by decide +kernel)

end TaggedRiscv
