import TaggedRiscv.Core.TagCheckUnit
import TaggedRiscv.Uncore.MemoryOp
import TaggedRiscv.Uncore.TagUtil

/-!
# The data path of the L1 data cache

The generators that place a store's bytes and extract a load's, and the unit that computes the
doubleword a store or an atomic operation writes. The uncore has them for 64-bit words
(`StoreGen`, `LoadGen`, `AMOALU`); the L1 data cache has its own for doublewords with a four-bit
tag above the data (`L1StoreGen`, `L1LoadGen`, `L1AMOALU`).
-/

namespace TaggedRiscv

open Packed BitVec

namespace MemTyp

/-- A byte. -/
def byte (typ : MemTyp) : Bool := typ == B || typ == BU

/-- A halfword. -/
def half (typ : MemTyp) : Bool := typ == H || typ == HU

/-- A word. -/
def word (typ : MemTyp) : Bool := typ == W || typ == WU

/-- The tag alone. -/
def tag (typ : MemTyp) : Bool := typ == T

/-- The value is sign extended. -/
def sign (typ : MemTyp) : Bool := typ == B || typ == H || typ == W || typ == D

/-- No access crosses its own size. Bytes and `Q` are never checked. -/
def aligned (typ : MemTyp) (addr : BitVec 3) : Bool :=
  !(typ.half && addr.getLsbD 0 || typ.word && (addr.getLsbD 0 || addr.getLsbD 1) ||
    (typ == D || typ == T) && addr != 0)

end MemTyp

/-- The data of a tagged doubleword. -/
def dataOf (x : BitVec 68) : BitVec 64 := x.extractLsb' 0 64

/-- The tag of a tagged doubleword. -/
def tagOf (x : BitVec 68) : Tag := x.extractLsb' 64 4

/-! ## Placing the bytes of a store -/

/-- The bytes an access touches. Only the byte offset of the address is read. -/
def byteMask (typ : MemTyp) (addr : BitVec 3) : BitVec 8 :=
  if typ.byte then 1#8 <<< addr
  else if typ.half then 3#8 <<< (addr.extractLsb' 1 2 ++ 0#1)
  else if typ.word then 15#8 <<< (addr.extractLsb' 2 1 ++ 0#2)
  else 255#8

namespace StoreGen

variable (typ : MemTyp) (dat : BitVec 64)

/-- The bytes that are written. -/
def mask (addr : BitVec 3) : BitVec 8 := byteMask typ addr

/-- The operand, a word twice. -/
def wordData : BitVec 64 :=
  if typ.word then toBits fun _ : Fin 2 => dat.extractLsb' 0 32 else dat

/-- The operand at every place it may go to. -/
def data : BitVec 64 :=
  if typ.byte then toBits fun _ : Fin 8 => dat.extractLsb' 0 8
  else if typ.half then toBits fun _ : Fin 4 => dat.extractLsb' 0 16
  else wordData typ dat

end StoreGen

namespace L1StoreGen

variable (typ : MemTyp) (dat : BitVec 68)

/-- The bits that are written. -/
def mask (addr : BitVec 3) : BitVec 68 :=
  if typ.tag then (BitVec.allOnes 4).setWidth 68 <<< 64
  else (fillInterleaved 8 (byteMask typ addr)).setWidth 68

/-- The operand, a word twice. -/
def wordData : BitVec 68 :=
  if typ.word then (toBits fun _ : Fin 2 => dat.extractLsb' 0 32).setWidth 68 else dat

/-- The operand at every place it may go to. -/
def data : BitVec 68 :=
  if typ.tag then (dat.extractLsb' 0 4).setWidth 68 <<< 64
  else if typ.byte then (toBits fun _ : Fin 8 => dat.extractLsb' 0 8).setWidth 68
  else if typ.half then (toBits fun _ : Fin 4 => dat.extractLsb' 0 16).setWidth 68
  else wordData typ dat

end L1StoreGen

/-! ## Extracting the bytes of a load -/

namespace LoadGen

variable (typ : MemTyp) (addr : BitVec 3) (dat : BitVec 64) (zero : Bool)

/-- The addressed word. -/
def wordShift : BitVec 32 :=
  if addr.getLsbD 2 then dat.extractLsb' 32 32 else dat.extractLsb' 0 32

/-- The word, extended. -/
def word : BitVec 64 :=
  (if typ.word then BitVec.fill 32 (typ.sign && (wordShift addr dat).getLsbD 31)
    else dat.extractLsb' 32 32) ++ wordShift addr dat

/-- The addressed halfword. -/
def halfShift : BitVec 16 :=
  if addr.getLsbD 1 then (word typ addr dat).extractLsb' 16 16
  else (word typ addr dat).extractLsb' 0 16

/-- The halfword, extended. -/
def half : BitVec 64 :=
  (if typ.half then BitVec.fill 48 (typ.sign && (halfShift typ addr dat).getLsbD 15)
    else (word typ addr dat).extractLsb' 16 48) ++ halfShift typ addr dat

/-- The addressed byte. -/
def byteShift : BitVec 8 :=
  if zero then 0
  else if addr.getLsbD 0 then (half typ addr dat).extractLsb' 8 8
  else (half typ addr dat).extractLsb' 0 8

/-- The byte, extended. -/
def byte : BitVec 64 :=
  (if zero || typ.byte then
      BitVec.fill 56 (typ.sign && (byteShift typ addr dat zero).getLsbD 7)
    else (half typ addr dat).extractLsb' 8 56) ++ byteShift typ addr dat zero

end LoadGen

namespace L1LoadGen

variable (typ : MemTyp) (addr : BitVec 3) (dat : BitVec 68) (zero : Bool)

/-- A partial load clears the return tag. -/
def tag : Tag :=
  if typ.byte || typ.half || typ.word then tagOf dat &&& ~~~retTag else tagOf dat

/-- The tag as a value. -/
def pureTag : BitVec 64 := 0#60 ++ tagOf dat

/-- The addressed word. -/
def wordShift : BitVec 32 :=
  if addr.getLsbD 2 then dat.extractLsb' 32 32 else dat.extractLsb' 0 32

/-- The word, extended. -/
def word : BitVec 68 :=
  tag typ dat ++
    ((if typ.word then BitVec.fill 32 (typ.sign && (wordShift addr dat).getLsbD 31)
      else dat.extractLsb' 32 32) ++ wordShift addr dat)

/-- The addressed halfword. -/
def halfShift : BitVec 16 :=
  if addr.getLsbD 1 then (word typ addr dat).extractLsb' 16 16
  else (word typ addr dat).extractLsb' 0 16

/-- The halfword, extended. -/
def half : BitVec 64 :=
  (if typ.half then BitVec.fill 48 (typ.sign && (halfShift typ addr dat).getLsbD 15)
    else (word typ addr dat).extractLsb' 16 48) ++ halfShift typ addr dat

/-- The addressed byte. -/
def byteShift : BitVec 8 :=
  if zero then 0
  else if addr.getLsbD 0 then (half typ addr dat).extractLsb' 8 8
  else (half typ addr dat).extractLsb' 0 8

/-- The response to a load. A load of the tag returns it both as data and as tag; the upper bits
of `pure_tag << 64` do not fit the port. -/
def byte : BitVec 68 :=
  if typ.tag then
    ((pureTag dat).setWidth 128 <<< 64 ||| (pureTag dat).setWidth 128).setWidth 68
  else
    tag typ dat ++
      ((if zero || typ.byte then
          BitVec.fill 56 (typ.sign && (byteShift typ addr dat zero).getLsbD 7)
        else (half typ addr dat).extractLsb' 8 56) ++ byteShift typ addr dat zero)

end L1LoadGen

/-! ## The atomic operations -/

namespace AMOALU

variable {w : ℕ} (addr : BitVec 3) (cmd : MemCmd) (typ : MemTyp) (lhs rhs : BitVec w)

/-- The comparison is signed. -/
def sgned : Bool := cmd == .XA_MIN || cmd == .XA_MAX

/-- A maximum. -/
def max : Bool := cmd == .XA_MAX || cmd == .XA_MAXU

/-- A minimum. -/
def min : Bool := cmd == .XA_MIN || cmd == .XA_MINU

/-- Words, and bytes for the sake of logic minimization. -/
def word : Bool := typ == .W || typ == .WU || typ == .B || typ == .BU

/-- Bit 31 is left out of an addition in the upper word, so that nothing is carried into it. -/
def mask (w : ℕ) : BitVec w := (~~~0#64 ^^^ ((addr.extractLsb' 2 1).setWidth 64 <<< 31)).setWidth w

/-- The sum; no carry goes into an upper word that is addressed. -/
def adderOut : BitVec w := (lhs &&& mask addr w) + (rhs &&& mask addr w)

/-- The sign bit of an operand. -/
def cmpBit (x : BitVec w) : Bool :=
  if word typ && !addr.getLsbD 2 then x.getLsbD 31 else x.getLsbD 63

/-- Unsigned comparison. -/
def lt : Bool :=
  let ltLo := (lhs.extractLsb' 0 32).ult (rhs.extractLsb' 0 32)
  let ltHi := (lhs.extractLsb' 32 32).ult (rhs.extractLsb' 32 32)
  let eqHi := lhs.extractLsb' 32 32 == rhs.extractLsb' 32 32
  if word typ then (if addr.getLsbD 2 then ltHi else ltLo) else ltHi || eqHi && ltLo

/-- The left operand is less. -/
def less : Bool :=
  if cmpBit addr typ lhs == cmpBit addr typ rhs then lt addr typ lhs rhs
  else if sgned cmd then cmpBit addr typ lhs else cmpBit addr typ rhs

/-- The result before it is merged into the doubleword. The lines are the same in `AMOALU` and
in `L1AMOALU`, on operands of 64 and of 68 bits. -/
def result (storeData : BitVec w) : BitVec w :=
  if cmd = .XA_ADD then adderOut addr lhs rhs
  else if cmd = .XA_AND then lhs &&& rhs
  else if cmd = .XA_OR then lhs ||| rhs
  else if cmd = .XA_XOR then lhs ^^^ rhs
  else if (if less addr cmd typ lhs rhs then min cmd else max cmd) then lhs
  else storeData

end AMOALU

/-- The doubleword after the operation. -/
def AMOALU.out (addr : BitVec 3) (cmd : MemCmd) (typ : MemTyp) (lhs rhs : BitVec 64) : BitVec 64 :=
  let wmask := fillInterleaved 8 (StoreGen.mask typ addr)
  let res := AMOALU.result addr cmd typ lhs (StoreGen.wordData typ rhs) (StoreGen.data typ rhs)
  (wmask &&& res) ||| (~~~wmask &&& lhs)

namespace L1AMOALU

variable (addr : BitVec 3) (cmd : MemCmd) (typ : MemTyp) (lhs rhs : BitVec 68)

/-- The tag already in memory is kept by the writes of `AMOALU.word`, apart from the return
tag; any other write takes the tag of its operand. -/
def tagOut : Tag :=
  if AMOALU.word typ then tagOf rhs ||| (tagOf lhs &&& ~~~retTag) else tagOf rhs

/-- The result on operands with tags. -/
def result : BitVec 68 :=
  AMOALU.result addr cmd typ lhs (L1StoreGen.wordData typ rhs) (L1StoreGen.data typ rhs)

/-- The tagged doubleword after the operation. -/
def out : BitVec 68 :=
  let wmask := L1StoreGen.mask typ addr
  (wmask &&& (dataOf (result addr cmd typ lhs rhs)).setWidth 68) |||
    (~~~wmask &&& (dataOf lhs).setWidth 68) |||
    (if typ.tag then rhs.extractLsb' 0 4 else tagOut typ lhs rhs).setWidth 68 <<< 64

end L1AMOALU

local instance neZeroWords : NeZero 2 := ⟨by decide⟩

/-- The word of the doubleword that an access of a word touches. -/
def wordIdx (addr : BitVec 3) : Fin 2 := if addr.getLsbD 2 then 1 else 0

/-- Word `k` of a doubleword. -/
def wordOf (x : BitVec 64) (k : Fin 2) : BitVec 32 := fromBits (n := 2) (w := 32) x k

/-- An atomic operation on a word in memory and a register, as the instruction set defines it:
the value left in memory. -/
def amoOp {w : ℕ} : MemCmd → BitVec w → BitVec w → BitVec w
  | .XA_ADD, a, b => a + b
  | .XA_XOR, a, b => a ^^^ b
  | .XA_OR, a, b => a ||| b
  | .XA_AND, a, b => a &&& b
  | .XA_MIN, a, b => if a.slt b then a else b
  | .XA_MAX, a, b => if a.slt b then b else a
  | .XA_MINU, a, b => if a.ult b then a else b
  | .XA_MAXU, a, b => if a.ult b then b else a
  | _, _, b => b

/-! ## Data and tag of a tagged doubleword -/

theorem dataOf_eq_setWidth (x : BitVec 68) : dataOf x = x.setWidth 64 := by
  apply eq_of_getLsbD_eq
  intro i hi
  simp [dataOf, hi]

theorem getLsbD_dataOf (x : BitVec 68) {k : ℕ} (hk : k < 64) :
    (dataOf x).getLsbD k = x.getLsbD k := by
  simp [dataOf, hk]

theorem extractLsb'_dataOf (x : BitVec 68) {start len : ℕ} (h : start + len ≤ 64) :
    (dataOf x).extractLsb' start len = x.extractLsb' start len := by
  simp [dataOf, BitVec.extractLsb'_extractLsb'_of_le h]

@[simp] theorem dataOf_setWidth (x : BitVec 64) : dataOf (x.setWidth 68) = x := by
  rw [dataOf_eq_setWidth]
  simp

@[simp] theorem dataOf_shift_tag (t : Tag) : dataOf (t.setWidth 68 <<< 64) = 0#64 := by
  apply eq_of_getLsbD_eq
  intro i hi
  rw [getLsbD_dataOf _ hi]
  simp [hi]

@[simp] theorem tagOf_setWidth (x : BitVec 64) : tagOf (x.setWidth 68) = 0 := by
  apply eq_of_getLsbD_eq
  intro i hi
  simp [tagOf]

@[simp] theorem tagOf_shift_tag (t : Tag) : tagOf (t.setWidth 68 <<< 64) = t := by
  apply eq_of_getLsbD_eq
  intro i hi
  simp [tagOf, hi, show 64 + i < 68 by omega]

theorem dataOf_append (t : Tag) (d : BitVec 64) : dataOf (t ++ d) = d :=
  TagUtil.extract_low_append t d

theorem dataOf_and (x y : BitVec 68) : dataOf (x &&& y) = dataOf x &&& dataOf y := by
  simp [dataOf_eq_setWidth]

theorem dataOf_or (x y : BitVec 68) : dataOf (x ||| y) = dataOf x ||| dataOf y := by
  simp [dataOf_eq_setWidth]

theorem dataOf_not (x : BitVec 68) : dataOf (~~~x) = ~~~dataOf x := by
  simp [dataOf_eq_setWidth]

theorem tagOf_and (x y : BitVec 68) : tagOf (x &&& y) = tagOf x &&& tagOf y :=
  BitVec.extractLsb'_and

theorem tagOf_or (x y : BitVec 68) : tagOf (x ||| y) = tagOf x ||| tagOf y :=
  BitVec.extractLsb'_or

/-! ## The untagged operation under the tagged one -/

variable {typ : MemTyp}

namespace L1StoreGen

theorem dataOf_wordData (typ : MemTyp) (dat : BitVec 68) :
    dataOf (wordData typ dat) = StoreGen.wordData typ (dataOf dat) := by
  unfold wordData StoreGen.wordData
  split
  · rw [dataOf_setWidth, extractLsb'_dataOf dat (by decide)]
  · rfl

theorem dataOf_data (h : typ.tag = false) (dat : BitVec 68) :
    dataOf (data typ dat) = StoreGen.data typ (dataOf dat) := by
  unfold data StoreGen.data
  rw [if_neg (by simp [h])]
  split
  · rw [dataOf_setWidth, extractLsb'_dataOf dat (by decide)]
  split
  · rw [dataOf_setWidth, extractLsb'_dataOf dat (by decide)]
  · exact dataOf_wordData typ dat

theorem dataOf_mask (typ : MemTyp) (addr : BitVec 3) :
    dataOf (mask typ addr) =
      if typ.tag then 0#64 else fillInterleaved 8 (byteMask typ addr) := by
  simp only [mask, apply_ite dataOf, dataOf_shift_tag]
  rw [dataOf_setWidth]

end L1StoreGen

namespace AMOALU

theorem mask_setWidth (addr : BitVec 3) : dataOf (mask addr 68) = mask addr 64 := by
  simp [dataOf_eq_setWidth, mask]

theorem cmpBit_dataOf (addr : BitVec 3) (typ : MemTyp) (x : BitVec 68) :
    cmpBit addr typ (dataOf x) = cmpBit addr typ x := by
  rw [cmpBit, cmpBit, getLsbD_dataOf x (by decide), getLsbD_dataOf x (by decide)]

theorem less_dataOf (addr : BitVec 3) (cmd : MemCmd) (typ : MemTyp) (lhs rhs : BitVec 68) :
    less addr cmd typ (dataOf lhs) (dataOf rhs) = less addr cmd typ lhs rhs := by
  simp only [less, lt, cmpBit_dataOf, extractLsb'_dataOf _ (show 0 + 32 ≤ 64 by decide),
    extractLsb'_dataOf _ (show 32 + 32 ≤ 64 by decide)]

/-- The low 64 bits of the result depend on those of the operands only. -/
theorem dataOf_result (addr : BitVec 3) (cmd : MemCmd) (typ : MemTyp)
    (lhs rhs storeData : BitVec 68) :
    dataOf (result addr cmd typ lhs rhs storeData) =
      result addr cmd typ (dataOf lhs) (dataOf rhs) (dataOf storeData) := by
  simp only [result, apply_ite dataOf, less_dataOf, adderOut, ← mask_setWidth]
  simp [dataOf_eq_setWidth, setWidth_add]

end AMOALU

namespace L1AMOALU

variable (addr : BitVec 3) (cmd : MemCmd) (typ : MemTyp) (lhs rhs : BitVec 68)

theorem dataOf_out : dataOf (out addr cmd typ lhs rhs) =
    if typ.tag then dataOf lhs
    else merge (fillInterleaved 8 (byteMask typ addr)) (dataOf lhs)
      (dataOf (result addr cmd typ lhs rhs)) := by
  simp only [out, dataOf_or, dataOf_and, dataOf_not, dataOf_setWidth, dataOf_shift_tag,
    L1StoreGen.dataOf_mask]
  split
  · rw [zero_and, zero_or, or_zero, not_zero, allOnes_and]
  · rw [or_zero, and_or_not_and]

theorem tagOf_out : tagOf (out addr cmd typ lhs rhs) =
    if typ.tag then rhs.extractLsb' 0 4 else tagOut typ lhs rhs := by
  simp only [out, tagOf_or, tagOf_and, tagOf_setWidth, tagOf_shift_tag]
  simp

theorem dataOf_out_eq (h : typ.tag = false) :
    dataOf (out addr cmd typ lhs rhs) = AMOALU.out addr cmd typ (dataOf lhs) (dataOf rhs) := by
  rw [dataOf_out, if_neg (by simp [h]), result, AMOALU.dataOf_result, L1StoreGen.dataOf_wordData,
    L1StoreGen.dataOf_data h, AMOALU.out, and_or_not_and, StoreGen.mask]

end L1AMOALU

/-! ## The atomic operations of the instruction set -/

theorem wordOf_wmask (h : typ.word) (addr : BitVec 3) (k : Fin 2) :
    wordOf (fillInterleaved 8 (byteMask typ addr)) k =
      BitVec.fill 32 (decide (k = wordIdx addr)) := by
  have hb : typ.byte = false := by cases typ <;> simp_all [MemTyp.word, MemTyp.byte]
  have hh : typ.half = false := by cases typ <;> simp_all [MemTyp.word, MemTyp.half]
  rw [byteMask, if_neg (by simp [hb]), if_neg (by simp [hh]), if_pos h]
  revert addr k
  decide +kernel

theorem wordOf_merge (mask old new : BitVec 64) (k : Fin 2) :
    wordOf (merge mask old new) k = merge (wordOf mask k) (wordOf old k) (wordOf new k) :=
  fromBits_merge _ _ _ k

theorem wordOf_wordData (h : typ.word) (dat : BitVec 64) (k : Fin 2) :
    wordOf (StoreGen.wordData typ dat) k = wordOf dat 0 := by
  rw [StoreGen.wordData, if_pos h, wordOf, fromBits_toBits]
  rfl

namespace AMOALU

/-- Comparing words by their sign bits first, and by the unsigned order if those agree. -/
theorem compare_by_sign {w : ℕ} (a b : BitVec w) (s : Bool) :
    (if a.msb == b.msb then a.ult b else if s then a.msb else b.msb) =
      if s then a.slt b else a.ult b := by
  by_cases h : a.msb = b.msb
  · rw [if_pos (by simp [h]), slt_eq_ult_of_msb_eq h, ite_self]
  · rw [if_neg (by simp [h]), slt_eq_not_ult_of_msb_neq h, ult_eq_msb_of_msb_neq h]
    have hnot : a.msb = !b.msb := Bool.eq_not_of_ne h
    simp [hnot]

variable {addr : BitVec 3}

theorem wordIdx_lower (h : addr.getLsbD 2 = false) : wordIdx addr = 0 :=
  if_neg (by rw [h]; decide)

theorem wordIdx_upper (h : addr.getLsbD 2) : wordIdx addr = 1 := if_pos h

theorem cmpBit_word (h : word typ) (addr : BitVec 3) (x : BitVec 64) :
    cmpBit addr typ x = (wordOf x (wordIdx addr)).msb := by
  rw [msb_eq_getLsbD_last, cmpBit, h]
  cases ha : addr.getLsbD 2 with
  | false => rw [wordIdx_lower ha, wordOf, getLsbD_fromBits _ _ (by decide)]; rfl
  | true => rw [wordIdx_upper ha, wordOf, getLsbD_fromBits _ _ (by decide)]; rfl

theorem lt_word (h : word typ) (addr : BitVec 3) (lhs rhs : BitVec 64) :
    lt addr typ lhs rhs = (wordOf lhs (wordIdx addr)).ult (wordOf rhs (wordIdx addr)) := by
  rw [lt, if_pos h]
  cases ha : addr.getLsbD 2 with
  | false => rw [wordIdx_lower ha]; rfl
  | true => rw [wordIdx_upper ha]; rfl

theorem less_word (h : word typ) (addr : BitVec 3) (cmd : MemCmd) (lhs rhs : BitVec 64) :
    less addr cmd typ lhs rhs =
      if sgned cmd then (wordOf lhs (wordIdx addr)).slt (wordOf rhs (wordIdx addr))
      else (wordOf lhs (wordIdx addr)).ult (wordOf rhs (wordIdx addr)) := by
  rw [less, cmpBit_word h, cmpBit_word h, lt_word h, compare_by_sign]

theorem toNat_eq_words (x : BitVec 64) :
    x.toNat = (x.extractLsb' 32 32).toNat * 2 ^ 32 + (x.extractLsb' 0 32).toNat := by
  simp only [BitVec.extractLsb'_toNat, Nat.shiftRight_eq_div_pow]
  have := x.isLt
  omega

theorem lt_double (h : word typ = false) (addr : BitVec 3) (lhs rhs : BitVec 64) :
    lt addr typ lhs rhs = lhs.ult rhs := by
  have hl := (lhs.extractLsb' 0 32).isLt
  have hr := (rhs.extractLsb' 0 32).isLt
  rw [lt, if_neg (by simp [h]), Bool.eq_iff_iff]
  simp only [Bool.or_eq_true, Bool.and_eq_true, beq_iff_eq, ult_eq_decide,
    decide_eq_true_eq, ← toNat_inj]
  rw [toNat_eq_words lhs, toNat_eq_words rhs]
  omega

theorem less_double (h : word typ = false) (addr : BitVec 3) (cmd : MemCmd) (lhs rhs : BitVec 64) :
    less addr cmd typ lhs rhs = if sgned cmd then lhs.slt rhs else lhs.ult rhs := by
  have hbit : ∀ x : BitVec 64, cmpBit addr typ x = x.msb := by
    intro x
    rw [cmpBit, if_neg (by simp [h]), msb_eq_getLsbD_last]
  rw [less, hbit, hbit, lt_double h, compare_by_sign]

theorem mask_lower (h : addr.getLsbD 2 = false) : mask addr 64 = BitVec.allOnes 64 := by
  revert addr
  decide

theorem mask_upper (h : addr.getLsbD 2) :
    mask addr 64 = BitVec.allOnes 32 ++ (BitVec.allOnes 31).setWidth 32 := by
  revert addr
  decide

/-- An operand of an addition in the upper word. -/
theorem toNat_and_mask_upper (h : addr.getLsbD 2) (x : BitVec 64) :
    ∃ lo < 2 ^ 31, (x &&& mask addr 64).toNat = (x.extractLsb' 32 32).toNat * 2 ^ 32 + lo := by
  refine ⟨((x &&& mask addr 64).extractLsb' 0 32).toNat, ?_, ?_⟩
  · rw [BitVec.extractLsb'_and, mask_upper h, TagUtil.extract_low_append, toNat_and]
    exact lt_of_le_of_lt Nat.and_le_right (by decide)
  · rw [toNat_eq_words (x &&& mask addr 64), BitVec.extractLsb'_and]
    congr 2
    rw [mask_upper h, TagUtil.extract_high_append, and_allOnes]

theorem wordOf_adderOut (addr : BitVec 3) (lhs rhs : BitVec 64) :
    wordOf (adderOut addr lhs rhs) (wordIdx addr) =
      wordOf lhs (wordIdx addr) + wordOf rhs (wordIdx addr) := by
  cases ha : addr.getLsbD 2 with
  | false =>
    rw [wordIdx_lower ha, adderOut, mask_lower ha, and_allOnes, and_allOnes]
    apply eq_of_toNat_eq
    simp [wordOf, fromBits]
  | true =>
    -- without bit 31 the lower parts cannot reach 2 ^ 32 together
    obtain ⟨lo, hlo, hl⟩ := toNat_and_mask_upper ha lhs
    obtain ⟨lo', hlo', hr⟩ := toNat_and_mask_upper ha rhs
    rw [wordIdx_upper ha, adderOut]
    change ((lhs &&& mask addr 64) + (rhs &&& mask addr 64)).extractLsb' 32 32 =
      lhs.extractLsb' 32 32 + rhs.extractLsb' 32 32
    apply eq_of_toNat_eq
    rw [BitVec.extractLsb'_toNat, toNat_add, toNat_add, hl, hr,
      Nat.shiftRight_eq_div_pow]
    omega

/-- The result seen through a projection to the addressed part of the doubleword: if the
projection respects the bitwise operations, the sum and the comparison, the result is that of
the operation on the parts. -/
theorem proj_result {v : ℕ} (f : BitVec 64 → BitVec v)
    (hand : ∀ x y, f (x &&& y) = f x &&& f y) (hor : ∀ x y, f (x ||| y) = f x ||| f y)
    (hxor : ∀ x y, f (x ^^^ y) = f x ^^^ f y) {cmd : MemCmd}
    {lhs rhs : BitVec 64} (hadd : f (adderOut addr lhs rhs) = f lhs + f rhs)
    (hless : less addr cmd typ lhs rhs =
      if sgned cmd then (f lhs).slt (f rhs) else (f lhs).ult (f rhs))
    (hc : cmd.isAMO) :
    f (result addr cmd typ lhs rhs rhs) = amoOp cmd (f lhs) (f rhs) := by
  rw [result, hless]
  -- the bitwise operations commute with the projection, and the others select a whole operand
  cases cmd with
  | XA_ADD => exact hadd
  | XA_AND => exact hand lhs rhs
  | XA_OR => exact hor lhs rhs
  | XA_XOR => exact hxor lhs rhs
  | XA_SWAP => simp [sgned, min, max, amoOp]
  | XA_MIN => simp [sgned, min, max, amoOp, apply_ite f]
  | XA_MINU => simp [sgned, min, max, amoOp, apply_ite f]
  | XA_MAX => cases hs : (f lhs).slt (f rhs) <;> simp [sgned, min, max, amoOp, hs]
  | XA_MAXU => cases hs : (f lhs).ult (f rhs) <;> simp [sgned, min, max, amoOp, hs]
  | _ => exact absurd hc (by decide)

theorem out_eq_merge (addr : BitVec 3) (cmd : MemCmd) (typ : MemTyp) (lhs rhs : BitVec 64) :
    out addr cmd typ lhs rhs = merge (fillInterleaved 8 (byteMask typ addr)) lhs
      (result addr cmd typ lhs (StoreGen.wordData typ rhs) (StoreGen.data typ rhs)) := by
  rw [out, and_or_not_and, StoreGen.mask]

/-- An atomic operation on a word computes `amoOp` on the addressed word and leaves the other. -/
theorem wordOf_out {cmd : MemCmd} (hc : cmd.isAMO) (h : typ.word)
    (addr : BitVec 3) (lhs rhs : BitVec 64) (k : Fin 2) :
    wordOf (out addr cmd typ lhs rhs) k =
      if k = wordIdx addr then amoOp cmd (wordOf lhs k) (wordOf rhs 0) else wordOf lhs k := by
  have hw : word typ := by cases typ <;> simp_all [MemTyp.word, word]
  have hd : StoreGen.data typ rhs = StoreGen.wordData typ rhs := by
    cases typ <;> simp_all [MemTyp.word, StoreGen.data, MemTyp.byte, MemTyp.half]
  -- the mask covers one of the two words and nothing of the other
  rw [out_eq_merge, wordOf_merge, wordOf_wmask h, merge_fill, hd]
  simp only [decide_eq_true_eq]
  split
  · next hk =>
    subst hk
    have hpart := proj_result (wordOf · (wordIdx addr))
      (fun x y => fromBits_and (n := 2) (w := 32) x y _)
      (fun x y => fromBits_or (n := 2) (w := 32) x y _)
      (fun x y => fromBits_xor (n := 2) (w := 32) x y _)
      (wordOf_adderOut addr lhs (StoreGen.wordData typ rhs)) (less_word hw addr cmd _ _) hc
    rw [hpart, wordOf_wordData h]
  · rfl

/-- An atomic operation on an aligned doubleword computes `amoOp`. -/
theorem out_double {cmd : MemCmd} (hc : cmd.isAMO) (lhs rhs : BitVec 64) :
    out 0 cmd .D lhs rhs = amoOp cmd lhs rhs := by
  have hmask : fillInterleaved 8 (byteMask .D 0) = BitVec.fill 64 true := by decide +kernel
  have hadd : adderOut 0 lhs rhs = lhs + rhs := by
    rw [adderOut, mask_lower (by decide), and_allOnes, and_allOnes]
  have hw : StoreGen.wordData .D rhs = rhs := rfl
  have hd : StoreGen.data .D rhs = rhs := rfl
  rw [out_eq_merge, hmask, merge_fill, if_pos rfl, hw, hd]
  exact proj_result id (fun _ _ => rfl) (fun _ _ => rfl) (fun _ _ => rfl) hadd
    (less_double rfl 0 cmd lhs rhs) hc

end AMOALU

/-! ## Loads -/

namespace L1LoadGen

variable (typ : MemTyp) (addr : BitVec 3) (dat : BitVec 68) (zero : Bool)

theorem dataOf_word : dataOf (word typ addr dat) = LoadGen.word typ addr (dataOf dat) := by
  have hs : wordShift addr dat = LoadGen.wordShift addr (dataOf dat) := by
    rw [wordShift, LoadGen.wordShift, extractLsb'_dataOf _ (by decide),
      extractLsb'_dataOf _ (by decide)]
  rw [word, dataOf_append, LoadGen.word, hs, extractLsb'_dataOf _ (by decide)]

theorem half_eq : half typ addr dat = LoadGen.half typ addr (dataOf dat) := by
  have hs : halfShift typ addr dat = LoadGen.halfShift typ addr (dataOf dat) := by
    rw [halfShift, LoadGen.halfShift, ← dataOf_word, extractLsb'_dataOf _ (by decide),
      extractLsb'_dataOf _ (by decide)]
  rw [half, LoadGen.half, hs, ← dataOf_word, extractLsb'_dataOf _ (by decide)]

theorem dataOf_byte (h : typ.tag = false) :
    dataOf (byte typ addr dat zero) = LoadGen.byte typ addr (dataOf dat) zero := by
  have hs : byteShift typ addr dat zero = LoadGen.byteShift typ addr (dataOf dat) zero := by
    rw [byteShift, LoadGen.byteShift, half_eq]
  rw [byte, if_neg (by simp [h]), dataOf_append, LoadGen.byte, hs, half_eq]

theorem getLsbD_pureTag (i : ℕ) : (pureTag dat).getLsbD i = (tagOf dat).getLsbD i := by
  rw [pureTag, getLsbD_append]
  split
  · rfl
  · next h => simp [getLsbD_of_ge _ _ (Nat.le_of_not_lt h)]

/-- A load of the tag returns it with zeros above. -/
theorem dataOf_byte_tag (h : typ.tag) :
    dataOf (byte typ addr dat zero) = (tagOf dat).setWidth 64 := by
  rw [byte, if_pos h, dataOf_eq_setWidth]
  apply eq_of_getLsbD_eq
  intro i hi
  simp only [getLsbD_setWidth, getLsbD_or, getLsbD_shiftLeft, getLsbD_pureTag,
    hi, show i < 68 by omega, show i < 128 by omega]
  simp

end L1LoadGen

/-! ## The two data paths compared -/

/-- On every aligned access other than to the tag, the low 64 bits of the tagged units are what
the untagged units compute, and an atomic operation leaves what the instruction set defines in
the addressed word and nothing new elsewhere. A store of the tag leaves the data and sets the
tag; a load of the tag returns it with zeros above. -/
theorem tagged_datapath_agrees (typ : MemTyp) (addr : BitVec 3) (cmd : MemCmd)
    (lhs rhs dat : BitVec 68) (zero : Bool) :
    (typ ≠ .T → typ.aligned addr = true →
      dataOf (L1AMOALU.out addr cmd typ lhs rhs) =
        AMOALU.out addr cmd typ (dataOf lhs) (dataOf rhs) ∧
      dataOf (L1LoadGen.word typ addr dat) = LoadGen.word typ addr (dataOf dat) ∧
      dataOf (L1LoadGen.byte typ addr dat zero) = LoadGen.byte typ addr (dataOf dat) zero ∧
      (cmd.isAMO = true → typ.word = true → ∀ k,
        wordOf (dataOf (L1AMOALU.out addr cmd typ lhs rhs)) k =
          if k = wordIdx addr then amoOp cmd (wordOf (dataOf lhs) k) (wordOf (dataOf rhs) 0)
          else wordOf (dataOf lhs) k) ∧
      (cmd.isAMO = true → typ = .D →
        dataOf (L1AMOALU.out addr cmd typ lhs rhs) = amoOp cmd (dataOf lhs) (dataOf rhs))) ∧
    (typ = .T →
      dataOf (L1AMOALU.out addr cmd typ lhs rhs) = dataOf lhs ∧
      tagOf (L1AMOALU.out addr cmd typ lhs rhs) = rhs.extractLsb' 0 4 ∧
      dataOf (L1LoadGen.byte typ addr dat zero) = (tagOf dat).setWidth 64) := by
  constructor
  · intro ht ha
    have htag : typ.tag = false := by simpa [MemTyp.tag] using ht
    have hout := L1AMOALU.dataOf_out_eq addr cmd typ lhs rhs htag
    refine ⟨hout, L1LoadGen.dataOf_word typ addr dat, L1LoadGen.dataOf_byte typ addr dat zero htag,
      fun hc hw k => ?_, fun hc hd => ?_⟩
    · rw [hout, AMOALU.wordOf_out hc hw]
    · subst hd
      have h0 : addr = 0 := by simpa [MemTyp.aligned, MemTyp.half, MemTyp.word] using ha
      rw [hout, h0, AMOALU.out_double hc]
  · rintro rfl
    refine ⟨?_, ?_, L1LoadGen.dataOf_byte_tag .T addr dat zero rfl⟩
    · rw [L1AMOALU.dataOf_out, if_pos (by decide)]
    · rw [L1AMOALU.tagOf_out, if_pos (by decide)]

/-- An `AMOMAX.W` in the upper word: the larger word stays, the lower word is not touched. -/
theorem tagged_datapath_agrees_amomax :
    wordOf (dataOf (L1AMOALU.out 4 .XA_MAX .W 0x1FFFFFFFF00000007 5)) 1 = 5 ∧
      wordOf (dataOf (L1AMOALU.out 4 .XA_MAX .W 0x1FFFFFFFF00000007 5)) 0 = 7 := by
  have h := ((tagged_datapath_agrees .W 4 .XA_MAX 0x1FFFFFFFF00000007 5 0 false).1 (by decide)
    (by decide)).2.2.2.1 (by decide) (by decide)
  constructor
  · rw [h 1]; decide
  · rw [h 0]; decide

end TaggedRiscv
