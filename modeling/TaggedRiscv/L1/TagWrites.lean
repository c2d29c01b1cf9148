import TaggedRiscv.L1.DataPath
import TaggedRiscv.Lib.Machine

/-!
# The tag of a doubleword under stores and atomic operations

A doubleword in the L1 data cache is written through `L1AMOALU` only. The return tag and the
invalid tag are followed over a whole sequence of writes.

A write of part of a doubleword keeps what its tag said of the rest only for bytes and words: the
unit's predicate for partial writes leaves out halfwords, and never looks at whether the command is
an atomic operation.
-/

namespace TaggedRiscv

open Sync

/-- A store of a byte, halfword, word or doubleword, or an atomic operation on a word or
doubleword. -/
structure Write where
  cmd : MemCmd
  typ : MemTyp
  addr : BitVec 3
  /-- The register's value and tag. -/
  operand : BitVec 68
  kind : (cmd = .XWR ∧ (typ = .B ∨ typ = .H ∨ typ = .W ∨ typ = .D)) ∨
    (cmd.isAMO ∧ (typ = .W ∨ typ = .D))

namespace Write

variable (w : Write) (x : BitVec 68)

/-- The doubleword after a write. -/
def apply : BitVec 68 := L1AMOALU.out w.addr w.cmd w.typ x w.operand

/-- A store of a whole doubleword. -/
def full : Bool := w.cmd == .XWR && w.typ == .D

/-- The value written is computed from the value in memory. -/
def readsOld : Bool := w.cmd.isAMO && w.cmd != .XA_SWAP

def operandRet : Bool := hasRetTag (tagOf w.operand)
def operandInv : Bool := hasInvTag (tagOf w.operand)

/-- Byte `b` is written. -/
def covers (b : Fin 8) : Bool := (byteMask w.typ w.addr).getLsbD b

theorem typ_cases : w.typ = .B ∨ w.typ = .H ∨ w.typ = .W ∨ w.typ = .D := by
  rcases w.kind with ⟨-, h⟩ | ⟨-, h | h⟩
  · exact h
  · exact .inr (.inr (.inl h))
  · exact .inr (.inr (.inr h))

/-- The tag after a write: bytes and words keep the old tag, without the return tag. -/
theorem tagOf_apply : tagOf (w.apply x) =
    if w.typ = .B ∨ w.typ = .W then tagOf w.operand ||| (tagOf x &&& ~~~retTag)
    else tagOf w.operand := by
  rw [apply, L1AMOALU.tagOf_out, L1AMOALU.tagOut]
  rcases w.typ_cases with h | h | h | h <;> rw [h] <;> rfl

end Write

/-! ## The return tag -/

theorem hasRetTag_or_masked : ∀ s t : Tag, hasRetTag (s ||| (t &&& ~~~retTag)) = hasRetTag s := by
  decide

/-- A write leaves the return tag of its operand, whatever it is and whatever was there. -/
theorem Write.hasRetTag_apply (w : Write) (x : BitVec 68) :
    hasRetTag (tagOf (w.apply x)) = w.operandRet := by
  rw [Write.tagOf_apply, Write.operandRet]
  split
  · exact hasRetTag_or_masked _ _
  · rfl

/-- Writes in turn to a doubleword, each allowed by `ok`. -/
def writeMachine (ok : BitVec 68 → Write → Prop) : Machine (BitVec 68) Write where
  ok := ok
  next x w := w.apply x

/-- No write but that of a whole doubleword carries the return tag. -/
def RetOnlyInFull (_ : BitVec 68) (w : Write) : Prop := w.full = false → w.operandRet = false

/-- If no other write carries the return tag, it is set only by a store of a whole doubleword
that was the last write, or was there when nothing was written. -/
theorem retTag_after_writes (x : BitVec 68) (ws : List Write)
    (hl : (writeMachine RetOnlyInFull).Legal x ws)
    (hret : hasRetTag (tagOf ((writeMachine RetOnlyInFull).run x ws)) = true) :
    (ws = [] ∧ hasRetTag (tagOf x) = true) ∨
      ∃ before w, ws = before ++ [w] ∧ w.full = true ∧ w.operandRet = true := by
  -- the last write alone decides
  induction ws using List.reverseRecOn with
  | nil => exact .inl ⟨rfl, hret⟩
  | append_singleton before w _ =>
    rw [Machine.legal_append] at hl
    rw [Machine.run_append] at hret
    have hop : w.operandRet = true := (w.hasRetTag_apply _).symm.trans hret
    refine .inr ⟨before, w, rfl, ?_, hop⟩
    by_contra hfull
    have hclean := hl.2.1 (Bool.eq_false_iff.2 hfull)
    rw [hop] at hclean
    exact Bool.noConfusion hclean

/-- A return address stored whole. -/
def storeReturn : Write := ⟨.XWR, .D, 0, 0x2DEADBEEF00000000, .inl (by decide)⟩

/-- The upper word of an untagged register. -/
def storeUpperWord : Write := ⟨.XWR, .W, 4, 0xCAFE0000, .inl (by decide)⟩

theorem retTag_after_writes_store :
    ∃ before w, [storeUpperWord, storeReturn] = before ++ [w] ∧ w.full = true ∧
      w.operandRet = true :=
  (retTag_after_writes 0 [storeUpperWord, storeReturn]
    ⟨fun _ => by decide, fun h => absurd h (by decide), trivial⟩
    (by decide +kernel)).resolve_left (by simp)

/-- The lower word of a register that carries the return tag. -/
def storeReturnWord : Write := ⟨.XWR, .W, 0, 0x200000000CAFE0000, .inl (by decide)⟩

/-- A word store replaces half of a doubleword and leaves the return tag set. -/
theorem word_store_sets_retTag :
    hasRetTag (tagOf 0x0123456789ABCDEF) = false ∧
      storeReturnWord.full = false ∧
      hasRetTag (tagOf ((writeMachine fun _ _ => True).run 0x0123456789ABCDEF
        [storeReturnWord])) = true ∧
      dataOf ((writeMachine fun _ _ => True).run 0x0123456789ABCDEF [storeReturnWord]) =
        0x01234567CAFE0000 := by
  decide +kernel

/-! ## The invalid tag -/

theorem hasInvTag_or_masked :
    ∀ s t : Tag, hasInvTag (s ||| (t &&& ~~~retTag)) = (hasInvTag s || hasInvTag t) := by
  decide

/-- A doubleword with a mark on every byte whose value was written by, or computed from, data
with the invalid tag. -/
structure Tracked where
  word : BitVec 68
  mark : Fin 8 → Bool

namespace Tracked

variable (s : Tracked) (w : Write)

/-- The value that a write leaves in its bytes comes from invalid data: from its operand, or
from the bytes an atomic operation computes it from. -/
def taints : Bool :=
  w.operandInv || w.readsOld && (List.finRange 8).any fun b => w.covers b && s.mark b

def next : Tracked where
  word := w.apply s.word
  mark b := if w.covers b then s.taints w else s.mark b

/-- Marks are covered by the tag. -/
def Covered : Prop := ∀ b, s.mark b = true → hasInvTag (tagOf s.word) = true

/-- A halfword, or an atomic operation that computes a doubleword, carries the invalid tag
itself or does not meet it. -/
def KeepsInv : Prop :=
  w.typ = .H ∨ (w.readsOld = true ∧ w.typ = .D) →
    hasInvTag (tagOf s.word) = false ∨ w.operandInv = true

end Tracked

/-- Writes in turn to a doubleword with marks, each allowed by `ok`. -/
def trackedMachine (ok : Tracked → Write → Prop) : Machine Tracked Write where
  ok := ok
  next := Tracked.next

namespace Tracked

variable {s : Tracked} {w : Write}

/-- The new value is marked only for a marked byte or an invalid operand. -/
theorem taints_cases (h : s.taints w) : w.operandInv ∨ (w.readsOld ∧ ∃ b, s.mark b) := by
  simp only [taints, Bool.or_eq_true, Bool.and_eq_true, List.any_eq_true] at h
  rcases h with h | ⟨hr, b, -, -, hb⟩
  · exact .inl h
  · exact .inr ⟨hr, b, hb⟩

/-- The invalid tag of the operand is always taken over. -/
theorem hasInvTag_apply_of_operand (x : BitVec 68) (h : w.operandInv) :
    hasInvTag (tagOf (w.apply x)) := by
  have h' : hasInvTag (tagOf w.operand) := h
  rw [Write.tagOf_apply]
  split
  · rw [hasInvTag_or_masked, h', Bool.true_or]
  · exact h'

/-- Bytes and words keep the invalid tag. -/
theorem hasInvTag_apply_of_narrow {x : BitVec 68} (ht : w.typ = .B ∨ w.typ = .W)
    (h : hasInvTag (tagOf x)) : hasInvTag (tagOf (w.apply x)) := by
  rw [Write.tagOf_apply, if_pos ht, hasInvTag_or_masked, h, Bool.or_true]

/-- A doubleword covers all bytes. -/
theorem covers_of_double (h : w.typ = .D) (b : Fin 8) : w.covers b := by
  have hmask : byteMask .D w.addr = 255#8 := rfl
  rw [Write.covers, h, hmask]
  revert b
  decide

/-- One write: what was marked before and is not replaced, or goes into the new value, is still
covered by the tag. -/
theorem Covered.next (hc : s.Covered) (hk : s.KeepsInv w) : (s.next w).Covered := by
  intro b hb
  by_cases hop : w.operandInv
  · exact hasInvTag_apply_of_operand _ hop
  -- the mark goes back to a mark before the write
  have hold : hasInvTag (tagOf s.word) := by
    simp only [Tracked.next] at hb
    split at hb
    · rcases taints_cases hb with h | ⟨-, b', hb'⟩
      · exact absurd h hop
      · exact hc b' hb'
    · exact hc b hb
  rcases w.typ_cases with ht | ht | ht | ht
  · exact hasInvTag_apply_of_narrow (.inl ht) hold
  · exact ((hk (.inl ht)).resolve_right hop).symm.trans hold |> Bool.noConfusion
  · exact hasInvTag_apply_of_narrow (.inr ht) hold
  · -- all bytes are replaced, so the mark is that of a computed value
    simp only [Tracked.next, covers_of_double ht, if_true] at hb
    rcases taints_cases hb with h | ⟨hr, -⟩
    · exact absurd h hop
    · exact ((hk (.inr ⟨hr, ht⟩)).resolve_right hop).symm.trans hold |> Bool.noConfusion

end Tracked

/-- In every sequence of writes that all meet the condition, a marked byte leaves the invalid
tag set. -/
theorem invTag_covers_marks (s : Tracked) (hs : s.Covered) (ws : List Write)
    (hl : (trackedMachine Tracked.KeepsInv).Legal s ws) (b : Fin 8)
    (hb : ((trackedMachine Tracked.KeepsInv).run s ws).mark b = true) :
    hasInvTag (tagOf ((trackedMachine Tracked.KeepsInv).run s ws).word) = true :=
  Machine.invariant_run (m := trackedMachine Tracked.KeepsInv) (P := Tracked.Covered)
    (fun _ _ hc hk => hc.next hk) hs hl b hb

/-- A doubleword of invalid data. -/
def storeInvalid : Write := ⟨.XWR, .D, 0, 0x1AAAAAAAAAAAAAAAA, .inl (by decide)⟩

/-- A byte of trusted data at the given offset. -/
def storeByte (addr : BitVec 3) : Write := ⟨.XWR, .B, addr, 0x55, .inl (by decide)⟩

/-- A doubleword that nothing invalid was written to. -/
def cleanWord : Tracked := ⟨0, fun _ => false⟩

theorem invTag_covers_marks_byte :
    hasInvTag (tagOf ((trackedMachine Tracked.KeepsInv).run cleanWord
      [storeInvalid, storeByte 3]).word) = true := by
  refine invTag_covers_marks cleanWord (fun b hb => ?_) [storeInvalid, storeByte 3]
    ⟨fun h => ?_, fun h => ?_, trivial⟩ 0 (by decide +kernel)
  · exact Bool.noConfusion hb
  · exact .inl (by decide +kernel)
  · simp [storeByte] at h

/-- A halfword of trusted data. -/
def storeHalf : Write := ⟨.XWR, .H, 0, 0x1234, .inl (by decide)⟩

/-- Six of eight invalid bytes are left, and the tag is gone. -/
theorem half_store_drops_invTag :
    (∀ b, 2 ≤ b → ((trackedMachine fun _ _ => True).run cleanWord
      [storeInvalid, storeHalf]).mark b = true) ∧
    dataOf ((trackedMachine fun _ _ => True).run cleanWord [storeInvalid, storeHalf]).word =
      0xAAAAAAAAAAAA1234 ∧
    hasInvTag (tagOf ((trackedMachine fun _ _ => True).run cleanWord
      [storeInvalid, storeHalf]).word) = false := by
  decide +kernel

end TaggedRiscv
