import TaggedRiscv.Core.Decode
import TaggedRiscv.Core.TagCheckUnit

/-!
# The units of the execute stage

The ALU computes the result of an instruction, the tag ALU its tag, and the immediate
comes out of the instruction word.
-/

namespace TaggedRiscv.Core

namespace ALU

def isSub (fn : AluFn) : Bool := fn.getLsbD 3
def cmpUnsigned (fn : AluFn) : Bool := fn.getLsbD 1
def cmpInverted (fn : AluFn) : Bool := fn.getLsbD 0
def cmpEq (fn : AluFn) : Bool := !fn.getLsbD 2

variable (dw : Bool) (fn : AluFn) (in1 in2 : BitVec 64)

/-- The sum or difference. -/
def adderOut : BitVec 64 := in1 + if isSub fn then -in2 else in2

/-- The comparison, from the difference. -/
def cmp : Bool :=
  let sum := adderOut fn in1 in2
  cmpInverted fn ^^
    if cmpEq fn then sum == 0
    else if in1.getLsbD 63 == in2.getLsbD 63 then sum.getLsbD 63
    else if cmpUnsigned fn then in2.getLsbD 63 else in1.getLsbD 63

def shamt : BitVec 6 := BitVec.ofBool (in2.getLsbD 5 && dw) ++ in2.extractLsb' 0 5

/-- The operand of a shift to the right. -/
def shinR : BitVec 64 :=
  let shinHi32 : BitVec 32 := if isSub fn then BitVec.fill 32 (in1.getLsbD 31) else 0
  let shinHi := if dw then in1.extractLsb' 32 32 else shinHi32
  shinHi ++ in1.extractLsb' 0 32

/-- A shift; to the left it is one to the right between two reversals. -/
def shoutR : BitVec 64 :=
  let shin := if fn = FN_SR ∨ fn = FN_SRA then shinR dw fn in1 else (shinR dw fn in1).reverse
  ((BitVec.ofBool (isSub fn && shin.getLsbD 63) ++ shin).sshiftRight
    (shamt dw in2).toNat).setWidth 64

def out64 : BitVec 64 :=
  if fn = FN_ADD ∨ fn = FN_SUB then adderOut fn in1 in2
  else if fn = FN_SR ∨ fn = FN_SRA then shoutR dw fn in1 in2
  else if fn = FN_SL then (shoutR dw fn in1 in2).reverse
  else if fn = FN_AND then in1 &&& in2
  else if fn = FN_OR then in1 ||| in2
  else if fn = FN_XOR then in1 ^^^ in2
  else (BitVec.ofBool (cmp fn in1 in2)).setWidth 64

/-- The result; a 32-bit one is extended with its sign. -/
def out : BitVec 64 :=
  let r := out64 dw fn in1 in2
  let outHi := if dw then r.extractLsb' 32 32 else BitVec.fill 32 (r.getLsbD 31)
  outHi ++ r.extractLsb' 0 32

end ALU

namespace TagALU

/-- The policy bits of the tag of a result: whatever the operation is, the invalid bit of
either operand. -/
def tagOutAlu (in1 in2 : Tag) : Tag := (in1.extractLsb' 0 1 ||| in2.extractLsb' 0 1).setWidth 4

/-- The tag of a result; a move copies the tag of its operand, and a link address gets the
return tag. -/
def out (isMv : Bool) (in1 in2 : Tag) (jal jalr : Bool) : Tag :=
  if jalr || jal then retTag
  else if isMv then in1
  else tagOutAlu in1 in2 |||
    (in1.extractLsb' 2 2 ||| in2.extractLsb' 2 2).setWidth 4 <<< 2

/-- The invalid tag of a result that is not a link address is that of the operands; for a
move, that of its one operand. -/
theorem out_inv {isMv : Bool} {in1 in2 : Tag} (h : isMv → in2 = 0) :
    hasInvTag (out isMv in1 in2 false false) = (hasInvTag in1 || hasInvTag in2) := by
  cases isMv with
  | true =>
    rw [h rfl]
    revert in1
    decide
  | false =>
    revert in1 in2
    decide

end TagALU

/-- The immediate of an instruction. -/
def imm (sel : BitVec 3) (inst : BitVec 32) : BitVec 32 :=
  let sign : BitVec 1 := if sel = IMM_Z then 0 else inst.extractLsb' 31 1
  let b30_20 : BitVec 11 := if sel = IMM_U then inst.extractLsb' 20 11 else sign.signExtend 11
  let b19_12 : BitVec 8 :=
    if sel ≠ IMM_U ∧ sel ≠ IMM_UJ then sign.signExtend 8 else inst.extractLsb' 12 8
  let b11 : BitVec 1 :=
    if sel = IMM_U ∨ sel = IMM_Z then 0
    else if sel = IMM_UJ then inst.extractLsb' 20 1
    else if sel = IMM_SB then inst.extractLsb' 7 1 else sign
  let b10_5 : BitVec 6 := if sel = IMM_U ∨ sel = IMM_Z then 0 else inst.extractLsb' 25 6
  let b4_1 : BitVec 4 :=
    if sel = IMM_U then 0
    else if sel = IMM_S ∨ sel = IMM_SB then inst.extractLsb' 8 4
    else if sel = IMM_Z then inst.extractLsb' 16 4 else inst.extractLsb' 21 4
  let b0 : BitVec 1 :=
    if sel = IMM_S then inst.extractLsb' 7 1
    else if sel = IMM_I then inst.extractLsb' 20 1
    else if sel = IMM_Z then inst.extractLsb' 15 1 else 0
  sign ++ b30_20 ++ b19_12 ++ b11 ++ b10_5 ++ b4_1 ++ b0

/-- The bit above a virtual address of 39 bits: a base and an effective address of 64 bits
are compressed so that a bad address stays recognisable. -/
def vaSign (a0 ea : BitVec 64) : Bool :=
  let a : BitVec 26 := a0.extractLsb' 38 26
  let e : BitVec 2 := ea.extractLsb' 38 2
  if a = 0 ∨ a = 1 then e != 0
  else if a = -1 ∨ a = -2 then e == -1
  else e.getLsbD 0

end TaggedRiscv.Core
