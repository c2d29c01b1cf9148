import Mathlib.Data.Nat.Log
import TaggedRiscv.Core.Decode
import TaggedRiscv.Lib.Progress
import TaggedRiscv.Lib.SeqArith

/-!
# The multiplier and divider

One register serves both operations: a multiplication consumes `mulUnroll` bits of one operand per
cycle and shifts the product in above it, a division shifts the dividend up past the divisor and the
quotient in below it.
-/

namespace TaggedRiscv.Core

/-! ## The instructions -/

/-- The operations of the M extension. -/
inductive MulOp where
  | MUL
  | MULH
  | MULHSU
  | MULHU
  | DIV
  | DIVU
  | REM
  | REMU
  deriving DecidableEq, Repr

namespace MulOp

/-- The code of the operation in the decode table of the core. -/
def fn : MulOp → AluFn
  | MUL => FN_MUL
  | MULH => FN_MULH
  | MULHSU => FN_MULHSU
  | MULHU => FN_MULHU
  | DIV => FN_DIV
  | DIVU => FN_DIVU
  | REM => FN_REM
  | REMU => FN_REMU

/-- The operations that have a form on 32-bit words. -/
def HasWordForm : MulOp → Prop
  | MULH | MULHSU | MULHU => False
  | _ => True

instance : DecidablePred HasWordForm := fun op => by
  cases op <;> first | exact isTrue trivial | exact isFalse id

variable {w : ℕ}

/-- The most negative number divided by minus one. -/
def Overflows (a b : BitVec w) : Prop := a = BitVec.intMin w ∧ b = BitVec.allOnes w
deriving Decidable

/-- The result the instruction set gives the operation on words of `w` bits. -/
def result (op : MulOp) (a b : BitVec w) : BitVec w :=
  match op with
  | MUL => a * b
  | MULH => BitVec.ofInt w (a.toInt * b.toInt / 2 ^ w)
  | MULHSU => BitVec.ofInt w (a.toInt * b.toNat / 2 ^ w)
  | MULHU => BitVec.ofInt w (a.toNat * b.toNat / 2 ^ w)
  | DIV =>
    if b = 0 then BitVec.allOnes w
    else if Overflows a b then a
    else BitVec.ofInt w (a.toInt.tdiv b.toInt)
  | DIVU => if b = 0 then BitVec.allOnes w else BitVec.ofNat w (a.toNat / b.toNat)
  | REM =>
    if b = 0 then a
    else if Overflows a b then 0
    else BitVec.ofInt w (a.toInt.tmod b.toInt)
  | REMU => if b = 0 then a else BitVec.ofNat w (a.toNat % b.toNat)

/-- The result in a register of 64 bits: that of the whole registers, or that of their low halves,
sign-extended. -/
def wordResult (op : MulOp) (dw : Bool) (a b : BitVec 64) : BitVec 64 :=
  if dw then op.result a b
  else (op.result (a.setWidth 32) (b.setWidth 32)).signExtend 64

end MulOp

/-! ## The unit -/

namespace MulDiv

/-- A row of the decode table of the unit; `none` is a don't care. -/
structure CmdRow where
  cmdMul : Bool
  cmdHi : Bool
  lhsSigned : Option Bool
  rhsSigned : Option Bool

/-- The decode table. -/
def cmdRow : MulOp → CmdRow
  | .DIV => ⟨false, false, some true, some true⟩
  | .REM => ⟨false, true, some true, some true⟩
  | .DIVU => ⟨false, false, some false, some false⟩
  | .REMU => ⟨false, true, some false, some false⟩
  | .MUL => ⟨true, false, none, none⟩
  | .MULH => ⟨true, true, some true, some true⟩
  | .MULHU => ⟨true, true, some false, some false⟩
  | .MULHSU => ⟨true, true, some true, some false⟩

/-- The parameters of the unit. The unroll factor divides the word, so that `mulw` is the width of
the word. The signals are functions of the operation that follow the table where it cares. -/
structure Params where
  mulUnroll : ℕ
  earlyOut : Bool
  cmdMul : AluFn → Bool
  cmdHi : AluFn → Bool
  lhsSigned : AluFn → Bool
  rhsSigned : AluFn → Bool
  unroll_pos : 0 < mulUnroll
  unroll_lt : mulUnroll < 64
  unroll_dvd : mulUnroll ∣ 64
  cmdMul_fn : ∀ op : MulOp, cmdMul op.fn = (cmdRow op).cmdMul
  cmdHi_fn : ∀ op : MulOp, cmdHi op.fn = (cmdRow op).cmdHi
  lhsSigned_fn : ∀ op : MulOp, ∀ b ∈ (cmdRow op).lhsSigned, lhsSigned op.fn = b
  rhsSigned_fn : ∀ op : MulOp, ∀ b ∈ (cmdRow op).rhsSigned, rhsSigned op.fn = b

/-- The parameters the core chooses, with the don't cares taken as unsigned. -/
def Params.core (fastMulDiv : Bool) : Params where
  mulUnroll := if fastMulDiv then 8 else 1
  earlyOut := fastMulDiv
  cmdMul fn := decide (fn ∈ [FN_MUL, FN_MULH, FN_MULHU, FN_MULHSU])
  cmdHi fn := decide (fn ∈ [FN_REM, FN_REMU, FN_MULH, FN_MULHU, FN_MULHSU])
  lhsSigned fn := decide (fn ∈ [FN_DIV, FN_REM, FN_MULH, FN_MULHSU])
  rhsSigned fn := decide (fn ∈ [FN_DIV, FN_REM, FN_MULH])
  unroll_pos := by cases fastMulDiv <;> decide
  unroll_lt := by cases fastMulDiv <;> decide
  unroll_dvd := by cases fastMulDiv <;> decide
  cmdMul_fn op := by cases op <;> rfl
  cmdHi_fn op := by cases op <;> rfl
  lhsSigned_fn op := by cases op <;> decide
  rhsSigned_fn op := by cases op <;> decide

/-- A request; `dw` says that the operands are double words. -/
structure MultiplierReq where
  fn : AluFn
  dw : Bool
  in1 : BitVec 64
  in2 : BitVec 64
  tag : BitVec 5
  deriving DecidableEq, Repr

/-- The states of the unit. -/
inductive State where
  | ready
  | negInputs
  | busy
  | moveRem
  | negOutput
  | done
  deriving DecidableEq, Repr

/-- Its registers. -/
structure Regs where
  state : State
  req : MultiplierReq
  count : BitVec 7
  negOut : Bool
  isMul : Bool
  isHi : Bool
  divisor : BitVec 65
  remainder : BitVec 130
  deriving DecidableEq, Repr

/-- The registers out of reset; only the state is initialised. -/
def Regs.init : Regs where
  state := .ready
  req := ⟨0, false, 0, 0, 0⟩
  count := 0
  negOut := false
  isMul := false
  isHi := false
  divisor := 0
  remainder := 0

/-- The inputs of a cycle: the request offered, whether the operation is killed, and whether a
response is taken. -/
structure In where
  req : Option MultiplierReq
  kill : Bool
  respReady : Bool

/-! ### Accepting a request -/

/-- The sign of an operand. -/
def sign (dw signed : Bool) (x : BitVec 64) : Bool :=
  signed && if dw then x.getLsbD 63 else x.getLsbD 31

/-- An operand extended to a double word. -/
def sext (dw signed : Bool) (x : BitVec 64) : BitVec 64 :=
  let hi := if dw then x.extractLsb' 32 32 else BitVec.fill 32 (sign dw signed x)
  hi ++ x.extractLsb' 0 32

section Accept

variable (p : Params) (r : MultiplierReq)

/-- The left operand. -/
def lhsIn : BitVec 64 := sext r.dw (p.lhsSigned r.fn) r.in1

/-- It is negative. -/
def lhsSign : Bool := sign r.dw (p.lhsSigned r.fn) r.in1

/-- The right operand. -/
def rhsIn : BitVec 64 := sext r.dw (p.rhsSigned r.fn) r.in2

/-- It is negative. -/
def rhsSign : Bool := sign r.dw (p.rhsSigned r.fn) r.in2

/-- The registers after a request has been accepted. -/
def accept : Regs where
  state := if lhsSign p r || rhsSign p r && !p.cmdMul r.fn then .negInputs else .busy
  req := r
  count := 0
  negOut := !p.cmdMul r.fn &&
    if p.cmdHi r.fn then lhsSign p r else lhsSign p r != rhsSign p r
  isMul := p.cmdMul r.fn
  isHi := p.cmdHi r.fn
  divisor := BitVec.ofBool (rhsSign p r) ++ rhsIn p r
  remainder := (lhsIn p r).setWidth 130

end Accept

/-! ### Working -/

section Work

variable (p : Params) (s : Regs)

/-- The top of the register less the divisor. -/
def subtractor : BitVec 65 := s.remainder.extractLsb' 64 65 - s.divisor

/-- The divisor does not fit. -/
def less : Bool := (subtractor s).getLsbD 64

/-- The low half, negated. -/
def negatedRemainder : BitVec 64 := -s.remainder.extractLsb' 0 64

/-- The register of a multiplication is the whole register without bit 64. -/
def mulReg : BitVec 129 := s.remainder.extractLsb' 65 65 ++ s.remainder.extractLsb' 0 64

/-- What is left of the multiplier. -/
def mplier : BitVec 64 := (mulReg s).extractLsb' 0 64

/-- The product so far. -/
def accum : BitVec 65 := (mulReg s).extractLsb' 64 65

/-- The product of the next bits of the multiplier, added to what there is. -/
def prod : BitVec (p.mulUnroll + 65) :=
  ((mplier s).extractLsb' 0 p.mulUnroll).setWidth (p.mulUnroll + 65) *
      s.divisor.signExtend (p.mulUnroll + 65) +
    (accum s).signExtend (p.mulUnroll + 65)

theorem Params.prod_width (p : Params) : p.mulUnroll + 65 + (64 - p.mulUnroll) = 129 := by
  have := p.unroll_lt
  omega

/-- The register after a step. -/
def nextMulReg : BitVec 129 :=
  (prod p s ++ (mplier s).extractLsb' p.mulUnroll (64 - p.mulUnroll)).cast p.prod_width

/-- The number of bits consumed, `(count * mulUnroll)(5,0)`. -/
def consumed : BitVec 6 := BitVec.ofNat 6 (s.count.toNat * p.mulUnroll)

/-- The bits of the multiplier that have been consumed. -/
def eOutMask : BitVec 64 :=
  ((BitVec.ofInt 65 (-2 ^ 64)).sshiftRight (consumed p s).toNat).extractLsb' 0 64

/-- The last step of a multiplication, `mulw / mulUnroll - 1`. -/
def lastMul : BitVec 7 := BitVec.ofNat 7 (64 / p.mulUnroll - 1)

/-- The rest of the multiplier is zero. -/
def mulEOut : Bool :=
  p.earlyOut && s.count != lastMul p && s.count != 0 && !s.isHi &&
    (mplier s &&& ~~~ eOutMask p s) == 0

/-- The product, moved down past the bits that were not looked at. -/
def eOutRes : BitVec 129 := mulReg s >>> (BitVec.ofNat 6 64 - consumed p s).toNat

/-- The register, with the product moved down at an early end. -/
def nextMulReg1 : BitVec 129 :=
  (nextMulReg p s).extractLsb' 64 65 ++
    (if mulEOut p s then eOutRes p s else nextMulReg p s).extractLsb' 0 64

/-- A cycle of a multiplication. -/
def mulCycle : Regs :=
  let m := nextMulReg1 p s
  { s with
    remainder := m.extractLsb' 64 65 ++ 0#1 ++ m.extractLsb' 0 64
    count := s.count + 1
    state :=
      if mulEOut p s || s.count == lastMul p then if s.isHi then .moveRem else .done
      else s.state }

/-- The top bit of the divisor. -/
def divisorMSB : BitVec 6 := BitVec.ofNat 6 (s.divisor.extractLsb' 0 64).toNat.log2

/-- The top bit of the dividend. -/
def dividendMSB : BitVec 6 := BitVec.ofNat 6 (s.remainder.extractLsb' 0 64).toNat.log2

/-- The steps that give no bit. -/
def eOutPos : BitVec 6 := 63 + divisorMSB s - dividendMSB s

/-- The quotient is zero. -/
def eOutZero : Bool := dividendMSB s < divisorMSB s

/-- Steps are skipped. -/
def divEOut : Bool :=
  p.earlyOut && s.count == 0 && less s && (0 < eOutPos s || eOutZero s)

/-- The number of steps that are skipped. -/
def shift : BitVec 6 := if eOutZero s then 63 else eOutPos s

/-- A cycle of a division. -/
def divCycle : Regs :=
  { s with
    remainder :=
      if divEOut p s then (s.remainder.extractLsb' 0 64).setWidth 130 <<< (shift s).toNat
      else
        ((if less s then s.remainder.extractLsb' 64 64 else (subtractor s).extractLsb' 0 64) ++
          s.remainder.extractLsb' 0 64 ++ BitVec.ofBool (!less s)).setWidth 130
    count := if divEOut p s then (shift s).setWidth 7 else s.count + 1
    -- a division by zero has no negative quotient
    negOut := if s.count == 0 && !less s && !s.isHi then false else s.negOut
    state :=
      if s.count == 64 then
        if s.isHi then .moveRem else if s.negOut then .negOutput else .done
      else s.state }

/-- The operands are made positive; those of a multiplication are negated together. -/
def negateInputs : Regs :=
  { s with
    remainder :=
      if s.remainder.getLsbD 63 || s.isMul then (negatedRemainder s).setWidth 130
      else s.remainder
    divisor := if s.divisor.getLsbD 63 || s.isMul then subtractor s else s.divisor
    state := .busy }

/-- The result is negated. -/
def negateOutput : Regs :=
  { s with remainder := (negatedRemainder s).setWidth 130, state := .done }

/-- The upper half is the result. -/
def moveRemainder : Regs :=
  { s with
    remainder := (s.remainder.extractLsb' 65 64).setWidth 130
    state := if s.negOut then .negOutput else .done }

/-- What the unit does on its own in a cycle. -/
def advance : Regs :=
  match s.state with
  | .negInputs => negateInputs s
  | .negOutput => negateOutput s
  | .moveRem => moveRemainder s
  | .busy => if s.isMul then mulCycle p s else divCycle p s
  | .ready | .done => s

end Work

/-! ### The outputs and the cycle -/

section Cycle

variable (p : Params) (s : Regs) (i : In)

/-- A request may be taken. -/
def reqReady : Bool := s.state == .ready

/-- A result is offered. -/
def respValid : Bool := s.state == .done

/-- The result, with the sign extended if it is that of a word. -/
def respData : BitVec 64 :=
  if s.req.dw then s.remainder.extractLsb' 0 64
  else BitVec.fill 32 (s.remainder.getLsbD 31) ++ s.remainder.extractLsb' 0 32

/-- Its destination. -/
def respTag : BitVec 5 := s.req.tag

/-- A clock cycle. A request is accepted even in the cycle of a kill. -/
def next : Regs :=
  match i.req, reqReady s with
  | some r, true => accept p r
  | _, _ =>
    let t := advance p s
    if respValid s && i.respReady || i.kill then { t with state := .ready } else t

end Cycle

/-- The unit, while it is not killed. -/
def machine (p : Params) : Sync.Machine Regs In where
  ok _ i := i.kill = false
  next := next p

end MulDiv

end TaggedRiscv.Core
