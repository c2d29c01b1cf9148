import Mathlib.Data.List.Pairwise
import TaggedRiscv.Uncore.MemoryOp

/-!
# Decoding

The decode tables of the core. A row gives the control signals of the instructions that
match its pattern; a signal it does not give may have any value. The decode logic is
any function that agrees with the tables, as the logic that the generator minimises is.
-/

namespace TaggedRiscv.Causes

/-- The target of a jump is not aligned. -/
def misalignedFetch : BitVec 64 := 0x0
/-- An instruction may not be fetched from its page. -/
def faultFetch : BitVec 64 := 0x1
/-- No instruction of the core, or one that is not allowed. -/
def illegalInstruction : BitVec 64 := 0x2
/-- `SBREAK`. -/
def breakpoint : BitVec 64 := 0x3
/-- A load is not aligned. -/
def misalignedLoad : BitVec 64 := 0x4
/-- A load from a page that may not be read. -/
def faultLoad : BitVec 64 := 0x5
/-- A store is not aligned. -/
def misalignedStore : BitVec 64 := 0x6
/-- A store to a page that may not be written. -/
def faultStore : BitVec 64 := 0x7
/-- `SCALL` in user mode; the codes for the other levels follow. -/
def userEcall : BitVec 64 := 0x8
/-- A tag check failed. -/
def tagTrap : BitVec 64 := 0xc
/-- The debug check of tags found a tagged operand. -/
def debugTagTrap : BitVec 64 := 0xd

end TaggedRiscv.Causes

namespace TaggedRiscv.Core

/-- A pattern: the bits of `mask` are known and have their value in `value`. -/
structure BitPat where
  value : BitVec 32
  mask : BitVec 32
  deriving DecidableEq, Repr

variable {inst : BitVec 32}

namespace BitPat

/-- The instruction has the known bits of the pattern. -/
def Matches (p : BitPat) (inst : BitVec 32) : Prop := inst &&& p.mask = p.value &&& p.mask
deriving Decidable

/-- A bit known in both patterns tells them apart. -/
def Disjoint (p q : BitPat) : Prop :=
  p.value &&& (p.mask &&& q.mask) ≠ q.value &&& (p.mask &&& q.mask)
deriving Decidable

theorem Disjoint.symm {p q : BitPat} (h : p.Disjoint q) : q.Disjoint p := by
  unfold Disjoint at h ⊢
  rw [BitVec.and_comm q.mask]
  exact h.symm

theorem Disjoint.not_matches {p q : BitPat} (h : p.Disjoint q)
    (hp : p.Matches inst) : ¬ q.Matches inst := by
  intro hq
  apply h
  calc p.value &&& (p.mask &&& q.mask)
      = inst &&& (p.mask &&& q.mask) := by rw [← BitVec.and_assoc, ← BitVec.and_assoc, hp]
    _ = q.value &&& (p.mask &&& q.mask) := by
        rw [BitVec.and_comm p.mask, ← BitVec.and_assoc, ← BitVec.and_assoc, hq]

end BitPat

/-! ## Codes -/

/-- The operation of the ALU or of the multiplier (`FN_ADD`, ...). -/
abbrev AluFn := BitVec 4

def FN_ADD : AluFn := 0
def FN_SL : AluFn := 1
def FN_XOR : AluFn := 4
def FN_SR : AluFn := 5
def FN_OR : AluFn := 6
def FN_AND : AluFn := 7
def FN_SEQ : AluFn := 8
def FN_SNE : AluFn := 9
def FN_SUB : AluFn := 10
def FN_SRA : AluFn := 11
def FN_SLT : AluFn := 12
def FN_SGE : AluFn := 13
def FN_SLTU : AluFn := 14
def FN_SGEU : AluFn := 15

def FN_DIV : AluFn := FN_XOR
def FN_DIVU : AluFn := FN_SR
def FN_REM : AluFn := FN_OR
def FN_REMU : AluFn := FN_AND
def FN_MUL : AluFn := FN_ADD
def FN_MULH : AluFn := FN_SL
def FN_MULHSU : AluFn := FN_SLT
def FN_MULHU : AluFn := FN_SLTU

/-! The first operand of the ALU; the code 3 selects zero as well. -/

def A1_ZERO : BitVec 2 := 0
def A1_RS1 : BitVec 2 := 1
def A1_PC : BitVec 2 := 2

/-! The second operand of the ALU. -/

def A2_ZERO : BitVec 2 := 0
def A2_FOUR : BitVec 2 := 1
def A2_RS2 : BitVec 2 := 2
def A2_IMM : BitVec 2 := 3

/-! The format of the immediate. -/

def IMM_S : BitVec 3 := 0
def IMM_SB : BitVec 3 := 1
def IMM_U : BitVec 3 := 2
def IMM_UJ : BitVec 3 := 3
def IMM_I : BitVec 3 := 4
def IMM_Z : BitVec 3 := 5

/-! The access to the control and status registers. -/

def CSR_N : BitVec 3 := 0
def CSR_W : BitVec 3 := 1
def CSR_S : BitVec 3 := 2
def CSR_C : BitVec 3 := 3
def CSR_I : BitVec 3 := 4
def CSR_R : BitVec 3 := 5

/-! ## Control signals -/

/-- The control signals of an instruction. `aluDw` tells 64-bit from 32-bit operations. -/
structure IntCtrlSigs where
  legal : Bool
  fp : Bool
  branch : Bool
  jal : Bool
  jalr : Bool
  rxs2 : Bool
  rxs1 : Bool
  selAlu2 : BitVec 2
  selAlu1 : BitVec 2
  selImm : BitVec 3
  aluDw : Bool
  aluFn : AluFn
  mem : Bool
  memCmd : MemCmd
  memType : MemTyp
  rfs1 : Bool
  rfs2 : Bool
  rfs3 : Bool
  wfd : Bool
  div : Bool
  wxd : Bool
  csr : BitVec 3
  fenceI : Bool
  fence : Bool
  amo : Bool
  deriving DecidableEq, Repr

/-- A row of control signals of a legal instruction; `none` is a signal the row does not
give. -/
structure CtrlRow where
  fp : Bool := false
  branch : Bool := false
  jal : Bool := false
  jalr : Bool := false
  rxs2 : Bool := false
  rxs1 : Option Bool := some false
  selAlu2 : Option (BitVec 2) := none
  selAlu1 : Option (BitVec 2) := none
  selImm : Option (BitVec 3) := none
  aluDw : Option Bool := none
  aluFn : Option AluFn := none
  mem : Bool := false
  memCmd : Option MemCmd := none
  memType : Option MemTyp := none
  rfs1 : Bool := false
  rfs2 : Bool := false
  rfs3 : Bool := false
  wfd : Bool := false
  div : Bool := false
  wxd : Bool := false
  csr : BitVec 3 := CSR_N
  fenceI : Bool := false
  fence : Bool := false
  amo : Bool := false
  deriving DecidableEq, Repr

namespace CtrlRow

/-- The signals with zero for those the row does not give. -/
def fill (r : CtrlRow) : IntCtrlSigs where
  legal := true
  fp := r.fp
  branch := r.branch
  jal := r.jal
  jalr := r.jalr
  rxs2 := r.rxs2
  rxs1 := r.rxs1.getD false
  selAlu2 := r.selAlu2.getD 0
  selAlu1 := r.selAlu1.getD 0
  selImm := r.selImm.getD 0
  aluDw := r.aluDw.getD false
  aluFn := r.aluFn.getD 0
  mem := r.mem
  memCmd := r.memCmd.getD .XRD
  memType := r.memType.getD .B
  rfs1 := r.rfs1
  rfs2 := r.rfs2
  rfs3 := r.rfs3
  wfd := r.wfd
  div := r.div
  wxd := r.wxd
  csr := r.csr
  fenceI := r.fenceI
  fence := r.fence
  amo := r.amo

/-- The signals have the values that the row gives. -/
structure Agrees (r : CtrlRow) (c : IntCtrlSigs) : Prop where
  legal : c.legal
  fp : c.fp = r.fp
  branch : c.branch = r.branch
  jal : c.jal = r.jal
  jalr : c.jalr = r.jalr
  rxs2 : c.rxs2 = r.rxs2
  rxs1 : ∀ v, r.rxs1 = some v → c.rxs1 = v
  selAlu2 : ∀ v, r.selAlu2 = some v → c.selAlu2 = v
  selAlu1 : ∀ v, r.selAlu1 = some v → c.selAlu1 = v
  selImm : ∀ v, r.selImm = some v → c.selImm = v
  aluDw : ∀ v, r.aluDw = some v → c.aluDw = v
  aluFn : ∀ v, r.aluFn = some v → c.aluFn = v
  mem : c.mem = r.mem
  memCmd : ∀ v, r.memCmd = some v → c.memCmd = v
  memType : ∀ v, r.memType = some v → c.memType = v
  rfs1 : c.rfs1 = r.rfs1
  rfs2 : c.rfs2 = r.rfs2
  rfs3 : c.rfs3 = r.rfs3
  wfd : c.wfd = r.wfd
  div : c.div = r.div
  wxd : c.wxd = r.wxd
  csr : c.csr = r.csr
  fenceI : c.fenceI = r.fenceI
  fence : c.fence = r.fence
  amo : c.amo = r.amo

theorem agrees_fill (r : CtrlRow) : r.Agrees r.fill := by
  constructor <;> first | rfl | (intro v hv; simp only [fill, hv, Option.getD_some])

end CtrlRow

/-! The kinds of rows. -/

/-- A branch on `fn`. -/
def branchRow (fn : AluFn) : CtrlRow :=
  { branch := true, rxs2 := true, rxs1 := true, selAlu2 := A2_RS2, selAlu1 := A1_RS1,
    selImm := IMM_SB, aluFn := fn }

/-- `jal`. -/
def jalRow : CtrlRow :=
  { jal := true, selAlu2 := A2_FOUR, selAlu1 := A1_PC, selImm := IMM_UJ, aluFn := FN_ADD,
    wxd := true }

/-- `jalr`. -/
def jalrRow : CtrlRow :=
  { jalr := true, rxs1 := true, selAlu2 := A2_IMM, selAlu1 := A1_RS1, selImm := IMM_I,
    aluDw := true, aluFn := FN_ADD, wxd := true }

/-- An upper immediate added to the program counter or to zero. -/
def upperRow (sel : BitVec 2) : CtrlRow :=
  { selAlu2 := A2_IMM, selAlu1 := sel, selImm := IMM_U, aluDw := true, aluFn := FN_ADD,
    wxd := true }

/-- A load. -/
def loadRow (typ : MemTyp) : CtrlRow :=
  { rxs1 := true, selAlu2 := A2_IMM, selAlu1 := A1_RS1, selImm := IMM_I, aluDw := true,
    aluFn := FN_ADD, mem := true, memCmd := some .XRD, memType := typ, wxd := true }

/-- A store. -/
def storeRow (typ : MemTyp) : CtrlRow :=
  { rxs2 := true, rxs1 := true, selAlu2 := A2_IMM, selAlu1 := A1_RS1, selImm := IMM_S,
    aluDw := true, aluFn := FN_ADD, mem := true, memCmd := some .XWR, memType := typ }

/-- An atomic operation. -/
def amoRow (cmd : MemCmd) (typ : MemTyp) : CtrlRow :=
  { rxs2 := true, rxs1 := true, selAlu2 := A2_ZERO, selAlu1 := A1_RS1, aluDw := true,
    aluFn := FN_ADD, mem := true, memCmd := cmd, memType := typ, wxd := true, amo := true }

/-- Arithmetic with an immediate. -/
def aluImmRow (dw : Bool) (fn : AluFn) : CtrlRow :=
  { rxs1 := true, selAlu2 := A2_IMM, selAlu1 := A1_RS1, selImm := IMM_I, aluDw := dw, aluFn := fn,
    wxd := true }

/-- Arithmetic with two registers. -/
def aluRow (dw : Bool) (fn : AluFn) : CtrlRow :=
  { rxs2 := true, rxs1 := true, selAlu2 := A2_RS2, selAlu1 := A1_RS1, aluDw := dw, aluFn := fn,
    wxd := true }

/-- Multiplication and division: as arithmetic, with the unit of its own. -/
def mulDivRow (dw : Bool) (fn : AluFn) : CtrlRow := { aluRow dw fn with div := true }

/-- A system instruction. -/
def systemRow : CtrlRow := { rxs1 := none, csr := CSR_I }

/-- An access of a CSR. -/
def csrRow (cmd : BitVec 3) : CtrlRow :=
  { rxs1 := true, selAlu2 := A2_ZERO, selAlu1 := A1_RS1, aluDw := true, aluFn := FN_ADD,
    wxd := true, csr := cmd }

/-- The same with an immediate. -/
def csrImmRow (cmd : BitVec 3) : CtrlRow :=
  { selAlu2 := A2_IMM, selAlu1 := A1_ZERO, selImm := IMM_Z, aluDw := true, aluFn := FN_ADD,
    wxd := true, csr := cmd }

/-- Floating-point operations with one, two or three operands. -/
def fpRow (rfs2 rfs3 : Bool) : CtrlRow :=
  { fp := true, rfs1 := true, rfs2 := rfs2, rfs3 := rfs3, wfd := true }

/-- A result for an integer register. -/
def fpToIntRow (rfs2 : Bool) : CtrlRow := { fp := true, rfs1 := true, rfs2 := rfs2, wxd := true }

/-- A result from an integer register. -/
def fpFromIntRow : CtrlRow :=
  { fp := true, rxs1 := true, selAlu1 := A1_RS1, wfd := true }

/-- A floating-point load. -/
def fpLoadRow (typ : MemTyp) : CtrlRow :=
  { loadRow typ with fp := true, wxd := false, wfd := true }

/-- A floating-point store. -/
def fpStoreRow (typ : MemTyp) : CtrlRow :=
  { storeRow typ with fp := true, rxs2 := false, rfs2 := true }

/-! ## The tables -/

/-- The instructions of the tables. -/
inductive Insn
  | BNE | BEQ | BLT | BLTU | BGE | BGEU | JAL | JALR | AUIPC | LB | LH | LW | LD | LBU | LHU
  | LWU | SB | SH | SW | SD | AMOADD_W | AMOXOR_W | AMOSWAP_W | AMOAND_W | AMOOR_W | AMOMIN_W
  | AMOMINU_W | AMOMAX_W | AMOMAXU_W | AMOADD_D | AMOSWAP_D | AMOXOR_D | AMOAND_D | AMOOR_D
  | AMOMIN_D | AMOMINU_D | AMOMAX_D | AMOMAXU_D | LR_W | LR_D | SC_W | SC_D | LUI | ADDI | SLTI
  | SLTIU | ANDI | ORI | XORI | SLLI | SRLI | SRAI | ADD | SUB | SLT | SLTU | AND | OR | XOR
  | SLL | SRL | SRA | ADDIW | SLLIW | SRLIW | SRAIW | ADDW | SUBW | SLLW | SRLW | SRAW | MUL
  | MULH | MULHU | MULHSU | MULW | DIV | DIVU | REM | REMU | DIVW | DIVUW | REMW | REMUW | FENCE
  | FENCE_I | SFENCE_VM | SCALL | SBREAK | SRET | MRTS | WFI | CSRRW | CSRRS | CSRRC | CSRRWI
  | CSRRSI | CSRRCI | FCVT_S_D | FCVT_D_S | FSGNJ_S | FSGNJ_D | FSGNJX_S | FSGNJX_D | FSGNJN_S
  | FSGNJN_D | FMIN_S | FMIN_D | FMAX_S | FMAX_D | FADD_S | FADD_D | FSUB_S | FSUB_D | FMUL_S
  | FMUL_D | FMADD_S | FMADD_D | FMSUB_S | FMSUB_D | FNMADD_S | FNMADD_D | FNMSUB_S | FNMSUB_D
  | FCLASS_S | FCLASS_D | FMV_X_S | FMV_X_D | FCVT_W_S | FCVT_W_D | FCVT_WU_S | FCVT_WU_D
  | FCVT_L_S | FCVT_L_D | FCVT_LU_S | FCVT_LU_D | FEQ_S | FEQ_D | FLT_S | FLT_D | FLE_S | FLE_D
  | FMV_S_X | FMV_D_X | FCVT_S_W | FCVT_D_W | FCVT_S_WU | FCVT_D_WU | FCVT_S_L | FCVT_D_L
  | FCVT_S_LU | FCVT_D_LU | FLW | FLD | FSW | FSD | FDIV_S | FDIV_D | FSQRT_S | FSQRT_D | LTAG
  | STAG
  deriving DecidableEq, Repr

/-- A row of a table. -/
structure DecodeRow where
  insn : Insn
  pattern : BitPat
  ctrl : CtrlRow
  deriving DecidableEq, Repr

/-- The base instructions (`XDecode`). -/
def xDecode : List DecodeRow :=
  [⟨.BNE, ⟨0x00001063, 0x0000707F⟩, branchRow FN_SNE⟩,
    ⟨.BEQ, ⟨0x00000063, 0x0000707F⟩, branchRow FN_SEQ⟩,
    ⟨.BLT, ⟨0x00004063, 0x0000707F⟩, branchRow FN_SLT⟩,
    ⟨.BLTU, ⟨0x00006063, 0x0000707F⟩, branchRow FN_SLTU⟩,
    ⟨.BGE, ⟨0x00005063, 0x0000707F⟩, branchRow FN_SGE⟩,
    ⟨.BGEU, ⟨0x00007063, 0x0000707F⟩, branchRow FN_SGEU⟩,
    ⟨.JAL, ⟨0x0000006F, 0x0000007F⟩, jalRow⟩,
    ⟨.JALR, ⟨0x00000067, 0x0000707F⟩, jalrRow⟩,
    ⟨.AUIPC, ⟨0x00000017, 0x0000007F⟩, upperRow A1_PC⟩,
    ⟨.LB, ⟨0x00000003, 0x0000707F⟩, loadRow .B⟩,
    ⟨.LH, ⟨0x00001003, 0x0000707F⟩, loadRow .H⟩,
    ⟨.LW, ⟨0x00002003, 0x0000707F⟩, loadRow .W⟩,
    ⟨.LD, ⟨0x00003003, 0x0000707F⟩, loadRow .D⟩,
    ⟨.LBU, ⟨0x00004003, 0x0000707F⟩, loadRow .BU⟩,
    ⟨.LHU, ⟨0x00005003, 0x0000707F⟩, loadRow .HU⟩,
    ⟨.LWU, ⟨0x00006003, 0x0000707F⟩, loadRow .WU⟩,
    ⟨.SB, ⟨0x00000023, 0x0000707F⟩, storeRow .B⟩,
    ⟨.SH, ⟨0x00001023, 0x0000707F⟩, storeRow .H⟩,
    ⟨.SW, ⟨0x00002023, 0x0000707F⟩, storeRow .W⟩,
    ⟨.SD, ⟨0x00003023, 0x0000707F⟩, storeRow .D⟩,
    ⟨.AMOADD_W, ⟨0x0000202F, 0xF800707F⟩, amoRow .XA_ADD .W⟩,
    ⟨.AMOXOR_W, ⟨0x2000202F, 0xF800707F⟩, amoRow .XA_XOR .W⟩,
    ⟨.AMOSWAP_W, ⟨0x0800202F, 0xF800707F⟩, amoRow .XA_SWAP .W⟩,
    ⟨.AMOAND_W, ⟨0x6000202F, 0xF800707F⟩, amoRow .XA_AND .W⟩,
    ⟨.AMOOR_W, ⟨0x4000202F, 0xF800707F⟩, amoRow .XA_OR .W⟩,
    ⟨.AMOMIN_W, ⟨0x8000202F, 0xF800707F⟩, amoRow .XA_MIN .W⟩,
    ⟨.AMOMINU_W, ⟨0xC000202F, 0xF800707F⟩, amoRow .XA_MINU .W⟩,
    ⟨.AMOMAX_W, ⟨0xA000202F, 0xF800707F⟩, amoRow .XA_MAX .W⟩,
    ⟨.AMOMAXU_W, ⟨0xE000202F, 0xF800707F⟩, amoRow .XA_MAXU .W⟩,
    ⟨.AMOADD_D, ⟨0x0000302F, 0xF800707F⟩, amoRow .XA_ADD .D⟩,
    ⟨.AMOSWAP_D, ⟨0x0800302F, 0xF800707F⟩, amoRow .XA_SWAP .D⟩,
    ⟨.AMOXOR_D, ⟨0x2000302F, 0xF800707F⟩, amoRow .XA_XOR .D⟩,
    ⟨.AMOAND_D, ⟨0x6000302F, 0xF800707F⟩, amoRow .XA_AND .D⟩,
    ⟨.AMOOR_D, ⟨0x4000302F, 0xF800707F⟩, amoRow .XA_OR .D⟩,
    ⟨.AMOMIN_D, ⟨0x8000302F, 0xF800707F⟩, amoRow .XA_MIN .D⟩,
    ⟨.AMOMINU_D, ⟨0xC000302F, 0xF800707F⟩, amoRow .XA_MINU .D⟩,
    ⟨.AMOMAX_D, ⟨0xA000302F, 0xF800707F⟩, amoRow .XA_MAX .D⟩,
    ⟨.AMOMAXU_D, ⟨0xE000302F, 0xF800707F⟩, amoRow .XA_MAXU .D⟩,
    ⟨.LR_W, ⟨0x1000202F, 0xF9F0707F⟩, amoRow .XLR .W⟩,
    ⟨.LR_D, ⟨0x1000302F, 0xF9F0707F⟩, amoRow .XLR .D⟩,
    ⟨.SC_W, ⟨0x1800202F, 0xF800707F⟩, amoRow .XSC .W⟩,
    ⟨.SC_D, ⟨0x1800302F, 0xF800707F⟩, amoRow .XSC .D⟩,
    ⟨.LUI, ⟨0x00000037, 0x0000007F⟩, upperRow A1_ZERO⟩,
    ⟨.ADDI, ⟨0x00000013, 0x0000707F⟩, aluImmRow true FN_ADD⟩,
    ⟨.SLTI, ⟨0x00002013, 0x0000707F⟩, aluImmRow true FN_SLT⟩,
    ⟨.SLTIU, ⟨0x00003013, 0x0000707F⟩, aluImmRow true FN_SLTU⟩,
    ⟨.ANDI, ⟨0x00007013, 0x0000707F⟩, aluImmRow true FN_AND⟩,
    ⟨.ORI, ⟨0x00006013, 0x0000707F⟩, aluImmRow true FN_OR⟩,
    ⟨.XORI, ⟨0x00004013, 0x0000707F⟩, aluImmRow true FN_XOR⟩,
    ⟨.SLLI, ⟨0x00001013, 0xFC00707F⟩, aluImmRow true FN_SL⟩,
    ⟨.SRLI, ⟨0x00005013, 0xFC00707F⟩, aluImmRow true FN_SR⟩,
    ⟨.SRAI, ⟨0x40005013, 0xFC00707F⟩, aluImmRow true FN_SRA⟩,
    ⟨.ADD, ⟨0x00000033, 0xFE00707F⟩, aluRow true FN_ADD⟩,
    ⟨.SUB, ⟨0x40000033, 0xFE00707F⟩, aluRow true FN_SUB⟩,
    ⟨.SLT, ⟨0x00002033, 0xFE00707F⟩, aluRow true FN_SLT⟩,
    ⟨.SLTU, ⟨0x00003033, 0xFE00707F⟩, aluRow true FN_SLTU⟩,
    ⟨.AND, ⟨0x00007033, 0xFE00707F⟩, aluRow true FN_AND⟩,
    ⟨.OR, ⟨0x00006033, 0xFE00707F⟩, aluRow true FN_OR⟩,
    ⟨.XOR, ⟨0x00004033, 0xFE00707F⟩, aluRow true FN_XOR⟩,
    ⟨.SLL, ⟨0x00001033, 0xFE00707F⟩, aluRow true FN_SL⟩,
    ⟨.SRL, ⟨0x00005033, 0xFE00707F⟩, aluRow true FN_SR⟩,
    ⟨.SRA, ⟨0x40005033, 0xFE00707F⟩, aluRow true FN_SRA⟩,
    ⟨.ADDIW, ⟨0x0000001B, 0x0000707F⟩, aluImmRow false FN_ADD⟩,
    ⟨.SLLIW, ⟨0x0000101B, 0xFE00707F⟩, aluImmRow false FN_SL⟩,
    ⟨.SRLIW, ⟨0x0000501B, 0xFE00707F⟩, aluImmRow false FN_SR⟩,
    ⟨.SRAIW, ⟨0x4000501B, 0xFE00707F⟩, aluImmRow false FN_SRA⟩,
    ⟨.ADDW, ⟨0x0000003B, 0xFE00707F⟩, aluRow false FN_ADD⟩,
    ⟨.SUBW, ⟨0x4000003B, 0xFE00707F⟩, aluRow false FN_SUB⟩,
    ⟨.SLLW, ⟨0x0000103B, 0xFE00707F⟩, aluRow false FN_SL⟩,
    ⟨.SRLW, ⟨0x0000503B, 0xFE00707F⟩, aluRow false FN_SR⟩,
    ⟨.SRAW, ⟨0x4000503B, 0xFE00707F⟩, aluRow false FN_SRA⟩,
    ⟨.MUL, ⟨0x02000033, 0xFE00707F⟩, mulDivRow true FN_MUL⟩,
    ⟨.MULH, ⟨0x02001033, 0xFE00707F⟩, mulDivRow true FN_MULH⟩,
    ⟨.MULHU, ⟨0x02003033, 0xFE00707F⟩, mulDivRow true FN_MULHU⟩,
    ⟨.MULHSU, ⟨0x02002033, 0xFE00707F⟩, mulDivRow true FN_MULHSU⟩,
    ⟨.MULW, ⟨0x0200003B, 0xFE00707F⟩, mulDivRow false FN_MUL⟩,
    ⟨.DIV, ⟨0x02004033, 0xFE00707F⟩, mulDivRow true FN_DIV⟩,
    ⟨.DIVU, ⟨0x02005033, 0xFE00707F⟩, mulDivRow true FN_DIVU⟩,
    ⟨.REM, ⟨0x02006033, 0xFE00707F⟩, mulDivRow true FN_REM⟩,
    ⟨.REMU, ⟨0x02007033, 0xFE00707F⟩, mulDivRow true FN_REMU⟩,
    ⟨.DIVW, ⟨0x0200403B, 0xFE00707F⟩, mulDivRow false FN_DIV⟩,
    ⟨.DIVUW, ⟨0x0200503B, 0xFE00707F⟩, mulDivRow false FN_DIVU⟩,
    ⟨.REMW, ⟨0x0200603B, 0xFE00707F⟩, mulDivRow false FN_REM⟩,
    ⟨.REMUW, ⟨0x0200703B, 0xFE00707F⟩, mulDivRow false FN_REMU⟩,
    ⟨.FENCE, ⟨0x0000000F, 0x0000707F⟩, { fence := true }⟩,
    ⟨.FENCE_I, ⟨0x0000100F, 0x0000707F⟩, { fenceI := true }⟩,
    ⟨.SFENCE_VM, ⟨0x10100073, 0xFFF07FFF⟩, systemRow⟩,
    ⟨.SCALL, ⟨0x00000073, 0xFFFFFFFF⟩, systemRow⟩,
    ⟨.SBREAK, ⟨0x00100073, 0xFFFFFFFF⟩, systemRow⟩,
    ⟨.SRET, ⟨0x10000073, 0xFFFFFFFF⟩, systemRow⟩,
    ⟨.MRTS, ⟨0x30500073, 0xFFFFFFFF⟩, systemRow⟩,
    ⟨.WFI, ⟨0x10200073, 0xFFFFFFFF⟩, systemRow⟩,
    ⟨.CSRRW, ⟨0x00001073, 0x0000707F⟩, csrRow CSR_W⟩,
    ⟨.CSRRS, ⟨0x00002073, 0x0000707F⟩, csrRow CSR_S⟩,
    ⟨.CSRRC, ⟨0x00003073, 0x0000707F⟩, csrRow CSR_C⟩,
    ⟨.CSRRWI, ⟨0x00005073, 0x0000707F⟩, csrImmRow CSR_W⟩,
    ⟨.CSRRSI, ⟨0x00006073, 0x0000707F⟩, csrImmRow CSR_S⟩,
    ⟨.CSRRCI, ⟨0x00007073, 0x0000707F⟩, csrImmRow CSR_C⟩]

/-- The floating-point instructions (`FDecode`). -/
def fDecode : List DecodeRow :=
  [⟨.FCVT_S_D, ⟨0x40100053, 0xFFF0007F⟩, fpRow false false⟩,
    ⟨.FCVT_D_S, ⟨0x42000053, 0xFFF0007F⟩, fpRow false false⟩,
    ⟨.FSGNJ_S, ⟨0x20000053, 0xFE00707F⟩, fpRow true false⟩,
    ⟨.FSGNJ_D, ⟨0x22000053, 0xFE00707F⟩, fpRow true false⟩,
    ⟨.FSGNJX_S, ⟨0x20002053, 0xFE00707F⟩, fpRow true false⟩,
    ⟨.FSGNJX_D, ⟨0x22002053, 0xFE00707F⟩, fpRow true false⟩,
    ⟨.FSGNJN_S, ⟨0x20001053, 0xFE00707F⟩, fpRow true false⟩,
    ⟨.FSGNJN_D, ⟨0x22001053, 0xFE00707F⟩, fpRow true false⟩,
    ⟨.FMIN_S, ⟨0x28000053, 0xFE00707F⟩, fpRow true false⟩,
    ⟨.FMIN_D, ⟨0x2A000053, 0xFE00707F⟩, fpRow true false⟩,
    ⟨.FMAX_S, ⟨0x28001053, 0xFE00707F⟩, fpRow true false⟩,
    ⟨.FMAX_D, ⟨0x2A001053, 0xFE00707F⟩, fpRow true false⟩,
    ⟨.FADD_S, ⟨0x00000053, 0xFE00007F⟩, fpRow true false⟩,
    ⟨.FADD_D, ⟨0x02000053, 0xFE00007F⟩, fpRow true false⟩,
    ⟨.FSUB_S, ⟨0x08000053, 0xFE00007F⟩, fpRow true false⟩,
    ⟨.FSUB_D, ⟨0x0A000053, 0xFE00007F⟩, fpRow true false⟩,
    ⟨.FMUL_S, ⟨0x10000053, 0xFE00007F⟩, fpRow true false⟩,
    ⟨.FMUL_D, ⟨0x12000053, 0xFE00007F⟩, fpRow true false⟩,
    ⟨.FMADD_S, ⟨0x00000043, 0x0600007F⟩, fpRow true true⟩,
    ⟨.FMADD_D, ⟨0x02000043, 0x0600007F⟩, fpRow true true⟩,
    ⟨.FMSUB_S, ⟨0x00000047, 0x0600007F⟩, fpRow true true⟩,
    ⟨.FMSUB_D, ⟨0x02000047, 0x0600007F⟩, fpRow true true⟩,
    ⟨.FNMADD_S, ⟨0x0000004F, 0x0600007F⟩, fpRow true true⟩,
    ⟨.FNMADD_D, ⟨0x0200004F, 0x0600007F⟩, fpRow true true⟩,
    ⟨.FNMSUB_S, ⟨0x0000004B, 0x0600007F⟩, fpRow true true⟩,
    ⟨.FNMSUB_D, ⟨0x0200004B, 0x0600007F⟩, fpRow true true⟩,
    ⟨.FCLASS_S, ⟨0xE0001053, 0xFFF0707F⟩, fpToIntRow false⟩,
    ⟨.FCLASS_D, ⟨0xE2001053, 0xFFF0707F⟩, fpToIntRow false⟩,
    ⟨.FMV_X_S, ⟨0xE0000053, 0xFFF0707F⟩, fpToIntRow false⟩,
    ⟨.FMV_X_D, ⟨0xE2000053, 0xFFF0707F⟩, fpToIntRow false⟩,
    ⟨.FCVT_W_S, ⟨0xC0000053, 0xFFF0007F⟩, fpToIntRow false⟩,
    ⟨.FCVT_W_D, ⟨0xC2000053, 0xFFF0007F⟩, fpToIntRow false⟩,
    ⟨.FCVT_WU_S, ⟨0xC0100053, 0xFFF0007F⟩, fpToIntRow false⟩,
    ⟨.FCVT_WU_D, ⟨0xC2100053, 0xFFF0007F⟩, fpToIntRow false⟩,
    ⟨.FCVT_L_S, ⟨0xC0200053, 0xFFF0007F⟩, fpToIntRow false⟩,
    ⟨.FCVT_L_D, ⟨0xC2200053, 0xFFF0007F⟩, fpToIntRow false⟩,
    ⟨.FCVT_LU_S, ⟨0xC0300053, 0xFFF0007F⟩, fpToIntRow false⟩,
    ⟨.FCVT_LU_D, ⟨0xC2300053, 0xFFF0007F⟩, fpToIntRow false⟩,
    ⟨.FEQ_S, ⟨0xA0002053, 0xFE00707F⟩, fpToIntRow true⟩,
    ⟨.FEQ_D, ⟨0xA2002053, 0xFE00707F⟩, fpToIntRow true⟩,
    ⟨.FLT_S, ⟨0xA0001053, 0xFE00707F⟩, fpToIntRow true⟩,
    ⟨.FLT_D, ⟨0xA2001053, 0xFE00707F⟩, fpToIntRow true⟩,
    ⟨.FLE_S, ⟨0xA0000053, 0xFE00707F⟩, fpToIntRow true⟩,
    ⟨.FLE_D, ⟨0xA2000053, 0xFE00707F⟩, fpToIntRow true⟩,
    ⟨.FMV_S_X, ⟨0xF0000053, 0xFFF0707F⟩, fpFromIntRow⟩,
    ⟨.FMV_D_X, ⟨0xF2000053, 0xFFF0707F⟩, fpFromIntRow⟩,
    ⟨.FCVT_S_W, ⟨0xD0000053, 0xFFF0007F⟩, fpFromIntRow⟩,
    ⟨.FCVT_D_W, ⟨0xD2000053, 0xFFF0007F⟩, fpFromIntRow⟩,
    ⟨.FCVT_S_WU, ⟨0xD0100053, 0xFFF0007F⟩, fpFromIntRow⟩,
    ⟨.FCVT_D_WU, ⟨0xD2100053, 0xFFF0007F⟩, fpFromIntRow⟩,
    ⟨.FCVT_S_L, ⟨0xD0200053, 0xFFF0007F⟩, fpFromIntRow⟩,
    ⟨.FCVT_D_L, ⟨0xD2200053, 0xFFF0007F⟩, fpFromIntRow⟩,
    ⟨.FCVT_S_LU, ⟨0xD0300053, 0xFFF0007F⟩, fpFromIntRow⟩,
    ⟨.FCVT_D_LU, ⟨0xD2300053, 0xFFF0007F⟩, fpFromIntRow⟩,
    ⟨.FLW, ⟨0x00002007, 0x0000707F⟩, fpLoadRow .W⟩,
    ⟨.FLD, ⟨0x00003007, 0x0000707F⟩, fpLoadRow .D⟩,
    ⟨.FSW, ⟨0x00002027, 0x0000707F⟩, fpStoreRow .W⟩,
    ⟨.FSD, ⟨0x00003027, 0x0000707F⟩, fpStoreRow .D⟩]

/-- Division and square root (`FDivSqrtDecode`). -/
def fDivSqrtDecode : List DecodeRow :=
  [⟨.FDIV_S, ⟨0x18000053, 0xFE00007F⟩, fpRow true false⟩,
    ⟨.FDIV_D, ⟨0x1A000053, 0xFE00007F⟩, fpRow true false⟩,
    ⟨.FSQRT_S, ⟨0x58000053, 0xFFF0007F⟩, fpRow true false⟩,
    ⟨.FSQRT_D, ⟨0x5A000053, 0xFFF0007F⟩, fpRow true false⟩]

/-- The two tag instructions (`TagDecode`). -/
def tagDecode : List DecodeRow :=
  [⟨.LTAG, ⟨0x00000057, 0x0000707F⟩, loadRow .T⟩, ⟨.STAG, ⟨0x00001057, 0x0000707F⟩, storeRow .T⟩]

/-- The table of the core. -/
def decodeTable : List DecodeRow := xDecode ++ fDecode ++ fDivSqrtDecode ++ tagDecode

/-- No instruction matches two rows. -/
theorem decodeTable_disjoint :
    decodeTable.Pairwise fun r r' => r.pattern.Disjoint r'.pattern := by
  decide +kernel

/-- Decode logic: a row is followed where it gives a value; an instruction in no row is
illegal and no memory access. -/
structure Decoder where
  decode : BitVec 32 → IntCtrlSigs
  row : ∀ r ∈ decodeTable, ∀ inst, r.pattern.Matches inst → r.ctrl.Agrees (decode inst)
  default : ∀ inst, (∀ r ∈ decodeTable, ¬ r.pattern.Matches inst) →
    (decode inst).legal = false ∧ (decode inst).mem = false

/-- The row of an instruction. -/
def lookup (inst : BitVec 32) : Option DecodeRow :=
  decodeTable.find? fun r => decide (r.pattern.Matches inst)

theorem lookup_eq_some {r : DecodeRow} (hr : r ∈ decodeTable)
    (h : r.pattern.Matches inst) : lookup inst = some r := by
  have hsymm : Std.Symm fun r r' : DecodeRow => r.pattern.Disjoint r'.pattern :=
    ⟨fun _ _ => BitPat.Disjoint.symm⟩
  unfold lookup
  cases hfind : decodeTable.find? fun r => decide (r.pattern.Matches inst) with
  | none => exact absurd h (by simpa using List.find?_eq_none.1 hfind r hr)
  | some r' =>
    have hmatch : r'.pattern.Matches inst := by simpa using List.find?_some hfind
    by_contra hne
    have hdisj := decodeTable_disjoint.forall hr (List.mem_of_find?_eq_some hfind)
      fun heq => hne (by rw [heq])
    exact hdisj.not_matches h hmatch

theorem lookup_eq_none (h : ∀ r ∈ decodeTable, ¬ r.pattern.Matches inst) : lookup inst = none := by
  rw [lookup, List.find?_eq_none]
  intro r hr
  simpa using h r hr

/-- The decode logic that looks the instruction up, with zeros where the table gives no
value. -/
def tableDecoder : Decoder where
  decode inst :=
    match lookup inst with
    | some r => r.ctrl.fill
    | none => { CtrlRow.fill {} with legal := false }
  row r hr inst h := by
    rw [lookup_eq_some hr h]
    exact r.ctrl.agrees_fill
  default inst h := by
    rw [lookup_eq_none h]
    exact ⟨rfl, rfl⟩

end TaggedRiscv.Core
