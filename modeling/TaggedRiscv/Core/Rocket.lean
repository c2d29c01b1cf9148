import Mathlib.Logic.Function.Basic
import TaggedRiscv.Core.Alu

/-!
# The pipeline

The registers of the pipeline, the signals of a cycle and the registers after it. The front end, the
data cache, the floating-point unit, the multiplier and the control and status registers are inputs.

The core is the shipped one: a word loaded from the cache is bypassed, a byte is not, there is a
floating-point unit and no coprocessor. The prediction of branches only concerns the front end and
is left out.
-/

namespace TaggedRiscv.Core

/-- The registers that instructions may write without a flush of the pipeline. -/
def safeCsrs : List (BitVec 12) := [0x140, 0x141, 0x340, 0x341, 0x342, 0x343]

/-- All control and status registers (`CSRs.all`). -/
def allCsrs : List (BitVec 12) :=
  [0x1, 0x2, 0x3, 0xc00, 0xc01, 0xc02, 0xc0, 0xcc0, 0xcc1, 0xcc2, 0xcc3, 0xcc4, 0xcc5, 0xcc6,
    0xcc7, 0xcc8, 0xcc9, 0xcca, 0xccb, 0xccc, 0xccd, 0xcce, 0xccf, 0x100, 0x101, 0x104, 0x140,
    0x141, 0x144, 0x180, 0x181, 0x900, 0x901, 0x902, 0xd01, 0xd42, 0xd43, 0xa01, 0x300, 0x301,
    0x302, 0x304, 0x321, 0x340, 0x341, 0x342, 0x343, 0x344, 0x701, 0xf00, 0xf01, 0xf10, 0x780,
    0x781, 0x782, 0x783]

/-- The logic of the decode stage: the instruction decoder, and the test for the registers
that are safe to write, which is free outside `allCsrs`. -/
structure DecodeLogic extends Decoder where
  csrSafe : BitVec 12 → Bool
  csrSafe_iff : ∀ a ∈ allCsrs, (csrSafe a ↔ a ∈ safeCsrs)

/-- Decode logic that looks everything up. -/
def tableLogic : DecodeLogic where
  toDecoder := tableDecoder
  csrSafe a := decide (a ∈ safeCsrs)
  csrSafe_iff _ _ := by rw [decide_eq_true_iff]

/-! ## Registers -/

/-- The registers between decode and execute. An operand is a bypass and then its source
number is in the low bits, or it is a value and a tag read from the register files. -/
structure ExStage where
  ctrl : IntCtrlSigs
  xcptInterrupt : Bool
  valid : Bool
  xcpt : Bool
  flushPipe : Bool
  loadUse : Bool
  cause : BitVec 64
  pc : BitVec 40
  inst : BitVec 32
  rsBypass : Fin 2 → Bool
  rsLsb : Fin 2 → BitVec 2
  rsMsb : Fin 2 → BitVec 62
  tagsPre : Fin 2 → Tag

/-- The registers between execute and memory. -/
structure MemStage where
  ctrl : IntCtrlSigs
  xcptInterrupt : Bool
  valid : Bool
  xcpt : Bool
  replay : Bool
  flushPipe : Bool
  cause : BitVec 64
  slowBypass : Bool
  pc : BitVec 40
  inst : BitVec 32
  wdata : BitVec 64
  tagWb : Tag
  rs2 : BitVec 64
  tagr2 : Tag

/-- The registers between memory and write-back. -/
structure WbStage where
  ctrl : IntCtrlSigs
  valid : Bool
  xcpt : Bool
  replay : Bool
  cause : BitVec 64
  pc : BitVec 40
  inst : BitVec 32
  wdata : BitVec 64
  tagdata : Tag

/-- The registers of the core. -/
structure Rocket where
  ex : ExStage
  mem : MemStage
  wb : WbStage
  idRegFence : Bool
  rf : BitVec 5 → BitVec 64
  trf : BitVec 5 → Tag
  sboard : BitVec 32
  fpSboard : BitVec 32
  tagCheck : TagCheckUnit

/-! ## Inputs -/

/-- The instruction the front end offers. -/
structure ImemIn where
  valid : Bool
  pc : BitVec 40
  inst : BitVec 32
  xcptIf : Bool

/-- The answers of the data cache. The tag of a response is the register it is for and
whether that is a floating-point one; the word comes with its tag on top. -/
structure DmemIn where
  reqReady : Bool
  ordered : Bool
  replayNext : Bool
  xcptMaLd : Bool
  xcptMaSt : Bool
  xcptPfLd : Bool
  xcptPfSt : Bool
  respValid : Bool
  respReplay : Bool
  respNack : Bool
  respHasData : Bool
  respFpu : Bool
  respWaddr : BitVec 5
  respData : BitVec (4 + 64)
  respDataSubword : BitVec (4 + 64)

/-- The answers of the floating-point unit. -/
structure FpuIn where
  illegalRm : Bool
  nackMem : Bool
  tointData : BitVec 64
  fcsrRdy : Bool
  sboardSet : Bool
  sboardClr : Bool
  sboardClra : BitVec 5
  decRen1 : Bool
  decRen2 : Bool
  decRen3 : Bool
  decWen : Bool

/-- The answers of the control and status registers; `fs` tells whether the floating-point
unit is on. -/
structure CsrIn where
  interrupt : Bool
  interruptCause : BitVec 64
  stall : Bool
  replay : Bool
  xcpt : Bool
  eret : Bool
  fs : Bool
  rdata : BitVec 64

/-- The answers of the multiplier and divider. -/
structure DivIn where
  reqReady : Bool
  respValid : Bool
  respData : BitVec 64
  respTag : BitVec 5

/-- The inputs of a cycle. -/
structure CoreIn where
  reset : Bool
  powerOnReset : Bool
  imem : ImemIn
  dmem : DmemIn
  fpu : FpuIn
  csr : CsrIn
  div : DivIn
  pcrUpdate : Option PCRUpdate

/-! ## Helpers -/

/-- Whether one of several exceptions occurs, and the cause of the first one. -/
def checkExceptions : List (Bool × BitVec 64) → Bool × BitVec 64
  | [] => (false, 0)
  | [x] => x
  | x :: xs => (x.1 || (checkExceptions xs).1, if x.1 then x.2 else (checkExceptions xs).2)

/-- Whether one of several registers in use meets a condition. -/
def checkHazards (targets : List (Bool × BitVec 5)) (cond : BitVec 5 → Bool) : Bool :=
  targets.any fun t => t.1 && cond t.2

/-- The first source that is on, or the last one. -/
def priorityEncoder : List Bool → ℕ
  | [] => 0
  | [_] => 0
  | b :: bs => if b then 0 else priorityEncoder bs + 1

/-- The register that an instruction writes. -/
def waddrOf (inst : BitVec 32) : BitVec 5 := inst.extractLsb' 7 5

/-- The first source register. -/
def raddr1Of (inst : BitVec 32) : BitVec 5 := inst.extractLsb' 15 5

/-- The second source register. -/
def raddr2Of (inst : BitVec 32) : BitVec 5 := inst.extractLsb' 20 5

/-- The third source register. -/
def raddr3Of (inst : BitVec 32) : BitVec 5 := inst.extractLsb' 27 5

/-- The data of a word with its tag. -/
def wordData (x : BitVec (4 + 64)) : BitVec 64 := x.extractLsb' 0 64

/-- Its tag. -/
def wordTag (x : BitVec (4 + 64)) : Tag := x.extractLsb' 64 4

namespace Rocket

variable (d : DecodeLogic) (s : Rocket) (i : CoreIn)

/-! ## Write-back -/

/-- The register that the instruction in write-back writes. -/
def wbWaddr : BitVec 5 := waddrOf s.wb.inst

/-- A response for an integer register. -/
def dmemRespXpu : Bool := !i.dmem.respFpu

/-- A response with data. -/
def dmemRespValid : Bool := i.dmem.respValid && i.dmem.respHasData

/-- The late response of a load that missed. -/
def dmemRespReplay : Bool := i.dmem.respReplay && i.dmem.respHasData

/-- An access whose response has not come. -/
def wbDcacheMiss : Bool := s.wb.ctrl.mem && !i.dmem.respValid

/-- The result comes later, so its register is marked. -/
def wbSetSboard : Bool := s.wb.ctrl.div || s.wbDcacheMiss i

/-- The instruction in write-back is to be repeated. -/
def replayWb : Bool := i.dmem.respNack || s.wb.replay || i.csr.replay

/-- An exception is taken. -/
def wbXcpt : Bool := s.wb.xcpt || i.csr.xcpt

/-- Write-back redirects the fetch. -/
def takePcWb : Bool := s.replayWb i || s.wbXcpt i || i.csr.eret

/-- The long-latency port takes a result of the divider when nothing else is written. -/
def divRespReady : Bool :=
  if dmemRespReplay i && dmemRespXpu i then false else !(s.wb.valid && s.wb.ctrl.wxd)

/-- The long-latency port writes. -/
def llWen : Bool :=
  if dmemRespReplay i && dmemRespXpu i then true else i.div.respValid && s.divRespReady i

/-- Its register. -/
def llWaddr : BitVec 5 :=
  if dmemRespReplay i && dmemRespXpu i then i.dmem.respWaddr else i.div.respTag

/-- An instruction retires. -/
def wbValid : Bool := s.wb.valid && !s.replayWb i && !i.csr.xcpt

/-- It writes an integer register. -/
def wbWen : Bool := s.wbValid i && s.wb.ctrl.wxd

/-- The register file is written. -/
def rfWen : Bool := s.wbWen i || s.llWen i

/-- The register that is written. -/
def rfWaddr : BitVec 5 := if s.llWen i then llWaddr i else s.wbWaddr

/-- The value written to the register file. -/
def rfWdata : BitVec 64 :=
  if dmemRespValid i && dmemRespXpu i then wordData i.dmem.respDataSubword
  else if s.llWen i then i.div.respData
  else if s.wb.ctrl.csr ≠ CSR_N then i.csr.rdata
  else s.wb.wdata

/-- The tag written with it. -/
def tagWdata : Tag :=
  if dmemRespValid i && dmemRespXpu i then wordTag i.dmem.respDataSubword
  else if s.llWen i then 0
  else if s.wb.ctrl.csr ≠ CSR_N then 0
  else s.wb.tagdata

/-! ## Bypasses and operands -/

/-- The register that the instruction in execute writes. -/
def exWaddr : BitVec 5 := waddrOf s.ex.inst

/-- The register that the instruction in memory writes. -/
def memWaddr : BitVec 5 := waddrOf s.mem.inst

/-- The bypasses an instruction in decode can use: whether there is one, its register. -/
def bypassSources : List (Bool × BitVec 5) :=
  [(true, 0), (s.ex.valid && s.ex.ctrl.wxd, s.exWaddr),
    (s.mem.valid && s.mem.ctrl.wxd && !s.mem.ctrl.mem, s.memWaddr),
    (s.mem.valid && s.mem.ctrl.wxd, s.memWaddr)]

/-- The bypassed values, one cycle later, by source. -/
def bypassMux (src : BitVec 2) : BitVec 64 :=
  if src = 0 then 0 else if src = 1 then s.mem.wdata
  else if src = 2 then s.wb.wdata else wordData i.dmem.respData

/-- Their tags. -/
def bypassMuxTags (src : BitVec 2) : Tag :=
  if src = 0 then 0 else if src = 1 then s.mem.tagWb
  else if src = 2 then s.wb.tagdata else wordTag i.dmem.respData

/-- The operands in execute. -/
def exRs (k : Fin 2) : BitVec 64 :=
  if s.ex.rsBypass k then s.bypassMux i (s.ex.rsLsb k) else s.ex.rsMsb k ++ s.ex.rsLsb k

/-- Their tags. -/
def exTags (k : Fin 2) : Tag :=
  if s.ex.rsBypass k then s.bypassMuxTags i (s.ex.rsLsb k) else s.ex.tagsPre k

/-! ## Execute -/

/-- The immediate. -/
def exImm : BitVec 32 := imm s.ex.ctrl.selImm s.ex.inst

/-- The first operand of the ALU. -/
def exOp1 : BitVec 64 :=
  if s.ex.ctrl.selAlu1 = A1_RS1 then s.exRs i 0
  else if s.ex.ctrl.selAlu1 = A1_PC then s.ex.pc.signExtend 64 else 0

/-- The second operand of the ALU. -/
def exOp2 : BitVec 64 :=
  if s.ex.ctrl.selAlu2 = A2_RS2 then s.exRs i 1
  else if s.ex.ctrl.selAlu2 = A2_IMM then s.exImm.signExtend 64
  else if s.ex.ctrl.selAlu2 = A2_FOUR then 4 else 0

/-- The result of the ALU. -/
def aluOut : BitVec 64 := ALU.out s.ex.ctrl.aluDw s.ex.ctrl.aluFn (s.exOp1 i) (s.exOp2 i)

/-- An addition of a zero immediate is a move. -/
def isMv : Bool := s.ex.ctrl.selAlu2 == A2_IMM && s.exImm == 0 && s.ex.ctrl.aluFn == FN_ADD

/-- The tag of the first operand, if a register is read. -/
def tagIn1 : Tag := if s.ex.ctrl.rxs1 then s.exTags i 0 else 0

/-- The tag of the second operand. -/
def tagIn2 : Tag := if s.ex.ctrl.rxs2 then s.exTags i 1 else 0

/-- The tag of the result. -/
def tagAluOut : Tag :=
  TagALU.out s.isMv (s.tagIn1 i) (s.tagIn2 i) s.ex.ctrl.jal s.ex.ctrl.jalr

/-- What the tag check unit sees. -/
def tagCheckIn : TagCheckIn where
  tagIn := s.exTags i 0
  jalr := s.ex.ctrl.jalr
  jumpRegister := raddr1Of s.ex.inst
  debugTagIn1 := s.tagIn1 i
  debugTagIn2 := s.tagIn2 i

/-- A jump to a register fails its check. -/
def tagException : Bool := s.tagCheck.invalidJump (s.tagCheckIn i)

/-- The debug check fails. -/
def debugTagException : Bool := s.tagCheck.debugTrap (s.tagCheckIn i)

/-! The requests to the data cache and to the multiplier. -/

/-- A memory access starts. -/
def dmemReqValid : Bool := s.ex.valid && s.ex.ctrl.mem

/-- A multiplication or division starts. -/
def divReqValid : Bool := s.ex.valid && s.ex.ctrl.div

/-- The unit is busy, or a load that is used missed. -/
def replayEx : Bool :=
  s.ex.valid &&
    (s.ex.ctrl.mem && !i.dmem.reqReady || s.ex.ctrl.div && !i.div.reqReady ||
      s.wbDcacheMiss i && s.ex.loadUse)

/-- Loads whose result needs a cycle more: a byte, half word or tag, and store-conditional. -/
def exSlowBypass : Bool :=
  s.ex.ctrl.memCmd == .XSC || [MemTyp.B, .BU, .H, .HU, .T].contains s.ex.ctrl.memType

/-- The exceptions of the instruction in execute. -/
def exXcpt : Bool × BitVec 64 :=
  checkExceptions
    [(s.ex.xcptInterrupt || s.ex.xcpt, s.ex.cause),
      (s.ex.ctrl.fp && i.fpu.illegalRm, Causes.illegalInstruction),
      (s.tagException i, Causes.tagTrap),
      (s.debugTagException i, Causes.debugTagTrap)]

/-! ## Memory -/

/-- The address after a branch or a direct jump. -/
def memBrTarget : BitVec 40 :=
  s.mem.pc +
    if s.mem.ctrl.branch && s.mem.wdata.getLsbD 0 then (imm IMM_SB s.mem.inst).signExtend 40
    else if s.mem.ctrl.jal then (imm IMM_UJ s.mem.inst).signExtend 40 else 4

/-- The result handed to write-back; a jump to a register returns the next address. -/
def memIntWdata : BitVec 64 :=
  if s.mem.ctrl.jalr then s.memBrTarget.signExtend 64 else s.mem.wdata

/-- The address of the next instruction. -/
def memNpc : BitVec 40 :=
  (if s.mem.ctrl.jalr then
    BitVec.ofBool (vaSign s.mem.wdata s.mem.wdata) ++ s.mem.wdata.extractLsb' 0 39
  else s.memBrTarget) &&& -2

/-- Another instruction follows in execute. -/
def memWrongNpc : Bool := s.memNpc != s.ex.pc || !s.ex.valid

/-- A branch or jump went elsewhere. -/
def memMisprediction : Bool :=
  s.memWrongNpc && s.mem.valid && (s.mem.ctrl.branch || s.mem.ctrl.jalr || s.mem.ctrl.jal)

/-- The instruction in memory is to redirect the fetch. -/
def wantTakePcMem : Bool := s.mem.valid && (s.memMisprediction || s.mem.flushPipe)

/-- It does, to an aligned address. -/
def takePcMem : Bool := s.wantTakePcMem && !s.memNpc.getLsbD 1

/-- The younger instructions are killed. -/
def takePc : Bool := s.takePcWb i || s.takePcMem

/-- The instruction in execute does not go on. -/
def ctrlKillx : Bool := s.takePc i || s.replayEx i || !s.ex.valid

/-- The exceptions of the instruction in memory. -/
def memXcpt : Bool × BitVec 64 :=
  checkExceptions
    [(s.mem.xcptInterrupt || s.mem.xcpt, s.mem.cause),
      (s.wantTakePcMem && s.memNpc.getLsbD 1, Causes.misalignedFetch),
      (s.mem.valid && s.mem.ctrl.mem && i.dmem.xcptMaSt, Causes.misalignedStore),
      (s.mem.valid && s.mem.ctrl.mem && i.dmem.xcptMaLd, Causes.misalignedLoad),
      (s.mem.valid && s.mem.ctrl.mem && i.dmem.xcptPfSt, Causes.faultStore),
      (s.mem.valid && s.mem.ctrl.mem && i.dmem.xcptPfLd, Causes.faultLoad)]

/-- A replayed load takes the write port in the next cycle. -/
def dcacheKillMem : Bool := s.mem.valid && s.mem.ctrl.wxd && i.dmem.replayNext

/-- The floating-point unit refuses. -/
def fpuKillMem : Bool := s.mem.valid && s.mem.ctrl.fp && i.fpu.nackMem

/-- The instruction in memory is to be repeated. -/
def replayMem : Bool := s.dcacheKillMem i || s.mem.replay || s.fpuKillMem i

/-- It is killed, whether or not there is an exception now. -/
def killmCommon : Bool := s.dcacheKillMem i || s.takePcWb i || s.mem.xcpt || !s.mem.valid

/-- The instruction in memory does not go on. -/
def ctrlKillm : Bool := s.killmCommon i || (s.memXcpt i).1 || s.fpuKillMem i

/-! ## Decode -/

/-- The control signals of the instruction in decode. -/
def idCtrl : IntCtrlSigs := d.decode i.imem.inst

/-- The registers read in decode, with what is written in the same cycle. -/
def readThrough {α : Type} (file : BitVec 5 → α) (wdata : α) (raddr : BitVec 5) : α :=
  if s.rfWen i && s.rfWaddr i != 0 && s.rfWaddr i == raddr then wdata else file raddr

/-- Its source registers. -/
def idRaddr (k : Fin 2) : BitVec 5 := if k = 0 then raddr1Of i.imem.inst else raddr2Of i.imem.inst

/-- The values of its source registers. -/
def idRs (k : Fin 2) : BitVec 64 := s.readThrough i s.rf (s.rfWdata i) (idRaddr i k)

/-- Their tags. -/
def idTags (k : Fin 2) : Tag := s.readThrough i s.trf (s.tagWdata i) (idRaddr i k)

/-- Whether it reads them. -/
def idRen (k : Fin 2) : Bool := if k = 0 then (idCtrl d i).rxs1 else (idCtrl d i).rxs2

/-- The bypasses that hold a source register. -/
def idBypassSrc (k : Fin 2) : List Bool :=
  s.bypassSources.map fun b => b.1 && b.2 == idRaddr i k

/-- It accesses a control and status register. -/
def idCsrEn : Bool := (idCtrl d i).csr != CSR_N

/-- It only reads that register. -/
def idCsrRen : Bool :=
  ((idCtrl d i).csr == CSR_S || (idCtrl d i).csr == CSR_C) && raddr1Of i.imem.inst == 0

/-- The command for the register. -/
def idCsr : BitVec 3 := if idCsrRen d i then CSR_R else (idCtrl d i).csr

/-- The pipeline is flushed after it. -/
def idCsrFlush : Bool :=
  (idCtrl d i).csr == CSR_I ||
    (idCsrEn d i && !idCsrRen d i && !d.csrSafe (i.imem.inst.extractLsb' 20 12))

/-- It is unknown, or the floating-point unit is off. -/
def idIllegalInsn : Bool := !(idCtrl d i).legal || (idCtrl d i).fp && !i.csr.fs

/-- The acquire bit. -/
def idAmoAq : Bool := i.imem.inst.getLsbD 26

/-- The release bit. -/
def idAmoRl : Bool := i.imem.inst.getLsbD 25

/-- Later accesses have to wait. -/
def idFenceNext : Bool := (idCtrl d i).fence || (idCtrl d i).amo && idAmoRl i

/-- Accesses are under way. -/
def idMemBusy : Bool := !i.dmem.ordered || s.dmemReqValid

/-- It has to wait for them. -/
def idDoFence : Bool :=
  s.idMemBusy i && ((idCtrl d i).amo && idAmoAq i || (idCtrl d i).fenceI ||
    s.idRegFence && (idCtrl d i).mem || idCsrEn d i)

/-- The exceptions of the instruction in decode. -/
def idXcpt : Bool × BitVec 64 :=
  checkExceptions
    [(i.csr.interrupt, i.csr.interruptCause), (i.imem.xcptIf, Causes.faultFetch),
      (idIllegalInsn d i, Causes.illegalInstruction)]

/-! ## Stalls -/

/-- The integer registers an instruction uses. -/
def hazardTargets : List (Bool × BitVec 5) :=
  [((idCtrl d i).rxs1 && raddr1Of i.imem.inst != 0, raddr1Of i.imem.inst),
    ((idCtrl d i).rxs2 && raddr2Of i.imem.inst != 0, raddr2Of i.imem.inst),
    ((idCtrl d i).wxd && waddrOf i.imem.inst != 0, waddrOf i.imem.inst)]

/-- The floating-point registers it uses. -/
def fpHazardTargets : List (Bool × BitVec 5) :=
  [(i.fpu.decRen1, raddr1Of i.imem.inst), (i.fpu.decRen2, raddr2Of i.imem.inst),
    (i.fpu.decRen3, raddr3Of i.imem.inst), (i.fpu.decWen, waddrOf i.imem.inst)]

/-- One bit of a scoreboard, if enabled. -/
def mask (en : Bool) (addr : BitVec 5) : BitVec 32 := if en then 1 <<< addr.toNat else 0

/-- The scoreboard without the register that is written in this cycle. -/
def sboardCleared : BitVec 32 := s.sboard &&& ~~~mask (s.llWen i) (llWaddr i)

/-- It uses a register whose value is late. -/
def idSboardHazard : Bool :=
  checkHazards (hazardTargets d i) fun a => (s.sboardCleared i).getLsbD a.toNat

/-- The result in execute is not ready for a bypass. -/
def exCannotBypass : Bool :=
  s.ex.ctrl.csr != CSR_N || s.ex.ctrl.jalr || s.ex.ctrl.mem || s.ex.ctrl.div || s.ex.ctrl.fp

/-- It uses the register that execute writes. -/
def dataHazardEx : Bool := s.ex.ctrl.wxd && checkHazards (hazardTargets d i) (· == s.exWaddr)

/-- The same for the floating-point registers. -/
def fpDataHazardEx : Bool := s.ex.ctrl.wfd && checkHazards (fpHazardTargets i) (· == s.exWaddr)

/-- It waits for the instruction in execute. -/
def idExHazard : Bool :=
  s.ex.valid && (s.dataHazardEx d i && s.exCannotBypass || s.fpDataHazardEx i)

/-- The result in memory is not ready for a bypass. -/
def memCannotBypass : Bool :=
  s.mem.ctrl.csr != CSR_N || s.mem.ctrl.mem && s.mem.slowBypass || s.mem.ctrl.div ||
    s.mem.ctrl.fp

/-- It uses the register that memory writes. -/
def dataHazardMem : Bool := s.mem.ctrl.wxd && checkHazards (hazardTargets d i) (· == s.memWaddr)

/-- The same for the floating-point registers. -/
def fpDataHazardMem : Bool := s.mem.ctrl.wfd && checkHazards (fpHazardTargets i) (· == s.memWaddr)

/-- It waits for the instruction in memory. -/
def idMemHazard : Bool :=
  s.mem.valid && (s.dataHazardMem d i && s.memCannotBypass || s.fpDataHazardMem i)

/-- It uses what a load in memory returns. -/
def idLoadUse : Bool := s.mem.valid && s.dataHazardMem d i && s.mem.ctrl.mem

/-- It uses the register that write-back writes. -/
def dataHazardWb : Bool := s.wb.ctrl.wxd && checkHazards (hazardTargets d i) (· == s.wbWaddr)

/-- The same for the floating-point registers. -/
def fpDataHazardWb : Bool := s.wb.ctrl.wfd && checkHazards (fpHazardTargets i) (· == s.wbWaddr)

/-- It waits for a result that write-back does not have yet. -/
def idWbHazard : Bool :=
  s.wb.valid && (s.dataHazardWb d i && s.wbSetSboard i || s.fpDataHazardWb i)

/-- The floating-point unit makes it wait. -/
def idStallFpu : Bool :=
  idCsrEn d i && !i.fpu.fcsrRdy ||
    checkHazards (fpHazardTargets i) fun a => s.fpSboard.getLsbD a.toNat

/-- The instruction in decode waits. -/
def ctrlStalld : Bool :=
  s.idExHazard d i || s.idMemHazard d i || s.idWbHazard d i || s.idSboardHazard d i ||
    (idCtrl d i).fp && s.idStallFpu d i || (idCtrl d i).mem && !i.dmem.reqReady ||
    s.idDoFence d i || i.csr.stall

/-- Nothing goes from decode to execute. -/
def ctrlKilld : Bool := !i.imem.valid || s.takePc i || s.ctrlStalld d i || i.csr.interrupt

/-! ## The clock edge -/

/-- The execute stage takes the instruction in decode. -/
def exNext : ExStage :=
  let kill := s.ctrlKilld d i
  let doBypass (k : Fin 2) : Bool := (s.idBypassSrc i k).any id
  let bypassSrc (k : Fin 2) : BitVec 2 := BitVec.ofNat 2 (priorityEncoder (s.idBypassSrc i k))
  let readsFile (k : Fin 2) : Bool := idRen d i k && !doBypass k
  { valid := !kill
    xcpt := !kill && (idXcpt d i).1
    xcptInterrupt := i.csr.interrupt && !s.takePc i && i.imem.valid
    cause := if (idXcpt d i).1 then (idXcpt d i).2 else s.ex.cause
    ctrl := if kill then s.ex.ctrl else { idCtrl d i with csr := idCsr d i }
    flushPipe := if kill then s.ex.flushPipe else (idCtrl d i).fenceI || idCsrFlush d i
    loadUse := if kill then s.ex.loadUse else s.idLoadUse d i
    rsBypass := fun k => if kill then s.ex.rsBypass k else doBypass k
    rsLsb := fun k =>
      if i.reset then 0
      else if kill then s.ex.rsLsb k
      else if readsFile k then (s.idRs i k).extractLsb' 0 2 else bypassSrc k
    rsMsb := fun k =>
      if i.reset then 0
      else if kill then s.ex.rsMsb k
      else if readsFile k then (s.idRs i k).extractLsb' 2 62 else s.ex.rsMsb k
    tagsPre := fun k =>
      if i.reset then 0
      else if kill then s.ex.tagsPre k
      else if readsFile k then s.idTags i k else s.ex.tagsPre k
    inst := if !kill || i.csr.interrupt then i.imem.inst else s.ex.inst
    pc := if !kill || i.csr.interrupt then i.imem.pc else s.ex.pc }

/-- The memory stage takes the instruction in execute. -/
def memNext : MemStage :=
  let kill := s.ctrlKillx i
  let load := s.ex.valid || s.ex.xcptInterrupt
  let store := load && s.ex.ctrl.rxs2 && s.ex.ctrl.mem
  { valid := !kill
    replay := !s.takePc i && s.replayEx i
    xcpt := !kill && (s.exXcpt i).1
    xcptInterrupt := !s.takePc i && s.ex.xcptInterrupt
    cause := if (s.exXcpt i).1 then (s.exXcpt i).2 else s.mem.cause
    ctrl := if load then s.ex.ctrl else s.mem.ctrl
    flushPipe := if load then s.ex.flushPipe else s.mem.flushPipe
    slowBypass := if load then s.exSlowBypass else s.mem.slowBypass
    inst := if load then s.ex.inst else s.mem.inst
    pc := if load then s.ex.pc else s.mem.pc
    wdata := if load then s.aluOut i else s.mem.wdata
    tagWb := if load then s.tagAluOut i else s.mem.tagWb
    rs2 := if store then s.exRs i 1 else s.mem.rs2
    tagr2 := if store then s.exTags i 1 else s.mem.tagr2 }

/-- The write-back stage takes the instruction in memory. -/
def wbNext : WbStage :=
  let load := s.mem.valid || s.mem.replay || s.mem.xcptInterrupt
  { valid := !s.ctrlKillm i
    replay := s.replayMem i && !s.takePcWb i
    xcpt := (s.memXcpt i).1 && !s.takePcWb i
    cause := if (s.memXcpt i).1 then (s.memXcpt i).2 else s.wb.cause
    ctrl := if load then s.mem.ctrl else s.wb.ctrl
    wdata :=
      if load then if s.mem.ctrl.fp && s.mem.ctrl.wxd then i.fpu.tointData else s.memIntWdata
      else s.wb.wdata
    inst := if load then s.mem.inst else s.wb.inst
    pc := if load then s.mem.pc else s.wb.pc
    tagdata := if load then s.mem.tagWb else s.wb.tagdata }

/-- A register file after the write-back; register 0 is not written. -/
def fileNext {α : Type} (file : BitVec 5 → α) (wdata : α) : BitVec 5 → α :=
  if s.rfWen i && s.rfWaddr i != 0 then Function.update file (s.rfWaddr i) wdata else file

/-- The scoreboard after the cycle. -/
def sboardNext : BitVec 32 :=
  s.sboardCleared i ||| mask (s.wbSetSboard i && s.wbWen i) s.wbWaddr

/-- The scoreboard of the floating-point registers after the cycle. -/
def fpSboardNext : BitVec 32 :=
  (s.fpSboard ||| mask ((s.wbDcacheMiss i && s.wb.ctrl.wfd || i.fpu.sboardSet) && s.wbValid i)
    s.wbWaddr) &&& ~~~mask (dmemRespReplay i && i.dmem.respFpu) i.dmem.respWaddr &&&
    ~~~mask i.fpu.sboardClr i.fpu.sboardClra

/-- The value of the tag control register after a power-on reset. -/
def initTagCtrl : BitVec 64 := 7

/-- The registers after the clock edge. -/
def next : Rocket where
  ex := s.exNext d i
  mem := s.memNext i
  wb := s.wbNext i
  idRegFence := if i.reset then false else idFenceNext d i || s.idRegFence && s.idMemBusy i
  rf := s.fileNext i s.rf (s.rfWdata i)
  trf := s.fileNext i s.trf (s.tagWdata i)
  sboard := if i.reset then 0 else s.sboardNext i
  fpSboard := if i.reset then 0 else s.fpSboardNext i
  tagCheck := s.tagCheck.next (s.tagCheckIn i) initTagCtrl i.powerOnReset i.pcrUpdate

end Rocket

end TaggedRiscv.Core
