import TaggedRiscv.Core.Decode
import TaggedRiscv.Pcr.Handshake

/-!
# The control and status registers of a core (`CSRFile`)

The privilege level and the levels to return to form a stack in `mstatus`: an exception pushes
machine mode, a return pops. Two addresses reach this stack, `mstatus` itself and its supervisor
view `sstatus`, and bits 9 and 8 of an address say from which level on it may be used.

All registers are modelled, as `when` blocks in the order of the source: a later one wins over an
earlier one, and all of them read the registers as they were before the cycle.
-/

namespace TaggedRiscv

open Sync CSRs

/-! ## Privilege levels and packed registers -/

/-- User mode. -/
def PRV_U : BitVec 2 := 0
/-- Supervisor mode. -/
def PRV_S : BitVec 2 := 1
/-- Hypervisor mode, which no core has. -/
def PRV_H : BitVec 2 := 2
/-- Machine mode. -/
def PRV_M : BitVec 2 := 3

/-- `mstatus`, the field of the highest bits first. -/
structure MStatus where
  sd : Bool
  zero2 : BitVec 31
  sdRv32 : BitVec 1
  zero1 : BitVec 9
  vm : BitVec 5
  mprv : Bool
  xs : BitVec 2
  fs : BitVec 2
  prv3 : BitVec 2
  ie3 : Bool
  prv2 : BitVec 2
  ie2 : Bool
  prv1 : BitVec 2
  ie1 : Bool
  prv : BitVec 2
  ie : Bool
  deriving DecidableEq, Repr

namespace MStatus

/-- The register as a word. -/
def toBits (m : MStatus) : BitVec 64 :=
  BitVec.ofBool m.sd ++ m.zero2 ++ m.sdRv32 ++ m.zero1 ++ m.vm ++ BitVec.ofBool m.mprv ++ m.xs ++
    m.fs ++ m.prv3 ++ BitVec.ofBool m.ie3 ++ m.prv2 ++ BitVec.ofBool m.ie2 ++ m.prv1 ++
    BitVec.ofBool m.ie1 ++ m.prv ++ BitVec.ofBool m.ie

/-- The fields of a word. -/
def fromBits (x : BitVec 64) : MStatus where
  sd := x.getLsbD 63
  zero2 := x.extractLsb' 32 31
  sdRv32 := x.extractLsb' 31 1
  zero1 := x.extractLsb' 22 9
  vm := x.extractLsb' 17 5
  mprv := x.getLsbD 16
  xs := x.extractLsb' 14 2
  fs := x.extractLsb' 12 2
  prv3 := x.extractLsb' 10 2
  ie3 := x.getLsbD 9
  prv2 := x.extractLsb' 7 2
  ie2 := x.getLsbD 6
  prv1 := x.extractLsb' 4 2
  ie1 := x.getLsbD 3
  prv := x.extractLsb' 1 2
  ie := x.getLsbD 0

/-- The value after a reset. -/
def initial : MStatus where
  sd := false
  zero2 := 0
  sdRv32 := 0
  zero1 := 0
  vm := 0
  mprv := false
  xs := 0
  fs := 0
  prv3 := PRV_U
  ie3 := false
  prv2 := PRV_U
  ie2 := false
  prv1 := PRV_M
  ie1 := false
  prv := PRV_M
  ie := false

/-- A property of all levels of the privilege stack. -/
def Stack (P : BitVec 2 → Prop) (m : MStatus) : Prop := P m.prv ∧ P m.prv1 ∧ P m.prv2

instance decidableStack (P : BitVec 2 → Prop) [DecidablePred P] (m : MStatus) :
    Decidable (m.Stack P) :=
  inferInstanceAs (Decidable (P m.prv ∧ P m.prv1 ∧ P m.prv2))

end MStatus

/-- `sstatus`, the supervisor's view of `mstatus`. -/
structure SStatus where
  sd : Bool
  zero4 : BitVec 31
  sdRv32 : BitVec 1
  zero3 : BitVec 14
  mprv : Bool
  xs : BitVec 2
  fs : BitVec 2
  zero2 : BitVec 7
  ps : Bool
  pie : Bool
  zero1 : BitVec 2
  ie : Bool

namespace SStatus

/-- The register as a word. -/
def toBits (m : SStatus) : BitVec 64 :=
  BitVec.ofBool m.sd ++ m.zero4 ++ m.sdRv32 ++ m.zero3 ++ BitVec.ofBool m.mprv ++ m.xs ++ m.fs ++
    m.zero2 ++ BitVec.ofBool m.ps ++ BitVec.ofBool m.pie ++ m.zero1 ++ BitVec.ofBool m.ie

/-- The fields of a word. -/
def fromBits (x : BitVec 64) : SStatus where
  sd := x.getLsbD 63
  zero4 := x.extractLsb' 32 31
  sdRv32 := x.extractLsb' 31 1
  zero3 := x.extractLsb' 17 14
  mprv := x.getLsbD 16
  xs := x.extractLsb' 14 2
  fs := x.extractLsb' 12 2
  zero2 := x.extractLsb' 5 7
  ps := x.getLsbD 4
  pie := x.getLsbD 3
  zero1 := x.extractLsb' 1 2
  ie := x.getLsbD 0

end SStatus

/-- Interrupts that are pending, or that are enabled. -/
structure MIP where
  mtip : Bool
  htip : Bool
  stip : Bool
  utip : Bool
  msip : Bool
  hsip : Bool
  ssip : Bool
  usip : Bool
  deriving DecidableEq, Repr

namespace MIP

/-- The register as a word. -/
def toBits (m : MIP) : BitVec 8 :=
  BitVec.ofBool m.mtip ++ BitVec.ofBool m.htip ++ BitVec.ofBool m.stip ++ BitVec.ofBool m.utip ++
    BitVec.ofBool m.msip ++ BitVec.ofBool m.hsip ++ BitVec.ofBool m.ssip ++ BitVec.ofBool m.usip

/-- The fields of a word. -/
def fromBits (x : BitVec 64) : MIP :=
  ⟨x.getLsbD 7, x.getLsbD 6, x.getLsbD 5, x.getLsbD 4, x.getLsbD 3, x.getLsbD 2, x.getLsbD 1,
    x.getLsbD 0⟩

end MIP

/-! ## Addresses and causes -/

namespace CSRs

/-- The floating-point exception flags. -/
def fflags : ℕ := 0x1
/-- The rounding mode. -/
def frm : ℕ := 0x2
/-- `frm` and `fflags` in one word. -/
def fcsr : ℕ := 0x3
/-- The cycle counter. -/
def cycle : ℕ := 0xc00
/-- The counter of retired instructions. -/
def instret : ℕ := 0xc02
/-- Switches statistics on. -/
def stats : ℕ := 0xc0
/-- The first event counter. -/
def uarch0 : ℕ := 0xcc0
/-- The supervisor view of `mstatus`. -/
def sstatus : ℕ := 0x100
/-- Where a redirected trap goes. -/
def stvec : ℕ := 0x101
/-- The supervisor view of `mie`. -/
def sie : ℕ := 0x104
/-- A word for the supervisor. -/
def sscratch : ℕ := 0x140
/-- Where the supervisor returns to. -/
def sepc : ℕ := 0x141
/-- The supervisor view of `mip`. -/
def sip : ℕ := 0x144
/-- The root of the page table. -/
def sptbr : ℕ := 0x180
/-- The address space, always zero. -/
def sasid : ℕ := 0x181
/-- `cycle` for the supervisor. -/
def cyclew : ℕ := 0x900
/-- `instret`, and the way to write it. -/
def instretw : ℕ := 0x902
/-- The cause of a redirected trap. -/
def scause : ℕ := 0xd42
/-- The address of a redirected trap. -/
def sbadaddr : ℕ := 0xd43
/-- The privilege stack and the unit states. -/
def mstatus : ℕ := 0x300
/-- The trap vector, `MTVEC`. -/
def mtvec : ℕ := 0x301
/-- No trap is delegated. -/
def mtdeleg : ℕ := 0x302
/-- The enabled interrupts. -/
def mie : ℕ := 0x304
/-- When the timer interrupts. -/
def mtimecmp : ℕ := 0x321
/-- A word for machine mode. -/
def mscratch : ℕ := 0x340
/-- Where machine mode returns to. -/
def mepc : ℕ := 0x341
/-- The cause of the last trap. -/
def mcause : ℕ := 0x342
/-- The address of the last trap. -/
def mbadaddr : ℕ := 0x343
/-- The pending interrupts. -/
def mip : ℕ := 0x344
/-- The instruction set, `cpuid`. -/
def mcpuid : ℕ := 0xf00
/-- The implementation, `impid`. -/
def mimpid : ℕ := 0xf01
/-- The number of the core. -/
def mhartid : ℕ := 0xf10
/-- The mailbox from the host. -/
def mfromhost : ℕ := PCRs.pfromhost

end CSRs

/-- The trap vector of user mode; that of level `prv` is `64 * prv` above it. -/
def MTVEC : ℕ := 0x100

/-- What a core is built with. -/
structure CSRParameters where
  pcr : PCRParameters
  useVM : Bool
  buildFPU : Bool
  buildRoCC : Bool
  nCustomMRWCSRs : ℕ
  id : ℕ

/-- The shipped configuration. -/
def CSRParameters.defaultConfig : CSRParameters :=
  ⟨PCRParameters.defaultConfig, true, true, false, 0, 0⟩

namespace CSRParameters

variable (p : CSRParameters)

/-- The privilege levels `mstatus` accepts. -/
def supportedModes : List (BitVec 2) := [PRV_M, PRV_U] ++ if p.useVM then [PRV_S] else []

/-- The letters of the extensions. -/
def isaString : List Char :=
  ['I', 'M', 'A'] ++ (if p.useVM then ['S'] else []) ++ (if p.buildFPU then ['F', 'D'] else []) ++
    (if p.buildRoCC then ['X'] else [])

/-- `mcpuid`: the word size and a bit for each extension. -/
def cpuid : BitVec 64 :=
  p.isaString.foldl (fun x c => x ||| 1 <<< (c.toNat - 'A'.toNat)) (2 <<< 62)

/-- The implementation id of Rocket. -/
def impid : BitVec 64 := 2

end CSRParameters

/-! ## Registers and inputs -/

/-- The registers of a CSR file. -/
structure CSRRegs where
  mstatus : MStatus
  mie : MIP
  mip : MIP
  mepc : BitVec 40
  mcause : BitVec 64
  mbadaddr : BitVec 40
  mscratch : BitVec 64
  sepc : BitVec 40
  scause : BitVec 64
  sbadaddr : BitVec 40
  sscratch : BitVec 64
  stvec : BitVec 39
  mtimecmp : BitVec 64
  sptbr : BitVec 32
  fromhost : BitVec 64
  stats : Bool
  time : BitVec 64
  instret : BitVec 64
  cycle : BitVec 64
  uarchCounters : Fin 16 → BitVec 64
  fflags : BitVec 5
  frm : BitVec 3
  port : CSRFile

/-- The inputs of a cycle. -/
structure CSRIn where
  reset : Bool := false
  cmd : CSR := .N
  addr : BitVec 12 := 0
  wdata : BitVec 64 := 0
  exception : Bool := false
  cause : BitVec 64 := 0
  pc : BitVec 40 := 0
  retire : BitVec 1 := 0
  uarchCounters : Fin 16 → BitVec 1 := fun _ => 0
  customMrwCsrs : ℕ → BitVec 64 := fun _ => 0
  fcsrFlags : Option (BitVec 5) := none
  irq : Bool := false
  roccInterrupt : Bool := false
  pcrRespValid : Bool := false
  pcrResp : PCRResp := ⟨0, 0⟩
  pcrUpdateValid : Bool := false
  pcrUpdate : PCRUpdate := ⟨false, 0, 0, 0⟩

namespace CSRRegs

variable (p : CSRParameters) (s : CSRRegs) (i : CSRIn)

/-! ## Interrupts -/

/-- The interrupts of the core: the level they are for, whether they are raised, their number. -/
def interrupts : List (BitVec 2 × Bool × ℕ) :=
  [(PRV_S, s.mie.ssip && s.mip.ssip, 0), (PRV_M, s.mie.msip && s.mip.msip, 0),
    (PRV_S, s.mie.stip && s.mip.stip, 1), (PRV_M, s.mie.mtip && s.mip.mtip, 1),
    (PRV_M, s.fromhost != 0, 2), (PRV_M, p.buildRoCC && i.roccInterrupt, 3), (PRV_M, i.irq, 4)]

/-- `io.interrupt_cause`: the last check that succeeds decides. -/
def interruptCause : BitVec 64 :=
  (s.interrupts p i).foldl (fun cause (maxPriv, cond, num) =>
    if cond && (decide (s.mstatus.prv < maxPriv) || s.mstatus.prv == maxPriv && s.mstatus.ie) then
      BitVec.ofNat 64 (2 ^ 63 + num)
    else cause) 0

/-- What `wfi` waits for, whether or not interrupts are enabled. -/
def someInterruptPending : Bool :=
  (s.interrupts p i).any fun (maxPriv, cond, _) => cond && decide (s.mstatus.prv ≤ maxPriv)

/-! ## Reads -/

/-- `io.status`. -/
def status : MStatus :=
  let fs : BitVec 2 := if s.mstatus.fs = 0 then 0 else 3
  let xs : BitVec 2 := if s.mstatus.xs = 0 then 0 else 3
  { s.mstatus with fs := fs, xs := xs, sd := fs == 3 || xs == 3 }

/-- What a read of `mstatus` returns. -/
def readMstatus : BitVec 64 := s.status.toBits

/-- What a read of `sstatus` returns: `mstatus` without the fields that are not the supervisor's. -/
def readSstatus : BitVec 64 :=
  SStatus.toBits
    { SStatus.fromBits s.readMstatus with zero1 := 0, zero2 := 0, zero3 := 0, zero4 := 0 }

/-- The interrupts a supervisor sees. -/
def supervisorView (m : MIP) : MIP :=
  ⟨false, false, m.stip, false, false, false, m.ssip, false⟩

/-- `read_mapping` in its order of insertion. -/
def readMapping : List (ℕ × BitVec 64) :=
  [(CSRs.fflags, if p.buildFPU then s.fflags.setWidth 64 else 0),
    (CSRs.frm, if p.buildFPU then s.frm.setWidth 64 else 0),
    (fcsr, if p.buildFPU then (s.frm ++ s.fflags).setWidth 64 else 0),
    (CSRs.cycle, s.cycle), (cyclew, s.cycle), (CSRs.instret, s.instret),
    (instretw, s.instret), (CSRs.time, i.pcrResp.data), (timew, i.pcrResp.data),
    (stime, i.pcrResp.data), (stimew, i.pcrResp.data), (mtime, i.pcrResp.data),
    (mcpuid, p.cpuid), (mimpid, CSRParameters.impid), (CSRs.mstatus, s.readMstatus),
    (mtdeleg, 0), (mreset, 0), (mtvec, BitVec.ofNat 64 MTVEC),
    (CSRs.mip, s.mip.toBits.setWidth 64), (CSRs.mie, s.mie.toBits.setWidth 64),
    (CSRs.mscratch, s.mscratch), (CSRs.mepc, s.mepc.signExtend 64),
    (CSRs.mbadaddr, s.mbadaddr.signExtend 64), (CSRs.mcause, s.mcause),
    (CSRs.mtimecmp, s.mtimecmp), (mhartid, BitVec.ofNat 64 p.id),
    (CSRs.stats, (BitVec.ofBool s.stats).setWidth 64), (mtohost, 0),
    (mfromhost, s.fromhost)] ++
  (if p.useVM then
    [(sstatus, s.readSstatus), (sip, (supervisorView s.mip).toBits.setWidth 64),
      (sie, (supervisorView s.mie).toBits.setWidth 64), (CSRs.sscratch, s.sscratch),
      (CSRs.scause, s.scause), (CSRs.sbadaddr, s.sbadaddr.signExtend 64),
      (CSRs.sptbr, s.sptbr.setWidth 64), (sasid, 0), (CSRs.sepc, s.sepc.signExtend 64),
      (CSRs.stvec, s.stvec.signExtend 64)]
    else []) ++
  List.ofFn (fun k : Fin 16 => (uarch0 + k, s.uarchCounters k)) ++
  (List.range p.nCustomMRWCSRs).map (fun k => (0x790 + k, i.customMrwCsrs k)) ++
  (List.range p.pcr.nMemSections).flatMap (fun k =>
    [(PCRs.pmemMap + k * 4, i.pcrResp.data), (PCRs.pmemMap + k * 4 + 1, i.pcrResp.data),
      (PCRs.pmemMap + k * 4 + 2, i.pcrResp.data)]) ++
  [(PCRs.pmemMapUpdate, 0)] ++
  (List.range p.pcr.nIOSections).flatMap (fun k =>
    [(PCRs.pioMap + k * 4, i.pcrResp.data), (PCRs.pioMap + k * 4 + 1, i.pcrResp.data)]) ++
  [(PCRs.pioMapUpdate, 0)] ++
  (List.range p.pcr.nCores).flatMap (fun k =>
    [(PCRs.pintMap + k * 2, i.pcrResp.data), (PCRs.pintMap + k * 2 + 1, i.pcrResp.data)]) ++
  [(PCRs.ptagctrl, i.pcrResp.data)]

/-- `decoded_addr(k)`. -/
def decodedAddr (i : CSRIn) (k : ℕ) : Bool := i.addr.toNat == k

/-- Some register has the address. -/
def addrValid : Bool := ((s.readMapping p i).lookup i.addr.toNat).isSome

/-- `io.rw.rdata`. -/
def rdata : BitVec 64 := ((s.readMapping p i).lookup i.addr.toNat).getD 0

/-- The access as the handshake with the global registers sees it. -/
def access : CSRFileIn where
  cmd := i.cmd
  addr := i.addr
  wdata := i.wdata
  prv := s.mstatus.prv
  addrValid := s.addrValid p i
  fpCsr := decodedAddr i CSRs.fflags || decodedAddr i CSRs.frm || decodedAddr i fcsr
  fs := s.status.fs
  someInterruptPending := s.someInterruptPending p i

/-! ## Instructions -/

/-- The access writes. -/
def wen : Bool := (s.access p i).cpuWen && !(s.access p i).readOnly

/-- The word a write stores. -/
def wdata : BitVec 64 :=
  match i.cmd with
  | .C => s.rdata p i &&& ~~~i.wdata
  | .S => s.rdata p i ||| i.wdata
  | _ => i.wdata

/-- `eret` at a level that may use it. -/
def insnRet : Bool :=
  i.addr.getLsbD 8 && !i.addr.getLsbD 1 && !i.addr.getLsbD 0 && (s.access p i).systemInsn &&
    (s.access p i).privSufficient

/-- `io.fatc`. -/
def insnSfenceVm : Bool :=
  i.addr.getLsbD 8 && !i.addr.getLsbD 1 && i.addr.getLsbD 0 && (s.access p i).systemInsn &&
    (s.access p i).privSufficient

/-- `mrts`, at any level. -/
def maybeInsnRedirectTrap : Bool := i.addr.getLsbD 2 && (s.access p i).systemInsn

/-- `mrts` at a level that may use it. -/
def insnRedirectTrap : Bool := s.maybeInsnRedirectTrap p i && (s.access p i).privSufficient

/-- An exception of the pipeline or of the CSR access itself. -/
def trap : Bool := i.exception || (s.access p i).csrXcpt

/-- `io.evec`. -/
def evec : BitVec 40 :=
  if s.trap p i then BitVec.ofNat 40 (s.mstatus.prv.toNat <<< 6 + MTVEC)
  else if s.maybeInsnRedirectTrap p i then s.stvec.signExtend 40
  else if s.mstatus.prv.getLsbD 1 then s.mepc
  else s.sepc

/-- `io.eret`. -/
def eret : Bool := s.insnRet p i || s.insnRedirectTrap p i

/-! ## `mstatus` after a cycle

In what follows `m` is the register before the cycle and `r` what the earlier `when` blocks have
assigned so far. -/

/-- An exception pushes machine mode. -/
def pushTrap (m r : MStatus) : MStatus :=
  { r with
    ie := false, prv := PRV_M, mprv := false, prv1 := m.prv, ie1 := m.ie, prv2 := m.prv1
    ie2 := m.ie1 }

/-- A return pops the stack. -/
def popRet (m r : MStatus) : MStatus :=
  { r with
    ie := m.ie1, prv := m.prv1, prv1 := m.prv2, ie1 := m.ie2, prv2 := PRV_U, ie2 := true }

/-- A level of the stack after a write of `new`, which is ignored if it is not supported. -/
def writePrv (new old : BitVec 2) : BitVec 2 := if new ∈ p.supportedModes then new else old

/-- A write of `x` to `mstatus`. -/
def writeMstatus (x : BitVec 64) (r : MStatus) : MStatus :=
  let new := MStatus.fromBits x
  { r with
    ie := new.ie
    ie1 := new.ie1
    mprv := new.mprv
    prv := writePrv p new.prv r.prv
    prv1 := writePrv p new.prv1 r.prv1
    -- three levels need three modes
    prv2 := if p.useVM then writePrv p new.prv2 r.prv2 else r.prv2
    ie2 := if p.useVM then new.ie2 else r.ie2
    vm := if p.useVM && new.vm == 0 then 0 else if p.useVM && new.vm == 9 then 9 else r.vm
    fs := if p.useVM || p.buildFPU then new.fs else r.fs
    xs := if p.buildRoCC then new.xs else r.xs }

/-- A write to `sstatus`: one bit chooses the level below. -/
def writeSstatus (x : BitVec 64) (r : MStatus) : MStatus :=
  let new := SStatus.fromBits x
  { r with
    ie := new.ie
    ie1 := new.pie
    prv1 := if new.ps then PRV_S else PRV_U
    mprv := new.mprv
    fs := new.fs
    xs := if p.buildRoCC then new.xs else r.xs }

/-- After the `when` block of an exception. -/
def afterTrap : MStatus := if s.trap p i then pushTrap s.mstatus s.mstatus else s.mstatus

/-- After that of a return. -/
def afterRet : MStatus :=
  if s.insnRet p i then popRet s.mstatus (s.afterTrap p i) else s.afterTrap p i

/-- After that of a redirected trap. -/
def afterRedirect : MStatus :=
  if s.insnRedirectTrap p i then { s.afterRet p i with prv := PRV_S } else s.afterRet p i

/-- After a write to `mstatus`. -/
def afterMstatusWrite : MStatus :=
  if s.wen p i && decodedAddr i CSRs.mstatus then
    writeMstatus p (s.wdata p i) (s.afterRedirect p i)
  else s.afterRedirect p i

/-- After a write to `sstatus`. -/
def afterSstatusWrite : MStatus :=
  if s.wen p i && p.useVM && decodedAddr i sstatus then
    writeSstatus p (s.wdata p i) (s.afterMstatusWrite p i)
  else s.afterMstatusWrite p i

/-- `mstatus` after a cycle. -/
def nextMstatus : MStatus := if i.reset then .initial else s.afterSstatusWrite p i

/-! ## The other registers after a cycle -/

/-- A write to the register with address `k`. -/
def writes (k : ℕ) : Bool := s.wen p i && decodedAddr i k

/-- A write to a register that is there only with virtual memory. -/
def writesVM (k : ℕ) : Bool := p.useVM && s.writes p i k

/-- An address without the bits below an instruction. -/
def clearPcLsbs {w : ℕ} (x : BitVec w) : BitVec w := ~~~(~~~x ||| 3)

/-- `reg_mcause` after an exception: the CSR file's own causes win. -/
def trapCause : BitVec 64 :=
  if (s.access p i).csrXcpt then
    if (s.access p i).insnCall then s.mstatus.prv.setWidth 64 + Causes.userEcall
    else if (s.access p i).insnBreak then Causes.breakpoint
    else Causes.illegalInstruction
  else i.cause

/-- `reg_mbadaddr` after an exception: the address of a failed load or store with a sign bit that
is wrong exactly if the address was, the `pc` otherwise. -/
def trapBadaddr : BitVec 40 :=
  if i.cause ∈ [Causes.faultLoad, Causes.misalignedLoad, Causes.faultStore,
      Causes.misalignedStore] then
    let upper : BitVec 25 := i.wdata.extractLsb' 39 25
    let lower : BitVec 39 := i.wdata.extractLsb' 0 39
    BitVec.ofBool (if lower.msb then upper == -1 else upper != 0) ++ lower
  else i.pc

/-- `mip` after a cycle. -/
def nextMip : MIP :=
  let pending := if s.mtimecmp ≤ s.time then { s.mip with mtip := true } else s.mip
  let new := MIP.fromBits (s.wdata p i)
  if i.reset then MIP.fromBits 0
  else if s.writes p i CSRs.mip then
    { pending with
      ssip := if p.useVM then new.ssip else pending.ssip
      stip := if p.useVM then new.stip else pending.stip
      msip := new.msip }
  else if s.writes p i CSRs.mtimecmp then { pending with mtip := false }
  else if s.writesVM p i sip then { pending with ssip := new.ssip }
  else pending

/-- `mie` after a cycle. -/
def nextMie : MIP :=
  let new := MIP.fromBits (s.wdata p i)
  if i.reset then MIP.fromBits 0
  else if s.writes p i CSRs.mie then
    { s.mie with
      ssip := if p.useVM then new.ssip else s.mie.ssip
      stip := if p.useVM then new.stip else s.mie.stip
      msip := new.msip
      mtip := new.mtip }
  else if s.writesVM p i sie then { s.mie with ssip := new.ssip, stip := new.stip }
  else s.mie

/-- The broadcasts the file listens to. Messages to this core count even if they are not valid:
`valid && broadcast || coreId === id`. -/
def updated (k : ℕ) : Bool :=
  (i.pcrUpdateValid && i.pcrUpdate.broadcast || i.pcrUpdate.coreId == p.id) && i.pcrUpdate.addr == k

/-- `fromhost` after a cycle: a core overwrites it only with nothing pending. -/
def nextFromhost : BitVec 64 :=
  if i.reset then 0
  else if updated p i PCRs.pfromhost then i.pcrUpdate.data
  else if s.writes p i mfromhost && s.fromhost == 0 then s.wdata p i
  else s.fromhost

/-- The flags collect until they are written. -/
def nextFflags : BitVec 5 :=
  if s.writes p i CSRs.fflags || s.writes p i fcsr then (s.wdata p i).setWidth 5
  else s.fflags ||| i.fcsrFlags.getD 0

/-- The registers after a cycle. -/
def next : CSRRegs where
  mstatus := s.nextMstatus p i
  mie := s.nextMie p i
  mip := s.nextMip p i
  mepc :=
    if s.writes p i CSRs.mepc then (clearPcLsbs (s.wdata p i)).setWidth 40
    else if s.trap p i then clearPcLsbs i.pc
    else s.mepc
  mcause :=
    -- only the top bit and the five low ones exist
    if s.writes p i CSRs.mcause then s.wdata p i &&& BitVec.ofNat 64 (2 ^ 63 + 31)
    else if s.trap p i then s.trapCause p i
    else s.mcause
  mbadaddr :=
    if s.writes p i CSRs.mbadaddr then (s.wdata p i).setWidth 40
    else if s.trap p i then trapBadaddr i
    else s.mbadaddr
  mscratch := if s.writes p i CSRs.mscratch then s.wdata p i else s.mscratch
  sepc :=
    if s.writesVM p i CSRs.sepc then (clearPcLsbs (s.wdata p i)).setWidth 40
    else if s.insnRedirectTrap p i then s.mepc
    else s.sepc
  scause := if s.insnRedirectTrap p i then s.mcause else s.scause
  sbadaddr := if s.insnRedirectTrap p i then s.mbadaddr else s.sbadaddr
  sscratch := if s.writesVM p i CSRs.sscratch then s.wdata p i else s.sscratch
  stvec := if s.writesVM p i CSRs.stvec then (clearPcLsbs (s.wdata p i)).setWidth 39 else s.stvec
  mtimecmp := if s.writes p i CSRs.mtimecmp then s.wdata p i else s.mtimecmp
  sptbr :=
    if s.writesVM p i CSRs.sptbr then (s.wdata p i).extractLsb' 12 20 ++ (0 : BitVec 12)
    else s.sptbr
  fromhost := s.nextFromhost p i
  stats :=
    if i.reset then false
    else if s.writes p i CSRs.stats then (s.wdata p i).getLsbD 0
    else s.stats
  time := if updated p i PCRs.ptime then i.pcrUpdate.data else s.time
  instret :=
    if i.reset then 0
    else if s.writes p i instretw then s.wdata p i
    else s.instret + i.retire.setWidth 64
  cycle := if i.reset then 0 else s.cycle + 1
  uarchCounters k := if i.reset then 0 else s.uarchCounters k + (i.uarchCounters k).setWidth 64
  fflags := s.nextFflags p i
  frm :=
    if s.writes p i CSRs.frm then (s.wdata p i).setWidth 3
    else if s.writes p i fcsr then (s.wdata p i).extractLsb' 5 3
    else s.frm
  port :=
    s.port.next p.pcr p.id (s.access p i) i.reset
      (if i.pcrRespValid then some i.pcrResp else none)

/-- The CSR file: every access may come in every cycle. -/
abbrev machine : Machine CSRRegs CSRIn where
  ok _ _ := True
  next s i := s.next p i

/-- A cycle without an exception and without a reset. -/
def Quiet (s : CSRRegs) (i : CSRIn) : Prop :=
  i.reset = false ∧ i.exception = false ∧ (s.access p i).csrXcpt = false
deriving Decidable

/-! ## The privilege stack -/

section Stack

variable {P : BitVec 2 → Prop} {p s i} {m r : MStatus}

theorem stack_pushTrap (hM : P PRV_M) (hm : m.Stack P) : (pushTrap m r).Stack P :=
  ⟨hM, hm.1, hm.2.1⟩

theorem stack_popRet (hU : P PRV_U) (hm : m.Stack P) : (popRet m r).Stack P :=
  ⟨hm.2.1, hm.2.2, hU⟩

theorem writePrv_of_forall {new old : BitVec 2} (h : ∀ v ∈ p.supportedModes, P v) (hold : P old) :
    P (writePrv p new old) := by
  unfold writePrv
  split
  · exact h new ‹_›
  · exact hold

theorem stack_writeMstatus {x : BitVec 64} (h : ∀ v ∈ p.supportedModes, P v) (hr : r.Stack P) :
    (writeMstatus p x r).Stack P := by
  refine ⟨writePrv_of_forall h hr.1, writePrv_of_forall h hr.2.1, ?_⟩
  change P (if p.useVM then writePrv p (MStatus.fromBits x).prv2 r.prv2 else r.prv2)
  split
  · exact writePrv_of_forall h hr.2.2
  · exact hr.2.2

theorem stack_writeSstatus {x : BitVec 64} (hS : P PRV_S) (hU : P PRV_U) (hr : r.Stack P) :
    (writeSstatus p x r).Stack P := by
  refine ⟨hr.1, ?_, hr.2.2⟩
  change P (if (SStatus.fromBits x).ps then PRV_S else PRV_U)
  split
  · exact hS
  · exact hU

/-- What each instruction needs in order to keep a property of all levels of the stack. -/
theorem stack_nextMstatus (hU : P PRV_U) (htrap : s.trap p i → P PRV_M)
    (hredirect : s.insnRedirectTrap p i → P PRV_S)
    (hm : s.wen p i → decodedAddr i CSRs.mstatus → ∀ v ∈ p.supportedModes, P v)
    (hs : s.wen p i → decodedAddr i sstatus → P PRV_S)
    (hreset : i.reset → P PRV_M) (h : s.mstatus.Stack P) : (s.nextMstatus p i).Stack P := by
  have h₁ : (s.afterTrap p i).Stack P := by
    unfold afterTrap
    split
    · exact stack_pushTrap (htrap ‹_›) h
    · exact h
  have h₂ : (s.afterRet p i).Stack P := by
    unfold afterRet
    split
    · exact stack_popRet hU h
    · exact h₁
  have h₃ : (s.afterRedirect p i).Stack P := by
    unfold afterRedirect
    split
    · exact ⟨hredirect ‹_›, h₂.2⟩
    · exact h₂
  have h₄ : (s.afterMstatusWrite p i).Stack P := by
    unfold afterMstatusWrite
    split
    case isTrue hw =>
      rw [Bool.and_eq_true] at hw
      exact stack_writeMstatus (hm hw.1 hw.2) h₃
    case isFalse => exact h₃
  have h₅ : (s.afterSstatusWrite p i).Stack P := by
    unfold afterSstatusWrite
    split
    case isTrue hw =>
      rw [Bool.and_eq_true, Bool.and_eq_true] at hw
      exact stack_writeSstatus (hs hw.1.1 hw.2) hU h₄
    case isFalse => exact h₄
  unfold nextMstatus
  split
  · exact ⟨hreset ‹_›, hreset ‹_›, hU⟩
  · exact h₅

end Stack

/-! ## Hypervisor mode never appears -/

theorem ne_prvH_of_mem_supportedModes {v : BitVec 2} (h : v ∈ p.supportedModes) : v ≠ PRV_H := by
  unfold CSRParameters.supportedModes at h
  split at h <;> simp only [List.cons_append, List.nil_append, List.append_nil, List.mem_cons,
    List.not_mem_nil, or_false] at h
  · rcases h with rfl | rfl | rfl <;> decide
  · rcases h with rfl | rfl <;> decide

theorem stack_ne_prvH_next (h : s.mstatus.Stack (· ≠ PRV_H)) :
    (s.next p i).mstatus.Stack (· ≠ PRV_H) :=
  stack_nextMstatus (by decide) (fun _ => by decide) (fun _ => by decide)
    (fun _ _ _ hv => ne_prvH_of_mem_supportedModes p hv) (fun _ _ => by decide)
    (fun _ => by decide) h

theorem stack_ne_prvH_reset (h : i.reset) : (s.next p i).mstatus.Stack (· ≠ PRV_H) := by
  change (s.nextMstatus p i).Stack _
  unfold nextMstatus
  rw [if_pos h]
  decide

/-! ## No level rises without an exception -/

theorem privSufficient_of_wen (h : s.wen p i) : (s.access p i).privSufficient := by
  simp only [wen, CSRFileIn.cpuWen, Bool.and_eq_true] at h
  exact h.1.2

/-- The level an address asks for. -/
theorem extractLsb'_le_prv (h : (s.access p i).privSufficient) :
    i.addr.extractLsb' 8 2 ≤ s.mstatus.prv :=
  of_decide_eq_true h

theorem addr_eq_of_decodedAddr {k : ℕ} (h : decodedAddr i k) : i.addr = BitVec.ofNat 12 k := by
  have h' : i.addr.toNat = k := by simpa [decodedAddr] using h
  rw [← h', BitVec.ofNat_toNat, BitVec.setWidth_eq]

/-- Whoever writes a register is at the level that bits 9 and 8 of its address say. -/
theorem level_le_prv_of_wen {k : ℕ} (hw : s.wen p i) (ha : decodedAddr i k) :
    (BitVec.ofNat 12 k).extractLsb' 8 2 ≤ s.mstatus.prv := by
  rw [← addr_eq_of_decodedAddr i ha]
  exact extractLsb'_le_prv p s i (privSufficient_of_wen p s i hw)

/-- A privileged instruction that raises no exception has bit 8 of its address set, and so is not
for user mode. -/
theorem prvS_le_extractLsb' {a : BitVec 12} (h : a.getLsbD 8) : PRV_S ≤ a.extractLsb' 8 2 := by
  have hbit : (a.extractLsb' 8 2).getLsbD 0 := by simpa using h
  generalize a.extractLsb' 8 2 = v at hbit ⊢
  revert v
  decide

theorem getLsbD_addr_of_quiet (h : (s.access p i).csrXcpt = false)
    (hsys : (s.access p i).systemInsn) : i.addr.getLsbD 8 := by
  by_contra hbit
  rw [Bool.not_eq_true] at hbit
  simp only [CSRFileIn.csrXcpt, Bool.or_eq_false_iff] at h
  obtain ⟨⟨-, hcall⟩, hbreak⟩ := h
  have haddr : (s.access p i).addr = i.addr := rfl
  -- with bit 8 clear the instruction is a call or a breakpoint, by bit 0
  simp only [CSRFileIn.insnCall, CSRFileIn.insnBreak, haddr, hbit, hsys, Bool.not_false,
    Bool.true_and, Bool.and_true, Bool.not_eq_false'] at hcall hbreak
  exact absurd (hcall.symm.trans hbreak) (by decide)

theorem prvS_le_of_insnRedirectTrap (h : (s.access p i).csrXcpt = false)
    (hr : s.insnRedirectTrap p i) : PRV_S ≤ s.mstatus.prv := by
  simp only [insnRedirectTrap, maybeInsnRedirectTrap, Bool.and_eq_true] at hr
  obtain ⟨⟨-, hsys⟩, hpriv⟩ := hr
  have hbit := getLsbD_addr_of_quiet p s i h hsys
  exact BitVec.le_trans (prvS_le_extractLsb' hbit) (extractLsb'_le_prv p s i hpriv)

theorem le_prvM (v : BitVec 2) : v ≤ PRV_M := by
  revert v
  decide

/-- Without an exception no level of the stack rises above the highest one before: whoever may
write a level is at that level already. -/
theorem stack_le_next {l : BitVec 2} (hq : Quiet p s i) (h : s.mstatus.Stack (· ≤ l)) :
    (s.next p i).mstatus.Stack (· ≤ l) := by
  obtain ⟨hreset, hexc, hxcpt⟩ := hq
  have hnotrap : s.trap p i = false := by simp [trap, hexc, hxcpt]
  refine stack_nextMstatus (Nat.zero_le _) ?_ ?_ ?_ ?_ ?_ h
  · exact fun ht => absurd ht (by simp [hnotrap])
  · exact fun hr => BitVec.le_trans (prvS_le_of_insnRedirectTrap p s i hxcpt hr) h.1
  · -- the address of `mstatus` asks for machine mode, the highest level there is
    intro hw ha v _
    have hM : PRV_M ≤ s.mstatus.prv := level_le_prv_of_wen p s i hw ha
    exact BitVec.le_trans (le_prvM v) (BitVec.le_trans hM h.1)
  · intro hw ha
    have hS : PRV_S ≤ s.mstatus.prv := level_le_prv_of_wen p s i hw ha
    exact BitVec.le_trans hS h.1
  · exact fun ht => absurd ht (by simp [hreset])

theorem lt_prvM_iff (v : BitVec 2) : v < PRV_M ↔ v ≤ PRV_H := by
  revert v
  decide

/-- Whatever instructions a core executes, no level of its privilege stack is ever hypervisor
mode, neither after a reset nor from any other state without it. And if all levels are below
machine mode they stay below, until there is an exception. -/
theorem privilege_stack_contained (p : CSRParameters) :
    (∀ (s : CSRRegs) (i : CSRIn) (is : List CSRIn), i.reset = true →
      ((machine p).run s (i :: is)).mstatus.Stack (· ≠ PRV_H)) ∧
    (∀ (s : CSRRegs) (is : List CSRIn), s.mstatus.Stack (· ≠ PRV_H) →
      ((machine p).run s is).mstatus.Stack (· ≠ PRV_H)) ∧
    (∀ (s : CSRRegs) (is : List CSRIn), s.mstatus.Stack (· < PRV_M) →
      ((machine p).restrict (Quiet p)).Legal s is →
      ((machine p).run s is).mstatus.Stack (· < PRV_M)) := by
  have hfree (s : CSRRegs) (is : List CSRIn) (h : s.mstatus.Stack (· ≠ PRV_H)) :
      ((machine p).run s is).mstatus.Stack (· ≠ PRV_H) :=
    Machine.invariant_run (m := machine p) (P := fun s => s.mstatus.Stack (· ≠ PRV_H))
      (fun s i h _ => stack_ne_prvH_next p s i h) h
      (Machine.legal_of_forall_ok (machine p) (fun _ _ => trivial) s is)
  refine ⟨fun s i is hi => hfree _ is (stack_ne_prvH_reset p s i hi), hfree, ?_⟩
  intro s is hs hl
  simp only [lt_prvM_iff] at hs ⊢
  have h := Machine.invariant_run (m := (machine p).restrict (Quiet p))
    (P := fun s => s.mstatus.Stack (· ≤ PRV_H)) (fun s i h hi => stack_le_next p s i hi.2 h) hs hl
  rwa [Machine.run_restrict] at h

/-- A core in supervisor mode that came from user mode. -/
def supervisor : CSRRegs where
  mstatus := { MStatus.initial with prv := PRV_S, prv1 := PRV_U }
  mie := MIP.fromBits 0
  mip := MIP.fromBits 0
  mepc := 0
  mcause := 0
  mbadaddr := 0
  mscratch := 0
  sepc := 0
  scause := 0
  sbadaddr := 0
  sscratch := 0
  stvec := 0
  mtimecmp := 0
  sptbr := 0
  fromhost := 0
  stats := false
  time := 0
  instret := 0
  cycle := 0
  uarchCounters _ := 0
  fflags := 0
  frm := 0
  port := ⟨false, false⟩

/-- The supervisor sets the bit for the level below in `sstatus`, returns to that level, which is
its own, and returns once more. -/
def returns : List CSRIn :=
  [{ cmd := .S, addr := 0x100, wdata := 0x10 }, { cmd := .I, addr := 0x100 },
    { cmd := .I, addr := 0x100 }]

theorem privilege_stack_contained_returns :
    ((machine .defaultConfig).restrict (Quiet .defaultConfig)).Legal supervisor returns ∧
    ((machine .defaultConfig).run supervisor [{ reset := true }]).mstatus.Stack (· ≠ PRV_H) ∧
    ((machine .defaultConfig).run supervisor returns).mstatus.Stack (· ≠ PRV_H) ∧
    ((machine .defaultConfig).run supervisor returns).mstatus.Stack (· < PRV_M) := by
  have hl : ((machine .defaultConfig).restrict (Quiet .defaultConfig)).Legal supervisor
      returns := by
    decide +kernel
  obtain ⟨hreset, hfree, hbelow⟩ := privilege_stack_contained .defaultConfig
  exact ⟨hl, hreset supervisor { reset := true } [] rfl, hfree supervisor returns (by decide),
    hbelow supervisor returns (by decide) hl⟩

end CSRRegs

end TaggedRiscv
