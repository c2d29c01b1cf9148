import TaggedRiscv.Lib.Arbiter
import Mathlib.Data.BitVec

/-!
# The global control registers (`PCRControl`)

One controller outside the cores holds the registers all cores share. A round-robin arbiter picks
one core's request per cycle; accepted writes to the maps and to the tag control register are
broadcast to all cores in the same cycle.
-/

namespace TaggedRiscv

/-! ## Addresses, commands and messages -/

namespace PCRs

def ptime : ℕ := 0x701
def ptohost : ℕ := 0x780
def pfromhost : ℕ := 0x781
def preset : ℕ := 0x782
def ptagctrl : ℕ := 0x800
def pmemMap : ℕ := 0x7a0
def pmemMapUpdate : ℕ := 0x7af
def pioMap : ℕ := 0x7b0
def pioMapUpdate : ℕ := 0x7bf
def pintMap : ℕ := 0x7c0

end PCRs

/-- The CSR access commands. -/
inductive CSR
  | N | W | S | C | I | R
  deriving DecidableEq, Repr

/-- The sizes and reset values the controller is built with. -/
structure PCRParameters where
  nCores : ℕ
  nMemSections : ℕ
  nIOSections : ℕ
  initMemBase : BitVec 64
  initMemMask : BitVec 64
  initPhyBase : BitVec 64
  initIOBase : BitVec 64
  initIOMask : BitVec 64
  initTagCtrl : BitVec 64

/-- The shipped configuration: one core, two memory and two IO sections. -/
def PCRParameters.defaultConfig : PCRParameters where
  nCores := 1
  nMemSections := 2
  nIOSections := 2
  initMemBase := 0x00000000
  initMemMask := 0x7fffffff
  initPhyBase := 0x00000000
  initIOBase := 0x80000000
  initIOMask := 0x0fffffff
  initTagCtrl := 0x00000007

structure PCRReq where
  coreId : ℕ
  addr : BitVec 12
  cmd : CSR
  data : BitVec 64
  deriving DecidableEq, Repr

structure PCRResp where
  coreId : ℕ
  data : BitVec 64
  deriving DecidableEq, Repr

structure PCRUpdate where
  broadcast : Bool
  coreId : ℕ
  addr : ℕ
  data : BitVec 64
  deriving DecidableEq, Repr

/-- The registers of `PCRControl`, with those of its arbiter and counter. -/
structure PCRControl (p : PCRParameters) where
  regTime : BitVec 64
  regMemMapCoreBase : Fin p.nMemSections → BitVec 64
  regMemMapMask : Fin p.nMemSections → BitVec 64
  regMemMapPhyBase : Fin p.nMemSections → BitVec 64
  regIOMapBase : Fin p.nIOSections → BitVec 64
  regIOMapMask : Fin p.nIOSections → BitVec 64
  regTohost : BitVec 64
  regTohostCoreId : ℕ
  regIntEn : Fin p.nCores → BitVec 64
  regIntPending : BitVec 64
  regTagCtrl : BitVec 64
  wallClock : BitVec 70
  softReset : Bool
  softResetCnt : ℕ
  lastGrant : ℕ

/-- The inputs of `PCRControl` in one cycle; an absent message is one whose
`valid` is low. -/
structure PCRControlIn (p : PCRParameters) where
  reset : Bool
  pcrReq : Fin p.nCores → Option PCRReq
  hostReqReady : Bool
  hostResp : Option (ℕ × BitVec 64)
  interrupt : BitVec 64

/-- The data of an update of the register at `addr`. -/
def updateAt (update : Option PCRUpdate) (addr : ℕ) : Option (BitVec 64) :=
  update.bind fun v => if v.addr = addr then some v.data else none

namespace PCRControl

variable {p : PCRParameters} (s : PCRControl p) (i : PCRControlIn p)

/-! ## Request arbitration and read data -/

/-- The core whose request `req_arb` puts on its output. -/
def reqChosen : Option (Fin p.nCores) :=
  Sync.rrSelect (fun c => (i.pcrReq c).isSome) s.lastGrant

/-- `req_arb.io.out`. -/
def reqOut : Option PCRReq := (s.reqChosen i).bind i.pcrReq

/-- `req_arb.io.out.ready`: only a `ptohost` access waits for the host. -/
def reqReady : Bool :=
  s.regTohost == 0 || (s.reqOut i).any fun r => r.addr.toNat != PCRs.ptohost

/-- The request accepted in this cycle (`req_arb.io.out.fire()`). -/
def reqFire : Option PCRReq := if s.reqReady i then s.reqOut i else none

/-- `read_mapping` in its order of insertion; a later entry replaces an earlier
one of the same address. -/
def readMapping : List (ℕ × BitVec 64) :=
  [(PCRs.ptime, s.regTime), (PCRs.ptohost, 0), (PCRs.preset, 0), (PCRs.ptagctrl, s.regTagCtrl)] ++
  (List.finRange p.nMemSections).flatMap (fun k : Fin p.nMemSections =>
    [(PCRs.pmemMap + k * 4 + 0, s.regMemMapCoreBase k),
      (PCRs.pmemMap + k * 4 + 1, s.regMemMapMask k),
      (PCRs.pmemMap + k * 4 + 2, s.regMemMapPhyBase k)]) ++
  [(PCRs.pmemMapUpdate, 0)] ++
  (List.finRange p.nIOSections).flatMap (fun k : Fin p.nIOSections =>
    [(PCRs.pioMap + k * 4 + 0, s.regIOMapBase k), (PCRs.pioMap + k * 4 + 1, s.regIOMapMask k)]) ++
  [(PCRs.pioMapUpdate, 0)] ++
  (List.finRange p.nCores).flatMap (fun c : Fin p.nCores =>
    [(PCRs.pintMap + c * 2 + 0, s.regIntEn c),
      (PCRs.pintMap + c * 2 + 1, s.regIntEn c &&& s.regIntPending)])

/-- `io.pcr_resp.bits.data`: the register at the address, 0 where there is none. -/
def readData (addr : BitVec 12) : BitVec 64 :=
  (s.readMapping.reverse.lookup addr.toNat).getD 0

/-- The answer to the accepted request, in the same cycle. -/
def pcrResp : Option PCRResp :=
  (s.reqFire i).map fun r => ⟨r.coreId, s.readData r.addr⟩

/-! ## Writes and the broadcast -/

/-- What a write request stores: the operand, or the old value with the operand's
bits cleared or set. -/
def wdata (r : PCRReq) : BitVec 64 :=
  match r.cmd with
  | .C => s.readData r.addr &&& ~~~r.data
  | .S => s.readData r.addr ||| r.data
  | _ => r.data

/-- The write accepted in this cycle (`wen`): its address and its data. -/
def write : Option (ℕ × BitVec 64) :=
  (s.reqFire i).bind fun r => if r.cmd = .R then none else some (r.addr.toNat, s.wdata r)

/-- The data written at address `k` in this cycle (`wen && decoded_addr(k)`). -/
def writeAt (k : ℕ) : Option (BitVec 64) :=
  (s.write i).bind fun w => if w.1 = k then some w.2 else none

/-- The addresses whose writes raise `update_arb.io.in(0).valid`. The loop over
the IO map runs over the memory sections, as in the source. -/
def updateAddrs (p : PCRParameters) : List ℕ :=
  (List.range p.nMemSections).flatMap (fun k =>
    [PCRs.pmemMap + k * 4 + 0, PCRs.pmemMap + k * 4 + 1, PCRs.pmemMap + k * 4 + 2]) ++
  [PCRs.pmemMapUpdate] ++
  (List.range p.nMemSections).flatMap (fun k =>
    [PCRs.pioMap + k * 4 + 0, PCRs.pioMap + k * 4 + 1]) ++
  [PCRs.pioMapUpdate, PCRs.ptagctrl]

/-- The input 0 of `update_arb`: the write of this cycle, if it is broadcast. -/
def writeUpdate : Option PCRUpdate :=
  (s.write i).bind fun w => if w.1 ∈ updateAddrs p then some ⟨true, 0, w.1, w.2⟩ else none

/-- The input 1 of `update_arb`: a value from the host. -/
def hostUpdate : Option PCRUpdate :=
  i.hostResp.map fun r => ⟨false, r.1, PCRs.pfromhost, r.2⟩

/-- The input 2 of `update_arb`: the time, once in 64 cycles. -/
def timeUpdate : Option PCRUpdate :=
  if s.wallClock.toNat % 64 = 0 then some ⟨true, 0, PCRs.ptime, s.regTime⟩ else none

/-- `io.pcr_update`: the first of the three inputs of `update_arb`. -/
def pcrUpdate : Option PCRUpdate :=
  s.writeUpdate i <|> hostUpdate i <|> s.timeUpdate

/-- `io.irq` of a core. -/
def irq (c : Fin p.nCores) : Bool := s.regIntPending &&& s.regIntEn c != 0

/-! ## The clock edge -/

/-- `soft_reset_done`: the counter of 20 cycles wraps. -/
def softResetDone : Bool := s.softReset && s.softResetCnt == 19

/-- A map register of section `k` at offset `off`: written by a request, else
preset in a reset cycle. -/
def mapReg (writable : Bool) (addr : ℕ) (preset : Option (BitVec 64)) (old : BitVec 64) :
    BitVec 64 :=
  match if writable then s.writeAt i addr else none with
  | some d => d
  | none => if i.reset then preset.getD old else old

/-- The registers of the controller after the clock edge. -/
def next : PCRControl p where
  regTime := (s.wallClock >>> 6).setWidth 64
  regMemMapCoreBase k := s.mapReg i true (PCRs.pmemMap + k * 4 + 0)
    (if k.val = 0 then some p.initMemBase else none) (s.regMemMapCoreBase k)
  regMemMapMask k := s.mapReg i true (PCRs.pmemMap + k * 4 + 1)
    (some (if k.val = 0 then p.initMemMask else 0)) (s.regMemMapMask k)
  regMemMapPhyBase k := s.mapReg i true (PCRs.pmemMap + k * 4 + 2)
    (if k.val = 0 then some p.initPhyBase else none) (s.regMemMapPhyBase k)
  regIOMapBase k := s.mapReg i (k.val < p.nMemSections) (PCRs.pioMap + k * 4 + 0)
    (if k.val = 0 then some p.initIOBase else none) (s.regIOMapBase k)
  regIOMapMask k := s.mapReg i (k.val < p.nMemSections) (PCRs.pioMap + k * 4 + 1)
    (some (if k.val = 0 then p.initIOMask else 0)) (s.regIOMapMask k)
  regTohost :=
    if i.reset || (s.regTohost != 0 && i.hostReqReady) then 0
    else (s.writeAt i PCRs.ptohost).getD s.regTohost
  regTohostCoreId :=
    match s.writeAt i PCRs.ptohost, s.reqFire i with
    | some _, some r => r.coreId
    | _, _ => s.regTohostCoreId
  regIntEn c := (s.writeAt i (PCRs.pintMap + c * 2 + 0)).getD (s.regIntEn c)
  regIntPending :=
    if i.reset then 0
    else (List.finRange p.nCores).foldl (fun m c => m ||| s.regIntEn c) 0 &&& i.interrupt
  regTagCtrl := s.mapReg i true PCRs.ptagctrl (some p.initTagCtrl) s.regTagCtrl
  wallClock := if i.reset then 0 else s.wallClock + 1
  softReset :=
    if i.reset then false
    else if (s.reqFire i).any fun r => r.addr.toNat == PCRs.preset then true
    else if s.softResetDone then false
    else s.softReset
  softResetCnt :=
    if i.reset then 0
    else if s.softReset then (if s.softResetCnt = 19 then 0 else s.softResetCnt + 1)
    else s.softResetCnt
  lastGrant :=
    if i.reset then 0
    else match s.reqFire i, s.reqChosen i with
      | some _, some c => c.val
      | _, _ => s.lastGrant

/-! ## What is broadcast -/

/-- Neither the host port nor the clock touches the register, and a write to it always wins the
arbiter. -/
theorem updateAt_pcrUpdate {addr : ℕ} (hhost : addr ≠ PCRs.pfromhost) (htime : addr ≠ PCRs.ptime)
    (hmem : addr ∈ updateAddrs p) : updateAt (s.pcrUpdate i) addr = s.writeAt i addr := by
  have hother : updateAt (hostUpdate i <|> s.timeUpdate) addr = none := by
    cases hr : i.hostResp with
    | some r => simp [updateAt, hostUpdate, hr, hhost.symm]
    | none =>
      by_cases ht : s.wallClock.toNat % 64 = 0 <;>
        simp [updateAt, hostUpdate, timeUpdate, hr, ht, htime.symm]
  cases hw : s.write i with
  | none => simpa [pcrUpdate, writeUpdate, writeAt, hw] using hother
  | some w =>
    by_cases ha : w.1 ∈ updateAddrs p
    · simp [pcrUpdate, writeUpdate, writeAt, hw, ha, updateAt]
    · have hne : w.1 ≠ addr := fun h => ha (h ▸ hmem)
      simpa [pcrUpdate, writeUpdate, writeAt, hw, ha, hne] using hother

end PCRControl

end TaggedRiscv
