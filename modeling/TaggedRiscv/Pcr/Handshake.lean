import TaggedRiscv.Pcr.TagCtrl

/-!
# The requests of the cores to the global control registers

A CSR file sends an access to a mapped register to `PCRControl`, which answers in the cycle in
which it accepts it. A request that is refused is replayed, but it also sets `pcr_wait_resp`,
unless the controller answers some other core in that cycle. The core then waits until it is
reset. The comparison that should exempt answers to other cores is `!coreId === id`, where the
negation applies to `coreId`: it is right for core 0, and for other cores it only looks for
answers to core 0.
-/

namespace TaggedRiscv

open Sync PCRs

namespace CSRs

def time : ℕ := 0xc01
def timew : ℕ := 0x901
def stime : ℕ := 0xd01
def stimew : ℕ := 0xa01
def mtime : ℕ := ptime
def mtohost : ℕ := ptohost
def mreset : ℕ := preset

end CSRs

/-- The registers of a CSR file that decide whether its core stalls. -/
structure CSRFile where
  pcrWaitResp : Bool
  regWfi : Bool
  deriving DecidableEq

/-- The access of a core in a cycle, its privilege level, and what the rest of the CSR
file says of the address and of pending interrupts. -/
structure CSRFileIn where
  cmd : CSR
  addr : BitVec 12
  wdata : BitVec 64
  prv : BitVec 2
  addrValid : Bool
  fpCsr : Bool
  fs : BitVec 2
  someInterruptPending : Bool

namespace CSRFileIn

variable (i : CSRFileIn)

/-- A system instruction. -/
def systemInsn : Bool := i.cmd == .I

/-- The access reads. -/
def cpuRen : Bool := i.cmd != .N && !i.systemInsn

/-- The level may use the register. -/
def privSufficient : Bool := i.addr.extractLsb' 8 2 ≤ i.prv

/-- The register cannot be written. -/
def readOnly : Bool := i.addr.getLsbD 11 && i.addr.getLsbD 10

/-- The access writes. -/
def cpuWen : Bool := i.cpuRen && i.cmd != .R && i.privSufficient

/-- `ecall`. -/
def insnCall : Bool := !i.addr.getLsbD 8 && !i.addr.getLsbD 0 && i.systemInsn

/-- `ebreak`. -/
def insnBreak : Bool := !i.addr.getLsbD 8 && i.addr.getLsbD 0 && i.systemInsn

/-- `wfi`. -/
def insnWfi : Bool :=
  i.addr.getLsbD 8 && i.addr.getLsbD 1 && !i.addr.getLsbD 0 && i.systemInsn && i.privSufficient

/-- The access is an exception. -/
def csrXcpt : Bool :=
  (i.cpuWen && i.readOnly) ||
    (i.cpuRen && (!i.privSufficient || !i.addrValid || i.fpCsr && i.fs == 0)) ||
    (i.systemInsn && !i.privSufficient) || i.insnCall || i.insnBreak

end CSRFileIn

/-- `pcr_mapping` in its order of insertion. -/
def pcrMapping (p : PCRParameters) : List (ℕ × ℕ) :=
  [(CSRs.time, ptime), (CSRs.timew, ptime), (CSRs.stime, ptime),
    (CSRs.stimew, ptime), (CSRs.mtime, ptime), (CSRs.mreset, preset),
    (CSRs.mtohost, ptohost)] ++
  (List.range p.nMemSections).flatMap (fun k =>
    [(pmemMap + k * 4, pmemMap + k * 4), (pmemMap + k * 4 + 1, pmemMap + k * 4 + 1),
      (pmemMap + k * 4 + 2, pmemMap + k * 4 + 2)]) ++
  [(pmemMapUpdate, pmemMapUpdate)] ++
  (List.range p.nIOSections).flatMap (fun k =>
    [(pioMap + k * 4, pioMap + k * 4), (pioMap + k * 4 + 1, pioMap + k * 4 + 1)]) ++
  [(pioMapUpdate, pioMapUpdate)] ++
  (List.range p.nCores).flatMap (fun k =>
    [(pintMap + k * 2, pintMap + k * 2), (pintMap + k * 2 + 1, pintMap + k * 2 + 1)]) ++
  [(ptagctrl, ptagctrl)]

namespace CSRFile

variable (p : PCRParameters) (s : CSRFile) (id : ℕ) (i : CSRFileIn)

/-- The register of the controller that an address is mapped to. -/
def pcrAddr : Option ℕ := (pcrMapping p).lookup i.addr.toNat

/-- A request to the global registers. -/
def pcrReqValid : Bool :=
  (pcrAddr p i).isSome && i.cpuRen && i.privSufficient && !i.csrXcpt && !s.pcrWaitResp

/-- `io.pcr.req`. -/
def pcrReq : Option PCRReq :=
  if s.pcrReqValid p i then
    (pcrAddr p i).map fun a => ⟨id, BitVec.ofNat 12 a, i.cmd, i.wdata⟩
  else none

/-- `io.csr_replay`. -/
def csrReplay (reqReady : Bool) : Bool := s.pcrReqValid p i && !reqReady

/-- `io.csr_stall`. -/
def csrStall (resp : Option PCRResp) : Bool :=
  s.regWfi || s.pcrWaitResp && !resp.any fun r => r.coreId == id

/-- `!io.pcr.resp.bits.coreId === UInt(id)`: a bit that says whether `coreId` is 0 is
compared with the number of the core. -/
def notForMe (r : PCRResp) : Bool := (if r.coreId = 0 then 1 else 0) == id

/-- The registers after a cycle. -/
def next (reset : Bool) (resp : Option PCRResp) : CSRFile :=
  { pcrWaitResp :=
      if reset then false
      else if s.pcrReqValid p i && resp.all (notForMe id) then true
      else if resp.any fun r => r.coreId == id then false
      else s.pcrWaitResp
    regWfi :=
      if reset then false
      else if i.someInterruptPending then false
      else if i.insnWfi then true
      else s.regWfi }

end CSRFile

/-! ## All cores and the controller -/

/-- The controller and the CSR files. -/
structure PcrSystem (p : PCRParameters) where
  pcr : PCRControl p
  csr : Fin p.nCores → CSRFile

/-- The inputs of a cycle. -/
structure PcrSystemIn (p : PCRParameters) where
  reset : Bool
  core : Fin p.nCores → CSRFileIn
  hostReqReady : Bool
  hostResp : Option (ℕ × BitVec 64)
  interrupt : BitVec 64

namespace PcrSystem

variable {p : PCRParameters} (s : PcrSystem p) (i : PcrSystemIn p) (c : Fin p.nCores)

/-- The inputs of the controller. -/
def pcrIn : PCRControlIn p :=
  { reset := i.reset, pcrReq := fun c => (s.csr c).pcrReq p c (i.core c)
    hostReqReady := i.hostReqReady, hostResp := i.hostResp, interrupt := i.interrupt }

/-- The answer of the controller, which all cores see. -/
def resp : Option PCRResp := s.pcr.pcrResp (s.pcrIn i)

/-- `io.pcr.req.ready` of a core. -/
def reqReady : Bool :=
  s.pcr.reqReady (s.pcrIn i) && s.pcr.reqChosen (s.pcrIn i) == some c

/-- The core has a request accepted (`req.fire`). -/
def accepted : Bool := (s.csr c).pcrReqValid p (i.core c) && s.reqReady i c

/-- The core has its request answered. -/
def delivered : Bool := (s.resp i).any fun r => r.coreId == c.val

/-- The registers after a cycle. The cores are also reset by the controller. -/
def next : PcrSystem p :=
  { pcr := s.pcr.next (s.pcrIn i)
    csr := fun c => (s.csr c).next p c (i.core c) (i.reset || s.pcr.softReset) (s.resp i) }

/-- The cores that have a request accepted and not yet answered. -/
def owed (o : Fin p.nCores → Bool) (s : PcrSystem p) (i : PcrSystemIn p) : Fin p.nCores → Bool :=
  fun c => (o c || s.accepted i c) && !s.delivered i c

/-- No refused request makes its core wait: the controller answers some other core in
that cycle, and `notForMe` does not take note. -/
def Untroubled : Prop :=
  ∀ c, (s.csr c).csrReplay p (i.core c) (s.reqReady i c) = true →
    (s.resp i).any (fun r => !CSRFile.notForMe c r) = true
deriving Decidable

/-- One cycle with any accesses of the cores and any behaviour of the host. -/
def machine (p : PCRParameters) : Machine (PcrSystem p) (PcrSystemIn p) where
  ok _ _ := True
  next := next

/-- The same, where no refused request makes its core wait. -/
abbrev untroubledMachine (p : PCRParameters) : Machine (PcrSystem p) (PcrSystemIn p) where
  ok := Untroubled
  next := next

/-! ## One cycle -/

variable {s i c}

theorem pcrReq_isSome : ((s.csr c).pcrReq p c (i.core c)).isSome =
    (s.csr c).pcrReqValid p (i.core c) := by
  unfold CSRFile.pcrReq
  cases hv : (s.csr c).pcrReqValid p (i.core c) with
  | false => simp
  | true =>
    have hmap : (CSRFile.pcrAddr p (i.core c)).isSome := by
      simp only [CSRFile.pcrReqValid, Bool.and_eq_true] at hv
      exact hv.1.1.1.1
    simpa using hmap

theorem coreId_of_pcrReq {r : PCRReq} (h : (s.csr c).pcrReq p c (i.core c) = some r) :
    r.coreId = c := by
  unfold CSRFile.pcrReq at h
  split_ifs at h
  obtain ⟨a, -, rfl⟩ := Option.map_eq_some_iff.1 h
  rfl

/-- The controller answers exactly the core whose request it accepts, in that cycle. -/
theorem delivered_eq_accepted : s.delivered i c = s.accepted i c := by
  unfold delivered accepted reqReady resp PCRControl.pcrResp PCRControl.reqFire PCRControl.reqOut
  cases hready : s.pcr.reqReady (s.pcrIn i) with
  | false => simp
  | true =>
    cases hch : s.pcr.reqChosen (s.pcrIn i) with
    | none => simp
    | some d =>
      -- the arbiter passes on a request that is there, with the number of its core
      have hvalid : ((s.csr d).pcrReq p d (i.core d)).isSome := valid_of_rrSelect hch
      obtain ⟨r, hr⟩ := Option.isSome_iff_exists.1 hvalid
      have hin : (s.pcrIn i).pcrReq d = some r := hr
      rw [pcrReq_isSome] at hvalid
      by_cases hdc : d = c
      · subst hdc
        simp [hin, hvalid, coreId_of_pcrReq hr]
      · have hne : (d == c) = false := beq_eq_false_iff_ne.2 hdc
        have hval : (d.val == c.val) = false := beq_eq_false_iff_ne.2 fun h => hdc (Fin.ext h)
        simp [hin, coreId_of_pcrReq hr, hne, hval]

/-- A core that waits makes no request. -/
theorem accepted_of_wait (h : (s.csr c).pcrWaitResp) : s.accepted i c = false := by
  simp [accepted, CSRFile.pcrReqValid, h]

/-- A core that waits stalls its pipeline, and goes on waiting until it is reset. -/
theorem pcrWaitResp_stays (h : (s.csr c).pcrWaitResp) :
    (s.csr c).csrStall c (s.resp i) ∧
      ((i.reset || s.pcr.softReset) = false → ((s.next i).csr c).pcrWaitResp) := by
  have hno : (s.resp i).any (fun r => r.coreId == c.val) = false :=
    delivered_eq_accepted.trans (accepted_of_wait h)
  refine ⟨by simp [CSRFile.csrStall, h, hno], fun hreset => ?_⟩
  simp [next, CSRFile.next, CSRFile.pcrReqValid, hreset, h, hno]

/-- Only a refused request makes a core wait. -/
theorem pcrWaitResp_next (h : (s.csr c).pcrWaitResp = false) (hi : s.Untroubled i) :
    ((s.next i).csr c).pcrWaitResp = false := by
  simp only [next, CSRFile.next, h]
  cases hset : (s.csr c).pcrReqValid p (i.core c) && (s.resp i).all (CSRFile.notForMe c) with
  | false => simp
  | true =>
    exfalso
    obtain ⟨hv, hall⟩ := Bool.and_eq_true_iff.1 hset
    cases hready : s.reqReady i c with
    | false =>
      -- a refused request: some other core is answered
      have hother := hi c (by simp [CSRFile.csrReplay, hv, hready])
      cases hr : s.resp i with
      | none => simp [hr] at hother
      | some r => simp_all
    | true =>
      -- an accepted request is answered, and the core sees that the answer is its own
      have hd : s.delivered i c := by
        rw [delivered_eq_accepted, accepted, hv, hready]
        rfl
      unfold delivered at hd
      cases hr : s.resp i with
      | none => simp [hr] at hd
      | some r =>
        simp only [hr, Option.any_some, beq_iff_eq] at hd
        simp only [hr, Option.all_some, CSRFile.notForMe, beq_iff_eq] at hall
        split_ifs at hall <;> omega

/-! ## Runs -/

/-- The controller before the first cycle, no core waiting. -/
def start (u : PCRControl p) : PcrSystem p := ⟨u, fun _ => ⟨false, false⟩⟩

/-- In every run in which no refused request makes its core wait, with any accesses of
the cores and any behaviour of the host, a core that waits for an answer is owed one, and
a core that is not waiting for an interrupt does not stall. -/
theorem csr_waits_for_accepted (u : PCRControl p) (is : List (PcrSystemIn p))
    (hl : (untroubledMachine p).Legal (start u) is) (c : Fin p.nCores) :
    let s := (untroubledMachine p).run (start u) is
    ((s.csr c).pcrWaitResp = true →
        (untroubledMachine p).history owed (start u) (fun _ => false) is c = true) ∧
      ∀ i, (s.csr c).csrStall c (s.resp i) = true → (s.csr c).regWfi = true := by
  have h := Machine.invariant_run (m := untroubledMachine p)
    (P := fun s => ∀ c, (s.csr c).pcrWaitResp = false)
    (fun s i hs hi c => pcrWaitResp_next (hs c) hi) (s := start u) (fun _ => rfl) hl c
  refine ⟨fun hw => absurd hw (by simp [h]), fun i hstall => ?_⟩
  simpa [CSRFile.csrStall, h] using hstall

/-- A core that waits in some cycle of a run stalls from then on, whatever it is answered, until
there is a reset. -/
theorem waiting_core_stalls (u : PCRControl p) {is : List (PcrSystemIn p)}
    (js : List (PcrSystemIn p)) {c : Fin p.nCores}
    (hwait : (((machine p).run (start u) is).csr c).pcrWaitResp = true)
    (hjs : ((machine p).restrict fun s j => (j.reset || s.pcr.softReset) = false).Legal
      ((machine p).run (start u) is) js) (j : PcrSystemIn p) :
    let s := (machine p).run (start u) (is ++ js)
    (s.csr c).csrStall c (s.resp j) = true := by
  have h := Machine.invariant_run (m := (machine p).restrict _)
    (P := fun s => (s.csr c).pcrWaitResp = true)
    (fun _ _ h hi => (pcrWaitResp_stays h).2 hi.2) hwait hjs
  rw [Machine.run_restrict, ← Machine.run_append] at h
  exact (pcrWaitResp_stays h).1

/-! ## A request to a busy host port -/

/-- The host is not ready, and the only core stores 1 to `mtohost`. -/
def tohostCycle : PcrSystemIn .defaultConfig :=
  { reset := false
    core := fun _ =>
      { cmd := .W, addr := 0x780, wdata := 1, prv := 3, addrValid := true, fpCsr := false
        fs := 0, someInterruptPending := false }
    hostReqReady := false
    hostResp := none
    interrupt := 0 }

/-- The second store is refused, and the core waits for an answer that it is not owed. -/
theorem busy_tohost_waits :
    let s := start (TagCtrlSystem.zero .defaultConfig).pcr
    (machine .defaultConfig).Legal s [tohostCycle, tohostCycle] ∧
      (((machine .defaultConfig).run s [tohostCycle, tohostCycle]).csr
        TagCtrlSystem.core0).pcrWaitResp = true ∧
      (machine .defaultConfig).history owed s (fun _ => false) [tohostCycle, tohostCycle]
        TagCtrlSystem.core0 = false := by
  refine ⟨⟨trivial, trivial, trivial⟩, ?_, ?_⟩ <;> decide

/-- A cycle later it stalls. -/
theorem waiting_core_stalls_tohost :
    let s := (machine .defaultConfig).run (start (TagCtrlSystem.zero .defaultConfig).pcr)
      ([tohostCycle, tohostCycle] ++ [tohostCycle])
    (s.csr TagCtrlSystem.core0).csrStall TagCtrlSystem.core0 (s.resp tohostCycle) = true :=
  waiting_core_stalls _ [tohostCycle] (by decide) ⟨⟨trivial, by decide⟩, trivial⟩
    tohostCycle

/-- Three cores. -/
def threeCores : PCRParameters := { PCRParameters.defaultConfig with nCores := 3 }

/-- The cores of a list write the tag control register. -/
def tagCtrlCycle (cores : List ℕ) : PcrSystemIn threeCores :=
  { reset := false
    core := fun c =>
      { cmd := if c.val ∈ cores then .W else .N, addr := 0x800, wdata := 1, prv := 3
        addrValid := true, fpCsr := false, fs := 0, someInterruptPending := false }
    hostReqReady := false
    hostResp := none
    interrupt := 0 }

/-- The request of the last core is refused while another one is answered, and the core does not
wait for an answer to it; it is accepted in the next cycle. -/
theorem csr_waits_for_accepted_refused :
    let s := start (TagCtrlSystem.zero threeCores).pcr
    let c : Fin threeCores.nCores := Fin.last 2
    (s.csr c).csrReplay threeCores ((tagCtrlCycle [1, 2]).core c)
        (s.reqReady (tagCtrlCycle [1, 2]) c) = true ∧
      (s.next (tagCtrlCycle [1, 2])).accepted (tagCtrlCycle [2]) c = true ∧
      ∀ c i, let s' := (untroubledMachine threeCores).run s [tagCtrlCycle [1, 2], tagCtrlCycle [2]]
        (s'.csr c).csrStall c (s'.resp i) = true → (s'.csr c).regWfi = true := by
  refine ⟨by decide, by decide, fun c => (csr_waits_for_accepted _ _ ?_ c).2⟩
  decide

end PcrSystem

end TaggedRiscv
