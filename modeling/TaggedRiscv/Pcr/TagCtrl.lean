import TaggedRiscv.Lib.Machine
import TaggedRiscv.Core.TagCheckUnit

/-!
# The copies of the tag control register

The tag control register exists once in `PCRControl`, once in the tag check unit
of each core and once in each data cache. The two kinds of copies follow the
broadcasts of the controller; the copy in a tag check unit is also cleared by the
unit's own debug trap.
-/

namespace TaggedRiscv

/-- The controller and the two copies of the tag control register in each core. -/
structure TagCtrlSystem (p : PCRParameters) where
  pcr : PCRControl p
  tagCheckUnit : Fin p.nCores → TagCheckUnit
  dcacheTagCtrl : Fin p.nCores → BitVec 64

/-- One cycle's inputs: those of the controller, whose `reset` is the power-on
reset of the cores too, and what the execute stage of each core offers to its tag
check unit. -/
structure TagCtrlSystemIn (p : PCRParameters) where
  pcr : PCRControlIn p
  ex : Fin p.nCores → TagCheckIn

namespace TagCtrlSystem

variable {p : PCRParameters}

/-- `reg_tag_ctrl` of `HellaCache`. -/
def dcacheNext (initTagCtrl : BitVec 64) (powerOnReset : Bool) (update : Option PCRUpdate)
    (old : BitVec 64) : BitVec 64 :=
  match tagCtrlUpdate update with
  | some d => d
  | none => if powerOnReset then initTagCtrl else old

/-- One clock cycle. Every input is allowed. -/
def machine (p : PCRParameters) : Sync.Machine (TagCtrlSystem p) (TagCtrlSystemIn p) where
  ok _ _ := True
  next s i :=
    { pcr := s.pcr.next i.pcr
      tagCheckUnit := fun c =>
        (s.tagCheckUnit c).next (i.ex c) p.initTagCtrl i.pcr.reset (s.pcr.pcrUpdate i.pcr)
      dcacheTagCtrl := fun c =>
        dcacheNext p.initTagCtrl i.pcr.reset (s.pcr.pcrUpdate i.pcr) (s.dcacheTagCtrl c) }

/-- Whether the debug check of core `c` fired after (or in the cycle of) the last
reset and the last write to the tag control register. -/
def debugCleared (c : Fin p.nCores) (cleared : Bool) (s : TagCtrlSystem p)
    (i : TagCtrlSystemIn p) : Bool :=
  (s.tagCheckUnit c).debugTrap (i.ex c) ||
    (cleared && !i.pcr.reset && (s.pcr.writeAt i.pcr PCRs.ptagctrl).isNone)

/-- The copies of core `c` agree with the controller, given whether its debug
check has cleared the copy of its tag check unit. -/
def Agree (c : Fin p.nCores) (s : TagCtrlSystem p) (cleared : Bool) : Prop :=
  s.dcacheTagCtrl c = s.pcr.regTagCtrl ∧
    (s.tagCheckUnit c).regTagCtrl = if cleared then 0 else s.pcr.regTagCtrl

/-- A broadcast of a tag control value is a write to the register. -/
theorem tagCtrlUpdate_pcrUpdate (s : PCRControl p) (i : PCRControlIn p) :
    tagCtrlUpdate (s.pcrUpdate i) = s.writeAt i PCRs.ptagctrl :=
  s.updateAt_pcrUpdate i (by decide) (by decide) (by simp [PCRControl.updateAddrs])

variable {c : Fin p.nCores} {s : TagCtrlSystem p} {i : TagCtrlSystemIn p}

/-- A write or a reset establishes agreement, whatever the registers held. -/
theorem agree_next_of_load (cleared : Bool)
    (h : i.pcr.reset ∨ (s.pcr.writeAt i.pcr PCRs.ptagctrl).isSome) :
    Agree c ((machine p).next s i) (debugCleared c cleared s i) := by
  have hu := tagCtrlUpdate_pcrUpdate s.pcr i.pcr
  cases hw : s.pcr.writeAt i.pcr PCRs.ptagctrl with
  | none =>
    have hr : i.pcr.reset := by simpa [hw] using h
    simp [Agree, machine, dcacheNext, TagCheckUnit.next, PCRControl.next, PCRControl.mapReg,
      debugCleared, hu, hw, hr]
  | some d =>
    simp [Agree, machine, dcacheNext, TagCheckUnit.next, PCRControl.next, PCRControl.mapReg,
      debugCleared, hu, hw]

/-- In any other cycle agreement is kept. -/
theorem agree_next_of_hold {cleared : Bool} (hs : Agree c s cleared) (hr : i.pcr.reset = false)
    (hw : s.pcr.writeAt i.pcr PCRs.ptagctrl = none) :
    Agree c ((machine p).next s i) (debugCleared c cleared s i) := by
  have hu := tagCtrlUpdate_pcrUpdate s.pcr i.pcr
  obtain ⟨hd, ht⟩ := hs
  refine ⟨by simp [machine, dcacheNext, PCRControl.next, PCRControl.mapReg, hu, hw, hr, hd], ?_⟩
  cases hdt : (s.tagCheckUnit c).debugTrap (i.ex c) <;>
    simp [machine, TagCheckUnit.next, PCRControl.next, PCRControl.mapReg, debugCleared, hu, hw,
      hr, hdt, ht]

theorem agree_next {cleared : Bool} (hs : Agree c s cleared) :
    Agree c ((machine p).next s i) (debugCleared c cleared s i) := by
  by_cases h : i.pcr.reset ∨ (s.pcr.writeAt i.pcr PCRs.ptagctrl).isSome
  · exact agree_next_of_load cleared h
  · simp only [not_or, Bool.not_eq_true, Option.isSome_eq_false_iff, Option.isNone_iff_eq_none]
      at h
    exact agree_next_of_hold hs h.1 h.2

/-- In every cycle after a power-on reset, from any register contents before it,
with any requests and any instructions in the pipelines: the copy in each data
cache equals the register of the controller, and so does the copy in each tag
check unit, unless the unit's own debug check has fired since the last reset and
the last write to the register; then that copy is 0. -/
theorem tagCtrl_copies_agree (s : TagCtrlSystem p) (i : TagCtrlSystemIn p)
    (is : List (TagCtrlSystemIn p)) (hreset : i.pcr.reset = true) (c : Fin p.nCores) :
    ((machine p).run s (i :: is)).dcacheTagCtrl c =
        ((machine p).run s (i :: is)).pcr.regTagCtrl ∧
      (((machine p).run s (i :: is)).tagCheckUnit c).regTagCtrl =
        if (machine p).history (debugCleared c) s false (i :: is) then 0
        else ((machine p).run s (i :: is)).pcr.regTagCtrl :=
  Sync.Machine.invariant_history (m := machine p) (Q := Agree c) (debugCleared c)
    (fun _ _ _ hs _ => agree_next hs) (s := (machine p).next s i)
    (agree_next_of_load false (.inl hreset))
    (Sync.Machine.legal_of_forall_ok _ (fun _ _ => trivial) _ is)

/-! ## A debug trap separates the copies -/

/-- All registers 0. -/
def zero (p : PCRParameters) : TagCtrlSystem p where
  pcr :=
    { regTime := 0, regMemMapCoreBase := fun _ => 0, regMemMapMask := fun _ => 0,
      regMemMapPhyBase := fun _ => 0, regIOMapBase := fun _ => 0, regIOMapMask := fun _ => 0,
      regTohost := 0, regTohostCoreId := 0, regIntEn := fun _ => 0, regIntPending := 0,
      regTagCtrl := 0, wallClock := 0, softReset := false, softResetCnt := 0, lastGrant := 0 }
  tagCheckUnit _ := ⟨0⟩
  dcacheTagCtrl _ := 0

/-- A cycle of every core offering the same request and the same operand tag. -/
def cycle (p : PCRParameters) (reset : Bool) (req : Option PCRReq) (tag : Tag) :
    TagCtrlSystemIn p where
  pcr :=
    { reset := reset, pcrReq := fun _ => req, hostReqReady := false, hostResp := none,
      interrupt := 0 }
  ex _ := ⟨tag, false, 0, tag, 0⟩

/-- The only core of the shipped configuration. -/
def core0 : Fin PCRParameters.defaultConfig.nCores := ⟨0, Nat.one_pos⟩

/-- Reset, enable the debug check, execute an instruction with a user-tagged
operand. -/
def debugClearRun : List (TagCtrlSystemIn .defaultConfig) :=
  [cycle _ true none 0, cycle _ false (some ⟨0, 0x800, .W, 8⟩) 0, cycle _ false none 4]

/-- After the run the controller still returns 8 while the tag check unit uses 0. -/
theorem debugClearRun_separates :
    (((machine .defaultConfig).run (zero _) debugClearRun).tagCheckUnit core0).regTagCtrl = 0 ∧
      ((machine .defaultConfig).run (zero _) debugClearRun).pcr.regTagCtrl = 8 := by
  decide

/-- The agreement theorem at that run. -/
theorem tagCtrl_copies_agree_debugClearRun :
    ((machine .defaultConfig).run (zero _) debugClearRun).dcacheTagCtrl core0 =
        ((machine .defaultConfig).run (zero _) debugClearRun).pcr.regTagCtrl ∧
      (((machine .defaultConfig).run (zero _) debugClearRun).tagCheckUnit core0).regTagCtrl =
        if (machine .defaultConfig).history (debugCleared core0) (zero _) false debugClearRun then 0
        else ((machine .defaultConfig).run (zero _) debugClearRun).pcr.regTagCtrl :=
  tagCtrl_copies_agree _ _ _ rfl core0

end TagCtrlSystem

end TaggedRiscv
