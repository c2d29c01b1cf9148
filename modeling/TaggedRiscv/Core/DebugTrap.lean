import TaggedRiscv.Core.Runs

/-!
# The debug trap

An operand with a user tag raises the debug trap while the debug check is on, and clears the tag
control register of the tag check unit. The unit looks at the operands of whatever is in the
execute stage. It does not ask whether that is an instruction, whether it is on the right path and
whether it is passed on, so an instruction that never happens can switch all checks off.
-/

namespace TaggedRiscv.Core

namespace Rocket

variable {d : DecodeLogic} {s : Rocket} {i : CoreIn}

/-- A broadcast of the tag control register arrives. -/
def TagCtrlUpdated (i : CoreIn) : Prop := (tagCtrlUpdate i.pcrUpdate).isSome = true
deriving Decidable

/-- The instruction in execute is valid, is neither killed nor replayed, and enters the
memory stage with the cause of the debug trap. -/
def Traps (d : DecodeLogic) (s : Rocket) (i : CoreIn) : Prop :=
  s.ex.valid = true ∧ s.ctrlKillx i = false ∧ (s.next d i).mem.valid = true ∧
    (s.next d i).mem.xcpt = true ∧ (s.next d i).mem.cause = Causes.debugTagTrap
deriving Decidable

/-- The instruction in execute has an exception that comes before the debug trap. -/
def otherXcpt (s : Rocket) (i : CoreIn) : Bool :=
  s.ex.xcptInterrupt || s.ex.xcpt || s.ex.ctrl.fp && i.fpu.illegalRm || s.tagException i

/-- Outside resets and updates, the debug check sees a user tag only with an instruction that
is valid, is neither killed nor replayed and has no other exception. -/
def OnlyLiveTagged (s : Rocket) (i : CoreIn) : Prop :=
  i.powerOnReset = false → ¬ TagCtrlUpdated i → s.debugTagException i = true →
    s.ex.valid = true ∧ s.ctrlKillx i = false ∧ s.otherXcpt i = false
deriving Decidable

/-- The register is kept without a trap, an update and a reset. -/
theorem regTagCtrl_next (hreset : i.powerOnReset = false) (hupdate : ¬ TagCtrlUpdated i)
    (htrap : s.debugTagException i = false) :
    (s.next d i).tagCheck.regTagCtrl = s.tagCheck.regTagCtrl := by
  have hnone : tagCtrlUpdate i.pcrUpdate = none := by simpa [TagCtrlUpdated] using hupdate
  unfold debugTagException at htrap
  simp [next, TagCheckUnit.next, htrap, hnone, hreset]

/-- A live instruction with the debug trap and no other exception takes it along. -/
theorem traps_of_live (hvalid : s.ex.valid) (hkill : s.ctrlKillx i = false)
    (hother : s.otherXcpt i = false) (htrap : s.debugTagException i) : s.Traps d i := by
  simp only [otherXcpt, Bool.or_eq_false_iff] at hother
  obtain ⟨⟨⟨hintr, hxcpt⟩, hfp⟩, htag⟩ := hother
  have hex : s.exXcpt i = (true, Causes.debugTagTrap) := by
    simp [exXcpt, checkExceptions, hintr, hxcpt, hfp, htag, htrap]
  refine ⟨hvalid, hkill, (next_mem hkill).1, ?_, ?_⟩
  · simp [next, memNext, hkill, hex]
  · simp [next, memNext, hex]

end Rocket

/-- The core in runs in which the debug check sees user tags with live instructions only. -/
abbrev liveMachine (d : DecodeLogic) : Sync.Machine Rocket CoreIn where
  ok s i := s.OnlyLiveTagged i
  next s i := s.next d i

/-- In such a run, from any state, the tag control register changes in no cycle but a reset,
an update or one in which an instruction goes on with the debug trap. -/
theorem tagCtrl_change_cases (d : DecodeLogic) (s : Rocket) (is : List CoreIn)
    (hl : (liveMachine d).Legal s is) (k : ℕ) (hk : k < is.length) :
    let x := (liveMachine d).run s (is.take k)
    (x.next d (is.get ⟨k, hk⟩)).tagCheck.regTagCtrl ≠ x.tagCheck.regTagCtrl →
      (is.get ⟨k, hk⟩).powerOnReset = true ∨ Rocket.TagCtrlUpdated (is.get ⟨k, hk⟩) ∨
        x.Traps d (is.get ⟨k, hk⟩) := by
  intro x hne
  -- the run up to the cycle, and the cycle
  have hsplit : is = is.take k ++ is.get ⟨k, hk⟩ :: is.drop (k + 1) := by
    rw [List.get_eq_getElem, List.getElem_cons_drop, List.take_append_drop]
  rw [hsplit, Sync.Machine.legal_append] at hl
  have hok : x.OnlyLiveTagged (is.get ⟨k, hk⟩) := hl.2.1
  by_contra hnot
  simp only [not_or, Bool.not_eq_true] at hnot
  obtain ⟨hreset, hupdate, htraps⟩ := hnot
  cases htrap : x.debugTagException (is.get ⟨k, hk⟩) with
  | false => exact hne (Rocket.regTagCtrl_next hreset hupdate htrap)
  | true =>
    obtain ⟨hvalid, hkill, hother⟩ := hok hreset hupdate htrap
    exact htraps (Rocket.traps_of_live hvalid hkill hother htrap)

/-- The cycles of a program: `ld x1, 0(x0)` loads a word with user tag 4, and after one more
cycle `add x3, x1, x1` uses it. The debug check is switched on first. -/
def taggedAdd (between : CoreIn) : List CoreIn :=
  [{ quiet with reset := true, powerOnReset := true }, { quiet with
      pcrUpdate := some { broadcast := true, coreId := 0, addr := PCRs.ptagctrl, data := 15 } },
    fetch 0x200 0x00003083, between, fetch 0x208 0x001081B3, loadHit 1 4 5]

/-- With nothing between them, the addition goes on with the trap. -/
theorem tagCtrl_change_cases_add :
    let is := taggedAdd quiet
    let x := (liveMachine tableLogic).run Rocket.boot (is.take 5)
    (liveMachine tableLogic).Legal Rocket.boot is ∧
      (x.next tableLogic (loadHit 1 4 5)).tagCheck.regTagCtrl ≠ x.tagCheck.regTagCtrl ∧
      ((loadHit 1 4 5).powerOnReset = true ∨ Rocket.TagCtrlUpdated (loadHit 1 4 5) ∨
        x.Traps tableLogic (loadHit 1 4 5)) := by
  intro is x
  have hl : (liveMachine tableLogic).Legal Rocket.boot is := by decide +kernel
  have hne : (x.next tableLogic (loadHit 1 4 5)).tagCheck.regTagCtrl ≠ x.tagCheck.regTagCtrl := by
    decide +kernel
  exact ⟨hl, hne, tagCtrl_change_cases tableLogic Rocket.boot is hl 5 (by decide) hne⟩

/-- With the branch `beq x0, x0, 8` between them the addition is skipped. It is in execute when
the branch is found taken, and is killed, but clears the register all the same. -/
theorem wrong_path_clears_tagCtrl :
    let is := taggedAdd (fetch 0x204 0x00000463)
    let port : Port := { fired1 := false, fired2 := false, announced := false }
    let x := ((coreMachine tableLogic).run (Rocket.boot, port) (is.take 5)).1
    (coreMachine tableLogic).Legal (Rocket.boot, port) is ∧
      x.ctrlKillx (loadHit 1 4 5) = true ∧
      (loadHit 1 4 5).powerOnReset = false ∧ ¬ Rocket.TagCtrlUpdated (loadHit 1 4 5) ∧
      x.tagCheck.regTagCtrl = 15 ∧
      (x.next tableLogic (loadHit 1 4 5)).tagCheck.regTagCtrl = 0 := by
  decide +kernel

end TaggedRiscv.Core
