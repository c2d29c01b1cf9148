import TaggedRiscv.Core.Rocket
import TaggedRiscv.Lib.Machine

/-!
# Runs of the core

The core as a machine whose inputs are those of the surrounding units. Of these, the data
cache keeps to the rules of its port: a response that is not a replay answers the request
of two cycles ago, and a replay with data is announced one cycle ahead.
-/

namespace TaggedRiscv.Core

/-- Whether a request was taken one and two cycles ago, and whether a replay was announced
in the cycle before. -/
structure Port where
  fired1 : Bool
  fired2 : Bool
  announced : Bool
  deriving DecidableEq, Repr

/-- The rules of the data cache's port. -/
def Port.Obeyed (p : Port) (i : CoreIn) : Prop :=
  (i.dmem.respValid = true → i.dmem.respReplay = false → p.fired2 = true) ∧
    (Rocket.dmemRespReplay i = true → p.announced = true)
deriving Decidable

/-- The core in its environment. -/
abbrev coreMachine (d : DecodeLogic) : Sync.Machine (Rocket × Port) CoreIn where
  ok x i := x.2.Obeyed i
  next x i := (x.1.next d i,
    { fired1 := x.1.dmemReqValid && i.dmem.reqReady
      fired2 := x.2.fired1
      announced := i.dmem.replayNext })

/-! ## Stages -/

namespace Rocket

variable {d : DecodeLogic} {s : Rocket} {i : CoreIn}

/-- An instruction that is not killed in decode is in execute next. -/
theorem next_ex (h : s.ctrlKilld d i = false) :
    (s.next d i).ex.valid ∧
      (s.next d i).ex.ctrl = { idCtrl d i with csr := idCsr d i } ∧
      (s.next d i).ex.inst = i.imem.inst := by
  simp [next, exNext, h]

theorem ex_valid_of_not_killx (h : s.ctrlKillx i = false) : s.ex.valid := by
  simp only [ctrlKillx, Bool.or_eq_false_iff, Bool.not_eq_false'] at h
  exact h.2

/-- An instruction that is not killed in execute is in memory next. -/
theorem next_mem (h : s.ctrlKillx i = false) :
    (s.next d i).mem.valid ∧ (s.next d i).mem.ctrl = s.ex.ctrl ∧
      (s.next d i).mem.inst = s.ex.inst ∧ (s.next d i).mem.tagWb = s.tagAluOut i := by
  simp [next, memNext, h, ex_valid_of_not_killx h]

theorem mem_valid_of_not_killm (h : s.ctrlKillm i = false) : s.mem.valid := by
  simp only [ctrlKillm, killmCommon, Bool.or_eq_false_iff, Bool.not_eq_false'] at h
  exact h.1.1.2

/-- An instruction that is not killed in memory is in write-back next. -/
theorem next_wb (h : s.ctrlKillm i = false) :
    (s.next d i).wb.valid ∧ (s.next d i).wb.ctrl = s.mem.ctrl ∧
      (s.next d i).wb.inst = s.mem.inst ∧ (s.next d i).wb.tagdata = s.mem.tagWb := by
  simp [next, wbNext, h, mem_valid_of_not_killm h]

/-- An instruction that writes a register and is not killed in memory meets no announced
replay. -/
theorem replayNext_of_not_killm (h : s.ctrlKillm i = false) (hw : s.mem.ctrl.wxd) :
    i.dmem.replayNext = false := by
  have hv := mem_valid_of_not_killm h
  simp only [ctrlKillm, killmCommon, dcacheKillMem, hv, hw, Bool.true_and,
    Bool.or_eq_false_iff] at h
  exact h.1.1.1.1.1

theorem next_trf (hwen : s.rfWen i) (haddr : s.rfWaddr i ≠ 0) :
    (s.next d i).trf (s.rfWaddr i) = s.tagWdata i := by
  have hw : (s.rfWen i && s.rfWaddr i != 0) = true := by
    rw [hwen, Bool.true_and, bne_iff_ne]
    exact haddr
  simp only [next, fileNext, hw, if_true, Function.update_self]

end Rocket

/-! ## Concrete cycles -/

/-- A cycle in which the other units are ready and have nothing to say. -/
def quiet : CoreIn where
  reset := false
  powerOnReset := false
  imem := { valid := false, pc := 0, inst := 0, xcptIf := false }
  dmem :=
    { reqReady := true, ordered := true, replayNext := false
      xcptMaLd := false, xcptMaSt := false, xcptPfLd := false, xcptPfSt := false
      respValid := false, respReplay := false, respNack := false, respHasData := false
      respFpu := false, respWaddr := 0, respData := 0, respDataSubword := 0 }
  fpu :=
    { illegalRm := false, nackMem := false, tointData := 0, fcsrRdy := true
      sboardSet := false, sboardClr := false, sboardClra := 0
      decRen1 := false, decRen2 := false, decRen3 := false, decWen := false }
  csr :=
    { interrupt := false, interruptCause := 0, stall := false, replay := false, xcpt := false
      eret := false, fs := false, rdata := 0 }
  div := { reqReady := true, respValid := false, respData := 0, respTag := 0 }
  pcrUpdate := none

/-- A cycle in which the front end offers an instruction. -/
def fetch (pc : BitVec 40) (inst : BitVec 32) : CoreIn :=
  { quiet with imem := { valid := true, pc := pc, inst := inst, xcptIf := false } }

/-- A cycle in which a load of a doubleword hits. -/
def loadHit (waddr : BitVec 5) (tag : Tag) (data : BitVec 64) : CoreIn :=
  { quiet with
    dmem := { quiet.dmem with
      respValid := true, respHasData := true, respWaddr := waddr
      respData := tag ++ data, respDataSubword := tag ++ data } }

/-- A core with empty stages and cleared registers. -/
def Rocket.boot : Rocket where
  ex :=
    { ctrl := CtrlRow.fill {}, xcptInterrupt := false, valid := false, xcpt := false
      flushPipe := false, loadUse := false, cause := 0, pc := 0, inst := 0
      rsBypass := fun _ => false, rsLsb := fun _ => 0, rsMsb := fun _ => 0
      tagsPre := fun _ => 0 }
  mem :=
    { ctrl := CtrlRow.fill {}, xcptInterrupt := false, valid := false, xcpt := false
      replay := false, flushPipe := false, cause := 0, slowBypass := false, pc := 0, inst := 0
      wdata := 0, tagWb := 0, rs2 := 0, tagr2 := 0 }
  wb :=
    { ctrl := CtrlRow.fill {}, valid := false, xcpt := false, replay := false, cause := 0
      pc := 0, inst := 0, wdata := 0, tagdata := 0 }
  idRegFence := false
  rf := fun _ => 0
  trf := fun _ => 0
  sboard := 0
  fpSboard := 0
  tagCheck := { regTagCtrl := initTagCtrl }

end TaggedRiscv.Core
