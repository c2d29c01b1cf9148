import TaggedRiscv.Core.Runs

/-!
# The invalid tag through a computation

The result of an arithmetic instruction should carry the invalid tag exactly if an operand does.
For the ALU this holds whatever the rest of the pipeline does. The multiplier and divider return
their results through the long-latency port, which writes the tag zero, so their results are never
invalid.
-/

namespace TaggedRiscv.Core

open Rocket

/-- The instruction writes an integer register with a value computed from integer registers,
by the ALU or by the multiplier. -/
def CtrlRow.Computes (r : CtrlRow) : Prop :=
  r.wxd = true ∧ r.fp = false ∧ r.mem = false ∧ r.jal = false ∧ r.jalr = false ∧
    r.csr = CSR_N ∧ (r.rxs1 = some true ∨ r.rxs2 = true)
deriving Decidable

/-- Such an instruction reads its first operand from a register; its second one comes from a
register or is an immediate. -/
theorem CtrlRow.Computes.operands :
    ∀ r ∈ decodeTable, r.ctrl.Computes →
      r.ctrl.rxs1 = some true ∧ (r.ctrl.rxs2 = false ∨ r.ctrl.selAlu2 = some A2_RS2) := by
  decide +kernel

example : ((decodeTable.filter fun r => r.ctrl.Computes).map DecodeRow.insn) =
    [.ADDI, .SLTI, .SLTIU, .ANDI, .ORI, .XORI, .SLLI, .SRLI, .SRAI, .ADD, .SUB, .SLT, .SLTU,
      .AND, .OR, .XOR, .SLL, .SRL, .SRA, .ADDIW, .SLLIW, .SRLIW, .SRAIW, .ADDW, .SUBW, .SLLW,
      .SRLW, .SRAW, .MUL, .MULH, .MULHU, .MULHSU, .MULW, .DIV, .DIVU, .REM, .REMU, .DIVW,
      .DIVUW, .REMW, .REMUW] := by
  decide +kernel

section Stages

variable (d : DecodeLogic) (x : Rocket × Port) (i₀ i₁ i₂ : CoreIn)

/-! The states of the cycles of an instruction that is decoded in state `x`. -/

def inExecute : Rocket × Port := (coreMachine d).next x i₀
def inMemory : Rocket × Port := (coreMachine d).next (inExecute d x i₀) i₁
def inWriteBack : Rocket × Port := (coreMachine d).next (inMemory d x i₀ i₁) i₂

/-- An instruction of a row is decoded in the first of three cycles and passed on by every
stage. Its result is written in the cycle with input `j`, after the cycles `before`: by the
write-back stage at once, or, for the multiplier and divider, after the instruction has
completed and when the long-latency port writes the answer for its register. -/
structure Finishes (r : DecodeRow) (before : List CoreIn) (j : CoreIn) : Prop where
  row : r ∈ decodeTable
  pattern : r.pattern.Matches i₀.imem.inst
  decode : x.1.ctrlKilld d i₀ = false
  execute : (inExecute d x i₀).1.ctrlKillx i₁ = false
  memory : (inMemory d x i₀ i₁).1.ctrlKillm i₂ = false
  alu : r.ctrl.div = false → before = [] ∧ (inWriteBack d x i₀ i₁ i₂).1.wbValid j
  div : r.ctrl.div →
    (∃ i₃ rest, before = i₃ :: rest ∧ (inWriteBack d x i₀ i₁ i₂).1.wbValid i₃) ∧
      j.div.respValid ∧ j.div.respTag = waddrOf i₀.imem.inst ∧
      ((coreMachine d).run (inWriteBack d x i₀ i₁ i₂) before).1.divRespReady j ∧
      (dmemRespValid j && dmemRespXpu j) = false

/-- The state after the result has been written. -/
def written (before : List CoreIn) (j : CoreIn) : Rocket × Port :=
  (coreMachine d).next ((coreMachine d).run (inWriteBack d x i₀ i₁ i₂) before) j

local instance neZeroOperands : NeZero 2 := ⟨by decide⟩

/-- A register that the instruction reads carries the invalid tag, as it is read. -/
def ReadsInvalid (r : DecodeRow) : Prop :=
  (r.ctrl.rxs1 = some true ∧ hasInvTag ((inExecute d x i₀).1.exTags i₁ 0) = true) ∨
    (r.ctrl.rxs2 = true ∧ hasInvTag ((inExecute d x i₀).1.exTags i₁ 1) = true)

end Stages

namespace Finishes

variable {d : DecodeLogic} {x : Rocket × Port} {i₀ i₁ i₂ j : CoreIn} {r : DecodeRow}
  {before : List CoreIn}

variable (h : Finishes d x i₀ i₁ i₂ r before j)

include h

/-- The control signals in execute are those of the row. -/
theorem ex_ctrl (hc : r.ctrl.Computes) : r.ctrl.Agrees (inExecute d x i₀).1.ex.ctrl := by
  have hrow := d.toDecoder.row r h.row _ h.pattern
  -- the access to a control register is not turned into a read
  have hcsr : idCsr d i₀ = r.ctrl.csr := by
    have hn : (idCtrl d i₀).csr = CSR_N := hrow.csr.trans hc.2.2.2.2.2.1
    rw [idCsr, idCsrRen, hn, hc.2.2.2.2.2.1]
    rfl
  rw [inExecute, coreMachine, (next_ex h.decode).2.1, hcsr]
  exact { hrow with csr := rfl }

theorem mem_ctrl : (inMemory d x i₀ i₁).1.mem.ctrl = (inExecute d x i₀).1.ex.ctrl :=
  (next_mem h.execute).2.1

theorem wb_ctrl : (inWriteBack d x i₀ i₁ i₂).1.wb.ctrl = (inExecute d x i₀).1.ex.ctrl :=
  (next_wb h.memory).2.1.trans h.mem_ctrl

theorem wb_inst : (inWriteBack d x i₀ i₁ i₂).1.wb.inst = i₀.imem.inst :=
  (next_wb h.memory).2.2.1.trans
    ((next_mem h.execute).2.2.1.trans (next_ex h.decode).2.2)

theorem wb_tagdata : (inWriteBack d x i₀ i₁ i₂).1.wb.tagdata = (inExecute d x i₀).1.tagAluOut i₁ :=
  (next_wb h.memory).2.2.2.trans (next_mem h.execute).2.2.2

/-- When an instruction that is no memory access writes a register, the data cache does
not: it has no request to answer, and an announced replay would have killed the
instruction. -/
theorem no_response (hl : (inWriteBack d x i₀ i₁ i₂).2.Obeyed j)
    (hmem : (inExecute d x i₀).1.ex.ctrl.mem = false) (hwxd : (inExecute d x i₀).1.ex.ctrl.wxd) :
    dmemRespValid j = false ∧ dmemRespReplay j = false := by
  obtain ⟨hanswer, hreplay⟩ := hl
  have hfired : (inWriteBack d x i₀ i₁ i₂).2.fired2 = false := by
    change ((inExecute d x i₀).1.dmemReqValid && i₁.dmem.reqReady) = false
    rw [dmemReqValid, hmem, Bool.and_false, Bool.false_and]
  have hannounced : (inWriteBack d x i₀ i₁ i₂).2.announced = false :=
    replayNext_of_not_killm h.memory (by rw [h.mem_ctrl, hwxd])
  have hno : dmemRespReplay j = false := by
    by_contra hyes
    exact absurd (hreplay (by simpa using hyes)) (by simp [hannounced])
  refine ⟨?_, hno⟩
  -- a response is a replay or answers a request, and there was none
  cases hv : j.dmem.respValid with
  | false => simp [dmemRespValid, hv]
  | true =>
    have hrep : j.dmem.respReplay := by
      by_contra hrep
      exact absurd (hanswer hv (by simpa using hrep)) (by simp [hfired])
    simpa [dmemRespReplay, dmemRespValid, hrep, hv] using hno

/-- The write-back stage writes the tag of the tag ALU. -/
theorem trf_of_alu (hl : (coreMachine d).Legal x ([i₀, i₁, i₂] ++ before ++ [j]))
    (hc : r.ctrl.Computes) (hdiv : r.ctrl.div = false) (hrd : waddrOf i₀.imem.inst ≠ 0) :
    (written d x i₀ i₁ i₂ before j).1.trf (waddrOf i₀.imem.inst) =
      (inExecute d x i₀).1.tagAluOut i₁ := by
  obtain ⟨rfl, hwb⟩ := h.alu hdiv
  have hctrl := h.ex_ctrl hc
  have hwxd := hctrl.wxd.trans hc.1
  obtain ⟨hresp, hreplay⟩ := h.no_response hl.2.2.2.1 (hctrl.mem.trans hc.2.2.1) hwxd
  have hvalid : (inWriteBack d x i₀ i₁ i₂).1.wb.valid := (next_wb h.memory).1
  -- neither a replay nor the divider has the write port, as the instruction writes a register
  have hll : (inWriteBack d x i₀ i₁ i₂).1.llWen j = false := by
    simp [llWen, divRespReady, hreplay, hvalid, h.wb_ctrl, hwxd]
  have hwen : (inWriteBack d x i₀ i₁ i₂).1.rfWen j := by
    rw [rfWen, wbWen, hwb, h.wb_ctrl, hwxd]
    rfl
  have haddr : (inWriteBack d x i₀ i₁ i₂).1.rfWaddr j = waddrOf i₀.imem.inst := by
    rw [rfWaddr, hll, wbWaddr, h.wb_inst]
    rfl
  have htag : (inWriteBack d x i₀ i₁ i₂).1.tagWdata j = (inExecute d x i₀).1.tagAluOut i₁ := by
    rw [← h.wb_tagdata]
    simp [tagWdata, hresp, hll, h.wb_ctrl, hctrl.csr.trans hc.2.2.2.2.2.1]
  have hne : (inWriteBack d x i₀ i₁ i₂).1.rfWaddr j ≠ 0 := haddr.symm ▸ hrd
  rw [← haddr, ← htag]
  exact next_trf hwen hne

/-- The long-latency port writes the tag zero. -/
theorem trf_of_div (hdiv : r.ctrl.div) (hrd : waddrOf i₀.imem.inst ≠ 0) :
    (written d x i₀ i₁ i₂ before j).1.trf (waddrOf i₀.imem.inst) = 0 := by
  obtain ⟨-, hresp, hto, hready, hdmem⟩ := h.div hdiv
  rw [written]
  generalize (coreMachine d).run (inWriteBack d x i₀ i₁ i₂) before = y at hready ⊢
  -- the port is free for the divider only without a replay
  have hreplay : (dmemRespReplay j && dmemRespXpu j) = false := by
    by_contra hyes
    rw [divRespReady, if_pos (by simpa using hyes)] at hready
    cases hready
  have hll : y.1.llWen j := by
    rw [llWen, if_neg (by rw [hreplay]; decide), hresp, hready]
    rfl
  have haddr : y.1.rfWaddr j = waddrOf i₀.imem.inst := by
    rw [rfWaddr, if_pos hll, llWaddr, if_neg (by rw [hreplay]; decide), hto]
  have htag : y.1.tagWdata j = 0 := by rw [tagWdata, if_neg (by rw [hdmem]; decide), if_pos hll]
  have hwen : y.1.rfWen j := by rw [rfWen, hll, Bool.or_true]
  rw [← haddr, ← htag]
  exact next_trf hwen (by rw [haddr]; exact hrd)

end Finishes

/-- The tag ALU marks a computed result invalid if an operand that is read is. -/
theorem tagAluOut_inv {d : DecodeLogic} {x : Rocket × Port} {i₀ i₁ : CoreIn} {r : DecodeRow}
    (hr : r ∈ decodeTable) (hc : r.ctrl.Computes)
    (hctrl : r.ctrl.Agrees (inExecute d x i₀).1.ex.ctrl) :
    hasInvTag ((inExecute d x i₀).1.tagAluOut i₁) ↔ ReadsInvalid d x i₀ i₁ r := by
  unfold ReadsInvalid
  generalize (inExecute d x i₀).1 = s at hctrl ⊢
  obtain ⟨hrxs1, hop2⟩ := CtrlRow.Computes.operands r hr hc
  have hjal : s.ex.ctrl.jal = false := hctrl.jal.trans hc.2.2.2.1
  have hjalr : s.ex.ctrl.jalr = false := hctrl.jalr.trans hc.2.2.2.2.1
  have hin1 : s.tagIn1 i₁ = s.exTags i₁ 0 := by rw [tagIn1, hctrl.rxs1 _ hrxs1, if_pos rfl]
  -- a move has an immediate, so its second tag is zero
  have hmv : s.isMv → s.tagIn2 i₁ = 0 := by
    intro hmv
    rcases hop2 with hop2 | hop2
    · rw [tagIn2, hctrl.rxs2, hop2]
      rfl
    · rw [isMv, hctrl.selAlu2 _ hop2] at hmv
      cases hmv
  have hin2 : hasInvTag (s.tagIn2 i₁) ↔
      r.ctrl.rxs2 ∧ hasInvTag (s.exTags i₁ 1) := by
    rw [tagIn2, hctrl.rxs2]
    cases r.ctrl.rxs2 with
    | false => simp [hasInvTag, invTag]
    | true => simp
  rw [tagAluOut, hjal, hjalr, TagALU.out_inv hmv, hin1, Bool.or_eq_true, hin2]
  simp [hrxs1]

/-- For every instruction that computes a register from registers, every state of the
pipeline, all operands and every behaviour of the other units: the register finally carries
the invalid tag exactly if one that was read did, if and only if the result is computed by
the ALU or no register that was read is invalid. -/
theorem result_invTag_iff (d : DecodeLogic) (x : Rocket × Port) (i₀ i₁ i₂ : CoreIn)
    (before : List CoreIn) (j : CoreIn) (r : DecodeRow) (hc : r.ctrl.Computes)
    (hl : (coreMachine d).Legal x ([i₀, i₁, i₂] ++ before ++ [j]))
    (hrd : waddrOf i₀.imem.inst ≠ 0) (h : Finishes d x i₀ i₁ i₂ r before j) :
    (hasInvTag ((written d x i₀ i₁ i₂ before j).1.trf (waddrOf i₀.imem.inst)) = true ↔
        ReadsInvalid d x i₀ i₁ r) ↔
      r.ctrl.div = false ∨ ¬ ReadsInvalid d x i₀ i₁ r := by
  cases hdiv : r.ctrl.div with
  | false =>
    rw [h.trf_of_alu hl hc hdiv hrd]
    simpa using tagAluOut_inv h.row hc (h.ex_ctrl hc)
  | true =>
    have hzero : hasInvTag 0 = false := by decide
    rw [h.trf_of_div hdiv hrd, hzero]
    simp

/-- A core whose register `x1` holds an invalid word. -/
def Rocket.withInvalid : Rocket :=
  { boot with rf := fun _ => 5, trf := fun a => if a = 1 then invTag else 0 }

/-- The port of a cache that has nothing to do. -/
def Port.idle : Port := { fired1 := false, fired2 := false, announced := false }

/-- `add x3, x1, x2` with an invalid `x1` has an invalid result. -/
theorem result_invTag_iff_add :
    let x : Rocket × Port := (withInvalid, Port.idle)
    let i₀ := fetch 0x200 0x002081B3
    let r : DecodeRow := ⟨.ADD, ⟨0x00000033, 0xFE00707F⟩, aluRow true FN_ADD⟩
    ReadsInvalid tableLogic x i₀ quiet r ∧
      hasInvTag ((written tableLogic x i₀ quiet quiet [] quiet).1.trf (waddrOf i₀.imem.inst)) =
        true := by
  intro x i₀ r
  have hfin : Finishes tableLogic x i₀ quiet quiet r [] quiet :=
    { row := by decide +kernel
      pattern := by decide
      decode := by decide +kernel
      execute := by decide +kernel
      memory := by decide +kernel
      alu := fun _ => ⟨rfl, by decide +kernel⟩
      div := fun h => by cases h }
  have hinv : ReadsInvalid tableLogic x i₀ quiet r := .inl ⟨rfl, by decide +kernel⟩
  have hiff := result_invTag_iff tableLogic x i₀ quiet quiet [] quiet r (by decide)
    (by decide +kernel) (by decide) hfin
  exact ⟨hinv, (hiff.2 (.inl rfl)).2 hinv⟩

/-- `mul x3, x1, x2` with an invalid `x1`: the product arrives through the long-latency port,
after the instruction has left the pipeline, and is written with the tag zero. -/
theorem mul_result_untagged :
    let x : Rocket × Port := (withInvalid, Port.idle)
    let i₀ := fetch 0x200 0x022081B3
    let product : CoreIn :=
      { quiet with div := { reqReady := true, respValid := true, respData := 25, respTag := 3 } }
    let is := [i₀, quiet, quiet, quiet, product]
    (coreMachine tableLogic).Legal x is ∧
      hasInvTag (x.1.trf 1) = true ∧
      hasInvTag ((inExecute tableLogic x i₀).1.exTags quiet 0) = true ∧
      (inExecute tableLogic x i₀).1.divReqValid = true ∧
      ((coreMachine tableLogic).run x is).1.rf 3 = 25 ∧
      hasInvTag (((coreMachine tableLogic).run x is).1.trf 3) = false := by
  decide +kernel

end TaggedRiscv.Core
