import TaggedRiscv.Core.Runs

/-!
# The tag trap

A jump that fails its tag check goes on as an exception. It is cancelled in the memory stage and
traps from write-back, unless an older instruction redirects the core before.
-/

namespace TaggedRiscv.Core

/-- The cause is that of one of the exceptions that occur. -/
theorem checkExceptions_mem {l : List (Bool × BitVec 64)} (h : (checkExceptions l).1) :
    (true, (checkExceptions l).2) ∈ l := by
  fun_induction checkExceptions l with
  | case1 => simp at h
  | case2 x => simp [← h]
  | case3 x xs _ ih =>
    cases hx : x.1 with
    | true => simp [← hx]
    | false => exact List.mem_cons_of_mem _ (by simpa using ih (by simpa [hx] using h))

namespace Rocket

variable {d : DecodeLogic} {s : Rocket} {i : CoreIn}

/-- A jump leaves execute that fails its tag check and has no exception that comes before. -/
def failedJump (s : Rocket) (i : CoreIn) : Bool :=
  !s.ctrlKillx i && s.tagException i &&
    !(s.ex.xcptInterrupt || s.ex.xcpt || s.ex.ctrl.fp && i.fpu.illegalRm)

/-- The addresses of the failed jumps in the memory and the write-back stage. -/
structure Failed where
  mem : Option (BitVec 40)
  wb : Option (BitVec 40)

/-- A redirection from write-back drops the jump in the memory stage. -/
def Failed.next (f : Failed) (s : Rocket) (i : CoreIn) : Failed where
  mem := if s.failedJump i then some s.ex.pc else none
  wb := if s.takePcWb i then none else f.mem

/-- Failed jumps are the exceptions with the cause of a tag trap. -/
structure Precise (s : Rocket) (f : Failed) : Prop where
  ex : s.ex.xcptInterrupt ∨ s.ex.xcpt → s.ex.cause ≠ Causes.tagTrap
  mem : ∀ pc ∈ f.mem, s.mem.valid ∧ s.mem.xcpt ∧ s.mem.cause = Causes.tagTrap ∧
    s.mem.pc = pc
  mem_isSome : s.mem.xcptInterrupt ∨ s.mem.xcpt → s.mem.cause = Causes.tagTrap →
    f.mem.isSome
  wb : ∀ pc ∈ f.wb, s.wb.valid = false ∧ s.wb.xcpt ∧ s.wb.cause = Causes.tagTrap ∧
    s.wb.pc = pc
  wb_isSome : s.wb.xcpt → s.wb.cause = Causes.tagTrap → f.wb.isSome

theorem Precise.next {f : Failed} (h : s.Precise f) (hi : i.csr.interruptCause ≠ Causes.tagTrap) :
    (s.next d i).Precise (f.next s i) where
  ex hx hc := by
    have hid : (idXcpt d i).1 := by
      simp only [Rocket.next, exNext] at hx
      grind [idXcpt, checkExceptions]
    have hmem : (true, (idXcpt d i).2) ∈ _ := checkExceptions_mem hid
    rw [show (idXcpt d i).2 = Causes.tagTrap by simpa [Rocket.next, exNext, hid] using hc] at hmem
    simp [Causes.tagTrap, Causes.faultFetch, Causes.illegalInstruction] at hmem
    exact hi hmem.2.symm
  mem pc hpc := by
    simp only [Failed.next, failedJump, Option.mem_def, Option.ite_none_right_eq_some,
      Option.some.injEq, Bool.and_eq_true, Bool.not_eq_true', Bool.or_eq_false_iff] at hpc
    obtain ⟨⟨⟨hkill, htag⟩, ⟨hintr, hxcpt⟩, hfp⟩, rfl⟩ := hpc
    simp [Rocket.next, memNext, exXcpt, checkExceptions, hkill, htag, hintr, hxcpt, hfp,
      ex_valid_of_not_killx hkill]
  mem_isSome hx hc := by
    have hex : (s.exXcpt i).1 := by
      simp only [Rocket.next, memNext] at hx
      grind [exXcpt, checkExceptions]
    have hcause : (s.exXcpt i).2 = Causes.tagTrap := by simpa [Rocket.next, memNext, hex] using hc
    -- an older exception has another cause, and so have the others of execute
    have hjump : s.failedJump i := by
      have hold := h.ex
      simp only [Rocket.next, memNext] at hx
      grind [failedJump, exXcpt, checkExceptions, Causes.tagTrap, Causes.illegalInstruction,
        Causes.debugTagTrap]
    simp [Failed.next, hjump]
  wb pc hpc := by
    obtain ⟨htake, hpc⟩ : s.takePcWb i = false ∧ f.mem = some pc := by simpa [Failed.next] using hpc
    obtain ⟨hv, hxcpt, hcause, rfl⟩ := h.mem pc hpc
    simp [Rocket.next, wbNext, ctrlKillm, killmCommon, memXcpt, checkExceptions, hv, hxcpt, hcause,
      htake]
  wb_isSome hx hc := by
    obtain ⟨hm, htake⟩ : (s.memXcpt i).1 ∧ s.takePcWb i = false := by
      simpa [Rocket.next, wbNext] using hx
    have hmem : (true, (s.memXcpt i).2) ∈ _ := checkExceptions_mem hm
    rw [show (s.memXcpt i).2 = Causes.tagTrap by simpa [Rocket.next, wbNext, hm] using hc] at hmem
    obtain ⟨hx, hc⟩ : (s.mem.xcptInterrupt ∨ s.mem.xcpt) ∧
        Causes.tagTrap = s.mem.cause := by
      simpa [Causes.tagTrap, Causes.misalignedFetch, Causes.misalignedStore, Causes.misalignedLoad,
        Causes.faultStore, Causes.faultLoad] using hmem
    simpa [Failed.next, htake] using h.mem_isSome hx hc.symm

/-- No stage has an exception. -/
def clean (s : Rocket) : Bool :=
  !(s.ex.xcptInterrupt || s.ex.xcpt || s.mem.xcptInterrupt || s.mem.xcpt || s.wb.xcpt)

theorem precise_of_clean (h : s.clean) : s.Precise ⟨none, none⟩ := by
  simp only [clean, Bool.not_eq_true', Bool.or_eq_false_iff] at h
  constructor <;> simp [h]

end Rocket

/-- The core with any inputs, where no interrupt has the cause of a tag trap. -/
def trapMachine (d : DecodeLogic) : Sync.Machine Rocket CoreIn :=
  ⟨fun _ i => i.csr.interruptCause ≠ Causes.tagTrap, (·.next d)⟩

/-- In every run the core takes a tag trap exactly when a jump that failed its check is in
write-back, at the address of that jump. The jump is cancelled in the memory stage and writes no
register, and with the trap every younger instruction is killed. -/
theorem tag_trap_precise (d : DecodeLogic) (s₀ : Rocket) (h₀ : s₀.clean = true) (is : List CoreIn)
    (hl : (trapMachine d).Legal s₀ is) (i : CoreIn) :
    let s := (trapMachine d).run s₀ is
    let f := (trapMachine d).history Rocket.Failed.next s₀ ⟨none, none⟩ is
    (s.wb.xcpt = true ∧ s.wb.cause = Causes.tagTrap ↔ f.wb.isSome = true) ∧
      (∀ pc ∈ f.mem, s.killmCommon i = true) ∧
      ∀ pc ∈ f.wb, s.wb.pc = pc ∧ s.wbWen i = false ∧ s.ctrlKilld d i = true ∧
        s.ctrlKillx i = true ∧ s.killmCommon i = true := by
  intro s f
  have h : s.Precise f := Sync.Machine.invariant_history (m := trapMachine d)
    (Q := Rocket.Precise) Rocket.Failed.next (fun _ _ _ h hi => h.next hi)
    (Rocket.precise_of_clean h₀) hl
  refine ⟨⟨fun ⟨hx, hc⟩ => h.wb_isSome hx hc, fun hf => ?_⟩, fun pc hpc => ?_, fun pc hpc => ?_⟩
  · obtain ⟨pc, hpc⟩ := Option.isSome_iff_exists.1 hf
    exact ⟨(h.wb pc hpc).2.1, (h.wb pc hpc).2.2.1⟩
  · simp [Rocket.killmCommon, (h.mem pc hpc).2.1]
  · have htake : s.takePcWb i = true := by
      simp [Rocket.takePcWb, Rocket.wbXcpt, (h.wb pc hpc).2.1]
    refine ⟨(h.wb pc hpc).2.2.2, ?_⟩
    simp [Rocket.wbWen, Rocket.wbValid, Rocket.ctrlKilld, Rocket.ctrlKillx, Rocket.killmCommon,
      Rocket.takePc, (h.wb pc hpc).1, htake]

/-- A return to an address without the return tag traps. -/
theorem tag_trap_precise_return :
    let s := (trapMachine tableLogic).run Rocket.boot [fetch 0x200 0x00008067, quiet, quiet]
    s.wb.pc = 0x200 ∧ s.wb.xcpt = true ∧ s.wb.cause = Causes.tagTrap := by
  have h : (0 : BitVec 64) ≠ Causes.tagTrap := by decide
  have hp := tag_trap_precise tableLogic Rocket.boot rfl [fetch 0x200 0x00008067, quiet, quiet]
    ⟨h, h, h, trivial⟩ quiet
  exact ⟨(hp.2.2 0x200 (by decide +kernel)).1, hp.1.2 (by decide +kernel)⟩

end TaggedRiscv.Core
