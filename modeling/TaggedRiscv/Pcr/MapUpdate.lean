import TaggedRiscv.Pcr.MapSpace

/-!
# Writing the address maps

The controller keeps the map registers that software reads. What software writes to them is
broadcast to the maps, which put it into effect when the update register is written. The loop
of the controller over the IO sections counts the memory sections: a write to an IO section
beyond their number is accepted, but neither stored nor broadcast.
-/

namespace TaggedRiscv

open Sync PCRs PCRControl List

/-! ## What is broadcast -/

namespace MapIn

variable (i : MapIn) (addr : ℕ)

theorem updateReg_eq (preset : Option (BitVec 64)) (old : BitVec 64) :
    i.updateReg addr preset old =
      (updateAt i.update addr).getD (if i.reset then preset.getD old else old) := by
  cases hu : i.update with
  | none => simp [updateReg, updateAt, hu]
  | some v => by_cases ha : v.addr = addr <;> simp [updateReg, updateAt, hu, ha]

theorem effectReg_eq (new old : BitVec 64) :
    i.effectReg addr new old =
      if (updateAt i.update addr).isSome || i.reset then new else old := by
  cases hu : i.update with
  | none => simp [effectReg, updateAt, hu]
  | some v => by_cases ha : v.addr = addr <;> simp [effectReg, updateAt, hu, ha]

end MapIn

namespace PCRControl

variable {p : PCRParameters} (s : PCRControl p) (i : PCRControlIn p)

theorem mapReg_eq (addr : ℕ) (preset : Option (BitVec 64)) (old : BitVec 64) :
    s.mapReg i true addr preset old =
      (s.writeAt i addr).getD (if i.reset then preset.getD old else old) := by
  rw [mapReg, if_pos rfl]
  cases s.writeAt i addr <;> rfl

/-! ## What software reads -/

/-- A table in which an address has one value gives it. -/
theorem lookup_of_unique {l : List (ℕ × BitVec 64)} {k : ℕ} {v : BitVec 64} (hmem : (k, v) ∈ l)
    (huniq : ∀ e ∈ l, e.1 = k → e.2 = v) : l.lookup k = some v := by
  induction l with
  | nil => exact absurd hmem not_mem_nil
  | cons e l ih =>
    obtain ⟨he, hl⟩ := forall_mem_cons.1 huniq
    by_cases hk : e.1 = k
    · rw [← he hk, ← hk]
      exact lookup_cons_self
    · have hne : (k == e.1) = false := by simpa using Ne.symm hk
      rw [lookup_cons, hne]
      apply ih _ hl
      rcases mem_cons.1 hmem with rfl | hmem
      · exact absurd rfl hk
      · exact hmem

/-- The registers at the addresses of the maps. -/
theorem mem_readMapping {e : ℕ × BitVec 64} (he : e ∈ s.readMapping) (hlow : pmemMap ≤ e.1)
    (hhigh : e.1 < pintMap) :
    (∃ k : Fin p.nMemSections, e = (pmemMap + k * 4 + 0, s.regMemMapCoreBase k) ∨
      e = (pmemMap + k * 4 + 1, s.regMemMapMask k) ∨
      e = (pmemMap + k * 4 + 2, s.regMemMapPhyBase k)) ∨
    e = (pmemMapUpdate, 0) ∨
    (∃ k : Fin p.nIOSections, e = (pioMap + k * 4 + 0, s.regIOMapBase k) ∨
      e = (pioMap + k * 4 + 1, s.regIOMapMask k)) ∨
    e = (pioMapUpdate, 0) := by
  simp only [readMapping, mem_append, mem_flatMap, mem_finRange, true_and,
    mem_cons, not_mem_nil, or_false] at he
  rcases he with ((((he | he) | he) | he) | he) | ⟨c, he⟩
  · -- The registers in front of the maps.
    rcases he with rfl | rfl | rfl | rfl <;> simp [pmemMap, pintMap, ptime,
      ptohost, preset, ptagctrl] at hlow hhigh
  · exact .inl he
  · exact .inr (.inl he)
  · exact .inr (.inr (.inl he))
  · exact .inr (.inr (.inr he))
  · -- The interrupt registers come after the maps.
    rcases he with rfl | rfl <;> dsimp only at hhigh <;> omega

variable (hmemSections : p.nMemSections ≤ 4)

include hmemSections

/-- With at most four sections the registers of the maps have addresses of their own. -/
theorem readMapping_unique {e e' : ℕ × BitVec 64} (he : e ∈ s.readMapping)
    (he' : e' ∈ s.readMapping) (hkey : e.1 = e'.1) (hlow : pmemMap ≤ e.1)
    (hhigh : e.1 < pintMap) : e.2 = e'.2 := by
  have hinv := s.mem_readMapping he hlow hhigh
  have hinv' := s.mem_readMapping he' (hkey ▸ hlow) (hkey ▸ hhigh)
  -- Two registers of one family have the same section, two of different families differ.
  rcases hinv with ⟨k, rfl | rfl | rfl⟩ | rfl | ⟨k, rfl | rfl⟩ | rfl <;>
    rcases hinv' with ⟨j, rfl | rfl | rfl⟩ | rfl | ⟨j, rfl | rfl⟩ | rfl <;>
    simp only [pmemMap, pmemMapUpdate, pioMap, pioMapUpdate] at hkey <;>
    first
    | rfl
    | omega
    | (obtain rfl : k = j := by omega
       rfl)

/-- What software reads at an address of the maps. -/
theorem readData_of_mem {addr : ℕ} {v : BitVec 64} (hmem : (addr, v) ∈ s.readMapping)
    (hlow : pmemMap ≤ addr) (hhigh : addr < pintMap) : s.readData (BitVec.ofNat 12 addr) = v := by
  have hlt : addr < 2 ^ 12 := hhigh.trans (by decide)
  have hlookup : s.readMapping.reverse.lookup addr = some v := by
    apply lookup_of_unique (mem_reverse.2 hmem)
    intro e he hkey
    exact s.readMapping_unique hmemSections (mem_reverse.1 he) hmem hkey
      (hkey ▸ hlow) (hkey ▸ hhigh)
  rw [readData, BitVec.toNat_ofNat, Nat.mod_eq_of_lt hlt, hlookup, Option.getD_some]

theorem readData_io (hioSections : p.nIOSections ≤ 4) (k : Fin p.nIOSections) :
    s.readData (BitVec.ofNat 12 (pioMap + k * 4 + 0)) = s.regIOMapBase k ∧
      s.readData (BitVec.ofNat 12 (pioMap + k * 4 + 1)) = s.regIOMapMask k := by
  have hk := k.isLt
  have hmem : ∀ e ∈ [(pioMap + k * 4 + 0, s.regIOMapBase k),
      (pioMap + k * 4 + 1, s.regIOMapMask k)], e ∈ s.readMapping := by
    intro e he
    simp only [readMapping, mem_append, mem_flatMap, mem_finRange, true_and]
    exact .inl (.inl (.inr ⟨k, he⟩))
  constructor <;> apply s.readData_of_mem hmemSections (hmem _ (by simp)) <;>
    simp only [pioMap, pmemMap, pintMap] <;> omega

theorem readData_mem (k : Fin p.nMemSections) :
    s.readData (BitVec.ofNat 12 (pmemMap + k * 4 + 0)) = s.regMemMapCoreBase k ∧
      s.readData (BitVec.ofNat 12 (pmemMap + k * 4 + 1)) = s.regMemMapMask k ∧
      s.readData (BitVec.ofNat 12 (pmemMap + k * 4 + 2)) = s.regMemMapPhyBase k := by
  have hk := k.isLt
  have hmem : ∀ e ∈ [(pmemMap + k * 4 + 0, s.regMemMapCoreBase k),
      (pmemMap + k * 4 + 1, s.regMemMapMask k),
      (pmemMap + k * 4 + 2, s.regMemMapPhyBase k)], e ∈ s.readMapping := by
    intro e he
    simp only [readMapping, mem_append, mem_flatMap, mem_finRange, true_and]
    exact .inl (.inl (.inl (.inl (.inr ⟨k, he⟩))))
  refine ⟨?_, ?_, ?_⟩ <;> apply s.readData_of_mem hmemSections (hmem _ (by simp)) <;>
    simp only [pmemMap, pintMap] <;> omega

end PCRControl

/-! ## The controller and the maps -/

/-- The controller, the maps, and the addresses that were written since reset. -/
structure MapSystem (p : PCRParameters) where
  pcr : PCRControl p
  io : IOSpaceConsts p
  mem : MemSpaceConsts p
  written : List ℕ

namespace MapSystem

variable {p : PCRParameters} (s : MapSystem p) (i : PCRControlIn p)

/-- The broadcast of a cycle reaches the maps in the same cycle. -/
def mapIn : MapIn := ⟨i.reset, s.pcr.pcrUpdate i⟩

/-- One clock cycle of all of them. Every input is allowed. -/
abbrev machine (p : PCRParameters) : Machine (MapSystem p) (PCRControlIn p) where
  ok _ _ := True
  next s i :=
    { pcr := s.pcr.next i
      io := s.io.next (s.mapIn i)
      mem := s.mem.next (s.mapIn i)
      written := if i.reset then [] else s.written ++ ((s.pcr.write i).map Prod.fst).toList }

/-- All registers of an IO section were written since reset. -/
def IOWritten (k : Fin p.nIOSections) : Prop :=
  pioMap + k * 4 + 0 ∈ s.written ∧ pioMap + k * 4 + 1 ∈ s.written

/-- All registers of a memory section were written since reset. -/
def MemWritten (k : Fin p.nMemSections) : Prop :=
  pmemMap + k * 4 + 0 ∈ s.written ∧ pmemMap + k * 4 + 1 ∈ s.written ∧
    pmemMap + k * 4 + 2 ∈ s.written

/-- What a cycle does to the registers in effect: without a write to the update register
nothing, with one all sections that were written take what software reads. -/
structure TwoPhase : Prop where
  io_hold : s.pcr.writeAt i pioMapUpdate = none →
    ((machine p).next s i).io.base = s.io.base ∧ ((machine p).next s i).io.mask = s.io.mask
  io_take : s.pcr.writeAt i pioMapUpdate ≠ none → ∀ k, s.IOWritten k →
    ((machine p).next s i).io.base k = s.pcr.readData (BitVec.ofNat 12 (pioMap + k * 4 + 0)) ∧
    ((machine p).next s i).io.mask k = s.pcr.readData (BitVec.ofNat 12 (pioMap + k * 4 + 1))
  mem_hold : s.pcr.writeAt i pmemMapUpdate = none →
    ((machine p).next s i).mem.cbase = s.mem.cbase ∧
    ((machine p).next s i).mem.mask = s.mem.mask ∧
    ((machine p).next s i).mem.pbase = s.mem.pbase
  mem_take : s.pcr.writeAt i pmemMapUpdate ≠ none → ∀ k, s.MemWritten k →
    ((machine p).next s i).mem.cbase k =
      s.pcr.readData (BitVec.ofNat 12 (pmemMap + k * 4 + 0)) ∧
    ((machine p).next s i).mem.mask k =
      s.pcr.readData (BitVec.ofNat 12 (pmemMap + k * 4 + 1)) ∧
    ((machine p).next s i).mem.pbase k =
      s.pcr.readData (BitVec.ofNat 12 (pmemMap + k * 4 + 2))

/-- No IO section beyond the number of memory sections is written. -/
def Stored : Prop :=
  ∀ w ∈ s.pcr.write i, ∀ k : Fin p.nIOSections, p.nMemSections ≤ k.val →
    w.1 ≠ pioMap + k * 4 + 0 ∧ w.1 ≠ pioMap + k * 4 + 1
deriving Decidable

/-- The runs in which the controller stores what is written. -/
abbrev storedMachine (p : PCRParameters) : Machine (MapSystem p) (PCRControlIn p) :=
  (machine p).restrict Stored

/-! ## One cycle -/

theorem pioMap_mem_updateAddrs {k : ℕ} (hk : k < p.nMemSections) :
    pioMap + k * 4 + 0 ∈ updateAddrs p ∧
      pioMap + k * 4 + 1 ∈ updateAddrs p := by
  simp only [updateAddrs, mem_append, mem_flatMap, mem_range]
  exact ⟨.inl (.inr ⟨k, hk, by simp⟩), .inl (.inr ⟨k, hk, by simp⟩)⟩

theorem pmemMap_mem_updateAddrs {k : ℕ} (hk : k < p.nMemSections) :
    pmemMap + k * 4 + 0 ∈ updateAddrs p ∧
      pmemMap + k * 4 + 1 ∈ updateAddrs p ∧
      pmemMap + k * 4 + 2 ∈ updateAddrs p := by
  simp only [updateAddrs, mem_append, mem_flatMap, mem_range]
  exact ⟨.inl (.inl (.inl ⟨k, hk, by simp⟩)), .inl (.inl (.inl ⟨k, hk, by simp⟩)),
    .inl (.inl (.inl ⟨k, hk, by simp⟩))⟩

variable {s i}

/-- What is written in a cycle was written before or is written now. -/
theorem mem_written_next {addr : ℕ} (h : addr ∈ ((machine p).next s i).written) :
    i.reset = false ∧ (s.pcr.writeAt i addr = none → addr ∈ s.written) := by
  simp only at h
  split_ifs at h with hr
  · exact absurd h not_mem_nil
  · refine ⟨by simpa using hr, fun hnone => ?_⟩
    rcases mem_append.1 h with hold | hnew
    · exact hold
    · obtain ⟨w, hw, rfl⟩ := Option.mem_map.1 (Option.mem_toList.1 hnew)
      rw [Option.mem_def] at hw
      simp [writeAt, hw] at hnone

/-- The copy of a register in a map follows the register from the first write on. -/
theorem copy_next {addr : ℕ} (hlow : pmemMap ≤ addr) (hupd : addr ∈ updateAddrs p)
    {copy reg : BitVec 64} (h : addr ∈ s.written → copy = reg)
    (preset preset' : Option (BitVec 64)) (hw : addr ∈ ((machine p).next s i).written) :
    (s.mapIn i).updateReg addr preset copy = s.pcr.mapReg i true addr preset' reg := by
  obtain ⟨hr, hold⟩ := mem_written_next hw
  have hhost : addr ≠ pfromhost := by
    rintro rfl
    exact absurd hlow (by decide)
  have htime : addr ≠ ptime := by
    rintro rfl
    exact absurd hlow (by decide)
  rw [MapIn.updateReg_eq, mapReg_eq, mapIn, s.pcr.updateAt_pcrUpdate i hhost htime hupd]
  cases hat : s.pcr.writeAt i addr with
  | some d => rfl
  | none => simpa [hr] using h (hold hat)

/-- The registers that were written agree with their copies. -/
structure Inv (s : MapSystem p) : Prop where
  stored : ∀ k : Fin p.nIOSections, p.nMemSections ≤ k.val →
    pioMap + k * 4 + 0 ∉ s.written ∧ pioMap + k * 4 + 1 ∉ s.written
  ioBase : ∀ k : Fin p.nIOSections, pioMap + k * 4 + 0 ∈ s.written →
    s.io.baseUpdate k = s.pcr.regIOMapBase k
  ioMask : ∀ k : Fin p.nIOSections, pioMap + k * 4 + 1 ∈ s.written →
    s.io.maskUpdate k = s.pcr.regIOMapMask k
  cbase : ∀ k : Fin p.nMemSections, pmemMap + k * 4 + 0 ∈ s.written →
    s.mem.cbaseUpdate k = s.pcr.regMemMapCoreBase k
  mask : ∀ k : Fin p.nMemSections, pmemMap + k * 4 + 1 ∈ s.written →
    s.mem.maskUpdate k = s.pcr.regMemMapMask k
  pbase : ∀ k : Fin p.nMemSections, pmemMap + k * 4 + 2 ∈ s.written →
    s.mem.pbaseUpdate k = s.pcr.regMemMapPhyBase k

theorem not_mem_written_next {addr : ℕ} (h : addr ∉ s.written)
    (hw : ∀ w ∈ s.pcr.write i, w.1 ≠ addr) : addr ∉ ((machine p).next s i).written := by
  intro hmem
  refine h ((mem_written_next hmem).2 ?_)
  cases hwr : s.pcr.write i with
  | none => simp [writeAt, hwr]
  | some w => simp [writeAt, hwr, hw w hwr]

theorem Inv.next (h : s.Inv) (hst : s.Stored i) : ((machine p).next s i).Inv := by
  have hstored : ∀ k : Fin p.nIOSections, p.nMemSections ≤ k.val →
      pioMap + k * 4 + 0 ∉ ((machine p).next s i).written ∧
        pioMap + k * 4 + 1 ∉ ((machine p).next s i).written := by
    intro k hk
    obtain ⟨hbase, hmask⟩ := h.stored k hk
    exact ⟨not_mem_written_next hbase fun w hw => (hst w hw k hk).1,
      not_mem_written_next hmask fun w hw => (hst w hw k hk).2⟩
  have hwritable : ∀ k : Fin p.nIOSections, (pioMap + k * 4 + 0 ∈
      ((machine p).next s i).written ∨ pioMap + k * 4 + 1 ∈
      ((machine p).next s i).written) → k.val < p.nMemSections := by
    intro k hw
    by_contra hk
    obtain ⟨hbase, hmask⟩ := hstored k (not_lt.1 hk)
    exact hw.elim hbase hmask
  have hioLow : ∀ n m, pmemMap ≤ pioMap + n + m := by
    intro n m
    simp only [pmemMap, pioMap]
    omega
  have hmemLow : ∀ n m, pmemMap ≤ pmemMap + n + m := by
    intro n m
    omega
  refine ⟨hstored, ?_, ?_, ?_, ?_, ?_⟩
  · intro k hw
    have hk := hwritable k (.inl hw)
    simp only [IOSpaceConsts.next, PCRControl.next, decide_eq_true hk]
    exact copy_next (hioLow _ _) (pioMap_mem_updateAddrs hk).1 (h.ioBase k) _ _ hw
  · intro k hw
    have hk := hwritable k (.inr hw)
    simp only [IOSpaceConsts.next, PCRControl.next, decide_eq_true hk]
    exact copy_next (hioLow _ _) (pioMap_mem_updateAddrs hk).2 (h.ioMask k) _ _ hw
  · intro k hw
    exact copy_next (hmemLow _ _) (pmemMap_mem_updateAddrs k.isLt).1 (h.cbase k) _ _ hw
  · intro k hw
    exact copy_next (hmemLow _ _) (pmemMap_mem_updateAddrs k.isLt).2.1 (h.mask k) _ _ hw
  · intro k hw
    exact copy_next (hmemLow _ _) (pmemMap_mem_updateAddrs k.isLt).2.2 (h.pbase k) _ _ hw

/-- A register in effect changes only with a write to its update register. -/
theorem effectReg_write {addr : ℕ} (hhost : addr ≠ pfromhost) (htime : addr ≠ ptime)
    (hupd : addr ∈ updateAddrs p) (hr : i.reset = false) (new old : BitVec 64) :
    (s.mapIn i).effectReg addr new old =
      if s.pcr.writeAt i addr = none then old else new := by
  rw [MapIn.effectReg_eq, mapIn, s.pcr.updateAt_pcrUpdate i hhost htime hupd]
  cases s.pcr.writeAt i addr <;> simp [hr]

theorem twoPhase_of_inv (hmem : p.nMemSections ≤ 4) (hio : p.nIOSections ≤ 4) (h : s.Inv)
    (hr : i.reset = false) : s.TwoPhase i := by
  have hioUpd : ∀ new old : BitVec 64, (s.mapIn i).effectReg pioMapUpdate new old =
      if s.pcr.writeAt i pioMapUpdate = none then old else new :=
    effectReg_write (by decide) (by decide) (by simp [updateAddrs]) hr
  have hmemUpd : ∀ new old : BitVec 64, (s.mapIn i).effectReg pmemMapUpdate new old =
      if s.pcr.writeAt i pmemMapUpdate = none then old else new :=
    effectReg_write (by decide) (by decide) (by simp [updateAddrs]) hr
  refine ⟨?_, ?_, ?_, ?_⟩
  · intro hnone
    constructor <;> funext k <;> exact (hioUpd _ _).trans (if_pos hnone)
  · intro hsome k hk
    obtain ⟨hbase, hmask⟩ := s.pcr.readData_io hmem hio k
    rw [hbase, hmask]
    exact ⟨((hioUpd _ _).trans (if_neg hsome)).trans (h.ioBase k hk.1),
      ((hioUpd _ _).trans (if_neg hsome)).trans (h.ioMask k hk.2)⟩
  · intro hnone
    refine ⟨?_, ?_, ?_⟩ <;> funext k <;> exact (hmemUpd _ _).trans (if_pos hnone)
  · intro hsome k hk
    obtain ⟨hcbase, hmask, hpbase⟩ := s.pcr.readData_mem hmem k
    rw [hcbase, hmask, hpbase]
    exact ⟨((hmemUpd _ _).trans (if_neg hsome)).trans (h.cbase k hk.1),
      ((hmemUpd _ _).trans (if_neg hsome)).trans (h.mask k hk.2.1),
      ((hmemUpd _ _).trans (if_neg hsome)).trans (h.pbase k hk.2.2)⟩

/-! ## Whole runs -/

/-- The registers before the run, with nothing written yet. -/
def start (pcr : PCRControl p) (maps : MapSpaces p) : MapSystem p := ⟨pcr, maps.io, maps.mem, []⟩

/-- In every run in which the controller stores what is written, in every cycle without reset:
the maps change only when their update register is written, and then every section that was
written since reset takes what software reads. -/
theorem map_update_atomic (hmem : p.nMemSections ≤ 4) (hio : p.nIOSections ≤ 4)
    (pcr : PCRControl p) (maps : MapSpaces p) (is : List (PCRControlIn p))
    (hl : (storedMachine p).Legal (start pcr maps) is) (i : PCRControlIn p)
    (hr : i.reset = false) : ((machine p).run (start pcr maps) is).TwoPhase i := by
  have hinv := Machine.invariant_run (m := storedMachine p) (P := Inv)
    (fun s i h hok => h.next hok.2)
    (s := start pcr maps) ⟨fun _ _ => ⟨not_mem_nil, not_mem_nil⟩,
      fun _ h => absurd h not_mem_nil, fun _ h => absurd h not_mem_nil,
      fun _ h => absurd h not_mem_nil, fun _ h => absurd h not_mem_nil,
      fun _ h => absurd h not_mem_nil⟩ hl
  rw [storedMachine, Machine.run_restrict] at hinv
  exact twoPhase_of_inv hmem hio hinv hr

/-! ## A section that is not stored -/

/-- A controller with some contents before reset. -/
def someController (p : PCRParameters) (x : BitVec 64) : PCRControl p where
  regTime := x
  regMemMapCoreBase _ := x
  regMemMapMask _ := x
  regMemMapPhyBase _ := x
  regIOMapBase _ := x
  regIOMapMask _ := x
  regTohost := 0
  regTohostCoreId := 0
  regIntEn _ := x
  regIntPending := 0
  regTagCtrl := x
  wallClock := 0
  softReset := false
  softResetCnt := 0
  lastGrant := 0

/-- A cycle in which every core offers the same request. -/
def requestCycle (p : PCRParameters) (reset : Bool) (req : Option PCRReq) : PCRControlIn p where
  reset := reset
  pcrReq _ := req
  hostReqReady := false
  hostResp := none
  interrupt := 0

/-- Two reset cycles, then writes to some registers. -/
def writesRun (p : PCRParameters) (writes : List (BitVec 12 × BitVec 64)) : List (PCRControlIn p) :=
  [requestCycle p true none, requestCycle p true none] ++
    writes.map fun w => requestCycle p false (some ⟨0, w.1, .W, w.2⟩)

theorem map_update_atomic_shipped :
    ((machine .defaultConfig).run (start (someController _ 5) (someMaps _ 5))
        (writesRun _ [(0x7b4, 0x40000000), (0x7b5, 0xfff)])).TwoPhase
      (requestCycle _ false (some ⟨0, 0x7bf, .W, 0⟩)) :=
  map_update_atomic (by decide) (by decide) _ _ _ (by decide +kernel) _ rfl

/-- One memory section and two IO sections. -/
def twoIOSections : PCRParameters :=
  { PCRParameters.defaultConfig with nMemSections := 1 }

/-- Base and mask of the second IO section are written, then the update register. The section
in effect is what reset made it, and software reads what was there before reset. -/
theorem dropped_io_section :
    let s := (machine twoIOSections).run (start (someController _ 5) (someMaps _ 5))
      (writesRun _ [(0x7b4, 0x40000000), (0x7b5, 0xfff)])
    let i := requestCycle _ false (some ⟨0, 0x7bf, .W, 0⟩)
    s.written = [0x7b4, 0x7b5] ∧ ((machine twoIOSections).next s i).io.base ⟨1, by decide⟩ = 0 ∧
      s.pcr.readData 0x7b4 = 5 ∧ ¬ s.TwoPhase i := by
  intro s i
  have hbase : ((machine twoIOSections).next s i).io.base ⟨1, by decide⟩ = 0 := by decide +kernel
  have hread : s.pcr.readData 0x7b4 = 5 := by decide +kernel
  refine ⟨by decide +kernel, hbase, hread, ?_⟩
  intro h
  have htake := h.io_take (by decide +kernel) ⟨1, by decide⟩
    ⟨by decide +kernel, by decide +kernel⟩
  exact absurd (hbase.symm.trans (htake.1.trans hread)) (by decide)

end MapSystem

end TaggedRiscv
