import TaggedRiscv.Lib.Machine
import TaggedRiscv.Pcr.Control

/-!
# The address maps (`IOSpaceConsts`, `MemSpaceConsts`)

The maps are kept where they are used: the IO map in the data caches, the memory map in the
tag cache. Each section has a base and a mask, and an address belongs to it if it agrees with
the base outside of the mask. The registers are written in two phases: writes go to a copy,
and a write to the update register puts the copy into effect.

A section that reset disables has base and mask 0. There is no enable bit, so address 0 is in
it. Its physical base is a register that reset does not set.
-/

namespace TaggedRiscv

open Sync

/-- The registers of the IO map. -/
structure IOSpaceConsts (p : PCRParameters) where
  base : Fin p.nIOSections → BitVec 64
  mask : Fin p.nIOSections → BitVec 64
  baseUpdate : Fin p.nIOSections → BitVec 64
  maskUpdate : Fin p.nIOSections → BitVec 64

/-- The registers of the memory map. -/
structure MemSpaceConsts (p : PCRParameters) where
  cbase : Fin p.nMemSections → BitVec 64
  mask : Fin p.nMemSections → BitVec 64
  pbase : Fin p.nMemSections → BitVec 64
  cbaseUpdate : Fin p.nMemSections → BitVec 64
  maskUpdate : Fin p.nMemSections → BitVec 64
  pbaseUpdate : Fin p.nMemSections → BitVec 64

/-- The inputs of a map in one cycle. -/
structure MapIn where
  reset : Bool
  update : Option PCRUpdate

/-- An update register at address `addr`: written by an update, else preset in a reset cycle. -/
def MapIn.updateReg (i : MapIn) (addr : ℕ) (preset : Option (BitVec 64)) (old : BitVec 64) :
    BitVec 64 :=
  if i.update.any (·.addr == addr) then (i.update.map PCRUpdate.data).getD old
  else if i.reset then preset.getD old
  else old

/-- An effective register, which takes the update register at address `addr` or in a reset
cycle. -/
def MapIn.effectReg (i : MapIn) (addr : ℕ) (new old : BitVec 64) : BitVec 64 :=
  if i.update.any (·.addr == addr) || i.reset then new else old

/-- The mask-compare of a section, on the bits `(pALen, 0)` of the registers. -/
def sectionCheck (base mask : BitVec 64) (a : BitVec 32) : Bool :=
  a.setWidth 33 &&& ~~~(mask.setWidth 33) == base.setWidth 33

/-- The `or` of the words of a list. -/
def orR {w : ℕ} (l : List (BitVec w)) : BitVec w := l.foldr (· ||| ·) 0#w

namespace IOSpaceConsts

variable {p : PCRParameters} (s : IOSpaceConsts p) (i : MapIn)

def next : IOSpaceConsts p where
  base k := i.effectReg PCRs.pioMapUpdate (s.baseUpdate k) (s.base k)
  mask k := i.effectReg PCRs.pioMapUpdate (s.maskUpdate k) (s.mask k)
  baseUpdate k := i.updateReg (PCRs.pioMap + k * 4 + 0)
    (some (if k.val = 0 then p.initIOBase else 0)) (s.baseUpdate k)
  maskUpdate k := i.updateReg (PCRs.pioMap + k * 4 + 1)
    (some (if k.val = 0 then p.initIOMask else 0)) (s.maskUpdate k)

def check (a : BitVec 32) (k : Fin p.nIOSections) : Bool := sectionCheck (s.base k) (s.mask k) a

def isIO (a : BitVec 32) : Bool := (List.finRange p.nIOSections).any (s.check a)

end IOSpaceConsts

namespace MemSpaceConsts

variable {p : PCRParameters} (s : MemSpaceConsts p) (i : MapIn)

def next : MemSpaceConsts p where
  cbase k := i.effectReg PCRs.pmemMapUpdate (s.cbaseUpdate k) (s.cbase k)
  mask k := i.effectReg PCRs.pmemMapUpdate (s.maskUpdate k) (s.mask k)
  pbase k := i.effectReg PCRs.pmemMapUpdate (s.pbaseUpdate k) (s.pbase k)
  cbaseUpdate k := i.updateReg (PCRs.pmemMap + k * 4 + 0)
    (some (if k.val = 0 then p.initMemBase else 0)) (s.cbaseUpdate k)
  maskUpdate k := i.updateReg (PCRs.pmemMap + k * 4 + 1)
    (some (if k.val = 0 then p.initMemMask else 0)) (s.maskUpdate k)
  -- Reset does not set the physical base of a disabled section.
  pbaseUpdate k := i.updateReg (PCRs.pmemMap + k * 4 + 2)
    (if k.val = 0 then some p.initPhyBase else none) (s.pbaseUpdate k)

/-- The part of a section in the physical address. -/
def addrVec (a : BitVec 32) (k : Fin p.nMemSections) : BitVec 32 :=
  if sectionCheck (s.cbase k) (s.mask k) a then
    ((a.setWidth 64 &&& s.mask k) ||| s.pbase k).setWidth 32
  else 0

def phyAddr (a : BitVec 32) : BitVec 32 := orR ((List.finRange p.nMemSections).map (s.addrVec a))

end MemSpaceConsts

/-! ## Sections -/

/-- The address agrees with the base outside of the mask. The base and the mask count with one
bit more than an address has. -/
def InSection (base mask : BitVec 64) (a : BitVec 32) : Prop :=
  ∀ j ≤ 32, base.getLsbD j = (a.getLsbD j && !mask.getLsbD j)

theorem sectionCheck_iff {base mask : BitVec 64} {a : BitVec 32} :
    sectionCheck base mask a ↔ InSection base mask a := by
  rw [sectionCheck, beq_iff_eq]
  constructor
  · intro h j hj
    have hbit := congrArg (fun x => BitVec.getLsbD x j) h
    simpa [BitVec.getLsbD_setWidth, Nat.lt_succ_of_le hj] using hbit.symm
  · intro h
    apply BitVec.eq_of_getLsbD_eq
    intro j hj
    simpa [BitVec.getLsbD_setWidth, hj] using (h j (Nat.le_of_lt_succ hj)).symm

instance (base mask : BitVec 64) (a : BitVec 32) : Decidable (InSection base mask a) :=
  decidable_of_iff _ sectionCheck_iff

/-- Only address 0 is in a disabled section. -/
theorem inSection_disabled {a : BitVec 32} : InSection 0 0 a ↔ a = 0 := by
  constructor
  · intro h
    apply BitVec.eq_of_getLsbD_eq
    intro j hj
    simpa using (h j hj.le).symm
  · rintro rfl j -
    simp

theorem getLsbD_orR {w : ℕ} (l : List (BitVec w)) (j : ℕ) :
    (orR l).getLsbD j = l.any (·.getLsbD j) := by
  induction l with
  | nil => simp [orR]
  | cons x l ih => rw [orR, List.foldr_cons, ← orR, BitVec.getLsbD_or, ih, List.any_cons]

/-- A word of the list is its `or` exactly if it has all bits of the others. -/
theorem orR_eq_iff {w : ℕ} {l : List (BitVec w)} {v : BitVec w} (hv : v ∈ l) :
    orR l = v ↔ ∀ x ∈ l, v ||| x = v := by
  constructor
  · rintro rfl x hx
    apply BitVec.eq_of_getLsbD_eq
    intro j _
    rw [BitVec.getLsbD_or, getLsbD_orR]
    cases hbit : x.getLsbD j with
    | false => simp
    | true => simpa using ⟨x, hx, hbit⟩
  · intro h
    apply BitVec.eq_of_getLsbD_eq
    intro j _
    rw [getLsbD_orR, Bool.eq_iff_iff, List.any_eq_true]
    constructor
    · rintro ⟨x, hx, hbit⟩
      rw [← h x hx, BitVec.getLsbD_or, hbit, Bool.or_true]
    · exact fun hbit => ⟨v, hv, hbit⟩

/-! ## After reset -/

/-- Both maps. -/
structure MapSpaces (p : PCRParameters) where
  io : IOSpaceConsts p
  mem : MemSpaceConsts p

/-- The addresses of the registers of the maps. -/
def mapAddrs (p : PCRParameters) : List ℕ :=
  [PCRs.pioMapUpdate, PCRs.pmemMapUpdate] ++
    ((List.finRange p.nIOSections).flatMap fun k =>
      [PCRs.pioMap + k * 4 + 0, PCRs.pioMap + k * 4 + 1]) ++
    (List.finRange p.nMemSections).flatMap fun k =>
      [PCRs.pmemMap + k * 4 + 0, PCRs.pmemMap + k * 4 + 1, PCRs.pmemMap + k * 4 + 2]

/-- Nothing is written to the maps; updates of other registers go by. -/
def MapIn.Quiet (p : PCRParameters) (i : MapIn) : Prop := ∀ v ∈ i.update, v.addr ∉ mapAddrs p
deriving Decidable

/-- The maps while nothing is written to them. -/
abbrev quietMachine (p : PCRParameters) : Machine (MapSpaces p) MapIn where
  ok _ i := i.Quiet p
  next s i := ⟨s.io.next i, s.mem.next i⟩

variable {p : PCRParameters}

/-- What a reset cycle loads. The physical bases of the disabled sections stay what they were
in `u`. -/
structure Loaded (u s : MapSpaces p) : Prop where
  ioBase : ∀ k, s.io.baseUpdate k = if k.val = 0 then p.initIOBase else 0
  ioMask : ∀ k, s.io.maskUpdate k = if k.val = 0 then p.initIOMask else 0
  cbase : ∀ k, s.mem.cbaseUpdate k = if k.val = 0 then p.initMemBase else 0
  mask : ∀ k, s.mem.maskUpdate k = if k.val = 0 then p.initMemMask else 0
  pbase : ∀ k, s.mem.pbaseUpdate k = if k.val = 0 then p.initPhyBase else u.mem.pbaseUpdate k

/-- What is loaded is in effect. -/
structure InEffect (s : MapSpaces p) : Prop where
  ioBase : s.io.base = s.io.baseUpdate
  ioMask : s.io.mask = s.io.maskUpdate
  cbase : s.mem.cbase = s.mem.cbaseUpdate
  mask : s.mem.mask = s.mem.maskUpdate
  pbase : s.mem.pbase = s.mem.pbaseUpdate

variable {u s : MapSpaces p} {i : MapIn}

theorem pioMap_mem_mapAddrs (k : Fin p.nIOSections) :
    PCRs.pioMap + k * 4 + 0 ∈ mapAddrs p ∧ PCRs.pioMap + k * 4 + 1 ∈ mapAddrs p := by
  simp only [mapAddrs, List.mem_append, List.mem_flatMap]
  exact ⟨.inl (.inr ⟨k, by simp⟩), .inl (.inr ⟨k, by simp⟩)⟩

theorem pmemMap_mem_mapAddrs (k : Fin p.nMemSections) :
    PCRs.pmemMap + k * 4 + 0 ∈ mapAddrs p ∧ PCRs.pmemMap + k * 4 + 1 ∈ mapAddrs p ∧
      PCRs.pmemMap + k * 4 + 2 ∈ mapAddrs p := by
  simp only [mapAddrs, List.mem_append, List.mem_flatMap]
  exact ⟨.inr ⟨k, by simp⟩, .inr ⟨k, by simp⟩, .inr ⟨k, by simp⟩⟩

section

variable {addr : ℕ} (hi : i.Quiet p) (ha : addr ∈ mapAddrs p)

include hi ha

theorem MapIn.Quiet.any_eq : i.update.any (·.addr == addr) = false := by
  cases hu : i.update with
  | none => rfl
  | some v =>
    rw [Option.any_some, beq_eq_false_iff_ne]
    rintro rfl
    exact hi v hu ha

/-- Without an update the update registers take their presets or stay. -/
theorem MapIn.Quiet.updateReg_eq (preset : Option (BitVec 64)) (old : BitVec 64) :
    i.updateReg addr preset old = if i.reset then preset.getD old else old := by
  simp [MapIn.updateReg, hi.any_eq ha]

/-- Loading again changes nothing. -/
theorem MapIn.Quiet.updateReg_of_loaded {v old : BitVec 64} (h : old = v) :
    i.updateReg addr (some v) old = v := by
  rw [hi.updateReg_eq ha, h, Option.getD_some, ite_self]

/-- What was loaded is in effect after a reset cycle, and stays so. -/
theorem MapIn.Quiet.effectReg_of_loaded {new old : BitVec 64} (h : i.reset = false → old = new) :
    i.effectReg addr new old = new := by
  cases hr : i.reset with
  | false => simp [MapIn.effectReg, hi.any_eq ha, hr, h hr]
  | true => simp [MapIn.effectReg, hr]

end

theorem loaded_of_reset (u : MapSpaces p) : Loaded u ((quietMachine p).next u ⟨true, none⟩) where
  ioBase _ := rfl
  ioMask _ := rfl
  cbase _ := rfl
  mask _ := rfl
  pbase k := by
    simp only [MemSpaceConsts.next, MapIn.updateReg, Option.any_none, if_true, Bool.false_eq_true,
      if_false]
    split_ifs <;> rfl

theorem Loaded.next (h : Loaded u s) (hi : i.Quiet p) : Loaded u ((quietMachine p).next s i) where
  ioBase k := hi.updateReg_of_loaded (pioMap_mem_mapAddrs k).1 (h.ioBase k)
  ioMask k := hi.updateReg_of_loaded (pioMap_mem_mapAddrs k).2 (h.ioMask k)
  cbase k := hi.updateReg_of_loaded (pmemMap_mem_mapAddrs k).1 (h.cbase k)
  mask k := hi.updateReg_of_loaded (pmemMap_mem_mapAddrs k).2.1 (h.mask k)
  pbase k := by
    have hk := h.pbase k
    have hmem := (pmemMap_mem_mapAddrs k).2.2
    simp only [MemSpaceConsts.next]
    split_ifs at hk ⊢
    · exact hi.updateReg_of_loaded hmem hk
    · rw [hi.updateReg_eq hmem, Option.getD_none, ite_self, hk]

/-- What was loaded is in effect after a reset cycle, and stays so. -/
theorem Loaded.inEffect_next (h : Loaded u s) (hi : i.Quiet p)
    (heff : i.reset ∨ InEffect s) : InEffect ((quietMachine p).next s i) := by
  have hnext := h.next hi
  have hold (hr : i.reset = false) : InEffect s := heff.resolve_left (by simp [hr])
  have hio : PCRs.pioMapUpdate ∈ mapAddrs p := List.mem_cons_self
  have hmem : PCRs.pmemMapUpdate ∈ mapAddrs p := List.mem_cons_of_mem _ List.mem_cons_self
  refine ⟨?_, ?_, ?_, ?_, ?_⟩ <;> funext k
  · exact (hi.effectReg_of_loaded hio fun hr => congrFun (hold hr).ioBase k).trans
      ((h.ioBase k).trans (hnext.ioBase k).symm)
  · exact (hi.effectReg_of_loaded hio fun hr => congrFun (hold hr).ioMask k).trans
      ((h.ioMask k).trans (hnext.ioMask k).symm)
  · exact (hi.effectReg_of_loaded hmem fun hr => congrFun (hold hr).cbase k).trans
      ((h.cbase k).trans (hnext.cbase k).symm)
  · exact (hi.effectReg_of_loaded hmem fun hr => congrFun (hold hr).mask k).trans
      ((h.mask k).trans (hnext.mask k).symm)
  · exact (hi.effectReg_of_loaded hmem fun hr => congrFun (hold hr).pbase k).trans
      ((h.pbase k).trans (hnext.pbase k).symm)

/-- After two reset cycles the presets are in effect until the maps are written. -/
theorem loaded_run {is : List MapIn}
    (hl : (quietMachine p).Legal u (⟨true, none⟩ :: ⟨true, none⟩ :: is)) :
    Loaded u ((quietMachine p).run u (⟨true, none⟩ :: ⟨true, none⟩ :: is)) ∧
      InEffect ((quietMachine p).run u (⟨true, none⟩ :: ⟨true, none⟩ :: is)) := by
  have hfirst := loaded_of_reset u
  refine Machine.invariant_run (m := quietMachine p) (P := fun s => Loaded u s ∧ InEffect s)
    (s := (quietMachine p).next ((quietMachine p).next u ⟨true, none⟩) ⟨true, none⟩)
    (fun s i h hi => ⟨h.1.next hi, h.1.inEffect_next hi (.inr h.2)⟩) ?_ hl.2.2
  have hquiet : (⟨true, none⟩ : MapIn).Quiet p := by simp [MapIn.Quiet]
  exact ⟨hfirst.next hquiet, hfirst.inEffect_next hquiet (.inl rfl)⟩

/-! ## What the disabled sections do -/

/-- What the first section of the memory map alone makes of an address. -/
def firstPhyAddr (p : PCRParameters) (a : BitVec 32) : BitVec 32 :=
  if InSection p.initMemBase p.initMemMask a then
    ((a.setWidth 64 &&& p.initMemMask) ||| p.initPhyBase).setWidth 32
  else 0

/-- The maps say what their first sections say. -/
structure Untouched (s : MapSpaces p) (a : BitVec 32) : Prop where
  isIO_iff : s.io.isIO a ↔ InSection p.initIOBase p.initIOMask a
  phyAddr_eq : s.mem.phyAddr a = firstPhyAddr p a

section

variable (h : Loaded u s) (he : InEffect s)

include h he

theorem check_eq (k : Fin p.nIOSections) (a : BitVec 32) :
    s.io.check a k ↔
      if k.val = 0 then InSection p.initIOBase p.initIOMask a else a = 0 := by
  rw [IOSpaceConsts.check, sectionCheck_iff, he.ioBase, he.ioMask, h.ioBase, h.ioMask]
  split_ifs
  · rfl
  · exact inSection_disabled

/-- A disabled IO section only matters for address 0. -/
theorem isIO_iff (hio : 0 < p.nIOSections) (a : BitVec 32) :
    (s.io.isIO a ↔ InSection p.initIOBase p.initIOMask a) ↔
      (a = 0 → 1 < p.nIOSections → InSection p.initIOBase p.initIOMask 0) := by
  have hany : s.io.isIO a ↔
      InSection p.initIOBase p.initIOMask a ∨ (1 < p.nIOSections ∧ a = 0) := by
    rw [IOSpaceConsts.isIO, List.any_eq_true]
    simp only [List.mem_finRange, true_and, check_eq h he]
    constructor
    · rintro ⟨k, hk⟩
      split_ifs at hk with hzero
      · exact .inl hk
      · exact .inr ⟨by omega, hk⟩
    · rintro (hin | ⟨hone, hzero⟩)
      · exact ⟨⟨0, hio⟩, by simpa using hin⟩
      · exact ⟨⟨1, hone⟩, by simpa using hzero⟩
  rw [hany]
  constructor
  · rintro hiff rfl hone
    exact hiff.1 (.inr ⟨hone, rfl⟩)
  · intro himp
    constructor
    · rintro (hin | ⟨hone, rfl⟩)
      · exact hin
      · exact himp rfl hone
    · exact .inl

theorem addrVec_eq (k : Fin p.nMemSections) (a : BitVec 32) :
    s.mem.addrVec a k =
      if k.val = 0 then firstPhyAddr p a
      else if a = 0 then (u.mem.pbaseUpdate k).setWidth 32 else 0 := by
  rw [MemSpaceConsts.addrVec, he.cbase, he.mask, he.pbase, h.cbase, h.mask, h.pbase]
  by_cases hk : k.val = 0
  · simp only [hk, if_true, sectionCheck_iff]
    rfl
  · simp only [hk, if_false, sectionCheck_iff, inSection_disabled]
    by_cases ha : a = 0 <;> simp [ha]

/-- A disabled memory section only matters for address 0, if its physical base has a bit that
the first section does not give. -/
theorem phyAddr_iff (hmem : 0 < p.nMemSections) (a : BitVec 32) :
    s.mem.phyAddr a = firstPhyAddr p a ↔
      (a = 0 → ∀ k : Fin p.nMemSections, k.val ≠ 0 →
        firstPhyAddr p 0 ||| (u.mem.pbaseUpdate k).setWidth 32 = firstPhyAddr p 0) := by
  have hfirst : firstPhyAddr p a ∈ (List.finRange p.nMemSections).map (s.mem.addrVec a) :=
    List.mem_map.2 ⟨⟨0, hmem⟩, List.mem_finRange _, by rw [addrVec_eq h he, if_pos rfl]⟩
  rw [MemSpaceConsts.phyAddr, orR_eq_iff hfirst, List.forall_mem_map]
  constructor
  · rintro hall rfl k hk
    have hor := hall k (List.mem_finRange k)
    rwa [addrVec_eq h he, if_neg hk, if_pos rfl] at hor
  · intro himp k _
    rw [addrVec_eq h he]
    split_ifs with hk ha
    · exact BitVec.or_self
    · subst ha
      exact himp rfl k hk
    · exact BitVec.or_zero

end

/-- After two reset cycles and before the maps are written, the disabled sections have no
influence on an address, unless it is address 0 and there are disabled IO sections that make
it an IO address, or a disabled memory section whose physical base has a new bit. -/
theorem untouched_iff (hio : 0 < p.nIOSections) (hmem : 0 < p.nMemSections) {is : List MapIn}
    (hl : (quietMachine p).Legal u (⟨true, none⟩ :: ⟨true, none⟩ :: is)) (a : BitVec 32) :
    Untouched ((quietMachine p).run u (⟨true, none⟩ :: ⟨true, none⟩ :: is)) a ↔
      (a = 0 → (1 < p.nIOSections → InSection p.initIOBase p.initIOMask 0) ∧
        ∀ k : Fin p.nMemSections, k.val ≠ 0 →
          firstPhyAddr p 0 ||| (u.mem.pbaseUpdate k).setWidth 32 = firstPhyAddr p 0) := by
  obtain ⟨hload, heff⟩ := loaded_run hl
  have hio := isIO_iff hload heff hio a
  have hphy := phyAddr_iff hload heff hmem a
  constructor
  · intro hun ha
    exact ⟨hio.1 hun.isIO_iff ha, hphy.1 hun.phyAddr_eq ha⟩
  · intro himp
    exact ⟨hio.2 fun ha => (himp ha).1, hphy.2 fun ha => (himp ha).2⟩

/-- Maps with some contents before reset. -/
def someMaps (p : PCRParameters) (x : BitVec 64) : MapSpaces p :=
  ⟨⟨fun _ => x, fun _ => x, fun _ => x, fun _ => x⟩,
    ⟨fun _ => x, fun _ => x, fun _ => x, fun _ => x, fun _ => x, fun _ => x⟩⟩

/-- The time is broadcast after reset. -/
theorem untouched_iff_shipped :
    Untouched ((quietMachine .defaultConfig).run (someMaps .defaultConfig 5)
        (⟨true, none⟩ :: ⟨true, none⟩ :: [⟨false, some ⟨true, 0, PCRs.ptime, 7⟩⟩])) 0x1000 ↔
      ((0x1000 : BitVec 32) = 0 → (1 < PCRParameters.defaultConfig.nIOSections →
        InSection PCRParameters.defaultConfig.initIOBase
          PCRParameters.defaultConfig.initIOMask 0) ∧
        ∀ k : Fin PCRParameters.defaultConfig.nMemSections, k.val ≠ 0 →
          firstPhyAddr .defaultConfig 0 |||
            ((someMaps .defaultConfig 5).mem.pbaseUpdate k).setWidth 32 =
              firstPhyAddr .defaultConfig 0) := by
  have hl : (quietMachine .defaultConfig).Legal (someMaps .defaultConfig 5)
      (⟨true, none⟩ :: ⟨true, none⟩ :: [⟨false, some ⟨true, 0, PCRs.ptime, 7⟩⟩]) := by decide
  exact untouched_iff (by decide) (by decide) hl _

/-- In the shipped configuration the first IO section begins at 0x80000000. After reset the
second one makes address 0 an IO address, and the second memory section maps it to whatever its
physical base is. -/
theorem address_zero_isIO :
    let s := (quietMachine .defaultConfig).run (someMaps .defaultConfig 5)
      [⟨true, none⟩, ⟨true, none⟩]
    s.io.isIO 0 = true ∧ s.mem.phyAddr 0 = 5 ∧
      ¬ InSection PCRParameters.defaultConfig.initIOBase
        PCRParameters.defaultConfig.initIOMask 0 ∧ ¬ Untouched s 0 := by
  have hout : ¬ InSection PCRParameters.defaultConfig.initIOBase
      PCRParameters.defaultConfig.initIOMask 0 := by decide
  exact ⟨by decide, by decide, hout, fun h => hout (h.isIO_iff.1 (by decide))⟩

end TaggedRiscv
