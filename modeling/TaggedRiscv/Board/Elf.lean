import TaggedRiscv.Lib.Memory

/-!
# The ELF loader (`load_elf`)

The loader of the board's driver reads the headers of an ELF file in memory and copies its
loadable segments to the target. It checks that the table of program headers and the file range of
every segment end within the file, but the ends are computed with 64 bits. An offset close to
`2 ^ 64` makes the sum small again, and the loader reads in front of the file.
-/

namespace TaggedRiscv.Elf

open Memory BitVec

/-! ## Headers -/

/-- The fields of a program header that the loader reads. -/
structure Phdr where
  pType : BitVec 32
  pOffset : BitVec 64
  pPaddr : BitVec 64
  pFilesz : BitVec 64
  pMemsz : BitVec 64
  deriving DecidableEq

/-- The program header at an address. -/
def phdrAt (m : Mem 64) (p : BitVec 64) : Phdr where
  pType := BitVec.ofNat 32 (readLE m p 4)
  pOffset := BitVec.ofNat 64 (readLE m (p + 8) 8)
  pPaddr := BitVec.ofNat 64 (readLE m (p + 24) 8)
  pFilesz := BitVec.ofNat 64 (readLE m (p + 32) 8)
  pMemsz := BitVec.ofNat 64 (readLE m (p + 40) 8)

/-- The segment is to be loaded (`PT_LOAD` is 1). -/
def Phdr.load (h : Phdr) : Bool := h.pType == 1 && h.pMemsz != 0

/-- The size of a program header. -/
def phdrSize : ℕ := 56

/-- The size of the ELF header. -/
def ehdrSize : ℕ := 64

/-- The arguments of the loader. -/
structure Args where
  target : BitVec 64
  elf : BitVec 64
  size : BitVec 32

namespace Args

variable (x : Args) (m : Mem 64)

def phoff : BitVec 64 := BitVec.ofNat 64 (readLE m (x.elf + 32) 8)

def phnum : BitVec 16 := BitVec.ofNat 16 (readLE m (x.elf + 56) 2)

/-- `IS_ELF64` of the header. -/
def isElf64 : Bool :=
  m x.elf == 0x7f && m (x.elf + 1) == 0x45 && m (x.elf + 2) == 0x4c && m (x.elf + 3) == 0x46 &&
    m (x.elf + 4) == 2

/-! ## The loader -/

/-- Zero padding. The header is read again, after the copy. -/
def pad (p : BitVec 64) : Mem 64 :=
  let h := phdrAt m p
  if h.pFilesz < h.pMemsz then
    fill m (x.target + h.pPaddr + h.pFilesz) 0 (h.pMemsz - h.pFilesz).toNat
  else m

/-- The memory after a segment is loaded, or `none` if the segment is refused. -/
def loadSegment (p : BitVec 64) : Option (Mem 64) :=
  let h := phdrAt m p
  if h.load then
    if h.pFilesz != 0 then
      if x.size.setWidth 64 < h.pOffset + h.pFilesz then none
      else some (x.pad
        (copy m (x.target + h.pPaddr) (x.elf + h.pOffset) h.pFilesz.toNat) p)
    else some (x.pad m p)
  else some m

/-- The loop over the program headers from number `2 ^ 16 - n` on. The number of headers is read
again in every round, and has 16 bits. -/
def loop (ph : BitVec 64) : ℕ → Mem 64 → ℕ × Mem 64
  | 0, m => (0, m)
  | n + 1, m =>
    if 2 ^ 16 - (n + 1) < (x.phnum m).toNat then
      match x.loadSegment m (ph + BitVec.ofNat 64 (phdrSize * (2 ^ 16 - (n + 1)))) with
      | none => (3, m)
      | some m' => loop ph n m'
    else (0, m)

/-- The 64-bit end of the table of program headers. -/
def tableEnd : BitVec 64 := x.phoff m + (x.phnum m).setWidth 64 * BitVec.ofNat 64 phdrSize

/-- The return code and the memory afterwards. -/
def loadElf : ℕ × Mem 64 :=
  if x.size.toNat ≤ ehdrSize then (1, m)
  else if !x.isElf64 m then (2, m)
  else if x.size.setWidth 64 < x.tableEnd m then (3, m)
  else x.loop (x.elf + x.phoff m) (2 ^ 16) m

/-! ## What is meant -/

/-- Program header number `i`. -/
def phdr (i : ℕ) : Phdr := phdrAt m (x.elf + x.phoff m + BitVec.ofNat 64 (phdrSize * i))

/-- The headers of the segments to load, in order. -/
def segments : List Phdr := ((List.range (x.phnum m).toNat).map (x.phdr m)).filter Phdr.load

/-- The table of program headers lies within the file. -/
def TableInFile : Prop := (x.phoff m).toNat + phdrSize * (x.phnum m).toNat ≤ x.size.toNat

/-- The file range of a segment lies within the file. -/
def SegmentInFile (h : Phdr) : Prop := h.pOffset.toNat + h.pFilesz.toNat ≤ x.size.toNat

/-- All ranges lie within the file. -/
def InFile : Prop :=
  x.TableInFile m ∧ ∀ h ∈ x.segments m, h.pFilesz ≠ 0 → x.SegmentInFile h

/-- A segment is placed: its bytes of the file, and zeros up to its size in memory. -/
def place (file : Mem 64) (m : Mem 64) (h : Phdr) : Mem 64 := fun a =>
  if (a - (x.target + h.pPaddr)).toNat < h.pFilesz.toNat then
    file (x.elf + h.pOffset + (a - (x.target + h.pPaddr)))
  else if (a - (x.target + h.pPaddr)).toNat < h.pMemsz.toNat then 0
  else m a

/-- The memory with all segments placed, in the order of their headers. -/
def image : Mem 64 := (x.segments m).foldl (x.place m) m

/-- Ranges outside the file are refused, and otherwise the memory is the one that is meant. -/
def LoadsExactly : Prop :=
  (¬ x.InFile m → (x.loadElf m).1 ≠ 0) ∧ ((x.loadElf m).1 = 0 → (x.loadElf m).2 = x.image m)

/-- An address of the file. -/
def InBuffer (a : BitVec 64) : Prop := Within x.elf x.size.toNat a

/-- An address of the table of program headers. -/
def InTable (a : BitVec 64) : Prop :=
  Within (x.elf + x.phoff m) (phdrSize * (x.phnum m).toNat) a

/-- Nothing is written to some addresses. -/
def Avoids (S : BitVec 64 → Prop) : Prop :=
  ∀ h ∈ x.segments m, ∀ a,
    Within (x.target + h.pPaddr) (max h.pFilesz.toNat h.pMemsz.toNat) a → ¬ S a

/-! ## The checks of the loader -/

/-- The end of a segment's file range is too large, with 64 bits. -/
def Refused (h : Phdr) : Prop := h.pFilesz ≠ 0 ∧ x.size.setWidth 64 < h.pOffset + h.pFilesz

/-- The end of a segment's file range does not fit 64 bits. -/
def SegmentWraps (h : Phdr) : Prop := 2 ^ 64 ≤ h.pOffset.toNat + h.pFilesz.toNat

/-- The end of the table does not fit 64 bits. -/
def TableWraps : Prop := 2 ^ 64 ≤ (x.phoff m).toNat + phdrSize * (x.phnum m).toNat

variable {x m}

theorem toNat_size : (x.size.setWidth 64 : BitVec 64).toNat = x.size.toNat := by
  have := x.size.isLt
  rw [toNat_setWidth, Nat.mod_eq_of_lt (by omega)]

theorem toNat_tableEnd :
    (x.tableEnd m).toNat = ((x.phoff m).toNat + phdrSize * (x.phnum m).toNat) % 2 ^ 64 := by
  have hnum := (x.phnum m).isLt
  rw [tableEnd, toNat_add, toNat_mul, toNat_setWidth, toNat_ofNat]
  simp only [phdrSize]
  omega

/-- The check of the table is exact when its end fits. -/
theorem not_lt_tableEnd_iff (hw : ¬ x.TableWraps m) :
    ¬ x.size.setWidth 64 < x.tableEnd m ↔ x.TableInFile m := by
  rw [TableWraps] at hw
  rw [lt_def, toNat_size, toNat_tableEnd, Nat.mod_eq_of_lt (by omega), TableInFile]
  omega

theorem TableInFile.not_wraps (h : x.TableInFile m) : ¬ x.TableWraps m := by
  have := x.size.isLt
  rw [TableInFile] at h
  rw [TableWraps]
  omega

variable {h : Phdr}

/-- The check of a segment is exact when its end fits. -/
theorem not_refused_iff (hz : h.pFilesz ≠ 0) (hw : ¬ SegmentWraps h) :
    ¬ x.Refused h ↔ x.SegmentInFile h := by
  rw [SegmentWraps] at hw
  rw [Refused, lt_def, toNat_size, toNat_add, Nat.mod_eq_of_lt (by omega),
    SegmentInFile]
  constructor
  · intro hnot
    by_contra hlt
    exact hnot ⟨hz, by omega⟩
  · rintro hle ⟨-, hlt⟩
    omega

theorem SegmentInFile.not_wraps (hin : x.SegmentInFile h) : ¬ SegmentWraps h := by
  have := x.size.isLt
  rw [SegmentInFile] at hin
  rw [SegmentWraps]
  omega

/-! ## Headers stay as they are -/

/-- What the loader reads for its headers. -/
def Headers (x : Args) (m : Mem 64) (a : BitVec 64) : Prop := x.InBuffer a ∨ x.InTable m a

variable {m' : Mem 64} {i : ℕ}

theorem phdrAt_congr {p : BitVec 64}
    (h : ∀ j < phdrSize, m (p + BitVec.ofNat 64 j) = m' (p + BitVec.ofNat 64 j)) :
    phdrAt m p = phdrAt m' p := by
  have hfield (o n : ℕ) (ho : o + n ≤ phdrSize) :
      readLE m (p + BitVec.ofNat 64 o) n = readLE m' (p + BitVec.ofNat 64 o) n := by
    apply readLE_congr
    intro j hj
    rw [BitVec.add_assoc, ← BitVec.ofNat_add]
    exact h (o + j) (by omega)
  have htype := hfield 0 4 (by decide)
  rw [BitVec.add_zero] at htype
  simp only [phdrAt, htype, show (8 : BitVec 64) = BitVec.ofNat 64 8 from rfl,
    show (24 : BitVec 64) = BitVec.ofNat 64 24 from rfl,
    show (32 : BitVec 64) = BitVec.ofNat 64 32 from rfl,
    show (40 : BitVec 64) = BitVec.ofNat 64 40 from rfl, hfield 8 8 (by decide),
    hfield 24 8 (by decide), hfield 32 8 (by decide), hfield 40 8 (by decide)]

theorem phnum_congr (hsize : ehdrSize < x.size.toNat) (h : AgreeOn (x.Headers m) m' m) :
    x.phnum m' = x.phnum m := by
  rw [phnum, phnum]
  congr 1
  apply readLE_congr
  intro j hj
  apply h
  left
  rw [show (56 : BitVec 64) = BitVec.ofNat 64 56 from rfl, add_assoc, ← ofNat_add]
  apply within_add
  rw [ehdrSize] at hsize
  omega

theorem phdr_congr (h : AgreeOn (x.Headers m) m' m) (hi : i < (x.phnum m).toNat) :
    phdrAt m' (x.elf + x.phoff m + BitVec.ofNat 64 (phdrSize * i)) = x.phdr m i := by
  apply phdrAt_congr
  intro j hj
  apply h
  right
  rw [add_assoc, ← ofNat_add]
  apply within_add
  calc phdrSize * i + j < phdrSize * i + phdrSize := by omega
    _ = phdrSize * (i + 1) := by rw [Nat.mul_add, Nat.mul_one]
    _ ≤ phdrSize * (x.phnum m).toNat := Nat.mul_le_mul_left _ hi

/-! ## One segment -/

/-- A segment with its padding, its header given. -/
def padWith (x : Args) (m : Mem 64) (h : Phdr) : Mem 64 :=
  if h.pFilesz < h.pMemsz then
    fill m (x.target + h.pPaddr + h.pFilesz) 0 (h.pMemsz - h.pFilesz).toNat
  else m

/-- The memory after the bytes of a segment are copied. -/
def copied (x : Args) (m : Mem 64) (h : Phdr) : Mem 64 :=
  copy m (x.target + h.pPaddr) (x.elf + h.pOffset) h.pFilesz.toNat

theorem copied_of_empty (hz : h.pFilesz = 0) : x.copied m h = m := by
  funext a
  simp [copied, copy, Within, hz]

/-- The headers are the same after a segment that avoids them. -/
theorem agree_copied {S : BitVec 64 → Prop} (hag : AgreeOn S m' m)
    (hS : ∀ a, Within (x.target + h.pPaddr) (max h.pFilesz.toNat h.pMemsz.toNat) a → ¬ S a) :
    AgreeOn S (x.copied m' h) m :=
  hag.copy fun a ha => hS a (ha.trans_le (le_max_left _ _))

theorem agree_padWith {S : BitVec 64 → Prop} (hag : AgreeOn S m' m)
    (hS : ∀ a, Within (x.target + h.pPaddr) (max h.pFilesz.toNat h.pMemsz.toNat) a → ¬ S a) :
    AgreeOn S (x.padWith m' h) m := by
  unfold padWith
  split
  · next hlt =>
    apply hag.fill
    intro a ha
    rw [BitVec.toNat_sub_of_le (BitVec.le_of_lt hlt),
      within_add_iff h.pMemsz.isLt (Nat.le_of_lt (BitVec.lt_def.1 hlt))] at ha
    exact hS a (ha.2.trans_le (le_max_right _ _))
  · exact hag

/-- What loading a segment does, by its header in the file. -/
theorem loadSegment_eq (hav : x.Avoids m (x.Headers m)) (hag : AgreeOn (x.Headers m) m' m)
    (hi : i < (x.phnum m).toNat) (hload : (x.phdr m i).load) :
    (x.Refused (x.phdr m i) →
      x.loadSegment m' (x.elf + x.phoff m + BitVec.ofNat 64 (phdrSize * i)) = none) ∧
    (¬ x.Refused (x.phdr m i) →
      x.loadSegment m' (x.elf + x.phoff m + BitVec.ofNat 64 (phdrSize * i)) =
        some (x.padWith (x.copied m' (x.phdr m i)) (x.phdr m i))) := by
  have hmem : x.phdr m i ∈ x.segments m :=
    List.mem_filter.2 ⟨List.mem_map.2 ⟨i, List.mem_range.2 hi, rfl⟩, hload⟩
  have hhdr := phdr_congr hag hi
  have hcopied := phdr_congr (agree_copied hag (hav _ hmem)) hi
  unfold loadSegment pad
  simp only [hhdr, hload, if_true]
  constructor
  · rintro ⟨hz, hlt⟩
    rw [if_pos (by simpa using hz), if_pos hlt]
  · intro hnot
    by_cases hz : (x.phdr m i).pFilesz = 0
    · rw [if_neg (by simp [hz]), copied_of_empty hz]
      rfl
    · rw [if_pos (by simpa using hz), if_neg fun hlt => hnot ⟨hz, hlt⟩, ← copied, hcopied]
      rfl

/-- Loading a segment whose file range lies within the file places it. -/
theorem padWith_copied (hag : AgreeOn x.InBuffer m' m)
    (hin : h.pFilesz ≠ 0 → x.SegmentInFile h) : x.padWith (x.copied m' h) h = x.place m m' h := by
  funext a
  -- the bytes that are copied are still those of the file
  have hfile (ha : (a - (x.target + h.pPaddr)).toNat < h.pFilesz.toNat) :
      m' (x.elf + h.pOffset + (a - (x.target + h.pPaddr))) =
        m (x.elf + h.pOffset + (a - (x.target + h.pPaddr))) := by
    apply hag
    have hz : h.pFilesz ≠ 0 := by
      rintro hz
      simp [hz] at ha
    have hend := hin hz
    have hwrap := hend.not_wraps
    rw [SegmentInFile] at hend
    rw [SegmentWraps] at hwrap
    rw [InBuffer, Within, add_assoc, add_comm, add_sub_cancel,
      toNat_add, Nat.mod_eq_of_lt (by omega)]
    omega
  unfold padWith place
  by_cases hlt : h.pFilesz < h.pMemsz
  · rw [if_pos hlt, copied, fill_copy 0 (Nat.le_of_lt (lt_def.1 hlt))]
    split
    · next ha => exact hfile ha
    · rfl
  · rw [lt_def] at hlt
    rw [if_neg (by rwa [lt_def]), copied, copy]
    by_cases ha : (a - (x.target + h.pPaddr)).toNat < h.pFilesz.toNat
    · rw [if_pos (show Within _ _ a from ha), if_pos ha, hfile ha]
    · rw [if_neg (show ¬ Within _ _ a from ha), if_neg ha, if_neg (by omega)]

/-! ## The loop -/

/-- The headers from number `i` on. -/
def segmentsFrom (x : Args) (m : Mem 64) (i : ℕ) : List Phdr :=
  ((List.range' i ((x.phnum m).toNat - i)).map (x.phdr m)).filter Phdr.load

theorem segmentsFrom_zero : x.segmentsFrom m 0 = x.segments m := by
  rw [segmentsFrom, segments, Nat.sub_zero, List.range_eq_range']

theorem segmentsFrom_of_ge (hi : (x.phnum m).toNat ≤ i) : x.segmentsFrom m i = [] := by
  simp [segmentsFrom, Nat.sub_eq_zero_of_le hi]

theorem segmentsFrom_of_lt (hi : i < (x.phnum m).toNat) :
    x.segmentsFrom m i =
      if (x.phdr m i).load then x.phdr m i :: x.segmentsFrom m (i + 1)
      else x.segmentsFrom m (i + 1) := by
  have hlen : (x.phnum m).toNat - i = (x.phnum m).toNat - (i + 1) + 1 := by omega
  rw [segmentsFrom, hlen, List.range'_succ, List.map_cons, List.filter_cons]
  rfl

section

variable (hsize : ehdrSize < x.size.toNat)

include hsize

/-- The loop returns 0 when no segment is refused. With all file ranges within the file it then
has placed all segments. -/
theorem loop_spec (hav : x.Avoids m (x.Headers m)) {n : ℕ}
    (hn : n ≤ 2 ^ 16) (hag : AgreeOn (x.Headers m) m' m) :
    ((x.loop (x.elf + x.phoff m) n m').1 = 0 ↔
      ∀ h ∈ x.segmentsFrom m (2 ^ 16 - n), ¬ x.Refused h) ∧
    ((∀ h ∈ x.segmentsFrom m (2 ^ 16 - n), h.pFilesz ≠ 0 → x.SegmentInFile h) →
      (x.loop (x.elf + x.phoff m) n m').2 =
        (x.segmentsFrom m (2 ^ 16 - n)).foldl (x.place m) m') := by
  induction n generalizing m' with
  | zero =>
    have hend : x.segmentsFrom m (2 ^ 16 - 0) = [] :=
      segmentsFrom_of_ge (Nat.le_of_lt (x.phnum m).isLt)
    rw [hend, loop]
    simp
  | succ n ih =>
    have hsucc : 2 ^ 16 - (n + 1) + 1 = 2 ^ 16 - n := by omega
    rw [loop, phnum_congr hsize hag]
    by_cases hi : 2 ^ 16 - (n + 1) < (x.phnum m).toNat
    · rw [if_pos hi, segmentsFrom_of_lt hi, hsucc]
      cases hload : (x.phdr m (2 ^ 16 - (n + 1))).load with
      | false =>
        -- the segment is passed over
        have hskip : x.loadSegment m'
            (x.elf + x.phoff m + BitVec.ofNat 64 (phdrSize * (2 ^ 16 - (n + 1)))) = some m' := by
          rw [loadSegment, phdr_congr hag hi, hload]
          rfl
        rw [hskip]
        exact ih (by omega) hag
      | true =>
        obtain ⟨hrefused, hloaded⟩ := loadSegment_eq hav hag hi hload
        have hmem : x.phdr m (2 ^ 16 - (n + 1)) ∈ x.segments m :=
          List.mem_filter.2 ⟨List.mem_map.2 ⟨_, List.mem_range.2 hi, rfl⟩, hload⟩
        simp only [if_true, List.forall_mem_cons, List.foldl_cons]
        by_cases hr : x.Refused (x.phdr m (2 ^ 16 - (n + 1)))
        · rw [hrefused hr]
          refine ⟨⟨fun h => by simp at h, fun h => absurd hr h.1⟩, fun hin => ?_⟩
          -- a segment within the file is not refused
          have hfit := hin.1 hr.1
          exact absurd hr ((not_refused_iff hr.1 hfit.not_wraps).2 hfit)
        · rw [hloaded hr]
          have hag' := agree_padWith (agree_copied hag (hav _ hmem)) (hav _ hmem)
          obtain ⟨hcode, hmemory⟩ := ih (by omega) hag'
          refine ⟨hcode.trans ⟨fun h => ⟨hr, h⟩, fun h => h.2⟩, fun hin => ?_⟩
          rw [hmemory hin.2, padWith_copied (fun a ha => hag a (.inl ha)) hin.1]
    · rw [if_neg hi, segmentsFrom_of_ge (by omega)]
      simp

/-! ## The whole loader -/

theorem loadElf_of_refused (hmagic : x.isElf64 m)
    (h : x.size.setWidth 64 < x.tableEnd m) : (x.loadElf m).1 = 3 := by
  rw [loadElf, if_neg (by omega), hmagic]
  simp [h]

theorem loadElf_of_passed (hmagic : x.isElf64 m) (h : ¬ x.size.setWidth 64 < x.tableEnd m) :
    x.loadElf m = x.loop (x.elf + x.phoff m) (2 ^ 16) m := by
  rw [loadElf, if_neg (by omega), hmagic]
  simp [h]

/-- A loader that passes the table, and does not overwrite its headers, refuses exactly the
segments whose 64-bit end is too large, and otherwise builds the image of a sound file. -/
theorem loadElf_spec (hmagic : x.isElf64 m)
    (hav : x.Avoids m (x.Headers m)) (h : ¬ x.size.setWidth 64 < x.tableEnd m) :
    ((x.loadElf m).1 = 0 ↔ ∀ h ∈ x.segments m, ¬ x.Refused h) ∧
      (x.InFile m → (x.loadElf m).2 = x.image m) := by
  have hself : AgreeOn (x.Headers m) m m := fun _ _ => rfl
  obtain ⟨hcode, hmemory⟩ := loop_spec hsize hav le_rfl hself
  rw [Nat.sub_self, segmentsFrom_zero] at hcode hmemory
  rw [loadElf_of_passed hsize hmagic h]
  exact ⟨hcode, fun hin => hmemory hin.2⟩

end

theorem inBuffer_of_inTable (h : x.TableInFile m) {a : BitVec 64} (ha : x.InTable m a) :
    x.InBuffer a := by
  rw [TableInFile] at h
  have hlt : (x.phoff m).toNat + phdrSize * (x.phnum m).toNat < 2 ^ 64 := by
    have := x.size.isLt
    omega
  rw [InTable, ← Nat.add_sub_cancel_left (x.phoff m).toNat (_ * _)] at ha
  have hrange := (within_add_iff hlt (Nat.le_add_right _ _)).1 ha
  exact hrange.2.trans_le h

theorem loadsExactly_iff_code (hmemory : x.InFile m → (x.loadElf m).2 = x.image m) :
    x.LoadsExactly m ↔ (x.loadElf m).1 ≠ 0 ∨ x.InFile m := by
  constructor
  · rintro ⟨hout, -⟩
    by_cases hin : x.InFile m
    · exact .inr hin
    · exact .inl (hout hin)
  · rintro (hcode | hin)
    · exact ⟨fun _ => hcode, fun h => absurd h hcode⟩
    · exact ⟨fun hout => absurd hin hout, fun _ => hmemory hin⟩

/-- When the loader refuses what it should and otherwise builds the image. The ends of all ranges
fit 64 bits, or one of the ranges is refused all the same. If the end of the table does not fit,
the headers are read outside the file, and it is assumed that they are not overwritten. -/
theorem loads_exactly_iff (x : Args) (m : Mem 64) (hsize : ehdrSize < x.size.toNat)
    (hmagic : x.isElf64 m = true) (hav : x.Avoids m x.InBuffer) :
    (¬ x.TableWraps m → (x.LoadsExactly m ↔
      x.size.setWidth 64 < x.tableEnd m ∨ (∃ h ∈ x.segments m, x.Refused h) ∨
        ∀ h ∈ x.segments m, ¬ SegmentWraps h)) ∧
    (x.TableWraps m → x.Avoids m (x.InTable m) → (x.LoadsExactly m ↔
      x.size.setWidth 64 < x.tableEnd m ∨ ∃ h ∈ x.segments m, x.Refused h)) := by
  by_cases htable : x.size.setWidth 64 < x.tableEnd m
  · -- the table is refused
    have hcode := loadElf_of_refused hsize hmagic htable
    have hexact : x.LoadsExactly m :=
      ⟨fun _ => by rw [hcode]; decide, fun h => by rw [hcode] at h; exact absurd h (by decide)⟩
    exact ⟨fun _ => ⟨fun _ => .inl htable, fun _ => hexact⟩,
      fun _ _ => ⟨fun _ => .inl htable, fun _ => hexact⟩⟩
  have hrefused : (¬ ∀ h ∈ x.segments m, ¬ x.Refused h) ↔ ∃ h ∈ x.segments m, x.Refused h := by
    push Not
    rfl
  refine ⟨fun hw => ?_, fun hw hav' => ?_⟩
  · have hin : x.TableInFile m := (not_lt_tableEnd_iff hw).1 htable
    have hheaders : x.Avoids m (x.Headers m) := fun h hh a ha hS =>
      hav h hh a ha (hS.elim id (inBuffer_of_inTable hin))
    obtain ⟨hcode, hmemory⟩ := loadElf_spec hsize hmagic hheaders htable
    rw [loadsExactly_iff_code hmemory, Ne, hcode, hrefused]
    simp only [htable, false_or]
    constructor
    · rintro (hr | hfile)
      · exact .inl hr
      · refine .inr fun h hh hwrap => ?_
        have hz : h.pFilesz ≠ 0 := by
          rintro hz
          rw [SegmentWraps, hz, show (0 : BitVec 64).toNat = 0 from rfl] at hwrap
          have := h.pOffset.isLt
          omega
        exact (hfile.2 h hh hz).not_wraps hwrap
    · rintro (hr | hfit)
      · exact .inl hr
      · by_cases hr : ∃ h ∈ x.segments m, x.Refused h
        · exact .inl hr
        · refine .inr ⟨hin, fun h hh hz => ?_⟩
          exact (not_refused_iff hz (hfit h hh)).1 fun hbad => hr ⟨h, hh, hbad⟩
  · have hheaders : x.Avoids m (x.Headers m) := fun h hh a ha hS =>
      hS.elim (hav h hh a ha) (hav' h hh a ha)
    obtain ⟨hcode, hmemory⟩ := loadElf_spec hsize hmagic hheaders htable
    rw [loadsExactly_iff_code hmemory, Ne, hcode, hrefused]
    simp only [htable, false_or]
    exact or_iff_left fun hin => hin.1.not_wraps hw

end Args

/-! ## Two files -/

/-- A memory with numbers at some places and zeros elsewhere; a place is an address, a number of
bytes and the number. -/
def memoryOf (places : List (BitVec 64 × ℕ × ℕ)) : Mem 64 := fun a =>
  match places.find? fun f => decide ((a - f.1).toNat < f.2.1) with
  | some f => BitVec.ofNat 8 (f.2.2 / 256 ^ (a - f.1).toNat)
  | none => 0

/-- The ELF header at address `0x1000`. -/
def ehdr (phoff phnum : ℕ) : List (BitVec 64 × ℕ × ℕ) :=
  [(0x1000, 5, 0x02464c457f), (0x1020, 8, phoff), (0x1038, 2, phnum)]

/-- A program header after the ELF header, for a segment at the start of the target. -/
def segment (offset filesz memsz : ℕ) : List (BitVec 64 × ℕ × ℕ) :=
  [(0x1040, 4, 1), (0x1048, 8, offset), (0x1060, 8, filesz), (0x1068, 8, memsz)]

/-- A file of 128 bytes at address `0x1000`. -/
def boardArgs : Args := ⟨0x80000000, 0x1000, 128⟩

/-- The target is far from the file. -/
theorem avoids_board {m : Mem 64}
    (hm : ∀ h ∈ boardArgs.segments m, h.pPaddr = 0 ∧ h.pFilesz.toNat ≤ 16 ∧ h.pMemsz.toNat ≤ 16) :
    boardArgs.Avoids m boardArgs.InBuffer := by
  intro h hh a ha hbuf
  obtain ⟨hpaddr, hfilesz, hmemsz⟩ := hm h hh
  have htarget : (a - 0x80000000#64).toNat < 16 := by
    rw [hpaddr] at ha
    exact ha.trans_le (by omega)
  have hfile : (a - 0x1000#64).toNat < 128 := hbuf
  rw [toNat_sub] at htarget hfile
  have := a.isLt
  simp only [toNat_ofNat] at htarget hfile
  omega

/-- The first four bytes of a file are loaded, with four zeros after them. -/
theorem loads_exactly_iff_sound :
    boardArgs.LoadsExactly (memoryOf (ehdr 64 1 ++ segment 0 4 8)) := by
  refine ((Args.loads_exactly_iff boardArgs _ (by decide) (by decide +kernel)
    (avoids_board ?_)).1 ?_).2 (.inr (.inr ?_))
  · decide +kernel
  · rw [Args.TableWraps]
    decide +kernel
  · intro h hh hwrap
    rw [Args.SegmentWraps] at hwrap
    revert h
    decide +kernel

/-- A table in front of the file, and a segment that begins in front of it, are accepted. -/
theorem wrapped_ranges_accepted :
    (boardArgs.isElf64 (memoryOf (ehdr (2 ^ 64 - 56) 1)) = true ∧
      boardArgs.Avoids (memoryOf (ehdr (2 ^ 64 - 56) 1)) boardArgs.InBuffer ∧
      ¬ boardArgs.TableInFile (memoryOf (ehdr (2 ^ 64 - 56) 1)) ∧
      (boardArgs.loadElf (memoryOf (ehdr (2 ^ 64 - 56) 1))).1 = 0 ∧
      ¬ boardArgs.LoadsExactly (memoryOf (ehdr (2 ^ 64 - 56) 1))) ∧
    (boardArgs.isElf64 (memoryOf (ehdr 64 1 ++ segment (2 ^ 64 - 8) 16 16)) = true ∧
      boardArgs.Avoids (memoryOf (ehdr 64 1 ++ segment (2 ^ 64 - 8) 16 16)) boardArgs.InBuffer ∧
      (boardArgs.loadElf (memoryOf (ehdr 64 1 ++ segment (2 ^ 64 - 8) 16 16))).1 = 0 ∧
      ¬ boardArgs.LoadsExactly (memoryOf (ehdr 64 1 ++ segment (2 ^ 64 - 8) 16 16))) := by
  have htable : ¬ boardArgs.TableInFile (memoryOf (ehdr (2 ^ 64 - 56) 1)) := by
    rw [Args.TableInFile]
    decide +kernel
  have hcode : (boardArgs.loadElf (memoryOf (ehdr (2 ^ 64 - 56) 1))).1 = 0 := by decide +kernel
  have hcode' : (boardArgs.loadElf
      (memoryOf (ehdr 64 1 ++ segment (2 ^ 64 - 8) 16 16))).1 = 0 := by
    decide +kernel
  refine ⟨⟨by decide +kernel, avoids_board (by decide +kernel), htable, hcode, fun h => ?_⟩,
    by decide +kernel, avoids_board (by decide +kernel), hcode', fun h => ?_⟩
  · exact h.1 (fun hin => htable hin.1) hcode
  · refine h.1 (fun hin => ?_) hcode'
    have hsegment := hin.2 ⟨1, BitVec.ofNat 64 (2 ^ 64 - 8), 0, 16, 16⟩ (by decide +kernel)
      (by decide)
    rw [Args.SegmentInFile] at hsegment
    exact absurd hsegment (by decide)

end TaggedRiscv.Elf
