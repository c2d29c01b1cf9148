import TaggedRiscv.Lib.Select

/-!
# Page table entries

The widths of virtual memory, page table entries with the permissions they encode, the
messages between the TLBs and the page table walker, and the replacement state that both
use.
-/

namespace TaggedRiscv.Vm

/-- The bits that count `n` things. -/
def log2Up (n : ℕ) : ℕ := if n ≤ 2 then 1 else Nat.log2 (n - 1) + 1

/-- The levels of a page table, the index bits of a level, the widths of words and of the
addresses in a word, and the widths of physical page numbers and address space ids. -/
structure VmParams where
  pgLevels : ℕ
  pgLevelBits : ℕ
  xLen : ℕ
  wordOffBits : ℕ
  ppnBits : ℕ
  asIdBits : ℕ
  pgLevels_pos : 0 < pgLevels
  pgLevelBits_pos : 0 < pgLevelBits
  pteBits_le : ppnBits + 10 ≤ xLen
  asIdBits_pos : 0 < asIdBits

namespace VmParams

variable (p : VmParams)

def vpnBits : ℕ := p.pgLevels * p.pgLevelBits

/-- A page holds as many words as a level has indices. -/
def pgIdxBits : ℕ := p.pgLevelBits + p.wordOffBits

def paddrBits : ℕ := p.ppnBits + p.pgIdxBits

theorem vpnBits_pos : 0 < p.vpnBits := Nat.mul_pos p.pgLevels_pos p.pgLevelBits_pos

end VmParams

/-- Two levels of one index bit. -/
def tinyVm : VmParams :=
  { pgLevels := 2, pgLevelBits := 1, xLen := 12, wordOffBits := 1, ppnBits := 2, asIdBits := 1
    pgLevels_pos := Nat.two_pos, pgLevelBits_pos := Nat.one_pos, pteBits_le := by decide
    asIdBits_pos := Nat.one_pos }

/-! ## Entries -/

variable (p : VmParams)

/-- A page table entry. -/
structure PTE where
  ppn : BitVec p.ppnBits
  reservedForSoftware : BitVec 3
  d : Bool
  r : Bool
  typ : BitVec 4
  v : Bool
  deriving DecidableEq

variable {p}

namespace PTE

variable (e : PTE p)

def table : Bool := e.v && decide (e.typ < 2)
def leaf : Bool := e.v && decide (2 ≤ e.typ)
def ur : Bool := e.leaf && decide (e.typ < 8)
def uw : Bool := e.ur && e.typ.getLsbD 0
def ux : Bool := e.ur && e.typ.getLsbD 1
def sr : Bool := e.leaf
def sw : Bool := e.leaf && e.typ.getLsbD 0
def sx : Bool := e.v && decide (4 ≤ e.typ) && e.typ.getLsbD 1

/-- The entry permits an access of a privilege level. -/
def accessOk (prv : BitVec 2) (store fetch : Bool) : Bool :=
  if prv.getLsbD 0 then (if fetch then e.sx else if store then e.sw else e.sr)
  else (if fetch then e.ux else if store then e.uw else e.ur)

/-- The entry in a word. -/
def fromBits (w : BitVec p.xLen) : PTE p :=
  { ppn := w.extractLsb' 10 p.ppnBits
    reservedForSoftware := w.extractLsb' 7 3
    d := w.getLsbD 6
    r := w.getLsbD 5
    typ := w.extractLsb' 1 4
    v := w.getLsbD 0 }

/-- The word of an entry. -/
def toBits : BitVec p.xLen :=
  (e.ppn ++ (e.reservedForSoftware ++ BitVec.ofBool e.d ++ BitVec.ofBool e.r ++ e.typ ++
    BitVec.ofBool e.v)).setWidth p.xLen

variable (p) in
/-- What the walker or-s into an entry that is accessed. -/
def wdata (store : Bool) : PTE p :=
  { ppn := 0, reservedForSoftware := 0, d := store, r := true, typ := 0, v := false }

/-- The entry with R set, and with D set by a store. -/
def mark (store : Bool) : PTE p := { e with r := true, d := e.d || store }

/-- The word of the walker has only the bits of R and D. -/
theorem getLsbD_toBits_wdata (store : Bool) (j : ℕ) :
    (wdata p store).toBits.getLsbD j = (decide (j = 5) || decide (j = 6) && store) := by
  have hlen := p.pteBits_le
  by_cases hj : j < 10
  · have hlow : (wdata p store).toBits.getLsbD j =
        ((0 : BitVec 3) ++ BitVec.ofBool store ++ BitVec.ofBool true ++ (0 : BitVec 4) ++
          BitVec.ofBool false).getLsbD j := by
      simp [toBits, wdata, BitVec.getLsbD_append, hj, show j < p.xLen by omega]
    rw [hlow]
    cases store <;> interval_cases j <;> decide
  · have h5 : j ≠ 5 := by omega
    have h6 : j ≠ 6 := by omega
    simp [toBits, wdata, BitVec.getLsbD_append, hj, h5, h6]

theorem fromBits_or_mark (w : BitVec p.xLen) (store : Bool) :
    fromBits (w ||| (wdata p store).toBits) = (fromBits w).mark store := by
  have hbits := getLsbD_toBits_wdata (p := p) store
  simp only [fromBits, mark, PTE.mk.injEq, BitVec.getLsbD_or, hbits]
  refine ⟨?_, ?_, by simp, by simp, ?_, by simp⟩
  all_goals
    apply BitVec.eq_of_getLsbD_eq
    intro j hj
    simp only [BitVec.getLsbD_extractLsb', BitVec.getLsbD_or, hbits]
  · simp [show 10 + j ≠ 5 by omega, show 10 + j ≠ 6 by omega]
  · simp [show 7 + j ≠ 5 by omega, show 7 + j ≠ 6 by omega]
  · simp [show 1 + j ≠ 5 by omega, show 1 + j ≠ 6 by omega]

@[simp] theorem mark_leaf (store : Bool) : (e.mark store).leaf = e.leaf := rfl

/-- An entry is a table, a leaf or neither. -/
theorem not_leaf_of_table (h : e.table) : e.leaf = false := by
  simp only [table, Bool.and_eq_true, decide_eq_true_eq] at h
  simp only [leaf, Bool.and_eq_false_imp, decide_eq_false_iff_not]
  exact fun _ => BitVec.not_le.2 h.2

/-- Only leaves permit accesses. -/
theorem leaf_of_accessOk {prv : BitVec 2} {store fetch : Bool}
    (h : e.accessOk prv store fetch) : e.leaf := by
  unfold accessOk at h
  split_ifs at h
  · -- `sx` asks for more of the type than a leaf does
    simp only [sx, leaf, Bool.and_eq_true, decide_eq_true_eq] at h ⊢
    exact ⟨h.1.1, BitVec.le_trans (by decide) h.1.2⟩
  all_goals
    simp only [sw, sr, ux, uw, ur, Bool.and_eq_true] at h
    first
      | exact h
      | exact h.1
      | exact h.1.1

end PTE

/-! ## Walks -/

variable (p) in
/-- A request for a walk. -/
structure PTWReq where
  addr : BitVec p.vpnBits
  prv : BitVec 2
  store : Bool
  fetch : Bool
  deriving DecidableEq

variable (p) in
/-- The answer to a walk. -/
structure PTWResp where
  error : Bool
  pte : PTE p
  deriving DecidableEq

/-! ## Replacement -/

/-- The tree of a pseudo-LRU replacement, node by node. -/
abbrev PseudoLRU := ℕ → Bool

namespace PseudoLRU

variable (n : ℕ)

/-- The nodes on the way to a way point away from it; `i` levels are left below `idx`. Only
nodes below `n` exist. -/
def accessFrom (way : ℕ) : ℕ → ℕ → PseudoLRU → PseudoLRU
  | 0, _, s => s
  | i + 1, idx, s =>
    accessFrom way i (2 * idx + (way.testBit i).toNat)
      (if idx < n then Function.update s idx !way.testBit i else s)

/-- The state of `n` ways after an access to one. -/
def access (levels : ℕ) (s : PseudoLRU) (way : ℕ) : PseudoLRU := accessFrom n way levels 1 s

/-- Following the nodes from `idx` for `i` levels. -/
def follow (s : PseudoLRU) : ℕ → ℕ → ℕ
  | 0, idx => idx
  | i + 1, idx => follow s i (2 * idx + (decide (idx < n) && s idx).toNat)

/-- The way to replace. -/
def replace (levels : ℕ) (s : PseudoLRU) : ℕ := follow n s levels 1 % 2 ^ levels

end PseudoLRU

end TaggedRiscv.Vm
