import TaggedRiscv.Lib.BitCount
import Mathlib.Data.List.Dedup
import Mathlib.Tactic.Tauto

/-!
# Terms of the decode logic and their minimisation (`Term`, `Simplify`, `SimplifyDC`)

The instruction decoder is generated from a truth table by the method of Quine and McCluskey. A
term is a product of literals: a word in which the bits of a mask are free. Terms that differ in
one bit are merged until none is left; from what was never merged a cover is chosen.

`Simplify` is given the terms that may be covered besides. `SimplifyDC` is given those that must
not be covered, and also merges a term with a neighbour that is not in the table but meets none of
them.

The sets of the source are lists without duplicates. The flag `prime` of a term that is in the table
is kept as a list of the terms that lost it.
-/

namespace TaggedRiscv.DecodeLogic

open BitCount List

/-! ## Terms -/

/-- A product of literals: the bits of `mask` are free, the others are those of `value`. -/
structure Term where
  value : ℕ
  mask : ℕ
  deriving DecidableEq, Repr

namespace Term

def covers (t x : Term) : Bool :=
  ((t.value ^^^ x.value).ldiff t.mask ||| x.mask.ldiff t.mask) == 0

def intersects (t x : Term) : Bool := ((t.value ^^^ x.value).ldiff t.mask).ldiff x.mask == 0

def lt (t x : Term) : Bool :=
  decide (t.value < x.value) || t.value == x.value && decide (t.mask < x.mask)

/-- The terms have the same free bits and their difference is a power of two. -/
def similar (t x : Term) : Bool :=
  t.mask == x.mask && decide (x.value < t.value) &&
    ((t.value - x.value) &&& (t.value - x.value - 1)) == 0

def merge (t x : Term) : Term :=
  ⟨t.value.ldiff (t.value - x.value), t.mask ||| (t.value - x.value)⟩

/-- The term stands for a word. -/
def Contains (t : Term) (y : ℕ) : Prop :=
  ∀ k, t.mask.testBit k = false → y.testBit k = t.value.testBit k

/-- A term over words of `bits` bits, with no value at free bits. -/
structure Wf (bits : ℕ) (t : Term) : Prop where
  value_lt : t.value < 2 ^ bits
  mask_lt : t.mask < 2 ^ bits
  disjoint : ∀ k, t.mask.testBit k → t.value.testBit k = false

variable {t x y : Term} {bits : ℕ}

theorem eq_zero_iff_testBit {n : ℕ} : n = 0 ↔ ∀ k, n.testBit k = false :=
  ⟨fun h k => h ▸ Nat.zero_testBit k, Nat.zero_of_testBit_eq_false⟩

theorem covers_iff : t.covers x ↔ ∀ k, t.mask.testBit k = false →
    t.value.testBit k = x.value.testBit k ∧ x.mask.testBit k = false := by
  rw [covers, beq_iff_eq, eq_zero_iff_testBit]
  refine forall_congr' fun k => ?_
  rw [Nat.testBit_or, Nat.testBit_ldiff, Nat.testBit_ldiff, Nat.testBit_xor]
  cases t.mask.testBit k <;> simp

theorem intersects_iff : t.intersects x ↔ ∀ k, t.mask.testBit k = false →
    x.mask.testBit k = false → t.value.testBit k = x.value.testBit k := by
  rw [intersects, beq_iff_eq, eq_zero_iff_testBit]
  refine forall_congr' fun k => ?_
  rw [Nat.testBit_ldiff, Nat.testBit_ldiff, Nat.testBit_xor]
  cases t.mask.testBit k <;> cases x.mask.testBit k <;> simp

theorem covers_refl (t : Term) : t.covers t := covers_iff.2 fun _ hk => ⟨rfl, hk⟩

theorem covers_trans (h : t.covers x) (h' : x.covers y) : t.covers y := by
  rw [covers_iff] at h h' ⊢
  intro k hk
  obtain ⟨hv, hm⟩ := h k hk
  obtain ⟨hv', hm'⟩ := h' k hm
  exact ⟨hv.trans hv', hm'⟩

theorem Contains.of_covers {w : ℕ} (hw : x.Contains w) (h : t.covers x) : t.Contains w := by
  intro k hk
  obtain ⟨hv, hm⟩ := covers_iff.1 h k hk
  rw [hw k hm, hv]

/-- Terms intersect exactly if they stand for a common word. -/
theorem intersects_iff_exists :
    t.intersects x ↔ ∃ w, t.Contains w ∧ x.Contains w := by
  rw [intersects_iff]
  constructor
  · intro h
    -- free bits of the one are taken from the other
    refine ⟨t.value.ldiff t.mask ||| (x.value &&& t.mask), fun k hk => ?_, fun k hk => ?_⟩
    · simp [Nat.testBit_ldiff, hk]
    · cases hk' : t.mask.testBit k with
      | true => simp [Nat.testBit_ldiff, hk']
      | false => simp [Nat.testBit_ldiff, hk', h k hk' hk]
  · rintro ⟨w, ht, hx⟩ k hk hk'
    rw [← ht k hk, hx k hk']

theorem intersects_comm (t x : Term) : t.intersects x = x.intersects t := by
  rw [Bool.eq_iff_iff, intersects_iff_exists, intersects_iff_exists]
  exact exists_congr fun w => and_comm

theorem Wf.contains_lt (h : t.Wf bits) {w : ℕ} (hw : t.Contains w) : w < 2 ^ bits := by
  apply Nat.lt_pow_two_of_testBit
  intro k hk
  have hpow : 2 ^ bits ≤ 2 ^ k := Nat.pow_le_pow_right two_pos hk
  rw [hw k (Nat.testBit_lt_two_pow (h.mask_lt.trans_le hpow))]
  exact Nat.testBit_lt_two_pow (h.value_lt.trans_le hpow)

theorem Wf.bitCount_mask_le (h : t.Wf bits) : bitCount t.mask ≤ bits := bitCount_le_of_lt h.mask_lt

theorem Wf.bitCount_value_le (h : t.Wf bits) : bitCount t.value ≤ bits :=
  bitCount_le_of_lt h.value_lt

/-! ### Terms that differ in one bit -/

/-- The second term has bit `k` set, the first has not, and they are alike otherwise. -/
structure Siblings (k : ℕ) (a b : Term) : Prop where
  mask_eq : b.mask = a.mask
  mask_clear : a.mask.testBit k = false
  value_clear : a.value.testBit k = false
  value_eq : b.value = a.value + 2 ^ k

/-- The term with bit `k` free. -/
def join (a : Term) (k : ℕ) : Term := ⟨a.value, a.mask + 2 ^ k⟩

variable {k : ℕ} {a b : Term}

theorem testBit_mask_join (h : a.mask.testBit k = false) (j : ℕ) :
    (a.join k).mask.testBit j = (a.mask.testBit j || decide (k = j)) :=
  testBit_add_two_pow h j

section

variable (h : Siblings k a b)

include h

theorem Siblings.merge_eq : b.merge a = a.join k := by
  have hdiff : b.value - a.value = 2 ^ k := by rw [h.value_eq, Nat.add_sub_cancel_left]
  unfold merge join
  rw [hdiff, h.mask_eq]
  congr 1 <;> apply Nat.eq_of_testBit_eq <;> intro j
  · rw [Nat.testBit_ldiff, h.value_eq, testBit_add_two_pow h.value_clear, Nat.testBit_two_pow]
    by_cases hj : k = j
    · simp [← hj, h.value_clear]
    · simp [hj]
  · rw [Nat.testBit_or, testBit_add_two_pow h.mask_clear, Nat.testBit_two_pow]

/-- The joined term stands for the words of both. -/
theorem Siblings.contains_join {w : ℕ} (hw : (a.join k).Contains w) :
    a.Contains w ∨ b.Contains w := by
  have hrest : ∀ j, j ≠ k → a.mask.testBit j = false → w.testBit j = a.value.testBit j := by
    intro j hj hm
    refine hw j ?_
    rw [testBit_mask_join h.mask_clear, hm]
    simpa using hj.symm
  cases hk : w.testBit k with
  | false =>
    refine .inl fun j hm => ?_
    by_cases hj : j = k
    · rw [hj, hk, h.value_clear]
    · exact hrest j hj hm
  | true =>
    refine .inr fun j hm => ?_
    rw [h.mask_eq] at hm
    rw [h.value_eq, testBit_add_two_pow h.value_clear]
    by_cases hj : j = k
    · simp [hj, hk]
    · rw [hrest j hj hm]
      simp [Ne.symm hj]

theorem Siblings.join_covers : (a.join k).covers a ∧ (a.join k).covers b := by
  have hfree : ∀ j, (a.join k).mask.testBit j = false → a.mask.testBit j = false ∧ k ≠ j := by
    intro j hj
    simpa [testBit_mask_join h.mask_clear] using hj
  constructor <;> rw [covers_iff] <;> intro j hj <;> obtain ⟨hm, hne⟩ := hfree j hj
  · exact ⟨rfl, hm⟩
  · refine ⟨?_, by rw [h.mask_eq, hm]⟩
    rw [h.value_eq, testBit_add_two_pow h.value_clear]
    simp [join, hne]

/-- Freeing a bit below the width gives a term again, with one more free bit. -/
theorem Siblings.wf_join (ha : a.Wf bits) (hb : b.Wf bits) : (a.join k).Wf bits := by
  have hset : b.value.testBit k := by
    rw [h.value_eq, testBit_add_two_pow h.value_clear]
    simp
  have hk : k < bits := by
    by_contra hk
    have hpow : 2 ^ bits ≤ 2 ^ k := Nat.pow_le_pow_right two_pos (not_lt.1 hk)
    rw [Nat.testBit_lt_two_pow (hb.value_lt.trans_le hpow)] at hset
    exact Bool.false_ne_true hset
  refine ⟨ha.value_lt, ?_, ?_⟩
  · apply Nat.lt_pow_two_of_testBit
    intro j hj
    rw [testBit_mask_join h.mask_clear,
      Nat.testBit_lt_two_pow (ha.mask_lt.trans_le (Nat.pow_le_pow_right two_pos hj))]
    simpa using (show k ≠ j by omega)
  · intro j hj
    rw [testBit_mask_join h.mask_clear, Bool.or_eq_true, decide_eq_true_eq] at hj
    rcases hj with hj | rfl
    · exact ha.disjoint j hj
    · exact h.value_clear

theorem Siblings.bitCount_join :
    bitCount (a.join k).mask = bitCount a.mask + 1 :=
  bitCount_add_two_pow h.mask_clear

end

/-- Similar terms in neighbouring columns differ in one bit. In other columns they need not: 4 and
3 are similar. -/
theorem exists_siblings_of_similar (hb : b.Wf bits)
    (hcount : bitCount b.value = bitCount a.value + 1) (h : b.similar a) : ∃ k, Siblings k a b := by
  simp only [similar, Bool.and_eq_true, beq_iff_eq, decide_eq_true_eq] at h
  obtain ⟨⟨hmask, hlt⟩, hpow⟩ := h
  obtain ⟨k, hclear, hval⟩ := exists_testBit_of_sub hlt hpow hcount
  refine ⟨k, hmask, ?_, hclear, hval⟩
  by_contra hset
  rw [Bool.not_eq_false, ← hmask] at hset
  have hno := hb.disjoint k hset
  rw [hval, testBit_add_two_pow hclear] at hno
  simp at hno

end Term

/-! ## The table -/

/-- The terms by free bits and by ones, and those that are no longer prime. -/
structure Table where
  cell : ℕ → ℕ → List Term
  spent : List Term

variable {implicants : List Term}

namespace Table

/-- The terms of a list in their cells. -/
def ofTerms (implicants : List Term) (bits : ℕ) : Table where
  cell i j :=
    if i ≤ bits ∧ j ≤ bits then
      (implicants.filter fun t => bitCount t.mask == i && bitCount t.value == j).dedup
    else []
  spent := []

/-- A merged term goes into the next row, and its parts are no longer prime. -/
def add (T : Table) (i j : ℕ) (u : Term) (parts : List Term) : Table where
  cell r c := if r = i + 1 ∧ c = j then (T.cell r c).insert u else T.cell r c
  spent := parts ++ T.spent

/-- The terms of a cell that are still prime. -/
def primes (T : Table) (i j : ℕ) : List Term := (T.cell i j).filter (· ∉ T.spent)

/-- `G` holds of all terms, every term is in its cell, and one that is spent is covered by a term of
the next row. -/
structure Inv (G : Term → Prop) (T : Table) : Prop where
  good : ∀ i j t, t ∈ T.cell i j → G t ∧ bitCount t.mask = i ∧ bitCount t.value = j
  spent : ∀ t ∈ T.spent, ∃ j, ∃ u ∈ T.cell (bitCount t.mask + 1) j, u.covers t

/-- While row `i` is worked on only row `i + 1` changes, and nothing is removed. -/
structure Grows (i : ℕ) (T T' : Table) : Prop where
  rows : ∀ r j, r ≠ i + 1 → T'.cell r j = T.cell r j
  cells : ∀ r j, T.cell r j ⊆ T'.cell r j
  spent : T.spent ⊆ T'.spent

/-- A table reached from `T₀` while row `i` is worked on. -/
def Reached (G : Term → Prop) (i : ℕ) (T₀ T : Table) : Prop := T.Inv G ∧ Grows i T₀ T

variable {G : Term → Prop} {T T' : Table} {i j : ℕ} {u : Term} {parts : List Term}

theorem Grows.refl (i : ℕ) (T : Table) : Grows i T T :=
  ⟨fun _ _ _ => rfl, fun _ _ => List.Subset.refl _, List.Subset.refl _⟩

theorem cell_subset_add (r c : ℕ) : T.cell r c ⊆ (T.add i j u parts).cell r c := by
  intro t ht
  simp only [add]
  split
  · exact mem_insert_of_mem ht
  · exact ht

theorem mem_cell_add {r c : ℕ} {t : Term} (h : t ∈ (T.add i j u parts).cell r c) :
    t ∈ T.cell r c ∨ (t = u ∧ r = i + 1 ∧ c = j) := by
  simp only [add] at h
  split at h
  case isTrue hrc =>
    rcases mem_insert_iff.1 h with rfl | h
    · exact .inr ⟨rfl, hrc⟩
    · exact .inl h
  case isFalse => exact .inl h

/-- A merged term that covers its parts keeps the invariant. -/
theorem Inv.add (h : T.Inv G) (hu : G u) (hmask : bitCount u.mask = i + 1)
    (hvalue : bitCount u.value = j) (hparts : ∀ t ∈ parts, bitCount t.mask = i ∧ u.covers t) :
    (T.add i j u parts).Inv G := by
  refine ⟨fun r c t ht => ?_, fun t ht => ?_⟩
  · rcases mem_cell_add ht with ht | ⟨rfl, rfl, rfl⟩
    · exact h.good r c t ht
    · exact ⟨hu, hmask, hvalue⟩
  · rcases mem_append.1 ht with ht | ht
    · obtain ⟨hrow, hcov⟩ := hparts t ht
      refine ⟨j, u, ?_, hcov⟩
      rw [hrow]
      simp [Table.add]
    · obtain ⟨c, v, hv, hcov⟩ := h.spent t ht
      exact ⟨c, v, cell_subset_add _ _ hv, hcov⟩

theorem Grows.add (h : Grows i T T') : Grows i T (T'.add i j u parts) where
  rows r c hr := by simp [Table.add, hr, h.rows r c hr]
  cells r c := List.Subset.trans (h.cells r c) (cell_subset_add r c)
  spent := List.Subset.trans h.spent (subset_append_right _ _)

/-- The table of a list of terms, and that all of them are in it. -/
theorem inv_ofTerms (bits : ℕ) (h : ∀ t ∈ implicants, G t) : (ofTerms implicants bits).Inv G := by
  refine ⟨fun r c t ht => ?_, fun t ht => absurd ht not_mem_nil⟩
  simp only [ofTerms] at ht
  split at ht
  · simp only [mem_dedup, mem_filter, Bool.and_eq_true, beq_iff_eq] at ht
    exact ⟨h t ht.1, ht.2⟩
  · exact absurd ht not_mem_nil

theorem mem_ofTerms {bits : ℕ} {t : Term} (ht : t ∈ implicants) (hwf : t.Wf bits) :
    t ∈ (ofTerms implicants bits).cell (bitCount t.mask) (bitCount t.value) := by
  simp [ofTerms, hwf.bitCount_mask_le, hwf.bitCount_value_le, ht]

/-! ### One row -/

/-- The terms of a column with the similar ones of the next column. -/
def mergeCell (i : ℕ) (T : Table) (j : ℕ) : Table :=
  (T.cell i j).foldl (fun T a =>
    ((T.cell i (j + 1)).filter (Term.similar · a)).foldl (fun T b => T.add i j (b.merge a) [b, a])
      T) T

def mergeRow (bits i : ℕ) (T : Table) : Table := (List.range (bits - i)).foldl (mergeCell i) T

/-- What is asked of `G`: it is about terms of a width, and it passes to joined terms. -/
structure Closed (bits : ℕ) (G : Term → Prop) : Prop where
  wf : ∀ t, G t → t.Wf bits
  join : ∀ k a b, Term.Siblings k a b → G a → G b → G (a.join k)

variable {bits : ℕ}

/-- Siblings in the table, or one in the table and one beside it, may be merged. -/
theorem Inv.add_siblings (h : T.Inv G) (hG : Closed bits G) {k : ℕ} {a b : Term}
    (hab : Term.Siblings k a b) (ha : G a) (hb : G b) (hmask : bitCount a.mask = i)
    (hvalue : bitCount a.value = j) (hparts : parts ⊆ [b, a]) :
    (T.add i j (b.merge a) parts).Inv G := by
  obtain ⟨hcova, hcovb⟩ := hab.join_covers
  rw [hab.merge_eq]
  refine h.add (hG.join k a b hab ha hb) (by rw [hab.bitCount_join, hmask]) hvalue ?_
  intro t ht
  have ht' := hparts ht
  simp only [mem_cons, not_mem_nil, or_false] at ht'
  rcases ht' with rfl | rfl
  · exact ⟨by rw [hab.mask_eq, hmask], hcovb⟩
  · exact ⟨hmask, hcova⟩

theorem mergeCell_spec (hG : Closed bits G) {T₀ : Table} (h : Reached G i T₀ T) (j : ℕ) :
    Reached G i T₀ (mergeCell i T j) := by
  refine List.foldlRecOn (motive := Reached G i T₀) _ _ h ?_
  intro T₁ h₁ a ha
  obtain ⟨hga, hmask, hvalue⟩ := h.1.good i j a ha
  refine List.foldlRecOn (motive := Reached G i T₀) _ _ h₁ ?_
  intro T₂ h₂ b hb
  rw [mem_filter] at hb
  obtain ⟨hgb, -, hvalueb⟩ := h₁.1.good i (j + 1) b hb.1
  obtain ⟨k, hab⟩ := Term.exists_siblings_of_similar (hG.wf b hgb) (by rw [hvalueb, hvalue]) hb.2
  exact ⟨h₂.1.add_siblings hG hab hga hgb hmask hvalue (List.Subset.refl _), h₂.2.add⟩

theorem mergeRow_spec (hG : Closed bits G) (h : T.Inv G) (i : ℕ) :
    Reached G i T (mergeRow bits i T) :=
  List.foldlRecOn (motive := Reached G i T) _ _ ⟨h, .refl i T⟩
    fun _ h' j _ => mergeCell_spec hG h' j

end Table

/-! ## Prime implicants -/

/-- Row after row is worked on by `row`, and the terms of the row that are then prime are
collected. -/
def collect (row : ℕ → Table → Table) (bits n : ℕ) (T : Table) : Table × List Term :=
  (List.range n).foldl (fun s i =>
    let T' := row i s.1
    (T', ((List.range (bits + 1)).flatMap (T'.primes i)).reverse ++ s.2)) (T, [])

/-- `sortWith(_ < _)`. -/
def sortTerms (l : List Term) : List Term := l.mergeSort fun a b => !b.lt a

namespace Simplify

def getPrimeImplicants (implicants : List Term) (bits : ℕ) : List Term :=
  sortTerms (collect (Table.mergeRow bits) bits (bits + 1) (.ofTerms implicants bits)).2

end Simplify

namespace SimplifyDC

/-- The first neighbour of a term, with one bit more or one bit less, that meets none of the
`maxterms`. -/
def getImplicitDC (maxterms : List Term) (term : Term) (bits : ℕ) (above : Bool) : Option Term :=
  (List.range bits).findSome? fun i =>
    (if above && ((term.value ||| term.mask) &&& 2 ^ i) == 0 then
      some (⟨term.value ||| 2 ^ i, term.mask⟩ : Term)
    else if !above && (term.value &&& 2 ^ i) != 0 then
      some ⟨term.value.ldiff (2 ^ i), term.mask⟩
    else none).filter fun t => !maxterms.any (·.intersects t)

/-- A prime term with a neighbour that has one bit more. -/
def mergeAbove (maxterms : List Term) (bits i j : ℕ) (T : Table) (a : Term) : Table :=
  match getImplicitDC maxterms a bits true with
  | some dc => T.add i j (dc.merge a) [a]
  | none => T

/-- A prime term with a neighbour that has one bit less. -/
def mergeBelow (maxterms : List Term) (bits i j : ℕ) (T : Table) (a : Term) : Table :=
  match getImplicitDC maxterms a bits false with
  | some dc => T.add i j (a.merge dc) [a]
  | none => T

def mergeDC (maxterms : List Term) (bits i : ℕ) (T : Table) (j : ℕ) : Table :=
  let T' := (T.primes i j).foldl (mergeAbove maxterms bits i j) T
  (T'.primes i (j + 1)).foldl (mergeBelow maxterms bits i j) T'

def row (maxterms : List Term) (bits i : ℕ) (T : Table) : Table :=
  (List.range (bits - i)).foldl (mergeDC maxterms bits i) (Table.mergeRow bits i T)

def getPrimeImplicants (minterms maxterms : List Term) (bits : ℕ) : List Term :=
  sortTerms (collect (row maxterms bits) bits (bits + 1) (.ofTerms minterms bits)).2

end SimplifyDC

/-- What was collected from the first rows: every term of them is prime or spent. -/
structure Collected (G : Term → Prop) (T₀ : Table) (n : ℕ) (s : Table × List Term) : Prop where
  inv : s.1.Inv G
  good : ∀ p ∈ s.2, G p
  kept : ∀ r j, T₀.cell r j ⊆ s.1.cell r j
  done : ∀ r < n, ∀ j, ∀ t ∈ s.1.cell r j, t ∈ s.2 ∨ t ∈ s.1.spent

variable {G : Term → Prop} {bits : ℕ} {T₀ : Table}

theorem collected (hG : Table.Closed bits G) {row : ℕ → Table → Table}
    (hrow : ∀ i (T : Table), T.Inv G → Table.Reached G i T (row i T))
    (hinit : T₀.Inv G) (n : ℕ) : Collected G T₀ n (collect row bits n T₀) := by
  induction n with
  | zero =>
    exact ⟨hinit, fun p hp => absurd hp not_mem_nil, fun _ _ => List.Subset.refl _,
      fun r hr => absurd hr (Nat.not_lt_zero r)⟩
  | succ n ih =>
    have hstep : collect row bits (n + 1) T₀ =
        (row n (collect row bits n T₀).1,
          ((List.range (bits + 1)).flatMap ((row n (collect row bits n T₀).1).primes n)).reverse ++
            (collect row bits n T₀).2) := by
      rw [collect, range_succ (n := n), foldl_append]
      rfl
    rw [hstep]
    obtain ⟨hinv, hgrow⟩ := hrow n _ ih.inv
    refine ⟨hinv, ?_, fun r j => List.Subset.trans (ih.kept r j) (hgrow.cells r j), ?_⟩
    · intro q hq
      rcases mem_append.1 hq with hq | hq
      · simp only [mem_reverse, mem_flatMap, Table.primes, mem_filter] at hq
        obtain ⟨j, -, hq, -⟩ := hq
        exact (hinv.good n j q hq).1
      · exact ih.good q hq
    · intro r hr j t ht
      rcases Nat.lt_succ_iff_lt_or_eq.1 hr with hr | rfl
      · -- earlier rows have not changed
        rw [hgrow.rows r j (by omega)] at ht
        rcases ih.done r hr j t ht with h | h
        · exact .inl (mem_append_right _ h)
        · exact .inr (hgrow.spent h)
      · by_cases hsp : t ∈ (row r (collect row bits r T₀).1).spent
        · exact .inr hsp
        · obtain ⟨hgt, -, hj⟩ := hinv.good r j t ht
          have hle : j < bits + 1 := by
            have := (hG.wf t hgt).bitCount_value_le
            omega
          refine .inl (mem_append_left _ ?_)
          simp only [mem_reverse, mem_flatMap, Table.primes, mem_filter,
            mem_range, decide_not, Bool.not_eq_true', decide_eq_false_iff_not]
          exact ⟨j, hle, ht, hsp⟩

/-- Every term of the table is covered by a prime one: go up the rows until a term is not spent. -/
theorem Collected.exists_prime (hG : Table.Closed bits G) {s : Table × List Term}
    (h : Collected G T₀ (bits + 1) s) {r j : ℕ} {t : Term} (ht : t ∈ s.1.cell r j) :
    ∃ p ∈ s.2, p.covers t := by
  have hle : ∀ {r j : ℕ} {t : Term}, t ∈ s.1.cell r j → r ≤ bits := by
    intro r j t ht
    obtain ⟨hgt, hr, -⟩ := h.inv.good r j t ht
    exact hr ▸ (hG.wf t hgt).bitCount_mask_le
  induction hd : bits - r using Nat.strongRec generalizing r j t with
  | _ d ih =>
    rcases h.done r (Nat.lt_succ_of_le (hle ht)) j t ht with hp | hsp
    · exact ⟨t, hp, t.covers_refl⟩
    · obtain ⟨c, u, hu, hcov⟩ := h.inv.spent t hsp
      rw [(h.inv.good r j t ht).2.1] at hu
      have hlt := hle hu
      obtain ⟨p, hp, hpu⟩ := ih (bits - (r + 1)) (by omega) hu rfl
      exact ⟨p, hp, Term.covers_trans hpu hcov⟩

/-- The primes that are collected are good, and they cover the terms the table started with. -/
theorem collect_spec (hG : Table.Closed bits G) {row : ℕ → Table → Table}
    (hrow : ∀ i (T : Table), T.Inv G → Table.Reached G i T (row i T))
    (hgood : ∀ t ∈ implicants, G t) :
    let prime := sortTerms (collect row bits (bits + 1) (.ofTerms implicants bits)).2
    (∀ p ∈ prime, G p) ∧ ∀ t ∈ implicants, ∃ p ∈ prime, p.covers t := by
  have h := collected hG hrow (Table.inv_ofTerms bits hgood) (bits + 1)
  refine ⟨fun p hp => h.good p (mem_mergeSort.1 hp), fun t ht => ?_⟩
  have hcell := h.kept _ _ (Table.mem_ofTerms ht (hG.wf t (hgood t ht)))
  obtain ⟨p, hp, hcov⟩ := h.exists_prime hG hcell
  exact ⟨p, mem_mergeSort.2 hp, hcov⟩

/-! ### Terms that must not be met -/

namespace SimplifyDC

variable {maxterms : List Term} {a dc : Term}

/-- A term of the width that meets none of the `maxterms`. -/
def Avoids (maxterms : List Term) (bits : ℕ) (t : Term) : Prop :=
  t.Wf bits ∧ ∀ m ∈ maxterms, m.intersects t = false

theorem Avoids.not_contains {m : Term} {w : ℕ} (ha : Avoids maxterms bits a) (hm : m ∈ maxterms)
    (hmw : m.Contains w) : ¬ a.Contains w := by
  intro hw
  have hmeet := Term.intersects_iff_exists.2 ⟨w, hmw, hw⟩
  exact absurd (hmeet.symm.trans (ha.2 m hm)) (by decide)

theorem closed_avoids (maxterms : List Term) (bits : ℕ) :
    Table.Closed bits (Avoids maxterms bits) := by
  refine ⟨fun t ht => ht.1, fun k a b hab ha hb => ⟨hab.wf_join ha.1 hb.1, fun m hm => ?_⟩⟩
  by_contra hmeet
  rw [Bool.not_eq_false, Term.intersects_iff_exists] at hmeet
  obtain ⟨w, hmw, hw⟩ := hmeet
  rcases hab.contains_join hw with hw | hw
  · exact ha.not_contains hm hmw hw
  · exact hb.not_contains hm hmw hw

theorem and_two_pow_eq_zero_iff {n k : ℕ} : n &&& 2 ^ k = 0 ↔ n.testBit k = false := by
  rw [Nat.and_two_pow]
  cases n.testBit k <;> simp

/-- A neighbour above has one more bit set and may be merged. -/
theorem getImplicitDC_above (ha : a.Wf bits) (h : getImplicitDC maxterms a bits true = some dc) :
    (∃ k, Term.Siblings k a dc) ∧ Avoids maxterms bits dc := by
  obtain ⟨k, hk, hdc⟩ := exists_of_findSome?_eq_some h
  rw [mem_range] at hk
  obtain ⟨hdc, hmax⟩ := Option.filter_eq_some_iff.1 hdc
  simp only [Bool.true_and, Bool.not_true, Bool.false_and, Bool.false_eq_true, if_false,
    Option.ite_none_right_eq_some, Option.some.injEq, beq_iff_eq, and_two_pow_eq_zero_iff,
    Nat.testBit_or, Bool.or_eq_false_iff] at hdc
  obtain ⟨⟨hvalue, hmask⟩, rfl⟩ := hdc
  have hor : ∀ j, (a.value ||| 2 ^ k).testBit j = (a.value.testBit j || decide (k = j)) := by
    intro j
    rw [Nat.testBit_or, Nat.testBit_two_pow]
  refine ⟨⟨k, rfl, hmask, hvalue, ?_⟩, ⟨?_, ha.mask_lt, ?_⟩, ?_⟩
  · apply Nat.eq_of_testBit_eq
    intro j
    rw [hor, testBit_add_two_pow hvalue]
  · exact Nat.or_lt_two_pow ha.value_lt (Nat.pow_lt_pow_right one_lt_two hk)
  · intro j hj
    have hne : k ≠ j := fun he => by
      rw [← he] at hj
      exact absurd (hj.symm.trans hmask) (by decide)
    change (a.value ||| 2 ^ k).testBit j = false
    rw [hor, ha.disjoint j hj]
    simpa using hne
  · intro m hm
    simp only [Bool.not_eq_true', any_eq_false, Bool.not_eq_true] at hmax
    exact hmax m hm

/-- A neighbour below has one bit less and may be merged. -/
theorem getImplicitDC_below (ha : a.Wf bits) (h : getImplicitDC maxterms a bits false = some dc) :
    (∃ k, Term.Siblings k dc a) ∧ Avoids maxterms bits dc := by
  obtain ⟨k, hk, hdc⟩ := exists_of_findSome?_eq_some h
  obtain ⟨hdc, hmax⟩ := Option.filter_eq_some_iff.1 hdc
  simp only [Bool.false_and, Bool.false_eq_true, if_false, Bool.not_false, Bool.true_and,
    Option.ite_none_right_eq_some, Option.some.injEq, bne_iff_ne, ne_eq, and_two_pow_eq_zero_iff,
    Bool.not_eq_false] at hdc
  obtain ⟨hvalue, rfl⟩ := hdc
  have hdiff : ∀ j, (a.value.ldiff (2 ^ k)).testBit j = (a.value.testBit j && !decide (k = j)) := by
    intro j
    rw [Nat.testBit_ldiff, Nat.testBit_two_pow]
  have hclear : (a.value.ldiff (2 ^ k)).testBit k = false := by simp [hdiff]
  have hmask : a.mask.testBit k = false := by
    by_contra hset
    rw [Bool.not_eq_false] at hset
    exact absurd ((ha.disjoint k hset).symm.trans hvalue) (by decide)
  have heq : a.value = a.value.ldiff (2 ^ k) + 2 ^ k := by
    apply Nat.eq_of_testBit_eq
    intro j
    rw [testBit_add_two_pow hclear, hdiff]
    by_cases hj : k = j
    · simp [← hj, hvalue]
    · simp [hj]
  refine ⟨⟨k, rfl, hmask, hclear, heq⟩, ⟨?_, ha.mask_lt, ?_⟩, ?_⟩
  · exact (Nat.le_add_right _ (2 ^ k)).trans_lt (heq ▸ ha.value_lt)
  · intro j hj
    change (a.value.ldiff (2 ^ k)).testBit j = false
    rw [hdiff, ha.disjoint j hj, Bool.false_and]
  · intro m hm
    simp only [Bool.not_eq_true', any_eq_false, Bool.not_eq_true] at hmax
    exact hmax m hm

variable {T : Table} {i j : ℕ}

section

variable (h : Table.Reached (Avoids maxterms bits) i T₀ T)

include h

theorem mergeAbove_spec
    (ha : Avoids maxterms bits a) (hmask : bitCount a.mask = i) (hvalue : bitCount a.value = j) :
    Table.Reached (Avoids maxterms bits) i T₀ (mergeAbove maxterms bits i j T a) := by
  unfold mergeAbove
  split
  case h_1 dc hdc =>
    obtain ⟨⟨k, hsib⟩, hav⟩ := getImplicitDC_above ha.1 hdc
    exact ⟨h.1.add_siblings (closed_avoids maxterms bits) hsib ha hav hmask hvalue (by simp),
      h.2.add⟩
  case h_2 => exact h

theorem mergeBelow_spec (ha : Avoids maxterms bits a) (hmask : bitCount a.mask = i)
    (hvalue : bitCount a.value = j + 1) :
    Table.Reached (Avoids maxterms bits) i T₀ (mergeBelow maxterms bits i j T a) := by
  unfold mergeBelow
  split
  case h_1 dc hdc =>
    obtain ⟨⟨k, hsib⟩, hav⟩ := getImplicitDC_below ha.1 hdc
    have hcount : bitCount dc.value = j := by
      rw [hsib.value_eq, bitCount_add_two_pow hsib.value_clear] at hvalue
      omega
    exact ⟨h.1.add_siblings (closed_avoids maxterms bits) hsib hav ha
      (by rw [← hsib.mask_eq, hmask]) hcount (by simp), h.2.add⟩
  case h_2 => exact h

theorem mergeDC_spec (j : ℕ) :
    Table.Reached (Avoids maxterms bits) i T₀ (mergeDC maxterms bits i T j) := by
  have habove : Table.Reached (Avoids maxterms bits) i T₀
      ((T.primes i j).foldl (mergeAbove maxterms bits i j) T) := by
    refine List.foldlRecOn (motive := Table.Reached _ i T₀) _ _ h ?_
    intro T' h' a ha
    obtain ⟨hga, hmask, hvalue⟩ := h.1.good i j a (mem_of_mem_filter ha)
    exact mergeAbove_spec h' hga hmask hvalue
  refine List.foldlRecOn (motive := Table.Reached _ i T₀) _ _ habove ?_
  intro T' h' a ha
  obtain ⟨hga, hmask, hvalue⟩ := habove.1.good i (j + 1) a (mem_of_mem_filter ha)
  exact mergeBelow_spec h' hga hmask hvalue

end

theorem row_spec (i : ℕ) (T : Table) (h : T.Inv (Avoids maxterms bits)) :
    Table.Reached (Avoids maxterms bits) i T (row maxterms bits i T) :=
  List.foldlRecOn (motive := Table.Reached _ i T) _ _
    (Table.mergeRow_spec (closed_avoids maxterms bits) h i) fun _ h' j _ => mergeDC_spec h' j

end SimplifyDC

/-! ## Choosing a cover -/

/-- A prime implicant that covers fewer of the `minterms` than another one and only such. -/
def dominated (prime minterms : List Term) : Option Term :=
  prime.findSome? fun p =>
    prime.find? fun q =>
      decide ((minterms.filter q.covers).length < (minterms.filter p.covers).length) &&
        (minterms.filter q.covers).all p.covers

/-- The primes that are the only ones to cover some minterm. -/
def essential (prime minterms : List Term) : List Term :=
  prime.filter fun p => (minterms.filter fun t => prime.countP (·.covers t) == 1).any p.covers

def nonessential (prime minterms : List Term) : List Term :=
  prime.filter (· ∉ essential prime minterms)

def uncovered (prime minterms : List Term) : List Term :=
  minterms.filter fun t => !(essential prime minterms).any (·.covers t)

variable {prime minterms : List Term}

theorem mem_of_dominated {q : Term} (h : dominated prime minterms = some q) :
    q ∈ prime ∧ ∃ p ∈ prime, p ≠ q ∧ ∀ m ∈ minterms, q.covers m → p.covers m := by
  obtain ⟨p, hp, hq⟩ := exists_of_findSome?_eq_some h
  have hcond := List.find?_some hq
  simp only [Bool.and_eq_true, decide_eq_true_eq, all_eq_true, mem_filter] at hcond
  refine ⟨mem_of_find?_eq_some hq, p, hp, ?_, fun m hm hqm => hcond.2 m ⟨hm, hqm⟩⟩
  rintro rfl
  exact lt_irrefl _ hcond.1

/-- The primes other than a given one. -/
def without (q : Term) (prime : List Term) : List Term := prime.filter (· ≠ q)

theorem length_without_lt {prime : List Term} {q : Term} (h : q ∈ prime) :
    (without q prime).length < prime.length :=
  length_filter_lt_length_iff_exists.2 ⟨q, h, by simp⟩

theorem length_nonessential_lt (h : essential prime minterms ≠ []) :
    (nonessential prime minterms).length < prime.length := by
  obtain ⟨p, hp⟩ := exists_mem_of_ne_nil _ h
  exact length_filter_lt_length_iff_exists.2 ⟨p, mem_of_mem_filter hp, by simpa using hp⟩

/-- The essential primes, those left over, and the minterms for which a choice remains. -/
def getEssentialPrimeImplicants (prime minterms : List Term) : List Term × List Term × List Term :=
  match _hd : dominated prime minterms with
  | some q => getEssentialPrimeImplicants (without q prime) minterms
  | none =>
    if _he : essential prime minterms = [] ∨ uncovered prime minterms = [] then
      (essential prime minterms, nonessential prime minterms, uncovered prime minterms)
    else
      let r := getEssentialPrimeImplicants (nonessential prime minterms) (uncovered prime minterms)
      (essential prime minterms ++ r.1, r.2.1, r.2.2)
termination_by prime.length
decreasing_by
  · exact length_without_lt (mem_of_dominated _hd).1
  · exact length_nonessential_lt (not_or.1 _he).1

/-- Every minterm is covered by some of the terms. -/
def Covered (terms minterms : List Term) : Prop :=
  ∀ m ∈ minterms, ∃ p ∈ terms, p.covers m = true

theorem covered_uncovered (h : Covered prime minterms) :
    Covered (nonessential prime minterms) (uncovered prime minterms) := by
  intro m hm
  simp only [uncovered, mem_filter, Bool.not_eq_true', any_eq_false,
    Bool.not_eq_true] at hm
  obtain ⟨p, hp, hcov⟩ := h m hm.1
  refine ⟨p, mem_filter.2 ⟨hp, ?_⟩, hcov⟩
  rw [decide_eq_true_eq]
  intro hess
  exact absurd ((hm.2 p hess).symm.trans hcov) (by decide)

theorem covered_essential_or (prime : List Term) {minterms : List Term} {m : Term}
    (hm : m ∈ minterms) :
    (∃ p ∈ essential prime minterms, p.covers m) ∨ m ∈ uncovered prime minterms := by
  by_cases h : ∃ p ∈ essential prime minterms, p.covers m
  · exact .inl h
  · refine .inr (mem_filter.2 ⟨hm, ?_⟩)
    simpa using h

/-- Nothing is lost: what the essential primes do not cover is left over with primes for it. -/
theorem getEssentialPrimeImplicants_spec (prime minterms : List Term) (h : Covered prime minterms) :
    (getEssentialPrimeImplicants prime minterms).1 ⊆ prime ∧
      (getEssentialPrimeImplicants prime minterms).2.1 ⊆ prime ∧
      (∀ m ∈ minterms, (∃ p ∈ (getEssentialPrimeImplicants prime minterms).1, p.covers m) ∨
        m ∈ (getEssentialPrimeImplicants prime minterms).2.2) ∧
      Covered (getEssentialPrimeImplicants prime minterms).2.1
        (getEssentialPrimeImplicants prime minterms).2.2 := by
  fun_induction getEssentialPrimeImplicants prime minterms with
  | case1 prime minterms q hd ih =>
    -- a dominated prime is dropped; the dominating one stands in for it
    obtain ⟨-, p, hp, hne, hdom⟩ := mem_of_dominated hd
    have hcov : Covered (without q prime) minterms := by
      intro m hm
      obtain ⟨p', hp', hc⟩ := h m hm
      by_cases hq : p' = q
      · exact ⟨p, mem_filter.2 ⟨hp, by simpa using hne⟩, hdom m hm (hq ▸ hc)⟩
      · exact ⟨p', mem_filter.2 ⟨hp', by simpa using hq⟩, hc⟩
    obtain ⟨h1, h2, h3, h4⟩ := ih hcov
    exact ⟨List.Subset.trans h1 (filter_subset_self _),
      List.Subset.trans h2 (filter_subset_self _), h3, h4⟩
  | case2 prime minterms hd he =>
    exact ⟨filter_subset_self _, filter_subset_self _,
      fun m hm => covered_essential_or prime hm, covered_uncovered h⟩
  | case3 prime minterms hd he r ih =>
    obtain ⟨h1, h2, h3, h4⟩ := ih (covered_uncovered h)
    refine ⟨append_subset.2 ⟨filter_subset_self _,
      List.Subset.trans h1 (filter_subset_self _)⟩,
      List.Subset.trans h2 (filter_subset_self _), fun m hm => ?_, h4⟩
    rcases covered_essential_or prime hm with ⟨p, hp, hc⟩ | hun
    · exact .inl ⟨p, mem_append_left _ hp, hc⟩
    · rcases h3 m hun with ⟨p, hp, hc⟩ | hleft
      · exact .inl ⟨p, mem_append_right _ hp, hc⟩
      · exact .inr hleft

/-- `reduceLeft`, which fails on an empty sequence. -/
def reduceLeft {α : Type} (f : α → α → α) : List α → Option α
  | [] => none
  | a :: l => some (l.foldl f a)

def getCost (cover : List Term) (bits : ℕ) : ℕ :=
  (cover.map fun t => bits - bitCount t.mask).sum

/-- Lexicographic order. -/
def listLess : List Term → List Term → Bool
  | _, [] => false
  | [], _ :: _ => true
  | x :: xs, y :: ys => x.lt y || x == y && listLess xs ys

def cheaper (a b : List Term) (bits : ℕ) : Bool :=
  decide (getCost a bits < getCost b bits) ||
    getCost a bits == getCost b bits && listLess (sortTerms a) (sortTerms b)

/-- Every set of the one with every set of the other. -/
def combine (c₀ c₁ : List (List Term)) : Option (List (List Term)) :=
  reduceLeft (· ++ ·) (c₀.map fun a => c₁.map fun b => b ∪ a)

/-- The choices for one minterm. -/
def choices (implicants : List Term) (m : Term) : List (List Term) :=
  (implicants.filter (·.covers m)).map fun i => [i]

/-- The cheapest choice of an implicant for each minterm. -/
def getCover (implicants minterms : List Term) (bits : ℕ) : Option (List Term) :=
  match minterms.map (choices implicants) with
  | [] => some []
  | c :: cs => do
    let all ← cs.foldlM combine c
    reduceLeft (fun a b => if cheaper a b bits then a else b) all

theorem mem_of_reduceLeft {α : Type} {f : α → α → α} (hf : ∀ a b, f a b = a ∨ f a b = b)
    {l : List α} (hl : l ≠ []) : ∃ x ∈ l, reduceLeft f l = some x := by
  obtain ⟨a, l, rfl⟩ := exists_cons_of_ne_nil hl
  suffices h : ∀ (l : List α) (a : α), l.foldl f a = a ∨ l.foldl f a ∈ l by
    rcases h l a with h | h
    · exact ⟨a, mem_cons_self, congrArg some h⟩
    · exact ⟨_, mem_cons_of_mem a h, rfl⟩
  intro l
  induction l with
  | nil => exact fun a => .inl rfl
  | cons b l ih =>
    intro a
    rw [foldl_cons]
    rcases ih (f a b) with h | h
    · rw [h]
      rcases hf a b with h' | h'
      · exact .inl h'
      · exact .inr (by rw [h']; exact mem_cons_self)
    · exact .inr (mem_cons_of_mem b h)

/-- What `combine` returns: nonempty, and every set is the union of one of each side. -/
theorem combine_spec {c₀ c₁ : List (List Term)} (h₀ : c₀ ≠ []) (h₁ : c₁ ≠ []) :
    ∃ c, combine c₀ c₁ = some c ∧ c ≠ [] ∧
      ∀ s ∈ c, ∃ a ∈ c₀, ∃ b ∈ c₁, s = b ∪ a := by
  obtain ⟨a, l, rfl⟩ := exists_cons_of_ne_nil h₀
  have hfold : ∀ (l : List (List Term)) (acc : List (List Term)),
      (l.map fun a => c₁.map fun b => b ∪ a).foldl (· ++ ·) acc =
        acc ++ l.flatMap fun a => c₁.map fun b => b ∪ a := by
    intro l
    induction l with
    | nil => intro acc; simp
    | cons a l ih => intro acc; rw [map_cons, foldl_cons, ih]; simp
  refine ⟨_, rfl, ?_, ?_⟩
  · rw [hfold]
    simp [h₁]
  · intro s hs
    rw [hfold, mem_append] at hs
    rcases hs with hs | hs
    · obtain ⟨b, hb, rfl⟩ := mem_map.1 hs
      exact ⟨a, mem_cons_self, b, hb, rfl⟩
    · obtain ⟨a', ha', hs⟩ := mem_flatMap.1 hs
      obtain ⟨b, hb, rfl⟩ := mem_map.1 hs
      exact ⟨a', mem_cons_of_mem a ha', b, hb, rfl⟩

theorem choices_ne_nil {m : Term}
    (h : ∃ p ∈ implicants, p.covers m) : choices implicants m ≠ [] := by
  obtain ⟨p, hp, hc⟩ := h
  exact ne_nil_of_mem (mem_map.2 ⟨p, mem_filter.2 ⟨hp, hc⟩, rfl⟩)

/-- Sets of implicants that cover the minterms treated so far. -/
def Chosen (implicants done : List Term) (c : List (List Term)) : Prop :=
  c ≠ [] ∧ ∀ s ∈ c, s ⊆ implicants ∧ Covered s done

theorem chosen_choices {m : Term}
    (h : ∃ p ∈ implicants, p.covers m) : Chosen implicants [m] (choices implicants m) := by
  refine ⟨choices_ne_nil h, fun s hs => ?_⟩
  obtain ⟨p, hp, rfl⟩ := mem_map.1 hs
  rw [mem_filter] at hp
  refine ⟨by simpa using hp.1, fun m' hm' => ⟨p, mem_singleton_self p, ?_⟩⟩
  rw [mem_singleton.1 hm']
  exact hp.2

/-- Taking one more minterm into account keeps what was covered. -/
theorem Chosen.combine {implicants done : List Term} {c : List (List Term)} {m : Term}
    (h : Chosen implicants done c) (hm : ∃ p ∈ implicants, p.covers m) :
    ∃ c', combine c (choices implicants m) = some c' ∧ Chosen implicants (done ++ [m]) c' := by
  have hm' := chosen_choices hm
  obtain ⟨c', hc', hne, hmem⟩ := combine_spec h.1 hm'.1
  refine ⟨c', hc', hne, fun s hs => ?_⟩
  obtain ⟨a, ha, b, hb, rfl⟩ := hmem s hs
  obtain ⟨hsa, hca⟩ := h.2 a ha
  obtain ⟨hsb, hcb⟩ := hm'.2 b hb
  refine ⟨fun t ht => ?_, fun x hx => ?_⟩
  · rcases mem_union_iff.1 ht with ht | ht
    · exact hsb ht
    · exact hsa ht
  · rcases mem_append.1 hx with hx | hx
    · obtain ⟨p, hp, hc⟩ := hca x hx
      exact ⟨p, mem_union_iff.2 (.inr hp), hc⟩
    · obtain ⟨p, hp, hc⟩ := hcb x hx
      exact ⟨p, mem_union_iff.2 (.inl hp), hc⟩

theorem exists_chosen {implicants done rest : List Term} {c : List (List Term)}
    (h : Chosen implicants done c) (hrest : Covered implicants rest) :
    ∃ all, (rest.map (choices implicants)).foldlM combine c = some all ∧
      Chosen implicants (done ++ rest) all := by
  induction rest generalizing done c with
  | nil => exact ⟨c, rfl, by simpa using h⟩
  | cons m rest ih =>
    obtain ⟨c', hc', hch⟩ := h.combine (hrest m mem_cons_self)
    obtain ⟨all, hall, hch'⟩ := ih hch fun x hx => hrest x (mem_cons_of_mem m hx)
    refine ⟨all, ?_, by simpa using hch'⟩
    rw [map_cons, foldlM_cons, hc']
    exact hall

/-- Implicants that cover the minterms contain a cover, and one is found. -/
theorem getCover_spec {implicants minterms : List Term} (bits : ℕ)
    (h : Covered implicants minterms) :
    ∃ cover, getCover implicants minterms bits = some cover ∧ cover ⊆ implicants ∧
      Covered cover minterms := by
  cases minterms with
  | nil => exact ⟨[], rfl, nil_subset _, fun m hm => absurd hm not_mem_nil⟩
  | cons m rest =>
    obtain ⟨all, hall, hne, hch⟩ := exists_chosen (chosen_choices (h m mem_cons_self))
      fun x hx => h x (mem_cons_of_mem m hx)
    obtain ⟨cover, hmem, hcov⟩ := mem_of_reduceLeft
      (f := fun a b => if cheaper a b bits then a else b)
      (fun a b => by split <;> simp) hne
    refine ⟨cover, ?_, hch cover hmem⟩
    change ((rest.map (choices implicants)).foldlM combine (choices implicants m) >>=
      fun all => reduceLeft (fun a b => if cheaper a b bits then a else b) all) = some cover
    rw [hall]
    exact hcov

/-! ## The two procedures -/

/-- `Simplify`: a cover of the `minterms` that may also cover `dontcares`. A failed assertion is
`none`. -/
def simplify (minterms dontcares : List Term) (bits : ℕ) : Option (List Term) := do
  let prime := Simplify.getPrimeImplicants (minterms ++ dontcares) bits
  guard (minterms.all fun t => prime.any (·.covers t))
  let (eprime, prime2, uncovered) := getEssentialPrimeImplicants prime minterms
  let cover := eprime ++ (← getCover prime2 uncovered bits)
  guard (minterms.all fun t => cover.any (·.covers t))
  return cover

/-- `SimplifyDC`: a cover of the `minterms` that meets none of the `maxterms`. -/
def simplifyDC (minterms maxterms : List Term) (bits : ℕ) : Option (List Term) := do
  let prime := SimplifyDC.getPrimeImplicants minterms maxterms bits
  let (eprime, prime2, uncovered) := getEssentialPrimeImplicants prime minterms
  let cover := eprime ++ (← getCover prime2 uncovered bits)
  guard (minterms.all fun t => cover.any (·.covers t))
  guard (maxterms.all fun t => !cover.any (·.intersects t))
  return cover

theorem all_any_covers_iff {terms minterms : List Term} :
    (minterms.all fun t => terms.any (·.covers t)) = true ↔ Covered terms minterms := by
  simp [Covered]

/-- Both stages of the choice together. -/
theorem exists_cover (bits : ℕ) (h : Covered prime minterms) :
    ∃ rest, getCover (getEssentialPrimeImplicants prime minterms).2.1
        (getEssentialPrimeImplicants prime minterms).2.2 bits = some rest ∧
      (getEssentialPrimeImplicants prime minterms).1 ++ rest ⊆ prime ∧
      Covered ((getEssentialPrimeImplicants prime minterms).1 ++ rest) minterms := by
  obtain ⟨hess, hnon, hmin, hleft⟩ := getEssentialPrimeImplicants_spec prime minterms h
  obtain ⟨rest, hrest, hsub, hcov⟩ := getCover_spec bits hleft
  refine ⟨rest, hrest, append_subset.2 ⟨hess, List.Subset.trans hsub hnon⟩, fun m hm => ?_⟩
  rcases hmin m hm with ⟨p, hp, hc⟩ | hm
  · exact ⟨p, mem_append_left _ hp, hc⟩
  · obtain ⟨p, hp, hc⟩ := hcov m hm
    exact ⟨p, mem_append_right _ hp, hc⟩

/-- A term of the width all of whose words are in one of the given terms. -/
def Within (terms : List Term) (bits : ℕ) (t : Term) : Prop :=
  t.Wf bits ∧ ∀ w, t.Contains w → ∃ x ∈ terms, x.Contains w

theorem closed_within (terms : List Term) (bits : ℕ) : Table.Closed bits (Within terms bits) :=
  ⟨fun _ ht => ht.1, fun _ _ _ hab ha hb => ⟨hab.wf_join ha.1 hb.1, fun w hw =>
    (hab.contains_join hw).elim (ha.2 w) (hb.2 w)⟩⟩

/-- `Simplify` returns a cover of the minterms within minterms and don't-cares. -/
theorem simplify_spec (minterms dontcares : List Term) {bits : ℕ}
    (hwf : ∀ t ∈ minterms ++ dontcares, t.Wf bits) :
    ∃ cover, simplify minterms dontcares bits = some cover ∧ Covered cover minterms ∧
      ∀ t ∈ cover, Within (minterms ++ dontcares) bits t := by
  have hgood : ∀ t ∈ minterms ++ dontcares, Within (minterms ++ dontcares) bits t :=
    fun t ht => ⟨hwf t ht, fun w hw => ⟨t, ht, hw⟩⟩
  obtain ⟨hprime, hcovered⟩ := collect_spec (closed_within _ _)
    (fun i T h => Table.mergeRow_spec (closed_within _ _) h i) hgood
  have hmin : Covered (Simplify.getPrimeImplicants (minterms ++ dontcares) bits) minterms :=
    fun m hm => hcovered m (mem_append_left _ hm)
  obtain ⟨rest, hrest, hsub, hcov⟩ := exists_cover bits hmin
  refine ⟨_, ?_, hcov, fun t ht => hprime t (hsub ht)⟩
  simp only [simplify, all_any_covers_iff.2 hmin, guard_true, hrest, Option.pure_def,
    Option.bind_eq_bind, Option.bind_some, all_any_covers_iff.2 hcov]

/-- `SimplifyDC` returns a cover of the minterms that avoids the maxterms. -/
theorem simplifyDC_spec {minterms maxterms : List Term} {bits : ℕ}
    (hgood : ∀ t ∈ minterms, SimplifyDC.Avoids maxterms bits t) :
    ∃ cover, simplifyDC minterms maxterms bits = some cover ∧ Covered cover minterms ∧
      ∀ t ∈ cover, SimplifyDC.Avoids maxterms bits t := by
  obtain ⟨hprime, hmin⟩ : (∀ p ∈ SimplifyDC.getPrimeImplicants minterms maxterms bits,
      SimplifyDC.Avoids maxterms bits p) ∧
      Covered (SimplifyDC.getPrimeImplicants minterms maxterms bits) minterms :=
    collect_spec (SimplifyDC.closed_avoids _ _) SimplifyDC.row_spec hgood
  obtain ⟨rest, hrest, hsub, hcov⟩ := exists_cover bits hmin
  refine ⟨_, ?_, hcov, fun t ht => hprime t (hsub ht)⟩
  have hmax : (maxterms.all fun m => !((getEssentialPrimeImplicants
      (SimplifyDC.getPrimeImplicants minterms maxterms bits) minterms).1 ++ rest).any
        (·.intersects m)) = true := by
    simp only [all_eq_true, Bool.not_eq_true', any_eq_false, Bool.not_eq_true]
    intro m hm t ht
    rw [Term.intersects_comm]
    exact (hprime t (hsub ht)).2 m hm
  simp only [simplifyDC, hrest, Option.pure_def, Option.bind_eq_bind, Option.bind_some, guard_true,
    all_any_covers_iff.2 hcov, hmax]

end TaggedRiscv.DecodeLogic
