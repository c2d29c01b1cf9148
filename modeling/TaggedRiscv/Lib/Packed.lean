import Mathlib

/-!
# Packed vectors of words

A vector of `n` words of `w` bits as one word of `n * w` bits, element 0 in the
low bits. Packing and unpacking are inverse, and a vector of vectors unpacks the
same way in one step and in two.
-/

namespace Packed

open BitVec

variable {m n w : ℕ}

/-- Element `i` of a packed vector. -/
def fromBits (x : BitVec (n * w)) (i : Fin n) : BitVec w := x.extractLsb' (i * w) w

theorem index_lt (i : Fin n) {k : ℕ} (hk : k < w) : i * w + k < n * w :=
  calc i * w + k < i * w + w := by omega
    _ = (i + 1) * w := by rw [Nat.add_mul, Nat.one_mul]
    _ ≤ n * w := Nat.mul_le_mul_right w i.isLt

/-- The packed vector with the given elements. -/
def toBits (f : Fin n → BitVec w) : BitVec (n * w) :=
  BitVec.ofFnLE fun j =>
    (f ⟨j / w, Nat.div_lt_of_lt_mul (Nat.mul_comm n w ▸ j.isLt)⟩).getLsbD (j % w)

theorem getLsbD_fromBits (x : BitVec (n * w)) (i : Fin n) {k : ℕ} (hk : k < w) :
    (fromBits x i).getLsbD k = x.getLsbD (i * w + k) := by
  simp [fromBits, hk]

theorem getLsbD_toBits (f : Fin n → BitVec w) (i : Fin n) {k : ℕ} (hk : k < w) :
    (toBits f).getLsbD (i * w + k) = (f i).getLsbD k := by
  have hdiv : (i * w + k) / w = i := by
    rw [Nat.mul_comm, Nat.mul_add_div (by omega), Nat.div_eq_of_lt hk, Nat.add_zero]
  have hmod : (i * w + k) % w = k := by rw [Nat.mul_comm, Nat.mul_add_mod, Nat.mod_eq_of_lt hk]
  simp [toBits, index_lt i hk, hdiv, hmod]

@[simp] theorem fromBits_toBits (f : Fin n → BitVec w) : fromBits (toBits f) = f := by
  funext i
  apply eq_of_getLsbD_eq
  intro k hk
  rw [getLsbD_fromBits _ _ hk, getLsbD_toBits _ _ hk]

/-- Two packed vectors with the same elements are equal. -/
theorem ext_fromBits {x y : BitVec (n * w)} (h : ∀ i, fromBits x i = fromBits y i) : x = y := by
  apply eq_of_getLsbD_eq
  intro j hj
  have hw : 0 < w := Nat.pos_of_mul_pos_left (by omega : 0 < n * w)
  have hi : j / w < n := Nat.div_lt_of_lt_mul (Nat.mul_comm n w ▸ hj)
  have hk : j % w < w := Nat.mod_lt j hw
  have hj' : (⟨j / w, hi⟩ : Fin n) * w + j % w = j := by
    rw [Nat.mul_comm]
    exact Nat.div_add_mod j w
  rw [← hj', ← getLsbD_fromBits x ⟨j / w, hi⟩ hk, ← getLsbD_fromBits y ⟨j / w, hi⟩ hk, h]

@[simp] theorem toBits_fromBits (x : BitVec (n * w)) : toBits (fromBits x) = x :=
  ext_fromBits fun i => by rw [fromBits_toBits]

/-! ## Two levels -/

/-- The words of a vector of `m` groups, counted in one level. -/
def flatten (x : BitVec (m * (n * w))) : BitVec (m * n * w) := x.cast (Nat.mul_assoc m n w).symm

/-- The words of a vector, counted in `m` groups of `n`. -/
def group (x : BitVec (m * n * w)) : BitVec (m * (n * w)) := x.cast (Nat.mul_assoc m n w)

@[simp] theorem flatten_group (x : BitVec (m * n * w)) : flatten (group x) = x := rfl

@[simp] theorem group_flatten (x : BitVec (m * (n * w))) : group (flatten x) = x := rfl

/-- Word `k` of group `i` is word `k + n * i` of the whole vector. -/
theorem fromBits_group (x : BitVec (m * n * w)) (i : Fin m) (k : Fin n) :
    fromBits (fromBits (group x) i) k = fromBits x (finProdFinEquiv (i, k)) := by
  apply eq_of_getLsbD_eq
  intro j hj
  rw [getLsbD_fromBits _ _ hj, getLsbD_fromBits _ _ (index_lt k hj), getLsbD_fromBits _ _ hj]
  simp only [group, getLsbD_cast, finProdFinEquiv_apply_val]
  congr 1
  ring

theorem fromBits_flatten (x : BitVec (m * (n * w))) (i : Fin m) (k : Fin n) :
    fromBits (flatten x) (finProdFinEquiv (i, k)) = fromBits (fromBits x i) k :=
  (fromBits_group (flatten x) i k).symm

/-! ## Masks -/

theorem fromBits_and (x y : BitVec (n * w)) (i : Fin n) :
    fromBits (x &&& y) i = fromBits x i &&& fromBits y i := by
  apply eq_of_getLsbD_eq
  intro k hk
  simp only [getLsbD_fromBits, getLsbD_and, hk]

theorem fromBits_or (x y : BitVec (n * w)) (i : Fin n) :
    fromBits (x ||| y) i = fromBits x i ||| fromBits y i := by
  apply eq_of_getLsbD_eq
  intro k hk
  simp only [getLsbD_fromBits, getLsbD_or, hk]

theorem fromBits_xor (x y : BitVec (n * w)) (i : Fin n) :
    fromBits (x ^^^ y) i = fromBits x i ^^^ fromBits y i := by
  apply eq_of_getLsbD_eq
  intro k hk
  simp only [getLsbD_fromBits, getLsbD_xor, hk]

theorem fromBits_not (x : BitVec (n * w)) (i : Fin n) : fromBits (~~~x) i = ~~~fromBits x i := by
  apply eq_of_getLsbD_eq
  intro k hk
  simp only [getLsbD_fromBits, getLsbD_not, hk, index_lt i hk]

/-- Every bit of a mask repeated `w` times. -/
def fillInterleaved (w : ℕ) (m : BitVec n) : BitVec (n * w) :=
  toBits fun i => BitVec.fill w (m.getLsbD i)

@[simp] theorem fromBits_fillInterleaved (m : BitVec n) (i : Fin n) :
    fromBits (fillInterleaved w m) i = BitVec.fill w (m.getLsbD i) := by
  rw [fillInterleaved, fromBits_toBits]

theorem getLsbD_fillInterleaved (hw : 0 < w) (m : BitVec n) (p : ℕ) :
    (fillInterleaved w m).getLsbD p = m.getLsbD (p / w) := by
  by_cases hp : p < n * w
  · have hi : p / w < n := Nat.div_lt_of_lt_mul (Nat.mul_comm n w ▸ hp)
    have hp' : p = (⟨p / w, hi⟩ : Fin n) * w + p % w := by
      rw [Nat.mul_comm]
      exact (Nat.div_add_mod p w).symm
    have hk : p % w < w := Nat.mod_lt p hw
    rw [hp', fillInterleaved, getLsbD_toBits _ _ hk, ← hp']
    cases m.getLsbD (p / w) <;> simp [BitVec.fill, neg_one_eq_allOnes, hk]
  · have hi : n ≤ p / w := (Nat.le_div_iff_mul_le hw).2 (by omega)
    rw [BitVec.getLsbD_of_ge _ _ (by omega), BitVec.getLsbD_of_ge _ _ hi]

/-- The bits of `new` under a mask, and those of `old` elsewhere. -/
def merge (mask old new : BitVec w) : BitVec w := (old &&& ~~~mask) ||| (new &&& mask)

theorem and_or_not_and (mask old new : BitVec w) :
    (mask &&& new) ||| (~~~mask &&& old) = merge mask old new := by
  rw [merge, BitVec.or_comm, BitVec.and_comm (~~~mask), BitVec.and_comm mask]

theorem getLsbD_merge (mask old new : BitVec w) {k : ℕ} (hk : k < w) :
    (merge mask old new).getLsbD k = if mask.getLsbD k then new.getLsbD k else old.getLsbD k := by
  simp only [merge, BitVec.getLsbD_or, BitVec.getLsbD_and, BitVec.getLsbD_not, hk]
  cases mask.getLsbD k <;> simp

/-- Two masks select the same of two words when the words agree where the masks do not. -/
theorem merge_eq_merge_iff {mask mask' old new : BitVec w} :
    merge mask old new = merge mask' old new ↔
      ∀ k, mask.getLsbD k ≠ mask'.getLsbD k → old.getLsbD k = new.getLsbD k := by
  constructor
  · intro h k hne
    have hk : k < w := by
      by_contra hk
      rw [getLsbD_of_ge _ _ (by omega), getLsbD_of_ge _ _ (by omega)] at hne
      exact hne rfl
    have hbit := congrArg (·.getLsbD k) h
    simp only [getLsbD_merge _ _ _ hk] at hbit
    cases hm : mask.getLsbD k <;> cases hm' : mask'.getLsbD k <;> simp_all
  · intro h
    apply eq_of_getLsbD_eq
    intro k hk
    rw [getLsbD_merge _ _ _ hk, getLsbD_merge _ _ _ hk]
    have := h k
    cases hm : mask.getLsbD k <;> cases hm' : mask'.getLsbD k <;> simp_all

theorem merge_fill (b : Bool) (old new : BitVec w) :
    merge (BitVec.fill w b) old new = if b then new else old := by
  apply eq_of_getLsbD_eq
  intro k hk
  rw [getLsbD_merge _ _ _ hk]
  cases b <;> simp [BitVec.fill, neg_one_eq_allOnes, hk]

theorem fromBits_merge (mask old new : BitVec (n * w)) (i : Fin n) :
    fromBits (merge mask old new) i =
      merge (fromBits mask i) (fromBits old i) (fromBits new i) := by
  simp only [merge, fromBits_and, fromBits_or, fromBits_not]

end Packed
