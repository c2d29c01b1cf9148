import Mathlib.Data.BitVec
import Mathlib.Data.Int.DivMod
import Mathlib.Algebra.Order.Ring.Int
import Mathlib.Tactic.Ring
import Mathlib.Tactic.LinearCombination
import Mathlib.Tactic.Positivity

/-!
# Sequential multiplication and division

The arithmetic behind a multiplier that consumes a few bits of one factor per step, and behind a
restoring divider that produces one bit of the quotient per step. Both keep what is left of the
operand and what there is of the result in one number: the operand leaves it on one side as the
result grows on the other.
-/

namespace SeqArith

/-! ## Shift and add -/

section Mul

variable {w u c : ℕ} {x y : ℤ}

/-- The low `u` bits of the number leave it, and their product with `y` is added at the top. -/
def mulStep (w u : ℕ) (y m : ℤ) : ℤ := m / 2 ^ u + m % 2 ^ u * y * 2 ^ (w - u)

/-- What the factor `x` has become after `c` of its bits. -/
def partialProduct (w : ℕ) (x y : ℤ) (c : ℕ) : ℤ := x / 2 ^ c + x % 2 ^ c * y * 2 ^ (w - c)

@[simp] theorem partialProduct_zero : partialProduct w x y 0 = x := by
  simp [partialProduct]

theorem mulStep_partialProduct (h : c + u ≤ w) :
    mulStep w u y (partialProduct w x y c) = partialProduct w x y (c + u) := by
  have hpow : (2 : ℤ) ^ (w - c) = 2 ^ (w - (c + u)) * 2 ^ u := by rw [← pow_add]; congr 1; omega
  have hshift : (2 : ℤ) ^ (w - u) = 2 ^ c * 2 ^ (w - (c + u)) := by rw [← pow_add]; congr 1; omega
  -- the low bits of the number are those of the factor that have not been consumed
  have hm : partialProduct w x y c =
      x / 2 ^ c + x % 2 ^ c * y * 2 ^ (w - (c + u)) * 2 ^ u := by
    rw [partialProduct, hpow]; ring
  have hdiv : x / 2 ^ (c + u) = x / 2 ^ c / 2 ^ u := by
    rw [pow_add, Int.ediv_ediv_of_nonneg (by positivity)]
  have hmod : x % 2 ^ (c + u) = x % 2 ^ c + 2 ^ c * (x / 2 ^ c % 2 ^ u) := by
    have hx := Int.emod_add_mul_ediv x (2 ^ c)
    have hq := Int.emod_add_mul_ediv (x / 2 ^ c) (2 ^ u)
    have hxq := Int.emod_add_mul_ediv x (2 ^ (c + u))
    rw [hdiv, pow_add] at hxq
    rw [pow_add]
    linear_combination hxq - hx - 2 ^ c * hq
  rw [mulStep, hm, Int.add_mul_ediv_right _ _ (by positivity), Int.add_mul_emod_self_right,
    partialProduct, hmod, hshift, hdiv]
  ring

/-- The bits not yet consumed are the low ones. -/
theorem partialProduct_emod (hx : 0 ≤ x) (hw : x < 2 ^ w) (hc : c ≤ w) :
    partialProduct w x y c % 2 ^ (w - c) = x / 2 ^ c := by
  rw [partialProduct, Int.add_mul_emod_self_right]
  refine Int.emod_eq_of_lt (Int.ediv_nonneg hx (by positivity)) ?_
  rw [Int.ediv_lt_iff_lt_mul (by positivity), ← pow_add, Nat.sub_add_cancel hc]
  exact hw

/-- With the factor consumed, the number is the product that has still to move down. -/
theorem partialProduct_of_lt (hx : 0 ≤ x) (hlt : x < 2 ^ c) :
    partialProduct w x y c = x * y * 2 ^ (w - c) := by
  rw [partialProduct, Int.ediv_eq_zero_of_lt hx hlt, Int.emod_eq_of_lt hx hlt, zero_add]

theorem partialProduct_width (hx : 0 ≤ x) (hlt : x < 2 ^ w) : partialProduct w x y w = x * y := by
  rw [partialProduct_of_lt hx hlt, Nat.sub_self, pow_zero, mul_one]

/-- A carry of the size of one factor fits into the product. -/
theorem mul_add_mem {q b c y a : ℤ} (hq : 0 ≤ q) (hqb : q + 1 ≤ b) (hy : -c ≤ y) (hyc : y < c)
    (ha : -c ≤ a) (hac : a < c) : -(b * c) ≤ q * y + a ∧ q * y + a < b * c := by
  have hc : 0 ≤ c := by omega
  have hlo : q * -c ≤ q * y := mul_le_mul_of_nonneg_left hy hq
  have hhi : q * y ≤ q * c := mul_le_mul_of_nonneg_left hyc.le hq
  have hb : (q + 1) * c ≤ b * c := mul_le_mul_of_nonneg_right hqb hc
  rw [mul_neg] at hlo
  rw [add_mul, one_mul] at hb
  omega

end Mul

/-! ## Shift and subtract -/

section Div

variable {w d n k : ℕ}

/-- The divisor is subtracted from the top of the number if it can be, which gives the next bit of
the quotient at the bottom. -/
def divStep (w d r : ℕ) : ℕ := if r / 2 ^ w < d then 2 * r else 2 * (r - d * 2 ^ w) + 1

/-- The quotient of `p` in `k` bits, all of them ones if there is no quotient. -/
def quotientBits (d k p : ℕ) : ℕ := if d = 0 then 2 ^ k - 1 else p / d

/-- What the dividend `n` has become after `k` steps: the remainder of its first bits, the bits not
yet looked at, and the quotient of the first bits. -/
def partialDivision (w d n k : ℕ) : ℕ :=
  n / 2 ^ (w + 1 - k) % d * 2 ^ (w + 1) + n % 2 ^ (w + 1 - k) * 2 ^ k +
    quotientBits d k (n / 2 ^ (w + 1 - k))

theorem quotientBits_lt {p : ℕ} (h : p < 2 ^ k) : quotientBits d k p < 2 ^ k := by
  unfold quotientBits
  split_ifs with hd
  · exact Nat.sub_lt (by positivity) one_pos
  · exact (Nat.div_le_self p d).trans_lt h

theorem partialDivision_zero (hn : n < 2 ^ w) : partialDivision w d n 0 = n := by
  have hlt : n < 2 ^ (w + 1) := hn.trans (Nat.pow_lt_pow_right one_lt_two w.lt_succ_self)
  simp [partialDivision, quotientBits, Nat.div_eq_of_lt hlt, Nat.mod_eq_of_lt hlt]

theorem partialDivision_lt (hn : n < 2 ^ w) (hk : k ≤ w + 1) :
    partialDivision w d n k < 2 ^ (2 * w + 1) := by
  have hpow : 2 ^ (w + 1 - k) * 2 ^ k = 2 ^ (w + 1) := by rw [← pow_add, Nat.sub_add_cancel hk]
  have hp : n / 2 ^ (w + 1 - k) < 2 ^ k := by
    rw [Nat.div_lt_iff_lt_mul (by positivity), mul_comm, hpow]
    exact hn.trans (Nat.pow_lt_pow_right one_lt_two w.lt_succ_self)
  have hrem : n / 2 ^ (w + 1 - k) % d + 1 ≤ 2 ^ w :=
    ((Nat.mod_le _ _).trans (Nat.div_le_self _ _)).trans_lt hn
  have hmod : n % 2 ^ (w + 1 - k) + 1 ≤ 2 ^ (w + 1 - k) := Nat.mod_lt _ (by positivity)
  have hq := quotientBits_lt (d := d) hp
  calc partialDivision w d n k
      < n / 2 ^ (w + 1 - k) % d * 2 ^ (w + 1) + (n % 2 ^ (w + 1 - k) + 1) * 2 ^ k := by
        rw [partialDivision, add_mul, one_mul, add_assoc]
        exact Nat.add_lt_add_left (Nat.add_lt_add_left hq _) _
    _ ≤ n / 2 ^ (w + 1 - k) % d * 2 ^ (w + 1) + 2 ^ (w + 1) :=
        Nat.add_le_add_left (hpow ▸ Nat.mul_le_mul_right _ hmod) _
    _ = (n / 2 ^ (w + 1 - k) % d + 1) * 2 ^ (w + 1) := (Nat.add_one_mul _ _).symm
    _ ≤ 2 ^ w * 2 ^ (w + 1) := Nat.mul_le_mul_right _ hrem
    _ = 2 ^ (2 * w + 1) := by rw [← pow_add]; congr 1; omega

theorem partialDivision_succ_width :
    partialDivision w d n (w + 1) = n % d * 2 ^ (w + 1) + quotientBits d (w + 1) n := by
  simp [partialDivision, Nat.mod_one]

theorem two_mul_add_eq (p d b : ℕ) : 2 * p + b = 2 * (p % d) + b + d * (2 * (p / d)) := by
  have h := Nat.mod_add_div p d
  rw [Nat.mul_left_comm]
  omega

/-- The remainder when one more bit of the dividend is looked at. -/
theorem mod_next_bit (p : ℕ) {b : ℕ} (hb : b ≤ 1) :
    (2 * p + b) % d = if 2 * (p % d) + b < d then 2 * (p % d) + b else 2 * (p % d) + b - d := by
  rw [two_mul_add_eq p d b, Nat.add_mul_mod_self_left]
  split_ifs with hlt
  · exact Nat.mod_eq_of_lt hlt
  · rw [Nat.mod_eq_sub_mod (by omega)]
    rcases Nat.eq_zero_or_pos d with rfl | hd
    · simp
    · have := Nat.mod_lt p hd
      exact Nat.mod_eq_of_lt (by omega)

/-- The quotient when one more bit of the dividend is looked at. -/
theorem quotientBits_next_bit (p : ℕ) {b : ℕ} (hb : b ≤ 1) :
    quotientBits d (k + 1) (2 * p + b) =
      2 * quotientBits d k p + if 2 * (p % d) + b < d then 0 else 1 := by
  unfold quotientBits
  split_ifs with hd hlt hlt
  · omega
  · have : 0 < 2 ^ k := by positivity
    rw [pow_succ]
    omega
  all_goals
    have hmod := Nat.mod_lt p (Nat.pos_of_ne_zero hd)
    rw [two_mul_add_eq p d b, Nat.add_mul_div_left _ _ (Nat.pos_of_ne_zero hd), add_comm]
  · rw [Nat.div_eq_of_lt hlt]
  · have hone : (2 * (p % d) + b) / d = 1 := Nat.div_eq_of_lt_le (by omega) (by omega)
    rw [hone]

/-- A step of the divider, with the next bit `b` of the dividend and the bits `l` after it. -/
theorem divStep_eq {p b l : ℕ} (hb : b ≤ 1) (hlow : l * 2 ^ k + quotientBits d k p < 2 ^ w) :
    divStep w d ((2 * (p % d) + b) * 2 ^ w + (l * 2 ^ k + quotientBits d k p)) =
      (2 * p + b) % d * 2 ^ (w + 1) + l * 2 ^ (k + 1) + quotientBits d (k + 1) (2 * p + b) := by
  rw [divStep, mul_comm, Nat.mul_add_div (by positivity), Nat.div_eq_of_lt hlow, add_zero,
    mod_next_bit p hb, quotientBits_next_bit p hb]
  split_ifs with hlt
  · ring
  · -- the divisor fits into the top of the number
    obtain ⟨r, hr⟩ : ∃ r, 2 * (p % d) + b = d + r := ⟨_, (Nat.add_sub_of_le (not_lt.mp hlt)).symm⟩
    have hsub : 2 ^ w * (d + r) + (l * 2 ^ k + quotientBits d k p) - d * 2 ^ w =
        2 ^ w * r + (l * 2 ^ k + quotientBits d k p) := by
      rw [mul_add, mul_comm d, add_assoc, Nat.add_sub_cancel_left]
    rw [hr, hsub, Nat.add_sub_cancel_left]
    ring

theorem divStep_partialDivision (hn : n < 2 ^ w) (hk : k ≤ w) :
    divStep w d (partialDivision w d n k) = partialDivision w d n (k + 1) := by
  obtain ⟨e, rfl⟩ := Nat.exists_eq_add_of_le' hk
  have hbit : n / 2 ^ e = 2 * (n / 2 ^ (e + 1)) + n / 2 ^ e % 2 := by
    rw [pow_succ, ← Nat.div_div_eq_div_mul]
    omega
  have hmod : n % 2 ^ (e + 1) = n / 2 ^ e % 2 * 2 ^ e + n % 2 ^ e := by
    rw [pow_succ, Nat.mod_mul]; ring
  have hp : n / 2 ^ (e + 1) < 2 ^ k := by
    rw [Nat.div_lt_iff_lt_mul (by positivity), ← pow_add]
    exact hn.trans_le (Nat.pow_le_pow_right two_pos (by omega))
  have hlow : n % 2 ^ e * 2 ^ k + quotientBits d k (n / 2 ^ (e + 1)) < 2 ^ (e + k) := by
    have hq := quotientBits_lt (d := d) hp
    have hl : n % 2 ^ e + 1 ≤ 2 ^ e := Nat.mod_lt _ (by positivity)
    calc n % 2 ^ e * 2 ^ k + quotientBits d k (n / 2 ^ (e + 1))
        < (n % 2 ^ e + 1) * 2 ^ k := by rw [add_mul, one_mul]; exact Nat.add_lt_add_left hq _
      _ ≤ 2 ^ (e + k) := pow_add 2 e k ▸ Nat.mul_le_mul_right _ hl
  have hstep := divStep_eq (d := d) (by omega : n / 2 ^ e % 2 ≤ 1) hlow
  rw [← hbit] at hstep
  rw [partialDivision, partialDivision, show e + k + 1 - k = e + 1 by omega,
    show e + k + 1 - (k + 1) = e by omega, ← hstep, hmod]
  congr 1
  ring

/-- While the first bits of the dividend are less than the divisor, the steps only shift. -/
theorem partialDivision_of_lt (hk : k ≤ w + 1) (hlt : n / 2 ^ (w + 1 - k) < d) :
    partialDivision w d n k = n * 2 ^ k := by
  have hpow : 2 ^ (w + 1) = 2 ^ (w + 1 - k) * 2 ^ k := by rw [← pow_add, Nat.sub_add_cancel hk]
  rw [partialDivision, quotientBits, if_neg (Nat.ne_zero_of_lt hlt), Nat.mod_eq_of_lt hlt,
    Nat.div_eq_of_lt hlt, hpow, add_zero, ← mul_assoc, ← add_mul, Nat.div_add_mod']

end Div

/-! ## Words -/

section Words

variable {v w n k : ℕ}

/-- A field of a word is the word, as a signed number, without the bits below. -/
theorem extractLsb'_eq_ofInt (x : BitVec w) (h : k + n ≤ w) :
    x.extractLsb' k n = BitVec.ofInt n (x.toInt / 2 ^ k) := by
  have hpow : (2 : ℤ) ^ w = 2 ^ (w - k) * 2 ^ k := by rw [← pow_add, Nat.sub_add_cancel (by omega)]
  have hdvd : (2 : ℤ) ^ n ∣ 2 ^ (w - k) := pow_dvd_pow 2 (by omega)
  -- the sign is far above the field
  have hmod : x.toInt / 2 ^ k % 2 ^ n = (x.toNat : ℤ) / 2 ^ k % 2 ^ n := by
    rw [BitVec.toInt_eq_toNat_cond]
    split_ifs with hx
    · rfl
    · rw [Nat.cast_pow, Nat.cast_ofNat, hpow, Int.sub_mul_ediv_right _ _ (by positivity),
        Int.sub_emod, Int.emod_eq_zero_of_dvd hdvd, sub_zero, Int.emod_emod]
  apply BitVec.eq_of_toNat_eq
  rw [BitVec.extractLsb'_toNat, BitVec.toNat_ofInt, Nat.shiftRight_eq_div_pow, Nat.cast_pow,
    Nat.cast_ofNat, hmod]
  norm_cast

theorem setWidth_ofInt (z : ℤ) (h : n ≤ w) : (BitVec.ofInt w z).setWidth n = BitVec.ofInt n z := by
  apply BitVec.eq_of_toNat_eq
  have hdvd : ((2 ^ n : ℕ) : ℤ) ∣ (2 ^ w : ℕ) := Int.natCast_dvd_natCast.mpr (pow_dvd_pow 2 h)
  rw [BitVec.toNat_setWidth, BitVec.toNat_ofInt, BitVec.toNat_ofInt, ← Int.emod_emod_of_dvd z hdvd,
    Int.toNat_emod (Int.emod_nonneg _ (by positivity)) (by positivity), Int.toNat_natCast]

theorem toInt_cast (h : v = w) (x : BitVec v) : (x.cast h).toInt = x.toInt := by
  subst h
  rfl

end Words

end SeqArith
