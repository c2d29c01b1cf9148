import Mathlib.Data.Nat.Bitwise
import Mathlib.Data.Nat.Digits.Defs

/-!
# Counting the bits of a number

The number of ones in the binary digits of a natural number, and what adding a power of two does
to it. A number with one bit more than another, from which it differs by a power of two, is that
other number with one more bit set.
-/

namespace BitCount

/-- The number of ones in the binary digits. -/
def bitCount (n : ℕ) : ℕ := (Nat.digits 2 n).sum

theorem bitCount_eq (n : ℕ) : bitCount n = n % 2 + bitCount (n / 2) := by
  rcases Nat.eq_zero_or_pos n with rfl | hn
  · rfl
  · rw [bitCount, Nat.digits_def' one_lt_two hn, List.sum_cons, bitCount]

theorem bitCount_le_of_lt {w n : ℕ} (h : n < 2 ^ w) : bitCount n ≤ w := by
  induction w generalizing n with
  | zero => rw [show n = 0 by omega]; exact le_rfl
  | succ w ih =>
    rw [bitCount_eq]
    have := ih (show n / 2 < 2 ^ w by omega)
    omega

theorem bitCount_succ_le (n : ℕ) : bitCount (n + 1) ≤ bitCount n + 1 := by
  -- an even number gets a bit; an odd one carries into the upper half
  induction n using Nat.strongRec with
  | _ n ih =>
    rw [bitCount_eq (n + 1), bitCount_eq n]
    rcases Nat.mod_two_eq_zero_or_one n with h | h
    · rw [show (n + 1) / 2 = n / 2 by omega]
      omega
    · have := ih (n / 2) (by omega)
      rw [show (n + 1) / 2 = n / 2 + 1 by omega]
      omega

/-- Adding a power of two adds at most one bit. -/
theorem bitCount_add_two_pow_le (n k : ℕ) : bitCount (n + 2 ^ k) ≤ bitCount n + 1 := by
  induction k generalizing n with
  | zero => exact bitCount_succ_le n
  | succ k ih =>
    have := ih (n / 2)
    rw [bitCount_eq (n + 2 ^ (k + 1)), bitCount_eq n, pow_succ,
      show (n + 2 ^ k * 2) / 2 = n / 2 + 2 ^ k by omega]
    omega

/-- Setting a bit that is not set adds one. -/
theorem bitCount_add_two_pow {n k : ℕ} (h : n.testBit k = false) :
    bitCount (n + 2 ^ k) = bitCount n + 1 := by
  induction k generalizing n with
  | zero =>
    have hn : n % 2 = 0 := by simpa [Nat.testBit_zero] using h
    rw [bitCount_eq (n + 2 ^ 0), bitCount_eq n, pow_zero, show (n + 1) / 2 = n / 2 by omega]
    omega
  | succ k ih =>
    rw [Nat.testBit_succ] at h
    rw [bitCount_eq (n + 2 ^ (k + 1)), bitCount_eq n, pow_succ,
      show (n + 2 ^ k * 2) / 2 = n / 2 + 2 ^ k by omega, ih h]
    omega

theorem testBit_add_two_pow {n k : ℕ} (h : n.testBit k = false) (j : ℕ) :
    (n + 2 ^ k).testBit j = (n.testBit j || decide (k = j)) := by
  have hor : n + 2 ^ k = n ||| 2 ^ k := by
    induction k generalizing n with
    | zero =>
      have hn : n % 2 = 0 := by simpa [Nat.testBit_zero] using h
      apply Nat.eq_of_testBit_eq
      intro i
      cases i with
      | zero => simp [Nat.testBit_zero, hn, Nat.add_mod]
      | succ i =>
        rw [Nat.testBit_or, pow_zero, Nat.testBit_succ, Nat.testBit_succ,
          show (n + 1) / 2 = n / 2 by omega, Nat.testBit_succ]
        simp
    | succ k ih =>
      rw [Nat.testBit_succ] at h
      have hhalf := ih h
      apply Nat.eq_of_testBit_eq
      intro i
      cases i with
      | zero => simp [Nat.testBit_zero, pow_succ]
      | succ i =>
        rw [Nat.testBit_or, Nat.testBit_succ, Nat.testBit_succ, Nat.testBit_succ,
          show (n + 2 ^ (k + 1)) / 2 = n / 2 + 2 ^ k by rw [pow_succ]; omega,
          show 2 ^ (k + 1) / 2 = 2 ^ k by rw [pow_succ]; omega, hhalf, Nat.testBit_or]
  rw [hor, Nat.testBit_or, Nat.testBit_two_pow]

/-- A larger number that has one bit more and differs by a power of two has one more bit set. -/
theorem exists_testBit_of_sub {a b : ℕ} (hlt : a < b) (hpow : (b - a) &&& (b - a - 1) = 0)
    (hcount : bitCount b = bitCount a + 1) : ∃ k, a.testBit k = false ∧ b = a + 2 ^ k := by
  obtain ⟨k, hk⟩ := (Nat.and_sub_one_eq_zero_iff_isPowerOfTwo (by omega)).1 hpow
  refine ⟨k, ?_, by omega⟩
  by_contra hset
  rw [Bool.not_eq_false] at hset
  -- a carry out of bit `k`: the number without that bit plus the next power of two
  have hle : 2 ^ k ≤ a := Nat.ge_two_pow_of_testBit hset
  have hclear : (a - 2 ^ k).testBit k = false := by
    have := Nat.testBit_two_pow_add_eq (a - 2 ^ k) k
    rw [Nat.add_sub_cancel' hle, hset] at this
    simpa using this
  have hb : b = a - 2 ^ k + 2 ^ (k + 1) := by
    rw [pow_succ]
    omega
  have h1 := bitCount_add_two_pow_le (a - 2 ^ k) (k + 1)
  have h2 := bitCount_add_two_pow hclear
  rw [Nat.sub_add_cancel hle] at h2
  rw [← hb] at h1
  omega

end BitCount
