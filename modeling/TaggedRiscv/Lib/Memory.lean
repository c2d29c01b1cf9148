import Mathlib.Data.BitVec

/-!
# Flat byte memory

Memory as a function from addresses to bytes, with addresses that wrap around. A range of
addresses is a base and a length; it may go past the last address to the first.
-/

namespace Memory

variable {w : ℕ}

/-- A memory of bytes. -/
abbrev Mem (w : ℕ) := BitVec w → BitVec 8

/-- An address is one of the `n` addresses from `base` on. -/
def Within (base : BitVec w) (n : ℕ) (a : BitVec w) : Prop := (a - base).toNat < n
deriving Decidable

/-- The number of `n` bytes at an address, the low byte first. -/
def readLE (m : Mem w) (a : BitVec w) : ℕ → ℕ
  | 0 => 0
  | n + 1 => (m a).toNat + 256 * readLE m (a + 1) n

/-- The memory after `n` bytes are copied. All bytes are read before any is written. -/
def copy (m : Mem w) (dst src : BitVec w) (n : ℕ) : Mem w := fun a =>
  if Within dst n a then m (src + (a - dst)) else m a

/-- The memory after `n` bytes are set. -/
def fill (m : Mem w) (dst : BitVec w) (v : BitVec 8) (n : ℕ) : Mem w := fun a =>
  if Within dst n a then v else m a

theorem within_add {base : BitVec w} {i n : ℕ} (hi : i < n) :
    Within base n (base + BitVec.ofNat w i) := by
  rw [Within, BitVec.add_comm, BitVec.add_sub_cancel, BitVec.toNat_ofNat]
  exact (Nat.mod_le _ _).trans_lt hi

/-- A number depends on its bytes. -/
theorem readLE_congr {m m' : Mem w} {a : BitVec w} {n : ℕ}
    (h : ∀ i < n, m (a + BitVec.ofNat w i) = m' (a + BitVec.ofNat w i)) :
    readLE m a n = readLE m' a n := by
  induction n generalizing a with
  | zero => rfl
  | succ n ih =>
    have hfirst : m a = m' a := by simpa using h 0 (Nat.succ_pos n)
    have hrest : readLE m (a + 1) n = readLE m' (a + 1) n := by
      apply ih
      intro i hi
      have hnext : a + 1 + BitVec.ofNat w i = a + BitVec.ofNat w (i + 1) := by
        rw [BitVec.add_assoc, Nat.add_comm i 1, BitVec.ofNat_add]
        rfl
      rw [hnext]
      exact h (i + 1) (by omega)
    rw [readLE, readLE, hfirst, hrest]

/-! ## Frames -/

/-- Two memories agree on some addresses. -/
def AgreeOn (S : BitVec w → Prop) (m m' : Mem w) : Prop := ∀ a, S a → m a = m' a

variable {S : BitVec w → Prop} {m m' : Mem w} {dst src : BitVec w} {n : ℕ}

theorem AgreeOn.copy (h : AgreeOn S m m') (hS : ∀ a, Within dst n a → ¬ S a) :
    AgreeOn S (copy m dst src n) m' := by
  intro a ha
  rw [Memory.copy, if_neg fun hin => hS a hin ha]
  exact h a ha

theorem AgreeOn.fill (h : AgreeOn S m m') (v : BitVec 8) (hS : ∀ a, Within dst n a → ¬ S a) :
    AgreeOn S (fill m dst v n) m' := by
  intro a ha
  rw [Memory.fill, if_neg fun hin => hS a hin ha]
  exact h a ha

/-- A range that starts `n` addresses later. -/
theorem within_add_iff {base a n : BitVec w} {k : ℕ} (hk : k < 2 ^ w) (hn : n.toNat ≤ k) :
    Within (base + n) (k - n.toNat) a ↔ n.toNat ≤ (a - base).toNat ∧ (a - base).toNat < k := by
  rw [Within, sub_add_eq_sub_sub, BitVec.toNat_sub]
  have ho := (a - base).isLt
  by_cases hle : n.toNat ≤ (a - base).toNat
  · have hwrap : 2 ^ w - n.toNat + (a - base).toNat = (a - base).toNat - n.toNat + 2 ^ w := by
      omega
    rw [hwrap, Nat.add_mod_right, Nat.mod_eq_of_lt (by omega)]
    omega
  · rw [Nat.mod_eq_of_lt (by omega)]
    omega

/-- Bytes that are copied and then continued by a constant. -/
theorem fill_copy (v : BitVec 8) {n k : BitVec w} (hn : n.toNat ≤ k.toNat) (a : BitVec w) :
    fill (copy m dst src n.toNat) (dst + n) v (k - n).toNat a =
      if (a - dst).toNat < n.toNat then m (src + (a - dst))
      else if (a - dst).toNat < k.toNat then v else m a := by
  rw [fill, BitVec.toNat_sub_of_le (BitVec.le_def.2 hn), copy]
  by_cases hlow : (a - dst).toNat < n.toNat
  · rw [if_neg fun hin => by have := (within_add_iff k.isLt hn).1 hin; omega, if_pos hlow,
      if_pos (show Within dst n.toNat a from hlow)]
  · rw [if_neg hlow, if_neg (show ¬ Within dst n.toNat a from hlow)]
    refine if_congr ?_ rfl rfl
    rw [within_add_iff k.isLt hn]
    omega

end Memory
