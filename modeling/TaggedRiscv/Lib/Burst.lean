import Mathlib.Data.Fin.Basic
import Mathlib.Logic.Function.Basic

/-!
# Bursts

A buffer of `n + 1` entries filled in order by a wrapping counter. While the burst
is under way the entries below the counter hold the source; the last one makes the
buffer equal to it.
-/

namespace Burst

variable {n : ℕ} {α : Type*}

/-- The first `k` entries of the buffer are those of the source. -/
def Filled (k : Fin (n + 1)) (buf src : Fin (n + 1) → α) : Prop :=
  ∀ j < k, buf j = src j

variable {k : Fin (n + 1)} {buf src : Fin (n + 1) → α}

theorem filled_zero : Filled 0 buf src := fun j hj => absurd hj (Fin.not_lt_zero j)

/-- Writing the entry at the counter and counting fills one entry more. -/
theorem Filled.push (h : Filled k buf src) (hk : k ≠ Fin.last n) :
    Filled (k + 1) (Function.update buf k (src k)) src := by
  intro j hj
  by_cases hjk : j = k
  · subst hjk
    rw [Function.update_self]
  · rw [Function.update_of_ne hjk]
    apply h
    have hval : (k + 1).val = k.val + 1 := Fin.val_add_one_of_lt (Fin.lt_last_iff_ne_last.2 hk)
    have hne : j.val ≠ k.val := fun e => hjk (Fin.ext e)
    rw [Fin.lt_def] at hj ⊢
    omega

/-- Writing the last entry completes the buffer. -/
theorem Filled.last (h : Filled (Fin.last n) buf src) :
    Function.update buf (Fin.last n) (src (Fin.last n)) = src := by
  funext j
  by_cases hj : j = Fin.last n
  · subst hj
    rw [Function.update_self]
  · rw [Function.update_of_ne hj]
    exact h j (Fin.lt_last_iff_ne_last.2 hj)

end Burst
