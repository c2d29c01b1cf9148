import Mathlib.Data.List.Basic
import Mathlib.Logic.Function.Basic
import Mathlib.Data.Nat.ModEq

/-!
# Rings of slots

A memory of `n` slots that is written round and round. What is held in it is a list that begins at a
slot and goes on from slot to slot, past the last one to the first. Positions are counted without
end and taken modulo `n` where a slot is meant.
-/

namespace Slots

variable {α : Type*} {n start : ℕ} {mem : ℕ → α} {l : List α} {x : α}

/-- Positions less than a round apart are different slots. -/
theorem add_mod_injective {i j : ℕ} (hi : i < n) (hj : j < n)
    (h : (start + i) % n = (start + j) % n) : i = j := by
  have hij : i ≡ j [MOD n] := Nat.ModEq.add_left_cancel' start h
  exact hij.eq_of_lt_of_lt hi hj

/-! ## Contents -/

/-- The slots from position `start` on hold a list. -/
structure Holds (n : ℕ) (mem : ℕ → α) (start : ℕ) (l : List α) : Prop where
  length_le : l.length ≤ n
  slot : ∀ (j : ℕ) (h : j < l.length), mem ((start + j) % n) = l[j]

theorem holds_nil : Holds n mem start [] :=
  ⟨n.zero_le, fun _ h => absurd h (Nat.not_lt_zero _)⟩

theorem Holds.head (h : Holds n mem start (x :: l)) : mem (start % n) = x :=
  h.slot 0 (Nat.succ_pos _)

theorem Holds.last (h : Holds n mem start (l ++ [x])) : mem ((start + l.length) % n) = x := by
  have hlast := h.slot l.length (by simp)
  simpa using hlast

/-- An item leaves at the front. -/
theorem Holds.tail (h : Holds n mem start (x :: l)) : Holds n mem (start + 1) l where
  length_le := (Nat.le_succ _).trans h.length_le
  slot j hj := by
    have hslot := h.slot (j + 1) (Nat.succ_lt_succ hj)
    rw [Nat.add_right_comm, Nat.add_assoc]
    exact hslot

/-- An item leaves at the end. -/
theorem Holds.dropLast (h : Holds n mem start (l ++ [x])) : Holds n mem start l where
  length_le := by
    have hle := h.length_le
    rw [List.length_append] at hle
    omega
  slot j hj := by rw [h.slot j (by simp; omega), List.getElem_append_left hj]

/-- An item comes in at the end. -/
theorem Holds.concat (h : Holds n mem start l) (hroom : l.length < n) (x : α) :
    Holds n (Function.update mem ((start + l.length) % n) x) start (l ++ [x]) where
  length_le := by simpa using Nat.succ_le_of_lt hroom
  slot j hj := by
    rw [List.length_append, List.length_singleton] at hj
    by_cases hlast : j = l.length
    · subst hlast
      simp
    · have hlt : j < l.length := by omega
      have hne : (start + j) % n ≠ (start + l.length) % n := fun heq =>
        hlast (add_mod_injective (hlt.trans hroom) hroom heq)
      rw [Function.update_of_ne hne, List.getElem_append_left hlt, h.slot j hlt]

/-! ## Occupied slots -/

/-- A slot is one of the `k` slots from position `start` on. -/
def Occupied (n start k slot : ℕ) : Prop := ∃ j < k, (start + j) % n = slot

variable {k slot : ℕ}

@[simp] theorem not_occupied_zero : ¬ Occupied n start 0 slot := by simp [Occupied]

/-- The slot behind those in use is free, unless all are in use. -/
theorem not_occupied_end (hk : k < n) : ¬ Occupied n start k ((start + k) % n) := by
  rintro ⟨j, hj, heq⟩
  exact hj.ne (add_mod_injective (hj.trans hk) hk heq)

/-- In a full ring the slot behind the last is the first. -/
theorem occupied_end (hn : 0 < n) : Occupied n start n ((start + n) % n) :=
  ⟨0, hn, by simp⟩

theorem occupied_start (hk : 0 < k) : Occupied n start k (start % n) := ⟨0, hk, rfl⟩

theorem occupied_succ :
    Occupied n start (k + 1) slot ↔ slot = (start + k) % n ∨ Occupied n start k slot := by
  constructor
  · rintro ⟨j, hj, rfl⟩
    obtain rfl | hlt := Nat.lt_succ_iff_lt_or_eq.1 hj |>.symm
    · exact .inl rfl
    · exact .inr ⟨j, hlt, rfl⟩
  · rintro (rfl | ⟨j, hj, rfl⟩)
    · exact ⟨k, k.lt_succ_self, rfl⟩
    · exact ⟨j, hj.trans k.lt_succ_self, rfl⟩

/-- What stays occupied when the first slot is given up. -/
theorem occupied_tail (hk : k < n) :
    Occupied n (start + 1) k slot ↔ slot ≠ start % n ∧ Occupied n start (k + 1) slot := by
  constructor
  · rintro ⟨j, hj, rfl⟩
    rw [Nat.add_right_comm, Nat.add_assoc]
    refine ⟨fun heq => ?_, j + 1, Nat.succ_lt_succ hj, rfl⟩
    exact absurd (add_mod_injective (by omega) (by omega) heq) (Nat.succ_ne_zero j)
  · rintro ⟨hne, j, hj, rfl⟩
    obtain _ | j := j
    · exact absurd rfl hne
    · refine ⟨j, Nat.lt_of_succ_lt_succ hj, ?_⟩
      rw [Nat.add_right_comm, Nat.add_assoc]

end Slots
