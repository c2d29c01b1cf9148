import Mathlib.Data.List.Basic
import Mathlib.Data.List.Flatten

/-!
# Messages of several beats

A channel carries messages one after another, each as a list of beats. A receiver sees the
beats one at a time; what it has seen is some whole messages and a proper part of the next.
-/

namespace Sync

variable {M β : Type*} (beats : M → List β)

/-- Of the messages `ms`, those in `done` have been read, and the beats `part` of the next. -/
structure ReadTo (ms : List M) (seen : List β) (done : List M) (part : List β) : Prop where
  seen_eq : seen = done.flatMap beats ++ part
  rest : (ms = done ∧ part = []) ∨
    ∃ m todo tail, ms = done ++ m :: todo ∧ tail ≠ [] ∧ beats m = part ++ tail

variable {beats} {ms : List M} {seen : List β} {done : List M} {part : List β}

/-- At the boundary between two messages nothing of the next one is read. -/
theorem readTo_boundary (hne : ∀ m, beats m ≠ []) (h : done <+: ms) :
    ReadTo beats ms (done.flatMap beats) done [] where
  seen_eq := (List.append_nil _).symm
  rest := by
    obtain ⟨todo, rfl⟩ := h
    cases todo with
    | nil => exact .inl ⟨List.append_nil _, rfl⟩
    | cons m todo => exact .inr ⟨m, todo, beats m, rfl, hne m, rfl⟩

namespace ReadTo

/-- The next beat of the channel is the next one of the message that is open, or the first
one of the next message. -/
theorem next_beat (h : ReadTo beats ms seen done part) {b : β}
    (hb : (ms.flatMap beats)[seen.length]? = some b) :
    ∃ m todo tail, ms = done ++ m :: todo ∧ beats m = part ++ b :: tail := by
  obtain ⟨rfl, rest⟩ := h
  rcases rest with ⟨rfl, rfl⟩ | ⟨m, todo, tail, rfl, hne, hm⟩
  · simp at hb
  · obtain ⟨b', tail, rfl⟩ := List.exists_cons_of_ne_nil hne
    -- The beats of the channel are those seen, then the rest of the open message.
    have hall : (done ++ m :: todo).flatMap beats =
        (done.flatMap beats ++ part) ++ b' :: (tail ++ todo.flatMap beats) := by
      simp [hm, List.append_assoc]
    rw [hall, List.getElem?_append_right (Nat.le_refl _), Nat.sub_self, List.getElem?_cons_zero,
      Option.some.injEq] at hb
    exact ⟨m, todo, tail, rfl, hb ▸ hm⟩

/-- A beat inside a message leaves it open. -/
theorem inside (h : ReadTo beats ms seen done part) {m : M} {todo : List M} {b : β}
    {tail : List β} (hms : ms = done ++ m :: todo) (hm : beats m = part ++ b :: tail)
    (htail : tail ≠ []) : ReadTo beats ms (seen ++ [b]) done (part ++ [b]) where
  seen_eq := by rw [h.seen_eq, List.append_assoc]
  rest := .inr ⟨m, todo, tail, hms, htail, by rw [hm, List.append_assoc, List.singleton_append]⟩

/-- The last beat of a message completes it. -/
theorem last (h : ReadTo beats ms seen done part) (hne : ∀ m, beats m ≠ []) {m : M}
    {todo : List M} {b : β} (hms : ms = done ++ m :: todo) (hm : beats m = part ++ [b]) :
    ReadTo beats ms (seen ++ [b]) (done ++ [m]) [] := by
  have hseen : seen ++ [b] = (done ++ [m]).flatMap beats := by
    rw [h.seen_eq, List.append_assoc, ← hm, List.flatMap_append, List.flatMap_singleton]
  rw [hseen]
  exact readTo_boundary hne ⟨todo, by rw [hms, List.append_assoc, List.singleton_append]⟩

end ReadTo

end Sync
