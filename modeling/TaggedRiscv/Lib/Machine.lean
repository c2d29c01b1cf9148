import Mathlib.Data.List.Basic
import Mathlib.Data.Fin.Basic

/-!
# Synchronous machines

A machine reads one input per clock edge. What the environment may offer in a state is part of the
machine (`ok`), so that a run is a list of inputs each of which was allowed when it was offered.
-/

namespace Sync

/-- A synchronous machine with states `σ` and inputs `ι`. -/
structure Machine (σ ι : Type*) where
  /-- What the environment may offer in a state. -/
  ok : σ → ι → Prop
  /-- The state after the clock edge. -/
  next : σ → ι → σ

namespace Machine

variable {σ ι γ : Type*} (m : Machine σ ι)

/-- The state reached on a list of inputs. -/
def run : σ → List ι → σ
  | s, [] => s
  | s, i :: is => run (m.next s i) is

/-- Every input of the list was allowed when it was offered. -/
def Legal : σ → List ι → Prop
  | _, [] => True
  | s, i :: is => m.ok s i ∧ Legal (m.next s i) is

@[simp] theorem run_nil (s : σ) : m.run s [] = s := rfl

@[simp] theorem run_cons (s : σ) (i : ι) (is : List ι) :
    m.run s (i :: is) = m.run (m.next s i) is := rfl

@[simp] theorem legal_nil (s : σ) : m.Legal s [] := trivial

@[simp] theorem legal_cons (s : σ) (i : ι) (is : List ι) :
    m.Legal s (i :: is) ↔ m.ok s i ∧ m.Legal (m.next s i) is := Iff.rfl

instance decidableLegal [∀ s i, Decidable (m.ok s i)] :
    (s : σ) → (is : List ι) → Decidable (m.Legal s is)
  | _, [] => .isTrue trivial
  | s, i :: is =>
    have := decidableLegal (m.next s i) is
    inferInstanceAs (Decidable (m.ok s i ∧ m.Legal (m.next s i) is))

theorem run_append (s : σ) (is js : List ι) : m.run s (is ++ js) = m.run (m.run s is) js := by
  induction is generalizing s with
  | nil => rfl
  | cons i is ih => exact ih (m.next s i)

theorem legal_append (s : σ) (is js : List ι) :
    m.Legal s (is ++ js) ↔ m.Legal s is ∧ m.Legal (m.run s is) js := by
  induction is generalizing s with
  | nil => simp
  | cons i is ih => simp [ih, and_assoc]

variable {is : List ι}

/-- The beginning of an allowed list is allowed. -/
theorem legal_take {s : σ} (h : m.Legal s is) (k : ℕ) : m.Legal s (is.take k) := by
  rw [← List.take_append_drop k is, legal_append] at h
  exact h.1

theorem legal_of_forall_ok (h : ∀ s i, m.ok s i) (s : σ) (is : List ι) : m.Legal s is := by
  induction is generalizing s with
  | nil => exact trivial
  | cons i is ih => exact ⟨h s i, ih _⟩

variable {m} {P : σ → Prop}

/-- A property kept by every allowed step is kept by every legal run. -/
theorem invariant_run (hstep : ∀ s i, P s → m.ok s i → P (m.next s i))
    {s : σ} (hs : P s) (hl : m.Legal s is) : P (m.run s is) := by
  induction is generalizing s with
  | nil => exact hs
  | cons i is ih => exact ih (hstep s i hs hl.1) hl.2

/-! ## Restricted environments -/

/-- The machine whose environment also keeps to `c`. -/
def restrict (m : Machine σ ι) (c : σ → ι → Prop) : Machine σ ι where
  ok s i := m.ok s i ∧ c s i
  next := m.next

@[simp] theorem run_restrict (c : σ → ι → Prop) (s : σ) (is : List ι) :
    (m.restrict c).run s is = m.run s is := by
  induction is generalizing s with
  | nil => rfl
  | cons i is ih => exact ih (m.next s i)

/-- An environment that keeps to a condition on the inputs alone keeps to it in every cycle. -/
theorem legal_restrict_iff {c : ι → Prop} {s : σ} :
    (m.restrict fun _ i => c i).Legal s is ↔ m.Legal s is ∧ ∀ i ∈ is, c i := by
  induction is generalizing s with
  | nil => simp
  | cons i is ih =>
    change (m.ok s i ∧ c i) ∧ (m.restrict fun _ i => c i).Legal (m.next s i) is ↔ _
    rw [ih, legal_cons, List.forall_mem_cons]
    tauto

instance decidableRestrict [∀ s i, Decidable (m.ok s i)] (c : σ → ι → Prop)
    [∀ s i, Decidable (c s i)] (s : σ) (i : ι) : Decidable ((m.restrict c).ok s i) :=
  inferInstanceAs (Decidable (m.ok s i ∧ c s i))

/-- A run that breaks the restriction breaks it in some cycle. What holds after such a cycle,
and is kept, holds at the end; `Q` is an invariant of all runs that helps. -/
theorem invariant_of_not_restrict {c : σ → ι → Prop} {Q : σ → Prop}
    (hinv : ∀ s i, Q s → m.ok s i → Q (m.next s i))
    (hbreak : ∀ s i, Q s → m.ok s i → ¬ c s i → P (m.next s i))
    (hstep : ∀ s i, P s → m.ok s i → P (m.next s i)) {s : σ} (hs : Q s)
    (hl : m.Legal s is) (h : ¬ (m.restrict c).Legal s is) : P (m.run s is) := by
  induction is generalizing s with
  | nil => exact absurd trivial h
  | cons i is ih =>
    by_cases hc : c s i
    · exact ih (hinv s i hs hl.1) hl.2 fun hrest => h ⟨⟨hl.1, hc⟩, hrest⟩
    · exact invariant_run (s := m.next s i) hstep (hbreak s i hs hl.1 hc) hl.2

/-! ## History variables -/

/-- The machine with an auxiliary variable updated by `f` in every step. -/
def withHistory (m : Machine σ ι) (f : γ → σ → ι → γ) : Machine (σ × γ) ι where
  ok s i := m.ok s.1 i
  next s i := (m.next s.1 i, f s.2 s.1 i)

/-- The value of a history variable after a list of inputs. -/
def history (m : Machine σ ι) (f : γ → σ → ι → γ) : σ → γ → List ι → γ
  | _, g, [] => g
  | s, g, i :: is => history m f (m.next s i) (f g s i) is

theorem run_withHistory (f : γ → σ → ι → γ) (s : σ) (g : γ) (is : List ι) :
    (m.withHistory f).run (s, g) is = (m.run s is, m.history f s g is) := by
  induction is generalizing s g with
  | nil => rfl
  | cons i is ih => exact ih (m.next s i) (f g s i)

theorem legal_withHistory (f : γ → σ → ι → γ) (s : σ) (g : γ) (is : List ι) :
    (m.withHistory f).Legal (s, g) is ↔ m.Legal s is := by
  induction is generalizing s g with
  | nil => rfl
  | cons i is ih => exact and_congr_right fun _ => ih (m.next s i) (f g s i)

/-- A property of state and history kept by every allowed step is kept by every
legal run. -/
theorem invariant_history {Q : σ → γ → Prop} (f : γ → σ → ι → γ)
    (hstep : ∀ s g i, Q s g → m.ok s i → Q (m.next s i) (f g s i)) {s : σ} {g : γ} (hs : Q s g)
    (hl : m.Legal s is) : Q (m.run s is) (m.history f s g is) := by
  have h := invariant_run (m := m.withHistory f) (P := fun x => Q x.1 x.2)
    (fun x i hx hi => hstep x.1 x.2 i hx hi) (s := (s, g)) hs
    ((legal_withHistory f s g is).2 hl)
  simpa [run_withHistory] using h

end Machine

end Sync
