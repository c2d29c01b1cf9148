import TaggedRiscv.Lib.Machine

/-!
# Progress of a machine

A state leads to another kind of states when every allowed run from it comes to one, whatever the
environment chooses. The definition is the least one closed under a step.
-/

namespace Sync.Machine

variable {σ ι : Type*} (m : Machine σ ι)

/-- Every allowed run comes to a state of `Q`, and is in a state of `P` until then. -/
inductive Leads (P Q : σ → Prop) : σ → Prop
  | here {s : σ} (hQ : Q s) : Leads P Q s
  | step {s : σ} (hP : P s) (h : ∀ i, m.ok s i → Leads P Q (m.next s i)) : Leads P Q s

/-- The inputs of the first `n` cycles of a stream. -/
def firstInputs (f : ℕ → ι) (n : ℕ) : List ι := (List.range n).map f

variable {m} {P Q R : σ → Prop} {s : σ}

theorem Leads.trans (h : m.Leads P Q s) (hQR : ∀ t, Q t → m.Leads P R t) : m.Leads P R s := by
  induction h with
  | here hQ => exact hQR _ hQ
  | step hP _ ih => exact .step hP fun i hi => ih i hi

/-- A step that does not depend on what the environment chooses. -/
theorem Leads.step_eq {t : σ} (hP : P s) (hnext : ∀ i, m.ok s i → m.next s i = t)
    (h : m.Leads P Q t) : m.Leads P Q s :=
  .step hP fun i hi => hnext i hi ▸ h

theorem firstInputs_succ (f : ℕ → ι) (n : ℕ) :
    firstInputs f (n + 1) = f 0 :: firstInputs (fun k => f (k + 1)) n := by
  simp [firstInputs, List.range_succ_eq_map, Function.comp_def]

theorem run_firstInputs_succ (s : σ) (f : ℕ → ι) (n : ℕ) :
    m.run s (firstInputs f (n + 1)) =
      m.run (m.next s (f 0)) (firstInputs (fun k => f (k + 1)) n) := by
  rw [firstInputs_succ, run_cons]

/-- On an allowed stream of inputs there is a cycle in which a state of `Q` is reached, and the
states before it are of `P`. -/
theorem Leads.exists_run (h : m.Leads P Q s) (f : ℕ → ι)
    (hf : ∀ n, m.ok (m.run s (firstInputs f n)) (f n)) :
    ∃ n, Q (m.run s (firstInputs f n)) ∧ ∀ k < n, P (m.run s (firstInputs f k)) := by
  induction h generalizing f with
  | here hQ => exact ⟨0, hQ, fun k hk => absurd hk k.not_lt_zero⟩
  | @step s hP _ ih =>
    obtain ⟨n, hn, hbefore⟩ := ih (f 0) (hf 0) (fun k => f (k + 1)) fun n => by
      simpa [run_firstInputs_succ] using hf (n + 1)
    refine ⟨n + 1, by rwa [run_firstInputs_succ], fun k hk => ?_⟩
    cases k with
    | zero => exact hP
    | succ k =>
      rw [run_firstInputs_succ]
      exact hbefore k (Nat.lt_of_succ_lt_succ hk)

end Sync.Machine
