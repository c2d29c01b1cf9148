import Mathlib

/-!
# One-hot selectors

Encoders and multiplexers whose select input is a vector of bits, with what they
compute when the vector is one-hot.
-/

namespace Sync

variable {m k : ℕ}

/-- The lowest set index, or the last index if no bit is set. -/
def priorityEncoder (v : Fin m → Bool) : ℕ :=
  match (List.finRange m).find? v with
  | some i => i
  | none => m - 1

/-- The one-hot vector of an index. -/
def uintToOH (i : Fin m) : Fin m → Bool := fun j => decide (j = i)

/-- The index of a one-hot vector: the indices of the set bits or-ed together. -/
def ohToUInt (v : Fin m → Bool) : ℕ :=
  (List.finRange m).foldl (fun acc i => if v i then acc ||| i.val else acc) 0

/-- The selected inputs or-ed together. -/
def mux1H (sel : Fin m → Bool) (f : Fin m → BitVec k) : BitVec k :=
  (List.finRange m).foldl (fun acc i => if sel i then acc ||| f i else acc) 0#k

@[simp] theorem uintToOH_self (i : Fin m) : uintToOH i i := by simp [uintToOH]

theorem uintToOH_of_ne {i j : Fin m} (h : j ≠ i) : uintToOH i j = false := by simp [uintToOH, h]

variable {v : Fin m → Bool}

/-- If some bit is set, the encoder names one that is. -/
theorem priorityEncoder_spec (h : ∃ i, v i) : ∃ i, v i ∧ priorityEncoder v = i := by
  obtain ⟨i, hi⟩ := h
  unfold priorityEncoder
  cases hf : (List.finRange m).find? v with
  | none =>
    rw [List.find?_eq_none] at hf
    exact absurd hi (hf i (List.mem_finRange i))
  | some j => exact ⟨j, List.find?_some hf, rfl⟩

/-- No bit below the encoder's index is set. -/
theorem eq_false_of_lt_priorityEncoder {j : Fin m}
    (h : j.val < priorityEncoder v) : v j = false := by
  unfold priorityEncoder at h
  cases hf : (List.finRange m).find? v with
  | none =>
    rw [List.find?_eq_none] at hf
    simpa using hf j (List.mem_finRange j)
  | some i =>
    rw [hf] at h
    obtain ⟨-, k, hk, hi, hlow⟩ := List.find?_eq_some_iff_getElem.1 hf
    have hik : i.val = k := by rw [← hi, List.getElem_finRange]; rfl
    have hj := hlow j.val (hik ▸ h)
    simpa [List.getElem_finRange] using hj

/-- The encoder names the lowest set index. -/
theorem priorityEncoder_eq {k : Fin m} (hk : v k)
    (hlow : ∀ j < k, v j = false) : priorityEncoder v = k := by
  obtain ⟨i, hi, he⟩ := priorityEncoder_spec ⟨k, hk⟩
  have hge : ¬ i < k := fun hlt => by simp [hlow i hlt] at hi
  have hle : ¬ k < i := by
    intro hlt
    have hv : v k = false := eq_false_of_lt_priorityEncoder (he ▸ hlt)
    rw [hv] at hk
    exact absurd hk Bool.false_ne_true
  rw [he]
  omega

/-- The encoder keeps its index while that bit is set and no other one is new. -/
theorem priorityEncoder_congr {v v' : Fin m → Bool} {k : Fin m} (h : priorityEncoder v = k)
    (hk : v' k) (hold : ∀ j, v' j → v j) : priorityEncoder v' = k := by
  apply priorityEncoder_eq hk
  intro j hj
  have hv : v j = false := eq_false_of_lt_priorityEncoder (h ▸ hj)
  by_contra hv'
  simp [hold j (by simpa using hv')] at hv

/-- Asking the selected index is asking that one. -/
theorem any_finRange_select (k : Fin m) (f : Fin m → Bool) :
    ((List.finRange m).any fun j => k.val == j.val && f j) = f k := by
  rw [Bool.eq_iff_iff, List.any_eq_true]
  constructor
  · rintro ⟨j, _, hj⟩
    rw [Bool.and_eq_true, beq_iff_eq] at hj
    rw [Fin.ext hj.1]
    exact hj.2
  · intro hk
    exact ⟨k, List.mem_finRange k, by simp [hk]⟩

/-- Once past the selected input the fold no longer changes. -/
theorem foldl_mux_of_notMem (i : Fin m) (f : Fin m → BitVec k) (l : List (Fin m)) (hi : i ∉ l)
    (acc : BitVec k) :
    l.foldl (fun acc j => if uintToOH i j then acc ||| f j else acc) acc = acc := by
  induction l generalizing acc with
  | nil => rfl
  | cons j l ih =>
    have hj : j ≠ i := fun h => hi (h ▸ List.mem_cons_self)
    rw [List.foldl_cons, uintToOH_of_ne hj]
    exact ih (fun h => hi (List.mem_cons_of_mem _ h)) acc

theorem foldl_mux_of_mem (i : Fin m) (f : Fin m → BitVec k) (l : List (Fin m)) (hl : l.Nodup)
    (hi : i ∈ l) : l.foldl (fun acc j => if uintToOH i j then acc ||| f j else acc) 0#k = f i := by
  induction l with
  | nil => simp at hi
  | cons j l ih =>
    rw [List.nodup_cons] at hl
    rw [List.foldl_cons]
    by_cases hj : j = i
    · subst hj
      rw [uintToOH_self, if_pos rfl, foldl_mux_of_notMem _ _ _ hl.1, BitVec.zero_or]
    · rw [uintToOH_of_ne hj]
      exact ih hl.2 (List.mem_of_ne_of_mem (Ne.symm hj) hi)

/-- A multiplexer whose selected inputs agree passes what they agree on. -/
theorem mux1H_eq_of_forall {sel : Fin m → Bool} {f : Fin m → BitVec k} {x : BitVec k}
    (hx : ∀ i, sel i → f i = x) (hsome : ∃ i, sel i) : mux1H sel f = x := by
  -- the fold is zero until the first selected input, and `x` from there on
  have hfold : ∀ (l : List (Fin m)) (acc : BitVec k), (acc = 0#k ∨ acc = x) →
      (acc = x ∨ ∃ i ∈ l, sel i) →
      l.foldl (fun acc i => if sel i then acc ||| f i else acc) acc = x := by
    intro l
    induction l with
    | nil =>
      intro acc _ h
      simpa using h
    | cons i l ih =>
      intro acc hacc h
      rw [List.foldl_cons]
      by_cases hi : sel i
      · have hor : acc ||| f i = x := by
          rw [hx i hi]
          rcases hacc with rfl | rfl <;> simp
        rw [if_pos hi, hor]
        exact ih x (.inr rfl) (.inl rfl)
      · rw [if_neg hi]
        refine ih acc hacc (h.imp_right ?_)
        rintro ⟨j, hj, hsel⟩
        rcases List.mem_cons.1 hj with rfl | hj
        · exact absurd hsel hi
        · exact ⟨j, hj, hsel⟩
  obtain ⟨i, hi⟩ := hsome
  exact hfold _ _ (.inl rfl) (.inr ⟨i, List.mem_finRange i, hi⟩)

/-- A multiplexer with a one-hot select passes the selected input. -/
theorem mux1H_uintToOH (i : Fin m) (f : Fin m → BitVec k) : mux1H (uintToOH i) f = f i :=
  foldl_mux_of_mem i f _ (List.nodup_finRange m) (List.mem_finRange i)

end Sync
