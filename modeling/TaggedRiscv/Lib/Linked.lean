import Mathlib.Data.List.Basic

/-!
# Linked lists

Nodes that point to the next node. A pointer stands for a list when following the links from it
visits the nodes of the list and ends at the null pointer. The links are a function, so that two
lists may share one link field.
-/

variable {P : Type*} {null : P} {next next' : P → P} {p q x y : P} {a b l : List P}

/-- Following the links from `p` visits the nodes of the list and arrives at `q`. -/
def Segment (null : P) (next : P → P) : P → List P → P → Prop
  | p, [], q => p = q
  | p, x :: l, q => p = x ∧ x ≠ null ∧ Segment null next (next x) l q

/-- Following the links from `p` visits the nodes of the list and ends. -/
def Linked (null : P) (next : P → P) (p : P) (l : List P) : Prop := Segment null next p l null

theorem segment_append :
    Segment null next p (a ++ b) q ↔ ∃ r, Segment null next p a r ∧ Segment null next r b q := by
  induction a generalizing p with
  | nil => simp [Segment]
  | cons x a ih => simp [Segment, ih, and_assoc]

theorem Segment.congr (h : Segment null next p l q) (heq : ∀ x ∈ l, next' x = next x) :
    Segment null next' p l q := by
  induction l generalizing p with
  | nil => exact h
  | cons x l ih =>
    obtain ⟨hp, hx, hl⟩ := h
    refine ⟨hp, hx, ?_⟩
    rw [heq x (by simp)]
    exact ih hl fun y hy => heq y (by simp [hy])

theorem Segment.null_notMem (h : Segment null next p l q) : null ∉ l := by
  induction l generalizing p with
  | nil => simp
  | cons x l ih =>
    obtain ⟨-, hx, hl⟩ := h
    simp only [List.mem_cons, not_or]
    exact ⟨hx.symm, ih hl⟩

theorem linked_cons_iff :
    Linked null next p (x :: l) ↔ p = x ∧ x ≠ null ∧ Linked null next (next x) l := Iff.rfl

/-- A list depends on the links of its own nodes only. -/
theorem Linked.congr (h : Linked null next p l) (heq : ∀ x ∈ l, next' x = next x) :
    Linked null next' p l :=
  Segment.congr h heq

theorem Linked.null_notMem (h : Linked null next p l) : null ∉ l := Segment.null_notMem h

/-- A node added at the front. -/
theorem Linked.cons (h : Linked null next p l) (hx : x ≠ null) (hl : ∀ y ∈ l, next' y = next y)
    (hp : next' x = p) : Linked null next' x (x :: l) := by
  refine ⟨rfl, hx, ?_⟩
  rw [hp]
  exact h.congr hl

/-- A node added after the last one. -/
theorem Linked.enqueue (h : Linked null next p (l ++ [y])) (hx : x ≠ null)
    (hl : ∀ z ∈ l, next' z = next z) (hy : next' y = x) (hn : next' x = null) :
    Linked null next' p (l ++ [y] ++ [x]) := by
  obtain ⟨r, hseg, hr, hny, -⟩ := segment_append.1 h
  rw [List.append_assoc]
  refine segment_append.2 ⟨r, hseg.congr hl, hr, hny, ?_⟩
  exact ⟨hy, hx, hn⟩

/-- A node taken out from behind another one. -/
theorem Linked.unlink (h : Linked null next p (a ++ y :: x :: b))
    (hab : ∀ z ∈ a ++ b, next' z = next z) (hy : next' y = next x) :
    Linked null next' p (a ++ y :: b) := by
  obtain ⟨r, hseg, hr, hny, -, -, hb⟩ := segment_append.1 h
  refine segment_append.2 ⟨r, hseg.congr fun z hz => hab z (by simp [hz]), hr, hny, ?_⟩
  rw [hy]
  exact Segment.congr hb fun z hz => hab z (by simp [hz])
