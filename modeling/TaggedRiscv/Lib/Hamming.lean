import Mathlib

/-!
# Hamming codes

The positions of a code word are counted from 1. The positions that are powers of two hold check
bits, the others hold data. Check number `t` is the exclusive or of the bits at the positions whose
binary expansion has bit `t`.
-/

/-- The exclusive or of a list. -/
def xorR (l : List Bool) : Bool := l.foldr xor false

section XorR

variable {α : Type*} {l : List α}

@[simp] theorem xorR_nil : xorR [] = false := rfl

@[simp] theorem xorR_cons (b : Bool) (bs : List Bool) : xorR (b :: bs) = (b ^^ xorR bs) := rfl

theorem xorR_append (as bs : List Bool) : xorR (as ++ bs) = (xorR as ^^ xorR bs) := by
  induction as with
  | nil => simp
  | cons a as ih => simp [ih]

theorem xorR_map_xor (f g : α → Bool) :
    xorR (l.map fun a => f a ^^ g a) = (xorR (l.map f) ^^ xorR (l.map g)) := by
  induction l with
  | nil => rfl
  | cons a l ih =>
    simp only [List.map_cons, xorR_cons, ih]
    cases f a <;> cases g a <;> simp

/-- Of the indicator of a value, the list counts the occurrence of the value. -/
theorem xorR_map_eq [DecidableEq α] (h : l.Nodup) (p : α) :
    xorR (l.map fun a => decide (p = a)) = decide (p ∈ l) := by
  induction l with
  | nil => rfl
  | cons a l ih =>
    obtain ⟨ha, hl⟩ := List.nodup_cons.1 h
    simp only [List.map_cons, xorR_cons, ih hl, List.mem_cons]
    by_cases hp : p = a
    · subst hp
      simp [ha]
    · simp [hp]

/-- One entry can be split off. -/
theorem xorR_map_filter_ne [DecidableEq α] (f : α → Bool) (h : l.Nodup) {p : α} (hp : p ∈ l) :
    xorR (l.map f) = (f p ^^ xorR ((l.filter fun a => decide (a ≠ p)).map f)) := by
  induction l with
  | nil => exact absurd hp List.not_mem_nil
  | cons a l ih =>
    obtain ⟨ha, hl⟩ := List.nodup_cons.1 h
    rcases List.mem_cons.1 hp with rfl | hmem
    · have hall : l.filter (fun a => decide (a ≠ p)) = l :=
        List.filter_eq_self.2 fun b hb => by
          have hne : b ≠ p := fun e => ha (e ▸ hb)
          simpa using hne
      rw [List.filter_cons_of_neg (by simp), hall, List.map_cons, xorR_cons]
    · have hne : a ≠ p := fun e => ha (e ▸ hmem)
      rw [List.filter_cons_of_pos (by simpa using hne), List.map_cons, List.map_cons, xorR_cons,
        xorR_cons, ih hl hmem]
      cases f a <;> cases f p <;> simp

end XorR

namespace Hamming

variable {n t p : ℕ} {y z : ℕ → Bool}

/-! ## Checks -/

/-- Check `t` of a word of length `n`. -/
def check (n t : ℕ) (y : ℕ → Bool) : Bool :=
  xorR (((List.range' 1 n).filter (·.testBit t)).map y)

theorem mem_positions {j : ℕ} : j ∈ List.range' 1 n ↔ 1 ≤ j ∧ j ≤ n := by
  rw [List.mem_range'_1]
  omega

theorem nodup_checked (n t : ℕ) : ((List.range' 1 n).filter (·.testBit t)).Nodup :=
  (List.nodup_range' 1).filter _

theorem check_congr (h : ∀ j, 1 ≤ j → j ≤ n → y j = z j) : check n t y = check n t z := by
  rw [check, check]
  congr 1
  apply List.map_congr_left
  intro j hj
  obtain ⟨hpos, hle⟩ := mem_positions.1 (List.mem_filter.1 hj).1
  exact h j hpos hle

theorem check_xor (n t : ℕ) (y z : ℕ → Bool) :
    check n t (fun j => y j ^^ z j) = (check n t y ^^ check n t z) :=
  xorR_map_xor y z

/-- The checks of a single bit are the digits of its position. Position 0 is no position, and
has no digits. -/
theorem check_single (t : ℕ) (hp : p ≤ n) : check n t (fun j => decide (p = j)) = p.testBit t := by
  rw [check, xorR_map_eq (nodup_checked n t), Bool.eq_iff_iff, decide_eq_true_iff,
    List.mem_filter, mem_positions]
  constructor
  · exact fun h => h.2
  · intro h
    have hpos : p ≠ 0 := by
      rintro rfl
      rw [Nat.zero_testBit] at h
      exact absurd h Bool.false_ne_true
    exact ⟨⟨Nat.one_le_iff_ne_zero.2 hpos, hp⟩, h⟩

/-- No position has a digit beyond the length of the word. -/
theorem check_eq_false (hn : n < 2 ^ t) (y : ℕ → Bool) : check n t y = false := by
  have hnil : (List.range' 1 n).filter (·.testBit t) = [] := by
    rw [List.filter_eq_nil_iff]
    intro j hj
    have hlt : j < 2 ^ t := (mem_positions.1 hj).2.trans_lt hn
    simp [Nat.testBit_lt_two_pow hlt]
  rw [check, hnil]
  rfl

/-- A word is a code word if every check bit is the exclusive or of the other bits of its
check. -/
theorem check_of_parity (hp : 2 ^ t ≤ n)
    (h : y (2 ^ t) = xorR (((List.range' 1 n).filter
      fun j => decide (j ≠ 2 ^ t) && j.testBit t).map y)) : check n t y = false := by
  have hmem : 2 ^ t ∈ (List.range' 1 n).filter (·.testBit t) := by
    rw [List.mem_filter, mem_positions]
    exact ⟨⟨Nat.one_le_two_pow, hp⟩, Nat.testBit_two_pow_self⟩
  rw [check, xorR_map_filter_ne y (nodup_checked n t) hmem, List.filter_filter, ← h]
  simp

/-! ## The positions of the data -/

/-- The positions that are not powers of two. -/
def dataPositions (n : ℕ) : List ℕ :=
  (List.range' 1 n).filter fun j => !decide j.isPowerOfTwo

theorem dataPositions_succ (n : ℕ) :
    dataPositions (n + 1) =
      dataPositions n ++ if (n + 1).isPowerOfTwo then [] else [n + 1] := by
  rw [dataPositions, dataPositions, List.range'_concat, List.filter_append]
  congr 1
  by_cases h : (n + 1).isPowerOfTwo
  · simp [h, Nat.add_comm 1 n]
  · simp [h, Nat.add_comm 1 n]

/-- Up to `n` there are as many powers of two as `n + 1` has binary digits before it. -/
theorem clog_succ_succ (n : ℕ) :
    Nat.clog 2 (n + 2) = Nat.clog 2 (n + 1) + if (n + 1).isPowerOfTwo then 1 else 0 := by
  split_ifs with h
  · obtain ⟨t, ht⟩ := h
    have hle : Nat.clog 2 (n + 2) ≤ t + 1 := by
      apply Nat.clog_le_of_le_pow
      have hpos : 0 < 2 ^ t := Nat.two_pow_pos t
      rw [Nat.pow_succ]
      omega
    have hlt : t < Nat.clog 2 (n + 2) := (Nat.lt_clog_iff_pow_lt Nat.one_lt_two).2 (by omega)
    rw [ht, Nat.clog_pow 2 t Nat.one_lt_two]
    omega
  · symm
    rw [Nat.add_zero, Nat.clog_eq_clog_succ_iff Nat.one_lt_two]
    intro heq
    exact h ⟨_, heq.symm⟩

theorem length_dataPositions (n : ℕ) : (dataPositions n).length + Nat.clog 2 (n + 1) = n := by
  induction n with
  | zero => rfl
  | succ n ih =>
    rw [dataPositions_succ, List.length_append, clog_succ_succ]
    split_ifs <;> simp only [List.length_nil, List.length_singleton] <;> omega

/-- The data positions up to `n` begin with those up to a smaller number. -/
theorem dataPositions_isPrefix {m : ℕ} (h : m ≤ n) : dataPositions m <+: dataPositions n := by
  induction h with
  | refl => exact List.prefix_refl _
  | step _ ih =>
    rw [dataPositions_succ]
    exact ih.trans (List.prefix_append _ _)

/-- The data position `j` comes after those that are smaller. -/
theorem getElem?_dataPositions {j : ℕ} (hj : ¬ j.isPowerOfTwo) (hpos : 1 ≤ j) (hjn : j ≤ n) :
    (dataPositions n)[j - 1 - Nat.clog 2 j]? = some j := by
  obtain ⟨j, rfl⟩ : ∃ i, j = i + 1 := ⟨j - 1, by omega⟩
  have hlen := length_dataPositions j
  have hidx : j + 1 - 1 - Nat.clog 2 (j + 1) = (dataPositions j).length := by omega
  have hat : (dataPositions (j + 1))[(dataPositions j).length]? = some (j + 1) := by
    rw [dataPositions_succ, if_neg hj, List.getElem?_append_right (Nat.le_refl _), Nat.sub_self]
    rfl
  rw [hidx]
  obtain ⟨rest, hrest⟩ := dataPositions_isPrefix hjn
  rw [← hrest, List.getElem?_append_left (List.getElem?_eq_some_iff.1 hat).1, hat]

end Hamming
