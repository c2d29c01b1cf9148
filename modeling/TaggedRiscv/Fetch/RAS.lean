import TaggedRiscv.Lib.Machine
import TaggedRiscv.Lib.Slots
import TaggedRiscv.Uncore.Ecc

/-!
# The return address stack (`RAS`)

The branch predictor keeps return addresses in `nras` registers that are written round and round: a
position points at the newest one, and a count says how many are good. A push beyond `nras`
overwrites the oldest address and leaves the count.
-/

namespace TaggedRiscv.Fetch

open Sync Ecc

/-- The registers of a stack of `nras` addresses. -/
structure RAS (nras : ℕ) (A : Type) where
  count : BitVec (log2Up (nras + 1))
  pos : BitVec (log2Up nras)
  stack : ℕ → A

namespace RAS

variable {nras : ℕ} {A : Type} (s : RAS nras A)

def nextPos : BitVec (log2Up nras) :=
  if isPow2 nras || decide (s.pos.toNat < nras - 1) then s.pos + 1 else 0

def prevPos : BitVec (log2Up nras) :=
  if isPow2 nras || decide (0 < s.pos.toNat) then s.pos - 1 else BitVec.ofNat _ (nras - 1)

def push (addr : A) : RAS nras A where
  count := if s.count.toNat < nras then s.count + 1 else s.count
  pos := s.nextPos
  stack := Function.update s.stack s.nextPos.toNat addr

def peek : A := s.stack s.pos.toNat

def isEmpty : Bool := s.count == 0

def pop : RAS nras A :=
  if s.isEmpty then s else { s with count := s.count - 1, pos := s.prevPos }

def clear : RAS nras A := { s with count := 0 }

inductive Op (A : Type)
  | push (addr : A)
  | pop
  | clear

def step : Op A → RAS nras A
  | .push addr => s.push addr
  | .pop => s.pop
  | .clear => s.clear

/-- The same on a list that has the newest address first and keeps only `nras`. -/
def Op.bounded (nras : ℕ) : Op A → List A → List A
  | .push addr, l => (addr :: l).take nras
  | .pop, l => l.tail
  | .clear, _ => []

/-- The registers with a reset value have it. -/
structure Reset : Prop where
  count : s.count = 0
  pos : s.pos = 0

variable (nras A) in
/-- The stack next to the list. -/
def machine : Machine (RAS nras A × List A) (Op A) where
  ok _ _ := True
  next x o := (x.1.step o, o.bounded nras x.2)

/-! ## The position -/

section Position

variable {s}

theorem log2Up_eq {n : ℕ} (hn : 2 ≤ n) : log2Up n = Nat.clog 2 n := if_neg (by omega)

/-- The registers can tell `n` values apart. -/
theorem le_two_pow_log2Up {n : ℕ} (hn : 2 ≤ n) : n ≤ 2 ^ log2Up n := by
  rw [log2Up_eq hn]
  exact Nat.le_pow_clog (by decide) n

theorem two_pow_log2Up {n : ℕ} (hn : 2 ≤ n) (hpow : isPow2 n) : 2 ^ log2Up n = n := by
  obtain ⟨k, rfl⟩ := isPow2_iff.1 hpow
  rw [log2Up_eq hn, Nat.clog_pow 2 k (by decide)]

theorem toNat_one (h : 2 ≤ nras) : (1 : BitVec (log2Up nras)).toNat = 1 := by
  have hle := le_two_pow_log2Up h
  change 1 % 2 ^ log2Up nras = 1
  exact Nat.mod_eq_of_lt (by omega)

theorem toNat_nextPos (hn : 2 ≤ nras) (hpos : s.pos.toNat < nras) :
    s.nextPos.toNat = (s.pos.toNat + 1) % nras := by
  have hle := le_two_pow_log2Up hn
  unfold nextPos
  split_ifs with hturn
  · rw [BitVec.toNat_add, toNat_one hn]
    rw [Bool.or_eq_true, decide_eq_true_eq] at hturn
    rcases hturn with hpow | hlt
    · rw [two_pow_log2Up hn hpow]
    · rw [Nat.mod_eq_of_lt (by omega), Nat.mod_eq_of_lt (by omega)]
  · have hlast : s.pos.toNat + 1 = nras := by
      simp only [Bool.or_eq_true, decide_eq_true_eq, not_or] at hturn
      omega
    rw [hlast, Nat.mod_self]
    simp

theorem toNat_prevPos (hn : 2 ≤ nras) (hpos : s.pos.toNat < nras) :
    s.prevPos.toNat = (s.pos.toNat + (nras - 1)) % nras := by
  have hle := le_two_pow_log2Up hn
  unfold prevPos
  split_ifs with hturn
  · rw [BitVec.toNat_sub, toNat_one hn, Nat.add_comm]
    rw [Bool.or_eq_true, decide_eq_true_eq] at hturn
    rcases hturn with hpow | hlt
    · rw [two_pow_log2Up hn hpow]
    · rw [show s.pos.toNat + (2 ^ log2Up nras - 1) = s.pos.toNat - 1 + 2 ^ log2Up nras by omega,
        show s.pos.toNat + (nras - 1) = s.pos.toNat - 1 + nras by omega, Nat.add_mod_right,
        Nat.add_mod_right, Nat.mod_eq_of_lt (by omega), Nat.mod_eq_of_lt (by omega)]
  · have hfirst : s.pos.toNat = 0 := by
      simp only [Bool.or_eq_true, decide_eq_true_eq, not_or] at hturn
      omega
    rw [hfirst, BitVec.toNat_ofNat, Nat.mod_eq_of_lt (by omega), Nat.zero_add,
      Nat.mod_eq_of_lt (by omega)]

end Position

/-! ## The simulation -/

/-- The registers hold a list: its oldest address is at slot `start`, its newest one at the
position. -/
structure Holds (s : RAS nras A) (start : ℕ) (l : List A) : Prop where
  slots : Slots.Holds nras s.stack start l.reverse
  count : s.count.toNat = l.length
  pos_lt : s.pos.toNat < nras
  pos_eq : (start + l.length) % nras = (s.pos.toNat + 1) % nras

def Simulates (s : RAS nras A) (l : List A) : Prop := ∃ start, s.Holds start l

variable {s} {l : List A} {start : ℕ}

theorem Reset.simulates (h : s.Reset) (hn : 2 ≤ nras) : s.Simulates [] := by
  have hpos : s.pos.toNat = 0 := by simp [h.pos]
  exact ⟨1, Slots.holds_nil, by simp [h.count], by omega, by rw [hpos]; rfl⟩

namespace Holds

theorem length_le (h : s.Holds start l) : l.length ≤ nras := by
  simpa using h.slots.length_le

theorem isEmpty_iff (h : s.Holds start l) : s.isEmpty ↔ l = [] := by
  rw [isEmpty, beq_iff_eq, ← List.length_eq_zero_iff, ← h.count]
  exact ⟨fun hz => by simp [hz], fun hz => BitVec.eq_of_toNat_eq (by simpa using hz)⟩

/-- The newest address is at the position. -/
theorem peek_eq {a : A} (h : s.Holds start (a :: l)) : s.peek = a := by
  have hlast := (List.reverse_cons ▸ h.slots).last
  have hpos : (start + l.length) % nras = s.pos.toNat := by
    have hmod : start + l.length ≡ s.pos.toNat [MOD nras] := Nat.ModEq.add_right_cancel' 1 h.pos_eq
    rw [hmod, Nat.mod_eq_of_lt h.pos_lt]
  rw [List.length_reverse, hpos] at hlast
  exact hlast

theorem clear (h : s.Holds start l) : s.clear.Holds (s.pos.toNat + 1) [] where
  slots := Slots.holds_nil
  count := by simp [RAS.clear]
  pos_lt := h.pos_lt
  pos_eq := rfl

theorem pop {a : A} (h : s.Holds start (a :: l)) (hn : 2 ≤ nras) : s.pop.Holds start l := by
  have hne : ¬ (s.isEmpty) := by simp [h.isEmpty_iff]
  have hcount := h.count
  rw [List.length_cons] at hcount
  rw [RAS.pop, if_neg hne]
  refine ⟨(List.reverse_cons ▸ h.slots).dropLast, ?_, ?_, ?_⟩
  · have hle := le_two_pow_log2Up (n := nras + 1) (by omega)
    have hlen := h.length_le
    rw [List.length_cons] at hlen
    have hone : (1 : BitVec (log2Up (nras + 1))).toNat = 1 := toNat_one (by omega)
    change (s.count - 1).toNat = l.length
    rw [BitVec.toNat_sub, hone, hcount,
      show 2 ^ log2Up (nras + 1) - 1 + (l.length + 1) = l.length + 2 ^ log2Up (nras + 1) by omega,
      Nat.add_mod_right, Nat.mod_eq_of_lt (by omega)]
  · change s.prevPos.toNat < nras
    rw [toNat_prevPos hn h.pos_lt]
    exact Nat.mod_lt _ (by omega)
  · change _ = (s.prevPos.toNat + 1) % nras
    rw [toNat_prevPos hn h.pos_lt, Nat.mod_add_mod, Nat.add_assoc, Nat.sub_add_cancel (by omega),
      Nat.add_mod_right]
    exact Nat.ModEq.add_right_cancel' 1 h.pos_eq

/-- A push goes to the slot behind the newest address. -/
theorem push_slot (h : s.Holds start l) (hn : 2 ≤ nras) :
    s.nextPos.toNat = (start + l.length) % nras := by
  rw [toNat_nextPos hn h.pos_lt, h.pos_eq]

theorem push (h : s.Holds start l) (hn : 2 ≤ nras) (hroom : l.length < nras) (a : A) :
    (s.push a).Holds start (a :: l) where
  slots := by
    have hroom' : l.reverse.length < nras := by simpa using hroom
    rw [RAS.push, h.push_slot hn, List.reverse_cons, ← List.length_reverse]
    exact h.slots.concat hroom' a
  count := by
    have hle := le_two_pow_log2Up (n := nras + 1) (by omega)
    have hone : (1 : BitVec (log2Up (nras + 1))).toNat = 1 := toNat_one (by omega)
    have hcount := h.count
    rw [RAS.push, if_pos (by omega), BitVec.toNat_add, hone, hcount, List.length_cons,
      Nat.mod_eq_of_lt (by omega)]
  pos_lt := by
    rw [RAS.push, h.push_slot hn]
    exact Nat.mod_lt _ (by omega)
  pos_eq := by rw [RAS.push, h.push_slot hn, Nat.mod_add_mod, List.length_cons, Nat.add_assoc]

/-- A push into a full stack goes to the slot of the oldest address. -/
theorem push_full (h : s.Holds start l) (hn : 2 ≤ nras) (hfull : l.length = nras) (a : A) :
    (s.push a).Holds (start + 1) (a :: l.dropLast) where
  slots := by
    obtain ⟨old, rest, hl⟩ := List.exists_cons_of_ne_nil
      (show l.reverse ≠ [] by simp [← List.length_eq_zero_iff]; omega)
    have hrest : l.dropLast.reverse = rest := by rw [← List.tail_reverse, hl, List.tail_cons]
    have hlen : rest.length + 1 = nras := by
      have hlen := congrArg List.length hl
      rw [List.length_reverse, List.length_cons, hfull] at hlen
      exact hlen.symm
    have hkept := (hl ▸ h.slots).tail
    have hnew := hkept.concat (by omega) a
    rw [RAS.push, h.push_slot hn, List.reverse_cons, hrest, hfull]
    rwa [show start + 1 + rest.length = start + nras by omega] at hnew
  count := by
    have hcount := h.count
    rw [RAS.push, if_neg (by omega), hcount, List.length_cons, List.length_dropLast]
    omega
  pos_lt := by
    rw [RAS.push, h.push_slot hn]
    exact Nat.mod_lt _ (by omega)
  pos_eq := by
    rw [RAS.push, h.push_slot hn, Nat.mod_add_mod, List.length_cons, List.length_dropLast,
      show start + 1 + (l.length - 1 + 1) = start + l.length + 1 by omega]

end Holds

/-- An operation does to the registers what it does to the list. -/
theorem Simulates.step (h : s.Simulates l) (hn : 2 ≤ nras) (o : Op A) :
    (s.step o).Simulates (o.bounded nras l) := by
  obtain ⟨start, h⟩ := h
  cases o with
  | push a =>
    rcases h.length_le.lt_or_eq with hroom | hfull
    · have hkept : (a :: l).take nras = a :: l := List.take_of_length_le (by simpa using hroom)
      exact ⟨start, by rw [Op.bounded, hkept]; exact h.push hn hroom a⟩
    · have hkept : (a :: l).take nras = a :: l.dropLast := by
        obtain ⟨m, rfl⟩ : ∃ m, nras = m + 1 := ⟨nras - 1, by omega⟩
        rw [List.take_succ_cons, List.dropLast_eq_take, hfull, Nat.add_sub_cancel]
      exact ⟨start + 1, by rw [Op.bounded, hkept]; exact h.push_full hn hfull a⟩
  | pop =>
    cases l with
    | nil =>
      have hempty : s.isEmpty := h.isEmpty_iff.2 rfl
      exact ⟨start, by simpa [step, pop, hempty, Op.bounded] using h⟩
    | cons a l => exact ⟨start, h.pop hn⟩
  | clear => exact ⟨_, h.clear⟩

/-- After every sequence of operations the stack is empty exactly when the list of the newest
`nras` addresses is, and shows its first address otherwise. -/
theorem ras_bounded_stack (hn : 2 ≤ nras) (s : RAS nras A) (hs : s.Reset) (ops : List (Op A)) :
    let x := (machine nras A).run (s, []) ops
    (x.1.isEmpty = true ↔ x.2 = []) ∧ ∀ a l, x.2 = a :: l → x.1.peek = a := by
  intro x
  obtain ⟨start, h⟩ : x.1.Simulates x.2 :=
    Machine.invariant_run (m := machine nras A) (P := fun y => y.1.Simulates y.2)
      (fun _ o hy _ => hy.step hn o) (hs.simulates hn)
      (Machine.legal_of_forall_ok _ (fun _ _ => trivial) _ ops)
  exact ⟨h.isEmpty_iff, fun a l hl => (hl ▸ h).peek_eq⟩

/-- Three slots, which is no power of two. -/
def threeReturns : RAS 3 (BitVec 39) := ⟨0, 0, fun _ => 0⟩

theorem ras_bounded_stack_overflow :
    let ops := [.push 1, .push 2, .push 3, .push 4, .pop, .push 5, .pop, .pop]
    ((machine 3 (BitVec 39)).run (threeReturns, []) ops).2 = [2] ∧
      ((machine 3 (BitVec 39)).run (threeReturns, []) ops).1.peek = 2 :=
  ⟨by decide +kernel, (ras_bounded_stack (by decide) threeReturns ⟨rfl, rfl⟩ _).2 2 []
    (by decide +kernel)⟩

end RAS

end TaggedRiscv.Fetch
