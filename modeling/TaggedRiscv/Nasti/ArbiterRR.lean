import TaggedRiscv.Nasti.Mux
import Mathlib.Data.Finset.Max
import Mathlib.Data.Fintype.Basic

/-!
# The round-robin arbiter (`arbiter_rr`)

The arbiter looks for the first request after the last grant in the request vector written twice in
a row. The source has two formulas for that search: a chain from position to position, and for
Verilator one that asks at every position about all positions before it. Both find the same
requester.
-/

namespace TaggedRiscv.Nasti

open Sync

namespace ArbiterRR

variable {n : ℕ} (a : ArbiterRR n) (req : Fin n → Bool)

/-! ## The formula for Verilator -/

/-- The requests, written twice in a row. -/
def reqExt (i : ℕ) : Bool := if h : i % n < n then req ⟨i % n, h⟩ else false

/-- The last grant, extended by zeros. -/
def pExt (i : ℕ) : Bool := if h : i < n then a.p ⟨i, h⟩ else false

/-- The last grant was before a position. -/
def pOr (i : ℕ) : Bool := (List.range i).any a.pExt

/-- The requests after the last grant. -/
def reqAnd (i : ℕ) : Bool := reqExt req i && a.pOr i

/-- The first request after the last grant, in two rounds. -/
def maskVerilator (i : ℕ) : Bool :=
  decide (i ≠ 0) && !(List.range i).any (a.reqAnd req) && a.reqAnd req i

/-- The requester that is granted, by the formula for Verilator. -/
def gntVerilator (enable : Bool) : Fin n → Bool := fun i =>
  enable && if a.locked req then a.p i
    else req i && (a.maskVerilator req i || a.maskVerilator req (i + n))

/-! ## One-hot vectors -/

/-- A vector with one bit set. -/
def OneHot (k : Fin n) (v : Fin n → Bool) : Prop := ∀ i, v i = true ↔ i = k

theorem any_iff {v : Fin n → Bool} : any v ↔ ∃ i, v i := by
  simp [any]

variable {a req} {k x y : Fin n} {enable : Bool}

theorem pExt_iff (hp : OneHot k a.p) (i : ℕ) : a.pExt i ↔ i = k := by
  unfold pExt
  split
  · next h => rw [hp, Fin.ext_iff]
  · next h => simp [show i ≠ k by omega]

/-- The last grant is wanted. -/
theorem any_and_iff (hp : OneHot k a.p) : (any fun i => a.p i && req i) = true ↔ req k := by
  rw [any_iff]
  constructor
  · rintro ⟨i, hi⟩
    rw [Bool.and_eq_true, hp] at hi
    rw [← hi.1]
    exact hi.2
  · intro hk
    exact ⟨k, by rw [Bool.and_eq_true]; exact ⟨(hp k).2 rfl, hk⟩⟩

theorem locked_iff (hp : OneHot k a.p) : a.locked req ↔ a.lock ∧ req k := by
  rw [locked, Bool.and_eq_true, any_and_iff hp]

/-! ## The search -/

theorem reqExt_fin (i : Fin n) : reqExt req i = req i := by
  simp [reqExt, Nat.mod_eq_of_lt i.isLt]

theorem reqExt_add (i : Fin n) : reqExt req (i + n) = req i := by
  simp [reqExt, Nat.mod_eq_of_lt i.isLt]

theorem mask_succ (i : ℕ) : a.mask req (i + 1) = (a.mask req i && !reqExt req i || a.pExt i) := rfl

/-- The chain is set from the last grant on, up to the first request. -/
theorem mask_iff (hp : OneHot k a.p) (i : ℕ) :
    a.mask req i ↔ k < i ∧ ∀ j : ℕ, k < j → j < i → reqExt req j = false := by
  induction i with
  | zero => simp [mask]
  | succ i ih =>
    rw [mask_succ, Bool.or_eq_true, Bool.and_eq_true, ih, pExt_iff hp, Bool.not_eq_true']
    constructor
    · rintro (⟨⟨hlt, hnone⟩, hi⟩ | rfl)
      · refine ⟨by omega, fun j hkj hji => ?_⟩
        rcases Nat.lt_succ_iff_lt_or_eq.1 hji with hji | rfl
        · exact hnone j hkj hji
        · exact hi
      · exact ⟨by omega, fun j hkj hji => by omega⟩
    · rintro ⟨hlt, hnone⟩
      rcases Nat.lt_succ_iff_lt_or_eq.1 hlt with hlt | heq
      · exact .inl ⟨⟨hlt, fun j hkj hji => hnone j hkj (by omega)⟩, hnone i hlt (by omega)⟩
      · exact .inr heq.symm

theorem reqAnd_iff (hp : OneHot k a.p) (i : ℕ) : a.reqAnd req i ↔ reqExt req i ∧ k < i := by
  rw [reqAnd, Bool.and_eq_true, pOr, List.any_eq_true]
  constructor
  · rintro ⟨hreq, j, hj, hpj⟩
    rw [pExt_iff hp] at hpj
    rw [List.mem_range] at hj
    exact ⟨hreq, by omega⟩
  · rintro ⟨hreq, hlt⟩
    exact ⟨hreq, k, List.mem_range.2 hlt, (pExt_iff hp k).2 rfl⟩

/-- The formula for Verilator is set at the first request only. -/
theorem maskVerilator_iff (hp : OneHot k a.p) (i : ℕ) :
    a.maskVerilator req i ↔ a.mask req i ∧ reqExt req i := by
  have hany : (List.range i).any (a.reqAnd req) = false ↔
      ∀ j : ℕ, k < j → j < i → reqExt req j = false := by
    rw [List.any_eq_false]
    constructor
    · intro h j hkj hji
      have := h j (List.mem_range.2 hji)
      rw [reqAnd_iff hp] at this
      exact Bool.eq_false_iff.2 fun hreq => this ⟨hreq, hkj⟩
    · intro h j hj hreq
      rw [reqAnd_iff hp] at hreq
      rw [h j hreq.2 (List.mem_range.1 hj)] at hreq
      exact absurd hreq.1 Bool.false_ne_true
  rw [maskVerilator, Bool.and_eq_true, Bool.and_eq_true, Bool.not_eq_true', hany, reqAnd_iff hp,
    mask_iff hp, decide_eq_true_eq]
  constructor
  · rintro ⟨⟨-, hnone⟩, hreq, hlt⟩
    exact ⟨⟨hlt, hnone⟩, hreq⟩
  · rintro ⟨⟨hlt, hnone⟩, hreq⟩
    exact ⟨⟨by omega, hnone⟩, hreq, hlt⟩

/-- The two formulas grant the same requester. -/
theorem gntVerilator_eq (hp : OneHot k a.p) (req : Fin n → Bool) (enable : Bool) :
    a.gntVerilator req enable = a.gnt req enable := by
  funext i
  unfold gntVerilator gnt
  congr 2
  rw [Bool.eq_iff_iff]
  simp only [Bool.and_eq_true, Bool.or_eq_true, maskVerilator_iff hp, reqExt_fin, reqExt_add]
  tauto

/-! ## Whose turn it is -/

/-- The position after the last grant at which the search comes to a requester. -/
def turn (k x : Fin n) : ℕ := if k < x then x else x + n

/-- The first requester found after the last grant, in cyclic order. -/
def First (req : Fin n → Bool) (k x : Fin n) : Prop :=
  req x = true ∧ ∀ y, req y = true → turn k x ≤ turn k y

theorem lt_turn (k x : Fin n) : k < turn k x := by
  have := k.isLt
  unfold turn
  split <;> omega

theorem turn_lt (k x : Fin n) : turn k x < k + n + 1 := by
  have := x.isLt
  unfold turn
  split
  · omega
  · next h =>
    rw [Fin.lt_def] at h
    omega

theorem turn_mod (k x : Fin n) : turn k x % n = x := by
  have := Nat.mod_eq_of_lt x.isLt
  unfold turn
  split <;> simp [this]

theorem turn_injective {k x y : Fin n} (h : turn k x = turn k y) : x = y := by
  rw [Fin.ext_iff, ← turn_mod k x, ← turn_mod k y, h]

theorem First.unique (hx : First req k x) (hy : First req k y) : x = y :=
  turn_injective (Nat.le_antisymm (hx.2 y hy.1) (hy.2 x hx.1))

theorem exists_first (k : Fin n) (h : ∃ x, req x) : ∃ x, First req k x := by
  obtain ⟨x₀, hx₀⟩ := h
  have hne : (Finset.univ.filter fun x => req x).Nonempty := ⟨x₀, by simp [hx₀]⟩
  obtain ⟨x, hx, hmin⟩ := Finset.exists_min_image _ (turn k) hne
  refine ⟨x, by simpa using hx, fun y hy => hmin y ?_⟩
  simpa using hy

/-- The requests before the turn of a requester, in the doubled vector. -/
theorem none_before_turn_iff (k x : Fin n) :
    (∀ j : ℕ, k < j → j < turn k x → reqExt req j = false) ↔
      ∀ y, req y → turn k x ≤ turn k y := by
  constructor
  · intro hnone y hy
    by_contra hlt
    have := hnone (turn k y) (lt_turn k y) (by omega)
    simp [reqExt, turn_mod, hy] at this
  · intro hmin j hkj hjx
    have hn : 0 < n := by have := k.isLt; omega
    by_contra hreq
    -- the position is the turn of the requester there
    have hj : j % n < n := Nat.mod_lt j hn
    have hturn : turn k ⟨j % n, hj⟩ = j := by
      have := turn_lt k x
      unfold turn
      by_cases hjn : j < n
      · simp [Fin.lt_def, Nat.mod_eq_of_lt hjn, hkj]
      · have hmod : j % n = j - n := by
          rw [Nat.mod_eq_sub_mod (by omega), Nat.mod_eq_of_lt (by omega)]
        simp only [Fin.lt_def, hmod]
        rw [if_neg (by omega)]
        omega
    have := hmin ⟨j % n, hj⟩ (by simpa [reqExt, hj] using hreq)
    omega

/-- A free arbiter grants the first requester after the last grant. -/
theorem gnt_iff_first (hp : OneHot k a.p) (hfree : a.locked req = false) (x : Fin n) :
    a.gnt req true x ↔ First req k x := by
  have hturn : (a.mask req x ∨ a.mask req (x + n) = true) ∧ req x ↔
      a.mask req (turn k x) ∧ req x := by
    rw [and_congr_left_iff]
    intro hreq
    unfold turn
    split
    · next hlt =>
      -- in the second round the request itself is in the way
      refine ⟨fun h => h.elim id fun h => ?_, .inl⟩
      have := ((mask_iff hp _).1 h).2 x hlt (by have := x.isLt; omega)
      rw [reqExt_fin, hreq] at this
      exact absurd this (by decide)
    · next hge =>
      refine ⟨fun h => h.elim (fun h => ?_) id, .inr⟩
      exact absurd ((mask_iff hp _).1 h).1 hge
  rw [gnt, hfree]
  simp only [Bool.true_and, Bool.false_eq_true, if_false, Bool.and_eq_true, Bool.or_eq_true]
  rw [and_comm, hturn, mask_iff hp, none_before_turn_iff, First]
  exact ⟨fun h => ⟨h.2, h.1.2⟩, fun h => ⟨⟨lt_turn k x, h.2⟩, h.1⟩⟩

theorem gnt_disabled (x : Fin n) : a.gnt req false x = false := by
  simp [gnt]

theorem gnt_locked (hlocked : a.locked req) : a.gnt req true = a.p := by
  funext x
  simp [gnt, hlocked]

/-- What is granted is nothing, or one requester. -/
theorem oneHot_gnt (hp : OneHot k a.p) (hx : a.gnt req enable x) :
    enable ∧ req x ∧ OneHot x (a.gnt req enable) := by
  cases enable with
  | false => simp [gnt_disabled] at hx
  | true =>
    refine ⟨rfl, ?_⟩
    cases hl : a.locked req with
    | true =>
      rw [gnt_locked hl] at hx ⊢
      obtain rfl := (hp x).1 hx
      exact ⟨((locked_iff hp).1 hl).2, hp⟩
    | false =>
      have hfirst := (gnt_iff_first hp hl x).1 hx
      refine ⟨hfirst.1, fun y => ?_⟩
      rw [gnt_iff_first hp hl]
      exact ⟨fun hy => hy.unique hfirst, fun h => h ▸ hfirst⟩

/-! ## The grant is held -/

/-- The arbiter keeps a grant as long as it is wanted. -/
structure Held (a : ArbiterRR n) (x : Fin n) : Prop where
  pointer : OneHot x a.p
  lock : a.lock

theorem Held.locked (h : a.Held x) (hx : req x) : a.locked req :=
  (locked_iff h.pointer).2 ⟨h.lock, hx⟩

theorem Held.gnt (h : a.Held x) (hx : req x) : OneHot x (a.gnt req true) := by
  rw [gnt_locked (h.locked hx)]
  exact h.pointer

/-- A locked arbiter does not change. -/
theorem next_locked (hlocked : a.locked req) : a.next req enable = a := by
  obtain ⟨hlock, hany⟩ := Bool.and_eq_true_iff.1 hlocked
  cases a
  simp_all [next]

theorem next_free (hfree : a.locked req = false) :
    a.next req enable =
      { p := if any (a.gnt req enable) then a.gnt req enable else a.p
        lock := any (a.gnt req enable) } := by
  have hcond : (!a.lock || !any fun i => a.p i && req i) = true := by
    rw [← Bool.not_and, Bool.not_eq_true']
    exact hfree
  simp [next, hfree, hcond]

theorem oneHot_next (hp : OneHot k a.p) : ∃ k', OneHot k' (a.next req enable).p := by
  cases hl : a.locked req with
  | true => exact ⟨k, by rwa [next_locked hl]⟩
  | false =>
    rw [next_free hl]
    split
    · next hany =>
      obtain ⟨x, hx⟩ := any_iff.1 hany
      exact ⟨x, (oneHot_gnt hp hx).2.2⟩
    · exact ⟨k, hp⟩

/-- A grant is held from the next cycle on. -/
theorem held_of_gnt (hp : OneHot k a.p) (hx : a.gnt req enable x) : (a.next req enable).Held x := by
  obtain ⟨rfl, -, hone⟩ := oneHot_gnt hp hx
  cases hl : a.locked req with
  | true =>
    rw [gnt_locked hl] at hx
    obtain rfl := (hp x).1 hx
    rw [next_locked hl]
    exact ⟨hp, ((locked_iff hp).1 hl).1⟩
  | false =>
    have hany : any (a.gnt req true) := any_iff.2 ⟨x, hx⟩
    rw [next_free hl, hany]
    exact ⟨hone, rfl⟩

/-- A held grant stays held in a cycle in which it is wanted. -/
theorem held_next (h : a.Held x) (hx : req x) : (a.next req enable).Held x := by
  rw [next_locked (h.locked hx)]
  exact h

/-- Whoever is granted before a requester brings the pointer closer to it. -/
theorem turn_sub_lt (h : turn k y < turn k x) : turn y x - y < turn k x - k := by
  have := x.isLt
  have := y.isLt
  simp only [turn, Fin.lt_def] at h ⊢
  split_ifs at h ⊢ <;> omega

/-- Counts the grants of an arbiter that is free. -/
def newGrants (c : ℕ) (a : ArbiterRR n) (i : (Fin n → Bool) × Bool) : ℕ :=
  c + (!a.locked i.1 && any (a.gnt i.1 i.2)).toNat

theorem newGrants_add_le (hp : OneHot k a.p) (hx : req x)
    (hno : a.gnt req enable x = false) (c : ℕ) :
    ∃ k', OneHot k' (a.next req enable).p ∧
      newGrants c a (req, enable) + (turn k' x - k') ≤ c + (turn k x - k) := by
  cases hl : a.locked req with
  | true => exact ⟨k, by rwa [next_locked hl], by simp [newGrants, hl]⟩
  | false =>
    rw [next_free hl]
    cases hany : any (a.gnt req enable) with
    | false => exact ⟨k, hp, by simp [newGrants, hl, hany]⟩
    | true =>
      obtain ⟨y, hy⟩ := any_iff.1 hany
      obtain ⟨rfl, -, hone⟩ := oneHot_gnt hp hy
      have hfirst := (gnt_iff_first hp hl y).1 hy
      -- the search comes to `y` first, and `y` is not `x`
      have hlt : turn k y < turn k x := lt_of_le_of_ne (hfirst.2 x hx) fun heq => by
        rw [turn_injective heq, hno] at hy
        exact Bool.false_ne_true hy
      refine ⟨y, hone, ?_⟩
      have := turn_sub_lt hlt
      simp only [newGrants, hl, hany, Bool.not_false, Bool.and_true, Bool.toNat_true]
      omega

end ArbiterRR

/-! ## Runs -/

open ArbiterRR

/-- The arbiter; an input is a request vector and the enable signal. -/
def arbiterMachine (n : ℕ) : Machine (ArbiterRR n) ((Fin n → Bool) × Bool) where
  ok _ _ := True
  next a i := a.next i.1 i.2

variable {n : ℕ}

theorem legal_arbiterMachine (a : ArbiterRR n) (is : List ((Fin n → Bool) × Bool)) :
    (arbiterMachine n).Legal a is :=
  Machine.legal_of_forall_ok _ (fun _ _ => trivial) a is

/-- The pointer of an arbiter is one-hot after reset and in every later cycle. -/
theorem oneHot_run (hn : 0 < n) (is : List ((Fin n → Bool) × Bool)) :
    ∃ k, OneHot k ((arbiterMachine n).run .reset is).p := by
  refine Machine.invariant_run (m := arbiterMachine n) (P := fun a => ∃ k, OneHot k a.p)
    (fun a i ⟨k, hk⟩ _ => oneHot_next hk) (s := .reset) ⟨⟨0, hn⟩, fun i => ?_⟩
    (legal_arbiterMachine _ is)
  simp [reset, Fin.ext_iff]

/-- A held grant stays held while it is wanted. -/
theorem held_run {x : Fin n} {a : ArbiterRR n} (h : a.Held x) (is : List ((Fin n → Bool) × Bool))
    (hwanted : ∀ i ∈ is, i.1 x) : ((arbiterMachine n).run a is).Held x := by
  induction is generalizing a with
  | nil => exact h
  | cons i is ih =>
    obtain ⟨hi, hwanted⟩ := List.forall_mem_cons.1 hwanted
    exact ih (held_next h hi) hwanted

/-- The arbiter in every cycle of every run: the pointer is one-hot; nothing or one requester is
granted; a free arbiter that is enabled grants the first requester after the pointer; a grant stays
while it is wanted; and both formulas for the search grant the same. -/
theorem arbiter_rr_stable (hn : 2 ≤ n) (is : List ((Fin n → Bool) × Bool)) :
    let a : ArbiterRR n := (arbiterMachine n).run .reset is
    ∃ k, OneHot k a.p ∧ ∀ req enable,
      ((∀ x, a.gnt req enable x = false) ∨ ∃ x, OneHot x (a.gnt req enable)) ∧
      (∀ x, a.gnt req enable x = true → req x = true) ∧
      (enable = true → a.locked req = false → (∃ x, req x = true) →
        ∃ x, First req k x ∧ OneHot x (a.gnt req enable)) ∧
      (∀ x, a.gnt req enable x = true → ∀ js : List ((Fin n → Bool) × Bool),
        (∀ j ∈ js, j.1 x = true) → ∀ req', req' x = true →
          OneHot x (((arbiterMachine n).run (a.next req enable) js).gnt req' true)) ∧
      a.gntVerilator req enable = a.gnt req enable := by
  intro a
  obtain ⟨k, hk⟩ := oneHot_run (by omega : 0 < n) is
  refine ⟨k, hk, fun req enable => ⟨?_, ?_, ?_, ?_, gntVerilator_eq hk req enable⟩⟩
  · by_cases hx : ∃ x, a.gnt req enable x = true
    · obtain ⟨x, hx⟩ := hx
      exact .inr ⟨x, (oneHot_gnt hk hx).2.2⟩
    · exact .inl fun x => Bool.eq_false_iff.2 fun h => hx ⟨x, h⟩
  · intro x hx
    exact (oneHot_gnt hk hx).2.1
  · rintro rfl hfree hreq
    obtain ⟨x, hx⟩ := exists_first k hreq
    exact ⟨x, hx, (oneHot_gnt hk ((gnt_iff_first hk hfree x).2 hx)).2.2⟩
  · intro x hx js hjs req' hreq'
    exact (held_run (held_of_gnt hk hx) js hjs).gnt hreq'

/-- After a grant to requester 1 of three, which it gives up, requester 2 comes before
requester 0. -/
theorem arbiter_rr_stable_three :
    OneHot 2 (((arbiterMachine 3).run .reset [(fun i => i == 1, true)]).gnt
      (fun i => i != 1) true) := by
  obtain ⟨k, -, h⟩ := arbiter_rr_stable (by decide : 2 ≤ 3) [(fun i => i == 1, true)]
  obtain ⟨x, -, hx⟩ := (h (fun i => i != 1) true).2.2.1 rfl (by decide) ⟨0, rfl⟩
  obtain rfl : 2 = x := (hx 2).1 (by decide)
  exact hx

/-- The arbiter while a requester keeps asking and is not granted. -/
def waitingMachine {n : ℕ} (x : Fin n) : Machine (ArbiterRR n) ((Fin n → Bool) × Bool) :=
  (arbiterMachine n).restrict fun a i => i.1 x = true ∧ a.gnt i.1 i.2 x = false

/-- Whatever the others do, a requester that keeps asking is passed over at most `n - 1` times. -/
theorem arbiter_rr_bounded_wait {x : Fin n} (is : List ((Fin n → Bool) × Bool))
    {js : List ((Fin n → Bool) × Bool)}
    (hl : (waitingMachine x).Legal ((arbiterMachine n).run .reset is) js) :
    (waitingMachine x).history newGrants ((arbiterMachine n).run .reset is) 0 js < n := by
  obtain ⟨k, hk⟩ := oneHot_run (Nat.zero_lt_of_lt x.isLt) is
  have hturn := turn_lt k x
  obtain ⟨k', -, h⟩ := Machine.invariant_history (m := waitingMachine x)
    (Q := fun a c => ∃ k, OneHot k a.p ∧ c + (turn k x - k) ≤ n) newGrants
    (fun a c i ⟨k, hk, hc⟩ hi => by
      obtain ⟨k', hk', h⟩ := newGrants_add_le hk hi.2.1 hi.2.2 c
      exact ⟨k', hk', h.trans hc⟩) (g := 0) ⟨k, hk, by omega⟩ hl
  have := lt_turn k' x
  omega

/-- Requester 0 of three waits while requesters 1 and 2 are granted. -/
theorem arbiter_rr_bounded_wait_three :
    (waitingMachine (0 : Fin 3)).history newGrants .reset 0
      [(fun i => i != 2, true), (fun i => i != 1, true)] = 2 ∧
    (waitingMachine (0 : Fin 3)).history newGrants .reset 0
      [(fun i => i != 2, true), (fun i => i != 1, true)] < 3 :=
  ⟨by decide, arbiter_rr_bounded_wait [] ⟨⟨trivial, by decide⟩, ⟨trivial, by decide⟩, trivial⟩⟩

end TaggedRiscv.Nasti
