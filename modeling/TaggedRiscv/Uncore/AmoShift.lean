import TaggedRiscv.L1.DataPath

/-!
# An atomic operation at the wrong offset

An atomic operation on a field that lies some bits below the one that is meant. It leaves the right
bits if it changes nothing below the field that is meant, does the same where the two fields
overlap, and nothing was to change above. Which operands do that depends on the operation.
-/

namespace TaggedRiscv

open BitVec

variable {n : ℕ} {x y x' y' : BitVec n} {δ : ℕ}

/-- Old and new bits of the part of each field that the other one does not cover. -/
def Unshared (δ : ℕ) (P : Bool → Bool → Prop) (x y x' y' : BitVec n) : Prop :=
  (∀ r < n, r < δ → P (x.getLsbD r) (y.getLsbD r)) ∧
    ∀ r < n, n ≤ r + δ → P (x'.getLsbD r) (y'.getLsbD r)

/-- A comparison keeps the old value in both fields, or takes the new one in both, which is then
the old one outside of the overlap. -/
def SameChoice (δ : ℕ) (keeps : BitVec n → BitVec n → Bool) (x y x' y' : BitVec n) : Prop :=
  (keeps x y = true ∧ keeps x' y' = true) ∨
    (keeps x y = false ∧ keeps x' y' = false ∧ Unshared δ (· = ·) x y x' y')

/-- The operands `x`, `y` of the lower field and `x'`, `y'` of the one that is meant, `δ` bits
above, for which an operation on the lower field does what is meant. -/
def AmoFits (cmd : MemCmd) (δ : ℕ) (x y x' y' : BitVec n) : Prop :=
  match cmd with
  | .XA_AND => Unshared δ (fun old new => old = true → new = true) x y x' y'
  | .XA_OR => Unshared δ (fun old new => new = true → old = true) x y x' y'
  | .XA_XOR => Unshared δ (fun _ new => new = false) x y x' y'
  | .XA_ADD => (∀ r < n, r < δ → y.getLsbD r = false) ∧
      ∀ r < n, n ≤ r + δ → y'.getLsbD r = carry (n - δ) x' y' false
  | .XA_MIN => SameChoice δ (fun old new => old.sle new) x y x' y'
  | .XA_MAX => SameChoice δ (fun old new => new.sle old) x y x' y'
  | .XA_MINU => SameChoice δ (fun old new => old.ule new) x y x' y'
  | .XA_MAXU => SameChoice δ (fun old new => new.ule old) x y x' y'
  | _ => Unshared δ (· = ·) x y x' y'

/-- The result `z` on the lower field leaves the bits that the result `z'` on the field that is
meant would leave. -/
structure SameBits (δ : ℕ) (x z x' z' : BitVec n) : Prop where
  below : ∀ r < n, r < δ → z.getLsbD r = x.getLsbD r
  overlap : ∀ r < n, δ ≤ r → z.getLsbD r = z'.getLsbD (r - δ)
  above : ∀ r < n, n ≤ r + δ → z'.getLsbD r = x'.getLsbD r

/-- Two words that differ from an old one in a field each, and the second one in some bits above its
field, are equal if the fields have the same bits and the bits above are the old ones. -/
theorem forall_eq_iff_sameBits {N p δ : ℕ} (row right : ℕ → Bool) {old new : ℕ → Bool}
    {T : ℕ → Prop} {x z x' z' : BitVec n} (hN : p + δ + n ≤ N)
    (hT : ∀ q, T q → p + δ + n ≤ q ∧ q < N) (hx : ∀ r < n, x.getLsbD r = old (p + r))
    (hx' : ∀ r < n, x'.getLsbD r = old (p + δ + r))
    (hrow : ∀ q < N, row q = if p ≤ q ∧ q < p + n then z.getLsbD (q - p) else old q)
    (hfield : ∀ r < n, right (p + δ + r) = z'.getLsbD r) (hnew : ∀ q, T q → right q = new q)
    (hold : ∀ q < N, ¬ (p + δ ≤ q ∧ q < p + δ + n) → ¬ T q → right q = old q) :
    (∀ q < N, row q = right q) ↔ (∀ q, T q → old q = new q) ∧ SameBits δ x z x' z' := by
  have hout {q : ℕ} (hq : q < N) (h : p + n ≤ q) : row q = old q := by
    rw [hrow q hq, if_neg (by omega)]
  have hin {r : ℕ} (hr : r < n) : row (p + r) = z.getLsbD r := by
    rw [hrow _ (by omega), if_pos (by omega), Nat.add_sub_cancel_left]
  have hlow {r : ℕ} (hr : r < n) (hlt : r < δ) : right (p + r) = x.getLsbD r := by
    rw [hold _ (by omega) (by omega) fun h => by have := hT _ h; omega, hx r hr]
  constructor
  · intro heq
    refine ⟨fun q hq => ?_, fun r hr hlt => ?_, fun r hr hge => ?_, fun r hr hge => ?_⟩
    · have hq' := hT q hq
      rw [← hnew q hq, ← heq q hq'.2, hout hq'.2 (by omega)]
    · rw [← hin hr, heq _ (by omega), hlow hr hlt]
    · rw [← hin hr, heq _ (by omega), ← hfield (r - δ) (by omega)]
      congr 1
      omega
    · rw [← hfield r hr, ← heq _ (by omega), hout (by omega) (by omega), hx' r hr]
  · rintro ⟨htag, hbits⟩ q hq
    by_cases hw : p ≤ q ∧ q < p + n
    · obtain ⟨r, rfl⟩ := Nat.exists_eq_add_of_le hw.1
      have hr : r < n := by omega
      rw [hin hr]
      rcases Nat.lt_or_ge r δ with hlt | hge
      · rw [hlow hr hlt, hbits.below r hr hlt]
      · rw [hbits.overlap r hr hge, ← hfield (r - δ) (by omega)]
        congr 1
        omega
    · rw [hrow q hq, if_neg hw]
      by_cases hf : p + δ ≤ q ∧ q < p + δ + n
      · obtain ⟨r, rfl⟩ := Nat.exists_eq_add_of_le hf.1
        rw [hfield r (by omega), hbits.above r (by omega) (by omega), hx' r (by omega)]
      · by_cases ht : T q
        · rw [htag q ht, hnew q ht]
        · rw [hold q hq hf ht]

variable (hx : ∀ r < n, δ ≤ r → x.getLsbD r = x'.getLsbD (r - δ))
  (hy : ∀ r < n, δ ≤ r → y.getLsbD r = y'.getLsbD (r - δ))

include hx hy

variable {op : BitVec n → BitVec n → BitVec n}

/-- An operation that works on every bit by itself. -/
theorem sameBits_bitwise {f : Bool → Bool → Bool} {P : Bool → Bool → Prop}
    (hop : ∀ u v r, r < n → (op u v).getLsbD r = f (u.getLsbD r) (v.getLsbD r))
    (hP : ∀ u v, f u v = u ↔ P u v) :
    SameBits δ x (op x y) x' (op x' y') ↔ Unshared δ P x y x' y' := by
  constructor
  · rintro ⟨hbelow, -, habove⟩
    exact ⟨fun r hr hlt => (hP _ _).1 ((hop x y r hr).symm.trans (hbelow r hr hlt)),
      fun r hr hge => (hP _ _).1 ((hop x' y' r hr).symm.trans (habove r hr hge))⟩
  · rintro ⟨hbelow, habove⟩
    refine ⟨fun r hr hlt => ?_, fun r hr hge => ?_, fun r hr hge => ?_⟩
    · rw [hop x y r hr, (hP _ _).2 (hbelow r hr hlt)]
    · rw [hop x y r hr, hop x' y' (r - δ) (by omega), hx r hr hge, hy r hr hge]
    · rw [hop x' y' r hr, (hP _ _).2 (habove r hr hge)]

/-- An operation that takes one of its operands, the old one if they are equal. -/
theorem sameBits_choice {keeps : BitVec n → BitVec n → Bool} (hkeeps : ∀ u, keeps u u)
    (hop : ∀ u v, op u v = if keeps u v then u else v) :
    SameBits δ x (op x y) x' (op x' y') ↔ SameChoice δ keeps x y x' y' := by
  have hne {u v : BitVec n} (hk : keeps u v = false) : u ≠ v := by
    rintro rfl
    simp [hkeeps] at hk
  rw [hop, hop, SameChoice]
  cases hk : keeps x y <;> cases hk' : keeps x' y'
  · simp only [Bool.false_eq_true, if_false, false_and, true_and, false_or]
    exact ⟨fun h => ⟨fun r hr hlt => (h.below r hr hlt).symm,
      fun r hr hge => (h.above r hr hge).symm⟩,
      fun h => ⟨fun r hr hlt => (h.1 r hr hlt).symm, hy, fun r hr hge => (h.2 r hr hge).symm⟩⟩
  · -- the new value of the lower field would be its old one
    simp only [Bool.false_eq_true, if_false, if_true, false_and, and_false, or_false,
      Bool.true_eq_false, iff_false]
    refine fun h => hne hk (BitVec.eq_of_getLsbD_eq fun r hr => ?_)
    rcases Nat.lt_or_ge r δ with hlt | hge
    · exact (h.below r hr hlt).symm
    · rw [h.overlap r hr hge, hx r hr hge]
  · -- the new value of the field that is meant would be its old one
    simp only [Bool.false_eq_true, if_false, if_true, false_and, and_false, or_false,
      Bool.true_eq_false, iff_false]
    refine fun h => hne hk' (BitVec.eq_of_getLsbD_eq fun r hr => ?_)
    rcases Nat.lt_or_ge (r + δ) n with hlt | hge
    · have hover := h.overlap (r + δ) hlt (Nat.le_add_left _ _)
      rwa [hx (r + δ) hlt (Nat.le_add_left _ _), Nat.add_sub_cancel] at hover
    · exact (h.above r hr hge).symm
  · simp only [if_true, true_and, Bool.true_eq_false, false_and, or_false, iff_true]
    exact ⟨fun _ _ _ => rfl, hx, fun _ _ _ => rfl⟩

omit hx hy in
/-- Over bits of the operand that are equal to the carry into them the carry stays what it is. -/
theorem carry_const {u v : BitVec n} {m k : ℕ} (hmk : m ≤ k)
    (h : ∀ r, m ≤ r → r < k → v.getLsbD r = carry m u v false) :
    carry k u v false = carry m u v false := by
  induction k, hmk using Nat.le_induction with
  | base => rfl
  | succ k hmk ih =>
    rw [carry_succ, h k hmk (Nat.lt_succ_self k),
      ih fun r hr hlt => h r hr (hlt.trans (Nat.lt_succ_self k))]
    cases u.getLsbD k <;> cases carry m u v false <;> rfl

omit hx hy in
/-- A sum leaves the bits from `m` to `k` if the operand there is the carry into them. -/
theorem add_leaves_iff {u v : BitVec n} {m k : ℕ} (hk : k ≤ n) :
    (∀ r, m ≤ r → r < k → (u + v).getLsbD r = u.getLsbD r) ↔
      ∀ r, m ≤ r → r < k → v.getLsbD r = carry m u v false := by
  have hbit {r : ℕ} (hr : r < k) :
      (u + v).getLsbD r = u.getLsbD r ↔ v.getLsbD r = carry r u v false := by
    rw [getLsbD_add (hr.trans_le hk)]
    cases u.getLsbD r <;> cases v.getLsbD r <;> cases carry r u v false <;> simp
  constructor
  · intro h r
    induction r using Nat.strong_induction_on with
    | _ r ih =>
      intro hm hr
      rw [(hbit hr).1 (h r hm hr)]
      exact carry_const hm fun r' hm' hr' => ih r' hr' hm' (hr'.trans hr)
  · intro h r hm hr
    rw [hbit hr, carry_const hm fun r' hm' hr' => h r' hm' (hr'.trans hr)]
    exact h r hm hr

/-- Above a part of the operand that is zero the sum is that of the higher field. -/
theorem sameBits_add : SameBits δ x (x + y) x' (x' + y') ↔ AmoFits .XA_ADD δ x y x' y' := by
  have hlow : (∀ r < n, r < δ → (x + y).getLsbD r = x.getLsbD r) ↔
      ∀ r < n, r < δ → y.getLsbD r = false := by
    have h := add_leaves_iff (u := x) (v := y) (m := 0) (k := min n δ) (Nat.min_le_left _ _)
    simpa only [Nat.zero_le, true_implies, lt_min_iff, and_imp, carry_zero] using h
  have hhigh : (∀ r < n, n ≤ r + δ → (x' + y').getLsbD r = x'.getLsbD r) ↔
      ∀ r < n, n ≤ r + δ → y'.getLsbD r = carry (n - δ) x' y' false := by
    have h := add_leaves_iff (u := x') (v := y') (m := n - δ) (k := n) le_rfl
    simp only [Nat.sub_le_iff_le_add] at h
    exact ⟨fun g r hr hge => h.1 (fun r hge hr => g r hr hge) r hge hr,
      fun g r hr hge => h.2 (fun r hge hr => g r hr hge) r hge hr⟩
  constructor
  · exact fun h => ⟨hlow.1 h.below, hhigh.1 h.above⟩
  · rintro ⟨hbelow, habove⟩
    refine ⟨hlow.2 hbelow, fun r hr hge => ?_, hhigh.2 habove⟩
    have hcarry : ∀ r, δ ≤ r → r < n → carry r x y false = carry (r - δ) x' y' false := by
      intro r hge
      induction r, hge using Nat.le_induction with
      | base =>
        intro hr
        rw [Nat.sub_self, carry_zero]
        refine (carry_const (Nat.zero_le δ) fun r _ hlt => ?_).trans carry_zero
        rw [hbelow r (hlt.trans hr) hlt, carry_zero]
      | succ r hge ih =>
        intro hr
        rw [carry_succ, ih (by omega), hx r (by omega) hge, hy r (by omega) hge,
          show r + 1 - δ = (r - δ) + 1 by omega, carry_succ]
    rw [getLsbD_add hr, getLsbD_add (show r - δ < n by omega), hcarry r hge hr, hx r hr hge,
      hy r hr hge]

/-- The operands for which an operation at the wrong offset leaves the right bits. -/
theorem sameBits_amoOp {cmd : MemCmd} (hc : cmd.isAMO) :
    SameBits δ x (amoOp cmd x y) x' (amoOp cmd x' y') ↔ AmoFits cmd δ x y x' y' := by
  cases cmd with
  | XA_ADD => exact sameBits_add hx hy
  | XA_AND =>
    rw [AmoFits]
    exact sameBits_bitwise hx hy (fun _ _ _ _ => getLsbD_and) (by decide)
  | XA_OR =>
    rw [AmoFits]
    exact sameBits_bitwise hx hy (fun _ _ _ _ => getLsbD_or) (by decide)
  | XA_XOR =>
    rw [AmoFits]
    exact sameBits_bitwise hx hy (fun _ _ _ _ => getLsbD_xor) (by decide)
  | XA_SWAP =>
    exact sameBits_bitwise hx hy (f := fun _ v => v) (fun _ _ _ _ => rfl) fun _ _ => eq_comm
  | XA_MIN =>
    rw [AmoFits]
    exact sameBits_choice hx hy (by simp [BitVec.sle])
      fun u v => by grind [amoOp, slt_iff_toInt_lt, sle_iff_toInt_le, toInt_inj]
  | XA_MAX =>
    rw [AmoFits]
    exact sameBits_choice hx hy (by simp [BitVec.sle])
      fun u v => by grind [amoOp, sle_eq_not_slt]
  | XA_MINU =>
    rw [AmoFits]
    exact sameBits_choice hx hy (by simp [BitVec.ule])
      fun u v => by grind [amoOp, ult_iff_lt, ule_iff_le]
  | XA_MAXU =>
    rw [AmoFits]
    exact sameBits_choice hx hy (by simp [BitVec.ule])
      fun u v => by grind [amoOp, ule_eq_not_ult]
  | _ => exact absurd hc (by decide)

end TaggedRiscv
