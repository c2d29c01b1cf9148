import TaggedRiscv.Core.DecodeTerm
import Mathlib.Data.BitVec
import Mathlib.Data.List.Pairwise

/-!
# Decode logic from a truth table (`DecodeLogic`)

A truth table gives patterns for the instruction and for the output, with don't-cares on both sides,
and a default output. Each bit of the output is implemented on its own.

The bit of the default is computed as `(dterm.value.toInt >> i) & 1`, in 32-bit integers: from bit
32 on it is the bit 32 places below, or 64, and so on. Inputs that match a key are not affected,
since the keys to be covered are chosen accordingly, but all others get the wrong bit.
-/

namespace TaggedRiscv.DecodeLogic

/-! ## Patterns -/

/-- A pattern of bits; those of `mask` matter, and the others are 0 in `value`. -/
structure BitPat where
  width : ℕ
  value : ℕ
  mask : ℕ
  width_pos : 0 < width
  mask_lt : mask < 2 ^ width
  value_le : ∀ k, value.testBit k → mask.testBit k

namespace BitPat

/-- A bit of the pattern that does not matter. Beyond its width a pattern is 0. -/
def dontCare (p : BitPat) (i : ℕ) : Bool := decide (i < p.width) && !p.mask.testBit i

/-- A word of the width matches the pattern. -/
def Matches (p : BitPat) (x : ℕ) : Prop :=
  ∀ k < p.width, p.mask.testBit k = true → x.testBit k = p.value.testBit k

instance (p : BitPat) (x : ℕ) : Decidable (p.Matches x) :=
  inferInstanceAs (Decidable (∀ k < p.width, p.mask.testBit k = true → _))

/-- The pattern of a literal: all bits matter. -/
def literal (width value : ℕ) (hw : 0 < width) (hv : value < 2 ^ width) : BitPat where
  width := width
  value := value
  mask := 2 ^ width - 1
  width_pos := hw
  mask_lt := Nat.sub_lt (Nat.two_pow_pos width) one_pos
  value_le k hk := by
    rw [Nat.testBit_two_pow_sub_one, decide_eq_true_eq]
    by_contra hge
    rw [Nat.testBit_lt_two_pow
      (hv.trans_le (Nat.pow_le_pow_right two_pos (not_lt.1 hge)))] at hk
    exact Bool.false_ne_true hk

end BitPat

/-- The term of a pattern: the bits that do not matter are free. -/
def term (lit : BitPat) : Term := ⟨lit.value, 2 ^ lit.width - (lit.mask + 1)⟩

theorem testBit_mask_term (p : BitPat) (i : ℕ) : (term p).mask.testBit i = p.dontCare i :=
  Nat.testBit_two_pow_sub_succ p.mask_lt i

theorem BitPat.value_lt (p : BitPat) : p.value < 2 ^ p.width := by
  apply Nat.lt_pow_two_of_testBit
  intro k hk
  by_contra hset
  rw [Bool.not_eq_false] at hset
  have hpow : 2 ^ p.width ≤ 2 ^ k := Nat.pow_le_pow_right two_pos hk
  have hmask := p.value_le k hset
  rw [Nat.testBit_lt_two_pow (p.mask_lt.trans_le hpow)] at hmask
  exact Bool.false_ne_true hmask

theorem wf_term (p : BitPat) : (term p).Wf p.width := by
  refine ⟨p.value_lt, ?_, fun k hk => ?_⟩
  · have := Nat.two_pow_pos p.width
    change 2 ^ p.width - (p.mask + 1) < 2 ^ p.width
    omega
  · rw [testBit_mask_term] at hk
    by_contra hset
    rw [Bool.not_eq_false] at hset
    simp [BitPat.dontCare, p.value_le k hset] at hk

theorem contains_term_iff {p : BitPat} {x : ℕ} (hx : x < 2 ^ p.width) :
    (term p).Contains x ↔ p.Matches x := by
  constructor
  · intro h k hk hmask
    exact h k (by rw [testBit_mask_term]; simp [BitPat.dontCare, hmask])
  · intro h k hk
    rw [testBit_mask_term] at hk
    by_cases hlt : k < p.width
    · exact h k hlt (by simpa [BitPat.dontCare, hlt] using hk)
    · have hpow : 2 ^ p.width ≤ 2 ^ k := Nat.pow_le_pow_right two_pos (not_lt.1 hlt)
      change x.testBit k = p.value.testBit k
      rw [Nat.testBit_lt_two_pow (hx.trans_le hpow),
        Nat.testBit_lt_two_pow (p.value_lt.trans_le hpow)]

/-! ## The generator -/

/-- The logic of one bit of the output: a cover, and whether it is inverted. -/
structure BitLogic where
  cover : List Term
  inverted : Bool

/-- The sum of products of a cover. -/
def logic (addr addrWidth : ℕ) (terms : List Term) : Bool :=
  terms.foldl (fun acc t =>
    acc || ((if t.mask == 0 then addr else addr &&& (2 ^ addrWidth - (t.mask + 1))) == t.value))
    false

def BitLogic.eval (l : BitLogic) (addrWidth addr : ℕ) : Bool :=
  if l.inverted then !logic addr addrWidth l.cover else logic addr addrWidth l.cover

/-- `(value.toInt >> i) & 1`, in 32-bit integers, where the distance of a shift counts modulo
32. -/
def defbit (value i : ℕ) : Bool := ((BitVec.ofNat 32 value).sshiftRight (i % 32)).getLsbD 0

/-- The keys whose value has bit `i` as `sel` says. -/
def keysWhere (termvalues : List (Term × Term)) (sel : Term → Bool) : List Term :=
  (termvalues.filter fun x => sel x.2).map Prod.fst

/-- The keys whose value has a one, a zero, or no care at bit `i`. -/
def mint (termvalues : List (Term × Term)) (i : ℕ) : List Term :=
  keysWhere termvalues fun t => !t.mask.testBit i && t.value.testBit i

def maxt (termvalues : List (Term × Term)) (i : ℕ) : List Term :=
  keysWhere termvalues fun t => !t.mask.testBit i && !t.value.testBit i

def dc (termvalues : List (Term × Term)) (i : ℕ) : List Term :=
  keysWhere termvalues fun t => t.mask.testBit i

/-- The logic of bit `i`. -/
def bitLogic (default : BitPat) (termvalues : List (Term × Term)) (addrWidth i : ℕ) :
    Option BitLogic :=
  let dterm := term default
  if dterm.mask.testBit i then
    (simplifyDC (mint termvalues i) (maxt termvalues i) addrWidth).map (⟨·, false⟩)
  else if defbit dterm.value i then
    (simplify (maxt termvalues i) (dc termvalues i) addrWidth).map (⟨·, true⟩)
  else
    (simplify (mint termvalues i) (dc termvalues i) addrWidth).map (⟨·, false⟩)

def outWidth (default : BitPat) (mapping : List (BitPat × BitPat)) : ℕ :=
  max default.width ((mapping.map fun m => m.2.width).max?.getD 0)

/-- `DecodeLogic`: the logic of all bits, lowest first. -/
def decodeLogic (default : BitPat) (mapping : List (BitPat × BitPat)) : Option (List BitLogic) := do
  let addrWidth ← (mapping.map fun m => m.1.width).max?
  let terms := mapping.map fun m => term m.1
  let termvalues := terms.zip (mapping.map fun m => term m.2)
  guard (terms.Pairwise fun t u => t.intersects u = false)
  (List.range (outWidth default mapping)).mapM (bitLogic default termvalues addrWidth)

/-- A bit of the output of the logic. -/
def outputBit (out : List BitLogic) (addrWidth addr i : ℕ) : Bool :=
  out[i]?.any fun l => l.eval addrWidth addr

/-! ## What the logic computes -/

theorem logic_iff {terms : List Term} {addrWidth addr : ℕ} (hwf : ∀ t ∈ terms, t.Wf addrWidth)
    (haddr : addr < 2 ^ addrWidth) : logic addr addrWidth terms ↔ ∃ t ∈ terms, t.Contains addr := by
  have hterm : ∀ t ∈ terms, ((if t.mask == 0 then addr
      else addr &&& (2 ^ addrWidth - (t.mask + 1))) == t.value) = true ↔ t.Contains addr := by
    intro t ht
    have hmask : (if t.mask == 0 then addr else addr &&& (2 ^ addrWidth - (t.mask + 1))) =
        addr.ldiff t.mask := by
      apply Nat.eq_of_testBit_eq
      intro k
      have hlow : ¬ k < addrWidth → addr.testBit k = false := fun hk =>
        Nat.testBit_lt_two_pow (haddr.trans_le (Nat.pow_le_pow_right two_pos (not_lt.1 hk)))
      rw [Nat.testBit_ldiff]
      split
      case isTrue h =>
        rw [beq_iff_eq] at h
        simp [h]
      case isFalse =>
        rw [Nat.testBit_and, Nat.testBit_two_pow_sub_succ (hwf t ht).mask_lt]
        by_cases hk : k < addrWidth
        · simp [hk]
        · simp [hlow hk]
    rw [hmask, beq_iff_eq]
    constructor
    · intro h k hk
      have := congrArg (·.testBit k) h
      simpa [Nat.testBit_ldiff, hk] using this
    · intro h
      apply Nat.eq_of_testBit_eq
      intro k
      rw [Nat.testBit_ldiff]
      cases hk : t.mask.testBit k with
      | true => simp [(hwf t ht).disjoint k hk]
      | false => simp [h k hk]
  have hfold : ∀ (l : List Term) (b : Bool), (l.foldl (fun acc t => acc ||
      ((if t.mask == 0 then addr else addr &&& (2 ^ addrWidth - (t.mask + 1))) == t.value)) b) =
      (b || l.any fun t =>
        (if t.mask == 0 then addr else addr &&& (2 ^ addrWidth - (t.mask + 1))) == t.value) := by
    intro l
    induction l with
    | nil => simp
    | cons t l ih =>
      intro b
      rw [List.foldl_cons, ih, List.any_cons, Bool.or_assoc]
  rw [logic, hfold, Bool.false_or, List.any_eq_true]
  exact exists_congr fun t => and_congr_right fun ht => hterm t ht

theorem defbit_eq (value i : ℕ) : defbit value i = value.testBit (i % 32) := by
  have hlt : i % 32 < 32 := Nat.mod_lt i (by decide)
  rw [defbit, BitVec.getLsbD_sshiftRight, Nat.add_zero, if_pos hlt, BitVec.getLsbD_ofNat]
  simp [hlt]

section Bit

variable {mapping : List (BitPat × BitPat)} {w : ℕ}

/-- The keys and values as terms. -/
def termValues (mapping : List (BitPat × BitPat)) : List (Term × Term) :=
  mapping.map fun m => (term m.1, term m.2)

/-- The keys have one width, and no word matches two of them. -/
structure Disjoint (w : ℕ) (mapping : List (BitPat × BitPat)) : Prop where
  width : ∀ m ∈ mapping, m.1.width = w
  pairwise : mapping.Pairwise fun m m' => ∀ x < 2 ^ w, ¬ (m.1.Matches x ∧ m'.1.Matches x)

variable {sel : Term → Bool}

theorem mem_keysWhere {t : Term} :
    t ∈ keysWhere (termValues mapping) sel ↔
      ∃ m ∈ mapping, sel (term m.2) ∧ t = term m.1 := by
  simp only [keysWhere, termValues, List.mem_map, List.mem_filter]
  constructor
  · rintro ⟨_, ⟨⟨m, hm, rfl⟩, hsel⟩, rfl⟩
    exact ⟨m, hm, hsel, rfl⟩
  · rintro ⟨m, hm, hsel, rfl⟩
    exact ⟨_, ⟨⟨m, hm, rfl⟩, hsel⟩, rfl⟩

variable (h : Disjoint w mapping)

include h

theorem Disjoint.wf_keysWhere {t : Term}
    (ht : t ∈ keysWhere (termValues mapping) sel) : t.Wf w := by
  obtain ⟨m, hm, -, rfl⟩ := mem_keysWhere.1 ht
  exact h.width m hm ▸ wf_term m.1

/-- A word matches at most one key. -/
theorem Disjoint.unique {x : ℕ} (hx : x < 2 ^ w) {m m' : BitPat × BitPat} (hm : m ∈ mapping)
    (hm' : m' ∈ mapping) (hmatch : m.1.Matches x) (hmatch' : m'.1.Matches x) : m = m' := by
  have hsymm : Std.Symm fun m m' : BitPat × BitPat =>
      ∀ x < 2 ^ w, ¬ (m.1.Matches x ∧ m'.1.Matches x) :=
    ⟨fun _ _ hd x hx hxx => hd x hx hxx.symm⟩
  by_contra hne
  exact h.pairwise.forall hm hm' hne x hx ⟨hmatch, hmatch'⟩

/-- A word is in a key selected by its value exactly if the key it matches is selected. -/
theorem Disjoint.exists_keysWhere_iff {x : ℕ}
    (hx : x < 2 ^ w) : (∃ t ∈ keysWhere (termValues mapping) sel, t.Contains x) ↔
      ∃ m ∈ mapping, m.1.Matches x ∧ sel (term m.2) := by
  constructor
  · rintro ⟨t, ht, hc⟩
    obtain ⟨m, hm, hsel, rfl⟩ := mem_keysWhere.1 ht
    exact ⟨m, hm, (contains_term_iff (by rw [h.width m hm]; exact hx)).1 hc, hsel⟩
  · rintro ⟨m, hm, hmatch, hsel⟩
    exact ⟨term m.1, mem_keysWhere.2 ⟨m, hm, hsel, rfl⟩,
      (contains_term_iff (by rw [h.width m hm]; exact hx)).2 hmatch⟩

/-- Keys selected in different ways avoid each other. -/
theorem Disjoint.avoids {sel sel' : Term → Bool} (hsel : ∀ t, sel t → sel' t = false) :
    ∀ t ∈ keysWhere (termValues mapping) sel,
      SimplifyDC.Avoids (keysWhere (termValues mapping) sel') w t := by
  intro t ht
  refine ⟨h.wf_keysWhere ht, fun u hu => ?_⟩
  by_contra hmeet
  rw [Bool.not_eq_false, Term.intersects_iff_exists] at hmeet
  obtain ⟨x, hux, htx⟩ := hmeet
  have hx := (h.wf_keysWhere ht).contains_lt htx
  obtain ⟨m, hm, hmx, hms⟩ := (h.exists_keysWhere_iff hx).1 ⟨t, ht, htx⟩
  obtain ⟨m', hm', hmx', hms'⟩ := (h.exists_keysWhere_iff hx).1 ⟨u, hu, hux⟩
  obtain rfl := h.unique hx hm hm' hmx hmx'
  exact absurd (hms'.symm.trans (hsel _ hms)) (by decide)

/-- What a cover of some keys, with others that do not matter, is true on. -/
theorem Disjoint.simplify_keysWhere (on free : Term → Bool) :
    ∃ cover, simplify (keysWhere (termValues mapping) on) (keysWhere (termValues mapping) free) w =
        some cover ∧ ∀ x < 2 ^ w,
      (∀ m ∈ mapping, m.1.Matches x → free (term m.2) = false →
        (logic x w cover ↔ on (term m.2))) ∧
      ((∀ m ∈ mapping, ¬ m.1.Matches x) → logic x w cover = false) := by
  obtain ⟨cover, hcover, hcov, hwithin⟩ := simplify_spec
    (keysWhere (termValues mapping) on) (keysWhere (termValues mapping) free)
    (fun t ht => (List.mem_append.1 ht).elim h.wf_keysWhere h.wf_keysWhere)
  refine ⟨cover, hcover, fun x hx => ?_⟩
  have hlogic : logic x w cover ↔ ∃ t ∈ cover, t.Contains x :=
    logic_iff (fun t ht => (hwithin t ht).1) hx
  -- a word of the cover is in a key that is to be covered or does not matter
  have hkey : logic x w cover → ∃ m ∈ mapping, m.1.Matches x ∧
      (on (term m.2) ∨ free (term m.2)) := by
    intro hl
    obtain ⟨t, ht, hc⟩ := hlogic.1 hl
    obtain ⟨u, hu, huc⟩ := (hwithin t ht).2 x hc
    rcases List.mem_append.1 hu with hu | hu
    · obtain ⟨m, hm, hmx, hs⟩ := (h.exists_keysWhere_iff hx).1 ⟨u, hu, huc⟩
      exact ⟨m, hm, hmx, .inl hs⟩
    · obtain ⟨m, hm, hmx, hs⟩ := (h.exists_keysWhere_iff hx).1 ⟨u, hu, huc⟩
      exact ⟨m, hm, hmx, .inr hs⟩
  refine ⟨fun m hm hmx hfree => ⟨fun hl => ?_, fun hon => ?_⟩, fun hno => ?_⟩
  · obtain ⟨m', hm', hmx', hs⟩ := hkey hl
    rw [← h.unique hx hm hm' hmx hmx', hfree] at hs
    simpa using hs
  · obtain ⟨u, hu, huc⟩ := (h.exists_keysWhere_iff hx).2 ⟨m, hm, hmx, hon⟩
    obtain ⟨t, ht, hc⟩ := hcov u hu
    exact hlogic.2 ⟨t, ht, huc.of_covers hc⟩
  · by_contra hl
    rw [Bool.not_eq_false] at hl
    obtain ⟨m, hm, hmx, -⟩ := hkey hl
    exact hno m hm hmx

/-- What a cover of some keys that avoids others is true on. -/
theorem Disjoint.simplifyDC_keysWhere (on off : Term → Bool) (hsel : ∀ t, on t → off t = false) :
    ∃ cover, simplifyDC (keysWhere (termValues mapping) on) (keysWhere (termValues mapping) off) w =
        some cover ∧ ∀ x < 2 ^ w, ∀ m ∈ mapping, m.1.Matches x →
      (on (term m.2) → logic x w cover) ∧
      (off (term m.2) → logic x w cover = false) := by
  obtain ⟨cover, hcover, hcov, havoid⟩ := simplifyDC_spec (h.avoids hsel)
  refine ⟨cover, hcover, fun x hx m hm hmx => ⟨fun hon => ?_, fun hoff => ?_⟩⟩
  · obtain ⟨u, hu, huc⟩ := (h.exists_keysWhere_iff hx).2 ⟨m, hm, hmx, hon⟩
    obtain ⟨t, ht, hc⟩ := hcov u hu
    exact (logic_iff (fun t ht => (havoid t ht).1) hx).2 ⟨t, ht, huc.of_covers hc⟩
  · by_contra hl
    rw [Bool.not_eq_false, logic_iff (fun t ht => (havoid t ht).1) hx] at hl
    obtain ⟨t, ht, hc⟩ := hl
    obtain ⟨u, hu, huc⟩ := (h.exists_keysWhere_iff hx).2 ⟨m, hm, hmx, hoff⟩
    exact (havoid t ht).not_contains hu huc hc

/-- The logic of one bit: right on every input that matches a key, and on the others the bit of the
default modulo 32. -/
theorem bitLogic_spec (default : BitPat) (i : ℕ) :
    ∃ l, bitLogic default (termValues mapping) w i = some l ∧ ∀ x < 2 ^ w,
      (∀ m ∈ mapping, m.1.Matches x → m.2.dontCare i = false →
        l.eval w x = m.2.value.testBit i) ∧
      ((∀ m ∈ mapping, ¬ m.1.Matches x) → default.dontCare i = false →
        l.eval w x = default.value.testBit (i % 32)) := by
  unfold bitLogic
  simp only [testBit_mask_term, defbit_eq]
  split
  case isTrue hdc =>
    obtain ⟨cover, hcover, hspec⟩ := h.simplifyDC_keysWhere
      (fun t => !t.mask.testBit i && t.value.testBit i)
      (fun t => !t.mask.testBit i && !t.value.testBit i)
      (fun t ht => by simp_all)
    refine ⟨⟨cover, false⟩, by rw [mint, maxt, hcover]; rfl, fun x hx => ⟨?_, ?_⟩⟩
    · intro m hm hmx hcare
      obtain ⟨hone, hzero⟩ := hspec x hx m hm hmx
      rw [testBit_mask_term, hcare] at hone hzero
      change logic x w cover = _
      cases hb : m.2.value.testBit i with
      | true => exact hone (by simpa [term] using hb)
      | false => exact hzero (by simpa [term] using hb)
    · intro _ hcare
      exact absurd (hdc.symm.trans hcare) (by decide)
  case isFalse hdc =>
    split
    case isTrue hdef =>
      obtain ⟨cover, hcover, hspec⟩ := h.simplify_keysWhere
        (fun t => !t.mask.testBit i && !t.value.testBit i) (fun t => t.mask.testBit i)
      refine ⟨⟨cover, true⟩, by rw [maxt, dc, hcover]; rfl, fun x hx => ⟨?_, ?_⟩⟩
      · intro m hm hmx hcare
        have hiff := (hspec x hx).1 m hm hmx (by rw [testBit_mask_term, hcare])
        rw [testBit_mask_term, hcare] at hiff
        change (!logic x w cover) = m.2.value.testBit i
        change _ ↔ (true && !m.2.value.testBit i) = true at hiff
        cases hb : m.2.value.testBit i <;> simp_all
      · intro hno _
        change (!logic x w cover) = _
        rw [(hspec x hx).2 hno]
        exact hdef.symm
    case isFalse hdef =>
      obtain ⟨cover, hcover, hspec⟩ := h.simplify_keysWhere
        (fun t => !t.mask.testBit i && t.value.testBit i) (fun t => t.mask.testBit i)
      refine ⟨⟨cover, false⟩, by rw [mint, dc, hcover]; rfl, fun x hx => ⟨?_, ?_⟩⟩
      · intro m hm hmx hcare
        have hiff := (hspec x hx).1 m hm hmx (by rw [testBit_mask_term, hcare])
        rw [testBit_mask_term, hcare] at hiff
        change logic x w cover = m.2.value.testBit i
        change _ ↔ (true && m.2.value.testBit i) = true at hiff
        cases hb : m.2.value.testBit i <;> simp_all
      · intro hno _
        change logic x w cover = _
        rw [(hspec x hx).2 hno]
        exact (Bool.not_eq_true _ ▸ hdef).symm

end Bit

/-! ## The whole table -/

/-- The output is the value of the key an input matches, or else the default, wherever these
care. -/
def Realises (w : ℕ) (default : BitPat) (mapping : List (BitPat × BitPat)) (out : List BitLogic) :
    Prop :=
  ∀ x < 2 ^ w, ∀ i < outWidth default mapping,
    (∀ m ∈ mapping, m.1.Matches x → m.2.dontCare i = false →
      outputBit out w x i = m.2.value.testBit i) ∧
    ((∀ m ∈ mapping, ¬ m.1.Matches x) → default.dontCare i = false →
      outputBit out w x i = default.value.testBit i)

/-- Every input matches a key. -/
def Exhaustive (w : ℕ) (mapping : List (BitPat × BitPat)) : Prop :=
  ∀ x < 2 ^ w, ∃ m ∈ mapping, m.1.Matches x

/-- The bits of the default that matter repeat its low 32 bits. -/
def WrapsToLowWord (default : BitPat) (n : ℕ) : Prop :=
  ∀ i < n, default.dontCare i = false →
    default.value.testBit i = default.value.testBit (i % 32)

theorem mapM_eq_some {α β : Type} {f : α → Option β} {l : List α} (h : ∀ a ∈ l, ∃ b, f a = some b) :
    ∃ out, l.mapM f = some out ∧ ∀ i (hi : i < l.length), f l[i] = out[i]? := by
  induction l with
  | nil => exact ⟨[], rfl, fun i hi => absurd hi (Nat.not_lt_zero i)⟩
  | cons a l ih =>
    obtain ⟨b, hb⟩ := h a List.mem_cons_self
    obtain ⟨out, hout, hget⟩ := ih fun x hx => h x (List.mem_cons_of_mem a hx)
    refine ⟨b :: out, by simp [List.mapM_cons, hb, hout], fun i hi => ?_⟩
    cases i with
    | zero => simpa using hb
    | succ i => simpa using hget i (by simpa using hi)

theorem max?_eq_of_forall {l : List ℕ} {w : ℕ} (hne : l ≠ []) (h : ∀ a ∈ l, a = w) :
    l.max? = some w := by
  obtain ⟨a, l, rfl⟩ := List.exists_cons_of_ne_nil hne
  rw [List.max?_eq_some_iff]
  refine ⟨h a List.mem_cons_self ▸ List.mem_cons_self, fun b hb => (h b hb).le⟩

theorem Disjoint.pairwise_terms {mapping : List (BitPat × BitPat)} {w : ℕ}
    (h : Disjoint w mapping) :
    (mapping.map fun m => term m.1).Pairwise fun t u => t.intersects u = false := by
  rw [List.pairwise_map]
  refine h.pairwise.imp_of_mem fun {m m'} hm hm' hd => ?_
  by_contra hmeet
  rw [Bool.not_eq_false, Term.intersects_iff_exists] at hmeet
  obtain ⟨x, hx, hx'⟩ := hmeet
  have hlt : x < 2 ^ w := h.width m hm ▸ (wf_term m.1).contains_lt hx
  exact hd x hlt ⟨(contains_term_iff (by rw [h.width m hm]; exact hlt)).1 hx,
    (contains_term_iff (by rw [h.width m' hm']; exact hlt)).1 hx'⟩

/-- The generator succeeds, and each bit of its output is the logic of that bit. -/
theorem decodeLogic_eq_some {mapping : List (BitPat × BitPat)} {w : ℕ} (hne : mapping ≠ [])
    (h : Disjoint w mapping) (default : BitPat) :
    ∃ out, decodeLogic default mapping = some out ∧ ∀ i < outWidth default mapping,
      bitLogic default (termValues mapping) w i = out[i]? := by
  obtain ⟨out, hout, hget⟩ := mapM_eq_some (f := bitLogic default (termValues mapping) w)
    (l := List.range (outWidth default mapping))
    (fun i _ => (bitLogic_spec h default i).imp fun _ hl => hl.1)
  have hget' : ∀ i < outWidth default mapping,
      bitLogic default (termValues mapping) w i = out[i]? := by
    intro i hi
    have := hget i (by rw [List.length_range]; exact hi)
    rwa [List.getElem_range] at this
  refine ⟨out, ?_, hget'⟩
  have hwidth : (mapping.map fun m => m.1.width).max? = some w := by
    refine max?_eq_of_forall (by simpa using hne) fun a ha => ?_
    obtain ⟨m, hm, rfl⟩ := List.mem_map.1 ha
    exact h.width m hm
  have hzip : (mapping.map fun m => term m.1).zip (mapping.map fun m => term m.2) =
      termValues mapping := by
    rw [List.zip_map', termValues]
  simp only [decodeLogic, hwidth, hzip, h.pairwise_terms, guard_true, Option.pure_def,
    Option.bind_eq_bind, Option.bind_some]
  exact hout

/-- For a truth table with disjoint keys of one width no assertion fails, and the logic realises the
table exactly if every input matches a key or the bits of the default that matter repeat its low 32
bits. -/
theorem decode_realises_iff (w : ℕ) (default : BitPat) (mapping : List (BitPat × BitPat))
    (hne : mapping ≠ []) (h : Disjoint w mapping) :
    ∃ out, decodeLogic default mapping = some out ∧
      (Realises w default mapping out ↔
        Exhaustive w mapping ∨ WrapsToLowWord default (outWidth default mapping)) := by
  obtain ⟨out, hout, hget⟩ := decodeLogic_eq_some hne h default
  refine ⟨out, hout, ?_⟩
  have hbit : ∀ i < outWidth default mapping, ∀ x < 2 ^ w,
      (∀ m ∈ mapping, m.1.Matches x → m.2.dontCare i = false →
        outputBit out w x i = m.2.value.testBit i) ∧
      ((∀ m ∈ mapping, ¬ m.1.Matches x) → default.dontCare i = false →
        outputBit out w x i = default.value.testBit (i % 32)) := by
    intro i hi x hx
    obtain ⟨l, hl, hspec⟩ := bitLogic_spec h default i
    rw [hget i hi] at hl
    rw [outputBit, hl]
    exact hspec x hx
  constructor
  · intro hr
    by_contra hno
    rw [not_or] at hno
    obtain ⟨hex, hwrap⟩ := hno
    -- an input that no key matches gets the default from the low word
    simp only [Exhaustive, not_forall, not_exists, not_and] at hex
    obtain ⟨x, hx, hother⟩ := hex
    refine hwrap fun i hi hcare => ?_
    rw [← (hbit i hi x hx).2 hother hcare]
    exact ((hr x hx i hi).2 hother hcare).symm
  · rintro (hex | hwrap) x hx i hi
    · refine ⟨(hbit i hi x hx).1, fun hother => ?_⟩
      obtain ⟨m, hm, hmx⟩ := hex x hx
      exact absurd hmx (hother m hm)
    · refine ⟨(hbit i hi x hx).1, fun hother hcare => ?_⟩
      rw [(hbit i hi x hx).2 hother hcare, hwrap i hi hcare]

section Example

/-- The pattern `1?`. -/
def oneAny : BitPat where
  width := 2
  value := 2
  mask := 2
  width_pos := by decide
  mask_lt := by decide
  value_le _ h := h

/-- Two keys out of four inputs, with outputs of 33 bits. -/
def twoKeys : List (BitPat × BitPat) :=
  [(oneAny, .literal 33 1 (by decide) (by decide)),
    (.literal 2 1 (by decide) (by decide), .literal 33 2 (by decide) (by decide))]

theorem disjoint_twoKeys : Disjoint 2 twoKeys := ⟨by decide, by decide⟩

theorem decode_realises_iff_twoKeys :
    ∃ out, decodeLogic (.literal 33 0 (by decide) (by decide)) twoKeys = some out ∧
      Realises 2 (.literal 33 0 (by decide) (by decide)) twoKeys out := by
  obtain ⟨out, hout, hiff⟩ := decode_realises_iff 2 (.literal 33 0 (by decide) (by decide)) twoKeys
    (by decide) disjoint_twoKeys
  exact ⟨out, hout, hiff.2 (.inr fun i _ _ => by simp [BitPat.literal])⟩

/-- A default of 33 bits of which only the top one is set: an input that matches no key gets 0
there, which is the lowest bit of the default. -/
theorem wide_default_wraps :
    let default := BitPat.literal 33 (2 ^ 32) (by decide) (by decide)
    (∀ m ∈ twoKeys, ¬ m.1.Matches 0) ∧ default.dontCare 32 = false ∧
      default.value.testBit 32 = true ∧
      ∃ out, decodeLogic default twoKeys = some out ∧ outputBit out 2 0 32 = false := by
  intro default
  have hother : ∀ m ∈ twoKeys, ¬ m.1.Matches 0 := by decide
  refine ⟨hother, by decide, by decide, ?_⟩
  obtain ⟨out, hout, hget⟩ := decodeLogic_eq_some (by decide) disjoint_twoKeys default
  obtain ⟨l, hl, hspec⟩ := bitLogic_spec disjoint_twoKeys default 32
  refine ⟨out, hout, ?_⟩
  rw [hget 32 (by decide)] at hl
  rw [outputBit, hl, Option.any_some, (hspec 0 (by decide)).2 hother (by decide)]
  decide

end Example

end TaggedRiscv.DecodeLogic
