import TaggedRiscv.Core.MulDivLoops

/-!
# The multiplier and divider computes the M extension

The numbers the operands stand for, the loops and the negations put together, and what comes out
compared with the instruction set. Where the decode table does not care about the signs, any
choice gives the same low word of the product.
-/

namespace TaggedRiscv.Core.MulDiv

open SeqArith BitVec

/-! ## The operands -/

section Operands

variable {p : Params} {r : MultiplierReq}

theorem msb_sext (dw signed : Bool) (x : BitVec 64) :
    (sext dw signed x).msb = if dw then x.getLsbD 63 else sign dw signed x := by
  rw [msb_eq_getLsbD_last, sext, getLsbD_append]
  cases dw with
  | false => exact (getLsbD_eq_getElem (by omega)).trans (getElem_fill (by omega))
  | true => simp only [if_true, getLsbD_extractLsb']; rfl

variable {x : BitVec 64}

/-- An operand with a sign has its highest bit set. -/
theorem msb_of_sign {dw signed : Bool} (h : sign dw signed x) : (sext dw signed x).msb := by
  rw [msb_sext]
  cases dw with
  | false => exact h
  | true =>
    simp only [sign, if_true, Bool.and_eq_true] at h ⊢
    exact h.2

/-- The sign of a signed operand is its highest bit. -/
theorem msb_eq_sign (dw : Bool) (x : BitVec 64) : (sext dw true x).msb = sign dw true x := by
  rw [msb_sext]
  cases dw <;> simp [sign]

/-- The number a word with a sign stands for. -/
theorem toInt_ofBool_append (b : Bool) (x : BitVec 64) :
    (BitVec.ofBool b ++ x).toInt = x.toNat - if b then 2 ^ 64 else 0 := by
  rw [toInt_append]
  cases b <;> simp
  ring

variable (p r)

def lhsValue : ℤ := (BitVec.ofBool (lhsSign p r) ++ lhsIn p r).toInt

def rhsValue : ℤ := (BitVec.ofBool (rhsSign p r) ++ rhsIn p r).toInt

variable {p r}

/-- A word of 64 bits with its highest bit set. -/
theorem le_toNat_of_msb (h : x.msb) : 2 ^ 63 ≤ x.toNat := by
  rw [msb_eq_decide] at h
  exact of_decide_eq_true h

theorem neg_toNat (h : x.msb) : (-x).toNat = 2 ^ 64 - x.toNat := by
  have := le_toNat_of_msb h
  rw [toNat_neg]
  omega

theorem high_setWidth {v : BitVec 64} {k n : ℕ} (hk : 64 ≤ k) :
    (v.setWidth 130).extractLsb' k n = 0 := by
  ext i hi
  simpa using fun _ => getLsbD_of_ge v _ (by omega)

theorem mulReg_setWidth {s : Regs} {v : BitVec 64} (h : s.remainder = v.setWidth 130) :
    (mulReg s).toInt = v.toNat := by
  have hhi : accum s = 0 := by rw [accum_eq, h, high_setWidth (by omega)]
  rw [toInt_mulReg, hhi, mplier_eq, h, low_setWidth]
  simp

theorem le_rhsValue : -2 ^ 63 ≤ rhsValue p r := by
  rw [rhsValue, toInt_ofBool_append]
  split_ifs with hsign
  · have hle : 2 ^ 63 ≤ (rhsIn p r).toNat := le_toNat_of_msb (msb_of_sign hsign)
    omega
  · omega

/-- The divisor of an accepted request is negated, if it is, as a number of 65 bits. -/
theorem toInt_subtractor : (subtractor (accept p r)).toInt = -rhsValue p r := by
  have htop : (accept p r).remainder.extractLsb' 64 65 = 0#65 := high_setWidth le_rfl
  have hne : (accept p r).divisor ≠ BitVec.intMin 65 := by
    intro heq
    have hval : rhsValue p r = -2 ^ 64 := by
      rw [show rhsValue p r = (accept p r).divisor.toInt from rfl, heq]
      decide
    have hle := le_rhsValue (p := p) (r := r)
    omega
  rw [subtractor, htop, BitVec.zero_sub, BitVec.toInt_neg_of_ne_intMin hne]
  rfl

theorem negatedRemainder_accept : negatedRemainder (accept p r) = -lhsIn p r :=
  congrArg Neg.neg (low_setWidth _)

/-- The unit starts a multiplication with operands that have the product asked for. -/
theorem leads_mulPhase (hm : p.cmdMul r.fn) :
    (machine p).Leads Working
      (fun s => ∃ x y, x * y = lhsValue p r * rhsValue p r ∧ MulPhase p r (p.cmdHi r.fn) x y s)
      (accept p r) := by
  have hneg : (accept p r).negOut = false := by simp [accept, hm]
  have hbits (s : Regs) (h : s.count = 0) : bitsDone p s = 0 := by
    rw [bitsDone, h]; exact zero_mul _
  cases hsign : lhsSign p r with
  | false =>
    have hl : lhsValue p r = (lhsIn p r).toNat := by rw [lhsValue, toInt_ofBool_append, hsign]; simp
    refine .here ⟨lhsValue p r, rhsValue p r, rfl, ?_⟩
    refine ⟨by simp [accept, hsign, hm], hm, rfl, rfl, hneg, rfl, ?_, ?_, ?_, ?_⟩
    · rw [hl]; positivity
    · rw [hl]; exact_mod_cast (lhsIn p r).isLt
    · rw [hbits _ rfl]; norm_num
    · rw [hbits _ rfl, partialProduct_zero, hl]
      exact mulReg_setWidth rfl
  | true =>
    have hmsb : (lhsIn p r).msb := msb_of_sign hsign
    have hx : ((-lhsIn p r).toNat : ℤ) = -lhsValue p r := by
      have hle := (lhsIn p r).isLt
      rw [neg_toNat hmsb, lhsValue, toInt_ofBool_append, hsign, Nat.cast_sub hle.le]
      push_cast
      simp
    have hstate : (accept p r).state = .negInputs := by simp [accept, hsign]
    refine leads_advance (by constructor <;> simp [hstate]) (.here ?_)
    simp only [advance, hstate]
    have hboth (b : Bool) : (b || (accept p r).isMul) = true := by
      rw [show (accept p r).isMul = true from hm, Bool.or_true]
    have hrem : (negateInputs (accept p r)).remainder = (-lhsIn p r).setWidth 130 :=
      (if_pos (hboth _)).trans (by rw [negatedRemainder_accept])
    have hdiv : (negateInputs (accept p r)).divisor.toInt = -rhsValue p r :=
      (congrArg BitVec.toInt (if_pos (hboth _))).trans toInt_subtractor
    refine ⟨-lhsValue p r, -rhsValue p r, by ring, ?_⟩
    refine ⟨rfl, hm, rfl, rfl, hneg, hdiv, ?_, ?_, ?_, ?_⟩
    · rw [← hx]; positivity
    · rw [← hx]; exact_mod_cast (-lhsIn p r).isLt
    · rw [hbits _ rfl]; norm_num
    · rw [hbits _ rfl, partialProduct_zero, ← hx]
      exact mulReg_setWidth hrem

/-- The size of an operand. -/
theorem natAbs_ofBool_append (b : Bool) (x : BitVec 64) :
    (BitVec.ofBool b ++ x).toInt.natAbs = if b then 2 ^ 64 - x.toNat else x.toNat := by
  have hx := x.isLt
  rw [toInt_ofBool_append]
  cases b <;> simp
  omega

/-- The dividend is made positive. -/
theorem toNat_remainder_negateInputs (hm : p.cmdMul r.fn = false) (hs : p.lhsSigned r.fn) :
    (negateInputs (accept p r)).remainder.toNat = (lhsValue p r).natAbs := by
  have hneg : ((accept p r).remainder.getLsbD 63 || (accept p r).isMul) = lhsSign p r := by
    rw [show (accept p r).isMul = false from hm, Bool.or_false, lhsSign, hs, ← msb_eq_sign,
      msb_eq_getLsbD_last, ← hs]
    exact (getLsbD_setWidth ..).trans (Bool.true_and _)
  rw [lhsValue, natAbs_ofBool_append]
  cases hsign : lhsSign p r with
  | false =>
    have hrem : (negateInputs (accept p r)).remainder = (lhsIn p r).setWidth 130 :=
      if_neg (by rw [hneg, hsign]; simp)
    rw [hrem, toNat_setWidth_of_le (by omega), if_neg (by simp)]
  | true =>
    have hmsb : (lhsIn p r).msb := msb_of_sign hsign
    have hrem : (negateInputs (accept p r)).remainder = (-lhsIn p r).setWidth 130 :=
      (if_pos (hneg.trans hsign)).trans (by rw [negatedRemainder_accept])
    rw [hrem, toNat_setWidth_of_le (by omega), neg_toNat hmsb, if_pos rfl]

theorem toNat_divisor_accept (hsign : rhsSign p r = false) :
    (accept p r).divisor.toNat = (rhsValue p r).natAbs := by
  rw [rhsValue, natAbs_ofBool_append, hsign, accept, hsign]
  exact (toNat_append ..).trans (by simp)

/-- The divisor is made positive. -/
theorem toNat_divisor_negateInputs (hm : p.cmdMul r.fn = false) (hs : p.rhsSigned r.fn) :
    (negateInputs (accept p r)).divisor.toNat = (rhsValue p r).natAbs := by
  have hneg : ((accept p r).divisor.getLsbD 63 || (accept p r).isMul) = rhsSign p r := by
    rw [show (accept p r).isMul = false from hm, Bool.or_false, rhsSign, hs, ← msb_eq_sign,
      msb_eq_getLsbD_last, ← hs]
    exact getLsbD_append
  cases hsign : rhsSign p r with
  | false =>
    have hdiv : (negateInputs (accept p r)).divisor = (accept p r).divisor :=
      if_neg (by rw [hneg, hsign]; simp)
    rw [hdiv, toNat_divisor_accept hsign]
  | true =>
    have hdiv : (negateInputs (accept p r)).divisor = subtractor (accept p r) :=
      if_pos (hneg.trans hsign)
    have hval := toInt_subtractor (p := p) (r := r)
    have hlt : rhsValue p r < 0 := by
      have hr := (rhsIn p r).isLt
      rw [rhsValue, toInt_ofBool_append, hsign, if_pos rfl]
      omega
    rw [hdiv]
    rw [toInt_eq_toNat_cond] at hval
    have := (subtractor (accept p r)).isLt
    split_ifs at hval <;> omega

/-- The sign of the result of a division. -/
def divNeg (p : Params) (r : MultiplierReq) : Bool :=
  (if p.cmdHi r.fn then lhsSign p r else lhsSign p r != rhsSign p r) &&
    !((rhsValue p r).natAbs == 0 && !p.cmdHi r.fn)

theorem natAbs_value_lt (b : Bool) (h : b → x.msb) :
    (BitVec.ofBool b ++ x).toInt.natAbs < 2 ^ 64 := by
  have hx := x.isLt
  rw [natAbs_ofBool_append]
  split_ifs with hb
  · have := le_toNat_of_msb (h hb)
    omega
  · exact hx

/-- The unit starts a division with operands that are not negative. -/
theorem leads_divPhase (hm : p.cmdMul r.fn = false) (hsame : p.lhsSigned r.fn = p.rhsSigned r.fn) :
    (machine p).Leads Working
      (DivPhase r (p.cmdHi r.fn) (divNeg p r) (lhsValue p r).natAbs (rhsValue p r).natAbs)
      (accept p r) := by
  have hn : (lhsValue p r).natAbs < 2 ^ 64 := natAbs_value_lt _ msb_of_sign
  have hd : (rhsValue p r).natAbs < 2 ^ 64 := natAbs_value_lt _ msb_of_sign
  have hneg : ((accept p r).negOut && !((0 : BitVec 7) == 0 && (rhsValue p r).natAbs == 0 &&
      !p.cmdHi r.fn)) = divNeg p r := by
    simp only [accept, hm, divNeg, Bool.not_false, Bool.true_and, beq_self_eq_true]
  cases hneeds : lhsSign p r || rhsSign p r && !p.cmdMul r.fn with
  | false =>
    have hsigns : lhsSign p r = false ∧ rhsSign p r = false := by simpa [hm] using hneeds
    have hrem : (accept p r).remainder.toNat = (lhsValue p r).natAbs := by
      rw [lhsValue, natAbs_ofBool_append, hsigns.1]
      exact toNat_setWidth_of_le (by omega)
    refine .here ⟨by simp [accept, hneeds], hm, rfl, rfl, hneg, toNat_divisor_accept hsigns.2, hd,
      hn, Nat.zero_le _, ?_⟩
    rw [hrem]
    exact (partialDivision_zero hn).symm
  | true =>
    have hstate : (accept p r).state = .negInputs := by simp only [accept, hneeds, if_true]
    -- a sign is there only if the operands are signed
    have hsigned : p.lhsSigned r.fn := by
      by_contra hs
      rw [Bool.not_eq_true] at hs
      have hl : lhsSign p r = false := by rw [lhsSign, hs]; rfl
      have hr : rhsSign p r = false := by rw [rhsSign, ← hsame, hs]; rfl
      simp [hl, hr] at hneeds
    refine leads_advance (by constructor <;> simp [hstate]) (.here ?_)
    simp only [advance, hstate]
    refine ⟨rfl, hm, rfl, rfl, hneg, toNat_divisor_negateInputs hm (hsame ▸ hsigned), hd, hn,
      Nat.zero_le _, ?_⟩
    rw [toNat_remainder_negateInputs hm hsigned]
    exact (partialDivision_zero hn).symm

end Operands

/-! ## The result -/

section Result

variable {p : Params} {r : MultiplierReq} {w : ℕ}

/-- What the unit computes from the numbers its operands stand for. -/
def unitResult (w : ℕ) (mul hi : Bool) (l r : ℤ) : BitVec w :=
  if mul then BitVec.ofInt w (if hi then l * r / 2 ^ 64 else l * r)
  else if hi then BitVec.ofInt w (l.tmod r)
  else if r = 0 then BitVec.allOnes w
  else BitVec.ofInt w (l.tdiv r)

theorem value_eq (b : Bool) (x : BitVec 64) :
    (BitVec.ofBool b ++ x).toInt =
      if b then -((BitVec.ofBool b ++ x).toInt.natAbs : ℤ)
      else (BitVec.ofBool b ++ x).toInt.natAbs := by
  have hx := x.isLt
  rw [natAbs_ofBool_append, toInt_ofBool_append]
  cases b <;> simp
  omega

theorem tdiv_signs (a b : Bool) (n d : ℕ) :
    (if a then -(n : ℤ) else n).tdiv (if b then -(d : ℤ) else d) =
      if a != b then -((n / d : ℕ) : ℤ) else (n / d : ℕ) := by
  cases a <;> cases b <;> simp [Int.tdiv_neg, Int.neg_tdiv]

theorem tmod_signs (a b : Bool) (n d : ℕ) :
    (if a then -(n : ℤ) else n).tmod (if b then -(d : ℤ) else d) =
      if a then -((n % d : ℕ) : ℤ) else (n % d : ℕ) := by
  cases a <;> cases b <;> 
    simp [Int.tmod_neg, Int.neg_tmod, Int.tmod_eq_emod_of_nonneg]

theorem ofInt_neg_if (b : Bool) (n : ℕ) :
    BitVec.ofInt w (if b then -(n : ℤ) else n) =
      if b then -BitVec.ofNat w n else BitVec.ofNat w n := by
  cases b <;> simp [ofInt_neg]

/-- The magnitudes and the sign give the quotient or the remainder rounded to zero. -/
theorem unitResult_div (p : Params) (r : MultiplierReq) :
    (let v := BitVec.ofNat 64 (if p.cmdHi r.fn then (lhsValue p r).natAbs % (rhsValue p r).natAbs
        else quotientBits (rhsValue p r).natAbs 65 (lhsValue p r).natAbs)
      if divNeg p r then -v else v) =
      unitResult 64 false (p.cmdHi r.fn) (lhsValue p r) (rhsValue p r) := by
  have hl : lhsValue p r = if lhsSign p r then -((lhsValue p r).natAbs : ℤ)
      else (lhsValue p r).natAbs := value_eq _ _
  have hr : rhsValue p r = if rhsSign p r then -((rhsValue p r).natAbs : ℤ)
      else (rhsValue p r).natAbs := value_eq _ _
  cases hhi : p.cmdHi r.fn with
  | true =>
    have hneg : divNeg p r = lhsSign p r := by simp [divNeg, hhi]
    simp only [unitResult, hneg, if_true, Bool.false_eq_true, if_false]
    rw [hl, hr, tmod_signs, ofInt_neg_if, ← hl, ← hr]
  | false =>
    simp only [unitResult, Bool.false_eq_true, if_false, quotientBits, Int.natAbs_eq_zero]
    by_cases h0 : rhsValue p r = 0
    · have hneg : divNeg p r = false := by simp [divNeg, hhi, h0]
      simp only [hneg, h0, if_true, Bool.false_eq_true, if_false]
      decide
    · have hneg : divNeg p r = (lhsSign p r != rhsSign p r) := by simp [divNeg, hhi, h0]
      simp only [hneg, h0, if_false]
      rw [hl, hr, tdiv_signs, ofInt_neg_if, ← hl, ← hr]

/-- The unit computes its result from every request. -/
theorem leads_ends (hsame : p.cmdMul r.fn = false → p.lhsSigned r.fn = p.rhsSigned r.fn) :
    (machine p).Leads Working
      (Ends r (unitResult 64 (p.cmdMul r.fn) (p.cmdHi r.fn) (lhsValue p r) (rhsValue p r)))
      (accept p r) := by
  cases hm : p.cmdMul r.fn with
  | true =>
    refine (leads_mulPhase hm).trans ?_
    rintro s ⟨x, y, hxy, hphase⟩
    refine hphase.leads.trans fun t ht => ?_
    rw [unitResult, if_pos rfl, ← hxy]
    exact ht.leads
  | false =>
    refine (leads_divPhase hm (hsame hm)).trans fun s hs => hs.leads.trans fun t ht => ?_
    rw [← unitResult_div]
    exact ht.leads

/-- The number an operand of `w` bits stands for. -/
def wordValue (signed : Bool) (x : BitVec w) : ℤ := if signed then x.toInt else x.toNat

theorem ofInt_wordValue (signed : Bool) (x : BitVec w) :
    BitVec.ofInt w (wordValue signed x) = x := by
  cases signed <;> simp [wordValue]

theorem wordValue_eq_zero {signed : Bool} {x : BitVec w} : wordValue signed x = 0 ↔ x = 0 := by
  cases signed
  · simp [wordValue, toNat_eq]
  · simp [wordValue, ← toInt_inj]

theorem value_sext_dword (signed : Bool) (x : BitVec 64) :
    (BitVec.ofBool (sign true signed x) ++ sext true signed x).toInt = wordValue signed x := by
  have hsext : sext true signed x = x :=
    (BitVec.extractLsb'_append_extractLsb'_eq_extractLsb' rfl).trans BitVec.extractLsb'_eq_self
  rw [toInt_ofBool_append, hsext]
  cases signed with
  | false => simp [sign, wordValue]
  | true =>
    rw [wordValue, if_pos rfl, toInt_eq_msb_cond, msb_eq_getLsbD_last]
    simp only [sign, if_true, Bool.true_and]
    split_ifs <;> simp

theorem value_sext_word (signed : Bool) (x : BitVec 64) :
    (BitVec.ofBool (sign false signed x) ++ sext false signed x).toInt =
      wordValue signed (x.setWidth 32) := by
  have hlow : x.extractLsb' 0 32 = x.setWidth 32 := by ext i hi; simp
  have hsign : sign false signed x = (signed && (x.setWidth 32).msb) := by
    rw [msb_eq_getLsbD_last]
    simp [sign]
  have hlt := (x.setWidth 32).isLt
  rw [toInt_ofBool_append, sext]
  simp only [Bool.false_eq_true, if_false, hlow]
  rw [toNat_append, ← Nat.shiftLeft_add_eq_or_of_lt (BitVec.isLt _), Nat.shiftLeft_eq]
  cases hb : sign false signed x with
  | false =>
    have hval : wordValue signed (x.setWidth 32) = (x.setWidth 32).toNat := by
      rw [hsign, Bool.and_eq_false_iff] at hb
      rcases hb with rfl | hmsb
      · rfl
      · cases signed
        · rfl
        · exact toInt_eq_toNat_of_msb hmsb
    rw [hval]
    simp
  | true =>
    rw [hsign, Bool.and_eq_true] at hb
    rw [hb.1, wordValue, if_pos rfl, toInt_eq_msb_cond, hb.2, if_pos rfl, fill_true]
    simp only [toNat_allOnes, if_true]
    push_cast
    omega

/-- The two halves of a result that is sign-extended. -/
theorem fill_append (v : BitVec 64) :
    BitVec.fill 32 (v.getLsbD 31) ++ v.extractLsb' 0 32 = (v.setWidth 32).signExtend 64 := by
  have hmsb : (v.setWidth 32).msb = v.getLsbD 31 := by
    rw [msb_eq_getLsbD_last]
    exact (getLsbD_setWidth ..).trans (Bool.true_and _)
  ext i hi
  rw [getElem_append, getElem_signExtend, hmsb]
  by_cases hlow : i < 32
  · rw [dif_pos hlow, dif_pos hlow]
    simp
  · rw [dif_neg hlow, dif_neg hlow, getElem_fill]

theorem setWidth_unitResult (mul hi : Bool) (l r : ℤ) :
    (unitResult 64 mul hi l r).setWidth 32 = unitResult 32 mul hi l r := by
  unfold unitResult
  split_ifs
  all_goals first
    | exact setWidth_ofInt _ (by omega)
    | decide

theorem wordValue_overflow (hw : 0 < w) {a b : BitVec w} (h : MulOp.Overflows a b) :
    BitVec.ofInt w (a.toInt.tdiv b.toInt) = a ∧ BitVec.ofInt w (a.toInt.tmod b.toInt) = 0 := by
  obtain ⟨rfl, rfl⟩ := h
  have hone : (BitVec.allOnes w).toInt = -1 := by rw [toInt_allOnes, if_pos hw]
  rw [hone, Int.tdiv_neg, Int.tdiv_one, Int.tmod_neg, Int.tmod_one, ofInt_neg,
    ofInt_toInt, neg_intMin]
  exact ⟨rfl, rfl⟩

/-- What the unit computes is what the instruction set asks for. -/
theorem unitResult_eq_result (op : MulOp) (hw : 0 < w) (hform : w = 64 ∨ op.HasWordForm)
    {sl sr : Bool} (hsl : ∀ b ∈ (cmdRow op).lhsSigned, sl = b)
    (hsr : ∀ b ∈ (cmdRow op).rhsSigned, sr = b) (a b : BitVec w) :
    unitResult w (cmdRow op).cmdMul (cmdRow op).cmdHi (wordValue sl a) (wordValue sr b) =
      op.result a b := by
  cases op with
  | MUL =>
    rw [unitResult]
    simp only [cmdRow, if_true, Bool.false_eq_true, if_false, ofInt_mul, ofInt_wordValue]
    rfl
  | MULH =>
    obtain rfl := hform.resolve_right id
    rw [hsl true rfl, hsr true rfl]
    rfl
  | MULHSU =>
    obtain rfl := hform.resolve_right id
    rw [hsl true rfl, hsr false rfl]
    rfl
  | MULHU =>
    obtain rfl := hform.resolve_right id
    rw [hsl false rfl, hsr false rfl]
    rfl
  | DIV =>
    rw [hsl true rfl, hsr true rfl]
    simp only [unitResult, cmdRow, Bool.false_eq_true, if_false, wordValue_eq_zero, MulOp.result]
    split_ifs with hb hover
    · rfl
    · exact (wordValue_overflow hw hover).1
    · rfl
  | DIVU =>
    rw [hsl false rfl, hsr false rfl]
    simp only [unitResult, cmdRow, Bool.false_eq_true, if_false, wordValue_eq_zero, MulOp.result]
    split_ifs with hb
    · rfl
    · rw [← ofInt_natCast]
      rfl
  | REM =>
    rw [hsl true rfl, hsr true rfl]
    simp only [unitResult, cmdRow, Bool.false_eq_true, if_false, if_true, MulOp.result]
    split_ifs with hb hover
    · rw [wordValue_eq_zero.mpr hb, Int.tmod_zero, ofInt_wordValue]
    · exact (wordValue_overflow hw hover).2
    · rfl
  | REMU =>
    rw [hsl false rfl, hsr false rfl]
    simp only [unitResult, cmdRow, Bool.false_eq_true, if_false, if_true, MulOp.result]
    split_ifs with hb
    · rw [wordValue_eq_zero.mpr hb, Int.tmod_zero, ofInt_wordValue]
    · rw [← ofInt_natCast]
      rfl

/-- The signedness of the operands of a division. -/
theorem signed_eq (p : Params) (op : MulOp) (h : p.cmdMul op.fn = false) :
    p.lhsSigned op.fn = p.rhsSigned op.fn := by
  rw [p.cmdMul_fn] at h
  have hl := p.lhsSigned_fn op
  have hr := p.rhsSigned_fn op
  cases op <;> simp_all [cmdRow]

/-- The response to a request that has been worked on. -/
theorem Ends.respData_eq {s : Regs} {op : MulOp} (hop : r.fn = op.fn)
    (hform : r.dw = false → op.HasWordForm)
    (h : Ends r (unitResult 64 (p.cmdMul r.fn) (p.cmdHi r.fn) (lhsValue p r) (rhsValue p r)) s) :
    respData s = op.wordResult r.dw r.in1 r.in2 := by
  have hsl := p.lhsSigned_fn op
  have hsr := p.rhsSigned_fn op
  have hval := h.value
  rw [lhsValue, rhsValue, lhsSign, rhsSign, lhsIn, rhsIn, hop, p.cmdMul_fn, p.cmdHi_fn] at hval
  rw [respData, h.req, MulOp.wordResult]
  cases hdw : r.dw with
  | true =>
    rw [hdw, value_sext_dword, value_sext_dword,
      unitResult_eq_result op (by omega) (.inl rfl) hsl hsr] at hval
    rw [if_pos rfl, if_pos rfl, hval]
  | false =>
    rw [hdw, value_sext_word, value_sext_word] at hval
    have hlow : s.remainder.extractLsb' 0 32 = (s.remainder.extractLsb' 0 64).extractLsb' 0 32 := by
      ext i hi
      simp
    have hbit : s.remainder.getLsbD 31 = (s.remainder.extractLsb' 0 64).getLsbD 31 := by simp
    rw [if_neg (by simp), if_neg (by simp), hlow, hbit, fill_append, hval, setWidth_unitResult,
      unitResult_eq_result op (by omega) (.inr (hform hdw)) hsl hsr]

/-- The unit answers every request that is not killed, once it has worked on it, with the result
of the instruction, whatever its parameters are. -/
theorem muldiv_answers_result (p : Params) (s : Regs) (i : In) (r : MultiplierReq) (op : MulOp)
    (hs : s.state = .ready) (hi : i.req = some r) (hop : r.fn = op.fn)
    (hform : r.dw = false → op.HasWordForm) (f : ℕ → In) (hf : ∀ n, (f n).kill = false) :
    ∃ n,
      let t k := (machine p).run (next p s i) (Sync.Machine.firstInputs f k)
      respValid (t n) = true ∧ respData (t n) = op.wordResult r.dw r.in1 r.in2 ∧
        respTag (t n) = r.tag ∧ ∀ k < n, respValid (t k) = false := by
  have haccept : next p s i = accept p r := by simp [next, hi, reqReady, hs]
  have hsame : p.cmdMul r.fn = false → p.lhsSigned r.fn = p.rhsSigned r.fn := by
    rw [hop]
    exact signed_eq p op
  obtain ⟨n, hn, hbefore⟩ := (leads_ends hsame).exists_run f fun k => hf k
  rw [haccept]
  refine ⟨n, by simp [respValid, hn.state], hn.respData_eq hop hform, by rw [respTag, hn.req],
    fun k hk => ?_⟩
  simpa [respValid] using (hbefore k hk).2

/-- The most negative number divided by minus one, on words and in the fast unit. -/
theorem muldiv_answers_overflow :
    ∃ n,
      let t k := (machine (.core true)).run
        (next (.core true) Regs.init
          ⟨some ⟨FN_DIV, false, 0x80000000, 0xFFFFFFFF, 7⟩, false, true⟩)
        (Sync.Machine.firstInputs (fun _ => ⟨none, false, true⟩) k)
      respValid (t n) = true ∧ respData (t n) = 0xFFFFFFFF80000000 ∧ respTag (t n) = 7 ∧
        ∀ k < n, respValid (t k) = false :=
  muldiv_answers_result (.core true) _ _ ⟨FN_DIV, false, 0x80000000, 0xFFFFFFFF, 7⟩ .DIV rfl rfl rfl
    (fun _ => trivial) _ fun _ => rfl

end Result

end TaggedRiscv.Core.MulDiv
