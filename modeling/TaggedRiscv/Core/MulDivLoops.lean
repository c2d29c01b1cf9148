import TaggedRiscv.Core.MulDiv

/-!
# The loops of the multiplier and divider

Every cycle of a multiplication consumes the next bits of one operand, and every cycle of a division
looks at the next bit of the dividend; the register is what it should be after the bits done so far.
-/

namespace TaggedRiscv.Core.MulDiv
open SeqArith BitVec

/-! ## Multiplication -/

section Mul

variable (p : Params) (s : Regs)

theorem mplier_eq : mplier s = s.remainder.extractLsb' 0 64 :=
  BitVec.extractLsb'_append_eq_right

theorem accum_eq : accum s = s.remainder.extractLsb' 65 65 :=
  BitVec.extractLsb'_append_eq_left

theorem toInt_mulReg : (mulReg s).toInt = 2 ^ 64 * (accum s).toInt + (mplier s).toNat := by
  rw [accum_eq, mplier_eq, mulReg, toInt_append]
  rfl

/-- The product has room for every carry. -/
theorem toInt_prod : (prod p s).toInt =
    (mplier s).toNat % 2 ^ p.mulUnroll * s.divisor.toInt + (accum s).toInt := by
  have hlow : (((mplier s).extractLsb' 0 p.mulUnroll).setWidth (p.mulUnroll + 65)).toInt =
      (mplier s).toNat % 2 ^ p.mulUnroll := by
    have hlt := ((mplier s).extractLsb' 0 p.mulUnroll).isLt
    have hpow : 2 ^ p.mulUnroll < 2 ^ (p.mulUnroll + 64) :=
      Nat.pow_lt_pow_right one_lt_two (by omega)
    have hmod : (((mplier s).extractLsb' 0 p.mulUnroll).setWidth (p.mulUnroll + 65)).toNat =
        (mplier s).toNat % 2 ^ p.mulUnroll := by
      rw [toNat_setWidth_of_le (by omega), BitVec.extractLsb'_toNat, Nat.shiftRight_zero]
    rw [toInt_eq_toNat_of_lt, hmod]
    · push_cast; rfl
    · rw [toNat_setWidth_of_le (by omega), pow_succ]; omega
  have hd := s.divisor.le_toInt
  have hd' := toInt_lt (x := s.divisor)
  have ha := (accum s).le_toInt
  have ha' := toInt_lt (x := accum s)
  have hq : 0 ≤ ((mplier s).toNat : ℤ) % 2 ^ p.mulUnroll := Int.emod_nonneg _ (by positivity)
  have hq' : ((mplier s).toNat : ℤ) % 2 ^ p.mulUnroll + 1 ≤ 2 ^ p.mulUnroll :=
    Int.emod_lt_of_pos _ (by positivity)
  have hpow : (2 : ℤ) ^ (p.mulUnroll + 65) = 2 ^ p.mulUnroll * 2 ^ 65 := pow_add _ _ _
  rw [prod, toInt_add, toInt_mul, hlow, toInt_signExtend_of_le (by omega),
    toInt_signExtend_of_le (by omega), Int.bmod_add_bmod]
  obtain ⟨hlo, hhi⟩ := mul_add_mem hq hq' hd hd' ha ha'
  apply Int.bmod_eq_of_le_mul_two
  · rw [Nat.cast_pow, Nat.cast_ofNat, hpow]
    omega
  · rw [Nat.cast_pow, Nat.cast_ofNat, hpow]
    omega

theorem toInt_nextMulReg :
    (nextMulReg p s).toInt = mulStep 64 p.mulUnroll s.divisor.toInt (mulReg s).toInt := by
  have hu := p.unroll_lt.le
  have hpow : (2 : ℤ) ^ 64 = 2 ^ (64 - p.mulUnroll) * 2 ^ p.mulUnroll := by
    rw [← pow_add, Nat.sub_add_cancel hu]
  have hrest : (((mplier s).extractLsb' p.mulUnroll (64 - p.mulUnroll)).toNat : ℤ) =
      (mplier s).toNat / 2 ^ p.mulUnroll := by
    rw [BitVec.extractLsb'_toNat, Nat.shiftRight_eq_div_pow, Nat.mod_eq_of_lt]
    · push_cast; rfl
    · rw [Nat.div_lt_iff_lt_mul (by positivity), ← pow_add, Nat.sub_add_cancel hu]
      exact (mplier s).isLt
  have hm : (mulReg s).toInt =
      (mplier s).toNat + 2 ^ (64 - p.mulUnroll) * (accum s).toInt * 2 ^ p.mulUnroll := by
    rw [toInt_mulReg, hpow]; ring
  rw [mulStep, hm, Int.add_mul_ediv_right _ _ (by positivity), Int.add_mul_emod_self_right,
    nextMulReg, toInt_cast]
  rw [toInt_append, if_neg (by simp), toInt_prod, hrest]
  ring

/-- The number of bits of the multiplier that have been consumed. -/
def bitsDone : ℕ := s.count.toNat * p.mulUnroll

variable {p s}

theorem consumed_toNat (h : bitsDone p s < 64) : (consumed p s).toNat = bitsDone p s := by
  rw [consumed, toNat_ofNat]
  exact Nat.mod_eq_of_lt h

theorem getLsbD_eOutMask (h : bitsDone p s < 64) {i : ℕ} (hi : i < 64) :
    (eOutMask p s).getLsbD i = decide (64 ≤ bitsDone p s + i) := by
  have hmask : BitVec.ofInt 65 (-2 ^ 64) = BitVec.twoPow 65 64 := by decide
  rw [eOutMask, getLsbD_extractLsb', consumed_toNat h, hmask, zero_add,
    getLsbD_sshiftRight, getLsbD_twoPow, msb_twoPow]
  by_cases hlt : bitsDone p s + i < 65
  · simp [hlt, hi, show ¬ 65 ≤ i by omega]
    omega
  · simp [hlt, hi, show ¬ 65 ≤ i by omega]
    omega

/-- The multiplier stops early when no bit is left to consume. -/
theorem mplier_mod_of_mulEOut (h : bitsDone p s < 64) (he : mulEOut p s) :
    (mplier s).toNat % 2 ^ (64 - bitsDone p s) = 0 := by
  have hmask : mplier s &&& ~~~ eOutMask p s = 0 := by
    simp only [mulEOut, Bool.and_eq_true, beq_iff_eq] at he
    exact he.2
  apply Nat.eq_of_testBit_eq
  intro i
  rw [Nat.testBit_mod_two_pow, Nat.zero_testBit, Bool.and_eq_false_iff, decide_eq_false_iff_not]
  refine or_iff_not_imp_left.mpr fun hi => ?_
  have hi' : i < 64 := by omega
  have hbit := congrArg (fun x => x.getLsbD i) hmask
  simp only [getLsbD_and, getLsbD_not, hi', decide_true,
    getLsbD_eOutMask h hi', show ¬ 64 ≤ bitsDone p s + i by omega, decide_false, Bool.not_false,
    Bool.and_true] at hbit
  simpa [testBit_toNat] using hbit

theorem accum_mulCycle :
    (mulCycle p s).remainder.extractLsb' 65 65 = (nextMulReg1 p s).extractLsb' 64 65 := by
  change ((_ ++ 0#1 ++ _ : BitVec (65 + 1 + 64))).extractLsb' 65 65 = _
  rw [BitVec.extractLsb'_append_eq_of_le (by omega), BitVec.extractLsb'_append_eq_of_le (by omega),
    BitVec.extractLsb'_eq_self]

theorem mplier_mulCycle :
    (mulCycle p s).remainder.extractLsb' 0 64 = (nextMulReg1 p s).extractLsb' 0 64 :=
  BitVec.extractLsb'_append_eq_right

/-- The high word of the product is where the remainder of a division is. -/
theorem high_mulCycle :
    (mulCycle p s).remainder.extractLsb' 65 64 = (nextMulReg1 p s).extractLsb' 64 64 := by
  change ((_ ++ 0#1 ++ _ : BitVec (65 + 1 + 64))).extractLsb' 65 64 = _
  rw [BitVec.extractLsb'_append_eq_of_le (by omega), BitVec.extractLsb'_append_eq_of_le (by omega)]
  ext i hi
  simp [show i < 65 by omega]

theorem append_extract (m : BitVec 129) : m.extractLsb' 64 65 ++ m.extractLsb' 0 64 = m :=
  (BitVec.extractLsb'_append_extractLsb'_eq_extractLsb' rfl).trans BitVec.extractLsb'_eq_self

theorem mulReg_mulCycle : mulReg (mulCycle p s) = nextMulReg1 p s := by
  rw [mulReg, accum_mulCycle, mplier_mulCycle, append_extract]

theorem nextMulReg1_eq (he : mulEOut p s = false) : nextMulReg1 p s = nextMulReg p s := by
  rw [nextMulReg1, he]
  exact append_extract _

/-- A multiplication under way: the product of `x` and `y` for the request `r`, with the bits
consumed so far. -/
structure MulPhase (p : Params) (r : MultiplierReq) (hi : Bool) (x y : ℤ) (s : Regs) : Prop where
  state : s.state = .busy
  isMul : s.isMul
  req : s.req = r
  isHi : s.isHi = hi
  negOut : s.negOut = false
  divisor : s.divisor.toInt = y
  nonneg : 0 ≤ x
  lt : x < 2 ^ 64
  bitsDone : bitsDone p s < 64
  mulReg : (mulReg s).toInt = partialProduct 64 x y (MulDiv.bitsDone p s)

/-- A multiplication after its last cycle: the word asked for is in its place. -/
structure MulEnd (r : MultiplierReq) (hi : Bool) (x y : ℤ) (s : Regs) : Prop where
  state : s.state = if hi then .moveRem else .done
  req : s.req = r
  negOut : s.negOut = false
  high : hi → s.remainder.extractLsb' 65 64 = BitVec.ofInt 64 (x * y / 2 ^ 64)
  low : hi = false → s.remainder.extractLsb' 0 64 = BitVec.ofInt 64 (x * y)

variable {r : MultiplierReq} {hi : Bool} {x y : ℤ}

theorem bitsDone_add_le (h : bitsDone p s < 64) : bitsDone p s + p.mulUnroll ≤ 64 := by
  obtain ⟨k, hk⟩ := p.unroll_dvd
  unfold bitsDone at h ⊢
  rw [hk, mul_comm] at h
  calc s.count.toNat * p.mulUnroll + p.mulUnroll = (s.count.toNat + 1) * p.mulUnroll := by ring
    _ ≤ k * p.mulUnroll := Nat.mul_le_mul_right _ (Nat.lt_of_mul_lt_mul_left h)
    _ = 64 := by rw [mul_comm, ← hk]

/-- The last cycle is the one that consumes the last bits. -/
theorem count_eq_lastMul_iff :
    s.count = lastMul p ↔ bitsDone p s + p.mulUnroll = 64 := by
  obtain ⟨k, hk⟩ := p.unroll_dvd
  have hu := p.unroll_pos
  have hdiv : 64 / p.mulUnroll = k := by rw [hk, Nat.mul_div_cancel_left _ hu]
  have hk0 : 0 < k := Nat.pos_of_ne_zero fun h0 => by simp [h0] at hk
  have hkle : k ≤ 64 := hdiv ▸ Nat.div_le_self _ _
  have hlast : (lastMul p).toNat = k - 1 := by
    rw [lastMul, toNat_ofNat, hdiv, Nat.mod_eq_of_lt (by omega)]
  have hsum : bitsDone p s + p.mulUnroll = p.mulUnroll * (s.count.toNat + 1) := by
    rw [bitsDone]; ring
  rw [toNat_eq, hlast, hsum, hk, Nat.mul_left_cancel_iff hu]
  omega

theorem count_lt (h : bitsDone p s < 64) : s.count.toNat < 64 :=
  (Nat.le_mul_of_pos_right _ p.unroll_pos).trans_lt h

theorem MulPhase.nextMulReg (h : MulPhase p r hi x y s) :
    (nextMulReg p s).toInt = partialProduct 64 x y (MulDiv.bitsDone p s + p.mulUnroll) := by
  rw [toInt_nextMulReg, h.mulReg, h.divisor, mulStep_partialProduct (bitsDone_add_le h.bitsDone)]

/-- An operation that stops early has the whole product, not yet moved down. -/
theorem MulPhase.mulReg_of_mulEOut (h : MulPhase p r hi x y s) (he : mulEOut p s) :
    (MulDiv.mulReg s).toInt = x * y * 2 ^ (64 - MulDiv.bitsDone p s) := by
  have hc := h.bitsDone.le
  have hmod : x / 2 ^ MulDiv.bitsDone p s = 0 := by
    rw [← partialProduct_emod (y := y) h.nonneg h.lt hc, ← h.mulReg, toInt_mulReg]
    have hdvd : (2 : ℤ) ^ (64 - MulDiv.bitsDone p s) ∣ 2 ^ 64 * (accum s).toInt :=
      Dvd.dvd.mul_right (pow_dvd_pow 2 (Nat.sub_le _ _)) _
    rw [Int.add_emod, Int.emod_eq_zero_of_dvd hdvd, zero_add, Int.emod_emod]
    exact_mod_cast mplier_mod_of_mulEOut h.bitsDone he
  rw [h.mulReg]
  refine partialProduct_of_lt h.nonneg ?_
  have hx := Int.lt_ediv_add_one_mul_self x (show (0 : ℤ) < 2 ^ MulDiv.bitsDone p s by positivity)
  rwa [hmod, zero_add, one_mul] at hx

theorem MulPhase.eOutRes (h : MulPhase p r hi x y s) (he : mulEOut p s) :
    (eOutRes p s).extractLsb' 0 64 = BitVec.ofInt 64 (x * y) := by
  have hne : s.count ≠ 0 := by
    simp only [mulEOut, Bool.and_eq_true, bne_iff_ne] at he
    exact he.1.1.2
  have hpos : 0 < MulDiv.bitsDone p s :=
    Nat.mul_pos (Nat.pos_of_ne_zero fun h0 => hne (eq_of_toNat_eq h0)) p.unroll_pos
  have hlt := h.bitsDone
  have hshift : (BitVec.ofNat 6 64 - consumed p s).toNat = 64 - MulDiv.bitsDone p s := by
    rw [toNat_sub, consumed_toNat h.bitsDone]
    simp
    omega
  have hfield : (MulDiv.eOutRes p s).extractLsb' 0 64 =
      (MulDiv.mulReg s).extractLsb' (64 - MulDiv.bitsDone p s) 64 := by
    rw [MulDiv.eOutRes, hshift]
    ext i hi
    simp
  rw [hfield, extractLsb'_eq_ofInt _ (by omega), h.mulReg_of_mulEOut he,
    Int.mul_ediv_cancel _ (by positivity)]

/-- A cycle of a multiplication consumes the next bits, or is the last one. -/
theorem MulPhase.mulCycle (h : MulPhase p r hi x y s) :
    MulPhase p r hi x y (mulCycle p s) ∧ (mulCycle p s).count.toNat = s.count.toNat + 1 ∨
      MulEnd r hi x y (mulCycle p s) := by
  by_cases he : mulEOut p s
  · refine .inr ?_
    have hlo : s.isHi = false := by
      simp only [mulEOut, Bool.and_eq_true, Bool.not_eq_true'] at he
      exact he.1.2
    refine ⟨?_, h.req, h.negOut, fun hhi => ?_, fun _ => ?_⟩
    · simp [MulDiv.mulCycle, he, ← h.isHi]
    · exact absurd (h.isHi.trans hhi) (by simp [hlo])
    · rw [mplier_mulCycle, nextMulReg1, if_pos he, BitVec.extractLsb'_append_eq_right, h.eOutRes he]
  · rw [Bool.not_eq_true] at he
    by_cases hlast : s.count = lastMul p
    · have hprod : (MulDiv.nextMulReg p s).toInt = x * y := by
        rw [h.nextMulReg, count_eq_lastMul_iff.mp hlast, partialProduct_width h.nonneg h.lt]
      refine .inr ⟨?_, h.req, h.negOut, fun _ => ?_, fun _ => ?_⟩
      · simp [MulDiv.mulCycle, hlast, ← h.isHi]
      · rw [high_mulCycle, nextMulReg1_eq he, extractLsb'_eq_ofInt _ (by omega), hprod]
      · rw [mplier_mulCycle, nextMulReg1_eq he, extractLsb'_eq_ofInt _ (by omega), hprod, pow_zero,
          Int.ediv_one]
    · have hcount : (MulDiv.mulCycle p s).count.toNat = s.count.toNat + 1 := by
        have hlt := count_lt h.bitsDone
        change (s.count + 1).toNat = _
        rw [toNat_add]
        exact Nat.mod_eq_of_lt (by simpa using by omega)
      have hbits : MulDiv.bitsDone p (MulDiv.mulCycle p s) = MulDiv.bitsDone p s + p.mulUnroll := by
        rw [MulDiv.bitsDone, hcount, MulDiv.bitsDone]; ring
      have hlt : MulDiv.bitsDone p s + p.mulUnroll < 64 :=
        lt_of_le_of_ne (bitsDone_add_le h.bitsDone) (mt count_eq_lastMul_iff.mpr hlast)
      refine .inl
        ⟨⟨?_, h.isMul, h.req, h.isHi, h.negOut, h.divisor, h.nonneg, h.lt, ?_, ?_⟩, hcount⟩
      · simp [MulDiv.mulCycle, he, hlast, h.state]
      · rwa [hbits]
      · rw [hbits, mulReg_mulCycle, nextMulReg1_eq he, h.nextMulReg]

/-- The unit has an operation to work on. -/
def Working (s : Regs) : Prop := s.state ≠ .ready ∧ s.state ≠ .done

/-- An operation under way depends on no input but the kill. -/
theorem next_eq_advance (h : Working s) (i : In) (hi : i.kill = false) :
    next p s i = advance p s := by
  have hready : reqReady s = false := by simp [reqReady, h.1]
  have hvalid : respValid s = false := by simp [respValid, h.2]
  simp [next, hready, hvalid, hi]

theorem leads_advance {Q : Regs → Prop} (h : Working s)
    (hl : (machine p).Leads Working Q (advance p s)) : (machine p).Leads Working Q s :=
  .step_eq h (fun i hi => next_eq_advance h i hi) hl

theorem working_of_busy (h : s.state = .busy) : Working s := by
  constructor <;> simp [h]

/-- The multiplication ends: the cycles left are counted by the bits left. -/
theorem MulPhase.leads (h : MulPhase p r hi x y s) :
    (machine p).Leads Working (MulEnd r hi x y) s := by
  induction hk : 64 - s.count.toNat generalizing s with
  | zero => exact absurd (count_lt h.bitsDone) (by omega)
  | succ k ih =>
    refine leads_advance (working_of_busy h.state) ?_
    simp only [advance, h.state, h.isMul, if_true]
    rcases h.mulCycle with ⟨hnext, hcount⟩ | hend
    · exact ih hnext (by omega)
    · exact .here hend

end Mul

/-! ## Division -/

section Div

variable {p : Params} {s : Regs} {r : MultiplierReq} {hi neg : Bool} {n d : ℕ}

/-- The top of the register less the divisor is negative when the divisor does not fit. -/
theorem less_eq (hR : s.remainder.toNat < 2 ^ 129) (hd : s.divisor.toNat < 2 ^ 64)
    (hfit : s.remainder.toNat / 2 ^ 64 - s.divisor.toNat < 2 ^ 64) :
    less s = decide (s.remainder.toNat / 2 ^ 64 < s.divisor.toNat) := by
  have htop : (s.remainder.extractLsb' 64 65).toNat = s.remainder.toNat / 2 ^ 64 := by
    rw [BitVec.extractLsb'_toNat, Nat.shiftRight_eq_div_pow, Nat.mod_eq_of_lt (by omega)]
  rw [less, show (64 : ℕ) = 65 - 1 from rfl, ← msb_eq_getLsbD_last, msb_eq_decide,
    subtractor, toNat_sub, htop]
  congr 1
  apply propext
  omega

theorem toNat_divCycle (he : divEOut p s = false) (hR : s.remainder.toNat < 2 ^ 129)
    (hd : s.divisor.toNat < 2 ^ 64) (hfit : s.remainder.toNat / 2 ^ 64 - s.divisor.toNat < 2 ^ 64) :
    (divCycle p s).remainder.toNat = divStep 64 s.divisor.toNat s.remainder.toNat := by
  have hless := less_eq hR hd hfit
  have hrem : (divCycle p s).remainder =
      ((if less s then s.remainder.extractLsb' 64 64 else (subtractor s).extractLsb' 0 64) ++
        s.remainder.extractLsb' 0 64 ++ BitVec.ofBool (!less s)).setWidth 130 := by
    simp [divCycle, he]
  rw [hrem, toNat_setWidth_of_le (by omega), toNat_append, toNat_append,
    ← Nat.shiftLeft_add_eq_or_of_lt (BitVec.isLt _),
    ← Nat.shiftLeft_add_eq_or_of_lt (BitVec.isLt _),
    Nat.shiftLeft_eq, Nat.shiftLeft_eq, toNat_ofBool, divStep]
  by_cases hlt : s.remainder.toNat / 2 ^ 64 < s.divisor.toNat
  · rw [hless]
    simp only [hlt, decide_true, if_true, Bool.not_true, Bool.toNat_false,
      BitVec.extractLsb'_toNat, Nat.shiftRight_eq_div_pow]
    omega
  · rw [hless]
    simp only [hlt, decide_false, if_false, Bool.not_false, Bool.toNat_true,
      BitVec.extractLsb'_toNat, Nat.shiftRight_eq_div_pow, subtractor, toNat_sub,
      Bool.false_eq_true]
    omega

theorem toNat_ofNat_log2 {x : ℕ} (hx : x < 2 ^ 64) : (BitVec.ofNat 6 x.log2).toNat = x.log2 := by
  rw [toNat_ofNat]
  refine Nat.mod_eq_of_lt ?_
  rcases eq_or_ne x 0 with rfl | hx0
  · decide
  · exact (Nat.log2_lt hx0).mpr hx

/-- A division under way: `n` by `d` for the request `r`, after `count` steps. The sign of the
result is forgotten in the first cycle of a division by zero. -/
structure DivPhase (r : MultiplierReq) (hi neg : Bool) (n d : ℕ) (s : Regs) : Prop where
  state : s.state = .busy
  isMul : s.isMul = false
  req : s.req = r
  isHi : s.isHi = hi
  negOut : (s.negOut && !(s.count == 0 && d == 0 && !hi)) = neg
  divisor : s.divisor.toNat = d
  divisor_lt : d < 2 ^ 64
  lt : n < 2 ^ 64
  count : s.count.toNat ≤ 64
  remainder : s.remainder.toNat = partialDivision 64 d n s.count.toNat

/-- A division after its last cycle. -/
structure DivEnd (r : MultiplierReq) (hi neg : Bool) (n d : ℕ) (s : Regs) : Prop where
  state : s.state = if hi then .moveRem else if neg then .negOutput else .done
  req : s.req = r
  negOut : s.negOut = neg
  high : hi → s.remainder.extractLsb' 65 64 = BitVec.ofNat 64 (n % d)
  low : hi = false → s.remainder.extractLsb' 0 64 = BitVec.ofNat 64 (quotientBits d 65 n)

namespace DivPhase

variable (h : DivPhase r hi neg n d s)

include h

theorem remainder_lt : s.remainder.toNat < 2 ^ 129 :=
  h.remainder ▸ partialDivision_lt h.lt (h.count.trans (by omega))

theorem divStep_eq :
    divStep 64 d s.remainder.toNat = partialDivision 64 d n (s.count.toNat + 1) := by
  rw [h.remainder, divStep_partialDivision h.lt h.count]

theorem fits : s.remainder.toNat / 2 ^ 64 - s.divisor.toNat < 2 ^ 64 := by
  have hlt : divStep 64 d s.remainder.toNat < 2 ^ 129 := by
    rw [h.divStep_eq]
    exact partialDivision_lt h.lt (Nat.succ_le_succ h.count)
  have hd := h.divisor_lt
  rw [h.divisor]
  unfold divStep at hlt
  split_ifs at hlt <;> omega

theorem less_eq : less s = decide (s.remainder.toNat / 2 ^ 64 < d) := by
  have hless := MulDiv.less_eq h.remainder_lt (h.divisor ▸ h.divisor_lt) h.fits
  rwa [h.divisor] at hless

theorem remainder_first (h0 : s.count = 0) : s.remainder.toNat = n := by
  rw [h.remainder, h0]
  exact partialDivision_zero h.lt

/-- In the first cycle the divisor fits only if it is zero. -/
theorem less_first (h0 : s.count = 0) : less s = !(d == 0) := by
  have hn := h.lt
  rw [h.less_eq, h.remainder_first h0, Nat.div_eq_of_lt hn]
  rcases Nat.eq_zero_or_pos d with rfl | hd
  · rfl
  · simp [hd, hd.ne']

theorem divisorMSB_toNat : (divisorMSB s).toNat = d.log2 := by
  have hd : (s.divisor.extractLsb' 0 64).toNat = d := by
    rw [BitVec.extractLsb'_toNat, Nat.shiftRight_zero, h.divisor, Nat.mod_eq_of_lt h.divisor_lt]
  rw [divisorMSB, hd, toNat_ofNat_log2 h.divisor_lt]

theorem toNat_dividend (h0 : s.count = 0) : (s.remainder.extractLsb' 0 64).toNat = n := by
  rw [BitVec.extractLsb'_toNat, Nat.shiftRight_zero, h.remainder_first h0, Nat.mod_eq_of_lt h.lt]

theorem dividendMSB_toNat (h0 : s.count = 0) : (dividendMSB s).toNat = n.log2 := by
  have hn := h.toNat_dividend h0
  rw [dividendMSB, hn, toNat_ofNat_log2 h.lt]

/-- The steps that are skipped give no bit of the quotient: the bits of the dividend looked at are
fewer than those of the divisor. -/
theorem shift_spec (he : divEOut p s) :
    0 < (shift s).toNat ∧ n / 2 ^ (65 - (shift s).toNat) < d := by
  simp only [divEOut, Bool.and_eq_true, beq_iff_eq, Bool.or_eq_true, decide_eq_true_eq] at he
  obtain ⟨⟨⟨-, h0⟩, hless⟩, hpos⟩ := he
  have hd0 : d ≠ 0 := by
    rw [h.less_first h0] at hless
    simpa using hless
  have hn : n < 2 ^ (n.log2 + 1) := Nat.lt_log2_self
  have hd : 2 ^ d.log2 ≤ d := Nat.log2_self_le hd0
  have hzero : eOutZero s = decide (n.log2 < d.log2) := by
    simp only [eOutZero, lt_def, h.divisorMSB_toNat, h.dividendMSB_toNat h0]
  by_cases hlt : n.log2 < d.log2
  · have hshift : shift s = 63 := by simp [shift, hzero, hlt]
    rw [hshift]
    refine ⟨by decide, ?_⟩
    calc n / 2 ^ 2 ≤ n := Nat.div_le_self _ _
      _ < 2 ^ (n.log2 + 1) := hn
      _ ≤ 2 ^ d.log2 := Nat.pow_le_pow_right two_pos hlt
      _ ≤ d := hd
  · have hshift : shift s = eOutPos s := by simp [shift, hzero, hlt]
    have hn64 : n.log2 < 64 := by
      rw [← h.dividendMSB_toNat h0]
      exact (dividendMSB s).isLt
    have hpos' : (eOutPos s).toNat = 63 - (n.log2 - d.log2) := by
      rw [eOutPos, toNat_sub, toNat_add, h.divisorMSB_toNat, h.dividendMSB_toNat h0]
      simp
      omega
    have hne : 0 < (eOutPos s).toNat := by
      rcases hpos with hpos | hpos
      · exact lt_def.mp hpos
      · rw [hzero] at hpos
        exact absurd (of_decide_eq_true hpos) hlt
    rw [hshift]
    refine ⟨hne, (Nat.div_lt_of_lt_mul ?_).trans_le hd⟩
    rw [hpos'] at hne ⊢
    rw [← pow_add]
    exact hn.trans_le (Nat.pow_le_pow_right two_pos (by omega))

/-- Skipping steps leaves the register as the steps would. -/
theorem toNat_divCycle_of_divEOut (he : divEOut p s) :
    (divCycle p s).remainder.toNat = partialDivision 64 d n (shift s).toNat := by
  have h0 : s.count = 0 := by
    simp only [divEOut, Bool.and_eq_true, beq_iff_eq] at he
    exact he.1.1.2
  have hlt := (shift s).isLt
  have hn := h.toNat_dividend h0
  have hrem : (divCycle p s).remainder =
      (s.remainder.extractLsb' 0 64).setWidth 130 <<< (shift s).toNat := by
    simp [divCycle, he]
  have hfits : n * 2 ^ (shift s).toNat < 2 ^ 130 := by
    calc n * 2 ^ (shift s).toNat < 2 ^ 64 * 2 ^ 66 :=
          Nat.mul_lt_mul_of_lt_of_le h.lt (Nat.pow_le_pow_right two_pos (by omega)) (by positivity)
      _ = 2 ^ 130 := by norm_num
  rw [hrem, toNat_shiftLeft, toNat_setWidth_of_le (by omega), hn, Nat.shiftLeft_eq,
    Nat.mod_eq_of_lt hfits, partialDivision_of_lt (by omega) (h.shift_spec he).2]

/-- The sign after a cycle is the one that the result gets. -/
theorem negOut_divCycle : (divCycle p s).negOut = neg := by
  have hneg := h.negOut
  rw [divCycle, h.isHi]
  by_cases h0 : s.count = 0
  · rw [h.less_first h0]
    simp only [h0, beq_self_eq_true, Bool.true_and, Bool.not_not] at hneg ⊢
    rw [← hneg]
    cases (d == 0 && !hi) <;> simp
  · have hfalse : (s.count == 0) = false := beq_eq_false_iff_ne.mpr h0
    simpa only [hfalse, Bool.false_and, Bool.not_false, Bool.and_true, Bool.false_eq_true,
      if_false] using hneg

theorem remainder_divCycle (he : divEOut p s = false) :
    (divCycle p s).remainder.toNat = partialDivision 64 d n (s.count.toNat + 1) := by
  rw [toNat_divCycle he h.remainder_lt (h.divisor ▸ h.divisor_lt) h.fits, h.divisor, h.divStep_eq]

/-- The last cycle leaves the quotient below and the remainder above. -/
theorem last_divCycle (hlast : s.count = 64) : DivEnd r hi neg n d (divCycle p s) := by
  have h0 : (s.count == 0) = false := by rw [hlast]; decide
  have he : divEOut p s = false := by
    rw [divEOut, h0, Bool.and_false, Bool.false_and, Bool.false_and]
  have hneg : s.negOut = neg := by
    simpa only [h0, Bool.false_and, Bool.not_false, Bool.and_true] using h.negOut
  have hrem : (divCycle p s).remainder.toNat = n % d * 2 ^ 65 + quotientBits d 65 n := by
    rw [h.remainder_divCycle he, hlast]
    exact partialDivision_succ_width
  have hq : quotientBits d 65 n < 2 ^ 65 :=
    quotientBits_lt (h.lt.trans (Nat.pow_lt_pow_right one_lt_two (by omega)))
  refine ⟨?_, h.req, h.negOut_divCycle, fun _ => ?_, fun _ => ?_⟩
  · simp [divCycle, hlast, h.isHi, hneg]
  · apply eq_of_toNat_eq
    rw [BitVec.extractLsb'_toNat, hrem, toNat_ofNat, Nat.shiftRight_eq_div_pow]
    omega
  · apply eq_of_toNat_eq
    rw [BitVec.extractLsb'_toNat, hrem, toNat_ofNat, Nat.shiftRight_zero]
    omega

/-- A cycle that is not the last takes one step or skips some. -/
theorem next_divCycle (hlast : s.count ≠ 64) :
    DivPhase r hi neg n d (divCycle p s) ∧ s.count.toNat < (divCycle p s).count.toNat := by
  have hlt : s.count.toNat < 64 :=
    lt_of_le_of_ne h.count fun h64 => hlast (eq_of_toNat_eq h64)
  have hstate : (divCycle p s).state = .busy := by
    rw [divCycle, beq_eq_false_iff_ne.mpr hlast]
    exact h.state
  -- the count grows, and with it the part of the dividend looked at
  have hcount : s.count.toNat < (divCycle p s).count.toNat ∧ (divCycle p s).count.toNat ≤ 64 ∧
      (divCycle p s).remainder.toNat = partialDivision 64 d n (divCycle p s).count.toNat := by
    by_cases he : divEOut p s
    · have hc : (divCycle p s).count.toNat = (shift s).toNat := by
        rw [divCycle, he, if_pos rfl, toNat_setWidth_of_le (by omega)]
      have h0 : s.count = 0 := by
        simp only [divEOut, Bool.and_eq_true, beq_iff_eq] at he
        exact he.1.1.2
      have hle := (shift s).isLt
      rw [hc, h0]
      exact ⟨(h.shift_spec he).1, by omega, h.toNat_divCycle_of_divEOut he⟩
    · rw [Bool.not_eq_true] at he
      have hc : (divCycle p s).count.toNat = s.count.toNat + 1 := by
        have hcount : (divCycle p s).count = s.count + 1 := by simp [divCycle, he]
        rw [hcount, toNat_add]
        exact Nat.mod_eq_of_lt (by simpa using by omega)
      rw [hc]
      exact ⟨by omega, by omega, h.remainder_divCycle he⟩
  obtain ⟨hgrow, hle, hrem⟩ := hcount
  have hne : ((divCycle p s).count == 0) = false := by
    refine beq_eq_false_iff_ne.mpr fun h0 => ?_
    rw [h0] at hgrow
    exact absurd hgrow (Nat.not_lt_zero _)
  refine ⟨⟨hstate, h.isMul, h.req, h.isHi, ?_, h.divisor, h.divisor_lt, h.lt, hle, hrem⟩, hgrow⟩
  simpa only [hne, Bool.false_and, Bool.not_false, Bool.and_true] using h.negOut_divCycle

/-- The division ends. -/
theorem leads : (machine p).Leads Working (DivEnd r hi neg n d) s := by
  induction hk : 64 - s.count.toNat using Nat.strong_induction_on generalizing s with
  | _ k ih =>
    refine leads_advance (working_of_busy h.state) ?_
    simp only [advance, h.state, h.isMul, Bool.false_eq_true, if_false]
    by_cases hlast : s.count = 64
    · exact .here (h.last_divCycle hlast)
    · obtain ⟨hnext, hgrow⟩ := h.next_divCycle (p := p) hlast
      have hle := hnext.count
      exact ih _ (by omega) hnext rfl

end DivPhase

end Div


/-! ## The end of an operation -/

section Ends

variable {p : Params} {s : Regs} {r : MultiplierReq} {hi neg : Bool} {x y : ℤ} {n d : ℕ}

/-- The unit offers the word `v` as the result of the request `r`. -/
structure Ends (r : MultiplierReq) (v : BitVec 64) (s : Regs) : Prop where
  state : s.state = .done
  req : s.req = r
  value : s.remainder.extractLsb' 0 64 = v

theorem low_setWidth (v : BitVec 64) : (v.setWidth 130).extractLsb' 0 64 = v := by
  ext i hi
  simp [show i < 130 by omega, getLsbD_eq_getElem, hi]

theorem leads_negOutput (h : s.state = .negOutput) :
    (machine p).Leads Working (Ends s.req (-s.remainder.extractLsb' 0 64)) s := by
  refine leads_advance (by constructor <;> simp [h]) (.here ?_)
  simp only [advance, h]
  exact ⟨rfl, rfl, low_setWidth _⟩

theorem leads_moveRem (h : s.state = .moveRem) :
    (machine p).Leads Working
      (Ends s.req (if s.negOut then -s.remainder.extractLsb' 65 64
        else s.remainder.extractLsb' 65 64)) s := by
  refine leads_advance (by constructor <;> simp [h]) ?_
  simp only [advance, h]
  cases hneg : s.negOut with
  | false => exact .here ⟨if_neg (by simp [hneg]), rfl, low_setWidth _⟩
  | true =>
    have hlow : (moveRemainder s).remainder.extractLsb' 0 64 = s.remainder.extractLsb' 65 64 :=
      low_setWidth _
    rw [if_pos rfl, ← hlow]
    exact leads_negOutput (s := moveRemainder s) (if_pos hneg)

theorem MulEnd.leads (h : MulEnd r hi x y s) :
    (machine p).Leads Working
      (Ends r (BitVec.ofInt 64 (if hi then x * y / 2 ^ 64 else x * y))) s := by
  cases hi with
  | false => exact .here ⟨h.state, h.req, h.low rfl⟩
  | true =>
    have hl := leads_moveRem (p := p) h.state
    rwa [h.req, h.negOut, h.high rfl] at hl

theorem DivEnd.leads (h : DivEnd r hi neg n d s) :
    (machine p).Leads Working
      (Ends r (let v := BitVec.ofNat 64 (if hi then n % d else quotientBits d 65 n)
        if neg then -v else v)) s := by
  cases hi with
  | true =>
    have hl := leads_moveRem (p := p) h.state
    rwa [h.req, h.negOut, h.high rfl] at hl
  | false =>
    cases neg with
    | false => exact .here ⟨h.state, h.req, h.low rfl⟩
    | true =>
      have hl := leads_negOutput (p := p) h.state
      rwa [h.req, h.low rfl] at hl

end Ends

end TaggedRiscv.Core.MulDiv
