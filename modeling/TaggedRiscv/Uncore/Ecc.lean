import TaggedRiscv.Lib.Hamming

/-!
# Error-correcting codes

The codes of `ecc.scala` for data of any width. `SECCode` is a shortened Hamming code: its
check bits stand at the positions (counted from 1) that are powers of two, and the syndrome
is the position of the bit to correct. `SECDEDCode` adds a parity bit over the whole word,
which tells one flipped bit from two.
-/

namespace TaggedRiscv.Ecc

open Hamming BitVec

/-- What a decoder says about a word. -/
structure Decoding (w : ℕ) where
  uncorrected : BitVec w
  corrected : BitVec w
  correctable : Bool
  uncorrectable : Bool
  deriving DecidableEq

/-- A code: the width of the code word for data of width `k`, the width of the data in a code
word of width `n`, and the two functions. -/
structure Code where
  width : ℕ → ℕ
  dataWidth : ℕ → ℕ
  encode : {k : ℕ} → BitVec k → BitVec (width k)
  decode : {n : ℕ} → BitVec n → Decoding (dataWidth n)

/-! ## Helpers of Chisel -/

def log2Up (n : ℕ) : ℕ := if n = 1 then 1 else Nat.clog 2 n

def isPow2 (n : ℕ) : Bool := decide (0 < n) && n &&& (n - 1) == 0

/-- The bits of `Vec(bits).toBits`, the first one lowest. -/
def vecBits {n : ℕ} (f : ℕ → Bool) : BitVec n := BitVec.ofFnLE fun i : Fin n => f i

/-- The exclusive or of all bits. -/
def bitXorR {n : ℕ} (y : BitVec n) : Bool := xorR ((List.range n).map y.getLsbD)

/-! ## The codes -/

def IdentityCode : Code where
  width k := k
  dataWidth n := n
  encode x := x
  decode y := { uncorrected := y, corrected := y, correctable := false, uncorrectable := false }

def ParityCode : Code where
  width k := k + 1
  dataWidth n := n - 1
  encode x := BitVec.cons (bitXorR x) x
  decode {n} y :=
    { uncorrected := y.setWidth (n - 1)
      corrected := y.setWidth (n - 1)
      correctable := false
      uncorrectable := bitXorR y }

namespace Sec

/-- The width of the code word. -/
def width (k : ℕ) : ℕ :=
  let m := Nat.log 2 k + 1
  k + m + if 2 ^ m < m + k + 1 then 1 else 0

/-- The data bit at position `i`. -/
def mapping (i : ℕ) : ℕ := i - 1 - log2Up i

/-- The other positions of the check at position `i`. -/
def covered (n i : ℕ) : List ℕ :=
  (List.range' 1 n).filter fun j => decide (j ≠ i) && decide (j &&& i ≠ 0)

def encode {k : ℕ} (x : BitVec k) : BitVec (width k) :=
  vecBits fun i =>
    if isPow2 (i + 1) then
      xorR ((covered (width k) (i + 1)).map fun j => x.getLsbD (mapping j))
    else x.getLsbD (mapping (i + 1))

/-- The positions of the data bits. -/
def positions (n : ℕ) : List ℕ := (List.range' 1 n).filter fun i => !isPow2 i

def swizzle (n : ℕ) {w : ℕ} (z : BitVec w) : BitVec (positions n).length :=
  vecBits fun i => z.getLsbD ((positions n)[i]?.getD 0 - 1)

def syndrome {n : ℕ} (y : BitVec n) : BitVec (log2Up n) :=
  vecBits fun t => xorR
    (((List.range' 1 n).filter fun j => decide (j &&& 2 ^ t ≠ 0)).map fun j => y.getLsbD (j - 1))

/-- The word with the bit at the position of the syndrome flipped. Position 0 is the bit that
the shifts add and drop. -/
def flipped {n : ℕ} (y : BitVec n) : BitVec (max (n + 1) (2 ^ log2Up n)) :=
  ((y.setWidth _ <<< 1) ^^^ (1#_ <<< (syndrome y).toNat)) >>> 1

/-- The widths of code words that `decode` requires. -/
def decodes (n : ℕ) : Bool := decide (0 < n) && !isPow2 n

def decode {n : ℕ} (y : BitVec n) : Decoding (positions n).length where
  uncorrected := swizzle n y
  corrected := swizzle n (flipped y)
  correctable := decide (syndrome y ≠ 0)
  uncorrectable := false

end Sec

def SECCode : Code where
  width := Sec.width
  dataWidth n := (Sec.positions n).length
  encode := Sec.encode
  decode := Sec.decode

def SECDEDCode : Code where
  width k := SECCode.width k + 1
  dataWidth n := SECCode.dataWidth (n - 1)
  encode x := ParityCode.encode (SECCode.encode x)
  decode {n} y :=
    let secdec := SECCode.decode (y.setWidth (n - 1))
    let pardec := ParityCode.decode y
    { uncorrected := secdec.uncorrected
      corrected := secdec.corrected
      correctable := pardec.uncorrectable
      uncorrectable := !pardec.uncorrectable && secdec.correctable }

/-! ## Bits -/

section Bits

variable {n : ℕ}

@[simp] theorem getLsbD_vecBits (f : ℕ → Bool) (i : ℕ) :
    (vecBits f : BitVec n).getLsbD i = (decide (i < n) && f i) := by
  rw [vecBits, getLsbD_ofFnLE]
  split_ifs with h <;> simp [h]

theorem isPow2_iff : isPow2 n ↔ n.isPowerOfTwo := by
  rw [← Nat.ne_zero_and_sub_one_eq_zero_iff_isPowerOfTwo]
  simp [isPow2, Nat.pos_iff_ne_zero]

theorem isPow2_eq (n : ℕ) : isPow2 n = decide n.isPowerOfTwo := by
  rw [Bool.eq_iff_iff, isPow2_iff, decide_eq_true_iff]

theorem decide_and_two_pow (j t : ℕ) : decide (j &&& 2 ^ t ≠ 0) = j.testBit t := by
  rw [Nat.and_two_pow]
  cases j.testBit t <;> simp

theorem bitXorR_xor (y z : BitVec n) : bitXorR (y ^^^ z) = (bitXorR y ^^ bitXorR z) := by
  rw [bitXorR, bitXorR, bitXorR, ← xorR_map_xor]
  congr 2
  funext i
  exact getLsbD_xor

/-- Flipping a bit changes the parity. -/
theorem bitXorR_twoPow {p : ℕ} (hp : p < n) : bitXorR (BitVec.twoPow n p) := by
  have hmap : (List.range n).map (BitVec.twoPow n p).getLsbD =
      (List.range n).map fun j => decide (p = j) := by
    simp [getLsbD_twoPow, hp]
  rw [bitXorR, hmap, xorR_map_eq List.nodup_range]
  simpa using hp

/-- A code word of the parity code has even parity. -/
theorem bitXorR_cons (x : BitVec n) : bitXorR (BitVec.cons (bitXorR x) x) = false := by
  have hlow : (List.range n).map (BitVec.cons (bitXorR x) x).getLsbD =
      (List.range n).map x.getLsbD := by
    apply List.map_congr_left
    intro i hi
    rw [getLsbD_cons, if_neg (List.mem_range.1 hi).ne]
  have htop : (BitVec.cons (bitXorR x) x).getLsbD n = bitXorR x := by
    rw [getLsbD_cons, if_pos rfl]
  rw [bitXorR, List.range_succ, List.map_append, xorR_append, hlow, List.map_singleton, htop,
    ← bitXorR, xorR_cons, xorR_nil, Bool.xor_false, Bool.xor_self]

end Bits

/-! ## The width of a code word -/

namespace Sec

variable {k : ℕ}

/-- With `r + 1` check bits the width lies strictly between two powers of two. -/
theorem width_spec (hk : 0 < k) :
    ∃ r, width k = k + (r + 1) ∧ 2 ^ r < width k ∧ width k < 2 ^ (r + 1) := by
  have hlow : 2 ^ Nat.log 2 k ≤ k := Nat.pow_log_le_self 2 hk.ne'
  have hhigh : k < 2 ^ (Nat.log 2 k + 1) := Nat.lt_pow_succ_log_self (by norm_num) k
  have hsmall : Nat.log 2 k + 1 < 2 ^ (Nat.log 2 k + 1) := Nat.lt_two_pow_self
  simp only [width]
  generalize Nat.log 2 k = l at hlow hhigh hsmall
  split_ifs with h
  · exact ⟨l + 1, by omega, by omega, by rw [Nat.pow_succ 2 (l + 1)]; omega⟩
  · exact ⟨l, by omega, by omega, by omega⟩

theorem clog_width_succ {r : ℕ} (hlow : 2 ^ r < width k) (hhigh : width k < 2 ^ (r + 1)) :
    Nat.clog 2 (width k + 1) = r + 1 := by
  apply le_antisymm
  · exact Nat.clog_le_of_le_pow hhigh
  · exact (Nat.lt_clog_iff_pow_lt (by norm_num)).2 (by omega)

/-- The number of syndrome bits is enough for every position. -/
theorem width_lt_two_pow (hk : 0 < k) : width k < 2 ^ log2Up (width k) := by
  obtain ⟨r, hw, hlow, hhigh⟩ := width_spec hk
  have hne : width k ≠ 1 := by omega
  have hclog : Nat.clog 2 (width k) = r + 1 := by
    apply le_antisymm
    · exact Nat.clog_le_of_le_pow hhigh.le
    · exact (Nat.lt_clog_iff_pow_lt (by norm_num)).2 hlow
  rwa [log2Up, if_neg hne, hclog]

/-- Code words can be decoded. -/
theorem decodes_width (hk : 0 < k) : decodes (width k) := by
  obtain ⟨r, hw, hlow, hhigh⟩ := width_spec hk
  have hne : ¬ (width k).isPowerOfTwo := by
    rintro ⟨t, ht⟩
    rw [ht, Nat.pow_lt_pow_iff_right Nat.one_lt_two] at hlow hhigh
    omega
  have hpos : 0 < width k := by omega
  simp [decodes, isPow2_eq, hne, hpos]

/-! ## Where the data stands -/

theorem positions_eq (n : ℕ) : positions n = dataPositions n := by
  simp only [positions, dataPositions, isPow2_eq]

theorem mem_positions {n j : ℕ} : j ∈ positions n ↔ (1 ≤ j ∧ j ≤ n) ∧ ¬ j.isPowerOfTwo := by
  rw [positions, List.mem_filter, Hamming.mem_positions, isPow2_eq, Bool.not_eq_true',
    decide_eq_false_iff_not]

/-- A code word has as many data bits as the data. -/
theorem length_positions (hk : 0 < k) : (positions (width k)).length = k := by
  obtain ⟨r, hw, hlow, hhigh⟩ := width_spec hk
  have hlen := length_dataPositions (width k)
  rw [clog_width_succ hlow hhigh] at hlen
  rw [positions_eq]
  omega

theorem getElem?_mapping {n j : ℕ} (hj : j ∈ positions n) : (positions n)[mapping j]? = some j := by
  obtain ⟨⟨hpos, hle⟩, hpow⟩ := mem_positions.1 hj
  have hne : j ≠ 1 := fun e => hpow (e ▸ Nat.isPowerOfTwo_one)
  rw [positions_eq, mapping, log2Up, if_neg hne]
  exact getElem?_dataPositions hpow hpos hle

/-- `mapping` finds a data position in the list. -/
theorem mapping_of_getElem? {n i j : ℕ} (h : (positions n)[i]? = some j) : mapping j = i := by
  have hj : j ∈ positions n := List.mem_of_getElem? h
  have hnodup : (positions n).Nodup := (List.nodup_range' 1).filter _
  obtain ⟨hi, rfl⟩ := List.getElem?_eq_some_iff.1 h
  obtain ⟨hm, heq⟩ := List.getElem?_eq_some_iff.1 (getElem?_mapping hj)
  exact hnodup.getElem_inj_iff.1 heq

/-- A word that has the data at the data positions is swizzled to the data. -/
theorem swizzle_eq (hk : 0 < k) {w : ℕ} {z : BitVec w} {x : BitVec k}
    (h : ∀ j ∈ positions (width k), z.getLsbD (j - 1) = x.getLsbD (mapping j)) :
    (swizzle (width k) z).cast (length_positions hk) = x := by
  apply eq_of_getLsbD_eq
  intro i hi
  have hlt : i < (positions (width k)).length := by rwa [length_positions hk]
  have hget := List.getElem?_eq_getElem hlt
  have hmem := List.getElem_mem hlt
  rw [getLsbD_cast, swizzle, getLsbD_vecBits, decide_eq_true hlt, Bool.true_and, hget,
    Option.getD_some, h _ hmem, mapping_of_getElem? hget]

/-! ## Code words -/

/-- The bits of a word by position. -/
def bits {n : ℕ} (y : BitVec n) (j : ℕ) : Bool := y.getLsbD (j - 1)

theorem bits_encode (x : BitVec k) {j : ℕ} (hpos : 1 ≤ j) (hle : j ≤ width k) :
    bits (encode x) j = if j.isPowerOfTwo then
      xorR ((covered (width k) j).map fun i => x.getLsbD (mapping i))
      else x.getLsbD (mapping j) := by
  have hj : j - 1 + 1 = j := by omega
  have hlt : j - 1 < width k := by omega
  simp only [bits, encode, getLsbD_vecBits, hlt, hj, isPow2_eq, decide_eq_true_eq, decide_true,
    Bool.true_and]

theorem bits_encode_data (x : BitVec k) {j : ℕ} (hj : j ∈ positions (width k)) :
    bits (encode x) j = x.getLsbD (mapping j) := by
  obtain ⟨⟨hpos, hle⟩, hpow⟩ := mem_positions.1 hj
  rw [bits_encode x hpos hle, if_neg hpow]

theorem covered_two_pow (n t : ℕ) :
    covered n (2 ^ t) = (List.range' 1 n).filter fun j => decide (j ≠ 2 ^ t) && j.testBit t := by
  simp only [covered, decide_and_two_pow]

/-- The positions a check bit covers hold data. -/
theorem mem_positions_of_covered {n t j : ℕ} (hj : j ∈ covered n (2 ^ t)) : j ∈ positions n := by
  rw [covered_two_pow] at hj
  obtain ⟨hmem, hcov⟩ := List.mem_filter.1 hj
  rw [Bool.and_eq_true, decide_eq_true_eq] at hcov
  refine mem_positions.2 ⟨Hamming.mem_positions.1 hmem, ?_⟩
  rintro ⟨u, rfl⟩
  have hut : u = t := by simpa [Nat.testBit_two_pow] using hcov.2
  exact hcov.1 (by rw [hut])

/-- All checks of a code word are zero. -/
theorem check_encode (x : BitVec k) (t : ℕ) : check (width k) t (bits (encode x)) = false := by
  by_cases ht : 2 ^ t ≤ width k
  · apply check_of_parity ht
    rw [bits_encode x Nat.one_le_two_pow ht, if_pos ⟨t, rfl⟩]
    rw [← covered_two_pow]
    congr 1
    apply List.map_congr_left
    intro j hj
    exact (bits_encode_data x (mem_positions_of_covered hj)).symm
  · exact check_eq_false (not_le.1 ht) _

/-! ## Syndromes -/

theorem bits_xor {n : ℕ} (y z : BitVec n) : bits (y ^^^ z) = fun j => bits y j ^^ bits z j := by
  funext j
  exact getLsbD_xor

/-- The position of bit `p`, or 0 if the word is too short. -/
def position (n p : ℕ) : ℕ := if p < n then p + 1 else 0

theorem position_le (n p : ℕ) : position n p ≤ n := by
  rw [position]
  split_ifs <;> omega

theorem bits_twoPow (n p : ℕ) {j : ℕ} (hpos : 1 ≤ j) :
    bits (BitVec.twoPow n p) j = decide (position n p = j) := by
  have hiff : p = j - 1 ↔ p + 1 = j := by omega
  rw [bits, getLsbD_twoPow, position]
  split_ifs with hp
  · simp [hp, hiff]
  · have hne : 0 ≠ j := by omega
    simp [hp, hne]

theorem check_twoPow (n p t : ℕ) :
    check n t (bits (BitVec.twoPow n p)) = (position n p).testBit t := by
  rw [← check_single t (position_le n p)]
  apply check_congr
  intro j hpos _
  exact bits_twoPow n p hpos

/-- The syndrome spells out the checks. -/
theorem testBit_syndrome {n : ℕ} (hn : n < 2 ^ log2Up n) (y : BitVec n) (t : ℕ) :
    (syndrome y).toNat.testBit t = check n t (bits y) := by
  rw [testBit_toNat, syndrome, getLsbD_vecBits]
  by_cases ht : t < log2Up n
  · simp only [ht, decide_true, Bool.true_and, decide_and_two_pow]
    rfl
  · have hlt : n < 2 ^ t := hn.trans_le (Nat.pow_le_pow_right (by norm_num) (not_lt.1 ht))
    rw [check_eq_false hlt, decide_eq_false ht, Bool.false_and]

/-- The syndrome of a code word with errors is that of the errors. -/
theorem testBit_syndrome_encode_xor (hk : 0 < k) (x : BitVec k) (e : BitVec (width k)) (t : ℕ) :
    (syndrome (encode x ^^^ e)).toNat.testBit t = check (width k) t (bits e) := by
  rw [testBit_syndrome (width_lt_two_pow hk), bits_xor, check_xor, check_encode, Bool.false_xor]

theorem syndrome_flip (hk : 0 < k) (x : BitVec k) (p : ℕ) :
    (syndrome (encode x ^^^ BitVec.twoPow (width k) p)).toNat = position (width k) p := by
  apply Nat.eq_of_testBit_eq
  intro t
  rw [testBit_syndrome_encode_xor hk, check_twoPow]

theorem syndrome_flip_flip (hk : 0 < k) (x : BitVec k) (p q : ℕ) :
    (syndrome (encode x ^^^ (BitVec.twoPow (width k) p ^^^ BitVec.twoPow (width k) q))).toNat =
      position (width k) p ^^^ position (width k) q := by
  apply Nat.eq_of_testBit_eq
  intro t
  rw [testBit_syndrome_encode_xor hk, bits_xor, check_xor, check_twoPow, check_twoPow,
    Nat.testBit_xor]

/-- The decoder flips the bit at the position of the syndrome. -/
theorem getLsbD_flipped {n : ℕ} (y : BitVec n) {j : ℕ} (hpos : 1 ≤ j) (hle : j ≤ n) :
    (flipped y).getLsbD (j - 1) = (bits y j ^^ decide ((syndrome y).toNat = j)) := by
  have hw : j < max (n + 1) (2 ^ log2Up n) := lt_max_of_lt_left (by omega)
  have hj : 1 + (j - 1) = j := by omega
  have hone : (BitVec.twoPow (max (n + 1) (2 ^ log2Up n)) (syndrome y).toNat).getLsbD j =
      decide ((syndrome y).toNat = j) := by
    rw [getLsbD_twoPow]
    by_cases hs : (syndrome y).toNat = j
    · simp [hs, hw]
    · simp [hs]
  rw [flipped, getLsbD_ushiftRight, hj, getLsbD_xor, ← twoPow_eq, hone, bits]
  congr 1
  have hlt : ¬ j < 1 := by omega
  simp [hw, hlt]

/-- A code word with at most one error is corrected. -/
theorem corrected_flip (hk : 0 < k) (x : BitVec k) (p : ℕ) :
    (decode (encode x ^^^ BitVec.twoPow (width k) p)).corrected.cast (length_positions hk) = x := by
  apply swizzle_eq hk
  intro j hj
  obtain ⟨⟨hpos, hle⟩, -⟩ := mem_positions.1 hj
  rw [getLsbD_flipped _ hpos hle, syndrome_flip hk, ← bits_encode_data x hj, bits_xor]
  dsimp only
  rw [bits_twoPow _ _ hpos, Bool.xor_assoc, Bool.xor_self, Bool.xor_false]

theorem correctable_iff {n : ℕ} (y : BitVec n) :
    (decode y).correctable ↔ (syndrome y).toNat ≠ 0 := by
  simp only [decode, decide_eq_true_eq, ne_eq, toNat_eq, ofNat_eq_ofNat,
    toNat_ofNat, Nat.zero_mod]

theorem correctable_flip (hk : 0 < k) (x : BitVec k) (p : ℕ) :
    (decode (encode x ^^^ BitVec.twoPow (width k) p)).correctable = decide (p < width k) := by
  rw [Bool.eq_iff_iff, correctable_iff, syndrome_flip hk, position]
  split_ifs with hp <;> simp [hp]

/-- Two different bits, one of them perhaps beyond the word, are seen. -/
theorem correctable_flip_flip (hk : 0 < k) (x : BitVec k) {p q : ℕ} (hp : p ≤ width k)
    (hq : q ≤ width k) (hne : p ≠ q) :
    (decode (encode x ^^^
      (BitVec.twoPow (width k) p ^^^ BitVec.twoPow (width k) q))).correctable = true := by
  rw [correctable_iff, syndrome_flip_flip hk, Ne, Nat.xor_eq_zero_iff]
  simp only [position]
  intro heq
  split_ifs at heq <;> omega

/-- A bit beyond the word is no error. -/
theorem encode_xor_twoPow_width (x : BitVec k) :
    encode x ^^^ BitVec.twoPow (width k) (width k) = encode x := by
  have hzero : BitVec.twoPow (width k) (width k) = 0#_ := by
    apply eq_of_getLsbD_eq
    intro i _
    simp [getLsbD_twoPow]
  rw [hzero, xor_zero]

theorem uncorrected_encode (hk : 0 < k) (x : BitVec k) :
    (decode (encode x)).uncorrected.cast (length_positions hk) = x := by
  apply swizzle_eq hk
  intro j hj
  exact bits_encode_data x hj

end Sec

/-! ## What the codes promise -/

section Codes

variable {k : ℕ}

/-- The decoder gives `x`, as it stands in the word and corrected, and sees no error. -/
def Code.Clean (c : Code) (y : BitVec (c.width k)) (x : BitVec k) : Prop :=
  ∃ h : c.dataWidth (c.width k) = k,
    (c.decode y).uncorrected.cast h = x ∧ (c.decode y).corrected.cast h = x ∧
      (c.decode y).correctable = false ∧ (c.decode y).uncorrectable = false

/-- The decoder sees an error and corrects it to `x`. -/
def Code.Corrects (c : Code) (y : BitVec (c.width k)) (x : BitVec k) : Prop :=
  ∃ h : c.dataWidth (c.width k) = k,
    (c.decode y).corrected.cast h = x ∧
      (c.decode y).correctable = true ∧ (c.decode y).uncorrectable = false

theorem secCode_clean (hk : 0 < k) (x : BitVec k) : SECCode.Clean (SECCode.encode x) x := by
  have hcorr := Sec.corrected_flip hk x (Sec.width k)
  have hflag := Sec.correctable_flip hk x (Sec.width k)
  rw [Sec.encode_xor_twoPow_width] at hcorr hflag
  exact ⟨Sec.length_positions hk, Sec.uncorrected_encode hk x, hcorr, hflag.trans (by simp), rfl⟩

theorem secCode_corrects (hk : 0 < k) (x : BitVec k) {p : ℕ} (hp : p < SECCode.width k) :
    SECCode.Corrects (SECCode.encode x ^^^ BitVec.twoPow _ p) x :=
  ⟨Sec.length_positions hk, Sec.corrected_flip hk x p,
    (Sec.correctable_flip hk x p).trans (decide_eq_true hp), rfl⟩

theorem identityCode_clean (x : BitVec k) : IdentityCode.Clean (IdentityCode.encode x) x :=
  ⟨rfl, rfl, rfl, rfl, rfl⟩

theorem parityCode_clean (x : BitVec k) : ParityCode.Clean (ParityCode.encode x) x := by
  have hdata : (BitVec.cons (bitXorR x) x).setWidth k = x := setWidth_cons
  exact ⟨rfl, hdata, hdata, rfl, bitXorR_cons x⟩

/-- Without its parity bit a code word of `SECDEDCode` is one of `SECCode`. -/
theorem setWidth_secded (x : BitVec k) :
    (SECDEDCode.encode x).setWidth (SECCode.width k) = SECCode.encode x :=
  setWidth_cons

theorem bitXorR_secded (x : BitVec k) (e : BitVec (SECDEDCode.width k)) :
    bitXorR (SECDEDCode.encode x ^^^ e) = bitXorR e := by
  have heven : bitXorR (SECDEDCode.encode x) = false := bitXorR_cons (SECCode.encode x)
  rw [bitXorR_xor, heven, Bool.false_xor]

/-- An error in the parity bit is none in the rest. -/
theorem setWidth_twoPow_succ (n p : ℕ) :
    (BitVec.twoPow (n + 1) p).setWidth n = BitVec.twoPow n p := by
  apply eq_of_getLsbD_eq
  intro i hi
  rw [getLsbD_setWidth, getLsbD_twoPow, getLsbD_twoPow]
  by_cases hp : p = i
  · subst hp
    simp [hi, Nat.lt_succ_of_lt hi]
  · simp [hp]

theorem setWidth_secded_flip (x : BitVec k) (p : ℕ) :
    (SECDEDCode.encode x ^^^ BitVec.twoPow _ p).setWidth (SECCode.width k) =
      SECCode.encode x ^^^ BitVec.twoPow _ p := by
  rw [setWidth_xor, setWidth_secded]
  exact congrArg (SECCode.encode x ^^^ ·) (setWidth_twoPow_succ (SECCode.width k) p)

theorem setWidth_secded_flip_flip (x : BitVec k) (p q : ℕ) :
    (SECDEDCode.encode x ^^^ (BitVec.twoPow _ p ^^^ BitVec.twoPow _ q)).setWidth
        (SECCode.width k) =
      SECCode.encode x ^^^ (BitVec.twoPow _ p ^^^ BitVec.twoPow _ q) := by
  rw [← xor_assoc, setWidth_xor, setWidth_secded_flip, xor_assoc]
  exact congrArg (fun e => SECCode.encode x ^^^ (BitVec.twoPow _ p ^^^ e))
    (setWidth_twoPow_succ (SECCode.width k) q)

theorem secdedCode_clean (hk : 0 < k) (x : BitVec k) :
    SECDEDCode.Clean (SECDEDCode.encode x) x := by
  obtain ⟨h, hun, hcorr, hflag, -⟩ := secCode_clean hk x
  have heven : bitXorR (SECDEDCode.encode x) = false := bitXorR_cons (SECCode.encode x)
  rw [← setWidth_secded x] at hun hcorr hflag
  refine ⟨h, hun, hcorr, heven, ?_⟩
  change (!bitXorR (SECDEDCode.encode x) && _) = false
  rw [heven]
  exact hflag

theorem secdedCode_corrects (hk : 0 < k) (x : BitVec k) {p : ℕ} (hp : p < SECDEDCode.width k) :
    SECDEDCode.Corrects (SECDEDCode.encode x ^^^ BitVec.twoPow _ p) x := by
  have h : SECCode.dataWidth (SECCode.width k) = k := Sec.length_positions hk
  have hcorr : (SECCode.decode (SECCode.encode x ^^^ BitVec.twoPow _ p)).corrected.cast h = x :=
    Sec.corrected_flip hk x p
  have hodd : bitXorR (SECDEDCode.encode x ^^^ BitVec.twoPow _ p) = true := by
    rw [bitXorR_secded, bitXorR_twoPow hp]
  rw [← setWidth_secded_flip x p] at hcorr
  refine ⟨h, hcorr, hodd, ?_⟩
  change (!bitXorR (SECDEDCode.encode x ^^^ BitVec.twoPow _ p) && _) = false
  rw [hodd]
  rfl

/-- Two flipped bits leave the parity as it was, but not the syndrome. -/
theorem secdedCode_detects (hk : 0 < k) (x : BitVec k) {p q : ℕ} (hp : p < SECDEDCode.width k)
    (hq : q < SECDEDCode.width k) (hne : p ≠ q) :
    let d := SECDEDCode.decode (SECDEDCode.encode x ^^^ (BitVec.twoPow _ p ^^^ BitVec.twoPow _ q))
    d.uncorrectable = true ∧ d.correctable = false := by
  have hflag : (SECCode.decode
      (SECCode.encode x ^^^ (BitVec.twoPow _ p ^^^ BitVec.twoPow _ q))).correctable = true :=
    Sec.correctable_flip_flip hk x (Nat.le_of_lt_succ hp) (Nat.le_of_lt_succ hq) hne
  have heven :
      bitXorR (SECDEDCode.encode x ^^^ (BitVec.twoPow _ p ^^^ BitVec.twoPow _ q)) = false := by
    rw [bitXorR_secded, bitXorR_xor, bitXorR_twoPow hp, bitXorR_twoPow hq, Bool.xor_self]
  rw [← setWidth_secded_flip_flip x p q] at hflag
  intro d
  refine ⟨?_, heven⟩
  change (!bitXorR (SECDEDCode.encode x ^^^ _) && _) = true
  rw [heven]
  exact hflag

/-- Code words have a width that can be decoded, and every code gives back what was encoded; the
correcting codes correct any one flipped bit, and `SECDEDCode` sees any two as such. -/
theorem ecc_corrects_and_detects (hk : 0 < k) (x : BitVec k) :
    Sec.decodes (Sec.width k) = true ∧
    (∀ c ∈ [IdentityCode, ParityCode, SECCode, SECDEDCode], c.Clean (c.encode x) x) ∧
      (∀ c ∈ [SECCode, SECDEDCode], ∀ p < c.width k,
        c.Corrects (c.encode x ^^^ BitVec.twoPow _ p) x) ∧
      ∀ p < SECDEDCode.width k, ∀ q < SECDEDCode.width k, p ≠ q →
        let d := SECDEDCode.decode
          (SECDEDCode.encode x ^^^ (BitVec.twoPow _ p ^^^ BitVec.twoPow _ q))
        d.uncorrectable = true ∧ d.correctable = false := by
  refine ⟨Sec.decodes_width hk, ?_, ?_, fun p hp q hq hne => secdedCode_detects hk x hp hq hne⟩
  · simp only [List.forall_mem_cons, List.not_mem_nil, false_implies, implies_true, and_true]
    exact ⟨identityCode_clean x, parityCode_clean x, secCode_clean hk x, secdedCode_clean hk x⟩
  · simp only [List.forall_mem_cons, List.not_mem_nil, false_implies, implies_true, and_true]
    exact ⟨fun p hp => secCode_corrects hk x hp, fun p hp => secdedCode_corrects hk x hp⟩

theorem ecc_corrects_and_detects_byte :
    Sec.decodes (Sec.width 8) = true ∧
    (∀ c ∈ [IdentityCode, ParityCode, SECCode, SECDEDCode],
        c.Clean (c.encode (0xA5 : BitVec 8)) 0xA5) ∧
      (∀ c ∈ [SECCode, SECDEDCode], ∀ p < c.width 8,
        c.Corrects (c.encode (0xA5 : BitVec 8) ^^^ BitVec.twoPow _ p) 0xA5) ∧
      ∀ p < SECDEDCode.width 8, ∀ q < SECDEDCode.width 8, p ≠ q →
        let d := SECDEDCode.decode
          (SECDEDCode.encode (0xA5 : BitVec 8) ^^^ (BitVec.twoPow _ p ^^^ BitVec.twoPow _ q))
        d.uncorrectable = true ∧ d.correctable = false :=
  ecc_corrects_and_detects (by decide) _

end Codes

end TaggedRiscv.Ecc
