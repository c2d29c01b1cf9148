import TaggedRiscv.Lib.Select
import TaggedRiscv.Uncore.Ecc
import TaggedRiscv.Uncore.TagUtil

/-!
# The instruction cache (`ICache`)

A pipeline of three stages over a tag array, valid bits and one data array for each way. A request
reads the arrays in stage 0, is compared in stage 1, where its physical page comes in, and answers
or misses in stage 2. A miss fetches the block with one `GetBlock`: the beats lose their memory
tags on the way into the data array, and the tag and the valid bit are written with the last one.

A row of the cache is a beat (`refillCyclesPerBeat` is 1), for which the serializer is a wire.
-/

namespace TaggedRiscv.Fetch

open Sync

/-- Two fields agree where the bits do. -/
theorem extractLsb'_eq_iff {n start len : ℕ} {a b : BitVec n} :
    a.extractLsb' start len = b.extractLsb' start len ↔
      ∀ j, start ≤ j → j < start + len → a.getLsbD j = b.getLsbD j := by
  constructor
  · intro h j hlow hhigh
    have hj := congrArg (BitVec.getLsbD · (j - start)) h
    simpa [BitVec.getLsbD_extractLsb', show j - start < len by omega,
      show start + (j - start) = j by omega] using hj
  · intro h
    apply BitVec.eq_of_getLsbD_eq
    intro i hi
    rw [BitVec.getLsbD_extractLsb', BitVec.getLsbD_extractLsb', h _ (by omega) (by omega)]

/-- The sizes of the cache, and its code. -/
structure ICacheParams where
  idxBits : ℕ
  wayBits : ℕ
  blockOffBits : ℕ
  /-- The width of the refill counter. -/
  cntBits : ℕ
  pgIdxBits : ℕ
  ppnBits : ℕ
  /-- The memory tag of a word (`TagBits`). -/
  wordTagBits : ℕ
  coreDataBits : ℕ
  /-- The words of a row. -/
  words : ℕ
  code : Ecc.Code
  cntBits_le : cntBits ≤ blockOffBits
  /-- The cache requires it. -/
  untagBits_le : blockOffBits + idxBits ≤ pgIdxBits
  row_eq : words * coreDataBits = 2 ^ (blockOffBits - cntBits) * 8
  /-- The cache takes the low bits of a code word for the data. -/
  code_low : ∀ (k : ℕ) (x : BitVec k), (code.encode x).setWidth k = x

namespace ICacheParams

/-- The sizes of the configuration, which has no code. -/
def config : ICacheParams where
  idxBits := 5
  wayBits := 1
  blockOffBits := 6
  cntBits := 2
  pgIdxBits := 12
  ppnBits := 20
  wordTagBits := 4
  coreDataBits := 64
  words := 2
  code := Ecc.IdentityCode
  cntBits_le := by decide
  untagBits_le := by decide
  row_eq := by decide
  code_low _ x := x.setWidth_eq

variable (p : ICacheParams)

/-- The number of ways. -/
def nWays : ℕ := 2 ^ p.wayBits

/-- Direct mapped. -/
def isDM : Bool := p.nWays == 1

/-- The bits below the tag. -/
def untagBits : ℕ := p.blockOffBits + p.idxBits

/-- The bits of an address. -/
def paddrBits : ℕ := p.ppnBits + p.pgIdxBits

/-- The bits of a tag. -/
def tagBits : ℕ := p.paddrBits - p.untagBits

/-- The beats of a block. -/
def refillCycles : ℕ := 2 ^ p.cntBits

/-- The bits of a row. -/
def rowBits : ℕ := p.words * p.coreDataBits

/-- The bits below a row. -/
def rowOffBits : ℕ := p.blockOffBits - p.cntBits

/-- A physical address. -/
abbrev Addr := BitVec p.paddrBits

/-- The address of a block. -/
abbrev Block := BitVec (p.paddrBits - p.blockOffBits)

/-- A way. -/
abbrev Way := Fin p.nWays

/-- The data of a grant: a row with the tags of its words. -/
abbrev Beat := BitVec (p.words * (p.wordTagBits + p.coreDataBits))

/-- A beat without its tags. -/
def removeTag (b : p.Beat) : BitVec p.rowBits := TagUtil.removeTag b

/-! The fields of an address; set and row lie in the page offset. -/

/-- The set of an address. -/
def idxOf {n : ℕ} (a : BitVec n) : BitVec p.idxBits := a.extractLsb' p.blockOffBits p.idxBits

/-- Set and row. -/
def raddrOf {n : ℕ} (a : BitVec n) : BitVec (p.idxBits + p.cntBits) :=
  a.extractLsb' p.rowOffBits (p.idxBits + p.cntBits)

/-- The row of the block. -/
def rowOf {n : ℕ} (a : BitVec n) : BitVec p.cntBits := a.extractLsb' p.rowOffBits p.cntBits

/-- Its tag. -/
def tagOf (a : p.Addr) : BitVec p.tagBits := a.extractLsb' p.untagBits p.tagBits

/-- Its block. -/
def blockOf (a : p.Addr) : p.Block := a.extractLsb' p.blockOffBits (p.paddrBits - p.blockOffBits)

variable {p}

theorem raddrOf_eq {n : ℕ} (a : BitVec n) : p.raddrOf a = p.idxOf a ++ p.rowOf a := by
  have hle := p.cntBits_le
  apply BitVec.eq_of_getLsbD_eq
  intro i hi
  simp only [raddrOf, idxOf, rowOf, rowOffBits, BitVec.getLsbD_append, BitVec.getLsbD_extractLsb']
  by_cases hrow : i < p.cntBits
  · simp [hi, hrow]
  · have hset : i - p.cntBits < p.idxBits := by omega
    have hbit : p.blockOffBits - p.cntBits + i = p.blockOffBits + (i - p.cntBits) := by omega
    simp [hi, hrow, hset, hbit]

/-- The set is known before the page is. -/
theorem idxOf_append (ppn : BitVec p.ppnBits) (pgoff : BitVec p.pgIdxBits) :
    p.idxOf (ppn ++ pgoff) = p.idxOf pgoff := by
  have hle := p.untagBits_le
  apply BitVec.eq_of_getLsbD_eq
  intro i hi
  simp only [idxOf, BitVec.getLsbD_extractLsb', BitVec.getLsbD_append]
  rw [if_pos (by omega)]

theorem rowOf_append (ppn : BitVec p.ppnBits) (pgoff : BitVec p.pgIdxBits) :
    p.rowOf (ppn ++ pgoff) = p.rowOf pgoff := by
  have hle := p.untagBits_le
  have hcnt := p.cntBits_le
  apply BitVec.eq_of_getLsbD_eq
  intro i hi
  simp only [rowOf, rowOffBits, BitVec.getLsbD_extractLsb', BitVec.getLsbD_append]
  rw [if_pos (by omega)]

/-- A block is known by its tag and its set. -/
theorem blockOf_eq_iff {a b : p.Addr} :
    p.blockOf a = p.blockOf b ↔ p.tagOf a = p.tagOf b ∧ p.idxOf a = p.idxOf b := by
  have hle := p.untagBits_le
  have hpaddr : p.paddrBits = p.ppnBits + p.pgIdxBits := rfl
  have huntag : p.untagBits = p.blockOffBits + p.idxBits := rfl
  have htag : p.tagBits = p.paddrBits - p.untagBits := rfl
  simp only [blockOf, tagOf, idxOf, extractLsb'_eq_iff]
  constructor
  · intro h
    exact ⟨fun j hlow hhigh => h j (by omega) (by omega), fun j hlow hhigh => h j hlow (by omega)⟩
  · rintro ⟨hhighs, hlows⟩ j hlow hhigh
    by_cases hj : j < p.untagBits
    · exact hlows j hlow (by omega)
    · exact hhighs j (by omega) (by omega)

end ICacheParams

/-- The states of the refill. -/
inductive ICacheState
  | ready
  | request
  | refillWait
  | refill
  deriving DecidableEq

variable (p : ICacheParams)

/-- The registers and arrays. Bit `Cat(way, set)` of `vb_array` is `vbArray way set`. -/
structure ICache where
  state : ICacheState
  invalidated : Bool
  s2Valid : Bool
  s2Addr : p.Addr
  s1Valid : Bool
  s1Pgoff : BitVec p.pgIdxBits
  refillCnt : BitVec p.cntBits
  lfsr : BitVec 16
  tagArray : p.Way → BitVec p.idxBits → BitVec (p.code.width p.tagBits)
  /-- The registered address of `tag_array.read`. -/
  tagRaddr : BitVec p.idxBits
  vbArray : p.Way → BitVec p.idxBits → Bool
  s2Vb : p.Way → Bool
  s2TagDisparity : p.Way → Bool
  s2TagMatch : p.Way → Bool
  s2Dout : p.Way → BitVec (p.code.width p.rowBits)
  dataArray : p.Way → BitVec (p.idxBits + p.cntBits) → BitVec (p.code.width p.rowBits)
  /-- The registered addresses of `data_array.read`. -/
  dataRaddr : p.Way → BitVec (p.idxBits + p.cntBits)

/-- A beat of a grant. -/
structure GrantBeat where
  addrBeat : BitVec p.cntBits
  data : p.Beat
  deriving DecidableEq

/-- The inputs of a cycle; page number and `kill` are those of the request in stage 1. -/
structure ICacheIn where
  reqValid : Bool
  idx : BitVec p.pgIdxBits
  ppn : BitVec p.ppnBits
  kill : Bool
  respReady : Bool
  invalidate : Bool
  acquireReady : Bool
  grant : Option (GrantBeat p)

namespace ICache

variable {p} (s : ICache p) (i : ICacheIn p)

/-! ## Stage 2 -/

/-- The tag in stage 2. -/
def s2Tag : BitVec p.tagBits := p.tagOf s.s2Addr

/-- The set in stage 2. -/
def s2Idx : BitVec p.idxBits := p.idxOf s.s2Addr

/-- The way holds the block. -/
def s2TagHit (w : p.Way) : Bool := s.s2Vb w && s.s2TagMatch w

/-- The way has an error. -/
def s2Disparity (w : p.Way) : Bool :=
  let decoding := p.code.decode (s.s2Dout w)
  s.s2Vb w && (s.s2TagDisparity w || (decoding.correctable || decoding.uncorrectable))

/-- Some way holds the block, and none has an error. -/
def s2AnyTagHit : Bool :=
  (List.finRange p.nWays).any s.s2TagHit && !(List.finRange p.nWays).any s.s2Disparity

/-- A hit. -/
def s2Hit : Bool := s.s2Valid && s.s2AnyTagHit

/-- A miss. -/
def s2Miss : Bool := s.s2Valid && !s.s2AnyTagHit

/-- No miss is being served. -/
def rdy : Bool := s.state == .ready && !s.s2Miss

/-! ## Outputs -/

/-- An answer is given. -/
def respValid : Bool := s.s2Hit

/-- The word at the address in stage 2. -/
def data : BitVec 32 :=
  mux1H s.s2TagHit fun w =>
    (s.s2Dout w >>> ((s.s2Addr.extractLsb' 2 (p.rowOffBits - 2)).toNat <<< 5)).setWidth 32

/-- The row at the address in stage 2. -/
def datablock : BitVec p.rowBits :=
  (mux1H s.s2TagHit s.s2Dout).setWidth p.rowBits

/-- The block that is asked for with `GetBlock`. -/
def acquire : Option p.Block := if s.state = .request then some (p.blockOf s.s2Addr) else none

/-- The acquire that is taken. -/
def acquireFire : Option p.Block := if i.acquireReady then s.acquire else none

/-! ## Stages 0 and 1 -/

/-- The answer is not taken. -/
def stall : Bool := !i.respReady

/-- The address in stage 1. -/
def s1Addr : p.Addr := i.ppn ++ s.s1Pgoff

/-- Its tag. -/
def s1Tag : BitVec p.tagBits := p.tagOf (s.s1Addr i)

/-- A request, new or held. -/
def s0Valid : Bool := i.reqValid || s.s1Valid && stall i

/-- Its page offset. -/
def s0Pgoff : BitVec p.pgIdxBits := if s.s1Valid && stall i then s.s1Pgoff else i.idx

/-- The registers of stage 2 are loaded. -/
def s2Load : Bool := s.s1Valid && s.rdy && !stall i

/-- The stored tag. -/
def tagOut (w : p.Way) : BitVec (p.code.width p.tagBits) := s.tagArray w s.tagRaddr

/-- It is that of the request. -/
def s1TagMatch (w : p.Way) : Bool := (s.tagOut w).setWidth p.tagBits == s.s1Tag i

/-- The line is valid. -/
def s1Vb (w : p.Way) : Bool := !i.invalidate && s.vbArray w (p.idxOf s.s1Pgoff)

/-- The stored row. -/
def s1Rdata (w : p.Way) : BitVec (p.code.width p.rowBits) := s.dataArray w (s.dataRaddr w)

/-! ## The refill -/

/-- The counter wraps. -/
def refillWrap : Bool := i.grant.isSome && s.refillCnt.toNat == p.refillCycles - 1

/-- The last beat of the refill. -/
def refillDone : Bool := s.state == .refill && s.refillWrap i

/-- The way that is replaced. -/
def replWay : p.Way := (s.lfsr.setWidth p.wayBits).toFin

/-- The write enable of a data array. -/
def wen (w : p.Way) : Bool := i.grant.isSome && s.replWay == w

/-- What is written into a data array. -/
def refillData : BitVec (p.code.width p.rowBits) :=
  p.code.encode (p.removeTag ((i.grant.map GrantBeat.data).getD 0))

/-- The random number after a miss. -/
def lfsrNext : BitVec 16 :=
  (BitVec.ofBool (s.lfsr.getLsbD 0 ^^ s.lfsr.getLsbD 2 ^^ s.lfsr.getLsbD 3 ^^ s.lfsr.getLsbD 5)) ++
    s.lfsr.extractLsb' 1 15

/-- A valid bit is written. -/
def setBit (vb : p.Way → BitVec p.idxBits → Bool) (w : p.Way) (x : BitVec p.idxBits) (b : Bool) :
    p.Way → BitVec p.idxBits → Bool :=
  fun w' x' => if w' = w ∧ x' = x then b else vb w' x'

/-- The valid bits. Of several assignments the last one counts, and each starts from the bits as
they are in the register. -/
def vbNext : p.Way → BitVec p.idxBits → Bool :=
  let filled := if s.refillDone i && !s.invalidated then setBit s.vbArray s.replWay s.s2Idx true
    else s.vbArray
  let cleared := if i.invalidate then fun _ _ => false else filled
  (List.finRange p.nWays).foldl (fun vb w =>
    if s.s2Valid && s.s2Disparity w then setBit s.vbArray w s.s2Idx false else vb) cleared

/-- The state after a cycle. -/
def stateNext : ICacheState :=
  match s.state with
  | .ready => if s.s2Miss then .request else .ready
  | .request => if i.acquireReady then .refillWait else .request
  | .refillWait => if i.grant.isSome then .refill else .refillWait
  | .refill => if s.refillDone i then .ready else .refill

/-- The clock edge. -/
def next : ICache p where
  state := s.stateNext i
  -- the ready state takes the mark back, also in the cycle of an invalidation
  invalidated := if s.state = .ready then false else s.invalidated || i.invalidate
  s2Valid := s.s1Valid && s.rdy && !i.kill || s.respValid && stall i
  s2Addr := if s.s2Load i then s.s1Addr i else s.s2Addr
  s1Valid := i.reqValid && s.rdy || s.s1Valid && stall i && !i.kill
  s1Pgoff := if i.reqValid && s.rdy then i.idx else s.s1Pgoff
  refillCnt := if i.grant.isSome then s.refillCnt + 1 else s.refillCnt
  lfsr := if s.s2Miss then s.lfsrNext else s.lfsr
  tagArray w x :=
    if s.refillDone i && s.replWay == w && x == s.s2Idx then p.code.encode s.s2Tag
    else s.tagArray w x
  tagRaddr := if !s.refillDone i && s.s0Valid i then p.idxOf (s.s0Pgoff i) else s.tagRaddr
  vbArray := s.vbNext i
  s2Vb w := if s.s2Load i then s.s1Vb i w else s.s2Vb w
  s2TagDisparity w :=
    if s.s2Load i then
      (p.code.decode (s.tagOut w)).correctable || (p.code.decode (s.tagOut w)).uncorrectable
    else s.s2TagDisparity w
  s2TagMatch w := if s.s2Load i then s.s1TagMatch i w else s.s2TagMatch w
  s2Dout w := if s.s2Load i && (p.isDM || s.s1TagMatch i w) then s.s1Rdata w else s.s2Dout w
  dataArray w a :=
    if s.wen i w && a == s.s2Idx ++ s.refillCnt then refillData i else s.dataArray w a
  dataRaddr w := if !s.wen i w && s.s0Valid i then p.raddrOf (s.s0Pgoff i) else s.dataRaddr w

/-- The values of the registers that have a reset value; the others and the arrays may hold
anything. -/
structure Reset : Prop where
  state : s.state = .ready
  s2Valid : s.s2Valid = false
  s1Valid : s.s1Valid = false
  refillCnt : s.refillCnt = 0
  lfsr : s.lfsr = 1
  vbArray : ∀ w x, s.vbArray w x = false

end ICache

end TaggedRiscv.Fetch
