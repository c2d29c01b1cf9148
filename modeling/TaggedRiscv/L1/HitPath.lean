import TaggedRiscv.L1.DataPath
import TaggedRiscv.L1.HellaCache
import TaggedRiscv.Lib.Machine

/-!
# The hit path of the L1 data cache

A younger access can be up to three stages behind the store whose result it needs, so that the
second, third and fourth stage are compared with the first, and a match replaces what was read.

On the hit path nothing is refilled, written back, probed or replayed, the TLB hits, and no access
is refused; metadata does not change. A read and a write of one word in the same cycle may return
the old or the new data.
-/

namespace TaggedRiscv.L1

open Sync Mesi

variable (p : L1Params)

/-- The address of a doubleword. -/
structure WordAddr where
  block : BlockAddr p
  word : BitVec 3
  deriving DecidableEq

/-- An access of the core. Its data, if it writes, comes one cycle later. -/
structure Access where
  addr : WordAddr p
  /-- The byte in the doubleword. -/
  off : BitVec 3
  cmd : MemCmd
  typ : MemTyp
  deriving DecidableEq

/-- The metadata of every set. -/
abbrev TagArray := BitVec p.idxBits → Fin p.nWays → L1Metadata p

/-- The doublewords of every way. -/
abbrev DataArray := Fin p.nWays → BitVec p.idxBits → BitVec 3 → BitVec 68

/-- The registers of the hit path. -/
structure HitPath where
  s1Valid : Bool
  s1Req : Access p
  s1ClkEn : Bool
  /-- The address of the synchronous read of the metadata. -/
  tagRaddr : BitVec p.idxBits
  /-- The doubleword read from every way. -/
  rdata : Fin p.nWays → BitVec 68
  s2Valid : Bool
  s2Req : Access p
  s2ReqData : BitVec 68
  s2TagMatchWay : Fin p.nWays → Bool
  s2Coh : Fin p.nWays → ClientState
  s2Data : Fin p.nWays → BitVec 68
  s2StoreBypass : Bool
  s2StoreBypassData : BitVec 68
  s3Valid : Bool
  s3Req : Access p
  s3ReqData : BitVec 68
  s3Way : Fin p.nWays → Bool
  s4Valid : Bool
  s4Req : Access p
  s4ReqData : BitVec 68
  array : DataArray p

/-- The inputs of a cycle: an access that is offered and whether it is taken, the data and the
kill of the access in the first stage, whether a reservation matches the access in the second,
and what the data array returns for a word written in the same cycle. -/
structure HitIn where
  req : Option (Access p)
  ready : Bool
  data : BitVec 68
  kill : Bool
  lrscMatch : Bool
  readNew : Bool

variable {p}

namespace HitPath

variable (tags : TagArray p) (s : HitPath p) (i : HitIn p)

/-! ## The first stage -/

/-- The access goes on to stage 2. -/
def s1ValidMasked : Bool := s.s1Valid && !i.kill

/-- The metadata of a way. -/
def metaResp (w : Fin p.nWays) : L1Metadata p := tags s.tagRaddr w

/-- The way has the tag. -/
def s1TagEqWay (w : Fin p.nWays) : Bool := (s.metaResp tags w).tag == s.s1Req.addr.block.tag

/-- The way holds the block. -/
def s1TagMatchWay (w : Fin p.nWays) : Bool :=
  s.s1TagEqWay tags w && (s.metaResp tags w).coh.isValid

/-! ## The second stage -/

/-- Some way holds the block. -/
def s2TagMatch : Bool := (List.finRange p.nWays).any s.s2TagMatchWay

/-- The permission of that way. -/
def s2HitState : ClientState :=
  .ofCode (mux1H s.s2TagMatchWay fun w => (s.s2Coh w).code)

/-- A hit, which leaves the permission as it is. -/
def s2Hit : Bool :=
  s.s2TagMatch && s.s2HitState.isHit s.s2Req.cmd &&
    s.s2HitState == s.s2HitState.onHit s.s2Req.cmd

/-- A conditional store. -/
def s2Sc : Bool := s.s2Req.cmd == .XSC

/-- It has lost its reservation. -/
def s2ScFail : Bool := s.s2Sc && !i.lrscMatch

/-- The word read from the array. -/
def s2DataWordPrebypass : BitVec 68 := mux1H s.s2TagMatchWay s.s2Data

/-- The word with the stores before it. -/
def s2DataWord : BitVec 68 :=
  if s.s2StoreBypass then s.s2StoreBypassData else s.s2DataWordPrebypass

/-- The word that is stored. -/
def amoaluOut : BitVec 68 :=
  L1AMOALU.out s.s2Req.off s.s2Req.cmd s.s2Req.typ s.s2DataWord s.s2ReqData

/-- `resp.valid`; an access that misses goes to the handlers. -/
def respValid : Bool := s.s2Valid && s.s2Hit

/-- `resp.data` and `resp.data_subword`. -/
def resp : BitVec 68 × BitVec 68 :=
  (L1LoadGen.word s.s2Req.typ s.s2Req.off s.s2DataWord,
    L1LoadGen.byte s.s2Req.typ s.s2Req.off s.s2DataWord s.s2Sc |||
      (BitVec.ofBool (s.s2ScFail i)).setWidth 68)

/-! ## Bypassing -/

/-- The access in the first stage needs the result of a stage. -/
def bypass (valid : Bool) (r : Access p) : Bool :=
  valid && s.s1Req.addr == r.addr && r.cmd.isWrite

/-- The access in stage 2 stores to the word read. -/
def bypass2 : Bool := s.bypass (s.s2Valid && !s.s2ScFail i) s.s2Req

/-- That in stage 3 does. -/
def bypass3 : Bool := s.bypass s.s3Valid s.s3Req

/-- That in stage 4 does. -/
def bypass4 : Bool := s.bypass s.s4Valid s.s4Req

/-- The youngest of the results. -/
def bypassData : BitVec 68 :=
  if s.bypass2 i then s.amoaluOut else if s.bypass3 then s.s3ReqData else s.s4ReqData

/-! ## The clock edge -/

/-- The data array after the write of the third stage. -/
def arrayNext : DataArray p := fun w idx word =>
  if s.s3Valid && s.s3Way w && s.s3Req.addr.block.idx == idx && s.s3Req.addr.word == word then
    s.s3ReqData
  else s.array w idx word

/-- The registers after a cycle. -/
def next : HitPath p where
  s1Valid := i.req.isSome && i.ready
  s1Req := i.req.getD s.s1Req
  -- the access is looked up whether or not it is taken
  s1ClkEn := i.req.isSome
  tagRaddr := (i.req.map fun r => r.addr.block.idx).getD s.tagRaddr
  rdata w :=
    match i.req with
    | some r => (if i.readNew then s.arrayNext else s.array) w r.addr.block.idx r.addr.word
    | none => s.rdata w
  s2Valid := s.s1ValidMasked i
  s2Req := if s.s1ClkEn then s.s1Req else s.s2Req
  s2ReqData := if s.s1ClkEn && s.s1Req.cmd.isWrite then i.data else s.s2ReqData
  s2TagMatchWay := if s.s1ClkEn then s.s1TagMatchWay tags else s.s2TagMatchWay
  s2Coh w := if s.s1ClkEn then (s.metaResp tags w).coh else s.s2Coh w
  s2Data w := if s.s1ClkEn && s.s1TagEqWay tags w then s.rdata w else s.s2Data w
  s2StoreBypass := if s.s1ClkEn then s.bypass2 i || s.bypass3 || s.bypass4 else s.s2StoreBypass
  s2StoreBypassData :=
    if s.s1ClkEn && (s.bypass2 i || s.bypass3 || s.bypass4) then s.bypassData i
    else s.s2StoreBypassData
  s3Valid := s.s2Valid && s.s2Hit && !s.s2ScFail i && s.s2Req.cmd.isWrite
  s3Req := if s.s2Valid && s.s2Req.cmd.isWrite then s.s2Req else s.s3Req
  s3ReqData := if s.s2Valid && s.s2Req.cmd.isWrite then s.amoaluOut else s.s3ReqData
  s3Way := if s.s2Valid && s.s2Req.cmd.isWrite then s.s2TagMatchWay else s.s3Way
  s4Valid := s.s3Valid
  -- clocked by the lookup of the next access only
  s4Req := if s.s3Valid && i.req.isSome then s.s3Req else s.s4Req
  s4ReqData := if s.s3Valid && i.req.isSome then s.s3ReqData else s.s4ReqData
  array := s.arrayNext

end HitPath

/-! ## Accesses one after the other -/

/-- An access that was done: with its data, if it writes, the outcome of a store-conditional, and
what was returned. -/
structure Answer (p : L1Params) where
  access : Access p
  data : BitVec 68
  scFail : Bool
  resp : BitVec 68 × BitVec 68

/-- The data an access brings. -/
def Access.operand (a : Access p) (data : BitVec 68) : BitVec 68 :=
  if a.cmd.isWrite then data else 0

namespace Answer

variable (q : Answer p) (m : WordAddr p → BitVec 68)

/-- Memory after an access. -/
def perform : WordAddr p → BitVec 68 :=
  if q.access.cmd.isWrite && !q.scFail then
    Function.update m q.access.addr
      (L1AMOALU.out q.access.off q.access.cmd q.access.typ (m q.access.addr) q.data)
  else m

theorem perform_apply (a : WordAddr p) : q.perform m a =
    if (q.access.cmd.isWrite && !q.scFail) = true ∧ q.access.addr = a then
      L1AMOALU.out q.access.off q.access.cmd q.access.typ (m a) q.data
    else m a := by
  rw [perform]
  by_cases hw : (q.access.cmd.isWrite && !q.scFail) = true
  · by_cases ha : q.access.addr = a
    · subst ha
      rw [if_pos hw, if_pos ⟨hw, rfl⟩, Function.update_self]
    · rw [if_pos hw, if_neg (fun h => ha h.2), Function.update_of_ne (Ne.symm ha)]
  · rw [if_neg hw, if_neg (fun h => hw h.1)]

/-- What an access returns from memory. -/
def expected : BitVec 68 × BitVec 68 :=
  (L1LoadGen.word q.access.typ q.access.off (m q.access.addr),
    L1LoadGen.byte q.access.typ q.access.off (m q.access.addr) (q.access.cmd == .XSC) |||
      (BitVec.ofBool q.scFail).setWidth 68)

end Answer

/-- Each answer is that of its access on memory as all the accesses before have left it. -/
def Sequential : (WordAddr p → BitVec 68) → List (Answer p) → Prop
  | _, [] => True
  | m, q :: qs => q.resp = q.expected m ∧ Sequential (q.perform m) qs

/-- Memory after a list of accesses. -/
def performAll (m : WordAddr p → BitVec 68) (qs : List (Answer p)) : WordAddr p → BitVec 68 :=
  qs.foldl (fun m q => q.perform m) m

theorem performAll_concat (m : WordAddr p → BitVec 68) (qs : List (Answer p)) (q : Answer p) :
    performAll m (qs ++ [q]) = q.perform (performAll m qs) := by
  simp [performAll]

theorem Sequential.concat {m : WordAddr p → BitVec 68} {qs : List (Answer p)} {q : Answer p}
    (h : Sequential m qs) (hq : q.resp = q.expected (performAll m qs)) :
    Sequential m (qs ++ [q]) := by
  induction qs generalizing m with
  | nil => exact ⟨hq, trivial⟩
  | cons r qs ih => exact ⟨h.1, ih h.2 hq⟩

/-! ## Runs -/

/-- The accesses that passed the first stage, with their data, and those that were done. -/
structure HitLog (p : L1Params) where
  issued : List (Access p × BitVec 68)
  answers : List (Answer p)

namespace HitPath

variable (tags : TagArray p) (s : HitPath p) (i : HitIn p)

/-- The answer given in the second stage. -/
def answer : Answer p := ⟨s.s2Req, s.s2Req.operand s.s2ReqData, s.s2ScFail i, s.resp i⟩

/-- What has passed the first stage and is not done. -/
def inFlight : List (Access p × BitVec 68) :=
  if s.s2Valid then [(s.s2Req, s.s2Req.operand s.s2ReqData)] else []

end HitPath

/-- The log after a cycle. -/
def HitLog.next (l : HitLog p) (s : HitPath p) (i : HitIn p) : HitLog p where
  issued := if s.s1ValidMasked i then l.issued ++ [(s.s1Req, s.s1Req.operand i.data)] else l.issued
  answers := if s.respValid then l.answers ++ [s.answer i] else l.answers

/-- Way `w` holds the block of an address, and no other way does. -/
def Holds (tags : TagArray p) (a : WordAddr p) (w : Fin p.nWays) : Prop :=
  ∀ v, HellaCache.entryMatch (tags a.block.idx v) a.block.tag = decide (v = w)

/-- An access hits: one way holds its block, with the permission it needs. -/
def Hits (tags : TagArray p) (a : Access p) : Prop :=
  ∃ w, Holds tags a.addr w ∧ (tags a.addr.block.idx w).coh.isHit a.cmd = true ∧
    (tags a.addr.block.idx w).coh.onHit a.cmd = (tags a.addr.block.idx w).coh

/-- The cache with its log. Every access that is taken hits. -/
def hitMachine (tags : TagArray p) : Machine (HitPath p × HitLog p) (HitIn p) where
  ok _ i := ∀ r ∈ i.req, i.ready = true → Hits tags r
  next x i := (x.1.next tags i, x.2.next x.1 i)

/-- What the cache holds at an address. -/
def contents (tags : TagArray p) (array : DataArray p) (a : WordAddr p) : BitVec 68 :=
  mux1H (fun w => HellaCache.entryMatch (tags a.block.idx w) a.block.tag) fun w =>
    array w a.block.idx a.word

/-- No stage is occupied. -/
structure HitPath.Reset (s : HitPath p) : Prop where
  s1Valid : s.s1Valid = false
  s2Valid : s.s2Valid = false
  s3Valid : s.s3Valid = false
  s4Valid : s.s4Valid = false

variable {w : Fin p.nWays}

section

variable {tags : TagArray p}

theorem Holds.unique_addr {a b : WordAddr p} (ha : Holds tags a w)
    (hb : Holds tags b w) (hidx : a.block.idx = b.block.idx) (hword : a.word = b.word) : a = b := by
  have hat := ha w
  have hbt := hb w
  rw [decide_eq_true rfl, HellaCache.entryMatch, Bool.and_eq_true, beq_iff_eq] at hat hbt
  have htag : a.block.tag = b.block.tag := by rw [← hat.1, ← hbt.1, hidx]
  cases a with | mk ab aw => cases b with | mk bb bw =>
  cases ab; cases bb
  simp_all

theorem Holds.unique_way {a : WordAddr p} {v w : Fin p.nWays} (hv : Holds tags a v)
    (hw : Holds tags a w) : v = w := by
  have h := hw v
  rw [hv v, decide_eq_true rfl] at h
  exact of_decide_eq_true h.symm

theorem contents_eq {a : WordAddr p} (h : Holds tags a w) (array : DataArray p) :
    contents tags array a = array w a.block.idx a.word := by
  have hsel : (fun v => HellaCache.entryMatch (tags a.block.idx v) a.block.tag) = uintToOH w :=
    funext h
  rw [contents, hsel, mux1H_uintToOH]

end

/-- What holds in every cycle, for memory `m` as the accesses done so far have left it. -/
structure HitPath.Inv (tags : TagArray p) (s : HitPath p) (m : WordAddr p → BitVec 68) : Prop where
  /-- The access in the first stage has been looked up. -/
  s1 : s.s1Valid → s.s1ClkEn ∧ Hits tags s.s1Req ∧
    s.tagRaddr = s.s1Req.addr.block.idx
  /-- What was read for it is in the array now, unless the fourth stage has it. -/
  s1Read : s.s1Valid → ∀ w, Holds tags s.s1Req.addr w →
    if s.s4Valid = true ∧ s.s4Req.addr = s.s1Req.addr then
      s.s4Req.cmd.isWrite = true ∧
        s.array w s.s1Req.addr.block.idx s.s1Req.addr.word = s.s4ReqData
    else s.array w s.s1Req.addr.block.idx s.s1Req.addr.word = s.rdata w
  /-- The access in the second stage has the youngest doubleword. -/
  s2 : s.s2Valid → s.s2Hit ∧
    (∃ w, Holds tags s.s2Req.addr w ∧ s.s2TagMatchWay = uintToOH w) ∧
    s.s2DataWord = m s.s2Req.addr
  s3 : s.s3Valid → s.s3Req.cmd.isWrite ∧
    ∃ w, Holds tags s.s3Req.addr w ∧ s.s3Way = uintToOH w
  /-- Memory is in the array, but for the write of the third stage. -/
  memory : ∀ a w, Holds tags a w →
    m a = if s.s3Valid = true ∧ s.s3Req.addr = a then s.s3ReqData
      else s.array w a.block.idx a.word

namespace HitPath.Inv

variable {tags : TagArray p} {s : HitPath p} {i : HitIn p} {m : WordAddr p → BitVec 68}

variable (h : s.Inv tags m)

include h

/-- After the write of the third stage the array holds memory. -/
theorem arrayNext_eq {a : WordAddr p} (ha : Holds tags a w) :
    s.arrayNext w a.block.idx a.word = m a := by
  rw [h.memory a w ha, arrayNext]
  by_cases hv : s.s3Valid
  · obtain ⟨-, w', hw', hway⟩ := h.s3 hv
    by_cases heq : s.s3Req.addr = a
    · have hww : w' = w := (heq ▸ hw').unique_way ha
      simp [hv, heq, hway, hww]
    · -- another address in the same place would be in another way
      rw [if_neg, if_neg (fun hc => heq hc.2)]
      intro hc
      simp only [Bool.and_eq_true, beq_iff_eq, hway, uintToOH, decide_eq_true_eq] at hc
      obtain ⟨⟨⟨-, hw⟩, hidx⟩, hword⟩ := hc
      exact heq ((hw ▸ hw').unique_addr ha hidx hword)
  · simp [hv]

/-- Memory after the access in the second stage, if there is one. -/
def memNext (s : HitPath p) (i : HitIn p) (m : WordAddr p → BitVec 68) : WordAddr p → BitVec 68 :=
  if s.s2Valid then (s.answer i).perform m else m

/-- The second stage writes. -/
def writes2 (s : HitPath p) (i : HitIn p) : Bool :=
  s.s2Valid && !s.s2ScFail i && s.s2Req.cmd.isWrite

theorem memNext_apply (a : WordAddr p) :
    memNext s i m a = if writes2 s i = true ∧ s.s2Req.addr = a then s.amoaluOut else m a := by
  by_cases hv : s.s2Valid
  · have hdata := (h.s2 hv).2.2
    have hw2 : writes2 s i = ((s.answer i).access.cmd.isWrite && !(s.answer i).scFail) := by
      rw [writes2, hv, Bool.true_and, Bool.and_comm]
      rfl
    rw [memNext, if_pos hv, Answer.perform_apply, ← hw2]
    by_cases hc : writes2 s i ∧ s.s2Req.addr = a
    · obtain ⟨hw, rfl⟩ := hc
      have hwr : s.s2Req.cmd.isWrite := by simp_all [writes2]
      simp [hw, answer, Access.operand, hwr, amoaluOut, hdata]
    · rw [if_neg hc]
      exact if_neg hc
  · simp [memNext, writes2, hv]

omit h in
theorem bypass_iff {valid : Bool} {r : Access p} :
    s.bypass valid r ↔ (valid ∧ r.addr = s.s1Req.addr) ∧ r.cmd.isWrite := by
  rw [bypass, Bool.and_eq_true, Bool.and_eq_true, beq_iff_eq, eq_comm (a := r.addr)]

omit h in
theorem bypass2_iff : s.bypass2 i ↔ writes2 s i ∧ s.s2Req.addr = s.s1Req.addr := by
  rw [bypass2, bypass_iff, writes2, Bool.and_eq_true (s.s2Valid && _)]
  tauto

theorem bypass3_iff : s.bypass3 ↔ s.s3Valid ∧ s.s3Req.addr = s.s1Req.addr := by
  rw [bypass3, bypass_iff]
  exact ⟨fun hb => hb.1, fun hb => ⟨hb, (h.s3 hb.1).1⟩⟩

omit h in
theorem s1Valid_of_masked (h : s.s1ValidMasked i) : s.s1Valid := by
  rw [s1ValidMasked, Bool.and_eq_true] at h
  exact h.1

/-! One cycle, field by field. -/

theorem memory_next (a : WordAddr p) (w : Fin p.nWays) (ha : Holds tags a w) :
    memNext s i m a =
      if (s.next tags i).s3Valid = true ∧ (s.next tags i).s3Req.addr = a then
        (s.next tags i).s3ReqData
      else (s.next tags i).array w a.block.idx a.word := by
  have harr : (s.next tags i).array w a.block.idx a.word = m a := h.arrayNext_eq ha
  have hv3 : (s.next tags i).s3Valid = writes2 s i := by
    cases hv : s.s2Valid with
    | false => simp [next, writes2, hv]
    | true => simp [next, writes2, hv, (h.s2 hv).1]
  rw [h.memNext_apply, harr, hv3]
  by_cases hw : writes2 s i
  · have hw' : s.s2Valid ∧ s.s2Req.cmd.isWrite := by
      simp only [writes2, Bool.and_eq_true] at hw
      exact ⟨hw.1.1, hw.2⟩
    simp [next, hw'.1, hw'.2]
  · simp [hw]

theorem s3_next (hv : (s.next tags i).s3Valid) :
    (s.next tags i).s3Req.cmd.isWrite ∧
      ∃ w, Holds tags (s.next tags i).s3Req.addr w ∧ (s.next tags i).s3Way = uintToOH w := by
  have hv' : ((s.s2Valid ∧ s.s2Hit) ∧ s.s2ScFail i = false) ∧
      s.s2Req.cmd.isWrite := by
    simpa [next] using hv
  obtain ⟨⟨⟨hv2, -⟩, -⟩, hw⟩ := hv'
  simpa [next, hv2, hw] using (h.s2 hv2).2.1

/-- The way that matches in the first stage is the one that holds the block. -/
theorem s1TagMatchWay_eq (hv : s.s1Valid)
    (hw : Holds tags s.s1Req.addr w) : s.s1TagMatchWay tags = uintToOH w := by
  funext v
  have hraddr := (h.s1 hv).2.2
  rw [s1TagMatchWay, s1TagEqWay, metaResp, hraddr]
  exact hw v

theorem prebypass_next (hv : s.s1Valid) (hw : Holds tags s.s1Req.addr w) :
    (s.next tags i).s2DataWordPrebypass = s.rdata w := by
  have hclk := (h.s1 hv).1
  have hway := h.s1TagMatchWay_eq hv hw
  have heq : s.s1TagEqWay tags w := by
    have hself := congrFun hway w
    rw [uintToOH_self, s1TagMatchWay, Bool.and_eq_true] at hself
    exact hself.1
  have hsel : (s.next tags i).s2TagMatchWay = uintToOH w := by simp [next, hclk, hway]
  rw [s2DataWordPrebypass, hsel, mux1H_uintToOH]
  simp [next, hclk, heq]

/-- The doubleword that an access takes into the second stage is the youngest. -/
theorem s2DataWord_next (hv : s.s1Valid) :
    (s.next tags i).s2DataWord = memNext s i m s.s1Req.addr := by
  obtain ⟨hclk, ⟨w, hw, -⟩, hraddr⟩ := h.s1 hv
  have hmem := h.memory _ w hw
  have hread := h.s1Read hv w hw
  rw [h.memNext_apply]
  have hbp : (s.next tags i).s2DataWord =
      if s.bypass2 i || s.bypass3 || s.bypass4 then s.bypassData i
      else (s.next tags i).s2DataWordPrebypass := by
    simp only [s2DataWord, next, hclk, if_true, Bool.true_and]
    split <;> rfl
  rw [hbp]
  by_cases h2 : writes2 s i ∧ s.s2Req.addr = s.s1Req.addr
  · -- the access just ahead writes the word
    have hb2 := bypass2_iff.2 h2
    simp [bypassData, hb2, h2]
  have hb2 : s.bypass2 i = false := Bool.eq_false_iff.2 fun hb => h2 (bypass2_iff.1 hb)
  rw [if_neg h2]
  by_cases h3 : s.s3Valid ∧ s.s3Req.addr = s.s1Req.addr
  · -- the one before it is about to write it
    have hb3 := h.bypass3_iff.2 h3
    simp [bypassData, hb2, hb3, hmem, h3]
  have hb3 : s.bypass3 = false := Bool.eq_false_iff.2 fun hb => h3 (h.bypass3_iff.1 hb)
  rw [if_neg h3] at hmem
  by_cases h4 : s.s4Valid ∧ s.s4Req.addr = s.s1Req.addr
  · -- it was written while it was read
    rw [if_pos h4] at hread
    have hb4 : s.bypass4 := bypass_iff.2 ⟨h4, hread.1⟩
    simp [bypassData, hb2, hb3, hb4, hmem, hread.2]
  have hb4 : s.bypass4 = false := Bool.eq_false_iff.2 fun hb => h4 (bypass_iff.1 hb).1
  rw [if_neg h4] at hread
  rw [hb2, hb3, hb4, hmem, hread]
  exact h.prebypass_next hv hw

theorem s2_next (hv : (s.next tags i).s2Valid) :
    (s.next tags i).s2Hit ∧
    (∃ w, Holds tags (s.next tags i).s2Req.addr w ∧
      (s.next tags i).s2TagMatchWay = uintToOH w) ∧
    (s.next tags i).s2DataWord = memNext s i m (s.next tags i).s2Req.addr := by
  have hv1 : s.s1Valid := s1Valid_of_masked hv
  obtain ⟨hclk, ⟨w, hw, hhit, hstay⟩, hraddr⟩ := h.s1 hv1
  have hreq : (s.next tags i).s2Req = s.s1Req := by simp [next, hclk]
  have hsel : (s.next tags i).s2TagMatchWay = uintToOH w := by
    simp [next, hclk, h.s1TagMatchWay_eq hv1 hw]
  have hstate : (s.next tags i).s2HitState = (tags s.s1Req.addr.block.idx w).coh := by
    rw [s2HitState, hsel, mux1H_uintToOH]
    simp [next, hclk, metaResp, hraddr]
  refine ⟨?_, ⟨w, by rwa [hreq], hsel⟩, by rw [hreq]; exact h.s2DataWord_next hv1⟩
  rw [s2Hit, hstate, hreq, hhit, hstay, s2TagMatch, hsel]
  simpa using ⟨w, uintToOH_self w⟩

omit h in
theorem s1_next (hok : ∀ r ∈ i.req, i.ready → Hits tags r) (hv : (s.next tags i).s1Valid) :
    (s.next tags i).s1ClkEn ∧ Hits tags (s.next tags i).s1Req ∧
      (s.next tags i).tagRaddr = (s.next tags i).s1Req.addr.block.idx := by
  cases hr : i.req with
  | none => simp [next, hr] at hv
  | some r =>
    have hready : i.ready := by simpa [next, hr] using hv
    refine ⟨by simp [next, hr], ?_, by simp [next, hr]⟩
    simpa [next, hr] using hok r hr hready

/-- The word is read before or after the write of the third stage, which then is in the
fourth. -/
theorem s1Read_next (hv : (s.next tags i).s1Valid) (w : Fin p.nWays)
    (hw : Holds tags (s.next tags i).s1Req.addr w) :
    if (s.next tags i).s4Valid = true ∧
        (s.next tags i).s4Req.addr = (s.next tags i).s1Req.addr then
      (s.next tags i).s4Req.cmd.isWrite = true ∧
        (s.next tags i).array w (s.next tags i).s1Req.addr.block.idx
          (s.next tags i).s1Req.addr.word = (s.next tags i).s4ReqData
    else (s.next tags i).array w (s.next tags i).s1Req.addr.block.idx
      (s.next tags i).s1Req.addr.word = (s.next tags i).rdata w := by
  cases hr : i.req with
  | none => simp [next, hr] at hv
  | some r =>
    have hreq : (s.next tags i).s1Req = r := by simp [next, hr]
    rw [hreq] at hw ⊢
    have harr : (s.next tags i).array w r.addr.block.idx r.addr.word = m r.addr := h.arrayNext_eq hw
    have hmem := h.memory _ w hw
    have hcond : ((s.next tags i).s4Valid ∧ (s.next tags i).s4Req.addr = r.addr) ↔
        (s.s3Valid ∧ s.s3Req.addr = r.addr) := by
      cases h3 : s.s3Valid <;> simp [next, hr, h3]
    -- a write that moves on to the fourth stage may have missed the read, any other has not
    by_cases h3 : s.s3Valid ∧ s.s3Req.addr = r.addr
    · rw [if_pos (hcond.2 h3), harr, hmem, if_pos h3]
      simp [next, hr, h3.1, (h.s3 h3.1).1]
    · rw [if_neg (fun hc => h3 (hcond.1 hc)), harr]
      have hnew : s.arrayNext w r.addr.block.idx r.addr.word = m r.addr := h.arrayNext_eq hw
      rw [if_neg h3] at hmem
      cases hn : i.readNew <;> simp [next, hr, hn, hnew, hmem]

theorem next (hok : ∀ r ∈ i.req, i.ready → Hits tags r) :
    (s.next tags i).Inv tags (memNext s i m) where
  s1 := s1_next hok
  s1Read := h.s1Read_next
  s2 := h.s2_next
  s3 := h.s3_next
  memory := h.memory_next

/-- Every access in the second stage is answered. -/
theorem respValid_eq : s.respValid = s.s2Valid := by
  cases hv : s.s2Valid with
  | false => simp [respValid, hv]
  | true => simp [respValid, hv, (h.s2 hv).1]

/-- The answer given in the second stage is the expected one. -/
theorem answer_expected (hv : s.s2Valid) : (s.answer i).resp = (s.answer i).expected m := by
  have hdata := (h.s2 hv).2.2
  simp [answer, resp, Answer.expected, hdata, s2Sc]

end HitPath.Inv

/-- What holds in every cycle of cache and log. -/
structure HitInv (tags : TagArray p) (m : WordAddr p → BitVec 68) (x : HitPath p × HitLog p) :
    Prop where
  path : x.1.Inv tags (performAll m x.2.answers)
  sequential : Sequential m x.2.answers
  issued : x.2.issued = x.2.answers.map (fun q => (q.access, q.data)) ++ x.1.inFlight

theorem HitInv.next {tags : TagArray p} {m : WordAddr p → BitVec 68} {x : HitPath p × HitLog p}
    {i : HitIn p} (h : HitInv tags m x) (hok : (hitMachine tags).ok x i) :
    HitInv tags m ((hitMachine tags).next x i) := by
  have hresp := h.path.respValid_eq
  have hmem : performAll m (x.2.next x.1 i).answers =
      HitPath.Inv.memNext x.1 i (performAll m x.2.answers) := by
    cases hv : x.1.s2Valid <;>
      simp [HitLog.next, HitPath.Inv.memNext, hresp, hv, performAll_concat]
  refine ⟨?_, ?_, ?_⟩
  · change (x.1.next tags i).Inv tags (performAll m (x.2.next x.1 i).answers)
    rw [hmem]
    exact h.path.next hok
  · change Sequential m (x.2.next x.1 i).answers
    cases hv : x.1.s2Valid with
    | false => simpa [HitLog.next, hresp, hv] using h.sequential
    | true => simpa [HitLog.next, hresp, hv] using h.sequential.concat (h.path.answer_expected hv)
  · -- the access in the second stage is answered, the one in the first takes its place
    change (x.2.next x.1 i).issued =
      (x.2.next x.1 i).answers.map (fun q => (q.access, q.data)) ++ (x.1.next tags i).inFlight
    have hdone : (x.2.next x.1 i).answers.map (fun q => (q.access, q.data)) = x.2.issued := by
      rw [h.issued]
      cases hv : x.1.s2Valid <;>
        simp [HitLog.next, HitPath.inFlight, HitPath.answer, hresp, hv]
    rw [hdone]
    cases hv : x.1.s1ValidMasked i with
    | false => simp [HitLog.next, HitPath.inFlight, HitPath.next, hv]
    | true =>
      have hclk := (h.path.s1 (HitPath.Inv.s1Valid_of_masked hv)).1
      cases hw : x.1.s1Req.cmd.isWrite <;>
        simp [HitLog.next, HitPath.inFlight, HitPath.next, hv, hclk, hw, Access.operand]

theorem HitPath.Reset.inv {tags : TagArray p} {s : HitPath p} (h : s.Reset) :
    HitInv tags (contents tags s.array) (s, ⟨[], []⟩) where
  path :=
    { s1 := fun hv => absurd hv (by simp [h.s1Valid])
      s1Read := fun hv => absurd hv (by simp [h.s1Valid])
      s2 := fun hv => absurd hv (by simp [h.s2Valid])
      s3 := fun hv => absurd hv (by simp [h.s3Valid])
      memory := fun a w ha => by
        rw [if_neg (by simp [h.s3Valid])]
        exact contents_eq ha s.array }
  sequential := trivial
  issued := by simp [HitPath.inFlight, h.s2Valid]

/-- Accesses that hit, offered in any cycles: what they return is what they would return one
after the other on the initial contents, and each that passes the first stage is answered in the
next cycle, in order. -/
theorem hit_path_sequential (tags : TagArray p) (s : HitPath p) (hs : s.Reset)
    (is : List (HitIn p)) (hl : (hitMachine tags).Legal (s, ⟨[], []⟩) is) :
    Sequential (contents tags s.array) ((hitMachine tags).run (s, ⟨[], []⟩) is).2.answers ∧
    ((hitMachine tags).run (s, ⟨[], []⟩) is).2.issued =
      ((hitMachine tags).run (s, ⟨[], []⟩) is).2.answers.map (fun q => (q.access, q.data)) ++
        ((hitMachine tags).run (s, ⟨[], []⟩) is).1.inFlight := by
  have hinv := Machine.invariant_run (m := hitMachine tags)
    (P := HitInv tags (contents tags s.array)) (fun _ _ h hok => h.next hok) hs.inv hl
  exact ⟨hinv.sequential, hinv.issued⟩

/-- A cache of one set with one way. -/
def oneWay : L1Params := { L1Params.small with idxBits := 0 }

/-- The block it holds, writable. -/
def oneWayTags : TagArray oneWay := fun _ _ => ⟨1#1, .clientExclusiveDirty⟩

/-- An access of the cache with one way. -/
def oneWayAccess (cmd : MemCmd) (typ : MemTyp) : Access oneWay := ⟨⟨⟨1#1, 0#0⟩, 5⟩, 0, cmd, typ⟩

/-- That cache with nothing to do. -/
def oneWayIdle : HitPath oneWay :=
  let r := oneWayAccess .XRD .D
  { s1Valid := false, s1Req := r, s1ClkEn := false, tagRaddr := 0#0, rdata := fun _ => 0,
    s2Valid := false, s2Req := r, s2ReqData := 0, s2TagMatchWay := fun _ => false,
    s2Coh := fun _ => .clientInvalid, s2Data := fun _ => 0, s2StoreBypass := false,
    s2StoreBypassData := 0, s3Valid := false, s3Req := r, s3ReqData := 0,
    s3Way := fun _ => false, s4Valid := false, s4Req := r, s4ReqData := 0,
    array := fun _ _ _ => 0x30000000000000042 }

/-- A tagged store, and a load of the tag right behind it. -/
def storeThenLoad : List (HitIn oneWay) :=
  [⟨some (oneWayAccess .XWR .D), true, 0, false, false, false⟩,
    ⟨some (oneWayAccess .XRD .T), true, 0x80000000000000007, false, false, false⟩,
    ⟨none, true, 0, false, false, false⟩, ⟨none, true, 0, false, false, false⟩]

theorem oneWay_hits (cmd : MemCmd) (typ : MemTyp) (hc : cmd = .XWR ∨ cmd = .XRD) :
    Hits oneWayTags (oneWayAccess cmd typ) := by
  refine ⟨⟨0, by decide⟩, fun v => ?_, ?_⟩
  · obtain rfl : v = ⟨0, by decide⟩ := Fin.ext (Nat.lt_one_iff.1 v.isLt)
    rfl
  · change ClientState.isHit cmd .clientExclusiveDirty = true ∧
      ClientState.onHit cmd .clientExclusiveDirty = .clientExclusiveDirty
    rcases hc with rfl | rfl <;> decide

theorem hit_path_sequential_forward :
    Sequential (contents oneWayTags oneWayIdle.array)
      ((hitMachine oneWayTags).run (oneWayIdle, ⟨[], []⟩) storeThenLoad).2.answers ∧
    ((hitMachine oneWayTags).run (oneWayIdle, ⟨[], []⟩) storeThenLoad).2.answers.map
      (fun q => dataOf q.resp.2) = [0x42, 8] := by
  refine ⟨(hit_path_sequential oneWayTags oneWayIdle ⟨rfl, rfl, rfl, rfl⟩ storeThenLoad ?_).1,
    by decide +kernel⟩
  refine ⟨?_, ?_, ?_, ?_, trivial⟩
  · rintro r ⟨⟩ -
    exact oneWay_hits _ _ (.inl rfl)
  · rintro r ⟨⟩ -
    exact oneWay_hits _ _ (.inr rfl)
  · rintro r ⟨⟩
  · rintro r ⟨⟩

end TaggedRiscv.L1
