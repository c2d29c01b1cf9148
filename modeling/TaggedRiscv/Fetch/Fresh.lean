import TaggedRiscv.Fetch.Frontend

/-!
# What the instruction cache answers

A log next to the cache keeps what the memory granted and when: the refills with the cycles of
their acquires and their beats, the cycles of the invalidations, and the cycle in which the
request in stage 2 was looked up. With it, an answer of the cache is the row of the latest refill
of its block, without the memory tags, and that refill was asked for after every invalidation up
to the lookup.
-/

namespace TaggedRiscv.Fetch

open Sync

variable {p : ICacheParams}

/-! ## The log -/

/-- A refill: the block, the cycle in which its acquire was taken, and the beats granted so far. -/
structure Refill (p : ICacheParams) where
  block : p.Block
  issued : ℕ
  beats : List p.Beat

/-- What happened so far. -/
structure FetchLog (p : ICacheParams) where
  now : ℕ
  invalidates : List ℕ
  /-- The refill that is under way. -/
  current : Option (Refill p)
  /-- The refills that got all their beats, the latest one first. -/
  completed : List (Refill p)
  /-- The cycle in which the request in stage 2 was in stage 1. -/
  lookup : ℕ

namespace FetchLog

def init : FetchLog p := ⟨0, [], none, [], 0⟩

variable (g : FetchLog p) (s : ICache p) (i : ICacheIn p)

/-- The latest refill of a block. -/
def latest (a : p.Block) : Option (Refill p) := g.completed.find? fun r => r.block == a

/-- The refill that a beat of this cycle belongs to. A grant may come in the cycle of its
acquire. -/
def started : Option (Refill p) :=
  match s.acquireFire i with
  | some a => some ⟨a, g.now, []⟩
  | none => g.current

/-- The refill with a beat more. -/
def granted (r : Refill p) (b : GrantBeat p) : Refill p := { r with beats := r.beats ++ [b.data] }

/-- The refill under way, and the one that this cycle completes. -/
def advance : Option (Refill p) × Option (Refill p) :=
  match g.started s i, i.grant with
  | some r, some b =>
    if (granted r b).beats.length = p.refillCycles then (none, some (granted r b))
    else (some (granted r b), none)
  | c, _ => (c, none)

def next : FetchLog p where
  now := g.now + 1
  invalidates := if i.invalidate then g.now :: g.invalidates else g.invalidates
  current := (g.advance s i).1
  completed := (g.advance s i).2.toList ++ g.completed
  lookup := if s.s2Load i && !i.kill then g.now else g.lookup

/-- A manager grants what was asked for, beat after beat. -/
def Granting : Prop :=
  ∀ b ∈ i.grant, ∃ r ∈ g.started s i, b.addrBeat.toNat = r.beats.length
deriving Decidable

end FetchLog

/-- No word that stage 2 looks at has an error. -/
def ICache.NoEccErrors (s : ICache p) : Prop := s.s2Valid = true → ∀ w, s.s2Disparity w = false
deriving Decidable

/-- Front end, cache and log, next to any core, TLB and branch prediction and any manager. -/
abbrev fetchMachine (p : ICacheParams) : Machine (FetchUnit p × FetchLog p) (FrontendIn p) where
  ok x i := x.2.Granting x.1.icache (x.1.icacheIn i) ∧ x.1.icache.NoEccErrors
  next x i := (x.1.next i, x.2.next x.1.icache (x.1.icacheIn i))

/-! ## The invariant -/

/-- The row at an address is the one of the latest refill of its block, and the acquire of that
refill came after every invalidation up to cycle `t`. -/
def FetchLog.Served (g : FetchLog p) (a : p.Addr) (row : BitVec p.rowBits) (t : ℕ) : Prop :=
  ∃ r, g.latest (p.blockOf a) = some r ∧
    (∃ b, r.beats[(p.rowOf a).toNat]? = some b ∧ row = p.removeTag b) ∧
      ∀ u ∈ g.invalidates, u ≤ t → u < r.issued

namespace ICache

/-- A way has a valid line of the block at an address. -/
def Holds (s : ICache p) (w : p.Way) (a : p.Addr) : Prop :=
  s.vbArray w (p.idxOf a) = true ∧ (s.tagArray w (p.idxOf a)).setWidth p.tagBits = p.tagOf a

/-- The row of a line at an address. -/
def rowAt (s : ICache p) (w : p.Way) (a : p.Addr) : BitVec p.rowBits :=
  (s.dataArray w (p.idxOf a ++ p.rowOf a)).setWidth p.rowBits

/-- The line that a refill is writing to. -/
def Victim (s : ICache p) (w : p.Way) (a : p.Addr) : Prop :=
  (s.state = .refillWait ∨ s.state = .refill) ∧ w = s.replWay ∧ p.idxOf a = s.s2Idx

/-- How far a refill is. -/
structure Fills (s : ICache p) (g : FetchLog p) (r : Refill p) : Prop where
  block : r.block = p.blockOf s.s2Addr
  length : r.beats.length = s.refillCnt.toNat
  rows : ∀ (k : BitVec p.cntBits) (b : p.Beat), r.beats[k.toNat]? = some b →
    (s.dataArray s.replWay (s.s2Idx ++ k)).setWidth p.rowBits = p.removeTag b
  issued : s.invalidated = false → ∀ u ∈ g.invalidates, u < r.issued

/-- What holds of cache and log in every cycle. -/
structure Sound (s : ICache p) (g : FetchLog p) : Prop where
  past : ∀ u ∈ g.invalidates, u < g.now
  s1_ready : s.s1Valid → s.state = .ready
  s2_ready : s.s2Valid → s.state = .ready
  /-- What stage 1 reads. -/
  read : s.s1Valid →
    s.tagRaddr = p.idxOf s.s1Pgoff ∧ ∀ w, s.dataRaddr w = p.raddrOf s.s1Pgoff
  idle : s.state = .ready ∨ s.state = .request → g.current = none ∧ s.refillCnt = 0
  fills : ∀ r ∈ g.current, s.Fills g r
  lines : ∀ w a, s.Holds w a → ¬ s.Victim w a → g.Served a (s.rowAt w a) g.now
  unique : ∀ w w' a, s.Holds w a → s.Holds w' a → w = w'
  /-- What is fetched is not there. -/
  absent : s.state ≠ .ready → ∀ w, ¬ s.Holds w s.s2Addr
  cleared : s.state ≠ .ready → s.invalidated → ∀ w x, s.vbArray w x = false
  lookup_lt : s.s2Valid → g.lookup < g.now
  /-- A line of the block in stage 2 was found. -/
  found : s.s2Valid → ∀ w, s.Holds w s.s2Addr → s.s2TagHit w
  answer : s.s2Valid → ∀ w, s.s2TagHit w →
    g.Served s.s2Addr ((s.s2Dout w).setWidth p.rowBits) g.lookup
  hit_unique : s.s2Valid → ∀ w w', s.s2TagHit w → s.s2TagHit w' → w = w'

/-! ## What a cycle does -/

section Step

variable {s : ICache p} {i : ICacheIn p} {g : FetchLog p}

theorem state_of_rdy (h : s.rdy) : s.state = .ready ∧ s.s2Miss = false := by
  simpa [rdy] using h

theorem s2Miss_of_not_valid (h : s.s2Valid = false) : s.s2Miss = false := by simp [s2Miss, h]

theorem not_miss_of_respValid (h : s.respValid) : s.s2Valid ∧ s.s2Miss = false := by
  simp only [respValid, s2Hit, Bool.and_eq_true] at h
  simp [s2Miss, h.1, h.2]

/-- Without errors an answer is a hit in some way. -/
theorem respValid_iff (he : s.NoEccErrors) : s.respValid ↔ s.s2Valid ∧ ∃ w, s.s2TagHit w := by
  simp only [respValid, s2Hit, Bool.and_eq_true]
  refine and_congr_right fun hv => ?_
  have hclean : (List.finRange p.nWays).any s.s2Disparity = false := by simp [he hv]
  simp [s2AnyTagHit, hclean]

/-- Stage 2 takes over stage 1, or keeps an answer that is not taken. -/
theorem next_s2Valid (hd : s.Driven i) (h : (s.next i).s2Valid) :
    s.s2Load i ∧ i.kill = false ∨ s.s2Load i = false ∧ s.respValid := by
  cases hready : i.respReady with
  | true =>
    have hmoved : s.s1Valid ∧ s.rdy ∧ i.kill = false := by
      simpa [next, stall, hready, and_assoc] using h
    exact .inl ⟨by simp [s2Load, stall, hready, hmoved.1, hmoved.2.1], hmoved.2.2⟩
  | false =>
    refine .inr ⟨by simp [s2Load, stall, hready], ?_⟩
    cases hkill : i.kill with
    | false => exact hd.stalled hready hkill
    | true => simpa [next, stall, hready, hkill] using h

/-- Stage 1 gets a new request, or keeps one behind an answer that is not taken. -/
theorem next_s1Valid (hd : s.Driven i) (h : (s.next i).s1Valid) :
    i.reqValid ∧ s.rdy ∧ (s.s1Valid && stall i) = false ∨
      (i.reqValid && s.rdy) = false ∧ (s.s1Valid && stall i) = true ∧ s.respValid := by
  cases hreq : i.reqValid && s.rdy with
  | true =>
    rw [Bool.and_eq_true] at hreq
    refine .inl ⟨hreq.1, hreq.2, ?_⟩
    cases hs1 : s.s1Valid with
    | true => simp [stall, hd.req hreq.1 hs1]
    | false => rfl
  | false =>
    have hheld : s.s1Valid ∧ i.respReady = false ∧ i.kill = false := by
      simpa [next, stall, hreq, and_assoc] using h
    exact .inr ⟨rfl, by simp [stall, hheld.1, hheld.2.1], hd.stalled hheld.2.1 hheld.2.2⟩

/-- The valid bits where nothing has an error. -/
theorem vbNext_eq (he : s.NoEccErrors) :
    s.vbNext i = if i.invalidate then fun _ _ => false
      else if s.refillDone i && !s.invalidated then setBit s.vbArray s.replWay s.s2Idx true
      else s.vbArray := by
  have hclean : ∀ w, (s.s2Valid && s.s2Disparity w) = false := by
    intro w
    cases hv : s.s2Valid with
    | true => simp [he hv w]
    | false => rfl
  simp only [vbNext, hclean, Bool.false_eq_true, if_false, List.foldl_fixed]

end Step

end ICache

/-! ## What the log adds -/

variable {r : Refill p} {a : p.Addr}

namespace FetchLog

variable {s : ICache p} {i : ICacheIn p} {g : FetchLog p}

theorem mem_next_invalidates {u : ℕ} : u ∈ (g.next s i).invalidates ↔
    i.invalidate ∧ u = g.now ∨ u ∈ g.invalidates := by
  cases hi : i.invalidate <;> simp [next, hi]

theorem mem_advance_fst (h : r ∈ (g.advance s i).1) :
    i.grant = none ∧ r ∈ g.started s i ∨
      ∃ r₀ ∈ g.started s i, ∃ b ∈ i.grant, r = granted r₀ b ∧ r.beats.length ≠ p.refillCycles := by
  unfold advance at h
  split at h
  · next r₀ b hr hb =>
    split_ifs at h with hfull
    · simp at h
    · obtain rfl := Option.mem_some.1 h
      exact .inr ⟨r₀, hr, b, hb, rfl, hfull⟩
  · next hnone =>
    cases hb : i.grant with
    | none => exact .inl ⟨rfl, h⟩
    | some b => exact absurd hb (hnone r b h)

theorem mem_advance_snd (h : r ∈ (g.advance s i).2) :
    ∃ r₀ ∈ g.started s i, ∃ b ∈ i.grant, r = granted r₀ b ∧ r.beats.length = p.refillCycles := by
  unfold advance at h
  split at h
  · next r₀ b hr hb =>
    split_ifs at h with hfull
    · obtain rfl := Option.mem_some.1 h
      exact ⟨r₀, hr, b, hb, rfl, hfull⟩
    · simp at h
  · simp at h

theorem advance_of_full {b : GrantBeat p} (hr : g.started s i = some r)
    (hb : i.grant = some b) (hfull : (granted r b).beats.length = p.refillCycles) :
    g.advance s i = (none, some (granted r b)) := by
  simp [advance, hr, hb, hfull]

/-- A row stays served until its block is refilled, with respect to the invalidations it was served
with. -/
theorem Served.next {row : BitVec p.rowBits} {t t' : ℕ} (h : g.Served a row t)
    (hother : ∀ r ∈ (g.advance s i).2, r.block ≠ p.blockOf a)
    (hpast : ∀ u ∈ (g.next s i).invalidates, u ≤ t' → u ∈ g.invalidates ∧ u ≤ t) :
    (g.next s i).Served a row t' := by
  obtain ⟨r, hr, hrow, hissued⟩ := h
  refine ⟨r, ?_, hrow, fun u hu hle => hissued u (hpast u hu hle).1 (hpast u hu hle).2⟩
  rw [← hr, latest, latest]
  cases hdone : (g.advance s i).2 with
  | none => simp [FetchLog.next, hdone]
  | some r' => simp [FetchLog.next, hdone, hother r' hdone]

end FetchLog

namespace ICache

variable {s : ICache p} {i : ICacheIn p} {g : FetchLog p}

open FetchLog

variable {w : p.Way}

namespace Sound

variable (h : s.Sound g)

include h

/-! ## The refill -/

theorem s2Valid_of_not_ready (hs : s.state ≠ .ready) : s.s2Valid = false := by
  by_contra hv
  exact hs (h.s2_ready (by simpa using hv))

theorem started_of_ready (hs : s.state = .ready) : g.started s i = none := by
  have hno : s.acquireFire i = none := by simp [acquireFire, acquire, hs]
  rw [started, hno]
  exact (h.idle (.inl hs)).1

/-- Nothing is granted before it is asked for. -/
theorem grant_of_ready (hg : g.Granting s i) (hs : s.state = .ready) : i.grant = none := by
  cases hb : i.grant with
  | none => rfl
  | some b =>
    obtain ⟨r, hr, -⟩ := hg b hb
    rw [h.started_of_ready hs] at hr
    simp at hr

theorem grant_of_waiting (hg : g.Granting s i) (hs : s.state = .request)
    (hready : i.acquireReady = false) : i.grant = none := by
  cases hb : i.grant with
  | none => rfl
  | some b =>
    obtain ⟨r, hr, -⟩ := hg b hb
    have hno : s.acquireFire i = none := by simp [acquireFire, hready]
    rw [started, hno, (h.idle (.inr hs)).1] at hr
    simp at hr

/-- A refill starts with nothing, in the cycle of its acquire. -/
theorem fills_started (hr : r ∈ g.started s i) : s.Fills g r := by
  unfold started at hr
  split at hr
  · next a ha =>
    obtain rfl := Option.mem_some.1 hr
    have hs : s.state = .request ∧ p.blockOf s.s2Addr = a := by
      simp only [acquireFire, acquire] at ha
      split_ifs at ha with hready hs
      exact ⟨hs, Option.some.inj ha⟩
    exact { block := hs.2.symm
            length := by simp [(h.idle (.inr hs.1)).2]
            rows := by simp
            issued := fun _ => h.past }
  · exact h.fills r hr

/-- The registers that a refill relies on do not change during it. -/
theorem frame (hs : s.state ≠ .ready) :
    (s.next i).s2Addr = s.s2Addr ∧ (s.next i).replWay = s.replWay := by
  have hrdy : s.rdy = false := by simp [rdy, hs]
  have hlfsr : (s.next i).lfsr = s.lfsr := by
    simp [next, s2Miss_of_not_valid (h.s2Valid_of_not_ready hs)]
  exact ⟨by simp [next, s2Load, hrdy], by rw [replWay, hlfsr, replWay]⟩

omit h in
theorem issued_next (hs : s.state ≠ .ready) (hr : s.Fills g r)
    (hinv : (s.next i).invalidated = false) : ∀ u ∈ (g.next s i).invalidates, u < r.issued := by
  have hboth : s.invalidated = false ∧ i.invalidate = false := by simpa [next, hs] using hinv
  intro u hu
  obtain ⟨hnow, -⟩ | hold := mem_next_invalidates.1 hu
  · rw [hboth.2] at hnow
    exact absurd hnow Bool.false_ne_true
  · exact hr.issued hboth.1 u hold

omit h in
/-- The beat goes to its row, and the rows before it stay. -/
theorem rows_granted (hr : s.Fills g r) {b : GrantBeat p} (hb : i.grant = some b)
    (k : BitVec p.cntBits) (d : p.Beat) (hd : (granted r b).beats[k.toNat]? = some d) :
    ((s.next i).dataArray s.replWay (s.s2Idx ++ k)).setWidth p.rowBits = p.removeTag d := by
  have hwen : s.wen i s.replWay := by simp [wen, hb]
  by_cases hk : k = s.refillCnt
  · have hlast : d = b.data := by
      rw [granted, hk, ← hr.length, List.getElem?_concat_length] at hd
      exact (Option.some.inj hd).symm
    simp only [next, hwen, hk, beq_self_eq_true, Bool.and_self, if_true, refillData, hb,
      Option.map_some, Option.getD_some, hlast]
    exact p.code_low _ _
  · have hne : s.s2Idx ++ k ≠ s.s2Idx ++ s.refillCnt := fun heq => hk (by
      simpa [BitVec.extractLsb'_append_eq_right] using
        congrArg (BitVec.extractLsb' 0 p.cntBits) heq)
    have hlt : k.toNat < r.beats.length := by
      have hle := (List.getElem?_eq_some_iff.1 hd).1
      have hne' : k.toNat ≠ s.refillCnt.toNat := fun heq => hk (BitVec.eq_of_toNat_eq heq)
      rw [← hr.length] at hne'
      simp only [granted, List.length_append, List.length_singleton] at hle
      omega
    rw [granted, List.getElem?_append_left hlt] at hd
    rw [← hr.rows k d hd]
    simp [next, hne]

theorem fills_next (hs : s.state ≠ .ready) (hr : s.Fills g r)
    (hnone : i.grant = none) : (s.next i).Fills (g.next s i) r := by
  obtain ⟨haddr, hway⟩ := h.frame (i := i) hs
  exact { block := by rw [haddr, hr.block]
          length := by simp [next, hnone, hr.length]
          rows := fun k b hb => by
            rw [← hr.rows k b hb, hway, s2Idx, haddr]
            simp [next, wen, hnone, s2Idx]
          issued := issued_next hs hr }

theorem fills_granted (hs : s.state ≠ .ready) (hr : s.Fills g r) {b : GrantBeat p}
    (hb : i.grant = some b) (hmore : (granted r b).beats.length ≠ p.refillCycles) :
    (s.next i).Fills (g.next s i) (granted r b) := by
  obtain ⟨haddr, hway⟩ := h.frame (i := i) hs
  have hlen : (granted r b).beats.length = s.refillCnt.toNat + 1 := by simp [granted, hr.length]
  have hlt : s.refillCnt.toNat + 1 < 2 ^ p.cntBits := by
    have := s.refillCnt.isLt
    rw [hlen, ICacheParams.refillCycles] at hmore
    omega
  exact { block := by rw [haddr, ← hr.block]; rfl
          length := by
            have hone : (1 : ℕ) % 2 ^ p.cntBits = 1 := Nat.mod_eq_of_lt (by omega)
            simp [next, hb, hlen, BitVec.toNat_add, hone, Nat.mod_eq_of_lt hlt]
          rows := fun k d hd => by
            rw [hway, s2Idx, haddr]
            exact rows_granted hr hb k d hd
          issued := issued_next (r := r) hs hr }

/-- The last beat completes the refill in the log. -/
theorem completes (hg : g.Granting s i) (hdone : s.refillDone i) :
    ∃ r b, s.Fills g r ∧ i.grant = some b ∧ g.advance s i = (none, some (granted r b)) ∧
      (granted r b).beats.length = p.refillCycles ∧ s.refillCnt.toNat + 1 = p.refillCycles := by
  simp only [refillDone, refillWrap, Bool.and_eq_true, beq_iff_eq] at hdone
  obtain ⟨-, hsome, hcnt⟩ := hdone
  obtain ⟨b, hb⟩ := Option.isSome_iff_exists.1 hsome
  obtain ⟨r, hr, -⟩ := hg b hb
  have hfills := h.fills_started hr
  have hpos : 0 < p.refillCycles := Nat.two_pow_pos _
  have hfull : (granted r b).beats.length = p.refillCycles := by
    simp only [granted, List.length_append, List.length_singleton, hfills.length]
    omega
  exact ⟨r, b, hfills, hb, advance_of_full hr hb hfull, hfull, by omega⟩

/-! ## The lines -/

omit h in
theorem state_of_refillDone (hdone : s.refillDone i) : s.state = .refill := by
  simp only [refillDone, Bool.and_eq_true, beq_iff_eq] at hdone
  exact hdone.1

omit h in
/-- Addresses of one block are held together. -/
theorem holds_congr {a b : p.Addr} (hab : p.blockOf a = p.blockOf b) :
    s.Holds w a ↔ s.Holds w b := by
  obtain ⟨htag, hidx⟩ := ICacheParams.blockOf_eq_iff.1 hab
  rw [Holds, Holds, htag, hidx]

/-- A line after a cycle without an invalidation: it was there before, or its refill has just
been completed. -/
theorem holds_of_next (he : s.NoEccErrors) (hh : (s.next i).Holds w a) :
    i.invalidate = false ∧
      (s.Holds w a ∧ ¬ (s.refillDone i ∧ w = s.replWay ∧ p.idxOf a = s.s2Idx) ∨
        s.refillDone i ∧ s.invalidated = false ∧ w = s.replWay ∧
          p.blockOf a = p.blockOf s.s2Addr) := by
  obtain ⟨hvb, htag⟩ := hh
  have hinv : i.invalidate = false := by
    by_contra hinv
    rw [Bool.not_eq_false] at hinv
    simp [next, vbNext_eq he, hinv] at hvb
  refine ⟨hinv, ?_⟩
  simp only [next, vbNext_eq he, hinv, Bool.false_eq_true, if_false] at hvb
  by_cases hline : s.refillDone i ∧ w = s.replWay ∧ p.idxOf a = s.s2Idx
  · obtain ⟨hdone, hw, hidx⟩ := hline
    have htag' : p.tagOf s.s2Addr = p.tagOf a := by
      simpa [next, hdone, hw, hidx, s2Tag, p.code_low] using htag
    refine .inr ⟨hdone, ?_, hw, ICacheParams.blockOf_eq_iff.2 ⟨htag'.symm, hidx⟩⟩
    -- after an invalidation no line is valid, and the refill makes none valid
    by_contra hmark
    rw [Bool.not_eq_false] at hmark
    have hnot : s.state ≠ .ready := by simp [state_of_refillDone hdone]
    simp [hmark, h.cleared hnot hmark] at hvb
  · refine .inl ⟨⟨?_, ?_⟩, hline⟩
    · split_ifs at hvb with hfill
      · rw [Bool.and_eq_true] at hfill
        have hother : ¬ (w = s.replWay ∧ p.idxOf a = s.s2Idx) := fun hwx => hline ⟨hfill.1, hwx⟩
        simpa [setBit, hother] using hvb
      · exact hvb
    · have hold : ¬ ((s.refillDone i && s.replWay == w && p.idxOf a == s.s2Idx) = true) := by
        intro hall
        simp only [Bool.and_eq_true, beq_iff_eq] at hall
        exact hline ⟨hall.1.1, hall.1.2.symm, hall.2⟩
      simp only [next] at htag
      rwa [if_neg hold] at htag

theorem unique_next (he : s.NoEccErrors) (w w' : p.Way) (a : p.Addr) (hw : (s.next i).Holds w a)
    (hw' : (s.next i).Holds w' a) : w = w' := by
  -- the new line is the only one of its block, since the block was absent
  have hnew : ∀ v, s.refillDone i → p.blockOf a = p.blockOf s.s2Addr → ¬ s.Holds v a := by
    intro v hdone hblock hv
    exact h.absent (by simp [state_of_refillDone hdone]) v ((holds_congr hblock).1 hv)
  obtain ⟨-, ⟨hold, -⟩ | ⟨hdone, -, hway, hblock⟩⟩ := h.holds_of_next he hw
  · obtain ⟨-, ⟨hold', -⟩ | ⟨hdone, -, -, hblock⟩⟩ := h.holds_of_next he hw'
    · exact h.unique w w' a hold hold'
    · exact absurd hold (hnew w hdone hblock)
  · obtain ⟨-, ⟨hold', -⟩ | ⟨-, -, hway', -⟩⟩ := h.holds_of_next he hw'
    · exact absurd hold' (hnew w' hdone hblock)
    · rw [hway, hway']

/-- While a refill goes on, its line is the victim. -/
theorem victim_next (hg : g.Granting s i) (hnot : s.state ≠ .ready)
    (hbusy : s.state = .request → i.grant.isSome) (hdone : s.refillDone i = false)
    (hw : w = s.replWay) (hidx : p.idxOf a = s.s2Idx) : (s.next i).Victim w a := by
  obtain ⟨haddr, hway⟩ := h.frame (i := i) hnot
  refine ⟨?_, hw.trans hway.symm, by rw [hidx, s2Idx, s2Idx, haddr]⟩
  cases hs : s.state with
  | ready => exact absurd hs hnot
  | request =>
    have hready : i.acquireReady := by
      by_contra hready
      rw [Bool.not_eq_true] at hready
      simp [h.grant_of_waiting hg hs hready] at hbusy
      exact hbusy hs
    simp [next, stateNext, hs, hready]
  | refillWait => cases hb : i.grant <;> simp [next, stateNext, hs, hb]
  | refill => simp [next, stateNext, hs, hdone]

/-- The row of a line that is no victim after the cycle does not change in it. -/
theorem rowAt_next (hg : g.Granting s i)
    (hline : ¬ (s.refillDone i ∧ w = s.replWay ∧ p.idxOf a = s.s2Idx))
    (hsafe : ¬ (s.next i).Victim w a) : (s.next i).rowAt w a = s.rowAt w a := by
  have hkeep : ¬ ((s.wen i w && (p.idxOf a ++ p.rowOf a) == s.s2Idx ++ s.refillCnt) = true) := by
    intro hwrite
    simp only [wen, Bool.and_eq_true, beq_iff_eq] at hwrite
    obtain ⟨⟨hsome, hway⟩, haddr⟩ := hwrite
    have hidx : p.idxOf a = s.s2Idx := by
      simpa [BitVec.extractLsb'_append_eq_left] using
        congrArg (BitVec.extractLsb' p.cntBits p.idxBits) haddr
    have hnot : s.state ≠ .ready := fun hs => by simp [h.grant_of_ready hg hs] at hsome
    have hdone : s.refillDone i = false := by
      by_contra hdone
      exact hline ⟨by simpa using hdone, hway.symm, hidx⟩
    exact hsafe (h.victim_next hg hnot (fun _ => hsome) hdone hway.symm hidx)
  simp only [rowAt, next]
  rw [if_neg hkeep]

/-- What a cycle completes is a refill of the block in stage 2. -/
theorem block_of_completed (hr : r ∈ (g.advance s i).2) :
    s.state ≠ .ready ∧ r.block = p.blockOf s.s2Addr := by
  obtain ⟨r₀, hr₀, b, hb, rfl, -⟩ := mem_advance_snd hr
  refine ⟨fun hs => ?_, (h.fills_started hr₀).block⟩
  rw [h.started_of_ready hs] at hr₀
  simp at hr₀

theorem lines_next (hg : g.Granting s i) (he : s.NoEccErrors) (w : p.Way) (a : p.Addr)
    (hh : (s.next i).Holds w a) (hsafe : ¬ (s.next i).Victim w a) :
    (g.next s i).Served a ((s.next i).rowAt w a) (g.next s i).now := by
  obtain ⟨hinv, ⟨hold, hline⟩ | ⟨hdone, hmark, hw, hblock⟩⟩ := h.holds_of_next he hh
  · rw [h.rowAt_next hg hline hsafe]
    have hsafe' : ¬ s.Victim w a := by
      rintro ⟨hs, hw, hidx⟩
      have hdone : s.refillDone i = false := by
        by_contra hdone
        exact hline ⟨by simpa using hdone, hw, hidx⟩
      refine hsafe (h.victim_next hg ?_ (fun hreq => ?_) hdone hw hidx)
      · rcases hs with hs | hs <;> simp [hs]
      · rcases hs with hs | hs <;> simp [hreq] at hs
    refine (h.lines w a hold hsafe').next (fun r hr hra => ?_) fun u hu _ => ?_
    · obtain ⟨hnot, hblock⟩ := h.block_of_completed hr
      exact h.absent hnot w ((holds_congr (hra.symm.trans hblock)).1 hold)
    · obtain ⟨hnow, -⟩ | hu := mem_next_invalidates.1 hu
      · rw [hinv] at hnow
        exact absurd hnow Bool.false_ne_true
      · exact ⟨hu, (h.past u hu).le⟩
  · -- the line that the last beat has completed
    obtain ⟨r, b, hfills, hb, hadv, hfull, -⟩ := h.completes hg hdone
    have hnot : s.state ≠ .ready := by simp [state_of_refillDone hdone]
    obtain ⟨-, hidx⟩ := ICacheParams.blockOf_eq_iff.1 hblock
    have hk : (p.rowOf a).toNat < (granted r b).beats.length := by
      rw [hfull]
      exact (p.rowOf a).isLt
    refine ⟨granted r b, ?_, ⟨_, List.getElem?_eq_getElem hk, ?_⟩, fun u hu _ => ?_⟩
    · have hrb : (granted r b).block = p.blockOf a := hfills.block.trans hblock.symm
      simp [latest, FetchLog.next, hadv, hrb]
    · rw [rowAt, hw, hidx]
      exact rows_granted hfills hb _ _ (List.getElem?_eq_getElem hk)
    · exact issued_next hnot hfills (by simp [next, hnot, hmark, hinv]) u hu

/-! ## The pipeline -/

omit h in
theorem state_next_of_rdy (h : s.rdy) : (s.next i).state = .ready := by
  obtain ⟨hs, hmiss⟩ := state_of_rdy h
  simp [next, stateNext, hs, hmiss]

theorem rdy_of_respValid (hresp : s.respValid) : s.rdy := by
  obtain ⟨hv, hmiss⟩ := not_miss_of_respValid hresp
  simp [rdy, h.s2_ready hv, hmiss]

omit h in
theorem rdy_of_s2Load (hload : s.s2Load i) : s.rdy := by
  simp only [s2Load, Bool.and_eq_true] at hload
  exact hload.1.2

omit h in
theorem s1Valid_of_s2Load (hload : s.s2Load i) : s.s1Valid := by
  simp only [s2Load, Bool.and_eq_true] at hload
  exact hload.1.1

/-- The pipeline moves only while no refill is under way. -/
theorem rdy_of_next_s2Valid (hd : s.Driven i) (hv : (s.next i).s2Valid) : s.rdy := by
  obtain ⟨hload, -⟩ | ⟨-, hresp⟩ := next_s2Valid hd hv
  · exact rdy_of_s2Load hload
  · exact h.rdy_of_respValid hresp

theorem rdy_of_next_s1Valid (hd : s.Driven i) (hv : (s.next i).s1Valid) : s.rdy := by
  obtain ⟨-, hrdy, -⟩ | ⟨-, -, hresp⟩ := next_s1Valid hd hv
  · exact hrdy
  · exact h.rdy_of_respValid hresp

/-- Nothing is written in a cycle in which the pipeline moves. -/
theorem quiet_of_rdy (hg : g.Granting s i) (hrdy : s.rdy) :
    s.refillDone i = false ∧ (∀ w, s.wen i w = false) ∧ (g.advance s i).2 = none := by
  have hs := (state_of_rdy hrdy).1
  have hnone := h.grant_of_ready hg hs
  refine ⟨by simp [refillDone, hs], fun w => by simp [wen, hnone], ?_⟩
  rw [advance, h.started_of_ready hs]

theorem read_next (hg : g.Granting s i) (hd : s.Driven i) (hv : (s.next i).s1Valid) :
    (s.next i).tagRaddr = p.idxOf (s.next i).s1Pgoff ∧
      ∀ w, (s.next i).dataRaddr w = p.raddrOf (s.next i).s1Pgoff := by
  obtain ⟨hdone, hwen, -⟩ := h.quiet_of_rdy hg (h.rdy_of_next_s1Valid hd hv)
  have haddr : s.s0Valid i ∧ s.s0Pgoff i = (s.next i).s1Pgoff := by
    obtain ⟨hreq, hrdy, hfree⟩ | ⟨hnoReq, hheld, -⟩ := next_s1Valid hd hv
    · exact ⟨by simp [s0Valid, hreq], by simp [s0Pgoff, hfree, next, hreq, hrdy]⟩
    · exact ⟨by simp [s0Valid, hheld], by simp [s0Pgoff, hheld, next, hnoReq]⟩
  rw [← haddr.2]
  simp [next, hdone, hwen, haddr.1]

/-- The lookup finds the valid lines of its block, unless they are being invalidated. -/
theorem lookup_hit_iff (hs1 : s.s1Valid) (w : p.Way) :
    (s.s1Vb i w && s.s1TagMatch i w) = true ↔ i.invalidate = false ∧ s.Holds w (s.s1Addr i) := by
  have hidx : p.idxOf (s.s1Addr i) = p.idxOf s.s1Pgoff := ICacheParams.idxOf_append _ _
  simp only [s1Vb, s1TagMatch, tagOut, (h.read hs1).1, s1Tag, Holds, hidx, Bool.and_eq_true,
    Bool.not_eq_true', beq_iff_eq, and_assoc]

/-- The lookup reads the row at its address. -/
theorem lookup_row (hs1 : s.s1Valid) (w : p.Way) :
    (s.s1Rdata w).setWidth p.rowBits = s.rowAt w (s.s1Addr i) := by
  have hidx : p.idxOf (s.s1Addr i) = p.idxOf s.s1Pgoff := ICacheParams.idxOf_append _ _
  have hrow : p.rowOf (s.s1Addr i) = p.rowOf s.s1Pgoff := ICacheParams.rowOf_append _ _
  rw [s1Rdata, (h.read hs1).2 w, rowAt, hidx, hrow, ICacheParams.raddrOf_eq]

omit h in
/-- Stage 2 after a lookup. -/
theorem s2TagHit_of_load (hload : s.s2Load i) (w : p.Way) :
    (s.next i).s2TagHit w = (s.s1Vb i w && s.s1TagMatch i w) := by
  simp [s2TagHit, next, hload]

omit h in
theorem s2Addr_of_load (hload : s.s2Load i) : (s.next i).s2Addr = s.s1Addr i := by
  simp [next, hload]

omit h in
/-- Stage 2 while an answer waits. -/
theorem s2_of_keep (hkeep : s.s2Load i = false) : (s.next i).s2Addr = s.s2Addr ∧
    (s.next i).s2TagHit = s.s2TagHit ∧ (s.next i).s2Dout = s.s2Dout := by
  refine ⟨by simp [next, hkeep], ?_, ?_⟩ <;>
  · funext w
    simp [s2TagHit, next, hkeep]

theorem found_next (hg : g.Granting s i) (he : s.NoEccErrors) (hd : s.Driven i)
    (hv : (s.next i).s2Valid) (w : p.Way) (hh : (s.next i).Holds w (s.next i).s2Addr) :
    (s.next i).s2TagHit w := by
  have hdone := (h.quiet_of_rdy hg (h.rdy_of_next_s2Valid hd hv)).1
  obtain ⟨hinv, ⟨hold, -⟩ | ⟨hrefill, -⟩⟩ := h.holds_of_next he hh
  · obtain ⟨hload, -⟩ | ⟨hkeep, hresp⟩ := next_s2Valid hd hv
    · rw [s2Addr_of_load hload] at hold
      rw [s2TagHit_of_load hload, h.lookup_hit_iff (s1Valid_of_s2Load hload)]
      exact ⟨hinv, hold⟩
    · obtain ⟨haddr, hhit, -⟩ := s2_of_keep hkeep
      rw [haddr] at hold
      rw [hhit]
      exact h.found (not_miss_of_respValid hresp).1 w hold
  · rw [hdone] at hrefill
    exact absurd hrefill Bool.false_ne_true

theorem hit_unique_next (hd : s.Driven i) (hv : (s.next i).s2Valid) (w w' : p.Way)
    (hw : (s.next i).s2TagHit w) (hw' : (s.next i).s2TagHit w') : w = w' := by
  obtain ⟨hload, -⟩ | ⟨hkeep, hresp⟩ := next_s2Valid hd hv
  · have hs1 := s1Valid_of_s2Load hload
    rw [s2TagHit_of_load hload, h.lookup_hit_iff hs1] at hw hw'
    exact h.unique w w' _ hw.2 hw'.2
  · rw [(s2_of_keep hkeep).2.1] at hw hw'
    exact h.hit_unique (not_miss_of_respValid hresp).1 w w' hw hw'

theorem lookup_lt_next (hd : s.Driven i) (hv : (s.next i).s2Valid) :
    (g.next s i).lookup < (g.next s i).now := by
  obtain ⟨hload, hkill⟩ | ⟨hkeep, hresp⟩ := next_s2Valid hd hv
  · simp [FetchLog.next, hload, hkill]
  · simpa [FetchLog.next, hkeep] using
      Nat.lt_succ_of_lt (h.lookup_lt (not_miss_of_respValid hresp).1)

theorem answer_next (hg : g.Granting s i) (hd : s.Driven i) (hv : (s.next i).s2Valid)
    (w : p.Way) (hw : (s.next i).s2TagHit w) :
    (g.next s i).Served (s.next i).s2Addr (((s.next i).s2Dout w).setWidth p.rowBits)
      (g.next s i).lookup := by
  have hrdy := h.rdy_of_next_s2Valid hd hv
  have hnone := (h.quiet_of_rdy hg hrdy).2.2
  have hother : ∀ r ∈ (g.advance s i).2, r.block ≠ p.blockOf (s.next i).s2Addr := by simp [hnone]
  obtain ⟨hload, hkill⟩ | ⟨hkeep, hresp⟩ := next_s2Valid hd hv
  · have hs1 := s1Valid_of_s2Load hload
    rw [s2TagHit_of_load hload] at hw
    obtain ⟨hinv, hh⟩ := (h.lookup_hit_iff hs1 w).1 hw
    have hready := (state_of_rdy hrdy).1
    have hsafe : ¬ s.Victim w (s.s1Addr i) := by rintro ⟨hs | hs, -⟩ <;> simp [hready] at hs
    have hrow : ((s.next i).s2Dout w).setWidth p.rowBits = s.rowAt w (s.s1Addr i) := by
      rw [← h.lookup_row hs1 w]
      simp only [Bool.and_eq_true] at hw
      simp [next, hload, hw.2]
    rw [s2Addr_of_load hload] at hother ⊢
    rw [hrow]
    refine (h.lines w _ hh hsafe).next hother fun u hu _ => ?_
    -- an invalidation in this cycle would have kept the lookup from hitting
    obtain ⟨hnow, -⟩ | hold := mem_next_invalidates.1 hu
    · rw [hinv] at hnow
      exact absurd hnow Bool.false_ne_true
    · exact ⟨hold, (h.past u hold).le⟩
  · obtain ⟨haddr, hhit, hdout⟩ := s2_of_keep hkeep
    have hs2 := (not_miss_of_respValid hresp).1
    have hlookup : (g.next s i).lookup = g.lookup := by simp [FetchLog.next, hkeep]
    rw [hhit] at hw
    rw [haddr] at hother ⊢
    rw [hdout, hlookup]
    refine (h.answer hs2 w hw).next hother fun u hu hle => ?_
    -- an invalidation in this cycle comes after the lookup
    obtain ⟨-, rfl⟩ | hold := mem_next_invalidates.1 hu
    · exact absurd (h.lookup_lt hs2) (not_lt.2 hle)
    · exact ⟨hold, hle⟩

/-! ## A cycle -/

theorem idle_next (hg : g.Granting s i)
    (hnext : (s.next i).state = .ready ∨ (s.next i).state = .request) :
    (g.next s i).current = none ∧ (s.next i).refillCnt = 0 := by
  -- the cycles in which nothing is granted
  have hquiet : i.grant = none → g.started s i = none → s.refillCnt = 0 →
      (g.next s i).current = none ∧ (s.next i).refillCnt = 0 := by
    intro hnone hstart hcnt
    simp [FetchLog.next, advance, next, hnone, hstart, hcnt]
  cases hs : s.state with
  | ready => exact hquiet (h.grant_of_ready hg hs) (h.started_of_ready hs) (h.idle (.inl hs)).2
  | request =>
    obtain ⟨hcurrent, hcnt⟩ := h.idle (.inr hs)
    cases hready : i.acquireReady with
    | true => simp [next, stateNext, hs, hready] at hnext
    | false =>
      have hno : s.acquireFire i = none := by simp [acquireFire, hready]
      exact hquiet (h.grant_of_waiting hg hs hready) (by rw [started, hno, hcurrent]) hcnt
  | refillWait => cases hb : i.grant <;> simp [next, stateNext, hs, hb] at hnext
  | refill =>
    cases hdone : s.refillDone i with
    | false => simp [next, stateNext, hs, hdone] at hnext
    | true =>
      obtain ⟨r, b, -, hb, hadv, -, hcnt⟩ := h.completes hg hdone
      refine ⟨by simp [FetchLog.next, hadv], ?_⟩
      -- the counter wraps with the last beat
      have hwrap : (s.next i).refillCnt = s.refillCnt + 1#p.cntBits := by simp [next, hb]
      apply BitVec.eq_of_toNat_eq
      rw [hwrap, BitVec.toNat_add, BitVec.toNat_ofNat, Nat.add_mod_mod, hcnt]
      simp [ICacheParams.refillCycles]

theorem fills_of_current (r : Refill p) (hr : r ∈ (g.next s i).current) :
    (s.next i).Fills (g.next s i) r := by
  have hbusy : ∀ r₀ ∈ g.started s i, s.state ≠ .ready := by
    intro r₀ hr₀ hs
    rw [h.started_of_ready hs] at hr₀
    simp at hr₀
  obtain ⟨hnone, hr⟩ | ⟨r₀, hr₀, b, hb, rfl, hmore⟩ := mem_advance_fst hr
  · exact h.fills_next (hbusy r hr) (h.fills_started hr) hnone
  · exact h.fills_granted (hbusy r₀ hr₀) (h.fills_started hr₀) hb hmore

theorem absent_next (he : s.NoEccErrors) (hnext : (s.next i).state ≠ .ready) (w : p.Way) :
    ¬ (s.next i).Holds w (s.next i).s2Addr := by
  intro hh
  obtain ⟨-, ⟨hold, -⟩ | ⟨hdone, -⟩⟩ := h.holds_of_next he hh
  · by_cases hs : s.state = .ready
    · -- the lookup that misses has found no line of the block
      have hmiss : s.s2Miss := by
        by_contra hmiss
        exact hnext (by simp [next, stateNext, hs, hmiss])
      have hkeep : s.s2Load i = false := by simp [s2Load, rdy, hmiss]
      rw [(s2_of_keep hkeep).1] at hold
      simp only [s2Miss, Bool.and_eq_true, Bool.not_eq_true'] at hmiss
      have hresp := (respValid_iff he).2 ⟨hmiss.1, w, h.found hmiss.1 w hold⟩
      simp [respValid, s2Hit, hmiss.2] at hresp
    · rw [(h.frame (i := i) hs).1] at hold
      exact h.absent hs w hold
  · exact hnext (by simp [next, stateNext, state_of_refillDone hdone, hdone])

theorem cleared_next (he : s.NoEccErrors) (hmark : (s.next i).invalidated) (w : p.Way)
    (x : BitVec p.idxBits) : (s.next i).vbArray w x = false := by
  have hs : s.state ≠ .ready := fun hs => by simp [next, hs] at hmark
  simp only [next, vbNext_eq he]
  cases hinv : i.invalidate with
  | true => rfl
  | false =>
    have hold : s.invalidated := by simpa [next, hs, hinv] using hmark
    simp [hold, h.cleared hs hold]

theorem next (hg : g.Granting s i) (he : s.NoEccErrors) (hd : s.Driven i) :
    (s.next i).Sound (g.next s i) where
  past u hu := by
    obtain ⟨-, rfl⟩ | hold := mem_next_invalidates.1 hu
    · exact Nat.lt_succ_self _
    · exact Nat.lt_succ_of_lt (h.past u hold)
  s1_ready hv := state_next_of_rdy (h.rdy_of_next_s1Valid hd hv)
  s2_ready hv := state_next_of_rdy (h.rdy_of_next_s2Valid hd hv)
  read := h.read_next hg hd
  idle := h.idle_next hg
  fills := h.fills_of_current
  lines := h.lines_next hg he
  unique := h.unique_next he
  absent := h.absent_next he
  cleared _ := h.cleared_next he
  lookup_lt := h.lookup_lt_next hd
  found := h.found_next hg he hd
  answer := h.answer_next hg hd
  hit_unique := h.hit_unique_next hd

end Sound

theorem Reset.sound (h : s.Reset) : s.Sound FetchLog.init where
  past := by simp [FetchLog.init]
  s1_ready _ := h.state
  s2_ready _ := h.state
  read hv := by simp [h.s1Valid] at hv
  idle _ := ⟨rfl, h.refillCnt⟩
  fills := by simp [FetchLog.init]
  lines w a hh := by simp [Holds, h.vbArray] at hh
  unique w w' a hh := by simp [Holds, h.vbArray] at hh
  absent hs := absurd h.state hs
  cleared hs := absurd h.state hs
  lookup_lt hv := by simp [h.s2Valid] at hv
  found hv := by simp [h.s2Valid] at hv
  answer hv := by simp [h.s2Valid] at hv
  hit_unique hv := by simp [h.s2Valid] at hv

/-- The answer comes from the way that hits. -/
theorem Sound.datablock_eq (h : s.Sound g) (hv : s.s2Valid)
    (hw : s.s2TagHit w) : s.datablock = (s.s2Dout w).setWidth p.rowBits := by
  rw [datablock, mux1H_eq_of_forall (x := s.s2Dout w) _ ⟨w, hw⟩]
  intro w' hw'
  rw [h.hit_unique hv w' w hw' hw]

end ICache

/-! ## Every run -/

theorem fetchMachine_sound {x : FetchUnit p} (hx : x.Reset) {is : List (FrontendIn p)}
    (hl : (fetchMachine p).Legal (x, FetchLog.init) is) :
    let y := (fetchMachine p).run (x, FetchLog.init) is
    y.1.Aligned ∧ y.1.icache.Sound y.2 := by
  refine Machine.invariant_run (P := fun y : FetchUnit p × FetchLog p =>
    y.1.Aligned ∧ y.1.icache.Sound y.2) ?_ ⟨hx.aligned, hx.icache.sound⟩ hl
  rintro y i ⟨haligned, hsound⟩ ⟨hg, he⟩
  exact ⟨haligned.next i, hsound.next hg he (haligned.driven i)⟩

/-- In every run from reset, an answer of the cache is the row at its address of the latest refill
of the block, without the tags; that refill was asked for after every invalidation up to the lookup
of the request; and one way hits. -/
theorem icache_answers_fresh (x : FetchUnit p) (hx : x.Reset) (is : List (FrontendIn p))
    (hl : (fetchMachine p).Legal (x, FetchLog.init) is)
    (he : ((fetchMachine p).run (x, FetchLog.init) is).1.icache.NoEccErrors)
    (hresp : ((fetchMachine p).run (x, FetchLog.init) is).1.icache.respValid = true) :
    let c := ((fetchMachine p).run (x, FetchLog.init) is).1.icache
    let g := ((fetchMachine p).run (x, FetchLog.init) is).2
    (∃ r, g.latest (p.blockOf c.s2Addr) = some r ∧
      (∃ b, r.beats[(p.rowOf c.s2Addr).toNat]? = some b ∧ c.datablock = p.removeTag b) ∧
        ∀ u ∈ g.invalidates, u ≤ g.lookup → u < r.issued) ∧
      ∃ w, ∀ w', c.s2TagHit w' = true ↔ w' = w := by
  intro c g
  have hsound : c.Sound g := (fetchMachine_sound hx hl).2
  obtain ⟨hv, w, hw⟩ := (ICache.respValid_iff he).1 hresp
  refine ⟨?_, w, fun w' => ⟨fun hw' => hsound.hit_unique hv w' w hw' hw, fun hw' => hw' ▸ hw⟩⟩
  rw [hsound.datablock_eq hv hw]
  exact hsound.answer hv w hw

/-- Reset, with zeros in everything that has no reset value. -/
def coldStart : FetchUnit ICacheParams.config where
  frontend := ⟨0, false, true, Frontend.startAddr, false, ⟨false, 0, 0⟩, false⟩
  icache := {
    state := .ready, invalidated := false, s2Valid := false, s2Addr := 0, s1Valid := false,
    s1Pgoff := 0, refillCnt := 0, lfsr := 1, tagArray := fun _ _ => 0, tagRaddr := 0,
    vbArray := fun _ _ => false, s2Vb := fun _ => false, s2TagDisparity := fun _ => false,
    s2TagMatch := fun _ => false, s2Dout := fun _ => 0, dataArray := fun _ _ => 0,
    dataRaddr := fun _ => 0 }

/-- A cycle with a willing core and memory, in which page 5 is translated. -/
def fetchCycle (invalidate : Bool) (grant : Option (GrantBeat ICacheParams.config)) :
    FrontendIn ICacheParams.config :=
  ⟨none, true, invalidate, false, false, ⟨false, 0, 0⟩, ⟨5, false, false⟩, true, grant⟩

/-- The first instruction after an invalidation: a miss, four beats, and a second lookup. -/
def firstFetch : List (FrontendIn ICacheParams.config) :=
  [fetchCycle true none, fetchCycle false none, fetchCycle false none, fetchCycle false none,
    fetchCycle false (some ⟨0, 0xa0000000000000013#136⟩), fetchCycle false (some ⟨1, 1⟩),
    fetchCycle false (some ⟨2, 2⟩), fetchCycle false (some ⟨3, 3⟩), fetchCycle false none,
    fetchCycle false none]

theorem coldStart_reset : coldStart.Reset :=
  ⟨⟨rfl, rfl, rfl, rfl⟩, ⟨rfl, rfl, rfl, rfl, rfl, fun _ _ => rfl⟩⟩

theorem icache_answers_fresh_firstFetch :
    let c := ((fetchMachine _).run (coldStart, FetchLog.init) firstFetch).1.icache
    let g := ((fetchMachine _).run (coldStart, FetchLog.init) firstFetch).2
    c.respValid = true ∧ c.datablock.toNat = 0x13 ∧ g.invalidates = [0] ∧
      ∃ r, g.latest (ICacheParams.config.blockOf c.s2Addr) = some r ∧
        ∀ u ∈ g.invalidates, u ≤ g.lookup → u < r.issued :=
  ⟨by decide +kernel, by decide +kernel, by decide +kernel,
    (icache_answers_fresh coldStart coldStart_reset firstFetch (by decide +kernel)
      (by decide +kernel) (by decide +kernel)).1.imp fun _ h => ⟨h.1, h.2.2⟩⟩

end TaggedRiscv.Fetch
