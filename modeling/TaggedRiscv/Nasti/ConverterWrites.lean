import TaggedRiscv.Nasti.Converter

/-!
# Blocks and their addresses

The slave pairs bursts of write data with write addresses in the order in which they come. The
converter sends both in the same order as long as a write has all of the converter until its
address and its data are sent, and as long as a write is presented only when a handler is idle.
Otherwise the two arbiters choose handlers without regard to each other, the arbiter of the data
can lose the lock of a burst, and a beat that no handler is there for goes out as a beat of the
last handler's burst.
-/

namespace TaggedRiscv.Nasti

open Sync Converter Handler LockArb

/-! ## Traffic -/

/-- A write of a block, as a `PutBlock` or as a release. -/
structure Write (c : ConvParams) where
  isAcq : Bool
  clientId : BitVec c.tl.clientIdBits
  clientXactId : BitVec c.tl.clientXactIdBits
  addrBlock : BitVec c.tl.blockAddrBits
  data : ℕ → BitVec c.tl.dataBits
  union : BitVec c.tl.unionBits
  voluntary : Bool
  rType : BitVec c.tl.releaseTypeBits

variable {c : ConvParams}

namespace Write

variable (w : Write c)

def tag : c.Tag := w.clientId ++ w.clientXactId

/-- A beat of a `PutBlock`. -/
def acquire (beat : ℕ) : AcquireFromSrc c.tl :=
  { clientId := w.clientId
    isBuiltinType := true
    aType := BitVec.ofNat _ BuiltInAcquire.putBlockType.code
    clientXactId := w.clientXactId
    addrBlock := w.addrBlock
    addrBeat := BitVec.ofNat _ beat
    data := w.data beat
    union := w.union }

/-- A beat of a release. -/
def release (beat : ℕ) : ReleaseFromSrc c.tl :=
  { clientId := w.clientId
    voluntary := w.voluntary
    rType := w.rType
    clientXactId := w.clientXactId
    addrBlock := w.addrBlock
    addrBeat := BitVec.ofNat _ beat
    data := w.data beat }

/-- The number of the first beat of the block in memory. -/
def firstBeat : ℕ := w.addrBlock.toNat * 2 ^ c.tl.beatAddrBits

/-- The beats of the block without their tags. -/
def own : List c.Data := (List.range c.tl.dataBeats).map fun j => c.removeTag (w.data j)

end Write

variable (c) in
/-- What happened at the ports. Writes are numbered. -/
structure ConvLog where
  /-- The beats that were accepted of a write. -/
  sent : ℕ → ℕ
  /-- The writes in the order in which they were presented first. -/
  started : List ℕ
  /-- The writes that were presented and not answered by a grant. -/
  outstanding : List ℕ
  /-- The write addresses that the slave accepted: id, and the number of the beat. -/
  addrs : List (c.Tag × ℕ)
  /-- The bursts of write data that the slave received. -/
  bursts : List (List c.Data)
  /-- The beats of a burst that is not over. -/
  part : List c.Data
  /-- The addresses whose writes the slave has acknowledged, by their position. -/
  acked : List ℕ
  /-- The writes that are presented and whose beat is not yet accepted. -/
  acqHeld : Option ℕ
  relHeld : Option ℕ

/-- A cycle: the writes whose next beats are presented on the channels, the ready signals of
the outputs, and the position of the address whose write is acknowledged. -/
structure ConvCycle where
  acq : Option ℕ
  rel : Option ℕ
  grantReady : Bool
  awReady : Bool
  wReady : Bool
  arReady : Bool
  b : Option ℕ

variable (T : ℕ → Write c) {n : ℕ}

def ConvCycle.toIn (x : ConvCycle) (g : ConvLog c) : ConverterIn c :=
  { acquire := x.acq.map fun k => (T k).acquire (g.sent k)
    release := x.rel.map fun k => (T k).release (g.sent k)
    grantReady := x.grantReady
    awReady := x.awReady
    wReady := x.wReady
    arReady := x.arReady
    b := x.b.bind fun m => (g.addrs[m]?).map Prod.fst
    r := none }

@[simp] theorem ConvCycle.toIn_acquire (x : ConvCycle) (g : ConvLog c) :
    (x.toIn T g).acquire = x.acq.map fun k => (T k).acquire (g.sent k) := rfl

@[simp] theorem ConvCycle.toIn_release (x : ConvCycle) (g : ConvLog c) :
    (x.toIn T g).release = x.rel.map fun k => (T k).release (g.sent k) := rfl

@[simp] theorem ConvCycle.toIn_r (x : ConvCycle) (g : ConvLog c) : (x.toIn T g).r = none := rfl

/-- The writes that are presented in a cycle. -/
def ConvCycle.presented (x : ConvCycle) : List ℕ := x.acq.toList ++ x.rel.toList

namespace ConvLog

variable (g : ConvLog c)

def empty : ConvLog c :=
  { sent := fun _ => 0, started := [], outstanding := [], addrs := [], bursts := [], part := []
    acked := [], acqHeld := none, relHeld := none }

/-- The writes that are presented for the first time. -/
def fresh (x : ConvCycle) : List ℕ := x.presented.filter fun k => !g.started.contains k

/-- The log after a cycle. -/
def step (s : Converter c n) (x : ConvCycle) : ConvLog c :=
  { sent := fun k => g.sent k +
      (if x.acq = some k ∧ s.acquireFire (x.toIn T g) = true then 1 else 0) +
      (if x.rel = some k ∧ s.releaseFire (x.toIn T g) = true then 1 else 0)
    started := g.started ++ g.fresh x
    outstanding := (g.outstanding ++ g.fresh x).filter fun k =>
      !(s.bFire (x.toIn T g) && (x.toIn T g).b == some (T k).tag)
    addrs := g.addrs ++ ((s.awSent (x.toIn T g)).map fun a =>
      (a.id, a.addr / 2 ^ c.tl.byteAddrBits)).toList
    bursts := match s.wSent (x.toIn T g) with
      | some w => if w.last then g.bursts ++ [g.part ++ [w.data]] else g.bursts
      | none => g.bursts
    part := match s.wSent (x.toIn T g) with
      | some w => if w.last then [] else g.part ++ [w.data]
      | none => g.part
    acked := if s.bFire (x.toIn T g) then g.acked ++ x.b.toList else g.acked
    acqHeld := if s.acquireFire (x.toIn T g) then none else x.acq
    relHeld := if s.releaseFire (x.toIn T g) then none else x.rel }

/-- What the slave stores: the beats of each burst at the address of the same position. -/
def stored : List ((c.Tag × ℕ) × List c.Data) := g.addrs.zip g.bursts

/-- Every burst that is stored is that of the write whose address it is stored at. -/
def OwnData : Prop :=
  ∀ e ∈ g.stored, ∃ k ∈ g.started, e = (((T k).tag, (T k).firstBeat), (T k).own)
deriving Decidable

end ConvLog

open ConvLog

/-- Each channel presents the beats of its writes in order, one write at a time, and holds a
beat until it is accepted; writes that are outstanding have different tags; and the slave
acknowledges once each a write whose address and burst it has received. -/
@[mk_iff]
structure Presented (g : ConvLog c) (x : ConvCycle) : Prop where
  acq : ∀ k ∈ x.acq, (T k).isAcq ∧
    ∀ k' ∈ g.started, (T k').isAcq → 0 < g.sent k' → g.sent k' < c.tl.dataBeats → k' = k
  rel : ∀ k ∈ x.rel, (T k).isAcq = false ∧
    ∀ k' ∈ g.started, (T k').isAcq = false → 0 < g.sent k' → g.sent k' < c.tl.dataBeats → k' = k
  beats : ∀ k ∈ x.presented, g.sent k < c.tl.dataBeats
  held : (∀ k ∈ g.acqHeld, x.acq = some k) ∧ ∀ k ∈ g.relHeld, x.rel = some k
  once : ∀ k ∈ x.presented, k ∈ g.started → k ∈ g.outstanding
  tags : ∀ k ∈ x.presented, ∀ k' ∈ g.outstanding ++ x.presented, (T k').tag = (T k).tag → k' = k
  ack : ∀ m ∈ x.b, m < g.addrs.length ∧ m < g.bursts.length ∧ m ∉ g.acked

/-- Writes come one after another: a channel presents a write that was presented before only
if it is the last, and a new one only when the addresses and the bursts of all others have
been sent, nothing else is presented, and a handler is idle. -/
@[mk_iff]
structure InTurn (s : Converter c n) (g : ConvLog c) (x : ConvCycle) : Prop where
  single : x.acq = none ∨ x.rel = none
  last : ∀ k ∈ x.presented, k ∈ g.started → g.started.getLast? = some k
  next : ∀ k ∈ x.presented, k ∉ g.started → g.addrs.length = g.started.length ∧
    g.bursts.length = g.started.length ∧ ∃ j, (s.handler j).rdy

instance (g : ConvLog c) (x : ConvCycle) : Decidable (Presented T g x) :=
  decidable_of_iff' _ (presented_iff T g x)

instance (s : Converter c n) (g : ConvLog c) (x : ConvCycle) : Decidable (InTurn s g x) :=
  decidable_of_iff' _ (inTurn_iff s g x)

/-- The converter among its clients and the slave. -/
abbrev converterMachine : Machine (Converter c n × ConvLog c) ConvCycle where
  ok s x := Presented T s.2 x
  next s x := (s.1.next (x.toIn T s.2), s.2.step T s.1 x)

/-- The same, with writes one after another. -/
abbrev inTurnMachine : Machine (Converter c n × ConvLog c) ConvCycle :=
  (converterMachine T).restrict fun s x => InTurn s.1 s.2 x

/-! ## Handlers -/

section Handlers

variable {T} {h : Handler c} {i : HandlerIn c} {w : Write c} {m : ℕ}

/-- The handler has taken on the write. -/
structure Owns (h : Handler c) (w : Write c) : Prop where
  isWrite : h.isWrite
  isRead : h.isRead = false
  tag : h.tagOut = w.tag
  isAcq : h.isAcq = w.isAcq
  addr : h.addrOut / 2 ^ c.tl.byteAddrBits = w.firstBeat
  multiple : h.writeMultipleData

/-- The handler is idle, and its registers are as after reset. -/
structure AtRest (h : Handler c) : Prop where
  isWrite : h.isWrite = false
  isRead : h.isRead = false
  cmdSent : h.cmdSent = false
  isAcq : h.isAcq = false
  nwCnt : h.nwCnt = 0

/-- A beat of the write is routed to the handler. -/
structure Fed (i : HandlerIn c) (w : Write c) (m : ℕ) : Prop where
  acquire : i.acquire = if w.isAcq then some (w.acquire m) else none
  release : i.release = if w.isAcq then none else some (w.release m)
  r : i.r = none

/-- No beat is routed to the handler. -/
structure Unfed (i : HandlerIn c) : Prop where
  acquire : i.acquire = none
  release : i.release = none
  r : i.r = none

/-- The built-in types have their codes. -/
theorem ConvParams.lt_acquireTypes (c : ConvParams) {k : ℕ} (hk : k < 2 ^ 3) :
    k < 2 ^ c.tl.acquireTypeBits :=
  lt_of_lt_of_le hk (Nat.pow_le_pow_right (by decide) c.acquireTypeBits_le)

theorem Write.isBuiltIn_acquire (w : Write c) (m : ℕ) (t : BuiltInAcquire) :
    (w.acquire m).isBuiltIn t = decide (t = .putBlockType) := by
  have hbits := c.lt_acquireTypes (k := 3) (by decide)
  cases t <;>
    simp [Acquire.isBuiltIn, Write.acquire, BuiltInAcquire.code, Nat.mod_eq_of_lt hbits]

theorem Write.hasMultibeatData_acquire (hB : 1 < c.tl.dataBeats) (w : Write c) (m : ℕ) :
    (w.acquire m).hasMultibeatData := by
  simp [Acquire.hasMultibeatData, hB, w.isBuiltIn_acquire]

theorem Unfed.wValid (hf : Unfed i) : h.wValid i = false := by
  simp [Handler.wValid, hf.acquire, hf.release]

theorem Fed.wValid (hf : Fed i w m) (ho : Owns h w) : h.wValid i := by
  simp only [Handler.wValid, hf.acquire, hf.release, ho.isAcq, ho.isWrite]
  cases w.isAcq <;> simp

theorem AtRest.wValid (hr : AtRest h) : h.wValid i = false := by
  simp [Handler.wValid, hr.isWrite]

theorem AtRest.awValid (hr : AtRest h) : h.awValid = false := by
  simp [Handler.awValid, hr.isWrite]

/-- The beat that the handler sends is the one that is routed to it. -/
theorem Fed.data (hf : Fed i w m) (ho : Owns h w) : (h.w i).data = c.removeTag (w.data m) := by
  simp only [Handler.w, hf.acquire, hf.release, ho.isAcq]
  cases w.isAcq <;> simp [Write.acquire, Write.release]

theorem Fed.last (hB : 1 < c.tl.dataBeats) (hf : Fed i w m) (ho : Owns h w)
    (hr : i.wReady) : (h.w i).last = decide (h.nwCnt = c.tl.dataBeats - 1) := by
  have hmulti : (h.isAcq && !acqMultibeat i) = false := by
    rw [ho.isAcq, acqMultibeat, hf.acquire]
    cases w.isAcq <;> simp [Write.hasMultibeatData_acquire hB]
  simp [Handler.w, hmulti, nwFinish, wFire, hf.wValid ho, hr, ho.multiple]

theorem Owns.arFire (ho : Owns h w) : h.arFire i = false := by
  simp [Handler.arFire, arValid, ho.isRead]

/-- A handler with a write keeps it until the acknowledgement. -/
theorem Owns.next_of_busy (ho : Owns h w) (hr : i.r = none) (hb : h.bFire i = false) :
    h.next i =
      { h with
        nwCnt := if h.wFire i then (h.nwCnt + 1) % c.tl.dataBeats else h.nwCnt
        cmdSent := h.awFire i || h.cmdSent } := by
  have hidle : h.isIdle = false := by simp [isIdle, ho.isWrite]
  have hrf : h.rFire i = false := by simp [Handler.rFire, hr]
  have hans : h.answered i = h := by simp [answered, hb, hr]
  simp only [Handler.next, taken, hidle, hans, hrf, ho.arFire]
  cases h.awFire i <;> simp [ho.multiple]

/-- The acknowledgement frees the handler. -/
theorem Owns.atRest_next (ho : Owns h w) (hr : i.r = none) (hb : h.bFire i)
    (haw : h.awFire i = false) (hw : h.wFire i = false) (hcnt : h.nwCnt = 0) :
    AtRest (h.next i) := by
  have hidle : h.isIdle = false := by simp [isIdle, ho.isWrite]
  have hrf : h.rFire i = false := by simp [Handler.rFire, hr]
  constructor <;>
    simp [Handler.next, taken, hidle, answered, hb, hr, ho.arFire, haw, hw, hcnt, ho.isRead]

/-- An idle handler has no part in what happens at the ports. -/
theorem AtRest.next (ha : AtRest h) (hr : i.r = none) :
    h.next i = { h.taken i h with nwCnt := h.nwCnt, nrCnt := h.nrCnt } := by
  have hb : h.bFire i = false := by simp [Handler.bFire, Handler.bReady, ha.isWrite]
  have hrf : h.rFire i = false := by simp [Handler.rFire, hr]
  have har : h.arFire i = false := by simp [Handler.arFire, arValid, ha.isRead]
  have haw : h.awFire i = false := by simp [awFire, ha.awValid]
  have hw : h.wFire i = false := by simp [wFire, ha.wValid]
  have hans : h.answered i = h := by simp [answered, hb, hrf]
  simp [Handler.next, hans, hrf, har, haw, hw]

/-- An idle handler without a beat stays as it is. -/
theorem AtRest.next_of_unfed (ha : AtRest h) (hf : Unfed i) : h.next i = h := by
  simp [ha.next hf.r, taken, hf.acquire, hf.release]

/-- An idle handler takes the write on whose first beat is routed to it. -/
theorem AtRest.owns_next (hB : 1 < c.tl.dataBeats) (ha : AtRest h) (hf : Fed i w 0) :
    Owns (h.next i) w ∧ (h.next i).cmdSent = false ∧ (h.next i).nwCnt = 0 := by
  have hidle : h.isIdle := by simp [isIdle, ha.isWrite, ha.isRead]
  rw [ha.next hf.r]
  cases hacq : w.isAcq with
  | true =>
    have hnext : h.taken i h = h.takeAcquire (w.acquire 0) := by
      simp [taken, hidle, hf.acquire, hf.release, hacq]
    have hput : (w.acquire 0).isBuiltinType := rfl
    have hdata : (w.acquire 0).hasData := by simp [Acquire.hasData, w.isBuiltIn_acquire]
    have haddr : (w.acquire 0).fullAddr / 2 ^ c.tl.byteAddrBits = w.firstBeat := by
      rw [Acquire.fullAddr, Nat.add_comm, Nat.add_mul_div_right _ _ (Nat.two_pow_pos _),
        Nat.div_eq_of_lt (BitVec.isLt _), Nat.zero_add]
      simp [Write.acquire, Write.firstBeat]
    refine ⟨⟨?_, ?_, ?_, ?_, ?_, ?_⟩, ?_, ?_⟩ <;>
      simp [hnext, takeAcquire, hput, hdata, haddr, hacq, ha.cmdSent, ha.nwCnt,
        Write.hasMultibeatData_acquire hB]
    rfl
  | false =>
    have hnext : h.taken i h = h.takeRelease (w.release 0) := by
      simp [taken, hidle, hf.release, hacq]
    have haddr : w.addrBlock.toNat * 2 ^ (c.tl.beatAddrBits + c.tl.byteAddrBits) /
        2 ^ c.tl.byteAddrBits = w.firstBeat := by
      rw [Nat.pow_add, ← Nat.mul_assoc, Nat.mul_div_cancel _ (Nat.two_pow_pos _), Write.firstBeat]
    refine ⟨⟨?_, ?_, ?_, ?_, ?_, ?_⟩, ?_, ?_⟩ <;>
      simp [hnext, takeRelease, hacq, ha.cmdSent, ha.nwCnt, ha.isAcq]
    · rfl
    · exact haddr

end Handlers

/-! ## Routing -/

variable {h : Handler c} {w : Write c}

section Routing

variable {T} {s : Converter c n} {g : ConvLog c} {x : ConvCycle} {k : ℕ} {j : Fin n}

/-- The next beat of a write is presented on its channel, and nothing else. -/
structure ConvCycle.Shows (T : ℕ → Write c) (x : ConvCycle) (k : ℕ) : Prop where
  acq : x.acq = if (T k).isAcq then some k else none
  rel : x.rel = if (T k).isAcq then none else some k

theorem ConvCycle.Shows.of_acq (hx : x.Shows T k) (hk : (T k).isAcq) :
    x.acq = some k ∧ x.rel = none := by
  simp [hx.acq, hx.rel, hk]

theorem ConvCycle.Shows.of_rel (hx : x.Shows T k) (hk : (T k).isAcq = false) :
    x.acq = none ∧ x.rel = some k := by
  simp [hx.acq, hx.rel, hk]

/-- Writes one after another are presented one at a time. -/
theorem shows_or_none (hp : Presented T g x) (ht : InTurn s g x) :
    x.acq = none ∧ x.rel = none ∨ ∃ k, x.Shows T k ∧ x.presented = [k] := by
  cases hacq : x.acq with
  | some k =>
    have hrel : x.rel = none := ht.single.resolve_left (by simp [hacq])
    have hk := (hp.acq k hacq).1
    exact .inr ⟨k, ⟨by simp [hacq, hk], by simp [hrel, hk]⟩,
      by simp [ConvCycle.presented, hacq, hrel]⟩
  | none =>
    cases hrel : x.rel with
    | none => exact .inl ⟨rfl, rfl⟩
    | some k =>
      have hk := (hp.rel k hrel).1
      exact .inr ⟨k, ⟨by simp [hacq, hk], by simp [hrel, hk]⟩,
        by simp [ConvCycle.presented, hacq, hrel]⟩

/-- The handlers and the writes that are outstanding belong to each other. -/
structure Staffed (T : ℕ → Write c) (s : Converter c n) (g : ConvLog c) : Prop where
  each : ∀ j, AtRest (s.handler j) ∨ ∃ k ∈ g.outstanding, Owns (s.handler j) (T k)
  owner : ∀ k ∈ g.outstanding, ∃ j, Owns (s.handler j) (T k)
  tags : ∀ k ∈ g.outstanding, ∀ k' ∈ g.outstanding, (T k).tag = (T k').tag → k = k'
  single : ∀ j j' w w', Owns (s.handler j) w → Owns (s.handler j') w' → w.tag = w'.tag → j = j'

theorem AtRest.rdy (ha : AtRest h) : h.rdy := by
  simp [Handler.rdy, isIdle, ha.isRead, ha.isWrite]

theorem Owns.rdy (ho : Owns h w) : h.rdy = false := by
  simp [Handler.rdy, isIdle, ho.isWrite]

/-- A handler matches the beats of the writes with its tag. -/
theorem Owns.matches (ho : Owns h w) (w' : Write c) (m : ℕ) :
    h.acqMatch (w'.acquire m) = decide (w.tag = w'.tag) ∧
      h.relMatch (w'.release m) = decide (w.tag = w'.tag) := by
  constructor <;>
    simp only [acqMatch, relMatch, ho.rdy, ho.tag, Bool.not_false, Bool.and_true]
  · rfl
  · rfl

theorem AtRest.not_matches (ha : AtRest h) (w' : Write c) (m : ℕ) :
    h.acqMatch (w'.acquire m) = false ∧ h.relMatch (w'.release m) = false := by
  simp [acqMatch, relMatch, ha.rdy]

/-- The other handlers have no write of the same tag. -/
theorem Staffed.other (hs : Staffed T s g) (ho : Owns (s.handler j) (T k)) (j' : Fin n) :
    AtRest (s.handler j') ∧ j' ≠ j ∨
      ∃ k', Owns (s.handler j') (T k') ∧ ((T k').tag = (T k).tag ↔ j' = j) := by
  rcases hs.each j' with ha | ⟨k', -, ho'⟩
  · refine .inl ⟨ha, ?_⟩
    rintro rfl
    simpa [ha.isWrite] using ho.isWrite
  · refine .inr ⟨k', ho', hs.single j' j _ _ ho' ho, ?_⟩
    rintro rfl
    rw [← ho'.tag, ho.tag]

/-- Beats of a write go to its handler. -/
theorem Staffed.match_iff (hs : Staffed T s g) (ho : Owns (s.handler j) (T k)) (m : ℕ)
    (j' : Fin n) :
    ((s.handler j').acqMatch ((T k).acquire m) ↔ j' = j) ∧
      ((s.handler j').relMatch ((T k).release m) ↔ j' = j) := by
  rcases hs.other ho j' with ⟨ha, hne⟩ | ⟨k', ho', hiff⟩
  · simp [ha.not_matches, hne]
  · simp [ho'.matches, hiff]

theorem priorityEncoder_eq_of_unique {v : Fin n → Bool} (h : ∀ j', v j' ↔ j' = j) :
    priorityEncoder v = j := by
  obtain ⟨j', hj', he⟩ := priorityEncoder_spec ⟨j, (h j).2 rfl⟩
  rw [he, (h j').1 hj']

theorem orR_eq_true {v : Fin n → Bool} (h : v j) : Converter.orR v :=
  List.any_eq_true.2 ⟨j, List.mem_finRange j, h⟩

/-- Where the beat of a write goes. -/
structure Routed (T : ℕ → Write c) (s : Converter c n) (g : ConvLog c) (x : ConvCycle) (k : ℕ)
    (j : Fin n) : Prop where
  acqId : (T k).isAcq → s.tlAcqHandlerId (x.toIn T g) = j
  relId : (T k).isAcq = false → s.tlRelHandlerId (x.toIn T g) = j

theorem Routed.fed (hr : Routed T s g x k j) (hx : x.Shows T k) :
    Fed (s.routed (x.toIn T g) j) (T k) (g.sent k) ∧
      ∀ j', j' ≠ j → Unfed (s.routed (x.toIn T g) j') := by
  cases hacq : (T k).isAcq with
  | true =>
    have hid := hr.acqId hacq
    obtain ⟨ha, hb⟩ := hx.of_acq hacq
    refine ⟨⟨?_, ?_, ?_⟩, fun j' hj => ⟨?_, ?_, ?_⟩⟩
    · simp [routed, hid, ha, hacq]
    · simp [routed, hb, hacq]
    · simp [routed]
    · simp [routed, hid, Fin.val_inj, hj.symm]
    · simp [routed, hb]
    · simp [routed]
  | false =>
    have hid := hr.relId hacq
    obtain ⟨ha, hb⟩ := hx.of_rel hacq
    refine ⟨⟨?_, ?_, ?_⟩, fun j' hj => ⟨?_, ?_, ?_⟩⟩
    · simp [routed, ha, hacq]
    · simp [routed, hid, hb, hacq]
    · simp [routed]
    · simp [routed, ha]
    · simp [routed, hid, Fin.val_inj, hj.symm]
    · simp [routed]

theorem Staffed.routed_owner (hs : Staffed T s g) (hx : x.Shows T k)
    (ho : Owns (s.handler j) (T k)) : Routed T s g x k j := by
  refine ⟨fun hacq => ?_, fun hacq => ?_⟩
  · have ha := (hx.of_acq hacq).1
    have hm : ∀ j', s.tlAcqMatches (x.toIn T g) j' ↔ j' = j := by
      intro j'
      simpa [tlAcqMatches, ha] using (hs.match_iff ho (g.sent k) j').1
    rw [tlAcqHandlerId, if_pos (orR_eq_true ((hm j).2 rfl)), priorityEncoder_eq_of_unique hm]
  · have hb := (hx.of_rel hacq).2
    have hm : ∀ j', s.tlRelMatches (x.toIn T g) j' ↔ j' = j := by
      intro j'
      simpa [tlRelMatches, hb] using (hs.match_iff ho (g.sent k) j').2
    rw [tlRelHandlerId, if_pos (orR_eq_true ((hm j).2 rfl)), priorityEncoder_eq_of_unique hm]

/-- A new write goes to an idle handler. -/
theorem Staffed.routed_new (hs : Staffed T s g) (hx : x.Shows T k)
    (hnew : ∀ k' ∈ g.outstanding, (T k').tag ≠ (T k).tag) (hidle : ∃ j, (s.handler j).rdy) :
    ∃ j, AtRest (s.handler j) ∧ Routed T s g x k j := by
  obtain ⟨j, hj, he⟩ := priorityEncoder_spec (v := s.tlReady) hidle
  have hrest : AtRest (s.handler j) := by
    rcases hs.each j with ha | ⟨k', -, ho⟩
    · exact ha
    · simp [tlReady, ho.rdy] at hj
  have hno : ∀ m j', (s.handler j').acqMatch ((T k).acquire m) = false ∧
      (s.handler j').relMatch ((T k).release m) = false := by
    intro m j'
    rcases hs.each j' with ha | ⟨k', hk', ho⟩
    · exact ha.not_matches _ _
    · simp [ho.matches, hnew k' hk']
  refine ⟨j, hrest, fun hacq => ?_, fun hacq => ?_⟩
  · have ha := (hx.of_acq hacq).1
    have hm : Converter.orR (s.tlAcqMatches (x.toIn T g)) = false := by
      simp [Converter.orR, tlAcqMatches, ha, hno]
    rw [tlAcqHandlerId, hm]
    exact he
  · have hb := (hx.of_rel hacq).2
    have hm : Converter.orR (s.tlRelMatches (x.toIn T g)) = false := by
      simp [Converter.orR, tlRelMatches, hb, hno]
    rw [tlRelHandlerId, hm]
    exact he

theorem unfed_of_none (ha : x.acq = none) (hb : x.rel = none) (j : Fin n) :
    Unfed (s.routed (x.toIn T g) j) := by
  constructor <;> simp [routed, ha, hb]

end Routing

/-! ## Events of a cycle -/

section Events

variable {T} {s : Converter c n} {g : ConvLog c} {x : ConvCycle} {k : ℕ} {j : Fin n}

variable {i : ConverterIn c}

theorem Fed.handlerIn {m : ℕ} (hf : Fed (s.routed i j) w m) : Fed (s.handlerIn i j) w m :=
  ⟨hf.acquire, hf.release, hf.r⟩

theorem Unfed.handlerIn (hf : Unfed (s.routed i j)) : Unfed (s.handlerIn i j) :=
  ⟨hf.acquire, hf.release, hf.r⟩

theorem handlerIn_r (j : Fin n) : (s.handlerIn (x.toIn T g) j).r = none := by
  simp [Converter.handlerIn, routed]

variable (T s g x) in
/-- The handler takes an acknowledgement. -/
abbrev acks (j : Fin n) : Bool := (s.handler j).bFire (s.handlerIn (x.toIn T g) j)

/-- Where no beat is routed to a busy handler, none is sent. -/
theorem wServed_eq_none (h : ∀ j, s.wValid i j = false) : s.wServed i = none := by
  simp [Converter.wServed, served, chosen_eq_none _ h]

/-- The beat of a write is sent by its handler as soon as the slave is ready. -/
theorem Routed.wServed (hr : Routed T s g x k j) (hx : x.Shows T k)
    (ho : Owns (s.handler j) (T k)) (hl : s.wArb.lock = none ∨ s.wArb.lock = some j) :
    s.wArb.chosen (s.wValid (x.toIn T g)) = some j ∧
      s.wServed (x.toIn T g) = if x.wReady then some j else none := by
  obtain ⟨hfed, hothers⟩ := hr.fed hx
  have hchosen : s.wArb.chosen (s.wValid (x.toIn T g)) = some j := by
    refine chosen_eq_of_unique _ (hfed.wValid ho) (fun j' hj' => ?_) hl
    by_contra hne
    have hno : s.wValid (x.toIn T g) j' = false := (hothers j' hne).wValid
    simp [hno] at hj'
  refine ⟨hchosen, ?_⟩
  simp only [Converter.wServed, served, hchosen]
  rfl

/-- Asking the handler that a beat is routed to. -/
theorem orR_select (j : Fin n) (f : Fin n → Bool) :
    (Converter.orR fun j' => decide (j.val = j'.val) && f j') = f j := by
  have := any_finRange_select j f
  simpa [Converter.orR, beq_eq_decide] using this

/-- The channel of a write accepts its beat when its handler sends it. -/
theorem Routed.fires (hr : Routed T s g x k j) (hs : Staffed T s g) (hx : x.Shows T k)
    (ho : Owns (s.handler j) (T k)) :
    (if (T k).isAcq then s.acquireFire (x.toIn T g) else s.releaseFire (x.toIn T g)) =
      decide (s.wServed (x.toIn T g) = some j) := by
  obtain ⟨hfed, -⟩ := hr.fed hx
  have hwv := hfed.handlerIn.wValid ho
  have hwf : (s.handler j).wFire (s.handlerIn (x.toIn T g) j) =
      decide (s.wServed (x.toIn T g) = some j) := by
    rw [wFire, hwv, Bool.true_and]
    rfl
  cases hacq : (T k).isAcq with
  | true =>
    have ha := (hx.of_acq hacq).1
    have hmatch : Converter.orR (s.tlAcqMatches (x.toIn T g)) := by
      apply orR_eq_true (j := j)
      simpa [tlAcqMatches, ha] using (hs.match_iff ho (g.sent k) j).1.2 rfl
    simp [acquireFire, Converter.acquireReady, ha, hmatch, hr.acqId hacq, orR_select,
      Handler.acquireReady, ho.isAcq, hacq, hwf, ho.arFire]
  | false =>
    have hb := (hx.of_rel hacq).2
    have hmatch : Converter.orR (s.tlRelMatches (x.toIn T g)) := by
      apply orR_eq_true (j := j)
      simpa [tlRelMatches, hb] using (hs.match_iff ho (g.sent k) j).2.2 rfl
    simp [releaseFire, Converter.releaseReady, hb, hmatch, hr.relId hacq, orR_select,
      Handler.releaseReady, ho.isAcq, hacq, hwf]

/-- An idle handler accepts nothing. -/
theorem Routed.not_fires (hr : Routed T s g x k j) (ha : AtRest (s.handler j)) :
    (if (T k).isAcq then s.acquireFire (x.toIn T g) else s.releaseFire (x.toIn T g)) = false := by
  have hwf : (s.handler j).wFire (s.handlerIn (x.toIn T g) j) = false := by simp [wFire, ha.wValid]
  cases hacq : (T k).isAcq with
  | true =>
    simp [acquireFire, Converter.acquireReady, hr.acqId hacq, orR_select,
      Handler.acquireReady, ha.isAcq]
  | false =>
    simp [releaseFire, Converter.releaseReady, hr.relId hacq, orR_select, Handler.releaseReady, hwf]

theorem sent_step (hx : x.Shows T k) (k' : ℕ) :
    (g.step T s x).sent k' = g.sent k' +
      if k' = k ∧ (if (T k).isAcq then s.acquireFire (x.toIn T g)
        else s.releaseFire (x.toIn T g)) = true then 1 else 0 := by
  cases hacq : (T k).isAcq with
  | true => simp [step, hx.of_acq hacq, eq_comm (a := k)]
  | false => simp [step, hx.of_rel hacq, eq_comm (a := k)]

theorem sent_step_of_none (ha : x.acq = none) (hb : x.rel = none) :
    (g.step T s x).sent = g.sent := by
  funext k
  simp [step, ha, hb]

/-- The address of a write, as the slave sees it. -/
def awOf (T : ℕ → Write c) (k : ℕ) : c.Tag × ℕ := ((T k).tag, (T k).firstBeat)

/-- What was presented, answered and acknowledged. -/
structure Booked (g : ConvLog c) : Prop where
  nodup : g.started.Nodup
  sub : ∀ k ∈ g.outstanding, k ∈ g.started
  acks : ∀ m k, g.started[m]? = some k → (k ∈ g.outstanding ↔ m ∉ g.acked)
  past : ∀ m ∈ g.acked, m < g.started.length

/-- The acknowledgements of a cycle: none is taken, or one by the handler of its write. -/
inductive Acked (T : ℕ → Write c) (s : Converter c n) (g : ConvLog c) (x : ConvCycle) : Prop
  | idle (hb : s.bFire (x.toIn T g) = false)
      (hj : ∀ j, acks T s g x j = false)
  | one (m k : ℕ) (j : Fin n) (hm : x.b = some m) (hk : g.started[m]? = some k)
      (haddr : m < g.addrs.length) (hburst : m < g.bursts.length) (hout : k ∈ g.outstanding)
      (ho : Owns (s.handler j) (T k)) (htag : (x.toIn T g).b = some (T k).tag)
      (hb : s.bFire (x.toIn T g))
      (hj : ∀ j', acks T s g x j' = decide (j' = j))

/-- An acknowledgement goes to the handler of the write whose address it is for. -/
theorem Staffed.acked (hs : Staffed T s g) (hp : Presented T g x) (hbook : Booked g)
    (hpre : g.addrs <+: g.started.map (awOf T)) : Acked T s g x := by
  cases hb : x.b with
  | none =>
    have hbin : (x.toIn T g).b = none := by simp [ConvCycle.toIn, hb]
    refine .idle (by simp [Converter.bFire, hbin]) fun j => ?_
    simp [Handler.bFire, Converter.handlerIn, routed, hbin]
  | some m =>
    obtain ⟨hlen, hburst, hnot⟩ := hp.ack m hb
    -- the write at that position is outstanding
    obtain ⟨rest, hrest⟩ := hpre
    have hget : (g.started.map (awOf T))[m]? = g.addrs[m]? := by
      rw [← hrest, List.getElem?_append_left hlen]
    rw [List.getElem?_map, List.getElem?_eq_getElem hlen, Option.map_eq_some_iff] at hget
    obtain ⟨k, hk, haddr⟩ := hget
    have hout : k ∈ g.outstanding := (hbook.acks m k hk).2 hnot
    obtain ⟨j, ho⟩ := hs.owner k hout
    have hbin : (x.toIn T g).b = some (T k).tag := by
      simp [ConvCycle.toIn, hb, List.getElem?_eq_getElem hlen, ← haddr, awOf]
    have hm : ∀ j', s.naBMatches (x.toIn T g) j' ↔ j' = j := by
      intro j'
      rcases hs.other ho j' with ⟨ha, hne⟩ | ⟨k', ho', hiff⟩
      · simp [naBMatches, hbin, bMatch, ha.rdy, hne]
      · simp [naBMatches, hbin, bMatch, ho'.rdy, ho'.tag, eq_comm.trans hiff]
    have hid : s.naBHandlerId (x.toIn T g) = j := priorityEncoder_eq_of_unique hm
    have htop : s.bFire (x.toIn T g) = (s.handler j).bReady (s.handlerIn (x.toIn T g) j) := by
      simp [Converter.bFire, Converter.bReady, hbin, orR_eq_true ((hm j).2 rfl), hid, orR_select]
    have hhand : ∀ j', acks T s g x j' =
        (decide (j' = j) && (s.handler j').bReady (s.handlerIn (x.toIn T g) j')) := by
      intro j'
      simp [Handler.bFire, Converter.handlerIn, routed, hbin, hid, Fin.val_inj, eq_comm]
    cases hready : (s.handler j).bReady (s.handlerIn (x.toIn T g) j) with
    | false =>
      refine .idle (htop.trans hready) fun j' => ?_
      rw [hhand]
      by_cases hj : j' = j
      · subst hj
        simp [hready]
      · simp [hj]
    | true =>
      refine .one m k j hb hk hlen hburst hout ho hbin (htop.trans hready) fun j' => ?_
      rw [hhand]
      by_cases hj : j' = j
      · subst hj
        simp [hready]
      · simp [hj]

end Events

/-! ## Handlers over a cycle -/

section Turns

variable {T} {s : Converter c n} {g : ConvLog c} {x : ConvCycle} {d : Option (Fin n × ℕ)}

/-- The write is answered in the cycle. -/
def Freed (T : ℕ → Write c) (s : Converter c n) (g : ConvLog c) (x : ConvCycle) (k : ℕ) : Prop :=
  s.bFire (x.toIn T g) = true ∧ (x.toIn T g).b = some (T k).tag

/-- What a handler does in a cycle; `d` is the handler that takes a write on, and the write. -/
inductive Turn (T : ℕ → Write c) (s : Converter c n) (g : ConvLog c) (x : ConvCycle)
    (d : Option (Fin n × ℕ)) (j : Fin n) : Prop
  | rest (ha : AtRest (s.handler j)) (ha' : AtRest ((s.next (x.toIn T g)).handler j))
  | take (k : ℕ) (hd : d = some (j, k)) (ha : AtRest (s.handler j))
      (ho' : Owns ((s.next (x.toIn T g)).handler j) (T k))
  | keep (k : ℕ) (hk : k ∈ g.outstanding) (ho : Owns (s.handler j) (T k))
      (hf : ¬ Freed T s g x k) (ho' : Owns ((s.next (x.toIn T g)).handler j) (T k))
  | free (k : ℕ) (hk : k ∈ g.outstanding) (ho : Owns (s.handler j) (T k))
      (hf : Freed T s g x k) (ha' : AtRest ((s.next (x.toIn T g)).handler j))

/-- The cycle takes on a write that is new, or none. -/
structure TakesOn (T : ℕ → Write c) (s : Converter c n) (g : ConvLog c) (x : ConvCycle)
    (d : Option (Fin n × ℕ)) : Prop where
  turn : ∀ j, Turn T s g x d j
  fresh : g.fresh x = (d.map Prod.snd).toList
  owner : ∀ j k, d = some (j, k) → Owns ((s.next (x.toIn T g)).handler j) (T k)
  tags : ∀ j k, d = some (j, k) → ∀ k' ∈ g.outstanding, (T k').tag ≠ (T k).tag
  kept : ∀ j k, d = some (j, k) → ¬ Freed T s g x k

theorem mem_outstanding_step (k : ℕ) :
    k ∈ (g.step T s x).outstanding ↔
      (k ∈ g.outstanding ∨ k ∈ g.fresh x) ∧ ¬ Freed T s g x k := by
  simp only [step, List.mem_filter, List.mem_append, Bool.not_eq_true',
    Bool.and_eq_false_iff, Freed, not_and_or, Bool.not_eq_true, beq_eq_false_iff_ne, ne_eq]

theorem AtRest.not_owns (ha : AtRest h) : ¬ Owns h w := by
  intro ho
  simpa [ha.isWrite] using ho.isWrite

/-- A handler has one write at a time. -/
theorem Staffed.owns_unique (hs : Staffed T s g) {j : Fin n} {k k' : ℕ} (hk : k ∈ g.outstanding)
    (hk' : k' ∈ g.outstanding) (ho : Owns (s.handler j) (T k)) (ho' : Owns (s.handler j) (T k')) :
    k = k' :=
  hs.tags k hk k' hk' (by rw [← ho.tag, ho'.tag])

theorem TakesOn.mem_fresh (ht : TakesOn T s g x d) {k : ℕ} :
    k ∈ g.fresh x ↔ ∃ j, d = some (j, k) := by
  rw [ht.fresh]
  cases d with
  | none => simp
  | some jk => 
    obtain ⟨j, k'⟩ := jk
    simp [eq_comm]

theorem Staffed.next (hs : Staffed T s g) (ht : TakesOn T s g x d) :
    Staffed T (s.next (x.toIn T g)) (g.step T s x) := by
  refine ⟨fun j => ?_, fun k hk => ?_, fun k hk k' hk' htag => ?_, ?_⟩
  · cases ht.turn j with
    | rest ha ha' => exact .inl ha'
    | take k hd ha ho' =>
      exact .inr ⟨k, mem_outstanding_step k |>.2 ⟨.inr (ht.mem_fresh.2 ⟨j, hd⟩), ht.kept j k hd⟩,
        ho'⟩
    | keep k hk ho hf ho' => exact .inr ⟨k, mem_outstanding_step k |>.2 ⟨.inl hk, hf⟩, ho'⟩
    | free k hk ho hf ha' => exact .inl ha'
  · obtain ⟨hk, hnot⟩ := (mem_outstanding_step k).1 hk
    rcases hk with hk | hk
    · obtain ⟨j, ho⟩ := hs.owner k hk
      refine ⟨j, ?_⟩
      cases ht.turn j with
      | rest ha ha' => exact absurd ho ha.not_owns
      | take _ _ ha _ => exact absurd ho ha.not_owns
      | keep k' hk' ho' hf hnext =>
        obtain rfl := hs.owns_unique hk hk' ho ho'
        exact hnext
      | free k' hk' ho' hf ha' =>
        obtain rfl := hs.owns_unique hk hk' ho ho'
        exact absurd hf hnot
    · obtain ⟨j, hd⟩ := ht.mem_fresh.1 hk
      exact ⟨j, ht.owner j k hd⟩
  · -- the new write's tag is not in use
    obtain ⟨hk, -⟩ := (mem_outstanding_step k).1 hk
    obtain ⟨hk', -⟩ := (mem_outstanding_step k').1 hk'
    rcases hk with hk | hk <;> rcases hk' with hk' | hk'
    · exact hs.tags k hk k' hk' htag
    · obtain ⟨j, hd⟩ := ht.mem_fresh.1 hk'
      exact absurd htag (ht.tags j k' hd k hk)
    · obtain ⟨j, hd⟩ := ht.mem_fresh.1 hk
      exact absurd htag.symm (ht.tags j k hd k' hk')
    · obtain ⟨j, hd⟩ := ht.mem_fresh.1 hk
      obtain ⟨j', hd'⟩ := ht.mem_fresh.1 hk'
      rw [hd, Option.some.injEq, Prod.mk.injEq] at hd'
      exact hd'.2
  · intro j j' w w' ho ho' htag
    -- a handler with a write after the cycle has kept it or taken it on
    have hhas : ∀ {j : Fin n} {w : Write c}, Owns ((s.next (x.toIn T g)).handler j) w →
        (∃ k ∈ g.outstanding, Owns (s.handler j) (T k) ∧ (T k).tag = w.tag) ∨
          ∃ k, d = some (j, k) ∧ (T k).tag = w.tag := by
      intro j w ho
      cases ht.turn j with
      | rest ha ha' => exact absurd ho ha'.not_owns
      | take k hd ha hnext => exact .inr ⟨k, hd, by rw [← hnext.tag, ho.tag]⟩
      | keep k hk hold hf hnext => exact .inl ⟨k, hk, hold, by rw [← hnext.tag, ho.tag]⟩
      | free k hk hold hf ha' => exact absurd ho ha'.not_owns
    rcases hhas ho with ⟨k, hk, hold, hw⟩ | ⟨k, hd, hw⟩ <;>
      rcases hhas ho' with ⟨k', hk', hold', hw'⟩ | ⟨k', hd', hw'⟩
    · exact hs.single j j' _ _ hold hold' (by rw [hw, hw', htag])
    · exact absurd (by rw [hw, hw', htag]) (ht.tags j' k' hd' k hk)
    · exact absurd (by rw [hw, hw', htag]) (ht.tags j k hd k' hk')
    · rw [hd, Option.some.injEq, Prod.mk.injEq] at hd'
      exact hd'.1

end Turns

/-! ## Addresses and bursts -/

section Streams

variable {T} {s : Converter c n} {g : ConvLog c} {x : ConvCycle} {old : List ℕ} {k : ℕ} {j : Fin n}

/-- The handlers have sent what they have to send. -/
def Issued (h : Handler c) : Prop := h.isWrite = true → h.cmdSent = true ∧ h.nwCnt = 0

/-- Everything is sent. -/
structure AllSent (T : ℕ → Write c) (s : Converter c n) (g : ConvLog c) : Prop where
  addrs : g.addrs = g.started.map (awOf T)
  bursts : g.bursts = g.started.map fun k => (T k).own
  part : g.part = []
  sent : ∀ k ∈ g.started, g.sent k = c.tl.dataBeats
  issued : ∀ j, Issued (s.handler j)
  awLock : s.awArb.lock = none
  wLock : s.wArb.lock = none

/-- The address of the last write is sent or is about to be. -/
structure Addressing (T : ℕ → Write c) (s : Converter c n) (g : ConvLog c) (old : List ℕ) (k : ℕ)
    (j : Fin n) : Prop where
  addrs : g.addrs = (if (s.handler j).cmdSent then old ++ [k] else old).map (awOf T)
  lock : s.awArb.lock = none ∨ s.awArb.lock = some j ∧ (s.handler j).cmdSent = false

/-- The beats of the last write are sent up to some point. -/
structure Streaming (T : ℕ → Write c) (s : Converter c n) (g : ConvLog c) (old : List ℕ) (k : ℕ)
    (j : Fin n) : Prop where
  le : g.sent k ≤ c.tl.dataBeats
  bursts : g.bursts =
    (if g.sent k = c.tl.dataBeats then old ++ [k] else old).map fun k => (T k).own
  part : g.part =
    if g.sent k = c.tl.dataBeats then []
    else (List.range (g.sent k)).map fun m => c.removeTag ((T k).data m)
  cnt : (s.handler j).nwCnt = g.sent k % c.tl.dataBeats
  lock : s.wArb.lock = none ∨ s.wArb.lock = some j ∧ g.sent k < c.tl.dataBeats

/-- A handler is sending address and beats of the last write. -/
structure Issuing (T : ℕ → Write c) (s : Converter c n) (g : ConvLog c) (old : List ℕ) (k : ℕ)
    (j : Fin n) : Prop where
  started : g.started = old ++ [k]
  out : k ∈ g.outstanding
  owns : Owns (s.handler j) (T k)
  sent : ∀ k' ∈ old, g.sent k' = c.tl.dataBeats
  issued : ∀ j', j' ≠ j → Issued (s.handler j')
  addressing : Addressing T s g old k j
  streaming : Streaming T s g old k j

/-- Nothing is left to send. -/
theorem Issuing.resting (h : Issuing T s g old k j) (hcmd : (s.handler j).cmdSent)
    (hsent : g.sent k = c.tl.dataBeats) : AllSent T s g := by
  have haddr := h.addressing.addrs
  have hburst := h.streaming.bursts
  have hpart := h.streaming.part
  have hcnt := h.streaming.cnt
  rw [hcmd, if_pos rfl, ← h.started] at haddr
  rw [hsent, if_pos rfl, ← h.started] at hburst
  rw [hsent, if_pos rfl] at hpart
  rw [hsent, Nat.mod_self] at hcnt
  refine ⟨haddr, hburst, hpart, fun k' hk' => ?_, fun j' => ?_, ?_, ?_⟩
  · rw [h.started, List.mem_append, List.mem_singleton] at hk'
    rcases hk' with hk' | rfl
    · exact h.sent k' hk'
    · exact hsent
  · by_cases hj : j' = j
    · subst hj
      exact fun _ => ⟨hcmd, hcnt⟩
    · exact h.issued j' hj
  · exact h.addressing.lock.resolve_right fun hl => by simp [hcmd] at hl
  · exact h.streaming.lock.resolve_right fun hl => by omega

theorem awValid_eq_false (hi : Issued h) : h.awValid = false := by
  unfold Handler.awValid
  cases hw : h.isWrite with
  | false => rfl
  | true => simp [(hi hw).1]

/-- An address that is not sent is on the output. -/
theorem Addressing.chosen (h : Addressing T s g old k j) (ho : Owns (s.handler j) (T k))
    (hissued : ∀ j', j' ≠ j → Issued (s.handler j')) (hcmd : (s.handler j).cmdSent = false) :
    s.awArb.chosen (fun j => (s.handler j).awValid) = some j := by
  refine chosen_eq_of_unique _ (by simp [Handler.awValid, ho.isWrite, hcmd])
    (fun j' hj' => ?_) (h.lock.imp_right And.left)
  by_contra hne
  simp [awValid_eq_false (hissued j' hne)] at hj'

theorem Addressing.next (h : Addressing T s g old k j) (ho : Owns (s.handler j) (T k))
    (hissued : ∀ j', j' ≠ j → Issued (s.handler j')) (hb : acks T s g x j = false) :
    Addressing T (s.next (x.toIn T g)) (g.step T s x) old k j := by
  have hnext : ((s.next (x.toIn T g)).handler j).cmdSent =
      ((s.handler j).awFire (s.handlerIn (x.toIn T g) j) || (s.handler j).cmdSent) := by
    change ((s.handler j).next (s.handlerIn (x.toIn T g) j)).cmdSent = _
    rw [ho.next_of_busy (handlerIn_r j) hb]
  cases hcmd : (s.handler j).cmdSent with
  | true =>
    -- nobody offers an address
    have hno : ∀ j', (s.handler j').awValid = false := by
      intro j'
      by_cases hj : j' = j
      · simp [Handler.awValid, hj, hcmd]
      · exact awValid_eq_false (hissued j' hj)
    have hchosen : s.awArb.chosen (fun j => (s.handler j).awValid) = none := chosen_eq_none _ hno
    have hcmd' : ((s.next (x.toIn T g)).handler j).cmdSent := by simp [hnext, hcmd]
    have hl := h.lock.resolve_right fun hl => by simp [hcmd] at hl
    refine ⟨?_, .inl ?_⟩
    · rw [hcmd']
      simp [step, awSent, awServed, served, hchosen, h.addrs, hcmd]
    · simp [Converter.next, LockArb.next, hchosen, hl]
  | false =>
    have hchosen := h.chosen ho hissued hcmd
    have hserved : s.awServed (x.toIn T g) = if x.awReady then some j else none := by
      simp only [awServed, served, hchosen]
      rfl
    have hfire : (s.handler j).awFire (s.handlerIn (x.toIn T g) j) = x.awReady := by
      have hv : (s.handler j).awValid := by simp [Handler.awValid, ho.isWrite, hcmd]
      rw [awFire, hv, Bool.true_and]
      change decide (s.awServed (x.toIn T g) = some j) = x.awReady
      cases hr : x.awReady <;> simp [hserved, hr]
    have hcmd' : ((s.next (x.toIn T g)).handler j).cmdSent = x.awReady := by
      simp [hnext, hcmd, hfire]
    have haddrs := h.addrs
    rw [hcmd] at haddrs
    cases hr : x.awReady with
    | true =>
      refine ⟨?_, .inl ?_⟩
      · rw [hcmd', hr]
        simp [step, awSent, hserved, hr, haddrs, address, ho.tag, ho.addr, awOf]
      · have hin : (x.toIn T g).awReady := hr
        simp [Converter.next, LockArb.next, hchosen, hin]
    | false =>
      refine ⟨?_, .inr ⟨?_, hcmd'.trans hr⟩⟩
      · rw [hcmd', hr]
        simp [step, awSent, hserved, hr, haddrs]
      · have hin : (x.toIn T g).awReady = false := hr
        simp [Converter.next, LockArb.next, hchosen, hin]

theorem Streaming.next_of_unfed (h : Streaming T s g old k j) (ho : Owns (s.handler j) (T k))
    (hno : ∀ j', Unfed (s.routed (x.toIn T g) j')) (hsent : (g.step T s x).sent = g.sent)
    (hb : acks T s g x j = false) : Streaming T (s.next (x.toIn T g)) (g.step T s x) old k j := by
  have hvalid : ∀ j', s.wValid (x.toIn T g) j' = false := fun j' => (hno j').wValid
  have hserved := wServed_eq_none hvalid
  have hchosen : s.wArb.chosen (s.wValid (x.toIn T g)) = none := chosen_eq_none _ hvalid
  have hcnt : ((s.next (x.toIn T g)).handler j).nwCnt = (s.handler j).nwCnt := by
    have hwf : (s.handler j).wFire (s.handlerIn (x.toIn T g) j) = false := by
      simp [wFire, (hno j).handlerIn.wValid]
    change ((s.handler j).next (s.handlerIn (x.toIn T g) j)).nwCnt = _
    rw [ho.next_of_busy (hno j).handlerIn.r hb, hwf]
    rfl
  refine ⟨by rw [hsent]; exact h.le, ?_, ?_, by rw [hsent, hcnt, h.cnt], ?_⟩
  · rw [hsent, ← h.bursts]
    simp [step, wSent, hserved]
  · rw [hsent, ← h.part]
    simp [step, wSent, hserved]
  · rw [hsent]
    simpa [Converter.next, LockArb.next, hchosen] using h.lock

theorem Streaming.next_of_routed (hB : 1 < c.tl.dataBeats) (h : Streaming T s g old k j)
    (hs : Staffed T s g) (ho : Owns (s.handler j) (T k)) (hx : x.Shows T k)
    (hlt : g.sent k < c.tl.dataBeats) (hb : acks T s g x j = false) :
    Streaming T (s.next (x.toIn T g)) (g.step T s x) old k j := by
  have hr := hs.routed_owner hx ho
  obtain ⟨hfed, -⟩ := hr.fed hx
  obtain ⟨hchosen, hserved⟩ := hr.wServed hx ho (h.lock.imp_right And.left)
  have hsent := sent_step (s := s) (g := g) hx k
  rw [hr.fires hs hx ho] at hsent
  have hmod : g.sent k % c.tl.dataBeats = g.sent k := Nat.mod_eq_of_lt hlt
  have hcnt : (s.handler j).nwCnt = g.sent k := h.cnt.trans hmod
  have hburst := h.bursts
  have hpart := h.part
  rw [if_neg hlt.ne] at hburst hpart
  have hcnt' : ((s.next (x.toIn T g)).handler j).nwCnt =
      if (s.handler j).wFire (s.handlerIn (x.toIn T g) j) then (g.sent k + 1) % c.tl.dataBeats
      else g.sent k := by
    change ((s.handler j).next (s.handlerIn (x.toIn T g) j)).nwCnt = _
    rw [ho.next_of_busy hfed.handlerIn.r hb, ← hcnt]
  have hwf : (s.handler j).wFire (s.handlerIn (x.toIn T g) j) = x.wReady := by
    rw [wFire, hfed.handlerIn.wValid ho, Bool.true_and]
    change decide (s.wServed (x.toIn T g) = some j) = x.wReady
    cases hready : x.wReady <;> simp [hserved, hready]
  cases hready : x.wReady with
  | false =>
    -- the beat waits, and the arbiter waits for it
    have hsame : (g.step T s x).sent k = g.sent k := by simp [hsent, hserved, hready]
    have hin : (x.toIn T g).wReady = false := hready
    refine ⟨by omega, ?_, ?_, by rw [hcnt', hwf, hready, hsame, hmod]; rfl, .inr ⟨?_, by omega⟩⟩
    · rw [hsame, if_neg hlt.ne, ← hburst]
      simp [step, wSent, hserved, hready]
    · rw [hsame, if_neg hlt.ne, ← hpart]
      simp [step, wSent, hserved, hready]
    · simp [Converter.next, LockArb.next, hchosen, hin]
  | true =>
    have hmore : (g.step T s x).sent k = g.sent k + 1 := by simp [hsent, hserved, hready]
    have hin : (x.toIn T g).wReady := hready
    have hwr : (s.handlerIn (x.toIn T g) j).wReady := by
      change decide (s.wServed (x.toIn T g) = some j) = true
      simp [hserved, hready]
    have hdata := hfed.handlerIn.data ho
    have hlast := hfed.handlerIn.last hB ho hwr
    rw [hcnt] at hlast
    have hw : s.wSent (x.toIn T g) = some ((s.handler j).w (s.handlerIn (x.toIn T g) j)) := by
      simp [wSent, hserved, hready]
    have hlock := s.wArb.lock_next c.tl.dataBeats
      (fun j => !((s.handler j).w (s.handlerIn (x.toIn T g) j)).last) (x.toIn T g).wReady hchosen
    -- the beats of the burst so far
    have hgrow : g.part ++ [c.removeTag ((T k).data (g.sent k))] =
        (List.range (g.sent k + 1)).map fun m => c.removeTag ((T k).data m) := by
      rw [List.range_succ, List.map_append, hpart]
      rfl
    by_cases hend : g.sent k = c.tl.dataBeats - 1
    · have hfull : g.sent k + 1 = c.tl.dataBeats := by omega
      have hl : ((s.handler j).w (s.handlerIn (x.toIn T g) j)).last := by simpa [hlast] using hend
      refine ⟨by omega, ?_, ?_, by rw [hcnt', hwf, hready, hmore]; rfl, .inl ?_⟩
      · rw [hmore, if_pos hfull, List.map_append, ← hburst]
        simp only [step, hw, hl, if_true, hdata, hgrow, hfull]
        rfl
      · rw [hmore, if_pos hfull]
        simp only [step, hw, hl, if_true]
      · simp [Converter.next, LockArb.next, hchosen, hin, hl]
    · have hl : ((s.handler j).w (s.handlerIn (x.toIn T g) j)).last = false := by
        simpa [hlast] using hend
      have hne : g.sent k + 1 ≠ c.tl.dataBeats := by omega
      refine ⟨by omega, ?_, ?_, by rw [hcnt', hwf, hready, hmore]; rfl, ?_⟩
      · rw [hmore, if_neg hne, ← hburst]
        simp [step, hw, hl]
      · rw [hmore, if_neg hne, ← hgrow, ← hdata]
        simp [step, hw, hl]
      · exact hlock.imp_right fun h => ⟨h, by omega⟩

end Streams

/-! ## Invariants -/

section Invariants

variable {T} {s : Converter c n} {g : ConvLog c} {x : ConvCycle} {old : List ℕ} {k : ℕ} {j : Fin n}

/-- What holds along a run of writes one after another. -/
structure Inv (T : ℕ → Write c) (s : Converter c n) (g : ConvLog c) : Prop where
  staffed : Staffed T s g
  booked : Booked g
  unsent : ∀ k, k ∉ g.started → g.sent k = 0
  stream : AllSent T s g ∨ ∃ old k j, Issuing T s g old k j ∧
    ¬ ((s.handler j).cmdSent ∧ g.sent k = c.tl.dataBeats)

/-- Addresses and bursts are sent in the order of the writes. -/
theorem Inv.prefixes (h : Inv T s g) :
    g.addrs <+: g.started.map (awOf T) ∧ g.bursts <+: g.started.map fun k => (T k).own := by
  rcases h.stream with hr | ⟨old, k, j, hi, -⟩
  · rw [hr.addrs, hr.bursts]
    exact ⟨List.prefix_rfl, List.prefix_rfl⟩
  · rw [hi.addressing.addrs, hi.streaming.bursts, hi.started]
    constructor
    · split_ifs
      · exact List.prefix_rfl
      · exact (List.prefix_append old [k]).map _
    · split_ifs
      · exact List.prefix_rfl
      · exact (List.prefix_append old [k]).map _

/-- A write that is acknowledged is not the one that is being sent. -/
theorem Issuing.ne_of_ack (h : Issuing T s g old k j) (hnodup : g.started.Nodup)
    (hpend : ¬ ((s.handler j).cmdSent ∧ g.sent k = c.tl.dataBeats)) {m kb : ℕ}
    (hkb : g.started[m]? = some kb) (ha : m < g.addrs.length) (hb : m < g.bursts.length) :
    kb ≠ k := by
  rintro rfl
  have hm : m = old.length := by
    have hlast : g.started[old.length]? = some kb := by simp [h.started]
    have hlt : m < g.started.length := (List.getElem?_eq_some_iff.1 hkb).1
    exact (List.getElem?_inj hlt hnodup).1 (hkb.trans hlast.symm)
  rw [h.addressing.addrs, List.length_map] at ha
  rw [h.streaming.bursts, List.length_map] at hb
  apply hpend
  constructor
  · by_contra hc
    simp [hc] at ha
    omega
  · by_contra hc
    simp [hc] at hb
    omega

/-- Whose write is answered. -/
theorem Acked.freed_iff (ha : Acked T s g x) (hs : Staffed T s g) (ho : Owns (s.handler j) (T k)) :
    Freed T s g x k ↔ acks T s g x j := by
  cases ha with
  | idle hb hj => simp [Freed, hb, hj]
  | one m kb jb hm hkb haddr hburst hout ho' htag hb hj =>
    simp only [Freed, hb, htag, true_and, hj, Option.some.injEq, decide_eq_true_eq]
    constructor
    · exact fun h => hs.single j jb _ _ ho ho' h.symm
    · rintro rfl
      rw [← ho'.tag, ho.tag]

variable {d : Option (Fin n × ℕ)}

theorem turn_of_rest (ha : AtRest (s.handler j))
    (hu : Unfed (s.routed (x.toIn T g) j)) : Turn T s g x d j := by
  refine .rest ha ?_
  change AtRest ((s.handler j).next (s.handlerIn (x.toIn T g) j))
  rw [ha.next_of_unfed hu.handlerIn]
  exact ha

/-- A handler with a write keeps it, or has sent all of it and is freed. -/
theorem Acked.turn (ha : Acked T s g x) (hs : Staffed T s g) (hk : k ∈ g.outstanding)
    (ho : Owns (s.handler j) (T k))
    (hfree : acks T s g x j → Issued (s.handler j) ∧ Unfed (s.routed (x.toIn T g) j)) :
    Turn T s g x d j := by
  have hiff := ha.freed_iff hs ho
  cases hb : acks T s g x j with
  | false =>
    refine .keep k hk ho (by simp [hiff, hb]) ?_
    change Owns ((s.handler j).next (s.handlerIn (x.toIn T g) j)) (T k)
    rw [ho.next_of_busy (handlerIn_r j) hb]
    exact ⟨ho.isWrite, ho.isRead, ho.tag, ho.isAcq, ho.addr, ho.multiple⟩
  | true =>
    obtain ⟨hissued, hu⟩ := hfree hb
    have haw : (s.handler j).awFire (s.handlerIn (x.toIn T g) j) = false := by
      simp [awFire, awValid_eq_false hissued]
    have hw : (s.handler j).wFire (s.handlerIn (x.toIn T g) j) = false := by
      simp [wFire, hu.handlerIn.wValid]
    exact .free k hk ho (hiff.2 hb)
      (ho.atRest_next (handlerIn_r j) hb haw hw (hissued ho.isWrite).2)

theorem Booked.next (h : Booked g) (hs : Staffed T s g)
    (ha : Acked T s g x) (ht : TakesOn T s g x d)
    (hnew : ∀ j k, d = some (j, k) → k ∉ g.started) : Booked (g.step T s x) := by
  have hfresh : ∀ k ∈ g.fresh x, k ∉ g.started := by
    intro k hk
    obtain ⟨j, hd⟩ := ht.mem_fresh.1 hk
    exact hnew j k hd
  have hlen : (g.fresh x).Nodup := by
    rw [ht.fresh]
    cases d <;> simp
  have hpast : ∀ m ∈ (g.step T s x).acked, m < g.started.length := by
    intro m hm
    cases ha with
    | idle hb _ => exact h.past m (by simpa [step, hb] using hm)
    | one mb kb _ hmb hkb _ _ _ _ _ hb _ =>
      have hacked : (g.step T s x).acked = g.acked ++ [mb] := by simp [step, hb, hmb]
      rw [hacked, List.mem_append, List.mem_singleton] at hm
      rcases hm with hm | rfl
      · exact h.past m hm
      · exact (List.getElem?_eq_some_iff.1 hkb).1
  refine ⟨?_, fun k hk => ?_, fun m k hm => ?_, fun m hm => ?_⟩
  · exact List.nodup_append.2 ⟨h.nodup, hlen, fun k hk k' hk' => by
      rintro rfl
      exact hfresh k hk' hk⟩
  · obtain ⟨hk, -⟩ := (mem_outstanding_step k).1 hk
    exact List.mem_append.2 (hk.imp_left (h.sub k))
  · rw [mem_outstanding_step]
    change (g.started ++ g.fresh x)[m]? = some k at hm
    by_cases hlt : m < g.started.length
    · -- a write from before
      rw [List.getElem?_append_left hlt] at hm
      have hnot : k ∉ g.fresh x := fun hk => hfresh k hk (List.mem_of_getElem? hm)
      have hiff := h.acks m k hm
      cases ha with
      | idle hb hj => simp [step, Freed, hb, hnot, hiff]
      | one mb kb j hmb hkb _ _ hout _ htag hb _ =>
        have hacked : (g.step T s x).acked = g.acked ++ [mb] := by simp [step, hb, hmb]
        rw [hacked, List.mem_append, List.mem_singleton, not_or, ← hiff, or_iff_left hnot]
        refine and_congr_right fun hk => not_congr ⟨fun hf => ?_, ?_⟩
        · have htags : (T kb).tag = (T k).tag := Option.some.inj (htag.symm.trans hf.2)
          obtain rfl := hs.tags kb hout k hk htags
          exact (List.getElem?_inj hlt h.nodup).1 (hm.trans hkb.symm)
        · rintro rfl
          obtain rfl := Option.some.inj (hm.symm.trans hkb)
          exact ⟨hb, htag⟩
    · -- the new one
      rw [List.getElem?_append_right (by omega)] at hm
      have hk : k ∈ g.fresh x := List.mem_of_getElem? hm
      obtain ⟨j, hd⟩ := ht.mem_fresh.1 hk
      have hm' : m ∉ (g.step T s x).acked := fun hmem => hlt (hpast m hmem)
      exact iff_of_true ⟨.inr hk, ht.kept j k hd⟩ hm'
  · exact lt_of_lt_of_le (hpast m hm) (by simp [step])

/-- A cycle without a new write. -/
theorem takesOn_none (hs : Staffed T s g) (ha : Acked T s g x) (hfresh : g.fresh x = [])
    (hrest : ∀ j, AtRest (s.handler j) → Unfed (s.routed (x.toIn T g) j))
    (hown : ∀ j, acks T s g x j → Issued (s.handler j) ∧ Unfed (s.routed (x.toIn T g) j)) :
    TakesOn T s g x none := by
  refine ⟨fun j => ?_, hfresh, by simp, by simp, by simp⟩
  rcases hs.each j with hr | ⟨k, hk, ho⟩
  · exact turn_of_rest hr (hrest j hr)
  · exact ha.turn hs hk ho (hown j)

/-- A handler that has sent everything stays so. -/
theorem Issued.next (hi : Issued (s.handler j)) (hs : Staffed T s g)
    (ha : Acked T s g x) (ht : TakesOn T s g x d) (hd : ∀ k, d ≠ some (j, k))
    (hu : Unfed (s.routed (x.toIn T g) j)) : Issued ((s.next (x.toIn T g)).handler j) := by
  cases ht.turn j with
  | rest hr hr' => exact fun hw => by simp [hr'.isWrite] at hw
  | take k hd' => exact absurd hd' (hd k)
  | free k hk ho hf hr' => exact fun hw => by simp [hr'.isWrite] at hw
  | keep k hk ho hf ho' =>
    have hb : acks T s g x j = false := by
      rw [ha.freed_iff hs ho] at hf
      simpa using hf
    have hwf : (s.handler j).wFire (s.handlerIn (x.toIn T g) j) = false := by
      simp [wFire, hu.handlerIn.wValid]
    obtain ⟨hcmd, hcnt⟩ := hi ho.isWrite
    intro _
    change ((s.handler j).next (s.handlerIn (x.toIn T g) j)).cmdSent = true ∧
      ((s.handler j).next (s.handlerIn (x.toIn T g) j)).nwCnt = 0
    rw [ho.next_of_busy hu.handlerIn.r hb, hwf]
    simp [hcmd, hcnt]

/-- With everything sent, a cycle sends nothing. -/
theorem AllSent.sends_nothing (h : AllSent T s g) (hw : ∀ j, s.wValid (x.toIn T g) j = false) :
    (g.step T s x).addrs = g.addrs ∧ (g.step T s x).bursts = g.bursts ∧
      (g.step T s x).part = g.part ∧ (s.next (x.toIn T g)).awArb.lock = none ∧
      (s.next (x.toIn T g)).wArb.lock = none := by
  have haw : s.awArb.chosen (fun j => (s.handler j).awValid) = none :=
    chosen_eq_none _ fun j => awValid_eq_false (h.issued j)
  have hwc : s.wArb.chosen (s.wValid (x.toIn T g)) = none := chosen_eq_none _ hw
  have hserved := wServed_eq_none hw
  refine ⟨?_, ?_, ?_, ?_, ?_⟩
  · simp [step, awSent, awServed, served, haw]
  · simp [step, wSent, hserved]
  · simp [step, wSent, hserved]
  · simp [Converter.next, LockArb.next, haw, h.awLock]
  · simp [Converter.next, LockArb.next, hwc, h.wLock]

theorem fresh_eq_nil (h : ∀ k ∈ x.presented, k ∈ g.started) : g.fresh x = [] := by
  simp only [fresh, List.filter_eq_nil_iff]
  intro k hk
  simp [h k hk]

theorem Inv.next_quiet (h : Inv T s g) (ha : Acked T s g x) (hr : AllSent T s g)
    (hacq : x.acq = none) (hrel : x.rel = none) : Inv T (s.next (x.toIn T g)) (g.step T s x) := by
  have hu : ∀ j, Unfed (s.routed (x.toIn T g) j) := unfed_of_none hacq hrel
  have hfresh : g.fresh x = [] := fresh_eq_nil (by simp [ConvCycle.presented, hacq, hrel])
  have hstarted : (g.step T s x).started = g.started := by simp [step, hfresh]
  have hsent : (g.step T s x).sent = g.sent := sent_step_of_none hacq hrel
  have ht : TakesOn T s g x none :=
    takesOn_none h.staffed ha hfresh (fun j _ => hu j) fun j _ => ⟨hr.issued j, hu j⟩
  obtain ⟨h1, h2, h3, h4, h5⟩ := hr.sends_nothing (x := x) fun j => (hu j).wValid
  refine ⟨h.staffed.next ht, h.booked.next h.staffed ha ht (by simp), ?_, .inl ?_⟩
  · rw [hstarted, hsent]
    exact h.unsent
  · refine ⟨?_, ?_, by rw [h3, hr.part], ?_, fun j => ?_, h4, h5⟩
    · rw [h1, hstarted, hr.addrs]
    · rw [h2, hstarted, hr.bursts]
    · rw [hstarted, hsent]
      exact hr.sent
    · exact (hr.issued j).next h.staffed ha ht (by simp) (hu j)

theorem Inv.next_new (hB : 1 < c.tl.dataBeats) (h : Inv T s g) (ha : Acked T s g x)
    (hr : AllSent T s g) (hx : x.Shows T k) (hpres : x.presented = [k]) (hk : k ∉ g.started)
    (htags : ∀ k' ∈ g.outstanding, (T k').tag ≠ (T k).tag) (hidle : ∃ j, (s.handler j).rdy) :
    Inv T (s.next (x.toIn T g)) (g.step T s x) := by
  obtain ⟨j, hrest, hroute⟩ := h.staffed.routed_new hx htags hidle
  obtain ⟨hfed, hothers⟩ := hroute.fed hx
  rw [h.unsent k hk] at hfed
  obtain ⟨ho, hcmd, hcnt⟩ := hrest.owns_next hB hfed.handlerIn
  change Owns ((s.next (x.toIn T g)).handler j) (T k) at ho
  change ((s.next (x.toIn T g)).handler j).cmdSent = false at hcmd
  change ((s.next (x.toIn T g)).handler j).nwCnt = 0 at hcnt
  have hfresh : g.fresh x = [k] := by simp [fresh, hpres, hk]
  have hstarted : (g.step T s x).started = g.started ++ [k] := by simp [step, hfresh]
  have hsent : ∀ k', (g.step T s x).sent k' = g.sent k' := by
    intro k'
    rw [sent_step hx, hroute.not_fires hrest]
    simp
  have hkept : ¬ Freed T s g x k := by
    cases ha with
    | idle hb _ => simp [Freed, hb]
    | one _ kb _ _ _ _ _ hout _ htag _ _ =>
      intro hf
      exact htags kb hout (Option.some.inj (htag.symm.trans hf.2))
  have ht : TakesOn T s g x (some (j, k)) := by
    refine ⟨fun j' => ?_, by simp [hfresh], ?_, ?_, ?_⟩
    · by_cases hj : j' = j
      · subst hj
        exact .take k rfl hrest ho
      · rcases h.staffed.each j' with hr' | ⟨k', hk', ho'⟩
        · exact turn_of_rest hr' (hothers j' hj)
        · exact ha.turn h.staffed hk' ho' fun _ => ⟨hr.issued j', hothers j' hj⟩
    all_goals
      intro j' k' hd
      simp only [Option.some.injEq, Prod.mk.injEq] at hd
      obtain ⟨rfl, rfl⟩ := hd
    · exact ho
    · exact htags
    · exact hkept
  have hw : ∀ j', s.wValid (x.toIn T g) j' = false := by
    intro j'
    by_cases hj : j' = j
    · subst hj
      exact hrest.wValid
    · exact (hothers j' hj).wValid
  obtain ⟨h1, h2, h3, h4, h5⟩ := hr.sends_nothing hw
  have hzero : (g.step T s x).sent k = 0 := by rw [hsent, h.unsent k hk]
  have hne : (0 : ℕ) ≠ c.tl.dataBeats := by omega
  refine ⟨h.staffed.next ht, h.booked.next h.staffed ha ht ?_, fun k' hk' => ?_,
    .inr ⟨g.started, k, j, ⟨hstarted, ?_, ho, fun k' hk' => ?_, fun j' hj => ?_, ⟨?_, .inl h4⟩,
      ⟨by omega, ?_, ?_, ?_, .inl h5⟩⟩, by simp [hcmd]⟩⟩
  · intro j' k' hd
    simp only [Option.some.injEq, Prod.mk.injEq] at hd
    exact hd.2 ▸ hk
  · rw [hsent]
    refine h.unsent k' fun hmem => hk' ?_
    rw [hstarted]
    exact List.mem_append_left _ hmem
  · exact (mem_outstanding_step k).2 ⟨.inr (by simp [hfresh]), hkept⟩
  · rw [hsent]
    exact hr.sent k' hk'
  · refine (hr.issued j').next h.staffed ha ht ?_ (hothers j' hj)
    intro k' hd
    simp only [Option.some.injEq, Prod.mk.injEq] at hd
    exact hj hd.1.symm
  · rw [h1, hcmd, hr.addrs]
    rfl
  · rw [h2, hzero, if_neg hne, hr.bursts]
  · rw [h3, hzero, if_neg hne, hr.part]
    rfl
  · rw [hcnt, hzero, Nat.zero_mod]

theorem Inv.next_issuing (hB : 1 < c.tl.dataBeats) (h : Inv T s g) (ha : Acked T s g x)
    (hi : Issuing T s g old k j)
    (hpend : ¬ ((s.handler j).cmdSent ∧ g.sent k = c.tl.dataBeats))
    (hx : x.acq = none ∧ x.rel = none ∨
      x.Shows T k ∧ x.presented = [k] ∧ g.sent k < c.tl.dataBeats) :
    Inv T (s.next (x.toIn T g)) (g.step T s x) := by
  have hmem : k ∈ g.started := by simp [hi.started]
  -- the write is not acknowledged before it is sent
  have hbj : acks T s g x j = false := by
    cases ha with
    | idle _ hj => exact hj j
    | one m kb jb hm hkb haddr hburst hout ho _ _ hj =>
      have hne := hi.ne_of_ack h.booked.nodup hpend hkb haddr hburst
      rw [hj, decide_eq_false_iff_not]
      rintro rfl
      exact hne (h.staffed.owns_unique hout hi.out ho hi.owns)
  have hkept : ¬ Freed T s g x k := by
    rw [ha.freed_iff h.staffed hi.owns, hbj]
    simp
  have hothers : ∀ j', j' ≠ j → Unfed (s.routed (x.toIn T g) j') := by
    rcases hx with ⟨hacq, hrel⟩ | ⟨hx, -, -⟩
    · exact fun j' _ => unfed_of_none hacq hrel j'
    · exact ((h.staffed.routed_owner hx hi.owns).fed hx).2
  have hfresh : g.fresh x = [] := by
    apply fresh_eq_nil
    rcases hx with ⟨hacq, hrel⟩ | ⟨-, hpres, -⟩
    · simp [ConvCycle.presented, hacq, hrel]
    · simp [hpres, hmem]
  have hstarted : (g.step T s x).started = g.started := by simp [step, hfresh]
  have hsent : ∀ k', k' ≠ k → (g.step T s x).sent k' = g.sent k' := by
    intro k' hne
    rcases hx with ⟨hacq, hrel⟩ | ⟨hx, -, -⟩
    · rw [sent_step_of_none hacq hrel]
    · rw [sent_step hx]
      simp [hne]
  have ht : TakesOn T s g x none := by
    refine takesOn_none h.staffed ha hfresh (fun j' hr => hothers j' ?_) fun j' hb => ?_
    · rintro rfl
      exact hr.not_owns hi.owns
    · have hne : j' ≠ j := by
        rintro rfl
        simp [hbj] at hb
      exact ⟨hi.issued j' hne, hothers j' hne⟩
  have howns : Owns ((s.next (x.toIn T g)).handler j) (T k) := by
    cases ht.turn j with
    | rest hr => exact absurd hi.owns hr.not_owns
    | take _ hd => simp at hd
    | keep k' hk' ho _ ho' =>
      obtain rfl := h.staffed.owns_unique hi.out hk' hi.owns ho
      exact ho'
    | free k' hk' ho hf =>
      obtain rfl := h.staffed.owns_unique hi.out hk' hi.owns ho
      exact absurd hf hkept
  have hstream : Streaming T (s.next (x.toIn T g)) (g.step T s x) old k j := by
    rcases hx with ⟨hacq, hrel⟩ | ⟨hx, -, hlt⟩
    · exact hi.streaming.next_of_unfed hi.owns (unfed_of_none hacq hrel)
        (sent_step_of_none hacq hrel) hbj
    · exact hi.streaming.next_of_routed hB h.staffed hi.owns hx hlt hbj
  have hissuing : Issuing T (s.next (x.toIn T g)) (g.step T s x) old k j := by
    refine ⟨hstarted.trans hi.started, (mem_outstanding_step k).2 ⟨.inl hi.out, hkept⟩, howns,
      fun k' hk' => ?_, fun j' hj => ?_, hi.addressing.next hi.owns hi.issued hbj, hstream⟩
    · have hne : k' ≠ k := by
        rintro rfl
        have hnodup := h.booked.nodup
        rw [hi.started, List.nodup_append] at hnodup
        exact hnodup.2.2 k' hk' k' (by simp) rfl
      rw [hsent k' hne, hi.sent k' hk']
    · exact (hi.issued j' hj).next h.staffed ha ht (by simp) (hothers j' hj)
  refine ⟨h.staffed.next ht, h.booked.next h.staffed ha ht (by simp), fun k' hk' => ?_, ?_⟩
  · rw [hstarted] at hk'
    have hne : k' ≠ k := by
      rintro rfl
      exact hk' hmem
    rw [hsent k' hne, h.unsent k' hk']
  · by_cases hdone : ((s.next (x.toIn T g)).handler j).cmdSent ∧
        (g.step T s x).sent k = c.tl.dataBeats
    · exact .inl (hissuing.resting hdone.1 hdone.2)
    · exact .inr ⟨old, k, j, hissuing, hdone⟩

theorem Inv.next (hB : 1 < c.tl.dataBeats) (h : Inv T s g) (hp : Presented T g x)
    (ht : InTurn s g x) : Inv T (s.next (x.toIn T g)) (g.step T s x) := by
  have ha : Acked T s g x := h.staffed.acked hp h.booked h.prefixes.1
  rcases h.stream with hr | ⟨old, k, j, hi, hpend⟩
  · rcases shows_or_none hp ht with ⟨hacq, hrel⟩ | ⟨k, hx, hpres⟩
    · exact h.next_quiet ha hr hacq hrel
    · have hk : k ∉ g.started := by
        intro hk
        have := hp.beats k (by simp [hpres])
        rw [hr.sent k hk] at this
        omega
      refine h.next_new hB ha hr hx hpres hk (fun k' hk' htag => ?_)
        (ht.next k (by simp [hpres]) hk).2.2
      obtain rfl := hp.tags k (by simp [hpres]) k' (List.mem_append_left _ hk') htag
      exact hk (h.booked.sub _ hk')
  · refine h.next_issuing hB ha hi hpend ?_
    rcases shows_or_none hp ht with hnone | ⟨k', hx, hpres⟩
    · exact .inl hnone
    · have hk' : k' ∈ g.started := by
        by_contra hk'
        obtain ⟨haddr, hburst, -⟩ := ht.next k' (by simp [hpres]) hk'
        apply hpend
        rw [hi.addressing.addrs, hi.started] at haddr
        rw [hi.streaming.bursts, hi.started] at hburst
        constructor
        · by_contra hc
          simp [hc] at haddr
        · by_contra hc
          simp [hc] at hburst
      have hlast := ht.last k' (by simp [hpres]) hk'
      rw [hi.started, List.getLast?_concat, Option.some.injEq] at hlast
      subst hlast
      exact .inr ⟨hx, hpres, hp.beats _ (by simp [hpres])⟩

theorem Inv.reset (u : Converter c n) : Inv T u.reset .empty := by
  have hrest : ∀ j, AtRest (u.reset.handler j) := fun j => ⟨rfl, rfl, rfl, rfl, rfl⟩
  refine ⟨⟨fun j => .inl (hrest j), by simp [empty], by simp [empty], ?_⟩,
    ⟨by simp [empty], by simp [empty], by simp [empty],
      by simp [empty]⟩, fun _ _ => rfl, .inl ⟨rfl, rfl, rfl, by simp [empty], ?_,
      rfl, rfl⟩⟩
  · intro j j' w w' ho
    exact absurd ho (hrest j).not_owns
  · intro j hw
    simp [(hrest j).isWrite] at hw

end Invariants

/-! ## Runs -/

/-- Every burst that the slave has paired with an address is that of its write. -/
theorem Inv.ownData {T : ℕ → Write c} {s : Converter c n} {g : ConvLog c} (h : Inv T s g) :
    g.OwnData T := by
  obtain ⟨⟨as, has⟩, ⟨bs, hbs⟩⟩ := h.prefixes
  intro e he
  obtain ⟨m, hm⟩ := List.mem_iff_getElem?.1 he
  -- position by position, both lists are read off the list of writes
  rw [stored, List.getElem?_zip_eq_some] at hm
  obtain ⟨ha, hb⟩ := hm
  have ha' : (g.started.map (awOf T))[m]? = some e.1 := by
    rw [← has, List.getElem?_append_left (List.getElem?_eq_some_iff.1 ha).1, ha]
  have hb' : (g.started.map fun k => (T k).own)[m]? = some e.2 := by
    rw [← hbs, List.getElem?_append_left (List.getElem?_eq_some_iff.1 hb).1, hb]
  rw [List.getElem?_map, Option.map_eq_some_iff] at ha' hb'
  obtain ⟨k, hk, hka⟩ := ha'
  obtain ⟨k', hk', hkb⟩ := hb'
  obtain rfl := Option.some.inj (hk.symm.trans hk')
  exact ⟨k, List.mem_of_getElem? hk, Prod.ext hka.symm hkb.symm⟩

/-- A write whose beats were all accepted has its burst, and its address is sent or on the
output. -/
theorem Inv.complete (hB : 1 < c.tl.dataBeats) {T : ℕ → Write c} {s : Converter c n}
    {g : ConvLog c} (h : Inv T s g) {k : ℕ} (hk : g.sent k = c.tl.dataBeats) :
    ∃ m : ℕ, g.started[m]? = some k ∧ g.bursts[m]? = some (T k).own ∧
      (g.addrs[m]? = some (awOf T k) ∨ g.addrs.length = m ∧
        ∃ a, s.aw = some a ∧ (a.id, a.addr / 2 ^ c.tl.byteAddrBits) = awOf T k) := by
  have hmem : k ∈ g.started := by
    by_contra hno
    have := h.unsent k hno
    omega
  obtain ⟨m, hm⟩ := List.mem_iff_getElem?.1 hmem
  refine ⟨m, hm, ?_⟩
  rcases h.stream with hr | ⟨old, k', j, hi, -⟩
  · rw [hr.addrs, hr.bursts]
    simp [hm]
  · by_cases hlt : m < old.length
    · -- a write before the one that is being sent
      have hold : old[m]? = some k := by rw [← hm, hi.started, List.getElem?_append_left hlt]
      have hpos (q : Prop) [Decidable q] : (if q then old ++ [k'] else old)[m]? = some k := by
        split_ifs
        · rw [List.getElem?_append_left hlt, hold]
        · exact hold
      rw [hi.addressing.addrs, hi.streaming.bursts, List.getElem?_map, List.getElem?_map, hpos,
        hpos]
      exact ⟨rfl, .inl rfl⟩
    · have hlast : m = old.length ∧ k = k' := by
        rw [hi.started, List.getElem?_append_right (by omega)] at hm
        have hzero : m - old.length = 0 := by
          by_contra hne
          rw [List.getElem?_eq_none (by simp; omega)] at hm
          simp at hm
        rw [hzero] at hm
        exact ⟨by omega, by simpa [eq_comm] using hm⟩
      obtain ⟨rfl, rfl⟩ := hlast
      rw [hi.streaming.bursts, hk, if_pos rfl, hi.addressing.addrs]
      refine ⟨by simp, ?_⟩
      cases hcmd : (s.handler j).cmdSent with
      | true => simp
      | false =>
        right
        have hchosen := hi.addressing.chosen hi.owns hi.issued hcmd
        refine ⟨by simp, (s.handler j).address, by simp [aw, hchosen], ?_⟩
        simp [address, hi.owns.tag, hi.owns.addr, awOf]

/-- In every run of writes one after another, every burst that the slave pairs with an address
is the burst of the write with that address; and a write whose beats were all accepted has
its burst, at the same position as its address, which is sent or on the output. -/
theorem converter_writes_in_turn (hB : 1 < c.tl.dataBeats) (u : Converter c n)
    (xs : List ConvCycle) (hl : (inTurnMachine T).Legal (u.reset, ConvLog.empty) xs) :
    let s := (inTurnMachine T).run (u.reset, ConvLog.empty) xs
    s.2.OwnData T ∧ ∀ k, s.2.sent k = c.tl.dataBeats →
      ∃ m : ℕ, s.2.started[m]? = some k ∧ s.2.bursts[m]? = some (T k).own ∧
        (s.2.addrs[m]? = some (awOf T k) ∨ s.2.addrs.length = m ∧
          ∃ a, s.1.aw = some a ∧ (a.id, a.addr / 2 ^ c.tl.byteAddrBits) = awOf T k) := by
  intro s
  have hinv : Inv T s.1 s.2 :=
    Machine.invariant_run (m := inTurnMachine T) (P := fun s => Inv T s.1 s.2)
      (fun _ _ h hok => h.next hB hok.1 hok.2) (.reset u) hl
  exact ⟨hinv.ownData, fun k hk => hinv.complete hB hk⟩

/-! ## A foreign beat -/

/-- Two clients, blocks of two beats of one 8-bit word with a one-bit tag. -/
def smallConv : ConvParams :=
  { tl := { TLParams.small with byteAddrBits := 0, dataBits := 9, grantTypeBits := 3 }
    words := 1, tagBits := 1, xLen := 8, dataBits_eq := by decide
    acquireTypeBits_le := by decide }

/-- The registers before the reset. -/
def smallHandler : Handler smallConv :=
  { writeMultipleData := false, readMultipleData := false, nwCnt := 0, nrCnt := 0, isRead := false
    isWrite := false, isAcq := false, isBuiltin := false, tagOut := 0, addrOut := 0, lenOut := 0
    sizeOut := 0, gTypeOut := 0, cmdSent := false }

def smallConverter (n : ℕ) : Converter smallConv n :=
  ⟨fun _ => smallHandler, .init, .init, .init, .init⟩

/-- Releases of two clients. -/
def twoReleases (k : ℕ) : Write smallConv :=
  { isAcq := false, clientId := BitVec.ofNat 1 k, clientXactId := 0
    addrBlock := BitVec.ofNat 4 (k + 3), data := fun j => BitVec.ofNat 9 (16 * (k + 1) + j)
    union := 0, voluntary := true, rType := 0 }

/-- A cycle in which everybody is ready. -/
def releaseOf (k : Option ℕ) (b : Option ℕ) : ConvCycle :=
  { acq := none, rel := k, grantReady := true, awReady := true, wReady := true, arReady := true
    b := b }

/-- The second release is presented while the only handler waits for the acknowledgement of
the first. -/
def foreignRun : List ConvCycle :=
  [releaseOf (some 0) none, releaseOf (some 0) none, releaseOf (some 0) none,
    releaseOf (some 1) (some 0), releaseOf (some 1) none, releaseOf (some 1) none]

/-- The first beat of the second release goes out in a burst of the handler that still has the
first, and then again. -/
theorem foreign_beat_in_burst :
    (converterMachine twoReleases).Legal ((smallConverter 1).reset, ConvLog.empty) foreignRun ∧
      ((converterMachine twoReleases).run
        ((smallConverter 1).reset, ConvLog.empty) foreignRun).2.stored =
          [((0, 6), [16, 17]), ((2, 8), [32, 32])] ∧
      ¬ ((converterMachine twoReleases).run
        ((smallConverter 1).reset, ConvLog.empty) foreignRun).2.OwnData twoReleases := by
  refine ⟨by decide +kernel, by decide +kernel, by decide +kernel⟩

/-- The second release waits for the acknowledgement of the first. -/
def inTurnRun : List ConvCycle :=
  [releaseOf (some 0) none, releaseOf (some 0) none, releaseOf (some 0) none,
    releaseOf none (some 0), releaseOf (some 1) none, releaseOf (some 1) none,
    releaseOf (some 1) none]

/-- Both blocks are stored at their addresses. -/
theorem converter_writes_in_turn_two :
    (inTurnMachine twoReleases).Legal ((smallConverter 1).reset, ConvLog.empty) inTurnRun ∧
      ((inTurnMachine twoReleases).run
        ((smallConverter 1).reset, ConvLog.empty) inTurnRun).2.stored =
          [((0, 6), [16, 17]), ((2, 8), [32, 33])] ∧
      ((inTurnMachine twoReleases).run
        ((smallConverter 1).reset, ConvLog.empty) inTurnRun).2.OwnData twoReleases := by
  have hl : (inTurnMachine twoReleases).Legal ((smallConverter 1).reset, ConvLog.empty)
      inTurnRun := by
    decide +kernel
  exact ⟨hl, by decide +kernel, (converter_writes_in_turn twoReleases (by decide) _ _ hl).1⟩

end TaggedRiscv.Nasti
