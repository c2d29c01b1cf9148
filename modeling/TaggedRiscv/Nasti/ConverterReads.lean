import TaggedRiscv.Nasti.ConverterPorts

/-!
# Reads and their grants

Clients read beats and blocks with `Get` and `GetBlock`, and the slave sends the data of
different reads in any order, beat by beat. A beat finds its handler by its id and leaves in
the same cycle as the data of a grant, so every read gets its own data. The number of the beat
in the grant is the handler's count of beats, which starts with zero: right for a block, and
for a `Get` only where it reads the first beat of its block.
-/

namespace TaggedRiscv.Nasti

open Sync Converter Handler

/-! ## Traffic -/

/-- A `Get`, or a `GetBlock`. -/
structure Read (c : ConvParams) where
  block : Bool
  clientId : BitVec c.tl.clientIdBits
  clientXactId : BitVec c.tl.clientXactIdBits
  addrBlock : BitVec c.tl.blockAddrBits
  addrBeat : BitVec c.tl.beatAddrBits
  data : BitVec c.tl.dataBits
  union : BitVec c.tl.unionBits

variable {c : ConvParams} {n : ℕ}

namespace Read

variable (w : Read c)

def tag : c.Tag := w.clientId ++ w.clientXactId

/-- The request. -/
def acquire : AcquireFromSrc c.tl :=
  { clientId := w.clientId
    isBuiltinType := true
    aType := BitVec.ofNat _
      (if w.block then BuiltInAcquire.getBlockType else BuiltInAcquire.getType).code
    clientXactId := w.clientXactId
    addrBlock := w.addrBlock
    addrBeat := w.addrBeat
    data := w.data
    union := w.union }

/-- The number of beats. -/
def size : ℕ := if w.block then c.tl.dataBeats else 1

/-- The read address that the slave gets. -/
def address : AddressChannel c :=
  { id := w.tag
    addr := w.acquire.fullAddr
    len := w.size - 1
    size := if w.block then bytesToXSize c.dataBytes else opSizeToXSize c w.acquire.opSize }

def gType : BuiltInGrant := if w.block then .getDataBlockType else .getDataBeatType

/-- The grant with the data of a beat, where the beats are numbered from `first` on; the
transaction id of the manager is left out. -/
def grant (first : BitVec c.tl.beatAddrBits) (beat : ℕ) (d : c.Data) : GrantToDst c.tl :=
  { clientId := w.clientId
    isBuiltinType := true
    gType := BitVec.ofNat _ w.gType.code
    clientXactId := w.clientXactId
    managerXactId := 0
    addrBeat := first + BitVec.ofNat _ beat
    data := c.insertTag d }

/-- The grants for some beats of data in order. -/
def grants (first : BitVec c.tl.beatAddrBits) (ds : List c.Data) : List (GrantToDst c.tl) :=
  ds.zipIdx.map fun e => w.grant first e.2 e.1

theorem grants_append (first : BitVec c.tl.beatAddrBits) (ds : List c.Data) (d : c.Data) :
    w.grants first (ds ++ [d]) = w.grants first ds ++ [w.grant first ds.length d] := by
  simp [grants, List.zipIdx_append]

end Read

/-- A grant without the transaction id of the manager. -/
def forClient (a : GrantToDst c.tl) : GrantToDst c.tl := { a with managerXactId := 0 }

variable (c) in
/-- What happened at the ports. Requests are numbered. -/
structure ReadLog where
  /-- The requests that were presented. -/
  started : List ℕ
  /-- The requests that were presented and do not have all of their grants. -/
  outstanding : List ℕ
  /-- The read addresses that the slave accepted with the tag of a request. -/
  addrs : ℕ → List (AddressChannel c)
  /-- The data that the slave has delivered for a request. -/
  beats : ℕ → List c.Data
  /-- The grants with the client and the transaction of a request. -/
  grants : ℕ → List (GrantToDst c.tl)
  /-- Addresses and grants of no request. -/
  strayAddrs : List (AddressChannel c)
  strayGrants : List (GrantToDst c.tl)
  /-- What is presented and not accepted yet, by a client and by the slave. -/
  acqHeld : Option ℕ
  rHeld : Option (ℕ × c.Data)

variable (c) in
/-- A cycle: the request that is presented, the ready signals, and the data that the slave
offers for a request. -/
structure ReadCycle where
  acq : Option ℕ
  r : Option (ℕ × c.Data)
  grantReady : Bool
  arReady : Bool
  awReady : Bool
  wReady : Bool

variable (T : ℕ → Read c)

/-- The inputs of the converter in a cycle. The slave answers with the id of the address, and
marks the last of the beats that the address asks for. -/
def ReadCycle.toIn (x : ReadCycle c) (g : ReadLog c) : ConverterIn c :=
  { acquire := x.acq.map fun k => (T k).acquire
    release := none
    grantReady := x.grantReady
    awReady := x.awReady
    wReady := x.wReady
    arReady := x.arReady
    b := none
    r := x.r.bind fun e => (g.addrs e.1).head?.map fun a =>
      (a.id, e.2, decide ((g.beats e.1).length = a.len)) }

@[simp] theorem ReadCycle.toIn_acquire (x : ReadCycle c) (g : ReadLog c) :
    (x.toIn T g).acquire = x.acq.map fun k => (T k).acquire := rfl

@[simp] theorem ReadCycle.toIn_release (x : ReadCycle c) (g : ReadLog c) :
    (x.toIn T g).release = none := rfl

namespace ReadLog

variable (g : ReadLog c)

def empty : ReadLog c :=
  { started := [], outstanding := [], addrs := fun _ => [], beats := fun _ => []
    grants := fun _ => [], strayAddrs := [], strayGrants := [], acqHeld := none, rHeld := none }

/-- The outstanding request with a tag. -/
def holder (tag : c.Tag) : Option ℕ := g.outstanding.find? fun k => (T k).tag == tag

/-- The request that is presented for the first time. -/
def fresh (x : ReadCycle c) : List ℕ := x.acq.toList.filter fun k => !g.started.contains k

/-- The read address and the grant that are sent for a request, or for none. -/
def addrsFor (s : Converter c n) (i : ConverterIn c) (k : Option ℕ) : List (AddressChannel c) :=
  (s.arSent i).toList.filter fun a => g.holder T a.id == k

def grantsFor (s : Converter c n) (i : ConverterIn c) (k : Option ℕ) : List (GrantToDst c.tl) :=
  (s.grantSent i).toList.filter fun a => g.holder T (a.clientId ++ a.clientXactId) == k

/-- The data that is taken from the slave for a request. -/
def beatsFor (s : Converter c n) (x : ReadCycle c) (k : ℕ) : List c.Data :=
  if s.rFire (x.toIn T g) then (x.r.toList.filter fun e => e.1 == k).map Prod.snd else []

/-- The log after a cycle. -/
def step (s : Converter c n) (x : ReadCycle c) : ReadLog c :=
  { started := g.started ++ g.fresh x
    outstanding := (g.outstanding ++ g.fresh x).filter fun k =>
      decide ((g.grants k ++ g.grantsFor T s (x.toIn T g) (some k)).length < (T k).size)
    addrs := fun k => g.addrs k ++ g.addrsFor T s (x.toIn T g) (some k)
    beats := fun k => g.beats k ++ g.beatsFor T s x k
    grants := fun k => g.grants k ++ g.grantsFor T s (x.toIn T g) (some k)
    strayAddrs := g.strayAddrs ++ g.addrsFor T s (x.toIn T g) none
    strayGrants := g.strayGrants ++ g.grantsFor T s (x.toIn T g) none
    acqHeld := if s.acquireFire (x.toIn T g) then none else x.acq
    rHeld := if s.rFire (x.toIn T g) then none else x.r }

end ReadLog

open ReadLog

/-- Each request is presented until it is accepted and not again, and has a tag that no other
outstanding one has; the slave sends for an address it has accepted as many beats as it asks
for, and holds a beat until it is taken. -/
@[mk_iff]
structure ReadsPresented (g : ReadLog c) (x : ReadCycle c) : Prop where
  once : ∀ k ∈ x.acq, g.acqHeld = some k ∨ k ∉ g.started
  held : ∀ k ∈ g.acqHeld, x.acq = some k
  tags : ∀ k ∈ x.acq, ∀ k' ∈ g.outstanding, (T k').tag = (T k).tag → k' = k
  r : ∀ e ∈ x.r, ∃ a ∈ (g.addrs e.1).head?, (g.beats e.1).length ≤ a.len
  rHeld : ∀ e ∈ g.rHeld, x.r = some e

/-- The converter among clients that read and the slave. -/
abbrev readsMachine : Machine (Converter c n × ReadLog c) (ReadCycle c) where
  ok s x := ReadsPresented T s.2 x
  next s x := (s.1.next (x.toIn T s.2), s.2.step T s.1 x)

instance (g : ReadLog c) (x : ReadCycle c) : Decidable (ReadsPresented T g x) :=
  decidable_of_iff' _ (readsPresented_iff T g x)

/-- The slave gets the address of each request once; each request gets, in order, its data in
grants to its client and with the number of the beat, and nobody gets anything else. A request
that is presented while a handler is idle has a handler in the next cycle, its address is sent
as soon as the slave is ready for it, and data that the slave offers is taken as soon as the
grant can leave. -/
structure ReadsReturned (s : Converter c n × ReadLog c) : Prop where
  addrs : ∀ k, s.2.addrs k = [] ∨ s.2.addrs k = [(T k).address]
  grants : ∀ k, (s.2.grants k).map forClient = (T k).grants (T k).addrBeat (s.2.beats k)
  sizes : ∀ k, (s.2.grants k).length ≤ (T k).size ∧
    (k ∈ s.2.started → k ∉ s.2.outstanding → (s.2.grants k).length = (T k).size)
  stray : s.2.strayAddrs = [] ∧ s.2.strayGrants = []
  taken : ∀ x, ReadsPresented T s.2 x → ∀ k ∈ x.acq, (∃ j, s.1.tlReady j) →
    ∃ j, ((s.1.next (x.toIn T s.2)).handler j).acqMatch (T k).acquire
  asked : ∀ x, ReadsPresented T s.2 x → ∀ k ∈ x.acq,
    (∃ j, (s.1.handler j).acqMatch (T k).acquire) → x.arReady →
    s.1.arSent (x.toIn T s.2) = some (T k).address ∧ s.1.acquireFire (x.toIn T s.2)
  prompt : ∀ x, ReadsPresented T s.2 x → x.r.isSome → x.grantReady →
    s.1.rFire (x.toIn T s.2)

/-! ## Handlers -/

variable {d : c.Data}

section Handlers

variable {T} {h : Handler c} {i : HandlerIn c} {w : Read c} {m : ℕ}

/-- The handler is idle, and its registers are as after reset. -/
structure Free (h : Handler c) : Prop where
  isRead : h.isRead = false
  isWrite : h.isWrite = false
  isAcq : h.isAcq = false
  cmdSent : h.cmdSent = false
  nrCnt : h.nrCnt = 0

/-- The handler has the read, of which so many beats have come. -/
structure Serves (h : Handler c) (w : Read c) (m : ℕ) : Prop where
  isRead : h.isRead
  isWrite : h.isWrite = false
  isAcq : h.isAcq
  isBuiltin : h.isBuiltin
  address : h.address = w.address
  multiple : h.readMultipleData = w.block
  gType : h.gTypeOut = BitVec.ofNat _ w.gType.code
  nrCnt : h.nrCnt = m
  lt : m < w.size

theorem Read.isBuiltIn_acquire (w : Read c) (t : BuiltInAcquire) :
    w.acquire.isBuiltIn t = decide (t = if w.block then .getBlockType else .getType) := by
  have hbits := c.lt_acquireTypes (k := 1) (by decide)
  cases hb : w.block <;> cases t <;>
    simp [Acquire.isBuiltIn, Read.acquire, BuiltInAcquire.code, hb, Nat.mod_eq_of_lt hbits]

theorem Read.grantType_acquire (w : Read c) : w.acquire.getBuiltInGrantType = w.gType := by
  have hbits := c.lt_acquireTypes (k := 1) (by decide)
  cases hb : w.block <;>
    simp [Acquire.getBuiltInGrantType, Read.acquire, BuiltInAcquire.code, Read.gType, hb,
      Nat.mod_eq_of_lt hbits]

theorem Free.rdy (hf : Free h) : h.rdy := by
  simp [Handler.rdy, isIdle, hf.isRead, hf.isWrite]

section

variable (hs : Serves h w m)

include hs

theorem Serves.rdy : h.rdy = false := by
  simp [Handler.rdy, isIdle, hs.isRead]

theorem Serves.tagOut : h.tagOut = w.tag :=
  congrArg AddressChannel.id hs.address

theorem Serves.acqMatch (w' : Read c) : h.acqMatch w'.acquire = decide (w.tag = w'.tag) := by
  simp only [Handler.acqMatch, hs.rdy, hs.tagOut, Bool.not_false, Bool.and_true]
  rfl

end

theorem Free.acqMatch (hf : Free h) (w' : Read c) : h.acqMatch w'.acquire = false := by
  simp [Handler.acqMatch, hf.rdy]

theorem Free.quiet (hf : Free h) :
    h.bFire i = false ∧ h.rFire i = false ∧ h.wFire i = false ∧ h.arFire i = false ∧
      h.awFire i = false := by
  simp [Handler.bFire, Handler.bReady, Handler.rFire, Handler.rReady, wFire,
    Handler.wValid, arFire, arValid, awFire, awValid, hf.isRead,
    hf.isWrite]

theorem Serves.quiet (hs : Serves h w m) :
    h.bFire i = false ∧ h.wFire i = false ∧ h.awFire i = false := by
  simp [Handler.bFire, Handler.bReady, wFire, Handler.wValid, awFire, awValid, hs.isWrite]

theorem Free.next_eq (hf : Free h) (hrel : i.release = none) :
    h.next i = (match i.acquire with | some a => h.takeAcquire a | none => h) := by
  obtain ⟨hb, hr, hw, har, haw⟩ := hf.quiet (i := i)
  have hidle : h.isIdle := hf.rdy
  have hans : h.answered i = h := by simp [answered, hb, hr]
  simp only [Handler.next, taken, hidle, hans, hrel, hr, hw, har, haw]
  cases i.acquire <;> simp [takeAcquire]

/-- An idle handler takes the request on that is routed to it. -/
theorem Free.next_fed (hB : 0 < c.tl.dataBeats) (hf : Free h) (hrel : i.release = none)
    (hacq : i.acquire = some w.acquire) : Serves (h.next i) w 0 ∧ (h.next i).cmdSent = false := by
  have hbuiltin : w.acquire.isBuiltinType := rfl
  have hdata : w.acquire.hasData = false := by
    cases hb : w.block <;> simp [Acquire.hasData, w.isBuiltIn_acquire, hb]
  have hsub : w.acquire.isSubBlockType = !w.block := by
    cases hb : w.block <;> simp [Acquire.isSubBlockType, w.isBuiltIn_acquire, hb]
  have hblock : w.acquire.isBuiltIn .getBlockType = w.block := by
    cases hb : w.block <;> simp [w.isBuiltIn_acquire, hb]
  have hsize : 0 < w.size := by cases hb : w.block <;> simp [Read.size, hb, hB]
  rw [hf.next_eq hrel, hacq]
  refine ⟨⟨?_, ?_, rfl, rfl, ?_, ?_, ?_, hf.nrCnt, hsize⟩, hf.cmdSent⟩
  · simp [takeAcquire, hbuiltin, hdata]
  · simp [takeAcquire, hdata]
  · simp only [Handler.address, takeAcquire, Read.address, hbuiltin, hsub, hdata, Read.size]
    cases w.block <;> simp [Read.tag, Read.acquire]
  · simp [takeAcquire, hbuiltin, hblock]
  · simp [takeAcquire, hbuiltin, w.grantType_acquire]

theorem Free.next_unfed (hf : Free h) (hrel : i.release = none) (hacq : i.acquire = none) :
    h.next i = h := by
  rw [hf.next_eq hrel, hacq]

variable (hs : Serves h w m)

include hs

/-- A handler keeps the read as long as no data comes. -/
theorem Serves.next_of_no_data (hr : h.rFire i = false) :
    Serves (h.next i) w m ∧ (h.next i).cmdSent = (h.arFire i || h.cmdSent) := by
  obtain ⟨hb, hw, haw⟩ := hs.quiet (i := i)
  have hnext := next_of_busy (h := h) (i := i) hs.rdy hb hr
  simp only [hw, haw, Bool.false_and, Bool.or_false, Bool.false_eq_true, if_false] at hnext
  rw [hnext]
  exact ⟨⟨hs.isRead, hs.isWrite, hs.isAcq, hs.isBuiltin, hs.address, hs.multiple, hs.gType,
    hs.nrCnt, hs.lt⟩, rfl⟩

theorem Serves.next_of_data (hr : h.rFire i) :
    h.next i =
      { h.answered i with
        nrCnt := if w.block then (m + 1) % c.tl.dataBeats else m
        cmdSent := if h.arFire i then true else (h.answered i).cmdSent } := by
  obtain ⟨-, hw, haw⟩ := hs.quiet (i := i)
  have hidle : h.isIdle = false := hs.rdy
  have hcnt : (h.answered i).nwCnt = h.nwCnt := by
    simp only [answered]
    split_ifs <;> rfl
  simp only [Handler.next, taken, hidle, hw, haw, hr, hs.multiple, hs.nrCnt,
    Bool.false_and, Bool.false_eq_true, if_false, Bool.true_and, Bool.or_false, ← hcnt]

/-- It counts the beats. -/
theorem Serves.next_of_beat (hr : h.rFire i)
    (hlast : (i.r.any fun r => r.2) = false) (hm : m + 1 < w.size) :
    Serves (h.next i) w (m + 1) ∧ (h.next i).cmdSent = (h.arFire i || h.cmdSent) := by
  have hans : h.answered i = h := by simp [answered, hlast, (hs.quiet (i := i)).1]
  have hblock : w.block := by
    by_contra hb
    simp [Read.size, hb] at hm
  have hcnt : (m + 1) % c.tl.dataBeats = m + 1 :=
    Nat.mod_eq_of_lt (by simpa [Read.size, hblock] using hm)
  rw [hs.next_of_data hr, hans, hblock, if_pos rfl, hcnt]
  refine ⟨⟨hs.isRead, hs.isWrite, hs.isAcq, hs.isBuiltin, hs.address, hs.multiple, hs.gType, rfl,
    hm⟩, ?_⟩
  cases h.arFire i <;> simp

/-- The last beat frees it. -/
theorem Serves.next_of_last (hr : h.rFire i) (hlast : (i.r.any fun r => r.2) = true)
    (hm : m + 1 = w.size) (hsent : h.cmdSent) : Free (h.next i) := by
  have har : h.arFire i = false := by simp [arFire, arValid, hsent]
  have hcnt : (if w.block then (m + 1) % c.tl.dataBeats else m) = 0 := by
    cases hb : w.block with
    | false => simpa [Read.size, hb] using hm
    | true =>
      have : m + 1 = c.tl.dataBeats := by simpa [Read.size, hb] using hm
      simp [this]
  have hans : h.answered i =
      { h with readMultipleData := false, isRead := false, cmdSent := false, isAcq := false } := by
    simp [answered, hlast, hr, (hs.quiet (i := i)).1]
  rw [hs.next_of_data hr, hans, har, hcnt]
  exact ⟨rfl, hs.isWrite, rfl, rfl, rfl⟩

theorem Serves.tag_grant (id : ℕ) :
    (h.grant i id).clientId ++ (h.grant i id).clientXactId = w.tag := by
  have htag : h.tagOut = w.clientId ++ w.clientXactId := hs.tagOut
  simp only [Handler.grant, htag, BitVec.extractLsb'_append_eq_left,
    BitVec.setWidth_append_eq_right, Read.tag]

/-- The grant of a handler has the client, the transaction and the data of its read, and the
number of beats that have come. -/
theorem Serves.forClient_grant {last : Bool}
    (hr : i.r = some (d, last)) (id : ℕ) : forClient (h.grant i id) = w.grant 0 m d := by
  have htag : h.tagOut = w.clientId ++ w.clientXactId := hs.tagOut
  simp [forClient, Handler.grant, Read.grant, hs.isWrite, hs.isBuiltin, hs.gType, hs.nrCnt, hr,
    htag, BitVec.extractLsb'_append_eq_left, BitVec.setWidth_append_eq_right]

end Handlers

/-! ## Requests and handlers -/

/-- `own` says which request a handler has. A request without a handler waits to be taken on;
its address is sent in the cycle in which it is accepted, and its data comes after that. -/
structure Tended (own : Fin n → Option ℕ) (s : Converter c n) (g : ReadLog c) : Prop where
  free : ∀ j, own j = none → Free (s.handler j)
  serves : ∀ j k, own j = some k → Serves (s.handler j) (T k) (g.beats k).length
  outstanding : ∀ j k, own j = some k → k ∈ g.outstanding
  sent : ∀ j k, own j = some k → (s.handler j).cmdSent → g.addrs k = [(T k).address]
  unsent : ∀ j k, own j = some k → (s.handler j).cmdSent = false →
    g.addrs k = [] ∧ g.acqHeld = some k
  single : ∀ j j' k, own j = some k → own j' = some k → j = j'
  waits : ∀ k ∈ g.outstanding, (∀ j, own j ≠ some k) →
    g.acqHeld = some k ∧ g.addrs k = [] ∧ g.beats k = []
  started : ∀ k ∈ g.outstanding, k ∈ g.started
  tags : ∀ k ∈ g.outstanding, ∀ k' ∈ g.outstanding, (T k).tag = (T k').tag → k = k'
  held : ∀ k ∈ g.acqHeld, k ∈ g.outstanding ∧ g.addrs k = []
  fresh : ∀ k, k ∉ g.started → g.addrs k = [] ∧ g.beats k = []
  done : ∀ k ∈ g.started, k ∉ g.outstanding →
    g.addrs k = [(T k).address] ∧ (g.beats k).length = (T k).size
  told : ∀ k, (g.grants k).map forClient = (T k).grants 0 (g.beats k)
  stray : g.strayAddrs = [] ∧ g.strayGrants = []
  arLock : ∀ j ∈ s.arArb.lock, (s.handler j).arValid
  grantLock : ∀ j ∈ s.grantArb.lock, ∃ e ∈ g.rHeld, own j = some e.1

section Cycle

variable {T} {own : Fin n → Option ℕ} {s : Converter c n} {g : ReadLog c} {x : ReadCycle c}
  {j : Fin n} {k : ℕ}

/-- One entry, kept or not by its key. -/
theorem filter_beq_singleton {α β : Type*} [BEq β] [LawfulBEq β] [DecidableEq β] (f : α → β) (a : α)
    (b : β) : [a].filter (fun a' => f a' == b) = if b = f a then [a] else [] := by
  by_cases h : f a = b
  · simp [h]
  · simp [beq_eq_false_iff_ne.2 h, Ne.symm h]

theorem Read.size_pos (hB : 0 < c.tl.dataBeats) (w : Read c) : 0 < w.size := by
  unfold Read.size
  split_ifs <;> omega

variable (T own s g x) in
/-- The requests of the handlers after a cycle. -/
def ownNext (j : Fin n) : Option ℕ :=
  match own j with
  | some k => if k ∈ (g.step T s x).outstanding then some k else none
  | none => if s.tlAcqHandlerId (x.toIn T g) = j then x.acq else none

namespace Tended

variable (ht : Tended T own s g) (hB : 0 < c.tl.dataBeats) (hp : ReadsPresented T g x)

include ht

/-- Nobody writes. -/
theorem isWrite (j : Fin n) : (s.handler j).isWrite = false := by
  cases hown : own j with
  | none => exact (ht.free j hown).isWrite
  | some k => exact (ht.serves j k hown).isWrite

theorem length_grants (k : ℕ) : (g.grants k).length = (g.beats k).length := by
  simpa [Read.grants] using congrArg List.length (ht.told k)

/-- A tag leads to its request. -/
theorem holder_eq (hk : k ∈ g.outstanding) : g.holder T (T k).tag = some k := by
  have hsome : (g.holder T (T k).tag).isSome := by
    rw [holder, List.find?_isSome]
    exact ⟨k, hk, by simp⟩
  obtain ⟨k', hk'⟩ := Option.isSome_iff_exists.1 hsome
  have htag : (T k').tag = (T k).tag := by simpa using List.find?_some hk'
  rw [hk', ht.tags k' (List.mem_of_find?_eq_some hk') k hk htag]

/-- The handlers that a tag belongs to. -/
theorem tag_iff (hk : k ∈ g.outstanding) {j' : Fin n} {k' : ℕ} (hj' : own j' = some k') :
    (T k').tag = (T k).tag ↔ k' = k := by
  constructor
  · exact ht.tags k' (ht.outstanding j' k' hj') k hk
  · rintro rfl
    rfl

/-! ### Data -/

include hB hp in
/-- Data comes only for requests that have a handler and whose address was sent. -/
theorem data_owner (hr : x.r = some (k, d)) :
    (∃ j, own j = some k ∧ (s.handler j).cmdSent) ∧ g.addrs k = [(T k).address] := by
  obtain ⟨a, ha, hlen⟩ := hp.r (k, d) hr
  have hne : g.addrs k ≠ [] := by
    rintro h
    simp [h] at ha
  have hstart : k ∈ g.started := by
    by_contra hk
    exact hne (ht.fresh k hk).1
  have hout : k ∈ g.outstanding := by
    by_contra hk
    obtain ⟨haddr, hall⟩ := ht.done k hstart hk
    obtain rfl : (T k).address = a := by simpa [haddr] using ha
    have := (T k).size_pos hB
    simp only [Read.address] at hlen
    omega
  have hown : ∃ j, own j = some k := by
    by_contra hno
    exact hne (ht.waits k hout fun j hj => hno ⟨j, hj⟩).2.1
  obtain ⟨j, hj⟩ := hown
  have hsent : (s.handler j).cmdSent := by
    by_contra hc
    exact hne (ht.unsent j k hj (by simpa using hc)).1
  exact ⟨⟨j, hj, hsent⟩, ht.sent j k hj hsent⟩

omit ht in
/-- The slave's beat. -/
theorem toIn_r (haddr : g.addrs k = [(T k).address]) (hr : x.r = some (k, d)) :
    (x.toIn T g).r =
      some ((T k).tag, d, decide ((g.beats k).length = (T k).size - 1)) := by
  simp [ReadCycle.toIn, hr, haddr, Read.address]

/-- Data goes to the handler of its request. -/
theorem routed_r (haddr : g.addrs k = [(T k).address]) (hr : x.r = some (k, d))
    (hj : own j = some k) (j' : Fin n) :
    (s.naRMatches (x.toIn T g) j' ↔ j' = j) ∧
    (s.routed (x.toIn T g) j').r =
      if j' = j then some (d, decide ((g.beats k).length = (T k).size - 1)) else none := by
  have hmatch : ∀ j', s.naRMatches (x.toIn T g) j' ↔ j' = j := by
    intro j'
    simp only [naRMatches, toIn_r haddr hr, Option.any_some, rMatch]
    cases hj' : own j' with
    | none =>
      have hne : j' ≠ j := by
        rintro rfl
        simp [hj] at hj'
      simp [(ht.free j' hj').rdy, hne]
    | some k' =>
      have hs' := ht.serves j' k' hj'
      simp only [hs'.rdy, hs'.tagOut, Bool.not_false, Bool.and_true, beq_iff_eq]
      rw [eq_comm, ht.tag_iff (ht.outstanding j k hj) hj']
      constructor
      · rintro rfl
        exact ht.single j' j k' hj' hj
      · rintro rfl
        simpa [hj'] using hj
  refine ⟨hmatch j', ?_⟩
  have hid : s.naRHandlerId (x.toIn T g) = j := priorityEncoder_eq_of_unique hmatch
  simp [routed, hid, toIn_r haddr hr, Fin.val_inj, eq_comm]

theorem grantValid_eq (j' : Fin n) :
    (s.handler j').grantValid (s.routed (x.toIn T g) j') =
      (s.routed (x.toIn T g) j').r.isSome := by
  simp [grantValid, ht.isWrite j']

/-- Nothing is granted without data. -/
theorem grantServed_of_none (hr : x.r = none) : s.grantServed (x.toIn T g) = none := by
  have hin : (x.toIn T g).r = none := by simp [ReadCycle.toIn, hr]
  have hnone : ∀ j', (s.handler j').grantValid (s.routed (x.toIn T g) j') = false := by
    intro j'
    rw [ht.grantValid_eq]
    simp [routed, hin]
  simp [grantServed, LockArb.served, s.grantArb.chosen_eq_none hnone]

include hp in
/-- Data leaves as a grant as soon as the client is ready: the arbiter is locked to nobody
else, because the slave holds what was not taken. -/
theorem grantChosen (haddr : g.addrs k = [(T k).address]) (hr : x.r = some (k, d))
    (hj : own j = some k) :
    s.grantArb.chosen (fun j' => (s.handler j').grantValid (s.routed (x.toIn T g) j')) =
      some j := by
  have hvalid : ∀ j', (s.handler j').grantValid (s.routed (x.toIn T g) j') ↔ j' = j := by
    intro j'
    rw [ht.grantValid_eq, (ht.routed_r haddr hr hj j').2]
    split_ifs with h <;> simp [h]
  refine s.grantArb.chosen_eq_of_unique ((hvalid j).2 rfl) (fun j' => (hvalid j').1) ?_
  cases hl : s.grantArb.lock with
  | none => exact .inl rfl
  | some j' =>
    obtain ⟨e, he, hj'⟩ := ht.grantLock j' hl
    obtain rfl : (k, d) = e := Option.some.inj (hr.symm.trans (hp.rHeld e he))
    exact .inr (congrArg some (ht.single j' j k hj' hj))

include hp in
theorem grantServed_of_some (haddr : g.addrs k = [(T k).address]) (hr : x.r = some (k, d))
    (hj : own j = some k) : s.grantServed (x.toIn T g) = if x.grantReady then some j else none := by
  rw [grantServed, LockArb.served, ht.grantChosen hp haddr hr hj]
  rfl

include hB hp in
/-- A grant that leaves takes data from the slave, for the request of its handler. -/
theorem served_data (hserved : s.grantServed (x.toIn T g) = some j) :
    ∃ k d, x.r = some (k, d) ∧ own j = some k ∧ (s.handler j).cmdSent ∧
      g.addrs k = [(T k).address] := by
  cases hr : x.r with
  | none => simp [ht.grantServed_of_none hr] at hserved
  | some e =>
    obtain ⟨⟨j', hj', hsent⟩, haddr⟩ := ht.data_owner hB hp hr
    rw [ht.grantServed_of_some hp haddr hr hj'] at hserved
    split_ifs at hserved
    obtain rfl := Option.some.inj hserved
    exact ⟨e.1, e.2, rfl, hj', hsent, haddr⟩

include hB hp in
/-- The handler that the arbiter serves takes data, and no other one does. -/
theorem handler_rFire (j' : Fin n) :
    (s.handler j').rFire (s.handlerIn (x.toIn T g) j') =
      decide (s.grantServed (x.toIn T g) = some j') := by
  by_cases hserved : s.grantServed (x.toIn T g) = some j'
  · obtain ⟨k, d, hr, hj, -, haddr⟩ := ht.served_data hB hp hserved
    have hrouted := (ht.routed_r haddr hr hj j').2
    simp [Handler.rFire, Handler.rReady, grantFire, grantValid,
      handlerIn, hserved, hrouted, (ht.serves j' k hj).isRead, ht.isWrite j']
  · simp [Handler.rFire, Handler.rReady, grantFire, handlerIn, hserved]

include hB hp in
theorem rFire_eq : s.rFire (x.toIn T g) = (s.grantServed (x.toIn T g)).isSome := by
  cases hr : x.r with
  | none =>
    rw [ht.grantServed_of_none hr]
    simp [Converter.rFire, ReadCycle.toIn, hr]
  | some e =>
    obtain ⟨⟨j, hj, -⟩, haddr⟩ := ht.data_owner hB hp hr
    have hmatch := fun j' => (ht.routed_r haddr hr hj j').1
    have hid : s.naRHandlerId (x.toIn T g) = j := priorityEncoder_eq_of_unique hmatch
    have hor : Converter.orR (s.naRMatches (x.toIn T g)) := orR_eq_true ((hmatch j).2 rfl)
    have hfire := ht.handler_rFire hB hp j
    have hrouted := (ht.routed_r haddr hr hj j).2
    simp only [Handler.rFire, handlerIn, hrouted, if_true, Option.isSome_some,
      Bool.true_and] at hfire
    simp only [Converter.rFire, Converter.rReady, hid, hor, orR_select j, toIn_r haddr hr,
      Option.isSome_some, Bool.true_and, handlerIn, hrouted, if_true, hfire]
    rw [ht.grantServed_of_some hp haddr hr hj]
    split_ifs <;> simp

/-! ### Addresses -/

/-- The request that is presented goes to its handler. -/
theorem acqId_of_owner (hk : x.acq = some k) (hj : own j = some k) :
    (∀ j', s.tlAcqMatches (x.toIn T g) j' ↔ j' = j) ∧
      s.tlAcqHandlerId (x.toIn T g) = j := by
  have hmatch : ∀ j', s.tlAcqMatches (x.toIn T g) j' ↔ j' = j := by
    intro j'
    simp only [tlAcqMatches, ReadCycle.toIn, hk, Option.map_some, Option.any_some]
    cases hj' : own j' with
    | none =>
      have hne : j' ≠ j := by
        rintro rfl
        simp [hj] at hj'
      simp [(ht.free j' hj').acqMatch, hne]
    | some k' =>
      rw [(ht.serves j' k' hj').acqMatch, decide_eq_true_eq, ht.tag_iff (ht.outstanding j k hj) hj']
      constructor
      · rintro rfl
        exact ht.single j' j k' hj' hj
      · rintro rfl
        simpa [hj'] using hj
  refine ⟨hmatch, ?_⟩
  rw [tlAcqHandlerId, if_pos (orR_eq_true ((hmatch j).2 rfl)), priorityEncoder_eq_of_unique hmatch]

include hp in
/-- A request without a handler goes to the lowest idle one. -/
theorem acqId_of_no_owner (hk : x.acq = some k) (hno : ∀ j, own j ≠ some k) :
    Converter.orR (s.tlAcqMatches (x.toIn T g)) = false ∧
      s.tlAcqHandlerId (x.toIn T g) = priorityEncoder s.tlReady := by
  have hnone : ∀ j', s.tlAcqMatches (x.toIn T g) j' = false := by
    intro j'
    simp only [tlAcqMatches, ReadCycle.toIn, hk, Option.map_some, Option.any_some]
    cases hj' : own j' with
    | none => exact (ht.free j' hj').acqMatch _
    | some k' =>
      rw [(ht.serves j' k' hj').acqMatch, decide_eq_false_iff_not]
      intro htag
      exact hno j' (hj'.trans (congrArg some (hp.tags k hk k' (ht.outstanding j' k' hj') htag)))
  have hor : Converter.orR (s.tlAcqMatches (x.toIn T g)) = false := by
    simpa [Converter.orR] using hnone
  refine ⟨hor, ?_⟩
  simp [tlAcqHandlerId, hor]

include hp in
/-- An address on offer is that of the request that is presented. -/
theorem arValid_request (hv : (s.handler j).arValid) :
    ∃ k, own j = some k ∧ x.acq = some k ∧ (s.handler j).cmdSent = false := by
  simp only [arValid, Bool.and_eq_true, Bool.not_eq_true'] at hv
  cases hj : own j with
  | none => simp [(ht.free j hj).isRead] at hv
  | some k => exact ⟨k, rfl, hp.held k (ht.unsent j k hj hv.2).2, hv.2⟩

include hp in
/-- A request is accepted when its address is sent. -/
theorem acquireFire_eq : s.acquireFire (x.toIn T g) = (s.arServed (x.toIn T g)).isSome := by
  have hready : ∀ j', (s.handler j').acquireReady (s.handlerIn (x.toIn T g) j') =
      ((s.handler j').isAcq && (s.handler j').arValid &&
        decide (s.arServed (x.toIn T g) = some j')) := by
    intro j'
    simp [Handler.acquireReady, wFire, Handler.wValid, ht.isWrite j', arFire,
      handlerIn, Bool.and_assoc]
  cases hserved : s.arServed (x.toIn T g) with
  | none => simp [acquireFire, Converter.acquireReady, hready, hserved, Converter.orR]
  | some j =>
    have hv : (s.handler j).arValid := s.arArb.valid_of_served hserved
    obtain ⟨k, hj, hk, -⟩ := ht.arValid_request hp hv
    obtain ⟨hmatch, hid⟩ := ht.acqId_of_owner hk hj
    have hor : Converter.orR (s.tlAcqMatches (x.toIn T g)) := orR_eq_true ((hmatch j).2 rfl)
    have hin : (x.toIn T g).acquire = some (T k).acquire := by simp [ReadCycle.toIn, hk]
    simp only [acquireFire, Converter.acquireReady, hid, hor, hin, orR_select j, hready,
      (ht.serves j k hj).isAcq, hv, hserved]
    simp

/-! ### The log -/

omit ht in
theorem addrsFor_of_none (h : s.arServed (x.toIn T g) = none) (o : Option ℕ) :
    g.addrsFor T s (x.toIn T g) o = [] := by
  simp [addrsFor, arSent, h]

/-- An address that is sent is the one of the request of its handler. -/
theorem addrsFor_of_some (h : s.arServed (x.toIn T g) = some j) (hj : own j = some k)
    (o : Option ℕ) :
    g.addrsFor T s (x.toIn T g) o = if o = some k then [(T k).address] else [] := by
  have hid : (T k).address.id = (T k).tag := rfl
  have hholder := ht.holder_eq (ht.outstanding j k hj)
  simp only [addrsFor, arSent, h, Option.map_some, Option.toList_some,
    (ht.serves j k hj).address]
  rw [filter_beq_singleton fun a : AddressChannel c => g.holder T a.id, hid, hholder]

omit ht in
theorem grantsFor_of_none (h : s.grantServed (x.toIn T g) = none) (o : Option ℕ) :
    g.grantsFor T s (x.toIn T g) o = [] := by
  simp [grantsFor, grantSent, h]

/-- A grant that is sent is for the request of its handler. -/
theorem grantsFor_of_some (h : s.grantServed (x.toIn T g) = some j)
    (haddr : g.addrs k = [(T k).address]) (hr : x.r = some (k, d)) (hj : own j = some k) :
    ∃ a, forClient a = (T k).grant 0 (g.beats k).length d ∧
      ∀ o, g.grantsFor T s (x.toIn T g) o = if o = some k then [a] else [] := by
  have hs := ht.serves j k hj
  have hrouted := (ht.routed_r haddr hr hj j).2
  have hin : (s.handlerIn (x.toIn T g) j).r =
      some (d, decide ((g.beats k).length = (T k).size - 1)) := by
    simpa [handlerIn] using hrouted
  have hholder := ht.holder_eq (ht.outstanding j k hj)
  refine ⟨(s.handler j).grant (s.handlerIn (x.toIn T g) j) j, hs.forClient_grant hin j, fun o => ?_⟩
  simp only [grantsFor, grantSent, h, Option.map_some, Option.toList_some]
  rw [filter_beq_singleton fun a : GrantToDst c.tl => g.holder T (a.clientId ++ a.clientXactId),
    hs.tag_grant, hholder]

include hB hp in
theorem beatsFor_of_none (h : s.grantServed (x.toIn T g) = none) (k : ℕ) :
    g.beatsFor T s x k = [] := by
  simp [beatsFor, ht.rFire_eq hB hp, h]

include hB hp in
theorem beatsFor_of_some (h : s.grantServed (x.toIn T g) = some j)
    (hr : x.r = some (k, d)) (k' : ℕ) : g.beatsFor T s x k' = if k' = k then [d] else [] := by
  simp only [beatsFor, ht.rFire_eq hB hp, h, hr, Option.isSome_some, if_true,
    Option.toList_some, filter_beq_singleton]
  split_ifs <;> rfl

include hB hp in
/-- Nothing happens for a request without a handler. -/
theorem unowned (hno : ∀ j, own j ≠ some k) :
    (g.step T s x).addrs k = g.addrs k ∧ (g.step T s x).beats k = g.beats k ∧
      (x.acq = some k → (g.step T s x).acqHeld = some k) := by
  refine ⟨?_, ?_, ?_⟩
  · cases hserved : s.arServed (x.toIn T g) with
    | none => simp [step, addrsFor_of_none hserved]
    | some j =>
      obtain ⟨k', hj, -⟩ := ht.arValid_request hp (s.arArb.valid_of_served hserved)
      have hne : k ≠ k' := by
        rintro rfl
        exact hno j hj
      simp [step, ht.addrsFor_of_some hserved hj, hne]
  · cases hserved : s.grantServed (x.toIn T g) with
    | none => simp [step, ht.beatsFor_of_none hB hp hserved]
    | some j =>
      obtain ⟨k', d, hr, hj, -⟩ := ht.served_data hB hp hserved
      have hne : k ≠ k' := by
        rintro rfl
        exact hno j hj
      simp [step, ht.beatsFor_of_some hB hp hserved hr, hne]
  · intro hk
    cases hserved : s.arServed (x.toIn T g) with
    | none => simp [step, ht.acquireFire_eq hp, hserved, hk]
    | some j =>
      obtain ⟨k', hj, hk', -⟩ := ht.arValid_request hp (s.arArb.valid_of_served hserved)
      obtain rfl : k = k' := Option.some.inj (hk.symm.trans hk')
      exact absurd hj (hno j)

/-! ### One cycle -/

include hB hp

theorem told_step (k : ℕ) :
    ((g.step T s x).grants k).map forClient = (T k).grants 0 ((g.step T s x).beats k) := by
  cases hserved : s.grantServed (x.toIn T g) with
  | none =>
    simp only [step, grantsFor_of_none hserved, ht.beatsFor_of_none hB hp hserved,
      List.append_nil]
    exact ht.told k
  | some j =>
    obtain ⟨k', d, hr, hj, -, haddr⟩ := ht.served_data hB hp hserved
    obtain ⟨a, ha, hgrants⟩ := ht.grantsFor_of_some hserved haddr hr hj
    simp only [step, hgrants, ht.beatsFor_of_some hB hp hserved hr, Option.some.injEq]
    split_ifs with hk
    · subst hk
      rw [List.map_append, ht.told k, Read.grants_append, List.map_singleton, ha]
    · simpa using ht.told k

theorem mem_outstanding_step :
    k ∈ (g.step T s x).outstanding ↔
      (k ∈ g.outstanding ∨ x.acq = some k ∧ k ∉ g.started) ∧
        ((g.step T s x).beats k).length < (T k).size := by
  have hlen : ((g.step T s x).grants k).length = ((g.step T s x).beats k).length := by
    simpa [Read.grants] using congrArg List.length (ht.told_step hB hp k)
  rw [← hlen]
  simp only [ReadLog.step, ReadLog.fresh, List.mem_filter, List.mem_append, Option.mem_toList,
    Bool.not_eq_true', List.contains_eq_mem, decide_eq_false_iff_not, decide_eq_true_eq]

omit ht hB hp in
theorem mem_started_step :
    k ∈ (g.step T s x).started ↔ k ∈ g.started ∨ x.acq = some k := by
  simp only [ReadLog.step, ReadLog.fresh, List.mem_append, List.mem_filter, Option.mem_toList]
  by_cases hk : k ∈ g.started <;> simp [hk]

theorem handler_next (hj : own j = some k) :
    if k ∈ (g.step T s x).outstanding then
      Serves ((s.next (x.toIn T g)).handler j) (T k) ((g.step T s x).beats k).length ∧
        ((s.next (x.toIn T g)).handler j).cmdSent =
          (decide (s.arServed (x.toIn T g) = some j) || (s.handler j).cmdSent)
    else Free ((s.next (x.toIn T g)).handler j) ∧ g.addrs k = [(T k).address] ∧
      ((g.step T s x).beats k).length = (T k).size := by
  have hs := ht.serves j k hj
  have hrf := ht.handler_rFire hB hp j
  have har : (s.handler j).arFire (s.handlerIn (x.toIn T g) j) =
      decide (s.arServed (x.toIn T g) = some j) := by
    by_cases hserved : s.arServed (x.toIn T g) = some j
    · simp [arFire, handlerIn, hserved, s.arArb.valid_of_served hserved]
    · simp [arFire, handlerIn, hserved]
  have hmem := ht.mem_outstanding_step hB hp (k := k)
  have hout : k ∈ g.outstanding := ht.outstanding j k hj
  by_cases hserved : s.grantServed (x.toIn T g) = some j
  · -- a beat comes, which may be the last one
    rw [hserved, decide_eq_true rfl] at hrf
    obtain ⟨k', d, hr, hj', hsent, haddr⟩ := ht.served_data hB hp hserved
    obtain rfl : k = k' := Option.some.inj (hj.symm.trans hj')
    have hbeats : ((g.step T s x).beats k).length = (g.beats k).length + 1 := by
      simp [step, ht.beatsFor_of_some hB hp hserved hr]
    have hin : (s.handlerIn (x.toIn T g) j).r =
        some (d, decide ((g.beats k).length = (T k).size - 1)) := by
      simpa [handlerIn] using (ht.routed_r haddr hr hj j).2
    have hlt := hs.lt
    split_ifs with hk
    · have hlt' := (hmem.1 hk).2
      rw [hbeats] at hlt' ⊢
      have hlast : ((s.handlerIn (x.toIn T g) j).r.any fun r => r.2) = false := by
        simp only [hin, Option.any_some, decide_eq_false_iff_not]
        omega
      rw [← har]
      exact hs.next_of_beat hrf hlast hlt'
    · have hfull : (g.beats k).length + 1 = (T k).size := by
        by_contra hne
        exact hk (hmem.2 ⟨.inl hout, by omega⟩)
      have hlast : ((s.handlerIn (x.toIn T g) j).r.any fun r => r.2) = true := by
        simp only [hin, Option.any_some, decide_eq_true_eq]
        omega
      exact ⟨hs.next_of_last hrf hlast hfull hsent, haddr, hbeats.trans hfull⟩
  · rw [decide_eq_false hserved] at hrf
    have hbeats : (g.step T s x).beats k = g.beats k := by
      cases hany : s.grantServed (x.toIn T g) with
      | none => simp [step, ht.beatsFor_of_none hB hp hany]
      | some j' =>
        obtain ⟨k', d, hr, hj', -⟩ := ht.served_data hB hp hany
        have hne : k ≠ k' := by
          rintro rfl
          exact hserved (hany.trans (congrArg some (ht.single j' j k hj' hj)))
        simp [step, ht.beatsFor_of_some hB hp hany hr, hne]
    rw [if_pos (hmem.2 ⟨.inl hout, by rw [hbeats]; exact hs.lt⟩), hbeats, ← har]
    exact hs.next_of_no_data hrf

omit hB in
/-- A request without a handler has nothing yet, and is still presented. -/
theorem unowned_request (hk : x.acq = some k) (hno : ∀ j, own j ≠ some k) :
    g.addrs k = [] ∧ g.beats k = [] := by
  rcases hp.once k hk with hheld | hfresh
  · exact (ht.waits k (ht.held k hheld).1 hno).2
  · exact ht.fresh k hfresh

omit hB hp in
/-- A request that an idle handler gets has no other one. -/
theorem unowned_of_taken (hj : own j = none) (hid : s.tlAcqHandlerId (x.toIn T g) = j)
    (hk : x.acq = some k) : ∀ j', own j' ≠ some k := by
  intro j' hj'
  have hid' := (ht.acqId_of_owner hk hj').2
  obtain rfl : j = j' := Fin.ext (hid.symm.trans hid')
  simp [hj] at hj'

omit hp in
theorem handler_next_of_free (hj : own j = none) :
    (∀ k, s.tlAcqHandlerId (x.toIn T g) = j → x.acq = some k →
      Serves ((s.next (x.toIn T g)).handler j) (T k) 0 ∧
        ((s.next (x.toIn T g)).handler j).cmdSent = false) ∧
    ((s.tlAcqHandlerId (x.toIn T g) = j → x.acq = none) →
      (s.next (x.toIn T g)).handler j = s.handler j) := by
  have hf := ht.free j hj
  have hrel : (s.handlerIn (x.toIn T g) j).release = none := by simp [handlerIn, routed]
  constructor
  · intro k hid hk
    refine hf.next_fed hB hrel ?_
    simp [handlerIn, routed, hid, hk]
  · intro hnone
    refine hf.next_unfed hrel ?_
    by_cases hid : s.tlAcqHandlerId (x.toIn T g) = j
    · simp [handlerIn, routed, hnone hid]
    · simp [handlerIn, routed, hid]

omit ht hB hp in
theorem ownNext_cases {j : Fin n} {k : ℕ} (h : ownNext T own s g x j = some k) :
    own j = some k ∧ k ∈ (g.step T s x).outstanding ∨
      own j = none ∧ s.tlAcqHandlerId (x.toIn T g) = j ∧ x.acq = some k := by
  unfold ownNext at h
  cases hj : own j with
  | none =>
    simp only [hj] at h
    split_ifs at h with hid
    exact .inr ⟨rfl, hid, h⟩
  | some k' =>
    simp only [hj] at h
    split_ifs at h with hk'
    obtain rfl := Option.some.inj h
    exact .inl ⟨rfl, hk'⟩

omit ht hB hp in
theorem ownNext_of_owner (hj : own j = some k) (hk : k ∈ (g.step T s x).outstanding) :
    ownNext T own s g x j = some k := by
  simp [ownNext, hj, hk]

/-- The request that is presented is outstanding afterwards, until its data has come. -/
theorem presented_outstanding (hk : x.acq = some k) (hbeats : (g.step T s x).beats k = []) :
    k ∈ (g.step T s x).outstanding := by
  refine (ht.mem_outstanding_step hB hp).2 ⟨?_, ?_⟩
  · rcases hp.once k hk with hheld | hfresh
    · exact .inl (ht.held k hheld).1
    · exact .inr ⟨hk, hfresh⟩
  · simpa [hbeats] using (T k).size_pos hB

omit hp in
theorem beats_lt (hk : k ∈ g.outstanding) : (g.beats k).length < (T k).size := by
  by_cases hown : ∃ j, own j = some k
  · obtain ⟨j, hj⟩ := hown
    exact (ht.serves j k hj).lt
  · rw [(ht.waits k hk fun j hj => hown ⟨j, hj⟩).2.2]
    exact (T k).size_pos hB

omit hB in
/-- Of a request with a handler the address is sent in this cycle if the arbiter serves it. -/
theorem addrs_step (hj : own j = some k) :
    (g.step T s x).addrs k =
      g.addrs k ++ if s.arServed (x.toIn T g) = some j then [(T k).address] else [] := by
  cases hserved : s.arServed (x.toIn T g) with
  | none => simp [step, addrsFor_of_none hserved]
  | some j' =>
    obtain ⟨k', hj', -⟩ := ht.arValid_request hp (s.arArb.valid_of_served hserved)
    have hiff : some k = some k' ↔ some j' = some j := by
      constructor
      · intro he
        rw [ht.single j' j k (hj'.trans he.symm) hj]
      · intro he
        rw [← hj', Option.some.inj he, hj]
    simp only [step, ht.addrsFor_of_some hserved hj', hiff]
    split_ifs with he
    · rw [Option.some.inj (hiff.2 he)]
    · rfl

omit hB in
/-- A request whose handler has not sent the address is presented; it stays so until then. -/
theorem acqHeld_step (hj : own j = some k) (hk : x.acq = some k)
    (hserved : s.arServed (x.toIn T g) ≠ some j) : (g.step T s x).acqHeld = some k := by
  cases hany : s.arServed (x.toIn T g) with
  | none => simp [step, ht.acquireFire_eq hp, hany, hk]
  | some j' =>
    obtain ⟨k', hj', hk', -⟩ := ht.arValid_request hp (s.arArb.valid_of_served hany)
    obtain rfl : k = k' := Option.some.inj (hk.symm.trans hk')
    exact absurd (hany.trans (congrArg some (ht.single j' j k hj' hj))) hserved

theorem own_next {j : Fin n} {k : ℕ} (h : ownNext T own s g x j = some k) :
    Serves ((s.next (x.toIn T g)).handler j) (T k) ((g.step T s x).beats k).length ∧
      k ∈ (g.step T s x).outstanding ∧
      (((s.next (x.toIn T g)).handler j).cmdSent →
        (g.step T s x).addrs k = [(T k).address]) ∧
      (((s.next (x.toIn T g)).handler j).cmdSent = false →
        (g.step T s x).addrs k = [] ∧ (g.step T s x).acqHeld = some k) := by
  rcases ownNext_cases h with ⟨hj, hout⟩ | ⟨hj, hid, hk⟩
  · have hnext := ht.handler_next hB hp hj
    rw [if_pos hout] at hnext
    refine ⟨hnext.1, hout, ?_, ?_⟩
    · intro hsent
      rw [hnext.2] at hsent
      rw [ht.addrs_step hp hj]
      by_cases hserved : s.arServed (x.toIn T g) = some j
      · obtain ⟨k', -, -, hc⟩ := ht.arValid_request hp (s.arArb.valid_of_served hserved)
        simp [hserved, (ht.unsent j k hj hc).1]
      · have hc : (s.handler j).cmdSent := by simpa [hserved] using hsent
        simp [hserved, ht.sent j k hj hc]
    · intro hunsent
      rw [hnext.2, Bool.or_eq_false_iff, decide_eq_false_iff_not] at hunsent
      obtain ⟨haddr, hheld⟩ := ht.unsent j k hj hunsent.2
      refine ⟨?_, ht.acqHeld_step hp hj (hp.held k hheld) hunsent.1⟩
      rw [ht.addrs_step hp hj, haddr, if_neg hunsent.1, List.append_nil]
  · have hno := ht.unowned_of_taken hj hid hk
    obtain ⟨haddr, hbeats⟩ := ht.unowned_request hp hk hno
    obtain ⟨haddr', hbeats', hheld'⟩ := ht.unowned hB hp hno
    rw [haddr] at haddr'
    rw [hbeats] at hbeats'
    have hnext := (ht.handler_next_of_free (x := x) hB hj).1 k hid hk
    refine ⟨by rw [hbeats']; exact hnext.1, ht.presented_outstanding hB hp hk hbeats', ?_, ?_⟩
    · intro hsent
      simp [hnext.2] at hsent
    · exact fun _ => ⟨haddr', hheld' hk⟩

theorem free_next {j : Fin n} (h : ownNext T own s g x j = none) :
    Free ((s.next (x.toIn T g)).handler j) := by
  cases hj : own j with
  | none =>
    rw [(ht.handler_next_of_free hB hj).2]
    · exact ht.free j hj
    · intro hid
      simpa [ownNext, hj, hid] using h
  | some k =>
    have hout : k ∉ (g.step T s x).outstanding := by
      intro hout
      simp [ownNext_of_owner hj hout] at h
    have hnext := ht.handler_next hB hp hj
    rw [if_neg hout] at hnext
    exact hnext.1

omit hB hp in
theorem single_next {j j' : Fin n} {k : ℕ} (h : ownNext T own s g x j = some k)
    (h' : ownNext T own s g x j' = some k) : j = j' := by
  rcases ownNext_cases h with ⟨hj, -⟩ | ⟨hj, hid, hk⟩ <;>
    rcases ownNext_cases h' with ⟨hj', -⟩ | ⟨hj', hid', hk'⟩
  · exact ht.single j j' k hj hj'
  · exact absurd hj (ht.unowned_of_taken hj' hid' hk' j)
  · exact absurd hj' (ht.unowned_of_taken hj hid hk j')
  · exact Fin.ext (hid.symm.trans hid')

/-- A request that no handler has after a cycle, and that is outstanding, was not taken on. -/
theorem waits_next (hout : k ∈ (g.step T s x).outstanding)
    (hno : ∀ j, ownNext T own s g x j ≠ some k) :
    (g.step T s x).acqHeld = some k ∧ (g.step T s x).addrs k = [] ∧
      (g.step T s x).beats k = [] := by
  have hno' : ∀ j, own j ≠ some k := fun j hj => hno j (ownNext_of_owner hj hout)
  have hk : x.acq = some k := by
    rcases ((ht.mem_outstanding_step hB hp).1 hout).1 with hold | ⟨hk, -⟩
    · exact hp.held k (ht.waits k hold hno').1
    · exact hk
  obtain ⟨haddr, hbeats⟩ := ht.unowned_request hp hk hno'
  obtain ⟨haddr', hbeats', hheld'⟩ := ht.unowned hB hp hno'
  exact ⟨hheld' hk, haddr'.trans haddr, hbeats'.trans hbeats⟩

theorem tags_next :
    ∀ k ∈ (g.step T s x).outstanding, ∀ k' ∈ (g.step T s x).outstanding,
      (T k).tag = (T k').tag → k = k' := by
  intro k hk k' hk' htag
  rcases ((ht.mem_outstanding_step hB hp).1 hk).1 with hold | ⟨hacq, -⟩ <;>
    rcases ((ht.mem_outstanding_step hB hp).1 hk').1 with hold' | ⟨hacq', -⟩
  · exact ht.tags k hold k' hold' htag
  · exact hp.tags k' hacq' k hold htag
  · exact (hp.tags k hacq k' hold' htag.symm).symm
  · exact Option.some.inj (hacq.symm.trans hacq')

/-- What is held back was presented, and its address is not sent. -/
theorem held_next (h : (g.step T s x).acqHeld = some k) :
    k ∈ (g.step T s x).outstanding ∧ (g.step T s x).addrs k = [] := by
  have hfire : s.arServed (x.toIn T g) = none := by
    by_contra hne
    obtain ⟨j, hj⟩ := Option.ne_none_iff_exists'.1 hne
    simp [step, ht.acquireFire_eq hp, hj] at h
  have hk : x.acq = some k := by simpa [step, ht.acquireFire_eq hp, hfire] using h
  have haddr : g.addrs k = [] := by
    rcases hp.once k hk with hheld | hfresh
    · exact (ht.held k hheld).2
    · exact (ht.fresh k hfresh).1
  refine ⟨?_, by simp [step, addrsFor_of_none hfire, haddr]⟩
  by_cases hown : ∃ j, own j = some k
  · obtain ⟨j, hj⟩ := hown
    by_contra hout
    have hnext := ht.handler_next hB hp hj
    rw [if_neg hout, haddr] at hnext
    exact absurd hnext.2.1 (by simp)
  · have hno : ∀ j, own j ≠ some k := fun j hj => hown ⟨j, hj⟩
    refine ht.presented_outstanding hB hp hk ?_
    rw [(ht.unowned hB hp hno).2.1, (ht.unowned_request hp hk hno).2]

theorem fresh_next (h : k ∉ (g.step T s x).started) :
    (g.step T s x).addrs k = [] ∧ (g.step T s x).beats k = [] := by
  rw [mem_started_step, not_or] at h
  have hno : ∀ j, own j ≠ some k := fun j hj => h.1 (ht.started k (ht.outstanding j k hj))
  obtain ⟨haddr, hbeats, -⟩ := ht.unowned hB hp hno
  rw [haddr, hbeats]
  exact ht.fresh k h.1

/-- A request is over when its data has come. -/
theorem done_next (h : k ∈ (g.step T s x).started) (hover : k ∉ (g.step T s x).outstanding) :
    (g.step T s x).addrs k = [(T k).address] ∧
      ((g.step T s x).beats k).length = (T k).size := by
  by_cases hown : ∃ j, own j = some k
  · obtain ⟨j, hj⟩ := hown
    have hnext := ht.handler_next hB hp hj
    rw [if_neg hover] at hnext
    refine ⟨?_, hnext.2.2⟩
    have hserved : s.arServed (x.toIn T g) ≠ some j := by
      intro hserved
      obtain ⟨-, -, -, hc⟩ := ht.arValid_request hp (s.arArb.valid_of_served hserved)
      rw [(ht.unsent j k hj hc).1] at hnext
      exact absurd hnext.2.1 (by simp)
    rw [ht.addrs_step hp hj, if_neg hserved, List.append_nil, hnext.2.1]
  · have hno : ∀ j, own j ≠ some k := fun j hj => hown ⟨j, hj⟩
    obtain ⟨haddr, hbeats, -⟩ := ht.unowned hB hp hno
    have hpresented : x.acq ≠ some k := fun hk => hover
      (ht.presented_outstanding hB hp hk (hbeats.trans (ht.unowned_request hp hk hno).2))
    have hstarted : k ∈ g.started := (mem_started_step.1 h).resolve_right hpresented
    have hout : k ∉ g.outstanding := fun hout => hpresented
      (hp.held k (ht.waits k hout hno).1)
    rw [haddr, hbeats]
    exact ht.done k hstarted hout

theorem stray_next : (g.step T s x).strayAddrs = [] ∧ (g.step T s x).strayGrants = [] := by
  constructor
  · cases hserved : s.arServed (x.toIn T g) with
    | none => simp [step, addrsFor_of_none hserved, ht.stray.1]
    | some j =>
      obtain ⟨k, hj, -⟩ := ht.arValid_request hp (s.arArb.valid_of_served hserved)
      simp [step, ht.addrsFor_of_some hserved hj, ht.stray.1]
  · cases hserved : s.grantServed (x.toIn T g) with
    | none => simp [step, grantsFor_of_none hserved, ht.stray.2]
    | some j =>
      obtain ⟨k, d, hr, hj, -, haddr⟩ := ht.served_data hB hp hserved
      obtain ⟨a, -, hgrants⟩ := ht.grantsFor_of_some hserved haddr hr hj
      simp [step, hgrants, ht.stray.2]

theorem arLock_next (h : (s.next (x.toIn T g)).arArb.lock = some j) :
    ((s.next (x.toIn T g)).handler j).arValid := by
  obtain ⟨hc, hready⟩ := s.arArb.held_of_lock_next ht.arLock h
  obtain ⟨k, hj, -, hsent⟩ := ht.arValid_request hp (s.arArb.valid_of_chosen hc)
  have hserved : s.arServed (x.toIn T g) ≠ some j := by simp [arServed, LockArb.served, hready]
  have hnext := ht.handler_next hB hp hj
  have hout : k ∈ (g.step T s x).outstanding := by
    by_contra hout
    rw [if_neg hout, (ht.unsent j k hj hsent).1] at hnext
    exact absurd hnext.2.1 (by simp)
  rw [if_pos hout] at hnext
  simp [arValid, hnext.1.isRead, hnext.2, hserved, hsent]

theorem grantLock_next (h : (s.next (x.toIn T g)).grantArb.lock = some j) :
    ∃ e ∈ (g.step T s x).rHeld, ownNext T own s g x j = some e.1 := by
  have hold : ∀ j' ∈ s.grantArb.lock,
      (s.handler j').grantValid (s.routed (x.toIn T g) j') := by
    intro j' hj'
    obtain ⟨e, he, hown⟩ := ht.grantLock j' hj'
    have hr : x.r = some (e.1, e.2) := hp.rHeld e he
    have haddr := (ht.data_owner hB hp hr).2
    exact s.grantArb.valid_of_chosen (ht.grantChosen hp haddr hr hown)
  obtain ⟨hc, hready⟩ := s.grantArb.held_of_lock_next hold h
  have hserved : s.grantServed (x.toIn T g) = none := by simp [grantServed, LockArb.served, hready]
  cases hr : x.r with
  | none =>
    have hv := s.grantArb.valid_of_chosen hc
    rw [ht.grantValid_eq] at hv
    simp [routed, ReadCycle.toIn, hr] at hv
  | some e =>
    obtain ⟨⟨j', hj', -⟩, haddr⟩ := ht.data_owner hB hp hr
    obtain rfl : j = j' := Option.some.inj (hc.symm.trans (ht.grantChosen hp haddr hr hj'))
    refine ⟨e, by simp [step, ht.rFire_eq hB hp, hserved, hr], ?_⟩
    have hbeats : (g.step T s x).beats e.1 = g.beats e.1 := by
      simp [step, ht.beatsFor_of_none hB hp hserved]
    refine ownNext_of_owner hj' ((ht.mem_outstanding_step hB hp).2 ⟨?_, ?_⟩)
    · exact .inl (ht.outstanding j e.1 hj')
    · rw [hbeats]
      exact (ht.serves j e.1 hj').lt

theorem next : Tended T (ownNext T own s g x) (s.next (x.toIn T g)) (g.step T s x) where
  free _ := ht.free_next hB hp
  serves _ _ h := (ht.own_next hB hp h).1
  outstanding _ _ h := (ht.own_next hB hp h).2.1
  sent _ _ h := (ht.own_next hB hp h).2.2.1
  unsent _ _ h := (ht.own_next hB hp h).2.2.2
  single _ _ _ := ht.single_next
  waits _ := ht.waits_next hB hp
  started k hk := by
    rw [mem_started_step]
    rcases ((ht.mem_outstanding_step hB hp).1 hk).1 with hold | ⟨hacq, -⟩
    · exact .inl (ht.started k hold)
    · exact .inr hacq
  tags := ht.tags_next hB hp
  held _ := ht.held_next hB hp
  fresh _ := ht.fresh_next hB hp
  done _ := ht.done_next hB hp
  told := ht.told_step hB hp
  stray := ht.stray_next hB hp
  arLock _ := ht.arLock_next hB hp
  grantLock _ := ht.grantLock_next hB hp

omit ht hB hp in
theorem reset (u : Converter c n) : Tended T (fun _ => none) u.reset .empty where
  free _ _ := ⟨rfl, rfl, rfl, rfl, rfl⟩
  serves _ _ h := absurd h (by simp)
  outstanding _ _ h := absurd h (by simp)
  sent _ _ h := absurd h (by simp)
  unsent _ _ h := absurd h (by simp)
  single _ _ _ h := absurd h (by simp)
  waits _ h := absurd h (by simp [empty])
  started _ h := absurd h (by simp [empty])
  tags _ h := absurd h (by simp [empty])
  held _ h := absurd h (by simp [empty])
  fresh _ _ := ⟨rfl, rfl⟩
  done _ h := absurd h (by simp [empty])
  told _ := rfl
  stray := ⟨rfl, rfl⟩
  arLock _ h := absurd h (by simp [Converter.reset, LockArb.init])
  grantLock _ h := absurd h (by simp [Converter.reset, LockArb.init])

end Tended

end Cycle

/-! ## Runs -/

section Runs

variable {T} {own : Fin n → Option ℕ} {s : Converter c n} {g : ReadLog c} {k : ℕ}

theorem tended_run (hB : 0 < c.tl.dataBeats) (u : Converter c n) (xs : List (ReadCycle c))
    (hl : (readsMachine T).Legal (u.reset, .empty) xs) :
    ∃ own, Tended T own ((readsMachine T).run (u.reset, .empty) xs).1
      ((readsMachine T).run (u.reset, .empty) xs).2 :=
  Machine.invariant_run (m := readsMachine T) (P := fun s => ∃ own, Tended T own s.1 s.2)
    (fun _ _ ⟨_, ht⟩ hp => ⟨_, ht.next hB hp⟩) (s := (u.reset, .empty))
    ⟨_, Tended.reset u⟩ hl

/-- The numbers of the beats are right where the first one is zero, or where there is none. -/
theorem Read.grants_eq_iff (w : Read c) (ds : List c.Data) :
    w.grants 0 ds = w.grants w.addrBeat ds ↔ (ds ≠ [] → w.addrBeat = 0) := by
  constructor
  · intro heq hne
    obtain ⟨d, ds, rfl⟩ := List.exists_cons_of_ne_nil hne
    have hhead : (w.grant 0 0 d).addrBeat = (w.grant w.addrBeat 0 d).addrBeat := by
      simp only [Read.grants, List.zipIdx_cons, List.map_cons, List.cons.injEq] at heq
      rw [heq.1]
    simpa [Read.grant] using hhead.symm
  · intro hzero
    cases ds with
    | nil => rfl
    | cons d ds => rw [hzero (by simp)]

namespace Tended

variable {x : ReadCycle c}
variable (ht : Tended T own s g) (hB : 0 < c.tl.dataBeats) (hp : ReadsPresented T g x)

include ht

theorem addrs_cases (k : ℕ) : g.addrs k = [] ∨ g.addrs k = [(T k).address] := by
  by_cases hown : ∃ j, own j = some k
  · obtain ⟨j, hj⟩ := hown
    cases hsent : (s.handler j).cmdSent with
    | false => exact .inl (ht.unsent j k hj hsent).1
    | true => exact .inr (ht.sent j k hj hsent)
  · by_cases hstarted : k ∈ g.started
    · by_cases hout : k ∈ g.outstanding
      · exact .inl (ht.waits k hout fun j hj => hown ⟨j, hj⟩).2.1
      · exact .inr (ht.done k hstarted hout).1
    · exact .inl (ht.fresh k hstarted).1

include hB in
theorem length_le (k : ℕ) : (g.beats k).length ≤ (T k).size := by
  by_cases hstarted : k ∈ g.started
  · by_cases hout : k ∈ g.outstanding
    · exact (ht.beats_lt hB hout).le
    · exact (ht.done k hstarted hout).2.le
  · simp [(ht.fresh k hstarted).2]

include hp in
/-- A request that is presented has no address yet. -/
theorem addrs_of_presented (hk : x.acq = some k) : g.addrs k = [] := by
  rcases hp.once k hk with hheld | hfresh
  · exact (ht.held k hheld).2
  · exact (ht.fresh k hfresh).1

include hB hp in
/-- A request finds an idle handler. -/
theorem taken_on (hk : x.acq = some k) (hready : ∃ j, s.tlReady j) :
    ∃ j, ((s.next (x.toIn T g)).handler j).acqMatch (T k).acquire := by
  have hown : ∃ j, ownNext T own s g x j = some k := by
    by_cases hown : ∃ j, own j = some k
    · obtain ⟨j, hj⟩ := hown
      refine ⟨j, ownNext_of_owner hj ?_⟩
      by_contra hout
      have hnext := ht.handler_next hB hp hj
      rw [if_neg hout, ht.addrs_of_presented hp hk] at hnext
      exact absurd hnext.2.1 (by simp)
    · have hid := (ht.acqId_of_no_owner hp hk fun j hj => hown ⟨j, hj⟩).2
      obtain ⟨j, hj, he⟩ := priorityEncoder_spec hready
      have hfree : own j = none := by
        cases hj' : own j with
        | none => rfl
        | some k' => simp [tlReady, (ht.serves j k' hj').rdy] at hj
      exact ⟨j, by simp [ownNext, hfree, hid, he, hk]⟩
  obtain ⟨j, hj⟩ := hown
  exact ⟨j, by simp [(ht.own_next hB hp hj).1.acqMatch]⟩

include hp in
/-- The address of a request that has a handler is the only one on offer. -/
theorem asked (hk : x.acq = some k) (hmatch : ∃ j, (s.handler j).acqMatch (T k).acquire)
    (hready : x.arReady) :
    s.arSent (x.toIn T g) = some (T k).address ∧ s.acquireFire (x.toIn T g) := by
  obtain ⟨j, hm⟩ := hmatch
  have hj : own j = some k := by
    cases hj' : own j with
    | none => simp [(ht.free j hj').acqMatch] at hm
    | some k' =>
      rw [(ht.serves j k' hj').acqMatch, decide_eq_true_eq] at hm
      rw [hp.tags k hk k' (ht.outstanding j k' hj') hm]
  have hsent : (s.handler j).cmdSent = false := by
    by_contra hsent
    have haddr := ht.sent j k hj (by simpa using hsent)
    simp [ht.addrs_of_presented hp hk] at haddr
  have hv : (s.handler j).arValid := by simp [arValid, (ht.serves j k hj).isRead, hsent]
  have huniq : ∀ j', (s.handler j').arValid → j' = j := by
    intro j' hv'
    obtain ⟨k', hj', hk', -⟩ := ht.arValid_request hp hv'
    obtain rfl : k = k' := Option.some.inj (hk.symm.trans hk')
    exact ht.single j' j k hj' hj
  have hlock : s.arArb.lock = none ∨ s.arArb.lock = some j := by
    cases hl : s.arArb.lock with
    | none => exact .inl rfl
    | some j' => exact .inr (congrArg some (huniq j' (ht.arLock j' hl)))
  have hserved : s.arServed (x.toIn T g) = some j := by
    simp only [arServed, LockArb.served, ReadCycle.toIn, hready, if_true]
    exact s.arArb.chosen_eq_of_unique hv huniq hlock
  refine ⟨?_, by simp [ht.acquireFire_eq hp, hserved]⟩
  simp [arSent, hserved, (ht.serves j k hj).address]

include hB hp in
theorem prompt (hr : x.r.isSome) (hready : x.grantReady) : s.rFire (x.toIn T g) := by
  obtain ⟨e, he⟩ := Option.isSome_iff_exists.1 hr
  obtain ⟨⟨j, hj, -⟩, haddr⟩ := ht.data_owner hB hp he
  simp [ht.rFire_eq hB hp, ht.grantServed_of_some hp haddr he hj, hready]

end Tended

end Runs

/-- In every run, the requests get what they are due iff those for which data has come read
from the first beat of their block on. -/
theorem reads_returned_iff (hB : 0 < c.tl.dataBeats) (u : Converter c n)
    (xs : List (ReadCycle c)) (hl : (readsMachine T).Legal (u.reset, ReadLog.empty) xs) :
    ReadsReturned T ((readsMachine T).run (u.reset, ReadLog.empty) xs) ↔
      ∀ k, ((readsMachine T).run (u.reset, ReadLog.empty) xs).2.beats k ≠ [] →
        (T k).addrBeat = 0 := by
  obtain ⟨own, ht⟩ := tended_run hB u xs hl
  constructor
  · intro hret k
    rw [← Read.grants_eq_iff, ← ht.told k]
    exact hret.grants k
  · intro hzero
    exact
      { addrs := ht.addrs_cases
        grants := fun k => (ht.told k).trans (((T k).grants_eq_iff _).2 (hzero k))
        sizes := fun k => by
          rw [ht.length_grants]
          exact ⟨ht.length_le hB k, fun hs ho => (ht.done k hs ho).2⟩
        stray := ht.stray
        taken := fun x hp k hk => ht.taken_on hB hp hk
        asked := fun x hp k hk => ht.asked hp hk
        prompt := fun x hp => ht.prompt hB hp }

/-- A `GetBlock` of one client and a `Get` of another. -/
def blockAndBeat (beat : BitVec 1) (k : ℕ) : Read smallConv :=
  { block := k == 0, clientId := BitVec.ofNat 1 k, clientXactId := 0
    addrBlock := BitVec.ofNat 4 (k + 3), addrBeat := if k = 0 then 0 else beat, data := 0
    union := 0 }

/-- A cycle in which everybody is ready. -/
def portCycle (acq : Option ℕ) (r : Option (ℕ × BitVec 8)) : ReadCycle smallConv :=
  { acq := acq, r := r, grantReady := true, arReady := true, awReady := true, wReady := true }

/-- The data of the `Get` comes between the beats of the block, the last of which waits for a
cycle. -/
def mixedRun : List (ReadCycle smallConv) :=
  [portCycle (some 0) none, portCycle (some 0) none, portCycle (some 1) (some (0, 17)),
    portCycle (some 1) none, portCycle none (some (1, 34)),
    { portCycle none (some (0, 18)) with grantReady := false }, portCycle none (some (0, 18))]

def mixedState (beat : BitVec 1) : Converter smallConv 2 × ReadLog smallConv :=
  (readsMachine (blockAndBeat beat)).run ((smallConverter 2).reset, ReadLog.empty) mixedRun

theorem reads_returned_iff_mixed :
    (mixedState 0).2.beats 0 = [17, 18] ∧ ReadsReturned (blockAndBeat 0) (mixedState 0) := by
  refine ⟨by decide +kernel,
    (reads_returned_iff (blockAndBeat 0) (by decide) (smallConverter 2) mixedRun ?_).2 ?_⟩
  · decide +kernel
  · exact fun k _ => ite_self (0 : BitVec 1)

/-- The `Get` reads the second beat of its block, and the grant says that it is the first. -/
theorem get_misnumbered :
    (readsMachine (blockAndBeat 1)).Legal ((smallConverter 2).reset, ReadLog.empty) mixedRun ∧
      ((mixedState 1).2.grants 1).map (fun a => a.addrBeat) = [0] ∧
      (blockAndBeat 1 1).addrBeat = 1 ∧ ¬ ReadsReturned (blockAndBeat 1) (mixedState 1) := by
  refine ⟨by decide +kernel, by decide +kernel, rfl, fun hret => ?_⟩
  exact absurd (hret.grants 1) (by decide +kernel)

end TaggedRiscv.Nasti
