import TaggedRiscv.Lib.Link
import TaggedRiscv.Uncore.Messages

/-!
# TileLink over a shared link (`SuperChannel`)

A super channel message has room for a message of any TileLink channel. On the client's
side a multiplexer puts finishes, releases and acquires on one link, in this order of
preference, and a demultiplexer at the manager takes them off; grants and probes come back
the same way. The signals that a conversion does not drive have some value, here that of
an arbitrary message.
-/

namespace TaggedRiscv

open Sync

/-- The width of a type field that holds any message type. -/
def TLParams.mtypeBits (c : TLParams) : ℕ :=
  max (max c.acquireTypeBits c.probeTypeBits) (max c.releaseTypeBits c.grantTypeBits)

variable (c : TLParams)

/-- A message of any channel. -/
structure SuperChannel where
  addrBlock : BitVec c.blockAddrBits
  addrBeat : BitVec c.beatAddrBits
  data : BitVec c.dataBits
  clientXactId : BitVec c.clientXactIdBits
  managerXactId : BitVec c.managerXactIdBits
  clientId : BitVec c.clientIdBits
  flag : Bool
  hasMultibeatData : Bool
  mtype : BitVec c.mtypeBits
  union : BitVec c.unionBits
  ctype : BitVec 3
  deriving DecidableEq

variable {c}

namespace SuperChannel

def acquireType : BitVec 3 := 0
def probeType : BitVec 3 := 1
def releaseType : BitVec 3 := 2
def grantType : BitVec 3 := 3
def finishType : BitVec 3 := 4

/-! ## Conversions -/

section Conversions

variable (u : SuperChannel c)

def ofAcquire (a : Acquire c) : SuperChannel c :=
  { u with
    ctype := acquireType
    flag := a.isBuiltinType
    mtype := a.aType.setWidth _
    clientXactId := a.clientXactId
    addrBlock := a.addrBlock
    addrBeat := a.addrBeat
    data := a.data
    union := a.union
    hasMultibeatData := a.hasMultibeatData }

def ofProbe (p : Probe c) : SuperChannel c :=
  { u with
    ctype := probeType
    mtype := p.pType.setWidth _
    addrBlock := p.addrBlock
    hasMultibeatData := false }

def ofRelease (r : Release c) : SuperChannel c :=
  { u with
    ctype := releaseType
    mtype := r.rType.setWidth _
    clientXactId := r.clientXactId
    addrBlock := r.addrBlock
    addrBeat := r.addrBeat
    data := r.data
    flag := r.voluntary
    hasMultibeatData := r.hasMultibeatData }

def ofGrant (g : Grant c) : SuperChannel c :=
  { u with
    ctype := grantType
    flag := g.isBuiltinType
    mtype := g.gType.setWidth _
    clientXactId := g.clientXactId
    managerXactId := g.managerXactId
    addrBeat := g.addrBeat
    data := g.data
    hasMultibeatData := g.hasMultibeatData }

def ofFinish (f : Finish c) : SuperChannel c :=
  { u with
    ctype := finishType
    managerXactId := f.managerXactId
    hasMultibeatData := false }

end Conversions

variable (s : SuperChannel c)

def toAcquire : Acquire c :=
  ⟨s.flag, s.mtype.setWidth _, s.clientXactId, s.addrBlock, s.addrBeat, s.data, s.union⟩

def toProbe : Probe c := ⟨s.mtype.setWidth _, s.addrBlock⟩

def toRelease : Release c :=
  ⟨s.flag, s.mtype.setWidth _, s.clientXactId, s.addrBlock, s.addrBeat, s.data⟩

def toGrant : Grant c :=
  ⟨s.flag, s.mtype.setWidth _, s.clientXactId, s.managerXactId, s.addrBeat, s.data⟩

def toFinish : Finish c := ⟨s.managerXactId⟩

/-- A type field that is wide enough keeps a message type. -/
theorem setWidth_mtype {w : ℕ} (h : w ≤ c.mtypeBits) (x : BitVec w) :
    (x.setWidth c.mtypeBits).setWidth w = x := by
  rw [BitVec.setWidth_setWidth_of_le _ h, BitVec.setWidth_eq]

variable (u : SuperChannel c)

theorem toAcquire_ofAcquire (a : Acquire c) : (ofAcquire u a).toAcquire = a := by
  have h : c.acquireTypeBits ≤ c.mtypeBits := by simp [TLParams.mtypeBits]
  simp [toAcquire, ofAcquire, setWidth_mtype h]

theorem toProbe_ofProbe (p : Probe c) : (ofProbe u p).toProbe = p := by
  have h : c.probeTypeBits ≤ c.mtypeBits := by simp [TLParams.mtypeBits]
  simp [toProbe, ofProbe, setWidth_mtype h]

theorem toRelease_ofRelease (r : Release c) : (ofRelease u r).toRelease = r := by
  have h : c.releaseTypeBits ≤ c.mtypeBits := by simp [TLParams.mtypeBits]
  simp [toRelease, ofRelease, setWidth_mtype h]

theorem toGrant_ofGrant (g : Grant c) : (ofGrant u g).toGrant = g := by
  have h : c.grantTypeBits ≤ c.mtypeBits := by simp [TLParams.mtypeBits]
  simp [toGrant, ofGrant, setWidth_mtype h]

end SuperChannel

/-! ## The links -/

/-- The channels from a client to a manager. -/
inductive InputChannel
  | finish | release | acquire
  deriving DecidableEq

/-- The channels from a manager to a client. -/
inductive OutputChannel
  | grant | probe
  deriving DecidableEq

variable (c) in
/-- The messages of the channels to a manager, with network headers `H`. -/
def InputChannel.Msg (H : Type) : InputChannel → Type
  | .finish => H × Finish c
  | .release => H × Release c
  | .acquire => H × Acquire c

variable (c) in
/-- The messages of the channels to a client, with network headers `H`. -/
def OutputChannel.Msg (H : Type) : OutputChannel → Type
  | .grant => H × Grant c
  | .probe => H × Probe c

namespace SuperChannel

variable {H : Type}

/-- The channel that `SuperChannelOutputDemultiplexer` hands a message to. -/
def inputKind (s : SuperChannel c) : Option InputChannel :=
  if s.ctype = finishType then some .finish
  else if s.ctype = releaseType then some .release
  else if s.ctype = acquireType then some .acquire
  else none

/-- The channel that `SuperChannelInputDemultiplexer` hands a message to. -/
def outputKind (s : SuperChannel c) : Option OutputChannel :=
  if s.ctype = grantType then some .grant
  else if s.ctype = probeType then some .probe
  else none

/-- A beat that is one of several. The arbiter has no lock where blocks have one beat. -/
def multibeat (l : H × SuperChannel c) : Bool :=
  l.2.hasMultibeatData && decide (1 < c.dataBeats)

end SuperChannel

open SuperChannel

variable {H : Type}

/-- `SuperChannelInputMultiplexer`, connected to `SuperChannelOutputDemultiplexer`. -/
def superInput (H : Type) (u : SuperChannel c) :
    Codec InputChannel (InputChannel.Msg c H) (H × SuperChannel c) where
  order := [.finish, .release, .acquire]
  encode
    | .finish, (h, m) => (h, ofFinish u m)
    | .release, (h, m) => (h, ofRelease u m)
    | .acquire, (h, m) => (h, ofAcquire u m)
  decode
    | .finish, l => (l.1, l.2.toFinish)
    | .release, l => (l.1, l.2.toRelease)
    | .acquire, l => (l.1, l.2.toAcquire)
  kind l := l.2.inputKind
  multi := multibeat
  count := c.dataBeats
  kind_encode k _ := by cases k <;> rfl
  decode_encode k m := by
    cases k with
    | finish => rfl
    | release => exact Prod.ext rfl (toRelease_ofRelease u m.2)
    | acquire => exact Prod.ext rfl (toAcquire_ofAcquire u m.2)
  one_lt_count l h := of_decide_eq_true (Bool.and_eq_true_iff.1 h).2

/-- `SuperChannelOutputMultiplexer`, connected to `SuperChannelInputDemultiplexer`. -/
def superOutput (H : Type) (u : SuperChannel c) :
    Codec OutputChannel (OutputChannel.Msg c H) (H × SuperChannel c) where
  order := [.grant, .probe]
  encode
    | .grant, (h, m) => (h, ofGrant u m)
    | .probe, (h, m) => (h, ofProbe u m)
  decode
    | .grant, l => (l.1, l.2.toGrant)
    | .probe, l => (l.1, l.2.toProbe)
  kind l := l.2.outputKind
  multi := multibeat
  count := c.dataBeats
  kind_encode k _ := by cases k <;> rfl
  decode_encode k m := by
    cases k with
    | grant => exact Prod.ext rfl (toGrant_ofGrant u m.2)
    | probe => exact Prod.ext rfl (toProbe_ofProbe u m.2)
  one_lt_count l h := of_decide_eq_true (Bool.and_eq_true_iff.1 h).2

/-- On both links, whatever the channels offer, in whole messages, and whenever they are
ready: every channel is given the messages it hands over, in order and unchanged, header
and all fields, and no message is interrupted by another on the link. -/
theorem superChannel_transports (u : SuperChannel c)
    (is : List (LinkIn InputChannel (InputChannel.Msg c H)))
    (js : List (LinkIn OutputChannel (OutputChannel.Msg c H)))
    (hi : (superInput H u).machine.Legal (.init, .empty) is)
    (hj : (superOutput H u).machine.Legal (.init, .empty) js) :
    ((superInput H u).machine.run (.init, .empty) is).2.Transported (superInput H u) ∧
      ((superOutput H u).machine.run (.init, .empty) js).2.Transported (superOutput H u) :=
  ⟨(superInput H u).transported_run hi, (superOutput H u).transported_run hj⟩

/-! ## A release with a finish in its way, and a grant with a probe in its way -/

/-- Blocks of two beats, with releases and grants of type 0 carrying data. -/
def twoBeats : TLParams := { TLParams.small with grantTypesWithData := [0] }

/-- Some values of the signals that nobody drives. -/
def undriven : SuperChannel twoBeats :=
  { addrBlock := 0, addrBeat := 0, data := 0, clientXactId := 0, managerXactId := 0
    clientId := 0, flag := false, hasMultibeatData := false, mtype := 0, union := 0, ctype := 0 }

/-- A beat of a release, and perhaps a finish, to receivers that are ready. -/
def releaseBeat (beat : BitVec 1) (finish : Bool) :
    LinkIn InputChannel (InputChannel.Msg twoBeats Unit) :=
  { offer := fun
      | .finish => if finish then some ((), ⟨0⟩) else none
      | .release => some ((), ⟨true, 0, 0, 3, beat, 0⟩)
      | .acquire => none
    ready := fun _ => true }

/-- A beat of a grant, and perhaps a probe, to receivers that are ready. -/
def grantBeat (beat : BitVec 1) (probe : Bool) :
    LinkIn OutputChannel (OutputChannel.Msg twoBeats Unit) :=
  { offer := fun
      | .grant => some ((), ⟨false, 0, 0, 0, beat, 0⟩)
      | .probe => if probe then some ((), ⟨0, 3⟩) else none
    ready := fun _ => true }

/-- The release and the grant go through although a finish and a probe arrive after their first
beats. -/
theorem superChannel_transports_bursts :
    let input := (superInput Unit undriven).machine.run (.init, .empty)
      [releaseBeat 0 false, releaseBeat 1 true]
    let output := (superOutput Unit undriven).machine.run (.init, .empty)
      [grantBeat 0 false, grantBeat 1 true]
    input.2.carried.length = 2 ∧ output.2.carried.length = 2 ∧
      input.2.Transported (superInput Unit undriven) ∧
      output.2.Transported (superOutput Unit undriven) := by
  refine ⟨by decide +kernel, by decide +kernel, superChannel_transports undriven _ _
    ⟨fun k m _ hp => ?_, fun k m hk hp => ?_, trivial⟩
    ⟨fun k m _ hp => ?_, fun k m hk hp => ?_, trivial⟩⟩
  · exact absurd hp (Nat.lt_irrefl 0)
  · cases k with
    | finish => exact absurd hp (by decide)
    | release =>
      obtain rfl := Option.some.inj hk
      decide
    | acquire => simp [releaseBeat] at hk
  · exact absurd hp (Nat.lt_irrefl 0)
  · cases k with
    | grant =>
      obtain rfl := Option.some.inj hk
      decide
    | probe => exact absurd hp (by decide)

end TaggedRiscv
