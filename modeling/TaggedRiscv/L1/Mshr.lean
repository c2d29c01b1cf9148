import TaggedRiscv.Coherence.Mesi
import TaggedRiscv.Lib.Arbiter
import TaggedRiscv.Lib.Select

/-!
# The miss handlers of the L1 data cache (`MSHR`, `MSHRFile`)

A miss handler writes back the block that a miss replaces, asks for the missing block, writes
its metadata when the grant has come, and then replays the accesses that waited for it.
Accesses to the block of a busy handler join its replay queue. The data of waiting stores is
in a queue of the file, of which only the allocation is modelled. Addresses are those of
blocks; the policy is that of `Coherence.Mesi`.
-/

namespace TaggedRiscv.Mesi

namespace ClientState

/-- The two-bit code of a state. -/
def code : ClientState → BitVec 2
  | clientInvalid => 0
  | clientShared => 1
  | clientExclusiveClean => 2
  | clientExclusiveDirty => 3

/-- The state with a code. -/
def ofCode (b : BitVec 2) : ClientState :=
  if b = 0 then clientInvalid
  else if b = 1 then clientShared
  else if b = 2 then clientExclusiveClean
  else clientExclusiveDirty

@[simp] theorem ofCode_code (c : ClientState) : ofCode c.code = c := by
  cases c <;> decide

/-- `requiresReleaseOnCacheControl(M_FLUSH)`: only dirty data is written back. -/
def requiresVoluntaryWriteback (s : ClientState) : Bool := s.hasDirtyData

end ClientState

/-- A secondary miss may need more than the first one asked for. -/
def requiresAcquireOnSecondaryMiss (first second : MemCmd) : Bool :=
  second.isWriteIntent && !first.isWriteIntent

/-- The release carries the block. -/
def ReleaseType.hasData : ReleaseType → Bool
  | releaseInvalidateData | releaseDowngradeData | releaseCopyData => true
  | _ => false

/-- The grant carries the block. -/
def GrantType.hasData : GrantType → Bool
  | grantShared | grantExclusive => true
  | grantExclusiveAck => false

end TaggedRiscv.Mesi

namespace TaggedRiscv.L1

open Sync Mesi

/-- The parameters of an L1 data cache. -/
structure L1Params where
  tagBits : ℕ
  idxBits : ℕ
  nWays : ℕ
  nMSHRs : ℕ
  replayQueueDepth : ℕ
  sdqDepth : ℕ
  outerDataBeats : ℕ
  refillCyclesPerBeat : ℕ
  lrscCycles : ℕ
  outerDataBeats_pos : 0 < outerDataBeats
  refillCyclesPerBeat_pos : 0 < refillCyclesPerBeat
  /-- The cache requires it. -/
  le_lrscCycles : 32 ≤ lrscCycles

namespace L1Params

/-- One set index bit, and one of everything else, for concrete runs. -/
def small : L1Params where
  tagBits := 1
  idxBits := 1
  nWays := 1
  nMSHRs := 1
  replayQueueDepth := 1
  sdqDepth := 1
  outerDataBeats := 1
  refillCyclesPerBeat := 1
  lrscCycles := 32
  outerDataBeats_pos := Nat.one_pos
  refillCyclesPerBeat_pos := Nat.one_pos
  le_lrscCycles := le_rfl

/-- The number of sets. -/
def nSets (p : L1Params) : ℕ := 2 ^ p.idxBits

/-- The cycles of a refill. -/
def refillCycles (p : L1Params) : ℕ := p.refillCyclesPerBeat * p.outerDataBeats

end L1Params

variable (p : L1Params)

/-- The address of a block. -/
structure BlockAddr where
  tag : BitVec p.tagBits
  idx : BitVec p.idxBits
  deriving DecidableEq

/-- What the cache knows about a way. -/
structure L1Metadata where
  tag : BitVec p.tagBits
  coh : ClientState
  deriving DecidableEq

/-- A write of metadata. -/
structure L1MetaWriteReq where
  idx : BitVec p.idxBits
  wayEn : Fin p.nWays → Bool
  data : L1Metadata p

/-- A write-back to be done: the release without its beats, and the ways to read. -/
structure WritebackReq where
  voluntary : Bool
  rType : ReleaseType
  clientXactId : ℕ
  addr : BlockAddr p
  wayEn : Fin p.nWays → Bool

/-- A request to the outer memory. -/
structure L1Acquire where
  clientXactId : Fin p.nMSHRs
  addr : BlockAddr p
  aType : AcquireType

/-- A grant, or the acknowledgement of a voluntary release (`none`). -/
structure L1Grant where
  clientXactId : Fin p.nMSHRs
  gType : Option GrantType

/-- An access that waits in a replay queue. -/
structure ReplayInternal where
  cmd : MemCmd
  sdqId : ℕ
  deriving DecidableEq

/-- A miss: the access, and what the lookup found. -/
structure MSHRReq where
  addr : BlockAddr p
  cmd : MemCmd
  tagMatch : Bool
  oldMeta : L1Metadata p
  wayEn : Fin p.nWays → Bool
  sdqId : ℕ

/-- The states of a handler of misses. -/
inductive MSHRState
  | invalid | wbReq | wbResp | metaClear | refillReq | refillResp | metaWriteReq
  | metaWriteResp | drainRpq
  deriving DecidableEq, Repr

/-! ## One handler -/

/-- The registers of a handler. -/
structure MSHR where
  state : MSHRState
  newCohState : ClientState
  req : MSHRReq p
  refillCnt : ℕ
  rpq : List ReplayInternal
  metaHazard : BitVec 2

/-- The inputs of a handler in a cycle. -/
structure MSHRIn where
  reqPriVal : Bool
  reqSecVal : Bool
  req : MSHRReq p
  memReqReady : Bool
  metaReadReady : Bool
  metaWriteReady : Bool
  replayReady : Bool
  wbReqReady : Bool
  memGrant : Option (Option GrantType)

variable {p}

namespace L1Grant

/-- The grant carries the block. -/
def hasData (g : L1Grant p) : Bool := g.gType.any GrantType.hasData

end L1Grant

/-- `hasMultibeatData` of a grant. -/
def gntMultiData (p : L1Params) (g : Option GrantType) : Bool :=
  decide (1 < p.outerDataBeats) && g.any GrantType.hasData

/-- A beat of a grant that has several comes in. -/
def MSHRIn.gntMulti (i : MSHRIn p) : Bool := i.memGrant.any (gntMultiData p)

namespace MSHR

variable (m : MSHR p) (r : MSHRReq p)

/-- The miss is for the set of `m`. -/
def idxMatch : Bool := m.req.addr.idx == r.addr.idx

/-- The permission asked for is not enough for `r`. -/
def cmdRequiresSecondAcquire : Bool := requiresAcquireOnSecondaryMiss m.req.cmd r.cmd

/-- `states_before_refill`. -/
def beforeRefill : Bool :=
  match m.state with
  | .wbReq | .wbResp | .metaClear => true
  | _ => false

/-- A miss can still join this one. -/
def secRdy : Bool :=
  m.idxMatch r && (m.beforeRefill ||
    (m.state == .refillReq || m.state == .refillResp) && !m.cmdRequiresSecondAcquire r)

/-- A new miss is taken. -/
def reqPriRdy : Bool := m.state == .invalid

/-- A secondary miss is taken. -/
def reqSecRdy : Bool := m.secRdy r && decide (m.rpq.length < p.replayQueueDepth)

/-- The output `idx_match`. -/
def idxBusy : Bool := m.state != .invalid && m.idxMatch r

/-- A probe of the set may go on. -/
def probeRdy : Bool := !m.idxMatch r || !m.beforeRefill && m.metaHazard == 0

/-- Metadata are to be written. -/
def metaWriteValid : Bool := m.state == .metaWriteReq || m.state == .metaClear

/-- The metadata it writes: cleared first, granted later. -/
def metaWriteBits : L1MetaWriteReq p :=
  { idx := m.req.addr.idx
    wayEn := m.req.wayEn
    data :=
      { tag := m.req.addr.tag
        coh := if m.state = .metaClear then m.req.oldMeta.coh.onCacheControl .FLUSH
          else m.newCohState } }

/-- A writeback is asked for. -/
def wbReqValid : Bool := m.state == .wbReq

/-- The block that is replaced. -/
def victim : BlockAddr p := ⟨m.req.oldMeta.tag, m.req.addr.idx⟩

/-- `makeVoluntaryWriteback`. -/
def wbReqBits (id : Fin p.nMSHRs) : WritebackReq p :=
  { voluntary := true
    rType := getReleaseType .FLUSH m.req.oldMeta.coh
    clientXactId := id
    addr := m.victim
    wayEn := m.req.wayEn }

/-- An acquire is sent. -/
def memReqValid : Bool := m.state == .refillReq

/-- The acquire. -/
def memReqBits (id : Fin p.nMSHRs) : L1Acquire p :=
  { clientXactId := id, addr := m.req.addr, aType := getAcquireType m.req.cmd }

/-- A replay reads metadata. -/
def metaReadValid : Bool := m.state == .drainRpq

/-- A request is replayed. -/
def replayValid : Bool := m.state == .drainRpq && !m.rpq.isEmpty

/-- The command of a replay. It does nothing in a cycle without a metadata read. -/
def replayCmd (metaReadReady : Bool) : MemCmd :=
  if metaReadReady then (m.rpq.head?.map ReplayInternal.cmd).getD .NOP else .NOP

/-- Where the data of the replay are. -/
def replaySdqId : ℕ := (m.rpq.head?.map ReplayInternal.sdqId).getD 0

/-- The state of a handler that has taken on a miss. -/
def allocState : MSHRState :=
  if r.tagMatch then (if r.oldMeta.coh.isHit r.cmd then .metaWriteReq else .refillReq)
  else if r.oldMeta.coh.requiresVoluntaryWriteback then .wbReq else .metaClear

variable (i : MSHRIn p)

/-- A primary miss is taken on. -/
def alloc : Bool := i.reqPriVal && m.reqPriRdy

/-- The last beat of the refill. -/
def refillDone : Bool :=
  i.memGrant.isSome && (!i.gntMulti || m.refillCnt == p.refillCycles - 1)

/-- The request waits for its replay. -/
def rpqEnq : Bool :=
  (m.alloc i || i.reqSecVal && m.secRdy i.req) && !i.req.cmd.isPrefetch &&
    decide (m.rpq.length < p.replayQueueDepth)

/-- The queue drops its head. -/
def rpqDeqReady : Bool :=
  i.metaReadReady && (i.replayReady && m.state == .drainRpq || m.state == .invalid)

/-- The state after a cycle. Write-backs are acknowledged, as the network does not keep the
order of messages. -/
def stateNext : MSHRState :=
  match m.state with
  | .invalid => if i.reqPriVal then allocState i.req else .invalid
  | .wbReq => if i.wbReqReady then .wbResp else .wbReq
  | .wbResp => if i.memGrant.isSome then .metaClear else .wbResp
  | .metaClear => if i.metaWriteReady then .refillReq else .metaClear
  | .refillReq => if i.memReqReady then .refillResp else .refillReq
  | .refillResp => if m.refillDone i then .metaWriteReq else .refillResp
  | .metaWriteReq => if i.metaWriteReady then .metaWriteResp else .metaWriteReq
  | .metaWriteResp => .drainRpq
  | .drainRpq => if m.rpq.isEmpty then .invalid else .drainRpq

/-- `coh_on_grant`. -/
def cohOnGrant (g : Option GrantType) : ClientState :=
  match g with
  | some t => ClientState.onGrant t m.req.cmd
  | none => clientInvalid

/-- The new state after a cycle. -/
def newCohStateNext : ClientState :=
  if m.alloc i && i.req.tagMatch && i.req.oldMeta.coh.isHit i.req.cmd then
    i.req.oldMeta.coh.onHit i.req.cmd
  else if m.state = .refillResp then
    match i.memGrant with
    | some g => m.cohOnGrant g
    | none => m.newCohState
  else m.newCohState

/-- The request of the handler after a cycle: an upgrade by a secondary miss changes the
command. -/
def reqNext : MSHRReq p :=
  if m.alloc i then i.req
  else if i.reqSecVal && m.reqSecRdy i.req && m.cmdRequiresSecondAcquire i.req then
    { m.req with cmd := i.req.cmd }
  else m.req

/-- The registers after a cycle. -/
def next : MSHR p :=
  { state := m.stateNext i
    newCohState := m.newCohStateNext i
    req := m.reqNext i
    refillCnt := if i.gntMulti then (m.refillCnt + 1) % p.refillCycles else m.refillCnt
    rpq := (if m.rpqDeqReady i then m.rpq.tail else m.rpq) ++
      (if m.rpqEnq i then [⟨i.req.cmd, i.req.sdqId⟩] else [])
    metaHazard :=
      if m.metaWriteValid && i.metaWriteReady then 1
      else if m.metaHazard != 0 then m.metaHazard + 1
      else m.metaHazard }

/-- The handler has its block and has not drained its queue. -/
def owning (m : MSHR p) : Bool :=
  match m.state with
  | .metaWriteReq | .metaWriteResp | .drainRpq => true
  | _ => false

end MSHR

/-! ## The file -/

variable (p) in
/-- The handlers, and which entries of the store data are used. -/
structure MSHRFile where
  mshr : Fin p.nMSHRs → MSHR p
  sdqVal : Fin p.sdqDepth → Bool

variable (p) in
/-- The inputs of the file in a cycle. The bits of the request are there also when it is not
valid; the id of its store data is chosen by the file. -/
structure MSHRFileIn where
  reqValid : Bool
  req : MSHRReq p
  memReqReady : Bool
  metaReadReady : Bool
  metaWriteReady : Bool
  replayReady : Bool
  wbReqReady : Bool
  memGrant : Option (L1Grant p)

namespace MSHRFile

variable (f : MSHRFile p) (r : MSHRReq p)

/-- The entry the next store gets. -/
def sdqAllocId : ℕ := priorityEncoder fun j => !f.sdqVal j

/-- Some entry is free. -/
def sdqRdy : Bool := (List.finRange p.sdqDepth).any fun j => !f.sdqVal j

/-- The handlers that are busy with the set. -/
def idxMatches (k : Fin p.nMSHRs) : Bool := (f.mshr k).idxBusy r

/-- The output `secondary_miss`: a handler is busy with the set. -/
def secondaryMiss : Bool := (List.finRange p.nMSHRs).any (f.idxMatches r)

/-- The handler of the set works on this block. -/
def tagMatch : Bool :=
  mux1H (f.idxMatches r) (fun k => (f.mshr k).req.addr.tag) == r.addr.tag

/-- Some handler is free. -/
def priRdy : Bool := (List.finRange p.nMSHRs).any fun k => (f.mshr k).reqPriRdy

/-- Some handler takes a secondary miss. -/
def secRdy : Bool := (List.finRange p.nMSHRs).any fun k => (f.mshr k).reqSecRdy r

/-- The miss is taken. -/
def reqReady : Bool :=
  (if f.secondaryMiss r then f.tagMatch r && f.secRdy r else f.priRdy) && f.sdqRdy

/-- Every handler lets the probe go on. -/
def probeRdy : Bool := (List.finRange p.nMSHRs).all fun k => (f.mshr k).probeRdy r

/-- The handlers that write metadata. -/
def metaWriteValid (k : Fin p.nMSHRs) : Bool := (f.mshr k).metaWriteValid

/-- The handlers that read metadata. -/
def metaReadValid (k : Fin p.nMSHRs) : Bool := (f.mshr k).metaReadValid

/-- The handlers that replay. -/
def replayValid (k : Fin p.nMSHRs) : Bool := (f.mshr k).replayValid

/-- The handlers that send an acquire. -/
def memReqValid (k : Fin p.nMSHRs) : Bool := (f.mshr k).memReqValid

/-- The handlers that ask for a writeback. -/
def wbReqValid (k : Fin p.nMSHRs) : Bool := (f.mshr k).wbReqValid

/-- The handler whose metadata write is on the output. -/
def metaWriteSel : Option (Fin p.nMSHRs) := firstValid f.metaWriteValid

/-- The handler whose metadata read is on the output. -/
def metaReadSel : Option (Fin p.nMSHRs) := firstValid f.metaReadValid

/-- The handler whose replay is. -/
def replaySel : Option (Fin p.nMSHRs) := firstValid f.replayValid

/-- The handler whose acquire is. -/
def memReqSel : Option (Fin p.nMSHRs) := firstValid f.memReqValid

/-- The handler whose writeback is. -/
def wbReqSel : Option (Fin p.nMSHRs) := firstValid f.wbReqValid

variable (i : MSHRFileIn p)

/-- The inputs of a handler. -/
def input (k : Fin p.nMSHRs) : MSHRIn p :=
  { reqPriVal := arbiterCtrl (fun k => (f.mshr k).reqPriRdy) k &&
      (i.reqValid && f.sdqRdy && !f.secondaryMiss i.req)
    reqSecVal := i.reqValid && f.sdqRdy && f.tagMatch i.req
    req := { i.req with sdqId := f.sdqAllocId }
    memReqReady := arbiterCtrl f.memReqValid k && i.memReqReady
    metaReadReady := arbiterCtrl f.metaReadValid k && i.metaReadReady
    metaWriteReady := arbiterCtrl f.metaWriteValid k && i.metaWriteReady
    replayReady := arbiterCtrl f.replayValid k && i.replayReady
    wbReqReady := arbiterCtrl f.wbReqValid k && i.wbReqReady
    memGrant := i.memGrant.bind fun g => if g.clientXactId = k then some g.gType else none }

/-- The replay on the output. -/
def replayCmd (metaReadReady : Bool) : Option MemCmd :=
  f.replaySel.map fun k => (f.mshr k).replayCmd (arbiterCtrl f.metaReadValid k && metaReadReady)

/-- The entry of the store data queue that a replay frees. -/
def freeSdq : Option ℕ :=
  f.replaySel.bind fun k =>
    if i.replayReady && ((f.replayCmd i.metaReadReady).any MemCmd.isWrite) then
      some (f.mshr k).replaySdqId
    else none

/-- A store puts its data into the queue. -/
def sdqEnq : Bool := i.reqValid && f.reqReady i.req && i.req.cmd.isWrite

/-- The file after a cycle. -/
def next : MSHRFile p :=
  { mshr := fun k => (f.mshr k).next (f.input i k)
    sdqVal := fun j =>
      f.sdqVal j && !(f.freeSdq i == some j.val) ||
        f.sdqEnq i && firstValid (fun j => !f.sdqVal j) == some j }

end MSHRFile

end TaggedRiscv.L1
