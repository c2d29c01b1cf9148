import TaggedRiscv.TagCache.Basic

/-!
# The tag cache tracker (`TagCacheTracker`)

A tracker handles one block transaction at a time. The tracker is modelled register by register:
its outputs are functions of the registers and of the inputs they read combinationally, and
`Tracker.next` is the clock edge, with the source's later assignments taking precedence.
-/

namespace TaggedRiscv.TagCache

open Packed TagUtil

variable {g : Geometry}

/-! ## Messages -/

/-- A client id and its transaction id, which the source concatenates. -/
structure XactId where
  clientId : ℕ
  clientXactId : ℕ
  deriving DecidableEq, Repr

/-- The type of an acquire: built in, or one of the coherence protocol's own, none of
which carries data. -/
inductive AcquireType
  | builtIn (a : BuiltInAcquire)
  | custom
  deriving DecidableEq, Repr

namespace AcquireType

def isBuiltInType : AcquireType → Bool
  | builtIn _ => true
  | custom => false

/-- Whether an acquire of the type carries data. -/
def hasData : AcquireType → Bool
  | builtIn a => a.hasData
  | custom => false

end AcquireType

/-- An acquire beat. -/
structure AcquireMsg where
  id : XactId
  aType : AcquireType
  data : Beat
  deriving DecidableEq, Repr

/-- A voluntary release beat. -/
structure ReleaseMsg where
  id : XactId
  data : Beat
  deriving DecidableEq, Repr

/-- A channel: its bits can be seen also while they are not valid. -/
structure Chan (α : Type) where
  valid : Bool
  bits : α
  deriving DecidableEq, Repr

/-- A grant beat. The grant type is `none` for the one of the coherence protocol. -/
structure GrantMsg where
  id : XactId
  isBuiltin : Bool
  gType : Option BuiltInGrant
  addrBeat : Fin 4
  data : Beat
  deriving DecidableEq, Repr

/-- A request to the memory. -/
inductive OutMsg
  | putBlock (id : XactId) (addr : ℕ) (data : Beat)
  | getBlock (id : XactId) (addr : ℕ)
  deriving DecidableEq, Repr

/-- An answer of the metadata array. -/
structure MetaResp (g : Geometry) where
  hit : Bool
  tag : Meta
  wayEn : Fin g.nWays → Bool

/-! ## Registers -/

/-- The states of a tracker. -/
inductive State
  | idle | dummyWait | metaRead | metaResp | dataReadHit | dataRespHit | dataWriteHit
  | dataReadWb | dataRespWb | dataRespWbDone | writeBack | writeBackWaitB | memReq
  | dataWriteRefill | metaWriteRefill | metaWriteHit | gnt | busy
  deriving DecidableEq, Repr

/-- The registers of a tracker. `addrOut` is the address without its offset bits,
which nothing reads. -/
structure Tracker (g : Geometry) where
  state : State
  isRead : Bool
  isWrite : Bool
  isAcq : Bool
  isBuiltin : Bool
  tagOut : XactId
  addrOut : ℕ
  gTypeOut : Option BuiltInGrant
  cmdSent : Bool
  collectAcqData : Bool
  acqDataProcess : Bool
  acqData : Block
  acqDataCnt : Fin 4
  acqReplMeta : Meta
  acqWayEn : Fin g.nWays → Bool
  memAcqDataRead : Fin 4 → Raw
  memTagDataRead : Fin 4 → Raw
  memTagDataWriteCnt : Fin 4
  isWriteProcess : Bool
  gntEnable : Bool
  gntData : Block
  gntDataCnt : Fin 4
  gntTag : Slot
  wbData : Fin 4 → Raw
  wbReadCnt : Fin 4
  wbDataCnt : Fin 4
  memTagDataWrite : Fin 4 → Raw
  refillDataCnt : Fin 4
  refillData : Fin 4 → Raw
  readMultipleData : Bool
  nrCnt : Fin 4

/-- What a tracker sees in a cycle. A `ready` input is read only while the tracker
asks, so it says that the tracker is served. -/
structure TrackerIn (g : Geometry) where
  acquire : Chan AcquireMsg
  release : Chan ReleaseMsg
  phyAddrAcq : ℕ
  phyAddrRel : ℕ
  grantReady : Bool
  metaReadReady : Bool
  metaWriteReady : Bool
  metaRespValid : Bool
  metaResp : MetaResp g
  dataReadReady : Bool
  dataWriteReady : Bool
  dataRespValid : Bool
  dataResp : Raw
  outAcquireReady : Bool
  outGrantValid : Bool
  outGrantData : Beat

namespace Tracker

variable (t : Tracker g) (i : TrackerIn g)

/-! ## Outputs -/

/-- The tracker can take a transaction. -/
def rdy : Bool := t.state == .idle

/-- The tracker is busy with the transaction of this id. -/
def isMatch (id : XactId) : Bool := t.tagOut == id && !t.rdy

/-- The tracker sends its evicted tag line. -/
def memSendTag : Bool := t.state == .writeBack && !t.acqDataProcess

/-- The tracker fetches a tag line. -/
def memReceiveTag : Bool := t.state == .memReq && !t.acqDataProcess

/-- The data beat the tracker would forward: that of the channel it listens to. -/
def channelData (acq rel : Beat) : Beat := if t.isAcq then acq else rel

/-- Whether the channel the tracker listens to is valid. -/
def channelValid (acqValid relValid : Bool) : Bool :=
  (acqValid && t.isAcq) || (relValid && !t.isAcq)

/-- The tracker's request to the memory is valid. -/
def outAcquireValid (acqValid relValid : Bool) : Bool :=
  (t.channelValid acqValid relValid && t.isWrite) || t.memSendTag ||
    (((t.acqDataProcess && t.isRead) || t.memReceiveTag) && !t.cmdSent)

/-- The tracker's request to the memory. The address of a write back takes the tag
from the tracker's own copy of the victim's metadata and the DRAM bit from the
metadata array's response register, whosever response that is. -/
def outAcquireBits (acq rel : Beat) (metaRespTag : Meta) : OutMsg :=
  if t.memSendTag then
    .putBlock t.tagOut (tagAddrConv (addrFromTag g t.acqReplMeta t.addrOut) metaRespTag.dram)
      (insertEmptyTag 4 (t.memTagDataWrite t.memTagDataWriteCnt))
  else if t.memReceiveTag then
    .getBlock t.tagOut (tagAddrConv t.addrOut (isDramAddress t.addrOut))
  else if t.isWriteProcess then
    .putBlock t.tagOut t.addrOut (insertEmptyTag 4 (removeTag (t.channelData acq rel)))
  else
    .getBlock t.tagOut t.addrOut

/-- The tracker takes an answer of the memory. -/
def outGrantReady : Bool :=
  t.isWrite || t.memSendTag || t.state == .writeBackWaitB || t.isRead || t.memReceiveTag

/-- The tracker's grant. An acknowledgement has no beat number and no data. -/
def grantBits : GrantMsg :=
  if t.isWriteProcess then
    { id := t.tagOut, isBuiltin := true, gType := t.gTypeOut, addrBeat := 0, data := 0 }
  else
    { id := t.tagOut, isBuiltin := t.isBuiltin, gType := t.gTypeOut, addrBeat := t.gntDataCnt
      data := t.gntData t.gntDataCnt }

/-- The tracker reads the metadata array. -/
def metaReadValid : Bool := t.state == .metaRead

/-- The tracker writes the metadata array. -/
def metaWriteValid : Bool := t.state == .metaWriteRefill || t.state == .metaWriteHit

/-- The metadata the tracker writes: clean after a refill, dirty after a write. -/
def metaWriteTag : Meta :=
  addrToTag g t.addrOut (t.state == .metaWriteHit) (isDramAddress t.addrOut)

/-- The tracker reads the data array. -/
def dataReadValid : Bool :=
  t.state == .dataReadHit || t.state == .dataReadWb || t.state == .dataRespWb

def dataReadRow : Fin 4 :=
  if t.state = .dataReadWb ∨ t.state = .dataRespWb then t.wbReadCnt else addrToRow t.addrOut

/-- The tracker writes the data array. -/
def dataWriteValid : Bool :=
  (t.state == .dataWriteHit && !t.collectAcqData) || t.state == .dataWriteRefill

def dataWriteRow : Fin 4 :=
  if t.state = .dataWriteRefill then t.refillDataCnt else addrToRow t.addrOut

/-- The bits the tracker writes: a refilled row, or the tags of the written block
shifted to the block's slot. -/
def dataWriteBits : Raw :=
  if t.state = .dataWriteRefill then t.refillData t.refillDataCnt
  else (blockTags t.acqData).setWidth (2 * 64) <<< ((rowOffset t.addrOut).val * 32)

/-- The slots the tracker writes. -/
def dataWriteMask : Fin 4 → Bool := fun k =>
  if t.state = .dataWriteRefill then true else decide (k = rowOffset t.addrOut)

/-! ## Handshakes -/

/-- A request to the memory is taken. -/
def outAcquireFire : Bool :=
  t.outAcquireValid i.acquire.valid i.release.valid && i.outAcquireReady

/-- An answer of the memory is taken. -/
def outGrantFire : Bool := i.outGrantValid && t.outGrantReady

/-- An acquire beat is taken. -/
def acquireReady : Bool := t.isAcq && t.acqDataProcess && t.outAcquireFire i

/-- A release beat is taken. -/
def releaseReady : Bool := !t.isAcq && t.acqDataProcess && t.outAcquireFire i

/-- A beat of the forwarded data is counted. -/
def acqDataCount : Bool :=
  ((i.acquire.valid && t.acquireReady i) || (i.release.valid && t.releaseReady i)) && t.isWrite

/-- The last beat of the forwarded data is counted. -/
def acqDataDone : Bool := t.acqDataCount i && t.acqDataCnt == 3

/-- A grant beat is taken. -/
def grantFire : Bool := t.gntEnable && i.grantReady

/-- A grant beat of a read is counted. -/
def gntDataCount : Bool := t.grantFire i && !t.isWriteProcess

/-- The last grant beat of a read is counted. -/
def gntDataDone : Bool := t.gntDataCount i && t.gntDataCnt == 3

/-- A beat of the evicted line is counted. -/
def memTagDataWriteCount : Bool := t.outAcquireFire i && t.memSendTag

/-- A row read for the write back is counted. -/
def wbReadCount : Bool :=
  (t.dataReadValid && i.dataReadReady) && t.state != .dataReadHit

/-- A row received for the write back is counted. -/
def wbDataCount : Bool := i.dataRespValid && t.state != .dataRespHit

/-- A refilled row is counted. -/
def refillDataCount : Bool :=
  (t.dataWriteValid && i.dataWriteReady) && t.state == .dataWriteRefill

/-- A beat read from the memory is counted. -/
def nrCount : Bool :=
  t.outGrantFire i && ((t.readMultipleData && t.isRead && t.acqDataProcess) || t.memReceiveTag)

/-- The last beat read from the memory is counted. -/
def nrFinish : Bool := t.nrCount i && t.nrCnt == 3

/-- The transaction's own data is fully written or read. -/
def dataDone : Bool :=
  (t.outGrantFire i && t.acqDataProcess && t.isWrite) ||
    (t.nrFinish i && t.acqDataProcess && t.isRead)

/-! ## The clock edge -/

/-- The state machine. -/
def nextState : State :=
  match t.state with
  | .idle => if i.acquire.valid || i.release.valid then .metaRead else .idle
  | .dummyWait => if !t.acqDataProcess then .gnt else .dummyWait
  | .metaRead => if i.metaReadReady then .metaResp else .metaRead
  | .metaResp =>
    if i.metaRespValid then
      if i.metaResp.hit then
        if t.isWriteProcess then .dataWriteHit else .dataReadHit
      else if i.metaResp.tag.valid && i.metaResp.tag.dirty then .dataReadWb
      else .memReq
    else .metaResp
  | .dataReadHit => if i.dataReadReady then .dataRespHit else .dataReadHit
  | .dataRespHit => .gnt
  | .dataWriteHit => if !t.collectAcqData && i.dataWriteReady then .metaWriteHit else .dataWriteHit
  | .dataReadWb => if i.dataReadReady then .dataRespWb else .dataReadWb
  | .dataRespWb => if t.wbReadCount i && t.wbReadCnt == 3 then .dataRespWbDone else .dataRespWb
  | .dataRespWbDone => if t.wbDataCount i && t.wbDataCnt == 3 then .writeBack else .dataRespWbDone
  | .writeBack =>
    if !t.acqDataProcess && (t.memTagDataWriteCount i && t.memTagDataWriteCnt == 3) then
      .writeBackWaitB
    else .writeBack
  | .writeBackWaitB => if t.outGrantFire i then .memReq else .writeBackWaitB
  | .memReq => if !t.acqDataProcess && t.nrFinish i then .dataWriteRefill else .memReq
  | .dataWriteRefill =>
    if t.refillDataCount i && t.refillDataCnt == 3 then .metaWriteRefill else .dataWriteRefill
  | .metaWriteRefill =>
    if i.metaWriteReady then (if t.isWriteProcess then .dataWriteHit else .dataReadHit)
    else .metaWriteRefill
  | .metaWriteHit => if i.metaWriteReady then .gnt else .metaWriteHit
  | .gnt => if !t.acqDataProcess then .busy else .gnt
  | .busy => if !t.gntEnable && !t.acqDataProcess then .idle else .busy

/-- The tracker takes a transaction from the acquire channel; a release goes first. -/
def acceptAcquire : Bool := t.rdy && i.acquire.valid && !i.release.valid

/-- The tracker takes a transaction from the release channel. -/
def acceptRelease : Bool := t.rdy && i.release.valid

/-- Whether a built-in acquire of the type carries data to write. -/
def writesOf (a : AcquireType) : Bool := a.isBuiltInType && a.hasData

/-- The grant type that answers an acquire of the type. -/
def grantTypeOf : AcquireType → Option BuiltInGrant
  | .builtIn a => some a.getBuiltInGrantType
  | .custom => none

/-- The registers after a clock edge. -/
def next : Tracker g :=
  let a := i.acquire.bits
  { state := t.nextState i
    isRead :=
      if t.dataDone i then false
      else if t.acceptRelease i then false
      else if t.acceptAcquire i then a.aType.isBuiltInType || !a.aType.hasData
      else t.isRead
    isWrite :=
      if t.dataDone i then false
      else if t.acceptRelease i then true
      else if t.acceptAcquire i then writesOf a.aType
      else t.isWrite
    isAcq :=
      if t.dataDone i then false
      else if t.acceptAcquire i then true
      else t.isAcq
    isBuiltin :=
      if t.acceptRelease i then true
      else if t.acceptAcquire i then a.aType.isBuiltInType
      else t.isBuiltin
    tagOut :=
      if t.acceptRelease i then i.release.bits.id
      else if t.acceptAcquire i then a.id
      else t.tagOut
    addrOut :=
      if t.acceptRelease i then i.phyAddrRel
      else if t.acceptAcquire i then i.phyAddrAcq
      else t.addrOut
    gTypeOut :=
      if t.acceptRelease i then some .voluntaryAckType
      else if t.acceptAcquire i then grantTypeOf a.aType
      else t.gTypeOut
    cmdSent :=
      if t.rdy then false
      else if t.state == .writeBackWaitB && t.outGrantFire i then false
      else if t.outAcquireFire i then true
      else if t.dataDone i then false
      else t.cmdSent
    collectAcqData :=
      if t.rdy && (i.acquire.valid || i.release.valid) then writesOf a.aType || i.release.valid
      else if t.acqDataDone i then false
      else t.collectAcqData
    acqDataProcess :=
      if t.rdy && (i.acquire.valid || i.release.valid) then true
      else if t.dataDone i then false
      else t.acqDataProcess
    acqData :=
      if t.collectAcqData then
        Function.update t.acqData t.acqDataCnt (t.channelData a.data i.release.bits.data)
      else t.acqData
    acqDataCnt := if t.acqDataCount i then t.acqDataCnt + 1 else t.acqDataCnt
    acqReplMeta := if t.state == .metaResp && i.metaRespValid then i.metaResp.tag else t.acqReplMeta
    acqWayEn := if t.state == .metaResp && i.metaRespValid then i.metaResp.wayEn else t.acqWayEn
    memAcqDataRead :=
      if i.outGrantValid && (t.acqDataProcess && t.isRead) then
        Function.update t.memAcqDataRead t.nrCnt (removeTag i.outGrantData)
      else t.memAcqDataRead
    memTagDataRead :=
      if i.outGrantValid && t.memReceiveTag then
        Function.update t.memTagDataRead t.nrCnt (removeTag i.outGrantData)
      else t.memTagDataRead
    memTagDataWriteCnt :=
      if t.memTagDataWriteCount i then t.memTagDataWriteCnt + 1 else t.memTagDataWriteCnt
    isWriteProcess :=
      if t.state == .busy && !t.gntEnable && !t.acqDataProcess then false
      else if t.acceptRelease i then true
      else if t.acceptAcquire i then writesOf a.aType
      else t.isWriteProcess
    gntEnable :=
      if t.state == .gnt && !t.acqDataProcess then true
      else if t.gntEnable && (t.gntDataDone i || t.isWriteProcess) then false
      else t.gntEnable
    gntData := joinTags t.memAcqDataRead t.gntTag
    gntDataCnt := if t.gntDataCount i then t.gntDataCnt + 1 else t.gntDataCnt
    gntTag :=
      if t.state == .dataRespHit then
        (i.dataResp >>> ((rowOffset t.addrOut).val * 32)).setWidth (4 * 2 * 4)
      else t.gntTag
    wbData :=
      if (t.state == .dataRespWb || t.state == .dataRespWbDone) && i.dataRespValid then
        Function.update t.wbData t.wbDataCnt i.dataResp
      else t.wbData
    wbReadCnt := if t.wbReadCount i then t.wbReadCnt + 1 else t.wbReadCnt
    wbDataCnt := if t.wbDataCount i then t.wbDataCnt + 1 else t.wbDataCnt
    memTagDataWrite := t.wbData
    refillDataCnt := if t.refillDataCount i then t.refillDataCnt + 1 else t.refillDataCnt
    refillData := t.memTagDataRead
    readMultipleData :=
      if t.acceptRelease i then false
      else if t.acceptAcquire i then
        !a.aType.isBuiltInType || a.aType == .builtIn .getBlockType
      else t.readMultipleData
    nrCnt := if t.nrCount i then t.nrCnt + 1 else t.nrCnt }

/-- The registers after reset, the ones without a reset value holding those of `u`. -/
def reset (u : Tracker g) : Tracker g :=
  { u with
    state := .idle, isRead := false, isWrite := false, isAcq := false, isBuiltin := false
    cmdSent := false, collectAcqData := false, acqDataProcess := false, acqDataCnt := 0
    acqWayEn := fun _ => false, memTagDataWriteCnt := 0, isWriteProcess := false
    gntEnable := false, gntDataCnt := 0, wbReadCnt := 0, wbDataCnt := 0, refillDataCnt := 0
    readMultipleData := false, nrCnt := 0 }

end Tracker

end TaggedRiscv.TagCache
