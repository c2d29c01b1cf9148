import TaggedRiscv.Lib.Arbiter
import TaggedRiscv.Lib.Machine
import TaggedRiscv.TagCache.Arrays

/-!
# The tag cache (`TagCache`)

The trackers behind the request routers, with the arrays they share and the arbiters in front of
the arrays, the grant channel and the memory port. A beat goes to the tracker that handles its
transaction, or else to the first idle tracker; the router names a tracker even if there is none
of either.

The addresses of the requests are those after the address space conversion.
-/

namespace TaggedRiscv

open Sync TagCache

variable {n : ℕ} {g : Geometry}

/-- The registers of the tag cache. -/
structure TagCache (n : ℕ) (g : Geometry) where
  tracker : Fin n → Tracker g
  metaArr : MetaArray n g
  dataArr : DataArray n g
  grantArb : LockArb n
  metaReadArb : LockArb n
  metaWriteArb : LockArb n
  dataReadArb : LockArb n
  dataWriteArb : LockArb n
  outerArb : LockArb n

namespace TagCache

/-- The inputs of a cycle. The memory's answer names the tracker that asked. -/
structure CacheIn (n : ℕ) (g : Geometry) where
  acquire : Chan AcquireMsg
  release : Chan ReleaseMsg
  phyAddrAcq : ℕ
  phyAddrRel : ℕ
  grantReady : Bool
  outAcquireReady : Bool
  outGrant : Option (Fin n × Beat)
  replaceWay : Fin g.nWays

variable (c : TagCache n g) (i : CacheIn n g)

/-! ## Routing -/

/-- The tracker a beat of a transaction is routed to. -/
def handlerId (id : XactId) : ℕ :=
  if (List.finRange n).any fun k => (c.tracker k).isMatch id then
    priorityEncoder fun k => (c.tracker k).isMatch id
  else priorityEncoder fun k => (c.tracker k).rdy

/-- The acquire channel as a tracker sees it. -/
def acquireTo (k : Fin n) : Chan AcquireMsg :=
  { i.acquire with valid := i.acquire.valid && c.handlerId i.acquire.bits.id == k.val }

/-- The release channel as a tracker sees it. -/
def releaseTo (k : Fin n) : Chan ReleaseMsg :=
  { i.release with valid := i.release.valid && c.handlerId i.release.bits.id == k.val }

/-! ## Arbitration -/

/-- The trackers with a request to the memory. -/
def outValid (k : Fin n) : Bool :=
  (c.tracker k).outAcquireValid (c.acquireTo i k).valid (c.releaseTo i k).valid

/-- The request to the memory of a tracker. -/
def outBits (k : Fin n) : OutMsg :=
  (c.tracker k).outAcquireBits i.acquire.bits.data i.release.bits.data c.metaArr.resp.tag

/-- A request to the memory is one beat of several. -/
def isMultibeat : OutMsg → Bool
  | .putBlock _ _ _ => true
  | .getBlock _ _ => false

/-- The tracker whose request the memory takes. -/
def outServed : Option (Fin n) := c.outerArb.served (c.outValid i) i.outAcquireReady

/-- The tracker whose grant is taken. -/
def grantServed : Option (Fin n) :=
  c.grantArb.served (fun k => (c.tracker k).gntEnable) i.grantReady

/-- The tracker on the write port of the metadata array. -/
def metaWriter : Option (Fin n) :=
  c.metaWriteArb.chosen fun k => (c.tracker k).metaWriteValid

/-- The tracker on the read port of the metadata array. -/
def metaReader : Option (Fin n) :=
  c.metaReadArb.chosen fun k => (c.tracker k).metaReadValid

/-- The tracker on the write port of the data array. -/
def dataWriter : Option (Fin n) :=
  c.dataWriteArb.chosen fun k => (c.tracker k).dataWriteValid

/-- The tracker on the read port of the data array. -/
def dataReader : Option (Fin n) :=
  c.dataReadArb.chosen fun k => (c.tracker k).dataReadValid

def metaReadReady : Bool := !c.metaArr.rst && c.metaWriter.isNone

def dataReadReady : Bool := c.dataWriter.isNone

/-- What a tracker sees. -/
def trackerIn (k : Fin n) : TrackerIn g :=
  { acquire := c.acquireTo i k
    release := c.releaseTo i k
    phyAddrAcq := i.phyAddrAcq
    phyAddrRel := i.phyAddrRel
    grantReady := c.grantServed i == some k
    metaReadReady := c.metaReader == some k && c.metaReadReady
    metaWriteReady := c.metaWriter == some k && !c.metaArr.rst
    metaRespValid := c.metaArr.respValidFor k
    metaResp := c.metaArr.resp
    dataReadReady := c.dataReader == some k && c.dataReadReady
    dataWriteReady := c.dataWriter == some k
    dataRespValid := c.dataArr.respValidFor k
    dataResp := c.dataArr.resp
    outAcquireReady := c.outServed i == some k
    outGrantValid := i.outGrant.map (·.1) == some k
    outGrantData := (i.outGrant.map (·.2)).getD 0 }

@[simp] theorem trackerIn_acquire (k : Fin n) :
    (c.trackerIn i k).acquire = c.acquireTo i k := rfl

@[simp] theorem trackerIn_release (k : Fin n) :
    (c.trackerIn i k).release = c.releaseTo i k := rfl

/-- The cache takes the beat on the acquire channel. -/
def acquireReady : Bool :=
  ((List.finRange n).any (fun k => (c.tracker k).isMatch i.acquire.bits.id) ||
      (List.finRange n).any fun k => (c.tracker k).rdy) &&
    (List.finRange n).any fun k =>
      c.handlerId i.acquire.bits.id == k.val && (c.tracker k).acquireReady (c.trackerIn i k)

/-- The cache takes the beat on the release channel. -/
def releaseReady : Bool :=
  ((List.finRange n).any (fun k => (c.tracker k).isMatch i.release.bits.id) ||
      (List.finRange n).any fun k => (c.tracker k).rdy) &&
    (List.finRange n).any fun k =>
      c.handlerId i.release.bits.id == k.val && (c.tracker k).releaseReady (c.trackerIn i k)

/-! ## Requests to the arrays -/

/-- The read of the metadata array a tracker asks for. -/
def metaReadReq (k : Fin n) : MetaReadReq n g :=
  { id := k
    tag := addrToTag g (c.tracker k).addrOut false false
    idx := addrToIndex g (c.tracker k).addrOut }

/-- The write of the metadata array a tracker asks for. -/
def metaWriteReq (k : Fin n) : MetaWriteReq g :=
  { tag := (c.tracker k).metaWriteTag
    idx := addrToIndex g (c.tracker k).addrOut
    wayEn := (c.tracker k).acqWayEn }

/-- The read of the data array a tracker asks for. -/
def dataReadReq (k : Fin n) : DataReadReq n g :=
  { id := k
    idx := addrToIndex g (c.tracker k).addrOut
    row := (c.tracker k).dataReadRow
    wayEn := (c.tracker k).acqWayEn }

/-- The write of the data array a tracker asks for. -/
def dataWriteReq (k : Fin n) : DataWriteReq g :=
  { data := (c.tracker k).dataWriteBits
    idx := addrToIndex g (c.tracker k).addrOut
    row := (c.tracker k).dataWriteRow
    wayEn := (c.tracker k).acqWayEn
    wmask := (c.tracker k).dataWriteMask }

/-! ## The clock edge -/

/-- The tag cache after a clock edge. -/
def next : TagCache n g :=
  { tracker := fun k => (c.tracker k).next (c.trackerIn i k)
    metaArr :=
      c.metaArr.next (c.metaWriter.map c.metaWriteReq) (c.metaReader.map c.metaReadReq)
        i.replaceWay
    dataArr := c.dataArr.next (c.dataWriter.map c.dataWriteReq) (c.dataReader.map c.dataReadReq)
    grantArb :=
      c.grantArb.next 1 true (fun _ => true) (fun k => (c.tracker k).gntEnable) i.grantReady
    metaReadArb :=
      c.metaReadArb.next 1 false (fun _ => true) (fun k => (c.tracker k).metaReadValid)
        c.metaReadReady
    metaWriteArb :=
      c.metaWriteArb.next 1 false (fun _ => true) (fun k => (c.tracker k).metaWriteValid)
        (!c.metaArr.rst)
    dataReadArb :=
      c.dataReadArb.next 1 false (fun _ => true) (fun k => (c.tracker k).dataReadValid)
        c.dataReadReady
    dataWriteArb :=
      c.dataWriteArb.next 1 false (fun _ => true) (fun k => (c.tracker k).dataWriteValid) true
    outerArb :=
      c.outerArb.next 4 true (fun k => isMultibeat (c.outBits i k)) (c.outValid i)
        i.outAcquireReady }

theorem next_tracker (k : Fin n) :
    (c.next i).tracker k = (c.tracker k).next (c.trackerIn i k) := rfl

/-- The tag cache after reset; `u` holds the contents of what has no reset value. -/
def reset (u : TagCache n g) : TagCache n g :=
  { tracker := fun k => (u.tracker k).reset
    metaArr := { u.metaArr with rstCnt := 0, s1ClkEn := false, s2Valid := false }
    dataArr := { u.dataArr with rValid := false }
    grantArb := .init
    metaReadArb := .init
    metaWriteArb := .init
    dataReadArb := .init
    dataWriteArb := .init
    outerArb := .init }

/-! ## Concrete configurations -/

/-- The shipped cache: 32 sets of two ways. -/
def shipped : Geometry := ⟨5, 1⟩

/-- The tag cache with zeros in all its memories and registers. -/
def zero (n : ℕ) (g : Geometry) : TagCache n g :=
  let noMeta : Meta := ⟨false, false, false, 0⟩
  { tracker := fun _ =>
      { state := .idle, isRead := false, isWrite := false, isAcq := false, isBuiltin := false
        tagOut := ⟨0, 0⟩, addrOut := 0, gTypeOut := none, cmdSent := false
        collectAcqData := false, acqDataProcess := false, acqData := fun _ => 0, acqDataCnt := 0
        acqReplMeta := noMeta, acqWayEn := fun _ => false, memAcqDataRead := fun _ => 0
        memTagDataRead := fun _ => 0, memTagDataWriteCnt := 0, isWriteProcess := false
        gntEnable := false, gntData := fun _ => 0, gntDataCnt := 0, gntTag := 0
        wbData := fun _ => 0, wbReadCnt := 0, wbDataCnt := 0, memTagDataWrite := fun _ => 0
        refillDataCnt := 0, refillData := fun _ => 0, readMultipleData := false, nrCnt := 0 }
    metaArr :=
      { metaArray := fun _ _ => noMeta, rstCnt := 0, s1ClkEn := false, s1 := none
        s2Valid := false, s2Id := none, s2Hit := false, s2MatchWay := fun _ => false
        s2MatchMeta := noMeta, s2ReplaceWay := fun _ => false, s2ReplaceMeta := noMeta }
    dataArr := { array := fun _ _ _ _ => 0, rValid := false, rReq := none }
    grantArb := .init
    metaReadArb := .init
    metaWriteArb := .init
    dataReadArb := .init
    dataWriteArb := .init
    outerArb := .init }

end TagCache

end TaggedRiscv
