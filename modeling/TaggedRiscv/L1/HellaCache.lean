import TaggedRiscv.L1.Units

/-!
# The L1 data cache (`HellaCache`)

The pipeline of the cache, its metadata array, the reservation of load-reserved and
store-conditional, and how pipeline, miss handlers, probe unit and write-back unit share the
arrays and the release channel. The data path is left out: what happens to data does not
influence what is modelled here. The TLB, the IO space with its miss handler, the error
correction and the replacement policy are inputs.
-/

namespace TaggedRiscv.L1

open Sync Mesi

variable (p : L1Params)

/-- An access of the core. -/
structure CoreReq where
  addr : BlockAddr p
  cmd : MemCmd
  phys : Bool
  deriving DecidableEq

/-- The registers of the cache. -/
structure HellaCache where
  s1Valid : Bool
  s1Req : CoreReq p
  s1Replay : Bool
  s1ClkEn : Bool
  s2Valid : Bool
  s2Req : CoreReq p
  s2ReplayReg : Bool
  s3Valid : Bool
  s3Req : CoreReq p
  tagArr : BitVec p.idxBits → Fin p.nWays → L1Metadata p
  /-- The address of the synchronous read of the metadata array. -/
  tagRaddr : BitVec p.idxBits
  rstCnt : ℕ
  s2TagMatchWay : Fin p.nWays → Bool
  s2Coh : Fin p.nWays → ClientState
  s2ReplacedWay : Fin p.nWays
  s2ReplMeta : Fin p.nWays → L1Metadata p
  lrscCount : ℕ
  lrscAddr : BlockAddr p
  s2NackHit : Bool
  s2RecycleNext : Bool
  blockMiss : Bool
  prober : ProbeUnit p
  wb : WritebackUnit p
  mshrs : MSHRFile p
  releaseArb : PriorityLock 2

/-- The inputs of a cycle. `kill` takes back the access that is in the first stage. -/
structure CacheIn where
  cpuReq : Option (CoreReq p)
  kill : Bool
  invalidateLr : Bool
  dtlbReady : Bool
  dtlbMiss : Bool
  /-- The tag of the physical address. -/
  dtlbTag : BitVec p.tagBits
  isIO : Bool
  iomshrReady : Bool
  ioReplay : Option (CoreReq p)
  dataCorrectable : Bool
  replacerWay : Fin p.nWays
  acquireReady : Bool
  releaseReady : Bool
  grant : Option (L1Grant p)
  probe : Option (L1Probe p)

variable {p}

namespace HellaCache

variable (s : HellaCache p) (i : CacheIn p)

/-! ## The first stage -/

/-- The metadata array is being cleared. -/
def rst : Bool := decide (s.rstCnt < p.nSets)

/-- The request goes on to stage 2. -/
def s1ValidMasked : Bool := s.s1Valid && !i.kill

/-- The physical address; the index is not translated. -/
def s1Addr : BlockAddr p :=
  if s.s1Req.phys then s.s1Req.addr else ⟨i.dtlbTag, s.s1Req.addr.idx⟩

/-- The metadata of a way. -/
def metaResp (w : Fin p.nWays) : L1Metadata p := s.tagArr s.tagRaddr w

/-- The entry is valid and has the tag. -/
def entryMatch (e : L1Metadata p) (tag : BitVec p.tagBits) : Bool :=
  e.tag == tag && e.coh.isValid

/-- The way holds the block. -/
def s1TagMatchWay (w : Fin p.nWays) : Bool := entryMatch (s.metaResp w) (s.s1Addr i).tag

/-- The request reads, writes or prefetches. -/
def s1ReadWrite : Bool :=
  s.s1Req.cmd.isRead || s.s1Req.cmd.isWrite || s.s1Req.cmd.isPrefetch

/-- Nacked: the TLB misses, or the set is being probed. -/
def s1Nack : Bool :=
  s.s1ValidMasked i && s.s1ReadWrite && !s.s1Req.phys && i.dtlbMiss ||
    s.s1Req.addr.idx == s.prober.req.addr.idx && !s.prober.reqReady

/-! ## The second stage -/

/-- A replay is in stage 2. -/
def s2Replay : Bool := s.s2ReplayReg && s.s2Req.cmd != .NOP

/-- Some way holds the block. -/
def s2TagMatch : Bool := (List.finRange p.nWays).any s.s2TagMatchWay

/-- The permission of that way. -/
def s2HitState : ClientState :=
  .ofCode (mux1H s.s2TagMatchWay fun w => (s.s2Coh w).code)

/-- A hit, which leaves the permission as it is. -/
def s2Hit : Bool :=
  s.s2TagMatch && s.s2HitState.isHit s.s2Req.cmd &&
    s.s2HitState == s.s2HitState.onHit s.s2Req.cmd

/-- The miss that would be handed over. -/
def mshrReq : MSHRReq p :=
  { addr := s.s2Req.addr
    cmd := s.s2Req.cmd
    tagMatch := s.s2TagMatch
    oldMeta :=
      if s.s2TagMatch then ⟨(s.s2ReplMeta s.s2ReplacedWay).tag, s.s2HitState⟩
      else s.s2ReplMeta s.s2ReplacedWay
    wayEn := if s.s2TagMatch then s.s2TagMatchWay else uintToOH s.s2ReplacedWay
    sdqId := 0 }

/-- A hit in a set a handler works on. -/
def s2NackVictim : Bool := s.s2Hit && s.mshrs.secondaryMiss s.mshrReq

/-- A miss that no handler takes. -/
def s2NackMiss : Bool := !i.isIO && !s.s2Hit && !s.mshrs.reqReady s.mshrReq

/-- The request must be sent again. -/
def s2Nack : Bool :=
  s.s2NackHit || s.s2NackVictim || s.s2NackMiss i || i.isIO && !i.iomshrReady

/-- The request is carried out. -/
def s2ValidMasked : Bool := s.s2Valid && !s.s2Nack i

/-- The miss goes to the handlers. -/
def mshrReqValid : Bool :=
  s.s2ValidMasked i && !s.s2Hit && !i.isIO &&
    (s.s2Req.cmd.isPrefetch || s.s2Req.cmd.isRead || s.s2Req.cmd.isWrite) && !s.s2NackHit

/-- An access is done. Replays are not looked up again. -/
def s2Done : Bool := s.s2ValidMasked i && s.s2Hit || s.s2Replay

/-- A load that reserves. -/
def s2Lr : Bool := s.s2Req.cmd == .XLR

/-- A conditional store. -/
def s2Sc : Bool := s.s2Req.cmd == .XSC

/-- The reservation counts. -/
def lrscValid : Bool := s.lrscCount != 0

/-- A conditional store without its reservation. -/
def s2ScFail : Bool := s.s2Sc && !(s.lrscValid && s.lrscAddr == s.s2Req.addr)

/-- The word must be corrected. -/
def s2RecycleEcc : Bool := (s.s2Valid || s.s2Replay) && s.s2Hit && i.dataCorrectable

/-- The request goes through the pipeline again. -/
def s2Recycle : Bool := s.s2RecycleEcc i || s.s2RecycleNext

/-! ## Sharing -/

/-- Refills wait for stores. -/
def grantReady (g : L1Grant p) : Bool := !s.s3Valid || !g.hasData

/-- The grant that is accepted. -/
def grantFire : Option (L1Grant p) := i.grant.filter s.grantReady

/-- The data array can be read. -/
def readOutReady : Bool := i.grant.all s.grantReady

/-- A replay may read data. -/
def replayReady : Bool := s.readOutReady i && !s.s2Recycle i

/-- The writeback unit may. -/
def wbDataReady : Bool := s.replayReady i && s.mshrs.replaySel.isNone

/-- The core may. -/
def cpuDataReady : Bool := s.wbDataReady i && !s.wb.fire

/-- Metadata are written. -/
def metaWriteBusy : Bool := s.mshrs.metaWriteSel.isSome || s.prober.metaWriteValid

/-- The metadata array can be read. -/
def metaReadOutReady : Bool := !s.rst && !s.metaWriteBusy

/-- A handler may read metadata. -/
def mshrMetaReadReady : Bool := s.metaReadOutReady && !s.s2Recycle i

/-- A replay of I/O may. -/
def ioMetaReadReady : Bool := s.mshrMetaReadReady i && s.mshrs.metaReadSel.isNone

/-- The prober may. -/
def proberMetaReadReady : Bool := s.ioMetaReadReady i && i.ioReplay.isNone

/-- The writeback unit may. -/
def wbMetaReadReady : Bool := s.proberMetaReadReady i && !s.prober.metaReadValid

/-- The core may. -/
def cpuMetaReadReady : Bool := s.wbMetaReadReady i && !s.wb.fire

/-- A request of the core is accepted. -/
def cpuReady (r : CoreReq p) : Bool :=
  (i.dtlbReady || r.phys) && s.cpuMetaReadReady i && s.cpuDataReady i && !s.blockMiss

/-- The access that is accepted. -/
def cpuFire : Option (CoreReq p) := i.cpuReq.filter (s.cpuReady i)

/-- The set that is read in the metadata array, by priority. -/
def metaReadIdx : Option (BitVec p.idxBits) :=
  if s.s2Recycle i then some s.s2Req.addr.idx
  else if let some k := s.mshrs.metaReadSel then some (s.mshrs.mshr k).req.addr.idx
  else if let some r := i.ioReplay then some r.addr.idx
  else if s.prober.metaReadValid then some s.prober.req.addr.idx
  else if s.wb.fire then some s.wb.req.addr.idx
  else i.cpuReq.map fun r => r.addr.idx

/-- The replay on the way into the pipeline. -/
def replayReq : Option (CoreReq p) :=
  s.mshrs.replaySel.map fun k =>
    { addr := (s.mshrs.mshr k).req.addr
      cmd := (s.mshrs.replayCmd (s.mshrMetaReadReady i)).getD .NOP
      phys := true }

/-- The request register of the first stage. -/
def s1ReqNext : CoreReq p :=
  if s.s2Recycle i then s.s2Req
  else if let some r := s.replayReq i then r
  else if let some r := i.ioReplay then r
  else
    let r := i.cpuReq.getD s.s1Req
    if s.prober.metaReadValid then { r with addr := s.prober.req.addr, phys := true }
    else if s.wb.fire then { r with addr := s.wb.req.addr, phys := true }
    else r

/-! ## Outer messages -/

local instance neZeroReleases : NeZero 2 := ⟨by decide⟩

/-- Which units have a release. -/
def releaseValid (j : Fin 2) : Bool := if j = 0 then s.wb.releaseValid else s.prober.repValid

/-- Their releases. -/
def releaseOf (j : Fin 2) : L1Release p := if j = 0 then s.wb.releaseBits else s.prober.reply

/-- Which release is sent. -/
def releaseReady (j : Fin 2) : Bool := s.releaseArb.ready s.releaseValid i.releaseReady j

/-- The beat of a release that is accepted. -/
def releaseFire : Option (L1Release p) :=
  if s.wb.releaseValid && s.releaseReady i 0 then some s.wb.releaseBits
  else if s.prober.repValid && s.releaseReady i 1 then some s.prober.reply
  else none

/-- The acquire that is accepted. -/
def acquireFire : Option (L1Acquire p) :=
  if i.acquireReady then s.mshrs.memReqSel.map fun k => (s.mshrs.mshr k).memReqBits k else none

/-- The probe that is accepted; none while there is a reservation. -/
def probeFire : Option (L1Probe p) :=
  if s.prober.reqReady && !s.lrscValid then i.probe else none

/-- The write-back of a miss handler that is accepted. -/
def mshrWbFire : Option (WritebackReq p) :=
  if s.wb.reqReady && !s.prober.wbReqValid then
    s.mshrs.wbReqSel.map fun k => (s.mshrs.mshr k).wbReqBits k
  else none

/-! ## The clock edge -/

/-- The inputs of the prober. -/
def proberIn : ProbeIn p :=
  { req := s.probeFire i
    repReady := s.releaseReady i 1
    metaReadReady := s.proberMetaReadReady i
    metaWriteReady := !s.rst && s.mshrs.metaWriteSel.isNone
    wbReqReady := s.wb.reqReady
    wayEn := s.s2TagMatchWay
    mshrRdy := s.mshrs.probeRdy s.mshrReq
    blockState := s.s2HitState }

/-- The inputs of the writeback unit. -/
def wbIn : WritebackIn p :=
  { req := if s.prober.wbReqValid then some s.prober.wbReqBits else s.mshrWbFire
    metaReadReady := s.wbMetaReadReady i
    dataReqReady := s.wbDataReady i
    releaseReady := s.releaseReady i 0 }

/-- The inputs of the handlers. -/
def mshrsIn : MSHRFileIn p :=
  { reqValid := s.mshrReqValid i
    req := s.mshrReq
    memReqReady := i.acquireReady
    metaReadReady := s.mshrMetaReadReady i
    metaWriteReady := !s.rst
    replayReady := s.replayReady i
    wbReqReady := s.wb.reqReady && !s.prober.wbReqValid
    memGrant := s.grantFire i }

/-- The write to the metadata array. Writes wait while the array is cleared. -/
def metaWrite : Option (L1MetaWriteReq p) :=
  if let some k := s.mshrs.metaWriteSel then some (s.mshrs.mshr k).metaWriteBits
  else if s.prober.metaWriteValid then some s.prober.metaWriteBits
  else none

/-- The metadata after a cycle. -/
def tagArrNext (idx : BitVec p.idxBits) (w : Fin p.nWays) : L1Metadata p :=
  if s.rst then
    if idx.toNat = s.rstCnt then ⟨0, clientInvalid⟩ else s.tagArr idx w
  else
    match s.metaWrite with
    | some m => if idx = m.idx ∧ m.wayEn w = true then m.data else s.tagArr idx w
    | none => s.tagArr idx w

/-- The count of the reservation. A load-reserved does not restart a count that runs. -/
def lrscCountNext : ℕ :=
  if i.invalidateLr then 0
  else if s.s2Done i && s.s2Sc then 0
  else if s.s2Done i && s.s2Lr && !s.lrscValid then p.lrscCycles - 1
  else s.lrscCount - 1

/-- The registers after a cycle. -/
def next : HellaCache p :=
  { s1Valid := (s.cpuFire i).isSome
    s1Req := s.s1ReqNext i
    s1Replay := s.mshrs.replaySel.isSome && s.replayReady i
    s1ClkEn := (s.metaReadIdx i).isSome
    s2Valid := s.s1ValidMasked i
    s2Req := if s.s1ClkEn then ⟨s.s1Addr i, s.s1Req.cmd, s.s1Req.phys⟩ else s.s2Req
    s2ReplayReg := s.s1Replay
    s3Valid := s.s2Done i && !s.s2ScFail && s.s2Req.cmd.isWrite
    s3Req :=
      if (s.s2Valid || s.s2Replay) && (s.s2Req.cmd.isWrite || i.dataCorrectable) then s.s2Req
      else s.s3Req
    tagArr := s.tagArrNext
    tagRaddr := (s.metaReadIdx i).getD s.tagRaddr
    rstCnt := if s.rst then s.rstCnt + 1 else s.rstCnt
    s2TagMatchWay := if s.s1ClkEn then s.s1TagMatchWay i else s.s2TagMatchWay
    s2Coh := if s.s1ClkEn then fun w => (s.metaResp w).coh else s.s2Coh
    s2ReplacedWay := if s.s1ClkEn then i.replacerWay else s.s2ReplacedWay
    s2ReplMeta :=
      if s.s1ClkEn then Function.update s.s2ReplMeta i.replacerWay (s.metaResp i.replacerWay)
      else s.s2ReplMeta
    lrscCount := s.lrscCountNext i
    lrscAddr := if s.s2Done i && s.s2Lr then s.s2Req.addr else s.lrscAddr
    s2NackHit := if s.s1Valid || s.s1Replay then s.s1Nack i else s.s2NackHit
    s2RecycleNext := if s.s1Valid || s.s1Replay then s.s2RecycleEcc i else s.s2RecycleNext
    blockMiss := (s.s2Valid || s.blockMiss) && s.s2NackMiss i
    prober := s.prober.next (s.proberIn i)
    wb := s.wb.next (s.wbIn i)
    mshrs := s.mshrs.next (s.mshrsIn i)
    releaseArb := s.releaseArb.next s.releaseValid p.outerDataBeats
      (fun j => (s.releaseOf j).hasMultibeatData) i.releaseReady }

/-- The registers after reset; the ones without a reset value hold those of `u`. -/
def reset (u : HellaCache p) : HellaCache p :=
  { u with
    s1Valid := false
    s1Replay := false
    s2Valid := false
    s2ReplayReg := false
    s3Valid := false
    rstCnt := 0
    lrscCount := 0
    s2RecycleNext := false
    blockMiss := false
    prober := { u.prober with state := .invalid }
    wb := { u.wb with
      active := false, r1DataReqFired := false, r2DataReqFired := false, dataReqCnt := 0
      bufV := 0, beatCnt := 0 }
    mshrs :=
      { mshr := fun k => { u.mshrs.mshr k with
          state := .invalid, newCohState := clientInvalid, refillCnt := 0, rpq := []
          metaHazard := 0 }
        sdqVal := fun _ => false }
    releaseArb := ⟨false, 1, 0⟩ }

end HellaCache

end TaggedRiscv.L1
