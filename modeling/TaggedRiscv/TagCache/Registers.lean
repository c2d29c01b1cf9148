import TaggedRiscv.TagCache.Cache

/-!
# The registers of a tracker

What holds of a tracker's control registers whatever its inputs are: which registers
belong to a transaction's own data and are cleared with it, and by which state the
data of a write has been collected.
-/

namespace TaggedRiscv.TagCache

open Sync TagUtil Tracker

variable {n : ℕ} {g : Geometry}

/-- A transaction as it stands on the channel in the cycle a tracker accepts it. -/
inductive Request
  | acquire (m : AcquireMsg)
  | release (m : ReleaseMsg)
  deriving DecidableEq, Repr

namespace Request

/-- The client and transaction id of a request. -/
def id : Request → XactId
  | acquire m => m.id
  | release m => m.id

/-- The request writes a block. -/
def isWrite : Request → Bool
  | acquire m => writesOf m.aType
  | release _ => true

/-- The request counts as a read. Every built-in acquire does, a write among them. -/
def isRead : Request → Bool
  | acquire m => m.aType.isBuiltInType || !m.aType.hasData
  | release _ => false

/-- The request reads a whole block. -/
def readsBlock : Request → Bool
  | acquire m => !m.aType.isBuiltInType || m.aType == .builtIn .getBlockType
  | release _ => false

/-- The request came over the acquire channel. -/
def isAcquire : Request → Bool
  | acquire _ => true
  | release _ => false

end Request

namespace Tracker

variable {t : Tracker g} {i : TrackerIn g}

/-- The request a tracker accepts in a cycle. -/
def requestOf (t : Tracker g) (i : TrackerIn g) : Option Request :=
  if t.acceptRelease i then some (.release i.release.bits)
  else if t.acceptAcquire i then some (.acquire i.acquire.bits)
  else none

/-- The address of a request, on the channel it came over. -/
def addrOf (i : TrackerIn g) : Request → ℕ
  | .acquire _ => i.phyAddrAcq
  | .release _ => i.phyAddrRel

/-! ## The steps of the state machine -/

/-- Only from the last state does a tracker become idle. -/
theorem nextState_ne_idle (hi : t.state ≠ .idle) (hb : t.state ≠ .busy) :
    t.nextState i ≠ .idle := by
  unfold nextState
  grind

/-- The last state is entered from the one before it. -/
theorem nextState_ne_busy (hg : t.state ≠ .gnt) (hb : t.state ≠ .busy) : t.nextState i ≠ .busy := by
  unfold nextState
  grind

theorem requestOf_eq_none (hi : t.state ≠ .idle) : requestOf t i = none := by
  simp [requestOf, acceptRelease, acceptAcquire, rdy, hi]

/-- A tracker that is not idle keeps its transaction's id. -/
theorem tagOut_next (hi : t.state ≠ .idle) : (t.next i).tagOut = t.tagOut := by
  simp [next, acceptRelease, acceptAcquire, rdy, hi]

theorem addrOut_next (hi : t.state ≠ .idle) : (t.next i).addrOut = t.addrOut := by
  simp [next, acceptRelease, acceptAcquire, rdy, hi]

/-- A tracker that is not idle keeps the direction of its transaction until it is. -/
theorem isWriteProcess_next (hi : t.state ≠ .idle) (h : t.nextState i ≠ .idle) :
    (t.next i).isWriteProcess = t.isWriteProcess := by
  have hb : ¬ (t.state = .busy ∧ t.gntEnable = false ∧ t.acqDataProcess = false) := by
    rintro ⟨hs, he, hp⟩
    exact h (by simp [nextState, hs, he, hp])
  simp only [next, acceptRelease, acceptAcquire, rdy]
  grind

/-! ## The control registers -/

/-- The invariant of the control registers. The registers of the transaction's own
data are cleared when that data is done; the tags of a write have been collected
when they go into the cache. -/
structure Wf (t : Tracker g) : Prop where
  process_of_idle : t.state = .idle → t.acqDataProcess = false
  read_of_idle : t.state = .idle → t.isWriteProcess = false
  done : t.acqDataProcess = false → t.isRead = false ∧ t.isWrite = false ∧ t.isAcq = false
  isWrite_eq : t.acqDataProcess → t.isWrite = t.isWriteProcess
  write_of_collect : t.collectAcqData → t.isWriteProcess
  collected : t.state ∈ [.idle, .metaWriteHit, .gnt, .busy] → t.collectAcqData = false
  read_path : t.state ∈ [.dataReadHit, .dataRespHit] → t.isWriteProcess = false
  no_dummy : t.state ≠ .dummyWait
  granting : t.gntEnable → t.state = .busy

theorem wf_reset (u : Tracker g) : u.reset.Wf := by
  constructor <;> simp [reset]

theorem dataDone_eq_false (hp : t.acqDataProcess = false) : t.dataDone i = false := by
  simp [dataDone, hp]

/-- The states after which a write has been collected are entered from such states, or
when it is collected, or on the way of a read. -/
theorem nextState_collected (h : t.nextState i ∈ [.idle, .metaWriteHit, .gnt, .busy]) :
    t.state ∈ [.idle, .metaWriteHit, .gnt, .busy, .dataRespHit, .dummyWait] ∨
      t.collectAcqData = false := by
  unfold nextState at h
  grind

/-- The states of the way of a read are entered from each other or by a read. -/
theorem nextState_read_path (h : t.nextState i ∈ [.dataReadHit, .dataRespHit]) :
    t.state ∈ [.dataReadHit, .dataRespHit] ∨ t.isWriteProcess = false := by
  unfold nextState at h
  grind

theorem nextState_ne_dummyWait (h : t.state ≠ .dummyWait) : t.nextState i ≠ .dummyWait := by
  unfold nextState
  grind

/-- An idle tracker that accepts a request has its control registers set up for it. -/
theorem Wf.next_idle (h : t.Wf) (hs : t.state = .idle) : (t.next i).Wf := by
  have hp := h.process_of_idle hs
  have hwp := h.read_of_idle hs
  have hd := h.done hp
  have hc := h.collected (by simp [hs])
  have hg : t.gntEnable = false := by
    by_contra hg
    simp [h.granting (by simpa using hg)] at hs
  have hdone : t.dataDone i = false := dataDone_eq_false hp
  have hcount : t.acqDataDone i = false := by simp [acqDataDone, acqDataCount, hd]
  cases hr : i.release.valid <;> cases ha : i.acquire.valid <;>
    constructor <;>
    simp [next, nextState, acceptRelease, acceptAcquire, rdy, hs, hp, hwp, hd, hc, hg, hdone,
      hcount, hr, ha]

/-- A grant is offered until the tracker may leave the last state. -/
theorem Wf.granting_next (h : t.Wf) (hg : (t.next i).gntEnable) : t.nextState i = .busy := by
  by_cases hst : t.state = .gnt ∧ t.acqDataProcess = false
  · simp [nextState, hst]
  · have hold : t.gntEnable := by
      simp only [next] at hg
      grind
    simp [nextState, h.granting hold, hold]

/-- The registers are set up for a request. -/
structure Opened (t : Tracker g) (r : Request) (addr : ℕ) : Prop where
  state : t.state = .metaRead
  tagOut : t.tagOut = r.id
  addrOut : t.addrOut = addr
  isRead : t.isRead = r.isRead
  isWrite : t.isWrite = r.isWrite
  isAcq : t.isAcq = r.isAcquire
  isWriteProcess : t.isWriteProcess = r.isWrite
  collectAcqData : t.collectAcqData = r.isWrite
  acqDataProcess : t.acqDataProcess
  cmdSent : t.cmdSent = false
  readMultipleData : t.readMultipleData = r.readsBlock

/-- An idle tracker sets its registers up for the request it accepts. -/
theorem Wf.opened (h : t.Wf) (hs : t.state = .idle) {r : Request} (hr : t.requestOf i = some r) :
    (t.next i).Opened r (addrOf i r) := by
  have hp := h.process_of_idle hs
  have hd := h.done hp
  have hdone : t.dataDone i = false := dataDone_eq_false hp
  cases hrv : i.release.valid with
  | true =>
    obtain rfl : r = .release i.release.bits := by
      simpa [requestOf, acceptRelease, rdy, hs, hrv, eq_comm] using hr
    constructor <;>
      simp [next, nextState, acceptRelease, acceptAcquire, rdy, hs, hp, hd, hdone, hrv,
        addrOf, Request.id, Request.isRead, Request.isWrite, Request.isAcquire, Request.readsBlock]
  | false =>
    cases hav : i.acquire.valid with
    | false => simp [requestOf, acceptRelease, acceptAcquire, hrv, hav] at hr
    | true =>
      obtain rfl : r = .acquire i.acquire.bits := by
        simpa [requestOf, acceptRelease, acceptAcquire, rdy, hs, hrv, hav, eq_comm] using hr
      constructor <;>
        simp [next, nextState, acceptRelease, acceptAcquire, rdy, hs, hp, hd, hdone, hrv,
          hav, addrOf, Request.id, Request.isRead, Request.isWrite, Request.isAcquire,
          Request.readsBlock]

/-- An idle tracker that accepts nothing stays as it is. -/
theorem idle_next (hs : t.state = .idle) (hr : t.requestOf i = none) :
    (t.next i).state = .idle := by
  have hv : i.release.valid = false ∧ i.acquire.valid = false := by
    cases hrv : i.release.valid <;> cases hav : i.acquire.valid <;>
      simp_all [requestOf, acceptRelease, acceptAcquire, rdy]
  simp [next, nextState, hs, hv]

section NotIdle

variable (hs : t.state ≠ .idle)

include hs

theorem acqDataProcess_next :
    (t.next i).acqDataProcess = (t.acqDataProcess && !t.dataDone i) := by
  cases hd : t.dataDone i <;> simp [next, rdy, hs, hd]

theorem own_registers_next :
    (t.next i).isRead = (t.isRead && !t.dataDone i) ∧
      (t.next i).isWrite = (t.isWrite && !t.dataDone i) ∧
      (t.next i).isAcq = (t.isAcq && !t.dataDone i) := by
  cases hd : t.dataDone i <;> simp [next, acceptRelease, acceptAcquire, rdy, hs, hd]

theorem collectAcqData_next :
    (t.next i).collectAcqData = (t.collectAcqData && !t.acqDataDone i) := by
  cases hd : t.acqDataDone i <;> simp [next, rdy, hs, hd]

end NotIdle

theorem Wf.next (h : t.Wf) : (t.next i).Wf := by
  by_cases hs : t.state = .idle
  · exact h.next_idle hs
  obtain ⟨hr, hw, ha⟩ := own_registers_next (i := i) hs
  have hp := acqDataProcess_next (i := i) hs
  have hc := collectAcqData_next (i := i) hs
  -- the direction is forgotten only when the data is done and nothing is collected
  have hwp : t.acqDataProcess ∨ t.collectAcqData →
      (t.next i).isWriteProcess = t.isWriteProcess := by
    intro hor
    apply isWriteProcess_next hs
    intro hidle
    rcases hor with hor | hor
    · by_cases hb : t.state = .busy
      · simp [nextState, hb, hor] at hidle
      · exact nextState_ne_idle hs hb hidle
    · by_cases hb : t.state = .busy
      · simp [h.collected (by simp [hb])] at hor
      · exact nextState_ne_idle hs hb hidle
  refine ⟨fun hidle => ?_, fun hidle => ?_, fun hdone => ?_, fun hproc => ?_, fun hcol => ?_,
    fun hst => ?_, fun hst => ?_, nextState_ne_dummyWait h.no_dummy, h.granting_next⟩
  · by_cases hb : t.state = .busy
    · have : t.acqDataProcess = false := by
        change t.nextState i = .idle at hidle
        cases hpp : t.acqDataProcess <;> simp_all [nextState]
      simp [hp, this]
    · exact absurd hidle (nextState_ne_idle hs hb)
  · by_cases hb : t.state = .busy
    · change t.nextState i = .idle at hidle
      have : t.gntEnable = false ∧ t.acqDataProcess = false := by
        cases hpp : t.acqDataProcess <;> cases he : t.gntEnable <;> simp_all [nextState]
      simp [Tracker.next, hb, this]
    · exact absurd hidle (nextState_ne_idle hs hb)
  · cases hpp : t.acqDataProcess with
    | false => simp [hr, hw, ha, h.done hpp]
    | true => simp_all
  · obtain ⟨hpp, hd⟩ : t.acqDataProcess ∧ t.dataDone i = false := by simpa [hp] using hproc
    rw [hw, hd, hwp (.inl hpp), h.isWrite_eq hpp]
    simp
  · obtain ⟨hcc, _⟩ : t.collectAcqData ∧ t.acqDataDone i = false := by simpa [hc] using hcol
    rw [hwp (.inr hcc), h.write_of_collect hcc]
  · have hcc : t.collectAcqData = false := by
      rcases nextState_collected hst with hst' | hst'
      · by_contra hcc
        have hcol : t.collectAcqData := by simpa using hcc
        have hwrite := h.write_of_collect hcol
        have hcl := h.collected
        have hrd := h.read_path
        have hnd := h.no_dummy
        grind
      · exact hst'
    simp [hc, hcc]
  · rcases nextState_read_path hst with hst' | hst'
    · have := h.read_path hst'
      simp only [Tracker.next, acceptRelease, acceptAcquire, rdy]
      grind
    · simp only [Tracker.next, acceptRelease, acceptAcquire, rdy]
      grind

/-! ## Registers of a tracker that handles a transaction -/

theorem acqDataCnt_next (t : Tracker g) (i : TrackerIn g) :
    (t.next i).acqDataCnt = if t.acqDataCount i then t.acqDataCnt + 1 else t.acqDataCnt := rfl

theorem acqData_next (t : Tracker g) (i : TrackerIn g) :
    (t.next i).acqData =
      if t.collectAcqData then
        Function.update t.acqData t.acqDataCnt
          (t.channelData i.acquire.bits.data i.release.bits.data)
      else t.acqData := rfl

theorem nrCnt_next (t : Tracker g) (i : TrackerIn g) :
    (t.next i).nrCnt = if t.nrCount i then t.nrCnt + 1 else t.nrCnt := rfl

theorem readMultipleData_next (hs : t.state ≠ .idle) :
    (t.next i).readMultipleData = t.readMultipleData := by
  simp [next, acceptRelease, acceptAcquire, rdy, hs]

theorem cmdSent_next (hs : t.state ≠ .idle) :
    (t.next i).cmdSent =
      if t.state == .writeBackWaitB && t.outGrantFire i then false
      else if t.outAcquireFire i then true
      else if t.dataDone i then false
      else t.cmdSent := by
  simp [next, rdy, hs]

/-! ## Handshakes while the own data is on its way -/

section Process

variable (hp : t.acqDataProcess)

include hp

theorem memSendTag_eq_false : t.memSendTag = false := by simp [memSendTag, hp]

theorem memReceiveTag_eq_false : t.memReceiveTag = false := by simp [memReceiveTag, hp]

theorem outAcquireValid_process (a r : Bool) :
    t.outAcquireValid a r = (t.channelValid a r && t.isWrite || t.isRead && !t.cmdSent) := by
  simp [outAcquireValid, memSendTag_eq_false hp, memReceiveTag_eq_false hp, hp]

theorem outAcquireBits_process (a r : Beat) (m : Meta) :
    t.outAcquireBits a r m =
      if t.isWriteProcess then
        .putBlock t.tagOut t.addrOut (insertEmptyTag 4 (removeTag (t.channelData a r)))
      else .getBlock t.tagOut t.addrOut := by
  simp [outAcquireBits, memSendTag_eq_false hp, memReceiveTag_eq_false hp]

theorem nrCount_process : t.nrCount i = (t.outGrantFire i && (t.readMultipleData && t.isRead)) := by
  simp [nrCount, memReceiveTag_eq_false hp, hp]

/-- A write is done with the memory's answer. -/
theorem dataDone_write (hw : t.isWrite) (hm : t.readMultipleData = false) :
    t.dataDone i = t.outGrantFire i := by
  simp [dataDone, nrFinish, nrCount_process hp, hp, hw, hm]

/-- A read is done with the last beat. -/
theorem dataDone_read (hw : t.isWrite = false) (hr : t.isRead)
    (hm : t.readMultipleData) : t.dataDone i = (t.outGrantFire i && t.nrCnt == 3) := by
  simp [dataDone, nrFinish, nrCount_process hp, hp, hw, hm, hr]

end Process

/-- Without an answer of the memory the own data is not done. -/
theorem dataDone_of_not_fire (hf : t.outGrantFire i = false) : t.dataDone i = false := by
  simp [dataDone, nrFinish, nrCount, hf]

/-- While a tracker forwards a write, its channel shows only beats that it has yet to
collect, and the first beat of a `PutBlock` stays until it is sent. -/
def SeesOwn (t : Tracker g) (i : TrackerIn g) : Prop :=
  t.isWrite = true →
    (t.channelValid i.acquire.valid i.release.valid = true → t.collectAcqData = true) ∧
    (t.isRead = true → t.cmdSent = false →
      t.channelValid i.acquire.valid i.release.valid = true)
deriving Decidable

section Write

variable (ho : t.SeesOwn i) (hp : t.acqDataProcess) (hw : t.isWrite)

include ho hp hw

/-- What is sent for a write stands on its channel. -/
theorem channelValid_of_fire (hf : t.outAcquireFire i) :
    t.channelValid i.acquire.valid i.release.valid := by
  have hv : t.outAcquireValid i.acquire.valid i.release.valid := (Bool.and_eq_true _ _ ▸ hf).1
  rw [outAcquireValid_process hp, hw] at hv
  -- either the channel is valid, or it is the first beat of a `PutBlock`
  cases hc : t.channelValid i.acquire.valid i.release.valid with
  | true => rfl
  | false =>
    rw [hc, Bool.false_and, Bool.false_or, Bool.and_eq_true, Bool.not_eq_true'] at hv
    rw [← hc]
    exact (ho hw).2 hv.1 hv.2

theorem collect_of_fire (hf : t.outAcquireFire i) : t.collectAcqData :=
  (ho hw).1 (channelValid_of_fire ho hp hw hf)

/-- A beat counts when it is sent. -/
theorem acqDataCount_eq : t.acqDataCount i = t.outAcquireFire i := by
  cases hf : t.outAcquireFire i with
  | false => simp [acqDataCount, acquireReady, releaseReady, hf]
  | true =>
    have hv := channelValid_of_fire ho hp hw hf
    cases ha : t.isAcq <;>
      simpa [acqDataCount, acquireReady, releaseReady, hf, hp, hw, ha, channelValid] using hv

end Write

end Tracker

/-! ## Routing -/

section Routing

variable {c : TagCache n g} {i : CacheIn n g} {k : Fin n} {id : XactId}

/-- No two trackers handle transactions of one id. -/
def DistinctIds (c : TagCache n g) : Prop :=
  ∀ j k, (c.tracker j).state ≠ .idle → (c.tracker k).state ≠ .idle →
    (c.tracker j).tagOut = (c.tracker k).tagOut → j = k

theorem isMatch_iff {t : Tracker g} : t.isMatch id ↔ t.tagOut = id ∧ t.state ≠ .idle := by
  simp [isMatch, rdy]

/-- A beat of a transaction that is being handled goes to its tracker. -/
theorem handlerId_of_match (hd : DistinctIds c) (hm : (c.tracker k).isMatch id) :
    c.handlerId id = k := by
  have hany : (List.finRange n).any (fun j => (c.tracker j).isMatch id) = true :=
    List.any_eq_true.2 ⟨k, List.mem_finRange k, hm⟩
  obtain ⟨j, hj, he⟩ := priorityEncoder_spec (v := fun j => (c.tracker j).isMatch id) ⟨k, hm⟩
  rw [handlerId, if_pos hany, he]
  rw [isMatch_iff] at hj hm
  rw [hd j k hj.2 hm.2 (hj.1.trans hm.1.symm)]

/-- The tracker that handles a transaction takes its beats for the cache. -/
theorem acquireReady_of_match (hd : DistinctIds c) (hm : (c.tracker k).isMatch i.acquire.bits.id) :
    c.acquireReady i = (c.tracker k).acquireReady (c.trackerIn i k) := by
  have hany : (List.finRange n).any (fun j => (c.tracker j).isMatch i.acquire.bits.id) = true :=
    List.any_eq_true.2 ⟨k, List.mem_finRange k, hm⟩
  rw [acquireReady, hany, handlerId_of_match hd hm, any_finRange_select]
  simp

theorem releaseReady_of_match (hd : DistinctIds c) (hm : (c.tracker k).isMatch i.release.bits.id) :
    c.releaseReady i = (c.tracker k).releaseReady (c.trackerIn i k) := by
  have hany : (List.finRange n).any (fun j => (c.tracker j).isMatch i.release.bits.id) = true :=
    List.any_eq_true.2 ⟨k, List.mem_finRange k, hm⟩
  rw [releaseReady, hany, handlerId_of_match hd hm, any_finRange_select]
  simp

/-- A beat is routed to an idle tracker only if nobody handles its transaction. -/
theorem handlerId_of_idle (hk : c.handlerId id = k) (hs : (c.tracker k).state = .idle) :
    (∀ j, (c.tracker j).isMatch id = false) ∧
      priorityEncoder (fun j => (c.tracker j).rdy) = k := by
  unfold handlerId at hk
  split_ifs at hk with hany
  · obtain ⟨j, _, hj⟩ := List.any_eq_true.1 hany
    obtain ⟨j', hj', he⟩ := priorityEncoder_spec (v := fun j => (c.tracker j).isMatch id) ⟨j, hj⟩
    rw [he] at hk
    rw [Fin.ext hk, isMatch_iff] at hj'
    exact absurd hs hj'.2
  · refine ⟨fun j => ?_, hk⟩
    by_contra hj
    exact hany (List.any_eq_true.2 ⟨j, List.mem_finRange j, by simpa using hj⟩)

/-- The transaction an idle tracker accepts was routed to it. -/
theorem handlerId_of_accept (hs : (c.tracker k).state = .idle)
    (hn : ((c.next i).tracker k).state ≠ .idle) :
    c.handlerId ((c.next i).tracker k).tagOut = k := by
  cases hr : (c.releaseTo i k).valid with
  | true =>
    have hid : ((c.next i).tracker k).tagOut = i.release.bits.id := by
      change ((c.tracker k).next (c.trackerIn i k)).tagOut = _
      simp only [Tracker.next, acceptRelease, rdy, trackerIn_release, hs, hr]
      rfl
    rw [hid]
    simp only [releaseTo, Bool.and_eq_true, beq_iff_eq] at hr
    exact hr.2
  | false =>
    have ha : (c.acquireTo i k).valid := by
      by_contra ha
      apply hn
      change (c.tracker k).nextState (c.trackerIn i k) = .idle
      simp [nextState, hs, hr, ha]
    have hid : ((c.next i).tracker k).tagOut = i.acquire.bits.id := by
      change ((c.tracker k).next (c.trackerIn i k)).tagOut = _
      simp only [Tracker.next, acceptRelease, acceptAcquire, rdy,
        trackerIn_release, trackerIn_acquire, hs, hr, ha]
      rfl
    rw [hid]
    simp only [acquireTo, Bool.and_eq_true, beq_iff_eq] at ha
    exact ha.2

/-- An id that a tracker keeps is not accepted by another one. -/
theorem ne_accepted_id {j k : Fin n} (hj : (c.tracker j).state ≠ .idle)
    (hk : (c.tracker k).state = .idle) (hn : ((c.next i).tracker k).state ≠ .idle) :
    (c.tracker j).tagOut ≠ ((c.next i).tracker k).tagOut := by
  intro he
  have hno := (handlerId_of_idle (handlerId_of_accept hk hn) hk).1 j
  rw [← he] at hno
  exact absurd (isMatch_iff.2 ⟨rfl, hj⟩) (by simp [hno])

/-- At most one tracker accepts a transaction in a cycle: the first idle one. -/
theorem accept_unique {j k : Fin n} (hj : (c.tracker j).state = .idle)
    (hjn : ((c.next i).tracker j).state ≠ .idle) (hk : (c.tracker k).state = .idle)
    (hkn : ((c.next i).tracker k).state ≠ .idle) : j = k := by
  have h1 := (handlerId_of_idle (handlerId_of_accept hj hjn) hj).2
  have h2 := (handlerId_of_idle (handlerId_of_accept hk hkn) hk).2
  exact Fin.ext (h1.symm.trans h2)

theorem distinct_ids_next (hd : DistinctIds c) : DistinctIds (c.next i) := by
  intro j k hj hk he
  have hkeep : ∀ m, (c.tracker m).state ≠ .idle →
      ((c.next i).tracker m).tagOut = (c.tracker m).tagOut :=
    fun m hm => tagOut_next hm
  by_cases hj0 : (c.tracker j).state = .idle <;> by_cases hk0 : (c.tracker k).state = .idle
  · exact accept_unique hj0 hj hk0 hk
  · rw [hkeep k hk0] at he
    exact absurd he.symm (ne_accepted_id hk0 hj0 hj)
  · rw [hkeep j hj0] at he
    exact absurd he (ne_accepted_id hj0 hk0 hk)
  · rw [hkeep j hj0, hkeep k hk0] at he
    exact hd j k hj0 hk0 he

end Routing

end TaggedRiscv.TagCache
