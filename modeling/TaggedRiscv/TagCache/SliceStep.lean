import TaggedRiscv.TagCache.SliceLookup

/-!
# A clock edge of a slice

The counters and the array reads rest outside the states that use them. With the
transaction's own data, the tag traffic and the lookup this is the invariant of a
slice, which every clock edge keeps until the tracker is idle again.
-/

namespace TaggedRiscv.TagCache

open Sync TagUtil Burst Tracker

variable {g : Geometry}

namespace Slice

variable {s : Slice g} {i : TrackerIn g} {way : Fin g.nWays} {store : ℕ → Fin 4 → Row}

section Rest

variable (hi : s.Inv store)

include hi

/-- The counter of the evicted line wraps around when the last beat is sent. -/
theorem Inv.memTagDataWriteCnt_next (h : s.nextState i ≠ .writeBack) :
    (s.toTracker.next i).memTagDataWriteCnt = 0 := by
  by_cases hst : s.state = .writeBack
  · have hc : s.memTagDataWriteCount i ∧ s.memTagDataWriteCnt = 3 := by
      simp only [nextState, hst] at h
      grind
    simp [Tracker.next, hc.1, hc.2]
  · have hc : s.memTagDataWriteCount i = false := by
      simp [memTagDataWriteCount, memSendTag, hst]
    simp [Tracker.next, hc, hi.rest.memTagDataWriteCnt hst]

/-- The counter of the rows read for a write back wraps around with the last row. -/
theorem Inv.wbReadCnt_next (h : s.nextState i ≠ .dataRespWb) :
    (s.toTracker.next i).wbReadCnt = 0 := by
  by_cases hst : s.state = .dataRespWb
  · have hc : s.wbReadCount i ∧ s.wbReadCnt = 3 := by
      simp only [nextState, hst] at h
      grind
    simp [Tracker.next, hc.1, hc.2]
  · have hc : s.wbReadCount i = false := by
      simp only [wbReadCount, dataReadValid]
      simp only [nextState] at h
      grind
    simp [Tracker.next, hc, hi.rest.wbReadCnt hst]

/-- The counter of the refilled rows wraps around with the last row. -/
theorem Inv.refillDataCnt_next (h : s.nextState i ≠ .dataWriteRefill) :
    (s.toTracker.next i).refillDataCnt = 0 := by
  by_cases hst : s.state = .dataWriteRefill
  · have hc : s.refillDataCount i ∧ s.refillDataCnt = 3 := by
      simp only [nextState, hst] at h
      grind
    simp [Tracker.next, hc.1, hc.2]
  · have hc : s.refillDataCount i = false := by
      simp [refillDataCount, hst]
    simp [Tracker.next, hc, hi.rest.refillDataCnt hst]

/-- The evicted line is not sent before the own data is done. -/
theorem Inv.unsent_next (hs : s.state ≠ .idle) (hp' : (s.toTracker.next i).acqDataProcess) :
    (s.toTracker.next i).memTagDataWriteCnt = 0 := by
  rw [acqDataProcess_next hs] at hp'
  have hp : s.acqDataProcess := by grind
  have hc : s.memTagDataWriteCount i = false := by simp [memTagDataWriteCount, memSendTag, hp]
  simp [Tracker.next, hc, hi.rest.unsent hp]

variable (he : s.Env i)

include he

/-- A row is received only while it is awaited. -/
theorem Inv.wbDataCnt_next (h : s.nextState i ∉ [.dataRespWb, .dataRespWbDone]) :
    (s.toTracker.next i).wbDataCnt = 0 := by
  by_cases hst : s.state ∈ [.dataRespWb, .dataRespWbDone]
  · have hc : s.wbDataCount i ∧ s.wbDataCnt = 3 := by
      simp only [List.mem_cons, List.not_mem_nil, or_false] at hst
      rcases hst with hst | hst <;>
        (simp only [nextState, hst] at h; grind)
    simp [Tracker.next, hc.1, hc.2]
  · have hc : s.wbDataCount i = false := by
      by_cases hh : s.state = .dataRespHit
      · simp [wbDataCount, hh]
      · have hnone := he.noDataResp (hi.rest.dataToken (by simp_all))
        simp [wbDataCount, hnone]
    simp [Tracker.next, hc, hi.rest.wbDataCnt hst]

/-- A tracker waits for each answer of the metadata array. -/
theorem Inv.metaToken_next (h : s.nextState i ≠ .metaResp) : (s.next i way).metaToken = .none := by
  cases htok : s.metaToken with
  | none =>
    have hr : (s.metaReadValid && i.metaReadReady) = false := by
      simp only [metaReadValid]
      simp only [nextState] at h
      grind
    simp [Slice.next, htok, hr]
  | asked =>
    -- the tracker cannot leave the state before the answer
    exfalso
    have hst : s.state = .metaResp := by
      by_contra hst
      simp [hi.rest.metaToken hst] at htok
    have hv : i.metaRespValid = false := by
      by_contra hv
      obtain ⟨r, hr⟩ := he.noMetaResp (by simpa using hv)
      simp [hr] at htok
    simp [nextState, hst, hv] at h
  | answered r => simp [Slice.next, htok]

omit hi he in
/-- A tracker waits for each answer of the data array. -/
theorem dataToken_next (h : s.nextState i ∉ [.dataRespHit, .dataRespWb, .dataRespWbDone]) :
    (s.next i way).dataToken = none := by
  have hr : (s.dataReadValid && i.dataReadReady) = false := by
    simp only [dataReadValid]
    simp only [nextState] at h
    grind
  simp [Slice.next, hr]

theorem Inv.rest_next (hs : s.state ≠ .idle) : (s.next i way).Rest :=
  { memTagDataWriteCnt := hi.memTagDataWriteCnt_next
    wbReadCnt := hi.wbReadCnt_next
    wbDataCnt := hi.wbDataCnt_next he
    refillDataCnt := hi.refillDataCnt_next
    unsent := hi.unsent_next hs
    metaToken := hi.metaToken_next he
    dataToken := dataToken_next }

/-- A clock edge keeps the invariant of a slice, as long as the tracker is busy. -/
theorem Inv.next (hn : s.nextState i ≠ .idle) : (s.next i way).Inv (s.nextStore i store) := by
  have hs : s.state ≠ .idle := fun hs => hi.tagStateAt hs
  refine
    { wf := hi.wf.next
      idx := ?_
      window := ?_
      own := hi.own_next he hs hn (hi.block_done he)
      tagPort := hi.tagPort_next he hs hn
      tagState := hi.tagState_next he hn
      rest := hi.rest_next he hs }
  · rw [next_idx, next_tracker, addrOut_next hs]
    exact hi.idx
  · rw [next_tracker, addrOut_next hs]
    exact hi.window

end Rest

/-! ## The ends of a transaction -/

/-- A slice whose tracker has just accepted a transaction of a block. -/
theorem Inv.of_opened {r : Request} {addr : ℕ} (ho : s.Opened r addr) (hwf : s.Wf)
    (hidx : s.idx = addrToIndex g addr) (hw : InWindow addr) (hread : r.isWrite = false → r.isRead)
    (hblock : r.readsBlock = !r.isWrite) (hport : s.port = .idle) (hcnt : s.acqDataCnt = 0)
    (hnr : s.nrCnt = 0) (hrest : s.Rest) (hok : s.Ok store none none) : s.Inv store := by
  refine
    { wf := hwf
      idx := by rw [hidx, ho.addrOut]
      window := by rw [ho.addrOut]; exact hw
      own := ?_
      tagPort := fun hp => by simp [ho.acqDataProcess] at hp
      tagState := by simpa only [TagState, ho.state] using hok
      rest := hrest }
  have hwp := ho.isWriteProcess
  refine
    { collecting := fun _ _ => ⟨ho.acqDataProcess, .inl ⟨hcnt, hport⟩⟩
      collected := fun h hc => ?_
      noBeats := fun h _ => ⟨hnr, ?_⟩
      reading := fun h _ => ⟨?_, ?_, .inl ⟨ho.cmdSent, hport, hnr⟩⟩
      read := fun _ hp => by simp [ho.acqDataProcess] at hp }
  · rw [ho.collectAcqData, ← hwp, h] at hc
    exact absurd hc (by simp)
  · rw [ho.readMultipleData, hblock, ← hwp, h]
    rfl
  · rw [ho.isRead]
    exact hread (hwp ▸ h)
  · rw [ho.readMultipleData, hblock, ← hwp, h]
    rfl

section Finish

variable (hi : s.Inv store) (he : s.Env i) (hs : s.state ≠ .idle)
variable (hn : s.nextState i = .idle)

include hi hs hn

omit hi in
/-- A transaction ends in the last state. -/
theorem busy_of_idle : s.state = .busy := by
  by_contra hb
  exact nextState_ne_idle hs hb hn

/-- At its end a transaction has its data and its answer. -/
theorem Inv.finished :
    s.acqDataProcess = false ∧ s.Ok store none none ∧ s.Answer store := by
  obtain ⟨hp, hok, ha, -⟩ := hi.tagStateAt (busy_of_idle hs hn)
  exact ⟨hp, hok, ha⟩

include he

/-- At the end of a transaction the set represents its tags. -/
theorem Inv.ok_of_idle : (s.next i way).Ok store none none := by
  have hb := busy_of_idle hs hn
  exact (hi.finished hs hn).2.1.same (hi.same_next_quiet he _ (by simp [hb]))

omit he in
variable (way) in
/-- At the end of a transaction nothing is under way. -/
theorem Inv.port_of_idle : (s.next i way).port = .idle ∧ (s.toTracker.next i).nrCnt = 0 := by
  have hb := busy_of_idle hs hn
  obtain ⟨hport, hnr, _⟩ := hi.port_quiet (i := i) way hs (hi.finished hs hn).1 (by simp [hb])
  exact ⟨hport, hnr⟩

end Finish

end Slice

end TaggedRiscv.TagCache
