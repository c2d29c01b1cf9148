import TaggedRiscv.TagCache.Slice

/-!
# The transaction's own data

The part of a slice that forwards the data of a write to the memory or fetches the
data of a read, while the lookup of the tags goes on beside it. It moves by the
handshakes with the memory only.
-/

namespace TaggedRiscv.TagCache

open Sync TagUtil Burst Tracker Function

variable {g : Geometry}

namespace Slice

variable {s : Slice g} {i : TrackerIn g} {way : Fin g.nWays} {store : ℕ → Fin 4 → Row}

@[simp] theorem next_tracker : (s.next i way).toTracker = s.toTracker.next i := rfl

@[simp] theorem next_idx : (s.next i way).idx = s.idx := rfl

theorem next_port :
    (s.next i way).port =
      if s.outAcquireFire i then s.port.request (s.msg i)
      else if s.outGrantFire i then s.port.answer
      else s.port := rfl

theorem next_block :
    (s.next i way).block = blockAfter s.addrOut s.block (s.stored i) := rfl

/-- Nothing is stored in a cycle without a request. -/
theorem stored_eq_none (hf : s.outAcquireFire i = false) : s.stored i = none := by
  simp [stored, hf]

/-- The memory does not answer while nothing is due. -/
theorem Env.no_answer (he : s.Env i) (hd : s.port.due = false) : s.outGrantFire i = false := by
  cases hv : i.outGrantValid with
  | false => simp [outGrantFire, hv]
  | true => exact absurd (he.due hv) (by simp [hd])

/-- Where own data is under way, the cycle tells whether it is done. -/
theorem dataDone_eq (hs : s.state ≠ .idle) (hp : s.acqDataProcess) :
    s.dataDone i = !(s.toTracker.next i).acqDataProcess := by
  simp [acqDataProcess_next hs, hp]

theorem acqDataProcess_kept (hs : s.state ≠ .idle) (hp : s.acqDataProcess)
    (hg : s.outGrantFire i = false) : (s.toTracker.next i).acqDataProcess := by
  simp [acqDataProcess_next hs, hp, dataDone_of_not_fire hg]

/-! ## Writes -/

section Write

variable (hi : s.Inv store) (he : s.Env i) (hs : s.state ≠ .idle)
variable (hp : s.acqDataProcess) (hwp : s.isWriteProcess)

theorem Inv.isWrite (hi : s.Inv store) (hp : s.acqDataProcess)
    (hwp : s.isWriteProcess) : s.isWrite :=
  (hi.wf.isWrite_eq hp).trans hwp

include hi hwp

/-- While beats are collected the memory has nothing to answer. -/
theorem Inv.no_answer_collecting (he : s.Env i) (hc : s.collectAcqData) :
    s.outGrantFire i = false := by
  rcases (hi.own.collecting hwp hc).2 with ⟨_, hport⟩ | ⟨_, _, buf, hport, _⟩ <;>
    exact he.no_answer (by simp [hport, Port.due])

include hp

variable (way) in
/-- The memory's side after a beat of a write. -/
theorem Inv.port_beat (hc : s.collectAcqData) (hf : s.outAcquireFire i) :
    ∃ buf, Filled (s.acqDataCnt) buf (fun j => removeTag (s.acqData j)) ∧
      (s.next i way).port =
        (if s.acqDataCnt = 3 then .ack
        else .put s.addrOut (s.acqDataCnt + 1)
          (update buf s.acqDataCnt (removeTag
            (s.channelData i.acquire.bits.data i.release.bits.data)))) ∧
      (s.next i way).block =
        (if s.acqDataCnt = 3 then
          update buf s.acqDataCnt (removeTag
            (s.channelData i.acquire.bits.data i.release.bits.data))
        else s.block) := by
  have hmsg : s.msg i = .putBlock s.tagOut s.addrOut
      (insertEmptyTag 4 (removeTag
        (s.channelData i.acquire.bits.data i.release.bits.data))) := by
    rw [msg, outAcquireBits_process hp, hwp, if_pos rfl]
  rcases (hi.own.collecting hwp hc).2 with ⟨h0, hport⟩ | ⟨h0, _, buf, hport, hfill⟩
  · refine ⟨fun _ => 0, h0 ▸ filled_zero, ?_, ?_⟩
    · simp [next_port, hf, hmsg, hport, Port.request, h0, removeTag_insertEmptyTag]
    · simp [next_block, blockAfter, stored, hf, hmsg, hport, Port.written, h0]
  · refine ⟨buf, hfill, ?_, ?_⟩
    · simp [next_port, hf, hmsg, hport, Port.request, removeTag_insertEmptyTag]
    · rw [next_block, stored, hf, hmsg, hport]
      by_cases h3 : s.acqDataCnt = 3 <;>
        simp [blockAfter, Port.written, h3, removeTag_insertEmptyTag]

include hs

/-- A write receives no data. -/
theorem Inv.noBeats_next : (s.toTracker.next i).nrCnt = 0 ∧
    (s.toTracker.next i).readMultipleData = false := by
  obtain ⟨hnr, hm⟩ := hi.own.noBeats hwp hp
  rw [nrCnt_next, nrCount_process hp, hm, readMultipleData_next hs]
  exact ⟨by simpa using hnr, hm⟩

include he

/-- A cycle in which no beat is sent. -/
theorem Inv.own_collecting_quiet (hn : s.nextState i ≠ .idle)
    (hc : s.collectAcqData) (hf : s.outAcquireFire i = false) : (s.next i way).Own := by
  have hw := hi.isWrite hp hwp
  have hg := hi.no_answer_collecting hwp he hc
  have hdone := dataDone_of_not_fire hg
  have hcount : s.acqDataCount i = false := (acqDataCount_eq he.own hp hw).trans hf
  have hc' : (s.toTracker.next i).collectAcqData := by
    rw [collectAcqData_next hs, acqDataDone, hcount, hc]
    rfl
  have hp' := acqDataProcess_kept hs hp hg
  have hwp' := (isWriteProcess_next hs hn).trans hwp
  have hcnt' : (s.toTracker.next i).acqDataCnt = s.acqDataCnt := by
    rw [acqDataCnt_next, hcount]
    rfl
  have hport' : (s.next i way).port = s.port := by
    rw [next_port, hf, hg]
    rfl
  have hcmd' : (s.toTracker.next i).cmdSent = s.cmdSent := by simp [cmdSent_next hs, hg, hf, hdone]
  refine ⟨fun _ _ => ⟨hp', ?_⟩, fun _ hc => by simp [hc'] at hc,
    fun _ _ => hi.noBeats_next hs hp hwp, fun h => by simp [hwp'] at h,
    fun h => by simp [hwp'] at h⟩
  · rw [next_tracker, hcnt', hport', hcmd', addrOut_next hs]
    rcases (hi.own.collecting hwp hc).2 with h | ⟨h0, hcmd, buf, hport, hfill⟩
    · exact .inl h
    · refine .inr ⟨h0, hcmd, buf, hport, fun j hj => ?_⟩
      -- the entry that follows the channel is the one at the counter
      simp only [hfill j hj, acqData_next, hc, if_true, update_of_ne (Fin.ne_of_lt hj)]

/-- A cycle in which a beat is sent. -/
theorem Inv.own_collecting_beat (hn : s.nextState i ≠ .idle)
    (hf : s.outAcquireFire i) : (s.next i way).Own := by
  have hw := hi.isWrite hp hwp
  have hc := collect_of_fire he.own hp hw hf
  have hg := hi.no_answer_collecting hwp he hc
  have hdone := dataDone_of_not_fire hg
  have hcount : s.acqDataCount i := (acqDataCount_eq he.own hp hw).trans hf
  have hc' : (s.toTracker.next i).collectAcqData = !(s.acqDataCnt == 3) := by
    rw [collectAcqData_next hs, acqDataDone, hcount, hc]
    simp
  have hp' := acqDataProcess_kept hs hp hg
  have hwp' := (isWriteProcess_next hs hn).trans hwp
  have hcnt' : (s.toTracker.next i).acqDataCnt = s.acqDataCnt + 1 := by
    rw [acqDataCnt_next, hcount]
    rfl
  have hcmd' : (s.toTracker.next i).cmdSent := by simp [cmdSent_next hs, hg, hf]
  obtain ⟨buf, hfill, hport, hblock⟩ := hi.port_beat way hp hwp hc hf
  have hdata' : (fun j => removeTag ((s.toTracker.next i).acqData j)) =
      update (fun j => removeTag (s.acqData j)) s.acqDataCnt
        (removeTag (s.channelData i.acquire.bits.data i.release.bits.data)) := by
    rw [acqData_next, hc, if_pos rfl]
    funext j
    by_cases hj : j = s.acqDataCnt
    · subst hj
      simp
    · simp [update_of_ne hj]
  have hfill' : Filled s.acqDataCnt buf
      (fun j => removeTag ((s.toTracker.next i).acqData j)) := by
    intro j hj
    rw [hdata', update_of_ne (Fin.ne_of_lt hj)]
    exact hfill j hj
  have hbeat : removeTag (s.channelData i.acquire.bits.data i.release.bits.data) =
      (fun j => removeTag ((s.toTracker.next i).acqData j)) s.acqDataCnt := by
    rw [hdata', update_self]
  refine ⟨fun _ hcol => ⟨hp', .inr ?_⟩, fun _ hcol => ?_, fun _ _ => hi.noBeats_next hs hp hwp,
    fun h => by simp [hwp'] at h, fun h => by simp [hwp'] at h⟩
  · have h3 : s.acqDataCnt ≠ Fin.last 3 := by simpa [hc'] using hcol
    have h3' : s.acqDataCnt ≠ 3 := h3
    have hne0 : s.acqDataCnt + 1 ≠ 0 := by
      revert h3'
      generalize s.acqDataCnt = k
      decide +revert
    rw [next_tracker, hcnt', hport, if_neg h3', addrOut_next hs]
    exact ⟨hne0, hcmd', _, rfl, hbeat ▸ hfill'.push h3⟩
  · have h3 : s.acqDataCnt = 3 := by simpa [hc'] using hcol
    rw [next_tracker, hcnt', hport, hblock, h3, if_pos rfl, if_pos rfl]
    refine ⟨rfl, ?_, fun _ => ⟨rfl, hcmd'⟩⟩
    rw [hbeat, h3]
    exact Filled.last (h3 ▸ hfill')

/-- All beats are sent: the write waits for its acknowledgement, or gets it. -/
theorem Inv.own_collected (hn : s.nextState i ≠ .idle)
    (hc : s.collectAcqData = false) : (s.next i way).Own := by
  have hw := hi.isWrite hp hwp
  have hf : s.outAcquireFire i = false := by
    by_contra hf
    have := collect_of_fire he.own hp hw (by simpa using hf)
    simp [hc] at this
  have hcount : s.acqDataCount i = false := (acqDataCount_eq he.own hp hw).trans hf
  obtain ⟨hcnt, hblock, hack⟩ := hi.own.collected hwp hc
  obtain ⟨hport, hcmd⟩ := hack hp
  have hc' : (s.toTracker.next i).collectAcqData = false := by
    rw [collectAcqData_next hs, hc]
    rfl
  have hwp' := (isWriteProcess_next hs hn).trans hwp
  refine ⟨fun _ h => by simp [hc'] at h, fun _ _ => ⟨?_, ?_, fun hp' => ?_⟩,
    fun _ _ => hi.noBeats_next hs hp hwp, fun h => by simp [hwp'] at h,
    fun h => by simp [hwp'] at h⟩
  · rw [next_tracker, acqDataCnt_next, hcount]
    exact hcnt
  · rw [next_tracker, acqData_next, hc, next_block, stored_eq_none hf]
    exact hblock
  · have hg : s.outGrantFire i = false := by
      rw [← dataDone_write hp hw (hi.own.noBeats hwp hp).2, dataDone_eq hs hp]
      exact congrArg not hp'
    rw [next_port, hf, hg, next_tracker, cmdSent_next hs, hf, hg, dataDone_of_not_fire hg]
    exact ⟨hport, by simpa using hcmd⟩

end Write

/-! ## Reads -/

section Read

variable (hi : s.Inv store) (hp : s.acqDataProcess)
variable (hwp : s.isWriteProcess = false)

include hp hwp

theorem msg_read : s.msg i = .getBlock s.tagOut s.addrOut := by
  rw [msg, outAcquireBits_process hp, hwp]
  rfl

/-- The block does not change while it is read. -/
theorem block_read : (s.next i way).block = s.block := by
  rw [next_block, stored, msg_read hp hwp]
  split_ifs <;> rfl

include hi

theorem Inv.isWrite_eq_false : s.isWrite = false :=
  (hi.wf.isWrite_eq hp).trans hwp

/-- A read asks until its command is sent. -/
theorem Inv.outAcquireFire_read :
    s.outAcquireFire i = (!s.cmdSent && i.outAcquireReady) := by
  rw [outAcquireFire, outAcquireValid_process hp, hi.isWrite_eq_false hp hwp,
    (hi.own.reading hwp hp).1]
  simp

variable (he : s.Env i) (hs : s.state ≠ .idle) (hn : s.nextState i ≠ .idle)

include he hs hn

/-- The command of a read has not been sent before this cycle. -/
theorem Inv.own_reading_command (hcmd : s.cmdSent = false) : (s.next i way).Own := by
  obtain ⟨hr, hm, hcase⟩ := hi.own.reading hwp hp
  obtain ⟨hport, hnr⟩ : s.port = .idle ∧ s.nrCnt = 0 := by
    rcases hcase with h | h
    · exact h.2
    · simp [hcmd] at h
  have hg := he.no_answer (by rw [hport]; rfl)
  have hdone := dataDone_of_not_fire hg
  have hwp' := (isWriteProcess_next hs hn).trans hwp
  have hp' := acqDataProcess_kept hs hp hg
  have hnr' : (s.toTracker.next i).nrCnt = 0 := by
    rw [nrCnt_next, nrCount_process hp, hg]
    exact hnr
  refine ⟨fun h => by simp [hwp'] at h, fun h => by simp [hwp'] at h,
    fun h => by simp [hwp'] at h, fun _ _ => ⟨?_, ?_, ?_⟩, fun _ h => by simp [hp'] at h⟩
  · rw [next_tracker, (own_registers_next hs).1, hdone, hr]
    rfl
  · rw [next_tracker, readMultipleData_next hs, hm]
  · rw [next_tracker, hnr', next_port, hg, cmdSent_next hs, hg, hdone, addrOut_next hs]
    cases hf : s.outAcquireFire i with
    | false => exact .inl ⟨by simpa using hcmd, hport, rfl⟩
    | true =>
      rw [msg_read hp hwp]
      exact .inr ⟨by simp, rfl, filled_zero⟩

/-- The command of a read has been sent. -/
theorem Inv.own_reading_beats (hcmd : s.cmdSent) : (s.next i way).Own := by
  obtain ⟨hr, hm, hcase⟩ := hi.own.reading hwp hp
  obtain ⟨hport, hfill⟩ : s.port = .get s.addrOut s.nrCnt ∧
      Filled s.nrCnt s.memAcqDataRead s.block := by
    rcases hcase with h | h
    · simp [hcmd] at h
    · exact h.2
  have hf : s.outAcquireFire i = false := by
    rw [hi.outAcquireFire_read hp hwp, hcmd]
    rfl
  have hw := hi.isWrite_eq_false hp hwp
  have hwp' := (isWriteProcess_next hs hn).trans hwp
  have hdone : s.dataDone i = (s.outGrantFire i && s.nrCnt == 3) := dataDone_read hp hw hr hm
  have hnr' : (s.toTracker.next i).nrCnt =
      if s.outGrantFire i then s.nrCnt + 1 else s.nrCnt := by
    rw [nrCnt_next, nrCount_process hp, hr, hm]
    simp
  have hready : s.outGrantFire i = i.outGrantValid := by simp [outGrantFire, outGrantReady, hr]
  have hread' : (s.toTracker.next i).memAcqDataRead =
      if i.outGrantValid then
        update s.memAcqDataRead s.nrCnt (s.block s.nrCnt)
      else s.memAcqDataRead := by
    cases hv : i.outGrantValid with
    | false => simp [Tracker.next, hv]
    | true => simp [Tracker.next, hv, hp, hr, he.blockData _ hv hport]
  have hdone' := dataDone_eq (i := i) hs hp
  refine ⟨fun h => by simp [hwp'] at h, fun h => by simp [hwp'] at h,
    fun h => by simp [hwp'] at h, fun _ hp' => ⟨?_, ?_, .inr ?_⟩, fun _ hp' => ?_⟩ <;>
    rw [next_tracker] at hp' <;> rw [hp'] at hdone'
  · rw [next_tracker, (own_registers_next hs).1, hdone', hr]
    rfl
  · rw [next_tracker, readMultipleData_next hs, hm]
  · rw [next_tracker, hnr', next_port, hf, cmdSent_next hs, hf, hdone',
      addrOut_next hs, block_read hp hwp, hread', hready]
    have hwait : (s.state == .writeBackWaitB && i.outGrantValid) = false := by
      by_contra hc
      have hst : s.state = .writeBackWaitB := by simp_all
      simp [(hi.tagStateAt hst).1] at hp
    cases hv : i.outGrantValid with
    | false => exact ⟨by simpa using hcmd, hport, hfill⟩
    | true =>
      have h3 : s.nrCnt ≠ 3 := by
        rw [hdone, hready, hv] at hdone'
        simpa using hdone'
      rw [hv] at hwait
      refine ⟨by rw [hwait]; exact hcmd, ?_, hfill.push h3⟩
      simp [hport, Port.answer, h3]
  · obtain ⟨hv, h3⟩ : i.outGrantValid ∧ s.nrCnt = 3 := by
      rw [hdone, hready] at hdone'
      simpa using hdone'
    rw [h3] at hfill
    rw [next_tracker, hread', block_read hp hwp, hv, if_pos rfl, h3]
    exact hfill.last

end Read

/-! ## All cases -/

section Own

variable (hi : s.Inv store) (he : s.Env i) (hs : s.state ≠ .idle)

include hi hs

/-- What is done stays. -/
theorem Inv.own_done (hn : s.nextState i ≠ .idle) (hp : s.acqDataProcess = false)
    (hblock : (s.next i way).block = s.block) : (s.next i way).Own := by
  have hw := (hi.wf.done hp).2.1
  have hp' : (s.toTracker.next i).acqDataProcess = false := by
    rw [acqDataProcess_next hs, hp]
    rfl
  have hwp' := isWriteProcess_next hs hn
  have hcount : s.acqDataCount i = false := by simp [acqDataCount, hw]
  have hread' : (s.toTracker.next i).memAcqDataRead = s.memAcqDataRead := by simp [Tracker.next, hp]
  have hcol : s.isWriteProcess → s.collectAcqData = false := by
    intro hwp
    by_contra hc
    have := (hi.own.collecting hwp (by simpa using hc)).1
    simp [hp] at this
  have hcol' : (s.toTracker.next i).isWriteProcess →
      (s.toTracker.next i).collectAcqData = false := by
    intro hwp
    rw [collectAcqData_next hs, hcol (hwp' ▸ hwp)]
    rfl
  refine ⟨fun hwp hc => absurd hc (by simp [hcol' hwp]), fun hwp _ => ⟨?_, ?_, ?_⟩,
    fun _ h => by simp [hp'] at h, fun _ h => by simp [hp'] at h, fun hwp _ => ?_⟩
  · rw [next_tracker, acqDataCnt_next, hcount]
    exact (hi.own.collected (hwp' ▸ hwp) (hcol (hwp' ▸ hwp))).1
  · rw [hblock, next_tracker, acqData_next, hcol (hwp' ▸ hwp)]
    exact (hi.own.collected (hwp' ▸ hwp) (hcol (hwp' ▸ hwp))).2.1
  · intro h
    simp [hp'] at h
  · rw [hblock, next_tracker, hread']
    exact hi.own.read (hwp' ▸ hwp) hp

include he

theorem Inv.own_next (hn : s.nextState i ≠ .idle)
    (hblock : s.acqDataProcess = false → (s.next i way).block = s.block) : (s.next i way).Own := by
  cases hp : s.acqDataProcess with
  | false => exact hi.own_done hs hn hp (hblock hp)
  | true =>
    cases hwp : s.isWriteProcess with
    | true =>
      cases hc : s.collectAcqData with
      | false => exact hi.own_collected he hs hp hwp hn hc
      | true =>
        cases hf : s.outAcquireFire i with
        | false => exact hi.own_collecting_quiet he hs hp hwp hn hc hf
        | true => exact hi.own_collecting_beat he hs hp hwp hn hf
    | false =>
      cases hcmd : s.cmdSent with
      | false => exact hi.own_reading_command hp hwp he hs hn hcmd
      | true => exact hi.own_reading_beats hp hwp he hs hn hcmd

variable (way) in
/-- When the own data is done the port is free for the tag traffic. -/
theorem Inv.idle_of_dataDone (hp : s.acqDataProcess) (hd : s.dataDone i) :
    (s.next i way).port = .idle ∧ (s.toTracker.next i).nrCnt = 0 ∧
      (s.toTracker.next i).cmdSent = false := by
  have hg : s.outGrantFire i := by
    by_contra hg
    simp [dataDone_of_not_fire (by simpa using hg)] at hd
  have hv : i.outGrantValid := (Bool.and_eq_true _ _ ▸ hg).1
  have key : s.outAcquireFire i = false ∧ s.port.answer = .idle ∧
      (s.toTracker.next i).nrCnt = 0 := by
    cases hwp : s.isWriteProcess with
    | true =>
      have hw := hi.isWrite hp hwp
      obtain ⟨hnr, hm⟩ := hi.own.noBeats hwp hp
      have hc : s.collectAcqData = false := by
        by_contra hc
        simp [hi.no_answer_collecting hwp he (by simpa using hc)] at hg
      have hf : s.outAcquireFire i = false := by
        by_contra hf
        simp [collect_of_fire he.own hp hw (by simpa using hf)] at hc
      obtain ⟨hport, _⟩ := (hi.own.collected hwp hc).2.2 hp
      refine ⟨hf, by rw [hport]; rfl, ?_⟩
      rw [nrCnt_next, nrCount_process hp, hm]
      simpa using hnr
    | false =>
      have hw := hi.isWrite_eq_false hp hwp
      obtain ⟨hr, hm, hcase⟩ := hi.own.reading hwp hp
      rw [dataDone_read hp hw hr hm, hg] at hd
      have h3 : s.nrCnt = 3 := by simpa using hd
      rcases hcase with ⟨_, hport, _⟩ | ⟨hcmd, hport, _⟩
      · exact absurd (he.due hv) (by simp [hport, Port.due])
      · refine ⟨by rw [hi.outAcquireFire_read hp hwp, hcmd]; rfl, ?_, ?_⟩
        · simp [hport, Port.answer, h3]
        · rw [nrCnt_next, nrCount_process hp, hg, hr, hm, h3]
          rfl
  obtain ⟨hf, hans, hnr⟩ := key
  refine ⟨?_, hnr, ?_⟩
  · rw [next_port, hf, hg]
    exact hans
  · rw [cmdSent_next hs, hf, hd]
    simp

end Own

end Slice

end TaggedRiscv.TagCache
