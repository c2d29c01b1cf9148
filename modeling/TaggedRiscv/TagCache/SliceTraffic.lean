import TaggedRiscv.TagCache.SliceOwn

/-!
# The tag traffic of a transaction

Once the transaction's own data is done, the tracker uses its port to the memory for
tag lines: it writes the victim's line back and fetches its own.
-/

namespace TaggedRiscv.TagCache

open Sync TagUtil Burst Tracker

variable {g : Geometry}

theorem uintToOH_injective {m : ℕ} {v w : Fin m} (h : uintToOH v = uintToOH w) : v = w := by
  have := congrFun h v
  simpa [uintToOH] using this.symm

namespace Tracker

variable {t : Tracker g} {i : TrackerIn g}

/-! ## Handshakes once the own data is done -/

section Done

variable (hwf : t.Wf) (hp : t.acqDataProcess = false)

include hwf hp

theorem outAcquireFire_done :
    t.outAcquireFire i =
      ((t.state == .writeBack || t.state == .memReq && !t.cmdSent) && i.outAcquireReady) := by
  obtain ⟨hr, hw, _⟩ := hwf.done hp
  simp [outAcquireFire, outAcquireValid, memSendTag, memReceiveTag, hp, hr, hw]

theorem outGrantFire_done :
    t.outGrantFire i =
      (i.outGrantValid && t.state ∈ [.writeBack, .writeBackWaitB, .memReq]) := by
  obtain ⟨hr, hw, _⟩ := hwf.done hp
  cases hs : t.state <;>
    simp [outGrantFire, outGrantReady, memSendTag, memReceiveTag, hp, hr, hw, hs]

theorem nrCount_done : t.nrCount i = (t.outGrantFire i && t.state == .memReq) := by
  obtain ⟨hr, _, _⟩ := hwf.done hp
  simp [nrCount, memReceiveTag, hp, hr]

omit hwf in
theorem dataDone_done : t.dataDone i = false := dataDone_eq_false hp

end Done

end Tracker

namespace Slice

variable {s : Slice g} {i : TrackerIn g} {way : Fin g.nWays} {store : ℕ → Fin 4 → Row}

/-! ## What a slice stores -/

/-- The line of the transaction is one of the set's. -/
theorem Inv.dataLine_tag (hi : s.Inv store) : DataLine (lineAt s.idx s.tag) := by
  rw [hi.idx, tag, lineAt_addr]
  exact dataLine_of_inWindow hi.window

variable {w : Fin g.nWays}

/-- The line of a valid entry is kept in the tag partition. -/
theorem Ok.dataLine {refilling modified : Option (Fin g.nWays)} (h : s.Ok store refilling modified)
    (hw : (s.metas w).valid) : DataLine (lineAt s.idx (s.metas w).tag) :=
  h.represents.mem_dom w _ (by simp [entryOf, hw])

/-- A write back goes to where the victim's line is kept, with the victim's row. -/
theorem Inv.msg_writeBack (hi : s.Inv store) (he : s.Env i) (hs : s.state = .writeBack)
    (hp : s.acqDataProcess = false) (hv : s.Victim store w) :
    s.msg i = .putBlock s.tagOut (tagAddr (lineAt s.idx (s.metas w).tag))
      (insertEmptyTag 4 (s.memTagDataWrite s.memTagDataWriteCnt)) := by
  have hsend : s.memSendTag := by simp [memSendTag, hs, hp]
  have hdram := hv.ok.dram w hv.valid
  rw [hi.idx] at hdram
  rw [msg, outAcquireBits, hsend, if_pos rfl, he.dram hsend, hv.replMeta,
    tagAddrConv_addrFromTag _ _ hdram, hi.idx]

/-- The request for the transaction's own line. -/
theorem msg_memReq (hs : s.state = .memReq) (hp : s.acqDataProcess = false) :
    s.msg i = .getBlock s.tagOut (tagAddr (s.addrOut / 16)) := by
  simp [msg, outAcquireBits, memSendTag, memReceiveTag, hs, hp, tagAddrConv_eq]

/-- While a write back is under way its port names the victim's line. -/
theorem Inv.port_writeBack (hi : s.Inv store) (hs : s.state = .writeBack)
    (hp : s.acqDataProcess = false) (hv : s.Victim store w) :
    s.memTagDataWriteCnt = 0 ∧ s.port = .idle ∨
      s.memTagDataWriteCnt ≠ 0 ∧
      ∃ buf, s.port =
          .put (tagAddr (lineAt s.idx (s.metas w).tag)) s.memTagDataWriteCnt buf ∧
        Filled s.memTagDataWriteCnt buf fun r => rowBits (s.rows w r) := by
  have hport := hi.tagPort hp
  simp only [TagPort, hs] at hport
  rcases hport.2 with h | ⟨h0, w', buf, hw', hport, hfill⟩
  · exact .inl h
  · obtain rfl : w' = w := uintToOH_injective (hw'.symm.trans hv.way)
    exact .inr ⟨h0, buf, hport, hfill⟩

/-- The row that a write back sends is the victim's. -/
theorem Inv.writeBack_row (hi : s.Inv store) (hs : s.state = .writeBack) :
    ∃ w, s.Victim store w ∧ s.wbData = (fun r => rowBits (s.rows w r)) ∧
      s.memTagDataWrite s.memTagDataWriteCnt =
        rowBits (s.rows w s.memTagDataWriteCnt) := by
  obtain ⟨w, hv, hwb, hrow⟩ := hi.tagStateAt hs
  refine ⟨w, hv, hwb, hrow _ ?_⟩
  by_cases h0 : s.memTagDataWriteCnt = 0
  · exact .inl (by rw [h0]; decide)
  · exact .inr h0

/-- What a slice stores in a cycle: nothing, its own block, or the line of its victim
with the last beat of a write back. -/
theorem Inv.stored_cases (hi : s.Inv store) (he : s.Env i) :
    s.stored i = none ∨
      (s.acqDataProcess ∧ s.isWriteProcess ∧
        ∃ b, s.stored i = some (s.addrOut, b)) ∨
      (s.acqDataProcess = false ∧ s.state = .writeBack ∧
        s.outAcquireFire i ∧ s.memTagDataWriteCnt = 3 ∧
        ∃ w, s.Victim store w ∧ s.stored i =
          some (tagAddr (lineAt s.idx (s.metas w).tag), fun r => rowBits (s.rows w r))) := by
  cases hf : s.outAcquireFire i with
  | false => exact .inl (stored_eq_none hf)
  | true =>
    rw [stored, hf, if_pos rfl]
    cases hp : s.acqDataProcess with
    | true =>
      cases hwp : s.isWriteProcess with
      | false => exact .inl (by rw [msg_read hp hwp]; rfl)
      | true =>
        have hc := collect_of_fire he.own hp (hi.isWrite hp hwp) hf
        rw [msg, outAcquireBits_process hp, hwp, if_pos rfl]
        rcases (hi.own.collecting hwp hc).2 with ⟨_, hport⟩ | ⟨_, _, buf, hport, _⟩
        · exact .inl (by rw [hport]; rfl)
        · by_cases h3 : s.acqDataCnt = 3
          · refine .inr (.inl ⟨rfl, rfl, ?_⟩)
            rw [hport]
            simp [Port.written, h3]
          · exact .inl (by simp [hport, Port.written, h3])
    | false =>
      rw [outAcquireFire_done hi.wf hp] at hf
      by_cases hs : s.state = .writeBack
      · obtain ⟨w, hv, _, hrow⟩ := hi.writeBack_row hs
        rw [hi.msg_writeBack he hs hp hv]
        rcases hi.port_writeBack hs hp hv with ⟨_, hport⟩ | ⟨_, buf, hport, hfill⟩
        · exact .inl (by rw [hport]; rfl)
        · by_cases h3 : s.memTagDataWriteCnt = 3
          · refine .inr (.inr ⟨rfl, hs, rfl, h3, w, hv, ?_⟩)
            rw [h3] at hfill hrow
            simp only [hport, Port.written, h3, if_true, removeTag_insertEmptyTag, hrow]
            exact congrArg (fun b => some (_, b)) hfill.last
          · exact .inl (by simp [hport, Port.written, h3])
      · have hs' : s.state = .memReq := by
          by_contra hne
          simp [hs, hne] at hf
        exact .inl (by rw [msg_memReq hs' hp]; rfl)

theorem backAfter_some (idx : Fin g.nSets) (back : ℕ → Fin 4 → Row) (addr : ℕ)
    (b : Fin 4 → Raw) (tag : ℕ) :
    backAfter idx back (some (addr, b)) tag =
      if DataLine (lineAt idx tag) ∧ addr = tagAddr (lineAt idx tag) then fun r => rowOf (b r)
      else back tag := rfl

/-- A stored block other than the victim's line does not touch the lines of the set. -/
theorem Inv.back_own (hi : s.Inv store) {b : Fin 4 → Raw}
    (h : s.stored i = some (s.addrOut, b)) : (s.next i way).back = s.back := by
  funext tag
  change backAfter s.idx s.back (s.stored i) tag = _
  rw [h, backAfter_some, if_neg]
  rintro ⟨hl, he⟩
  exact not_inWindow_tagAddr hl (he ▸ hi.window)

/-- The victim's line is replaced by its stored rows, and nothing else of the set is. -/
theorem Inv.back_victim (hv : s.Victim store w)
    (h : s.stored i =
      some (tagAddr (lineAt s.idx (s.metas w).tag), fun r => rowBits (s.rows w r))) :
    (s.next i way).back = Function.update s.back (s.metas w).tag (s.rows w) := by
  funext tag
  change backAfter s.idx s.back (s.stored i) tag = _
  rw [h, backAfter_some]
  by_cases ht : tag = (s.metas w).tag
  · subst ht
    rw [if_pos ⟨hv.ok.dataLine hv.valid, rfl⟩, Function.update_self]
    funext r
    rw [rowOf_rowBits]
  · rw [if_neg, Function.update_of_ne ht]
    rintro ⟨hl, he⟩
    exact ht (lineAt_inj (tagAddr_inj (hv.ok.dataLine hv.valid) hl he)).2.symm

/-- Outside the last beat of a write back the lines of the set stay. -/
theorem Inv.back_next (hi : s.Inv store) (he : s.Env i)
    (hno : ¬ (s.acqDataProcess = false ∧ s.state = .writeBack ∧
      s.outAcquireFire i ∧ s.memTagDataWriteCnt = 3)) :
    (s.next i way).back = s.back := by
  rcases hi.stored_cases he with h | ⟨_, _, b, h⟩ | ⟨hp, hs, hf, h3, _⟩
  · change backAfter s.idx s.back (s.stored i) = _
    rw [h]
    rfl
  · exact hi.back_own h
  · exact absurd ⟨hp, hs, hf, h3⟩ hno

/-- The transaction's block stays once its own data is done. -/
theorem Inv.block_done (hi : s.Inv store) (he : s.Env i)
    (hp : s.acqDataProcess = false) : (s.next i way).block = s.block := by
  rcases hi.stored_cases he with h | ⟨hp', _⟩ | ⟨_, _, _, _, w, hv, h⟩
  · rw [next_block, h]
    rfl
  · simp [hp] at hp'
  · rw [next_block, h, blockAfter, if_neg]
    intro hc
    exact not_inWindow_tagAddr (hv.ok.dataLine hv.valid) (hc ▸ hi.window)

/-! ## The traffic -/

/-- A port at rest before any tag traffic. -/
theorem tagPort_of_unsent (hport : s.port = .idle) (hnr : s.nrCnt = 0) (hcmd : s.cmdSent = false)
    (hcnt : s.memTagDataWriteCnt = 0) (hst : s.state ≠ .writeBackWaitB) : s.TagPort := by
  cases hst' : s.state <;> simp_all [TagPort]

/-- A port at rest in the states after the tag traffic. -/
theorem tagPort_of_rest (hport : s.port = .idle) (hnr : s.nrCnt = 0)
    (hst : s.state ∈ [.dataReadHit, .dataRespHit, .dataWriteHit, .metaWriteHit,
      .dataWriteRefill, .metaWriteRefill, .gnt, .busy]) : s.TagPort := by
  cases hst' : s.state <;> simp_all [TagPort]

section TagPort

variable (hi : s.Inv store) (he : s.Env i) (hs : s.state ≠ .idle)

include hi hs

variable (hp : s.acqDataProcess = false)

include hp

variable (way) in
/-- In the states without tag traffic the port rests. -/
theorem Inv.port_quiet (hst : s.state ∉ [.writeBack, .writeBackWaitB, .memReq]) :
    (s.next i way).port = .idle ∧ (s.toTracker.next i).nrCnt = 0 ∧
      (s.toTracker.next i).cmdSent = s.cmdSent := by
  have hf : s.outAcquireFire i = false := by
    rw [outAcquireFire_done hi.wf hp]
    simp_all
  have hg : s.outGrantFire i = false := by
    rw [outGrantFire_done hi.wf hp]
    simp_all
  have hport : s.port = .idle ∧ s.nrCnt = 0 := by
    have := hi.tagPort hp
    unfold TagPort at this
    cases hst' : s.state <;> simp_all
  refine ⟨?_, ?_, ?_⟩
  · rw [next_port, hf, hg]
    exact hport.1
  · rw [nrCnt_next, nrCount_done hi.wf hp, hg]
    exact hport.2
  · simp [cmdSent_next hs, hf, hg, dataDone_done hp]

/-- The write back is acknowledged, or waits. -/
theorem Inv.tagPort_waitB (hst : s.state = .writeBackWaitB) : (s.next i way).TagPort := by
  obtain ⟨hnr, hport⟩ : s.nrCnt = 0 ∧ s.port = .ack := by
    have := hi.tagPort hp
    simpa only [TagPort, hst] using this
  have hf : s.outAcquireFire i = false := by simp [outAcquireFire_done hi.wf hp, hst]
  have hnr' : (s.toTracker.next i).nrCnt = 0 := by
    rw [nrCnt_next, nrCount_done hi.wf hp, hst]
    simpa using hnr
  cases hg : s.outGrantFire i with
  | false =>
    have hst' : (s.toTracker.next i).state = .writeBackWaitB := by
      simp [Tracker.next, nextState, hst, hg]
    simp only [TagPort, next_tracker, hst', hnr', next_port, hf, hg]
    exact ⟨trivial, hport⟩
  | true =>
    have hst' : (s.toTracker.next i).state = .memReq := by simp [Tracker.next, nextState, hst, hg]
    have hcmd' : (s.toTracker.next i).cmdSent = false := by simp [cmdSent_next hs, hst, hg]
    simp only [TagPort, next_tracker, hst', hnr', hcmd', next_port, hf, hg, hport]
    exact .inl ⟨trivial, trivial, rfl⟩

include he

omit hs in
/-- The write back sends a row of the victim, or waits. -/
theorem Inv.tagPort_writeBack (hst : s.state = .writeBack) : (s.next i way).TagPort := by
  obtain ⟨w, hv, _, hrow⟩ := hi.writeBack_row hst
  have hnr : s.nrCnt = 0 := by
    have := hi.tagPort hp
    simp only [TagPort, hst] at this
    exact this.1
  have hg : s.outGrantFire i = false := by
    apply he.no_answer
    rcases hi.port_writeBack hst hp hv with ⟨_, hport⟩ | ⟨_, buf, hport, _⟩ <;> rw [hport] <;> rfl
  have hnr' : (s.toTracker.next i).nrCnt = 0 := by
    rw [nrCnt_next, nrCount_done hi.wf hp, hg]
    exact hnr
  have hsend : s.memSendTag := by simp [memSendTag, hst, hp]
  have hcnt' : (s.toTracker.next i).memTagDataWriteCnt =
      if s.outAcquireFire i then s.memTagDataWriteCnt + 1
      else s.memTagDataWriteCnt := by
    simp [Tracker.next, memTagDataWriteCount, hsend]
  have hway' : (s.toTracker.next i).acqWayEn = uintToOH w := by simp [Tracker.next, hst, hv.way]
  have hmetas : (s.next i way).metas = s.metas := by simp [next, metaWriteValid, hst]
  have hrows : (s.next i way).rows = s.rows := by simp [next, dataWriteValid, hst]
  cases hf : s.outAcquireFire i with
  | false =>
    have hst' : (s.toTracker.next i).state = .writeBack := by
      simp [Tracker.next, nextState, hst, memTagDataWriteCount, hf]
    have hport' : (s.next i way).port = s.port := by
      rw [next_port, hf, hg]
      rfl
    rw [hf] at hcnt'
    simp only [TagPort, next_tracker, hst', hnr', hcnt', hport', hmetas, hrows, hway']
    refine ⟨trivial, ?_⟩
    rcases hi.port_writeBack hst hp hv with h | ⟨h0, buf, hport, hfill⟩
    · exact .inl h
    · exact .inr ⟨h0, w, buf, rfl, hport, hfill⟩
  | true =>
    have hmsg := hi.msg_writeBack he hst hp hv
    rw [hf, if_pos rfl] at hcnt'
    by_cases h3 : s.memTagDataWriteCnt = 3
    · have hst' : (s.toTracker.next i).state = .writeBackWaitB := by
        simp [Tracker.next, nextState, hst, hp, memTagDataWriteCount, hf, hsend, h3]
      simp only [TagPort, next_tracker, hst', hnr']
      refine ⟨trivial, ?_⟩
      rcases hi.port_writeBack hst hp hv with ⟨h0, _⟩ | ⟨_, buf, hport, _⟩
      · simp [h3] at h0
      · simp [next_port, hf, hmsg, hport, Port.request, h3]
    · have hst' : (s.toTracker.next i).state = .writeBack := by
        simp [Tracker.next, nextState, hst, memTagDataWriteCount, h3]
      have hne0 : s.memTagDataWriteCnt + 1 ≠ 0 := by
        revert h3
        generalize s.memTagDataWriteCnt = k
        decide +revert
      simp only [TagPort, next_tracker, hst', hnr', hcnt', hmetas, hrows, hway']
      refine ⟨trivial, .inr ⟨hne0, w, ?_⟩⟩
      have hlast : s.memTagDataWriteCnt ≠ Fin.last 3 := h3
      -- the first beat opens a block, each further one continues it
      rcases hi.port_writeBack hst hp hv with ⟨h0, hport⟩ | ⟨h0, buf, hport, hfill⟩
      · refine ⟨Function.update (fun _ => 0) 0 (rowBits (s.rows w 0)), rfl, ?_, ?_⟩
        · rw [h0] at hrow
          simp [next_port, hf, hmsg, hport, Port.request, removeTag_insertEmptyTag, h0, hrow]
        · have hzero : Filled (n := 3) 0 (fun _ => 0) fun r => rowBits (s.rows w r) := filled_zero
          rw [h0]
          exact hzero.push (by decide)
      · refine ⟨Function.update buf s.memTagDataWriteCnt
          (rowBits (s.rows w s.memTagDataWriteCnt)), rfl, ?_, ?_⟩
        · simp [next_port, hf, hmsg, hport, Port.request, removeTag_insertEmptyTag, h3, hrow]
        · exact hfill.push hlast

/-- The own line is asked for, received or waited for. -/
theorem Inv.tagPort_memReq (hst : s.state = .memReq) : (s.next i way).TagPort := by
  have hback : (s.next i way).back = s.back := hi.back_next he (by simp [hst])
  have htag' : (s.next i way).tag = s.tag := by simp [tag, addrOut_next hs]
  have hready : s.outGrantFire i = i.outGrantValid := by simp [outGrantFire_done hi.wf hp, hst]
  have hnr' : (s.toTracker.next i).nrCnt =
      if i.outGrantValid then s.nrCnt + 1 else s.nrCnt := by
    rw [nrCnt_next, nrCount_done hi.wf hp, hst, hready]
    simp
  have hcase := hi.tagPort hp
  simp only [TagPort, hst] at hcase
  rcases hcase with ⟨hcmd, hnr, hport⟩ | ⟨hcmd, hport, hfill⟩
  · -- the command has not been sent yet
    have hv : i.outGrantValid = false := by
      rw [← hready]
      exact he.no_answer (by rw [hport]; rfl)
    have hst' : (s.toTracker.next i).state = .memReq := by
      simp [Tracker.next, nextState, hst, nrFinish, nrCount, hready, hv]
    have hcmd' : (s.toTracker.next i).cmdSent = s.outAcquireFire i := by
      rw [cmdSent_next hs, hst, dataDone_done hp, hcmd]
      simp
    rw [hv] at hnr'
    simp only [TagPort, next_tracker, hst', hcmd', hnr', next_port, hready, hv,
      addrOut_next hs, hback, htag']
    cases hf : s.outAcquireFire i with
    | false => exact .inl ⟨rfl, hnr, hport⟩
    | true =>
      refine .inr ⟨rfl, ?_, ?_⟩
      · rw [msg_memReq hst hp]
        simp [Port.request, hnr]
      · simp only [hnr, Bool.false_eq_true, if_false]
        exact filled_zero
  · have hf : s.outAcquireFire i = false := by
      simp [outAcquireFire_done hi.wf hp, hst, hcmd]
    have hcmd' : (s.toTracker.next i).cmdSent := by
      simp [cmdSent_next hs, hst, dataDone_done hp, hf, hcmd]
    cases hv : i.outGrantValid with
    | false =>
      have hst' : (s.toTracker.next i).state = .memReq := by
        simp [Tracker.next, nextState, hst, nrFinish, nrCount, hready, hv]
      have hread' : (s.toTracker.next i).memTagDataRead = s.memTagDataRead := by
        simp [Tracker.next, hv]
      rw [hv] at hnr'
      simp only [TagPort, next_tracker, hst', hcmd', hnr', next_port, hready, hv, hf, hread',
        addrOut_next hs, hback, htag']
      exact .inr ⟨trivial, hport, hfill⟩
    | true =>
      rw [hv, if_pos rfl] at hnr'
      have hport' : (s.next i way).port = s.port.answer := by simp [next_port, hf, hready, hv]
      by_cases h3 : s.nrCnt = 3
      · apply tagPort_of_rest
        · simp [hport', hport, Port.answer, h3]
        · rw [next_tracker, hnr', h3]
          rfl
        · simp [Tracker.next, nextState, hst, nrFinish, nrCount_done hi.wf hp, hready, hv, hp, h3]
      · have hst' : (s.toTracker.next i).state = .memReq := by
          simp [Tracker.next, nextState, hst, nrFinish, h3]
        have hread' : (s.toTracker.next i).memTagDataRead =
            Function.update s.memTagDataRead s.nrCnt
              (rowBits (s.back s.tag s.nrCnt)) := by
          simp [Tracker.next, hv, memReceiveTag, hst, hp, he.lineData _ hv hport]
        simp only [TagPort, next_tracker, hst', hcmd', hnr', hport', hread',
          addrOut_next hs, hback, htag']
        refine .inr ⟨trivial, ?_, hfill.push h3⟩
        simp [hport, Port.answer, h3]

omit hp in
/-- The own data is done in this cycle. -/
theorem Inv.tagPort_dataDone (hp : s.acqDataProcess)
    (hd : s.dataDone i) : (s.next i way).TagPort := by
  obtain ⟨hport, hnr, hcmd⟩ := hi.idle_of_dataDone way he hs hp hd
  apply tagPort_of_unsent hport hnr hcmd
  · have hcount : s.memTagDataWriteCount i = false := by
      simp [memTagDataWriteCount, memSendTag_eq_false hp]
    change (if s.memTagDataWriteCount i then _ else _) = _
    rw [hcount]
    exact hi.rest.unsent hp
  · -- a write back is over only after the own data
    intro hst
    change s.nextState i = .writeBackWaitB at hst
    have htag := hi.tagState
    unfold nextState at hst
    cases hst' : s.state <;> simp_all [TagState] <;> grind

omit hp in
theorem Inv.tagPort_next (hn : s.nextState i ≠ .idle)
    (hp' : (s.toTracker.next i).acqDataProcess = false) : (s.next i way).TagPort := by
  cases hp : s.acqDataProcess with
  | true =>
    rw [acqDataProcess_next hs, hp] at hp'
    exact hi.tagPort_dataDone he hs hp (by simpa using hp')
  | false =>
    by_cases hst : s.state ∈ [.writeBack, .writeBackWaitB, .memReq]
    · simp only [List.mem_cons, List.not_mem_nil, or_false] at hst
      rcases hst with hst | hst | hst
      · exact hi.tagPort_writeBack he hp hst
      · exact hi.tagPort_waitB hs hp hst
      · exact hi.tagPort_memReq he hs hp hst
    · obtain ⟨hport, hnr, hcmd⟩ := hi.port_quiet way hs hp hst
      by_cases hA : s.state ∈
          [.metaRead, .metaResp, .dataReadWb, .dataRespWb, .dataRespWbDone]
      · apply tagPort_of_unsent hport hnr
        · have htp := hi.tagPort hp
          rw [next_tracker, hcmd]
          simp only [List.mem_cons, List.not_mem_nil, or_false] at hA
          rcases hA with hA | hA | hA | hA | hA <;>
            (simp only [TagPort, hA] at htp; exact htp.2.2)
        · have hwb : s.state ≠ .writeBack := fun h => hst (by simp [h])
          have hcount : s.memTagDataWriteCount i = false := by
            simp [memTagDataWriteCount, memSendTag, hwb]
          change (if s.memTagDataWriteCount i then _ else _) = _
          rw [hcount]
          exact hi.rest.memTagDataWriteCnt hwb
        · change s.nextState i ≠ .writeBackWaitB
          unfold nextState
          grind
      · apply tagPort_of_rest hport hnr
        change s.nextState i ∈ _
        have hnd := hi.wf.no_dummy
        unfold nextState at hn ⊢
        cases hs' : s.state <;> simp_all <;> grind

end TagPort

end Slice

end TaggedRiscv.TagCache
