import TaggedRiscv.TagCache.SliceTraffic

/-!
# The lookup of a transaction's tags

The state machine of a tracker from the lookup of the metadata to the grant, over the
tracker's own set. Each state is treated in a lemma of its own; the rules of
`WriteBack.Represents` say what the set represents after each write of an array.
-/

namespace TaggedRiscv.TagCache

open Sync TagUtil Burst Tracker Function

variable {g : Geometry}

namespace Slice

variable {s s' : Slice g} {i : TrackerIn g} {way w : Fin g.nWays} {store : ℕ → Fin 4 → Row}
variable {refilling modified : Option (Fin g.nWays)}

/-! ## Frames -/

/-- The set of a slice and the block of its tracker are the same. -/
structure Same (s s' : Slice g) : Prop where
  idx : s'.idx = s.idx
  metas : s'.metas = s.metas
  rows : s'.rows = s.rows
  back : s'.back = s.back
  addrOut : s'.addrOut = s.addrOut

section

variable (hsame : Same s s')

include hsame

theorem Ok.same (h : s.Ok store refilling modified) : s'.Ok store refilling modified := by
  refine ⟨?_, ?_⟩
  · rw [hsame.metas, hsame.idx]
    exact h.dram
  · rw [hsame.metas, hsame.idx, hsame.rows, hsame.back]
    exact h.represents

theorem Same.tag : s'.tag = s.tag := by
  rw [Slice.tag, Slice.tag, hsame.addrOut]

theorem Same.row : s'.row = s.row := by
  rw [Slice.row, Slice.row, hsame.addrOut]

theorem Same.slotTags : s'.slotTags store = s.slotTags store := by
  rw [Slice.slotTags, Slice.slotTags, hsame.tag, hsame.row, slot, slot, hsame.addrOut]

theorem Missing.same (h : s.Missing) : s'.Missing := by
  intro w
  rw [hsame.metas, hsame.tag]
  exact h w

theorem Hit.same (h : s.Hit w) (hway : s'.acqWayEn = s.acqWayEn) : s'.Hit w := by
  refine ⟨hway.trans h.1, ?_⟩
  rw [hsame.metas, hsame.tag]
  exact h.2

theorem Victim.same (h : s.Victim store w) (hway : s'.acqWayEn = s.acqWayEn)
    (hrepl : s'.acqReplMeta = s.acqReplMeta) : s'.Victim store w := by
  refine ⟨h.ok.same hsame, h.missing.same hsame, hway.trans h.way, ?_, ?_⟩
  · rw [hrepl, hsame.metas, h.replMeta]
  · rw [hsame.metas]
    exact h.valid

end

/-- A cycle that writes neither array nor the tag partition. -/
theorem Inv.same_next (hi : s.Inv store) (he : s.Env i) (hs : s.state ≠ .idle)
    (hm : (s.metaWriteValid && i.metaWriteReady) = false)
    (hd : (s.dataWriteValid && i.dataWriteReady) = false)
    (hb : ¬ (s.acqDataProcess = false ∧ s.state = .writeBack ∧
      s.outAcquireFire i ∧ s.memTagDataWriteCnt = 3)) :
    Same s (s.next i way) :=
  { idx := rfl
    metas := by simp [next, hm]
    rows := by simp [next, hd]
    back := hi.back_next he hb
    addrOut := addrOut_next hs }

/-- The states that write neither array nor the tag partition. -/
theorem Inv.same_next_quiet (hi : s.Inv store) (he : s.Env i) (way : Fin g.nWays)
    (hst : s.state ∉
      [.idle, .dataWriteHit, .metaWriteHit, .writeBack, .dataWriteRefill, .metaWriteRefill]) :
    Same s (s.next i way) := by
  apply hi.same_next he
  · simp_all
  · simp_all [metaWriteValid]
  · simp_all [dataWriteValid]
  · simp_all

theorem tag_next (hs : s.state ≠ .idle) : (s.next i way).tag = s.tag := by
  rw [tag, tag, next_tracker, addrOut_next hs]

theorem slotTags_next (hs : s.state ≠ .idle) (store : ℕ → Fin 4 → Row) :
    (s.next i way).slotTags store = s.slotTags store := by
  rw [slotTags, slotTags, tag_next hs, row, row, slot, slot, next_tracker, addrOut_next hs]

theorem acqWayEn_next (i : TrackerIn g) (way : Fin g.nWays) (hst : s.state ≠ .metaResp) :
    (s.next i way).acqWayEn = s.acqWayEn := by
  simp [Tracker.next, hst]

theorem acqReplMeta_next (hst : s.state ≠ .metaResp) :
    (s.next i way).acqReplMeta = s.acqReplMeta := by
  simp [Tracker.next, hst]

theorem Victim.next (h : s.Victim store w) (hsame : Same s (s.next i way))
    (hst : s.state ≠ .metaResp) : (s.next i way).Victim store w :=
  h.same hsame (acqWayEn_next i way hst) (acqReplMeta_next hst)

/-- The data of a block that was forwarded does not come back. -/
theorem acqDataProcess_stays (hs : s.state ≠ .idle)
    (hp : s.acqDataProcess = false) : (s.toTracker.next i).acqDataProcess = false := by
  rw [acqDataProcess_next hs, hp]
  rfl

theorem nextStore_eq (hst : s.state ≠ .dataWriteHit) : s.nextStore i store = store := by
  simp [nextStore, hst]

/-! ## The lookup -/

theorem line_eq_iff {m : Meta} {tag : ℕ} : (entryOf m).line = some tag ↔ m.valid ∧ m.tag = tag := by
  cases hv : m.valid <;> simp [entryOf, hv]

theorem matchWay_iff {metas : Fin g.nWays → Meta} {tag : ℕ} {w : Fin g.nWays} :
    MetaArray.matchWay metas tag w ↔ (entryOf (metas w)).line = some tag := by
  rw [line_eq_iff]
  simp [MetaArray.matchWay, and_comm]

/-- A hit selects the one way that holds the line. -/
theorem Ok.hit (h : s.Ok store none none) (hh : MetaArray.isHit s.metas s.tag) :
    ∃ w, MetaArray.matchWay s.metas s.tag = uintToOH w ∧
      (entryOf (s.metas w)).line = some s.tag := by
  obtain ⟨w, _, hw⟩ := List.any_eq_true.1 hh
  rw [matchWay_iff] at hw
  refine ⟨w, ?_, hw⟩
  funext v
  by_cases hv : v = w
  · subst hv
    rw [uintToOH_self, matchWay_iff]
    exact hw
  · rw [uintToOH_of_ne hv]
    by_contra hm
    exact hv (h.represents.unique v w s.tag (matchWay_iff.1 (by simpa using hm)) hw)

theorem missing_of_not_hit (hh : MetaArray.isHit s.metas s.tag = false) : s.Missing := by
  intro w hw
  have := List.any_eq_false.1 hh w (List.mem_finRange w)
  exact this (matchWay_iff.2 hw)

/-! ## Writing the arrays -/

/-- A write of the metadata array replaces the entry of the selected way. -/
theorem metas_next_write (hway : s.acqWayEn = uintToOH w)
    (hwr : (s.metaWriteValid && i.metaWriteReady) = true) :
    (s.next i way).metas = update s.metas w s.metaWriteTag := by
  funext v
  simp only [next, hwr, if_true, hway]
  by_cases hv : v = w
  · subst hv
    simp
  · rw [uintToOH_of_ne hv, update_of_ne hv]
    rfl

theorem entryOf_update (metas : Fin g.nWays → Meta) (m : Meta) :
    (fun v => entryOf (update metas w m v)) =
      update (fun v => entryOf (metas v)) w (entryOf m) := by
  funext v
  by_cases hv : v = w
  · subst hv
    simp
  · simp [update_of_ne hv]

theorem entryOf_metaWriteTag :
    entryOf s.metaWriteTag = ⟨some s.tag, s.state == .metaWriteHit⟩ := rfl

/-- The entry that a tracker writes has the right DRAM bit. -/
theorem Inv.dram_next (hi : s.Inv store)
    (hdram : ∀ v, (s.metas v).valid → (s.metas v).dram = dramLine (lineAt s.idx (s.metas v).tag))
    (hm : (s.next i way).metas = update s.metas w s.metaWriteTag) :
    ∀ v, ((s.next i way).metas v).valid → ((s.next i way).metas v).dram =
      dramLine (lineAt (s.next i way).idx ((s.next i way).metas v).tag) := by
  intro v hv
  rw [hm] at hv ⊢
  rw [next_idx]
  by_cases hvw : v = w
  · subst hvw
    rw [update_self, metaWriteTag, addrToTag, isDramAddress_eq, hi.idx, lineAt_addr]
  · rw [update_of_ne hvw] at hv ⊢
    exact hdram v hv

/-- A write of the data array changes a row of the selected way. -/
theorem rows_next_write (hway : s.acqWayEn = uintToOH w)
    (hwr : (s.dataWriteValid && i.dataWriteReady) = true) :
    (s.next i way).rows =
      update s.rows w (update (s.rows w) s.dataWriteRow
        (DataArray.writeRow (s.rows w s.dataWriteRow) (rowOf s.dataWriteBits)
          s.dataWriteMask)) := by
  funext v
  simp only [next, hwr, if_true, hway]
  by_cases hv : v = w
  · subst hv
    simp
  · rw [uintToOH_of_ne hv, update_of_ne hv]
    rfl

/-- The write of a hit changes the slot of the block. -/
theorem writeRow_hit (old : Row) (hst : s.state = .dataWriteHit) :
    DataArray.writeRow old (rowOf s.dataWriteBits) s.dataWriteMask =
      update old s.slot (blockTags s.acqData) := by
  funext k
  by_cases hk : k = s.slot
  · subst hk
    have hbits : rowOf s.dataWriteBits s.slot = blockTags s.acqData := by
      simp only [dataWriteBits, hst, reduceCtorEq, if_false]
      exact rowOf_shiftLeft _ _
    simp only [DataArray.writeRow, hbits, update_self]
    simp [dataWriteMask, hst, slot]
  · have hk' : k ≠ rowOffset s.addrOut := hk
    simp [DataArray.writeRow, dataWriteMask, hst, hk', update_of_ne hk]

/-- What the tracker does is decided before it looks at an answer or writes an array. -/
theorem isWriteProcess_kept
    (h : s.state ∈ [.metaResp, .dataRespHit, .dataWriteHit, .metaWriteHit]) :
    (s.toTracker.next i).isWriteProcess = s.isWriteProcess := by
  simp only [List.mem_cons, List.not_mem_nil, or_false] at h
  rcases h with h | h | h | h <;>
    simp [Tracker.next, acceptRelease, acceptAcquire, rdy, h]

/-- The state of the lookup after a clock edge. -/
theorem tagState_next (state : State) (hst : s.nextState i = state)
    (h : (s.next i way).TagStateAt store state) : (s.next i way).TagState store := by
  subst hst
  exact h

section States

variable (hi : s.Inv store) (he : s.Env i)

include hi he

theorem Inv.tagState_metaRead (hst : s.state = .metaRead) : (s.next i way).TagState store := by
  have hsame := hi.same_next_quiet he way (by simp [hst])
  have hok : s.Ok store none none := hi.tagStateAt hst
  cases hr : i.metaReadReady with
  | false => exact tagState_next .metaRead (by simp [nextState, hst, hr]) (hok.same hsame)
  | true =>
    have htok : (s.next i way).metaToken = .asked := by
      simp [next, hi.rest.metaToken (by simp [hst]), metaReadValid, hst, hr]
    exact tagState_next .metaResp (by simp [nextState, hst, hr]) ⟨hok.same hsame, .inl htok⟩

/-- The answer of the metadata array decides between the ways of a hit and a miss. -/
theorem Inv.tagState_answered (hst : s.state = .metaResp) (hok : s.Ok store none none)
    {r : MetaResp g} (hr : s.metaToken = .answered r) (hl : s.Looked r) :
    (s.next i way).TagState store := by
  have hsame := hi.same_next_quiet he way (by simp [hst])
  obtain ⟨hv, hresp⟩ := he.metaResp r hr
  obtain ⟨hhit, hmatch, hmiss⟩ := hl
  have hway' : (s.toTracker.next i).acqWayEn = r.wayEn := by simp [Tracker.next, hst, hv, hresp]
  have hrepl' : (s.toTracker.next i).acqReplMeta = r.tag := by simp [Tracker.next, hst, hv, hresp]
  have hwp' : (s.toTracker.next i).isWriteProcess = s.isWriteProcess :=
    isWriteProcess_kept (by simp [hst])
  cases hh : r.hit with
  | true =>
    obtain ⟨w, hmw, hline⟩ := hok.hit (hhit ▸ hh)
    have hhit' : (s.next i way).Hit w := by
      refine ⟨by rw [next_tracker, hway', hmatch hh, hmw], ?_⟩
      rw [hsame.metas, hsame.tag]
      exact hline
    cases hwp : s.isWriteProcess with
    | true =>
      exact tagState_next .dataWriteHit (by simp [nextState, hst, hv, hresp, hh, hwp])
        ⟨hwp'.trans hwp, hok.same hsame, w, hhit'⟩
    | false =>
      exact tagState_next .dataReadHit (by simp [nextState, hst, hv, hresp, hh, hwp])
        ⟨hok.same hsame, w, hhit'⟩
  | false =>
    have hmissing : (s.next i way).Missing := (missing_of_not_hit (hhit ▸ hh)).same hsame
    obtain ⟨w, hway, htag⟩ := hmiss hh
    cases hvd : (s.metas w).valid && (s.metas w).dirty with
    | true =>
      refine tagState_next .dataReadWb (by simp [nextState, hst, hv, hresp, hh, htag, hvd])
        ⟨w, hok.same hsame, hmissing, ?_, ?_, ?_⟩
      · rw [next_tracker, hway', hway]
      · rw [next_tracker, hrepl', htag, hsame.metas]
      · rw [hsame.metas]
        exact (Bool.and_eq_true _ _ ▸ hvd).1
    | false =>
      refine tagState_next .memReq (by simp [nextState, hst, hv, hresp, hh, htag, hvd])
        ⟨hok.same hsame, hmissing, w, hway'.trans hway, fun tag hline => ?_⟩
      -- the way to replace is clean, so its line is in the tag partition
      rw [hsame.metas] at hline
      rw [hsame.back, hsame.rows]
      apply hok.represents.of_clean hline
      have hvalid := (line_eq_iff.1 hline).1
      simpa [entryOf, hvalid] using hvd

theorem Inv.tagState_metaResp (hst : s.state = .metaResp) : (s.next i way).TagState store := by
  have hsame := hi.same_next_quiet he way (by simp [hst])
  obtain ⟨hok, htok | ⟨r, hr, hl⟩⟩ := hi.tagStateAt hst
  · have hv : i.metaRespValid = false := by
      by_contra hv
      obtain ⟨r, hr⟩ := he.noMetaResp (by simpa using hv)
      simp [htok] at hr
    have htok' : (s.next i way).metaToken = .answered (s.lookup way) := by simp [next, htok]
    refine tagState_next .metaResp (by simp [nextState, hst, hv])
      ⟨hok.same hsame, .inr ⟨_, htok', ?_⟩⟩
    simp only [Looked, lookup, hsame.metas, hsame.tag]
    refine ⟨trivial, fun hh => by simp [hh], fun hh => ⟨way, by simp [hh], by simp [hh]⟩⟩
  · exact hi.tagState_answered he hst hok hr hl

/-! ## Hits -/

theorem Inv.tagState_dataReadHit (hst : s.state = .dataReadHit) :
    (s.next i way).TagState store := by
  have hsame := hi.same_next_quiet he way (by simp [hst])
  obtain ⟨hok, w, hw⟩ := hi.tagStateAt hst
  have hw' := hw.same hsame (acqWayEn_next i way (by simp [hst]))
  cases hr : i.dataReadReady with
  | false =>
    exact tagState_next .dataReadHit (by simp [nextState, hst, hr]) ⟨hok.same hsame, w, hw'⟩
  | true =>
    refine tagState_next .dataRespHit (by simp [nextState, hst, hr]) ⟨hok.same hsame, w, hw', ?_⟩
    rw [hsame.row]
    simp [next, dataReadValid, dataReadRow, hst, hr, row, hw.1]

/-- The answer of the data array holds the tags of the block. -/
theorem Inv.tagState_dataRespHit (hst : s.state = .dataRespHit) :
    (s.next i way).TagState store := by
  have hsame := hi.same_next_quiet he way (by simp [hst])
  obtain ⟨hok, w, hw, htok⟩ := hi.tagStateAt hst
  have hwp' : (s.toTracker.next i).isWriteProcess = false :=
    (isWriteProcess_kept (by simp [hst])).trans (hi.wf.read_path (by simp [hst]))
  have hdata : i.dataResp = rowBits (s.rows w s.row) := by
    rw [(he.dataResp _ _ htok).2, mux1H_uintToOH]
  have hgnt : (s.toTracker.next i).gntTag = s.slotTags store := by
    have hrows := hok.represents.of_held hw.2
    simp only [Tracker.next, hst, beq_self_eq_true, if_true, hdata]
    rw [setWidth_shiftRight_rowBits, hrows]
    rfl
  refine tagState_next .gnt (by simp [nextState, hst]) ⟨hok.same hsame, ?_⟩
  rwa [Answer, next_tracker, hwp', hsame.slotTags]

/-- A write puts the tags of its block into the data array. -/
theorem Inv.tagState_dataWriteHit (hst : s.state = .dataWriteHit) :
    (s.next i way).TagState (s.nextStore i store) := by
  obtain ⟨hwp, hok, w, hw⟩ := hi.tagStateAt hst
  have hwp' : (s.toTracker.next i).isWriteProcess := (isWriteProcess_kept (by simp [hst])).trans hwp
  have hway' := acqWayEn_next (s := s) i way (by simp [hst])
  by_cases hgo : s.collectAcqData = false ∧ i.dataWriteReady
  · obtain ⟨hc, hr⟩ := hgo
    have hdata' : (s.toTracker.next i).acqData = s.acqData := by
      rw [acqData_next, hc]
      rfl
    have hheld := hok.represents.of_held hw.2
    have hrow : s.dataWriteRow = s.row := by simp [dataWriteRow, hst, row]
    have hmetas : (s.next i way).metas = s.metas := by simp [next, metaWriteValid, hst]
    have hback : (s.next i way).back = s.back := hi.back_next he (by simp [hst])
    have hrows : (s.next i way).rows =
        update s.rows w (update (store s.tag) s.row
          (update (store s.tag s.row) s.slot (blockTags s.acqData))) := by
      rw [rows_next_write hw.1 (by simp [dataWriteValid, hst, hc, hr]), hrow,
        writeRow_hit _ hst, hheld]
    have hstore : s.nextStore i store =
        update store s.tag (update (store s.tag) s.row
          (update (store s.tag s.row) s.slot (blockTags s.acqData))) := by
      simp [nextStore, hst, hc, hr]
    refine tagState_next .metaWriteHit (by simp [nextState, hst, hc, hr])
      ⟨hwp', w, ⟨?_, ?_⟩, ⟨hway'.trans hw.1, ?_⟩, ?_⟩
    · rw [hmetas, next_idx]
      exact hok.dram
    · rw [hmetas, next_idx, hrows, hback, hstore]
      exact hok.represents.modify hw.2 _
    · rw [hmetas, tag_next (by simp [hst])]
      exact hw.2
    · rw [hstore, slotTags_next (by simp [hst]), next_tracker, hdata']
      simp [slotTags]
  · have hno : (s.dataWriteValid && i.dataWriteReady) = false := by
      cases hc : s.collectAcqData <;> cases hr : i.dataWriteReady <;>
        simp_all [dataWriteValid]
    have hsame : Same s (s.next i way) :=
      hi.same_next he (by simp [hst]) (by simp [metaWriteValid, hst]) hno (by simp [hst])
    have hst' : s.nextState i = .dataWriteHit := by
      cases hc : s.collectAcqData <;> cases hr : i.dataWriteReady <;>
        simp_all [nextState]
    rw [nextStore, hst, if_neg fun h => hgo h.2]
    exact tagState_next .dataWriteHit hst' ⟨hwp', hok.same hsame, w, hw.same hsame hway'⟩

/-- A write marks its line dirty. -/
theorem Inv.tagState_metaWriteHit (hst : s.state = .metaWriteHit) :
    (s.next i way).TagState store := by
  obtain ⟨hwp, w, hok, hw, hslot⟩ := hi.tagStateAt hst
  have hwp' : (s.toTracker.next i).isWriteProcess := (isWriteProcess_kept (by simp [hst])).trans hwp
  have hway' := acqWayEn_next (s := s) i way (by simp [hst])
  have hdata' : (s.toTracker.next i).acqData = s.acqData := by
    rw [acqData_next, hi.wf.collected (by simp [hst])]
    rfl
  have hrows : (s.next i way).rows = s.rows := by simp [next, dataWriteValid, hst]
  have hback : (s.next i way).back = s.back := hi.back_next he (by simp [hst])
  have hslot' : (s.next i way).slotTags store = s.slotTags store :=
    slotTags_next (by simp [hst]) store
  cases hr : i.metaWriteReady with
  | false =>
    have hsame : Same s (s.next i way) :=
      hi.same_next he (by simp [hst]) (by simp [hr]) (by simp [dataWriteValid, hst])
        (by simp [hst])
    exact tagState_next .metaWriteHit (by simp [nextState, hst, hr])
      ⟨hwp', w, hok.same hsame, hw.same hsame hway', by rw [hslot', hslot, next_tracker, hdata']⟩
  | true =>
    have hmetas : (s.next i way).metas = update s.metas w s.metaWriteTag :=
      metas_next_write hw.1 (by simp [metaWriteValid, hst, hr])
    refine tagState_next .gnt (by simp [nextState, hst, hr])
      ⟨⟨hi.dram_next hok.dram hmetas, ?_⟩, by simp [Answer, hwp', hdata', hslot', hslot]⟩
    rw [hmetas, next_idx, hrows, hback, entryOf_update, entryOf_metaWriteTag, hst, ← hw.2]
    exact hok.represents.mark

/-! ## Evictions -/

theorem Inv.tagState_dataReadWb (hst : s.state = .dataReadWb) : (s.next i way).TagState store := by
  have hsame := hi.same_next_quiet he way (by simp [hst])
  obtain ⟨w, hv⟩ := hi.tagStateAt hst
  have hv' := hv.next hsame (by simp [hst])
  cases hr : i.dataReadReady with
  | false => exact tagState_next .dataReadWb (by simp [nextState, hst, hr]) ⟨w, hv'⟩
  | true =>
    have h0 : s.wbReadCnt = 0 := hi.rest.wbReadCnt (by simp [hst])
    have hd0 : s.wbDataCnt = 0 := hi.rest.wbDataCnt (by simp [hst])
    have hnone := he.noDataResp (hi.rest.dataToken (by simp [hst]))
    have hread' : (s.toTracker.next i).wbReadCnt = 1 := by
      simp [Tracker.next, wbReadCount, dataReadValid, hst, hr, h0]
    have hdata' : (s.toTracker.next i).wbDataCnt = 0 := by
      simp [Tracker.next, wbDataCount, hnone, hd0]
    have htok : (s.next i way).dataToken = some (0, uintToOH w) := by
      simp [next, dataReadValid, dataReadRow, hst, hr, h0, hv.way]
    refine tagState_next .dataRespWb (by simp [nextState, hst, hr]) ⟨w, hv', ?_⟩
    simp only [next_tracker, hread', hdata', htok]
    exact ⟨filled_zero, by decide, .inr ⟨trivial, rfl⟩⟩

omit hi in
/-- The rows received after a cycle are those that were asked for before it. -/
theorem wbData_next (hst : s.state = .dataRespWb) {w : Fin g.nWays}
    (hfill : Filled s.wbDataCnt s.wbData fun r => rowBits (s.rows w r))
    (h0 : s.wbReadCnt ≠ 0)
    (htok : s.dataToken = none ∧ s.wbReadCnt = s.wbDataCnt ∨
      s.dataToken = some (s.wbDataCnt, uintToOH w) ∧
        s.wbReadCnt = s.wbDataCnt + 1) :
    (s.toTracker.next i).wbDataCnt = s.wbReadCnt ∧
      Filled s.wbReadCnt (s.toTracker.next i).wbData fun r => rowBits (s.rows w r) := by
  rcases htok with ⟨hnone, hcnt⟩ | ⟨hsome, hcnt⟩
  · have hv := he.noDataResp hnone
    refine ⟨?_, ?_⟩
    · simp [Tracker.next, wbDataCount, hv, hcnt]
    · rw [hcnt]
      simpa [Tracker.next, hv] using hfill
  · obtain ⟨hv, hresp⟩ := he.dataResp _ _ hsome
    rw [mux1H_uintToOH] at hresp
    have hlast : s.wbDataCnt ≠ Fin.last 3 := by
      intro hl
      rw [hcnt, hl] at h0
      exact h0 rfl
    refine ⟨?_, ?_⟩
    · simp [Tracker.next, wbDataCount, hst, hv, hcnt]
    · have hwb' : (s.toTracker.next i).wbData =
          update s.wbData s.wbDataCnt i.dataResp := by
        simp [Tracker.next, hst, hv]
      rw [hcnt, hwb', hresp]
      exact hfill.push hlast

theorem Inv.tagState_dataRespWb (hst : s.state = .dataRespWb) : (s.next i way).TagState store := by
  have hsame := hi.same_next_quiet he way (by simp [hst])
  obtain ⟨w, hv, hfill, h0, htok⟩ := hi.tagStateAt hst
  have hv' := hv.next hsame (by simp [hst])
  obtain ⟨hdata', hfill'⟩ := wbData_next he hst hfill h0 htok
  cases hr : i.dataReadReady with
  | false =>
    have hread' : (s.toTracker.next i).wbReadCnt = s.wbReadCnt := by
      simp [Tracker.next, wbReadCount, hr]
    have htok' : (s.next i way).dataToken = none := by simp [next, hr]
    refine tagState_next .dataRespWb (by simp [nextState, hst, wbReadCount, hr]) ⟨w, hv', ?_⟩
    simp only [next_tracker, hread', hdata', htok', hsame.rows]
    exact ⟨hfill', h0, .inl ⟨trivial, trivial⟩⟩
  | true =>
    have hread' : (s.toTracker.next i).wbReadCnt = s.wbReadCnt + 1 := by
      simp [Tracker.next, wbReadCount, dataReadValid, hst, hr]
    have htok' : (s.next i way).dataToken = some (s.wbReadCnt, uintToOH w) := by
      simp [next, dataReadValid, dataReadRow, hst, hr, hv.way]
    by_cases h3 : s.wbReadCnt = 3
    · rw [h3] at hdata' hfill' htok'
      exact tagState_next .dataRespWbDone
        (by simp [nextState, hst, wbReadCount, dataReadValid, hr, h3])
        ⟨w, hv', hsame.rows ▸ hfill', hdata', htok'⟩
    · have hne0 : s.wbReadCnt + 1 ≠ 0 := by
        revert h3
        generalize s.wbReadCnt = k
        decide +revert
      refine tagState_next .dataRespWb (by simp [nextState, hst, h3]) ⟨w, hv', ?_⟩
      simp only [next_tracker, hread', hdata', htok', hsame.rows]
      exact ⟨hfill', hne0, .inr ⟨trivial, trivial⟩⟩

/-- The last row comes in; the copy that is sent still lacks it. -/
theorem Inv.tagState_dataRespWbDone (hst : s.state = .dataRespWbDone) :
    (s.next i way).TagState store := by
  have hsame := hi.same_next_quiet he way (by simp [hst])
  obtain ⟨w, hv, hfill, h3, htok⟩ := hi.tagStateAt hst
  have hv' := hv.next hsame (by simp [hst])
  obtain ⟨hvalid, hresp⟩ := he.dataResp _ _ htok
  rw [mux1H_uintToOH] at hresp
  have hwb' : (s.toTracker.next i).wbData = fun r => rowBits (s.rows w r) := by
    have : (s.toTracker.next i).wbData = update s.wbData 3 i.dataResp := by
      simp [Tracker.next, hst, hvalid, h3]
    rw [this, hresp]
    exact Filled.last (n := 3) hfill
  have hcnt' : (s.toTracker.next i).memTagDataWriteCnt = 0 := by
    have h0 := hi.rest.memTagDataWriteCnt (by simp [hst])
    simp [Tracker.next, memTagDataWriteCount, memSendTag, hst, h0]
  refine tagState_next .writeBack (by simp [nextState, hst, wbDataCount, hvalid, h3])
    ⟨w, hv', hsame.rows ▸ hwb', fun j hj => ?_⟩
  have hj3 : j ≠ 3 := hj.resolve_right (by simp [hcnt'])
  rw [hsame.rows]
  exact hfill j (Fin.lt_last_iff_ne_last.2 hj3)

/-- The victim's line goes to the tag partition with the last beat. -/
theorem Inv.tagState_writeBack (hst : s.state = .writeBack) : (s.next i way).TagState store := by
  have hs : s.state ≠ .idle := by simp [hst]
  obtain ⟨w, hv, hwb, _⟩ := hi.tagStateAt hst
  have hway' := acqWayEn_next (s := s) i way (by simp [hst])
  have hrepl' : (s.next i way).acqReplMeta = s.acqReplMeta := acqReplMeta_next (by simp [hst])
  have hm : (s.metaWriteValid && i.metaWriteReady) = false := by simp [metaWriteValid, hst]
  have hd : (s.dataWriteValid && i.dataWriteReady) = false := by simp [dataWriteValid, hst]
  by_cases hlast : s.acqDataProcess = false ∧ s.outAcquireFire i ∧
      s.memTagDataWriteCnt = 3
  · obtain ⟨hp, hf, h3⟩ := hlast
    have hback : (s.next i way).back = update s.back (s.metas w).tag (s.rows w) := by
      rcases hi.stored_cases he with h | ⟨hp1, _⟩ | ⟨_, _, _, _, w', hv1, h⟩
      · exfalso
        rcases hi.port_writeBack hst hp hv with ⟨h0, _⟩ | ⟨_, buf, hport, _⟩
        · simp [h3] at h0
        · simp [stored, hf, hi.msg_writeBack he hst hp hv, hport, Port.written, h3] at h
      · simp [hp] at hp1
      · obtain rfl : w' = w := uintToOH_injective (hv1.way.symm.trans hv.way)
        exact Inv.back_victim hv h
    have hmetas : (s.next i way).metas = s.metas := by simp [next, hm]
    have hrows : (s.next i way).rows = s.rows := by simp [next, hd]
    have hline : (entryOf (s.metas w)).line = some (s.metas w).tag := line_eq_iff.2 ⟨hv.valid, rfl⟩
    refine tagState_next .writeBackWaitB
      (by simp [nextState, hst, hp, memTagDataWriteCount, memSendTag, hf, h3])
      ⟨acqDataProcess_stays hs hp, w, ⟨⟨?_, ?_⟩, ?_, hway'.trans hv.way, ?_, ?_⟩,
        by simp [hback, hmetas, hrows]⟩
    · rw [hmetas, next_idx]
      exact hv.ok.dram
    · rw [hmetas, next_idx, hrows, hback]
      exact hv.ok.represents.save hline
    · intro v
      rw [hmetas, tag_next hs]
      exact hv.missing v
    · rw [hrepl', hmetas, hv.replMeta]
    · rw [hmetas]
      exact hv.valid
  · have hsame : Same s (s.next i way) :=
      hi.same_next he hs hm hd fun h => hlast ⟨h.1, h.2.2⟩
    have hst' : s.nextState i = .writeBack := by
      by_contra hns
      apply hlast
      simp only [nextState, hst, memTagDataWriteCount] at hns
      cases hp : s.acqDataProcess <;> cases hf : s.outAcquireFire i <;>
        simp_all
    have hwb' : (s.toTracker.next i).wbData = s.wbData := by simp [Tracker.next, hst]
    refine tagState_next .writeBack hst' ⟨w, hv.same hsame hway' hrepl', ?_, fun j _ => ?_⟩
    · rw [next_tracker, hwb', hwb, hsame.rows]
    · -- the copy is that of the cycle before
      change s.wbData j = _
      rw [hwb, hsame.rows]

theorem Inv.tagState_waitB (hst : s.state = .writeBackWaitB) : (s.next i way).TagState store := by
  have hsame := hi.same_next_quiet he way (by simp [hst])
  obtain ⟨hp, w, hv, hback⟩ := hi.tagStateAt hst
  have hv' := hv.next hsame (by simp [hst])
  rw [← hsame.back, ← hsame.metas, ← hsame.rows] at hback
  cases hg : s.outGrantFire i with
  | false =>
    exact tagState_next .writeBackWaitB (by simp [nextState, hst, hg])
      ⟨acqDataProcess_stays (by simp [hst]) hp, w, hv', hback⟩
  | true =>
    refine tagState_next .memReq (by simp [nextState, hst, hg])
      ⟨hv'.ok, hv'.missing, w, hv'.way, fun tag hline => ?_⟩
    rw [← (line_eq_iff.1 hline).2]
    exact hback

/-! ## Refills -/

/-- The last beat of the line has arrived. -/
theorem Inv.fetched (hst : s.state = .memReq) (hp : s.acqDataProcess = false) (hf : s.nrFinish i) :
    (s.toTracker.next i).memTagDataRead = (fun r => rowBits (s.back s.tag r)) ∧
      Filled 3 s.memTagDataRead fun r => rowBits (s.back s.tag r) := by
  simp only [nrFinish, nrCount, outGrantFire, Bool.and_eq_true, beq_iff_eq] at hf
  obtain ⟨⟨⟨hv, _⟩, _⟩, h3⟩ := hf
  have hport := hi.tagPort hp
  simp only [TagPort, hst] at hport
  rcases hport with ⟨_, h0, _⟩ | ⟨_, hport, hfill⟩
  · rw [h0] at h3
    simp at h3
  · have hdata := he.lineData _ hv hport
    rw [h3] at hfill hdata
    refine ⟨?_, hfill⟩
    have hread' : (s.toTracker.next i).memTagDataRead =
        update s.memTagDataRead 3 (rowBits (s.back s.tag 3)) := by
      simp [Tracker.next, hv, memReceiveTag, hst, hp, h3, hdata]
    rw [hread']
    exact Filled.last (n := 3) hfill

/-- The line comes from the tag partition; its way is up for replacement. -/
theorem Inv.tagState_memReq (hst : s.state = .memReq) : (s.next i way).TagState store := by
  have hsame := hi.same_next_quiet he way (by simp [hst])
  obtain ⟨hok, hmiss, w, hway, hsaved⟩ := hi.tagStateAt hst
  have hway' := (acqWayEn_next i way (by simp [hst])).trans hway
  have hmiss' := hmiss.same hsame
  by_cases hf : s.acqDataProcess = false ∧ s.nrFinish i
  · obtain ⟨hp, hf⟩ := hf
    have hcnt' : (s.toTracker.next i).refillDataCnt = 0 := by
      have h0 := hi.rest.refillDataCnt (by simp [hst])
      simp [Tracker.next, refillDataCount, hst, h0]
    have hline : s.back s.tag = store s.tag := hok.represents.of_saved hi.dataLine_tag hmiss
    obtain ⟨hread', hfill⟩ := hi.fetched he hst hp hf
    rw [hline] at hread' hfill
    refine tagState_next .dataWriteRefill (by simp [nextState, hst, hp, hf])
      ⟨acqDataProcess_stays (by simp [hst]) hp, hmiss', ?_, fun j hj => ?_, w, ⟨?_, ?_⟩, hway', ?_⟩
    · rw [hsame.tag]
      exact hread'
    · -- the copy is that of the cycle before
      change s.memTagDataRead j = _
      rw [hsame.tag]
      exact hfill j (Fin.lt_last_iff_ne_last.2 (hj.resolve_right (by simp [hcnt'])))
    · exact (hok.same hsame).dram
    · rw [hsame.metas, hsame.idx, hsame.rows, hsame.back]
      exact hok.represents.release hsaved
    · rw [next_tracker, hcnt']
      exact filled_zero
  · have hst' : s.nextState i = .memReq := by
      simp only [nextState, hst]
      rw [if_neg]
      simpa using hf
    rw [← hsame.metas, ← hsame.rows, ← hsame.back] at hsaved
    exact tagState_next .memReq hst' ⟨hok.same hsame, hmiss', w, hway', hsaved⟩

omit hi he in
/-- During a refill the line is kept, with a copy that lags by one cycle. -/
theorem refill_copies (hst : s.state = .dataWriteRefill)
    (hread : s.memTagDataRead = fun r => rowBits (store s.tag r)) :
    ((s.next i way).memTagDataRead = fun r => rowBits (store (s.next i way).tag r)) ∧
      ∀ j, (s.next i way).refillData j = rowBits (store (s.next i way).tag j) := by
  rw [tag_next (by simp [hst])]
  exact ⟨by simp [Tracker.next, memReceiveTag, hst, hread], fun j => congrFun hread j⟩

/-- A row of the refilled line is written. -/
theorem Inv.tagState_refillRow (hst : s.state = .dataWriteRefill)
    (hr : i.dataWriteReady) : (s.next i way).TagState store := by
  have hs : s.state ≠ .idle := by simp [hst]
  obtain ⟨hp, hmiss, hread, hdata, w, hok, hway, hfill⟩ := hi.tagStateAt hst
  have hp' := acqDataProcess_stays (i := i) hs hp
  have hway' := (acqWayEn_next i way (by simp [hst])).trans hway
  have hmetas : (s.next i way).metas = s.metas := by simp [next, metaWriteValid, hst]
  have hmiss' : (s.next i way).Missing := by
    intro v
    rw [hmetas, tag_next hs]
    exact hmiss v
  have hrow : s.refillData s.refillDataCnt =
      rowBits (store s.tag s.refillDataCnt) := by
    apply hdata
    by_contra h
    push Not at h
    simp [h.1] at h
  have hrows : (s.next i way).rows = update s.rows w (update (s.rows w)
      s.refillDataCnt (store s.tag s.refillDataCnt)) := by
    rw [rows_next_write hway (by simp [dataWriteValid, hst, hr])]
    congr 2
    · simp [dataWriteRow, hst]
    · funext k
      simp [DataArray.writeRow, dataWriteMask, dataWriteBits, hst, hrow]
  have hok' : (s.next i way).Ok store (some w) none := by
    refine ⟨?_, ?_⟩
    · rw [hmetas]
      exact hok.dram
    · rw [hmetas, hrows, next_idx, hi.back_next he (by simp [hst])]
      apply hok.represents.overwrite
      intro v hv
      rw [update_of_ne hv]
  by_cases h3 : s.refillDataCnt = 3
  · refine tagState_next .metaWriteRefill
      (by simp [nextState, hst, refillDataCount, dataWriteValid, hr, h3])
      ⟨hp', hmiss', w, hok', hway', ?_⟩
    rw [hrows, update_self, h3, tag_next hs]
    rw [h3] at hfill
    exact Filled.last (n := 3) hfill
  · have hcnt' : (s.toTracker.next i).refillDataCnt = s.refillDataCnt + 1 := by
      simp [Tracker.next, refillDataCount, dataWriteValid, hst, hr]
    obtain ⟨hread', hcopy⟩ := refill_copies hst hread
    refine tagState_next .dataWriteRefill (by simp [nextState, hst, h3])
      ⟨hp', hmiss', hread', fun j _ => hcopy j, w, hok', hway', ?_⟩
    rw [hrows, update_self, next_tracker, hcnt', tag_next hs]
    exact hfill.push h3

theorem Inv.tagState_dataWriteRefill (hst : s.state = .dataWriteRefill) :
    (s.next i way).TagState store := by
  cases hr : i.dataWriteReady with
  | true => exact hi.tagState_refillRow he hst hr
  | false =>
    have hsame : Same s (s.next i way) :=
      hi.same_next he (by simp [hst]) (by simp [metaWriteValid, hst]) (by simp [hr])
        (by simp [hst])
    obtain ⟨hp, hmiss, hread, hdata, w, hok, hway, hfill⟩ := hi.tagStateAt hst
    have hcnt' : (s.toTracker.next i).refillDataCnt = s.refillDataCnt := by
      simp [Tracker.next, refillDataCount, hr]
    have hway' := (acqWayEn_next i way (by simp [hst])).trans hway
    obtain ⟨hread', hcopy⟩ := refill_copies hst hread
    refine tagState_next .dataWriteRefill (by simp [nextState, hst, refillDataCount, hr])
      ⟨acqDataProcess_stays (by simp [hst]) hp, hmiss.same hsame, hread', fun j _ => hcopy j, w,
        hok.same hsame, hway', ?_⟩
    rwa [next_tracker, hcnt', hsame.rows, hsame.tag]

/-- The refilled way takes the line of the transaction. -/
theorem Inv.tagState_metaWriteRefill (hst : s.state = .metaWriteRefill) :
    (s.next i way).TagState store := by
  have hs : s.state ≠ .idle := by simp [hst]
  obtain ⟨hp, hmiss, w, hok, hway, hrow⟩ := hi.tagStateAt hst
  have hway' := (acqWayEn_next i way (by simp [hst])).trans hway
  have hd : (s.dataWriteValid && i.dataWriteReady) = false := by simp [dataWriteValid, hst]
  cases hr : i.metaWriteReady with
  | false =>
    have hsame : Same s (s.next i way) := hi.same_next he hs (by simp [hr]) hd (by simp [hst])
    rw [← hsame.tag, ← hsame.rows] at hrow
    exact tagState_next .metaWriteRefill (by simp [nextState, hst, hr])
      ⟨acqDataProcess_stays hs hp, hmiss.same hsame, w, hok.same hsame, hway', hrow⟩
  | true =>
    have hmetas : (s.next i way).metas = update s.metas w s.metaWriteTag :=
      metas_next_write hway (by simp [metaWriteValid, hst, hr])
    have hrows : (s.next i way).rows = s.rows := by simp [next, hd]
    have hok' : (s.next i way).Ok store none none := by
      refine ⟨hi.dram_next hok.dram hmetas, ?_⟩
      rw [hmetas, next_idx, hrows, hi.back_next he (by simp [hst]), entryOf_update,
        entryOf_metaWriteTag, hst]
      exact hok.represents.fill hi.dataLine_tag hmiss hrow
    have hhit : (s.next i way).Hit w := by
      refine ⟨hway', ?_⟩
      rw [hmetas, update_self, entryOf_metaWriteTag, tag_next hs]
    have hwp' : (s.toTracker.next i).isWriteProcess = s.isWriteProcess :=
      isWriteProcess_next hs (by simp [nextState, hst, hr]; split <;> simp)
    cases hwp : s.isWriteProcess with
    | true =>
      exact tagState_next .dataWriteHit (by simp [nextState, hst, hr, hwp])
        ⟨hwp'.trans hwp, hok', w, hhit⟩
    | false => exact tagState_next .dataReadHit (by simp [nextState, hst, hr, hwp]) ⟨hok', w, hhit⟩

/-! ## The answer -/

omit he in
/-- The answer of a transaction stays in place until the tracker is idle. -/
theorem Inv.answer_next (hst : s.state = .gnt ∨ s.state = .busy)
    (hn : s.nextState i ≠ .idle) (ha : s.Answer store) : (s.next i way).Answer store := by
  have hs : s.state ≠ .idle := by rcases hst with h | h <;> simp [h]
  have hwp' : (s.toTracker.next i).isWriteProcess = s.isWriteProcess := isWriteProcess_next hs hn
  have hdata' : (s.toTracker.next i).acqData = s.acqData := by
    rw [acqData_next, hi.wf.collected (by rcases hst with h | h <;> simp [h])]
    rfl
  have hgnt' : (s.toTracker.next i).gntTag = s.gntTag := by
    rcases hst with h | h <;> simp [Tracker.next, h]
  rw [Answer] at ha ⊢
  rw [slotTags_next hs, next_tracker, hwp', hdata', hgnt']
  exact ha

theorem Inv.tagState_gnt (hst : s.state = .gnt) : (s.next i way).TagState store := by
  have hsame := hi.same_next_quiet he way (by simp [hst])
  obtain ⟨hok, ha⟩ := hi.tagStateAt hst
  have hn : s.nextState i ≠ .idle := by
    simp only [nextState, hst]
    split <;> simp
  have ha' : (s.next i way).Answer store := hi.answer_next (.inl hst) hn ha
  cases hp : s.acqDataProcess with
  | true => exact tagState_next .gnt (by simp [nextState, hst, hp]) ⟨hok.same hsame, ha'⟩
  | false =>
    exact tagState_next .busy (by simp [nextState, hst, hp])
      ⟨acqDataProcess_stays (by simp [hst]) hp, hok.same hsame, ha',
        fun _ _ => by simp [Tracker.next, hst, hp]⟩

theorem Inv.tagState_busy (hst : s.state = .busy) (hn : s.nextState i ≠ .idle) :
    (s.next i way).TagState store := by
  have hsame := hi.same_next_quiet he way (by simp [hst])
  obtain ⟨hp, hok, ha, _⟩ := hi.tagStateAt hst
  have ha' : (s.next i way).Answer store := hi.answer_next (.inr hst) hn ha
  have hst' : s.nextState i = .busy := by
    simp only [nextState, hst] at hn ⊢
    split at hn <;> simp_all
  exact tagState_next .busy hst' ⟨acqDataProcess_stays (by simp [hst]) hp, hok.same hsame, ha',
    fun _ _ => by simp [Tracker.next, hst, hp]⟩

/-! ## All states -/

theorem Inv.tagState_next (hn : s.nextState i ≠ .idle) :
    (s.next i way).TagState (s.nextStore i store) := by
  by_cases hwrite : s.state = .dataWriteHit
  · exact hi.tagState_dataWriteHit he hwrite
  rw [nextStore_eq hwrite]
  cases hst : s.state with
  | idle | dummyWait => exact (hi.tagStateAt hst).elim
  | metaRead => exact hi.tagState_metaRead he hst
  | metaResp => exact hi.tagState_metaResp he hst
  | dataReadHit => exact hi.tagState_dataReadHit he hst
  | dataRespHit => exact hi.tagState_dataRespHit he hst
  | dataWriteHit => exact absurd hst hwrite
  | metaWriteHit => exact hi.tagState_metaWriteHit he hst
  | dataReadWb => exact hi.tagState_dataReadWb he hst
  | dataRespWb => exact hi.tagState_dataRespWb he hst
  | dataRespWbDone => exact hi.tagState_dataRespWbDone he hst
  | writeBack => exact hi.tagState_writeBack he hst
  | writeBackWaitB => exact hi.tagState_waitB he hst
  | memReq => exact hi.tagState_memReq he hst
  | dataWriteRefill => exact hi.tagState_dataWriteRefill he hst
  | metaWriteRefill => exact hi.tagState_metaWriteRefill he hst
  | gnt => exact hi.tagState_gnt he hst
  | busy => exact hi.tagState_busy he hst hn

end States

end Slice

end TaggedRiscv.TagCache
