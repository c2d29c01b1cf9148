import TaggedRiscv.TagCache.Composition

/-!
# The tags that the tag cache represents

Behind the cache and the tag partition stands one table of tags. A write changes its slot of the
table when it writes the data array; everything else the trackers do, lookups, evictions and
refills, leaves the table alone.
-/

namespace TaggedRiscv.TagCache

open Sync TagUtil Function Tracker

variable {n : ℕ} {g : Geometry}

/-! ## The table of tags -/

/-- The tags of a block in a table of lines. -/
def tagsAt (store : ℕ → Fin 4 → Row) (addr : ℕ) : Slot :=
  store (addr / 16) (addrToRow addr) (rowOffset addr)

/-- The table after the tags of a block were changed. -/
def setTags (store : ℕ → Fin 4 → Row) (addr : ℕ) (tags : Slot) : ℕ → Fin 4 → Row :=
  update store (addr / 16)
    (update (store (addr / 16)) (addrToRow addr)
      (update (store (addr / 16) (addrToRow addr)) (rowOffset addr) tags))

/-- The lines of a set, known by their tags. -/
def storeAt (store : ℕ → Fin 4 → Row) (idx : Fin g.nSets) (tag : ℕ) : Fin 4 → Row :=
  store (lineAt idx tag)

theorem addr_ext {x y : ℕ} (hl : x / 16 = y / 16) (hr : addrToRow x = addrToRow y)
    (ho : rowOffset x = rowOffset y) : x = y := by
  have hr' : x / 4 % 4 = y / 4 % 4 := congrArg Fin.val hr
  have ho' : x % 4 = y % 4 := congrArg Fin.val ho
  omega

variable {store : ℕ → Fin 4 → Row}

theorem tagsAt_setTags_of_ne {x y : ℕ} (h : y ≠ x) (tags : Slot) :
    tagsAt (setTags store x tags) y = tagsAt store y := by
  unfold tagsAt setTags
  by_cases hl : y / 16 = x / 16
  · rw [hl, update_self]
    by_cases hr : addrToRow y = addrToRow x
    · rw [hr, update_self, update_of_ne]
      exact fun ho => h (addr_ext hl hr ho)
    · rw [update_of_ne hr]
  · rw [update_of_ne hl]

variable {idx : Fin g.nSets}

theorem storeAt_setTags_of_ne {x : ℕ} (h : addrToIndex g x ≠ idx) (tags : Slot) :
    storeAt (setTags store x tags) idx = storeAt store idx := by
  funext tag
  unfold storeAt setTags
  rw [update_of_ne]
  rw [← lineAt_addr (g := g) x]
  exact fun he => h (lineAt_inj he).1.symm

theorem storeAt_setTags {x : ℕ} (tags : Slot) :
    storeAt (setTags store x tags) (addrToIndex g x) =
      update (storeAt store (addrToIndex g x)) (tagOf g x)
        (update (storeAt store (addrToIndex g x) (tagOf g x)) (addrToRow x)
          (update (storeAt store (addrToIndex g x) (tagOf g x) (addrToRow x))
            (rowOffset x) tags)) := by
  funext tag
  unfold storeAt setTags
  by_cases h : tag = tagOf g x
  · subst h
    rw [lineAt_addr, update_self, update_self]
  · rw [update_of_ne h, update_of_ne]
    rw [← lineAt_addr (g := g) x]
    exact fun he => h (lineAt_inj he).2

/-! ## Block transactions -/

/-- A request is a transaction of a whole block. -/
def Request.isBlock : Request → Bool
  | acquire m =>
    m.aType = .custom || m.aType = .builtIn .getBlockType || m.aType = .builtIn .putBlockType
  | release _ => true

theorem Request.readsBlock_of_isBlock {r : Request} (h : r.isBlock) :
    r.readsBlock = !r.isWrite := by
  cases r with
  | release m => rfl
  | acquire m =>
    simp only [isBlock, Bool.or_eq_true, decide_eq_true_eq] at h
    rcases h with (h | h) | h <;> simp only [readsBlock, isWrite, h] <;> rfl

theorem Request.isRead_of_isBlock {r : Request} (h : r.isBlock)
    (hw : r.isWrite = false) : r.isRead := by
  cases r with
  | release m => exact absurd hw (by simp [isWrite])
  | acquire m =>
    simp only [isBlock, Bool.or_eq_true, decide_eq_true_eq] at h
    rcases h with (h | h) | h <;> simp only [isRead, h] <;> rfl

/-! ## The ledger -/

/-- The beats taken for a block. -/
def blockOf (taken : List Beat) : Block := fun j => taken.getD j.val 0

/-- For every tracker the transaction it accepted last, and for every block what the
last finished write put there. -/
structure Ledger (n : ℕ) where
  forward : Fin n → Forward
  last : ℕ → Block

/-- A tracker finishes a write to a block in this cycle. -/
def finishesWrite (l : Ledger n) (c : TagCache n g) (i : CacheIn n g) (addr : ℕ)
    (k : Fin n) : Bool :=
  decide ((c.tracker k).state ≠ .idle) &&
    decide ((c.tracker k).nextState (c.trackerIn i k) = .idle) &&
    ((l.forward k).request.any (·.isWrite)) && decide ((l.forward k).addr = addr)

/-- The ledger after a cycle. -/
def Ledger.step (l : Ledger n) (c : TagCache n g) (i : CacheIn n g) : Ledger n :=
  { forward := fun k => (l.forward k).step c i k
    last := fun addr =>
      match (List.finRange n).find? (finishesWrite l c i addr) with
      | some k => blockOf (l.forward k).taken
      | none => l.last addr }

namespace Sys

variable (s : Sys n g) (i : SysIn n g)

/-- The table of tags after a cycle. -/
def nextStore (store : ℕ → Fin 4 → Row) : ℕ → Fin 4 → Row :=
  match s.cache.dataWriter with
  | some k =>
    if (s.tracker k).state = .dataWriteHit then
      setTags store (s.tracker k).addrOut (blockTags (s.tracker k).acqData)
    else store
  | none => store

/-- The tagged contents of a block. -/
def content (store : ℕ → Fin 4 → Row) (addr : ℕ) : Block :=
  joinTags (s.mem addr) (tagsAt store addr)

/-! ## The environment -/


/-- What is accepted is a transaction of a block of data. -/
def Requests : Prop :=
  ∀ k, ∀ r ∈ (s.tracker k).requestOf (s.trackerIn i k),
    r.isBlock = true ∧ InWindow (addrOf (s.trackerIn i k) r)

/-- A tracker accepts a transaction only for a set on which no other one works. -/
def Apart : Prop :=
  ∀ k, ∀ r ∈ (s.tracker k).requestOf (s.trackerIn i k),
    ∀ j, s.Active j → s.set j ≠ addrToIndex g (addrOf (s.trackerIn i k) r)

/-- While a tracker writes a line back, the DRAM bit in the metadata array's response
register is that of the line. -/
def DramBit : Prop :=
  ∀ k, (s.tracker k).memSendTag = true →
    s.cache.metaArr.resp.tag.dram = (s.tracker k).acqReplMeta.dram

/-- The environment of the tag cache: the memory answers what is due, and what is
accepted is a transaction of a block of data. -/
structure Assumed : Prop where
  memory : s.MemoryOk i
  requests : s.Requests i

/-- What the trackers rely on beyond that: a tracker sees its own beats, works on its
set alone, and finds the right DRAM bit. -/
structure Allowed : Prop extends Assumed s i where
  own : OwnBeats s.cache (s.cacheIn i)
  apart : s.Apart i
  dram : s.DramBit

instance : Decidable (s.Assumed i) := by
  have : Decidable (s.Requests i) := by unfold Requests; infer_instance
  exact decidable_of_iff (s.MemoryOk i ∧ s.Requests i)
    ⟨fun h => ⟨h.1, h.2⟩, fun h => ⟨h.memory, h.requests⟩⟩

instance : Decidable (s.Allowed i) := by
  have : Decidable (s.Apart i) := by unfold Apart; infer_instance
  have : Decidable s.DramBit := by unfold DramBit; infer_instance
  exact decidable_of_iff (s.Assumed i ∧ OwnBeats s.cache (s.cacheIn i) ∧ s.Apart i ∧ s.DramBit)
    ⟨fun h => ⟨h.1, h.2.1, h.2.2.1, h.2.2.2⟩, fun h => ⟨h.toAssumed, h.own, h.apart, h.dram⟩⟩

/-! ## The invariant -/

/-- A tracker without a transaction. -/
structure Resting (k : Fin n) : Prop where
  port : s.port k = .idle
  nrCnt : (s.tracker k).nrCnt = 0
  rest : (s.slice k).Rest

/-- No tracker works on a set. -/
def Free (idx : Fin g.nSets) : Prop := ∀ k, s.Active k → s.set k ≠ idx

/-- A set as it is in the arrays and in the tag partition. -/
def SetAt (store : ℕ → Fin 4 → Row) (idx : Fin g.nSets) : Prop :=
  SetOk idx (s.metas idx) (fun w => s.cache.dataArr.array w idx)
    (lines s.mem idx) (storeAt store idx) none none

/-- The invariant of the system. The trackers work on different sets, each in the state
its slice should be in; every other set represents its tags; and the contents of the
blocks that nobody writes are what was written last. -/
structure Inv (l : Ledger n) (store : ℕ → Fin 4 → Row) : Prop where
  swept : s.Swept
  ids : DistinctIds s.cache
  forward : ∀ k, Forward.Inv (s.tracker k) (l.forward k)
  latched : ∀ k, s.Latched k
  alone : ∀ j k, s.Active j → s.Active k → s.set j = s.set k → j = k
  active : ∀ k, s.Active k → (s.slice k).Inv (storeAt store (s.set k))
  resting : ∀ k, ¬ s.Active k → s.Resting k
  free : ∀ idx, s.Free idx → s.SetAt store idx
  last : ∀ addr, InWindow addr →
    (∀ k, s.Active k → (s.tracker k).isWriteProcess → (s.tracker k).addrOut ≠ addr) →
    s.content store addr = l.last addr

variable {s i} {l : Ledger n} {store : ℕ → Fin 4 → Row} {k : Fin n}

/-! ## The step of the table -/

/-- The table changes in the set of the tracker that writes a hit. -/
theorem storeAt_nextStore_of_ne (h : ∀ k, s.cache.dataWriter = some k → s.set k ≠ idx) :
    storeAt (s.nextStore store) idx = storeAt store idx := by
  unfold nextStore
  cases hw : s.cache.dataWriter with
  | none => rfl
  | some k =>
    dsimp only
    split
    · exact storeAt_setTags_of_ne (h k hw) _
    · rfl

/-- The table of a tracker's set follows the slice. -/
theorem storeAt_nextStore (halone : ∀ j, s.Active j → s.set j = s.set k → j = k) :
    storeAt (s.nextStore store) (s.set k) =
      (s.slice k).nextStore (s.trackerIn i k) (storeAt store (s.set k)) := by
  have hready : (s.trackerIn i k).dataWriteReady ↔ s.cache.dataWriter = some k := beq_iff_eq
  by_cases hw : s.cache.dataWriter = some k
  · have hv : (s.tracker k).dataWriteValid := LockArb.valid_of_chosen _ hw
    unfold nextStore Slice.nextStore
    simp only [hw]
    by_cases hst : (s.tracker k).state = .dataWriteHit
    · have hc : (s.tracker k).collectAcqData = false := by
        simpa [dataWriteValid, hst] using hv
      rw [if_pos hst, if_pos ⟨hst, hc, hready.2 hw⟩]
      exact storeAt_setTags _
    · rw [if_neg hst, if_neg fun h => hst h.1]
  · rw [Slice.nextStore, if_neg fun h => hw (hready.1 h.2.2)]
    apply storeAt_nextStore_of_ne
    intro j hj hset
    exact hw (halone j (active_of_dataWriter hj) hset ▸ hj)

/-- The tags of a block that nobody writes stay. -/
theorem tagsAt_nextStore {addr : ℕ}
    (h : ∀ k, s.Active k → (s.tracker k).state = .dataWriteHit → (s.tracker k).addrOut ≠ addr) :
    tagsAt (s.nextStore store) addr = tagsAt store addr := by
  unfold nextStore
  cases hw : s.cache.dataWriter with
  | none => rfl
  | some k =>
    dsimp only
    split
    next hst => exact tagsAt_setTags_of_ne (Ne.symm (h k (active_of_dataWriter hw) hst)) _
    next => rfl

/-! ## One step -/

section Step

variable (hi : s.Inv l store)

include hi

theorem Inv.wf (k : Fin n) : (s.tracker k).Wf := (hi.forward k).wf

/-- An idle tracker rests through a cycle, whether or not it accepts a transaction. -/
theorem Inv.resting_next (hmem : s.MemoryOk i) (hk : ¬ s.Active k) : (s.next i).Resting k := by
  have hs : (s.tracker k).state = .idle := not_not.1 hk
  obtain ⟨hport, hnr, hrest⟩ := hi.resting k hk
  have hmt : s.metaToken k = .none := hrest.metaToken (by simp [hs])
  have hdt : s.dataToken k = none := hrest.dataToken (by simp [hs])
  have hf : (s.tracker k).outAcquireFire (s.trackerIn i k) ≠ true := fun hf =>
    active_of_outServed (hi.wf k) (outAcquireFire_iff.1 hf) hs
  have hg : (s.tracker k).outGrantFire (s.trackerIn i k) ≠ true := by
    intro hg
    have hdue := hmem k (outGrantValid_iff.1 (Bool.and_eq_true _ _ ▸ hg).1)
    rw [hport] at hdue
    exact absurd hdue (by simp [Port.due])
  have hresp : (s.trackerIn i k).dataRespValid = false := by
    change s.cache.dataArr.respValidFor k = false
    by_contra hans
    have hans' : s.cache.dataArr.respValidFor k := by simpa using hans
    rw [dataToken, if_pos hans', Option.map_eq_none_iff] at hdt
    simp [DataArray.respValidFor, hdt] at hans'
  refine ⟨?_, ?_, ?_⟩
  · change (if (s.tracker k).outAcquireFire (s.trackerIn i k) then _
      else if (s.tracker k).outGrantFire (s.trackerIn i k) then _ else s.port k) = _
    rw [if_neg hf, if_neg hg, hport]
  · change ((s.tracker k).next (s.trackerIn i k)).nrCnt = 0
    simp [Tracker.next, nrCount, hg, hnr]
  · refine
      { memTagDataWriteCnt := fun _ => ?_
        wbReadCnt := fun _ => ?_
        wbDataCnt := fun _ => ?_
        refillDataCnt := fun _ => ?_
        unsent := fun _ => ?_
        metaToken := fun _ => ?_
        dataToken := fun _ => ?_ }
    · have h0 := hrest.memTagDataWriteCnt (by simp [hs])
      simpa [next_tracker, Tracker.next, memTagDataWriteCount, hf] using h0
    · have h0 := hrest.wbReadCnt (by simp [hs])
      simpa [next_tracker, Tracker.next, wbReadCount, dataReadValid, hs] using h0
    · have h0 := hrest.wbDataCnt (by simp [hs])
      simpa [next_tracker, Tracker.next, wbDataCount, hresp] using h0
    · have h0 := hrest.refillDataCnt (by simp [hs])
      simpa [next_tracker, Tracker.next, refillDataCount, hs] using h0
    · have h0 := hrest.memTagDataWriteCnt (by simp [hs])
      simpa [next_tracker, Tracker.next, memTagDataWriteCount, hf] using h0
    · change (s.next i).metaToken k = .none
      rw [metaToken_next (hi.latched k) fun h => absurd hmt h, hmt]
      simp [metaReadValid, hs]
    · change (s.next i).dataToken k = none
      simp [dataToken_next, dataReadValid, hs]

variable (ha : s.Allowed i)

include ha

theorem Inv.env (hk : s.Active k) : (s.slice k).Env (s.trackerIn i k) :=
  Sys.env (hi.active k hk) (hi.latched k) ha.memory (ha.own k).1 (ha.dram k)

theorem Inv.active_env (j : Fin n) (hj : s.Active j) :
    ∃ store, (s.slice j).Inv store ∧ (s.slice j).Env (s.trackerIn i j) :=
  ⟨_, hi.active j hj, hi.env ha hj⟩

/-- The slice of a tracker with a transaction makes its own clock edge. -/
theorem Inv.slice_next (hk : s.Active k) :
    (s.next i).slice k = (s.slice k).next (s.trackerIn i k) i.replaceWay :=
  Sys.slice_next hi.swept hk (fun j hj hset => hi.alone j k hj hk hset) hi.wf (hi.active_env ha)
    (hi.latched k)

theorem Inv.active_next (hk : s.Active k) (hn : (s.next i).Active k) :
    ((s.next i).slice k).Inv (storeAt (s.nextStore store) ((s.next i).set k)) := by
  rw [hi.slice_next ha hk, set_next hk,
    storeAt_nextStore (i := i) fun j hj hset => hi.alone j k hj hk hset]
  exact (hi.active k hk).next (hi.env ha hk) hn

/-- A set on which nobody works stays as it is. -/
theorem Inv.setAt_next (hf : s.Free idx) : (s.next i).SetAt (s.nextStore store) idx := by
  have hok := hi.free idx hf
  have hmetas : (s.next i).metas idx = s.metas idx := by
    rw [metas_next hi.swept]
    cases hw : s.cache.metaWriter with
    | none => simp
    | some j => simp [hf j (active_of_metaWriter hw)]
  have hrows : (fun w => (s.next i).cache.dataArr.array w idx) =
      fun w => s.cache.dataArr.array w idx := by
    funext w
    rw [array_next]
    cases hw : s.cache.dataWriter with
    | none => rfl
    | some j => simp [hf j (active_of_dataWriter hw)]
  have hlines : lines (s.next i).mem idx = lines s.mem idx :=
    lines_frame hi.wf (hi.active_env ha) fun j hj => hf j (active_of_outServed (hi.wf j) hj)
  have hstore : storeAt (s.nextStore store) idx = storeAt store idx :=
    storeAt_nextStore_of_ne fun j hj => hf j (active_of_dataWriter hj)
  rw [SetAt, hmetas, hrows, hlines, hstore]
  exact hok

/-- A tracker that finishes leaves its set in order. -/
theorem Inv.setAt_finish (hk : s.Active k) (hn : ¬ (s.next i).Active k) :
    (s.next i).SetAt (s.nextStore store) (s.set k) := by
  have hidle : (s.slice k).nextState (s.trackerIn i k) = .idle := not_not.1 hn
  have hok : ((s.next i).slice k).Ok (storeAt store (s.set k)) none none := by
    rw [hi.slice_next ha hk]
    exact (hi.active k hk).ok_of_idle (hi.env ha hk) hk hidle
  have hstore : storeAt (s.nextStore store) (s.set k) = storeAt store (s.set k) := by
    rw [storeAt_nextStore (i := i) fun j hj hset => hi.alone j k hj hk hset]
    have hb : (s.tracker k).state = .busy := Slice.busy_of_idle (s := s.slice k) hk hidle
    exact Slice.nextStore_eq (by simp [hb])
  have hset : (s.next i).set k = s.set k := set_next hk
  unfold Slice.Ok at hok
  change SetOk ((s.next i).set k) ((s.next i).metas ((s.next i).set k))
    (fun w => (s.next i).cache.dataArr.array w ((s.next i).set k))
    (lines (s.next i).mem ((s.next i).set k)) _ none none at hok
  rw [hset] at hok
  rw [SetAt, hstore]
  exact hok

/-- A tracker accepts a transaction. -/
theorem Inv.accept_next (hk : ¬ s.Active k) (hn : (s.next i).Active k) :
    ((s.next i).slice k).Inv (storeAt (s.nextStore store) ((s.next i).set k)) ∧
      s.Free ((s.next i).set k) := by
  have hs : (s.tracker k).state = .idle := not_not.1 hk
  cases hr : (s.tracker k).requestOf (s.trackerIn i k) with
  | none => exact absurd (idle_next hs hr) hn
  | some r =>
    obtain ⟨hblock, hwin⟩ := ha.requests k r hr
    have hopen := (hi.wf k).opened hs hr
    have hrest := hi.resting_next ha.memory hk
    have hset : (s.next i).set k = addrToIndex g (addrOf (s.trackerIn i k) r) :=
      congrArg (addrToIndex g) hopen.addrOut
    have hfree : s.Free ((s.next i).set k) := hset ▸ ha.apart k r hr
    have hcnt : ((s.tracker k).next (s.trackerIn i k)).acqDataCnt = 0 := by
      have hw := ((hi.wf k).done ((hi.wf k).process_of_idle hs)).2.1
      rw [acqDataCnt_next, if_neg (by simp [acqDataCount, hw])]
      exact (hi.forward k).cnt ((hi.wf k).read_of_idle hs)
    refine ⟨Slice.Inv.of_opened hopen (hi.wf k).next hset hwin
      (Request.isRead_of_isBlock hblock) (Request.readsBlock_of_isBlock hblock) hrest.port hcnt
      hrest.nrCnt hrest.rest (hi.setAt_next ha hfree), hfree⟩

/-- The trackers keep working on different sets. -/
theorem Inv.alone_next (j k : Fin n) (hj : (s.next i).Active j) (hk : (s.next i).Active k)
    (hset : (s.next i).set j = (s.next i).set k) : j = k := by
  by_cases hj0 : s.Active j <;> by_cases hk0 : s.Active k
  · rw [set_next hj0, set_next hk0] at hset
    exact hi.alone j k hj0 hk0 hset
  · rw [set_next hj0] at hset
    exact absurd hset ((hi.accept_next ha hk0 hk).2 j hj0)
  · rw [set_next hk0] at hset
    exact absurd hset.symm ((hi.accept_next ha hj0 hj).2 k hk0)
  · exact accept_unique (not_not.1 hj0) hj (not_not.1 hk0) hk

theorem Inv.free_next (hf : (s.next i).Free idx) : (s.next i).SetAt (s.nextStore store) idx := by
  by_cases hold : s.Free idx
  · exact hi.setAt_next ha hold
  · simp only [Free, not_forall, not_not] at hold
    obtain ⟨k, hk, rfl⟩ := hold
    apply hi.setAt_finish ha hk
    intro hn
    exact hf k hn (set_next hk)

/-! ## The last writes -/

omit ha in
/-- The block that a write has taken. -/
theorem Inv.blockOf_taken (hk : s.Active k) (hw : (s.tracker k).isWriteProcess)
    (hc : (s.tracker k).collectAcqData = false) :
    (l.forward k).request.any (·.isWrite) ∧ (l.forward k).addr = (s.tracker k).addrOut ∧
      blockOf (l.forward k).taken = (s.tracker k).acqData := by
  obtain ⟨r, hr, _, hwp, haddr, _⟩ := (hi.forward k).open_ hk
  have hrw : r.isWrite := hwp ▸ hw
  have hcnt := (hi.forward k).counted r hr hrw
  refine ⟨by simp [hr, hrw], haddr.symm, ?_⟩
  funext j
  have hj := hcnt.stored j (by rw [(hcnt.collected hc).1]; exact j.isLt)
  simp [blockOf, hj]

omit ha in
/-- A tracker that finishes a write has written its block. -/
theorem Inv.finishesWrite_iff {addr : ℕ} :
    finishesWrite l s.cache (s.cacheIn i) addr k ↔
      s.Active k ∧ ¬ (s.next i).Active k ∧ (s.tracker k).isWriteProcess ∧
        (s.tracker k).addrOut = addr := by
  simp only [finishesWrite, Bool.and_eq_true, decide_eq_true_eq]
  constructor
  · rintro ⟨⟨⟨hk, hn⟩, hw⟩, haddr⟩
    obtain ⟨r, hr, _, hwp, hadr, _⟩ := (hi.forward k).open_ hk
    rw [hr] at hw
    exact ⟨hk, not_not.2 hn, hwp.trans hw, hadr.trans haddr⟩
  · rintro ⟨hk, hn, hw, haddr⟩
    have hb : (s.tracker k).state = .busy := Slice.busy_of_idle (s := s.slice k) hk (not_not.1 hn)
    obtain ⟨h1, h2, _⟩ := hi.blockOf_taken hk hw ((hi.wf k).collected (by simp [hb]))
    exact ⟨⟨⟨hk, not_not.1 hn⟩, h1⟩, h2.trans haddr⟩

/-- The contents of a block at the end of a write to it. -/
theorem Inv.content_finish (hk : s.Active k) (hn : ¬ (s.next i).Active k)
    (hw : (s.tracker k).isWriteProcess) :
    (s.next i).content (s.nextStore store) (s.tracker k).addrOut = (s.tracker k).acqData := by
  have hidle : (s.slice k).nextState (s.trackerIn i k) = .idle := not_not.1 hn
  have hb : (s.tracker k).state = .busy := Slice.busy_of_idle (s := s.slice k) hk hidle
  have hik := hi.active k hk
  obtain ⟨hp, _, hans⟩ := hik.finished hk hidle
  have hmem : (s.next i).mem (s.tracker k).addrOut =
      fun j => removeTag ((s.tracker k).acqData j) := by
    have hblock : ((s.next i).slice k).block = (s.slice k).block := by
      rw [hi.slice_next ha hk]
      exact hik.block_done (hi.env ha hk) hp
    have haddr : ((s.next i).tracker k).addrOut = (s.tracker k).addrOut := addrOut_next hk
    change (s.next i).mem ((s.next i).tracker k).addrOut = s.mem (s.tracker k).addrOut at hblock
    rw [haddr] at hblock
    rw [hblock]
    exact (hik.own.collected hw ((hi.wf k).collected (by simp [hb]))).2.1
  have htags : tagsAt (s.nextStore store) (s.tracker k).addrOut =
      blockTags (s.tracker k).acqData := by
    rw [tagsAt_nextStore]
    · have hslot : (s.slice k).slotTags (storeAt store (s.set k)) =
          tagsAt store (s.tracker k).addrOut := by
        change store (lineAt (addrToIndex g (s.tracker k).addrOut)
          (tagOf g (s.tracker k).addrOut)) _ _ = _
        rw [lineAt_addr]
        rfl
      have hw' : (s.slice k).isWriteProcess := hw
      rw [Slice.Answer, if_pos hw', hslot] at hans
      exact hans
    · intro j hj hst haddr
      have hset : s.set j = s.set k := congrArg (addrToIndex g) haddr
      obtain rfl := hi.alone j k hj hk hset
      rw [hst] at hb
      exact absurd hb (by simp)
  rw [content, hmem, htags, joinTags_removeTag_blockTags]

/-- A block that nobody writes has the contents that were written last. -/
theorem Inv.last_next {addr : ℕ} (hwin : InWindow addr)
    (hno : ∀ k, (s.next i).Active k → ((s.next i).tracker k).isWriteProcess →
      ((s.next i).tracker k).addrOut ≠ addr) :
    (s.next i).content (s.nextStore store) addr = (l.step s.cache (s.cacheIn i)).last addr := by
  change _ = match (List.finRange n).find? (finishesWrite l s.cache (s.cacheIn i) addr) with
    | some k => blockOf (l.forward k).taken
    | none => l.last addr
  cases hfind : (List.finRange n).find? (finishesWrite l s.cache (s.cacheIn i) addr) with
  | some k =>
    obtain ⟨hk, hn, hw, rfl⟩ := hi.finishesWrite_iff.1 (List.find?_some hfind)
    have hb : (s.tracker k).state = .busy := Slice.busy_of_idle (s := s.slice k) hk (not_not.1 hn)
    rw [hi.content_finish ha hk hn hw]
    exact (hi.blockOf_taken hk hw ((hi.wf k).collected (by simp [hb]))).2.2.symm
  | none =>
    have hfin := List.find?_eq_none.1 hfind
    -- a write that does not finish goes on, so nobody writes the block
    have hquiet : ∀ k, s.Active k → (s.tracker k).isWriteProcess →
        (s.tracker k).addrOut ≠ addr := by
      intro k hk hw haddr
      by_cases hn : (s.next i).Active k
      · refine hno k hn ?_ ((addrOut_next hk).trans haddr)
        exact (isWriteProcess_next hk hn).trans hw
      · exact hfin k (List.mem_finRange k) (hi.finishesWrite_iff.2 ⟨hk, hn, hw, haddr⟩)
    have htags : tagsAt (s.nextStore store) addr = tagsAt store addr := by
      apply tagsAt_nextStore
      intro k hk hst
      exact hquiet k hk ((hi.active k hk).tagStateAt hst).1
    rw [content, mem_frame hi.wf (hi.active_env ha) hwin hquiet, htags]
    exact hi.last addr hwin hquiet

theorem Inv.next : (s.next i).Inv (l.step s.cache (s.cacheIn i)) (s.nextStore store) := by
  have hread : ∀ k, s.metaToken k ≠ .none → (s.tracker k).metaReadValid = false := by
    intro k htok
    by_cases hk : s.Active k
    · exact (hi.active k hk).metaReadValid_of_token htok
    · have hs : (s.tracker k).state = .idle := not_not.1 hk
      simp [metaReadValid, hs]
  refine
    { swept := swept_next hi.swept
      ids := distinct_ids_next hi.ids
      forward := fun k => Forward.step_inv hi.ids ha.own (hi.forward k)
      latched := fun k => latched_next (hi.latched k) (hread k)
      alone := hi.alone_next ha
      active := fun k hn => ?_
      resting := fun k hn => ?_
      free := fun idx hf => hi.free_next ha hf
      last := fun addr hwin hno => hi.last_next ha hwin hno }
  · by_cases hk : s.Active k
    · exact hi.active_next ha hk hn
    · exact (hi.accept_next ha hk hn).1
  · by_cases hk : s.Active k
    · have hidle : (s.slice k).nextState (s.trackerIn i k) = .idle := not_not.1 hn
      obtain ⟨hport, hnr⟩ := (hi.active k hk).port_of_idle i.replaceWay hk hidle
      have hrest : ((s.slice k).next (s.trackerIn i k) i.replaceWay).Rest :=
        (hi.active k hk).rest_next (hi.env ha hk) hk
      rw [← hi.slice_next ha hk] at hport hrest
      exact ⟨hport, hnr, hrest⟩
    · exact hi.resting_next ha.memory hk

end Step

end Sys

end TaggedRiscv.TagCache
