import TaggedRiscv.TagCache.Tags

/-!
# Concurrent trackers

Any number of trackers share the arrays. The cache does not check that two trackers work on
different sets, nor does a tracker keep the DRAM bit of the line it evicts: it takes that bit from
the metadata array's response register when it sends the line. As long as neither matters, and the
channels show every tracker its own beats, no tag is lost.
-/

namespace TaggedRiscv.TagCache

open Sync TagUtil

variable {n : ℕ} {g : Geometry}

namespace Slice

variable {s : Slice g} {store : ℕ → Fin 4 → Row}

/-- In every state of a transaction its set represents the tags, up to some ways. -/
theorem Inv.exists_ok (hi : s.Inv store) : ∃ refilling modified, s.Ok store refilling modified := by
  cases hst : s.state <;> have htag := hi.tagStateAt hst
  case idle | dummyWait => exact htag.elim
  case metaRead => exact ⟨_, _, htag⟩
  case metaResp | dataReadHit | dataRespHit | memReq | gnt => exact ⟨_, _, htag.1⟩
  case dataWriteHit | busy => exact ⟨_, _, htag.2.1⟩
  case metaWriteHit =>
    obtain ⟨_, _, hok, _⟩ := htag
    exact ⟨_, _, hok⟩
  case dataReadWb =>
    obtain ⟨_, hv⟩ := htag
    exact ⟨_, _, hv.ok⟩
  case dataRespWb | dataRespWbDone | writeBack =>
    obtain ⟨_, hv, _⟩ := htag
    exact ⟨_, _, hv.ok⟩
  case writeBackWaitB =>
    obtain ⟨_, _, hv, _⟩ := htag
    exact ⟨_, _, hv.ok⟩
  case dataWriteRefill =>
    obtain ⟨_, _, _, _, _, hok, _⟩ := htag
    exact ⟨_, _, hok⟩
  case metaWriteRefill =>
    obtain ⟨_, _, _, hok, _⟩ := htag
    exact ⟨_, _, hok⟩

end Slice

/-! ## What is claimed -/

namespace Sys

variable (s : Sys n g) (l : Ledger n)

/-- Once the metadata is cleared, no set holds two valid ways with the same tag. -/
def NoDuplicates : Prop :=
  s.cache.metaArr.rst = false → ∀ idx w w',
    (s.cache.metaArr.metaArray idx w).valid = true →
    (s.cache.metaArr.metaArray idx w').valid = true →
    (s.cache.metaArr.metaArray idx w).tag = (s.cache.metaArr.metaArray idx w').tag → w = w'
deriving Decidable

/-- A beat of a write back goes to the block of the tag partition from which the blocks
of the evicted line fetch their tags, with a row of the line, and the line has the tags
that were last written. -/
def WritesBack (i : SysIn n g) : Prop :=
  ∀ k, (s.tracker k).memSendTag = true → ∃ w, (s.tracker k).acqWayEn = uintToOH w ∧
    let line := lineAt (s.set k) (s.cache.metaArr.metaArray (s.set k) w).tag
    let rows := s.cache.dataArr.array w (s.set k)
    (s.cache.metaArr.metaArray (s.set k) w).valid = true ∧
    s.outBits i k = .putBlock (s.tracker k).tagOut (tagAddr line)
      (insertEmptyTag 4 (rowBits (rows (s.tracker k).memTagDataWriteCnt))) ∧
    ∀ addr, InWindow addr → addr / 16 = line →
      tagAddrConv addr (isDramAddress addr) = tagAddr line ∧
      rows (addrToRow addr) (rowOffset addr) = blockTags (l.last addr)

/-- The tags that a lookup finds for a block: in the cache, or in the tag partition. -/
def tagsFound (addr : ℕ) : Slot :=
  let idx := addrToIndex g addr
  match (List.finRange g.nWays).find?
      (MetaArray.matchWay (s.cache.metaArr.metaArray idx) (tagOf g addr)) with
  | some w => s.cache.dataArr.array w idx (addrToRow addr) (rowOffset addr)
  | none => rowOf (s.mem (tagAddr (addr / 16)) (addrToRow addr)) (rowOffset addr)

/-- When all trackers are idle, the data and the tags of every block are those of the
last write to it, and a read that is being answered returns those of its block. -/
def TagsKept : Prop :=
  (s.cache.metaArr.rst = false → (∀ k, (s.tracker k).state = .idle) → ∀ addr, InWindow addr →
    joinTags (s.mem addr) (s.tagsFound addr) = l.last addr) ∧
  ∀ k, (s.tracker k).gntEnable = true → (s.tracker k).isWriteProcess = false →
    (s.tracker k).gntData = l.last (s.tracker k).addrOut

/-! ## From the invariant -/

variable {s l} {store : ℕ → Fin 4 → Row}

theorem metas_eq (hrst : s.cache.metaArr.rst = false) (idx : Fin g.nSets) :
    s.metas idx = s.cache.metaArr.metaArray idx := by
  rw [metas, hrst]
  rfl

/-- The metadata of a set names no line twice, whoever works on it. -/
theorem Inv.unique (hi : s.Inv l store) (idx : Fin g.nSets) (w w' : Fin g.nWays) (tag : ℕ)
    (hw : (entryOf (s.metas idx w)).line = some tag)
    (hw' : (entryOf (s.metas idx w')).line = some tag) : w = w' := by
  by_cases hf : s.Free idx
  · exact (hi.free idx hf).represents.unique w w' tag hw hw'
  · simp only [Free, not_forall, not_not] at hf
    obtain ⟨k, hk, rfl⟩ := hf
    obtain ⟨_, _, hok⟩ := (hi.active k hk).exists_ok
    exact hok.represents.unique w w' tag hw hw'

theorem Inv.noDuplicates (hi : s.Inv l store) : s.NoDuplicates := by
  intro hrst idx w w' hv hv' htag
  rw [← metas_eq hrst] at hv hv' htag
  exact hi.unique idx w w' _ (Slice.line_eq_iff.2 ⟨hv, htag⟩) (Slice.line_eq_iff.2 ⟨hv', rfl⟩)

/-- The tags in the table are those of the last write. -/
theorem Inv.tagsAt_eq (hi : s.Inv l store) {addr : ℕ} (hw : InWindow addr)
    (hno : ∀ k, s.Active k → (s.tracker k).isWriteProcess → (s.tracker k).addrOut ≠ addr) :
    tagsAt store addr = blockTags (l.last addr) := by
  rw [← hi.last addr hw hno, content, blockTags_joinTags]

/-- The table of a set at the line of a block. -/
theorem storeAt_line {addr tag : ℕ} {idx : Fin g.nSets} (h : addr / 16 = lineAt idx tag) :
    storeAt store idx tag (addrToRow addr) (rowOffset addr) = tagsAt store addr := by
  rw [storeAt, ← h]
  rfl

theorem Inv.writesBack (hi : s.Inv l store) {i : SysIn n g} (ha : s.Allowed i) :
    s.WritesBack l i := by
  intro k hsend
  have hsend' := hsend
  simp only [Tracker.memSendTag, Bool.and_eq_true, beq_iff_eq, Bool.not_eq_true'] at hsend'
  obtain ⟨hst, hp⟩ := hsend'
  have hk : s.Active k := by simp [Active, hst]
  have hik := hi.active k hk
  obtain ⟨w, hv, _, hrow⟩ := hik.writeBack_row hst
  have hrst : s.cache.metaArr.rst = false := by
    -- before the sweep is over no entry counts as valid
    have hvalid := hv.valid
    change (s.metas (s.set k) w).valid = true at hvalid
    cases hrst : s.cache.metaArr.rst with
    | false => rfl
    | true => simp [metas, hrst] at hvalid
  have hmetas : (s.slice k).metas = s.cache.metaArr.metaArray (s.set k) := metas_eq hrst _
  have hvalid := hv.valid
  have hmsg := hik.msg_writeBack (hi.env ha hk) hst hp hv
  rw [hrow, slice_msg, slice_tracker] at hmsg
  rw [hmetas] at hvalid hmsg
  refine ⟨w, hv.way, hvalid, hmsg, fun addr hw hline => ⟨?_, ?_⟩⟩
  · rw [tagAddrConv_eq, hline]
  · have hentry : (entryOf ((s.slice k).metas w)).line =
        some (s.cache.metaArr.metaArray (s.set k) w).tag := by
      rw [hmetas]
      exact Slice.line_eq_iff.2 ⟨hvalid, rfl⟩
    have hheld : (s.slice k).rows w =
        storeAt store (s.set k) (s.cache.metaArr.metaArray (s.set k) w).tag :=
      hv.ok.represents.of_held hentry
    change (s.slice k).rows w _ _ = _
    rw [hheld, storeAt_line hline]
    apply hi.tagsAt_eq hw
    intro j hj _ haddr
    -- the line belongs to the tracker's set, and its own block is on another line
    have hset : s.set j = s.set k := by
      have h := lineAt_addr (g := g) addr
      rw [hline] at h
      rw [set, haddr]
      exact (lineAt_inj h).1
    obtain rfl := hi.alone j k hj hk hset
    refine hv.missing w ?_
    rw [hentry]
    have h := lineAt_addr (g := g) addr
    rw [hline] at h
    change _ = some (tagOf g (s.tracker j).addrOut)
    rw [haddr, (lineAt_inj h).2]

/-- What a lookup finds is the table's. -/
theorem Inv.tagsFound_eq (hi : s.Inv l store) (hrst : s.cache.metaArr.rst = false)
    {addr : ℕ} (hw : InWindow addr) (hf : s.Free (addrToIndex g addr)) :
    s.tagsFound addr = tagsAt store addr := by
  have hok := hi.free _ hf
  have hline : addr / 16 = lineAt (addrToIndex g addr) (tagOf g addr) := (lineAt_addr addr).symm
  have hmetas := metas_eq hrst (addrToIndex g addr)
  unfold tagsFound
  dsimp only
  rw [← hmetas]
  cases hfind : (List.finRange g.nWays).find?
      (MetaArray.matchWay (s.metas (addrToIndex g addr)) (tagOf g addr)) with
  | some w =>
    have hentry := Slice.matchWay_iff.1 (List.find?_some hfind)
    have hheld := hok.represents.of_held hentry
    dsimp only at hheld ⊢
    rw [hheld, storeAt_line hline]
  | none =>
    have hno : ∀ w, (entryOf (s.metas (addrToIndex g addr) w)).line ≠ some (tagOf g addr) := by
      intro w hentry
      exact List.find?_eq_none.1 hfind w (List.mem_finRange w) (Slice.matchWay_iff.2 hentry)
    have hdata : DataLine (lineAt (addrToIndex g addr) (tagOf g addr)) := by
      rw [← hline]
      exact dataLine_of_inWindow hw
    have hsaved := hok.represents.of_saved hdata hno
    rw [← storeAt_line hline, ← hsaved, lines, if_pos hdata, ← hline]

theorem Inv.tagsKept (hi : s.Inv l store) : s.TagsKept l := by
  refine ⟨fun hrst hidle addr hw => ?_, fun k hg hwp => ?_⟩
  · have hnone : ∀ k, ¬ s.Active k := fun k hk => hk (hidle k)
    rw [hi.tagsFound_eq hrst hw fun k hk => absurd hk (hnone k)]
    exact hi.last addr hw fun k hk => absurd hk (hnone k)
  · have hb := (hi.wf k).granting hg
    have hk : s.Active k := by simp [Active, hb]
    have hik := hi.active k hk
    obtain ⟨hp, _, hans, hdata⟩ := hik.tagStateAt hb
    rw [slice_tracker] at hdata
    have hslot : (s.slice k).slotTags (storeAt store (s.set k)) =
        tagsAt store (s.tracker k).addrOut := storeAt_line (lineAt_addr _).symm
    have hwp' : ¬ (s.slice k).isWriteProcess := by simpa using hwp
    rw [Slice.Answer, if_neg hwp', hslot] at hans
    have hblock : (s.tracker k).memAcqDataRead = s.mem (s.tracker k).addrOut := hik.own.read hwp hp
    have hans' : (s.tracker k).gntTag = tagsAt store (s.tracker k).addrOut := hans
    rw [hdata hwp hg, hblock, hans']
    apply hi.last _ hik.window
    intro j hj hjw haddr
    obtain rfl := hi.alone j k hj hk (congrArg (addrToIndex g) haddr)
    simp [hwp] at hjw

/-! ## After reset -/

/-- The table of tags that stands in the tag partition. -/
def initStore (mem : ℕ → Fin 4 → Raw) : ℕ → Fin 4 → Row :=
  fun line r => rowOf (mem (tagAddr line) r)

end Sys

/-- The ledger before any transaction: every block has what the memory and the tag
partition hold for it. -/
def Ledger.init (mem : ℕ → Fin 4 → Raw) : Ledger n :=
  { forward := fun _ => .empty
    last := fun addr => joinTags (mem addr) (tagsAt (Sys.initStore mem) addr) }

namespace Sys

theorem inv_reset (u : TagCache n g) (mem : ℕ → Fin 4 → Raw) :
    (reset u mem).Inv (.init mem) (initStore mem) := by
  have hidle : ∀ k, ¬ (reset u mem).Active k := fun _ h => h rfl
  have hrst : (reset u mem).cache.metaArr.rst := by simp [reset, TagCache.reset, MetaArray.rst]
  have hmetas : ∀ idx, (reset u mem).metas idx = fun _ => ⟨false, false, false, 0⟩ := by
    intro idx
    rw [metas, hrst]
    rfl
  refine
    { swept := fun _ idx hidx => absurd hidx (Nat.not_lt_zero _)
      ids := distinctIds_reset u
      forward := fun k => ⟨Tracker.wf_reset _, fun _ => rfl, fun hn => absurd rfl hn, ?_⟩
      latched := fun k => ⟨fun h => ?_, fun h => ?_, fun h => ?_⟩
      alone := fun j _ hj => absurd hj (hidle j)
      active := fun k hk => absurd hk (hidle k)
      resting := fun k _ => ⟨rfl, rfl, ?_⟩
      free := fun idx _ => ⟨?_, ?_⟩
      last := fun addr _ _ => rfl }
  · intro r hr
    simp [Ledger.init, Forward.empty] at hr
  · simp [reset, TagCache.reset] at h
  · simp [reset, TagCache.reset] at h
  · simp [reset, TagCache.reset, MetaArray.respValidFor] at h
  · exact ⟨fun _ => rfl, fun _ => rfl, fun _ => rfl, fun _ => rfl, fun _ => rfl, fun _ => rfl,
      fun _ => rfl⟩
  · intro w hv
    rw [hmetas] at hv
    exact absurd hv (by simp)
  · -- no way holds a line, so every line is in the tag partition
    have hline : ∀ w tag, (entryOf ((reset u mem).metas idx w)).line ≠ some tag := by
      intro w tag hw
      rw [hmetas, Slice.line_eq_iff] at hw
      exact absurd hw.1 (by simp)
    refine ⟨fun w tag hw => absurd hw (hline w tag), fun w _ tag hw => absurd hw (hline w tag),
      fun w tag _ hw => absurd hw (hline w tag), fun tag hd _ => ?_⟩
    change lines mem idx tag = _
    rw [lines, if_pos hd]
    rfl

/-- The tag cache in an environment as it may be assumed. -/
abbrev machine (n : ℕ) (g : Geometry) : Machine (Sys n g) (SysIn n g) where
  ok := Assumed
  next := next

/-- The tag cache in an environment that gives the trackers what they rely on. -/
abbrev apartMachine (n : ℕ) (g : Geometry) : Machine (Sys n g) (SysIn n g) where
  ok := Allowed
  next := next

/-- The step of the ledger beside the system. -/
def ledgerStep (l : Ledger n) (s : Sys n g) (i : SysIn n g) : Ledger n :=
  l.step s.cache (s.cacheIn i)

/-- Every state of an allowed run has the invariant. -/
theorem inv_run (u : TagCache n g) (mem : ℕ → Fin 4 → Raw) (is : List (SysIn n g))
    (hl : (apartMachine n g).Legal (reset u mem) is) :
    ∃ store, ((apartMachine n g).run (reset u mem) is).Inv
      ((apartMachine n g).history ledgerStep (reset u mem) (.init mem) is) store :=
  Machine.invariant_history (m := apartMachine n g) (Q := fun s l => ∃ store, s.Inv l store)
    ledgerStep (fun _ _ _ ⟨_, hi⟩ ha => ⟨_, hi.next ha⟩) ⟨_, inv_reset u mem⟩ hl

end Sys

/-- If every tracker works on its set alone, sees its own beats only and finds the DRAM
bit of the line it evicts, then in every state reached no set holds a line twice, what is
written back is the evicted line with its latest tags and goes where it came from, and
the tags of every block are those of its last write. -/
theorem concurrent_trackers_keep_tags (u : TagCache n g) (mem : ℕ → Fin 4 → Raw)
    (is : List (SysIn n g)) (hl : (Sys.apartMachine n g).Legal (.reset u mem) is) :
    let s := (Sys.apartMachine n g).run (.reset u mem) is
    let l := (Sys.apartMachine n g).history Sys.ledgerStep (.reset u mem) (.init mem) is
    s.NoDuplicates ∧ (∀ i, s.Allowed i → s.WritesBack l i) ∧ s.TagsKept l := by
  obtain ⟨store, hi⟩ := Sys.inv_run u mem is hl
  exact ⟨hi.noDuplicates, fun i ha => hi.writesBack ha, hi.tagsKept⟩

/-! ## Two trackers -/

local instance neZeroTrackers : NeZero 2 := ⟨by decide⟩

/-- A cache of two sets with two ways. -/
def twoSets : Geometry := ⟨1, 1⟩

/-- A cycle of that cache with two trackers, in which a client may ask for a
block, the memory takes what it is sent and may answer a tracker. -/
def readCycle (ask : Option (ℕ × ℕ)) (answer : Option (Fin 2)) (way : Fin 2) : SysIn 2 twoSets :=
  { acquire := ⟨ask.isSome, ⟨⟨(ask.map (·.1)).getD 0, 0⟩, .builtIn .getBlockType, 0⟩⟩
    release := ⟨false, ⟨⟨0, 0⟩, 0⟩⟩
    phyAddrAcq := (ask.map (·.2)).getD 0
    phyAddrRel := 0
    grantReady := true
    outAcquireReady := true
    answer := answer
    replaceWay := way }

/-- After the reset sweep client 1 reads the first block of the DRAM and client 2 the
block at `addr`, and both miss: the memory answers each with the data and the tags. The
replacer chooses way 0 for the one and way 1 for the other. -/
def twoReads (addr : ℕ) : List (SysIn 2 twoSets) :=
  let a : Option (ℕ × ℕ) := some (1, 0x1000000)
  let b : Option (ℕ × ℕ) := some (2, addr)
  List.replicate 2 (readCycle none none 0) ++
    [readCycle a none 0, readCycle a none 0, readCycle b (some 0) 0, readCycle b (some 0) 0] ++
    [readCycle none (some 0) 1, readCycle none (some 0) 1, readCycle none (some 1) 1] ++
    List.replicate 4 (readCycle none (some 0) 1) ++ List.replicate 3 (readCycle none (some 1) 1) ++
    [readCycle none none 1] ++ List.replicate 4 (readCycle none (some 1) 1) ++
    List.replicate 5 (readCycle none none 1)

/-- Two blocks of one tag line: both trackers put the line into the cache, in two ways of
the set. -/
theorem sharedLineRun_duplicates :
    (Sys.machine 2 twoSets).Legal (.reset (.zero 2 twoSets) fun _ _ => 0) (twoReads 0x1000001) ∧
      ¬ ((Sys.machine 2 twoSets).run (.reset (.zero 2 twoSets) fun _ _ => 0)
        (twoReads 0x1000001)).NoDuplicates := by
  constructor <;> decide +kernel

/-- Two blocks of different sets. -/
theorem concurrent_trackers_keep_tags_twoReads :
    let s₀ : Sys 2 twoSets := .reset (.zero 2 twoSets) fun _ _ => 0
    let is := twoReads 0x1000010
    let s := (Sys.apartMachine 2 twoSets).run s₀ is
    let l := (Sys.apartMachine 2 twoSets).history Sys.ledgerStep s₀ (.init fun _ _ => 0) is
    (Sys.apartMachine 2 twoSets).Legal s₀ is ∧
      s.NoDuplicates ∧ (∀ i, s.Allowed i → s.WritesBack l i) ∧ s.TagsKept l := by
  have hl : (Sys.apartMachine 2 twoSets).Legal (.reset (.zero 2 twoSets) fun _ _ => 0)
      (twoReads 0x1000010) := by decide +kernel
  exact ⟨hl, concurrent_trackers_keep_tags _ _ _ hl⟩

/-! ## One tracker -/

namespace Tracker

/-- The states in which a tracker reads out and sends the line it evicts. -/
def evicting : List State := [.dataReadWb, .dataRespWb, .dataRespWbDone, .writeBack]

/-- They are entered when the metadata array answers. -/
theorem nextState_evicting {t : Tracker g} {i : TrackerIn g} (h : t.nextState i ∈ evicting) :
    t.state ∈ evicting ∨ t.state = .metaResp ∧ i.metaRespValid := by
  unfold nextState at h
  grind [evicting]

end Tracker

namespace Sys

variable {s : Sys 1 g} {i : SysIn 1 g} {l : Ledger 1} {store : ℕ → Fin 4 → Row}

/-- The response register has the DRAM bit of the line that is evicted. -/
def DramKept (s : Sys 1 g) : Prop :=
  ∀ k, (s.tracker k).state ∈ Tracker.evicting →
    s.cache.metaArr.resp.tag.dram = (s.tracker k).acqReplMeta.dram

/-- Without a read of the tracker in its first stage the array has nothing to answer. -/
theorem resp_kept {k : Fin 1}
    (h : (s.cache.metaArr.s1ClkEn && s.cache.metaArr.s1.map (·.id) == some k) = false) :
    (s.next i).cache.metaArr.resp = s.cache.metaArr.resp := by
  change (s.cache.metaArr.next _ _ _).resp = _
  cases hen : s.cache.metaArr.s1ClkEn with
  | false => simp [MetaArray.resp, MetaArray.next, hen]
  | true =>
    cases hs1 : s.cache.metaArr.s1 with
    | none => simp [MetaArray.resp, MetaArray.next, hen, hs1]
    | some r => simp [hen, hs1, Subsingleton.elim r.id k] at h

theorem DramKept.next (h : s.DramKept) (hi : s.Inv l store) : (s.next i).DramKept := by
  intro k hev
  have hrepl : ((s.next i).tracker k).acqReplMeta =
      if (s.tracker k).state == .metaResp && (s.trackerIn i k).metaRespValid then
        s.cache.metaArr.resp.tag
      else (s.tracker k).acqReplMeta := rfl
  rcases Tracker.nextState_evicting hev with hst | ⟨hst, hv⟩
  · -- no read is on its way, so neither the register nor the copy of the victim changes
    have hne : (s.tracker k).state ≠ .metaResp := fun heq => by simp [heq, Tracker.evicting] at hst
    have hk : s.Active k := fun heq => by simp [heq, Tracker.evicting] at hst
    have htok : s.metaToken k = .none := (hi.active k hk).rest.metaToken hne
    have hidle : (s.cache.metaArr.s1ClkEn && s.cache.metaArr.s1.map (·.id) == some k) = false := by
      unfold metaToken at htok
      grind
    rw [resp_kept hidle, hrepl, if_neg (by simp [hne]), h k hst]
  · -- the copy is taken from the register, which has nothing to load in this cycle
    rw [resp_kept ((hi.latched k).single hv), hrepl, if_pos (by simp [hst, hv])]

/-- One tracker has every set for itself and finds the right DRAM bit. -/
theorem DramKept.allowed (h : s.DramKept) (ha : s.Assumed i) (ho : OwnBeats s.cache (s.cacheIn i)) :
    s.Allowed i where
  toAssumed := ha
  own := ho
  apart k r hr j hj := by
    rw [Subsingleton.elim k j, Tracker.requestOf_eq_none hj] at hr
    exact absurd hr (by simp)
  dram k hk := by
    refine h k ?_
    simp only [Tracker.memSendTag, Bool.and_eq_true, beq_iff_eq] at hk
    simp [hk.1, Tracker.evicting]

/-- The tag cache with one tracker, in an environment that shows it its own beats. -/
def singleMachine (g : Geometry) : Machine (Sys 1 g) (SysIn 1 g) :=
  (machine 1 g).restrict fun s i => OwnBeats s.cache (s.cacheIn i)

end Sys

/-- A single tracker has no other one to share a set or the response register with: in every run
no set holds a line twice, what is written back is the evicted line and goes where it came from,
and the data and the tags of every block are those of its last write. -/
theorem single_tracker_keeps_tags (u : TagCache 1 g) (mem : ℕ → Fin 4 → Raw)
    (is : List (SysIn 1 g)) (hl : (Sys.singleMachine g).Legal (.reset u mem) is) :
    let s := (Sys.singleMachine g).run (.reset u mem) is
    let l := (Sys.singleMachine g).history Sys.ledgerStep (.reset u mem) (.init mem) is
    s.NoDuplicates ∧ (∀ i, (Sys.singleMachine g).ok s i → s.WritesBack l i) ∧ s.TagsKept l := by
  have hreset : (Sys.reset u mem).DramKept := fun _ h =>
    absurd h (by simp [Sys.reset, reset, Tracker.reset, Tracker.evicting])
  have hinv := Machine.invariant_history (m := Sys.singleMachine g)
    (Q := fun s l => s.DramKept ∧ ∃ store, s.Inv l store) Sys.ledgerStep
    (fun _ _ _ h ha => ⟨h.1.next h.2.choose_spec, _, h.2.choose_spec.next (h.1.allowed ha.1 ha.2)⟩)
    ⟨hreset, _, Sys.inv_reset u mem⟩ hl
  obtain ⟨h, store, hi⟩ := hinv
  exact ⟨hi.noDuplicates, fun i ha => hi.writesBack (h.allowed ha.1 ha.2), hi.tagsKept⟩

/-- A cache of one line. -/
def oneLine : Geometry := ⟨0, 0⟩

/-- A cycle of that cache with one tracker: client 1 may release a beat of the first block of the
DRAM, client 2 may ask for a block of another line, the memory takes what it is sent and may
answer. -/
def oneCycle (beat : Option Beat) (ask answer : Bool) : SysIn 1 oneLine :=
  { acquire := ⟨ask, ⟨⟨2, 0⟩, .builtIn .getBlockType, 0⟩⟩
    release := ⟨beat.isSome, ⟨⟨1, 0⟩, beat.getD 0⟩⟩
    phyAddrAcq := 0x1000020
    phyAddrRel := 0x1000000
    grantReady := true
    outAcquireReady := true
    answer := if answer then some ⟨0, Nat.one_pos⟩ else none
    replaceWay := ⟨0, Nat.one_pos⟩ }

/-- A release of four beats with tags, and a read whose line takes the place of the dirty one. -/
def writeAndEvict : List (SysIn 1 oneLine) :=
  let beat (b : Beat) : SysIn 1 oneLine := oneCycle (some (0x10000000000000000 + b)) false false
  let quiet := oneCycle none false false
  let answered := oneCycle none false true
  [quiet, beat 1, beat 1, beat 2, beat 3, beat 4, answered, quiet] ++ List.replicate 4 answered ++
    List.replicate 10 quiet ++ List.replicate 2 (oneCycle none true false) ++
    List.replicate 4 answered ++ List.replicate 7 quiet ++ [answered]

/-- The machine of that cache, with lookups that can be evaluated. -/
def oneLineMachine : Machine (Sys 1 oneLine) (SysIn 1 oneLine) where
  ok s i := s.Assumed i ∧ OwnBeats s.cache (s.cacheIn i)
  next s i :=
    -- the sum makes the kernel compute an index before it compares it with another one
    let c := (s.next i).cache
    { s.next i with cache := { c with metaArr := { c.metaArr with
      metaArray := fun idx => c.metaArr.metaArray ⟨Nat.add idx.val 0, idx.isLt⟩ } } }

theorem oneLineMachine_eq : oneLineMachine = Sys.singleMachine oneLine := rfl

theorem single_tracker_keeps_tags_evict :
    let s₀ : Sys 1 oneLine := .reset (.zero 1 oneLine) fun _ _ => 0
    let s := (Sys.singleMachine oneLine).run s₀ writeAndEvict
    let l := (Sys.singleMachine oneLine).history Sys.ledgerStep s₀ (.init fun _ _ => 0)
      writeAndEvict
    (((Sys.singleMachine oneLine).run s₀ (writeAndEvict.take 34)).tracker
        ⟨0, Nat.one_pos⟩).state = .writeBack ∧
      s.NoDuplicates ∧ (∀ i, (Sys.singleMachine oneLine).ok s i → s.WritesBack l i) ∧
      s.TagsKept l := by
  refine ⟨?_, single_tracker_keeps_tags _ _ _ ?_⟩ <;> rw [← oneLineMachine_eq]
  · decide +kernel
  · unfold oneLineMachine
    decide +kernel

end TaggedRiscv.TagCache
