import Mathlib.Algebra.BigOperators.Group.Finset.Basic
import Mathlib.Algebra.Order.BigOperators.Group.Finset
import Mathlib.Data.Multiset.AddSub
import Mathlib.Data.Multiset.Filter
import TaggedRiscv.L1.Mshr

/-!
# The replay queues of the miss handlers

What the handlers of the file do to their replay queues in a cycle: a request that is taken on joins
the queue of one handler, which then works on its block, and what leaves a queue is what the cache
takes from the replay port.
-/

namespace TaggedRiscv.L1

open Sync MSHR Multiset

attribute [ext] BlockAddr

variable {p : L1Params}

/-- The replay that the cache takes in a cycle and that does something, with its handler. -/
def MSHRFile.replayFire (f : MSHRFile p) (i : MSHRFileIn p) : Option (Fin p.nMSHRs × MemCmd) :=
  f.replaySel.bind fun k =>
    let cmd := (f.mshr k).replayCmd (arbiterCtrl f.metaReadValid k && i.metaReadReady)
    if i.replayReady && cmd != .NOP then some (k, cmd) else none

variable {k : Fin p.nMSHRs}

namespace MSHRFile

variable {f : MSHRFile p} {i : MSHRFileIn p}

/-- What the handlers keep to: no two of them work on one set, an idle one has nothing to replay,
and what is to be replayed is an access. -/
structure Sound (f : MSHRFile p) : Prop where
  unique : ∀ k l, (f.mshr k).state ≠ .invalid → (f.mshr l).state ≠ .invalid →
    (f.mshr k).req.addr.idx = (f.mshr l).req.addr.idx → k = l
  idle : ∀ k, (f.mshr k).state = .invalid → (f.mshr k).rpq = []
  access : ∀ k, ∀ e ∈ (f.mshr k).rpq, e.cmd ≠ .NOP

/-- The handler puts the request into its queue. -/
def takes (f : MSHRFile p) (i : MSHRFileIn p) (k : Fin p.nMSHRs) : Bool :=
  (f.mshr k).rpqEnq (f.input i k)

variable {r : MSHRReq p}

theorem idxMatches_iff :
    f.idxMatches r k ↔
      (f.mshr k).state ≠ .invalid ∧ (f.mshr k).req.addr.idx = r.addr.idx := by
  simp [idxMatches, idxBusy, idxMatch]

theorem idxMatches_of_secRdy (h : (f.mshr k).secRdy r) : f.idxMatches r k := by
  rw [MSHR.secRdy, Bool.and_eq_true] at h
  rw [idxMatches, idxBusy, h.1, Bool.and_true, bne_iff_ne]
  intro hs
  simp [beforeRefill, hs] at h

theorem secondaryMiss_of_idxMatches (h : f.idxMatches r k) : f.secondaryMiss r :=
  List.any_eq_true.mpr ⟨k, List.mem_finRange k, h⟩

variable {k l : Fin p.nMSHRs}

theorem Sound.idxMatches_unique (hf : f.Sound)
    (hk : f.idxMatches r k) (hl : f.idxMatches r l) : k = l := by
  rw [idxMatches_iff] at hk hl
  exact hf.unique k l hk.1 hl.1 (hk.2.trans hl.2.symm)

theorem alloc_eq (k : Fin p.nMSHRs) :
    (f.mshr k).alloc (f.input i k) ↔
      i.reqValid ∧ f.sdqRdy ∧ f.secondaryMiss i.req = false ∧
        firstValid (fun k => (f.mshr k).reqPriRdy) = some k := by
  simp only [alloc, input, Bool.and_eq_true, Bool.not_eq_true', firstValid_eq_some_iff]
  tauto

theorem takes_iff (k : Fin p.nMSHRs) :
    f.takes i k ↔
      ((f.mshr k).alloc (f.input i k) ∨
        (i.reqValid ∧ f.sdqRdy ∧ f.tagMatch i.req) ∧
          (f.mshr k).secRdy i.req) ∧
        i.req.cmd.isPrefetch = false ∧ (f.mshr k).rpq.length < p.replayQueueDepth := by
  have hsec : (f.mshr k).secRdy (f.input i k).req = (f.mshr k).secRdy i.req := rfl
  have hval : (f.input i k).reqSecVal = (i.reqValid && f.sdqRdy && f.tagMatch i.req) := rfl
  have hcmd : (f.input i k).req.cmd = i.req.cmd := rfl
  simp only [takes, rpqEnq, hsec, hval, hcmd, Bool.and_eq_true, Bool.or_eq_true,
    Bool.not_eq_true', decide_eq_true_eq]
  tauto

/-- A secondary miss goes to the handler of its set. -/
theorem takes_of_secondaryMiss (hf : f.Sound) (hsec : f.secondaryMiss i.req) (k : Fin p.nMSHRs) :
    f.takes i k ↔ (i.reqValid ∧ f.reqReady i.req ∧
      i.req.cmd.isPrefetch = false) ∧ f.idxMatches i.req k := by
  have hready : f.reqReady i.req ↔
      (f.tagMatch i.req ∧ ∃ l, (f.mshr l).reqSecRdy i.req) ∧ f.sdqRdy := by
    simp [reqReady, hsec, secRdy]
  have hrdy (l : Fin p.nMSHRs) : (f.mshr l).reqSecRdy i.req ↔
      (f.mshr l).secRdy i.req ∧ (f.mshr l).rpq.length < p.replayQueueDepth := by
    simp [reqSecRdy]
  rw [takes_iff, hready]
  constructor
  · rintro ⟨halloc | ⟨⟨hv, hs, ht⟩, hk⟩, hpre, hlen⟩
    · simp [(alloc_eq k).mp halloc] at hsec
    · exact ⟨⟨hv, ⟨⟨ht, k, (hrdy k).mpr ⟨hk, hlen⟩⟩, hs⟩, hpre⟩, idxMatches_of_secRdy hk⟩
  · rintro ⟨⟨hv, ⟨⟨ht, l, hl⟩, hs⟩, hpre⟩, hk⟩
    rw [hrdy] at hl
    -- the handler that has room is the one that has the set
    obtain rfl := hf.idxMatches_unique hk (idxMatches_of_secRdy hl.1)
    exact ⟨.inr ⟨⟨hv, hs, ht⟩, hl.1⟩, hpre, hl.2⟩

/-- A primary miss goes to the first idle handler. -/
theorem takes_of_primaryMiss (hf : f.Sound) (hq : 0 < p.replayQueueDepth)
    (hsec : f.secondaryMiss i.req = false) (k : Fin p.nMSHRs) :
    f.takes i k ↔ (i.reqValid ∧ f.reqReady i.req ∧
      i.req.cmd.isPrefetch = false) ∧ firstValid (fun k => (f.mshr k).reqPriRdy) = some k := by
  have hready : f.reqReady i.req ↔
      (∃ l, (f.mshr l).reqPriRdy) ∧ f.sdqRdy := by
    simp [reqReady, hsec, priRdy]
  rw [takes_iff, alloc_eq, hready]
  constructor
  · rintro ⟨⟨hv, hs, -, hk⟩ | ⟨-, hk⟩, hpre, -⟩
    · exact ⟨⟨hv, ⟨⟨k, valid_of_firstValid hk⟩, hs⟩, hpre⟩, hk⟩
    · rw [secondaryMiss_of_idxMatches (idxMatches_of_secRdy hk)] at hsec
      exact absurd hsec (by simp)
  · rintro ⟨⟨hv, ⟨-, hs⟩, hpre⟩, hk⟩
    have hidle : (f.mshr k).state = .invalid := by simpa [reqPriRdy] using valid_of_firstValid hk
    exact ⟨.inl ⟨hv, hs, hsec, hk⟩, hpre, by simpa [hf.idle k hidle] using hq⟩

theorem next_addr (k : Fin p.nMSHRs) :
    ((f.next i).mshr k).req.addr =
      if (f.mshr k).alloc (f.input i k) then i.req.addr else (f.mshr k).req.addr := by
  change ((f.mshr k).reqNext (f.input i k)).addr = _
  unfold reqNext
  split_ifs <;> rfl

/-- A request that is taken on and is no prefetch goes to one handler, which then works on its
block. -/
theorem exists_takes (hf : f.Sound) (hq : 0 < p.replayQueueDepth) (hv : i.reqValid)
    (hready : f.reqReady i.req) (hpre : i.req.cmd.isPrefetch = false) :
    ∃ l, (∀ k, f.takes i k = decide (k = l)) ∧
      ((f.next i).mshr l).req.addr = i.req.addr := by
  cases hsec : f.secondaryMiss i.req with
  | true =>
    obtain ⟨l, -, hl⟩ := List.any_eq_true.mp hsec
    refine ⟨l, fun k => ?_, ?_⟩
    · rw [Bool.eq_iff_iff, takes_of_secondaryMiss hf hsec, decide_eq_true_eq]
      exact ⟨fun hk => hf.idxMatches_unique hk.2 hl, fun hk => ⟨⟨hv, hready, hpre⟩, hk ▸ hl⟩⟩
    · have halloc : (f.mshr l).alloc (f.input i l) = false := by
        rw [← Bool.not_eq_true, alloc_eq]
        simp [hsec]
      -- the tags selected by the set are those of this handler alone
      have htag : (f.mshr l).req.addr.tag = i.req.addr.tag := by
        have hmux : mux1H (f.idxMatches i.req) (fun k => (f.mshr k).req.addr.tag) =
            (f.mshr l).req.addr.tag :=
          mux1H_eq_of_forall (fun k hk => by rw [hf.idxMatches_unique hk hl]) ⟨l, hl⟩
        have hmatch : f.tagMatch i.req := by
          simp only [reqReady, hsec, if_true, Bool.and_eq_true] at hready
          exact hready.1.1
        rw [← hmux]
        simpa [tagMatch] using hmatch
      rw [next_addr, halloc]
      exact BlockAddr.ext htag (idxMatches_iff.mp hl).2
  | false =>
    have hsome : ∃ l, firstValid (fun k => (f.mshr k).reqPriRdy) = some l := by
      simp only [reqReady, hsec, Bool.false_eq_true, if_false, Bool.and_eq_true] at hready
      obtain ⟨l, -, hl⟩ := List.any_eq_true.mp hready.1
      exact exists_firstValid hl
    obtain ⟨l, hl⟩ := hsome
    refine ⟨l, fun k => ?_, ?_⟩
    · rw [Bool.eq_iff_iff, takes_of_primaryMiss hf hq hsec, hl, decide_eq_true_eq,
        Option.some.injEq]
      exact ⟨fun hk => hk.2.symm, fun hk => ⟨⟨hv, hready, hpre⟩, hk.symm⟩⟩
    · have hs : f.sdqRdy := by
        simp only [reqReady, Bool.and_eq_true] at hready
        exact hready.2
      have halloc := (alloc_eq (i := i) l).mpr ⟨hv, hs, hsec, hl⟩
      rw [next_addr, if_pos halloc]

theorem takes_eq_false (hf : f.Sound) (hq : 0 < p.replayQueueDepth)
    (h : ¬ (i.reqValid ∧ f.reqReady i.req ∧ i.req.cmd.isPrefetch = false))
    (k : Fin p.nMSHRs) : f.takes i k = false := by
  rw [← Bool.not_eq_true]
  intro hk
  cases hsec : f.secondaryMiss i.req with
  | true => exact h ((takes_of_secondaryMiss hf hsec k).mp hk).1
  | false => exact h ((takes_of_primaryMiss hf hq hsec k).mp hk).1

/-- What a handler puts into its queue in a cycle, and what it takes out. -/
def joins (f : MSHRFile p) (i : MSHRFileIn p) (k : Fin p.nMSHRs) : List ReplayInternal :=
  if f.takes i k then [⟨i.req.cmd, f.sdqAllocId⟩] else []

@[inherit_doc joins]
def leaves (f : MSHRFile p) (i : MSHRFileIn p) (k : Fin p.nMSHRs) : List ReplayInternal :=
  if (f.mshr k).rpqDeqReady (f.input i k) then (f.mshr k).rpq.head?.toList else []

@[inherit_doc joins]
def stays (f : MSHRFile p) (i : MSHRFileIn p) (k : Fin p.nMSHRs) : List ReplayInternal :=
  if (f.mshr k).rpqDeqReady (f.input i k) then (f.mshr k).rpq.tail else (f.mshr k).rpq

theorem rpq_eq (k : Fin p.nMSHRs) : (f.mshr k).rpq = f.leaves i k ++ f.stays i k := by
  unfold leaves stays
  split_ifs
  · cases (f.mshr k).rpq <;> rfl
  · rfl

theorem rpq_next (k : Fin p.nMSHRs) : ((f.next i).mshr k).rpq = f.stays i k ++ f.joins i k := rfl

variable {e : ReplayInternal}

theorem mem_rpq_of_stays (h : e ∈ f.stays i k) : e ∈ (f.mshr k).rpq := by
  rw [rpq_eq (i := i)]
  exact List.mem_append_right _ h

theorem mem_rpq_next (h : e ∈ ((f.next i).mshr k).rpq) : e ∈ (f.mshr k).rpq ∨ e ∈ f.joins i k := by
  rw [rpq_next, List.mem_append] at h
  exact h.imp_left mem_rpq_of_stays

theorem replayFire_of_replaySel (hsel : f.replaySel = some k) (hready : i.replayReady)
    (hnop : (f.mshr k).replayCmd (arbiterCtrl f.metaReadValid k && i.metaReadReady) ≠ .NOP) :
    f.replayFire i =
      some (k, (f.mshr k).replayCmd (arbiterCtrl f.metaReadValid k && i.metaReadReady)) := by
  rw [replayFire, hsel, Option.bind_some]
  exact if_pos (by rw [hready, Bool.true_and, bne_iff_ne]; exact hnop)

/-- What a handler takes out of its queue is on the replay port. -/
theorem Sound.replayFire_of_leaves (hf : f.Sound)
    (h : e ∈ f.leaves i k) : f.replayFire i = some (k, e.cmd) := by
  unfold leaves at h
  split_ifs at h with hdeq
  · obtain ⟨q, hq⟩ : ∃ q, (f.mshr k).rpq = e :: q := by
      cases hr : (f.mshr k).rpq with
      | nil => simp [hr] at h
      | cons e' q =>
        rw [hr] at h
        obtain rfl : e = e' := by simpa using h
        exact ⟨q, rfl⟩
    have hbusy : (f.mshr k).state ≠ .invalid := fun hs => by simp [hf.idle k hs] at hq
    have hnop : e.cmd ≠ .NOP := hf.access k e (by simp [hq])
    have hparts : (arbiterCtrl f.metaReadValid k && i.metaReadReady) = true ∧
        (arbiterCtrl f.replayValid k ∧ i.replayReady) ∧
          (f.mshr k).state = .drainRpq := by
      simpa [rpqDeqReady, input, hbusy] using hdeq
    obtain ⟨hread, ⟨hctrl, hready⟩, hdrain⟩ := hparts
    have hvalid : f.replayValid k := by simp [replayValid, MSHR.replayValid, hdrain, hq]
    have hsel : f.replaySel = some k := firstValid_eq_some_iff.mpr ⟨hvalid, hctrl⟩
    have hcmd :
        (f.mshr k).replayCmd (arbiterCtrl f.metaReadValid k && i.metaReadReady) = e.cmd := by
      simp only [MSHR.replayCmd, hread, if_true, hq, List.head?_cons, Option.map_some,
        Option.getD_some]
    rw [← hcmd] at hnop ⊢
    exact replayFire_of_replaySel hsel hready hnop
  · simp at h

/-- What is on the replay port leaves the queue of its handler, and no other one leaves. -/
theorem Sound.leaves_of_replayFire (hf : f.Sound) {x : Fin p.nMSHRs × MemCmd}
    (h : f.replayFire i = some x) :
    ∃ e, e.cmd = x.2 ∧ e ∈ (f.mshr x.1).rpq ∧
      (∀ k, f.leaves i k = if k = x.1 then [e] else []) ∧
      f.freeSdq i = if x.2.isWrite then some e.sdqId else none := by
  obtain ⟨l, cmd⟩ := x
  obtain ⟨k, hsel, hfire⟩ := Option.bind_eq_some_iff.mp h
  simp only [Bool.and_eq_true, bne_iff_ne, ne_eq] at hfire
  split_ifs at hfire with hcond
  obtain ⟨hready, hnop⟩ := hcond
  obtain ⟨rfl, hcmd⟩ : k = l ∧ _ = cmd := Prod.mk.inj (Option.some.inj hfire)
  obtain ⟨hvalid, hctrl⟩ := firstValid_eq_some_iff.mp hsel
  have hdrain : (f.mshr k).state = .drainRpq ∧ (f.mshr k).rpq ≠ [] := by
    simpa [replayValid, MSHR.replayValid] using hvalid
  -- without the metadata read the command on the port would be none
  have hread : (arbiterCtrl f.metaReadValid k && i.metaReadReady) = true := by
    by_contra hno
    rw [Bool.not_eq_true] at hno
    simp [MSHR.replayCmd, hno] at hnop
  obtain ⟨e, q, hq⟩ := List.exists_cons_of_ne_nil hdrain.2
  have hdeq : (f.mshr k).rpqDeqReady (f.input i k) := by
    have hread' : (f.input i k).metaReadReady := hread
    have hready' : (f.input i k).replayReady := by simp [input, hctrl, hready]
    simp [rpqDeqReady, hread', hready', hdrain.1]
  have hcmd' : e.cmd = cmd := by
    rw [← hcmd, hread]
    simp [MSHR.replayCmd, hq]
  refine ⟨e, hcmd', by simp [hq], fun j => ?_, ?_⟩
  · split_ifs with hj
    · subst hj
      simp [leaves, hdeq, hq]
    · cases hl : f.leaves i j with
      | nil => rfl
      | cons e' q' =>
        have hfire' := hf.replayFire_of_leaves (i := i) (k := j) (e := e') (by simp [hl])
        rw [h] at hfire'
        exact absurd (Prod.mk.inj (Option.some.inj hfire')).1.symm hj
  · have hport : f.replayCmd i.metaReadReady = some cmd := by
      rw [replayCmd, hsel, Option.map_some, hcmd]
    rw [freeSdq, hsel, Option.bind_some, hport, hready]
    simp [replaySdqId, hq]

theorem Sound.leaves_of_none (hf : f.Sound) (h : f.replayFire i = none) :
    (∀ k, f.leaves i k = []) ∧ f.freeSdq i = none := by
  constructor
  · intro k
    rw [List.eq_nil_iff_forall_not_mem]
    intro e he
    rw [hf.replayFire_of_leaves he] at h
    exact absurd h (by simp)
  · -- a store is not the command that does nothing
    rw [Option.eq_none_iff_forall_ne_some]
    intro j hj
    obtain ⟨k, hsel, hfree⟩ := Option.bind_eq_some_iff.mp hj
    split_ifs at hfree with hcond
    rw [replayCmd, hsel, Option.map_some, Option.any_some, Bool.and_eq_true] at hcond
    have hnop : (f.mshr k).replayCmd (arbiterCtrl f.metaReadValid k && i.metaReadReady) ≠ .NOP := by
      intro hnop
      rw [hnop] at hcond
      exact absurd hcond.2 (by decide)
    rw [replayFire_of_replaySel hsel hcond.1 hnop] at h
    exact absurd h (by simp)

/-! ### The queues in a cycle -/

/-- A handler that is busy after a cycle and took on no miss was busy before. -/
theorem busy_of_next (halloc : (f.mshr k).alloc (f.input i k) = false)
    (h : ((f.next i).mshr k).state ≠ .invalid) : (f.mshr k).state ≠ .invalid := by
  intro hs
  refine h ?_
  have hpri : (f.input i k).reqPriVal = false := by simpa [alloc, reqPriRdy, hs] using halloc
  change (f.mshr k).stateNext (f.input i k) = _
  simp [stateNext, hs, hpri]

/-- A handler with something new to replay is busy. -/
theorem busy_of_takes (h : f.takes i k) : ((f.next i).mshr k).state ≠ .invalid := by
  change (f.mshr k).stateNext (f.input i k) ≠ _
  rcases ((takes_iff k).mp h).1 with halloc | ⟨-, hsec⟩
  · have hs : (f.mshr k).state = .invalid ∧ (f.input i k).reqPriVal := by
      simpa [alloc, reqPriRdy, and_comm] using halloc
    simp only [stateNext, hs.1, hs.2, if_true, allocState]
    split_ifs <;> simp
  · rw [MSHR.secRdy, Bool.and_eq_true] at hsec
    cases hs : (f.mshr k).state <;> simp [beforeRefill, hs] at hsec <;>
      simp only [stateNext, hs] <;> split_ifs <;> simp

/-- A handler becomes idle only when its queue is empty. -/
theorem rpq_eq_nil_of_idle_next (hf : f.Sound)
    (h : ((f.next i).mshr k).state = .invalid) : (f.mshr k).rpq = [] := by
  replace h : (f.mshr k).stateNext (f.input i k) = .invalid := h
  cases hs : (f.mshr k).state with
  | invalid => exact hf.idle k hs
  | drainRpq =>
    simp only [stateNext, hs] at h
    split_ifs at h with hempty
    exact List.isEmpty_iff.mp hempty
  | metaWriteResp => simp [stateNext, hs] at h
  | _ =>
    simp only [stateNext, hs] at h
    split_ifs at h

/-- A miss that is taken on is in no set that a handler works on. -/
theorem idx_ne_of_alloc (hk : (f.mshr k).alloc (f.input i k))
    (hl : (f.mshr l).state ≠ .invalid) : (f.mshr l).req.addr.idx ≠ i.req.addr.idx := by
  intro hidx
  have hsec := secondaryMiss_of_idxMatches (idxMatches_iff.mpr ⟨hl, hidx⟩)
  simp [((alloc_eq k).mp hk).2.2.1] at hsec

theorem alloc_unique (hk : (f.mshr k).alloc (f.input i k))
    (hl : (f.mshr l).alloc (f.input i l)) : k = l :=
  Option.some.inj (((alloc_eq k).mp hk).2.2.2.symm.trans ((alloc_eq l).mp hl).2.2.2)

theorem reqValid_of_takes (h : f.takes i k) : i.reqValid := by
  rcases ((takes_iff k).mp h).1 with halloc | ⟨hsec, -⟩
  · exact ((alloc_eq k).mp halloc).1
  · exact hsec.1

/-- What the handlers keep to in a cycle. -/
theorem Sound.next (hf : f.Sound) (hi : i.reqValid → i.req.cmd ≠ .NOP) :
    (f.next i).Sound where
  unique k l hk hl hidx := by
    rw [next_addr, next_addr] at hidx
    cases hka : (f.mshr k).alloc (f.input i k) with
    | true =>
      cases hla : (f.mshr l).alloc (f.input i l) with
      | true => exact alloc_unique hka hla
      | false =>
        rw [hka, hla] at hidx
        exact absurd hidx.symm (idx_ne_of_alloc hka (busy_of_next hla hl))
    | false =>
      cases hla : (f.mshr l).alloc (f.input i l) with
      | true =>
        rw [hka, hla] at hidx
        exact absurd hidx (idx_ne_of_alloc hla (busy_of_next hka hk))
      | false =>
        rw [hka, hla] at hidx
        exact hf.unique k l (busy_of_next hka hk) (busy_of_next hla hl) hidx
  idle k hk := by
    have htakes : f.takes i k = false := by
      rw [← Bool.not_eq_true]
      exact fun htakes => busy_of_takes htakes hk
    rw [rpq_next, joins, htakes, stays, rpq_eq_nil_of_idle_next hf hk]
    simp
  access k e he := by
    rcases mem_rpq_next he with he | he
    · exact hf.access k e he
    · unfold joins at he
      split_ifs at he with htakes
      · rw [List.mem_singleton.mp he]
        exact hi (reqValid_of_takes htakes)
      · simp at he

/-! ### The entries of the store data queue -/

/-- The entry is in use. -/
def Holds (f : MSHRFile p) (id : ℕ) : Prop := ∃ j : Fin p.sdqDepth, j.val = id ∧ f.sdqVal j = true

/-- All that waits to be replayed. -/
def queued (f : MSHRFile p) : Multiset ReplayInternal :=
  ∑ k, ((f.mshr k).rpq : Multiset ReplayInternal)

/-- The entries that the stores of a collection have. -/
def storeIds (q : Multiset ReplayInternal) : Multiset ℕ :=
  (q.filter fun e => e.cmd.isWrite = true).map ReplayInternal.sdqId

theorem storeIds_add (q q' : Multiset ReplayInternal) :
    storeIds (q + q') = storeIds q + storeIds q' := by
  rw [storeIds, filter_add, map_add]
  rfl

theorem mem_storeIds {q : Multiset ReplayInternal} (he : e ∈ q)
    (hw : e.cmd.isWrite) : e.sdqId ∈ storeIds q :=
  mem_map_of_mem _ (mem_filter.mpr ⟨he, hw⟩)

/-- Every waiting store has an entry of its own. -/
structure Owned (f : MSHRFile p) : Prop where
  held : ∀ e ∈ f.queued, e.cmd.isWrite → f.Holds e.sdqId
  nodup : (storeIds f.queued).Nodup

theorem queued_add_joins (f : MSHRFile p) (i : MSHRFileIn p) :
    f.queued + ∑ k, (f.joins i k : Multiset ReplayInternal) =
      (f.next i).queued + ∑ k, (f.leaves i k : Multiset ReplayInternal) := by
  rw [queued, queued, ← Finset.sum_add_distrib, ← Finset.sum_add_distrib]
  refine Finset.sum_congr rfl fun k _ => ?_
  rw [rpq_eq (i := i), rpq_next, ← coe_add, ← coe_add, add_assoc, add_comm]

/-- The entry that is allocated is not in use. -/
theorem sdqAllocId_spec (h : f.sdqRdy) :
    ∃ j : Fin p.sdqDepth, f.sdqAllocId = j ∧ f.sdqVal j = false ∧
      firstValid (fun j => !f.sdqVal j) = some j := by
  obtain ⟨j, -, hj⟩ := List.any_eq_true.mp h
  obtain ⟨l, hl⟩ := exists_firstValid (v := fun j => !f.sdqVal j) hj
  have hval : (!f.sdqVal l) = true := valid_of_firstValid hl
  refine ⟨l, ?_, by simpa using hval, hl⟩
  rw [sdqAllocId, priorityEncoder, show (List.finRange _).find? _ = some l from hl]

theorem not_holds_sdqAllocId (h : f.sdqRdy) : ¬ f.Holds f.sdqAllocId := by
  obtain ⟨j, hj, hval, -⟩ := sdqAllocId_spec h
  rintro ⟨l, hl, hlval⟩
  obtain rfl : l = j := Fin.ext (hl.trans hj)
  rw [hval] at hlval
  exact absurd hlval (by simp)

theorem sdqRdy_of_reqReady (h : f.reqReady r) : f.sdqRdy := by
  rw [reqReady, Bool.and_eq_true] at h
  exact h.2

theorem sdqRdy_of_sdqEnq (h : f.sdqEnq i) : f.sdqRdy := by
  rw [sdqEnq, Bool.and_eq_true, Bool.and_eq_true] at h
  exact sdqRdy_of_reqReady h.1.2

theorem mem_queued (h : e ∈ (f.mshr k).rpq) : e ∈ f.queued :=
  mem_sum.mpr ⟨k, Finset.mem_univ k, h⟩

/-- What joins the queues is the request that is taken on. -/
theorem sum_joins (hf : f.Sound) (hq : 0 < p.replayQueueDepth) :
    ∑ k, (f.joins i k : Multiset ReplayInternal) =
      if i.reqValid && f.reqReady i.req && !i.req.cmd.isPrefetch then
        {⟨i.req.cmd, f.sdqAllocId⟩}
      else 0 := by
  split_ifs with h
  · simp only [Bool.and_eq_true, Bool.not_eq_true'] at h
    obtain ⟨l, htakes, -⟩ := exists_takes hf hq h.1.1 h.1.2 h.2
    rw [Finset.sum_eq_single l]
    · simp [joins, htakes]
    · intro k _ hk
      simp [joins, htakes, hk]
    · simp
  · simp only [Bool.and_eq_true, Bool.not_eq_true', and_assoc] at h
    exact Finset.sum_eq_zero fun k _ => by simp [joins, takes_eq_false hf hq h k]

theorem isPrefetch_of_isWrite {cmd : MemCmd} (h : cmd.isWrite) : cmd.isPrefetch = false := by
  cases cmd <;> first | rfl | exact absurd h (by decide)

/-- An entry is allocated for every store that is taken on, and only for those. -/
theorem storeIds_joins (hf : f.Sound) (hq : 0 < p.replayQueueDepth) :
    storeIds (∑ k, (f.joins i k : Multiset ReplayInternal)) =
      if f.sdqEnq i then {f.sdqAllocId} else 0 := by
  rw [sum_joins hf hq, sdqEnq]
  by_cases hw : i.req.cmd.isWrite
  · rw [isPrefetch_of_isWrite hw, hw, Bool.not_false]
    split_ifs
    · simp [storeIds, filter_singleton, hw]
    · rfl
  · rw [Bool.not_eq_true] at hw
    simp only [hw, Bool.and_false, Bool.false_eq_true, if_false]
    split_ifs
    · simp [storeIds, filter_singleton, hw]
    · rfl

/-- An entry is freed for every store that is replayed, and only for those. -/
theorem storeIds_leaves (hf : f.Sound) :
    storeIds (∑ k, (f.leaves i k : Multiset ReplayInternal)) = (f.freeSdq i).toList := by
  cases h : f.replayFire i with
  | none =>
    obtain ⟨hleaves, hfree⟩ := hf.leaves_of_none h
    simp [hleaves, hfree, storeIds]
  | some x =>
    obtain ⟨e, hcmd, -, hleaves, hfree⟩ := hf.leaves_of_replayFire h
    have hsum : ∑ k, (f.leaves i k : Multiset ReplayInternal) = {e} := by
      rw [Finset.sum_eq_single x.1]
      · simp [hleaves]
      · intro k _ hk
        simp [hleaves, hk]
      · simp
    rw [hsum, hfree, ← hcmd]
    by_cases hw : e.cmd.isWrite = true <;> simp [storeIds, filter_singleton, hw]

theorem Owned.nodup_add (ho : f.Owned) (hf : f.Sound) (hq : 0 < p.replayQueueDepth) :
    (storeIds (f.next i).queued + (f.freeSdq i).toList).Nodup := by
  have hsum := congrArg storeIds (queued_add_joins f i)
  rw [storeIds_add, storeIds_add, storeIds_joins hf hq, storeIds_leaves hf] at hsum
  rw [← hsum]
  split_ifs with henq
  · have hrdy := sdqRdy_of_sdqEnq henq
    rw [add_comm, singleton_add, nodup_cons]
    refine ⟨fun hmem => not_holds_sdqAllocId hrdy ?_, ho.nodup⟩
    obtain ⟨e, he, hid⟩ := mem_map.mp hmem
    rw [mem_filter] at he
    exact hid ▸ ho.held e he.1 he.2
  · rw [add_zero]
    exact ho.nodup

theorem mem_queued_next (h : e ∈ (f.next i).queued) :
    e ∈ f.queued ∨ e ∈ ∑ k, (f.joins i k : Multiset ReplayInternal) := by
  rw [← mem_add, queued_add_joins, mem_add]
  exact .inl h

/-- Every waiting store keeps its entry, and a new one gets one that nobody has. -/
theorem Owned.next (ho : f.Owned) (hf : f.Sound) (hq : 0 < p.replayQueueDepth) :
    (f.next i).Owned where
  nodup := (Multiset.nodup_add.mp (ho.nodup_add hf hq (i := i))).1
  held e he hw := by
    rcases mem_queued_next he with hold | hnew
    · obtain ⟨j, hj, hval⟩ := ho.held e hold hw
      -- the entry that is freed is that of another store
      have hfree : f.freeSdq i ≠ some j.val := by
        intro hfree
        have hdisj := (Multiset.nodup_add.mp (ho.nodup_add hf hq (i := i))).2.2
        rw [hfree] at hdisj
        exact disjoint_left.mp hdisj (mem_storeIds he hw) (by simp [hj])
      refine ⟨j, hj, ?_⟩
      simp [MSHRFile.next, hval, hfree]
    · have hid := mem_storeIds hnew hw
      rw [storeIds_joins hf hq] at hid
      split_ifs at hid with henq
      · obtain ⟨j, hj, -, hfirst⟩ := sdqAllocId_spec (sdqRdy_of_sdqEnq henq)
        refine ⟨j, (hj.symm.trans (mem_singleton.mp hid).symm), ?_⟩
        simp [MSHRFile.next, henq, hfirst]
      · simp at hid

end MSHRFile

/-! ## Progress -/

namespace MSHR

variable {m : MSHR p} {i : MSHRIn p}

/-- The handler waits for a grant. -/
def Awaits (m : MSHR p) : Prop := m.state = .wbResp ∨ m.state = .refillResp

/-- The work left to a handler: the states to go through, the beats to come, the accesses to
replay. -/
def rank (m : MSHR p) : ℕ :=
  (match m.state with
    | .invalid => 0
    | .drainRpq => 1
    | .metaWriteResp => 2
    | .metaWriteReq => 3
    | .refillResp => 4 + (p.refillCycles - m.refillCnt)
    | .refillReq => 5 + p.refillCycles
    | .metaClear => 6 + p.refillCycles
    | .wbResp => 7 + p.refillCycles
    | .wbReq => 8 + p.refillCycles) + m.rpq.length

/-- A handler gets on with what it does. -/
def Advances (m : MSHR p) (i : MSHRIn p) : Prop :=
  match m.state with
  | .invalid => False
  | .wbReq => i.wbReqReady = true
  | .wbResp | .refillResp => i.memGrant.isSome = true
  | .metaClear | .metaWriteReq => i.metaWriteReady = true
  | .refillReq => i.memReqReady = true
  | .metaWriteResp => True
  | .drainRpq => m.rpq = [] ∨ i.metaReadReady = true ∧ i.replayReady = true

/-- Without new requests the queue of a handler does not grow. -/
theorem length_rpq_next (henq : m.rpqEnq i = false) :
    (m.next i).rpq.length = if m.rpqDeqReady i then m.rpq.length - 1 else m.rpq.length := by
  simp only [next, henq, Bool.false_eq_true, if_false, List.append_nil]
  split_ifs <;> simp

/-- A beat of a refill that is not the last one is counted. -/
theorem refillCnt_next (hcnt : m.refillCnt < p.refillCycles) (hdone : m.refillDone i = false) :
    (m.next i).refillCnt = m.refillCnt + if i.memGrant.isSome then 1 else 0 := by
  cases hg : i.memGrant with
  | none => simp [next, MSHRIn.gntMulti, hg]
  | some g =>
    have hmulti : i.gntMulti ∧ m.refillCnt ≠ p.refillCycles - 1 := by
      simpa [refillDone, hg] using hdone
    have hlt : m.refillCnt + 1 < p.refillCycles := by omega
    simp [next, hmulti.1, Nat.mod_eq_of_lt hlt]

theorem rank_next (hpri : i.reqPriVal = false) (hsec : i.reqSecVal = false)
    (hcnt : m.refillCnt < p.refillCycles) :
    (m.next i).rank ≤ m.rank ∧ (m.Advances i → (m.next i).rank < m.rank) := by
  have henq : m.rpqEnq i = false := by simp [rpqEnq, alloc, hpri, hsec]
  have hlen := length_rpq_next henq
  have hle : (m.next i).rpq.length ≤ m.rpq.length := by
    rw [hlen]
    split_ifs <;> omega
  have hstate : (m.next i).state = m.stateNext i := rfl
  cases hs : m.state with
  | invalid =>
    simp only [rank, Advances, hstate, stateNext, hs, hpri, Bool.false_eq_true, if_false]
    exact ⟨by omega, False.elim⟩
  | refillResp =>
    cases hdone : m.refillDone i with
    | true =>
      simp only [rank, hstate, stateNext, hs, hdone, if_true]
      exact ⟨by omega, fun _ => by omega⟩
    | false =>
      have hnext := refillCnt_next hcnt hdone
      simp only [rank, Advances, hstate, stateNext, hs, hdone, Bool.false_eq_true, if_false, hnext]
      constructor
      · omega
      · intro hgrant
        simp only [hgrant, if_true]
        omega
  | drainRpq =>
    cases hq : m.rpq with
    | nil =>
      rw [hq] at hle
      simp only [rank, hstate, stateNext, hs, hq, List.isEmpty_nil, if_true]
      exact ⟨by omega, fun _ => by omega⟩
    | cons e q =>
      rw [hq] at hlen hle
      simp only [rank, Advances, hstate, stateNext, hs, hq, List.isEmpty_cons, Bool.false_eq_true,
        if_false]
      refine ⟨by omega, ?_⟩
      rintro (h | ⟨hread, hready⟩)
      · exact absurd h (by simp)
      · have hdeq : m.rpqDeqReady i := by simp [rpqDeqReady, hread, hready, hs]
        rw [hlen, if_pos hdeq, List.length_cons]
        omega
  | metaWriteResp =>
    simp only [rank, hstate, stateNext, hs]
    exact ⟨by omega, fun _ => by omega⟩
  | _ =>
    simp only [rank, Advances, hstate, stateNext, hs]
    constructor
    · split_ifs <;> simp only [] <;> omega
    · intro h
      simp only [h, if_true]
      omega

end MSHR


namespace MSHRFile

variable {f : MSHRFile p} {i : MSHRFileIn p}

/-- The environment lets the handlers finish: it makes no requests, takes what they offer, and
sends a grant to one that waits for a grant. -/
structure Serves (f : MSHRFile p) (i : MSHRFileIn p) : Prop where
  noReq : i.reqValid = false
  memReqReady : i.memReqReady
  metaReadReady : i.metaReadReady
  metaWriteReady : i.metaWriteReady
  replayReady : i.replayReady
  wbReqReady : i.wbReqReady
  grant : ∀ k, (f.mshr k).Awaits →
    ∃ g, i.memGrant = some g ∧ (f.mshr g.clientXactId).Awaits

/-- Of the handlers that ask for one thing, the first one gets it. -/
theorem exists_served {v : Fin p.nMSHRs → Bool} (h : v k) : ∃ l, v l ∧ arbiterCtrl v l := by
  obtain ⟨l, hl⟩ := exists_firstValid h
  exact ⟨l, firstValid_eq_some_iff.mp hl⟩

/-- While a handler is busy, one of them gets on. -/
theorem Serves.exists_advances (h : f.Serves i)
    (hk : (f.mshr k).state ≠ .invalid) : ∃ l, (f.mshr l).Advances (f.input i l) := by
  by_cases hwait : (f.mshr k).Awaits
  · obtain ⟨g, hg, hl⟩ := h.grant k hwait
    refine ⟨g.clientXactId, ?_⟩
    have hsome : (f.input i g.clientXactId).memGrant.isSome := by simp [input, hg]
    rcases hl with hl | hl <;> simpa only [Advances, hl] using hsome
  cases hs : (f.mshr k).state with
  | invalid => exact absurd hs hk
  | wbResp => exact absurd (.inl hs) hwait
  | refillResp => exact absurd (.inr hs) hwait
  | metaWriteResp => exact ⟨k, by simp only [Advances, hs]⟩
  | wbReq =>
    obtain ⟨l, hv, hl⟩ := exists_served (v := f.wbReqValid) (k := k)
      (by simp [wbReqValid, MSHR.wbReqValid, hs])
    have hstate : (f.mshr l).state = .wbReq := by simpa [wbReqValid, MSHR.wbReqValid] using hv
    exact ⟨l, by simp only [Advances, hstate, input, hl, h.wbReqReady, Bool.and_self]⟩
  | refillReq =>
    obtain ⟨l, hv, hl⟩ := exists_served (v := f.memReqValid) (k := k)
      (by simp [memReqValid, MSHR.memReqValid, hs])
    have hstate : (f.mshr l).state = .refillReq := by simpa [memReqValid, MSHR.memReqValid] using hv
    exact ⟨l, by simp only [Advances, hstate, input, hl, h.memReqReady, Bool.and_self]⟩
  | metaClear | metaWriteReq =>
    obtain ⟨l, hv, hl⟩ := exists_served (v := f.metaWriteValid) (k := k)
      (by simp [metaWriteValid, MSHR.metaWriteValid, hs])
    have hstate : (f.mshr l).state = .metaWriteReq ∨ (f.mshr l).state = .metaClear := by
      simpa [metaWriteValid, MSHR.metaWriteValid] using hv
    refine ⟨l, ?_⟩
    rcases hstate with hstate | hstate <;>
      simp only [Advances, hstate, input, hl, h.metaWriteReady, Bool.and_self]
  | drainRpq =>
    obtain ⟨l, hv, hl⟩ := exists_served (v := f.metaReadValid) (k := k)
      (by simp [metaReadValid, MSHR.metaReadValid, hs])
    have hstate : (f.mshr l).state = .drainRpq := by
      simpa [metaReadValid, MSHR.metaReadValid] using hv
    -- a handler that replays reads metadata too: nobody replays before this one
    have hctrl : arbiterCtrl f.replayValid l := by
      refine arbiterCtrl_mono (fun j hj => ?_) hl
      rw [replayValid, MSHR.replayValid, Bool.and_eq_true] at hj
      exact hj.1
    refine ⟨l, ?_⟩
    simp only [Advances, hstate, input, hl, hctrl, h.metaReadReady, h.replayReady,
      Bool.and_self, and_self, or_true]

/-- The counters of the beats stay in their range. -/
def Counting (f : MSHRFile p) : Prop := ∀ k, (f.mshr k).refillCnt < p.refillCycles

theorem Counting.next (h : f.Counting) : (f.next i).Counting := by
  intro k
  change (if _ then _ else (f.mshr k).refillCnt) < _
  split_ifs
  · exact Nat.mod_lt _ (Nat.mul_pos p.refillCyclesPerBeat_pos p.outerDataBeats_pos)
  · exact h k

/-- The work left to the handlers becomes less. -/
theorem Serves.sum_rank_lt (h : f.Serves i) (hcnt : f.Counting) (hk : (f.mshr k).state ≠ .invalid) :
    ∑ k, ((f.next i).mshr k).rank < ∑ k, (f.mshr k).rank := by
  have hrank (k : Fin p.nMSHRs) := rank_next (m := f.mshr k) (i := f.input i k)
    (by simp [input, h.noReq]) (by simp [input, h.noReq]) (hcnt k)
  obtain ⟨l, hl⟩ := h.exists_advances hk
  exact Finset.sum_lt_sum (fun k _ => (hrank k).1) ⟨l, Finset.mem_univ l, (hrank l).2 hl⟩

end MSHRFile

end TaggedRiscv.L1
