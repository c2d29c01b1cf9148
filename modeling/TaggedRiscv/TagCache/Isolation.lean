import TaggedRiscv.TagCache.Registers

/-!
# Isolation of tag cache transactions

What a tracker forwards to the memory on behalf of a write.

The tracker forwards whatever stands on its channel while it has not seen the memory's
acknowledgement, and for a `PutBlock` also before its first beat, valid or not. So the two lists
agree exactly as long as the channel shows the tracker nothing but the beats of its own
transaction.
-/

namespace TaggedRiscv.TagCache

open Sync TagUtil Tracker TagCache

variable {n : ℕ} {g : Geometry}

/-! ## Taken and sent -/

/-- The transaction a tracker has accepted last, with its address, its beats that the
cache has taken, and the data beats that the tracker has sent. -/
structure Forward where
  request : Option Request
  addr : ℕ
  taken : List Beat
  sent : List OutMsg
  deriving DecidableEq

section

variable (c : TagCache n g) (i : CacheIn n g) (k : Fin n)

/-- The beat of a transaction that the cache takes from the transaction's channel. -/
def takenOf : Request → Option Beat
  | .acquire m =>
    if i.acquire.valid && c.acquireReady i && i.acquire.bits.id == m.id then
      some i.acquire.bits.data
    else none
  | .release m =>
    if i.release.valid && c.releaseReady i && i.release.bits.id == m.id then
      some i.release.bits.data
    else none

/-- The request that a tracker sends to the memory other than for a tag line. -/
def sentBy : Option OutMsg :=
  if (c.tracker k).outAcquireFire (c.trackerIn i k) && !(c.tracker k).memSendTag &&
      !(c.tracker k).memReceiveTag then
    some (c.outBits i k)
  else none

/-- The id on the channel a tracker listens to. -/
def channelId : XactId :=
  if (c.tracker k).isAcq then i.acquire.bits.id else i.release.bits.id

/-- A tracker that forwards a write sees only beats of its own transaction that it has
not yet collected, and the first beat of a `PutBlock` stays until it is sent. -/
def OwnBeats : Prop :=
  ∀ k, (c.tracker k).SeesOwn (c.trackerIn i k) ∧
    ((c.tracker k).isWrite = true →
      (c.tracker k).channelValid (c.acquireTo i k).valid (c.releaseTo i k).valid = true →
      channelId c i k = (c.tracker k).tagOut)
deriving Decidable

end

namespace Forward

/-- Nothing has been accepted. -/
def empty : Forward := ⟨none, 0, [], []⟩

/-- The record after a cycle. -/
def step (f : Forward) (c : TagCache n g) (i : CacheIn n g) (k : Fin n) : Forward :=
  match (c.tracker k).requestOf (c.trackerIn i k) with
  | some r => ⟨some r, addrOf (c.trackerIn i k) r, [], []⟩
  | none =>
    if (c.tracker k).state = .idle then f
    else
      { f with
        taken := f.taken ++ (f.request.bind (takenOf c i)).toList
        sent := f.sent ++ (sentBy c i k).toList }

/-- The request to the memory that forwards a beat. -/
def forwarded (r : Request) (addr : ℕ) (b : Beat) : OutMsg :=
  .putBlock r.id addr (insertEmptyTag 4 (removeTag b))

/-- For a write the tracker has sent the beats that were taken, each once and in
order; it has counted these; and its buffer holds these. -/
def Isolated (t : Tracker g) (f : Forward) : Prop :=
  ∀ r, f.request = some r → r.isWrite = true →
    f.sent = f.taken.map (forwarded r f.addr) ∧ f.taken.length ≤ 4 ∧
      t.acqDataCnt.val = f.taken.length % 4 ∧
      ∀ j : Fin 4, j.val < f.taken.length → f.taken[j.val]? = some (t.acqData j)

/-- The beats of a write that have been collected. -/
structure Counted (t : Tracker g) (f : Forward) (r : Request) : Prop where
  sent : f.sent = f.taken.map (forwarded r f.addr)
  stored : ∀ j : Fin 4, j.val < f.taken.length → f.taken[j.val]? = some (t.acqData j)
  collecting : t.collectAcqData → t.acqDataCnt.val = f.taken.length
  collected : t.collectAcqData = false → f.taken.length = 4 ∧ t.acqDataCnt = 0

/-- What the record has to do with the tracker's registers. -/
structure Inv (t : Tracker g) (f : Forward) : Prop where
  wf : t.Wf
  cnt : t.isWriteProcess = false → t.acqDataCnt = 0
  open_ : t.state ≠ .idle →
    ∃ r, f.request = some r ∧ t.tagOut = r.id ∧ t.isWriteProcess = r.isWrite ∧
      t.addrOut = f.addr ∧ (t.acqDataProcess → t.isAcq = r.isAcquire)
  counted : ∀ r, f.request = some r → r.isWrite → Counted t f r

theorem Inv.isolated {t : Tracker g} {f : Forward} (h : Inv t f) : Isolated t f := by
  intro r hr hw
  obtain ⟨hsent, hstored, hcol, hdone⟩ := h.counted r hr hw
  refine ⟨hsent, ?_, ?_, hstored⟩
  all_goals
    cases hc : t.collectAcqData with
    | true => have := hcol hc; have := t.acqDataCnt.isLt; omega
    | false => have := hdone hc; simp [this]

/-! ## One cycle of a tracker that forwards -/

section Cycle

variable {c : TagCache n g} {i : CacheIn n g} {k : Fin n}

section Taken

variable (hd : DistinctIds c) (hs : (c.tracker k).state ≠ .idle) {r : Request}
  (hid : (c.tracker k).tagOut = r.id)

include hd hs hid

/-- The cache takes a beat of a tracker's transaction when the tracker does. -/
theorem takenOf_own :
    takenOf c i r = match r with
      | .acquire m =>
        if i.acquire.valid && (c.tracker k).acquireReady (c.trackerIn i k) &&
            i.acquire.bits.id == m.id then
          some i.acquire.bits.data
        else none
      | .release m =>
        if i.release.valid && (c.tracker k).releaseReady (c.trackerIn i k) &&
            i.release.bits.id == m.id then
          some i.release.bits.data
        else none := by
  cases r with
  | acquire m =>
    by_cases he : i.acquire.bits.id = m.id
    · have hm := isMatch_iff.2 ⟨hid.trans he.symm, hs⟩
      simp [takenOf, acquireReady_of_match hd hm]
    · simp [takenOf, he]
  | release m =>
    by_cases he : i.release.bits.id = m.id
    · have hm := isMatch_iff.2 ⟨hid.trans he.symm, hs⟩
      simp [takenOf, releaseReady_of_match hd hm]
    · simp [takenOf, he]

/-- The beat that is taken for a write is the one that the tracker forwards. -/
theorem takenOf_eq (hown : OwnBeats c i) (hp : (c.tracker k).acqDataProcess)
    (hw : (c.tracker k).isWrite) (hacq : (c.tracker k).isAcq = r.isAcquire) :
    takenOf c i r =
      if (c.tracker k).outAcquireFire (c.trackerIn i k) then
        some ((c.tracker k).channelData i.acquire.bits.data i.release.bits.data)
      else none := by
  rw [takenOf_own hd hs hid]
  cases hf : (c.tracker k).outAcquireFire (c.trackerIn i k) with
  | false => cases r <;> simp [Tracker.acquireReady, Tracker.releaseReady, hacq, hp, hf]
  | true =>
    have hv := channelValid_of_fire (hown k).1 hp hw hf
    have hown_id := (hown k).2 hw hv
    rw [channelId, hid, hacq] at hown_id
    rw [channelValid, hacq] at hv
    cases r with
    | acquire m =>
      have hvalid : i.acquire.valid := by
        simp [acquireTo, Request.isAcquire] at hv
        exact hv.1
      have hm : i.acquire.bits.id = m.id := hown_id
      simp [Tracker.acquireReady, channelData, hacq, Request.isAcquire, hp, hf, hvalid, hm]
    | release m =>
      have hvalid : i.release.valid := by
        simp [releaseTo, Request.isAcquire] at hv
        exact hv.1
      have hm : i.release.bits.id = m.id := hown_id
      simp [Tracker.releaseReady, channelData, hacq, Request.isAcquire, hp, hf, hvalid, hm]

/-- Nothing is taken for a transaction whose own data is done. -/
theorem takenOf_done (hp : (c.tracker k).acqDataProcess = false) : takenOf c i r = none := by
  rw [takenOf_own hd hs hid]
  cases r <;> simp [Tracker.acquireReady, Tracker.releaseReady, hp]

end Taken

/-- While a write's data is on its way, its beats are all that is sent. -/
theorem sentBy_eq (hp : (c.tracker k).acqDataProcess) (hw : (c.tracker k).isWriteProcess) :
    sentBy c i k =
      if (c.tracker k).outAcquireFire (c.trackerIn i k) then
        some (.putBlock (c.tracker k).tagOut (c.tracker k).addrOut
          (insertEmptyTag 4 (removeTag
            ((c.tracker k).channelData i.acquire.bits.data i.release.bits.data))))
      else none := by
  simp [sentBy, outBits, outAcquireBits, memSendTag, memReceiveTag, hp, hw]

/-- Once the own data is done only tag lines are sent. -/
theorem sentBy_done (hwf : (c.tracker k).Wf) (hp : (c.tracker k).acqDataProcess = false) :
    sentBy c i k = none := by
  have hw := (hwf.done hp).2.1
  unfold sentBy
  rw [if_neg]
  simp only [outAcquireFire, outAcquireValid, hp, hw]
  cases (c.tracker k).memSendTag <;> cases (c.tracker k).memReceiveTag <;> simp

end Cycle

/-! ## One step -/

section Step

variable {c : TagCache n g} {i : CacheIn n g} {k : Fin n} {f : Forward} {r : Request}

/-- A new transaction starts with nothing taken. -/
theorem step_inv_accept (h : Inv (c.tracker k) f) (hs : (c.tracker k).state = .idle)
    (hr : (c.tracker k).requestOf (c.trackerIn i k) = some r) :
    Inv ((c.next i).tracker k) (f.step c i k) := by
  have hcnt := h.cnt (h.wf.read_of_idle hs)
  have hwf : ((c.next i).tracker k).Wf := h.wf.next
  obtain ⟨_, hw, _⟩ := h.wf.done (h.wf.process_of_idle hs)
  have hcount : (c.tracker k).acqDataCount (c.trackerIn i k) = false := by simp [acqDataCount, hw]
  have hcnt' : ((c.next i).tracker k).acqDataCnt = 0 := by 
    rw [next_tracker, acqDataCnt_next, hcount]
    exact hcnt
  have hopen := h.wf.opened hs hr
  have hstep : f.step c i k = ⟨some r, addrOf (c.trackerIn i k) r, [], []⟩ := by simp [step, hr]
  rw [hstep]
  refine ⟨hwf, fun _ => hcnt', fun _ => ⟨r, rfl, hopen.tagOut, hopen.isWriteProcess,
    hopen.addrOut, fun _ => hopen.isAcq⟩, ?_⟩
  intro r' hr' hw'
  obtain rfl : r = r' := by simpa using hr'
  have hcol : ((c.next i).tracker k).collectAcqData := hopen.collectAcqData.trans hw'
  exact ⟨rfl, by simp, fun _ => by simp [hcnt'], fun hc => by simp [hcol] at hc⟩

/-- In a cycle without a beat the collected beats stay. -/
theorem counted_quiet (hs : (c.tracker k).state ≠ .idle) (h : Counted (c.tracker k) f r)
    (hcount : (c.tracker k).acqDataCount (c.trackerIn i k) = false) :
    Counted ((c.next i).tracker k) f r := by
  have hcnt : ((c.next i).tracker k).acqDataCnt = (c.tracker k).acqDataCnt := by
    simp [next_tracker, acqDataCnt_next, hcount]
  have hcol : ((c.next i).tracker k).collectAcqData = (c.tracker k).collectAcqData := by
    change ((c.tracker k).next (c.trackerIn i k)).collectAcqData = _
    simp [collectAcqData_next hs, acqDataDone, hcount]
  refine ⟨h.sent, fun j hj => ?_, fun hc => ?_, fun hc => ?_⟩
  · rw [h.stored j hj]
    cases hc : (c.tracker k).collectAcqData with
    | true =>
      -- the entry that follows the channel is not one of the collected
      have hne : j ≠ (c.tracker k).acqDataCnt := by
        intro he
        have := h.collecting hc
        rw [he] at hj
        omega
      rw [next_tracker, acqData_next, hc, if_pos rfl, Function.update_of_ne hne]
    | false =>
      change _ = some (((c.tracker k).next (c.trackerIn i k)).acqData j)
      simp [Tracker.next, hc]
  · rw [hcnt, h.collecting (hcol ▸ hc)]
  · rw [hcnt]
    exact h.collected (hcol ▸ hc)

/-- A beat that is sent is collected. -/
theorem counted_beat (hs : (c.tracker k).state ≠ .idle) (h : Counted (c.tracker k) f r)
    (hc : (c.tracker k).collectAcqData) (hcount : (c.tracker k).acqDataCount (c.trackerIn i k))
    {b : Beat} (hb : b = (c.tracker k).channelData i.acquire.bits.data i.release.bits.data) :
    Counted ((c.next i).tracker k)
      { f with taken := f.taken ++ [b], sent := f.sent ++ [forwarded r f.addr b] } r := by
  have hlen : (c.tracker k).acqDataCnt.val = f.taken.length := h.collecting hc
  have hlt : f.taken.length < 4 := hlen ▸ (c.tracker k).acqDataCnt.isLt
  have hcnt : ((c.next i).tracker k).acqDataCnt = (c.tracker k).acqDataCnt + 1 := by
    simp [next_tracker, acqDataCnt_next, hcount]
  have hcol : ((c.next i).tracker k).collectAcqData = !((c.tracker k).acqDataCnt == 3) := by
    change ((c.tracker k).next (c.trackerIn i k)).collectAcqData = _
    simp [collectAcqData_next hs, acqDataDone, hcount, hc]
  refine ⟨?_, fun j hj => ?_, fun hc' => ?_, fun hc' => ?_⟩
  · simp [h.sent]
  · have hdata : ((c.next i).tracker k).acqData =
        Function.update (c.tracker k).acqData (c.tracker k).acqDataCnt b := by
      rw [next_tracker, acqData_next, hc, if_pos rfl, hb]
      rfl
    rw [hdata]
    by_cases hjl : j.val < f.taken.length
    · have hne : j ≠ (c.tracker k).acqDataCnt := fun he => by rw [he] at hjl; omega
      rw [Function.update_of_ne hne, List.getElem?_append_left hjl, h.stored j hjl]
    · have hje : j.val = f.taken.length := by simp at hj; omega
      have he : j = (c.tracker k).acqDataCnt := Fin.ext (hje.trans hlen.symm)
      rw [he, Function.update_self, hlen]
      simp
  · rw [hcol] at hc'
    have hne : (c.tracker k).acqDataCnt ≠ Fin.last 3 := by simpa using hc'
    rw [hcnt, Fin.val_add_one_of_lt (Fin.lt_last_iff_ne_last.2 hne), hlen]
    simp
  · rw [hcol] at hc'
    have h3 : (c.tracker k).acqDataCnt = 3 := by simpa using hc'
    rw [h3] at hlen
    rw [hcnt, h3]
    refine ⟨?_, rfl⟩
    rw [List.length_append, ← hlen]
    rfl

theorem counted_step (hd : DistinctIds c) (hown : OwnBeats c i) (h : Inv (c.tracker k) f)
    (hs : (c.tracker k).state ≠ .idle) (hreq : f.request = some r)
    (hw : r.isWrite) (hid : (c.tracker k).tagOut = r.id)
    (hwp : (c.tracker k).isWriteProcess = r.isWrite) (haddr : (c.tracker k).addrOut = f.addr)
    (hacq : (c.tracker k).acqDataProcess → (c.tracker k).isAcq = r.isAcquire) :
    Counted ((c.next i).tracker k)
      { f with
        taken := f.taken ++ (takenOf c i r).toList
        sent := f.sent ++ (sentBy c i k).toList } r := by
  have hcounted := h.counted r hreq hw
  cases hp : (c.tracker k).acqDataProcess with
  | false =>
    have hcount : (c.tracker k).acqDataCount (c.trackerIn i k) = false := by
      simp [acqDataCount, (h.wf.done hp).2.1]
    rw [takenOf_done hd hs hid hp, sentBy_done h.wf hp]
    simpa using counted_quiet hs hcounted hcount
  | true =>
    have hwp' : (c.tracker k).isWriteProcess := hwp.trans hw
    have hwr : (c.tracker k).isWrite := (h.wf.isWrite_eq hp).trans hwp'
    have hcount := acqDataCount_eq (hown k).1 hp hwr
    rw [takenOf_eq hd hs hid hown hp hwr (hacq hp), sentBy_eq hp hwp']
    cases hf : (c.tracker k).outAcquireFire (c.trackerIn i k) with
    | false =>
      rw [hf] at hcount
      simpa using counted_quiet hs hcounted hcount
    | true =>
      rw [hf] at hcount
      have hc := collect_of_fire (hown k).1 hp hwr hf
      rw [hid, haddr]
      exact counted_beat hs hcounted hc hcount rfl

/-- The counter is back at zero when a write is over, and a read does not move it. -/
theorem acqDataCnt_step (h : Inv (c.tracker k) f) (hs : (c.tracker k).state ≠ .idle)
    (hreq : f.request = some r) (hwp : (c.tracker k).isWriteProcess = r.isWrite)
    (hread : ((c.next i).tracker k).isWriteProcess = false) :
    ((c.next i).tracker k).acqDataCnt = 0 := by
  have hkey : (c.tracker k).acqDataCnt = 0 ∧ (c.tracker k).isWrite = false := by
    cases hw : r.isWrite with
    | false =>
      refine ⟨h.cnt (hwp.trans hw), ?_⟩
      cases hp : (c.tracker k).acqDataProcess with
      | false => exact (h.wf.done hp).2.1
      | true => exact (h.wf.isWrite_eq hp).trans (hwp.trans hw)
    | true =>
      -- the direction was forgotten in this cycle, so the transaction is over
      have hn : (c.tracker k).nextState (c.trackerIn i k) = .idle := by
        by_contra hn
        have := (isWriteProcess_next hs hn).trans (hwp.trans hw)
        exact absurd (this.symm.trans hread) (by simp)
      have hb : (c.tracker k).state = .busy := by
        by_contra hb
        exact nextState_ne_idle hs hb hn
      have hp : (c.tracker k).acqDataProcess = false := by
        by_contra hp
        simp [nextState, hb, hp] at hn
      exact ⟨((h.counted r hreq hw).collected (h.wf.collected (by simp [hb]))).2,
        (h.wf.done hp).2.1⟩
  rw [next_tracker, acqDataCnt_next, if_neg (by simp [acqDataCount, hkey.2]), hkey.1]

theorem step_inv_open (hd : DistinctIds c) (hown : OwnBeats c i) (h : Inv (c.tracker k) f)
    (hs : (c.tracker k).state ≠ .idle) : Inv ((c.next i).tracker k) (f.step c i k) := by
  obtain ⟨r, hreq, hid, hwp, haddr, hacq⟩ := h.open_ hs
  have hstep : f.step c i k =
      { f with
        taken := f.taken ++ (takenOf c i r).toList
        sent := f.sent ++ (sentBy c i k).toList } := by
    simp [step, requestOf_eq_none hs, hs, hreq]
  rw [hstep]
  refine ⟨h.wf.next, fun hread => ?_, fun hn => ?_, fun r' hr' hw => ?_⟩
  · exact acqDataCnt_step h hs hreq hwp hread
  · refine ⟨r, hreq, (tagOut_next hs).trans hid,
      (isWriteProcess_next hs hn).trans hwp, (addrOut_next hs).trans haddr, ?_⟩
    intro hp'
    have hp := acqDataProcess_next (i := c.trackerIn i k) hs
    obtain ⟨hpp, hdone⟩ : (c.tracker k).acqDataProcess ∧
        (c.tracker k).dataDone (c.trackerIn i k) = false := by
      simpa using hp.symm.trans hp'
    change ((c.tracker k).next (c.trackerIn i k)).isAcq = _
    rw [(own_registers_next hs).2.2, hdone, hacq hpp]
    simp
  · obtain rfl : r = r' := Option.some.inj (hreq.symm.trans hr')
    exact counted_step hd hown h hs hreq hw hid hwp haddr hacq

/-- An idle tracker that accepts nothing keeps the last transaction's record. -/
theorem step_inv_idle (h : Inv (c.tracker k) f) (hs : (c.tracker k).state = .idle)
    (hr : (c.tracker k).requestOf (c.trackerIn i k) = none) :
    Inv ((c.next i).tracker k) (f.step c i k) := by
  have hstep : f.step c i k = f := by simp [step, hr, hs]
  have hidle : ((c.next i).tracker k).state = .idle := idle_next hs hr
  have hc := h.wf.collected (by simp [hs])
  have hcount : (c.tracker k).acqDataCount (c.trackerIn i k) = false := by
    simp [acqDataCount, (h.wf.done (h.wf.process_of_idle hs)).2.1]
  have hcnt : ((c.next i).tracker k).acqDataCnt = (c.tracker k).acqDataCnt := by
    simp [next_tracker, acqDataCnt_next, hcount]
  have hdata : ((c.next i).tracker k).acqData = (c.tracker k).acqData := by
    change ((c.tracker k).next (c.trackerIn i k)).acqData = _
    simp [Tracker.next, hc]
  have hwf : ((c.next i).tracker k).Wf := h.wf.next
  rw [hstep]
  refine ⟨hwf, fun _ => hcnt.trans (h.cnt (h.wf.read_of_idle hs)), fun hn => absurd hidle hn, ?_⟩
  intro r hreq hw
  obtain ⟨hsent, hstored, _, hcollected⟩ := h.counted r hreq hw
  refine ⟨hsent, fun j hj => hdata ▸ hstored j hj, fun hc' => ?_, fun _ => hcnt ▸ hcollected hc⟩
  exact absurd (hc'.symm.trans (hwf.collected (by simp [hidle]))) (by simp)

theorem step_inv (hd : DistinctIds c) (hown : OwnBeats c i) (h : Inv (c.tracker k) f) :
    Inv ((c.next i).tracker k) (f.step c i k) := by
  by_cases hs : (c.tracker k).state = .idle
  · cases hr : (c.tracker k).requestOf (c.trackerIn i k) with
    | none => exact step_inv_idle h hs hr
    | some r => exact step_inv_accept h hs hr
  · exact step_inv_open hd hown h hs

end Step

end Forward

/-! ## Runs -/

/-- The tag cache in an environment that shows a tracker nothing but its own beats
while it forwards a write. -/
abbrev ownMachine (n : ℕ) (g : Geometry) : Machine (TagCache n g) (CacheIn n g) where
  ok := OwnBeats
  next := next

theorem distinctIds_reset (u : TagCache n g) : DistinctIds u.reset :=
  fun _ _ hj => absurd rfl hj

/-- If a tracker that forwards a write never sees another beat than its own, then in
every state reached every tracker has sent, counted and stored the beats of its
transaction that the cache has taken, each once and in order, and nothing else. -/
theorem forwards_own_beats (u : TagCache n g) (is : List (CacheIn n g)) (k : Fin n)
    (hl : (ownMachine n g).Legal u.reset is) :
    Forward.Isolated (((ownMachine n g).run u.reset is).tracker k)
      ((ownMachine n g).history (fun f c i => f.step c i k) u.reset .empty is) := by
  have hinit : DistinctIds u.reset ∧ Forward.Inv (u.reset.tracker k) .empty := by
    refine ⟨distinctIds_reset u, wf_reset _, fun _ => rfl, fun hn => absurd rfl hn, ?_⟩
    intro r hr
    simp [Forward.empty] at hr
  have hinv := Machine.invariant_history (m := ownMachine n g)
    (Q := fun c f => DistinctIds c ∧ Forward.Inv (c.tracker k) f)
    (fun f c i => f.step c i k) ?_ hinit hl
  · exact hinv.2.isolated
  · rintro c f i ⟨hd, h⟩ hown
    exact ⟨distinct_ids_next hd, Forward.step_inv hd hown h⟩

local instance neZeroWays : NeZero shipped.nWays := ⟨by decide⟩

/-- A cycle of the shipped cache in which a client holds a beat of a voluntary release
valid and the memory takes what it is sent. -/
def releaseCycle (client : ℕ) (data : Beat) : CacheIn 1 shipped :=
  { acquire := ⟨false, ⟨⟨0, 0⟩, .custom, 0⟩⟩
    release := ⟨true, ⟨⟨client, 0⟩, data⟩⟩
    phyAddrAcq := 0
    phyAddrRel := 0x1000000
    grantReady := true
    outAcquireReady := true
    outGrant := none
    replaceWay := 0 }

/-- The release of client 1: accepted, and its four beats taken. -/
def releaseRun : List (CacheIn 1 shipped) :=
  [releaseCycle 1 10, releaseCycle 1 10, releaseCycle 1 11, releaseCycle 1 12, releaseCycle 1 13]

/-- While the release of client 1 waits for its acknowledgement, a beat of client 2 is
sent on its behalf, though the cache does not take it. -/
theorem releaseRun_forwards_foreign_beat :
    ¬ Forward.Isolated
      (((ownMachine 1 shipped).run (zero 1 shipped).reset
        (releaseRun ++ [releaseCycle 2 99])).tracker 0)
      ((ownMachine 1 shipped).history (fun f c i => f.step c i 0) (zero 1 shipped).reset
        .empty (releaseRun ++ [releaseCycle 2 99])) := by
  intro h
  have hsent := (h (.release ⟨⟨1, 0⟩, 10⟩) (by decide +kernel) rfl).1
  exact absurd (congrArg List.length hsent) (by rw [List.length_map]; decide +kernel)

/-- The release of client 1 alone. -/
theorem forwards_own_beats_releaseRun :
    (ownMachine 1 shipped).Legal (zero 1 shipped).reset releaseRun ∧
      Forward.Isolated
        (((ownMachine 1 shipped).run (zero 1 shipped).reset releaseRun).tracker 0)
        ((ownMachine 1 shipped).history (fun f c i => f.step c i 0)
          (zero 1 shipped).reset .empty releaseRun) := by
  have hl : (ownMachine 1 shipped).Legal (zero 1 shipped).reset releaseRun := by decide +kernel
  exact ⟨hl, forwards_own_beats _ _ 0 hl⟩

end TaggedRiscv.TagCache
