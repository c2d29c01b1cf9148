import TaggedRiscv.L1.Units
import TaggedRiscv.Lib.Machine
import TaggedRiscv.Lib.Packed

/-!
# The rows of a write-back (`WritebackUnit`)

The write-back unit with the data it moves. A row comes back from the data array two cycles after
it was asked for, so two more rows may be on their way when a beat is complete. Rows narrower than
a beat are shifted into a buffer from the top; the last row of a beat is not buffered but sent as
it comes. If the beat is not accepted in that cycle the counter goes back to the row that was
lost.
-/

namespace TaggedRiscv.L1

open Sync WritebackUnit

variable {p : L1Params} {w : ℕ}

/-! ## What a cycle of the control does -/

namespace WritebackUnit

variable {u : WritebackUnit p} {i : WritebackIn p}

/-- The registers of an active unit when nothing is refused: the requests move on. -/
theorem next_of_not_stalled (ha : u.active) (hs : u.stalled i = false) :
    (u.next i).r1DataReqFired = u.rowFired i ∧ (u.next i).r2DataReqFired = u.r1DataReqFired ∧
      (u.next i).dataReqCnt = u.dataReqCnt + (u.rowFired i).toNat ∧ (u.next i).req = u.req := by
  cases hf : u.rowFired i <;> simp [next, ha, advance, hs, hf]

theorem next_of_stalled (ha : u.active) (hs : u.stalled i) :
    (u.next i).r1DataReqFired = false ∧ (u.next i).r2DataReqFired = false ∧
      (u.next i).bufV = u.bufV ∧ (u.next i).beatCnt = u.beatCnt ∧ (u.next i).req = u.req := by
  have hs' := hs
  simp only [stalled, Bool.and_eq_true, Bool.not_eq_true'] at hs'
  simp [next, ha, advance, hs, hs'.1.2, hs'.2]

theorem next_of_no_row (ha : u.active) (h2 : u.r2DataReqFired = false) :
    (u.next i).bufV = u.bufV ∧ (u.next i).beatCnt = u.beatCnt := by
  simp [next, ha, advance, h2, releaseValid]

theorem next_of_buffered (ha : u.active) (h2 : u.r2DataReqFired)
    (hd : u.beatDone = false) : (u.next i).bufV = u.bufV + 1 ∧ (u.next i).beatCnt = u.beatCnt := by
  simp [next, ha, advance, h2, hd, releaseValid]

theorem next_of_sent (hv : u.releaseValid) (hr : i.releaseReady) :
    (u.next i).bufV = 0 ∧ (u.next i).beatCnt = (u.beatCnt + 1) % p.outerDataBeats := by
  have hv' := hv
  simp only [releaseValid, Bool.and_eq_true] at hv'
  obtain ⟨⟨ha, h2⟩, hd⟩ := hv'
  simp [next, ha, advance, h2, hd, hv, hr]

/-- The unit stops with the last beat and with no other. -/
theorem Good.active_next_iff (h : u.Good) (hv : u.releaseValid) (hr : i.releaseReady) :
    (u.next i).active ↔ u.beatCnt + 1 < p.outerDataBeats := by
  obtain ⟨hcnt, hlt⟩ := h.beat_sent hv
  constructor
  · intro hgo
    by_contra hno
    rw [h.stops hv hr (by omega)] at hgo
    exact Bool.false_ne_true hgo
  · intro hmore
    by_contra hstop
    rw [Bool.not_eq_true] at hstop
    simp only [releaseValid, Bool.and_eq_true] at hv
    obtain ⟨-, h1, hge, -⟩ := (active_next_eq_false hv.1.1).1 hstop
    have := (h.last_beat hv.1.1 hv.1.2 (le_antisymm (h.le hv.1.1) hge) h1).2
    omega

/-- A unit that sends no beat goes on. -/
theorem Good.active_next_of_not_sent (h : u.Good) (ha : u.active)
    (hn : ¬ (u.releaseValid ∧ i.releaseReady)) : (u.next i).active := by
  by_contra hstop
  rw [Bool.not_eq_true] at hstop
  obtain ⟨h2, h1, hge, hr⟩ := (active_next_eq_false ha).1 hstop
  have hd := (h.last_beat ha h2 (le_antisymm (h.le ha) hge) h1).1
  exact hn ⟨by simp [releaseValid, ha, h2, hd], hr⟩

/-! ## Progress -/

/-- Every input that refuses nothing. -/
def Willing (i : WritebackIn p) : Prop :=
  i.metaReadReady = true ∧ i.dataReqReady = true ∧ i.releaseReady = true

/-- The rows still to be read count three, the ones on their way two and one. -/
def distance (u : WritebackUnit p) : ℕ :=
  3 * (p.refillCycles - u.dataReqCnt) + 2 * u.r1DataReqFired.toNat + u.r2DataReqFired.toNat

/-- As long as not all beats are sent there is something to do. -/
theorem Good.distance_pos (h : u.Good) (ha : u.active) (hb : u.beatCnt < p.outerDataBeats) :
    0 < u.distance := by
  have hrows := h.rows ha
  have hbuf := h.bufV_lt ha
  have hmul := Nat.mul_le_mul_left p.refillCyclesPerBeat (show u.beatCnt + 1 ≤ _ from hb)
  rw [Nat.mul_add, Nat.mul_one, ← L1Params.refillCycles] at hmul
  unfold distance
  omega

theorem Good.distance_le (h : u.Good) : u.distance ≤ 3 * p.refillCycles := by
  unfold distance
  cases ha : u.active with
  | false =>
    have hidle := h.idle ha
    simp only [hidle, Bool.toNat_false]
    omega
  | true =>
    have hrows := h.rows ha
    have hle := h.le ha
    omega

theorem Good.distance_next (h : u.Good) (ha : u.active) (hb : u.beatCnt < p.outerDataBeats)
    (hw : Willing i) : (u.next i).distance < u.distance := by
  obtain ⟨hm, hd, hr⟩ := hw
  have hle := h.le ha
  have hpos := h.distance_pos ha hb
  have hns : u.stalled i = false := by simp [stalled, hr]
  obtain ⟨h1', h2', hcnt', -⟩ := next_of_not_stalled ha hns
  have hfired : u.rowFired i = decide (u.dataReqCnt < p.refillCycles) := by
    simp [rowFired, fire, ha, hm, hd]
  unfold distance at hpos ⊢
  rw [h1', h2', hcnt', hfired]
  by_cases hlt : u.dataReqCnt < p.refillCycles
  · simp only [hlt, decide_true, Bool.toNat_true]
    omega
  · simp only [hlt, decide_false, Bool.toNat_false]
    omega

end WritebackUnit

/-! ## Buffer and data array -/

variable (p) in
/-- A row to be read: the ways, and the address without the bits below a row. -/
structure L1DataReadReq where
  wayEn : Fin p.nWays → Bool
  addr : ℕ

variable (p w) in
/-- A beat of a release with its data. -/
structure WritebackBeat where
  bits : L1Release p
  data : BitVec (p.refillCyclesPerBeat * w)

variable (p w) in
/-- The write-back unit with its buffer, of which entry 0 holds the lowest row. `req1` and `req2`
are the rows asked for one and two cycles ago. -/
structure WritebackRows where
  ctl : WritebackUnit p
  dataBuf : Fin (p.refillCyclesPerBeat - 1) → BitVec w
  req1 : Option (L1DataReadReq p)
  req2 : Option (L1DataReadReq p)

variable (p w) in
structure WritebackRowsIn where
  ctl : WritebackIn p
  dataResp : BitVec w

variable (p w) in
/-- What was sent for the request accepted last. -/
structure WritebackLog where
  accepted : Option (WritebackReq p)
  sent : List (WritebackBeat p w)

/-- Row `k` of a block: the index with the number of the row behind it. -/
def WritebackReq.row (r : WritebackReq p) (k : ℕ) : L1DataReadReq p :=
  ⟨r.wayEn, r.addr.idx.toNat * 2 ^ Nat.clog 2 p.refillCycles + k % 2 ^ Nat.clog 2 p.refillCycles⟩

namespace WritebackRows

variable (s : WritebackRows p w) (i : WritebackRowsIn p w)

/-- `io.data_req.bits`. -/
def dataReq : L1DataReadReq p := s.ctl.req.row s.ctl.dataReqCnt

/-- `Cat(io.data_resp, data_buf((refillCyclesPerBeat-1)*encTaggedRowBits-1, encTaggedRowBits))`. -/
def shiftIn {n : ℕ} (buf : Fin n → BitVec w) (x : BitVec w) (j : Fin n) : BitVec w :=
  if h : j + 1 < n then buf ⟨j + 1, h⟩ else x

/-- `Cat(io.data_resp, data_buf)`, as rows. -/
def releaseRows (j : Fin p.refillCyclesPerBeat) : BitVec w :=
  if h : j < p.refillCyclesPerBeat - 1 then s.dataBuf ⟨j, h⟩ else i.dataResp

/-- `io.release.bits.data`: the row that has just come above those in the buffer. -/
def releaseData : BitVec (p.refillCyclesPerBeat * w) := Packed.toBits (s.releaseRows i)

/-- The beat sent in a cycle. -/
def release : Option (WritebackBeat p w) :=
  if s.ctl.releaseValid && i.ctl.releaseReady then some ⟨s.ctl.releaseBits, s.releaseData i⟩
  else none

def next : WritebackRows p w where
  ctl := s.ctl.next i.ctl
  dataBuf :=
    if s.ctl.active && s.ctl.r2DataReqFired && !s.ctl.beatDone then shiftIn s.dataBuf i.dataResp
    else s.dataBuf
  req1 := if s.ctl.rowFired i.ctl then some s.dataReq else none
  req2 := s.req1

/-- The request accepted in a cycle starts a new record. -/
def record (l : WritebackLog p w) (s : WritebackRows p w) (i : WritebackRowsIn p w) :
    WritebackLog p w :=
  if s.ctl.reqReady then
    match i.ctl.req with
    | some r => ⟨some r, []⟩
    | none => l
  else { l with sent := l.sent ++ (s.release i).toList }

/-- The unit after a reset, with whatever the registers without initial value hold. -/
def reset (req : WritebackReq p) (buf : Fin (p.refillCyclesPerBeat - 1) → BitVec w) :
    WritebackRows p w :=
  { ctl := ⟨false, false, false, 0, 0, 0, req⟩, dataBuf := buf, req1 := none, req2 := none }

variable (array : L1DataReadReq p → BitVec w)

/-- The unit next to a data array: the answer to a request comes two cycles later. In other cycles
`data_resp` is arbitrary. -/
def machine : Machine (WritebackRows p w) (WritebackRowsIn p w) where
  ok s i := ∀ a, s.req2 = some a → i.dataResp = array a
  next := next

/-- The rows of beat `k` of a block. -/
def beatRows (r : WritebackReq p) (k : ℕ) (j : Fin p.refillCyclesPerBeat) : BitVec w :=
  array (r.row (p.refillCyclesPerBeat * k + j))

/-- Beat `k` of a block as the array holds it. -/
def beat (r : WritebackReq p) (k : ℕ) : WritebackBeat p w where
  bits :=
    { voluntary := r.voluntary, rType := r.rType, clientXactId := r.clientXactId, addr := r.addr
      addrBeat := k }
  data := Packed.toBits (beatRows array r k)

/-! ## The invariant -/

/-- The number of the row that comes next: number `bufV` of the current beat. -/
def rowCnt : ℕ := p.refillCyclesPerBeat * s.ctl.beatCnt + s.ctl.bufV

/-- The rows on their way are the next ones. -/
structure Piped (s : WritebackRows p w) : Prop where
  req2 : s.ctl.r2DataReqFired → s.req2 = some (s.ctl.req.row s.rowCnt)
  req1 : s.ctl.r1DataReqFired →
    s.req1 = some (s.ctl.req.row (s.rowCnt + s.ctl.r2DataReqFired.toNat))

/-- What buffer, pipeline and record hold while a block is written back. The entries of the buffer
that are filled are the top ones. -/
structure Tracks (s : WritebackRows p w) (l : WritebackLog p w) : Prop extends Piped s where
  buf : ∀ (j : Fin (p.refillCyclesPerBeat - 1)) (k : ℕ),
    j + s.ctl.bufV = p.refillCyclesPerBeat - 1 + k →
    s.dataBuf j = array (s.ctl.req.row (p.refillCyclesPerBeat * s.ctl.beatCnt + k))
  accepted : l.accepted = some s.ctl.req
  sent : l.sent = (List.range s.ctl.beatCnt).map (beat array s.ctl.req)
  beatCnt_lt : s.ctl.beatCnt < p.outerDataBeats

/-- The whole invariant. -/
structure Good (s : WritebackRows p w) (l : WritebackLog p w) : Prop where
  ctl : s.ctl.Good
  tracks : s.ctl.active → s.Tracks array l
  done : s.ctl.active = false → ∀ r, l.accepted = some r →
    l.sent = (List.range p.outerDataBeats).map (beat array r)

variable {array s i} {l : WritebackLog p w}

/-- A beat that is sent has the rows of the block. -/
theorem Tracks.release_eq (h : s.Tracks array l) (hv : s.ctl.releaseValid)
    (hr : i.ctl.releaseReady) (hi : ∀ a, s.req2 = some a → i.dataResp = array a) :
    s.release i = some (beat array s.ctl.req s.ctl.beatCnt) := by
  rw [release, if_pos (by simp [hv, hr])]
  simp only [releaseValid, beatDone, Bool.and_eq_true, beq_iff_eq] at hv
  obtain ⟨⟨-, h2⟩, hdone⟩ := hv
  have hresp := hi _ (h.req2 h2)
  rw [rowCnt, hdone] at hresp
  have hrows : s.releaseRows i = beatRows array s.ctl.req s.ctl.beatCnt := by
    funext j
    unfold releaseRows beatRows
    by_cases hj : (j : ℕ) < p.refillCyclesPerBeat - 1
    · rw [dif_pos hj]
      exact h.buf ⟨j, hj⟩ j (by rw [hdone]; exact Nat.add_comm _ _)
    · -- the last row of the beat is the one that has just come
      rw [dif_neg hj, hresp, show (j : ℕ) = p.refillCyclesPerBeat - 1 by omega]
  unfold releaseData beat
  rw [hrows]
  rfl

/-- A row that goes into the buffer moves the others down. -/
theorem Tracks.buf_shiftIn (h : s.Tracks array l) (h2 : s.ctl.r2DataReqFired)
    (hi : ∀ a, s.req2 = some a → i.dataResp = array a) (j : Fin (p.refillCyclesPerBeat - 1)) (k : ℕ)
    (hk : j + (s.ctl.bufV + 1) = p.refillCyclesPerBeat - 1 + k) :
    shiftIn s.dataBuf i.dataResp j =
      array (s.ctl.req.row (p.refillCyclesPerBeat * s.ctl.beatCnt + k)) := by
  unfold shiftIn
  split
  case isTrue hj => exact h.buf ⟨j + 1, hj⟩ k (by simp only; omega)
  case isFalse hj =>
    have hkv : k = s.ctl.bufV := by omega
    rw [hkv]
    exact hi _ (h.req2 h2)

/-- The requests move on with the count of the rows. -/
theorem Tracks.piped_next (h : s.Tracks array l) (hg : s.ctl.Good) (ha : s.ctl.active)
    (hns : s.ctl.stalled i.ctl = false)
    (hcount : (s.next i).rowCnt = s.rowCnt + s.ctl.r2DataReqFired.toNat) : (s.next i).Piped := by
  obtain ⟨h1', h2', -, hreq⟩ := next_of_not_stalled ha hns
  constructor
  · change (s.ctl.next i.ctl).r2DataReqFired = true → s.req1 = some ((s.ctl.next i.ctl).req.row _)
    rw [h2', hreq, hcount]
    exact h.req1
  · change (s.ctl.next i.ctl).r1DataReqFired = true →
      (if s.ctl.rowFired i.ctl then some s.dataReq else none) = some ((s.ctl.next i.ctl).req.row
        ((s.next i).rowCnt + (s.ctl.next i.ctl).r2DataReqFired.toNat))
    rw [h1', h2', hreq, hcount]
    intro hf
    rw [if_pos hf, dataReq, hg.rows ha, rowCnt]
    congr 2
    omega

theorem record_of_active (ha : s.ctl.active) :
    record l s i = { l with sent := l.sent ++ (s.release i).toList } := by
  simp [record, reqReady, ha]

/-- A beat is sent, and it is not the last. -/
theorem Tracks.next_of_sent (h : s.Tracks array l) (hg : s.ctl.Good) (ha : s.ctl.active)
    (hi : ∀ a, s.req2 = some a → i.dataResp = array a) (hgo : (s.ctl.next i.ctl).active)
    (hv : s.ctl.releaseValid) (hr : i.ctl.releaseReady) :
    (s.next i).Tracks array (record l s i) := by
  have hmore := (hg.active_next_iff hv hr).1 hgo
  obtain ⟨hbuf', hbeat'⟩ := WritebackUnit.next_of_sent hv hr
  rw [Nat.mod_eq_of_lt hmore] at hbeat'
  have hns : s.ctl.stalled i.ctl = false := by simp [stalled, hr]
  have hreq := (next_of_not_stalled ha hns).2.2.2
  have hv' := hv
  simp only [releaseValid, beatDone, Bool.and_eq_true, beq_iff_eq] at hv'
  obtain ⟨⟨-, h2⟩, hdone⟩ := hv'
  have hcount : (s.next i).rowCnt = s.rowCnt + s.ctl.r2DataReqFired.toNat := by
    have := p.refillCyclesPerBeat_pos
    change p.refillCyclesPerBeat * (s.ctl.next i.ctl).beatCnt + (s.ctl.next i.ctl).bufV = _
    rw [hbuf', hbeat', h2, rowCnt, hdone, Nat.mul_add, Bool.toNat_true]
    omega
  refine ⟨h.piped_next hg ha hns hcount, ?_, ?_, ?_, ?_⟩
  · intro j k hk
    change (j : ℕ) + (s.ctl.next i.ctl).bufV = _ at hk
    have := j.isLt
    omega
  · rw [record_of_active ha]
    exact h.accepted.trans (congrArg some hreq.symm)
  · rw [record_of_active ha, h.release_eq hv hr hi]
    change l.sent ++ [_] = (List.range (s.ctl.next i.ctl).beatCnt).map
      (beat array (s.ctl.next i.ctl).req)
    rw [hbeat', hreq, List.range_succ, List.map_append, ← h.sent]
    rfl
  · change (s.ctl.next i.ctl).beatCnt < _
    omega

/-- Nothing is sent: the buffer has what it has to have of the current beat. -/
theorem Tracks.next_of_buf (h : s.Tracks array l) (hpipe : (s.next i).Piped)
    (hbeat : (s.ctl.next i.ctl).beatCnt = s.ctl.beatCnt)
    (hreq : (s.ctl.next i.ctl).req = s.ctl.req)
    (hbuf : ∀ (j : Fin (p.refillCyclesPerBeat - 1)) (k : ℕ),
      j + (s.ctl.next i.ctl).bufV = p.refillCyclesPerBeat - 1 + k →
      (s.next i).dataBuf j =
        array (s.ctl.req.row (p.refillCyclesPerBeat * s.ctl.beatCnt + k))) :
    (s.next i).Tracks array l := by
  refine ⟨hpipe, fun j k hk => ?_, ?_, ?_, hbeat.trans_lt h.beatCnt_lt⟩
  · change (s.next i).dataBuf j = array ((s.ctl.next i.ctl).req.row
      (p.refillCyclesPerBeat * (s.ctl.next i.ctl).beatCnt + k))
    rw [hreq, hbeat]
    exact hbuf j k hk
  · exact h.accepted.trans (congrArg some hreq.symm)
  · change l.sent = (List.range (s.ctl.next i.ctl).beatCnt).map
      (beat array (s.ctl.next i.ctl).req)
    rw [hbeat, hreq]
    exact h.sent

theorem Tracks.next (h : s.Tracks array l) (hg : s.ctl.Good) (ha : s.ctl.active)
    (hi : ∀ a, s.req2 = some a → i.dataResp = array a)
    (hgo : (s.ctl.next i.ctl).active) : (s.next i).Tracks array (record l s i) := by
  by_cases hsend : s.ctl.releaseValid ∧ i.ctl.releaseReady
  · exact h.next_of_sent hg ha hi hgo hsend.1 hsend.2
  · have hrel : s.release i = none := by
      rw [release, if_neg (by simpa using hsend)]
    have hlog : record l s i = l := by
      rw [record_of_active ha, hrel]
      simp
    rw [hlog]
    -- the counts say what happened to the row that came, if one came
    cases h2 : s.ctl.r2DataReqFired with
    | false =>
      have hns : s.ctl.stalled i.ctl = false := by simp [stalled, h2]
      obtain ⟨hbuf', hbeat'⟩ := next_of_no_row (i := i.ctl) ha h2
      refine h.next_of_buf (h.piped_next hg ha hns ?_) hbeat' (next_of_not_stalled ha hns).2.2.2
        fun j k hk => ?_
      · simp [rowCnt, WritebackRows.next, hbuf', hbeat', h2]
      · rw [hbuf'] at hk
        simpa [WritebackRows.next, h2] using h.buf j k hk
    | true =>
      cases hd : s.ctl.beatDone with
      | false =>
        have hns : s.ctl.stalled i.ctl = false := by simp [stalled, hd]
        obtain ⟨hbuf', hbeat'⟩ := next_of_buffered (i := i.ctl) ha h2 hd
        refine h.next_of_buf (h.piped_next hg ha hns ?_) hbeat' (next_of_not_stalled ha hns).2.2.2
          fun j k hk => ?_
        · simp [rowCnt, WritebackRows.next, hbuf', hbeat', h2, Nat.add_assoc]
        · rw [hbuf'] at hk
          simpa [WritebackRows.next, ha, h2, hd] using h.buf_shiftIn h2 hi j k hk
      | true =>
        have hstall : s.ctl.stalled i.ctl := by
          have hv : s.ctl.releaseValid := by simp [releaseValid, ha, h2, hd]
          have hr : i.ctl.releaseReady = false := by simpa [hv] using hsend
          simp [stalled, h2, hd, hr]
        obtain ⟨h1', h2', hbuf', hbeat', hreq⟩ := next_of_stalled ha hstall
        -- the pipeline is empty, and the buffer waits for the row that was lost
        refine h.next_of_buf ⟨fun hc => ?_, fun hc => ?_⟩ hbeat' hreq fun j k hk => ?_
        · exact absurd (h2'.symm.trans hc) (by decide)
        · exact absurd (h1'.symm.trans hc) (by decide)
        · rw [hbuf'] at hk
          simpa [WritebackRows.next, hd] using h.buf j k hk

theorem Good.next (h : s.Good array l) (hi : ∀ a, s.req2 = some a → i.dataResp = array a) :
    (s.next i).Good array (record l s i) := by
  refine ⟨h.ctl.next, ?_, ?_⟩
  · intro hgo
    cases ha : s.ctl.active with
    | true => exact (h.tracks ha).next h.ctl ha hi hgo
    | false =>
      -- a request is accepted
      obtain ⟨h1, h2, hb⟩ := h.ctl.idle ha
      cases hreq : i.ctl.req with
      | none => simp [WritebackRows.next, WritebackUnit.next, ha, hreq] at hgo
      | some r =>
        have hctl : (s.next i).ctl =
            { s.ctl with active := true, dataReqCnt := 0, bufV := 0, req := r } := by
          simp [WritebackRows.next, WritebackUnit.next, ha, hreq]
        have hrec : record l s i = ⟨some r, []⟩ := by simp [record, reqReady, ha, hreq]
        refine ⟨⟨?_, ?_⟩, ?_, ?_, ?_, ?_⟩ <;> rw [hctl]
        · exact fun hc => absurd (h2.symm.trans hc) (by decide)
        · exact fun hc => absurd (h1.symm.trans hc) (by decide)
        · intro j k hk
          have := j.isLt
          simp only at hk
          omega
        · rw [hrec]
        · rw [hrec]
          simp [hb]
        · simpa [hb] using p.outerDataBeats_pos
  · intro hstop r hr
    cases ha : s.ctl.active with
    | true =>
      have htr := h.tracks ha
      -- the unit stops with the last beat
      by_cases hsend : s.ctl.releaseValid ∧ i.ctl.releaseReady
      · obtain ⟨hv, hrr⟩ := hsend
        have hlast : s.ctl.beatCnt + 1 = p.outerDataBeats := by
          have hno : ¬ s.ctl.beatCnt + 1 < p.outerDataBeats := fun hlt => by
            have hgo := (h.ctl.active_next_iff hv hrr).2 hlt
            exact absurd (hgo.symm.trans hstop) (by decide)
          have := htr.beatCnt_lt
          omega
        rw [record_of_active ha] at hr ⊢
        have hreq : s.ctl.req = r := Option.some.inj (htr.accepted.symm.trans hr)
        simp only [htr.release_eq hv hrr hi, Option.toList_some]
        rw [← hlast, List.range_succ, List.map_append, htr.sent, hreq]
        rfl
      · have hgo := h.ctl.active_next_of_not_sent ha hsend
        exact absurd (hgo.symm.trans hstop) (by decide)
    | false =>
      cases hreq : i.ctl.req with
      | none =>
        have hrec : record l s i = l := by simp [record, reqReady, ha, hreq]
        rw [hrec] at hr ⊢
        exact h.done ha r hr
      | some r' => simp [WritebackRows.next, WritebackUnit.next, ha, hreq] at hstop

theorem good_reset (req : WritebackReq p) (buf : Fin (p.refillCyclesPerBeat - 1) → BitVec w) :
    (reset req buf).Good array ⟨none, []⟩ where
  ctl := ⟨fun _ => ⟨rfl, rfl, rfl⟩, fun h => absurd h Bool.false_ne_true,
    fun h => absurd h Bool.false_ne_true, fun h => absurd h Bool.false_ne_true⟩
  tracks h := absurd h Bool.false_ne_true
  done _ r h := absurd h (by simp)

/-- Where nothing is refused the unit is ready again before long. -/
theorem Good.ready_again {is : List (WritebackRowsIn p w)} (h : s.Good array l)
    (hl : (machine array).Legal s is) (hw : ∀ i ∈ is, Willing i.ctl)
    (hlen : s.ctl.distance ≤ is.length) :
    ∃ k ≤ is.length, ((machine array).run s (is.take k)).ctl.reqReady := by
  -- the distance is at least one while the unit is active, and every cycle makes it smaller
  induction is generalizing s l with
  | nil =>
    refine ⟨0, le_rfl, ?_⟩
    by_contra hready
    have ha : s.ctl.active := by simpa [reqReady] using hready
    have hpos := h.ctl.distance_pos ha (h.tracks ha).beatCnt_lt
    exact absurd hlen (Nat.not_le.2 hpos)
  | cons i is ih =>
    cases ha : s.ctl.active with
    | false => exact ⟨0, Nat.zero_le _, by simp [reqReady, ha]⟩
    | true =>
      have hlt := h.ctl.distance_next ha (h.tracks ha).beatCnt_lt (hw i List.mem_cons_self)
      obtain ⟨k, hk, hready⟩ := ih (h.next hl.1) hl.2 (fun j hj => hw j (List.mem_cons_of_mem i hj))
        (by
          rw [List.length_cons] at hlen
          exact Nat.le_of_lt_succ (hlt.trans_le hlen))
      exact ⟨k + 1, Nat.succ_le_succ hk, hready⟩

/-- Whatever the readiness of array, metadata and release channel in each cycle: while a block is
written back the beats sent are the first ones of the block, with the rows the array holds, each
once and in order, and when the unit is ready again they are all of them. -/
theorem writeback_sends_every_row (array : L1DataReadReq p → BitVec w) (req : WritebackReq p)
    (buf : Fin (p.refillCyclesPerBeat - 1) → BitVec w) (is : List (WritebackRowsIn p w))
    (hl : (machine array).Legal (reset req buf) is) :
    let s := (machine array).run (reset req buf) is
    let l := (machine array).history record (reset req buf) ⟨none, []⟩ is
    (s.ctl.reqReady = false →
      l.accepted = some s.ctl.req ∧ s.ctl.beatCnt < p.outerDataBeats ∧
        l.sent = (List.range s.ctl.beatCnt).map (beat array s.ctl.req)) ∧
    (s.ctl.reqReady = true → ∀ r, l.accepted = some r →
      l.sent = (List.range p.outerDataBeats).map (beat array r)) := by
  intro s l
  have hg : s.Good array l :=
    Machine.invariant_history (m := machine array) (Q := fun s l => s.Good array l) record
      (fun s l i h hi => h.next hi) (good_reset req buf) hl
  refine ⟨fun hr => ?_, fun hr => ?_⟩
  · have ha : s.ctl.active = true := by simpa [reqReady] using hr
    have htr := hg.tracks ha
    exact ⟨htr.accepted, htr.beatCnt_lt, htr.sent⟩
  · have ha : s.ctl.active = false := by simpa [reqReady] using hr
    exact hg.done ha

/-- However often it was refused before: when metadata, array and release channel refuse nothing,
the unit is ready again after at most three cycles for each row. -/
theorem writeback_ends (array : L1DataReadReq p → BitVec w) (req : WritebackReq p)
    (buf : Fin (p.refillCyclesPerBeat - 1) → BitVec w) {is js : List (WritebackRowsIn p w)}
    (hl : (machine array).Legal (reset req buf) (is ++ js)) (hw : ∀ j ∈ js, Willing j.ctl)
    (hlen : 3 * p.refillCycles ≤ js.length) :
    ∃ k ≤ js.length,
      ((machine array).run (reset req buf) (is ++ js.take k)).ctl.reqReady = true := by
  rw [Machine.legal_append] at hl
  have hg := Machine.invariant_history (m := machine array) (Q := fun s l => s.Good array l) record
    (fun s l i h hi => h.next hi) (good_reset req buf) hl.1
  obtain ⟨k, hk, hready⟩ := hg.ready_again hl.2 hw (hg.ctl.distance_le.trans hlen)
  exact ⟨k, hk, by rwa [Machine.run_append]⟩

instance decidableMachine (s : WritebackRows p w) (i : WritebackRowsIn p w) :
    Decidable ((machine array).ok s i) :=
  match h : s.req2 with
  | none => .isTrue fun _ ha => absurd (h.symm.trans ha) (by simp)
  | some a => decidable_of_iff (i.dataResp = array a)
      ⟨fun hd b hb => by rw [hd, Option.some.inj (h.symm.trans hb)], fun hd => hd a h⟩

section Example

/-- Two beats of two rows. -/
def twoBeats : L1Params :=
  { L1Params.small with
    outerDataBeats := 2, refillCyclesPerBeat := 2
    outerDataBeats_pos := Nat.two_pos, refillCyclesPerBeat_pos := Nat.two_pos }

def voluntaryReq : WritebackReq twoBeats :=
  ⟨true, .releaseInvalidateData, 0, ⟨0, 1⟩, fun _ => true⟩

/-- Every row holds its address. -/
def addresses (a : L1DataReadReq twoBeats) : BitVec 8 := BitVec.ofNat 8 a.addr

/-- The first beat is refused once, when the next row is on its way already. -/
def refusedOnce : List (WritebackRowsIn twoBeats 8) :=
  [⟨⟨some voluntaryReq, true, true, true⟩, 0⟩, ⟨⟨none, true, true, true⟩, 0⟩,
    ⟨⟨none, true, true, true⟩, 0⟩, ⟨⟨none, true, true, true⟩, 4⟩,
    ⟨⟨none, true, true, false⟩, 5⟩, ⟨⟨none, true, true, true⟩, 6⟩,
    ⟨⟨none, true, true, true⟩, 7⟩, ⟨⟨none, true, true, true⟩, 5⟩,
    ⟨⟨none, true, true, true⟩, 6⟩, ⟨⟨none, true, true, true⟩, 7⟩]

theorem writeback_sends_every_row_refusedOnce :
    ((machine addresses).history record (reset voluntaryReq fun _ => 0) ⟨none, []⟩
      refusedOnce).sent = (List.range 2).map (beat addresses voluntaryReq) := by
  have hl : (machine addresses).Legal (reset voluntaryReq fun _ => 0) refusedOnce := by
    decide +kernel
  exact (writeback_sends_every_row addresses voluntaryReq (fun _ => 0) refusedOnce hl).2
    (by decide +kernel) voluntaryReq rfl

/-- The cycles after the refusal and some more. -/
theorem writeback_ends_refusedOnce :
    let js : List (WritebackRowsIn twoBeats 8) :=
      refusedOnce.drop 5 ++ List.replicate 7 ⟨⟨none, true, true, true⟩, 0⟩
    (∀ j ∈ js, Willing j.ctl) ∧ ∃ k ≤ 12, ((machine addresses).run
      (reset voluntaryReq fun _ => 0) (refusedOnce.take 5 ++ js.take k)).ctl.reqReady = true := by
  intro js
  have hw : ∀ j ∈ js, Willing j.ctl := by
    unfold Willing
    decide +kernel
  exact ⟨hw, writeback_ends addresses voluntaryReq (fun _ => 0) (by decide +kernel) hw le_rfl⟩

end Example

end WritebackRows

end TaggedRiscv.L1
