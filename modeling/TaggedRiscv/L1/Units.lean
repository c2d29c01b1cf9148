import TaggedRiscv.L1.Mshr

/-!
# Write-backs and probes in the L1 data cache (`WritebackUnit`, `ProbeUnit`)

The write-back unit reads the rows of a block one after another, each two cycles before it can
be sent, and goes back where a release is not accepted. The probe unit looks a probed block
up, waits for the miss handler of the set, answers, by itself or through the write-back unit,
and rewrites the metadata.
-/

namespace TaggedRiscv.L1

open Sync Mesi

variable {p : L1Params}

/-! ## Write-backs -/

variable (p) in
/-- The registers of the write-back unit. `bufV` is the number of ones in `buf_v`, which are
shifted in from the top. -/
structure WritebackUnit where
  active : Bool
  r1DataReqFired : Bool
  r2DataReqFired : Bool
  dataReqCnt : ℕ
  bufV : ℕ
  beatCnt : ℕ
  req : WritebackReq p

variable (p) in
/-- The inputs of the writeback unit. -/
structure WritebackIn where
  req : Option (WritebackReq p)
  metaReadReady : Bool
  dataReqReady : Bool
  releaseReady : Bool

variable (p) in
/-- A beat of a release. -/
structure L1Release where
  voluntary : Bool
  rType : ReleaseType
  clientXactId : ℕ
  addr : BlockAddr p
  addrBeat : ℕ

namespace L1Release

variable (r : L1Release p)

/-- The release has several beats. -/
def hasMultibeatData : Bool := decide (1 < p.outerDataBeats) && r.rType.hasData

end L1Release

namespace WritebackUnit

variable (u : WritebackUnit p) (i : WritebackIn p)

/-- The buffer holds all of a beat but the last row. -/
def beatDone : Bool := u.bufV == p.refillCyclesPerBeat - 1

/-- A block may be taken. -/
def reqReady : Bool := !u.active

/-- Another row is to be read. -/
def fire : Bool := u.active && decide (u.dataReqCnt < p.refillCycles)

/-- A beat of the release is offered. -/
def releaseValid : Bool := u.active && u.r2DataReqFired && u.beatDone

/-- That beat. -/
def releaseBits : L1Release p :=
  { voluntary := u.req.voluntary
    rType := u.req.rType
    clientXactId := u.req.clientXactId
    addr := u.req.addr
    addrBeat := u.beatCnt }

/-- A row is read. -/
def rowFired : Bool := u.fire && i.dataReqReady && i.metaReadReady

/-- A beat is ready and not accepted: the rows that were read after it are read again. -/
def stalled : Bool := u.r2DataReqFired && u.beatDone && !i.releaseReady

/-- The registers of an active unit after a cycle. -/
def advance : WritebackUnit p :=
  { u with
    active := if u.r2DataReqFired && !u.r1DataReqFired then
        decide (u.dataReqCnt < p.refillCycles) || !i.releaseReady
      else true
    r1DataReqFired := !u.stalled i && u.rowFired i
    r2DataReqFired := !u.stalled i && u.r1DataReqFired
    dataReqCnt :=
      if u.stalled i then
        u.dataReqCnt - (if decide (1 < p.refillCycles) && u.r1DataReqFired then 2 else 1)
      else if u.rowFired i then u.dataReqCnt + 1
      else u.dataReqCnt
    bufV :=
      if u.r2DataReqFired then
        (if u.beatDone then (if i.releaseReady then 0 else u.bufV) else u.bufV + 1)
      else u.bufV
    beatCnt := if u.releaseValid && i.releaseReady then (u.beatCnt + 1) % p.outerDataBeats
      else u.beatCnt }

/-- The registers after a cycle. -/
def next : WritebackUnit p :=
  if u.active then u.advance i
  else
    match i.req with
    | some r => { u with active := true, dataReqCnt := 0, bufV := 0, req := r }
    | none => u

/-- The rows that were read are those of the beats sent, those in the buffer, and those on
their way. -/
structure Good (u : WritebackUnit p) : Prop where
  idle : u.active = false → u.r1DataReqFired = false ∧ u.r2DataReqFired = false ∧ u.beatCnt = 0
  rows : u.active → u.dataReqCnt = p.refillCyclesPerBeat * u.beatCnt + u.bufV +
    u.r1DataReqFired.toNat + u.r2DataReqFired.toNat
  le : u.active → u.dataReqCnt ≤ p.refillCycles
  bufV_lt : u.active → u.bufV < p.refillCyclesPerBeat

variable {u i}

/-- With the last row on its way the last beat is complete. -/
theorem Good.last_beat (h : u.Good) (ha : u.active) (h2 : u.r2DataReqFired)
    (hcnt : u.dataReqCnt = p.refillCycles) (h1 : u.r1DataReqFired = false) :
    u.beatDone ∧ u.beatCnt + 1 = p.outerDataBeats := by
  have hrows := h.rows ha
  have hbuf := h.bufV_lt ha
  rw [hcnt, L1Params.refillCycles, h1, h2] at hrows
  simp only [Bool.toNat_false, Bool.toNat_true, Nat.add_zero] at hrows
  have hbeat : u.beatCnt + 1 = p.outerDataBeats := by
    have hlt : u.beatCnt < p.outerDataBeats := by
      by_contra hge
      have := Nat.mul_le_mul_left p.refillCyclesPerBeat (not_lt.1 hge)
      omega
    by_contra hne
    have := Nat.mul_le_mul_left p.refillCyclesPerBeat
      (show u.beatCnt + 2 ≤ p.outerDataBeats by omega)
    rw [Nat.mul_add] at this
    omega
  rw [← hbeat, Nat.mul_add] at hrows
  exact ⟨by simp only [beatDone, beq_iff_eq]; omega, hbeat⟩

/-- The unit stops when the last row has been sent. -/
theorem active_next_eq_false (ha : u.active) :
    (u.next i).active = false ↔ u.r2DataReqFired ∧ u.r1DataReqFired = false ∧
      p.refillCycles ≤ u.dataReqCnt ∧ i.releaseReady := by
  cases h2 : u.r2DataReqFired <;> cases h1 : u.r1DataReqFired <;> simp [next, advance, ha, h1, h2]

/-- A beat that is sent takes the rows in the buffer and the one that has just come. -/
theorem Good.beat_sent (h : u.Good) (hv : u.releaseValid) :
    u.dataReqCnt = p.refillCyclesPerBeat * (u.beatCnt + 1) + u.r1DataReqFired.toNat ∧
      u.beatCnt < p.outerDataBeats := by
  simp only [releaseValid, beatDone, Bool.and_eq_true, beq_iff_eq] at hv
  obtain ⟨⟨ha, h2⟩, hdone⟩ := hv
  have hrows := h.rows ha
  have hle := h.le ha
  have hpos := p.refillCyclesPerBeat_pos
  rw [hdone, h2, Bool.toNat_true] at hrows
  have hcnt : u.dataReqCnt = p.refillCyclesPerBeat * (u.beatCnt + 1) + u.r1DataReqFired.toNat := by
    rw [Nat.mul_add]
    omega
  refine ⟨hcnt, ?_⟩
  by_contra hge
  have := Nat.mul_le_mul_left p.refillCyclesPerBeat
    (show p.outerDataBeats + 1 ≤ u.beatCnt + 1 by omega)
  rw [L1Params.refillCycles] at hle
  rw [Nat.mul_add p.refillCyclesPerBeat p.outerDataBeats] at this
  omega

/-- With the last beat of a release the unit stops. -/
theorem Good.stops (h : u.Good) (hv : u.releaseValid) (hr : i.releaseReady)
    (hlast : u.beatCnt = p.outerDataBeats - 1) : (u.next i).active = false := by
  obtain ⟨hcnt, hlt⟩ := h.beat_sent hv
  simp only [releaseValid, Bool.and_eq_true] at hv
  obtain ⟨⟨ha, h2⟩, -⟩ := hv
  have hle := h.le ha
  rw [show u.beatCnt + 1 = p.outerDataBeats by omega, ← L1Params.refillCycles] at hcnt
  refine (active_next_eq_false ha).2 ⟨h2, ?_, by omega, hr⟩
  cases h1 : u.r1DataReqFired with
  | false => rfl
  | true =>
    rw [h1, Bool.toNat_true] at hcnt
    omega

theorem Good.advance_idle (h : u.Good) (ha : u.active) (hstop : (u.next i).active = false) :
    (u.next i).r1DataReqFired = false ∧ (u.next i).r2DataReqFired = false ∧
      (u.next i).beatCnt = 0 := by
  obtain ⟨h2, h1, hcnt, hr⟩ := (active_next_eq_false ha).1 hstop
  obtain ⟨hdone, hbeat⟩ := h.last_beat ha h2 (le_antisymm (h.le ha) hcnt) h1
  simp [next, advance, ha, stalled, hr, rowFired, fire, not_lt.2 hcnt, h1, releaseValid, h2, hdone,
    hbeat]

theorem Good.advance_rows (h : u.Good) (ha : u.active) (hgo : (u.next i).active) :
    (u.next i).dataReqCnt = p.refillCyclesPerBeat * (u.next i).beatCnt + (u.next i).bufV +
        (u.next i).r1DataReqFired.toNat + (u.next i).r2DataReqFired.toNat ∧
      (u.next i).dataReqCnt ≤ p.refillCycles ∧ (u.next i).bufV < p.refillCyclesPerBeat := by
  have hrows := h.rows ha
  have hle := h.le ha
  have hbuf := h.bufV_lt ha
  have hfired : u.rowFired i → u.dataReqCnt < p.refillCycles := by
    simp [rowFired, fire, ha]
    tauto
  cases h2 : u.r2DataReqFired with
  | false =>
    -- no row has come: those on their way move on
    have hstall : u.stalled i = false := by simp [stalled, h2]
    rw [h2] at hrows
    cases hf : u.rowFired i <;> simp_all [next, advance, releaseValid]
    omega
  | true =>
    cases hd : u.beatDone with
    | false =>
      -- the row goes into the buffer
      have hstall : u.stalled i = false := by simp [stalled, hd]
      have hne : u.bufV ≠ p.refillCyclesPerBeat - 1 := by simpa [beatDone] using hd
      rw [h2] at hrows
      cases hf : u.rowFired i <;> simp_all [next, advance, releaseValid] <;> omega
    | true =>
      have hv : u.releaseValid := by simp [releaseValid, ha, h2, hd]
      cases hr : i.releaseReady with
      | true =>
        -- the beat is sent, and it was not the last
        obtain ⟨hcnt, hlt⟩ := h.beat_sent hv
        have hmore : u.beatCnt + 1 < p.outerDataBeats := by
          by_contra hno
          have := h.stops hv hr (by omega)
          simp [this] at hgo
        have hstall : u.stalled i = false := by simp [stalled, hr]
        have hpos := p.refillCyclesPerBeat_pos
        simp only [next, ha, if_true, advance, hstall, hv, hr, Bool.and_self, h2, hd,
          Nat.mod_eq_of_lt hmore]
        cases hf : u.rowFired i <;> simp_all
        omega
      | false =>
        -- the beat waits, and the rows after it are dropped
        have hstall : u.stalled i := by simp [stalled, h2, hd, hr]
        rw [h2] at hrows
        cases h1 : u.r1DataReqFired with
        | false =>
          simp_all [next, advance]
          omega
        | true =>
          have hmany : 1 < p.refillCycles := by
            rw [h1] at hrows
            simp only [Bool.toNat_true] at hrows
            omega
          simp_all [next, advance]
          omega

theorem Good.next (h : u.Good) : (u.next i).Good := by
  cases ha : u.active with
  | true =>
    have hadv := h.advance_rows (i := i) ha
    exact ⟨h.advance_idle ha, fun hgo => (hadv hgo).1, fun hgo => (hadv hgo).2.1,
      fun hgo => (hadv hgo).2.2⟩
  | false =>
    obtain ⟨h1, h2, hbeat⟩ := h.idle ha
    cases hr : i.req with
    | none =>
      have hsame : u.next i = u := by simp [WritebackUnit.next, ha, hr]
      rw [hsame]
      exact h
    | some r =>
      constructor <;>
        simp [WritebackUnit.next, ha, hr, h1, h2, hbeat, p.refillCyclesPerBeat_pos]

end WritebackUnit

/-! ## Probes -/

variable (p) in
/-- A probe of a block. -/
structure L1Probe where
  addr : BlockAddr p
  pType : ProbeType
  deriving DecidableEq

/-- The states of the probe unit. -/
inductive ProbeState
  | invalid | metaRead | metaResp | mshrReq | release | writebackReq | writebackResp | metaWrite
  deriving DecidableEq, Repr

variable (p) in
/-- Its registers. -/
structure ProbeUnit where
  state : ProbeState
  oldCoh : ClientState
  wayEn : Fin p.nWays → Bool
  req : L1Probe p

variable (p) in
/-- Its inputs. -/
structure ProbeIn where
  req : Option (L1Probe p)
  repReady : Bool
  metaReadReady : Bool
  metaWriteReady : Bool
  wbReqReady : Bool
  wayEn : Fin p.nWays → Bool
  mshrRdy : Bool
  blockState : ClientState

namespace ProbeUnit

variable (u : ProbeUnit p) (i : ProbeIn p)

/-- The cache has the block. -/
def tagMatches : Bool := (List.finRange p.nWays).any u.wayEn

/-- A probe may be taken. -/
def reqReady : Bool := u.state == .invalid

/-- The write-back unit is to answer. -/
def dirty : Bool := u.tagMatches && u.oldCoh.requiresVoluntaryWriteback

/-- A reply without data is offered. -/
def repValid : Bool := u.state == .release && !u.dirty

/-- `makeRelease`. -/
def reply : L1Release p :=
  { voluntary := false
    rType := getProbeReleaseType u.req.pType u.oldCoh
    clientXactId := 0
    addr := u.req.addr
    addrBeat := 0 }

/-- The metadata are read. -/
def metaReadValid : Bool := u.state == .metaRead

/-- The metadata are written. -/
def metaWriteValid : Bool := u.state == .metaWrite

/-- The lowered permission. -/
def metaWriteBits : L1MetaWriteReq p :=
  { idx := u.req.addr.idx
    wayEn := u.wayEn
    data := { tag := u.req.addr.tag, coh := u.oldCoh.onProbe u.req.pType } }

/-- A dirty block is written back. -/
def wbReqValid : Bool := u.state == .writebackReq

/-- The block, with the reply as its release. -/
def wbReqBits : WritebackReq p :=
  { voluntary := false
    rType := u.reply.rType
    clientXactId := 0
    addr := u.req.addr
    wayEn := u.wayEn }

/-- The state after a cycle. -/
def stateNext : ProbeState :=
  match u.state with
  | .invalid => if i.req.isSome then .metaRead else .invalid
  | .metaRead => if i.metaReadReady then .metaResp else .metaRead
  | .metaResp => .mshrReq
  | .mshrReq => if i.mshrRdy then .release else .metaRead
  | .release =>
    if i.repReady then
      (if u.tagMatches then
        (if u.oldCoh.requiresVoluntaryWriteback then .writebackReq else .metaWrite)
      else .invalid)
    else .release
  | .writebackReq => if i.wbReqReady then .writebackResp else .writebackReq
  | .writebackResp => if i.wbReqReady then .metaWrite else .writebackResp
  | .metaWrite => if i.metaWriteReady then .invalid else .metaWrite

/-- The registers after a cycle. -/
def next : ProbeUnit p :=
  { state := u.stateNext i
    oldCoh := if u.state = .mshrReq then i.blockState else u.oldCoh
    wayEn := if u.state = .mshrReq then i.wayEn else u.wayEn
    req := if u.state = .invalid then i.req.getD u.req else u.req }

end ProbeUnit

end TaggedRiscv.L1
