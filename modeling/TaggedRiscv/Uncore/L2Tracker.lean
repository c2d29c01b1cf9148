import TaggedRiscv.L1.DataPath
import TaggedRiscv.Lib.Machine
import TaggedRiscv.Uncore.Messages

/-!
# The data of a second-level cache transaction (`L2AcquireTracker`)

A tracker keeps a buffer and a byte mask for every beat of its block. Data that is released,
refilled or read is merged with what an acquire put before; an atomic operation is performed by
that merge. A beat is written to the data array under the mask of its buffer.

The beats are tagged, but every mask is a byte mask spread over the bits of the beat from bit 0
on, and an atomic operand is looked for at a multiple of 64 bits.
-/

namespace TaggedRiscv

open Packed Sync Function

/-- The inner port of the cache. A row of the data array is a tagged beat (`rowBits` is
`innerDataBits`); the write mask has a bit for every byte of data and none for the tags. -/
structure L2Params where
  tl : TLParams
  words : ℕ
  tagBits : ℕ
  rowBytes : ℕ
  dataBits_eq : tl.dataBits = words * (tagBits + 8 * 8)
  rowBits_eq : tl.dataBits = rowBytes * 8
  maskBits_eq : tl.writeMaskBits = words * 8

namespace Acquire

variable {c : TLParams} (a : Acquire c)

/-- The bit offset of the operand of an atomic operation. -/
def amoShiftBits : ℕ := 64 * (a.addrByte.toNat / 8)

/-- The write mask as a word. -/
def wmaskBits : BitVec c.writeMaskBits := BitVec.ofFnLE fun j => a.wmask j

/-- The result of the atomic operation of a message on two doublewords. -/
def amoOut (lhs rhs : BitVec 64) : BitVec 64 :=
  AMOALU.out (BitVec.ofNat 3 a.fullAddr) (.ofCode a.opCode) (.ofCode a.opSize) lhs rhs

def isGetOrAtomic : Bool :=
  a.isBuiltIn .getType || a.isBuiltIn .getBlockType || a.isBuiltIn .putAtomicType

end Acquire

variable {c : L2Params}

/-! ## The buffer of a beat -/

variable (c) in
/-- A beat of `data_buffer` and of `wmask_buffer`. -/
structure L2Beat where
  data : BitVec c.tl.dataBits
  wmask : BitVec c.rowBytes

namespace L2Beat

variable (b : L2Beat c)

/-- The mask of the buffer, with every bit repeated for the bits of its byte. -/
def fullMask : BitVec c.tl.dataBits := (fillInterleaved 8 b.wmask).cast c.rowBits_eq.symm

/-- An acquire with data. The mask of the message is shorter than the buffer, and is extended by
zeros after it was complemented. -/
def accept (idle : Bool) (a : Acquire c.tl) : L2Beat c :=
  let full := fillInterleaved 8 a.wmaskBits
  { data := ((~~~full).setWidth _ &&& b.data) ||| (full.setWidth _ &&& a.data)
    wmask := a.wmaskBits.setWidth _ ||| if idle then 0 else b.wmask }

/-- Data that is refilled, written back or read from the array. -/
def mergeData (xact : Acquire c.tl) (incoming : BitVec c.tl.dataBits) : L2Beat c :=
  let lhs := (incoming >>> xact.amoShiftBits).setWidth 64
  let rhs := (b.data >>> xact.amoShiftBits).setWidth 64
  let new := if xact.isBuiltIn .putAtomicType then
      (xact.amoOut lhs rhs).setWidth _ <<< xact.amoShiftBits
    else b.data
  { data := (~~~b.fullMask &&& incoming) ||| (b.fullMask &&& new)
    wmask := BitVec.allOnes _ }

/-- The row of the data array after the beat was written to it, byte by byte. -/
def writeRow (row : BitVec c.tl.dataBits) : BitVec c.tl.dataBits :=
  (toBits fun i : Fin c.rowBytes =>
    if b.wmask.getLsbD i then fromBits (b.data.cast c.rowBits_eq) i
    else fromBits (row.cast c.rowBits_eq) i).cast c.rowBits_eq.symm

end L2Beat

/-! ## The tracker -/

variable (c) in
/-- The number of a beat. -/
abbrev BeatId : Type := BitVec c.tl.beatAddrBits

variable (c) in
/-- The registers of a tracker that the data of its block depends on. -/
structure L2Tracker where
  idle : Bool
  xact : Acquire c.tl
  beats : BeatId c → L2Beat c
  pendingReads : BeatId c → Bool
  pendingResps : BeatId c → Bool
  pendingWrites : BeatId c → Bool

variable (c) in
/-- What can happen to the data of a tracker. -/
inductive L2Event
  /-- an acquire is accepted -/
  | iacq (a : Acquire c.tl)
  /-- a client releases data -/
  | irel (beat : BeatId c) (data : BitVec c.tl.dataBits)
  /-- outer memory grants data -/
  | ognt (beat : BeatId c) (data : BitVec c.tl.dataBits)
  /-- the data array is asked for a beat -/
  | read (beat : BeatId c)
  /-- the data array answers -/
  | resp (beat : BeatId c) (data : BitVec c.tl.dataBits)
  /-- a beat is written to the data array -/
  | write (beat : BeatId c)
  /-- the transaction ends (`s_meta_write` is left) -/
  | done

namespace L2Tracker

variable (s : L2Tracker c)

/-- An acquire is taken by an idle tracker or, as a secondary miss, under one of the same kind. -/
def accepts (a : Acquire c.tl) : Bool :=
  s.idle || s.xact.isBuiltIn .getType && a.isBuiltIn .getType ||
    s.xact.isBuiltIn .putType && a.isBuiltIn .putType ||
    s.xact.isBuiltIn .putBlockType && a.isBuiltIn .putBlockType

/-- When an event can happen. A beat is written when neither a read of it is due nor an answer.
The conditions on the state of the tracker are left out: there are more runs here than of the
source. -/
def ok : L2Event c → Bool
  | .iacq a => s.accepts a
  | .irel _ _ | .ognt _ _ | .done => !s.idle
  | .read beat => !s.idle && s.pendingReads beat
  | .resp beat _ => !s.idle && s.pendingResps beat
  | .write beat => !s.idle && s.pendingWrites beat && !s.pendingReads beat && !s.pendingResps beat

/-- The buffers after a merge, and the result of an atomic operation in the data of `xact`. -/
def merge (beat : BeatId c) (incoming : BitVec c.tl.dataBits) : L2Tracker c :=
  { s with
    beats := update s.beats beat ((s.beats beat).mergeData s.xact incoming)
    xact := if s.xact.aType.toNat = BuiltInAcquire.putAtomicType.code ∧ s.xact.addrBeat = beat then
        { s.xact with data := incoming }
      else s.xact }

/-- The buffers after an acquire. -/
def acceptBeats (a : Acquire c.tl) : BeatId c → L2Beat c :=
  if a.hasData then
    update s.beats a.addrBeat ((s.beats a.addrBeat).accept s.idle a)
  else s.beats

/-- The registers after an acquire. -/
def accept (a : Acquire c.tl) : L2Tracker c :=
  let reads := update s.pendingReads a.addrBeat
    (s.pendingReads a.addrBeat || a.isGetOrAtomic)
  let writes := update s.pendingWrites a.addrBeat
    (s.pendingWrites a.addrBeat || a.hasData && a.allocate)
  if s.idle then
    { idle := false
      xact := { a with data := 0 }
      beats := s.acceptBeats a
      pendingReads := fun k =>
        a.isBuiltIn .getBlockType || !a.isBuiltinType || decide (k = a.addrBeat) && a.isGetOrAtomic
      pendingResps := fun _ => false
      pendingWrites := fun k => decide (k = a.addrBeat) && a.hasData && a.allocate }
  else
    { s with beats := s.acceptBeats a, pendingReads := reads, pendingWrites := writes }

/-- The registers after an event. -/
def next : L2Event c → L2Tracker c
  | .iacq a => s.accept a
  | .irel beat data | .ognt beat data =>
    { s.merge beat data with
      pendingReads := update s.pendingReads beat false
      pendingWrites := update s.pendingWrites beat true }
  | .read beat =>
    { s with
      pendingReads := update s.pendingReads beat false
      pendingResps := update s.pendingResps beat true }
  | .resp beat data =>
    { s.merge beat data with pendingResps := update s.pendingResps beat false }
  | .write beat => { s with pendingWrites := update s.pendingWrites beat false }
  | .done => { s with idle := true, beats := fun k => { s.beats k with wmask := 0 } }

variable (c) in
/-- The registers after reset, with what is in `xact`. -/
def reset (xact : Acquire c.tl) : L2Tracker c :=
  { idle := true
    xact := xact
    beats := fun _ => ⟨0, 0⟩
    pendingReads := fun _ => false
    pendingResps := fun _ => false
    pendingWrites := fun _ => false }

end L2Tracker

variable (c) in
/-- A tracker with what can happen to it. -/
abbrev trackerMachine : Machine (L2Tracker c) (L2Event c) where
  ok s e := s.ok e = true
  next := L2Tracker.next

/-! ## Runs within a transaction -/

namespace L2Event

/-- The event carries data of a beat. -/
def onBeat (k : BeatId c) : L2Event c → Bool
  | .iacq a => a.hasData && decide (a.addrBeat = k)
  | .irel beat _ | .ognt beat _ | .resp beat _ => decide (beat = k)
  | .read _ | .write _ | .done => false

/-- What an event does to the buffer of its beat, under a request. -/
def apply (xact : Acquire c.tl) (b : L2Beat c) : L2Event c → L2Beat c
  | .iacq a => b.accept false a
  | .irel _ data | .ognt _ data | .resp _ data => b.mergeData xact data
  | .read _ | .write _ | .done => b

end L2Event

open L2Event

namespace L2Tracker

variable {s : L2Tracker c} {k : BeatId c} {e : L2Event c} {es : List (L2Event c)}

theorem beats_merge (beat : BeatId c) (data : BitVec c.tl.dataBits) :
    (s.merge beat data).beats k =
      if beat = k then (s.beats k).mergeData s.xact data else s.beats k := by
  by_cases h : beat = k
  · subst h
    simp [merge]
  · simp [merge, h, update_of_ne (Ne.symm h)]

theorem beats_acceptBeats (a : Acquire c.tl) :
    s.acceptBeats a k =
      if (iacq a).onBeat k then (s.beats k).accept s.idle a else s.beats k := by
  by_cases h : a.addrBeat = k
  · subst h
    cases hd : a.hasData <;> simp [acceptBeats, onBeat, hd]
  · cases hd : a.hasData <;>
      simp [acceptBeats, onBeat, hd, h, update_of_ne (Ne.symm h)]

/-- One event of a transaction changes the buffer of its own beat only. -/
theorem beats_next (hs : s.idle = false) (he : e ≠ .done) :
    (s.next e).beats k = if e.onBeat k then e.apply s.xact (s.beats k) else s.beats k := by
  cases e with
  | iacq a =>
    have := beats_acceptBeats (s := s) (k := k) a
    rw [hs] at this
    simpa [next, accept, hs, L2Event.apply] using this
  | irel beat data => simpa [next, onBeat, L2Event.apply] using beats_merge beat data
  | ognt beat data => simpa [next, onBeat, L2Event.apply] using beats_merge beat data
  | resp beat data => simpa [next, onBeat, L2Event.apply] using beats_merge beat data
  | read beat => rfl
  | write beat => rfl
  | done => exact absurd rfl he

theorem idle_next (hs : s.idle = false) (he : e ≠ .done) : (s.next e).idle = false := by
  cases e with
  | iacq a => simp [next, accept, hs]
  | done => exact absurd rfl he
  | _ => exact hs

/-- A transaction keeps its request, apart from the data, where the result of an atomic operation
is put. -/
theorem xact_next (hs : s.idle = false) (he : e ≠ .done) :
    ∃ d, (s.next e).xact = { s.xact with data := d } := by
  have hmerge (beat : BeatId c) (data : BitVec c.tl.dataBits) :
      ∃ d, (s.merge beat data).xact = { s.xact with data := d } := by
    unfold merge
    split
    · exact ⟨data, rfl⟩
    · exact ⟨s.xact.data, rfl⟩
  cases e with
  | iacq a => exact ⟨s.xact.data, by simp [next, accept, hs]⟩
  | irel beat data => exact hmerge beat data
  | ognt beat data => exact hmerge beat data
  | resp beat data => exact hmerge beat data
  | read beat => exact ⟨s.xact.data, rfl⟩
  | write beat => exact ⟨s.xact.data, rfl⟩
  | done => exact absurd rfl he

/-- The data of the request plays no part in what an event does to a buffer. -/
theorem apply_data (x : Acquire c.tl) (d : BitVec c.tl.dataBits) :
    L2Event.apply { x with data := d } = L2Event.apply (c := c) x := by
  funext b e
  cases e <;> rfl

/-- Within a transaction the buffer of a beat depends on the events that carry data of that beat,
and on nothing else. -/
theorem beats_run (hs : s.idle = false) (hes : .done ∉ es) :
    ((trackerMachine c).run s es).beats k =
      (es.filter (·.onBeat k)).foldl (L2Event.apply s.xact) (s.beats k) := by
  induction es generalizing s with
  | nil => rfl
  | cons e es ih =>
    obtain ⟨he, hes⟩ : e ≠ .done ∧ .done ∉ es := by simpa [not_or, eq_comm] using hes
    obtain ⟨d, hd⟩ := xact_next hs he
    have hrest := ih (idle_next hs he) hes
    rw [hd, apply_data, beats_next hs he] at hrest
    rw [Machine.run_cons, List.filter_cons]
    split <;> simp_all [trackerMachine]

/-- The requests that an active tracker takes are none of them atomic, nor is its own then. -/
theorem not_atomic_of_mem {a : Acquire c.tl} (hs : s.idle = false) (hes : .done ∉ es)
    (hl : (trackerMachine c).Legal s es) (ha : .iacq a ∈ es) :
    s.xact.isBuiltIn .putAtomicType = false ∧ a.isBuiltIn .putAtomicType = false := by
  induction es generalizing s with
  | nil => simp at ha
  | cons e es ih =>
    obtain ⟨he, hes⟩ : e ≠ .done ∧ .done ∉ es := by simpa [not_or, eq_comm] using hes
    obtain ⟨hok, hl⟩ := hl
    rcases List.mem_cons.1 ha with rfl | ha
    · -- the codes of two built-in types differ
      simp only [ok, accepts, hs, Bool.false_or, Bool.or_eq_true,
        Bool.and_eq_true] at hok
      simp only [Acquire.isBuiltIn, Bool.and_eq_true, beq_iff_eq] at hok ⊢
      rcases hok with (hok | hok) | hok <;> simp [hok, BuiltInAcquire.code]
    · obtain ⟨d, hd⟩ := xact_next hs he
      have := ih (idle_next hs he) hes hl ha
      rw [show ((trackerMachine c).next s e) = s.next e from rfl] at *
      rwa [hd] at this

/-! ## Whole transactions -/

/-- The masks are empty between transactions. -/
def Clear (s : L2Tracker c) : Prop := s.idle = true → ∀ k, (s.beats k).wmask = 0

theorem clear_next (hok : s.ok e) : (s.next e).Clear := by
  intro hidle k
  cases e with
  | done => rfl
  | iacq a =>
    -- after an acquire the tracker is active
    exfalso
    cases hs : s.idle <;> simp [next, accept, hs] at hidle
  | _ =>
    -- the other events need an active tracker and leave it active
    simp [next, merge] at hidle
    simp [ok, hidle] at hok

/-- Every transaction starts with empty masks. -/
theorem clear_run (x : Acquire c.tl) (hl : (trackerMachine c).Legal (reset c x) es) :
    ((trackerMachine c).run (reset c x) es).Clear :=
  Machine.invariant_run (m := trackerMachine c) (P := Clear) (fun _ _ _ hok => clear_next hok)
    (s := reset c x) (fun _ _ => rfl) hl

/-- A tracker whose mask is empty treats the first request like the later ones. -/
theorem accept_of_clear {b : L2Beat c} (hb : b.wmask = 0) (idle : Bool) (a : Acquire c.tl) :
    b.accept idle a = b.accept false a := by
  cases idle <;> simp [L2Beat.accept, hb]

theorem mergeData_of_not_atomic {x y : Acquire c.tl} (hx : x.isBuiltIn .putAtomicType = false)
    (hy : y.isBuiltIn .putAtomicType = false) (b : L2Beat c) (data : BitVec c.tl.dataBits) :
    b.mergeData x data = b.mergeData y data := by
  simp [L2Beat.mergeData, hx, hy]

theorem apply_of_not_atomic {x y : Acquire c.tl} (hx : x.isBuiltIn .putAtomicType = false)
    (hy : y.isBuiltIn .putAtomicType = false) : L2Event.apply (c := c) x = L2Event.apply y := by
  funext b e
  cases e <;> simp [L2Event.apply, mergeData_of_not_atomic hx hy]

/-- The first event of a transaction is its request. -/
theorem head_of_legal (hs : s.idle) (hl : (trackerMachine c).Legal s (e :: es)) :
    ∃ x, e = .iacq x := by
  cases e with
  | iacq x => exact ⟨x, rfl⟩
  | _ => simp [trackerMachine, ok, hs] at hl

/-- In a whole transaction the buffer of a beat is what the events on that beat make of it, under
any of its requests. -/
theorem beats_transaction {a : Acquire c.tl} (hs : s.idle) (hclear : s.Clear)
    (hl : (trackerMachine c).Legal s es) (hes : .done ∉ es) (ha : .iacq a ∈ es) :
    ((trackerMachine c).run s es).beats k =
      (es.filter (·.onBeat k)).foldl (L2Event.apply a) (s.beats k) := by
  obtain _ | ⟨e, es⟩ := es
  · simp at ha
  obtain ⟨x, rfl⟩ := head_of_legal hs hl
  have hes' : .done ∉ es := fun h => hes (List.mem_cons_of_mem _ h)
  have hactive : (s.accept x).idle = false := by simp [accept, hs]
  have hxact : (s.accept x).xact = { x with data := 0 } := by simp [accept, hs]
  have hbeat : (s.accept x).beats k =
      if (iacq x).onBeat k then L2Event.apply a (s.beats k) (.iacq x) else s.beats k := by
    have := beats_acceptBeats (s := s) (k := k) x
    rw [accept_of_clear (hclear hs k)] at this
    simpa [accept, hs, L2Event.apply] using this
  -- a request other than the first one is not atomic, and then neither is the first one
  have happly : L2Event.apply (c := c) { x with data := 0 } = L2Event.apply a := by
    rcases List.mem_cons.1 ha with heq | ha
    · rw [iacq.inj heq, apply_data]
    · have := not_atomic_of_mem hactive hes' hl.2 ha
      rw [hxact] at this
      exact apply_of_not_atomic this.1 this.2
  have hrun := beats_run (k := k) hactive hes'
  rw [hxact, happly, hbeat] at hrun
  rw [Machine.run_cons, List.filter_cons]
  split <;> simp_all [trackerMachine, next]

/-! ## Atomic operations wait for the old data -/

/-- The old data of a beat is still to come. -/
def Awaits (s : L2Tracker c) (k : BeatId c) : Prop :=
  s.pendingReads k = true ∨ s.pendingResps k = true

theorem awaits_next (hs : s.idle = false) (he : e ≠ .done) (hk : e.onBeat k = false)
    (h : s.Awaits k) : (s.next e).Awaits k := by
  unfold Awaits at h ⊢
  cases e with
  | iacq a =>
    by_cases hak : k = a.addrBeat
    · subst hak
      rcases h with h | h <;> simp [next, accept, hs, h]
    · simpa [next, accept, hs, update_of_ne hak] using h
  | read beat =>
    by_cases hb : k = beat
    · subst hb
      simp [next]
    · simpa [next, update_of_ne hb] using h
  | irel beat data =>
    have hb : k ≠ beat := by simpa [onBeat, eq_comm] using hk
    simpa [next, merge, update_of_ne hb] using h
  | ognt beat data =>
    have hb : k ≠ beat := by simpa [onBeat, eq_comm] using hk
    simpa [next, merge, update_of_ne hb] using h
  | resp beat data =>
    have hb : k ≠ beat := by simpa [onBeat, eq_comm] using hk
    simpa [next, merge, update_of_ne hb] using h
  | write beat => exact h
  | done => exact absurd rfl he

theorem awaits_run (hs : s.idle = false) (hes : .done ∉ es) (hk : ∀ e ∈ es, e.onBeat k = false)
    (h : s.Awaits k) : ((trackerMachine c).run s es).Awaits k := by
  induction es generalizing s with
  | nil => exact h
  | cons e es ih =>
    obtain ⟨he, hes⟩ : e ≠ .done ∧ .done ∉ es := by simpa [not_or, eq_comm] using hes
    obtain ⟨hke, hk⟩ := List.forall_mem_cons.1 hk
    exact ih (idle_next hs he) hes hk (awaits_next hs he hke h)

/-- The beat of an atomic operation is not written when the request is all that happened to it. -/
theorem not_write_of_atomic {a : Acquire c.tl} (hs : s.idle) (hl : (trackerMachine c).Legal s es)
    (hes : .done ∉ es) (hk : es.filter (·.onBeat k) = [.iacq a]) (ha : a.isBuiltIn .putAtomicType) :
    ((trackerMachine c).run s es).ok (.write k) = false := by
  obtain ⟨hmem, hon⟩ : .iacq a ∈ es ∧ (iacq a).onBeat k := by
    rw [← List.mem_filter, hk]
    exact List.mem_singleton_self _
  obtain _ | ⟨e, es⟩ := es
  · simp at hmem
  obtain ⟨x, rfl⟩ := head_of_legal hs hl
  have hes' : .done ∉ es := fun h => hes (List.mem_cons_of_mem _ h)
  have hactive : (s.accept x).idle = false := by simp [accept, hs]
  -- the request is the first one, since it is atomic
  obtain rfl : a = x := by
    rcases List.mem_cons.1 hmem with heq | hmem
    · exact iacq.inj heq
    · have := (not_atomic_of_mem hactive hes' hl.2 hmem).2
      simp [ha] at this
  have hnone : ∀ e ∈ es, e.onBeat k = false := by
    rw [List.filter_cons_of_pos hon, List.cons.injEq] at hk
    simpa using hk.2
  have hbeat : a.addrBeat = k := by simpa [onBeat] using (Bool.and_eq_true_iff.1 hon).2
  have hawaits : (s.accept a).Awaits k := by
    left
    simp [accept, hs, hbeat, Acquire.isGetOrAtomic, ha]
  rcases awaits_run hactive hes' hnone hawaits with h | h <;>
    · change ((trackerMachine c).run (s.accept a) es).ok (.write k) = false
      simp [ok, h]

end L2Tracker

end TaggedRiscv
