import TaggedRiscv.Lib.Beats
import TaggedRiscv.Lib.Machine
import TaggedRiscv.Uncore.Messages

/-!
# Acknowledging grants (`FinishUnit`)

A client port hands the grants of the network to the client and answers each one that
requires it with a finish message, after the last beat of the grant. The finish messages wait
in a queue. A grant is offered to the client whenever it is there, but it is only taken from
the network when there is also room for its finish message: with the queue full the client
takes a beat that stays on the network, and gets it again.
-/

namespace TaggedRiscv

open Sync

structure LogicalHeader (hb : ℕ) where
  src : BitVec hb
  dst : BitVec hb
  deriving DecidableEq

structure LogicalNetworkIO (hb : ℕ) (T : Type) where
  header : LogicalHeader hb
  payload : T
  deriving DecidableEq

/-- A finish message that waits, and where it goes. -/
structure FinishQueueEntry (c : TLParams) (hb : ℕ) where
  fin : Finish c
  dst : BitVec hb
  deriving DecidableEq

/-- The registers: the beats of the open grant that are through, and the queue. -/
structure FinishUnit (c : TLParams) (hb : ℕ) where
  cnt : ℕ
  q : List (FinishQueueEntry c hb)
  deriving DecidableEq

/-- The inputs of a cycle. -/
structure FinishUnitIn (c : TLParams) (hb : ℕ) where
  grant : Option <| LogicalNetworkIO hb (Grant c)
  refillReady : Bool
  finishReady : Bool

/-- The beat that the client takes (`io.refill.fire()`). -/
def FinishUnitIn.refillFire {c : TLParams} {hb : ℕ} (i : FinishUnitIn c hb) : Option (Grant c) :=
  if i.refillReady then i.grant.map LogicalNetworkIO.payload else none

namespace FinishUnit

variable {c : TLParams} {hb : ℕ} (srcId : BitVec hb) (outstanding : ℕ) (s : FinishUnit c hb)
  (i : FinishUnitIn c hb)

/-- There is room in the queue (`q.io.enq.ready`, and `io.ready` of the unit). -/
def enqReady : Bool := decide (s.q.length < outstanding)

/-- The grant that is taken from the network (`io.grant.fire()`). -/
def grantFire : Option <| LogicalNetworkIO hb (Grant c) :=
  i.grant.filter fun g => (s.enqReady outstanding || !g.payload.requiresAck) && i.refillReady

/-- The finish message that is sent (`io.finish.fire()`). -/
def finishFire : Option <| LogicalNetworkIO hb (Finish c) :=
  if i.finishReady then s.q.head?.map fun e => ⟨⟨srcId, e.dst⟩, e.fin⟩ else none

/-- The counter is at the last beat of a message of several beats. -/
def wrap : Bool := decide (s.cnt = c.dataBeats - 1)

/-- The finish message for the beat, if it is the last one of a grant that requires it. -/
def enqBits (g : LogicalNetworkIO hb (Grant c)) : Option (FinishQueueEntry c hb) :=
  if g.payload.requiresAck && (!g.payload.hasMultibeatData || s.wrap) then
    some ⟨g.payload.makeFinish, g.header.src⟩
  else none

/-- The counter after the beat. -/
def count (g : LogicalNetworkIO hb (Grant c)) : ℕ :=
  if g.payload.hasMultibeatData then if s.wrap then 0 else s.cnt + 1 else s.cnt

def next : FinishUnit c hb where
  cnt := (s.grantFire outstanding i).elim s.cnt s.count
  q := (if i.finishReady then s.q.tail else s.q) ++
    ((s.grantFire outstanding i).bind s.enqBits).toList

end FinishUnit

open FinishUnit

/-! ## Whole grants -/

/-- A grant with all its beats: the block of data if its type has one, else a single beat. -/
structure GrantMessage (c : TLParams) (hb : ℕ) where
  header : LogicalHeader hb
  grant : Grant c
  /-- The beat addresses and the data. -/
  parts : List (BitVec c.beatAddrBits × BitVec c.dataBits)
  length_parts : parts.length = if grant.hasMultibeatData then c.dataBeats else 1

namespace GrantMessage

variable {c : TLParams} {hb : ℕ} (m : GrantMessage c hb)

def beat (p : BitVec c.beatAddrBits × BitVec c.dataBits) : LogicalNetworkIO hb (Grant c) :=
  ⟨m.header, { m.grant with addrBeat := p.1, data := p.2 }⟩

def beats : List <| LogicalNetworkIO hb (Grant c) := m.parts.map m.beat

variable (p : BitVec c.beatAddrBits × BitVec c.dataBits)

@[simp] theorem header_beat : (m.beat p).header = m.header := rfl

@[simp] theorem hasMultibeatData_beat :
    (m.beat p).payload.hasMultibeatData = m.grant.hasMultibeatData := rfl

@[simp] theorem requiresAck_beat : (m.beat p).payload.requiresAck = m.grant.requiresAck := rfl

@[simp] theorem makeFinish_beat : (m.beat p).payload.makeFinish = m.grant.makeFinish := rfl

/-- The finish message that the grant should be answered with. -/
def finish (srcId : BitVec hb) (m : GrantMessage c hb) : Option <| LogicalNetworkIO hb (Finish c) :=
  if m.grant.requiresAck then some ⟨⟨srcId, m.header.src⟩, m.grant.makeFinish⟩ else none

end GrantMessage

section Machine

variable {c : TLParams} {hb : ℕ} (srcId : BitVec hb) (outstanding : ℕ)
  (ms : List (GrantMessage c hb))

/-- The unit with the handshakes of its three ports. -/
structure FinishLog (c : TLParams) (hb : ℕ) where
  unit : FinishUnit c hb
  grants : List <| LogicalNetworkIO hb (Grant c)
  refills : List (Grant c)
  finishes : List <| LogicalNetworkIO hb (Finish c)

/-- The messages `ms` come one after another, with or without pauses. -/
abbrev finishMachine : Machine (FinishLog c hb) (FinishUnitIn c hb) where
  ok x i := ∀ g ∈ i.grant, (ms.flatMap GrantMessage.beats)[x.grants.length]? = some g
  next x i :=
    { unit := x.unit.next outstanding i
      grants := x.grants ++ (x.unit.grantFire outstanding i).toList
      refills := x.refills ++ (i.refillFire).toList
      finishes := x.finishes ++ (x.unit.finishFire srcId i).toList }

/-- The client takes no beat that has to be acknowledged while the queue is full. -/
def RoomForFinish (x : FinishLog c hb) (i : FinishUnitIn c hb) : Prop :=
  ∀ g ∈ i.grant, g.payload.requiresAck = true → i.refillReady = true →
    x.unit.q.length < outstanding
deriving Decidable

/-- The runs in which there is always room. -/
def roomyMachine : Machine (FinishLog c hb) (FinishUnitIn c hb) :=
  (finishMachine srcId outstanding ms).restrict (RoomForFinish outstanding)

namespace FinishLog

/-- The unit after reset. -/
def init : FinishLog c hb := ⟨⟨0, []⟩, [], [], []⟩

variable (x : FinishLog c hb)

/-- The finish messages that wait. -/
def waiting : List <| LogicalNetworkIO hb (Finish c) :=
  x.unit.q.map fun e => ⟨⟨srcId, e.dst⟩, e.fin⟩

/-- The messages that are through have their finish messages, sent or waiting. -/
def Acknowledged : Prop :=
  ∃ done part, ReadTo GrantMessage.beats ms x.grants done part ∧
    x.finishes ++ x.waiting srcId = done.filterMap (GrantMessage.finish srcId)

/-- The client gets what is taken from the network, each message is acknowledged as it
should be, and what waits is sent when the network takes it. -/
structure Exact : Prop where
  refills_eq : x.refills = x.grants.map LogicalNetworkIO.payload
  acknowledged : x.Acknowledged srcId ms
  sent : ∀ is : List (FinishUnitIn c hb), (∀ i ∈ is, i.finishReady) →
    outstanding ≤ is.length →
    x.finishes ++ x.waiting srcId <+: ((finishMachine srcId outstanding ms).run x is).finishes

end FinishLog

end Machine

/-! ## One beat -/

section Beat

variable {c : TLParams} {hb : ℕ} {srcId : BitVec hb} {s : FinishUnit c hb}
  {m : GrantMessage c hb} {g : LogicalNetworkIO hb (Grant c)}
  {part tail : List <| LogicalNetworkIO hb (Grant c)}

theorem GrantMessage.beats_ne_nil (m : GrantMessage c hb) : m.beats ≠ [] := by
  intro h
  have hlen := m.length_parts
  have hnil : m.parts = [] := List.map_eq_nil_iff.1 h
  rw [hnil, List.length_nil] at hlen
  split_ifs at hlen with hmulti
  have hone : 1 < c.dataBeats := by
    simp only [Grant.hasMultibeatData, Bool.and_eq_true, decide_eq_true_eq] at hmulti
    exact hmulti.1
  omega

/-- A beat of a message differs from the others in its data only. -/
theorem GrantMessage.exists_beat (h : m.beats = part ++ g :: tail) : ∃ p, g = m.beat p := by
  have hmem : g ∈ m.beats := by simp [h]
  obtain ⟨p, -, rfl⟩ := List.mem_map.1 hmem
  exact ⟨p, rfl⟩

theorem GrantMessage.length_split (h : m.beats = part ++ g :: tail) :
    part.length + (tail.length + 1) = if m.grant.hasMultibeatData then c.dataBeats else 1 := by
  rw [← m.length_parts, ← List.length_map (f := m.beat), ← beats, h, List.length_append,
    List.length_cons]

/-- Inside a message the counter counts and nothing is queued. -/
theorem FinishUnit.beat_inside (h : m.beats = part ++ g :: tail) (hcnt : s.cnt = part.length)
    (htail : tail ≠ []) : s.count g = s.cnt + 1 ∧ s.enqBits g = none := by
  have hlen := GrantMessage.length_split h
  have hpos : 0 < tail.length := List.length_pos_iff.2 htail
  obtain ⟨p, rfl⟩ := GrantMessage.exists_beat h
  split_ifs at hlen with hmulti
  · have hwrap : s.wrap = false := decide_eq_false (by omega)
    exact ⟨by simp [count, hmulti, hwrap], by simp [enqBits, hmulti, hwrap]⟩
  · omega

variable (srcId) in
/-- At the last beat the counter is cleared and the finish message is queued. -/
theorem FinishUnit.beat_last (h : m.beats = part ++ [g]) (hcnt : s.cnt = part.length) :
    s.count g = 0 ∧ (s.enqBits g).map (fun e => ⟨⟨srcId, e.dst⟩, e.fin⟩) = m.finish srcId := by
  have hlen := GrantMessage.length_split h
  rw [List.length_nil] at hlen
  obtain ⟨p, rfl⟩ := GrantMessage.exists_beat h
  split_ifs at hlen with hmulti
  · have hwrap : s.wrap := decide_eq_true (by omega)
    refine ⟨by simp [count, hmulti, hwrap], ?_⟩
    cases hack : m.grant.requiresAck <;> simp [enqBits, GrantMessage.finish, hwrap, hack]
  · have hzero : s.cnt = 0 := by omega
    refine ⟨by simp [count, hmulti, hzero], ?_⟩
    cases hack : m.grant.requiresAck <;> simp [enqBits, GrantMessage.finish, hmulti, hack]

end Beat

/-! ## The queue -/

section Queue

variable {c : TLParams} {hb : ℕ} {srcId : BitVec hb} {outstanding : ℕ} {s : FinishUnit c hb}
  {i : FinishUnitIn c hb} {g : LogicalNetworkIO hb (Grant c)}

theorem FinishUnit.grantFire_eq_some :
    s.grantFire outstanding i = some g ↔ i.grant = some g ∧ i.refillReady ∧
      (g.payload.requiresAck → s.q.length < outstanding) := by
  simp only [grantFire, enqReady, Option.filter_eq_some_iff, Bool.and_eq_true, Bool.or_eq_true,
    decide_eq_true_eq, Bool.not_eq_true']
  cases g.payload.requiresAck <;> simp [and_comm]

/-- What is queued has found room. -/
theorem FinishUnit.length_q_le (h : s.q.length ≤ outstanding) :
    (s.next outstanding i).q.length ≤ outstanding := by
  have hdeq : (if i.finishReady then s.q.tail else s.q).length ≤ s.q.length := by split_ifs <;> simp
  simp only [next, List.length_append]
  cases henq : (s.grantFire outstanding i).bind s.enqBits with
  | none => simpa using hdeq.trans h
  | some e =>
    obtain ⟨g, hg, he⟩ := Option.bind_eq_some_iff.1 henq
    have hack : g.payload.requiresAck := by
      by_contra hno
      simp [enqBits, hno] at he
    have hroom := (grantFire_eq_some.1 hg).2.2 hack
    simp only [Option.toList_some, List.length_singleton]
    omega

variable (srcId s i) in
/-- Taking the head of the queue moves it to the finish messages. -/
theorem FinishUnit.finishFire_append :
    (s.finishFire srcId i).toList ++
        (if i.finishReady then s.q.tail else s.q).map (fun e => ⟨⟨srcId, e.dst⟩, e.fin⟩) =
      s.q.map fun e => ⟨⟨srcId, e.dst⟩, e.fin⟩ := by
  cases hr : i.finishReady with
  | false => simp [finishFire, hr]
  | true => cases hq : s.q <;> simp [finishFire, hr, hq]

end Queue

/-! ## Whole runs -/

section Runs

variable {c : TLParams} {hb : ℕ} {srcId : BitVec hb} {outstanding : ℕ}
  {ms : List (GrantMessage c hb)} {x : FinishLog c hb} {i : FinishUnitIn c hb}

variable (srcId outstanding ms x i) in
/-- The finish messages of a cycle: what was sent and what waited, and one more. -/
theorem finishes_waiting_next :
    ((finishMachine srcId outstanding ms).next x i).finishes ++
        ((finishMachine srcId outstanding ms).next x i).waiting srcId =
      x.finishes ++ x.waiting srcId ++
        (((x.unit.grantFire outstanding i).bind x.unit.enqBits).map
          fun e => (⟨⟨srcId, e.dst⟩, e.fin⟩ : LogicalNetworkIO hb (Finish c))).toList := by
  have happ := finishFire_append srcId x.unit i
  simp only [FinishLog.waiting, next, List.map_append, ← happ,
    List.append_assoc]
  cases (x.unit.grantFire outstanding i).bind x.unit.enqBits <;> simp

/-- What the unit keeps in every run: the counter stands where the open message is, and the
finish messages are those of the messages that are through. -/
structure FinishLog.Inv (srcId : BitVec hb) (outstanding : ℕ) (ms : List (GrantMessage c hb))
    (x : FinishLog c hb) : Prop where
  room : x.unit.q.length ≤ outstanding
  read : ∃ done part, ReadTo GrantMessage.beats ms x.grants done part ∧
    x.unit.cnt = part.length ∧
    x.finishes ++ x.waiting srcId = done.filterMap (GrantMessage.finish srcId)
  length_le : x.grants.length ≤ x.refills.length

theorem FinishLog.inv_init : (init : FinishLog c hb).Inv srcId outstanding ms where
  room := Nat.zero_le _
  read := ⟨[], [], readTo_boundary GrantMessage.beats_ne_nil (List.nil_prefix), rfl, rfl⟩
  length_le := le_rfl

variable (outstanding x i) in
/-- The client takes at least what is taken from the network. -/
theorem length_grantFire_le :
    (x.unit.grantFire outstanding i).toList.length ≤ i.refillFire.toList.length := by
  cases hg : x.unit.grantFire outstanding i with
  | none => simp
  | some g =>
    obtain ⟨hin, hready, -⟩ := grantFire_eq_some.1 hg
    simp [FinishUnitIn.refillFire, hin, hready]

theorem FinishLog.Inv.next (h : x.Inv srcId outstanding ms)
    (hok : (finishMachine srcId outstanding ms).ok x i) :
    ((finishMachine srcId outstanding ms).next x i).Inv srcId outstanding ms where
  room := length_q_le h.room
  length_le := by
    have hlen := h.length_le
    have hle := length_grantFire_le outstanding x i
    simp only [List.length_append]
    omega
  read := by
    obtain ⟨done, part, hread, hcnt, hfin⟩ := h.read
    have hnext := finishes_waiting_next srcId outstanding ms x i
    cases hg : x.unit.grantFire outstanding i with
    | none =>
      refine ⟨done, part, ?_, ?_, ?_⟩
      · simpa [finishMachine, hg] using hread
      · simpa [finishMachine, FinishUnit.next, hg] using hcnt
      · rw [hnext, hfin, hg]
        simp
    | some g =>
      have hin := (FinishUnit.grantFire_eq_some.1 hg).1
      obtain ⟨m, todo, tail, hms, hm⟩ := hread.next_beat (hok g hin)
      have hgrants : ((finishMachine srcId outstanding ms).next x i).grants = x.grants ++ [g] := by
        simp [hg]
      have hcount : ((finishMachine srcId outstanding ms).next x i).unit.cnt = x.unit.count g := by
        simp [FinishUnit.next, hg]
      rw [hgrants, hcount, hnext, hfin, hg, Option.bind_some]
      -- The beat is inside the message or completes it.
      by_cases htail : tail = []
      · subst htail
        obtain ⟨hzero, henq⟩ := FinishUnit.beat_last srcId hm hcnt
        refine ⟨done ++ [m], [], hread.last GrantMessage.beats_ne_nil hms hm, hzero, ?_⟩
        rw [henq, List.filterMap_append]
        cases hf : m.finish srcId <;> simp [hf]
      · obtain ⟨hsucc, henq⟩ := beat_inside hm hcnt htail
        refine ⟨done, part ++ [g], hread.inside hms hm htail, ?_, ?_⟩
        · rw [hsucc, hcnt, List.length_append, List.length_singleton]
        · simp [henq]

/-- With room in the queue the client takes exactly what is taken from the network. -/
theorem refillFire_of_room (h : RoomForFinish outstanding x i) :
    i.refillFire = (x.unit.grantFire outstanding i).map LogicalNetworkIO.payload := by
  cases hready : i.refillReady with
  | false =>
    have hnone : x.unit.grantFire outstanding i = none := by
      rw [Option.eq_none_iff_forall_ne_some]
      intro g hg
      exact absurd (grantFire_eq_some.1 hg).2.1 (by simp [hready])
    simp [FinishUnitIn.refillFire, hready, hnone]
  | true =>
    have hfire : x.unit.grantFire outstanding i = i.grant := by
      cases hg : i.grant with
      | none => simp [grantFire, hg]
      | some g => exact grantFire_eq_some.2 ⟨hg, hready, fun hack => h g hg hack hready⟩
    simp [FinishUnitIn.refillFire, hready, hfire]

/-- Without room the beat goes to the client and stays on the network. -/
theorem fire_of_not_room (h : ¬ RoomForFinish outstanding x i) :
    x.unit.grantFire outstanding i = none ∧ ∃ g, i.refillFire = some g := by
  simp only [RoomForFinish, not_forall] at h
  obtain ⟨g, hg, hack, hready, hfull⟩ := h
  constructor
  · rw [Option.eq_none_iff_forall_ne_some]
    intro g' hfire
    obtain ⟨hg', -, hroom⟩ := grantFire_eq_some.1 hfire
    obtain rfl : g = g' := Option.some.inj (hg.symm.trans hg')
    exact hfull (hroom hack)
  · exact ⟨g.payload, by simp [FinishUnitIn.refillFire, hready, Option.mem_def.1 hg]⟩

variable (srcId ms) in
theorem refills_next_of_room (h : x.refills = x.grants.map LogicalNetworkIO.payload)
    (hroom : RoomForFinish outstanding x i) :
    ((finishMachine srcId outstanding ms).next x i).refills =
      ((finishMachine srcId outstanding ms).next x i).grants.map LogicalNetworkIO.payload := by
  simp only [refillFire_of_room hroom, List.map_append, h]
  cases x.unit.grantFire outstanding i <;> rfl

variable (srcId outstanding ms) in
/-- What waits is sent, in order, one message in each cycle in which the network is ready. -/
theorem waiting_sent (is : List (FinishUnitIn c hb)) (hready : ∀ i ∈ is, i.finishReady) :
    x.finishes ++ (x.waiting srcId).take is.length <+:
      ((finishMachine srcId outstanding ms).run x is).finishes := by
  induction is generalizing x with
  | nil => simp
  | cons i is ih =>
    obtain ⟨hi, his⟩ := List.forall_mem_cons.1 hready
    refine List.IsPrefix.trans ?_ (ih his)
    -- The head of the queue is sent in this cycle, the others move up.
    cases hq : x.unit.q with
    | nil => simp [FinishLog.waiting, hq, finishFire, hi]
    | cons e q =>
      simp only [FinishLog.waiting, hq, finishFire, hi, next]
      simp [List.take_append]

/-- The client gets every beat once, and exactly the right finish messages are sent, if and
only if it never takes a beat whose finish message finds no room. -/
theorem finishUnit_exact_iff (is : List (FinishUnitIn c hb))
    (hl : (finishMachine srcId outstanding ms).Legal FinishLog.init is) :
    ((finishMachine srcId outstanding ms).run FinishLog.init is).Exact srcId outstanding ms ↔
      (roomyMachine srcId outstanding ms).Legal FinishLog.init is := by
  constructor
  · intro hexact
    by_contra hrestrict
    -- After the first such beat the client has one more than the network has given, for good.
    have hmore := Machine.invariant_of_not_restrict
      (P := fun x => x.Inv srcId outstanding ms ∧ x.grants.length < x.refills.length)
      (Q := fun x => x.Inv srcId outstanding ms)
      (fun x i h hok => h.next hok)
      (fun x i h hok hroom => by
        refine ⟨h.next hok, ?_⟩
        obtain ⟨hg, g, hr⟩ := fire_of_not_room hroom
        simpa [finishMachine, hg, hr, Nat.lt_succ_iff] using h.length_le)
      (fun x i h hok => by
        refine ⟨h.1.next hok, ?_⟩
        have hle := length_grantFire_le outstanding x i
        have hlt := h.2
        simp only [List.length_append]
        omega)
      FinishLog.inv_init hl hrestrict
    refine absurd hmore.2 ?_
    simp [hexact.refills_eq]
  · intro hrestrict
    have hinv := Machine.invariant_run (m := roomyMachine srcId outstanding ms)
      (P := fun x => x.Inv srcId outstanding ms ∧
        x.refills = x.grants.map LogicalNetworkIO.payload)
      (fun x i h hok => ⟨h.1.next hok.1, refills_next_of_room srcId ms h.2 hok.2⟩)
      ⟨FinishLog.inv_init, rfl⟩ hrestrict
    rw [roomyMachine, Machine.run_restrict] at hinv
    obtain ⟨hinv, hrefills⟩ := hinv
    refine ⟨hrefills, ?_, ?_⟩
    · obtain ⟨done, part, hread, -, hfin⟩ := hinv.read
      exact ⟨done, part, hread, hfin⟩
    · intro js hready hlen
      have hsent := waiting_sent (x := (finishMachine srcId outstanding ms).run FinishLog.init is)
        srcId outstanding ms js hready
      rwa [List.take_of_length_le] at hsent
      rw [FinishLog.waiting, List.length_map]
      exact hinv.room.trans hlen

/-- Blocks of two beats, for the runs below. -/
def blockParams : TLParams :=
  { TLParams.small with
    managerXactIdBits := 2, byteAddrBits := 1, dataBits := 4, grantTypeBits := 3 }

/-- The answer to a put, from port 1. -/
def putAck (id : BitVec 2) : GrantMessage blockParams 2 where
  header := ⟨1, 0⟩
  grant := ⟨true, 3, 0, id, 0, 0⟩
  parts := [(0, 0)]
  length_parts := rfl

/-- A block of data, from port 2. -/
def getBlock (id : BitVec 2) : GrantMessage blockParams 2 where
  header := ⟨2, 0⟩
  grant := ⟨true, 5, 0, id, 0, 0⟩
  parts := [(0, 7), (1, 8)]
  length_parts := rfl

/-- The beats of some messages, offered one in each cycle. -/
def offered (ms : List (GrantMessage blockParams 2)) (finishReady : Bool) :
    List (FinishUnitIn blockParams 2) :=
  (ms.flatMap GrantMessage.beats).map fun g => ⟨some g, true, finishReady⟩

theorem finishUnit_exact_iff_block :
    ((finishMachine 0 2 [getBlock 1, putAck 2]).run FinishLog.init
        (offered [getBlock 1, putAck 2] false)).Exact 0 2 [getBlock 1, putAck 2] ↔
      (roomyMachine 0 2 [getBlock 1, putAck 2]).Legal FinishLog.init
        (offered [getBlock 1, putAck 2] false) :=
  finishUnit_exact_iff _ (by decide)

/-- Three puts are answered while no finish message can be sent. The queue is full when the
third answer comes, and the client gets it once more for each cycle that it stays. -/
def crowded : List (GrantMessage blockParams 2) := [putAck 1, putAck 2, putAck 3]

/-- Then finish messages can be sent. -/
def crowdedRun : List (FinishUnitIn blockParams 2) :=
  offered crowded false ++ List.replicate 2 ⟨some ((putAck 3).beat (0, 0)), true, true⟩

theorem finishUnit_repeats :
    let x := (finishMachine 0 2 crowded).run FinishLog.init crowdedRun
    (finishMachine 0 2 crowded).Legal FinishLog.init crowdedRun ∧
      x.grants.map (fun g => g.payload.managerXactId) = [1, 2, 3] ∧
      x.refills.map (fun g => g.managerXactId) = [1, 2, 3, 3, 3] ∧
      ¬ x.Exact 0 2 crowded := by
  refine ⟨by decide, by decide, by decide, ?_⟩
  intro h
  exact absurd h.refills_eq (by decide)

end Runs

end TaggedRiscv
