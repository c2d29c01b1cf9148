import TaggedRiscv.Nasti.MuxTraffic

/-!
# Responses through the NASTI multiplexer

The port of an open transaction stands in a table of records, and a response goes to the
port of the first record with its id. A record is freed with the response. For a write
this is right, since it has one response. For a read it is not: the first beat of a burst
frees the record, and the later beats find none and go to the port in the first entry.
A full table does not keep port 0 from opening a transaction either; its record then
replaces the first one.
-/

namespace TaggedRiscv.Nasti

open Sync

/-! ## Tables of records -/

/-- The open transactions of one kind: the port that issued each, and the number of
responses it still gets. -/
abbrev Open (w : ℕ) := BitVec w → Option (PortId × ℕ)

/-- The open transactions after a cycle in which one may be opened and one may get a
response. -/
def Open.step {w : ℕ} (o : Open w) (opened : Option (BitVec w × PortId × ℕ))
    (answered : Option (BitVec w)) : Open w := fun id =>
  if opened.map (·.1) = some id then opened.map (·.2)
  else if answered = some id then
    (o id).bind fun x => if x.2 ≤ 1 then none else some (x.1, x.2 - 1)
  else o id

namespace Records

variable {n w : ℕ}

/-- A table holds exactly the open transactions, each once, and each gets one response. -/
structure Tracks (t : Records n w) (o : Open w) : Prop where
  sound : ∀ k, t.valid k → o (t.id k) = some (t.port k, 1)
  complete : ∀ id x, o id = some x → ∃ k, t.valid k ∧ t.id k = id
  unique : ∀ k k', t.valid k → t.valid k' → t.id k = t.id k' → k = k'

variable [NeZero n] {t : Records n w} {o : Open w}

theorem valid_wp (h : t.full = false) : t.valid t.wp = false := by
  unfold wp
  cases hf : firstValid fun i => !t.valid i with
  | some k => simpa using valid_of_firstValid hf
  | none =>
    exfalso
    obtain ⟨k, -, hk⟩ := List.all_eq_false.1 h
    have hno := List.find?_eq_none.1 hf k (List.mem_finRange k)
    simp at hno
    exact hk hno

variable {x : PortId × ℕ}

/-- The record found for an open transaction is its own. -/
theorem Tracks.matchIndex_eq (h : t.Tracks o) {id : BitVec w} (ho : o id = some x) :
    t.valid (t.matchIndex (some id)) ∧ t.id (t.matchIndex (some id)) = id := by
  unfold matchIndex
  cases hf : firstValid fun i => t.valid i && some id == some (t.id i) with
  | some k =>
    have hk := valid_of_firstValid hf
    simp only [Bool.and_eq_true, beq_iff_eq, Option.some.injEq] at hk
    exact ⟨hk.1, hk.2.symm⟩
  | none =>
    exfalso
    obtain ⟨k, hv, hid⟩ := h.complete id x ho
    have hno := List.find?_eq_none.1 hf k (List.mem_finRange k)
    simp [hv, hid] at hno

/-- A response to an open transaction finds the port that issued it. -/
theorem Tracks.open_eq (h : t.Tracks o) {id : BitVec w}
    (ho : o id = some x) : x = (t.portFor (some id), 1) := by
  obtain ⟨hv, hid⟩ := h.matchIndex_eq ho
  have hs := h.sound _ hv
  rw [hid, ho] at hs
  exact Option.some.inj hs

variable {opened : Option (BitVec w × PortId)} {id : Option (BitVec w)} {answered : Bool}
variable {k : Fin n}

theorem valid_next_iff :
    (t.next opened id answered).valid k ↔
      (answered → k ≠ t.matchIndex id) ∧
        (t.valid k ∨ opened.isSome ∧ k = t.wp) := by
  simp only [next]
  by_cases hm : answered ∧ k = t.matchIndex id
  · simp [hm]
  · have hno : (answered && k == t.matchIndex id) = false := by
      rw [Bool.and_eq_false_imp]
      intro ha
      rw [beq_eq_false_iff_ne]
      exact fun hk => hm ⟨ha, hk⟩
    have hno' : answered → k ≠ t.matchIndex id := fun ha hk => hm ⟨ha, hk⟩
    rw [hno]
    by_cases ho : opened.isSome ∧ k = t.wp
    · simp only [ho, beq_self_eq_true, Bool.and_self, Bool.false_eq_true, if_false, if_true,
        and_self, or_true, and_true, true_iff]
      rw [← ho.2]
      exact hno'
    · have hnew : (opened.isSome && k == t.wp) = false := by
        rw [Bool.and_eq_false_imp]
        intro h
        rw [beq_eq_false_iff_ne]
        exact fun hk => ho ⟨h, hk⟩
      simp only [hnew, ho, Bool.false_eq_true, if_false, or_false]
      exact ⟨fun h => ⟨hno', h⟩, fun h => h.2⟩

/-- The other entries keep what they hold. -/
theorem entry_next_of_ne (h : opened.isSome → k ≠ t.wp) :
    (t.next opened id answered).id k = t.id k ∧
      (t.next opened id answered).port k = t.port k := by
  cases hop : opened with
  | none => exact ⟨rfl, rfl⟩
  | some ip =>
    have hk := h (by simp [hop])
    exact ⟨Function.update_of_ne hk .., Function.update_of_ne hk ..⟩

section Next

variable (h : t.Tracks o) (hroom : opened.isSome → t.full = false)
variable (hopen : answered → ∃ i, id = some i ∧ (o i).isSome)
variable (hnew : ∀ i p, opened = some (i, p) → o i = none ∨ answered ∧ id = some i)

include h

include hopen in
/-- The entry that is freed is the one of the answered transaction. -/
theorem Tracks.freed (ha : answered) :
    ∃ i, id = some i ∧ t.valid (t.matchIndex id) ∧ t.id (t.matchIndex id) = i := by
  obtain ⟨i, hi, hsome⟩ := hopen ha
  obtain ⟨x, hx⟩ := Option.isSome_iff_exists.1 hsome
  obtain ⟨hv, hid⟩ := h.matchIndex_eq hx
  rw [← hi] at hv hid
  exact ⟨i, hi, hv, hid⟩

omit h in
include hroom in
/-- A free entry is not one that was in use. -/
theorem ne_wp_of_valid (hv : t.valid k) (ho : opened.isSome) : k ≠ t.wp := by
  rintro rfl
  rw [valid_wp (hroom ho)] at hv
  exact absurd hv (by simp)

include hopen in
/-- An entry that stays in use is not the one of the answered transaction. -/
theorem Tracks.id_ne_answered (hv : t.valid k) (hk : answered → k ≠ t.matchIndex id)
    (ha : answered) : id ≠ some (t.id k) := by
  intro hid
  obtain ⟨i, hi, hv', hid'⟩ := h.freed hopen ha
  obtain rfl : i = t.id k := Option.some.inj (hi.symm.trans hid)
  exact hk ha (h.unique k _ hv hv' hid'.symm)

include hopen hnew in
/-- An entry that stays in use does not hold the id of the new transaction. -/
theorem Tracks.id_ne_opened (hv : t.valid k) (hk : answered → k ≠ t.matchIndex id)
    {i : BitVec w} {p : PortId} (hop : opened = some (i, p)) : t.id k ≠ i := by
  rintro rfl
  rcases hnew _ p hop with hno | ⟨ha, hid⟩
  · rw [h.sound k hv] at hno
    exact absurd hno (by simp)
  · exact h.id_ne_answered hopen hv hk ha hid

include hopen hnew in
/-- An old entry that stays in use holds an open transaction. -/
theorem Tracks.step_of_valid (hv : t.valid k) (hk : answered → k ≠ t.matchIndex id) :
    o.step (opened.map fun x => (x.1, x.2, 1)) (if answered then id else none) (t.id k) =
      some (t.port k, 1) := by
  have h1 : (opened.map fun x => (x.1, x.2, 1)).map (·.1) ≠ some (t.id k) := by
    intro hop
    rw [Option.map_map] at hop
    obtain ⟨⟨i, p⟩, hop, hi⟩ := Option.map_eq_some_iff.1 hop
    exact h.id_ne_opened hopen hnew hv hk hop hi.symm
  have h2 : (if answered then id else none) ≠ some (t.id k) := by
    intro hid
    split_ifs at hid with ha
    exact h.id_ne_answered hopen hv hk ha hid
  rw [Open.step, if_neg h1, if_neg h2, h.sound k hv]

include hroom hopen hnew in
theorem Tracks.next_sound (hk : (t.next opened id answered).valid k) :
    o.step (opened.map fun x => (x.1, x.2, 1)) (if answered then id else none)
        ((t.next opened id answered).id k) =
      some ((t.next opened id answered).port k, 1) := by
  obtain ⟨hfree, hv | ⟨ho, rfl⟩⟩ := valid_next_iff.1 hk
  · have hne : opened.isSome → k ≠ t.wp := ne_wp_of_valid hroom hv
    rw [(entry_next_of_ne hne).1, (entry_next_of_ne hne).2]
    exact h.step_of_valid hopen hnew hv hfree
  · obtain ⟨⟨i, p⟩, hop⟩ := Option.isSome_iff_exists.1 ho
    simp [next, Open.step, hop]

include hroom hopen in
theorem Tracks.next_complete {i : BitVec w}
    (hx : o.step (opened.map fun x => (x.1, x.2, 1)) (if answered then id else none) i = some x) :
    ∃ k, (t.next opened id answered).valid k ∧ (t.next opened id answered).id k = i := by
  unfold Open.step at hx
  by_cases h1 : (opened.map fun x => (x.1, x.2, 1)).map (·.1) = some i
  · -- the new transaction is in the entry that was free
    rw [Option.map_map] at h1
    obtain ⟨⟨i', p'⟩, hop, rfl⟩ := Option.map_eq_some_iff.1 h1
    refine ⟨t.wp, valid_next_iff.2 ⟨fun ha he => ?_, .inr ⟨by simp [hop], rfl⟩⟩, ?_⟩
    · obtain ⟨_, _, hv, _⟩ := h.freed hopen ha
      exact ne_wp_of_valid hroom hv (by simp [hop]) he.symm
    · simp [next, hop]
  rw [if_neg h1] at hx
  by_cases h2 : (if answered then id else none) = some i
  · -- the answered transaction had one response to get
    rw [if_pos h2] at hx
    obtain ⟨y, hy, hyx⟩ := Option.bind_eq_some_iff.1 hx
    rw [h.open_eq hy] at hyx
    exact absurd hyx (by simp)
  rw [if_neg h2] at hx
  obtain ⟨k, hv, hid⟩ := h.complete i x hx
  refine ⟨k, valid_next_iff.2 ⟨fun ha he => ?_, .inl hv⟩, ?_⟩
  · obtain ⟨i', hi', _, hid'⟩ := h.freed hopen ha
    rw [← he, hid] at hid'
    rw [if_pos ha] at h2
    exact h2 (hi'.trans (congrArg some hid'.symm))
  · rw [(entry_next_of_ne (ne_wp_of_valid hroom hv)).1, hid]

variable (opened id answered) in
include hroom hopen hnew in
/-- A table keeps up: a transaction is recorded in a free entry, and the entry of the
answered one is freed. -/
theorem Tracks.next :
    (t.next opened id answered).Tracks
      (o.step (opened.map fun x => (x.1, x.2, 1)) (if answered then id else none)) := by
  refine ⟨fun k hk => h.next_sound hroom hopen hnew hk,
    fun i p hip => h.next_complete hroom hopen hip, fun k k' hk hk' he => ?_⟩
  have hold : ∀ k, t.valid k → (t.next opened id answered).id k = t.id k :=
    fun k hv => (entry_next_of_ne (ne_wp_of_valid hroom hv)).1
  have hfresh : ∀ k, t.valid k → (answered → k ≠ t.matchIndex id) →
      opened.isSome → t.id k ≠ (t.next opened id answered).id t.wp := by
    intro k hv hk ho
    obtain ⟨⟨i, p⟩, hop⟩ := Option.isSome_iff_exists.1 ho
    have hi : (t.next opened id answered).id t.wp = i := by simp [Records.next, hop]
    rw [hi]
    exact h.id_ne_opened hopen hnew hv hk hop
  obtain ⟨hfree, hv | ⟨ho, rfl⟩⟩ := valid_next_iff.1 hk <;>
    obtain ⟨hfree', hv' | ⟨ho', rfl⟩⟩ := valid_next_iff.1 hk'
  · rw [hold k hv, hold k' hv'] at he
    exact h.unique k k' hv hv' he
  · rw [hold k hv] at he
    exact absurd he (hfresh k hv hfree ho')
  · rw [hold k' hv'] at he
    exact absurd he.symm (hfresh k' hv' hfree' ho)
  · rfl

end Next

end Records

/-! ## The multiplexer and its slave -/

variable {c : Params}

/-- The transactions that the multiplexer has passed on and that are not yet answered. -/
structure Outstanding (c : Params) where
  writes : Open c.idWidth
  reads : Open c.idWidth

/-- No transaction is open. -/
def Outstanding.none : Outstanding c := ⟨fun _ => .none, fun _ => .none⟩

namespace Mux

variable (s : Mux c) (o : Outstanding c) (i : MuxIn c)

/-- The open transactions after a cycle: a write gets one response, a read as many as
its address says. -/
def outstandingNext : Outstanding c :=
  { writes := o.writes.step ((s.mAwFire i).map fun m => (m.id, s.awPortSel i, 1))
      (if s.bFire i then i.b.map (·.id) else .none)
    reads := o.reads.step
      ((s.mArFire i).map fun m => (m.id, s.arPortSel i, m.len.toNat + 1))
      (if s.rFire i then i.r.map (·.id) else .none) }

/-- The slave answers open transactions, the last beat of a burst with `last`, and a new
transaction has an id that no open one of its kind has, unless that one ends. -/
structure Answered : Prop where
  b : ∀ m, i.b = some m → (o.writes m.id).isSome
  r : ∀ m, i.r = some m → (o.reads m.id).any (fun x => m.last == (x.2 == 1)) = true
  aw : ∀ m, s.mAwFire i = some m →
    o.writes m.id = none ∨ s.bFire i ∧ i.b.map (·.id) = some m.id
  ar : ∀ m, s.mArFire i = some m →
    o.reads m.id = none ∨
      s.rFire i ∧ i.r.map (fun m => (m.id, m.last)) = some (m.id, true)

/-- A transaction is opened when its table has room, and a read asks for one beat. -/
structure Roomy : Prop where
  aw : (s.mAwFire i).isSome → s.writeVec.full = false
  ar : (s.mArFire i).isSome → s.readVec.full = false
  single : ∀ m, s.mArFire i = some m → m.len = 0

instance : Decidable (s.Answered o i) :=
  decidable_of_iff
    ((∀ m ∈ i.b, (o.writes m.id).isSome = true) ∧
      (∀ m ∈ i.r, (o.reads m.id).any (fun x => m.last == (x.2 == 1)) = true) ∧
      (∀ m ∈ s.mAwFire i, o.writes m.id = none ∨
        s.bFire i = true ∧ i.b.map (·.id) = some m.id) ∧
      (∀ m ∈ s.mArFire i, o.reads m.id = none ∨
        s.rFire i = true ∧ i.r.map (fun m => (m.id, m.last)) = some (m.id, true)))
    ⟨fun h => ⟨h.1, h.2.1, h.2.2.1, h.2.2.2⟩, fun h => ⟨h.b, h.r, h.aw, h.ar⟩⟩

instance : Decidable (s.Roomy i) :=
  decidable_of_iff
    (((s.mAwFire i).isSome = true → s.writeVec.full = false) ∧
      ((s.mArFire i).isSome = true → s.readVec.full = false) ∧
      ∀ m ∈ s.mArFire i, m.len = 0)
    ⟨fun h => ⟨h.1, h.2.1, h.2.2⟩, fun h => ⟨h.aw, h.ar, h.single⟩⟩

/-- A response is offered to the port that issued the request, and to no other. -/
structure Returned : Prop where
  b : ∀ m p n, i.b = some m → o.writes m.id = some (p, n) →
    ∀ q, s.sB i q = if q = p then some m else none
  r : ∀ m p n, i.r = some m → o.reads m.id = some (p, n) →
    ∀ q, s.sR i q = if q = p then some m else none

/-- Both tables hold what is open. -/
structure Tracked : Prop where
  writes : s.writeVec.Tracks o.writes
  reads : s.readVec.Tracks o.reads

variable {s o i}

theorem Tracked.returned (h : s.Tracked o) : s.Returned o i := by
  refine ⟨fun m p n hm ho q => ?_, fun m p n hm ho q => ?_⟩
  · have hp : p = s.writeVec.portFor (some m.id) := congrArg Prod.fst (h.writes.open_eq ho)
    simp [sB, bPort, hm, hp, eq_comm]
  · have hp : p = s.readVec.portFor (some m.id) := congrArg Prod.fst (h.reads.open_eq ho)
    simp [sR, rPort, hm, hp, eq_comm]

theorem Tracked.next (h : s.Tracked o) (ha : s.Answered o i) (hr : s.Roomy i) :
    (s.next i).Tracked (s.outstandingNext o i) := by
  constructor
  · have hw := h.writes.next ((s.mAwFire i).map fun m => (m.id, s.awPortSel i))
      (i.b.map (·.id)) (s.bFire i) (by simpa using hr.aw) ?_ ?_
    · simpa [Mux.next, outstandingNext, Option.map_map, Function.comp_def] using hw
    · intro hb
      obtain ⟨m, hm⟩ := Option.isSome_iff_exists.1 (Bool.and_eq_true_iff.1 hb).1
      exact ⟨m.id, by simp [hm], ha.b m hm⟩
    · intro j p hop
      obtain ⟨m, hm, hj⟩ := Option.map_eq_some_iff.1 hop
      obtain ⟨rfl, -⟩ := Prod.mk.inj hj
      exact ha.aw m hm
  · have hw := h.reads.next ((s.mArFire i).map fun m => (m.id, s.arPortSel i))
      (i.r.map (·.id)) (s.rFire i) (by simpa using hr.ar) ?_ ?_
    · -- a read of one beat gets one response
      have hlen : ((s.mArFire i).map fun m => (m.id, s.arPortSel i)).map
          (fun x => (x.1, x.2, 1)) =
            (s.mArFire i).map fun m => (m.id, s.arPortSel i, m.len.toNat + 1) := by
        cases hm : s.mArFire i with
        | none => rfl
        | some m => simp [hr.single m hm]
      rw [hlen] at hw
      exact hw
    · intro hb
      obtain ⟨m, hm⟩ := Option.isSome_iff_exists.1 (Bool.and_eq_true_iff.1 hb).1
      obtain ⟨hx, -⟩ := (Option.any_eq_true_iff_get _ _).1 (ha.r m hm)
      exact ⟨m.id, by simp [hm], hx⟩
    · intro j p hop
      obtain ⟨m, hm, hj⟩ := Option.map_eq_some_iff.1 hop
      obtain ⟨rfl, -⟩ := Prod.mk.inj hj
      rcases ha.ar m hm with hno | ⟨hf, hid⟩
      · exact .inl hno
      · obtain ⟨m', hm', he⟩ := Option.map_eq_some_iff.1 hid
        exact .inr ⟨hf, by simp [hm', (Prod.mk.inj he).1]⟩

theorem tracked_reset (u : Mux c) : u.reset.Tracked .none := by
  constructor <;> constructor <;> simp [reset, Outstanding.none]

end Mux

/-! ## Runs -/

/-- The multiplexer with a slave that answers what is open. -/
abbrev answeredMachine (c : Params) : Machine (Mux c × Outstanding c) (MuxIn c) where
  ok s i := s.1.Answered s.2 i
  next s i := (s.1.next i, s.1.outstandingNext s.2 i)

/-- The same, where no transaction is opened without room and reads have one beat. -/
abbrev roomyMachine (c : Params) : Machine (Mux c × Outstanding c) (MuxIn c) where
  ok s i := s.1.Answered s.2 i ∧ s.1.Roomy i
  next s i := (s.1.next i, s.1.outstandingNext s.2 i)

/-- In every run in which transactions are opened when there is room for them and reads
have one beat, every response is offered to the port that issued the request, and to no
other. -/
theorem mux_responses_return (u : Mux c) (is : List (MuxIn c)) (i : MuxIn c)
    (hl : (roomyMachine c).Legal (u.reset, .none) is) :
    let s := (roomyMachine c).run (u.reset, .none) is
    s.1.Returned s.2 i := by
  have h := Machine.invariant_run (m := roomyMachine c) (P := fun s => s.1.Tracked s.2)
    (fun s i hs hi => hs.next hi.1 hi.2) (Mux.tracked_reset u) hl
  exact h.returned

/-! ## A burst that goes astray -/

/-- A read address of port `p` and a response of the slave, with everyone ready. -/
def readCycle (ar : Option (PortId × BitVec 1 × BitVec 8)) (r : Option (BitVec 1 × Bool)) :
    MuxIn byteParams :=
  { aw := fun _ => none
    w := fun _ => none
    ar := fun p => ar.bind fun x => if p = x.1 then
      some { byteAw x.2.1 with len := x.2.2 } else none
    bReady := fun _ => true
    rReady := fun _ => true
    awReady := true
    wReady := true
    arReady := true
    b := none
    r := r.map fun x => { id := x.1, data := 0x77, resp := 0, last := x.2, user := 0 } }

/-- Port 1 reads one beat and port 2 a burst of two; the slave sends the burst first. -/
def burstRun : List (MuxIn byteParams) :=
  [readCycle (some (1, 0, 0)) none, readCycle (some (2, 1, 1)) none,
    readCycle none (some (1, false))]

/-- The second beat of the burst is offered to port 1, which did not ask for it. -/
theorem second_beat_astray :
    (answeredMachine byteParams).Legal ((Mux.zero byteParams).reset, .none)
        (burstRun ++ [readCycle none (some (1, true))]) ∧
      ¬ (((answeredMachine byteParams).run ((Mux.zero byteParams).reset, .none)
          burstRun).1.Returned
        ((answeredMachine byteParams).run ((Mux.zero byteParams).reset, .none) burstRun).2
        (readCycle none (some (1, true)))) := by
  refine ⟨by decide, fun h => ?_⟩
  have hq := h.r _ 2 1 rfl (by decide) 1
  exact absurd hq (by decide)

/-- Two reads of one beat are answered in the other order. -/
theorem mux_responses_return_singles :
    (roomyMachine byteParams).Legal ((Mux.zero byteParams).reset, .none)
        [readCycle (some (1, 0, 0)) none, readCycle (some (2, 1, 0)) none] ∧
      let s := (roomyMachine byteParams).run ((Mux.zero byteParams).reset, .none)
        [readCycle (some (1, 0, 0)) none, readCycle (some (2, 1, 0)) none]
      s.1.Returned s.2 (readCycle none (some (1, true))) := by
  have hl : (roomyMachine byteParams).Legal ((Mux.zero byteParams).reset, .none)
      [readCycle (some (1, 0, 0)) none, readCycle (some (2, 1, 0)) none] := by decide
  exact ⟨hl, mux_responses_return _ _ _ hl⟩

end TaggedRiscv.Nasti
