import TaggedRiscv.Lib.Machine
import Mathlib.Data.List.Flatten

/-!
# Channels over a shared link

Several channels share one link. On the sending side an arbiter with fixed priorities chooses a
channel and keeps to it until a message of several beats is over, and also while the beat it offers
is not taken; on the receiving side the beat is handed to the channel it names.
-/

namespace Sync

/-- Messages of the channels `ι`, encoded for a link: the order in which the channels are
preferred, the channel a beat names, and whether the beat is one of several. -/
structure Codec (ι : Type) (M : ι → Type) (L : Type) where
  order : List ι
  encode : (k : ι) → M k → L
  decode : (k : ι) → L → M k
  kind : L → Option ι
  multi : L → Bool
  count : ℕ
  kind_encode : ∀ k m, kind (encode k m) = some k
  decode_encode : ∀ k m, decode k (encode k m) = m
  one_lt_count : ∀ l, multi l → 1 < count

/-- The registers of the arbiter: the channel it is locked to and the beats of the message
that are through. -/
structure HoldArb (ι : Type) where
  lock : Option ι
  cnt : ℕ

/-- The registers after reset. -/
def HoldArb.init {ι : Type} : HoldArb ι := ⟨none, 0⟩

/-- What the channels offer in a cycle and which of them take what they are offered. -/
structure LinkIn (ι : Type) (M : ι → Type) where
  offer : (k : ι) → Option (M k)
  ready : ι → Bool

namespace Codec

variable {ι : Type} [DecidableEq ι] {M : ι → Type} {L : Type}
variable (C : Codec ι M L) (a : HoldArb ι) (i : LinkIn ι M)

/-! ## A cycle -/

/-- The channel on the link. -/
def chosen : Option ι :=
  match a.lock with
  | some k => if (i.offer k).isSome then some k else none
  | none => C.order.find? fun k => (i.offer k).isSome

/-- The beat on the link. -/
def link : Option L := (C.chosen a i).bind fun k => (i.offer k).map (C.encode k)

/-- The beat is taken by the channel it names. -/
def linkReady : Bool := (C.link a i).any fun l => (C.kind l).any i.ready

/-- The beat that a channel hands over. -/
def sent (k : ι) : Option (M k) :=
  if C.linkReady a i = true ∧ C.chosen a i = some k then i.offer k else none

/-- The beat that a channel is given. -/
def received (k : ι) : Option (M k) :=
  (C.link a i).bind fun l =>
    if C.kind l = some k ∧ i.ready k = true then some (C.decode k l) else none

/-- The beat that goes over the link. -/
def carried : Option L := if C.linkReady a i then C.link a i else none

/-- The registers after a cycle. -/
def next : HoldArb ι :=
  match C.chosen a i, C.link a i with
  | some k, some l =>
    if C.linkReady a i then
      if C.multi l then
        { cnt := (a.cnt + 1) % C.count
          lock := if (a.cnt + 1) % C.count = 0 then none else some k }
      else { a with lock := none }
    else { a with lock := some k }
  | _, _ => a

variable {C a i}

omit [DecidableEq ι] in
/-- A locked arbiter chooses the channel it is locked to. -/
theorem chosen_of_lock {j k : ι} (hl : a.lock = some j) (h : C.chosen a i = some k) : k = j := by
  simp only [chosen, hl] at h
  split_ifs at h
  exact (Option.some.inj h).symm

omit [DecidableEq ι] in
/-- The link carries the beat that the chosen channel offers. -/
theorem link_of_chosen {k : ι} (h : C.chosen a i = some k) :
    ∃ m, i.offer k = some m ∧ C.link a i = some (C.encode k m) ∧ C.linkReady a i = i.ready k := by
  have hsome : (i.offer k).isSome := by
    unfold chosen at h
    cases hl : a.lock with
    | some j =>
      simp only [hl] at h
      split_ifs at h with hj
      obtain rfl := Option.some.inj h
      exact hj
    | none =>
      simp only [hl] at h
      simpa using List.find?_some (p := fun k => (i.offer k).isSome) h
  obtain ⟨m, hm⟩ := Option.isSome_iff_exists.1 hsome
  have hlink : C.link a i = some (C.encode k m) := by simp [link, h, hm]
  exact ⟨m, hm, hlink, by simp [linkReady, hlink, C.kind_encode]⟩

/-- What a cycle does: nothing is sent, or the chosen channel has its beat carried. -/
theorem sent_cases :
    ((∀ k, C.sent a i k = none) ∧ C.carried a i = none) ∨
      ∃ k m, C.chosen a i = some k ∧ i.offer k = some m ∧ C.linkReady a i ∧
        C.sent a i k = some m ∧ (∀ j, j ≠ k → C.sent a i j = none) ∧
        C.link a i = some (C.encode k m) ∧ C.carried a i = some (C.encode k m) := by
  cases hr : C.linkReady a i with
  | false => exact .inl ⟨fun k => by simp [sent, hr], by simp [carried, hr]⟩
  | true =>
    cases hc : C.chosen a i with
    | none => simp [linkReady, link, hc] at hr
    | some k =>
      obtain ⟨m, hm, hlink, -⟩ := link_of_chosen hc
      refine .inr ⟨k, m, rfl, hm, rfl, by simp [sent, hr, hc, hm], fun j hj => ?_, hlink,
        by simp [carried, hr, hlink]⟩
      simp [sent, hc, Ne.symm hj]

/-- In a cycle every channel is given what it hands over. -/
theorem received_eq_sent (k : ι) : C.received a i k = C.sent a i k := by
  unfold received sent
  cases hc : C.chosen a i with
  | none => simp [link, hc]
  | some j =>
    obtain ⟨m, hm, hlink, hready⟩ := link_of_chosen hc
    rw [hlink, hready]
    by_cases hjk : j = k
    · subst hjk
      by_cases hr : i.ready j = true <;> simp [C.kind_encode, C.decode_encode, hm, hr]
    · simp [C.kind_encode, hjk]

end Codec

/-! ## Runs -/

/-- What has gone over the link: the beats of every channel on both sides, the beats on the
link, and how many beats of its message each channel has handed over. -/
structure LinkLog (ι : Type) (M : ι → Type) (L : Type) where
  sent : (k : ι) → List (M k)
  received : (k : ι) → List (M k)
  carried : List L
  pos : ι → ℕ

namespace LinkLog

variable {ι : Type} [DecidableEq ι] {M : ι → Type} {L : Type}

/-- Nothing yet. -/
def empty : LinkLog ι M L := ⟨fun _ => [], fun _ => [], [], fun _ => 0⟩

variable (C : Codec ι M L)

/-- The record after a cycle. -/
def step (g : LinkLog ι M L) (a : HoldArb ι) (i : LinkIn ι M) : LinkLog ι M L :=
  { sent := fun k => g.sent k ++ (C.sent a i k).toList
    received := fun k => g.received k ++ (C.received a i k).toList
    carried := g.carried ++ (C.carried a i).toList
    pos := fun k =>
      if (C.sent a i k).any fun m => C.multi (C.encode k m) then (g.pos k + 1) % C.count
      else g.pos k }

/-- The channels hand over whole messages: in the middle of a message of several beats a
channel offers the next one. -/
def WholeMessages (g : LinkLog ι M L) (i : LinkIn ι M) : Prop :=
  ∀ k m, i.offer k = some m → 0 < g.pos k → C.multi (C.encode k m) = true

/-- A message on the link: one beat, or all beats of a longer one, of one channel. -/
inductive Message : List L → Prop
  | single (l : L) : C.multi l = false → Message [l]
  | burst (k : ι) (ls : List L) : ls.length = C.count →
      (∀ l ∈ ls, C.multi l ∧ C.kind l = some k) → Message ls

/-- The link delivers what it was given, channel by channel, and it carries the channels'
beats message by message; the last message may be incomplete. -/
structure Transported (g : LinkLog ι M L) : Prop where
  faithful : ∀ k, g.received k = g.sent k
  carries : ∀ k, g.carried.filter (fun l => C.kind l == some k) = (g.sent k).map (C.encode k)
  messages : ∃ (msgs : List (List L)) (part : List L), g.carried = msgs.flatten ++ part ∧
    (∀ ms ∈ msgs, Message C ms) ∧
      (part = [] ∨ ∃ k, part.length = g.pos k ∧
        ∀ l ∈ part, C.multi l ∧ C.kind l = some k)

/-- The arbiter and the channels agree on the message that is on its way. -/
structure InMessage (g : LinkLog ι M L) (a : HoldArb ι) (part : List L) : Prop where
  pos : ∀ k, g.pos k = if a.lock = some k then a.cnt else 0
  cnt_of_none : a.lock = none → a.cnt = 0
  cnt_lt : a.cnt = 0 ∨ a.cnt < C.count
  length : part.length = a.cnt
  beats : ∀ l ∈ part, C.multi l ∧ C.kind l = a.lock

/-- What holds along a run. -/
structure Inv (g : LinkLog ι M L) (a : HoldArb ι) : Prop where
  faithful : ∀ k, g.received k = g.sent k
  carries : ∀ k, g.carried.filter (fun l => C.kind l == some k) = (g.sent k).map (C.encode k)
  messages : ∃ (msgs : List (List L)) (part : List L), g.carried = msgs.flatten ++ part ∧
    (∀ ms ∈ msgs, Message C ms) ∧ InMessage C g a part

variable {C} {g : LinkLog ι M L} {a : HoldArb ι} {i : LinkIn ι M}

theorem Inv.transported (h : Inv C g a) : Transported C g := by
  refine ⟨h.faithful, h.carries, ?_⟩
  obtain ⟨msgs, part, hc, hm, hp⟩ := h.messages
  refine ⟨msgs, part, hc, hm, ?_⟩
  cases hl : a.lock with
  | none =>
    left
    exact List.eq_nil_of_length_eq_zero (hp.length.trans (hp.cnt_of_none hl))
  | some k =>
    right
    refine ⟨k, by simp [hp.length, hp.pos k, hl], fun l hmem => ?_⟩
    rw [← hl]
    exact hp.beats l hmem

theorem inv_empty : Inv C (empty : LinkLog ι M L) .init := by
  refine ⟨fun _ => rfl, fun _ => rfl, [], [], rfl, by simp, ?_⟩
  exact ⟨fun k => by simp [empty, HoldArb.init], fun _ => rfl, .inl rfl, rfl, by simp⟩

/-! ### A cycle of a run -/

theorem carries_step (h : ∀ k, g.carried.filter (fun l => C.kind l == some k) =
      (g.sent k).map (C.encode k)) (k : ι) :
    (step C g a i).carried.filter (fun l => C.kind l == some k) =
      ((step C g a i).sent k).map (C.encode k) := by
  simp only [step, List.filter_append, List.map_append, h]
  rcases Codec.sent_cases (C := C) (a := a) (i := i) with
    ⟨hno, hc⟩ | ⟨j, m, -, -, -, hs, hother, -, hc⟩
  · simp [hno, hc]
  · by_cases hjk : j = k
    · subst hjk
      simp [hs, hc, C.kind_encode]
    · simp [hother k (Ne.symm hjk), hc, C.kind_encode, hjk]

variable {part : List L}

/-- A beat that is not taken holds the arbiter. -/
theorem InMessage.hold (h : InMessage C g a part) {k : ι}
    (hk : C.chosen a i = some k) : InMessage C g { a with lock := some k } part := by
  cases hl : a.lock with
  | some j =>
    obtain rfl := Codec.chosen_of_lock hl hk
    rw [← hl]
    exact h
  | none =>
    have hcnt := h.cnt_of_none hl
    have hpart : part = [] := List.eq_nil_of_length_eq_zero (h.length.trans hcnt)
    subst hpart
    exact ⟨fun j => by simp [h.pos j, hcnt], fun h' => by simp at h', h.cnt_lt, h.length, by simp⟩

/-- The channel that is chosen has handed over as many beats as the arbiter counts, and the
others are between messages. -/
theorem InMessage.pos_of_chosen (h : InMessage C g a part) {k : ι}
    (hk : C.chosen a i = some k) : g.pos k = a.cnt ∧ ∀ j, j ≠ k → g.pos j = 0 := by
  cases hl : a.lock with
  | some j =>
    obtain rfl := Codec.chosen_of_lock hl hk
    exact ⟨by simp [h.pos, hl], fun j' hj => by simp [h.pos, hl, Ne.symm hj]⟩
  | none => exact ⟨by simp [h.pos, hl, h.cnt_of_none hl], fun j _ => by simp [h.pos, hl]⟩

/-- The beats of the message on its way are of the chosen channel. -/
theorem InMessage.beats_of_chosen (h : InMessage C g a part) {k : ι}
    (hk : C.chosen a i = some k) : ∀ l ∈ part, C.multi l ∧ C.kind l = some k := by
  intro l hmem
  have hb := h.beats l hmem
  cases hl : a.lock with
  | some j =>
    obtain rfl := Codec.chosen_of_lock hl hk
    exact hl ▸ hb
  | none =>
    have hpart := List.eq_nil_of_length_eq_zero (h.length.trans (h.cnt_of_none hl))
    simp [hpart] at hmem

/-- A beat that is carried continues the message, ends it, or is one by itself. -/
theorem InMessage.step (h : InMessage C g a part) (hw : WholeMessages C g i)
    {k : ι} {m : M k} (hk : C.chosen a i = some k) (hm : i.offer k = some m)
    (hr : C.linkReady a i) (hlink : C.link a i = some (C.encode k m))
    (hs : C.sent a i k = some m) (hother : ∀ j, j ≠ k → C.sent a i j = none) :
    ∃ (done : List (List L)) (part' : List L),
      part ++ [C.encode k m] = done.flatten ++ part' ∧ (∀ ms ∈ done, Message C ms) ∧
        InMessage C (step C g a i) (C.next a i) part' := by
  obtain ⟨hpos, hzero⟩ := h.pos_of_chosen hk
  have hbeats := h.beats_of_chosen hk
  have hposj : ∀ j, j ≠ k → (LinkLog.step C g a i).pos j = 0 := by
    intro j hj
    simp [LinkLog.step, hother j hj, hzero j hj]
  cases hmulti : C.multi (C.encode k m) with
  | false =>
    -- a beat by itself: the channel was between messages
    have hcnt : a.cnt = 0 := by
      by_contra hne
      have := hw k m hm (by omega)
      simp [hmulti] at this
    have hpart : part = [] := List.eq_nil_of_length_eq_zero (h.length.trans hcnt)
    subst hpart
    refine ⟨[[C.encode k m]], [], by simp, ?_, ?_⟩
    · intro ms hms
      obtain rfl := List.mem_singleton.1 hms
      exact .single _ hmulti
    · have hnext : C.next a i = { a with lock := none } := by
        simp [Codec.next, hk, hlink, hr, hmulti]
      rw [hnext]
      refine ⟨fun j => ?_, fun _ => hcnt, .inl hcnt, hcnt.symm, by simp⟩
      by_cases hj : j = k
      · subst hj
        simp [step, hs, hmulti, hpos, hcnt]
      · simp [hposj j hj]
  | true =>
    have hcount := C.one_lt_count _ hmulti
    have hlt : a.cnt < C.count := by rcases h.cnt_lt with h0 | h0 <;> omega
    have hposk : (LinkLog.step C g a i).pos k = (a.cnt + 1) % C.count := by
      simp [LinkLog.step, hs, hmulti, hpos]
    have hnext : C.next a i =
        { cnt := (a.cnt + 1) % C.count
          lock := if (a.cnt + 1) % C.count = 0 then none else some k } := by
      simp [Codec.next, hk, hlink, hr, hmulti]
    have hall : ∀ l ∈ part ++ [C.encode k m], C.multi l ∧ C.kind l = some k := by
      intro l hmem
      rcases List.mem_append.1 hmem with hl | hl
      · exact hbeats l hl
      · obtain rfl := List.mem_singleton.1 hl
        exact ⟨hmulti, C.kind_encode k m⟩
    have hlen : (part ++ [C.encode k m]).length = a.cnt + 1 := by simp [h.length]
    by_cases hend : a.cnt + 1 = C.count
    · -- the last beat
      have hmod : (a.cnt + 1) % C.count = 0 := by rw [hend, Nat.mod_self]
      refine ⟨[part ++ [C.encode k m]], [], by simp, ?_, ?_⟩
      · intro ms hms
        obtain rfl := List.mem_singleton.1 hms
        exact .burst k _ (hlen.trans hend) hall
      · rw [hnext, hmod]
        refine ⟨fun j => ?_, fun _ => rfl, .inl rfl, rfl, by simp⟩
        by_cases hj : j = k
        · subst hj
          simp [hposk, hmod]
        · simp [hposj j hj]
    · have hmod : (a.cnt + 1) % C.count = a.cnt + 1 := Nat.mod_eq_of_lt (by omega)
      refine ⟨[], part ++ [C.encode k m], by simp, by simp, ?_⟩
      rw [hnext, hmod, if_neg (Nat.succ_ne_zero _)]
      refine ⟨fun j => ?_, fun h' => by simp at h', .inr (by simp; omega), hlen, hall⟩
      by_cases hj : j = k
      · subst hj
        simp [hposk, hmod]
      · simp [hposj j hj, Ne.symm hj]

theorem Inv.step (h : Inv C g a) (hw : WholeMessages C g i) :
    Inv C (LinkLog.step C g a i) (C.next a i) := by
  refine ⟨fun k => ?_, carries_step h.carries, ?_⟩
  · simp [LinkLog.step, Codec.received_eq_sent, h.faithful k]
  · obtain ⟨msgs, part, hc, hmsgs, hpart⟩ := h.messages
    rcases Codec.sent_cases (C := C) (a := a) (i := i) with
      ⟨hno, hcar⟩ | ⟨k, m, hk, hm, hr, hs, hother, hlink, hcar⟩
    · refine ⟨msgs, part, by simp [LinkLog.step, hcar, hc], hmsgs, ?_⟩
      have hsame : InMessage C g (C.next a i) part := by
        unfold Codec.next
        cases hch : C.chosen a i with
        | none => exact hpart
        | some k =>
          obtain ⟨m, hm, hlink, -⟩ := Codec.link_of_chosen hch
          have hr : C.linkReady a i = false := by
            by_contra hr
            have := hno k
            simp [Codec.sent, hr, hch, hm] at this
          simp only [hlink, hr, Bool.false_eq_true, if_false]
          exact hpart.hold hch
      exact ⟨fun k => by simp [LinkLog.step, hno, hsame.pos k], hsame.cnt_of_none, hsame.cnt_lt,
        hsame.length, hsame.beats⟩
    · obtain ⟨done, part', hsplit, hdone, hin⟩ := hpart.step hw hk hm hr hlink hs hother
      refine ⟨msgs ++ done, part', ?_, ?_, hin⟩
      · simp [LinkLog.step, hcar, hc, hsplit]
      · intro ms hms
        rcases List.mem_append.1 hms with hms | hms
        · exact hmsgs ms hms
        · exact hdone ms hms

end LinkLog

/-- A link with its record, where the channels hand over whole messages. -/
def Codec.machine {ι : Type} [DecidableEq ι] {M : ι → Type} {L : Type} (C : Codec ι M L) :
    Machine (HoldArb ι × LinkLog ι M L) (LinkIn ι M) where
  ok s i := LinkLog.WholeMessages C s.2 i
  next s i := (C.next s.1 i, s.2.step C s.1 i)

/-- In every run with whole messages the link delivers them. -/
theorem Codec.transported_run {ι : Type} [DecidableEq ι] {M : ι → Type} {L : Type} (C : Codec ι M L)
    {is : List (LinkIn ι M)} (hl : C.machine.Legal (.init, .empty) is) :
    (C.machine.run (.init, .empty) is).2.Transported C := by
  have h := Machine.invariant_run (m := C.machine) (P := fun s => LinkLog.Inv C s.2 s.1)
    (fun _ _ hs hi => hs.step hi) LinkLog.inv_empty hl
  exact h.transported

end Sync
