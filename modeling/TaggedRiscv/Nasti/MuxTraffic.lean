import TaggedRiscv.Nasti.Mux

/-!
# Requests through the NASTI multiplexer

Every request on the master port is one that a slave port hands over in the same cycle,
from the port the multiplexer is connected to. The converse fails: the ready signals of
the slave ports do not depend on the lock. While the multiplexer is locked it takes a
further write address from the locked port and drops it, and while it is not locked it
takes write data from the port the arbiter points to and drops it.
-/

namespace TaggedRiscv.Nasti

open Sync

variable {c : Params}

/-- The handshakes so far. Those of the slave ports are listed with their ports, and
write data on the master port with the port whose write address was forwarded last. -/
structure Traffic (c : Params) where
  awIn : List (PortId × AddrMsg c)
  awOut : List (AddrMsg c)
  wIn : List (PortId × WriteMsg c)
  wOut : List (Option PortId × WriteMsg c)
  arIn : List (PortId × AddrMsg c)
  arOut : List (AddrMsg c)
  lastAw : Option PortId

/-- The handshakes of the slave ports in a cycle, by port. -/
def handshakes {α : Type} (fire : PortId → Option α) : List (PortId × α) :=
  (List.finRange 8).filterMap fun p => (fire p).map (p, ·)

namespace Traffic

/-- No handshake yet. -/
def empty : Traffic c := ⟨[], [], [], [], [], [], none⟩

/-- The record after a cycle. -/
def step (t : Traffic c) (s : Mux c) (i : MuxIn c) : Traffic c :=
  { awIn := t.awIn ++ handshakes (s.awFire i)
    awOut := t.awOut ++ (s.mAwFire i).toList
    wIn := t.wIn ++ handshakes (s.wFire i)
    wOut := t.wOut ++ ((s.mWFire i).map (t.lastAw, ·)).toList
    arIn := t.arIn ++ handshakes (s.arFire i)
    arOut := t.arOut ++ (s.mArFire i).toList
    lastAw := if (s.mAwFire i).isSome then some (s.awPortSel i) else t.lastAw }

/-- The requests on the master port are those that were handed over, in order, and every
write beat comes from the port whose address was forwarded last. -/
structure Faithful (t : Traffic c) : Prop where
  aw : t.awOut = t.awIn.map (·.2)
  w : t.wOut = t.wIn.map fun m => (some m.1, m.2)
  ar : t.arOut = t.arIn.map (·.2)

end Traffic

namespace Mux

variable (s : Mux c) (i : MuxIn c)

/-- The multiplexer takes no request that it cannot pass on: no write address while it is
locked, and no write data while it is not. -/
def Lossless : Prop :=
  (s.lock = true → (s.awFire i (s.awPortSel i)).isSome = false) ∧
    (s.lock = false → (s.wFire i (s.awPortSel i)).isSome = false)
deriving Decidable

end Mux

/-! ## One cycle -/

/-- Only the connected port has a handshake. -/
theorem handshakes_of_single {α : Type} {fire : PortId → Option α} {sel : PortId}
    (h : ∀ p, p ≠ sel → fire p = none) : handshakes fire = ((fire sel).map (sel, ·)).toList := by
  have key : ∀ l : List PortId, l.Nodup →
      l.filterMap (fun p => (fire p).map (p, ·)) =
        if sel ∈ l then ((fire sel).map (sel, ·)).toList else [] := by
    intro l hl
    induction l with
    | nil => rfl
    | cons p l ih =>
      obtain ⟨hp, hl'⟩ := List.nodup_cons.1 hl
      by_cases hps : p = sel
      · subst hps
        cases hf : fire p <;> simp [ih hl', hp, hf]
      · simp [h p hps, ih hl', Ne.symm hps]
  rw [handshakes, key _ (List.nodup_finRange 8), if_pos (List.mem_finRange sel)]

namespace Mux

variable {s : Mux c} {i : MuxIn c}

theorem handshakes_awFire :
    handshakes (s.awFire i) =
      ((s.awFire i (s.awPortSel i)).map (s.awPortSel i, ·)).toList := by
  apply handshakes_of_single
  intro p hp
  simp [awFire, sAwReady, hp]

theorem handshakes_wFire :
    handshakes (s.wFire i) =
      ((s.wFire i (s.awPortSel i)).map (s.awPortSel i, ·)).toList := by
  apply handshakes_of_single
  intro p hp
  simp [wFire, sWReady, hp]

theorem handshakes_arFire :
    handshakes (s.arFire i) = ((s.mArFire i).map (s.arPortSel i, ·)).toList := by
  have hsingle : ∀ p, p ≠ s.arPortSel i → s.arFire i p = none := by
    intro p hp
    simp [arFire, sArReady, hp]
  rw [handshakes_of_single hsingle]
  simp [arFire, sArReady, mArFire, mAr]

/-- A write address is forwarded unless the multiplexer is locked. -/
theorem mAwFire_eq :
    s.mAwFire i = if s.lock then none else s.awFire i (s.awPortSel i) := by
  cases hl : s.lock <;> simp [mAwFire, mAw, awFire, sAwReady, hl]

/-- Write data is forwarded while the multiplexer is locked. -/
theorem mWFire_eq : s.mWFire i = if s.lock then s.wFire i (s.awPortSel i) else none := by
  cases hl : s.lock <;> simp [mWFire, mW, wFire, sWReady, hl]

theorem awPortSel_of_lock (h : s.lock) : s.awPortSel i = s.lockedPort := by
  simp [awPortSel, h]

/-- A locked multiplexer is locked to the port whose address was forwarded last. -/
def LockedToLast (s : Mux c) (t : Traffic c) : Prop :=
  s.lock = true → t.lastAw = some s.lockedPort

theorem lockedToLast_next {t : Traffic c} (h : s.LockedToLast t) :
    (s.next i).LockedToLast (t.step s i) := by
  intro hlock
  cases haw : s.awFire i (s.awPortSel i) with
  | some m =>
    cases hl : s.lock with
    | false => simp [Traffic.step, next, mAwFire_eq, hl, haw]
    | true =>
      -- a second address of the locked port is dropped and the lock stays
      simp [Traffic.step, next, mAwFire_eq, hl, h hl, awPortSel_of_lock hl]
  | none =>
    have hl : s.lock := by
      by_contra hl
      simp only [next, haw] at hlock
      simp_all
    simp [Traffic.step, next, mAwFire_eq, hl, haw, h hl]

end Mux

namespace Traffic

variable {t : Traffic c} {s : Mux c} {i : MuxIn c}

/-- Read addresses are passed on as they are handed over. -/
theorem arIn_eq (h : t.arOut = t.arIn.map (·.2)) :
    (t.step s i).arOut = (t.step s i).arIn.map (·.2) := by
  simp only [step, Mux.handshakes_arFire, h, List.map_append]
  cases s.mArFire i <;> rfl

/-- A cycle in which no request is dropped keeps the correspondence. -/
theorem Faithful.step (h : t.Faithful) (hlast : s.LockedToLast t) (hi : s.Lossless i) :
    (t.step s i).Faithful := by
  refine ⟨?_, ?_, arIn_eq h.ar⟩
  · simp only [Traffic.step, Mux.handshakes_awFire, Mux.mAwFire_eq, h.aw, List.map_append]
    cases hl : s.lock with
    | false => cases s.awFire i (s.awPortSel i) <;> rfl
    | true =>
      have hnone := Option.isSome_eq_false_iff.1 (hi.1 hl)
      rw [Option.isNone_iff_eq_none] at hnone
      simp [hnone]
  · simp only [Traffic.step, Mux.handshakes_wFire, Mux.mWFire_eq, h.w, List.map_append]
    cases hl : s.lock with
    | true =>
      rw [hlast hl, Mux.awPortSel_of_lock hl]
      cases s.wFire i s.lockedPort <;> rfl
    | false =>
      have hnone := Option.isSome_eq_false_iff.1 (hi.2 hl)
      rw [Option.isNone_iff_eq_none] at hnone
      simp [hnone]

end Traffic

/-! ## Runs -/

/-- The multiplexer where no request is offered that it would drop. -/
abbrev losslessMachine (c : Params) : Machine (Mux c) (MuxIn c) where
  ok := Mux.Lossless
  next := Mux.next

/-- In every run in which the multiplexer takes no request that it would drop, the
requests on the master port are those of the slave ports, each once and in order, and
every write beat belongs to the port whose address was forwarded last. -/
theorem mux_requests_correspond (u : Mux c) (is : List (MuxIn c))
    (hl : (losslessMachine c).Legal u.reset is) :
    ((losslessMachine c).history Traffic.step u.reset .empty is).Faithful := by
  have hinv := Machine.invariant_history (m := losslessMachine c)
    (Q := fun s t => t.Faithful ∧ s.LockedToLast t) Traffic.step
    (fun s t i h hi => ⟨h.1.step h.2 hi, Mux.lockedToLast_next h.2⟩)
    (s := u.reset) (g := .empty) ⟨⟨rfl, rfl, rfl⟩, fun h => by simp [Mux.reset] at h⟩ hl
  exact hinv.1

/-! ## A dropped beat -/

/-- Two records of each kind, ids of one bit, bytes of data. -/
def byteParams : Params :=
  { wMax := 2, rMax := 2, idWidth := 1, addrWidth := 8, dataWidth := 8, userWidth := 1
    liteMode := false, two_le_wMax := Nat.one_lt_two, two_le_rMax := Nat.one_lt_two }

/-- A write address of a burst of one beat. -/
def byteAw (id : BitVec 1) : AddrMsg byteParams :=
  { id := id, addr := 0x10, len := 0, size := 0, burst := 1, lock := false, cache := 0, prot := 0
    qos := 0, region := 0, user := 0 }

/-- The beat of such a burst. -/
def byteW : WriteMsg byteParams := { data := 0x5a, strb := 1, last := true, user := 0 }

/-- The ports that offer an address and those that offer a beat, and the master port is ready
for both. -/
def writeCycle (aw w : List PortId) : MuxIn byteParams :=
  { aw := fun p => if p ∈ aw then some (byteAw 0) else none
    w := fun p => if p ∈ w then some byteW else none
    ar := fun _ => none
    bReady := fun _ => true
    rReady := fun _ => true
    awReady := true
    wReady := true
    arReady := true
    b := none
    r := none }

/-- The multiplexer with zeros in its registers. -/
def Mux.zero (c : Params) : Mux c :=
  { writeVec := ⟨fun _ => 0, fun _ => 0, fun _ => false⟩
    readVec := ⟨fun _ => 0, fun _ => 0, fun _ => false⟩
    lock := false, lockedPort := 0, awArb := .reset, arArb := .reset }

/-- When the beat is offered together with its address, it is taken and dropped. -/
theorem beat_with_address_dropped :
    ¬ ((losslessMachine byteParams).history Traffic.step (Mux.zero byteParams).reset .empty
      [writeCycle [0] [0]]).Faithful := by
  intro h
  exact absurd h.w (by decide)

/-- Two ports offer their addresses at once: port 1 has its turn, and port 0 waits for its
beat. -/
def twoPortWrites : List (MuxIn byteParams) :=
  [writeCycle [0, 1] [], writeCycle [0] [1], writeCycle [0] [], writeCycle [] [0]]

/-- When the beats follow their addresses, all pass. -/
theorem mux_requests_correspond_twoPorts :
    let t := (losslessMachine byteParams).history Traffic.step (Mux.zero byteParams).reset .empty
      twoPortWrites
    t.wOut = [(some 1, byteW), (some 0, byteW)] ∧ t.Faithful :=
  ⟨by decide +kernel, mux_requests_correspond _ _ (by decide +kernel)⟩

end TaggedRiscv.Nasti
