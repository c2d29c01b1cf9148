import Mathlib.Data.Nat.Log
import TaggedRiscv.Lib.Slots
import TaggedRiscv.Nasti.Mux

/-!
# The NASTI buffer (`nasti_buf`)

A buffer of `DEPTH` slots on each of the five channels between a slave and a master port. The
slots of a channel are written and read round and round, by a write and a read pointer that turn
at `DEPTH`, and each slot has a bit that says whether it is in use. The address and data channels
of requests are buffered where `BUF_REQ` is set, those of responses where `BUF_RESP` is; a channel
that is not buffered is a wire.

All arrays of a channel are written at one index in one cycle, so they are one array of payloads.
-/

namespace TaggedRiscv.Nasti

open Sync

/-! ## One channel -/

/-- The registers of a channel with `d` slots. -/
structure ChannelBuf (d : ℕ) (P : Type) where
  q : ℕ → P
  valid : ℕ → Bool
  wp : BitVec (Nat.clog 2 d)
  rp : BitVec (Nat.clog 2 d)

/-- What a channel gets in a cycle: a payload on the input side, and whether the output side takes
one. -/
structure ChannelIn (P : Type) where
  input : Option P
  outReady : Bool

namespace ChannelBuf

variable {d : ℕ} {P : Type} (b : ChannelBuf d P)

/-- The next slot. -/
def incr (d : ℕ) (p : BitVec (Nat.clog 2 d)) : BitVec (Nat.clog 2 d) :=
  let pIncr : BitVec (Nat.clog 2 d + 1) := p.setWidth _ + 1
  if d ≤ pIncr.toNat then (pIncr - BitVec.ofNat _ d).setWidth _ else pIncr.setWidth _

/-- Something comes in. -/
def enqueue (x : P) : ChannelBuf d P :=
  { b with
    q := Function.update b.q b.wp.toNat x
    valid := Function.update b.valid b.wp.toNat true
    wp := incr d b.wp }

/-- Something goes out. -/
def dequeue : ChannelBuf d P :=
  { b with
    valid := Function.update b.valid b.rp.toNat false
    rp := incr d b.rp }

section Cycle

variable (buffered : Bool) (i : ChannelIn P)

/-- The input side is ready. -/
def ready : Bool := if buffered then !b.valid b.wp.toNat else i.outReady

/-- The output side. -/
def out : Option P :=
  if buffered then (if b.valid b.rp.toNat then some (b.q b.rp.toNat) else none) else i.input

def inFire : Option P := if b.ready buffered i then i.input else none

def outFire : Option P := if i.outReady then b.out buffered i else none

/-- The clock edge. What goes out is read before what comes in is written, and the two use
different pointers. -/
def next : ChannelBuf d P :=
  let b' := ((b.inFire buffered i).map b.enqueue).getD b
  if (b.outFire buffered i).isSome then b'.dequeue else b'

end Cycle

/-- The pointers and bits after reset. -/
structure Reset : Prop where
  wp : b.wp = 0
  rp : b.rp = 0
  valid : ∀ i, b.valid i = false

end ChannelBuf

/-! ## The buffer -/

structure BufParams where
  depth : ℕ
  bufReq : Bool
  bufResp : Bool

namespace BufParams

variable (k : BufParams)

def depthLoc : ℕ := if k.depth = 0 then 1 else k.depth

def reqBuffered : Bool := k.bufReq && decide (0 < k.depth)

def respBuffered : Bool := k.bufResp && decide (0 < k.depth)

end BufParams

variable (k : BufParams) (c : Params)

/-- The registers. The numbers of records in `c` play no part here. -/
structure NastiBuf where
  aw : ChannelBuf k.depthLoc (AddrMsg c)
  ar : ChannelBuf k.depthLoc (AddrMsg c)
  w : ChannelBuf k.depthLoc (WriteMsg c)
  b : ChannelBuf k.depthLoc (WriteResp c)
  r : ChannelBuf k.depthLoc (ReadResp c)

/-- The inputs of a cycle: requests come from the slave port, responses from the master port. -/
structure NastiBufIn where
  aw : ChannelIn (AddrMsg c)
  ar : ChannelIn (AddrMsg c)
  w : ChannelIn (WriteMsg c)
  b : ChannelIn (WriteResp c)
  r : ChannelIn (ReadResp c)

/-- What came in and what went out on a channel. -/
structure ChannelLog (P : Type) where
  ins : List P
  outs : List P

/-- The logs of the five channels. -/
structure NastiBufLog where
  aw : ChannelLog (AddrMsg c)
  ar : ChannelLog (AddrMsg c)
  w : ChannelLog (WriteMsg c)
  b : ChannelLog (WriteResp c)
  r : ChannelLog (ReadResp c)

namespace ChannelLog

variable {d : ℕ} {P : Type}

def empty : ChannelLog P := ⟨[], []⟩

def step (g : ChannelLog P) (s : ChannelBuf d P) (buffered : Bool) (i : ChannelIn P) :
    ChannelLog P :=
  ⟨g.ins ++ (s.inFire buffered i).toList, g.outs ++ (s.outFire buffered i).toList⟩

/-- A channel of `d` slots is a FIFO: what went out is what came in first, at most `d` items are
held, it refuses an item exactly when `d` are held, and offers one exactly when one is held. -/
structure Fifo (g : ChannelLog P) (s : ChannelBuf d P) (buffered : Bool) : Prop where
  outs_prefix_ins : g.outs <+: g.ins
  bounded : g.ins.length ≤ g.outs.length + d
  refused_iff : ∀ i, s.ready buffered i = false ↔ g.ins.length = g.outs.length + d
  offered_iff : ∀ i, (s.out buffered i).isSome ↔ g.outs.length < g.ins.length

end ChannelLog

variable {k c}

namespace NastiBuf

def next (s : NastiBuf k c) (i : NastiBufIn c) : NastiBuf k c where
  aw := s.aw.next k.reqBuffered i.aw
  ar := s.ar.next k.reqBuffered i.ar
  w := s.w.next k.reqBuffered i.w
  b := s.b.next k.respBuffered i.b
  r := s.r.next k.respBuffered i.r

structure Reset (s : NastiBuf k c) : Prop where
  aw : s.aw.Reset
  ar : s.ar.Reset
  w : s.w.Reset
  b : s.b.Reset
  r : s.r.Reset

end NastiBuf

namespace NastiBufLog

def empty : NastiBufLog c := ⟨.empty, .empty, .empty, .empty, .empty⟩

def step (g : NastiBufLog c) (s : NastiBuf k c) (i : NastiBufIn c) : NastiBufLog c where
  aw := g.aw.step s.aw k.reqBuffered i.aw
  ar := g.ar.step s.ar k.reqBuffered i.ar
  w := g.w.step s.w k.reqBuffered i.w
  b := g.b.step s.b k.respBuffered i.b
  r := g.r.step s.r k.respBuffered i.r

end NastiBufLog

variable (k c) in
/-- The buffer with its logs, between any two ports. -/
def nastiBufMachine : Machine (NastiBuf k c × NastiBufLog c) (NastiBufIn c) where
  ok _ _ := True
  next x i := (x.1.next i, x.2.step x.1 i)

/-! ## The pointers -/

namespace ChannelBuf

variable {d : ℕ} {P : Type}

/-- The pointers count modulo the depth, whether or not that is a power of two. -/
theorem toNat_incr {p : BitVec (Nat.clog 2 d)} (hp : p.toNat < d) :
    (incr d p).toNat = (p.toNat + 1) % d := by
  have hd : d ≤ 2 ^ Nat.clog 2 d := Nat.le_pow_clog (by decide) d
  have hpIncr : (p.setWidth (Nat.clog 2 d + 1) + 1).toNat = p.toNat + 1 := by
    have hone : (1 : BitVec (Nat.clog 2 d + 1)).toNat = 1 := by simp
    rw [BitVec.toNat_add, BitVec.toNat_setWidth, hone, Nat.pow_succ,
      Nat.mod_eq_of_lt (a := p.toNat) (by omega), Nat.mod_eq_of_lt (by omega)]
  simp only [incr, hpIncr]
  by_cases hturn : d ≤ p.toNat + 1
  · -- the last slot is followed by the first
    have hlast : p.toNat + 1 = d := by omega
    have hzero : p.setWidth (Nat.clog 2 d + 1) + 1 = BitVec.ofNat _ d := by
      apply BitVec.eq_of_toNat_eq
      rw [hpIncr, hlast, BitVec.toNat_ofNat, Nat.mod_eq_of_lt (by rw [Nat.pow_succ]; omega)]
    rw [if_pos hturn, hlast, Nat.mod_self, hzero]
    simp
  · rw [if_neg hturn, BitVec.toNat_setWidth, hpIncr, Nat.mod_eq_of_lt (a := p.toNat + 1) (by omega),
      Nat.mod_eq_of_lt (by omega)]

/-! ## A buffered channel -/

/-- The slots from the read pointer on hold what came in and did not go out. -/
structure Tracks (b : ChannelBuf d P) (g : ChannelLog P) (start : ℕ) (held : List P) : Prop where
  ins_eq : g.ins = g.outs ++ held
  holds : Slots.Holds d b.q start held
  rp_eq : b.rp.toNat = start % d
  wp_eq : b.wp.toNat = (start + held.length) % d
  valid_iff : ∀ j, b.valid j ↔ Slots.Occupied d start held.length j

variable {b : ChannelBuf d P} {g : ChannelLog P} {start : ℕ} {held : List P}

theorem Reset.tracks (h : b.Reset) : b.Tracks .empty 0 [] where
  ins_eq := rfl
  holds := Slots.holds_nil
  rp_eq := by simp [h.rp]
  wp_eq := by simp [h.wp]
  valid_iff j := by simp [h.valid]

namespace Tracks

section

variable (h : b.Tracks g start held)

include h

theorem ready_iff (hd : 0 < d) (i : ChannelIn P) : b.ready true i ↔ held.length < d := by
  have hwp := h.valid_iff b.wp.toNat
  rw [h.wp_eq] at hwp
  simp only [ready, if_true, h.wp_eq]
  rcases h.holds.length_le.lt_or_eq with hlt | hfull
  · have hfree : b.valid ((start + held.length) % d) = false := by
      rw [← Bool.not_eq_true, hwp]
      exact Slots.not_occupied_end hlt
    simp [hfree, hlt]
  · have hused : b.valid ((start + held.length) % d) = true := by
      rw [hwp, hfull]
      exact Slots.occupied_end hd
    rw [hused, hfull]
    simp

theorem out_eq (i : ChannelIn P) : b.out true i = held.head? := by
  have hrp := h.valid_iff b.rp.toNat
  rw [h.rp_eq] at hrp
  simp only [out, if_true, h.rp_eq]
  cases hheld : held with
  | nil =>
    have hfree : b.valid (start % d) = false := by
      rw [← Bool.not_eq_true, hrp, hheld]
      exact Slots.not_occupied_zero
    simp [hfree]
  | cons x rest =>
    have hused : b.valid (start % d) = true := by
      rw [hrp, hheld]
      exact Slots.occupied_start (Nat.succ_pos _)
    have hx : b.q (start % d) = x := (hheld ▸ h.holds).head
    simp [hused, hx]

theorem fifo (hd : 0 < d) : g.Fifo b true where
  outs_prefix_ins := ⟨held, h.ins_eq.symm⟩
  bounded := by
    rw [h.ins_eq, List.length_append]
    exact Nat.add_le_add_left h.holds.length_le _
  refused_iff i := by
    rw [← Bool.not_eq_true, h.ready_iff hd, h.ins_eq, List.length_append, Nat.add_left_cancel_iff]
    have hle := h.holds.length_le
    omega
  offered_iff i := by
    rw [h.out_eq, h.ins_eq, List.length_append]
    cases held <;> simp

theorem enqueue (hroom : held.length < d) (x : P) :
    (b.enqueue x).Tracks ⟨g.ins ++ [x], g.outs⟩ start (held ++ [x]) where
  ins_eq := by rw [h.ins_eq, List.append_assoc]
  holds := by
    rw [ChannelBuf.enqueue, h.wp_eq]
    exact h.holds.concat hroom x
  rp_eq := h.rp_eq
  wp_eq := by
    have hlt : b.wp.toNat < d := h.wp_eq ▸ Nat.mod_lt _ (by omega)
    rw [ChannelBuf.enqueue, toNat_incr hlt, h.wp_eq, Nat.mod_add_mod, List.length_append]
    rfl
  valid_iff j := by
    rw [List.length_append, List.length_singleton, Slots.occupied_succ, ← h.valid_iff,
      ChannelBuf.enqueue, h.wp_eq]
    by_cases hj : j = (start + held.length) % d
    · simp [hj]
    · simp [hj]

end

theorem dequeue {x : P} (h : b.Tracks g start (x :: held)) :
    b.dequeue.Tracks ⟨g.ins, g.outs ++ [x]⟩ (start + 1) held where
  ins_eq := by rw [h.ins_eq, List.append_assoc, List.singleton_append]
  holds := h.holds.tail
  rp_eq := by
    have hpos : 0 < d := (Nat.succ_pos _).trans_le h.holds.length_le
    have hlt : b.rp.toNat < d := h.rp_eq ▸ Nat.mod_lt _ hpos
    rw [ChannelBuf.dequeue, toNat_incr hlt, h.rp_eq, Nat.mod_add_mod]
  wp_eq := by rw [ChannelBuf.dequeue, h.wp_eq, List.length_cons, Nat.add_right_comm, Nat.add_assoc]
  valid_iff j := by
    have hlt : held.length < d := h.holds.length_le
    rw [Slots.occupied_tail hlt, ← List.length_cons (a := x), ← h.valid_iff, ChannelBuf.dequeue,
      h.rp_eq]
    by_cases hj : j = start % d
    · simp [hj]
    · simp [hj]

/-- A cycle takes in at the end and gives out at the front. -/
theorem next (h : b.Tracks g start held) (hd : 0 < d) (i : ChannelIn P) :
    ∃ start' held', (b.next true i).Tracks (g.step b true i) start' held' := by
  -- what comes in finds room
  obtain ⟨held₁, hpre, h₁⟩ : ∃ held₁, held <+: held₁ ∧
      (((b.inFire true i).map b.enqueue).getD b).Tracks
        ⟨g.ins ++ (b.inFire true i).toList, g.outs⟩ start held₁ := by
    cases hin : b.inFire true i with
    | none => exact ⟨held, List.prefix_rfl, by simpa using h⟩
    | some x =>
      have hready : b.ready true i := by
        by_contra hready
        simp [inFire, hready] at hin
      exact ⟨held ++ [x], List.prefix_append _ _, h.enqueue ((h.ready_iff hd i).1 hready) x⟩
  unfold ChannelBuf.next ChannelLog.step
  cases hout : b.outFire true i with
  | none => exact ⟨start, held₁, by simpa using h₁⟩
  | some y =>
    -- what goes out is the first item held
    have hy : held.head? = some y := by
      rw [← h.out_eq i]
      unfold outFire at hout
      split_ifs at hout with hready
      exact hout
    obtain ⟨rest, rfl⟩ := List.head?_eq_some_iff.1 hy
    obtain ⟨t, rfl⟩ := hpre
    exact ⟨start + 1, rest ++ t, h₁.dequeue⟩

end Tracks

end ChannelBuf

/-! ## All channels -/

/-- A channel is a FIFO with what it holds in its slots, if it is buffered. -/
def ChannelBuf.Buffers {d : ℕ} {P : Type} (b : ChannelBuf d P) (g : ChannelLog P)
    (buffered : Bool) : Prop :=
  buffered = true → ∃ start held, b.Tracks g start held

namespace ChannelBuf

variable {d : ℕ} {P : Type} {b : ChannelBuf d P} {g : ChannelLog P} {buffered : Bool}

theorem Reset.buffers (h : b.Reset) : b.Buffers .empty buffered := fun _ => ⟨0, [], h.tracks⟩

theorem Buffers.next (h : b.Buffers g buffered) (hd : 0 < d) (i : ChannelIn P) :
    (b.next buffered i).Buffers (g.step b buffered i) buffered := by
  rintro rfl
  obtain ⟨start, held, ht⟩ := h rfl
  exact ht.next hd i

theorem Buffers.fifo (h : b.Buffers g buffered) (hd : 0 < d) (hb : buffered) :
    g.Fifo b buffered := by
  obtain ⟨start, held, ht⟩ := h hb
  exact hb ▸ ht.fifo hd

end ChannelBuf

/-- In every run from reset, every buffered channel is a FIFO of `DEPTH` slots. -/
theorem nasti_buf_fifo (hdepth : 2 ≤ k.depth) (s : NastiBuf k c) (hs : s.Reset)
    (is : List (NastiBufIn c)) :
    let x := (nastiBufMachine k c).run (s, .empty) is
    k.depthLoc = k.depth ∧
      (k.bufReq = true → x.2.aw.Fifo x.1.aw k.reqBuffered ∧ x.2.ar.Fifo x.1.ar k.reqBuffered ∧
        x.2.w.Fifo x.1.w k.reqBuffered) ∧
      (k.bufResp = true → x.2.b.Fifo x.1.b k.respBuffered ∧ x.2.r.Fifo x.1.r k.respBuffered) := by
  intro x
  have hloc : k.depthLoc = k.depth := if_neg (by omega)
  have hd : 0 < k.depthLoc := by omega
  obtain ⟨haw, har, hw, hb, hr⟩ : x.1.aw.Buffers x.2.aw k.reqBuffered ∧
      x.1.ar.Buffers x.2.ar k.reqBuffered ∧ x.1.w.Buffers x.2.w k.reqBuffered ∧
      x.1.b.Buffers x.2.b k.respBuffered ∧ x.1.r.Buffers x.2.r k.respBuffered :=
    Machine.invariant_run (m := nastiBufMachine k c)
      (P := fun y => y.1.aw.Buffers y.2.aw k.reqBuffered ∧
        y.1.ar.Buffers y.2.ar k.reqBuffered ∧ y.1.w.Buffers y.2.w k.reqBuffered ∧
        y.1.b.Buffers y.2.b k.respBuffered ∧ y.1.r.Buffers y.2.r k.respBuffered)
      (fun _ i h _ => ⟨h.1.next hd i.aw, h.2.1.next hd i.ar, h.2.2.1.next hd i.w,
        h.2.2.2.1.next hd i.b, h.2.2.2.2.next hd i.r⟩)
      ⟨hs.aw.buffers, hs.ar.buffers, hs.w.buffers, hs.b.buffers, hs.r.buffers⟩
      (Machine.legal_of_forall_ok _ (fun _ _ => trivial) _ is)
  have hdec : decide (0 < k.depth) = true := decide_eq_true (by omega)
  refine ⟨hloc, fun hreq => ?_, fun hresp => ?_⟩
  · have hbuf : k.reqBuffered = true := by simp [BufParams.reqBuffered, hreq, hdec]
    exact ⟨haw.fifo hd hbuf, har.fifo hd hbuf, hw.fifo hd hbuf⟩
  · have hbuf : k.respBuffered = true := by simp [BufParams.respBuffered, hresp, hdec]
    exact ⟨hb.fifo hd hbuf, hr.fifo hd hbuf⟩

/-- Three slots for every channel. -/
def threeSlots : BufParams := ⟨3, true, true⟩

def bufParams : Params where
  wMax := 2
  rMax := 2
  idWidth := 1
  addrWidth := 8
  dataWidth := 8
  userWidth := 1
  liteMode := false
  two_le_wMax := le_rfl
  two_le_rMax := le_rfl

def emptyBuf {P : Type} (x : P) : ChannelBuf threeSlots.depthLoc P :=
  ⟨fun _ => x, fun _ => false, 0, 0⟩

theorem emptyBuf_reset {P : Type} (x : P) : (emptyBuf x).Reset := ⟨rfl, rfl, fun _ => rfl⟩

def resetBuf : NastiBuf threeSlots bufParams where
  aw := emptyBuf ⟨0, 0, 0, 0, 0, false, 0, 0, 0, 0, 0⟩
  ar := emptyBuf ⟨0, 0, 0, 0, 0, false, 0, 0, 0, 0, 0⟩
  w := emptyBuf ⟨0, 0, false, 0⟩
  b := emptyBuf ⟨0, 0, 0⟩
  r := emptyBuf ⟨0, 0, 0, false, 0⟩

/-- A cycle in which write data is offered, and taken if `ready` is set. -/
def beatCycle (data : BitVec 8) (ready : Bool) : NastiBufIn bufParams where
  aw := ⟨none, false⟩
  ar := ⟨none, false⟩
  w := ⟨some ⟨data, 1, false, 0⟩, ready⟩
  b := ⟨none, false⟩
  r := ⟨none, false⟩

/-- The buffer fills, refuses a fourth item, gives one out while it refuses, and turns. -/
def fillAndTurn : List (NastiBufIn bufParams) :=
  [beatCycle 1 false, beatCycle 2 false, beatCycle 3 false, beatCycle 4 true, beatCycle 5 true,
    beatCycle 6 false]

theorem nasti_buf_fifo_fillAndTurn :
    let x := (nastiBufMachine threeSlots bufParams).run (resetBuf, .empty) fillAndTurn
    x.2.w.ins.map (·.data.toNat) = [1, 2, 3, 5, 6] ∧ x.2.w.outs.map (·.data.toNat) = [1, 2] ∧
      x.2.w.Fifo x.1.w true :=
  ⟨by decide +kernel, by decide +kernel, ((nasti_buf_fifo (k := threeSlots) (by decide) resetBuf
      ⟨emptyBuf_reset _, emptyBuf_reset _, emptyBuf_reset _, emptyBuf_reset _, emptyBuf_reset _⟩
      fillAndTurn).2.1 rfl).2.2⟩

end TaggedRiscv.Nasti
