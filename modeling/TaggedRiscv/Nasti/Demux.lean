import TaggedRiscv.Nasti.ArbiterRR

/-!
# The NASTI demultiplexer (`nasti_demux`)

One slave port is connected to eight master ports by address. A write address goes to the port of
its section, and that port is locked until the last data beat of the burst; no further address is
taken before. Read addresses go to the port of their section. Responses are arbitrated by
`arbiter_rr`.
-/

namespace TaggedRiscv.Nasti

open Sync

variable {c : Params}

/-! ## Sections -/

variable (c) in
/-- The sections of the ports. A port whose mask is 0 is not in use. The numbers of records in
`c` play no part here. -/
structure AddrMap where
  base : PortId → BitVec c.addrWidth
  mask : PortId → BitVec c.addrWidth

namespace AddrMap

variable (m : AddrMap c)

/-- An address is in the section of a port. -/
def contains (p : PortId) (addr : BitVec c.addrWidth) : Bool :=
  m.mask p != 0 && (addr &&& ~~~m.mask p) == m.base p

/-- The first port whose section an address is in, or port 0. -/
def portMatch (addr : BitVec c.addrWidth) : PortId := (firstValid (m.contains · addr)).getD 0

/-- No address is in two sections. -/
def Disjoint : Prop :=
  ∀ addr p q, m.contains p addr = true → m.contains q addr = true → p = q

variable {m}

/-- An address in a section is matched to its port. -/
theorem portMatch_eq (hm : m.Disjoint) {p : PortId} {addr : BitVec c.addrWidth}
    (hp : m.contains p addr) : m.portMatch addr = p := by
  unfold portMatch
  cases hf : firstValid (m.contains · addr) with
  | some q => exact hm addr q p (valid_of_firstValid hf) hp
  | none => simp [List.find?_eq_none.1 hf p (List.mem_finRange p)] at hp

end AddrMap

/-! ## The demultiplexer -/

/-- The registers of the demultiplexer. -/
structure Demux where
  lock : Bool
  lockedPort : PortId
  bArb : ArbiterRR 8
  rArb : ArbiterRR 8

variable (c) in
/-- The inputs of a cycle: what the slave port offers and whether it takes responses, whether the
master ports take requests, and their responses. -/
structure DemuxIn where
  aw : Option (AddrMsg c)
  w : Option (WriteMsg c)
  ar : Option (AddrMsg c)
  bReady : Bool
  rReady : Bool
  awReady : PortId → Bool
  wReady : PortId → Bool
  arReady : PortId → Bool
  b : PortId → Option (WriteResp c)
  r : PortId → Option (ReadResp c)

namespace Demux

variable (m : AddrMap c) (s : Demux) (i : DemuxIn c)

/-- The port of the write channels. The address is read only when there is one. -/
def awPortSel : PortId :=
  if s.lock then s.lockedPort else (i.aw.map fun a => m.portMatch a.addr).getD 0

/-- The port of the read address. -/
def arPortSel : PortId := (i.ar.map fun a => m.portMatch a.addr).getD 0

/-! ### Requests -/

def mAw (p : PortId) : Option (AddrMsg c) := if !s.lock && s.awPortSel m i == p then i.aw else none

def mW (p : PortId) : Option (WriteMsg c) := if s.lock && s.awPortSel m i == p then i.w else none

def mAr (p : PortId) : Option (AddrMsg c) := if arPortSel m i == p then i.ar else none

def sAwReady : Bool := !s.lock && i.awReady (s.awPortSel m i)

def sWReady : Bool := s.lock && i.wReady (s.awPortSel m i)

def sArReady : Bool := i.arReady (arPortSel m i)

/-! ### Responses -/

/-- The ports in use that have a response. -/
def valid {α : Type} (x : PortId → Option α) (p : PortId) : Bool := m.mask p != 0 && (x p).isSome

/-- The ports that are granted a response. -/
def bGnt : PortId → Bool := s.bArb.gnt (valid m i.b) true

def rGnt : PortId → Bool := s.rArb.gnt (valid m i.r) true

def sB : Option (WriteResp c) := i.b (toInt (s.bGnt m i))

def sR : Option (ReadResp c) := i.r (toInt (s.rGnt m i))

def mBReady (p : PortId) : Bool := i.bReady && s.bGnt m i p

def mRReady (p : PortId) : Bool := i.rReady && s.rGnt m i p

/-! ### Handshakes -/

def sAwFire : Option (AddrMsg c) := if s.sAwReady m i then i.aw else none

def sWFire : Option (WriteMsg c) := if s.sWReady m i then i.w else none

def sArFire : Option (AddrMsg c) := if sArReady m i then i.ar else none

def mAwFire (p : PortId) : Option (AddrMsg c) := if i.awReady p then s.mAw m i p else none

def mWFire (p : PortId) : Option (WriteMsg c) := if i.wReady p then s.mW m i p else none

def mArFire (p : PortId) : Option (AddrMsg c) := if i.arReady p then mAr m i p else none

/-! ### The clock edge -/

/-- The registers after a cycle. -/
def next : Demux :=
  { lock :=
      if (s.sAwFire m i).isSome then true
      else if (s.sWFire m i).any fun d => c.liteMode || d.last then false
      else s.lock
    lockedPort := if (s.sAwFire m i).isSome then s.awPortSel m i else s.lockedPort
    bArb := s.bArb.next (valid m i.b) true
    rArb := s.rArb.next (valid m i.r) true }

/-- The registers after reset; the one without a reset value holds that of `u`. -/
def reset (u : Demux) : Demux := { u with lock := false, bArb := .reset, rArb := .reset }

end Demux

/-! ## The handshakes of a run -/

variable (c) in
/-- The handshakes so far, on the slave port and on every master port. The data beats of the slave
port are listed with the number of bursts that ended before them. -/
structure DemuxLog where
  awIn : List (AddrMsg c)
  awOut : PortId → List (AddrMsg c)
  wIn : List (ℕ × WriteMsg c)
  wOut : PortId → List (WriteMsg c)
  arIn : List (AddrMsg c)
  arOut : PortId → List (AddrMsg c)
  ended : ℕ

namespace DemuxLog

/-- No handshake yet. -/
def empty : DemuxLog c := ⟨[], fun _ => [], [], fun _ => [], [], fun _ => [], 0⟩

/-- The log after a cycle. A burst ends with its last beat, and has one beat in Lite mode. -/
def step (m : AddrMap c) (t : DemuxLog c) (s : Demux) (i : DemuxIn c) : DemuxLog c :=
  { awIn := t.awIn ++ (s.sAwFire m i).toList
    awOut := fun p => t.awOut p ++ (s.mAwFire m i p).toList
    wIn := t.wIn ++ ((s.sWFire m i).map (t.ended, ·)).toList
    wOut := fun p => t.wOut p ++ (s.mWFire m i p).toList
    arIn := t.arIn ++ (Demux.sArFire m i).toList
    arOut := fun p => t.arOut p ++ (Demux.mArFire m i p).toList
    ended := t.ended + if (s.sWFire m i).any fun d => c.liteMode || d.last then 1 else 0 }

/-- The port that a burst goes to: the one of its write address. -/
def burstPort (m : AddrMap c) (t : DemuxLog c) (b : ℕ) : Option PortId :=
  t.awIn[b]?.map fun a => m.portMatch a.addr

/-- Every address is forwarded once, to the port of its section, and every data beat once, to the
port of the write address of its burst, which was there before. -/
structure Routed (m : AddrMap c) (t : DemuxLog c) : Prop where
  aw : ∀ p, t.awOut p = t.awIn.filter fun a => m.portMatch a.addr = p
  ar : ∀ p, t.arOut p = t.arIn.filter fun a => m.portMatch a.addr = p
  w : ∀ p, t.wOut p = (t.wIn.filter fun x => t.burstPort m x.1 = some p).map (·.2)
  burst : ∀ x ∈ t.wIn, x.1 < t.awIn.length

end DemuxLog

/-! ## One cycle -/

namespace Demux

variable {m : AddrMap c} {s : Demux} {i : DemuxIn c} {t : DemuxLog c} {p : PortId}

/-- An address on the port of its section is handed over when it is taken. -/
theorem forward_eq (ready : PortId → Bool) (o : Option (AddrMsg c)) :
    (if ready p then
        if (o.map fun a => m.portMatch a.addr).getD 0 == p then o else none
      else none) =
      (if ready ((o.map fun a => m.portMatch a.addr).getD 0) then o else none).filter
        fun a => m.portMatch a.addr = p := by
  cases o with
  | none => simp
  | some a =>
    by_cases hp : m.portMatch a.addr = p
    · subst hp
      cases hr : ready (m.portMatch a.addr) <;> simp [hr, Option.filter]
    · cases hr : ready (m.portMatch a.addr) <;> simp [hr, hp, Option.filter]

/-- A write address is forwarded in the cycle in which it is taken, to the port of its section. -/
theorem mAwFire_eq :
    s.mAwFire m i p = (s.sAwFire m i).filter fun a => m.portMatch a.addr = p := by
  unfold mAwFire sAwFire mAw sAwReady awPortSel
  cases s.lock with
  | true => simp
  | false => simpa using forward_eq i.awReady i.aw

/-- A read address is forwarded in the cycle in which it is taken, to the port of its section. -/
theorem mArFire_eq : mArFire m i p = (sArFire m i).filter fun a => m.portMatch a.addr = p :=
  forward_eq i.arReady i.ar

/-- A data beat is forwarded in the cycle in which it is taken, to the locked port. -/
theorem mWFire_eq : s.mWFire m i p = if s.lockedPort = p then s.sWFire m i else none := by
  unfold mWFire sWFire mW sWReady awPortSel
  cases s.lock with
  | false => simp
  | true =>
    by_cases hp : s.lockedPort = p
    · subst hp
      simp
    · simp [hp]

theorem sWFire_of_free (h : s.lock = false) : s.sWFire m i = none := by
  simp [sWFire, sWReady, h]

theorem sAwFire_of_lock (h : s.lock) : s.sAwFire m i = none := by
  simp [sAwFire, sAwReady, h]

/-- The port that is locked with a write address is that of its section. -/
theorem awPortSel_of_fire {a : AddrMsg c} (h : s.sAwFire m i = some a) :
    s.awPortSel m i = m.portMatch a.addr := by
  unfold sAwFire sAwReady at h
  cases hl : s.lock with
  | true => simp [hl] at h
  | false =>
    rw [hl] at h
    have haw : i.aw = some a := by
      split at h
      · exact h
      · cases h
    simp [awPortSel, hl, haw]

/-- A locked demultiplexer is in the burst of the last write address and locked to its port; when
it is not locked, the burst of every write address has ended. -/
structure Follows (m : AddrMap c) (s : Demux) (t : DemuxLog c) : Prop where
  locked : s.lock →
    t.awIn.length = t.ended + 1 ∧ t.burstPort m t.ended = some s.lockedPort
  free : s.lock = false → t.awIn.length = t.ended

theorem follows_next (h : s.Follows m t) : (s.next m i).Follows m (t.step m s i) := by
  cases hl : s.lock with
  | false =>
    have hw := sWFire_of_free (m := m) (i := i) hl
    have hlen := h.free hl
    cases haw : s.sAwFire m i with
    | none =>
      -- nothing happens
      refine ⟨fun hlock => ?_, fun _ => by simp [DemuxLog.step, haw, hw, hlen]⟩
      simp [next, haw, hw, hl] at hlock
    | some a =>
      -- a burst begins
      refine ⟨fun _ => ⟨by simp [DemuxLog.step, haw, hw, hlen], ?_⟩, fun hfree => ?_⟩
      · simp [DemuxLog.step, DemuxLog.burstPort, next, haw, hw, ← hlen, awPortSel_of_fire haw]
      · simp [next, haw] at hfree
  | true =>
    have haw := sAwFire_of_lock (m := m) (i := i) hl
    obtain ⟨hlen, hport⟩ := h.locked hl
    cases hlast : (s.sWFire m i).any fun d => c.liteMode || d.last with
    | true =>
      -- a burst ends
      refine ⟨fun hlock => ?_, fun _ => by simp [DemuxLog.step, haw, hlast, hlen]⟩
      simp [next, haw, hlast] at hlock
    | false =>
      refine ⟨fun _ => ?_, fun hfree => ?_⟩
      · rw [DemuxLog.burstPort] at hport ⊢
        simpa only [DemuxLog.step, next, haw, hlast, Option.toList_none, List.append_nil,
          Option.isSome_none, Bool.false_eq_true, if_false, Nat.add_zero] using ⟨hlen, hport⟩
      · simp [next, haw, hlast, hl] at hfree

end Demux

namespace DemuxLog

variable {m : AddrMap c} {s : Demux} {i : DemuxIn c} {t : DemuxLog c} {p : PortId}

/-- The port of a burst is known with its write address and does not change. -/
theorem burstPort_step {b : ℕ} (hb : b < t.awIn.length) :
    (t.step m s i).burstPort m b = t.burstPort m b := by
  simp [burstPort, step, List.getElem?_append_left hb]

theorem toList_filter {α : Type*} (o : Option α) (q : α → Bool) :
    (o.filter q).toList = o.toList.filter q := by
  cases o with
  | none => rfl
  | some a => cases h : q a <;> simp [Option.filter, h]

theorem Routed.next (h : t.Routed m) (hf : s.Follows m t) : (t.step m s i).Routed m := by
  have hburst : ∀ x ∈ (t.step m s i).wIn, x.1 < t.awIn.length := by
    intro x hx
    rcases List.mem_append.1 hx with hx | hx
    · exact h.burst x hx
    · -- a beat is taken in the burst of the last write address
      cases hl : s.lock with
      | false => simp [Demux.sWFire_of_free hl] at hx
      | true =>
        obtain ⟨d, -, rfl⟩ := by simpa using hx
        have := (hf.locked hl).1
        simp only
        omega
  refine ⟨fun p => ?_, fun p => ?_, fun p => ?_, fun x hx => ?_⟩
  · simp only [step, Demux.mAwFire_eq, h.aw, List.filter_append, toList_filter]
  · simp only [step, Demux.mArFire_eq, h.ar, List.filter_append, toList_filter]
  · have hsame : ((t.step m s i).wIn.filter fun x => (t.step m s i).burstPort m x.1 = some p) =
        (t.step m s i).wIn.filter fun x => t.burstPort m x.1 = some p :=
      List.filter_congr fun x hx => by rw [burstPort_step (hburst x hx)]
    rw [hsame]
    simp only [step, h.w, List.filter_append, List.map_append, Demux.mWFire_eq]
    congr 1
    cases hw : s.sWFire m i with
    | none => simp
    | some d =>
      have hl : s.lock := by
        by_contra hl
        simp [Demux.sWFire_of_free (Bool.eq_false_iff.2 hl)] at hw
      by_cases hp : s.lockedPort = p <;> simp [(hf.locked hl).2, hp]
  · exact (hburst x hx).trans_le (by simp [step])

end DemuxLog

/-! ## Runs -/

/-- The demultiplexer with its log. -/
def demuxMachine (m : AddrMap c) : Machine (Demux × DemuxLog c) (DemuxIn c) where
  ok _ _ := True
  next s i := (s.1.next m i, s.2.step m s.1 i)

theorem follows_reset (m : AddrMap c) (u : Demux) : u.reset.Follows m .empty :=
  ⟨fun h => by simp [Demux.reset] at h, fun _ => rfl⟩

theorem routed_empty (m : AddrMap c) : DemuxLog.Routed m .empty :=
  ⟨fun _ => rfl, fun _ => rfl, fun _ => rfl, fun _ hx => by simp [DemuxLog.empty] at hx⟩

/-- In every run all addresses are forwarded once, to the port whose section they are in, and the
data beats of a burst once and in order, to the port of its write address. -/
theorem demux_routes_bursts {m : AddrMap c} (hm : m.Disjoint) (u : Demux) (is : List (DemuxIn c)) :
    ((demuxMachine m).run (u.reset, .empty) is).2.Routed m ∧
      ∀ p addr, m.contains p addr = true → m.portMatch addr = p := by
  refine ⟨?_, fun p addr hp => AddrMap.portMatch_eq hm hp⟩
  have hinv := Machine.invariant_run (m := demuxMachine m)
    (P := fun s => s.1.Follows m s.2 ∧ s.2.Routed m)
    (fun s i hs _ => ⟨Demux.follows_next hs.1, hs.2.next hs.1⟩)
    (s := (u.reset, .empty)) ⟨follows_reset m u, routed_empty m⟩
    (Machine.legal_of_forall_ok _ (fun _ _ => trivial) _ is)
  exact hinv.2

/-- Addresses of 8 bits. -/
def demuxParams : Params where
  wMax := 2
  rMax := 2
  idWidth := 1
  addrWidth := 8
  dataWidth := 8
  userWidth := 1
  liteMode := false
  two_le_wMax := Nat.one_lt_two
  two_le_rMax := Nat.one_lt_two

/-- Port 1 has the upper half of the addresses and port 2 the lower one. -/
def halves : AddrMap demuxParams where
  base p := if p = 1 then 0x80 else 0
  mask p := if p = 1 ∨ p = 2 then 0x7f else 0

/-- A cycle in which everyone is ready. -/
def demuxCycle (aw : Option (BitVec 8)) (w : Option Bool) : DemuxIn demuxParams :=
  { aw := aw.map fun addr =>
      { id := 0, addr := addr, len := 1, size := 0, burst := 1, lock := false, cache := 0
        prot := 0, qos := 0, region := 0, user := 0 }
    w := w.map fun last => { data := 0, strb := 1, last := last, user := 0 }
    ar := none, bReady := true, rReady := true, awReady := fun _ => true
    wReady := fun _ => true, arReady := fun _ => true, b := fun _ => none, r := fun _ => none }

/-- A burst of two beats to port 1 and one of one beat to port 2, whose address waits. -/
def twoBursts : List (DemuxIn demuxParams) :=
  [demuxCycle (some 0x90) (some false), demuxCycle (some 0x10) (some false),
    demuxCycle (some 0x10) (some true), demuxCycle (some 0x10) (some true),
    demuxCycle none (some true)]

theorem demux_routes_bursts_two :
    let t := ((demuxMachine halves).run
      (({ lock := true, lockedPort := 0, bArb := .reset, rArb := .reset } : Demux).reset, .empty)
      twoBursts).2
    ((t.wOut 1).map (·.last), (t.wOut 2).map (·.last)) = ([false, true], [true]) ∧
      t.Routed halves := by
  refine ⟨by decide +kernel, (demux_routes_bursts ?_ _ _).1⟩
  intro addr p q
  revert addr p q
  decide +kernel

end TaggedRiscv.Nasti
