import Mathlib
import TaggedRiscv.Lib.Arbiter
import TaggedRiscv.Lib.Machine

/-!
# The NASTI multiplexer (`nasti_mux`)

Eight slave ports share one master port. A round-robin arbiter chooses the port whose
write address is forwarded; from then on the multiplexer is locked to that port until
its last data beat. Read addresses are arbitrated on their own. Two tables record the
ids of the open transactions with the ports that issued them, and a response goes to
the port of the first record with its id.
-/

namespace TaggedRiscv.Nasti

open Sync

/-! ## The arbiter -/

/-- The registers of `arbiter_rr`: the last grant, and that it may be held. -/
structure ArbiterRR (n : ℕ) where
  p : Fin n → Bool
  lock : Bool

namespace ArbiterRR

variable {n : ℕ} (a : ArbiterRR n) (req : Fin n → Bool)

/-- Some bit of a vector is set. -/
def any (v : Fin n → Bool) : Bool := (List.finRange n).any v

/-- The positions after the last grant, up to the first request, in two rounds. -/
def mask : ℕ → Bool
  | 0 => false
  | i + 1 =>
    (mask i && !(if h : i % n < n then req ⟨i % n, h⟩ else false)) ||
      (if h : i < n then a.p ⟨i, h⟩ else false)

/-- The last grant is still wanted and is held. -/
def locked : Bool := a.lock && any fun i => a.p i && req i

/-- The requester that is granted. -/
def gnt (enable : Bool) : Fin n → Bool := fun i =>
  enable && if a.locked req then a.p i else req i && (a.mask req i || a.mask req (i + n))

/-- The registers after a cycle. -/
def next (enable : Bool) : ArbiterRR n :=
  { p := if !a.locked req && any (a.gnt req enable) then a.gnt req enable else a.p
    lock := if !a.lock || !any fun i => a.p i && req i then any (a.gnt req enable) else a.lock }

/-- The registers after reset. -/
def reset : ArbiterRR n := { p := fun i => i.val == 0, lock := false }

end ArbiterRR

/-! ## Configuration and messages -/

/-- The parameters of the multiplexer. -/
structure Params where
  wMax : ℕ
  rMax : ℕ
  idWidth : ℕ
  addrWidth : ℕ
  dataWidth : ℕ
  userWidth : ℕ
  liteMode : Bool
  two_le_wMax : 2 ≤ wMax
  two_le_rMax : 2 ≤ rMax

/-- One of the eight slave ports. -/
abbrev PortId := Fin 8

scoped instance neZeroPorts : NeZero 8 := ⟨by decide⟩

/-- The port that a one-hot vector names, or port 0. -/
def toInt (dat : PortId → Bool) : PortId := (firstValid dat).getD 0

variable (c : Params)

/-- The payload of the address channels AW and AR. -/
structure AddrMsg where
  id : BitVec c.idWidth
  addr : BitVec c.addrWidth
  len : BitVec 8
  size : BitVec 3
  burst : BitVec 2
  lock : Bool
  cache : BitVec 4
  prot : BitVec 3
  qos : BitVec 4
  region : BitVec 4
  user : BitVec c.userWidth
  deriving DecidableEq

/-- The payload of the write data channel. -/
structure WriteMsg where
  data : BitVec c.dataWidth
  strb : BitVec (c.dataWidth / 8)
  last : Bool
  user : BitVec c.userWidth
  deriving DecidableEq

/-- The payload of the write response channel. -/
structure WriteResp where
  id : BitVec c.idWidth
  resp : BitVec 2
  user : BitVec c.userWidth
  deriving DecidableEq

/-- The payload of the read data channel. -/
structure ReadResp where
  id : BitVec c.idWidth
  data : BitVec c.dataWidth
  resp : BitVec 2
  last : Bool
  user : BitVec c.userWidth
  deriving DecidableEq

/-! ## Records of open transactions -/

/-- A table of open transactions: their ids, the ports they came from, and which
entries are in use. -/
structure Records (n w : ℕ) where
  id : Fin n → BitVec w
  port : Fin n → PortId
  valid : Fin n → Bool

namespace Records

variable {n w : ℕ} (t : Records n w)

/-- All entries are in use. -/
def full : Bool := (List.finRange n).all t.valid

/-- The first entry that is not in use, or the first of all. -/
def wp [NeZero n] : Fin n := (firstValid fun i => !t.valid i).getD 0

/-- The first entry for an id, or the first of all. -/
def matchIndex [NeZero n] (id : Option (BitVec w)) : Fin n :=
  (firstValid fun i => t.valid i && id == some (t.id i)).getD 0

/-- The port of the first entry for an id. -/
def portFor [NeZero n] (id : Option (BitVec w)) : PortId := t.port (t.matchIndex id)

/-- The table after a cycle in which a transaction may be recorded and one may be
answered. The answer is written last. -/
def next [NeZero n] (opened : Option (BitVec w × PortId)) (id : Option (BitVec w))
    (answered : Bool) : Records n w :=
  { id := match opened with
      | some (i, _) => Function.update t.id t.wp i
      | none => t.id
    port := match opened with
      | some (_, p) => Function.update t.port t.wp p
      | none => t.port
    valid := fun k =>
      if answered && k == t.matchIndex id then false
      else if opened.isSome && k == t.wp then true
      else t.valid k }

end Records

/-! ## The multiplexer -/

/-- The registers of the multiplexer. -/
structure Mux where
  writeVec : Records c.wMax c.idWidth
  readVec : Records c.rMax c.idWidth
  lock : Bool
  lockedPort : PortId
  awArb : ArbiterRR 8
  arArb : ArbiterRR 8

/-- The inputs of a cycle: what the slave ports offer and whether they take responses,
whether the master port takes requests, and its responses. -/
structure MuxIn where
  aw : PortId → Option (AddrMsg c)
  w : PortId → Option (WriteMsg c)
  ar : PortId → Option (AddrMsg c)
  bReady : PortId → Bool
  rReady : PortId → Bool
  awReady : Bool
  wReady : Bool
  arReady : Bool
  b : Option (WriteResp c)
  r : Option (ReadResp c)

variable {c}

instance : NeZero c.wMax := ⟨by have := c.two_le_wMax; omega⟩

instance : NeZero c.rMax := ⟨by have := c.two_le_rMax; omega⟩

namespace Mux

variable (s : Mux c) (i : MuxIn c)

/-- The arbiter of write addresses may grant. -/
def awEnable : Bool := !s.lock && !s.writeVec.full

/-- The port whose write channels are connected. -/
def awPortSel : PortId :=
  if s.lock then s.lockedPort
  else toInt (s.awArb.gnt (fun p => (i.aw p).isSome) s.awEnable)

/-- The port whose read address is connected. -/
def arPortSel : PortId :=
  toInt (s.arArb.gnt (fun p => (i.ar p).isSome) (!s.readVec.full))

/-! ### Outputs -/

/-- The write address on the master port. -/
def mAw : Option (AddrMsg c) := if s.lock then none else i.aw (s.awPortSel i)

/-- The write data on the master port. -/
def mW : Option (WriteMsg c) := if s.lock then i.w (s.awPortSel i) else none

/-- The read address on the master port. -/
def mAr : Option (AddrMsg c) := i.ar (s.arPortSel i)

/-- The ready signals of the write address channels. -/
def sAwReady (p : PortId) : Bool := i.awReady && p == s.awPortSel i

/-- The ready signals of the write data channels. -/
def sWReady (p : PortId) : Bool := i.wReady && p == s.awPortSel i

/-- The ready signals of the read address channels. -/
def sArReady (p : PortId) : Bool := i.arReady && p == s.arPortSel i

/-- The port a write response goes to. -/
def bPort : PortId := s.writeVec.portFor (i.b.map (·.id))

/-- The write responses on the slave ports. -/
def sB (p : PortId) : Option (WriteResp c) := if s.bPort i = p then i.b else none

/-- The write response is taken. -/
def mBReady : Bool := i.bReady (s.bPort i)

/-- The port a read response goes to. -/
def rPort : PortId := s.readVec.portFor (i.r.map (·.id))

/-- The read responses on the slave ports. -/
def sR (p : PortId) : Option (ReadResp c) := if s.rPort i = p then i.r else none

/-- The read response is taken. -/
def mRReady : Bool := i.rReady (s.rPort i)

/-! ### Handshakes -/

/-- The write address handshake of a slave port. -/
def awFire (p : PortId) : Option (AddrMsg c) := if s.sAwReady i p then i.aw p else none

/-- The write data handshake of a slave port. -/
def wFire (p : PortId) : Option (WriteMsg c) := if s.sWReady i p then i.w p else none

/-- The read address handshake of a slave port. -/
def arFire (p : PortId) : Option (AddrMsg c) := if s.sArReady i p then i.ar p else none

/-- The write address handshake of the master port. -/
def mAwFire : Option (AddrMsg c) := if i.awReady then s.mAw i else none

/-- The write data handshake of the master port. -/
def mWFire : Option (WriteMsg c) := if i.wReady then s.mW i else none

/-- The read address handshake of the master port. -/
def mArFire : Option (AddrMsg c) := if i.arReady then s.mAr i else none

/-- The write response is taken from the master port. -/
def bFire : Bool := i.b.isSome && s.mBReady i

/-- The read response is taken from the master port. -/
def rFire : Bool := i.r.isSome && s.mRReady i

/-! ### The clock edge -/

/-- The registers after a cycle. -/
def next : Mux c :=
  { writeVec :=
      s.writeVec.next ((s.mAwFire i).map fun m => (m.id, s.awPortSel i)) (i.b.map (·.id))
        (s.bFire i)
    -- every beat of a burst frees the record, not only the last one
    readVec :=
      s.readVec.next ((s.mArFire i).map fun m => (m.id, s.arPortSel i)) (i.r.map (·.id)) (s.rFire i)
    lock :=
      if (s.awFire i (s.awPortSel i)).isSome then true
      else if (s.wFire i (s.awPortSel i)).any fun m => c.liteMode || m.last then false
      else s.lock
    lockedPort := if (s.awFire i (s.awPortSel i)).isSome then s.awPortSel i else s.lockedPort
    awArb := s.awArb.next (fun p => (i.aw p).isSome) s.awEnable
    arArb := s.arArb.next (fun p => (i.ar p).isSome) (!s.readVec.full) }

/-- The registers after reset; the ones without a reset value hold those of `u`. -/
def reset (u : Mux c) : Mux c :=
  { u with
    writeVec := { u.writeVec with valid := fun _ => false }
    readVec := { u.readVec with valid := fun _ => false }
    lock := false
    awArb := .reset
    arArb := .reset }

end Mux

end TaggedRiscv.Nasti
