import TaggedRiscv.Nasti.Mux
import TaggedRiscv.Lib.Packed
import TaggedRiscv.Lib.Xacts

/-!
# The bridge from NASTI-Lite to NASTI (`lite_nasti_reader`, `lite_nasti_writer`)

The bridge passes the requests of a Lite master on to a NASTI slave whose data is as wide or
wider. The reader picks the addressed word out of the wide one, so it records the addresses of the
open reads by id.

An answer is offered to the Lite master in the cycle in which the slave offers it, and its record
is given up when the master takes it. But the bridge tells the slave that it takes the answer
whether the master does or not (`nasti_r_ready = |resp_match`). An answer that comes when the
master is not ready is lost, and as its record stays its id is blocked from then on.
-/

namespace TaggedRiscv.Nasti

open Sync

/-! ## Parameters and messages -/

/-- The parameters of the bridge. The Lite data has `2 ^ byteBits` bytes, the NASTI data
`2 ^ wordBits` times as many. -/
structure LiteNastiParams where
  maxTransaction : ℕ
  idWidth : ℕ
  addrWidth : ℕ
  userWidth : ℕ
  byteBits : ℕ
  wordBits : ℕ
  two_le_maxTransaction : 2 ≤ maxTransaction

namespace LiteNastiParams

variable (p : LiteNastiParams)

/-- `LITE_DATA_WIDTH`. -/
abbrev liteWidth : ℕ := 2 ^ p.byteBits * 8

/-- `NASTI_DATA_WIDTH`. -/
abbrev nastiWidth : ℕ := 2 ^ p.wordBits * p.liteWidth

/-- The parameters of the NASTI side. -/
abbrev nasti : Params where
  wMax := p.maxTransaction
  rMax := p.maxTransaction
  idWidth := p.idWidth
  addrWidth := p.addrWidth
  dataWidth := p.nastiWidth
  userWidth := p.userWidth
  liteMode := false
  two_le_wMax := p.two_le_maxTransaction
  two_le_rMax := p.two_le_maxTransaction

instance : NeZero p.maxTransaction := ⟨by have := p.two_le_maxTransaction; omega⟩

/-- `addr[$clog2(NASTI_DATA_WIDTH/8)-1:$clog2(LITE_DATA_WIDTH/8)]`: the word an address selects. -/
def wordSelect (addr : BitVec p.addrWidth) : BitVec p.wordBits :=
  addr.extractLsb' p.byteBits p.wordBits

/-- The address of the wide word. -/
def nastiAddr (addr : BitVec p.addrWidth) : BitVec p.addrWidth :=
  if p.nastiWidth = p.liteWidth then addr
  else addr >>> (p.byteBits + p.wordBits) <<< (p.byteBits + p.wordBits)

/-- The reader's choice out of the wide word. -/
def liteData (data : BitVec p.nastiWidth) (addr : BitVec p.addrWidth) : BitVec p.liteWidth :=
  if p.nastiWidth = p.liteWidth then data.setWidth p.liteWidth
  else (data >>> (p.liteWidth * (p.wordSelect addr).toNat)).setWidth p.liteWidth

/-- The writer's word in its place. -/
def nastiData (data : BitVec p.liteWidth) (addr : BitVec p.addrWidth) : BitVec p.nastiWidth :=
  if p.nastiWidth = p.liteWidth then data.setWidth p.nastiWidth
  else data.setWidth p.nastiWidth <<< (p.liteWidth * (p.wordSelect addr).toNat)

/-- The writer's byte mask in its place. -/
def nastiWmask (mask : BitVec (p.liteWidth / 8)) (addr : BitVec p.addrWidth) :
    BitVec (p.nastiWidth / 8) :=
  if p.nastiWidth = p.liteWidth then mask.setWidth (p.nastiWidth / 8)
  else mask.setWidth (p.nastiWidth / 8) <<< (p.liteWidth / 8 * (p.wordSelect addr).toNat)

/-- The word of the wide one that an address is in: number `addr / bytes per word`, counted from
the beginning of the wide word. -/
def addressedWord (data : BitVec p.nastiWidth) (addr : BitVec p.addrWidth) : BitVec p.liteWidth :=
  Packed.fromBits data ⟨addr.toNat / 2 ^ p.byteBits % 2 ^ p.wordBits,
    Nat.mod_lt _ (Nat.two_pow_pos p.wordBits)⟩

theorem toNat_wordSelect (addr : BitVec p.addrWidth) :
    (p.wordSelect addr).toNat = addr.toNat / 2 ^ p.byteBits % 2 ^ p.wordBits := by
  rw [wordSelect, BitVec.extractLsb'_toNat, Nat.shiftRight_eq_div_pow]

/-- The reader passes the addressed word on, also where there is only one. -/
theorem liteData_eq (data : BitVec p.nastiWidth) (addr : BitVec p.addrWidth) :
    p.liteData data addr = p.addressedWord data addr := by
  have hshift : ∀ k : ℕ, data.extractLsb' (k * p.liteWidth) p.liteWidth =
      (data >>> (p.liteWidth * k)).setWidth p.liteWidth := by
    intro k
    apply BitVec.eq_of_getLsbD_eq
    intro j hj
    simp [hj, Nat.mul_comm]
  have hword : p.addressedWord data addr =
      (data >>> (p.liteWidth * (p.wordSelect addr).toNat)).setWidth p.liteWidth := by
    rw [toNat_wordSelect]
    exact hshift _
  rw [hword]
  unfold liteData
  split
  case isFalse => rfl
  case isTrue heq =>
    -- one word to choose from: the shift is by nothing
    have hone : 2 ^ p.wordBits = 1 :=
      Nat.eq_of_mul_eq_mul_right (by positivity : 0 < p.liteWidth) (by rw [one_mul]; exact heq)
    have hzero : (p.wordSelect addr).toNat = 0 := by
      have := (p.wordSelect addr).isLt
      omega
    rw [hzero, Nat.mul_zero, BitVec.ushiftRight_zero]

end LiteNastiParams

variable (p : LiteNastiParams)

/-- The payload of the Lite address channels. -/
structure LiteAddr where
  id : BitVec p.idWidth
  addr : BitVec p.addrWidth
  prot : BitVec 3
  qos : BitVec 4
  region : BitVec 4
  user : BitVec p.userWidth
  deriving DecidableEq

structure LiteWrite where
  data : BitVec p.liteWidth
  strb : BitVec (p.liteWidth / 8)
  user : BitVec p.userWidth
  deriving DecidableEq

/-- The payload of the Lite read data channel. -/
structure LiteRead where
  id : BitVec p.idWidth
  data : BitVec p.liteWidth
  resp : BitVec 2
  user : BitVec p.userWidth
  deriving DecidableEq

variable {p}

/-- The request as it is passed on: one beat, of the full width. -/
def LiteAddr.toNasti (a : LiteAddr p) : AddrMsg p.nasti where
  id := a.id
  addr := p.nastiAddr a.addr
  len := 0
  size := BitVec.ofNat 3 (p.byteBits + p.wordBits)
  burst := 1
  lock := false
  cache := 1
  prot := a.prot
  qos := a.qos
  region := a.region
  user := a.user

/-! ## The reader -/

variable (p) in
/-- The registers of the reader that matter for answers of one beat: id, address and use of each
record. -/
abbrev LiteNastiReader := XactTable p.maxTransaction (BitVec p.idWidth) (BitVec p.addrWidth)

variable (p) in
structure ReaderIn where
  liteAr : Option (LiteAddr p)
  liteRReady : Bool
  nastiArReady : Bool
  nastiR : Option (ReadResp p.nasti)

namespace LiteNastiReader

variable (s : LiteNastiReader p) (i : ReaderIn p)

/-- `nasti_ar`: the request passed on. -/
def nastiAr : Option (AddrMsg p.nasti) :=
  (i.liteAr.filter fun a => s.hasFree && !s.hasMatch a.id).map LiteAddr.toNasti

/-- `lite_ar_ready`. -/
def liteArReady (a : LiteAddr p) : Bool := s.hasFree && !s.hasMatch a.id && i.nastiArReady

/-- The request taken in a cycle. -/
def arFire : Option (LiteAddr p) := i.liteAr.filter fun a => s.liteArReady i a

/-- `nasti_r_ready`: there is a record for the answer. -/
def nastiRReady (r : ReadResp p.nasti) : Bool := s.hasMatch r.id

/-- `lite_r`: the answer offered to the master. -/
def liteR : Option (LiteRead p) :=
  (i.nastiR.filter fun r => s.hasMatch r.id).map fun r =>
    { id := r.id, data := p.liteData r.data (s.val (s.matchIndex r.id)), resp := r.resp
      user := r.user }

/-- The answer taken from the slave in a cycle. -/
def accepted : Option (ReadResp p.nasti) := i.nastiR.filter s.nastiRReady

/-- The answer handed to the master in a cycle. -/
def delivered : Option (LiteRead p) := if i.liteRReady then s.liteR i else none

def next : LiteNastiReader p :=
  XactTable.next s ((s.arFire i).map fun a => (a.id, a.addr)) ((s.delivered i).map LiteRead.id)

end LiteNastiReader

/-! ## The writer -/

variable (p) in
/-- The registers of the writer. `xactDataCnt` counts the beats sent, and as there is one it
stays at 0. -/
structure LiteNastiWriter where
  xacts : XactTable p.maxTransaction (BitVec p.idWidth) Unit
  xactAddr : BitVec p.addrWidth
  xactDataCnt : BitVec 1
  lock : Bool

variable (p) in
structure WriterIn where
  liteAw : Option (LiteAddr p)
  liteW : Option (LiteWrite p)
  liteBReady : Bool
  nastiAwReady : Bool
  nastiWReady : Bool
  nastiB : Option (WriteResp p.nasti)

namespace LiteNastiWriter

variable (s : LiteNastiWriter p) (i : WriterIn p)

/-- `nasti_aw`. -/
def nastiAw : Option (AddrMsg p.nasti) :=
  (i.liteAw.filter fun a => !s.lock && s.xacts.hasFree && !s.xacts.hasMatch a.id).map
    LiteAddr.toNasti

/-- `lite_aw_ready`. -/
def liteAwReady (a : LiteAddr p) : Bool :=
  !s.lock && s.xacts.hasFree && !s.xacts.hasMatch a.id && i.nastiAwReady

def awFire : Option (LiteAddr p) := i.liteAw.filter fun a => s.liteAwReady i a

/-- `lite_w_ready`. -/
def liteWReady : Bool := s.lock && i.nastiWReady

/-- `nasti_w`. With one beat only the first disjunct of its `valid` can hold. -/
def nastiW : Option (WriteMsg p.nasti) :=
  (i.liteW.filter fun _ => s.lock && s.xactDataCnt == 0).map fun w =>
    { data := p.nastiData w.data s.xactAddr, strb := p.nastiWmask w.strb s.xactAddr
      last := s.xactDataCnt == 0, user := w.user }

/-- `nasti_b_ready`: there is a record for the answer. -/
def nastiBReady (b : WriteResp p.nasti) : Bool := s.xacts.hasMatch b.id

/-- `lite_b`. -/
def liteB : Option (WriteResp p.nasti) := i.nastiB.filter fun b => s.xacts.hasMatch b.id

/-- The answer taken from the slave in a cycle. -/
def accepted : Option (WriteResp p.nasti) := i.nastiB.filter s.nastiBReady

/-- The answer handed to the master in a cycle. -/
def delivered : Option (WriteResp p.nasti) := if i.liteBReady then s.liteB i else none

def next : LiteNastiWriter p where
  xacts := s.xacts.next ((s.awFire i).map fun a => (a.id, ())) ((s.delivered i).map WriteResp.id)
  xactAddr := ((s.awFire i).map LiteAddr.addr).getD s.xactAddr
  xactDataCnt := if (s.awFire i).isSome then 0 else s.xactDataCnt
  lock :=
    if (s.awFire i).isSome then true
    else if i.nastiWReady && (s.nastiW i).any WriteMsg.last then false
    else s.lock

end LiteNastiWriter

/-! ## Reads with a slave -/

variable (p) in
/-- The reader, the reads the slave has taken and not answered, and the log of the answers. -/
structure LiteReads where
  reader : LiteNastiReader p
  pending : List (BitVec p.idWidth × BitVec p.addrWidth)
  log : XactLog (BitVec p.idWidth) (BitVec p.addrWidth) (ReadResp p.nasti) (LiteRead p)

/-- What the master is to get for an answer: the addressed word under the id of its request. -/
def readAnswer (addr : BitVec p.addrWidth) (r : ReadResp p.nasti) : LiteRead p :=
  { id := r.id, data := p.addressedWord r.data addr, resp := r.resp, user := r.user }

namespace LiteReads

variable (s : LiteReads p) (i : ReaderIn p)

/-- The answer taken in a cycle, with the address of the read it is for. -/
def taken : Option (BitVec p.addrWidth × ReadResp p.nasti) :=
  (s.reader.accepted i).bind fun r => (s.pending.lookup r.id).map fun a => (a, r)

/-- The slave answers only what it was asked, and that once. -/
def machine : Machine (LiteReads p) (ReaderIn p) where
  ok s i := ∀ r, i.nastiR = some r → ∃ addr, (r.id, addr) ∈ s.pending
  next s i :=
    { reader := s.reader.next i
      pending := XactTable.stepOpen s.pending ((s.reader.arFire i).map fun a => (a.id, a.addr))
        ((s.reader.accepted i).map ReadResp.id)
      log := s.log.push (s.taken i) (s.reader.delivered i)
        (s.reader.freedIds (s.reader.next i)) }

/-- The bridge after a reset, with whatever the records hold. -/
def reset (t : LiteNastiReader p) : LiteReads p :=
  ⟨{ t with valid := fun _ => false }, [], .empty⟩

variable {s i}

/-- The records hold the open reads. -/
def Inv (s : LiteReads p) : Prop := s.reader.Tracks s.pending

theorem inv_reset (t : LiteNastiReader p) : (reset t).Inv where
  distinct _ _ hk := absurd hk Bool.false_ne_true
  entries _ hx := absurd hx List.not_mem_nil
  nodup := List.nodup_nil

/-- An answer of the slave is taken, and offered to the master as it should be. -/
theorem Inv.answer (h : s.Inv) (hok : machine.ok s i) {r : ReadResp p.nasti}
    (hr : i.nastiR = some r) :
    ∃ addr, s.reader.accepted i = some r ∧ s.taken i = some (addr, r) ∧
      s.reader.liteR i = some (readAnswer addr r) := by
  obtain ⟨addr, hmem⟩ := hok r hr
  obtain ⟨hmatch, hval⟩ := h.val_matchIndex hmem
  have hacc : s.reader.accepted i = some r := by
    rw [LiteNastiReader.accepted, hr, Option.filter_some, LiteNastiReader.nastiRReady,
      if_pos hmatch]
  have hlook : s.pending.lookup r.id = some addr := h.lookup_eq hmem
  refine ⟨addr, hacc, ?_, ?_⟩
  · rw [taken, hacc, Option.bind_some, hlook, Option.map_some]
  · rw [LiteNastiReader.liteR, hr, Option.filter_some, if_pos hmatch, Option.map_some,
      LiteNastiParams.liteData_eq]
    simp only at hval
    rw [hval]
    rfl

/-- Requests are recorded in free entries under new ids, and what is given up is in use. -/
theorem allowed (s : LiteReads p) (i : ReaderIn p) :
    s.reader.Allowed ((s.reader.arFire i).map fun a => (a.id, a.addr))
      ((s.reader.delivered i).map LiteRead.id) := by
  have hfire : ∀ a, s.reader.arFire i = some a → s.reader.hasFree ∧
      s.reader.hasMatch a.id = false := by
    intro a ha
    have := (Option.filter_eq_some_iff.1 ha).2
    simp only [LiteNastiReader.liteArReady, Bool.and_eq_true, Bool.not_eq_true'] at this
    exact this.1
  refine ⟨?_, ?_, ?_⟩
  · rw [Option.isSome_map, Option.isSome_iff_exists]
    rintro ⟨a, ha⟩
    exact (hfire a ha).1
  · intro x hx
    obtain ⟨a, ha, rfl⟩ := Option.map_eq_some_iff.1 hx
    exact (hfire a ha).2
  · intro id hid
    obtain ⟨d, hd, rfl⟩ := Option.map_eq_some_iff.1 hid
    unfold LiteNastiReader.delivered at hd
    split at hd
    · obtain ⟨r, hr, rfl⟩ := Option.map_eq_some_iff.1 hd
      exact (Option.filter_eq_some_iff.1 hr).2
    · exact absurd hd (by simp)

/-- What is handed over was taken. -/
theorem accepted_of_delivered {d : LiteRead p} (h : s.reader.delivered i = some d) :
    (s.reader.accepted i).map ReadResp.id = some d.id := by
  unfold LiteNastiReader.delivered at h
  split at h
  · obtain ⟨r, hr, rfl⟩ := Option.map_eq_some_iff.1 h
    exact congrArg (Option.map ReadResp.id) hr
  · exact absurd h (by simp)

theorem Inv.next (h : s.Inv) : (machine.next s i).Inv :=
  XactTable.Tracks.next h (allowed s i) fun id hid => by
    obtain ⟨d, hd, rfl⟩ := Option.map_eq_some_iff.1 hid
    exact accepted_of_delivered hd

/-- The reads of a run are answered faithfully exactly if the master is ready whenever the slave
has an answer. -/
theorem faithful_iff (t : LiteNastiReader p) {is : List (ReaderIn p)}
    (hl : machine.Legal (reset t) is) :
    (machine.run (reset t) is).log.Faithful readAnswer LiteRead.id ↔
      ∀ i ∈ is, i.nastiR.isSome → i.liteRReady := by
  refine XactLog.faithful_iff (m := machine) LiteReads.log taken
    (fun s i => s.reader.delivered i)
    (c := fun i => i.nastiR.isSome → i.liteRReady) (I := Inv)
    (fun _ _ h _ => h.next) ?_ ?_ ?_ (inv_reset t) rfl hl
  · intro s i _ _
    change s.log.push _ _ (s.reader.freedIds (s.reader.next i)) = _
    rw [LiteNastiReader.next, XactTable.freedIds_next (allowed s i)]
  · intro s i h hok hc
    cases hr : i.nastiR with
    | none => simp [taken, LiteNastiReader.accepted, LiteNastiReader.delivered,
        LiteNastiReader.liteR, hr]
    | some r =>
      obtain ⟨addr, -, htaken, hoffer⟩ := h.answer hok hr
      rw [htaken, LiteNastiReader.delivered, if_pos (hc (by simp [hr])), hoffer]
      rfl
  · intro s i h hok hc
    rw [Classical.not_imp] at hc
    obtain ⟨hsome, hready⟩ := hc
    obtain ⟨r, hr⟩ := Option.isSome_iff_exists.1 hsome
    obtain ⟨addr, -, htaken, -⟩ := h.answer hok hr
    exact ⟨by rw [htaken]; rfl, if_neg hready⟩

end LiteReads

/-! ## Writes with a slave -/

variable (p) in
/-- The writer, the writes the slave has taken and not answered, and the log of the answers. -/
structure LiteWrites where
  writer : LiteNastiWriter p
  pending : List (BitVec p.idWidth × Unit)
  log : XactLog (BitVec p.idWidth) Unit (WriteResp p.nasti) (WriteResp p.nasti)

/-- The master is to get the answer as it is. -/
def writeAnswer (_ : Unit) (b : WriteResp p.nasti) : WriteResp p.nasti := b

namespace LiteWrites

variable (s : LiteWrites p) (i : WriterIn p)

/-- The slave answers only what it was asked, and that once. It may do so before it has the
data. -/
def machine : Machine (LiteWrites p) (WriterIn p) where
  ok s i := ∀ b, i.nastiB = some b → (b.id, ()) ∈ s.pending
  next s i :=
    { writer := s.writer.next i
      pending := XactTable.stepOpen s.pending ((s.writer.awFire i).map fun a => (a.id, ()))
        ((s.writer.accepted i).map WriteResp.id)
      log := s.log.push ((s.writer.accepted i).map fun b => ((), b)) (s.writer.delivered i)
        (s.writer.xacts.freedIds (s.writer.next i).xacts) }

/-- The bridge after a reset, with whatever the records and the other registers hold. -/
def reset (w : LiteNastiWriter p) : LiteWrites p :=
  ⟨{ w with xacts := { w.xacts with valid := fun _ => false }, lock := false }, [], .empty⟩

variable {s i}

/-- The records hold the open writes. -/
def Inv (s : LiteWrites p) : Prop := s.writer.xacts.Tracks s.pending

theorem inv_reset (w : LiteNastiWriter p) : (reset w).Inv where
  distinct _ _ hk := absurd hk Bool.false_ne_true
  entries _ hx := absurd hx List.not_mem_nil
  nodup := List.nodup_nil

/-- An answer of the slave is taken, and offered to the master. -/
theorem Inv.answer (h : s.Inv) (hok : machine.ok s i) {b : WriteResp p.nasti}
    (hb : i.nastiB = some b) : s.writer.accepted i = some b ∧ s.writer.liteB i = some b := by
  have hmatch := (h.val_matchIndex (hok b hb)).1
  constructor
  · rw [LiteNastiWriter.accepted, hb, Option.filter_some, LiteNastiWriter.nastiBReady,
      if_pos hmatch]
  · rw [LiteNastiWriter.liteB, hb, Option.filter_some, if_pos hmatch]

theorem allowed (s : LiteWrites p) (i : WriterIn p) :
    s.writer.xacts.Allowed ((s.writer.awFire i).map fun a => (a.id, ()))
      ((s.writer.delivered i).map WriteResp.id) := by
  have hfire : ∀ a, s.writer.awFire i = some a → s.writer.xacts.hasFree ∧
      s.writer.xacts.hasMatch a.id = false := by
    intro a ha
    have := (Option.filter_eq_some_iff.1 ha).2
    simp only [LiteNastiWriter.liteAwReady, Bool.and_eq_true, Bool.not_eq_true'] at this
    exact ⟨this.1.1.2, this.1.2⟩
  refine ⟨?_, ?_, ?_⟩
  · rw [Option.isSome_map, Option.isSome_iff_exists]
    rintro ⟨a, ha⟩
    exact (hfire a ha).1
  · intro x hx
    obtain ⟨a, ha, rfl⟩ := Option.map_eq_some_iff.1 hx
    exact (hfire a ha).2
  · intro id hid
    obtain ⟨b, hb, rfl⟩ := Option.map_eq_some_iff.1 hid
    unfold LiteNastiWriter.delivered at hb
    split at hb
    · exact (Option.filter_eq_some_iff.1 hb).2
    · exact absurd hb (by simp)

theorem accepted_of_delivered {b : WriteResp p.nasti} (h : s.writer.delivered i = some b) :
    s.writer.accepted i = some b := by
  unfold LiteNastiWriter.delivered at h
  split at h
  · exact h
  · exact absurd h (by simp)

theorem Inv.next (h : s.Inv) : (machine.next s i).Inv :=
  XactTable.Tracks.next h (allowed s i) fun id hid => by
    obtain ⟨b, hb, rfl⟩ := Option.map_eq_some_iff.1 hid
    rw [accepted_of_delivered hb]
    rfl

/-- The writes of a run are answered faithfully exactly if the master is ready whenever the slave
has an answer. -/
theorem faithful_iff (w : LiteNastiWriter p) {is : List (WriterIn p)}
    (hl : machine.Legal (reset w) is) :
    (machine.run (reset w) is).log.Faithful writeAnswer WriteResp.id ↔
      ∀ i ∈ is, i.nastiB.isSome → i.liteBReady := by
  refine XactLog.faithful_iff (m := machine) LiteWrites.log
    (fun s i => (s.writer.accepted i).map fun b => ((), b)) (fun s i => s.writer.delivered i)
    (c := fun i => i.nastiB.isSome → i.liteBReady) (I := Inv)
    (fun _ _ h _ => h.next) ?_ ?_ ?_ (inv_reset w) rfl hl
  · intro s i _ _
    change s.log.push _ _ (s.writer.xacts.freedIds (s.writer.xacts.next _ _)) = _
    rw [XactTable.freedIds_next (allowed s i)]
  · intro s i h hok hc
    cases hb : i.nastiB with
    | none => simp [LiteNastiWriter.accepted, LiteNastiWriter.delivered, LiteNastiWriter.liteB, hb]
    | some b =>
      obtain ⟨hacc, hoffer⟩ := h.answer hok hb
      rw [hacc, LiteNastiWriter.delivered, if_pos (hc (by simp [hb])), hoffer]
      rfl
  · intro s i h hok hc
    rw [Classical.not_imp] at hc
    obtain ⟨hsome, hready⟩ := hc
    obtain ⟨b, hb⟩ := Option.isSome_iff_exists.1 hsome
    exact ⟨by rw [(h.answer hok hb).1]; rfl, if_neg hready⟩

end LiteWrites

/-! ## Both halves of the bridge -/

/-- In every run from a reset, with a slave that answers every request once: all answers taken from
the slave are handed to the Lite master, once, in order, under the id of their request and with the
addressed word, and the records given up are those of the answers handed over, exactly if the master
is ready in every cycle in which the slave has an answer. -/
theorem lite_bridge_delivers_iff (p : LiteNastiParams) :
    (∀ (t : LiteNastiReader p) (is : List (ReaderIn p)),
      LiteReads.machine.Legal (LiteReads.reset t) is →
      ((LiteReads.machine.run (LiteReads.reset t) is).log.Faithful readAnswer LiteRead.id ↔
        ∀ i ∈ is, i.nastiR.isSome = true → i.liteRReady = true)) ∧
    (∀ (w : LiteNastiWriter p) (is : List (WriterIn p)),
      LiteWrites.machine.Legal (LiteWrites.reset w) is →
      ((LiteWrites.machine.run (LiteWrites.reset w) is).log.Faithful writeAnswer WriteResp.id ↔
        ∀ i ∈ is, i.nastiB.isSome = true → i.liteBReady = true)) :=
  ⟨fun t _ hl => LiteReads.faithful_iff t hl, fun w _ hl => LiteWrites.faithful_iff w hl⟩

section Example

/-- Words of 32 bits over 64 bits of NASTI data. -/
def wideBridge : LiteNastiParams := ⟨2, 1, 8, 1, 2, 1, Nat.one_lt_two⟩

def wordFour : LiteAddr wideBridge := ⟨1, 4, 0, 0, 0, 0⟩

def idleReads : LiteReads wideBridge := .reset ⟨fun _ => 0, fun _ => 0, fun _ => false⟩

def idleWrites : LiteWrites wideBridge :=
  .reset ⟨⟨fun _ => 0, fun _ => (), fun _ => false⟩, 0, 0, false⟩

/-- A read of the upper word, answered two cycles later. -/
def readUpper (ready : Bool) : List (ReaderIn wideBridge) :=
  [⟨some wordFour, true, true, none⟩, ⟨none, true, true, none⟩,
    ⟨none, ready, true, some ⟨1, 0x1122334455667788, 0, true, 0⟩⟩]

/-- A write of the upper word, answered when its data has been sent. -/
def writeUpper (ready : Bool) : List (WriterIn wideBridge) :=
  [⟨some wordFour, none, true, true, true, none⟩,
    ⟨none, some ⟨0x11223344, 0xf, 0⟩, true, true, true, none⟩,
    ⟨none, none, ready, true, true, some ⟨1, 0, 0⟩⟩]

instance decidableReads (s : LiteReads p) (i : ReaderIn p) : Decidable (LiteReads.machine.ok s i) :=
  decidable_of_iff (∀ r ∈ i.nastiR, r.id ∈ s.pending.map Prod.fst) (by
    refine forall_congr' fun r => forall_congr' fun _ => ?_
    simp)

instance decidableWrites (s : LiteWrites p) (i : WriterIn p) :
    Decidable (LiteWrites.machine.ok s i) :=
  inferInstanceAs (Decidable (∀ b ∈ i.nastiB, (b.id, ()) ∈ s.pending))

theorem lite_bridge_delivers_iff_wide :
    (LiteReads.machine.run idleReads (readUpper true)).log.Faithful readAnswer LiteRead.id ∧
    (LiteWrites.machine.run idleWrites (writeUpper true)).log.Faithful
      (writeAnswer (p := wideBridge)) WriteResp.id := by
  obtain ⟨hreads, hwrites⟩ := lite_bridge_delivers_iff wideBridge
  exact ⟨(hreads _ (readUpper true) (by decide +kernel)).2 (by decide +kernel),
    (hwrites _ (writeUpper true) (by decide +kernel)).2 (by decide +kernel)⟩

/-- A master that is not ready when the answer comes does not get it, neither of a read nor of a
write. The slave is rid of it, and the record stays, so that the id cannot be used again. -/
theorem unready_master_loses_answer :
    let r := LiteReads.machine.run idleReads (readUpper false)
    let w := LiteWrites.machine.run idleWrites (writeUpper false)
    LiteReads.machine.Legal idleReads (readUpper false) ∧
    LiteWrites.machine.Legal idleWrites (writeUpper false) ∧
    (r.log.accepted.length = 1 ∧ r.log.delivered = [] ∧ r.pending = [] ∧
      r.reader.hasMatch 1 = true) ∧
    (w.log.accepted.length = 1 ∧ w.log.delivered = [] ∧ w.pending = [] ∧
      w.writer.xacts.hasMatch 1 = true) := by
  decide +kernel

end Example

end TaggedRiscv.Nasti
