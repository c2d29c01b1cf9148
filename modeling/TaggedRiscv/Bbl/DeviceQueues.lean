import Mathlib.Data.Fintype.Card
import Mathlib.Data.BitVec
import TaggedRiscv.Lib.Linked
import TaggedRiscv.Lib.Machine

/-!
# The device queues of the boot loader

The supervisor hands messages in its own memory to the boot loader, which answers at once or when
the device has data. They wait in two linked lists, the request queue and the response queue,
whose link field is in the message itself.

Pointers and sizes are machine words. The memory is a map from message pointers to messages, for
messages that do not overlap (`Apart`). What the file system, the UART and the memory behind other
pointers contribute to a call is an input of it.
-/

namespace TaggedRiscv.Bbl

open List

abbrev Ptr := BitVec 64

/-- A message (`sbi_device_message`). -/
structure Message where
  dev : BitVec 64
  cmd : BitVec 64
  data : BitVec 64
  sbiPrivateData : BitVec 64
  deriving DecidableEq, Repr

/-- The queue fields of the hart-local storage, the messages in memory, and the pending bit
of the supervisor's software interrupt. -/
structure State where
  deviceRequestQueueHead : Ptr
  deviceRequestQueueSize : BitVec 64
  deviceResponseQueueHead : Ptr
  deviceResponseQueueTail : Ptr
  mem : Ptr → Message
  ssip : Bool

/-- Why a call panics. -/
inductive Panic
  | idAddress
  | deviceName
  | bcdCommand (cmd : BitVec 64)
  | diskRead (size offset : BitVec 64)
  | diskWrite (size offset : BitVec 64)
  | diskCommand (cmd : BitVec 64)
  | unknownDevice (cmd : BitVec 64)
  | noUartData
  | pageFault
  | noRecord
  deriving DecidableEq, Repr

/-- Where the memory of the supervisor begins (`first_user_vaddr + bias`) and ends. -/
structure Layout where
  supervisorStart : BitVec 64
  memSize : BitVec 64
  /-- The boot loader itself lies below. -/
  start_pos : 0 < supervisorStart

def supervisorPaddrValid (y : Layout) (start length : BitVec 64) : Bool :=
  y.supervisorStart ≤ start && start + length < y.memSize && start ≤ start + length

def HTIF_CMD_READ : BitVec 64 := 0x00
def HTIF_CMD_WRITE : BitVec 64 := 0x01
def HTIF_CMD_IDENTIFY : BitVec 64 := 0xFF

def messageSize : BitVec 64 := 32

/-- Messages at the two pointers have no byte in common. -/
def Apart (p q : Ptr) : Prop := messageSize ≤ p - q ∧ messageSize ≤ q - p
deriving Decidable

namespace State

variable (s : State)

/-- The link of a message. -/
def next (p : Ptr) : Ptr := (s.mem p).sbiPrivateData

def setLink (p v : Ptr) : State :=
  { s with mem := Function.update s.mem p { s.mem p with sbiPrivateData := v } }

def setData (p : Ptr) (v : BitVec 64) : State :=
  { s with mem := Function.update s.mem p { s.mem p with data := v } }

/-- A message without a link put at the end of the response queue, and the supervisor's
software interrupt raised. -/
def enqueueResponse (m : Ptr) : State :=
  let s := s.setLink m 0
  let s :=
    if s.deviceResponseQueueTail ≠ 0 then s.setLink s.deviceResponseQueueTail m
    else { s with deviceResponseQueueHead := m }
  { s with deviceResponseQueueTail := m, ssip := true }

/-- An answered request (`mcall_respond`). -/
def mcallRespond (m : Ptr) (resp : BitVec 64) : State := (s.enqueueResponse m).setData m resp

/-- A request stored in front of the request queue. -/
def pushRequest (m : Ptr) : State :=
  { s.setLink m s.deviceRequestQueueHead with
    deviceRequestQueueHead := m
    deviceRequestQueueSize := s.deviceRequestQueueSize + 1 }

end State

/-! ## Requests -/

/-- Memory a request asks the boot loader to fill. -/
inductive Fill
  | text (addr : Ptr) (name : String)
  | file (addr size offset : BitVec 64)
  deriving DecidableEq, Repr

/-- What becomes of an accepted request: it is answered, after some memory has been filled,
or kept. -/
inductive Outcome
  | respond (fill : Option Fill) (resp : BitVec 64)
  | keep
  deriving DecidableEq, Repr

/-- The name of a device copied to the address in a payload. -/
def handleIdentify (payload : BitVec 64) (devName : String) : Except Panic Fill :=
  let what := payload % 256
  let addr := payload / 256
  if addr % 64 ≠ 0 then .error .idAddress
  else if devName.length > 64 then .error .deviceName
  else .ok (.text addr (if what = HTIF_CMD_IDENTIFY then devName else ""))

/-- The request structure of the disk (`disk_request_t`). -/
structure DiskRequest where
  addr : BitVec 64
  offset : BitVec 64
  size : BitVec 64
  tag : BitVec 64
  deriving DecidableEq, Repr

/-- What a request finds outside the queues. -/
structure ReqEnv where
  /-- The call comes from machine mode. -/
  prvM : Bool
  /-- The size of the disk image, if there is one. -/
  stat : Option (BitVec 32)
  /-- The disk image can be opened. -/
  opens : Bool
  /-- The request structure a disk command points to. -/
  req : DiskRequest
  /-- The number of bytes the file system moves. -/
  moved : BitVec 64
  /-- The messages after the memory of the request has been filled. -/
  filled : Ptr → Message

/-- The console: a read is kept until there is input. -/
def bcdRequest (msg : Message) : Except Panic Outcome :=
  if msg.cmd = HTIF_CMD_IDENTIFY then
    (handleIdentify msg.data "bcd").map fun f => .respond (some f) 1
  else if msg.cmd = HTIF_CMD_READ then .ok .keep
  else if msg.cmd = HTIF_CMD_WRITE then
    .ok (.respond none (0x100 ||| (msg.data.setWidth 8).setWidth 64))
  else .error (.bcdCommand msg.cmd)

def diskRequest (e : ReqEnv) (msg : Message) : Except Panic Outcome :=
  if msg.cmd = HTIF_CMD_IDENTIFY then
    let name :=
      match e.stat with
      | none => ""
      -- `%d` prints the unsigned size as a signed number
      | some size =>
        if e.opens then ("disk size=" ++ toString size.toInt).take 63 |>.toString else ""
    (handleIdentify msg.data name).map fun f => .respond (some f) 1
  else if msg.cmd = HTIF_CMD_READ then
    if e.moved ≠ e.req.size then .error (.diskRead e.req.size e.req.offset)
    else .ok (.respond (some (.file e.req.addr e.req.size e.req.offset)) e.req.tag)
  else if msg.cmd = HTIF_CMD_WRITE then
    if e.moved ≠ e.req.size then .error (.diskWrite e.req.size e.req.offset)
    else .ok (.respond none e.req.tag)
  else .error (.diskCommand msg.cmd)

/-- Any other device. -/
def noneRequest (msg : Message) : Except Panic Outcome :=
  if msg.cmd = HTIF_CMD_IDENTIFY then
    (handleIdentify msg.data "").map fun f => .respond (some f) 1
  else .error (.unknownDevice msg.cmd)

def devRequest (e : ReqEnv) (msg : Message) : Except Panic Outcome :=
  if msg.dev = 0 then bcdRequest msg
  else if msg.dev = 1 then diskRequest e msg
  else noneRequest msg

/-- The effect of an accepted request. -/
def State.carryOut (s : State) (e : ReqEnv) (m : Ptr) : Outcome → State
  | .respond fill resp =>
    State.mcallRespond (if fill.isSome then { s with mem := e.filled } else s) m resp
  | .keep => s.pushRequest m

def EFAULT : BitVec 64 := 14
def EINVAL : BitVec 64 := 22

/-- A message handed to the boot loader. -/
def mcallDevReq (y : Layout) (e : ReqEnv) (m : Ptr) (s : State) :
    Except Panic (BitVec 64 × State) :=
  if !supervisorPaddrValid y m messageSize && !e.prvM then .ok (-EFAULT, s)
  else
    let msg := s.mem m
    if msg.dev > 0xFF ∨ msg.cmd > 0xFF ∨ msg.data > 0x0000FFFFFFFFFFFF then .ok (-EINVAL, s)
    else (devRequest e msg).map fun o => (0, s.carryOut e m o)

/-- A request is refused and changes nothing, or it is carried out. -/
theorem mcallDevReq_cases {y : Layout} {e : ReqEnv} {m : Ptr} {s s' : State} {r : BitVec 64}
    (h : mcallDevReq y e m s = .ok (r, s')) :
    (r ≠ 0 ∧ s' = s) ∨
      (r = 0 ∧ (supervisorPaddrValid y m messageSize ∨ e.prvM) ∧
        ∃ o, s' = s.carryOut e m o) := by
  simp only [mcallDevReq] at h
  split_ifs at h with hvalid hfields
  · cases h
    exact .inl ⟨by decide, rfl⟩
  · cases h
    exact .inl ⟨by decide, rfl⟩
  · cases ho : devRequest e (s.mem m) with
    | error p => rw [ho] at h; cases h
    | ok o =>
      rw [ho] at h
      cases h
      refine .inr ⟨rfl, ?_, o, rfl⟩
      simpa [or_iff_not_imp_left] using hvalid

/-- Null is not in the memory of the supervisor. -/
theorem supervisorPaddrValid_zero (y : Layout) (n : BitVec 64) :
    supervisorPaddrValid y 0 n = false := by
  have hpos := y.start_pos
  have hlt : ¬ y.supervisorStart ≤ 0 := by bv_omega
  simp only [supervisorPaddrValid, hlt, decide_false, Bool.false_and]

/-! ## The interrupt of the UART -/

/-- What the interrupt handler finds outside the queues. -/
structure IrqEnv where
  prvM : Bool
  /-- There is a character (`uart_check_read_irq`). -/
  available : Bool
  /-- The character. -/
  ch : BitVec 8

/-- The message found is answered: it leaves the request queue behind `prev` and goes to the
response queue. -/
def State.serve (s : State) (ch : BitVec 8) (n : BitVec 64) (prev m : Ptr) : State :=
  let next := s.next m
  let s := s.setData m (0x100 ||| ch.setWidth 64)
  let s := if prev ≠ 0 then s.setLink prev next else { s with deviceRequestQueueHead := next }
  State.enqueueResponse { s with deviceRequestQueueSize := n - 1 } m

/-- The search for a console read in the request queue: `rounds` are left, `m` is looked at
next and `prev` was looked at last. -/
def ioIrqLoop (y : Layout) (e : IrqEnv) (s : State) (n : BitVec 64) :
    ℕ → Ptr → Ptr → Except Panic State
  | 0, _, _ => .error .noRecord
  | rounds + 1, prev, m =>
    if !supervisorPaddrValid y m messageSize && !e.prvM then .error .pageFault
    else if (s.mem m).dev = 0 ∧ (s.mem m).cmd = HTIF_CMD_READ then .ok (s.serve e.ch n prev m)
    else ioIrqLoop y e s n rounds m (s.next m)

def ioIrqService (y : Layout) (e : IrqEnv) (s : State) : Except Panic (BitVec 64 × State) :=
  if !e.available then .error .noUartData
  else
    (ioIrqLoop y e s s.deviceRequestQueueSize s.deviceRequestQueueSize.toNat 0
      s.deviceRequestQueueHead).map fun s' => (0, s')

/-! ## Responses -/

/-- An answered message returned to the supervisor, or null. -/
def mcallDevResp (ipiPending : Bool) (s : State) : BitVec 64 × State :=
  let m := s.deviceResponseQueueHead
  if m ≠ 0 then
    let next := s.next m
    let s := { s with deviceResponseQueueHead := next }
    if next = 0 then (m, { s with deviceResponseQueueTail := 0, ssip := ipiPending })
    else (m, s)
  else (m, s)

/-! ## The lists -/

/-- The queue fields stand for these lists. -/
structure Queues (s : State) (reqs resps : List Ptr) : Prop where
  requests : Linked 0 s.next s.deviceRequestQueueHead reqs
  size : s.deviceRequestQueueSize.toNat = reqs.length
  responses : Linked 0 s.next s.deviceResponseQueueHead resps
  tail : s.deviceResponseQueueTail = resps.getLast?.getD 0
  nodup : (reqs ++ resps).Nodup

namespace State

variable (s : State) (p q v : Ptr)

theorem next_setLink : (s.setLink p v).next q = if q = p then v else s.next q := by
  unfold next setLink
  by_cases h : q = p
  · simp [h]
  · simp [h]

@[simp] theorem next_setData : (s.setData p v).next q = s.next q := by
  unfold next setData
  by_cases h : q = p
  · simp [h]
  · simp [Function.update_of_ne h]

theorem enqueueResponse_of_empty {s : State} (h : s.deviceResponseQueueTail = 0) (m : Ptr) :
    s.enqueueResponse m = { s.setLink m 0 with
      deviceResponseQueueHead := m, deviceResponseQueueTail := m, ssip := true } := by
  simp only [enqueueResponse, setLink, h, ne_eq, not_true_eq_false, if_false]

theorem enqueueResponse_of_tail {s : State} (h : s.deviceResponseQueueTail ≠ 0) (m : Ptr) :
    s.enqueueResponse m = { (s.setLink m 0).setLink s.deviceResponseQueueTail m with
      deviceResponseQueueTail := m, ssip := true } := by
  simp only [enqueueResponse, setLink, ne_eq, h, not_false_eq_true, if_true]

end State

namespace Queues

variable {s s' : State} {reqs resps : List Ptr} {m : Ptr}

variable (h : Queues s reqs resps)

include h

theorem zero_notMem : (0 : Ptr) ∉ reqs ++ resps := by
  simp only [mem_append, not_or]
  exact ⟨h.requests.null_notMem, h.responses.null_notMem⟩

/-- What is not in the links and the queue fields does not concern the lists. -/
theorem congr (hnext : ∀ p ∈ reqs ++ resps, s'.next p = s.next p)
    (hrh : s'.deviceRequestQueueHead = s.deviceRequestQueueHead)
    (hrs : s'.deviceRequestQueueSize = s.deviceRequestQueueSize)
    (hph : s'.deviceResponseQueueHead = s.deviceResponseQueueHead)
    (hpt : s'.deviceResponseQueueTail = s.deviceResponseQueueTail) : Queues s' reqs resps where
  requests := by
    rw [hrh]
    exact h.requests.congr fun p hp => hnext p (by simp [hp])
  size := by rw [hrs, h.size]
  responses := by
    rw [hph]
    exact h.responses.congr fun p hp => hnext p (by simp [hp])
  tail := by rw [hpt, h.tail]
  nodup := h.nodup

/-- The tail of an empty response queue is null, and only its. -/
theorem tail_eq_zero_iff : s.deviceResponseQueueTail = 0 ↔ resps = [] := by
  rw [h.tail]
  cases hlast : resps.getLast? with
  | none => simpa using hlast
  | some t =>
    have hmem : t ∈ resps := mem_of_getLast? hlast
    constructor
    · rintro rfl
      exact absurd hmem h.responses.null_notMem
    · rintro rfl
      simp at hlast

/-- A message is added to the response queue. -/
theorem enqueueResponse (hm : m ≠ 0) (hnew : m ∉ reqs ++ resps) :
    Queues (s.enqueueResponse m) reqs (resps ++ [m]) := by
  have hnodup : (reqs ++ (resps ++ [m])).Nodup := by
    rw [← append_assoc]
    exact nodup_append.2 ⟨h.nodup, nodup_singleton m, fun a ha b hb hab => by
      rw [mem_singleton] at hb
      exact hnew (hb ▸ hab ▸ ha)⟩
  obtain ⟨hmreq, hmresp⟩ : m ∉ reqs ∧ m ∉ resps := by simpa using hnew
  -- the queue is empty, or the last message gets a link
  rcases eq_nil_or_concat' resps with rfl | ⟨l, t, rfl⟩
  · rw [State.enqueueResponse_of_empty h.tail]
    refine ⟨?_, h.size, ?_, rfl, hnodup⟩
    · refine h.requests.congr fun p hp => ?_
      exact (s.next_setLink m p 0).trans (if_neg (ne_of_mem_of_not_mem hp hmreq))
    · exact ⟨rfl, hm, (s.next_setLink m m 0).trans (if_pos rfl)⟩
  · have htail : s.deviceResponseQueueTail = t := by simpa using h.tail
    have ht0 : t ≠ 0 := by
      rintro rfl
      exact h.responses.null_notMem (by simp)
    have hmt : m ≠ t := by
      rintro rfl
      exact hmresp (by simp)
    obtain ⟨-, hresps, hdisj⟩ := nodup_append.1 h.nodup
    have htreq : t ∉ reqs := fun ht => hdisj t ht t (by simp) rfl
    have htl : t ∉ l := fun ht => (nodup_append.1 hresps).2.2 t ht t (by simp) rfl
    have hnext : ∀ p, ((s.setLink m 0).setLink t m).next p =
        if p = t then m else if p = m then 0 else s.next p := by
      intro p
      rw [State.next_setLink, State.next_setLink]
    rw [State.enqueueResponse_of_tail (by rw [htail]; exact ht0), htail]
    refine ⟨?_, h.size, ?_, by simp, hnodup⟩
    · refine h.requests.congr fun p hp => (hnext p).trans ?_
      rw [if_neg (ne_of_mem_of_not_mem hp htreq), if_neg (ne_of_mem_of_not_mem hp hmreq)]
    · refine h.responses.enqueue hm (fun p hp => (hnext p).trans ?_) ((hnext t).trans (if_pos rfl))
        ((hnext m).trans ?_)
      · have hpm : p ≠ m := ne_of_mem_of_not_mem (mem_append_left [t] hp) hmresp
        rw [if_neg (ne_of_mem_of_not_mem hp htl), if_neg hpm]
      · rw [if_neg hmt, if_pos rfl]

/-- An answered message is added to the response queue. -/
theorem mcallRespond (hm : m ≠ 0) (hnew : m ∉ reqs ++ resps) (resp : BitVec 64) :
    Queues (s.mcallRespond m resp) reqs (resps ++ [m]) :=
  (h.enqueueResponse hm hnew).congr (fun _ _ => State.next_setData ..) rfl rfl rfl rfl

/-- Messages are distinct pointers, so the size never overflows. -/
theorem length_lt (hm : m ≠ 0) (hnew : m ∉ reqs ++ resps) : reqs.length + 1 < 2 ^ 64 := by
  have hnd : ((0 : Ptr) :: m :: reqs).Nodup := by
    have hz := h.zero_notMem
    simp only [mem_append, not_or] at hz hnew
    simp only [nodup_cons, mem_cons, not_or]
    exact ⟨⟨hm.symm, hz.1⟩, hnew.1, (nodup_append.1 h.nodup).1⟩
  have hinj : Function.Injective (BitVec.toFin (w := 64)) := fun _ _ => BitVec.eq_of_toFin_eq
  have hcard := (hnd.map hinj).length_le_card
  simp only [length_map, length_cons, Fintype.card_fin] at hcard
  omega

/-- A message is stored in the request queue. -/
theorem pushRequest (hm : m ≠ 0) (hnew : m ∉ reqs ++ resps) :
    Queues (s.pushRequest m) (m :: reqs) resps := by
  obtain ⟨hmreq, hmresp⟩ : m ∉ reqs ∧ m ∉ resps := by simpa using hnew
  have hnext : ∀ p, p ≠ m → (s.pushRequest m).next p = s.next p := fun p hp =>
    (s.next_setLink m p _).trans (if_neg hp)
  refine ⟨?_, ?_, ?_, h.tail, nodup_cons.2 ⟨hnew, h.nodup⟩⟩
  · refine h.requests.cons hm (fun p hp => hnext p (ne_of_mem_of_not_mem hp hmreq)) ?_
    exact (s.next_setLink m m _).trans (if_pos rfl)
  · have hlt := h.length_lt hm hnew
    rw [State.pushRequest, BitVec.toNat_add, h.size, length_cons]
    exact Nat.mod_eq_of_lt hlt
  · exact h.responses.congr fun p hp => hnext p (ne_of_mem_of_not_mem hp hmresp)

omit h in
/-- The search takes the message it finds from the request queue to the response queue. -/
theorem serve {a b : List Ptr} (h : Queues s (a ++ m :: b) resps) (ch : BitVec 8) :
    Queues (s.serve ch s.deviceRequestQueueSize (a.getLast?.getD 0) m) (a ++ b)
      (resps ++ [m]) := by
  have hm : m ≠ 0 := by
    rintro rfl
    exact h.requests.null_notMem (by simp)
  -- the lists without the message
  have hperm : (m :: (a ++ b ++ resps)).Nodup := by
    have hnd := h.nodup
    rwa [append_assoc, cons_append, nodup_middle, ← append_assoc] at hnd
  obtain ⟨hnew, hnodup⟩ := nodup_cons.1 hperm
  have hsize : (s.deviceRequestQueueSize - 1).toNat = (a ++ b).length := by
    have hs := h.size
    simp only [length_append, length_cons] at hs ⊢
    bv_omega
  unfold State.serve
  refine enqueueResponse ?_ hm hnew
  rcases eq_nil_or_concat' a with rfl | ⟨c, y, rfl⟩
  · -- the message is the first one
    obtain ⟨hhead, -, hb⟩ := linked_cons_iff.1 h.requests
    simp only [List.getLast?_nil, Option.getD_none, ne_eq, not_true_eq_false, if_false]
    refine ⟨hb.congr fun p _ => State.next_setData .., hsize, ?_, h.tail, hnodup⟩
    exact h.responses.congr fun p _ => State.next_setData ..
  · have hy : y ≠ 0 := by
      rintro rfl
      exact h.requests.null_notMem (by simp)
    have hnext : ∀ p, ((s.setData m (0x100 ||| ch.setWidth 64)).setLink y (s.next m)).next p =
        if p = y then s.next m else s.next p := by
      intro p
      rw [State.next_setLink, State.next_setData]
    have hy' : y ∉ c ++ b ++ resps := by
      have hnd := hnodup
      rw [append_assoc, append_assoc, singleton_append, nodup_middle,
        ← append_assoc] at hnd
      exact (nodup_cons.1 hnd).1
    have hother : ∀ p ∈ c ++ b ++ resps, ((s.setData m (0x100 ||| ch.setWidth 64)).setLink y
        (s.next m)).next p = s.next p := fun p hp =>
      (hnext p).trans (if_neg (ne_of_mem_of_not_mem hp hy'))
    simp only [List.getLast?_append, List.getLast?_singleton, Option.some_or, Option.getD_some,
      ne_eq, hy, not_false_eq_true, if_true]
    refine ⟨?_, hsize, ?_, h.tail, hnodup⟩
    · have hreq := h.requests
      rw [append_assoc] at hreq ⊢
      refine hreq.unlink (fun p hp => hother p (mem_append_left _ hp)) ?_
      exact (hnext y).trans (if_pos rfl)
    · exact h.responses.congr fun p hp => hother p (mem_append_right _ hp)

omit h in
/-- A successful search takes one message from the request queue to the end of the response
queue. -/
theorem ioIrqLoop {y : Layout} {e : IrqEnv} {a b : List Ptr} {p : Ptr}
    (h : Queues s (a ++ b) resps) (hp : Linked 0 s.next p b)
    (hs : ioIrqLoop y e s s.deviceRequestQueueSize b.length (a.getLast?.getD 0) p = .ok s') :
    ∃ c m d, a ++ b = c ++ m :: d ∧ Queues s' (c ++ d) (resps ++ [m]) := by
  induction b generalizing a p with
  | nil => cases hs
  | cons m b ih =>
    obtain ⟨rfl, hm, hb⟩ := linked_cons_iff.1 hp
    rw [length_cons, Bbl.ioIrqLoop] at hs
    split_ifs at hs with hvalid hfound
    · cases hs
      exact ⟨a, p, b, rfl, h.serve e.ch⟩
    · -- the message stays; the next round has it as its last one
      have hcat : a ++ p :: b = (a ++ [p]) ++ b := by simp
      rw [hcat] at h ⊢
      refine ih h hb ?_
      simpa using hs

theorem ioIrqService {y : Layout} {e : IrqEnv} {r : BitVec 64}
    (hs : ioIrqService y e s = .ok (r, s')) :
    ∃ c m d, reqs = c ++ m :: d ∧ Queues s' (c ++ d) (resps ++ [m]) := by
  unfold Bbl.ioIrqService at hs
  split_ifs at hs with havail
  cases hloop : Bbl.ioIrqLoop y e s s.deviceRequestQueueSize s.deviceRequestQueueSize.toNat 0
      s.deviceRequestQueueHead with
  | error e => rw [hloop] at hs; cases hs
  | ok s'' =>
    rw [hloop] at hs
    cases hs
    rw [h.size] at hloop
    exact ioIrqLoop (a := []) h h.requests hloop

/-- A response takes the first message of the response queue, if there is one. -/
theorem mcallDevResp (ipiPending : Bool) :
    (mcallDevResp ipiPending s).1 = resps.head?.getD 0 ∧
      Queues (mcallDevResp ipiPending s).2 reqs resps.tail := by
  cases resps with
  | nil =>
    have hhead : s.deviceResponseQueueHead = 0 := h.responses
    simp only [mcallDevResp, hhead, ne_eq, not_true_eq_false, if_false]
    exact ⟨rfl, h⟩
  | cons m rest =>
    obtain ⟨hhead, hm, hrest⟩ := linked_cons_iff.1 h.responses
    have hnd : (reqs ++ rest).Nodup := by
      have hmid := h.nodup
      rw [nodup_middle] at hmid
      exact (nodup_cons.1 hmid).2
    have htail := h.tail
    rw [List.getLast?_cons] at htail
    -- taking the last message also clears the tail
    cases rest with
    | nil =>
      have hnext : s.next m = 0 := hrest
      simp only [mcallDevResp, hhead, ne_eq, hm, not_false_eq_true, if_true, hnext]
      exact ⟨rfl, h.requests, h.size, rfl, rfl, hnd⟩
    | cons x rest =>
      have hnext : s.next m = x := hrest.1
      have hx : x ≠ 0 := hrest.2.1
      simp only [mcallDevResp, hhead, ne_eq, hm, not_false_eq_true, if_true, hnext, hx,
        if_false]
      refine ⟨rfl, h.requests, h.size, ?_, ?_, hnd⟩
      · rw [hnext] at hrest
        exact hrest
      · simpa [List.getLast?_cons] using htail

end Queues

end TaggedRiscv.Bbl
