import TaggedRiscv.Bbl.DeviceQueues

/-!
# No message is lost or duplicated

Any sequence of calls, with a history of the messages accepted, answered and returned. Between
calls the supervisor uses its memory as it likes, and so do the device and the file system during
a call, except that a message is left alone while the boot loader has it and is not handed over a
second time.
-/

namespace TaggedRiscv.Bbl

/-- What happens to the queues and the messages. -/
inductive Call
  | devReq (e : ReqEnv) (m : Ptr)
  | ioIrq (e : IrqEnv)
  | devResp (ipiPending : Bool)
  | supervisor (mem : Ptr → Message)

/-- The result of a call and the state after it. -/
def step (y : Layout) (s : State) : Call → Except Panic (BitVec 64 × State)
  | .devReq e m => mcallDevReq y e m s
  | .ioIrq e => ioIrqService y e s
  | .devResp ipiPending => .ok (mcallDevResp ipiPending s)
  | .supervisor mem => .ok (0, { s with mem := mem })

/-- The messages accepted, put in the response queue and returned so far. -/
structure History where
  accepted : List Ptr
  responded : List Ptr
  returned : List Ptr
  deriving DecidableEq, Repr

namespace History

/-- A message the boot loader has accepted more often than returned. -/
def Outstanding (h : History) (p : Ptr) : Prop := h.returned.count p < h.accepted.count p
deriving Decidable

/-- A request that returns zero is accepted; a message enters the response queue at its
tail; a response that is not null returns a message. -/
def record (h : History) (r : BitVec 64) (s : State) : Call → History
  | .devReq _ m =>
    if r = 0 then
      { h with
        accepted := h.accepted ++ [m]
        responded := if s.deviceResponseQueueTail = m then h.responded ++ [m] else h.responded }
    else h
  | .ioIrq _ => { h with responded := h.responded ++ [s.deviceResponseQueueTail] }
  | .devResp _ => if r ≠ 0 then { h with returned := h.returned ++ [r] } else h
  | .supervisor _ => h

end History

/-- What the supervisor keeps to: it hands over a message that does not overlap with those the
boot loader has, and leaves these alone, also in the memory it has filled for it. Null is not a
message. -/
def Fair (s : State) (h : History) : Call → Prop
  | .devReq e m => (e.prvM = true → m ≠ 0) ∧ ∀ p, h.Outstanding p → Apart p m ∧ e.filled p = s.mem p
  | .supervisor mem => ∀ p, h.Outstanding p → mem p = s.mem p
  | _ => True

/-- The state `hls_init` leaves. -/
def State.init (mem : Ptr → Message) (ssip : Bool) : State where
  deviceRequestQueueHead := 0
  deviceRequestQueueSize := 0
  deviceResponseQueueHead := 0
  deviceResponseQueueTail := 0
  mem := mem
  ssip := ssip

/-- Where the messages are: a pointer accepted a number of times has been returned as often,
or once less and is in exactly one of the queues. -/
structure Conserved (x : State × History) (reqs resps : List Ptr) : Prop
    extends Queues x.1 reqs resps where
  tail_zero : x.1.deviceResponseQueueTail = 0 ↔ resps = []
  accepted : ∀ p, x.2.accepted.count p = reqs.count p + resps.count p + x.2.returned.count p
  fifo : x.2.responded = x.2.returned ++ resps

namespace Conserved

variable {y : Layout} {x : State × History} {s' : State} {reqs resps : List Ptr}

variable (h : Conserved x reqs resps)

include h

theorem outstanding_iff (p : Ptr) : x.2.Outstanding p ↔ p ∈ reqs ++ resps := by
  rw [History.Outstanding, h.accepted p, List.mem_append, ← List.count_pos_iff (l := reqs),
    ← List.count_pos_iff (l := resps)]
  omega

omit h in
theorem of_queues {h : History} (hq : Queues s' reqs resps)
    (hacc : ∀ p, h.accepted.count p = reqs.count p + resps.count p + h.returned.count p)
    (hfifo : h.responded = h.returned ++ resps) : Conserved (s', h) reqs resps :=
  ⟨hq, hq.tail_eq_zero_iff, hacc, hfifo⟩

/-- Memory outside the queues may change. -/
theorem setMem {mem : Ptr → Message} (hmem : ∀ p, x.2.Outstanding p → mem p = x.1.mem p) :
    Queues { x.1 with mem := mem } reqs resps := by
  refine h.toQueues.congr (fun p hp => ?_) rfl rfl rfl rfl
  simp only [State.next, hmem p ((h.outstanding_iff p).2 hp)]

/-- An accepted request goes to one of the queues. -/
theorem devReq {e : ReqEnv} {m : Ptr} {o : Outcome} (hm : m ≠ 0)
    (hfair : Fair x.1 x.2 (.devReq e m)) :
    ∃ reqs' resps', Conserved (x.1.carryOut e m o,
      x.2.record 0 (x.1.carryOut e m o) (.devReq e m)) reqs' resps' := by
  have hout := hfair.2
  have hnew : m ∉ reqs ++ resps := fun hmem =>
    absurd (hout m ((h.outstanding_iff m).2 hmem)).1 (by simp [Apart, messageSize])
  cases o with
  | respond fill resp =>
    have hq : Queues (x.1.carryOut e m (.respond fill resp)) reqs (resps ++ [m]) := by
      refine Queues.mcallRespond ?_ hm hnew resp
      split_ifs
      · exact h.setMem fun p hp => (hout p hp).2
      · exact h.toQueues
    have htail : (x.1.carryOut e m (.respond fill resp)).deviceResponseQueueTail = m := by
      rw [hq.tail, List.getLast?_concat, Option.getD_some]
    refine ⟨reqs, resps ++ [m], of_queues hq ?_ ?_⟩
    · intro p
      simp only [History.record, if_true, List.count_append, h.accepted p]
      omega
    · simp only [History.record, if_true, htail, h.fifo, List.append_assoc]
  | keep =>
    have hq := h.toQueues.pushRequest hm hnew
    have htail : ¬ (x.1.carryOut e m .keep).deviceResponseQueueTail = m := by
      -- the tail did not change, and it is null or a message of the queue
      intro htail
      have hlast : resps.getLast?.getD 0 = m := h.tail.symm.trans htail
      cases hl : resps.getLast? with
      | none => exact hm (by rw [← hlast, hl]; rfl)
      | some t =>
        rw [hl, Option.getD_some] at hlast
        exact hnew (List.mem_append_right _ (hlast ▸ List.mem_of_getLast? hl))
    refine ⟨m :: reqs, resps, of_queues hq ?_ ?_⟩
    · intro p
      simp only [History.record, if_true, List.count_append, List.count_cons, List.count_nil,
        h.accepted p]
      omega
    · simp only [History.record, if_true, htail, if_false, h.fifo]

/-- The interrupt moves a message from the request queue to the end of the response queue. -/
theorem ioIrq {e : IrqEnv} {r : BitVec 64} (hs : step y x.1 (.ioIrq e) = .ok (r, s')) :
    ∃ reqs' resps', Conserved (s', x.2.record r s' (.ioIrq e)) reqs' resps' := by
  obtain ⟨a, m, b, rfl, hq⟩ := h.toQueues.ioIrqService hs
  -- the history learns which message was answered from the tail of the queue
  have htail : s'.deviceResponseQueueTail = m := by
    rw [hq.tail, List.getLast?_concat, Option.getD_some]
  refine ⟨a ++ b, resps ++ [m], of_queues hq ?_ ?_⟩
  · intro p
    simp only [History.record, h.accepted p, List.count_append, List.count_cons, List.count_nil]
    omega
  · simp only [History.record, htail, h.fifo, List.append_assoc]

/-- The supervisor gets the first message of the response queue, or null. -/
theorem devResp {ipiPending : Bool} {r : BitVec 64}
    (hs : step y x.1 (.devResp ipiPending) = .ok (r, s')) :
    ∃ reqs' resps', Conserved (s', x.2.record r s' (.devResp ipiPending)) reqs' resps' := by
  obtain ⟨hr, hq⟩ := h.toQueues.mcallDevResp ipiPending
  have hpair : mcallDevResp ipiPending x.1 = (r, s') := Except.ok.inj hs
  rw [hpair] at hr hq
  cases resps with
  | nil =>
    have hr0 : r = 0 := hr
    refine ⟨reqs, [], of_queues hq ?_ ?_⟩
    · simpa [History.record, hr0] using h.accepted
    · simpa [History.record, hr0] using h.fifo
  | cons m rest =>
    have hrm : r = m := hr
    have hm : m ≠ 0 := h.responses.2.1
    -- null would not count as returned
    have hrec : x.2.record r s' (.devResp ipiPending) =
        { x.2 with returned := x.2.returned ++ [m] } := by
      rw [History.record, hrm, if_pos hm]
    rw [hrec]
    refine ⟨reqs, rest, of_queues hq (fun p => ?_) ?_⟩
    · simp only [h.accepted p, List.count_append, List.count_cons, List.count_nil]
      omega
    · simp only [h.fifo, List.append_assoc, List.singleton_append]

/-- Every call that does not panic keeps every message. -/
theorem step {c : Call} {r : BitVec 64} (hfair : Fair x.1 x.2 c) (hs : step y x.1 c = .ok (r, s')) :
    ∃ reqs' resps', Conserved (s', x.2.record r s' c) reqs' resps' := by
  cases c with
  | devReq e m =>
    obtain ⟨hr, rfl⟩ | ⟨rfl, hvalid, o, rfl⟩ := mcallDevReq_cases hs
    · -- refused: neither the queues nor the history change
      refine ⟨reqs, resps, ?_⟩
      rwa [History.record, if_neg hr]
    · have hm : m ≠ 0 := by
        rintro rfl
        rw [supervisorPaddrValid_zero] at hvalid
        exact hfair.1 (hvalid.resolve_left (by decide)) rfl
      exact h.devReq hm hfair
  | ioIrq e => exact h.ioIrq hs
  | devResp ipiPending => exact h.devResp hs
  | supervisor mem =>
    cases hs
    exact ⟨reqs, resps, of_queues (h.setMem hfair) h.accepted h.fifo⟩

end Conserved

end TaggedRiscv.Bbl
