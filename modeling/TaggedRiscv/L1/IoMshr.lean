import TaggedRiscv.L1.DataPath
import TaggedRiscv.Lib.Machine

/-!
# The IO miss handler of the L1 data cache

A request to the IO space is sent outside the memory hierarchy by `IOMSHR`: it holds one request,
sends an uncached acquire for it, waits for the grant, and sends the request through the pipeline
of the cache once more if the core waits for the data.

The handler replays plain loads only. Load-reserved, store-conditional and the atomic operations
go out as a `Get` and are forgotten when the grant comes.
-/

namespace TaggedRiscv.L1

open Sync Packed

/-- The part of `MSHRReq` that the handler reads or sends on; `t` is the width of the core's
request tag. -/
structure IoReq (t : ℕ) where
  addr : BitVec 32
  tag : BitVec t
  cmd : MemCmd
  typ : MemTyp
  data : BitVec 68
  phys : Bool
  deriving DecidableEq

/-- The uncached acquires of the handler. Only 128 of the 136 bits of the data are driven. -/
inductive IoAcquire
  | put (addrBlock : BitVec 26) (addrBeat : BitVec 2) (data : BitVec 128) (wmask : BitVec 16)
  | get (addrBlock : BitVec 26) (addrBeat : BitVec 2) (addrByte : BitVec 4) (typ : MemTyp)
  deriving DecidableEq

namespace IoReq

variable {t : ℕ} (r : IoReq t)

/-- The write data: the doubleword in both halves of the beat. -/
def acqWdata : BitVec 128 := toBits fun _ : Fin 2 => StoreGen.data r.typ (dataOf r.data)

/-- The write mask: the bytes in the addressed half of the beat. -/
def acqWmask : BitVec 16 :=
  toBits fun k : Fin 2 =>
    if k.val = (r.addr.extractLsb' 3 1).toNat then StoreGen.mask r.typ (r.addr.extractLsb' 0 3)
    else 0#8

/-- The acquire for a request. Whatever is not a plain store is sent as a read. -/
def acq : IoAcquire :=
  if r.cmd = .XWR then
    .put (r.addr.extractLsb' 6 26) (r.addr.extractLsb' 4 2) r.acqWdata r.acqWmask
  else
    .get (r.addr.extractLsb' 6 26) (r.addr.extractLsb' 4 2) (r.addr.extractLsb' 0 4) r.typ

end IoReq

inductive IoState
  | invalid | ioReq | ioResp | replay
  deriving DecidableEq, Repr

structure IOMSHR (t : ℕ) where
  state : IoState
  req : IoReq t
  ioData : BitVec 64
  deriving DecidableEq

/-- The inputs of a cycle. The data of a grant is as wide as the outer interface. -/
structure IoMshrIn (t : ℕ) where
  req : Option (IoReq t)
  outerReqReady : Bool
  outerGnt : Option (BitVec 136)
  replayReady : Bool
  tagEnforeOn : Bool
  deriving DecidableEq

namespace IOMSHR

variable {t : ℕ} (m : IOMSHR t) (i : IoMshrIn t)

/-! The ports in one cycle. -/

/-- The request accepted. -/
def accepted : Option (IoReq t) := if m.state = .invalid then i.req else none

/-- The acquire taken by the outer interface. -/
def acquired : Option IoAcquire :=
  if m.state = .ioReq ∧ i.outerReqReady = true then some m.req.acq else none

/-- The grant taken. -/
def granted : Option (BitVec 136) := if m.state = .ioResp then i.outerGnt else none

/-- The replay taken by the cache. -/
def replayed : Option (IoReq t) :=
  if m.state = .replay ∧ i.replayReady = true then some { m.req with phys := true } else none

/-- The data port: the buffered data, with the invalid tag if tags are generated. -/
def ioDataOut : BitVec 68 := (if i.tagEnforeOn then invTag else 0#4) ++ m.ioData

def next : IOMSHR t where
  state :=
    match m.state with
    | .invalid => if i.req.isSome then .ioReq else .invalid
    | .ioReq => if i.outerReqReady then .ioResp else .ioReq
    | .ioResp =>
      if i.outerGnt.isSome then (if m.req.cmd = .XRD then .replay else .invalid) else .ioResp
    | .replay => if i.replayReady then .invalid else .replay
  req := (m.accepted i).getD m.req
  ioData :=
    match m.granted i with
    | some d => if m.req.cmd = .XRD then d.setWidth 64 else m.ioData
    | none => m.ioData

end IOMSHR

open IOMSHR

/-! ## What is seen at the ports -/

inductive IoEvent (t : ℕ)
  | accept (r : IoReq t)
  | acquire (a : IoAcquire)
  | grant (d : BitVec 136)
  | replay (r : IoReq t) (d : BitVec 64)
  deriving DecidableEq

/-- What the core gets for a replayed request: the request, the data with its tag, and whether
tags were generated in the cycle the data was sampled. -/
structure IoResult (t : ℕ) where
  req : IoReq t
  data : BitVec 68
  tagEnforeOn : Bool
  deriving DecidableEq

/-- The handler with the stage of the cache that samples its data, and what has been seen. -/
structure IoStage (t : ℕ) where
  mshr : IOMSHR t
  s1IoReplay : Bool
  s1Req : IoReq t
  events : List (IoEvent t)
  results : List (IoResult t)

namespace IoStage

variable {t : ℕ} (s : IoStage t) (i : IoMshrIn t)

def cycleEvents : List (IoEvent t) :=
  (s.mshr.accepted i).toList.map .accept ++ (s.mshr.acquired i).toList.map .acquire ++
    (s.mshr.granted i).toList.map .grant ++
    (s.mshr.replayed i).toList.map fun r => .replay r s.mshr.ioData

def next : IoStage t where
  mshr := s.mshr.next i
  s1IoReplay := (s.mshr.replayed i).isSome
  -- a replay that fires wins the request register of the first stage
  s1Req := (s.mshr.replayed i).getD s.s1Req
  events := s.events ++ s.cycleEvents i
  results :=
    if s.s1IoReplay then s.results ++ [⟨s.s1Req, s.mshr.ioDataOut i, i.tagEnforeOn⟩]
    else s.results

end IoStage

/-- The replays among the events. -/
def replays {t : ℕ} (es : List (IoEvent t)) : List (IoReq t × BitVec 64) :=
  es.filterMap fun
    | .replay r d => some (r, d)
    | _ => none

/-- What a request causes: its acquire, the grant, and, if the core waits for a result, one
replay of the same request with the data of that grant. -/
def transaction {t : ℕ} (x : IoReq t × BitVec 136) : List (IoEvent t) :=
  [.accept x.1, .acquire x.1.acq, .grant x.2] ++
    if x.1.cmd.isRead then [.replay { x.1 with phys := true } (x.2.setWidth 64)] else []

/-- Requests may be offered to the handler if `ok` allows them; everything else is free. -/
def ioMachine {t : ℕ} (ok : IoReq t → Prop) : Machine (IoStage t) (IoMshrIn t) where
  ok s i := ∀ r ∈ s.mshr.accepted i, ok r
  next := IoStage.next

instance {t : ℕ} (ok : IoReq t → Prop) [DecidablePred ok] (s : IoStage t) (i : IoMshrIn t) :
    Decidable ((ioMachine ok).ok s i) :=
  inferInstanceAs (Decidable (∀ r ∈ s.mshr.accepted i, ok r))

/-- After reset: the state is `invalid` and no replay is in the pipeline. -/
structure IoStage.Reset {t : ℕ} (s : IoStage t) : Prop where
  state : s.mshr.state = .invalid
  s1IoReplay : s.s1IoReplay = false
  events : s.events = []
  results : s.results = []

/-- A request that returns a result is a load. -/
def LoadIfRead {t : ℕ} (r : IoReq t) : Prop := r.cmd.isRead = true → r.cmd = .XRD
deriving Decidable

variable {t : ℕ}

/-- The part of a transaction that the handler's state stands for. -/
inductive Current : IOMSHR t → List (IoEvent t) → Prop
  | invalid {m : IOMSHR t} (h : m.state = .invalid) : Current m []
  | ioReq {m : IOMSHR t} (h : m.state = .ioReq) (hr : LoadIfRead m.req) :
    Current m [.accept m.req]
  | ioResp {m : IOMSHR t} (h : m.state = .ioResp) (hr : LoadIfRead m.req) :
    Current m [.accept m.req, .acquire m.req.acq]
  | replay {m : IOMSHR t} (d : BitVec 136) (h : m.state = .replay) (hr : m.req.cmd = .XRD)
    (hd : m.ioData = d.setWidth 64) :
    Current m [.accept m.req, .acquire m.req.acq, .grant d]

theorem transaction_of_not_read {x : IoReq t × BitVec 136} (h : x.1.cmd.isRead = false) :
    transaction x = [.accept x.1, .acquire x.1.acq, .grant x.2] := by
  simp [transaction, h]

theorem transaction_of_load {x : IoReq t × BitVec 136} (h : x.1.cmd = .XRD) :
    transaction x = [.accept x.1, .acquire x.1.acq, .grant x.2,
      .replay { x.1 with phys := true } (x.2.setWidth 64)] := by
  simp [transaction, h, MemCmd.isRead]

/-! ## The ports in each state -/

section Ports

variable {s : IoStage t} {i : IoMshrIn t}

theorem cycleEvents_invalid (h : s.mshr.state = .invalid) :
    s.cycleEvents i = i.req.toList.map .accept := by
  simp [IoStage.cycleEvents, accepted, acquired, granted, replayed, h]

theorem cycleEvents_ioReq (h : s.mshr.state = .ioReq) :
    s.cycleEvents i = if i.outerReqReady then [.acquire s.mshr.req.acq] else [] := by
  cases hr : i.outerReqReady <;>
    simp [IoStage.cycleEvents, accepted, acquired, granted,
      replayed, h, hr]

theorem cycleEvents_ioResp (h : s.mshr.state = .ioResp) :
    s.cycleEvents i = i.outerGnt.toList.map .grant := by
  simp [IoStage.cycleEvents, accepted, acquired, granted, replayed, h]

theorem cycleEvents_replay (h : s.mshr.state = .replay) :
    s.cycleEvents i =
      if i.replayReady then [.replay { s.mshr.req with phys := true } s.mshr.ioData] else [] := by
  cases hr : i.replayReady <;>
    simp [IoStage.cycleEvents, accepted, acquired, granted,
      replayed, h, hr]

end Ports

namespace IOMSHR

variable {m : IOMSHR t} {i : IoMshrIn t}

theorem next_req_of_busy (h : m.state ≠ .invalid) : (m.next i).req = m.req := by
  simp [next, accepted, h]

theorem next_ioData_of_not_ioResp (h : m.state ≠ .ioResp) : (m.next i).ioData = m.ioData := by
  simp [next, granted, h]

end IOMSHR

variable {s : IoStage t} {i : IoMshrIn t} {cur : List (IoEvent t)}

/-- A cycle adds to the transaction that has begun, ends it, or begins one. -/
theorem Current.next (hc : Current s.mshr cur) (hok : ∀ r ∈ s.mshr.accepted i, LoadIfRead r) :
    ∃ (done : List (IoReq t × BitVec 136)) (cur' : List (IoEvent t)),
      cur ++ s.cycleEvents i = done.flatMap transaction ++ cur' ∧
        Current (s.mshr.next i) cur' := by
  cases hc with
  | invalid h =>
    rw [cycleEvents_invalid h]
    cases hq : i.req with
    | none => exact ⟨[], [], rfl, .invalid (by simp [next, h, hq])⟩
    | some r =>
      have hacc : s.mshr.accepted i = some r := by simp [accepted, h, hq]
      have hreq : (s.mshr.next i).req = r := by simp [next, hacc]
      refine ⟨[], [.accept (s.mshr.next i).req], by simp [hreq],
        .ioReq (by simp [next, h, hq]) ?_⟩
      rw [hreq]
      exact hok r hacc
  | ioReq h hr =>
    have hreq : (s.mshr.next i).req = s.mshr.req := next_req_of_busy (by simp [h])
    rw [cycleEvents_ioReq h, ← hreq]
    rw [← hreq] at hr
    cases ho : i.outerReqReady with
    | false => exact ⟨[], _, rfl, .ioReq (by simp [next, h, ho]) hr⟩
    | true => exact ⟨[], _, rfl, .ioResp (by simp [next, h, ho]) hr⟩
  | ioResp h hr =>
    have hreq : (s.mshr.next i).req = s.mshr.req := next_req_of_busy (by simp [h])
    rw [cycleEvents_ioResp h]
    cases hg : i.outerGnt with
    | none =>
      rw [← hreq] at hr ⊢
      exact ⟨[], _, rfl, .ioResp (by simp [next, h, hg]) hr⟩
    | some d =>
      by_cases hx : s.mshr.req.cmd = .XRD
      · -- a load: its data is kept for the replay
        refine ⟨[], [.accept (s.mshr.next i).req, .acquire (s.mshr.next i).req.acq, .grant d],
          by simp [hreq], .replay d ?_ (hreq ▸ hx) ?_⟩
        · simp [next, h, hg, hx]
        · simp [next, granted, h, hg, hx]
      · -- not a load, so nothing waits for the data
        have hread : s.mshr.req.cmd.isRead = false := Bool.eq_false_iff.2 fun hr' => hx (hr hr')
        refine ⟨[(s.mshr.req, d)], [], ?_, .invalid (by simp [next, h, hg, hx])⟩
        simp [transaction_of_not_read (x := (s.mshr.req, d)) hread]
  | replay d h hr hd =>
    have hreq : (s.mshr.next i).req = s.mshr.req := next_req_of_busy (by simp [h])
    have hdata : (s.mshr.next i).ioData = s.mshr.ioData :=
      next_ioData_of_not_ioResp (by simp [h])
    rw [cycleEvents_replay h]
    cases hp : i.replayReady with
    | false =>
      refine ⟨[], [.accept (s.mshr.next i).req, .acquire (s.mshr.next i).req.acq, .grant d],
        by simp [hreq], .replay d ?_ (hreq ▸ hr) (hdata.trans hd)⟩
      simp [next, h, hp]
    | true =>
      refine ⟨[(s.mshr.req, d)], [], ?_, .invalid (by simp [next, h, hp])⟩
      simp [transaction_of_load (x := (s.mshr.req, d)) hr, hd]

/-! ## Whole runs -/

/-- The results the core has got and the one it is about to get are the replays in order. -/
def IoStage.awaited (s : IoStage t) : List (IoReq t × BitVec 64) :=
  s.results.map (fun x => (x.req, dataOf x.data)) ++
    if s.s1IoReplay then [(s.s1Req, s.mshr.ioData)] else []

/-- What holds in every cycle. -/
structure IoStage.Inv (s : IoStage t) : Prop where
  events : ∃ (done : List (IoReq t × BitVec 136)) (cur : List (IoEvent t)),
    s.events = done.flatMap transaction ++ cur ∧ Current s.mshr cur
  results : replays s.events = s.awaited
  tags : ∀ x ∈ s.results, tagOf x.data = if x.tagEnforeOn then invTag else 0#4

theorem replays_append (es fs : List (IoEvent t)) :
    replays (es ++ fs) = replays es ++ replays fs := List.filterMap_append

theorem replays_cycleEvents (s : IoStage t) (i : IoMshrIn t) :
    replays (s.cycleEvents i) = (s.mshr.replayed i).toList.map fun r => (r, s.mshr.ioData) := by
  simp [replays, IoStage.cycleEvents, List.filterMap_append, List.filterMap_map]

theorem IOMSHR.state_of_replayed {m : IOMSHR t} {r : IoReq t}
    (h : m.replayed i = some r) : m.state = .replay := by
  by_contra hne
  simp [replayed, hne] at h

@[simp] theorem IOMSHR.dataOf_ioDataOut (m : IOMSHR t) (i : IoMshrIn t) :
    dataOf (m.ioDataOut i) = m.ioData := dataOf_append _ _

@[simp] theorem IOMSHR.tagOf_ioDataOut (m : IOMSHR t) (i : IoMshrIn t) :
    tagOf (m.ioDataOut i) = if i.tagEnforeOn then invTag else 0#4 :=
  TagUtil.extract_high_append _ m.ioData

/-- The result sampled in a cycle is the one awaited, and a replay is awaited from then on. -/
theorem IoStage.awaited_next (s : IoStage t) (i : IoMshrIn t) :
    (s.next i).awaited =
      s.awaited ++ (s.mshr.replayed i).toList.map fun r => (r, s.mshr.ioData) := by
  have hres : (s.next i).results.map (fun x => (x.req, dataOf x.data)) = s.awaited := by
    cases h : s.s1IoReplay <;> simp [IoStage.next, IoStage.awaited, h]
  rw [IoStage.awaited, hres]
  congr 1
  cases hr : s.mshr.replayed i with
  | none => simp [IoStage.next, hr]
  | some r =>
    -- the data is not overwritten while the replay is on its way
    have hdata : (s.mshr.next i).ioData = s.mshr.ioData :=
      next_ioData_of_not_ioResp (by simp [state_of_replayed hr])
    simp [IoStage.next, hr, hdata]

theorem IoStage.Inv.next (hs : s.Inv)
    (hok : ∀ r ∈ s.mshr.accepted i, LoadIfRead r) : (s.next i).Inv := by
  refine ⟨?_, ?_, ?_⟩
  · obtain ⟨done, cur, hev, hcur⟩ := hs.events
    obtain ⟨done', cur', hcyc, hcur'⟩ := hcur.next hok
    refine ⟨done ++ done', cur', ?_, hcur'⟩
    change s.events ++ s.cycleEvents i = _
    rw [hev, List.append_assoc, hcyc, List.flatMap_append, List.append_assoc]
  · change replays (s.events ++ s.cycleEvents i) = _
    rw [replays_append, replays_cycleEvents, hs.results, IoStage.awaited_next]
  · intro x hx
    have hmem : x ∈ s.results ∨ x = ⟨s.s1Req, s.mshr.ioDataOut i, i.tagEnforeOn⟩ := by
      cases h : s.s1IoReplay <;> simp [IoStage.next, h] at hx
      · exact .inl hx
      · exact hx
    rcases hmem with hx | rfl
    · exact hs.tags x hx
    · exact tagOf_ioDataOut s.mshr i

theorem IoStage.Reset.inv (h : s.Reset) : s.Inv where
  events := ⟨[], [], h.events, .invalid h.state⟩
  results := by simp [h.events, replays, IoStage.awaited, h.results, h.s1IoReplay]
  tags := by simp [h.results]

/-! ## Progress -/

/-- The outer interface and the cache answer at once. -/
def Responsive (s : IoStage t) (i : IoMshrIn t) : Prop :=
  i.outerReqReady = true ∧ i.replayReady = true ∧
    (s.mshr.state = .ioResp → i.outerGnt.isSome = true)

/-- The cycles a transaction still takes. -/
def IoState.rank : IoState → ℕ
  | .invalid => 0
  | .replay => 1
  | .ioResp => 2
  | .ioReq => 3

theorem rank_next_lt (hr : Responsive s i)
    (hb : s.mshr.state ≠ .invalid) : (s.next i).mshr.state.rank < s.mshr.state.rank := by
  obtain ⟨ho, hp, hg⟩ := hr
  change (s.mshr.next i).state.rank < _
  cases h : s.mshr.state with
  | invalid => exact absurd h hb
  | ioReq => simp [next, h, ho, IoState.rank]
  | ioResp => by_cases hx : s.mshr.req.cmd = .XRD <;> simp [next, h, hg h, hx, IoState.rank]
  | replay => simp [next, h, hp, IoState.rank]

/-- The machine whose environment also answers at once. -/
def responsiveMachine (ok : IoReq t → Prop) : Machine (IoStage t) (IoMshrIn t) where
  ok s i := (∀ r ∈ s.mshr.accepted i, ok r) ∧ Responsive s i
  next := IoStage.next

/-- Within as many cycles as its rank the handler is free. -/
theorem invalid_within_rank {ok : IoReq t → Prop} (n : ℕ) :
    ∀ {s : IoStage t} {more : List (IoMshrIn t)}, s.mshr.state.rank ≤ n → n ≤ more.length →
      (responsiveMachine ok).Legal s more →
      ∃ k ≤ n, ((responsiveMachine ok).run s (more.take k)).mshr.state = .invalid := by
  -- the rank drops in every cycle of a transaction, so the induction is on a bound of it
  induction n with
  | zero =>
    intro s more hrank _ _
    refine ⟨0, le_refl 0, ?_⟩
    cases h : s.mshr.state <;> simp [h, IoState.rank] at hrank
    exact h
  | succ n ih =>
    intro s more hrank hlen hl
    by_cases hb : s.mshr.state = .invalid
    · exact ⟨0, Nat.zero_le _, hb⟩
    cases more with
    | nil => simp at hlen
    | cons i more =>
      have hlt := rank_next_lt hl.1.2 hb
      obtain ⟨k, hk, hinv⟩ := ih (s := s.next i) (by omega) (Nat.le_of_succ_le_succ hlen) hl.2
      exact ⟨k + 1, Nat.succ_le_succ hk, hinv⟩

theorem IoState.rank_le (st : IoState) : st.rank ≤ 3 := by cases st <;> decide

theorem Current.eq_nil {m : IOMSHR t} (hc : Current m cur) (h : m.state = .invalid) : cur = [] := by
  cases hc with
  | invalid _ => rfl
  | ioReq h' _ | ioResp h' _ | replay _ h' _ _ => simp [h] at h'

/-- The begun part is the beginning of a transaction. -/
theorem Current.isPrefix {m : IOMSHR t} (hc : Current m cur) :
    ∃ x : IoReq t × BitVec 136, cur <+: transaction x := by
  cases hc with
  | invalid _ => exact ⟨(m.req, 0), List.nil_prefix⟩
  | ioReq _ _ => exact ⟨(m.req, 0), _, rfl⟩
  | ioResp _ _ => exact ⟨(m.req, 0), _, rfl⟩
  | replay d _ _ _ => exact ⟨(m.req, d), _, rfl⟩

/-- If every accepted request that returns a result is a load, then in every run from reset the
events at the ports are whole transactions and the beginning of one more: each load is replayed
once, as itself and with the data of its own grant, before another request is accepted, and a
store is never replayed. The core gets the replays in order, one cycle later, with the invalid
tag exactly if tags are generated then. And after at most three cycles in which the other side
answers at once, everything accepted is answered. -/
theorem io_loads_replayed_once (s : IoStage t) (hs : s.Reset) (is : List (IoMshrIn t))
    (hl : (ioMachine LoadIfRead).Legal s is) :
    (∃ (done : List (IoReq t × BitVec 136)) (cur : List (IoEvent t)) (next : IoReq t × BitVec 136),
      ((ioMachine LoadIfRead).run s is).events = done.flatMap transaction ++ cur ∧
        cur <+: transaction next) ∧
    (replays ((ioMachine LoadIfRead).run s is).events =
      ((ioMachine LoadIfRead).run s is).awaited) ∧
    (∀ x ∈ ((ioMachine LoadIfRead).run s is).results,
      tagOf x.data = if x.tagEnforeOn then invTag else 0#4) ∧
    ∀ more, (responsiveMachine LoadIfRead).Legal ((ioMachine LoadIfRead).run s is) more →
      3 ≤ more.length → ∃ k ≤ 3, ∃ done : List (IoReq t × BitVec 136),
        ((responsiveMachine LoadIfRead).run ((ioMachine LoadIfRead).run s is)
          (more.take k)).events = done.flatMap transaction := by
  have hinv : ((ioMachine LoadIfRead).run s is).Inv :=
    Machine.invariant_run (m := ioMachine LoadIfRead) (P := IoStage.Inv)
      (fun _ _ h hok => h.next hok) hs.inv hl
  refine ⟨?_, hinv.results, hinv.tags, fun more hmore hlen => ?_⟩
  · obtain ⟨done, cur, hev, hcur⟩ := hinv.events
    obtain ⟨x, hx⟩ := hcur.isPrefix
    exact ⟨done, cur, x, hev, hx⟩
  · obtain ⟨k, hk, hfree⟩ := invalid_within_rank 3 (IoState.rank_le _) hlen hmore
    have hthen := Machine.invariant_run (m := responsiveMachine LoadIfRead) (P := IoStage.Inv)
      (fun _ _ h hok => h.next hok.1) hinv (Machine.legal_take _ hmore k)
    obtain ⟨done, cur, hev, hcur⟩ := hthen.events
    rw [hcur.eq_nil hfree, List.append_nil] at hev
    exact ⟨k, hk, done, hev⟩

/-- A request of a core with one-bit request tags. -/
def ioRequest (cmd : MemCmd) : IoReq 1 := ⟨0x40000008, 1, cmd, .W, 3, false⟩

/-- A request followed by four cycles in which everyone is ready. -/
def ioCycles (cmd : MemCmd) : List (IoMshrIn 1) :=
  ⟨some (ioRequest cmd), true, some 0x77, true, true⟩ ::
    List.replicate 4 ⟨none, true, some 0x77, true, true⟩

def ioIdle : IoStage 1 := ⟨⟨.invalid, ioRequest .XRD, 0⟩, false, ioRequest .XRD, [], []⟩

theorem io_loads_replayed_once_load :
    replays ((ioMachine LoadIfRead).run ioIdle (ioCycles .XRD)).events =
      [({ ioRequest .XRD with phys := true }, 0x77)] := by
  have h := io_loads_replayed_once ioIdle ⟨rfl, rfl, rfl, rfl⟩ (ioCycles .XRD)
    (by decide +kernel)
  rw [h.2.1]
  decide +kernel

/-- An atomic addition goes out as a read. When the grant has come the handler is free, nothing
was replayed, and nothing will be. -/
theorem io_amo_never_replayed :
    (ioRequest .XA_ADD).cmd.isRead = true ∧
    ((ioMachine fun _ => True).run ioIdle (ioCycles .XA_ADD)).events =
      [.accept (ioRequest .XA_ADD), .acquire (.get 0x1000000 0 8 .W), .grant 0x77] ∧
    ((ioMachine fun _ => True).run ioIdle (ioCycles .XA_ADD)).mshr.state = .invalid ∧
    ((ioMachine fun _ => True).run ioIdle (ioCycles .XA_ADD)).results = [] := by
  decide +kernel

end TaggedRiscv.L1
