import TaggedRiscv.Vm.Walk
import TaggedRiscv.Vm.Ptw
import TaggedRiscv.Lib.Machine

/-!
# The walker walks

The answers of the walker are those of the reference walk. Along a run the cache of table entries
agrees with memory, as long as no table has changed since the last `invalidate`; so an entry that is
skipped is a table of the walk.
-/

namespace TaggedRiscv.Vm

open Sync PTE

variable {p : VmParams} {n : ℕ}

/-! ## The environment -/

/-- A walk that a requestor asked for; it is fresh if no table had changed since the last
`invalidate`. -/
structure AskedWalk (p : VmParams) (n : ℕ) where
  dest : Fin n
  walk : Walk p
  fresh : Bool

/-- The cycle of an answer: what the requestors see, what was written for the walk, and the
memory. -/
structure WalkAnswer (p : VmParams) (n : ℕ) where
  resp : Fin n → Option (PTWResp p)
  writes : List (BitVec p.paddrBits × BitVec p.xLen)
  mem : Memory p

/-- Memory with what happened so far. -/
structure PTWLog (p : VmParams) (n : ℕ) where
  mem : Memory p
  /-- The access that the data cache has accepted. -/
  access : Option (MemReq p)
  /-- A table has changed since the last `invalidate`. -/
  changed : Bool
  /-- What was or-ed into memory for the walk under way. -/
  writes : List (BitVec p.paddrBits × BitVec p.xLen)
  asked : List (AskedWalk p n)
  answers : List (WalkAnswer p n)
  /-- The cycles in which a walk went on. -/
  work : ℕ

/-- A cycle: the inputs of the walker, and the stores of others. -/
structure PTWCycle (p : VmParams) (n : ℕ) where
  io : PTWIn p n
  stores : List (BitVec p.paddrBits × BitVec p.xLen)

/-- Memory after stores. -/
def storeAll (m : Memory p) : List (BitVec p.paddrBits × BitVec p.xLen) → Memory p
  | [] => m
  | (a, w) :: ws => storeAll (Function.update m a w) ws

/-- The stores change a table. -/
def changesTable (m : Memory p) : List (BitVec p.paddrBits × BitVec p.xLen) → Bool
  | [] => false
  | (a, w) :: ws =>
    (fromBits (m a)).table && decide (w ≠ m a) || changesTable (Function.update m a w) ws

/-- A cycle in which the walk goes on: an entry is found in the cache, an access is answered,
or the walk is. -/
def PTW.goesOn (s : PTW p n) (i : PTWIn p n) : Bool :=
  match s.state with
  | .ready | .setDirty => false
  | .req => s.skip
  | .wait | .waitDirty =>
    match i.memResp with
    | .data _ => true
    | _ => false
  | .done | .error => true

namespace PTWLog

/-- No access, no request, no answer yet. -/
def start (m : Memory p) : PTWLog p n := ⟨m, none, false, [], [], [], 0⟩

/-- The or that the data cache performs in a cycle. -/
def performed (g : PTWLog p n) (i : PTWIn p n) : List (BitVec p.paddrBits × BitVec p.xLen) :=
  match i.memResp, g.access with
  | .data _, some ⟨a, .or, d⟩ => [(a, d)]
  | _, _ => []

/-- Memory after a cycle. -/
def memNext (g : PTWLog p n) (c : PTWCycle p n) : Memory p :=
  orWrites (storeAll g.mem c.stores) (g.performed c.io)

/-- Whether a table has changed, after a cycle. -/
def changedNext (g : PTWLog p n) (c : PTWCycle p n) : Bool :=
  if c.io.invalidate then false else g.changed || changesTable g.mem c.stores

/-- The record after a cycle. -/
def step (g : PTWLog p n) (s : PTW p n) (c : PTWCycle p n) : PTWLog p n :=
  { mem := g.memNext c
    access := match s.memReqFire c.io with
      | some q => some q
      | none => if c.io.memResp = .idle then g.access else none
    changed := g.changedNext c
    writes := if (s.arbFire c.io).isSome then [] else g.writes ++ g.performed c.io
    asked := match s.arbFire c.io with
      | some (j, q) =>
        g.asked ++ [⟨j, ⟨q, (c.io.ptbr >>> p.pgIdxBits).setWidth p.ppnBits, g.memNext c⟩,
          !g.changedNext c⟩]
      | none => g.asked
    answers := if s.respVal then g.answers ++ [⟨s.resp, g.writes, g.mem⟩] else g.answers
    work := g.work + (s.goesOn c.io).toNat }

end PTWLog

open PTWLog

/-- Others store only while there is no walk, and the data cache answers the access that it
accepted with the word in memory. -/
structure PTWCycle.Ok (c : PTWCycle p n) (s : PTW p n) (g : PTWLog p n) : Prop where
  stores : s.state ≠ .ready → c.stores = []
  data : ∀ d, c.io.memResp = .data d → ∃ q, g.access = some q ∧ d = g.mem q.addr

instance (c : PTWCycle p n) (s : PTW p n) (g : PTWLog p n) : Decidable (c.Ok s g) :=
  let check : Bool := (s.state == .ready || c.stores.isEmpty) &&
    match c.io.memResp with
    | .data d => g.access.any fun q => d == g.mem q.addr
    | _ => true
  decidable_of_iff (check = true) (by
    simp only [check, Bool.and_eq_true, Bool.or_eq_true, beq_iff_eq, List.isEmpty_iff]
    constructor
    · rintro ⟨hst, hd⟩
      refine ⟨fun h => hst.resolve_left h, fun d hr => ?_⟩
      simpa [hr, Option.any_eq_true] using hd
    · rintro ⟨hst, hd⟩
      refine ⟨or_iff_not_imp_left.2 hst, ?_⟩
      cases hr : c.io.memResp with
      | data d => simpa [Option.any_eq_true] using hd d hr
      | idle => rfl
      | nack => rfl)

/-- The walker with memory and log. -/
abbrev ptwMachine : Machine (PTW p n × PTWLog p n) (PTWCycle p n) where
  ok s c := c.Ok s.1 s.2
  next s c := (s.1.next c.io, s.2.step s.1 c)

/-! ## Invariants -/

/-- A walk that was answered: by an answer to its requestor only, which for a fresh walk is
that of the reference walk, with its writes and no others. -/
structure AskedWalk.Answered (a : AskedWalk p n) (w : WalkAnswer p n) : Prop where
  others : ∀ j, j ≠ a.dest → w.resp j = none
  own : ∃ r, w.resp a.dest = some r ∧ (a.fresh → a.walk.Result r)
  writes : a.fresh → w.writes = a.walk.writes
  mem : a.fresh → w.mem = orWrites a.walk.mem w.writes

namespace PTW

variable {s : PTW p n} {g : PTWLog p n} {c : PTWCycle p n}

/-- The access that the state waits for. -/
def awaited (s : PTW p n) : Option (MemReq p) :=
  match s.state with
  | .wait => some ⟨s.pteAddr, .read, s.pteWdata.toBits⟩
  | .waitDirty => some ⟨s.pteAddr, .or, s.pteWdata.toBits⟩
  | _ => none

/-- How far a walk has come. -/
inductive Phase (s : PTW p n) (g : PTWLog p n) (w : Walk p) : Prop
  /-- At a level on the way down. -/
  | descend (hs : s.state = .req ∨ s.state = .wait) (hc : s.count < p.pgLevels)
      (hleft : walkFrom w.mem w.req.addr (p.pgLevels - s.count) s.rPte.ppn = w.leaf)
      (hw : g.writes = []) (hm : g.mem = w.mem)
  /-- About to mark the leaf. -/
  | mark (hs : s.state = .setDirty ∨ s.state = .waitDirty) (l : Leaf p) (hl : w.leaf = some l)
      (ha : s.pteAddr = l.addr) (hc : s.count = l.level)
      (he : l.entry = fromBits (w.mem l.addr)) (hn : needsMark w.req l.entry)
      (hw : g.writes = []) (hm : g.mem = w.mem)
  /-- Reading the marked leaf again. -/
  | marked (hs : s.state = .req ∨ s.state = .wait) (l : Leaf p) (hl : w.leaf = some l)
      (ha : s.pteAddr = l.addr) (hc : s.count = l.level)
      (he : l.entry = fromBits (w.mem l.addr)) (hn : needsMark w.req l.entry)
      (hw : g.writes = w.writes) (hm : g.mem = orWrites w.mem w.writes)
  /-- With a leaf. -/
  | found (hs : s.state = .done) (l : Leaf p) (hl : w.leaf = some l) (hc : s.count = l.level)
      (he : s.rPte = w.marked l.entry) (hw : g.writes = w.writes)
      (hm : g.mem = orWrites w.mem w.writes)
  /-- Without one. -/
  | failed (hs : s.state = .error) (hl : w.leaf = none) (hw : g.writes = []) (hm : g.mem = w.mem)

/-- The walk under way is the last one that was asked for. -/
structure Walking (s : PTW p n) (g : PTWLog p n) (a : AskedWalk p n) : Prop where
  busy : s.state ≠ .ready
  dest : s.rReqDest = a.dest
  req : s.rReq = a.walk.req
  unchanged : a.fresh → g.changed = false
  phase : a.fresh → s.Phase g a.walk

/-- What holds along a run. -/
structure Inv (s : PTW p n) (g : PTWLog p n) : Prop where
  /-- The cache agrees with memory. -/
  cache : g.changed = false → ∀ j, s.cache.valid j →
    (fromBits (g.mem (s.cache.tags j))).table ∧
      s.cache.data j = (fromBits (g.mem (s.cache.tags j))).ppn
  access : g.access = s.awaited
  dirty : s.state = .setDirty ∨ s.state = .waitDirty →
    (fromBits (g.mem s.pteAddr)).leaf
  walks : (s.state = .ready ∧ List.Forall₂ AskedWalk.Answered g.asked g.answers) ∨
    ∃ old a, g.asked = old ++ [a] ∧ List.Forall₂ AskedWalk.Answered old g.answers ∧
      s.Walking g a

/-! ## Memory -/

/-- An answer of the data cache is to the entry that the walker waits for. -/
theorem Inv.data_eq (h : s.Inv g) (hok : c.Ok s g) {d : BitVec p.xLen}
    (hd : c.io.memResp = .data d) :
    (s.state = .wait ∨ s.state = .waitDirty) ∧ d = g.mem s.pteAddr := by
  obtain ⟨q, hq, rfl⟩ := hok.data d hd
  rw [h.access] at hq
  cases hs : s.state <;> simp only [awaited, hs, reduceCtorEq, Option.some.injEq] at hq
  · exact ⟨.inl rfl, by rw [← hq]⟩
  · exact ⟨.inr rfl, by rw [← hq]⟩

/-- An or is performed only on the leaf. -/
theorem Inv.performed_eq (h : s.Inv g) (c : PTWCycle p n) :
    g.performed c.io = [] ∨ s.state = .waitDirty ∧ (∃ d, c.io.memResp = .data d) ∧
      g.performed c.io = [(s.pteAddr, s.pteWdata.toBits)] := by
  unfold performed
  rw [h.access]
  cases hr : c.io.memResp <;> cases hs : s.state <;> simp [awaited, hs]

/-- Stores that change no table keep the tables. -/
theorem storeAll_table {m : Memory p} {ws : List (BitVec p.paddrBits × BitVec p.xLen)}
    (hno : changesTable m ws = false) {a : BitVec p.paddrBits}
    (ha : (fromBits (m a)).table) : storeAll m ws a = m a := by
  induction ws generalizing m with
  | nil => rfl
  | cons w ws ih =>
    obtain ⟨b, w⟩ := w
    simp only [changesTable, Bool.or_eq_false_iff, Bool.and_eq_false_iff, decide_eq_false_iff_not,
      not_not] at hno
    -- a store to `a` itself stores what is there
    have hsame : Function.update m b w a = m a := by
      by_cases hb : a = b
      · subst hb
        rcases hno.1 with hno | hno
        · simp [ha] at hno
        · simp [hno]
      · rw [Function.update_of_ne hb]
    rw [storeAll, ih hno.2 (by rw [hsame, ha]), hsame]

/-- Tables are kept while none counts as changed. -/
theorem Inv.table_kept (h : s.Inv g) (hinv : c.io.invalidate = false)
    (hch : g.changedNext c = false) {a : BitVec p.paddrBits}
    (ha : (fromBits (g.mem a)).table) (hok : c.Ok s g) : g.memNext c a = g.mem a := by
  simp only [changedNext, hinv, Bool.false_eq_true, if_false, Bool.or_eq_false_iff] at hch
  unfold memNext
  rcases h.performed_eq c with hp | ⟨hs, -, hp⟩
  · rw [hp]
    exact storeAll_table hch.2 ha
  · -- the marked entry is a leaf
    have hst : c.stores = [] := hok.stores (by simp [hs])
    have hne : a ≠ s.pteAddr := by
      rintro rfl
      have := not_leaf_of_table _ ha
      rw [h.dirty (.inr hs)] at this
      simp at this
    simp [hp, hst, storeAll, orWrites, hne]

theorem Inv.cache_next (h : s.Inv g) (hok : c.Ok s g) (hch : (g.step s c).changed = false)
    (j : Fin (pteCacheSize p)) (hj : (s.next c.io).cache.valid j) :
    (fromBits ((g.step s c).mem ((s.next c.io).cache.tags j))).table ∧
      (s.next c.io).cache.data j =
        (fromBits ((g.step s c).mem ((s.next c.io).cache.tags j))).ppn := by
  change g.changedNext c = false at hch
  change (fromBits (g.memNext c _)).table = true ∧ _ = (fromBits (g.memNext c _)).ppn
  have hinv : c.io.invalidate = false := by
    cases hinv : c.io.invalidate with
    | false => rfl
    | true => simp [next, cacheNext, hinv] at hj
  have hold : g.changed = false := by
    simp only [changedNext, hinv, Bool.false_eq_true, if_false, Bool.or_eq_false_iff] at hch
    exact hch.1
  -- an entry that was there before
  have hkept : s.cache.valid j →
      (fromBits (g.memNext c (s.cache.tags j))).table ∧
        s.cache.data j = (fromBits (g.memNext c (s.cache.tags j))).ppn := by
    intro hv
    have hag := h.cache hold j hv
    rw [h.table_kept hinv hch hag.1 hok]
    exact hag
  cases hf : s.cacheFill c.io with
  | none =>
    simp only [next, cacheNext, hinv, hf] at hj ⊢
    exact hkept hj
  | some e =>
    simp only [next, cacheNext, hinv, hf, Bool.false_eq_true, if_false, writeAt] at hj ⊢
    by_cases hway : j.val = s.cacheWay
    · -- the table that was read just now
      simp only [hway, if_true]
      cases hr : c.io.memResp <;> simp only [cacheFill, hr, reduceCtorEq] at hf
      rename_i d
      obtain ⟨-, rfl⟩ := h.data_eq hok hr
      split_ifs at hf with ht
      · obtain rfl := Option.some.inj hf
        have ht' := (Bool.and_eq_true_iff.1 ht).1
        rw [h.table_kept hinv hch ht' hok]
        exact ⟨ht', rfl⟩
    · simp only [hway, if_false] at hj ⊢
      exact hkept hj

/-! ## Registers -/

/-- A walk under way keeps its request. -/
theorem arbFire_eq_none (hs : s.state ≠ .ready) (i : PTWIn p n) : s.arbFire i = none := by
  simp [arbFire, hs]

theorem rReq_next (hs : s.state ≠ .ready) (i : PTWIn p n) : (s.next i).rReq = s.rReq := by
  simp [next, arbFire_eq_none hs]

theorem rReqDest_next (hs : s.state ≠ .ready) (i : PTWIn p n) :
    (s.next i).rReqDest = s.rReqDest := by
  simp [next, arbFire_eq_none hs]

/-- The entry that is read is the one of the reference walk. -/
theorem pteAddr_eq (s : PTW p n) : s.pteAddr = entryAddr s.rPte.ppn s.rReq.addr s.count := rfl

/-- The registers of a walk stay. -/
structure Stays (s s' : PTW p n) : Prop where
  count : s'.count = s.count
  rPte : s'.rPte = s.rPte
  rReq : s'.rReq = s.rReq

namespace Stays

variable {s' : PTW p n}

theorem pteAddr (h : Stays s s') : s'.pteAddr = s.pteAddr := by
  rw [pteAddr_eq, pteAddr_eq, h.count, h.rPte, h.rReq]

theorem pteWdata (h : Stays s s') : s'.pteWdata = s.pteWdata := by
  simp [PTW.pteWdata, h.rReq]

end Stays

/-- The registers of a walk stay but for a table that is skipped or an entry that is read. -/
theorem stays_next {i : PTWIn p n} (hready : s.state ≠ .ready)
    (hreq : s.state = .req → s.skip = false)
    (hwait : s.state = .wait → ∀ d, i.memResp ≠ .data d) : Stays s (s.next i) := by
  refine ⟨?_, ?_, rReq_next hready i⟩
  · cases hs : s.state <;> simp only [next, countNext, hs]
    · exact absurd hs hready
    · simp [hreq hs]
    · cases hr : i.memResp with
      | data d => exact absurd hr (hwait hs d)
      | idle => rfl
      | nack => rfl
  · cases hs : s.state <;> simp only [next, rPteNext, hs]
    · exact absurd hs hready
    · simp [hreq hs]
    · cases hr : i.memResp with
      | data d => exact absurd hr (hwait hs d)
      | idle => rfl
      | nack => rfl

/-- What a walk under way does in a cycle. -/
inductive Moves (s : PTW p n) (i : PTWIn p n) : Prop
  /-- A table in the cache is skipped. -/
  | skip (hs : s.state = .req) (hskip : s.skip) (hst : (s.next i).state = .req)
      (hc : (s.next i).count = s.count + 1) (hp : (s.next i).rPte.ppn = s.pteCacheData)
      (hq : s.memReqFire i = none)
  /-- The entry is asked for. -/
  | ask (hs : s.state = .req) (hskip : s.skip = false) (hst : (s.next i).state = .wait)
      (hstays : Stays s (s.next i))
      (hq : s.memReqFire i = some ⟨s.pteAddr, .read, s.pteWdata.toBits⟩)
  /-- The entry is read. -/
  | read (d : BitVec p.xLen) (hs : s.state = .wait) (hd : i.memResp = .data d)
      (hst : (s.next i).state = s.readNext (fromBits d))
      (hc : (s.next i).count =
        if (fromBits d).table && decide (s.count < p.pgLevels - 1) then s.count + 1
        else s.count)
      (hp : (s.next i).rPte =
        if s.setDirtyBit (fromBits d) then s.rPte else fromBits d)
      (hq : s.memReqFire i = none)
  /-- The leaf is asked to be marked. -/
  | askMark (hs : s.state = .setDirty) (hst : (s.next i).state = .waitDirty)
      (hstays : Stays s (s.next i))
      (hq : s.memReqFire i = some ⟨s.pteAddr, .or, s.pteWdata.toBits⟩)
  /-- The leaf is marked. -/
  | mark (d : BitVec p.xLen) (hs : s.state = .waitDirty) (hd : i.memResp = .data d)
      (hst : (s.next i).state = .req) (hstays : Stays s (s.next i)) (hq : s.memReqFire i = none)
  /-- An access is refused, to be asked for again. -/
  | retry (hd : i.memResp = .nack)
      (hst : s.state = .wait ∧ (s.next i).state = .req ∨
        s.state = .waitDirty ∧ (s.next i).state = .setDirty)
      (hstays : Stays s (s.next i)) (hq : s.memReqFire i = none)
  /-- Nothing happens. -/
  | stall (hst : (s.next i).state = s.state) (hstays : Stays s (s.next i))
      (hs : s.state = .req ∧ s.skip = false ∨ s.state = .setDirty ∨
        (s.state = .wait ∨ s.state = .waitDirty) ∧ i.memResp = .idle)
      (hq : s.memReqFire i = none)
  /-- The walk is answered. -/
  | answer (hs : s.state = .done ∨ s.state = .error) (hst : (s.next i).state = .ready)
      (hq : s.memReqFire i = none)

theorem moves (hready : s.state ≠ .ready) (i : PTWIn p n) : Moves s i := by
  cases hs : s.state with
  | ready => exact absurd hs hready
  | req =>
    cases hskip : s.skip with
    | true =>
      exact .skip hs hskip (by simp [next, stateNext, hs, hskip])
        (by simp [next, countNext, hs, hskip]) (by simp [next, rPteNext, hs, hskip])
        (by simp [memReqFire, memReq, hs, hskip])
    | false =>
      have hstays : Stays s (s.next i) :=
        stays_next hready (fun _ => hskip) (fun h => by simp [hs] at h)
      cases hm : i.memReady with
      | true =>
        exact .ask hs hskip (by simp [next, stateNext, hs, hskip, hm]) hstays
          (by simp [memReqFire, memReq, hs, hskip, hm])
      | false =>
        exact .stall (by simp [next, stateNext, hs, hskip, hm]) hstays (.inl ⟨hs, hskip⟩)
          (by simp [memReqFire, hm])
  | wait =>
    have hq : s.memReqFire i = none := by simp [memReqFire, memReq, hs]
    cases hr : i.memResp with
    | data d =>
      exact .read d hs hr (by simp [next, stateNext, hs, hr]) (by simp [next, countNext, hs, hr])
        (by simp [next, rPteNext, hs, hr]) hq
    | nack =>
      exact .retry hr (.inl ⟨hs, by simp [next, stateNext, hs, hr]⟩)
        (stays_next hready (fun h => by simp [hs] at h) (fun _ d => by simp [hr])) hq
    | idle =>
      exact .stall (by simp [next, stateNext, hs, hr])
        (stays_next hready (fun h => by simp [hs] at h) (fun _ d => by simp [hr]))
        (.inr (.inr ⟨.inl hs, hr⟩)) hq
  | setDirty =>
    have hstays : Stays s (s.next i) :=
      stays_next hready (fun h => by simp [hs] at h) (fun h => by simp [hs] at h)
    cases hm : i.memReady with
    | true =>
      exact .askMark hs (by simp [next, stateNext, hs, hm]) hstays
        (by simp [memReqFire, memReq, hs, hm])
    | false =>
      exact .stall (by simp [next, stateNext, hs, hm]) hstays (.inr (.inl hs))
        (by simp [memReqFire, hm])
  | waitDirty =>
    have hq : s.memReqFire i = none := by simp [memReqFire, memReq, hs]
    have hstays : Stays s (s.next i) :=
      stays_next hready (fun h => by simp [hs] at h) (fun h => by simp [hs] at h)
    cases hr : i.memResp with
    | data d => exact .mark d hs hr (by simp [next, stateNext, hs, hr]) hstays hq
    | nack => exact .retry hr (.inr ⟨hs, by simp [next, stateNext, hs, hr]⟩) hstays hq
    | idle => exact .stall (by simp [next, stateNext, hs, hr]) hstays (.inr (.inr ⟨.inr hs, hr⟩)) hq
  | done =>
    exact .answer (.inl hs) (by simp [next, stateNext, hs]) (by simp [memReqFire, memReq, hs])
  | error =>
    exact .answer (.inr hs) (by simp [next, stateNext, hs]) (by simp [memReqFire, memReq, hs])

/-- The states after an entry has been read wait for nothing. -/
theorem readNext_ne_wait (s : PTW p n) (e : PTE p) :
    s.readNext e ≠ .wait ∧ s.readNext e ≠ .waitDirty := by
  unfold readNext
  split_ifs <;> simp

theorem awaited_eq_none (hw : s.state ≠ .wait) (hd : s.state ≠ .waitDirty) : s.awaited = none := by
  unfold awaited
  cases hs : s.state <;> simp_all

/-- The data cache works on what the state waits for. -/
theorem Inv.access_next (h : s.Inv g) : (g.step s c).access = (s.next c.io).awaited := by
  have hacc := h.access
  by_cases hready : s.state = .ready
  · have hst : (s.next c.io).state = .ready ∨ (s.next c.io).state = .req := by
      simp only [next, stateNext, hready]
      split_ifs <;> simp
    rw [awaited_eq_none (by simp [hready]) (by simp [hready])] at hacc
    rw [awaited_eq_none (by rcases hst with hst | hst <;> simp [hst])
      (by rcases hst with hst | hst <;> simp [hst])]
    simp [step, memReqFire, memReq, hready, hacc]
  · cases moves hready c.io with
    | skip hs hskip hst hc hp hq =>
      rw [awaited_eq_none (by simp [hs]) (by simp [hs])] at hacc
      rw [awaited_eq_none (by simp [hst]) (by simp [hst])]
      simp [step, hq, hacc]
    | ask hs hskip hst hstays hq =>
      simp [step, hq, awaited, hst, hstays.pteAddr, hstays.pteWdata]
    | read d hs hd hst hc hp hq =>
      rw [awaited_eq_none (hst ▸ (readNext_ne_wait s _).1) (hst ▸ (readNext_ne_wait s _).2)]
      simp [step, hq, hd]
    | askMark hs hst hstays hq =>
      simp [step, hq, awaited, hst, hstays.pteAddr, hstays.pteWdata]
    | mark d hs hd hst hstays hq =>
      rw [awaited_eq_none (by simp [hst]) (by simp [hst])]
      simp [step, hq, hd]
    | retry hd hst hstays hq =>
      rw [awaited_eq_none (by rcases hst with hst | hst <;> simp [hst.2])
        (by rcases hst with hst | hst <;> simp [hst.2])]
      simp [step, hq, hd]
    | stall hst hstays hs hq =>
      have haw : (s.next c.io).awaited = s.awaited := by
        simp only [awaited, hst, hstays.pteAddr, hstays.pteWdata]
      rw [haw, ← hacc]
      rcases hs with ⟨hs, -⟩ | hs | ⟨-, hr⟩
      · rw [awaited_eq_none (by simp [hs]) (by simp [hs])] at hacc
        simp [step, hq, hacc]
      · rw [awaited_eq_none (by simp [hs]) (by simp [hs])] at hacc
        simp [step, hq, hacc]
      · simp [step, hq, hr]
    | answer hs hst hq =>
      rw [awaited_eq_none (by rcases hs with hs | hs <;> simp [hs])
        (by rcases hs with hs | hs <;> simp [hs])] at hacc
      rw [awaited_eq_none (by simp [hst]) (by simp [hst])]
      simp [step, hq, hacc]

/-! ## Phases -/

/-- Memory changes during a walk only by a mark. -/
theorem Inv.mem_next (h : s.Inv g) (hok : c.Ok s g) (hready : s.state ≠ .ready)
    (hno : s.state = .waitDirty → ∀ d, c.io.memResp ≠ .data d) :
    (g.step s c).mem = g.mem ∧ (g.step s c).writes = g.writes := by
  have hp : g.performed c.io = [] := by
    rcases h.performed_eq c with hp | ⟨hs, ⟨d, hd⟩, -⟩
    · exact hp
    · exact absurd hd (hno hs d)
  simp [step, memNext, hp, hok.stores hready, storeAll, orWrites,
    arbFire_eq_none hready]

theorem Inv.mem_mark (h : s.Inv g) (hok : c.Ok s g) (hs : s.state = .waitDirty)
    {d : BitVec p.xLen} (hd : c.io.memResp = .data d) :
    (g.step s c).mem = orWrites g.mem [(s.pteAddr, s.pteWdata.toBits)] ∧
      (g.step s c).writes = g.writes ++ [(s.pteAddr, s.pteWdata.toBits)] := by
  have hready : s.state ≠ .ready := by simp [hs]
  have hp : g.performed c.io = [(s.pteAddr, s.pteWdata.toBits)] := by
    simp [performed, hd, h.access, awaited, hs]
  simp [step, memNext, hp, hok.stores hready, storeAll, arbFire_eq_none hready]

theorem setDirtyBit_eq (s : PTW p n) (e : PTE p) : s.setDirtyBit e = needsMark s.rReq e := rfl

/-- Marks are made in leaves. -/
theorem Inv.dirty_next (h : s.Inv g) (hok : c.Ok s g)
    (hst : (s.next c.io).state = .setDirty ∨ (s.next c.io).state = .waitDirty) :
    (fromBits ((g.step s c).mem (s.next c.io).pteAddr)).leaf := by
  by_cases hready : s.state = .ready
  · simp only [next, stateNext, hready] at hst
    split_ifs at hst <;> simp at hst
  · cases moves hready c.io with
    | skip hs hskip hst' hc hp hq => simp [hst'] at hst
    | ask hs hskip hst' hstays hq => simp [hst'] at hst
    | read d hs hd hst' hc hp hq =>
      obtain ⟨-, rfl⟩ := h.data_eq hok hd
      have hm := (h.mem_next hok hready (by simp [hs])).1
      rw [hst', readNext] at hst
      split_ifs at hst with hleaf hdirty <;> simp at hst
      have htable : (fromBits (g.mem s.pteAddr)).table = false := by
        by_contra ht
        simp [not_leaf_of_table _ (by simpa using ht)] at hleaf
      have hstays : Stays s (s.next c.io) :=
        ⟨by simp [hc, htable], by simp [hp, hdirty], rReq_next hready _⟩
      rw [hm, hstays.pteAddr, hleaf]
    | askMark hs hst' hstays hq =>
      rw [(h.mem_next hok hready (by simp [hs])).1, hstays.pteAddr]
      exact h.dirty (.inl hs)
    | mark d hs hd hst' hstays hq => simp [hst'] at hst
    | retry hd hst' hstays hq =>
      rcases hst' with ⟨-, hst'⟩ | ⟨hs, hst'⟩
      · simp [hst'] at hst
      · rw [(h.mem_next hok hready (by simp [hd])).1, hstays.pteAddr]
        exact h.dirty (.inr hs)
    | stall hst' hstays hs hq =>
      have hidle : s.state = .waitDirty → ∀ d, c.io.memResp ≠ .data d := by
        intro hw
        rcases hs with ⟨hs, -⟩ | hs | ⟨-, hr⟩
        · simp [hs] at hw
        · simp [hs] at hw
        · simp [hr]
      rw [(h.mem_next hok hready hidle).1, hstays.pteAddr]
      rw [hst'] at hst
      exact h.dirty hst
    | answer hs hst' hq => simp [hst'] at hst

/-- An entry that is skipped is a table. -/
theorem Inv.skip_table (h : s.Inv g) (hch : g.changed = false) (hskip : s.skip) :
    (fromBits (g.mem s.pteAddr)).table ∧
      s.pteCacheData = (fromBits (g.mem s.pteAddr)).ppn ∧ s.count < p.pgLevels - 1 := by
  simp only [skip, pteCacheHit, Bool.and_eq_true, List.any_eq_true, decide_eq_true_eq] at hskip
  obtain ⟨⟨j, -, hj⟩, hcount⟩ := hskip
  have hhit : ∀ j, s.hits j → (fromBits (g.mem s.pteAddr)).table ∧
      s.cache.data j = (fromBits (g.mem s.pteAddr)).ppn := by
    intro j hj
    simp only [hits, Bool.and_eq_true, beq_iff_eq] at hj
    have := h.cache hch j hj.2
    rwa [hj.1] at this
  exact ⟨(hhit j hj).1, mux1H_eq_of_forall (fun j hj => (hhit j hj).2) ⟨j, hj⟩, hcount⟩

/-- A phase stays with the registers while reads stay reads and marks stay marks. -/
theorem Phase.stays {s' : PTW p n} {g' : PTWLog p n} {w : Walk p} (h : s.Phase g w)
    (hstays : Stays s s') (hlog : g'.mem = g.mem ∧ g'.writes = g.writes)
    (hread : s.state = .req ∨ s.state = .wait → s'.state = .req ∨ s'.state = .wait)
    (hmark : s.state = .setDirty ∨ s.state = .waitDirty →
      s'.state = .setDirty ∨ s'.state = .waitDirty)
    (hend : s.state ≠ .done ∧ s.state ≠ .error) : s'.Phase g' w := by
  cases h with
  | descend hs hc hleft hw hm =>
    refine .descend (hread hs) (hstays.count ▸ hc) ?_ (hlog.2.trans hw) (hlog.1.trans hm)
    rw [hstays.count, hstays.rPte, hleft]
  | mark hs l hl ha hc he hn hw hm =>
    exact .mark (hmark hs) l hl (hstays.pteAddr.trans ha) (hstays.count.trans hc) he hn
      (hlog.2.trans hw) (hlog.1.trans hm)
  | marked hs l hl ha hc he hn hw hm =>
    exact .marked (hread hs) l hl (hstays.pteAddr.trans ha) (hstays.count.trans hc) he hn
      (hlog.2.trans hw) (hlog.1.trans hm)
  | found hs => exact absurd hs hend.1
  | failed hs => exact absurd hs hend.2

section Steps

variable {w : Walk p}

/-- The walk as it goes on below a table. -/
theorem walkFrom_table (hreq : s.rReq = w.req) (hm : g.mem = w.mem) (hc : s.count < p.pgLevels)
    (hleft : walkFrom w.mem w.req.addr (p.pgLevels - s.count) s.rPte.ppn = w.leaf)
    (htable : (fromBits (g.mem s.pteAddr)).table) :
    walkFrom w.mem w.req.addr (p.pgLevels - (s.count + 1))
      (fromBits (g.mem s.pteAddr)).ppn = w.leaf := by
  rw [hm] at htable ⊢
  rw [walkFrom_level _ _ hc, ← hreq, ← pteAddr_eq] at hleft
  simpa [not_leaf_of_table _ htable, htable, hreq] using hleft

/-- Nothing is skipped once the leaf is marked. -/
theorem Phase.writes_of_skip (h : s.Phase g w) (hi : s.Inv g) (hch : g.changed = false)
    (hs : s.state = .req) (hskip : s.skip) : g.writes = [] := by
  obtain ⟨htable, -, -⟩ := hi.skip_table hch hskip
  cases h with
  | descend _ _ _ hw => exact hw
  | marked _ l hl ha hc he hn hw hm =>
    rw [hm, ha, Walk.fromBits_orWrites hl hn he] at htable
    have := not_leaf_of_table _ htable
    simp [Walk.marked, hn, leaf_of_needsMark hn] at this
  | mark h' => simp [hs] at h'
  | found h' => simp [hs] at h'
  | failed h' => simp [hs] at h'

/-- A table that is skipped is one level of the walk. -/
theorem Phase.skipped (h : s.Phase g w) (hi : s.Inv g) (hok : c.Ok s g) (hreq : s.rReq = w.req)
    (hch : g.changed = false) (hs : s.state = .req) (hskip : s.skip)
    (hst : (s.next c.io).state = .req) (hc' : (s.next c.io).count = s.count + 1)
    (hp : (s.next c.io).rPte.ppn = s.pteCacheData) : (s.next c.io).Phase (g.step s c) w := by
  obtain ⟨htable, hdata, hlt⟩ := hi.skip_table hch hskip
  obtain ⟨hmem, hwr⟩ := hi.mem_next hok (by simp [hs]) (by simp [hs])
  have hnil := h.writes_of_skip hi hch hs hskip
  cases h with
  | descend _ hc hleft hw hm =>
    refine .descend (.inl hst) (by omega) ?_ (hwr.trans hw) (hmem.trans hm)
    rw [hc', hp, hdata]
    exact walkFrom_table hreq hm hc hleft htable
  | marked _ l hl ha hc he hn hw hm => simp [hw, Walk.writes_eq hl hn] at hnil
  | mark h' => simp [hs] at h'
  | found h' => simp [hs] at h'
  | failed h' => simp [hs] at h'

/-- The marked leaf, read again, is found as it was marked. -/
theorem marked_entry {l : Leaf p} (hreq : s.rReq = w.req) (hl : w.leaf = some l)
    (ha : s.pteAddr = l.addr) (he : l.entry = fromBits (w.mem l.addr))
    (hn : needsMark w.req l.entry) (hm : g.mem = orWrites w.mem w.writes) :
    fromBits (g.mem s.pteAddr) = l.entry.mark w.req.store ∧
      (fromBits (g.mem s.pteAddr)).leaf ∧
      s.setDirtyBit (fromBits (g.mem s.pteAddr)) = false := by
  have hentry : fromBits (g.mem s.pteAddr) = l.entry.mark w.req.store := by
    rw [hm, ha, Walk.fromBits_orWrites hl hn he, Walk.marked, hn, if_pos rfl]
  rw [hentry, setDirtyBit_eq, hreq]
  exact ⟨rfl, by simp [leaf_of_needsMark hn], needsMark_mark _ _⟩

section Read

variable (hi : s.Inv g) (hok : c.Ok s g) (hreq : s.rReq = w.req) (hs : s.state = .wait)
  (hst : (s.next c.io).state = s.readNext (fromBits (g.mem s.pteAddr)))
  (hc' : (s.next c.io).count =
    if (fromBits (g.mem s.pteAddr)).table && decide (s.count < p.pgLevels - 1)
    then s.count + 1 else s.count)
  (hp : (s.next c.io).rPte =
    if s.setDirtyBit (fromBits (g.mem s.pteAddr)) then s.rPte else fromBits (g.mem s.pteAddr))
include hi hok hreq hs hst hc' hp

/-- An entry that is read on the way down ends the walk or leads on. -/
theorem Phase.descended (hc : s.count < p.pgLevels)
    (hleft : walkFrom w.mem w.req.addr (p.pgLevels - s.count) s.rPte.ppn = w.leaf)
    (hw : g.writes = []) (hm : g.mem = w.mem) : (s.next c.io).Phase (g.step s c) w := by
  obtain ⟨hmem, hwr⟩ := hi.mem_next hok (by simp [hs]) (by simp [hs])
  have hlevel := hleft
  rw [walkFrom_level _ _ hc, ← hreq, ← pteAddr_eq, ← hm] at hlevel
  rw [setDirtyBit_eq, hreq] at hp
  unfold readNext at hst
  rw [setDirtyBit_eq, hreq] at hst
  -- what the reference walk finds at this level
  obtain ⟨e, he⟩ : ∃ e, fromBits (g.mem s.pteAddr) = e := ⟨_, rfl⟩
  rw [he] at hlevel hst hc' hp
  cases hleaf : e.leaf with
  | true =>
    have htable : e.table = false := by
      by_contra ht
      simp [e.not_leaf_of_table (by simpa using ht)] at hleaf
    have hl : w.leaf = some ⟨s.pteAddr, s.count, e⟩ := by
      rw [← hlevel]
      simp [hleaf]
    have hce : (s.next c.io).count = s.count := by simp [hc', htable]
    cases hn : needsMark w.req e with
    | true =>
      have hstays : Stays s (s.next c.io) :=
        ⟨hce, by simp [hp, hn], rReq_next (by simp [hs]) _⟩
      refine .mark (.inl (by simp [hst, hleaf, hn])) _ hl hstays.pteAddr hce ?_ hn
        (hwr.trans hw) (hmem.trans hm)
      rw [← hm, he]
    | false =>
      have hno : w.writes = [] := by
        refine Walk.writes_eq_nil fun l hl' => ?_
        obtain rfl := Option.some.inj (hl.symm.trans hl')
        exact hn
      refine .found (by simp [hst, hleaf, hn]) _ hl hce (by simp [hp, Walk.marked, hn]) ?_ ?_
      · rw [hwr, hw, hno]
      · rw [hmem, hm, hno]
        rfl
  | false =>
    have hn : needsMark w.req e = false := by
      by_contra hn
      simp [leaf_of_needsMark (by simpa using hn)] at hleaf
    cases htable : e.table with
    | true =>
      have hnext := walkFrom_table hreq hm hc hleft (he ▸ htable)
      rw [he] at hnext
      by_cases hlast : s.count < p.pgLevels - 1
      · have hcn : (s.next c.io).count = s.count + 1 := by simp [hc', htable, hlast]
        refine .descend (.inl (by simp [hst, hleaf, htable, hlast])) (by omega) ?_
          (hwr.trans hw) (hmem.trans hm)
        rw [hcn, hp, hn]
        exact hnext
      · -- no level is left
        have hzero : p.pgLevels - (s.count + 1) = 0 := by omega
        rw [hzero] at hnext
        exact .failed (by simp [hst, hleaf, hlast]) hnext.symm (hwr.trans hw) (hmem.trans hm)
    | false =>
      refine .failed (by simp [hst, hleaf, htable]) ?_ (hwr.trans hw) (hmem.trans hm)
      rw [← hlevel]
      simp [hleaf, htable]

/-- The marked leaf, read again, ends the walk. -/
theorem Phase.reread {l : Leaf p} (hl : w.leaf = some l) (ha : s.pteAddr = l.addr)
    (hc : s.count = l.level) (he : l.entry = fromBits (w.mem l.addr))
    (hn : needsMark w.req l.entry) (hw : g.writes = w.writes)
    (hm : g.mem = orWrites w.mem w.writes) : (s.next c.io).Phase (g.step s c) w := by
  obtain ⟨hmem, hwr⟩ := hi.mem_next hok (by simp [hs]) (by simp [hs])
  obtain ⟨hentry, hleaf, hdone⟩ := marked_entry hreq hl ha he hn hm
  have htable : (fromBits (g.mem s.pteAddr)).table = false := by
    by_contra ht
    simp [not_leaf_of_table _ (by simpa using ht)] at hleaf
  refine .found (by simp [hst, readNext, hleaf, hdone]) l hl (by simpa [hc', htable] using hc) ?_
    (hwr.trans hw) (hmem.trans hm)
  rw [hp, hdone, hentry, Walk.marked, hn]
  rfl

end Read

theorem Phase.next (h : s.Phase g w) (hi : s.Inv g) (hok : c.Ok s g) (hready : s.state ≠ .ready)
    (hreq : s.rReq = w.req) (hch : g.changed = false)
    (hgo : (s.next c.io).state ≠ .ready) : (s.next c.io).Phase (g.step s c) w := by
  cases moves hready c.io with
  | skip hs hskip hst hc hp hq => exact h.skipped hi hok hreq hch hs hskip hst hc hp
  | ask hs hskip hst hstays hq =>
    exact h.stays hstays (hi.mem_next hok hready (by simp [hs])) (fun _ => .inr hst)
      (fun h' => by simp [hs] at h') (by simp [hs])
  | read d hs hd hst hc hp hq =>
    obtain ⟨-, rfl⟩ := hi.data_eq hok hd
    cases h with
    | descend _ hc' hleft hw hm => exact .descended hi hok hreq hs hst hc hp hc' hleft hw hm
    | marked _ l hl ha hc' he hn hw hm =>
      exact .reread hi hok hreq hs hst hc hp hl ha hc' he hn hw hm
    | mark h' => simp [hs] at h'
    | found h' => simp [hs] at h'
    | failed h' => simp [hs] at h'
  | askMark hs hst hstays hq =>
    exact h.stays hstays (hi.mem_next hok hready (by simp [hs])) (fun h' => by simp [hs] at h')
      (fun _ => .inr hst) (by simp [hs])
  | mark d hs hd hst hstays hq =>
    obtain ⟨hmem, hwr⟩ := hi.mem_mark hok hs hd
    cases h with
    | mark _ l hl ha hc he hn hw hm =>
      have hwrites : w.writes = [(s.pteAddr, s.pteWdata.toBits)] := by
        rw [Walk.writes_eq hl hn, ha, pteWdata, hreq]
      refine .marked (.inl hst) l hl (hstays.pteAddr.trans ha) (hstays.count.trans hc) he hn ?_ ?_
      · rw [hwr, hw, hwrites, List.nil_append]
      · rw [hmem, hm, hwrites]
    | descend h' => simp [hs] at h'
    | marked h' => simp [hs] at h'
    | found h' => simp [hs] at h'
    | failed h' => simp [hs] at h'
  | retry hd hst hstays hq =>
    refine h.stays hstays (hi.mem_next hok hready (by simp [hd])) ?_ ?_ ?_
    all_goals rcases hst with ⟨hs, hst⟩ | ⟨hs, hst⟩ <;> simp [hs, hst]
  | stall hst hstays hs hq =>
    refine h.stays hstays (hi.mem_next hok hready ?_) (by simp [hst]) (by simp [hst]) ?_
    all_goals rcases hs with ⟨hs, -⟩ | hs | ⟨hs | hs, hr⟩ <;> simp [*]
  | answer hs hst hq => exact absurd hst hgo

end Steps

/-! ## Answers -/

theorem rRespPpn_eq (s : PTW p n) : s.rRespPpn = s.rPte.ppn := by
  apply BitVec.eq_of_getLsbD_eq
  intro j hj
  have hlow : ¬ p.pgIdxBits + j < p.pgLevelBits + p.wordOffBits := by
    unfold VmParams.pgIdxBits
    omega
  have hsub : p.pgIdxBits + j - (p.pgLevelBits + p.wordOffBits) = j := by
    unfold VmParams.pgIdxBits
    omega
  have hbit : s.pteAddr.getLsbD (p.pgIdxBits + j) = s.rPte.ppn.getLsbD j := by
    change (s.rPte.ppn ++ (s.vpnIdx ++ 0#p.wordOffBits)).getLsbD (p.pgIdxBits + j) = _
    rw [BitVec.getLsbD_append, if_neg hlow, hsub]
  simpa [rRespPpn, hj] using hbit

/-- The low bits of the physical page number are those of the page. -/
theorem getLsbD_respPpn (s : PTW p n) {j : ℕ} (hj : j < p.ppnBits) :
    s.respPpn.getLsbD j =
      if j < p.pgLevelBits * (p.pgLevels - s.count - 1) then s.rReq.addr.getLsbD j
      else s.rPte.ppn.getLsbD j := by
  unfold respPpn
  rw [rRespPpn_eq]
  by_cases hlast : s.count < p.pgLevels - 1
  · simp only [hlast, if_true, BitVec.getLsbD_setWidth, hj, decide_true, Bool.true_and,
      BitVec.getLsbD_append, BitVec.getLsbD_ushiftRight]
    split_ifs with hlow
    · simp [hlow]
    · rw [Nat.add_sub_cancel' (by omega)]
  · have hzero : p.pgLevels - s.count - 1 = 0 := by omega
    simp [hlast, hzero]

/-- The end of a fresh walk is its result. -/
theorem Phase.result {w : Walk p} (h : s.Phase g w) (hend : s.state = .done ∨ s.state = .error)
    (hreq : s.rReq = w.req) :
    w.Result ⟨s.respErr, { s.rPte with ppn := s.respPpn }⟩ ∧ g.writes = w.writes ∧
      g.mem = orWrites w.mem g.writes := by
  cases h with
  | found hs l hl hc he hw hm =>
    refine ⟨?_, hw, by rw [hm, hw]⟩
    have hppn : (w.marked l.entry).ppn = l.entry.ppn := by
      unfold Walk.marked
      split_ifs <;> rfl
    simp only [Walk.Result, hl]
    refine ⟨by simp [respErr, hs], by rw [he], fun j hj => ?_⟩
    rw [getLsbD_respPpn s hj, hc, he, hppn, hreq]
  | failed hs hl hw hm =>
    have hno : w.writes = [] := by simp [Walk.writes, hl]
    refine ⟨by simp [Walk.Result, hl, respErr, hs], by rw [hw, hno], by rw [hm, hw, orWrites]⟩
  | descend hs => rcases hs with hs | hs <;> simp [hs] at hend
  | mark hs => rcases hs with hs | hs <;> simp [hs] at hend
  | marked hs => rcases hs with hs | hs <;> simp [hs] at hend

/-- The last cycle of a walk answers it. -/
theorem Walking.answered {a : AskedWalk p n} (h : s.Walking g a)
    (hend : s.state = .done ∨ s.state = .error) : a.Answered ⟨s.resp, g.writes, g.mem⟩ := by
  have hval : s.respVal := by rcases hend with hs | hs <;> simp [respVal, respErr, hs]
  have hresp : s.resp a.dest = some ⟨s.respErr, { s.rPte with ppn := s.respPpn }⟩ := by
    simp [resp, hval, h.dest]
  refine ⟨fun j hj => ?_, ⟨_, hresp, fun hf => ?_⟩, fun hf => ?_, fun hf => ?_⟩
  · have : s.rReqDest ≠ j := h.dest ▸ hj.symm
    simp [resp, this]
  · exact ((h.phase hf).result hend h.req).1
  · exact ((h.phase hf).result hend h.req).2.1
  · exact ((h.phase hf).result hend h.req).2.2

/-! ## Cycles -/

/-- Nothing is answered before the end. -/
theorem respVal_eq_false (hd : s.state ≠ .done) (he : s.state ≠ .error) : s.respVal = false := by
  simp [respVal, respErr, hd, he]

/-- A walk under way goes on, or has been answered. -/
theorem Walking.next {a : AskedWalk p n} (h : s.Walking g a) (hi : s.Inv g) (hok : c.Ok s g)
    (hgo : (s.next c.io).state ≠ .ready) : (s.next c.io).Walking (g.step s c) a := by
  refine ⟨hgo, (rReqDest_next h.busy _).trans h.dest, (rReq_next h.busy _).trans h.req,
    fun hf => ?_, fun hf => ?_⟩
  · have hch := h.unchanged hf
    simp [step, changedNext, hok.stores h.busy, changesTable, hch]
  · exact (h.phase hf).next hi hok h.busy h.req (h.unchanged hf) hgo

/-- A request starts a walk. -/
theorem walking_of_arbFire {j : Fin n} {q : PTWReq p} (hf : s.arbFire c.io = some (j, q)) :
    (s.next c.io).Walking (g.step s c)
      ⟨j, ⟨q, (c.io.ptbr >>> p.pgIdxBits).setWidth p.ppnBits, g.memNext c⟩, !g.changedNext c⟩ := by
  have hs : s.state = .ready := by
    by_contra hs
    simp [arbFire_eq_none hs] at hf
  have hst : (s.next c.io).state = .req := by simp [next, stateNext, hs, hf]
  have hcount : (s.next c.io).count = 0 := by simp [next, countNext, hs]
  refine ⟨by simp [hst], by simp [next, hf], by simp [next, hf], fun hfresh => ?_, fun _ => ?_⟩
  · simpa [step] using hfresh
  · refine .descend (.inl hst) (by rw [hcount]; exact p.pgLevels_pos) ?_
      (by simp [step, hf]) rfl
    rw [hcount, Nat.sub_zero]
    simp [next, rPteNext, hs, hf, Walk.leaf]

theorem Inv.next (h : s.Inv g) (hok : c.Ok s g) : (s.next c.io).Inv (g.step s c) := by
  refine ⟨h.cache_next hok, h.access_next, h.dirty_next hok, ?_⟩
  rcases h.walks with ⟨hs, hall⟩ | ⟨old, a, hasked, hall, hwalk⟩
  · have hval : s.respVal = false := respVal_eq_false (by simp [hs]) (by simp [hs])
    cases hf : s.arbFire c.io with
    | none =>
      refine .inl ⟨by simp [PTW.next, stateNext, hs, hf], ?_⟩
      simpa [step, hf, hval] using hall
    | some jq =>
      refine .inr ⟨g.asked, _, by simp [step, hf], ?_, walking_of_arbFire hf⟩
      simpa [step, hval] using hall
  · have hnone := arbFire_eq_none hwalk.busy c.io
    by_cases hend : s.state = .done ∨ s.state = .error
    · have hval : s.respVal := by rcases hend with hs | hs <;> simp [respVal, respErr, hs]
      refine .inl ⟨by rcases hend with hs | hs <;> simp [PTW.next, stateNext, hs], ?_⟩
      simp only [step, hnone, hval, if_true, hasked]
      exact List.rel_append hall (.cons (hwalk.answered hend) .nil)
    · rw [not_or] at hend
      have hgo : (s.next c.io).state ≠ .ready := by
        cases moves hwalk.busy c.io with
        | answer hs => exact absurd hs (not_or.2 hend)
        | read d hs hd hst =>
          rw [hst, readNext]
          split_ifs <;> simp
        | retry hd hst => rcases hst with ⟨-, hst⟩ | ⟨-, hst⟩ <;> simp [hst]
        | stall hst => exact hst ▸ hwalk.busy
        | skip _ _ hst => simp [hst]
        | ask _ _ hst => simp [hst]
        | askMark _ hst => simp [hst]
        | mark _ _ _ hst => simp [hst]
      refine .inr ⟨old, a, by simp [step, hnone, hasked], ?_, hwalk.next h hok hgo⟩
      simpa [step, respVal_eq_false hend.1 hend.2] using hall

theorem Inv.reset (u : PTW p n) (m : Memory p) : (PTW.reset u).Inv (.start m) := by
  refine ⟨fun _ j hj => by simp [PTW.reset] at hj, rfl, ?_, .inl ⟨rfl, .nil⟩⟩
  rintro (h | h) <;> simp [PTW.reset] at h

/-! ## Progress -/

/-- How many times a walk has to go on before it is over. -/
def rank (s : PTW p n) (g : PTWLog p n) : ℕ :=
  match s.state with
  | .ready => 0
  | .req | .wait => if g.writes.isEmpty then 3 + (p.pgLevels - s.count) else 2
  | .setDirty | .waitDirty => 3
  | .done | .error => 1

theorem rank_le (s : PTW p n) (g : PTWLog p n) : s.rank g ≤ p.pgLevels + 3 := by
  unfold rank
  cases s.state <;> dsimp only <;> try split_ifs
  all_goals omega

theorem rank_pos (hs : s.state ≠ .ready) (g : PTWLog p n) : 0 < s.rank g := by
  unfold rank
  cases h : s.state <;> dsimp only <;> try split_ifs
  all_goals first
    | exact absurd h hs
    | omega

/-- Whenever a fresh walk goes on, it has less to do; otherwise it has as much. -/
theorem Phase.rank_next {w : Walk p} (h : s.Phase g w) (hi : s.Inv g) (hok : c.Ok s g)
    (hready : s.state ≠ .ready) (hreq : s.rReq = w.req) (hch : g.changed = false) :
    (s.next c.io).rank (g.step s c) + (s.goesOn c.io).toNat ≤ s.rank g := by
  cases moves hready c.io with
  | skip hs hskip hst hc hp hq =>
    have hwr := (hi.mem_next hok hready (by simp [hs])).2
    obtain ⟨-, -, hlt⟩ := hi.skip_table hch hskip
    simp only [rank, hst, hwr, hs, h.writes_of_skip hi hch hs hskip, hc, goesOn, hskip,
      List.isEmpty_nil, if_true, Bool.toNat_true]
    omega
  | ask hs hskip hst hstays hq =>
    have hwr := (hi.mem_next hok hready (by simp [hs])).2
    simp [rank, hst, hs, hwr, hstays.count, goesOn, hskip]
  | read d hs hd hst hc hp hq =>
    obtain ⟨-, rfl⟩ := hi.data_eq hok hd
    have hwr := (hi.mem_next hok hready (by simp [hs])).2
    have hgo : s.goesOn c.io := by simp [goesOn, hs, hd]
    rw [hgo, Bool.toNat_true]
    cases h with
    | descend _ hc' hleft hw hm =>
      have hrank : s.rank g = 3 + (p.pgLevels - s.count) := by simp [rank, hs, hw]
      unfold readNext at hst
      rw [hrank]
      split_ifs at hst with hleaf hdirty hgoes
      · simp only [rank, hst]
        omega
      · simp only [rank, hst]
        omega
      · rw [if_pos hgoes] at hc
        simp only [rank, hst, hwr, hw, hc, List.isEmpty_nil, if_true]
        omega
      · simp only [rank, hst]
        omega
    | marked _ l hl ha hc' he hn hw hm =>
      obtain ⟨-, hleaf, hdone⟩ := marked_entry hreq hl ha he hn hm
      have hst' : (s.next c.io).state = .done := by simp [hst, readNext, hleaf, hdone]
      simp [rank, hst', hs, hw, Walk.writes_eq hl hn]
    | mark h' => simp [hs] at h'
    | found h' => simp [hs] at h'
    | failed h' => simp [hs] at h'
  | askMark hs hst hstays hq => simp [rank, hst, hs, goesOn]
  | mark d hs hd hst hstays hq =>
    have hwr := (hi.mem_mark hok hs hd).2
    simp [rank, hst, hs, hwr, goesOn, hd]
  | retry hd hst hstays hq =>
    have hwr := (hi.mem_next hok hready (by simp [hd])).2
    rcases hst with ⟨hs, hst⟩ | ⟨hs, hst⟩ <;> simp [rank, hst, hs, hwr, hstays.count, goesOn, hd]
  | stall hst hstays hs hq =>
    have hwr := (hi.mem_next hok hready
      (by rcases hs with ⟨hs, -⟩ | hs | ⟨hs | hs, hr⟩ <;> simp [*])).2
    rcases hs with ⟨hs, hskip⟩ | hs | ⟨hs | hs, hr⟩ <;>
      simp [rank, hstays.count, goesOn, *]
  | answer hs hst hq => rcases hs with hs | hs <;> simp [rank, hst, hs, goesOn]

/-- A walk under way waits for the data cache, or goes on. -/
theorem Inv.not_stuck (h : s.Inv g) (hs : s.state ≠ .ready) :
    s.memReq.isSome ∨ g.access.isSome ∨ ∀ i, s.goesOn i := by
  rw [h.access]
  cases hst : s.state with
  | ready => exact absurd hst hs
  | req =>
    cases hskip : s.skip with
    | true => exact .inr (.inr fun i => by simp [goesOn, hst, hskip])
    | false => exact .inl (by simp [memReq, hst, hskip])
  | wait => exact .inr (.inl (by simp [awaited, hst]))
  | setDirty => exact .inl (by simp [memReq, hst])
  | waitDirty => exact .inr (.inl (by simp [awaited, hst]))
  | done => exact .inr (.inr fun i => by simp [goesOn, hst])
  | error => exact .inr (.inr fun i => by simp [goesOn, hst])

/-- The first `t` walks are answered, or the last of them is fresh and goes on at most until
`b` cycles in which a walk went on. -/
def Nearing (t b : ℕ) (s : PTW p n) (g : PTWLog p n) : Prop :=
  t ≤ g.answers.length ∨ g.asked.length = t ∧ s.state ≠ .ready ∧
    (∀ a ∈ g.asked.getLast?, a.fresh = true) ∧ g.work + s.rank g ≤ b

theorem Nearing.next {t b : ℕ} (h : s.Nearing t b g) (hi : s.Inv g) (hok : c.Ok s g) :
    (s.next c.io).Nearing t b (g.step s c) := by
  rcases h with hdone | ⟨hlen, hready, hfresh, hwork⟩
  · left
    refine hdone.trans ?_
    simp only [step]
    split_ifs <;> simp
  · rcases hi.walks with ⟨hs, -⟩ | ⟨old, a, hasked, hall, hwalk⟩
    · exact absurd hs hready
    · have hf : a.fresh := hfresh a (by simp [hasked])
      have hrank := (hwalk.phase hf).rank_next hi hok hready hwalk.req (hwalk.unchanged hf)
      have hnone := arbFire_eq_none hready c.io
      have hold := hall.length_eq
      rw [hasked, List.length_append, List.length_singleton] at hlen
      by_cases hend : s.state = .done ∨ s.state = .error
      · left
        have hval : s.respVal := by rcases hend with hs | hs <;> simp [respVal, respErr, hs]
        simp only [step, hval, if_true, List.length_append, List.length_singleton]
        omega
      · rcases (hi.next hok).walks with ⟨-, hall'⟩ | ⟨old', a', -, -, hwalk'⟩
        · -- the walk would have been answered
          rw [not_or] at hend
          have := hall'.length_eq
          simp [step, hnone, respVal_eq_false hend.1 hend.2, hasked] at this
          omega
        · refine .inr ⟨by simp [step, hnone, hasked, hlen], hwalk'.busy, ?_, ?_⟩
          · simpa [step, hnone] using hfresh
          · change g.work + (s.goesOn c.io).toNat + _ ≤ b
            omega

end PTW

/-! ## Runs -/

/-- In every run from reset, whatever the data cache accepts, refuses or delays: requests are
answered one by one in the order in which they were taken, each at its requestor only, and
each that was taken with the tables unchanged since the last `invalidate` with the result and
the writes of the reference walk. While a walk is under way it waits for the data cache or
goes on, and it goes on at most `pgLevels + 3` times. -/
theorem ptw_walks (u : PTW p n) (m : Memory p) (cs : List (PTWCycle p n))
    (hl : ptwMachine.Legal (PTW.reset u, PTWLog.start m) cs) :
    let s := ptwMachine.run (PTW.reset u, PTWLog.start m) cs
    List.Forall₂ AskedWalk.Answered (s.2.asked.take s.2.answers.length) s.2.answers ∧
      s.2.asked.length ≤ s.2.answers.length + 1 ∧
      (s.1.state ≠ .ready →
        s.1.memReq.isSome = true ∨ s.2.access.isSome = true ∨ ∀ i, s.1.goesOn i = true) ∧
      ((∀ a ∈ s.2.asked.getLast?, a.fresh = true) → ∀ ds, ptwMachine.Legal s ds →
        s.2.work + (p.pgLevels + 3) ≤ (ptwMachine.run s ds).2.work →
          s.2.asked.length ≤ (ptwMachine.run s ds).2.answers.length) := by
  intro s
  have hinv : s.1.Inv s.2 :=
    Machine.invariant_run (P := fun s : PTW p n × PTWLog p n => s.1.Inv s.2)
      (fun _ _ h hok => h.next hok) (.reset u m) hl
  refine ⟨?_, ?_, hinv.not_stuck, fun hfresh ds hds hwork => ?_⟩
  · rcases hinv.walks with ⟨-, hall⟩ | ⟨old, a, hasked, hall, -⟩
    · rwa [← hall.length_eq, List.take_length]
    · rwa [hasked, ← hall.length_eq, List.take_left]
  · rcases hinv.walks with ⟨-, hall⟩ | ⟨old, a, hasked, hall, -⟩
    · rw [hall.length_eq]
      omega
    · rw [hasked, List.length_append, hall.length_eq, List.length_singleton]
  · -- the rank of the walk bounds how often it still goes on
    have hstart : s.1.Nearing s.2.asked.length (s.2.work + s.1.rank s.2) s.2 := by
      rcases hinv.walks with ⟨-, hall⟩ | ⟨old, a, hasked, hall, hwalk⟩
      · exact .inl hall.length_eq.le
      · exact .inr ⟨rfl, hwalk.busy, hfresh, le_rfl⟩
    have hend := Machine.invariant_run
      (P := fun x : PTW p n × PTWLog p n => x.1.Inv x.2 ∧
        x.1.Nearing s.2.asked.length (s.2.work + s.1.rank s.2) x.2)
      (fun x c h hok => ⟨h.1.next hok, h.2.next h.1 hok⟩) ⟨hinv, hstart⟩ hds
    rcases hend.2 with hdone | ⟨-, hbusy, -, hless⟩
    · exact hdone
    · have := PTW.rank_pos hbusy (ptwMachine.run s ds).2
      have := PTW.rank_le s.1 s.2
      omega

/-! ## A walk of two levels -/

/-- A page table at page 1: for virtual pages 2 and 3 a table at page 2, in which virtual page
2 is physical page 3, readable and writable. -/
def tinyMemory : Memory tinyVm := fun a =>
  if a = 6 then 0x801 else if a = 8 then 0xC07 else 0

local instance neZeroRequestors : NeZero 1 := ⟨by decide⟩

/-- A walker of one requestor, before reset. -/
def tinyPtw : PTW tinyVm 1 :=
  { state := .done, count := 0, rReq := ⟨0, 0, false, false⟩, rReqDest := 0
    rPte := ⟨0, 0, false, false, 0, false⟩, lastGrant := 0
    cache := ⟨fun _ => true, fun _ => 0, fun _ => 0, fun _ => false⟩ }

/-- A cycle in which the data cache is ready. -/
def tinyCycle (q : Option (PTWReq tinyVm)) (r : MemResp tinyVm) : PTWCycle tinyVm 1 :=
  ⟨⟨fun _ => q, true, r, 4, false⟩, []⟩

/-- A store to virtual page 2: two entries are read, the second one is marked, with one
refusal, and read again. -/
def storeWalk : List (PTWCycle tinyVm 1) :=
  [tinyCycle (some ⟨2, 1, true, false⟩) .idle, tinyCycle none .idle, tinyCycle none (.data 0x801),
    tinyCycle none .idle, tinyCycle none (.data 0xC07), tinyCycle none .idle, tinyCycle none .nack,
    tinyCycle none .idle, tinyCycle none (.data 0xC07), tinyCycle none .idle,
    tinyCycle none (.data 0xC67), tinyCycle none .idle]

/-- The store is answered with physical page 3, and R and D are set. -/
theorem ptw_walks_store :
    ((ptwMachine.run (PTW.reset tinyPtw, PTWLog.start tinyMemory) storeWalk).2.answers.map
        fun a => (a.resp 0, a.writes)) =
        [(some ⟨false, ⟨3, 0, true, true, 3, true⟩⟩, [(8, 0x60)])] ∧
      List.Forall₂ AskedWalk.Answered
        ((ptwMachine.run (PTW.reset tinyPtw, PTWLog.start tinyMemory) storeWalk).2.asked.take 1)
        (ptwMachine.run (PTW.reset tinyPtw, PTWLog.start tinyMemory) storeWalk).2.answers := by
  have hl : ptwMachine.Legal (PTW.reset tinyPtw, PTWLog.start tinyMemory) storeWalk := by
    decide +kernel
  have hlen :
      (ptwMachine.run (PTW.reset tinyPtw, PTWLog.start tinyMemory) storeWalk).2.answers.length
        = 1 := by
    decide +kernel
  have hall := (ptw_walks tinyPtw tinyMemory storeWalk hl).1
  rw [hlen] at hall
  exact ⟨by decide +kernel, hall⟩

end TaggedRiscv.Vm
