import TaggedRiscv.Nasti.ConverterWrites

/-!
# The output channels of the converter

Two rules of NASTI for the channels the converter drives: the beats of a burst of write data are
not interleaved with others, and what is offered stays as it is until it is taken.

The arbiter of the write data counts the beats it sends while a burst is open, but not the last
beat of a burst. So it wraps in the middle of the next burst, and the arbiter lets go of that one.

The last beat of a burst is marked by the handshake itself: `last` is low while the beat waits and
high when it is taken.
-/

namespace TaggedRiscv.Nasti

open Sync Converter Handler

variable {c : ConvParams} {n : ℕ}

/-! ## Bursts of write data -/

/-- A beat of write data at the port: the handler it comes from, and whether it is the last. -/
abbrev WriteBeat (n : ℕ) : Type := Fin n × Bool

/-- After a beat that is not the last one of its burst the next one is of the same handler. -/
def Contiguous (log : List (WriteBeat n)) : Prop :=
  log.IsChain fun a b => a.2 = false → b.1 = a.1

/-- The handler whose burst is not over. -/
def openBurst (log : List (WriteBeat n)) : Option (Fin n) :=
  log.getLast?.bind fun a => if a.2 then none else some a.1

/-- The beat that is sent in a cycle. -/
def Converter.writeBeat (s : Converter c n) (i : ConverterIn c) : Option (WriteBeat n) :=
  (s.wServed i).map fun j => (j, ((s.handler j).w (s.handlerIn i j)).last)

/-- The converter with the beats of write data it has sent. Any inputs are allowed. -/
abbrev beatsMachine (c : ConvParams) (n : ℕ) :
    Machine (Converter c n × List (WriteBeat n)) (ConverterIn c) where
  ok _ _ := True
  next s i := (s.1.next i, s.2 ++ (s.1.writeBeat i).toList)

/-- While a burst is open and the arbiter is not locked, no other handler has a beat. -/
def Unrivalled (s : Converter c n × List (WriteBeat n)) (i : ConverterIn c) : Prop :=
  s.1.wArb.lock = none → ∀ k ∈ openBurst s.2, ∀ j, s.1.wValid i j = true → j = k
deriving Decidable

/-- The runs in which this is so. -/
abbrev unrivalledMachine (c : ConvParams) (n : ℕ) :
    Machine (Converter c n × List (WriteBeat n)) (ConverterIn c) :=
  (beatsMachine c n).restrict Unrivalled

theorem openBurst_append (log : List (WriteBeat n)) (a : WriteBeat n) :
    openBurst (log ++ [a]) = if a.2 then none else some a.1 := by
  simp [openBurst]

theorem contiguous_append {log : List (WriteBeat n)} {a : WriteBeat n} (h : Contiguous log)
    (ha : ∀ k ∈ openBurst log, a.1 = k) : Contiguous (log ++ [a]) := by
  refine List.isChain_append.2 ⟨h, List.isChain_singleton a, ?_⟩
  intro b hb a' ha' hlast
  obtain rfl : a = a' := by simpa using ha'
  apply ha
  simp [openBurst, Option.mem_def.1 hb, hlast]

/-- A cycle without rivals keeps bursts apart, and the arbiter with the open burst. -/
theorem contiguous_next {s : Converter c n × List (WriteBeat n)} {i : ConverterIn c}
    (h : Contiguous s.2) (hf : s.1.wArb.Follows (openBurst s.2)) (hu : Unrivalled s i) :
    Contiguous ((beatsMachine c n).next s i).2 ∧
      ((beatsMachine c n).next s i).1.wArb.Follows
        (openBurst ((beatsMachine c n).next s i).2) := by
  cases hc : s.1.wArb.chosen (s.1.wValid i) with
  | none =>
    have hbeat : s.1.writeBeat i = none := by simp [writeBeat, wServed, LockArb.served, hc]
    have harb : (s.1.next i).wArb = s.1.wArb := by simp [Converter.next, LockArb.next, hc]
    simpa [beatsMachine, hbeat, harb] using ⟨h, hf⟩
  | some j =>
    have hj : ∀ k ∈ openBurst s.2, j = k := hf.chosen hu hc
    have hnext : (s.1.next i).wArb.Follows (some j) := LockArb.follows_next hc _ _ _
    cases hready : i.wReady with
    | false =>
      -- The beat waits, and the arbiter is locked to it.
      have hbeat : s.1.writeBeat i = none := by simp [writeBeat, wServed, LockArb.served, hready]
      simp only [hbeat, Option.toList_none, List.append_nil]
      refine ⟨h, fun k hk => ?_⟩
      rw [← hj k hk]
      exact hnext j rfl
    | true =>
      have hbeat : s.1.writeBeat i =
          some (j, ((s.1.handler j).w (s.1.handlerIn i j)).last) := by
        simp [writeBeat, wServed, LockArb.served, hready, hc]
      simp only [hbeat, Option.toList_some, openBurst_append]
      refine ⟨contiguous_append h hj, ?_⟩
      split_ifs
      · exact fun k hk => absurd hk (by simp)
      · exact hnext

/-- In every run from reset in which nobody else has a beat while the arbiter has let go of an
open burst, bursts are not interleaved. -/
theorem write_bursts_contiguous (u : Converter c n) (is : List (ConverterIn c))
    (hl : (unrivalledMachine c n).Legal (u.reset, []) is) :
    Contiguous ((beatsMachine c n).run (u.reset, []) is).2 := by
  have hinv := Machine.invariant_run (m := unrivalledMachine c n)
    (P := fun s => Contiguous s.2 ∧ s.1.wArb.Follows (openBurst s.2))
    (fun s i h hok => contiguous_next h.1 h.2 hok.2)
    (s := (u.reset, [])) ⟨List.isChain_nil, fun k hk => absurd hk (by simp [openBurst])⟩ hl
  rw [unrivalledMachine, Machine.run_restrict] at hinv
  exact hinv.1

/-- The inputs of the converter in a run among clients and slave. -/
def portInputs (T : ℕ → Write c) : Converter c n × ConvLog c → List ConvCycle →
    List (ConverterIn c)
  | _, [] => []
  | s, x :: xs => x.toIn T s.2 :: portInputs T ((converterMachine T).next s x) xs

/-- The second release is sent by the other handler before the first one is acknowledged. -/
def bothInputs : List (ConverterIn smallConv) :=
  portInputs twoReleases ((smallConverter 2).reset, ConvLog.empty)
    [releaseOf (some 0) none, releaseOf (some 0) none, releaseOf (some 0) none,
      releaseOf (some 1) none, releaseOf (some 1) none, releaseOf (some 1) none]

theorem write_bursts_contiguous_two :
    ((beatsMachine smallConv 2).run ((smallConverter 2).reset, []) bothInputs).2 =
        [(0, false), (0, true), (1, false), (1, true)] ∧
      Contiguous ((beatsMachine smallConv 2).run ((smallConverter 2).reset, []) bothInputs).2 :=
  ⟨by decide +kernel, write_bursts_contiguous _ _ (by decide +kernel)⟩

/-- Releases of two clients and a `PutBlock` of the first one. -/
def threeWrites (k : ℕ) : Write smallConv :=
  { isAcq := k == 2, clientId := if k = 1 then 1 else 0, clientXactId := if k = 2 then 1 else 0
    addrBlock := BitVec.ofNat 4 (k + 3), data := fun j => BitVec.ofNat 9 (16 * (k + 1) + j)
    union := 0, voluntary := true, rType := 0 }

/-- The first release, then the second one and the `PutBlock`. -/
def rivalRun : List ConvCycle :=
  [releaseOf (some 0) none, releaseOf (some 0) none, releaseOf (some 0) none,
    { releaseOf (some 1) (some 0) with acq := some 2 },
    { releaseOf (some 1) none with acq := some 2 },
    { releaseOf (some 1) none with acq := some 2 }]

/-- The beats of the first release are counted as one, so the first beat of the second one
makes the arbiter let go of it, and the first beat of the `PutBlock` comes in between. -/
theorem burst_interleaved :
    (converterMachine threeWrites).Legal ((smallConverter 2).reset, ConvLog.empty) rivalRun ∧
      ((beatsMachine smallConv 2).run ((smallConverter 2).reset, [])
        (portInputs threeWrites ((smallConverter 2).reset, ConvLog.empty) rivalRun)).2 =
          [(0, false), (0, true), (1, false), (0, false)] ∧
      ¬ Contiguous ((beatsMachine smallConv 2).run ((smallConverter 2).reset, [])
        (portInputs threeWrites ((smallConverter 2).reset, ConvLog.empty) rivalRun)).2 := by
  have hlog : ((beatsMachine smallConv 2).run ((smallConverter 2).reset, [])
      (portInputs threeWrites ((smallConverter 2).reset, ConvLog.empty) rivalRun)).2 =
        [(0, false), (0, true), (1, false), (0, false)] := by
    decide +kernel
  refine ⟨by decide +kernel, hlog, ?_⟩
  rw [hlog, Contiguous]
  decide

/-! ## Stable outputs -/

namespace Converter

variable (s : Converter c n) (i : ConverterIn c)

/-- The read address on the output. -/
def ar : Option (AddressChannel c) :=
  (s.arArb.chosen fun j => (s.handler j).arValid).map fun j => (s.handler j).address

/-- The beat of write data on the output. -/
def w : Option (WriteDataChannel c) :=
  (s.wArb.chosen (s.wValid i)).map fun j => (s.handler j).w (s.handlerIn i j)

end Converter

/-- The clients keep what they present until it is accepted. -/
structure HoldsRequests (s : Converter c n) (i i' : ConverterIn c) : Prop where
  acquire : ∀ a ∈ i.acquire, s.acquireFire i = false → i'.acquire = some a
  release : ∀ r ∈ i.release, s.releaseFire i = false → i'.release = some r

/-- What an output offers and nobody takes it offers in the next cycle. -/
structure StablePorts (s : Converter c n) (i i' : ConverterIn c) : Prop where
  aw : ∀ a ∈ s.aw, i.awReady = false → (s.next i).aw = some a
  ar : ∀ a ∈ s.ar, i.arReady = false → (s.next i).ar = some a
  w : ∀ b ∈ s.w i, i.wReady = false → (s.next i).w i' = some b

/-- No response comes for a transaction whose address or data is still offered, every beat of a
client has a handler that works on it or that is idle, and the last beat of a burst is taken at
once. -/
structure Undisturbed (s : Converter c n) (i : ConverterIn c) : Prop where
  b : ∀ j, (s.routed i j).bValid →
    (s.handler j).awValid = false ∧ s.wValid i j = false
  r : ∀ j, (s.routed i j).r.isSome → (s.handler j).arValid = false
  acquire : i.acquire.isSome →
    (∃ j, s.tlAcqMatches i j) ∨ ∃ j, s.tlReady j
  release : i.release.isSome →
    (∃ j, s.tlRelMatches i j) ∨ ∃ j, s.tlReady j
  last : ∀ j, s.wArb.chosen (s.wValid i) = some j → (s.handler j).writeMultipleData →
    (s.handler j).nwCnt = c.tl.dataBeats - 1 → i.wReady

/-- A handler reads or writes, not both. -/
def Handler.Exclusive (h : Handler c) : Prop := ¬ (h.isRead = true ∧ h.isWrite = true)

namespace Handler

variable {h : Handler c} {i : HandlerIn c}

/-- Responses only end what a handler does. -/
theorem answered_flags (h : Handler c) (i : HandlerIn c) :
    ((h.answered i).isRead → h.isRead) ∧
      ((h.answered i).isWrite → h.isWrite) := by
  constructor <;> intro hf <;> simp only [answered] at hf <;> split_ifs at hf <;> simp_all

theorem Exclusive.next (hx : h.Exclusive) (i : HandlerIn c) : (h.next i).Exclusive := by
  obtain ⟨hread, hwrite⟩ := h.answered_flags i
  rintro ⟨hr, hw⟩
  simp only [Handler.next, taken] at hr hw
  split_ifs at hr hw with hidle
  · cases hrel : i.release with
    | some r => simp [hrel, takeRelease] at hr
    | none =>
      cases hacq : i.acquire with
      | some a =>
        simp only [hrel, hacq, takeAcquire, Bool.and_eq_true, Bool.not_eq_true'] at hr hw
        exact absurd hw.2 (by simp [hr.2])
      | none =>
        simp only [hrel, hacq] at hr hw
        exact hx ⟨hread hr, hwrite hw⟩
  · exact hx ⟨hread hr, hwrite hw⟩

/-- A busy handler without a response keeps its transaction. -/
theorem next_of_busy (hbusy : h.isIdle = false) (hb : h.bFire i = false) (hr : h.rFire i = false) :
    h.next i =
      { h with
        nwCnt :=
          if h.wFire i && h.writeMultipleData then (h.nwCnt + 1) % c.tl.dataBeats else h.nwCnt
        cmdSent := h.arFire i || h.awFire i || h.cmdSent } := by
  have hans : h.answered i = h := by simp [answered, hb, hr]
  simp only [next, taken, hbusy, hans, hr]
  cases h.arFire i <;> cases h.awFire i <;> simp

/-- The tag of a handler changes only when it takes a transaction on. -/
theorem tagOut_next_of_busy (hbusy : h.isIdle = false) : (h.next i).tagOut = h.tagOut := by
  simp only [next, taken, hbusy, Bool.false_eq_true, if_false, answered]
  split_ifs <;> rfl

/-- An idle handler that is busy afterwards has the tag of what was routed to it. -/
theorem taken_of_idle (hidle : h.isIdle) (hnext : (h.next i).isIdle = false) :
    (∃ r, i.release = some r ∧ (h.next i).tagOut = r.clientId ++ r.clientXactId) ∨
      ∃ a, i.acquire = some a ∧ (h.next i).tagOut = a.clientId ++ a.clientXactId := by
  cases hrel : i.release with
  | some r => exact .inl ⟨r, rfl, by simp [next, taken, hidle, hrel, takeRelease]⟩
  | none =>
    cases hacq : i.acquire with
    | some a => exact .inr ⟨a, rfl, by simp [next, taken, hidle, hrel, hacq, takeAcquire]⟩
    | none =>
      exfalso
      obtain ⟨hread, hwrite⟩ := h.answered_flags i
      simp only [isIdle, Bool.not_eq_true', Bool.or_eq_false_iff] at hidle
      have hr : (h.answered i).isRead = false := by
        by_contra hr
        simp [hread (by simpa using hr)] at hidle
      have hw : (h.answered i).isWrite = false := by
        by_contra hw
        simp [hwrite (by simpa using hw)] at hidle
      simp [isIdle, next, taken, hrel, hacq, hr, hw] at hnext

/-- The beat of a release is written whole. -/
theorem w_of_release (hacq : h.isAcq = false) :
    h.w i =
      { data := c.removeTag ((i.release.map fun r => r.data).getD 0), strb := fun _ => true
        last := h.nwFinish i } := by
  cases hi : i.acquire <;> simp [w, hacq, hi]

end Handler

/-! ### Routing -/

section Routing

variable {s : Converter c n} {i i' : ConverterIn c} {k : Fin n}

theorem exists_of_orR {v : Fin n → Bool} (h : Converter.orR v) : ∃ j, v j := by
  obtain ⟨j, -, hj⟩ := List.any_eq_true.1 h
  exact ⟨j, hj⟩

/-- The handlers that work on a transaction with the tag. -/
def tagMatches (s : Converter c n) (tag : c.Tag) (j : Fin n) : Bool :=
  (s.handler j).tagOut == tag && !(s.handler j).rdy

theorem tlAcqMatches_eq {a : AcquireFromSrc c.tl} (ha : i.acquire = some a) :
    s.tlAcqMatches i = tagMatches s (a.clientId ++ a.clientXactId) := by
  funext j
  simp [tlAcqMatches, ha, acqMatch, tagMatches]

theorem tlRelMatches_eq {r : ReleaseFromSrc c.tl} (hr : i.release = some r) :
    s.tlRelMatches i = tagMatches s (r.clientId ++ r.clientXactId) := by
  funext j
  simp [tlRelMatches, hr, relMatch, tagMatches]

theorem tagMatches_iff {tag : c.Tag} {j : Fin n} :
    tagMatches s tag j ↔ (s.handler j).tagOut = tag ∧ (s.handler j).isIdle = false := by
  simp [tagMatches, rdy]

/-- What is routed to a busy handler belongs to its transaction, unless all are busy with
something else. -/
theorem match_of_routed {m ready : Fin n → Bool}
    (hid : (if Converter.orR m then priorityEncoder m else priorityEncoder ready) = k)
    (hfree : (∃ j, m j) ∨ ready k = false ∧ ∃ j, ready j) : m k ∧ priorityEncoder m = k := by
  by_cases hany : ∃ j, m j
  · obtain ⟨j, hj⟩ := hany
    rw [if_pos (orR_eq_true hj)] at hid
    obtain ⟨k', hk', he⟩ := priorityEncoder_spec ⟨j, hj⟩
    obtain rfl : k' = k := Fin.ext (he.symm.trans hid)
    exact ⟨hk', hid⟩
  · obtain ⟨hbusy, hready⟩ := hfree.resolve_left hany
    obtain ⟨j, hj, he⟩ := priorityEncoder_spec hready
    rw [if_neg fun h => hany (exists_of_orR h), he] at hid
    obtain rfl : j = k := Fin.ext hid
    exact absurd hj (by simp [hbusy])

/-- While a handler works on a transaction, no other handler takes one of the same tag on. -/
theorem busy_of_tag_next {tag : c.Tag} (hk : tagMatches s tag k) {j : Fin n}
    (hj : tagMatches (s.next i) tag j) : tagMatches s tag j := by
  obtain ⟨htag, hjbusy⟩ := tagMatches_iff.1 hj
  cases hidle : (s.handler j).isIdle with
  | false => exact tagMatches_iff.2 ⟨(tagOut_next_of_busy hidle).symm.trans htag, hidle⟩
  | true =>
    -- what an idle handler takes on belongs to handler `k`, so it is routed to a busy one
    rcases taken_of_idle hidle hjbusy with ⟨r, hr, ht⟩ | ⟨a, ha, ht⟩
    · simp only [handlerIn, routed] at hr
      split_ifs at hr with hid
      rw [tlRelHandlerId, tlRelMatches_eq hr, ht.symm.trans htag] at hid
      exact (match_of_routed hid (.inl ⟨k, hk⟩)).1
    · simp only [handlerIn, routed] at ha
      split_ifs at ha with hid
      rw [tlAcqHandlerId, tlAcqMatches_eq ha, ht.symm.trans htag] at hid
      exact (match_of_routed hid (.inl ⟨k, hk⟩)).1

variable (hbusy : (s.handler k).isIdle = false) (hbusy' : ((s.next i).handler k).isIdle = false)
include hbusy hbusy'

/-- What is routed to a busy handler that keeps its transaction is routed there again. -/
theorem routed_next {tag : c.Tag}
    (hid : (if Converter.orR (tagMatches s tag) then priorityEncoder (tagMatches s tag)
      else priorityEncoder s.tlReady) = k)
    (hfree : (∃ j, tagMatches s tag j) ∨ ∃ j, s.tlReady j) :
    Converter.orR (tagMatches (s.next i) tag) ∧
      priorityEncoder (tagMatches (s.next i) tag) = k := by
  obtain ⟨hk, hpe⟩ := match_of_routed hid (hfree.imp_right fun hready => ⟨hbusy, hready⟩)
  have hmatch : tagMatches (s.next i) tag k :=
    tagMatches_iff.2 ⟨(tagOut_next_of_busy hbusy).trans (tagMatches_iff.1 hk).1, hbusy'⟩
  exact ⟨orR_eq_true hmatch, priorityEncoder_congr hpe hmatch fun _ hj => busy_of_tag_next hk hj⟩

theorem acquire_routed_next {a : AcquireFromSrc c.tl} (ha : i.acquire = some a)
    (ha' : i'.acquire = some a) (hid : s.tlAcqHandlerId i = k)
    (hfree : (∃ j, s.tlAcqMatches i j) ∨ ∃ j, s.tlReady j) : (s.next i).tlAcqHandlerId i' = k := by
  rw [tlAcqMatches_eq ha] at hfree
  rw [tlAcqHandlerId, tlAcqMatches_eq ha] at hid
  obtain ⟨hany, hpe⟩ := routed_next hbusy hbusy' hid hfree
  rw [tlAcqHandlerId, tlAcqMatches_eq ha', if_pos hany, hpe]

theorem release_routed_next {r : ReleaseFromSrc c.tl} (hr : i.release = some r)
    (hr' : i'.release = some r) (hid : s.tlRelHandlerId i = k)
    (hfree : (∃ j, s.tlRelMatches i j) ∨ ∃ j, s.tlReady j) : (s.next i).tlRelHandlerId i' = k := by
  rw [tlRelMatches_eq hr] at hfree
  rw [tlRelHandlerId, tlRelMatches_eq hr] at hid
  obtain ⟨hany, hpe⟩ := routed_next hbusy hbusy' hid hfree
  rw [tlRelHandlerId, tlRelMatches_eq hr', if_pos hany, hpe]

end Routing

/-! ### Held outputs -/

section Held

variable {s : Converter c n} {i i' : ConverterIn c} {k : Fin n}

theorem exclusive_of_write (hx : (s.handler k).Exclusive) (hw : (s.handler k).isWrite) :
    (s.handler k).isRead = false := by
  by_contra hr
  exact hx ⟨by simpa using hr, hw⟩

/-- A handler that writes and gets no response keeps its transaction. -/
theorem write_held (hx : (s.handler k).Exclusive) (hw : (s.handler k).isWrite)
    (hb : (s.routed i k).bValid = false) :
    (s.next i).handler k =
      { s.handler k with
        nwCnt :=
          if (s.handler k).wFire (s.handlerIn i k) && (s.handler k).writeMultipleData then
            ((s.handler k).nwCnt + 1) % c.tl.dataBeats
          else (s.handler k).nwCnt
        cmdSent := (s.handler k).awFire (s.handlerIn i k) || (s.handler k).cmdSent } := by
  have hr : (s.handler k).isRead = false := exclusive_of_write hx hw
  have hbv : (s.handlerIn i k).bValid = false := hb
  have hnext := next_of_busy (h := s.handler k) (i := s.handlerIn i k)
    (by simp [isIdle, hw]) (by simp [Handler.bFire, hbv])
    (by simp [Handler.rFire, Handler.rReady, hr])
  have har : (s.handler k).arFire (s.handlerIn i k) = false := by simp [arFire, arValid, hr]
  rw [har, Bool.false_or] at hnext
  exact hnext

/-- A handler whose read gets no response keeps its transaction. -/
theorem read_held (hx : (s.handler k).Exclusive) (hr : (s.handler k).isRead)
    (hresp : (s.routed i k).r = none) :
    (s.next i).handler k =
      { s.handler k with
        cmdSent := (s.handler k).arFire (s.handlerIn i k) || (s.handler k).cmdSent } := by
  have hw : (s.handler k).isWrite = false := by
    by_contra hw
    exact hx ⟨hr, by simpa using hw⟩
  have hrv : (s.handlerIn i k).r = none := hresp
  have hnext := next_of_busy (h := s.handler k) (i := s.handlerIn i k)
    (by simp [isIdle, hr]) (by simp [Handler.bFire, Handler.bReady, hw])
    (by simp [Handler.rFire, hrv])
  have haw : (s.handler k).awFire (s.handlerIn i k) = false := by simp [awFire, awValid, hw]
  have hwf : (s.handler k).wFire (s.handlerIn i k) = false := by simp [wFire, Handler.wValid, hw]
  simp only [haw, hwf, Bool.or_false, Bool.false_and, Bool.false_eq_true, if_false] at hnext
  exact hnext

theorem aw_held (hx : ∀ j, (s.handler j).Exclusive) (hu : Undisturbed s i) {a : AddressChannel c}
    (ha : s.aw = some a) (hready : i.awReady = false) : (s.next i).aw = some a := by
  obtain ⟨k, hk, rfl⟩ := Option.map_eq_some_iff.1 ha
  have hv : (s.handler k).awValid := s.awArb.valid_of_chosen hk
  have hw : (s.handler k).isWrite := by
    simp only [awValid, Bool.and_eq_true] at hv
    exact hv.1
  have hb : (s.routed i k).bValid = false := by
    by_contra hb
    simp [(hu.b k (by simpa using hb)).1] at hv
  have hnf : (s.handler k).awFire (s.handlerIn i k) = false := by
    simp [awFire, handlerIn, awServed, LockArb.served, hready]
  have hnext := write_held (hx k) hw hb
  rw [hnf, Bool.false_or] at hnext
  have hv' : ((s.next i).handler k).awValid := by rw [hnext]; exact hv
  have haddr : ((s.next i).handler k).address = (s.handler k).address := by rw [hnext]; rfl
  have hc : (s.next i).awArb.chosen (fun j => ((s.next i).handler j).awValid) = some k := by
    simp only [Converter.next, hready]
    exact LockArb.chosen_next_of_held hk hv'
  rw [aw, hc, Option.map_some, haddr]

theorem ar_held (hx : ∀ j, (s.handler j).Exclusive) (hu : Undisturbed s i) {a : AddressChannel c}
    (ha : s.ar = some a) (hready : i.arReady = false) : (s.next i).ar = some a := by
  obtain ⟨k, hk, rfl⟩ := Option.map_eq_some_iff.1 ha
  have hv : (s.handler k).arValid := s.arArb.valid_of_chosen hk
  have hr : (s.handler k).isRead := by
    simp only [arValid, Bool.and_eq_true] at hv
    exact hv.1
  have hresp : (s.routed i k).r = none := by
    rw [← Option.not_isSome_iff_eq_none]
    intro hsome
    simp [hu.r k hsome] at hv
  have hnf : (s.handler k).arFire (s.handlerIn i k) = false := by
    simp [arFire, handlerIn, arServed, LockArb.served, hready]
  have hnext := read_held (hx k) hr hresp
  rw [hnf, Bool.false_or] at hnext
  have hv' : ((s.next i).handler k).arValid := by rw [hnext]; exact hv
  have haddr : ((s.next i).handler k).address = (s.handler k).address := by rw [hnext]
  have hc : (s.next i).arArb.chosen (fun j => ((s.next i).handler j).arValid) = some k := by
    simp only [Converter.next, hready]
    exact LockArb.chosen_next_of_held hk hv'
  rw [ar, hc, Option.map_some, haddr]

theorem isWrite_of_wValid (hv : s.wValid i k) : (s.handler k).isWrite := by
  simp only [Converter.wValid, Handler.wValid, Bool.and_eq_true] at hv
  exact hv.2

/-- A handler whose write data is on offer gets no response, and keeps all but the record of
its address. -/
theorem data_held (hx : (s.handler k).Exclusive) (hu : Undisturbed s i)
    (hv : s.wValid i k) (hready : i.wReady = false) :
    ∃ sent, (s.next i).handler k = { s.handler k with cmdSent := sent } := by
  have hb : (s.routed i k).bValid = false := by
    by_contra hb
    simp [(hu.b k (by simpa using hb)).2] at hv
  have hnf : (s.handler k).wFire (s.handlerIn i k) = false := by
    simp [wFire, handlerIn, wServed, LockArb.served, hready]
  have hnext := write_held hx (isWrite_of_wValid hv) hb
  simp only [hnf, Bool.false_and, Bool.false_eq_true, if_false] at hnext
  exact ⟨_, hnext⟩

/-- The beat is not accepted while the output is not ready. -/
theorem not_accepted (hx : (s.handler k).Exclusive) (hv : s.wValid i k)
    (hready : i.wReady = false) :
    (s.tlAcqHandlerId i = k → s.acquireFire i = false) ∧
      (s.tlRelHandlerId i = k → s.releaseFire i = false) := by
  have hnf : (s.handler k).wFire (s.handlerIn i k) = false := by
    simp [wFire, handlerIn, wServed, LockArb.served, hready]
  have har : (s.handler k).arFire (s.handlerIn i k) = false := by
    simp [arFire, arValid, exclusive_of_write hx (isWrite_of_wValid hv)]
  constructor
  · intro hid
    simp only [acquireFire, Converter.acquireReady, hid, orR_select k,
      Handler.acquireReady, hnf, har]
    simp
  · intro hid
    simp only [releaseFire, Converter.releaseReady, hid, orR_select k, Handler.releaseReady, hnf]
    simp

/-- The data of a write that is held is routed to the same handler again. -/
theorem data_routed_next (hx : (s.handler k).Exclusive) (hu : Undisturbed s i)
    (hh : HoldsRequests s i i') (hv : s.wValid i k) (hready : i.wReady = false) :
    ((s.handler k).isAcq ∧
        ∃ a, (s.routed i k).acquire = some a ∧ ((s.next i).routed i' k).acquire = some a) ∨
      (s.handler k).isAcq = false ∧
        ∃ r, (s.routed i k).release = some r ∧ ((s.next i).routed i' k).release = some r := by
  have hw : (s.handler k).isWrite := isWrite_of_wValid hv
  have hbusy : (s.handler k).isIdle = false := by simp [isIdle, hw]
  obtain ⟨sent, hnext⟩ := data_held hx hu hv hready
  have hbusy' : ((s.next i).handler k).isIdle = false := by rw [hnext]; exact hbusy
  obtain ⟨hacqf, hrelf⟩ := not_accepted hx hv hready
  simp only [Converter.wValid, Handler.wValid, hw, Bool.and_true, Bool.or_eq_true,
    Bool.and_eq_true, Bool.not_eq_true'] at hv
  rcases hv with ⟨hsome, hacq⟩ | ⟨hsome, hacq⟩
  · refine .inl ⟨hacq, ?_⟩
    obtain ⟨a, ha⟩ := Option.isSome_iff_exists.1 hsome
    simp only [routed] at ha
    split_ifs at ha with hid
    have ha' : i'.acquire = some a := hh.acquire a ha (hacqf hid)
    have hid' := acquire_routed_next hbusy hbusy' ha ha' hid (hu.acquire (by simp [ha]))
    exact ⟨a, by simp [routed, hid, ha], by simp [routed, hid', ha']⟩
  · refine .inr ⟨hacq, ?_⟩
    obtain ⟨r, hr⟩ := Option.isSome_iff_exists.1 hsome
    simp only [routed] at hr
    split_ifs at hr with hid
    have hr' : i'.release = some r := hh.release r hr (hrelf hid)
    have hid' := release_routed_next hbusy hbusy' hr hr' hid (hu.release (by simp [hr]))
    exact ⟨r, by simp [routed, hid, hr], by simp [routed, hid', hr']⟩

theorem w_held (hx : ∀ j, (s.handler j).Exclusive) (hu : Undisturbed s i)
    (hh : HoldsRequests s i i') {b : WriteDataChannel c} (hb : s.w i = some b)
    (hready : i.wReady = false) : (s.next i).w i' = some b := by
  obtain ⟨k, hk, rfl⟩ := Option.map_eq_some_iff.1 hb
  have hv : s.wValid i k := s.wArb.valid_of_chosen hk
  have hw : (s.handler k).isWrite := isWrite_of_wValid hv
  obtain ⟨sent, hnext⟩ := data_held (hx k) hu hv hready
  -- neither now nor in the next cycle is the beat the last one of a burst by its number
  have hmulti : ∀ j : HandlerIn c, (s.handler k).nwFinish j = false := by
    intro j
    have := hu.last k hk
    simp only [nwFinish, Bool.and_eq_false_iff, decide_eq_false_iff_not]
    by_contra hfin
    simp only [not_or, not_not, Bool.not_eq_false] at hfin
    simp [this hfin.1.2 hfin.2] at hready
  have hmulti' : ∀ j : HandlerIn c, ((s.next i).handler k).nwFinish j = false := by
    rw [hnext]; exact hmulti
  have hacq' : ((s.next i).handler k).isAcq = (s.handler k).isAcq := by rw [hnext]
  have hw' : ((s.next i).handler k).isWrite := by rw [hnext]; exact hw
  have hbeat := data_routed_next (hx k) hu hh hv hready
  have hv' : (s.next i).wValid i' k := by
    rcases hbeat with ⟨hacq, a, -, ha'⟩ | ⟨hacq, r, -, hr'⟩
    · simp [Converter.wValid, Handler.wValid, hacq', hw', hacq, ha']
    · simp [Converter.wValid, Handler.wValid, hacq', hw', hacq, hr']
  have hc : (s.next i).wArb.chosen ((s.next i).wValid i') = some k := by
    simp only [Converter.next, hready]
    exact LockArb.chosen_next_of_held hk hv'
  rw [Converter.w, hc, Option.map_some]
  congr 1
  rcases hbeat with ⟨hacq, a, ha, ha'⟩ | ⟨hacq, r, hr, hr'⟩
  · simp [Handler.w, hacq', hacq, hmulti, hmulti', acqMultibeat, handlerIn, ha, ha']
  · simp [w_of_release, hacq', hacq, hmulti, hmulti', handlerIn, hr, hr']

end Held

/-- The converter with any inputs. -/
def portsMachine (c : ConvParams) (n : ℕ) : Machine (Converter c n) (ConverterIn c) where
  ok _ _ := True
  next := Converter.next

/-- No handler ever reads and writes at a time. -/
theorem exclusive_run (u : Converter c n) (is : List (ConverterIn c)) (j : Fin n) :
    (((portsMachine c n).run u.reset is).handler j).Exclusive := by
  have hinit : ∀ j, (u.reset.handler j).Exclusive := by
    intro j
    simp [Exclusive, Converter.reset, Handler.reset]
  exact Machine.invariant_run (m := portsMachine c n)
    (P := fun s => ∀ j, (s.handler j).Exclusive)
    (fun s i h _ j => (h j).next (s.handlerIn i j)) (s := u.reset) hinit
    (Machine.legal_of_forall_ok _ (fun _ _ => trivial) _ _) j

/-- In every run of the converter, what a write address, read address or write data output
offers and is not taken stays as it is, as long as no response comes early, each beat of a
client has a handler, and the last beat of a burst is taken at once. -/
theorem ports_stable (u : Converter c n) (is : List (ConverterIn c)) (i i' : ConverterIn c)
    (hh : HoldsRequests ((portsMachine c n).run u.reset is) i i')
    (hu : Undisturbed ((portsMachine c n).run u.reset is) i) :
    StablePorts ((portsMachine c n).run u.reset is) i i' := by
  have hx := exclusive_run u is
  exact ⟨fun _ ha hready => aw_held hx hu ha hready, fun _ ha hready => ar_held hx hu ha hready,
    fun _ hb hready => w_held hx hu hh hb hready⟩

/-- The state of the converter and the log after some cycles of the first release. -/
def releaseState (xs : List ConvCycle) : Converter smallConv 1 × ConvLog smallConv :=
  (converterMachine twoReleases).run ((smallConverter 1).reset, ConvLog.empty) xs

/-- The inputs of a cycle of the release, with or without a ready slave. -/
def releaseInput (xs : List ConvCycle) (ready : Bool) : ConverterIn smallConv :=
  { (releaseOf (some 0) none).toIn twoReleases (releaseState xs).2 with wReady := ready }

/-- The inputs up to that cycle. -/
def releaseInputs (xs : List ConvCycle) : List (ConverterIn smallConv) :=
  portInputs twoReleases ((smallConverter 1).reset, ConvLog.empty) xs

theorem ports_stable_first_beat :
    let s := (portsMachine smallConv 1).run (smallConverter 1).reset
      (releaseInputs [releaseOf (some 0) none])
    let i := releaseInput [releaseOf (some 0) none]
    ((s.w (i false)).isSome = true ∧ (i false).wReady = false) ∧
      StablePorts s (i false) (i true) := by
  refine ⟨by decide +kernel, ports_stable _ _ _ _ ⟨fun _ h _ => h, fun _ h _ => h⟩ ?_⟩
  exact ⟨by decide +kernel, by decide +kernel, by decide +kernel, by decide +kernel,
    by decide +kernel⟩

/-- The second of two beats waits for a cycle. That it is the last one is known only in the
cycle it is taken. -/
theorem last_changes :
    let before := [releaseOf (some 0) none, releaseOf (some 0) none]
    let s := (portsMachine smallConv 1).run (smallConverter 1).reset (releaseInputs before)
    let i := releaseInput before
    (converterMachine twoReleases).Legal ((smallConverter 1).reset, ConvLog.empty)
        (before ++ [{ releaseOf (some 0) none with wReady := false }, releaseOf (some 0) none]) ∧
      HoldsRequests s (i false) (i true) ∧
      (s.w (i false)).map (fun b => b.last) = some false ∧
      ((s.next (i false)).w (i true)).map (fun b => b.last) = some true ∧
      ¬ StablePorts s (i false) (i true) := by
  intro before s i
  have hnow : (s.w (i false)).map (fun b => b.last) = some false := by decide +kernel
  have hthen : ((s.next (i false)).w (i true)).map (fun b => b.last) = some true := by
    decide +kernel
  refine ⟨by decide +kernel, ⟨fun _ h _ => h, fun _ h _ => h⟩, hnow, hthen, fun hstable => ?_⟩
  obtain ⟨b, hb, hlast⟩ := Option.map_eq_some_iff.1 hnow
  rw [hstable.w b hb rfl, Option.map_some, hlast] at hthen
  exact absurd hthen (by decide)

end TaggedRiscv.Nasti
