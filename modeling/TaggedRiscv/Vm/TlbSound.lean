import TaggedRiscv.Vm.Tlb

/-!
# Soundness of the TLB

What a lookup returns is what the page table walker answered for its page since the last
`invalidate`. The CAM never holds a page twice: a page is only walked for after a miss, and where
the miss is a store that found the entry, the entry is cleared with the miss.
-/

namespace TaggedRiscv.Vm

open Sync Function

variable {p : VmParams} {k : ℕ}

/-! ## Pages -/

/-- A page number with a sign bit that continues it. -/
def Canonical (v : BitVec (p.vpnBits + 1)) : Prop :=
  v.getLsbD p.vpnBits = v.getLsbD (p.vpnBits - 1)

/-- The number under which a page is walked for. -/
def walkAddr (v : BitVec (p.vpnBits + 1)) : BitVec p.vpnBits := v.setWidth p.vpnBits

/-- The tag of a page in address space 0. -/
def tagOf (v : BitVec (p.vpnBits + 1)) : BitVec (p.asIdBits + (p.vpnBits + 1)) :=
  (0 : BitVec p.asIdBits) ++ v

/-- Canonical pages are walked for under different numbers. -/
theorem walkAddr_injective {v w : BitVec (p.vpnBits + 1)} (hv : Canonical v) (hw : Canonical w)
    (h : walkAddr v = walkAddr w) : v = w := by
  have hlow : ∀ j, j < p.vpnBits → v.getLsbD j = w.getLsbD j := by
    intro j hj
    have := congrArg (fun x : BitVec p.vpnBits => x.getLsbD j) h
    simpa [walkAddr, hj] using this
  apply BitVec.eq_of_getLsbD_eq
  intro j hj
  by_cases hlt : j < p.vpnBits
  · exact hlow j hlt
  · obtain rfl : j = p.vpnBits := by omega
    have hpos := p.vpnBits_pos
    rw [hv, hw]
    exact hlow _ (by omega)

/-- The tag keeps the whole page number when it is cut to the width of the CAM. -/
theorem tagOf_injective {v w : BitVec (p.vpnBits + 1)}
    (h : (tagOf v).setWidth p.camTagBits = (tagOf w).setWidth p.camTagBits) : v = w := by
  apply BitVec.eq_of_getLsbD_eq
  intro j hj
  have hcam : j < p.camTagBits := by
    have := p.asIdBits_pos
    unfold VmParams.camTagBits
    omega
  have := congrArg (fun x : BitVec p.camTagBits => x.getLsbD j) h
  simpa [tagOf, hcam, hj, BitVec.getLsbD_append] using this

theorem walkAddr_tagOf (v : BitVec (p.vpnBits + 1)) :
    (tagOf v).setWidth p.vpnBits = walkAddr v := by
  apply BitVec.eq_of_getLsbD_eq
  intro j hj
  have hj' : j < p.vpnBits + 1 := by omega
  simp [tagOf, walkAddr, hj, hj', BitVec.getLsbD_append]

/-! ## Walks -/

/-- The page that is being walked for, with whether `invalidate` came since the request, and
the answers since the last `invalidate`. -/
structure TLBLog (p : VmParams) where
  walk : Option (BitVec p.vpnBits × Bool)
  answers : BitVec p.vpnBits → Option (PTWResp p)

namespace TLBLog

/-- No walk and no answer. -/
def empty : TLBLog p := ⟨none, fun _ => none⟩

/-- The record after a cycle. -/
def step (g : TLBLog p) (s : TLB p k) (i : TLBIn p) : TLBLog p :=
  { walk :=
      if i.ptwResp.isSome then none
      else match s.ptwReqFire i with
        | some q => some (q.addr, i.invalidate)
        | none => g.walk.map fun w => (w.1, w.2 || i.invalidate)
    answers :=
      if i.invalidate then fun _ => none
      else match i.ptwResp, g.walk with
        | some r, some (a, false) => update g.answers a (some r)
        | _, _ => g.answers }

end TLBLog

open TLBLog

/-- Requests are in address space 0, and the walker answers a request that it accepted in a
cycle before. -/
structure Asked (g : TLBLog p) (i : TLBIn p) : Prop where
  asid : i.req.asid = 0
  resp : i.ptwResp.isSome → g.walk.isSome

namespace PTWResp

variable (r : PTWResp p) (privS : Bool)

/-- The answer permits reads. -/
def readable : Bool := (if privS then r.pte.sr else r.pte.ur) && !r.error

/-- The answer permits writes. -/
def writable : Bool := (if privS then r.pte.sw else r.pte.uw) && !r.error

/-- The answer permits instruction fetches. -/
def executable : Bool := (if privS then r.pte.sx else r.pte.ux) && !r.error

end PTWResp

namespace TLB

variable {s : TLB p k} {g : TLBLog p} {i : TLBIn p}

/-- An entry holds an answer. -/
structure Answers (s : TLB p k) (e : Fin (2 ^ k)) (r : PTWResp p) : Prop where
  ppn : s.tagRam e = r.pte.ppn
  valid : s.validArray e = !r.error
  ur : s.urArray e = (r.pte.ur && !r.error)
  uw : s.uwArray e = (r.pte.uw && !r.error)
  ux : s.uxArray e = (r.pte.ux && !r.error)
  sr : s.srArray e = (r.pte.sr && !r.error)
  sw : s.swArray e = (r.pte.sw && !r.error)
  sx : s.sxArray e = (r.pte.sx && !r.error)
  dirty : s.dirtyArray e = r.pte.d

/-- A valid entry is for a page, and holds the answer for it. -/
def EntryOk (s : TLB p k) (g : TLBLog p) (e : Fin (2 ^ k)) : Prop :=
  ∃ v r, Canonical v ∧ s.camTags e = (tagOf v).setWidth p.camTagBits ∧
    g.answers (walkAddr v) = some r ∧ s.Answers e r

/-- The page that is to be refilled is not in the CAM. -/
def RefillOk (s : TLB p k) (v : BitVec (p.vpnBits + 1)) : Prop :=
  Canonical v ∧ s.rRefillTag = tagOf v ∧
    ∀ e, s.vbArray e = true → s.camTags e ≠ (tagOf v).setWidth p.camTagBits

/-- Where the walk is in a state. -/
abbrev WalkOkAt (s : TLB p k) (g : TLBLog p) : TLBState → Prop
  | .ready => g.walk = none
  | .request => g.walk = none ∧ ∃ v, s.RefillOk v
  | .wait => ∃ v, g.walk = some (walkAddr v, false) ∧ s.RefillOk v
  | .waitInvalidate => (∃ a, g.walk = some (a, true)) ∧ ∀ e, s.vbArray e = false

/-- The walk is where the state says. -/
abbrev WalkOk (s : TLB p k) (g : TLBLog p) : Prop := s.WalkOkAt g s.state

/-- What holds along a run. -/
structure Inv (s : TLB p k) (g : TLBLog p) : Prop where
  unique : ∀ e e', s.vbArray e → s.vbArray e' → s.camTags e = s.camTags e' → e = e'
  entry : ∀ e, s.vbArray e → s.EntryOk g e
  walk : s.WalkOk g

/-- What the invariant says of the walk in a state. -/
theorem Inv.walkAt (h : s.Inv g) {st : TLBState} (hs : s.state = st) : s.WalkOkAt g st :=
  hs ▸ h.walk

/-! ## Entries -/

variable {r : PTWResp p}

/-- The refilled entry holds the answer. -/
theorem answers_refill (hr : i.ptwResp = some r) : (s.next i).Answers s.rRefillWaddr r := by
  constructor <;> simp [next, refill, hr]

variable {e : Fin (2 ^ k)}

theorem refill_of_ne {α : Type} (a : Fin (2 ^ k) → α) (f : PTWResp p → α)
    (hne : i.ptwResp.isSome → e ≠ s.rRefillWaddr) : s.refill i a f e = a e := by
  unfold refill
  cases hr : i.ptwResp with
  | none => rfl
  | some r => exact update_of_ne (hne (by simp [hr])) _ _

/-- An entry that is not refilled keeps its answer. -/
theorem Answers.next (h : s.Answers e r)
    (hne : i.ptwResp.isSome → e ≠ s.rRefillWaddr) : (s.next i).Answers e r where
  ppn := (refill_of_ne _ _ hne).trans h.ppn
  valid := (refill_of_ne _ _ hne).trans h.valid
  ur := (refill_of_ne _ _ hne).trans h.ur
  uw := (refill_of_ne _ _ hne).trans h.uw
  ux := (refill_of_ne _ _ hne).trans h.ux
  sr := (refill_of_ne _ _ hne).trans h.sr
  sw := (refill_of_ne _ _ hne).trans h.sw
  sx := (refill_of_ne _ _ hne).trans h.sx
  dirty := (refill_of_ne _ _ hne).trans h.dirty

section Permissions

variable {e : Fin (2 ^ k)} {r : PTWResp p} (h : s.Answers e r) (i : TLBIn p)

include h

theorem Answers.rArray_eq : s.rArray i e = r.readable (privS i) := by
  unfold rArray PTWResp.readable
  split_ifs
  · exact h.sr
  · exact h.ur

theorem Answers.wArray_eq : s.wArray i e = r.writable (privS i) := by
  unfold wArray PTWResp.writable
  split_ifs
  · exact h.sw
  · exact h.uw

theorem Answers.xArray_eq : s.xArray i e = r.executable (privS i) := by
  unfold xArray PTWResp.executable
  split_ifs
  · exact h.sx
  · exact h.ux

end Permissions

/-- The walk that is answered is the one under way. -/
theorem resp_eq_none (ha : Asked g i) (hw : g.walk = none) : i.ptwResp = none := by
  cases hr : i.ptwResp with
  | none => rfl
  | some r =>
    have := ha.resp (by simp [hr])
    simp [hw] at this

/-! ## Cycles -/

variable {v : BitVec (p.vpnBits + 1)}

theorem WalkOk.of_state (st : TLBState) (hs : s.state = st) (h : s.WalkOkAt g st) : s.WalkOk g := by
  rw [WalkOk, hs]
  exact h

/-- A request is accepted by the TLB only when it is ready. -/
theorem reqFire_eq_false (hs : s.state ≠ .ready) : s.reqFire i = false := by
  simp [reqFire, reqReady, hs]

/-- A walk is asked for only in one state. -/
theorem ptwReqFire_eq_none (hs : s.state ≠ .request) : s.ptwReqFire i = none := by
  simp [ptwReqFire, ptwReq, hs]

/-- The page of a miss is walked for next. -/
theorem refillOk_of_miss (ha : Asked g i) (hmiss : (s.reqFire i && s.tlbMiss i) = true)
    (hno : ∀ e, (s.next i).vbArray e →
      (s.next i).camTags e ≠ (tagOf i.req.vpn).setWidth p.camTagBits) :
    (s.next i).RefillOk i.req.vpn := by
  have hbad : badVa i = false := by
    simp only [tlbMiss, Bool.and_eq_true, Bool.not_eq_true'] at hmiss
    exact hmiss.2.2
  refine ⟨by simpa [badVa, Canonical] using hbad, ?_, hno⟩
  simp [next, hmiss, lookupTag, tagOf, ha.asid]

/-- The TLB is ready after an answer. -/
theorem WalkOk.answered (hr : i.ptwResp = some r) : (s.next i).WalkOk (g.step s i) :=
  .of_state .ready (by simp [next, stateNext, hr]) (by simp [step, hr])

/-- A TLB that is ready stays so until a miss. -/
theorem WalkOk.missed (hs : s.state = .ready) (hwalk : g.walk = none) (hr : i.ptwResp = none)
    (hv : (s.reqFire i && s.tlbMiss i) = true → (s.next i).RefillOk i.req.vpn) :
    (s.next i).WalkOk (g.step s i) := by
  have hno : (g.step s i).walk = none := by simp [step, hr, ptwReqFire_eq_none, hs, hwalk]
  cases hmiss : s.reqFire i && s.tlbMiss i with
  | false => exact .of_state .ready (by simp [next, stateNext, hr, hs, hmiss]) hno
  | true =>
    exact .of_state .request (by simp [next, stateNext, hr, hs, hmiss]) ⟨hno, _, hv hmiss⟩

/-- `invalidate` empties the CAM, and marks the walk under way. -/
theorem Inv.invalidated (h : s.Inv g) (ha : Asked g i) (hinv : i.invalidate) :
    (s.next i).Inv (g.step s i) := by
  have hempty : ∀ e, (s.next i).vbArray e = false := by
    intro e
    simp [next, camClear, camClearMask, hinv]
  refine ⟨fun e e' he => by simp [hempty] at he, fun e he => by simp [hempty] at he, ?_⟩
  cases hs : s.state with
  | ready =>
    have hwalk := h.walkAt hs
    refine .missed hs hwalk (resp_eq_none ha hwalk) fun hmiss => ?_
    exact refillOk_of_miss ha hmiss fun e he => by simp [hempty] at he
  | request =>
    have hwalk := (h.walkAt hs).1
    have hr := resp_eq_none ha hwalk
    cases hready : i.ptwReqReady with
    | false =>
      -- the request is withdrawn
      apply WalkOk.of_state .ready (by simp [next, stateNext, hr, hs, hready, hinv])
      simp [step, hr, ptwReqFire, hready, hwalk]
    | true =>
      refine .of_state .waitInvalidate (by simp [next, stateNext, hr, hs, hready, hinv])
        ⟨⟨s.rRefillTag.setWidth p.vpnBits, ?_⟩, hempty⟩
      simp [step, hr, ptwReqFire, ptwReq, hready, hs, hinv]
  | wait =>
    obtain ⟨v, hv, -⟩ := h.walkAt hs
    cases hr : i.ptwResp with
    | some r => exact .answered hr
    | none =>
      refine .of_state .waitInvalidate (by simp [next, stateNext, hr, hs, hinv])
        ⟨⟨walkAddr v, ?_⟩, hempty⟩
      simp [step, hr, ptwReqFire_eq_none, hs, hv, hinv]
  | waitInvalidate =>
    obtain ⟨⟨a, hv⟩, -⟩ := h.walkAt hs
    cases hr : i.ptwResp with
    | some r => exact .answered hr
    | none =>
      refine .of_state .waitInvalidate (by simp [next, stateNext, hr, hs]) ⟨⟨a, ?_⟩, hempty⟩
      simp [step, hr, ptwReqFire_eq_none, hs, hv]

/-- In a cycle without an answer and without `invalidate` entries can only be cleared. -/
theorem Inv.entries_kept (h : s.Inv g) (hinv : i.invalidate = false) (hr : i.ptwResp = none) :
    (∀ e, (s.next i).vbArray e → s.vbArray e) ∧
      (∀ e e', (s.next i).vbArray e → (s.next i).vbArray e' →
        (s.next i).camTags e = (s.next i).camTags e' → e = e') ∧
      ∀ e, (s.next i).vbArray e → (s.next i).EntryOk (g.step s i) e := by
  have hwrite : s.camWrite i = false := by simp [camWrite, hr]
  have htags : (s.next i).camTags = s.camTags := by simp [next, hwrite]
  have hvb : ∀ e, (s.next i).vbArray e → s.vbArray e := by
    intro e he
    simp only [next, hwrite, Bool.false_eq_true, if_false] at he
    split_ifs at he with hc
    · exact (Bool.and_eq_true_iff.1 he).1
    · exact he
  refine ⟨hvb, fun e e' he he' heq => ?_, fun e he => ?_⟩
  · rw [htags] at heq
    exact h.unique e e' (hvb e he) (hvb e' he') heq
  · obtain ⟨v, r, hv, htag, hans, hent⟩ := h.entry e (hvb e he)
    refine ⟨v, r, hv, by rw [htags, htag], ?_, hent.next (by simp [hr])⟩
    simpa [step, hinv, hr] using hans

/-- An entry that the lookup of a miss finds is cleared: the miss is then a store that has to
set the dirty bit. -/
theorem found_cleared (hmiss : (s.reqFire i && s.tlbMiss i) = true) (ha : Asked g i)
    (hv : s.vbArray e) (htag : s.camTags e = (tagOf i.req.vpn).setWidth p.camTagBits) :
    (s.next i).vbArray e = false := by
  obtain ⟨hfire, hno⟩ := Bool.and_eq_true_iff.1 hmiss
  have hhit : s.hits i e := by
    have : lookupTag i = tagOf i.req.vpn := by simp [lookupTag, tagOf, ha.asid]
    simp [hits, hv, htag, this]
  have hfound : s.tagHits i e = false := by
    simp only [tlbMiss, tagHit, orR, Bool.and_eq_true, Bool.not_eq_true', List.any_eq_false] at hno
    simpa using hno.1.2 e (List.mem_finRange e)
  simp [next, camClear, camClearMask, hfire, hhit, hfound]

/-- The other cycles without an answer. -/
theorem Inv.waiting (h : s.Inv g) (ha : Asked g i) (hinv : i.invalidate = false)
    (hr : i.ptwResp = none) : (s.next i).Inv (g.step s i) := by
  obtain ⟨hvb, hunique, hentry⟩ := h.entries_kept hinv hr
  have hsame : s.state ≠ .ready → (s.next i).rRefillTag = s.rRefillTag ∧
      (s.next i).camTags = s.camTags := by
    intro hs
    simp [next, reqFire_eq_false hs, camWrite, hr]
  -- a page that is not in the CAM does not get into it
  have hrefill : ∀ v, s.state ≠ .ready → s.RefillOk v → (s.next i).RefillOk v := by
    intro v hs hv
    refine ⟨hv.1, (hsame hs).1.trans hv.2.1, fun e he => ?_⟩
    rw [(hsame hs).2]
    exact hv.2.2 e (hvb e he)
  refine ⟨hunique, hentry, ?_⟩
  cases hs : s.state with
  | ready =>
    refine .missed hs (h.walkAt hs) hr fun hmiss => refillOk_of_miss ha hmiss fun e he htag => ?_
    have htag' : s.camTags e = (tagOf i.req.vpn).setWidth p.camTagBits := by
      simpa [next, camWrite, hr] using htag
    simp [found_cleared hmiss ha (hvb e he) htag'] at he
  | request =>
    obtain ⟨hno, v, hv⟩ := h.walkAt hs
    have hv' := hrefill v (by simp [hs]) hv
    cases hready : i.ptwReqReady with
    | false =>
      refine .of_state .request (by simp [next, stateNext, hr, hs, hready, hinv]) ⟨?_, v, hv'⟩
      simp [step, hr, ptwReqFire, hready, hno]
    | true =>
      refine .of_state .wait (by simp [next, stateNext, hr, hs, hready, hinv]) ⟨v, ?_, hv'⟩
      simp [step, hr, ptwReqFire, ptwReq, hready, hs, hinv, hv.2.1, walkAddr_tagOf]
  | wait =>
    obtain ⟨v, hw, hv⟩ := h.walkAt hs
    refine .of_state .wait (by simp [next, stateNext, hr, hs, hinv])
      ⟨v, ?_, hrefill v (by simp [hs]) hv⟩
    simp [step, hr, ptwReqFire_eq_none, hs, hw, hinv]
  | waitInvalidate =>
    obtain ⟨⟨a, hw⟩, hempty⟩ := h.walkAt hs
    refine .of_state .waitInvalidate (by simp [next, stateNext, hr, hs]) ⟨⟨a, ?_⟩, ?_⟩
    · simp [step, hr, ptwReqFire_eq_none, hs, hw]
    · intro e
      by_contra he
      have := hvb e (by simpa using he)
      simp [hempty] at this

/-- The answer of a walk that `invalidate` did not overtake is installed. -/
theorem Inv.installed (h : s.Inv g) (hinv : i.invalidate = false) (hr : i.ptwResp = some r)
    (hs : s.state = .wait) (hw : g.walk = some (walkAddr v, false)) (hv : s.RefillOk v) :
    (s.next i).Inv (g.step s i) := by
  obtain ⟨hcanon, hrefill, hfresh⟩ := hv
  have hfire : s.reqFire i = false := reqFire_eq_false (by simp [hs])
  have hvb : (s.next i).vbArray = update s.vbArray s.rRefillWaddr true := by
    simp [next, camClear, hinv, hfire, camWrite, hs, hr]
  have htags : (s.next i).camTags =
      update s.camTags s.rRefillWaddr ((tagOf v).setWidth p.camTagBits) := by
    simp [next, camWrite, hs, hr, hrefill]
  have hans : (g.step s i).answers = update g.answers (walkAddr v) (some r) := by
    simp [step, hinv, hr, hw]
  refine ⟨fun e e' he he' heq => ?_, fun e he => ?_, ?_⟩
  · -- the page was in no entry before
    rw [hvb] at he he'
    rw [htags] at heq
    by_cases h1 : e = s.rRefillWaddr <;> by_cases h2 : e' = s.rRefillWaddr
    · rw [h1, h2]
    · subst h1
      rw [update_self, update_of_ne h2] at heq
      rw [update_of_ne h2] at he'
      exact absurd heq.symm (hfresh e' he')
    · subst h2
      rw [update_self, update_of_ne h1] at heq
      rw [update_of_ne h1] at he
      exact absurd heq (hfresh e he)
    · rw [update_of_ne h1, update_of_ne h2] at heq
      rw [update_of_ne h1] at he
      rw [update_of_ne h2] at he'
      exact h.unique e e' he he' heq
  · by_cases h1 : e = s.rRefillWaddr
    · subst h1
      exact ⟨v, r, hcanon, by simp [htags], by simp [hans], answers_refill hr⟩
    · rw [hvb, update_of_ne h1] at he
      obtain ⟨w, r', hw', htag, hold, hent⟩ := h.entry e he
      -- another tag is another page, and so walked for under another number
      have hne : walkAddr w ≠ walkAddr v := by
        intro heq
        rw [walkAddr_injective hw' hcanon heq] at htag
        exact hfresh e he htag
      refine ⟨w, r', hw', by simp [htags, h1, htag], ?_, hent.next fun _ => h1⟩
      rw [hans, update_of_ne hne, hold]
  · exact .answered hr

/-- The answer of a walk that `invalidate` overtook is not installed. -/
theorem Inv.dropped (hinv : i.invalidate = false) (hr : i.ptwResp = some r)
    (hs : s.state = .waitInvalidate) (hempty : ∀ e, s.vbArray e = false) :
    (s.next i).Inv (g.step s i) := by
  have hfire : s.reqFire i = false := reqFire_eq_false (by simp [hs])
  have hvb : ∀ e, (s.next i).vbArray e = false := by
    intro e
    simp [next, camClear, hinv, hfire, camWrite, hs, hempty]
  exact ⟨fun e e' he => by simp [hvb] at he, fun e he => by simp [hvb] at he, .answered hr⟩

theorem Inv.next (h : s.Inv g) (ha : Asked g i) : (s.next i).Inv (g.step s i) := by
  cases hinv : i.invalidate with
  | true => exact h.invalidated ha hinv
  | false =>
    cases hr : i.ptwResp with
    | none => exact h.waiting ha hinv hr
    | some r =>
      cases hs : s.state with
      | ready => simp [resp_eq_none ha (h.walkAt hs)] at hr
      | request => simp [resp_eq_none ha (h.walkAt hs).1] at hr
      | wait =>
        obtain ⟨v, hw, hv⟩ := h.walkAt hs
        exact h.installed hinv hr hs hw hv
      | waitInvalidate => exact .dropped hinv hr hs (h.walkAt hs).2

theorem Inv.reset (u : TLB p k) : (reset u).Inv .empty := by
  refine ⟨fun e e' he => by simp [TLB.reset] at he, fun e he => by simp [TLB.reset] at he, ?_⟩
  exact .of_state .ready rfl rfl

/-! ## Lookups -/

/-- What lookups return is what the walker answered since the last `invalidate`. -/
structure Sound (s : TLB p k) (g : TLBLog p) (i : TLBIn p) : Prop where
  /-- At most one entry matches. -/
  unique : ∀ e e', s.hits i e → s.hits i e' → e = e'
  /-- An entry that matches holds an answer that no `invalidate` overtook or followed. -/
  hit : ∀ e, s.hits i e → ∃ r, g.answers (walkAddr i.req.vpn) = some r ∧ s.Answers e r
  resp : vmEnabled i → i.req.passthrough = false → Canonical i.req.vpn →
    (s.resp i).miss = false →
      ∃ r, g.answers (walkAddr i.req.vpn) = some r ∧ (s.resp i).ppn = r.pte.ppn ∧
        (s.resp i).xcptLd = !r.readable (privS i) ∧ (s.resp i).xcptSt = !r.writable (privS i) ∧
        (s.resp i).xcptIf = !r.executable (privS i)

theorem Inv.hit_unique (h : s.Inv g) {e e' : Fin (2 ^ k)} (he : s.hits i e)
    (he' : s.hits i e') : e = e' := by
  simp only [hits, Bool.and_eq_true, beq_iff_eq] at he he'
  exact h.unique e e' he.1 he'.1 (he.2.trans he'.2.symm)

/-- The matches are one-hot. -/
theorem Inv.hits_eq (h : s.Inv g) (he : s.hits i e) : s.hits i = uintToOH e := by
  ext e'
  by_cases heq : e' = e
  · rw [heq, he, uintToOH_self]
  · rw [uintToOH_of_ne heq]
    by_contra hne
    exact heq (h.hit_unique (by simpa using hne) he)

theorem Inv.hit_answers (h : s.Inv g) (ha : i.req.asid = 0) (he : s.hits i e) :
    ∃ r, g.answers (walkAddr i.req.vpn) = some r ∧ s.Answers e r := by
  simp only [hits, Bool.and_eq_true, beq_iff_eq] at he
  obtain ⟨v, r, -, htag, hans, hent⟩ := h.entry e he.1
  have hlook : lookupTag i = tagOf i.req.vpn := by simp [lookupTag, tagOf, ha]
  have hv : v = i.req.vpn := by
    apply tagOf_injective
    rw [← htag, he.2, hlook]
  exact ⟨r, hv ▸ hans, hent⟩

/-- Asking the matches of a one-hot vector is asking that entry. -/
theorem orR_uintToOH (f : Fin (2 ^ k) → Bool) (e : Fin (2 ^ k)) :
    (orR fun e' => f e' && uintToOH e e') = f e := by
  rw [Bool.eq_iff_iff, orR, List.any_eq_true]
  constructor
  · rintro ⟨e', -, h⟩
    simp only [uintToOH, Bool.and_eq_true, decide_eq_true_eq] at h
    exact h.2 ▸ h.1
  · intro h
    exact ⟨e, List.mem_finRange e, by simp [h]⟩

theorem Inv.sound (h : s.Inv g) (ha : i.req.asid = 0) : s.Sound g i := by
  refine ⟨fun e e' => h.hit_unique, fun e => h.hit_answers ha, fun hvm hpass hcanon hmiss => ?_⟩
  have hbad : badVa i = false := by simpa [badVa, Canonical] using hcanon
  have htag : s.tagHit i := by simpa [resp, tlbMiss, hvm, hbad] using hmiss
  -- the lookup does not miss, so some entry matches
  obtain ⟨e, -, he⟩ := List.any_eq_true.1 htag
  have hhit : s.hits i e := (Bool.and_eq_true_iff.1 he).1
  obtain ⟨r, hans, hent⟩ := h.hit_answers ha hhit
  refine ⟨r, hans, ?_, ?_, ?_, ?_⟩
  · simp [resp, hvm, hpass, h.hits_eq hhit, mux1H_uintToOH, hent.ppn]
  · simp [resp, hbad, tlbHit, hvm, htag, h.hits_eq hhit, orR_uintToOH, hent.rArray_eq]
  · simp [resp, hbad, tlbHit, hvm, htag, h.hits_eq hhit, orR_uintToOH, hent.wArray_eq]
  · simp [resp, hbad, tlbHit, hvm, htag, h.hits_eq hhit, orR_uintToOH, hent.xArray_eq]

end TLB

/-! ## Runs -/

/-- A TLB and what it was answered. -/
def tlbMachine : Machine (TLB p k × TLBLog p) (TLBIn p) where
  ok s i := Asked s.2 i
  next s i := (s.1.next i, s.2.step s.1 i)

/-- In every run from reset, lookups return what the walker answered for the page since the
last `invalidate`. -/
theorem tlb_sound (u : TLB p k) (is : List (TLBIn p))
    (hl : tlbMachine.Legal (TLB.reset u, TLBLog.empty) is) (i : TLBIn p) (ha : i.req.asid = 0) :
    (tlbMachine.run (TLB.reset u, TLBLog.empty) is).1.Sound
      (tlbMachine.run (TLB.reset u, TLBLog.empty) is).2 i := by
  apply TLB.Inv.sound _ ha
  exact Machine.invariant_run (P := fun s : TLB p k × TLBLog p => s.1.Inv s.2)
    (fun s i h hok => h.next hok) (.reset u) hl

/-! ## A miss and a hit -/

/-- A TLB of two entries, before reset. -/
def tinyTlb : TLB tinyVm 1 :=
  { state := .ready, rRefillTag := 0, rRefillWaddr := 0, rReq := ⟨0, 0, false, false, false⟩
    camTags := fun _ => 0, vbArray := fun _ => true, tagRam := fun _ => 0
    validArray := fun _ => false, urArray := fun _ => false, uwArray := fun _ => false
    uxArray := fun _ => false, srArray := fun _ => false, swArray := fun _ => false
    sxArray := fun _ => false, dirtyArray := fun _ => false, plru := fun _ => false }

/-- A lookup of page 1 by the supervisor, with a walker that is ready. -/
def lookupOne (answer : Option (PTWResp tinyVm)) : TLBIn tinyVm :=
  { req := ⟨0, 1, false, false, false⟩, reqValid := true, ptwReqReady := true
    ptwResp := answer, status := ⟨false, 1, 0, 8⟩, invalidate := false }

/-- A readable leaf for physical page 2. -/
def leafTwo : PTWResp tinyVm := ⟨false, ⟨2, 0, false, true, 2, true⟩⟩

/-- After the walk for page 1 has been answered, its lookup does not miss and returns the
answer. -/
theorem tlb_sound_refilled :
    (((tlbMachine.run (TLB.reset tinyTlb, TLBLog.empty)
        [lookupOne none, lookupOne none, lookupOne (some leafTwo)]).1.resp (lookupOne none)).miss
          = false ∧
      ((tlbMachine.run (TLB.reset tinyTlb, TLBLog.empty)
        [lookupOne none, lookupOne none, lookupOne (some leafTwo)]).1.resp (lookupOne none)).ppn
          = 2) ∧
      (tlbMachine.run (TLB.reset tinyTlb, TLBLog.empty)
        [lookupOne none, lookupOne none, lookupOne (some leafTwo)]).1.Sound
        (tlbMachine.run (TLB.reset tinyTlb, TLBLog.empty)
          [lookupOne none, lookupOne none, lookupOne (some leafTwo)]).2 (lookupOne none) := by
  refine ⟨by decide +kernel, tlb_sound tinyTlb _ ?_ _ rfl⟩
  exact ⟨⟨rfl, by decide +kernel⟩, ⟨rfl, by decide +kernel⟩, ⟨rfl, by decide +kernel⟩, trivial⟩

end TaggedRiscv.Vm
