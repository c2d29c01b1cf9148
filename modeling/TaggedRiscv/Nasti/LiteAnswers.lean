import TaggedRiscv.Nasti.Lite

/-!
# Answers of the NASTI-Lite converter

An acquire is accepted when its accesses have been sent, and answered when their responses have
come. In between, the converter accepts every further acquire that is valid, and forgets the
earlier one; it does not wait for the grant to be taken; and it decides by the signals of the
acquire channel, which then belong to nobody, how many write responses to expect.
-/

namespace TaggedRiscv.Nasti

open Sync Lite

variable {c : TLParams}

/-! ## Clients and slave -/

/-- What an answer has to agree on with its acquire: client, transaction and type. -/
abbrev Ident (c : TLParams) :=
  BitVec c.clientIdBits × BitVec c.clientXactIdBits × BitVec c.grantTypeBits

/-- The answer that an acquire asks for. -/
def identOfAcquire (q : AcquireFromSrc c) : Ident c :=
  (q.clientId, q.clientXactId, BitVec.ofNat _ q.getBuiltInGrantType.code)

/-- The answer that a grant gives. -/
def identOfGrant (g : GrantToDst c) : Ident c := (g.clientId, g.clientXactId, g.gType)

/-- What has happened at the ports: the request that was presented and not accepted in the
last cycle, the accepted requests, the grants, the clients that wait for one, the
addresses and data that the slave has not answered, and the responses it was left with. -/
structure LiteLog (c : TLParams) where
  presented : Option (AcquireFromSrc c)
  accepted : List (AcquireFromSrc c)
  granted : List (GrantToDst c)
  waiting : List (BitVec c.clientIdBits)
  ars : ℕ
  aws : ℕ
  ws : ℕ
  bHeld : Bool
  rHeld : Option (BitVec 32)

namespace LiteLog

/-- Nothing has happened. -/
def empty : LiteLog c := ⟨none, [], [], [], 0, 0, 0, false, none⟩

/-- The record after a cycle. -/
def step (g : LiteLog c) (s : Lite c) (i : LiteIn c) : LiteLog c :=
  { presented := if i.acquireValid && !s.acquireReady i then some i.acquire else none
    accepted := g.accepted ++ if s.acquireReady i then [i.acquire] else []
    granted := g.granted ++ if s.grantFire i then [s.grant i] else []
    waiting :=
      let w := g.waiting ++ if s.acquireReady i then [i.acquire.clientId] else []
      if s.grantFire i then w.erase s.clientId else w
    ars := g.ars + (s.arFires i).toNat - (s.rFires i).toNat
    aws := g.aws + (s.awFires i).toNat - (s.bFires i).toNat
    ws := g.ws + (s.wFires i).toNat - (s.bFires i).toNat
    bHeld := i.bValid && !s.bReady
    rHeld := if i.rValid && !s.rReady i then some i.rData else none }

end LiteLog

open LiteLog

/-- Clients ask for single beats, hold a request until it is accepted and have one each;
the slave answers what it was asked, and holds its responses. -/
structure Behaved (g : LiteLog c) (i : LiteIn c) : Prop where
  kind : i.acquireValid →
    (i.acquire.isBuiltIn .getType || i.acquire.isBuiltIn .putType) = true
  held : ∀ q, g.presented = some q → i.acquireValid ∧ i.acquire = q
  single : i.acquireValid → i.acquire.clientId ∉ g.waiting
  b : i.bValid → 0 < g.aws ∧ 0 < g.ws
  r : i.rValid → 0 < g.ars
  bHeld : g.bHeld → i.bValid
  rHeld : ∀ d, g.rHeld = some d → i.rValid ∧ i.rData = d

/-- A response is the one that was held. -/
def LiteIn.holds (i : LiteIn c) (d : BitVec 32) : Bool := i.rValid && i.rData == d

instance (g : LiteLog c) (i : LiteIn c) : Decidable (Behaved g i) :=
  decidable_of_iff
    ((i.acquireValid = true →
        (i.acquire.isBuiltIn .getType || i.acquire.isBuiltIn .putType) = true) ∧
      (∀ q ∈ g.presented, i.acquireValid = true ∧ i.acquire = q) ∧
      (i.acquireValid = true → i.acquire.clientId ∉ g.waiting) ∧
      (i.bValid = true → 0 < g.aws ∧ 0 < g.ws) ∧ (i.rValid = true → 0 < g.ars) ∧
      (g.bHeld = true → i.bValid = true) ∧ g.rHeld.all i.holds = true)
    ⟨fun h => ⟨h.1, h.2.1, h.2.2.1, h.2.2.2.1, h.2.2.2.2.1, h.2.2.2.2.2.1, fun d hd => by
        simpa [hd, LiteIn.holds] using h.2.2.2.2.2.2⟩,
      fun h => ⟨h.kind, h.held, h.single, h.b, h.r, h.bHeld, by
        cases hd : g.rHeld with
        | none => rfl
        | some d => simpa [LiteIn.holds] using h.rHeld d hd⟩⟩

/-- No acquire is valid while an accepted one is unanswered, the grant is taken when it
is offered, and when the first write response comes after the acquire has gone, the
signals of the acquire channel still ask for as many accesses. -/
@[mk_iff]
structure Alone (s : Lite c) (g : LiteLog c) (i : LiteIn c) : Prop where
  quiet : g.waiting ≠ [] → i.acquireValid = false
  taken : s.rState = .grant → i.grantReady
  live : s.rState = .resp0 → i.bValid → i.acquireValid = false →
    ∀ q ∈ g.accepted.getLast?, i.acquire.doubleWrite = q.doubleWrite

instance (s : Lite c) (g : LiteLog c) (i : LiteIn c) : Decidable (Alone s g i) :=
  decidable_of_iff' _ (alone_iff s g i)

/-- The slave and the client keep things going. -/
structure Obliging (g : LiteLog c) (i : LiteIn c) : Prop where
  ready : (i.awReady && i.wReady && i.arReady && i.grantReady) = true
  b : 0 < g.aws → 0 < g.ws → i.bValid
  r : 0 < g.ars → i.rValid

/-- The slave takes an address or data or answers, or the client takes the grant. -/
def Lite.advances (s : Lite c) (i : LiteIn c) : Bool :=
  s.awFires i || s.wFires i || s.arFires i || s.grantFire i ||
    (s.rState == .resp0 || s.rState == .resp1) && (i.bValid || i.rValid)

/-! ## A transaction -/

/-- The registers describe a request. -/
structure Regs (s : Lite c) (q : AcquireFromSrc c) : Prop where
  clientId : s.clientId = q.clientId
  clientXactId : s.clientXactId = q.clientXactId
  grantType : s.grantType = q.getBuiltInGrantType
  opSize : s.opSize = q.opSize

/-- The answers up to now are those of the accepted requests but for `rest`. -/
def Answered (g : LiteLog c) (rest : List (Ident c)) : Prop :=
  g.accepted.map identOfAcquire = g.granted.map identOfGrant ++ rest

/-- The clients are waiting for a request to be accepted, or for its grant. -/
inductive Pending (g : LiteLog c) (q : AcquireFromSrc c) : Bool → Prop
  | offered : g.presented = some q → g.waiting = [] → Answered g [] → Pending g q false
  | taken : g.presented = none → g.waiting = [q.clientId] → g.accepted.getLast? = some q →
      Answered g [identOfAcquire q] → Pending g q true

/-- How far a read is, given whether it takes two accesses: the two states, the addresses
not answered, and the response that waits for the grant. -/
inductive ReadPhase (long : Bool) : TState → RState → ℕ → Bool → Prop
  | req0 : ReadPhase long .req0 .idle 0 false
  | req1 : long → ReadPhase long .req1 .resp0 1 false
  | req1' : long → ReadPhase long .req1 .resp1 0 false
  | busy : ReadPhase long .busy .resp0 (if long then 2 else 1) false
  | busy' : long → ReadPhase long .busy .resp1 1 false
  | grant : ReadPhase long .busy .grant 1 true

/-- How far a write is, given whether it takes two accesses: the two states, the flags,
and the addresses and data not answered. -/
inductive WritePhase (long : Bool) : TState → RState → Bool → Bool → ℕ → ℕ → Prop
  | req0 (aw w : Bool) : (aw && w) = false →
      WritePhase long .req0 (if aw then .resp0 else .idle) aw w aw.toNat w.toNat
  | req1 (aw w : Bool) : long → (aw && w) = false →
      WritePhase long .req1 .resp0 aw w (1 + aw.toNat) (1 + w.toNat)
  | req1' (aw w : Bool) : long → (aw && w) = false →
      WritePhase long .req1 .resp1 aw w aw.toNat w.toNat
  | busy : WritePhase long .busy .resp0 false false (if long then 2 else 1) (if long then 2 else 1)
  | busy' : long → WritePhase long .busy .resp1 false false 1 1
  | grant : WritePhase long .busy .grant false false 0 0

/-! ### The phases of a read and of a write -/

/-- The request side after a cycle, given whether an access is sent in it. -/
def TState.after (long : Bool) (t : TState) (sent : Bool) : TState :=
  match t with
  | .req0 => if sent then (if long then .req1 else .busy) else .req0
  | .req1 => if sent then .busy else .req1
  | t => t

/-- The response side after a cycle, given whether an address is taken and whether a
response comes. -/
def RState.after (long : Bool) (r : RState) (sent answered : Bool) : RState :=
  match r with
  | .idle => if sent then .resp0 else .idle
  | .resp0 => if answered then (if long then .resp1 else .grant) else .resp0
  | .resp1 => if answered then .grant else .resp1
  | .grant => .idle

/-- A request is being sent. -/
def TState.sending (t : TState) : Bool := t == .req0 || t == .req1

/-- How many addresses and data the request side has to send, given what is sent of the present
access. -/
def TState.rank (aw w : Bool) : TState → ℕ
  | .req0 => 2 + (!aw).toNat + (!w).toNat
  | .req1 => (!aw).toNat + (!w).toNat
  | _ => 0

/-- How many responses the response side waits for, with the grant. -/
def RState.rank : RState → ℕ
  | .idle => 3
  | .resp0 => 3
  | .resp1 => 2
  | .grant => 1

/-- The grant follows a response, and in a long transaction the second one. -/
theorem RState.after_eq_grant {long sent answered : Bool} {r : RState}
    (h : r.after long sent answered = .grant) :
    answered ∧ (r = .resp0 ∧ long = false ∨ r = .resp1) := by
  cases r <;> cases sent <;> cases answered <;> cases long <;> simp_all [RState.after]

section Read

variable {long b : Bool} {t : TState} {r : RState} {n : ℕ} (arReady rValid : Bool)

variable (h : ReadPhase long t r n b)

include h

theorem ReadPhase.ne_idle : t ≠ .idle := by
  cases h <;> simp

theorem ReadPhase.next (hne : r ≠ .grant) (hr : rValid → 0 < n) :
    ReadPhase long (t.after long arReady) (r.after long (t.sending && arReady) rValid)
      (n + (t.sending && arReady).toNat - (rValid && (r == .resp0 && long)).toNat)
      (rValid && !(r == .resp0 && long)) := by
  cases h with
  | req0 =>
    obtain rfl : rValid = false := by simpa using hr
    cases arReady <;> cases long
    · exact .req0
    · exact .req0
    · exact .busy
    · exact .req1 rfl
  | req1 hl =>
    subst hl
    cases arReady <;> cases rValid
    · exact .req1 rfl
    · exact .req1' rfl
    · exact .busy
    · exact .busy' rfl
  | req1' hl =>
    subst hl
    obtain rfl : rValid = false := by simpa using hr
    cases arReady
    · exact .req1' rfl
    · exact .busy' rfl
  | busy =>
    cases rValid <;> cases long
    · exact .busy
    · exact .busy
    · exact .grant
    · exact .busy' rfl
  | busy' hl =>
    subst hl
    cases rValid
    · exact .busy' rfl
    · exact .grant
  | grant => exact absurd rfl hne

/-- The last response of a read comes after its addresses are sent. -/
theorem ReadPhase.busy_of_last (hr : rValid → 0 < n)
    {sent : Bool} (hlast : r.after long sent rValid = .grant) : t = .busy := by
  obtain ⟨hv, hlast⟩ := RState.after_eq_grant hlast
  have hn := hr hv
  cases h <;> simp_all

/-- The last response is still there when the grant is offered. -/
theorem ReadPhase.owed_grant (hr : r = .grant) : n = 1 ∧ b := by
  cases h <;> simp_all

/-- A read gets on with each address that is taken and each response. -/
theorem ReadPhase.rank_next (hne : r ≠ .grant) (hr : rValid → 0 < n) :
    (t.after long arReady).rank false false +
        (r.after long (t.sending && arReady) rValid).rank +
      (t.sending && arReady || (r == .resp0 || r == .resp1) && rValid).toNat ≤
        t.rank false false + r.rank := by
  cases h with
  | req0 =>
    obtain rfl : rValid = false := by simpa using hr
    decide +revert
  | grant => exact absurd rfl hne
  | _ => decide +revert

/-- A read waits for an address to be taken, for a response or for the grant to be taken. -/
theorem ReadPhase.waits :
    t.sending ∨ 0 < n ∧ (r = .resp0 ∨ r = .resp1) ∨ r = .grant := by
  cases h <;> cases long <;> simp_all [TState.sending]

end Read

section Write

variable {long x y : Bool} {t : TState} {r : RState} {m n : ℕ} (awReady wReady bValid : Bool)

theorem WritePhase.ne_idle (h : WritePhase long t r x y m n) : t ≠ .idle := by
  cases h <;> simp

/-- No response comes while neither access is complete. -/
theorem bValid_eq_false (hnot : (x && y) = false) (hb : bValid → 0 < x.toNat ∧ 0 < y.toNat) :
    bValid = false := by
  cases x <;> cases y <;> simp_all

variable (h : WritePhase long t r x y m n)

include h

theorem WritePhase.next (hne : r ≠ .grant) (hb : bValid → 0 < m ∧ 0 < n) :
    let aw := t.sending && !x && awReady
    let w := t.sending && !y && wReady
    let wr := (aw || x) && (w || y)
    WritePhase long (t.after long wr) (r.after long aw bValid)
      (!(t.sending && wr) && (aw || x)) (!(t.sending && wr) && (w || y))
      (m + aw.toNat - bValid.toNat) (n + w.toNat - bValid.toNat) := by
  cases h with
  | req0 _ _ hnot =>
    obtain rfl := bValid_eq_false bValid hnot hb
    cases x <;> cases y <;> cases awReady <;> cases wReady <;> cases long <;> simp at hnot
    all_goals first
      | exact .req0 false false rfl
      | exact .req0 true false rfl
      | exact .req0 false true rfl
      | exact .req1 false false rfl rfl
      | exact .busy
  | req1 _ _ hl hnot =>
    subst hl
    cases x <;> cases y <;> cases awReady <;> cases wReady <;> cases bValid <;> simp at hnot
    all_goals first
      | exact .req1 _ _ rfl rfl
      | exact .req1' _ _ rfl rfl
      | exact .busy
      | exact .busy' rfl
  | req1' _ _ hl hnot =>
    subst hl
    obtain rfl := bValid_eq_false bValid hnot hb
    cases x <;> cases y <;> cases awReady <;> cases wReady <;> simp at hnot
    all_goals first
      | exact .req1' _ _ rfl rfl
      | exact .busy' rfl
  | busy =>
    cases bValid <;> cases long
    · exact .busy
    · exact .busy
    · exact .grant
    · exact .busy' rfl
  | busy' hl =>
    subst hl
    cases bValid
    · exact .busy' rfl
    · exact .grant
  | grant => exact absurd rfl hne

/-- Responses are owed only while they are waited for. -/
theorem WritePhase.resp_of_owed (hm : 0 < m) (hn : 0 < n) : r = .resp0 ∨ r = .resp1 := by
  cases x <;> cases y <;> cases h <;> simp_all

/-- Nothing is owed when the grant is offered. -/
theorem WritePhase.owed_grant (hr : r = .grant) : m = 0 ∧ n = 0 := by
  cases x <;> cases y <;> cases h <;> simp_all

/-- The last response of a write comes after its halves are sent. -/
theorem WritePhase.busy_of_last (hb : bValid → 0 < m ∧ 0 < n)
    {sent : Bool} (hlast : r.after long sent bValid = .grant) : t = .busy := by
  obtain ⟨hv, hlast⟩ := RState.after_eq_grant hlast
  obtain ⟨hm, hn⟩ := hb hv
  cases x <;> cases y <;> cases h <;> simp_all

/-- A write gets on with each half that is taken and each response. -/
theorem WritePhase.rank_next (hne : r ≠ .grant) (hb : bValid → 0 < m ∧ 0 < n) :
    let aw := t.sending && !x && awReady
    let w := t.sending && !y && wReady
    let wr := (aw || x) && (w || y)
    (t.after long wr).rank (!(t.sending && wr) && (aw || x)) (!(t.sending && wr) && (w || y)) +
        (r.after long aw bValid).rank +
      (aw || w || (r == .resp0 || r == .resp1) && bValid).toNat ≤ t.rank x y + r.rank := by
  cases h with
  | req0 _ _ hnot =>
    obtain rfl := bValid_eq_false bValid hnot hb
    decide +revert
  | grant => exact absurd rfl hne
  | _ => decide +revert

/-- A write waits for a half to be taken, for a response or for the grant to be taken. -/
theorem WritePhase.waits :
    t.sending ∧ (x && y) = false ∨ 0 < m ∧ 0 < n ∧ (r = .resp0 ∨ r = .resp1) ∨
      r = .grant := by
  cases h <;> cases long <;> simp_all [TState.sending]

end Write

/-! ### A transaction of the converter -/

/-- The registers, the clients and the slave agree on a read. -/
structure ServingRead (s : Lite c) (g : LiteLog c) (q : AcquireFromSrc c) : Prop where
  kind : q.getBuiltInGrantType = .getDataBeatType
  flags : s.awFire = false ∧ s.wFire = false
  writes : g.aws = 0 ∧ g.ws = 0 ∧ g.bHeld = false
  phase : ReadPhase (q.opSize == MT_D) s.tState s.rState g.ars g.rHeld.isSome

/-- The registers, the clients and the slave agree on a write. -/
structure ServingWrite (s : Lite c) (g : LiteLog c) (q : AcquireFromSrc c) : Prop where
  kind : q.getBuiltInGrantType = .putAckType
  reads : g.ars = 0 ∧ g.rHeld = none ∧ g.bHeld = false
  phase : WritePhase q.doubleWrite s.tState s.rState s.awFire s.wFire g.aws g.ws

/-- A request is being served; `taken` says whether it is accepted. It is when the grant
is offered. -/
structure Serving (s : Lite c) (g : LiteLog c) (q : AcquireFromSrc c) (taken : Bool) : Prop where
  regs : Regs s q
  pending : Pending g q taken
  busy : taken → s.tState = .busy
  early : s.rState = .grant → taken
  kind : ServingRead s g q ∨ ServingWrite s g q

/-- Nothing is being served. -/
structure Resting (s : Lite c) (g : LiteLog c) : Prop where
  tState : s.tState = .idle
  rState : s.rState = .idle
  presented : g.presented = none
  waiting : g.waiting = []
  answered : Answered g []
  owed : g.ars = 0 ∧ g.aws = 0 ∧ g.ws = 0 ∧ g.bHeld = false ∧ g.rHeld = none

variable {s : Lite c} {g : LiteLog c} {i : LiteIn c} {q : AcquireFromSrc c} {taken : Bool}

theorem grantFire_of_ne (hne : s.rState ≠ .grant) : s.grantFire i = false := by
  simp [grantFire, grantValid, hne]

/-- Nothing is sent to the slave outside the states that request. -/
theorem fires_of_not_requesting (hreq : s.requesting = false) :
    s.awFires i = false ∧ s.wFires i = false ∧ s.arFires i = false := by
  simp [awFires, awValid, wFires, wValid, arFires, arValid, hreq]

/-- A read in a cycle. -/
theorem ServingRead.signals (h : ServingRead s g q) (hr : Regs s q) (hb : Behaved g i)
    (hno : s.grantFire i = false) :
    s.awFires i = false ∧ s.wFires i = false ∧ i.bValid = false ∧
      s.arFires i = (s.tState.sending && i.arReady) ∧
      s.rReady i = (s.rState == .resp0 && q.opSize == MT_D) ∧
      s.tStateNext i = s.tState.after (q.opSize == MT_D) i.arReady ∧
      s.rStateNext i =
        s.rState.after (q.opSize == MT_D) (s.tState.sending && i.arReady) i.rValid := by
  have hg : s.grantType = .getDataBeatType := hr.grantType.trans h.kind
  have hbv : i.bValid = false := by
    by_contra hv
    have := hb.b (by simpa using hv)
    have := h.writes.1
    omega
  have haw : s.awFires i = false := by simp [awFires, awValid, hg]
  have hwr : s.wrFire i = false := by simp [wrFire, haw, h.flags.1]
  have har : s.arFires i = (s.tState.sending && i.arReady) := by
    simp [arFires, arValid, requesting, TState.sending, hg]
  refine ⟨haw, by simp [wFires, wValid, hg], hbv, har, by simp [rReady, hg, hr.opSize, hno], ?_, ?_⟩
  · have hidle := h.phase.ne_idle
    unfold tStateNext TState.after
    cases hT : s.tState <;> simp_all [hr.opSize, TState.sending]
  · unfold rStateNext RState.after
    cases hR : s.rState <;> simp [har, haw, hbv, hr.opSize]

/-- A write in a cycle. -/
theorem ServingWrite.signals (h : ServingWrite s g q) (hr : Regs s q) (hb : Behaved g i)
    (hreq : s.tState = .req0 → i.acquire.doubleWrite = q.doubleWrite)
    (hresp : s.rState = .resp0 → i.bValid → i.acquire.doubleWrite = q.doubleWrite)
    (hno : s.grantFire i = false) :
    s.arFires i = false ∧ i.rValid = false ∧
      s.awFires i = (s.tState.sending && !s.awFire && i.awReady) ∧
      s.wFires i = (s.tState.sending && !s.wFire && i.wReady) ∧
      s.tStateNext i = s.tState.after q.doubleWrite (s.wrFire i) ∧
      s.rStateNext i = s.rState.after q.doubleWrite (s.awFires i) i.bValid ∧
      i.bValid = s.bFires i := by
  have hg : s.grantType = .putAckType := hr.grantType.trans h.kind
  have hrv : i.rValid = false := by
    by_contra hv
    have := hb.r (by simpa using hv)
    have := h.reads.1
    omega
  have har : s.arFires i = false := by simp [arFires, arValid, hg]
  refine ⟨har, hrv, by simp [awFires, awValid, requesting, TState.sending, hg],
    by simp [wFires, wValid, requesting, TState.sending, hg], ?_, ?_, ?_⟩
  · have hidle := h.phase.ne_idle
    unfold tStateNext TState.after
    cases hT : s.tState <;> simp_all
  · unfold rStateNext RState.after
    cases hR : s.rState with
    | resp0 =>
      cases hbv : i.bValid with
      | false => simp [hrv]
      | true => simp [hresp hR hbv]
    | _ => simp [har, hrv]
  · -- a response finds the converter waiting for one
    cases hbv : i.bValid with
    | false => simp [bFires, hbv]
    | true =>
      have hwait := h.phase.resp_of_owed (hb.b hbv).1 (hb.b hbv).2
      simp [bFires, bReady, hbv, hg, hwait]

theorem ServingRead.next (h : ServingRead s g q) (hr : Regs s q) (hb : Behaved g i)
    (hne : s.rState ≠ .grant) : ServingRead (s.next i) (g.step s i) q := by
  have hno := grantFire_of_ne (i := i) hne
  obtain ⟨haw, hw, hbv, har, hrr, ht, hrs⟩ := h.signals hr hb hno
  refine ⟨h.kind, ?_, ?_, ?_⟩
  · simp [Lite.next, haw, hw, h.flags]
  · simp [step, bFires, haw, hw, hbv, h.writes]
  · have hp := h.phase.next i.arReady i.rValid hne hb.r
    simp only [Lite.next, step, ht, hrs, har, rFires, hrr]
    convert hp using 1
    cases i.rValid && !(s.rState == .resp0 && q.opSize == MT_D) <;> rfl

/-- The flags of a write remember which half is sent, until both are. -/
theorem flags_next (hidle : s.tState ≠ .idle) (har : s.arFires i = false) :
    (s.next i).awFire = (!(s.tState.sending && s.wrFire i) && (s.awFires i || s.awFire)) ∧
      (s.next i).wFire = (!(s.tState.sending && s.wrFire i) && (s.wFires i || s.wFire)) := by
  cases hT : s.tState with
  | idle => exact absurd hT hidle
  | _ =>
    cases hx : s.awFire <;> cases hy : s.wFire <;>
      simp [Lite.next, clearFires, TState.sending, requesting, awFires,
        awValid, wFires, wValid, hT, hx, hy, har]

theorem ServingWrite.next (h : ServingWrite s g q) (hr : Regs s q) (hb : Behaved g i)
    (hreq : s.tState = .req0 → i.acquire.doubleWrite = q.doubleWrite)
    (hresp : s.rState = .resp0 → i.bValid → i.acquire.doubleWrite = q.doubleWrite)
    (hne : s.rState ≠ .grant) : ServingWrite (s.next i) (g.step s i) q := by
  have hno := grantFire_of_ne (i := i) hne
  obtain ⟨har, hrv, haw, hw, ht, hrs, hbf⟩ := h.signals hr hb hreq hresp hno
  refine ⟨h.kind, ?_, ?_⟩
  · refine ⟨by simp [step, rFires, har, hrv, h.reads.1], by simp [step, hrv], ?_⟩
    cases hbv : i.bValid with
    | false => simp [step, hbv]
    | true =>
      have hbr : s.bReady := by simpa [bFires, hbv] using hbf
      simp [step, hbr]
  · have hp := h.phase.next i.awReady i.wReady i.bValid hne hb.b
    obtain ⟨hx, hy⟩ := flags_next h.phase.ne_idle har
    rw [hx, hy]
    simp only [← haw, ← hw] at hp
    simpa only [Lite.next, step, ht, hrs, ← hbf, wrFire] using hp

/-! ### The clients -/

/-- The grant answers the request that the registers describe. -/
theorem Regs.identOfGrant (h : Regs s q) : identOfGrant (s.grant i) = identOfAcquire q := by
  simp [Nasti.identOfGrant, identOfAcquire, Lite.grant, h.clientId, h.clientXactId, h.grantType]

/-- While a request is served, only its own signals are on the acquire channel. -/
theorem Pending.acquire_eq (h : Pending g q taken) (hb : Behaved g i) (ha : Alone s g i)
    (hv : i.acquireValid) : i.acquire = q := by
  cases h with
  | offered hp _ _ => exact (hb.held q hp).2
  | taken _ hw _ _ =>
    rw [ha.quiet (by simp [hw])] at hv
    exact absurd hv (by simp)

theorem Regs.next (h : Regs s q) (hp : Pending g q taken) (hb : Behaved g i)
    (ha : Alone s g i) : Regs (s.next i) q := by
  cases hv : i.acquireValid with
  | false => exact ⟨by simp [Lite.next, hv, h.clientId], by simp [Lite.next, hv, h.clientXactId],
      by simp [Lite.next, hv, h.grantType], by simp [Lite.next, hv, h.opSize]⟩
  | true =>
    have hq := hp.acquire_eq hb ha hv
    constructor <;> simp [Lite.next, hv, hq]

/-- A request is accepted as soon as its accesses are sent. -/
theorem Pending.next (h : Pending g q taken) (hb : Behaved g i) (ha : Alone s g i)
    (hno : s.grantFire i = false) : Pending (g.step s i) q (taken || s.tState == .busy) := by
  cases h with
  | offered hp hw hans =>
    obtain ⟨hv, hq⟩ := hb.held q hp
    cases ht : s.tState == .busy with
    | false =>
      refine .offered ?_ ?_ ?_
      · simp [step, acquireReady, ht, hv, hq]
      · simp [step, acquireReady, ht, hno, hw]
      · simpa [Answered, step, acquireReady, ht, hno] using hans
    | true =>
      refine .taken ?_ ?_ ?_ ?_
      · simp [step, acquireReady, ht, hv]
      · simp [step, acquireReady, ht, hv, hno, hw, hq]
      · simp [step, acquireReady, ht, hv, hq]
      · simpa [Answered, step, acquireReady, ht, hv, hno, hq] using hans
  | taken hp hw hlast hans =>
    have hv := ha.quiet (by simp [hw])
    refine .taken ?_ ?_ ?_ ?_
    · simp [step, hv]
    · simp [step, acquireReady, hv, hno, hw]
    · simpa [step, acquireReady, hv] using hlast
    · simpa [Answered, step, acquireReady, hv, hno] using hans

/-- The answer of an accepted request leaves nobody waiting. -/
theorem Pending.granted (h : Pending g q true) (hr : Regs s q) (ha : Alone s g i)
    (hfire : s.grantFire i) :
    (g.step s i).presented = none ∧ (g.step s i).waiting = [] ∧ Answered (g.step s i) [] := by
  cases h with
  | taken hp hw hlast hans =>
    have hv := ha.quiet (by simp [hw])
    refine ⟨by simp [step, hv], ?_, ?_⟩
    · simp [step, acquireReady, hv, hfire, hw, hr.clientId]
    · simpa [Answered, step, acquireReady, hv, hfire, hr.identOfGrant] using hans

section

variable (h : Serving s g q taken)

include h

/-- The number of write accesses is decided by the request. -/
theorem Serving.doubleWrite_eq (hb : Behaved g i) (ha : Alone s g i) :
    (s.tState = .req0 → i.acquire.doubleWrite = q.doubleWrite) ∧
      (s.rState = .resp0 → i.bValid → i.acquire.doubleWrite = q.doubleWrite) := by
  cases hv : i.acquireValid with
  | true =>
    have hq := h.pending.acquire_eq hb ha hv
    simp [hq]
  | false =>
    cases h.pending with
    | offered hp _ _ =>
      have := (hb.held q hp).1
      simp [hv] at this
    | taken _ _ hlast _ =>
      refine ⟨fun ht => ?_, fun hr hbv => ha.live hr hbv hv q hlast⟩
      have := h.busy rfl
      simp [ht] at this

/-! ### Steps -/

theorem Serving.next (hb : Behaved g i) (ha : Alone s g i)
    (hne : s.rState ≠ .grant) : Serving (s.next i) (g.step s i) q (taken || s.tState == .busy) := by
  have hno := grantFire_of_ne (i := i) hne
  obtain ⟨hreq, hresp⟩ := h.doubleWrite_eq hb ha
  refine ⟨h.regs.next h.pending hb ha, h.pending.next hb ha hno, fun ht => ?_, fun hr => ?_, ?_⟩
  · have hbusy : s.tState = .busy := by
      rcases Bool.or_eq_true_iff.1 ht with ht | ht
      · exact h.busy ht
      · simpa using ht
    simp [Lite.next, tStateNext, hbusy, hno]
  · have hbusy : s.tState = .busy := by
      rcases h.kind with hk | hk
      · obtain ⟨-, -, -, -, -, -, hrs⟩ := hk.signals h.regs hb hno
        exact hk.phase.busy_of_last _ hb.r (hrs.symm.trans hr)
      · obtain ⟨-, -, -, -, -, hrs, -⟩ := hk.signals h.regs hb hreq hresp hno
        exact hk.phase.busy_of_last _ hb.b (hrs.symm.trans hr)
    simp [hbusy]
  · rcases h.kind with hk | hk
    · exact .inl (hk.next h.regs hb hne)
    · exact .inr (hk.next h.regs hb hreq hresp hne)

/-- What is owed when the last response of a transaction has come. -/
theorem Serving.owed_granted (hb : Behaved g i)
    (hgrant : s.rState = .grant) (hfire : s.grantFire i) :
    (g.step s i).ars = 0 ∧ (g.step s i).aws = 0 ∧ (g.step s i).ws = 0 ∧
      (g.step s i).bHeld = false ∧ (g.step s i).rHeld = none := by
  have hbusy : s.requesting = false := by simp [requesting, h.busy (h.early hgrant)]
  have haw : s.awFires i = false := by simp [awFires, awValid, hbusy]
  have hw : s.wFires i = false := by simp [wFires, wValid, hbusy]
  have har : s.arFires i = false := by simp [arFires, arValid, hbusy]
  have hb0 := hb.b
  have hr0 := hb.r
  rcases h.kind with hk | hk
  · obtain ⟨hars, hheld⟩ := hk.phase.owed_grant hgrant
    obtain ⟨d, hd⟩ := Option.isSome_iff_exists.1 hheld
    have hrv := (hb.rHeld d hd).1
    have hbv : i.bValid = false := by
      rw [hk.writes.1] at hb0
      simpa using hb0
    have hrr : s.rReady i := by simp [rReady, h.regs.grantType, hk.kind, hfire]
    simp [step, rFires, bFires, haw, hw, har, hars, hrv, hrr, hbv, hk.writes]
  · obtain ⟨haws, hws⟩ := hk.phase.owed_grant hgrant
    have hbv : i.bValid = false := by
      rw [haws] at hb0
      simpa using hb0
    have hrv : i.rValid = false := by
      rw [hk.reads.1] at hr0
      simpa using hr0
    simp [step, rFires, bFires, haw, hw, har, haws, hws, hrv, hbv, hk.reads]

/-- The cycle in which a transaction is answered. -/
theorem Serving.granted (hb : Behaved g i) (ha : Alone s g i)
    (hgrant : s.rState = .grant) : Resting (s.next i) (g.step s i) := by
  have hfire : s.grantFire i := by simp [grantFire, grantValid, hgrant, ha.taken hgrant]
  obtain rfl := h.early hgrant
  obtain ⟨hp, hw, hans⟩ := h.pending.granted h.regs ha hfire
  refine ⟨?_, ?_, hp, hw, hans, h.owed_granted hb hgrant hfire⟩
  · simp [Lite.next, tStateNext, h.busy rfl, hfire]
  · simp [Lite.next, rStateNext, hgrant]

end

theorem Resting.next (h : Resting s g) (hb : Behaved g i) :
    Resting (s.next i) (g.step s i) ∨ Serving (s.next i) (g.step s i) i.acquire false := by
  obtain ⟨hars, haws, hws, hbh, hrh⟩ := h.owed
  have hb0 := hb.b
  have hr0 := hb.r
  rw [haws] at hb0
  rw [hars] at hr0
  have hbv : i.bValid = false := by simpa using hb0
  have hrv : i.rValid = false := by simpa using hr0
  have hreq : s.requesting = false := by simp [requesting, h.tState]
  obtain ⟨haw, hw, har⟩ := fires_of_not_requesting (i := i) hreq
  have hacc : s.acquireReady i = false := by simp [acquireReady, h.tState]
  have hno := grantFire_of_ne (s := s) (i := i) (by simp [h.rState])
  have hrs : (s.next i).rState = .idle := by simp [Lite.next, rStateNext, h.rState, haw, har]
  have howed : (g.step s i).ars = 0 ∧ (g.step s i).aws = 0 ∧ (g.step s i).ws = 0 ∧
      (g.step s i).bHeld = false ∧ (g.step s i).rHeld = none := by
    simp [step, rFires, bFires, haw, hw, har, hars, haws, hws, hbv, hrv]
  have hans : Answered (g.step s i) [] := by
    simpa [Answered, step, hacc, hno] using h.answered
  have hwait : (g.step s i).waiting = [] := by simp [step, hacc, hno, h.waiting]
  cases hv : i.acquireValid with
  | false =>
    refine .inl ⟨?_, hrs, ?_, hwait, hans, howed⟩
    · simp [Lite.next, tStateNext, h.tState, hv]
    · simp [step, hv]
  | true =>
    have ht : (s.next i).tState = .req0 := by simp [Lite.next, tStateNext, h.tState, hv]
    have hflags : (s.next i).awFire = false ∧ (s.next i).wFire = false := by
      simp [Lite.next, clearFires, h.tState, hv]
    refine .inr ⟨?_, .offered ?_ hwait hans, by simp, by simp [hrs], ?_⟩
    · constructor <;> simp [Lite.next, hv]
    · simp [step, hacc, hv]
    · obtain ⟨hars', haws', hws', hbh', hrh'⟩ := howed
      rcases Bool.or_eq_true_iff.1 (hb.kind hv) with hk | hk
      · refine .inl ⟨?_, hflags, ⟨haws', hws', hbh'⟩, ?_⟩
        · exact Acquire.grantType_of_get hk
        · rw [ht, hrs, hars', hrh']
          exact .req0
      · refine .inr ⟨?_, ⟨hars', hrh', hbh'⟩, ?_⟩
        · exact Acquire.grantType_of_put hk
        · rw [ht, hrs, hflags.1, hflags.2, haws', hws']
          exact .req0 false false rfl

/-! ### Progress -/

/-- How far a transaction has to go. -/
def Lite.rank (s : Lite c) : ℕ := s.tState.rank s.awFire s.wFire + s.rState.rank

theorem Lite.rank_le (s : Lite c) : s.rank ≤ 7 := by
  unfold Lite.rank
  cases s.tState <;> cases s.rState <;> cases s.awFire <;> cases s.wFire <;> decide

/-- A transaction never goes back, and gets on with what the slave and the client do. -/
theorem Serving.rank_next (h : Serving s g q taken) (hb : Behaved g i) (ha : Alone s g i)
    (hne : s.rState ≠ .grant) : (s.next i).rank + (s.advances i).toNat ≤ s.rank := by
  have hno := grantFire_of_ne (i := i) hne
  rcases h.kind with hk | hk
  · obtain ⟨haw, hw, hbv, har, -, ht, hrs⟩ := hk.signals h.regs hb hno
    have hp := hk.phase.rank_next i.arReady i.rValid hne hb.r
    have hflags := (hk.next h.regs hb hne).flags
    rw [Lite.rank, hflags.1, hflags.2]
    simpa only [Lite.rank, Lite.advances, hk.flags, haw, hw, har, hno, hbv, Lite.next, ht, hrs,
      Bool.false_or, Bool.or_false] using hp
  · obtain ⟨hreq, hresp⟩ := h.doubleWrite_eq hb ha
    obtain ⟨har, hrv, haw, hw, ht, hrs, -⟩ := hk.signals h.regs hb hreq hresp hno
    have hp := hk.phase.rank_next i.awReady i.wReady i.bValid hne hb.b
    obtain ⟨hx, hy⟩ := flags_next hk.phase.ne_idle har
    simp only [← haw, ← hw] at hp
    rw [Lite.rank, hx, hy]
    simpa only [Lite.rank, Lite.advances, har, hno, hrv, Lite.next, ht, hrs, wrFire,
      Bool.or_false] using hp

/-- The converter always waits for something that a prompt slave and client do. -/
theorem Serving.advances (h : Serving s g q taken) (hb : Behaved g i) (ha : Alone s g i)
    (ho : Obliging g i) : s.advances i := by
  have hready := ho.ready
  simp only [Bool.and_eq_true] at hready
  by_cases hgrant : s.rState = .grant
  · simp [Lite.advances, grantFire, grantValid, hgrant, ha.taken hgrant]
  have hno := grantFire_of_ne (i := i) hgrant
  rcases h.kind with hk | hk
  · obtain ⟨-, -, -, har, -, -, -⟩ := hk.signals h.regs hb hno
    rcases hk.phase.waits with hw | ⟨hn, hr⟩ | hr
    · simp [Lite.advances, har, hw, hready]
    · simp [Lite.advances, ho.r hn, hr]
    · exact absurd hr hgrant
  · obtain ⟨hreq, hresp⟩ := h.doubleWrite_eq hb ha
    obtain ⟨-, -, haw, hw, -, -, -⟩ := hk.signals h.regs hb hreq hresp hno
    rcases hk.phase.waits with ⟨ht, hnot⟩ | ⟨hm, hn, hr⟩ | hr
    · cases hx : s.awFire <;> simp_all [Lite.advances]
    · simp [Lite.advances, ho.b hm hn, hr]
    · exact absurd hr hgrant

/-! ## Runs -/

/-- The converter with its clients and its slave. -/
abbrev behavedMachine (c : TLParams) : Machine (Lite c × LiteLog c) (LiteIn c) where
  ok s i := Behaved s.2 i
  next s i := (s.1.next i, s.2.step s.1 i)

/-- The same, where an accepted acquire is alone until it is answered. -/
abbrev aloneMachine (c : TLParams) : Machine (Lite c × LiteLog c) (LiteIn c) :=
  (behavedMachine c).restrict fun s i => Alone s.1 s.2 i

/-- The cycles of a run in which the present transaction gets on. -/
def progress : Lite c × LiteLog c → List (LiteIn c) → ℕ
  | _, [] => 0
  | s, i :: js => (s.1.advances i).toNat + progress ((aloneMachine c).next s i) js

/-- The converter rests or serves a request. -/
def Lite.Inv (s : Lite c × LiteLog c) : Prop :=
  Resting s.1 s.2 ∨ ∃ q taken, Serving s.1 s.2 q taken

theorem Lite.Inv.next {s : Lite c × LiteLog c} (h : Lite.Inv s) (hb : Behaved s.2 i)
    (ha : Alone s.1 s.2 i) : Lite.Inv (s.1.next i, s.2.step s.1 i) := by
  rcases h with h | ⟨q, taken, h⟩
  · rcases h.next hb with h | h
    · exact .inl h
    · exact .inr ⟨_, _, h⟩
  · by_cases hgrant : s.1.rState = .grant
    · exact .inl (h.granted hb ha hgrant)
    · exact .inr ⟨_, _, h.next hb ha hgrant⟩

/-- At most one accepted request is unanswered. -/
theorem Lite.Inv.answered {s : Lite c × LiteLog c} (h : Lite.Inv s) :
    ∃ rest, rest.length ≤ 1 ∧ Answered s.2 rest := by
  rcases h with h | ⟨q, taken, h⟩
  · exact ⟨[], by simp, h.answered⟩
  · cases h.pending with
    | offered _ _ hans => exact ⟨[], by simp, hans⟩
    | taken _ _ _ hans => exact ⟨_, by simp, hans⟩

theorem inv_reset (u : Lite c) : Lite.Inv (u.reset, .empty) :=
  .inl ⟨rfl, rfl, rfl, rfl, rfl, rfl, rfl, rfl, rfl, rfl⟩

theorem granted_run (s : Lite c × LiteLog c) (js : List (LiteIn c)) :
    s.2.granted.length ≤ ((aloneMachine c).run s js).2.granted.length := by
  induction js generalizing s with
  | nil => exact le_rfl
  | cons i js ih =>
    refine le_trans ?_ (ih _)
    simp [aloneMachine, Machine.restrict, step]

/-- A transaction is answered when it has got on as often as it has to. -/
theorem Serving.answered_run {s : Lite c × LiteLog c} (h : Serving s.1 s.2 q taken)
    {js : List (LiteIn c)} (hl : (aloneMachine c).Legal s js) (hlen : s.1.rank ≤ progress s js) :
    s.2.granted.length < ((aloneMachine c).run s js).2.granted.length := by
  -- along the run the rank falls until the grant is offered and taken
  induction js generalizing s taken with
  | nil =>
    have : 0 < s.1.rState.rank := by cases s.1.rState <;> decide
    simp only [Lite.rank, progress] at hlen
    omega
  | cons i js ih =>
    obtain ⟨⟨hb, ha⟩, hl⟩ := hl
    by_cases hgrant : s.1.rState = .grant
    · refine lt_of_lt_of_le ?_ (granted_run _ js)
      have hfire : s.1.grantFire i := by simp [grantFire, grantValid, hgrant, ha.taken hgrant]
      simp [aloneMachine, Machine.restrict, step, hfire]
    · have hrank := h.rank_next hb ha hgrant
      have hlen : s.1.rank ≤
          (s.1.advances i).toNat + progress (s.1.next i, s.2.step s.1 i) js := hlen
      have hlate := ih (s := (s.1.next i, s.2.step s.1 i)) (h.next hb ha hgrant) hl
        (Nat.le_of_add_le_add_left (by rw [Nat.add_comm]; exact hrank.trans hlen))
      refine lt_of_le_of_lt ?_ hlate
      simp [step]

/-- In every run in which an accepted acquire is alone until it is answered, the grants
carry client, transaction and type of the accepted acquires, one by one and in order, with
at most one acquire unanswered. However slow the slave and the clients are, whatever was accepted
is answered once they have done seven times what the converter waits for, and it always waits for
something of them. -/
theorem lite_answers_each_once (u : Lite c) (is : List (LiteIn c))
    (hl : (aloneMachine c).Legal (u.reset, .empty) is) :
    let s := (aloneMachine c).run (u.reset, .empty) is
    s.2.granted.map identOfGrant <+: s.2.accepted.map identOfAcquire ∧
      s.2.accepted.length ≤ s.2.granted.length + 1 ∧
      (∀ js, (aloneMachine c).Legal s js → 7 ≤ progress s js →
        s.2.accepted.length ≤ ((aloneMachine c).run s js).2.granted.length) ∧
      (s.2.granted.length < s.2.accepted.length → ∀ i, (aloneMachine c).ok s i →
        Obliging s.2 i → s.1.advances i = true) := by
  have hinv : Lite.Inv ((aloneMachine c).run (u.reset, .empty) is) :=
    Machine.invariant_run (m := aloneMachine c) (P := Lite.Inv)
      (fun _ _ hs hi => hs.next hi.1 hi.2) (inv_reset u) hl
  obtain ⟨rest, hrest, hans⟩ := hinv.answered
  have hlength := congrArg List.length hans
  simp only [List.length_map, List.length_append] at hlength
  refine ⟨⟨rest, hans.symm⟩, by omega, fun js hjs hlen => ?_, fun hlt i hi ho => ?_⟩
  · rcases hinv with h | ⟨q, taken, h⟩
    · have h0 := congrArg List.length h.answered
      simp only [List.length_map, List.append_nil] at h0
      rw [h0]
      exact granted_run _ js
    · have := h.answered_run hjs ((Lite.rank_le _).trans hlen)
      omega
  · rcases hinv with h | ⟨q, taken, h⟩
    · have h0 := congrArg List.length h.answered
      simp only [List.length_map, List.append_nil] at h0
      omega
    · exact h.advances hi.1 hi.2 ho

/-! ## A swallowed request -/

/-- Four clients, beats of 8 bytes. -/
def liteParams : TLParams := { TLParams.small with clientIdBits := 2 }

/-- A client reads a word. -/
def wordGet (client : BitVec 2) : AcquireFromSrc liteParams :=
  { isBuiltinType := true, aType := 0, clientXactId := 0, addrBlock := 1, addrBeat := 0, data := 0
    union := 0, clientId := client }

/-- A cycle in which everyone is ready, with an acquire and a read response. -/
def liteCycle (client : BitVec 2) (acquireValid rValid : Bool) : LiteIn liteParams :=
  { acquire := wordGet client, acquireValid := acquireValid, grantReady := true, awReady := true
    wReady := true, arReady := true, bValid := false, rValid := rValid, rData := 0x77 }

/-- The registers before the reset. -/
def liteZero : Lite liteParams :=
  { tState := .idle, rState := .idle, clientId := 0, clientXactId := 0
    grantType := .putAckType, opSize := 0, addrHigh := false, dataBuf := 0, awFire := false
    wFire := false }

/-- Client 1 reads; after its acquire is accepted and before the response comes, client 2
presents an acquire. -/
def swallowRun : List (LiteIn liteParams) :=
  [liteCycle 1 true false, liteCycle 1 true false, liteCycle 1 true false,
    liteCycle 2 true true, liteCycle 0 false true]

/-- Both acquires are accepted, and the only grant goes to client 2. -/
theorem second_acquire_swallowed :
    (behavedMachine liteParams).Legal (liteZero.reset, .empty) swallowRun ∧
      ¬ ((behavedMachine liteParams).run (liteZero.reset, .empty) swallowRun).2.granted.map
          identOfGrant <+:
        ((behavedMachine liteParams).run (liteZero.reset, .empty) swallowRun).2.accepted.map
          identOfAcquire := by
  constructor <;> decide +kernel

/-- Clients 1 and 2 read one after the other, and the answers take a while. -/
def twoReads : List (LiteIn liteParams) :=
  [liteCycle 1 true false, liteCycle 1 true false, liteCycle 1 true false, liteCycle 1 false false,
    liteCycle 1 false true, liteCycle 1 false true, liteCycle 2 true false, liteCycle 2 true false,
    liteCycle 2 true true, liteCycle 2 false true]

theorem lite_answers_each_once_two :
    ((aloneMachine liteParams).run (liteZero.reset, .empty) twoReads).2.granted.map
        (·.clientId) = [1, 2] ∧
      ((aloneMachine liteParams).run (liteZero.reset, .empty) twoReads).2.granted.map
          identOfGrant <+:
        ((aloneMachine liteParams).run (liteZero.reset, .empty) twoReads).2.accepted.map
          identOfAcquire :=
  ⟨by decide +kernel, (lite_answers_each_once liteZero twoReads (by decide +kernel)).1⟩

end TaggedRiscv.Nasti
