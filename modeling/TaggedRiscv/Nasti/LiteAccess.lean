import TaggedRiscv.Nasti.LiteAnswers
import Mathlib.Tactic.Ring

/-!
# The accesses of the NASTI-Lite converter

A put of up to 8 bytes becomes one write for each 32-bit word with a selected byte, and a get one
read, or two for 8 bytes. Both sides of the converter decide by themselves how many accesses there
are: the request side while the acquire is presented, the response side when the first response
comes. By then the acquire is gone, and what the channel shows may ask for another number.
-/

namespace TaggedRiscv

variable {c : TLParams}

/-! ## Requests -/

namespace Acquire

variable (a : Acquire c)

/-- The 32-bit words of the beat with a selected byte. -/
def lanes : List ℕ := (List.range c.liteXacts).filter a.wmasksBv

def laneAddr (k : ℕ) : ℕ :=
  ((a.addrBlock.toNat * 2 ^ c.beatAddrBits + a.addrBeat.toNat) * c.liteXacts + k) * 4

def laneData (k : ℕ) : BitVec 32 := a.data.extractLsb' (32 * k) 32

def laneStrb (k : ℕ) (b : Fin 4) : Bool := a.wmask (4 * k + b)

/-- The addresses that a get reads. -/
def readAddrs : List ℕ :=
  if a.opSize = Nasti.MT_D then [a.fullAddr, a.fullAddr + 4] else [a.fullAddr]

/-- The selected bytes lie in one aligned word of 8 bytes. -/
def WithinWord : Prop :=
  ∃ m < c.liteXacts, ∀ j < 4 * c.liteXacts, a.wmask j = true → j / 8 = m

instance : Decidable a.WithinWord :=
  inferInstanceAs (Decidable (∃ m < c.liteXacts, ∀ j < 4 * c.liteXacts, a.wmask j = true → _))

/-- A put within a word, or an aligned read of 1, 2, 4 or 8 bytes. -/
def DeviceAccess : Prop :=
  a.isBuiltIn .putType = true ∧ a.WithinWord ∨
    a.isBuiltIn .getType = true ∧ a.opSize.toNat < 7 ∧ 2 ^ (a.opSize.toNat % 4) ∣ a.addrByte.toNat
deriving Decidable

/-- The word that the converter finds and, if it says so, the next one. -/
def foundLanes : List ℕ :=
  if a.doubleWrite then [a.waddrByte, a.waddrByte + 1] else [a.waddrByte]

variable {a}

theorem liteXacts_even (hc : 3 ≤ c.byteAddrBits) : ∃ p, c.liteXacts = 2 * p := by
  refine ⟨2 ^ (c.byteAddrBits - 3), ?_⟩
  rw [TLParams.liteXacts, ← pow_succ']
  congr 1
  omega

theorem mem_lanes {k : ℕ} : k ∈ a.lanes ↔ k < c.liteXacts ∧ a.wmasksBv k := by
  simp [lanes]

/-- The words of a put in one word of 8 bytes are neighbours. -/
theorem lane_div (hw : a.WithinWord) : ∃ m, ∀ k ∈ a.lanes, k / 2 = m := by
  obtain ⟨m, -, hm⟩ := hw
  refine ⟨m, fun k hk => ?_⟩
  obtain ⟨hlt, hmask⟩ := mem_lanes.1 hk
  obtain ⟨j, hj, hbyte⟩ := List.any_eq_true.1 hmask
  rw [List.mem_range] at hj
  have := hm (4 * k + j) (by omega) hbyte
  omega

theorem or_one_of_even {k : ℕ} (h : k % 2 = 0) : k ||| 1 = k + 1 := by
  have := Nat.two_pow_add_eq_or_of_lt (i := 1) (b := 1) (by decide) (k / 2)
  rw [pow_one, show 2 * (k / 2) = k by omega] at this
  exact this.symm

/-- Setting the address bit of the upper word. -/
theorem or_four {k : ℕ} (h : k % 8 = 0) : k ||| 4 = k + 4 := by
  have := Nat.two_pow_add_eq_or_of_lt (i := 3) (b := 4) (by decide) (k / 8)
  rw [show 2 ^ 3 * (k / 8) = k by omega] at this
  exact this.symm

/-- The words of a put are those that the converter finds. -/
theorem lanes_eq (hc : 3 ≤ c.byteAddrBits) (hw : a.WithinWord) (hne : a.lanes ≠ []) :
    a.lanes = a.foundLanes := by
  obtain ⟨m, hm⟩ := lane_div hw
  obtain ⟨p, hp⟩ := liteXacts_even hc
  obtain ⟨f, rest, hl⟩ := List.exists_cons_of_ne_nil hne
  have hfirst : a.waddrByte = f := by
    rw [waddrByte, ← List.head?_filter]
    change (a.lanes.head?).getD _ = f
    rw [hl]
    rfl
  have hsorted : a.lanes.Pairwise (· < ·) := List.pairwise_lt_range.filter _
  rw [hl, List.pairwise_cons] at hsorted
  have hf : f ∈ a.lanes := by simp [hl]
  -- the others lie above the first one and in the same pair
  have hrest : ∀ r ∈ rest, r = f + 1 ∧ f % 2 = 0 := by
    intro r hr
    have h1 := hm r (by simp [hl, hr])
    have h2 := hm f hf
    have := hsorted.1 r hr
    omega
  have hdouble : a.doubleWrite ↔ f + 1 ∈ rest := by
    simp only [doubleWrite, hfirst, Bool.and_eq_true, beq_iff_eq]
    constructor
    · rintro ⟨heven, hmask⟩
      rw [or_one_of_even heven] at hmask
      have hmem : f + 1 ∈ a.lanes := mem_lanes.2 ⟨by have := (mem_lanes.1 hf).1; omega, hmask⟩
      rw [hl, List.mem_cons] at hmem
      exact hmem.resolve_left (by omega)
    · intro hmem
      have heven := (hrest _ hmem).2
      rw [or_one_of_even heven]
      exact ⟨heven, (mem_lanes.1 (by rw [hl]; exact List.mem_cons_of_mem _ hmem)).2⟩
  rw [hl, foundLanes, hfirst]
  cases hr : rest with
  | nil =>
    have hd : ¬ a.doubleWrite := by simp [hdouble, hr]
    simp [hd]
  | cons r rest' =>
    have hr1 : r = f + 1 := (hrest r (by simp [hr])).1
    have hd : a.doubleWrite := by simp [hdouble, hr, hr1]
    have hnil : rest' = [] := by
      by_contra hne'
      obtain ⟨r', rest'', rfl⟩ := List.exists_cons_of_ne_nil hne'
      have hr2 : r' = f + 1 := (hrest r' (by simp [hr])).1
      rw [hr, List.pairwise_cons] at hsorted
      have := hsorted.2.1 r' (by simp)
      omega
    simp [hd, hr1, hnil]

/-- The address of the upper word of a pair. -/
theorem waddr_or_four (hc : 3 ≤ c.byteAddrBits) (heven : a.waddrByte % 2 = 0) :
    a.waddr ||| 4 = a.laneAddr (a.waddrByte + 1) := by
  obtain ⟨p, hp⟩ := liteXacts_even hc
  have hmod : a.waddr % 8 = 0 := by
    simp only [waddr, hp]
    have : ∀ x y : ℕ, (x * (2 * p) + y) % 2 = y % 2 := by
      intro x y
      rw [show x * (2 * p) + y = y + 2 * (x * p) by ring]
      omega
    have := this (a.addrBlock.toNat * 2 ^ c.beatAddrBits + a.addrBeat.toNat) a.waddrByte
    omega
  rw [or_four hmod]
  simp only [waddr, laneAddr]
  ring

theorem laneAddr_word {k : ℕ} (hk : k < c.liteXacts) : a.laneAddr k / 4 % c.liteXacts = k := by
  rw [laneAddr, Nat.mul_div_cancel _ (by decide), Nat.mul_add_mod', Nat.mod_eq_of_lt hk]

/-- The place of a read in its word of 8 bytes. -/
theorem fullAddr_mod (hc : 3 ≤ c.byteAddrBits) : a.fullAddr % 8 = a.addrByte.toNat % 8 := by
  have hpow : 2 ^ c.byteAddrBits = 8 * 2 ^ (c.byteAddrBits - 3) := by
    rw [show (8 : ℕ) = 2 ^ 3 from rfl, ← pow_add]
    congr 1
    omega
  rw [fullAddr, hpow, show ∀ x y z : ℕ, x * (8 * y) + z = z + 8 * (x * y) by intros; ring]
  omega

theorem fullAddr_or_four (hc : 3 ≤ c.byteAddrBits) (hal : 8 ∣ a.addrByte.toNat) :
    a.fullAddr ||| 4 = a.fullAddr + 4 := by
  refine or_four ?_
  rw [fullAddr_mod hc]
  omega

theorem addrByte_two (hc : 3 ≤ c.byteAddrBits) :
    a.addrByte.getLsbD 2 = decide (a.fullAddr / 4 % 2 = 1) := by
  have := a.fullAddr_mod hc
  rw [BitVec.getLsbD, Nat.testBit_eq_decide_div_mod_eq]
  congr 1
  apply propext
  omega

end Acquire

namespace Nasti

open Sync Lite TState

/-! ## Accesses -/

/-- The words that were read, each at its place in the aligned word of 8 bytes. -/
def placed (reads : List (ℕ × BitVec 32)) : BitVec 64 :=
  let lane (k : ℕ) := ((reads.find? fun e => e.1 / 4 % 2 == k).map Prod.snd).getD 0
  lane 1 ++ lane 0

/-- What went over the channels of the slave: the addresses and data of writes, the addresses
of reads, the number of write responses, and the data that was read. -/
structure Accesses where
  aws : List ℕ
  ws : List (BitVec 32 × (Fin 4 → Bool))
  ars : List ℕ
  bs : ℕ
  rs : List (BitVec 32)

namespace Accesses

def empty : Accesses := ⟨[], [], [], 0, []⟩

/-- The accesses after a cycle. -/
def step (a : Accesses) (s : Lite c) (i : LiteIn c) : Accesses :=
  { aws := a.aws ++ if s.awFires i then [s.awAddr i] else []
    ws := a.ws ++ if s.wFires i then [(s.wData i, s.wStrb i)] else []
    ars := a.ars ++ if s.arFires i then [s.arAddr i] else []
    bs := a.bs + (s.bFires i).toNat
    rs := a.rs ++ if s.rFires i then [i.rData] else [] }

end Accesses

/-- The request that was presented first since the last grant, the accesses since then, and
what was done before: requests, accesses and grants. -/
structure AccessLog (c : TLParams) where
  request : Option (AcquireFromSrc c)
  now : Accesses
  done : List (AcquireFromSrc c × Accesses × GrantToDst c)

namespace AccessLog

def empty : AccessLog c := ⟨none, .empty, []⟩

/-- The log after a cycle. -/
def step (l : AccessLog c) (s : Lite c) (i : LiteIn c) : AccessLog c :=
  if s.grantFire i then
    { request := none, now := .empty
      done := l.done ++ (l.request.map fun q => (q, l.now.step s i, s.grant i)).toList }
  else
    { request := l.request <|> if i.acquireValid then some i.acquire else none
      now := l.now.step s i, done := l.done }

end AccessLog

/-- A put has written each of its words once, with its address, data and strobes, and all
writes were acknowledged; a get has read its words, and they are at their place in the
grant. -/
structure Performed (q : AcquireFromSrc c) (a : Accesses) (g : GrantToDst c) : Prop where
  ident : identOfGrant g = identOfAcquire q
  put : q.isBuiltIn .putType →
    a.aws = q.lanes.map q.laneAddr ∧
      a.ws = q.lanes.map (fun k => (q.laneData k, q.laneStrb k)) ∧ a.ars = [] ∧
      a.bs = a.aws.length
  get : q.isBuiltIn .getType →
    a.aws = [] ∧ a.ws = [] ∧ a.ars = q.readAddrs ∧ a.rs.length = a.ars.length ∧
      g.data = (placed (a.ars.zip a.rs)).setWidth _

/-- The requests up to now have had their accesses, those of the present request are sent in
order, and nothing else is. -/
structure ExactAccesses (l : AccessLog c) : Prop where
  done : ∀ e ∈ l.done, Performed e.1 e.2.1 e.2.2
  idle : l.request = none → l.now = .empty
  put : ∀ q ∈ l.request, q.isBuiltIn .putType →
    l.now.aws <+: q.lanes.map q.laneAddr ∧
      l.now.ws <+: q.lanes.map (fun k => (q.laneData k, q.laneStrb k)) ∧ l.now.ars = []
  get : ∀ q ∈ l.request, q.isBuiltIn .getType →
    l.now.aws = [] ∧ l.now.ws = [] ∧ l.now.ars <+: q.readAddrs

/-! ## Environment -/

/-- The converter with its log. -/
abbrev LiteState (c : TLParams) := (Lite c × LiteLog c) × AccessLog c

/-- The converter among behaved clients that ask for accesses of a device, and a behaved
slave. -/
abbrev accessMachine (c : TLParams) : Machine (LiteState c) (LiteIn c) where
  ok s i := Behaved s.1.2 i ∧ (i.acquireValid = true → i.acquire.DeviceAccess)
  next s i := ((s.1.1.next i, s.1.2.step s.1.1 i), s.2.step s.1.1 i)

/-- An accepted acquire is alone until it is answered, and a put selects a byte. -/
def Steady (s : LiteState c) (i : LiteIn c) : Prop :=
  Alone s.1.1 s.1.2 i ∧
    (i.acquireValid = true → i.acquire.isBuiltIn .putType = true → i.acquire.lanes ≠ [])
deriving Decidable

abbrev steadyMachine (c : TLParams) : Machine (LiteState c) (LiteIn c) :=
  (accessMachine c).restrict Steady

/-! ## A transaction -/

/-- The accesses that are sent before the present one. -/
def TState.sent (total : ℕ) : TState → ℕ
  | .idle => 0
  | .req0 => 0
  | .req1 => 1
  | .busy => total

/-- The first of two responses has been taken. -/
def RState.first (long : Bool) : RState → Bool
  | .idle => false
  | .resp0 => false
  | .resp1 => true
  | .grant => long

theorem TState.sent_after {long : Bool} {t : TState} (hidle : t ≠ .idle)
    (hlong : t = .req1 → long) (fire : Bool) :
    (t.after long fire).sent (1 + long.toNat) =
      t.sent (1 + long.toNat) + (t.sending && fire).toNat := by
  cases t <;> cases long <;> cases fire <;> simp_all [after, sent, sending]

/-- An access that is sent in two halves is counted by the flag of a half or by the state. -/
theorem flag_count (sending : Bool) {wr flag fire : Bool} (hwr : wr → (fire || flag) = true)
    (hfire : fire → flag = false) :
    (sending && wr).toNat + (!(sending && wr) && (fire || flag)).toNat =
      flag.toNat + fire.toNat := by
  cases sending <;> cases wr <;> cases flag <;> cases fire <;> simp_all

theorem take_fire {α : Type*} {l : List α} {k : ℕ} {e : α} {fire : Bool}
    (h : fire → l[k]? = some e) :
    (l.take k ++ if fire then [e] else []) = l.take (k + fire.toNat) := by
  cases fire with
  | false => simp
  | true => simp [List.take_add_one, h rfl]

/-- What was sent of one half of the accesses, after a cycle. -/
theorem take_half {α : Type*} {l : List α} {k k' : ℕ} {e : α} {sending wr flag fire : Bool}
    (hk : k' = k + (sending && wr).toNat) (hwr : wr → (fire || flag) = true)
    (hfire : fire → flag = false) (hnext : fire → l[k]? = some e) :
    (l.take (k + flag.toNat) ++ if fire then [e] else []) =
      l.take (k' + (!(sending && wr) && (fire || flag)).toNat) := by
  have hcount := flag_count sending hwr hfire
  rw [take_fire (k := k + flag.toNat)]
  · congr 1
    omega
  · intro hf
    rw [hfire hf]
    exact hnext hf

theorem ReadPhase.long_of_req1 {long held : Bool} {t : TState} {r : RState} {k : ℕ}
    (h : ReadPhase long t r k held) (ht : t = .req1) : long := by
  cases h <;> simp_all

theorem ReadPhase.long_of_resp1 {long held : Bool} {t : TState} {r : RState} {k : ℕ}
    (h : ReadPhase long t r k held) (hr : r = .resp1) : long := by
  cases h <;> simp_all

theorem WritePhase.long_of_req1 {long x y : Bool} {t : TState} {r : RState} {k m : ℕ}
    (h : WritePhase long t r x y k m) (ht : t = .req1) : long := by
  cases h <;> simp_all

/-- How far the accesses of a read are. -/
structure ReadSoFar (s : Lite c) (g : LiteLog c) (q : AcquireFromSrc c) (a : Accesses) :
    Prop where
  writes : a.aws = [] ∧ a.ws = []
  ars : a.ars = q.readAddrs.take (s.tState.sent q.readAddrs.length)
  owed : a.rs.length + g.ars = a.ars.length
  rs : a.rs = if s.rState.first (q.opSize == MT_D) then [s.dataBuf] else []
  held : s.rState = .grant → q.opSize ≠ MT_D → g.rHeld = some s.dataBuf

/-- How far the accesses of a write are. -/
structure WriteSoFar (s : Lite c) (g : LiteLog c) (q : AcquireFromSrc c) (a : Accesses) :
    Prop where
  reads : a.ars = []
  aws : a.aws = (q.lanes.map q.laneAddr).take (s.tState.sent q.lanes.length + s.awFire.toNat)
  ws : a.ws = (q.lanes.map fun k => (q.laneData k, q.laneStrb k)).take
    (s.tState.sent q.lanes.length + s.wFire.toNat)
  owed : a.bs + g.aws = a.aws.length

section Cycle

variable {s : Lite c} {g : LiteLog c} {i : LiteIn c} {q : AcquireFromSrc c} {a : Accesses}
  {taken : Bool}

/-- While accesses are sent, the acquire is presented. -/
theorem Serving.acquire_of_sending (h : Serving s g q taken) (hb : Behaved g i)
    (hs : s.tState.sending) : i.acquire = q := by
  cases h.pending with
  | offered hp _ _ => exact (hb.held q hp).2
  | taken _ _ _ _ =>
    rw [h.busy rfl] at hs
    exact absurd hs (by decide)

theorem length_lanes (hlanes : q.lanes = q.foundLanes) :
    q.lanes.length = 1 + q.doubleWrite.toNat := by
  rw [hlanes, Acquire.foundLanes]
  cases q.doubleWrite <;> rfl

/-- The write that the converter sends is to the next word of the request. -/
theorem lane_sent (hc : 3 ≤ c.byteAddrBits) (hlanes : q.lanes = q.foundLanes)
    (hq : i.acquire = q) (hs : s.tState.sending) (hlong : s.tState = .req1 → q.doubleWrite) :
    ∃ k, q.lanes[s.tState.sent q.lanes.length]? = some k ∧ s.awAddr i = q.laneAddr k ∧
      s.wData i = q.laneData k ∧ s.wStrb i = q.laneStrb k := by
  have hlane : ∀ k ∈ q.lanes, s.awAddr i = q.laneAddr k →
      s.wData i = q.laneData k ∧ s.wStrb i = q.laneStrb k := by
    intro k hk haddr
    have hword : s.wWord i = k := by
      rw [wWord, haddr, Acquire.laneAddr_word (Acquire.mem_lanes.1 hk).1]
    constructor
    · rw [wData, hword, hq]
      rfl
    · funext b
      rw [wStrb, hword, hq]
      rfl
  cases ht : s.tState with
  | idle => simp [ht, sending] at hs
  | busy => simp [ht, sending] at hs
  | req0 =>
    have hget : q.lanes[0]? = some q.waddrByte := by
      rw [hlanes, Acquire.foundLanes]
      cases q.doubleWrite <;> rfl
    have haddr : s.awAddr i = q.laneAddr q.waddrByte := by
      rw [awAddr, if_pos ht, hq]
      rfl
    exact ⟨q.waddrByte, hget, haddr, hlane _ (List.mem_of_getElem? hget) haddr⟩
  | req1 =>
    have hd := hlong ht
    have hget : q.lanes[1]? = some (q.waddrByte + 1) := by
      rw [hlanes, Acquire.foundLanes, hd]
      rfl
    have heven : q.waddrByte % 2 = 0 := by
      simp only [Acquire.doubleWrite, Bool.and_eq_true, beq_iff_eq] at hd
      exact hd.1
    have haddr : s.awAddr i = q.laneAddr (q.waddrByte + 1) := by
      rw [awAddr, if_neg (by simp [ht]), hq, Acquire.waddr_or_four hc heven]
    exact ⟨q.waddrByte + 1, hget, haddr, hlane _ (List.mem_of_getElem? hget) haddr⟩

theorem WriteSoFar.next (h : WriteSoFar s g q a) (hk : ServingWrite s g q)
    (hv : Serving s g q taken) (hb : Behaved g i) (ha : Alone s g i) (hne : s.rState ≠ .grant)
    (hc : 3 ≤ c.byteAddrBits) (hlanes : q.lanes = q.foundLanes) :
    WriteSoFar (s.next i) (g.step s i) q (a.step s i) := by
  have hno := grantFire_of_ne (i := i) hne
  obtain ⟨hreq, hresp⟩ := hv.doubleWrite_eq hb ha
  obtain ⟨har, hrv, haw, hw, ht, hrs, hbf⟩ := hk.signals hv.regs hb hreq hresp hno
  obtain ⟨hx, hy⟩ := flags_next hk.phase.ne_idle har
  have hlen := length_lanes hlanes
  have hsent := sent_after hk.phase.ne_idle hk.phase.long_of_req1 (s.wrFire i)
  have hlane := fun hs => lane_sent (s := s) hc hlanes (hv.acquire_of_sending hb hs) hs
    hk.phase.long_of_req1
  have ht' : (s.next i).tState.sent q.lanes.length =
      s.tState.sent q.lanes.length + (s.tState.sending && s.wrFire i).toNat := by
    rw [hlen, ← hsent]
    exact congrArg _ ht
  refine ⟨by simp [Accesses.step, har, h.reads], ?_, ?_, ?_⟩
  · rw [hx]
    simp only [Accesses.step, h.aws]
    refine take_half ht' ?_ ?_ ?_
    · intro hwr
      simp only [wrFire, Bool.and_eq_true] at hwr
      exact hwr.1
    · intro hf
      simp only [haw, Bool.and_eq_true, Bool.not_eq_true'] at hf
      exact hf.1.2
    · intro hf
      simp only [haw, Bool.and_eq_true, Bool.not_eq_true'] at hf
      obtain ⟨k, hget, haddr, -⟩ := hlane hf.1.1
      simp [hget, haddr]
  · rw [hy]
    simp only [Accesses.step, h.ws]
    refine take_half ht' ?_ ?_ ?_
    · intro hwr
      simp only [wrFire, Bool.and_eq_true] at hwr
      exact hwr.2
    · intro hf
      simp only [hw, Bool.and_eq_true, Bool.not_eq_true'] at hf
      exact hf.1.2
    · intro hf
      simp only [hw, Bool.and_eq_true, Bool.not_eq_true'] at hf
      obtain ⟨k, hget, -, hdata, hstrb⟩ := hlane hf.1.1
      simp [hget, hdata, hstrb]
  · have howed := h.owed
    have hpos : s.bFires i → 0 < g.aws := fun hf => (hb.b (hbf.trans hf)).1
    simp only [Accesses.step, LiteLog.step, List.length_append]
    cases hf : s.bFires i <;> cases s.awFires i <;> simp [hf] at hpos ⊢ <;> omega

theorem length_readAddrs (q : AcquireFromSrc c) :
    q.readAddrs.length = 1 + (q.opSize == MT_D).toNat := by
  unfold Acquire.readAddrs
  split_ifs with h <;> simp [h]

/-- The read that the converter sends is the next one of the request. -/
theorem read_sent (hc : 3 ≤ c.byteAddrBits)
    (hal : q.opSize = MT_D → 8 ∣ q.addrByte.toNat) (hq : i.acquire = q)
    (hs : s.tState.sending) (hlong : s.tState = .req1 → (q.opSize == MT_D) = true) :
    q.readAddrs[s.tState.sent q.readAddrs.length]? = some (s.arAddr i) := by
  cases ht : s.tState with
  | idle => simp [ht, sending] at hs
  | busy => simp [ht, sending] at hs
  | req0 =>
    simp only [sent, arAddr, ht, hq, if_true, Acquire.readAddrs]
    split_ifs <;> rfl
  | req1 =>
    have hd : q.opSize = MT_D := by simpa using hlong ht
    simp [sent, arAddr, ht, hq, Acquire.readAddrs, hd, Acquire.fullAddr_or_four hc (hal hd)]

theorem ReadSoFar.next (h : ReadSoFar s g q a) (hk : ServingRead s g q)
    (hv : Serving s g q taken) (hb : Behaved g i) (hne : s.rState ≠ .grant)
    (hc : 3 ≤ c.byteAddrBits) (hal : q.opSize = MT_D → 8 ∣ q.addrByte.toNat) :
    ReadSoFar (s.next i) (g.step s i) q (a.step s i) := by
  have hno := grantFire_of_ne (i := i) hne
  obtain ⟨haw, hw, hbv, har, hrr, ht, hrs⟩ := hk.signals hv.regs hb hno
  have hsent := sent_after hk.phase.ne_idle hk.phase.long_of_req1 i.arReady
  refine ⟨by simp [Accesses.step, haw, hw, h.writes], ?_, ?_, ?_, ?_⟩
  · have hn : (s.next i).tState.sent q.readAddrs.length =
        s.tState.sent q.readAddrs.length + (s.arFires i).toNat := by
      rw [length_readAddrs, har, ← hsent]
      exact congrArg _ ht
    simp only [Accesses.step, h.ars, hn]
    refine take_fire fun hf => ?_
    have hs : s.tState.sending := (Bool.and_eq_true_iff.1 (har ▸ hf)).1
    exact read_sent hc hal (hv.acquire_of_sending hb hs) hs hk.phase.long_of_req1
  · have howed := h.owed
    have hpos : s.rFires i → 0 < g.ars := fun hf => hb.r (Bool.and_eq_true_iff.1 hf).1
    simp only [Accesses.step, LiteLog.step, List.length_append]
    cases hf : s.rFires i <;> cases s.arFires i <;> simp [hf] at hpos ⊢ <;> omega
  · simp only [Accesses.step, h.rs, rFires, hrr, Lite.next, hrs]
    cases hR : s.rState with
    | idle => cases s.tState.sending && i.arReady <;> simp [RState.first, RState.after]
    | resp0 => cases hrv : i.rValid <;> cases q.opSize == MT_D <;> simp [RState.first, RState.after]
    | resp1 =>
      have hlong := hk.phase.long_of_resp1 hR
      cases hrv : i.rValid <;> simp [RState.first, RState.after, hlong]
    | grant => exact absurd hR hne
  · have hrs' : (s.next i).rState = _ := hrs
    intro hgrant hshort
    rw [hrs'] at hgrant
    have hlong : (q.opSize == MT_D) = false := by simpa using hshort
    obtain ⟨hrv, ⟨hR, -⟩ | hR⟩ := RState.after_eq_grant hgrant
    · simp [LiteLog.step, Lite.next, hrr, hrv, hR, hlong]
    · simp [hk.phase.long_of_resp1 hR] at hlong

/-! ### Both kinds -/

/-- A request is being served, its accesses are as far as the converter is. -/
structure Performing (s : Lite c) (g : LiteLog c) (l : AccessLog c) (q : AcquireFromSrc c)
    (taken : Bool) : Prop where
  serving : Serving s g q taken
  request : l.request = some q
  access : q.DeviceAccess
  lanes : q.isBuiltIn .putType → q.lanes ≠ []
  high : s.addrHigh = q.addrByte.getLsbD 2
  read : ServingRead s g q → ReadSoFar s g q l.now
  write : ServingWrite s g q → WriteSoFar s g q l.now

variable {l : AccessLog c}

section

variable (h : Performing s g l q taken)

include h

theorem Performing.get_of_read (hk : ServingRead s g q) :
    q.isBuiltIn .putType = false ∧ (q.opSize = MT_D → 8 ∣ q.addrByte.toNat) := by
  have hput : q.isBuiltIn .putType = false := by
    by_contra hput
    have := Acquire.grantType_of_put (by simpa using hput)
    simp [hk.kind] at this
  refine ⟨hput, fun hd => ?_⟩
  rcases h.access with ⟨h', -⟩ | ⟨-, -, hal⟩
  · simp [hput] at h'
  · rw [hd] at hal
    exact hal

theorem Performing.put_of_write (hk : ServingWrite s g q) :
    q.isBuiltIn .getType = false ∧ q.isBuiltIn .putType ∧ q.WithinWord := by
  have hget : q.isBuiltIn .getType = false := by
    by_contra hget
    have := Acquire.grantType_of_get (by simpa using hget)
    simp [hk.kind] at this
  rcases h.access with h' | ⟨h', -⟩
  · exact ⟨hget, h'⟩
  · simp [hget] at h'

theorem Performing.lanes_eq (hk : ServingWrite s g q) (hc : 3 ≤ c.byteAddrBits) :
    q.lanes = q.foundLanes :=
  Acquire.lanes_eq hc (h.put_of_write hk).2.2 (h.lanes (h.put_of_write hk).2.1)

/-- A cycle that does not end the transaction. -/
theorem Performing.next (hb : Behaved g i) (ha : Alone s g i)
    (hc : 3 ≤ c.byteAddrBits) (hne : s.rState ≠ .grant) :
    Performing (s.next i) (g.step s i) (l.step s i) q (taken || s.tState == .busy) := by
  have hno := grantFire_of_ne (i := i) hne
  have hnow : (l.step s i).now = l.now.step s i := by simp [AccessLog.step, hno]
  refine ⟨h.serving.next hb ha hne, by simp [AccessLog.step, hno, h.request], h.access, h.lanes,
    ?_, ?_, ?_⟩
  · cases hv : i.acquireValid with
    | false => simp [Lite.next, hv, h.high]
    | true => simp [Lite.next, hv, h.serving.pending.acquire_eq hb ha hv]
  · intro hk'
    rw [hnow]
    rcases h.serving.kind with hk | hk
    · exact (h.read hk).next hk h.serving hb hne hc (h.get_of_read hk).2
    · exact absurd (hk'.kind.symm.trans hk.kind) (by decide)
  · intro hk'
    rw [hnow]
    rcases h.serving.kind with hk | hk
    · exact absurd (hk'.kind.symm.trans hk.kind) (by decide)
    · exact (h.write hk).next hk h.serving hb ha hne hc (h.lanes_eq hk hc)

end

theorem WritePhase.flags_of_grant {long x y : Bool} {t : TState} {r : RState} {k m : ℕ}
    (h : WritePhase long t r x y k m) (hr : r = .grant) : x = false ∧ y = false := by
  cases h with
  | req0 _ _ _ => cases x <;> simp at hr
  | grant => exact ⟨rfl, rfl⟩
  | _ => simp at hr

/-- The last cycle of a write. -/
theorem WriteSoFar.granted (h : WriteSoFar s g q a) (hk : ServingWrite s g q)
    (hv : Serving s g q true) (hb : Behaved g i) (hgrant : s.rState = .grant) :
    (a.step s i).aws = q.lanes.map q.laneAddr ∧
      (a.step s i).ws = q.lanes.map (fun k => (q.laneData k, q.laneStrb k)) ∧
      (a.step s i).ars = [] ∧ (a.step s i).bs = (a.step s i).aws.length := by
  have hbusy := hv.busy rfl
  have hreq : s.requesting = false := by simp [requesting, hbusy]
  obtain ⟨hx, hy⟩ := hk.phase.flags_of_grant hgrant
  have howed := (hk.phase.owed_grant hgrant).1
  have hbv : i.bValid = false := by
    by_contra hbv
    have := (hb.b (by simpa using hbv)).1
    omega
  have hbs := h.owed
  rw [howed, Nat.add_zero] at hbs
  have haws := h.aws
  have hws := h.ws
  rw [hbusy, hx, sent, Bool.toNat_false, Nat.add_zero, List.take_of_length_le (by simp)]
    at haws
  rw [hbusy, hy, sent, Bool.toNat_false, Nat.add_zero, List.take_of_length_le (by simp)]
    at hws
  obtain ⟨haw, hw, har⟩ := fires_of_not_requesting (i := i) hreq
  have hbf : s.bFires i = false := by simp [bFires, hbv]
  simp [Accesses.step, haw, hw, har, hbf, haws, hws, h.reads, hbs]

/-- The data of a grant: the words that were read at their places. -/
theorem grantData_eq (hc : 3 ≤ c.byteAddrBits) (hal : q.opSize = MT_D → 8 ∣ q.addrByte.toNat)
    (hhigh : s.addrHigh = q.addrByte.getLsbD 2) (hop : s.opSize = q.opSize)
    (hshort : q.opSize ≠ MT_D → i.rData = s.dataBuf) :
    s.grantData i = placed (q.readAddrs.zip
      ((if (q.opSize == MT_D) = true then [s.dataBuf] else []) ++ [i.rData])) := by
  have hmod := q.fullAddr_mod hc
  rw [Acquire.addrByte_two hc] at hhigh
  by_cases hd : q.opSize = MT_D
  · have h8 := hal hd
    have hlow : q.fullAddr / 4 % 2 = 0 := by omega
    have hup : (q.fullAddr / 4 + 1) % 2 = 1 := by omega
    simp [grantData, hop, hd, hhigh, placed, Acquire.readAddrs, hlow, hup]
  · rcases Nat.mod_two_eq_zero_or_one (q.fullAddr / 4) with hlow | hup
    · simp [grantData, hop, hd, hhigh, placed, Acquire.readAddrs, hlow, hshort hd]
    · simp [grantData, hop, hd, hhigh, placed, Acquire.readAddrs, hup, hshort hd]

/-- The last cycle of a read. -/
theorem ReadSoFar.granted (h : ReadSoFar s g q a) (hk : ServingRead s g q)
    (hv : Serving s g q true) (hb : Behaved g i) (hgrant : s.rState = .grant)
    (hfire : s.grantFire i) (hc : 3 ≤ c.byteAddrBits)
    (hal : q.opSize = MT_D → 8 ∣ q.addrByte.toNat) (hhigh : s.addrHigh = q.addrByte.getLsbD 2) :
    (a.step s i).aws = [] ∧ (a.step s i).ws = [] ∧ (a.step s i).ars = q.readAddrs ∧
      (a.step s i).rs.length = (a.step s i).ars.length ∧
      (s.grant i).data = (placed ((a.step s i).ars.zip (a.step s i).rs)).setWidth _ := by
  have hbusy := hv.busy rfl
  have hreq : s.requesting = false := by simp [requesting, hbusy]
  obtain ⟨hars, hheld⟩ := hk.phase.owed_grant hgrant
  obtain ⟨d, hd⟩ := Option.isSome_iff_exists.1 hheld
  obtain ⟨hrv, hrd⟩ := hb.rHeld d hd
  obtain ⟨haw, hw, har⟩ := fires_of_not_requesting (i := i) hreq
  have hg : s.grantType = .getDataBeatType := hv.regs.grantType.trans hk.kind
  have hrf : s.rFires i := by simp [rFires, rReady, hrv, hg, hfire]
  have hall := h.ars
  rw [hbusy, sent, List.take_of_length_le le_rfl] at hall
  have hlen := h.owed
  have hstep : (a.step s i).ars = q.readAddrs ∧ (a.step s i).rs = a.rs ++ [i.rData] := by
    simp [Accesses.step, har, hrf, hall]
  refine ⟨by simp [Accesses.step, haw, h.writes], by simp [Accesses.step, hw, h.writes], hstep.1,
    ?_, ?_⟩
  · rw [hstep.1, hstep.2, ← hall, List.length_append, List.length_singleton]
    omega
  · have hlong : s.rState.first (q.opSize == MT_D) = (q.opSize == MT_D) := by
      simp [hgrant, RState.first]
    have hshort : q.opSize ≠ MT_D → i.rData = s.dataBuf := by
      intro hs
      rw [hrd, ← Option.some.injEq, ← hd, h.held hgrant hs]
    have hdata := grantData_eq hc hal hhigh hv.regs.opSize hshort
    rw [hstep.1, hstep.2, h.rs, hlong, ← hdata]
    simp [Lite.grant, hg]

/-- The cycle in which a transaction is answered. -/
theorem Performing.granted (h : Performing s g l q taken) (hb : Behaved g i) (ha : Alone s g i)
    (hc : 3 ≤ c.byteAddrBits) (hgrant : s.rState = .grant) :
    Performed q (l.now.step s i) (s.grant i) := by
  have hfire : s.grantFire i := by simp [grantFire, grantValid, hgrant, ha.taken hgrant]
  obtain rfl := h.serving.early hgrant
  refine ⟨h.serving.regs.identOfGrant, fun hput => ?_, fun hget => ?_⟩
  · rcases h.serving.kind with hk | hk
    · simp [(h.get_of_read hk).1] at hput
    · exact (h.write hk).granted hk h.serving hb hgrant
  · rcases h.serving.kind with hk | hk
    · exact (h.read hk).granted hk h.serving hb hgrant hfire hc (h.get_of_read hk).2 h.high
    · simp [(h.put_of_write hk).1] at hget

/-- Nothing goes over the channels of the slave while nothing is being served. -/
theorem Resting.quiet (h : Resting s g) (hb : Behaved g i) :
    s.awFires i = false ∧ s.wFires i = false ∧ s.arFires i = false ∧ s.bFires i = false ∧
      s.rFires i = false := by
  have hreq : s.requesting = false := by simp [requesting, h.tState]
  have hbv : i.bValid = false := by
    by_contra hbv
    have := (hb.b (by simpa using hbv)).1
    have := h.owed.2.1
    omega
  have hrv : i.rValid = false := by
    by_contra hrv
    have := hb.r (by simpa using hrv)
    have := h.owed.1
    omega
  simp [awFires, awValid, wFires, wValid, arFires, arValid, hreq, bFires, rFires, hbv, hrv]

theorem Resting.now_step (h : Resting s g) (hb : Behaved g i) :
    Accesses.empty.step s i = .empty := by
  obtain ⟨haw, hw, har, hbf, hrf⟩ := h.quiet hb
  simp [Accesses.step, Accesses.empty, haw, hw, har, hbf, hrf]

/-- The first cycle of a transaction. -/
theorem Resting.begin (h : Resting s g) (hb : Behaved g i) (hreq : l.request = none)
    (hnow : l.now = .empty) (hv : i.acquireValid) (hacc : i.acquire.DeviceAccess)
    (hlanes : i.acquire.isBuiltIn .putType → i.acquire.lanes ≠ [])
    (hs : Serving (s.next i) (g.step s i) i.acquire false) :
    Performing (s.next i) (g.step s i) (l.step s i) i.acquire false := by
  obtain ⟨haw, hw, har, hbf, hrf⟩ := h.quiet hb
  have hno := grantFire_of_ne (s := s) (i := i) (by simp [h.rState])
  have hnow' : (l.step s i).now = .empty := by simp [AccessLog.step, hno, hnow, h.now_step hb]
  have ht : (s.next i).tState = .req0 := by simp [Lite.next, tStateNext, h.tState, hv]
  have hr : (s.next i).rState = .idle := by simp [Lite.next, rStateNext, h.rState, haw, har]
  have hflags : (s.next i).awFire = false ∧ (s.next i).wFire = false := by
    simp [Lite.next, clearFires, h.tState, hv]
  have howed : (g.step s i).ars = 0 ∧ (g.step s i).aws = 0 := by
    simp [LiteLog.step, haw, har, h.owed]
  refine ⟨hs, by simp [AccessLog.step, hno, hreq, hv], hacc, hlanes, by simp [Lite.next, hv],
    fun _ => ?_, fun _ => ?_⟩
  · rw [hnow']
    constructor <;> simp [Accesses.empty, ht, hr, sent, RState.first, howed]
  · rw [hnow']
    constructor <;> simp [Accesses.empty, ht, sent, hflags, howed]

end Cycle

/-! ## Runs -/

/-- The requests up to now are done, and the present one is under way. -/
structure AccessInv (s : LiteState c) : Prop where
  done : ∀ e ∈ s.2.done, Performed e.1 e.2.1 e.2.2
  count : s.2.done.length = s.1.2.granted.length
  present : Resting s.1.1 s.1.2 ∧ s.2.request = none ∧ s.2.now = .empty ∨
    ∃ q taken, Performing s.1.1 s.1.2 s.2 q taken

/-- A cycle in which no grant is taken adds nothing to what is done. -/
theorem AccessInv.done_next {s : LiteState c} {i : LiteIn c} (h : AccessInv s)
    (hno : s.1.1.grantFire i = false) :
    (∀ e ∈ ((accessMachine c).next s i).2.done, Performed e.1 e.2.1 e.2.2) ∧
      ((accessMachine c).next s i).2.done.length =
        ((accessMachine c).next s i).1.2.granted.length := by
  have hdone : ((accessMachine c).next s i).2.done = s.2.done := by simp [AccessLog.step, hno]
  have hgranted : ((accessMachine c).next s i).1.2.granted = s.1.2.granted := by
    simp [LiteLog.step, hno]
  rw [hdone, hgranted]
  exact ⟨h.done, h.count⟩

theorem AccessInv.next {s : LiteState c} {i : LiteIn c} (h : AccessInv s) (hc : 3 ≤ c.byteAddrBits)
    (hok : (steadyMachine c).ok s i) : AccessInv ((accessMachine c).next s i) := by
  obtain ⟨⟨hb, hacc⟩, ha, hlanes⟩ := hok
  rcases h.present with ⟨hrest, hreq, hnow⟩ | ⟨q, taken, hp⟩
  · have hno : s.1.1.grantFire i = false := by
      simp [grantFire, grantValid, hrest.rState]
    obtain ⟨hdone, hcount⟩ := h.done_next hno
    refine ⟨hdone, hcount, ?_⟩
    rcases hrest.next hb with hrest' | hs
    · have hv : i.acquireValid = false := by
        have := hrest'.tState
        by_contra hv
        simp [Lite.next, tStateNext, hrest.tState, hv] at this
      refine .inl ⟨hrest', ?_, ?_⟩
      · simp [AccessLog.step, hno, hreq, hv]
      · simp [AccessLog.step, hno, hnow, hrest.now_step hb]
    · have hv : i.acquireValid := by
        cases hs.pending with
        | offered hpres _ _ =>
          by_contra hv
          simp [LiteLog.step, hv] at hpres
      exact .inr ⟨_, _, hrest.begin hb hreq hnow hv (hacc hv) (hlanes hv) hs⟩
  · by_cases hgrant : s.1.1.rState = .grant
    · have hfire : s.1.1.grantFire i := by
        simp [grantFire, grantValid, hgrant, ha.taken hgrant]
      have hdone : ((accessMachine c).next s i).2 =
          ⟨none, .empty, s.2.done ++ [(q, s.2.now.step s.1.1 i, s.1.1.grant i)]⟩ := by
        simp [AccessLog.step, hfire, hp.request]
      refine ⟨?_, ?_, .inl ⟨hp.serving.granted hb ha hgrant, by rw [hdone], by rw [hdone]⟩⟩
      · intro e he
        rw [hdone, List.mem_append, List.mem_singleton] at he
        rcases he with he | rfl
        · exact h.done e he
        · exact hp.granted hb ha hc hgrant
      · rw [hdone, List.length_append, h.count]
        simp [LiteLog.step, hfire]
    · have hno : s.1.1.grantFire i = false := by simp [grantFire, grantValid, hgrant]
      obtain ⟨hdone, hcount⟩ := h.done_next hno
      exact ⟨hdone, hcount, .inr ⟨q, _, hp.next hb ha hc hgrant⟩⟩

theorem accessInv_reset (u : Lite c) : AccessInv ((u.reset, .empty), .empty) where
  done _ h := absurd h (by simp [AccessLog.empty])
  count := rfl
  present := .inl ⟨⟨rfl, rfl, rfl, rfl, rfl, rfl, rfl, rfl, rfl, rfl⟩, rfl, rfl⟩

/-- What is known about the accesses at any time. -/
theorem AccessInv.exact {s : LiteState c} (h : AccessInv s) : ExactAccesses s.2 := by
  refine ⟨h.done, fun hnone => ?_, fun q hq hput => ?_, fun q hq hget => ?_⟩ <;>
    rcases h.present with ⟨hrest, hreq, hnow⟩ | ⟨q', taken, hp⟩
  · exact hnow
  · simp [hp.request] at hnone
  · simp [hreq] at hq
  · obtain rfl : q' = q := Option.some.inj (hp.request.symm.trans hq)
    rcases hp.serving.kind with hk | hk
    · simp [(hp.get_of_read hk).1] at hput
    · have hw := hp.write hk
      rw [hw.aws, hw.ws]
      exact ⟨List.take_prefix _ _, List.take_prefix _ _, hw.reads⟩
  · simp [hreq] at hq
  · obtain rfl : q' = q := Option.some.inj (hp.request.symm.trans hq)
    rcases hp.serving.kind with hk | hk
    · have hr := hp.read hk
      rw [hr.ars]
      exact ⟨hr.writes.1, hr.writes.2, List.take_prefix _ _⟩
    · simp [(hp.put_of_write hk).1] at hget

/-- A steady run, without the accesses. -/
theorem steady_run {s : LiteState c} {js : List (LiteIn c)} (hl : (steadyMachine c).Legal s js) :
    (aloneMachine c).Legal s.1 js ∧
      ((accessMachine c).run s js).1 = (aloneMachine c).run s.1 js := by
  induction js generalizing s with
  | nil => exact ⟨trivial, rfl⟩
  | cons i js ih =>
    obtain ⟨⟨⟨hb, -⟩, ha, -⟩, hl⟩ := hl
    exact ⟨⟨⟨hb, ha⟩, (ih hl).1⟩, (ih hl).2⟩

/-- In every steady run the accesses are exactly those of the requests. However slow the slave and
the clients are, the present request is complete once they have done seven times what the
converter waits for, and it always waits for something of them. -/
theorem lite_accesses_exact (hc : 3 ≤ c.byteAddrBits) (u : Lite c) (is : List (LiteIn c))
    (hl : (steadyMachine c).Legal ((u.reset, .empty), .empty) is) :
    let s := (accessMachine c).run ((u.reset, .empty), .empty) is
    ExactAccesses s.2 ∧
      (∀ js, (steadyMachine c).Legal s js → 7 ≤ progress s.1 js → s.2.request.isSome = true →
        s.2.done.length < ((accessMachine c).run s js).2.done.length) ∧
      (s.2.request.isSome = true → ∀ i, (steadyMachine c).ok s i → Obliging s.1.2 i →
        s.1.1.advances i = true) := by
  have hrun {s : LiteState c} {js : List (LiteIn c)} (hs : AccessInv s)
      (hjs : (steadyMachine c).Legal s js) : AccessInv ((accessMachine c).run s js) := by
    have := Machine.invariant_run (m := steadyMachine c) (P := AccessInv)
      (fun _ _ h hok => h.next hc hok) hs hjs
    rwa [steadyMachine, Machine.run_restrict] at this
  have hinv := hrun (accessInv_reset u) hl
  refine ⟨hinv.exact, fun js hjs hlen hsome => ?_, fun hsome i hi ho => ?_⟩
  · rcases hinv.present with ⟨-, hreq, -⟩ | ⟨q, taken, hp⟩
    · simp [hreq] at hsome
    · obtain ⟨hjs', heq⟩ := steady_run hjs
      rw [hinv.count, (hrun hinv hjs).count, heq]
      exact hp.serving.answered_run hjs' ((Lite.rank_le _).trans hlen)
  · rcases hinv.present with ⟨-, hreq, -⟩ | ⟨q, taken, hp⟩
    · simp [hreq] at hsome
    · exact hp.serving.advances hi.1.1 hi.2.1 ho

/-- Client 1 writes 8 bytes. -/
def longPut : AcquireFromSrc liteParams :=
  { isBuiltinType := true, aType := 2, clientXactId := 0, addrBlock := 1, addrBeat := 0
    data := 0x1122334455667788, union := 0x1fe, clientId := 1 }

/-- A cycle in which everyone is ready, with an acquire and a write response. -/
def putCycle (q : AcquireFromSrc liteParams) (acquireValid bValid : Bool) : LiteIn liteParams :=
  { acquire := q, acquireValid := acquireValid, grantReady := true, awReady := true
    wReady := true, arReady := true, bValid := bValid, rValid := false, rData := 0 }

/-- The two words are written, and acknowledged after the acquire is gone. -/
def steadyRun : List (LiteIn liteParams) :=
  [putCycle longPut true false, putCycle longPut true false, putCycle longPut true false,
    putCycle longPut true false, putCycle longPut false true, putCycle longPut false true,
    putCycle longPut false false]

/-- The state after a run. -/
def accessRun (is : List (LiteIn liteParams)) : LiteState liteParams :=
  (accessMachine liteParams).run ((liteZero.reset, .empty), .empty) is

theorem lite_accesses_exact_put :
    (accessRun steadyRun).2.done.map (fun e => e.2.1.aws) = [[16, 20]] ∧
      ExactAccesses (accessRun steadyRun).2 := by
  refine ⟨by decide +kernel, (lite_accesses_exact (by decide) liteZero steadyRun ?_).1⟩
  decide +kernel

/-- Client 2 presents a `Get` when the first response comes. -/
def disturbedRun : List (LiteIn liteParams) :=
  [putCycle longPut true false, putCycle longPut true false, putCycle longPut true false,
    putCycle longPut true false, putCycle (wordGet 2) true true, putCycle longPut false false]

/-- Two writes, one response, and then a grant. -/
theorem grant_before_response :
    (accessMachine liteParams).Legal ((liteZero.reset, .empty), .empty) disturbedRun ∧
      (accessRun disturbedRun).2.done.map (fun e => (e.1 == longPut, e.2.1.aws, e.2.1.bs)) =
        [(true, [16, 20], 1)] ∧
      ¬ ExactAccesses (accessRun disturbedRun).2 := by
  have hdone : (accessRun disturbedRun).2.done.map
      (fun e => (e.1 == longPut, e.2.1.aws, e.2.1.bs)) = [(true, [16, 20], 1)] := by
    decide +kernel
  refine ⟨by decide +kernel, hdone, fun hexact => ?_⟩
  have hmem : (true, [16, 20], 1) ∈ (accessRun disturbedRun).2.done.map
      (fun e => (e.1 == longPut, e.2.1.aws, e.2.1.bs)) := by
    rw [hdone]
    exact List.mem_singleton_self _
  obtain ⟨e, he, hfields⟩ := List.mem_map.1 hmem
  simp only [Prod.mk.injEq, beq_iff_eq] at hfields
  obtain ⟨hq, haws, hbs⟩ := hfields
  have hput := (hexact.done e he).put (by rw [hq]; decide)
  rw [haws, hbs] at hput
  exact absurd hput.2.2.2 (by decide)

end Nasti

end TaggedRiscv
