import TaggedRiscv.Coherence.Mesi
import TaggedRiscv.Lib.Machine

/-!
# The inner coherence protocol on one block

The L1 caches and the L2 bank as they act on one block, with the messages in between. The manager
starts a transaction only when it is idle, so transactions on the block are serial; everything
else interleaves freely.

Messages of several beats are one message here, except grants: the manager chooses the type of
each beat of a grant anew, from the directory as it is then, and the client keeps the state the
last beat gives it.
-/

namespace TaggedRiscv.Mesi

open ReleaseType BuiltInAcquire

variable {n : ℕ}

/-! ## State -/

/-- A client's side of the block. The last seven fields are the messages in
flight from and to it. -/
structure Client where
  /-- The state in the metadata array. From the moment a release is sent the L1
  refuses hits on the block, so the state counts as given up then, although the
  array is rewritten some cycles later. -/
  coh : ClientState
  /-- The command of the outstanding acquire. -/
  mshr : Option MemCmd
  /-- `refill_cnt`: the beats of the grant received so far. -/
  refillCnt : ℕ
  /-- A voluntary write-back has not been acknowledged. -/
  wbPending : Bool
  acquire : Option AcquireType
  probe : Option ProbeType
  release : Option ReleaseType
  volRelease : Option ReleaseType
  grant : List GrantType
  volAck : Bool
  finish : Bool
  deriving DecidableEq

/-- The state of the tracker that handles the block. -/
inductive Phase (n : ℕ)
  | idle
  | metaResp (xact : Acquire n)
  | innerProbe (xact : Acquire n) (pendingIprbs : Sharers n) (pendingIrels : ℕ)
  | outerAcquire (xact : Acquire n)
  | busy (xact : Acquire n) (ogntLeft igntSent : ℕ) (ifinDone : Bool)
  | metaWrite (xact : Acquire n)
  | relMetaResp (src : Fin n) (rType : ReleaseType)
  | relBusy (src : Fin n) (rType : ReleaseType) (old : Sharers n)
  | relMetaWrite (src : Fin n) (rType : ReleaseType) (old : Sharers n)

/-- The manager's side of the block. -/
structure Manager (n : ℕ) where
  /-- The entry of the metadata array; `none` when the block is not in the cache. -/
  dir : Option (Sharers n)
  phase : Phase n
  /-- `pending_coh` of the acquire tracker. -/
  pendingCoh : Sharers n
  pendingMetaWrite : Bool

/-- The sharer set the manager keeps: that of the acquire tracker once it has
read the metadata, and else the entry of the array. -/
def Manager.sharers (m : Manager n) : Sharers n :=
  match m.phase with
  | .innerProbe .. | .outerAcquire .. | .busy .. | .metaWrite .. => m.pendingCoh
  | _ => m.dir.getD ∅

structure Sys (n : ℕ) where
  client : Fin n → Client
  mgr : Manager n

/-- Nobody has a copy and nothing is in flight. -/
def Sys.init (n : ℕ) : Sys n where
  client _ := ⟨clientInvalid, none, 0, false, none, none, none, none, [], false, false⟩
  mgr := ⟨none, .idle, ∅, false⟩

/-- The steps. Those of clients come first, then those of the acquire tracker,
then those of the release tracker. -/
inductive Act (n : ℕ)
  | acquire (c : Fin n) (cmd : MemCmd)
  | hit (c : Fin n) (cmd : MemCmd)
  | evict (c : Fin n)
  | writeback (c : Fin n)
  | recvProbe (c : Fin n)
  | recvGrant (c : Fin n)
  | recvVolAck (c : Fin n)
  | acceptAcquire (c : Fin n)
  | acceptBuiltIn (a : BuiltInAcquire)
  | metaResp (victim : Sharers n)
  | sendProbe (c : Fin n)
  | recvRelease (c : Fin n)
  | probesDone
  | outerAcquire
  | busy (ignt ognt : Bool)
  | recvFinish (c : Fin n)
  | xactDone
  | metaWrite (outerValid : Bool)
  | acceptRelease (c : Fin n)
  | relMetaResp
  | relGrant
  | relMetaWrite

/-! ## Steps of a client -/

namespace Client

/-- Miss: send an acquire for the command. -/
def sendAcquire (c : Client) (cmd : MemCmd) : Client :=
  { c with mshr := some cmd, acquire := some (getAcquireType cmd), refillCnt := 0 }

/-- Replace a clean copy, telling nobody. -/
def evict (c : Client) : Client := { c with coh := c.coh.onCacheControl .FLUSH }

/-- Replace a dirty copy with a voluntary release. -/
def writeback (c : Client) : Client :=
  { c with
    coh := c.coh.onCacheControl .FLUSH
    volRelease := some (getReleaseType .FLUSH c.coh)
    wbPending := true }

/-- Answer a probe. The metadata is rewritten only where the tag matches, that
is, for a valid copy. -/
def recvProbe (c : Client) : Client :=
  match c.probe with
  | some p =>
    { c with
      probe := none
      release := some (getProbeReleaseType p c.coh)
      coh := if c.coh.isValid then c.coh.onProbe p else c.coh }
  | none => c

/-- Take one beat of a grant. Each beat sets `new_coh_state`; the one of the last
beat is written to the array. -/
def recvGrant (beats : ℕ) (c : Client) : Client :=
  match c.grant, c.mshr with
  | g :: rest, some cmd =>
    if c.refillCnt + 1 = beats then
      { c with
        grant := rest, coh := ClientState.onGrant g cmd, mshr := none, refillCnt := 0
        finish := true }
    else { c with grant := rest, refillCnt := c.refillCnt + 1 }
  | _, _ => c

end Client

/-! ## Steps of the manager -/

/-- The number of grant beats that answer an acquire. -/
def igntBeats (beats : ℕ) : Acquire n → ℕ
  | .custom _ _ | .builtIn getBlockType => beats
  | .builtIn _ => 1

/-- Whether the data of the next grant beat has arrived from the outer memory. -/
def ReadyToGrant (beats ogntLeft igntSent : ℕ) : Acquire n → Prop
  | .custom _ _ => igntSent < beats - ogntLeft
  | .builtIn _ => True

instance (beats ogntLeft igntSent : ℕ) (x : Acquire n) :
    Decidable (ReadyToGrant beats ogntLeft igntSent x) :=
  match x with
  | .custom _ _ => inferInstanceAs (Decidable (igntSent < beats - ogntLeft))
  | .builtIn _ => .isTrue trivial

namespace Manager

/-- `updatePendingCohWhen`. -/
def updatePendingCoh (m : Manager n) (coh : Sharers n) (phase : Phase n) : Manager n :=
  { m with
    pendingCoh := coh
    pendingMetaWrite := m.pendingMetaWrite || decide (coh ≠ m.pendingCoh)
    phase := phase }

/-- The acquire tracker reads the metadata. A block in the cache is a hit, since
its outer state is valid; of a block that is not, the array returns the entry of
the way to be replaced, which a `PutBlock` takes over as it is. -/
def metaResp (m : Manager n) (x : Acquire n) (victim : Sharers n) : Manager n :=
  match m.dir with
  | some sharers =>
    { m with
      pendingCoh := sharers
      pendingMetaWrite := false
      phase :=
        if requiresProbes x sharers then .innerProbe x (probeMask x sharers) 0
        else .busy x 0 0 false }
  | none =>
    if x = .builtIn putBlockType then
      { m with pendingCoh := victim, pendingMetaWrite := true, phase := .busy x 0 0 false }
    else { m with pendingCoh := ∅, pendingMetaWrite := true, phase := .outerAcquire x }

/-- A cycle of the acquire tracker in `s_busy`: a beat of the outer grant arrives,
the last one resetting the directory, and a beat of the inner grant leaves; if
both happen the inner grant decides the directory. -/
def busyCycle (m : Manager n) (x : Acquire n) (ogntLeft igntSent : ℕ) (ifinDone : Bool)
    (ignt ognt : Bool) : Manager n :=
  m.updatePendingCoh
    (match ignt, x with
      | true, .custom c _ => onGrant c m.pendingCoh
      | true, .builtIn _ => m.pendingCoh
      | false, _ => if ognt = true ∧ ogntLeft = 1 then ∅ else m.pendingCoh)
    (.busy x (ogntLeft - ognt.toNat) (igntSent + ignt.toNat) ifinDone)

end Manager

namespace Sys

def setClient (s : Sys n) (c : Fin n) (cl : Client) : Sys n :=
  { s with client := Function.update s.client c cl }

def setMgr (s : Sys n) (m : Manager n) : Sys n := { s with mgr := m }

@[simp] theorem setClient_mgr (s : Sys n) (c : Fin n) (cl : Client) :
    (s.setClient c cl).mgr = s.mgr := rfl

@[simp] theorem setClient_client (s : Sys n) (c : Fin n) (cl : Client) :
    (s.setClient c cl).client = Function.update s.client c cl := rfl

@[simp] theorem setMgr_mgr (s : Sys n) (m : Manager n) : (s.setMgr m).mgr = m := rfl

@[simp] theorem setMgr_client (s : Sys n) (m : Manager n) : (s.setMgr m).client = s.client := rfl

/-- When a step can happen. -/
def ok (beats : ℕ) (s : Sys n) : Act n → Bool
  | .acquire c cmd =>
    !(s.client c).coh.isHit cmd && (s.client c).mshr.isNone && !(s.client c).wbPending
  | .hit c cmd => (s.client c).coh.isHit cmd
  | .evict c => !(s.client c).coh.hasDirtyData
  | .writeback c => (s.client c).coh.hasDirtyData
  | .recvProbe c => (s.client c).probe.isSome
  | .recvGrant c => !(s.client c).grant.isEmpty
  | .recvVolAck c => (s.client c).volAck
  | .acceptAcquire c => (s.mgr.phase matches .idle) && (s.client c).acquire.isSome
  | .acceptBuiltIn _ => (s.mgr.phase matches .idle)
  | .metaResp _ => (s.mgr.phase matches .metaResp _)
  | .sendProbe c =>
    match s.mgr.phase with
    | .innerProbe _ iprbs _ => decide (c ∈ iprbs ∧ ∀ d ∈ iprbs, c ≤ d)
    | _ => false
  | .recvRelease c => (s.mgr.phase matches .innerProbe ..) && (s.client c).release.isSome
  | .probesDone =>
    match s.mgr.phase with
    | .innerProbe _ iprbs irels => decide (iprbs = ∅ ∧ irels = 0)
    | _ => false
  | .outerAcquire => (s.mgr.phase matches .outerAcquire _)
  | .busy ignt ognt =>
    match s.mgr.phase with
    | .busy x ogntLeft igntSent _ =>
      (!ognt || decide (0 < ogntLeft)) &&
        (!ignt || decide (igntSent < igntBeats beats x ∧ ReadyToGrant beats ogntLeft igntSent x))
    | _ => false
  | .recvFinish c =>
    match s.mgr.phase with
    | .busy (.custom d _) _ _ _ => decide (c = d) && (s.client c).finish
    | _ => false
  | .xactDone =>
    match s.mgr.phase with
    | .busy x ogntLeft igntSent ifinDone =>
      decide (ogntLeft = 0) && decide (igntSent = igntBeats beats x) &&
        (x.client?.isNone || ifinDone)
    | _ => false
  | .metaWrite outerValid =>
    match s.mgr.phase with
    | .metaWrite x => outerValid || (x.client?.isNone && s.mgr.dir.isNone)
    | _ => false
  | .acceptRelease c => (s.mgr.phase matches .idle) && (s.client c).volRelease.isSome
  | .relMetaResp => (s.mgr.phase matches .relMetaResp ..)
  | .relGrant => (s.mgr.phase matches .relBusy ..)
  | .relMetaWrite => (s.mgr.phase matches .relMetaWrite ..)

/-- What a step does. -/
def next (beats : ℕ) (s : Sys n) : Act n → Sys n
  | .acquire c cmd => s.setClient c ((s.client c).sendAcquire cmd)
  | .hit c cmd => s.setClient c { s.client c with coh := (s.client c).coh.onHit cmd }
  | .evict c => s.setClient c (s.client c).evict
  | .writeback c => s.setClient c (s.client c).writeback
  | .recvProbe c => s.setClient c (s.client c).recvProbe
  | .recvGrant c => s.setClient c ((s.client c).recvGrant beats)
  | .recvVolAck c => s.setClient c { s.client c with volAck := false, wbPending := false }
  | .acceptAcquire c =>
    match (s.client c).acquire with
    | some t =>
      (s.setClient c { s.client c with acquire := none }).setMgr
        { s.mgr with phase := .metaResp (.custom c t) }
    | none => s
  | .acceptBuiltIn a => s.setMgr { s.mgr with phase := .metaResp (.builtIn a) }
  | .metaResp victim =>
    match s.mgr.phase with
    | .metaResp x => s.setMgr (s.mgr.metaResp x victim)
    | _ => s
  | .sendProbe c =>
    match s.mgr.phase with
    | .innerProbe x iprbs irels =>
      (s.setClient c { s.client c with probe := some (getProbeType x) }).setMgr
        { s.mgr with phase := .innerProbe x (iprbs.erase c) (irels + 1) }
    | _ => s
  | .recvRelease c =>
    match s.mgr.phase, (s.client c).release with
    | .innerProbe x iprbs irels, some r =>
      (s.setClient c { s.client c with release := none }).setMgr
        (s.mgr.updatePendingCoh (onRelease r c s.mgr.pendingCoh)
          (.innerProbe x iprbs (irels - 1)))
    | _, _ => s
  | .probesDone =>
    match s.mgr.phase with
    | .innerProbe x _ _ => s.setMgr { s.mgr with phase := .busy x 0 0 false }
    | _ => s
  | .outerAcquire =>
    match s.mgr.phase with
    | .outerAcquire x => s.setMgr { s.mgr with phase := .busy x beats 0 false }
    | _ => s
  | .busy ignt ognt =>
    match s.mgr.phase with
    | .busy x ogntLeft igntSent ifinDone =>
      let s' := s.setMgr (s.mgr.busyCycle x ogntLeft igntSent ifinDone ignt ognt)
      match ignt, x with
      | true, .custom c t =>
        s'.setClient c { s.client c with
          grant := (s.client c).grant ++ [getGrantType t s.mgr.pendingCoh] }
      | _, _ => s'
    | _ => s
  | .recvFinish c =>
    match s.mgr.phase with
    | .busy x ogntLeft igntSent _ =>
      (s.setClient c { s.client c with finish := false }).setMgr
        { s.mgr with phase := .busy x ogntLeft igntSent true }
    | _ => s
  | .xactDone =>
    match s.mgr.phase with
    | .busy x _ _ _ => s.setMgr { s.mgr with phase := .metaWrite x }
    | _ => s
  | .metaWrite outerValid =>
    s.setMgr { s.mgr with
      dir :=
        if s.mgr.pendingMetaWrite then (if outerValid then some s.mgr.pendingCoh else none)
        else s.mgr.dir
      phase := .idle }
  | .acceptRelease c =>
    match (s.client c).volRelease with
    | some r =>
      (s.setClient c { s.client c with volRelease := none }).setMgr
        { s.mgr with phase := .relMetaResp c r }
    | none => s
  | .relMetaResp =>
    match s.mgr.phase with
    | .relMetaResp c r => s.setMgr { s.mgr with phase := .relBusy c r (s.mgr.dir.getD ∅) }
    | _ => s
  | .relGrant =>
    match s.mgr.phase with
    | .relBusy c r old =>
      (s.setClient c { s.client c with volAck := true }).setMgr
        { s.mgr with phase := .relMetaWrite c r old }
    | _ => s
  | .relMetaWrite =>
    match s.mgr.phase with
    | .relMetaWrite c r old =>
      s.setMgr { s.mgr with dir := some (onRelease r c old), phase := .idle }
    | _ => s

/-- The protocol on one block, for blocks of `beats` beats. -/
def machine (n beats : ℕ) : Sync.Machine (Sys n) (Act n) where
  ok s a := s.ok beats a = true
  next := next beats

end Sys

end TaggedRiscv.Mesi
