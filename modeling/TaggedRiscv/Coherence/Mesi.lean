import TaggedRiscv.Uncore.MemoryOp
import TaggedRiscv.Uncore.TileLink
import Mathlib.Data.Finset.Card
import Mathlib.Data.Finset.Max
import Mathlib.Data.Fintype.Basic

/-!
# The MESI policy

`MESICoherence` as the caches use it: what a client asks for, how it answers a
probe, what a grant makes of it, and how the manager's directory follows. The
directory is `FullRepresentation`, one bit per client, read as a finite set.
-/

namespace TaggedRiscv.Mesi

/-! ## Message types -/

/-- The custom acquire types of the policy. -/
inductive AcquireType
  | acquireShared | acquireExclusive
  deriving DecidableEq, Repr

inductive ProbeType
  | probeInvalidate | probeDowngrade | probeCopy
  deriving DecidableEq, Repr

inductive ReleaseType
  | releaseInvalidateData | releaseDowngradeData | releaseCopyData
  | releaseInvalidateAck | releaseDowngradeAck | releaseCopyAck
  deriving DecidableEq, Repr

/-- The custom grant types; the policy never sends `grantExclusiveAck`. -/
inductive GrantType
  | grantShared | grantExclusive | grantExclusiveAck
  deriving DecidableEq, Repr

/-- An acquire at the manager: a custom one of a caching client, or a built-in
one of a client that does not cache. -/
inductive Acquire (n : ℕ)
  | custom (client : Fin n) (aType : AcquireType)
  | builtIn (aType : BuiltInAcquire)
  deriving DecidableEq

/-! ## Clients -/

inductive ClientState
  | clientInvalid | clientShared | clientExclusiveClean | clientExclusiveDirty
  deriving DecidableEq, Repr

export ClientState (clientInvalid clientShared clientExclusiveClean clientExclusiveDirty)
export ProbeType (probeInvalidate probeDowngrade probeCopy)
export AcquireType (acquireShared acquireExclusive)
export GrantType (grantShared grantExclusive grantExclusiveAck)
open ReleaseType BuiltInAcquire

namespace ClientState

def hasWritePermission (s : ClientState) : Bool :=
  s == clientExclusiveClean || s == clientExclusiveDirty

def hasReadPermission (s : ClientState) : Bool := s == clientShared || s.hasWritePermission

def hasDirtyData (s : ClientState) : Bool := s == clientExclusiveDirty

def isValid (s : ClientState) : Bool := s != clientInvalid

def isHit (cmd : MemCmd) (s : ClientState) : Bool :=
  if cmd.isWriteIntent then s.hasWritePermission else s.hasReadPermission

/-- `clientMetadataOnHit`. -/
def onHit (cmd : MemCmd) (s : ClientState) : ClientState :=
  if cmd.isWrite then clientExclusiveDirty else s

/-- `clientMetadataOnCacheControl`. -/
def onCacheControl (cmd : MemCmd) (s : ClientState) : ClientState :=
  match cmd with
  | .FLUSH => clientInvalid
  | .PRODUCE => if s.hasWritePermission then clientShared else s
  | .CLEAN => if s = clientExclusiveDirty then clientExclusiveClean else s
  | _ => s

/-- `clientMetadataOnGrant`, for a grant that is not built in. -/
def onGrant (g : GrantType) (cmd : MemCmd) : ClientState :=
  match g with
  | grantShared => clientShared
  | grantExclusive => if cmd.isWrite then clientExclusiveDirty else clientExclusiveClean
  | grantExclusiveAck => clientExclusiveDirty

/-- `clientMetadataOnProbe`. -/
def onProbe (p : ProbeType) (s : ClientState) : ClientState :=
  match p with
  | probeInvalidate => clientInvalid
  | probeDowngrade => clientShared
  | probeCopy => s

end ClientState

def getAcquireType (cmd : MemCmd) : AcquireType :=
  if cmd.isWriteIntent then acquireExclusive else acquireShared

/-- The release a cache control operation makes of a block in state `s`. -/
def getReleaseType (cmd : MemCmd) (s : ClientState) : ReleaseType :=
  match cmd with
  | .FLUSH => if s.hasDirtyData then releaseInvalidateData else releaseInvalidateAck
  | .PRODUCE => if s.hasDirtyData then releaseDowngradeData else releaseDowngradeAck
  | .CLEAN => if s.hasDirtyData then releaseCopyData else releaseCopyAck
  | _ => releaseCopyAck

/-- The release that answers a probe. -/
def getProbeReleaseType (p : ProbeType) (s : ClientState) : ReleaseType :=
  match p with
  | probeInvalidate => getReleaseType .FLUSH s
  | probeDowngrade => getReleaseType .PRODUCE s
  | probeCopy => getReleaseType .CLEAN s

/-! ## The manager -/

/-- The directory of a block: the clients whose bit is set. -/
abbrev Sharers (n : ℕ) := Finset (Fin n)

variable {n : ℕ}

namespace Acquire

/-- The client that asks, if it caches. -/
def client? : Acquire n → Option (Fin n)
  | custom c _ => some c
  | builtIn _ => none

/-- Whether the acquire carries data. -/
def hasData : Acquire n → Bool
  | custom _ _ => false
  | builtIn a => a.hasData

end Acquire

/-- Whether the manager must probe before it grants. -/
def requiresProbes (a : Acquire n) (sharers : Sharers n) : Bool :=
  if sharers = ∅ then false
  else if sharers.card = 1 then true
  else match a with
    | .builtIn _ => a.hasData
    | .custom _ t => t != acquireShared

def getProbeType : Acquire n → ProbeType
  | .builtIn getBlockType => probeCopy
  | .builtIn putBlockType => probeInvalidate
  | .builtIn getType => probeCopy
  | .builtIn putType => probeInvalidate
  | .builtIn putAtomicType => probeInvalidate
  | .builtIn prefetchType => probeCopy
  | .custom _ acquireShared => probeDowngrade
  | .custom _ acquireExclusive => probeInvalidate

def getGrantType (t : AcquireType) (sharers : Sharers n) : GrantType :=
  if t = acquireShared then (if sharers = ∅ then grantExclusive else grantShared)
  else grantExclusive

/-- `managerMetadataOnRelease`. -/
def onRelease (r : ReleaseType) (src : Fin n) (sharers : Sharers n) : Sharers n :=
  match r with
  | releaseInvalidateData | releaseInvalidateAck => sharers.erase src
  | _ => sharers

/-- `managerMetadataOnGrant`, for a grant that is not built in. -/
def onGrant (dst : Fin n) (sharers : Sharers n) : Sharers n := insert dst sharers

/-- The clients to be probed: all sharers but the one that asks. -/
def probeMask (a : Acquire n) (sharers : Sharers n) : Sharers n :=
  match a.client? with
  | some c => sharers.erase c
  | none => sharers

end TaggedRiscv.Mesi
