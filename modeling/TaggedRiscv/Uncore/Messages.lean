import TaggedRiscv.Uncore.TileLink
import Mathlib.Data.BitVec

/-!
# TileLink messages

The messages of the five channels, field by field, with the helper functions of the
source that read them. Message types are bit vectors, since custom types are defined
by the coherence policy; the built-in ones have fixed codes.
-/

namespace TaggedRiscv

namespace BuiltInAcquire

/-- The code of a built-in acquire type. -/
def code : BuiltInAcquire → ℕ
  | getType => 0
  | getBlockType => 1
  | putType => 2
  | putBlockType => 3
  | putAtomicType => 4
  | prefetchType => 5

end BuiltInAcquire

namespace BuiltInGrant

/-- The code of a built-in grant type. -/
def code : BuiltInGrant → ℕ
  | voluntaryAckType => 0
  | prefetchAckType => 1
  | putAckType => 3
  | getDataBeatType => 4
  | getDataBlockType => 5

end BuiltInGrant

/-- The widths of the TileLink fields, the number of beats of a block, and the custom
types of the coherence policy that carry data. `dataBits` counts the tags. -/
structure TLParams where
  clientIdBits : ℕ
  clientXactIdBits : ℕ
  managerXactIdBits : ℕ
  blockAddrBits : ℕ
  beatAddrBits : ℕ
  byteAddrBits : ℕ
  dataBits : ℕ
  dataBeats : ℕ
  acquireTypeBits : ℕ
  probeTypeBits : ℕ
  releaseTypeBits : ℕ
  grantTypeBits : ℕ
  releaseTypesWithData : List ℕ
  grantTypesWithData : List ℕ

namespace TLParams

/-- Blocks of two beats of 8 bytes, for concrete runs. -/
def small : TLParams :=
  { clientIdBits := 1, clientXactIdBits := 1, managerXactIdBits := 1, blockAddrBits := 4
    beatAddrBits := 1, byteAddrBits := 3, dataBits := 64, dataBeats := 2, acquireTypeBits := 3
    probeTypeBits := 1, releaseTypeBits := 1, grantTypeBits := 4, releaseTypesWithData := [0]
    grantTypesWithData := [] }

variable (c : TLParams)

def writeMaskBits : ℕ := 2 ^ c.byteAddrBits

/-- The operand size has 4 bits and the operation code 5. -/
def unionBits : ℕ := max c.writeMaskBits (c.byteAddrBits + 4 + 5) + 1

end TLParams

variable (c : TLParams)

structure Acquire where
  isBuiltinType : Bool
  aType : BitVec c.acquireTypeBits
  clientXactId : BitVec c.clientXactIdBits
  addrBlock : BitVec c.blockAddrBits
  addrBeat : BitVec c.beatAddrBits
  data : BitVec c.dataBits
  union : BitVec c.unionBits
  deriving DecidableEq

structure Probe where
  pType : BitVec c.probeTypeBits
  addrBlock : BitVec c.blockAddrBits
  deriving DecidableEq

structure Release where
  voluntary : Bool
  rType : BitVec c.releaseTypeBits
  clientXactId : BitVec c.clientXactIdBits
  addrBlock : BitVec c.blockAddrBits
  addrBeat : BitVec c.beatAddrBits
  data : BitVec c.dataBits
  deriving DecidableEq

structure Grant where
  isBuiltinType : Bool
  gType : BitVec c.grantTypeBits
  clientXactId : BitVec c.clientXactIdBits
  managerXactId : BitVec c.managerXactIdBits
  addrBeat : BitVec c.beatAddrBits
  data : BitVec c.dataBits
  deriving DecidableEq

structure Finish where
  managerXactId : BitVec c.managerXactIdBits
  deriving DecidableEq

/-- An acquire with its source. -/
structure AcquireFromSrc extends Acquire c where
  clientId : BitVec c.clientIdBits
  deriving DecidableEq

/-- A release with its source. -/
structure ReleaseFromSrc extends Release c where
  clientId : BitVec c.clientIdBits
  deriving DecidableEq

/-- A grant with its destination. -/
structure GrantToDst extends Grant c where
  clientId : BitVec c.clientIdBits
  deriving DecidableEq

variable {c}

namespace Acquire

variable (a : Acquire c)

/-- The message is of a built-in type. -/
def isBuiltIn (t : BuiltInAcquire) : Bool := a.isBuiltinType && a.aType.toNat == t.code

/-- Hint whether to allocate the block in any intervening cache. -/
def allocate : Bool := a.union.getLsbD 0

def opCode : BitVec 5 :=
  if a.isBuiltIn .putType || a.isBuiltIn .putBlockType then 1 else a.union.extractLsb' 1 5

def opSize : BitVec 4 := a.union.extractLsb' 6 4

/-- The byte address of the operand in its beat. -/
def addrByte : BitVec c.byteAddrBits := a.union.extractLsb' 10 c.byteAddrBits

/-- The write mask, bit by bit. The operands of atomic operations have 8 bytes. -/
def wmask (j : ℕ) : Bool :=
  if a.isBuiltIn .putAtomicType then j / 8 == a.addrByte.toNat / 8
  else if a.isBuiltIn .putBlockType || a.isBuiltIn .putType then a.union.getLsbD (j + 1)
  else false

/-- The complete address, in bytes. -/
def fullAddr : ℕ :=
  (a.addrBlock.toNat * 2 ^ c.beatAddrBits + a.addrBeat.toNat) * 2 ^ c.byteAddrBits +
    a.addrByte.toNat

/-- The grant type for the message, whether or not its type is built in. -/
def getBuiltInGrantType : BuiltInGrant :=
  if a.aType.toNat = BuiltInAcquire.getType.code then .getDataBeatType
  else if a.aType.toNat = BuiltInAcquire.getBlockType.code then .getDataBlockType
  else if a.aType.toNat = BuiltInAcquire.putType.code then .putAckType
  else if a.aType.toNat = BuiltInAcquire.putBlockType.code then .putAckType
  else if a.aType.toNat = BuiltInAcquire.putAtomicType.code then .getDataBeatType
  else if a.aType.toNat = BuiltInAcquire.prefetchType.code then .prefetchAckType
  else .putAckType

def hasData : Bool :=
  a.isBuiltIn .putType || a.isBuiltIn .putBlockType || a.isBuiltIn .putAtomicType

def hasMultibeatData : Bool := decide (1 < c.dataBeats) && a.isBuiltIn .putBlockType

/-- The message is about a part of a block. -/
def isSubBlockType : Bool :=
  a.isBuiltIn .putType || a.isBuiltIn .getType || a.isBuiltIn .putAtomicType

variable {a}

theorem grantType_of_get (h : a.isBuiltIn .getType) : a.getBuiltInGrantType = .getDataBeatType := by
  simp only [isBuiltIn, Bool.and_eq_true, beq_iff_eq] at h
  simp [getBuiltInGrantType, h.2]

theorem grantType_of_put (h : a.isBuiltIn .putType) : a.getBuiltInGrantType = .putAckType := by
  simp only [isBuiltIn, Bool.and_eq_true, beq_iff_eq] at h
  simp [getBuiltInGrantType, h.2, BuiltInAcquire.code]

end Acquire

namespace Release

variable (r : Release c)

def hasMultibeatData : Bool :=
  decide (1 < c.dataBeats) && c.releaseTypesWithData.contains r.rType.toNat

end Release

namespace Grant

variable (g : Grant c)

def hasMultibeatData : Bool :=
  decide (1 < c.dataBeats) &&
    if g.isBuiltinType then g.gType.toNat == BuiltInGrant.getDataBlockType.code
    else c.grantTypesWithData.contains g.gType.toNat

def isVoluntary : Bool :=
  g.isBuiltinType && g.gType.toNat == BuiltInGrant.voluntaryAckType.code

/-- The client has to acknowledge the message. This is for a network that does not keep the
messages between two ports in order (`TLNetworkIsOrderedP2P` is false). -/
def requiresAck : Bool := !g.isVoluntary

def makeFinish : Finish c := ⟨g.managerXactId⟩

end Grant

end TaggedRiscv
