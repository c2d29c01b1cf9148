import Mathlib.Data.Nat.Notation

/-!
# TileLink message types

The built-in acquire and grant types, which every manager understands.
-/

namespace TaggedRiscv

/-- The built-in acquire types. -/
inductive BuiltInAcquire
  | getType | getBlockType | putType | putBlockType | putAtomicType | prefetchType
  deriving DecidableEq, Repr

/-- The built-in grant types. -/
inductive BuiltInGrant
  | voluntaryAckType | prefetchAckType | putAckType | getDataBeatType | getDataBlockType
  deriving DecidableEq, Repr

namespace BuiltInAcquire

/-- Whether an acquire of the type carries data. -/
def hasData : BuiltInAcquire → Bool
  | putType | putBlockType | putAtomicType => true
  | _ => false

/-- The grant that answers an acquire of the type. -/
def getBuiltInGrantType : BuiltInAcquire → BuiltInGrant
  | getType => .getDataBeatType
  | getBlockType => .getDataBlockType
  | putType => .putAckType
  | putBlockType => .putAckType
  | putAtomicType => .getDataBeatType
  | prefetchType => .prefetchAckType

end BuiltInAcquire

end TaggedRiscv
