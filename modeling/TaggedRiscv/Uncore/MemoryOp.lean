import Mathlib.Data.Nat.Notation

/-!
# Memory operations

The commands a core sends to its data cache, the classes the caches and the
coherence policies divide them into, and the types of an access
(`MemoryOpConstants`).
-/

namespace TaggedRiscv

/-- The memory commands (`M_XRD`, `M_XWR`, ...). -/
inductive MemCmd
  | XRD | XWR | PFR | PFW | XA_SWAP | NOP | XLR | XSC
  | XA_ADD | XA_XOR | XA_OR | XA_AND | XA_MIN | XA_MAX | XA_MINU | XA_MAXU
  | FLUSH | PRODUCE | CLEAN
  deriving DecidableEq, Repr

namespace MemCmd

/-- The five-bit code of a command. -/
def code : MemCmd → ℕ
  | XRD => 0b00000 | XWR => 0b00001 | PFR => 0b00010 | PFW => 0b00011
  | XA_SWAP => 0b00100 | NOP => 0b00101 | XLR => 0b00110 | XSC => 0b00111
  | XA_ADD => 0b01000 | XA_XOR => 0b01001 | XA_OR => 0b01010 | XA_AND => 0b01011
  | XA_MIN => 0b01100 | XA_MAX => 0b01101 | XA_MINU => 0b01110 | XA_MAXU => 0b01111
  | FLUSH => 0b10000 | PRODUCE => 0b10001 | CLEAN => 0b10011

/-- The command of a code. The codes without a command are read as a store: no unit compares
with them. -/
def ofCode (x : BitVec 5) : MemCmd :=
  ([XRD, XWR, PFR, PFW, XA_SWAP, NOP, XLR, XSC, XA_ADD, XA_XOR, XA_OR, XA_AND, XA_MIN, XA_MAX,
    XA_MINU, XA_MAXU, FLUSH, PRODUCE, CLEAN].find? fun cmd => cmd.code = x.toNat).getD XWR

def isAMO (cmd : MemCmd) : Bool := cmd.code.testBit 3 || cmd == XA_SWAP
def isPrefetch (cmd : MemCmd) : Bool := cmd == PFR || cmd == PFW
def isRead (cmd : MemCmd) : Bool := cmd == XRD || cmd == XLR || cmd == XSC || cmd.isAMO
def isWrite (cmd : MemCmd) : Bool := cmd == XWR || cmd == XSC || cmd.isAMO
def isWriteIntent (cmd : MemCmd) : Bool := cmd.isWrite || cmd == PFW || cmd == XLR

theorem isWriteIntent_of_isWrite {cmd : MemCmd} (h : cmd.isWrite) : cmd.isWriteIntent := by
  simp [isWriteIntent, h]

end MemCmd

/-- The access types (`MT_B`, `MT_H`, ...); `T` accesses the tag of a doubleword. -/
inductive MemTyp
  | B | H | W | D | BU | HU | WU | Q | T
  deriving DecidableEq, Repr

namespace MemTyp

/-- The four-bit code of a type. -/
def code : MemTyp → ℕ
  | B => 0b0000 | H => 0b0001 | W => 0b0010 | D => 0b0011
  | BU => 0b0100 | HU => 0b0101 | WU => 0b0110 | Q => 0b0111 | T => 0b1111

/-- The type of a code. The codes without a type are read as a doubleword: no unit compares
with them. -/
def ofCode (x : BitVec 4) : MemTyp :=
  ([B, H, W, D, BU, HU, WU, Q, T].find? fun typ => typ.code = x.toNat).getD D

end MemTyp

end TaggedRiscv
