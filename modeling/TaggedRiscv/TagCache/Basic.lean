import TaggedRiscv.Uncore.TagUtil
import TaggedRiscv.Uncore.TileLink

/-!
# The tag cache: data types and the address map

The tag cache stands between the last-level cache and a memory without tags. It
keeps the tags of the memory's blocks in two partitions of that memory, one for
the DRAM and one for the boot RAM, and caches tag lines. A tag line holds the tags
of 16 blocks in four rows of four slots, one slot a block.

Addresses are block addresses (a byte address without its six offset bits).
-/

namespace TaggedRiscv.TagCache

open Packed TagUtil

/-- The shape of the cache: `2 ^ idxBits` sets of `2 ^ wayBits` ways. -/
structure Geometry where
  idxBits : ℕ
  wayBits : ℕ

namespace Geometry

variable (g : Geometry)

abbrev nSets : ℕ := 2 ^ g.idxBits

abbrev nWays : ℕ := 2 ^ g.wayBits

end Geometry

/-! ## Data -/

/-- A tagged beat: two words of 64 bits with their tags of four bits. -/
abbrev Beat := BitVec (2 * (4 + 64))

/-- A beat without tags. -/
abbrev Raw := BitVec (2 * 64)

/-- The tags of a block: eight of four bits. -/
abbrev Slot := BitVec (4 * 2 * 4)

scoped instance neZeroRows : NeZero 4 := ⟨by decide⟩

/-- A row of a tag line: the tags of four blocks. -/
abbrev Row := Fin 4 → Slot

/-- A memory block of four tagged beats. -/
abbrev Block := Fin 4 → Beat

/-- The bits of a row, as wide as a beat without tags. -/
def rowBits (r : Row) : Raw := (toBits r).cast (by decide)

/-- The row with the given bits. -/
def rowOf (x : Raw) : Row := fromBits (n := 4) (w := 4 * 2 * 4) (x.cast (by decide))

@[simp] theorem rowOf_rowBits (r : Row) : rowOf (rowBits r) = r := by
  simp [rowOf, rowBits]

@[simp] theorem rowBits_rowOf (x : Raw) : rowBits (rowOf x) = x := by
  simp [rowOf, rowBits]

/-- Shifting a row right brings a slot down. -/
theorem setWidth_shiftRight_rowBits (r : Row) (k : Fin 4) :
    (rowBits r >>> (k.val * 32)).setWidth (4 * 2 * 4) = r k := by
  have hk : fromBits (toBits r) k = r k := by rw [fromBits_toBits]
  rw [← hk]
  apply BitVec.eq_of_getLsbD_eq
  intro j hj
  rw [getLsbD_fromBits _ _ hj]
  simp [rowBits, hj]

/-- Shifting the tags of a block left brings them to their slot. -/
theorem rowOf_shiftLeft (t : Slot) (k : Fin 4) :
    rowOf (t.setWidth (2 * 64) <<< (k.val * 32)) k = t := by
  apply BitVec.eq_of_getLsbD_eq
  intro j hj
  have hlt : k.val * 32 + j < 2 * 64 := by omega
  have hj' : k.val * 32 + j - k.val * 32 = j := by omega
  have hj'' : j < 2 * 64 := by omega
  unfold rowOf
  rw [getLsbD_fromBits _ _ hj, BitVec.getLsbD_cast, BitVec.getLsbD_shiftLeft,
    BitVec.getLsbD_setWidth]
  simp only [hj', hlt, hj'', decide_true, Bool.true_and]
  simp

def blockTags (b : Block) : Slot := extractTag (flatten (toBits b))

/-- The block with the given data and tags. -/
def joinTags (d : Fin 4 → Raw) (t : Slot) : Block :=
  fromBits (group (insertTag (flatten (toBits d)) t))

/-- A block is recovered from its data and its tags. -/
theorem joinTags_removeTag_blockTags (b : Block) :
    joinTags (fun j => removeTag (b j)) (blockTags b) = b := by
  unfold joinTags blockTags
  rw [toBits_removeTag, insertTag_removeTag_extractTag, group_flatten, fromBits_toBits]

/-- The tags of a block are the ones it was joined with. -/
theorem blockTags_joinTags (d : Fin 4 → Raw) (t : Slot) : blockTags (joinTags d t) = t := by
  unfold joinTags blockTags
  rw [toBits_fromBits, flatten_group, extractTag_insertTag]

/-! ## The address map -/

section AddressMap

variable (g : Geometry)

/-- The set of a block. -/
def addrToIndex (addr : ℕ) : Fin g.nSets := Fin.ofNat g.nSets (addr / 16)

/-- The row of a block in its tag line. -/
def addrToRow (addr : ℕ) : Fin 4 := Fin.ofNat 4 (addr / 4)

/-- The slot of a block in its row. -/
def rowOffset (addr : ℕ) : Fin 4 := Fin.ofNat 4 addr

/-- An entry of the metadata array. -/
structure Meta where
  dram : Bool
  valid : Bool
  dirty : Bool
  tag : ℕ
  deriving DecidableEq, Repr

/-- The tag of a block address. -/
def tagOf (addr : ℕ) : ℕ := addr / (16 * g.nSets)

/-- The metadata of the tag line of a block. -/
def addrToTag (addr : ℕ) (dirty isDram : Bool) : Meta :=
  { dram := isDram, valid := true, dirty := dirty, tag := tagOf g addr }

/-- A block address in the line a metadata entry describes. The entry's dirty bit
stands above the tag and comes along; `tagAddrConv` cuts it off. -/
def addrFromTag (m : Meta) (addr : ℕ) : ℕ :=
  m.dirty.toNat * 2 ^ 26 + m.tag * (16 * g.nSets) + addr % (16 * g.nSets)

end AddressMap

/-- The block of the tag partition that holds the tags of a block. The partitions
end at the end of the DRAM window and at the end of the boot RAM. -/
def tagAddrConv (addr : ℕ) (isDram : Bool) : ℕ :=
  if isDram then 0x1F00000 + addr / 16 % 2 ^ 20 else 0x3C0 + addr / 16 % 2 ^ 6

/-- Bit 30 of the byte address of a block: it is not in the boot RAM. -/
def isDramAddress (addr : ℕ) : Bool := addr / 2 ^ 24 % 2 == 1

end TaggedRiscv.TagCache
