import TaggedRiscv.TagCache.Lines

/-!
# The address map on words

The tracker computes its addresses by joining and cutting words of fixed width. The metadata word is
the DRAM bit, the valid bit, the dirty bit and the tag; the slice that recovers an address from it
takes the dirty bit along, and the partition size cuts it off again.

Words are those of the shipped configuration: physical addresses of 32 bits, blocks of 64 bytes,
tag lines of 16 blocks, partitions of `2 ^ 26` and `2 ^ 12` bytes.
-/

namespace TaggedRiscv.TagCache

open BitVec

namespace Geometry

variable (g : Geometry)

/-- The width of the part of a block address below the tag (`tagCahceUnTagBits`). -/
def unTagBits : ℕ := g.idxBits + 4

/-- The width of the tag (`tagCacheTagBits`). -/
def tagBits : ℕ := 26 - g.unTagBits

/-- The tag and the part below it make up a block address. -/
theorem tagBits_add_unTagBits {g : Geometry} (h : g.idxBits ≤ 22) :
    g.tagBits + g.unTagBits = 26 := by
  unfold tagBits unTagBits
  omega

theorem two_pow_unTagBits : 2 ^ g.unTagBits = 16 * g.nSets := by
  rw [unTagBits, Nat.pow_add, Nat.mul_comm]

end Geometry

namespace Word

variable {g : Geometry}

/-! ## The words of the tracker -/

/-- The block address in the address register. -/
def acqAddr (addrOut : BitVec 32) : BitVec 26 := (addrOut >>> 6).setWidth 26

/-- The test of an address against the start of the DRAM. -/
def isDramAddress (addrOut : BitVec 32) : Bool :=
  addrOut &&& 0x40000000#32 == 0x40000000#32

/-- A word of the metadata array. -/
abbrev MetaWord (g : Geometry) := BitVec (1 + 1 + 1 + g.tagBits)

def tagIsDram (m : MetaWord g) : Bool := m.getLsbD (g.tagBits + 2)

def tagIsValid (m : MetaWord g) : Bool := m.getLsbD (g.tagBits + 1)

def tagIsDirty (m : MetaWord g) : Bool := m.getLsbD g.tagBits

/-- The metadata word of the tag line of a block. -/
def addrToTag (g : Geometry) (addr : BitVec 26) (dirty isDram : Bool) : MetaWord g :=
  BitVec.ofBool isDram ++ 1#1 ++ BitVec.ofBool dirty ++ addr.extractLsb' g.unTagBits g.tagBits

/-- The set of a block, as the number the source cuts out. -/
def addrToIndex (g : Geometry) (addr : BitVec 26) : BitVec g.idxBits :=
  addr.extractLsb' 4 g.idxBits

/-- A block address of the line of a metadata word. All but the two top bits of the word
are taken, so the dirty bit stands above the tag. -/
def addrFromTag (m : MetaWord g) (addr : BitVec 26) : BitVec (g.tagBits + 1 + g.unTagBits) :=
  m.extractLsb' 0 (g.tagBits + 1) ++ addr.extractLsb' 0 g.unTagBits

/-- The block of the tag partition that holds the tags of a block. -/
def tagAddrConv {w : ℕ} (addr : BitVec w) (isDram : Bool) : BitVec 26 :=
  let fullAddr := addr ++ 0#6
  let shiftedAddr := fullAddr >>> 4
  let tagAddr : BitVec 32 :=
    if isDram then (0x7FFFFFFF#32).extractLsb' 26 6 ++ shiftedAddr.extractLsb' 0 26
    else (0xFFFF#32).extractLsb' 12 20 ++ shiftedAddr.extractLsb' 0 12
  (tagAddr >>> 6).setWidth 26

/-- The slot of a block in its tag line: the row and the slot in the row. -/
def slotOf (addr : BitVec 26) : BitVec 4 := addr.extractLsb' 0 4

/-- The address a tag line is refilled from (`acq_out_reveive_tag`). -/
def refillAddr (addrOut : BitVec 32) : BitVec 26 :=
  tagAddrConv (acqAddr addrOut) (isDramAddress addrOut)

/-- The metadata stored for the line of an address: clean after the refill, dirty after a
write that hits. -/
def storedMeta (g : Geometry) (addrOut : BitVec 32) (dirty : Bool) : MetaWord g :=
  addrToTag g (acqAddr addrOut) dirty (isDramAddress addrOut)

/-- The address a tag line is written back to (`acq_out_send_tag`), with the metadata of
the line and the address of the request that evicts it. -/
def writeBackAddr (m : MetaWord g) (addrOut : BitVec 32) : BitVec 26 :=
  tagAddrConv (addrFromTag m (acqAddr addrOut)) (tagIsDram m)

/-! ## Words and numbers -/

/-- The entry that a metadata word encodes. -/
def metaOf (m : MetaWord g) : Meta where
  dram := tagIsDram m
  valid := tagIsValid m
  dirty := tagIsDirty m
  tag := (m.extractLsb' 0 g.tagBits).toNat

/-- Joined words as numbers. -/
theorem toNat_append_eq {v w : ℕ} (x : BitVec v) (y : BitVec w) :
    (x ++ y).toNat = x.toNat * 2 ^ w + y.toNat := by
  rw [toNat_append, ← Nat.shiftLeft_add_eq_or_of_lt y.isLt, Nat.shiftLeft_eq]

theorem toNat_acqAddr (addrOut : BitVec 32) : (acqAddr addrOut).toNat = addrOut.toNat / 64 := by
  have hlt := addrOut.isLt
  rw [acqAddr, toNat_setWidth, toNat_ushiftRight, Nat.shiftRight_eq_div_pow]
  omega

theorem isDramAddress_eq_getLsbD (addrOut : BitVec 32) :
    isDramAddress addrOut = addrOut.getLsbD 30 := by
  have hmask : addrOut &&& 0x40000000#32 = if addrOut.getLsbD 30 then 0x40000000#32 else 0#32 :=
    and_twoPow addrOut 30
  rw [isDramAddress, hmask]
  cases addrOut.getLsbD 30 <;> rfl

/-- The DRAM bit is the one the map on numbers reads. -/
theorem isDramAddress_eq (addrOut : BitVec 32) :
    isDramAddress addrOut = TagCache.isDramAddress (acqAddr addrOut).toNat := by
  rw [isDramAddress_eq_getLsbD, toNat_acqAddr, TagCache.isDramAddress, BitVec.getLsbD,
    Nat.testBit_eq_decide_div_mod_eq, Nat.div_div_eq_div_mul, show 64 * 2 ^ 24 = 2 ^ 30 by rfl]
  rfl

/-- The bits of a stored word above its tag. -/
theorem getLsbD_addrToTag (addr : BitVec 26) (dirty isDram : Bool) (k : ℕ) :
    (addrToTag g addr dirty isDram).getLsbD (g.tagBits + k) =
      (BitVec.ofBool isDram ++ 1#1 ++ BitVec.ofBool dirty).getLsbD k := by
  simp [addrToTag, getLsbD_append]

theorem tagIsDram_addrToTag (addr : BitVec 26) (dirty isDram : Bool) :
    tagIsDram (addrToTag g addr dirty isDram) = isDram := by
  rw [tagIsDram, getLsbD_addrToTag]
  cases isDram <;> cases dirty <;> rfl

theorem tagIsValid_addrToTag (addr : BitVec 26) (dirty isDram : Bool) :
    tagIsValid (addrToTag g addr dirty isDram) := by
  rw [tagIsValid, getLsbD_addrToTag]
  cases isDram <;> cases dirty <;> rfl

theorem tagIsDirty_addrToTag (addr : BitVec 26) (dirty isDram : Bool) :
    tagIsDirty (addrToTag g addr dirty isDram) = dirty := by
  refine (getLsbD_addrToTag addr dirty isDram 0).trans ?_
  cases isDram <;> cases dirty <;> rfl

/-- A stored word encodes the entry of the map on numbers. -/
theorem metaOf_addrToTag (h : g.idxBits ≤ 22) (addr : BitVec 26) (dirty isDram : Bool) :
    metaOf (addrToTag g addr dirty isDram) = TagCache.addrToTag g addr.toNat dirty isDram := by
  have htag : (addrToTag g addr dirty isDram).extractLsb' 0 g.tagBits =
      addr.extractLsb' g.unTagBits g.tagBits := by
    apply eq_of_getLsbD_eq
    intro i hi
    simp [addrToTag, getLsbD_append, hi]
  have hlt : addr.toNat / 2 ^ g.unTagBits < 2 ^ g.tagBits := by
    rw [Nat.div_lt_iff_lt_mul (Nat.two_pow_pos _), ← Nat.pow_add, Geometry.tagBits_add_unTagBits h]
    exact addr.isLt
  have hnum : (addr.extractLsb' g.unTagBits g.tagBits).toNat = tagOf g addr.toNat := by
    rw [BitVec.extractLsb'_toNat, Nat.shiftRight_eq_div_pow, Nat.mod_eq_of_lt hlt, tagOf,
      Geometry.two_pow_unTagBits]
  rw [metaOf, htag, hnum, tagIsDram_addrToTag, tagIsValid_addrToTag, tagIsDirty_addrToTag,
    TagCache.addrToTag]

/-- The slice of a metadata word below its two top bits: the tag under the dirty bit. -/
theorem toNat_extract_dirty (m : MetaWord g) :
    (m.extractLsb' 0 (g.tagBits + 1)).toNat =
      (tagIsDirty m).toNat * 2 ^ g.tagBits + (m.extractLsb' 0 g.tagBits).toNat := by
  rw [BitVec.extractLsb'_toNat, BitVec.extractLsb'_toNat, Nat.shiftRight_zero, tagIsDirty,
    BitVec.getLsbD, Nat.toNat_testBit, Nat.mod_pow_succ]
  ring

/-- The recovered address is the one of the map on numbers. -/
theorem toNat_addrFromTag (h : g.idxBits ≤ 22) (m : MetaWord g) (addr : BitVec 26) :
    (addrFromTag m addr).toNat = TagCache.addrFromTag g (metaOf m) addr.toNat := by
  have h26 : 2 ^ 26 = 2 ^ g.tagBits * 2 ^ g.unTagBits := by
    rw [← Nat.pow_add, Geometry.tagBits_add_unTagBits h]
  have hlow : (addr.extractLsb' 0 g.unTagBits).toNat = addr.toNat % 2 ^ g.unTagBits := by
    rw [BitVec.extractLsb'_toNat, Nat.shiftRight_zero]
  rw [addrFromTag, toNat_append_eq, toNat_extract_dirty, TagCache.addrFromTag, h26,
    ← g.two_pow_unTagBits, hlow]
  simp only [metaOf]
  ring

/-- The partition address is the one of the map on numbers, also for an address with a bit
too many. -/
theorem toNat_tagAddrConv {w : ℕ} (addr : BitVec w) (isDram : Bool) :
    (tagAddrConv addr isDram).toNat = TagCache.tagAddrConv addr.toNat isDram := by
  have hshift : ((addr ++ 0#6) >>> 4).toNat = addr.toNat * 4 := by
    rw [toNat_ushiftRight, toNat_append_eq, toNat_ofNat, Nat.shiftRight_eq_div_pow]
    omega
  have hlow : ∀ k, (((addr ++ 0#6) >>> 4).extractLsb' 0 k).toNat = addr.toNat * 4 % 2 ^ k := by
    intro k
    rw [BitVec.extractLsb'_toNat, hshift, Nat.shiftRight_zero]
  -- the upper bits of the two partitions
  have hdram : ((0x7FFFFFFF#32).extractLsb' 26 6).toNat = 0x1F := by decide
  have hbram : ((0xFFFF#32).extractLsb' 12 20).toNat = 0xF := by decide
  cases isDram with
  | true =>
    simp only [tagAddrConv, if_true, toNat_setWidth, toNat_ushiftRight,
      toNat_append_eq, hlow, hdram, TagCache.tagAddrConv, Nat.shiftRight_eq_div_pow]
    omega
  | false =>
    simp only [tagAddrConv, Bool.false_eq_true, if_false, toNat_setWidth,
      toNat_ushiftRight, toNat_append_eq, hlow, hbram, TagCache.tagAddrConv,
      Nat.shiftRight_eq_div_pow]
    omega

/-! ## Properties of the map -/

/-- An address of the DRAM window. -/
def InDram (addrOut : BitVec 32) : Prop := 0x40000000#32 ≤ addrOut ∧ addrOut < 0x80000000#32

/-- An address of the boot RAM. -/
def InBram (addrOut : BitVec 32) : Prop := addrOut < 0x10000#32

/-- What the tag cache needs of its address map. -/
structure AddressMapSound (g : Geometry) : Prop where
  /-- A line is written back to where it was refilled from, whatever request of the same set
  evicts it. -/
  writeBack : ∀ (addrOut later : BitVec 32) (dirty : Bool),
    addrToIndex g (acqAddr later) = addrToIndex g (acqAddr addrOut) →
      writeBackAddr (storedMeta g addrOut dirty) later = refillAddr addrOut
  /-- Different blocks of the windows have different places for their tags. -/
  place : ∀ a b : BitVec 32, InDram a ∨ InBram a → InDram b ∨ InBram b →
    acqAddr a ≠ acqAddr b →
      (refillAddr a, slotOf (acqAddr a)) ≠ (refillAddr b, slotOf (acqAddr b))
  /-- The windows keep their tags apart. -/
  windows : ∀ a b : BitVec 32, InDram a → InBram b → refillAddr a ≠ refillAddr b

/-- The refill address by the number of the line. -/
theorem toNat_refillAddr (addrOut : BitVec 32) :
    (refillAddr addrOut).toNat = tagAddr (addrOut.toNat / 64 / 16) := by
  rw [refillAddr, toNat_tagAddrConv, isDramAddress_eq, tagAddrConv_eq, toNat_acqAddr]

/-- The set index of the words is the one of the map on numbers. -/
theorem addrToIndex_congr {addr addr' : BitVec 26} (h : addrToIndex g addr = addrToIndex g addr') :
    TagCache.addrToIndex g addr.toNat = TagCache.addrToIndex g addr'.toNat := by
  have hval := congrArg BitVec.toNat h
  simp only [addrToIndex, BitVec.extractLsb'_toNat, Nat.shiftRight_eq_div_pow] at hval
  apply Fin.ext
  simpa only [TagCache.addrToIndex, Fin.val_ofNat] using hval

/-- A line is written back to where it was refilled from. -/
theorem writeBackAddr_storedMeta (hg : g.idxBits ≤ 22) {addrOut later : BitVec 32} (dirty : Bool)
    (hset : addrToIndex g (acqAddr later) = addrToIndex g (acqAddr addrOut)) :
    writeBackAddr (storedMeta g addrOut dirty) later = refillAddr addrOut := by
  -- the entry's tag with the set of the evicting request is the line of the address
  have hline : lineAt (TagCache.addrToIndex g (acqAddr later).toNat)
      (tagOf g (acqAddr addrOut).toNat) = (acqAddr addrOut).toNat / 16 := by
    rw [addrToIndex_congr hset, lineAt_addr]
  have hmeta := metaOf_addrToTag hg (acqAddr addrOut) dirty (isDramAddress addrOut)
  apply eq_of_toNat_eq
  rw [writeBackAddr, storedMeta, toNat_tagAddrConv, toNat_addrFromTag hg, hmeta,
    tagIsDram_addrToTag, toNat_refillAddr]
  have hback := tagAddrConv_addrFromTag (g := g)
    (TagCache.addrToTag g (acqAddr addrOut).toNat dirty (isDramAddress addrOut))
    (acqAddr later).toNat
  simp only [TagCache.addrToTag, hline] at hback ⊢
  rw [hback (by rw [isDramAddress_eq, TagCache.isDramAddress_eq]), toNat_acqAddr]

/-- The lines of the DRAM window are kept at the end of that window. -/
theorem tagAddr_inDram {a : BitVec 32} (h : InDram a) :
    tagAddr (a.toNat / 64 / 16) + 0x100000 = 0x1F00000 + a.toNat / 64 / 16 := by
  obtain ⟨hlo, hhi⟩ := h
  simp only [le_def, lt_def, toNat_ofNat] at hlo hhi
  have hdram : dramLine (a.toNat / 64 / 16) = true := by
    rw [dramLine, beq_iff_eq]
    omega
  rw [tagAddr, if_pos hdram]
  omega

/-- The lines of the boot RAM are kept at the end of the boot RAM. -/
theorem tagAddr_inBram {a : BitVec 32} (h : InBram a) :
    tagAddr (a.toNat / 64 / 16) = 0x3C0 + a.toNat / 64 / 16 ∧ a.toNat / 64 / 16 < 0x40 := by
  simp only [InBram, lt_def, toNat_ofNat] at h
  have hbram : ¬ dramLine (a.toNat / 64 / 16) = true := by
    rw [dramLine, beq_iff_eq]
    omega
  rw [tagAddr, if_neg hbram]
  omega

/-- Lines of either window with the same place are the same. -/
theorem line_eq_of_tagAddr_eq {a b : BitVec 32} (ha : InDram a ∨ InBram a)
    (hb : InDram b ∨ InBram b) (h : tagAddr (a.toNat / 64 / 16) = tagAddr (b.toNat / 64 / 16)) :
    a.toNat / 64 / 16 = b.toNat / 64 / 16 := by
  have ha' := ha.imp tagAddr_inDram tagAddr_inBram
  have hb' := hb.imp tagAddr_inDram tagAddr_inBram
  simp only [InDram, le_def, lt_def, toNat_ofNat] at ha hb
  omega

/-- Blocks with the same place for their tags are the same. -/
theorem acqAddr_eq_of_place {a b : BitVec 32} (ha : InDram a ∨ InBram a)
    (hb : InDram b ∨ InBram b) (hline : refillAddr a = refillAddr b)
    (hslot : slotOf (acqAddr a) = slotOf (acqAddr b)) : acqAddr a = acqAddr b := by
  have hdiv : a.toNat / 64 / 16 = b.toNat / 64 / 16 := by
    apply line_eq_of_tagAddr_eq ha hb
    rw [← toNat_refillAddr, ← toNat_refillAddr, hline]
  have hmod : a.toNat / 64 % 16 = b.toNat / 64 % 16 := by
    have hval := congrArg BitVec.toNat hslot
    simpa only [slotOf, BitVec.extractLsb'_toNat, Nat.shiftRight_zero, toNat_acqAddr] using hval
  apply eq_of_toNat_eq
  rw [toNat_acqAddr, toNat_acqAddr, ← Nat.div_add_mod (a.toNat / 64) 16, hdiv, hmod,
    Nat.div_add_mod]

/-- The address map of the tag cache is injective and stable under eviction, for every number
of sets that leaves room for a tag. -/
theorem address_map_sound (g : Geometry) (hg : g.idxBits ≤ 22) : AddressMapSound g where
  writeBack _ _ dirty hset := writeBackAddr_storedMeta hg dirty hset
  place a b ha hb hne hplace := by
    obtain ⟨hline, hslot⟩ := Prod.mk.inj hplace
    exact hne (acqAddr_eq_of_place ha hb hline hslot)
  windows a b ha hb hline := by
    have hdiv := congrArg BitVec.toNat hline
    rw [toNat_refillAddr, toNat_refillAddr] at hdiv
    have hda := tagAddr_inDram ha
    have hdb := tagAddr_inBram hb
    omega

/-- The 32 sets and two ways of the shipped tag cache. -/
theorem address_map_sound_shipped : AddressMapSound { idxBits := 5, wayBits := 1 } :=
  address_map_sound _ (by decide)

end Word

end TaggedRiscv.TagCache
