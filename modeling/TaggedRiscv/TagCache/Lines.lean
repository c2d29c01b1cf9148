import TaggedRiscv.TagCache.Basic

/-!
# Tag lines

The blocks that clients use and the tag lines that describe them. A tag line is
known by its number, the block address without the four bits that select a slot of
the line; the set index and the tag of the cache are the low and the high part of
that number.
-/

namespace TaggedRiscv.TagCache

/-- A block of the DRAM window or of the boot RAM that is not in a tag partition. -/
def InWindow (addr : ℕ) : Prop :=
  (0x1000000 ≤ addr ∧ addr < 0x1F00000) ∨ addr < 0x3C0
deriving Decidable

/-- The line of such a block. -/
def DataLine (l : ℕ) : Prop := (0x100000 ≤ l ∧ l < 0x1F0000) ∨ l < 0x3C
deriving Decidable

theorem dataLine_of_inWindow {addr : ℕ} (h : InWindow addr) : DataLine (addr / 16) := by
  unfold InWindow at h
  unfold DataLine
  omega

/-- A line of the DRAM. -/
def dramLine (l : ℕ) : Bool := l / 2 ^ 20 % 2 == 1

/-- The block of the tag partition that holds a line. -/
def tagAddr (l : ℕ) : ℕ := if dramLine l then 0x1F00000 + l % 2 ^ 20 else 0x3C0 + l % 2 ^ 6

theorem isDramAddress_eq (addr : ℕ) : isDramAddress addr = dramLine (addr / 16) := by
  unfold isDramAddress dramLine
  rw [Nat.div_div_eq_div_mul, show 16 * 2 ^ 20 = 2 ^ 24 by norm_num]

/-- The address from which the line of a block is refilled. -/
theorem tagAddrConv_eq (addr : ℕ) :
    tagAddrConv addr (isDramAddress addr) = tagAddr (addr / 16) := by
  rw [tagAddrConv, tagAddr, isDramAddress_eq]

theorem dramLine_of_dataLine {l : ℕ} (h : DataLine l) : dramLine l = decide (0x100000 ≤ l) := by
  unfold DataLine at h
  unfold dramLine
  rw [Bool.eq_iff_iff, beq_iff_eq, decide_eq_true_iff]
  omega

/-- Different lines are kept in different blocks. -/
theorem tagAddr_inj {l l' : ℕ} (h : DataLine l) (h' : DataLine l') (he : tagAddr l = tagAddr l') :
    l = l' := by
  simp only [tagAddr, dramLine_of_dataLine h, dramLine_of_dataLine h', decide_eq_true_iff] at he
  unfold DataLine at h h'
  split_ifs at he <;> omega

/-- Tag lines are kept in the tag partitions. -/
theorem not_inWindow_tagAddr {l : ℕ} (h : DataLine l) : ¬ InWindow (tagAddr l) := by
  simp only [tagAddr, dramLine_of_dataLine h, decide_eq_true_iff]
  unfold DataLine at h
  unfold InWindow
  split_ifs <;> omega

/-! ## Sets and tags -/

section Sets

variable {g : Geometry}

/-- The line with the given set and tag. -/
def lineAt (idx : Fin g.nSets) (tag : ℕ) : ℕ := tag * g.nSets + idx

theorem lineAt_addr (addr : ℕ) : lineAt (addrToIndex g addr) (tagOf g addr) = addr / 16 := by
  have hdiv : addr / (16 * g.nSets) = addr / 16 / g.nSets := by rw [Nat.div_div_eq_div_mul]
  simp only [lineAt, addrToIndex, tagOf, Fin.val_ofNat, hdiv]
  exact Nat.div_add_mod' (addr / 16) g.nSets

theorem lineAt_inj {idx idx' : Fin g.nSets} {tag tag' : ℕ}
    (h : lineAt idx tag = lineAt idx' tag') : idx = idx' ∧ tag = tag' := by
  unfold lineAt at h
  have hmod := congrArg (· % g.nSets) h
  have hdiv := congrArg (· / g.nSets) h
  have hpos : 0 < g.nSets := Nat.two_pow_pos _
  simp only [Nat.mul_comm _ g.nSets, Nat.mul_add_mod, Nat.mod_eq_of_lt idx.isLt,
    Nat.mod_eq_of_lt idx'.isLt] at hmod
  simp only [Nat.mul_comm _ g.nSets, Nat.mul_add_div hpos, Nat.div_eq_of_lt idx.isLt,
    Nat.div_eq_of_lt idx'.isLt, Nat.add_zero] at hdiv
  exact ⟨Fin.ext hmod, hdiv⟩

/-- A block address in the line of a metadata entry, up to the dirty bit on top. -/
theorem addrFromTag_div (m : Meta) (addr : ℕ) :
    addrFromTag g m addr / 16 = m.dirty.toNat * 2 ^ 22 + lineAt (addrToIndex g addr) m.tag := by
  have hlow : addr % (16 * g.nSets) / 16 = addr / 16 % g.nSets := Nat.mod_mul_right_div_self ..
  have hsum : addrFromTag g m addr =
      16 * (m.dirty.toNat * 2 ^ 22 + m.tag * g.nSets) + addr % (16 * g.nSets) := by
    unfold addrFromTag
    ring
  rw [hsum, Nat.mul_add_div (by decide), hlow, lineAt, addrToIndex, Fin.val_ofNat, Nat.add_assoc]

/-- An entry with the right DRAM bit is written back to where its line is kept. -/
theorem tagAddrConv_addrFromTag (m : Meta) (addr : ℕ)
    (hd : m.dram = dramLine (lineAt (addrToIndex g addr) m.tag)) :
    tagAddrConv (addrFromTag g m addr) m.dram = tagAddr (lineAt (addrToIndex g addr) m.tag) := by
  -- the dirty bit is above what either partition keeps of the address
  have h20 : ∀ l, (m.dirty.toNat * 2 ^ 22 + l) % 2 ^ 20 = l % 2 ^ 20 := fun l => by omega
  have h6 : ∀ l, (m.dirty.toNat * 2 ^ 22 + l) % 2 ^ 6 = l % 2 ^ 6 := fun l => by omega
  rw [tagAddrConv, addrFromTag_div, h20, h6, hd, tagAddr]

end Sets

end TaggedRiscv.TagCache
