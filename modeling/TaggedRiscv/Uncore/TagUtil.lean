import TaggedRiscv.Lib.Packed

/-!
# Tagged words (`TagUtil`)

A tagged data line is a packed vector of words, each a tag above its data. The
codec removes, extracts and inserts the tags of a whole line.
-/

namespace TaggedRiscv.TagUtil

open Packed

variable {tagBits dataBits words bytes beats : ℕ}

/-- Remove the tags from a data line. -/
def removeTag (tagData : BitVec (words * (tagBits + dataBits))) : BitVec (words * dataBits) :=
  toBits fun i => (fromBits tagData i).extractLsb' 0 dataBits

/-- Extract the tags from a tagged data line. -/
def extractTag (tagData : BitVec (words * (tagBits + dataBits))) : BitVec (words * tagBits) :=
  toBits fun i => (fromBits tagData i).extractLsb' dataBits tagBits

/-- Insert tags into a data line. -/
def insertTag (rawData : BitVec (words * dataBits)) (tags : BitVec (words * tagBits)) :
    BitVec (words * (tagBits + dataBits)) :=
  toBits fun i => fromBits tags i ++ fromBits rawData i

def insertEmptyTag (tagBits : ℕ) (rawData : BitVec (words * dataBits)) :
    BitVec (words * (tagBits + dataBits)) :=
  insertTag rawData 0

/-- The write mask of a tagged line, from one bit for each byte of data: the tag of a word is
written when any of its bytes is. -/
def insertTagMask (tagBits : ℕ) (mask : BitVec (words * bytes)) :
    BitVec (words * (tagBits + bytes * 8)) :=
  toBits fun i => BitVec.fill tagBits (fromBits mask i != 0) ++ fillInterleaved 8 (fromBits mask i)

/-- The bytes of `new` that a mask selects, and those of `old` elsewhere. -/
def mergeBytes (mask : BitVec (words * bytes)) (old new : BitVec (words * (bytes * 8))) :
    BitVec (words * (bytes * 8)) :=
  toBits fun i => toBits fun b =>
    if (fromBits mask i).getLsbD b then fromBits (fromBits new i) b else fromBits (fromBits old i) b

/-! ## The word level -/

theorem extract_low_append (t : BitVec tagBits) (d : BitVec dataBits) :
    (t ++ d).extractLsb' 0 dataBits = d := by
  apply BitVec.eq_of_getLsbD_eq
  intro i hi
  simp [BitVec.getLsbD_append, hi]

theorem extract_high_append (t : BitVec tagBits) (d : BitVec dataBits) :
    (t ++ d).extractLsb' dataBits tagBits = t := by
  apply BitVec.eq_of_getLsbD_eq
  intro i hi
  simp [BitVec.getLsbD_append, hi]

theorem append_extract (x : BitVec (tagBits + dataBits)) :
    x.extractLsb' dataBits tagBits ++ x.extractLsb' 0 dataBits = x := by
  apply BitVec.eq_of_getLsbD_eq
  intro i hi
  rw [BitVec.getLsbD_append]
  split
  · next h => simp [h]
  · next h =>
    have h' : i - dataBits < tagBits := by omega
    have hi' : dataBits + (i - dataBits) = i := by omega
    simp [h', hi']

/-! ## The codec laws -/

theorem removeTag_insertTag (d : BitVec (words * dataBits)) (t : BitVec (words * tagBits)) :
    removeTag (insertTag d t) = d := by
  simp only [removeTag, insertTag, fromBits_toBits, extract_low_append, toBits_fromBits]

theorem extractTag_insertTag (d : BitVec (words * dataBits)) (t : BitVec (words * tagBits)) :
    extractTag (insertTag d t) = t := by
  simp only [extractTag, insertTag, fromBits_toBits, extract_high_append, toBits_fromBits]

theorem insertTag_removeTag_extractTag (x : BitVec (words * (tagBits + dataBits))) :
    insertTag (removeTag x) (extractTag x) = x := by
  simp only [removeTag, extractTag, insertTag, fromBits_toBits, append_extract, toBits_fromBits]

theorem removeTag_insertEmptyTag (d : BitVec (words * dataBits)) :
    removeTag (insertEmptyTag tagBits d) = d :=
  removeTag_insertTag d 0

/-! ## Masks -/

theorem extract_low_merge (tm : BitVec tagBits) (dm : BitVec dataBits)
    (old new : BitVec (tagBits + dataBits)) :
    (merge (tm ++ dm) old new).extractLsb' 0 dataBits =
      merge dm (old.extractLsb' 0 dataBits) (new.extractLsb' 0 dataBits) := by
  apply BitVec.eq_of_getLsbD_eq
  intro i hi
  rw [getLsbD_merge _ _ _ hi]
  simp [hi, getLsbD_merge _ _ _ (show i < tagBits + dataBits by omega), BitVec.getLsbD_append]

theorem extract_high_merge (tm : BitVec tagBits) (dm : BitVec dataBits)
    (old new : BitVec (tagBits + dataBits)) :
    (merge (tm ++ dm) old new).extractLsb' dataBits tagBits =
      merge tm (old.extractLsb' dataBits tagBits) (new.extractLsb' dataBits tagBits) := by
  apply BitVec.eq_of_getLsbD_eq
  intro i hi
  rw [getLsbD_merge _ _ _ hi]
  simp [hi, getLsbD_merge _ _ _ (show dataBits + i < tagBits + dataBits by omega),
    BitVec.getLsbD_append]

/-- A bit of a word is merged with its byte. -/
theorem getLsbD_mergeBytes (mask : BitVec (words * bytes)) (old new : BitVec (words * (bytes * 8)))
    (i : Fin words) {r : ℕ} (hr : r < bytes * 8) :
    (fromBits (mergeBytes mask old new) i).getLsbD r =
      if (fromBits mask i).getLsbD (r / 8) then (fromBits new i).getLsbD r
      else (fromBits old i).getLsbD r := by
  have hbyte : r / 8 < bytes := Nat.div_lt_of_lt_mul (Nat.mul_comm bytes 8 ▸ hr)
  have hbit : r % 8 < 8 := Nat.mod_lt r (by decide)
  have hr' : r = (⟨r / 8, hbyte⟩ : Fin bytes) * 8 + r % 8 := (Nat.div_add_mod' r 8).symm
  have hword (x : BitVec (words * (bytes * 8))) :
      (fromBits (fromBits x i) (⟨r / 8, hbyte⟩ : Fin bytes)).getLsbD (r % 8) =
        (fromBits x i).getLsbD r := by
    rw [getLsbD_fromBits _ _ hbit, ← hr']
  rw [mergeBytes, fromBits_toBits]
  conv_lhs => rw [hr', getLsbD_toBits _ _ hbit]
  split <;> exact hword _

/-- The data of a merged line is merged byte by byte. -/
theorem removeTag_merge (mask : BitVec (words * bytes))
    (old new : BitVec (words * (tagBits + bytes * 8))) :
    removeTag (merge (insertTagMask tagBits mask) old new) =
      mergeBytes mask (removeTag old) (removeTag new) := by
  apply ext_fromBits
  intro i
  simp only [removeTag, mergeBytes, fromBits_toBits, fromBits_merge, insertTagMask,
    extract_low_merge]
  apply ext_fromBits
  intro b
  rw [fromBits_merge, fromBits_fillInterleaved, merge_fill, fromBits_toBits]

/-- The tag of a merged word is the new one if any of its bytes is selected. -/
theorem extractTag_merge (mask : BitVec (words * bytes))
    (old new : BitVec (words * (tagBits + bytes * 8))) (i : Fin words) :
    fromBits (extractTag (merge (insertTagMask tagBits mask) old new)) i =
      if fromBits mask i ≠ 0 then fromBits (extractTag new) i else fromBits (extractTag old) i := by
  simp only [extractTag, fromBits_toBits, fromBits_merge, insertTagMask, extract_high_merge,
    merge_fill, bne_iff_ne]

/-! ## Blocks of several beats -/

/-- A beat of a block with tags inserted is the beat with its own tags inserted. -/
theorem fromBits_group_insertTag (d : BitVec (beats * words * dataBits))
    (t : BitVec (beats * words * tagBits)) (j : Fin beats) :
    fromBits (group (insertTag d t)) j =
      insertTag (fromBits (group d) j) (fromBits (group t) j) := by
  apply ext_fromBits
  intro k
  simp only [fromBits_group, insertTag, fromBits_toBits]

/-- Removing the tags beat by beat removes them from the block. -/
theorem toBits_removeTag (b : Fin beats → BitVec (words * (tagBits + dataBits))) :
    flatten (toBits fun j => removeTag (b j)) = removeTag (flatten (toBits b)) := by
  apply ext_fromBits
  intro i
  obtain ⟨⟨j, k⟩, rfl⟩ := finProdFinEquiv.surjective i
  simp only [fromBits_flatten, removeTag, fromBits_toBits]

/-! ## The laws together -/

theorem ne_zero_iff_getLsbD {w : ℕ} {x : BitVec w} : x ≠ 0 ↔ ∃ b < w, x.getLsbD b := by
  constructor
  · intro hne
    by_contra hnone
    push Not at hnone
    apply hne
    apply BitVec.eq_of_getLsbD_eq
    intro b hb
    simpa using hnone b hb
  · rintro ⟨b, -, hb⟩ rfl
    simp at hb

/-- The codec is a bijection between tagged lines and pairs of data and tags; it works beat by
beat; and a merge under `insertTagMask` merges the data byte by byte and takes the new tag of
exactly the words with a selected byte. -/
theorem codec_laws (tagBits bytes words beats : ℕ) :
    (∀ (d : BitVec (words * (bytes * 8))) (t : BitVec (words * tagBits)),
      removeTag (insertTag d t) = d ∧ extractTag (insertTag d t) = t) ∧
    (∀ x : BitVec (words * (tagBits + bytes * 8)), insertTag (removeTag x) (extractTag x) = x) ∧
    (∀ (d : BitVec (beats * words * (bytes * 8))) (t : BitVec (beats * words * tagBits))
      (j : Fin beats), fromBits (group (insertTag d t)) j =
        insertTag (fromBits (group d) j) (fromBits (group t) j)) ∧
    ∀ (mask : BitVec (words * bytes)) (old new : BitVec (words * (tagBits + bytes * 8))),
      let m := insertTagMask tagBits mask
      let merged := (old &&& ~~~m) ||| (new &&& m)
      removeTag merged = mergeBytes mask (removeTag old) (removeTag new) ∧
        ∀ i, fromBits (extractTag merged) i =
          if ∃ b < bytes, (fromBits mask i).getLsbD b = true then fromBits (extractTag new) i
          else fromBits (extractTag old) i := by
  refine ⟨fun d t => ⟨removeTag_insertTag d t, extractTag_insertTag d t⟩,
    insertTag_removeTag_extractTag, fromBits_group_insertTag, fun mask old new => ?_⟩
  intro m merged
  refine ⟨removeTag_merge mask old new, fun i => ?_⟩
  rw [← if_congr ne_zero_iff_getLsbD rfl rfl]
  exact extractTag_merge mask old new i

end TaggedRiscv.TagUtil
