import TaggedRiscv.Lib.Select
import TaggedRiscv.TagCache.Tracker

/-!
# The arrays of the tag cache (`TagCacheMetadataArray`, `TagCacheDataArray`)

Both arrays are synchronous memories with one port: a read waits while a write goes on. The metadata
array answers two cycles after a read, the data array one.
-/

namespace TaggedRiscv.TagCache

open Packed Sync

variable {n : ℕ} {g : Geometry}

/-! ## Metadata -/

structure MetaReadReq (n : ℕ) (g : Geometry) where
  id : Fin n
  tag : Meta
  idx : Fin g.nSets

structure MetaWriteReq (g : Geometry) where
  tag : Meta
  idx : Fin g.nSets
  wayEn : Fin g.nWays → Bool

/-- The metadata array. Stage 1 holds the request and stage 2 what was found; stage 2
keeps its contents until the next read arrives. `s1` is `none` until the first
read, when nothing has been latched. -/
structure MetaArray (n : ℕ) (g : Geometry) where
  metaArray : Fin g.nSets → Fin g.nWays → Meta
  rstCnt : ℕ
  s1ClkEn : Bool
  s1 : Option (MetaReadReq n g)
  s2Valid : Bool
  s2Id : Option (Fin n)
  s2Hit : Bool
  s2MatchWay : Fin g.nWays → Bool
  s2MatchMeta : Meta
  s2ReplaceWay : Fin g.nWays → Bool
  s2ReplaceMeta : Meta

namespace MetaArray

variable (a : MetaArray n g)

/-- The reset sweep is still going on. -/
def rst : Bool := decide (a.rstCnt < g.nSets)

/-- The ways whose entry is valid and has the requested tag. -/
def matchWay (ctags : Fin g.nWays → Meta) (tag : ℕ) : Fin g.nWays → Bool :=
  fun w => (ctags w).tag == tag && (ctags w).valid

/-- Some way matches. -/
def isHit (ctags : Fin g.nWays → Meta) (tag : ℕ) : Bool :=
  (List.finRange g.nWays).any (matchWay ctags tag)

/-- The entry selected by the way number. -/
def entryAt (ctags : Fin g.nWays → Meta) (way : ℕ) : Meta := ctags (Fin.ofNat g.nWays way)

/-- The response: the matching way, or the way to replace. -/
def resp : MetaResp g :=
  { hit := a.s2Hit
    wayEn := if a.s2Hit then a.s2MatchWay else a.s2ReplaceWay
    tag := if a.s2Hit then a.s2MatchMeta else a.s2ReplaceMeta }

/-- The response belongs to a tracker. -/
def respValidFor (k : Fin n) : Bool := a.s2Valid && a.s2Id == some k

/-- The array after a cycle with the given write and read requests, where `way` is
the replacer's choice. -/
def next (write : Option (MetaWriteReq g)) (read : Option (MetaReadReq n g))
    (way : Fin g.nWays) : MetaArray n g :=
  { metaArray :=
      if a.rst then
        fun idx => if idx.val = a.rstCnt then fun _ => ⟨false, false, false, 0⟩
          else a.metaArray idx
      else match write with
        | some w =>
          Function.update a.metaArray w.idx fun v =>
            if w.wayEn v then w.tag else a.metaArray w.idx v
        | none => a.metaArray
    rstCnt := if a.rst then a.rstCnt + 1 else a.rstCnt
    -- a read that is asked for is latched, but counts only once it is served
    s1ClkEn := read.isSome && !a.rst && write.isNone
    s1 := read <|> a.s1
    s2Valid := a.s1ClkEn
    s2Id := if a.s1ClkEn then a.s1.map (·.id) else a.s2Id
    s2Hit :=
      match a.s1ClkEn, a.s1 with
      | true, some r => isHit (a.metaArray r.idx) r.tag.tag
      | _, _ => a.s2Hit
    s2MatchWay :=
      match a.s1ClkEn, a.s1 with
      | true, some r => matchWay (a.metaArray r.idx) r.tag.tag
      | _, _ => a.s2MatchWay
    s2MatchMeta :=
      match a.s1ClkEn, a.s1 with
      | true, some r =>
        entryAt (a.metaArray r.idx) (ohToUInt (matchWay (a.metaArray r.idx) r.tag.tag))
      | _, _ => a.s2MatchMeta
    s2ReplaceWay :=
      match a.s1ClkEn, a.s1 with
      | true, some _ => uintToOH way
      | _, _ => a.s2ReplaceWay
    s2ReplaceMeta :=
      match a.s1ClkEn, a.s1 with
      | true, some r => a.metaArray r.idx way
      | _, _ => a.s2ReplaceMeta }

end MetaArray

/-! ## Data -/

structure DataReadReq (n : ℕ) (g : Geometry) where
  id : Fin n
  idx : Fin g.nSets
  row : Fin 4
  wayEn : Fin g.nWays → Bool

structure DataWriteReq (g : Geometry) where
  data : Raw
  idx : Fin g.nSets
  row : Fin 4
  wayEn : Fin g.nWays → Bool
  wmask : Fin 4 → Bool

/-- The data array: the rows of every way and the latched read. -/
structure DataArray (n : ℕ) (g : Geometry) where
  array : Fin g.nWays → Fin g.nSets → Fin 4 → Row
  rValid : Bool
  rReq : Option (DataReadReq n g)

namespace DataArray

variable (a : DataArray n g)

/-- The response: the row of the way read in the last cycle. -/
def resp : Raw :=
  match a.rReq with
  | some r => mux1H r.wayEn fun w => rowBits (a.array w r.idx r.row)
  | none => 0

/-- The response belongs to a tracker. -/
def respValidFor (k : Fin n) : Bool := a.rValid && a.rReq.map (·.id) == some k

/-- The slots of a row after a masked write. -/
def writeRow (old new : Row) (wmask : Fin 4 → Bool) : Row :=
  fun k => if wmask k then new k else old k

/-- The array after a cycle with the given write and read requests. -/
def next (write : Option (DataWriteReq g)) (read : Option (DataReadReq n g)) : DataArray n g :=
  { array :=
      match write with
      | some w => fun v =>
        if w.wayEn v then
          Function.update (a.array v) w.idx
            (Function.update (a.array v w.idx) w.row
              (writeRow (a.array v w.idx w.row) (rowOf w.data) w.wmask))
        else a.array v
      | none => a.array
    rValid := read.isSome && write.isNone
    -- without a request the address register latches a value nobody looks at
    rReq := read <|> a.rReq }

end DataArray

end TaggedRiscv.TagCache
