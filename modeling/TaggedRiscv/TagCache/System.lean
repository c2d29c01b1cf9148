import TaggedRiscv.TagCache.Registers

/-!
# The tag cache with its memory

The memory behind the tag cache stores blocks of four beats without tags. It answers
a `GetBlock` with the four beats of the block in order, and acknowledges a
`PutBlock` when it has got and stored four beats. When it takes a request and when
it answers, and in which order it answers different trackers, is up to the
environment; an answer comes at the earliest in the cycle after the request.
-/

namespace TaggedRiscv.TagCache

open Sync TagUtil

variable {n : ℕ} {g : Geometry}

/-- The memory's side of a tracker's requests: nothing open, a block of which some
beats have arrived, an acknowledgement due, or beats of a block due. -/
inductive Port
  | idle
  | put (addr : ℕ) (cnt : Fin 4) (buf : Fin 4 → Raw)
  | ack
  | get (addr : ℕ) (cnt : Fin 4)

namespace Port

/-- The port after the memory has taken a request. -/
def request (p : Port) : OutMsg → Port
  | .putBlock _ addr data =>
    match p with
    | put addr' cnt buf =>
      if cnt = 3 then ack else put addr' (cnt + 1) (Function.update buf cnt (removeTag data))
    | _ => put addr 1 (Function.update (fun _ => 0) 0 (removeTag data))
  | .getBlock _ addr => get addr 0

/-- The block that a request completes. -/
def written (p : Port) : OutMsg → Option (ℕ × (Fin 4 → Raw))
  | .putBlock _ _ data =>
    match p with
    | put addr cnt buf =>
      if cnt = 3 then some (addr, Function.update buf cnt (removeTag data)) else none
    | _ => none
  | .getBlock _ _ => none

/-- The port after the tracker has taken an answer. -/
def answer : Port → Port
  | get addr cnt => if cnt = 3 then idle else get addr (cnt + 1)
  | _ => idle

/-- An answer is due. -/
def due : Port → Bool
  | ack => true
  | get _ _ => true
  | _ => false

/-- The data of the answer that is due. -/
def data (p : Port) (mem : ℕ → Fin 4 → Raw) : Beat :=
  match p with
  | get addr cnt => insertEmptyTag 4 (mem addr cnt)
  | _ => 0

end Port

/-- The tag cache and the memory. -/
structure Sys (n : ℕ) (g : Geometry) where
  cache : TagCache n g
  mem : ℕ → Fin 4 → Raw
  port : Fin n → Port

/-- What the environment decides in a cycle. -/
structure SysIn (n : ℕ) (g : Geometry) where
  acquire : Chan AcquireMsg
  release : Chan ReleaseMsg
  phyAddrAcq : ℕ
  phyAddrRel : ℕ
  grantReady : Bool
  outAcquireReady : Bool
  answer : Option (Fin n)
  replaceWay : Fin g.nWays

namespace Sys

variable (s : Sys n g) (i : SysIn n g)

def cacheIn : CacheIn n g :=
  { acquire := i.acquire
    release := i.release
    phyAddrAcq := i.phyAddrAcq
    phyAddrRel := i.phyAddrRel
    grantReady := i.grantReady
    outAcquireReady := i.outAcquireReady
    outGrant := i.answer.map fun k => (k, (s.port k).data s.mem)
    replaceWay := i.replaceWay }

abbrev tracker (k : Fin n) : Tracker g := s.cache.tracker k

/-- What a tracker sees. -/
abbrev trackerIn (k : Fin n) : TrackerIn g := s.cache.trackerIn (s.cacheIn i) k

/-- A tracker's request to the memory. -/
abbrev outBits (k : Fin n) : OutMsg := s.cache.outBits (s.cacheIn i) k

/-- The block that the memory gets in a cycle, with its address. -/
def stored : Option (ℕ × (Fin 4 → Raw)) :=
  (s.cache.outServed (s.cacheIn i)).bind fun k => (s.port k).written (s.outBits i k)

/-- The system after a clock edge. -/
def next : Sys n g :=
  { cache := s.cache.next (s.cacheIn i)
    mem :=
      match s.stored i with
      | some (addr, block) => Function.update s.mem addr block
      | none => s.mem
    port := fun k =>
      if (s.tracker k).outAcquireFire (s.trackerIn i k) then (s.port k).request (s.outBits i k)
      else if (s.tracker k).outGrantFire (s.trackerIn i k) then (s.port k).answer
      else s.port k }

/-- The memory answers only what is due. -/
def MemoryOk : Prop := ∀ k, i.answer = some k → (s.port k).due = true
deriving Decidable

/-- The tag cache after reset, in front of a memory with the given contents. -/
def reset (u : TagCache n g) (mem : ℕ → Fin 4 → Raw) : Sys n g :=
  { cache := u.reset, mem := mem, port := fun _ => .idle }

end Sys

end TaggedRiscv.TagCache
