import TaggedRiscv.Vm.Basic
import TaggedRiscv.Lib.Arbiter

/-!
# The page table walker (`PTW`)

The walker takes one request at a time from its requestors, reads the entries of the levels
through the data cache, skips reads whose entry is in a small cache of table entries, sets
the R and D bits of the leaf by an atomic or, reads it again, and answers.
-/

namespace TaggedRiscv.Vm

open Sync

/-- The states of a walk. -/
inductive PTWState
  | ready | req | wait | setDirty | waitDirty | done | error
  deriving DecidableEq, Repr

/-- The commands of the walker: a read, and an atomic or. -/
inductive MemCmd
  | read | or
  deriving DecidableEq, Repr

variable (p : VmParams)

/-- A request to the cache. -/
structure MemReq where
  addr : BitVec p.paddrBits
  cmd : MemCmd
  data : BitVec p.xLen
  deriving DecidableEq

/-- What comes back from the data cache in a cycle. -/
inductive MemResp
  | idle
  | nack
  | data (d : BitVec p.xLen)
  deriving DecidableEq

/-- The entries of the cache of table entries. -/
def pteCacheSize : ℕ := log2Up (p.pgLevels * 2)

/-- Table entries read before. -/
structure PTECache where
  valid : Fin (pteCacheSize p) → Bool
  tags : Fin (pteCacheSize p) → BitVec p.paddrBits
  data : Fin (pteCacheSize p) → BitVec p.ppnBits
  plru : PseudoLRU

variable (n : ℕ)

/-- The registers of the walker of `n` requestors. -/
structure PTW where
  state : PTWState
  count : ℕ
  rReq : PTWReq p
  rReqDest : Fin n
  rPte : PTE p
  lastGrant : ℕ
  cache : PTECache p

/-- The inputs of a cycle. -/
structure PTWIn where
  req : Fin n → Option (PTWReq p)
  memReady : Bool
  memResp : MemResp p
  ptbr : BitVec p.paddrBits
  invalidate : Bool

variable {p n}

/-- An array after a write; an index out of range writes nothing. -/
def writeAt {m : ℕ} {α : Type} (a : Fin m → α) (r : ℕ) (x : α) : Fin m → α :=
  fun j => if j.val = r then x else a j

namespace PTW

variable (s : PTW p n) (i : PTWIn p n)

/-! ## Requests -/

/-- The index into the table of this level. -/
def vpnIdx : BitVec p.pgLevelBits :=
  (s.rReq.addr >>> ((p.pgLevels - s.count - 1) * p.pgLevelBits)).setWidth p.pgLevelBits

/-- The address of the entry to read. -/
def pteAddr : BitVec p.paddrBits := s.rPte.ppn ++ (s.vpnIdx ++ 0#p.wordOffBits)

/-- The requestor whose request is taken, with the request. -/
def arbFire : Option (Fin n × PTWReq p) :=
  if s.state = .ready then
    (rrSelect (fun j => (i.req j).isSome) s.lastGrant).bind fun j => (i.req j).map (j, ·)
  else none

/-! ## The cache of table entries -/

/-- The cached entry has the address. -/
def hits (j : Fin (pteCacheSize p)) : Bool :=
  s.cache.tags j == s.pteAddr && s.cache.valid j

/-- An entry is cached. -/
def pteCacheHit : Bool := (List.finRange _).any s.hits

/-- The table it points to. -/
def pteCacheData : BitVec p.ppnBits := mux1H s.hits s.cache.data

/-- The entry is skipped. -/
def skip : Bool := s.pteCacheHit && decide (s.count < p.pgLevels - 1)

/-- The entry that a table goes to. -/
def cacheWay : ℕ :=
  if (List.finRange _).all s.cache.valid then
    s.cache.plru.replace (pteCacheSize p) (log2Up (pteCacheSize p))
  else priorityEncoder fun j => !s.cache.valid j

/-- The table entry that is put in the cache. -/
def cacheFill : Option (PTE p) :=
  match i.memResp with
  | .data d => if (PTE.fromBits d).table && !s.pteCacheHit then some (PTE.fromBits d) else none
  | _ => none

/-- The cached entries after a cycle. -/
def cacheNext : PTECache p :=
  { valid :=
      if i.invalidate then fun _ => false
      else match s.cacheFill i with
        | some _ => writeAt s.cache.valid s.cacheWay true
        | none => s.cache.valid
    tags := match s.cacheFill i with
      | some _ => writeAt s.cache.tags s.cacheWay s.pteAddr
      | none => s.cache.tags
    data := match s.cacheFill i with
      | some e => writeAt s.cache.data s.cacheWay e.ppn
      | none => s.cache.data
    plru :=
      if s.pteCacheHit && s.state == .req then
        s.cache.plru.access (pteCacheSize p) (log2Up (pteCacheSize p)) (ohToUInt s.hits)
      else s.cache.plru }

/-! ## Memory -/

/-- The access is allowed. -/
def permOk (e : PTE p) : Bool := e.accessOk s.rReq.prv s.rReq.store s.rReq.fetch

/-- The entry must be marked. -/
def setDirtyBit (e : PTE p) : Bool := s.permOk e && (!e.r || s.rReq.store && !e.d)

/-- The marks. -/
def pteWdata : PTE p := PTE.wdata p s.rReq.store

/-- The request to the data cache. -/
def memReq : Option (MemReq p) :=
  if s.state = .req ∧ s.skip = false ∨ s.state = .setDirty then
    some
      { addr := s.pteAddr
        cmd := if s.state = .setDirty then .or else .read
        data := s.pteWdata.toBits }
  else none

/-- The request that the data cache accepts. -/
def memReqFire : Option (MemReq p) := if i.memReady then s.memReq else none

/-! ## Answers -/

/-- The walk has failed. -/
def respErr : Bool := s.state == .error

/-- The walk is over. -/
def respVal : Bool := s.state == .done || s.respErr

/-- The page that is answered. -/
def rRespPpn : BitVec p.ppnBits := (s.pteAddr >>> p.pgIdxBits).setWidth p.ppnBits

/-- The physical page number: a leaf above the last level takes the low bits from the page. -/
def respPpn : BitVec p.ppnBits :=
  let low := p.pgLevelBits * (p.pgLevels - s.count - 1)
  if s.count < p.pgLevels - 1 then
    ((s.rRespPpn >>> low) ++ s.rReq.addr.setWidth low).setWidth p.ppnBits
  else s.rRespPpn

/-- The answer to a requestor. -/
def resp (j : Fin n) : Option (PTWResp p) :=
  if s.respVal && decide (s.rReqDest = j) then
    some { error := s.respErr, pte := { s.rPte with ppn := s.respPpn } }
  else none

/-! ## The clock edge -/

/-- The state after an entry has been read. -/
def readNext (e : PTE p) : PTWState :=
  if e.leaf then (if s.setDirtyBit e then .setDirty else .done)
  else if e.table && decide (s.count < p.pgLevels - 1) then .req
  else .error

/-- The state after a cycle. -/
def stateNext : PTWState :=
  match s.state with
  | .ready => if (s.arbFire i).isSome then .req else .ready
  | .req => if s.skip then .req else if i.memReady then .wait else .req
  | .wait =>
    match i.memResp with
    | .data d => s.readNext (PTE.fromBits d)
    | .nack => .req
    | .idle => .wait
  | .setDirty => if i.memReady then .waitDirty else .setDirty
  | .waitDirty =>
    match i.memResp with
    | .data _ => .req
    | .nack => .setDirty
    | .idle => .waitDirty
  | .done => .ready
  | .error => .ready

/-- The level after a cycle. -/
def countNext : ℕ :=
  match s.state with
  | .ready => 0
  | .req => if s.skip then s.count + 1 else s.count
  | .wait =>
    match i.memResp with
    | .data d =>
      if (PTE.fromBits d).table && decide (s.count < p.pgLevels - 1) then s.count + 1
      else s.count
    | _ => s.count
  | _ => s.count

/-- The entry after a cycle. -/
def rPteNext : PTE p :=
  match s.state with
  | .ready =>
    if (s.arbFire i).isSome then
      { s.rPte with ppn := (i.ptbr >>> p.pgIdxBits).setWidth p.ppnBits }
    else s.rPte
  | .req => if s.skip then { s.rPte with ppn := s.pteCacheData } else s.rPte
  | .wait =>
    match i.memResp with
    | .data d => if s.setDirtyBit (PTE.fromBits d) then s.rPte else PTE.fromBits d
    | _ => s.rPte
  | _ => s.rPte

/-- The registers after a cycle. -/
def next : PTW p n :=
  { state := s.stateNext i
    count := s.countNext i
    rReq := match s.arbFire i with
      | some (_, q) => q
      | none => s.rReq
    rReqDest := match s.arbFire i with
      | some (j, _) => j
      | none => s.rReqDest
    rPte := s.rPteNext i
    lastGrant := match s.arbFire i with
      | some (j, _) => j
      | none => s.lastGrant
    cache := s.cacheNext i }

/-- The registers after reset; the ones without a reset value hold those of `u`. -/
def reset (u : PTW p n) : PTW p n :=
  { u with state := .ready, lastGrant := 0, cache := { u.cache with valid := fun _ => false } }

end PTW

end TaggedRiscv.Vm
