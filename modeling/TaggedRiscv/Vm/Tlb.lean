import TaggedRiscv.Vm.Basic
import TaggedRiscv.Lib.Machine

/-!
# The TLB (`TLB`, `RocketCAM`)

A miss asks the page table walker and installs its answer. An entry is cleared by an access to the
TLB when its answer was an error, or when the access is a store to it that has to set its dirty
bit; all entries are cleared by `invalidate`, and a walk that is under way then is not installed.
-/

namespace TaggedRiscv.Vm

open Sync

/-- The states of a refill. -/
inductive TLBState
  | ready | request | wait | waitInvalidate
  deriving DecidableEq, Repr

variable (p : VmParams)

/-- A request of the core. -/
structure TLBReq where
  asid : BitVec p.asIdBits
  vpn : BitVec (p.vpnBits + 1)
  passthrough : Bool
  instruction : Bool
  store : Bool
  deriving DecidableEq

/-- The fields of the status register that a lookup reads. -/
structure Status where
  mprv : Bool
  prv : BitVec 2
  prv1 : BitVec 2
  vm : BitVec 5
  deriving DecidableEq

/-- The answer to it. -/
structure TLBResp where
  miss : Bool
  ppn : BitVec p.ppnBits
  xcptLd : Bool
  xcptSt : Bool
  xcptIf : Bool
  deriving DecidableEq

/-- The width of the tags in the CAM. -/
def VmParams.camTagBits : ℕ := p.asIdBits + p.vpnBits

variable (k : ℕ)

/-- The registers of a TLB with `2 ^ k` entries. -/
structure TLB where
  state : TLBState
  rRefillTag : BitVec (p.asIdBits + (p.vpnBits + 1))
  rRefillWaddr : Fin (2 ^ k)
  rReq : TLBReq p
  camTags : Fin (2 ^ k) → BitVec p.camTagBits
  vbArray : Fin (2 ^ k) → Bool
  tagRam : Fin (2 ^ k) → BitVec p.ppnBits
  validArray : Fin (2 ^ k) → Bool
  urArray : Fin (2 ^ k) → Bool
  uwArray : Fin (2 ^ k) → Bool
  uxArray : Fin (2 ^ k) → Bool
  srArray : Fin (2 ^ k) → Bool
  swArray : Fin (2 ^ k) → Bool
  sxArray : Fin (2 ^ k) → Bool
  dirtyArray : Fin (2 ^ k) → Bool
  plru : PseudoLRU

/-- The inputs of a cycle. The request's signals are there also when it is not valid. -/
structure TLBIn where
  req : TLBReq p
  reqValid : Bool
  ptwReqReady : Bool
  ptwResp : Option (PTWResp p)
  status : Status
  invalidate : Bool

variable {p k}

namespace TLB

variable (s : TLB p k) (i : TLBIn p)

/-! ## The lookup -/

/-- What an entry is found by. -/
def lookupTag : BitVec (p.asIdBits + (p.vpnBits + 1)) := i.req.asid ++ i.req.vpn

/-- The entries whose tag is looked up. The tag is cut to the width of the CAM. -/
def hits (e : Fin (2 ^ k)) : Bool :=
  s.vbArray e && s.camTags e == (lookupTag i).setWidth p.camTagBits

/-- Some entry is set in a vector. -/
def orR (v : Fin (2 ^ k) → Bool) : Bool := (List.finRange (2 ^ k)).any v

/-- The privilege the access counts as. -/
def priv : BitVec 2 :=
  if i.status.mprv && !i.req.instruction then i.status.prv1 else i.status.prv

/-- Supervisor mode. -/
def privS : Bool := priv i == 1

/-- The privilege is translated. -/
def privUsesVm : Bool := decide (priv i ≤ 1)

/-- Which entries allow reads. -/
def rArray (e : Fin (2 ^ k)) : Bool := if privS i then s.srArray e else s.urArray e

/-- Which allow writes. -/
def wArray (e : Fin (2 ^ k)) : Bool := if privS i then s.swArray e else s.uwArray e

/-- Which allow fetches. -/
def xArray (e : Fin (2 ^ k)) : Bool := if privS i then s.sxArray e else s.uxArray e

/-- The access is translated. -/
def vmEnabled : Bool := i.status.vm.getLsbD 3 && privUsesVm i

/-- The address is not sign extended. -/
def badVa : Bool := i.req.vpn.getLsbD p.vpnBits != i.req.vpn.getLsbD (p.vpnBits - 1)

/-- The hits, where a store to a writable entry also needs the dirty bit. -/
def tagHits (e : Fin (2 ^ k)) : Bool :=
  s.hits i e && (s.dirtyArray e || !(i.req.store && s.wArray i e))

/-- Some entry is found. -/
def tagHit : Bool := orR (s.tagHits i)

/-- A translation is found. -/
def tlbHit : Bool := vmEnabled i && s.tagHit i

/-- A translation is missing. -/
def tlbMiss : Bool := vmEnabled i && !s.tagHit i && !badVa i

/-- The answer. -/
def resp : TLBResp p :=
  { miss := s.tlbMiss i
    ppn :=
      if vmEnabled i && !i.req.passthrough then mux1H (s.hits i) s.tagRam
      else i.req.vpn.setWidth p.ppnBits
    xcptLd := badVa i || s.tlbHit i && !orR fun e => s.rArray i e && s.hits i e
    xcptSt := badVa i || s.tlbHit i && !orR fun e => s.wArray i e && s.hits i e
    xcptIf := badVa i || s.tlbHit i && !orR fun e => s.xArray i e && s.hits i e }

/-! ## Refills -/

/-- No refill is going on. -/
def reqReady : Bool := s.state == .ready

/-- A request is taken. -/
def reqFire : Bool := i.reqValid && s.reqReady

/-- The entry that a refill goes to. -/
def replWaddr : Fin (2 ^ k) :=
  if orR fun e => !s.vbArray e then
    Fin.ofNat (2 ^ k) (priorityEncoder fun e => !s.vbArray e)
  else Fin.ofNat (2 ^ k) (s.plru.replace (2 ^ k) k)

/-- The request to the walker. -/
def ptwReq : Option (PTWReq p) :=
  if s.state = .request then
    some
      { addr := s.rRefillTag.setWidth p.vpnBits
        prv := i.status.prv
        store := s.rReq.store
        fetch := s.rReq.instruction }
  else none

/-- The request that the walker accepts. -/
def ptwReqFire : Option (PTWReq p) := if i.ptwReqReady then s.ptwReq i else none

/-- The walker has answered. -/
def camWrite : Bool := s.state == .wait && i.ptwResp.isSome

/-- Entries are invalidated. -/
def camClear : Bool := i.invalidate || s.reqFire i

/-- These. -/
def camClearMask (e : Fin (2 ^ k)) : Bool :=
  if i.invalidate then true else !s.validArray e || s.hits i e && !s.tagHits i e

/-- A bit array after a cycle: the answer of a walk is written to the refilled entry. -/
def refill {α : Type} (a : Fin (2 ^ k) → α) (f : PTWResp p → α) : Fin (2 ^ k) → α :=
  match i.ptwResp with
  | some r => Function.update a s.rRefillWaddr (f r)
  | none => a

/-- The state after a cycle. -/
def stateNext : TLBState :=
  if i.ptwResp.isSome then .ready
  else match s.state with
    | .ready => if s.reqFire i && s.tlbMiss i then .request else .ready
    | .request =>
      if i.ptwReqReady then (if i.invalidate then .waitInvalidate else .wait)
      else if i.invalidate then .ready else .request
    | .wait => if i.invalidate then .waitInvalidate else .wait
    | .waitInvalidate => .waitInvalidate

/-- The registers after a cycle. A clear of the CAM goes before a write to it. -/
def next : TLB p k :=
  { state := s.stateNext i
    rRefillTag := if s.reqFire i && s.tlbMiss i then lookupTag i else s.rRefillTag
    rRefillWaddr := if s.reqFire i && s.tlbMiss i then s.replWaddr else s.rRefillWaddr
    rReq := if s.reqFire i && s.tlbMiss i then i.req else s.rReq
    camTags :=
      if s.camWrite i then
        Function.update s.camTags s.rRefillWaddr (s.rRefillTag.setWidth p.camTagBits)
      else s.camTags
    vbArray :=
      if s.camClear i then fun e => s.vbArray e && !s.camClearMask i e
      else if s.camWrite i then Function.update s.vbArray s.rRefillWaddr true
      else s.vbArray
    tagRam := s.refill i s.tagRam fun r => r.pte.ppn
    validArray := s.refill i s.validArray fun r => !r.error
    urArray := s.refill i s.urArray fun r => r.pte.ur && !r.error
    uwArray := s.refill i s.uwArray fun r => r.pte.uw && !r.error
    uxArray := s.refill i s.uxArray fun r => r.pte.ux && !r.error
    srArray := s.refill i s.srArray fun r => r.pte.sr && !r.error
    swArray := s.refill i s.swArray fun r => r.pte.sw && !r.error
    sxArray := s.refill i s.sxArray fun r => r.pte.sx && !r.error
    dirtyArray := s.refill i s.dirtyArray fun r => r.pte.d
    plru :=
      if i.reqValid && s.tlbHit i then s.plru.access (2 ^ k) k (ohToUInt (s.hits i)) else s.plru }

/-- The registers after reset; the ones without a reset value hold those of `u`. -/
def reset (u : TLB p k) : TLB p k :=
  { u with state := .ready, vbArray := fun _ => false }

end TLB

end TaggedRiscv.Vm
