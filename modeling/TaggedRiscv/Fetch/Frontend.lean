import TaggedRiscv.Fetch.ICache
import TaggedRiscv.Lib.Machine

/-!
# The front end (`Frontend`)

The front end drives the instruction cache. It goes back to the program counter of stage 2 when
the cache has no answer, and asks for nothing when the next instruction lies in the row the cache
has in stage 2.

The cache does not load its stage 2 while it is stalled, but may mark it as valid then. The front
end never lets that happen: when it stalls the cache, the cache has an answer, or the front end
kills the request (`FetchUnit.Aligned.driven`).
-/

namespace TaggedRiscv.Fetch

open Sync

/-- A prediction; only these fields are read here. -/
structure BTBResp where
  taken : Bool
  mask : BitVec 1
  target : BitVec 39

/-- The registers of the front end. -/
structure Frontend where
  s1Pc' : BitVec 40
  s1SameBlock : Bool
  s2Valid : Bool
  s2Pc : BitVec 40
  s2BtbRespValid : Bool
  s2BtbRespBits : BTBResp
  s2XcptIf : Bool

/-- The answer of the TLB for stage 1. -/
structure TLBAnswer (p : ICacheParams) where
  ppn : BitVec p.ppnBits
  miss : Bool
  xcptIf : Bool

/-- The inputs of a cycle. -/
structure FrontendIn (p : ICacheParams) where
  /-- The program counter the core redirects to. -/
  cpuReq : Option (BitVec 40)
  cpuRespReady : Bool
  invalidate : Bool
  ptwInvalidate : Bool
  btbValid : Bool
  btb : BTBResp
  tlb : TLBAnswer p
  acquireReady : Bool
  grant : Option (GrantBeat p)

/-- What the core gets. -/
structure FrontendResp where
  pc : BitVec 40
  data : BitVec 32
  mask : BitVec 1
  xcptIf : Bool

/-- The front end and its cache. -/
structure FetchUnit (p : ICacheParams) where
  frontend : Frontend
  icache : ICache p

namespace Frontend

/-- `START_ADDR`. -/
def startAddr : BitVec 40 := 0x200

variable (f : Frontend)

/-- The program counter of stage 1, without its low bits. -/
def s1Pc : BitVec 40 := ~~~(~~~f.s1Pc' ||| 3)

def ntpc0 : BitVec 40 := f.s1Pc + 4

def ntpc : BitVec 40 :=
  BitVec.ofBool (f.s1Pc.getLsbD 38 && f.ntpc0.getLsbD 38) ++ f.ntpc0.extractLsb' 2 37 ++ 0#2

def predictedNpc (btb : BTBResp) : BitVec 40 :=
  if btb.taken then BitVec.ofBool (btb.target.getLsbD 38) ++ btb.target else f.ntpc

/-- The registers with a reset value have it. -/
structure Reset : Prop where
  s2Valid : f.s2Valid
  s2Pc : f.s2Pc = startAddr
  s2BtbRespValid : f.s2BtbRespValid = false
  s2XcptIf : f.s2XcptIf = false

end Frontend

namespace FetchUnit

variable {p : ICacheParams} (s : FetchUnit p) (i : FrontendIn p)

def icmiss : Bool := s.frontend.s2Valid && !s.icache.respValid

def npc : BitVec 40 := if s.icmiss then s.frontend.s2Pc else s.frontend.predictedNpc i.btb

/-- The next instruction is in the row of this one. -/
def s0SameBlock : Bool :=
  !s.icmiss && !i.cpuReq.isSome && !i.btb.taken &&
    (s.frontend.ntpc &&& BitVec.ofNat 40 (2 ^ p.rowOffBits)) ==
      (s.frontend.s1Pc &&& BitVec.ofNat 40 (2 ^ p.rowOffBits))

def cpuRespValid : Bool :=
  s.frontend.s2Valid && (s.frontend.s2XcptIf || s.icache.respValid)

def stall : Bool := s.cpuRespValid && !i.cpuRespReady

def cpuNpc : BitVec 40 := i.cpuReq.getD (s.npc i)

def cpuResp : FrontendResp where
  pc := s.frontend.s2Pc
  data := (s.icache.datablock >>>
    ((s.frontend.s2Pc.extractLsb' 2 (p.rowOffBits - 2)).toNat <<< 5)).setWidth 32
  mask := if s.frontend.s2BtbRespValid then 1 &&& s.frontend.s2BtbRespBits.mask else 1
  xcptIf := s.frontend.s2XcptIf

/-- What the cache gets. -/
def icacheIn : ICacheIn p where
  reqValid := !s.stall i && !s.s0SameBlock i
  idx := (s.cpuNpc i).setWidth p.pgIdxBits
  ppn := i.tlb.ppn
  kill := i.cpuReq.isSome || i.tlb.miss || i.tlb.xcptIf || s.icmiss || i.ptwInvalidate
  respReady := !s.stall i && !s.frontend.s1SameBlock
  invalidate := i.invalidate
  acquireReady := i.acquireReady
  grant := i.grant

/-- The registers of the front end when it goes on. -/
def advance : Frontend where
  s1SameBlock := s.s0SameBlock i && !i.tlb.miss
  s1Pc' := s.npc i
  s2Valid := !s.icmiss
  s2Pc := if s.icmiss then s.frontend.s2Pc else s.frontend.s1Pc
  s2BtbRespValid := if s.icmiss then s.frontend.s2BtbRespValid else i.btbValid
  s2BtbRespBits := if !s.icmiss && i.btbValid then i.btb else s.frontend.s2BtbRespBits
  s2XcptIf := if s.icmiss then s.frontend.s2XcptIf else i.tlb.xcptIf

def frontendNext : Frontend :=
  let f := if s.stall i then s.frontend else s.advance i
  match i.cpuReq with
  | some pc => { f with s1SameBlock := false, s1Pc' := pc, s2Valid := false }
  | none => f

def next : FetchUnit p where
  frontend := s.frontendNext i
  icache := s.icache.next (s.icacheIn i)

/-- Front end and cache after reset. -/
structure Reset : Prop where
  frontend : s.frontend.Reset
  icache : s.icache.Reset

end FetchUnit

/-! ## How the front end drives the cache -/

/-- A request that the cache has to hold back is killed or has an answer in front of it, and no
request is sent while one is held back. -/
structure ICache.Driven {p : ICacheParams} (s : ICache p) (i : ICacheIn p) : Prop where
  stalled : i.respReady = false → i.kill = false → s.respValid
  req : i.reqValid → s.s1Valid → i.respReady

namespace FetchUnit

variable {p : ICacheParams} {s : FetchUnit p} {i : FrontendIn p}

/-- Where the front end skips a request, it waits for the row in stage 2 and the cache has nothing
in stage 1. -/
structure Aligned (s : FetchUnit p) : Prop where
  s2Valid : s.frontend.s1SameBlock → s.frontend.s2Valid
  s1Valid : s.frontend.s1SameBlock → s.icache.s1Valid = false

theorem Reset.aligned (h : s.Reset) : s.Aligned where
  s2Valid _ := h.frontend.s2Valid
  s1Valid _ := h.icache.s1Valid

/-- The front end stalls the cache only with something valid in stage 2. -/
theorem Aligned.s2Valid_of_stall (h : s.Aligned) (hstall : (s.icacheIn i).respReady = false) :
    s.frontend.s2Valid := by
  simp only [icacheIn, Bool.and_eq_false_iff, Bool.not_eq_false'] at hstall
  rcases hstall with hstall | hsame
  · simp only [stall, cpuRespValid, Bool.and_eq_true] at hstall
    exact hstall.1.1
  · exact h.s2Valid hsame

theorem Aligned.driven (h : s.Aligned) (i : FrontendIn p) :
    s.icache.Driven (s.icacheIn i) where
  stalled hstall hkill := by
    have hvalid := h.s2Valid_of_stall hstall
    -- without an answer the front end misses, and a miss kills
    simp only [icacheIn, icmiss, hvalid, Bool.or_eq_false_iff, Bool.true_and,
      Bool.not_eq_false'] at hkill
    exact hkill.1.2
  req hreq hs1 := by
    have hsame : s.frontend.s1SameBlock = false := by
      by_contra hsame
      rw [Bool.not_eq_false] at hsame
      rw [h.s1Valid hsame] at hs1
      exact Bool.false_ne_true hs1
    simp only [icacheIn, Bool.and_eq_true] at hreq ⊢
    exact ⟨hreq.1, by simp [hsame]⟩

/-- The next request is skipped in a cycle that skips one, or that stalls with one skipped. -/
theorem sameBlock_next (h : (s.next i).frontend.s1SameBlock) :
    i.cpuReq = none ∧
      (s.stall i ∧ s.frontend.s1SameBlock ∨
        s.stall i = false ∧ s.s0SameBlock i) := by
  cases hreq : i.cpuReq with
  | some pc => simp [next, frontendNext, hreq] at h
  | none =>
    refine ⟨rfl, ?_⟩
    cases hstall : s.stall i with
    | true => exact .inl ⟨rfl, by simpa [next, frontendNext, hreq, hstall] using h⟩
    | false =>
      simp only [next, frontendNext, hreq, hstall, advance, Bool.false_eq_true, if_false,
        Bool.and_eq_true] at h
      exact .inr ⟨rfl, h.1⟩

theorem Aligned.next (h : s.Aligned) (i : FrontendIn p) : (s.next i).Aligned where
  s2Valid hsame := by
    obtain ⟨hreq, ⟨hstall, hold⟩ | ⟨hstall, hskip⟩⟩ := sameBlock_next hsame
    · simp [FetchUnit.next, frontendNext, hreq, hstall, h.s2Valid hold]
    · simp only [s0SameBlock, Bool.and_eq_true] at hskip
      simp [FetchUnit.next, frontendNext, hreq, hstall, advance, hskip.1.1.1]
  s1Valid hsame := by
    have hnoReq : (s.icacheIn i).reqValid = false := by
      obtain ⟨-, ⟨hstall, -⟩ | ⟨-, hskip⟩⟩ := sameBlock_next hsame
      · simp [icacheIn, hstall]
      · simp [icacheIn, hskip]
    have hheld : (s.icache.s1Valid && ICache.stall (s.icacheIn i)) = false := by
      obtain ⟨-, ⟨-, hold⟩ | ⟨hstall, -⟩⟩ := sameBlock_next hsame
      · simp [h.s1Valid hold]
      · -- the cache is stalled by a skipped request only, and has none in stage 1 then
        cases hold : s.frontend.s1SameBlock with
        | true => simp [h.s1Valid hold]
        | false => simp [ICache.stall, icacheIn, hstall, hold]
    simp [FetchUnit.next, ICache.next, hnoReq, hheld]

end FetchUnit

end TaggedRiscv.Fetch
