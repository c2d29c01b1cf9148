import TaggedRiscv.Uncore.Messages
import TaggedRiscv.Lib.Machine

/-!
# The TileLink to NASTI-Lite converter (`NASTILiteMasterIOTileLinkIOConverter`)

The converter serves one acquire at a time with one or two 32-bit accesses. A state
machine for requests sends them and then accepts the acquire; a second one for responses
waits for the answers and sends the grant. The registers that describe the transaction
are loaded whenever an acquire is valid, and the acquire's own signals are read for as
long as the accesses last.
-/

namespace TaggedRiscv

variable {c : TLParams}

/-! ## Words of a beat -/

/-- The number of 32-bit words of a beat. -/
def TLParams.liteXacts (c : TLParams) : ℕ := 2 ^ (c.byteAddrBits - 2)

namespace Acquire

variable (a : Acquire c)

/-- A put writes to a word of the beat. -/
def wmasksBv (k : ℕ) : Bool := (List.range 4).any fun j => a.wmask (4 * k + j)

/-- The first word that a put writes to, or else the last one. -/
def waddrByte : ℕ := ((List.range c.liteXacts).find? a.wmasksBv).getD (c.liteXacts - 1)

/-- The address of the first word that a put writes to. -/
def waddr : ℕ :=
  ((a.addrBlock.toNat * 2 ^ c.beatAddrBits + a.addrBeat.toNat) * c.liteXacts + a.waddrByte) * 4

/-- A put writes to the other word of a pair too. -/
def doubleWrite : Bool := a.waddrByte % 2 == 0 && a.wmasksBv (a.waddrByte ||| 1)

end Acquire

namespace Nasti

/-! ## The converter -/

/-- The states of the request side. -/
inductive TState
  | idle | req0 | req1 | busy
  deriving DecidableEq, Repr

/-- The states of the response side. -/
inductive RState
  | idle | resp0 | resp1 | grant
  deriving DecidableEq, Repr

/-- The operand size of 8 bytes. -/
def MT_D : BitVec 4 := 3

variable (c) in
/-- The registers of the converter. -/
structure Lite where
  tState : TState
  rState : RState
  clientId : BitVec c.clientIdBits
  clientXactId : BitVec c.clientXactIdBits
  grantType : BuiltInGrant
  opSize : BitVec 4
  addrHigh : Bool
  dataBuf : BitVec 32
  awFire : Bool
  wFire : Bool

variable (c) in
/-- The inputs of a cycle. The signals of the acquire channel are there also when it is
not valid. -/
structure LiteIn where
  acquire : AcquireFromSrc c
  acquireValid : Bool
  grantReady : Bool
  awReady : Bool
  wReady : Bool
  arReady : Bool
  bValid : Bool
  rValid : Bool
  rData : BitVec 32

namespace Lite

variable (s : Lite c) (i : LiteIn c)

/-! ### Outputs -/

def acquireReady : Bool := s.tState == .busy && i.acquireValid

def grantValid : Bool := s.rState == .grant

/-- The data of a grant: two words, aligned to 8 bytes. -/
def grantData : BitVec 64 :=
  (if s.opSize = MT_D then i.rData else if s.addrHigh then s.dataBuf else 0) ++
    (if s.addrHigh then 0 else s.dataBuf)

def grant : GrantToDst c :=
  { clientId := s.clientId
    isBuiltinType := true
    gType := BitVec.ofNat _ s.grantType.code
    clientXactId := s.clientXactId
    managerXactId := 0
    addrBeat := 0
    data := if s.grantType = .putAckType then 0 else (s.grantData i).setWidth _ }

def grantFire : Bool := s.grantValid && i.grantReady

/-- The accesses are being sent. -/
def requesting : Bool := s.tState == .req0 || s.tState == .req1

def awValid : Bool := s.requesting && s.grantType == .putAckType && !s.awFire

def awAddr : ℕ := if s.tState = .req0 then i.acquire.waddr else i.acquire.waddr ||| 4

def wValid : Bool := s.requesting && s.grantType == .putAckType && !s.wFire

/-- The word of the beat that is written. -/
def wWord : ℕ := s.awAddr i / 4 % c.liteXacts

def wData : BitVec 32 := i.acquire.data.extractLsb' (32 * s.wWord i) 32

def wStrb (k : Fin 4) : Bool := i.acquire.wmask (4 * s.wWord i + k)

def arValid : Bool := s.requesting && s.grantType == .getDataBeatType

def arAddr : ℕ := if s.tState = .req0 then i.acquire.fullAddr else i.acquire.fullAddr ||| 4

def bReady : Bool :=
  (s.rState == .resp0 || s.rState == .resp1) && s.grantType == .putAckType

def rReady : Bool :=
  s.grantType == .getDataBeatType &&
    (s.rState == .resp0 && s.opSize == MT_D || s.grantFire i)

/-! ### Handshakes -/

def awFires : Bool := s.awValid && i.awReady

def wFires : Bool := s.wValid && i.wReady

def arFires : Bool := s.arValid && i.arReady

def bFires : Bool := i.bValid && s.bReady

def rFires : Bool := i.rValid && s.rReady i

/-- The address and the data of a write are both sent. -/
def wrFire : Bool := (s.awFires i || s.awFire) && (s.wFires i || s.wFire)

/-! ### The clock edge -/

/-- The state of the request side after a cycle. -/
def tStateNext : TState :=
  match s.tState with
  | .idle => if i.acquireValid then .req0 else .idle
  | .req0 =>
    if s.wrFire i then (if i.acquire.doubleWrite then .req1 else .busy)
    else if s.arFires i then (if s.opSize = MT_D then .req1 else .busy)
    else .req0
  | .req1 => if s.wrFire i || s.arFires i then .busy else .req1
  | .busy => if s.grantFire i then .idle else .busy

/-- The state of the response side after a cycle. It leaves `grant` whether or not the
grant is taken. -/
def rStateNext : RState :=
  match s.rState with
  | .idle => if s.awFires i || s.arFires i then .resp0 else .idle
  | .resp0 =>
    if i.bValid then (if i.acquire.doubleWrite then .resp1 else .grant)
    else if i.rValid then (if s.opSize = MT_D then .resp1 else .grant)
    else .resp0
  | .resp1 => if i.bValid || i.rValid then .grant else .resp1
  | .grant => .idle

/-- The flags for the two halves of a write are cleared. -/
def clearFires : Bool :=
  match s.tState with
  | .idle => i.acquireValid
  | .req0 => s.wrFire i
  | .req1 => s.wrFire i || s.arFires i
  | .busy => false

/-- The registers after a cycle. -/
def next : Lite c :=
  { tState := s.tStateNext i
    rState := s.rStateNext i
    clientId := if i.acquireValid then i.acquire.clientId else s.clientId
    clientXactId := if i.acquireValid then i.acquire.clientXactId else s.clientXactId
    grantType := if i.acquireValid then i.acquire.getBuiltInGrantType else s.grantType
    opSize := if i.acquireValid then i.acquire.opSize else s.opSize
    addrHigh := if i.acquireValid then i.acquire.addrByte.getLsbD 2 else s.addrHigh
    dataBuf := if s.rState == .resp0 && i.rValid then i.rData else s.dataBuf
    awFire :=
      if s.clearFires i then false
      else if s.requesting && !s.awFire then s.awFires i else s.awFire
    wFire :=
      if s.clearFires i then false
      else if s.requesting && !s.wFire then s.wFires i else s.wFire }

/-- The registers after reset; the ones without a reset value hold those of `u`. -/
def reset (u : Lite c) : Lite c := { u with tState := .idle, rState := .idle }

end Lite

end Nasti

end TaggedRiscv
