import TaggedRiscv.Uncore.Messages
import TaggedRiscv.Uncore.TagUtil
import TaggedRiscv.Lib.Arbiter
import TaggedRiscv.Lib.Select
import TaggedRiscv.Lib.Machine

/-!
# The TileLink to NASTI converter (`NASTIMasterIOTileLinkIOConverter`)

Several handlers serve one transaction each. A beat on the acquire or release channel goes
to the handler whose transaction it belongs to, or else to the lowest idle handler; where
there is neither, to the last handler. The outputs of the handlers are merged by one
round-robin arbiter per channel, so that nothing ties the order of the write addresses to
the order of the bursts of write data.
-/

namespace TaggedRiscv.Nasti

open Sync

/-- The TileLink parameters, with words and tags of a beat. -/
structure ConvParams where
  tl : TLParams
  words : ℕ
  tagBits : ℕ
  xLen : ℕ
  dataBits_eq : tl.dataBits = words * (tagBits + xLen)
  acquireTypeBits_le : 3 ≤ tl.acquireTypeBits

namespace ConvParams

variable (c : ConvParams)

/-- The tag of a transaction: client and transaction id. -/
abbrev Tag : Type := BitVec (c.tl.clientIdBits + c.tl.clientXactIdBits)

/-- A beat of data without tags. -/
abbrev Data : Type := BitVec (c.words * c.xLen)

/-- The bytes of a beat without tags. -/
def dataBytes : ℕ := c.words * c.xLen / 8

/-- A beat without its tags. -/
def removeTag (d : BitVec c.tl.dataBits) : c.Data :=
  @TagUtil.removeTag c.tagBits c.xLen c.words (d.cast c.dataBits_eq)

/-- A beat with empty tags. -/
def insertTag (d : c.Data) : BitVec c.tl.dataBits :=
  (TagUtil.insertEmptyTag c.tagBits d).cast c.dataBits_eq.symm

end ConvParams

/-- The size code of a number of bytes. -/
def bytesToXSize (bytes : ℕ) : ℕ :=
  match bytes with
  | 1 => 0 | 2 => 1 | 4 => 2 | 8 => 3 | 16 => 4 | 32 => 5 | 64 => 6
  | _ => 7

variable (c : ConvParams)

/-- The size code of an operand. -/
def opSizeToXSize (ops : BitVec 4) : ℕ :=
  if ops = 7 then Nat.log2 c.dataBytes else if ops.toNat < 7 then ops.toNat % 4 else 7

/-- A write or read address. -/
structure AddressChannel where
  id : c.Tag
  addr : ℕ
  len : ℕ
  size : ℕ

/-- A beat of write data. -/
structure WriteDataChannel where
  data : c.Data
  strb : ℕ → Bool
  last : Bool

/-! ## A handler -/

/-- The registers of a handler. -/
structure Handler where
  writeMultipleData : Bool
  readMultipleData : Bool
  nwCnt : ℕ
  nrCnt : ℕ
  isRead : Bool
  isWrite : Bool
  isAcq : Bool
  isBuiltin : Bool
  tagOut : c.Tag
  addrOut : ℕ
  lenOut : ℕ
  sizeOut : ℕ
  gTypeOut : BitVec c.tl.grantTypeBits
  cmdSent : Bool

/-- The inputs of a handler: the beats that are routed to it, and whether the arbiters serve
it. -/
structure HandlerIn where
  acquire : Option (AcquireFromSrc c.tl)
  release : Option (ReleaseFromSrc c.tl)
  grantReady : Bool
  awReady : Bool
  wReady : Bool
  arReady : Bool
  bValid : Bool
  r : Option (c.Data × Bool)

variable {c}

namespace Handler

variable (h : Handler c) (i : HandlerIn c)

/-- No transaction is open. -/
def isIdle : Bool := !(h.isRead || h.isWrite)

/-- A transaction may be taken on. -/
def rdy : Bool := h.isIdle

/-- The acquire belongs to the open transaction. -/
def acqMatch (a : AcquireFromSrc c.tl) : Bool :=
  h.tagOut == a.clientId ++ a.clientXactId && !h.rdy

/-- The release belongs to it. -/
def relMatch (r : ReleaseFromSrc c.tl) : Bool :=
  h.tagOut == r.clientId ++ r.clientXactId && !h.rdy

/-- The write answer belongs to it. -/
def bMatch (id : c.Tag) : Bool := id == h.tagOut && !h.rdy

/-- The read data belong to it. -/
def rMatch (id : c.Tag) : Bool := id == h.tagOut && !h.rdy

/-! ### Outputs -/

/-- A write address is offered. -/
def awValid : Bool := h.isWrite && !h.cmdSent

/-- A read address is offered. -/
def arValid : Bool := h.isRead && !h.cmdSent

/-- The address, for reads and writes. -/
def address : AddressChannel c :=
  { id := h.tagOut, addr := h.addrOut, len := h.lenOut, size := h.sizeOut }

/-- A beat of write data is offered. -/
def wValid : Bool :=
  (i.acquire.isSome && h.isAcq || i.release.isSome && !h.isAcq) && h.isWrite

/-- The beat is taken. -/
def wFire : Bool := h.wValid i && i.wReady

/-- The last beat of a burst is taken. -/
def nwFinish : Bool :=
  h.wFire i && h.writeMultipleData && decide (h.nwCnt = c.tl.dataBeats - 1)

/-- The acquire is a part of a burst of data. -/
def acqMultibeat : Bool := i.acquire.any fun a => a.hasMultibeatData

/-- The beat of write data. -/
def w : WriteDataChannel c :=
  { data :=
      if h.isAcq then c.removeTag ((i.acquire.map fun a => a.data).getD 0)
      else c.removeTag ((i.release.map fun r => r.data).getD 0)
    strb := fun j =>
      match i.acquire with
      | some a => if h.isAcq && a.isSubBlockType then a.wmask j else true
      | none => true
    last := h.nwFinish i || h.isAcq && !acqMultibeat i }

/-- A grant is offered. -/
def grantValid : Bool := if h.isWrite then i.bValid else i.r.isSome

/-- The grant is taken. -/
def grantFire : Bool := h.grantValid i && i.grantReady

/-- The write answer may come. -/
def bReady : Bool := h.isWrite && h.grantFire i

/-- The read data may come. -/
def rReady : Bool := h.isRead && h.grantFire i

/-- The write answer comes. -/
def bFire : Bool := i.bValid && h.bReady i

/-- A beat of read data comes. -/
def rFire : Bool := i.r.isSome && h.rReady i

/-- The write address is taken. -/
def awFire : Bool := h.awValid && i.awReady

/-- The read address is taken. -/
def arFire : Bool := h.arValid && i.arReady

/-- The acquire is taken: a beat with its data, a read with its address. -/
def acquireReady : Bool := h.isAcq && (h.wFire i || h.arFire i)

/-- The beat of the release is taken. -/
def releaseReady : Bool := !h.isAcq && h.wFire i

/-- The last beat of read data comes. -/
def nrFinish : Bool :=
  h.rFire i && h.readMultipleData && decide (h.nrCnt = c.tl.dataBeats - 1)

/-- The grant, from the handler with number `id`. -/
def grant (id : ℕ) : GrantToDst c.tl :=
  { clientId := h.tagOut.extractLsb' c.tl.clientXactIdBits c.tl.clientIdBits
    isBuiltinType := if h.isWrite then true else h.isBuiltin
    gType := h.gTypeOut
    clientXactId := h.tagOut.setWidth c.tl.clientXactIdBits
    managerXactId := BitVec.ofNat _ id
    addrBeat := if h.isWrite then 0 else BitVec.ofNat _ h.nrCnt
    data :=
      match i.r with
      | some r => if h.isWrite then 0 else c.insertTag r.1
      | none => 0 }

/-! ### The clock edge -/

/-- The registers after the responses of a cycle. -/
def answered : Handler c :=
  let h' :=
    if h.bFire i then
      { h with writeMultipleData := false, isWrite := false, cmdSent := false, isAcq := false }
    else h
  if (i.r.any fun r => r.2) && h.rFire i then
    { h' with readMultipleData := false, isRead := false, cmdSent := false, isAcq := false }
  else h'

/-- The registers with the transaction of an acquire. -/
def takeAcquire (h : Handler c) (a : AcquireFromSrc c.tl) : Handler c :=
  { h with
    writeMultipleData := a.hasMultibeatData
    readMultipleData := !a.isBuiltinType || a.isBuiltIn .getBlockType
    isRead := a.isBuiltinType && !a.hasData
    isWrite := a.isBuiltinType && a.hasData
    isAcq := true
    isBuiltin := a.isBuiltinType
    tagOut := a.clientId ++ a.clientXactId
    addrOut :=
      if a.isBuiltinType then a.fullAddr
      else a.addrBlock.toNat * 2 ^ (c.tl.beatAddrBits + c.tl.byteAddrBits)
    lenOut := if !a.isBuiltinType || !a.isSubBlockType then c.tl.dataBeats - 1 else 0
    sizeOut :=
      if !a.isBuiltinType || !a.isSubBlockType || a.hasData then bytesToXSize c.dataBytes
      else opSizeToXSize c a.opSize
    gTypeOut := if a.isBuiltinType then BitVec.ofNat _ a.getBuiltInGrantType.code else 0 }

/-- The registers with the transaction of a release. -/
def takeRelease (h : Handler c) (r : ReleaseFromSrc c.tl) : Handler c :=
  { h with
    writeMultipleData := true
    readMultipleData := false
    isRead := false
    isWrite := true
    isBuiltin := true
    tagOut := r.clientId ++ r.clientXactId
    addrOut := r.addrBlock.toNat * 2 ^ (c.tl.beatAddrBits + c.tl.byteAddrBits)
    lenOut := c.tl.dataBeats - 1
    sizeOut := bytesToXSize c.dataBytes
    gTypeOut := BitVec.ofNat _ BuiltInGrant.voluntaryAckType.code }

/-- The transaction that is taken on; releases go first. -/
def taken (h' : Handler c) : Handler c :=
  if h.isIdle then
    match i.release, i.acquire with
    | some r, _ => h'.takeRelease r
    | none, some a => h'.takeAcquire a
    | none, none => h'
  else h'

/-- The registers after a cycle. -/
def next : Handler c :=
  { h.taken i (h.answered i) with
    nwCnt := if h.wFire i && h.writeMultipleData then (h.nwCnt + 1) % c.tl.dataBeats else h.nwCnt
    nrCnt := if h.rFire i && h.readMultipleData then (h.nrCnt + 1) % c.tl.dataBeats else h.nrCnt
    cmdSent := if h.arFire i || h.awFire i then true else (h.taken i (h.answered i)).cmdSent }

/-- The registers after reset; the ones without a reset value hold those of `u`. -/
def reset (u : Handler c) : Handler c :=
  { u with
    writeMultipleData := false, readMultipleData := false, nwCnt := 0, nrCnt := 0
    isRead := false, isWrite := false, isAcq := false, isBuiltin := false, cmdSent := false }

end Handler

/-! ## The converter -/

variable (c) in
/-- `n` handlers and the arbiters of their outputs. -/
structure Converter (n : ℕ) where
  handler : Fin n → Handler c
  grantArb : LockArb n
  arArb : LockArb n
  wArb : LockArb n
  awArb : LockArb n

variable (c) in
/-- The inputs of a cycle. -/
structure ConverterIn where
  acquire : Option (AcquireFromSrc c.tl)
  release : Option (ReleaseFromSrc c.tl)
  grantReady : Bool
  awReady : Bool
  wReady : Bool
  arReady : Bool
  b : Option c.Tag
  r : Option (c.Tag × c.Data × Bool)

namespace Converter

variable {n : ℕ} (s : Converter c n) (i : ConverterIn c)

/-- Some bit is set. -/
def orR (v : Fin n → Bool) : Bool := (List.finRange n).any v

/-- The idle handlers. -/
def tlReady (j : Fin n) : Bool := (s.handler j).rdy

/-! ### Routing -/

/-- The handlers whose transaction the acquire belongs to. -/
def tlAcqMatches (j : Fin n) : Bool := i.acquire.any (s.handler j).acqMatch

/-- The handlers whose transaction the release belongs to. -/
def tlRelMatches (j : Fin n) : Bool := i.release.any (s.handler j).relMatch

/-- The handler an acquire goes to. -/
def tlAcqHandlerId : ℕ :=
  if orR (s.tlAcqMatches i) then priorityEncoder (s.tlAcqMatches i)
  else priorityEncoder s.tlReady

/-- The handler a release goes to. -/
def tlRelHandlerId : ℕ :=
  if orR (s.tlRelMatches i) then priorityEncoder (s.tlRelMatches i)
  else priorityEncoder s.tlReady

/-- The handlers a write answer belongs to. -/
def naBMatches (j : Fin n) : Bool := i.b.any (s.handler j).bMatch

/-- The handlers a beat of read data belongs to. -/
def naRMatches (j : Fin n) : Bool := i.r.any fun r => (s.handler j).rMatch r.1

/-- The handler a write answer goes to. -/
def naBHandlerId : ℕ := priorityEncoder (s.naBMatches i)

/-- The handler a beat of read data goes to. -/
def naRHandlerId : ℕ := priorityEncoder (s.naRMatches i)

/-- The inputs of a handler, with nothing ready. -/
def routed (j : Fin n) : HandlerIn c :=
  { acquire := if s.tlAcqHandlerId i = j then i.acquire else none
    release := if s.tlRelHandlerId i = j then i.release else none
    grantReady := false
    awReady := false
    wReady := false
    arReady := false
    bValid := i.b.isSome && decide (s.naBHandlerId i = j)
    r := if s.naRHandlerId i = j then i.r.map fun r => r.2 else none }

/-! ### Arbitration -/

/-- The handlers with write data. -/
def wValid (j : Fin n) : Bool := (s.handler j).wValid (s.routed i j)

/-- The handler whose grant is sent. -/
def grantServed : Option (Fin n) :=
  s.grantArb.served (fun j => (s.handler j).grantValid (s.routed i j)) i.grantReady

/-- The handler whose write address is sent. -/
def awServed : Option (Fin n) := s.awArb.served (fun j => (s.handler j).awValid) i.awReady

/-- The handler whose read address is sent. -/
def arServed : Option (Fin n) := s.arArb.served (fun j => (s.handler j).arValid) i.arReady

/-- The handler whose write data are sent. -/
def wServed : Option (Fin n) := s.wArb.served (s.wValid i) i.wReady

/-- The inputs of a handler. -/
def handlerIn (j : Fin n) : HandlerIn c :=
  { s.routed i j with
    grantReady := decide (s.grantServed i = some j)
    awReady := decide (s.awServed i = some j)
    wReady := decide (s.wServed i = some j)
    arReady := decide (s.arServed i = some j) }

/-! ### Handshakes -/

/-- The write address on the output. -/
def aw : Option (AddressChannel c) :=
  (s.awArb.chosen fun j => (s.handler j).awValid).map fun j => (s.handler j).address

/-- The write address that is sent. -/
def awSent : Option (AddressChannel c) := (s.awServed i).map fun j => (s.handler j).address

/-- The read address that is sent. -/
def arSent : Option (AddressChannel c) := (s.arServed i).map fun j => (s.handler j).address

/-- The grant that is sent. -/
def grantSent : Option (GrantToDst c.tl) :=
  (s.grantServed i).map fun j => (s.handler j).grant (s.handlerIn i j) j

/-- The beat of write data that is sent. -/
def wSent : Option (WriteDataChannel c) :=
  (s.wServed i).map fun j => (s.handler j).w (s.handlerIn i j)

/-- The acquire is taken by its handler. -/
def acquireReady : Bool :=
  (orR (s.tlAcqMatches i) || orR s.tlReady) &&
    orR fun j => decide (s.tlAcqHandlerId i = j) && (s.handler j).acquireReady (s.handlerIn i j)

/-- The release is taken by its handler. -/
def releaseReady : Bool :=
  (orR (s.tlRelMatches i) || orR s.tlReady) &&
    orR fun j => decide (s.tlRelHandlerId i = j) && (s.handler j).releaseReady (s.handlerIn i j)

/-- The write answer is taken by its handler. -/
def bReady : Bool :=
  orR (s.naBMatches i) &&
    orR fun j => decide (s.naBHandlerId i = j) && (s.handler j).bReady (s.handlerIn i j)

/-- The read data are taken by their handler. -/
def rReady : Bool :=
  orR (s.naRMatches i) &&
    orR fun j => decide (s.naRHandlerId i = j) && (s.handler j).rReady (s.handlerIn i j)

/-- An acquire is taken. -/
def acquireFire : Bool := i.acquire.isSome && s.acquireReady i

/-- A release is taken. -/
def releaseFire : Bool := i.release.isSome && s.releaseReady i

/-- A write answer comes. -/
def bFire : Bool := i.b.isSome && s.bReady i

/-- A beat of read data comes. -/
def rFire : Bool := i.r.isSome && s.rReady i

/-- The registers after a cycle. A burst of write data locks its arbiter. -/
def next : Converter c n :=
  { handler := fun j => (s.handler j).next (s.handlerIn i j)
    grantArb := s.grantArb.next 1 true (fun _ => true)
      (fun j => (s.handler j).grantValid (s.routed i j)) i.grantReady
    arArb := s.arArb.next 1 true (fun _ => true) (fun j => (s.handler j).arValid) i.arReady
    wArb := s.wArb.next c.tl.dataBeats true
      (fun j => !((s.handler j).w (s.handlerIn i j)).last) (s.wValid i) i.wReady
    awArb := s.awArb.next 1 true (fun _ => true) (fun j => (s.handler j).awValid) i.awReady }

/-- The registers after reset. -/
def reset (u : Converter c n) : Converter c n :=
  { handler := fun j => (u.handler j).reset
    grantArb := .init, arArb := .init, wArb := .init, awArb := .init }

end Converter

end TaggedRiscv.Nasti
