import TaggedRiscv.Lib.Burst
import TaggedRiscv.Lib.WriteBack
import TaggedRiscv.TagCache.Lines
import TaggedRiscv.TagCache.System

/-!
# A tracker with its set

The part of the tag cache that one transaction touches: the tracker, the memory's
side of its requests, the set of the cache its block belongs to, the blocks of the
tag partition that keep the lines of that set, and the block itself. As long as no
other tracker works on the set, this slice evolves on its own.
-/

namespace TaggedRiscv.TagCache

open Sync TagUtil Burst

variable {g : Geometry}

/-- A read of the metadata array on its way: none, in the first stage, or answered. -/
inductive MetaToken (g : Geometry)
  | none
  | asked
  | answered (r : MetaResp g)

/-- A tracker with its set. `back` are the lines of the set in the tag partition and
`block` is the transaction's block in the memory. A token of the data array is the
row that was read, with the ways. -/
@[ext]
structure Slice (g : Geometry) extends Tracker g where
  idx : Fin g.nSets
  port : Port
  metas : Fin g.nWays → Meta
  rows : Fin g.nWays → Fin 4 → Row
  back : ℕ → Fin 4 → Row
  block : Fin 4 → Raw
  metaToken : MetaToken g
  dataToken : Option (Fin 4 × (Fin g.nWays → Bool))

/-- The directory entry that a metadata entry stands for. -/
def entryOf (m : Meta) : WriteBack.Entry ℕ := ⟨if m.valid then some m.tag else none, m.dirty⟩

/-- A set represents the tags of its blocks, up to the irregular ways, and its entries
have the right DRAM bit. -/
structure SetOk (idx : Fin g.nSets) (metas : Fin g.nWays → Meta)
    (rows : Fin g.nWays → Fin 4 → Row) (back store : ℕ → Fin 4 → Row)
    (refilling modified : Option (Fin g.nWays)) : Prop where
  dram : ∀ w, (metas w).valid → (metas w).dram = dramLine (lineAt idx (metas w).tag)
  represents : WriteBack.Represents (fun tag => DataLine (lineAt idx tag))
    (fun w => entryOf (metas w)) rows back store refilling modified

namespace Slice

variable (s : Slice g) (i : TrackerIn g)

/-- The tag of the transaction's block. -/
def tag : ℕ := tagOf g s.addrOut

/-- The row of the transaction's block in its line. -/
def row : Fin 4 := addrToRow s.addrOut

/-- The slot of the transaction's block in its row. -/
def slot : Fin 4 := rowOffset s.addrOut

/-! ## The clock edge -/

/-- The tracker's request to the memory. -/
def msg : OutMsg :=
  s.outAcquireBits i.acquire.bits.data i.release.bits.data i.metaResp.tag

/-- The block that the tracker completes in the memory. -/
def stored : Option (ℕ × (Fin 4 → Raw)) :=
  if s.outAcquireFire i then s.port.written (s.msg i) else none

/-- The answer to a lookup, where `way` is the replacer's choice. -/
def lookup (way : Fin g.nWays) : MetaResp g :=
  let hit := MetaArray.isHit s.metas s.tag
  { hit := hit
    wayEn := if hit then MetaArray.matchWay s.metas s.tag else uintToOH way
    tag := if hit then MetaArray.entryAt s.metas (ohToUInt (MetaArray.matchWay s.metas s.tag))
      else s.metas way }

/-- The lines of the set in the tag partition after a block was stored. -/
def backAfter (idx : Fin g.nSets) (back : ℕ → Fin 4 → Row) :
    Option (ℕ × (Fin 4 → Raw)) → ℕ → Fin 4 → Row
  | some (addr, b) => fun tag =>
    if DataLine (lineAt idx tag) ∧ addr = tagAddr (lineAt idx tag) then fun r => rowOf (b r)
    else back tag
  | none => back

/-- The transaction's block after a block was stored. -/
def blockAfter (addr : ℕ) (block : Fin 4 → Raw) : Option (ℕ × (Fin 4 → Raw)) → Fin 4 → Raw
  | some (addr', b) => if addr' = addr then b else block
  | none => block

/-- The slice after a clock edge. -/
def next (way : Fin g.nWays) : Slice g :=
  let t := s.toTracker
  { idx := s.idx
    toTracker := t.next i
    port :=
      if t.outAcquireFire i then s.port.request (s.msg i)
      else if t.outGrantFire i then s.port.answer
      else s.port
    metas :=
      if t.metaWriteValid && i.metaWriteReady then
        fun w => if t.acqWayEn w then t.metaWriteTag else s.metas w
      else s.metas
    rows :=
      if t.dataWriteValid && i.dataWriteReady then
        fun w =>
          if t.acqWayEn w then
            Function.update (s.rows w) t.dataWriteRow
              (DataArray.writeRow (s.rows w t.dataWriteRow) (rowOf t.dataWriteBits)
                t.dataWriteMask)
          else s.rows w
      else s.rows
    back := backAfter s.idx s.back (s.stored i)
    block := blockAfter t.addrOut s.block (s.stored i)
    metaToken :=
      match s.metaToken with
      | .none => if t.metaReadValid && i.metaReadReady then .asked else .none
      | .asked => .answered (s.lookup way)
      | .answered _ => .none
    dataToken :=
      if t.dataReadValid && i.dataReadReady then some (t.dataReadRow, t.acqWayEn) else none }

/-- The tags of the set's blocks after a clock edge: a write changes the slot of its
block when it writes the data array. -/
def nextStore (store : ℕ → Fin 4 → Row) : ℕ → Fin 4 → Row :=
  if s.state = .dataWriteHit ∧ s.collectAcqData = false ∧
      i.dataWriteReady = true then
    Function.update store s.tag
      (Function.update (store s.tag) s.row
        (Function.update (store s.tag s.row) s.slot (blockTags s.acqData)))
  else store

/-! ## The surroundings -/

/-- What the surroundings guarantee to a slice: the arrays answer from the slice's set,
the memory answers from the slice's blocks what is due, the channel shows only
uncollected own beats while a write is forwarded, and the DRAM bit in the metadata
array's response register is that of the line that is being written back. -/
structure Env : Prop where
  metaResp : ∀ r, s.metaToken = .answered r → i.metaRespValid ∧ i.metaResp = r
  noMetaResp : i.metaRespValid → ∃ r, s.metaToken = .answered r
  dataResp : ∀ r en, s.dataToken = some (r, en) →
    i.dataRespValid ∧ i.dataResp = mux1H en fun w => rowBits (s.rows w r)
  noDataResp : s.dataToken = none → i.dataRespValid = false
  due : i.outGrantValid → s.port.due
  blockData : ∀ cnt, i.outGrantValid → s.port = .get s.addrOut cnt →
    removeTag i.outGrantData = s.block cnt
  lineData : ∀ cnt, i.outGrantValid → s.port = .get (tagAddr (s.addrOut / 16)) cnt →
    removeTag i.outGrantData = rowBits (s.back s.tag cnt)
  own : s.SeesOwn i
  dram : s.memSendTag → i.metaResp.tag.dram = s.acqReplMeta.dram

/-! ## The invariant -/

/-- The slice's set represents the tags of its blocks. -/
abbrev Ok (store : ℕ → Fin 4 → Row) (refilling modified : Option (Fin g.nWays)) : Prop :=
  SetOk s.idx s.metas s.rows s.back store refilling modified

/-- The line of the transaction is in a way, which the tracker has selected. -/
def Hit (w : Fin g.nWays) : Prop :=
  s.acqWayEn = uintToOH w ∧ (entryOf (s.metas w)).line = some s.tag

/-- The line of the transaction is in no way. -/
def Missing : Prop := ∀ w, (entryOf (s.metas w)).line ≠ some s.tag

/-- The tracker evicts the line of a way. -/
structure Victim (store : ℕ → Fin 4 → Row) (w : Fin g.nWays) : Prop where
  ok : s.Ok store none none
  missing : s.Missing
  way : s.acqWayEn = uintToOH w
  replMeta : s.acqReplMeta = s.metas w
  valid : (s.metas w).valid

/-- The lookup found the line, or chose a way to replace. -/
def Looked (r : MetaResp g) : Prop :=
  r.hit = MetaArray.isHit s.metas s.tag ∧
    (r.hit = true → r.wayEn = MetaArray.matchWay s.metas s.tag) ∧
    (r.hit = false → ∃ w, r.wayEn = uintToOH w ∧ r.tag = s.metas w)

/-- The tags of the transaction's block. -/
def slotTags (store : ℕ → Fin 4 → Row) : Slot := store s.tag s.row s.slot

/-- A write has put its tags into the store, a read has got them out of it. -/
def Answer (store : ℕ → Fin 4 → Row) : Prop :=
  if s.isWriteProcess then s.slotTags store = blockTags s.acqData
  else s.gntTag = s.slotTags store

/-- What holds in a state of the lookup. A copy that lags by one cycle is right except for the
last entry in the first cycle, when the counter is still at zero. -/
abbrev TagStateAt (store : ℕ → Fin 4 → Row) (state : State) : Prop :=
  let t := s.toTracker
  match state with
  | .idle | .dummyWait => False
  | .metaRead => s.Ok store none none
  | .metaResp =>
    s.Ok store none none ∧
      (s.metaToken = .asked ∨ ∃ r, s.metaToken = .answered r ∧ s.Looked r)
  | .dataReadHit => s.Ok store none none ∧ ∃ w, s.Hit w
  | .dataWriteHit => t.isWriteProcess = true ∧ s.Ok store none none ∧ ∃ w, s.Hit w
  | .dataRespHit => s.Ok store none none ∧ ∃ w, s.Hit w ∧ s.dataToken = some (s.row, uintToOH w)
  | .metaWriteHit =>
    t.isWriteProcess = true ∧
      ∃ w, s.Ok store none (some w) ∧ s.Hit w ∧ s.slotTags store = blockTags t.acqData
  | .dataReadWb => ∃ w, s.Victim store w
  | .dataRespWb =>
    ∃ w, s.Victim store w ∧ Filled t.wbDataCnt t.wbData (fun r => rowBits (s.rows w r)) ∧
      t.wbReadCnt ≠ 0 ∧
      (s.dataToken = none ∧ t.wbReadCnt = t.wbDataCnt ∨
        s.dataToken = some (t.wbDataCnt, uintToOH w) ∧ t.wbReadCnt = t.wbDataCnt + 1)
  | .dataRespWbDone =>
    ∃ w, s.Victim store w ∧ Filled 3 t.wbData (fun r => rowBits (s.rows w r)) ∧
      t.wbDataCnt = 3 ∧ s.dataToken = some (3, uintToOH w)
  | .writeBack =>
    ∃ w, s.Victim store w ∧ t.wbData = (fun r => rowBits (s.rows w r)) ∧
      ∀ j, j ≠ 3 ∨ t.memTagDataWriteCnt ≠ 0 → t.memTagDataWrite j = rowBits (s.rows w j)
  | .writeBackWaitB =>
    t.acqDataProcess = false ∧ ∃ w, s.Victim store w ∧ s.back (s.metas w).tag = s.rows w
  | .memReq =>
    s.Ok store none none ∧ s.Missing ∧
      ∃ w, t.acqWayEn = uintToOH w ∧
        ∀ tag, (entryOf (s.metas w)).line = some tag → s.back tag = s.rows w
  | .dataWriteRefill =>
    t.acqDataProcess = false ∧ s.Missing ∧
      t.memTagDataRead = (fun r => rowBits (store s.tag r)) ∧
      (∀ j, j ≠ 3 ∨ t.refillDataCnt ≠ 0 → t.refillData j = rowBits (store s.tag j)) ∧
      ∃ w, s.Ok store (some w) none ∧ t.acqWayEn = uintToOH w ∧
        Filled t.refillDataCnt (s.rows w) (store s.tag)
  | .metaWriteRefill =>
    t.acqDataProcess = false ∧ s.Missing ∧
      ∃ w, s.Ok store (some w) none ∧ t.acqWayEn = uintToOH w ∧ s.rows w = store s.tag
  | .gnt => s.Ok store none none ∧ s.Answer store
  | .busy =>
    t.acqDataProcess = false ∧ s.Ok store none none ∧ s.Answer store ∧
      (t.isWriteProcess = false → t.gntEnable = true →
        t.gntData = joinTags t.memAcqDataRead t.gntTag)

/-- The state of the lookup. -/
def TagState (store : ℕ → Fin 4 → Row) : Prop := s.TagStateAt store s.state

/-- The transaction's own data. A write has sent the beats it has collected, and is
acknowledged when it has collected all; a read receives the beats of the block. -/
structure Own : Prop where
  collecting : s.isWriteProcess → s.collectAcqData →
    s.acqDataProcess ∧
      (s.acqDataCnt = 0 ∧ s.port = .idle ∨
        s.acqDataCnt ≠ 0 ∧ s.cmdSent ∧
        ∃ buf, s.port = .put s.addrOut s.acqDataCnt buf ∧
          Filled s.acqDataCnt buf fun j => removeTag (s.acqData j))
  collected : s.isWriteProcess → s.collectAcqData = false →
    s.acqDataCnt = 0 ∧ s.block = (fun j => removeTag (s.acqData j)) ∧
      (s.acqDataProcess → s.port = .ack ∧ s.cmdSent)
  noBeats : s.isWriteProcess → s.acqDataProcess →
    s.nrCnt = 0 ∧ s.readMultipleData = false
  reading : s.isWriteProcess = false → s.acqDataProcess →
    s.isRead ∧ s.readMultipleData ∧
      (s.cmdSent = false ∧ s.port = .idle ∧ s.nrCnt = 0 ∨
        s.cmdSent ∧ s.port = .get s.addrOut s.nrCnt ∧
          Filled s.nrCnt s.memAcqDataRead s.block)
  read : s.isWriteProcess = false → s.acqDataProcess = false →
    s.memAcqDataRead = s.block

/-- The tag traffic, once the transaction's own data is done. -/
def TagPort : Prop :=
  let t := s.toTracker
  match t.state with
  | .writeBack =>
    t.nrCnt = 0 ∧
      (t.memTagDataWriteCnt = 0 ∧ s.port = .idle ∨
        t.memTagDataWriteCnt ≠ 0 ∧
        ∃ w buf, t.acqWayEn = uintToOH w ∧
          s.port = .put (tagAddr (lineAt s.idx (s.metas w).tag)) t.memTagDataWriteCnt buf ∧
          Filled t.memTagDataWriteCnt buf fun r => rowBits (s.rows w r))
  | .writeBackWaitB => t.nrCnt = 0 ∧ s.port = .ack
  | .memReq =>
    t.cmdSent = false ∧ t.nrCnt = 0 ∧ s.port = .idle ∨
      t.cmdSent = true ∧ s.port = .get (tagAddr (t.addrOut / 16)) t.nrCnt ∧
        Filled t.nrCnt t.memTagDataRead fun r => rowBits (s.back s.tag r)
  | .metaRead | .metaResp | .dataReadWb | .dataRespWb | .dataRespWbDone =>
    t.nrCnt = 0 ∧ s.port = .idle ∧ t.cmdSent = false
  | _ => t.nrCnt = 0 ∧ s.port = .idle

/-- The counters and tokens that rest outside the states that use them. -/
structure Rest : Prop where
  memTagDataWriteCnt : s.state ≠ .writeBack → s.memTagDataWriteCnt = 0
  wbReadCnt : s.state ≠ .dataRespWb → s.wbReadCnt = 0
  wbDataCnt : s.state ∉ [.dataRespWb, .dataRespWbDone] → s.wbDataCnt = 0
  refillDataCnt : s.state ≠ .dataWriteRefill → s.refillDataCnt = 0
  unsent : s.acqDataProcess → s.memTagDataWriteCnt = 0
  metaToken : s.state ≠ .metaResp → s.metaToken = .none
  dataToken : s.state ∉ [.dataRespHit, .dataRespWb, .dataRespWbDone] → s.dataToken = none

/-- The invariant of a slice whose tracker handles a transaction. -/
structure Inv (store : ℕ → Fin 4 → Row) : Prop where
  wf : s.Wf
  idx : s.idx = addrToIndex g s.addrOut
  window : InWindow s.addrOut
  own : s.Own
  tagPort : s.acqDataProcess = false → s.TagPort
  tagState : s.TagState store
  rest : s.Rest

variable {s} in
theorem Inv.tagStateAt {store : ℕ → Fin 4 → Row} {state : State} (hi : s.Inv store)
    (hst : s.state = state) : s.TagStateAt store state := hst ▸ hi.tagState

end Slice

end TaggedRiscv.TagCache
