import Mathlib
import TaggedRiscv.Lib.Machine
import TaggedRiscv.Lib.OpQueues

/-!
# The simulation memory

The C++ model behind the AXI memory port of the simulation. Accepted bursts are cut into
operations on words, which wait in parallel FIFOs; a step performs a random number of them, one
FIFO after the other. The response of a write is ready when its last beat is queued, not when
it is performed: a read that is accepted later can be served before it from another FIFO.
-/

namespace TaggedRiscv.Board

open Sync OpQueues Function List

/-! ## The memory controller -/

/-- The bytes of a word that the mask selects are replaced (`Memory32::write`). A write is its
data and its mask. -/
def mergeBytes (old : BitVec 32) (w : BitVec 32 × BitVec 32) : BitVec 32 :=
  (List.range 4).foldl (fun d i =>
    if w.2.getLsbD i then
      (d &&& ~~~(0xff#32 <<< (8 * i))) ||| (w.1 &&& (0xff#32 <<< (8 * i)))
    else d) old

/-- A read with its tag, or a write; nothing looks at the tag of a write. -/
abbrev MemoryOperation := Op (BitVec 32) (BitVec 32 × BitVec 32) (BitVec 32)

/-- An address that the memory does not have reads as zero. -/
structure MemoryController (n : ℕ) where
  mem : BitVec 32 → BitVec 32
  opFifo : Fin n → List MemoryOperation
  respMap : BitVec 32 → List (BitVec 32)
  respLen : BitVec 32 → ℕ
  respQue : List (BitVec 32)
  rrIndex : Fin n

variable {n : ℕ}

/-- The FIFO after another one. -/
def rrNext (k : Fin n) : Fin n := ⟨(k + 1) % n, Nat.mod_lt _ k.pos⟩

namespace MemoryController

variable (c : MemoryController n)

/-- Operations are queued (`add_read_req`, `add_write_req`). -/
def addReqs (fifo : Fin n) (ops : List MemoryOperation) : MemoryController n :=
  { c with opFifo := update c.opFifo fifo (c.opFifo fifo ++ ops) }

/-- An operation of a FIFO is performed. The answer to a read goes to its tag, which is ready
when a beat is complete. -/
def perform (fifo : Fin n) : MemoryController n :=
  match c.opFifo fifo with
  | [] => c
  | .write a w :: ops =>
    { c with
      opFifo := update c.opFifo fifo ops
      mem := update c.mem a (mergeBytes (c.mem a) w) }
  | .read tag a :: ops =>
    { c with
      opFifo := update c.opFifo fifo ops
      respMap := update c.respMap tag (c.respMap tag ++ [c.mem a])
      respQue :=
        if ((c.respMap tag).length + 1) % c.respLen tag = 0 then c.respQue ++ [tag]
        else c.respQue }

/-- One round of the loop in `step`. -/
def serve : MemoryController n := { c.perform c.rrIndex with rrIndex := rrNext c.rrIndex }

/-- The number of operations is random. -/
def step (opTotal : ℕ) : MemoryController n := serve^[opTotal] c

/-- The search for an empty FIFO. -/
def loadBalanceFrom (chosen : Fin n) : ℕ → Option (Fin n)
  | 0 => none
  | i + 1 => if (c.opFifo chosen).isEmpty then some chosen else loadBalanceFrom (rrNext chosen) i

def loadBalance : Option (Fin n) := c.loadBalanceFrom c.rrIndex n

end MemoryController

open MemoryController

/-! ## The AXI controllers -/

structure AXIMemWriter (n : ℕ) where
  tag : BitVec 32
  addr : BitVec 32
  len : ℕ
  size : ℕ
  mask : BitVec 32
  fifo : Fin n
  valid : Bool
  resps : List (BitVec 32)

structure AXIMemReader where
  trackerLen : BitVec 32 → ℕ
  trackerSize : BitVec 32 → ℕ

/-- The write operations of a beat. -/
def AXIMemWriter.beatReqs (w : AXIMemWriter n) (data : ℕ → BitVec 32) (mask : BitVec 32) :
    List MemoryOperation :=
  if w.size < 4 then [.write w.addr (data 0, w.mask &&& mask)]
  else (List.range (w.size / 4)).map fun i =>
    .write (w.addr + BitVec.ofNat 32 (4 * i)) (data i, (mask >>> (4 * i)) &&& 0xf)

/-- The read operations of a burst. -/
def readReqs (tag addr : BitVec 32) (len : BitVec 8) (size : BitVec 3) : List MemoryOperation :=
  let bytes := 2 ^ size.toNat
  if bytes < 4 then (List.range (len.toNat + 1)).map fun i =>
    .read tag (addr + BitVec.ofNat 32 (bytes * i))
  else (List.range ((len.toNat + 1) * bytes / 4)).map fun i =>
    .read tag (addr + BitVec.ofNat 32 (4 * i))

/-- The words of a beat. -/
def wordsOf (size : ℕ) : ℕ := if size < 4 then 1 else size / 4

/-- A beat of read data; the bus is zero above its words. -/
abbrev ReadBeat := List (BitVec 32) × Bool

structure AxiMem (n : ℕ) where
  controller : MemoryController n
  writer : AXIMemWriter n
  reader : AXIMemReader

namespace AxiMem

variable (s : AxiMem n)

/-- A request that is refused changes nothing, here and below. -/
def writeAddrReq (tag addr : BitVec 32) (len : BitVec 8) (size : BitVec 3) : Option (AxiMem n) :=
  if s.writer.valid then none
  else s.controller.loadBalance.map fun fifo =>
    { s with
      writer :=
        { s.writer with
          tag := tag, addr := addr, len := len.toNat, size := 2 ^ size.toNat
          mask := BitVec.ofNat 32 (2 ^ 2 ^ size.toNat - 1), fifo := fifo, valid := true } }

def writeDataReq (data : ℕ → BitVec 32) (mask : BitVec 32) : Option (AxiMem n) :=
  let w := s.writer
  if w.valid then
    let addr := w.addr + BitVec.ofNat 32 (if w.size < 4 then w.size else 4 * (w.size / 4))
    some { s with
      controller := s.controller.addReqs w.fifo (w.beatReqs data mask)
      writer :=
        if w.len = 0 then { w with addr := addr, valid := false, resps := w.resps ++ [w.tag] }
        else { w with addr := addr, len := w.len - 1 } }
  else none

def writerRespReq : Option (BitVec 32 × AxiMem n) :=
  match s.writer.resps with
  | [] => none
  | tag :: resps => some (tag, { s with writer := { s.writer with resps := resps } })

def readerAddrReq (tag addr : BitVec 32) (len : BitVec 8) (size : BitVec 3) : Option (AxiMem n) :=
  s.controller.loadBalance.map fun fifo =>
    { s with
      controller :=
        { s.controller.addReqs fifo (readReqs tag addr len size) with
          respLen := update s.controller.respLen tag (wordsOf (2 ^ size.toNat)) }
      reader :=
        { trackerLen := update s.reader.trackerLen tag len.toNat
          trackerSize := update s.reader.trackerSize tag (2 ^ size.toNat) } }

/-- The tag and the beat that are returned; the last beat is the one that the length is zero
for. -/
def readerDataReq : Option ((BitVec 32 × ReadBeat) × AxiMem n) :=
  match s.controller.respQue with
  | [] => none
  | tag :: que =>
    let words := wordsOf (s.reader.trackerSize tag)
    let len := s.reader.trackerLen tag
    some ((tag, (s.controller.respMap tag).take words, decide (len = 0)), { s with
        controller :=
          { s.controller with
            respQue := que
            respMap := update s.controller.respMap tag
              ((s.controller.respMap tag).drop words) }
        reader := { s.reader with trackerLen := update s.reader.trackerLen tag (len - 1) } })

end AxiMem

/-! ## Calls -/

inductive MemCall
  | writeAddr (tag addr : BitVec 32) (len : BitVec 8) (size : BitVec 3)
  | writeData (data : ℕ → BitVec 32) (mask : BitVec 32) (last : Bool)
  | writeResp
  | readAddr (tag addr : BitVec 32) (len : BitVec 8) (size : BitVec 3)
  | readData
  | step (opTotal : ℕ)

def AxiMem.next (s : AxiMem n) : MemCall → AxiMem n
  | .writeAddr tag addr len size => (s.writeAddrReq tag addr len size).getD s
  | .writeData data mask _ => (s.writeDataReq data mask).getD s
  | .writeResp => (s.writerRespReq.map Prod.snd).getD s
  | .readAddr tag addr len size => (s.readerAddrReq tag addr len size).getD s
  | .readData => (s.readerDataReq.map Prod.snd).getD s
  | .step opTotal => { s with controller := s.controller.step opTotal }

/-- What was written and read, as the calls tell it. -/
structure MemHistory where
  /-- The memory with the writes whose response was handed out. -/
  responded : BitVec 32 → BitVec 32
  /-- The bursts that are complete and wait for that, and the beats of an incomplete one. -/
  waiting : List (List MemoryOperation)
  current : List MemoryOperation
  /-- The address and the words in a beat of the last write burst, and its beats so far. -/
  base : BitVec 32
  words : ℕ
  beats : ℕ
  /-- What the last read burst of a tag is to return, and what it has returned. -/
  expected : BitVec 32 → List ReadBeat
  got : BitVec 32 → List ReadBeat

namespace MemHistory

variable (g : MemHistory)

def init (mem : BitVec 32 → BitVec 32) : MemHistory :=
  { responded := mem, waiting := [], current := [], base := 0, words := 0, beats := 0
    expected := fun _ => [], got := fun _ => [] }

/-- The writes of the next beat. -/
def beatWrites (data : ℕ → BitVec 32) (mask : BitVec 32) : List MemoryOperation :=
  (List.range g.words).map fun i =>
    .write (g.base + BitVec.ofNat 32 (4 * (g.beats * g.words + i)))
      (data i, (mask >>> (4 * i)) &&& 0xf)

/-- The beats that a read has to return: the words in the order of their addresses, with the
final one marked. -/
def promised (addr : BitVec 32) (len : BitVec 8) (size : BitVec 3) : List ReadBeat :=
  let words := 2 ^ size.toNat / 4
  (List.range (len.toNat + 1)).map fun j =>
    ((List.range words).map fun i =>
      g.responded (addr + BitVec.ofNat 32 (4 * (j * words + i))), j == len.toNat)

def step (s : AxiMem n) : MemCall → MemHistory
  | .writeAddr tag addr len size =>
    if (s.writeAddrReq tag addr len size).isSome then
      { g with base := addr, words := 2 ^ size.toNat / 4, beats := 0 }
    else g
  | .writeData data mask last =>
    if s.writer.valid then
      if last then
        { g with waiting := g.waiting ++ [g.current ++ g.beatWrites data mask], current := [] }
      else { g with current := g.current ++ g.beatWrites data mask, beats := g.beats + 1 }
    else g
  | .writeResp =>
    match s.writerRespReq, g.waiting with
    | some _, ws :: rest =>
      { g with responded := performAll mergeBytes g.responded ws, waiting := rest }
    | _, _ => g
  | .readAddr tag addr len size =>
    if (s.readerAddrReq tag addr len size).isSome then
      { g with
        expected := update g.expected tag (g.promised addr len size)
        got := update g.got tag [] }
    else g
  | .readData =>
    match s.readerDataReq with
    | some ((tag, beat), _) => { g with got := update g.got tag (g.got tag ++ [beat]) }
    | none => g
  | .step _ => g

end MemHistory

/-- Bursts are aligned to words, with beats of whole words, the final beat of a write is marked,
and a tag has one outstanding read at a time. -/
def Fits (x : AxiMem n × MemHistory) : MemCall → Prop
  | .writeAddr tag addr len size =>
    (x.1.writeAddrReq tag addr len size).isSome = true → addr.toNat % 4 = 0 ∧ 2 ≤ size.toNat
  | .writeData _ _ last => x.1.writer.valid = true → last = decide (x.1.writer.len = 0)
  | .readAddr tag addr len size =>
    (x.1.readerAddrReq tag addr len size).isSome = true → addr.toNat % 4 = 0 ∧ 2 ≤ size.toNat ∧
      (x.2.got tag).length = (x.2.expected tag).length
  | _ => True

variable (n) in
def memMachine : Machine (AxiMem n × MemHistory) MemCall where
  ok := Fits
  next x i := (x.1.next i, x.2.step x.1 i)

/-- No operation of a burst is queued while a conflicting one, on the same word and one of the
two a write, waits in another FIFO; and a read is accepted only if the writes of its words have
all got their responses. -/
def InOrder (x : AxiMem n × MemHistory) : MemCall → Prop
  | .writeData data mask _ => x.1.writer.valid = true →
    Apart x.1.controller.opFifo x.1.writer.fifo (x.1.writer.beatReqs data mask)
  | .readAddr tag addr len size => ∀ fifo ∈ x.1.controller.loadBalance,
    Apart x.1.controller.opFifo fifo (readReqs tag addr len size) ∧
      ∀ op ∈ readReqs tag addr len size, ∀ w ∈ x.2.waiting.flatten ++ x.2.current,
        w.addr ≠ op.addr
  | _ => True

/-- The beats that were returned for a tag are, from the first on, those of its burst; and the
others follow, once enough operations are performed. -/
def Honoured (x : AxiMem n × MemHistory) : Prop :=
  (∀ tag, x.2.got tag <+: x.2.expected tag) ∧ ∃ opTotal beats, ∀ tag,
    ((memMachine n).run x (.step opTotal :: .replicate beats .readData)).2.got tag =
      x.2.expected tag

/-- A memory controller after its construction, with any memory loaded. -/
structure AxiMem.Fresh (s : AxiMem n) : Prop where
  opFifo : s.controller.opFifo = fun _ => []
  respMap : s.controller.respMap = fun _ => []
  respQue : s.controller.respQue = []
  valid : s.writer.valid = false
  resps : s.writer.resps = []

/-! ## Invariants -/

/-- Only the final one of some beats is marked. -/
def LastMarked : List ReadBeat → Prop
  | [] => True
  | b :: rest => b.2 = rest.isEmpty ∧ LastMarked rest

/-- The read burst of a tag: `rest` are the beats that it has not returned, whose words are in
the response list or to be read by operations of one FIFO. -/
structure Reading (c : MemoryController n) (r : AXIMemReader) (expected got : List ReadBeat)
    (tag : BitVec 32) (k : Fin n) (rest : List ReadBeat) : Prop where
  split : expected = got ++ rest
  words : c.respMap tag ++ answers mergeBytes tag c.mem (c.opFifo k) = rest.flatMap Prod.fst
  only : ∀ k', k' ≠ k → ∀ op ∈ c.opFifo k', ¬ op.IsReadOf tag
  ready : c.respQue.count tag = (c.respMap tag).length / c.respLen tag
  beats : ∀ b ∈ rest, b.1.length = c.respLen tag
  marked : LastMarked rest
  tracked : rest ≠ [] → 0 < c.respLen tag ∧ r.trackerSize tag = 4 * c.respLen tag ∧
    r.trackerLen tag + 1 = rest.length

/-- The memory with all that was written. -/
def MemHistory.written (g : MemHistory) : BitVec 32 → BitVec 32 :=
  performAll mergeBytes g.responded (g.waiting.flatten ++ g.current)

structure MemInv (x : AxiMem n × MemHistory) : Prop where
  orderly : Orderly mergeBytes x.1.controller.opFifo x.1.controller.mem x.2.written
  reading : ∀ tag, ∃ k rest, Reading x.1.controller x.1.reader (x.2.expected tag) (x.2.got tag)
    tag k rest
  burst : x.1.writer.valid → 0 < x.2.words ∧ x.1.writer.size = 4 * x.2.words ∧
    x.1.writer.addr = x.2.base + BitVec.ofNat 32 (4 * (x.2.beats * x.2.words))

/-! ## One burst -/

variable {size : BitVec 3}

/-- A beat of four bytes or more is made of words. -/
theorem pow_size_eq (h : 2 ≤ size.toNat) :
    2 ^ size.toNat = 4 * (2 ^ size.toNat / 4) ∧ 0 < 2 ^ size.toNat / 4 := by
  have hdvd : 4 ∣ 2 ^ size.toNat := Nat.pow_dvd_pow 2 h
  exact ⟨(Nat.mul_div_cancel' hdvd).symm,
    Nat.div_pos (Nat.le_of_dvd (Nat.two_pow_pos _) hdvd) (by decide)⟩

/-- The words of all beats, in order. -/
theorem flatMap_range_mul {α : Type*} (f : ℕ → α) (m l : ℕ) :
    (List.range m).flatMap (fun j => (List.range l).map fun i => f (j * l + i)) =
      (List.range (m * l)).map f := by
  induction m with
  | zero => simp
  | succ m ih =>
    rw [range_succ, flatMap_append, ih, Nat.succ_mul, range_add, map_append,
      map_map]
    simp [comp_def]

theorem lastMarked_range (f : ℕ → List (BitVec 32)) (m s : ℕ) :
    LastMarked ((List.range' s m).map fun j => (f j, j + 1 == s + m)) := by
  induction m generalizing s with
  | zero => trivial
  | succ m ih =>
    rw [List.range'_succ, map_cons]
    refine ⟨?_, ?_⟩
    · cases m <;> simp [List.range'_succ]
    · simpa [Nat.add_comm, Nat.add_left_comm] using ih (s + 1)

section Promised

variable {g : MemHistory} {tag addr : BitVec 32} {len : BitVec 8} {size : BitVec 3}

theorem readReqs_eq (hsize : 2 ≤ size.toNat) :
    readReqs tag addr len size = ((List.range ((len.toNat + 1) * (2 ^ size.toNat / 4))).map fun i =>
      addr + BitVec.ofNat 32 (4 * i)).map (.read tag) := by
  have hdvd : 4 ∣ 2 ^ size.toNat := Nat.pow_dvd_pow 2 hsize
  have hpos := (pow_size_eq hsize).2
  rw [readReqs, if_neg (by omega), Nat.mul_div_assoc _ hdvd, map_map]
  rfl

theorem promised_words :
    (g.promised addr len size).flatMap Prod.fst =
      ((List.range ((len.toNat + 1) * (2 ^ size.toNat / 4))).map fun i =>
        addr + BitVec.ofNat 32 (4 * i)).map g.responded := by
  rw [MemHistory.promised, flatMap_map, map_map]
  exact flatMap_range_mul (fun i => g.responded (addr + BitVec.ofNat 32 (4 * i))) _ _

theorem promised_marked : LastMarked (g.promised addr len size) := by
  have h := lastMarked_range (fun j => (List.range (2 ^ size.toNat / 4)).map fun i =>
    g.responded (addr + BitVec.ofNat 32 (4 * (j * (2 ^ size.toNat / 4) + i)))) (len.toNat + 1) 0
  simpa [MemHistory.promised, range_eq_range'] using h

end Promised

section Burst

variable {c : MemoryController n} {r : AXIMemReader} {final : BitVec 32 → BitVec 32}
  {expected got rest : List ReadBeat} {tag : BitVec 32} {k k₀ : Fin n}

section

variable (h : Reading c r expected got tag k rest)

include h

/-- The other FIFOs' reads are not concerned. -/
theorem Reading.perform (ho : Orderly mergeBytes c.opFifo c.mem final) (k₀ : Fin n) :
    Reading (c.perform k₀) r expected got tag k rest := by
  unfold MemoryController.perform
  have hq : ∀ {op : MemoryOperation} {ops k'}, c.opFifo k₀ = op :: ops →
      ∀ op' ∈ update c.opFifo k₀ ops k', op' ∈ c.opFifo k' := by
    intro op ops k' hf op' hop'
    by_cases hk : k' = k₀
    · subst hk
      rw [update_self] at hop'
      rw [hf]
      exact mem_cons_of_mem _ hop'
    · rwa [update_of_ne hk] at hop'
  -- the answers to come, without the one of the operation performed now
  have hanswers : ∀ {op : MemoryOperation} {ops}, c.opFifo k₀ = op :: ops →
      answers mergeBytes tag c.mem (c.opFifo k) =
        (if k = k₀ then answers mergeBytes tag c.mem [op] else []) ++
          answers mergeBytes tag (op.perform mergeBytes c.mem)
            (update c.opFifo k₀ ops k) := by
    intro op ops hf
    by_cases hk : k = k₀
    · subst hk
      rw [if_pos rfl, update_self, hf, answers_cons]
    · rw [if_neg hk, update_of_ne hk, ho.answers_pop hf hk, nil_append]
  split
  · exact h
  next a w ops hf =>
    refine { h with words := ?_, only := fun k' hk op hop => h.only k' hk op (hq hf op hop) }
    have hw := h.words
    rw [hanswers hf] at hw
    simpa [answers, Op.perform] using hw
  next t a ops hf =>
    have honly : ∀ k', k' ≠ k → ∀ op ∈ update c.opFifo k₀ ops k', ¬ op.IsReadOf tag :=
      fun k' hk op hop => h.only k' hk op (hq hf op hop)
    have hw := h.words
    rw [hanswers hf] at hw
    by_cases ht : t = tag
    · -- the answer is the next word of the burst
      subst ht
      obtain rfl : k = k₀ := by
        by_contra hk
        exact h.only k₀ (Ne.symm hk) (.read t a) (by simp [hf]) rfl
      refine { h with words := ?_, only := honly, ready := ?_ }
      · simpa [answers, Op.perform] using hw
      · simp only [update_self, length_append, length_singleton, Nat.succ_div,
          ← h.ready, Nat.dvd_iff_mod_eq_zero]
        split_ifs <;> simp
    · refine { h with words := ?_, only := honly, ready := ?_ }
      · simpa [answers, Op.perform, ht, update_of_ne (Ne.symm ht)] using hw
      · have hready := h.ready
        simp only [update_of_ne (Ne.symm ht)]
        split_ifs <;> simpa [count_append, ht] using hready

/-- Operations without a read of a tag do not concern its burst. -/
theorem Reading.queued (fifo : Fin n)
    {ops : List MemoryOperation} (hops : ∀ op ∈ ops, ¬ op.IsReadOf tag) :
    Reading (c.addReqs fifo ops) r expected got tag k rest := by
  refine { h with words := ?_, only := fun k' hk op hop => ?_ }
  · rw [← h.words]
    by_cases hk : k = fifo
    · subst hk
      simp [addReqs, answers_append, answers_eq_nil hops]
    · simp [addReqs, hk]
  · rcases mem_update_append.1 hop with hop | ⟨-, hop⟩
    · exact h.only k' hk op hop
    · exact hops op hop

/-- A burst with a tag that is not in use. -/
theorem Reading.start
    (hdone : got.length = expected.length) {fifo : Fin n} (hempty : c.opFifo fifo = [])
    {addr : BitVec 32} {len : BitVec 8} (hsize : 2 ≤ size.toNat) {g : MemHistory}
    (hval : ∀ op ∈ readReqs tag addr len size, c.mem op.addr = g.responded op.addr) :
    Reading
      { c.addReqs fifo (readReqs tag addr len size) with
        respLen := update c.respLen tag (wordsOf (2 ^ size.toNat)) }
      { trackerLen := update r.trackerLen tag len.toNat
        trackerSize := update r.trackerSize tag (2 ^ size.toNat) }
      (g.promised addr len size) [] tag fifo (g.promised addr len size) := by
  -- the burst before it has returned all beats
  obtain rfl : rest = [] := by
    have hlen := congrArg List.length h.split
    rw [length_append] at hlen
    exact eq_nil_of_length_eq_zero (by omega)
  have hwords := h.words
  rw [flatMap_nil, append_eq_nil_iff] at hwords
  obtain ⟨hpow, hpos⟩ := pow_size_eq hsize
  have hwordsOf : wordsOf (2 ^ size.toNat) = 2 ^ size.toNat / 4 := if_neg (by omega)
  have hreqs : readReqs tag addr len size = _ := readReqs_eq hsize
  refine ⟨rfl, ?_, fun k' hk op hop => ?_, ?_, fun b hb => ?_, promised_marked, fun _ => ?_⟩
  · simp only [addReqs, update_self, hempty, hwords.1, nil_append]
    rw [hreqs, answers_reads, promised_words]
    refine map_congr_left fun a ha => hval (.read tag a) ?_
    rw [hreqs]
    exact mem_map_of_mem ha
  · simp only [addReqs, update_of_ne hk] at hop
    by_cases hkk : k' = k
    · subst hkk
      exact not_isReadOf_of_answers hwords.2 op hop
    · exact h.only k' hkk op hop
  · simpa [addReqs, hwords.1] using h.ready
  · obtain ⟨j, -, rfl⟩ := mem_map.1 hb
    simp [hwordsOf]
  · simp only [update_self, hwordsOf, MemHistory.promised, length_map, length_range]
    exact ⟨hpos, hpow, trivial⟩

/-- A tag that is ready has the words of its next beat. -/
theorem Reading.beat {que : List (BitVec 32)} (hq : c.respQue = tag :: que) :
    ∃ b rest',
      ((c.respMap tag).take (wordsOf (r.trackerSize tag)), decide (r.trackerLen tag = 0)) = b ∧
      Reading
        { c with
          respQue := que
          respMap := update c.respMap tag
            ((c.respMap tag).drop (wordsOf (r.trackerSize tag))) }
        { r with trackerLen := update r.trackerLen tag (r.trackerLen tag - 1) }
        expected (got ++ [b]) tag k rest' := by
  have hready := h.ready
  rw [hq, count_cons_self] at hready
  have hpos : 0 < c.respLen tag := by
    by_contra hz
    simp [Nat.eq_zero_of_not_pos hz] at hready
  have hle : c.respLen tag ≤ (c.respMap tag).length := by
    by_contra hlt
    rw [Nat.div_eq_of_lt (by omega)] at hready
    omega
  have hwords := h.words
  cases rest with
  | nil =>
    rw [flatMap_nil, append_eq_nil_iff] at hwords
    rw [hwords.1] at hle
    exact absurd hle (by simpa using hpos.ne')
  | cons b rest =>
    obtain ⟨-, hsize, hlen⟩ := h.tracked (by simp)
    have hb : b.1.length = c.respLen tag := h.beats b (by simp)
    have hwordsOf : wordsOf (r.trackerSize tag) = c.respLen tag := by
      rw [hsize, wordsOf, if_neg (by omega), Nat.mul_div_cancel_left _ (by decide)]
    -- the words come in the order of the beats, so the front ones are those of `b`
    have htake := congrArg (List.take (c.respLen tag)) hwords
    have hdrop := congrArg (List.drop (c.respLen tag)) hwords
    rw [take_append_of_le_length hle, flatMap_cons,
      take_append_of_le_length hb.ge, take_of_length_le hb.le] at htake
    rw [drop_append_of_le_length hle, flatMap_cons,
      drop_append_of_le_length hb.ge, drop_of_length_le hb.le] at hdrop
    have hlast : decide (r.trackerLen tag = 0) = b.2 := by
      rw [h.marked.1]
      cases rest <;> simp_all
    rw [hwordsOf, htake, hlast]
    refine ⟨b, rest, rfl, by simp [h.split], ?_, h.only, ?_, ?_, h.marked.2, fun hne => ?_⟩
    all_goals simp only [update_self]
    · exact hdrop
    · rw [Nat.div_eq_sub_div hpos hle] at hready
      rw [length_drop]
      exact Nat.succ.inj hready
    · exact fun b' hb' => h.beats b' (by simp [hb'])
    · refine ⟨hpos, hsize, ?_⟩
      rw [length_cons] at hlen
      have := length_pos_iff.2 hne
      omega

end

theorem orderly_perform (ho : Orderly mergeBytes c.opFifo c.mem final) (k₀ : Fin n) :
    Orderly mergeBytes (c.perform k₀).opFifo (c.perform k₀).mem final := by
  unfold MemoryController.perform
  split
  · exact ho
  next hf => exact ho.pop hf
  next hf => exact ho.pop hf

end Burst

/-! ## Calls keep the invariant -/

variable {x : AxiMem n × MemHistory}

theorem MemInv.step (h : MemInv x) (opTotal : ℕ) :
    MemInv ((memMachine n).next x (.step opTotal)) := by
  change MemInv ({ x.1 with controller := x.1.controller.step opTotal }, x.2)
  induction opTotal with
  | zero => exact h
  | succ i ih =>
    -- one more operation, of the FIFO that has its turn
    rw [MemoryController.step, iterate_succ_apply']
    refine ⟨orderly_perform ih.orderly _, fun tag => ?_, h.burst⟩
    obtain ⟨k, rest, hr⟩ := ih.reading tag
    exact ⟨k, rest, { hr.perform ih.orderly _ with }⟩

theorem MemInv.writeAddr (h : MemInv x) (tag addr : BitVec 32) (len : BitVec 8)
    (hok : Fits x (.writeAddr tag addr len size)) :
    MemInv ((memMachine n).next x (.writeAddr tag addr len size)) := by
  change MemInv ((x.1.writeAddrReq tag addr len size).getD x.1, x.2.step x.1 _)
  cases hreq : x.1.writeAddrReq tag addr len size with
  | none => simpa [MemHistory.step, hreq] using h
  | some s =>
    obtain ⟨hsize, hpos⟩ := pow_size_eq (hok (by simp [hreq])).2
    simp only [MemHistory.step, hreq, Option.isSome_some, if_true, Option.getD_some]
    simp only [AxiMem.writeAddrReq] at hreq
    split_ifs at hreq
    obtain ⟨fifo, -, rfl⟩ := Option.map_eq_some_iff.1 hreq
    exact ⟨h.orderly, h.reading, fun _ => ⟨hpos, hsize, by simp⟩⟩

/-- The controller queues the writes of the beat. -/
theorem MemInv.beatReqs_eq (h : MemInv x) (hv : x.1.writer.valid) (data : ℕ → BitVec 32)
    (mask : BitVec 32) : x.1.writer.beatReqs data mask = x.2.beatWrites data mask := by
  obtain ⟨hpos, hsize, haddr⟩ := h.burst hv
  rw [AXIMemWriter.beatReqs, if_neg (by omega), MemHistory.beatWrites, hsize,
    Nat.mul_div_cancel_left _ (by decide)]
  refine map_congr_left fun i _ => ?_
  rw [haddr, BitVec.add_assoc, ← BitVec.ofNat_add, Nat.mul_add 4 (x.2.beats * x.2.words)]

theorem MemInv.writeData (h : MemInv x) {data : ℕ → BitVec 32} {mask : BitVec 32} {last : Bool}
    (hok : Fits x (.writeData data mask last)) (hin : InOrder x (.writeData data mask last)) :
    MemInv ((memMachine n).next x (.writeData data mask last)) := by
  change MemInv ((x.1.writeDataReq data mask).getD x.1, x.2.step x.1 _)
  cases hv : x.1.writer.valid with
  | false => simpa [MemHistory.step, AxiMem.writeDataReq, hv] using h
  | true =>
    have hops := h.beatReqs_eq hv data mask
    have hord := h.orderly.push (hin hv)
    have hreads : ∀ tag, ∀ op ∈ x.1.writer.beatReqs data mask, ¬ op.IsReadOf tag := by
      intro tag op hop
      rw [hops] at hop
      obtain ⟨i, -, rfl⟩ := mem_map.1 hop
      exact id
    have hread := fun tag => (h.reading tag).imp fun k => Exists.imp fun rest hr =>
      hr.queued x.1.writer.fifo (hreads tag)
    obtain ⟨hpos, hsize, haddr⟩ := h.burst hv
    rw [hops] at hord
    cases hlast : last with
    | true =>
      have hlen : x.1.writer.len = 0 := by simpa [hlast] using hok hv
      simp only [AxiMem.writeDataReq, MemHistory.step, hv, hlen, if_true, Option.getD_some]
      refine ⟨?_, hread, fun hv' => absurd hv' (by simp)⟩
      simpa [MemHistory.written, addReqs, hops, performAll] using hord
    | false =>
      have hlen : x.1.writer.len ≠ 0 := by simpa [hlast] using hok hv
      simp only [AxiMem.writeDataReq, MemHistory.step, hv, if_neg hlen, if_true,
        Bool.false_eq_true, if_false, Option.getD_some]
      refine ⟨?_, hread, fun _ => ⟨hpos, hsize, ?_⟩⟩
      · simpa [MemHistory.written, addReqs, hops, performAll] using hord
      · rw [if_neg (by omega), hsize, Nat.mul_div_cancel_left _ (by decide), haddr,
          BitVec.add_assoc, ← BitVec.ofNat_add, ← Nat.mul_add, ← Nat.succ_mul]

theorem MemInv.writeResp (h : MemInv x) : MemInv ((memMachine n).next x .writeResp) := by
  cases hr : x.1.writer.resps with
  | nil => simpa [memMachine, AxiMem.next, AxiMem.writerRespReq, MemHistory.step, hr] using h
  | cons tag resps =>
    cases hw : x.2.waiting with
    | nil =>
      simp only [memMachine, AxiMem.next, AxiMem.writerRespReq, MemHistory.step, hr, hw,
        Option.map_some, Option.getD_some]
      exact ⟨h.orderly, h.reading, h.burst⟩
    | cons ws rest =>
      simp only [memMachine, AxiMem.next, AxiMem.writerRespReq, MemHistory.step, hr, hw,
        Option.map_some, Option.getD_some]
      refine ⟨?_, h.reading, h.burst⟩
      have hord := h.orderly
      simpa [MemHistory.written, hw, performAll] using hord

theorem loadBalance_isEmpty {c : MemoryController n} {fifo : Fin n}
    (h : c.loadBalance = some fifo) : c.opFifo fifo = [] := by
  have hfrom : ∀ i (k : Fin n), c.loadBalanceFrom k i = some fifo → c.opFifo fifo = [] := by
    intro i
    induction i with
    | zero => simp [MemoryController.loadBalanceFrom]
    | succ i ih =>
      intro k hk
      rw [MemoryController.loadBalanceFrom] at hk
      split_ifs at hk with he
      · obtain rfl := Option.some.inj hk
        simpa using he
      · exact ih _ hk
  exact hfrom n c.rrIndex h

theorem MemInv.readAddr (h : MemInv x) {tag addr : BitVec 32} {len : BitVec 8}
    (hok : Fits x (.readAddr tag addr len size)) (hin : InOrder x (.readAddr tag addr len size)) :
    MemInv ((memMachine n).next x (.readAddr tag addr len size)) := by
  cases hl : x.1.controller.loadBalance with
  | none => simpa [memMachine, AxiMem.next, AxiMem.readerAddrReq, MemHistory.step, hl] using h
  | some fifo =>
    have hempty := loadBalance_isEmpty hl
    obtain ⟨happ, hdone⟩ := hin fifo hl
    obtain ⟨-, hsize, hfree⟩ := hok (by simp [AxiMem.readerAddrReq, hl])
    have hread : ∀ op ∈ readReqs tag addr len size, ∃ a, op = .read tag a := by
      intro op hop
      rw [readReqs_eq hsize] at hop
      obtain ⟨a, -, rfl⟩ := mem_map.1 hop
      exact ⟨a, rfl⟩
    have hord := h.orderly.push happ
    have hfinal : performAll mergeBytes x.2.written (readReqs tag addr len size) = x.2.written := by
      funext a
      refine performAll_apply fun op hop hw => ?_
      obtain ⟨b, rfl⟩ := hread op hop
      cases hw
    rw [hfinal] at hord
    -- every write to a word of the burst is performed, and responded
    have hval : ∀ op ∈ readReqs tag addr len size,
        x.1.controller.mem op.addr = x.2.responded op.addr := by
      intro op hop
      have hmem := h.orderly.leads fifo op.addr fun k hk op' hop' hw he => by
        simpa [hw] using happ op hop k hk op' hop' he
      rw [hempty] at hmem
      exact hmem.trans (performAll_apply fun w hw _ => hdone op hop w hw)
    simp only [memMachine, AxiMem.next, AxiMem.readerAddrReq, MemHistory.step, hl, Option.map_some,
      Option.getD_some, Option.isSome_some, if_true]
    refine ⟨hord, fun t => ?_, h.burst⟩
    dsimp only
    obtain ⟨k, rest, hr⟩ := h.reading t
    by_cases ht : t = tag
    · subst ht
      rw [update_self, update_self]
      exact ⟨fifo, _, hr.start hfree hempty hsize hval⟩
    · have hother : ∀ op ∈ readReqs tag addr len size, ¬ op.IsReadOf t := by
        intro op hop hrd
        obtain ⟨a, rfl⟩ := hread op hop
        exact ht hrd.symm
      have hr' := hr.queued fifo hother
      rw [update_of_ne ht, update_of_ne ht]
      refine ⟨k, rest, hr'.split, hr'.words, hr'.only, ?_, ?_, hr'.marked, ?_⟩
      all_goals simp only [update_of_ne ht]
      · exact hr'.ready
      · exact hr'.beats
      · exact hr'.tracked

theorem MemInv.readData (h : MemInv x) : MemInv ((memMachine n).next x .readData) := by
  cases hq : x.1.controller.respQue with
  | nil => simpa [memMachine, AxiMem.next, AxiMem.readerDataReq, MemHistory.step, hq] using h
  | cons tag que =>
    simp only [memMachine, AxiMem.next, AxiMem.readerDataReq, MemHistory.step, hq, Option.map_some,
      Option.getD_some]
    refine ⟨h.orderly, fun t => ?_, h.burst⟩
    dsimp only
    obtain ⟨k, rest, hr⟩ := h.reading t
    by_cases ht : t = tag
    · subst ht
      obtain ⟨b, rest', hb, hr'⟩ := hr.beat hq
      rw [update_self, hb]
      exact ⟨k, rest', hr'⟩
    · have hready := hr.ready
      rw [hq, count_cons_of_ne (Ne.symm ht)] at hready
      rw [update_of_ne ht]
      refine ⟨k, rest, hr.split, ?_, hr.only, ?_, hr.beats, hr.marked, ?_⟩
      all_goals simp only [update_of_ne ht]
      · exact hr.words
      · exact hready
      · exact hr.tracked

theorem MemInv.next (h : MemInv x) {i : MemCall} (hok : Fits x i) (hin : InOrder x i) :
    MemInv ((memMachine n).next x i) := by
  cases i with
  | writeAddr tag addr len size => exact h.writeAddr tag addr len hok
  | writeData data mask last => exact h.writeData hok hin
  | writeResp => exact h.writeResp
  | readAddr tag addr len size => exact h.readAddr hok hin
  | readData => exact h.readData
  | step opTotal => exact h.step opTotal

theorem MemInv.init {s : AxiMem n} (hs : s.Fresh) : MemInv (s, .init s.controller.mem) where
  orderly := by
    rw [hs.opFifo]
    exact ⟨fun k op hop => by simp at hop, fun k a _ => rfl⟩
  reading tag := by
    refine ⟨s.controller.rrIndex, [], rfl, ?_, ?_, ?_, by simp, trivial, by simp⟩
    all_goals simp [hs.opFifo, hs.respMap, hs.respQue, answers]
  burst hv := by simp [hs.valid] at hv

/-! ## The reads come back -/

section Drain

variable (c : MemoryController n) (k : Fin n)

theorem serve_opFifo :
    c.serve.opFifo k = if k = c.rrIndex then (c.opFifo k).tail else c.opFifo k := by
  unfold MemoryController.serve MemoryController.perform
  by_cases hk : k = c.rrIndex
  · subst hk
    split <;> simp_all
  · split <;> simp [hk]

theorem length_iterate_serve (i : ℕ) : ((serve^[i] c).opFifo k).length ≤ (c.opFifo k).length := by
  induction i generalizing c with
  | zero => exact le_rfl
  | succ i ih =>
    refine (ih c.serve).trans ?_
    rw [serve_opFifo]
    split_ifs <;> simp

theorem rrIndex_iterate_serve (i : ℕ) : ((serve^[i] c).rrIndex : ℕ) = (c.rrIndex + i) % n := by
  induction i with
  | zero => exact (Nat.mod_eq_of_lt c.rrIndex.isLt).symm
  | succ i ih =>
    rw [iterate_succ_apply', MemoryController.serve]
    simp [rrNext, ih, Nat.add_assoc]

/-- A round visits every FIFO. -/
theorem length_round :
    ((serve^[n] c).opFifo k).length ≤ (c.opFifo k).length - 1 := by
  obtain ⟨j, hj, hk⟩ : ∃ j < n, (c.rrIndex + j) % n = k := by
    refine ⟨(k + (n - c.rrIndex)) % n, Nat.mod_lt _ k.pos, ?_⟩
    rw [Nat.add_mod_mod, ← Nat.add_assoc, Nat.add_right_comm, Nat.add_sub_cancel' c.rrIndex.isLt.le,
      Nat.add_mod_left, Nat.mod_eq_of_lt k.isLt]
  have hvisit : k = (serve^[j] c).rrIndex :=
    Fin.ext (hk.symm.trans (rrIndex_iterate_serve c j).symm)
  calc ((serve^[n] c).opFifo k).length
      = ((serve^[n - (j + 1)] (serve^[j + 1] c)).opFifo k).length := by
        rw [← iterate_add_apply, Nat.sub_add_cancel hj]
    _ ≤ ((serve^[j + 1] c).opFifo k).length := length_iterate_serve _ k _
    _ = ((serve^[j] c).opFifo k).length - 1 := by
        rw [iterate_succ_apply', serve_opFifo, if_pos hvisit, length_tail]
    _ ≤ (c.opFifo k).length - 1 := Nat.sub_le_sub_right (length_iterate_serve c k j) 1

theorem exists_step_empty : ∃ opTotal, ∀ k, (c.step opTotal).opFifo k = [] := by
  have hrounds : ∀ i k, ((c.step (n * i)).opFifo k).length ≤ (c.opFifo k).length - i := by
    intro i
    induction i with
    | zero => exact fun k => le_rfl
    | succ i ih =>
      intro k
      rw [MemoryController.step, Nat.mul_succ, Nat.add_comm, iterate_add_apply]
      exact (length_round _ k).trans (Nat.sub_le_sub_right (ih k) 1)
  refine ⟨n * Finset.univ.sup fun k => (c.opFifo k).length, fun k => ?_⟩
  have hle : (c.opFifo k).length ≤ Finset.univ.sup fun k => (c.opFifo k).length :=
    Finset.le_sup (f := fun k => (c.opFifo k).length) (Finset.mem_univ k)
  have := hrounds (Finset.univ.sup fun k => (c.opFifo k).length) k
  exact eq_nil_of_length_eq_zero (by omega)

end Drain

/-- A beat is returned for every entry of the queue. -/
theorem MemInv.run_readData (h : MemInv x) {beats : ℕ}
    (hq : x.1.controller.respQue.length = beats) :
    let y := (memMachine n).run x (.replicate beats .readData)
    MemInv y ∧ y.2.expected = x.2.expected ∧ y.1.controller.respQue = [] ∧
      y.1.controller.opFifo = x.1.controller.opFifo := by
  induction beats generalizing x with
  | zero => exact ⟨h, rfl, eq_nil_of_length_eq_zero hq, rfl⟩
  | succ beats ih =>
    obtain ⟨tag, que, hque⟩ := exists_cons_of_length_eq_add_one hq
    have hnext := ih h.readData (by
      simpa [memMachine, AxiMem.next, AxiMem.readerDataReq, hque] using hq)
    simpa [replicate_succ, memMachine, AxiMem.next, AxiMem.readerDataReq, MemHistory.step,
      hque] using hnext

/-- When nothing waits, everything was returned. -/
theorem MemInv.got_eq (h : MemInv x) (hempty : ∀ k, x.1.controller.opFifo k = [])
    (hque : x.1.controller.respQue = []) (tag : BitVec 32) : x.2.got tag = x.2.expected tag := by
  obtain ⟨k, rest, hr⟩ := h.reading tag
  have hready := hr.ready
  have hwords := hr.words
  rw [hque, count_nil] at hready
  rw [hempty k, answers, append_nil] at hwords
  cases rest with
  | nil => simpa using hr.split.symm
  | cons b rest =>
    -- the words of a beat would be ready
    exfalso
    obtain ⟨hpos, -, -⟩ := hr.tracked (by simp)
    have hb : b.1.length = x.1.controller.respLen tag := hr.beats b (by simp)
    rw [hwords, flatMap_cons, length_append, hb, Nat.add_div_left _ hpos] at hready
    exact Nat.succ_ne_zero _ hready.symm

theorem MemInv.honoured (h : MemInv x) : Honoured x := by
  refine ⟨fun tag => ?_, ?_⟩
  · obtain ⟨k, rest, hr⟩ := h.reading tag
    exact ⟨rest, hr.split.symm⟩
  · obtain ⟨opTotal, hempty⟩ := exists_step_empty x.1.controller
    obtain ⟨hy, hexp, hque, hfifo⟩ := (h.step opTotal).run_readData rfl
    refine ⟨opTotal, (x.1.controller.step opTotal).respQue.length, fun tag => ?_⟩
    exact (hy.got_eq (fun k => (congrFun hfifo k).trans (hempty k)) hque tag).trans
      (congrFun hexp tag)

/-! ## The main results -/

/-- In every run of such calls, from any memory, reads return what the write responses handed out
before them promise, in the order of the addresses and with the final beat marked. -/
theorem memory_honours_responses {s : AxiMem n} (hs : s.Fresh) (xs : List MemCall)
    (hl : ((memMachine n).restrict InOrder).Legal (s, .init s.controller.mem) xs) :
    Honoured ((memMachine n).run (s, .init s.controller.mem) xs) := by
  have hinv := Machine.invariant_run (m := (memMachine n).restrict InOrder) (P := MemInv)
    (fun x i h hok => h.next hok.1 hok.2) (MemInv.init hs) hl
  rw [Machine.run_restrict] at hinv
  exact hinv.honoured

instance (x : AxiMem n × MemHistory) (i : MemCall) : Decidable ((memMachine n).ok x i) := by
  unfold memMachine Fits
  cases i <;> infer_instance

instance (x : AxiMem n × MemHistory) (i : MemCall) : Decidable (InOrder x i) := by
  unfold InOrder Apart
  cases i <;> infer_instance

local instance neZeroFifos : NeZero 4 := ⟨by decide⟩

/-- The memory of the simulation, without a program. -/
def emptyMem : AxiMem 4 where
  controller :=
    { mem := fun _ => 0, opFifo := fun _ => [], respMap := fun _ => [], respLen := fun _ => 0
      respQue := [], rrIndex := 0 }
  writer :=
    { tag := 0, addr := 0, len := 0, size := 0, mask := 0, fifo := 0, valid := false, resps := [] }
  reader := { trackerLen := fun _ => 0, trackerSize := fun _ => 0 }

/-- Two words are written, and the response is taken. -/
def twoWords : List MemCall :=
  [.writeAddr 1 0 0 3, .writeData (fun i => if i = 0 then 0x11 else 0x22) 0xff true, .writeResp]

/-- The second of them is read. -/
def readSecond : List MemCall := [.readAddr 2 4 0 2, .step 2, .readData]

/-- Once the writes are performed, the read returns the word. -/
theorem memory_honours_two_words :
    ((memMachine 4).restrict InOrder).Legal (emptyMem, .init fun _ => 0)
        (twoWords ++ [.step 4, .step 4] ++ readSecond) ∧
      Honoured ((memMachine 4).run (emptyMem, .init fun _ => 0)
        (twoWords ++ [.step 4, .step 4] ++ readSecond)) := by
  have hl : ((memMachine 4).restrict InOrder).Legal (emptyMem, .init fun _ => 0)
      (twoWords ++ [.step 4, .step 4] ++ readSecond) := by decide +kernel
  exact ⟨hl, memory_honours_responses (s := emptyMem) ⟨rfl, rfl, rfl, rfl, rfl⟩ _ hl⟩

/-- The read is served from another FIFO when the first word is written only: it returns the old
value of the second. -/
theorem read_overtakes_write :
    (memMachine 4).Legal (emptyMem, .init fun _ => 0) (twoWords ++ readSecond) ∧
      ¬ Honoured ((memMachine 4).run (emptyMem, .init fun _ => 0) (twoWords ++ readSecond)) := by
  refine ⟨by decide +kernel, fun h => ?_⟩
  have hgot := h.1 2
  revert hgot
  decide +kernel

end TaggedRiscv.Board
