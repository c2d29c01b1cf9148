import TaggedRiscv.Lib.Machine

/-!
# The serializer (`FlowThroughSerializer`)

The serializer sends the data of a message in `n` chunks, one in each message it puts out; a
message without data goes out as it is. The serializer takes a message whenever its register is
free, whether or not its output is ready then. A message with data is in the register after that,
but a message without data that nobody takes is gone.
-/

namespace TaggedRiscv

open Sync

/-- A message: its data, and everything else, which tells whether it has data
(`HasTileLinkData`). -/
structure DataMsg (H : Type) (w : ℕ) where
  header : H
  data : BitVec w
  deriving DecidableEq

/-- The registers for messages of `w` data bits in `n` chunks. -/
structure FlowThroughSerializer (H : Type) (w : ℕ) where
  cnt : ℕ
  rbits : DataMsg H w
  active : Bool

/-- The inputs of a cycle. -/
structure SerializerIn (H : Type) (w : ℕ) where
  input : Option (DataMsg H w)
  outReady : Bool

namespace FlowThroughSerializer

variable {H : Type} {w : ℕ} (hasData : H → Bool) (n : ℕ) (s : FlowThroughSerializer H w)
  (i : SerializerIn H w)

/-- The width of a chunk. -/
def narrowWidth (w n : ℕ) : ℕ := w / n

/-- Chunk `k` of the data. -/
def shifter (data : BitVec w) (k : ℕ) : BitVec (narrowWidth w n) :=
  data.extractLsb' (k * narrowWidth w n) (narrowWidth w n)

/-- The message that is taken (`io.in.fire()`). -/
def accepted : Option (DataMsg H w) := if s.active then none else i.input

/-- The message on the output. -/
def out : Option (DataMsg H w) :=
  if s.active then some { s.rbits with data := (shifter n s.rbits.data s.cnt).setWidth w }
  else i.input

/-- The message that is sent (`io.out.fire()`). -/
def sent : Option (DataMsg H w) := if i.outReady then s.out n i else none

/-- The message is through (`io.done`). -/
def done : Bool :=
  if s.active then i.outReady && decide (s.cnt = n - 1)
  else i.input.any fun m => !hasData m.header

def next : FlowThroughSerializer H w :=
  if s.active then
    if i.outReady then
      if s.cnt = n - 1 then { s with cnt := 0, active := false } else { s with cnt := s.cnt + 1 }
    else s
  else match i.input with
    | some m =>
      if hasData m.header then
        { cnt := if i.outReady then 1 else 0, rbits := m, active := true }
      else s
    | none => s

end FlowThroughSerializer

/-! ## What should be sent -/

/-- What is seen of a sent message: the chunk in the low bits if it has data, else all of it. -/
inductive Seen (H : Type) (w v : ℕ)
  | chunk (header : H) (data : BitVec v)
  | whole (m : DataMsg H w)
  deriving DecidableEq

section Expected

open FlowThroughSerializer

variable {H : Type} {w : ℕ} (hasData : H → Bool) (n : ℕ)

def view (m : DataMsg H w) : Seen H w (narrowWidth w n) :=
  if hasData m.header then .chunk m.header (m.data.setWidth _) else .whole m

/-- The chunks of a message from number `k` on. -/
def chunksFrom (k : ℕ) (m : DataMsg H w) : List (Seen H w (narrowWidth w n)) :=
  (List.range' k (n - k)).map fun j => .chunk m.header (shifter n m.data j)

/-- All chunks of a message with data, or the message. -/
def expected (m : DataMsg H w) : List (Seen H w (narrowWidth w n)) :=
  if hasData m.header then chunksFrom n 0 m else [.whole m]

namespace FlowThroughSerializer

variable (s : FlowThroughSerializer H w) (i : SerializerIn H w)

/-- What the serializer still has to send. -/
def rest : List (Seen H w (narrowWidth w n)) :=
  if s.active then chunksFrom n s.cnt s.rbits else []

/-- The output is ready for a message without data. -/
def Taken : Prop := ∀ m ∈ s.accepted i, hasData m.header = false → i.outReady = true
deriving Decidable

/-- What is in the register has data, and a chunk is left. -/
structure Inv : Prop where
  hasData : s.active → hasData s.rbits.header
  cnt_lt : s.active → s.cnt < n

end FlowThroughSerializer

/-- The serializer with the messages it has taken and sent. -/
structure SerializerLog (H : Type) (w : ℕ) where
  ser : FlowThroughSerializer H w
  accepted : List (DataMsg H w)
  sent : List (DataMsg H w)

/-- Any messages are offered, and the output is ready or not. -/
def serializerMachine : Machine (SerializerLog H w) (SerializerIn H w) where
  ok _ _ := True
  next x i :=
    { ser := x.ser.next hasData n i
      accepted := x.accepted ++ (x.ser.accepted i).toList
      sent := x.sent ++ (x.ser.sent n i).toList }

/-- The runs in which no message without data finds the output stalled. -/
def takenMachine : Machine (SerializerLog H w) (SerializerIn H w) :=
  (serializerMachine hasData n).restrict fun x i => x.ser.Taken hasData i

/-- The serializer after reset, with anything in its register. -/
def SerializerLog.init (rbits : DataMsg H w) : SerializerLog H w := ⟨⟨0, rbits, false⟩, [], []⟩

/-- What was sent and what is left is what the taken messages should be sent as. -/
def SerializerLog.Lossless (x : SerializerLog H w) : Prop :=
  x.sent.map (view hasData n) ++ x.ser.rest n = x.accepted.flatMap (expected hasData n)

end Expected

/-! ## One cycle -/

section Cycle

open FlowThroughSerializer

variable {H : Type} {w n : ℕ} {hasData : H → Bool}

theorem chunksFrom_of_lt {k : ℕ} (hk : k < n) (m : DataMsg H w) :
    chunksFrom n k m = .chunk m.header (shifter n m.data k) :: chunksFrom n (k + 1) m := by
  have hlen : n - k = (n - (k + 1)) + 1 := by omega
  rw [chunksFrom, hlen, List.range'_succ, List.map_cons]
  rfl

theorem narrowWidth_le (w n : ℕ) : narrowWidth w n ≤ w := Nat.div_le_self w n

/-- A message from the register shows the chunk it carries. -/
theorem view_shifted {m : DataMsg H w} (h : hasData m.header) (k : ℕ) :
    view hasData n { m with data := (shifter n m.data k).setWidth w } =
      .chunk m.header (shifter n m.data k) := by
  simp [view, h, BitVec.setWidth_setWidth_of_le, narrowWidth_le]

/-- A message that flows through shows its first chunk. -/
theorem view_first {m : DataMsg H w} (h : hasData m.header) :
    view hasData n m = .chunk m.header (shifter n m.data 0) := by
  simp [view, h, shifter, BitVec.setWidth_eq_extractLsb' (narrowWidth_le w n)]

variable {s : FlowThroughSerializer H w} {i : SerializerIn H w}

/-- In a cycle that loses nothing, what is sent and left afterwards is what was left before
and what the taken message should be sent as. -/
theorem cycle_of_taken (hn : 2 ≤ n) (hs : s.Inv hasData n) (ht : s.Taken hasData i) :
    (s.sent n i).toList.map (view hasData n) ++ (s.next hasData n i).rest n =
      s.rest n ++ (s.accepted i).toList.flatMap (expected hasData n) := by
  obtain ⟨input, ready⟩ := i
  cases ha : s.active with
  | true =>
    have hd := hs.hasData ha
    have hlt := hs.cnt_lt ha
    cases ready with
    | false => simp [sent, next, accepted, ha]
    | true =>
      -- A chunk leaves the register; after the last one the register is free.
      have hsent : s.sent n ⟨input, true⟩ =
          some { s.rbits with data := (shifter n s.rbits.data s.cnt).setWidth w } := by
        simp [sent, out, ha]
      have hrest : s.rest n = _ := (if_pos ha).trans (chunksFrom_of_lt hlt s.rbits)
      have hnext : (s.next hasData n ⟨input, true⟩).rest n = chunksFrom n (s.cnt + 1) s.rbits := by
        by_cases hc : s.cnt = n - 1
        · have hn' : n - (s.cnt + 1) = 0 := by omega
          simp only [next, rest, ha, hc, if_true, chunksFrom] at hn' ⊢
          simp [hn']
        · simp [next, rest, ha, hc]
      simp [hsent, hrest, hnext, view_shifted hd, accepted, ha]
  | false =>
    cases input with
    | none => simp [sent, out, next, accepted, rest, ha]
    | some m =>
      cases hd : hasData m.header with
      | true =>
        cases ready with
        | false => simp [sent, next, accepted, rest, ha, hd, expected]
        | true =>
          simp [sent, out, next, accepted, rest, ha, hd, expected, view_first hd,
            chunksFrom_of_lt (show 0 < n by omega)]
      | false =>
        have hready : ready := ht m (by simp [accepted, ha]) hd
        simp [sent, out, next, accepted, rest, ha, hd, expected, view, hready]

/-- A message without data that finds the output stalled is not sent then or later. -/
theorem cycle_of_not_taken (ht : ¬ s.Taken hasData i) :
    s.rest n = [] ∧ s.sent n i = none ∧ (s.next hasData n i).rest n = [] ∧
      ∃ m, s.accepted i = some m ∧ expected hasData n m = [.whole m] := by
  simp only [Taken, not_forall] at ht
  obtain ⟨m, hm, hd, hready⟩ := ht
  cases ha : s.active with
  | true => simp [accepted, ha] at hm
  | false =>
    have hin : i.input = some m := by simpa [accepted, ha] using hm
    simp [rest, sent, next, accepted, ha, hin, hd, hready, expected]

theorem FlowThroughSerializer.Inv.next (hn : 2 ≤ n) (hs : s.Inv hasData n) :
    (s.next hasData n i).Inv hasData n := by
  obtain ⟨input, ready⟩ := i
  cases ha : s.active with
  | true =>
    have hd := hs.hasData ha
    have hlt := hs.cnt_lt ha
    simp only [FlowThroughSerializer.next, ha, if_true]
    split_ifs with hready hc
    · exact ⟨by simp, by simp⟩
    · exact ⟨fun _ => hd, fun _ => by dsimp only; omega⟩
    · exact hs
  | false =>
    cases input with
    | none => simpa [FlowThroughSerializer.next, ha] using hs
    | some m =>
      simp only [FlowThroughSerializer.next, ha, Bool.false_eq_true, if_false]
      split_ifs with hd hready
      · exact ⟨fun _ => hd, fun _ => by dsimp only; omega⟩
      · exact ⟨fun _ => hd, fun _ => by dsimp only; omega⟩
      · exact hs

end Cycle

/-! ## Whole runs -/

section Runs

open FlowThroughSerializer

variable {H : Type} {w n : ℕ} {hasData : H → Bool} {x : SerializerLog H w} {i : SerializerIn H w}

theorem lossless_next (hn : 2 ≤ n) (hinv : x.ser.Inv hasData n) (h : x.Lossless hasData n)
    (ht : x.ser.Taken hasData i) : ((serializerMachine hasData n).next x i).Lossless hasData n := by
  have hcycle := cycle_of_taken hn hinv ht
  simp only [SerializerLog.Lossless] at h
  simp only [SerializerLog.Lossless, serializerMachine, List.map_append, List.append_assoc,
    List.flatMap_append, hcycle]
  rw [← List.append_assoc, h]

/-- In no cycle is more sent than should be. -/
theorem length_cycle_le (hn : 2 ≤ n) (hinv : x.ser.Inv hasData n) :
    (x.ser.sent n i).toList.length + ((x.ser.next hasData n i).rest n).length ≤
      (x.ser.rest n).length +
        ((x.ser.accepted i).toList.flatMap (expected hasData n)).length := by
  by_cases ht : x.ser.Taken hasData i
  · have hlen := congrArg List.length (cycle_of_taken hn hinv ht)
    simp only [List.length_append, List.length_map] at hlen
    exact hlen.le
  · obtain ⟨-, hsent, hnext, -⟩ := cycle_of_not_taken (n := n) ht
    simp [hsent, hnext]

/-- How much was sent or is left, and how much should be sent. -/
def SerializerLog.sentLength (n : ℕ) (x : SerializerLog H w) : ℕ :=
  x.sent.length + (x.ser.rest n).length

def SerializerLog.expectedLength (hasData : H → Bool) (n : ℕ) (x : SerializerLog H w) : ℕ :=
  (x.accepted.flatMap (expected hasData n)).length

/-- What is missing stays missing. -/
theorem sentLength_next (hn : 2 ≤ n) (hinv : x.ser.Inv hasData n) :
    ((serializerMachine hasData n).next x i).sentLength n + x.expectedLength hasData n ≤
      x.sentLength n + ((serializerMachine hasData n).next x i).expectedLength hasData n := by
  have hle := length_cycle_le (i := i) hn hinv
  simp only [SerializerLog.sentLength, SerializerLog.expectedLength, serializerMachine,
    List.length_append, List.flatMap_append]
  omega

/-- A lost message is missing from what is sent. -/
theorem sentLength_of_not_taken (ht : ¬ x.ser.Taken hasData i)
    (h : x.sentLength n ≤ x.expectedLength hasData n) :
    ((serializerMachine hasData n).next x i).sentLength n <
      ((serializerMachine hasData n).next x i).expectedLength hasData n := by
  obtain ⟨hrest, hsent, hnext, m, hacc, hexp⟩ := cycle_of_not_taken (n := n) ht
  simp only [SerializerLog.sentLength, SerializerLog.expectedLength, hrest, List.length_nil] at h
  simp only [SerializerLog.sentLength, SerializerLog.expectedLength, serializerMachine, hsent,
    hnext, hacc, List.length_append, List.flatMap_append]
  simpa [hexp, Nat.lt_succ_iff] using h

theorem sentLength_of_lossless (h : x.Lossless hasData n) :
    x.sentLength n = x.expectedLength hasData n := by
  have hlen := congrArg List.length h
  simpa only [SerializerLog.sentLength, SerializerLog.expectedLength, List.length_append,
    List.length_map] using hlen

theorem inv_init (rbits : DataMsg H w) : (SerializerLog.init rbits).ser.Inv hasData n :=
  ⟨fun h => absurd h (by simp [SerializerLog.init]),
    fun h => absurd h (by simp [SerializerLog.init])⟩

/-- The serializer is lossless exactly where the output is ready whenever a message without
data is taken. -/
theorem serializer_lossless_iff (hn : 2 ≤ n) (rbits : DataMsg H w) (is : List (SerializerIn H w)) :
    ((serializerMachine hasData n).run (SerializerLog.init rbits) is).Lossless hasData n ↔
      (takenMachine hasData n).Legal (SerializerLog.init rbits) is := by
  constructor
  · intro hloss
    by_contra hl
    -- The first lost message leaves too little to send, and nothing makes up for it.
    have hshort := Machine.invariant_of_not_restrict
      (P := fun x => x.ser.Inv hasData n ∧ x.sentLength n < x.expectedLength hasData n)
      (Q := fun x => x.ser.Inv hasData n ∧ x.sentLength n ≤ x.expectedLength hasData n)
      (fun x i h _ => ⟨h.1.next hn, by have := sentLength_next (i := i) hn h.1; omega⟩)
      (fun x i h _ ht => ⟨h.1.next hn, sentLength_of_not_taken ht h.2⟩)
      (fun x i h _ => ⟨h.1.next hn, by have := sentLength_next (i := i) hn h.1; omega⟩)
      ⟨inv_init rbits, le_rfl⟩ (Machine.legal_of_forall_ok _ (fun _ _ => trivial) _ is) hl
    exact absurd (sentLength_of_lossless hloss) hshort.2.ne
  · intro hl
    have hrun := Machine.invariant_run (m := takenMachine hasData n)
      (P := fun x => x.ser.Inv hasData n ∧ x.Lossless hasData n)
      (fun x i h hok => ⟨h.1.next hn, lossless_next hn h.1 h.2 hok.2⟩)
      ⟨inv_init rbits, rfl⟩ hl
    rw [takenMachine, Machine.run_restrict] at hrun
    exact hrun.2

/-- A message with four bits of data, sent in two chunks after a stall. -/
def stalledBlock : List (SerializerIn Bool 4) :=
  [⟨some ⟨true, 0b0110⟩, false⟩, ⟨none, true⟩, ⟨none, true⟩]

theorem serializer_lossless_iff_two :
    ((serializerMachine id 2).run (SerializerLog.init ⟨false, 0⟩) stalledBlock).Lossless id 2 ↔
      (takenMachine id 2).Legal (SerializerLog.init ⟨false, 0⟩) stalledBlock :=
  serializer_lossless_iff le_rfl _ _

/-- A message without data that comes while the output is stalled. -/
def stalledMessage : List (SerializerIn Bool 4) := [⟨some ⟨false, 0⟩, false⟩, ⟨none, true⟩]

/-- It is taken and never sent. -/
theorem serializer_drops :
    let x := (serializerMachine id 2).run (SerializerLog.init ⟨false, 0⟩) stalledMessage
    x.accepted = [⟨false, 0⟩] ∧ x.sent = [] ∧ ¬ x.Lossless id 2 := by
  refine ⟨rfl, rfl, ?_⟩
  simp only [SerializerLog.Lossless]
  decide

end Runs

end TaggedRiscv
