import TaggedRiscv.Vm.Basic

/-!
# The reference walk

What a walk of a page table is, without a walker: the entry of each level is read, a table
leads to the next level, a leaf ends the walk, and anything else is an error, as is a table
at the last level. A leaf that permits the access and lacks the marks of it gets them.
-/

namespace TaggedRiscv.Vm

variable {p : VmParams}

variable (p) in
/-- Memory, word by word. -/
abbrev Memory := BitVec p.paddrBits → BitVec p.xLen

/-- The index of a page at a level. -/
def vpnIdx (vpn : BitVec p.vpnBits) (level : ℕ) : BitVec p.pgLevelBits :=
  (vpn >>> ((p.pgLevels - level - 1) * p.pgLevelBits)).setWidth p.pgLevelBits

/-- The address of the entry for a page in a table of a level. -/
def entryAddr (ppn : BitVec p.ppnBits) (vpn : BitVec p.vpnBits) (level : ℕ) : BitVec p.paddrBits :=
  ppn ++ (vpnIdx vpn level ++ 0#p.wordOffBits)

variable (p) in
/-- A leaf: where it is, at which level, and what it says. -/
structure Leaf where
  addr : BitVec p.paddrBits
  level : ℕ
  entry : PTE p

/-- The leaf for a page below a table, with `n` levels left. -/
def walkFrom (m : Memory p) (vpn : BitVec p.vpnBits) : ℕ → BitVec p.ppnBits → Option (Leaf p)
  | 0, _ => none
  | n + 1, ppn =>
    let addr := entryAddr ppn vpn (p.pgLevels - (n + 1))
    let e := PTE.fromBits (m addr)
    if e.leaf then some ⟨addr, p.pgLevels - (n + 1), e⟩
    else if e.table then walkFrom m vpn n e.ppn
    else none

/-- The walk at a level. -/
theorem walkFrom_level (m : Memory p) (vpn : BitVec p.vpnBits) {c : ℕ} (hc : c < p.pgLevels)
    (ppn : BitVec p.ppnBits) :
    walkFrom m vpn (p.pgLevels - c) ppn =
      let e := PTE.fromBits (m (entryAddr ppn vpn c))
      if e.leaf then some ⟨entryAddr ppn vpn c, c, e⟩
      else if e.table then walkFrom m vpn (p.pgLevels - (c + 1)) e.ppn
      else none := by
  obtain ⟨n, hn⟩ : ∃ n, p.pgLevels - c = n + 1 := ⟨p.pgLevels - c - 1, by omega⟩
  have hlevel : p.pgLevels - (n + 1) = c := by omega
  have hleft : p.pgLevels - (c + 1) = n := by omega
  rw [hn, walkFrom, hlevel, hleft]

/-- The access is permitted by the entry, and not yet marked in it. -/
def needsMark (q : PTWReq p) (e : PTE p) : Bool :=
  e.accessOk q.prv q.store q.fetch && (!e.r || q.store && !e.d)

theorem leaf_of_needsMark {q : PTWReq p} {e : PTE p} (h : needsMark q e) : e.leaf :=
  e.leaf_of_accessOk (Bool.and_eq_true_iff.1 h).1

/-- A marked entry needs no marks. -/
theorem needsMark_mark (q : PTWReq p) (e : PTE p) : needsMark q (e.mark q.store) = false := by
  have hbits : (!(e.mark q.store).r || q.store && !(e.mark q.store).d) = false := by
    cases q.store <;> simp [PTE.mark]
  rw [needsMark, hbits, Bool.and_false]

/-- Words or-ed into memory. -/
def orWrites (m : Memory p) : List (BitVec p.paddrBits × BitVec p.xLen) → Memory p
  | [] => m
  | (a, w) :: ws => orWrites (Function.update m a (m a ||| w)) ws

variable (p) in
/-- A request, the root of the page table, and the memory it is in. -/
structure Walk where
  req : PTWReq p
  root : BitVec p.ppnBits
  mem : Memory p

namespace Walk

variable (w : Walk p)

/-- What the walk finds. -/
def leaf : Option (Leaf p) := walkFrom w.mem w.req.addr p.pgLevels w.root

/-- The marks of the access. -/
def writes : List (BitVec p.paddrBits × BitVec p.xLen) :=
  match w.leaf with
  | some l => if needsMark w.req l.entry then [(l.addr, (PTE.wdata p w.req.store).toBits)] else []
  | none => []

/-- The leaf after the walk. -/
def marked (e : PTE p) : PTE p := if needsMark w.req e then e.mark w.req.store else e

/-- The answer: an error where there is no leaf, and otherwise the leaf with the low bits of
the physical page number from the page, as many as are indices of the levels below. -/
def Result (r : PTWResp p) : Prop :=
  match w.leaf with
  | none => r.error = true
  | some l =>
    r.error = false ∧ r.pte = { w.marked l.entry with ppn := r.pte.ppn } ∧
      ∀ j, j < p.ppnBits → r.pte.ppn.getLsbD j =
        if j < p.pgLevelBits * (p.pgLevels - l.level - 1) then w.req.addr.getLsbD j
        else l.entry.ppn.getLsbD j

variable {w} {l : Leaf p}

theorem writes_eq (hl : w.leaf = some l) (hn : needsMark w.req l.entry) :
    w.writes = [(l.addr, (PTE.wdata p w.req.store).toBits)] := by
  simp [writes, hl, hn]

theorem writes_eq_nil (h : ∀ l, w.leaf = some l → needsMark w.req l.entry = false) :
    w.writes = [] := by
  unfold writes
  cases hl : w.leaf with
  | none => rfl
  | some l => simp [h l hl]

/-- The leaf in memory after the walk has marked it. -/
theorem fromBits_orWrites (hl : w.leaf = some l) (hn : needsMark w.req l.entry)
    (he : l.entry = PTE.fromBits (w.mem l.addr)) :
    PTE.fromBits (orWrites w.mem w.writes l.addr) = w.marked l.entry := by
  simp only [writes_eq hl hn, orWrites, Function.update_self, PTE.fromBits_or_mark, marked, hn,
    if_true]
  rw [he]

end Walk

end TaggedRiscv.Vm
