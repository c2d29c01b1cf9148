import Mathlib
import TaggedRiscv.Lib.Arbiter
import TaggedRiscv.Lib.Machine

/-!
# Tables of open transactions

A bridge keeps a table of the requests it has passed on and not seen answered. An entry holds the
id of its request and a value the answer will need. A request whose id is in the table waits, so
ids in the table are distinct, and an answer belongs to the one entry with its id.

The requests that are really open are a list; the table `Tracks` it as long as no entry is given
up before its request is answered.
-/

namespace Sync

open List

/-- A table of open transactions: ids, values, and which entries are in use. -/
structure XactTable (n : ℕ) (ι α : Type*) where
  id : Fin n → ι
  val : Fin n → α
  valid : Fin n → Bool

namespace XactTable

variable {n : ℕ} {ι α : Type*}

/-- The ids of the entries that are in use before and not after. -/
def freedIds (t t' : XactTable n ι α) : List ι :=
  ((List.finRange n).filter fun k => t.valid k && !t'.valid k).map t.id

/-- Some entry is not in use. -/
def hasFree (t : XactTable n ι α) : Bool := (List.finRange n).any fun k => !t.valid k

/-- The first entry that is not in use, or the first of all. -/
def freeIndex [NeZero n] (t : XactTable n ι α) : Fin n :=
  (firstValid fun k => !t.valid k).getD 0

theorem valid_freeIndex [NeZero n] {t : XactTable n ι α} (h : t.hasFree) :
    t.valid t.freeIndex = false := by
  unfold freeIndex
  cases hf : firstValid fun k => !t.valid k with
  | some k => simpa using valid_of_firstValid hf
  | none =>
    simp only [hasFree, any_eq_true] at h
    obtain ⟨k, hk, hfree⟩ := h
    exact absurd hfree (List.find?_eq_none.1 hf k hk)

variable [DecidableEq ι]

/-- The entry is in use for an id. -/
def matchAt (t : XactTable n ι α) (i : ι) (k : Fin n) : Bool := i == t.id k && t.valid k

def hasMatch (t : XactTable n ι α) (i : ι) : Bool := (List.finRange n).any (t.matchAt i)

theorem hasMatch_iff {t : XactTable n ι α} {i : ι} :
    t.hasMatch i ↔ ∃ k, t.valid k ∧ t.id k = i := by
  simp only [hasMatch, any_eq_true, mem_finRange, true_and, matchAt, Bool.and_eq_true,
    beq_iff_eq]
  exact exists_congr fun k => ⟨fun h => ⟨h.2, h.1.symm⟩, fun h => ⟨h.2.symm, h.1⟩⟩

variable [NeZero n] (t : XactTable n ι α)

/-- The first entry for an id, or the first of all. -/
def matchIndex (i : ι) : Fin n := (firstValid (t.matchAt i)).getD 0

/-- The table after a cycle in which a transaction may be recorded and one may be given up. The
latter is written last. -/
def next (opened : Option (ι × α)) (freed : Option ι) : XactTable n ι α where
  id := match opened with
    | some x => Function.update t.id t.freeIndex x.1
    | none => t.id
  val := match opened with
    | some x => Function.update t.val t.freeIndex x.2
    | none => t.val
  valid k :=
    if freed.any fun i => k == t.matchIndex i then false
    else if opened.isSome && k == t.freeIndex then true
    else t.valid k

variable {t}

/-- An id that is in the table is at its index. -/
theorem valid_matchIndex {i : ι} (h : t.hasMatch i) :
    t.valid (t.matchIndex i) ∧ t.id (t.matchIndex i) = i := by
  unfold matchIndex
  cases hf : firstValid (t.matchAt i) with
  | some k =>
    have hk := valid_of_firstValid hf
    simp only [matchAt, Bool.and_eq_true, beq_iff_eq] at hk
    exact ⟨hk.2, hk.1.symm⟩
  | none =>
    obtain ⟨k, hv, hid⟩ := hasMatch_iff.1 h
    refine absurd ?_ (List.find?_eq_none.1 hf k (mem_finRange k))
    simp [matchAt, hv, hid]

/-! ## Entries after a cycle -/

variable {opened : Option (ι × α)} {freed : Option ι}

/-- What is needed of a cycle: a request is recorded only in a free entry and with a new id, and
what is given up is in use. -/
structure Allowed (t : XactTable n ι α) (opened : Option (ι × α)) (freed : Option ι) : Prop where
  free : opened.isSome → t.hasFree
  fresh : ∀ x, opened = some x → t.hasMatch x.1 = false
  inUse : ∀ i, freed = some i → t.hasMatch i

/-- An entry in use stays so unless it is given up, and keeps its contents. -/
theorem Allowed.old_entry (h : t.Allowed opened freed) {k : Fin n} (hk : t.valid k) :
    (t.next opened freed).id k = t.id k ∧ (t.next opened freed).val k = t.val k ∧
      ((t.next opened freed).valid k = false ↔ ∃ i, freed = some i ∧ k = t.matchIndex i) := by
  have hne : opened.isSome → k ≠ t.freeIndex := by
    rintro ho rfl
    rw [valid_freeIndex (h.free ho)] at hk
    exact Bool.false_ne_true hk
  have hfreed : (freed.any fun i => k == t.matchIndex i) = true ↔
      ∃ i, freed = some i ∧ k = t.matchIndex i := by
    cases freed <;> simp
  have hvalid : (t.next opened freed).valid k = false ↔
      ∃ i, freed = some i ∧ k = t.matchIndex i := by
    rw [← hfreed]
    simp [next, hk]
  cases opened with
  | none => exact ⟨rfl, rfl, hvalid⟩
  | some x =>
    have hne' := hne rfl
    exact ⟨Function.update_of_ne hne' _ _, Function.update_of_ne hne' _ _, hvalid⟩

/-- The entry of a new request. -/
theorem Allowed.new_entry {x : ι × α} (h : t.Allowed (some x) freed) :
    (t.next (some x) freed).valid t.freeIndex ∧
      (t.next (some x) freed).id t.freeIndex = x.1 ∧
      (t.next (some x) freed).val t.freeIndex = x.2 := by
  have hfree := valid_freeIndex (h.free rfl)
  have hne : ∀ i, freed = some i → t.freeIndex ≠ t.matchIndex i := by
    intro i hi he
    rw [he, (valid_matchIndex (h.inUse i hi)).1] at hfree
    exact Bool.false_ne_true hfree.symm
  refine ⟨?_, Function.update_self _ _ _, Function.update_self _ _ _⟩
  have hno : (freed.any fun i => t.freeIndex == t.matchIndex i) = false := by
    cases freed with
    | none => rfl
    | some i => simpa using hne i rfl
  simp [next, hno]

theorem valid_next {k : Fin n} (hk : (t.next opened freed).valid k) :
    t.valid k ∨ ∃ x, opened = some x ∧ k = t.freeIndex := by
  cases hv : t.valid k with
  | true => exact .inl rfl
  | false =>
    have hnew : opened.isSome ∧ k = t.freeIndex := by
      simp [next, hv] at hk
      exact hk.2
    obtain ⟨x, hx⟩ := Option.isSome_iff_exists.1 hnew.1
    exact .inr ⟨x, hx, hnew.2⟩

/-! ## Open requests -/

/-- The open requests after a cycle. -/
def stepOpen (pending : List (ι × α)) (opened : Option (ι × α)) (answered : Option ι) :
    List (ι × α) :=
  pending.filter (fun x => answered != some x.1) ++ opened.toList

/-- Every open request has an entry, and no id is used twice. -/
structure Tracks (t : XactTable n ι α) (pending : List (ι × α)) : Prop where
  distinct : ∀ k k', t.valid k → t.valid k' → t.id k = t.id k' → k = k'
  entries : ∀ x ∈ pending, ∃ k, t.valid k ∧ t.id k = x.1 ∧ t.val k = x.2
  nodup : (pending.map Prod.fst).Nodup

variable {pending : List (ι × α)} {answered : Option ι}

/-- The entry for the id of an open request holds that request. -/
theorem Tracks.val_matchIndex (h : t.Tracks pending) {x : ι × α} (hx : x ∈ pending) :
    t.hasMatch x.1 ∧ t.val (t.matchIndex x.1) = x.2 := by
  obtain ⟨k, hv, hid, hval⟩ := h.entries x hx
  have hm : t.hasMatch x.1 := hasMatch_iff.2 ⟨k, hv, hid⟩
  obtain ⟨hv', hid'⟩ := valid_matchIndex hm
  have hk : t.matchIndex x.1 = k := h.distinct _ _ hv' hv (hid'.trans hid.symm)
  exact ⟨hm, hk ▸ hval⟩

/-- Looking an open request up by its id finds it. -/
theorem Tracks.lookup_eq (h : t.Tracks pending) {x : ι × α} (hx : x ∈ pending) :
    pending.lookup x.1 = some x.2 := by
  cases hl : pending.lookup x.1 with
  | none =>
    have := lookup_eq_none_iff.1 hl x hx
    simp at this
  | some a =>
    obtain ⟨l₁, l₂, hsplit, -⟩ := lookup_eq_some_iff.1 hl
    have hmem : (x.1, a) ∈ pending := by simp [hsplit]
    exact congrArg some ((h.val_matchIndex hmem).2.symm.trans (h.val_matchIndex hx).2)

theorem Tracks.next (h : t.Tracks pending) (hal : t.Allowed opened freed)
    (hfreed : ∀ i, freed = some i → answered = some i) :
    (t.next opened freed).Tracks (stepOpen pending opened answered) := by
  refine ⟨?_, ?_, ?_⟩
  · -- the new id is in no old entry
    have hfresh : ∀ x k, opened = some x → t.valid k → t.id k ≠ x.1 := by
      intro x k hx hv hid
      have := hasMatch_iff.2 ⟨k, hv, hid⟩
      rw [hal.fresh x hx] at this
      exact Bool.false_ne_true this
    intro k k' hk hk' hid
    rcases valid_next hk with hv | ⟨x, rfl, rfl⟩
    · rw [(hal.old_entry hv).1] at hid
      rcases valid_next hk' with hv' | ⟨x, rfl, rfl⟩
      · rw [(hal.old_entry hv').1] at hid
        exact h.distinct k k' hv hv' hid
      · exact absurd (hid.trans hal.new_entry.2.1) (hfresh x k rfl hv)
    · rw [hal.new_entry.2.1] at hid
      rcases valid_next hk' with hv' | ⟨-, -, rfl⟩
      · rw [(hal.old_entry hv').1] at hid
        exact absurd hid.symm (hfresh x k' rfl hv')
      · rfl
  · intro x hx
    simp only [stepOpen, mem_append, mem_filter, bne_iff_ne, Option.mem_toList] at hx
    rcases hx with ⟨hx, hne⟩ | rfl
    · -- an open request that is not answered keeps its entry
      obtain ⟨k, hv, hid, hval⟩ := h.entries x hx
      obtain ⟨hid', hval', hfree⟩ := hal.old_entry hv
      refine ⟨k, ?_, hid'.trans hid, hval'.trans hval⟩
      by_contra hno
      rw [Bool.not_eq_true] at hno
      obtain ⟨i, hi, hki⟩ := hfree.1 hno
      have hxi : x.1 = i := by
        rw [← hid, hki]
        exact (valid_matchIndex (hal.inUse i hi)).2
      exact hne (hxi ▸ hfreed i hi)
    · exact ⟨t.freeIndex, hal.new_entry⟩
  · rw [stepOpen, map_append, nodup_append]
    refine ⟨h.nodup.sublist (filter_sublist.map _), ?_, ?_⟩
    · cases opened <;> simp
    · intro i hi j hj he
      subst he
      obtain ⟨x, hx, rfl⟩ := mem_map.1 hi
      obtain ⟨y, hy, hxy⟩ := mem_map.1 hj
      have hm := (h.val_matchIndex (mem_of_mem_filter hx)).1
      rw [← hxy, hal.fresh y (by simpa using hy)] at hm
      exact Bool.false_ne_true hm

/-- A cycle frees what it is told to free. -/
theorem freedIds_next (hal : t.Allowed opened freed) :
    t.freedIds (t.next opened freed) = freed.toList := by
  have hpred : (fun k => t.valid k && !(t.next opened freed).valid k) =
      fun k => freed.any fun i => k == t.matchIndex i := by
    funext k
    rw [Bool.eq_iff_iff, Bool.and_eq_true, Bool.not_eq_true', Option.any_eq_true]
    constructor
    · rintro ⟨hv, hv'⟩
      obtain ⟨i, hi, hk⟩ := (hal.old_entry hv).2.2.1 hv'
      exact ⟨i, hi, by simpa using hk⟩
    · rintro ⟨i, hi, hk⟩
      have hk' : k = t.matchIndex i := by simpa using hk
      have hv : t.valid k := hk' ▸ (valid_matchIndex (hal.inUse i hi)).1
      exact ⟨hv, (hal.old_entry hv).2.2.2 ⟨i, hi, hk'⟩⟩
  unfold freedIds
  rw [hpred]
  cases freed with
  | none => simp
  | some i =>
    have hone : (List.finRange n).filter (fun k => k == t.matchIndex i) = [t.matchIndex i] := by
      rw [filter_beq, count_eq_one_of_mem (nodup_finRange n) (mem_finRange _)]
      rfl
    simp only [Option.any_some, hone, map_cons, map_nil, Option.toList_some,
      (valid_matchIndex (hal.inUse i rfl)).2]

end XactTable

/-! ## Logs of answers -/

/-- The answers taken on one side, each with the value of its request, those handed over on the
other side, and the ids given up. -/
structure XactLog (ι α ρ δ : Type*) where
  accepted : List (α × ρ)
  delivered : List δ
  freed : List ι

namespace XactLog

variable {ι α ρ δ : Type*}

def empty : XactLog ι α ρ δ := ⟨[], [], []⟩

/-- The log after a cycle. -/
def push (l : XactLog ι α ρ δ) (acc : Option (α × ρ)) (del : Option δ) (freed : List ι) :
    XactLog ι α ρ δ :=
  ⟨l.accepted ++ acc.toList, l.delivered ++ del.toList, l.freed ++ freed⟩

/-- Every answer taken is handed over as `answer` says, once and in order, and exactly the ids of
the answers handed over are given up. -/
def Faithful (answer : α → ρ → δ) (idOf : δ → ι) (l : XactLog ι α ρ δ) : Prop :=
  l.delivered = l.accepted.map (fun x => answer x.1 x.2) ∧ l.freed = l.delivered.map idOf

variable {answer : α → ρ → δ} {idOf : δ → ι} {l : XactLog ι α ρ δ} {acc : Option (α × ρ)}
  {del : Option δ}

theorem faithful_empty : (empty : XactLog ι α ρ δ).Faithful answer idOf := ⟨rfl, rfl⟩

theorem Faithful.push (h : l.Faithful answer idOf)
    (hdel : del = acc.map fun x => answer x.1 x.2) {freed : List ι}
    (hfreed : freed = (del.map idOf).toList) : (l.push acc del freed).Faithful answer idOf := by
  refine ⟨?_, ?_⟩
  · change l.delivered ++ _ = (l.accepted ++ _).map _
    rw [hdel, h.1, map_append]
    cases acc <;> rfl
  · change l.freed ++ _ = (l.delivered ++ _).map _
    rw [hfreed, h.2, map_append]
    cases del <;> rfl

/-- More answers were taken than handed over. -/
def Behind (l : XactLog ι α ρ δ) : Prop := l.delivered.length < l.accepted.length

theorem Behind.not_faithful (h : l.Behind) : ¬ l.Faithful answer idOf := by
  rintro ⟨hd, -⟩
  rw [Behind, hd, length_map] at h
  exact lt_irrefl _ h

/-- What is handed over in a cycle was taken in it, so a log that is behind stays so. -/
theorem Behind.push (h : l.Behind) (hdel : del.isSome → acc.isSome)
    (freed : List ι) : (l.push acc del freed).Behind := by
  have hle : del.toList.length ≤ acc.toList.length := by cases del <;> cases acc <;> simp_all
  simp only [Behind, XactLog.push, length_append] at h ⊢
  omega

/-- An answer that is taken and not handed over leaves the log behind. -/
theorem behind_push (h : l.delivered.length ≤ l.accepted.length) {x : α × ρ} (freed : List ι) :
    (l.push (some x) none freed).Behind := by
  simp only [Behind, XactLog.push, length_append, Option.toList_some, Option.toList_none,
    length_singleton, length_nil]
  omega

theorem length_push_le (h : l.delivered.length ≤ l.accepted.length)
    (hdel : del.isSome → acc.isSome) (freed : List ι) :
    (l.push acc del freed).delivered.length ≤ (l.push acc del freed).accepted.length := by
  have hle : del.toList.length ≤ acc.toList.length := by cases del <;> cases acc <;> simp_all
  simp only [XactLog.push, length_append]
  omega

/-! ## Logs of whole runs -/

section Run

variable {σ κ : Type*} {m : Machine σ κ} (log : σ → XactLog ι α ρ δ)
  (taken : σ → κ → Option (α × ρ)) (given : σ → κ → Option δ) {c : κ → Prop} {I : σ → Prop}

/-- If every cycle logs what it takes and gives, and gives what it takes where its input meets a
condition and loses it elsewhere, then a run is faithful exactly if all its inputs meet the
condition. -/
theorem faithful_iff (hI : ∀ s i, I s → m.ok s i → I (m.next s i))
    (hlog : ∀ s i, I s → m.ok s i → log (m.next s i) =
      (log s).push (taken s i) (given s i) ((given s i).map idOf).toList)
    (hready : ∀ s i, I s → m.ok s i → c i → given s i = (taken s i).map fun x => answer x.1 x.2)
    (hlost : ∀ s i, I s → m.ok s i → ¬ c i → (taken s i).isSome ∧ given s i = none)
    {s : σ} {is : List κ} (hs : I s) (hempty : log s = empty) (hl : m.Legal s is) :
    (log (m.run s is)).Faithful answer idOf ↔ ∀ i ∈ is, c i := by
  have hgiven (s : σ) (i : κ) (h : I s) (hok : m.ok s i) (hg : (given s i).isSome) :
      (taken s i).isSome := by
    by_cases hc : c i
    · simpa [hready s i h hok hc] using hg
    · exact (hlost s i h hok hc).1
  constructor
  · intro hf
    by_contra hno
    -- some cycle loses an answer, and the log stays behind from there on
    have hbehind := Machine.invariant_of_not_restrict (m := m) (c := fun _ i => c i)
      (Q := fun s => I s ∧ (log s).delivered.length ≤ (log s).accepted.length)
      (P := fun s => I s ∧ (log s).Behind) (s := s)
      (fun s i h hok => ⟨hI s i h.1 hok, by
        rw [hlog s i h.1 hok]
        exact length_push_le h.2 (hgiven s i h.1 hok) _⟩)
      (fun s i h hok hc => ⟨hI s i h.1 hok, by
        obtain ⟨htaken, hnone⟩ := hlost s i h.1 hok hc
        obtain ⟨x, hx⟩ := Option.isSome_iff_exists.1 htaken
        rw [hlog s i h.1 hok, hnone, hx]
        exact behind_push h.2 _⟩)
      (fun s i h hok => ⟨hI s i h.1 hok, by
        rw [hlog s i h.1 hok]
        exact h.2.push (hgiven s i h.1 hok) _⟩)
      ⟨hs, by rw [hempty]; exact le_rfl⟩ hl
      (fun hr => hno (Machine.legal_restrict_iff.1 hr).2)
    exact hbehind.2.not_faithful hf
  · intro hc
    have h := Machine.invariant_run (m := m.restrict fun _ i => c i)
      (P := fun s => I s ∧ (log s).Faithful answer idOf) (s := s)
      (fun s i h hok => ⟨hI s i h.1 hok.1, by
        change (log (m.next s i)).Faithful answer idOf
        rw [hlog s i h.1 hok.1]
        exact h.2.push (hready s i h.1 hok.1 hok.2) rfl⟩)
      ⟨hs, by rw [hempty]; exact faithful_empty⟩ (Machine.legal_restrict_iff.2 ⟨hl, hc⟩)
    rw [Machine.run_restrict] at h
    exact h.2

end Run

end XactLog

end Sync
