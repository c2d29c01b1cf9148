import Mathlib.Data.List.Basic
import Mathlib.Logic.Function.Basic

/-!
# Memory operations in several queues

Reads and writes of words wait in several queues, which are served in any order. What a read
sees depends on that order only where a conflicting operation, on the same word and one of the
two a write, waits in another queue.
-/

namespace OpQueues

open Function

variable {K A V P T : Type*}

/-- A read, whose answer goes to a tag, or a write. -/
inductive Op (A P T : Type*)
  | read (tag : T) (addr : A)
  | write (addr : A) (data : P)

namespace Op

def addr : Op A P T → A
  | read _ a => a
  | write a _ => a

def isWrite : Op A P T → Bool
  | read _ _ => false
  | write _ _ => true

/-- A read for a tag. -/
def IsReadOf (tag : T) : Op A P T → Prop
  | read t _ => t = tag
  | write _ _ => False

end Op

section Queue

variable [DecidableEq A] (merge : V → P → V) {m m' : A → V} {a : A} {tag : T} {op : Op A P T}
  {l l' : List (Op A P T)}

/-- The memory after an operation. -/
def Op.perform (m : A → V) : Op A P T → A → V
  | read _ _ => m
  | write a p => update m a (merge (m a) p)

/-- The memory after a queue. -/
def performAll (m : A → V) (l : List (Op A P T)) : A → V := l.foldl (Op.perform merge) m

variable {merge}

theorem perform_apply (h : op.isWrite → op.addr ≠ a) : op.perform merge m a = m a := by
  cases op with
  | read t b => rfl
  | write b p => exact update_of_ne (Ne.symm (h rfl)) _ _

/-- The value of a word depends on its old value only. -/
theorem performAll_congr (h : m a = m' a) : performAll merge m l a = performAll merge m' l a := by
  induction l generalizing m m' with
  | nil => exact h
  | cons op l ih =>
    refine ih ?_
    cases op with
    | read t b => exact h
    | write b p =>
      by_cases hb : b = a
      · subst hb
        simp [Op.perform, h]
      · simp [Op.perform, update_of_ne (Ne.symm hb), h]

theorem performAll_apply (h : ∀ op ∈ l, op.isWrite → op.addr ≠ a) :
    performAll merge m l a = m a := by
  induction l generalizing m with
  | nil => rfl
  | cons op l ih =>
    obtain ⟨hop, hl⟩ := List.forall_mem_cons.1 h
    exact (ih hl).trans (perform_apply hop)

variable [DecidableEq T]

variable (merge) in
/-- What the reads for a tag see, one after another. -/
def answers (tag : T) : (A → V) → List (Op A P T) → List V
  | _, [] => []
  | m, .read t a :: l => if t = tag then m a :: answers tag m l else answers tag m l
  | m, .write a p :: l => answers tag (update m a (merge (m a) p)) l

theorem answers_cons :
    answers merge tag m (op :: l) =
      answers merge tag m [op] ++ answers merge tag (op.perform merge m) l := by
  cases op with
  | read t b => by_cases ht : t = tag <;> simp [answers, ht, Op.perform]
  | write b p => simp [answers, Op.perform]

theorem answers_append :
    answers merge tag m (l ++ l') =
      answers merge tag m l ++ answers merge tag (performAll merge m l) l' := by
  induction l generalizing m with
  | nil => rfl
  | cons op l ih =>
    rw [List.cons_append, answers_cons, ih, answers_cons (l := l), List.append_assoc]
    rfl

/-- What reads see depends on the words they read. -/
theorem answers_congr (h : ∀ op ∈ l, m op.addr = m' op.addr) :
    answers merge tag m l = answers merge tag m' l := by
  induction l generalizing m m' with
  | nil => rfl
  | cons op l ih =>
    obtain ⟨hop, hl⟩ := List.forall_mem_cons.1 h
    rw [answers_cons, answers_cons (m := m')]
    congr 1
    · cases op with
      | read t b => simp [answers, show m b = m' b from hop]
      | write b p => rfl
    · refine ih fun op' hop' => ?_
      exact performAll_congr (l := [op]) (hl op' hop')

theorem answers_eq_nil (h : ∀ op ∈ l, ¬ op.IsReadOf tag) : answers merge tag m l = [] := by
  induction l generalizing m with
  | nil => rfl
  | cons op l ih =>
    obtain ⟨hop, hl⟩ := List.forall_mem_cons.1 h
    rw [answers_cons, ih hl, List.append_nil]
    cases op with
    | read t b => exact if_neg hop
    | write b p => rfl

theorem answers_reads (as : List A) : answers merge tag m (as.map (.read tag)) = as.map m := by
  induction as with
  | nil => rfl
  | cons a as ih => simp [answers, ih]

theorem not_isReadOf_of_answers (h : answers merge tag m l = []) : ∀ op ∈ l, ¬ op.IsReadOf tag := by
  induction l generalizing m with
  | nil => simp
  | cons op l ih =>
    rw [answers_cons, List.append_eq_nil_iff] at h
    refine List.forall_mem_cons.2 ⟨?_, ih h.2⟩
    cases op with
    | read t b =>
      rintro rfl
      simp [answers] at h
    | write b p => exact id

end Queue

/-! ## Several queues -/

section Queues

variable [DecidableEq A] {merge : V → P → V} {q : K → List (Op A P T)} {m final : A → V} {k k' : K}
  {a : A} {tag : T} {op : Op A P T} {l new : List (Op A P T)}

/-- Operations that are to be queued conflict with none in another queue. -/
def Apart (q : K → List (Op A P T)) (k : K) (new : List (Op A P T)) : Prop :=
  ∀ op ∈ new, ∀ k', k' ≠ k → ∀ op' ∈ q k', op'.addr = op.addr →
    (op.isWrite || op'.isWrite) = false

/-- A word that a write waits for has all its operations in one queue; whoever is served next,
each queue that alone has writes of a word leads to its final value. -/
structure Orderly (merge : V → P → V) (q : K → List (Op A P T)) (m final : A → V) : Prop where
  alone : ∀ k, ∀ op ∈ q k, op.isWrite → ∀ k', k' ≠ k → ∀ op' ∈ q k', op'.addr ≠ op.addr
  leads : ∀ k a, (∀ k', k' ≠ k → ∀ op ∈ q k', op.isWrite → op.addr ≠ a) →
    performAll merge m (q k) a = final a

/-- The operations of the other queues do not touch the word of a write. -/
theorem Orderly.perform_eq (h : Orderly merge q m final) (hq : q k = op :: l) (hk : k' ≠ k)
    {op' : Op A P T} (hop' : op' ∈ q k') : op.perform merge m op'.addr = m op'.addr :=
  perform_apply fun hw => (h.alone k op (by simp [hq]) hw k' hk op' hop').symm

theorem Orderly.answers_pop [DecidableEq T] (h : Orderly merge q m final) (hq : q k = op :: l)
    (hk : k' ≠ k) : answers merge tag (op.perform merge m) (q k') = answers merge tag m (q k') :=
  answers_congr fun _ hop' => h.perform_eq hq hk hop'

variable [DecidableEq K]

omit [DecidableEq A] in
theorem mem_update_append {op : Op A P T} :
    op ∈ update q k (q k ++ new) k' ↔ op ∈ q k' ∨ k' = k ∧ op ∈ new := by
  by_cases hk : k' = k
  · subst hk
    simp
  · simp [hk]

theorem Orderly.push (h : Orderly merge q m final) (ha : Apart q k new) :
    Orderly merge (update q k (q k ++ new)) m (performAll merge final new) := by
  constructor
  · intro j op hop hw j' hj op' hop' he
    rw [mem_update_append] at hop hop'
    rcases hop with hop | ⟨rfl, hop⟩ <;> rcases hop' with hop' | ⟨rfl, hop'⟩
    · exact h.alone j op hop hw j' hj op' hop' he
    · simpa [hw] using ha op' hop' j (Ne.symm hj) op hop he.symm
    · simpa [hw] using ha op hop j' hj op' hop' he
    · exact hj rfl
  · intro j a hothers
    have hold : ∀ k', k' ≠ j → ∀ op ∈ q k', op.isWrite → op.addr ≠ a :=
      fun k' hk op hop => hothers k' hk op (mem_update_append.2 (.inl hop))
    by_cases hj : j = k
    · subst hj
      rw [update_self, performAll, List.foldl_append]
      exact performAll_congr (h.leads j a hold)
    · -- the new operations do not write the word
      rw [update_of_ne hj, h.leads j a hold, performAll_apply]
      exact fun op hop => hothers k (Ne.symm hj) op (mem_update_append.2 (.inr ⟨rfl, hop⟩))

theorem Orderly.pop (h : Orderly merge q m final) (hq : q k = op :: l) :
    Orderly merge (update q k l) (op.perform merge m) final := by
  have hsub : ∀ {j op'}, op' ∈ update q k l j → op' ∈ q j := by
    intro j op' hop'
    by_cases hj : j = k
    · subst hj
      rw [update_self] at hop'
      rw [hq]
      exact List.mem_cons_of_mem _ hop'
    · rwa [update_of_ne hj] at hop'
  constructor
  · exact fun j op' hop' hw j' hj op'' hop'' => h.alone j op' (hsub hop') hw j' hj op'' (hsub hop'')
  · intro j a hothers
    by_cases hj : j = k
    · subst hj
      rw [update_self, ← h.leads j a, hq]
      · rfl
      · intro k' hk op' hop'
        exact hothers k' hk op' (by rwa [update_of_ne hk])
    · rw [update_of_ne hj]
      have hrest : ∀ op' ∈ l, op'.isWrite → op'.addr ≠ a := by
        intro op' hop'
        exact hothers k (Ne.symm hj) op' (by rwa [update_self])
      by_cases hop : op.isWrite ∧ op.addr = a
      · -- the word is written now, and nobody else has an operation on it
        obtain ⟨hw, rfl⟩ := hop
        have hk := h.alone k op (by simp [hq]) hw
        rw [performAll_apply fun op' hop' _ => hk j hj op' hop', ← h.leads k op.addr
          fun k' hk' op' hop' _ => hk k' hk' op' hop', hq]
        exact (performAll_apply hrest).symm
      · rw [performAll_congr (perform_apply fun hw he => hop ⟨hw, he⟩)]
        refine h.leads j a fun k' hk' op' hop' hw => ?_
        by_cases hkk : k' = k
        · subst hkk
          rw [hq, List.mem_cons] at hop'
          rcases hop' with rfl | hop'
          · exact fun he => hop ⟨hw, he⟩
          · exact hrest op' hop' hw
        · exact hothers k' hk' op' (by rwa [update_of_ne hkk]) hw

end Queues

end OpQueues
