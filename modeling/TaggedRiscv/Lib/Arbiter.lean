import Mathlib.Data.List.FinRange
import Mathlib.Data.Fin.Basic

/-!
# Arbiters

Round-robin arbitration of `n` requesters for one consumer, without and with
locks. A locking arbiter keeps a requester chosen until the burst it started is
over, and one that holds keeps it chosen until it has been served.
-/

namespace Sync

variable {n : ℕ}

/-- The lowest index that asks. -/
def firstValid (valid : Fin n → Bool) : Option (Fin n) :=
  (List.finRange n).find? valid

/-- Round robin: the lowest index above the last grant that asks, or else the
lowest index that asks. -/
def rrSelect (valid : Fin n → Bool) (lastGrant : ℕ) : Option (Fin n) :=
  (firstValid fun i => valid i && decide (lastGrant < i)) <|> firstValid valid

variable {valid : Fin n → Bool} {i : Fin n}

theorem valid_of_firstValid (h : firstValid valid = some i) : valid i := by
  simpa using List.find?_some h

/-- A round-robin grant goes to somebody who asked. -/
theorem valid_of_rrSelect {lastGrant : ℕ} (h : rrSelect valid lastGrant = some i) : valid i := by
  unfold rrSelect at h
  cases hf : firstValid (fun i => valid i && decide (lastGrant < i)) with
  | none =>
    rw [hf] at h
    exact valid_of_firstValid h
  | some j =>
    rw [hf] at h
    obtain rfl : j = i := by simpa using h
    exact (Bool.and_eq_true _ _ ▸ valid_of_firstValid hf).1

theorem exists_firstValid {v : Fin n → Bool} (h : v i) : ∃ j, firstValid v = some j := by
  rw [← Option.isSome_iff_exists, firstValid, List.find?_isSome]
  exact ⟨i, List.mem_finRange i, h⟩

/-- Somebody who asks makes a grant. -/
theorem rrSelect_isSome (h : valid i) (lastGrant : ℕ) : (rrSelect valid lastGrant).isSome := by
  have hfirst : (firstValid valid).isSome := Option.isSome_iff_exists.mpr (exists_firstValid h)
  unfold rrSelect
  cases firstValid fun i => valid i && decide (lastGrant < i) with
  | none => simpa using hfirst
  | some j => rfl

/-! ## Fixed priority -/

/-- No lower index asks. -/
def arbiterCtrl (valid : Fin n → Bool) (i : Fin n) : Bool :=
  (List.finRange n).all fun j => !(decide (j < i) && valid j)

/-- The grant of a fixed-priority arbiter goes to the one that asks and has nobody before it. -/
theorem firstValid_eq_some_iff :
    firstValid valid = some i ↔ valid i ∧ arbiterCtrl valid i := by
  rw [firstValid, List.find?_eq_some_iff_getElem, arbiterCtrl, List.all_eq_true]
  refine and_congr_right fun _ => ⟨?_, fun hlow => ?_⟩
  · rintro ⟨k, hk, hget, hlow⟩ j -
    by_cases hj : j < i
    · have hik : i.val = k := by rw [← hget, List.getElem_finRange]; rfl
      have hv : valid j = false := by simpa [List.getElem_finRange] using hlow j.val (hik ▸ hj)
      rw [hv, Bool.and_false]
      rfl
    · rw [decide_eq_false hj, Bool.false_and]
      rfl
  · refine ⟨i.val, by simp, by simp, fun j hj => ?_⟩
    have hv := hlow ⟨j, hj.trans i.isLt⟩ (List.mem_finRange _)
    simpa [List.getElem_finRange, Fin.lt_def, hj] using hv

/-- Who has nobody before it that asks for one thing has nobody that asks for less. -/
theorem arbiterCtrl_mono {v v' : Fin n → Bool} (h : ∀ j, v' j → v j)
    (hi : arbiterCtrl v i) : arbiterCtrl v' i := by
  rw [arbiterCtrl, List.all_eq_true] at hi ⊢
  intro j hj
  have hv := hi j hj
  by_cases hv' : v' j = true
  · simpa [hv', h j hv'] using hv
  · simp [hv']

/-- The registers of a locking arbiter with fixed priorities. -/
structure PriorityLock (n : ℕ) where
  locked : Bool
  lockIdx : Fin n
  cnt : ℕ
  deriving DecidableEq

namespace PriorityLock

variable (a : PriorityLock n) (valid : Fin n → Bool)

/-- The requester on the output, if somebody asks. -/
def chosen : Option (Fin n) :=
  if a.locked then (if valid a.lockIdx then some a.lockIdx else none) else firstValid valid

/-- A requester may hand over in a cycle. -/
def ready (outReady : Bool) (i : Fin n) : Bool :=
  (if a.locked then a.lockIdx == i else arbiterCtrl valid i) && outReady

/-- The registers after a cycle. Bursts of `count` beats lock the arbiter where `needsLock`. -/
def next (count : ℕ) (needsLock : Fin n → Bool) (outReady : Bool) : PriorityLock n :=
  match a.chosen valid with
  | none => a
  | some k =>
    if outReady then
      if needsLock k then
        { locked := (a.cnt + 1) % count != 0
          lockIdx := k
          cnt := (a.cnt + 1) % count }
      else { a with locked := false }
    else a

end PriorityLock

/-! ## Locking arbiters -/

/-- The registers of a locking round-robin arbiter: the last requester served, the
one it is locked to, and the beats of the burst served so far. -/
structure LockArb (n : ℕ) where
  lastGrant : ℕ
  lock : Option (Fin n)
  cnt : ℕ

namespace LockArb

/-- The registers after reset. -/
def init : LockArb n := ⟨0, none, 0⟩

variable (a : LockArb n)

/-- The requester on the arbiter's output, if its request is valid. -/
def chosen (valid : Fin n → Bool) : Option (Fin n) :=
  match a.lock with
  | some k => if valid k then some k else none
  | none => rrSelect valid a.lastGrant

/-- The requester served in a cycle. -/
def served (valid : Fin n → Bool) (ready : Bool) : Option (Fin n) :=
  if ready then a.chosen valid else none

/-- The registers after a cycle. A burst of `count` beats locks the arbiter where
`needsLock`; with `needsHold` a request that was not served stays chosen. -/
def next (count : ℕ) (needsHold : Bool) (needsLock : Fin n → Bool) (valid : Fin n → Bool)
    (ready : Bool) : LockArb n :=
  match a.chosen valid with
  | none => a
  | some k =>
    if ready then
      if needsLock k && decide (1 < count) then
        { lastGrant := k, cnt := (a.cnt + 1) % count
          lock := if (a.cnt + 1) % count = 0 then none else some k }
      else { a with lastGrant := k, lock := none }
    else { a with lock := if needsHold then some k else a.lock }

variable {k : Fin n}

theorem valid_of_chosen (h : a.chosen valid = some k) : valid k := by
  unfold chosen at h
  cases hl : a.lock with
  | none =>
    rw [hl] at h
    exact valid_of_rrSelect h
  | some j =>
    rw [hl] at h
    cases hv : valid j with
    | false => simp [hv] at h
    | true =>
      obtain rfl : j = k := by simpa [hv] using h
      exact hv

theorem valid_of_served {ready : Bool} (h : a.served valid ready = some k) : valid k := by
  cases ready with
  | false => simp [served] at h
  | true => exact a.valid_of_chosen h

theorem chosen_eq_none (h : ∀ k, valid k = false) : a.chosen valid = none := by
  cases hc : a.chosen valid with
  | none => rfl
  | some k =>
    have := a.valid_of_chosen hc
    simp [h k] at this

/-- A requester who is alone is chosen, unless the arbiter is locked to another. -/
theorem chosen_eq_of_unique (hv : valid k) (huniq : ∀ j, valid j → j = k)
    (hl : a.lock = none ∨ a.lock = some k) : a.chosen valid = some k := by
  rcases hl with hl | hl
  · have hsome : (a.chosen valid).isSome := by
      rw [chosen, hl]
      exact rrSelect_isSome hv _
    obtain ⟨j, hj⟩ := Option.isSome_iff_exists.1 hsome
    rw [hj, huniq j (a.valid_of_chosen hj)]
  · simp [chosen, hl, hv]

/-- After a cycle the arbiter is locked to the chosen requester or to none. -/
theorem lock_next (count : ℕ) (needsLock : Fin n → Bool) (ready : Bool)
    (hc : a.chosen valid = some k) :
    (a.next count true needsLock valid ready).lock = none ∨
      (a.next count true needsLock valid ready).lock = some k := by
  simp only [next, hc]
  split_ifs <;> simp

/-- Without bursts, an arbiter that is only locked to requests that wait is locked afterwards
to the one that was chosen and not served. -/
theorem held_of_lock_next {needsLock valid : Fin n → Bool} {ready : Bool} {j : Fin n}
    (hold : ∀ k ∈ a.lock, valid k) (h : (a.next 1 true needsLock valid ready).lock = some j) :
    a.chosen valid = some j ∧ ready = false := by
  cases hc : a.chosen valid with
  | none =>
    simp only [next, hc] at h
    simp [chosen, h, hold j h] at hc
  | some k => cases ready <;> simp_all [next]

/-! ### Bursts -/

/-- The arbiter is not locked to anybody but the requester whose burst is open. -/
def Follows (burst : Option (Fin n)) : Prop :=
  ∀ k ∈ burst, ∀ j ∈ a.lock, j = k

variable {a}

/-- The requester whose burst is open is the one on the output, if nobody else asks while the
arbiter is not locked. -/
theorem Follows.chosen {burst : Option (Fin n)} (h : a.Follows burst)
    (halone : a.lock = none → ∀ k ∈ burst, ∀ j, valid j → j = k) {j : Fin n}
    (hc : a.chosen valid = some j) : ∀ k ∈ burst, j = k := by
  intro k hk
  cases hl : a.lock with
  | none => exact halone hl k hk j (a.valid_of_chosen hc)
  | some i =>
    have hi : i = j := by
      simp only [LockArb.chosen, hl] at hc
      split_ifs at hc with hv
      exact Option.some.inj hc
    exact hi ▸ h k hk i hl

/-- After a cycle the arbiter follows the requester it served, if it is locked at all. -/
theorem follows_next {j : Fin n} (hc : a.chosen valid = some j)
    (count : ℕ) (needsLock : Fin n → Bool) (ready : Bool) :
    (a.next count true needsLock valid ready).Follows (some j) := by
  intro k hk i hi
  obtain rfl := Option.some.inj hk
  rcases a.lock_next count needsLock ready hc with hl | hl
  · rw [hl] at hi
    exact absurd hi (by simp)
  · rw [hl] at hi
    exact (Option.some.inj hi).symm

/-- With `needsHold`, an arbiter that was not ready keeps its choice, if the request stays. -/
theorem chosen_next_of_held {a : LockArb n} {valid valid' : Fin n → Bool}
    {count : ℕ} {needsLock : Fin n → Bool} (hc : a.chosen valid = some k)
    (hk : valid' k) : (a.next count true needsLock valid false).chosen valid' = some k := by
  have hlock : (a.next count true needsLock valid false).lock = some k := by simp [next, hc]
  rw [chosen, hlock]
  simp [hk]

/-- With one requester the arbiter passes it on. -/
theorem chosen_one (a : LockArb 1) (valid : Fin 1 → Bool) :
    a.chosen valid = if valid 0 then some 0 else none := by
  unfold chosen
  cases a.lock with
  | none =>
    cases hv : valid 0 <;>
      simp [rrSelect, firstValid, List.finRange_succ, hv]
  | some k => rw [Subsingleton.elim k 0]

end LockArb

end Sync
