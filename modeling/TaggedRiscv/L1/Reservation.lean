import TaggedRiscv.L1.HellaCache
import TaggedRiscv.Lib.Machine

/-!
# The reservation of load-reserved and store-conditional

A counter and an address hold the reservation. While the counter runs no probe is accepted, so it
must not run for ever, and a store-conditional must find it running.
-/

namespace TaggedRiscv.L1

open Sync

variable {p : L1Params}

namespace HellaCache

variable {s : HellaCache p} {i : CacheIn p}

/-- The cache with any core, TLB and outer memory. -/
def machine (p : L1Params) : Machine (HellaCache p) (CacheIn p) where
  ok _ _ := True
  next := next

/-- The block of the last load-reserved that was done, with the cycles since then. It is forgotten
when a store-conditional is done and when the core gives the reservation up. -/
def lastLr (r : Option (BlockAddr p × ℕ)) (s : HellaCache p) (i : CacheIn p) :
    Option (BlockAddr p × ℕ) :=
  if i.invalidateLr || s.s2Done i && s.s2Sc then none
  else if s.s2Done i && s.s2Lr then some (s.s2Req.addr, 0)
  else r.map fun x => (x.1, x.2 + 1)

/-- A store-conditional is done and stores. -/
def scStores (s : HellaCache p) (i : CacheIn p) : Bool := s.s2Done i && s.s2Sc && !s.s2ScFail

/-- The counter runs for the last load-reserved, and no longer than it may. -/
structure Reserved (s : HellaCache p) (r : Option (BlockAddr p × ℕ)) : Prop where
  count_le : s.lrscCount ≤ p.lrscCycles - 1
  last : s.lrscCount ≠ 0 → ∃ age, r = some (s.lrscAddr, age) ∧ age + s.lrscCount < p.lrscCycles

theorem Reserved.next {r : Option (BlockAddr p × ℕ)} (h : s.Reserved r) :
    (s.next i).Reserved (lastLr r s i) := by
  have hcount : (s.next i).lrscCount = s.lrscCountNext i := rfl
  have haddr : (s.next i).lrscAddr =
      if s.s2Done i && s.s2Lr then s.s2Req.addr else s.lrscAddr := rfl
  have hle := h.count_le
  rw [lrscCountNext] at hcount
  refine ⟨?_, fun hne => ?_⟩
  · rw [hcount]
    split_ifs <;> omega
  · rw [hcount] at hne ⊢
    rw [haddr, lastLr]
    by_cases hcancel : i.invalidateLr ∨ (s.s2Done i && s.s2Sc) = true
    · rcases hcancel with hc | hc <;> simp [hc] at hne
    · rw [not_or] at hcancel
      rw [if_neg hcancel.1, if_neg hcancel.2] at hne ⊢
      rw [if_neg (by simpa using hcancel)]
      cases hlr : s.s2Done i && s.s2Lr with
      | true =>
        -- the age starts again, the counter only when it has run out
        refine ⟨0, rfl, ?_⟩
        split_ifs at hne ⊢ <;> omega
      | false =>
        simp only [hlr, Bool.false_and, Bool.false_eq_true, if_false] at hne ⊢
        obtain ⟨age, hage, hlt⟩ := h.last (by omega)
        exact ⟨age + 1, by rw [hage]; rfl, by omega⟩

theorem reserved_of_scStores (h : s.scStores i) : s.lrscCount ≠ 0 ∧ s.lrscAddr = s.s2Req.addr := by
  simp only [scStores, s2ScFail, Bool.and_eq_true, Bool.not_eq_true'] at h
  simpa [h.1.2, lrscValid] using h.2

/-- While the counter runs no load-reserved starts it again. -/
theorem lrscCount_next_lt (h : s.lrscCount ≠ 0) : (s.next i).lrscCount < s.lrscCount := by
  have hcount : (s.next i).lrscCount = s.lrscCountNext i := rfl
  have hv : s.lrscValid := by simp [lrscValid, h]
  rw [hcount, lrscCountNext, hv, Bool.not_true, Bool.and_false]
  split_ifs <;> first | omega | contradiction

/-- The counter runs out. -/
theorem exists_lrscValid_false {js : List (CacheIn p)} (h : s.lrscCount ≤ js.length) :
    ∃ k ≤ js.length, ((machine p).run s (js.take k)).lrscValid = false := by
  induction js generalizing s with
  | nil => exact ⟨0, le_rfl, by simpa [lrscValid] using h⟩
  | cons j js ih =>
    by_cases hz : s.lrscCount = 0
    · exact ⟨0, Nat.zero_le _, by simp [lrscValid, hz]⟩
    · obtain ⟨k, hk, hf⟩ := ih (Nat.le_of_lt_succ ((lrscCount_next_lt hz).trans_le h))
      exact ⟨k + 1, Nat.succ_le_succ hk, hf⟩

end HellaCache

/-- Whatever core, TLB and memory do: a store-conditional that stores comes less than `lrscCycles`
cycles after a load-reserved of its block, with no store-conditional and no invalidation of the
reservation in between; and of `lrscCycles` cycles in a row there is one in which no reservation
keeps probes out, however many load-reserved there are. -/
theorem reservation_bounded (u : HellaCache p) (is : List (CacheIn p)) :
    let m := HellaCache.machine p
    let s := m.run u.reset is
    (∀ i, s.scStores i = true → ∃ age, age + 1 < p.lrscCycles ∧
      m.history HellaCache.lastLr u.reset none is = some (s.s2Req.addr, age)) ∧
    ∀ js : List (CacheIn p), p.lrscCycles ≤ js.length + 1 →
      ∃ k ≤ js.length, (m.run s (js.take k)).lrscValid = false := by
  have h := Machine.invariant_history (m := HellaCache.machine p) (Q := HellaCache.Reserved)
    HellaCache.lastLr (fun _ _ _ h _ => h.next) (s := u.reset) (g := none)
    ⟨Nat.zero_le _, fun h => absurd rfl h⟩ (Machine.legal_of_forall_ok _ (fun _ _ => trivial) _ is)
  refine ⟨fun i hsc => ?_, fun js hjs => ?_⟩
  · obtain ⟨hne, haddr⟩ := HellaCache.reserved_of_scStores hsc
    obtain ⟨age, hage, hlt⟩ := h.last hne
    exact ⟨age, by omega, haddr ▸ hage⟩
  · have := h.count_le
    exact HellaCache.exists_lrscValid_false (by omega)

end TaggedRiscv.L1
