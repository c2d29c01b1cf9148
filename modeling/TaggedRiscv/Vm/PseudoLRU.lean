import TaggedRiscv.Vm.Basic

/-!
# What the pseudo-LRU replacement spares

The replacement state of `2 ^ k` ways is a binary tree in the bits of one register: node 1 is the
root, and node `x` has the children `2 * x` and `2 * x + 1`. An access makes the nodes above a way
point away from it.

A way that has just been accessed has all its `k` nodes pointing away. An access to another way
turns at most one of them back, the one where the two ways part. So `k` different ways must be
accessed before it can be replaced.
-/

namespace TaggedRiscv.Vm

/-! ## Recent items -/

section Recent

variable {α : Type*}

/-- An item of a list has a last place. -/
theorem exists_eq_append_of_mem {v : α} {l : List α} (h : v ∈ l) :
    ∃ before after, l = before ++ v :: after ∧ v ∉ after := by
  obtain ⟨after, before, heq, hnot⟩ := List.eq_append_cons_of_mem (List.mem_reverse.2 h)
  refine ⟨before.reverse, after.reverse, ?_, by simpa using hnot⟩
  rw [← List.reverse_reverse l, heq]
  simp

variable [DecidableEq α]

/-- The last `k` different items of a list, the last one first. Of equal items `dedup` keeps the
last. -/
def mostRecent (k : ℕ) (l : List α) : List α := l.dedup.reverse.take k

/-- An item is not recent if `k` different items follow it. -/
theorem notMem_mostRecent {k : ℕ} {v : α} {before after : List α} (hv : v ∉ after)
    (hk : k ≤ after.dedup.length) : v ∉ mostRecent k (before ++ v :: after) := by
  obtain ⟨t, ht⟩ := List.suffix_union_right before (v :: after.dedup)
  have hdedup : (before ++ v :: after).dedup = t ++ v :: after.dedup := by
    rw [List.dedup_append, List.dedup_cons_of_notMem hv, ht]
  intro hmem
  rw [mostRecent, hdedup, List.reverse_append, List.reverse_cons, List.append_assoc,
    List.take_append_of_le_length (by simpa using hk)] at hmem
  exact hv (by simpa using List.mem_of_mem_take hmem)

end Recent

namespace PseudoLRU

variable {k : ℕ} {s : PseudoLRU} {u v i j : ℕ}

/-! ## The nodes above a way -/

/-- The node above a way that has `i` levels below it on the way there. -/
def node (k v i : ℕ) : ℕ := (2 ^ k + v) / 2 ^ (i + 1)

theorem node_lt (hv : v < 2 ^ k) : node k v i < 2 ^ k := by
  have hle : (2 ^ k + v) / 2 ^ (i + 1) ≤ (2 ^ k + v) / 2 :=
    Nat.div_le_div_left (Nat.le_self_pow (Nat.succ_ne_zero i) 2) (by decide)
  unfold node
  omega

/-- Nodes of different levels are different. -/
theorem log_node (hv : v < 2 ^ k) : Nat.log 2 (node k v i) = k - (i + 1) := by
  have hlog : Nat.log 2 (2 ^ k + v) = k :=
    Nat.log_eq_of_pow_le_of_lt_pow (Nat.le_add_right _ _) (by rw [Nat.pow_succ]; omega)
  rw [node, Nat.log_div_base_pow, hlog]

theorem node_ne (hu : u < 2 ^ k) (hv : v < 2 ^ k) (hji : j < i) (hi : i < k) :
    node k v j ≠ node k u i := by
  intro heq
  have hlog := congrArg (Nat.log 2) heq
  rw [log_node hv, log_node hu] at hlog
  omega

/-- The child of a node is chosen by the next bit of the way. -/
theorem div_two_pow_eq (hi : i < k) :
    (2 ^ k + v) / 2 ^ i = 2 * node k v i + (v.testBit i).toNat := by
  rw [← Nat.testBit_two_pow_add_gt hi v, Nat.toNat_testBit, node, Nat.pow_succ,
    ← Nat.div_div_eq_div_mul]
  omega

/-- Ways that have a node in common agree in the bits above it. -/
theorem testBit_eq_of_node_eq (h : node k u i = node k v i) (hij : i < j) (hj : j < k) :
    u.testBit j = v.testBit j := by
  have hbit := congrArg (Nat.testBit · (j - (i + 1))) h
  simp only [node, Nat.testBit_div_two_pow, Nat.sub_add_cancel (show i + 1 ≤ j from hij)] at hbit
  rwa [Nat.testBit_two_pow_add_gt hj, Nat.testBit_two_pow_add_gt hj] at hbit

/-! ## An access -/

/-- With `i` levels to go, an access still makes the nodes of these levels point away. -/
theorem accessFrom_node (hu : u < 2 ^ k) (hv : v < 2 ^ k) (hi : i ≤ k) (hj : j < k) :
    accessFrom (2 ^ k) u i ((2 ^ k + u) / 2 ^ i) s (node k v j) =
      if j < i ∧ node k u j = node k v j then !u.testBit j else s (node k v j) := by
  induction i generalizing s with
  | zero => simp [accessFrom]
  | succ i ih =>
    have hidx : (2 ^ k + u) / 2 ^ (i + 1) = node k u i := rfl
    rw [accessFrom, hidx, if_pos (node_lt hu), ← div_two_pow_eq (by omega), ih (by omega)]
    rcases lt_trichotomy j i with hlt | rfl | hgt
    · have hne : node k v j ≠ node k u i := node_ne hu hv hlt (by omega)
      simp [hlt, Nat.lt_succ_of_lt hlt, Function.update_of_ne hne]
    · by_cases hsame : node k u j = node k v j
      · simp [hsame]
      · simp [hsame, Function.update_of_ne (Ne.symm hsame)]
    · have hne : node k v j ≠ node k u i := (node_ne hv hu hgt hj).symm
      simp [hgt.not_gt, show ¬ j < i + 1 by omega, Function.update_of_ne hne]

/-- An access makes the nodes above its way point away from it, and changes no other. -/
theorem access_node (hu : u < 2 ^ k) (hv : v < 2 ^ k) (hj : j < k) :
    access (2 ^ k) k s u (node k v j) =
      if node k u j = node k v j then !u.testBit j else s (node k v j) := by
  have hroot : (2 ^ k + u) / 2 ^ k = 1 := by
    rw [Nat.add_div_left _ (Nat.two_pow_pos k), Nat.div_eq_of_lt hu]
  have h := accessFrom_node (s := s) hu hv le_rfl hj
  rw [hroot] at h
  simpa [access, hj] using h

/-! ## The way to replace -/

theorem follow_div (n i x : ℕ) : follow n s i x / 2 ^ i = x := by
  induction i generalizing x with
  | zero => simp [follow]
  | succ i ih =>
    have hbit : (decide (x < n) && s x).toNat < 2 := Bool.toNat_lt _
    rw [follow, Nat.pow_succ, ← Nat.div_div_eq_div_mul, ih]
    omega

/-- The bits of the end tell where the nodes pointed to. -/
theorem testBit_follow (n : ℕ) (hj : j < i) (x : ℕ) :
    (follow n s i x).testBit j =
      (decide (follow n s i x / 2 ^ (j + 1) < n) && s (follow n s i x / 2 ^ (j + 1))) := by
  induction i generalizing x with
  | zero => exact absurd hj (Nat.not_lt_zero j)
  | succ i ih =>
    rcases Nat.lt_succ_iff_lt_or_eq.1 hj with hlt | rfl
    · rw [follow]
      exact ih hlt _
    · rw [follow_div, follow, Nat.testBit_eq_decide_div_mod_eq, follow_div]
      cases decide (x < n) && s x <;> simp [Nat.add_mod]

theorem replace_lt (k : ℕ) (s : PseudoLRU) : replace (2 ^ k) k s < 2 ^ k :=
  Nat.mod_lt _ (Nat.two_pow_pos k)

/-- All nodes above the way to replace point to it. -/
theorem node_of_replace (hj : j < k) :
    s (node k (replace (2 ^ k) k s) j) = (replace (2 ^ k) k s).testBit j := by
  have hend : follow (2 ^ k) s k 1 = 2 ^ k + replace (2 ^ k) k s := by
    have hdiv := Nat.div_add_mod (follow (2 ^ k) s k 1) (2 ^ k)
    rw [follow_div, Nat.mul_one] at hdiv
    exact hdiv.symm
  have hbit := testBit_follow (s := s) (2 ^ k) hj 1
  have hlt : node k (replace (2 ^ k) k s) j < 2 ^ k := node_lt (replace_lt k s)
  rw [hend, Nat.testBit_two_pow_add_gt hj, ← node, decide_eq_true hlt, Bool.true_and] at hbit
  exact hbit.symm

/-! ## Every sequence of accesses -/

/-- Two ways part at a level: they have the node in common and go to different sides of it. -/
def PartsAt (k u v j : ℕ) : Prop := node k u j = node k v j ∧ u.testBit j ≠ v.testBit j

/-- Two ways part at one level only. -/
theorem PartsAt.unique (hi : PartsAt k u v i) (hj : PartsAt k u v j) (hik : i < k) (hjk : j < k) :
    i = j := by
  rcases lt_trichotomy i j with hlt | heq | hgt
  · exact absurd (testBit_eq_of_node_eq hi.1 hlt hjk) hj.2
  · exact heq
  · exact absurd (testBit_eq_of_node_eq hj.1 hgt hik) hi.2

/-- A node that comes to point to a way was turned by an access that parts from the way there. -/
theorem exists_partsAt {ways : List ℕ} (hways : ∀ u ∈ ways, u < 2 ^ k) (hv : v < 2 ^ k)
    (hj : j < k) (hbefore : s (node k v j) ≠ v.testBit j)
    (hafter : ways.foldl (access (2 ^ k) k) s (node k v j) = v.testBit j) :
    ∃ u ∈ ways, PartsAt k u v j := by
  induction ways generalizing s with
  | nil => exact absurd hafter hbefore
  | cons u ways ih =>
    rw [List.forall_mem_cons] at hways
    by_cases hturned : access (2 ^ k) k s u (node k v j) = v.testBit j
    · refine ⟨u, List.mem_cons_self, ?_⟩
      rw [access_node hways.1 hv hj] at hturned
      split_ifs at hturned with hnode
      · refine ⟨hnode, fun hsame => ?_⟩
        rw [hsame] at hturned
        exact absurd hturned (Bool.not_ne_self _)
      · exact absurd hturned hbefore
    · obtain ⟨w, hw, hparts⟩ := ih hways.2 hturned hafter
      exact ⟨w, List.mem_cons_of_mem u hw, hparts⟩

/-- After an access, `k` different ways must be accessed before its way is to be replaced. -/
theorem le_length_of_replace {ways : List ℕ} (hways : ∀ u ∈ ways, u < 2 ^ k) (hv : v < 2 ^ k)
    (hreplace : replace (2 ^ k) k (ways.foldl (access (2 ^ k) k) (access (2 ^ k) k s v)) = v) :
    k ≤ ways.dedup.length := by
  have hturned : ∀ j : Fin k, ∃ u ∈ ways, PartsAt k u v j := by
    intro j
    apply exists_partsAt hways hv j.isLt (s := access (2 ^ k) k s v)
    · rw [access_node hv hv j.isLt, if_pos rfl]
      exact Bool.not_ne_self _
    · have hnode := node_of_replace (s := ways.foldl (access (2 ^ k) k) (access (2 ^ k) k s v))
        j.isLt
      rwa [hreplace] at hnode
  choose turn hmem hparts using hturned
  -- the levels are told apart by the ways that part there
  have hcard : (Finset.univ : Finset (Fin k)).card ≤ ways.toFinset.card := by
    apply Finset.card_le_card_of_injOn turn
    · intro j _
      simpa using hmem j
    · intro i _ j _ hij
      exact Fin.ext ((hparts i).unique (hij ▸ hparts j) i.isLt j.isLt)
  rwa [Finset.card_univ, Fintype.card_fin, List.card_toFinset] at hcard

/-- After every sequence of accesses the way to replace is one of the `2 ^ k` ways, and none of the
`k` that were accessed last. -/
theorem replace_spares_recent (s : PseudoLRU) (ways : List ℕ) (hways : ∀ u ∈ ways, u < 2 ^ k) :
    let v := replace (2 ^ k) k (ways.foldl (access (2 ^ k) k) s)
    v < 2 ^ k ∧ v ∉ mostRecent k ways := by
  intro v
  refine ⟨replace_lt k _, fun hrecent => ?_⟩
  have hmem : v ∈ ways := by
    have hv := List.mem_of_mem_take hrecent
    simpa using hv
  obtain ⟨before, after, heq, hnot⟩ := exists_eq_append_of_mem hmem
  have hafter : ∀ u ∈ after, u < 2 ^ k := fun u hu => hways u (by simp [heq, hu])
  have hk : k ≤ after.dedup.length := by
    apply le_length_of_replace (s := before.foldl (access (2 ^ k) k) s) hafter (replace_lt k _)
    rw [← List.foldl_cons, ← List.foldl_append, ← heq]
  rw [heq] at hrecent
  exact notMem_mostRecent hnot hk hrecent

/-- Four ways, of which three are accessed. -/
theorem replace_spares_recent_four :
    mostRecent 2 [0, 2, 3, 2] = [2, 3] ∧
      replace (2 ^ 2) 2 ([0, 2, 3, 2].foldl (access (2 ^ 2) 2) fun _ => false) ∉
        mostRecent 2 [0, 2, 3, 2] :=
  ⟨by decide, (replace_spares_recent (k := 2) (fun _ => false) [0, 2, 3, 2] (by decide)).2⟩

end PseudoLRU

end TaggedRiscv.Vm
