import Mathlib.Logic.Function.Basic

/-!
# Write-back caches

One set of a write-back cache in front of a backing store. It represents an abstract store: a line
that is held is the content of its way, any other line is in the backing store.

Two ways may be in an irregular condition while an operation is under way: the content of one way
may not be that of the line its entry names (it is being refilled), and one way may be newer than
its dirty mark says (it has just been modified).
-/

namespace WriteBack

open Function

variable {W L V : Type*}

/-- The directory entry of a way. -/
structure Entry (L : Type*) where
  line : Option L
  dirty : Bool

/-- The backing store has the line if every way that holds it is being refilled, or is
not dirty and has not just been modified. -/
def Saved (entry : W → Entry L) (refilling modified : Option W) (l : L) : Prop :=
  ∀ w, (entry w).line = some l →
    some w = refilling ∨ (entry w).dirty = false ∧ some w ≠ modified

/-- The ways of a set and the backing store represent a store of the lines in `dom`. -/
structure Represents (dom : L → Prop) (entry : W → Entry L) (content : W → V)
    (back store : L → V) (refilling modified : Option W) : Prop where
  mem_dom : ∀ w l, (entry w).line = some l → dom l
  unique : ∀ w w' l, (entry w).line = some l → (entry w').line = some l → w = w'
  held : ∀ w l, some w ≠ refilling → (entry w).line = some l → content w = store l
  saved : ∀ l, dom l → Saved entry refilling modified l → back l = store l

namespace Represents

variable {dom : L → Prop} {entry : W → Entry L} {content content' : W → V}
variable {back back' store : L → V} {refilling modified : Option W} {w : W} {l : L}

/-! ## Reading -/

theorem of_held (h : Represents dom entry content back store none modified)
    (hw : (entry w).line = some l) : content w = store l :=
  h.held w l (by simp) hw

/-- A line that no way holds is in the backing store. -/
theorem of_saved (h : Represents dom entry content back store refilling modified) (hl : dom l)
    (hno : ∀ w, (entry w).line ≠ some l) : back l = store l :=
  h.saved l hl fun w hw => absurd hw (hno w)

/-- The line of a clean way is in the backing store. -/
theorem of_clean (h : Represents dom entry content back store none none)
    (hw : (entry w).line = some l) (hc : (entry w).dirty = false) : back l = content w := by
  rw [h.of_held hw]
  apply h.saved l (h.mem_dom w l hw)
  intro w' hw'
  rw [h.unique w' w l hw' hw]
  exact .inr ⟨hc, by simp⟩

/-! ## Writing a line back -/

/-- The content of a way goes to the backing store. -/
theorem save [DecidableEq L] (h : Represents dom entry content back store none modified)
    (hw : (entry w).line = some l) :
    Represents dom entry content (update back l (content w)) store none modified := by
  refine ⟨h.mem_dom, h.unique, h.held, fun l' hl' hs => ?_⟩
  by_cases he : l' = l
  · subst he
    rw [update_self, h.of_held hw]
  · rw [update_of_ne he]
    exact h.saved l' hl' hs

/-! ## Replacing a line -/

/-- A way whose line is in the backing store may be refilled. -/
theorem release (h : Represents dom entry content back store none none)
    (hw : ∀ l, (entry w).line = some l → back l = content w) :
    Represents dom entry content back store (some w) none := by
  refine ⟨h.mem_dom, h.unique, fun w' l' _ hl' => h.of_held hl', fun l' hl' hs => ?_⟩
  by_cases hwl : (entry w).line = some l'
  · rw [hw l' hwl, h.of_held hwl]
  · apply h.saved l' hl'
    intro w' hw'
    rcases hs w' hw' with he | he
    · rw [Option.some.inj he] at hw'
      exact absurd hw' hwl
    · exact .inr he

/-- The content of a way that is being refilled does not matter. -/
theorem overwrite (h : Represents dom entry content back store (some w) modified)
    (hc : ∀ w', w' ≠ w → content' w' = content w') :
    Represents dom entry content' back store (some w) modified := by
  refine ⟨h.mem_dom, h.unique, fun w' l' hne hl' => ?_, h.saved⟩
  rw [hc w' fun he => hne (congrArg some he)]
  exact h.held w' l' hne hl'

/-- A way filled with a line that no way held becomes its clean holder. -/
theorem fill [DecidableEq W] (h : Represents dom entry content back store (some w) none)
    (hl : dom l) (hno : ∀ w, (entry w).line ≠ some l) (hc : content w = store l) :
    Represents dom (update entry w ⟨some l, false⟩) content back store none none := by
  have hother : ∀ w' l', w' ≠ w →
      (update entry w (⟨some l, false⟩ : Entry L) w').line = some l' →
      (entry w').line = some l' := by
    intro w' l' hne hl'
    rwa [update_of_ne hne] at hl'
  have hself : ∀ l', (update entry w (⟨some l, false⟩ : Entry L) w).line = some l' →
      l' = l := by
    intro l' hl'
    rw [update_self] at hl'
    exact (Option.some.inj hl').symm
  refine ⟨fun w' l' hl' => ?_, fun w₁ w₂ l' h₁ h₂ => ?_, fun w' l' _ hl' => ?_, fun l' hl' hs => ?_⟩
  · by_cases he : w' = w
    · subst he
      rw [hself l' hl']
      exact hl
    · exact h.mem_dom w' l' (hother w' l' he hl')
  · by_cases he₁ : w₁ = w <;> by_cases he₂ : w₂ = w
    · exact he₁.trans he₂.symm
    · subst he₁
      rw [hself l' h₁] at h₂
      exact absurd (hother w₂ l he₂ h₂) (hno w₂)
    · subst he₂
      rw [hself l' h₂] at h₁
      exact absurd (hother w₁ l he₁ h₁) (hno w₁)
    · exact h.unique w₁ w₂ l' (hother w₁ l' he₁ h₁) (hother w₂ l' he₂ h₂)
  · by_cases he : w' = w
    · subst he
      rw [hself l' hl', hc]
    · exact h.held w' l' (fun hs => he (Option.some.inj hs)) (hother w' l' he hl')
  · -- the holders of another line are the old ones, without the way that was refilled
    apply h.saved l' hl'
    intro w' hw'
    by_cases he : w' = w
    · exact .inl (congrArg some he)
    · right
      have := hs w' (by rwa [update_of_ne he])
      rw [update_of_ne he] at this
      exact this.resolve_left (by simp)

/-! ## Modifying a line -/

/-- A new content of a held line. -/
theorem modify [DecidableEq L] [DecidableEq W]
    (h : Represents dom entry content back store none none) (hw : (entry w).line = some l) (v : V) :
    Represents dom entry (update content w v) back (update store l v) none
      (some w) := by
  refine ⟨h.mem_dom, h.unique, fun w' l' _ hl' => ?_, fun l' hl' hs => ?_⟩
  · by_cases he : w' = w
    · subst he
      rw [update_self, Option.some.inj (hl'.symm.trans hw), update_self]
    · have hne : l' ≠ l := fun hll => he (h.unique w' w l (hll ▸ hl') hw)
      rw [update_of_ne he, update_of_ne hne]
      exact h.of_held hl'
  · -- the line itself is not claimed to be saved, its holder has just been modified
    have hne : l' ≠ l := by
      rintro rfl
      rcases hs w hw with hs | hs
      · simp at hs
      · exact hs.2 rfl
    rw [update_of_ne hne]
    apply h.saved l' hl'
    intro w' hw'
    rcases hs w' hw' with hs | hs
    · exact .inl hs
    · exact .inr ⟨hs.1, by simp⟩

/-- The dirty mark makes a modified way regular again. -/
theorem mark [DecidableEq W] (h : Represents dom entry content back store none (some w)) :
    Represents dom (update entry w ⟨(entry w).line, true⟩) content back store none none := by
  have hline : ∀ w', (update entry w (⟨(entry w).line, true⟩ : Entry L) w').line =
      (entry w').line := by
    intro w'
    by_cases he : w' = w
    · subst he
      rw [update_self]
    · rw [update_of_ne he]
  refine ⟨fun w' l' hl' => h.mem_dom w' l' (hline w' ▸ hl'),
    fun w₁ w₂ l' h₁ h₂ => h.unique w₁ w₂ l' (hline w₁ ▸ h₁) (hline w₂ ▸ h₂),
    fun w' l' _ hl' => h.of_held (hline w' ▸ hl'), fun l' hl' hs => ?_⟩
  apply h.saved l' hl'
  intro w' hw'
  have hs' := hs w' (by rw [hline]; exact hw')
  by_cases he : w' = w
  · subst he
    simp [update_self] at hs'
  · rw [update_of_ne he] at hs'
    rcases hs' with hs' | hs'
    · simp at hs'
    · exact .inr ⟨hs'.1, fun hc => he (Option.some.inj hc)⟩

end Represents

end WriteBack
