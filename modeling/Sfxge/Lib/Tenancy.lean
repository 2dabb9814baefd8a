import Mathlib.Data.Set.Insert
import Mathlib.Logic.Function.Basic

/-!
# Lib.Tenancy — resources of which each has one holder at most

What is taken is what somebody holds: `grant` takes what is free, `release` gives back what was held.  Nothing here
mentions the driver.
-/

namespace Lib

variable {ι β : Type}

/-- Who holds what; nothing has two holders. -/
structure Tenancy (ι β : Type) where
  held : ι → Option β
  unique : ∀ i j b, held i = some b → held j = some b → i = j

namespace Tenancy

def empty : Tenancy ι β := ⟨fun _ => none, nofun⟩

variable {t : Tenancy ι β} {i : ι} {b c : β}

/-- What somebody holds. -/
def taken (t : Tenancy ι β) : Set β := {b | ∃ i, t.held i = some b}

theorem mem_taken : b ∈ t.taken ↔ ∃ i, t.held i = some b := Iff.rfl

theorem not_mem_taken_empty (b : β) : b ∉ (empty : Tenancy ι β).taken := by
  rintro ⟨i, hi⟩
  cases hi

variable [DecidableEq ι]

/-- `i` is given `b`, which is free. -/
def grant (t : Tenancy ι β) (i : ι) (b : β) (hb : b ∉ t.taken) : Tenancy ι β where
  held := Function.update t.held i (some b)
  unique j k c hj hk := by
    by_cases hji : j = i
    · subst hji
      rw [Function.update_self] at hj
      by_cases hkj : k = j
      · exact hkj.symm
      · rw [Function.update_of_ne hkj] at hk
        exact absurd ⟨k, hk.trans hj.symm⟩ hb
    · rw [Function.update_of_ne hji] at hj
      by_cases hki : k = i
      · subst hki
        rw [Function.update_self] at hk
        exact absurd ⟨j, hj.trans hk.symm⟩ hb
      · rw [Function.update_of_ne hki] at hk
        exact t.unique j k c hj hk

/-- `i` gives back what it holds. -/
def release (t : Tenancy ι β) (i : ι) : Tenancy ι β where
  held := Function.update t.held i none
  unique j k c hj hk := by
    have hof : ∀ l, Function.update t.held i none l = some c → t.held l = some c := by
      intro l hl
      by_cases hli : l = i
      · subst hli
        rw [Function.update_self] at hl
        cases hl
      · rwa [Function.update_of_ne hli] at hl
    exact t.unique j k c (hof j hj) (hof k hk)

@[simp] theorem held_grant_self (hb : b ∉ t.taken) : (t.grant i b hb).held i = some b := by
  simp [grant]

@[simp] theorem held_grant_of_ne {j : ι} (hb : b ∉ t.taken) (h : j ≠ i) : (t.grant i b hb).held j = t.held j := by
  simp [grant, h]

@[simp] theorem held_release_self : (t.release i).held i = none := by simp [release]

@[simp] theorem held_release_of_ne {j : ι} (h : j ≠ i) : (t.release i).held j = t.held j := by
  simp [release, h]

/-- **What is taken after a grant.** -/
theorem mem_taken_grant (hb : b ∉ t.taken) (hi : t.held i = none) :
    c ∈ (t.grant i b hb).taken ↔ c = b ∨ c ∈ t.taken := by
  constructor
  · rintro ⟨j, hj⟩
    by_cases hji : j = i
    · subst hji
      rw [held_grant_self] at hj
      exact Or.inl (Option.some.inj hj).symm
    · rw [held_grant_of_ne hb hji] at hj
      exact Or.inr ⟨j, hj⟩
  · rintro (rfl | ⟨j, hj⟩)
    · exact ⟨i, held_grant_self hb⟩
    · have hji : j ≠ i := by
        rintro rfl
        rw [hi] at hj
        cases hj
      exact ⟨j, (held_grant_of_ne hb hji).trans hj⟩

/-- **What is taken after a release.** -/
theorem mem_taken_release (hi : t.held i = some b) : c ∈ (t.release i).taken ↔ c ≠ b ∧ c ∈ t.taken := by
  constructor
  · rintro ⟨j, hj⟩
    by_cases hji : j = i
    · subst hji
      rw [held_release_self] at hj
      cases hj
    · rw [held_release_of_ne hji] at hj
      refine ⟨?_, j, hj⟩
      rintro rfl
      exact hji (t.unique j i c hj hi)
  · rintro ⟨hcb, j, hj⟩
    have hji : j ≠ i := by
      rintro rfl
      exact hcb (Option.some.inj (hj.symm.trans hi))
    exact ⟨j, (held_release_of_ne hji).trans hj⟩

end Tenancy

end Lib
