import Mathlib.Data.List.Perm.Basic
import Mathlib.Data.List.Range
import Mathlib.Data.List.Nodup
import Mathlib.Logic.Function.Basic

/-!
# Lib.Pool — a pool of reusable objects

Objects are named by numbers; those from `count` on do not exist yet, and `free` lists those that wait to be used
again.  A user draws objects from the list, or has new ones made, and gives them back unused.  `Drawn` relates a
pool to what it was when nothing had been drawn: it says which objects are out, and that no other has changed.
Nothing here mentions the driver.
-/

namespace Lib

variable {α : Type}

structure Pool (α : Type) where
  count : ℕ
  obj : ℕ → α
  free : List ℕ

namespace Pool

variable {unused : α} {p p0 : Pool α} {held : List ℕ} {i : ℕ}

/-- The objects in the pool, and those that do not exist yet, are unused, and none is in the pool twice. -/
structure Clean (unused : α) (p : Pool α) : Prop where
  fresh : ∀ i, p.count ≤ i → p.obj i = unused
  free_unused : ∀ i ∈ p.free, p.obj i = unused
  free_lt : ∀ i ∈ p.free, i < p.count
  nodup : p.free.Nodup

/-- The objects made since the pool was `p0`. -/
def made (p0 p : Pool α) : List ℕ := List.range' p0.count (p.count - p0.count)

/-- Since the pool was `p0`, the objects `held` have been drawn. -/
structure Drawn (p0 p : Pool α) (held : List ℕ) : Prop where
  perm : (held ++ p.free).Perm (p0.free ++ made p0 p)
  le : p0.count ≤ p.count
  rest : ∀ i, i ∉ held → p.obj i = p0.obj i

theorem mem_made : i ∈ made p0 p ↔ p0.count ≤ i ∧ i < p0.count + (p.count - p0.count) := by
  rw [made, List.mem_range'_1]

theorem Drawn.refl (p : Pool α) : Drawn p p [] where
  perm := by simp [made]
  le := le_refl _
  rest _ _ := rfl

section

variable (h : Drawn p0 p held)
include h

/-- An object is drawn from the pool. -/
theorem Drawn.take {free : List ℕ} (hfree : p.free = i :: free) : Drawn p0 ⟨p.count, p.obj, free⟩ (i :: held) where
  perm := by
    have hperm := h.perm
    rw [hfree] at hperm
    exact List.perm_middle.symm.trans hperm
  le := h.le
  rest j hj := h.rest j fun hh => hj (List.mem_cons_of_mem _ hh)

/-- An object is made. -/
theorem Drawn.make (x : α) : Drawn p0 ⟨p.count + 1, Function.update p.obj p.count x, p.free⟩ (p.count :: held) where
  perm := by
    have hsub : p.count + 1 - p0.count = (p.count - p0.count) + 1 := Nat.sub_add_comm h.le
    have hmade : made p0 ⟨p.count + 1, Function.update p.obj p.count x, p.free⟩ = made p0 p ++ [p.count] := by
      rw [made, made, hsub, List.range'_concat, Nat.one_mul, Nat.add_sub_cancel' h.le]
    rw [hmade, ← List.append_assoc, List.cons_append]
    exact (List.Perm.cons _ h.perm).trans (List.perm_append_singleton _ _).symm
  le := h.le.trans (Nat.le_succ _)
  rest j hj := by
    rw [List.mem_cons, not_or] at hj
    exact (Function.update_of_ne hj.1 ..).trans (h.rest j hj.2)

/-- A drawn object is changed. -/
theorem Drawn.set (hi : i ∈ held) (x : α) : Drawn p0 ⟨p.count, Function.update p.obj i x, p.free⟩ held where
  perm := h.perm
  le := h.le
  rest j hj := (Function.update_of_ne (fun he : j = i => hj (he ▸ hi)) ..).trans (h.rest j hj)

end

/-- What is out was in the pool, or did not exist. -/
theorem Drawn.unused_before (h : Drawn p0 p held) (h0 : p0.Clean unused) (hi : i ∈ held ++ p.free) :
    p0.obj i = unused := by
  rcases List.mem_append.mp (h.perm.subset hi) with hi | hi
  · exact h0.free_unused i hi
  · exact h0.fresh i (mem_made.mp hi).1

theorem Drawn.lt (h : Drawn p0 p held) (h0 : p0.Clean unused) (hi : i ∈ held ++ p.free) : i < p.count := by
  rcases List.mem_append.mp (h.perm.subset hi) with hi | hi
  · exact (h0.free_lt i hi).trans_le h.le
  · have := (mem_made.mp hi).2
    have := h.le
    omega

theorem Drawn.nodup (h : Drawn p0 p held) (h0 : p0.Clean unused) : (held ++ p.free).Nodup := by
  refine h.perm.nodup_iff.mpr (List.nodup_append.mpr ⟨h0.nodup, List.nodup_range', ?_⟩)
  rintro a ha b hb rfl
  exact absurd (h0.free_lt a ha) (not_lt.mpr (mem_made.mp hb).1)

/-- What is not out is unused, if it is in the pool or does not exist yet. -/
theorem Drawn.free_unused (h : Drawn p0 p held) (h0 : p0.Clean unused) (hi : i ∈ p.free) : p.obj i = unused := by
  have hnot : i ∉ held := fun hh => (List.nodup_append.mp (h.nodup h0)).2.2 i hh i hi rfl
  rw [h.rest i hnot]
  exact h.unused_before h0 (List.mem_append_right _ hi)

theorem Drawn.fresh (h : Drawn p0 p held) (h0 : p0.Clean unused) (hi : p.count ≤ i) : p.obj i = unused := by
  have hnot : i ∉ held := fun hh => absurd (h.lt h0 (List.mem_append_left _ hh)) (not_lt.mpr hi)
  rw [h.rest i hnot]
  exact h0.fresh i (h.le.trans hi)

/-- An object is given back unused. -/
theorem Drawn.put (h : Drawn p0 p (i :: held)) (h0 : p0.Clean unused) :
    Drawn p0 ⟨p.count, Function.update p.obj i unused, i :: p.free⟩ held where
  perm := List.perm_middle.trans h.perm
  le := h.le
  rest j hj := by
    by_cases hji : j = i
    · rw [hji]
      exact (Function.update_self ..).trans
        (h.unused_before h0 (List.mem_append_left _ (List.mem_cons_self ..))).symm
    · refine (Function.update_of_ne hji ..).trans (h.rest j ?_)
      rw [List.mem_cons, not_or]
      exact ⟨hji, hj⟩

/-- **Nothing out.**  A pool that has everything back is clean. -/
theorem Drawn.clean (h : Drawn p0 p []) (h0 : p0.Clean unused) : p.Clean unused where
  fresh _ hi := h.fresh h0 hi
  free_unused _ hi := h.free_unused h0 hi
  free_lt _ hi := h.lt h0 hi
  nodup := h.nodup h0

end Pool

end Lib
