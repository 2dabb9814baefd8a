import Mathlib.Data.Nat.ModEq
import Mathlib.Data.Nat.Prime.Basic
import Mathlib.Data.Finset.Card
import Mathlib.Data.Finset.Range

/-!
# Lib.Stride — going round a ring in equal steps

From `a`, `d` places at a time, on a ring of `n` places.  A step without a factor in common with the ring comes back
to a place only when it has been at all of them.
-/

namespace Lib

variable {a d n j k : ℕ}

/-- The place behind `k` steps. -/
def stride (a d n k : ℕ) : ℕ := (a + k * d) % n

theorem stride_lt (hn : 0 < n) (a d k : ℕ) : stride a d n k < n := Nat.mod_lt _ hn

theorem stride_succ (a d n k : ℕ) : stride a d n (k + 1) = (stride a d n k + d) % n := by
  rw [stride, stride, Nat.mod_add_mod, Nat.succ_mul, Nat.add_assoc]

theorem stride_injOn (hd : Nat.Coprime n d) (a : ℕ) : Set.InjOn (stride a d n) (Set.Iio n) := by
  intro j hj k hk h
  have hmul : j * d ≡ k * d [MOD n] := Nat.ModEq.add_left_cancel' a h
  exact (Nat.ModEq.cancel_right_of_coprime hd hmul).eq_of_lt_of_lt hj hk

/-- **All the places.**  The first `n` steps are at every place. -/
theorem image_stride (hn : 0 < n) (hd : Nat.Coprime n d) (a : ℕ) :
    (Finset.range n).image (stride a d n) = Finset.range n := by
  have hsub : (Finset.range n).image (stride a d n) ⊆ Finset.range n := by
    intro i hi
    obtain ⟨k, -, rfl⟩ := Finset.mem_image.mp hi
    exact Finset.mem_range.mpr (stride_lt hn a d k)
  have hinj : Set.InjOn (stride a d n) (Finset.range n) := by
    rw [Finset.coe_range]
    exact stride_injOn hd a
  refine Finset.eq_of_subset_of_card_le hsub ?_
  rw [Finset.card_image_of_injOn hinj]

/-- An odd step has no factor in common with a power of two. -/
theorem coprime_two_pow_of_odd (m : ℕ) (hd : d % 2 = 1) : Nat.Coprime (2 ^ m) d :=
  Nat.Coprime.pow_left m (Nat.coprime_two_left.mpr (Nat.odd_iff.mpr hd))

end Lib
