import Mathlib.Data.Nat.Bitwise

/-!
# Lib.Bits — single bits of a word

A word `1 <<< k` tests, sets and clears bit `k` of another.  Nothing here mentions the driver.
-/

namespace Lib

variable {w : ℕ} {m : BitVec w} {j k : ℕ}

theorem getLsbD_one_shl (w j k : ℕ) : ((1 : BitVec w) <<< k).getLsbD j = (decide (j < w) && decide (j = k)) := by
  have htwo : (1 : BitVec w) <<< k = BitVec.twoPow w k := (BitVec.twoPow_eq w k).symm
  rw [htwo, BitVec.getLsbD_twoPow]
  by_cases hj : j < w
  · simp only [hj, decide_true, Bool.true_and]
    by_cases hk : j = k
    · subst hk
      simp [hj]
    · simp [hk, Ne.symm hk]
  · simp only [hj, decide_false, Bool.false_and]
    by_cases hk : k = j
    · subst hk
      simp [hj]
    · simp [hk]

/-- **Testing a bit.** -/
theorem and_one_shl_eq_zero_iff (m : BitVec w) (hk : k < w) : m &&& (1 : BitVec w) <<< k = 0 ↔ m.getLsbD k = false := by
  constructor
  · intro h
    have hbit := congrArg (·.getLsbD k) h
    simpa [getLsbD_one_shl, hk] using hbit
  · intro h
    refine BitVec.eq_of_getLsbD_eq fun j hj => ?_
    rw [BitVec.getLsbD_and, getLsbD_one_shl]
    by_cases hjk : j = k
    · subst hjk
      simp [h]
    · simp [hjk]

/-- **Setting a bit.** -/
theorem getLsbD_or_one_shl (m : BitVec w) (hk : k < w) :
    (m ||| (1 : BitVec w) <<< k).getLsbD j = true ↔ j = k ∨ m.getLsbD j = true := by
  rw [BitVec.getLsbD_or, getLsbD_one_shl, Bool.or_eq_true, Bool.and_eq_true, decide_eq_true_eq, decide_eq_true_eq,
    or_comm]
  refine or_congr_left ⟨And.right, fun h => ⟨h ▸ hk, h⟩⟩

/-- **Clearing a bit.** -/
theorem getLsbD_andNot_one_shl (m : BitVec w) :
    (m &&& ~~~((1 : BitVec w) <<< k)).getLsbD j = true ↔ j ≠ k ∧ m.getLsbD j = true := by
  rw [BitVec.getLsbD_and, BitVec.getLsbD_not, getLsbD_one_shl, Bool.and_eq_true]
  constructor
  · rintro ⟨hm, h⟩
    have hj : j < w := BitVec.lt_of_getLsbD hm
    simp only [hj, decide_true, Bool.true_and, Bool.not_eq_true', decide_eq_false_iff_not] at h
    exact ⟨h, hm⟩
  · rintro ⟨hjk, hm⟩
    have hj : j < w := BitVec.lt_of_getLsbD hm
    simp [hm, hj, hjk]

/-- A number below `2 ^ n` has no bit from `n` on. -/
theorem testBit_of_lt_two_pow {v n : ℕ} (hv : v < 2 ^ n) (hj : n ≤ j) : v.testBit j = false :=
  Nat.testBit_lt_two_pow (Nat.lt_of_lt_of_le hv (Nat.pow_le_pow_right (by decide) hj))

/-- The low `k` bits -/
theorem getLsbD_ofNat_two_pow_sub_one (hk : k ≤ w) (j : ℕ) :
    (BitVec.ofNat w (2 ^ k - 1)).getLsbD j = decide (j < k) := by
  rw [BitVec.getLsbD_ofNat, Nat.testBit_two_pow_sub_one]
  by_cases hj : j < k
  · have hjw : j < w := Nat.lt_of_lt_of_le hj hk
    simp [hj, hjw]
  · simp [hj]

/-- **The words of a list, or-ed.** -/
theorem getLsbD_foldr_or {α : Type} (g : α → BitVec w) (l : List α) :
    (l.foldr (fun a e => g a ||| e) 0).getLsbD j = l.any fun a => (g a).getLsbD j := by
  induction l with
  | nil => exact BitVec.getLsbD_zero
  | cons a l ih => rw [List.foldr_cons, BitVec.getLsbD_or, ih, List.any_cons]

end Lib
