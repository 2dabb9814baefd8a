import Sfxge.Lib.Stride
import Sfxge.Filter.Table

/-!
# Filter.Probe — what a search looks at

The size of a Siena table is a power of two and the increment of a key is odd: the probe sequence is a stride round the
table, which comes back to a slot only when it has been at all of them.
-/

namespace Sfxge.Filter

open Lib Errno

variable {sftp : SienaFilterTbl} {spec : SienaFilterSpec} {key : U32} {i m : ℕ}

/-- The last bit of `key * 2 - 1` is set, and is kept when the increment is cut to 16 bits. -/
theorem increment_odd (key : U32) : (sienaFilterTblIncrement key).toNat % 2 = 1 := by
  have hone : (1 : U32).toNat = 1 := rfl
  have htwo : (2 : U32).toNat = 2 := rfl
  simp only [sienaFilterTblIncrement, BitVec.toNat_setWidth, BitVec.toNat_sub, BitVec.toNat_mul, hone, htwo]
  omega

theorem probePos_eq_stride (m : ℕ) (key : U32) (k : ℕ) :
    probePos (2 ^ m) key k =
      stride (sienaFilterTblHash key).toNat (sienaFilterTblIncrement key).toNat (2 ^ m) k := by
  induction k with
  | zero => rw [probePos, Nat.and_two_pow_sub_one_eq_mod, stride, Nat.zero_mul, Nat.add_zero]
  | succ k ih => rw [probePos, Nat.and_two_pow_sub_one_eq_mod, ih, stride_succ]

/-- The slots of the first `min(size, 200)` positions of a key. -/
def probed (size : ℕ) (key : U32) : Finset ℕ :=
  (Finset.range (min size FILTER_CTL_SRCH_MAX)).image (probePos size key)

theorem probePos_injOn (m : ℕ) (key : U32) : Set.InjOn (probePos (2 ^ m) key) (Set.Iio (2 ^ m)) := by
  have hpos : probePos (2 ^ m) key =
      stride (sienaFilterTblHash key).toNat (sienaFilterTblIncrement key).toNat (2 ^ m) :=
    funext (probePos_eq_stride m key)
  rw [hpos]
  exact stride_injOn (coprime_two_pow_of_odd m (increment_odd key)) _

theorem probePos_injOn_probed (m : ℕ) (key : U32) :
    Set.InjOn (probePos (2 ^ m) key) (Set.Iio (min (2 ^ m) FILTER_CTL_SRCH_MAX)) :=
  (probePos_injOn m key).mono (Set.Iio_subset_Iio (Nat.min_le_left _ _))

theorem card_probed (m : ℕ) (key : U32) : (probed (2 ^ m) key).card = min (2 ^ m) FILTER_CTL_SRCH_MAX := by
  have hinj := probePos_injOn_probed m key
  rw [← Finset.coe_range] at hinj
  rw [probed, Finset.card_image_of_injOn hinj, Finset.card_range]

/-- An insertion goes past a slot only if it is used. -/
theorem used_of_not_stops (h : ¬ Stops sftp spec true i) : sienaFilterTestUsed sftp i = true := by
  by_contra hfree
  rw [Bool.not_eq_true] at hfree
  exact h (by simp [Stops, hfree])

theorem used_of_search_error {e : Errno} (h : sienaFilterSearch sftp spec key true = .error e)
    (hi : i ∈ probed sftp.size key) : sienaFilterTestUsed sftp i = true := by
  obtain ⟨k, hk, rfl⟩ := Finset.mem_image.mp hi
  have hmax : k < FILTER_CTL_SRCH_MAX := (Finset.mem_range.mp hk).trans_le (Nat.min_le_right _ _)
  exact used_of_not_stops ((search_error h).2 k hmax)

/-- **Probing covers the table.**  The first `min(size, 200)` positions of a key are in different slots, and an
insertion fails only if all of these are used. -/
theorem sienaFilterSearch_covers (m : ℕ) (key : U32) :
    (∀ k, probePos (2 ^ m) key k =
      ((sienaFilterTblHash key).toNat + k * (sienaFilterTblIncrement key).toNat) % 2 ^ m) ∧
    Set.InjOn (probePos (2 ^ m) key) (Set.Iio (min (2 ^ m) FILTER_CTL_SRCH_MAX)) ∧
    ∀ sftp spec e, sftp.size = 2 ^ m → sienaFilterSearch sftp spec key true = .error e →
      e = EBUSY ∧ (probed sftp.size key).card = min sftp.size FILTER_CTL_SRCH_MAX ∧
        ∀ i ∈ probed sftp.size key, i < sftp.size ∧ sienaFilterTestUsed sftp i = true := by
  refine ⟨probePos_eq_stride m key, probePos_injOn_probed m key, fun sftp spec e hsize h => ?_⟩
  refine ⟨by simpa using (search_error h).1, ?_, fun i hi => ⟨?_, used_of_search_error h hi⟩⟩
  · rw [hsize]
    exact card_probed m key
  · obtain ⟨k, -, rfl⟩ := Finset.mem_image.mp hi
    exact probePos_lt (by rw [hsize]; exact Nat.two_pow_pos m) key k

/-- A table of at most 200 slots takes every filter until it is full. -/
theorem full_of_search_error {e : Errno} (hsize : sftp.size = 2 ^ m) (hsmall : sftp.size ≤ FILTER_CTL_SRCH_MAX)
    (h : sienaFilterSearch sftp spec key true = .error e) (hi : i < sftp.size) :
    sienaFilterTestUsed sftp i = true := by
  refine used_of_search_error h ?_
  have hall := image_stride (Nat.two_pow_pos m) (coprime_two_pow_of_odd m (increment_odd key))
    (sienaFilterTblHash key).toNat
  rw [probed, Nat.min_eq_left hsmall, hsize, funext (probePos_eq_stride m key), hall, ← hsize]
  exact Finset.mem_range.mpr hi

end Sfxge.Filter
