import Mathlib.Algebra.BigOperators.Group.Finset.Basic
import Mathlib.Algebra.BigOperators.Group.Finset.Piecewise
import Mathlib.Algebra.Order.BigOperators.Group.Finset
import Mathlib.Data.BitVec
import Mathlib.Tactic.Ring

/-!
# Lib.Counter — counters that wrap and the rings they index

A `w`-bit counter stands for a number that does not wrap: `idx b j` is the value of the counter of
number `j` that began at `b`.  In a ring whose size divides `2 ^ w`, the slot of a number is that of its
counter.
-/

namespace Lib

variable {w b j k n : ℕ}

/-- The counter value of number `j` from the base `b`. -/
def idx (w b j : ℕ) : BitVec w := BitVec.ofNat w (b + j)

theorem idx_add (b j n : ℕ) : idx w b j + BitVec.ofNat w n = idx w b (j + n) := by
  rw [idx, idx, ← BitVec.ofNat_add, Nat.add_assoc]

theorem idx_succ (b j : ℕ) : idx w b j + 1#w = idx w b (j + 1) := idx_add b j 1

theorem idx_toNat (c : BitVec w) : idx w c.toNat 0 = c := by
  rw [idx, Nat.add_zero, BitVec.ofNat_toNat, BitVec.setWidth_eq]

theorem add_ofNat (c : BitVec w) (j : ℕ) : c + BitVec.ofNat w j = idx w c.toNat j := by
  rw [idx, BitVec.ofNat_add, BitVec.ofNat_toNat, BitVec.setWidth_eq]

theorem idx_sub (hjk : j ≤ k) (hk : k < j + 2 ^ w) : (idx w b k - idx w b j).toNat = k - j := by
  obtain ⟨d, rfl⟩ := Nat.exists_eq_add_of_le hjk
  have hd : d < 2 ^ w := by omega
  rw [← idx_add, BitVec.add_comm, BitVec.add_sub_cancel, BitVec.toNat_ofNat, Nat.mod_eq_of_lt hd,
    Nat.add_sub_cancel_left]

/-- The slot of a counter in a ring. -/
theorem idx_mod (hn : n ∣ 2 ^ w) : (idx w b j).toNat % n = (b + j) % n := by
  rw [idx, BitVec.toNat_ofNat, Nat.mod_mod_of_dvd _ hn]

/-- Counters are masked with `n - 1` in a ring of `n = 2 ^ k` slots. -/
theorem and_mask (hk : k ≤ w) (c : BitVec w) :
    (c &&& BitVec.ofNat w (2 ^ k - 1)).toNat = c.toNat % 2 ^ k := by
  have hlt : 2 ^ k - 1 < 2 ^ w := by
    have := Nat.pow_le_pow_right (n := 2) (by omega) hk
    have : 0 < 2 ^ k := Nat.two_pow_pos k
    omega
  rw [BitVec.toNat_and, BitVec.toNat_ofNat, Nat.mod_eq_of_lt hlt, Nat.and_two_pow_sub_one_eq_mod]

/-- Numbers less than a ring apart have different slots. -/
theorem mod_ne (hne : j ≠ k) (hjk : j < k + n) (hkj : k < j + n) : (b + j) % n ≠ (b + k) % n := by
  intro h
  rcases Nat.lt_or_gt_of_ne hne with hlt | hlt
  · have hdvd : n ∣ (b + k) - (b + j) := (Nat.modEq_iff_dvd' (by omega)).mp h
    exact absurd (Nat.le_of_dvd (by omega) hdvd) (by omega)
  · have hdvd : n ∣ (b + j) - (b + k) := (Nat.modEq_iff_dvd' (by omega)).mp h.symm
    exact absurd (Nat.le_of_dvd (by omega) hdvd) (by omega)

/-- Every slot belongs to one of the numbers of a ring's length. -/
theorem mod_surj (b : ℕ) {i : ℕ} (hi : i < n) (r : ℕ) : ∃ j, r ≤ j ∧ j < r + n ∧ (b + j) % n = i := by
  have hr : (b + r) % n < n := Nat.mod_lt _ (by omega)
  have hd : (i + n - (b + r) % n) % n < n := Nat.mod_lt _ (by omega)
  refine ⟨r + (i + n - (b + r) % n) % n, by omega, by omega, ?_⟩
  have h1 : (b + (r + (i + n - (b + r) % n) % n)) ≡ (b + r) % n + (i + n - (b + r) % n) [MOD n] := by
    rw [← Nat.add_assoc]
    exact Nat.ModEq.add (Nat.mod_modEq _ _).symm (Nat.mod_modEq _ _)
  have h2 : (b + r) % n + (i + n - (b + r) % n) = i + n := by omega
  rw [h2] at h1
  rw [h1, Nat.add_mod_right, Nat.mod_eq_of_lt hi]

/-- Slots follow each other up to a boundary that divides the ring. -/
theorem mod_add {m i : ℕ} (hm : m ∣ n) (hi : i < m - b % m) : (b + i) % n = b % n + i := by
  rcases Nat.eq_zero_or_pos n with rfl | hn
  · simp
  obtain ⟨q, rfl⟩ := hm
  have hmpos : 0 < m := Nat.pos_of_mul_pos_right hn
  have hq : 0 < q := Nat.pos_of_mul_pos_left hn
  have hb : b % (m * q) = b % m + m * (b / m % q) := Nat.mod_mul
  have hdiv : b / m % q < q := Nat.mod_lt _ hq
  have hlast : m * (b / m % q) + m ≤ m * q := by
    rw [← Nat.mul_succ]
    exact Nat.mul_le_mul_left m hdiv
  have hlt : b % (m * q) + i < m * q := by omega
  rw [Nat.add_mod, Nat.mod_eq_of_lt (show i < m * q by omega), Nat.mod_eq_of_lt hlt]

/-! ### Windows on a sequence -/

section Window

variable {α : Type} {K : ℕ} {mem f g : ℕ → α}

/-- A ring of `n` slots holds the entries `K`, …, `K + n - 1` of the sequence `f`. -/
def Window (n b K : ℕ) (mem f : ℕ → α) : Prop := ∀ j, K ≤ j → j < K + n → mem ((b + j) % n) = f j

/-- An entry is written. -/
theorem Window.set (h : Window n b K mem f) (hK : K ≤ j) (hj : j < K + n) (v : α) :
    Window n b K (Function.update mem ((b + j) % n) v) (Function.update f j v) := by
  intro i hi1 hi2
  by_cases hij : i = j
  · subst hij
    rw [Function.update_self, Function.update_self]
  · rw [Function.update_of_ne (mod_ne hij (by omega) (by omega)), Function.update_of_ne hij, h i hi1 hi2]

/-- The slot of the first entry is given to the one after the last. -/
theorem Window.next (h : Window n b K mem f) {v : α} (hv : f (K + n) = v) :
    Window n b (K + 1) (Function.update mem ((b + K) % n) v) f := by
  intro j hj1 hj2
  by_cases hj : j = K + n
  · subst hj
    rw [← Nat.add_assoc, Nat.add_mod_right, Function.update_self, hv]
  · rw [Function.update_of_ne (mod_ne (by omega) (by omega) (by omega)), h j (by omega) (by omega)]

theorem Window.congr (h : Window n b K mem f) (hfg : ∀ j, K ≤ j → j < K + n → f j = g j) :
    Window n b K mem g := fun j h1 h2 => (h j h1 h2).trans (hfg j h1 h2)

end Window

/-! ### Counting -/

/-- One more is counted. -/
theorem card_filter_add_one {α : Type} [DecidableEq α] {s : Finset α} {p q : α → Prop} [DecidablePred p]
    [DecidablePred q] {a : α} (ha : a ∈ s) (hp : ¬ p a) (hq : q a) (h : ∀ b ∈ s, b ≠ a → (p b ↔ q b)) :
    (s.filter q).card = (s.filter p).card + 1 := by
  have hins : s.filter q = insert a (s.filter p) := by
    ext b
    rw [Finset.mem_insert, Finset.mem_filter, Finset.mem_filter]
    by_cases hb : b = a
    · subst hb
      exact iff_of_true ⟨ha, hq⟩ (Or.inl rfl)
    · refine ⟨fun ⟨hs, hqb⟩ => Or.inr ⟨hs, (h b hs hb).mpr hqb⟩, ?_⟩
      rintro (hba | ⟨hs, hpb⟩)
      · exact absurd hba hb
      · exact ⟨hs, (h b hs hb).mp hpb⟩
  rw [hins, Finset.card_insert_of_notMem fun hmem => hp (Finset.mem_filter.mp hmem).2]

/-- What the entries of a list stand for, by the key they have. -/
def sumOf {κ : Type} [DecidableEq κ] (l : List (κ × ℕ)) (q : κ) : ℕ := ((l.filter fun x => x.1 = q).map Prod.snd).sum

theorem sumOf_cons {κ : Type} [DecidableEq κ] (x : κ × ℕ) (l : List (κ × ℕ)) (q : κ) :
    sumOf (x :: l) q = (if x.1 = q then x.2 else 0) + sumOf l q := by
  unfold sumOf
  by_cases h : x.1 = q
  · rw [List.filter_cons_of_pos (by simpa using h), List.map_cons, List.sum_cons, if_pos h]
  · rw [List.filter_cons_of_neg (by simpa using h), if_neg h, Nat.zero_add]

theorem sumOf_append {κ : Type} [DecidableEq κ] (l l' : List (κ × ℕ)) (q : κ) :
    sumOf (l ++ l') q = sumOf l q + sumOf l' q := by
  rw [sumOf, List.filter_append, List.map_append, List.sum_append]
  rfl

/-- A list is no longer than what its entries stand for. -/
theorem length_le_sum {κ : Type} [DecidableEq κ] {l : List (κ × ℕ)} {keys : Finset κ}
    (h : ∀ x ∈ l, 0 < x.2 ∧ x.1 ∈ keys) : l.length ≤ ∑ q ∈ keys, sumOf l q := by
  induction l with
  | nil => exact Nat.zero_le _
  | cons x l ih =>
    obtain ⟨hpos, hkey⟩ := h x (by simp)
    have hrest := ih fun y hy => h y (by simp [hy])
    simp only [sumOf_cons]
    rw [Finset.sum_add_distrib, Finset.sum_ite_eq, if_pos hkey, List.length_cons]
    omega

end Lib
