import Mathlib.Data.Finset.Card
import Mathlib.Data.List.Nodup
import Mathlib.Tactic.Linarith

/-!
# Lib.Greedy — choosing the least loaded again and again

Each of the items `0, …, n - 1` puts its load on one place.  In every round the first item on a least loaded place
is picked and its place gets one unit more.  The picks are distinct as long as there are `fresh` items
(`Picks.nodup_iff`): items that are picked rather than any item that has been picked before.
-/

namespace Lib.Greedy

variable {κ : Type} [DecidableEq κ]

/-- Item `p` with load `l` is taken rather than item `q` with load `k`. -/
def Ahead (l p k q : ℕ) : Prop := l < k ∨ l = k ∧ p < q

instance (l p k q : ℕ) : Decidable (Ahead l p k q) := inferInstanceAs (Decidable (l < k ∨ l = k ∧ p < q))

/-- The load of a place after the items `ps` have been picked. -/
def loadAfter (place : ℕ → κ) (load : κ → ℕ) (ps : List ℕ) (x : κ) : ℕ := load x + (ps.map place).count x

/-- `p` is the first of `n` items on a least loaded place. -/
structure IsPick (n : ℕ) (place : ℕ → κ) (load : κ → ℕ) (p : ℕ) : Prop where
  lt : p < n
  ahead : ∀ q, q < n → q ≠ p → Ahead (load (place p)) p (load (place q)) q

/-- The items `ps` have been picked, the last one last. -/
inductive Picks (n : ℕ) (place : ℕ → κ) (load : κ → ℕ) : List ℕ → Prop
  | nil : Picks n place load []
  | snoc {ps : List ℕ} {p : ℕ} (t : Picks n place load ps) (h : IsPick n place (loadAfter place load ps) p) :
      Picks n place load (ps ++ [p])

/-- The first item on its place. -/
def First (place : ℕ → κ) (p : ℕ) : Prop := ∀ q, q < p → place q ≠ place p

/-- Item `p` is taken rather than any item that has been picked once. -/
def Fresh (n : ℕ) (place : ℕ → κ) (load : κ → ℕ) (p : ℕ) : Prop :=
  First place p ∧ ∀ q, q < n → q ≠ p → Ahead (load (place p)) p (load (place q) + 1) q

instance (place : ℕ → κ) (p : ℕ) : Decidable (First place p) :=
  inferInstanceAs (Decidable (∀ q, q < p → place q ≠ place p))

instance (n : ℕ) (place : ℕ → κ) (load : κ → ℕ) (p : ℕ) : Decidable (Fresh n place load p) :=
  inferInstanceAs (Decidable (First place p ∧ ∀ q, q < n → q ≠ p → Ahead (load (place p)) p (load (place q) + 1) q))

def fresh (n : ℕ) (place : ℕ → κ) (load : κ → ℕ) : Finset ℕ := (Finset.range n).filter (Fresh n place load)

variable {n : ℕ} {place : ℕ → κ} {load : κ → ℕ} {ps : List ℕ} {p q : ℕ}

theorem loadAfter_snoc (x : κ) :
    loadAfter place load (ps ++ [p]) x = loadAfter place load ps x + if place p = x then 1 else 0 := by
  simp only [loadAfter, List.map_append, List.count_append, List.map_cons, List.map_nil, List.count_singleton,
    beq_iff_eq]
  omega

omit [DecidableEq κ] in
theorem IsPick.first (h : IsPick n place load p) : First place p := by
  intro q hq he
  rcases h.ahead q (hq.trans h.lt) hq.ne with hl | ⟨-, hl⟩
  · rw [he] at hl
    exact lt_irrefl _ hl
  · exact absurd hl (by omega)

omit [DecidableEq κ] in
theorem First.eq_of_place_eq (hp : First place p) (hq : First place q) (h : place p = place q) : p = q := by
  rcases lt_trichotomy p q with hl | hl | hl
  · exact absurd h (hq p hl)
  · exact hl
  · exact absurd h.symm (hp q hl)

theorem Picks.lt (h : Picks n place load ps) : ∀ p ∈ ps, p < n := by
  induction h with
  | nil => simp
  | snoc _ hp ih => simpa [or_imp, forall_and] using ⟨ih, hp.lt⟩

theorem Picks.first (h : Picks n place load ps) : ∀ p ∈ ps, First place p := by
  induction h with
  | nil => simp
  | snoc _ hp ih => simpa [or_imp, forall_and] using ⟨ih, hp.first⟩

/-- The place of an item that is first on it and has not been picked has its load of before. -/
theorem Picks.loadAfter_of_notMem (h : Picks n place load ps) (hp : First place p) (hn : p ∉ ps) :
    loadAfter place load ps (place p) = load (place p) := by
  have hc : (ps.map place).count (place p) = 0 := by
    refine List.count_eq_zero_of_not_mem fun hm => ?_
    obtain ⟨q, hq, he⟩ := List.mem_map.mp hm
    exact hn ((h.first q hq).eq_of_place_eq hp he ▸ hq)
  rw [loadAfter, hc, Nat.add_zero]

/-- Distinct picks leave one unit at most on a place. -/
theorem Picks.loadAfter_le (h : Picks n place load ps) (hnd : ps.Nodup) (x : κ) :
    loadAfter place load ps x ≤ load x + 1 := by
  have hmap : (ps.map place).Nodup :=
    List.Nodup.map_on (fun p hp q hq he => (h.first p hp).eq_of_place_eq (h.first q hq) he) hnd
  have := List.nodup_iff_count_le_one.mp hmap x
  unfold loadAfter
  omega

/-- Distinct picks are fresh items. -/
theorem Picks.fresh_of_nodup (h : Picks n place load ps) (hnd : ps.Nodup) : ∀ p ∈ ps, Fresh n place load p := by
  induction h with
  | nil => simp
  | @snoc ps p ht hp ih =>
    rw [List.nodup_append_comm, List.singleton_append, List.nodup_cons] at hnd
    intro q hq
    rcases List.mem_append.mp hq with hq | hq
    · exact ih hnd.2 q hq
    · obtain rfl : q = p := by simpa using hq
      refine ⟨hp.first, fun q' hlt hne => ?_⟩
      have hahead := hp.ahead q' hlt hne
      rw [ht.loadAfter_of_notMem hp.first hnd.1] at hahead
      have := ht.loadAfter_le hnd.2 (place q')
      unfold Ahead at hahead ⊢
      omega

/-- As long as there are fresh items no item is picked again. -/
theorem Picks.nodup_of_le (h : Picks n place load ps) (hle : ps.length ≤ (fresh n place load).card) : ps.Nodup := by
  induction h with
  | nil => exact List.nodup_nil
  | @snoc ps p ht hp ih =>
    rw [List.length_append, List.length_singleton] at hle
    have hnd := ih (by omega)
    rw [List.nodup_append_comm, List.singleton_append, List.nodup_cons]
    refine ⟨fun hmem => ?_, hnd⟩
    -- a fresh item that has not been picked would have been taken instead
    obtain ⟨e, he, hne⟩ : ∃ e ∈ fresh n place load, e ∉ ps.toFinset :=
      Finset.exists_mem_notMem_of_card_lt_card (by rw [List.toFinset_card_of_nodup hnd]; omega)
    obtain ⟨hlt, hfirst, hfresh⟩ : e < n ∧ First place e ∧ ∀ q, q < n → q ≠ e →
        Ahead (load (place e)) e (load (place q) + 1) q := by
      simpa [fresh, Fresh] using he
    have hnot : e ∉ ps := fun hm => hne (List.mem_toFinset.mpr hm)
    have hep : p ≠ e := fun h => hnot (h ▸ hmem)
    have h1 := hp.ahead e hlt hep.symm
    have h2 := hfresh p hp.lt hep
    have h3 : load (place p) + 1 ≤ loadAfter place load ps (place p) := by
      have : 0 < (ps.map place).count (place p) := List.count_pos_iff.mpr (List.mem_map.mpr ⟨p, hmem, rfl⟩)
      unfold loadAfter
      omega
    rw [ht.loadAfter_of_notMem hfirst hnot] at h1
    unfold Ahead at h1 h2
    omega

/-- **Distinct picks.**  The items picked are distinct exactly when there are as many fresh items. -/
theorem Picks.nodup_iff (h : Picks n place load ps) : ps.Nodup ↔ ps.length ≤ (fresh n place load).card := by
  refine ⟨fun hnd => ?_, h.nodup_of_le⟩
  rw [← List.toFinset_card_of_nodup hnd]
  refine Finset.card_le_card fun p hp => ?_
  have hm := List.mem_toFinset.mp hp
  exact Finset.mem_filter.mpr ⟨Finset.mem_range.mpr (h.lt p hm), h.fresh_of_nodup hnd p hm⟩

end Lib.Greedy
