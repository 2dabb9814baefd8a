import Mathlib.Data.List.Perm.Basic
import Mathlib.Logic.Function.Basic

/-!
# Lib.Lanes — what is held back of what passes

Of what arrives some is held back in the lane of its key, and all that a lane holds is let out at once.  What has
arrived of each key is out or held (`Conserved`); it is so in the order of arrival (`InOrder`) as long as nothing
passes by what its lane holds.  Nothing here mentions the driver.
-/

namespace Lib

/-- What is held in each lane, and what has been let out. -/
structure Lanes (κ α : Type) where
  held : κ → List α
  out : List α

namespace Lanes

variable {κ α : Type} [DecidableEq κ] {key : α → κ} {l l' : Lanes κ α} {arrived as : List α} {k : κ} {a : α}

/-- `a` is held back in lane `k`. -/
def keep (l : Lanes κ α) (k : κ) (a : α) : Lanes κ α := ⟨Function.update l.held k (l.held k ++ [a]), l.out⟩

/-- All that lane `k` holds is let out. -/
def flush (l : Lanes κ α) (k : κ) : Lanes κ α := ⟨Function.update l.held k [], l.out ++ l.held k⟩

/-- `a` passes without being held. -/
def pass (l : Lanes κ α) (a : α) : Lanes κ α := ⟨l.held, l.out ++ [a]⟩

/-- Those of key `k`, in their order. -/
def ofKey (key : α → κ) (k : κ) (as : List α) : List α := as.filter fun a => key a = k

/-- What is out of key `k`, and then what its lane holds. -/
def line (key : α → κ) (l : Lanes κ α) (k : κ) : List α := ofKey key k l.out ++ l.held k

/-- A lane holds what has its key. -/
def Keyed (key : α → κ) (l : Lanes κ α) : Prop := ∀ k, ∀ a ∈ l.held k, key a = k

def Conserved (key : α → κ) (arrived : List α) (l : Lanes κ α) : Prop :=
  ∀ k, (line key l k).Perm (ofKey key k arrived)

def InOrder (key : α → κ) (arrived : List α) (l : Lanes κ α) : Prop := ∀ k, line key l k = ofKey key k arrived

@[simp] theorem ofKey_append (as bs : List α) : ofKey key k (as ++ bs) = ofKey key k as ++ ofKey key k bs :=
  List.filter_append ..

theorem ofKey_self (h : ∀ a ∈ as, key a = k) : ofKey key k as = as :=
  List.filter_eq_self.mpr fun a ha => decide_eq_true (h a ha)

theorem ofKey_other {k' : κ} (h : ∀ a ∈ as, key a = k) (hk : k' ≠ k) : ofKey key k' as = [] :=
  List.filter_eq_nil_iff.mpr fun a ha hd => hk ((of_decide_eq_true hd).symm.trans (h a ha))

theorem ofKey_singleton_self : ofKey key (key a) [a] = [a] := ofKey_self (by simp)

theorem ofKey_singleton_other {k' : κ} (hk : k' ≠ key a) : ofKey key k' [a] = [] := ofKey_other (by simp) hk

/-! ### One step -/

/-- Nothing comes out of an empty lane. -/
theorem flush_of_nil (h : l.held k = []) : l.flush k = l := by
  have hheld : Function.update l.held k [] = l.held := by rw [← h, Function.update_eq_self]
  rw [flush, hheld, h, List.append_nil]

theorem Keyed.keep (h : Keyed key l) : Keyed key (l.keep (key a) a) := by
  intro k b hb
  by_cases hk : k = key a
  · subst hk
    simp only [Lanes.keep, Function.update_self, List.mem_append, List.mem_singleton] at hb
    rcases hb with hb | rfl
    · exact h _ b hb
    · rfl
  · simp only [Lanes.keep, Function.update_of_ne hk] at hb
    exact h k b hb

theorem Keyed.flush (h : Keyed key l) : Keyed key (l.flush k) := by
  intro k' b hb
  by_cases hk : k' = k
  · subst hk
    simp [Lanes.flush] at hb
  · simp only [Lanes.flush, Function.update_of_ne hk] at hb
    exact h k' b hb

theorem line_keep (k : κ) : line key (l.keep (key a) a) k = line key l k ++ ofKey key k [a] := by
  by_cases hk : k = key a
  · subst hk
    simp [line, keep, ofKey_singleton_self]
  · simp [line, keep, Function.update_of_ne hk, ofKey_singleton_other hk]

/-- Letting a lane out moves nothing within a line. -/
theorem line_flush (h : Keyed key l) (k k' : κ) : line key (l.flush k) k' = line key l k' := by
  by_cases hk : k' = k
  · subst hk
    simp [line, flush, ofKey_self (h k')]
  · simp [line, flush, Function.update_of_ne hk, ofKey_other (h k) hk]

theorem line_pass (h0 : l.held (key a) = []) (k : κ) : line key (l.pass a) k = line key l k ++ ofKey key k [a] := by
  by_cases hk : k = key a
  · subst hk
    simp [line, pass, h0]
  · simp [line, pass, ofKey_singleton_other hk]

theorem line_pass_perm (k : κ) : (line key (l.pass a) k).Perm (line key l k ++ ofKey key k [a]) := by
  simp only [line, pass, ofKey_append, List.append_assoc]
  exact List.perm_append_comm.append_left _

/-! ### An arrival -/

/-- `a` arrives and stays behind those of its key: it is held, or it passes where its lane holds nothing; lanes may be
let out before and after. -/
inductive Orderly (key : α → κ) (a : α) : Lanes κ α → Lanes κ α → Prop
  | keep {l : Lanes κ α} : Orderly key a l (l.keep (key a) a)
  | pass {l : Lanes κ α} : l.held (key a) = [] → Orderly key a l (l.pass a)
  | before {l l' : Lanes κ α} {k : κ} : Orderly key a (l.flush k) l' → Orderly key a l l'
  | after {l l' : Lanes κ α} {k : κ} : Orderly key a l l' → Orderly key a l (l'.flush k)

theorem Orderly.keyed (h : Orderly key a l l') (hk : Keyed key l) : Keyed key l' := by
  induction h with
  | keep => exact hk.keep
  | pass _ => exact hk
  | before _ ih => exact ih hk.flush
  | after _ ih => exact (ih hk).flush

theorem Orderly.line_eq (h : Orderly key a l l') (hk : Keyed key l) (k : κ) :
    line key l' k = line key l k ++ ofKey key k [a] := by
  induction h with
  | keep => exact line_keep k
  | pass h0 => exact line_pass h0 k
  | before _ ih => rw [ih hk.flush, line_flush hk]
  | after h ih => rw [line_flush (h.keyed hk), ih hk]

theorem Orderly.out_grows (h : Orderly key a l l') : l.out <+: l'.out := by
  induction h with
  | keep => exact List.prefix_refl _
  | pass _ => exact List.prefix_append ..
  | before _ ih => exact (List.prefix_append ..).trans ih
  | after _ ih => exact ih.trans (List.prefix_append ..)

theorem Conserved.orderly (h : Conserved key arrived l) (hk : Keyed key l) (ho : Orderly key a l l') :
    Conserved key (arrived ++ [a]) l' := by
  intro k
  rw [ho.line_eq hk k, ofKey_append]
  exact (h k).append_right _

theorem Conserved.pass (h : Conserved key arrived l) (a : α) : Conserved key (arrived ++ [a]) (l.pass a) := by
  intro k
  rw [ofKey_append]
  exact (line_pass_perm k).trans ((h k).append_right _)

theorem Conserved.flush (h : Conserved key arrived l) (hk : Keyed key l) (k : κ) :
    Conserved key arrived (l.flush k) := by
  intro k'
  rw [line_flush hk]
  exact h k'

theorem InOrder.orderly (h : InOrder key arrived l) (hk : Keyed key l) (ho : Orderly key a l l') :
    InOrder key (arrived ++ [a]) l' := by
  intro k
  rw [ho.line_eq hk k, ofKey_append, h k]

theorem InOrder.flush (h : InOrder key arrived l) (hk : Keyed key l) (k : κ) : InOrder key arrived (l.flush k) := by
  intro k'
  rw [line_flush hk]
  exact h k'

/-! ### What has come out -/

/-- When nothing is held, all that has arrived is out. -/
theorem Conserved.out_perm (h : Conserved key arrived l) (h0 : ∀ k, l.held k = []) : l.out.Perm arrived := by
  classical
  rw [List.perm_iff_count]
  intro a
  have hp := (h (key a)).count_eq a
  rw [line, h0, List.append_nil] at hp
  simpa [ofKey, List.count_filter] using hp

/-- What is out of a key is what of it arrived first. -/
theorem InOrder.out_grows (h : InOrder key arrived l) (k : κ) : ofKey key k l.out <+: ofKey key k arrived :=
  ⟨l.held k, h k⟩

theorem Conserved.length_le (h : Conserved key arrived l) (k : κ) :
    (ofKey key k l.out).length ≤ (ofKey key k arrived).length := by
  rw [← (h k).length_eq, line, List.length_append]
  exact Nat.le_add_right ..

/-- **Overtaking.**  What passes by its lane while that holds something is out before what arrived before it. -/
theorem InOrder.overtaken (h : InOrder key arrived l) (hk : l.held (key a) ≠ []) (hn : a ∉ arrived) :
    ¬ ofKey key (key a) (l.pass a).out <+: ofKey key (key a) (arrived ++ [a]) := by
  intro hp
  obtain ⟨b, bs, hb⟩ := List.exists_cons_of_ne_nil hk
  have harr := h (key a)
  rw [line, hb] at harr
  rw [pass, ofKey_append, ofKey_append, ofKey_singleton_self, ← harr, List.append_assoc,
    List.prefix_append_right_inj, List.cons_append, List.cons_prefix_cons] at hp
  have hmem : b ∈ ofKey key (key a) arrived := by simp [← harr]
  exact hn (hp.1 ▸ (List.mem_filter.mp hmem).1)

/-- What is out of order stays so, whatever comes out and arrives after it. -/
theorem not_prefix_mono {xs xs' ys ys' : List α} (h : ¬ xs <+: ys) (hlen : xs.length ≤ ys.length)
    (hx : xs <+: xs') (hy : ys <+: ys') : ¬ xs' <+: ys' := fun hp =>
  h (List.prefix_of_prefix_length_le (hx.trans hp) hy hlen)

theorem ofKey_mono {as bs : List α} (h : as <+: bs) (k : κ) : ofKey key k as <+: ofKey key k bs := h.filter _

end Lanes

end Lib
