import Mathlib.Data.List.Basic
import Mathlib.Data.List.Nodup
import Mathlib.Logic.Function.Basic

/-!
# Lib.Chain — singly linked lists in memory

`Chain next a xs` says that following the `next` fields from the pointer `a` visits the cells `xs` and
ends in a null pointer.  `Tailed` is a chain with a head field and a pointer to its last `next` field.
-/

namespace Lib

variable {P : Type}

/-- The cells from the pointer `a` on are `xs`. -/
def Chain (next : P → Option P) : Option P → List P → Prop
  | a, [] => a = none
  | a, x :: xs => a = some x ∧ Chain next (next x) xs

namespace Chain

variable {next next' : P → Option P} {a b : Option P} {x : P} {xs ys : List P}

@[simp] theorem nil_iff : Chain next a [] ↔ a = none := Iff.rfl

@[simp] theorem cons_iff : Chain next a (x :: xs) ↔ a = some x ∧ Chain next (next x) xs := Iff.rfl

theorem unique (h : Chain next a xs) (h' : Chain next a ys) : xs = ys := by
  induction xs generalizing a ys with
  | nil =>
    cases ys with
    | nil => rfl
    | cons y ys =>
      rw [nil_iff] at h
      rw [cons_iff, h] at h'
      cases h'.1
  | cons x xs ih =>
    obtain ⟨rfl, hx⟩ := h
    cases ys with
    | nil => cases h'
    | cons y ys =>
      obtain ⟨hxy, hy⟩ := h'
      cases hxy
      rw [ih hx hy]

theorem eq_nil (h : Chain next none xs) : xs = [] := h.unique rfl

theorem eq_cons (h : Chain next (some x) xs) : ∃ ys, xs = x :: ys ∧ Chain next (next x) ys := by
  cases xs with
  | nil => cases h
  | cons y ys =>
    obtain ⟨hxy, hy⟩ := h
    cases hxy
    exact ⟨ys, rfl, hy⟩

/-- Every suffix is a chain from the cell before it. -/
theorem drop_append (h : Chain next a (xs ++ x :: ys)) : Chain next (next x) ys := by
  induction xs generalizing a with
  | nil => exact h.2
  | cons y xs ih => exact ih h.2

/-- A chain that ends does not meet itself. -/
theorem nodup (h : Chain next a xs) : xs.Nodup := by
  induction xs generalizing a with
  | nil => exact List.nodup_nil
  | cons x xs ih =>
    refine List.nodup_cons.mpr ⟨fun hx => ?_, ih h.2⟩
    obtain ⟨as, bs, rfl⟩ := List.append_of_mem hx
    -- the part after the second `x` would be the part after the first
    have hlen := congrArg List.length (h.2.unique (drop_append h.2))
    simp only [List.length_append, List.length_cons] at hlen
    omega

theorem congr (h : Chain next a xs) (heq : ∀ x ∈ xs, next' x = next x) : Chain next' a xs := by
  induction xs generalizing a with
  | nil => exact h
  | cons x xs ih =>
    refine ⟨h.1, ?_⟩
    rw [heq x (by simp)]
    exact ih h.2 fun y hy => heq y (by simp [hy])

variable [DecidableEq P]

/-- **Frame.** -/
theorem update_notMem (h : Chain next a xs) (hx : x ∉ xs) (v : Option P) :
    Chain (Function.update next x v) a xs :=
  h.congr fun _ hy => Function.update_of_ne (ne_of_mem_of_not_mem hy hx) ..

/-- A cell is linked in front. -/
theorem push (h : Chain next a xs) (hx : x ∉ xs) :
    Chain (Function.update next x a) (some x) (x :: xs) := by
  refine ⟨rfl, ?_⟩
  rw [Function.update_self]
  exact h.update_notMem hx a

/-- **Splice.**  The last cell is linked to another chain. -/
theorem splice (h : Chain next a (xs ++ [x])) (h' : Chain next b ys) (hx : x ∉ ys) :
    Chain (Function.update next x b) a (xs ++ x :: ys) := by
  have hn := h.nodup
  induction xs generalizing a with
  | nil =>
    refine ⟨h.1, ?_⟩
    rw [Function.update_self]
    exact h'.update_notMem hx b
  | cons y xs ih =>
    have hyx : y ≠ x := by
      rintro rfl
      exact (List.nodup_cons.mp hn).1 (by simp)
    refine ⟨h.1, ?_⟩
    rw [Function.update_of_ne hyx]
    exact ih h.2 (List.nodup_cons.mp hn).2

end Chain

/-! ### A chain with its last link -/

/-- A field that holds a pointer to a cell: the head field, or the `next` field of a cell. -/
inductive Link (P : Type) where
  | head
  | next (p : P)
  deriving DecidableEq

/-- What the head field holds after the pointer `v` has been written to a link. -/
def writeHead (link : Link P) (v head : Option P) : Option P :=
  match link with
  | .head => v
  | .next _ => head

/-- What the `next` fields hold then. -/
def writeNext [DecidableEq P] (link : Link P) (v : Option P) (next : P → Option P) : P → Option P :=
  match link with
  | .head => next
  | .next p => Function.update next p v

/-- The last link of the chain `xs`. -/
def lastLink : List P → Link P
  | [] => .head
  | x :: xs => .next ((x :: xs).getLast (List.cons_ne_nil x xs))

theorem lastLink_concat (xs : List P) (x : P) : lastLink (xs ++ [x]) = .next x := by
  cases xs with
  | nil => rfl
  | cons y ys => simp [lastLink]

/-- The chain `xs` starts in the head field and `tail` is its last link. -/
structure Tailed (next : P → Option P) (head : Option P) (tail : Link P) (xs : List P) : Prop where
  chain : Chain next head xs
  tail_eq : tail = lastLink xs

namespace Tailed

variable {next next' : P → Option P} {head : Option P} {tail : Link P} {x : P} {xs ys : List P}

theorem empty : Tailed next none .head [] := ⟨rfl, rfl⟩

theorem congr (h : Tailed next head tail xs) (heq : ∀ x ∈ xs, next' x = next x) :
    Tailed next' head tail xs := ⟨h.chain.congr heq, h.tail_eq⟩

variable [DecidableEq P]

/-- **Append.**  A chain is written to the last link. -/
theorem append (h : Tailed next head tail xs) {b : Option P} (h' : Chain next b (ys ++ [x]))
    (hd : List.Disjoint xs (ys ++ [x])) :
    Tailed (writeNext tail b next) (writeHead tail b head) (.next x) (xs ++ (ys ++ [x])) := by
  refine ⟨?_, by rw [← List.append_assoc, lastLink_concat]⟩
  rw [h.tail_eq]
  rcases List.eq_nil_or_concat' xs with rfl | ⟨zs, z, rfl⟩
  · exact h'
  · rw [lastLink_concat]
    have hz : z ∉ ys ++ [x] := hd (by simp)
    have := h.chain.splice h' hz
    rwa [List.append_assoc]

end Tailed

end Lib
