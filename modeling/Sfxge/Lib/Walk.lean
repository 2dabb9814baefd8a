import Mathlib.Data.List.Basic
import Mathlib.Tactic.Linarith

/-!
# Lib.Walk — loops through an encoded sequence

A `Reader` says what lies at a position: the end of the sequence, or an item and the position of the next
one.  `walk` is a loop that reads item after item; `Reads r p as q` says that the items `as` lie from `p`
on and the sequence ends at `q`.  Through a sequence that reads, the loop is the pure `rounds` over its
items, and a loop that comes to the end has read them all.
-/

namespace Lib

variable {ε α γ σ β : Type}

/-- At a position the sequence ends, or an item lies there and the next position follows. -/
abbrev Reader (ε α : Type) := ℕ → Except ε (Option (α × ℕ))

/-- A round of a loop goes on or leaves the loop. -/
inductive Round (σ β : Type) where
  | next (s : σ)
  | stop (b : β)
  deriving Repr, DecidableEq

/-- The loop from position `p` on, with the position at which it came to the end.  After `fuel` rounds it
is given up with `e`. -/
def walk (r : Reader ε α) (body : σ → α → Except ε (Round σ β)) (e : ε) : ℕ → ℕ → σ → Except ε (Round (σ × ℕ) β)
  | 0, _, _ => .error e
  | fuel + 1, p, s =>
    match r p with
    | .error e => .error e
    | .ok none => .ok (.next (s, p))
    | .ok (some (a, q)) =>
      match body s a with
      | .error e => .error e
      | .ok (.stop b) => .ok (.stop b)
      | .ok (.next s) => walk r body e fuel q s

/-- The items `as` lie from `p` on, and the sequence ends at `q`. -/
inductive Reads (r : Reader ε α) : ℕ → List α → ℕ → Prop
  | nil {p : ℕ} (h : r p = .ok none) : Reads r p [] p
  | cons {p p' q : ℕ} {a : α} {as : List α} (h : r p = .ok (some (a, p'))) (t : Reads r p' as q) :
      Reads r p (a :: as) q

/-- The rounds of a loop over the items of a sequence. -/
def rounds (body : σ → α → Except ε (Round σ β)) : List α → σ → Except ε (Round σ β)
  | [], s => .ok (.next s)
  | a :: as, s =>
    match body s a with
    | .error e => .error e
    | .ok (.stop b) => .ok (.stop b)
    | .ok (.next s) => rounds body as s

/-- The items from `p` on, as far as they read. -/
def collect (r : Reader ε α) : ℕ → ℕ → List α
  | 0, _ => []
  | fuel + 1, p =>
    match r p with
    | .ok (some (a, q)) => a :: collect r fuel q
    | _ => []

variable {r : Reader ε α} {body : σ → α → Except ε (Round σ β)} {e : ε} {p q : ℕ} {as : List α}

/-- The position at which the loop stood when the rounds came to the end. -/
def Round.atEnd (q : ℕ) : Round σ β → Round (σ × ℕ) β
  | .next s => .next (s, q)
  | .stop b => .stop b

/-- **Loop rule.**  Through a sequence that reads, the loop does the rounds over its items. -/
theorem Reads.walk_eq (h : Reads r p as q) {fuel : ℕ} (hfuel : as.length < fuel) (s : σ) :
    walk r body e fuel p s = (rounds body as s).map (Round.atEnd q) := by
  induction h generalizing fuel s with
  | nil h =>
    obtain ⟨fuel, rfl⟩ := Nat.exists_eq_succ_of_ne_zero (Nat.ne_zero_of_lt hfuel)
    rw [walk, h]
    rfl
  | @cons p p' q a as h t ih =>
    obtain ⟨fuel, rfl⟩ := Nat.exists_eq_succ_of_ne_zero (Nat.ne_zero_of_lt hfuel)
    rw [walk, h, rounds]
    dsimp only
    cases hb : body s a with
    | error e => rfl
    | ok r =>
      cases r with
      | stop b => rfl
      | next s' => exact ih (by simpa using hfuel) s'

/-- **Loop inversion.**  A loop that comes to the end has read the sequence. -/
theorem Reads.of_walk {fuel : ℕ} {s s' : σ} (h : walk r body e fuel p s = .ok (.next (s', q))) :
    ∃ as, Reads r p as q ∧ rounds body as s = .ok (.next s') := by
  induction fuel generalizing p s with
  | zero => cases h
  | succ fuel ih =>
    rw [walk] at h
    cases hr : r p with
    | error e => rw [hr] at h; cases h
    | ok o =>
      rw [hr] at h
      cases o with
      | none =>
        cases h
        exact ⟨[], .nil hr, rfl⟩
      | some x =>
        obtain ⟨a, p'⟩ := x
        dsimp only at h
        cases hb : body s a with
        | error e => rw [hb] at h; cases h
        | ok x =>
          rw [hb] at h
          cases x with
          | stop b => cases h
          | next s1 =>
            obtain ⟨as, has, hrs⟩ := ih h
            refine ⟨a :: as, .cons hr has, ?_⟩
            rw [rounds, hb]
            exact hrs

theorem Reads.collect_eq (h : Reads r p as q) {fuel : ℕ} (hfuel : as.length < fuel) : collect r fuel p = as := by
  induction h generalizing fuel with
  | nil h =>
    obtain ⟨fuel, rfl⟩ := Nat.exists_eq_succ_of_ne_zero (Nat.ne_zero_of_lt hfuel)
    rw [collect, h]
  | @cons p p' q a as h t ih =>
    obtain ⟨fuel, rfl⟩ := Nat.exists_eq_succ_of_ne_zero (Nat.ne_zero_of_lt hfuel)
    rw [collect, h]
    dsimp only
    rw [ih (by simpa using hfuel)]

/-- A sequence whose items take at least a byte has no more of them than bytes. -/
theorem Reads.length_le (h : Reads r p as q) (hr : ∀ p a p', r p = .ok (some (a, p')) → p < p') :
    p + as.length ≤ q := by
  induction h with
  | nil h => simp
  | @cons p p' q a as h t ih =>
    have := hr p a p' h
    simp only [List.length_cons]
    omega

theorem Reads.end_eq (h : Reads r p as q) : r q = .ok none := by
  induction h with
  | nil h => exact h
  | cons h t ih => exact ih

/-! ### Rounds -/

theorem rounds_append (as as' : List α) (s : σ) :
    rounds body (as ++ as') s = match rounds body as s with
      | .error e => .error e
      | .ok (.stop b) => .ok (.stop b)
      | .ok (.next s) => rounds body as' s := by
  induction as generalizing s with
  | nil => rfl
  | cons a as ih =>
    rw [List.cons_append, rounds, rounds]
    cases hb : body s a with
    | error e => rfl
    | ok x =>
      cases x with
      | stop b => rfl
      | next s1 => exact ih s1

theorem rounds_append_of_next {as as' : List α} {s s1 : σ} (h : rounds body as s = .ok (.next s1)) :
    rounds body (as ++ as') s = rounds body as' s1 := by
  rw [rounds_append, h]

/-- A loop in a loop is one loop over the inner items. -/
theorem rounds_flatMap {f : α → List γ} {inner : σ → γ → Except ε (Round σ β)}
    (h : ∀ a ∈ as, ∀ s, body s a = rounds inner (f a) s) (s : σ) :
    rounds body as s = rounds inner (as.flatMap f) s := by
  induction as generalizing s with
  | nil => rfl
  | cons a as ih =>
    rw [rounds, h a (by simp), List.flatMap_cons, rounds_append]
    cases hb : rounds inner (f a) s with
    | error e => rfl
    | ok x =>
      cases x with
      | stop b => rfl
      | next s1 => exact ih (fun a' ha' => h a' (by simp [ha'])) s1

/-- Items seen through a function. -/
theorem rounds_map {f : α → γ} {inner : σ → γ → Except ε (Round σ β)} (h : ∀ s a, body s a = inner s (f a))
    (as : List α) (s : σ) :
    rounds body as s = rounds inner (as.map f) s := by
  induction as generalizing s with
  | nil => rfl
  | cons a as ih =>
    rw [rounds, h, List.map_cons, rounds]
    cases inner s (f a) with
    | error e => rfl
    | ok r =>
      cases r with
      | stop b => rfl
      | next s1 => exact ih s1

/-- Items that a loop passes over. -/
theorem rounds_skip {s : σ} (h : ∀ a ∈ as, body s a = .ok (.next s)) : rounds body as s = .ok (.next s) := by
  induction as with
  | nil => rfl
  | cons a as ih =>
    rw [rounds, h a (by simp)]
    exact ih fun a' ha' => h a' (by simp [ha'])

/-- A loop that looks for an item finds the first. -/
theorem rounds_find {P : α → Bool} {f : α → β} {s : σ}
    (h : ∀ a ∈ as, body s a = if P a then .ok (.stop (f a)) else .ok (.next s)) :
    rounds body as s = match as.find? P with
      | some a => .ok (.stop (f a))
      | none => .ok (.next s) := by
  induction as with
  | nil => rfl
  | cons a as ih =>
    rw [rounds, h a (by simp), List.find?_cons]
    cases hP : P a with
    | true => rfl
    | false => exact ih fun a' ha' => h a' (by simp [ha'])

/-- A loop that counts the items up to the one asked for. -/
theorem rounds_index {f : α → β} {inner : ℕ → α → Except ε (Round ℕ β)} {n : ℕ}
    (h : ∀ a ∈ as, ∀ i, inner i a = if i = n then .ok (.stop (f a)) else .ok (.next (i + 1))) {i : ℕ}
    (hi : i ≤ n) :
    rounds inner as i = match as[n - i]? with
      | some a => .ok (.stop (f a))
      | none => .ok (.next (i + as.length)) := by
  induction as generalizing i with
  | nil => simp [rounds]
  | cons a as ih =>
    rw [rounds, h a (by simp)]
    by_cases hin : i = n
    · subst hin
      simp
    · rw [if_neg hin]
      have hstep := ih (fun a' ha' => h a' (by simp [ha'])) (show i + 1 ≤ n by omega)
      obtain ⟨k, hk⟩ : ∃ k, n - i = k + 1 := ⟨n - i - 1, by omega⟩
      have hk' : n - (i + 1) = k := by omega
      dsimp only
      rw [hstep, hk, hk', List.getElem?_cons_succ]
      cases as[k]? with
      | some b => rfl
      | none =>
        have : i + 1 + as.length = i + (a :: as).length := by simp; omega
        rw [this]

end Lib
