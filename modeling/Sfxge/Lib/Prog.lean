import Mathlib.Data.List.Basic
import Mathlib.Data.Nat.Bitwise
import Mathlib.Logic.Function.Basic
import Mathlib.Tactic.Linarith
import Mathlib.Tactic.Ring
import Mathlib.Tactic.IntervalCases
import Mathlib.Tactic.NormNum

/-!
# Lib.Prog — C-like programs with a state, a return code and undefined behaviour

`Prog σ ε α` runs in a state `σ` and ends in one of four ways: it returns a value, it leaves
with a return code `ε` (the state reached so far is kept, as in C), it performs an access that is
undefined (`fault`), or it uses up the fuel of a loop (`spin`).  Loops are `iterate`, with one rule.
Nothing here mentions the driver.
-/

namespace Lib

/-- How a run of a program ends. -/
inductive Res (σ ε α : Type) where
  | ret (a : α) (s : σ)
  | err (e : ε) (s : σ)
  | fault
  | spin
  deriving Repr, DecidableEq

/-- A program with state `σ`, return codes `ε` and result `α`. -/
def Prog (σ ε α : Type) := σ → Res σ ε α

variable {σ τ ε ε' α β γ : Type}

namespace Res

def bind (r : Res σ ε α) (f : α → Prog σ ε β) : Res σ ε β :=
  match r with
  | ret a s => f a s
  | err e s => err e s
  | fault => fault
  | spin => spin

@[simp] theorem bind_ret (a : α) (s : σ) (f : α → Prog σ ε β) :
    (ret a s : Res σ ε α).bind f = f a s := rfl

@[simp] theorem bind_err (e : ε) (s : σ) (f : α → Prog σ ε β) :
    (err e s : Res σ ε α).bind f = err e s := rfl

@[simp] theorem bind_fault (f : α → Prog σ ε β) : (fault : Res σ ε α).bind f = fault := rfl

@[simp] theorem bind_spin (f : α → Prog σ ε β) : (spin : Res σ ε α).bind f = spin := rfl

/-- The run ended by returning or with a return code. -/
def Ends : Res σ ε α → Prop
  | ret _ _ | err _ _ => True
  | fault | spin => False

end Res

namespace Prog

instance : Monad (Prog σ ε) where
  pure a := fun s => .ret a s
  bind p f := fun s => (p s).bind f

@[simp] theorem pure_apply (a : α) (s : σ) : (pure a : Prog σ ε α) s = .ret a s := rfl

theorem bind_apply (p : Prog σ ε α) (f : α → Prog σ ε β) (s : σ) : (p >>= f) s = (p s).bind f := rfl

instance : LawfulMonad (Prog σ ε) := LawfulMonad.mk' _
  (fun p => funext fun s => by
    change (p s).bind _ = p s
    cases p s <;> rfl)
  (fun _ _ => rfl)
  (fun p f g => funext fun s => by
    change ((p s).bind f).bind g = (p s).bind _
    cases p s <;> rfl)

/-- Leave with the return code `e`. -/
def fail (e : ε) : Prog σ ε α := fun s => .err e s

/-- An undefined access. -/
def stuck : Prog σ ε α := fun _ => .fault

def get : Prog σ ε σ := fun s => .ret s s

def set (s : σ) : Prog σ ε Unit := fun _ => .ret () s

/-- `if (!c) { rc = e; goto fail; }` -/
def ensure (c : Prop) [Decidable c] (e : ε) : Prog σ ε Unit := if c then pure () else fail e

/-- `if (c) { p }` -/
def when (c : Prop) [Decidable c] (p : Prog σ ε Unit) : Prog σ ε Unit := if c then p else pure ()

/-- Run `p` and look at its return code, as `rc = p()` does. -/
def attempt (p : Prog σ ε α) : Prog σ ε' (Except ε α) := fun s =>
  match p s with
  | .ret a s' => .ret (.ok a) s'
  | .err e s' => .ret (.error e) s'
  | .fault => .fault
  | .spin => .spin

/-- Replace the return code of `p` by `e`. -/
def orFail (p : Prog σ ε α) (e : ε') : Prog σ ε' α := fun s =>
  match p s with
  | .ret a s' => .ret a s'
  | .err _ s' => .err e s'
  | .fault => .fault
  | .spin => .spin

/-- Run a program on a part of the state. -/
def zoom (view : τ → σ) (put : τ → σ → τ) (p : Prog σ ε α) : Prog τ ε α := fun t =>
  match p (view t) with
  | .ret a s => .ret a (put t s)
  | .err e s => .err e (put t s)
  | .fault => .fault
  | .spin => .spin

@[simp] theorem fail_apply (e : ε) (s : σ) : (fail e : Prog σ ε α) s = .err e s := rfl

@[simp] theorem stuck_apply (s : σ) : (stuck : Prog σ ε α) s = .fault := rfl

@[simp] theorem get_apply (s : σ) : (get : Prog σ ε σ) s = .ret s s := rfl

@[simp] theorem set_apply (s t : σ) : (set s : Prog σ ε Unit) t = .ret () s := rfl

theorem ensure_pos {c : Prop} [Decidable c] {e : ε} {s : σ} (h : c) :
    (ensure c e : Prog σ ε Unit) s = .ret () s := by
  simp [ensure, h]

theorem ensure_neg {c : Prop} [Decidable c] {e : ε} {s : σ} (h : ¬ c) :
    (ensure c e : Prog σ ε Unit) s = .err e s := by
  simp [ensure, h]

theorem when_pos {c : Prop} [Decidable c] {p : Prog σ ε Unit} (h : c) : when c p = p := if_pos h

theorem when_neg {c : Prop} [Decidable c] {p : Prog σ ε Unit} (h : ¬ c) : when c p = pure () :=
  if_neg h

theorem ensure_ret_inv {c : Prop} [Decidable c] {e : ε} {s s' : σ} {u : Unit}
    (h : (ensure c e : Prog σ ε Unit) s = .ret u s') : c ∧ s' = s := by
  by_cases hc : c
  · rw [ensure_pos hc] at h; cases h; exact ⟨hc, rfl⟩
  · rw [ensure_neg hc] at h; cases h

/-! ### Stepping through a sequence -/

theorem bind_of_ret {p : Prog σ ε α} {f : α → Prog σ ε β} {s s' : σ} {a : α}
    (h : p s = .ret a s') : (p >>= f) s = f a s' := by
  rw [bind_apply, h]; rfl

theorem bind_of_err {p : Prog σ ε α} {f : α → Prog σ ε β} {s s' : σ} {e : ε}
    (h : p s = .err e s') : (p >>= f) s = .err e s' := by
  rw [bind_apply, h]; rfl

theorem bind_of_fault {p : Prog σ ε α} {f : α → Prog σ ε β} {s : σ}
    (h : p s = .fault) : (p >>= f) s = .fault := by
  rw [bind_apply, h]; rfl

theorem bind_of_spin {p : Prog σ ε α} {f : α → Prog σ ε β} {s : σ}
    (h : p s = .spin) : (p >>= f) s = .spin := by
  rw [bind_apply, h]; rfl

/-- A sequence returns only if both parts do. -/
theorem bind_ret_inv {p : Prog σ ε α} {f : α → Prog σ ε β} {s s'' : σ} {b : β}
    (h : (p >>= f) s = .ret b s'') : ∃ a s', p s = .ret a s' ∧ f a s' = .ret b s'' := by
  rw [bind_apply] at h
  cases hp : p s with
  | ret a s' => rw [hp] at h; exact ⟨a, s', rfl, h⟩
  | err e s' => rw [hp] at h; cases h
  | fault => rw [hp] at h; cases h
  | spin => rw [hp] at h; cases h

theorem ensure_bind_ret_inv {c : Prop} [Decidable c] {e : ε} {f : Unit → Prog σ ε β} {s s' : σ} {b : β}
    (h : (ensure c e >>= f) s = .ret b s') : c ∧ f () s = .ret b s' := by
  obtain ⟨_, s1, h1, h2⟩ := bind_ret_inv h
  obtain ⟨hc, rfl⟩ := ensure_ret_inv h1
  exact ⟨hc, h2⟩

theorem attempt_of_ret {p : Prog σ ε α} {s s' : σ} {a : α} (h : p s = .ret a s') :
    (attempt p : Prog σ ε' _) s = .ret (.ok a) s' := by
  simp [attempt, h]

theorem attempt_of_err {p : Prog σ ε α} {s s' : σ} {e : ε} (h : p s = .err e s') :
    (attempt p : Prog σ ε' _) s = .ret (.error e) s' := by
  simp [attempt, h]

theorem attempt_of_fault {p : Prog σ ε α} {s : σ} (h : p s = .fault) :
    (attempt p : Prog σ ε' _) s = .fault := by
  simp [attempt, h]

theorem orFail_of_ret {p : Prog σ ε α} {s s' : σ} {a : α} (e : ε') (h : p s = .ret a s') :
    (orFail p e) s = .ret a s' := by
  simp [orFail, h]

theorem orFail_of_err {p : Prog σ ε α} {s s' : σ} {e : ε} (e' : ε') (h : p s = .err e s') :
    (orFail p e') s = .err e' s' := by
  simp [orFail, h]

theorem orFail_of_fault {p : Prog σ ε α} {s : σ} (e' : ε') (h : p s = .fault) :
    (orFail p e') s = .fault := by
  simp [orFail, h]

theorem orFail_ret_inv {p : Prog σ ε α} {s s' : σ} {a : α} {e : ε'} (h : orFail p e s = .ret a s') :
    p s = .ret a s' := by
  unfold orFail at h
  cases hp : p s with
  | ret b t => rw [hp] at h; cases h; rfl
  | err e' t => rw [hp] at h; cases h
  | fault => rw [hp] at h; cases h
  | spin => rw [hp] at h; cases h

theorem zoom_of_ret {view : τ → σ} {put : τ → σ → τ} {p : Prog σ ε α} {t : τ} {s : σ} {a : α}
    (h : p (view t) = .ret a s) : zoom view put p t = .ret a (put t s) := by
  simp [zoom, h]

theorem zoom_of_err {view : τ → σ} {put : τ → σ → τ} {p : Prog σ ε α} {t : τ} {s : σ} {e : ε}
    (h : p (view t) = .err e s) : zoom view put p t = .err e (put t s) := by
  simp [zoom, h]

/-! ### Pre- and postconditions -/

/-- Change the state. -/
def modify (f : σ → σ) : Prog σ ε Unit := fun s => .ret () (f s)

@[simp] theorem modify_apply (f : σ → σ) (s : σ) : (modify f : Prog σ ε Unit) s = .ret () (f s) := rfl

/-- From a state in `P`, the program returns in `Q` or leaves with a return code in `E`. -/
def Triple (P : σ → Prop) (p : Prog σ ε α) (Q : α → σ → Prop) (E : σ → Prop) : Prop :=
  ∀ s, P s → (∃ a s', p s = .ret a s' ∧ Q a s') ∨ (∃ e s', p s = .err e s' ∧ E s')

/-- A `goto` to the label that undoes the step before: when `p` leaves with a return code, `undo` runs and
the code is kept. -/
def protect (undo : Prog σ ε Unit) (p : Prog σ ε α) : Prog σ ε α := fun s =>
  match p s with
  | .ret a s' => .ret a s'
  | .err e s' => (undo s').bind fun _ => fail e
  | .fault => .fault
  | .spin => .spin

theorem protect_of_ret {undo : Prog σ ε Unit} {p : Prog σ ε α} {s s' : σ} {a : α} (h : p s = .ret a s') :
    protect undo p s = .ret a s' := by
  simp [protect, h]

theorem protect_of_err {undo : Prog σ ε Unit} {p : Prog σ ε α} {s s' s'' : σ} {e : ε} (h : p s = .err e s')
    (hu : undo s' = .ret () s'') : protect undo p s = .err e s'' := by
  simp [protect, h, hu]

section

variable {P : σ → Prop} {p : Prog σ ε α} {Q : α → σ → Prop} {E E' : σ → Prop}

theorem Triple.pure {Q : Unit → σ → Prop} (h : ∀ s, P s → Q () s) :
    Triple P (Pure.pure () : Prog σ ε Unit) Q E :=
  fun s hs => Or.inl ⟨(), s, rfl, h s hs⟩

theorem Triple.weaken {P' : σ → Prop} {Q' : α → σ → Prop} (h : Triple P p Q E) (hP : ∀ s, P' s → P s)
    (hQ : ∀ a s, Q a s → Q' a s) (hE : ∀ s, E s → E' s) : Triple P' p Q' E' := by
  intro s hs
  rcases h s (hP s hs) with ⟨a, s', hp, hq⟩ | ⟨e, s', hp, he⟩
  · exact Or.inl ⟨a, s', hp, hQ a s' hq⟩
  · exact Or.inr ⟨e, s', hp, hE s' he⟩

theorem Triple.bind {f : α → Prog σ ε β} {R : β → σ → Prop} (h : Triple P p Q E)
    (hf : ∀ a, Triple (Q a) (f a) R E) : Triple P (p >>= f) R E := by
  intro s hs
  rcases h s hs with ⟨a, s', hp, hq⟩ | ⟨e, s', hp, he⟩
  · rw [bind_of_ret hp]
    exact hf a s' hq
  · exact Or.inr ⟨e, s', bind_of_err hp, he⟩

/-- **Unwinding rule.**  What `p` leaves behind when it fails, `undo` takes away. -/
theorem Triple.protect {undo : Prog σ ε Unit} (h : Triple P p Q E')
    (hu : Triple E' undo (fun _ => E) fun _ => False) : Triple P (Prog.protect undo p) Q E := by
  intro s hs
  rcases h s hs with ⟨a, s', hp, hq⟩ | ⟨e, s', hp, he⟩
  · exact Or.inl ⟨a, s', protect_of_ret hp, hq⟩
  · rcases hu s' he with ⟨_, s'', hu', he'⟩ | ⟨_, _, _, hfalse⟩
    · exact Or.inr ⟨e, s'', protect_of_err hp hu', he'⟩
    · exact hfalse.elim

/-- `down` of everything below `n`, from the last on. -/
def descend (down : ℕ → Prog σ ε Unit) : ℕ → Prog σ ε Unit
  | 0 => Pure.pure ()
  | n + 1 => down n >>= fun _ => descend down n

/-- `up` of everything below `n`, from the first on; where one fails, `down` of those before it. -/
def climb (up down : ℕ → Prog σ ε Unit) : ℕ → Prog σ ε Unit
  | 0 => Pure.pure ()
  | n + 1 => climb up down n >>= fun _ => Prog.protect (descend down n) (up n)

variable {up down : ℕ → Prog σ ε Unit} {I J : ℕ → σ → Prop}

theorem Triple.descend {n : ℕ} (h : ∀ k < n, Triple (J (k + 1)) (down k) (fun _ => J k) E) :
    Triple (J n) (Prog.descend down n) (fun _ => J 0) E := by
  induction n with
  | zero => exact Triple.pure fun _ hs => hs
  | succ n ih => exact (h n n.lt_succ_self).bind fun _ => ih fun k hk => h k (Nat.lt_succ_of_lt hk)

/-- **Staged start.**  If a stage that fails leaves `J` of its level, and undoing a stage takes `J` down a
level, then a start that fails leaves `J` of the ground. -/
theorem Triple.climb {n : ℕ} (hup : ∀ k < n, Triple (I k) (up k) (fun _ => I (k + 1)) (J k))
    (hdown : ∀ k < n, Triple (J (k + 1)) (down k) (fun _ => J k) fun _ => False) :
    Triple (I 0) (Prog.climb up down n) (fun _ => I n) (J 0) := by
  induction n with
  | zero => exact Triple.pure fun _ hs => hs
  | succ n ih =>
    refine (ih (fun k hk => hup k (Nat.lt_succ_of_lt hk)) fun k hk => hdown k (Nat.lt_succ_of_lt hk)).bind fun _ => ?_
    exact (hup n n.lt_succ_self).protect (Triple.descend fun k hk => hdown k (Nat.lt_succ_of_lt hk))

end

/-! ### Loops -/

/-- `while (1)`: the body either leaves with `inl` or goes round with `inr`; at most `n` rounds. -/
def iterate (body : β → Prog σ ε (γ ⊕ β)) : ℕ → β → Prog σ ε γ
  | 0, _ => fun _ => .spin
  | n + 1, b => body b >>= fun r =>
      match r with
      | .inl c => pure c
      | .inr b' => iterate body n b'

variable {body : β → Prog σ ε (γ ⊕ β)}

theorem iterate_inl {b : β} {s s' : σ} {c : γ} (n : ℕ) (h : body b s = .ret (.inl c) s') :
    iterate body (n + 1) b s = .ret c s' := by
  rw [iterate, bind_of_ret h]; rfl

theorem iterate_inr {b b' : β} {s s' : σ} (n : ℕ) (h : body b s = .ret (.inr b') s') :
    iterate body (n + 1) b s = iterate body n b' s' := by
  rw [iterate, bind_of_ret h]

theorem iterate_err {b : β} {s s' : σ} {e : ε} (n : ℕ) (h : body b s = .err e s') :
    iterate body (n + 1) b s = .err e s' := by
  rw [iterate, bind_of_err h]

theorem iterate_fault {b : β} {s : σ} (n : ℕ) (h : body b s = .fault) :
    iterate body (n + 1) b s = .fault := by
  rw [iterate, bind_of_fault h]

/-- **Loop rule.**  If the invariant `I` holds and every round from an `I`-state either ends the
loop in `Q` or re-establishes `I` with a smaller measure, then with more fuel than the measure the
loop ends in `Q`.  In particular it neither faults nor runs out of fuel unless `Q` says so. -/
theorem iterate_rule (I : β → σ → Prop) (μ : β → ℕ) (Q : Res σ ε γ → Prop)
    (step : ∀ b s, I b s →
      (∃ b' s', body b s = .ret (.inr b') s' ∧ I b' s' ∧ μ b' < μ b) ∨
      (∃ c s', body b s = .ret (.inl c) s' ∧ Q (.ret c s')) ∨
      (∃ e s', body b s = .err e s' ∧ Q (.err e s'))) :
    ∀ n b s, I b s → μ b < n → Q (iterate body n b s) := by
  intro n
  induction n with
  | zero => intro b s _ h; omega
  | succ n ih =>
    intro b s hI hn
    rcases step b s hI with ⟨b', s', hb, hI', hμ⟩ | ⟨c, s', hb, hQ⟩ | ⟨e, s', hb, hQ⟩
    · rw [iterate_inr n hb]; exact ih b' s' hI' (by omega)
    · rw [iterate_inl n hb]; exact hQ
    · rw [iterate_err n hb]; exact hQ

/-- **Loop inversion.**  A loop that returns kept `I` up to its last round. -/
theorem iterate_ret_inv (I : β → σ → Prop)
    (step : ∀ b s b' s', I b s → body b s = .ret (.inr b') s' → I b' s') :
    ∀ n b s c s', I b s → iterate body n b s = .ret c s' →
      ∃ b1 s1, I b1 s1 ∧ body b1 s1 = .ret (.inl c) s' := by
  intro n
  induction n with
  | zero => intro b s c s' _ h; cases h
  | succ n ih =>
    intro b s c s' hI h
    obtain ⟨r, s1, hb, hr⟩ := bind_ret_inv h
    cases r with
    | inl c' => cases hr; exact ⟨b, s, hI, hb⟩
    | inr b' => exact ih b' s1 c s' (step b s b' s1 hI hb) hr

end Prog

end Lib
