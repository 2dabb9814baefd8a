import Sfxge.Lib.Run

/-!
# Lib.Post — what a run returns and what it leaves behind

`p.Post s Q E` says that a run of `p` from `s` that returns does so in `Q`, and that one that leaves with a return
code does so in `E`.  It says nothing of runs that do not end.  Nothing here mentions the driver.
-/

namespace Lib

/-- The run returns in a state with `c`. -/
def Res.Returns {σ ε α : Type} (r : Res σ ε α) (c : σ → Prop) : Prop := ∃ a s, r = .ret a s ∧ c s

/-- The run leaves with the code `e` in a state with `c`. -/
def Res.Leaves {σ ε α : Type} (r : Res σ ε α) (e : ε) (c : σ → Prop) : Prop := ∃ s, r = .err e s ∧ c s

instance {σ ε α : Type} (r : Res σ ε α) (c : σ → Prop) [DecidablePred c] : Decidable (r.Returns c) :=
  match r with
  | .ret a s => decidable_of_iff (c s) ⟨fun h => ⟨a, s, rfl, h⟩, by rintro ⟨_, _, ⟨⟩, h⟩; exact h⟩
  | .err _ _ => isFalse (by rintro ⟨_, _, ⟨⟩, -⟩)
  | .fault => isFalse (by rintro ⟨_, _, ⟨⟩, -⟩)
  | .spin => isFalse (by rintro ⟨_, _, ⟨⟩, -⟩)

instance {σ ε α : Type} [DecidableEq ε] (r : Res σ ε α) (e : ε) (c : σ → Prop) [DecidablePred c] :
    Decidable (r.Leaves e c) :=
  match r with
  | .err e' s => decidable_of_iff (e' = e ∧ c s) ⟨fun h => ⟨s, by rw [h.1], h.2⟩, by rintro ⟨_, ⟨⟩, h⟩; exact ⟨rfl, h⟩⟩
  | .ret _ _ => isFalse (by rintro ⟨_, ⟨⟩, -⟩)
  | .fault => isFalse (by rintro ⟨_, ⟨⟩, -⟩)
  | .spin => isFalse (by rintro ⟨_, ⟨⟩, -⟩)

end Lib

namespace Lib.Prog

variable {σ ε ε' α β γ : Type} {p : Prog σ ε α} {s : σ} {Q Q' : α → σ → Prop} {E E' : σ → Prop}

def Post (p : Prog σ ε α) (s : σ) (Q : α → σ → Prop) (E : σ → Prop) : Prop :=
  (∀ a s', p s = .ret a s' → Q a s') ∧ ∀ e s', p s = .err e s' → E s'

theorem post_of_ret {a : α} {s' : σ} (h : p s = .ret a s') (hQ : Q a s') : p.Post s Q E := by
  refine ⟨fun b t hb => ?_, fun e t he => ?_⟩
  · rw [h] at hb
    cases hb
    exact hQ
  · rw [h] at he
    cases he

theorem post_of_err {e : ε} {s' : σ} (h : p s = .err e s') (hE : E s') : p.Post s Q E := by
  refine ⟨fun b t hb => ?_, fun e' t he => ?_⟩
  · rw [h] at hb
    cases hb
  · rw [h] at he
    cases he
    exact hE

theorem post_of_fault (h : p s = .fault) : p.Post s Q E := by
  refine ⟨fun b t hb => ?_, fun e t he => ?_⟩
  · rw [h] at hb
    cases hb
  · rw [h] at he
    cases he

theorem post_pure {a : α} (h : Q a s) : (pure a : Prog σ ε α).Post s Q E := post_of_ret rfl h

theorem post_stuck : (stuck : Prog σ ε α).Post s Q E := post_of_fault rfl

theorem Post.mono (h : p.Post s Q E) (hQ : ∀ a s', Q a s' → Q' a s') (hE : ∀ s', E s' → E' s') : p.Post s Q' E' :=
  ⟨fun a s' hr => hQ a s' (h.1 a s' hr), fun e s' he => hE s' (h.2 e s' he)⟩

theorem Post.and (h : p.Post s Q E) (h' : p.Post s Q' E') :
    p.Post s (fun a s' => Q a s' ∧ Q' a s') fun s' => E s' ∧ E' s' :=
  ⟨fun a s' hr => ⟨h.1 a s' hr, h'.1 a s' hr⟩, fun e s' he => ⟨h.2 e s' he, h'.2 e s' he⟩⟩

theorem post_of_frames {ν : Type} {view : σ → ν} (h : p.Frames view) (s : σ) :
    p.Post s (fun _ s' => view s' = view s) fun s' => view s' = view s :=
  ⟨fun _ s' hr => h s s' (by rw [hr]; rfl), fun _ s' he => h s s' (by rw [he]; rfl)⟩

theorem post_bind {f : α → Prog σ ε β} {R : β → σ → Prop} (h : p.Post s Q E)
    (hf : ∀ a s', Q a s' → (f a).Post s' R E) : (p >>= f).Post s R E := by
  refine ⟨fun b t hb => ?_, fun e t he => ?_⟩
  · obtain ⟨a, s1, h1, h2⟩ := bind_ret_inv hb
    exact (hf a s1 (h.1 a s1 h1)).1 b t h2
  · rw [bind_apply] at he
    cases hp : p s with
    | ret a s1 =>
      rw [hp] at he
      exact (hf a s1 (h.1 a s1 hp)).2 e t he
    | err e' s1 =>
      rw [hp] at he
      cases he
      exact h.2 _ _ hp
    | fault => rw [hp] at he; cases he
    | spin => rw [hp] at he; cases he

theorem post_bind_of_ret {f : α → Prog σ ε β} {R : β → σ → Prop} {a : α} {s' : σ} (h : p s = .ret a s')
    (hf : (f a).Post s' R E) : (p >>= f).Post s R E := by
  refine ⟨fun b t hb => ?_, fun e t he => ?_⟩
  · rw [bind_of_ret h] at hb
    exact hf.1 b t hb
  · rw [bind_of_ret h] at he
    exact hf.2 e t he

theorem post_ensure_bind {c : Prop} [Decidable c] {e : ε} {f : Unit → Prog σ ε β} {R : β → σ → Prop}
    (hc : c → (f ()).Post s R E) (hn : ¬ c → E s) : (ensure c e >>= f).Post s R E := by
  by_cases h : c
  · exact post_bind_of_ret (ensure_pos h) (hc h)
  · exact post_of_err (bind_of_err (ensure_neg h)) (hn h)

theorem post_when {c : Prop} [Decidable c] {p : Prog σ ε Unit} {Q : Unit → σ → Prop} (hp : c → p.Post s Q E)
    (hn : ¬ c → Q () s) : (when c p).Post s Q E := by
  by_cases h : c
  · rw [when_pos h]
    exact hp h
  · rw [when_neg h]
    exact post_pure (hn h)

/-- **Loop rule.**  Rounds that keep `I` and end the loop in `Q`. -/
theorem post_iterate {body : β → Prog σ ε (γ ⊕ β)} {Q : γ → σ → Prop} (I : β → σ → Prop)
    (step : ∀ b s, I b s → (body b).Post s (fun r s' => match r with | .inl c => Q c s' | .inr b' => I b' s') E) :
    ∀ n b s, I b s → (iterate body n b).Post s Q E := by
  intro n
  induction n with
  | zero => exact fun b s _ => ⟨nofun, nofun⟩
  | succ n ih =>
    intro b s hI
    refine post_bind (step b s hI) fun r s' hr => ?_
    cases r with
    | inl c => exact post_pure hr
    | inr b' => exact ih b' s' hr

/-- The undoing of what `p` leaves behind. -/
theorem post_protect {undo : Prog σ ε Unit} {F : σ → Prop} (h : p.Post s Q F)
    (hu : ∀ s', F s' → undo.Post s' (fun _ => E) E) : (protect undo p).Post s Q E := by
  refine ⟨fun a t ha => ?_, fun e t he => ?_⟩
  · rw [protect] at ha
    cases hp : p s with
    | ret b s1 =>
      rw [hp] at ha
      cases ha
      exact h.1 a t hp
    | err e s1 =>
      rw [hp] at ha
      dsimp only at ha
      cases hun : undo s1 <;> rw [hun] at ha <;> cases ha
    | fault => rw [hp] at ha; cases ha
    | spin => rw [hp] at ha; cases ha
  · rw [protect] at he
    cases hp : p s with
    | ret b s1 => rw [hp] at he; cases he
    | err e' s1 =>
      rw [hp] at he
      dsimp only at he
      have hpost := hu s1 (h.2 e' s1 hp)
      cases hun : undo s1 with
      | ret u s2 =>
        rw [hun] at he
        cases he
        exact hpost.1 u t hun
      | err e2 s2 =>
        rw [hun] at he
        cases he
        exact hpost.2 e t hun
      | fault => rw [hun] at he; cases he
      | spin => rw [hun] at he; cases he
    | fault => rw [hp] at he; cases he
    | spin => rw [hp] at he; cases he

end Lib.Prog
