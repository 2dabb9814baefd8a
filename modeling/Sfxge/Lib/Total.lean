import Sfxge.Lib.Run

/-!
# Lib.Total — runs that come to an end

`p.Runs s Q E` says that the run of `p` from `s` returns in `Q` or leaves with a return code in `E`: it neither waits
forever nor makes an undefined access.  Nothing here mentions the driver.
-/

namespace Lib.Prog

variable {σ τ ε ε' α β : Type} {p : Prog σ ε α} {s : σ} {Q Q' : α → σ → Prop} {E E' : ε → σ → Prop}

/-- `p` run from `s` ends: it returns in `Q`, or leaves in `E`. -/
def Runs (p : Prog σ ε α) (s : σ) (Q : α → σ → Prop) (E : ε → σ → Prop) : Prop :=
  (∃ a s', p s = .ret a s' ∧ Q a s') ∨ ∃ e s', p s = .err e s' ∧ E e s'

theorem runs_of_ret {a : α} {s' : σ} (h : p s = .ret a s') (hQ : Q a s') : p.Runs s Q E := Or.inl ⟨a, s', h, hQ⟩

theorem runs_of_err {e : ε} {s' : σ} (h : p s = .err e s') (hE : E e s') : p.Runs s Q E := Or.inr ⟨e, s', h, hE⟩

theorem Runs.mono (h : p.Runs s Q E) (hQ : ∀ a s', Q a s' → Q' a s') (hE : ∀ e s', E e s' → E' e s') :
    p.Runs s Q' E' := by
  rcases h with ⟨a, s', hp, hq⟩ | ⟨e, s', hp, he⟩
  · exact runs_of_ret hp (hQ a s' hq)
  · exact runs_of_err hp (hE e s' he)

theorem Runs.of_ret {a : α} {s' : σ} (h : p.Runs s Q E) (hp : p s = .ret a s') : Q a s' := by
  rcases h with ⟨a1, s1, h1, hq⟩ | ⟨e, s1, h1, -⟩
  · cases hp.symm.trans h1
    exact hq
  · cases hp.symm.trans h1

theorem Runs.of_err {e : ε} {s' : σ} (h : p.Runs s Q E) (hp : p s = .err e s') : E e s' := by
  rcases h with ⟨a, s1, h1, -⟩ | ⟨e1, s1, h1, he⟩
  · cases hp.symm.trans h1
  · cases hp.symm.trans h1
    exact he

/-- What holds however the run ends. -/
theorem Runs.state {R : σ → Prop} (h : p.Runs s (fun _ => R) fun _ => R) : ∃ s', (p s).state? = some s' ∧ R s' := by
  rcases h with ⟨a, s', hp, hr⟩ | ⟨e, s', hp, hr⟩
  · exact ⟨s', by rw [hp]; rfl, hr⟩
  · exact ⟨s', by rw [hp]; rfl, hr⟩

theorem runs_pure {a : α} (h : Q a s) : (pure a : Prog σ ε α).Runs s Q E := runs_of_ret rfl h

theorem runs_fail {e : ε} (h : E e s) : (fail e : Prog σ ε α).Runs s Q E := runs_of_err rfl h

theorem runs_modify {f : σ → σ} {Q : Unit → σ → Prop} (h : Q () (f s)) : (modify f : Prog σ ε Unit).Runs s Q E :=
  runs_of_ret rfl h

/-- **Sequence rule.** -/
theorem runs_bind {f : α → Prog σ ε β} {R : β → σ → Prop} (h : p.Runs s (fun a s' => (f a).Runs s' R E) E) :
    (p >>= f).Runs s R E := by
  rcases h with ⟨a, s', hp, hf⟩ | ⟨e, s', hp, he⟩
  · rw [Runs, bind_of_ret hp]
    exact hf
  · exact runs_of_err (bind_of_err hp) he

theorem runs_get_bind {f : σ → Prog σ ε β} {R : β → σ → Prop} (h : (f s).Runs s R E) : (get >>= f).Runs s R E :=
  runs_bind (runs_of_ret rfl h)

theorem runs_modify_bind {g : σ → σ} {f : Unit → Prog σ ε β} {R : β → σ → Prop} (h : (f ()).Runs (g s) R E) :
    (modify g >>= f).Runs s R E := runs_bind (runs_modify h)

theorem runs_ensure {c : Prop} [Decidable c] {e : ε} {Q : Unit → σ → Prop} (hc : c → Q () s) (hn : ¬ c → E e s) :
    (ensure c e : Prog σ ε Unit).Runs s Q E := by
  by_cases h : c
  · exact runs_of_ret (ensure_pos h) (hc h)
  · exact runs_of_err (ensure_neg h) (hn h)

theorem runs_when {c : Prop} [Decidable c] {p : Prog σ ε Unit} {Q : Unit → σ → Prop} (hp : c → p.Runs s Q E)
    (hn : ¬ c → Q () s) : (when c p).Runs s Q E := by
  by_cases h : c
  · rw [when_pos h]
    exact hp h
  · rw [when_neg h]
    exact runs_pure (hn h)

/-- An attempt hands the return code on. -/
theorem runs_attempt {Q : Except ε α → σ → Prop} {E' : ε' → σ → Prop}
    (h : p.Runs s (fun a => Q (.ok a)) fun e => Q (.error e)) : (attempt p : Prog σ ε' _).Runs s Q E' := by
  rcases h with ⟨a, s', hp, hq⟩ | ⟨e, s', hp, he⟩
  · exact runs_of_ret (attempt_of_ret hp) hq
  · exact runs_of_ret (attempt_of_err hp) he

/-- A program on a part of the state. -/
theorem runs_zoom {view : τ → σ} {put : τ → σ → τ} {t : τ} {Q : α → τ → Prop} {E : ε → τ → Prop}
    (h : p.Runs (view t) (fun a s' => Q a (put t s')) fun e s' => E e (put t s')) : (zoom view put p).Runs t Q E := by
  rcases h with ⟨a, s', hp, hq⟩ | ⟨e, s', hp, he⟩
  · exact runs_of_ret (zoom_of_ret hp) hq
  · exact runs_of_err (zoom_of_err hp) he

/-- **For rule.**  `I done s` is what holds after the elements `done`. -/
theorem runs_forEach {f : β → Prog σ ε Unit} (I : List β → σ → Prop) (bs : List β) (h0 : I [] s)
    (step : ∀ done b s, b ∈ bs → I done s → (f b).Runs s (fun _ => I (done ++ [b])) E) :
    (forEach f bs).Runs s (fun _ => I bs) E := by
  suffices h : ∀ rest done s, (∀ b ∈ rest, b ∈ bs) → I done s →
      (forEach f rest).Runs s (fun _ => I (done ++ rest)) E from h bs [] s (fun _ hb => hb) h0
  intro rest
  induction rest with
  | nil =>
    intro done s _ hI
    exact runs_pure (by simpa using hI)
  | cons b rest ih =>
    intro done s hsub hI
    refine runs_bind ((step done b s (hsub b (by simp)) hI).mono (fun _ s1 h1 => ?_) fun e s1 he => he)
    have hrest := ih (done ++ [b]) s1 (fun c hc => hsub c (by simp [hc])) h1
    simpa using hrest

end Lib.Prog
