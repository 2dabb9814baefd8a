import Mathlib.Computability.StateTransition
import Mathlib.Data.Fintype.Card
import Sfxge.Lib.Prog

/-!
# Lib.Run — runs of a system step by step

`Reach init step s` holds of the states a system reaches from its initial states; `Reach.inv` is the
induction over runs, once.  `Prog.forEach` is the `for` loop over a list, with its rules.
-/

namespace Lib

variable {σ ε ε' α β : Type}

/-- The states reached from `init` by finitely many steps. -/
inductive Reach (init : σ → Prop) (step : σ → σ → Prop) : σ → Prop
  | start {s : σ} : init s → Reach init step s
  | next {s s' : σ} : Reach init step s → step s s' → Reach init step s'

/-- **Invariant rule.**  What holds initially and is kept by every step holds of every reached
state. -/
theorem Reach.inv {init : σ → Prop} {step : σ → σ → Prop} (I : σ → Prop)
    (h0 : ∀ s, init s → I s) (h1 : ∀ s s', I s → step s s' → I s') {s : σ}
    (h : Reach init step s) : I s := by
  induction h with
  | start hs => exact h0 _ hs
  | next _ hstep ih => exact h1 _ _ ih hstep

/-! ### Runs given by a list of operations

`step o s` is the state after operation `o`, `none` where `o` is not possible; a run ends there. -/

section Along

variable {op : Type} (step : op → σ → Option σ)

/-- `P` holds of every state of the run `os` from `s`. -/
def AlwaysAlong (P : σ → Prop) : List op → σ → Prop
  | [], s => P s
  | o :: os, s => P s ∧ ∀ s', step o s = some s' → AlwaysAlong P os s'

/-- `C` holds of every step of the run `os` from `s`, in the state before the step. -/
def StepsAlong (C : op → σ → Prop) : List op → σ → Prop
  | [], _ => True
  | o :: os, s => ∀ s', step o s = some s' → C o s ∧ StepsAlong C os s'

instance {C : op → σ → Prop} [∀ o s, Decidable (C o s)] : ∀ os s, Decidable (StepsAlong step C os s)
  | [], _ => isTrue trivial
  | o :: os, s =>
    match h : step o s with
    | none => isTrue fun s' hs' => by
      rw [h] at hs'
      cases hs'
    | some s1 =>
      have : Decidable (StepsAlong step C os s1) := instDecidableStepsAlong os s1
      decidable_of_iff (C o s ∧ StepsAlong step C os s1)
        ⟨fun hc s' hs' => Option.some.inj (h.symm.trans hs') ▸ hc, fun hc => hc s1 h⟩

/-- `P` holds of every state of the run `os` from `s`, and `Q` of every call in it: `Q o s s'` relates
the state before to the state after. -/
def MeetsAlong (P : σ → Prop) (Q : op → σ → σ → Prop) : List op → σ → Prop
  | [], s => P s
  | o :: os, s => P s ∧ ∀ s', step o s = some s' → Q o s s' ∧ MeetsAlong P Q os s'

variable {step}

/-- **Exact rule under an invariant.**  If a step from a `P`-state leads to a `P`-state exactly when it meets
`C`, and steps that meet `C` keep what that rests on, then a run from a `P`-state stays in `P` exactly when all
its steps meet `C`. -/
theorem alwaysAlong_iff_of_steps {I P : σ → Prop} {C : op → σ → Prop}
    (hI : ∀ o s s', I s → P s → C o s → step o s = some s' → I s')
    (hstep : ∀ o s s', I s → P s → step o s = some s' → (P s' ↔ C o s)) (os : List op) {s : σ} (hs : I s)
    (h0 : P s) : AlwaysAlong step P os s ↔ StepsAlong step C os s := by
  induction os generalizing s with
  | nil => simp [AlwaysAlong, StepsAlong, h0]
  | cons o os ih =>
    simp only [AlwaysAlong, StepsAlong, h0, true_and]
    constructor
    · intro h s' hs'
      have hP : P s' := by
        have := h s' hs'
        cases os with
        | nil => exact this
        | cons o' os => exact this.1
      have hC := (hstep o s s' hs h0 hs').mp hP
      exact ⟨hC, (ih (hI o s s' hs h0 hC hs') hP).mp (h s' hs')⟩
    · intro h s' hs'
      obtain ⟨hC, hrest⟩ := h s' hs'
      exact (ih (hI o s s' hs h0 hC hs') ((hstep o s s' hs h0 hs').mpr hC)).mpr hrest

/-- The exact rule with an invariant of all steps. -/
theorem alwaysAlong_iff_of_inv {I P : σ → Prop} {C : op → σ → Prop}
    (hI : ∀ o s s', I s → step o s = some s' → I s')
    (hstep : ∀ o s s', I s → P s → step o s = some s' → (P s' ↔ C o s)) (os : List op) {s : σ} (hs : I s)
    (h0 : P s) : AlwaysAlong step P os s ↔ StepsAlong step C os s :=
  alwaysAlong_iff_of_steps (fun o s s' h _ _ => hI o s s' h) hstep os hs h0

/-- The exact rule without an invariant. -/
theorem alwaysAlong_iff {P : σ → Prop} {C : op → σ → Prop}
    (hstep : ∀ o s s', P s → step o s = some s' → (P s' ↔ C o s)) (os : List op) {s : σ} (h0 : P s) :
    AlwaysAlong step P os s ↔ StepsAlong step C os s :=
  alwaysAlong_iff_of_inv (I := fun _ => True) (fun _ _ _ _ _ => trivial) (fun o s s' _ => hstep o s s') os trivial h0

/-- What an invariant of all steps implies holds along every run. -/
theorem alwaysAlong_of_inv {I P : σ → Prop} (hI : ∀ o s s', I s → step o s = some s' → I s')
    (hP : ∀ s, I s → P s) (os : List op) {s : σ} (hs : I s) : AlwaysAlong step P os s := by
  induction os generalizing s with
  | nil => exact hP s hs
  | cons o os ih => exact ⟨hP s hs, fun s' hs' => ih (hI o s s' hs hs')⟩

/-- What steps that meet `C` keep holds along every run of such steps. -/
theorem alwaysAlong_of_steps {I P : σ → Prop} {C : op → σ → Prop}
    (hI : ∀ o s s', I s → C o s → step o s = some s' → I s') (hP : ∀ s, I s → P s) (os : List op) {s : σ}
    (hs : I s) (h : StepsAlong step C os s) : AlwaysAlong step P os s := by
  induction os generalizing s with
  | nil => exact hP s hs
  | cons o os ih =>
    refine ⟨hP s hs, fun s' hs' => ?_⟩
    obtain ⟨hC, hrest⟩ := h s' hs'
    exact ih (hI o s s' hs hC hs') hrest

/-- A condition on the operations alone holds at every step. -/
theorem StepsAlong.and_ops {A : op → Prop} {C : op → σ → Prop} {os : List op} {s : σ} (hA : ∀ o ∈ os, A o)
    (h : StepsAlong step C os s) : StepsAlong step (fun o s => A o ∧ C o s) os s := by
  induction os generalizing s with
  | nil => exact trivial
  | cons o os ih =>
    intro s' hs'
    obtain ⟨hC, hrest⟩ := h s' hs'
    exact ⟨⟨hA o (by simp), hC⟩, ih (fun o ho => hA o (by simp [ho])) hrest⟩

/-- **Exact rule for calls.**  Under an invariant `I` of all steps, if a call from a `P`-state does
what it should exactly when it meets `C`, so does a run. -/
theorem meetsAlong_iff {I P : σ → Prop} {Q : op → σ → σ → Prop} {C : op → σ → Prop}
    (hI : ∀ o s s', I s → step o s = some s' → I s')
    (hstep : ∀ o s s', I s → P s → step o s = some s' → (Q o s s' ∧ P s' ↔ C o s)) (os : List op)
    {s : σ} (hs : I s) (h0 : P s) : MeetsAlong step P Q os s ↔ StepsAlong step C os s := by
  induction os generalizing s with
  | nil => simp [MeetsAlong, StepsAlong, h0]
  | cons o os ih =>
    simp only [MeetsAlong, StepsAlong, h0, true_and]
    constructor
    · intro h s' hs'
      obtain ⟨hQ, hrest⟩ := h s' hs'
      have hP : P s' := by
        cases os with
        | nil => exact hrest
        | cons o' os => exact hrest.1
      exact ⟨(hstep o s s' hs h0 hs').mp ⟨hQ, hP⟩, (ih (hI o s s' hs hs') hP).mp hrest⟩
    · intro h s' hs'
      obtain ⟨hC, hrest⟩ := h s' hs'
      obtain ⟨hQ, hP⟩ := (hstep o s s' hs h0 hs').mpr hC
      exact ⟨hQ, (ih (hI o s s' hs hs') hP).mpr hrest⟩

/-- What calls that meet `C` do and keep, every run of such calls does. -/
theorem meetsAlong_of_steps {P : σ → Prop} {Q : op → σ → σ → Prop} {C : op → σ → Prop}
    (hstep : ∀ o s s', P s → C o s → step o s = some s' → Q o s s' ∧ P s') (os : List op) {s : σ} (h0 : P s)
    (h : StepsAlong step C os s) : MeetsAlong step P Q os s := by
  induction os generalizing s with
  | nil => exact h0
  | cons o os ih =>
    refine ⟨h0, fun s' hs' => ?_⟩
    obtain ⟨hC, hrest⟩ := h s' hs'
    obtain ⟨hQ, hP⟩ := hstep o s s' h0 hC hs'
    exact ⟨hQ, ih hP hrest⟩

variable (step) in
/-- All operations of the run `os` from `s` are possible and do what `Q` says, and `P` holds of every
state. -/
def GoesAlong (P : σ → Prop) (Q : op → σ → σ → Prop) : List op → σ → Prop
  | [], s => P s
  | o :: os, s => P s ∧ ∃ s', step o s = some s' ∧ Q o s s' ∧ GoesAlong P Q os s'

variable (step) in
/-- `C` holds at every operation of the run `os` from `s`, in the state before it. -/
def GuardsAlong (C : op → σ → Prop) : List op → σ → Prop
  | [], _ => True
  | o :: os, s => C o s ∧ ∀ s', step o s = some s' → GuardsAlong C os s'

theorem GoesAlong.head {P : σ → Prop} {Q : op → σ → σ → Prop} {os : List op} {s : σ}
    (h : GoesAlong step P Q os s) : P s := by
  cases os with
  | nil => exact h
  | cons o os => exact h.1

/-- **Exact rule for going on.**  Under an invariant `I` that implies `P`, if an operation that meets `C` is
possible, does `Q` and keeps `I`, and one that is possible, does `Q` and leads to `P` meets `C`, then a run
goes on exactly as long as its operations meet `C`. -/
theorem goesAlong_iff {I P : σ → Prop} {Q : op → σ → σ → Prop} {C : op → σ → Prop} (hP : ∀ s, I s → P s)
    (hgo : ∀ o s, I s → C o s → ∃ s', step o s = some s' ∧ Q o s s' ∧ I s')
    (hstop : ∀ o s s', I s → step o s = some s' → Q o s s' → P s' → C o s) (os : List op) {s : σ} (hs : I s) :
    GoesAlong step P Q os s ↔ GuardsAlong step C os s := by
  induction os generalizing s with
  | nil => exact ⟨fun _ => trivial, fun _ => hP s hs⟩
  | cons o os ih =>
    constructor
    · rintro ⟨-, s', hs', hQ, hrest⟩
      have hC := hstop o s s' hs hs' hQ hrest.head
      obtain ⟨s1, h1, -, hI⟩ := hgo o s hs hC
      refine ⟨hC, fun s2 h2 => ?_⟩
      cases hs'.symm.trans h1
      cases hs'.symm.trans h2
      exact (ih hI).mp hrest
    · rintro ⟨hC, hrest⟩
      obtain ⟨s', hs', hQ, hI⟩ := hgo o s hs hC
      exact ⟨hP s hs, s', hs', hQ, (ih hI).mpr (hrest s' hs')⟩

/-- Operations that meet `C` go on, do what `Q` says and keep `P`. -/
theorem goesAlong_of_guards {I P : σ → Prop} {Q : op → σ → σ → Prop} {C : op → σ → Prop} (hP : ∀ s, I s → P s)
    (hgo : ∀ o s, I s → C o s → ∃ s', step o s = some s' ∧ Q o s s' ∧ I s') (os : List op) {s : σ} (hs : I s)
    (h : GuardsAlong step C os s) : GoesAlong step P Q os s := by
  induction os generalizing s with
  | nil => exact hP s hs
  | cons o os ih =>
    obtain ⟨hC, hrest⟩ := h
    obtain ⟨s', hs', hQ, hI⟩ := hgo o s hs hC
    exact ⟨hP s hs, s', hs', hQ, ih hI (hrest s' hs')⟩

/-- The state after the operations `os`, `none` where one of them is not possible. -/
def runOps (step : op → σ → Option σ) : List op → σ → Option σ
  | [], s => some s
  | o :: os, s => (step o s).bind (runOps step os)

theorem runOps_append {os os' : List op} {s s1 : σ} (h : runOps step os s = some s1) :
    runOps step (os ++ os') s = runOps step os' s1 := by
  induction os generalizing s with
  | nil =>
    cases h
    rfl
  | cons o os ih =>
    obtain ⟨s2, h1, h2⟩ := Option.bind_eq_some_iff.mp h
    rw [List.cons_append, runOps, h1]
    exact ih h2

/-- The state after a list of operations is reached. -/
theorem Reach.runOps {init : σ → Prop} {R : σ → σ → Prop} {os : List op}
    (hR : ∀ o ∈ os, ∀ s s', step o s = some s' → R s s') {s s' : σ} (h : Reach init R s)
    (hr : runOps step os s = some s') : Reach init R s' := by
  induction os generalizing s with
  | nil =>
    cases hr
    exact h
  | cons o os ih =>
    obtain ⟨s1, h1, h2⟩ := Option.bind_eq_some_iff.mp hr
    exact ih (fun o ho => hR o (by simp [ho])) (.next h (hR o (by simp) s s1 h1)) h2

theorem AlwaysAlong.last {P : σ → Prop} {os : List op} {s s' : σ} (h : AlwaysAlong step P os s)
    (hr : Lib.runOps step os s = some s') : P s' := by
  induction os generalizing s with
  | nil =>
    cases hr
    exact h
  | cons o os ih =>
    obtain ⟨s1, h1, h2⟩ := Option.bind_eq_some_iff.mp hr
    exact ih (h.2 s1 h1) h2

theorem GoesAlong.last {P : σ → Prop} {Q : op → σ → σ → Prop} {os : List op} {s : σ}
    (h : GoesAlong step P Q os s) : ∃ s', Lib.runOps step os s = some s' ∧ P s' := by
  induction os generalizing s with
  | nil => exact ⟨s, rfl, h⟩
  | cons o os ih =>
    obtain ⟨-, s1, h1, -, hrest⟩ := h
    obtain ⟨s', hr, hP⟩ := ih hrest
    exact ⟨s', Option.bind_eq_some_iff.mpr ⟨s1, h1, hr⟩, hP⟩

/-- The last call of a run does what it should. -/
theorem MeetsAlong.last {P : σ → Prop} {Q : op → σ → σ → Prop} {os : List op} {o : op} {s s1 s2 : σ}
    (h : MeetsAlong step P Q (os ++ [o]) s) (hr : Lib.runOps step os s = some s1) (hs : step o s1 = some s2) :
    Q o s1 s2 := by
  induction os generalizing s with
  | nil =>
    cases hr
    exact (h.2 s2 hs).1
  | cons o' os ih =>
    obtain ⟨s', h1, h2⟩ := Option.bind_eq_some_iff.mp hr
    exact ih (h.2 s' h1).2 h2

/-- A state found by evaluating a run. -/
theorem exists_of_any {P : σ → Prop} [DecidablePred P] {r : Option σ}
    (h : (r.any fun s => decide (P s)) = true) : ∃ s, r = some s ∧ P s := by
  cases r with
  | none => cases h
  | some s => exact ⟨s, rfl, of_decide_eq_true h⟩

/-- What every step keeps, a run keeps. -/
theorem runOps_inv (I : σ → Prop) (hI : ∀ o s s', I s → step o s = some s' → I s') {os : List op}
    {s s' : σ} (hs : I s) (h : Lib.runOps step os s = some s') : I s' := by
  induction os generalizing s with
  | nil =>
    cases h
    exact hs
  | cons o os ih =>
    obtain ⟨s1, h1, h2⟩ := Option.bind_eq_some_iff.mp h
    exact ih (hI o s s1 hs h1) h2

theorem StepsAlong.append {C : op → σ → Prop} {os os' : List op} {s s1 : σ} (h : StepsAlong step C os s)
    (hr : Lib.runOps step os s = some s1) (h1 : StepsAlong step C os' s1) : StepsAlong step C (os ++ os') s := by
  induction os generalizing s with
  | nil =>
    cases hr
    exact h1
  | cons o os ih =>
    intro s' hs'
    obtain ⟨s2, h2, hr⟩ := Option.bind_eq_some_iff.mp hr
    cases hs'.symm.trans h2
    obtain ⟨hC, h⟩ := h s' hs'
    exact ⟨hC, ih h hr⟩

/-- A run whose steps meet `C` leads from `s` to `s'`. -/
def LeadsTo (step : op → σ → Option σ) (C : op → σ → Prop) (s s' : σ) : Prop :=
  ∃ os, StepsAlong step C os s ∧ Lib.runOps step os s = some s'

theorem LeadsTo.refl (C : op → σ → Prop) (s : σ) : LeadsTo step C s s := ⟨[], trivial, rfl⟩

theorem LeadsTo.trans {C : op → σ → Prop} {s s1 s2 : σ} (h : LeadsTo step C s s1) (h' : LeadsTo step C s1 s2) :
    LeadsTo step C s s2 := by
  obtain ⟨os, hC, hr⟩ := h
  obtain ⟨os', hC', hr'⟩ := h'
  exact ⟨os ++ os', hC.append hr hC', (runOps_append hr).trans hr'⟩

theorem LeadsTo.next {C : op → σ → Prop} {s s1 s2 : σ} (h : LeadsTo step C s s1) (o : op) (hC : C o s1)
    (hs : step o s1 = some s2) : LeadsTo step C s s2 :=
  h.trans ⟨[o], fun _ _ => ⟨hC, trivial⟩, Option.bind_eq_some_iff.mpr ⟨s2, hs, rfl⟩⟩

/-- What holds along every run that meets `C` holds where such a run leads. -/
theorem LeadsTo.of_alwaysAlong {C : op → σ → Prop} {P : σ → Prop} {s s' : σ} (h : LeadsTo step C s s')
    (hP : ∀ os, StepsAlong step C os s → AlwaysAlong step P os s) : P s' := by
  obtain ⟨os, hC, hr⟩ := h
  exact (hP os hC).last hr

/-- The steps that meet `C`, the others being impossible. -/
def guarded (step : op → σ → Option σ) (C : op → σ → Prop) [∀ o s, Decidable (C o s)] (o : op) (s : σ) :
    Option σ := if C o s then step o s else none

theorem guarded_inv {C : op → σ → Prop} [∀ o s, Decidable (C o s)] {o : op} {s s' : σ}
    (h : guarded step C o s = some s') : C o s ∧ step o s = some s' := Option.ite_none_right_eq_some.mp h

/-- A run whose steps meet `C` is a run. -/
theorem runOps_guarded {C : op → σ → Prop} [∀ o s, Decidable (C o s)] {os : List op} {s s' : σ}
    (h : Lib.runOps (guarded step C) os s = some s') : Lib.runOps step os s = some s' := by
  induction os generalizing s with
  | nil => exact h
  | cons o os ih =>
    obtain ⟨s1, h1, h2⟩ := Option.bind_eq_some_iff.mp h
    exact Option.bind_eq_some_iff.mpr ⟨s1, (guarded_inv h1).2, ih h2⟩

/-- A run meets `C` at every step, or it is `Bad` from the first step that does not. -/
theorem runOps_guarded_or {C : op → σ → Prop} [∀ o s, Decidable (C o s)] (Bad : σ → Prop)
    (hbad : ∀ o s s', ¬ C o s → step o s = some s' → Bad s')
    (hkeep : ∀ o s s', Bad s → step o s = some s' → Bad s') {os : List op} {s s' : σ}
    (h : Lib.runOps step os s = some s') :
    Lib.runOps (guarded step C) os s = some s' ∨ Bad s' := by
  induction os generalizing s with
  | nil => exact Or.inl h
  | cons o os ih =>
    obtain ⟨s1, h1, h2⟩ := Option.bind_eq_some_iff.mp h
    by_cases hC : C o s
    · refine (ih h2).imp_left fun h3 => ?_
      exact Option.bind_eq_some_iff.mpr ⟨s1, (if_pos hC).trans h1, h3⟩
    · exact Or.inr (runOps_inv Bad hkeep (hbad o s s1 hC h1) h2)

end Along

/-! ### Loops over a list that may fail -/

/-- **Fold rule.**  `I done s` is what holds after the elements `done`. -/
theorem foldlM_rule {f : σ → β → Option σ} (I : List β → σ → Prop) (bs : List β) {s : σ} (h0 : I [] s)
    (step : ∀ done b rest s, bs = done ++ b :: rest → I done s → ∃ s', f s b = some s' ∧ I (done ++ [b]) s') :
    ∃ s', bs.foldlM f s = some s' ∧ I bs s' := by
  suffices h : ∀ rest done s, bs = done ++ rest → I done s →
      ∃ s', rest.foldlM f s = some s' ∧ I bs s' from h bs [] s rfl h0
  intro rest
  induction rest with
  | nil =>
    intro done s hbs hI
    rw [hbs, List.append_nil]
    exact ⟨s, rfl, hI⟩
  | cons b rest ih =>
    intro done s hbs hI
    obtain ⟨s1, h1, hI1⟩ := step done b rest s hbs hI
    obtain ⟨s2, h2, hI2⟩ := ih (done ++ [b]) s1 (by rw [hbs]; simp) hI1
    refine ⟨s2, ?_, hI2⟩
    rw [List.foldlM_cons, h1]
    exact h2

/-! ### Runs that end -/

section Evaluation

open StateTransition

variable {step : σ → Option σ} {s s' : σ}

/-- Along a run towards the end, no state comes back. -/
theorem not_dom_of_cycle (h : Reaches₁ step s s) : ¬ (eval step s).Dom := by
  intro hdom
  obtain ⟨t, ht⟩ := Part.dom_iff_mem.mp hdom
  refine evalInduction (C := fun s => ¬ Reaches₁ step s s) ht (fun a _ ih ha => ?_) h
  obtain ⟨a', ha', hback⟩ := Relation.TransGen.head'_iff.mp ha
  exact ih a' ha' (Relation.TransGen.tail' hback ha')

theorem dom_iff_of_reaches (h : Reaches step s s') : (eval step s).Dom ↔ (eval step s').Dom := by
  rw [reaches_eval h]

theorem dom_of_stop (h : step s = none) : (eval step s).Dom :=
  Part.dom_iff_mem.mpr ⟨s, mem_eval.mpr ⟨.refl, h⟩⟩

/-- A run through finitely many states ends, unless one of them comes back. -/
theorem dom_of_no_cycle [Finite {t // Reaches step s t}] (h : ∀ t, Reaches step s t → ¬ Reaches₁ step t t) :
    (eval step s).Dom := by
  let later : {t // Reaches step s t} → {t // Reaches step s t} → Prop := fun t u => Reaches₁ step u.1 t.1
  have : IsTrans _ later := ⟨fun _ _ _ htu huv => Relation.TransGen.trans huv htu⟩
  have : Std.Irrefl later := ⟨fun t => h t.1 t.2⟩
  have hwf : WellFounded later := Finite.wellFounded_of_trans_of_irrefl later
  have hdom : ∀ t : {t // Reaches step s t}, (eval step t.1).Dom := by
    intro t
    induction t using hwf.induction with
    | _ t ih =>
      cases hstep : step t.1 with
      | none => exact dom_of_stop hstep
      | some u =>
        have hu : Reaches step s u := t.2.tail hstep
        rw [dom_iff_of_reaches (.single hstep)]
        exact ih ⟨u, hu⟩ (.single hstep)
  exact hdom ⟨s, .refl⟩

/-- What the single steps of a run are. -/
theorem Reach.reaches {init : σ → Prop} {R : σ → σ → Prop} (hR : ∀ s s', step s = some s' → R s s')
    (h : Reach init R s) (hr : Reaches step s s') : Reach init R s' := by
  induction hr with
  | refl => exact h
  | tail _ hs ih => exact .next ih (hR _ _ hs)

end Evaluation

/-- The state a run ends in, when it ends. -/
def Res.state? : Res σ ε α → Option σ
  | .ret _ s | .err _ s => some s
  | .fault | .spin => none

/-- The run returns in a state of which `p` holds. -/
def Res.returnsIn (p : σ → Bool) : Res σ ε α → Bool
  | .ret _ s => p s
  | _ => false

/-- The run fails in a state of which `p` holds. -/
def Res.failsIn (p : σ → Bool) : Res σ ε α → Bool
  | .err _ s => p s
  | _ => false

theorem Res.returnsIn_iff {p : σ → Bool} {r : Res σ ε α} : r.returnsIn p ↔ ∃ a s, r = .ret a s ∧ p s := by
  cases r <;> simp [Res.returnsIn]

theorem Res.failsIn_iff {p : σ → Bool} {r : Res σ ε α} : r.failsIn p ↔ ∃ e s, r = .err e s ∧ p s := by
  cases r <;> simp [Res.failsIn]

/-- What every run of `p` that ends does to the state. -/
def Prog.Does (p : Prog σ ε α) (s : σ) (R : σ → Prop) : Prop := ∀ s', (p s).state? = some s' → R s'

/-- When `p` returns, it has not changed `view` of the state. -/
def Prog.Keeps {ν : Type} (view : σ → ν) (p : Prog σ ε α) : Prop :=
  ∀ s a s', p s = .ret a s' → view s' = view s

namespace Prog

section Keeps

variable {ν : Type} {view : σ → ν}

theorem keeps_pure (a : α) : (pure a : Prog σ ε α).Keeps view := by
  intro s b s' h
  cases h
  rfl

theorem keeps_bind {p : Prog σ ε α} {f : α → Prog σ ε β} (hp : p.Keeps view)
    (hf : ∀ a, (f a).Keeps view) : (p >>= f).Keeps view := by
  intro s b s' h
  obtain ⟨a, s1, h1, h2⟩ := bind_ret_inv h
  rw [hf a s1 b s' h2, hp s a s1 h1]

theorem keeps_ite {c : Prop} [Decidable c] {p q : Prog σ ε α} (hp : p.Keeps view)
    (hq : q.Keeps view) : (if c then p else q).Keeps view := by
  split_ifs
  · exact hp
  · exact hq

theorem keeps_when {c : Prop} [Decidable c] {p : Prog σ ε Unit} (hp : p.Keeps view) :
    (when c p).Keeps view := keeps_ite hp (keeps_pure ())

end Keeps

/-! ### Programs that leave a part of the state alone -/

/-- However `p` ends, it has not changed `view` of the state. -/
def Frames {ν : Type} (view : σ → ν) (p : Prog σ ε α) : Prop :=
  ∀ s s', (p s).state? = some s' → view s' = view s

section Frames

variable {ν : Type} {view : σ → ν}

theorem frames_pure (a : α) : (pure a : Prog σ ε α).Frames view := by
  intro s s' h
  cases h
  rfl

theorem frames_fail (e : ε) : (fail e : Prog σ ε α).Frames view := by
  intro s s' h
  cases h
  rfl

theorem frames_get : (get : Prog σ ε σ).Frames view := by
  intro s s' h
  cases h
  rfl

theorem frames_bind {p : Prog σ ε α} {f : α → Prog σ ε β} (hp : p.Frames view) (hf : ∀ a, (f a).Frames view) :
    (p >>= f).Frames view := by
  intro s s' h
  rw [bind_apply] at h
  cases hps : p s with
  | ret a s1 =>
    rw [hps] at h
    rw [hf a s1 s' h, hp s s1 (by rw [hps]; rfl)]
  | err e s1 =>
    rw [hps] at h
    cases h
    exact hp s _ (by rw [hps]; rfl)
  | fault => rw [hps] at h; cases h
  | spin => rw [hps] at h; cases h

theorem frames_ite {c : Prop} [Decidable c] {p q : Prog σ ε α} (hp : p.Frames view) (hq : q.Frames view) :
    (if c then p else q).Frames view := by
  split_ifs
  · exact hp
  · exact hq

theorem frames_ensure (c : Prop) [Decidable c] (e : ε) : (ensure c e : Prog σ ε Unit).Frames view :=
  frames_ite (frames_pure ()) (frames_fail e)

theorem frames_attempt {p : Prog σ ε α} (hp : p.Frames view) :
    (attempt p : Prog σ ε' (Except ε α)).Frames view := by
  intro s s' h
  unfold attempt at h
  cases hps : p s with
  | ret a s1 => rw [hps] at h; cases h; exact hp s _ (by rw [hps]; rfl)
  | err e s1 => rw [hps] at h; cases h; exact hp s _ (by rw [hps]; rfl)
  | fault => rw [hps] at h; cases h
  | spin => rw [hps] at h; cases h

theorem frames_orFail {p : Prog σ ε α} (e : ε') (hp : p.Frames view) : (orFail p e).Frames view := by
  intro s s' h
  unfold orFail at h
  cases hps : p s with
  | ret a s1 => rw [hps] at h; cases h; exact hp s _ (by rw [hps]; rfl)
  | err e s1 => rw [hps] at h; cases h; exact hp s _ (by rw [hps]; rfl)
  | fault => rw [hps] at h; cases h
  | spin => rw [hps] at h; cases h

theorem frames_iterate {γ : Type} {body : β → Prog σ ε (γ ⊕ β)} (hbody : ∀ b, (body b).Frames view) :
    ∀ n b, (iterate body n b).Frames view := by
  intro n
  induction n with
  | zero => exact fun b s s' h => by cases h
  | succ n ih =>
    intro b
    refine frames_bind (hbody b) fun r => ?_
    cases r with
    | inl c => exact frames_pure c
    | inr b' => exact ih b'

end Frames

theorem does_of_frames {ν : Type} {view : σ → ν} {p : Prog σ ε α} (h : p.Frames view) (s : σ) :
    p.Does s fun s' => view s' = view s := h s

theorem does_of_ret {p : Prog σ ε α} {s s1 : σ} {a : α} {R : σ → Prop} (h : p s = .ret a s1)
    (hR : R s1) : p.Does s R := by
  intro s' hs'
  rw [h] at hs'
  cases hs'
  exact hR

theorem does_pure {a : α} {s : σ} {R : σ → Prop} (h : R s) : (pure a : Prog σ ε α).Does s R :=
  does_of_ret rfl h

theorem does_fail {e : ε} {s : σ} {R : σ → Prop} (h : R s) : (fail e : Prog σ ε α).Does s R := by
  intro s' hs'
  cases hs'
  exact h

theorem does_bind {p : Prog σ ε α} {f : α → Prog σ ε β} {s : σ} {R : σ → Prop}
    (hret : ∀ a s1, p s = .ret a s1 → (f a).Does s1 R) (herr : ∀ e s1, p s = .err e s1 → R s1) :
    (p >>= f).Does s R := by
  intro s' hs'
  rw [bind_apply] at hs'
  cases hp : p s with
  | ret a s1 => rw [hp] at hs'; exact hret a s1 hp s' hs'
  | err e s1 => rw [hp] at hs'; cases hs'; exact herr e _ hp
  | fault => rw [hp] at hs'; cases hs'
  | spin => rw [hp] at hs'; cases hs'

/-- `p` leaves the state alone when it fails. -/
theorem does_ensure_bind {c : Prop} [Decidable c] {e : ε} {f : Unit → Prog σ ε β} {s : σ}
    {R : σ → Prop} (hc : c → (f ()).Does s R) (hn : ¬ c → R s) : (ensure c e >>= f).Does s R := by
  by_cases h : c
  · intro s' hs'
    rw [bind_of_ret (ensure_pos h)] at hs'
    exact hc h s' hs'
  · intro s' hs'
    rw [bind_of_err (ensure_neg h)] at hs'
    cases hs'
    exact hn h

/-! ### Runs without an undefined access -/

/-- The run of `p` from `s` makes no undefined access. -/
def Safe (p : Prog σ ε α) (s : σ) : Prop := p s ≠ .fault

theorem safe_of_ret {p : Prog σ ε α} {s s1 : σ} {a : α} (h : p s = .ret a s1) : p.Safe s := by
  rw [Safe, h]
  exact nofun

theorem safe_of_err {p : Prog σ ε α} {s t : σ} {e : ε} (h : p s = .err e t) : p.Safe s := by
  rw [Safe, h]
  exact nofun

theorem safe_pure (a : α) (s : σ) : (pure a : Prog σ ε α).Safe s := safe_of_ret rfl

/-- **Sequence rule.** -/
theorem safe_bind {p : Prog σ ε α} {f : α → Prog σ ε β} {s : σ} (hp : p.Safe s)
    (hf : ∀ a s1, p s = .ret a s1 → (f a).Safe s1) : (p >>= f).Safe s := by
  rw [Safe, bind_apply]
  cases h : p s with
  | ret a s1 => exact hf a s1 h
  | err e s1 => exact nofun
  | fault => exact absurd h hp
  | spin => exact nofun

theorem safe_ensure (c : Prop) [Decidable c] (e : ε) (s : σ) : (ensure c e : Prog σ ε Unit).Safe s := by
  by_cases h : c
  · exact safe_of_ret (ensure_pos h)
  · exact safe_of_err (ensure_neg h)

theorem safe_ensure_bind {c : Prop} [Decidable c] {e : ε} {f : Unit → Prog σ ε β} {s : σ}
    (hf : c → (f ()).Safe s) : (ensure c e >>= f).Safe s := by
  refine safe_bind (safe_ensure c e s) fun _ s1 h => ?_
  obtain ⟨hc, rfl⟩ := ensure_ret_inv h
  exact hf hc

theorem safe_attempt {p : Prog σ ε α} {s : σ} (h : p.Safe s) :
    (attempt p : Prog σ ε' (Except ε α)).Safe s := by
  cases hp : p s with
  | ret a s1 => exact safe_of_ret (attempt_of_ret hp)
  | err e s1 => exact safe_of_ret (attempt_of_err hp)
  | fault => exact absurd hp h
  | spin => rw [Safe, attempt, hp]; simp

theorem safe_orFail {p : Prog σ ε α} {s : σ} (e : ε') (h : p.Safe s) : (orFail p e).Safe s := by
  cases hp : p s with
  | ret a s1 => exact safe_of_ret (orFail_of_ret e hp)
  | err e' s1 => exact safe_of_err (orFail_of_err e hp)
  | fault => exact absurd hp h
  | spin => rw [Safe, orFail, hp]; simp

/-- What an attempt reports. -/
theorem attempt_ret_inv {p : Prog σ ε α} {s s1 : σ} {r : Except ε α}
    (h : (attempt p : Prog σ ε' _) s = .ret r s1) :
    (∃ a, r = .ok a ∧ p s = .ret a s1) ∨ (∃ e, r = .error e ∧ p s = .err e s1) := by
  unfold attempt at h
  cases hp : p s with
  | ret a t => rw [hp] at h; cases h; exact Or.inl ⟨a, rfl, rfl⟩
  | err e t => rw [hp] at h; cases h; exact Or.inr ⟨e, rfl, rfl⟩
  | fault => rw [hp] at h; cases h
  | spin => rw [hp] at h; cases h

/-- **Loop rule.**  A loop whose rounds are safe and keep `I` is safe. -/
theorem safe_iterate {γ : Type} {body : β → Prog σ ε (γ ⊕ β)} (I : β → σ → Prop)
    (hsafe : ∀ b s, I b s → (body b).Safe s)
    (hkeep : ∀ b s b' s', I b s → body b s = .ret (.inr b') s' → I b' s') :
    ∀ n b s, I b s → (iterate body n b).Safe s := by
  intro n
  induction n with
  | zero => intro b s _; exact nofun
  | succ n ih =>
    intro b s hI
    refine safe_bind (hsafe b s hI) fun r s1 hr => ?_
    cases r with
    | inl c => exact safe_pure c s1
    | inr b' => exact ih b' s1 (hkeep b s b' s1 hI hr)

/-- `for (b : bs) f(b);` -/
def forEach (f : β → Prog σ ε Unit) : List β → Prog σ ε Unit
  | [] => pure ()
  | b :: bs => do
    f b
    forEach f bs

variable {f : β → Prog σ ε Unit}

/-- **For rule.**  `I done s` is what holds after the elements `done`. -/
theorem forEach_rule (I : List β → σ → Prop) (bs : List β) {s : σ} (h0 : I [] s)
    (step : ∀ done b s, b ∈ bs → I done s → ∃ s', f b s = .ret () s' ∧ I (done ++ [b]) s') :
    ∃ s', forEach f bs s = .ret () s' ∧ I bs s' := by
  suffices h : ∀ rest done s, (∀ b ∈ rest, b ∈ bs) → I done s →
      ∃ s', forEach f rest s = .ret () s' ∧ I (done ++ rest) s' by
    simpa using h bs [] s (fun _ hb => hb) h0
  intro rest
  induction rest with
  | nil => intro done s _ hI; exact ⟨s, rfl, by simpa using hI⟩
  | cons b rest ih =>
    intro done s hsub hI
    obtain ⟨s1, h1, hI1⟩ := step done b s (hsub b (by simp)) hI
    obtain ⟨s2, h2, hI2⟩ := ih (done ++ [b]) s1 (fun c hc => hsub c (by simp [hc])) hI1
    exact ⟨s2, by rw [forEach, bind_of_ret h1, h2], by simpa using hI2⟩

theorem frames_forEach {ν : Type} {view : σ → ν} (bs : List β) (hf : ∀ b, (f b).Frames view) :
    (forEach f bs).Frames view := by
  induction bs with
  | nil => exact frames_pure ()
  | cons b bs ih => exact frames_bind (hf b) fun _ => ih

/-- What every round of a `for` loop keeps, the loop keeps. -/
theorem does_forEach (I : σ → Prop) {bs : List β} {s : σ} (h0 : I s)
    (step : ∀ b s, b ∈ bs → I s → (f b).Does s I) : (forEach f bs).Does s I := by
  induction bs generalizing s with
  | nil => exact does_pure h0
  | cons b bs ih =>
    have hb : (f b).Does s I := step b s (by simp) h0
    refine does_bind (fun _ s1 h1 => ?_) (fun e s1 h1 => hb s1 (by rw [h1]; rfl))
    exact ih (hb s1 (by rw [h1]; rfl)) fun c s hc => step c s (by simp [hc])

/-- A `for` loop that returns has returned from every round. -/
theorem forEach_ret_inv {bs : List β} {s s' : σ} {u : Unit} (h : forEach f bs s = .ret u s') :
    ∀ b ∈ bs, ∃ s1 s2, f b s1 = .ret () s2 := by
  induction bs generalizing s with
  | nil => simp
  | cons b bs ih =>
    obtain ⟨_, s1, h1, h2⟩ := bind_ret_inv h
    intro c hc
    rcases List.mem_cons.mp hc with rfl | hc
    · exact ⟨s, s1, h1⟩
    · exact ih h2 c hc

end Prog

end Lib
