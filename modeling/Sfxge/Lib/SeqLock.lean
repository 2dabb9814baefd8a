import Mathlib.Logic.Relation
import Mathlib.Data.Finset.Basic
import Mathlib.Tactic.Linarith

/-!
# Lib.SeqLock — a record published between two numbers

A publisher writes one number in front of a record, then the words of the record in any order, then the same
number behind it, word by word; the numbers increase.  A reader looks at one word at a time, each time at
whatever state the publisher has come to.  Between a look at which the number behind the record is `g` and a
later one at which the number in front still is `g`, every look at a word of the record sees generation `g`
(`Watched.word_eq`).
-/

namespace Lib.SeqLock

open Relation

variable {ι W : Type} [DecidableEq ι]

/-- Where a publisher keeps the two numbers and the record, and how a number is written in a word. -/
structure Layout (ι W : Type) where
  start : ι
  finish : ι
  body : Finset ι
  number : ℕ → W
  /-- every number is below `top` -/
  top : ℕ
  start_ne : start ≠ finish
  start_notMem : start ∉ body
  finish_notMem : finish ∉ body

/-- The memory, and how far the publisher is: the generation begun last, the one ended last, and the words it
has yet to write in between. -/
structure Publisher (ι W : Type) where
  begun : ℕ
  ended : ℕ
  left : Finset ι
  mem : ι → W

variable (L : Layout ι W) (data : ℕ → ι → W)

/-- One write of a publisher.  `data g` is the record of generation `g`. -/
inductive Step : Publisher ι W → Publisher ι W → Prop
  | begin {p : Publisher ι W} {g : ℕ} (hi : p.ended = p.begun) (hlt : p.begun < g) (htop : g < L.top) :
      Step p ⟨g, p.ended, L.body, Function.update p.mem L.start (L.number g)⟩
  | word {p : Publisher ι W} {i : ι} (hw : p.ended < p.begun) (hi : i ∈ L.body) :
      Step p ⟨p.begun, p.ended, p.left.erase i, Function.update p.mem i (data p.begun i)⟩
  | finish {p : Publisher ι W} (hw : p.ended < p.begun) (hl : p.left = ∅) :
      Step p ⟨p.begun, p.begun, ∅, Function.update p.mem L.finish (L.number p.begun)⟩

/-- Any number of writes. -/
abbrev Steps : Publisher ι W → Publisher ι W → Prop := ReflTransGen (Step L data)

/-- Generation `g` has been published, in a memory that is `rest` elsewhere. -/
def published (rest : ι → W) (g : ℕ) : Publisher ι W where
  begun := g
  ended := g
  left := ∅
  mem := fun i => if i = L.start ∨ i = L.finish then L.number g else if i ∈ L.body then data g i else rest i

/-- What the memory holds between two writes. -/
structure Coherent (p : Publisher ι W) : Prop where
  ended_le : p.ended ≤ p.begun
  begun_lt : p.begun < L.top
  start : p.mem L.start = L.number p.begun
  finish : p.mem L.finish = L.number p.ended
  words : ∀ i ∈ L.body, i ∉ p.left → p.mem i = data p.begun i
  idle : p.ended = p.begun → p.left = ∅

variable {L data} {p q r : Publisher ι W}

theorem published_coherent {rest : ι → W} {g : ℕ} (hg : g < L.top) : Coherent L data (published L data rest g) where
  ended_le := le_rfl
  begun_lt := hg
  start := by simp [published]
  finish := by simp [published]
  words := by
    intro i hi _
    have h1 : i ≠ L.start := fun h => L.start_notMem (h ▸ hi)
    have h2 : i ≠ L.finish := fun h => L.finish_notMem (h ▸ hi)
    simp [published, h1, h2, hi]
  idle := fun _ => rfl

theorem Coherent.step (h : Coherent L data p) (hs : Step L data p q) : Coherent L data q := by
  cases hs with
  | @begin g hi hlt htop =>
    refine ⟨by simp only; omega, htop, Function.update_self .., ?_, ?_, ?_⟩
    · exact (Function.update_of_ne L.start_ne.symm _ _).trans h.finish
    · exact fun i hi hn => absurd hi hn
    · intro he
      simp only at he
      omega
  | @word i hw hi =>
    have h1 : L.start ≠ i := fun e => L.start_notMem (e ▸ hi)
    have h2 : L.finish ≠ i := fun e => L.finish_notMem (e ▸ hi)
    refine ⟨h.ended_le, h.begun_lt, ?_, ?_, ?_, fun he => absurd he hw.ne⟩
    · exact (Function.update_of_ne h1 _ _).trans h.start
    · exact (Function.update_of_ne h2 _ _).trans h.finish
    · intro j hj hn
      by_cases hji : j = i
      · subst hji
        exact Function.update_self ..
      · exact (Function.update_of_ne hji _ _).trans
          (h.words j hj fun hm => hn (Finset.mem_erase.mpr ⟨hji, hm⟩))
  | finish hw hl =>
    refine ⟨le_rfl, h.begun_lt, ?_, Function.update_self .., ?_, fun _ => rfl⟩
    · exact (Function.update_of_ne L.start_ne _ _).trans h.start
    · intro i hi _
      have hne : i ≠ L.finish := fun e => L.finish_notMem (e ▸ hi)
      exact (Function.update_of_ne hne _ _).trans (h.words i hi (by simp [hl]))

theorem Coherent.steps (h : Coherent L data p) (hs : Steps L data p q) : Coherent L data q := by
  induction hs with
  | refl => exact h
  | tail _ hstep ih => exact ih.step hstep

theorem Step.mono (h : Coherent L data p) (hs : Step L data p q) : p.begun ≤ q.begun ∧ p.ended ≤ q.ended := by
  cases hs with
  | begin _ hlt _ => exact ⟨hlt.le, le_rfl⟩
  | word _ _ => exact ⟨le_rfl, le_rfl⟩
  | finish _ _ => exact ⟨le_rfl, h.ended_le⟩

theorem Coherent.mono (h : Coherent L data p) (hs : Steps L data p q) : p.begun ≤ q.begun ∧ p.ended ≤ q.ended := by
  induction hs with
  | refl => exact ⟨le_rfl, le_rfl⟩
  | tail hpq hstep ih =>
    obtain ⟨h1, h2⟩ := hstep.mono (h.steps hpq)
    exact ⟨ih.1.trans h1, ih.2.trans h2⟩

omit [DecidableEq ι] in
/-- Where the generation begun last has also been ended, the record is that generation. -/
theorem Coherent.word_eq (h : Coherent L data p) (hi : p.ended = p.begun) {i : ι} (hb : i ∈ L.body) :
    p.mem i = data p.begun i :=
  h.words i hb (by simp [h.idle hi])

/-! ### What a reader sees -/

/-- A reader takes looks at words.  `obs n i` is word `i` at look `n`; the reader begins at a look, and ends with
what it has found and the look that comes next. -/
def Reading (ι W α : Type) := (ℕ → ι → W) → ℕ → α × ℕ

instance : Monad (Reading ι W) where
  pure a := fun _ n => (a, n)
  bind p f := fun obs n => f (p obs n).1 obs (p obs n).2

/-- One look at word `i`, of which `f` is seen. -/
def look {β : Type} (i : ι) (f : W → β) : Reading ι W β := fun obs n => (f (obs n i), n + 1)

omit [DecidableEq ι] in
theorem Reading.bind_run {α β : Type} (p : Reading ι W α) (f : α → Reading ι W β) (obs : ℕ → ι → W) (n : ℕ) :
    (p >>= f) obs n = f (p obs n).1 obs (p obs n).2 := rfl

/-- The states of the publisher in which a reader takes its looks, one after the other. -/
structure Watched (L : Layout ι W) (data : ℕ → ι → W) where
  state : ℕ → Publisher ι W
  reached : ∃ rest g, g < L.top ∧ Steps L data (published L data rest g) (state 0)
  later : ∀ n, Steps L data (state n) (state (n + 1))

namespace Watched

variable (w : Watched L data) {n m k : ℕ}

/-- What the looks see. -/
def obs : ℕ → ι → W := fun n => (w.state n).mem

/-- A reader that begins with the first look. -/
def run {α : Type} (p : Reading ι W α) : α := (p w.obs 0).1

theorem coherent : Coherent L data (w.state 0) := by
  obtain ⟨rest, g, hg, hs⟩ := w.reached
  exact (published_coherent hg).steps hs

theorem steps (h : n ≤ m) : Steps L data (w.state n) (w.state m) := by
  induction m, h using Nat.le_induction with
  | base => exact .refl
  | succ m _ ih => exact ih.trans (w.later m)

theorem coherent_at (n : ℕ) : Coherent L data (w.state n) := w.coherent.steps (w.steps n.zero_le)

theorem begun_mono (h : n ≤ m) : (w.state n).begun ≤ (w.state m).begun :=
  ((w.coherent_at n).mono (w.steps h)).1

theorem ended_mono (h : n ≤ m) : (w.state n).ended ≤ (w.state m).ended :=
  ((w.coherent_at n).mono (w.steps h)).2

theorem ended_le_begun (h : n ≤ m) : (w.state n).ended ≤ (w.state m).begun :=
  (w.ended_mono h).trans (w.coherent_at m).ended_le

/-- **No torn look.**  The generation ended at look `n` is the one begun at look `k`: every look between them at
a word of the record sees that generation. -/
theorem word_eq (hnm : n ≤ m) (hmk : m ≤ k) (h : (w.state k).begun = (w.state n).ended) {i : ι} (hb : i ∈ L.body) :
    w.obs m i = data (w.state n).ended i := by
  have h1 := w.ended_mono hnm
  have h2 := w.begun_mono hmk
  have h3 := (w.coherent_at m).ended_le
  have hm : (w.state m).begun = (w.state n).ended := by omega
  rw [obs, (w.coherent_at m).word_eq (by omega) hb, hm]

theorem obs_start (n : ℕ) : w.obs n L.start = L.number (w.state n).begun := (w.coherent_at n).start

theorem obs_finish (n : ℕ) : w.obs n L.finish = L.number (w.state n).ended := (w.coherent_at n).finish

end Watched

/-! ### A whole generation -/

/-- The words yet to be written can be written. -/
theorem steps_words (hw : p.ended < p.begun) (hl : p.left ⊆ L.body) :
    Steps L data p ⟨p.begun, p.ended, ∅, fun i => if i ∈ p.left then data p.begun i else p.mem i⟩ := by
  obtain ⟨b, e, l, m⟩ := p
  dsimp only at hw hl ⊢
  induction l using Finset.induction_on generalizing m with
  | empty => simpa using ReflTransGen.refl
  | @insert i l hn ih =>
    have hstep : Step L data ⟨b, e, insert i l, m⟩
        ⟨b, e, (insert i l).erase i, Function.update m i (data b i)⟩ := .word hw (hl (Finset.mem_insert_self i l))
    rw [Finset.erase_insert hn] at hstep
    have hrest := ih (Function.update m i (data b i)) fun j hj => hl (Finset.mem_insert_of_mem hj)
    have hmem : (fun j => if j ∈ l then data b j else Function.update m i (data b i) j) =
        fun j => if j ∈ insert i l then data b j else m j := by
      funext j
      by_cases hji : j = i
      · subst hji
        simp [hn]
      · simp [Finset.mem_insert, hji]
    rw [hmem] at hrest
    exact hrest.head hstep

/-- A publisher that has published one generation can publish any later one. -/
theorem publish {rest : ι → W} {g g' : ℕ} (hlt : g < g') (htop : g' < L.top) :
    Steps L data (published L data rest g) (published L data rest g') := by
  obtain ⟨m, hm⟩ : ∃ m, m = Function.update (published L data rest g).mem L.start (L.number g') := ⟨_, rfl⟩
  have hbegin : Step L data (published L data rest g) ⟨g', g, L.body, m⟩ := hm ▸ .begin rfl hlt htop
  have hwords : Steps L data ⟨g', g, L.body, m⟩ ⟨g', g, ∅, fun i => if i ∈ L.body then data g' i else m i⟩ :=
    steps_words hlt (Finset.Subset.refl _)
  have hfinish : Step L data ⟨g', g, ∅, fun i => if i ∈ L.body then data g' i else m i⟩ ⟨g', g', ∅,
    Function.update (fun i => if i ∈ L.body then data g' i else m i) L.finish (L.number g')⟩ := .finish hlt rfl
  have hmem : Function.update (fun i => if i ∈ L.body then data g' i else m i) L.finish (L.number g') =
      (published L data rest g').mem := by
    funext i
    by_cases hf : i = L.finish
    · simp [published, hf]
    · by_cases hs : i = L.start
      · simp [published, hm, hs, L.start_ne, L.start_notMem]
      · by_cases hb : i ∈ L.body <;> simp [published, hm, hf, hs, hb]
  rw [hmem] at hfinish
  exact (hwords.tail hfinish).head hbegin

end Lib.SeqLock
