import Mathlib.Logic.Function.Basic
import Sfxge.Lib.Run

/-!
# Rx.Timer — the poll timer of a receive queue

`sfxge_rx_qpoll` registers itself again and stores the id of the new callback; `sfxge_rx_qpoll_start` stores the
first id, and `sfxge_rx_qpoll_stop` cancels ids until the stored one stops changing, all without a common lock.
Every access to `sr_tid` is a step of its own.  A callback is registered by `timeout` before its id is stored, and
may run at once.
-/

namespace Sfxge.Rx.Timer

open Lib

/-- A callback, by its id. -/
inductive Callback
  | absent
  | pending
  /-- `sfxge_rx_qpoll` runs, and has yet to call `timeout`. -/
  | entered
  /-- It has registered the callback `next`, and is about to store this id, which is the last it does. -/
  | rearmed (next : ℕ)
  deriving Repr, DecidableEq

/-- The callback has yet to hand over to another. -/
def Callback.live : Callback → Bool
  | .pending | .entered => true
  | .absent | .rearmed _ => false

def Callback.running : Callback → Bool
  | .entered | .rearmed _ => true
  | .absent | .pending => false

def Callback.isRearmed : Callback → Bool
  | .rearmed _ => true
  | .absent | .pending | .entered => false

/-- Where the thread that starts and stops the queue stands. -/
inductive Ctl
  | stopped
  /-- `sfxge_rx_qpoll_start`, before `timeout` -/
  | starting
  /-- before `tid` is stored -/
  | storing (tid : ℕ)
  | started
  /-- `sfxge_rx_qpoll_stop`, before `srp->sr_tid != 0` and before `srp->sr_tid != tid` -/
  | test (tid : ℕ)
  | compare (tid : ℕ)
  /-- before `tid = srp->sr_tid` -/
  | load
  /-- in `untimeout` -/
  | cancel (tid : ℕ)
  /-- before `srp->sr_tid = 0` -/
  | clear
  /-- `sfxge_rx_qpoll_stop` has returned. -/
  | halted
  deriving Repr, DecidableEq

/-- A receive queue; `srStarted` when `sr_state` is `SFXGE_RXQ_STARTED`, and `fresh` is the next id. -/
structure Sys where
  ctl : Ctl
  srStarted : Bool
  srTid : ℕ
  callback : ℕ → Callback
  fresh : ℕ

namespace Sys

variable (s : Sys)

def goto (ctl : Ctl) : Sys := { s with ctl := ctl }

def set (id : ℕ) (c : Callback) : Sys := { s with callback := Function.update s.callback id c }

/-- `timeout` -/
def timeout : Sys := { s.set s.fresh .pending with fresh := s.fresh + 1 }

def store (tid : ℕ) : Sys := { s with srTid := tid }

/-- The thread that starts and stops the queue moves on; in `untimeout` it waits for a callback that runs. -/
def thread : Option Sys := match s.ctl with
  | .stopped => some { s.goto .starting with srStarted := true }
  | .starting => some (s.timeout.goto (.storing s.fresh))
  | .storing tid => some ((s.store tid).goto .started)
  | .started => some (s.goto (.test 0))
  | .test tid => some (s.goto (if s.srTid ≠ 0 then .compare tid else .clear))
  | .compare tid => some (s.goto (if s.srTid ≠ tid then .load else .clear))
  | .load => some (s.goto (.cancel s.srTid))
  | .cancel tid => match s.callback tid with
    | .absent => some (s.goto (.test tid))
    | .pending => some ((s.set tid .absent).goto (.test tid))
    | .entered | .rearmed _ => none
  | .clear => some ((s.store 0).goto .halted)
  | .halted => some { s.goto .stopped with srStarted := false }

/-- `sfxge_rx_qpoll`; in the wrong state it returns. -/
def qpoll (id : ℕ) : Option Sys := match s.callback id with
  | .entered => if s.srStarted then some (s.timeout.set id (.rearmed s.fresh)) else some (s.set id .absent)
  | .rearmed next => some ((s.set id .absent).store next)
  | .absent | .pending => none

end Sys

inductive Op
  | thread
  /-- The callback is called. -/
  | fire (id : ℕ)
  | qpoll (id : ℕ)
  deriving Repr, DecidableEq

def step : Op → Sys → Option Sys
  | .thread, s => s.thread
  | .fire id, s => if s.callback id = .pending then some (s.set id .entered) else none
  | .qpoll id, s => s.qpoll id

/-- No id is zero. -/
def Sys.init : Sys := ⟨.stopped, false, 0, fun _ => .absent, 1⟩

/-! ### One chain of callbacks -/

/-- The queue's timer is not running: it has not been started, or `sfxge_rx_qpoll_stop` has returned. -/
def Ctl.off : Ctl → Bool
  | .stopped | .starting | .halted => true
  | _ => false

/-- Of the callbacks one at most has yet to hand over, there is none when `sfxge_rx_qpoll_stop` has returned, and
none runs when the queue is not started. -/
def Kept (s : Sys) : Prop :=
  (∀ i j, (s.callback i).live = true → (s.callback j).live = true → i = j) ∧
    (s.ctl.off = true → ∀ i, s.callback i = .absent) ∧ ∀ i, (s.callback i).running = true → s.srStarted = true

/-- The ids are stored in the order in which they are registered: a callback does not store its successor's before
its own has been. -/
def Ordered : Op → Sys → Prop
  | .qpoll id, s => (s.callback id).isRearmed = true →
    s.ctl ≠ .storing id ∧ ∀ j < s.fresh, s.callback j ≠ .rearmed id
  | _, _ => True

instance : ∀ o s, Decidable (Ordered o s)
  | .qpoll id, s => inferInstanceAs (Decidable ((s.callback id).isRearmed = true →
    s.ctl ≠ .storing id ∧ ∀ j < s.fresh, s.callback j ≠ .rearmed id))
  | .thread, _ | .fire _, _ => inferInstanceAs (Decidable True)

/-- The ids of a started queue, from `first` to `last`: those below `unstored` have been stored, and the callbacks
that registered the others are about to store them. -/
structure Chain (s : Sys) (first unstored last : ℕ) : Prop where
  fresh : s.fresh = last + 1
  le : 1 ≤ first ∧ first ≤ unstored ∧ unstored ≤ last + 1 ∧ first ≤ last
  started : s.srStarted = true
  live : (s.callback last).live = true
  rearmed : ∀ k, first ≤ k → unstored ≤ k + 1 → k < last → s.callback k = .rearmed (k + 1)
  absent : ∀ k, k < first ∨ k + 1 < unstored ∨ last < k → s.callback k = .absent
  tid : first < unstored → s.srTid + 1 = unstored
  starter : first = unstored ↔ s.ctl = .storing first

/-- How far `sfxge_rx_qpoll_stop` can have come with the chain unbroken. -/
def Ctl.Follows (first tid : ℕ) : Ctl → Prop
  | .storing t => t = first
  | .started | .load => True
  | .test t | .compare t => t < tid
  | .cancel t => first ≤ t ∧ t ≤ tid
  | .stopped | .starting | .clear | .halted => False

/-- A queue that is stopped, or has one chain of callbacks, or has had its last callback cancelled. -/
inductive Linked (s : Sys) : Prop
  | off : s.ctl.off = true → 1 ≤ s.fresh → (∀ i, s.callback i = .absent) → Linked s
  | on (first unstored last : ℕ) : Chain s first unstored last → s.ctl.Follows first s.srTid → Linked s
  | cut : s.srTid ≠ 0 → (s.ctl = .test s.srTid ∨ s.ctl = .compare s.srTid ∨ s.ctl = .clear) → 1 ≤ s.fresh →
      (∀ i, s.callback i = .absent) → Linked s

variable {s s' : Sys} {first unstored last : ℕ}

theorem Chain.not_live (h : Chain s first unstored last) {k : ℕ} (hk : k ≠ last) : (s.callback k).live = false := by
  by_cases hmid : first ≤ k ∧ unstored ≤ k + 1 ∧ k < last
  · rw [h.rearmed k hmid.1 hmid.2.1 hmid.2.2]
    rfl
  · rw [h.absent k (by omega)]
    rfl

theorem Chain.eq_last (h : Chain s first unstored last) {k : ℕ} (hlive : (s.callback k).live = true) : k = last := by
  by_contra hk
  rw [h.not_live hk] at hlive
  cases hlive

theorem Ctl.Follows.not_off {c : Ctl} {tid : ℕ} (h : c.Follows first tid) : c.off = false := by
  cases c with
  | stopped => exact h.elim
  | starting => exact h.elim
  | halted => exact h.elim
  | storing t => rfl
  | started => rfl
  | test t => rfl
  | compare t => rfl
  | load => rfl
  | cancel t => rfl
  | clear => rfl

theorem Linked.kept (h : Linked s) : Kept s := by
  cases h with
  | off hoff _ habs =>
    refine ⟨fun i j hi => ?_, fun _ => habs, fun i hi => ?_⟩
    · rw [habs] at hi
      cases hi
    · rw [habs] at hi
      cases hi
  | on first unstored last hc hf =>
    refine ⟨fun i j hi hj => (hc.eq_last hi).trans (hc.eq_last hj).symm, fun hoff => ?_, fun _ _ => hc.started⟩
    rw [hf.not_off] at hoff
    cases hoff
  | cut _ hctl _ habs =>
    refine ⟨fun i j hi => ?_, fun _ => habs, fun i hi => ?_⟩
    · rw [habs] at hi
      cases hi
    · rw [habs] at hi
      cases hi

/-- Only the thread has moved on. -/
theorem Chain.goto (h : Chain s first unstored last) {ctl : Ctl} (hlt : first < unstored)
    (hctl : ctl ≠ .storing first) : Chain (s.goto ctl) first unstored last :=
  ⟨h.fresh, h.le, h.started, h.live, h.rearmed, h.absent, h.tid,
    iff_of_false (by omega) hctl⟩

/-- The starter is past its store. -/
theorem Chain.lt (h : Chain s first unstored last) (hctl : s.ctl ≠ .storing first) : first < unstored := by
  have hne : first ≠ unstored := fun heq => hctl (h.starter.mp heq)
  have := h.le
  omega

/-- The first callback is registered. -/
theorem chain_first (hfresh : 1 ≤ s.fresh) (hstarted : s.srStarted = true) (habs : ∀ i, s.callback i = .absent) :
    Chain (s.timeout.goto (.storing s.fresh)) s.fresh s.fresh s.fresh := by
  refine ⟨rfl, by omega, hstarted, ?_, fun k h1 _ h3 => absurd h1 (by omega), fun k hk => ?_,
    fun h => absurd h (lt_irrefl _), iff_of_true rfl rfl⟩
  · show (Function.update s.callback s.fresh .pending s.fresh).live = true
    rw [Function.update_self]
    rfl
  · show Function.update s.callback s.fresh .pending k = .absent
    rw [Function.update_of_ne (by omega), habs]

/-- The starter stores the first id. -/
theorem Chain.store_first (h : Chain s first unstored last) (hctl : s.ctl = .storing first) :
    Chain ((s.store first).goto .started) first (first + 1) last := by
  have heq := h.starter.mpr hctl
  have hle := h.le
  refine ⟨h.fresh, by omega, h.started, h.live, fun k h1 h2 h3 => ?_, fun k hk => h.absent k (by omega), fun _ => rfl,
    iff_of_false (by omega) nofun⟩
  exact h.rearmed k h1 (by omega) h3

/-- The last callback is called. -/
theorem Chain.fire (h : Chain s first unstored last) : Chain (s.set last .entered) first unstored last := by
  have hle := h.le
  refine ⟨h.fresh, h.le, h.started, ?_, fun k h1 h2 h3 => ?_, fun k hk => ?_, h.tid, h.starter⟩
  · show (Function.update s.callback last .entered last).live = true
    rw [Function.update_self]
    rfl
  · show Function.update s.callback last .entered k = _
    rw [Function.update_of_ne (by omega)]
    exact h.rearmed k h1 h2 h3
  · show Function.update s.callback last .entered k = _
    rw [Function.update_of_ne (by omega)]
    exact h.absent k hk

/-- The last callback registers the next. -/
theorem Chain.rearm (h : Chain s first unstored last) :
    Chain (s.timeout.set last (.rearmed s.fresh)) first unstored (last + 1) := by
  have hle := h.le
  have hfresh := h.fresh
  have hcb : ∀ k, (s.timeout.set last (.rearmed s.fresh)).callback k =
      if k = last then .rearmed (last + 1) else if k = last + 1 then .pending else s.callback k := by
    intro k
    show Function.update (Function.update s.callback s.fresh .pending) last (.rearmed s.fresh) k = _
    rw [hfresh]
    by_cases hk : k = last
    · rw [hk, Function.update_self, if_pos rfl]
    · rw [Function.update_of_ne hk, if_neg hk]
      by_cases hk1 : k = last + 1
      · rw [hk1, Function.update_self, if_pos rfl]
      · rw [Function.update_of_ne hk1, if_neg hk1]
  refine ⟨congrArg (· + 1) hfresh, by omega, h.started, ?_, fun k h1 h2 h3 => ?_, fun k hk => ?_, h.tid, h.starter⟩
  · rw [hcb, if_neg (by omega), if_pos rfl]
    rfl
  · rw [hcb]
    by_cases hk : k = last
    · rw [if_pos hk, hk]
    · rw [if_neg hk, if_neg (by omega)]
      exact h.rearmed k h1 h2 (by omega)
  · rw [hcb, if_neg (by omega), if_neg (by omega)]
    exact h.absent k (by omega)

/-- A callback stores the id of its successor, which is the next to be stored. -/
theorem Chain.store (h : Chain s first unstored last) {k next : ℕ} (hk : s.callback k = .rearmed next)
    (hctl : s.ctl ≠ .storing k) (hprev : ∀ j < s.fresh, s.callback j ≠ .rearmed k) :
    next = unstored ∧ k + 1 = unstored ∧ first < unstored ∧
      Chain ((s.set k .absent).store next) first (unstored + 1) last := by
  have hle := h.le
  have hfresh := h.fresh
  have hne : k ≠ last := by
    rintro rfl
    have hlive := h.live
    rw [hk] at hlive
    cases hlive
  have hmid : first ≤ k ∧ unstored ≤ k + 1 ∧ k < last := by
    by_contra hno
    rw [h.absent k (by omega)] at hk
    cases hk
  have hnext : next = k + 1 := by
    have := (h.rearmed k hmid.1 hmid.2.1 hmid.2.2).symm.trans hk
    cases this
    rfl
  have hunstored : k + 1 = unstored := by
    by_contra hlt
    have hle' : unstored ≤ k := by omega
    by_cases hfirst : k = first
    · exact hctl (hfirst ▸ h.starter.mp (by omega))
    · obtain ⟨j, rfl⟩ : ∃ j, k = j + 1 := ⟨k - 1, by omega⟩
      exact hprev j (by omega) (h.rearmed j (by omega) (by omega) (by omega))
  have hfirst : first < unstored := by omega
  have hcb : ∀ i, i ≠ k → ((s.set k .absent).store next).callback i = s.callback i :=
    fun i hi => Function.update_of_ne hi _ _
  refine ⟨by omega, hunstored, hfirst, h.fresh, by omega, h.started, ?_, fun i h1 h2 h3 => ?_, fun i hi => ?_,
    fun _ => ?_, iff_of_false (by omega) fun hs => ?_⟩
  · rw [hcb last (Ne.symm hne)]
    exact h.live
  · rw [hcb i (by omega)]
    exact h.rearmed i h1 (by omega) h3
  · by_cases hik : i = k
    · rw [hik]
      exact Function.update_self ..
    · rw [hcb i hik]
      exact h.absent i (by omega)
  · show next + 1 = unstored + 1
    omega
  · have := h.starter.mpr hs
    omega

/-- The last callback is cancelled by its id, and there is none left. -/
theorem Chain.cancel (h : Chain s first unstored last) {tid : ℕ} (hlt : first < unstored) (hle : tid ≤ s.srTid)
    (hpend : s.callback tid = .pending) : s.srTid = tid ∧ ∀ i, (s.set tid .absent).callback i = .absent := by
  have hlast : tid = last := h.eq_last (by rw [hpend]; rfl)
  have htid := h.tid hlt
  have hle' := h.le
  refine ⟨by omega, fun i => ?_⟩
  show Function.update s.callback tid .absent i = .absent
  by_cases hi : i = tid
  · rw [hi, Function.update_self]
  · rw [Function.update_of_ne hi]
    exact h.absent i (by omega)

/-- A callback that is gone has stored the id of its successor. -/
theorem Chain.gone (h : Chain s first unstored last) {tid : ℕ} (hlt : first < unstored) (hfirst : first ≤ tid)
    (hle : tid ≤ s.srTid) (habs : s.callback tid = .absent) : tid < s.srTid := by
  have htid := h.tid hlt
  have hle' := h.le
  by_contra hge
  have hlast : tid ≠ last := by
    rintro rfl
    have hlive := h.live
    rw [habs] at hlive
    cases hlive
  rw [h.rearmed tid hfirst (by omega) (by omega)] at habs
  cases habs

theorem Ctl.Follows.mono {c : Ctl} {tid tid' : ℕ} (h : c.Follows first tid) (hle : tid ≤ tid') :
    c.Follows first tid' := by
  cases c with
  | test t => exact lt_of_lt_of_le h hle
  | compare t => exact lt_of_lt_of_le h hle
  | cancel t => exact ⟨h.1, h.2.trans hle⟩
  | _ => exact h

/-! ### Steps and runs -/

theorem thread_off (hoff : s.ctl.off = true) (hfresh : 1 ≤ s.fresh) (habs : ∀ i, s.callback i = .absent)
    (hstarted : s.ctl = .starting → s.srStarted = true) (hs : s.thread = some s') : Linked s' := by
  unfold Sys.thread at hs
  cases hctl : s.ctl with
  | stopped =>
    rw [hctl] at hs
    cases hs
    exact .off rfl hfresh habs
  | starting =>
    rw [hctl] at hs
    cases hs
    exact .on s.fresh s.fresh s.fresh (chain_first hfresh (hstarted hctl) habs) rfl
  | halted =>
    rw [hctl] at hs
    cases hs
    exact .off rfl hfresh habs
  | storing t => rw [hctl] at hoff; cases hoff
  | started => rw [hctl] at hoff; cases hoff
  | test t => rw [hctl] at hoff; cases hoff
  | compare t => rw [hctl] at hoff; cases hoff
  | load => rw [hctl] at hoff; cases hoff
  | cancel t => rw [hctl] at hoff; cases hoff
  | clear => rw [hctl] at hoff; cases hoff

theorem thread_on (hc : Chain s first unstored last) (hf : s.ctl.Follows first s.srTid) (hs : s.thread = some s') :
    Linked s' := by
  have hle := hc.le
  have hgo : s.ctl ≠ .storing first → first < unstored ∧ first ≤ s.srTid ∧ s.srTid ≠ 0 := by
    intro hne
    have hlt := hc.lt hne
    have := hc.tid hlt
    exact ⟨hlt, by omega, by omega⟩
  unfold Sys.thread at hs
  cases hctl : s.ctl with
  | stopped => rw [hctl] at hf; exact hf.elim
  | starting => rw [hctl] at hf; exact hf.elim
  | halted => rw [hctl] at hf; exact hf.elim
  | clear => rw [hctl] at hf; exact hf.elim
  | storing t =>
    rw [hctl] at hs hf
    cases hs
    cases hf
    exact .on first (first + 1) last (hc.store_first hctl) trivial
  | started =>
    obtain ⟨hlt, -, hne⟩ := hgo (by rw [hctl]; exact nofun)
    rw [hctl] at hs
    cases hs
    exact .on first unstored last (hc.goto hlt nofun) (Nat.pos_of_ne_zero hne)
  | test t =>
    obtain ⟨hlt, -, hne⟩ := hgo (by rw [hctl]; exact nofun)
    rw [hctl] at hs hf
    cases hs
    rw [if_pos hne]
    exact .on first unstored last (hc.goto hlt nofun) hf
  | compare t =>
    obtain ⟨hlt, -, -⟩ := hgo (by rw [hctl]; exact nofun)
    rw [hctl] at hs hf
    cases hs
    rw [if_pos (Nat.ne_of_gt hf)]
    exact .on first unstored last (hc.goto hlt nofun) trivial
  | load =>
    obtain ⟨hlt, hfirst, -⟩ := hgo (by rw [hctl]; exact nofun)
    rw [hctl] at hs
    cases hs
    exact .on first unstored last (hc.goto hlt nofun) ⟨hfirst, le_rfl⟩
  | cancel t =>
    obtain ⟨hlt, -, hne⟩ := hgo (by rw [hctl]; exact nofun)
    rw [hctl] at hs hf
    dsimp only at hs
    split at hs
    · rename_i habs
      cases hs
      exact .on first unstored last (hc.goto hlt nofun) (hc.gone hlt hf.1 hf.2 habs)
    · rename_i hpend
      cases hs
      obtain ⟨htid, habs⟩ := hc.cancel hlt hf.2 hpend
      refine .cut hne (Or.inl ?_) (show 1 ≤ s.fresh by rw [hc.fresh]; omega) habs
      rw [← htid]
      rfl
    · cases hs
    · cases hs

theorem thread_linked (h : Linked s) (hstarted : s.ctl = .starting → s.srStarted = true)
    (hs : s.thread = some s') : Linked s' := by
  cases h with
  | off hoff hfresh habs => exact thread_off hoff hfresh habs hstarted hs
  | on first unstored last hc hf => exact thread_on hc hf hs
  | cut htid hctl hfresh habs =>
    unfold Sys.thread at hs
    rcases hctl with hctl | hctl | hctl <;> rw [hctl] at hs
    · cases hs
      exact .cut htid (Or.inr (Or.inl (if_pos htid))) hfresh habs
    · cases hs
      exact .cut htid (Or.inr (Or.inr (if_neg fun hne => hne rfl))) hfresh habs
    · cases hs
      exact .off rfl hfresh habs

/-- `sr_state` says whether the queue is started. -/
def StateKept (s : Sys) : Prop := s.srStarted = true ↔ s.ctl ≠ .stopped

theorem StateKept.goto (h : StateKept s) (hctl : s.ctl ≠ .stopped) (hstarted : s'.srStarted = s.srStarted)
    (hctl' : s'.ctl ≠ .stopped) : StateKept s' := by
  unfold StateKept at *
  rw [hstarted]
  exact iff_of_true (h.mpr hctl) hctl'

theorem thread_stateKept (h : StateKept s) (hs : s.thread = some s') : StateKept s' := by
  unfold Sys.thread at hs
  cases hctl : s.ctl with
  | stopped =>
    rw [hctl] at hs
    cases hs
    exact iff_of_true rfl nofun
  | halted =>
    rw [hctl] at hs
    cases hs
    exact iff_of_false nofun fun hne => hne rfl
  | test t =>
    rw [hctl] at hs
    cases hs
    refine h.goto (by rw [hctl]; exact nofun) rfl ?_
    show (if _ then _ else _) ≠ Ctl.stopped
    split_ifs <;> exact nofun
  | compare t =>
    rw [hctl] at hs
    cases hs
    refine h.goto (by rw [hctl]; exact nofun) rfl ?_
    show (if _ then _ else _) ≠ Ctl.stopped
    split_ifs <;> exact nofun
  | cancel t =>
    rw [hctl] at hs
    dsimp only at hs
    split at hs <;> cases hs
    · exact h.goto (by rw [hctl]; exact nofun) rfl nofun
    · exact h.goto (by rw [hctl]; exact nofun) rfl nofun
  | starting => rw [hctl] at hs; cases hs; exact h.goto (by rw [hctl]; exact nofun) rfl nofun
  | storing t => rw [hctl] at hs; cases hs; exact h.goto (by rw [hctl]; exact nofun) rfl nofun
  | started => rw [hctl] at hs; cases hs; exact h.goto (by rw [hctl]; exact nofun) rfl nofun
  | load => rw [hctl] at hs; cases hs; exact h.goto (by rw [hctl]; exact nofun) rfl nofun
  | clear => rw [hctl] at hs; cases hs; exact h.goto (by rw [hctl]; exact nofun) rfl nofun

theorem step_stateKept {o : Op} (h : StateKept s) (hs : step o s = some s') : StateKept s' := by
  cases o with
  | thread => exact thread_stateKept h hs
  | fire id =>
    simp only [step] at hs
    split_ifs at hs
    cases hs
    exact h
  | qpoll id =>
    simp only [step, Sys.qpoll] at hs
    split at hs
    · split_ifs at hs <;> cases hs <;> exact h
    · cases hs
      exact h
    · cases hs
    · cases hs

theorem step_linked (o : Op) (s s' : Sys) (h : Linked s ∧ StateKept s) (hC : Ordered o s) (hs : step o s = some s') :
    Linked s' ∧ StateKept s' := by
  obtain ⟨hl, hst⟩ := h
  refine ⟨?_, step_stateKept hst hs⟩
  cases o with
  | thread =>
    refine thread_linked hl (fun hctl => hst.mpr ?_) hs
    rw [hctl]
    exact nofun
  | fire id =>
    simp only [step] at hs
    split_ifs at hs with hpend
    cases hs
    cases hl with
    | off _ _ habs =>
      rw [habs] at hpend
      cases hpend
    | cut _ _ _ habs =>
      rw [habs] at hpend
      cases hpend
    | on first unstored last hc hf =>
      cases hc.eq_last (k := id) (by rw [hpend]; rfl)
      exact .on first unstored id hc.fire hf
  | qpoll id =>
    simp only [step, Sys.qpoll] at hs
    cases hl with
    | off _ _ habs =>
      rw [habs] at hs
      cases hs
    | cut _ _ _ habs =>
      rw [habs] at hs
      cases hs
    | on first unstored last hc hf =>
      split at hs
      · rename_i hent
        rw [if_pos hc.started] at hs
        cases hs
        cases hc.eq_last (k := id) (by rw [hent]; rfl)
        exact .on first unstored (id + 1) hc.rearm hf
      · rename_i next hre
        cases hs
        obtain ⟨hctl, hprev⟩ := hC (by rw [hre]; rfl)
        obtain ⟨rfl, -, hlt, hc'⟩ := hc.store hre hctl hprev
        have htid := hc.tid hlt
        exact .on first (next + 1) last hc' (hf.mono (show s.srTid ≤ next by omega))
      · cases hs
      · cases hs

theorem linked_init : Linked .init ∧ StateKept .init :=
  ⟨.off rfl le_rfl fun _ => rfl, iff_of_false nofun fun h => h rfl⟩

/-- **The poll timer does not outlive its queue** in every run in which the ids are stored in order. -/
theorem timer_kept {os : List Op} (h : StepsAlong step Ordered os .init) : AlwaysAlong step Kept os .init :=
  alwaysAlong_of_steps step_linked (fun _ h => h.1.kept) os linked_init h

/-- A queue is started and its timer fires, rearms, and is stopped. -/
theorem timer_kept_once : AlwaysAlong step Kept ([.thread, .thread, .thread, .fire 1, .qpoll 1, .qpoll 1] ++
    List.replicate 10 .thread) .init :=
  timer_kept (by decide)

/-- The first callback has registered and stored the second before its own id is stored: `sfxge_rx_qpoll_stop` knows
only the first, and leaves the second pending. -/
theorem timer_outlives : ¬ AlwaysAlong step Kept ([.thread, .thread, .fire 1, .qpoll 1, .qpoll 1] ++
    List.replicate 10 .thread) .init := by
  intro h
  obtain ⟨s, hrun, hctl, hpend⟩ : ∃ s, runOps step ([.thread, .thread, .fire 1, .qpoll 1, .qpoll 1] ++
      List.replicate 10 .thread) .init = some s ∧ s.ctl = .stopped ∧ s.callback 2 = .pending :=
    exists_of_any (by decide)
  have habs := (h.last hrun).2.1 (by rw [hctl]; rfl) 2
  rw [hpend] at habs
  cases habs

end Sfxge.Rx.Timer
