import Mathlib.Logic.Function.Basic
import Sfxge.Lib.Run
import Sfxge.Oword

/-!
# Nic.Restart — restart requests and the restart task

`sfxge_restart_dispatch` counts requests in `s_nested_restarts` and queues `_sfxge_restart` for the first
of them; the task runs under `s_state_lock`.  Both are cut at their accesses to what they share.  An event
handler asks for a restart with the `se_lock` of its queue held, which stopping the queue waits for.
-/

namespace Sfxge.Nic

open Lib

/-- `sfxge_state_t` -/
inductive NicState where
  | SFXGE_UNINITIALIZED
  | SFXGE_INITIALIZED
  | SFXGE_REGISTERED
  | SFXGE_STARTING
  | SFXGE_STARTED
  | SFXGE_STOPPING
  deriving Repr, DecidableEq

open NicState

/-- `sfxge_hw_err_t` -/
inductive HwErr where
  | SFXGE_HW_OK
  | SFXGE_HW_ERR
  deriving Repr, DecidableEq

open HwErr

/-- `sfxge_action_on_hw_err_t` -/
inductive ActionOnHwErr where
  | SFXGE_RECOVER
  | SFXGE_INVISIBLE
  | SFXGE_LEAVE_DEAD
  deriving Repr, DecidableEq

open ActionOnHwErr

/-- `sfxge_evq_state_t` -/
inductive EvqState where
  | SFXGE_EVQ_UNINITIALIZED
  | SFXGE_EVQ_INITIALIZED
  | SFXGE_EVQ_STARTING
  | SFXGE_EVQ_STARTED
  deriving Repr, DecidableEq

open EvqState

/-- What `sfxge_evq_t` has to do with restarts; `seLock` is held by an event handler. -/
structure Evq where
  seState : EvqState
  seException : Bool
  seLock : Bool
  deriving Repr, DecidableEq

/-- `sfxge_ev_qpoll` handles the events of queues that are starting or started. -/
def Evq.polled (sep : Evq) : Bool := sep.seState = SFXGE_EVQ_STARTING ∨ sep.seState = SFXGE_EVQ_STARTED

/-- `sfxge_ev_qstop` -/
def Evq.qstop (sep : Evq) : Evq :=
  { sep with
    seState := SFXGE_EVQ_INITIALIZED
    seException := false }

/-- `sep->se_exception = B_TRUE`, by a handler that keeps the lock or lets it go. -/
def Evq.except (lock : Bool) (sep : Evq) : Evq :=
  { sep with
    seException := true
    seLock := lock }

def Evq.release (sep : Evq) : Evq := { sep with seLock := false }

def Evq.enter (seState : EvqState) (sep : Evq) : Evq := { sep with seState := seState }

/-- Where a call of `sfxge_restart_dispatch` stands. -/
inductive Stage where
  /-- before `sp->s_hw_err = hw_err` -/
  | mark
  /-- before `atomic_inc_32_nv` -/
  | count
  /-- before `ddi_taskq_dispatch` -/
  | dispatch
  deriving Repr, DecidableEq

/-- A call of `sfxge_restart_dispatch`; `evq` is the queue of the event handler that makes it. -/
structure Call where
  sleep : Bool
  hwErr : HwErr
  evq : Option ℕ
  stage : Stage
  deriving Repr, DecidableEq

/-- Where `_sfxge_restart` stands, in `sfxge_stop_locked` and `sfxge_start_locked` at the event queues. -/
inductive Task where
  | idle
  | check
  /-- the event queues below `n` are to be stopped -/
  | stop (n : ℕ)
  /-- stopped; `s_hw_err` is looked at -/
  | judge
  | start
  | startEvq (index : ℕ)
  /-- `sfxge_ev_qstart` waits for the initialization event -/
  | waitEvq (index : ℕ)
  | finish
  /-- the start has failed; the event queues below `n` are to be stopped -/
  | undo (n : ℕ)
  /-- before `atomic_swap_32` -/
  | swap
  | exit
  deriving Repr, DecidableEq

/-- The adapter's part in restarts.  `queued` counts the restarts in the task queue and `calls` are the
calls in progress by thread.  Requests are numbered as they are counted: `made` have been made, `stopped`
of them before the last stop phase ended, and `served` of them before a stop phase that a start has
followed. -/
structure Sys where
  sState : NicState
  sHwErr : HwErr
  sNestedRestarts : U32
  queued : ℕ
  task : Task
  evqs : ℕ → Evq
  calls : ℕ → Option Call
  made : ℕ
  stopped : ℕ
  served : ℕ

/-- `si_nalloc` and `s_action_on_hw_err` -/
structure Config where
  nalloc : ℕ
  action : ActionOnHwErr
  deriving Repr, DecidableEq

inductive Op where
  /-- A thread calls `sfxge_restart_dispatch`. -/
  | call (t : ℕ) (sleep : Bool) (hwErr : HwErr)
  /-- `sfxge_ev_rx` gets an event out of order. -/
  | evRx (t index : ℕ)
  /-- `sfxge_ev_exception`; `sensor` when the code is `EFX_EXCEPTION_UNKNOWN_SENSOREVT` -/
  | evException (t index : ℕ) (sensor : Bool)
  /-- The call of a thread goes on; `ok` when the task queue has room. -/
  | go (t : ℕ) (ok : Bool)
  /-- The task queue's thread takes a restart. -/
  | take
  /-- The restart goes on; `ok` when its next part of the start succeeds. -/
  | run (ok : Bool)
  deriving Repr, DecidableEq

namespace Sys

/-- The adapter is started. -/
def init : Sys where
  sState := SFXGE_STARTED
  sHwErr := SFXGE_HW_OK
  sNestedRestarts := 0
  queued := 0
  task := .idle
  evqs _ := ⟨SFXGE_EVQ_STARTED, false, false⟩
  calls _ := none
  made := 0
  stopped := 0
  served := 0

/-- `sfxge_restart_dispatch` is entered. -/
def enter (t : ℕ) (sleep : Bool) (hwErr : HwErr) (evq : Option ℕ) (s : Sys) : Sys :=
  { s with calls := Function.update s.calls t (some ⟨sleep, hwErr, evq, .mark⟩) }

/-- A field of an event queue is written. -/
def onEvq (index : ℕ) (f : Evq → Evq) (s : Sys) : Sys :=
  { s with evqs := Function.update s.evqs index (f (s.evqs index)) }

/-- The call moves on. -/
def advance (t : ℕ) (c : Call) (stage : Stage) (s : Sys) : Sys :=
  { s with calls := Function.update s.calls t (some { c with stage := stage }) }

/-- The call returns, and with it the event handler that has made it. -/
def leave (t : ℕ) (c : Call) (s : Sys) : Sys :=
  let s := { s with calls := Function.update s.calls t none }
  match c.evq with
  | none => s
  | some index => s.onEvq index Evq.release

/-- `sfxge_restart_dispatch` -/
def goOn (t : ℕ) (ok : Bool) (s : Sys) : Option Sys :=
  match s.calls t with
  | none => none
  | some c =>
    match c.stage with
    | .mark =>
      if c.hwErr = SFXGE_HW_OK then some (s.advance t c .count)
      else some { s.advance t c .count with sHwErr := c.hwErr }
    | .count =>
      let nv := s.sNestedRestarts + 1
      let s := { s with
        sNestedRestarts := nv
        made := s.made + 1 }
      -- a restart is currently in progress
      if nv.toNat > 1 then some (s.leave t c) else some (s.advance t c .dispatch)
    | .dispatch =>
      if c.sleep ∨ ok then some { s.leave t c with queued := s.queued + 1 } else some (s.leave t c)

/-- `_sfxge_restart` -/
def runTask (cfg : Config) (ok : Bool) (s : Sys) : Option Sys :=
  match s.task with
  | .idle => none
  | .check =>
    if s.sState ≠ SFXGE_STARTED then some { s with task := .swap }
    else some { s with
      sState := SFXGE_STOPPING
      task := .stop cfg.nalloc }
  | .stop (n + 1) =>
    if (s.evqs n).seLock then none else some { s.onEvq n Evq.qstop with task := .stop n }
  | .stop 0 => some { s with
      sState := SFXGE_REGISTERED
      stopped := s.made
      task := .judge }
  | .judge =>
    if s.sHwErr ≠ SFXGE_HW_OK ∧ cfg.action = SFXGE_LEAVE_DEAD then some { s with task := .swap }
    else some { s with
      sHwErr := SFXGE_HW_OK
      task := .start }
  | .start =>
    if s.sState = SFXGE_STARTED then some { s with task := .swap }
    else if s.sState ≠ SFXGE_REGISTERED then some { s with task := .swap }
    else if ok then some { s with
      sState := SFXGE_STARTING
      task := .startEvq 0 }
    else some { s with
      sState := SFXGE_STARTING
      task := .undo 0 }
  | .startEvq index =>
    if index < cfg.nalloc then
      if ok then some { s.onEvq index (Evq.enter SFXGE_EVQ_STARTING) with task := .waitEvq index }
      else some { s with task := .undo index }
    else some { s with task := .finish }
  | .waitEvq index =>
    if (s.evqs index).seLock then none
    else if ok then some { s.onEvq index (Evq.enter SFXGE_EVQ_STARTED) with task := .startEvq (index + 1) }
    else some { s.onEvq index (Evq.enter SFXGE_EVQ_INITIALIZED) with task := .undo index }
  | .finish =>
    if ok then some { s with
      sState := SFXGE_STARTED
      served := s.stopped
      task := .swap }
    else some { s with task := .undo cfg.nalloc }
  | .undo (n + 1) =>
    if (s.evqs n).seLock then none else some { s.onEvq n Evq.qstop with task := .undo n }
  | .undo 0 => some { s with
      sState := SFXGE_REGISTERED
      task := .swap }
  | .swap => some { s with
      sNestedRestarts := 0
      task := .exit }
  | .exit => some { s with task := .idle }

/-- An event of queue `index` is being handled by thread `t`, which has nothing else to do. -/
def Handles (cfg : Config) (t index : ℕ) (s : Sys) : Prop :=
  index < cfg.nalloc ∧ (s.evqs index).polled ∧ (s.evqs index).seLock = false ∧ s.calls t = none

instance (cfg : Config) (t index : ℕ) (s : Sys) : Decidable (s.Handles cfg t index) :=
  inferInstanceAs (Decidable (_ ∧ _))

def step (cfg : Config) : Op → Sys → Option Sys
  | .call t sleep hwErr, s => if s.calls t = none then some (s.enter t sleep hwErr none) else none
  | .evRx t index, s =>
    if s.Handles cfg t index ∧ (s.evqs index).seException = false then
      some ((s.onEvq index (Evq.except true)).enter t true SFXGE_HW_ERR (some index))
    else none
  | .evException t index sensor, s =>
    if s.Handles cfg t index then
      if sensor then some (s.onEvq index (Evq.except false))
      else some ((s.onEvq index (Evq.except true)).enter t true SFXGE_HW_ERR (some index))
    else none
  | .go t ok, s => s.goOn t ok
  | .take, s =>
    if s.task = .idle ∧ 0 < s.queued then
      some { s with
        queued := s.queued - 1
        task := .check }
    else none
  | .run ok, s => s.runTask cfg ok

/-! ### What restarts are for -/

/-- The stop phase of the running restart has finished, and its requests are still counted. -/
def Stopped (s : Sys) : Prop :=
  match s.task with
  | .judge | .start | .startEvq _ | .waitEvq _ | .finish | .undo _ | .swap => True
  | _ => False

instance (s : Sys) : Decidable s.Stopped :=
  match h : s.task with
  | .judge | .start | .startEvq _ | .waitEvq _ | .finish | .undo _ | .swap =>
    isTrue (by rw [Stopped, h]; trivial)
  | .idle | .check | .stop _ | .exit => isFalse (by rw [Stopped, h]; exact id)

/-- A restart is queued, or about to be. -/
def Queued (s : Sys) : Prop := (∃ t c, s.calls t = some c ∧ c.stage = .dispatch) ∨ 0 < s.queued

/-- A restart has its stop phase before it or is in it. -/
def Due (s : Sys) : Prop := s.Queued ∨ s.task = .check ∨ ∃ n, s.task = .stop n

/-- No restart is queued or running, and none is being asked for. -/
def Quiescent (s : Sys) : Prop := s.task = .idle ∧ s.queued = 0 ∧ ∀ t, s.calls t = none

/-- While the adapter is up, every request made has been followed by a stop and a start or has a restart
to come; between restarts nothing is left that asked for one. -/
structure NoneLost (cfg : Config) (s : Sys) : Prop where
  followed : s.sState = SFXGE_STARTED → s.served < s.made → s.Due
  served : s.Quiescent → s.sState = SFXGE_STARTED → s.served = s.made
  hwErr : s.Quiescent → s.sState = SFXGE_STARTED → s.sHwErr = SFXGE_HW_OK
  exception : s.Quiescent → s.sState = SFXGE_STARTED → ∀ i < cfg.nalloc, (s.evqs i).seException = false

/-- A request is not merged into a restart whose stop phase has finished, the task queue has room for a
caller that does not wait, and no event queue gets an unknown sensor event. -/
def Heeded : Op → Sys → Prop
  | .go t ok, s =>
    match s.calls t with
    | none => True
    | some c =>
      match c.stage with
      | .mark => True
      | .count => ¬ (s.Stopped ∧ (s.sNestedRestarts + 1).toNat > 1)
      | .dispatch => c.sleep ∨ ok
  | .evException _ _ sensor, _ => sensor = false
  | _, _ => True

instance : ∀ o s, Decidable (Heeded o s)
  | .go t ok, s =>
    match h : s.calls t with
    | none => isTrue (by rw [Heeded, h]; trivial)
    | some c =>
      match hc : c.stage with
      | .mark => isTrue (by rw [Heeded, h]; simp [hc])
      | .count => decidable_of_iff (¬ (s.Stopped ∧ (s.sNestedRestarts + 1).toNat > 1))
          (by rw [Heeded, h]; simp [hc])
      | .dispatch => decidable_of_iff (c.sleep = true ∨ ok = true) (by rw [Heeded, h]; simp [hc])
  | .evException _ _ sensor, _ => inferInstanceAs (Decidable (sensor = false))
  | .call .., _ | .evRx .., _ | .take, _ | .run _, _ => isTrue trivial

variable {cfg : Config} {s s' : Sys}

/-! ### Steps -/

/-- What a restart does next. -/
inductive Ran (cfg : Config) (s : Sys) : Sys → Prop
  | skip : s.task = .check → s.sState ≠ SFXGE_STARTED → Ran cfg s { s with task := .swap }
  | check : s.task = .check → s.sState = SFXGE_STARTED →
      Ran cfg s { s with
        sState := SFXGE_STOPPING
        task := .stop cfg.nalloc }
  | stopEvq (n : ℕ) : s.task = .stop (n + 1) → (s.evqs n).seLock = false →
      Ran cfg s { s.onEvq n Evq.qstop with task := .stop n }
  | stop : s.task = .stop 0 →
      Ran cfg s { s with
        sState := SFXGE_REGISTERED
        stopped := s.made
        task := .judge }
  | leaveDead : s.task = .judge → Ran cfg s { s with task := .swap }
  | judge : s.task = .judge →
      Ran cfg s { s with
        sHwErr := SFXGE_HW_OK
        task := .start }
  | refuse : s.task = .start → s.sState ≠ SFXGE_REGISTERED → Ran cfg s { s with task := .swap }
  | start (task : Task) : s.task = .start → s.sState = SFXGE_REGISTERED → task = .startEvq 0 ∨ task = .undo 0 →
      Ran cfg s { s with
        sState := SFXGE_STARTING
        task := task }
  | startEvq (i : ℕ) : s.task = .startEvq i → i < cfg.nalloc →
      Ran cfg s { s.onEvq i (Evq.enter SFXGE_EVQ_STARTING) with task := .waitEvq i }
  | started (i : ℕ) : s.task = .waitEvq i → (s.evqs i).seLock = false →
      Ran cfg s { s.onEvq i (Evq.enter SFXGE_EVQ_STARTED) with task := .startEvq (i + 1) }
  | timeout (i : ℕ) : s.task = .waitEvq i → (s.evqs i).seLock = false →
      Ran cfg s { s.onEvq i (Evq.enter SFXGE_EVQ_INITIALIZED) with task := .undo i }
  | evqs (i : ℕ) : s.task = .startEvq i → Ran cfg s { s with task := .finish }
  | fail (n : ℕ) : s.task = .startEvq n ∨ s.task = .finish → Ran cfg s { s with task := .undo n }
  | finish : s.task = .finish →
      Ran cfg s { s with
        sState := SFXGE_STARTED
        served := s.stopped
        task := .swap }
  | undoEvq (n : ℕ) : s.task = .undo (n + 1) → (s.evqs n).seLock = false →
      Ran cfg s { s.onEvq n Evq.qstop with task := .undo n }
  | undo : s.task = .undo 0 →
      Ran cfg s { s with
        sState := SFXGE_REGISTERED
        task := .swap }
  | swap : s.task = .swap →
      Ran cfg s { s with
        sNestedRestarts := 0
        task := .exit }
  | exit : s.task = .exit → Ran cfg s { s with task := .idle }

theorem ran {ok : Bool} (h : s.runTask cfg ok = some s') : Ran cfg s s' := by
  unfold runTask at h
  cases htask : s.task with
  | idle => simp [htask] at h
  | check =>
    simp only [htask] at h
    split_ifs at h with hst <;> cases h
    · exact .skip htask hst
    · exact .check htask (Decidable.not_not.mp hst)
  | stop n =>
    cases n with
    | zero =>
      simp only [htask] at h
      cases h
      exact .stop htask
    | succ n =>
      simp only [htask] at h
      split_ifs at h with hlock
      cases h
      exact .stopEvq n htask (Bool.eq_false_iff.mpr hlock)
  | judge =>
    simp only [htask] at h
    split_ifs at h <;> cases h
    · exact .leaveDead htask
    · exact .judge htask
  | start =>
    simp only [htask] at h
    split_ifs at h with hst hreg hok <;> cases h
    · exact .refuse htask (by rw [hst]; exact nofun)
    · exact .refuse htask hreg
    · exact .start _ htask (Decidable.not_not.mp hreg) (Or.inl rfl)
    · exact .start _ htask (Decidable.not_not.mp hreg) (Or.inr rfl)
  | startEvq i =>
    simp only [htask] at h
    split_ifs at h with hi hok <;> cases h
    · exact .startEvq i htask hi
    · exact .fail i (Or.inl htask)
    · exact .evqs i htask
  | waitEvq i =>
    simp only [htask] at h
    split_ifs at h with hlock hok <;> cases h
    · exact .started i htask (Bool.eq_false_iff.mpr hlock)
    · exact .timeout i htask (Bool.eq_false_iff.mpr hlock)
  | finish =>
    simp only [htask] at h
    split_ifs at h <;> cases h
    · exact .finish htask
    · exact .fail _ (Or.inr htask)
  | undo n =>
    cases n with
    | zero =>
      simp only [htask] at h
      cases h
      exact .undo htask
    | succ n =>
      simp only [htask] at h
      split_ifs at h with hlock
      cases h
      exact .undoEvq n htask (Bool.eq_false_iff.mpr hlock)
  | swap =>
    simp only [htask] at h
    cases h
    exact .swap htask
  | exit =>
    simp only [htask] at h
    cases h
    exact .exit htask

/-- What a call does next. -/
inductive Went (t : ℕ) (c : Call) (ok : Bool) (s : Sys) : Sys → Prop
  | mark (hwErr : HwErr) : c.stage = .mark →
      Went t c ok s { s.advance t c .count with sHwErr := hwErr }
  | merge : c.stage = .count → 1 < (s.sNestedRestarts + 1).toNat →
      Went t c ok s ({ s with
        sNestedRestarts := s.sNestedRestarts + 1
        made := s.made + 1 }.leave t c)
  | first : c.stage = .count →
      Went t c ok s ({ s with
        sNestedRestarts := s.sNestedRestarts + 1
        made := s.made + 1 }.advance t c .dispatch)
  | dispatch : c.stage = .dispatch → c.sleep = true ∨ ok = true →
      Went t c ok s { s.leave t c with queued := s.queued + 1 }
  | drop : c.stage = .dispatch → ¬ (c.sleep = true ∨ ok = true) → Went t c ok s (s.leave t c)

theorem went {t : ℕ} {ok : Bool} (h : s.goOn t ok = some s') : ∃ c, s.calls t = some c ∧ Went t c ok s s' := by
  unfold goOn at h
  cases hc : s.calls t with
  | none => simp [hc] at h
  | some c =>
    refine ⟨c, rfl, ?_⟩
    simp only [hc] at h
    cases hstage : c.stage with
    | mark =>
      simp only [hstage] at h
      split_ifs at h <;> cases h
      · exact .mark s.sHwErr hstage
      · exact .mark c.hwErr hstage
    | count =>
      simp only [hstage] at h
      split_ifs at h with hnv <;> cases h
      · exact .merge hstage hnv
      · exact .first hstage
    | dispatch =>
      simp only [hstage] at h
      split_ifs at h with hok <;> cases h
      · exact .dispatch hstage hok
      · exact .drop hstage hok

end Sys

end Sfxge.Nic
