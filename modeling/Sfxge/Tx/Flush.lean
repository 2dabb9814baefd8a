import Mathlib.Data.Finset.Card
import Sfxge.Lib.Run
import Sfxge.Tx.Ring

/-!
# Tx.Flush — stopping the transmit queues

`sfxge_tx_stop` flushes the queues with `s_tx_flush_lock` held, waits until as many of them as it waits for are
reported done, and takes them down.  `sfxge_tx_qflush_done`, which handles the reports, holds the `se_lock` of the
queue's event queue from beginning to end, and takes first `st_lock` and then `s_tx_flush_lock`: it is cut between
the two.
-/

namespace Sfxge.Tx.Flush

open Lib TxqState

/-- The transmit queues: the size of `s_stp`, the event queue and the label of those that exist, and
`se_label_stp` of the event queues. -/
structure Dev where
  size : ℕ
  stEvq : ℕ → Option ℕ
  stLabel : ℕ → ℕ
  seLabelStp : ℕ → ℕ → Option ℕ
  lt_size : ∀ {index e}, stEvq index = some e → index < size
  label_stp : ∀ {index e}, stEvq index = some e → seLabelStp e (stLabel index) = some index
  stp_evq : ∀ {index e label}, seLabelStp e label = some index → stEvq index = some e

/-- Where starting and stopping the queues stands. -/
inductive Ctl
  /-- all queues are stopped -/
  | down
  /-- the queues from `n` on are to be started -/
  | starting (n : ℕ)
  | up
  /-- `sfxge_tx_stop` holds `s_tx_flush_lock`; the queues below `n` are to be flushed -/
  | flushing (n : ℕ) (waitForFlush : Bool)
  /-- `sfxge_tx_stop` holds `s_tx_flush_lock` and looks at `s_tx_flush_pending` -/
  | check
  /-- in `cv_timedwait`, which has let the lock go -/
  | asleep
  /-- the queues below `n` are to be stopped -/
  | stopping (n : ℕ)
  deriving Repr, DecidableEq

/-- `sfxge_tx_stop` is running. -/
def Ctl.inStop : Ctl → Bool
  | .down | .starting _ | .up => false
  | .flushing _ _ | .check | .asleep | .stopping _ => true

/-- `sfxge_tx_stop` holds `s_tx_flush_lock`. -/
def Ctl.locked : Ctl → Bool
  | .flushing _ _ | .check => true
  | .down | .starting _ | .up | .asleep | .stopping _ => false

/-- The transmit side of the adapter.  `busy e` is the queue for which the handler of event queue `e` has let
`st_lock` go and has yet to count it; `due` are the flush-done events that the firmware has yet to send, and
`soft e label` the software events that stand in for them.  The others are ghosts: the queues that this
`sfxge_tx_stop` has `put` in `FLUSH_PENDING`, those `reported` done since, and whether an assertion has `broken` or
`sfxge_tx_stop` has stopped waiting too `early`. -/
structure Sys where
  ctl : Ctl
  stp : ℕ → Txq
  txFlushPending : ℤ
  busy : ℕ → Option ℕ
  due : ℕ → ℕ
  soft : ℕ → ℕ → ℕ
  put : ℕ → Bool
  reported : ℕ → Bool
  broken : Bool
  early : Bool

namespace Sys

variable (s : Sys)

def setTxq (index : ℕ) (stp : Txq) : Sys := { s with stp := Function.update s.stp index stp }

def setState (index : ℕ) (st : TxqState) : Sys := s.setTxq index { s.stp index with stState := st }

def goto (ctl : Ctl) : Sys := { s with ctl := ctl }

/-- `ASSERT(c)` -/
def assert (c : Prop) [Decidable c] : Sys := { s with broken := s.broken || !decide c }

/-- A handler has reported the queue done. -/
def report (index : ℕ) : Sys := { s with reported := Function.update s.reported index true }

/-- `sfxge_tx_stop` has put the queue in `FLUSH_PENDING`. -/
def await (index : ℕ) : Sys :=
  { s.setState index SFXGE_TXQ_FLUSH_PENDING with
    txFlushPending := s.txFlushPending + 1
    put := Function.update s.put index true
    reported := Function.update s.reported index false }

/-- The handler of event queue `e` goes on to count the queue. -/
def hold (e : ℕ) (index : Option ℕ) : Sys := { s with busy := Function.update s.busy e index }

/-- `sfxge_tx_qflush_done` up to its first `mutex_exit`, in a handler of event queue `e`. -/
def qflushDone (d : Dev) (e index : ℕ) : Sys :=
  let s := (s.report index).assert (d.stEvq index = some e)
  match (s.stp index).stState with
  -- a flush event after the queue has been destroyed
  | SFXGE_TXQ_INITIALIZED => s
  | SFXGE_TXQ_FLUSH_PENDING => (s.setState index SFXGE_TXQ_FLUSH_DONE).hold e (some index)
  -- the MC may have rebooted before handling the flush request
  | SFXGE_TXQ_FLUSH_FAILED => s.setState index SFXGE_TXQ_FLUSH_DONE
  -- a flush that the MC has initiated
  | SFXGE_TXQ_STARTED => s.setState index SFXGE_TXQ_FLUSH_DONE
  | SFXGE_TXQ_FLUSH_DONE => s.assert False
  | SFXGE_TXQ_UNINITIALIZED => s.assert False

/-- The rest of `sfxge_tx_qflush_done`, when the flush was pending. -/
def qflushCount (e : ℕ) : Sys := { s.hold e none with txFlushPending := s.txFlushPending - 1 }

/-- The firmware will send a flush-done event for the queue. -/
def owe (index : ℕ) : Sys := { s with due := Function.update s.due index (s.due index + 1) }

/-- `sfxge_tx_qflush`, where `efx_tx_qflush` returns `rc`. -/
def qflush (index : ℕ) (waitForFlush : Bool) (rc : Option Errno) : Sys :=
  if (s.stp index).stState = SFXGE_TXQ_STARTED then
    match rc with
    -- already flushed, may be initiated by MC
    | some .EALREADY => s.setState index SFXGE_TXQ_FLUSH_DONE
    | some _ => s.setState index SFXGE_TXQ_FLUSH_FAILED
    | none =>
      if waitForFlush then (s.owe index).await index
      -- assume the flush is done
      else (s.owe index).setState index SFXGE_TXQ_FLUSH_DONE
  else s

/-- What `sfxge_tx_qstop` asserts of the ring. -/
def RingAsserts (stp : Txq) : Prop :=
  let aborted := stp.qlistAbort
  let completed := { aborted with stUnblock := none, stPending := aborted.stAdded }.completeAll
  aborted.stN = 0 ∧ completed.stCompleted = completed.stPending ∧ completed.qreap.stReaped = completed.qreap.stCompleted

instance (stp : Txq) : Decidable (RingAsserts stp) := inferInstanceAs (Decidable (_ ∧ _ ∧ _))

/-- `sfxge_tx_qstop` -/
def qstop (index : ℕ) : Sys :=
  let stp := s.stp index
  if stp.stState = SFXGE_TXQ_INITIALIZED then s
  else ((s.assert stp.stState.Flushing).assert (RingAsserts stp)).setTxq index stp.qstop

/-- `sfxge_tx_stop` is entered. -/
def enterStop (d : Dev) (waitForFlush : Bool) : Sys :=
  { s.goto (.flushing d.size waitForFlush) with
    put := fun _ => false
    reported := fun _ => false }

/-- A queue that this `sfxge_tx_stop` waits for has not been reported done. -/
def Missing (d : Dev) : Prop := ∃ index < d.size, s.put index = true ∧ s.reported index = false

instance (d : Dev) : Decidable (s.Missing d) := inferInstanceAs (Decidable (∃ index < d.size, _))

/-- The label `flush_done`. -/
def flushDone (d : Dev) : Sys := { s.goto (.stopping d.size) with txFlushPending := 0 }

/-- `sfxge_tx_stop` stops waiting without a timeout. -/
def stopWaiting (d : Dev) : Sys := { s.flushDone d with early := s.early || decide (s.Missing d) }

/-- The event queue `e` gets the flush-done event of the queue `index`: `sfxge_ev_txq_flush_done`. -/
def evTxqFlushDone (d : Dev) (e index : ℕ) : Sys :=
  let s := { s with due := Function.update s.due index (s.due index - 1) }
  match d.stEvq index with
  -- events may arrive after the queue was destroyed
  | none => s
  | some evq =>
    if evq = e then s.qflushDone d e index
    -- resend a software event on the correct queue
    else
      let label := d.stLabel index
      { s with soft := Function.update s.soft evq (Function.update (s.soft evq) label (s.soft evq label + 1)) }

/-- `SFXGE_MAGIC_TX_QFLUSH_DONE` in `sfxge_ev_software` -/
def evSoftware (d : Dev) (e label : ℕ) : Sys :=
  let s := { s with soft := Function.update s.soft e (Function.update (s.soft e) label (s.soft e label - 1)) }
  match d.seLabelStp e label with
  | none => s
  | some index => s.qflushDone d e index

end Sys

inductive Op
  /-- `sfxge_tx_start` is called. -/
  | start
  /-- `sfxge_tx_qstart`; when it fails `sfxge_tx_stop` is called. -/
  | qstart (ok : Bool) (descIndex : U32) (waitForFlush : Bool)
  /-- `sfxge_tx_stop` is called. -/
  | stop (waitForFlush : Bool)
  | qflush (rc : Option Errno)
  /-- `s_tx_flush_pending` is looked at. -/
  | check
  /-- `cv_timedwait` returns, with and without the time being up. -/
  | timeout
  | wake
  | qstop
  /-- The event queue `e` handles the event of a flushed queue, or the software event in its place. -/
  | event (e index : ℕ)
  | software (e label : ℕ)
  /-- The handler of event queue `e` gets `s_tx_flush_lock`. -/
  | count (e : ℕ)
  /-- The firmware flushes a queue by itself. -/
  | firmware (index : ℕ)
  /-- The ring of a queue is worked on. -/
  | data (index : ℕ) (stp : Txq)

/-- A step, `none` where the operation is not possible: a handler that waits for a lock, and whoever waits for
the handler's, do not move. -/
def step (d : Dev) : Op → Sys → Option Sys
  | .start, s => if s.ctl = .down then some (s.goto (.starting 0)) else none
  | .qstart ok descIndex waitForFlush, s => match s.ctl with
    | .starting n =>
      if n = d.size then some (s.goto .up)
      else if d.stEvq n = none then some (s.goto (.starting (n + 1)))
      else if ok then some ((s.setTxq n ((s.stp n).qstart descIndex)).goto (.starting (n + 1)))
      else some (s.enterStop d waitForFlush)
    | _ => none
  | .stop waitForFlush, s => if s.ctl = .up then some (s.enterStop d waitForFlush) else none
  | .qflush rc, s => match s.ctl with
    | .flushing 0 waitForFlush => if waitForFlush then some (s.goto .check) else some (s.flushDone d)
    | .flushing (n + 1) waitForFlush =>
      if d.stEvq n = none then some (s.goto (.flushing n waitForFlush))
      else some ((s.qflush n waitForFlush rc).goto (.flushing n waitForFlush))
    | _ => none
  | .check, s =>
    if s.ctl = .check then
      if s.txFlushPending > 0 then some (s.goto .asleep) else some (s.stopWaiting d)
    else none
  | .timeout, s => if s.ctl = .asleep then some (s.flushDone d) else none
  | .wake, s => if s.ctl = .asleep then some (s.goto .check) else none
  | .qstop, s => match s.ctl with
    | .stopping 0 => some (s.goto .down)
    | .stopping (n + 1) => match d.stEvq n with
      | none => some (s.goto (.stopping n))
      | some evq => if s.busy evq = none then some ((s.qstop n).goto (.stopping n)) else none
    | _ => none
  | .event e index, s =>
    if s.busy e = none ∧ 0 < s.due index then some (s.evTxqFlushDone d e index) else none
  | .software e label, s =>
    if s.busy e = none ∧ 0 < s.soft e label then some (s.evSoftware d e label) else none
  | .count e, s =>
    if s.busy e ≠ none ∧ s.ctl.locked = false then some (s.qflushCount e) else none
  | .firmware index, s => some (s.owe index)
  | .data index stp, s => if stp.stState = (s.stp index).stState then some (s.setTxq index stp) else none

/-- The adapter is attached, and its transmit queues have not been started. -/
def Sys.init : Sys where
  ctl := .down
  stp _ := RingState.init.stp
  txFlushPending := 0
  busy _ := none
  due _ := 0
  soft _ _ := 0
  put _ := false
  reported _ := false
  broken := false
  early := false

end Sfxge.Tx.Flush
