import Sfxge.Lib.Run
import Sfxge.Tx.Label

/-!
# Ev.Software — software events about the receive queues

A receive queue has the event queue of its own number.  What is to be done to it under the lock of that event queue is
asked for by a software event: a flush event that came to another event queue, and the trimming of the free packet pool
by a timer.  The event has the number of the queue in five bits, where there are queues up to 127.
-/

namespace Sfxge.Ev.Software

open Lib
open Tx.Label (SFXGE_MAGIC_DMAQ_LABEL_MASK SFXGE_RX_SCALE_MAX)

/-- What is asked for. -/
inductive Kind
  | rxQflushDone
  | rxQflushFailed
  | rxQfppTrim
  deriving Repr, DecidableEq

/-- `SFXGE_MAGIC_RX_QFLUSH_DONE`, `SFXGE_MAGIC_RX_QFLUSH_FAILED` and `SFXGE_MAGIC_RX_QFPP_TRIM` -/
def Kind.magic : Kind → BitVec 16
  | .rxQflushDone => 0x8020
  | .rxQflushFailed => 0x8040
  | .rxQfppTrim => 0x8060

/-- The event about queue `index` -/
def Kind.event (kind : Kind) (index : ℕ) : BitVec 16 := kind.magic ||| BitVec.ofNat 16 index

/-- The label of an event -/
def label (magic : BitVec 16) : ℕ := (magic &&& SFXGE_MAGIC_DMAQ_LABEL_MASK).toNat

/-- The `switch` of `sfxge_ev_software`, for the receive queues -/
def kind (magic : BitVec 16) : Option Kind :=
  [Kind.rxQflushDone, .rxQflushFailed, .rxQfppTrim].find? fun kind =>
    decide (magic &&& ~~~SFXGE_MAGIC_DMAQ_LABEL_MASK = kind.magic)

/-- `sfxge_flush_state_t` -/
inductive FlushState
  | SFXGE_FLUSH_INACTIVE
  | SFXGE_FLUSH_DONE
  | SFXGE_FLUSH_PENDING
  | SFXGE_FLUSH_FAILED
  deriving Repr, DecidableEq

/-- An event on its way to the event queue `evq`; as ghosts what was asked for, and of which queue. -/
structure Soft where
  evq : ℕ
  magic : BitVec 16
  asked : Kind
  index : ℕ
  deriving Repr, DecidableEq

/-- The queues in `s_srp`, those of them and of the event queues that are started, `sr_flush`, how often the free packet
pool has been trimmed, and the events on their way.  The others are ghosts: whether an assertion has failed, or
something has been done that was not asked for. -/
structure Sys where
  sSrp : ℕ → Bool
  srStarted : ℕ → Bool
  seStarted : ℕ → Bool
  srFlush : ℕ → FlushState
  trims : ℕ → ℕ
  soft : List Soft
  broken : Bool
  misled : Bool

namespace Sys

variable (s : Sys)

/-- `ASSERT(c)` -/
def assert (c : Prop) [Decidable c] : Sys := { s with broken := s.broken || !decide c }

/-- `sfxge_rx_qflush_done`, `sfxge_rx_qflush_failed` and `sfxge_rx_qfpp_trim` of queue `index` -/
def perform (kind : Kind) (index : ℕ) : Sys :=
  match kind with
  | .rxQflushDone => { s with srFlush := Function.update s.srFlush index .SFXGE_FLUSH_DONE }
  | .rxQflushFailed => { s with srFlush := Function.update s.srFlush index .SFXGE_FLUSH_FAILED }
  | .rxQfppTrim => { s with trims := Function.update s.trims index (s.trims index + 1) }

/-- `efx_ev_qpost` to the event queue of queue `index` -/
def qpost (kind : Kind) (index : ℕ) : Sys := { s with soft := s.soft ++ [⟨index, kind.event index, kind, index⟩] }

/-- `ASSERT((label & SFXGE_MAGIC_DMAQ_LABEL_MASK) == label)` -/
def assertLabel (index : ℕ) : Sys :=
  s.assert (BitVec.ofNat 16 index &&& SFXGE_MAGIC_DMAQ_LABEL_MASK = BitVec.ofNat 16 index)

/-- `sfxge_ev_rxq_flush_done` on event queue `e` -/
def evRxqFlushDone (e index : ℕ) : Sys :=
  -- events may arrive after the queue was destroyed
  if s.sSrp index = false then s
  else if index = e then s.perform .rxQflushDone index
  else if s.seStarted index = false then s
  else (s.assertLabel index).qpost .rxQflushDone index

/-- `sfxge_ev_rxq_flush_failed` on event queue `e`: here the assertion comes first. -/
def evRxqFlushFailed (e index : ℕ) : Sys :=
  if s.sSrp index = false then s
  else if index = e then s.perform .rxQflushFailed index
  else if s.seStarted index = false then s.assertLabel index
  else (s.assertLabel index).qpost .rxQflushFailed index

/-- `sfxge_rx_qpoll`: here there is no assertion. -/
def rxQpoll (index : ℕ) : Sys :=
  if s.seStarted index = false ∨ s.srStarted index = false then s else s.qpost .rxQfppTrim index

/-- `sfxge_ev_software` -/
def evSoftware (ev : Soft) : Sys :=
  match kind ev.magic with
  | none => { s with misled := true }
  | some kind =>
    if s.sSrp (label ev.magic) = false then s
    else
      let s := s.assert (label ev.magic = ev.evq)
      let s := s.perform kind (label ev.magic)
      { s with misled := s.misled || decide (¬ (kind = ev.asked ∧ label ev.magic = ev.index)) }

end Sys

inductive Op
  /-- `sfxge_rx_qinit` and `sfxge_rx_qfini` -/
  | qinit (index : ℕ)
  | qfini (index : ℕ)
  /-- `sfxge_rx_qstart` and `sfxge_rx_qstop` -/
  | qstart (index : ℕ)
  | qstop (index : ℕ)
  /-- `sfxge_ev_qstart` and `sfxge_ev_qstop`, with which the events on their way are gone -/
  | evStart (e : ℕ)
  | evStop (e : ℕ)
  /-- The firmware tells event queue `e` how the flush of a queue has ended. -/
  | flushDone (e index : ℕ)
  | flushFailed (e index : ℕ)
  /-- The timer of a queue goes off. -/
  | poll (index : ℕ)
  /-- A software event is handled. -/
  | software (k : ℕ)
  deriving Repr, DecidableEq

def step : Op → Sys → Option Sys
  | .qinit index, s => some { s with sSrp := Function.update s.sSrp index true }
  | .qfini index, s => some { s with sSrp := Function.update s.sSrp index false }
  | .qstart index, s => some { s with
      srStarted := Function.update s.srStarted index true
      srFlush := Function.update s.srFlush index .SFXGE_FLUSH_INACTIVE }
  | .qstop index, s => some { s with
      srStarted := Function.update s.srStarted index false
      srFlush := Function.update s.srFlush index .SFXGE_FLUSH_DONE }
  | .evStart e, s => some { s with seStarted := Function.update s.seStarted e true }
  | .evStop e, s => some { s with
      seStarted := Function.update s.seStarted e false
      soft := s.soft.filter fun ev => decide (ev.evq ≠ e) }
  | .flushDone e index, s => if index < SFXGE_RX_SCALE_MAX then some (s.evRxqFlushDone e index) else none
  | .flushFailed e index, s => if index < SFXGE_RX_SCALE_MAX then some (s.evRxqFlushFailed e index) else none
  | .poll index, s => if index < SFXGE_RX_SCALE_MAX then some (s.rxQpoll index) else none
  | .software k, s => s.soft[k]?.map fun ev => { s with soft := s.soft.eraseIdx k }.evSoftware ev

def Sys.start : Sys :=
  ⟨fun _ => false, fun _ => false, fun _ => false, fun _ => .SFXGE_FLUSH_INACTIVE, fun _ => 0, [], false, false⟩

/-- The event says what was asked for, and of which queue, on the event queue of that queue. -/
structure Soft.Right (ev : Soft) : Prop where
  kind : kind ev.magic = some ev.asked
  label : label ev.magic = ev.index
  evq : ev.evq = ev.index

/-- No assertion has failed, nothing has been done that was not asked for, and the events on their way are right. -/
structure Directed (s : Sys) : Prop where
  defined : s.broken = false
  led : s.misled = false
  onTheWay : ∀ ev ∈ s.soft, ev.Right

/-- Where an event is made, or its label asserted, the number of the queue has five bits. -/
def Small (o : Op) (s : Sys) : Prop :=
  match o with
  | .flushDone e index => s.sSrp index = true → index ≠ e → s.seStarted index = true → index < 32
  | .flushFailed e index => s.sSrp index = true → index ≠ e → index < 32
  | .poll index => s.seStarted index = true → s.srStarted index = true → index < 32
  | _ => True

/-! ### The format -/

theorem label_lt (magic : BitVec 16) : label magic < 32 := by
  rw [label, BitVec.toNat_and]
  exact Nat.lt_succ_of_le Nat.and_le_right

theorem event_small : ∀ index < 32, ∀ k : Kind, kind (k.event index) = some k ∧ label (k.event index) = index := by
  intro index hindex k
  cases k with
  | rxQflushDone => revert index; decide
  | rxQflushFailed => revert index; decide
  | rxQfppTrim => revert index; decide

/-- **Five bits.** -/
theorem right_iff (k : Kind) (index : ℕ) : (⟨index, k.event index, k, index⟩ : Soft).Right ↔ index < 32 := by
  constructor
  · intro h
    have hlabel : label (k.event index) = index := h.label
    exact hlabel ▸ label_lt _
  · intro hindex
    obtain ⟨hkind, hlabel⟩ := event_small index hindex k
    exact ⟨hkind, hlabel, rfl⟩

theorem masked_iff {index : ℕ} (hindex : index < SFXGE_RX_SCALE_MAX) :
    BitVec.ofNat 16 index &&& SFXGE_MAGIC_DMAQ_LABEL_MASK = BitVec.ofNat 16 index ↔ index < 32 := by
  revert index
  decide

/-- A trim keeps being one, but for the queue with the low five bits of the number. -/
theorem trim_event : ∀ index < SFXGE_RX_SCALE_MAX, kind (Kind.rxQfppTrim.event index) = some .rxQfppTrim ∧
    label (Kind.rxQfppTrim.event index) = index % 32 := by
  decide

/-- **The pool that is trimmed.**  With the lock of event queue `index` held, it is that of queue `index % 32`. -/
theorem trim_reaches (s : Sys) {index : ℕ} (hindex : index < SFXGE_RX_SCALE_MAX) (hsrp : s.sSrp (index % 32) = true) :
    (s.evSoftware ⟨index, Kind.rxQfppTrim.event index, .rxQfppTrim, index⟩).trims =
      Function.update s.trims (index % 32) (s.trims (index % 32) + 1) := by
  obtain ⟨hkind, hlabel⟩ := trim_event index hindex
  simp only [Sys.evSoftware, hkind, hlabel, hsrp, Bool.true_eq_false, if_false]
  rfl

/-! ### Every step -/

section Steps

variable {s s' : Sys} {index : ℕ}

theorem Directed.congr (h : Directed s) (hbroken : s'.broken = s.broken) (hmisled : s'.misled = s.misled)
    (hsoft : ∀ ev ∈ s'.soft, ev ∈ s.soft) : Directed s' :=
  ⟨hbroken.trans h.defined, hmisled.trans h.led, fun ev hev => h.onTheWay ev (hsoft ev hev)⟩

theorem Directed.perform (h : Directed s) (k : Kind) (index : ℕ) : Directed (s.perform k index) := by
  cases k with
  | rxQflushDone => exact h.congr rfl rfl fun _ hev => hev
  | rxQflushFailed => exact h.congr rfl rfl fun _ hev => hev
  | rxQfppTrim => exact h.congr rfl rfl fun _ hev => hev

theorem directed_assertLabel_iff (h : Directed s) (hindex : index < SFXGE_RX_SCALE_MAX) :
    Directed (s.assertLabel index) ↔ index < 32 := by
  have hbroken : (s.assertLabel index).broken = !decide (BitVec.ofNat 16 index &&& SFXGE_MAGIC_DMAQ_LABEL_MASK =
      BitVec.ofNat 16 index) := by
    change (s.broken || _) = _
    rw [h.defined, Bool.false_or]
  constructor
  · intro h'
    have hdefined := h'.defined
    rw [hbroken, Bool.not_eq_false', decide_eq_true_eq] at hdefined
    exact (masked_iff hindex).mp hdefined
  · intro hsmall
    refine ⟨?_, h.led, h.onTheWay⟩
    rw [hbroken, Bool.not_eq_false', decide_eq_true_eq]
    exact (masked_iff hindex).mpr hsmall

theorem Directed.qpost (h : Directed s) (k : Kind) (hsmall : index < 32) : Directed (s.qpost k index) := by
  refine ⟨h.defined, h.led, fun ev hev => ?_⟩
  rcases List.mem_append.mp hev with hev | hev
  · exact h.onTheWay ev hev
  · rw [List.mem_singleton.mp hev]
    exact (right_iff k index).mpr hsmall

theorem small_of_qpost {k : Kind} (h : Directed (s.qpost k index)) : index < 32 :=
  (right_iff k index).mp (h.onTheWay _ (List.mem_append_right _ (List.mem_singleton_self _)))

/-- An event that is right does what was asked for, or nothing. -/
theorem Directed.software (h : Directed s) {ev : Soft} (hev : ev.Right) : Directed (s.evSoftware ev) := by
  unfold Sys.evSoftware
  rw [hev.kind]
  simp only [hev.label]
  split_ifs with hsrp
  · exact h
  · have hassert : (s.assert (ev.index = ev.evq)).broken = s.broken := by
      change (s.broken || !decide (ev.index = ev.evq)) = _
      rw [hev.evq, decide_eq_true rfl, Bool.not_true, Bool.or_false]
    have h1 : Directed (s.assert (ev.index = ev.evq)) := h.congr hassert rfl fun _ hev => hev
    have h2 := h1.perform ev.asked ev.index
    refine h2.congr rfl ?_ fun _ hev => hev
    simp

/-- **Step lemma.** -/
theorem Directed.step_iff (h : Directed s) {o : Op} (hs : step o s = some s') : Directed s' ↔ Small o s := by
  cases o with
  | qinit index | qfini index | qstart index | qstop index | evStart e =>
    cases hs
    exact iff_of_true (h.congr rfl rfl fun _ hev => hev) trivial
  | evStop e =>
    cases hs
    exact iff_of_true (h.congr rfl rfl fun _ hev => List.mem_of_mem_filter hev) trivial
  | flushDone e index =>
    rw [step] at hs
    split_ifs at hs with hindex
    cases hs
    unfold Sys.evRxqFlushDone
    split_ifs with hsrp hown hstarted
    · exact iff_of_true h fun hsrp' => by rw [hsrp] at hsrp'; cases hsrp'
    · exact iff_of_true (h.perform _ _) fun _ hne => absurd hown hne
    · exact iff_of_true h fun _ _ hstarted' => by rw [hstarted] at hstarted'; cases hstarted'
    · rw [Bool.not_eq_false] at hsrp hstarted
      constructor
      · intro h' _ _ _
        exact small_of_qpost h'
      · intro hsmall
        have hlt := hsmall hsrp hown hstarted
        exact ((directed_assertLabel_iff h hindex).mpr hlt).qpost _ hlt
  | flushFailed e index =>
    rw [step] at hs
    split_ifs at hs with hindex
    cases hs
    unfold Sys.evRxqFlushFailed
    split_ifs with hsrp hown hstarted
    · exact iff_of_true h fun hsrp' => by rw [hsrp] at hsrp'; cases hsrp'
    · exact iff_of_true (h.perform _ _) fun _ hne => absurd hown hne
    · rw [Bool.not_eq_false] at hsrp
      rw [directed_assertLabel_iff h hindex]
      exact ⟨fun hlt _ _ => hlt, fun hsmall => hsmall hsrp hown⟩
    · rw [Bool.not_eq_false] at hsrp
      constructor
      · intro h' _ _
        exact small_of_qpost h'
      · intro hsmall
        have hlt := hsmall hsrp hown
        exact ((directed_assertLabel_iff h hindex).mpr hlt).qpost _ hlt
  | poll index =>
    rw [step] at hs
    split_ifs at hs with hindex
    cases hs
    unfold Sys.rxQpoll
    split_ifs with hdown
    · refine iff_of_true h fun hse hsr => ?_
      rcases hdown with hdown | hdown
      · rw [hdown] at hse
        cases hse
      · rw [hdown] at hsr
        cases hsr
    · rw [not_or, Bool.not_eq_false, Bool.not_eq_false] at hdown
      exact ⟨fun h' _ _ => small_of_qpost h', fun hsmall => h.qpost _ (hsmall hdown.1 hdown.2)⟩
  | software k =>
    obtain ⟨ev, hev, rfl⟩ := Option.map_eq_some_iff.mp hs
    have h1 : Directed { s with soft := s.soft.eraseIdx k } := h.congr rfl rfl fun _ hev => List.mem_of_mem_eraseIdx hev
    exact iff_of_true (h1.software (h.onTheWay ev (List.mem_of_getElem? hev))) trivial

end Steps

/-- **A software event reaches its queue.**  In a run in which receive queues and event queues come and go, flush events
come to any event queue and timers go off, everything asked for by a software event is done to the queue it was asked
for, as long as no event is made of a queue beyond the first 32, and no longer. -/
theorem software_events_iff (ops : List Op) :
    AlwaysAlong step Directed ops Sys.start ↔ StepsAlong step Small ops Sys.start :=
  alwaysAlong_iff (fun _ _ _ h hs => h.step_iff hs) ops ⟨rfl, rfl, fun _ hev => absurd hev List.not_mem_nil⟩

end Sfxge.Ev.Software
