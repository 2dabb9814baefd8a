import Sfxge.Lib.Counter
import Sfxge.Tx.Counters
import Sfxge.Tx.Flush

/-!
# Tx.FlushRuns — the count of the queues to be flushed, over runs

`s_tx_flush_pending` counts the queues that are `FLUSH_PENDING` and those that a handler has reported done but not
yet counted.  `Tallied` is the invariant; it is lost when a handler counts a queue for which `sfxge_tx_stop` has
stopped waiting, and an assertion fails when a queue is reported done twice.
-/

namespace Sfxge.Tx.Flush

open Lib TxqState

variable {d : Dev} {s s' : Sys}

/-! ### The assertions on the ring -/

theorem add_toNat_sub (x y : U32) : y + BitVec.ofNat 32 (x - y).toNat = x := by
  rw [BitVec.ofNat_toNat, BitVec.setWidth_eq, BitVec.add_comm, BitVec.sub_add_cancel]

theorem completeAll_completed (stp : Txq) : stp.completeAll.stCompleted = stp.completeAll.stPending := by
  obtain ⟨hend, hframe, -⟩ := iterate_completeOne (stp.stPending - stp.stCompleted).toNat stp.stCompleted stp
  have hpending := congrArg (fun f => f.1.2.2.1) hframe
  rw [add_toNat_sub] at hend
  exact hend.trans hpending.symm

theorem qreap_reaped (stp : Txq) : stp.qreap.stReaped = stp.qreap.stCompleted := by
  rw [Txq.qreap, iterate_reapOne]
  exact add_toNat_sub _ _

/-- The assertions of `sfxge_tx_qstop` on the ring hold of every ring. -/
theorem ringAsserts (stp : Txq) : Sys.RingAsserts stp :=
  ⟨rfl, completeAll_completed _, qreap_reaped _⟩

/-! ### The invariant -/

/-- `sfxge_tx_stop` has not yet stopped waiting. -/
def Ctl.waits : Ctl → Bool
  | .flushing _ _ | .check | .asleep => true
  | .down | .starting _ | .up | .stopping _ => false

/-- The states a queue can have, by how far starting and stopping the queues has come. -/
def Ctl.Allows (index : ℕ) (st : TxqState) : Ctl → Prop
  | .down => st = SFXGE_TXQ_INITIALIZED
  | .starting n => st = SFXGE_TXQ_INITIALIZED ∨ (index < n ∧ (st = SFXGE_TXQ_STARTED ∨ st = SFXGE_TXQ_FLUSH_DONE))
  | .up => st = SFXGE_TXQ_INITIALIZED ∨ st = SFXGE_TXQ_STARTED ∨ st = SFXGE_TXQ_FLUSH_DONE
  | .flushing n _ => st = SFXGE_TXQ_INITIALIZED ∨ st.Flushing ∨ (index < n ∧ st = SFXGE_TXQ_STARTED)
  | .check | .asleep => st = SFXGE_TXQ_INITIALIZED ∨ st.Flushing
  | .stopping n => st = SFXGE_TXQ_INITIALIZED ∨ (index < n ∧ st.Flushing)

/-- A queue that is still counted. -/
def Counted (d : Dev) (s : Sys) (index : ℕ) : Prop :=
  (s.stp index).stState = SFXGE_TXQ_FLUSH_PENDING ∨ (d.stEvq index).bind s.busy = some index

instance (d : Dev) (s : Sys) : DecidablePred (Counted d s) := fun _ => inferInstanceAs (Decidable (_ ∨ _))

structure Tallied (d : Dev) (s : Sys) : Prop where
  broken : s.broken = false
  early : s.early = false
  state : ∀ index, s.ctl.Allows index (s.stp index).stState
  absent : ∀ index, d.stEvq index = none → (s.stp index).stState = SFXGE_TXQ_INITIALIZED
  busy : ∀ e index, s.busy e = some index → d.stEvq index = some e ∧ s.ctl.inStop = true ∧
    (s.stp index).stState = SFXGE_TXQ_FLUSH_DONE
  count : s.ctl.waits = true → s.txFlushPending = ((Finset.range d.size).filter (Counted d s)).card
  zero : s.ctl.waits = false → s.txFlushPending = 0
  put : s.ctl.waits = true → ∀ index, s.put index = true →
    s.reported index = true ∨ (s.stp index).stState = SFXGE_TXQ_FLUSH_PENDING

theorem lt_size_of_state (h : Tallied d s) {index : ℕ} (hst : (s.stp index).stState ≠ SFXGE_TXQ_INITIALIZED) :
    index < d.size := by
  cases hevq : d.stEvq index with
  | none => exact absurd (h.absent index hevq) hst
  | some e => exact d.lt_size hevq

/-- Outside of `sfxge_tx_stop` no queue is counted. -/
theorem not_counted (h : Tallied d s) (hout : s.ctl.inStop = false) (index : ℕ) : ¬ Counted d s index := by
  rintro (hst | hbusy)
  · have hallows := h.state index
    rw [hst] at hallows
    cases hc : s.ctl <;> rw [hc] at hallows hout
    case down => cases hallows
    case starting n => simp [Ctl.Allows] at hallows
    case up => simp [Ctl.Allows] at hallows
    all_goals cases hout
  · obtain ⟨e, -, he⟩ := Option.bind_eq_some_iff.mp hbusy
    obtain ⟨-, hin, -⟩ := h.busy e index he
    rw [hout] at hin
    cases hin

/-- The count is that of the queues left, which a step has not changed. -/
theorem count_congr (hst : ∀ index, (s'.stp index).stState = (s.stp index).stState) (hbusy : s'.busy = s.busy) :
    (Finset.range d.size).filter (Counted d s') = (Finset.range d.size).filter (Counted d s) := by
  refine Finset.filter_congr fun index _ => ?_
  rw [Counted, Counted, hst, hbusy]

/-! ### Starting and stopping -/

/-- Starting and stopping goes on, and nothing else happens. -/
theorem Tallied.goto (h : Tallied d s) {ctl : Ctl} (hstate : ∀ index, ctl.Allows index (s.stp index).stState)
    (hin : s.ctl.inStop = true → ctl.inStop = true) (hwaits : ctl.waits = s.ctl.waits) : Tallied d (s.goto ctl) := by
  refine ⟨h.broken, h.early, hstate, h.absent, fun e index hbusy => ?_, fun hw => ?_, fun hw => ?_, fun hw => ?_⟩
  · obtain ⟨hevq, hstop, hst⟩ := h.busy e index hbusy
    exact ⟨hevq, hin hstop, hst⟩
  · exact h.count (hwaits.symm.trans hw)
  · exact h.zero (hwaits.symm.trans hw)
  · exact h.put (hwaits.symm.trans hw)

/-- What the handlers and the data path may do: nothing that starting and stopping the queues goes by. -/
structure Same (s s' : Sys) : Prop where
  ctl : s'.ctl = s.ctl
  state : ∀ index, (s'.stp index).stState = (s.stp index).stState
  pending : s'.txFlushPending = s.txFlushPending
  busy : s'.busy = s.busy
  put : s'.put = s.put
  reported : ∀ index, s.reported index = true → s'.reported index = true
  broken : s'.broken = s.broken
  early : s'.early = s.early

theorem Tallied.same (h : Tallied d s) (hs : Same s s') : Tallied d s' := by
  have hst : ∀ index, (s'.stp index).stState = (s.stp index).stState := hs.state
  refine ⟨hs.broken.trans h.broken, hs.early.trans h.early, fun index => ?_, fun index => ?_, fun e index => ?_,
    fun hw => ?_, fun hw => ?_, fun hw index => ?_⟩
  · rw [hs.ctl, hst]
    exact h.state index
  · rw [hst]
    exact h.absent index
  · rw [hs.busy, hs.ctl, hst]
    exact h.busy e index
  · rw [hs.pending, count_congr hst hs.busy]
    exact h.count (hs.ctl ▸ hw)
  · rw [hs.pending]
    exact h.zero (hs.ctl ▸ hw)
  · rw [hs.put, hst]
    exact fun hput => (h.put (hs.ctl ▸ hw) index hput).imp_left (hs.reported index)

theorem state_setTxq (index i : ℕ) (stp : Txq) :
    ((s.setTxq index stp).stp i).stState = if i = index then stp.stState else (s.stp i).stState := by
  unfold Sys.setTxq
  dsimp only
  by_cases h : i = index
  · subst h
    rw [Function.update_self, if_pos rfl]
  · rw [Function.update_of_ne h, if_neg h]

theorem state_setState (index i : ℕ) (st : TxqState) :
    ((s.setState index st).stp i).stState = if i = index then st else (s.stp i).stState :=
  state_setTxq index i _

theorem Tallied.enterStop (h : Tallied d s) (hout : s.ctl.inStop = false)
    (hstate : ∀ index, (s.stp index).stState = SFXGE_TXQ_INITIALIZED ∨ (s.stp index).stState.Flushing ∨
      (s.stp index).stState = SFXGE_TXQ_STARTED) (w : Bool) : Tallied d (s.enterStop d w) := by
  have hwaits : s.ctl.waits = false := by cases hc : s.ctl <;> rw [hc] at hout <;> first | rfl | cases hout
  refine ⟨h.broken, h.early, fun index => ?_, h.absent, fun e index hbusy => ?_, fun _ => ?_, nofun,
    fun _ index => nofun⟩
  · refine (hstate index).imp_right fun hst => hst.imp_right fun hst => ⟨lt_size_of_state h ?_, hst⟩
    rw [show (s.stp index).stState = _ from hst]
    exact nofun
  · obtain ⟨-, hin, -⟩ := h.busy e index hbusy
    rw [hout] at hin
    cases hin
  · have hnone : (Finset.range d.size).filter (Counted d (s.enterStop d w)) = ∅ :=
      Finset.filter_false_of_mem fun index _ => not_counted h hout index
    rw [hnone]
    exact h.zero hwaits

theorem Tallied.qstart (h : Tallied d s) {n e : ℕ} (hc : s.ctl = .starting n) (hevq : d.stEvq n = some e)
    (descIndex : U32) : Tallied d ((s.setTxq n ((s.stp n).qstart descIndex)).goto (.starting (n + 1))) := by
  have hst := fun i => state_setTxq (s := s) n i ((s.stp n).qstart descIndex)
  have hstop : ∀ e index, s.busy e ≠ some index := by
    intro e index hbusy
    obtain ⟨-, hin, -⟩ := h.busy e index hbusy
    rw [hc] at hin
    cases hin
  refine ⟨h.broken, h.early, fun index => ?_, fun index hnone => ?_, fun e index hbusy => absurd hbusy (hstop e index),
    nofun, fun _ => h.zero (by rw [hc]; rfl), nofun⟩
  · show Ctl.Allows index ((s.setTxq n ((s.stp n).qstart descIndex)).stp index).stState _
    rw [hst]
    split_ifs with hi
    · exact Or.inr ⟨by omega, Or.inl rfl⟩
    · have hallows := h.state index
      rw [hc] at hallows
      exact hallows.imp_right fun ⟨hlt, hor⟩ => ⟨by omega, hor⟩
  · show ((s.setTxq n ((s.stp n).qstart descIndex)).stp index).stState = _
    rw [hst, if_neg]
    · exact h.absent index hnone
    · rintro rfl
      rw [hnone] at hevq
      cases hevq

/-- The queue `n` has been flushed, and the lock is still held. -/
theorem Tallied.left (h : Tallied d s) {n e : ℕ} {w : Bool} (hc : s.ctl = .flushing (n + 1) w)
    (hevq : d.stEvq n = some e) (hst : (s.stp n).stState = SFXGE_TXQ_STARTED) {st : TxqState} (hflush : st.Flushing)
    (hctl : s'.ctl = .flushing n w) (hbusy : s'.busy = s.busy)
    (hset : ∀ i, (s'.stp i).stState = if i = n then st else (s.stp i).stState) :
    (∀ index, s'.ctl.Allows index (s'.stp index).stState) ∧
      (∀ index, d.stEvq index = none → (s'.stp index).stState = SFXGE_TXQ_INITIALIZED) ∧
      ∀ e' index, s'.busy e' = some index → d.stEvq index = some e' ∧ s'.ctl.inStop = true ∧
        (s'.stp index).stState = SFXGE_TXQ_FLUSH_DONE := by
  refine ⟨fun index => ?_, fun index hnone => ?_, fun e' index hb => ?_⟩
  · rw [hset, hctl]
    split_ifs with hi
    · exact Or.inr (Or.inl hflush)
    · have hallows := h.state index
      rw [hc] at hallows
      exact hallows.imp_right fun hor => hor.imp_right fun ⟨hlt, hs⟩ => ⟨by omega, hs⟩
  · rw [hset, if_neg]
    · exact h.absent index hnone
    · rintro rfl
      rw [hnone] at hevq
      cases hevq
  · rw [hbusy] at hb
    obtain ⟨hevq', -, hdone⟩ := h.busy e' index hb
    refine ⟨hevq', by rw [hctl]; rfl, ?_⟩
    rw [hset, if_neg]
    · exact hdone
    · rintro rfl
      rw [hst] at hdone
      cases hdone

/-- A queue is flushed that is not waited for. -/
theorem Tallied.flushed (h : Tallied d s) {n e : ℕ} {w : Bool} (hc : s.ctl = .flushing (n + 1) w)
    (hevq : d.stEvq n = some e) (hst : (s.stp n).stState = SFXGE_TXQ_STARTED) {st : TxqState} (hflush : st.Flushing)
    (hst' : st ≠ SFXGE_TXQ_FLUSH_PENDING) : Tallied d ((s.setState n st).goto (.flushing n w)) := by
  have hset := fun i => state_setState (s := s) n i st
  have hw : s.ctl.waits = true := by rw [hc]; rfl
  have hctl : ((s.setState n st).goto (.flushing n w)).ctl = .flushing n w := rfl
  obtain ⟨hstate, habsent, hbusy⟩ := h.left hc hevq hst hflush hctl rfl hset
  refine ⟨h.broken, h.early, hstate, habsent, hbusy, fun _ => ?_, nofun, fun _ index hput => ?_⟩
  · show s.txFlushPending = _
    rw [h.count hw]
    congr 2
    refine Finset.filter_congr fun index _ => ?_
    show Counted d s index ↔ (((s.setState n st).stp index).stState = _ ∨ _)
    rw [hset, Counted]
    split_ifs with hi
    · subst hi
      rw [hst]
      exact or_congr_left (iff_of_false nofun hst')
    · rfl
  · refine (h.put hw index hput).imp_right fun hpend => ?_
    show ((s.setState n st).stp index).stState = _
    rw [hset, if_neg]
    · exact hpend
    · rintro rfl
      rw [hst] at hpend
      cases hpend

/-- A queue is put in `FLUSH_PENDING`, and counted. -/
theorem Tallied.await (h : Tallied d s) {n e : ℕ} {w : Bool} (hc : s.ctl = .flushing (n + 1) w)
    (hevq : d.stEvq n = some e) (hst : (s.stp n).stState = SFXGE_TXQ_STARTED) :
    Tallied d ((s.await n).goto (.flushing n w)) := by
  have hset := fun i => state_setState (s := s) n i SFXGE_TXQ_FLUSH_PENDING
  have hw : s.ctl.waits = true := by rw [hc]; rfl
  have hctl : ((s.await n).goto (.flushing n w)).ctl = .flushing n w := rfl
  obtain ⟨hstate, habsent, hbusy⟩ := h.left hc hevq hst (Or.inl rfl) hctl rfl hset
  refine ⟨h.broken, h.early, hstate, habsent, hbusy, fun _ => ?_, nofun, fun _ index hput => ?_⟩
  · show s.txFlushPending + 1 = _
    have hone : ((Finset.range d.size).filter (Counted d ((s.await n).goto (.flushing n w)))).card =
        ((Finset.range d.size).filter (Counted d s)).card + 1 := by
      refine card_filter_add_one (Finset.mem_range.mpr (d.lt_size hevq)) ?_ (Or.inl ?_) fun index _ hi => ?_
      · rintro (hpend | hbusy')
        · rw [hst] at hpend
          cases hpend
        · obtain ⟨e', -, he'⟩ := Option.bind_eq_some_iff.mp hbusy'
          obtain ⟨-, -, hdone⟩ := h.busy e' n he'
          rw [hst] at hdone
          cases hdone
      · exact (hset n).trans (if_pos rfl)
      · show _ ↔ (((s.setState n _).stp index).stState = _ ∨ _)
        rw [hset, if_neg hi]
        rfl
    rw [h.count hw, hone]
    rfl
  · show Function.update s.reported n false index = true ∨ ((s.setState n _).stp index).stState = _
    rw [hset]
    by_cases hi : index = n
    · exact Or.inr (if_pos hi)
    · rw [if_neg hi, Function.update_of_ne hi]
      refine h.put hw index ?_
      rwa [← Function.update_of_ne hi true s.put]

theorem Tallied.qflush (h : Tallied d s) {n e : ℕ} {w : Bool} (hc : s.ctl = .flushing (n + 1) w)
    (hevq : d.stEvq n = some e) (rc : Option Errno) : Tallied d ((s.qflush n w rc).goto (.flushing n w)) := by
  unfold Sys.qflush
  by_cases hst : (s.stp n).stState = SFXGE_TXQ_STARTED
  · rw [if_pos hst]
    have howe : Tallied d (s.owe n) := h.same ⟨rfl, fun _ => rfl, rfl, rfl, rfl, fun _ => id, rfl, rfl⟩
    split
    · exact h.flushed hc hevq hst (Or.inr (Or.inl rfl)) nofun
    · exact h.flushed hc hevq hst (Or.inr (Or.inr rfl)) nofun
    · cases w with
      | true => exact howe.await hc hevq hst
      | false => exact howe.flushed hc hevq hst (Or.inr (Or.inl rfl)) nofun
  · rw [if_neg hst]
    refine h.goto (fun index => ?_) (fun _ => rfl) (by rw [hc]; rfl)
    have hallows := h.state index
    rw [hc] at hallows
    refine hallows.imp_right fun hor => hor.imp_right fun ⟨hlt, hs⟩ => ⟨?_, hs⟩
    rcases Nat.lt_succ_iff_lt_or_eq.mp hlt with hlt | rfl
    · exact hlt
    · exact absurd hs hst

/-- The label `flush_done` is reached. -/
theorem Tallied.flushDone (h : Tallied d s) (hstate : ∀ index, (s.stp index).stState = SFXGE_TXQ_INITIALIZED ∨
    (s.stp index).stState.Flushing) : Tallied d (s.flushDone d) := by
  refine ⟨h.broken, h.early, fun index => ?_, h.absent, fun e index hbusy => ?_, nofun, fun _ => rfl, nofun⟩
  · refine (hstate index).imp_right fun hflush => ⟨lt_size_of_state h ?_, hflush⟩
    rcases hflush with hst | hst | hst <;> rw [show (s.stp index).stState = _ from hst] <;> exact nofun
  · obtain ⟨hevq, -, hdone⟩ := h.busy e index hbusy
    exact ⟨hevq, rfl, hdone⟩

/-- When nothing is pending, no queue is missing. -/
theorem Tallied.not_missing (h : Tallied d s) (hw : s.ctl.waits = true) (hpend : s.txFlushPending ≤ 0) :
    ¬ s.Missing d := by
  rintro ⟨index, hlt, hput, hrep⟩
  have hcard := h.count hw
  have hempty : (Finset.range d.size).filter (Counted d s) = ∅ := by
    rw [← Finset.card_eq_zero]
    omega
  rcases h.put hw index hput with hrep' | hst
  · rw [hrep] at hrep'
    cases hrep'
  · exact (Finset.filter_eq_empty_iff.mp hempty) (Finset.mem_range.mpr hlt) (Or.inl hst)

theorem Tallied.stopWaiting (h : Tallied d s) (hw : s.ctl.waits = true) (hpend : s.txFlushPending ≤ 0)
    (hstate : ∀ index, (s.stp index).stState = SFXGE_TXQ_INITIALIZED ∨ (s.stp index).stState.Flushing) :
    Tallied d (s.stopWaiting d) := by
  have h1 := h.flushDone hstate
  refine ⟨h1.broken, ?_, h1.state, h1.absent, h1.busy, h1.count, h1.zero, h1.put⟩
  show (s.early || decide (s.Missing d)) = false
  rw [h.early, decide_eq_false (h.not_missing hw hpend)]
  rfl

theorem Tallied.qstop (h : Tallied d s) {n e : ℕ} (hc : s.ctl = .stopping (n + 1)) (hevq : d.stEvq n = some e)
    (hfree : s.busy e = none) : Tallied d ((s.qstop n).goto (.stopping n)) := by
  have hallows := h.state
  rw [hc] at hallows
  unfold Sys.qstop
  dsimp only
  by_cases hst : (s.stp n).stState = SFXGE_TXQ_INITIALIZED
  · rw [if_pos hst]
    refine h.goto (fun index => ?_) (fun _ => rfl) (by rw [hc]; rfl)
    rcases hallows index with hinit | ⟨hlt, hflush⟩
    · exact Or.inl hinit
    · rcases Nat.lt_succ_iff_lt_or_eq.mp hlt with hlt | rfl
      · exact Or.inr ⟨hlt, hflush⟩
      · exact Or.inl hst
  · rw [if_neg hst]
    have hset := fun i => state_setTxq
      (s := (s.assert (s.stp n).stState.Flushing).assert (Sys.RingAsserts (s.stp n))) n i (s.stp n).qstop
    have hflush : (s.stp n).stState.Flushing := (hallows n).elim (fun hinit => absurd hinit hst) fun h => h.2
    refine ⟨?_, h.early, fun index => ?_, fun index hnone => ?_, fun e' index hbusy => ?_, nofun,
      fun _ => h.zero (by rw [hc]; rfl), nofun⟩
    · show ((s.broken || !decide _) || !decide _) = false
      rw [h.broken, decide_eq_true hflush, decide_eq_true (ringAsserts _)]
      rfl
    · show Ctl.Allows index (((Sys.setTxq _ n (s.stp n).qstop).stp index).stState) _
      rw [hset]
      split_ifs with hi
      · exact Or.inl rfl
      · refine (hallows index).imp_right fun ⟨hlt, hfl⟩ => ⟨by omega, hfl⟩
    · show ((Sys.setTxq _ n (s.stp n).qstop).stp index).stState = _
      rw [hset]
      split_ifs
      · rfl
      · exact h.absent index hnone
    · obtain ⟨hevq', -, hdone⟩ := h.busy e' index hbusy
      refine ⟨hevq', rfl, ?_⟩
      show ((Sys.setTxq _ n (s.stp n).qstop).stp index).stState = _
      rw [hset, if_neg]
      · exact hdone
      · rintro rfl
        rw [hevq] at hevq'
        cases hevq'
        rw [show s.busy e = _ from hbusy] at hfree
        cases hfree

/-- All queues have been stopped: no handler has a queue left to count. -/
theorem Tallied.down (h : Tallied d s) (hc : s.ctl = .stopping 0) : Tallied d (s.goto .down) := by
  have hinit : ∀ index, (s.stp index).stState = SFXGE_TXQ_INITIALIZED := by
    intro index
    have hallows := h.state index
    rw [hc] at hallows
    exact hallows.resolve_right fun hr => absurd hr.1 (Nat.not_lt_zero index)
  refine ⟨h.broken, h.early, hinit, h.absent, fun e index hbusy => ?_, nofun, fun _ => h.zero (by rw [hc]; rfl), nofun⟩
  obtain ⟨-, -, hdone⟩ := h.busy e index hbusy
  rw [hinit] at hdone
  cases hdone

/-! ### The handlers -/

theorem Ctl.Allows.done {c : Ctl} {index : ℕ} {st : TxqState} (h : c.Allows index st)
    (hst : st ≠ SFXGE_TXQ_INITIALIZED) : c.Allows index SFXGE_TXQ_FLUSH_DONE := by
  cases c with
  | down => exact absurd h hst
  | starting n => exact Or.inr ⟨(h.resolve_left hst).1, Or.inr rfl⟩
  | up => exact Or.inr (Or.inr rfl)
  | flushing n w => exact Or.inr (Or.inl (Or.inr (Or.inl rfl)))
  | check => exact Or.inr (Or.inr (Or.inl rfl))
  | asleep => exact Or.inr (Or.inr (Or.inl rfl))
  | stopping n => exact Or.inr ⟨(h.resolve_left hst).1, Or.inr (Or.inl rfl)⟩

theorem Ctl.Allows.inStop {c : Ctl} {index : ℕ} (h : c.Allows index SFXGE_TXQ_FLUSH_PENDING) : c.inStop = true := by
  cases c with
  | down => cases h
  | starting n => simp [Ctl.Allows] at h
  | up => simp [Ctl.Allows] at h
  | flushing n w => rfl
  | check => rfl
  | asleep => rfl
  | stopping n => rfl

theorem Ctl.Allows.initialized {c : Ctl} {index : ℕ} {st : TxqState} (h : c.Allows index st) :
    st ≠ SFXGE_TXQ_UNINITIALIZED := by
  rintro rfl
  cases c <;> simp [Ctl.Allows, TxqState.Flushing] at h

/-- A flush that nobody waits for is done. -/
theorem Tallied.done (h : Tallied d s) {index : ℕ} (hinit : (s.stp index).stState ≠ SFXGE_TXQ_INITIALIZED)
    (hpend : (s.stp index).stState ≠ SFXGE_TXQ_FLUSH_PENDING) : Tallied d (s.setState index SFXGE_TXQ_FLUSH_DONE) := by
  have hset := fun i => state_setState (s := s) index i SFXGE_TXQ_FLUSH_DONE
  refine ⟨h.broken, h.early, fun i => ?_, fun i hnone => ?_, fun e i hbusy => ?_, fun hw => ?_, h.zero,
    fun hw i hput => ?_⟩
  · rw [hset]
    split_ifs with hi
    · subst hi
      exact (h.state i).done hinit
    · exact h.state i
  · rw [hset, if_neg]
    · exact h.absent i hnone
    · rintro rfl
      exact hinit (h.absent i hnone)
  · obtain ⟨hevq, hin, hdone⟩ := h.busy e i hbusy
    refine ⟨hevq, hin, ?_⟩
    rw [hset]
    split_ifs
    · rfl
    · exact hdone
  · refine (h.count hw).trans ?_
    congr 2
    refine Finset.filter_congr fun i _ => ?_
    show Counted d s i ↔ (((s.setState index _).stp i).stState = _ ∨ _)
    rw [hset, Counted]
    split_ifs with hi
    · subst hi
      exact or_congr_left (iff_of_false hpend nofun)
    · rfl
  · refine (h.put hw i hput).imp_right fun hst => ?_
    rw [hset, if_neg]
    · exact hst
    · rintro rfl
      exact hpend hst

/-- A flush that is waited for is done, and is to be counted. -/
theorem Tallied.hold (h : Tallied d s) {e index : ℕ} (hevq : d.stEvq index = some e) (hfree : s.busy e = none)
    (hpend : (s.stp index).stState = SFXGE_TXQ_FLUSH_PENDING) (hrep : s.reported index = true) :
    Tallied d ((s.setState index SFXGE_TXQ_FLUSH_DONE).hold e (some index)) := by
  have hset := fun i => state_setState (s := s) index i SFXGE_TXQ_FLUSH_DONE
  have hallows := h.state index
  refine ⟨h.broken, h.early, fun i => ?_, fun i hnone => ?_, fun e' i hbusy => ?_, fun hw => ?_, h.zero,
    fun hw i hput => ?_⟩
  · show Ctl.Allows i ((s.setState index _).stp i).stState _
    rw [hset]
    split_ifs with hi
    · subst hi
      exact hallows.done (by rw [hpend]; exact nofun)
    · exact h.state i
  · show ((s.setState index _).stp i).stState = _
    rw [hset, if_neg]
    · exact h.absent i hnone
    · rintro rfl
      rw [hnone] at hevq
      cases hevq
  · show _ ∧ _ ∧ ((s.setState index _).stp i).stState = _
    change Function.update s.busy e (some index) e' = some i at hbusy
    rw [hset]
    by_cases he : e' = e
    · subst he
      rw [Function.update_self] at hbusy
      cases hbusy
      rw [hpend] at hallows
      exact ⟨hevq, hallows.inStop, if_pos rfl⟩
    · rw [Function.update_of_ne he] at hbusy
      obtain ⟨hevq', hin, hdone⟩ := h.busy e' i hbusy
      refine ⟨hevq', hin, ?_⟩
      split_ifs
      · rfl
      · exact hdone
  · refine (h.count hw).trans ?_
    congr 2
    refine Finset.filter_congr fun i _ => ?_
    show Counted d s i ↔ (((s.setState index _).stp i).stState = _ ∨
      (d.stEvq i).bind (Function.update s.busy e (some index)) = some i)
    rw [hset]
    by_cases hi : i = index
    · subst hi
      rw [hevq]
      exact iff_of_true (Or.inl hpend) (Or.inr (Function.update_self ..))
    · rw [if_neg hi, Counted]
      refine or_congr_right ?_
      cases hevq' : d.stEvq i with
      | none => rfl
      | some e' =>
        show s.busy e' = some i ↔ Function.update s.busy e (some index) e' = some i
        by_cases he : e' = e
        · subst he
          rw [hfree, Function.update_self]
          exact iff_of_false nofun fun heq => hi (Option.some.inj heq).symm
        · rw [Function.update_of_ne he]
  · show _ ∨ ((s.setState index _).stp i).stState = _
    by_cases hi : i = index
    · subst hi
      exact Or.inl hrep
    · rw [hset, if_neg hi]
      exact h.put hw i hput

/-- A report of a queue that has not been reported done. -/
theorem Tallied.qflushDone (h : Tallied d s) {e index : ℕ} (hevq : d.stEvq index = some e) (hfree : s.busy e = none)
    (hdone : (s.stp index).stState ≠ SFXGE_TXQ_FLUSH_DONE) : Tallied d (s.qflushDone d e index) := by
  have hbroken : ((s.report index).assert (d.stEvq index = some e)).broken = s.broken := by
    show (s.broken || !decide _) = s.broken
    rw [decide_eq_true hevq]
    exact Bool.or_false _
  have hrep : ((s.report index).assert (d.stEvq index = some e)).reported index = true := Function.update_self ..
  have h1 : Tallied d ((s.report index).assert (d.stEvq index = some e)) := by
    refine h.same ⟨rfl, fun _ => rfl, rfl, rfl, rfl, fun i hi => ?_, hbroken, rfl⟩
    show Function.update s.reported index true i = true
    by_cases hii : i = index
    · subst hii
      exact Function.update_self ..
    · rwa [Function.update_of_ne hii]
  unfold Sys.qflushDone
  dsimp only
  split
  · exact h1
  · rename_i hst
    exact h1.hold hevq hfree hst hrep
  · rename_i hst
    exact h1.done (by rw [hst]; exact nofun) (by rw [hst]; exact nofun)
  · rename_i hst
    exact h1.done (by rw [hst]; exact nofun) (by rw [hst]; exact nofun)
  · rename_i hst
    exact absurd hst hdone
  · rename_i hst
    exact absurd hst (h.state index).initialized

/-- A handler counts a queue for which `sfxge_tx_stop` is still waiting. -/
theorem Tallied.counted (h : Tallied d s) {e index : ℕ} (hbusy : s.busy e = some index) (hw : s.ctl.waits = true) :
    Tallied d (s.qflushCount e) := by
  obtain ⟨hevq, -, hdone⟩ := h.busy e index hbusy
  refine ⟨h.broken, h.early, h.state, h.absent, fun e' i hb => ?_, fun _ => ?_, fun hw' => ?_, h.put⟩
  · change Function.update s.busy e none e' = some i at hb
    by_cases he : e' = e
    · subst he
      rw [Function.update_self] at hb
      cases hb
    · rw [Function.update_of_ne he] at hb
      exact h.busy e' i hb
  · have hone : ((Finset.range d.size).filter (Counted d s)).card =
        ((Finset.range d.size).filter (Counted d (s.qflushCount e))).card + 1 := by
      refine card_filter_add_one (Finset.mem_range.mpr (d.lt_size hevq)) ?_ (Or.inr ?_) fun i _ hi => ?_
      · rintro (hst | hb)
        · rw [show (s.stp index).stState = _ from hst] at hdone
          cases hdone
        · rw [hevq] at hb
          change Function.update s.busy e none e = some index at hb
          rw [Function.update_self] at hb
          cases hb
      · rw [hevq]
        exact hbusy
      · refine or_congr_right ?_
        cases hevq' : d.stEvq i with
        | none => rfl
        | some e' =>
          show Function.update s.busy e none e' = some i ↔ s.busy e' = some i
          by_cases he : e' = e
          · subst he
            rw [hbusy, Function.update_self]
            exact iff_of_false nofun fun heq => hi (Option.some.inj heq).symm
          · rw [Function.update_of_ne he]
    show s.txFlushPending - 1 = _
    rw [h.count hw, hone]
    push_cast
    ring
  · rw [show s.ctl.waits = false from hw'] at hw
    cases hw

theorem Tallied.event (h : Tallied d s) {e index : ℕ} (hfree : s.busy e = none)
    (hdone : d.stEvq index = some e → (s.stp index).stState ≠ SFXGE_TXQ_FLUSH_DONE) :
    Tallied d (s.evTxqFlushDone d e index) := by
  have h1 : Tallied d { s with due := Function.update s.due index (s.due index - 1) } :=
    h.same ⟨rfl, fun _ => rfl, rfl, rfl, rfl, fun _ => id, rfl, rfl⟩
  unfold Sys.evTxqFlushDone
  dsimp only
  cases hevq : d.stEvq index with
  | none => exact h1
  | some evq =>
    dsimp only
    split_ifs with he
    · subst he
      exact h1.qflushDone hevq hfree (hdone hevq)
    · exact h1.same ⟨rfl, fun _ => rfl, rfl, rfl, rfl, fun _ => id, rfl, rfl⟩

theorem Tallied.software (h : Tallied d s) {e label : ℕ} (hfree : s.busy e = none)
    (hdone : ∀ index ∈ d.seLabelStp e label, (s.stp index).stState ≠ SFXGE_TXQ_FLUSH_DONE) :
    Tallied d (s.evSoftware d e label) := by
  have h1 : Tallied d { s with
      soft := Function.update s.soft e (Function.update (s.soft e) label (s.soft e label - 1)) } :=
    h.same ⟨rfl, fun _ => rfl, rfl, rfl, rfl, fun _ => id, rfl, rfl⟩
  unfold Sys.evSoftware
  dsimp only
  cases hstp : d.seLabelStp e label with
  | none => exact h1
  | some index => exact h1.qflushDone (d.stp_evq hstp) hfree (hdone index hstp)

/-! ### Runs -/

/-- What spares the count and the assertions: no queue that is done is reported done, and no handler is late to
count a queue, behind the end of the wait. -/
def Heeds (d : Dev) : Op → Sys → Prop
  | .event e index, s => d.stEvq index = some e → (s.stp index).stState ≠ SFXGE_TXQ_FLUSH_DONE
  | .software e label, s => ∀ index ∈ d.seLabelStp e label, (s.stp index).stState ≠ SFXGE_TXQ_FLUSH_DONE
  | .count _, s => s.ctl.waits = true
  | _, _ => True

instance (d : Dev) : ∀ o s, Decidable (Heeds d o s)
  | .event _ _, _ => inferInstanceAs (Decidable (_ → _))
  | .software e label, s =>
    inferInstanceAs (Decidable (∀ index ∈ d.seLabelStp e label, (s.stp index).stState ≠ SFXGE_TXQ_FLUSH_DONE))
  | .count _, s => inferInstanceAs (Decidable (s.ctl.waits = true))
  | .start, _ | .qstart _ _ _, _ | .stop _, _ | .qflush _, _ | .check, _ | .timeout, _ | .wake, _ | .qstop, _
  | .firmware _, _ | .data _ _, _ => inferInstanceAs (Decidable True)

theorem step_tallied (o : Op) (s s' : Sys) (h : Tallied d s) (hC : Heeds d o s) (hs : step d o s = some s') :
    Tallied d s' := by
  have hallows := h.state
  cases o with
  | start =>
    simp only [step] at hs
    split_ifs at hs with hc
    cases hs
    rw [hc] at hallows
    exact h.goto (fun index => Or.inl (hallows index)) (by rw [hc]; exact nofun) (by rw [hc]; rfl)
  | qstart ok descIndex w =>
    simp only [step] at hs
    split at hs
    · rename_i n hc
      rw [hc] at hallows
      split_ifs at hs with hn hevq
      · cases hs
        refine h.goto (fun index => ?_) (by rw [hc]; exact nofun) (by rw [hc]; rfl)
        exact (hallows index).imp_right fun hr => hr.2
      · cases hs
        refine h.goto (fun index => ?_) (by rw [hc]; exact nofun) (by rw [hc]; rfl)
        exact (hallows index).imp_right fun hr => ⟨by omega, hr.2⟩
      · cases hs
        obtain ⟨e, he⟩ := Option.ne_none_iff_exists'.mp hevq
        exact h.qstart hc he descIndex
      · cases hs
        refine h.enterStop (by rw [hc]; rfl) (fun index => ?_) w
        rcases hallows index with hst | ⟨-, hst | hst⟩
        · exact Or.inl hst
        · exact Or.inr (Or.inr hst)
        · exact Or.inr (Or.inl (Or.inr (Or.inl hst)))
    · cases hs
  | stop w =>
    simp only [step] at hs
    split_ifs at hs with hc
    cases hs
    rw [hc] at hallows
    refine h.enterStop (by rw [hc]; rfl) (fun index => ?_) w
    rcases hallows index with hst | hst | hst
    · exact Or.inl hst
    · exact Or.inr (Or.inr hst)
    · exact Or.inr (Or.inl (Or.inr (Or.inl hst)))
  | qflush rc =>
    simp only [step] at hs
    split at hs
    · rename_i w hc
      rw [hc] at hallows
      have hstate : ∀ index, (s.stp index).stState = SFXGE_TXQ_INITIALIZED ∨ (s.stp index).stState.Flushing :=
        fun index => (hallows index).imp_right fun hr => hr.resolve_right fun hlt => absurd hlt.1 (Nat.not_lt_zero _)
      split_ifs at hs
      · cases hs
        exact h.goto hstate (fun _ => rfl) (by rw [hc]; rfl)
      · cases hs
        exact h.flushDone hstate
    · rename_i n w hc
      split_ifs at hs with hevq
      · cases hs
        refine h.goto (fun index => ?_) (fun _ => rfl) (by rw [hc]; rfl)
        rw [hc] at hallows
        refine (hallows index).imp_right fun hr => hr.imp_right fun hlt => ⟨?_, hlt.2⟩
        rcases Nat.lt_succ_iff_lt_or_eq.mp hlt.1 with hlt' | rfl
        · exact hlt'
        · rw [h.absent index hevq] at hlt
          cases hlt.2
      · cases hs
        obtain ⟨e, he⟩ := Option.ne_none_iff_exists'.mp hevq
        exact h.qflush hc he rc
    · cases hs
  | check =>
    simp only [step] at hs
    split_ifs at hs with hc hpend
    · cases hs
      rw [hc] at hallows
      exact h.goto hallows (fun _ => rfl) (by rw [hc]; rfl)
    · cases hs
      rw [hc] at hallows
      exact h.stopWaiting (by rw [hc]; rfl) (by omega) hallows
  | timeout =>
    simp only [step] at hs
    split_ifs at hs with hc
    cases hs
    rw [hc] at hallows
    exact h.flushDone hallows
  | wake =>
    simp only [step] at hs
    split_ifs at hs with hc
    cases hs
    rw [hc] at hallows
    exact h.goto hallows (fun _ => rfl) (by rw [hc]; rfl)
  | qstop =>
    simp only [step] at hs
    split at hs
    · rename_i hc
      cases hs
      exact h.down hc
    · rename_i n hc
      split at hs
      · rename_i hevq
        cases hs
        rw [hc] at hallows
        refine h.goto (fun index => ?_) (fun _ => rfl) (by rw [hc]; rfl)
        rcases hallows index with hst | ⟨hlt, hflush⟩
        · exact Or.inl hst
        · rcases Nat.lt_succ_iff_lt_or_eq.mp hlt with hlt | rfl
          · exact Or.inr ⟨hlt, hflush⟩
          · exact Or.inl (h.absent index hevq)
      · rename_i evq hevq
        split_ifs at hs with hfree
        cases hs
        exact h.qstop hc hevq hfree
    · cases hs
  | event e index =>
    simp only [step] at hs
    split_ifs at hs with hc
    cases hs
    exact h.event hc.1 hC
  | software e label =>
    simp only [step] at hs
    split_ifs at hs with hc
    cases hs
    exact h.software hc.1 hC
  | count e =>
    simp only [step] at hs
    split_ifs at hs with hc
    cases hs
    obtain ⟨index, hbusy⟩ := Option.ne_none_iff_exists'.mp hc.1
    exact h.counted hbusy hC
  | firmware index =>
    cases hs
    exact h.same ⟨rfl, fun _ => rfl, rfl, rfl, rfl, fun _ => id, rfl, rfl⟩
  | data index stp =>
    simp only [step] at hs
    split_ifs at hs with hst
    cases hs
    refine h.same ⟨rfl, fun i => ?_, rfl, rfl, rfl, fun _ => id, rfl, rfl⟩
    rw [state_setTxq]
    split_ifs with hi
    · rw [hst, hi]
    · rfl

theorem tallied_init : Tallied d .init :=
  ⟨rfl, rfl, fun _ => rfl, fun _ _ => rfl, nofun, nofun, fun _ => rfl, nofun⟩

/-- The number of queues in the state `FLUSH_PENDING`. -/
def Sys.flushPending (d : Dev) (s : Sys) : ℕ :=
  ((Finset.range d.size).filter fun index => (s.stp index).stState = SFXGE_TXQ_FLUSH_PENDING).card

/-- No assertion has failed, `sfxge_tx_stop` has not stopped waiting too early, and outside of it the count is
right. -/
def Accounted (d : Dev) (s : Sys) : Prop :=
  s.broken = false ∧ s.early = false ∧ (s.ctl.inStop = false → s.txFlushPending = s.flushPending d)

instance (d : Dev) : DecidablePred (Accounted d) := fun _ => inferInstanceAs (Decidable (_ ∧ _ ∧ (_ → _)))

theorem Tallied.accounted (h : Tallied d s) : Accounted d s := by
  refine ⟨h.broken, h.early, fun hout => ?_⟩
  have hwaits : s.ctl.waits = false := by cases hc : s.ctl <;> rw [hc] at hout <;> first | rfl | cases hout
  have hnone : ((Finset.range d.size).filter fun index => (s.stp index).stState = SFXGE_TXQ_FLUSH_PENDING) = ∅ :=
    Finset.filter_false_of_mem fun index _ hst => not_counted h hout index (Or.inl hst)
  rw [h.zero hwaits, Sys.flushPending, hnone]
  rfl

/-- **The flushes are accounted for** in every run whose steps all heed. -/
theorem flushes_accounted {os : List Op} (h : StepsAlong (step d) (Heeds d) os .init) :
    AlwaysAlong (step d) (Accounted d) os .init :=
  alwaysAlong_of_steps step_tallied (fun _ => Tallied.accounted) os tallied_init h

/-- An adapter with one transmit queue. -/
def oneQueue : Dev where
  size := 1
  stEvq index := if index = 0 then some 0 else none
  stLabel _ := 0
  seLabelStp e label := if e = 0 ∧ label = 0 then some 0 else none
  lt_size {index e} h := by
    split_ifs at h with hi
    omega
  label_stp {index e} h := by
    split_ifs at h with hi
    cases h
    rw [hi]
    rfl
  stp_evq {index e label} h := by
    split_ifs at h with hi
    cases h
    rw [hi.1]
    rfl

/-- The queue is started, and `sfxge_tx_stop` waits for it. -/
def flushOne : List Op :=
  [.start, .qstart true 0 true, .qstart true 0 true, .stop true, .qflush none, .qflush none, .check]

/-- A queue is started, flushed, reported done in time and stopped. -/
theorem flushes_accounted_one : AlwaysAlong (step oneQueue) (Accounted oneQueue)
    (flushOne ++ [.event 0 0, .count 0, .wake, .check, .qstop, .qstop]) .init :=
  flushes_accounted (by decide)

/-- A queue is reported done when the wait is over: the count is left at minus one. -/
theorem count_left_negative : ¬ AlwaysAlong (step oneQueue) (Accounted oneQueue)
    (flushOne ++ [.timeout, .event 0 0, .count 0, .qstop, .qstop]) .init := by
  intro h
  obtain ⟨s, hrun, hneg⟩ : ∃ s, runOps (step oneQueue)
      (flushOne ++ [.timeout, .event 0 0, .count 0, .qstop, .qstop]) .init = some s ∧ ¬ Accounted oneQueue s :=
    exists_of_any (by decide)
  exact hneg (h.last hrun)

end Sfxge.Tx.Flush
