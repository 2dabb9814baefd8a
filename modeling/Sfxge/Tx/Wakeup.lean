import Sfxge.Tx.Accounting
import Sfxge.Tx.Order

/-!
# Tx.Wakeup — what resumes a blocked queue

A queue that is blocked has descriptors in the ring that have not been completed, or an event of which the
completion handling is still to do its part.  The hardware completes a descriptor only when it has been
told of it, and `sfxge_tx_qunblock` posts without telling: that is the one way to lose a wake-up.
-/

namespace Sfxge.Tx

open Errno TxqState Txq Lib

variable {s s' : Sys}

/-! ### What a step does -/

/-- What the holder of the lock is doing to the ring; `pushed` is the local of `sfxge_tx_qdpl_drain`. -/
inductive Stage where
  | out
  | lists
  | drain (pushed : U32)
  | post (pushed : Option U32)
  | posted (pushed : U32)

def Pc.stage : Pc → Stage
  | .free => .out
  | .exit => .out
  | .drain _ _ pushed => .drain pushed
  | .post .qunblock => .post none
  | .post (.drain _ _ pushed) => .post (some pushed)
  | .posted _ _ pushed => .posted pushed
  | _ => .lists

theorem Pc.stage_out {pc : Pc} (h : pc = .free ∨ pc = .exit) : pc.stage = .out := by
  rcases h with rfl | rfl <;> rfl

/-- `efx_tx_qpush` -/
def RingState.push (rs : RingState) : RingState := { rs with stp := rs.stp.efxTxQpush rs.stp.stAdded }

/-- All that a step does to the ring, the lock and the event queue. -/
inductive Moves (s s' : Sys) : Prop
  | same : s'.rs = s.rs → s'.evq = s.evq → s'.pc = s.pc → s'.dpl.stdCount = s.dpl.stdCount → Moves s s'
  | lists : s'.rs = s.rs → s'.evq = s.evq → s.pc = .free ∨ s.pc.stage = .lists → s'.pc.stage = .lists →
      Moves s s'
  | discard (mp : Mblk) : ringStep (.discard mp) s.rs = some s'.rs → s'.evq = s.evq →
      s.pc.stage = .lists → s'.pc.stage = .lists → Moves s s'
  | drain : s.rs.stp.stUnblock = none → s'.rs = s.rs → s'.evq = s.evq → s.pc.stage = .lists →
      s'.pc.stage = .drain s.rs.stp.stAdded → Moves s s'
  /-- the queue is blocked, or its list has been flushed -/
  | leave : s.rs.stp.stUnblock ≠ none ∨ s'.dpl.stdCount = 0 → s'.rs = s.rs → s'.evq = s.evq →
      s.pc.stage = .lists → s'.pc = .exit → Moves s s'
  | packet (mp : Mblk) (f : Bool → Fragments) (pushed : U32) :
      ringStep (.packet mp f) s.rs = some s'.rs → s'.evq = s.evq → s.pc.stage = .drain pushed →
      s'.pc.stage = (if s'.rs.posting = none then .drain pushed else .post (some pushed)) → Moves s s'
  | post (k : Option U32) : ringStep .post s.rs = some s'.rs → s'.evq = s.evq → s.pc.stage = .post k →
      s'.pc.stage = (if s'.rs.posting = none then k.elim .lists .posted else .post k) → Moves s s'
  /-- the list is empty, or the queue is blocked -/
  | drained (pushed : U32) : s.pc.stage = .drain pushed ∧ s'.dpl.stdCount = 0 ∨
        s.pc.stage = .posted pushed ∧ s.rs.stp.stUnblock ≠ none →
      s'.rs = (if s.rs.stp.stAdded ≠ pushed then s.rs.push else s.rs) → s'.evq = s.evq → s'.pc = .exit →
      Moves s s'
  | goon (pushed pushed' : U32) : s.rs.stp.stUnblock = none → s'.evq = s.evq → s.pc.stage = .posted pushed →
      s'.rs = s.rs ∧ pushed' = pushed ∨ s'.rs = s.rs.push ∧ pushed' = s.rs.stp.stAdded →
      s'.pc.stage = .drain pushed' → Moves s s'
  | release : s'.rs = s.rs → s'.evq = (if s.evq = .unblock then .poll else s.evq) → s.pc = .exit →
      s'.pc = .free → s'.dpl.stdCount = s.dpl.stdCount → Moves s s'
  /-- `sfxge_tx_qunblock` finds the queue stopped -/
  | stopped : s.rs.stp.stState ≠ SFXGE_TXQ_STARTED → s.evq = .lock → s'.rs = s.rs → s'.evq = .unblock → s.pc = .free →
      s'.pc = .exit → s'.dpl.stdCount = s.dpl.stdCount → Moves s s'
  | unblock : ringStep .unblock s.rs = some s'.rs → s.evq = .lock → s'.evq = .unblock → s.pc = .free →
      s'.pc.stage = .post none → Moves s s'
  | stay : ringStep .unblock s.rs = none → s.rs.stp.stState = SFXGE_TXQ_STARTED → s.evq = .lock →
      s'.rs = s.rs → s'.evq = .unblock → s.pc = .free → s'.pc.stage = .lists → Moves s s'
  | flush (st : TxqState) : ringStep (.flush st) s.rs = some s'.rs → s'.evq = s.evq → s.pc = .free →
      s'.pc = .free → s'.dpl.stdCount = s.dpl.stdCount → Moves s s'
  | evTx (id : U32) : ringStep (.evTx id) s.rs = some s'.rs → s.evq = .poll → s'.evq = .poll →
      s'.pc = s.pc → s'.dpl.stdCount = s.dpl.stdCount → Moves s s'
  | complete : ringStep .complete s.rs = some s'.rs → s.evq = .poll ∧ s'.evq = .completing ∨
        s.evq = .completing ∧ s'.evq = (if s'.rs.completing = none then .check else .completing) →
      s'.pc = s.pc → s'.dpl.stdCount = s.dpl.stdCount → Moves s s'
  | check : s'.rs = s.rs → s.evq = .check →
      s'.evq = (if s.rs.stp.stUnblock = none then .poll else .level) → s'.pc = s.pc →
      s'.dpl.stdCount = s.dpl.stdCount → Moves s s'
  | level : s'.rs = s.rs → s.evq = .level →
      s'.evq = (if s.rs.stp.belowUnblock s.rs.stp.stAdded then .lock else .poll) → s'.pc = s.pc →
      s'.dpl.stdCount = s.dpl.stdCount → Moves s s'

theorem drainEnd_frame (stpp : Option ℕ) (count : ℕ) (pushed : U32) :
    (s.drainEnd stpp count pushed).rs = (if s.rs.stp.stAdded ≠ pushed then s.rs.push else s.rs) ∧
      (s.drainEnd stpp count pushed).evq = s.evq ∧ (s.drainEnd stpp count pushed).pc = .exit ∧
      (s.drainEnd stpp count pushed).dpl.stdCount = count := by
  have hcount : (if count = 0 then { s.dpl with stdGet := none, stdCount := 0, stdGetp := .head }
      else { s.dpl with stdGet := stpp, stdCount := count } : Dpl).stdCount = count := by
    split_ifs with h
    · exact h.symm
    · rfl
  rw [Sys.drainEnd, Sys.push]
  dsimp only
  by_cases hp : s.rs.stp.stAdded ≠ pushed
  · rw [if_pos hp, if_pos hp]
    exact ⟨rfl, rfl, rfl, hcount⟩
  · rw [if_neg hp, if_neg hp]
    exact ⟨rfl, rfl, rfl, hcount⟩

theorem swizzled_frame (k : SwizzleFor) : (s.swizzled k).rs = s.rs ∧ (s.swizzled k).evq = s.evq ∧
    (s.swizzled k).pc.stage = .lists := by
  cases k <;> exact ⟨rfl, rfl, rfl⟩

theorem appendGet_frame (p count pp : ℕ) : (s.appendGet p count pp).rs = s.rs ∧
    (s.appendGet p count pp).evq = s.evq := by
  unfold Sys.appendGet Sys.setLink
  cases s.dpl.stdGetp <;> exact ⟨rfl, rfl⟩

theorem hold_moves {f : Bool → Bool → Fragments} (hs : s.hold f = some s') : Moves s s' := by
  unfold Sys.hold at hs
  cases hpc : s.pc with
  | free =>
    rw [hpc] at hs
    cases hs
  | swizzle k =>
    rw [hpc] at hs
    cases hs
    have henter : (s.enter k).rs = s.rs ∧ (s.enter k).evq = s.evq := by cases k <;> exact ⟨rfl, rfl⟩
    obtain ⟨h1, h2, h3⟩ := swizzled_frame (s := s.enter k) k
    have hstage : s.pc = .free ∨ s.pc.stage = .lists := Or.inr (by rw [hpc]; rfl)
    unfold Sys.swizzle
    split_ifs
    · exact .lists (h1.trans henter.1) (h2.trans henter.2) hstage h3
    · split
      · exact .lists (h1.trans henter.1) (h2.trans henter.2) hstage h3
      · exact .lists henter.1 henter.2 hstage rfl
  | reverse stpp p count pp k =>
    rw [hpc] at hs
    cases hs
    unfold Sys.reverse
    split <;> exact .lists rfl rfl (Or.inr (by rw [hpc]; rfl)) rfl
  | splice p count pp k =>
    rw [hpc] at hs
    cases hs
    obtain ⟨h1, h2, h3⟩ := swizzled_frame (s := s.appendGet p count pp) k
    obtain ⟨h4, h5⟩ := appendGet_frame (s := s) p count pp
    exact .lists (h1.trans h4) (h2.trans h5) (Or.inr (by rw [hpc]; rfl)) h3
  | tail stpp =>
    rw [hpc] at hs
    cases hs
    obtain ⟨h4, h5⟩ := appendGet_frame (s := s) stpp 1 stpp
    exact .lists h4 h5 (Or.inr (by rw [hpc]; rfl)) rfl
  | service =>
    rw [hpc] at hs
    cases hs
    refine .lists rfl rfl (Or.inr (by rw [hpc]; rfl)) ?_
    dsimp only
    split_ifs <;> rfl
  | unblocked =>
    rw [hpc] at hs
    cases hs
    split_ifs with hb
    · exact .drain hb rfl rfl (by rw [hpc]; rfl) rfl
    · exact .leave (Or.inl hb) rfl rfl (by rw [hpc]; rfl) rfl
  | drain stpp count pushed =>
    rw [hpc] at hs
    dsimp only at hs
    have hstage : s.pc.stage = .drain pushed := by rw [hpc]; rfl
    split_ifs at hs with h0
    · cases hs
      obtain ⟨h1, h2, h3, h4⟩ := drainEnd_frame (s := s) stpp count pushed
      exact .drained pushed (Or.inl ⟨hstage, h4.trans h0⟩) h1 h2 h3
    · obtain ⟨p, -, hs⟩ := Option.bind_eq_some_iff.mp hs
      obtain ⟨mp, -, hs⟩ := Option.bind_eq_some_iff.mp hs
      obtain ⟨rs, hrs, hs⟩ := Option.map_eq_some_iff.mp hs
      split_ifs at hs with hpost <;> subst hs
      · exact .packet mp _ pushed hrs rfl hstage (if_pos hpost).symm
      · exact .packet mp _ pushed hrs rfl hstage (if_neg hpost).symm
  | post k =>
    rw [hpc] at hs
    obtain ⟨rs, hrs, hs⟩ := Option.map_eq_some_iff.mp hs
    cases k with
    | qunblock =>
      split_ifs at hs with hpost <;> subst hs
      · exact .post none hrs rfl (by rw [hpc]; rfl) (if_pos hpost).symm
      · exact .post none hrs rfl (by rw [hpc]; rfl) ((congrArg Pc.stage hpc).trans (if_neg hpost).symm)
    | drain stpp count pushed =>
      split_ifs at hs with hpost <;> subst hs
      · exact .post (some pushed) hrs rfl (by rw [hpc]; rfl) (if_pos hpost).symm
      · exact .post (some pushed) hrs rfl (by rw [hpc]; rfl) ((congrArg Pc.stage hpc).trans (if_neg hpost).symm)
  | posted stpp count pushed =>
    rw [hpc] at hs
    cases hs
    have hstage : s.pc.stage = .posted pushed := by rw [hpc]; rfl
    unfold Sys.posted
    split_ifs with hb
    · obtain ⟨h1, h2, h3, h4⟩ := drainEnd_frame (s := s) stpp count pushed
      exact .drained pushed (Or.inr ⟨hstage, hb⟩) h1 h2 h3
    · exact .goon pushed _ (not_not.mp hb) rfl hstage (Or.inr ⟨rfl, rfl⟩) rfl
    · exact .goon pushed _ (not_not.mp hb) rfl hstage (Or.inl ⟨rfl, rfl⟩) rfl
  | discard stpp count =>
    rw [hpc] at hs
    dsimp only at hs
    have hstage : s.pc.stage = .lists := by rw [hpc]; rfl
    split_ifs at hs with h0
    · cases hs
      exact .leave (Or.inr rfl) rfl rfl hstage rfl
    · obtain ⟨p, -, hs⟩ := Option.bind_eq_some_iff.mp hs
      have hs' : s.discardOne p count = some s' := hs
      obtain ⟨mp, -, hs⟩ := Option.bind_eq_some_iff.mp hs'
      obtain ⟨rs, hrs, rfl⟩ := Option.map_eq_some_iff.mp hs
      exact .discard mp hrs rfl hstage rfl
  | exit =>
    rw [hpc] at hs
    cases hs
    exact .release rfl rfl hpc rfl rfl

/-- **Inversion.** -/
theorem step_moves {op : Op} (hs : step op s = some s') : Moves s s' := by
  cases op with
  | add stpp mp mss =>
    rw [step, Option.ite_none_left_eq_some] at hs
    obtain ⟨-, ⟨⟩⟩ := hs
    unfold Sys.qdplAddUnlocked
    split_ifs <;> exact .same rfl rfl rfl rfl
  | addLocked stpp mp mss =>
    rw [step, Option.ite_none_left_eq_some, not_or, not_not] at hs
    obtain ⟨⟨hpc, -⟩, ⟨⟩⟩ := hs
    unfold Sys.packetAddLocked
    split_ifs
    · exact .same rfl rfl rfl rfl
    · exact .lists rfl rfl (Or.inl hpc) rfl
  | service =>
    rw [step, Option.ite_none_left_eq_some, not_not] at hs
    obtain ⟨hpc, ⟨⟩⟩ := hs
    exact .lists rfl rfl (Or.inl hpc) rfl
  | flushList =>
    rw [step, Option.ite_none_left_eq_some, not_not] at hs
    obtain ⟨hpc, ⟨⟩⟩ := hs
    exact .lists rfl rfl (Or.inl hpc) rfl
  | qunblock =>
    rw [step, Option.ite_none_left_eq_some, not_or, not_not, not_not] at hs
    obtain ⟨⟨hpc, hevq⟩, ⟨⟩⟩ := hs
    unfold Sys.qunblock
    dsimp only
    split_ifs with hst
    · exact .stopped hst hevq rfl rfl hpc rfl rfl
    · split
      · next rs hrs => exact .unblock hrs hevq rfl hpc rfl
      · next hrs => exact .stay hrs (not_not.mp hst) hevq rfl rfl hpc rfl
  | flush st =>
    rw [step, Option.ite_none_left_eq_some, not_not] at hs
    obtain ⟨hpc, hs⟩ := hs
    obtain ⟨rs, hrs, rfl⟩ := Option.map_eq_some_iff.mp hs
    exact .flush st hrs rfl hpc hpc rfl
  | hold f => exact hold_moves hs
  | evTx id =>
    rw [step, Option.ite_none_left_eq_some, not_not] at hs
    obtain ⟨hevq, hs⟩ := hs
    obtain ⟨rs, hrs, rfl⟩ := Option.map_eq_some_iff.mp hs
    exact .evTx id hrs hevq hevq rfl rfl
  | qcomplete =>
    rw [step, Sys.qcomplete] at hs
    split at hs
    · next hevq =>
      obtain ⟨rs, hrs, rfl⟩ := Option.map_eq_some_iff.mp hs
      exact .complete hrs (Or.inl ⟨hevq, rfl⟩) rfl rfl
    · next hevq =>
      obtain ⟨rs, hrs, rfl⟩ := Option.map_eq_some_iff.mp hs
      exact .complete hrs (Or.inr ⟨hevq, rfl⟩) rfl rfl
    · next hevq =>
      cases hs
      exact .check rfl hevq rfl rfl rfl
    · next hevq =>
      cases hs
      exact .level rfl hevq rfl rfl rfl
    · cases hs
    · cases hs

/-- A step of the queue is at most one step of its ring. -/
theorem Moves.ring (h : Moves s s') : s'.rs = s.rs ∨ RingState.Step s.rs s'.rs := by
  cases h with
  | same h | lists h | drain _ h | leave _ h | release h | stopped _ _ h | stay _ _ _ h | check h | level h =>
    exact Or.inl h
  | discard mp h => exact Or.inr ⟨_, h⟩
  | packet mp f pushed h => exact Or.inr ⟨_, h⟩
  | post k h | unblock h | flush st h | evTx id h | complete h => exact Or.inr ⟨_, h⟩
  | drained pushed _ h =>
    rw [h]
    split_ifs
    · exact Or.inr ⟨.push, rfl⟩
    · exact Or.inl rfl
  | goon pushed pushed' _ _ _ h =>
    rcases h with ⟨h, -⟩ | ⟨h, -⟩
    · exact Or.inl h
    · exact Or.inr ⟨.push, by rw [h]; rfl⟩

/-- The ring of a queue runs as `Tx.Accounting` describes. -/
theorem ring_reachable (h : Reach Started Step s) : Reach (· = RingState.init) RingState.Step s.rs := by
  induction h with
  | start h =>
    obtain ⟨pkt, get, put, d, rfl⟩ := h
    exact .next (.start rfl) ⟨.start d, rfl⟩
  | next _ hstep ih =>
    obtain ⟨op, hs⟩ := hstep
    rcases (step_moves hs).ring with h | h
    · rw [h]
      exact ih
    · exact .next ih h

/-! ### What a step of the ring does to the unblock level -/

/-- `sfxge_tx_qlist_post` has set the unblock level and may reset it. -/
def Txq.PostPc.Racing : PostPc → Prop
  | .race => True
  | .unrace => True
  | _ => False

theorem qreap_frame (stp : Txq) : stp.qreap.frame = { stp with stReaped := stp.qreap.stReaped }.frame := by
  rw [Txq.qreap, iterate_reapOne]
  rfl

theorem postStep_again (stp : Txq) : stp.postStep .again = (stp, some .space) ∨
    ∃ (stp' : Txq) (added : U32), stp'.frame = stp.frame ∧
      stp.postStep .again = ({ stp' with stAdded := added, stN := 0 }, none) := by
  rw [postStep]
  split_ifs
  · exact Or.inl rfl
  · split
    · exact Or.inl rfl
    · exact Or.inr ⟨_, _, frame_moveInfo _ _ _, rfl⟩

/-- What the posting of a list never changes. -/
def Txq.kept (stp : Txq) : (U32 × U32) × TxqState × U32 :=
  ((stp.stPending, stp.stCompleted), stp.stState, stp.wptr)

theorem kept_of_frame {stp stp' : Txq} (h : stp'.frame = stp.frame) : stp'.kept = stp.kept := by
  simp only [Txq.frame, Prod.mk.injEq] at h
  obtain ⟨⟨-, -, hp, hc⟩, -, hst, hw⟩ := h
  rw [Txq.kept, hp, hc, hst, hw]
  rfl

theorem kept_qreap (stp : Txq) : stp.qreap.kept = stp.kept := by
  have hk : stp.qreap.kept = { stp with stReaped := stp.qreap.stReaped }.kept := kept_of_frame (qreap_frame stp)
  exact hk

theorem kept_post (stp : Txq) (pc : PostPc) : (stp.postStep pc).1.kept = stp.kept := by
  cases pc with
  | again =>
    obtain h | ⟨stp', added, hf, h⟩ := postStep_again stp
    · rw [h]
    · have hk : stp'.kept = stp.kept := kept_of_frame hf
      rw [h]
      exact hk
  | reap => exact kept_qreap stp
  | unrace => exact kept_qreap stp
  | space | batch | block | race => rfl

/-- The list is posted, and the queue is not blocked; or `st_added` stays, and the queue is left blocked
only with descriptors that are still pending. -/
theorem post_unblock {stp : Txq} {pc : PostPc} (h : stp.stUnblock = none ↔ ¬ pc.Racing) :
    ((stp.postStep pc).2 = none ∧ (stp.postStep pc).1.stUnblock = none) ∨
    ((stp.postStep pc).1.stAdded = stp.stAdded ∧
      (∀ pc' ∈ (stp.postStep pc).2, ((stp.postStep pc).1.stUnblock = none ↔ ¬ pc'.Racing)) ∧
      ((stp.postStep pc).2 = none → stp.stPending ≠ stp.stAdded)) := by
  have hqreap : stp.qreap.stAdded = stp.stAdded ∧ stp.qreap.stUnblock = stp.stUnblock := by
    have hf := qreap_frame stp
    simp only [Txq.frame, Prod.mk.injEq] at hf
    exact ⟨hf.1.1, hf.2.1⟩
  cases pc with
  | again =>
    have hnone : stp.stUnblock = none := h.mpr id
    obtain h | ⟨stp', added, hf, h⟩ := postStep_again stp
    · rw [h]
      exact Or.inr ⟨rfl, by simp [hnone, PostPc.Racing], by simp⟩
    · simp only [Txq.frame, Prod.mk.injEq] at hf
      rw [h]
      exact Or.inl ⟨rfl, hf.2.1.trans hnone⟩
  | space =>
    have hnone : stp.stUnblock = none := h.mpr id
    refine Or.inr ⟨rfl, ?_, ?_⟩ <;> rw [postStep] <;> dsimp only <;> split_ifs <;>
      simp [hnone, PostPc.Racing]
  | batch =>
    have hnone : stp.stUnblock = none := h.mpr id
    refine Or.inr ⟨rfl, ?_, ?_⟩ <;> rw [postStep] <;> dsimp only <;> split_ifs <;>
      simp [hnone, PostPc.Racing]
  | reap =>
    have hnone : stp.stUnblock = none := h.mpr id
    exact Or.inr ⟨hqreap.1, by simp [postStep, hqreap.2, hnone, PostPc.Racing], by simp [postStep]⟩
  | block => exact Or.inr ⟨rfl, by simp [postStep, PostPc.Racing], by simp [postStep]⟩
  | race =>
    have hsome : stp.stUnblock ≠ none := fun hn => h.mp hn trivial
    rw [postStep]
    dsimp only
    split_ifs with hrace
    · exact Or.inr ⟨rfl, by simp [hsome, PostPc.Racing], by simp⟩
    · exact Or.inr ⟨rfl, by simp, fun _ => hrace⟩
  | unrace => exact Or.inr ⟨hqreap.1, by simp [postStep, PostPc.Racing], by simp [postStep]⟩

variable {rs rs' : RingState}

theorem discard_frame {mp : Mblk} (h : ringStep (.discard mp) rs = some rs') :
    rs'.posting = rs.posting ∧ rs'.completing = rs.completing ∧ rs'.stp.frame = rs.stp.frame := by
  cases h
  exact ⟨rfl, rfl, rfl⟩

theorem packet_frame {mp : Mblk} {f : Bool → Fragments} (h : ringStep (.packet mp f) rs = some rs') :
    rs.posting = none ∧ (rs'.posting = none ∨ rs'.posting = some .again) ∧ rs'.completing = rs.completing ∧
      rs'.stp.frame = rs.stp.frame := by
  rw [ringStep, Option.ite_none_right_eq_some] at h
  obtain ⟨⟨hidle, -⟩, ⟨⟩⟩ := h
  refine ⟨hidle, ?_, rfl, frame_fragmentPacket f mp rs.stp⟩
  dsimp only
  split_ifs
  · exact Or.inr rfl
  · exact Or.inl rfl

theorem unblock_inv (h : ringStep .unblock rs = some rs') :
    (rs.posting = none ∧ rs.stp.stState = SFXGE_TXQ_STARTED ∧ rs.stp.stUnblock ≠ none ∧
      rs.stp.belowUnblock rs.stp.stAdded) ∧
      rs' = { rs with stp := { rs.stp with stUnblock := none }, posting := some .again } := by
  rw [ringStep, Option.ite_none_right_eq_some] at h
  exact ⟨h.1, (Option.some.inj h.2).symm⟩

theorem flush_inv {st : TxqState} (h : ringStep (.flush st) rs = some rs') :
    (rs.posting = none ∧ rs.stp.stState = SFXGE_TXQ_STARTED ∧ st.Flushing) ∧
      rs' = { rs with stp := { rs.stp with stState := st } } := by
  rw [ringStep, Option.ite_none_right_eq_some] at h
  exact ⟨h.1, (Option.some.inj h.2).symm⟩

theorem evTx_frame {id : U32} (h : ringStep (.evTx id) rs = some rs') :
    rs'.posting = rs.posting ∧ rs'.completing = rs.completing ∧
      rs'.stp.frame = { rs.stp with stPending := rs'.stp.stPending }.frame := by
  rw [ringStep, Option.ite_none_right_eq_some] at h
  obtain ⟨-, ⟨⟩⟩ := h
  refine ⟨rfl, rfl, ?_⟩
  dsimp only
  unfold evTx
  split_ifs <;> rfl

theorem post_inv (h : ringStep .post rs = some rs') : ∃ pc, rs.posting = some pc ∧
    rs' = { rs with stp := (rs.stp.postStep pc).1, posting := (rs.stp.postStep pc).2 } := by
  obtain ⟨pc, hpc, heq⟩ := Option.map_eq_some_iff.mp h
  exact ⟨pc, hpc, heq.symm⟩

/-- The completion handling leaves all but the completion information, `st_completed` and its own place. -/
theorem complete_frame (h : ringStep .complete rs = some rs') :
    rs'.posting = rs.posting ∧
      rs'.stp.frame = { rs.stp with stCompleted := rs'.stp.stCompleted }.frame ∧
      (rs.completing = none → rs'.completing ≠ none) ∧
      (rs'.completing = none → rs'.stp.stCompleted = rs.stp.stPending) := by
  rw [ringStep] at h
  cases hc : rs.completing with
  | none =>
    rw [hc] at h
    cases h
    exact ⟨rfl, rfl, by simp, by simp⟩
  | some c =>
    rw [hc] at h
    dsimp only at h
    split_ifs at h with hend <;> cases h
    · exact ⟨rfl, rfl, by simp, fun _ => hend⟩
    · refine ⟨rfl, ?_, by simp, by simp⟩
      have hf := frame_completeOne c rs.stp
      have hcc : (rs.stp.completeOne c).stCompleted = rs.stp.stCompleted := by
        simp only [Txq.frame, Prod.mk.injEq] at hf
        exact hf.1.2.2.2
      exact hf.trans (by rw [hcc])

/-! ### The invariant -/

/-- The thread of the event queue is on its way to `sfxge_tx_qunblock`. -/
def EvqPc.Busy : EvqPc → Prop
  | .completing => True
  | .check => True
  | .level => True
  | .lock => True
  | _ => False

/-- The unblock level is set and is not about to be reset. -/
def RingState.Blocked (rs : RingState) : Prop :=
  rs.stp.stUnblock ≠ none ∧ ∀ pc ∈ rs.posting, ¬ pc.Racing

/-- Where the holder of the lock is. -/
structure Holding (s : Sys) : Prop where
  posting : s.rs.posting ≠ none → ∃ k, s.pc.stage = .post k
  post : ∀ k, s.pc.stage = .post k → s.rs.posting ≠ none
  level : ∀ pc ∈ s.rs.posting, (s.rs.stp.stUnblock = none ↔ ¬ pc.Racing)
  drain : ∀ pushed, s.pc.stage = .drain pushed → s.rs.stp.stUnblock = none
  flushed : s.pc = .free ∨ s.pc = .exit → s.dpl.stdCount ≠ 0 → s.rs.stp.stUnblock ≠ none

theorem Holding.idle (H : Holding s) (h : ∀ k, s.pc.stage ≠ .post k) : s.rs.posting = none := by
  by_contra hne
  obtain ⟨k, hk⟩ := H.posting hne
  exact h k hk

theorem Holding.congr (H : Holding s) (hpost : s'.rs.posting = s.rs.posting)
    (hblock : s'.rs.stp.stUnblock = s.rs.stp.stUnblock) (hpc : s'.pc = s.pc)
    (hcount : s'.dpl.stdCount = s.dpl.stdCount) : Holding s' where
  posting := by rw [hpost, hpc]; exact H.posting
  post := by rw [hpost, hpc]; exact H.post
  level := by rw [hpost, hblock]; exact H.level
  drain := by rw [hblock, hpc]; exact H.drain
  flushed := by rw [hblock, hpc, hcount]; exact H.flushed

theorem holding_idle (hidle : s.rs.posting = none) (hpost : ∀ k, s.pc.stage ≠ .post k)
    (hdrain : ∀ pushed, s.pc.stage = .drain pushed → s.rs.stp.stUnblock = none)
    (hflush : s.pc = .free ∨ s.pc = .exit → s.dpl.stdCount ≠ 0 → s.rs.stp.stUnblock ≠ none) : Holding s where
  posting h := absurd hidle h
  post k h := absurd h (hpost k)
  level pc h := by rw [hidle] at h; cases h
  drain := hdrain
  flushed := hflush

/-- The holder is with the lists. -/
theorem holding_lists (hidle : s.rs.posting = none) (hstage : s.pc.stage = .lists) : Holding s := by
  refine holding_idle hidle ?_ ?_ ?_
  · rw [hstage]
    exact nofun
  · rw [hstage]
    exact nofun
  · intro h
    rw [Pc.stage_out h] at hstage
    cases hstage

/-- The lock is free or about to be. -/
theorem holding_out (hidle : s.rs.posting = none) (hpc : s.pc = .free ∨ s.pc = .exit)
    (hflush : s.dpl.stdCount ≠ 0 → s.rs.stp.stUnblock ≠ none) : Holding s := by
  have hstage := Pc.stage_out hpc
  refine holding_idle hidle ?_ ?_ fun _ => hflush
  · rw [hstage]
    exact nofun
  · rw [hstage]
    exact nofun

theorem holding_started (h : Started s) : Holding s := by
  obtain ⟨pkt, get, put, d, rfl⟩ := h
  exact holding_out rfl (Or.inl rfl) fun h => absurd rfl h

theorem holding_moves (H : Holding s) (h : Moves s s') : Holding s' := by
  have hfree : s.pc = .free → s.rs.posting = none := fun h => H.idle (by simp [Pc.stage_out (Or.inl h)])
  have hexit : s.pc = .exit → s.rs.posting = none := fun h => H.idle (by simp [Pc.stage_out (Or.inr h)])
  have hlists : s.pc.stage = .lists → s.rs.posting = none := fun h => H.idle (by simp [h])
  cases h with
  | same hrs _ hpc hcount => exact H.congr (by rw [hrs]) (by rw [hrs]) hpc hcount
  | lists hrs _ hpc hstage => exact holding_lists (by rw [hrs]; exact hpc.elim hfree hlists) hstage
  | discard mp hrs _ hpc hstage =>
    exact holding_lists ((discard_frame hrs).1.trans (hlists hpc)) hstage
  | drain hb hrs _ hpc hstage =>
    refine holding_idle (by rw [hrs]; exact hlists hpc) (by simp [hstage]) ?_ ?_
    · rw [hrs]
      exact fun _ _ => hb
    · exact fun h => absurd (hstage.symm.trans (Pc.stage_out h)) (by simp)
  | leave hl hrs _ hpc hexit' =>
    refine holding_out (by rw [hrs]; exact hlists hpc) (Or.inr hexit') fun h => ?_
    rw [hrs]
    exact hl.resolve_right h
  | packet mp f pushed hrs _ hpc hstage =>
    obtain ⟨-, hpost, -, hf⟩ := packet_frame hrs
    simp only [Txq.frame, Prod.mk.injEq] at hf
    have hnone : s'.rs.stp.stUnblock = none := hf.2.1.trans (H.drain pushed hpc)
    obtain hpost | hpost := hpost
    · rw [if_pos hpost] at hstage
      refine holding_idle hpost (by simp [hstage]) (fun _ _ => hnone) ?_
      exact fun h => absurd (hstage.symm.trans (Pc.stage_out h)) (by simp)
    · rw [if_neg (by simp [hpost])] at hstage
      refine ⟨fun _ => ⟨_, hstage⟩, fun _ _ => by simp [hpost], ?_, fun _ _ => hnone, ?_⟩
      · intro pc hpc
        rw [hpost] at hpc
        cases hpc
        exact ⟨fun _ => id, fun _ => hnone⟩
      · exact fun h => absurd (hstage.symm.trans (Pc.stage_out h)) (by simp)
  | post k hrs _ hpc hstage =>
    obtain ⟨pc, hposting, heq⟩ := post_inv hrs
    have hlevel := post_unblock (H.level pc hposting)
    cases hpost : (s.rs.stp.postStep pc).2 with
    | none =>
      have hidle : s'.rs.posting = none := by rw [heq]; exact hpost
      rw [if_pos hidle] at hstage
      cases k with
      | none => exact holding_lists hidle hstage
      | some pushed =>
        refine holding_idle hidle (by simp [hstage]) (by simp [hstage]) ?_
        exact fun h => absurd (hstage.symm.trans (Pc.stage_out h)) (by simp)
    | some pc' =>
      have hposting' : s'.rs.posting = some pc' := by rw [heq]; exact hpost
      rw [if_neg (by simp [hposting'])] at hstage
      refine ⟨fun _ => ⟨k, hstage⟩, fun _ _ => by simp [hposting'], ?_, by simp [hstage], ?_⟩
      · obtain ⟨hno, -⟩ | ⟨-, hlevel, -⟩ := hlevel
        · rw [hpost] at hno
          cases hno
        · rw [heq]
          exact hlevel
      · exact fun h => absurd (hstage.symm.trans (Pc.stage_out h)) (by simp)
  | drained pushed hl hrs _ hexit' =>
    have hstp : s'.rs.posting = s.rs.posting ∧ s'.rs.stp.stUnblock = s.rs.stp.stUnblock := by
      rw [hrs]
      split_ifs <;> exact ⟨rfl, rfl⟩
    refine holding_out (hstp.1.trans (H.idle ?_)) (Or.inr hexit') fun hcount => ?_
    · obtain ⟨h, -⟩ | ⟨h, -⟩ := hl <;> rw [h] <;> simp
    · obtain ⟨-, h⟩ | ⟨-, h⟩ := hl
      · exact absurd h hcount
      · rw [hstp.2]
        exact h
  | goon pushed pushed' hb _ hpc hrs hstage =>
    have hstp : s'.rs.posting = s.rs.posting ∧ s'.rs.stp.stUnblock = s.rs.stp.stUnblock := by
      obtain ⟨hrs, -⟩ | ⟨hrs, -⟩ := hrs <;> rw [hrs] <;> exact ⟨rfl, rfl⟩
    refine holding_idle (hstp.1.trans (H.idle (by simp [hpc]))) (by simp [hstage])
      (fun _ _ => hstp.2.trans hb) ?_
    exact fun h => absurd (hstage.symm.trans (Pc.stage_out h)) (by simp)
  | release hrs _ hpc hpc' hcount =>
    refine holding_out (by rw [hrs]; exact hexit hpc) (Or.inl hpc') ?_
    rw [hrs, hcount]
    exact H.flushed (Or.inr hpc)
  | stopped _ _ hrs _ hpc hpc' hcount =>
    refine holding_out (by rw [hrs]; exact hfree hpc) (Or.inr hpc') ?_
    rw [hrs, hcount]
    exact H.flushed (Or.inl hpc)
  | unblock hrs _ _ hpc hstage =>
    obtain ⟨-, heq⟩ := unblock_inv hrs
    refine ⟨fun _ => ⟨_, hstage⟩, fun _ _ => by simp [heq], ?_, by simp [hstage], ?_⟩
    · rw [heq]
      intro pc hpc
      cases hpc
      exact ⟨fun _ => id, fun _ => rfl⟩
    · exact fun h => absurd (hstage.symm.trans (Pc.stage_out h)) (by simp)
  | stay _ _ _ hrs _ hpc hstage => exact holding_lists (by rw [hrs]; exact hfree hpc) hstage
  | flush st hrs _ hpc hpc' hcount =>
    obtain ⟨-, heq⟩ := flush_inv hrs
    exact H.congr (by rw [heq]) (by rw [heq]) (hpc'.trans hpc.symm) hcount
  | evTx id hrs _ _ hpc hcount =>
    obtain ⟨hpost, -, hf⟩ := evTx_frame hrs
    simp only [Txq.frame, Prod.mk.injEq] at hf
    exact H.congr hpost hf.2.1 hpc hcount
  | complete hrs _ hpc hcount =>
    obtain ⟨hpost, hf, -⟩ := complete_frame hrs
    simp only [Txq.frame, Prod.mk.injEq] at hf
    exact H.congr hpost hf.2.1 hpc hcount
  | check hrs _ _ hpc hcount => exact H.congr (by rw [hrs]) (by rw [hrs]) hpc hcount
  | level hrs _ _ hpc hcount => exact H.congr (by rw [hrs]) (by rw [hrs]) hpc hcount

/-- Where the event queue's thread is. -/
structure Serving (s : Sys) : Prop where
  completing : s.evq = .completing ↔ s.rs.completing ≠ none
  completed : s.evq = .check ∨ s.evq = .level ∨ s.evq = .lock → s.rs.stp.stCompleted = s.rs.stp.stPending

theorem serving_started (h : Started s) : Serving s := by
  obtain ⟨pkt, get, put, d, rfl⟩ := h
  exact ⟨⟨nofun, fun h => absurd rfl h⟩, nofun⟩

theorem Serving.congr (S : Serving s) (hc : s'.rs.completing = s.rs.completing)
    (hk : s'.rs.stp.kept.1 = s.rs.stp.kept.1) (hevq : s'.evq = s.evq) : Serving s' := by
  obtain ⟨hp, hcc⟩ := Prod.mk.inj hk
  refine ⟨?_, ?_⟩
  · rw [hc, hevq]
    exact S.completing
  · rw [hcc, hp, hevq]
    exact S.completed

/-- The thread goes to `poll` or `unblock`. -/
theorem Serving.idle (S : Serving s) (h : s.evq ≠ .completing) (hc : s'.rs.completing = s.rs.completing)
    (hevq : s'.evq = .poll ∨ s'.evq = .unblock) : Serving s' := by
  have hnone : s.rs.completing = none := by
    by_contra hne
    exact h (S.completing.mpr hne)
  refine ⟨?_, ?_⟩
  · rw [hc, hnone]
    rcases hevq with h | h <;> rw [h] <;> exact ⟨nofun, fun h => absurd rfl h⟩
  · rcases hevq with h | h <;> rw [h] <;> exact nofun

/-- The thread goes on from the loop of `sfxge_tx_qcomplete`. -/
theorem Serving.goon (S : Serving s) (h : s.evq = .check ∨ s.evq = .level) (hrs : s'.rs = s.rs)
    (hevq : s'.evq = .level ∨ s'.evq = .lock) : Serving s' := by
  have hnone : s.rs.completing = none := by
    by_contra hne
    have hcom := S.completing.mpr hne
    rcases h with h | h <;> rw [h] at hcom <;> cases hcom
  refine ⟨?_, ?_⟩
  · rw [hrs, hnone]
    rcases hevq with h | h <;> rw [h] <;> exact ⟨nofun, fun h => absurd rfl h⟩
  · intro _
    rw [hrs]
    exact S.completed (h.imp_right Or.inl)

theorem serving_moves (S : Serving s) (h : Moves s s') : Serving s' := by
  cases h with
  | same hrs hevq | lists hrs hevq | drain _ hrs hevq | leave _ hrs hevq =>
    exact S.congr (by rw [hrs]) (by rw [hrs]) hevq
  | discard mp hrs hevq =>
    obtain ⟨-, hc, hf⟩ := discard_frame hrs
    exact S.congr hc (congrArg Prod.fst (kept_of_frame hf)) hevq
  | packet mp f pushed hrs hevq =>
    obtain ⟨-, -, hc, hf⟩ := packet_frame hrs
    exact S.congr hc (congrArg Prod.fst (kept_of_frame hf)) hevq
  | post k hrs hevq =>
    obtain ⟨pc, -, heq⟩ := post_inv hrs
    refine S.congr (by rw [heq]) ?_ hevq
    rw [heq]
    exact congrArg Prod.fst (kept_post s.rs.stp pc)
  | drained pushed _ hrs hevq =>
    refine S.congr ?_ ?_ hevq <;> rw [hrs] <;> split_ifs <;> rfl
  | goon pushed pushed' _ hevq _ hrs =>
    obtain ⟨hrs, -⟩ | ⟨hrs, -⟩ := hrs
    · exact S.congr (by rw [hrs]) (by rw [hrs]) hevq
    · exact S.congr (by rw [hrs]; rfl) (by rw [hrs]; rfl) hevq
  | release hrs hevq hpc =>
    by_cases h : s.evq = .unblock
    · rw [if_pos h] at hevq
      exact S.idle (by simp [h]) (by rw [hrs]) (Or.inl hevq)
    · rw [if_neg h] at hevq
      exact S.congr (by rw [hrs]) (by rw [hrs]) hevq
  | stopped _ h hrs hevq => exact S.idle (by simp [h]) (by rw [hrs]) (Or.inr hevq)
  | unblock hrs h hevq =>
    obtain ⟨-, heq⟩ := unblock_inv hrs
    exact S.idle (by simp [h]) (by rw [heq]) (Or.inr hevq)
  | stay _ _ h hrs hevq => exact S.idle (by simp [h]) (by rw [hrs]) (Or.inr hevq)
  | flush st hrs hevq =>
    obtain ⟨-, heq⟩ := flush_inv hrs
    exact S.congr (by rw [heq]) (by rw [heq]; rfl) hevq
  | evTx id hrs hevq hevq' =>
    obtain ⟨-, hc, -⟩ := evTx_frame hrs
    exact S.idle (by simp [hevq]) hc (Or.inl hevq')
  | complete hrs hevq =>
    obtain ⟨-, hf, hstart, hend⟩ := complete_frame hrs
    have hpending : s'.rs.stp.stPending = s.rs.stp.stPending := by
      simp only [Txq.frame, Prod.mk.injEq] at hf
      exact hf.1.2.2.1
    obtain ⟨h, hevq⟩ | ⟨-, hevq⟩ := hevq
    · have hidle : s.rs.completing = none := by
        by_contra hne
        rw [S.completing.mpr hne] at h
        cases h
      refine ⟨⟨fun _ => hstart hidle, fun _ => hevq⟩, ?_⟩
      rw [hevq]
      simp
    · by_cases hnone : s'.rs.completing = none
      · rw [if_pos hnone] at hevq
        refine ⟨?_, fun _ => (hend hnone).trans hpending.symm⟩
        rw [hevq, hnone]
        exact ⟨by simp, fun h => absurd rfl h⟩
      · rw [if_neg hnone] at hevq
        refine ⟨⟨fun _ => hnone, fun _ => hevq⟩, ?_⟩
        rw [hevq]
        simp
  | check hrs hevq hevq' =>
    split_ifs at hevq'
    · exact S.idle (by simp [hevq]) (by rw [hrs]) (Or.inl hevq')
    · exact S.goon (Or.inl hevq) hrs (Or.inl hevq')
  | level hrs hevq hevq' =>
    split_ifs at hevq'
    · exact S.goon (Or.inr hevq) hrs (Or.inr hevq')
    · exact S.idle (by simp [hevq]) (by rw [hrs]) (Or.inl hevq')

/-- A blocked queue waits for a descriptor, for the event of one or for the event queue's thread. -/
def Sys.Waits (s : Sys) : Prop := s.rs.stp.stState = SFXGE_TXQ_STARTED → s.rs.Blocked →
  s.rs.stp.stPending ≠ s.rs.stp.stAdded ∨ s.rs.stp.stPending ≠ s.rs.stp.stCompleted ∨ s.evq.Busy

theorem waits_congr (W : s.Waits) (hblock : s'.rs.Blocked → s.rs.Blocked)
    (hadded : s'.rs.stp.stAdded = s.rs.stp.stAdded) (hk : s'.rs.stp.kept.1 = s.rs.stp.kept.1)
    (hst : s'.rs.stp.stState = s.rs.stp.stState) (hevq : s.evq.Busy → s'.evq.Busy) : s'.Waits := by
  obtain ⟨hp, hcc⟩ := Prod.mk.inj hk
  intro hst' hb
  rw [hp, hcc, hadded]
  exact (W (hst.symm.trans hst') (hblock hb)).imp_right (Or.imp_right hevq)

theorem waits_same (W : s.Waits) (hrs : s'.rs = s.rs) (hevq : s.evq.Busy → s'.evq.Busy) : s'.Waits :=
  waits_congr W (by rw [hrs]; exact id) (by rw [hrs]) (by rw [hrs]) (by rw [hrs]) hevq

theorem waits_unblocked (h : s.rs.stp.stUnblock = none) : s.Waits := fun _ hb => absurd h hb.1

/-- A queue above its unblock level has descriptors that have not been completed. -/
theorem added_ne_completed {stp : Txq} (hb : ¬ stp.belowUnblock stp.stAdded) : stp.stAdded ≠ stp.stCompleted := by
  intro heq
  refine hb fun level _ => ?_
  rw [heq, BitVec.sub_self]
  exact Nat.zero_le _

/-- The thread leaves a queue that is above its unblock level. -/
theorem waits_above (S : Serving s) (hevq : s.evq = .level ∨ s.evq = .lock)
    (hb : s.rs.stp.stUnblock ≠ none → ¬ s.rs.stp.belowUnblock s.rs.stp.stAdded) (hrs : s'.rs = s.rs) : s'.Waits := by
  intro _ hblock
  rw [hrs] at hblock
  rw [hrs, ← S.completed (Or.inr hevq)]
  exact Or.inl (added_ne_completed (hb hblock.1)).symm

variable {b A R C D P : ℕ}

theorem waits_moves (H : Holding s) (S : Serving s) (hc : Counts s.rs b A R C D P) (W : s.Waits)
    (h : Moves s s') : s'.Waits := by
  have H' := holding_moves H h
  cases h with
  | same hrs hevq | lists hrs hevq | drain _ hrs hevq | leave _ hrs hevq =>
    exact waits_same W hrs (by rw [hevq]; exact id)
  | discard mp hrs hevq =>
    obtain ⟨hpost, -, hf⟩ := discard_frame hrs
    have hk := kept_of_frame hf
    simp only [Txq.frame, Prod.mk.injEq] at hf
    obtain ⟨⟨hadded, -⟩, hblock, hst, -⟩ := hf
    refine waits_congr W ?_ hadded (congrArg Prod.fst hk) hst (by rw [hevq]; exact id)
    rw [RingState.Blocked, hblock, hpost]
    exact id
  | packet mp f pushed hrs hevq hpc =>
    obtain ⟨-, -, -, hf⟩ := packet_frame hrs
    simp only [Txq.frame, Prod.mk.injEq] at hf
    exact waits_unblocked (hf.2.1.trans (H.drain pushed hpc))
  | post k hrs hevq =>
    obtain ⟨pc, hposting, heq⟩ := post_inv hrs
    intro hst hb
    cases hpost : (s.rs.stp.postStep pc).2 with
    | none =>
      have hk := kept_post s.rs.stp pc
      obtain ⟨-, hno⟩ | ⟨hadded, -, hne⟩ := post_unblock (H.level pc hposting)
      · rw [heq] at hb
        exact absurd hno hb.1
      · left
        rw [heq]
        dsimp only
        rw [hadded, (Prod.mk.inj (Prod.mk.inj hk).1).1]
        exact hne hpost
    | some pc' =>
      have hposting' : pc' ∈ s'.rs.posting := by rw [heq]; exact hpost
      exact absurd ((H'.level pc' hposting').mpr (hb.2 pc' hposting')) hb.1
  | drained pushed _ hrs hevq =>
    refine waits_congr W ?_ ?_ ?_ ?_ (by rw [hevq]; exact id) <;> rw [hrs] <;> split_ifs <;> first | exact id | rfl
  | goon pushed pushed' hno hevq _ hrs =>
    obtain ⟨hrs, -⟩ | ⟨hrs, -⟩ := hrs
    · exact waits_unblocked (by rw [hrs]; exact hno)
    · exact waits_unblocked (by rw [hrs]; exact hno)
  | release hrs hevq hpc =>
    refine waits_same W hrs fun hbusy => ?_
    by_cases h : s.evq = .unblock
    · rw [h] at hbusy
      exact hbusy.elim
    · rw [hevq, if_neg h]
      exact hbusy
  | stopped hst h hrs hevq =>
    intro hst'
    rw [hrs] at hst'
    exact absurd hst' hst
  | unblock hrs h hevq =>
    obtain ⟨-, heq⟩ := unblock_inv hrs
    exact waits_unblocked (by rw [heq])
  | stay hno hst h hrs hevq hpc =>
    refine waits_above S (Or.inr h) (fun hb hbelow => ?_) hrs
    have hidle : s.rs.posting = none := H.idle (by simp [Pc.stage_out (Or.inl hpc)])
    rw [ringStep, if_pos ⟨hidle, hst, hb, hbelow⟩] at hno
    cases hno
  | flush st hrs hevq =>
    obtain ⟨⟨-, -, hfl⟩, heq⟩ := flush_inv hrs
    intro hst
    rw [heq] at hst
    change st = _ at hst
    rw [hst] at hfl
    exact absurd hfl (by decide)
  | evTx id hrs hevq hevq' =>
    obtain ⟨h1, h2, h3, h4, h5⟩ := hc.order
    rw [ringStep, Option.ite_none_right_eq_some] at hrs
    obtain ⟨⟨-, hid⟩, hrs⟩ := hrs
    obtain ⟨P', hP, hA, heq⟩ := hc.evTx hid
    rw [heq] at hrs
    intro hst hblock
    rw [← Option.some.inj hrs] at hst hblock ⊢
    have hW := W hst hblock
    rw [hc.pending, hc.added, hc.completed] at hW
    dsimp only
    rw [hc.added, hc.completed]
    by_cases hne : P' = A
    · refine Or.inr (Or.inl fun he => ?_)
      have hPC : P' = C := (idx_inj (by omega) (by omega)).mp he
      have hPA : P = A ∧ P = C := by omega
      obtain h | h | h := hW
      · exact h (by rw [hPA.1])
      · exact h (by rw [hPA.2])
      · rw [hevq] at h
        exact h.elim
    · exact Or.inl fun he => hne ((idx_inj hA (by omega)).mp he.symm).symm
  | complete hrs hevq =>
    intro _ _
    refine Or.inr (Or.inr ?_)
    obtain ⟨-, hevq⟩ | ⟨-, hevq⟩ := hevq
    · rw [hevq]
      trivial
    · rw [hevq]
      split_ifs <;> trivial
  | check hrs hevq hevq' =>
    split_ifs at hevq' with hno
    · exact waits_unblocked (by rw [hrs]; exact hno)
    · exact fun _ _ => Or.inr (Or.inr (by rw [hevq']; trivial))
  | level hrs hevq hevq' =>
    split_ifs at hevq' with hb
    · exact fun _ _ => Or.inr (Or.inr (by rw [hevq']; trivial))
    · exact waits_above S (Or.inl hevq) (fun _ => hb) hrs

/-! ### The doorbell -/

/-- The local `pushed` of `sfxge_tx_qdpl_drain` when `sfxge_tx_qlist_post` has returned to it. -/
def Pc.returned : Pc → Option U32
  | .posted _ _ pushed => some pushed
  | _ => none

theorem Pc.returned_iff {pc : Pc} {pushed : U32} : pc.returned = some pushed ↔ pc.stage = .posted pushed := by
  cases pc with
  | posted stpp count pushed' =>
    exact ⟨fun h => congrArg Stage.posted (Option.some.inj h), fun h => congrArg some (Stage.posted.inj h)⟩
  | post k => cases k <;> exact ⟨nofun, nofun⟩
  | _ => exact ⟨nofun, nofun⟩

/-- When `sfxge_tx_qdpl_drain` is to leave a blocked queue with nothing of its own to push, there is nothing
else to push either. -/
def Sys.Announced (s : Sys) : Prop := ∀ pushed ∈ s.pc.returned, s.rs.stp.stUnblock ≠ none →
  s.rs.stp.stAdded = pushed → s.rs.stp.wptr = s.rs.stp.stAdded

instance (s : Sys) : Decidable s.Announced := match h : s.pc.returned with
  | none => isTrue (by rw [Sys.Announced, h]; exact nofun)
  | some pushed =>
    decidable_of_iff (s.rs.stp.stUnblock ≠ none → s.rs.stp.stAdded = pushed → s.rs.stp.wptr = s.rs.stp.stAdded)
      (by simp [Sys.Announced, h])

/-- The condition on a step, in the state before it. -/
def Announces : Op → Sys → Prop
  | .hold _, s => s.Announced
  | _, _ => True

instance : ∀ op s, Decidable (Announces op s)
  | .hold _, s => inferInstanceAs (Decidable s.Announced)
  | .add .., _ | .addLocked .., _ | .service, _ | .flushList, _ | .qunblock, _ | .flush _, _ | .evTx _, _
  | .qcomplete, _ => isTrue trivial

/-- The hardware has been told of the descriptors of a blocked queue. -/
structure Told (s : Sys) : Prop where
  blocked : s.rs.stp.stUnblock ≠ none →
    (∀ pushed, s.pc.stage ≠ .posted pushed ∧ s.pc.stage ≠ .post (some pushed)) → s.rs.stp.wptr = s.rs.stp.stAdded
  unblock : s.pc.stage = .post none → s.rs.stp.wptr = s.rs.stp.stAdded

theorem told_started (h : Started s) : Told s := by
  obtain ⟨pkt, get, put, d, rfl⟩ := h
  exact ⟨fun _ _ => rfl, fun _ => rfl⟩

theorem Told.idle (T : Told s) (hstage : s.pc.stage = .out ∨ s.pc.stage = .lists) (hb : s.rs.stp.stUnblock ≠ none) :
    s.rs.stp.wptr = s.rs.stp.stAdded := by
  refine T.blocked hb fun pushed => ?_
  rcases hstage with h | h <;> rw [h] <;> exact ⟨nofun, nofun⟩

theorem told_idle (hstage : s.pc.stage ≠ .post none)
    (h : s.rs.stp.stUnblock ≠ none → s.rs.stp.wptr = s.rs.stp.stAdded) : Told s :=
  ⟨fun hb _ => h hb, fun h => absurd h hstage⟩

/-- What the doorbell is about. -/
def Txq.bell (stp : Txq) : U32 × Option ℕ × U32 := (stp.stAdded, stp.stUnblock, stp.wptr)

theorem Told.congr (T : Told s) (h : s'.rs.stp.bell = s.rs.stp.bell) (hpc : s'.pc = s.pc) : Told s' := by
  simp only [Txq.bell, Prod.mk.injEq] at h
  obtain ⟨hadded, hblock, hwptr⟩ := h
  refine ⟨?_, ?_⟩
  · rw [hblock, hpc, hwptr, hadded]
    exact T.blocked
  · rw [hpc, hwptr, hadded]
    exact T.unblock

theorem Told.goon (T : Told s) (h : s'.rs.stp.bell = s.rs.stp.bell)
    (hstage : s.pc.stage = .out ∨ s.pc.stage = .lists) (hstage' : s'.pc.stage ≠ .post none) : Told s' := by
  simp only [Txq.bell, Prod.mk.injEq] at h
  obtain ⟨hadded, hblock, hwptr⟩ := h
  refine told_idle hstage' ?_
  rw [hblock, hwptr, hadded]
  exact T.idle hstage

theorem bell_of_frame {stp stp' : Txq} (h : stp'.frame = stp.frame) : stp'.bell = stp.bell := by
  simp only [Txq.frame, Prod.mk.injEq] at h
  obtain ⟨⟨ha, -⟩, hb, -, hw⟩ := h
  rw [Txq.bell, ha, hb, hw]
  rfl

theorem told_moves (H : Holding s) (T : Told s) (hann : s'.pc = .exit → s.Announced) (h : Moves s s') :
    Told s' := by
  cases h with
  | same hrs _ hpc | check hrs _ _ hpc | level hrs _ _ hpc => exact T.congr (by rw [hrs]) hpc
  | lists hrs _ hpc hstage =>
    exact T.goon (by rw [hrs]) (hpc.imp_left fun h => Pc.stage_out (Or.inl h)) (by simp [hstage])
  | discard mp hrs _ hpc hstage =>
    exact T.goon (bell_of_frame (discard_frame hrs).2.2) (Or.inr hpc) (by simp [hstage])
  | drain hb hrs _ _ hstage =>
    exact told_idle (by simp [hstage]) fun h => absurd hb (by rw [← hrs]; exact h)
  | leave _ hrs _ hpc hpc' => exact T.goon (by rw [hrs]) (Or.inr hpc) (by simp [Pc.stage_out (Or.inr hpc')])
  | packet mp f pushed hrs _ hpc hstage =>
    obtain ⟨-, -, -, hf⟩ := packet_frame hrs
    simp only [Txq.frame, Prod.mk.injEq] at hf
    refine told_idle ?_ fun h => absurd (hf.2.1.trans (H.drain pushed hpc)) h
    rw [hstage]
    split_ifs <;> simp
  | post k hrs _ hpc hstage =>
    obtain ⟨pc, hposting, heq⟩ := post_inv hrs
    have hw : s'.rs.stp.wptr = s.rs.stp.wptr := by
      rw [heq]
      exact (Prod.mk.inj (Prod.mk.inj (kept_post s.rs.stp pc)).2).2
    cases k with
    | some pushed =>
      split_ifs at hstage
      · exact ⟨fun _ h => absurd hstage (h pushed).1, fun h => absurd (hstage.symm.trans h) (by simp)⟩
      · exact ⟨fun _ h => absurd hstage (h pushed).2, fun h => absurd (hstage.symm.trans h) (by simp)⟩
    | none =>
      obtain ⟨hidle, hno⟩ | ⟨hadded, -⟩ := post_unblock (H.level pc hposting)
      · rw [if_pos (by rw [heq]; exact hidle)] at hstage
        refine told_idle (by simp [hstage]) fun h => absurd hno ?_
        rw [heq] at h
        exact h
      · have htold : s'.rs.stp.wptr = s'.rs.stp.stAdded := by
          rw [hw, T.unblock hpc, heq]
          exact hadded.symm
        exact ⟨fun _ _ => htold, fun _ => htold⟩
  | drained pushed hl hrs _ hpc' =>
    refine told_idle (by simp [Pc.stage_out (Or.inr hpc')]) ?_
    rw [hrs]
    split_ifs with hne
    · exact fun _ => rfl
    · intro hb
      obtain ⟨h, -⟩ | ⟨h, -⟩ := hl
      · exact absurd (H.drain pushed h) hb
      · exact hann hpc' pushed (Pc.returned_iff.mpr h) hb (not_not.mp hne)
  | goon pushed pushed' hb _ _ hrs hstage =>
    refine told_idle (by simp [hstage]) fun h => absurd ?_ h
    obtain ⟨hrs, -⟩ | ⟨hrs, -⟩ := hrs <;> rw [hrs] <;> exact hb
  | release hrs _ hpc hpc' =>
    exact T.goon (by rw [hrs]) (Or.inl (Pc.stage_out (Or.inr hpc))) (by simp [Pc.stage_out (Or.inl hpc')])
  | stopped _ _ hrs _ hpc hpc' =>
    exact T.goon (by rw [hrs]) (Or.inl (Pc.stage_out (Or.inl hpc))) (by simp [Pc.stage_out (Or.inr hpc')])
  | stay _ _ _ hrs _ hpc hstage =>
    exact T.goon (by rw [hrs]) (Or.inl (Pc.stage_out (Or.inl hpc))) (by simp [hstage])
  | unblock hrs _ _ hpc hstage =>
    obtain ⟨⟨-, -, hb, -⟩, heq⟩ := unblock_inv hrs
    have htold := T.idle (Or.inl (Pc.stage_out (Or.inl hpc))) hb
    exact ⟨fun h => absurd (by rw [heq]) h, fun _ => by rw [heq]; exact htold⟩
  | flush st hrs _ hpc hpc' =>
    obtain ⟨-, heq⟩ := flush_inv hrs
    exact T.congr (by rw [heq]; rfl) (hpc'.trans hpc.symm)
  | evTx id hrs _ _ hpc =>
    obtain ⟨-, -, hf⟩ := evTx_frame hrs
    have hbell := bell_of_frame hf
    exact T.congr hbell hpc
  | complete hrs _ hpc =>
    obtain ⟨-, hf, -⟩ := complete_frame hrs
    have hbell := bell_of_frame hf
    exact T.congr hbell hpc

/-! ### Runs -/

theorem awake_reachable (h : Reach Started Step s) : Holding s ∧ Serving s ∧ s.Waits := by
  induction h with
  | start h =>
    refine ⟨holding_started h, serving_started h, waits_unblocked ?_⟩
    obtain ⟨pkt, get, put, d, rfl⟩ := h
    rfl
  | next hr hstep ih =>
    obtain ⟨H, S, W⟩ := ih
    obtain ⟨op, hs⟩ := hstep
    obtain ⟨b, A, R, C, D, P, hc⟩ := counts_reachable (ring_reachable hr)
    have hm := step_moves hs
    exact ⟨holding_moves H hm, serving_moves S hm, waits_moves H S hc W hm⟩

/-- A step that meets the condition. -/
def Announcing (s s' : Sys) : Prop := ∃ op, Announces op s ∧ step op s = some s'

/-- Only a step of the holder leaves `sfxge_tx_qdpl_drain`. -/
theorem announced_exit {op : Op} (ha : Announces op s) (hs : step op s = some s') (hpc : s'.pc = .exit) :
    s.Announced := by
  intro pushed hreturned
  have hstage := Pc.returned_iff.mp hreturned
  have hfree : s.pc ≠ .free := by
    intro h
    rw [h] at hstage
    cases hstage
  have hexit : s'.pc ≠ s.pc := by
    intro h
    rw [← h, hpc] at hstage
    cases hstage
  cases op with
  | hold f => exact ha pushed hreturned
  | add stpp mp mss =>
    rw [step, Option.ite_none_left_eq_some] at hs
    obtain ⟨-, ⟨⟩⟩ := hs
    refine absurd ?_ hexit
    unfold Sys.qdplAddUnlocked
    split_ifs <;> rfl
  | addLocked stpp mp mss =>
    rw [step, if_pos (Or.inl hfree)] at hs
    cases hs
  | service | flushList | flush =>
    rw [step, if_pos hfree] at hs
    cases hs
  | qunblock =>
    rw [step, if_pos (Or.inl hfree)] at hs
    cases hs
  | evTx id =>
    rw [step, Option.ite_none_left_eq_some] at hs
    obtain ⟨rs, -, rfl⟩ := Option.map_eq_some_iff.mp hs.2
    exact absurd rfl hexit
  | qcomplete =>
    refine absurd ?_ hexit
    rw [step, Sys.qcomplete] at hs
    split at hs
    · obtain ⟨rs, -, rfl⟩ := Option.map_eq_some_iff.mp hs
      rfl
    · obtain ⟨rs, -, rfl⟩ := Option.map_eq_some_iff.mp hs
      rfl
    · cases hs
      rfl
    · cases hs
      rfl
    · cases hs
    · cases hs

theorem told_reachable (h : Reach Started Announcing s) : Reach Started Step s ∧ Told s := by
  induction h with
  | start h => exact ⟨.start h, told_started h⟩
  | next _ hstep ih =>
    obtain ⟨hr, T⟩ := ih
    obtain ⟨op, ha, hs⟩ := hstep
    exact ⟨.next hr ⟨op, hs⟩, told_moves (awake_reachable hr).1 T (announced_exit ha hs) (step_moves hs)⟩

/-- How a started queue blocks and unblocks. -/
structure Sys.Wakes (s : Sys) : Prop where
  /-- `sfxge_tx_qlist_post` leaves the queue blocked only with posted descriptors that are not completed -/
  left : ∀ s', Step s s' → s.rs.posting ≠ none → s'.rs.posting = none → s'.rs.stp.stUnblock ≠ none →
    s'.rs.stp.stPending ≠ s'.rs.stp.stAdded
  /-- after `sfxge_tx_qcomplete` has completed all descriptors the queue is not blocked -/
  completed : s.rs.stp.stState = SFXGE_TXQ_STARTED → s.evq = .poll → s.rs.stp.stCompleted = s.rs.stp.stAdded →
    ¬ s.rs.Blocked
  /-- the lock is released with packets on the get list only when the queue is blocked -/
  released : s.pc = .free ∨ s.pc = .exit → s.dpl.stdCount ≠ 0 → s.rs.stp.stUnblock ≠ none

/-- While packets wait and no one holds the lock, there is a completion to come: of a descriptor that the
hardware has been told of, or one that the event queue's thread is still to handle. -/
def Sys.Resumes (s : Sys) : Prop := s.pc = .free → s.rs.stp.stState = SFXGE_TXQ_STARTED →
  s.dpl.stdCount ≠ 0 ∨ s.rs.stp.stUnblock ≠ none →
    (s.rs.stp.stPending ≠ s.rs.stp.stAdded ∧ s.rs.stp.wptr = s.rs.stp.stAdded) ∨
      s.rs.stp.stPending ≠ s.rs.stp.stCompleted ∨ s.evq.Busy

theorem left_step (H : Holding s) (h : Moves s s') (hpost : s.rs.posting ≠ none) (hidle : s'.rs.posting = none)
    (hb : s'.rs.stp.stUnblock ≠ none) : s'.rs.stp.stPending ≠ s'.rs.stp.stAdded := by
  obtain ⟨k, hstage⟩ := H.posting hpost
  have hother : ∀ st, s.pc.stage = st → Stage.post k = st := fun st h => hstage.symm.trans h
  have hout : s.pc = .free ∨ s.pc = .exit → Stage.post k = .out := fun h => hother _ (Pc.stage_out h)
  cases h with
  | same hrs | check hrs | level hrs =>
    rw [hrs] at hidle
    exact absurd hidle hpost
  | lists _ _ hpc => exact absurd (hpc.elim (fun h => hout (Or.inl h)) (fun h => nomatch hother _ h)) nofun
  | discard _ _ _ hpc | drain _ _ _ hpc | leave _ _ _ hpc => exact absurd (hother _ hpc) nofun
  | packet _ _ _ _ _ hpc | goon _ _ _ _ hpc => exact absurd (hother _ hpc) nofun
  | post k hrs =>
    obtain ⟨pc, hposting, heq⟩ := post_inv hrs
    have hk := kept_post s.rs.stp pc
    rw [heq] at hidle hb ⊢
    obtain ⟨-, hno⟩ | ⟨hadded, -, hne⟩ := post_unblock (H.level pc hposting)
    · exact absurd hno hb
    · dsimp only
      rw [hadded, (Prod.mk.inj (Prod.mk.inj hk).1).1]
      exact hne hidle
  | drained pushed hl => exact absurd (hl.elim (fun h => hother _ h.1) (fun h => nomatch hother _ h.1)) nofun
  | release _ _ hpc => exact absurd (hout (Or.inr hpc)) nofun
  | stopped _ _ _ _ hpc => exact absurd (hout (Or.inl hpc)) nofun
  | unblock _ _ _ hpc => exact absurd (hout (Or.inl hpc)) nofun
  | stay _ _ _ _ _ hpc => exact absurd (hout (Or.inl hpc)) nofun
  | flush _ _ _ hpc => exact absurd (hout (Or.inl hpc)) nofun
  | evTx _ hrs =>
    rw [(evTx_frame hrs).1] at hidle
    exact absurd hidle hpost
  | complete hrs =>
    rw [(complete_frame hrs).1] at hidle
    exact absurd hidle hpost

theorem wakes_reachable (h : Reach Started Step s) : s.Wakes := by
  obtain ⟨H, S, W⟩ := awake_reachable h
  obtain ⟨b, A, R, C, D, P, hc⟩ := counts_reachable (ring_reachable h)
  refine ⟨fun s' ⟨op, hs⟩ => left_step H (step_moves hs), fun hst hevq hall hb => ?_, H.flushed⟩
  obtain ⟨h1, h2, h3, h4, h5⟩ := hc.order
  have hW := W hst hb
  rw [hc.completed, hc.added] at hall
  have hAC := (idx_inj (by omega) (by omega)).mp hall.symm
  have hP : P = C := by omega
  rw [hc.pending, hc.completed, hc.added, hAC, hP] at hW
  obtain h | h | h := hW
  · exact h rfl
  · exact h rfl
  · rw [hevq] at h
    exact h

theorem resumes_reachable (h : Reach Started Announcing s) : s.Resumes := by
  obtain ⟨hr, T⟩ := told_reachable h
  obtain ⟨H, S, W⟩ := awake_reachable hr
  intro hpc hst hwork
  have hb : s.rs.stp.stUnblock ≠ none := hwork.elim (H.flushed (Or.inl hpc)) id
  have hidle : s.rs.posting = none := H.idle (by rw [hpc]; exact nofun)
  have hblocked : s.rs.Blocked := ⟨hb, by rw [hidle]; exact nofun⟩
  exact (W hst hblocked).imp_left fun hne => ⟨hne, T.idle (Or.inl (Pc.stage_out (Or.inl hpc))) hb⟩

/-- **No lost wake-up.**  In every run the queue blocks and unblocks as it should; and in a run where a
blocked `sfxge_tx_qdpl_drain` with nothing of its own to push leaves nothing unpushed, packets that wait
always have a completion to come. -/
theorem wakeup_reachable (s : Sys) :
    (Reach Started Step s → s.Wakes) ∧ (Reach Started Announcing s → s.Resumes) :=
  ⟨wakes_reachable, resumes_reachable⟩

/-- A queue with the default limits. -/
def defaultQueue : Sys := .started (fun _ => .blank) 4096 256 0

/-- A packet that takes the whole ring. -/
def ringFragments (_ _ : Bool) : Txq.Fragments := ⟨none, 1008, [⟨0, none⟩], [], by decide⟩

/-- A packet is added with the lock, and the holder makes `n` steps. -/
def send (p n : ℕ) (f : Bool → Bool → Txq.Fragments) : List Op := .addLocked p p 0 :: List.replicate n (.hold f)

theorem reach_default {os : List Op} (h : runOps step os defaultQueue = some s) : Reach Started Step s :=
  Reach.runOps (fun op _ _ _ hs => ⟨op, hs⟩) (.start ⟨_, _, _, _, rfl⟩) h

/-- A packet of one descriptor is sent, and one that takes the whole ring blocks the queue. -/
def blocked : List Op := send 1 9 oneFragment ++ send 2 11 ringFragments

theorem wakeup_blocked : ∃ s, runOps step blocked defaultQueue = some s ∧ s.rs.stp.stUnblock = some 252 ∧
    s.Wakes ∧ s.Resumes := by
  obtain ⟨s, hs⟩ : ∃ s, runOps (guarded step Announces) blocked defaultQueue = some s := ⟨_, rfl⟩
  have hval : s.rs.stp.stUnblock = some 252 := by
    cases hs
    rfl
  have hr : Reach Started Announcing s :=
    Reach.runOps (fun op _ _ _ hs => ⟨op, guarded_inv hs⟩) (.start ⟨_, _, _, _, rfl⟩) hs
  have hrun := runOps_guarded hs
  exact ⟨s, hrun, hval, (wakeup_reachable s).1 (reach_default hrun), (wakeup_reachable s).2 hr⟩

/-- A packet of one descriptor is sent, one that takes the whole ring blocks the queue, and two more wait
behind it.  The completion of the first makes room for the second, which `sfxge_tx_qunblock` posts; the
third blocks the queue again. -/
def unpushed : List Op :=
  send 1 9 oneFragment ++ send 2 11 ringFragments ++ send 3 5 oneFragment ++ send 4 5 oneFragment ++
    .evTx 0 :: List.replicate 5 .qcomplete ++ .qunblock :: List.replicate 16 (.hold oneFragment)

theorem unpushed_stuck : ¬ ∀ s, Reach Started Step s → s.Wakes ∧ s.Resumes := by
  intro h
  obtain ⟨s, hs⟩ : ∃ s, runOps step unpushed defaultQueue = some s := ⟨_, rfl⟩
  have hres := (h s (reach_default hs)).2
  have hval : s.pc = .free ∧ s.rs.stp.stState = SFXGE_TXQ_STARTED ∧ s.dpl.stdCount = 1 ∧ s.rs.stp.wptr = 1 ∧
      s.rs.stp.stAdded = 1009 ∧ s.rs.stp.stPending = 1 ∧ s.rs.stp.stCompleted = 1 ∧ s.evq = .poll := by
    cases hs
    exact ⟨rfl, rfl, rfl, rfl, rfl, rfl, rfl, rfl⟩
  obtain ⟨hpc, hst, hcount, hw, ha, hp, hcc, hevq⟩ := hval
  have := hres hpc hst (Or.inl (by rw [hcount]; decide))
  rw [hw, ha, hp, hcc, hevq] at this
  obtain h | h | h := this
  · exact absurd h.2 (by decide)
  · exact h rfl
  · exact h

end Sfxge.Tx
