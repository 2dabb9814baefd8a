import Sfxge.Mcdi.Iface

/-!
# Mcdi.Sections — what each section of the MCDI functions does to the interface

`Nic.core` is the part of the state that matching and epochs depend on.  The code after a lock is
dropped keeps it; each locked section has one lemma that says all it does to it.
-/

namespace Sfxge.Mcdi

open Lib Lib.Prog Errno

/-! ### What the functions do to the interface -/

/-- What matching and the epochs depend on. -/
structure Core where
  pending : Option ℕ
  evCpl : Bool
  seq : U32
  aborted : BitVec 32
  newEpoch : Bool
  maxVersion : ℕ
  modMcdi : Bool

def Nic.core (enp : Nic) : Core where
  pending := enp.emip.emiPendingReq
  evCpl := enp.emip.emiEvCpl
  seq := enp.emip.emiSeq
  aborted := enp.emip.emiAborted
  newEpoch := enp.emip.emiNewEpoch
  maxVersion := enp.emip.emiMaxVersion
  modMcdi := enp.modMcdi

/-- The sequence number of the request started last. -/
def Core.lastSeq (c : Core) : U32 := (c.seq - 1) &&& mask32 MCDI_HEADER_SEQ

/-- A completion event with this sequence number takes the pending request. -/
def Core.Matches (c : Core) (seq : U32) (emrp : ℕ) : Prop :=
  c.pending = some emrp ∧ c.evCpl = true ∧ seq = c.lastSeq

variable {ε : Type}

theorem keeps_setReq (emrp : ℕ) (f : EfxMcdiReq → EfxMcdiReq) :
    (setReq emrp f : Prog Nic ε Unit).Keeps Nic.core := by
  intro s a s' h
  cases h
  rfl

theorem keeps_getReq (emrp : ℕ) : (getReq emrp : Prog Nic ε _).Keeps Nic.core := by
  intro s a s' h
  cases h
  rfl

theorem keeps_getEmip : (getEmip : Prog Nic ε _).Keeps Nic.core := by
  intro s a s' h
  cases h
  rfl

theorem keeps_get : (get : Prog Nic ε _).Keeps Nic.core := by
  intro s a s' h
  cases h
  rfl

theorem keeps_readDword (ofst : ℕ) : (efxMcdiReadResponseDword ofst : Prog Nic ε _).Keeps Nic.core := by
  intro s a s' h
  cases h
  rfl

theorem keeps_readResponse (ofst n : ℕ) : (efxMcdiReadResponse ofst n : Prog Nic ε _).Keeps Nic.core := by
  intro s a s' h
  cases h
  rfl

theorem keeps_pollReboot : (efxMcdiPollReboot : Prog Nic ε _).Keeps Nic.core := by
  intro s a s' h
  unfold efxMcdiPollReboot at h
  split at h <;> cases h <;> rfl

theorem keeps_responseShape : (efxMcdiResponseShape : Prog Nic ε _).Keeps Nic.core := by
  unfold efxMcdiResponseShape
  refine keeps_bind (keeps_readDword _) fun hdr0 => keeps_ite (keeps_pure _) ?_
  exact keeps_bind (keeps_readDword _) fun hdr1 => keeps_pure _

theorem keeps_readResponseHeader (emrp : ℕ) :
    (efxMcdiReadResponseHeader emrp : Prog Nic ε _).Keeps Nic.core := by
  unfold efxMcdiReadResponseHeader
  refine keeps_bind (keeps_readDword _) fun hdr0 => keeps_bind keeps_responseShape fun shape => ?_
  refine keeps_bind keeps_getEmip fun emip => keeps_bind (keeps_getReq _) fun emr => ?_
  refine keeps_ite (keeps_bind keeps_pollReboot fun _ => keeps_setReq _ _) ?_
  refine keeps_ite (keeps_setReq _ _) (keeps_ite ?_ (keeps_setReq _ _))
  exact keeps_bind (keeps_readDword _) fun code => keeps_bind (keeps_readDword _) fun arg =>
    keeps_setReq _ _

theorem keeps_finishResponse (emrp : ℕ) :
    (efxMcdiFinishResponse emrp : Prog Nic ε _).Keeps Nic.core := by
  unfold efxMcdiFinishResponse
  refine keeps_bind (keeps_getReq _) fun emr => keeps_ite (keeps_pure _) ?_
  exact keeps_bind keeps_responseShape fun shape => keeps_bind (keeps_readResponse _ _) fun payload =>
    keeps_setReq _ _

theorem keeps_efsysAssert (c : Prop) [Decidable c] :
    (efsysAssert c : Prog Nic ε Unit).Keeps Nic.core := by
  intro s a s' h
  unfold efsysAssert at h
  split_ifs at h <;> cases h
  rfl

theorem keeps_raiseException (emrp : Option ℕ) (rc : Errno) :
    (efxMcdiRaiseException emrp rc : Prog Nic ε _).Keeps Nic.core := by
  unfold efxMcdiRaiseException
  refine keeps_bind (keeps_efsysAssert _) fun _ => ?_
  intro s a s' h
  obtain ⟨enp, s1, h1, h2⟩ := bind_ret_inv h
  cases h1
  split_ifs at h2 <;> cases h2 <;> rfl

theorem keeps_startSend (emrp : ℕ) (evCpl : Bool) (l : RequestLocals) :
    (efxMcdiRequestStartSend emrp evCpl l : Prog Nic ε _).Keeps Nic.core := by
  unfold efxMcdiRequestStartSend
  refine keeps_bind (keeps_getReq _) fun emr => ?_
  intro s a s' h
  cases h
  rfl

theorem keeps_pollFinish (sec : PollSection) :
    (efxMcdiRequestPollFinish sec : Prog Nic ε _).Keeps Nic.core := by
  cases sec with
  | waiting => exact keeps_pure _
  | fail1 emrp rc => exact keeps_ite (keeps_raiseException _ _) (keeps_pure _)
  | complete emrp =>
    refine keeps_bind (keeps_getReq _) fun emr => ?_
    split
    · exact keeps_finishResponse _
    · exact keeps_ite (keeps_raiseException _ _) (keeps_pure _)

theorem keeps_evCplFinish (emrp outlen : ℕ) (errcode : U32) :
    (efxMcdiEvCplFinish emrp outlen errcode : Prog Nic ε _).Keeps Nic.core := by
  unfold efxMcdiEvCplFinish
  refine keeps_bind keeps_getEmip fun emip => keeps_bind ?_ fun _ => ?_
  · exact keeps_ite (keeps_readResponseHeader _) (keeps_ite (keeps_setReq _ _) (keeps_setReq _ _))
  · exact keeps_when (keeps_finishResponse _)

/-! ### The locked sections -/

variable {enp enp' : Nic}

@[simp] theorem getEmip_apply : (getEmip : Prog Nic ε _) enp = .ret enp.emip enp := rfl

theorem efsysAssert_pos {c : Prop} [Decidable c] (h : c) :
    (efsysAssert c : Prog Nic ε Unit) enp = .ret () enp := by
  rw [efsysAssert, if_pos h]
  rfl

theorem efsysAssert_bind_inv {c : Prop} [Decidable c] {α : Type} {f : Unit → Prog Nic ε α} {a : α}
    (h : (efsysAssert c >>= f) enp = .ret a enp') : c ∧ f () enp = .ret a enp' := by
  by_cases hc : c
  · rw [bind_of_ret (efsysAssert_pos hc)] at h
    exact ⟨hc, h⟩
  · rw [efsysAssert, if_neg hc] at h
    cases h

theorem start_inv {emrp : ℕ} {ev : Bool} {l : RequestLocals}
    (h : (efxMcdiRequestStartLocked emrp ev : Prog Nic ε _) enp = .ret l enp') :
    enp.core.modMcdi = true ∧ enp.core.pending = none ∧
      l = ⟨enp.core.seq &&& mask32 MCDI_HEADER_SEQ, enp.core.newEpoch, enp.core.maxVersion⟩ ∧
      enp'.core = { enp.core with pending := some emrp, evCpl := ev, seq := enp.core.seq + 1 } := by
  unfold efxMcdiRequestStartLocked at h
  rw [bind_of_ret (get_apply _)] at h
  obtain ⟨hmod, h1⟩ := efsysAssert_bind_inv h
  rw [bind_of_ret getEmip_apply] at h1
  obtain ⟨hp, h2⟩ := efsysAssert_bind_inv h1
  cases h2
  exact ⟨hmod, hp, rfl, rfl⟩

theorem start_run (emrp : ℕ) (ev : Bool) (hmod : enp.core.modMcdi = true)
    (hp : enp.core.pending = none) :
    ∃ l enp', (efxMcdiRequestStartLocked emrp ev : Prog Nic ε _) enp = .ret l enp' := by
  unfold efxMcdiRequestStartLocked
  rw [bind_of_ret (get_apply _), bind_of_ret (efsysAssert_pos (show enp.modMcdi = true from hmod)),
    bind_of_ret getEmip_apply,
    bind_of_ret (efsysAssert_pos (show enp.emip.emiPendingReq = none from hp))]
  exact ⟨_, _, rfl⟩

/-- The request a section of `efx_mcdi_request_poll` has taken. -/
def PollSection.taken : PollSection → Option ℕ
  | .waiting => none
  | .fail1 emrp _ | .complete emrp => some emrp

theorem poll_inv {sec : PollSection}
    (h : (efxMcdiRequestPollLocked : Prog Nic ε _) enp = .ret sec enp') :
    enp.core.evCpl = false ∧ ∃ emrp, enp.core.pending = some emrp ∧
      (sec.taken = none ∧ enp'.core = enp.core ∨
        sec.taken = some emrp ∧ enp'.core = { enp.core with pending := none }) := by
  unfold efxMcdiRequestPollLocked at h
  rw [bind_of_ret (get_apply _)] at h
  obtain ⟨-, h1⟩ := efsysAssert_bind_inv h
  rw [bind_of_ret getEmip_apply] at h1
  cases hp : enp.emip.emiPendingReq with
  | none =>
    rw [hp] at h1
    cases h1
  | some emrp =>
    rw [hp] at h1
    obtain ⟨hev, h2⟩ := efsysAssert_bind_inv h1
    refine ⟨hev, emrp, hp, ?_⟩
    obtain ⟨_, s1, h3, h4⟩ := bind_ret_inv h2
    obtain ⟨reboot, s2, h5, h6⟩ := bind_ret_inv h4
    have e1 : s1.core = enp.core := by
      cases h3
      rfl
    have e2 : s2.core = enp.core := by
      rw [← e1]
      exact keeps_ite keeps_pollReboot (keeps_pure _) _ _ _ h5
    cases reboot with
    | some rc =>
      cases h6
      exact Or.inr ⟨rfl, by rw [← e2]; rfl⟩
    | none =>
      obtain ⟨b, s3, h7, h8⟩ := bind_ret_inv h6
      have e3 : s3.core = enp.core := by
        cases h7
        exact e2
      split_ifs at h8
      · cases h8
        exact Or.inl ⟨rfl, e3⟩
      · obtain ⟨_, s4, h9, h10⟩ := bind_ret_inv h8
        have e4 : s4.core = enp.core := by
          rw [← e3]
          exact keeps_readResponseHeader _ _ _ _ h9
        cases h10
        exact Or.inr ⟨rfl, by rw [← e4]; rfl⟩

theorem abort_run (hmod : enp.core.modMcdi = true) :
    ∃ enp', (efxMcdiRequestAbort : Prog Nic ε _) enp = .ret enp.core.pending enp' ∧
      enp'.core = { enp.core with
        pending := none
        aborted := if enp.core.pending ≠ none ∧ enp.core.evCpl = true then enp.core.aborted + 1
          else enp.core.aborted } := by
  unfold efxMcdiRequestAbort
  rw [bind_of_ret (get_apply _), bind_of_ret (efsysAssert_pos (show enp.modMcdi = true from hmod))]
  rw [bind_of_ret getEmip_apply]
  cases hp : enp.emip.emiPendingReq with
  | none =>
    have hc : enp.core.pending = none := hp
    refine ⟨enp, by rw [hc]; rfl, ?_⟩
    rw [if_neg (fun h => h.1 hc), ← hc]
  | some emrp =>
    have hc : enp.core.pending = some emrp := hp
    rw [hc]
    cases hev : enp.emip.emiEvCpl with
    | false =>
      have hc' : enp.core.evCpl = false := hev
      refine ⟨_, rfl, ?_⟩
      rw [hc', if_neg (by simp)]
      simp only [Nic.core]
    | true =>
      have hc' : enp.core.evCpl = true := hev
      refine ⟨_, rfl, ?_⟩
      rw [hc', if_pos ⟨by simp, rfl⟩]
      simp only [Nic.core]

theorem mod_of_abort {r : Option ℕ} (h : (efxMcdiRequestAbort : Prog Nic ε _) enp = .ret r enp') :
    enp.core.modMcdi = true := by
  unfold efxMcdiRequestAbort at h
  rw [bind_of_ret (get_apply _)] at h
  exact (efsysAssert_bind_inv h).1

theorem mod_of_evCpl {seq : U32} {r : Option ℕ}
    (h : (efxMcdiEvCplLocked seq : Prog Nic ε _) enp = .ret r enp') : enp.core.modMcdi = true := by
  unfold efxMcdiEvCplLocked at h
  rw [bind_of_ret (get_apply _)] at h
  exact (efsysAssert_bind_inv h).1

/-- A completion event that matches takes the request. -/
theorem evCpl_match {seq : U32} {emrp : ℕ} (hmod : enp.core.modMcdi = true)
    (hm : enp.core.Matches seq emrp) :
    ∃ enp', (efxMcdiEvCplLocked seq : Prog Nic ε _) enp = .ret (some emrp) enp' ∧
      enp'.core = { enp.core with pending := none } := by
  obtain ⟨hp, hev, hseq⟩ := hm
  have hc : ¬ (enp.emip.emiEvCpl = false ∨ seq ≠ (enp.emip.emiSeq - 1) &&& mask32 MCDI_HEADER_SEQ) := by
    rintro (h | h)
    · rw [show enp.emip.emiEvCpl = true from hev] at h
      cases h
    · exact h hseq
  unfold efxMcdiEvCplLocked
  rw [bind_of_ret (get_apply _), bind_of_ret (efsysAssert_pos (show enp.modMcdi = true from hmod)),
    bind_of_ret getEmip_apply, if_neg hc, show enp.emip.emiPendingReq = some emrp from hp]
  exact ⟨_, rfl, rfl⟩

/-- One that does not match uses up a credit. -/
theorem evCpl_miss {seq : U32} (hmod : enp.core.modMcdi = true)
    (hm : ∀ emrp, ¬ enp.core.Matches seq emrp) :
    if 0 < enp.core.aborted.toInt then
      ∃ enp', (efxMcdiEvCplLocked seq : Prog Nic ε _) enp = .ret none enp' ∧
        enp'.core = { enp.core with aborted := enp.core.aborted - 1 }
    else (efxMcdiEvCplLocked seq : Prog Nic ε _) enp = .fault := by
  have hnone : (if enp.emip.emiEvCpl = false ∨
      seq ≠ (enp.emip.emiSeq - 1) &&& mask32 MCDI_HEADER_SEQ then none
      else enp.emip.emiPendingReq) = none := by
    split_ifs with hc
    · rfl
    · rw [not_or, Bool.not_eq_false, Classical.not_not] at hc
      by_contra hne
      obtain ⟨emrp, hp⟩ := Option.ne_none_iff_exists'.mp hne
      exact hm emrp ⟨hp, hc.1, hc.2⟩
  have ha : enp.core.aborted = enp.emip.emiAborted := rfl
  unfold efxMcdiEvCplLocked
  rw [bind_of_ret (get_apply _), bind_of_ret (efsysAssert_pos (show enp.modMcdi = true from hmod)),
    bind_of_ret getEmip_apply, hnone, ha]
  dsimp only
  split_ifs with h
  · rw [bind_of_ret (efsysAssert_pos h), when_pos h]
    exact ⟨_, rfl, rfl⟩
  · unfold efsysAssert
    rw [if_neg h]
    rfl

theorem evDeath_run (rc : Errno) : ∃ enp',
    (efxMcdiEvDeathLocked rc : Prog Nic ε _) enp = .ret (enp.core.pending, enp.core.evCpl) enp' ∧
      enp'.core = { enp.core with
        pending := if enp.core.evCpl = true then none else enp.core.pending
        aborted := if enp.core.pending ≠ none ∧ enp.core.evCpl = true then enp.core.aborted + 1
          else enp.core.aborted
        newEpoch := enp.core.newEpoch || decide (rc = Errno.EIO ∨ rc = EINTR) } := by
  -- the status word is consumed last, and then the epoch is new
  have hend : ∀ s : Nic, ∃ s', (when (rc = Errno.EIO ∨ rc = EINTR) (do
      let _ ← efxMcdiPollReboot
      setEmip fun emip => { emip with emiNewEpoch := true }) : Prog Nic ε _) s = .ret () s' ∧
      s'.core = { s.core with newEpoch := s.core.newEpoch || decide (rc = Errno.EIO ∨ rc = EINTR) } := by
    intro s
    by_cases hrc : rc = Errno.EIO ∨ rc = EINTR
    · have hpoll : ∃ s1, (efxMcdiPollReboot : Prog Nic ε _) s = .ret none s1 := by
        unfold efxMcdiPollReboot
        cases s.family <;> exact ⟨_, rfl⟩
      obtain ⟨s1, h1⟩ := hpoll
      have e1 : s1.core = s.core := keeps_pollReboot _ _ _ h1
      rw [when_pos hrc, bind_of_ret h1]
      refine ⟨_, rfl, ?_⟩
      rw [← e1, decide_eq_true hrc, Bool.or_true]
      rfl
    · rw [when_neg hrc, decide_eq_false hrc, Bool.or_false]
      exact ⟨s, rfl, rfl⟩
  unfold efxMcdiEvDeathLocked
  rw [bind_of_ret getEmip_apply]
  have hpend : enp.core.pending = enp.emip.emiPendingReq := rfl
  have hcpl : enp.core.evCpl = enp.emip.emiEvCpl := rfl
  rw [hpend, hcpl]
  cases hp : enp.emip.emiPendingReq with
  | none =>
    obtain ⟨s', h1, h2⟩ := hend enp
    rw [bind_of_ret (show (pure () : Prog Nic ε Unit) enp = .ret () enp from rfl), bind_of_ret h1]
    refine ⟨s', rfl, ?_⟩
    rw [h2, ite_self, if_neg (by simp), ← hp]
    rfl
  | some emrp =>
    cases hev : enp.emip.emiEvCpl with
    | false =>
      obtain ⟨s', h1, h2⟩ := hend enp
      rw [bind_of_ret (show (pure () : Prog Nic ε Unit) enp = .ret () enp from rfl), bind_of_ret h1]
      refine ⟨s', rfl, ?_⟩
      rw [h2, if_neg (by simp), if_neg (by simp), ← hp]
      rfl
    | true =>
      let s1 : Nic := { enp with
        emip := { enp.emip with emiPendingReq := none, emiAborted := enp.emip.emiAborted + 1 }
        req := Function.update enp.req emrp
          { enp.req emrp with emrOutLengthUsed := 0, emrRc := some rc } }
      obtain ⟨s', h1, h2⟩ := hend s1
      refine ⟨s', ?_, ?_⟩
      · rw [bind_apply]
        change Res.bind (.ret () s1) _ = _
        rw [Res.bind_ret, bind_of_ret h1]
        rfl
      rw [h2, if_pos rfl, if_pos ⟨by simp, rfl⟩]
      simp only [Nic.core, hev, s1]

end Sfxge.Mcdi
