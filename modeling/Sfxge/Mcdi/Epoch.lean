import Sfxge.Mcdi.Matching
import Sfxge.Mcdi.Encoding

/-!
# Mcdi.Epoch — the NOT_EPOCH flag

A new epoch begins at initial startup or after an MC reboot; its first request should carry
NOT_EPOCH=0 and all others NOT_EPOCH=1.  `emi_new_epoch` is set at each such point, but no request
clears it: `epoch_iff` says that the rule is kept exactly as long as no epoch has a second request.
-/

namespace Sfxge.Mcdi

open Lib Lib.Prog Errno

/-! ### The flag in the header -/

theorem headD_mcdiHeader {l : RequestLocals} {ev : Bool} {emr : EfxMcdiReq} (hv : 2 ≤ l.maxVersion)
    (hseq : l.seq.toNat < 16) :
    dwordField ((mcdiHeader l ev emr).headD 0) MCDI_HEADER_NOT_EPOCH = if l.newEpoch then 0 else 1 := by
  by_cases hc : NeedsV2 l.maxVersion emr.emrCmd emr.emrInLength
  · rw [mcdiHeader_v2 hc]
    exact dwordField_headerFields (by decide) (by decide) hseq (notEpoch_lt l.newEpoch) (xflags_lt ev)
      (MCDI_HEADER_NOT_EPOCH, if l.newEpoch then 0 else 1) (by simp [headerFields])
  · rw [mcdiHeader_v1 hc]
    -- a v1 header has room for the command and the length
    rw [NeedsV2, not_and, not_or] at hc
    obtain ⟨hcmd, hlen⟩ := hc hv
    have hcmd' : emr.emrCmd.toNat < 2 ^ 7 := by
      have : ¬ MC_CMD_CMD_SPACE_ESCAPE_7.toNat < emr.emrCmd.toNat := hcmd
      have h7 : MC_CMD_CMD_SPACE_ESCAPE_7.toNat = 127 := rfl
      omega
    have hlen' : (BitVec.ofNat 32 emr.emrInLength).toNat < 2 ^ 8 := by
      unfold MCDI_CTL_SDU_LEN_MAX_V1 at hlen
      rw [BitVec.toNat_ofNat]
      omega
    exact dwordField_headerFields hcmd' hlen' hseq (notEpoch_lt l.newEpoch) (xflags_lt ev)
      (MCDI_HEADER_NOT_EPOCH, if l.newEpoch then 0 else 1) (by simp [headerFields])

/-! ### Epochs -/

/-- A controller, and whether a request has been sent since its epoch began. -/
structure EpochSys where
  sys : Sys
  sent : Bool

inductive EpochOp
  | call (op : Op)
  | newEpoch
  | init (emtDmaMem : Option ℕ)
  | fini

/-- The response in memory says that the MC has rebooted since the request was sent. -/
def rebootSeen (enp : Nic) : Bool :=
  match (efxMcdiResponseShape : Prog Nic Errno _) enp with
  | .ret (_, dataLen, _) _ => dwordField (enp.mem 0) MCDI_HEADER_ERROR ≠ 0 ∧ dataLen = 0
  | .err _ _ | .fault | .spin => false

/-- A call detects a reboot: by its event or in a response header that it reads. -/
def detectsReboot (s s' : Sys) : Op → Bool
  | .evDeath rc => rc = Errno.EIO ∨ rc = EINTR
  | .poll => s.nic.core.pending ≠ s'.nic.core.pending ∧ rebootSeen s.nic = true
  | .finish i =>
    match s.finishing[i]? with
    | some (.evCpl _ _ _) => 2 ≤ s.nic.core.maxVersion ∧ rebootSeen s.nic = true
    | _ => false
  | _ => false

/-- Whether a request has been sent in the epoch, after a call. -/
def sentAfter (s s' : Sys) (sent : Bool) : Op → Bool
  | .send _ => true
  | op => if detectsReboot s s' op then false else sent

/-- `starts` tells whether `efx_mcdi_new_epoch` counts as an initialisation of its own. -/
def epochStep (starts : Bool) : EpochOp → EpochSys → Option EpochSys
  | .call op, e => (step op e.sys).map fun s' => ⟨s', sentAfter e.sys s' e.sent op⟩
  | .newEpoch, e => (e.sys.after efxMcdiNewEpoch fun _ s => s).map fun s' =>
    ⟨s', if starts then false else e.sent⟩
  | .init emtDmaMem, e =>
    match efxMcdiInit emtDmaMem e.sys.nic with
    | .ret _ enp => some ⟨{ e.sys with nic := enp }, false⟩
    | .err _ enp => some ⟨{ e.sys with nic := enp }, e.sent⟩
    | .fault | .spin => none
  | .fini, e => (e.sys.after efxMcdiFini fun _ s => s).map fun s' => ⟨s', e.sent⟩

/-- The rule of the epochs, for a call that sends a request: the first of an epoch carries
NOT_EPOCH=0, the others NOT_EPOCH=1. -/
def EpochRule : EpochOp → EpochSys → EpochSys → Prop
  | .call (.send _), e, e' => ∀ hdr, e'.sys.nic.sent = hdr :: e.sys.nic.sent →
      dwordField (hdr.headD 0) MCDI_HEADER_NOT_EPOCH = if e.sent then 1 else 0
  | _, _, _ => True

/-- The condition on a call: it does not send a second request in an epoch. -/
def FirstOfEpoch : EpochOp → EpochSys → Prop
  | .call (.send _), e => e.sent = false
  | _, _ => True

/-- Before `efx_mcdi_init`. -/
def Uninit (e : EpochSys) : Prop := e.sys.nic.modMcdi = false ∧ e.sys.sending = []

/-! ### The flag is never cleared while requests can be sent -/

structure FlagSet (e : EpochSys) : Prop where
  up : e.sys.nic.core.modMcdi = true → e.sys.nic.core.newEpoch = true ∧ 2 ≤ e.sys.nic.core.maxVersion
  sending : ∀ x ∈ e.sys.sending,
    x.2.2.newEpoch = true ∧ 2 ≤ x.2.2.maxVersion ∧ x.2.2.seq.toNat < 16

theorem moves_up {s s' : Sys} (h : Moves s s') :
    s'.nic.core.modMcdi = s.nic.core.modMcdi ∧ s'.nic.core.maxVersion = s.nic.core.maxVersion ∧
      (s.nic.core.newEpoch = true → s'.nic.core.newEpoch = true) := by
  rcases h with ⟨ev, hp, hcore, -, -, -⟩ | ⟨p, hp, hcore, hnew, -, -, -⟩ |
    ⟨e, p, -, -, hcore, -, -, -⟩ | ⟨e, -, -, -, hcore, -, -, -⟩ | ⟨hcore, hnew, -, -, -⟩
  · exact ⟨by rw [hcore], by rw [hcore], by rw [hcore]; exact id⟩
  · exact ⟨by rw [hcore], by rw [hcore], hnew⟩
  · exact ⟨by rw [hcore], by rw [hcore], by rw [hcore]; exact id⟩
  · exact ⟨by rw [hcore], by rw [hcore], by rw [hcore]; exact id⟩
  · exact ⟨by rw [hcore], by rw [hcore], hnew⟩

/-- A request about to be sent was so before, or has been started under the flag as it is. -/
theorem sending_step {op : Op} {s s' : Sys} (h : step op s = some s') : ∀ x ∈ s'.sending,
    x ∈ s.sending ∨ s.nic.core.modMcdi = true ∧ x.2.2 =
      ⟨s.nic.core.seq &&& mask32 MCDI_HEADER_SEQ, s.nic.core.newEpoch, s.nic.core.maxVersion⟩ := by
  intro x hx
  cases op with
  | start emr ev =>
    rw [step, startOp] at h
    obtain ⟨l, enp, hrun, rfl⟩ := after_inv h
    obtain ⟨_, enp1, h1, h2⟩ := bind_ret_inv hrun
    have e1 := keeps_setReq _ _ _ _ _ h1
    obtain ⟨hmod, -, hl, -⟩ := start_inv h2
    rw [e1] at hmod hl
    rcases List.mem_append.mp hx with hx | hx
    · exact Or.inl hx
    · rw [List.mem_singleton] at hx
      subst hx
      exact Or.inr ⟨hmod, hl⟩
  | send i =>
    obtain ⟨y, hy, h⟩ := Option.bind_eq_some_iff.mp h
    obtain ⟨_, enp, hrun, rfl⟩ := after_inv h
    exact Or.inl (List.mem_of_mem_eraseIdx hx)
  | poll =>
    rw [step] at h
    obtain ⟨_, _, -, rfl⟩ := after_inv h
    exact Or.inl hx
  | abort =>
    rw [step] at h
    obtain ⟨_, _, -, rfl⟩ := after_inv h
    exact Or.inl hx
  | evCpl e outlen errcode =>
    rw [step] at h
    split_ifs at h
    obtain ⟨_, _, -, rfl⟩ := after_inv h
    exact Or.inl hx
  | evDeath rc =>
    rw [step] at h
    obtain ⟨_, _, -, rfl⟩ := after_inv h
    exact Or.inl hx
  | finish i =>
    obtain ⟨y, hy, h⟩ := Option.bind_eq_some_iff.mp h
    obtain ⟨_, _, -, rfl⟩ := after_inv h
    exact Or.inl hx
  | firmware mem sftStatus =>
    cases h
    exact Or.inl hx

theorem init_ret {emtDmaMem : Option ℕ} {enp enp' : Nic} {u : Unit}
    (h : efxMcdiInit emtDmaMem enp = .ret u enp') :
    enp'.core.newEpoch = true ∧ 2 ≤ enp'.core.maxVersion := by
  unfold efxMcdiInit at h
  rw [bind_of_ret (get_apply _)] at h
  obtain ⟨-, h1⟩ := efsysAssert_bind_inv h
  cases emtDmaMem with
  | none => cases h1
  | some addr =>
    obtain ⟨_, s1, h2, h3⟩ := bind_ret_inv h1
    obtain ⟨-, h4⟩ := ensure_bind_ret_inv h3
    obtain ⟨_, s2, h5, h6⟩ := bind_ret_inv h4
    have e2 := keeps_pollReboot _ _ _ h5
    have hv : s2.core.maxVersion = 2 := by
      rw [e2]
      cases h2
      rfl
    cases h6
    exact ⟨rfl, hv.ge⟩

theorem init_err {emtDmaMem : Option ℕ} {enp enp' : Nic} {rc : Errno}
    (h : efxMcdiInit emtDmaMem enp = .err rc enp') : enp'.core.modMcdi = false := by
  unfold efxMcdiInit at h
  rw [bind_of_ret (get_apply _)] at h
  by_cases hmod : enp.modMcdi = false
  swap
  · rw [efsysAssert, if_neg hmod] at h
    cases h
  rw [bind_of_ret (efsysAssert_pos hmod)] at h
  cases emtDmaMem with
  | none =>
    cases h
    exact hmod
  | some addr =>
    by_cases ha : addr &&& 0xff = 0
    · have hpoll : ∀ s : Nic, ∃ s', (efxMcdiPollReboot : Prog Nic Errno _) s = .ret none s' := by
        intro s
        unfold efxMcdiPollReboot
        cases s.family <;> exact ⟨_, rfl⟩
      dsimp only at h
      rw [bind_apply, setEmip, Res.bind_ret, bind_of_ret (ensure_pos ha)] at h
      obtain ⟨s', hs'⟩ := hpoll { enp with emip := { enp.emip with emiMaxVersion := 2 } }
      rw [bind_of_ret hs'] at h
      cases h
    · dsimp only at h
      rw [bind_apply, setEmip, Res.bind_ret, bind_of_err (ensure_neg ha)] at h
      cases h
      exact hmod

/-- **Step lemma.** -/
theorem flagSet_step {starts : Bool} {op : EpochOp} {e e' : EpochSys} (h : FlagSet e)
    (hs : epochStep starts op e = some e') : FlagSet e' := by
  cases op with
  | call op =>
    obtain ⟨s', hstep, rfl⟩ := Option.map_eq_some_iff.mp hs
    obtain ⟨h1, h2, h3⟩ := moves_up (step_moves hstep)
    refine ⟨fun hmod => ?_, fun x hx => ?_⟩
    · obtain ⟨h4, h5⟩ := h.up (h1.symm.trans hmod)
      exact ⟨h3 h4, by rw [h2]; exact h5⟩
    · rcases sending_step hstep x hx with hx | ⟨hmod, hl⟩
      · exact h.sending x hx
      · obtain ⟨h4, h5⟩ := h.up hmod
        rw [hl]
        refine ⟨h4, h5, ?_⟩
        have hm : mask32 MCDI_HEADER_SEQ = 15#32 := rfl
        rw [hm, BitVec.toNat_and]
        exact lt_of_le_of_lt Nat.and_le_right (by decide)
  | newEpoch =>
    rw [epochStep] at hs
    obtain ⟨s', hrun, rfl⟩ := Option.map_eq_some_iff.mp hs
    obtain ⟨_, enp, hret, rfl⟩ := after_inv hrun
    cases hret
    exact ⟨fun hmod => ⟨rfl, (h.up hmod).2⟩, h.sending⟩
  | init emtDmaMem =>
    rw [epochStep] at hs
    cases hret : efxMcdiInit emtDmaMem e.sys.nic with
    | ret u enp =>
      rw [hret] at hs
      cases hs
      exact ⟨fun _ => init_ret hret, h.sending⟩
    | err rc enp =>
      rw [hret] at hs
      cases hs
      refine ⟨fun hmod => ?_, h.sending⟩
      rw [show enp.core.modMcdi = false from init_err hret] at hmod
      cases hmod
    | fault =>
      rw [hret] at hs
      cases hs
    | spin =>
      rw [hret] at hs
      cases hs
  | fini =>
    rw [epochStep] at hs
    obtain ⟨s', hrun, rfl⟩ := Option.map_eq_some_iff.mp hs
    obtain ⟨_, enp, hret, rfl⟩ := after_inv hrun
    unfold efxMcdiFini at hret
    rw [bind_of_ret (get_apply _)] at hret
    obtain ⟨-, h1⟩ := efsysAssert_bind_inv hret
    cases h1
    exact ⟨fun hmod => (by cases hmod), h.sending⟩

/-- What a call that sends has sent. -/
theorem send_step {i : ℕ} {s s' : Sys} (h : step (.send i) s = some s') :
    ∃ x ∈ s.sending, ∃ emr, s'.nic.sent = mcdiHeader x.2.2 x.2.1 emr :: s.nic.sent := by
  obtain ⟨x, hx, h⟩ := Option.bind_eq_some_iff.mp h
  obtain ⟨_, enp, hrun, rfl⟩ := after_inv h
  cases hrun
  exact ⟨x, List.mem_of_getElem? hx, s.nic.req x.1, rfl⟩

/-- **Step.**  A call keeps the rule exactly when it sends no second request in an epoch. -/
theorem rule_step {starts : Bool} {op : EpochOp} {e e' : EpochSys} (h : FlagSet e)
    (hs : epochStep starts op e = some e') : EpochRule op e e' ↔ FirstOfEpoch op e := by
  cases op with
  | call op =>
    cases op with
    | send i =>
      obtain ⟨s', hstep, rfl⟩ := Option.map_eq_some_iff.mp hs
      obtain ⟨x, hx, emr, hsent⟩ := send_step hstep
      obtain ⟨h1, h2, h3⟩ := h.sending x hx
      have hflag := @headD_mcdiHeader x.2.2 x.2.1 emr h2 h3
      rw [h1, if_pos rfl] at hflag
      have hall : EpochRule (.call (.send i)) e ⟨s', sentAfter e.sys s' e.sent (.send i)⟩ ↔
          dwordField ((mcdiHeader x.2.2 x.2.1 emr).headD 0) MCDI_HEADER_NOT_EPOCH =
            if e.sent then 1 else 0 := by
        constructor
        · intro hrule
          exact hrule _ hsent
        · intro heq hdr hhdr
          rw [hsent] at hhdr
          rw [← List.head_eq_of_cons_eq hhdr]
          exact heq
      rw [hall, hflag, FirstOfEpoch]
      cases e.sent <;> decide
    | start | poll | abort | evCpl | evDeath | finish | firmware => exact Iff.rfl
  | newEpoch => exact Iff.rfl
  | init emtDmaMem => exact Iff.rfl
  | fini => exact Iff.rfl

theorem flagSet_uninit {e : EpochSys} (h : Uninit e) : FlagSet e := by
  obtain ⟨h1, h2⟩ := h
  refine ⟨fun hmod => ?_, fun x hx => ?_⟩
  · have : e.sys.nic.core.modMcdi = false := h1
    rw [this] at hmod
    cases hmod
  · rw [h2] at hx
    cases hx

/-- **Epochs.**  A run from before the initialisation keeps the rule at every request it sends
exactly when no request is sent after another in the same epoch. -/
theorem epoch_iff (starts : Bool) {e : EpochSys} (h : Uninit e) (ops : List EpochOp) :
    MeetsAlong (epochStep starts) (fun _ => True) EpochRule ops e ↔
      StepsAlong (epochStep starts) FirstOfEpoch ops e := by
  refine meetsAlong_iff (I := FlagSet) (fun op e e' hI hs => flagSet_step hI hs)
    (fun op e e' hI _ hs => ?_) ops (flagSet_uninit h) trivial
  rw [and_true]
  exact rule_step hI hs

/-- A controller before `efx_mcdi_init`. -/
def downSys : EpochSys := ⟨⟨{ freshNic with modMcdi := false }, 0, [], [], [], []⟩, false⟩

/-- A request of the command `MC_CMD_REBOOT`. -/
def rebootReq : EfxMcdiReq := { freshNic.req 0 with emrCmd := MC_CMD_REBOOT }

/-- One request after the initialisation. -/
theorem epoch_one_request : MeetsAlong (epochStep true) (fun _ => True) EpochRule
    [.init (some 0), .call (.start rebootReq false), .call (.send 0)] downSys :=
  (epoch_iff true ⟨rfl, rfl⟩ _).mpr fun e1 h1 => ⟨trivial, fun e2 h2 => ⟨trivial, fun e3 h3 => by
    cases h1
    cases h2
    exact ⟨rfl, trivial⟩⟩⟩

/-- The second request after the initialisation carries NOT_EPOCH=0 too. -/
theorem epoch_two_requests : ¬ ∀ ops e, Uninit e →
    MeetsAlong (epochStep true) (fun _ => True) EpochRule ops e := by
  intro h
  have hrun := h [.init (some 0), .call (.start rebootReq false), .call (.send 0), .call .abort,
    .call (.start rebootReq false), .call (.send 0)] downSys ⟨rfl, rfl⟩
  have h1 := (hrun.2 _ rfl).2
  have h2 := (h1.2 _ rfl).2
  have h3 := (h2.2 _ rfl).2
  have h4 := (h3.2 _ rfl).2
  have h5 := (h4.2 _ rfl).2
  have h6 := (h5.2 _ rfl).1 _ rfl
  revert h6
  decide

end Sfxge.Mcdi
