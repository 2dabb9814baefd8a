import Sfxge.Mcdi.Sections

/-!
# Mcdi.Completion — polled and event completion of one request

Both ways read the response header, and copy the payload of a response without an error.  The event way decides
by the error code of its event alone: it also copies when the header is of another request.  `completions_iff`
says exactly when the two agree.
-/

namespace Sfxge.Mcdi

open Lib Lib.Prog Errno

variable {ε : Type} {enp enp' : Nic} {emrp : ℕ}

/-- `efx_mcdi_request_poll`, when nothing comes between its two parts. -/
def efxMcdiRequestPoll : Prog Nic ε Unit := do
  efxMcdiRequestPollFinish (← efxMcdiRequestPollLocked)

/-- `efx_mcdi_ev_cpl`, when nothing comes between its two parts. -/
def efxMcdiEvCpl (seq : U32) (outlen : ℕ) (errcode : U32) : Prog Nic ε Unit := do
  match ← efxMcdiEvCplLocked seq with
  | none => pure ()
  | some emrp => efxMcdiEvCplFinish emrp outlen errcode

/-! ### The response in memory -/

/-- The code, the length of the payload and the length of the header. -/
def Nic.shape (enp : Nic) : U32 × U32 × ℕ :=
  if dwordField (enp.mem 0) MCDI_HEADER_CODE ≠ MC_CMD_V2_EXTN then
    (dwordField (enp.mem 0) MCDI_HEADER_CODE, dwordField (enp.mem 0) MCDI_HEADER_DATALEN, 4)
  else
    (dwordField (enp.mem 1) MC_CMD_V2_EXTN_IN_EXTENDED_CMD, dwordField (enp.mem 1) MC_CMD_V2_EXTN_IN_ACTUAL_LEN, 8)

/-- The response has an error. -/
def Nic.error (enp : Nic) : U32 := dwordField (enp.mem 0) MCDI_HEADER_ERROR

/-- The sequence number of the request started last. -/
def Nic.lastSeq (enp : Nic) : U32 := (enp.emip.emiSeq - 1) &&& mask32 MCDI_HEADER_SEQ

/-- The response is for another command, or has another sequence number. -/
def Nic.Mismatched (enp : Nic) (emrp : ℕ) : Prop :=
  enp.shape.1 ≠ (enp.req emrp).emrCmd ∨ dwordField (enp.mem 0) MCDI_HEADER_SEQ ≠ enp.lastSeq

instance : Decidable (enp.Mismatched emrp) := inferInstanceAs (Decidable (_ ∨ _))

/-- The request after its response header is read. -/
def Nic.headerRead (enp : Nic) (emrp : ℕ) : EfxMcdiReq :=
  let emr := enp.req emrp
  let (_, dataLen, hdrLen) := enp.shape
  if enp.error ≠ 0 ∧ dataLen = 0 then { emr with emrRc := some Errno.EIO, emrOutLengthUsed := 0 }
  else if enp.Mismatched emrp then { emr with emrRc := some Errno.EIO, emrOutLengthUsed := 0 }
  else if enp.error ≠ 0 then
    let errLen := min dataLen.toNat 8
    let errCode := if 4 ≤ errLen then enp.mem (hdrLen / 4) else MC_CMD_ERR_EPROTO
    { emr with
      emrErrCode := errCode
      emrErrArg := if 8 ≤ errLen then enp.mem ((hdrLen + 4) / 4) else 0
      emrRc := some (efxMcdiRequestErrcode errCode)
      emrOutLengthUsed := 0 }
  else { emr with emrRc := none, emrOutLengthUsed := dataLen.toNat }

/-- The payload of a response. -/
def Nic.payload (enp : Nic) (offset length : ℕ) : Bytes :=
  ((List.range ((length + 3) / 4)).flatMap fun k => le 4 (enp.mem (offset / 4 + k)).toNat).take length

/-- A request after its response is finished. -/
def Nic.finished (enp : Nic) (emr : EfxMcdiReq) : EfxMcdiReq :=
  if emr.emrOutBuf = none then emr
  else
    let (_, dataLen, hdrLen) := enp.shape
    let used := if hdrLen = 8 then dataLen.toNat else emr.emrOutLengthUsed
    let payload := enp.payload hdrLen (min used emr.emrOutLength)
    { emr with
      emrOutLengthUsed := used
      emrOutBuf := emr.emrOutBuf.map fun buf => payload ++ buf.drop payload.length }

/-! ### What the shared helpers do -/

theorem responseShape_apply (enp : Nic) : (efxMcdiResponseShape : Prog Nic ε _) enp = .ret enp.shape enp := by
  have h0 : (efxMcdiReadResponseDword 0 : Prog Nic ε U32) enp = .ret (enp.mem 0) enp := rfl
  rw [efxMcdiResponseShape, bind_of_ret h0, Nic.shape]
  split_ifs <;> rfl

theorem pollReboot_apply (enp : Nic) :
    ∃ enp', (efxMcdiPollReboot : Prog Nic ε _) enp = .ret none enp' ∧ enp'.mem = enp.mem ∧ enp'.req = enp.req ∧
      enp'.emip.emiPendingReq = enp.emip.emiPendingReq ∧ enp'.emip.emiSeq = enp.emip.emiSeq := by
  rw [efxMcdiPollReboot]
  split
  · exact ⟨_, rfl, rfl, rfl, rfl, rfl⟩
  · exact ⟨_, rfl, rfl, rfl, rfl, rfl⟩

theorem setReq_self (emrp : ℕ) (f : EfxMcdiReq → EfxMcdiReq) (enp : Nic) :
    ∃ enp', (setReq emrp f : Prog Nic ε Unit) enp = .ret () enp' ∧ enp'.mem = enp.mem ∧
      enp'.req emrp = f (enp.req emrp) ∧ enp'.emip = enp.emip :=
  ⟨_, rfl, rfl, Function.update_self .., rfl⟩

theorem readResponseHeader_apply (enp : Nic) (emrp : ℕ) :
    ∃ enp', (efxMcdiReadResponseHeader emrp : Prog Nic ε _) enp = .ret () enp' ∧ enp'.mem = enp.mem ∧
      enp'.req emrp = enp.headerRead emrp := by
  have h0 : (efxMcdiReadResponseDword 0 : Prog Nic ε U32) enp = .ret (enp.mem 0) enp := rfl
  have hemr : (getReq emrp : Prog Nic ε _) enp = .ret (enp.req emrp) enp := rfl
  obtain ⟨cmd, dataLen, hdrLen, hs⟩ : ∃ cmd dataLen hdrLen, enp.shape = (cmd, dataLen, hdrLen) :=
    ⟨_, _, _, rfl⟩
  have hshape : (efxMcdiResponseShape : Prog Nic ε _) enp = .ret (cmd, dataLen, hdrLen) enp := by
    rw [← hs]
    exact responseShape_apply enp
  rw [efxMcdiReadResponseHeader, bind_of_ret h0, bind_of_ret hshape]
  dsimp only
  rw [bind_of_ret getEmip_apply, bind_of_ret hemr]
  simp only [Nic.headerRead, hs, Nic.Mismatched, Nic.error, Nic.lastSeq]
  by_cases hreboot : dwordField (enp.mem 0) MCDI_HEADER_ERROR ≠ 0 ∧ dataLen = 0
  · rw [if_pos hreboot, if_pos hreboot]
    obtain ⟨enp1, hrun, hmem, hreq, -, -⟩ := pollReboot_apply (ε := ε) enp
    obtain ⟨enp2, hset, hmem2, hreq2, -⟩ := setReq_self (ε := ε) emrp
      (fun emr => { emr with emrRc := some Errno.EIO, emrOutLengthUsed := 0 }) enp1
    exact ⟨enp2, by rw [bind_of_ret hrun, hset], hmem2.trans hmem, by rw [hreq2, hreq]⟩
  rw [if_neg hreboot, if_neg hreboot]
  by_cases hmis : cmd ≠ (enp.req emrp).emrCmd ∨
      dwordField (enp.mem 0) MCDI_HEADER_SEQ ≠ (enp.emip.emiSeq - 1) &&& mask32 MCDI_HEADER_SEQ
  · rw [if_pos hmis, if_pos hmis]
    exact ⟨_, rfl, rfl, Function.update_self ..⟩
  rw [if_neg hmis, if_neg hmis]
  by_cases herr : dwordField (enp.mem 0) MCDI_HEADER_ERROR ≠ 0
  · rw [if_pos herr, if_pos herr]
    exact ⟨_, rfl, rfl, Function.update_self ..⟩
  · rw [if_neg herr, if_neg herr]
    exact ⟨_, rfl, rfl, Function.update_self ..⟩

theorem finishResponse_apply (enp : Nic) (emrp : ℕ) :
    ∃ enp', (efxMcdiFinishResponse emrp : Prog Nic ε _) enp = .ret () enp' ∧
      enp'.req emrp = enp.finished (enp.req emrp) := by
  have hemr : (getReq emrp : Prog Nic ε _) enp = .ret (enp.req emrp) enp := rfl
  obtain ⟨cmd, dataLen, hdrLen, hs⟩ : ∃ cmd dataLen hdrLen, enp.shape = (cmd, dataLen, hdrLen) :=
    ⟨_, _, _, rfl⟩
  have hshape : (efxMcdiResponseShape : Prog Nic ε _) enp = .ret (cmd, dataLen, hdrLen) enp := by
    rw [← hs]
    exact responseShape_apply enp
  rw [efxMcdiFinishResponse, bind_of_ret hemr]
  by_cases hbuf : (enp.req emrp).emrOutBuf = none
  · rw [if_pos hbuf, Nic.finished, if_pos hbuf]
    exact ⟨enp, rfl, rfl⟩
  · rw [if_neg hbuf, Nic.finished, if_neg hbuf, bind_of_ret hshape, hs]
    exact ⟨_, rfl, Function.update_self ..⟩

/-! ### The two completions -/

/-- What the reading of a response depends on. -/
structure SameResponse (enp enp' : Nic) : Prop where
  mem : enp'.mem = enp.mem
  req : enp'.req = enp.req
  seq : enp'.emip.emiSeq = enp.emip.emiSeq

theorem SameResponse.headerRead (h : SameResponse enp enp') : enp'.headerRead emrp = enp.headerRead emrp := by
  obtain ⟨_, _, ⟨_, _, _, _, _, _, _, _⟩, _, _, _, _, _⟩ := enp
  obtain ⟨_, _, ⟨_, _, _, _, _, _, _, _⟩, _, _, _, _, _⟩ := enp'
  obtain ⟨hmem, hreq, hseq⟩ := h
  cases hmem
  cases hreq
  cases hseq
  rfl

theorem finished_congr (h : enp'.mem = enp.mem) (emr : EfxMcdiReq) : enp'.finished emr = enp.finished emr := by
  obtain ⟨_, _, _, _, _, _, _, _⟩ := enp
  obtain ⟨_, _, _, _, _, _, _, _⟩ := enp'
  cases h
  rfl

/-- An EF10 interface that has sent request `emrp`, and a response in memory. -/
structure Nic.Answered (enp : Nic) (emrp : ℕ) : Prop where
  modMcdi : enp.modMcdi = true
  pending : enp.emip.emiPendingReq = some emrp
  version : 2 ≤ enp.emip.emiMaxVersion
  response : dwordField (enp.mem 0) MCDI_HEADER_RESPONSE ≠ 0

/-- The state, if the request was started with this `ev_cpl`. -/
def Nic.startedWith (enp : Nic) (evCpl : Bool) : Nic := { enp with emip := { enp.emip with emiEvCpl := evCpl } }

theorem raiseException_apply (enp : Nic) (emrp : Option ℕ) {rc : Errno} (hrc : rc = Errno.EIO ∨ rc = EINTR) :
    ∃ enp', (efxMcdiRaiseException emrp rc : Prog Nic ε _) enp = .ret () enp' ∧ enp'.req = enp.req := by
  rw [efxMcdiRaiseException, bind_of_ret (efsysAssert_pos hrc), bind_of_ret (get_apply enp)]
  by_cases hreboot : (emrp.any fun p => (enp.req p).emrCmd = MC_CMD_REBOOT) ∧ rc = Errno.EIO
  · rw [if_pos hreboot]
    exact ⟨enp, rfl, rfl⟩
  · rw [if_neg hreboot]
    exact ⟨_, rfl, rfl⟩

/-- A request after a polled completion. -/
def Nic.polled (enp : Nic) (emrp : ℕ) : EfxMcdiReq :=
  if (enp.headerRead emrp).emrRc = none then enp.finished (enp.headerRead emrp) else enp.headerRead emrp

/-- A request after a completion by an event. -/
def Nic.evented (enp : Nic) (emrp : ℕ) (errcode : U32) : EfxMcdiReq :=
  if errcode = 0 then enp.finished (enp.headerRead emrp) else enp.headerRead emrp

theorem pollFinish_apply (enp : Nic) (emrp : ℕ) :
    ∃ enp', (efxMcdiRequestPollFinish (.complete emrp) : Prog Nic ε _) enp = .ret () enp' ∧
      enp'.req emrp = if (enp.req emrp).emrRc = none then enp.finished (enp.req emrp) else enp.req emrp := by
  have hemr : (getReq emrp : Prog Nic ε _) enp = .ret (enp.req emrp) enp := rfl
  rw [efxMcdiRequestPollFinish, bind_of_ret hemr]
  cases hrc : (enp.req emrp).emrRc with
  | none =>
    rw [if_pos rfl]
    exact finishResponse_apply enp emrp
  | some rc =>
    rw [if_neg (by simp)]
    dsimp only
    split_ifs with hex
    · obtain ⟨enp', hrun, hreq⟩ := raiseException_apply (ε := ε) enp (some emrp) hex
      exact ⟨enp', hrun, by rw [hreq]⟩
    · exact ⟨enp, rfl, rfl⟩

/-- The locked section of a poll, up to the look at the response. -/
theorem pollLocked_begin (hmod : enp.modMcdi = true) (hp : enp.emip.emiPendingReq = some emrp)
    (hev : enp.emip.emiEvCpl = false) :
    ∃ enp', SameResponse enp enp' ∧ (efxMcdiRequestPollLocked : Prog Nic ε _) enp = (do
      if !(← efxMcdiPollResponse) then return .waiting
      efxMcdiReadResponseHeader emrp
      setEmip fun emip => { emip with emiPendingReq := none }
      return .complete emrp : Prog Nic ε _) enp' := by
  set enp1 : Nic := { enp with emip := { enp.emip with emiPollCnt := enp.emip.emiPollCnt + 1 } }
  have hset : (setEmip (fun emip => { emip with emiPollCnt := emip.emiPollCnt + 1 }) : Prog Nic ε Unit) enp =
      .ret () enp1 := rfl
  obtain ⟨enp2, hreboot, hsame⟩ : ∃ enp2,
      (if enp.emip.emiPollCnt = 0 then efxMcdiPollReboot else pure none : Prog Nic ε (Option Errno)) enp1 =
        .ret none enp2 ∧ SameResponse enp enp2 := by
    split_ifs
    · obtain ⟨enp2, hrun, hmem, hreq, -, hseq⟩ := pollReboot_apply (ε := ε) enp1
      exact ⟨enp2, hrun, hmem, hreq, hseq⟩
    · exact ⟨enp1, rfl, rfl, rfl, rfl⟩
  refine ⟨enp2, hsame, ?_⟩
  rw [efxMcdiRequestPollLocked, bind_of_ret (get_apply enp), bind_of_ret (efsysAssert_pos hmod),
    bind_of_ret getEmip_apply, hp]
  dsimp only
  rw [bind_of_ret (efsysAssert_pos hev), bind_of_ret hset, bind_of_ret hreboot]

/-- A poll that finds no response leaves the request alone. -/
theorem pollLocked_waiting (hmod : enp.modMcdi = true) (hp : enp.emip.emiPendingReq = some emrp)
    (hev : enp.emip.emiEvCpl = false) (hresp : dwordField (enp.mem 0) MCDI_HEADER_RESPONSE = 0) :
    ∃ enp', (efxMcdiRequestPollLocked : Prog Nic ε _) enp = .ret .waiting enp' ∧ enp'.req = enp.req := by
  obtain ⟨enp2, hsame, hrun⟩ := pollLocked_begin (ε := ε) hmod hp hev
  have hpoll : (efxMcdiPollResponse : Prog Nic ε _) enp2 = .ret false enp2 := by
    rw [efxMcdiPollResponse, hsame.mem]
    exact congrArg (fun b => Res.ret b enp2) (decide_eq_false (not_not.mpr hresp))
  refine ⟨enp2, ?_, hsame.req⟩
  rw [hrun, bind_of_ret hpoll]
  rfl

/-- A poll that finds one reads its header for the request. -/
theorem pollLocked_complete (hmod : enp.modMcdi = true) (hp : enp.emip.emiPendingReq = some emrp)
    (hev : enp.emip.emiEvCpl = false) (hresp : dwordField (enp.mem 0) MCDI_HEADER_RESPONSE ≠ 0) :
    ∃ enp', (efxMcdiRequestPollLocked : Prog Nic ε _) enp = .ret (.complete emrp) enp' ∧ enp'.mem = enp.mem ∧
      enp'.req emrp = enp.headerRead emrp := by
  obtain ⟨enp2, hsame, hrun⟩ := pollLocked_begin (ε := ε) hmod hp hev
  have hpoll : (efxMcdiPollResponse : Prog Nic ε _) enp2 = .ret true enp2 := by
    rw [efxMcdiPollResponse, hsame.mem]
    exact congrArg (fun b => Res.ret b enp2) (decide_eq_true hresp)
  obtain ⟨enp3, hhdr, hmem3, hreq3⟩ := readResponseHeader_apply (ε := ε) enp2 emrp
  refine ⟨{ enp3 with emip := { enp3.emip with emiPendingReq := none } }, ?_, hmem3.trans hsame.mem,
    hreq3.trans hsame.headerRead⟩
  rw [hrun, bind_of_ret hpoll, if_neg (by simp), bind_of_ret hhdr]
  rfl

theorem requestPoll_apply (h : enp.Answered emrp) :
    ∃ enp', (efxMcdiRequestPoll : Prog Nic ε _) (enp.startedWith false) = .ret () enp' ∧
      enp'.req emrp = enp.polled emrp := by
  have hsame : SameResponse enp (enp.startedWith false) := ⟨rfl, rfl, rfl⟩
  obtain ⟨enp1, hlocked, hmem1, hreq1⟩ :=
    @pollLocked_complete ε (enp.startedWith false) emrp h.modMcdi h.pending rfl h.response
  obtain ⟨enp', hfin, hreq'⟩ := pollFinish_apply (ε := ε) enp1 emrp
  refine ⟨enp', by rw [efxMcdiRequestPoll, bind_of_ret hlocked, hfin], ?_⟩
  rw [hreq', hreq1, finished_congr (hmem1.trans hsame.mem), hsame.headerRead]
  rfl

theorem evCpl_apply (h : enp.Answered emrp) (outlen : ℕ) (errcode : U32) :
    ∃ enp', (efxMcdiEvCpl enp.lastSeq outlen errcode : Prog Nic ε _) (enp.startedWith true) = .ret () enp' ∧
      enp'.req emrp = enp.evented emrp errcode := by
  set enp0 := enp.startedWith true
  set enp1 : Nic := { enp0 with emip := { enp0.emip with emiPendingReq := none } }
  have hlocked : (efxMcdiEvCplLocked enp.lastSeq : Prog Nic ε _) enp0 = .ret (some emrp) enp1 := by
    have hmod : enp0.modMcdi = true := h.modMcdi
    rw [efxMcdiEvCplLocked, bind_of_ret (get_apply enp0), bind_of_ret (efsysAssert_pos hmod),
      bind_of_ret getEmip_apply]
    have hmatch : ¬ (enp0.emip.emiEvCpl = false ∨
        enp.lastSeq ≠ (enp0.emip.emiSeq - 1) &&& mask32 MCDI_HEADER_SEQ) := by
      rintro (hev | hseq)
      · cases hev
      · exact hseq rfl
    have hp : enp0.emip.emiPendingReq = some emrp := h.pending
    rw [if_neg hmatch, hp]
    rfl
  obtain ⟨enp2, hhdr, hmem2, hreq2⟩ := readResponseHeader_apply (ε := ε) enp1 emrp
  have hsame : SameResponse enp enp1 := ⟨rfl, rfl, rfl⟩
  have hreq : enp2.req emrp = enp.headerRead emrp := hreq2.trans hsame.headerRead
  have hversion : 2 ≤ enp1.emip.emiMaxVersion := h.version
  have hbegin : (efxMcdiEvCpl enp.lastSeq outlen errcode : Prog Nic ε _) enp0 =
      (when (errcode = 0) (efxMcdiFinishResponse emrp) : Prog Nic ε Unit) enp2 := by
    rw [efxMcdiEvCpl, bind_of_ret hlocked]
    dsimp only
    rw [efxMcdiEvCplFinish, bind_of_ret getEmip_apply, if_pos hversion, bind_of_ret hhdr]
  rw [hbegin, Nic.evented]
  by_cases herr : errcode = 0
  · rw [when_pos herr, if_pos herr]
    obtain ⟨enp', hfin, hreq'⟩ := finishResponse_apply (ε := ε) enp2 emrp
    exact ⟨enp', hfin, by rw [hreq', hreq, finished_congr hmem2]; rfl⟩
  · rw [when_neg herr, if_neg herr]
    exact ⟨enp2, rfl, hreq⟩

/-! ### When the two agree -/

/-- What the caller of a request sees. -/
def EfxMcdiReq.outcome (emr : EfxMcdiReq) : Option Errno × ℕ × Option Bytes :=
  (emr.emrRc, emr.emrOutLengthUsed, emr.emrOutBuf)

/-- A failed request has no output. -/
def EfxMcdiReq.Clean (emr : EfxMcdiReq) : Prop := emr.emrRc ≠ none → emr.emrOutLengthUsed = 0

/-- A response to another request, in the V2 format and not empty, is copied for the request that waits. -/
def Nic.Copied (enp : Nic) (emrp : ℕ) : Prop :=
  enp.error = 0 ∧ enp.Mismatched emrp ∧ dwordField (enp.mem 0) MCDI_HEADER_CODE = MC_CMD_V2_EXTN ∧
    dwordField (enp.mem 1) MC_CMD_V2_EXTN_IN_ACTUAL_LEN ≠ 0 ∧ (enp.req emrp).emrOutBuf ≠ none

theorem headerRead_clean (enp : Nic) (emrp : ℕ) : (enp.headerRead emrp).Clean := by
  intro hrc
  unfold Nic.headerRead at hrc ⊢
  dsimp only at hrc ⊢
  split_ifs at hrc ⊢ <;> first | rfl | exact absurd rfl hrc

theorem headerRead_mismatched (herr : enp.error = 0) (hmis : enp.Mismatched emrp) :
    enp.headerRead emrp = { enp.req emrp with emrRc := some Errno.EIO, emrOutLengthUsed := 0 } := by
  unfold Nic.headerRead
  dsimp only
  rw [if_neg (fun h => h.1 herr), if_pos hmis]

theorem headerRead_matched (herr : enp.error = 0) (hmis : ¬ enp.Mismatched emrp) :
    (enp.headerRead emrp).emrRc = none := by
  unfold Nic.headerRead
  dsimp only
  rw [if_neg (fun h => h.1 herr), if_neg hmis, if_neg (fun h => h herr)]

theorem headerRead_error (herr : enp.error ≠ 0) : (enp.headerRead emrp).emrRc ≠ none := by
  unfold Nic.headerRead
  dsimp only
  split_ifs <;> simp

theorem finished_emrRc (enp : Nic) (emr : EfxMcdiReq) : (enp.finished emr).emrRc = emr.emrRc := by
  unfold Nic.finished
  split_ifs <;> rfl

/-- A failed request with nothing to copy is left alone. -/
theorem finished_outcome {emr : EfxMcdiReq} (hused : emr.emrOutLengthUsed = 0)
    (hempty : emr.emrOutBuf ≠ none → dwordField (enp.mem 0) MCDI_HEADER_CODE = MC_CMD_V2_EXTN →
      dwordField (enp.mem 1) MC_CMD_V2_EXTN_IN_ACTUAL_LEN = 0) :
    (enp.finished emr).outcome = emr.outcome := by
  unfold Nic.finished
  by_cases hbuf : emr.emrOutBuf = none
  · rw [if_pos hbuf]
  rw [if_neg hbuf]
  have hzero : (if enp.shape.2.2 = 8 then enp.shape.2.1.toNat else emr.emrOutLengthUsed) = 0 := by
    unfold Nic.shape
    by_cases hv2 : dwordField (enp.mem 0) MCDI_HEADER_CODE = MC_CMD_V2_EXTN
    · simp [hv2, hempty hbuf hv2]
    · simp [hv2, hused]
  have hnil : ∀ offset length, enp.payload offset (min 0 length) = [] := by simp [Nic.payload]
  dsimp only
  rw [hzero, hnil, EfxMcdiReq.outcome, EfxMcdiReq.outcome, hused]
  simp

/-- **Polled and event completion agree**, and a failed request has no output, exactly when no response to another
request is copied. -/
theorem completions_iff (h : enp.Answered emrp) (outlen : ℕ) {errcode : U32} (herr : errcode ≠ 0 ↔ enp.error ≠ 0) :
    ∃ polled evented,
      (efxMcdiRequestPoll : Prog Nic Empty _) (enp.startedWith false) = .ret () polled ∧
      (efxMcdiEvCpl enp.lastSeq outlen errcode : Prog Nic Empty _) (enp.startedWith true) = .ret () evented ∧
      ((polled.req emrp).outcome = (evented.req emrp).outcome ∧ (polled.req emrp).Clean ∧ (evented.req emrp).Clean ↔
        ¬ enp.Copied emrp) := by
  obtain ⟨enp1, hpoll, hreq1⟩ := requestPoll_apply (ε := Empty) h
  obtain ⟨enp2, hev, hreq2⟩ := evCpl_apply (ε := Empty) h outlen errcode
  refine ⟨enp1, enp2, hpoll, hev, ?_⟩
  rw [hreq1, hreq2, Nic.polled, Nic.evented]
  have hclean := headerRead_clean enp emrp
  by_cases he : enp.error = 0
  · have hcode : errcode = 0 := by
      by_contra hne
      exact herr.mp hne he
    rw [if_pos hcode]
    by_cases hmis : enp.Mismatched emrp
    · have hread := headerRead_mismatched he hmis
      rw [if_neg (by rw [hread]; simp)]
      constructor
      · rintro ⟨-, -, hclean2⟩ ⟨-, -, hv2, hlen, hbuf⟩
        have hused := hclean2 (by rw [finished_emrRc, hread]; simp)
        rw [hread, Nic.finished, if_neg hbuf] at hused
        simp only [Nic.shape, hv2, ne_eq, not_true_eq_false, if_false, if_true] at hused
        exact hlen (BitVec.eq_of_toNat_eq hused)
      · intro hn
        have hout : (enp.finished (enp.headerRead emrp)).outcome = (enp.headerRead emrp).outcome := by
          refine finished_outcome (by rw [hread]) fun hbuf hv2 => ?_
          rw [hread] at hbuf
          by_contra hlen
          exact hn ⟨he, hmis, hv2, hlen, hbuf⟩
        refine ⟨hout.symm, hclean, fun hrc => ?_⟩
        rw [finished_emrRc] at hrc
        exact (congrArg (fun o => o.2.1) hout).trans (hclean hrc)
    · have hrc := headerRead_matched he hmis
      rw [if_pos hrc]
      have hclean2 : (enp.finished (enp.headerRead emrp)).Clean := fun hne => by
        rw [finished_emrRc] at hne
        exact absurd hrc hne
      exact iff_of_true ⟨rfl, hclean2, hclean2⟩ fun hc => hmis hc.2.1
  · have hcode : errcode ≠ 0 := herr.mpr he
    rw [if_neg hcode, if_neg (headerRead_error he)]
    exact iff_of_true ⟨rfl, hclean, hclean⟩ fun hc => he hc.1

/-- A response with these header words to request 0, which has command 2 and four bytes of output. -/
def responding (hdr0 hdr1 : U32) : Nic where
  family := .HUNTINGTON
  modMcdi := true
  emip := ⟨2, 1, some 0, false, false, 0, 0, 0⟩
  req _ := ⟨false, 2, [], 0, none, some [0, 0, 0, 0], 4, 0, 0, 0⟩
  mem i := if i = 0 then hdr0 else if i = 1 then hdr1 else 7
  sftStatus := 0
  sent := []
  exceptions := []

theorem answered_responding (hdr0 hdr1 : U32) (h : dwordField hdr0 MCDI_HEADER_RESPONSE ≠ 0) :
    (responding hdr0 hdr1).Answered 0 := ⟨rfl, rfl, le_refl 2, h⟩

/-- A response of four bytes to the request. -/
theorem completions_matched : ∃ polled evented,
    (efxMcdiRequestPoll : Prog Nic Empty _) ((responding 0x8000ff 0x40002).startedWith false) = .ret () polled ∧
    (efxMcdiEvCpl (responding 0x8000ff 0x40002).lastSeq 0 0 : Prog Nic Empty _)
      ((responding 0x8000ff 0x40002).startedWith true) = .ret () evented ∧
    (polled.req 0).outcome = (evented.req 0).outcome ∧ (polled.req 0).Clean ∧ (evented.req 0).Clean := by
  have herror : (0 : U32) ≠ 0 ↔ (responding 0x8000ff 0x40002).error ≠ 0 := by decide
  obtain ⟨polled, evented, hpoll, hev, hiff⟩ :=
    completions_iff (answered_responding 0x8000ff 0x40002 (by decide)) 0 herror
  exact ⟨polled, evented, hpoll, hev, hiff.mpr fun hc => absurd hc.2.1 (by decide)⟩

/-- A response of four bytes to command 3 is copied, with an error. -/
theorem completion_copies_other : ¬ ∀ (enp : Nic) emrp outlen errcode polled evented, enp.Answered emrp →
    (errcode ≠ 0 ↔ enp.error ≠ 0) →
    (efxMcdiRequestPoll : Prog Nic Empty _) (enp.startedWith false) = .ret () polled →
    (efxMcdiEvCpl enp.lastSeq outlen errcode : Prog Nic Empty _) (enp.startedWith true) = .ret () evented →
    (polled.req emrp).outcome = (evented.req emrp).outcome ∧ (polled.req emrp).Clean ∧
      (evented.req emrp).Clean := by
  intro h
  have hans := answered_responding 0x8000ff 0x40003 (by decide)
  obtain ⟨polled, hpoll, -⟩ := requestPoll_apply (ε := Empty) hans
  obtain ⟨evented, hev, hreq⟩ := evCpl_apply (ε := Empty) hans 0 0
  obtain ⟨-, -, hclean⟩ := h _ _ _ _ _ _ hans (by decide) hpoll hev
  rw [hreq] at hclean
  have hrc : ((responding 0x8000ff 0x40003).evented 0 0).emrRc = some Errno.EIO := by decide
  have hused : ((responding 0x8000ff 0x40003).evented 0 0).emrOutLengthUsed = 4 := by decide
  have hzero := hclean (by rw [hrc]; simp)
  rw [hused] at hzero
  cases hzero

end Sfxge.Mcdi
