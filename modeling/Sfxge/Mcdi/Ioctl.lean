import Sfxge.Mcdi.Completion
import Sfxge.Mcdi.Encoding

/-!
# Mcdi.Ioctl — requests from user space

`sfxge_mcdi_ioctl` and `sfxge_mcdi2_ioctl` hand a request on with the length that they are given.  A read outside of
`smi_payload` is undefined here, and so is a write outside of the request buffer.  What a response has behind the end
of the buffer is whatever is there.
-/

namespace Sfxge.Mcdi

open Lib Lib.Prog Errno

variable {ε : Type}

/-! ### The transport -/

def MC_SMEM_PDU_LEN : ℕ := 0x100

/-- The size of the request buffer: on EF10 that of `sfxge_mcdi_init`, on Siena the PDU of the port. -/
def requestBufSize : EfxFamily → ℕ
  | .SIENA => MC_SMEM_PDU_LEN
  | .HUNTINGTON => msgBufSize

/-- `*(efx_dword_t *)((uint8_t *)srcp + pos)` -/
def readDword (srcp : List U32) (pos : ℕ) : Prog Nic ε U32 :=
  match srcp[pos / 4]? with
  | some dword => pure dword
  | none => stuck

/-- `EFSYS_MEM_WRITED`, or `EFX_BAR_TBL_WRITED` into the PDU. -/
def requestWrited (offset : ℕ) (dword : U32) : Prog Nic ε Unit := fun enp =>
  if offset + 4 ≤ requestBufSize enp.family then
    .ret () { enp with mem := Function.update enp.mem (offset / 4) dword }
  else .fault

/-- `for (; pos < len; pos += sizeof (efx_dword_t))`, with the number of rounds to come. -/
def sendRounds (base : ℕ) (srcp : List U32) : ℕ → ℕ → Prog Nic ε Unit
  | 0, _ => pure ()
  | n + 1, pos => do
    let dword ← readDword srcp pos
    requestWrited (base + pos) dword
    sendRounds base srcp n (pos + 4)

/-- `emco_send_request`, without the doorbell. -/
def emcoSendRequest (hdrp : List U32) (sdup : List U32) (sduLen : ℕ) : Prog Nic ε Unit := do
  let enp ← get
  when (enp.family = .SIENA) (efsysAssert (hdrp.length = 1))
  -- Write the header
  sendRounds 0 hdrp hdrp.length 0
  -- Write the payload
  sendRounds (4 * hdrp.length) sdup ((sduLen + 3) / 4) 0
  modify fun enp => { enp with sent := hdrp :: enp.sent }

/-- `efx_mcdi_request_start` -/
def efxMcdiRequestStart (emrp : ℕ) (evCpl : Bool) : Prog Nic ε Unit := do
  let l ← efxMcdiRequestStartLocked emrp evCpl
  let emr ← getReq emrp
  emcoSendRequest (mcdiHeader l evCpl emr) emr.emrInBuf emr.emrInLength

/-! ### Polling -/

/-- What the controller has in the buffer when a poll looks for a response, and when its payload is read after the lock
is dropped. -/
structure Shared where
  polled : ℕ → U32
  finished : ℕ → U32

/-- The controller writes the buffer. -/
def writeShared (mem : ℕ → U32) : Prog Nic ε Unit := fun enp => .ret () { enp with mem := mem }

/-- `efx_mcdi_request_poll`, with what the controller writes. -/
def requestPoll (s : Shared) : Prog Nic ε Bool := do
  writeShared s.polled
  match ← efxMcdiRequestPollLocked with
  | .waiting => return false
  | sec =>
    writeShared s.finished
    efxMcdiRequestPollFinish sec
    return true

/-- `sfxge_mcdi_poll`.  The timeout expires when there are no further polls; it returns whether it does, and
`sfxge_mcdi_timeout` then restarts the driver. -/
def sfxgeMcdiPoll (s : Shared) : List Shared → Prog Nic ε Bool
  | [] => do
    if ← requestPoll s then return false
    -- Timeout before request completion
    let aborted ← efxMcdiRequestAbort
    efsysAssert (aborted ≠ none)
    return true
  | s' :: polls => do
    if ← requestPoll s then return false
    sfxgeMcdiPoll s' polls

/-- `sfxge_mcdi_execute`, with the access to MCDI acquired. -/
def sfxgeMcdiExecute (emrp : ℕ) (s : Shared) (polls : List Shared) : Prog Nic ε Bool := do
  -- Issue request and poll for completion
  efxMcdiRequestStart emrp false
  sfxgeMcdiPoll s polls

/-! ### The requests -/

/-- `sfxge_mcdi_ioc_t` and `sfxge_mcdi2_ioc_t`, with `size` bytes of payload and numbers of `w` bits.  Every error
has a number of eight bits. -/
structure McdiIoc (size w : ℕ) where
  smiPayload : Bytes
  smiCmd : BitVec w
  smiLen : BitVec w
  smiRc : Option Errno
  length_smiPayload : smiPayload.length = size

abbrev SfxgeMcdiIoc := McdiIoc 256 8
abbrev SfxgeMcdi2Ioc := McdiIoc 1024 32

variable {size w : ℕ}

/-- The payload in dwords. -/
def McdiIoc.dwords (smip : McdiIoc size w) : List U32 :=
  (List.range (size / 4)).map fun k => BitVec.ofNat 32 (u32 smip.smiPayload (4 * k))

/-- `memcpy(smip->smi_payload, out, n)` -/
def McdiIoc.copyOut (smip : McdiIoc size w) (out : Bytes) (n : ℕ) : Prog Nic ε (McdiIoc size w) :=
  if h : n ≤ out.length ∧ n ≤ size then
    pure { smip with
      smiPayload := out.take n ++ smip.smiPayload.drop n
      length_smiPayload := by
        rw [List.length_append, List.length_take, List.length_drop, smip.length_smiPayload]
        omega }
  else stuck

/-- `sm_state` -/
inductive SfxgeMcdiState
  | UNINITIALIZED
  | INITIALIZED
  | BUSY
  | COMPLETED
  deriving DecidableEq

/-- `emi_max_version` of an interface that has been initialised. -/
def EfxFamily.maxVersion : EfxFamily → ℕ
  | .SIENA => 1
  | .HUNTINGTON => 2

/-- The interface is initialised and nobody has a request pending. -/
structure Nic.Idle (enp : Nic) : Prop where
  modMcdi : enp.modMcdi = true
  pending : enp.emip.emiPendingReq = none
  maxVersion : enp.emip.emiMaxVersion = enp.family.maxVersion

/-- The driver, as far as it handles a request: the interface is that which is found when the access to MCDI has been
acquired, unless it never is initialised. -/
structure SfxgeMcdi where
  smState : SfxgeMcdiState
  /-- `EFX_FEATURE_MCDI` -/
  feature : Bool
  enp : Nic
  idle : smState ≠ .UNINITIALIZED → enp.Idle

/-- What asks for a restart of the driver. -/
inductive RestartReason
  /-- `sfxge_mcdi_timeout` -/
  | mcdiTimeout
  /-- The request was `MC_CMD_REBOOT`. -/
  | mcReboot

/-- The two requests differ in the payload and in the width of the fields.  `emr` is on the stack. -/
def mcdiIoctl (sp : SfxgeMcdi) (s : Shared) (polls : List Shared) (smip : McdiIoc size w) :
    Prog Nic Errno (McdiIoc size w × List RestartReason) := do
  ensure (sp.smState ≠ .UNINITIALIZED) ENODEV
  ensure (sp.feature = true) ENOTSUP
  let emrp := 0
  setReq emrp fun emr => { emr with
    emrCmd := smip.smiCmd.setWidth 32
    emrInBuf := smip.dwords
    emrInLength := smip.smiLen.toNat
    emrOutBuf := some (List.replicate size 0)
    emrOutLength := size }
  let timedOut ← sfxgeMcdiExecute emrp s polls
  let emr ← getReq emrp
  let smip := { smip with
    smiRc := emr.emrRc
    smiCmd := emr.emrCmd.setWidth w
    smiLen := BitVec.ofNat w emr.emrOutLengthUsed }
  let smip ← smip.copyOut (emr.emrOutBuf.getD []) smip.smiLen.toNat
  return (smip, (if timedOut then [.mcdiTimeout] else []) ++
    if smip.smiCmd.setWidth 32 = MC_CMD_REBOOT then [.mcReboot] else [])

/-- `sfxge_mcdi_ioctl` -/
def sfxgeMcdiIoctl (sp : SfxgeMcdi) (s : Shared) (polls : List Shared) (smip : SfxgeMcdiIoc) :
    Prog Nic Errno (SfxgeMcdiIoc × List RestartReason) := mcdiIoctl sp s polls smip

/-- `sfxge_mcdi2_ioctl` -/
def sfxgeMcdi2Ioctl (sp : SfxgeMcdi) (s : Shared) (polls : List Shared) (smip : SfxgeMcdi2Ioc) :
    Prog Nic Errno (SfxgeMcdi2Ioc × List RestartReason) := mcdiIoctl sp s polls smip

/-! ### What a request may do -/

/-- The code, the length of the payload and the length of the header of a response. -/
def responseShape (mem : ℕ → U32) : U32 × U32 × ℕ :=
  if dwordField (mem 0) MCDI_HEADER_CODE ≠ MC_CMD_V2_EXTN then
    (dwordField (mem 0) MCDI_HEADER_CODE, dwordField (mem 0) MCDI_HEADER_DATALEN, 4)
  else
    (dwordField (mem 1) MC_CMD_V2_EXTN_IN_EXTENDED_CMD, dwordField (mem 1) MC_CMD_V2_EXTN_IN_ACTUAL_LEN, 8)

/-- The length of a response; that of one in the V1 format is read by the poll. -/
def Shared.dataLen (s : Shared) : ℕ :=
  if (responseShape s.finished).2.2 = 8 then (responseShape s.finished).2.1.toNat
  else (responseShape s.polled).2.1.toNat

/-- The first `n` bytes of a response. -/
def Shared.payload (s : Shared) (n : ℕ) : Bytes :=
  ((List.range ((n + 3) / 4)).flatMap fun k =>
    le 4 (s.finished ((responseShape s.finished).2.2 / 4 + k)).toNat).take n

/-- `smi_len` is the number of bytes of a response that are put in front of those which were in the payload. -/
structure Placed (polls : List Shared) (smip smip' : McdiIoc size w) : Prop where
  len_le : smip'.smiLen.toNat ≤ size
  response : 0 < smip'.smiLen.toNat → ∃ s ∈ polls, smip'.smiLen.toNat ≤ s.dataLen ∧
    smip'.smiPayload.take smip'.smiLen.toNat = s.payload smip'.smiLen.toNat
  rest : smip'.smiPayload.drop smip'.smiLen.toNat = smip.smiPayload.drop smip'.smiLen.toNat

/-- The request is rejected, or its header and payload are read and written where they may be and a response is placed,
whatever the controller does. -/
def Bounded (sp : SfxgeMcdi) (smip : McdiIoc size w) : Prop :=
  ∀ s polls, (∃ e, mcdiIoctl sp s polls smip sp.enp = .err e sp.enp) ∨
    ∃ smip' restarts enp', mcdiIoctl sp s polls smip sp.enp = .ret (smip', restarts) enp' ∧
      Placed (s :: polls) smip smip'

/-- The request is not rejected. -/
def SfxgeMcdi.Accepts (sp : SfxgeMcdi) : Prop := sp.smState ≠ .UNINITIALIZED ∧ sp.feature = true

/-- The longest payload that fits behind its header. -/
def sduMax : EfxFamily → ℕ
  | .SIENA => MCDI_CTL_SDU_LEN_MAX_V1
  | .HUNTINGTON => MCDI_CTL_SDU_LEN_MAX_V2 - 4

/-! ### Sending -/

variable {enp enp' : Nic} {emrp : ℕ} {hdr sdu : List U32} {len : ℕ}

theorem sendRounds_apply (b : ℕ) (srcp : List U32) (n : ℕ) : ∀ (j : ℕ) (enp : Nic),
    (sendRounds (4 * b) srcp n (4 * j) : Prog Nic ε Unit) enp =
      if n = 0 ∨ (j + n ≤ srcp.length ∧ 4 * (b + j + n) ≤ requestBufSize enp.family) then
        .ret () { enp with mem := (EfsysMem.copied ⟨0, enp.mem⟩ b srcp j n).dword }
      else .fault := by
  induction n with
  | zero =>
    intro j enp
    rw [if_pos (Or.inl rfl), copied_zero]
    rfl
  | succ n ih =>
    intro j enp
    have hdiv : 4 * j / 4 = j := by omega
    have hoff : (4 * b + 4 * j) / 4 = b + j := by omega
    rw [sendRounds]
    by_cases hj : j < srcp.length
    swap
    · have hread : (readDword srcp (4 * j) : Prog Nic ε U32) enp = .fault := by
        rw [readDword, hdiv, List.getElem?_eq_none (not_lt.mp hj)]
        rfl
      rw [bind_of_fault hread, if_neg (by omega)]
    have hread : (readDword srcp (4 * j) : Prog Nic ε U32) enp = .ret (srcp.getD j 0) enp := by
      rw [readDword, hdiv, List.getElem?_eq_getElem hj, List.getD_eq_getElem _ _ hj]
      rfl
    rw [bind_of_ret hread]
    by_cases hin : 4 * b + 4 * j + 4 ≤ requestBufSize enp.family
    · have hwrite : (requestWrited (4 * b + 4 * j) (srcp.getD j 0) : Prog Nic ε Unit) enp =
          .ret () { enp with mem := Function.update enp.mem (b + j) (srcp.getD j 0) } := by
        rw [requestWrited, if_pos hin, hoff]
      rw [bind_of_ret hwrite, show 4 * j + 4 = 4 * (j + 1) by omega, ih]
      have hcopied := copied_succ ⟨0, enp.mem⟩ b srcp j n
      dsimp only at hcopied ⊢
      rw [hcopied]
      exact if_congr (by omega) rfl rfl
    · have hwrite : (requestWrited (4 * b + 4 * j) (srcp.getD j 0) : Prog Nic ε Unit) enp = .fault := if_neg hin
      rw [bind_of_fault hwrite, if_neg (by omega)]

/-- The payload is read inside of what was given, and the request is written inside of the buffer. -/
def Inside (family : EfxFamily) (hdr sdu : List U32) (len : ℕ) : Prop :=
  (len + 3) / 4 ≤ sdu.length ∧ 4 * (hdr.length + (len + 3) / 4) ≤ requestBufSize family

instance (family : EfxFamily) (hdr sdu : List U32) (len : ℕ) : Decidable (Inside family hdr sdu len) :=
  inferInstanceAs (Decidable (_ ∧ _))

/-- A header of any version fits. -/
theorem length_header_le (hlen : hdr.length ≤ 2) : 4 * hdr.length ≤ requestBufSize enp.family := by
  have hsize : 256 ≤ requestBufSize enp.family := by cases enp.family <;> decide
  omega

/-- Inside of its bounds, a send is that of the interface. -/
theorem emcoSendRequest_apply (hhdr : hdr ≠ []) (hlen : hdr.length ≤ 2)
    (hsiena : enp.family = .SIENA → hdr.length = 1) :
    (emcoSendRequest hdr sdu len : Prog Nic ε Unit) enp =
      if Inside enp.family hdr sdu len then efxMcdiSendRequest hdr sdu len enp else .fault := by
  have hassert : (when (enp.family = .SIENA) (efsysAssert (hdr.length = 1)) : Prog Nic ε Unit) enp = .ret () enp := by
    by_cases hf : enp.family = .SIENA
    · rw [when_pos hf, efsysAssert_pos (hsiena hf)]
    · rw [when_neg hf]
      rfl
  have hhead := sendRounds_apply (ε := ε) 0 hdr hdr.length 0 enp
  rw [if_pos (Or.inr ⟨by omega, by rw [Nat.zero_add]; exact length_header_le hlen⟩)] at hhead
  rw [emcoSendRequest, bind_of_ret (get_apply enp), bind_of_ret hassert, bind_of_ret hhead]
  set enp1 : Nic := { enp with mem := (EfsysMem.copied ⟨0, enp.mem⟩ 0 hdr 0 hdr.length).dword }
  have hbody := sendRounds_apply (ε := ε) hdr.length sdu ((len + 3) / 4) 0 enp1
  have hcond : ((len + 3) / 4 = 0 ∨ 0 + (len + 3) / 4 ≤ sdu.length ∧
      4 * (hdr.length + 0 + (len + 3) / 4) ≤ requestBufSize enp1.family) ↔ Inside enp.family hdr sdu len := by
    have hhdrlen : 4 * hdr.length ≤ requestBufSize enp.family := length_header_le hlen
    have hfamily : enp1.family = enp.family := rfl
    rw [Inside, hfamily]
    omega
  rw [if_congr hcond rfl rfl] at hbody
  by_cases hin : Inside enp.family hdr sdu len
  · rw [if_pos hin] at hbody
    rw [bind_of_ret hbody, if_pos hin]
    have hef10 := @ef10SendRequest_apply ε hdr sdu len hhdr ⟨requestBufSize enp.family, enp.mem⟩
    rw [if_pos hin.2] at hef10
    have hmem := ef10SendRequest_mem hhdr hin.1 hef10 (rfl : (efxMcdiSendRequest hdr sdu len : Prog Nic ε Unit) enp = _)
    exact congrArg (fun mem => Res.ret () { enp with mem := mem, sent := hdr :: enp.sent }) hmem
  · rw [if_neg hin] at hbody
    rw [bind_of_fault hbody, if_neg hin]

/-! ### The start of a request -/

theorem mcdiHeader_length {l : RequestLocals} {evCpl : Bool} {emr : EfxMcdiReq} :
    (mcdiHeader l evCpl emr).length = if NeedsV2 l.maxVersion emr.emrCmd emr.emrInLength then 2 else 1 := by
  split_ifs with h
  · rw [mcdiHeader_v2 h]
    rfl
  · rw [mcdiHeader_v1 h]
    rfl

/-- A request whose payload has the length that it says fits the request buffer exactly if it is not longer than the
longest one. -/
theorem fits_iff {family : EfxFamily} {cmd : U32} :
    4 * ((if NeedsV2 family.maxVersion cmd len then 2 else 1) + (len + 3) / 4) ≤ requestBufSize family ↔
      len ≤ sduMax family := by
  have hv1 : MCDI_CTL_SDU_LEN_MAX_V1 = 252 := rfl
  have hv2 : MCDI_CTL_SDU_LEN_MAX_V2 = 1024 := rfl
  have hmsg : msgBufSize = 1028 := rfl
  have hpdu : MC_SMEM_PDU_LEN = 256 := rfl
  cases family with
  | SIENA =>
    have hn : ¬ NeedsV2 EfxFamily.SIENA.maxVersion cmd len := fun h => absurd h.1 (by decide)
    rw [if_neg hn, requestBufSize, sduMax]
    omega
  | HUNTINGTON =>
    rw [requestBufSize, sduMax]
    split_ifs with h
    · omega
    · have hle : len ≤ MCDI_CTL_SDU_LEN_MAX_V1 := by
        by_contra hlt
        exact h ⟨le_refl 2, Or.inr (not_le.mp hlt)⟩
      omega

/-- A request has been sent, and its output buffer is as it was given. -/
structure Sent (size : ℕ) (emrp : ℕ) (enp : Nic) : Prop where
  modMcdi : enp.modMcdi = true
  pending : enp.emip.emiPendingReq = some emrp
  evCpl : enp.emip.emiEvCpl = false
  outBuf : (enp.req emrp).emrOutBuf = some (List.replicate size 0)
  outLength : (enp.req emrp).emrOutLength = size

/-- A request can be sent: it fits the buffer, and its payload is as long as it says. -/
def Sendable (enp : Nic) (emrp : ℕ) : Prop :=
  (enp.req emrp).emrInLength ≤ sduMax enp.family ∧ ((enp.req emrp).emrInLength + 3) / 4 ≤ (enp.req emrp).emrInBuf.length

/-- What an idle interface makes of a request. -/
theorem requestStart_apply (hidle : enp.Idle) : ∃ enp',
    (efxMcdiRequestStart emrp false : Prog Nic ε Unit) enp =
      (if Inside enp.family enp'.lastHeader (enp.req emrp).emrInBuf (enp.req emrp).emrInLength then .ret () enp'
        else .fault) ∧
    (Inside enp.family enp'.lastHeader (enp.req emrp).emrInBuf (enp.req emrp).emrInLength ↔ Sendable enp emrp) ∧
    enp'.modMcdi = true ∧ enp'.emip.emiPendingReq = some emrp ∧ enp'.emip.emiEvCpl = false ∧ enp'.req = enp.req := by
  set enp1 : Nic := { enp with emip := { enp.emip with
    emiPendingReq := some emrp
    emiEvCpl := false
    emiPollCnt := 0
    emiSeq := enp.emip.emiSeq + 1 } }
  set l : RequestLocals := ⟨enp.emip.emiSeq &&& mask32 MCDI_HEADER_SEQ, enp.emip.emiNewEpoch, enp.emip.emiMaxVersion⟩
  have hlocked : (efxMcdiRequestStartLocked emrp false : Prog Nic ε _) enp = .ret l enp1 := by
    rw [efxMcdiRequestStartLocked, bind_of_ret (get_apply enp), bind_of_ret (efsysAssert_pos hidle.modMcdi),
      bind_of_ret getEmip_apply, bind_of_ret (efsysAssert_pos hidle.pending)]
    rfl
  set emr := enp.req emrp
  have hemr : (getReq emrp : Prog Nic ε _) enp1 = .ret emr enp1 := rfl
  have hlen := @mcdiHeader_length l false emr
  have hversion : l.maxVersion = enp.family.maxVersion := hidle.maxVersion
  rw [hversion] at hlen
  have hle : (mcdiHeader l false emr).length ≤ 2 := by
    rw [hlen]
    split_ifs <;> decide
  have hne : mcdiHeader l false emr ≠ [] := by
    intro hnil
    rw [hnil] at hlen
    split_ifs at hlen
  have hsiena : enp.family = .SIENA → (mcdiHeader l false emr).length = 1 := by
    intro hf
    rw [hlen, hf, if_neg fun h => absurd h.1 (by decide)]
  obtain ⟨enp', hsend⟩ : ∃ enp',
      (efxMcdiSendRequest (mcdiHeader l false emr) emr.emrInBuf emr.emrInLength : Prog Nic ε Unit) enp1 =
        .ret () enp' := ⟨_, rfl⟩
  have hsent : enp'.lastHeader = mcdiHeader l false emr ∧ enp'.modMcdi = true ∧
      enp'.emip.emiPendingReq = some emrp ∧ enp'.emip.emiEvCpl = false ∧ enp'.req = enp.req := by
    cases hsend
    exact ⟨rfl, hidle.modMcdi, rfl, rfl, rfl⟩
  have hcheck : (emcoSendRequest (mcdiHeader l false emr) emr.emrInBuf emr.emrInLength : Prog Nic ε Unit) enp1 = _ :=
    emcoSendRequest_apply hne hle hsiena
  refine ⟨enp', ?_, ?_, hsent.2⟩
  · rw [efxMcdiRequestStart, bind_of_ret hlocked, bind_of_ret hemr, hcheck, hsend, hsent.1]
  · rw [hsent.1, Inside, hlen, fits_iff, and_comm]
    rfl

/-! ### The end of a request -/

/-- A request that is done has at most as many bytes of output as a length field can tell, and they are those of a
response. -/
structure Done (size : ℕ) (polls : List Shared) (emr : EfxMcdiReq) : Prop where
  used_lt : emr.emrOutLengthUsed < 1024
  out : ∃ out, emr.emrOutBuf = some out ∧ out.length = size ∧ (0 < emr.emrOutLengthUsed → ∃ s ∈ polls,
    emr.emrOutLengthUsed = s.dataLen ∧
      out.take (min emr.emrOutLengthUsed size) = s.payload (min emr.emrOutLengthUsed size))

theorem Done.mono {polls polls' : List Shared} {emr : EfxMcdiReq} (h : Done size polls emr)
    (hsub : ∀ s ∈ polls, s ∈ polls') : Done size polls' emr := by
  obtain ⟨hlt, out, hout, hlen, hresp⟩ := h
  refine ⟨hlt, out, hout, hlen, fun hpos => ?_⟩
  obtain ⟨s, hs, h⟩ := hresp hpos
  exact ⟨s, hsub s hs, h⟩

theorem responseShape_lt (mem : ℕ → U32) : (responseShape mem).2.1.toNat < 1024 := by
  have h1 := toNat_dwordField_lt (mem 0) (by decide : MCDI_HEADER_DATALEN.width ≤ 32)
  have h2 := toNat_dwordField_lt (mem 1) (by decide : MC_CMD_V2_EXTN_IN_ACTUAL_LEN.width ≤ 32)
  rw [responseShape]
  split_ifs
  · exact h1.trans (by decide)
  · exact h2.trans_le (by decide)

theorem Shared.dataLen_lt (s : Shared) : s.dataLen < 1024 := by
  rw [Shared.dataLen]
  split_ifs
  · exact responseShape_lt _
  · exact responseShape_lt _

/-- The output of a request after its response header is read. -/
theorem headerRead_out : (enp.headerRead emrp).emrOutBuf = (enp.req emrp).emrOutBuf ∧
    (enp.headerRead emrp).emrOutLength = (enp.req emrp).emrOutLength := by
  unfold Nic.headerRead
  dsimp only
  split_ifs <;> exact ⟨rfl, rfl⟩

/-- A response without an error is as long as its header says. -/
theorem headerRead_used (hrc : (enp.headerRead emrp).emrRc = none) :
    (enp.headerRead emrp).emrOutLengthUsed = (responseShape enp.mem).2.1.toNat := by
  unfold Nic.headerRead at hrc ⊢
  dsimp only at hrc ⊢
  split_ifs at hrc ⊢
  rfl

theorem length_payload (s : Shared) (n : ℕ) : (s.payload n).length = n := by
  rw [Shared.payload, List.length_take, List.length_flatMap]
  simp only [length_le, List.map_const', List.length_range, List.sum_replicate_nat]
  omega

/-- The response is read into the output buffer. -/
theorem finished_done {s : Shared} {emr : EfxMcdiReq} (hmem : enp.mem = s.finished)
    (hbuf : emr.emrOutBuf = some (List.replicate size 0)) (hsize : emr.emrOutLength = size)
    (hused : emr.emrOutLengthUsed = (responseShape s.polled).2.1.toNat) : Done size [s] (enp.finished emr) := by
  have hshape : enp.shape = responseShape s.finished := by
    rw [← hmem]
    rfl
  have hlen : (enp.finished emr).emrOutLengthUsed = s.dataLen := by
    rw [Nic.finished, if_neg (by simp [hbuf]), hshape, Shared.dataLen, ← hused]
  have hpay : ∀ n, enp.payload (responseShape s.finished).2.2 n = s.payload n := by
    intro n
    rw [Nic.payload, hmem]
    rfl
  have hout : (enp.finished emr).emrOutBuf =
      some (s.payload (min s.dataLen size) ++ (List.replicate size 0).drop (min s.dataLen size)) := by
    have h := hlen
    rw [Nic.finished, if_neg (by simp [hbuf])] at h ⊢
    dsimp only at h ⊢
    rw [h, hshape, hpay, hbuf, hsize, Option.map_some, length_payload]
  refine ⟨by rw [hlen]; exact s.dataLen_lt, _, hout, ?_, fun _ => ⟨s, List.mem_singleton_self s, hlen, ?_⟩⟩
  · rw [List.length_append, length_payload, List.length_drop, List.length_replicate]
    omega
  · rw [hlen]
    exact List.take_left' (length_payload s _)

theorem Sent.of_core (h : Sent size emrp enp) (hcore : enp'.core = enp.core) (hreq : enp'.req = enp.req) :
    Sent size emrp enp' where
  modMcdi := (congrArg Core.modMcdi hcore).trans h.modMcdi
  pending := (congrArg Core.pending hcore).trans h.pending
  evCpl := (congrArg Core.evCpl hcore).trans h.evCpl
  outBuf := by rw [hreq, h.outBuf]
  outLength := by rw [hreq, h.outLength]

/-- A request without output. -/
theorem done_of_used {polls : List Shared} {emr : EfxMcdiReq} (hbuf : emr.emrOutBuf = some (List.replicate size 0))
    (hused : emr.emrOutLengthUsed = 0) : Done size polls emr :=
  ⟨by rw [hused]; decide, _, hbuf, List.length_replicate, fun hpos => absurd hused hpos.ne'⟩

/-- A poll leaves a request that waits, or one that is done. -/
theorem requestPoll_sent {s : Shared} (h : Sent size emrp enp) :
    (∃ enp', (requestPoll s : Prog Nic ε Bool) enp = .ret false enp' ∧ Sent size emrp enp') ∨
    ∃ enp', (requestPoll s : Prog Nic ε Bool) enp = .ret true enp' ∧ Done size [s] (enp'.req emrp) := by
  set enp1 : Nic := { enp with mem := s.polled }
  have hpolled : (writeShared s.polled : Prog Nic ε Unit) enp = .ret () enp1 := rfl
  by_cases hresp : dwordField (enp1.mem 0) MCDI_HEADER_RESPONSE = 0
  · obtain ⟨enp2, hlocked, hreq⟩ := @pollLocked_waiting ε enp1 emrp h.modMcdi h.pending h.evCpl hresp
    obtain ⟨-, _, -, ⟨-, hcore⟩ | ⟨htaken, -⟩⟩ := poll_inv hlocked
    · refine Or.inl ⟨enp2, ?_, h.of_core hcore hreq⟩
      rw [requestPoll, bind_of_ret hpolled, bind_of_ret hlocked]
      rfl
    · cases htaken
  · obtain ⟨enp2, hlocked, hmem2, hreq⟩ := @pollLocked_complete ε enp1 emrp h.modMcdi h.pending h.evCpl hresp
    set enp3 : Nic := { enp2 with mem := s.finished }
    have hfinished : (writeShared s.finished : Prog Nic ε Unit) enp2 = .ret () enp3 := rfl
    obtain ⟨enp', hfin, hreq'⟩ := pollFinish_apply (ε := ε) enp3 emrp
    refine Or.inr ⟨enp', ?_, ?_⟩
    · rw [requestPoll, bind_of_ret hpolled, bind_of_ret hlocked]
      dsimp only
      rw [bind_of_ret hfinished, bind_of_ret hfin]
      rfl
    · have hreq3 : enp3.req emrp = enp1.headerRead emrp := hreq
      obtain ⟨hbuf, hlen⟩ := @headerRead_out enp1 emrp
      rw [hreq', hreq3]
      split_ifs with hrc
      · exact finished_done rfl (hbuf.trans h.outBuf) (hlen.trans h.outLength) (headerRead_used hrc)
      · exact done_of_used (hbuf.trans h.outBuf) (headerRead_clean enp1 emrp hrc)

/-- The abort of a request leaves it without output. -/
theorem abort_sent (h : Sent size emrp enp) : ∃ enp', (efxMcdiRequestAbort : Prog Nic ε _) enp = .ret (some emrp) enp' ∧
    enp'.req emrp = { enp.req emrp with emrOutLengthUsed := 0, emrRc := some ETIMEDOUT } := by
  rw [efxMcdiRequestAbort, bind_of_ret (get_apply enp), bind_of_ret (efsysAssert_pos h.modMcdi),
    bind_of_ret getEmip_apply, h.pending]
  dsimp only
  rw [when_neg (by simp [h.evCpl])]
  exact ⟨_, rfl, Function.update_self ..⟩

/-- Polling ends with the request done, whether or not the timeout expires. -/
theorem mcdiPoll_done (polls : List Shared) : ∀ {s : Shared} {enp : Nic}, Sent size emrp enp →
    ∃ timedOut enp', (sfxgeMcdiPoll s polls : Prog Nic ε Bool) enp = .ret timedOut enp' ∧
      Done size (s :: polls) (enp'.req emrp) := by
  induction polls with
  | nil =>
    intro s enp h
    obtain ⟨enp1, hpoll, h1⟩ | ⟨enp1, hpoll, h1⟩ := requestPoll_sent (ε := ε) (s := s) h
    · obtain ⟨enp2, habort, hreq⟩ := abort_sent (ε := ε) h1
      refine ⟨true, enp2, ?_, ?_⟩
      · rw [sfxgeMcdiPoll, bind_of_ret hpoll, if_neg Bool.false_ne_true, bind_of_ret habort,
          bind_of_ret (efsysAssert_pos (by simp))]
        rfl
      · rw [hreq]
        exact done_of_used h1.outBuf rfl
    · exact ⟨false, enp1, by rw [sfxgeMcdiPoll, bind_of_ret hpoll]; rfl, h1⟩
  | cons s' polls ih =>
    intro s enp h
    obtain ⟨enp1, hpoll, h1⟩ | ⟨enp1, hpoll, h1⟩ := requestPoll_sent (ε := ε) (s := s) h
    · obtain ⟨timedOut, enp', hrun, hdone⟩ := ih h1
      exact ⟨timedOut, enp', by rw [sfxgeMcdiPoll, bind_of_ret hpoll]; exact hrun,
        hdone.mono fun _ hs => List.mem_cons_of_mem _ hs⟩
    · exact ⟨false, enp1, by rw [sfxgeMcdiPoll, bind_of_ret hpoll]; rfl, h1.mono (by simp)⟩

/-! ### The requests -/

theorem length_dwords (smip : McdiIoc size w) : smip.dwords.length = size / 4 := by
  rw [McdiIoc.dwords, List.length_map, List.length_range]

/-- The first bytes of a response are those of its beginning. -/
theorem take_payload (s : Shared) {n m : ℕ} (h : n ≤ m) : (s.payload m).take n = s.payload n := by
  have hk : (n + 3) / 4 ≤ (m + 3) / 4 := by omega
  obtain ⟨d, hd⟩ := Nat.exists_eq_add_of_le hk
  rw [Shared.payload, Shared.payload, List.take_take, Nat.min_eq_left h, hd, List.range_add, List.flatMap_append]
  refine List.take_append_of_le_length ?_
  rw [List.length_flatMap]
  simp only [length_le, List.map_const', List.length_range, List.sum_replicate_nat]
  omega

/-- The bytes that are copied out of a request that is done are those of the response. -/
theorem copyOut_placed {polls : List Shared} {emr : EfxMcdiReq} (hdone : Done size polls emr)
    (hw : ∀ used < 1024, used % 2 ^ w ≤ size) {smip smip1 : McdiIoc size w} (hlen : smip1.smiLen =
    BitVec.ofNat w emr.emrOutLengthUsed) (hpay : smip1.smiPayload = smip.smiPayload) :
    ∃ smip', (smip1.copyOut (emr.emrOutBuf.getD []) smip1.smiLen.toNat : Prog Nic ε _) enp = .ret smip' enp ∧
      Placed polls smip smip' := by
  obtain ⟨hlt, out, hout, houtlen, hresp⟩ := hdone
  set used := emr.emrOutLengthUsed
  have hn : smip1.smiLen.toNat = used % 2 ^ w := by rw [hlen, BitVec.toNat_ofNat]
  set n := smip1.smiLen.toNat
  have hle : n ≤ size := hn.trans_le (hw used hlt)
  have hused : n ≤ used := hn.trans_le (Nat.mod_le _ _)
  have htake : (out.take n).length = n := by rw [List.length_take, houtlen, Nat.min_eq_left hle]
  rw [hout, Option.getD_some, McdiIoc.copyOut, dif_pos ⟨houtlen.symm ▸ hle, hle⟩]
  refine ⟨_, rfl, hle, fun hpos => ?_, ?_⟩
  · obtain ⟨s, hs, hdata, hbytes⟩ := hresp (lt_of_lt_of_le hpos hused)
    refine ⟨s, hs, hused.trans_eq hdata, ?_⟩
    have hmin : n ≤ min used size := le_min hused hle
    show (out.take n ++ smip1.smiPayload.drop n).take n = s.payload n
    rw [List.take_left' htake, ← take_payload s hmin, ← hbytes, List.take_take, Nat.min_eq_left hmin]
  · show (out.take n ++ smip1.smiPayload.drop n).drop n = smip.smiPayload.drop n
    rw [List.drop_left' htake, hpay]

/-- A request that is not accepted is rejected. -/
theorem mcdiIoctl_rejected (sp : SfxgeMcdi) (smip : McdiIoc size w) (s : Shared) (polls : List Shared)
    (h : ¬ sp.Accepts) : ∃ e, mcdiIoctl sp s polls smip sp.enp = .err e sp.enp := by
  unfold mcdiIoctl
  by_cases hstate : sp.smState ≠ .UNINITIALIZED
  · have hfeature : ¬ sp.feature = true := fun hf => h ⟨hstate, hf⟩
    exact ⟨ENOTSUP, by rw [bind_of_ret (ensure_pos hstate), bind_of_err (ensure_neg hfeature)]⟩
  · exact ⟨ENODEV, by rw [bind_of_err (ensure_neg hstate)]⟩

/-- An accepted request is placed if it can be sent, and undefined otherwise. -/
theorem mcdiIoctl_accepted (sp : SfxgeMcdi) (smip : McdiIoc size w) (s : Shared) (polls : List Shared) (h : sp.Accepts)
    (hw : ∀ used < 1024, used % 2 ^ w ≤ size) :
    if smip.smiLen.toNat ≤ sduMax sp.enp.family ∧ (smip.smiLen.toNat + 3) / 4 ≤ size / 4 then
      ∃ smip' restarts enp', mcdiIoctl sp s polls smip sp.enp = .ret (smip', restarts) enp' ∧
        Placed (s :: polls) smip smip'
    else mcdiIoctl sp s polls smip sp.enp = .fault := by
  obtain ⟨hstate, hfeature⟩ := h
  have hidle := sp.idle hstate
  set emr : EfxMcdiReq := { sp.enp.req 0 with
    emrCmd := smip.smiCmd.setWidth 32
    emrInBuf := smip.dwords
    emrInLength := smip.smiLen.toNat
    emrOutBuf := some (List.replicate size 0)
    emrOutLength := size } with hemr
  set enp1 : Nic := { sp.enp with req := Function.update sp.enp.req 0 emr }
  have hreq1 : enp1.req 0 = emr := Function.update_self (0 : ℕ) emr sp.enp.req
  have hidle1 : enp1.Idle := ⟨hidle.modMcdi, hidle.pending, hidle.maxVersion⟩
  have hset : (setReq 0 (fun emr => { emr with
    emrCmd := smip.smiCmd.setWidth 32
    emrInBuf := smip.dwords
    emrInLength := smip.smiLen.toNat
    emrOutBuf := some (List.replicate size 0)
    emrOutLength := size }) : Prog Nic Errno Unit) sp.enp = .ret () enp1 := rfl
  obtain ⟨enp2, hstart, hinside, hmod, hpending, hev, hreq2⟩ := @requestStart_apply Errno enp1 0 hidle1
  have hsendable : Sendable enp1 0 ↔ smip.smiLen.toNat ≤ sduMax sp.enp.family ∧
      (smip.smiLen.toNat + 3) / 4 ≤ size / 4 := by
    rw [Sendable, hreq1, hemr, length_dwords]
  rw [mcdiIoctl, bind_of_ret (ensure_pos hstate), bind_of_ret (ensure_pos hfeature)]
  dsimp only
  rw [bind_of_ret hset]
  split_ifs with hcan
  · rw [if_pos (hinside.mpr (hsendable.mpr hcan))] at hstart
    have hsent : Sent size 0 enp2 := ⟨hmod, hpending, hev, by rw [hreq2, hreq1], by rw [hreq2, hreq1]⟩
    obtain ⟨timedOut, enp3, hpoll, hdone⟩ := @mcdiPoll_done Errno size 0 polls s enp2 hsent
    have hexec : (sfxgeMcdiExecute 0 s polls : Prog Nic Errno Bool) enp1 = .ret timedOut enp3 := by
      rw [sfxgeMcdiExecute, bind_of_ret hstart, hpoll]
    have hget : (getReq 0 : Prog Nic Errno _) enp3 = .ret (enp3.req 0) enp3 := rfl
    rw [bind_of_ret hexec, bind_of_ret hget]
    set smip1 : McdiIoc size w := { smip with
      smiRc := (enp3.req 0).emrRc
      smiCmd := (enp3.req 0).emrCmd.setWidth w
      smiLen := BitVec.ofNat w (enp3.req 0).emrOutLengthUsed }
    obtain ⟨smip', hcopy, hplaced⟩ := @copyOut_placed Errno size w enp3 _ _ hdone hw smip smip1 rfl rfl
    rw [bind_of_ret hcopy]
    exact ⟨smip', _, enp3, rfl, hplaced⟩
  · rw [if_neg fun hin => hcan (hsendable.mp (hinside.mp hin))] at hstart
    have hexec : (sfxgeMcdiExecute 0 s polls : Prog Nic Errno Bool) enp1 = .fault := by
      rw [sfxgeMcdiExecute, bind_of_fault hstart]
    rw [bind_of_fault hexec]

/-- A request that cannot be sent is not bounded. -/
theorem not_bounded {sp : SfxgeMcdi} {smip : McdiIoc size w} (hacc : sp.Accepts)
    (hw : ∀ used < 1024, used % 2 ^ w ≤ size)
    (hlong : ¬ (smip.smiLen.toNat ≤ sduMax sp.enp.family ∧ (smip.smiLen.toNat + 3) / 4 ≤ size / 4)) :
    ¬ Bounded sp smip := by
  intro h
  set s : Shared := ⟨fun _ => 0, fun _ => 0⟩
  have hrun := mcdiIoctl_accepted sp smip s [] hacc hw
  rw [if_neg hlong] at hrun
  obtain ⟨e, he⟩ | ⟨smip', restarts, enp', hret, -⟩ := h s []
  · cases hrun.symm.trans he
  · cases hrun.symm.trans hret

/-- A request is bounded exactly if it is rejected, or its payload is no longer than the longest that fits. -/
theorem bounded_iff (sp : SfxgeMcdi) (smip : McdiIoc size w) (hw : ∀ used < 1024, used % 2 ^ w ≤ size)
    (hin : ∀ len < 2 ^ w, len ≤ sduMax sp.enp.family → (len + 3) / 4 ≤ size / 4) :
    Bounded sp smip ↔ (sp.Accepts → smip.smiLen.toNat ≤ sduMax sp.enp.family) := by
  constructor
  · intro h hacc
    by_contra hlen
    exact not_bounded hacc hw (fun hcan => hlen hcan.1) h
  · intro h s polls
    by_cases hacc : sp.Accepts
    · have hlen := h hacc
      have hrun := mcdiIoctl_accepted sp smip s polls hacc hw
      rw [if_pos ⟨hlen, hin _ smip.smiLen.isLt hlen⟩] at hrun
      exact Or.inr hrun
    · exact Or.inl (mcdiIoctl_rejected sp smip s polls hacc)

/-- **MCDI requests from user space.**  They are bounded exactly if they are rejected, or their payload is no longer
than what fits the request buffer behind its header. -/
theorem ioctls_bounded_iff (sp : SfxgeMcdi) (smip : SfxgeMcdiIoc) (smip2 : SfxgeMcdi2Ioc) :
    (Bounded sp smip ↔ (sp.Accepts → smip.smiLen.toNat ≤ sduMax sp.enp.family)) ∧
      (Bounded sp smip2 ↔ (sp.Accepts → smip2.smiLen.toNat ≤ sduMax sp.enp.family)) := by
  have hmax : sduMax sp.enp.family ≤ 1020 := by cases sp.enp.family <;> decide
  exact ⟨bounded_iff sp smip (fun used _ => by omega) fun len hlen _ => by omega,
    bounded_iff sp smip2 (fun used hused => by omega) fun len _ hlen => by omega⟩

/-- An initialised driver for a controller of this family. -/
def initialized (family : EfxFamily) : SfxgeMcdi where
  smState := .INITIALIZED
  feature := true
  enp := { requesting 0 0 with
    family := family
    emip := ⟨family.maxVersion, 5, none, false, false, 0, 0, 0⟩ }
  idle _ := ⟨rfl, rfl, rfl⟩

/-- A request with a payload of zeros. -/
def zeros (cmd len : BitVec w) : McdiIoc size w := ⟨List.replicate size 0, cmd, len, none, List.length_replicate⟩

/-- The longest request of each kind is written behind the buffer, and one of 4096 bytes is read behind its payload. -/
theorem zeros_not_bounded : ¬ Bounded (initialized .SIENA) (zeros 0x3a 255 : SfxgeMcdiIoc) ∧
    ¬ Bounded (initialized .HUNTINGTON) (zeros 0x3a 1024 : SfxgeMcdi2Ioc) ∧
    ¬ Bounded (initialized .HUNTINGTON) (zeros 0x3a 4096 : SfxgeMcdi2Ioc) := by
  have hacc : ∀ family, (initialized family).Accepts := fun family => ⟨nofun, rfl⟩
  exact ⟨not_bounded (hacc _) (fun used _ => by omega) (by decide),
    not_bounded (hacc _) (fun used hused => by omega) (by decide),
    not_bounded (hacc _) (fun used hused => by omega) (by decide)⟩

end Sfxge.Mcdi
