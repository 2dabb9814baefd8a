import Sfxge.Oword
import Sfxge.Efx

/-!
# Mcdi.Iface — requests to the management controller

`efx_mcdi.c` with the transports of `siena_mcdi.c` and `ef10_mcdi.c`.  A function that drops the lock
before it is done is written in two parts, the section under `en_eslp` and the rest; an assertion of
the source that does not hold is undefined.  Logging and proxy authorization are not built in.
-/

namespace Sfxge.Mcdi

open Lib Lib.Prog Errno

/-! ### Headers -/

def MCDI_HEADER_CODE : Field := ⟨0, 7⟩
def MCDI_HEADER_RESYNC : Field := ⟨7, 1⟩
def MCDI_HEADER_DATALEN : Field := ⟨8, 8⟩
def MCDI_HEADER_SEQ : Field := ⟨16, 4⟩
def MCDI_HEADER_NOT_EPOCH : Field := ⟨21, 1⟩
def MCDI_HEADER_ERROR : Field := ⟨22, 1⟩
def MCDI_HEADER_RESPONSE : Field := ⟨23, 1⟩
def MCDI_HEADER_XFLAGS : Field := ⟨24, 8⟩

def MC_CMD_V2_EXTN_IN_EXTENDED_CMD : Field := ⟨0, 15⟩
def MC_CMD_V2_EXTN_IN_ACTUAL_LEN : Field := ⟨16, 10⟩

def MCDI_HEADER_XFLAGS_EVREQ : U32 := 0x01
def MC_CMD_V2_EXTN : U32 := 0x7f
def MC_CMD_CMD_SPACE_ESCAPE_7 : U32 := 0x7f
def MCDI_CTL_SDU_LEN_MAX_V1 : ℕ := 0xfc
def MC_CMD_REBOOT : U32 := 0x3d

def MC_CMD_ERR_EPROTO : U32 := 71

/-! ### The state of a NIC -/

/-- `efx_mcdi_req_t`; `emr_in_buf` in dwords. -/
structure EfxMcdiReq where
  emrQuiet : Bool
  emrCmd : U32
  emrInBuf : List U32
  emrInLength : ℕ
  emrRc : Option Errno
  emrOutBuf : Option Bytes
  emrOutLength : ℕ
  emrOutLengthUsed : ℕ
  emrErrCode : U32
  emrErrArg : U32

/-- `efx_mcdi_iface_t`; a request is pointed to by its number in `Nic.req`. -/
structure EfxMcdiIface where
  emiMaxVersion : ℕ
  emiSeq : U32
  emiPendingReq : Option ℕ
  emiEvCpl : Bool
  emiNewEpoch : Bool
  /-- An `int`, in two's complement. -/
  emiAborted : BitVec 32
  emiPollCnt : U32
  emiMcRebootStatus : U32

/-- `efx_family_t`, as far as it selects an `efx_mcdi_ops_t`. -/
inductive EfxFamily
  | SIENA
  | HUNTINGTON
  deriving DecidableEq

inductive EfxMcdiException
  | EFX_MCDI_EXCEPTION_MC_REBOOT
  | EFX_MCDI_EXCEPTION_MC_BADASSERT

/-- What MCDI uses of a NIC, the memory it shares with the controller, and what it has sent. -/
structure Nic where
  family : EfxFamily
  /-- `EFX_MOD_MCDI` of `en_mod_flags` -/
  modMcdi : Bool
  emip : EfxMcdiIface
  req : ℕ → EfxMcdiReq
  /-- The request and response buffer, in dwords. -/
  mem : ℕ → U32
  /-- `ER_DZ_BIU_MC_SFT_STATUS_REG` -/
  sftStatus : U32
  /-- The header words of each request sent, latest first. -/
  sent : List (List U32)
  /-- The calls of `emt_exception`, latest first. -/
  exceptions : List EfxMcdiException

variable {ε : Type}

/-- `EFSYS_ASSERT` -/
def efsysAssert (c : Prop) [Decidable c] : Prog Nic ε Unit := if c then pure () else stuck

def getEmip : Prog Nic ε EfxMcdiIface := fun enp => .ret enp.emip enp

def setEmip (f : EfxMcdiIface → EfxMcdiIface) : Prog Nic ε Unit := fun enp =>
  .ret () { enp with emip := f enp.emip }

def getReq (emrp : ℕ) : Prog Nic ε EfxMcdiReq := fun enp => .ret (enp.req emrp) enp

def setReq (emrp : ℕ) (f : EfxMcdiReq → EfxMcdiReq) : Prog Nic ε Unit := fun enp =>
  .ret () { enp with req := Function.update enp.req emrp (f (enp.req emrp)) }

/-! ### Transport -/

/-- `emco_send_request`: the header and the payload are written and the doorbell is rung. -/
def efxMcdiSendRequest (hdr sdu : List U32) (sduLen : ℕ) : Prog Nic ε Unit := fun enp =>
  let words := hdr ++ sdu.take ((sduLen + 3) / 4)
  .ret () { enp with
    mem := fun i => words.getD i (enp.mem i)
    sent := hdr :: enp.sent }

/-- `emco_poll_reboot`: a change of the status word is noted but not reported. -/
def efxMcdiPollReboot : Prog Nic ε (Option Errno) := fun enp =>
  match enp.family with
  | .SIENA => .ret none enp
  | .HUNTINGTON => .ret none { enp with emip := { enp.emip with emiMcRebootStatus := enp.sftStatus } }

/-- `emco_poll_response` -/
def efxMcdiPollResponse : Prog Nic ε Bool := fun enp =>
  .ret (dwordField (enp.mem 0) MCDI_HEADER_RESPONSE ≠ 0) enp

/-- `emco_read_response` of `length` bytes at a dword. -/
def efxMcdiReadResponse (offset length : ℕ) : Prog Nic ε Bytes := fun enp =>
  .ret (((List.range ((length + 3) / 4)).flatMap fun k =>
    le 4 (enp.mem (offset / 4 + k)).toNat).take length) enp

/-- `emco_read_response` of one dword. -/
def efxMcdiReadResponseDword (offset : ℕ) : Prog Nic ε U32 := fun enp =>
  .ret (enp.mem (offset / 4)) enp

/-! ### Requests -/

/-- What `efx_mcdi_request_start` keeps in locals when it drops the lock. -/
structure RequestLocals where
  seq : U32
  newEpoch : Bool
  maxVersion : ℕ

/-- `efx_mcdi_request_start`, under the lock. -/
def efxMcdiRequestStartLocked (emrp : ℕ) (evCpl : Bool) : Prog Nic ε RequestLocals := do
  let enp ← get
  efsysAssert (enp.modMcdi = true)
  let emip ← getEmip
  efsysAssert (emip.emiPendingReq = none)
  setEmip fun emip => { emip with
    emiPendingReq := some emrp
    emiEvCpl := evCpl
    emiPollCnt := 0
    emiSeq := emip.emiSeq + 1 }
  return ⟨emip.emiSeq &&& mask32 MCDI_HEADER_SEQ, emip.emiNewEpoch, emip.emiMaxVersion⟩

/-- The header of a request. -/
def mcdiHeader (l : RequestLocals) (evCpl : Bool) (emr : EfxMcdiReq) : List U32 :=
  let xflags := if evCpl then MCDI_HEADER_XFLAGS_EVREQ else 0
  let notEpoch : U32 := if l.newEpoch then 0 else 1
  if 2 ≤ l.maxVersion ∧
      (MC_CMD_CMD_SPACE_ESCAPE_7 < emr.emrCmd ∨ MCDI_CTL_SDU_LEN_MAX_V1 < emr.emrInLength) then
    -- MCDI v2 header
    [populateDword [(MCDI_HEADER_CODE, MC_CMD_V2_EXTN), (MCDI_HEADER_RESYNC, 1),
      (MCDI_HEADER_DATALEN, 0), (MCDI_HEADER_SEQ, l.seq), (MCDI_HEADER_NOT_EPOCH, notEpoch),
      (MCDI_HEADER_ERROR, 0), (MCDI_HEADER_RESPONSE, 0), (MCDI_HEADER_XFLAGS, xflags)],
    populateDword [(MC_CMD_V2_EXTN_IN_EXTENDED_CMD, emr.emrCmd),
      (MC_CMD_V2_EXTN_IN_ACTUAL_LEN, BitVec.ofNat 32 emr.emrInLength)]]
  else
    -- MCDI v1 header
    [populateDword [(MCDI_HEADER_CODE, emr.emrCmd), (MCDI_HEADER_RESYNC, 1),
      (MCDI_HEADER_DATALEN, BitVec.ofNat 32 emr.emrInLength), (MCDI_HEADER_SEQ, l.seq),
      (MCDI_HEADER_NOT_EPOCH, notEpoch), (MCDI_HEADER_ERROR, 0), (MCDI_HEADER_RESPONSE, 0),
      (MCDI_HEADER_XFLAGS, xflags)]]

/-- `efx_mcdi_request_start`, after the lock is dropped. -/
def efxMcdiRequestStartSend (emrp : ℕ) (evCpl : Bool) (l : RequestLocals) : Prog Nic ε Unit := do
  let emr ← getReq emrp
  efxMcdiSendRequest (mcdiHeader l evCpl emr) emr.emrInBuf emr.emrInLength

/-- `efx_mcdi_request_errcode` -/
def efxMcdiRequestErrcode (err : U32) : Errno :=
  match err.toNat with
  | 1 => EACCES
  | 2 => ENOENT
  | 4 => EINTR
  | 13 => EACCES
  | 16 => EBUSY
  | 22 => EINVAL
  | 35 => EDEADLK
  | 38 => ENOTSUP
  | 62 => ETIMEDOUT
  | 95 => ENOTSUP
  | 114 => EALREADY
  | 11 => EAGAIN
  | 28 => ENOSPC
  | 0x1000 => ENOMEM
  | 0x1001 => ENOENT
  | 0x1002 => ENOENT
  | 0x1003 => ENODEV
  | 0x1004 => EINVAL
  | 0x1005 => ENODEV
  | 0x1006 => EINVAL
  | 0x1007 => EINVAL
  | 0x1008 => EINVAL
  | 0x1009 => EEXIST
  | 0x1010 => EAGAIN
  | _ => Errno.EIO

/-- The command, the length of the payload and the length of the header of the response. -/
def efxMcdiResponseShape : Prog Nic ε (U32 × U32 × ℕ) := do
  let hdr0 ← efxMcdiReadResponseDword 0
  if dwordField hdr0 MCDI_HEADER_CODE ≠ MC_CMD_V2_EXTN then
    return (dwordField hdr0 MCDI_HEADER_CODE, dwordField hdr0 MCDI_HEADER_DATALEN, 4)
  let hdr1 ← efxMcdiReadResponseDword 4
  return (dwordField hdr1 MC_CMD_V2_EXTN_IN_EXTENDED_CMD,
    dwordField hdr1 MC_CMD_V2_EXTN_IN_ACTUAL_LEN, 8)

/-- `efx_mcdi_read_response_header` -/
def efxMcdiReadResponseHeader (emrp : ℕ) : Prog Nic ε Unit := do
  let hdr0 ← efxMcdiReadResponseDword 0
  let seq := dwordField hdr0 MCDI_HEADER_SEQ
  let error := dwordField hdr0 MCDI_HEADER_ERROR
  let (cmd, dataLen, hdrLen) ← efxMcdiResponseShape
  let emip ← getEmip
  let emr ← getReq emrp
  if error ≠ 0 ∧ dataLen = 0 then
    -- the MC has rebooted since the request was sent
    let _ ← efxMcdiPollReboot
    setReq emrp fun emr => { emr with emrRc := some Errno.EIO, emrOutLengthUsed := 0 }
  else if cmd ≠ emr.emrCmd ∨ seq ≠ (emip.emiSeq - 1) &&& mask32 MCDI_HEADER_SEQ then
    -- response is for a different request
    setReq emrp fun emr => { emr with emrRc := some Errno.EIO, emrOutLengthUsed := 0 }
  else if error ≠ 0 then
    let errLen := min dataLen.toNat 8
    let code ← efxMcdiReadResponseDword hdrLen
    let arg ← efxMcdiReadResponseDword (hdrLen + 4)
    let errCode := if 4 ≤ errLen then code else MC_CMD_ERR_EPROTO
    let errArg := if 8 ≤ errLen then arg else 0
    setReq emrp fun emr => { emr with
      emrErrCode := errCode
      emrErrArg := errArg
      emrRc := some (efxMcdiRequestErrcode errCode)
      emrOutLengthUsed := 0 }
  else
    setReq emrp fun emr => { emr with emrRc := none, emrOutLengthUsed := dataLen.toNat }

/-- `efx_mcdi_finish_response` -/
def efxMcdiFinishResponse (emrp : ℕ) : Prog Nic ε Unit := do
  let emr ← getReq emrp
  if emr.emrOutBuf = none then return
  let (_, dataLen, hdrLen) ← efxMcdiResponseShape
  -- the length given in the event is only correct for responses with the V1 format
  let used := if hdrLen = 8 then dataLen.toNat else emr.emrOutLengthUsed
  let payload ← efxMcdiReadResponse hdrLen (min used emr.emrOutLength)
  setReq emrp fun emr => { emr with
    emrOutLengthUsed := used
    emrOutBuf := emr.emrOutBuf.map fun buf => payload ++ buf.drop payload.length }

/-- `efx_mcdi_raise_exception` -/
def efxMcdiRaiseException (emrp : Option ℕ) (rc : Errno) : Prog Nic ε Unit := do
  efsysAssert (rc = Errno.EIO ∨ rc = EINTR)
  let enp ← get
  -- the reboot of MC_CMD_REBOOT is not worthy of an exception
  if (emrp.any fun p => (enp.req p).emrCmd = MC_CMD_REBOOT) ∧ rc = Errno.EIO then return
  set { enp with exceptions := (if rc = Errno.EIO then .EFX_MCDI_EXCEPTION_MC_REBOOT
    else .EFX_MCDI_EXCEPTION_MC_BADASSERT) :: enp.exceptions }

/-- How the locked section of `efx_mcdi_request_poll` ends. -/
inductive PollSection
  /-- `return (B_FALSE)` -/
  | waiting
  /-- `goto fail1` -/
  | fail1 (emrp : ℕ) (rc : Errno)
  /-- The response header is read. -/
  | complete (emrp : ℕ)

/-- `efx_mcdi_request_poll`, under the lock. -/
def efxMcdiRequestPollLocked : Prog Nic ε PollSection := do
  let enp ← get
  efsysAssert (enp.modMcdi = true)
  let emip ← getEmip
  match emip.emiPendingReq with
  | none => stuck
  | some emrp =>
    efsysAssert (emip.emiEvCpl = false)
    setEmip fun emip => { emip with emiPollCnt := emip.emiPollCnt + 1 }
    -- check for reboot atomically w.r.t efx_mcdi_request_start
    let reboot ← (if emip.emiPollCnt = 0 then efxMcdiPollReboot else pure none : Prog Nic ε _)
    match reboot with
    | some rc =>
      setEmip fun emip => { emip with emiPendingReq := none }
      return .fail1 emrp rc
    | none =>
      if !(← efxMcdiPollResponse) then return .waiting
      efxMcdiReadResponseHeader emrp
      setEmip fun emip => { emip with emiPendingReq := none }
      return .complete emrp

/-- `efx_mcdi_request_poll`, after the lock is dropped with the request taken; it returns `B_TRUE`. -/
def efxMcdiRequestPollFinish : PollSection → Prog Nic ε Unit
  | .waiting => pure ()
  | .fail1 emrp rc => if rc = Errno.EIO ∨ rc = EINTR then efxMcdiRaiseException (some emrp) rc else pure ()
  | .complete emrp => do
    let emr ← getReq emrp
    match emr.emrRc with
    | none => efxMcdiFinishResponse emrp
    | some rc =>
      if rc = Errno.EIO ∨ rc = EINTR then efxMcdiRaiseException (some emrp) rc else pure ()

/-- `efx_mcdi_request_abort`; it returns the request it has aborted, if any. -/
def efxMcdiRequestAbort : Prog Nic ε (Option ℕ) := do
  let enp ← get
  efsysAssert (enp.modMcdi = true)
  let emip ← getEmip
  match emip.emiPendingReq with
  | none => return none
  | some emrp =>
    setEmip fun emip => { emip with emiPendingReq := none }
    setReq emrp fun emr => { emr with emrOutLengthUsed := 0, emrRc := some ETIMEDOUT }
    -- provide a credit for seqno/emr_pending_req mismatches
    when (emip.emiEvCpl = true) (setEmip fun emip => { emip with emiAborted := emip.emiAborted + 1 })
    return some emrp

/-- `efx_mcdi_ev_cpl`, under the lock; it returns the request it has taken, if any. -/
def efxMcdiEvCplLocked (seq : U32) : Prog Nic ε (Option ℕ) := do
  let enp ← get
  efsysAssert (enp.modMcdi = true)
  let emip ← getEmip
  match (if emip.emiEvCpl = false ∨ seq ≠ (emip.emiSeq - 1) &&& mask32 MCDI_HEADER_SEQ then none
    else emip.emiPendingReq) with
  | none =>
    efsysAssert (0 < emip.emiAborted.toInt)
    when (0 < emip.emiAborted.toInt)
      (setEmip fun emip => { emip with emiAborted := emip.emiAborted - 1 })
    return none
  | some emrp =>
    setEmip fun emip => { emip with emiPendingReq := none }
    return some emrp

/-- `efx_mcdi_ev_cpl`, after the lock is dropped with a request taken; `emt_ev_cpl` follows. -/
def efxMcdiEvCplFinish (emrp outlen : ℕ) (errcode : U32) : Prog Nic ε Unit := do
  let emip ← getEmip
  (if 2 ≤ emip.emiMaxVersion then
    -- MCDIv2 response details do not fit into an event
    efxMcdiReadResponseHeader emrp
  else if errcode ≠ 0 then
    setReq emrp fun emr => { emr with
      emrOutLengthUsed := 0
      emrRc := some (efxMcdiRequestErrcode errcode) }
  else
    setReq emrp fun emr => { emr with emrOutLengthUsed := outlen, emrRc := none } : Prog Nic ε Unit)
  when (errcode = 0) (efxMcdiFinishResponse emrp)

/-- `efx_mcdi_ev_death`, under the lock; it returns `emrp` and `ev_cpl`. -/
def efxMcdiEvDeathLocked (rc : Errno) : Prog Nic ε (Option ℕ × Bool) := do
  let emip ← getEmip
  (match emip.emiPendingReq, emip.emiEvCpl with
  | some emrp, true => do
    setEmip fun emip => { emip with emiPendingReq := none }
    setReq emrp fun emr => { emr with emrOutLengthUsed := 0, emrRc := some rc }
    setEmip fun emip => { emip with emiAborted := emip.emiAborted + 1 }
  | _, _ => pure () : Prog Nic ε Unit)
  -- consume the status word before dropping the lock
  when (rc = Errno.EIO ∨ rc = EINTR) do
    let _ ← efxMcdiPollReboot
    setEmip fun emip => { emip with emiNewEpoch := true }
  return (emip.emiPendingReq, emip.emiEvCpl)

/-- `efx_mcdi_ev_death`, after the lock is dropped; `emt_ev_cpl` follows if a request was taken. -/
def efxMcdiEvDeathFinish (emrp : Option ℕ) (rc : Errno) : Prog Nic ε Unit :=
  efxMcdiRaiseException emrp rc

/-! ### Epochs -/

def efxMcdiNewEpoch : Prog Nic ε Unit := setEmip fun emip => { emip with emiNewEpoch := true }

/-- `efx_mcdi_init` of an EF10 controller with the DMA address of `emt_dma_mem`, if there is one. -/
def efxMcdiInit (emtDmaMem : Option ℕ) : Prog Nic Errno Unit := do
  let enp ← get
  efsysAssert (enp.modMcdi = false)
  match emtDmaMem with
  | none => fail EINVAL
  | some addr =>
    -- ef10_mcdi_init
    setEmip fun emip => { emip with emiMaxVersion := 2 }
    ensure (addr &&& 0xff = 0) EINVAL
    let _ ← efxMcdiPollReboot
    efxMcdiNewEpoch
    let enp ← get
    set { enp with modMcdi := true }

/-- `efx_mcdi_fini` of an EF10 controller. -/
def efxMcdiFini : Prog Nic ε Unit := do
  let enp ← get
  efsysAssert (enp.modMcdi = true)
  -- ef10_mcdi_fini
  setEmip fun emip => { emip with emiNewEpoch := false }
  setEmip fun emip => { emip with emiAborted := 0 }
  let enp ← get
  set { enp with modMcdi := false }

end Sfxge.Mcdi
