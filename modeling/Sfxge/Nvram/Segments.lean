import Sfxge.Nvram.Commands
import Sfxge.Tlv.Buffer

/-!
# Nvram.Segments — EF10 partitions made of segments

`ef10_nvram_partn_write_segment_tlv` of `ef10_nvram.c` with the commands below it, and `sfxge_nvram_rw`.  The
partition is in flash, and `buf` is the buffer of the call: `partn_data` for an update, `sni_data` for the
ioctl.
-/

namespace Sfxge.Nvram

open Lib Lib.Prog Tlv

/-- A partition of flash with what `MC_CMD_NVRAM_INFO` says of it, the most that one write command can carry,
and the buffer in the host's memory. -/
structure Flash where
  bytes : Bytes
  eraseSize : ℕ
  writeSize : ℕ
  maxWrite : ℕ
  buf : Bytes

namespace Flash

def setBytes (c : Flash) (bytes : Bytes) : Flash := { c with bytes := bytes }

def setBuf (c : Flash) (buf : Bytes) : Flash := { c with buf := buf }

end Flash

/-- A program on the buffer. -/
def onBuf {α : Type} (p : BufProg α) : Cmd Flash α :=
  zoom (fun h => h.content.buf) (fun h b => h.setContent (h.content.setBuf b)) p

/-- `EF10_NVRAM_CHUNK` -/
def ef10Chunk : ℕ := 128

/-- The chunks of a loop over `size` bytes: offset and length. -/
def chunksOf (step size : ℕ) : List (ℕ × ℕ) :=
  (List.range ((size + step - 1) / step)).map fun i => (i * step, min step (size - i * step))

/-- `efx_mcdi_nvram_read` into the buffer; the firmware refuses what lies outside the partition. -/
def nvramRead (offset base size : ℕ) : Cmd Flash Unit := do
  command
  let c ← content
  ensure (offset + size ≤ c.bytes.length) .EINVAL
  onBuf (store (base : ℤ) (slice c.bytes offset size))

/-- `efx_mcdi_nvram_write` from the buffer -/
def nvramWrite (offset base size : ℕ) : Cmd Flash Unit := do
  let c ← content
  ensure (size ≤ c.maxWrite) .EINVAL
  command
  ensure (offset + size ≤ c.bytes.length) .EINVAL
  let data ← onBuf (load (base : ℤ) size)
  setContent fun c => c.setBytes (splice c.bytes offset data)

/-- `efx_mcdi_nvram_erase` -/
def nvramErase (offset size : ℕ) : Cmd Flash Unit := do
  command
  let c ← content
  ensure (offset + size ≤ c.bytes.length) .EINVAL
  setContent fun c => c.setBytes (splice c.bytes offset (List.replicate size 0xff))

/-- `efx_mcdi_nvram_info` -/
def nvramInfo : Cmd Flash Flash := do
  command
  content

namespace Ef10

/-- `ef10_nvram_partn_read_mode` -/
def partnRead (offset base size : ℕ) : Cmd Flash Unit :=
  forEach (fun b => nvramRead (offset + b.1) (base + b.1) b.2) (chunksOf ef10Chunk size)

/-- `ef10_nvram_partn_erase` -/
def partnErase (offset size : ℕ) : Cmd Flash Unit := do
  let info ← nvramInfo
  if info.eraseSize = 0 then
    nvramErase offset size
  else do
    ensure (size % info.eraseSize = 0) .EINVAL
    forEach (fun b => nvramErase (offset + b.1) b.2) (chunksOf info.eraseSize size)

/-- `ef10_nvram_partn_write` -/
def partnWrite (offset base size : ℕ) : Cmd Flash Unit := do
  let info ← nvramInfo
  ensure (info.writeSize ≠ 0 → size % info.writeSize = 0) .EINVAL
  let writeSize := if info.writeSize ≠ 0 then info.writeSize else ef10Chunk
  forEach (fun b => nvramWrite (offset + b.1) (base + b.1) b.2) (chunksOf writeSize size)

/-- `ef10_nvram_read_tlv_segment` into the buffer at `base` -/
def readTlvSegment (segOffset base maxSize : ℕ) : Cmd Flash Unit := do
  ensure (maxSize ≠ 0) .EINVAL
  -- read initial chunk of the segment, starting at offset
  partnRead segOffset base ef10Chunk
  let (cursor, totalLength) ← onBuf (headerItem base maxSize)
  -- read the remaining segment content
  when (totalLength > ef10Chunk) (partnRead (segOffset + ef10Chunk) (base + ef10Chunk) (totalLength - ef10Chunk))
  let (trailer, _) ← onBuf (trailerItem cursor)
  onBuf (checkGeneration base trailer .EAGAIN)
  onBuf (checkSum base totalLength)

/-- The pointers and lengths of `ef10_nvram_partn_write_segment_tlv`: where the next segment goes in the
buffer, where it is in the partition, and what remains of both. -/
structure Progress where
  segData : ℕ
  currentOffset : ℕ
  remainingOriginal : ℕ
  remainingModified : ℕ
  deriving Repr, DecidableEq

/-- `ef10_nvram_segment_write_tlv` -/
def segmentWriteTlv (tag : ℕ) (data : Bytes) (write : Bool) (p : Progress) : Cmd Flash Progress := do
  orFail (readTlvSegment p.currentOffset p.segData p.remainingOriginal) .EINVAL
  let originalSize ← orFail (onBuf (ef10NvramBufSegmentSize p.segData p.remainingOriginal)) .EINVAL
  let size ← if write then onBuf (ef10NvramBufWriteTlv p.segData p.remainingModified tag data)
    else pure originalSize
  pure ⟨p.segData + size, p.currentOffset + originalSize, p.remainingOriginal - originalSize,
    p.remainingModified - size⟩

/-- One round of the loop over the segments: an error is one only at the first segment. -/
def segmentStep (tag : ℕ) (data : Bytes) (allSegments : Bool) (partnSize : ℕ) (p : Progress) :
    Cmd Flash (Progress ⊕ Progress) := do
  match ← attempt (segmentWriteTlv tag data (allSegments || p.currentOffset = 0) p) with
  | .error e => if p.currentOffset = 0 then fail e else pure (.inl p)
  | .ok q => if q.currentOffset < partnSize then pure (.inr q) else pure (.inl q)

/-- `ef10_nvram_partn_write_segment_tlv` between its lock and its unlock -/
def writeSegmentBody (rounds tag : ℕ) (data : Bytes) (allSegments : Bool) (partnSize : ℕ) : Cmd Flash Unit := do
  let p ← iterate (segmentStep tag data allSegments partnSize) rounds ⟨0, 0, partnSize, partnSize⟩
  ensure (¬ p.segData > partnSize) .ENOSPC
  partnErase 0 partnSize
  partnWrite 0 0 p.segData

/-- `ef10_nvram_partn_write_segment_tlv`; a run has at most `rounds` rounds of its loop. -/
def partnWriteSegmentTlv (rounds partn tag : ℕ) (data : Bytes) (allSegments : Bool) : Cmd Flash Unit := do
  let info ← nvramInfo
  kmemAlloc
  setContent fun c => c.setBuf (List.replicate info.bytes.length 0)
  underLock partn (writeSegmentBody rounds tag data allSegments info.bytes.length)

end Ef10

/-! ### `sfxge_nvram_rw` -/

/-- `siena_nvram_partn_read` and `siena_nvram_partn_write` -/
def Siena.partnOp (write : Bool) (offset base size : ℕ) : Cmd Flash Unit :=
  forEach (fun b => if write then nvramWrite (offset + b.1) (base + b.1) b.2
    else nvramRead (offset + b.1) (base + b.1) b.2) (chunksOf 128 size)

/-- The family of the adapter. -/
inductive Family
  | siena
  | ef10
  deriving Repr, DecidableEq

/-- `efx_nvram_read_chunk` and `efx_nvram_write_chunk`, for a type whose partition is `partn?` -/
def chunkOp (family : Family) (partn? : Except Errno ℕ) (write : Bool) (offset base size : ℕ) : Cmd Flash Unit :=
  match partn? with
  | .error e => fail e
  | .ok _ =>
    match family with
    | .siena => Siena.partnOp write offset base size
    | .ef10 => if write then Ef10.partnWrite offset base size else Ef10.partnRead offset base size

/-- `sfxge_nvram_rw`; `partn?` is what `envo_type_to_partn` says to the type, and the update is started and
finished by `envo_partn_rw_start` and `envo_partn_rw_finish`. -/
def sfxgeNvramRw (family : Family) (partn? : Except Errno ℕ) (write : Bool) (offset size : ℕ) : Cmd Flash Unit :=
  match partn? with
  | .error e => fail e
  | .ok partn => underLock partn
      (forEach (fun b => chunkOp family partn? write (offset + b.1) b.1 b.2) (chunksOf 128 size))

/-! ### The locks are left alone -/

theorem frames_onBuf {α : Type} (p : BufProg α) : (onBuf p).Frames Host.locks := by
  intro h h' hr
  unfold onBuf zoom at hr
  cases hp : p h.content.buf with
  | ret a b => rw [hp] at hr; cases hr; rfl
  | err e b => rw [hp] at hr; cases hr; rfl
  | fault => rw [hp] at hr; cases hr
  | spin => rw [hp] at hr; cases hr

theorem frames_nvramRead (offset base size : ℕ) : (nvramRead offset base size).Frames Host.locks :=
  frames_bind frames_command fun _ => frames_bind frames_content fun _ =>
    frames_bind (frames_ensure _ _) fun _ => frames_onBuf _

theorem frames_nvramWrite (offset base size : ℕ) : (nvramWrite offset base size).Frames Host.locks :=
  frames_bind frames_content fun _ => frames_bind (frames_ensure _ _) fun _ =>
    frames_bind frames_command fun _ => frames_bind (frames_ensure _ _) fun _ =>
      frames_bind (frames_onBuf _) fun _ => frames_setContent _

theorem frames_nvramErase (offset size : ℕ) : (nvramErase offset size).Frames Host.locks :=
  frames_bind frames_command fun _ => frames_bind frames_content fun _ =>
    frames_bind (frames_ensure _ _) fun _ => frames_setContent _

theorem frames_nvramInfo : nvramInfo.Frames Host.locks := frames_bind frames_command fun _ => frames_content

namespace Ef10

theorem frames_partnRead (offset base size : ℕ) : (partnRead offset base size).Frames Host.locks :=
  frames_forEach _ fun _ => frames_nvramRead _ _ _

theorem frames_partnErase (offset size : ℕ) : (partnErase offset size).Frames Host.locks :=
  frames_bind frames_nvramInfo fun _ => frames_ite (frames_nvramErase _ _)
    (frames_bind (frames_ensure _ _) fun _ => frames_forEach _ fun _ => frames_nvramErase _ _)

theorem frames_partnWrite (offset base size : ℕ) : (partnWrite offset base size).Frames Host.locks :=
  frames_bind frames_nvramInfo fun _ => frames_bind (frames_ensure _ _) fun _ =>
    frames_forEach _ fun _ => frames_nvramWrite _ _ _

theorem frames_readTlvSegment (segOffset base maxSize : ℕ) :
    (readTlvSegment segOffset base maxSize).Frames Host.locks :=
  frames_bind (frames_ensure _ _) fun _ => frames_bind (frames_partnRead _ _ _) fun _ =>
    frames_bind (frames_onBuf _) fun _ => frames_bind (frames_ite (frames_partnRead _ _ _) (frames_pure ())) fun _ =>
      frames_bind (frames_onBuf _) fun _ => frames_bind (frames_onBuf _) fun _ => frames_onBuf _

theorem frames_segmentWriteTlv (tag : ℕ) (data : Bytes) (write : Bool) (p : Progress) :
    (segmentWriteTlv tag data write p).Frames Host.locks :=
  frames_bind (frames_orFail _ (frames_readTlvSegment _ _ _)) fun _ =>
    frames_bind (frames_orFail _ (frames_onBuf _)) fun _ =>
      frames_ite (frames_bind (frames_onBuf _) fun _ => frames_pure _)
        (frames_bind (frames_pure _) fun _ => frames_pure _)

theorem frames_segmentStep (tag : ℕ) (data : Bytes) (allSegments : Bool) (partnSize : ℕ) (p : Progress) :
    (segmentStep tag data allSegments partnSize p).Frames Host.locks := by
  refine frames_bind (frames_attempt (frames_segmentWriteTlv _ _ _ p)) fun r => ?_
  cases r with
  | error e => exact frames_ite (frames_fail e) (frames_pure _)
  | ok q => exact frames_ite (frames_pure _) (frames_pure _)

theorem frames_writeSegmentBody (rounds tag : ℕ) (data : Bytes) (allSegments : Bool) (partnSize : ℕ) :
    (writeSegmentBody rounds tag data allSegments partnSize).Frames Host.locks :=
  frames_bind (frames_iterate (frames_segmentStep _ _ _ _) _ _) fun _ => frames_bind (frames_ensure _ _) fun _ =>
    frames_bind (frames_partnErase _ _) fun _ => frames_partnWrite _ _ _

/-- **`ef10_nvram_partn_write_segment_tlv` is balanced.** -/
theorem balanced_partnWriteSegmentTlv (rounds partn tag : ℕ) (data : Bytes) (allSegments : Bool) (h : Host Flash) :
    Balanced partn (partnWriteSegmentTlv rounds partn tag data allSegments) h :=
  balanced_bind frames_nvramInfo fun _ _ _ => balanced_bind frames_kmemAlloc fun _ _ _ =>
    balanced_bind (frames_setContent _) fun _ h3 _ => balanced_underLock (frames_writeSegmentBody _ _ _ _ _) h3

end Ef10

theorem frames_chunkOp (family : Family) (partn? : Except Errno ℕ) (write : Bool) (offset base size : ℕ) :
    (chunkOp family partn? write offset base size).Frames Host.locks := by
  cases partn? with
  | error e => exact frames_fail e
  | ok partn =>
    cases family with
    | siena => exact frames_forEach _ fun _ => frames_ite (frames_nvramWrite _ _ _) (frames_nvramRead _ _ _)
    | ef10 => exact frames_ite (Ef10.frames_partnWrite _ _ _) (Ef10.frames_partnRead _ _ _)

/-- **`sfxge_nvram_rw` is balanced.** -/
theorem balanced_sfxgeNvramRw (family : Family) (partn? : Except Errno ℕ) (write : Bool) (offset size : ℕ)
    (h : Host Flash) : Balanced (partn?.toOption.getD 0) (sfxgeNvramRw family partn? write offset size) h := by
  cases partn? with
  | error e => exact balanced_of_frames (frames_fail e) _ h
  | ok p => exact balanced_underLock (frames_forEach _ fun _ => frames_chunkOp _ _ _ _ _ _) h

end Sfxge.Nvram
