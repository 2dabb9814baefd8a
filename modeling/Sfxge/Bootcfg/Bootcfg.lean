import Sfxge.Bootcfg.Block
import Sfxge.Lib.Run
import Sfxge.Efx

/-!
# Bootcfg.Bootcfg — `common/efx_bootcfg.c`

The boot configuration block in its NVRAM sector: byte 0 makes the bytes sum to zero, the DHCP
options start at byte 1.  The state is the NVRAM partition; its operations succeed.  A caller's
buffer is a list of exactly `size` bytes, `alloc` says whether the memory allocation succeeds.
-/

namespace Sfxge.Bootcfg

open Lib Lib.Prog Errno

def BOOTCFG_MAX_SIZE : ℕ := 0x1000

/-- The partition `EFX_NVRAM_BOOTROM_CFG` and the chunk length `efx_nvram_rw_start` reports. -/
structure Nvram where
  sector : Bytes
  chunkLength : ℕ
  deriving Repr, DecidableEq

abbrev NvramProg := Prog Nvram Errno

def efxNvramSize : NvramProg ℕ := fun nv => .ret nv.sector.length nv

def efxNvramRwStart : NvramProg ℕ := fun nv => .ret nv.chunkLength nv

def efxNvramErase : NvramProg Unit := fun nv =>
  .ret () { nv with sector := List.replicate nv.sector.length 0xff }

def efxNvramReadChunk (offset size : ℕ) : NvramProg Bytes := fun nv =>
  .ret (slice nv.sector offset size) nv

def efxNvramWriteChunk (offset : ℕ) (data : Bytes) : NvramProg Unit := fun nv =>
  .ret () { nv with sector := splice nv.sector offset data }

/-- `data[i]` -/
def byteAt (data : Bytes) (i : ℕ) : NvramProg UInt8 :=
  match data[i]? with
  | some b => pure b
  | none => stuck

/-- `data[i] = b` -/
def setByte (data : Bytes) (i : ℕ) (b : UInt8) : NvramProg Bytes :=
  if i < data.length then pure (data.set i b) else stuck

def efxBootcfgCsum (data : Bytes) : UInt8 := data.foldl (· + ·) 0

/-- One round of the tag loop of `efx_bootcfg_verify`, over `offset` and `used`. -/
def verifyStep (data : Bytes) : ℕ × ℕ → NvramProg (ℕ ⊕ (ℕ × ℕ))
  | (offset, used) => do
    let size := data.length
    if offset < size then
      -- consume tag
      let tag ← byteAt data offset
      if tag = DHCP_END then
        pure (.inl (offset + 1))
      else if tag = DHCP_PAD then
        pure (.inr (offset + 1, used))
      else
        -- consume length
        ensure (¬ offset + 1 ≥ size) ENOSPC
        let length := (← byteAt data (offset + 1)).toNat
        -- consume length bytes
        ensure (¬ offset + 1 + length ≥ size) ENOSPC
        pure (.inr (offset + 2 + length, offset + 2 + length))
    else
      pure (.inl used)

/-- The used length of a well-formed block. -/
def efxBootcfgVerify (data : Bytes) : NvramProg ℕ := do
  -- start parsing tags immediately after the checksum
  let used ← iterate (verifyStep data) (data.length + 1) (1, 0)
  -- checksum the entire sector, including bytes after any DHCP_END
  ensure (efxBootcfgCsum data = 0) EINVAL
  pure used

/-- The buffer the sector is read into: our own if the user's is not large enough. -/
def readBuffer (alloc : Bool) (data : Bytes) (sectorLength : ℕ) : NvramProg Bytes :=
  if sectorLength > data.length then do
    ensure (alloc = true) ENOMEM
    pure (List.replicate sectorLength 0)
  else pure data

def reinitPayload (payload : Bytes) : NvramProg (Bytes × ℕ) := do
  let payload ← setByte payload 0 (~~~DHCP_END)
  let payload ← setByte payload 1 DHCP_END
  pure (payload, 2)

/-- Verify that the area is correctly formatted and checksummed. -/
def checkPayload (payload : Bytes) (sectorLength : ℕ) : NvramProg (Bytes × ℕ) := do
  match ← attempt (efxBootcfgVerify (payload.take sectorLength)) with
  | .error _ => reinitPayload payload
  | .ok usedBytes => if usedBytes = 0 then reinitPayload payload else pure (payload, usedBytes)

/-- Legacy bootcfg sectors don't terminate with a DHCP_END character; modify the payload so it
does. -/
def terminatePayload (payload : Bytes) (usedBytes sectorLength : ℕ) : NvramProg (Bytes × ℕ) := do
  if (← byteAt payload (usedBytes - 1)) ≠ DHCP_END then
    if usedBytes + 1 > sectorLength then
      let payload ← setByte payload 0 0
      let payload ← setByte payload 1 DHCP_END
      pure (payload, 2)
    else
      let payload ← setByte payload usedBytes DHCP_END
      pure (payload, usedBytes + 1)
  else
    pure (payload, usedBytes)

/-- The contents of the caller's buffer `data` after the call. -/
def efxBootcfgRead (alloc : Bool) (data : Bytes) : NvramProg Bytes := do
  let size := data.length
  let sectorLength := min (← efxNvramSize) BOOTCFG_MAX_SIZE
  let payload ← readBuffer alloc data sectorLength
  let _ ← efxNvramRwStart
  let payload := splice payload 0 (← efxNvramReadChunk 0 sectorLength)
  let (payload, usedBytes) ← checkPayload payload sectorLength
  let (payload, usedBytes) ← terminatePayload payload usedBytes sectorLength
  -- the user's buffer must be large enough for the entire used area
  ensure (¬ usedBytes > size) ENOSPC
  let data := if sectorLength > size then splice data 0 (payload.take usedBytes) else payload
  -- zero out the unused portion of the user buffer
  let data := splice data usedBytes (List.replicate (size - usedBytes) 0)
  setByte data 0 ((← byteAt data 0) - efxBootcfgCsum data)

/-- One round of the chunk loop of `efx_bootcfg_write`, over `offset`. -/
def writeStep (data : Bytes) (usedBytes sectorLength chunkLength : ℕ) (checksum : UInt8)
    (offset : ℕ) : NvramProg (Unit ⊕ ℕ) := do
  if offset < sectorLength then
    let remaining := min chunkLength (sectorLength - offset)
    -- fill chunk
    let chunk := List.replicate chunkLength 0
    let chunk :=
      if offset < usedBytes then splice chunk 0 (slice data offset (min remaining (usedBytes - offset)))
      else chunk
    -- adjust checksum
    let chunk ←
      if offset = 0 then do setByte chunk 0 ((← byteAt chunk 0) - checksum) else pure chunk
    efxNvramWriteChunk offset (chunk.take remaining)
    pure (.inr (offset + remaining))
  else
    pure (.inl ())

def efxBootcfgWrite (alloc : Bool) (data : Bytes) : NvramProg Unit := do
  let sectorLength := min (← efxNvramSize) BOOTCFG_MAX_SIZE
  let usedBytes ← efxBootcfgVerify data
  -- the caller must terminate their block with a DHCP_END character
  if usedBytes = 0 then
    -- `data[used_bytes - 1]` lies before the block
    stuck
  else
    ensure ((← byteAt data (usedBytes - 1)) = DHCP_END) ENOENT
    -- check that the hardware has support for this much data
    ensure (¬ usedBytes > min sectorLength BOOTCFG_MAX_SIZE) ENOSPC
    let chunkLength ← efxNvramRwStart
    ensure (alloc = true) ENOMEM
    efxNvramErase
    -- write the entire sector, zero after the DHCP_END
    let checksum := efxBootcfgCsum (data.take usedBytes)
    iterate (writeStep data usedBytes sectorLength chunkLength checksum) (sectorLength + 1) 0

end Sfxge.Bootcfg
