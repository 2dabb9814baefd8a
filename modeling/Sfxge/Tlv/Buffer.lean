import Sfxge.Tlv.Cursor

/-!
# Tlv.Buffer — partitions in host memory, `common/ef10_nvram.c`

The `ef10_nvram_buffer_*` and `ef10_nvram_buf_*` functions on a TLV formatted partition in a buffer
of `size` bytes at address `base`.  A buffer is never `NULL` here; offsets and reported lengths are
`uint32_t`.  Where the source reports through an out parameter the program returns the value.
-/

namespace Sfxge.Tlv

open Lib Lib.Prog Errno

/-- Rounds of `for (pos = 0; pos < length; pos += sizeof (uint32_t))`. -/
def wordCount (length : ℕ) : ℕ := (length + 3) / 4

/-- `byte_offset` -/
def byteOffset (position base : ℕ) : ℕ := (position - base) % 4294967296

/-- The partition header must be the first item; the cursor at it and its total length, which
includes the END tag. -/
def headerItem (base size : ℕ) : BufProg (TlvCursor × ℕ) := do
  let cursor ← orFail (tlvInitCursorFromSize base size) EFAULT
  ensure ((← tlvTag cursor) = TLV_TAG_PARTITION_HEADER) EINVAL
  let totalLength ← loadU32 ((base + headerTotalLength : ℕ) : ℤ)
  ensure (¬ totalLength > size) EFBIG
  pure (cursor, totalLength)

/-- The partition must end with a trailer and an END tag; their positions. -/
def trailerItem (cursor : TlvCursor) : BufProg (ℕ × TlvCursor) := do
  let cursor ← orFail (tlvFind cursor TLV_TAG_PARTITION_TRAILER) EINVAL
  let trailer := cursor.current
  let cursor ← orFail (tlvAdvance cursor) EINVAL
  ensure ((← tlvTag cursor) = TLV_TAG_END) EINVAL
  pure (trailer, cursor)

/-- Generation counts of header and trailer must agree, or leave with `e`. -/
def checkGeneration (base trailer : ℕ) (e : Errno) : BufProg Unit := do
  let trailerGen ← loadU32 ((trailer + trailerGeneration : ℕ) : ℤ)
  let headerGen ← loadU32 ((base + headerGeneration : ℕ) : ℤ)
  ensure (trailerGen = headerGen) e

/-- The words of the first `length` bytes must sum to zero. -/
def checkSum (base length : ℕ) : BufProg Unit := do
  let cksum ← sumU32 base (wordCount length)
  ensure (cksum = 0) EINVAL

/-- Validate buffer contents (before writing to flash). -/
def ef10NvramBufferValidate (base size : ℕ) : BufProg Unit := do
  ensure (size ≠ 0) EINVAL
  let (cursor, totalLength) ← headerItem base size
  let (trailer, _) ← trailerItem cursor
  checkGeneration base trailer EINVAL
  checkSum base totalLength

/-- The bytes of a new partition header behind its tag and length: type, preset, generation 1,
total length 0. -/
def headerValue (partnType : ℕ) : Bytes := le 2 partnType ++ le 2 0 ++ le 4 1 ++ le 4 0

/-- The bytes of a new partition trailer: generation 1, checksum 0. -/
def trailerValue : Bytes := le 4 1 ++ le 4 0

def ef10NvramBufferCreate (partnType base size : ℕ) : BufProg Unit := do
  ensure (¬ size < headerSize + trailerSize) EINVAL
  memset base 0xff size
  tlvInitBlock base
  -- the limit is the end of the buffer here, not its last word
  let cursor ← tlvInitCursor base ((base + size : ℕ) : ℤ) base
  let cursor ← tlvInsert cursor TLV_TAG_PARTITION_HEADER (headerValue partnType)
  let cursor ← tlvAdvance cursor
  let cursor ← tlvInsert cursor TLV_TAG_PARTITION_TRAILER trailerValue
  tlvUpdatePartitionLenAndCks cursor
  -- check that the partition is valid
  ef10NvramBufferValidate base size

/-- Read past the partition header to the first item. -/
def ef10NvramBufferFindItemStart (base size : ℕ) : BufProg ℕ := do
  let cursor ← orFail (tlvInitCursorFromSize base size) EFAULT
  ensure ((← tlvTag cursor) = TLV_TAG_PARTITION_HEADER) EINVAL
  let cursor ← orFail (tlvAdvance cursor) EINVAL
  let start := byteOffset cursor.current cursor.block
  let _ ← tlvRequireEnd cursor
  pure start

/-- Read to the end of the partition. -/
def ef10NvramBufferFindEnd (base size : ℕ) : BufProg ℕ := do
  let cursor ← orFail (tlvInitCursorFromSize base size) EFAULT
  let cursor ← tlvRequireEnd cursor
  let lastSegmentEnd ← tlvLastSegmentEnd cursor
  pure (byteOffset (lastSegmentEnd + 4) cursor.block)

/-- One round of the loop of `ef10_nvram_buffer_find_item`. -/
def findItemStep (cursor : TlvCursor) : BufProg (Option (ℕ × ℕ) ⊕ TlvCursor) := do
  let tag ← tlvTag cursor
  if tag = TLV_TAG_END then
    pure (.inl none)
  else if tag = TLV_TAG_PARTITION_HEADER ∨ tag = TLV_TAG_PARTITION_TRAILER then
    match ← attempt (tlvAdvance cursor) with
    | .error _ => pure (.inl none)
    | .ok cursor => pure (.inr cursor)
  else
    let next ← tlvNextItemPtr cursor
    pure (.inl (some (byteOffset cursor.current cursor.block, byteOffset next cursor.current)))

/-- Find the item at `offset`, past header and trailer; its start and length. -/
def ef10NvramBufferFindItem (base size offset : ℕ) : BufProg (Option (ℕ × ℕ)) := do
  match ← attempt (tlvInitCursorAtOffset base size offset) with
  | .error _ => pure none
  | .ok cursor => iterate findItemStep (← loopFuel) cursor

/-- The value bytes of the item at `offset`. -/
def ef10NvramBufferGetItem (base size offset length itemMaxSize : ℕ) : BufProg Bytes := do
  ensure (¬ itemMaxSize < length) ENOSPC
  let cursor ← tlvInitCursorAtOffset base size offset
  let itemLength ← tlvLength cursor
  ensure (¬ length < itemLength) ENOSPC
  load ((cursor.current + 8 : ℕ) : ℤ) itemLength

def ef10NvramBufferInsertItem (base size offset : ℕ) (key : Bytes) : BufProg ℕ := do
  let cursor ← tlvInitCursorAtOffset base size offset
  let cursor ← tlvInsert cursor TLV_TAG_LICENSE key
  pure (byteOffset (← tlvNextItemPtr cursor) cursor.current)

/-- The length and end the caller passes are not looked at. -/
def ef10NvramBufferDeleteItem (base size offset : ℕ) : BufProg Unit := do
  let cursor ← tlvInitCursorAtOffset base size offset
  let _ ← tlvDelete cursor

def ef10NvramBufferFinish (base size : ℕ) : BufProg Unit := do
  let cursor ← orFail (tlvInitCursorFromSize base size) EFAULT
  let cursor ← tlvRequireEnd cursor
  tlvUpdatePartitionLenAndCks cursor

/-- Read a single TLV item; `alloc` says whether the memory for it can be had. -/
def ef10NvramBufReadTlv (alloc : Bool) (base size tag : ℕ) : BufProg Bytes := do
  ensure (size ≠ 0) EINVAL
  let cursor ← orFail (tlvInitCursorFromSize base size) EFAULT
  let cursor ← orFail (tlvFind cursor tag) ENOENT
  let length ← tlvLength cursor
  if length = 0 then
    pure []
  else
    ensure (alloc = true) ENOMEM
    load ((cursor.current + 8 : ℕ) : ℤ) length

/-- One round of the last loop of `ef10_nvram_buf_segment_size`: the END tag must be the one found
earlier, and no second header may precede it.  At another END tag the source leaves with the return
code it has, which is 0. -/
def segmentWalkStep (cursor : TlvCursor) : BufProg (Unit ⊕ TlvCursor) := do
  let tag ← tlvTag cursor
  if tag = TLV_TAG_END then
    pure (.inl ())
  else
    ensure (tag ≠ TLV_TAG_PARTITION_HEADER) EINVAL
    let cursor ← tlvAdvance cursor
    pure (.inr cursor)

/-- Compute the size of a segment. -/
def ef10NvramBufSegmentSize (base size : ℕ) : BufProg ℕ := do
  let (cursor, segSize) ← headerItem base size
  let (_, cursor) ← trailerItem cursor
  checkSum base segSize
  -- total length from HEADER to END tags, a `uint32_t`
  let (used, cursor) ← tlvBlockLengthUsed cursor
  let segmentLength := used % 4294967296
  ensure (¬ segmentLength > size) EINVAL
  ensure (¬ segmentLength ≠ segSize) EINVAL
  -- skip over the first HEADER tag
  let cursor ← tlvAdvance { cursor with current := cursor.block }
  iterate segmentWalkStep (← loopFuel) cursor
  pure segSize

/-- Update the TLV chain to contain the new data: modify the item, or insert one before the
trailer. -/
def updateChain (cursor : TlvCursor) (tag : ℕ) (tagData : Bytes) : BufProg TlvCursor := do
  match ← attempt (tlvFind cursor tag) with
  | .ok found => tlvModify found tag tagData
  | .error _ =>
    let found ← orFail (tlvFind cursor TLV_TAG_PARTITION_TRAILER) EINVAL
    orFail (tlvInsert found tag tagData) EINVAL

/-- Add or update a single TLV item; the total length of the segment. -/
def ef10NvramBufWriteTlv (base size tag : ℕ) (tagData : Bytes) : BufProg ℕ := do
  let cursor ← orFail (tlvInitCursorFromSize base size) EFAULT
  ensure ((← tlvTag cursor) = TLV_TAG_PARTITION_HEADER) EINVAL
  let cursor ← updateChain cursor tag tagData
  -- find the trailer tag
  let cursor ← orFail (tlvFind cursor TLV_TAG_PARTITION_TRAILER) EINVAL
  let trailer := cursor.current
  -- update PARTITION_HEADER and PARTITION_TRAILER fields
  let (totalLength, _) ← tlvBlockLengthUsed cursor
  ensure (¬ totalLength > size) ENOSPC
  let generation ← loadU32 ((base + headerGeneration : ℕ) : ℤ)
  store ((base + headerTotalLength : ℕ) : ℤ) (le 4 totalLength)
  store ((base + headerGeneration : ℕ) : ℤ) (le 4 (generation + 1))
  store ((trailer + trailerGeneration : ℕ) : ℤ) (le 4 (generation + 1))
  -- recompute PARTITION_TRAILER checksum
  store ((trailer + trailerChecksum : ℕ) : ℤ) (le 4 0)
  let cksum ← sumU32 base (wordCount totalLength)
  store ((trailer + trailerChecksum : ℕ) : ℤ) (le 4 (4294967296 - cksum))
  pure totalLength

end Sfxge.Tlv
