import Sfxge.Efx

/-!
# Tlv.Cursor — the TLV cursor of `common/ef10_nvram.c`

A TLV block is a sequence of items `tag, length, value` in little-endian 32-bit words, the value
padded to a word, closed by the tag `TLV_TAG_END`.  The functions below are the static `tlv_*`
functions of the source over a byte memory; pointers are byte addresses.  When the source leaves
with an error it sets `cursor->current` to `NULL`; no caller looks at a cursor again before it has
rewound it, so a failing function returns no cursor here.
-/

namespace Sfxge.Tlv

open Lib Lib.Prog Errno

def TLV_TAG_END : ℕ := 0xEEEEEEEE
def TLV_TAG_PARTITION_HEADER : ℕ := 0xEF10DA7A
def TLV_TAG_PARTITION_TRAILER : ℕ := 0xEF101A57
def TLV_TAG_LICENSE : ℕ := 0x30800000

theorem tagHeader_lt : TLV_TAG_PARTITION_HEADER < 2 ^ 32 := by decide

theorem tagHeader_ne_end : TLV_TAG_PARTITION_HEADER ≠ TLV_TAG_END := by decide

/-- `tlv_cursor_t`: base of the block, cursor position, END tag if known, last word of the block. -/
structure TlvCursor where
  block : ℕ
  current : ℕ
  endTag : Option ℤ
  limit : ℤ
  deriving Repr, DecidableEq

abbrev BufProg := Prog Bytes Errno

/-- No loop over a block goes round more often than the memory has bytes. -/
def loopFuel : BufProg ℕ := fun m => .ret (m.length + 1) m

def tlvInitBlock (block : ℕ) : BufProg Unit := store block (le 4 TLV_TAG_END)

def tlvTag (cursor : TlvCursor) : BufProg ℕ := loadU32 cursor.current

def tlvLength (cursor : TlvCursor) : BufProg ℕ := do
  if (← tlvTag cursor) = TLV_TAG_END then
    pure 0
  else
    loadU32 ((cursor.current + 4 : ℕ) : ℤ)

/-- `TLV_DWORD_COUNT` -/
def tlvDwordCount (length : ℕ) : ℕ := 1 + 1 + (length + 3) / 4

def tlvNextItemPtr (cursor : TlvCursor) : BufProg ℕ := do
  let length ← tlvLength cursor
  pure (cursor.current + 4 * tlvDwordCount length)

def tlvValidateState (cursor : TlvCursor) : BufProg Unit := do
  -- check cursor position
  ensure (cursor.block ≤ cursor.current) EINVAL
  ensure ((cursor.current : ℤ) ≤ cursor.limit) EINVAL
  if (← tlvTag cursor) ≠ TLV_TAG_END then
    -- check current item has space for tag and length
    ensure ((cursor.current : ℤ) ≤ cursor.limit - 8) EFAULT
    -- check we have value data for current item and another tag
    let next ← tlvNextItemPtr cursor
    ensure ((next : ℤ) ≤ cursor.limit - 4) EFAULT

def tlvAdvance (cursor : TlvCursor) : BufProg TlvCursor := do
  tlvValidateState cursor
  -- no more tags after END tag
  ensure (cursor.endTag ≠ some (cursor.current : ℤ)) ENOENT
  let next ← tlvNextItemPtr cursor
  let cursor := { cursor with current := next }
  tlvValidateState cursor
  pure cursor

def tlvRewind (cursor : TlvCursor) : BufProg TlvCursor := do
  let cursor := { cursor with current := cursor.block }
  tlvValidateState cursor
  pure cursor

/-- One round of the loop of `tlv_find`. -/
def tlvFindStep (tag : ℕ) (cursor : TlvCursor) : BufProg (TlvCursor ⊕ TlvCursor) := do
  if (← tlvTag cursor) = tag then
    pure (.inl cursor)
  else
    let cursor ← tlvAdvance cursor
    pure (.inr cursor)

def tlvFind (cursor : TlvCursor) (tag : ℕ) : BufProg TlvCursor := do
  let cursor ← tlvRewind cursor
  iterate (tlvFindStep tag) (← loopFuel) cursor

def tlvInitCursor (block : ℕ) (limit : ℤ) (current : ℕ) : BufProg TlvCursor := do
  let cursor : TlvCursor := { block, current, endTag := none, limit }
  tlvValidateState cursor
  pure cursor

def tlvInitCursorFromSize (block size : ℕ) : BufProg TlvCursor :=
  tlvInitCursor block (block + size - 4) block

def tlvInitCursorAtOffset (block size offset : ℕ) : BufProg TlvCursor :=
  tlvInitCursor block (block + size - 4) (block + offset)

def tlvRequireEnd (cursor : TlvCursor) : BufProg TlvCursor :=
  match cursor.endTag with
  | some _ => pure cursor
  | none => do
    let found ← tlvFind cursor TLV_TAG_END
    pure { cursor with endTag := some (found.current : ℤ) }

/-- Space used including the END tag, `0` if the block has none. -/
def tlvBlockLengthUsed (cursor : TlvCursor) : BufProg (ℕ × TlvCursor) := do
  match ← attempt (tlvValidateState cursor) with
  | .error _ => pure (0, cursor)
  | .ok _ =>
    match ← attempt (tlvRequireEnd cursor) with
    | .error _ => pure (0, cursor)
    | .ok cursor =>
      -- a `size_t`
      pure (((cursor.endTag.getD 0 + 4 - cursor.block) % 18446744073709551616).toNat, cursor)

/-- One round of the loop of `tlv_last_segment_end`, over the last END tag seen and the start of
the next segment. -/
def tlvLastSegmentEndStep (limit : ℤ) (st : ℕ × ℕ) : BufProg (ℕ ⊕ (ℕ × ℕ)) := do
  match ← attempt (tlvInitCursor st.2 limit st.2) with
  | .error _ => pure (.inl st.1)
  | .ok segmentCursor =>
    match ← attempt (tlvFind segmentCursor TLV_TAG_END) with
    | .error _ => pure (.inl st.1)
    | .ok found => pure (.inr (found.current, found.current + 4))

/-- Go through each segment and check that it has an END tag; the last one found. -/
def tlvLastSegmentEnd (cursor : TlvCursor) : BufProg ℕ := do
  iterate (tlvLastSegmentEndStep cursor.limit) (← loopFuel) (cursor.block, cursor.block)

/-- Write an item; the length field is 32 bits wide. -/
def tlvWrite (cursor : TlvCursor) (tag : ℕ) (data : Bytes) : BufProg Unit := do
  let len := data.length % 4294967296
  let ptr := cursor.current
  store ptr (le 4 tag)
  store ((ptr + 4 : ℕ) : ℤ) (le 4 len)
  if len > 0 then
    store ((ptr + 8 + 4 * ((len - 1) / 4) : ℕ) : ℤ) (le 4 0)
    store ((ptr + 8 : ℕ) : ℤ) (data.take len)

/-- `(p - q) * sizeof (uint32_t)` for pointers to words `d` bytes apart. -/
def wordSpan (d : ℤ) : ℤ := 4 * (d / 4)

/-- `unsigned int delta = TLV_DWORD_COUNT(size)` -/
def tlvDelta (size : ℕ) : ℕ := tlvDwordCount size % 4294967296

def tlvInsert (cursor : TlvCursor) (tag : ℕ) (data : Bytes) : BufProg TlvCursor := do
  tlvValidateState cursor
  let cursor ← tlvRequireEnd cursor
  ensure (tag ≠ TLV_TAG_END) EINVAL
  let lastSegmentEnd ← tlvLastSegmentEnd cursor
  let delta := tlvDelta data.length
  ensure ((lastSegmentEnd + 4 + 4 * delta : ℤ) ≤ cursor.limit) ENOSPC
  -- move data up: new space at cursor->current
  memmove ((cursor.current + 4 * delta : ℕ) : ℤ) cursor.current
    (wordSpan ((lastSegmentEnd : ℤ) + 4 - cursor.current))
  let cursor := { cursor with endTag := cursor.endTag.map (· + 4 * (delta : ℤ)) }
  tlvWrite cursor tag data
  pure cursor

def tlvDelete (cursor : TlvCursor) : BufProg TlvCursor := do
  tlvValidateState cursor
  ensure ((← tlvTag cursor) ≠ TLV_TAG_END) EINVAL
  let delta := tlvDwordCount (← tlvLength cursor)
  let cursor ← tlvRequireEnd cursor
  let lastSegmentEnd ← tlvLastSegmentEnd cursor
  -- shuffle things down, destroying the item at cursor->current
  memmove cursor.current ((cursor.current + 4 * delta : ℕ) : ℤ)
    (wordSpan ((lastSegmentEnd : ℤ) + 4 - cursor.current))
  -- zero the new space at the end of the TLV chain
  memset ((lastSegmentEnd : ℤ) + 4 - 4 * delta) 0 (4 * delta : ℕ)
  pure { cursor with endTag := cursor.endTag.map (· - 4 * (delta : ℤ)) }

/-- The `if` of `tlv_modify`: expand or shrink the space of the item at the cursor. -/
def tlvModifySpace (cursor : TlvCursor) (oldNdwords newNdwords lastSegmentEnd : ℕ) :
    BufProg TlvCursor :=
  if newNdwords > oldNdwords then do
    -- expand space used for TLV item
    let delta := newNdwords - oldNdwords
    let pos := cursor.current + 4 * oldNdwords
    ensure ((lastSegmentEnd + 4 + 4 * delta : ℤ) ≤ cursor.limit) ENOSPC
    memmove ((pos + 4 * delta : ℕ) : ℤ) pos
      (wordSpan ((lastSegmentEnd : ℤ) + 4 - pos))
    pure { cursor with endTag := cursor.endTag.map (· + 4 * (delta : ℤ)) }
  else if newNdwords < oldNdwords then do
    -- shrink space used for TLV item
    let delta := oldNdwords - newNdwords
    let pos := cursor.current + 4 * newNdwords
    memmove pos ((pos + 4 * delta : ℕ) : ℤ)
      (wordSpan ((lastSegmentEnd : ℤ) + 4 - pos))
    memset ((lastSegmentEnd : ℤ) + 4 - 4 * delta) 0 (4 * delta : ℕ)
    pure { cursor with endTag := cursor.endTag.map (· - 4 * (delta : ℤ)) }
  else
    pure cursor

def tlvModify (cursor : TlvCursor) (tag : ℕ) (data : Bytes) : BufProg TlvCursor := do
  tlvValidateState cursor
  ensure ((← tlvTag cursor) ≠ TLV_TAG_END) EINVAL
  ensure ((← tlvTag cursor) = tag) EINVAL
  let oldNdwords := tlvDwordCount (← tlvLength cursor)
  let newNdwords := tlvDelta data.length
  let cursor ← tlvRequireEnd cursor
  let lastSegmentEnd ← tlvLastSegmentEnd cursor
  let cursor ← tlvModifySpace cursor oldNdwords newNdwords lastSegmentEnd
  tlvWrite cursor tag data
  pure cursor

/-- Offsets of the fields of `struct tlv_partition_header` and `struct tlv_partition_trailer`. -/
def headerGeneration : ℕ := 12
def headerTotalLength : ℕ := 16
def headerSize : ℕ := 20
def trailerGeneration : ℕ := 8
def trailerChecksum : ℕ := 12
def trailerSize : ℕ := 16

def checksumTlvPartition (data : ℕ) (cursor : TlvCursor) : BufProg ℕ := do
  let (len, _) ← tlvBlockLengthUsed cursor
  sumU32 data (len / 4)

def tlvUpdatePartitionLenAndCks (cursor : TlvCursor) : BufProg Unit := do
  let header := cursor.block
  ensure ((← loadU32 header) = TLV_TAG_PARTITION_HEADER) EFAULT
  let (newLen, partitionCursor) ← tlvBlockLengthUsed cursor
  ensure (newLen ≠ 0) EFAULT
  store ((header + headerTotalLength : ℕ) : ℤ) (le 4 newLen)
  -- ensure the modified partition always has a new generation count
  let generation ← loadU32 ((header + headerGeneration : ℕ) : ℤ)
  store ((header + headerGeneration : ℕ) : ℤ) (le 4 (generation + 1))
  let trailer : ℤ := (header : ℤ) + newLen - trailerSize - 4
  store (trailer + trailerGeneration) (le 4 (generation + 1))
  let checksum ← loadU32 (trailer + trailerChecksum)
  let sum ← checksumTlvPartition header partitionCursor
  store (trailer + trailerChecksum) (le 4 (checksum + (4294967296 - sum)))

end Sfxge.Tlv
