import Sfxge.Lib.Run
import Sfxge.Efx

/-!
# Lic.V1V2 — legacy licence partitions of `common/efx_lic.c`

A V1/V2 partition is a packed list of keys `type, length, payload` (two 16-bit words, then the
payload) closed by a terminator, a header of type 0 and length 0.  The memory is the buffer itself,
offsets are `uint32_t`, `buffer_size` is a `size_t`.  `ENOSPC` is the only return code; a key is the
byte string handed to the write.
-/

namespace Sfxge.Lic

open Lib Lib.Prog Errno

def PAYLOAD_LENGTH_MAX : ℕ := 256
def HEADER_LENGTH : ℕ := 4

abbrev LicProg := Prog Bytes Errno

def findStart : LicProg ℕ := pure 0

def findEnd (offset : ℕ) : LicProg ℕ := pure ((offset + HEADER_LENGTH) % 4294967296)

/-- Offset and length of the key at `offset`, `none` where the source returns `B_FALSE`. -/
def findKey (bufferSize offset : ℕ) : LicProg (Option (ℕ × ℕ)) := do
  -- a `size_t` difference: beyond the buffer it wraps to a large number
  if offset ≤ bufferSize ∧ bufferSize - offset < HEADER_LENGTH then
    pure none
  else
    let tlvType := ofLe (← load offset 2)
    let tlvLength := ofLe (← load ((offset + 2 : ℕ) : ℤ) 2)
    if tlvLength > PAYLOAD_LENGTH_MAX ∨ (tlvType = 0 ∧ tlvLength = 0) then
      pure none
    else
      pure (some (offset, tlvLength + HEADER_LENGTH))

/-- `keyp` holds `length` bytes. -/
def validateKey (key : Bytes) : Bool :=
  let tlvType := u16 key 0
  let tlvLength := u16 key 2
  if key.length < HEADER_LENGTH then false
  else if tlvLength > PAYLOAD_LENGTH_MAX then false
  else if tlvType = 0 then false
  else if tlvLength + HEADER_LENGTH ≠ key.length then false
  else true

def readKey (offset length keyMaxSize : ℕ) : LicProg Bytes := do
  ensure (length ≤ keyMaxSize) ENOSPC
  load offset length

def writeKey (bufferSize offset : ℕ) (key : Bytes) : LicProg ℕ := do
  -- ensure space for terminator remains; the `size_t` difference wraps below a header's length
  ensure (¬ (HEADER_LENGTH ≤ bufferSize ∧
    (offset + key.length) % 4294967296 > bufferSize - HEADER_LENGTH)) ENOSPC
  store offset key
  pure key.length

def deleteKey (offset length endp : ℕ) : LicProg ℕ := do
  let moveStart := (offset + length) % 4294967296
  let moveLength := ((endp : ℤ) - moveStart) % 4294967296
  -- shift everything after the key down
  memmove offset moveStart moveLength
  pure length

def createPartition : LicProg Unit :=
  -- write terminator
  memset 0 0 HEADER_LENGTH

/-! ### Enumerating a partition -/

/-- Offsets and lengths of the keys from `offset` on, and where the enumeration stops.  It runs at
most `fuel` rounds, and an offset is a `uint32_t`. -/
def walk (b : Bytes) : (fuel offset : ℕ) → Option (List (ℕ × ℕ) × ℕ)
  | 0, _ => none
  | fuel + 1, offset =>
    if 4294967296 ≤ offset then none
    else
      match findKey b.length offset b with
      | .ret (some (start, length)) _ =>
        (walk b fuel (start + length)).map fun r => ((start, length) :: r.1, r.2)
      | .ret none _ => some ([], offset)
      | _ => none

/-- The keys found from `find_start` on, and the offset where `find_key` finds no further one. -/
def enumerate (b : Bytes) : Option (List (ℕ × ℕ) × ℕ) := walk b (b.length + 1) 0

/-- The bytes `read_key` returns for each of the spans. -/
def readAll (b : Bytes) : List (ℕ × ℕ) → Option (List Bytes)
  | [] => some []
  | (offset, length) :: spans =>
    match readKey offset length length b with
    | .ret key _ => (readAll b spans).map (key :: ·)
    | _ => none

def terminator : Bytes := List.replicate HEADER_LENGTH 0

/-- The keys of `b` are `keys`, and behind them a terminator lies inside the buffer. -/
def Holds (b : Bytes) (keys : List Bytes) : Prop :=
  ∃ spans stop, enumerate b = some (spans, stop) ∧ readAll b spans = some keys ∧
    slice b stop HEADER_LENGTH = terminator

/-! ### Editing -/

inductive Edit where
  | writeKey (key : Bytes)
  | deleteKey (i : ℕ)
  deriving Repr, DecidableEq

/-- One edit of a partition, and of the abstract list beside it: a key is written where the
enumeration stops, with room for a terminator behind it; the `i`-th key found is deleted, up to the
end that `find_end` reports there. -/
def edit : Edit → Bytes × List Bytes → Option (Bytes × List Bytes)
  | .writeKey key, (b, keys) =>
    match enumerate b with
    | none => none
    | some (_, stop) =>
      if validateKey key ∧ stop + key.length + HEADER_LENGTH ≤ b.length then
        match writeKey b.length stop key b with
        | .ret _ b' => some (b', keys ++ [key])
        | _ => none
      else none
  | .deleteKey i, (b, keys) =>
    match enumerate b with
    | none => none
    | some (spans, stop) =>
      match spans[i]? with
      | none => none
      | some (offset, length) =>
        match (do deleteKey offset length (← findEnd stop) : LicProg ℕ) b with
        | .ret _ b' => some (b', keys.eraseIdx i)
        | _ => none

end Sfxge.Lic
