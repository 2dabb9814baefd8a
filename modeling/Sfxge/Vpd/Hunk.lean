import Sfxge.Lib.Walk
import Sfxge.Vpd.Tags

/-!
# Vpd.Hunk — reading and editing a VPD block

The rest of `efx_vpd.c` on a block ("hunk"): `efx_vpd_next_keyword`, `efx_vpd_hunk_verify`, `_reinit`,
`_next`, `_get` and `_set`.  The loops over tags and keywords are `walk`s with the source's bodies; what
writes the block is a program on its bytes, so that an error leaves what was written before it.
-/

namespace Sfxge.Vpd

open Lib Prog Tag

/-- `EFX_VPD_KEYWORD('R', 'V')` -/
def RV : ℕ := 0x5652

/-- `efx_vpd_value_t`; tags other than those of `Tag` are `none`. -/
structure Value where
  evvTag : Option Tag
  evvKeyword : ℕ
  evvValue : Bytes
  evvKeyword_lt : evvKeyword < 65536
  evvLength_lt : evvValue.length < 256
  deriving Repr, DecidableEq

def Value.evvLength (v : Value) : ℕ := v.evvValue.length

/-! ### Tags and keywords in a row -/

/-- A tag at `head`, with its contents at `offset` -/
structure TagAt where
  head : ℕ
  tag : Tag
  taglen : ℕ
  offset : ℕ
  deriving Repr, DecidableEq

/-- A keyword at `pos` of a tag's contents -/
structure KeywordAt where
  pos : ℕ
  keyword : ℕ
  keylen : ℕ
  deriving Repr, DecidableEq

/-- `while (1)` over `efx_vpd_next_tag`, up to the END tag -/
def tags (data : Bytes) : Reader Errno TagAt := fun head =>
  match nextTag data head with
  | .error e => .error e
  | .ok (tag, taglen, offset) =>
    if tag = EFX_VPD_END then .ok none else .ok (some (⟨head, tag, taglen, offset⟩, offset + taglen))

/-- `efx_vpd_next_keyword`: the keyword at `pos` of the contents `tag` of a tag, and its length. -/
def nextKeyword (tag : Bytes) (pos : ℕ) : Except Errno (ℕ × ℕ) :=
  let size := tag.length
  if pos + 3 > size then .error .EFAULT
  else
    let keyword := wordOf (tag.getD pos 0) (tag.getD (pos + 1) 0)
    let length := (tag.getD (pos + 2) 0).toNat
    if length = 0 ∨ pos + 3 + length > size then .error .EFAULT else .ok (keyword, length)

/-- `for (pos = 0; pos != taglen; pos += 3 + keylen)` over `efx_vpd_next_keyword` -/
def keywords (tag : Bytes) : Reader Errno KeywordAt := fun pos =>
  if pos = tag.length then .ok none
  else match nextKeyword tag pos with
    | .error e => .error e
    | .ok (keyword, keylen) => .ok (some (⟨pos, keyword, keylen⟩, pos + 3 + keylen))

/-- The contents of a tag -/
def contents (data : Bytes) (t : TagAt) : Bytes := slice data t.offset t.taglen

variable {σ β : Type}

def eachTag (data : Bytes) (body : σ → TagAt → Except Errno (Round σ β)) (s : σ) : Except Errno (Round (σ × ℕ) β) :=
  walk (tags data) body .EFAULT (data.length + 1) 0 s

def eachKeyword (tag : Bytes) (body : σ → KeywordAt → Except Errno (Round σ β)) (s : σ) :
    Except Errno (Round (σ × ℕ) β) :=
  walk (keywords tag) body .EFAULT (tag.length + 1) 0 s

/-- A loop over the keywords of a tag, inside the loop over the tags: a `return` leaves both. -/
def inTag (r : Except Errno (Round (σ × ℕ) β)) : Except Errno (Round σ β) :=
  match r with
  | .error e => .error e
  | .ok (.stop b) => .ok (.stop b)
  | .ok (.next (s, _)) => .ok (.next s)

/-! ### Verify -/

/-- The keyword loop's body in `efx_vpd_hunk_verify`.  A keyword behind RV and one that does not fit leave
with the same code. -/
def verifyKeyword (data : Bytes) (offset : ℕ) (cksummed : Bool) (k : KeywordAt) : Except Errno (Round Bool Empty) :=
  if cksummed then .error .EFAULT
  else if k.keyword = RV then
    if bsum data 0 (offset + k.pos + 4) % 256 ≠ 0 then .error .EFAULT else .ok (.next true)
  else .ok (.next cksummed)

def verifyTag (data : Bytes) (cksummed : Bool) (t : TagAt) : Except Errno (Round Bool Empty) :=
  if t.tag = EFX_VPD_ID then .ok (.next cksummed)
  else inTag (eachKeyword (contents data t) (verifyKeyword data t.offset) cksummed)

/-- `efx_vpd_hunk_verify` -/
def hunkVerify (data : Bytes) : Except Errno Bool :=
  match eachTag data (verifyTag data) false with
  | .error e => .error e
  | .ok (.next (cksummed, _)) => if cksummed then .ok cksummed else .error .EFAULT

/-! ### Reinit -/

/-- `__efx_vpd_blank_pid` -/
def blankPid : Bytes := [0x82, 0x01, 0x00, 0x32]

/-- `__efx_vpd_blank_r` -/
def blankR : Bytes := [0x90, 0x04, 0x00, 0x52, 0x56, 0x01, 0x00]

/-- `efx_vpd_hunk_reinit` -/
def hunkReinit (wantpid : Bool) : Prog Bytes Errno Unit := do
  let data ← get
  ensure (0x100 ≤ data.length) .ENOSPC
  when (wantpid = true) (store 0 blankPid)
  let offset := if wantpid then blankPid.length else 0
  store offset blankR
  let offset := offset + blankR.length
  let data ← get
  let cksum := UInt8.ofNat (bsum data 0 offset)
  store (offset - 1 : ℕ) [data.getD (offset - 1) 0 - cksum]
  store offset [0x78]

/-! ### Next and get -/

/-- What `efx_vpd_hunk_next` hands out, and whether the assertion on its way held -/
structure Found where
  tag : Tag
  keyword : ℕ
  payload : ℕ
  paylen : ℕ
  cont : ℕ
  asserted : Bool
  deriving Repr, DecidableEq

def nextOfKeyword (offset cont : ℕ) (index : ℕ) (k : KeywordAt) : Except Errno (Round ℕ Found) :=
  if index = cont then .ok (.stop ⟨EFX_VPD_RO, k.keyword, offset + (k.pos + 3), k.keylen, index + 1, true⟩)
  else .ok (.next (index + 1))

def nextOfTag (data : Bytes) (cont : ℕ) (index : ℕ) (t : TagAt) : Except Errno (Round ℕ Found) :=
  if t.tag = EFX_VPD_ID then
    if index = cont then .ok (.stop ⟨EFX_VPD_ID, 0, t.offset, min t.taglen 0xff, index + 1, t.taglen < 0x100⟩)
    else .ok (.next (index + 1))
  else inTag (eachKeyword (contents data t) (nextOfKeyword t.offset cont) index)

/-- `efx_vpd_hunk_next`; at the END tag it starts over at 0. -/
def hunkNext (data : Bytes) (cont : ℕ) : Except Errno Found :=
  match eachTag data (nextOfTag data cont) 0 with
  | .error e => .error e
  | .ok (.stop r) => .ok r
  | .ok (.next (_, head)) =>
    match nextTag data head with
    | .error e => .error e
    | .ok (tag, _, offset) => .ok ⟨tag, 0, offset, 0, 0, true⟩

/-- What `efx_vpd_hunk_get` hands out, and whether the assertion on its way held -/
structure Got where
  payload : ℕ
  paylen : ℕ
  asserted : Bool
  deriving Repr, DecidableEq

def getKeyword (offset keyword : ℕ) (_ : Unit) (k : KeywordAt) : Except Errno (Round Unit Got) :=
  if k.keyword = keyword then .ok (.stop ⟨offset + k.pos + 3, k.keylen, true⟩) else .ok (.next ())

def getTag (data : Bytes) (tag : Option Tag) (keyword : ℕ) (_ : Unit) (t : TagAt) : Except Errno (Round Unit Got) :=
  if some t.tag = tag then
    if t.tag = EFX_VPD_ID then .ok (.stop ⟨t.offset, min t.taglen 0xff, t.taglen < 0x100⟩)
    else inTag (eachKeyword (contents data t) (getKeyword t.offset keyword) ())
  else .ok (.next ())

/-- `efx_vpd_hunk_get`: where the value lies, and its length. -/
def hunkGet (data : Bytes) (tag : Option Tag) (keyword : ℕ) : Except Errno Got :=
  match eachTag data (getTag data tag keyword) () with
  | .error e => .error e
  | .ok (.stop r) => .ok r
  | .ok (.next _) => .error .ENOENT

/-! ### Set -/

/-- Where `efx_vpd_hunk_set` moves the rest of the block from and to, and the tag and keyword before it -/
structure Place where
  t : TagAt
  pos : ℕ
  source : ℕ
  dest : ℕ
  deriving Repr, DecidableEq

/-- The keyword loop's body in `efx_vpd_hunk_set`; `none` leaves with nothing to do. -/
def placeKeyword (v : Value) (t : TagAt) (_ : Unit) (k : KeywordAt) : Except Errno (Round Unit (Option Place)) :=
  if k.keyword = v.evvKeyword ∧ v.evvLength = 0 then
    .ok (.stop (some ⟨t, k.pos, t.offset + k.pos + 3 + k.keylen, t.offset + k.pos⟩))
  else if k.keyword = v.evvKeyword then
    .ok (.stop (some ⟨t, k.pos, t.offset + k.pos + 3 + k.keylen, t.offset + k.pos + 3 + v.evvLength⟩))
  else if k.keyword = RV then
    if v.evvLength = 0 then .ok (.stop none)
    else .ok (.stop (some ⟨t, k.pos, t.offset + k.pos, t.offset + k.pos + 3 + v.evvLength⟩))
  else .ok (.next ())

def placeTag (data : Bytes) (v : Value) (_ : Unit) (t : TagAt) : Except Errno (Round Unit (Option Place)) :=
  if some t.tag ≠ v.evvTag then .ok (.next ())
  else if t.offset - t.head ≠ 3 then .error .EINVAL
  else if t.tag = EFX_VPD_ID then .ok (.stop (some ⟨t, 0, t.offset + t.taglen, t.offset + v.evvLength⟩))
  else match eachKeyword (contents data t) (placeKeyword v t) () with
    | .error e => .error e
    | .ok (.stop p) => .ok (.stop p)
    -- neither the keyword nor RV: `source` and `dest` are still 0
    | .ok (.next (_, pos)) => .ok (.stop (some ⟨t, pos, 0, 0⟩))

/-- The search of `efx_vpd_hunk_set` -/
def place (data : Bytes) (v : Value) : Except Errno (Option Place) :=
  match eachTag data (placeTag data v) () with
  | .error e => .error e
  | .ok (.stop p) => .ok p
  | .ok (.next _) => .error .ENOENT

/-- `if ((rc = p) != 0) goto fail` of what only reads -/
def ofExcept {α : Type} (x : Except Errno α) : Prog Bytes Errno α :=
  match x with
  | .error e => fail e
  | .ok a => pure a

/-- The keyword loop's body behind the `checksum` label -/
def findRV (_ : Unit) (k : KeywordAt) : Except Errno (Round Unit ℕ) :=
  if k.keyword = RV then .ok (.stop k.pos) else .ok (.next ())

/-- The keyword loop behind the `checksum` label: the sum of everything before RV's contents is put there. -/
def checksumTag (offset taglen : ℕ) : Prog Bytes Errno Unit := do
  let data ← get
  let r ← ofExcept (eachKeyword (slice data offset taglen) findRV ())
  match r with
  | .stop pos =>
    let cksum := UInt8.ofNat (bsum data 0 (offset + pos + 3))
    store (offset + pos + 3 : ℕ) [-cksum]
  | .next _ => pure ()

/-- The loop behind the `checksum` label -/
def checksumRound (offset : ℕ) : Prog Bytes Errno (ℕ ⊕ ℕ) := do
  let data ← get
  let (tag, taglen, offset) ← ofExcept (nextTag data offset)
  if tag = EFX_VPD_END then pure (.inl (offset + taglen))
  else do
    when (tag = EFX_VPD_RO) (checksumTag offset taglen)
    pure (.inr (offset + taglen))

def checksum : Prog Bytes Errno Unit := do
  let data ← get
  let used ← iterate checksumRound (data.length + 1) 0
  memset used 0xff (data.length - used)

/-- The checks of the value at the top of `efx_vpd_hunk_set` -/
def checkValue (v : Value) : Prog Bytes Errno Unit :=
  match v.evvTag with
  | some EFX_VPD_ID => do
    ensure (v.evvKeyword = 0) .EINVAL
    ensure (v.evvLength ≠ 0) .EINVAL
  | some EFX_VPD_RO => ensure (v.evvKeyword ≠ RV) .EINVAL
  | _ => fail .EINVAL

/-- `efx_vpd_hunk_set` from the `check_space` label on -/
def rewrite (v : Value) (used : ℕ) (p : Place) : Prog Bytes Errno Unit := do
  let data ← get
  ensure (¬ used + p.dest > data.length + p.source) .ENOSPC
  memmove p.dest p.source (used - p.source)
  store (p.dest - v.evvLength) v.evvValue
  when (p.t.tag ≠ EFX_VPD_ID ∧ 0 < v.evvLength)
    (store (p.t.offset + p.pos : ℕ) (le 2 v.evvKeyword ++ [UInt8.ofNat v.evvLength]))
  let taglen := ((p.t.taglen + p.dest - p.source : ℤ) % 65536).toNat
  store (p.t.offset - 2) (le 2 taglen)
  checksum

/-- `efx_vpd_hunk_set` -/
def hunkSet (v : Value) : Prog Bytes Errno Unit := do
  checkValue v
  let data ← get
  let used ← ofExcept (efxVpdHunkLength data)
  let p ← ofExcept (place data v)
  match p with
  | none => pure ()
  | some p => rewrite v used p

end Sfxge.Vpd
