import Mathlib.Tactic.SplitIfs
import Sfxge.Efx

/-!
# Vpd.Tags — the tags of a VPD block

`efx_vpd_next_tag` and `efx_vpd_hunk_length` of `efx_vpd.c`.  The block is an array of `char`, which is
signed: a length byte from `0x80` on is extended to a word before it is put in place.
-/

namespace Sfxge.Vpd

open Lib

/-- `efx_vpd_tag_t`, as far as it is supported -/
inductive Tag where
  | EFX_VPD_ID
  | EFX_VPD_END
  | EFX_VPD_RO
  deriving Repr, DecidableEq

open Tag

def Tag.ofName (name : ℕ) : Option Tag :=
  if name = 0x0f then some EFX_VPD_END
  else if name = 0x02 then some EFX_VPD_ID
  else if name = 0x10 then some EFX_VPD_RO
  else none

/-- `EFX_POPULATE_WORD_2` of two `char`s -/
def wordOf (lo hi : UInt8) : ℕ :=
  (if lo.toNat < 0x80 then lo.toNat ||| hi.toNat <<< 8 else (0xff00 ||| lo.toNat) ||| hi.toNat <<< 8) % 65536

/-- `efx_vpd_next_tag`: the tag at `offset`, its length and the offset of its contents. -/
def nextTag (data : Bytes) (offset : ℕ) : Except Errno (Tag × ℕ × ℕ) :=
  let size := data.length
  if offset ≥ size then .error .EFAULT
  else
    let byte := (data.getD offset 0).toNat
    if byte >>> 7 = 0 then finish size 1 ((byte >>> 3) &&& 0xf) (byte &&& 0x7)
    else if offset + 3 > size then .error .EFAULT
    else finish size 3 (byte &&& 0x7f) (wordOf (data.getD (offset + 1) 0) (data.getD (offset + 2) 0))
where
  /-- The tag fits, and is supported. -/
  finish (size headlen name length : ℕ) : Except Errno (Tag × ℕ × ℕ) :=
    if offset + headlen + length > size then .error .EFAULT
    else match Tag.ofName name with
      | none => .error .EFAULT
      | some tag => .ok (tag, length, offset + headlen)

/-- The loop of `efx_vpd_hunk_length` from `offset` on; every round moves the offset. -/
def hunkLengthFrom (data : Bytes) : ℕ → ℕ → Except Errno ℕ
  | 0, _ => .error .EFAULT
  | fuel + 1, offset =>
    match nextTag data offset with
    | .error e => .error e
    | .ok (tag, taglen, offset) =>
      if tag = EFX_VPD_END then .ok (offset + taglen) else hunkLengthFrom data fuel (offset + taglen)

/-- `efx_vpd_hunk_length` -/
def efxVpdHunkLength (data : Bytes) : Except Errno ℕ := hunkLengthFrom data (data.length + 1) 0

theorem nextTag_ok {data : Bytes} {offset taglen offset' : ℕ} {tag : Tag}
    (h : nextTag data offset = .ok (tag, taglen, offset')) : offset < offset' ∧ offset' + taglen ≤ data.length := by
  have hfinish : ∀ {headlen name length : ℕ}, 0 < headlen →
      nextTag.finish offset data.length headlen name length = .ok (tag, taglen, offset') →
      offset < offset' ∧ offset' + taglen ≤ data.length := by
    intro headlen name length hpos hf
    unfold nextTag.finish at hf
    split_ifs at hf with hle
    cases hname : Tag.ofName name with
    | none =>
      rw [hname] at hf
      cases hf
    | some t =>
      rw [hname] at hf
      cases hf
      omega
  unfold nextTag at h
  dsimp only at h
  split_ifs at h
  · exact hfinish (by omega) h
  · exact hfinish (by omega) h

/-- The rounds of the loop suffice: a tag is at least a byte long. -/
theorem hunkLengthFrom_fuel {data : Bytes} {fuel fuel' offset : ℕ} (h : data.length < fuel + offset)
    (h' : data.length < fuel' + offset) : hunkLengthFrom data fuel offset = hunkLengthFrom data fuel' offset := by
  induction fuel generalizing fuel' offset with
  | zero =>
    cases fuel' with
    | zero => rfl
    | succ fuel' =>
      unfold hunkLengthFrom nextTag
      dsimp only
      rw [if_pos (show offset ≥ data.length by omega)]
  | succ fuel ih =>
    cases fuel' with
    | zero =>
      unfold hunkLengthFrom nextTag
      dsimp only
      rw [if_pos (show offset ≥ data.length by omega)]
    | succ fuel' =>
      unfold hunkLengthFrom
      cases hnext : nextTag data offset with
      | error e => rfl
      | ok r =>
        obtain ⟨tag, taglen, offset1⟩ := r
        have hmove := (nextTag_ok hnext).1
        dsimp only
        rw [ih (show data.length < fuel + (offset1 + taglen) by omega)
          (show data.length < fuel' + (offset1 + taglen) by omega)]

theorem hunkLengthFrom_le {data : Bytes} {fuel offset n : ℕ} (h : hunkLengthFrom data fuel offset = .ok n) :
    n ≤ data.length := by
  induction fuel generalizing offset with
  | zero => cases h
  | succ fuel ih =>
    unfold hunkLengthFrom at h
    cases hnext : nextTag data offset with
    | error e =>
      rw [hnext] at h
      cases h
    | ok r =>
      obtain ⟨tag, taglen, offset1⟩ := r
      rw [hnext] at h
      dsimp only at h
      split_ifs at h
      · cases h
        exact (nextTag_ok hnext).2
      · exact ih h

/-- The tags lie in the block. -/
theorem efxVpdHunkLength_le {data : Bytes} {n : ℕ} (h : efxVpdHunkLength data = .ok n) : n ≤ data.length :=
  hunkLengthFrom_le h

end Sfxge.Vpd
