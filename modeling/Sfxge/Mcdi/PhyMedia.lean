import Sfxge.Efx
import Sfxge.Oword

/-!
# Mcdi.PhyMedia — reading the EEPROM of a module

`efx_phy_module_get_info` and the two functions of `efx_mcdi.c` below it.  A module has two pages of 128 bytes, which
the management controller hands out as a whole; offsets and lengths are bytes.
-/

namespace Sfxge.Mcdi

open Lib Prog

/-- `EFX_PHY_MEDIA_INFO_PAGE_SIZE` -/
def mediaInfoPageSize : ℕ := 0x80

/-- `MC_CMD_GET_PHY_MEDIA_INFO_OUT_LEN(EFX_PHY_MEDIA_INFO_PAGE_SIZE)` -/
def mediaInfoOutLen : ℕ := 4 + mediaInfoPageSize

/-- How `MC_CMD_GET_PHY_MEDIA_INFO` ends: `emr_rc`, `emr_out_length_used`, and the buffer with the response in it. -/
structure MediaInfo where
  rc : Option Errno
  outLengthUsed : ℕ
  payload : Bytes
  length_eq : payload.length = mediaInfoOutLen

/-- `memcpy(data, payload + p, len)` -/
def copyOut (payload : Bytes) (p len data : ℕ) : Prog Bytes Errno Unit := fun m =>
  if p + len ≤ payload.length ∧ data + len ≤ m.length then .ret () (splice m data (slice payload p len)) else .fault

/-- `EFSYS_ASSERT` -/
def mediaAssert (c : Prop) [Decidable c] : Prog Bytes Errno Unit := if c then pure () else stuck

/-- `efx_mcdi_get_phy_media_info`; `mc` is what the management controller makes of each page. -/
def efxMcdiGetPhyMediaInfo (mc : U32 → MediaInfo) (mcdiPage : U32) (offset len : BitVec 8) (data : ℕ) :
    Prog Bytes Errno Unit := do
  mediaAssert (offset.toNat + len.toNat ≤ mediaInfoPageSize)
  match (mc mcdiPage).rc with
  | some e => fail e
  | none =>
    ensure ((mc mcdiPage).outLengthUsed = mediaInfoOutLen) .EMSGSIZE
    ensure (u32 (mc mcdiPage).payload 0 = mediaInfoPageSize) Errno.EIO
    copyOut (mc mcdiPage).payload (4 + offset.toNat) len.toNat data

/-- `efx_phy_media_type_t` -/
inductive PhyMedia
  | invalid
  | xaui
  | cx4
  | kx4
  | xfp
  | sfpPlus
  | baseT
  | qsfpPlus
  deriving Repr, DecidableEq

/-- The switch over the type of the port and the device address: the lower and the upper page. -/
def mediaInfoPages : PhyMedia → BitVec 8 → Option (U32 × U32)
  | .sfpPlus, devAddr => if devAddr = 0xa0 then some (0, 1) else if devAddr = 0xa2 then some (2, 3) else none
  | .qsfpPlus, devAddr => if devAddr = 0xa0 then some (-1, 0) else none
  | _, _ => none

/-- What is left to read comes from the upper page. -/
def readUpper (mc : U32 → MediaInfo) (mcdiUpperPage : U32) (offset len : BitVec 8) (data : ℕ) :
    Prog Bytes Errno Unit :=
  when (0 < len) do
    mediaAssert (len.toNat ≤ mediaInfoPageSize)
    mediaAssert (offset.toNat < mediaInfoPageSize)
    efxMcdiGetPhyMediaInfo mc mcdiUpperPage offset len data

/-- `efx_mcdi_phy_module_get_info` -/
def efxMcdiPhyModuleGetInfo (mc : U32 → MediaInfo) (fixedPortType : PhyMedia) (devAddr offset len : BitVec 8)
    (data : ℕ) : Prog Bytes Errno Unit :=
  match mediaInfoPages fixedPortType devAddr with
  | none => fail .ENOTSUP
  | some (mcdiLowerPage, mcdiUpperPage) =>
    if offset.toNat < mediaInfoPageSize then do
      let readLen := BitVec.ofNat 8 (min len.toNat (mediaInfoPageSize - offset.toNat))
      efxMcdiGetPhyMediaInfo mc mcdiLowerPage offset readLen data
      readUpper mc mcdiUpperPage 0 (len - readLen) (data + readLen.toNat)
    else readUpper mc mcdiUpperPage (offset - BitVec.ofNat 8 mediaInfoPageSize) len data

/-- `efx_phy_module_get_info` -/
def efxPhyModuleGetInfo (mc : U32 → MediaInfo) (fixedPortType : PhyMedia) (devAddr offset len : BitVec 8) (data : ℕ) :
    Prog Bytes Errno Unit := do
  ensure (¬ offset.toNat + len.toNat > 0xff) .EINVAL
  efxMcdiPhyModuleGetInfo mc fixedPortType devAddr offset len data

/-! ### A page that is read -/

/-- A page of a module. -/
abbrev Page := Vector UInt8 128

/-- The response that carries a page. -/
def MediaInfo.ofPage (page : Page) : MediaInfo where
  rc := none
  outLengthUsed := mediaInfoOutLen
  payload := le 4 mediaInfoPageSize ++ page.toList
  length_eq := by
    rw [List.length_append, length_le, Vector.length_toList]
    rfl

variable {mc : U32 → MediaInfo} {m : Bytes} {data : ℕ}

theorem mediaAssert_pos {c : Prop} [Decidable c] (h : c) : mediaAssert c m = .ret () m := by
  rw [mediaAssert, if_pos h, pure_apply]

theorem u32_ofPage (page : Page) : u32 (MediaInfo.ofPage page).payload 0 = mediaInfoPageSize := by
  have hat : At (MediaInfo.ofPage page).payload 0 (le 4 mediaInfoPageSize) := List.prefix_append _ _
  rw [hat.u32_eq]
  rfl

/-- **A part of a page** goes to the buffer. -/
theorem efxMcdiGetPhyMediaInfo_ofPage {mcdiPage : U32} {page : Page} (hmc : mc mcdiPage = .ofPage page)
    {offset len : BitVec 8} (h : offset.toNat + len.toNat ≤ mediaInfoPageSize) (hbuf : data + len.toNat ≤ m.length) :
    efxMcdiGetPhyMediaInfo mc mcdiPage offset len data m =
      .ret () (splice m data (slice page.toList offset.toNat len.toNat)) := by
  have hin : 4 + offset.toNat + len.toNat ≤ (MediaInfo.ofPage page).payload.length := by
    rw [(MediaInfo.ofPage page).length_eq, mediaInfoOutLen]
    omega
  have hslice : slice (MediaInfo.ofPage page).payload (4 + offset.toNat) len.toNat =
      slice page.toList offset.toNat len.toNat := by
    have hdrop : (MediaInfo.ofPage page).payload.drop 4 = page.toList := List.drop_left' (length_le 4 _)
    rw [slice, ← List.drop_drop, hdrop, slice]
  rw [efxMcdiGetPhyMediaInfo, bind_of_ret (mediaAssert_pos h), hmc]
  have hrc : (MediaInfo.ofPage page).rc = none := rfl
  have hused : (MediaInfo.ofPage page).outLengthUsed = mediaInfoOutLen := rfl
  rw [hrc]
  dsimp only
  rw [bind_of_ret (ensure_pos hused), bind_of_ret (ensure_pos (u32_ofPage page)), copyOut, if_pos ⟨hin, hbuf⟩, hslice]

theorem readUpper_ofPage {mcdiPage : U32} {page : Page} (hmc : mc mcdiPage = .ofPage page) {offset len : BitVec 8}
    (h : offset.toNat + len.toNat ≤ mediaInfoPageSize) (hbuf : data + len.toNat ≤ m.length) :
    readUpper mc mcdiPage offset len data m =
      .ret () (splice m data (slice page.toList offset.toNat len.toNat)) := by
  unfold readUpper
  by_cases hpos : 0 < len
  · have hlt : 0 < len.toNat := BitVec.lt_def.mp hpos
    rw [when_pos hpos, bind_of_ret (mediaAssert_pos (by omega)), bind_of_ret (mediaAssert_pos (by omega))]
    exact efxMcdiGetPhyMediaInfo_ofPage hmc h hbuf
  · have h0 : len.toNat = 0 := by
      have := mt BitVec.lt_def.mpr hpos
      simpa using this
    rw [when_neg hpos, h0, slice_zero, splice_nil, pure_apply]

/-! ### The two pages -/

/-- The management controller hands out the two pages of the module. -/
structure Module (mc : U32 → MediaInfo) (fixedPortType : PhyMedia) (devAddr : BitVec 8) where
  lower : Page
  upper : Page
  lowerPage : U32
  upperPage : U32
  pages : mediaInfoPages fixedPortType devAddr = some (lowerPage, upperPage)
  ofLower : mc lowerPage = .ofPage lower
  ofUpper : mc upperPage = .ofPage upper

variable {fixedPortType : PhyMedia} {devAddr : BitVec 8}

/-- The 256 bytes of the module. -/
def Module.bytes (x : Module mc fixedPortType devAddr) : Bytes := x.lower.toList ++ x.upper.toList

theorem Module.length_bytes (x : Module mc fixedPortType devAddr) : x.bytes.length = 2 * mediaInfoPageSize := by
  rw [bytes, List.length_append, Vector.length_toList, Vector.length_toList]
  rfl

theorem Module.slice_lower (x : Module mc fixedPortType devAddr) {p n : ℕ} (h : p + n ≤ mediaInfoPageSize) :
    slice x.bytes p n = slice x.lower.toList p n := by
  have hlen : x.lower.toList.length = mediaInfoPageSize := Vector.length_toList
  rw [slice, bytes, List.drop_append_of_le_length (by omega), List.take_append_of_le_length, slice]
  rw [List.length_drop]
  omega

theorem Module.slice_upper (x : Module mc fixedPortType devAddr) (p n : ℕ) :
    slice x.bytes (mediaInfoPageSize + p) n = slice x.upper.toList p n := by
  have hlen : x.lower.toList.length = mediaInfoPageSize := Vector.length_toList
  rw [slice, bytes, ← List.drop_drop, ← hlen, List.drop_left, slice]

/-- **The split at the page boundary**: what is left when a part was read from the lower page starts the upper one. -/
theorem Module.slice_split (x : Module mc fixedPortType devAddr) {p k n : ℕ} (hk : k ≤ n)
    (hlow : p + k ≤ mediaInfoPageSize) (hup : k < n → p + k = mediaInfoPageSize) :
    slice x.bytes p n = slice x.lower.toList p k ++ slice x.upper.toList 0 (n - k) := by
  have hn : n = k + (n - k) := (Nat.add_sub_cancel' hk).symm
  have hmid : slice x.bytes (p + k) (n - k) = slice x.upper.toList 0 (n - k) := by
    rcases Nat.eq_zero_or_pos (n - k) with h0 | hpos
    · rw [h0, slice_zero, slice_zero]
    · rw [hup (by omega), ← x.slice_upper, Nat.add_zero]
  conv_lhs => rw [hn]
  rw [slice_append, x.slice_lower hlow, hmid]

/-- **A range of the module's bytes** goes to the buffer. -/
theorem efxMcdiPhyModuleGetInfo_ofModule (x : Module mc fixedPortType devAddr) {offset len : BitVec 8}
    (h : offset.toNat + len.toNat ≤ 2 * mediaInfoPageSize) (hbuf : data + len.toNat ≤ m.length) :
    efxMcdiPhyModuleGetInfo mc fixedPortType devAddr offset len data m =
      .ret () (splice m data (slice x.bytes offset.toNat len.toNat)) := by
  rw [efxMcdiPhyModuleGetInfo, x.pages]
  dsimp only
  split_ifs with hoff
  · set n := min len.toNat (mediaInfoPageSize - offset.toNat) with hn
    have hlt := len.isLt
    have hread : (BitVec.ofNat 8 n).toNat = n := by
      rw [BitVec.toNat_ofNat]
      omega
    have hrest : (len - BitVec.ofNat 8 n).toNat = len.toNat - n := by
      rw [BitVec.toNat_sub, hread]
      omega
    have hlow : offset.toNat + n ≤ mediaInfoPageSize := by omega
    have hfirst : (slice x.lower.toList offset.toNat n).length = n :=
      length_slice (by rw [Vector.length_toList]; exact hlow)
    have hget : efxMcdiGetPhyMediaInfo mc x.lowerPage offset (BitVec.ofNat 8 n) data m =
        .ret () (splice m data (slice x.lower.toList offset.toNat n)) := by
      rw [efxMcdiGetPhyMediaInfo_ofPage x.ofLower (by rw [hread]; exact hlow) (by omega), hread]
    have hlen : (splice m data (slice x.lower.toList offset.toNat n)).length = m.length :=
      length_splice (by omega)
    have hsecond : (slice x.upper.toList 0 (len.toNat - n)).length = len.toNat - n :=
      length_slice (by rw [Vector.length_toList]; unfold mediaInfoPageSize at hn h; omega)
    have happend : splice (splice m data (slice x.lower.toList offset.toNat n))
        (data + (slice x.lower.toList offset.toNat n).length) (slice x.upper.toList 0 (len.toNat - n)) =
          splice m data (slice x.lower.toList offset.toNat n ++ slice x.upper.toList 0 (len.toNat - n)) :=
      splice_splice_append (by omega)
    rw [hfirst] at happend
    have hzero : BitVec.toNat (0 : BitVec 8) = 0 := rfl
    rw [bind_of_ret hget, hread, readUpper_ofPage x.ofUpper (by rw [hrest, hzero]; omega)
      (by rw [hrest]; omega), hrest, hzero, happend, x.slice_split (by omega) hlow (by omega)]
  · have hsub : (offset - BitVec.ofNat 8 mediaInfoPageSize).toNat = offset.toNat - mediaInfoPageSize := by
      have hlt := offset.isLt
      have h8 : (BitVec.ofNat 8 mediaInfoPageSize).toNat = mediaInfoPageSize := rfl
      rw [BitVec.toNat_sub, h8]
      unfold mediaInfoPageSize at hoff ⊢
      omega
    rw [readUpper_ofPage x.ofUpper (by rw [hsub]; omega) hbuf, hsub, ← x.slice_upper,
      Nat.add_sub_cancel' (Nat.not_lt.mp hoff)]

/-- What a read of the module should do: a range inside the two pages goes to the buffer, and nothing else is written;
other ranges are turned down. -/
def ReadsRange (x : Module mc fixedPortType devAddr) (offset len : BitVec 8) (data : ℕ) (m : Bytes) : Prop :=
  efxPhyModuleGetInfo mc fixedPortType devAddr offset len data m =
    if offset.toNat + len.toNat ≤ 256 then .ret () (splice m data (slice x.bytes offset.toNat len.toNat))
    else .err .EINVAL m

/-- **Only the range's end at the last byte is wrong**: a range that ends with the two pages is turned down. -/
theorem readsRange_iff (x : Module mc fixedPortType devAddr) (offset len : BitVec 8) (data : ℕ) (m : Bytes)
    (hbuf : data + len.toNat ≤ m.length) :
    ReadsRange x offset len data m ↔ offset.toNat + len.toNat ≠ 256 := by
  unfold ReadsRange efxPhyModuleGetInfo
  by_cases hin : offset.toNat + len.toNat > 0xff
  · rw [bind_of_err (ensure_neg (not_not_intro hin))]
    split_ifs with h256
    · exact iff_of_false nofun fun hne => hne (by omega)
    · exact iff_of_true rfl (by omega)
  · rw [bind_of_ret (ensure_pos hin), if_pos (by omega),
      efxMcdiPhyModuleGetInfo_ofModule x (by unfold mediaInfoPageSize; omega) hbuf]
    exact iff_of_true rfl (by omega)

/-- An SFP+ module whose base information has bytes of two values. -/
def sfpBase : Module (fun page => .ofPage (Vector.replicate 128 (if page = 0 then 1 else 2))) .sfpPlus 0xa0 where
  lower := Vector.replicate 128 1
  upper := Vector.replicate 128 2
  lowerPage := 0
  upperPage := 1
  pages := rfl
  ofLower := rfl
  ofUpper := rfl

/-- Four bytes over the page boundary. -/
theorem readsRange_straddle :
    ReadsRange sfpBase 126 4 1 (List.replicate 6 0) :=
  (readsRange_iff sfpBase 126 4 1 (List.replicate 6 0) (by decide)).mpr (by decide)

/-- The last byte of the upper page cannot be read. -/
theorem last_byte_refused :
    ¬ ∀ (mc : U32 → MediaInfo) (fixedPortType : PhyMedia) (devAddr : BitVec 8) (x : Module mc fixedPortType devAddr)
      (offset len : BitVec 8) (data : ℕ) (m : Bytes), data + len.toNat ≤ m.length → ReadsRange x offset len data m := by
  intro h
  have hr := h _ _ _ sfpBase 255 1 0 [0] (by decide)
  have hrefused : efxPhyModuleGetInfo (fun page => .ofPage (Vector.replicate 128 (if page = 0 then 1 else 2)))
      .sfpPlus 0xa0 255 1 0 [0] = .err .EINVAL [0] := rfl
  rw [ReadsRange, hrefused, if_pos (by decide)] at hr
  cases hr

end Sfxge.Mcdi
