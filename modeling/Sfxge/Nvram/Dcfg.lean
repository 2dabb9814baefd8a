import Mathlib.Logic.Function.Basic
import Sfxge.Vpd.Tags

/-!
# Nvram.Dcfg — the dynamic configuration sector

`siena_nvram_get_dynamic_cfg`, `siena_nvram_partn_set_version`, `siena_vpd_read` and `siena_vpd_write`.
The sector holds a header of 20 bytes with a version vector behind it, and the VPD somewhere.  The NVRAM
commands succeed; a chunked read or write is one range.
-/

namespace Sfxge.Nvram

open Lib Vpd

/-- `SIENA_NVRAM_CHUNK` -/
def chunk : ℕ := 128

/-- `SIENA_MC_DYNAMIC_CONFIG_MAGIC` -/
def dcfgMagic : ℕ := 0xBDCFDDDD

/-- `SIENA_DYNAMIC_CFG_SIZE` -/
def dynamicCfgSize (nitems : ℕ) : ℕ := 20 + 12 * nitems

/-- The sector of flash.  `written` is a ghost: how many bytes were written since it was erased. -/
structure Sector where
  bytes : Bytes
  written : ℕ
  chunk_le : chunk ≤ bytes.length
  lt : bytes.length < 2147483648

namespace Sector

variable (s : Sector)

/-- `siena_nvram_partn_size` -/
def size : ℕ := s.bytes.length

/-- A zeroed buffer of the sector's size with the first `k` bytes read into it. -/
def readTo (k : ℕ) : Bytes := s.bytes.take k ++ List.replicate (s.size - k) 0

/-- `siena_nvram_partn_erase` of the sector, then `siena_nvram_partn_write` of the first `n` bytes. -/
def rewrite (dcfg : Bytes) (n : ℕ) : Sector where
  bytes := (dcfg.take n ++ List.replicate s.size 0xff).take s.size
  written := n
  chunk_le := by
    have := s.chunk_le
    simp only [List.length_take, List.length_append, List.length_replicate, size]
    omega
  lt := by
    have := s.lt
    simp only [List.length_take, List.length_append, List.length_replicate, size]
    omega

end Sector

/-! ### The header -/

def magicOf (dcfg : Bytes) : ℕ := u32 dcfg 0

def hdrLength (dcfg : Bytes) : ℕ := u16 dcfg 4

def vpdOffset (dcfg : Bytes) : ℕ := u32 dcfg 8

def vpdLength (dcfg : Bytes) : ℕ := u32 dcfg 12

def nversions (dcfg : Bytes) : ℕ := u32 dcfg 16

/-- `siena_mc_fw_version_t` -/
structure FwVersion where
  fwSubtype : UInt32
  versionW : UInt16
  versionX : UInt16
  versionY : UInt16
  versionZ : UInt16
  deriving Repr, DecidableEq

def FwVersion.toBytes (v : FwVersion) : Bytes :=
  le 4 v.fwSubtype.toNat ++ le 2 v.versionW.toNat ++ le 2 v.versionX.toNat ++ le 2 v.versionY.toNat ++
    le 2 v.versionZ.toNat

def FwVersion.ofBytes (bs : Bytes) : FwVersion :=
  ⟨.ofNat (u32 bs 0), .ofNat (u16 bs 4), .ofNat (u16 bs 6), .ofNat (u16 bs 8), .ofNat (u16 bs 10)⟩

/-- The magic is there, the header and the VPD fit in the sector, and the versions in the header. -/
def WellFormed (size : ℕ) (dcfg : Bytes) : Prop :=
  magicOf dcfg = dcfgMagic ∧
    ¬ (hdrLength dcfg > size ∨ vpdOffset dcfg > size ∨ vpdLength dcfg > size ∨
      (vpdLength dcfg + vpdOffset dcfg) % 4294967296 > size) ∧
    ¬ (hdrLength dcfg < dynamicCfgSize 0 ∨ hdrLength dcfg < dynamicCfgSize (nversions dcfg))

instance (size : ℕ) (dcfg : Bytes) : Decidable (WellFormed size dcfg) :=
  inferInstanceAs (Decidable (_ ∧ _))

/-- A "null" dcfg, with an empty version vector and an empty VPD chunk trailing. -/
def nullDcfg (dcfg : Bytes) : Bytes :=
  let dcfg := splice dcfg 0 (le 4 dcfgMagic)
  let dcfg := splice dcfg 4 (le 2 (dynamicCfgSize 0))
  let dcfg := splice dcfg 6 (le 1 0)
  let dcfg := splice dcfg 8 (le 4 (dynamicCfgSize 0))
  let dcfg := splice dcfg 12 (le 4 0)
  splice dcfg 16 (le 4 0)

namespace Sector

variable (s : Sector)

/-- What has to be read: the header, or all up to the end of the VPD. -/
def region (vpd : Bool) (dcfg : Bytes) : ℕ :=
  if vpd then (vpdOffset dcfg + vpdLength dcfg) % 4294967296 else hdrLength dcfg

/-- The buffer when the remaining portion has been read. -/
def remaining (vpd : Bool) : Bytes :=
  let dcfg := s.readTo chunk
  if region vpd dcfg > chunk then s.readTo (region vpd dcfg) else dcfg

/-- `siena_nvram_get_dynamic_cfg` takes the sector as valid. -/
def Accepts (vpd : Bool) : Prop :=
  WellFormed s.size (s.readTo chunk) ∧ bsum (s.remaining vpd) 0 (hdrLength (s.readTo chunk)) % 256 = 0

instance (vpd : Bool) : Decidable (s.Accepts vpd) := inferInstanceAs (Decidable (_ ∧ _))

/-- `siena_nvram_get_dynamic_cfg` -/
def getDynamicCfg (vpd : Bool) : Bytes :=
  let dcfg := s.readTo chunk
  if ¬ WellFormed s.size dcfg then nullDcfg dcfg
  else if ¬ bsum (s.remaining vpd) 0 (hdrLength dcfg) % 256 = 0 then nullDcfg (s.remaining vpd)
  else s.remaining vpd

end Sector

/-- `dcfg->csum.eb_u8[0] -= cksum` -/
def putCksum (dcfg : Bytes) : Bytes :=
  dcfg.set 7 (dcfg.getD 7 0 - UInt8.ofNat (bsum dcfg 0 (hdrLength dcfg)))

/-! ### Setting a version -/

/-- The VPD makes room for the header. -/
def moveVpd (required : ℕ) (dcfg : Bytes) : Bytes :=
  if vpdOffset dcfg < required then
    splice (splice dcfg required (slice dcfg (vpdOffset dcfg) (vpdLength dcfg))) 8 (le 4 required)
  else dcfg

/-- The header grows, with zeros in it. -/
def growHdr (required : ℕ) (dcfg : Bytes) : Bytes :=
  if hdrLength dcfg < required then
    splice (splice dcfg (hdrLength dcfg) (List.replicate (required - hdrLength dcfg) 0)) 4 (le 2 required)
  else dcfg

/-- The new version is filled in and counted. -/
def fillVersion (partn : ℕ) (fwver : FwVersion) (dcfg : Bytes) : Bytes :=
  let dcfg := splice dcfg (dynamicCfgSize partn) fwver.toBytes
  if nversions dcfg < partn + 1 then splice dcfg 16 (le 4 (partn + 1)) else dcfg

/-- The updates of `siena_nvram_partn_set_version` in their order. -/
def versionUpdate (partn : ℕ) (fwver : FwVersion) (dcfg : Bytes) : Bytes :=
  let required := dynamicCfgSize (partn + 1)
  putCksum (fillVersion partn fwver (growHdr required (moveVpd required dcfg)))

/-- The words given to `siena_nvram_partn_set_version`. -/
structure Version where
  w : UInt16
  x : UInt16
  y : UInt16
  z : UInt16
  deriving Repr, DecidableEq

/-- The board's list of subtypes, at most as long as the response of `MC_CMD_GET_BOARD_CFG` has room for. -/
structure Board where
  fwSubtypeList : List UInt16
  length_le : fwSubtypeList.length ≤ 32

/-- `siena_nvram_get_subtype` -/
def getSubtype (board : Board) (partn : ℕ) : Except Errno UInt32 :=
  match board.fwSubtypeList[partn]? with
  | none => .error .ENOENT
  | some subtype => .ok subtype.toUInt32

/-- The version as it is stored. -/
def Version.item (version : Version) (subtype : UInt32) : FwVersion :=
  ⟨subtype, version.w, version.x, version.y, version.z⟩

/-- `siena_nvram_partn_set_version` -/
def sienaNvramPartnSetVersion (board : Board) (partn : ℕ) (version : Version) (s : Sector) :
    Except Errno Sector :=
  let dcfg := s.getDynamicCfg true
  if dynamicCfgSize (partn + 1) + vpdLength dcfg > s.size then .error .ENOSPC
  else match getSubtype board partn with
    | .error e => .error e
    | .ok subtype =>
      let dcfg := versionUpdate partn (version.item subtype) dcfg
      .ok (s.rewrite dcfg (vpdOffset dcfg + vpdLength dcfg))

/-! ### The VPD -/

/-- `siena_vpd_read` -/
def sienaVpdRead (s : Sector) (size : ℕ) : Except Errno Bytes :=
  let dcfg := s.getDynamicCfg true
  if vpdLength dcfg > size then .error .EFAULT
  else .ok (slice dcfg (vpdOffset dcfg) (vpdLength dcfg) ++ List.replicate (size - vpdLength dcfg) 0xff)

/-- The updates of `siena_vpd_write` in their order: `len` bytes of VPD go to the end of the sector. -/
def vpdUpdate (data : Bytes) (len : ℕ) (dcfg : Bytes) : Bytes :=
  let offset := dcfg.length - len
  let dcfg := splice dcfg 8 (le 4 offset)
  let dcfg := splice dcfg offset (data.take len)
  let dcfg := splice dcfg 12 (le 4 len)
  putCksum dcfg

/-- `siena_vpd_write` -/
def sienaVpdWrite (data : Bytes) (s : Sector) : Except Errno Sector :=
  match efxVpdHunkLength data with
  | .error e => .error e
  | .ok len =>
    let dcfg := s.getDynamicCfg false
    if hdrLength dcfg + len > s.size then .error .ENOSPC
    else .ok (s.rewrite (vpdUpdate data len dcfg) (s.size - len + len))

/-! ### Calls -/

/-- The calls that rewrite the sector. -/
inductive Call
  | setVersion (partn : ℕ) (version : Version)
  | vpdWrite (data : Bytes)
  deriving Repr, DecidableEq

/-- The sector after a successful call on a board with the given subtypes. -/
def step (board : Board) : Call → Sector → Option Sector
  | .setVersion partn version, s => (sienaNvramPartnSetVersion board partn version s).toOption
  | .vpdWrite data, s => (sienaVpdWrite data s).toOption

/-! ### What the sector is for -/

/-- A firmware version for each partition, and the VPD. -/
structure Config where
  version : ℕ → FwVersion
  vpd : Bytes

/-- The version of a partition without an item. -/
def FwVersion.none : FwVersion := ⟨0, 0, 0, 0, 0⟩

/-- What a call is to do: it sets one version, or the VPD up to its end tag. -/
def Config.after (board : Board) : Call → Config → Config
  | .setVersion partn version, c =>
    { c with version := Function.update c.version partn (version.item (board.fwSubtypeList.getD partn 0).toUInt32) }
  | .vpdWrite data, c => { c with vpd := data.take ((efxVpdHunkLength data).toOption.getD 0) }

/-- The item of a partition in the version vector. -/
def itemAt (dcfg : Bytes) (partn : ℕ) : FwVersion :=
  if partn < nversions dcfg then .ofBytes (slice dcfg (dynamicCfgSize partn) 12) else .none

/-- What the sector is decoded to: the versions from the structure read without the VPD, as
`siena_nvram_partn_get_version` does, the VPD as `siena_vpd_read` does. -/
def Sector.config (s : Sector) : Config where
  version := itemAt (s.getDynamicCfg false)
  vpd := slice (s.getDynamicCfg true) (vpdOffset (s.getDynamicCfg true)) (vpdLength (s.getDynamicCfg true))

end Sfxge.Nvram
