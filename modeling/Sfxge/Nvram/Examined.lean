import Sfxge.Nvram.Rewrite

/-!
# Nvram.Examined — whether a configuration sector is examined as it is in flash

`siena_vpd_get_static` and `siena_nvram_get_dynamic_cfg` read the first chunk and then up to the end of the VPD, or of the
header where the VPD is not asked for.  They sum up the header, whether or not it has been read.
-/

namespace Sfxge.Nvram

open Lib

/-- `SIENA_MC_STATIC_CONFIG_MAGIC` -/
def scfgMagic : ℕ := 0xBDCF5555

/-- A configuration partition, of any size that a word can tell. -/
structure ConfigPartn where
  flash : Bytes
  chunk_le : chunk ≤ flash.length
  lt : flash.length < 4294967296

namespace ConfigPartn

variable (p : ConfigPartn)

/-- The buffer after the first chunk has been read. -/
def firstChunk : Bytes := readInto p.flash chunk

/-- The buffer after `region` bytes have been read. -/
def readRegion (region : ℕ) : Bytes := if region > chunk then readInto p.flash region else p.firstChunk

/-- `siena_nvram_get_dynamic_cfg` accepts the stored configuration. -/
def Accepts (vpd : Bool) : Prop :=
  WellFormed p.flash.length p.firstChunk ∧
    bsum (p.readRegion (Sector.region vpd p.firstChunk)) 0 (hdrLength p.firstChunk) % 256 = 0

instance (vpd : Bool) : Decidable (p.Accepts vpd) := inferInstanceAs (Decidable (_ ∧ _))

/-- `siena_nvram_get_dynamic_cfg` -/
def getDynamicCfg (vpd : Bool) : Bytes :=
  let dcfg := p.firstChunk
  if ¬ WellFormed p.flash.length dcfg then nullDcfg dcfg
  else
    let dcfg' := p.readRegion (Sector.region vpd dcfg)
    if ¬ bsum dcfg' 0 (hdrLength dcfg) % 256 = 0 then nullDcfg dcfg' else dcfg'

/-- The header and the VPD fit in the sector. -/
def Fits (size : ℕ) (cfg : Bytes) : Prop :=
  ¬ (hdrLength cfg > size ∨ vpdOffset cfg > size ∨ vpdLength cfg > size ∨
    (vpdLength cfg + vpdOffset cfg) % 4294967296 > size)

instance (size : ℕ) (cfg : Bytes) : Decidable (Fits size cfg) := inferInstanceAs (Decidable (¬ _))

/-- `siena_vpd_get_static`, with the copy of the VPD; `NULL` is an empty one.  What the copy would take from behind the
buffer is not in it. -/
def sienaVpdGetStatic : Except Errno Bytes :=
  let scfg := p.firstChunk
  if magicOf scfg ≠ scfgMagic then .error .EINVAL
  else if ¬ Fits p.flash.length scfg then .error .EINVAL
  else
    let scfg' := p.readRegion (Sector.region true scfg)
    if ¬ bsum scfg' 0 (hdrLength scfg) % 256 = 0 then .error .EINVAL
    else .ok (slice scfg' (vpdOffset scfg) (vpdLength scfg))

end ConfigPartn

/-- A sector of the dynamic configuration is such a partition. -/
theorem getDynamicCfg_partn (s : Sector) (vpd : Bool) : s.getDynamicCfg vpd =
    ConfigPartn.getDynamicCfg ⟨s.bytes, s.chunk_le, s.lt.trans (by decide)⟩ vpd := rfl

namespace ConfigPartn

/-! ### What an accepted sector should be -/

/-- `n` bytes of the buffer at `o` are bytes of the flash. -/
def FromFlash (p : ConfigPartn) (buf : Bytes) (o n : ℕ) : Prop :=
  o + n ≤ p.flash.length ∧ slice buf o n = slice p.flash o n

/-- The header in flash sums to zero. -/
def SumsToZero (p : ConfigPartn) : Prop := bsum p.flash 0 (hdrLength p.flash) % 256 = 0

/-- What is accepted is what the flash holds: the header sums to zero, and each byte that the caller is given is that of
the flash. -/
structure Examines (p : ConfigPartn) : Prop where
  static : ∀ svpd, p.sienaVpdGetStatic = .ok svpd → p.SumsToZero ∧
    vpdOffset p.flash + vpdLength p.flash ≤ p.flash.length ∧ svpd = slice p.flash (vpdOffset p.flash) (vpdLength p.flash)
  dynamic : ∀ vpd, p.Accepts vpd → p.SumsToZero ∧
    p.FromFlash (p.getDynamicCfg vpd) 0 (hdrLength p.flash) ∧
    p.FromFlash (p.getDynamicCfg vpd) 20 (12 * nversions p.flash) ∧
    (vpd = true → p.FromFlash (p.getDynamicCfg vpd) (vpdOffset p.flash) (vpdLength p.flash))

/-! ### What is read of the flash -/

variable {p : ConfigPartn} {vpd : Bool}

/-- Up to where the flash is read with the VPD. -/
def readEnd (p : ConfigPartn) : ℕ := max chunk ((vpdOffset p.flash + vpdLength p.flash) % 4294967296)

/-- Where the sectors that are taken with their VPD are like the flash: nothing that was not read counts in the header,
and the end of the VPD is a number of 32 bits. -/
structure Covered (p : ConfigPartn) : Prop where
  static : magicOf p.flash = scfgMagic → Fits p.flash.length p.flash →
    bsum p.flash 0 (min (hdrLength p.flash) p.readEnd) % 256 = 0 →
    vpdOffset p.flash + vpdLength p.flash < 4294967296 ∧
      bsum p.flash p.readEnd (hdrLength p.flash - p.readEnd) % 256 = 0
  dynamic : WellFormed p.flash.length p.flash → bsum p.flash 0 (min (hdrLength p.flash) p.readEnd) % 256 = 0 →
    vpdOffset p.flash + vpdLength p.flash < 4294967296 ∧
      ∀ i, p.readEnd ≤ i → i < hdrLength p.flash → p.flash.getD i 0 = 0

theorem take_firstChunk : p.firstChunk.take 20 = p.flash.take 20 := take_readInto (by decide) p.chunk_le

theorem readRegion_eq (region : ℕ) : p.readRegion region = readInto p.flash (max chunk region) := by
  unfold readRegion
  split_ifs with h
  · rw [max_eq_right h.le]
  · rw [max_eq_left (Nat.le_of_not_lt h), firstChunk]

/-- The fields of the header are those in flash. -/
theorem firstChunk_fields : magicOf p.firstChunk = magicOf p.flash ∧ hdrLength p.firstChunk = hdrLength p.flash ∧
    vpdOffset p.firstChunk = vpdOffset p.flash ∧ vpdLength p.firstChunk = vpdLength p.flash ∧
    nversions p.firstChunk = nversions p.flash :=
  fields_of_take take_firstChunk

theorem readEnd_le (h : Fits p.flash.length p.flash) : p.readEnd ≤ p.flash.length := by
  unfold Fits at h
  have hc := p.chunk_le
  unfold readEnd
  rw [Nat.add_comm]
  omega

/-- The end of the VPD is inside exactly if it is a number of 32 bits. -/
theorem vpdEnd_le_iff (h : Fits p.flash.length p.flash) : vpdOffset p.flash + vpdLength p.flash ≤ p.flash.length ↔
    vpdOffset p.flash + vpdLength p.flash < 4294967296 := by
  unfold Fits at h
  have hlt := p.lt
  omega

theorem slice_read {k o n : ℕ} (hk : k ≤ p.flash.length) (h : o + n ≤ k) :
    slice (readInto p.flash k) o n = slice p.flash o n :=
  slice_of_take (take_readInto (le_refl k) hk) h

/-- A header of which not all has been read is that of the flash where the rest is zero. -/
theorem fromFlash_read_iff {k n : ℕ} (hk : k ≤ p.flash.length) (hn : n ≤ p.flash.length) :
    p.FromFlash (readInto p.flash k) 0 n ↔ ∀ i, k ≤ i → i < n → p.flash.getD i 0 = 0 := by
  have hiff : ∀ i, (readInto p.flash k).getD i 0 = p.flash.getD i 0 ↔ (k ≤ i → p.flash.getD i 0 = 0) := by
    intro i
    rw [getD_readInto hk]
    split_ifs with hi
    · exact iff_of_true rfl fun h => absurd hi (Nat.not_lt.mpr h)
    · exact ⟨fun h _ => h.symm, fun h => (h (Nat.le_of_not_lt hi)).symm⟩
  unfold FromFlash
  constructor
  · rintro ⟨-, h⟩ i hki hin
    have htake : (readInto p.flash k).take n = p.flash.take n := h
    exact (hiff i).mp (getD_of_take htake hin) hki
  · intro h
    refine ⟨by omega, slice_congr (by omega) ?_ fun i hi => ?_⟩
    · rw [length_readInto hk]
      omega
    · rw [Nat.zero_add]
      exact (hiff i).mpr fun hki => h i hki hi

/-- The sum of the header, over what is read and what is not. -/
theorem sum_split (p : ConfigPartn) (k : ℕ) : bsum p.flash 0 (hdrLength p.flash) =
    bsum p.flash 0 (min (hdrLength p.flash) k) + bsum p.flash k (hdrLength p.flash - k) := by
  rcases Nat.le_total (hdrLength p.flash) k with h | h
  · rw [min_eq_left h, Nat.sub_eq_zero_of_le h]
    rfl
  · have hadd := bsum_add p.flash 0 k (hdrLength p.flash - k)
    rw [Nat.zero_add, Nat.add_sub_cancel' h] at hadd
    rw [min_eq_right h, hadd]

theorem bsum_zero {m : Bytes} {o n : ℕ} (h : ∀ i < n, m.getD (o + i) 0 = 0) : bsum m o n = 0 := by
  induction n with
  | zero => rfl
  | succ n ih =>
    rw [bsum, ih fun i hi => h i (by omega), h n (by omega)]
    rfl

/-! ### The static sector -/

theorem getStatic_ok_iff {svpd : Bytes} : p.sienaVpdGetStatic = .ok svpd ↔
    magicOf p.flash = scfgMagic ∧ Fits p.flash.length p.flash ∧
      bsum p.flash 0 (min (hdrLength p.flash) p.readEnd) % 256 = 0 ∧
      slice (readInto p.flash p.readEnd) (vpdOffset p.flash) (vpdLength p.flash) = svpd := by
  obtain ⟨h1, h2, h3, h4, -⟩ := firstChunk_fields (p := p)
  have hregion : p.readRegion (Sector.region true p.firstChunk) = readInto p.flash p.readEnd := by
    rw [readRegion_eq, Sector.region, if_pos rfl, h3, h4, readEnd]
  have hfits : Fits p.flash.length p.firstChunk ↔ Fits p.flash.length p.flash := by
    unfold Fits
    rw [h2, h3, h4]
  unfold sienaVpdGetStatic
  dsimp only
  rw [hregion, h1, h2, h3, h4]
  by_cases hm : magicOf p.flash = scfgMagic
  swap
  · rw [if_pos hm]
    exact iff_of_false (by simp) fun h => hm h.1
  rw [if_neg (not_not.mpr hm)]
  by_cases hf : Fits p.flash.length p.flash
  swap
  · rw [if_pos (mt hfits.mp hf)]
    exact iff_of_false (by simp) fun h => hf h.2.1
  rw [if_neg (not_not.mpr (hfits.mpr hf)), bsum_readInto (readEnd_le hf)]
  by_cases hs : bsum p.flash 0 (min (hdrLength p.flash) p.readEnd) % 256 = 0
  · rw [if_neg (not_not.mpr hs)]
    exact ⟨fun h => ⟨hm, hf, hs, Except.ok.inj h⟩, fun h => congrArg _ h.2.2.2⟩
  · rw [if_pos hs]
    exact iff_of_false (by simp) fun h => hs h.2.2.1

/-! ### The dynamic sector -/

/-- Up to where the flash is read. -/
def readTo (p : ConfigPartn) (vpd : Bool) : ℕ := if vpd then p.readEnd else max chunk (hdrLength p.flash)

theorem readRegion_region : p.readRegion (Sector.region vpd p.firstChunk) = readInto p.flash (p.readTo vpd) := by
  obtain ⟨-, h2, h3, h4, -⟩ := firstChunk_fields (p := p)
  rw [readRegion_eq, Sector.region, h2, h3, h4, readTo, readEnd]
  cases vpd <;> rfl

theorem wellFormed_firstChunk : WellFormed p.flash.length p.firstChunk ↔ WellFormed p.flash.length p.flash :=
  wellFormed_of_take take_firstChunk

theorem readTo_le (h : WellFormed p.flash.length p.flash) : p.readTo vpd ≤ p.flash.length := by
  have hfits : Fits p.flash.length p.flash := h.2.1
  unfold readTo
  split_ifs
  · exact readEnd_le hfits
  · refine max_le p.chunk_le ?_
    unfold Fits at hfits
    omega

theorem accepts_iff : p.Accepts vpd ↔ WellFormed p.flash.length p.flash ∧
    bsum p.flash 0 (min (hdrLength p.flash) (p.readTo vpd)) % 256 = 0 := by
  unfold Accepts
  rw [readRegion_region, firstChunk_fields.2.1, wellFormed_firstChunk]
  refine and_congr_right fun h => ?_
  rw [bsum_readInto (readTo_le h)]

theorem getDynamicCfg_eq (h : p.Accepts vpd) : p.getDynamicCfg vpd = readInto p.flash (p.readTo vpd) := by
  unfold getDynamicCfg
  rw [if_neg (not_not.mpr h.1)]
  dsimp only
  rw [if_neg (not_not.mpr h.2), readRegion_region]

/-- What the caller of `siena_nvram_get_dynamic_cfg` is given is from the flash where the header is. -/
theorem dynamic_iff (h : p.Accepts vpd) :
    (p.SumsToZero ∧ p.FromFlash (p.getDynamicCfg vpd) 0 (hdrLength p.flash) ∧
      p.FromFlash (p.getDynamicCfg vpd) 20 (12 * nversions p.flash) ∧
      (vpd = true → p.FromFlash (p.getDynamicCfg vpd) (vpdOffset p.flash) (vpdLength p.flash))) ↔
    (vpd = true → vpdOffset p.flash + vpdLength p.flash < 4294967296) ∧
      ∀ i, p.readTo vpd ≤ i → i < hdrLength p.flash → p.flash.getD i 0 = 0 := by
  obtain ⟨hwf, hsum⟩ := accepts_iff.mp h
  have hfits : Fits p.flash.length p.flash := hwf.2.1
  have hk : p.readTo vpd ≤ p.flash.length := readTo_le hwf
  have hhdr : hdrLength p.flash ≤ p.flash.length := by
    unfold Fits at hfits
    omega
  rw [getDynamicCfg_eq h, fromFlash_read_iff hk hhdr]
  constructor
  · rintro ⟨-, h0, -, hvpd⟩
    exact ⟨fun hv => (vpdEnd_le_iff hfits).mp (hvpd hv).1, h0⟩
  · rintro ⟨hend, h0⟩
    have hrest : bsum p.flash (p.readTo vpd) (hdrLength p.flash - p.readTo vpd) = 0 :=
      bsum_zero fun i hi => h0 _ (Nat.le_add_right _ _) (by omega)
    refine ⟨?_, h0, ?_, fun hv => ?_⟩
    · rw [SumsToZero, sum_split p (p.readTo vpd), hrest]
      exact hsum
    · have hversions : 20 + 12 * nversions p.flash ≤ hdrLength p.flash := by
        have h3 := hwf.2.2
        unfold dynamicCfgSize at h3
        omega
      have hall := ((fromFlash_read_iff hk hhdr).mpr h0).2
      refine ⟨by omega, slice_of_take (k := hdrLength p.flash) ?_ hversions⟩
      exact hall
    · have hle := (vpdEnd_le_iff hfits).mpr (hend hv)
      refine ⟨hle, slice_read hk ?_⟩
      rw [readTo, if_pos hv, readEnd, Nat.mod_eq_of_lt (hend hv)]
      exact le_max_right _ _

/-- **Configuration sectors.**  What is accepted is what the flash holds exactly if the part of the header that is not
read counts for nothing and the end of the VPD is a number of 32 bits. -/
theorem examines_iff (p : ConfigPartn) : p.Examines ↔ p.Covered := by
  constructor
  · intro h
    refine ⟨fun hm hf hs => ?_, fun hwf hs => ?_⟩
    · obtain ⟨hz, hle, -⟩ := h.static _ (getStatic_ok_iff.mpr ⟨hm, hf, hs, rfl⟩)
      refine ⟨(vpdEnd_le_iff hf).mp hle, ?_⟩
      rw [SumsToZero, sum_split p p.readEnd] at hz
      omega
    · have ha : p.Accepts true := accepts_iff.mpr ⟨hwf, hs⟩
      obtain ⟨hend, h0⟩ := (dynamic_iff ha).mp (h.dynamic true ha)
      exact ⟨hend rfl, h0⟩
  · intro h
    refine ⟨fun svpd hok => ?_, fun vpd ha => (dynamic_iff ha).mpr ?_⟩
    · obtain ⟨hm, hf, hs, hsvpd⟩ := getStatic_ok_iff.mp hok
      obtain ⟨hend, hrest⟩ := h.static hm hf hs
      refine ⟨?_, (vpdEnd_le_iff hf).mpr hend, ?_⟩
      · rw [SumsToZero, sum_split p p.readEnd]
        omega
      · rw [← hsvpd]
        refine slice_read (readEnd_le hf) ?_
        rw [readEnd, Nat.mod_eq_of_lt hend]
        exact le_max_right _ _
    · obtain ⟨hwf, hs⟩ := accepts_iff.mp ha
      cases vpd with
      | false =>
        refine ⟨nofun, fun i hi hlt => ?_⟩
        have hle : hdrLength p.flash ≤ p.readTo false := le_max_right _ _
        omega
      | true =>
        obtain ⟨hend, h0⟩ := h.dynamic hwf hs
        exact ⟨fun _ => hend, h0⟩

/-- A sector of 256 bytes with a header of 200 bytes, of which the last is 1, and no VPD. -/
def unread (magic : ℕ) (csum : UInt8) : Bytes :=
  le 4 magic ++ [200, 0, 0, csum] ++ le 4 20 ++ le 4 0 ++ List.replicate 183 0 ++ [1] ++ List.replicate 56 0

/-- The header is accepted although its sum in flash is not zero. -/
theorem unread_accepted :
    (∃ p : ConfigPartn, (∃ svpd, p.sienaVpdGetStatic = .ok svpd) ∧ ¬ p.SumsToZero) ∧
    (∃ p : ConfigPartn, p.Accepts true ∧ ¬ p.SumsToZero ∧
      ¬ p.FromFlash (p.getDynamicCfg true) 0 (hdrLength p.flash)) := by
  have haccepts : Accepts ⟨unread dcfgMagic 222, by decide +kernel, by decide +kernel⟩ true := by
    rw [accepts_iff, bsum_eq_sum]
    decide +kernel
  refine ⟨⟨⟨unread scfgMagic 238, by decide +kernel, by decide +kernel⟩, ⟨[], ?_⟩, ?_⟩, ⟨_, haccepts, ?_, fun h => ?_⟩⟩
  · rw [getStatic_ok_iff, bsum_eq_sum]
    decide +kernel
  · rw [SumsToZero, bsum_eq_sum]
    decide +kernel
  · rw [SumsToZero, bsum_eq_sum]
    decide +kernel
  · have hflash := h.2
    rw [getDynamicCfg_eq haccepts] at hflash
    exact absurd hflash (by decide +kernel)

end ConfigPartn

end Sfxge.Nvram
