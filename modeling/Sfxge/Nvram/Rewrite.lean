import Mathlib.Tactic.Ring
import Sfxge.Nvram.Dcfg

/-!
# Nvram.Rewrite — rewriting the dynamic configuration sector

A sector is read into a buffer, the buffer is updated, the sector is erased and the buffer written back up
to the end of the VPD.  `Plausible` is what the reader promises of its buffer, `Complete` what a buffer needs
so that the sector written from it is accepted and decodes to the same; the updates lead from the one to the
other, for a version when the layout of the sector leaves room for it (`Roomy`).
-/

namespace Sfxge.Nvram

open Lib Vpd

variable {s : Sector} {dcfg dcfg' : Bytes}

/-! ### Reading the sector -/

theorem Sector.size_lt (s : Sector) : s.size < 2147483648 := s.lt

theorem Sector.chunk_le_size (s : Sector) : 128 ≤ s.size := s.chunk_le

theorem length_readTo {k : ℕ} (hk : k ≤ s.size) : (s.readTo k).length = s.size := length_readInto hk

theorem getD_readTo {k i : ℕ} (hk : k ≤ s.size) :
    (s.readTo k).getD i 0 = if i < k then s.bytes.getD i 0 else 0 :=
  getD_readInto hk i

theorem take_readTo {k j : ℕ} (hj : j ≤ k) (hk : k ≤ s.size) : (s.readTo k).take j = s.bytes.take j :=
  take_readInto hj hk

/-- The fields of the header lie in its first 20 bytes. -/
theorem fields_of_take (h : dcfg'.take 20 = dcfg.take 20) :
    magicOf dcfg' = magicOf dcfg ∧ hdrLength dcfg' = hdrLength dcfg ∧ vpdOffset dcfg' = vpdOffset dcfg ∧
      vpdLength dcfg' = vpdLength dcfg ∧ nversions dcfg' = nversions dcfg :=
  ⟨u32_of_take h (by omega), u16_of_take h (by omega), u32_of_take h (by omega), u32_of_take h (by omega),
    u32_of_take h (by omega)⟩

theorem wellFormed_of_take {size : ℕ} (h : dcfg'.take 20 = dcfg.take 20) :
    WellFormed size dcfg' ↔ WellFormed size dcfg := by
  obtain ⟨h1, h2, h3, h4, h5⟩ := fields_of_take h
  rw [WellFormed, WellFormed, h1, h2, h3, h4, h5]

theorem region_of_take {vpd : Bool} (h : dcfg'.take 20 = dcfg.take 20) :
    Sector.region vpd dcfg' = Sector.region vpd dcfg := by
  obtain ⟨-, h2, h3, h4, -⟩ := fields_of_take h
  rw [Sector.region, Sector.region, h2, h3, h4]

/-- What the reader promises of its buffer. -/
structure Plausible (size : ℕ) (dcfg : Bytes) : Prop where
  length_eq : dcfg.length = size
  magic : magicOf dcfg = dcfgMagic
  hdr_le : hdrLength dcfg ≤ size
  end_le : vpdOffset dcfg + vpdLength dcfg ≤ size
  versions_le : dynamicCfgSize (nversions dcfg) ≤ hdrLength dcfg

theorem Plausible.twenty_le {size : ℕ} (h : Plausible size dcfg) : 20 ≤ hdrLength dcfg := by
  have := h.versions_le
  unfold dynamicCfgSize at this
  omega

theorem plausible_of_wellFormed {size : ℕ} (hsize : size < 2147483648) (hl : dcfg.length = size)
    (h : WellFormed size dcfg) : Plausible size dcfg := by
  obtain ⟨hmagic, hfit, hversions⟩ := h
  exact ⟨hl, hmagic, by omega, by omega, by omega⟩

theorem region_le {vpd : Bool} (h : Plausible s.size dcfg) : Sector.region vpd dcfg ≤ s.size := by
  have := h.hdr_le
  have := h.end_le
  unfold Sector.region
  split_ifs
  · exact le_trans (Nat.mod_le _ _) ‹_›
  · assumption

theorem region_vpd (h : Plausible s.size dcfg) : Sector.region true dcfg = vpdOffset dcfg + vpdLength dcfg := by
  have := h.end_le
  have := s.size_lt
  rw [Sector.region, if_pos rfl, Nat.mod_eq_of_lt (by omega)]

theorem remaining_eq (vpd : Bool) :
    s.remaining vpd = s.readTo (max chunk (Sector.region vpd (s.readTo chunk))) := by
  unfold Sector.remaining
  dsimp only
  split_ifs with h
  · rw [max_eq_right h.le]
  · rw [max_eq_left (by omega)]

theorem plausible_readTo {k : ℕ} (hk : 20 ≤ k) (hks : k ≤ s.size) (h : WellFormed s.size (s.readTo chunk)) :
    Plausible s.size (s.readTo k) := by
  refine plausible_of_wellFormed s.size_lt (length_readTo hks) ((wellFormed_of_take ?_).mpr h)
  rw [take_readTo hk hks, take_readTo (show 20 ≤ chunk by decide) s.chunk_le_size]

theorem max_region_le {vpd : Bool} (h : WellFormed s.size (s.readTo chunk)) :
    max chunk (Sector.region vpd (s.readTo chunk)) ≤ s.size :=
  max_le s.chunk_le_size (region_le (plausible_readTo (show 20 ≤ chunk by decide) s.chunk_le_size h))

/-- A sector that is not taken as valid reads as one without versions and VPD. -/
theorem nullDcfg_spec {size : ℕ} (hsize : 20 ≤ size) (hl : dcfg.length = size) :
    Plausible size (nullDcfg dcfg) ∧ vpdOffset (nullDcfg dcfg) = 20 ∧ vpdLength (nullDcfg dcfg) = 0 ∧
      nversions (nullDcfg dcfg) = 0 ∧ hdrLength (nullDcfg dcfg) = 20 := by
  obtain ⟨d1, h1⟩ : ∃ d, d = splice dcfg 0 (le 4 dcfgMagic) := ⟨_, rfl⟩
  obtain ⟨d2, h2⟩ : ∃ d, d = splice d1 4 (le 2 (dynamicCfgSize 0)) := ⟨_, rfl⟩
  obtain ⟨d3, h3⟩ : ∃ d, d = splice d2 6 (le 1 0) := ⟨_, rfl⟩
  obtain ⟨d4, h4⟩ : ∃ d, d = splice d3 8 (le 4 (dynamicCfgSize 0)) := ⟨_, rfl⟩
  obtain ⟨d5, h5⟩ : ∃ d, d = splice d4 12 (le 4 0) := ⟨_, rfl⟩
  have hnull : nullDcfg dcfg = splice d5 16 (le 4 0) := by rw [h5, h4, h3, h2, h1, nullDcfg]
  have l1 : d1.length = size := by rw [h1, length_splice_le (by omega), hl]
  have l2 : d2.length = size := by rw [h2, length_splice_le (by omega), l1]
  have l3 : d3.length = size := by rw [h3, length_splice_le (by omega), l2]
  have l4 : d4.length = size := by rw [h4, length_splice_le (by omega), l3]
  have l5 : d5.length = size := by rw [h5, length_splice_le (by omega), l4]
  have l6 : (nullDcfg dcfg).length = size := by rw [hnull, length_splice_le (by omega), l5]
  have hmagic : magicOf (nullDcfg dcfg) = dcfgMagic := by
    rw [magicOf, hnull, u32_splice_le (by omega) (by omega), h5, u32_splice_le (by omega) (by omega), h4,
      u32_splice_le (by omega) (by omega), h3, u32_splice_le (by omega) (by omega), h2,
      u32_splice_le (by omega) (by omega), h1, u32_splice_self (by omega)]
    rfl
  have hhdr : hdrLength (nullDcfg dcfg) = 20 := by
    rw [hdrLength, hnull, u16_splice_le (by omega) (by omega), h5, u16_splice_le (by omega) (by omega), h4,
      u16_splice_le (by omega) (by omega), h3, u16_splice_le (by omega) (by omega), h2,
      u16_splice_self (by omega)]
    rfl
  have hoff : vpdOffset (nullDcfg dcfg) = 20 := by
    rw [vpdOffset, hnull, u32_splice_le (by omega) (by omega), h5, u32_splice_le (by omega) (by omega), h4,
      u32_splice_self (by omega)]
    rfl
  have hlen : vpdLength (nullDcfg dcfg) = 0 := by
    rw [vpdLength, hnull, u32_splice_le (by omega) (by omega), h5, u32_splice_self (by omega)]
  have hnv : nversions (nullDcfg dcfg) = 0 := by rw [nversions, hnull, u32_splice_self (by omega)]
  refine ⟨⟨l6, hmagic, by omega, by omega, ?_⟩, hoff, hlen, hnv, hhdr⟩
  rw [hnv, hhdr]
  decide

/-- An accepted sector is taken as it is read; the header's fields are those of the sector. -/
theorem getDynamicCfg_accepted {vpd : Bool} (h : s.Accepts vpd) :
    s.getDynamicCfg vpd = s.remaining vpd := by
  obtain ⟨hwf, hsum⟩ := h
  rw [Sector.getDynamicCfg]
  rw [if_neg (not_not.mpr hwf), if_neg (not_not.mpr hsum)]

/-- Any other sector reads as one without versions and VPD. -/
theorem getDynamicCfg_rejected {vpd : Bool} (h : ¬ s.Accepts vpd) :
    ∃ dcfg, dcfg.length = s.size ∧ s.getDynamicCfg vpd = nullDcfg dcfg := by
  rw [Sector.getDynamicCfg]
  by_cases hwf : WellFormed s.size (s.readTo chunk)
  · rw [if_neg (not_not.mpr hwf), if_pos fun hsum => h ⟨hwf, hsum⟩]
    exact ⟨_, by rw [remaining_eq, length_readTo (max_region_le hwf)], rfl⟩
  · rw [if_pos hwf]
    exact ⟨_, length_readTo s.chunk_le_size, rfl⟩

/-- **What the reader promises.** -/
theorem plausible_getDynamicCfg (s : Sector) (vpd : Bool) : Plausible s.size (s.getDynamicCfg vpd) := by
  by_cases h : s.Accepts vpd
  · rw [getDynamicCfg_accepted h, remaining_eq]
    exact plausible_readTo (le_trans (show 20 ≤ chunk by decide) (le_max_left _ _)) (max_region_le h.1) h.1
  · obtain ⟨dcfg, hl, he⟩ := getDynamicCfg_rejected h
    rw [he]
    exact (nullDcfg_spec (by have := s.chunk_le_size; omega) hl).1

/-! ### Reading a rewritten sector -/

/-- What a buffer needs so that what is written of it stands for all of it: all up to the end of the VPD is
written, which must cover the header. -/
structure Complete (size : ℕ) (dcfg : Bytes) : Prop where
  sound : Plausible size dcfg
  hdr_le_end : hdrLength dcfg ≤ vpdOffset dcfg + vpdLength dcfg
  cksum : bsum dcfg 0 (hdrLength dcfg) % 256 = 0

/-- The sector when `dcfg` has been written up to the end of its VPD. -/
def Sector.rewritten (s : Sector) (dcfg : Bytes) : Sector := s.rewrite dcfg (vpdOffset dcfg + vpdLength dcfg)

theorem size_rewrite (s : Sector) (dcfg : Bytes) (n : ℕ) : (s.rewrite dcfg n).size = s.size := by
  simp only [Sector.rewrite, Sector.size, List.length_take, List.length_append, List.length_replicate]
  omega

theorem take_rewrite {n j : ℕ} (hl : dcfg.length = s.size) (hn : n ≤ s.size) (hj : j ≤ n) :
    (s.rewrite dcfg n).bytes.take j = dcfg.take j := by
  have hlen : (dcfg.take n).length = n := by rw [List.length_take]; omega
  simp only [Sector.rewrite]
  rw [List.take_take, min_eq_left (by omega), List.take_append_of_le_length (by omega), List.take_take,
    min_eq_left hj]

theorem Plausible.wellFormed {size : ℕ} (h : Plausible size dcfg) : WellFormed size dcfg := by
  have h1 := h.hdr_le
  have h2 := h.end_le
  have h3 := h.versions_le
  have h4 := h.twenty_le
  exact ⟨h.magic, by omega, by unfold dynamicCfgSize at h3 ⊢; omega⟩

section Rewritten

variable (hc : Complete s.size dcfg)
include hc

theorem take_readTo_rewritten {k j : ℕ} (hj : j ≤ vpdOffset dcfg + vpdLength dcfg) (hjk : j ≤ k)
    (hk : k ≤ s.size) : ((s.rewritten dcfg).readTo k).take j = dcfg.take j := by
  rw [take_readTo hjk (by rw [Sector.rewritten, size_rewrite]; exact hk)]
  exact take_rewrite hc.sound.length_eq hc.sound.end_le hj

theorem wellFormed_rewritten : WellFormed s.size ((s.rewritten dcfg).readTo chunk) := by
  have h20 := hc.sound.twenty_le
  have hend := hc.hdr_le_end
  refine (wellFormed_of_take ?_).mpr hc.sound.wellFormed
  exact take_readTo_rewritten hc (by omega) (by decide) s.chunk_le_size

/-- The buffer read back agrees with the one written on the region asked for. -/
theorem take_remaining_rewritten (vpd : Bool) {j : ℕ} (hj : j ≤ Sector.region vpd dcfg) :
    ((s.rewritten dcfg).remaining vpd).take j = dcfg.take j := by
  have h20 := hc.sound.twenty_le
  have hend := hc.hdr_le_end
  have htake : ((s.rewritten dcfg).readTo chunk).take 20 = dcfg.take 20 :=
    take_readTo_rewritten hc (by omega) (by decide) s.chunk_le_size
  have hregion : Sector.region vpd dcfg ≤ s.size := region_le hc.sound
  rw [remaining_eq, region_of_take htake]
  refine take_readTo_rewritten hc ?_ (le_trans hj (le_max_right _ _)) (max_le s.chunk_le_size hregion)
  cases vpd with
  | false => exact le_trans hj hend
  | true => rwa [region_vpd hc.sound] at hj

/-- **A complete sector is accepted**, with the VPD or without. -/
theorem accepts_rewritten (vpd : Bool) : (s.rewritten dcfg).Accepts vpd := by
  have h20 := hc.sound.twenty_le
  have hend := hc.hdr_le_end
  have htake : ((s.rewritten dcfg).readTo chunk).take 20 = dcfg.take 20 :=
    take_readTo_rewritten hc (by omega) (by decide) s.chunk_le_size
  have hhdr : hdrLength dcfg ≤ Sector.region vpd dcfg := by
    cases vpd with
    | false => exact le_refl _
    | true => rwa [region_vpd hc.sound]
  refine ⟨?_, ?_⟩
  · rw [Sector.rewritten, size_rewrite]
    exact wellFormed_rewritten hc
  · rw [(fields_of_take htake).2.1, bsum_of_take (take_remaining_rewritten hc vpd hhdr)]
    exact hc.cksum

theorem take_getDynamicCfg_rewritten (vpd : Bool) {j : ℕ} (hj : j ≤ Sector.region vpd dcfg) :
    ((s.rewritten dcfg).getDynamicCfg vpd).take j = dcfg.take j := by
  rw [getDynamicCfg_accepted (accepts_rewritten hc vpd)]
  exact take_remaining_rewritten hc vpd hj

/-- **What a rewritten sector is decoded to.** -/
theorem config_rewritten : (s.rewritten dcfg).config =
    ⟨itemAt dcfg, slice dcfg (vpdOffset dcfg) (vpdLength dcfg)⟩ := by
  have h20 := hc.sound.twenty_le
  have hversions := hc.sound.versions_le
  have hhdr := take_getDynamicCfg_rewritten hc false (j := hdrLength dcfg) (le_refl _)
  have hall := take_getDynamicCfg_rewritten hc true (j := vpdOffset dcfg + vpdLength dcfg)
    (by rw [region_vpd hc.sound])
  obtain ⟨-, -, hoff, hlen, -⟩ := fields_of_take (take_of_take hall (le_trans h20 hc.hdr_le_end))
  have hitems : itemAt ((s.rewritten dcfg).getDynamicCfg false) = itemAt dcfg := by
    funext q
    unfold itemAt
    rw [(fields_of_take (take_of_take hhdr h20)).2.2.2.2]
    split_ifs with hq
    · rw [slice_of_take hhdr (by unfold dynamicCfgSize at hversions ⊢; omega)]
    · rfl
  rw [Sector.config, hitems, hoff, hlen, slice_of_take hall (le_refl _)]

end Rewritten

/-! ### The checksum -/

@[simp] theorem length_putCksum (dcfg : Bytes) : (putCksum dcfg).length = dcfg.length := List.length_set

theorem getD_putCksum {i : ℕ} (h : i ≠ 7) : (putCksum dcfg).getD i 0 = dcfg.getD i 0 := getD_set_ne (Ne.symm h)

theorem slice_putCksum {p n : ℕ} (hp : p + n ≤ dcfg.length) (h : p + n ≤ 7 ∨ 8 ≤ p) :
    slice (putCksum dcfg) p n = slice dcfg p n :=
  slice_congr hp (by rwa [length_putCksum]) fun i hi => getD_putCksum (by omega)

/-- The checksum changes no other field of the header. -/
theorem fields_putCksum (h : 20 ≤ dcfg.length) :
    magicOf (putCksum dcfg) = magicOf dcfg ∧ hdrLength (putCksum dcfg) = hdrLength dcfg ∧
      vpdOffset (putCksum dcfg) = vpdOffset dcfg ∧ vpdLength (putCksum dcfg) = vpdLength dcfg ∧
      nversions (putCksum dcfg) = nversions dcfg := by
  simp only [magicOf, hdrLength, vpdOffset, vpdLength, nversions, u32, u16]
  rw [slice_putCksum (by omega) (by omega), slice_putCksum (by omega) (by omega),
    slice_putCksum (by omega) (by omega), slice_putCksum (by omega) (by omega),
    slice_putCksum (by omega) (by omega)]
  exact ⟨rfl, rfl, rfl, rfl, rfl⟩

theorem bsum_putCksum (h20 : 20 ≤ hdrLength dcfg) (hl : hdrLength dcfg ≤ dcfg.length) :
    bsum (putCksum dcfg) 0 (hdrLength dcfg) % 256 = 0 := by
  have hset := bsum_set (m := dcfg) (n := hdrLength dcfg) (i := 7)
    (b := dcfg.getD 7 0 - UInt8.ofNat (bsum dcfg 0 (hdrLength dcfg))) (by omega) hl
  have hsub := UInt8.toNat_sub (dcfg.getD 7 0) (UInt8.ofNat (bsum dcfg 0 (hdrLength dcfg)))
  have hof : (UInt8.ofNat (bsum dcfg 0 (hdrLength dcfg))).toNat = bsum dcfg 0 (hdrLength dcfg) % 256 :=
    UInt8.toNat_ofNat'
  have h7 := (dcfg.getD 7 0).toNat_lt
  unfold putCksum
  rw [hsub, hof] at hset
  omega

/-- A sound buffer with its checksum put right and its VPD behind its header is complete. -/
theorem complete_putCksum {size : ℕ} (h : Plausible size dcfg)
    (hend : hdrLength dcfg ≤ vpdOffset dcfg + vpdLength dcfg) : Complete size (putCksum dcfg) := by
  have h20 := h.twenty_le
  have hsize := h.hdr_le
  have hl := h.length_eq
  obtain ⟨h1, h2, h3, h4, h5⟩ := fields_putCksum (show 20 ≤ dcfg.length by omega)
  refine ⟨⟨by rw [length_putCksum, hl], h1.trans h.magic, by rw [h2]; exact hsize, by rw [h3, h4]; exact h.end_le,
    by rw [h5, h2]; exact h.versions_le⟩, by rw [h2, h3, h4]; exact hend, ?_⟩
  rw [h2]
  exact bsum_putCksum h20 (by omega)

theorem itemAt_congr (hnv : nversions dcfg' = nversions dcfg) {q : ℕ}
    (h : q < nversions dcfg → slice dcfg' (dynamicCfgSize q) 12 = slice dcfg (dynamicCfgSize q) 12) :
    itemAt dcfg' q = itemAt dcfg q := by
  unfold itemAt
  rw [hnv]
  split_ifs with hq
  · rw [h hq]
  · rfl

theorem itemAt_putCksum {size : ℕ} (h : Plausible size dcfg) : itemAt (putCksum dcfg) = itemAt dcfg := by
  have hl := h.length_eq
  have hsize := h.hdr_le
  have h20 := h.twenty_le
  have hversions := h.versions_le
  funext q
  refine itemAt_congr (fields_putCksum (by omega)).2.2.2.2 fun hq => ?_
  unfold dynamicCfgSize at hversions ⊢
  exact slice_putCksum (by omega) (by omega)

/-! ### Making room for a version -/

section Version

variable {size required partn : ℕ} (fwver : FwVersion)

/-- The VPD moves to the end of the required header when it starts below it. -/
theorem moveVpd_spec (h : Plausible size dcfg) (h20 : 20 ≤ required) (hr : required < 65536)
    (hroom : required + vpdLength dcfg ≤ size) :
    (moveVpd required dcfg).length = size ∧
      vpdOffset (moveVpd required dcfg) = max (vpdOffset dcfg) required ∧
      slice (moveVpd required dcfg) (max (vpdOffset dcfg) required) (vpdLength dcfg) =
        slice dcfg (vpdOffset dcfg) (vpdLength dcfg) ∧
      ∀ i, i < 8 ∨ 12 ≤ i → i < required ∨ required ≤ vpdOffset dcfg →
        (moveVpd required dcfg).getD i 0 = dcfg.getD i 0 := by
  have hl := h.length_eq
  have hvpd : (slice dcfg (vpdOffset dcfg) (vpdLength dcfg)).length = vpdLength dcfg :=
    length_slice (by rw [hl]; exact h.end_le)
  unfold moveVpd
  split_ifs with hlt
  · obtain ⟨d, hd⟩ : ∃ d, d = splice dcfg required (slice dcfg (vpdOffset dcfg) (vpdLength dcfg)) := ⟨_, rfl⟩
    have hdl : d.length = size := by rw [hd, length_splice (by omega), hl]
    rw [← hd, max_eq_right hlt.le]
    refine ⟨by rw [length_splice_le (by omega), hdl], ?_, ?_, fun i hi hi' => ?_⟩
    · rw [vpdOffset, u32_splice_self (by omega), Nat.mod_eq_of_lt (by omega)]
    · rw [slice_splice_after (by rw [length_le]; omega) (by rw [length_le]; omega), hd]
      have hself := slice_splice_self
        (show required + (slice dcfg (vpdOffset dcfg) (vpdLength dcfg)).length ≤ dcfg.length by omega)
      rwa [hvpd] at hself
    · rw [getD_splice_frame (by rw [length_le]; omega) (by rw [length_le]; omega), hd,
        getD_splice_frame (by omega) (by omega)]
  · exact ⟨hl, by rw [max_eq_left (by omega)], by rw [max_eq_left (by omega)], fun i _ _ => rfl⟩

/-- A header that is too short grows to the required length, with zeros. -/
theorem growHdr_spec (hl : dcfg.length = size) (h20 : 20 ≤ hdrLength dcfg) (hr : required < 65536)
    (hroom : required ≤ size) :
    (growHdr required dcfg).length = size ∧
      hdrLength (growHdr required dcfg) = max (hdrLength dcfg) required ∧
      (∀ i, i < 4 ∨ 6 ≤ i → i < hdrLength dcfg ∨ required ≤ i →
        (growHdr required dcfg).getD i 0 = dcfg.getD i 0) ∧
      ∀ i, hdrLength dcfg ≤ i → i < required → (growHdr required dcfg).getD i 0 = 0 := by
  unfold growHdr
  split_ifs with hlt
  · obtain ⟨d, hd⟩ : ∃ d, d = splice dcfg (hdrLength dcfg) (List.replicate (required - hdrLength dcfg) 0) :=
      ⟨_, rfl⟩
    have hz : (List.replicate (required - hdrLength dcfg) (0 : UInt8)).length = required - hdrLength dcfg :=
      List.length_replicate
    have hdl : d.length = size := by rw [hd, length_splice (by omega), hl]
    rw [← hd, max_eq_right hlt.le]
    refine ⟨by rw [length_splice_le (by omega), hdl], ?_, fun i hi hi' => ?_, fun i hi hi' => ?_⟩
    · rw [hdrLength, u16_splice_self (by omega), Nat.mod_eq_of_lt (by omega)]
    · rw [getD_splice_frame (by rw [length_le]; omega) (by rw [length_le]; omega), hd,
        getD_splice_frame (by omega) (by omega)]
    · rw [getD_splice_frame (by rw [length_le]; omega) (by rw [length_le]; omega), hd,
        getD_splice (by omega), if_pos (by omega), List.getD_eq_getElem?_getD, List.getElem?_replicate]
      split_ifs <;> rfl
  · exact ⟨hl, by rw [max_eq_left (by omega)], fun i _ _ => rfl, fun i hi hi' => by omega⟩

@[simp] theorem FwVersion.length_toBytes (v : FwVersion) : v.toBytes.length = 12 := by
  simp [FwVersion.toBytes]

/-- The item is written and counted. -/
theorem fillVersion_spec (hl : dcfg.length = size) (hroom : dynamicCfgSize (partn + 1) ≤ size)
    (hp : partn < 65536) :
    (fillVersion partn fwver dcfg).length = size ∧
      nversions (fillVersion partn fwver dcfg) = max (nversions dcfg) (partn + 1) ∧
      slice (fillVersion partn fwver dcfg) (dynamicCfgSize partn) 12 = fwver.toBytes ∧
      ∀ i, i < 16 ∨ 20 ≤ i → i < dynamicCfgSize partn ∨ dynamicCfgSize (partn + 1) ≤ i →
        (fillVersion partn fwver dcfg).getD i 0 = dcfg.getD i 0 := by
  have hv := fwver.length_toBytes
  unfold dynamicCfgSize at hroom ⊢
  unfold fillVersion
  obtain ⟨d, hd⟩ : ∃ d, d = splice dcfg (dynamicCfgSize partn) fwver.toBytes := ⟨_, rfl⟩
  have hdl : d.length = size := by rw [hd, length_splice (by unfold dynamicCfgSize; omega), hl]
  have hnv : nversions d = nversions dcfg := by
    rw [nversions, nversions, hd]
    exact u32_splice_frame (by unfold dynamicCfgSize; omega) (by unfold dynamicCfgSize; omega)
  have hitem : slice d (20 + 12 * partn) 12 = fwver.toBytes := by
    have hself := slice_splice_self
      (show dynamicCfgSize partn + fwver.toBytes.length ≤ dcfg.length by unfold dynamicCfgSize; omega)
    rwa [hv, ← hd, dynamicCfgSize] at hself
  have hframe : ∀ i, i < 20 + 12 * partn ∨ 20 + 12 * (partn + 1) ≤ i → d.getD i 0 = dcfg.getD i 0 := by
    intro i hi
    rw [hd]
    exact getD_splice_frame (by unfold dynamicCfgSize; omega) (by unfold dynamicCfgSize; omega)
  dsimp only
  rw [← hd]
  split_ifs with hlt
  · rw [hnv] at hlt
    refine ⟨by rw [length_splice_le (by omega), hdl], ?_, ?_, fun i hi hi' => ?_⟩
    · rw [max_eq_right (by omega), nversions, u32_splice_self (by omega), Nat.mod_eq_of_lt (by omega)]
    · rw [slice_splice_after (by rw [length_le]; omega) (by rw [length_le]; omega), hitem]
    · rw [getD_splice_frame (by rw [length_le]; omega) (by rw [length_le]; omega), hframe i hi']
  · rw [hnv] at hlt
    exact ⟨hdl, by rw [hnv, max_eq_left (by omega)], hitem, fun i _ hi' => hframe i hi'⟩

/-- A version is read as it was written. -/
theorem FwVersion.ofBytes_toBytes (v : FwVersion) : FwVersion.ofBytes v.toBytes = v := by
  obtain ⟨a, b, c, d, e⟩ := v
  have h32 : ∀ w : UInt32, ofLe (le 4 w.toNat) = w.toNat := by
    intro w
    have := w.toNat_lt
    rw [ofLe_le]
    omega
  have h16 : ∀ w : UInt16, ofLe (le 2 w.toNat) = w.toNat := by
    intro w
    have := w.toNat_lt
    rw [ofLe_le]
    omega
  simp [FwVersion.ofBytes, FwVersion.toBytes, u32, u16, slice, List.drop_append, List.take_of_length_le,
    List.drop_of_length_le, h32, h16]

theorem FwVersion.ofBytes_zeros : FwVersion.ofBytes (List.replicate 12 0) = .none := by decide

/-- The fields of the header before the checksum is put right. -/
theorem filled_fields (h : Plausible size dcfg) (hp : partn < 32)
    (hroom : dynamicCfgSize (partn + 1) + vpdLength dcfg ≤ size) :
    let d := fillVersion partn fwver (growHdr (dynamicCfgSize (partn + 1)) (moveVpd (dynamicCfgSize (partn + 1)) dcfg))
    d.length = size ∧ magicOf d = magicOf dcfg ∧ hdrLength d = max (hdrLength dcfg) (dynamicCfgSize (partn + 1)) ∧
      vpdOffset d = max (vpdOffset dcfg) (dynamicCfgSize (partn + 1)) ∧ vpdLength d = vpdLength dcfg ∧
      nversions d = max (nversions dcfg) (partn + 1) := by
  have hl := h.length_eq
  have hr : dynamicCfgSize (partn + 1) = 32 + 12 * partn := by unfold dynamicCfgSize; ring
  have hr' : dynamicCfgSize partn = 20 + 12 * partn := rfl
  obtain ⟨l1, o1, -, f1⟩ := moveVpd_spec h (by omega) (by omega) hroom
  generalize moveVpd (dynamicCfgSize (partn + 1)) dcfg = d1 at l1 o1 f1 ⊢
  have h1 : hdrLength d1 = hdrLength dcfg :=
    u16_congr (by omega) (by omega) fun i hi => f1 _ (by omega) (by omega)
  have hm1 : magicOf d1 = magicOf dcfg := u32_congr (by omega) (by omega) fun i hi => f1 _ (by omega) (by omega)
  have hv1 : vpdLength d1 = vpdLength dcfg :=
    u32_congr (by omega) (by omega) fun i hi => f1 _ (by omega) (by omega)
  have hn1 : nversions d1 = nversions dcfg :=
    u32_congr (by omega) (by omega) fun i hi => f1 _ (by omega) (by omega)
  have h20 := h.twenty_le
  obtain ⟨l2, h2, f2, -⟩ := growHdr_spec l1 (by omega) (by omega)
    (show dynamicCfgSize (partn + 1) ≤ size by omega)
  generalize growHdr (dynamicCfgSize (partn + 1)) d1 = d2 at l2 h2 f2 ⊢
  have hm2 : magicOf d2 = magicOf d1 := u32_congr (by omega) (by omega) fun i hi => f2 _ (by omega) (by omega)
  have ho2 : vpdOffset d2 = vpdOffset d1 := u32_congr (by omega) (by omega) fun i hi => f2 _ (by omega) (by omega)
  have hv2 : vpdLength d2 = vpdLength d1 := u32_congr (by omega) (by omega) fun i hi => f2 _ (by omega) (by omega)
  have hn2 : nversions d2 = nversions d1 := u32_congr (by omega) (by omega) fun i hi => f2 _ (by omega) (by omega)
  obtain ⟨l3, n3, -, f3⟩ := fillVersion_spec fwver l2 (show dynamicCfgSize (partn + 1) ≤ size by omega) (by omega)
  dsimp only
  generalize fillVersion partn fwver d2 = d3 at l3 n3 f3 ⊢
  refine ⟨l3, ?_, ?_, ?_, ?_, by rw [n3, hn2, hn1]⟩
  · exact (u32_congr (by omega) (by omega) fun i hi => f3 _ (by omega) (by omega)).trans (hm2.trans hm1)
  · have h3 : hdrLength d3 = hdrLength d2 := u16_congr (by omega) (by omega) fun i hi => f3 _ (by omega) (by omega)
    rw [h3, h2, h1]
  · exact (u32_congr (by omega) (by omega) fun i hi => f3 _ (by omega) (by omega)).trans (ho2.trans o1)
  · exact (u32_congr (by omega) (by omega) fun i hi => f3 _ (by omega) (by omega)).trans (hv2.trans hv1)

/-- The rest of the buffer before the checksum is put right: the items before the new one, the new one, what
lies behind it, and the VPD. -/
theorem filled_bytes (h : Plausible size dcfg) (hp : partn < 32)
    (hroom : dynamicCfgSize (partn + 1) + vpdLength dcfg ≤ size) :
    let d := fillVersion partn fwver (growHdr (dynamicCfgSize (partn + 1)) (moveVpd (dynamicCfgSize (partn + 1)) dcfg))
    (∀ i, 20 ≤ i → i < dynamicCfgSize partn → d.getD i 0 = if i < hdrLength dcfg then dcfg.getD i 0 else 0) ∧
      slice d (dynamicCfgSize partn) 12 = fwver.toBytes ∧
      (dynamicCfgSize (partn + 1) ≤ vpdOffset dcfg →
        ∀ i, dynamicCfgSize (partn + 1) ≤ i → d.getD i 0 = dcfg.getD i 0) ∧
      slice d (max (vpdOffset dcfg) (dynamicCfgSize (partn + 1))) (vpdLength dcfg) =
        slice dcfg (vpdOffset dcfg) (vpdLength dcfg) := by
  have hl := h.length_eq
  have h20 := h.twenty_le
  have hend := h.end_le
  have hr : dynamicCfgSize (partn + 1) = 32 + 12 * partn := by unfold dynamicCfgSize; ring
  have hr' : dynamicCfgSize partn = 20 + 12 * partn := rfl
  obtain ⟨l1, -, s1, f1⟩ := moveVpd_spec h (by omega) (by omega) hroom
  generalize moveVpd (dynamicCfgSize (partn + 1)) dcfg = d1 at l1 s1 f1 ⊢
  have h1 : hdrLength d1 = hdrLength dcfg :=
    u16_congr (by omega) (by omega) fun i hi => f1 _ (by omega) (by omega)
  obtain ⟨l2, -, f2, z2⟩ := growHdr_spec l1 (by omega) (by omega)
    (show dynamicCfgSize (partn + 1) ≤ size by omega)
  generalize growHdr (dynamicCfgSize (partn + 1)) d1 = d2 at l2 f2 z2 ⊢
  obtain ⟨l3, -, v3, f3⟩ := fillVersion_spec fwver l2 (show dynamicCfgSize (partn + 1) ≤ size by omega) (by omega)
  dsimp only
  generalize fillVersion partn fwver d2 = d3 at l3 v3 f3 ⊢
  refine ⟨fun i hi hi' => ?_, v3, fun hoff i hi => ?_, ?_⟩
  · rw [f3 i (by omega) (by omega)]
    split_ifs with hlt
    · rw [f2 i (by omega) (by omega), f1 i (by omega) (by omega)]
    · exact z2 i (by omega) (by omega)
  · rw [f3 i (by omega) (by omega), f2 i (by omega) (by omega), f1 i (by omega) (by omega)]
  · have hmax : dynamicCfgSize (partn + 1) ≤ max (vpdOffset dcfg) (dynamicCfgSize (partn + 1)) := le_max_right _ _
    have hfit : max (vpdOffset dcfg) (dynamicCfgSize (partn + 1)) + vpdLength dcfg ≤ size := by omega
    rw [← s1]
    refine slice_congr (by omega) (by omega) fun i hi => ?_
    rw [f3 _ (by omega) (by omega), f2 _ (by omega) (by omega)]

/-- The layout of a sector leaves room for the version of `partn`: with the VPD moved away from the header that
is required, the end of the VPD covers the header, no item lies where the VPD goes, the header has been read
as far as it is not zero, and nothing but zeros becomes an item between the old ones and the new one. -/
structure Roomy (partn : ℕ) (dcfg : Bytes) : Prop where
  covered : hdrLength dcfg ≤ max (vpdOffset dcfg) (dynamicCfgSize (partn + 1)) + vpdLength dcfg
  clear : vpdOffset dcfg < dynamicCfgSize (partn + 1) → nversions dcfg ≤ partn + 1
  seen : ∀ i < hdrLength dcfg, max chunk (vpdOffset dcfg + vpdLength dcfg) ≤ i → dcfg.getD i 0 = 0
  blank : ∀ i < hdrLength dcfg, dynamicCfgSize (nversions dcfg) ≤ i → i < dynamicCfgSize partn →
    dcfg.getD i 0 = 0

instance (partn : ℕ) (dcfg : Bytes) : Decidable (Roomy partn dcfg) :=
  decidable_of_iff (_ ∧ _ ∧ _ ∧ _)
    ⟨fun ⟨h1, h2, h3, h4⟩ => ⟨h1, h2, h3, h4⟩, fun ⟨h1, h2, h3, h4⟩ => ⟨h1, h2, h3, h4⟩⟩

/-- The items after the update, but for the checksum. -/
theorem itemAt_filled (h : Plausible size dcfg) (hp : partn < 32)
    (hroom : dynamicCfgSize (partn + 1) + vpdLength dcfg ≤ size) (hr : Roomy partn dcfg) :
    itemAt (fillVersion partn fwver (growHdr (dynamicCfgSize (partn + 1))
      (moveVpd (dynamicCfgSize (partn + 1)) dcfg))) = Function.update (itemAt dcfg) partn fwver := by
  obtain ⟨hl, -, -, -, -, hnv⟩ := filled_fields fwver h hp hroom
  obtain ⟨hlow, hitem, hhigh, -⟩ := filled_bytes fwver h hp hroom
  generalize fillVersion partn fwver (growHdr (dynamicCfgSize (partn + 1))
    (moveVpd (dynamicCfgSize (partn + 1)) dcfg)) = d at hl hnv hlow hitem hhigh ⊢
  have hversions := h.versions_le
  have hsize := h.hdr_le
  have hl0 := h.length_eq
  have hr1 : dynamicCfgSize (partn + 1) = 32 + 12 * partn := by unfold dynamicCfgSize; ring
  have hr0 : ∀ n, dynamicCfgSize n = 20 + 12 * n := fun n => rfl
  rw [hr0] at hversions
  funext q
  rcases eq_or_ne q partn with rfl | hq
  · rw [Function.update_self, itemAt, if_pos (by omega), hitem, FwVersion.ofBytes_toBytes]
  rw [Function.update_of_ne hq]
  unfold itemAt
  by_cases hold : q < nversions dcfg
  · rw [if_pos (by omega), if_pos hold]
    congr 1
    refine slice_congr (by rw [hr0]; omega) (by rw [hr0]; omega) fun i hi => ?_
    rw [hr0]
    rcases lt_or_ge q partn with hlt | hge
    · rw [hlow _ (by omega) (by rw [hr0]; omega), if_pos (by omega)]
    · have hoff : dynamicCfgSize (partn + 1) ≤ vpdOffset dcfg := by
        by_contra hlt
        have := hr.clear (by omega)
        omega
      exact hhigh hoff _ (by omega)
  rw [if_neg hold]
  rcases lt_or_ge q partn with hlt | hge
  · -- the item is new: it lies behind the old header, or in what is blank of it
    rw [if_pos (by omega), ← FwVersion.ofBytes_zeros]
    congr 1
    refine slice_eq_replicate (by rw [hr0]; omega) fun i hi => ?_
    rw [hlow _ (by rw [hr0]; omega) (by rw [hr0, hr0]; omega)]
    split_ifs with hin
    · exact hr.blank _ hin (by rw [hr0, hr0]; omega) (by rw [hr0, hr0]; omega)
    · rfl
  · rw [if_neg (by omega)]

/-- **The update of a version**: the buffer is complete, it has the new version and the old VPD. -/
theorem versionUpdate_spec (h : Plausible size dcfg) (hp : partn < 32)
    (hroom : dynamicCfgSize (partn + 1) + vpdLength dcfg ≤ size) (hr : Roomy partn dcfg) :
    Complete size (versionUpdate partn fwver dcfg) ∧
      itemAt (versionUpdate partn fwver dcfg) = Function.update (itemAt dcfg) partn fwver ∧
      slice (versionUpdate partn fwver dcfg) (vpdOffset (versionUpdate partn fwver dcfg))
        (vpdLength (versionUpdate partn fwver dcfg)) = slice dcfg (vpdOffset dcfg) (vpdLength dcfg) := by
  have hitems := itemAt_filled fwver h hp hroom hr
  obtain ⟨hl, hmagic, hhdr, hoff, hlen, hnv⟩ := filled_fields fwver h hp hroom
  obtain ⟨-, -, -, hvpd⟩ := filled_bytes fwver h hp hroom
  unfold versionUpdate
  dsimp only
  generalize fillVersion partn fwver (growHdr (dynamicCfgSize (partn + 1))
    (moveVpd (dynamicCfgSize (partn + 1)) dcfg)) = d at hl hmagic hhdr hoff hlen hnv hitems hvpd ⊢
  have hversions := h.versions_le
  have hsize := h.hdr_le
  have hend := h.end_le
  have hcov := hr.covered
  have hr0 : ∀ n, dynamicCfgSize n = 20 + 12 * n := fun n => rfl
  rw [hr0] at hversions hroom hhdr hoff hcov
  have hplausible : Plausible size d :=
    ⟨hl, hmagic.trans h.magic, by omega, by omega, by rw [hr0]; omega⟩
  have hcomplete := complete_putCksum hplausible (by omega)
  obtain ⟨-, -, ho, hv, -⟩ := fields_putCksum (show 20 ≤ d.length by omega)
  refine ⟨hcomplete, by rw [itemAt_putCksum hplausible, hitems], ?_⟩
  rw [ho, hv, slice_putCksum (by omega) (by omega), hoff, hlen, ← hr0]
  exact hvpd

end Version

/-! ### Putting a VPD -/

/-- **The update of the VPD**: the buffer is complete, it has the new VPD and the old versions. -/
theorem vpdUpdate_spec {size n : ℕ} {data : Bytes} (h : Plausible size dcfg) (hsize : size < 2147483648)
    (hroom : hdrLength dcfg + n ≤ size) (hn : n ≤ data.length) :
    Complete size (vpdUpdate data n dcfg) ∧ itemAt (vpdUpdate data n dcfg) = itemAt dcfg ∧
      slice (vpdUpdate data n dcfg) (vpdOffset (vpdUpdate data n dcfg)) (vpdLength (vpdUpdate data n dcfg)) =
        data.take n ∧
      vpdOffset (vpdUpdate data n dcfg) + vpdLength (vpdUpdate data n dcfg) = size - n + n := by
  have h20 := h.twenty_le
  have hl := h.length_eq
  have htake : (data.take n).length = n := by rw [List.length_take]; omega
  obtain ⟨d1, h1⟩ : ∃ d, d = splice dcfg 8 (le 4 (dcfg.length - n)) := ⟨_, rfl⟩
  obtain ⟨d2, h2⟩ : ∃ d, d = splice d1 (dcfg.length - n) (data.take n) := ⟨_, rfl⟩
  obtain ⟨d3, h3⟩ : ∃ d, d = splice d2 12 (le 4 n) := ⟨_, rfl⟩
  have l1 : d1.length = size := by rw [h1, length_splice_le (by omega), hl]
  have l2 : d2.length = size := by rw [h2, length_splice (by omega), l1]
  have l3 : d3.length = size := by rw [h3, length_splice_le (by omega), l2]
  have hframe : ∀ i, i < 8 ∨ 16 ≤ i → i < hdrLength dcfg → d3.getD i 0 = dcfg.getD i 0 := by
    intro i hi hi'
    rw [h3, getD_splice_frame (by rw [length_le]; omega) (by rw [length_le]; omega), h2,
      getD_splice_frame (by omega) (by omega), h1,
      getD_splice_frame (by rw [length_le]; omega) (by rw [length_le]; omega)]
  have hmagic : magicOf d3 = magicOf dcfg :=
    u32_congr (by omega) (by omega) fun i hi => hframe _ (by omega) (by omega)
  have hhdr : hdrLength d3 = hdrLength dcfg :=
    u16_congr (by omega) (by omega) fun i hi => hframe _ (by omega) (by omega)
  have hnv : nversions d3 = nversions dcfg :=
    u32_congr (by omega) (by omega) fun i hi => hframe _ (by omega) (by omega)
  have hlen : vpdLength d3 = n := by
    rw [vpdLength, h3, u32_splice_self (by omega), Nat.mod_eq_of_lt (by omega)]
  have hoff : vpdOffset d3 = size - n := by
    rw [vpdOffset, h3, u32_splice_le (by omega) (by omega), h2, u32_splice_frame (by omega) (by omega), h1,
      u32_splice_self (by omega), Nat.mod_eq_of_lt (by omega), hl]
  have hvpd : slice d3 (size - n) n = data.take n := by
    have hself := slice_splice_self (show dcfg.length - n + (data.take n).length ≤ d1.length by omega)
    rw [htake, ← h2, hl] at hself
    rw [h3, slice_splice_after (by rw [length_le]; omega) (by rw [length_le]; omega), hself]
  have hversions := h.versions_le
  have hplausible : Plausible size d3 :=
    ⟨l3, hmagic.trans h.magic, by omega, by omega, by rw [hnv, hhdr]; exact hversions⟩
  have hput : vpdUpdate data n dcfg = putCksum d3 := by rw [h3, h2, h1, vpdUpdate]
  obtain ⟨-, -, ho, hv, -⟩ := fields_putCksum (show 20 ≤ d3.length by omega)
  rw [hput]
  refine ⟨complete_putCksum hplausible (by omega), ?_, ?_, by rw [ho, hv, hoff, hlen]⟩
  · rw [itemAt_putCksum hplausible]
    funext q
    refine itemAt_congr hnv fun hq => ?_
    unfold dynamicCfgSize at hversions ⊢
    exact slice_congr (by omega) (by omega) fun i hi => hframe _ (by omega) (by omega)
  · rw [ho, hv, slice_putCksum (by omega) (by omega), hoff, hlen, hvpd]

/-! ### Whole calls -/

/-- The condition on a call: a version must fit in the layout of a sector that is taken as valid. -/
def Fits : Call → Sector → Prop
  | .setVersion partn _, s => s.Accepts true ∨ s.Accepts false → Roomy partn s.bytes
  | .vpdWrite _, _ => True

instance : ∀ c s, Decidable (Fits c s)
  | .setVersion _ _, _ => inferInstanceAs (Decidable (_ → _))
  | .vpdWrite _, _ => inferInstanceAs (Decidable True)

/-- What a call is to achieve: the sector is valid, its header has been written, and it is decoded to what the
call makes of what it was decoded to before. -/
structure Kept (board : Board) (c : Call) (s s' : Sector) : Prop where
  accepts : ∀ vpd, s'.Accepts vpd
  written : hdrLength s'.bytes ≤ s'.written
  config : s'.config = s.config.after board c

theorem itemAt_nullDcfg (h : nversions dcfg = 0) : itemAt dcfg = fun _ => .none := by
  funext q
  rw [itemAt, if_neg (by omega)]

theorem fields_readTo (s : Sector) {k : ℕ} (hk : 20 ≤ k) (hks : k ≤ s.size) :
    (s.readTo k).take 20 = s.bytes.take 20 := take_readTo hk hks

/-- The whole header is in what is read, but for zeros. -/
theorem take_remaining {partn : ℕ} (hwf : WellFormed s.size (s.readTo chunk)) (hr : Roomy partn s.bytes)
    (vpd : Bool) : (s.remaining vpd).take (hdrLength s.bytes) = s.bytes.take (hdrLength s.bytes) := by
  have htake := fields_readTo s (show 20 ≤ chunk by decide) s.chunk_le_size
  obtain ⟨-, hhdr, hoff, hlen, -⟩ := fields_of_take htake
  have hplausible := plausible_readTo (show 20 ≤ chunk by decide) s.chunk_le_size hwf
  have hmax : max chunk (Sector.region vpd (s.readTo chunk)) ≤ s.size := max_region_le hwf
  rw [remaining_eq]
  cases vpd with
  | false =>
    refine take_readTo ?_ hmax
    rw [Sector.region, if_neg Bool.false_ne_true, hhdr]
    exact le_max_right _ _
  | true =>
    refine take_congr (by rw [length_readTo hmax]; rfl) fun i hi => ?_
    rw [getD_readTo hmax]
    split_ifs with hlt
    · rfl
    · rw [region_vpd hplausible, hoff, hlen] at hlt
      exact (hr.seen i hi (by omega)).symm

/-- Read with the VPD or without, the sector has the same versions, and the buffer leaves room as the sector
does. -/
theorem roomy_getDynamicCfg {partn : ℕ} {version : Version} (h : Fits (.setVersion partn version) s) :
    itemAt (s.getDynamicCfg false) = itemAt (s.getDynamicCfg true) ∧ Roomy partn (s.getDynamicCfg true) := by
  by_cases hacc : s.Accepts true ∨ s.Accepts false
  · have hr := h hacc
    have hwf : WellFormed s.size (s.readTo chunk) := hacc.elim And.left And.left
    have htake := fields_readTo s (show 20 ≤ chunk by decide) s.chunk_le_size
    have hhdr := (fields_of_take htake).2.1
    have hsum : ∀ vpd, bsum (s.remaining vpd) 0 (hdrLength s.bytes) = bsum s.bytes 0 (hdrLength s.bytes) :=
      fun vpd => bsum_of_take (take_remaining hwf hr vpd)
    have hall : ∀ vpd, s.Accepts vpd := by
      intro vpd
      refine ⟨hwf, ?_⟩
      rw [hhdr, hsum vpd]
      rcases hacc with ⟨-, hs⟩ | ⟨-, hs⟩ <;> rwa [hhdr, hsum] at hs
    have hbuf : ∀ vpd, (s.getDynamicCfg vpd).take (hdrLength s.bytes) = s.bytes.take (hdrLength s.bytes) := by
      intro vpd
      rw [getDynamicCfg_accepted (hall vpd)]
      exact take_remaining hwf hr vpd
    have hplausible := plausible_readTo (show 20 ≤ chunk by decide) s.chunk_le_size hwf
    have h20 := hplausible.twenty_le
    have hversions := hplausible.versions_le
    rw [hhdr] at h20 hversions
    rw [(fields_of_take htake).2.2.2.2] at hversions
    have hfields : ∀ vpd, (s.getDynamicCfg vpd).take 20 = s.bytes.take 20 := fun vpd => take_of_take (hbuf vpd) h20
    have hitems : ∀ vpd, itemAt (s.getDynamicCfg vpd) = itemAt s.bytes := by
      intro vpd
      funext q
      refine itemAt_congr (fields_of_take (hfields vpd)).2.2.2.2 fun hq => ?_
      unfold dynamicCfgSize at hversions ⊢
      exact slice_of_take (hbuf vpd) (by omega)
    obtain ⟨-, e1, e2, e3, e4⟩ := fields_of_take (hfields true)
    refine ⟨by rw [hitems, hitems], ?_⟩
    constructor
    · rw [e1, e2, e3]
      exact hr.covered
    · rw [e2, e4]
      exact hr.clear
    · rw [e1, e2, e3]
      intro i hi hi'
      rw [getD_of_take (hbuf true) hi]
      exact hr.seen i hi hi'
    · rw [e1, e4]
      intro i hi hi' hi''
      rw [getD_of_take (hbuf true) hi]
      exact hr.blank i hi hi' hi''
  · obtain ⟨d, hd, ed⟩ := getDynamicCfg_rejected fun ha => hacc (Or.inl ha)
    obtain ⟨d', hd', ed'⟩ := getDynamicCfg_rejected fun ha => hacc (Or.inr ha)
    have hsize : 20 ≤ s.size := le_trans (by decide) s.chunk_le_size
    obtain ⟨-, ho, hv, hn, hh⟩ := nullDcfg_spec hsize hd
    rw [ed, ed', itemAt_nullDcfg (nullDcfg_spec hsize hd').2.2.2.1, itemAt_nullDcfg hn]
    refine ⟨rfl, ?_⟩
    constructor
    · rw [hh, ho]
      exact le_trans (le_max_left _ _) (Nat.le_add_right _ _)
    · rw [hn]
      exact fun _ => Nat.zero_le _
    · rw [hh]
      intro i hi hi'
      have : chunk ≤ i := le_trans (le_max_left _ _) hi'
      unfold chunk at this
      omega
    · rw [hh, hn]
      intro i hi hi'
      unfold dynamicCfgSize at hi'
      omega

/-- A complete buffer that has been written. -/
theorem kept_of_complete {board : Board} {c : Call} (hc : Complete s.size dcfg)
    (hconfig : Config.after board c s.config = ⟨itemAt dcfg, slice dcfg (vpdOffset dcfg) (vpdLength dcfg)⟩) :
    Kept board c s (s.rewritten dcfg) := by
  have h20 := hc.sound.twenty_le
  have hend := hc.hdr_le_end
  refine ⟨fun vpd => accepts_rewritten hc vpd, ?_, (config_rewritten hc).trans hconfig.symm⟩
  have htake := take_rewrite hc.sound.length_eq hc.sound.end_le (show 20 ≤ _ by omega)
  rw [Sector.rewritten, (fields_of_take htake).2.1]
  exact hend

theorem kept_setVersion {board : Board} {partn : ℕ} {version : Version} {s' : Sector}
    (hfits : Fits (.setVersion partn version) s) (h : step board (.setVersion partn version) s = some s') :
    Kept board (.setVersion partn version) s s' := by
  obtain ⟨hitems, hroomy⟩ := roomy_getDynamicCfg hfits
  have hplausible := plausible_getDynamicCfg s true
  unfold step sienaNvramPartnSetVersion at h
  dsimp only at h
  split_ifs at h with hroom
  · cases h
  cases hsub : getSubtype board partn with
  | error e =>
    rw [hsub] at h
    cases h
  | ok subtype =>
    rw [hsub] at h
    obtain rfl : s.rewritten _ = s' := Option.some.inj h
    unfold getSubtype at hsub
    cases hget : board.fwSubtypeList[partn]? with
    | none =>
      rw [hget] at hsub
      cases hsub
    | some w =>
      rw [hget] at hsub
      cases hsub
      have hlt := (List.getElem?_eq_some_iff.mp hget).1
      have hboard := board.length_le
      obtain ⟨hc, hi, hv⟩ := versionUpdate_spec (version.item w.toUInt32) hplausible
        (show partn < 32 by omega) (by omega) hroomy
      refine kept_of_complete hc ?_
      rw [hi, hv, Config.after, Sector.config, hitems, List.getD_eq_getElem?_getD, hget]
      rfl

theorem kept_vpdWrite {board : Board} {data : Bytes} {s' : Sector} (h : step board (.vpdWrite data) s = some s') :
    Kept board (.vpdWrite data) s s' := by
  have hplausible := plausible_getDynamicCfg s false
  unfold step sienaVpdWrite at h
  dsimp only at h
  cases hlen : efxVpdHunkLength data with
  | error e =>
    rw [hlen] at h
    cases h
  | ok n =>
    rw [hlen] at h
    dsimp only at h
    split_ifs at h with hroom
    · cases h
    obtain ⟨hc, hi, hv, hend⟩ := vpdUpdate_spec hplausible s.size_lt (by omega) (efxVpdHunkLength_le hlen)
    obtain rfl : s.rewritten (vpdUpdate data n (s.getDynamicCfg false)) = s' := by
      rw [Sector.rewritten, hend]
      exact Option.some.inj h
    refine kept_of_complete hc ?_
    rw [hi, hv, Config.after, hlen]
    rfl

theorem size_step {board : Board} {c : Call} {s' : Sector} (h : step board c s = some s') : s'.size = s.size := by
  cases c with
  | setVersion partn version =>
    unfold step sienaNvramPartnSetVersion at h
    dsimp only at h
    split_ifs at h
    · cases h
    cases hsub : getSubtype board partn with
    | error e =>
      rw [hsub] at h
      cases h
    | ok subtype =>
      rw [hsub] at h
      cases h
      exact size_rewrite _ _ _
  | vpdWrite data =>
    unfold step sienaVpdWrite at h
    dsimp only at h
    cases hlen : efxVpdHunkLength data with
    | error e =>
      rw [hlen] at h
      cases h
    | ok n =>
      rw [hlen] at h
      dsimp only at h
      split_ifs at h
      · cases h
      · cases h
        exact size_rewrite _ _ _

/-- `siena_vpd_read` gives what the sector is decoded to, padded with ones. -/
theorem sienaVpdRead_eq (s : Sector) (size : ℕ) : sienaVpdRead s size =
    if s.config.vpd.length > size then .error .EFAULT
    else .ok (s.config.vpd ++ List.replicate (size - s.config.vpd.length) 0xff) := by
  have h := plausible_getDynamicCfg s true
  have hl : s.config.vpd.length = vpdLength (s.getDynamicCfg true) :=
    length_slice (by rw [h.length_eq]; exact h.end_le)
  rw [hl]
  rfl

/-- A board with subtypes for three partitions. -/
def threeSubtypes : Board := ⟨[1, 2, 3], by decide⟩

/-- A valid sector with two versions and no VPD, at offset 0. -/
def twoVersions : Sector :=
  let hdr := le 4 dcfgMagic ++ le 2 (dynamicCfgSize 2) ++ le 1 0 ++ le 1 0 ++ le 4 0 ++ le 4 0 ++ le 4 2 ++
    List.replicate 24 1
  ⟨putCksum (hdr ++ List.replicate 84 0xff), 128, by decide +kernel, by decide +kernel⟩

end Sfxge.Nvram
