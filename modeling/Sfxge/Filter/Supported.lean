import Sfxge.Filter.Ef10

/-!
# Filter.Supported — the list of supported matches, `ef10_filter_supported_filters`

The firmware reports the combinations of match fields it supports, the unknown unicast and multicast
destinations by bits 31 and 30.  The code takes these bit numbers for masks: it clears bits 0 to 4 and keeps the
two bits, so the list follows the rule of its comment exactly when no mask has any of the seven bits
(`translated_iff`).
-/

namespace Sfxge.Filter.Ef10

open Errno

/-- What the firmware answers to `GET_PARSER_DISP_INFO`: `emr_rc`, `emr_out_length_used`, and the dwords of the
buffer from `NUM_SUPPORTED_MATCHES` on. -/
structure ParserDispOut where
  rc : Option Errno
  outLengthUsed : ℕ
  numSupportedMatches : U32
  supportedMatches : ℕ → U32

/-- `MC_CMD_GET_PARSER_DISP_INFO_OUT_LEN` -/
def parserDispOutLen (num : ℕ) : ℕ := 8 + 4 * num

/-- The list the firmware reports. -/
def ParserDispOut.list (out : ParserDispOut) : List U32 :=
  (List.range out.numSupportedMatches.toNat).map out.supportedMatches

/-- The constants the list is translated with. -/
def ucastMask : U32 := .ofNat 32 MC_CMD_FILTER_OP_IN_MATCH_UNKNOWN_UCAST_DST_LBN
def mcastMask : U32 := .ofNat 32 MC_CMD_FILTER_OP_IN_MATCH_UNKNOWN_MCAST_DST_LBN

/-- The loop over the list; the arguments are `support_unknown_ucast` and `support_unknown_mcast`. -/
def translateFrom : Bool → Bool → List U32 → List U32
  | _, _, [] => []
  | supportUnknownUcast, supportUnknownMcast, mask :: list =>
    let (mask, supportUnknownUcast) :=
      if mask &&& ucastMask ≠ 0 then (mask &&& ~~~ucastMask, true) else (mask, supportUnknownUcast)
    let (mask, supportUnknownMcast) :=
      if mask &&& mcastMask ≠ 0 then (mask &&& ~~~mcastMask, true) else (mask, supportUnknownMcast)
    if supportUnknownUcast ∧ supportUnknownMcast then
      (mask &&& EFX_FILTER_MATCH_LOC_MAC_IG.setWidth 32) :: list
    else mask :: translateFrom supportUnknownUcast supportUnknownMcast list

def efxMcdiGetParserDispInfo (out : ParserDispOut) : Except Errno (List U32) :=
  match out.rc with
  | some rc => .error rc
  | none =>
    if out.outLengthUsed < parserDispOutLen out.numSupportedMatches.toNat then .error EMSGSIZE
    else .ok (translateFrom false false out.list)

/-- The return code of a failure is the value of the comparison in `(rc = ... != 0)`. -/
def ef10FilterSupportedFilters (out : ParserDispOut) : Except ℕ (List U32) :=
  (efxMcdiGetParserDispInfo out).mapError fun _ => 1

/-! ### The rule of the comment -/

def unknownUcast : U32 := (1 : U32) <<< MC_CMD_FILTER_OP_IN_MATCH_UNKNOWN_UCAST_DST_LBN
def unknownMcast : U32 := (1 : U32) <<< MC_CMD_FILTER_OP_IN_MATCH_UNKNOWN_MCAST_DST_LBN

/-- One of the masks has the bit. -/
def Reports (list : List U32) (bit : U32) : Prop := ∃ mask ∈ list, mask &&& bit ≠ 0

/-- "Remove UNKNOWN UCAST and MCAST flags, and if both are present, change the lower priority one to
LOC_MAC_IG": the list is in the order of priority. -/
structure Translated (list result : List U32) : Prop where
  length : result.length = list.length
  removed : ∀ mask ∈ result, mask &&& (unknownUcast ||| unknownMcast) = 0
  unchanged : ∀ (i : ℕ) mask, list[i]? = some mask → mask &&& (unknownUcast ||| unknownMcast) = 0 →
    result[i]? = some mask
  alone : ∀ (i : ℕ) mask, list[i]? = some mask → mask &&& (unknownUcast ||| unknownMcast) ≠ 0 →
    ¬ (Reports (list.take (i + 1)) unknownUcast ∧ Reports (list.take (i + 1)) unknownMcast) →
    result[i]? = some (mask &&& ~~~(unknownUcast ||| unknownMcast))
  both : ∀ (i : ℕ) mask, list[i]? = some mask → mask &&& (unknownUcast ||| unknownMcast) ≠ 0 →
    Reports (list.take (i + 1)) unknownUcast → Reports (list.take (i + 1)) unknownMcast →
    result[i]? = some (mask &&& ~~~(unknownUcast ||| unknownMcast) ||| EFX_FILTER_MATCH_LOC_MAC_IG.setWidth 32)

/-! ### What the code does -/

theorem and_not_mask {mask m : U32} (h : mask &&& m = 0) : mask &&& ~~~m = mask := by
  calc mask &&& ~~~m = mask &&& m ||| mask &&& ~~~m := by rw [h]; exact (BitVec.zero_or ..).symm
    _ = mask := by rw [← BitVec.and_or_distrib_left, BitVec.or_not_self, BitVec.and_allOnes]

/-- The multicast bits are among those cleared before. -/
theorem cleared_mcast (mask : U32) : mask &&& ~~~ucastMask &&& mcastMask = 0 := by
  have hnone : ~~~ucastMask &&& mcastMask = 0 := by decide
  rw [BitVec.and_assoc, hnone]
  exact BitVec.and_zero ..

/-- **The loop clears bits 0 to 4**, and never finds a multicast filter. -/
theorem translateFrom_eq (supportUnknownUcast : Bool) (list : List U32) :
    translateFrom supportUnknownUcast false list = list.map (· &&& ~~~ucastMask) := by
  induction list generalizing supportUnknownUcast with
  | nil => rfl
  | cons mask list ih =>
    by_cases h : mask &&& ucastMask = 0
    · have hm : mask &&& mcastMask = 0 := by rw [← and_not_mask h, cleared_mcast]
      simp [translateFrom, h, hm, ih, and_not_mask h]
    · have hne : mask &&& ucastMask ≠ 0 := h
      simp only [translateFrom, if_pos hne, cleared_mcast, ne_eq, not_true_eq_false, if_false, Bool.false_eq_true,
        and_false, ih, List.map_cons]

/-- The bits that are cleared, and those that should be. -/
theorem and_cleared (mask : U32) :
    mask &&& ~~~ucastMask &&& (unknownUcast ||| unknownMcast) = mask &&& (unknownUcast ||| unknownMcast) := by
  have hkept : ~~~ucastMask &&& (unknownUcast ||| unknownMcast) = unknownUcast ||| unknownMcast := by decide
  rw [BitVec.and_assoc, hkept]

/-- **Exactly when the rule is followed**: no mask has a bit that is cleared, or one that should be. -/
theorem translated_iff {out : ParserDispOut} {result : List U32} (h : efxMcdiGetParserDispInfo out = .ok result) :
    Translated out.list result ↔ ∀ mask ∈ out.list, mask &&& (unknownUcast ||| unknownMcast ||| ucastMask) = 0 := by
  have hresult : result = out.list.map (· &&& ~~~ucastMask) := by
    unfold efxMcdiGetParserDispInfo at h
    split at h
    · cases h
    · split_ifs at h
      cases h
      exact translateFrom_eq false out.list
  have hget (i : ℕ) : result[i]? = out.list[i]?.map (· &&& ~~~ucastMask) := by rw [hresult, List.getElem?_map]
  have hsplit (mask : U32) : mask &&& (unknownUcast ||| unknownMcast ||| ucastMask) = 0 ↔
      mask &&& (unknownUcast ||| unknownMcast) = 0 ∧ mask &&& ucastMask = 0 := by
    rw [BitVec.and_or_distrib_left]
    exact BitVec.or_eq_zero_iff
  constructor
  · intro hrule mask hmem
    have hunknown : mask &&& (unknownUcast ||| unknownMcast) = 0 := by
      rw [← and_cleared]
      exact hrule.removed _ (by rw [hresult]; exact List.mem_map_of_mem hmem)
    obtain ⟨i, hi⟩ := List.getElem?_of_mem hmem
    have hsame := hrule.unchanged i mask hi hunknown
    rw [hget, hi] at hsame
    refine (hsplit mask).mpr ⟨hunknown, ?_⟩
    rw [← Option.some.inj hsame, BitVec.and_assoc, BitVec.and_comm (~~~ucastMask), BitVec.and_not_self]
    exact BitVec.and_zero ..
  · intro hnone
    have hid : result = out.list := by
      rw [hresult]
      exact (List.map_congr_left fun mask hmem => and_not_mask ((hsplit mask).mp (hnone mask hmem)).2).trans
        (List.map_id' _)
    have hunknown (mask : U32) (hmem : mask ∈ out.list) : mask &&& (unknownUcast ||| unknownMcast) = 0 :=
      ((hsplit mask).mp (hnone mask hmem)).1
    rw [hid]
    exact ⟨rfl, hunknown, fun i mask hi _ => hi,
      fun i mask hi hne => absurd (hunknown mask (List.mem_of_getElem? hi)) hne,
      fun i mask hi hne => absurd (hunknown mask (List.mem_of_getElem? hi)) hne⟩

/-- A report of one combination: the Ethernet type and the outer VLAN. -/
def plainReport : ParserDispOut := ⟨none, 12, 1, fun _ => 0x140⟩

theorem translated_plain : ∃ result, efxMcdiGetParserDispInfo plainReport = .ok result ∧
    Translated plainReport.list result := by
  have hrun : efxMcdiGetParserDispInfo plainReport = .ok [0x140] := by decide
  have hlist : plainReport.list = [0x140] := by decide
  have hplain : ∀ mask ∈ plainReport.list, mask &&& (unknownUcast ||| unknownMcast ||| ucastMask) = 0 := by
    intro mask hmem
    rw [hlist, List.mem_singleton] at hmem
    rw [hmem]
    decide
  exact ⟨_, hrun, (translated_iff hrun).mpr hplain⟩

/-- A reported unknown unicast destination stays in the list. -/
theorem unknown_kept : ¬ ∀ out result, efxMcdiGetParserDispInfo out = .ok result → Translated out.list result := by
  intro h
  have hrun : efxMcdiGetParserDispInfo ⟨none, 12, 1, fun _ => unknownUcast⟩ = .ok [unknownUcast] := by decide
  have hkept : unknownUcast &&& (unknownUcast ||| unknownMcast) ≠ 0 := by decide
  exact hkept ((h _ _ hrun).removed unknownUcast (List.mem_singleton_self _))

end Sfxge.Filter.Ef10
