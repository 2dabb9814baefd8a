import Sfxge.Mcdi.Sections

/-!
# Mcdi.Encoding — the header of a request and its place in the DMA buffer

A version 1 header has seven bits for the command and eight for the length; a version 2 header has fifteen
and ten, in a second dword.  `sfxge_mcdi_init` sizes the buffer for one dword of header and the longest payload.
`requestStart_iff` says which requests can be read back from their header and fit into the buffer.
-/

namespace Sfxge.Mcdi

open Lib Lib.Prog Errno

variable {ε : Type}

/-! ### Fields of the header -/

theorem toNat_and_mask32_lt (d : U32) {f : Field} (hf : f.width ≤ 32) : (d &&& mask32 f).toNat < 2 ^ f.width := by
  rw [BitVec.toNat_and, toNat_mask32 hf]
  exact Nat.and_lt_two_pow _ (Nat.sub_lt (by positivity) one_pos)

theorem toNat_dwordField_lt (d : U32) {f : Field} (hf : f.width ≤ 32) : (dwordField d f).toNat < 2 ^ f.width :=
  toNat_and_mask32_lt _ hf

/-- The fields of the first header dword. -/
def headerFields (code datalen seq notEpoch xflags : U32) : List (Field × U32) :=
  [(MCDI_HEADER_CODE, code), (MCDI_HEADER_RESYNC, 1), (MCDI_HEADER_DATALEN, datalen), (MCDI_HEADER_SEQ, seq),
    (MCDI_HEADER_NOT_EPOCH, notEpoch), (MCDI_HEADER_ERROR, 0), (MCDI_HEADER_RESPONSE, 0),
    (MCDI_HEADER_XFLAGS, xflags)]

section

variable {code datalen seq notEpoch xflags : U32}

/-- **First dword.**  Values that fit into their fields are read back. -/
theorem dwordField_headerFields (h1 : code.toNat < 2 ^ 7) (h2 : datalen.toNat < 2 ^ 8) (h3 : seq.toNat < 2 ^ 4)
    (h4 : notEpoch.toNat < 2 ^ 1) (h5 : xflags.toNat < 2 ^ 8) :
    ∀ fv ∈ headerFields code datalen seq notEpoch xflags,
      dwordField (populateDword (headerFields code datalen seq notEpoch xflags)) fv.1 = fv.2 := by
  intro fv hmem
  refine dwordField_populateDword ?_ ?_ hmem ?_
  · change List.Pairwise Field.Apart [MCDI_HEADER_CODE, MCDI_HEADER_RESYNC, MCDI_HEADER_DATALEN, MCDI_HEADER_SEQ,
      MCDI_HEADER_NOT_EPOCH, MCDI_HEADER_ERROR, MCDI_HEADER_RESPONSE, MCDI_HEADER_XFLAGS]
    decide
  · simp only [headerFields, List.forall_mem_cons]
    exact ⟨⟨by decide, h1⟩, ⟨by decide, by decide⟩, ⟨by decide, h2⟩, ⟨by decide, h3⟩, ⟨by decide, h4⟩,
      ⟨by decide, by decide⟩, ⟨by decide, by decide⟩, ⟨by decide, h5⟩, by simp⟩
  · have hfields : ∀ g ∈ (headerFields code datalen seq notEpoch xflags).map Prod.fst, g.lbn + g.width ≤ 32 := by
      change ∀ g ∈ [MCDI_HEADER_CODE, MCDI_HEADER_RESYNC, MCDI_HEADER_DATALEN, MCDI_HEADER_SEQ,
        MCDI_HEADER_NOT_EPOCH, MCDI_HEADER_ERROR, MCDI_HEADER_RESPONSE, MCDI_HEADER_XFLAGS], g.lbn + g.width ≤ 32
      decide
    exact hfields fv.1 (List.mem_map_of_mem hmem)

/-- **Second dword.**  Values that fit into their fields are read back. -/
theorem dwordField_extension {cmd len : U32} (hcmd : cmd.toNat < 2 ^ 15) (hlen : len.toNat < 2 ^ 10) :
    ∀ fv ∈ [(MC_CMD_V2_EXTN_IN_EXTENDED_CMD, cmd), (MC_CMD_V2_EXTN_IN_ACTUAL_LEN, len)],
      dwordField (populateDword [(MC_CMD_V2_EXTN_IN_EXTENDED_CMD, cmd), (MC_CMD_V2_EXTN_IN_ACTUAL_LEN, len)]) fv.1 =
        fv.2 := by
  intro fv hmem
  refine dwordField_populateDword ?_ ?_ hmem ?_
  · change List.Pairwise Field.Apart [MC_CMD_V2_EXTN_IN_EXTENDED_CMD, MC_CMD_V2_EXTN_IN_ACTUAL_LEN]
    decide
  · simp only [List.forall_mem_cons]
    exact ⟨⟨by decide, hcmd⟩, ⟨by decide, hlen⟩, by simp⟩
  · have hfields : ∀ g ∈ [MC_CMD_V2_EXTN_IN_EXTENDED_CMD, MC_CMD_V2_EXTN_IN_ACTUAL_LEN], g.lbn + g.width ≤ 32 := by
      decide
    exact hfields fv.1 (List.mem_map_of_mem hmem)

end

/-! ### Reading the header back -/

/-- The command, the length of the payload and the sequence number of a header; none, if the code announces a
second dword that is not there. -/
def decodeHeader : List U32 → Option (U32 × ℕ × U32)
  | [] => none
  | hdr0 :: hdrs =>
    if dwordField hdr0 MCDI_HEADER_CODE ≠ MC_CMD_V2_EXTN then
      some (dwordField hdr0 MCDI_HEADER_CODE, (dwordField hdr0 MCDI_HEADER_DATALEN).toNat,
        dwordField hdr0 MCDI_HEADER_SEQ)
    else hdrs.head?.map fun hdr1 =>
      (dwordField hdr1 MC_CMD_V2_EXTN_IN_EXTENDED_CMD, (dwordField hdr1 MC_CMD_V2_EXTN_IN_ACTUAL_LEN).toNat,
        dwordField hdr0 MCDI_HEADER_SEQ)

/-- The request goes out with a version 2 header. -/
def NeedsV2 (maxVersion : ℕ) (cmd : U32) (len : ℕ) : Prop :=
  2 ≤ maxVersion ∧ (MC_CMD_CMD_SPACE_ESCAPE_7 < cmd ∨ MCDI_CTL_SDU_LEN_MAX_V1 < len)

instance (maxVersion : ℕ) (cmd : U32) (len : ℕ) : Decidable (NeedsV2 maxVersion cmd len) :=
  inferInstanceAs (Decidable (_ ∧ _))

def MCDI_CTL_SDU_LEN_MAX_V2 : ℕ := 0x400

/-- `enc_mcdi_max_payload_length` of a controller with this version of the interface. -/
def encMcdiMaxPayloadLength (maxVersion : ℕ) : ℕ :=
  if 2 ≤ maxVersion then MCDI_CTL_SDU_LEN_MAX_V2 else MCDI_CTL_SDU_LEN_MAX_V1

variable {l : RequestLocals} {evCpl : Bool} {emr : EfxMcdiReq}

theorem notEpoch_lt (newEpoch : Bool) : (if newEpoch then (0 : U32) else 1).toNat < 2 ^ 1 := by
  cases newEpoch <;> decide

theorem xflags_lt (evCpl : Bool) : (if evCpl then MCDI_HEADER_XFLAGS_EVREQ else 0 : U32).toNat < 2 ^ 8 := by
  cases evCpl <;> decide

theorem mcdiHeader_v1 (h : ¬ NeedsV2 l.maxVersion emr.emrCmd emr.emrInLength) :
    mcdiHeader l evCpl emr = [populateDword (headerFields emr.emrCmd (BitVec.ofNat 32 emr.emrInLength) l.seq
      (if l.newEpoch then 0 else 1) (if evCpl then MCDI_HEADER_XFLAGS_EVREQ else 0))] := by
  exact if_neg h

theorem mcdiHeader_v2 (h : NeedsV2 l.maxVersion emr.emrCmd emr.emrInLength) :
    mcdiHeader l evCpl emr = [populateDword (headerFields MC_CMD_V2_EXTN 0 l.seq
      (if l.newEpoch then 0 else 1) (if evCpl then MCDI_HEADER_XFLAGS_EVREQ else 0)),
      populateDword [(MC_CMD_V2_EXTN_IN_EXTENDED_CMD, emr.emrCmd),
        (MC_CMD_V2_EXTN_IN_ACTUAL_LEN, BitVec.ofNat 32 emr.emrInLength)]] := by
  exact if_pos h

theorem length_le_of_not_needsV2 {maxVersion len : ℕ} {cmd : U32} (h : ¬ NeedsV2 maxVersion cmd len)
    (hlen : len ≤ encMcdiMaxPayloadLength maxVersion) : len ≤ MCDI_CTL_SDU_LEN_MAX_V1 := by
  rw [encMcdiMaxPayloadLength] at hlen
  rw [NeedsV2, not_and, not_or] at h
  split_ifs at hlen with hv
  · exact not_lt.mp (h hv).2
  · exact hlen

theorem decodeHeader_single {hdr0 cmd seq : U32} {len : ℕ} :
    decodeHeader [hdr0] = some (cmd, len, seq) ↔ cmd ≠ MC_CMD_V2_EXTN ∧ dwordField hdr0 MCDI_HEADER_CODE = cmd ∧
      (dwordField hdr0 MCDI_HEADER_DATALEN).toNat = len ∧ dwordField hdr0 MCDI_HEADER_SEQ = seq := by
  rw [decodeHeader]
  by_cases hcode : dwordField hdr0 MCDI_HEADER_CODE ≠ MC_CMD_V2_EXTN
  · rw [if_pos hcode, Option.some.injEq, Prod.mk.injEq, Prod.mk.injEq]
    constructor
    · rintro ⟨rfl, hlen, hseq⟩
      exact ⟨hcode, rfl, hlen, hseq⟩
    · exact fun h => h.2
  · rw [if_neg hcode]
    constructor
    · nofun
    · rintro ⟨hne, rfl, -⟩
      exact absurd hne hcode

/-- A version 1 header is read back unless its command needs the eighth bit, or is the escape code. -/
theorem decode_v1 (h : ¬ NeedsV2 l.maxVersion emr.emrCmd emr.emrInLength) (hseq : l.seq.toNat < 2 ^ 4)
    (hlen : emr.emrInLength ≤ MCDI_CTL_SDU_LEN_MAX_V1) :
    decodeHeader (mcdiHeader l evCpl emr) = some (emr.emrCmd, emr.emrInLength, l.seq) ↔ emr.emrCmd.toNat < 0x7f := by
  have hlen8 : emr.emrInLength < 2 ^ 8 := lt_of_le_of_lt hlen (by decide)
  have hofNat : (BitVec.ofNat 32 emr.emrInLength).toNat = emr.emrInLength := by
    rw [BitVec.toNat_ofNat, Nat.mod_eq_of_lt (by omega)]
  rw [mcdiHeader_v1 h, decodeHeader_single]
  constructor
  · rintro ⟨hne, hcode, -, -⟩
    have h7 : emr.emrCmd.toNat < 2 ^ 7 := by
      rw [← hcode]
      exact toNat_dwordField_lt _ (by decide)
    have hne7 : emr.emrCmd.toNat ≠ 0x7f := fun h7f => hne (BitVec.eq_of_toNat_eq h7f)
    omega
  · intro hcmd
    have hread := dwordField_headerFields (by omega : emr.emrCmd.toNat < 2 ^ 7) (hofNat.trans_lt hlen8) hseq
      (notEpoch_lt l.newEpoch) (xflags_lt evCpl)
    refine ⟨?_, hread (MCDI_HEADER_CODE, emr.emrCmd) (by simp [headerFields]), ?_,
      hread (MCDI_HEADER_SEQ, l.seq) (by simp [headerFields])⟩
    · intro h7f
      rw [h7f] at hcmd
      exact absurd hcmd (by decide)
    · rw [hread (MCDI_HEADER_DATALEN, BitVec.ofNat 32 emr.emrInLength) (by simp [headerFields]), hofNat]

/-- A version 2 header is read back if the command has fifteen bits and the length has ten. -/
theorem decode_v2 (h : NeedsV2 l.maxVersion emr.emrCmd emr.emrInLength) (hseq : l.seq.toNat < 2 ^ 4)
    (hlen : emr.emrInLength < 2 ^ 32) :
    decodeHeader (mcdiHeader l evCpl emr) = some (emr.emrCmd, emr.emrInLength, l.seq) ↔
      emr.emrCmd.toNat < 2 ^ 15 ∧ emr.emrInLength < 2 ^ 10 := by
  have hread := dwordField_headerFields (by decide : MC_CMD_V2_EXTN.toNat < 2 ^ 7)
    (by decide : (0 : U32).toNat < 2 ^ 8) hseq (notEpoch_lt l.newEpoch) (xflags_lt evCpl)
  have hcode := hread (MCDI_HEADER_CODE, MC_CMD_V2_EXTN) (by simp [headerFields])
  have hs := hread (MCDI_HEADER_SEQ, l.seq) (by simp [headerFields])
  have hofNat : (BitVec.ofNat 32 emr.emrInLength).toNat = emr.emrInLength := by
    rw [BitVec.toNat_ofNat, Nat.mod_eq_of_lt hlen]
  rw [mcdiHeader_v2 h, decodeHeader, hcode, hs, if_neg (not_not.mpr rfl)]
  simp only [List.head?_cons, Option.map_some, Option.some.injEq, Prod.mk.injEq, and_true]
  constructor
  · rintro ⟨hcmd, hl⟩
    refine ⟨?_, ?_⟩
    · rw [← hcmd]
      exact toNat_dwordField_lt _ (by decide)
    · rw [← hl]
      exact toNat_dwordField_lt _ (by decide)
  · rintro ⟨hcmd, hl⟩
    have hext := dwordField_extension hcmd (hofNat.trans_lt hl)
    refine ⟨hext (MC_CMD_V2_EXTN_IN_EXTENDED_CMD, emr.emrCmd) (by simp), ?_⟩
    rw [hext (MC_CMD_V2_EXTN_IN_ACTUAL_LEN, BitVec.ofNat 32 emr.emrInLength) (by simp), hofNat]

/-! ### The DMA buffer -/

/-- `efsys_mem_t`: so many bytes of DMA memory, in dwords. -/
structure EfsysMem where
  esmSize : ℕ
  dword : ℕ → U32

/-- `EFSYS_MEM_WRITED`; a write that is not wholly inside the memory is undefined. -/
def efsysMemWrited (offset : ℕ) (edp : U32) : Prog EfsysMem ε Unit := fun esmp =>
  if offset + 4 ≤ esmp.esmSize then
    .ret () { esmp with dword := Function.update esmp.dword (offset / 4) edp }
  else .fault

/-- A round of `for (pos = 0; pos < len; pos += sizeof (efx_dword_t))`, which copies `srcp` to `base`. -/
def writeRound (base : ℕ) (srcp : List U32) (len pos : ℕ) : Prog EfsysMem ε (Unit ⊕ ℕ) := do
  if pos < len then
    efsysMemWrited (base + pos) (srcp.getD (pos / 4) 0)
    return .inr (pos + 4)
  return .inl ()

def writeDwords (base : ℕ) (srcp : List U32) (len : ℕ) : Prog EfsysMem ε Unit :=
  iterate (writeRound base srcp len) (len / 4 + 2) 0

/-- `ef10_mcdi_send_request`, without the doorbell. -/
def ef10McdiSendRequest (hdrp : List U32) (hdrLen : ℕ) (sdup : List U32) (sduLen : ℕ) : Prog EfsysMem ε Unit := do
  -- Write the header
  writeDwords 0 hdrp hdrLen
  -- Write the payload
  writeDwords hdrLen sdup sduLen

/-- `msg_buf_size` of `sfxge_mcdi_init` -/
def msgBufSize : ℕ := 4 + MCDI_CTL_SDU_LEN_MAX_V2

/-- The memory after `n` dwords of `srcp`, from the `j`-th on, are copied to the dword `b`. -/
def EfsysMem.copied (esmp : EfsysMem) (b : ℕ) (srcp : List U32) (j n : ℕ) : EfsysMem where
  esmSize := esmp.esmSize
  dword i := if b + j ≤ i ∧ i < b + j + n then srcp.getD (i - b) 0 else esmp.dword i

@[simp] theorem esmSize_copied (esmp : EfsysMem) (b : ℕ) (srcp : List U32) (j n : ℕ) :
    (esmp.copied b srcp j n).esmSize = esmp.esmSize := rfl

theorem copied_zero (esmp : EfsysMem) (b : ℕ) (srcp : List U32) (j : ℕ) : esmp.copied b srcp j 0 = esmp := by
  have hdword : (esmp.copied b srcp j 0).dword = esmp.dword := by
    funext i
    exact if_neg (by omega)
  cases esmp
  exact congrArg (EfsysMem.mk _) hdword

/-- One dword and the rest. -/
theorem copied_succ (esmp : EfsysMem) (b : ℕ) (srcp : List U32) (j n : ℕ) :
    EfsysMem.copied { esmp with dword := Function.update esmp.dword (b + j) (srcp.getD j 0) } b srcp (j + 1) n =
      esmp.copied b srcp j (n + 1) := by
  refine congrArg (EfsysMem.mk _) (funext fun i => ?_)
  dsimp only
  by_cases hi : i = b + j
  · rw [hi, Function.update_self, if_neg (by omega), if_pos (by omega), Nat.add_sub_cancel_left]
  · rw [Function.update_of_ne hi]
    exact if_congr (by omega) rfl rfl

/-- The loop from the `j`-th dword on, with `n` still to come. -/
theorem iterate_writeRound {b len : ℕ} {srcp : List U32} (n : ℕ) :
    ∀ {j fuel : ℕ} {esmp : EfsysMem}, j + n = (len + 3) / 4 → n < fuel →
      (iterate (writeRound (4 * b) srcp len) fuel (4 * j) : Prog EfsysMem ε Unit) esmp =
        if n = 0 ∨ 4 * (b + j + n) ≤ esmp.esmSize then .ret () (esmp.copied b srcp j n) else .fault := by
  induction n with
  | zero =>
    intro j fuel esmp hj hfuel
    obtain ⟨fuel, rfl⟩ := Nat.exists_eq_succ_of_ne_zero (Nat.ne_zero_of_lt hfuel)
    have hround : (writeRound (4 * b) srcp len (4 * j) : Prog EfsysMem ε _) esmp = .ret (.inl ()) esmp := by
      rw [writeRound, if_neg (by omega)]
      rfl
    rw [iterate_inl fuel hround, if_pos (Or.inl rfl), copied_zero]
  | succ n ih =>
    intro j fuel esmp hj hfuel
    obtain ⟨fuel, rfl⟩ := Nat.exists_eq_succ_of_ne_zero (Nat.ne_zero_of_lt hfuel)
    have hdiv : 4 * j / 4 = j := by omega
    have hoff : (4 * b + 4 * j) / 4 = b + j := by omega
    by_cases hin : 4 * b + 4 * j + 4 ≤ esmp.esmSize
    · have hround : (writeRound (4 * b) srcp len (4 * j) : Prog EfsysMem ε _) esmp =
          .ret (.inr (4 * (j + 1))) { esmp with dword := Function.update esmp.dword (b + j) (srcp.getD j 0) } := by
        rw [writeRound, if_pos (by omega), hdiv]
        have hwrite : (efsysMemWrited (4 * b + 4 * j) (srcp.getD j 0) : Prog EfsysMem ε Unit) esmp =
            .ret () { esmp with dword := Function.update esmp.dword (b + j) (srcp.getD j 0) } := by
          rw [efsysMemWrited, if_pos hin, hoff]
        rw [bind_of_ret hwrite]
        rfl
      rw [iterate_inr fuel hround, ih (by omega) (by omega), copied_succ]
      exact if_congr (by dsimp only; omega) rfl rfl
    · have hround : (writeRound (4 * b) srcp len (4 * j) : Prog EfsysMem ε _) esmp = .fault := by
        rw [writeRound, if_pos (by omega)]
        have hwrite : (efsysMemWrited (4 * b + 4 * j) (srcp.getD (4 * j / 4) 0) : Prog EfsysMem ε Unit) esmp =
            .fault := if_neg hin
        exact bind_of_fault hwrite
      rw [iterate_fault fuel hround, if_neg (by omega)]

theorem writeDwords_apply {b len : ℕ} {srcp : List U32} {esmp : EfsysMem} :
    (writeDwords (4 * b) srcp len : Prog EfsysMem ε Unit) esmp =
      if (len + 3) / 4 = 0 ∨ 4 * (b + (len + 3) / 4) ≤ esmp.esmSize then
        .ret () (esmp.copied b srcp 0 ((len + 3) / 4))
      else .fault := by
  exact @iterate_writeRound ε b len srcp ((len + 3) / 4) 0 (len / 4 + 2) esmp (by omega) (by omega)

/-- **What a send writes.**  The header and the whole dwords of the payload, if they all lie inside the memory. -/
theorem ef10SendRequest_apply {hdr sdu : List U32} {sduLen : ℕ} (hhdr : hdr ≠ []) {esmp : EfsysMem} :
    (ef10McdiSendRequest hdr (4 * hdr.length) sdu sduLen : Prog EfsysMem ε Unit) esmp =
      if 4 * (hdr.length + (sduLen + 3) / 4) ≤ esmp.esmSize then
        .ret () ((esmp.copied 0 hdr 0 hdr.length).copied hdr.length sdu 0 ((sduLen + 3) / 4))
      else .fault := by
  have hpos : 0 < hdr.length := List.length_pos_iff.mpr hhdr
  have hwords : (4 * hdr.length + 3) / 4 = hdr.length := by omega
  have hhead : (writeDwords 0 hdr (4 * hdr.length) : Prog EfsysMem ε Unit) esmp =
      if 4 * hdr.length ≤ esmp.esmSize then .ret () (esmp.copied 0 hdr 0 hdr.length) else .fault := by
    have h0 := @writeDwords_apply ε 0 (4 * hdr.length) hdr esmp
    rw [hwords] at h0
    exact h0.trans (if_congr (by omega) rfl rfl)
  rw [ef10McdiSendRequest]
  by_cases hroom : 4 * hdr.length ≤ esmp.esmSize
  · rw [if_pos hroom] at hhead
    rw [bind_of_ret hhead, writeDwords_apply, esmSize_copied]
    exact if_congr (by omega) rfl rfl
  · rw [if_neg hroom] at hhead
    rw [bind_of_fault hhead, if_neg (by omega)]

/-- The transport of the interface is this one, where the buffer has room and the payload its length. -/
theorem ef10SendRequest_mem {hdr sdu : List U32} {sduLen size : ℕ} {esmp : EfsysMem} (hhdr : hdr ≠ [])
    (hsdu : (sduLen + 3) / 4 ≤ sdu.length) {enp enp' : Nic}
    (hef10 : (ef10McdiSendRequest hdr (4 * hdr.length) sdu sduLen : Prog EfsysMem ε Unit) ⟨size, enp.mem⟩ =
      .ret () esmp) (hsend : (efxMcdiSendRequest hdr sdu sduLen : Prog Nic ε Unit) enp = .ret () enp') :
    esmp.dword = enp'.mem := by
  rw [ef10SendRequest_apply hhdr] at hef10
  split_ifs at hef10
  cases hef10
  cases hsend
  funext i
  have htake : (sdu.take ((sduLen + 3) / 4)).length = (sduLen + 3) / 4 := by
    rw [List.length_take, Nat.min_eq_left hsdu]
  simp only [EfsysMem.copied, Nat.add_zero, Nat.zero_add, Nat.sub_zero]
  rcases Nat.lt_or_ge i hdr.length with hi | hi
  · rw [if_neg (by omega), if_pos ⟨Nat.zero_le i, hi⟩, List.getD_append _ _ _ _ hi, List.getD_eq_getElem _ _ hi,
      List.getD_eq_getElem _ _ hi]
  · rw [List.getD_append_right _ _ _ _ hi]
    by_cases hin : i < hdr.length + (sduLen + 3) / 4
    · rw [if_pos ⟨hi, hin⟩, List.getD_eq_getElem _ _ (by omega), List.getD_eq_getElem _ _ (by omega),
        List.getElem_take]
    · rw [if_neg (by omega), if_neg (by omega), List.getD_eq_default _ _ (by omega)]

/-! ### Requests -/

/-- The header of the request sent last. -/
def Nic.lastHeader (enp : Nic) : List U32 := enp.sent.headD []

/-- `ef10_mcdi_send_request` writes the request wholly inside the buffer of `sfxge_mcdi_init`. -/
def InBuffer (hdr : List U32) (emr : EfxMcdiReq) : Prop :=
  ∀ dword, ∃ esmp, (ef10McdiSendRequest hdr (4 * hdr.length) emr.emrInBuf emr.emrInLength : Prog EfsysMem Empty Unit)
    ⟨msgBufSize, dword⟩ = .ret () esmp

/-- The header is read back, and on EF10 the request is in the buffer. -/
def Encoded (family : EfxFamily) (hdr : List U32) (seq : U32) (emr : EfxMcdiReq) : Prop :=
  decodeHeader hdr = some (emr.emrCmd, emr.emrInLength, seq) ∧ (family = .HUNTINGTON → InBuffer hdr emr)

/-- A command below the escape code in a version 1 header; in a version 2 header, a command of fifteen bits and a
length of ten that on EF10 leaves room for the second dword. -/
def Encodable (family : EfxFamily) (maxVersion : ℕ) (cmd : U32) (len : ℕ) : Prop :=
  (NeedsV2 maxVersion cmd len →
    cmd.toNat < 2 ^ 15 ∧ len < 2 ^ 10 ∧ (family = .HUNTINGTON → len ≤ MCDI_CTL_SDU_LEN_MAX_V2 - 4)) ∧
  (¬ NeedsV2 maxVersion cmd len → cmd.toNat < 0x7f)

instance (family : EfxFamily) (maxVersion : ℕ) (cmd : U32) (len : ℕ) :
    Decidable (Encodable family maxVersion cmd len) :=
  inferInstanceAs (Decidable (_ ∧ _))

theorem inBuffer_iff {hdr : List U32} (hhdr : hdr ≠ []) :
    InBuffer hdr emr ↔ 4 * (hdr.length + (emr.emrInLength + 3) / 4) ≤ msgBufSize := by
  constructor
  · intro h
    obtain ⟨esmp, hrun⟩ := h fun _ => 0
    rw [ef10SendRequest_apply hhdr] at hrun
    split_ifs at hrun with hroom
    exact hroom
  · intro hroom dword
    exact ⟨_, (ef10SendRequest_apply hhdr).trans (if_pos hroom)⟩

theorem encoded_iff (family : EfxFamily) (hseq : l.seq.toNat < 2 ^ 4)
    (hlen : emr.emrInLength ≤ encMcdiMaxPayloadLength l.maxVersion) :
    Encoded family (mcdiHeader l evCpl emr) l.seq emr ↔
      Encodable family l.maxVersion emr.emrCmd emr.emrInLength := by
  rw [Encoded, Encodable]
  have hmax : MCDI_CTL_SDU_LEN_MAX_V2 = 1024 := rfl
  have hsize : msgBufSize = 1028 := rfl
  by_cases hv : NeedsV2 l.maxVersion emr.emrCmd emr.emrInLength
  · have hlen2 : emr.emrInLength ≤ MCDI_CTL_SDU_LEN_MAX_V2 := by
      rwa [encMcdiMaxPayloadLength, if_pos hv.1] at hlen
    have hroom : InBuffer (mcdiHeader l evCpl emr) emr ↔ emr.emrInLength ≤ MCDI_CTL_SDU_LEN_MAX_V2 - 4 := by
      rw [inBuffer_iff (by simp [mcdiHeader_v2 hv]), mcdiHeader_v2 hv, List.length_cons, List.length_singleton]
      omega
    rw [decode_v2 hv hseq (by omega), hroom, and_assoc]
    exact ⟨fun h => ⟨fun _ => h, fun hn => absurd hv hn⟩, fun h => h.1 hv⟩
  · have hlen1 := length_le_of_not_needsV2 hv hlen
    have hmax1 : MCDI_CTL_SDU_LEN_MAX_V1 = 252 := rfl
    have hroom : InBuffer (mcdiHeader l evCpl emr) emr := by
      rw [inBuffer_iff (by simp [mcdiHeader_v1 hv]), mcdiHeader_v1 hv, List.length_singleton]
      omega
    rw [decode_v1 hv hseq hlen1]
    exact ⟨fun h => ⟨fun hp => absurd hp hv, fun _ => h.1⟩, fun h => ⟨h.2 hv, fun _ => hroom⟩⟩

/-- **Which requests are encoded.**  A request of an admitted length whose header is built and sent, whatever comes
between the locked section and the rest, can be read back and lies in the buffer if and only if its command and
length are encodable. -/
theorem requestStart_iff {enp enp1 enp2 enp3 : Nic} {emrp : ℕ} {evCpl : Bool} {l : RequestLocals}
    (hstart : (efxMcdiRequestStartLocked emrp evCpl : Prog Nic Empty _) enp = .ret l enp1)
    (hsend : (efxMcdiRequestStartSend emrp evCpl l : Prog Nic Empty _) enp2 = .ret () enp3)
    (hlen : (enp2.req emrp).emrInLength ≤ encMcdiMaxPayloadLength enp.emip.emiMaxVersion) :
    Encoded enp2.family enp3.lastHeader (enp.emip.emiSeq &&& mask32 MCDI_HEADER_SEQ) (enp2.req emrp) ↔
      Encodable enp2.family enp.emip.emiMaxVersion (enp2.req emrp).emrCmd (enp2.req emrp).emrInLength := by
  obtain ⟨-, -, rfl, -⟩ := start_inv hstart
  cases hsend
  exact encoded_iff enp2.family (toNat_and_mask32_lt (f := MCDI_HEADER_SEQ) enp.emip.emiSeq (by decide)) hlen

def MC_CMD_NVRAM_WRITE : U32 := 0x3a

/-- An EF10 controller and a request for `cmd` with `len` bytes of zero. -/
def requesting (cmd : U32) (len : ℕ) : Nic where
  family := .HUNTINGTON
  modMcdi := true
  emip := ⟨2, 5, none, false, false, 0, 0, 0⟩
  req _ := ⟨false, cmd, List.replicate ((len + 3) / 4) 0, len, none, none, 0, 0, 0, 0⟩
  mem _ := 0
  sftStatus := 0
  sent := []
  exceptions := []

/-- A write of 1020 bytes is read back and lies in the buffer. -/
theorem nvramWrite_encoded : ∃ l enp1 enp3,
    (efxMcdiRequestStartLocked 0 true : Prog Nic Empty _) (requesting MC_CMD_NVRAM_WRITE 1020) = .ret l enp1 ∧
    (efxMcdiRequestStartSend 0 true l : Prog Nic Empty _) enp1 = .ret () enp3 ∧
    Encoded .HUNTINGTON enp3.lastHeader 5 ((requesting MC_CMD_NVRAM_WRITE 1020).req 0) := by
  refine ⟨⟨5, false, 2⟩, _, _, rfl, rfl, ?_⟩
  exact (@requestStart_iff (requesting MC_CMD_NVRAM_WRITE 1020) _ _ _ 0 true ⟨5, false, 2⟩ rfl rfl (by decide)).mpr
    (by decide : Encodable .HUNTINGTON 2 MC_CMD_NVRAM_WRITE 1020)

/-- A write of 1024 bytes has length 0 in its header, and its last dword is behind the buffer. -/
theorem nvramWrite_not_encoded : ¬ ∀ (enp enp1 enp2 enp3 : Nic) (emrp : ℕ) (evCpl : Bool) (l : RequestLocals),
    (efxMcdiRequestStartLocked emrp evCpl : Prog Nic Empty _) enp = .ret l enp1 →
    (efxMcdiRequestStartSend emrp evCpl l : Prog Nic Empty _) enp2 = .ret () enp3 →
    (enp2.req emrp).emrInLength ≤ encMcdiMaxPayloadLength enp.emip.emiMaxVersion →
    Encoded enp2.family enp3.lastHeader (enp.emip.emiSeq &&& mask32 MCDI_HEADER_SEQ) (enp2.req emrp) := by
  intro h
  have henc := h (requesting MC_CMD_NVRAM_WRITE 1024) _ (requesting MC_CMD_NVRAM_WRITE 1024) _ 0 true ⟨5, false, 2⟩
    rfl rfl (by decide)
  have hcan : Encodable .HUNTINGTON 2 MC_CMD_NVRAM_WRITE 1024 :=
    (@encoded_iff ⟨5, false, 2⟩ true ((requesting MC_CMD_NVRAM_WRITE 1024).req 0) .HUNTINGTON (by decide)
      (by decide)).mp henc
  exact absurd hcan (by decide)

end Sfxge.Mcdi
