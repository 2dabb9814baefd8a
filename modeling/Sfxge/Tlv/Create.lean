import Sfxge.Tlv.Partition

/-!
# Tlv.Create — `ef10_nvram_buffer_create`

Creation fills the buffer with `0xff` and inserts header and trailer before an END tag.  Its cursor's
limit is the end of the buffer, one word more than everywhere else; the walk over the blank rest of
the buffer finds no END tag there and reads nothing behind the buffer.
-/

namespace Sfxge.Tlv

open Lib Lib.Prog Errno

/-- A buffer with an END tag behind `pre` and blank from there on. -/
def blankBytes (pre : Bytes) (k : ℕ) (beyond : Bytes) : Bytes :=
  pre ++ le 4 TLV_TAG_END ++ List.replicate k 0xff ++ beyond

variable {pre beyond : Bytes} {k : ℕ}

theorem length_blankBytes (pre : Bytes) (k : ℕ) (beyond : Bytes) :
    (blankBytes pre k beyond).length = pre.length + 4 + k + beyond.length := by
  simp [blankBytes]
  omega

theorem blank_end : At (blankBytes pre k beyond) pre.length (le 4 TLV_TAG_END) := by
  rw [blankBytes, List.append_assoc (pre ++ _)]
  exact At.mid rfl

theorem u32_blank_end (pre : Bytes) (k : ℕ) (beyond : Bytes) :
    u32 (blankBytes pre k beyond) pre.length = TLV_TAG_END := by
  rw [blank_end.u32_eq]
  decide

/-- No word of the blank rest is an END tag. -/
theorem u32_blank {p : ℕ} (h1 : pre.length + 4 ≤ p) (h2 : p + 4 ≤ pre.length + 4 + k) :
    u32 (blankBytes pre k beyond) p ≠ TLV_TAG_END := by
  have hat : At (blankBytes pre k beyond) (pre.length + 4) (List.replicate k 0xff) := by
    rw [blankBytes]
    exact At.mid (by simp)
  obtain ⟨i, rfl⟩ := Nat.exists_eq_add_of_le h1
  have hs := hat.slice_sub (q := i) (n := 4) (by simp; omega)
  have hff : slice (List.replicate k (0xff : UInt8)) i 4 = List.replicate 4 0xff := by
    rw [slice, List.drop_replicate, List.take_replicate]
    congr 1
    omega
  rw [u32, hs, hff]
  decide

/-- The walk over the blank rest finds nothing and touches only words of the buffer. -/
theorem blank_segmentStep (pre beyond : Bytes) (hk : 4 ≤ k) (last : ℕ) :
    tlvLastSegmentEndStep ((pre.length + 4 + k : ℕ) : ℤ) (last, pre.length + 4)
        (blankBytes pre k beyond) = .ret (.inl last) (blankBytes pre k beyond) := by
  have hlen := length_blankBytes pre k beyond
  have hlim : ((pre.length + 4 + k : ℕ) : ℤ) ≤ (blankBytes pre k beyond).length := by omega
  let c : TlvCursor := ⟨pre.length + 4, pre.length + 4, none, ((pre.length + 4 + k : ℕ) : ℤ)⟩
  have hnone : find? (blankBytes pre k beyond) c TLV_TAG_END = none := by
    cases hf : find? (blankBytes pre k beyond) c TLV_TAG_END with
    | none => rfl
    | some q =>
      obtain ⟨-, ht, hb⟩ := find?_spec hf
      have hq : q = pre.length + 4 ∨ (q : ℤ) ≤ ((pre.length + 4 + k : ℕ) : ℤ) - 4 := seek_end_bound hf
      exact absurd ht (u32_blank hb (by omega))
  rw [tlvLastSegmentEndStep]
  by_cases hv : Valid (blankBytes pre k beyond) c
  · have hinit : tlvInitCursor (pre.length + 4) ((pre.length + 4 + k : ℕ) : ℤ) (pre.length + 4)
        (blankBytes pre k beyond) = .ret c (blankBytes pre k beyond) := by
      have := tlvValidateState_ret_of_bound (c := c) hlim (by simp only [c]; omega) hv
      rw [tlvInitCursor, bind_of_ret this]; rfl
    rw [bind_of_ret (attempt_of_ret hinit)]
    rcases tlvFind_spec_of_bound (c := c) hlim (Or.inr rfl)
      (by simp only [c]; omega) with ⟨q, hq, -⟩ | ⟨-, e, he⟩
    · rw [hnone] at hq; cases hq
    · dsimp only
      rw [bind_of_ret (attempt_of_err he)]; rfl
  · obtain ⟨e, he⟩ := tlvValidateState_err_of_bound (c := c) hlim (by simp only [c]; omega) hv
    have hinit : tlvInitCursor (pre.length + 4) ((pre.length + 4 + k : ℕ) : ℤ) (pre.length + 4)
        (blankBytes pre k beyond) = .err e (blankBytes pre k beyond) := by
      rw [tlvInitCursor, bind_of_err he]
    rw [bind_of_ret (attempt_of_err hinit)]; rfl

/-- The chain in front of the blank rest is the last segment. -/
theorem blank_lastSegmentEnd {c : TlvCursor} (hk : 4 ≤ k) (hb : c.block = 0)
    (hl : c.limit = ((pre.length + 4 + k : ℕ) : ℤ))
    (hinit : tlvInitCursor 0 c.limit 0 (blankBytes pre k beyond) =
      .ret ⟨0, 0, none, c.limit⟩ (blankBytes pre k beyond))
    (hfind : tlvFind ⟨0, 0, none, c.limit⟩ TLV_TAG_END (blankBytes pre k beyond) =
      .ret ⟨0, pre.length, none, c.limit⟩ (blankBytes pre k beyond)) :
    tlvLastSegmentEnd c (blankBytes pre k beyond) = .ret pre.length (blankBytes pre k beyond) := by
  have hstep : tlvLastSegmentEndStep c.limit (0, 0) (blankBytes pre k beyond) =
      .ret (.inr (pre.length, pre.length + 4)) (blankBytes pre k beyond) := by
    rw [tlvLastSegmentEndStep, bind_of_ret (attempt_of_ret hinit)]
    dsimp only
    rw [bind_of_ret (attempt_of_ret hfind)]; rfl
  have hlast := blank_segmentStep pre beyond hk pre.length
  obtain ⟨n, hn⟩ : ∃ n, (blankBytes pre k beyond).length + 1 = n + 2 :=
    ⟨pre.length + 3 + k + beyond.length, by rw [length_blankBytes]; omega⟩
  rw [tlvLastSegmentEnd, hb]
  change iterate _ ((blankBytes pre k beyond).length + 1) _ _ = _
  rw [hn, iterate_inr (n + 1) hstep, hl]
  exact iterate_inl n hlast

/-- **Insertion before the END tag** of a chain with a blank rest. -/
theorem blank_insert (pre beyond : Bytes) {c : TlvCursor} (tag : ℕ) (data : Bytes) (hk : 4 ≤ k)
    (hb : c.block = 0) (hc : c.current = pre.length) (hl : c.limit = ((pre.length + 4 + k : ℕ) : ℤ))
    (hdata : data.length < 4294967296) (htag : tag ≠ TLV_TAG_END)
    (hreq : tlvRequireEnd c (blankBytes pre k beyond) =
      .ret { c with endTag := some (pre.length : ℤ) } (blankBytes pre k beyond))
    (hinit : tlvInitCursor 0 c.limit 0 (blankBytes pre k beyond) =
      .ret ⟨0, 0, none, c.limit⟩ (blankBytes pre k beyond))
    (hfind : tlvFind ⟨0, 0, none, c.limit⟩ TLV_TAG_END (blankBytes pre k beyond) =
      .ret ⟨0, pre.length, none, c.limit⟩ (blankBytes pre k beyond)) :
    tlvInsert c tag data (blankBytes pre k beyond) =
      if (newItem tag data).length ≤ k then
        .ret { c with endTag := some ((pre ++ newItem tag data).length : ℤ) }
          (blankBytes (pre ++ newItem tag data) (k - (newItem tag data).length) beyond)
      else .err ENOSPC (blankBytes pre k beyond) := by
  have hlen := length_blankBytes pre k beyond
  have hi := length_newItem_of_lt tag hdata
  have hval : tlvValidateState c (blankBytes pre k beyond) = .ret () (blankBytes pre k beyond) := by
    refine tlvValidateState_ret_of_bound (by omega) (by omega) ?_
    have := valid_end (c := c) (u32_blank_end pre k beyond) (by omega) (by omega)
    rwa [← hc, at_self] at this
  have hlse := blank_lastSegmentEnd (c := { c with endTag := some (pre.length : ℤ) }) hk hb hl hinit hfind
  rw [tlvInsert, bind_of_ret hval, bind_of_ret hreq, bind_of_ret (ensure_pos htag), bind_of_ret hlse]
  by_cases hroom : (newItem tag data).length ≤ k
  swap
  · rw [if_neg hroom]
    exact bind_of_err (ensure_neg (by dsimp only; omega))
  have hm : blankBytes pre k beyond = pre ++ le 4 TLV_TAG_END ++
      List.replicate (newItem tag data).length 0xff ++
        (List.replicate (k - (newItem tag data).length) 0xff ++ beyond) := by
    have hk' : k = (newItem tag data).length + (k - (newItem tag data).length) := by omega
    rw [blankBytes]
    conv_lhs => rw [hk', List.replicate_add]
    simp only [List.append_assoc]
  have hsplit := openGap_split pre (le 4 TLV_TAG_END) (newItem tag data)
    (List.replicate (newItem tag data).length 0xff)
    (List.replicate (k - (newItem tag data).length) 0xff ++ beyond) (p := pre.length)
    (q := pre.length + 4) (d := (newItem tag data).length) rfl (by simp) (by simp) (by simp) rfl
  rw [← hm] at hsplit
  have hsp : span pre.length (pre.length + 4) = 4 := by simp [span]
  have hmove : (memmove ((c.current + 4 * tlvDelta data.length : ℕ) : ℤ) c.current
      (wordSpan ((pre.length : ℤ) + 4 - c.current)) : BufProg Unit) (blankBytes pre k beyond) =
      .ret () (openGap (blankBytes pre k beyond) pre.length (pre.length + 4)
        (newItem tag data).length) := by
    rw [hc, hi]
    exact memmove_span (q := pre.length + 4) (by omega) (by omega) (by omega)
  have hgap := length_openGap (m := blankBytes pre k beyond) (p := pre.length) (q := pre.length + 4)
    (d := (newItem tag data).length) (by omega) (by omega)
  rw [if_pos hroom, bind_of_ret (ensure_pos (by dsimp only; omega))]
  dsimp only
  rw [bind_of_ret hmove, bind_of_ret (tlvWrite_ret (by dsimp only; omega))]
  dsimp only
  have hend : (pre.length : ℤ) + 4 * (tlvDelta data.length : ℤ) =
      ((pre ++ newItem tag data).length : ℤ) := by
    rw [List.length_append]
    omega
  have hres : pre ++ newItem tag data ++ le 4 TLV_TAG_END ++
      (List.replicate (k - (newItem tag data).length) 0xff ++ beyond) =
      blankBytes (pre ++ newItem tag data) (k - (newItem tag data).length) beyond := by
    rw [blankBytes]
    simp only [List.append_assoc]
  rw [hc, hsplit, Option.map_some, hend, hres, pure_apply]

/-! ### The two insertions -/

/-- The buffer when the END tag has been written: nothing but it. -/
theorem blank_nil {size : ℕ} (h : 4 ≤ size) (m : Bytes) :
    splice (splice m 0 (List.replicate size 0xff)) 0 (le 4 TLV_TAG_END) =
      blankBytes [] (size - 4) (m.drop size) := by
  have e : splice m 0 (List.replicate size 0xff) = List.replicate size 0xff ++ m.drop size := by
    simp [splice]
  have e2 : List.replicate size (0xff : UInt8) =
      List.replicate 4 0xff ++ List.replicate (size - 4) 0xff := by
    rw [← List.replicate_add]
    congr 1
    omega
  rw [e, e2, splice, blankBytes]
  simp [List.drop_append]

theorem blank_nil_find (beyond : Bytes) {limit : ℤ} (hl : limit = ((0 + 4 + k : ℕ) : ℤ)) :
    tlvFind ⟨0, 0, none, limit⟩ TLV_TAG_END (blankBytes [] k beyond) =
      .ret ⟨0, 0, none, limit⟩ (blankBytes [] k beyond) := by
  have hlen := length_blankBytes [] k beyond
  rw [List.length_nil] at hlen
  have hv : Valid (blankBytes [] k beyond) ((⟨0, 0, none, limit⟩ : TlvCursor).at 0) :=
    valid_end (u32_blank_end _ _ _) (le_refl _) (by dsimp only; omega)
  have hq : find? (blankBytes [] k beyond) ⟨0, 0, none, limit⟩ TLV_TAG_END = some 0 := by
    rw [find?, seekFrom, seek, if_pos hv]
    exact if_pos (u32_blank_end _ _ _)
  rcases tlvFind_spec_of_bound (m := blankBytes [] k beyond) (c := ⟨0, 0, none, limit⟩) (by dsimp only; omega)
    (Or.inr rfl) (by dsimp only; omega) with
    ⟨q, hq', hr⟩ | ⟨hn, -⟩
  · rw [hq] at hq'; cases hq'; exact hr
  · rw [hq] at hn; cases hn

theorem blank_header (t : ℕ) :
    At (blankBytes (headerBytes t 1 0) k beyond) 0 (headerTlv t 1 0).bytes := by
  rw [headerTlv_bytes, blankBytes]
  exact ⟨le 4 TLV_TAG_END ++ (List.replicate k 0xff ++ beyond), by
    rw [List.drop_zero]; simp only [List.append_assoc]⟩

theorem blank_header_find {limit : ℤ} (t : ℕ) (hl : limit = ((20 + 4 + k : ℕ) : ℤ)) :
    tlvFind ⟨0, 0, none, limit⟩ TLV_TAG_END (blankBytes (headerBytes t 1 0) k beyond) =
      .ret ⟨0, 20, none, limit⟩ (blankBytes (headerBytes t 1 0) k beyond) := by
  have hlen := length_blankBytes (headerBytes t 1 0) k beyond
  have hend := u32_blank_end (headerBytes t 1 0) k beyond
  rw [length_headerBytes] at hlen hend
  have hnext : nextPos (blankBytes (headerBytes t 1 0) k beyond) 0 = 20 := by
    rw [nextPos_item (blank_header t), headerTlv_size]
  have htag : u32 (blankBytes (headerBytes t 1 0) k beyond) 0 ≠ TLV_TAG_END := by
    rw [u32_item (blank_header t)]
    exact (headerTlv t 1 0).tag_ne
  have hv : Valid (blankBytes (headerBytes t 1 0) k beyond) ((⟨0, 0, none, limit⟩ : TlvCursor).at 0) :=
    valid_item (blank_header t) (le_refl _) (by rw [headerTlv_size]; dsimp only; push_cast; omega)
  have hv' : Valid (blankBytes (headerBytes t 1 0) k beyond) ((⟨0, 0, none, limit⟩ : TlvCursor).at 20) :=
    valid_end hend (by dsimp only; omega) (by dsimp only; omega)
  have hq : find? (blankBytes (headerBytes t 1 0) k beyond) ⟨0, 0, none, limit⟩ TLV_TAG_END = some 20 := by
    obtain ⟨n, hn⟩ : ∃ n, (blankBytes (headerBytes t 1 0) k beyond).length + 1 = n + 2 :=
      ⟨20 + 3 + k + beyond.length, by rw [hlen]; omega⟩
    rw [find?, seekFrom, hn, seek, if_pos hv, if_neg htag, if_neg (by simp), hnext, seek, if_pos hv',
      if_pos hend]
  rcases tlvFind_spec_of_bound (m := blankBytes (headerBytes t 1 0) k beyond)
    (c := ⟨0, 0, none, limit⟩) (by dsimp only; omega) (Or.inr rfl)
    (by dsimp only; omega) with ⟨q, hq', hr⟩ | ⟨hn, -⟩
  · rw [hq] at hq'; cases hq'; exact hr
  · rw [hq] at hn; cases hn

/-- A blank buffer with header and trailer is a partition. -/
theorem blank_partition (t : ℕ) :
    blankBytes (headerBytes t 1 0 ++ trailerBytes 1 0) k beyond =
      partitionBytes t 1 0 [] 1 0 ++ (List.replicate k 0xff ++ beyond) := by
  rw [blankBytes, partitionBytes]
  simp only [List.append_assoc, List.append_nil]

/-! ### Creation -/

section Create

variable {t size : ℕ} {m : Bytes}

/-- The buffer that creation hands to the length and checksum update. -/
def freshBytes (t size : ℕ) (m : Bytes) : Bytes :=
  partitionBytes t 1 0 [] 1 0 ++ (List.replicate (size - 40) 0xff ++ m.drop size)

theorem length_freshBytes (h : 40 ≤ size) (hm : size ≤ m.length) :
    (freshBytes t size m).length = m.length := by
  simp [freshBytes, endPos]
  omega

theorem insertHeader_ret (h36 : 36 ≤ size) :
    tlvInsert ⟨0, 0, none, ((0 + size : ℕ) : ℤ)⟩ TLV_TAG_PARTITION_HEADER (headerValue t)
        (blankBytes [] (size - 4) beyond) =
      .ret ⟨0, 0, some 20, ((0 + size : ℕ) : ℤ)⟩ (blankBytes (headerBytes t 1 0) (size - 24) beyond) := by
  have hlen := length_blankBytes [] (size - 4) beyond
  rw [List.length_nil] at hlen
  have hfind := blank_nil_find beyond (show ((0 + size : ℕ) : ℤ) = ((0 + 4 + (size - 4) : ℕ) : ℤ) by omega)
  have hv : Valid (blankBytes [] (size - 4) beyond) ⟨0, 0, none, ((0 + size : ℕ) : ℤ)⟩ :=
    valid_end (c := ⟨0, 0, none, ((0 + size : ℕ) : ℤ)⟩) (u32_blank_end _ _ _) (le_refl _)
      (by dsimp only; omega)
  have hinit : tlvInitCursor 0 ((0 + size : ℕ) : ℤ) 0 (blankBytes [] (size - 4) beyond) =
      .ret ⟨0, 0, none, ((0 + size : ℕ) : ℤ)⟩ (blankBytes [] (size - 4) beyond) := by
    have := tlvValidateState_ret_of_bound (by dsimp only; omega) (by dsimp only; omega) hv
    rw [tlvInitCursor, bind_of_ret this]; rfl
  have hreq : tlvRequireEnd ⟨0, 0, none, ((0 + size : ℕ) : ℤ)⟩ (blankBytes [] (size - 4) beyond) =
      .ret ⟨0, 0, some 0, ((0 + size : ℕ) : ℤ)⟩ (blankBytes [] (size - 4) beyond) := bind_of_ret hfind
  have hins := blank_insert [] beyond (k := size - 4) (c := ⟨0, 0, none, ((0 + size : ℕ) : ℤ)⟩)
    TLV_TAG_PARTITION_HEADER (headerValue t) (by omega) rfl rfl (by simp; omega) (by simp [headerValue]) (by decide)
    hreq hinit hfind
  rw [newItem_header, length_headerBytes, if_pos (by omega)] at hins
  rw [hins, List.nil_append, length_headerBytes, Nat.sub_sub]
  rfl

theorem blank_header_init (h : 24 ≤ size) :
    tlvInitCursor 0 ((0 + size : ℕ) : ℤ) 0 (blankBytes (headerBytes t 1 0) (size - 24) beyond) =
      .ret ⟨0, 0, none, ((0 + size : ℕ) : ℤ)⟩ (blankBytes (headerBytes t 1 0) (size - 24) beyond) := by
  have hlen := length_blankBytes (headerBytes t 1 0) (size - 24) beyond
  rw [length_headerBytes] at hlen
  have hv : Valid (blankBytes (headerBytes t 1 0) (size - 24) beyond)
      ⟨0, 0, none, ((0 + size : ℕ) : ℤ)⟩ :=
    valid_item (c := ⟨0, 0, none, ((0 + size : ℕ) : ℤ)⟩) (blank_header t) (le_refl _)
      (by rw [headerTlv_size]; dsimp only; push_cast; omega)
  have := tlvValidateState_ret_of_bound (by dsimp only; omega) (by dsimp only; omega) hv
  rw [tlvInitCursor, bind_of_ret this]; rfl

theorem insertTrailer (t : ℕ) (beyond : Bytes) (h36 : 36 ≤ size) :
    tlvInsert ⟨0, 20, some 20, ((0 + size : ℕ) : ℤ)⟩ TLV_TAG_PARTITION_TRAILER trailerValue
        (blankBytes (headerBytes t 1 0) (size - 24) beyond) =
      if 40 ≤ size then
        .ret ⟨0, 20, some 36, ((0 + size : ℕ) : ℤ)⟩
          (blankBytes (headerBytes t 1 0 ++ trailerBytes 1 0) (size - 40) beyond)
      else .err ENOSPC (blankBytes (headerBytes t 1 0) (size - 24) beyond) := by
  have hins := blank_insert (headerBytes t 1 0) beyond (k := size - 24)
    (c := ⟨0, 20, some 20, ((0 + size : ℕ) : ℤ)⟩) TLV_TAG_PARTITION_TRAILER trailerValue (by omega) rfl (by simp)
    (by simp; omega) (by simp [trailerValue])
    (by decide) (by rw [length_headerBytes]; rfl) (blank_header_init (by omega))
    (by rw [length_headerBytes]; exact blank_header_find t (by dsimp only; omega))
  rw [newItem_trailer, length_trailerBytes] at hins
  rw [hins]
  by_cases h : 40 ≤ size
  · rw [if_pos h, if_pos (by omega), Nat.sub_sub]
    congr 1
  · rw [if_neg h, if_neg (by omega)]

/-- Everything before the update. -/
theorem ef10NvramBufferCreate_inserted (h36 : 36 ≤ size) (hm : size ≤ m.length) :
    ef10NvramBufferCreate t 0 size m =
      if 40 ≤ size then
        (do tlvUpdatePartitionLenAndCks ⟨0, 20, some 36, ((0 + size : ℕ) : ℤ)⟩
            ef10NvramBufferValidate 0 size : BufProg Unit) (freshBytes t size m)
      else .err ENOSPC (blankBytes (headerBytes t 1 0) (size - 24) (m.drop size)) := by
  have hset : (memset ((0 : ℕ) : ℤ) 0xff (size : ℕ) : BufProg Unit) m =
      .ret () (splice m 0 (List.replicate size 0xff)) := memset_of_le (by omega)
  have hl : (splice m 0 (List.replicate size 0xff)).length = m.length :=
    length_splice (by simp; omega)
  have hblock : tlvInitBlock 0 (splice m 0 (List.replicate size 0xff)) =
      .ret () (blankBytes [] (size - 4) (m.drop size)) := by
    rw [tlvInitBlock, store_of_le (by rw [hl]; simp; omega), blank_nil (by omega)]
  have hlen := length_blankBytes [] (size - 4) (m.drop size)
  rw [List.length_nil] at hlen
  have hv : Valid (blankBytes [] (size - 4) (m.drop size)) ⟨0, 0, none, ((0 + size : ℕ) : ℤ)⟩ :=
    valid_end (c := ⟨0, 0, none, ((0 + size : ℕ) : ℤ)⟩) (u32_blank_end _ _ _) (le_refl _)
      (by dsimp only; omega)
  have hinit : tlvInitCursor 0 ((0 + size : ℕ) : ℤ) 0 (blankBytes [] (size - 4) (m.drop size)) =
      .ret ⟨0, 0, none, ((0 + size : ℕ) : ℤ)⟩ (blankBytes [] (size - 4) (m.drop size)) := by
    have := tlvValidateState_ret_of_bound (by dsimp only; omega) (by dsimp only; omega) hv
    rw [tlvInitCursor, bind_of_ret this]; rfl
  have hadv : tlvAdvance ⟨0, 0, some 20, ((0 + size : ℕ) : ℤ)⟩
      (blankBytes (headerBytes t 1 0) (size - 24) (m.drop size)) =
      .ret ⟨0, 20, some 20, ((0 + size : ℕ) : ℤ)⟩
        (blankBytes (headerBytes t 1 0) (size - 24) (m.drop size)) := by
    have hlen := length_blankBytes (headerBytes t 1 0) (size - 24) (m.drop size)
    have hend := u32_blank_end (headerBytes t 1 0) (size - 24) (m.drop size)
    rw [length_headerBytes] at hlen hend
    have hnext : nextPos (blankBytes (headerBytes t 1 0) (size - 24) (m.drop size)) 0 = 20 := by
      rw [nextPos_item (blank_header t), headerTlv_size]
    have hrun := tlvAdvance_ret_of_bound (c := ⟨0, 0, some 20, ((0 + size : ℕ) : ℤ)⟩)
      (m := blankBytes (headerBytes t 1 0) (size - 24) (m.drop size)) (by dsimp only; omega)
      (by dsimp only; omega) (by dsimp only; rw [hnext]; omega)
      ⟨valid_item (c := ⟨0, 0, some 20, ((0 + size : ℕ) : ℤ)⟩) (blank_header t) (le_refl _)
        (by rw [headerTlv_size]; dsimp only; push_cast; omega), by simp,
        by dsimp only; rw [hnext]
           exact valid_end hend (by dsimp only; omega) (by dsimp only; omega)⟩
    dsimp only at hrun
    rwa [hnext] at hrun
  rw [ef10NvramBufferCreate,
    bind_of_ret (ensure_pos (by simp only [headerSize, trailerSize]; omega)), bind_of_ret hset,
    bind_of_ret hblock, bind_of_ret hinit, bind_of_ret (insertHeader_ret h36), bind_of_ret hadv]
  by_cases h40 : 40 ≤ size
  · have hins := insertTrailer t (m.drop size) h36
    rw [if_pos h40, blank_partition] at hins
    rw [if_pos h40, bind_of_ret hins]
    rfl
  · have hins := insertTrailer t (m.drop size) h36
    rw [if_neg h40] at hins
    rw [if_neg h40, bind_of_err hins]

theorem freshUpdate (t : ℕ) (h40 : 40 ≤ size) (hm : size ≤ m.length) :
    ∃ k, tlvUpdatePartitionLenAndCks ⟨0, 20, some 36, ((0 + size : ℕ) : ℤ)⟩ (freshBytes t size m) =
        .ret () (partitionBytes t 2 40 [] 2 k ++ (List.replicate (size - 40) 0xff ++ m.drop size)) ∧
      SumZero (partitionBytes t 2 40 [] 2 k ++ (List.replicate (size - 40) 0xff ++ m.drop size)) 40 := by
  refine tlvUpdatePartitionLenAndCks_ret (c := ⟨0, 20, some 36, ((0 + size : ℕ) : ℤ)⟩)
    rfl rfl (by simp) (by simp [endPos]) fun g n g' => ?_
  have hlen : (partitionBytes t g n [] g' 0 ++ (List.replicate (size - 40) 0xff ++ m.drop size)).length =
      m.length := by
    simp [endPos]
    omega
  exact tlvValidateState_ret_of_bound (by dsimp only; omega) (by dsimp only; omega)
    (partition_trailer_valid (c := ⟨0, 20, some 36, ((0 + size : ℕ) : ℤ)⟩) rfl
      (by simp only [endPos, List.length_nil]; omega))

/-- **Creation succeeds** on every buffer with room for header, trailer, END tag and a spare word. -/
theorem ef10NvramBufferCreate_ret (h44 : 44 ≤ size) (h4 : 4 ∣ size) (hm : size ≤ m.length) :
    ∃ k, ef10NvramBufferCreate t 0 size m =
        .ret () (partitionBytes t 2 40 [] 2 k ++ (List.replicate (size - 40) 0xff ++ m.drop size)) := by
  obtain ⟨k, hk, hs⟩ := freshUpdate t (by omega) hm
  have hlen : (partitionBytes t 2 40 [] 2 k ++ (List.replicate (size - 40) 0xff ++ m.drop size)).length =
      m.length := by
    simp [endPos]
    omega
  have hacc := partition_accepted (t := t) (g := 2) (n := 40) (k := k) [] (by simp) rfl (by omega)
    (by omega) (by rw [chainBytes_nil, hlen]; exact hm) hs
  refine ⟨k, ?_⟩
  rw [ef10NvramBufferCreate_inserted (by omega) hm, if_pos (by omega), bind_of_ret hk]
  exact ef10NvramBufferValidate_ret (by rw [hlen]; omega) h4
    (by rw [hlen]; simp only [headerSize]; omega) hacc

/-- On a smaller buffer creation leaves with a return code. -/
theorem ef10NvramBufferCreate_err (h44 : size < 44) (h4 : 4 ∣ size) (hm : size ≤ m.length) :
    ∃ e m', ef10NvramBufferCreate t 0 size m = .err e m' := by
  by_cases h36 : 36 ≤ size
  swap
  · refine ⟨EINVAL, m, ?_⟩
    rw [ef10NvramBufferCreate]
    exact bind_of_err (ensure_neg (by simp only [headerSize, trailerSize]; omega))
  rw [ef10NvramBufferCreate_inserted h36 hm]
  by_cases h40 : 40 ≤ size
  swap
  · rw [if_neg h40]
    exact ⟨_, _, rfl⟩
  obtain ⟨k, hk, -⟩ := freshUpdate t h40 hm
  have hlen : (partitionBytes t 2 40 [] 2 k ++ (List.replicate (size - 40) 0xff ++ m.drop size)).length =
      m.length := by
    simp [endPos]
    omega
  rw [if_pos h40, bind_of_ret hk]
  obtain ⟨e, he⟩ := ef10NvramBufferValidate_err (m := partitionBytes t 2 40 [] 2 k ++
      (List.replicate (size - 40) 0xff ++ m.drop size))
    (by rw [hlen]; omega : 0 + size ≤ _) h4 (fun ho => by have := ho.2; rw [hlen, headerSize] at this; omega)
    fun q hq => by
      -- the trailer ends at 36, but its item needs 8 more bytes of the block
      have hf := (trailer?_eq_some.mp hq.trailer).1
      have hn : nextPos (partitionBytes t 2 40 [] 2 k ++
          (List.replicate (size - 40) 0xff ++ m.drop size)) 0 = 20 := by
        rw [nextPos_item (i := headerTlv t 2 40) (by rw [headerTlv_bytes]; exact partition_header),
          headerTlv_size]
      have hfit : (startCursor 0 size).limit + 4 ≤ (partitionBytes t 2 40 [] 2 k ++
          (List.replicate (size - 40) 0xff ++ m.drop size)).length :=
        startCursor_fit (by rw [hlen]; omega)
      have h20 : ¬ Valid (partitionBytes t 2 40 [] 2 k ++
          (List.replicate (size - 40) 0xff ++ m.drop size)) ((startCursor 0 size).at 20) := by
        intro hv
        have ht := @u32_partition_trailer t 2 40 2 k (List.replicate (size - 40) 0xff ++ m.drop size) []
        have hnt := @nextPos_partition_trailer t 2 40 2 k
          (List.replicate (size - 40) 0xff ++ m.drop size) []
        simp only [List.length_nil, Nat.add_zero] at ht hnt
        have := (hv.item (by rw [at_current, ht]; decide)).2
        rw [at_current, hnt] at this
        simp only [at_limit, startCursor_limit, endPos, List.length_nil] at this
        omega
      have h0 : Valid (partitionBytes t 2 40 [] 2 k ++
          (List.replicate (size - 40) 0xff ++ m.drop size)) ((startCursor 0 size).at 0) :=
        hq.header.valid
      rw [find?, startCursor_block, seekFrom_eq hfit, if_pos h0,
        if_neg (by rw [u32_partition_tag]; decide), if_neg (by simp), hn, seekFrom_eq hfit,
        if_neg h20] at hf
      cases hf
  exact ⟨e, _, he⟩

end Create

end Sfxge.Tlv
