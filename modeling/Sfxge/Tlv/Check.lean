import Sfxge.Tlv.Chain

/-!
# Tlv.Check — the checks of a partition as conditions on the memory

`ef10_nvram_buffer_validate` (and the reading of a segment, which makes the same checks) in terms of
`Valid` and `find?`: when the header item, the trailer item, the generation counts and the sum are
accepted, and the one case in which the header is read outside the block.
-/

namespace Sfxge.Tlv

open Lib Lib.Prog Errno

/-- The cursor at the start of a block of `size` bytes. -/
def startCursor (base size : ℕ) : TlvCursor := ⟨base, base, none, (base : ℤ) + size - 4⟩

@[simp] theorem startCursor_block (base size : ℕ) : (startCursor base size).block = base := rfl
@[simp] theorem startCursor_current (base size : ℕ) : (startCursor base size).current = base := rfl
@[simp] theorem startCursor_endTag (base size : ℕ) : (startCursor base size).endTag = none := rfl
@[simp] theorem startCursor_limit (base size : ℕ) :
    (startCursor base size).limit = (base : ℤ) + size - 4 := rfl

variable {m : Bytes} {base size : ℕ} {c : TlvCursor}

theorem startCursor_fit (h : base + size ≤ m.length) :
    (startCursor base size).limit + 4 ≤ m.length := by
  simp only [startCursor_limit]
  omega

theorem tlvInitCursorFromSize_ret (h : base + size ≤ m.length) (hv : Valid m (startCursor base size)) :
    tlvInitCursorFromSize base size m = .ret (startCursor base size) m :=
  tlvInitCursor_ret (startCursor_fit h) hv

theorem tlvInitCursorFromSize_err (h : base + size ≤ m.length)
    (hv : ¬ Valid m (startCursor base size)) : ∃ e, tlvInitCursorFromSize base size m = .err e m :=
  tlvInitCursor_err (startCursor_fit h) hv

/-! ### Header -/

/-- The first item is a partition header. -/
structure HasHeader (m : Bytes) (base size : ℕ) : Prop where
  valid : Valid m (startCursor base size)
  tag : u32 m base = TLV_TAG_PARTITION_HEADER

theorem HasHeader.size_ge (h : HasHeader m base size) : 16 ≤ size ∧ base + 8 ≤ nextPos m base ∧
    nextPos m base + 8 ≤ base + size := by
  have hne : u32 m base ≠ TLV_TAG_END := by rw [h.tag]; decide
  have h1 := h.valid.item hne
  have h2 := nextPos_ge m base
  simp only [startCursor_current, startCursor_limit] at h1
  omega

theorem headerItem_of_header (hfit : base + size ≤ m.length) (h : HasHeader m base size) :
    headerItem base size m =
      (do let totalLength ← loadU32 ((base + headerTotalLength : ℕ) : ℤ)
          ensure (¬ totalLength > size) EFBIG
          pure (startCursor base size, totalLength) : BufProg (TlvCursor × ℕ)) m := by
  have htag : tlvTag (startCursor base size) m = .ret (u32 m base) m :=
    h.valid.tag (startCursor_fit hfit)
  rw [headerItem, bind_of_ret (orFail_of_ret EFAULT (tlvInitCursorFromSize_ret hfit h.valid)),
    bind_of_ret htag, bind_of_ret (ensure_pos h.tag)]

theorem headerItem_no_header (hfit : base + size ≤ m.length) (h : ¬ HasHeader m base size) :
    ∃ e, headerItem base size m = .err e m := by
  rw [headerItem]
  by_cases hv : Valid m (startCursor base size)
  · have htag : tlvTag (startCursor base size) m = .ret (u32 m base) m :=
      hv.tag (startCursor_fit hfit)
    rw [bind_of_ret (orFail_of_ret EFAULT (tlvInitCursorFromSize_ret hfit hv)), bind_of_ret htag]
    exact ⟨_, bind_of_err (ensure_neg fun ht => h ⟨hv, ht⟩)⟩
  · obtain ⟨e, he⟩ := tlvInitCursorFromSize_err hfit hv
    exact ⟨_, bind_of_err (orFail_of_err EFAULT he)⟩

theorem headerItem_ret (hfit : base + size ≤ m.length) (h : HasHeader m base size)
    (h20 : base + headerSize ≤ m.length) (hn : u32 m (base + headerTotalLength) ≤ size) :
    headerItem base size m =
      .ret (startCursor base size, u32 m (base + headerTotalLength)) m := by
  have h1 : base + headerTotalLength + 4 ≤ m.length := h20
  rw [headerItem_of_header hfit h, bind_of_ret (loadU32_of_le h1),
    bind_of_ret (ensure_pos (Nat.not_lt.mpr hn))]
  rfl

theorem headerItem_big (hfit : base + size ≤ m.length) (h : HasHeader m base size)
    (h20 : base + headerSize ≤ m.length) (hn : size < u32 m (base + headerTotalLength)) :
    ∃ e, headerItem base size m = .err e m := by
  have h1 : base + headerTotalLength + 4 ≤ m.length := h20
  rw [headerItem_of_header hfit h, bind_of_ret (loadU32_of_le h1)]
  exact ⟨_, bind_of_err (ensure_neg (not_not.mpr hn))⟩

/-- The header item may be shorter than a `struct tlv_partition_header`. -/
theorem headerItem_fault (hfit : base + size ≤ m.length) (h : HasHeader m base size)
    (h20 : m.length < base + headerSize) : headerItem base size m = .fault := by
  rw [headerItem_of_header hfit h]
  exact bind_of_fault (loadU32_of_gt h20)

/-! ### Trailer -/

/-- The position of the trailer item, if an END tag is next to it. -/
def trailer? (m : Bytes) (c : TlvCursor) : Option ℕ :=
  (find? m c TLV_TAG_PARTITION_TRAILER).filter fun q => u32 m (nextPos m q) = TLV_TAG_END

theorem trailer?_eq_some {q : ℕ} : trailer? m c = some q ↔
    find? m c TLV_TAG_PARTITION_TRAILER = some q ∧ u32 m (nextPos m q) = TLV_TAG_END := by
  simp [trailer?, Option.filter_eq_some_iff]

/-- Trailer and END tag lie inside the block, with a spare word behind. -/
theorem trailer?_bound {q : ℕ} (h : trailer? m c = some q) :
    c.block ≤ q ∧ u32 m q = TLV_TAG_PARTITION_TRAILER ∧ q + 8 ≤ nextPos m q ∧
      (nextPos m q : ℤ) ≤ c.limit - 4 := by
  obtain ⟨hf, -⟩ := trailer?_eq_some.mp h
  obtain ⟨hv, ht, hb⟩ := find?_spec hf
  have hne : u32 m q ≠ TLV_TAG_END := by rw [ht]; decide
  exact ⟨hb, ht, nextPos_ge m q, (hv.item hne).2⟩

theorem trailerItem_ret (hfit : c.limit + 4 ≤ m.length) (hend : c.endTag = none) {q : ℕ}
    (h : trailer? m c = some q) : trailerItem c m = .ret (q, c.at (nextPos m q)) m := by
  obtain ⟨hf, hE⟩ := trailer?_eq_some.mp h
  obtain ⟨hb, -, hge, hl⟩ := trailer?_bound h
  have hv := (find?_spec hf).1
  have hnext : Valid m (c.at (nextPos m q)) := valid_end hE (by omega) (by omega)
  have hadv : tlvAdvance (c.at q) m = .ret (c.at (nextPos m q)) m :=
    tlvAdvance_ret hfit ⟨hv, by simp [hend], hnext⟩
  rw [trailerItem, bind_of_ret (orFail_of_ret EINVAL (tlvFind_ret hfit hf)),
    bind_of_ret (orFail_of_ret EINVAL hadv),
    bind_of_ret (hnext.tag (c := c.at (nextPos m q)) hfit)]
  exact bind_of_ret (ensure_pos hE)

theorem trailerItem_err (hfit : c.limit + 4 ≤ m.length) (h : trailer? m c = none) :
    ∃ e, trailerItem c m = .err e m := by
  rw [trailerItem]
  cases hf : find? m c TLV_TAG_PARTITION_TRAILER with
  | none =>
    obtain ⟨e, he⟩ := tlvFind_err hfit hf
    exact ⟨_, bind_of_err (orFail_of_err EINVAL he)⟩
  | some q =>
    rw [bind_of_ret (orFail_of_ret EINVAL (tlvFind_ret hfit hf))]
    by_cases hadv : CanAdvance m (c.at q)
    · have hrun : tlvAdvance (c.at q) m = .ret (c.at (nextPos m q)) m := tlvAdvance_ret hfit hadv
      rw [bind_of_ret (orFail_of_ret EINVAL hrun),
        bind_of_ret (hadv.valid_next.tag (c := c.at (nextPos m q)) hfit)]
      refine ⟨_, bind_of_err (ensure_neg fun hE => ?_)⟩
      rw [trailer?_eq_some.mpr ⟨hf, hE⟩] at h
      cases h
    · obtain ⟨e, he⟩ := tlvAdvance_err (c := c.at q) hfit hadv
      exact ⟨_, bind_of_err (orFail_of_err EINVAL he)⟩

/-! ### Generation counts and sum -/

theorem checkGeneration_run {trailer : ℕ} {e : Errno} (h1 : trailer + 12 ≤ m.length)
    (h2 : base + 16 ≤ m.length) :
    checkGeneration base trailer e m =
      if u32 m (trailer + trailerGeneration) = u32 m (base + headerGeneration) then .ret () m
      else .err e m := by
  have h1' : trailer + trailerGeneration + 4 ≤ m.length := h1
  have h2' : base + headerGeneration + 4 ≤ m.length := h2
  rw [checkGeneration, bind_of_ret (loadU32_of_le h1'), bind_of_ret (loadU32_of_le h2')]
  split_ifs with h
  · exact ensure_pos h
  · exact ensure_neg h

theorem checkSum_run {n : ℕ} (h : base + 4 * wordCount n ≤ m.length) :
    checkSum base n m =
      if wsum m base (wordCount n) % 4294967296 = 0 then .ret () m else .err EINVAL m := by
  rw [checkSum, bind_of_ret (sumU32_of_le h)]
  split_ifs with hs
  · exact ensure_pos hs
  · exact ensure_neg hs

theorem wordCount_le {n : ℕ} (h4 : 4 ∣ size) (hn : n ≤ size) : 4 * wordCount n ≤ size := by
  obtain ⟨w, rfl⟩ := h4
  simp only [wordCount]
  omega

/-! ### `ef10_nvram_buffer_validate` -/

/-- What `ef10_nvram_buffer_validate` accepts, with the trailer at `q`. -/
structure Accepted (m : Bytes) (base size q : ℕ) : Prop where
  header : HasHeader m base size
  total : u32 m (base + headerTotalLength) ≤ size
  trailer : trailer? m (startCursor base size) = some q
  generation : u32 m (q + trailerGeneration) = u32 m (base + headerGeneration)
  sum : wsum m base (wordCount (u32 m (base + headerTotalLength))) % 4294967296 = 0

/-- The block ends inside the `struct tlv_partition_header` of its only item. -/
def HeaderOnly (m : Bytes) (base size : ℕ) : Prop :=
  HasHeader m base size ∧ m.length < base + headerSize

theorem trailer_bounds (hfit : base + size ≤ m.length) (h : HasHeader m base size) {q : ℕ}
    (ht : trailer? m (startCursor base size) = some q) : q + 16 ≤ m.length ∧ base + 16 ≤ m.length := by
  have h1 := h.size_ge
  have h2 := trailer?_bound ht
  simp only [startCursor_limit] at h2
  omega

theorem ef10NvramBufferValidate_fault (hfit : base + size ≤ m.length) (h : HeaderOnly m base size) :
    ef10NvramBufferValidate base size m = .fault := by
  have hs := h.1.size_ge
  rw [ef10NvramBufferValidate, bind_of_ret (ensure_pos (by omega))]
  exact bind_of_fault (headerItem_fault hfit h.1 h.2)

theorem ef10NvramBufferValidate_ret (hfit : base + size ≤ m.length) (h4 : 4 ∣ size)
    (h20 : base + headerSize ≤ m.length) {q : ℕ} (h : Accepted m base size q) :
    ef10NvramBufferValidate base size m = .ret () m := by
  obtain ⟨hh, hn, ht, hg, hs⟩ := h
  have hsz := hh.size_ge
  have hb := trailer_bounds hfit hh ht
  have hw := wordCount_le h4 hn
  rw [ef10NvramBufferValidate, bind_of_ret (ensure_pos (by omega)),
    bind_of_ret (headerItem_ret hfit hh h20 hn)]
  dsimp only
  rw [bind_of_ret (trailerItem_ret (startCursor_fit hfit) rfl ht)]
  dsimp only
  have hgen : checkGeneration base q EINVAL m = _ := checkGeneration_run
    (by omega) (by omega)
  rw [if_pos hg] at hgen
  rw [bind_of_ret hgen, checkSum_run (by omega), if_pos hs]

theorem ef10NvramBufferValidate_err (hfit : base + size ≤ m.length) (h4 : 4 ∣ size)
    (ho : ¬ HeaderOnly m base size) (h : ∀ q, ¬ Accepted m base size q) :
    ∃ e, ef10NvramBufferValidate base size m = .err e m := by
  rw [ef10NvramBufferValidate]
  by_cases h0 : size = 0
  · exact ⟨_, bind_of_err (ensure_neg (not_not.mpr h0))⟩
  rw [bind_of_ret (ensure_pos h0)]
  by_cases hh : HasHeader m base size
  swap
  · obtain ⟨e, he⟩ := headerItem_no_header hfit hh
    exact ⟨e, bind_of_err he⟩
  have h20 : base + headerSize ≤ m.length := by
    by_contra hlt
    exact ho ⟨hh, Nat.not_le.mp hlt⟩
  by_cases hn : u32 m (base + headerTotalLength) ≤ size
  swap
  · obtain ⟨e, he⟩ := headerItem_big hfit hh h20 (Nat.not_le.mp hn)
    exact ⟨e, bind_of_err he⟩
  rw [bind_of_ret (headerItem_ret hfit hh h20 hn)]
  dsimp only
  cases ht : trailer? m (startCursor base size) with
  | none =>
    obtain ⟨e, he⟩ := trailerItem_err (startCursor_fit hfit) ht
    exact ⟨e, bind_of_err he⟩
  | some q =>
    have hb := trailer_bounds hfit hh ht
    have hw := wordCount_le h4 hn
    rw [bind_of_ret (trailerItem_ret (startCursor_fit hfit) rfl ht)]
    dsimp only
    have hgen : checkGeneration base q EINVAL m = _ := checkGeneration_run
      (by omega) (by omega)
    by_cases hg : u32 m (q + trailerGeneration) = u32 m (base + headerGeneration)
    · rw [if_pos hg] at hgen
      rw [bind_of_ret hgen, checkSum_run (by omega)]
      by_cases hs : wsum m base (wordCount (u32 m (base + headerTotalLength))) % 4294967296 = 0
      · exact absurd ⟨hh, hn, ht, hg, hs⟩ (h q)
      · exact ⟨_, if_neg hs⟩
    · rw [if_neg hg] at hgen
      exact ⟨_, bind_of_err hgen⟩

/-- **Validate.**  It returns 0 only on what is `Accepted`, and leaves the memory as it is. -/
theorem ef10NvramBufferValidate_ret_inv (hfit : base + size ≤ m.length) (h4 : 4 ∣ size) {m' : Bytes}
    {u : Unit} (h : ef10NvramBufferValidate base size m = .ret u m') :
    m' = m ∧ base + headerSize ≤ m.length ∧ ∃ q, Accepted m base size q := by
  by_cases ho : HeaderOnly m base size
  · rw [ef10NvramBufferValidate_fault hfit ho] at h
    cases h
  by_cases ha : ∃ q, Accepted m base size q
  · obtain ⟨q, hq⟩ := ha
    have h20 : base + headerSize ≤ m.length := by
      by_contra hlt
      exact ho ⟨hq.header, Nat.not_le.mp hlt⟩
    rw [ef10NvramBufferValidate_ret hfit h4 h20 hq] at h
    cases h
    exact ⟨rfl, h20, q, hq⟩
  · obtain ⟨e, he⟩ := ef10NvramBufferValidate_err hfit h4 ho (not_exists.mp ha)
    rw [he] at h
    cases h

end Sfxge.Tlv
