import Sfxge.Tlv.Update

/-!
# Tlv.Upsert — when `ef10_nvram_buf_write_tlv` updates a segment as a whole

The item is replaced or added, all others can be read as before, and length, generation and checksum are those of
the new segment; or the call is refused and nothing has changed.
-/

namespace Sfxge.Tlv

open Lib Lib.Prog Errno

variable {m m' : Bytes} {s s' : Segment} {data : Bytes} {tag t p d : ℕ}

/-! ### What the items of the new segment are -/

theorem lookup_eq_none_iff {items : List TlvItem} : lookup t items = none ↔ ∀ i ∈ items, i.tag ≠ t := by
  rw [lookup, Option.map_eq_none_iff, List.find?_eq_none]
  simp

theorem Segment.lookup_replace {pre post : List TlvItem} {j : TlvItem}
    {htags : ∀ k ∈ pre ++ j :: post, k.tag ≠ TLV_TAG_PARTITION_HEADER ∧ k.tag ≠ TLV_TAG_PARTITION_TRAILER}
    (hpre : ∀ k ∈ s.header :: pre, k.tag ≠ j.tag) :
    lookup j.tag (s.replace pre post j htags).all = some j.value := by
  have hall : (s.replace pre post j htags).all = (s.header :: pre) ++ j :: (post ++ [s.trailer]) := by
    simp [Segment.all, Segment.replace]
  rw [hall]
  exact lookup_append_cons rfl hpre

/-- The other tags have the items they had. -/
theorem Segment.lookup_replace_ne {pre post : List TlvItem} (mid : List TlvItem) {j : TlvItem}
    {htags : ∀ k ∈ pre ++ j :: post, k.tag ≠ TLV_TAG_PARTITION_HEADER ∧ k.tag ≠ TLV_TAG_PARTITION_TRAILER}
    (hi : s.items = pre ++ mid ++ post) (hmid : ∀ i ∈ mid, i.tag ≠ t) (ht : j.tag ≠ t) :
    lookup t (s.replace pre post j htags).all = lookup t s.all := by
  have hnone : mid.find? (fun i => i.tag = t) = none := List.find?_eq_none.mpr (by simpa using hmid)
  simp only [lookup, Segment.all, Segment.replace, hi, List.find?_append, List.find?_cons, hnone, ht, List.append_assoc,
    List.cons_append, decide_false, Option.none_or]

/-! ### The segment that is left -/

/-- A segment whose tag has been given the value, and nothing else -/
structure Given (s s' : Segment) (tag : ℕ) (data : Bytes) : Prop where
  header : s'.header = s.header
  trailer : s'.trailer = s.trailer
  value : lookup tag s'.all = some data
  others : ∀ t, t ≠ tag → lookup t s'.all = lookup t s.all

theorem Begins.updateChain_ret (h : Begins m s) (hb : Blank m (s.endAt + 4)) (h32 : m.length < 4294967296)
    (hlt : tag < 4294967296) (hh : tag ≠ TLV_TAG_PARTITION_HEADER) (htr : tag ≠ TLV_TAG_PARTITION_TRAILER)
    (hend : tag ≠ TLV_TAG_END) (hlen : data.length < 4294967296) (hfits : ItemFits m (s.endAt + 4) tag data)
    (hroom : s.endAt + 4 + 4 * shrinkage m tag data ≤ m.length) :
    ∃ q s' m', updateChain (cursor m) tag data m = .ret ⟨0, q, some (s'.endAt : ℤ), (cursor m).limit⟩ m' ∧
      m'.length = m.length ∧ Begins m' s' ∧ Zeroed m' (s'.endAt + 4) (4 * shrinkage m tag data) ∧
      s'.endAt + 4 + 4 * shrinkage m tag data + 4 * shrinkage m tag data ≤ m'.length ∧ Given s s' tag data := by
  have hbytes := itemOf_bytes hlt hend hlen
  have hsize := itemOf_size hlt hend hlen
  have hvalue := itemOf_value hlt hend hlen
  have htag : (itemOf tag data hlt hend hlen).tag = tag := rfl
  generalize itemOf tag data hlt hend hlen = j at hbytes hsize hvalue htag
  have hjtags : j.tag ≠ TLV_TAG_PARTITION_HEADER ∧ j.tag ≠ TLV_TAG_PARTITION_TRAILER := by
    rw [htag]
    exact ⟨hh, htr⟩
  rw [updateChain]
  cases hp : posOf tag s.all with
  | some p =>
    obtain ⟨pre, i, post, hi, hit, hpre, hpos, hat, hfind⟩ := h.find?_split hh htr hend hp
    have htags : ∀ k ∈ pre ++ j :: post, k.tag ≠ TLV_TAG_PARTITION_HEADER ∧ k.tag ≠ TLV_TAG_PARTITION_TRAILER := by
      intro k hk
      rcases List.mem_append.mp hk with hk | hk
      · exact s.items_tag k (by rw [hi]; exact List.mem_append_left _ hk)
      · rcases List.mem_cons.mp hk with rfl | hk
        · exact hjtags
        · exact s.items_tag k (by rw [hi]; exact List.mem_append_right _ (List.mem_cons_of_mem _ hk))
    obtain ⟨m', hret, hlen', hbeg, hzero, hbound⟩ :=
      h.tlvModify_ret hb h32 hend hi hpos hat hfind hfits hroom hbytes hsize htags
    rw [bind_of_ret (attempt_of_ret (tlvFind_ret (Begins.fits m) hfind))]
    refine ⟨p, _, m', hret, hlen', hbeg, hzero, hbound, rfl, rfl, ?_, fun t ht => ?_⟩
    · rw [← hvalue, ← htag]
      exact Segment.lookup_replace (by rw [htag]; exact hpre)
    · exact Segment.lookup_replace_ne [i] (by rw [hi, List.append_assoc]; rfl)
        (by simpa [hit] using ht.symm) (by rw [htag]; exact ht.symm)
  | none =>
    obtain ⟨-, hall⟩ := posOf_none.mp hp
    have hfind := h.find?_none hb h32 hp
    have htags : ∀ k ∈ s.items ++ [j], k.tag ≠ TLV_TAG_PARTITION_HEADER ∧ k.tag ≠ TLV_TAG_PARTITION_TRAILER := by
      intro k hk
      rcases List.mem_append.mp hk with hk | hk
      · exact s.items_tag k hk
      · rw [List.mem_singleton.mp hk]
        exact hjtags
    obtain ⟨m', hret, hlen', hbeg, hzero, hshr⟩ := h.tlvInsert_ret hb h32 hend hfind hfits hbytes hsize htags
    have hbound := hbeg.spare
    obtain ⟨e, he⟩ := tlvFind_err (Begins.fits m) hfind
    rw [bind_of_ret (attempt_of_err he)]
    dsimp only
    rw [bind_of_ret (orFail_of_ret EINVAL (tlvFind_ret (Begins.fits m) h.find?_trailer))]
    rw [hshr]
    refine ⟨s.trailerAt, _, m', orFail_of_ret EINVAL hret, hlen', hbeg, hzero, by omega, rfl, rfl, ?_, fun t ht => ?_⟩
    · rw [← hvalue, ← htag]
      refine Segment.lookup_replace fun k hk => ?_
      rw [htag]
      exact hall k (by rw [Segment.all_eq]; exact List.mem_append_left _ hk)
    · exact Segment.lookup_replace_ne [] (by simp) (by simp) (by rw [htag]; exact ht.symm)

/-! ### The call as a whole -/

theorem Zeroed.congr {n : ℕ} (h : Zeroed m n d) (hlen : m'.length = m.length) (hw : ∀ q, n ≤ q → u32 m' q = u32 m q) :
    Zeroed m' n d where
  zero q hq hqd h4 := by rw [hw q hq, h.zero q hq hqd h4]
  blank q hq h4 hb := by rw [hw q (by omega), h.blank q hq h4 (by omega)]
  dvd_pos := h.dvd_pos
  dvd_len := h.dvd_len

/-- **Success.**  What is left is a segment with the value under the tag, renewed; behind it lie the words by which
the item got shorter, zeroed, and erased flash. -/
theorem Begins.bufWriteTlv_ret (h : Begins m s) (hb : Blank m (s.endAt + 4)) (h32 : m.length < 4294967296)
    (hs : headerSize ≤ s.header.size) (ht : trailerSize ≤ s.trailer.size)
    (hlt : tag < 4294967296) (hh : tag ≠ TLV_TAG_PARTITION_HEADER) (htr : tag ≠ TLV_TAG_PARTITION_TRAILER)
    (hend : tag ≠ TLV_TAG_END) (hlen : data.length < 4294967296) (hfits : ItemFits m (s.endAt + 4) tag data)
    (hroom : s.endAt + 4 + 4 * shrinkage m tag data ≤ m.length) :
    ∃ m' s', ef10NvramBufWriteTlv 0 m.length tag data m = .ret (s'.endAt + 4) m' ∧ m'.length = m.length ∧
      Begins m' s' ∧ Zeroed m' (s'.endAt + 4) (4 * shrinkage m tag data) ∧
      s'.endAt + 4 + 4 * shrinkage m tag data + 4 * shrinkage m tag data ≤ m'.length ∧
      Renewed m' s' (u32 m headerGeneration) ∧
      lookup tag s'.all = some data ∧
      ∀ t, t ≠ tag → t ≠ TLV_TAG_PARTITION_HEADER → t ≠ TLV_TAG_PARTITION_TRAILER →
        lookup t s'.all = lookup t s.all := by
  obtain ⟨q, s1, m1, hchain, hl1, h1, hz1, hbound, hgiven⟩ := h.updateChain_ret hb h32 hlt hh htr hend hlen hfits hroom
  obtain ⟨m', hret, ⟨⟨s', h', hsame⟩, hl', hbehind⟩, hnew⟩ := Begins.renew h.hasHeader hl1 (by omega) h1
    (by rw [hgiven.header]; exact hs) (by rw [hgiven.trailer]; exact ht) hchain
  have hgen : u32 m1 headerGeneration = u32 m headerGeneration := by
    have hb1 := h1.header
    rw [hgiven.header] at hb1
    have hin : headerGeneration + 4 ≤ s.header.bytes.length := by
      rw [TlvItem.length_bytes]
      exact le_trans (by decide) hs
    have e1 := hb1.slice_sub hin
    have e2 := h.header.slice_sub hin
    rw [Nat.zero_add] at e1 e2
    rw [u32, u32, e1, e2]
  rw [hgen] at hnew
  rw [← hsame.endAt] at hret hz1 hbehind hbound
  refine ⟨m', s', hret, hl'.trans hl1, h', hz1.congr hl' hbehind, hl'.symm ▸ hbound, ⟨?_, ?_, ?_, ?_⟩, ?_,
    fun t htt hth htt' => ?_⟩
  · rw [hsame.endAt]
    exact hnew.length
  · exact hnew.header_generation
  · rw [hsame.trailerAt]
    exact hnew.trailer_generation
  · rw [hsame.endAt]
    exact hnew.sum
  · rw [hsame.lookup hh htr]
    exact hgiven.value
  · rw [hsame.lookup hth htt']
    exact hgiven.others t htt

/-- An item that does not fit is refused, and nothing changes. -/
theorem Begins.bufWriteTlv_refuses (h : Begins m s) (hb : Blank m (s.endAt + 4)) (h32 : m.length < 4294967296)
    (hfits : ¬ ItemFits m (s.endAt + 4) tag data) : ∃ e, ef10NvramBufWriteTlv 0 m.length tag data m = .err e m := by
  have hh := h.hasHeader
  have htag₀ : tlvTag (startCursor 0 m.length) m = .ret (u32 m 0) m := hh.valid.tag (Begins.fits m)
  have hrefused : ∃ e, updateChain (cursor m) tag data m = .err e m := by
    rw [updateChain]
    cases hfind : find? m (cursor m) tag with
    | some p =>
      obtain ⟨e, he⟩ := tlvModify_refuses hfind (h.usedEnd_eq hb h32 p) hfits
      rw [bind_of_ret (attempt_of_ret (tlvFind_ret (Begins.fits m) hfind))]
      exact ⟨e, he⟩
    | none =>
      obtain ⟨e, he⟩ := h.tlvInsert_refuses hb h32 hfind hfits
      obtain ⟨e', he'⟩ := tlvFind_err (Begins.fits m) hfind
      rw [bind_of_ret (attempt_of_err he')]
      dsimp only
      rw [bind_of_ret (orFail_of_ret EINVAL (tlvFind_ret (Begins.fits m) h.find?_trailer))]
      exact ⟨_, orFail_of_err EINVAL he⟩
  obtain ⟨e, he⟩ := hrefused
  rw [ef10NvramBufWriteTlv, bind_of_ret (orFail_of_ret _ (tlvInitCursorFromSize_ret (by omega) hh.valid)),
    bind_of_ret htag₀, bind_of_ret (ensure_pos hh.tag)]
  exact ⟨e, bind_of_err he⟩

/-- Where the item gets shorter by more than lies behind the END tag, the call reads outside the buffer. -/
theorem Begins.bufWriteTlv_outside (h : Begins m s) (hb : Blank m (s.endAt + 4)) (h32 : m.length < 4294967296)
    (hh : tag ≠ TLV_TAG_PARTITION_HEADER) (htr : tag ≠ TLV_TAG_PARTITION_TRAILER) (hend : tag ≠ TLV_TAG_END)
    (hroom : m.length < s.endAt + 4 + 4 * shrinkage m tag data) :
    ef10NvramBufWriteTlv 0 m.length tag data m = .fault := by
  have hspare := h.spare
  refine bufWriteTlv_fault ⟨h.hasHeader, ?_⟩
  cases hp : posOf tag s.all with
  | some p =>
    obtain ⟨pre, i, post, hi, -, -, hpos, hat, hfind⟩ := h.find?_split hh htr hend hp
    obtain ⟨hf, hfits⟩ := h.resizeFaults hb h32 hi hpos hat hfind hroom
    rw [UpdateFaults, hfind]
    exact ⟨h.canModify hb h32 hend hfind hfits, Or.inl hf⟩
  | none =>
    have hfind := h.find?_none hb h32 hp
    rw [shrinkage, oldWords_of_absent hfind] at hroom
    omega

/-- An item longer than the buffer is written outside it, once room was made for what its length looks like. -/
theorem Begins.bufWriteTlv_long (h : Begins m s) (hb : Blank m (s.endAt + 4)) (h32 : m.length < 4294967296)
    (hend : tag ≠ TLV_TAG_END) (hfits : ItemFits m (s.endAt + 4) tag data)
    (hlong : m.length < (newItem tag data).length) : ef10NvramBufWriteTlv 0 m.length tag data m = .fault := by
  refine bufWriteTlv_fault ⟨h.hasHeader, ?_⟩
  cases hfind : find? m (cursor m) tag with
  | some p =>
    rw [UpdateFaults, hfind]
    exact ⟨h.canModify hb h32 hend hfind hfits, Or.inr (by omega)⟩
  | none =>
    rw [UpdateFaults, hfind, h.find?_trailer]
    exact ⟨h.canInsert hb h32 hend hfind hfits, Or.inr (by omega)⟩

/-! ### Data whose length does not fit in 32 bits -/

/-- The call looks at the data where it makes space for the item and where it writes the item. -/
theorem bufWriteTlv_congr {data' : Bytes} (base size : ℕ) (hd : tlvDelta data'.length = tlvDelta data.length)
    (hw : ∀ c, tlvWrite c tag data' = tlvWrite c tag data) :
    ef10NvramBufWriteTlv base size tag data' = ef10NvramBufWriteTlv base size tag data := by
  have hmodify : ∀ c, tlvModify c tag data' = tlvModify c tag data := by
    intro c
    unfold tlvModify
    rw [hd]
    simp only [hw]
  have hinsert : ∀ c, tlvInsert c tag data' = tlvInsert c tag data := by
    intro c
    unfold tlvInsert
    rw [hd]
    simp only [hw]
  have hchain : ∀ c, updateChain c tag data' = updateChain c tag data := by
    intro c
    simp only [updateChain, hmodify, hinsert]
  simp only [ef10NvramBufWriteTlv, hchain]

/-- Of data that is too long the bytes that its length field counts are written. -/
theorem tlvWrite_take (c : TlvCursor) (tag : ℕ) (data : Bytes) :
    tlvWrite c tag (data.take (data.length % 4294967296)) = tlvWrite c tag data := by
  have hlen : (data.take (data.length % 4294967296)).length = data.length % 4294967296 := by
    rw [List.length_take, Nat.min_eq_left (Nat.mod_le _ _)]
  simp only [tlvWrite, hlen, Nat.mod_mod, List.take_take, Nat.min_self]

/-- The space made for an item that fits is that of its low 32 bits, or the item is longer than any buffer. -/
theorem delta_of_fits {n : ℕ} (h32 : m.length < 4294967296) (hold : 4 * oldWords m tag ≤ n)
    (hfits : ItemFits m n tag data) (hn : n ≤ m.length) :
    tlvDelta (data.length % 4294967296) = tlvDelta data.length ∨ m.length < (newItem tag data).length := by
  rw [length_newItem]
  simp only [ItemFits, tlvDelta, tlvDwordCount] at hfits ⊢
  omega

/-! ### What the update of a segment is -/

/-- The structures of the partition's header and trailer lie inside their items. -/
def HoldsStructs (m : Bytes) : Prop :=
  headerSize ≤ nextPos m 0 ∧
    ∀ q, find? m (startCursor 0 m.length) TLV_TAG_PARTITION_TRAILER = some q → q + trailerSize ≤ nextPos m q

/-- The buffer `m'` is `m` with the data under the tag, and a segment of the length `total`. -/
structure Rewritten (m m' : Bytes) (tag : ℕ) (data : Bytes) (total : ℕ) : Prop where
  read : ef10NvramBufReadTlv true 0 m'.length tag m' = .ret data m'
  others : ∀ t, t ≠ tag → t ≠ TLV_TAG_PARTITION_HEADER → t ≠ TLV_TAG_PARTITION_TRAILER → ∀ alloc,
    outcome (ef10NvramBufReadTlv alloc 0 m'.length t m') = outcome (ef10NvramBufReadTlv alloc 0 m.length t m)
  accepted : ef10NvramBufSegmentSize 0 m'.length m' = .ret total m'
  header_generation : u32 m' headerGeneration = (u32 m headerGeneration + 1) % 4294967296
  trailer_generation : ∃ q, find? m' (startCursor 0 m'.length) TLV_TAG_PARTITION_TRAILER = some q ∧
    u32 m' (q + trailerGeneration) = (u32 m headerGeneration + 1) % 4294967296
  sum : wsum m' 0 (wordCount total) % 4294967296 = 0

/-- The call does all of the update or nothing. -/
def Updates (m : Bytes) (tag : ℕ) (data : Bytes) : Prop :=
  (∃ total m', ef10NvramBufWriteTlv 0 m.length tag data m = .ret total m' ∧ Rewritten m m' tag data total) ∨
    ∃ e, ef10NvramBufWriteTlv 0 m.length tag data m = .err e m

/-- The item does not fit behind the `n` bytes of the segment; or header and trailer hold their structures, the length of
the data fits in 32 bits, the words by which an item gets shorter lie behind the segment as well, and where these are
three or more the segment has an item of tag 0. -/
def CanUpdate (m : Bytes) (n tag : ℕ) (data : Bytes) : Prop :=
  ¬ ItemFits m n tag data ∨
    (HoldsStructs m ∧ data.length < 4294967296 ∧ n + 4 * shrinkage m tag data ≤ m.length ∧
      (3 ≤ shrinkage m tag data → find? m (startCursor 0 m.length) 0 ≠ none))

theorem Begins.holdsStructs_iff (h : Begins m s) :
    HoldsStructs m ↔ headerSize ≤ s.header.size ∧ trailerSize ≤ s.trailer.size := by
  have hnext := nextPos_item h.header
  rw [Nat.zero_add] at hnext
  have htr := nextPos_item h.trailer
  constructor
  · rintro ⟨h1, h2⟩
    have := h2 _ h.find?_trailer
    exact ⟨by rwa [hnext] at h1, by omega⟩
  · rintro ⟨h1, h2⟩
    refine ⟨by rwa [hnext], fun q hq => ?_⟩
    rw [h.find?_trailer] at hq
    cases hq
    omega

theorem Begins.value?_end (h : Begins m s) : value? m TLV_TAG_END = some [] := by
  rw [value?, h.find?_end, Option.map_some, if_pos h.end_tag, slice_zero]

/-- With erased flash behind the segment, reading is looking up. -/
theorem Begins.value?_blank (h : Begins m s) (hb : Blank m (s.endAt + 4)) (h32 : m.length < 4294967296)
    (ht : t ≠ TLV_TAG_END) : value? m t = lookup t s.all := by
  have h4 := s.four_dvd_endAt
  exact h.value?_eq ht fun _ => hb.seekFrom_eq_none h32 (Begins.fits m) (by omega) (by omega)

theorem posOf_eq_none_iff {items : List TlvItem} (ht : t ≠ TLV_TAG_END) :
    posOf t items = none ↔ lookup t items = none := by
  rw [posOf_none, lookup_eq_none_iff]
  exact and_iff_right ht

/-- With zeroed words behind the segment reading is looking up, unless they make an item of tag 0. -/
theorem Begins.value?_zeroed_iff (h : Begins m s) (hz : Zeroed m (s.endAt + 4) d) (h32 : m.length < 4294967296)
    (hroom : s.endAt + 4 + d + d ≤ m.length) (ht : t ≠ TLV_TAG_END) :
    value? m t = lookup t s.all ↔ t ≠ 0 ∨ lookup t s.all ≠ none ∨ d < 12 := by
  have h4 := s.four_dvd_endAt
  by_cases hp : posOf t s.all = none
  swap
  · have hl : lookup t s.all ≠ none := fun hl => hp ((posOf_eq_none_iff ht).mpr hl)
    exact iff_of_true (h.value?_eq ht fun hn => absurd hn hp) (Or.inr (Or.inl hl))
  have hl := (posOf_eq_none_iff ht).mp hp
  rw [hl, value?, h.find?_of_absent hp, Option.map_eq_none_iff]
  by_cases h0 : t = 0
  · subst h0
    rw [hz.seekFrom_zero_iff h32 (by rw [startCursor_limit]; push_cast; ring) (Nat.zero_le _) hroom]
    simp
  · exact iff_of_true (hz.seekFrom_eq_none h32 (Begins.fits m) h0 (by omega) (by omega)) (Or.inl h0)

/-- **Success, read back.**  After the update the value can be read; the other tags read as before if and only if the
zeroed words do not make an item of a tag that could not be read. -/
theorem Begins.rewritten_iff (h : Begins m s) (hb : Blank m (s.endAt + 4)) (h32 : m.length < 4294967296)
    (hstructs : HoldsStructs m) (hlt : tag < 4294967296) (hh : tag ≠ TLV_TAG_PARTITION_HEADER)
    (htr : tag ≠ TLV_TAG_PARTITION_TRAILER) (hend : tag ≠ TLV_TAG_END) (hlen : data.length < 4294967296)
    (hfits : ItemFits m (s.endAt + 4) tag data) (hroom : s.endAt + 4 + 4 * shrinkage m tag data ≤ m.length) :
    ∃ total m', ef10NvramBufWriteTlv 0 m.length tag data m = .ret total m' ∧
      ef10NvramBufReadTlv true 0 m'.length tag m' = .ret data m' ∧
      (Rewritten m m' tag data total ↔ (3 ≤ shrinkage m tag data → find? m (startCursor 0 m.length) 0 ≠ none)) := by
  obtain ⟨hs, ht⟩ := h.holdsStructs_iff.mp hstructs
  obtain ⟨m', s', hret, hl, h', hz, hbound, hnew, hvalue, hothers⟩ :=
    h.bufWriteTlv_ret hb h32 hs ht hlt hh htr hend hlen hfits hroom
  have h32' : m'.length < 4294967296 := by omega
  have hread : value? m' tag = some data := by
    rw [(h'.value?_zeroed_iff hz h32' hbound hend).mpr (Or.inr (Or.inl (by rw [hvalue]; simp))), hvalue]
  have hfind0 : find? m (startCursor 0 m.length) 0 = none ↔ lookup 0 s.all = none := by
    rw [← h.value?_blank hb h32 (by decide), value?, Option.map_eq_none_iff]
  -- an item that gets shorter is one that was found
  have hfound : 3 ≤ shrinkage m tag data → find? m (startCursor 0 m.length) tag ≠ none := by
    intro h3 hn
    rw [shrinkage, oldWords_of_absent hn] at h3
    omega
  refine ⟨_, m', hret, (bufReadTlv_ret_iff h'.valid_header).mpr hread, fun hr h3 hn => ?_, fun hcond => ?_⟩
  · have h0 : (0 : ℕ) ≠ tag := fun h0 => hfound h3 (h0 ▸ hn)
    have hsame := (outcome_read_eq_iff h.valid_header h'.valid_header 0).mp (hr.others 0 h0 (by decide) (by decide))
    have hlook := hothers 0 h0 (by decide) (by decide)
    rw [h.value?_blank hb h32 (by decide), ← hlook, h'.value?_zeroed_iff hz h32' hbound (by decide), hlook,
      hfind0.mp hn] at hsame
    rcases hsame with hsame | hsame | hsame
    · exact hsame rfl
    · exact hsame rfl
    · omega
  · refine ⟨(bufReadTlv_ret_iff h'.valid_header).mpr hread, fun t htt hth htt' => ?_, ?_, hnew.header_generation,
      ⟨_, h'.find?_trailer, hnew.trailer_generation⟩, ?_⟩
    · rw [outcome_read_eq_iff h.valid_header h'.valid_header]
      by_cases hte : t = TLV_TAG_END
      · rw [hte, h'.value?_end, h.value?_end]
      · rw [h.value?_blank hb h32 hte, ← hothers t htt hth htt', h'.value?_zeroed_iff hz h32' hbound hte,
          hothers t htt hth htt']
        by_cases h0 : t = 0
        · subst h0
          by_cases h3 : 3 ≤ shrinkage m tag data
          · exact Or.inr (Or.inl fun hn => hcond h3 (hfind0.mpr hn))
          · exact Or.inr (Or.inr (by omega))
        · exact Or.inl h0
    · exact h'.segmentSize_ret h32' hnew.length hnew.sum
    · rw [wordCount_used]
      exact hnew.sum

/-- **Single-segment update.**  On a segment that `ef10_nvram_buf_segment_size` accepts, with erased flash behind it, the
call does all of the update or nothing where it can; where header and trailer hold their structures, only there. -/
theorem bufWriteTlv_updates {n : ℕ} (h32 : m.length < 4294967296)
    (haccepted : ef10NvramBufSegmentSize 0 m.length m = .ret n m) (hblank : Blank m n) (hlt : tag < 4294967296)
    (hh : tag ≠ TLV_TAG_PARTITION_HEADER) (htr : tag ≠ TLV_TAG_PARTITION_TRAILER) (hend : tag ≠ TLV_TAG_END) :
    (CanUpdate m n tag data → Updates m tag data) ∧ (HoldsStructs m → Updates m tag data → CanUpdate m n tag data) := by
  obtain ⟨s, h, rfl, -, -, -⟩ := segmentSize_ret_inv h32 hblank haccepted
  refine ⟨fun hcan => ?_, fun hstructs hup => ?_⟩
  · by_cases hfits : ItemFits m (s.endAt + 4) tag data
    swap
    · exact Or.inr (h.bufWriteTlv_refuses hblank h32 hfits)
    obtain ⟨hstructs, hlen, hroom, hzero⟩ := hcan.resolve_left (not_not.mpr hfits)
    obtain ⟨total, m', hret, -, hiff⟩ := h.rewritten_iff hblank h32 hstructs hlt hh htr hend hlen hfits hroom
    exact Or.inl ⟨total, m', hret, hiff.mpr hzero⟩
  · by_cases hfits : ItemFits m (s.endAt + 4) tag data
    swap
    · exact Or.inl hfits
    have hnofault : ef10NvramBufWriteTlv 0 m.length tag data m ≠ .fault := by
      intro hf
      rcases hup with ⟨total, m', hret, -⟩ | ⟨e, he⟩
      · rw [hf] at hret
        cases hret
      · rw [hf] at he
        cases he
    have hroom : s.endAt + 4 + 4 * shrinkage m tag data ≤ m.length := by
      by_contra hroom
      exact hnofault (h.bufWriteTlv_outside hblank h32 hh htr hend (by omega))
    have hdelta : tlvDelta (data.length % 4294967296) = tlvDelta data.length :=
      (delta_of_fits h32 (h.oldWords_le hblank h32 hh htr hend) hfits (by have := h.spare; omega)).resolve_right
        fun hlong => hnofault (h.bufWriteTlv_long hblank h32 hend hfits hlong)
    -- the data that the length field counts
    have htake : (data.take (data.length % 4294967296)).length = data.length % 4294967296 := by
      rw [List.length_take, Nat.min_eq_left (Nat.mod_le _ _)]
    have hsame := bufWriteTlv_congr 0 m.length (by rw [htake]; exact hdelta) fun c => tlvWrite_take c tag data
    have hfits' : ItemFits m (s.endAt + 4) tag (data.take (data.length % 4294967296)) := by
      rwa [ItemFits, htake, hdelta]
    have hshr : shrinkage m tag (data.take (data.length % 4294967296)) = shrinkage m tag data := by
      rw [shrinkage, shrinkage, htake, hdelta]
    obtain ⟨total, m', hret, hread, hiff⟩ := h.rewritten_iff hblank h32 hstructs hlt hh htr hend
      (by rw [htake]; exact Nat.mod_lt _ (by omega)) hfits' (by rw [hshr]; exact hroom)
    rw [hsame] at hret
    rcases hup with ⟨total', m'', hret', hrew⟩ | ⟨e, he⟩
    swap
    · rw [hret] at he
      cases he
    rw [hret] at hret'
    cases hret'
    have hdata : data.take (data.length % 4294967296) = data := by
      have hr := hrew.read
      rw [hread] at hr
      exact (Res.ret.inj hr).1
    rw [hdata] at hiff
    refine Or.inr ⟨hstructs, ?_, hroom, hiff.mp hrew⟩
    rw [← hdata, htake]
    exact Nat.mod_lt _ (by omega)

/-- A segment with an item of tag 1 that has twelve bytes, in a buffer of 80 -/
def twelveBytes : Bytes :=
  le 4 TLV_TAG_PARTITION_HEADER ++ le 4 12 ++ le 4 0 ++ le 4 1 ++ le 4 60 ++ (le 4 1 ++ le 4 12 ++ List.replicate 12 7) ++
    (le 4 TLV_TAG_PARTITION_TRAILER ++ le 4 8 ++ le 4 1 ++ le 4 500893389) ++ le 4 TLV_TAG_END ++ List.replicate 20 0xff

theorem twelveBytes_length : twelveBytes.length = 80 := by simp [twelveBytes]

theorem twelveBytes_accepted : ef10NvramBufSegmentSize 0 twelveBytes.length twelveBytes = .ret 60 twelveBytes := by
  decide

theorem twelveBytes_blank : Blank twelveBytes 60 := by
  intro q hq h4 hb
  rw [twelveBytes_length] at hb
  rcases (show q = 60 ∨ q = 64 ∨ q = 68 ∨ q = 72 ∨ q = 76 by omega) with rfl | rfl | rfl | rfl | rfl <;> decide

/-- One byte fits under a new tag. -/
theorem bufWriteTlv_updates_new : Updates twelveBytes 2 [5] := by
  have htrailer : find? twelveBytes (startCursor 0 twelveBytes.length) TLV_TAG_PARTITION_TRAILER = some 40 := by
    decide
  have hstructs : HoldsStructs twelveBytes := by
    refine ⟨by decide, fun q hq => ?_⟩
    rw [htrailer] at hq
    cases hq
    decide
  refine (bufWriteTlv_updates (by rw [twelveBytes_length]; decide) twelveBytes_accepted twelveBytes_blank (by decide)
    (by decide) (by decide) (by decide)).1 (Or.inr ⟨hstructs, by decide, ?_, fun h3 => ?_⟩)
  · rw [twelveBytes_length]
    decide +kernel
  · exact absurd h3 (by decide +kernel)

/-- What is left of it when the item loses its value: three zeroed words behind the END tag -/
def shrunk : Bytes :=
  le 4 TLV_TAG_PARTITION_HEADER ++ le 4 12 ++ le 4 0 ++ le 4 2 ++ le 4 48 ++ (le 4 1 ++ le 4 0) ++
    (le 4 TLV_TAG_PARTITION_TRAILER ++ le 4 8 ++ le 4 2 ++ le 4 854596600) ++ le 4 TLV_TAG_END ++ List.replicate 12 0 ++
    List.replicate 20 0xff

/-- The three words of the item's value become an item of tag 0 behind the END tag. -/
theorem bufWriteTlv_adds_zero : ¬ ∀ (m : Bytes) (n tag : ℕ) (data : Bytes), m.length < 4294967296 →
    ef10NvramBufSegmentSize 0 m.length m = .ret n m → Blank m n → tag < 4294967296 →
    tag ≠ TLV_TAG_PARTITION_HEADER → tag ≠ TLV_TAG_PARTITION_TRAILER → tag ≠ TLV_TAG_END → Updates m tag data := by
  intro h
  have hwrite : ef10NvramBufWriteTlv 0 twelveBytes.length 1 [] twelveBytes = .ret 48 shrunk := by decide +kernel
  rcases h twelveBytes 60 1 [] (by rw [twelveBytes_length]; decide) twelveBytes_accepted twelveBytes_blank (by decide)
    (by decide) (by decide) (by decide) with ⟨total, m', hret, hrew⟩ | ⟨e, he⟩
  · rw [hwrite] at hret
    cases hret
    have hzero : outcome (ef10NvramBufReadTlv true 0 shrunk.length 0 shrunk) ≠
        outcome (ef10NvramBufReadTlv true 0 twelveBytes.length 0 twelveBytes) := by
      have hnow : outcome (ef10NvramBufReadTlv true 0 shrunk.length 0 shrunk) = some (.ok []) := by decide
      have hthen : outcome (ef10NvramBufReadTlv true 0 twelveBytes.length 0 twelveBytes) = some (.error ENOENT) := by
        decide
      rw [hnow, hthen]
      nofun
    exact hzero (hrew.others 0 (by decide) (by decide) (by decide) true)
  · rw [hwrite] at he
    cases he

end Sfxge.Tlv
