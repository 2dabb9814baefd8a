import Sfxge.Tlv.Find
import Sfxge.Tlv.Validate

/-!
# Tlv.Segment — segments in a buffer

A segment is a chain of a header item, items of other tags and a trailer item, closed by an END tag.  What
`ef10_nvram_buf_read_tlv` and `ef10_nvram_buf_segment_size` do with a buffer that begins with a segment depends on
the words behind the segment: `Blank` says that they are erased flash, `Zeroed` that some were cleared before.
-/

namespace Sfxge.Tlv

open Lib Lib.Prog Errno

/-- The items of a segment -/
structure Segment where
  header : TlvItem
  items : List TlvItem
  trailer : TlvItem
  header_tag : header.tag = TLV_TAG_PARTITION_HEADER
  trailer_tag : trailer.tag = TLV_TAG_PARTITION_TRAILER
  items_tag : ∀ i ∈ items, i.tag ≠ TLV_TAG_PARTITION_HEADER ∧ i.tag ≠ TLV_TAG_PARTITION_TRAILER

namespace Segment

variable (s : Segment)

/-- All items, header and trailer with them -/
def all : List TlvItem := s.header :: (s.items ++ [s.trailer])

/-- The position of the END tag -/
def endAt : ℕ := (chainBytes s.all).length

/-- The position of the trailer -/
def trailerAt : ℕ := (chainBytes (s.header :: s.items)).length

/-- The segment up to its END tag -/
def bytes : Bytes := chainBytes s.all ++ le 4 TLV_TAG_END

theorem all_eq : s.all = (s.header :: s.items) ++ [s.trailer] := rfl

@[simp] theorem length_bytes : s.bytes.length = s.endAt + 4 := by
  rw [bytes, List.length_append, length_le, endAt]

theorem endAt_eq : s.endAt = s.trailerAt + s.trailer.size := by
  rw [endAt, all_eq, chainBytes_append, List.length_append, trailerAt]
  simp

theorem four_dvd_endAt : 4 ∣ s.endAt := four_dvd_length_chainBytes _

theorem four_dvd_trailerAt : 4 ∣ s.trailerAt := four_dvd_length_chainBytes _

theorem trailerAt_eq : s.trailerAt = s.header.size + (chainBytes s.items).length := by
  rw [trailerAt, chainBytes_cons, List.length_append, TlvItem.length_bytes]

end Segment

variable {m : Bytes} {c : TlvCursor} {s : Segment} {rest : Bytes} {tag p q : ℕ}

/-! ### What may lie behind a segment -/

/-- From `p` on there is erased flash. -/
def Blank (m : Bytes) (p : ℕ) : Prop := ∀ q, p ≤ q → 4 ∣ q → q + 4 ≤ m.length → u32 m q = 0xffffffff

theorem Blank.mono (h : Blank m p) (hq : p ≤ q) : Blank m q := fun r hr => h r (hq.trans hr)

/-- Nothing in erased flash is an item: its length goes beyond any partition. -/
theorem Blank.not_valid (h : Blank m p) (h32 : m.length < 4294967296) (hfit : c.limit + 4 ≤ m.length) (hq : p ≤ q)
    (h4 : 4 ∣ q) : ¬ Valid m (c.at q) := by
  intro hv
  have hb := hv.bound hfit
  simp only [at_current] at hb
  have htag := h q hq h4 hb
  have hne : u32 m q ≠ TLV_TAG_END := by rw [htag]; decide
  have hi := hv.item hne
  simp only [at_current, at_limit] at hi
  have hlen : u32 m (q + 4) = 0xffffffff := h (q + 4) (by omega) (Nat.dvd_add h4 (dvd_refl 4)) (by omega)
  have hn : nextPos m q = q + 4 * (1 + 1 + (0xffffffff + 3) / 4) := by rw [nextPos, if_neg hne, hlen]; rfl
  omega

theorem Blank.seekFrom_eq_none (h : Blank m p) (h32 : m.length < 4294967296) (hfit : c.limit + 4 ≤ m.length)
    (hq : p ≤ q) (h4 : 4 ∣ q) : seekFrom m c tag q = none := by
  rw [seekFrom_eq hfit, if_neg (h.not_valid h32 hfit hq h4)]

/-- From `p` on there are `d` zero bytes, and erased flash behind them. -/
structure Zeroed (m : Bytes) (p d : ℕ) : Prop where
  zero : ∀ q, p ≤ q → q + 4 ≤ p + d → 4 ∣ q → u32 m q = 0
  blank : Blank m (p + d)
  dvd_pos : 4 ∣ p
  dvd_len : 4 ∣ d

/-- Zeroed words are items of tag 0 without a value: no other tag is found among them. -/
theorem Zeroed.seekFrom_eq_none {d : ℕ} (h : Zeroed m p d) (h32 : m.length < 4294967296)
    (hfit : c.limit + 4 ≤ m.length) (htag : tag ≠ 0) (hq : p ≤ q) (h4 : 4 ∣ q) : seekFrom m c tag q = none := by
  have hp4 := h.dvd_pos
  have hd4 := h.dvd_len
  generalize hk : p + d - q = k
  induction k using Nat.strong_induction_on generalizing q with
  | _ k ih =>
    rcases le_or_gt (p + d) q with hge | hlt
    · exact h.blank.seekFrom_eq_none h32 hfit hge h4
    have hz : u32 m q = 0 := h.zero q hq (by omega) h4
    have hne : u32 m q ≠ TLV_TAG_END := by rw [hz]; decide
    rw [seekFrom_eq hfit]
    split_ifs with hv ht
    · exact absurd (ht.symm.trans hz) htag
    · rfl
    · have hge := nextPos_ge m q
      by_cases hlast : q + 8 ≤ p + d
      · exact ih _ (by omega) (by omega) (four_dvd_nextPos q h4) rfl
      · exact h.blank.seekFrom_eq_none h32 hfit (by omega) (four_dvd_nextPos q h4)
    · rfl

/-- Three zeroed words are an item of tag 0 for a walk that steps over the END tag in front of them. -/
theorem Zeroed.seekFrom_zero_iff {d : ℕ} (h : Zeroed m p d) (h32 : m.length < 4294967296)
    (hfit : c.limit + 4 = m.length) (hblock : c.block ≤ p) (hroom : p + d + d ≤ m.length) :
    seekFrom m c 0 (p + 4) = none ↔ d < 12 := by
  have hfit' := hfit.le
  have hp4 := h.dvd_pos
  have hd4 := h.dvd_len
  constructor
  · intro hn
    by_contra hd
    have hz : u32 m (p + 4) = 0 := h.zero (p + 4) (by omega) (by omega) (by omega)
    have hz8 : u32 m (p + 8) = 0 := h.zero (p + 8) (by omega) (by omega) (by omega)
    have hne : u32 m (p + 4) ≠ TLV_TAG_END := by rw [hz]; decide
    have hnext : nextPos m (p + 4) = p + 12 := by rw [nextPos, if_neg hne, hz8]; rfl
    have hv : Valid m (c.at (p + 4)) := by
      refine ⟨by simp only [at_block, at_current]; omega, by simp only [at_current, at_limit]; omega, fun _ => ?_⟩
      simp only [at_current, at_limit, hnext]
      omega
    rw [seekFrom_eq hfit', if_pos hv, if_pos hz] at hn
    cases hn
  · intro hd
    rcases (show d = 0 ∨ d = 4 ∨ d = 8 by omega) with rfl | rfl | rfl
    · exact h.blank.seekFrom_eq_none h32 hfit' (by omega) (by omega)
    · exact h.blank.seekFrom_eq_none h32 hfit' (by omega) (by omega)
    · -- the length field is the first word of the erased flash
      have hz : u32 m (p + 4) = 0 := h.zero (p + 4) (by omega) (by omega) (by omega)
      have hne : u32 m (p + 4) ≠ TLV_TAG_END := by rw [hz]; decide
      have hff : u32 m (p + 8) = 0xffffffff := h.blank (p + 8) (by omega) (by omega) (by omega)
      rw [seekFrom_eq hfit', if_neg]
      intro hv
      have hi := (hv.item hne).2
      have hnext : nextPos m (p + 4) = p + 4 + 4 * (1 + 1 + (0xffffffff + 3) / 4) := by
        rw [nextPos, if_neg hne, hff]; rfl
      simp only [at_current, at_limit, hnext] at hi
      omega

/-! ### Walking over a segment -/

/-- The buffer begins with the segment, and there is a word behind it. -/
structure Begins (m : Bytes) (s : Segment) : Prop where
  bytes : At m 0 s.bytes
  spare : s.endAt + 8 ≤ m.length

namespace Begins

theorem chain (h : Begins m s) : At m 0 (chainBytes s.all) := h.bytes.left

theorem end_tag (h : Begins m s) : u32 m s.endAt = TLV_TAG_END := by
  have hend := h.bytes.right
  rw [Nat.zero_add] at hend
  rw [Segment.endAt, hend.u32_eq]
  decide

theorem header (h : Begins m s) : At m 0 s.header.bytes := by
  have hc := h.chain
  rw [Segment.all, chainBytes_cons] at hc
  exact hc.left

theorem items (h : Begins m s) : At m s.header.size (chainBytes (s.items ++ [s.trailer])) := by
  have hc := h.chain
  rw [Segment.all, chainBytes_cons] at hc
  have hr := hc.right
  rwa [TlvItem.length_bytes, Nat.zero_add] at hr

theorem trailer (h : Begins m s) : At m s.trailerAt s.trailer.bytes := by
  have hc := h.chain
  have hone : chainBytes [s.trailer] = s.trailer.bytes := List.append_nil _
  rw [Segment.all_eq, chainBytes_append, hone] at hc
  have hr := hc.right
  rwa [Nat.zero_add] at hr

/-- The cursor that the functions on a buffer begin with -/
abbrev cursor (m : Bytes) : TlvCursor := startCursor 0 m.length

theorem fits (m : Bytes) : (cursor m).limit + 4 ≤ m.length := startCursor_fit (by omega)

theorem block (h : Begins m s) : IsBlock m (cursor m) s.all where
  header := ⟨s.header, s.items ++ [s.trailer], rfl, s.header_tag⟩
  chain := h.chain
  endTag := by
    rw [startCursor_block, Nat.zero_add]
    exact h.end_tag
  inside := by
    have := h.spare
    rw [Segment.endAt] at this
    simp only [startCursor_block, startCursor_limit]
    omega

theorem find?_of_pos (h : Begins m s) (hp : posOf tag s.all = some p) : find? m (cursor m) tag = some p := by
  have hspare := h.spare
  rw [Segment.endAt] at hspare
  have hf := find?_block (fits m) rfl h.block (by simp only [startCursor_block, startCursor_limit]; omega) hp
  rwa [startCursor_block, Nat.zero_add] at hf

/-- A tag that the segment does not have is looked for behind its END tag. -/
theorem find?_of_absent (h : Begins m s) (hp : posOf tag s.all = none) :
    find? m (cursor m) tag = seekFrom m (cursor m) tag (s.endAt + 8) := by
  have hspare := h.spare
  have hf := find?_absent (fits m) rfl h.block
    (by rw [← Segment.endAt, startCursor_block, startCursor_limit]; omega) hp
  rwa [startCursor_block, Nat.zero_add] at hf

theorem find?_end (h : Begins m s) : find? m (cursor m) TLV_TAG_END = some s.endAt := by
  refine h.find?_of_pos ?_
  rcases hp : posOf TLV_TAG_END s.all with _ | p
  · exact absurd rfl (posOf_none.mp hp).1
  · rcases posOf_some hp with ⟨-, i, -, -, -, hi, -⟩ | ⟨-, -, rfl⟩
    · exact absurd hi i.tag_ne
    · rfl

theorem find?_trailer (h : Begins m s) : find? m (cursor m) TLV_TAG_PARTITION_TRAILER = some s.trailerAt := by
  refine h.find?_of_pos ?_
  rw [Segment.all_eq, posOf_append_cons s.trailer_tag ?_]
  · rfl
  · intro i hi
    rcases List.mem_cons.mp hi with rfl | hi
    · rw [s.header_tag]
      decide
    · exact (s.items_tag i hi).2

theorem valid_header (h : Begins m s) : Valid m (cursor m) := by
  have hspare := h.spare
  have hsize : s.header.size + 8 ≤ s.endAt := by
    have := s.endAt_eq
    have := s.trailerAt_eq
    have := s.trailer.size_ge
    omega
  exact valid_item (c := cursor m) h.header le_rfl (by rw [startCursor_limit]; push_cast; omega)

theorem hasHeader (h : Begins m s) : HasHeader m 0 m.length :=
  ⟨h.valid_header, by rw [u32_item h.header, s.header_tag]⟩

theorem nextPos_trailer (h : Begins m s) : nextPos m s.trailerAt = s.endAt := by
  rw [nextPos_item h.trailer, s.endAt_eq]

theorem valid_end (h : Begins m s) : Valid m ((cursor m).at s.endAt) := by
  have hspare := h.spare
  exact Tlv.valid_end h.end_tag (Nat.zero_le _) (by rw [startCursor_limit]; omega)

end Begins

/-! ### Reading an item -/

/-- The value of the item that `tlv_find` comes to -/
def value? (m : Bytes) (tag : ℕ) : Option Bytes :=
  (find? m (startCursor 0 m.length) tag).map fun p =>
    slice m (p + 8) (if u32 m p = TLV_TAG_END then 0 else u32 m (p + 4))

theorem bufReadTlv_none {alloc : Bool} (hv : Valid m (startCursor 0 m.length)) (h : value? m tag = none) :
    ef10NvramBufReadTlv alloc 0 m.length tag m = .err ENOENT m := by
  have hpos := hv.bound (Begins.fits m)
  simp only [startCursor_current] at hpos
  obtain ⟨e, he⟩ := tlvFind_err (Begins.fits m) (Option.map_eq_none_iff.mp h)
  rw [ef10NvramBufReadTlv, bind_of_ret (ensure_pos (by omega)),
    bind_of_ret (orFail_of_ret _ (tlvInitCursorFromSize_ret (by omega) hv))]
  exact bind_of_err (orFail_of_err _ he)

theorem bufReadTlv_some {alloc : Bool} {v : Bytes} (hv : Valid m (startCursor 0 m.length)) (h : value? m tag = some v) :
    ef10NvramBufReadTlv alloc 0 m.length tag m = if v = [] ∨ alloc = true then .ret v m else .err ENOMEM m := by
  have hpos := hv.bound (Begins.fits m)
  simp only [startCursor_current] at hpos
  obtain ⟨p, hp, rfl⟩ := Option.map_eq_some_iff.mp h
  have hvp : Valid m ((startCursor 0 m.length).at p) := (find?_spec hp).1
  have hlen : (slice m (p + 8) (if u32 m p = TLV_TAG_END then 0 else u32 m (p + 4))).length =
      if u32 m p = TLV_TAG_END then 0 else u32 m (p + 4) := by
    split_ifs with hend
    · rw [slice_zero, List.length_nil]
    · have hb := (hvp.bound_item (Begins.fits m) hend).2
      rw [nextPos, at_current, if_neg hend, tlvDwordCount] at hb
      exact length_slice (by omega)
  have hload : 0 < (if u32 m p = TLV_TAG_END then 0 else u32 m (p + 4)) →
      p + 8 + (if u32 m p = TLV_TAG_END then 0 else u32 m (p + 4)) ≤ m.length := by
    intro h0
    by_cases hend : u32 m p = TLV_TAG_END
    · rw [if_pos hend] at h0
      omega
    · have hb := (hvp.bound_item (Begins.fits m) hend).2
      rw [nextPos, at_current, if_neg hend, tlvDwordCount] at hb
      rw [if_neg hend]
      omega
  have hl : tlvLength ((startCursor 0 m.length).at p) m =
      .ret (if u32 m p = TLV_TAG_END then 0 else u32 m (p + 4)) m := hvp.length (Begins.fits m)
  rw [ef10NvramBufReadTlv, bind_of_ret (ensure_pos (by omega)),
    bind_of_ret (orFail_of_ret _ (tlvInitCursorFromSize_ret (by omega) hv)),
    bind_of_ret (orFail_of_ret _ (tlvFind_ret (Begins.fits m) hp)), bind_of_ret hl]
  generalize (if u32 m p = TLV_TAG_END then 0 else u32 m (p + 4)) = n at hlen hload
  by_cases h0 : n = 0
  · subst h0
    rw [if_pos rfl, slice_zero, if_pos (Or.inl rfl)]
    rfl
  · have hne : slice m (p + 8) n ≠ [] := List.ne_nil_of_length_pos (by omega)
    rw [if_neg h0]
    cases alloc with
    | true =>
      rw [if_pos (Or.inr rfl), bind_of_ret (ensure_pos rfl)]
      exact load_of_le (hload (by omega))
    | false =>
      rw [if_neg (by simp [hne])]
      exact bind_of_err (ensure_neg (by simp))

/-- What a run reports, without the memory it leaves -/
def outcome {α : Type} : Res Bytes Errno α → Option (Except Errno α)
  | .ret a _ => some (.ok a)
  | .err e _ => some (.error e)
  | _ => none

/-- Two buffers read the same under a tag if and only if they have the same value for it. -/
theorem outcome_read_eq_iff {m' : Bytes} (hv : Valid m (startCursor 0 m.length))
    (hv' : Valid m' (startCursor 0 m'.length)) (tag : ℕ) :
    (∀ alloc, outcome (ef10NvramBufReadTlv alloc 0 m'.length tag m') =
      outcome (ef10NvramBufReadTlv alloc 0 m.length tag m)) ↔ value? m' tag = value? m tag := by
  constructor
  · intro h
    have ht := h true
    cases ha : value? m' tag with
    | none =>
      cases hb : value? m tag with
      | none => rfl
      | some v =>
        rw [bufReadTlv_none hv' ha, bufReadTlv_some hv hb, if_pos (Or.inr rfl)] at ht
        cases ht
    | some v' =>
      cases hb : value? m tag with
      | none =>
        rw [bufReadTlv_some hv' ha, bufReadTlv_none hv hb, if_pos (Or.inr rfl)] at ht
        cases ht
      | some v =>
        rw [bufReadTlv_some hv' ha, bufReadTlv_some hv hb, if_pos (Or.inr rfl), if_pos (Or.inr rfl)] at ht
        cases ht
        rfl
  · intro h alloc
    cases hb : value? m tag with
    | none => rw [bufReadTlv_none hv' (h.trans hb), bufReadTlv_none hv hb]; rfl
    | some v =>
      rw [bufReadTlv_some hv' (h.trans hb), bufReadTlv_some hv hb]
      split_ifs <;> rfl

theorem bufReadTlv_ret_iff {v : Bytes} (hv : Valid m (startCursor 0 m.length)) :
    ef10NvramBufReadTlv true 0 m.length tag m = .ret v m ↔ value? m tag = some v := by
  cases h : value? m tag with
  | none => rw [bufReadTlv_none hv h]; exact iff_of_false nofun nofun
  | some w =>
    rw [bufReadTlv_some hv h, if_pos (Or.inr rfl)]
    exact ⟨fun h => by cases h; rfl, fun h => by cases h; rfl⟩

/-- The value of the first item of the tag -/
def lookup (tag : ℕ) (items : List TlvItem) : Option Bytes := (items.find? fun i => i.tag = tag).map TlvItem.value

theorem lookup_append_cons {pre post : List TlvItem} {i : TlvItem} (hi : i.tag = tag) (hpre : ∀ j ∈ pre, j.tag ≠ tag) :
    lookup tag (pre ++ i :: post) = some i.value := by
  have hnone : pre.find? (fun i => i.tag = tag) = none := List.find?_eq_none.mpr (by simpa using hpre)
  rw [lookup, List.find?_append, hnone, List.find?_cons_of_pos (by simpa using hi)]
  rfl

theorem lookup_eq_none {items : List TlvItem} (h : ∀ i ∈ items, i.tag ≠ tag) : lookup tag items = none := by
  rw [lookup, List.find?_eq_none.mpr (by simpa using h)]
  rfl

/-- **Reading a segment.**  Where no item of the tag is found behind the segment, the value is that of the first
item of the tag in the segment. -/
theorem Begins.value?_eq (h : Begins m s) (htag : tag ≠ TLV_TAG_END)
    (hquiet : posOf tag s.all = none → seekFrom m (cursor m) tag (s.endAt + 8) = none) :
    value? m tag = lookup tag s.all := by
  cases hp : posOf tag s.all with
  | none => rw [value?, h.find?_of_absent hp, hquiet hp, lookup_eq_none (posOf_none.mp hp).2]; rfl
  | some p =>
    rcases posOf_some hp with ⟨pre, i, post, heq, hpre, hi, rfl⟩ | ⟨-, hend, -⟩
    · have hc := h.chain
      rw [heq, chainBytes_append, chainBytes_cons] at hc
      have hit := (At.append_iff.mp hc.right).1
      rw [Nat.zero_add] at hit
      have hne : u32 m (chainBytes pre).length ≠ TLV_TAG_END := by rw [u32_item hit]; exact i.tag_ne
      rw [value?, h.find?_of_pos hp, Option.map_some, if_neg hne, u32_item_len hit, slice_item hit, heq,
        lookup_append_cons hi hpre]
    · exact absurd hend htag

/-! ### `ef10_nvram_buf_segment_size` -/

/-- A walk at a chain that has an END tag behind it and a word behind that -/
theorem valid_chain {l : List TlvItem} (h : At m p (chainBytes l)) (hb : c.block ≤ p)
    (hend : u32 m (p + (chainBytes l).length) = TLV_TAG_END)
    (hroom : ((p + (chainBytes l).length + 4 : ℕ) : ℤ) ≤ c.limit) : Valid m (c.at p) := by
  cases l with
  | nil =>
    rw [chainBytes_nil, List.length_nil, Nat.add_zero] at hend hroom
    exact valid_end hend hb (by push_cast at hroom; omega)
  | cons i l =>
    rw [chainBytes_cons, List.length_append, TlvItem.length_bytes] at hroom
    rw [chainBytes_cons] at h
    exact valid_item h.left hb (by push_cast at hroom ⊢; omega)

/-- The last loop: over a chain without a header item it ends at the END tag, at a header item it leaves. -/
theorem segmentWalk {l : List TlvItem} (hfit : c.limit + 4 ≤ m.length) (h : At m p (chainBytes l)) (hb : c.block ≤ p)
    (hend : u32 m (p + (chainBytes l).length) = TLV_TAG_END)
    (hroom : ((p + (chainBytes l).length + 4 : ℕ) : ℤ) ≤ c.limit)
    (hE : ∀ e, c.endTag = some e → ((p + (chainBytes l).length : ℕ) : ℤ) ≤ e) {n : ℕ} (hn : l.length < n) :
    ((∀ i ∈ l, i.tag ≠ TLV_TAG_PARTITION_HEADER) → iterate segmentWalkStep n (c.at p) m = .ret () m) ∧
    ((∃ i ∈ l, i.tag = TLV_TAG_PARTITION_HEADER) → ∃ e, iterate segmentWalkStep n (c.at p) m = .err e m) := by
  induction l generalizing p n with
  | nil =>
    obtain ⟨n, rfl⟩ : ∃ k, n = k + 1 := ⟨n - 1, by omega⟩
    have hv := valid_chain h hb hend hroom
    rw [chainBytes_nil, List.length_nil, Nat.add_zero] at hend
    refine ⟨fun _ => iterate_inl n ?_, by simp⟩
    rw [segmentWalkStep, bind_of_ret (hv.tag hfit), at_current, if_pos hend]
    rfl
  | cons i l ih =>
    obtain ⟨n, rfl⟩ : ∃ k, n = k + 1 := ⟨n - 1, by simp at hn; omega⟩
    have hv := valid_chain h hb hend hroom
    rw [chainBytes_cons] at h
    simp only [chainBytes_cons, List.length_append, TlvItem.length_bytes, ← Nat.add_assoc] at hend hroom hE
    have hi := h.left
    have hr := h.right
    rw [TlvItem.length_bytes] at hr
    have h8 := i.size_ge
    have hne : u32 m p ≠ TLV_TAG_END := by rw [u32_item hi]; exact i.tag_ne
    have hvn := valid_chain (p := p + i.size) hr (by omega) hend hroom
    have hstep : segmentWalkStep (c.at p) m = (ensure (i.tag ≠ TLV_TAG_PARTITION_HEADER) EINVAL >>= fun _ =>
        tlvAdvance (c.at p) >>= fun cursor => pure (.inr cursor) : BufProg (Unit ⊕ TlvCursor)) m := by
      rw [segmentWalkStep, bind_of_ret (hv.tag hfit), at_current, if_neg hne, u32_item hi]
    by_cases hh : i.tag = TLV_TAG_PARTITION_HEADER
    · have herr : segmentWalkStep (c.at p) m = .err EINVAL m :=
        hstep.trans (bind_of_err (ensure_neg (not_not.mpr hh)))
      exact ⟨fun hall => absurd hh (hall i (by simp)), fun _ => ⟨_, iterate_err n herr⟩⟩
    · have hadv : tlvAdvance (c.at p) m = .ret (c.at (p + i.size)) m := by
        rw [← nextPos_item hi]
        refine tlvAdvance_ret hfit ⟨hv, fun he => ?_, by rw [at_current, nextPos_item hi]; exact hvn⟩
        have := hE _ he
        simp only [at_current] at this
        push_cast at this
        omega
      have hround : segmentWalkStep (c.at p) m = .ret (.inr (c.at (p + i.size))) m := by
        rw [hstep, bind_of_ret (ensure_pos hh), bind_of_ret hadv]
        rfl
      obtain ⟨ih1, ih2⟩ := ih hr (by omega) hend hroom hE (n := n) (by simp at hn; omega)
      rw [iterate_inr n hround]
      refine ⟨fun hall => ih1 fun j hj => hall j (by simp [hj]), fun ⟨j, hj, ht⟩ => ih2 ?_⟩
      rcases List.mem_cons.mp hj with rfl | hj
      · exact absurd ht hh
      · exact ⟨j, hj, ht⟩

theorem length_le_chainBytes (l : List TlvItem) : l.length ≤ (chainBytes l).length := by
  induction l with
  | nil => simp
  | cons i l ih =>
    have := i.size_ge
    rw [chainBytes_cons, List.length_append, List.length_cons, TlvItem.length_bytes]
    omega

/-- The cursor of the last loop: the END tag is known. -/
def walkCursor (m : Bytes) (e p : ℕ) : TlvCursor := ⟨0, p, some (e : ℤ), (startCursor 0 m.length).limit⟩

/-- The last loop behind the first item of a chain that fills the block up to its END tag -/
theorem segmentWalk_chain {i : TlvItem} {l : List TlvItem} (h : At m 0 (chainBytes (i :: l))) {e : ℕ}
    (he : e = (chainBytes (i :: l)).length) (hend : u32 m e = TLV_TAG_END) (hspare : e + 8 ≤ m.length) :
    tlvAdvance (walkCursor m e 0) m = .ret (walkCursor m e i.size) m ∧
    ((∀ i ∈ l, i.tag ≠ TLV_TAG_PARTITION_HEADER) →
      iterate segmentWalkStep (m.length + 1) (walkCursor m e i.size) m = .ret () m) ∧
    ((∃ i ∈ l, i.tag = TLV_TAG_PARTITION_HEADER) →
      ∃ err, iterate segmentWalkStep (m.length + 1) (walkCursor m e i.size) m = .err err m) := by
  have hfit : (walkCursor m e 0).limit + 4 ≤ m.length := by simp only [walkCursor, startCursor_limit]; omega
  have hlen := length_le_chainBytes l
  rw [chainBytes_cons] at h he
  rw [List.length_append, TlvItem.length_bytes] at he
  have hi := h.left
  have hr := h.right
  rw [TlvItem.length_bytes, Nat.zero_add] at hr
  have h8 := i.size_ge
  rw [he] at hend
  have hroom : ((i.size + (chainBytes l).length + 4 : ℕ) : ℤ) ≤ (walkCursor m e 0).limit := by
    simp only [walkCursor, startCursor_limit]
    omega
  have hvalid : Valid m ((walkCursor m e 0).at i.size) := valid_chain hr (Nat.zero_le _) hend hroom
  have hnext : nextPos m 0 = i.size := by rw [nextPos_item hi, Nat.zero_add]
  have hfirst : Valid m (walkCursor m e 0) :=
    valid_item (c := walkCursor m e 0) hi le_rfl (by simp only [walkCursor, startCursor_limit]; push_cast; omega)
  refine ⟨?_, segmentWalk (c := walkCursor m e 0) hfit hr (Nat.zero_le _) hend hroom (fun k hk => ?_) (by omega)⟩
  · have hcan : CanAdvance m (walkCursor m e 0) := by
      refine ⟨hfirst, fun hc => ?_, ?_⟩
      · have := Option.some.inj hc
        simp only [walkCursor] at this
        omega
      · exact hnext.symm ▸ hvalid
    have hadv := tlvAdvance_ret hfit hcan
    rwa [show nextPos m (walkCursor m e 0).current = i.size from hnext] at hadv
  · cases hk
    omega

/-- What the functions on a buffer know of a segment's end: the walk from its first item finds the END tag. -/
theorem Begins.tlvBlockLengthUsed_ret (h : Begins m s) (h32 : m.length < 4294967296) :
    tlvBlockLengthUsed ((cursor m).at s.endAt) m =
      .ret (s.endAt + 4, { (cursor m).at s.endAt with endTag := some (s.endAt : ℤ) }) m := by
  have hspare := h.spare
  have hend : endOf? m ((cursor m).at s.endAt) = some (s.endAt : ℤ) := by
    have hfind : find? m ((cursor m).at s.endAt) TLV_TAG_END = some s.endAt := by rw [find?_at, h.find?_end]
    exact congrArg (Option.map fun q : ℕ => (q : ℤ)) hfind
  have hmod : (((s.endAt : ℤ) + 4 - ((cursor m).at s.endAt).block) % 18446744073709551616).toNat = s.endAt + 4 := by
    rw [at_block, startCursor_block]
    omega
  rw [Tlv.tlvBlockLengthUsed_ret (c := (cursor m).at s.endAt) (Begins.fits m) h.valid_end hend, hmod]

theorem Begins.trailerItem_ret (h : Begins m s) :
    trailerItem (cursor m) m = .ret (s.trailerAt, (cursor m).at s.endAt) m := by
  have ht : trailer? m (cursor m) = some s.trailerAt :=
    trailer?_eq_some.mpr ⟨h.find?_trailer, by rw [h.nextPos_trailer, h.end_tag]⟩
  rw [Tlv.trailerItem_ret (Begins.fits m) rfl ht, h.nextPos_trailer]

theorem wordCount_used (s : Segment) : wordCount (s.endAt + 4) = (s.endAt + 4) / 4 := by
  have := s.four_dvd_endAt
  simp only [wordCount]
  omega

/-- A buffer that begins with a segment, with its length in the header and sum zero, is accepted. -/
theorem Begins.segmentSize_ret (h : Begins m s) (h32 : m.length < 4294967296)
    (hn : u32 m headerTotalLength = s.endAt + 4) (hsum : wsum m 0 ((s.endAt + 4) / 4) % 4294967296 = 0) :
    ef10NvramBufSegmentSize 0 m.length m = .ret (s.endAt + 4) m := by
  have hspare := h.spare
  have h4 := s.four_dvd_endAt
  have hlarge : 16 ≤ s.endAt := by
    have := s.endAt_eq
    have := s.trailerAt_eq
    have := s.header.size_ge
    have := s.trailer.size_ge
    omega
  have hhead : headerItem 0 m.length m = .ret (cursor m, s.endAt + 4) m := by
    have h1 := headerItem_ret (m := m) (by omega) h.hasHeader (by simp only [headerSize]; omega)
      (by rw [Nat.zero_add, hn]; omega)
    rwa [Nat.zero_add, hn] at h1
  have hsumRun : checkSum 0 (s.endAt + 4) m = .ret () m :=
    (checkSum_run (by rw [wordCount_used]; omega)).trans (if_pos (by rw [wordCount_used]; exact hsum))
  obtain ⟨hadv, hwalk, -⟩ := segmentWalk_chain (e := s.endAt) h.chain rfl h.end_tag hspare
  have htags : ∀ i ∈ s.items ++ [s.trailer], i.tag ≠ TLV_TAG_PARTITION_HEADER := by
    intro i hi
    rcases List.mem_append.mp hi with hi | hi
    · exact (s.items_tag i hi).1
    · rw [List.mem_singleton.mp hi, s.trailer_tag]
      decide
  have hmod : (s.endAt + 4) % 4294967296 = s.endAt + 4 := Nat.mod_eq_of_lt (by omega)
  have hadv' : tlvAdvance ⟨0, 0, some (s.endAt : ℤ), ((cursor m).at s.endAt).limit⟩ m =
      .ret (walkCursor m s.endAt s.header.size) m := hadv
  rw [ef10NvramBufSegmentSize, bind_of_ret hhead]
  dsimp only
  rw [bind_of_ret h.trailerItem_ret]
  dsimp only
  rw [bind_of_ret hsumRun, bind_of_ret (h.tlvBlockLengthUsed_ret h32)]
  dsimp only [at_block, startCursor_block]
  rw [hmod, bind_of_ret (ensure_pos (by omega)), bind_of_ret (ensure_pos (by simp)), bind_of_ret hadv',
    bind_of_ret (show loopFuel m = .ret (m.length + 1) m from rfl), bind_of_ret (hwalk htags)]
  rfl

/-- The sum of a part of the memory reads only. -/
theorem checkSum_ret_inv {base n : ℕ} {u : Unit} {m' : Bytes} (hr : checkSum base n m = .ret u m') :
    m' = m ∧ (base + 4 * wordCount n ≤ m.length → wsum m base (wordCount n) % 4294967296 = 0) := by
  have hload : ∀ p : ℤ, (loadU32 p : BufProg ℕ).Keeps fun m => m := fun p =>
    keeps_bind (fun m a m' h => by
      unfold load at h
      split_ifs at h
      cases h
      rfl) fun _ => keeps_pure _
  have hsum : ∀ k, (sumU32 (base : ℤ) k : BufProg ℕ).Keeps fun m => m := by
    intro k
    induction k with
    | zero => exact keeps_pure 0
    | succ k ih => exact keeps_bind ih fun _ => keeps_bind (hload _) fun _ => keeps_pure _
  obtain ⟨w, m1, h1, h2⟩ := bind_ret_inv hr
  obtain ⟨-, rfl⟩ := ensure_ret_inv h2
  refine ⟨hsum _ _ _ _ h1, fun hb => ?_⟩
  by_contra h0
  rw [checkSum_run hb, if_neg h0] at hr
  cases hr

theorem headerItem_ret_inv {x : TlvCursor × ℕ} {m' : Bytes} (hr : headerItem 0 m.length m = .ret x m') :
    m' = m ∧ HasHeader m 0 m.length ∧ x = (startCursor 0 m.length, u32 m headerTotalLength) ∧
      u32 m headerTotalLength ≤ m.length := by
  by_cases hh : HasHeader m 0 m.length
  swap
  · obtain ⟨e, he⟩ := headerItem_no_header (by omega) hh
    rw [he] at hr
    cases hr
  by_cases h20 : 0 + headerSize ≤ m.length
  swap
  · rw [headerItem_fault (by omega) hh (Nat.not_le.mp h20)] at hr
    cases hr
  by_cases hn : u32 m (0 + headerTotalLength) ≤ m.length
  swap
  · obtain ⟨e, he⟩ := headerItem_big (by omega) hh h20 (Nat.not_le.mp hn)
    rw [he] at hr
    cases hr
  rw [headerItem_ret (by omega) hh h20 hn] at hr
  rw [Nat.zero_add] at hr hn
  cases hr
  exact ⟨rfl, hh, rfl, hn⟩

theorem trailerItem_ret_inv {x : ℕ × TlvCursor} {m' : Bytes} (hr : trailerItem (startCursor 0 m.length) m = .ret x m') :
    m' = m ∧ ∃ q, trailer? m (startCursor 0 m.length) = some q ∧
      x = (q, (startCursor 0 m.length).at (nextPos m q)) := by
  cases ht : trailer? m (startCursor 0 m.length) with
  | none =>
    obtain ⟨e, he⟩ := trailerItem_err (Begins.fits m) ht
    rw [he] at hr
    cases hr
  | some q =>
    rw [trailerItem_ret (Begins.fits m) rfl ht] at hr
    cases hr
    exact ⟨rfl, q, rfl, rfl⟩

/-- The items of a chain that begins with a header, with erased flash behind it, whose first trailer comes last. -/
theorem chain_inv {E q : ℕ} {l : List TlvItem} (h32 : m.length < 4294967296) (hh : HasHeader m 0 m.length)
    (hblank : Blank m (E + 4)) (hat : At m 0 (chainBytes l)) (hl : E = (chainBytes l).length)
    (hEtag : u32 m E = TLV_TAG_END) (hspare : E + 8 ≤ m.length)
    (hf : find? m (startCursor 0 m.length) TLV_TAG_PARTITION_TRAILER = some q)
    (hlast : u32 m (nextPos m q) = TLV_TAG_END) :
    ∃ header items trailer, l = header :: (items ++ [trailer]) ∧ header.tag = TLV_TAG_PARTITION_HEADER ∧
      trailer.tag = TLV_TAG_PARTITION_TRAILER ∧ ∀ i ∈ items, i.tag ≠ TLV_TAG_PARTITION_TRAILER := by
  have hfit := Begins.fits m
  have hEl : u32 m (chainBytes l).length = TLV_TAG_END := hl ▸ hEtag
  obtain ⟨header, l', rfl⟩ : ∃ i l', l = i :: l' := by
    cases l with
    | nil =>
      rw [chainBytes_nil, List.length_nil] at hEl
      rw [hh.tag] at hEl
      exact absurd hEl (by decide)
    | cons i l' => exact ⟨i, l', rfl⟩
  have hheader : header.tag = TLV_TAG_PARTITION_HEADER := by
    have h1 := hat
    rw [chainBytes_cons] at h1
    rw [← u32_item h1.left]
    exact hh.tag
  have hblock : IsBlock m (startCursor 0 m.length) (header :: l') := by
    refine ⟨⟨header, l', rfl, hheader⟩, hat, ?_, ?_⟩
    · rw [startCursor_block, Nat.zero_add]
      exact hEl
    · rw [startCursor_block, startCursor_limit]
      omega
  have hblockRoom : (((startCursor 0 m.length).block + (chainBytes (header :: l')).length + 4 : ℕ) : ℤ) ≤
      (startCursor 0 m.length).limit := by
    rw [startCursor_block, startCursor_limit]
    omega
  have hmem : ∃ i ∈ header :: l', i.tag = TLV_TAG_PARTITION_TRAILER := by
    by_contra hno
    have hall : posOf TLV_TAG_PARTITION_TRAILER (header :: l') = none :=
      posOf_none.mpr ⟨by decide, fun i hi ht => hno ⟨i, hi, ht⟩⟩
    have habs := find?_absent hfit rfl hblock hblockRoom hall
    have h4 := four_dvd_length_chainBytes (header :: l')
    rw [startCursor_block, Nat.zero_add,
      hblank.seekFrom_eq_none h32 hfit (by omega) (by omega)] at habs
    rw [habs] at hf
    cases hf
  obtain ⟨pre, trailer, post, hsplit, htt, hpre⟩ := exists_first hmem
  have hqp : q = (chainBytes pre).length := by
    have hfb := find?_block hfit rfl hblock hblockRoom (hsplit ▸ posOf_append_cons htt hpre)
    rw [startCursor_block, Nat.zero_add, hf] at hfb
    exact Option.some.inj hfb
  have htr : At m q (trailer.bytes ++ chainBytes post) := by
    have h1 := hat
    rw [hsplit, chainBytes_append, chainBytes_cons] at h1
    have h2 := h1.right
    rwa [Nat.zero_add, ← hqp] at h2
  have hpost : post = [] := by
    cases post with
    | nil => rfl
    | cons j post =>
      have hj := htr.right
      rw [TlvItem.length_bytes, chainBytes_cons] at hj
      rw [nextPos_item htr.left, u32_item hj.left] at hlast
      exact absurd hlast j.tag_ne
  subst hpost
  obtain ⟨items, rfl, rfl⟩ : ∃ items, pre = header :: items ∧ l' = items ++ [trailer] := by
    cases pre with
    | nil =>
      rw [List.nil_append] at hsplit
      cases hsplit
      rw [hheader] at htt
      exact absurd htt (by decide)
    | cons i items =>
      cases hsplit
      exact ⟨items, rfl, rfl⟩
  exact ⟨header, items, trailer, rfl, hheader, htt, fun i hi => hpre i (List.mem_cons_of_mem _ hi)⟩

/-- **What is accepted.**  A buffer that `ef10_nvram_buf_segment_size` accepts, with erased flash behind the length it
reports, begins with a segment of that length, whose header says so and whose sum is zero. -/
theorem segmentSize_ret_inv {n : ℕ} {m' : Bytes} (h32 : m.length < 4294967296) (hblank : Blank m n)
    (hr : ef10NvramBufSegmentSize 0 m.length m = .ret n m') :
    ∃ s, Begins m s ∧ n = s.endAt + 4 ∧ u32 m headerTotalLength = n ∧ wsum m 0 (n / 4) % 4294967296 = 0 ∧ m' = m := by
  have hfit := Begins.fits m
  obtain ⟨x, m1, hr1, hr⟩ := bind_ret_inv hr
  obtain ⟨rfl, hh, rfl, hle⟩ := headerItem_ret_inv hr1
  obtain ⟨y, m2, hr2, hr⟩ := bind_ret_inv hr
  obtain ⟨rfl, q, hq, rfl⟩ := trailerItem_ret_inv hr2
  obtain ⟨_, m3, hr3, hr⟩ := bind_ret_inv hr
  obtain ⟨rfl, hsum⟩ := checkSum_ret_inv hr3
  obtain ⟨hf, hE⟩ := trailer?_eq_some.mp hq
  obtain ⟨hvq, htq, -⟩ := find?_spec hf
  obtain ⟨-, -, hge, hroom⟩ := trailer?_bound hq
  rw [startCursor_limit] at hroom
  -- the length that is reported is that of the header
  have hn : u32 m3 headerTotalLength = n := by
    obtain ⟨z, m4, -, hr⟩ := bind_ret_inv hr
    obtain ⟨-, hr⟩ := ensure_bind_ret_inv hr
    obtain ⟨-, hr⟩ := ensure_bind_ret_inv hr
    obtain ⟨_, m5, -, hr⟩ := bind_ret_inv hr
    obtain ⟨_, m6, -, hr⟩ := bind_ret_inv hr
    obtain ⟨_, m7, -, hr⟩ := bind_ret_inv hr
    cases hr
    rfl
  have hpos : n ≠ 0 := by
    rintro rfl
    have h0 := hblank 0 le_rfl (dvd_zero 4) (by have := hh.size_ge; omega)
    rw [hh.tag] at h0
    exact absurd h0 (by decide)
  rcases tlvBlockLengthUsed_spec (c := (startCursor 0 m3.length).at (nextPos m3 q)) hfit with
    ⟨e, -, he, hused⟩ | hused
  swap
  · -- no END tag: the length would be 0
    rw [hn, bind_of_ret hused] at hr
    obtain ⟨-, hr⟩ := ensure_bind_ret_inv hr
    obtain ⟨hne, -⟩ := ensure_bind_ret_inv hr
    exact absurd (not_not.mp hne).symm hpos
  obtain ⟨E, hEnd, rfl⟩ : ∃ E, find? m3 (startCursor 0 m3.length) TLV_TAG_END = some E ∧ (E : ℤ) = e := by
    obtain ⟨E, hE', rfl⟩ := Option.map_eq_some_iff.mp
      (show Option.map (fun q : ℕ => (q : ℤ)) (find? m3 ((startCursor 0 m3.length).at (nextPos m3 q)) TLV_TAG_END) =
        some e from he)
    exact ⟨E, by rwa [find?_at] at hE', rfl⟩
  have hEb := (find?_spec hEnd).1.bound (c := (startCursor 0 m3.length).at E) hfit
  have hEtag := (find?_spec hEnd).2.1
  simp only [at_current] at hEb
  have hmod : (((E : ℤ) + 4 - ((startCursor 0 m3.length).at (nextPos m3 q)).block) % 18446744073709551616).toNat =
      E + 4 := by
    rw [at_block, startCursor_block]
    omega
  rw [hmod] at hused
  rw [hn, bind_of_ret hused] at hr
  obtain ⟨-, hr⟩ := ensure_bind_ret_inv hr
  obtain ⟨heq, hr⟩ := ensure_bind_ret_inv hr
  have hnE : n = E + 4 := by
    rw [Nat.mod_eq_of_lt (by omega)] at heq
    exact (not_not.mp heq).symm
  -- the items up to the END tag, the trailer the last of them
  obtain ⟨l, hat, hl⟩ := seekFrom_end_inv hfit hEnd
  rw [startCursor_block, Nat.zero_add] at hl
  rw [startCursor_block] at hat
  have hspare : E + 8 ≤ m3.length := by
    rcases seek_end_bound hEnd with h0 | hle
    · rw [startCursor_block] at h0
      rw [h0, hh.tag] at hEtag
      exact absurd hEtag (by decide)
    · rw [startCursor_limit] at hle
      omega
  have hblankE : Blank m3 (E + 4) := hnE ▸ hblank
  obtain ⟨header, items, trailer, rfl, hheader, htt, hpre⟩ :=
    chain_inv h32 hh hblankE hat hl hEtag hspare hf hE
  obtain ⟨hadv, hwalk, hdup⟩ := segmentWalk_chain (e := E) hat hl hEtag hspare
  have hadv' : tlvAdvance ⟨0, 0, some (E : ℤ), ((startCursor 0 m3.length).at (nextPos m3 q)).limit⟩ m3 =
    .ret (walkCursor m3 E header.size) m3 := hadv
  dsimp only [at_block, startCursor_block] at hr
  rw [bind_of_ret hadv', bind_of_ret (show loopFuel m3 = .ret (m3.length + 1) m3 from rfl)] at hr
  have hitems : ∀ i ∈ items ++ [trailer], i.tag ≠ TLV_TAG_PARTITION_HEADER := by
    intro i hi ht
    obtain ⟨err, herr⟩ := hdup ⟨i, hi, ht⟩
    rw [bind_of_err herr] at hr
    cases hr
  rw [bind_of_ret (hwalk hitems)] at hr
  obtain ⟨-, rfl⟩ := Res.ret.inj hr
  refine ⟨⟨header, items, trailer, hheader, htt, fun i hi =>
    ⟨hitems i (List.mem_append_left _ hi), hpre i hi⟩⟩, ⟨?_, ?_⟩, ?_, hn, ?_, rfl⟩
  · refine At.append_iff.mpr ⟨hat, ?_⟩
    rw [Nat.zero_add]
    change At m3 (chainBytes (header :: (items ++ [trailer]))).length _
    rw [← hl, ← hEtag]
    exact At.of_u32 (by omega)
  · rw [hl] at hspare
    exact hspare
  · rw [hnE, hl]
    rfl
  · have h4 := four_dvd_length_chainBytes (header :: (items ++ [trailer]))
    have hw : wordCount n = n / 4 := by
      simp only [wordCount]
      omega
    rw [hn, hw] at hsum
    exact hsum (by omega)

end Sfxge.Tlv
