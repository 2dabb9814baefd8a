import Sfxge.Tlv.Bounds
import Sfxge.Tlv.BufWrite

/-!
# Tlv.Update — `ef10_nvram_buf_write_tlv` against the items of a segment

The chain update replaces the first item of the tag, or puts a new item in front of the trailer.  What it leaves is
a segment again, zero words behind it where the item became shorter, and erased flash behind them.
-/

namespace Sfxge.Tlv

open Lib Lib.Prog Errno

variable {m c : Bytes} {s s' : Segment} {data : Bytes} {tag p d : ℕ}

/-! ### The memory behind a segment -/

theorem blank_append (a : Bytes) (h4 : 4 ∣ a.length) : Blank (a ++ c) a.length ↔ Blank c 0 := by
  constructor
  · intro h q _ hq4 hq
    rw [← u32_append_right a c q]
    exact h _ (Nat.le_add_right _ _) (Nat.dvd_add h4 hq4) (by rw [List.length_append]; omega)
  · intro h q hq hq4 hb
    obtain ⟨r, rfl⟩ := Nat.exists_eq_add_of_le hq
    rw [u32_append_right]
    rw [List.length_append] at hb
    exact h r (Nat.zero_le _) ((Nat.dvd_add_right h4).mp hq4) (by omega)

theorem Blank.drop (h : Blank c 0) (h4 : 4 ∣ d) : Blank (c.drop d) 0 := by
  intro q _ hq hb
  rw [List.length_drop] at hb
  rw [u32_drop]
  by_cases h0 : d ≤ c.length
  · exact h _ (Nat.zero_le _) (Nat.dvd_add h4 hq) (by omega)
  · omega

theorem u32_zeros {q : ℕ} (h : At m p (List.replicate d 0)) (hq : q + 4 ≤ d) : u32 m (p + q) = 0 := by
  have hs := h.slice_sub (q := q) (n := 4) (by rw [List.length_replicate]; exact hq)
  have hz : slice (List.replicate d (0 : UInt8)) q 4 = List.replicate 4 0 := by
    rw [slice, List.drop_replicate, List.take_replicate, Nat.min_eq_left (by omega)]
  rw [u32, hs, hz]
  decide

/-- **What an edit leaves**: a segment, zeroed words behind it and erased flash behind these. -/
theorem begins_of_split (hm : m = s.bytes ++ List.replicate d 0 ++ c) (hc : Blank c 0) (h4 : 4 ∣ d)
    (hspare : s.endAt + 8 ≤ m.length) : Begins m s ∧ Zeroed m (s.endAt + 4) d := by
  have hend4 := s.four_dvd_endAt
  have hz : At m (s.endAt + 4) (List.replicate d 0) := by
    rw [hm]
    exact At.mid s.length_bytes.symm
  have hpre : (s.bytes ++ List.replicate d (0 : UInt8)).length = s.endAt + 4 + d := by
    rw [List.length_append, s.length_bytes, List.length_replicate]
  refine ⟨⟨?_, hspare⟩, ⟨fun q hq hqd _ => ?_, ?_, by omega, h4⟩⟩
  · rw [hm, List.append_assoc]
    exact List.prefix_append _ _
  · obtain ⟨r, rfl⟩ := Nat.exists_eq_add_of_le hq
    exact u32_zeros hz (by omega)
  · rw [hm, ← hpre]
    exact (blank_append _ (by rw [hpre]; omega)).mpr hc

/-- The memory of a segment with erased flash behind it, split -/
theorem Begins.split (h : Begins m s) (hb : Blank m (s.endAt + 4)) : ∃ c, m = s.bytes ++ c ∧ Blank c 0 := by
  have h4 := s.four_dvd_endAt
  obtain ⟨c, hc⟩ := h.bytes.split
  rw [List.take_zero, List.nil_append] at hc
  refine ⟨c, hc, (blank_append s.bytes (by rw [s.length_bytes]; omega)).mp ?_⟩
  rw [s.length_bytes, ← hc]
  exact hb

/-- The chain ends at the END tag of the segment. -/
theorem Begins.usedEnd_eq (h : Begins m s) (hb : Blank m (s.endAt + 4)) (h32 : m.length < 4294967296) (q : ℕ) :
    usedEnd m ((cursor m).at q) = s.endAt + 4 := by
  have hspare := h.spare
  have h4 := s.four_dvd_endAt
  have hfirst : find? m ⟨0, 0, none, (cursor m).limit⟩ TLV_TAG_END = some s.endAt := h.find?_end
  have hsecond : find? m ⟨s.endAt + 4, s.endAt + 4, none, (cursor m).limit⟩ TLV_TAG_END = none :=
    hb.seekFrom_eq_none (c := ⟨s.endAt + 4, s.endAt + 4, none, (cursor m).limit⟩) h32 (Begins.fits m) le_rfl
      (show 4 ∣ s.endAt + 4 by omega)
  obtain ⟨n, hn⟩ : ∃ n, m.length = n + 1 := ⟨m.length - 1, by omega⟩
  rw [usedEnd, lastSegmentEnd, at_limit, at_block, hn, segEnd]
  rw [startCursor_block, hfirst]
  dsimp only
  rw [segEnd, hsecond]

/-- The END tag of the segment is the one known of it. -/
theorem Begins.endOf?_eq (h : Begins m s) (q : ℕ) : endOf? m ((cursor m).at q) = some (s.endAt : ℤ) := by
  have hfind : find? m ((cursor m).at q) TLV_TAG_END = some s.endAt := by rw [find?_at, h.find?_end]
  exact congrArg (Option.map fun q : ℕ => (q : ℤ)) hfind

/-- A tag that the segment does not have is not found in erased flash either. -/
theorem Begins.find?_none (h : Begins m s) (hb : Blank m (s.endAt + 4)) (h32 : m.length < 4294967296)
    (hp : posOf tag s.all = none) : find? m (cursor m) tag = none := by
  have h4 := s.four_dvd_endAt
  rw [h.find?_of_absent hp]
  exact hb.seekFrom_eq_none h32 (Begins.fits m) (by omega) (by omega)

/-! ### The new item -/

/-- The item that `tlv_write` writes -/
def itemOf (tag : ℕ) (data : Bytes) (hlt : tag < 4294967296) (hne : tag ≠ TLV_TAG_END) (h : data.length < 4294967296) :
    TlvItem where
  tag := tag
  len := data.length
  body := data ++ List.replicate (4 * ((data.length + 3) / 4) - data.length) 0
  tag_lt := hlt
  tag_ne := hne
  len_lt := h
  length_body := by
    rw [List.length_append, List.length_replicate]
    omega

section

variable (hlt : tag < 4294967296) (hne : tag ≠ TLV_TAG_END) (h : data.length < 4294967296)

theorem itemOf_bytes : (itemOf tag data hlt hne h).bytes = newItem tag data := by
  simp only [TlvItem.bytes, itemOf, newItem, Nat.mod_eq_of_lt h, List.take_length, List.append_assoc]

theorem itemOf_size : (itemOf tag data hlt hne h).size = 4 * tlvDelta data.length := by
  rw [← TlvItem.length_bytes, itemOf_bytes, length_newItem_of_lt tag h]

theorem itemOf_value : (itemOf tag data hlt hne h).value = data := by
  simp only [TlvItem.value, itemOf, List.take_left]

end

/-! ### Replacing the first item of a tag -/

section Pieces

variable {pre tail : Bytes} {q : ℕ} (old new : Bytes)

/-- The new item is longer: the chain moves up over what is behind it. -/
theorem grow_split (hp : p = pre.length) (hq : q = p + old.length + tail.length) (h4 : 4 ∣ tail.length)
    (hn : new.length = old.length + d) (hd : d ≤ c.length) :
    splice (openGap (pre ++ old ++ tail ++ c) (p + old.length) q d) p new = pre ++ new ++ tail ++ c.drop d := by
  have hs : span (p + old.length) q = tail.length := by
    obtain ⟨w, hw⟩ := h4
    simp only [span]
    omega
  have hc : pre ++ old ++ tail ++ c = pre ++ old ++ tail ++ c.take d ++ c.drop d := by
    rw [List.append_assoc (pre ++ old ++ tail), List.take_append_drop]
  have hup : ∃ gap, gap.length = d ∧ splice (pre ++ old ++ tail ++ c.take d ++ c.drop d) (p + old.length + d)
      (slice (pre ++ old ++ tail ++ c.take d ++ c.drop d) (p + old.length) tail.length) =
        pre ++ old ++ gap ++ tail ++ c.drop d :=
    splice_up (by rw [List.length_append, hp]) rfl (by rw [List.length_take, Nat.min_eq_left hd])
  obtain ⟨gap, hg, he⟩ := hup
  rw [openGap, hs, hc, he, List.append_assoc pre old gap, List.append_assoc (pre ++ (old ++ gap)),
    splice_mid hp (by rw [List.length_append, hg, hn])]
  simp only [List.append_assoc]

/-- The new item is shorter: the chain moves down, and the words behind it are zeroed. -/
theorem shrink_split (hp : p = pre.length) (hq : q = p + old.length + tail.length) (h4 : 4 ∣ tail.length)
    (hn : old.length = new.length + d) (hd4 : 4 ∣ d) (hd : d ≤ c.length) :
    splice (closeGap (pre ++ old ++ tail ++ c) (p + new.length) q d) p new =
      pre ++ new ++ tail ++ List.replicate d 0 ++ c := by
  have hm : pre ++ old ++ tail ++ c =
      (pre ++ old.take new.length) ++ old.drop new.length ++ tail ++ c.take d ++ c.drop d := by
    rw [List.append_assoc (pre ++ _ ++ _ ++ _), List.take_append_drop, List.append_assoc pre (old.take _),
      List.take_append_drop]
  have htake : (old.take new.length).length = new.length := by rw [List.length_take]; omega
  have hdrop : (old.drop new.length).length = d := by rw [List.length_drop]; omega
  rw [hm, closeGap_split (pre ++ old.take new.length) tail (old.drop new.length) (c.take d) (c.drop d)
    (by rw [List.length_append, htake, hp]) hdrop.symm (by omega) (by rw [hdrop]; exact hd4) h4
    (by rw [hdrop, List.length_take, Nat.min_eq_left hd]), List.append_assoc _ (c.take d), List.take_append_drop,
    List.append_assoc _ (List.replicate d 0), List.append_assoc (pre ++ _) tail, splice_mid hp (by rw [htake])]
  simp only [List.append_assoc]

end Pieces

/-- The bytes of the header and the items in front of the one that is replaced, and those behind it -/
theorem Segment.bytes_split {pre post : List TlvItem} {i : TlvItem} (hi : s.items = pre ++ i :: post) :
    s.bytes = chainBytes (s.header :: pre) ++ i.bytes ++ (chainBytes (post ++ [s.trailer]) ++ le 4 TLV_TAG_END) := by
  rw [Segment.bytes, Segment.all, hi]
  simp only [chainBytes_cons, chainBytes_append, List.cons_append, List.append_assoc]

/-- The segment with another item in the place of one -/
def Segment.replace (s : Segment) (pre post : List TlvItem) (j : TlvItem)
    (h : ∀ i ∈ pre ++ j :: post, i.tag ≠ TLV_TAG_PARTITION_HEADER ∧ i.tag ≠ TLV_TAG_PARTITION_TRAILER) : Segment :=
  { s with items := pre ++ j :: post, items_tag := h }

/-- The words of the item that would be modified, 0 where there is none -/
def oldWords (m : Bytes) (tag : ℕ) : ℕ :=
  match find? m (startCursor 0 m.length) tag with
  | some p => itemWords m ((startCursor 0 m.length).at p)
  | none => 0

/-- The new item fits behind the `n` bytes in use. -/
def ItemFits (m : Bytes) (n tag : ℕ) (data : Bytes) : Prop :=
  oldWords m tag < tlvDelta data.length → n + 4 * (tlvDelta data.length - oldWords m tag) + 4 ≤ m.length

/-- The words by which the item gets shorter -/
def shrinkage (m : Bytes) (tag : ℕ) (data : Bytes) : ℕ := oldWords m tag - tlvDelta data.length

/-- The first item of the tag, in the segment and in the memory -/
theorem Begins.find?_split (h : Begins m s) (htag : tag ≠ TLV_TAG_PARTITION_HEADER)
    (htr : tag ≠ TLV_TAG_PARTITION_TRAILER) (hend : tag ≠ TLV_TAG_END) (hp : posOf tag s.all = some p) :
    ∃ pre i post, s.items = pre ++ i :: post ∧ i.tag = tag ∧ (∀ j ∈ s.header :: pre, j.tag ≠ tag) ∧
      p = (chainBytes (s.header :: pre)).length ∧ At m p i.bytes ∧ find? m (cursor m) tag = some p := by
  rcases posOf_some hp with ⟨l, i, post, heq, hpre, hi, rfl⟩ | ⟨-, hend', -⟩
  swap
  · exact absurd hend' hend
  have hat := h.chain
  rw [heq, chainBytes_append, chainBytes_cons] at hat
  have hitem := (At.append_iff.mp hat.right).1
  rw [Nat.zero_add] at hitem
  obtain ⟨pre, rfl⟩ : ∃ pre, l = s.header :: pre := by
    cases l with
    | nil =>
      rw [List.nil_append, Segment.all] at heq
      injection heq with h1 _
      exact absurd (s.header_tag.symm.trans ((congrArg TlvItem.tag h1).trans hi)) htag.symm
    | cons x pre =>
      rw [List.cons_append, Segment.all] at heq
      injection heq with h1 _
      exact ⟨pre, by rw [h1]⟩
  rw [List.cons_append, Segment.all] at heq
  injection heq with _ h2
  -- the item is not the last of the segment, which is the trailer
  have hne : post ≠ [] := by
    rintro rfl
    have h3 := congrArg List.getLast? h2
    rw [List.getLast?_append, List.getLast?_append] at h3
    simp only [List.getLast?_singleton, Option.some_or, Option.some.injEq] at h3
    exact htr (hi.symm.trans ((congrArg TlvItem.tag h3.symm).trans s.trailer_tag))
  obtain ⟨init, last, rfl⟩ : ∃ init last, post = init ++ [last] := ⟨_, _, (List.dropLast_append_getLast hne).symm⟩
  rw [← List.cons_append, ← List.append_assoc] at h2
  exact ⟨pre, i, init, (List.append_inj' h2 rfl).1, hi, hpre, rfl, hitem, h.find?_of_pos hp⟩

theorem itemWords_item {i : TlvItem} (h : At m p i.bytes) : 4 * itemWords m ((Begins.cursor m).at p) = i.size := by
  rw [itemWords, at_current, u32_item_len h]
  rfl

theorem oldWords_of_find {q : ℕ} (h : find? m (Begins.cursor m) tag = some q) :
    oldWords m tag = itemWords m ((Begins.cursor m).at q) := by rw [oldWords, h]

theorem oldWords_of_absent (h : find? m (startCursor 0 m.length) tag = none) : oldWords m tag = 0 := by rw [oldWords, h]

/-- An item that does not fit is refused. -/
theorem tlvModify_refuses {q n : ℕ} (hfind : find? m (Begins.cursor m) tag = some q)
    (hue : usedEnd m ((Begins.cursor m).at q) = n) (hfits : ¬ ItemFits m n tag data) :
    ∃ e, tlvModify ((Begins.cursor m).at q) tag data m = .err e m := by
  refine tlvModify_err (c := (Begins.cursor m).at q) (Begins.fits m) fun hc => hfits fun hlt => ?_
  rw [oldWords_of_find hfind] at hlt ⊢
  have := hc.room hlt
  rw [hue, at_limit, startCursor_limit] at this
  omega

section Modify

variable {pre post : List TlvItem} {i j : TlvItem}

/-- `tlv_modify` gets past its checks at an item that fits. -/
theorem Begins.canModify (h : Begins m s) (hb : Blank m (s.endAt + 4)) (h32 : m.length < 4294967296)
    (hend : tag ≠ TLV_TAG_END) (hfind : find? m (cursor m) tag = some p) (hfits : ItemFits m (s.endAt + 4) tag data) :
    CanModify m ((cursor m).at p) tag data := by
  obtain ⟨hv, ht, -⟩ := find?_spec hfind
  refine ⟨hv, ht, hend, by rw [h.endOf?_eq]; rfl, fun hlt => ?_⟩
  rw [← oldWords_of_find hfind] at hlt ⊢
  have := hfits hlt
  rw [h.usedEnd_eq hb h32, at_limit, startCursor_limit]
  omega

/-- A shorter item needs words behind the END tag, which are read. -/
theorem Begins.resizeFaults (h : Begins m s) (hb : Blank m (s.endAt + 4)) (h32 : m.length < 4294967296)
    (hi : s.items = pre ++ i :: post) (hp : p = (chainBytes (s.header :: pre)).length) (hat : At m p i.bytes)
    (hfind : find? m (cursor m) tag = some p) (hroom : m.length < s.endAt + 4 + 4 * shrinkage m tag data) :
    ResizeFaults m ((cursor m).at p) data ∧ ItemFits m (s.endAt + 4) tag data := by
  have hspare := h.spare
  have ho := itemWords_item hat
  have hlen := s.length_bytes
  rw [Segment.bytes_split hi, List.length_append, List.length_append, ← hp, TlvItem.length_bytes] at hlen
  have h4 := s.four_dvd_endAt
  have hp4 : 4 ∣ p := hp ▸ four_dvd_length_chainBytes _
  rw [shrinkage, oldWords_of_find hfind] at hroom
  have hless : tlvDelta data.length < itemWords m ((cursor m).at p) := by omega
  refine ⟨(resizeFaults_shrink hless).mpr (Or.inr (Or.inl ?_)), fun hlt => ?_⟩
  · rw [h.usedEnd_eq hb h32, at_current]
    simp only [span]
    omega
  · rw [oldWords_of_find hfind] at hlt
    omega

/-- What is moved and written stays in the buffer. -/
theorem Begins.not_resizeFaults (h : Begins m s) (hb : Blank m (s.endAt + 4)) (h32 : m.length < 4294967296)
    (hi : s.items = pre ++ i :: post) (hp : p = (chainBytes (s.header :: pre)).length) (hat : At m p i.bytes)
    (hfind : find? m (cursor m) tag = some p) (hroom : s.endAt + 4 + 4 * shrinkage m tag data ≤ m.length) :
    ¬ ResizeFaults m ((cursor m).at p) data := by
  have ho := itemWords_item hat
  have hlen := s.length_bytes
  rw [Segment.bytes_split hi, List.length_append, List.length_append, ← hp, TlvItem.length_bytes] at hlen
  rw [shrinkage, oldWords_of_find hfind] at hroom
  have hue := h.usedEnd_eq hb h32 p
  rcases Nat.lt_trichotomy (itemWords m ((cursor m).at p)) (tlvDelta data.length) with hlt | heq | hlt
  · rw [resizeFaults_grow hlt, hue, at_current]
    omega
  · exact not_resizeFaults_same heq
  · rw [resizeFaults_shrink hlt, hue, at_current]
    simp only [GapFaults, span]
    omega

/-- **Modifying an item**: the segment with the new item in the place of the old one. -/
theorem Begins.tlvModify_ret (h : Begins m s) (hb : Blank m (s.endAt + 4)) (h32 : m.length < 4294967296)
    (hend : tag ≠ TLV_TAG_END) (hi : s.items = pre ++ i :: post) (hp : p = (chainBytes (s.header :: pre)).length)
    (hat : At m p i.bytes) (hfind : find? m (cursor m) tag = some p) (hfits : ItemFits m (s.endAt + 4) tag data)
    (hroom : s.endAt + 4 + 4 * shrinkage m tag data ≤ m.length)
    (hj : j.bytes = newItem tag data) (hsize : j.size = 4 * tlvDelta data.length)
    (htags : ∀ k ∈ pre ++ j :: post, k.tag ≠ TLV_TAG_PARTITION_HEADER ∧ k.tag ≠ TLV_TAG_PARTITION_TRAILER) :
    ∃ m', tlvModify ((cursor m).at p) tag data m =
        .ret ⟨0, p, some ((s.replace pre post j htags).endAt : ℤ), (cursor m).limit⟩ m' ∧ m'.length = m.length ∧
      Begins m' (s.replace pre post j htags) ∧
      Zeroed m' ((s.replace pre post j htags).endAt + 4) (4 * shrinkage m tag data) ∧
      (s.replace pre post j htags).endAt + 4 + 4 * shrinkage m tag data + 4 * shrinkage m tag data ≤ m'.length := by
  have hspare := h.spare
  have h4 := s.four_dvd_endAt
  have hp4 : 4 ∣ p := hp ▸ four_dvd_length_chainBytes _
  have ho := itemWords_item hat
  have hi4 := i.four_dvd_size
  have hold := s.length_bytes
  have hnew := (s.replace pre post j htags).length_bytes
  obtain ⟨c, hm, hc⟩ := h.split hb
  have hml := congrArg List.length hm
  rw [List.length_append, s.length_bytes] at hml
  have hbytes : (s.replace pre post j htags).bytes =
      chainBytes (s.header :: pre) ++ j.bytes ++ (chainBytes (post ++ [s.trailer]) ++ le 4 TLV_TAG_END) :=
    (s.replace pre post j htags).bytes_split rfl
  rw [Segment.bytes_split hi] at hm hold
  rw [hbytes] at hnew
  have htail : 4 ∣ (chainBytes (post ++ [s.trailer]) ++ le 4 TLV_TAG_END).length := by
    rw [List.length_append, length_le]
    exact Nat.dvd_add (four_dvd_length_chainBytes _) (dvd_refl 4)
  generalize chainBytes (post ++ [s.trailer]) ++ le 4 TLV_TAG_END = tail at hm hold hnew hbytes htail
  rw [List.length_append, List.length_append, ← hp, TlvItem.length_bytes] at hold hnew
  have hf := h.not_resizeFaults hb h32 hi hp hat hfind hroom
  have hue := h.usedEnd_eq hb h32 p
  have hcan := h.canModify hb h32 hend hfind hfits
  have hlong : (newItem tag data).length = 4 * tlvDelta data.length := by rw [← hj, TlvItem.length_bytes, hsize]
  have hmf : ¬ ModifyFaults m ((cursor m).at p) tag data := by
    refine not_or.mpr ⟨hf, ?_⟩
    rw [at_current, hlong]
    have hfits := hfits
    rw [ItemFits, oldWords_of_find hfind] at hfits
    omega
  have hret := Tlv.tlvModify_ret (c := (cursor m).at p) (Begins.fits m) hcan hmf
  have hlen' := length_modified (c := (cursor m).at p) (Begins.fits m) hcan hmf
  rw [shrinkage, oldWords_of_find hfind] at hroom ⊢
  rw [ItemFits, oldWords_of_find hfind] at hfits
  -- what the memory is behind the new segment
  have hsplit : ∃ c', modified m ((cursor m).at p) tag data = (s.replace pre post j htags).bytes ++
      List.replicate (4 * (itemWords m ((cursor m).at p) - tlvDelta data.length)) 0 ++ c' ∧ Blank c' 0 := by
    rw [modified, at_current, ← hj, hbytes]
    rcases Nat.lt_trichotomy (itemWords m ((cursor m).at p)) (tlvDelta data.length) with hlt | heq | hlt
    · have hg := grow_split (c := c) (d := 4 * (tlvDelta data.length - itemWords m ((cursor m).at p)))
        (q := s.endAt + 4) i.bytes j.bytes hp (by rw [TlvItem.length_bytes]; omega) htail
        (by rw [TlvItem.length_bytes, TlvItem.length_bytes]; omega) (by have := hfits hlt; omega)
      rw [← hm, TlvItem.length_bytes, ← ho] at hg
      refine ⟨c.drop (4 * (tlvDelta data.length - itemWords m ((cursor m).at p))), ?_, hc.drop (dvd_mul_right 4 _)⟩
      rw [resized_grow hlt, at_current, hue, hg, Nat.sub_eq_zero_of_le hlt.le, Nat.mul_zero, List.replicate_zero,
        List.append_nil]
    · refine ⟨c, ?_, hc⟩
      rw [resized_same heq, heq, Nat.sub_self, Nat.mul_zero, List.replicate_zero, List.append_nil]
      conv_lhs => rw [hm]
      rw [List.append_assoc, splice_mid hp (by rw [TlvItem.length_bytes, TlvItem.length_bytes]; omega)]
      simp only [List.append_assoc]
    · have hg := shrink_split (c := c) (d := 4 * (itemWords m ((cursor m).at p) - tlvDelta data.length))
        (q := s.endAt + 4) i.bytes j.bytes hp (by rw [TlvItem.length_bytes]; omega) htail
        (by rw [TlvItem.length_bytes, TlvItem.length_bytes]; omega) (dvd_mul_right 4 _) (by omega)
      rw [← hm, TlvItem.length_bytes, hsize] at hg
      exact ⟨c, by rw [resized_shrink hlt, at_current, hue, hg], hc⟩
  obtain ⟨c', hsplit, hc'⟩ := hsplit
  obtain ⟨hbegin, hzero⟩ := begins_of_split hsplit hc' (dvd_mul_right 4 _) (by rw [hlen']; omega)
  refine ⟨_, hret.trans ?_, hlen', hbegin, hzero, by rw [hlen']; omega⟩
  rw [h.endOf?_eq]
  have hcast : (s.endAt : ℤ) + 4 * ((tlvDelta data.length : ℤ) - itemWords m ((cursor m).at p)) =
      ((s.replace pre post j htags).endAt : ℤ) := by omega
  rw [← hcast]
  rfl

end Modify

/-- An item of a segment ends in front of its END tag. -/
theorem Begins.oldWords_le (h : Begins m s) (hb : Blank m (s.endAt + 4)) (h32 : m.length < 4294967296)
    (hh : tag ≠ TLV_TAG_PARTITION_HEADER) (htr : tag ≠ TLV_TAG_PARTITION_TRAILER) (hend : tag ≠ TLV_TAG_END) :
    4 * oldWords m tag ≤ s.endAt + 4 := by
  have h4 := s.four_dvd_endAt
  cases hp : posOf tag s.all with
  | some p =>
    obtain ⟨pre, i, post, hi, -, -, -, hat, hfind⟩ := h.find?_split hh htr hend hp
    have hlen := s.length_bytes
    rw [Segment.bytes_split hi, List.length_append, List.length_append, TlvItem.length_bytes] at hlen
    rw [oldWords_of_find hfind, itemWords_item hat]
    omega
  | none =>
    rw [oldWords_of_absent (h.find?_none hb h32 hp)]
    omega

/-! ### A new item in front of the trailer -/

theorem Begins.canInsert (h : Begins m s) (hb : Blank m (s.endAt + 4)) (h32 : m.length < 4294967296)
    (hend : tag ≠ TLV_TAG_END) (hfind : find? m (cursor m) tag = none) (hfits : ItemFits m (s.endAt + 4) tag data) :
    CanInsert m ((cursor m).at s.trailerAt) tag data := by
  have hspare := h.spare
  refine ⟨(find?_spec h.find?_trailer).1, by rw [h.endOf?_eq]; rfl, hend, ?_⟩
  rw [ItemFits, oldWords_of_absent hfind] at hfits
  rw [h.usedEnd_eq hb h32, at_limit, startCursor_limit]
  omega

/-- A new item that does not fit is refused. -/
theorem Begins.tlvInsert_refuses (h : Begins m s) (hb : Blank m (s.endAt + 4)) (h32 : m.length < 4294967296)
    (hfind : find? m (cursor m) tag = none) (hfits : ¬ ItemFits m (s.endAt + 4) tag data) :
    ∃ e, tlvInsert ((cursor m).at s.trailerAt) tag data m = .err e m := by
  refine tlvInsert_err (c := (cursor m).at s.trailerAt) (Begins.fits m) fun hc => hfits fun hlt => ?_
  have := hc.room
  rw [h.usedEnd_eq hb h32, at_limit, startCursor_limit] at this
  rw [oldWords_of_absent hfind]
  omega

/-- **Inserting an item**: the segment with the new item in front of its trailer. -/
theorem Begins.tlvInsert_ret {j : TlvItem} (h : Begins m s) (hb : Blank m (s.endAt + 4)) (h32 : m.length < 4294967296)
    (hend : tag ≠ TLV_TAG_END) (hfind : find? m (cursor m) tag = none) (hfits : ItemFits m (s.endAt + 4) tag data)
    (hj : j.bytes = newItem tag data) (hsize : j.size = 4 * tlvDelta data.length)
    (htags : ∀ k ∈ s.items ++ [j], k.tag ≠ TLV_TAG_PARTITION_HEADER ∧ k.tag ≠ TLV_TAG_PARTITION_TRAILER) :
    ∃ m', tlvInsert ((cursor m).at s.trailerAt) tag data m =
        .ret ⟨0, s.trailerAt, some ((s.replace s.items [] j htags).endAt : ℤ), (cursor m).limit⟩ m' ∧
      m'.length = m.length ∧ Begins m' (s.replace s.items [] j htags) ∧
      Zeroed m' ((s.replace s.items [] j htags).endAt + 4) 0 ∧ shrinkage m tag data = 0 := by
  have hspare := h.spare
  have hj8 := j.size_ge
  have hold := s.length_bytes
  have hnew := (s.replace s.items [] j htags).length_bytes
  obtain ⟨c, hm, hc⟩ := h.split hb
  have hml := congrArg List.length hm
  rw [List.length_append, s.length_bytes] at hml
  have hone : chainBytes ([] ++ [s.trailer]) = s.trailer.bytes := List.append_nil _
  have hbytes : (s.replace s.items [] j htags).bytes =
      chainBytes (s.header :: s.items) ++ j.bytes ++ (s.trailer.bytes ++ le 4 TLV_TAG_END) :=
    hone ▸ (s.replace s.items [] j htags).bytes_split rfl
  have hsbytes : s.bytes = chainBytes (s.header :: s.items) ++ (s.trailer.bytes ++ le 4 TLV_TAG_END) := by
    rw [Segment.bytes, Segment.all_eq, chainBytes_append, ← List.append_assoc]
    exact congrArg (fun l => _ ++ l ++ _) (List.append_nil _)
  rw [hsbytes] at hm hold
  rw [hbytes] at hnew
  have htail : 4 ∣ (s.trailer.bytes ++ le 4 TLV_TAG_END).length := by
    rw [List.length_append, length_le, TlvItem.length_bytes]
    exact Nat.dvd_add s.trailer.four_dvd_size (dvd_refl 4)
  generalize s.trailer.bytes ++ le 4 TLV_TAG_END = tail at hm hold hnew hbytes htail
  have hp : s.trailerAt = (chainBytes (s.header :: s.items)).length := rfl
  rw [List.length_append, ← hp] at hold
  rw [List.length_append, List.length_append, ← hp, TlvItem.length_bytes] at hnew
  have hue := h.usedEnd_eq hb h32 s.trailerAt
  have hcan := h.canInsert hb h32 hend hfind hfits
  have hlong : (newItem tag data).length = 4 * tlvDelta data.length := by rw [← hj, TlvItem.length_bytes, hsize]
  rw [ItemFits, oldWords_of_absent hfind] at hfits
  have hf : ¬ InsertFaults m ((cursor m).at s.trailerAt) tag data := by
    rw [InsertFaults, hue, at_current, hlong]
    omega
  have hret := Tlv.tlvInsert_ret (c := (cursor m).at s.trailerAt) (Begins.fits m) hcan hf
  have hlen' := length_inserted (c := (cursor m).at s.trailerAt) hcan (by rw [at_limit, startCursor_limit]; omega) hf
  have hsplit : inserted m ((cursor m).at s.trailerAt) tag data =
      (s.replace s.items [] j htags).bytes ++ List.replicate 0 0 ++ c.drop (4 * tlvDelta data.length) := by
    have hd : 4 * tlvDelta data.length ≤ c.length := by have := hfits (by omega); omega
    have hg := openGap_split (q := s.endAt + 4) (d := 4 * tlvDelta data.length) (chainBytes (s.header :: s.items)) tail
      j.bytes (c.take (4 * tlvDelta data.length)) (c.drop (4 * tlvDelta data.length)) hp (by omega) htail
      (by rw [List.length_take, Nat.min_eq_left hd]) (by rw [TlvItem.length_bytes, hsize])
    rw [List.append_assoc _ (c.take _), List.take_append_drop, ← hm] at hg
    rw [inserted, at_current, hue, ← hj, hg, hbytes, List.replicate_zero, List.append_nil]
  obtain ⟨hbegin, hzero⟩ := begins_of_split hsplit (hc.drop (dvd_mul_right 4 _)) (dvd_zero 4)
    (by rw [hlen']; have := hfits (by omega); omega)
  refine ⟨_, hret.trans ?_, hlen', hbegin, hzero, by rw [shrinkage, oldWords_of_absent hfind, Nat.zero_sub]⟩
  rw [h.endOf?_eq]
  have hcast : (s.endAt : ℤ) + 4 * (tlvDelta data.length : ℤ) = ((s.replace s.items [] j htags).endAt : ℤ) := by omega
  rw [← hcast]
  rfl

end Sfxge.Tlv
