import Sfxge.Tlv.Segment

/-!
# Tlv.BufWrite — `ef10_nvram_buf_write_tlv` on a segment

An item of a segment is modified, or one is inserted before the trailer, and length, generation and checksum are
renewed.  The buffer begins with a segment again; what an item that became shorter leaves behind its END tag are
zero words.
-/

namespace Sfxge.Tlv

open Lib Lib.Prog Errno

variable {m : Bytes} {s s' : Segment} {rest data : Bytes} {tag p k w : ℕ}

/-! ### Words of header and trailer -/

/-- A word of an item's value, written -/
theorem TlvItem.exists_splice (i : TlvItem) (w : ℕ) (h8 : 8 ≤ k) (hk : k + 4 ≤ i.size) :
    ∃ j : TlvItem, j.tag = i.tag ∧ j.len = i.len ∧ j.bytes = splice i.bytes k (le 4 w) := by
  obtain ⟨k, rfl⟩ := Nat.exists_eq_add_of_le h8
  have hb := i.length_bytes
  have hlen : i.body.length + 8 = i.size := by
    rw [← hb]
    simp [TlvItem.bytes]
    omega
  have hbody : k + (le 4 w).length ≤ i.body.length := by rw [length_le]; omega
  have hhead : (le 4 i.tag ++ le 4 i.len).length = 8 := by simp
  refine ⟨{ i with body := splice i.body k (le 4 w), length_body := (length_splice hbody).trans i.length_body },
    rfl, rfl, ?_⟩
  have hbytes : i.bytes = (le 4 i.tag ++ le 4 i.len) ++ i.body := rfl
  have hpos : 8 + k = (le 4 i.tag ++ le 4 i.len).length + k := by rw [hhead]
  rw [hbytes, hpos, splice_append_right]
  rfl

/-- The same items between header and trailer, and these of the same length -/
structure SameItems (s s' : Segment) : Prop where
  items : s'.items = s.items
  header : s'.header.len = s.header.len
  trailer : s'.trailer.len = s.trailer.len

namespace SameItems

theorem refl (s : Segment) : SameItems s s := ⟨rfl, rfl, rfl⟩

theorem trans {s'' : Segment} (h : SameItems s s') (h' : SameItems s' s'') : SameItems s s'' :=
  ⟨h'.items.trans h.items, h'.header.trans h.header, h'.trailer.trans h.trailer⟩

theorem header_size (h : SameItems s s') : s'.header.size = s.header.size := by
  rw [TlvItem.size, TlvItem.size, h.header]

theorem trailer_size (h : SameItems s s') : s'.trailer.size = s.trailer.size := by
  rw [TlvItem.size, TlvItem.size, h.trailer]

theorem trailerAt (h : SameItems s s') : s'.trailerAt = s.trailerAt := by
  rw [s'.trailerAt_eq, s.trailerAt_eq, h.header_size, h.items]

theorem endAt (h : SameItems s s') : s'.endAt = s.endAt := by
  rw [s'.endAt_eq, s.endAt_eq, h.trailerAt, h.trailer_size]

/-- No other tag's value changes. -/
theorem lookup (h : SameItems s s') (hh : tag ≠ TLV_TAG_PARTITION_HEADER) (ht : tag ≠ TLV_TAG_PARTITION_TRAILER) :
    lookup tag s'.all = lookup tag s.all := by
  have hall : ∀ s : Segment, Tlv.lookup tag s.all = Tlv.lookup tag s.items := by
    intro s
    have h1 : ¬ s.header.tag = tag := fun he => hh (he ▸ s.header_tag)
    have h2 : ¬ s.trailer.tag = tag := fun he => ht (he ▸ s.trailer_tag)
    simp [Tlv.lookup, Segment.all, List.find?_append, h1, h2]
  rw [hall, hall, h.items]

end SameItems

theorem Begins.splice_header (h : Begins m s) (w : ℕ) (h8 : 8 ≤ k) (hk : k + 4 ≤ s.header.size) :
    ∃ s', Begins (splice m k (le 4 w)) s' ∧ SameItems s s' := by
  obtain ⟨j, htag, hlen, hj⟩ := s.header.exists_splice w h8 hk
  have hb := h.bytes.bound (List.ne_nil_of_length_pos (by rw [s.length_bytes]; omega))
  have hsize := s.header.length_bytes
  have hbytes : s.bytes = s.header.bytes ++ (chainBytes (s.items ++ [s.trailer]) ++ le 4 TLV_TAG_END) := by
    rw [Segment.bytes, Segment.all, chainBytes_cons, List.append_assoc]
  have hle : k + (le 4 w).length ≤ m.length := by
    rw [length_le]
    rw [hbytes, List.length_append] at hb
    omega
  let s' : Segment := ⟨j, s.items, s.trailer, htag.trans s.header_tag, s.trailer_tag, s.items_tag⟩
  have hsame : SameItems s s' := ⟨rfl, hlen, rfl⟩
  have hbytes' : s'.bytes = splice s.header.bytes k (le 4 w) ++
      (chainBytes (s.items ++ [s.trailer]) ++ le 4 TLV_TAG_END) := by
    rw [Segment.bytes, Segment.all, chainBytes_cons, List.append_assoc]
    exact congrArg (· ++ _) hj
  refine ⟨s', ⟨?_, by rw [length_splice hle, hsame.endAt]; exact h.spare⟩, hsame⟩
  have hat := h.bytes
  rw [hbytes] at hat
  have h1 : At (splice m (0 + k) (le 4 w)) 0 (splice s.header.bytes k (le 4 w)) :=
    At.splice_inside hat.left (Nat.zero_le _) (by rw [length_le]; omega)
  rw [Nat.zero_add] at h1
  rw [hbytes']
  refine At.append_iff.mpr ⟨h1, ?_⟩
  rw [length_splice (by rw [length_le]; omega)]
  exact hat.right.splice_frame hle (Or.inr (by rw [length_le]; omega))

theorem Begins.splice_trailer (h : Begins m s) (w : ℕ) (h8 : 8 ≤ k) (hk : k + 4 ≤ s.trailer.size) :
    ∃ s', Begins (splice m (s.trailerAt + k) (le 4 w)) s' ∧ SameItems s s' := by
  obtain ⟨j, htag, hlen, hj⟩ := s.trailer.exists_splice w h8 hk
  have hb := h.bytes.bound (List.ne_nil_of_length_pos (by rw [s.length_bytes]; omega))
  have hsize := s.trailer.length_bytes
  have hend := s.endAt_eq
  have hone : ∀ i : TlvItem, chainBytes [i] = i.bytes := fun i => List.append_nil _
  have hbytes : s.bytes = chainBytes (s.header :: s.items) ++ s.trailer.bytes ++ le 4 TLV_TAG_END := by
    rw [Segment.bytes, Segment.all_eq, chainBytes_append, hone]
  rw [s.length_bytes] at hb
  have hle : s.trailerAt + k + (le 4 w).length ≤ m.length := by
    rw [length_le]
    omega
  let s' : Segment := ⟨s.header, s.items, j, s.header_tag, htag.trans s.trailer_tag, s.items_tag⟩
  have hsame : SameItems s s' := ⟨rfl, rfl, hlen⟩
  have hbytes' : s'.bytes = chainBytes (s.header :: s.items) ++ splice s.trailer.bytes k (le 4 w) ++
      le 4 TLV_TAG_END := by
    rw [Segment.bytes, Segment.all_eq, chainBytes_append, hone, ← hj]
  refine ⟨s', ⟨?_, by rw [length_splice hle, hsame.endAt]; exact h.spare⟩, hsame⟩
  have hat := h.bytes
  rw [hbytes, List.append_assoc] at hat
  have htr := hat.right
  rw [Nat.zero_add] at htr
  have hspl : At (splice m (s.trailerAt + k) (le 4 w)) s.trailerAt (splice s.trailer.bytes k (le 4 w)) :=
    At.splice_inside htr.left (by omega) (by rw [length_le]; omega)
  rw [hbytes', List.append_assoc]
  refine At.append_iff.mpr ⟨?_, ?_⟩
  · exact hat.left.splice_frame hle (Or.inl (by rw [Nat.zero_add]; exact Nat.le_add_right _ _))
  · rw [Nat.zero_add]
    refine At.append_iff.mpr ⟨hspl, ?_⟩
    rw [length_splice (by rw [length_le]; omega)]
    exact htr.right.splice_frame hle (Or.inr (by rw [length_le]; change _ ≤ s.trailerAt + _; omega))

/-- The memory begins with a segment of the same items, and behind it nothing has changed. -/
structure Kept (m : Bytes) (s : Segment) (m' : Bytes) : Prop where
  segment : ∃ s', Begins m' s' ∧ SameItems s s'
  length : m'.length = m.length
  behind : ∀ q, s.endAt + 4 ≤ q → u32 m' q = u32 m q

namespace Kept

variable {m' : Bytes}

theorem refl (h : Begins m s) : Kept m s m := ⟨⟨s, h, SameItems.refl s⟩, rfl, fun _ _ => rfl⟩

theorem header (h : Kept m s m') (w : ℕ) (h8 : 8 ≤ k) (hk : k + 4 ≤ s.header.size) :
    Kept m s (splice m' k (le 4 w)) := by
  obtain ⟨⟨s1, h1, hs1⟩, hlen, hbehind⟩ := h
  obtain ⟨s2, h2, hs2⟩ := h1.splice_header w h8 (by rw [hs1.header_size]; exact hk)
  have hend := s.endAt_eq
  have hta := s.trailerAt_eq
  have hspare := h1.spare
  rw [hs1.endAt] at hspare
  refine ⟨⟨s2, h2, hs1.trans hs2⟩, (length_splice_le (by omega)).trans hlen, fun q hq => ?_⟩
  rw [u32_splice_le (by omega) (Or.inr (by omega)), hbehind q hq]

theorem trailer (h : Kept m s m') (w : ℕ) (h8 : 8 ≤ k) (hk : k + 4 ≤ s.trailer.size) :
    Kept m s (splice m' (s.trailerAt + k) (le 4 w)) := by
  obtain ⟨⟨s1, h1, hs1⟩, hlen, hbehind⟩ := h
  obtain ⟨s2, h2, hs2⟩ := h1.splice_trailer w h8 (by rw [hs1.trailer_size]; exact hk)
  have hend := s.endAt_eq
  have hspare := h1.spare
  rw [hs1.endAt] at hspare
  rw [hs1.trailerAt] at h2
  refine ⟨⟨s2, h2, hs1.trans hs2⟩, (length_splice_le (by omega)).trans hlen, fun q hq => ?_⟩
  rw [u32_splice_le (by omega) (Or.inr (by omega)), hbehind q hq]

end Kept

/-! ### Length, generation and checksum -/

/-- Header and trailer renewed, with the generation that follows `g` -/
structure Renewed (m : Bytes) (s : Segment) (g : ℕ) : Prop where
  length : u32 m headerTotalLength = s.endAt + 4
  header_generation : u32 m headerGeneration = (g + 1) % 4294967296
  trailer_generation : u32 m (s.trailerAt + trailerGeneration) = (g + 1) % 4294967296
  sum : wsum m 0 ((s.endAt + 4) / 4) % 4294967296 = 0

/-- The trailer is found behind the items, and the block's used length goes up to the END tag. -/
theorem Begins.trailer_found (h : Begins m s) (p : ℕ) {n : ℕ} (hn : m.length = n) (h32 : n < 4294967296) :
    tlvFind ⟨0, p, some (s.endAt : ℤ), (startCursor 0 n).limit⟩ TLV_TAG_PARTITION_TRAILER m =
      .ret ⟨0, s.trailerAt, some (s.endAt : ℤ), (startCursor 0 n).limit⟩ m ∧
    tlvBlockLengthUsed ⟨0, s.trailerAt, some (s.endAt : ℤ), (startCursor 0 n).limit⟩ m =
      .ret (s.endAt + 4, ⟨0, s.trailerAt, some (s.endAt : ℤ), (startCursor 0 n).limit⟩) m := by
  have hspare := h.spare
  have hend := s.endAt_eq
  have hta := s.trailerAt_eq
  have hfit : (startCursor 0 n).limit + 4 ≤ m.length := by
    rw [startCursor_limit]
    push_cast
    omega
  have hlimit : (startCursor 0 n).limit = (n : ℤ) - 4 := by rw [startCursor_limit]; push_cast; ring
  have htr := h.trailer
  have hvalid : Valid m ⟨0, s.trailerAt, some (s.endAt : ℤ), (startCursor 0 n).limit⟩ :=
    valid_item (c := ⟨0, p, some (s.endAt : ℤ), (startCursor 0 n).limit⟩) htr (Nat.zero_le _)
      (by rw [hlimit]; omega)
  have hfind : find? m ⟨0, p, some (s.endAt : ℤ), (startCursor 0 n).limit⟩ TLV_TAG_PARTITION_TRAILER =
      some s.trailerAt := by
    have hall := h.chain
    rw [Segment.all_eq, chainBytes_append] at hall
    have htags : ∀ i ∈ s.header :: s.items, i.tag ≠ TLV_TAG_PARTITION_TRAILER := by
      intro i hi
      rcases List.mem_cons.mp hi with rfl | hi
      · rw [s.header_tag]
        decide
      · exact (s.items_tag i hi).2
    have hf := find?_chain (c := ⟨0, p, some (s.endAt : ℤ), (startCursor 0 n).limit⟩) hfit rfl hall.left
      (by rw [← Segment.trailerAt]; simp only [hlimit]; push_cast; omega)
      (fun e he => by cases he; rw [← Segment.trailerAt]; push_cast; omega) htags
      (by rw [Nat.zero_add, ← Segment.trailerAt, u32_item htr, s.trailer_tag])
      (by rw [Nat.zero_add]; exact hvalid)
    rwa [Nat.zero_add] at hf
  have hfound : tlvFind ⟨0, p, some (s.endAt : ℤ), (startCursor 0 n).limit⟩ TLV_TAG_PARTITION_TRAILER m =
      .ret ⟨0, s.trailerAt, some (s.endAt : ℤ), (startCursor 0 n).limit⟩ m :=
    tlvFind_ret (c := ⟨0, p, some (s.endAt : ℤ), (startCursor 0 n).limit⟩) hfit hfind
  have hused := Tlv.tlvBlockLengthUsed_ret (c := ⟨0, s.trailerAt, some (s.endAt : ℤ), (startCursor 0 n).limit⟩)
    hfit hvalid rfl
  have hmod : (((s.endAt : ℤ) + 4 - (0 : ℕ)) % 18446744073709551616).toNat = s.endAt + 4 := by omega
  rw [hmod] at hused
  exact ⟨hfound, hused⟩

/-- What is read of the words written one after the other: none of them is written over an earlier one. -/
theorem renewed_splices {m1 m2 m3 m4 : Bytes} {g c : ℕ} (hhead : headerSize ≤ s.trailerAt)
    (hfit : s.trailerAt + trailerSize ≤ s.endAt) (h4 : 4 ∣ s.trailerAt) (hlen : s.endAt + 4 ≤ m.length)
    (h32 : s.endAt + 4 < 4294967296) (h1 : splice m headerTotalLength (le 4 (s.endAt + 4)) = m1)
    (h2 : splice m1 headerGeneration (le 4 (g + 1)) = m2)
    (h3 : splice m2 (s.trailerAt + trailerGeneration) (le 4 (g + 1)) = m3)
    (h4' : splice m3 (s.trailerAt + trailerChecksum) (le 4 0) = m4)
    (hc : wsum m4 0 ((s.endAt + 4) / 4) % 4294967296 = c) :
    Renewed (splice m4 (s.trailerAt + trailerChecksum) (le 4 (4294967296 - c))) s g := by
  simp only [headerSize, trailerSize, headerTotalLength, headerGeneration, trailerGeneration, trailerChecksum]
    at hhead hfit h1 h2 h3 h4' ⊢
  have l1 : m1.length = m.length := h1 ▸ length_splice_le (by omega)
  have l2 : m2.length = m.length := (h2 ▸ length_splice_le (by omega) : m2.length = m1.length).trans l1
  have l3 : m3.length = m.length := (h3 ▸ length_splice_le (by omega) : m3.length = m2.length).trans l2
  have l4 : m4.length = m.length := (h4' ▸ length_splice_le (by omega) : m4.length = m3.length).trans l3
  have f5 : ∀ q, q + 4 ≤ s.trailerAt + 12 →
      u32 (splice m4 (s.trailerAt + 12) (le 4 (4294967296 - c))) q = u32 m4 q := fun q hq =>
    u32_splice_le (by omega) (Or.inl hq)
  have f4 : ∀ q, q + 4 ≤ s.trailerAt + 12 → u32 m4 q = u32 m3 q := fun q hq =>
    h4' ▸ u32_splice_le (by omega) (Or.inl hq)
  have f3 : ∀ q, q + 4 ≤ s.trailerAt + 8 → u32 m3 q = u32 m2 q := fun q hq =>
    h3 ▸ u32_splice_le (by omega) (Or.inl hq)
  refine ⟨?_, ?_, ?_, ?_⟩
  · have hself : u32 m1 16 = (s.endAt + 4) % 4294967296 := h1 ▸ u32_splice_self (by omega)
    have hlater : u32 m2 16 = u32 m1 16 := h2 ▸ u32_splice_le (by omega) (Or.inr (by omega))
    simp only [headerTotalLength]
    rw [f5 _ (by omega), f4 _ (by omega), f3 _ (by omega), hlater, hself, Nat.mod_eq_of_lt h32]
  · have hself : u32 m2 12 = (g + 1) % 4294967296 := h2 ▸ u32_splice_self (by omega)
    simp only [headerGeneration]
    rw [f5 _ (by omega), f4 _ (by omega), f3 _ (by omega), hself]
  · have hself : u32 m3 (s.trailerAt + 8) = (g + 1) % 4294967296 := h3 ▸ u32_splice_self (by omega)
    simp only [trailerGeneration]
    rw [f5 _ (by omega), f4 _ (by omega), hself]
  · have hself : u32 m4 (s.trailerAt + 12) = 0 % 4294967296 := h4' ▸ u32_splice_self (by omega)
    obtain ⟨i, hi⟩ : ∃ i, s.trailerAt + 12 = 0 + 4 * i := ⟨(s.trailerAt + 12) / 4, by omega⟩
    have hsum := wsum_splice (m := m4) (p := 0) (n := (s.endAt + 4) / 4) (i := i) (w := 4294967296 - c)
      (by omega) (by omega)
    rw [← hi, hself] at hsum
    omega

/-- **Renewal.**  Once the chain is a segment's, with header and trailer of the size of their structures, the rest of
`ef10_nvram_buf_write_tlv` renews them and leaves the other items and all that is behind the END tag. -/
theorem Begins.renew {m₀ : Bytes} {p : ℕ} (hh : HasHeader m₀ 0 m₀.length) (hlen : m.length = m₀.length)
    (h32 : m.length < 4294967296) (h : Begins m s) (hs : headerSize ≤ s.header.size) (ht : trailerSize ≤ s.trailer.size)
    (hchain : updateChain (startCursor 0 m₀.length) tag data m₀ =
      .ret ⟨0, p, some (s.endAt : ℤ), (startCursor 0 m₀.length).limit⟩ m) :
    ∃ m', ef10NvramBufWriteTlv 0 m₀.length tag data m₀ = .ret (s.endAt + 4) m' ∧ Kept m s m' ∧
      Renewed m' s (u32 m headerGeneration) := by
  have hspare := h.spare
  have h4 := s.four_dvd_endAt
  have ht4 := s.four_dvd_trailerAt
  have hend := s.endAt_eq
  have hta := s.trailerAt_eq
  have c1 : headerTotalLength = 16 := rfl
  have c2 : headerGeneration = 12 := rfl
  have c3 : trailerGeneration = 8 := rfl
  have c4 : trailerChecksum = 12 := rfl
  have c5 : headerSize = 20 := rfl
  have c6 : trailerSize = 16 := rfl
  have htag₀ : tlvTag (startCursor 0 m₀.length) m₀ = .ret (u32 m₀ 0) m₀ := hh.valid.tag (Begins.fits m₀)
  obtain ⟨hfound, hused⟩ := h.trailer_found p hlen (hlen ▸ h32)
  -- the words written one after the other, the checksum the last
  obtain ⟨g, hg⟩ : ∃ g, u32 m headerGeneration = g := ⟨_, rfl⟩
  have k1 := (Kept.refl h).header (k := headerTotalLength) (s.endAt + 4) (by omega) (by omega)
  have k2 := k1.header (k := headerGeneration) (g + 1) (by omega) (by omega)
  have k3 := k2.trailer (k := trailerGeneration) (g + 1) (by omega) (by omega)
  have k4 := k3.trailer (k := trailerChecksum) 0 (by omega) (by omega)
  have l1 := k1.length
  have l2 := k2.length
  have l3 := k3.length
  have l4 := k4.length
  generalize h1 : splice m headerTotalLength (le 4 (s.endAt + 4)) = m1 at k1 k2 k3 k4 l1 l2 l3 l4
  generalize h2 : splice m1 headerGeneration (le 4 (g + 1)) = m2 at k2 k3 k4 l2 l3 l4
  generalize h3 : splice m2 (s.trailerAt + trailerGeneration) (le 4 (g + 1)) = m3 at k3 k4 l3 l4
  generalize h4' : splice m3 (s.trailerAt + trailerChecksum) (le 4 0) = m4 at k4 l4
  obtain ⟨c, hc⟩ : ∃ c, wsum m4 0 ((s.endAt + 4) / 4) % 4294967296 = c := ⟨_, rfl⟩
  refine ⟨_, ?_, k4.trailer (k := trailerChecksum) (4294967296 - c) (by omega) (by omega), ?_⟩
  · rw [ef10NvramBufWriteTlv, bind_of_ret (orFail_of_ret _ (tlvInitCursorFromSize_ret (by omega) hh.valid)),
      bind_of_ret htag₀, bind_of_ret (ensure_pos hh.tag), bind_of_ret hchain,
      bind_of_ret (orFail_of_ret _ hfound)]
    dsimp only
    rw [bind_of_ret hused]
    simp only [Nat.zero_add]
    rw [bind_of_ret (ensure_pos (by omega)), bind_of_ret (loadU32_of_le (by omega)),
      bind_of_ret (store_of_le (by rw [length_le]; omega)), h1, hg,
      bind_of_ret (store_of_le (by rw [length_le]; omega)), h2,
      bind_of_ret (store_of_le (by rw [length_le]; omega)), h3,
      bind_of_ret (store_of_le (by rw [length_le]; omega)), h4',
      bind_of_ret (sumU32_of_le (by rw [wordCount_used]; omega)), wordCount_used, hc,
      bind_of_ret (store_of_le (by rw [length_le]; omega))]
    rfl
  · rw [hg]
    exact renewed_splices (by omega) (by omega) ht4 (by omega) (by omega) h1 h2 h3 h4' hc

end Sfxge.Tlv
