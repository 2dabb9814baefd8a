import Sfxge.Tlv.Check

/-!
# Tlv.Validate — what an accepted partition is

`WellFormed` says what a valid partition is: a chain of items that starts with a header and ends with
a trailer, and length, generations and sum that fit.  `ef10_nvram_buffer_validate` looks for the
trailer, the length and the sum independently of each other; `Consistent` is what it leaves unchecked.
-/

namespace Sfxge.Tlv

open Lib Lib.Prog Errno

/-- The memory starts with a partition: header item, items, trailer item, END tag. -/
structure IsPartition (m : Bytes) (header : TlvItem) (items : List TlvItem) (trailer : TlvItem) :
    Prop where
  chain : At m 0 (chainBytes (header :: (items ++ [trailer])) ++ le 4 TLV_TAG_END)
  header_tag : header.tag = TLV_TAG_PARTITION_HEADER
  header_len : 12 ≤ header.len
  trailer_tag : trailer.tag = TLV_TAG_PARTITION_TRAILER
  trailer_len : 8 ≤ trailer.len

/-- A valid partition. -/
def WellFormed (m : Bytes) : Prop :=
  ∃ header items trailer, IsPartition m header items trailer ∧
    u32 m headerTotalLength = (chainBytes (header :: (items ++ [trailer]))).length + 4 ∧
    u32 m headerGeneration = u32 m ((chainBytes (header :: items)).length + trailerGeneration) ∧
    wsum m 0 (((chainBytes (header :: (items ++ [trailer]))).length + 4) / 4) % 4294967296 = 0

/-- Header and trailer items hold their structs, the first END tag is the one next to the first
trailer, and the total length reaches up to it. -/
def Consistent (m : Bytes) : Prop :=
  12 ≤ u32 m 4 ∧ ∃ q, find? m (startCursor 0 m.length) TLV_TAG_PARTITION_TRAILER = some q ∧
    8 ≤ u32 m (q + 4) ∧ find? m (startCursor 0 m.length) TLV_TAG_END = some (nextPos m q) ∧
    u32 m headerTotalLength = nextPos m q + 4

variable {m : Bytes} {c : TlvCursor} {items : List TlvItem}

theorem exists_first {tag : ℕ} (h : ∃ i ∈ items, i.tag = tag) :
    ∃ pre i post, items = pre ++ i :: post ∧ i.tag = tag ∧ ∀ j ∈ pre, j.tag ≠ tag := by
  induction items with
  | nil => simp at h
  | cons j items ih =>
    by_cases hj : j.tag = tag
    · exact ⟨[], j, items, rfl, hj, by simp⟩
    · obtain ⟨i, hi, ht⟩ := h
      have hi' : i ∈ items := (List.mem_cons.mp hi).resolve_left fun e => hj (e ▸ ht)
      obtain ⟨pre, k, post, rfl, hk, hpre⟩ := ih ⟨i, hi', ht⟩
      refine ⟨j :: pre, k, post, rfl, hk, fun l hl => ?_⟩
      rcases List.mem_cons.mp hl with rfl | hl
      · exact hj
      · exact hpre l hl

/-- Where the walk for `tag` ends in a chain that has an item of that tag. -/
theorem find?_first (hfit : c.limit + 4 ≤ m.length) {tag : ℕ} {pre post : List TlvItem} {i : TlvItem}
    (hb : c.block = 0) (he : c.endTag = none) (h : At m 0 (chainBytes (pre ++ i :: post)))
    (hi : i.tag = tag) (hpre : ∀ j ∈ pre, j.tag ≠ tag)
    (hl : ((chainBytes pre).length + 4 : ℤ) ≤ c.limit) :
    find? m c tag =
      if Valid m (c.at (chainBytes pre).length) then some (chainBytes pre).length else none := by
  rw [chainBytes_append] at h
  have hat := h.right
  rw [Nat.zero_add, chainBytes_cons] at hat
  have ht : u32 m (chainBytes pre).length = tag := by rw [u32_item hat.left, hi]
  rw [find?, hb, seekFrom_chain hfit h.left hb.le (by push_cast; omega) (by simp [he]) hpre, Nat.zero_add,
    seekFrom_eq hfit, if_pos ht]

/-! ### From the checks to a partition -/

theorem wellFormed_of_consistent {size : ℕ} (hsize : size = m.length) {q : ℕ}
    (h : Accepted m 0 size q) (hc : Consistent m) : WellFormed m := by
  subst hsize
  have hfit : (startCursor 0 m.length).limit + 4 ≤ m.length := startCursor_fit (by omega)
  obtain ⟨hlen, q', hq', htl, hend, htot⟩ := hc
  have hq : find? m (startCursor 0 m.length) TLV_TAG_PARTITION_TRAILER = some q :=
    (trailer?_eq_some.mp h.trailer).1
  rw [hq] at hq'
  cases hq'
  obtain ⟨items, hat, hE⟩ := seekFrom_end_inv hfit hend
  rw [startCursor_block, Nat.zero_add] at hE
  rw [startCursor_block] at hat
  obtain ⟨hvq, htq, -⟩ := find?_spec hq
  have hge := nextPos_ge m q
  -- the END tag of the walk for END is the one next to the trailer
  have hEnd : u32 m (chainBytes items).length = TLV_TAG_END := by
    rw [← hE]
    exact (find?_spec hend).2.1
  have hbound := (find?_spec hend).1.bound (c := (startCursor 0 m.length).at (nextPos m q)) hfit
  simp only [at_current] at hbound
  have hvb : ((chainBytes items).length : ℤ) + 4 ≤ (startCursor 0 m.length).limit := by
    have hne : u32 m q ≠ TLV_TAG_END := by rw [htq]; decide
    have := (hvq.item hne).2
    simp only [at_current, at_limit] at this
    omega
  -- the trailer is an item of the chain, and the last one
  have hmem : ∃ i ∈ items, i.tag = TLV_TAG_PARTITION_TRAILER := by
    by_contra hno
    have hall : ∀ i ∈ items, i.tag ≠ TLV_TAG_PARTITION_TRAILER := fun i hi ht => hno ⟨i, hi, ht⟩
    have := seekFrom_chain hfit hat (c := startCursor 0 m.length) le_rfl (by push_cast; omega)
      (by simp) hall
    rw [find?, startCursor_block, this, Nat.zero_add] at hq
    have := (seek_spec hq).2.2
    omega
  obtain ⟨pre, trailer, post, rfl, htt, hpre⟩ := exists_first hmem
  have hf := find?_first hfit (c := startCursor 0 m.length) rfl rfl hat htt hpre
    (by simp only [chainBytes_append, List.length_append] at hvb; push_cast at hvb; omega)
  rw [hq] at hf
  split_ifs at hf with hv
  cases hf
  have hat' := hat
  rw [chainBytes_append] at hat'
  have htr := hat'.right
  rw [Nat.zero_add, chainBytes_cons] at htr
  have hnext := nextPos_item htr.left
  have hpost : post = [] := by
    rw [hnext, chainBytes_append, chainBytes_cons, List.length_append, List.length_append,
      TlvItem.length_bytes] at hE
    cases post with
    | nil => rfl
    | cons j post =>
      have := j.size_ge
      rw [chainBytes_cons, List.length_append, TlvItem.length_bytes] at hE
      omega
  subst hpost
  -- the header is another item, as its tag differs
  cases pre with
  | nil =>
    have := h.header.tag
    rw [u32_item (p := 0) (i := trailer) (by simpa using htr.left), htt] at this
    exact absurd this (by decide)
  | cons header items =>
    rw [List.cons_append] at hat hE hEnd hvb
    have hh := hat
    rw [chainBytes_cons] at hh
    have hchain : At m 0 (chainBytes (header :: (items ++ [trailer])) ++ le 4 TLV_TAG_END) := by
      refine At.append_iff.mpr ⟨hat, ?_⟩
      rw [Nat.zero_add, ← hEnd]
      exact At.of_u32 (by omega)
    refine ⟨header, items, trailer, ⟨hchain, ?_, ?_, htt, ?_⟩, ?_, ?_, ?_⟩
    · rw [← u32_item hh.left]
      exact h.header.tag
    · rw [← u32_item_len hh.left]
      exact hlen
    · rw [← u32_item_len htr.left]
      exact htl
    · rw [htot, hE]
    · have := h.generation
      rw [Nat.zero_add] at this
      exact this.symm
    · have hs := h.sum
      rw [Nat.zero_add, htot, hE] at hs
      have h4 : 4 ∣ (chainBytes (header :: (items ++ [trailer]))).length := four_dvd_length_chainBytes _
      have hw : wordCount ((chainBytes (header :: (items ++ [trailer]))).length + 4) =
          ((chainBytes (header :: (items ++ [trailer]))).length + 4) / 4 := by
        simp only [wordCount]
        omega
      rwa [hw] at hs

/-! ### From a partition to the conditions -/

theorem consistent_of_wellFormed {size : ℕ} (hsize : size = m.length) {q : ℕ}
    (h : Accepted m 0 size q) (hw : WellFormed m) : Consistent m := by
  subst hsize
  have hfit : (startCursor 0 m.length).limit + 4 ≤ m.length := startCursor_fit (by omega)
  obtain ⟨header, items, trailer, ⟨hchain, hht, hhl, htt, htl⟩, htot, -, -⟩ := hw
  have hlast := hchain.bound (List.ne_nil_of_length_pos (by simp))
  simp only [List.length_append, length_le, Nat.zero_add] at hlast
  have hat := hchain.left
  have hEnd : u32 m (chainBytes (header :: (items ++ [trailer]))).length = TLV_TAG_END := by
    have := hchain.right
    rw [Nat.zero_add] at this
    rw [this.u32_eq]
    decide
  have hq : find? m (startCursor 0 m.length) TLV_TAG_PARTITION_TRAILER = some q :=
    (trailer?_eq_some.mp h.trailer).1
  have hqE := (trailer?_eq_some.mp h.trailer).2
  obtain ⟨hvq, htq, -⟩ := find?_spec hq
  -- the walk stops at the first trailer of the chain
  obtain ⟨pre, t, post, hsplit, htag, hpre⟩ := exists_first
    (show ∃ i ∈ header :: (items ++ [trailer]), i.tag = TLV_TAG_PARTITION_TRAILER from
      ⟨trailer, by simp, htt⟩)
  have hsize := t.size_ge
  have hlen : (chainBytes (header :: (items ++ [trailer]))).length =
      (chainBytes pre).length + (t.size + (chainBytes post).length) := by
    rw [hsplit, chainBytes_append, chainBytes_cons, List.length_append, List.length_append,
      TlvItem.length_bytes]
  rw [hsplit] at hat
  have hf := find?_first hfit (c := startCursor 0 m.length) rfl rfl hat htag hpre
    (by rw [startCursor_limit]; omega)
  rw [hq] at hf
  split_ifs at hf with hv
  cases hf
  rw [chainBytes_append] at hat
  have htr := hat.right
  rw [Nat.zero_add, chainBytes_cons] at htr
  have hnext := nextPos_item htr.left
  -- the END tag next to it ends the chain
  have hpost : post = [] := by
    cases post with
    | nil => rfl
    | cons j post =>
      have hj := htr.right
      rw [TlvItem.length_bytes, chainBytes_cons] at hj
      rw [hnext, u32_item hj.left] at hqE
      exact absurd hqE j.tag_ne
  subst hpost
  have hE : nextPos m (chainBytes pre).length = (chainBytes (header :: (items ++ [trailer]))).length := by
    rw [hnext, hlen]
    simp
  have hlastItem : t = trailer := by
    have := congrArg List.getLast? hsplit
    rw [← List.cons_append, List.getLast?_concat, List.getLast?_concat] at this
    cases this
    rfl
  have hroom : (nextPos m (chainBytes pre).length : ℤ) ≤ (startCursor 0 m.length).limit - 4 := by
    have hne : u32 m (chainBytes pre).length ≠ TLV_TAG_END := by rw [htq]; decide
    exact (hvq.item hne).2
  refine ⟨?_, _, hq, ?_, ?_, ?_⟩
  · have hh := hchain.left
    rw [chainBytes_cons] at hh
    have := u32_item_len hh.left
    rw [Nat.zero_add] at this
    rw [this]
    exact hhl
  · rw [u32_item_len htr.left, hlastItem]
    exact htl
  · rw [hE]
    have hlen0 : 0 + (chainBytes (header :: (items ++ [trailer]))).length =
        (chainBytes (header :: (items ++ [trailer]))).length := Nat.zero_add _
    rw [← hlen0]
    refine find?_chain hfit rfl hchain.left (by push_cast; omega) (by simp) (fun i _ => i.tag_ne)
      (by rw [hlen0]; exact hEnd) ?_
    rw [hlen0]
    exact valid_end hEnd (by simp) (by omega)
  · rw [hE, htot]

/-- **Soundness of validation.**  For a block of whole words that `ef10_nvram_buffer_validate` accepts,
of any content: it is a valid partition exactly when it is `Consistent`. -/
theorem validate_sound_iff (h4 : 4 ∣ m.length) {m' : Bytes}
    (h : ef10NvramBufferValidate 0 m.length m = .ret () m') : WellFormed m ↔ Consistent m := by
  obtain ⟨-, -, q, hq⟩ := ef10NvramBufferValidate_ret_inv (by omega) h4 h
  exact ⟨consistent_of_wellFormed rfl hq, wellFormed_of_consistent rfl hq⟩

/-- A partition of 44 bytes: header with total length `n`, trailer, END tag, a spare word. -/
def smallPartition (n checksum : ℕ) : Bytes :=
  le 4 TLV_TAG_PARTITION_HEADER ++ le 4 12 ++ le 4 0 ++ le 4 1 ++ le 4 n ++
    (le 4 TLV_TAG_PARTITION_TRAILER ++ le 4 8 ++ le 4 1 ++ le 4 checksum) ++ le 4 TLV_TAG_END ++ le 4 0

theorem smallPartition_accepted :
    ef10NvramBufferValidate 0 (smallPartition 0 0).length (smallPartition 0 0) =
      .ret () (smallPartition 0 0) := by
  decide

theorem validate_sound_iff_small : WellFormed (smallPartition 0 0) ↔ Consistent (smallPartition 0 0) :=
  validate_sound_iff (by decide) smallPartition_accepted

/-- A total length of 0 makes the sum run over nothing. -/
theorem validate_accepts_length_zero : ¬ ∀ m : Bytes, 4 ∣ m.length →
    ef10NvramBufferValidate 0 m.length m = .ret () m → WellFormed m := by
  intro h
  have hw := h (smallPartition 0 0) (by decide) smallPartition_accepted
  obtain ⟨-, -, q, hq⟩ := ef10NvramBufferValidate_ret_inv (by decide) (by decide)
    smallPartition_accepted
  obtain ⟨-, q', -, -, -, htot⟩ := consistent_of_wellFormed rfl hq hw
  have h0 : u32 (smallPartition 0 0) headerTotalLength = 0 := by decide
  omega

end Sfxge.Tlv
