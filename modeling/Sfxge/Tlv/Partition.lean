import Sfxge.Tlv.Check

/-!
# Tlv.Partition — partitions as the driver writes them

A partition with the header and trailer items that `ef10_nvram_buffer_create` writes:
`tlv_update_partition_len_and_cks` leaves one that `ef10_nvram_buffer_validate` accepts, and
`ef10_nvram_buffer_create` a fresh one.
-/

namespace Sfxge.Tlv

open Lib Lib.Prog Errno

/-- A `struct tlv_partition_header`. -/
def headerBytes (partnType generation totalLength : ℕ) : Bytes :=
  le 4 TLV_TAG_PARTITION_HEADER ++ le 4 12 ++ le 2 partnType ++ le 2 0 ++ le 4 generation ++
    le 4 totalLength

/-- A `struct tlv_partition_trailer`. -/
def trailerBytes (generation checksum : ℕ) : Bytes :=
  le 4 TLV_TAG_PARTITION_TRAILER ++ le 4 8 ++ le 4 generation ++ le 4 checksum

/-- Header, the items between, trailer and END tag. -/
def partitionBytes (partnType generation totalLength : ℕ) (mid : Bytes) (generation' checksum : ℕ) :
    Bytes :=
  headerBytes partnType generation totalLength ++ mid ++ trailerBytes generation' checksum ++
    le 4 TLV_TAG_END

@[simp] theorem length_headerBytes (t g n : ℕ) : (headerBytes t g n).length = 20 := by
  simp [headerBytes]

@[simp] theorem length_trailerBytes (g k : ℕ) : (trailerBytes g k).length = 16 := by
  simp [trailerBytes]

/-- The position of the END tag. -/
def endPos (mid : Bytes) : ℕ := 36 + mid.length

@[simp] theorem length_partitionBytes (t g n : ℕ) (mid : Bytes) (g' k : ℕ) :
    (partitionBytes t g n mid g' k).length = endPos mid + 4 := by
  simp [partitionBytes, endPos]
  omega

theorem newItem_header (t : ℕ) :
    newItem TLV_TAG_PARTITION_HEADER (headerValue t) = headerBytes t 1 0 := by
  have hl : (headerValue t).length = 12 := by simp [headerValue]
  have htake : (headerValue t).take 12 = headerValue t := List.take_of_length_le hl.le
  simp only [newItem, hl, Nat.reduceMod, htake]
  simp [headerValue, headerBytes]

theorem newItem_trailer : newItem TLV_TAG_PARTITION_TRAILER trailerValue = trailerBytes 1 0 := by
  decide

/-- The header as an item. -/
def headerTlv (t g n : ℕ) : TlvItem where
  tag := TLV_TAG_PARTITION_HEADER
  len := 12
  body := le 2 t ++ le 2 0 ++ le 4 g ++ le 4 n
  tag_lt := tagHeader_lt
  tag_ne := tagHeader_ne_end
  len_lt := by decide
  length_body := by simp

/-- The trailer as an item. -/
def trailerTlv (g k : ℕ) : TlvItem where
  tag := TLV_TAG_PARTITION_TRAILER
  len := 8
  body := le 4 g ++ le 4 k
  tag_lt := by decide
  tag_ne := by decide
  len_lt := by decide
  length_body := by simp

@[simp] theorem headerTlv_bytes (t g n : ℕ) : (headerTlv t g n).bytes = headerBytes t g n := by
  simp [headerTlv, TlvItem.bytes, headerBytes]

@[simp] theorem trailerTlv_bytes (g k : ℕ) : (trailerTlv g k).bytes = trailerBytes g k := by
  simp [trailerTlv, TlvItem.bytes, trailerBytes]

@[simp] theorem headerTlv_size (t g n : ℕ) : (headerTlv t g n).size = 20 := by
  simp [TlvItem.size, headerTlv, tlvDwordCount]

@[simp] theorem trailerTlv_size (g k : ℕ) : (trailerTlv g k).size = 16 := by
  simp [TlvItem.size, trailerTlv, tlvDwordCount]

/-! ### Fields of a partition in the memory -/

section Fields

variable {t g n g' k : ℕ} {mid rest : Bytes}

theorem partition_header : At (partitionBytes t g n mid g' k ++ rest) 0 (headerBytes t g n) := by
  refine ⟨mid ++ (trailerBytes g' k ++ (le 4 TLV_TAG_END ++ rest)), ?_⟩
  rw [List.drop_zero, partitionBytes]
  simp only [List.append_assoc]

theorem partition_mid : At (partitionBytes t g n mid g' k ++ rest) 20 mid := by
  simpa [partitionBytes, List.append_assoc] using
    At.mid (a := headerBytes t g n) (b := mid)
      (c := trailerBytes g' k ++ (le 4 TLV_TAG_END ++ rest)) (p := 20) (by simp)

theorem partition_trailer :
    At (partitionBytes t g n mid g' k ++ rest) (20 + mid.length) (trailerBytes g' k) := by
  simpa [partitionBytes, List.append_assoc] using
    At.mid (a := headerBytes t g n ++ mid) (b := trailerBytes g' k)
      (c := le 4 TLV_TAG_END ++ rest) (p := 20 + mid.length) (by simp)

theorem partition_end :
    At (partitionBytes t g n mid g' k ++ rest) (endPos mid) (le 4 TLV_TAG_END) := by
  simpa [partitionBytes, List.append_assoc] using
    At.mid (a := headerBytes t g n ++ mid ++ trailerBytes g' k) (b := le 4 TLV_TAG_END)
      (c := rest) (p := endPos mid) (by simp [endPos]; omega)

theorem u32_partition_end :
    u32 (partitionBytes t g n mid g' k ++ rest) (endPos mid) = TLV_TAG_END := by
  rw [partition_end.u32_eq]
  decide

theorem u32_partition_tag :
    u32 (partitionBytes t g n mid g' k ++ rest) 0 = TLV_TAG_PARTITION_HEADER := by
  have h : At (partitionBytes t g n mid g' k ++ rest) 0 (headerTlv t g n).bytes := by
    rw [headerTlv_bytes]; exact partition_header
  exact u32_item h

theorem u32_partition_generation :
    u32 (partitionBytes t g n mid g' k ++ rest) headerGeneration = g % 4294967296 := by
  have h : At (partitionBytes t g n mid g' k ++ rest) 0 (headerBytes t g n) := partition_header
  simp only [headerBytes, List.append_assoc] at h
  simpa [headerGeneration] using h.right.right.right.right.left.u32_eq

theorem u32_partition_totalLength :
    u32 (partitionBytes t g n mid g' k ++ rest) headerTotalLength = n % 4294967296 := by
  have h : At (partitionBytes t g n mid g' k ++ rest) 0 (headerBytes t g n) := partition_header
  simp only [headerBytes, List.append_assoc] at h
  simpa [headerTotalLength] using h.right.right.right.right.right.u32_eq

theorem u32_partition_generation' :
    u32 (partitionBytes t g n mid g' k ++ rest) (20 + mid.length + trailerGeneration) =
      g' % 4294967296 := by
  have h : At (partitionBytes t g n mid g' k ++ rest) (20 + mid.length) (trailerBytes g' k) :=
    partition_trailer
  simp only [trailerBytes, List.append_assoc] at h
  simpa [trailerGeneration, Nat.add_assoc] using h.right.right.left.u32_eq

theorem u32_partition_checksum :
    u32 (partitionBytes t g n mid g' k ++ rest) (20 + mid.length + trailerChecksum) =
      k % 4294967296 := by
  have h : At (partitionBytes t g n mid g' k ++ rest) (20 + mid.length) (trailerBytes g' k) :=
    partition_trailer
  simp only [trailerBytes, List.append_assoc] at h
  simpa [trailerChecksum, Nat.add_assoc] using h.right.right.right.u32_eq

theorem splice_partition_totalLength (n' : ℕ) :
    splice (partitionBytes t g n mid g' k ++ rest) headerTotalLength (le 4 n') =
      partitionBytes t g n' mid g' k ++ rest := by
  simpa [partitionBytes, headerBytes, List.append_assoc] using
    splice_mid (a := le 4 TLV_TAG_PARTITION_HEADER ++ le 4 12 ++ le 2 t ++ le 2 0 ++ le 4 g)
      (b := le 4 n) (p := headerTotalLength)
      (c := mid ++ (trailerBytes g' k ++ (le 4 TLV_TAG_END ++ rest)))
      (by simp [headerTotalLength]) (by simp)

theorem splice_partition_generation (g2 : ℕ) :
    splice (partitionBytes t g n mid g' k ++ rest) headerGeneration (le 4 g2) =
      partitionBytes t g2 n mid g' k ++ rest := by
  simpa [partitionBytes, headerBytes, List.append_assoc] using
    splice_mid (a := le 4 TLV_TAG_PARTITION_HEADER ++ le 4 12 ++ le 2 t ++ le 2 0)
      (b := le 4 g) (p := headerGeneration)
      (c := le 4 n ++ (mid ++ (trailerBytes g' k ++ (le 4 TLV_TAG_END ++ rest))))
      (by simp [headerGeneration]) (by simp)

theorem splice_partition_generation' (g2 : ℕ) :
    splice (partitionBytes t g n mid g' k ++ rest) (20 + mid.length + trailerGeneration) (le 4 g2) =
      partitionBytes t g n mid g2 k ++ rest := by
  simpa [partitionBytes, trailerBytes, List.append_assoc] using
    splice_mid (a := headerBytes t g n ++ mid ++ le 4 TLV_TAG_PARTITION_TRAILER ++ le 4 8)
      (b := le 4 g') (p := 20 + mid.length + trailerGeneration)
      (c := le 4 k ++ (le 4 TLV_TAG_END ++ rest))
      (by simp [trailerGeneration]; omega) (by simp)

theorem splice_partition_checksum (k' : ℕ) :
    splice (partitionBytes t g n mid g' k ++ rest) (20 + mid.length + trailerChecksum) (le 4 k') =
      partitionBytes t g n mid g' k' ++ rest := by
  simpa [partitionBytes, trailerBytes, List.append_assoc] using
    splice_mid
      (a := headerBytes t g n ++ mid ++ le 4 TLV_TAG_PARTITION_TRAILER ++ le 4 8 ++ le 4 g')
      (b := le 4 k) (p := 20 + mid.length + trailerChecksum)
      (c := le 4 TLV_TAG_END ++ rest)
      (by simp [trailerChecksum]; omega) (by simp)

end Fields

/-! ### `tlv_update_partition_len_and_cks` -/

/-- The sum over header to END tag is zero modulo 2^32. -/
def SumZero (m : Bytes) (n : ℕ) : Prop := wsum m 0 (n / 4) % 4294967296 = 0

/-- The checksum the update writes makes the sum zero. -/
theorem sumZero_checksum {t g n g' k : ℕ} {mid rest : Bytes} (hmid : 4 ∣ mid.length) :
    SumZero (partitionBytes t g n mid g'
      (k % 4294967296 + (4294967296 -
        wsum (partitionBytes t g n mid g' k ++ rest) 0 ((endPos mid + 4) / 4) % 4294967296)) ++ rest)
      (endPos mid + 4) := by
  have hpos : 20 + mid.length + trailerChecksum = 0 + 4 * ((20 + mid.length + trailerChecksum) / 4) := by
    simp only [trailerChecksum]
    omega
  have hw := wsum_splice (m := partitionBytes t g n mid g' k ++ rest) (p := 0)
    (n := (endPos mid + 4) / 4) (i := (20 + mid.length + trailerChecksum) / 4)
    (w := k % 4294967296 + (4294967296 -
      wsum (partitionBytes t g n mid g' k ++ rest) 0 ((endPos mid + 4) / 4) % 4294967296))
    (by simp only [endPos, trailerChecksum]; omega)
    (by simp only [List.length_append, length_partitionBytes]; omega)
  rw [← hpos, splice_partition_checksum, u32_partition_checksum] at hw
  unfold SumZero
  generalize wsum (partitionBytes t g n mid g' k ++ rest) 0 ((endPos mid + 4) / 4) = S at *
  omega

/-- **Update.**  On a partition whose END tag the cursor knows, and where it stands on a valid item
whatever the length, generation and checksum fields are. -/
theorem tlvUpdatePartitionLenAndCks_ret {c : TlvCursor} {t g n g' k : ℕ} {mid rest : Bytes}
    (hb : c.block = 0) (he : c.endTag = some (endPos mid : ℤ)) (hmid : 4 ∣ mid.length)
    (hsize : endPos mid + 4 < 18446744073709551616)
    (hval : ∀ g n g', tlvValidateState c (partitionBytes t g n mid g' k ++ rest) =
      .ret () (partitionBytes t g n mid g' k ++ rest)) :
    ∃ k', tlvUpdatePartitionLenAndCks c (partitionBytes t g n mid g' k ++ rest) =
        .ret () (partitionBytes t (g % 4294967296 + 1) (endPos mid + 4) mid (g % 4294967296 + 1) k' ++
          rest) ∧
      SumZero (partitionBytes t (g % 4294967296 + 1) (endPos mid + 4) mid (g % 4294967296 + 1) k' ++
        rest) (endPos mid + 4) := by
  have hlen : ∀ g n g' k, (partitionBytes t g n mid g' k ++ rest).length =
      endPos mid + 4 + rest.length := fun g n g' k => by
    simp only [List.length_append, length_partitionBytes]
  have hE : endPos mid = 36 + mid.length := rfl
  have hused : ∀ g n g', tlvBlockLengthUsed c (partitionBytes t g n mid g' k ++ rest) =
      .ret (endPos mid + 4, c) (partitionBytes t g n mid g' k ++ rest) := by
    intro g n g'
    have hreq : tlvRequireEnd c (partitionBytes t g n mid g' k ++ rest) =
        .ret c (partitionBytes t g n mid g' k ++ rest) := by
      rw [tlvRequireEnd, he]; rfl
    have hmod : ((endPos mid : ℤ) + 4 - (0 : ℕ)) % 18446744073709551616 = ((endPos mid + 4 : ℕ) : ℤ) := by
      omega
    rw [tlvBlockLengthUsed, bind_of_ret (attempt_of_ret (hval g n g'))]
    dsimp only
    rw [bind_of_ret (attempt_of_ret hreq)]
    dsimp only
    rw [he, Option.getD_some, hb, hmod, Int.toNat_natCast]
    rfl
  refine ⟨_, ?_, sumZero_checksum (n := endPos mid + 4) (k := k) hmid⟩
  have hcast : ∀ q : ℕ, (((0 : ℕ) : ℤ) + ((endPos mid + 4 : ℕ) : ℤ) - (trailerSize : ℤ) - 4 + (q : ℤ)) =
      ((20 + mid.length + q : ℕ) : ℤ) := by
    intro q
    simp only [trailerSize]
    omega
  rw [tlvUpdatePartitionLenAndCks, hb,
    bind_of_ret (loadU32_of_le (by rw [hlen]; omega)), u32_partition_tag,
    bind_of_ret (ensure_pos rfl), bind_of_ret (hused g n g')]
  dsimp only
  rw [bind_of_ret (ensure_pos (by omega)), Nat.zero_add,
    bind_of_ret (store_of_le (by rw [hlen]; simp [headerTotalLength]; omega)),
    splice_partition_totalLength, Nat.zero_add,
    bind_of_ret (loadU32_of_le (by rw [hlen]; simp only [headerGeneration]; omega)),
    u32_partition_generation,
    bind_of_ret (store_of_le (by rw [hlen]; simp [headerGeneration]; omega)),
    splice_partition_generation, hcast, hcast,
    bind_of_ret (store_of_le (by rw [hlen]; simp [trailerGeneration]; omega)),
    splice_partition_generation',
    bind_of_ret (loadU32_of_le (by rw [hlen]; simp only [trailerChecksum]; omega)),
    u32_partition_checksum]
  have hsum : checksumTlvPartition 0 c
      (partitionBytes t (g % 4294967296 + 1) (endPos mid + 4) mid (g % 4294967296 + 1) k ++ rest) =
      .ret (wsum (partitionBytes t (g % 4294967296 + 1) (endPos mid + 4) mid (g % 4294967296 + 1) k ++
        rest) 0 ((endPos mid + 4) / 4) % 4294967296)
        (partitionBytes t (g % 4294967296 + 1) (endPos mid + 4) mid (g % 4294967296 + 1) k ++ rest) := by
    rw [checksumTlvPartition, bind_of_ret (hused _ _ _)]
    exact sumU32_of_le (by rw [hlen]; omega)
  rw [bind_of_ret hsum, store_of_le (by rw [hlen]; simp [trailerChecksum]; omega),
    splice_partition_checksum]

/-! ### Walking over a partition -/

section Walk

variable {t g n g' k : ℕ} {items : List TlvItem} {rest : Bytes} {c : TlvCursor}

theorem partition_chain : At (partitionBytes t g n (chainBytes items) g' k ++ rest) 0
    (chainBytes (headerTlv t g n :: items)) := by
  rw [chainBytes_cons, headerTlv_bytes]
  exact At.append_iff.mpr ⟨partition_header, by simpa using partition_mid⟩

theorem partition_header_valid (hb : c.block = 0) (hl : (24 : ℤ) ≤ c.limit) {mid : Bytes} :
    Valid (partitionBytes t g n mid g' k ++ rest) (c.at 0) :=
  valid_item (i := headerTlv t g n) (by rw [headerTlv_bytes]; exact partition_header) hb.le
    (by rw [headerTlv_size]; push_cast; omega)

theorem partition_trailer_valid (hb : c.block = 0) {mid : Bytes}
    (hl : (endPos mid + 4 : ℤ) ≤ c.limit) :
    Valid (partitionBytes t g n mid g' k ++ rest) (c.at (20 + mid.length)) :=
  valid_item (i := trailerTlv g' k) (by rw [trailerTlv_bytes]; exact partition_trailer) (by omega)
    (by rw [trailerTlv_size]; simp only [endPos] at hl; push_cast at hl ⊢; omega)

theorem partition_end_valid (hb : c.block = 0) {mid : Bytes} (hl : (endPos mid : ℤ) ≤ c.limit) :
    Valid (partitionBytes t g n mid g' k ++ rest) (c.at (endPos mid)) :=
  valid_end u32_partition_end (by omega) hl

theorem nextPos_partition_trailer {mid : Bytes} :
    nextPos (partitionBytes t g n mid g' k ++ rest) (20 + mid.length) = endPos mid := by
  rw [nextPos_item (i := trailerTlv g' k) (by rw [trailerTlv_bytes]; exact partition_trailer),
    trailerTlv_size, endPos]
  omega

theorem u32_partition_trailer {mid : Bytes} :
    u32 (partitionBytes t g n mid g' k ++ rest) (20 + mid.length) = TLV_TAG_PARTITION_TRAILER :=
  u32_item (i := trailerTlv g' k) (by rw [trailerTlv_bytes]; exact partition_trailer)

theorem partition_find_trailer (hb : c.block = 0) (he : c.endTag = none)
    (hfit : c.limit + 4 ≤ (partitionBytes t g n (chainBytes items) g' k ++ rest).length)
    (hl : (endPos (chainBytes items) + 4 : ℤ) ≤ c.limit)
    (htag : ∀ i ∈ items, i.tag ≠ TLV_TAG_PARTITION_TRAILER) :
    find? (partitionBytes t g n (chainBytes items) g' k ++ rest) c TLV_TAG_PARTITION_TRAILER =
      some (20 + (chainBytes items).length) := by
  have hlen : 0 + (chainBytes (headerTlv t g n :: items)).length = 20 + (chainBytes items).length := by
    simp
  have hE : endPos (chainBytes items) = 36 + (chainBytes items).length := rfl
  rw [← hlen]
  refine find?_chain hfit hb partition_chain (by push_cast at hlen ⊢; omega) (by simp [he]) ?_
    (by rw [hlen]; exact u32_partition_trailer)
    (by rw [hlen]; exact partition_trailer_valid hb hl)
  intro i hi
  rcases List.mem_cons.mp hi with rfl | hi
  · simp [headerTlv, TLV_TAG_PARTITION_HEADER, TLV_TAG_PARTITION_TRAILER]
  · exact htag i hi

theorem partition_find_end (hb : c.block = 0) (he : c.endTag = none)
    (hfit : c.limit + 4 ≤ (partitionBytes t g n (chainBytes items) g' k ++ rest).length)
    (hl : (endPos (chainBytes items) + 4 : ℤ) ≤ c.limit) :
    find? (partitionBytes t g n (chainBytes items) g' k ++ rest) c TLV_TAG_END =
      some (endPos (chainBytes items)) := by
  have hlen : 0 + (chainBytes (headerTlv t g n :: items ++ [trailerTlv g' k])).length =
      endPos (chainBytes items) := by
    simp [endPos]
    omega
  have hchain : At (partitionBytes t g n (chainBytes items) g' k ++ rest) 0
      (chainBytes (headerTlv t g n :: items ++ [trailerTlv g' k])) := by
    rw [chainBytes_append]
    refine At.append_iff.mpr ⟨partition_chain, ?_⟩
    simpa using partition_trailer
  rw [← hlen]
  exact find?_chain hfit hb hchain (by omega) (by simp [he]) (fun i _ => i.tag_ne)
    (by rw [hlen]; exact u32_partition_end) (by rw [hlen]; exact partition_end_valid hb (by omega))

end Walk

/-! ### `ef10_nvram_buffer_validate` -/

/-- **Accepted partitions.**  Items other than trailers between header and trailer, a spare word
behind the END tag, length and equal generation counts in the fields, and sum zero. -/
theorem partition_accepted {t g n k size : ℕ} (items : List TlvItem) {rest : Bytes}
    (htag : ∀ i ∈ items, i.tag ≠ TLV_TAG_PARTITION_TRAILER)
    (hn : n = endPos (chainBytes items) + 4) (hroom : n + 4 ≤ size) (h32 : n < 4294967296)
    (hsize : size ≤ (partitionBytes t g n (chainBytes items) g k ++ rest).length)
    (hsum : SumZero (partitionBytes t g n (chainBytes items) g k ++ rest) n) :
    Accepted (partitionBytes t g n (chainBytes items) g k ++ rest) 0 size
      (20 + (chainBytes items).length) := by
  have hE : endPos (chainBytes items) = 36 + (chainBytes items).length := rfl
  have h4 := four_dvd_length_chainBytes items
  have hfit : (startCursor 0 size).limit + 4 ≤
      (partitionBytes t g n (chainBytes items) g k ++ rest).length := startCursor_fit (by omega)
  have hlim : (startCursor 0 size).limit = (size : ℤ) - 4 := by simp
  have htot : u32 (partitionBytes t g n (chainBytes items) g k ++ rest) (0 + headerTotalLength) = n := by
    rw [Nat.zero_add, u32_partition_totalLength, Nat.mod_eq_of_lt h32]
  have hw : wordCount n = n / 4 := by
    simp only [wordCount]
    omega
  refine ⟨⟨?_, u32_partition_tag⟩, by rw [htot]; omega, ?_, ?_, ?_⟩
  · exact partition_header_valid (c := startCursor 0 size) rfl (by rw [hlim]; omega)
  · exact trailer?_eq_some.mpr
      ⟨partition_find_trailer rfl rfl hfit (by rw [hlim]; omega) htag,
        by rw [nextPos_partition_trailer, u32_partition_end]⟩
  · rw [u32_partition_generation', Nat.zero_add, u32_partition_generation]
  · rw [htot, hw]
    exact hsum

end Sfxge.Tlv
