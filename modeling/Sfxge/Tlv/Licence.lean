import Sfxge.Tlv.Create

/-!
# Tlv.Licence — editing a licence partition

The abstract licence partition is the list of its keys.  `Holds` says how a buffer represents it:
a partition with one licence item per key, and behind its END tag no word that is another one.
Inserting and deleting keep `Holds`; what the buffer functions report follows from it.
-/

namespace Sfxge.Tlv

open Lib Lib.Prog Errno

/-! ### Walking over the items -/

/-- One round of the walk `find_item`, `offset + length`, over the items found and the offset. -/
def walkStep (size : ℕ) (acc : List (ℕ × ℕ) × ℕ) :
    BufProg ((List (ℕ × ℕ) × ℕ) ⊕ (List (ℕ × ℕ) × ℕ)) := do
  match ← ef10NvramBufferFindItem 0 size acc.2 with
  | some (start, length) => pure (.inr (acc.1 ++ [(start, length)], start + length))
  | none => pure (.inl acc)

/-- The walk from `find_item_start` on: start and length of every item, and the offset behind. -/
def walkItems (size : ℕ) : BufProg (List (ℕ × ℕ) × ℕ) := do
  let start ← ef10NvramBufferFindItemStart 0 size
  iterate (walkStep size) (← loopFuel) ([], start)

/-! ### Licence items -/

/-- The item `tlv_write` writes for a key. -/
def licTlv (key : Bytes) : TlvItem where
  tag := TLV_TAG_LICENSE
  len := key.length % 4294967296
  body := key.take (key.length % 4294967296) ++
    List.replicate (4 * ((key.length % 4294967296 + 3) / 4) - key.length % 4294967296) 0
  tag_lt := by decide
  tag_ne := by decide
  len_lt := Nat.mod_lt _ (by decide)
  length_body := by
    have := Nat.mod_le key.length 4294967296
    simp
    omega

theorem licTlv_bytes (key : Bytes) : (licTlv key).bytes = newItem TLV_TAG_LICENSE key := by
  simp [licTlv, TlvItem.bytes, newItem]

theorem licTlv_value {key : Bytes} (h : key.length < 4294967296) : (licTlv key).value = key := by
  simp [licTlv, TlvItem.value, Nat.mod_eq_of_lt h]

/-- The items of the keys. -/
def licItems (keys : List Bytes) : List TlvItem := keys.map licTlv

/-- Offset of the item of key `i`, or of the trailer. -/
def licOffset (keys : List Bytes) (i : ℕ) : ℕ := 20 + (chainBytes (licItems (keys.take i))).length

theorem licItems_tag {keys : List Bytes} {i : TlvItem} (h : i ∈ licItems keys) :
    i.tag = TLV_TAG_LICENSE := by
  obtain ⟨key, -, rfl⟩ := List.mem_map.mp h
  rfl

theorem licItems_split {keys : List Bytes} {i : ℕ} {key : Bytes} (h : keys[i]? = some key) :
    licItems keys = licItems (keys.take i) ++ licTlv key :: licItems (keys.drop (i + 1)) := by
  obtain ⟨hi, rfl⟩ := List.getElem?_eq_some_iff.mp h
  have hk : keys = keys.take i ++ keys[i] :: keys.drop (i + 1) := by
    rw [List.getElem_cons_drop, List.take_append_drop]
  rw [licItems, licItems, licItems, ← List.map_cons, ← List.map_append, ← hk]

theorem licOffset_succ {keys : List Bytes} {i : ℕ} {key : Bytes} (h : keys[i]? = some key) :
    licOffset keys (i + 1) = licOffset keys i + (licTlv key).size := by
  obtain ⟨hi, rfl⟩ := List.getElem?_eq_some_iff.mp h
  have hk : licItems (keys.take (i + 1)) = licItems (keys.take i) ++ [licTlv keys[i]] := by
    rw [List.take_add_one, List.getElem?_eq_getElem hi]
    simp only [licItems, Option.toList_some, List.map_append, List.map_cons, List.map_nil]
  rw [licOffset, hk, chainBytes_append, List.length_append, chainBytes_cons, List.length_append,
    TlvItem.length_bytes, licOffset, chainBytes_nil]
  simp only [List.length_nil]
  omega

theorem licItems_take_drop (keys : List Bytes) (i : ℕ) :
    licItems keys = licItems (keys.take i) ++ licItems (keys.drop i) := by
  rw [licItems, licItems, licItems, ← List.map_append, List.take_append_drop]

theorem four_dvd_licOffset (keys : List Bytes) (i : ℕ) : 4 ∣ licOffset keys i :=
  Nat.dvd_add (by decide) (four_dvd_length_chainBytes _)

theorem licOffset_le (keys : List Bytes) (i : ℕ) :
    licOffset keys i ≤ 20 + (chainBytes (licItems keys)).length := by
  rw [licItems_take_drop keys i, chainBytes_append, List.length_append, licOffset]
  omega

theorem licOffset_length (keys : List Bytes) :
    licOffset keys keys.length = 20 + (chainBytes (licItems keys)).length := by
  rw [licOffset, List.take_length]

/-! ### What a buffer represents -/

/-- No word is an END tag. -/
def Quiet (junk : Bytes) : Prop :=
  ∀ p, p + 4 ≤ junk.length → 4 ∣ p → u32 junk p ≠ TLV_TAG_END

theorem Quiet.drop {junk : Bytes} (h : Quiet junk) {d : ℕ} (hd : 4 ∣ d) : Quiet (junk.drop d) := by
  intro p hp h4
  rw [List.length_drop] at hp
  rw [u32_drop]
  exact h (d + p) (by omega) (Nat.dvd_add hd h4)

theorem Quiet.append {js ks : Bytes} (hj : Quiet js) (hk : Quiet ks) (h4 : 4 ∣ js.length) :
    Quiet (js ++ ks) := by
  intro p hp hp4
  by_cases hlt : p + 4 ≤ js.length
  · rw [u32_append_left hlt]
    exact hj p hlt hp4
  · obtain ⟨r, rfl⟩ := Nat.exists_eq_add_of_le (show js.length ≤ p by omega)
    rw [List.length_append] at hp
    rw [u32_append_right]
    exact hk r (by omega) ((Nat.dvd_add_right h4).mp hp4)

theorem u32_replicate {k p : ℕ} {v : UInt8} (h : p + 4 ≤ k) :
    u32 (List.replicate k v) p = ofLe (List.replicate 4 v) := by
  rw [u32, slice, List.drop_replicate, List.take_replicate]
  congr 2
  omega

theorem quiet_zeros (k : ℕ) : Quiet (List.replicate k 0) := by
  intro p hp _
  rw [u32_replicate (by simpa using hp)]
  decide

theorem quiet_blank (k : ℕ) : Quiet (List.replicate k 0xff) := by
  intro p hp _
  rw [u32_replicate (by simpa using hp)]
  decide

/-- The buffer `b` of `size` bytes holds the keys. -/
structure Holds (size : ℕ) (b : Bytes) (keys : List Bytes) : Prop where
  four : 4 ∣ size
  small : size < 4294967296
  length : b.length = size
  room : endPos (chainBytes (licItems keys)) + 8 ≤ size
  keys_lt : ∀ key ∈ keys, key.length < 4294967296
  bytes : ∃ t g n g' k junk,
    b = partitionBytes t g n (chainBytes (licItems keys)) g' k ++ junk ∧ Quiet junk

variable {size : ℕ} {b : Bytes} {keys : List Bytes}

/-- The words behind a partition, at their place in the buffer. -/
theorem u32_behind {t g n g' k : ℕ} {mid junk : Bytes} (p : ℕ) :
    u32 (partitionBytes t g n mid g' k ++ junk) (endPos mid + 4 + p) = u32 junk p := by
  rw [← length_partitionBytes t g n mid g' k]
  exact u32_append_right _ _ _

/-- The cursor at an offset of the buffer. -/
def licCursor (size offset : ℕ) : TlvCursor := (startCursor 0 size).at offset

namespace Holds

/-- The buffer and what lies behind it, as a partition. -/
theorem memory (h : Holds size b keys) (beyond : Bytes) : ∃ t g n g' k junk,
    b ++ beyond = partitionBytes t g n (chainBytes (licItems keys)) g' k ++ (junk ++ beyond) ∧
      b = partitionBytes t g n (chainBytes (licItems keys)) g' k ++ junk ∧ Quiet junk := by
  obtain ⟨t, g, n, g', k, junk, hb, hq⟩ := h.bytes
  exact ⟨t, g, n, g', k, junk, by rw [hb, List.append_assoc], hb, hq⟩

theorem fit (h : Holds size b keys) (beyond : Bytes) (offset : ℕ) :
    (licCursor size offset).limit + 4 ≤ (b ++ beyond).length := by
  have := h.length
  simp only [licCursor, at_limit, startCursor_limit, List.length_append]
  omega

theorem header_valid (h : Holds size b keys) (beyond : Bytes) :
    HasHeader (b ++ beyond) 0 size := by
  have hroom := h.room
  obtain ⟨t, g, n, g', k, junk, hm, -⟩ := h.memory beyond
  simp only [endPos] at hroom
  rw [hm]
  exact ⟨partition_header_valid (c := startCursor 0 size) rfl (by rw [startCursor_limit]; omega),
    u32_partition_tag⟩

/-- The item of key `i` lies at its offset. -/
theorem item (h : Holds size b keys) (beyond : Bytes) {i : ℕ} {key : Bytes}
    (hi : keys[i]? = some key) : At (b ++ beyond) (licOffset keys i) (licTlv key).bytes := by
  obtain ⟨t, g, n, g', k, junk, hm, -⟩ := h.memory beyond
  have hat : At (partitionBytes t g n (chainBytes (licItems keys)) g' k ++ (junk ++ beyond)) 20
      (chainBytes (licItems keys)) := partition_mid
  rw [← hm, licItems_split hi, chainBytes_append, chainBytes_cons] at hat
  exact hat.right.left

theorem trailer (h : Holds size b keys) (beyond : Bytes) :
    u32 (b ++ beyond) (licOffset keys keys.length) = TLV_TAG_PARTITION_TRAILER ∧
      nextPos (b ++ beyond) (licOffset keys keys.length) = endPos (chainBytes (licItems keys)) ∧
      u32 (b ++ beyond) (endPos (chainBytes (licItems keys))) = TLV_TAG_END := by
  obtain ⟨t, g, n, g', k, junk, hm, -⟩ := h.memory beyond
  rw [licOffset_length, hm]
  exact ⟨u32_partition_trailer, nextPos_partition_trailer, u32_partition_end⟩

/-- Every offset of an item is a valid position. -/
theorem offset_valid (h : Holds size b keys) (beyond : Bytes) {i : ℕ} (hi : i ≤ keys.length) :
    Valid (b ++ beyond) (licCursor size (licOffset keys i)) := by
  have hroom := h.room
  have hle := licOffset_le keys i
  rcases Nat.lt_or_eq_of_le hi with hlt | rfl
  · have hs := licOffset_succ (List.getElem?_eq_getElem hlt)
    have hle' := licOffset_le keys (i + 1)
    refine valid_item (h.item beyond (List.getElem?_eq_getElem hlt)) (Nat.zero_le _) ?_
    simp only [endPos] at hroom
    rw [startCursor_limit]
    omega
  · obtain ⟨t, g, n, g', k, junk, hm, -⟩ := h.memory beyond
    rw [licOffset_length, hm]
    exact partition_trailer_valid (c := startCursor 0 size) rfl (by rw [startCursor_limit]; omega)

theorem find_end (h : Holds size b keys) (beyond : Bytes) {c : TlvCursor} (hb : c.block = 0)
    (he : c.endTag = none) (hl : c.limit = (startCursor 0 size).limit) :
    find? (b ++ beyond) c TLV_TAG_END = some (endPos (chainBytes (licItems keys))) := by
  have hroom := h.room
  have hfit := h.fit beyond 0
  obtain ⟨t, g, n, g', k, junk, hm, -⟩ := h.memory beyond
  rw [hm] at hfit ⊢
  refine partition_find_end hb he (by rw [hl]; exact hfit) ?_
  rw [hl, startCursor_limit]
  omega

theorem end_some (h : Holds size b keys) (beyond : Bytes) (offset : ℕ) :
    endOf? (b ++ beyond) (licCursor size offset) =
      some ((endPos (chainBytes (licItems keys)) : ℕ) : ℤ) := by
  change Option.map _ (find? (b ++ beyond) (licCursor size offset) TLV_TAG_END) = _
  rw [h.find_end beyond (c := licCursor size offset) rfl rfl rfl]
  rfl

/-- The partition is one segment: behind its END tag there is no other. -/
theorem used_end (h : Holds size b keys) (beyond : Bytes) {c : TlvCursor} (hb : c.block = 0)
    (hl : c.limit = (startCursor 0 size).limit) :
    usedEnd (b ++ beyond) c = endPos (chainBytes (licItems keys)) + 4 := by
  have hlen := h.length
  have hnone : find? (b ++ beyond) ⟨endPos (chainBytes (licItems keys)) + 4,
      endPos (chainBytes (licItems keys)) + 4, none, c.limit⟩ TLV_TAG_END = none := by
    cases hf : find? (b ++ beyond) ⟨endPos (chainBytes (licItems keys)) + 4,
      endPos (chainBytes (licItems keys)) + 4, none, c.limit⟩ TLV_TAG_END with
    | none => rfl
    | some q =>
      obtain ⟨hv, ht, hq⟩ := find?_spec hf
      have h4 : 4 ∣ endPos (chainBytes (licItems keys)) + 4 :=
        Nat.dvd_add (Nat.dvd_add (by decide) (four_dvd_length_chainBytes _)) (by decide)
      have hq4 := seek_aligned hf h4
      have hle := hv.le_limit
      simp only [at_current, at_limit] at hle
      rw [hl, startCursor_limit] at hle
      obtain ⟨t, g, n, g', k, junk, -, hb', hquiet⟩ := h.memory beyond
      obtain ⟨r, rfl⟩ := Nat.exists_eq_add_of_le
        (show endPos (chainBytes (licItems keys)) + 4 ≤ q from hq)
      have hj := congrArg List.length hb'
      rw [List.length_append, length_partitionBytes] at hj
      rw [u32_append_left (by omega), hb', u32_behind] at ht
      exact absurd ht (hquiet r (by omega) ((Nat.dvd_add_right h4).mp hq4))
  obtain ⟨n, hn⟩ : ∃ n, (b ++ beyond).length + 1 = n + 2 :=
    ⟨b.length + beyond.length - 1, by
      have := h.room
      rw [List.length_append]
      omega⟩
  rw [usedEnd, lastSegmentEnd, hn, hb, segEnd,
    h.find_end beyond (c := ⟨0, 0, none, c.limit⟩) rfl rfl hl]
  dsimp only
  rw [segEnd, hnone]

end Holds

/-! ### Inserting -/

theorem insertIdx_eq_take_drop {α : Type} (l : List α) {i : ℕ} (a : α) (hi : i ≤ l.length) :
    l.insertIdx i a = l.take i ++ a :: l.drop i := by
  induction l generalizing i with
  | nil =>
    obtain rfl : i = 0 := by simpa using hi
    simp
  | cons b l ih =>
    cases i with
    | zero => simp
    | succ i => simp [ih (by simpa using hi)]

namespace Holds

/-- **Insertion.**  At the offset of an item or of the trailer, a key either does not fit, and nothing
changes, or becomes a member of the list there. -/
theorem insert (h : Holds size b keys) (beyond : Bytes) {i : ℕ} (hi : i ≤ keys.length) {key : Bytes}
    (hkey : key.length < 4294967296) :
    (∃ e, ef10NvramBufferInsertItem 0 size (licOffset keys i) key (b ++ beyond) =
      .err e (b ++ beyond)) ∨
    (∃ len b', ef10NvramBufferInsertItem 0 size (licOffset keys i) key (b ++ beyond) =
      .ret len (b' ++ beyond) ∧ Holds size b' (keys.insertIdx i key)) := by
  have hfit := h.fit beyond (licOffset keys i)
  have hv := h.offset_valid beyond hi
  have hlen := h.length
  have hroom := h.room
  have hinit : tlvInitCursorAtOffset 0 size (licOffset keys i) (b ++ beyond) =
      .ret (licCursor size (licOffset keys i)) (b ++ beyond) := by
    rw [tlvInitCursorAtOffset, Nat.zero_add]
    exact tlvInitCursor_ret hfit hv
  have hue : usedEnd (b ++ beyond) (licCursor size (licOffset keys i)) =
      endPos (chainBytes (licItems keys)) + 4 := h.used_end beyond rfl rfl
  rw [ef10NvramBufferInsertItem, bind_of_ret hinit]
  by_cases hc : CanInsert (b ++ beyond) (licCursor size (licOffset keys i)) TLV_TAG_LICENSE key
  swap
  · obtain ⟨e, he⟩ := tlvInsert_err hfit hc
    exact Or.inl ⟨e, bind_of_err he⟩
  right
  have hitem := length_newItem_of_lt TLV_TAG_LICENSE hkey
  have hspace := hc.room
  rw [hue] at hspace
  simp only [licCursor, at_limit, startCursor_limit] at hspace
  have hle := licOffset_le keys i
  have hf : ¬ InsertFaults (b ++ beyond) (licCursor size (licOffset keys i)) TLV_TAG_LICENSE key := by
    simp only [InsertFaults, not_or, Nat.not_lt, hue]
    simp only [endPos] at hspace ⊢
    simp only [licCursor, at_current, List.length_append]
    omega
  obtain ⟨t, g, n, g', k, junk, hm, hb, hquiet⟩ := h.memory beyond
  have hjunk : size = endPos (chainBytes (licItems keys)) + 4 + junk.length := by
    rw [← hlen, hb, List.length_append, length_partitionBytes]
  have hres : inserted (b ++ beyond) (licCursor size (licOffset keys i)) TLV_TAG_LICENSE key =
      partitionBytes t g n (chainBytes (licItems (keys.insertIdx i key))) g' k ++
        junk.drop (newItem TLV_TAG_LICENSE key).length ++ beyond := by
    have hsplit := openGap_split (headerBytes t g n ++ chainBytes (licItems (keys.take i)))
      (chainBytes (licItems (keys.drop i)) ++ trailerBytes g' k ++ le 4 TLV_TAG_END)
      (newItem TLV_TAG_LICENSE key) (junk.take (newItem TLV_TAG_LICENSE key).length)
      (junk.drop (newItem TLV_TAG_LICENSE key).length ++ beyond)
      (p := licOffset keys i) (q := endPos (chainBytes (licItems keys)) + 4)
      (d := 4 * tlvDelta key.length) (by simp [licOffset])
      (by
        rw [licItems_take_drop keys i, chainBytes_append]
        simp only [licOffset, endPos, List.length_append, length_trailerBytes, length_le]
        omega)
      (by
        have := four_dvd_length_chainBytes (licItems (keys.drop i))
        simp only [List.length_append, length_trailerBytes, length_le]
        omega)
      (by rw [List.length_take]; omega) hitem
    have hmem : b ++ beyond = headerBytes t g n ++ chainBytes (licItems (keys.take i)) ++
        (chainBytes (licItems (keys.drop i)) ++ trailerBytes g' k ++ le 4 TLV_TAG_END) ++
        junk.take (newItem TLV_TAG_LICENSE key).length ++
        (junk.drop (newItem TLV_TAG_LICENSE key).length ++ beyond) := by
      rw [hm, licItems_take_drop keys i, chainBytes_append, partitionBytes]
      simp only [List.append_assoc]
      rw [← List.append_assoc (List.take _ junk), List.take_append_drop]
    rw [← hmem] at hsplit
    rw [inserted, hue]
    change splice (openGap (b ++ beyond) (licOffset keys i) _ (4 * tlvDelta key.length))
      (licOffset keys i) (newItem TLV_TAG_LICENSE key) = _
    rw [hsplit, insertIdx_eq_take_drop keys key hi, partitionBytes]
    simp only [licItems, List.map_append, List.map_cons, chainBytes_append, chainBytes_cons,
      licTlv_bytes, List.append_assoc]
  have hd4 : 4 ∣ (newItem TLV_TAG_LICENSE key).length := by rw [hitem]; exact ⟨_, rfl⟩
  have hend : endPos (chainBytes (licItems (keys.insertIdx i key))) =
      endPos (chainBytes (licItems keys)) + (newItem TLV_TAG_LICENSE key).length := by
    rw [insertIdx_eq_take_drop keys key hi]
    conv_rhs => rw [licItems_take_drop keys i]
    simp only [licItems, List.map_append, List.map_cons, chainBytes_append, chainBytes_cons, endPos,
      List.length_append, licTlv_bytes]
    omega
  have hblen : (partitionBytes t g n (chainBytes (licItems (keys.insertIdx i key))) g' k ++
      junk.drop (newItem TLV_TAG_LICENSE key).length).length = size := by
    rw [List.length_append, length_partitionBytes, List.length_drop, hend]
    omega
  have hnext : ∃ next, tlvNextItemPtr ((licCursor size (licOffset keys i)).shiftEnd
      (endOf? (b ++ beyond) (licCursor size (licOffset keys i))) (4 * tlvDelta key.length))
      (inserted (b ++ beyond) (licCursor size (licOffset keys i)) TLV_TAG_LICENSE key) =
      .ret next (inserted (b ++ beyond) (licCursor size (licOffset keys i)) TLV_TAG_LICENSE key) := by
    have hl := length_inserted hc (by omega) hf
    refine ⟨_, tlvNextItemPtr_ret ?_ fun _ => ?_⟩
    · rw [hl, shiftEnd_current, licCursor, at_current, List.length_append]
      simp only [endPos] at hroom
      omega
    · rw [hl, shiftEnd_current, licCursor, at_current, List.length_append]
      simp only [endPos] at hroom
      omega
  obtain ⟨next, hnext⟩ := hnext
  rw [bind_of_ret (tlvInsert_ret hfit hc hf), bind_of_ret hnext, hres]
  refine ⟨_, _, rfl, h.four, h.small, hblen, by rw [hend]; omega, ?_,
    t, g, n, g', k, _, rfl, hquiet.drop hd4⟩
  intro k' hk'
  rcases (List.mem_insertIdx hi).mp hk' with rfl | hk'
  · exact hkey
  · exact h.keys_lt k' hk'

/-- **Deletion.**  The key at an item's offset leaves the list, whatever lies behind the buffer. -/
theorem delete (h : Holds size b keys) {beyond : Bytes} (hbeyond : size ≤ beyond.length) {i : ℕ}
    {key : Bytes} (hi : keys[i]? = some key) :
    ∃ b', ef10NvramBufferDeleteItem 0 size (licOffset keys i) (b ++ beyond) = .ret () (b' ++ beyond) ∧
      Holds size b' (keys.eraseIdx i) := by
  have hfit := h.fit beyond (licOffset keys i)
  have hilt := (List.getElem?_eq_some_iff.mp hi).1
  have hv := h.offset_valid beyond hilt.le
  have hlen := h.length
  have hroom := h.room
  have hinit : tlvInitCursorAtOffset 0 size (licOffset keys i) (b ++ beyond) =
      .ret (licCursor size (licOffset keys i)) (b ++ beyond) := by
    rw [tlvInitCursorAtOffset, Nat.zero_add]
    exact tlvInitCursor_ret hfit hv
  have hue : usedEnd (b ++ beyond) (licCursor size (licOffset keys i)) =
      endPos (chainBytes (licItems keys)) + 4 := h.used_end beyond rfl rfl
  have hat := h.item beyond hi
  have hwords : 4 * itemWords (b ++ beyond) (licCursor size (licOffset keys i)) = (licTlv key).size := by
    rw [itemWords, licCursor, at_current, u32_item_len hat]
    rfl
  have hsize := (licTlv key).size_ge
  have hsucc := licOffset_succ hi
  have hle := licOffset_le keys (i + 1)
  have hoff : 20 ≤ licOffset keys i := by rw [licOffset]; omega
  have hc : CanDelete (b ++ beyond) (licCursor size (licOffset keys i)) :=
    ⟨hv, by rw [licCursor, at_current, u32_item hat]; exact (licTlv key).tag_ne,
      by rw [h.end_some beyond]; rfl⟩
  have hf : ¬ DeleteFaults (b ++ beyond) (licCursor size (licOffset keys i)) := by
    have hsp := span_le (p := licOffset keys i) (q := endPos (chainBytes (licItems keys)) + 4)
      (by simp only [endPos]; omega)
    rw [DeleteFaults, hue, hwords]
    simp only [GapFaults, licCursor, at_current, List.length_append]
    simp only [endPos] at hroom hsp ⊢
    omega
  obtain ⟨t, g, n, g', k, junk, hm, hb, hquiet⟩ := h.memory beyond
  have hjunk : size = endPos (chainBytes (licItems keys)) + 4 + junk.length := by
    rw [← hlen, hb, List.length_append, length_partitionBytes]
  have hkeys : licItems (keys.eraseIdx i) =
      licItems (keys.take i) ++ licItems (keys.drop (i + 1)) := by
    rw [List.eraseIdx_eq_take_drop_succ, licItems, List.map_append]
    rfl
  have hres : deleted (b ++ beyond) (licCursor size (licOffset keys i)) =
      partitionBytes t g n (chainBytes (licItems (keys.eraseIdx i))) g' k ++
        (List.replicate (licTlv key).size 0 ++ junk) ++ beyond := by
    have hsplit := closeGap_split (headerBytes t g n ++ chainBytes (licItems (keys.take i)))
      (chainBytes (licItems (keys.drop (i + 1))) ++ trailerBytes g' k ++ le 4 TLV_TAG_END)
      (licTlv key).bytes ((junk ++ beyond).take (licTlv key).size)
      ((junk ++ beyond).drop (licTlv key).size)
      (p := licOffset keys i) (d := (licTlv key).size) (q := endPos (chainBytes (licItems keys)) + 4)
      (by simp [licOffset]) (by simp)
      (by
        rw [licItems_split hi]
        simp only [licOffset, endPos, List.length_append, length_trailerBytes, length_le,
          chainBytes_append, chainBytes_cons, TlvItem.length_bytes]
        omega)
      (by rw [TlvItem.length_bytes]; exact (licTlv key).four_dvd_size)
      (by
        have := four_dvd_length_chainBytes (licItems (keys.drop (i + 1)))
        simp only [List.length_append, length_trailerBytes, length_le]
        omega)
      (by
        rw [List.length_take, TlvItem.length_bytes, List.length_append]
        simp only [endPos] at hroom
        omega)
    have hmem : b ++ beyond = headerBytes t g n ++ chainBytes (licItems (keys.take i)) ++
        (licTlv key).bytes ++
        (chainBytes (licItems (keys.drop (i + 1))) ++ trailerBytes g' k ++ le 4 TLV_TAG_END) ++
        (junk ++ beyond).take (licTlv key).size ++ (junk ++ beyond).drop (licTlv key).size := by
      rw [hm, licItems_split hi, chainBytes_append, chainBytes_cons, partitionBytes]
      simp only [List.append_assoc, List.take_append_drop]
    rw [← hmem] at hsplit
    rw [deleted, hue, hwords]
    change closeGap (b ++ beyond) (licOffset keys i) _ _ = _
    rw [hsplit, hkeys, chainBytes_append, partitionBytes]
    simp only [List.append_assoc, List.take_append_drop]
  have hend : endPos (chainBytes (licItems keys)) =
      endPos (chainBytes (licItems (keys.eraseIdx i))) + (licTlv key).size := by
    rw [hkeys, licItems_split hi]
    simp only [chainBytes_append, chainBytes_cons, endPos, List.length_append, TlvItem.length_bytes]
    omega
  rw [ef10NvramBufferDeleteItem, bind_of_ret hinit, bind_of_ret (tlvDelete_ret hfit hc hf), hres]
  refine ⟨_, rfl, h.four, h.small, ?_, by omega,
    fun key' hk => h.keys_lt key' (List.mem_of_mem_eraseIdx hk), t, g, n, g', k, _, rfl,
    (quiet_zeros _).append hquiet (by rw [List.length_replicate]; exact (licTlv key).four_dvd_size)⟩
  simp only [List.length_append, length_partitionBytes, List.length_replicate]
  omega

end Holds

/-! ### Reading -/

/-- Start and length of the first `n` items. -/
def spans (keys : List Bytes) (n : ℕ) : List (ℕ × ℕ) :=
  (List.range n).map fun i => (licOffset keys i, (licTlv (keys.getD i [])).size)

theorem byteOffset_zero {p : ℕ} (h : p < 4294967296) : byteOffset p 0 = p := by
  rw [byteOffset, Nat.sub_zero, Nat.mod_eq_of_lt h]

namespace Holds

/-- The items of the buffer itself, with nothing behind it. -/
theorem item_self (h : Holds size b keys) {i : ℕ} {key : Bytes} (hi : keys[i]? = some key) :
    At b (licOffset keys i) (licTlv key).bytes := by
  have := h.item [] hi
  rwa [List.append_nil] at this

theorem fit_self (h : Holds size b keys) (offset : ℕ) :
    (licCursor size offset).limit + 4 ≤ b.length := by
  have := h.fit [] offset
  rwa [List.append_nil] at this

theorem offset_valid_self (h : Holds size b keys) {i : ℕ} (hi : i ≤ keys.length) :
    Valid b (licCursor size (licOffset keys i)) := by
  have := h.offset_valid [] hi
  rwa [List.append_nil] at this

theorem find_item_start (h : Holds size b keys) : ef10NvramBufferFindItemStart 0 size b = .ret 20 b := by
  have hfit := h.fit_self 0
  have hh := h.header_valid []
  have hE := h.end_some [] 20
  have hv := h.offset_valid_self (Nat.zero_le _)
  have h0 : licOffset keys 0 = 20 := by simp [licOffset, licItems]
  have hinit : tlvInitCursorFromSize 0 size b = .ret (startCursor 0 size) b :=
    tlvInitCursorFromSize_ret (by rw [h.length]; omega)
      (by have := hh.valid; rwa [List.append_nil] at this)
  rw [List.append_nil] at hh hE
  rw [h0] at hv
  have htag : tlvTag (startCursor 0 size) b = .ret TLV_TAG_PARTITION_HEADER b := by
    rw [hh.valid.tag hfit, startCursor_current, hh.tag]
  have hnext : nextPos b 0 = 20 := by
    obtain ⟨t, g, n, g', k, junk, hb, -⟩ := h.bytes
    rw [hb, nextPos_item (i := headerTlv t g n) (by rw [headerTlv_bytes]; exact partition_header),
      headerTlv_size]
  have hadv : tlvAdvance (startCursor 0 size) b = .ret (licCursor size 20) b := by
    have := tlvAdvance_ret (c := startCursor 0 size) hfit
      ⟨hh.valid, by simp, by rw [startCursor_current, hnext]; exact hv⟩
    rwa [startCursor_current, hnext] at this
  rw [ef10NvramBufferFindItemStart, bind_of_ret (orFail_of_ret EFAULT hinit), bind_of_ret htag,
    bind_of_ret (ensure_pos rfl), bind_of_ret (orFail_of_ret EINVAL hadv),
    bind_of_ret (tlvRequireEnd_ret (h.fit_self 20) hE)]
  rfl

theorem find_item_key (h : Holds size b keys) {i : ℕ} {key : Bytes} (hi : keys[i]? = some key) :
    ef10NvramBufferFindItem 0 size (licOffset keys i) b =
      .ret (some (licOffset keys i, (licTlv key).size)) b := by
  have hilt := (List.getElem?_eq_some_iff.mp hi).1
  have hfit := h.fit_self (licOffset keys i)
  have hv := h.offset_valid_self hilt.le
  have hat := h.item_self hi
  have hroom := h.room
  have hsmall := h.small
  have hle := licOffset_le keys (i + 1)
  have hsucc := licOffset_succ hi
  have htag : u32 b (licOffset keys i) = TLV_TAG_LICENSE := u32_item hat
  have hinit : tlvInitCursorAtOffset 0 size (licOffset keys i) b =
      .ret (licCursor size (licOffset keys i)) b := by
    rw [tlvInitCursorAtOffset, Nat.zero_add]
    exact tlvInitCursor_ret hfit hv
  rw [ef10NvramBufferFindItem, bind_of_ret (attempt_of_ret hinit)]
  refine iterate_inl b.length ?_
  have hnext := hv.next hfit
  rw [licCursor, at_current, nextPos_item hat] at hnext
  have htagr : tlvTag (licCursor size (licOffset keys i)) b = .ret TLV_TAG_LICENSE b := by
    rw [hv.tag hfit, licCursor, at_current, htag]
  rw [findItemStep, bind_of_ret htagr, if_neg (by decide), if_neg (by decide), licCursor,
    bind_of_ret hnext]
  simp only [endPos] at hroom
  simp only [at_current, at_block, startCursor_block]
  rw [byteOffset_zero (by omega), byteOffset, Nat.add_sub_cancel_left, Nat.mod_eq_of_lt (by omega)]
  rfl

theorem find_item_trailer (h : Holds size b keys) :
    ef10NvramBufferFindItem 0 size (licOffset keys keys.length) b = .ret none b := by
  have hfit := h.fit_self (licOffset keys keys.length)
  have hv := h.offset_valid_self le_rfl
  have hlen := h.length
  have hroom := h.room
  obtain ⟨htag, hnext, hend⟩ := h.trailer []
  rw [List.append_nil] at htag hnext hend
  have hinit : tlvInitCursorAtOffset 0 size (licOffset keys keys.length) b =
      .ret (licCursor size (licOffset keys keys.length)) b := by
    rw [tlvInitCursorAtOffset, Nat.zero_add]
    exact tlvInitCursor_ret hfit hv
  have hve : Valid b (licCursor size (endPos (chainBytes (licItems keys)))) :=
    valid_end hend (Nat.zero_le _) (by rw [startCursor_limit]; omega)
  have hadv : tlvAdvance (licCursor size (licOffset keys keys.length)) b =
      .ret (licCursor size (endPos (chainBytes (licItems keys)))) b := by
    have := tlvAdvance_ret (c := licCursor size (licOffset keys keys.length)) hfit
      ⟨hv, by simp [licCursor], by rw [licCursor, at_current, hnext]; exact hve⟩
    rwa [licCursor, at_current, hnext] at this
  have htagr : tlvTag (licCursor size (licOffset keys keys.length)) b =
      .ret TLV_TAG_PARTITION_TRAILER b := by
    rw [hv.tag hfit, licCursor, at_current, htag]
  have hendr : tlvTag (licCursor size (endPos (chainBytes (licItems keys)))) b = .ret TLV_TAG_END b := by
    rw [hve.tag (h.fit_self _), licCursor, at_current, hend]
  obtain ⟨n, hn⟩ : ∃ n, b.length = n + 1 := ⟨b.length - 1, by omega⟩
  rw [ef10NvramBufferFindItem, bind_of_ret (attempt_of_ret hinit)]
  change iterate findItemStep (b.length + 1) _ b = _
  have hstep : findItemStep (licCursor size (licOffset keys keys.length)) b =
      .ret (.inr (licCursor size (endPos (chainBytes (licItems keys))))) b := by
    rw [findItemStep, bind_of_ret htagr, if_neg (by decide), if_pos (Or.inr rfl),
      bind_of_ret (attempt_of_ret hadv)]
    rfl
  rw [iterate_inr b.length hstep, hn]
  refine iterate_inl n ?_
  rw [findItemStep, bind_of_ret hendr, if_pos rfl]
  rfl

/-- **Enumeration.**  The walk goes over the items of the keys in order, up to the trailer. -/
theorem walk (h : Holds size b keys) :
    walkItems size b = .ret (spans keys keys.length, licOffset keys keys.length) b := by
  have hloop : ∀ r n, n + r = keys.length → ∀ f, r < f →
      iterate (walkStep size) f (spans keys n, licOffset keys n) b =
        .ret (spans keys keys.length, licOffset keys keys.length) b := by
    intro r
    induction r with
    | zero =>
      intro n hn f hf
      obtain rfl : n = keys.length := hn
      obtain ⟨f, rfl⟩ := Nat.exists_eq_succ_of_ne_zero (Nat.ne_of_gt hf)
      refine iterate_inl f ?_
      rw [walkStep, bind_of_ret h.find_item_trailer]
      rfl
    | succ r ih =>
      intro n hn f hf
      obtain ⟨f, rfl⟩ := Nat.exists_eq_succ_of_ne_zero (show f ≠ 0 by omega)
      have hi : keys[n]? = some keys[n] := List.getElem?_eq_getElem (by omega)
      have hstep : walkStep size (spans keys n, licOffset keys n) b =
          .ret (.inr (spans keys (n + 1), licOffset keys (n + 1))) b := by
        rw [walkStep, bind_of_ret (h.find_item_key hi)]
        dsimp only
        rw [← licOffset_succ hi]
        have hs : spans keys (n + 1) = spans keys n ++ [(licOffset keys n, (licTlv keys[n]).size)] := by
          rw [spans, List.range_succ, List.map_append, spans]
          simp [List.getD_eq_getElem?_getD, hi]
        rw [hs]
        rfl
      rw [iterate_inr f hstep]
      exact ih (n + 1) (by omega) f (by omega)
  have h0 : licOffset keys 0 = 20 := by simp [licOffset, licItems]
  have hlen := h.length
  have hcount : keys.length ≤ (chainBytes (licItems keys)).length := by
    have hne : ∀ bs ∈ (licItems keys).map TlvItem.bytes, bs ≠ [] := by
      intro bs hbs
      obtain ⟨i, -, rfl⟩ := List.mem_map.mp hbs
      exact List.ne_nil_of_length_pos (by rw [TlvItem.length_bytes]; have := i.size_ge; omega)
    have := length_le_length_flatten hne
    simpa [licItems, chainBytes] using this
  have hroom := h.room
  simp only [endPos] at hroom
  rw [walkItems, bind_of_ret h.find_item_start, ← h0]
  exact hloop keys.length 0 (Nat.zero_add _) (b.length + 1) (by omega)

/-- **Reading a key.**  The bytes inserted come back, into any space at least as long as the item. -/
theorem get_item (h : Holds size b keys) {i : ℕ} {key : Bytes} (hi : keys[i]? = some key)
    {itemMaxSize : ℕ} (hmax : (licTlv key).size ≤ itemMaxSize) :
    ef10NvramBufferGetItem 0 size (licOffset keys i) (licTlv key).size itemMaxSize b = .ret key b := by
  have hilt := (List.getElem?_eq_some_iff.mp hi).1
  have hfit := h.fit_self (licOffset keys i)
  have hv := h.offset_valid_self hilt.le
  have hat := h.item_self hi
  have hkey := h.keys_lt key (List.mem_of_getElem? hi)
  have hbound := hat.bound (List.ne_nil_of_length_pos (by
    rw [TlvItem.length_bytes]; have := (licTlv key).size_ge; omega))
  rw [TlvItem.length_bytes] at hbound
  have hinit : tlvInitCursorAtOffset 0 size (licOffset keys i) b =
      .ret (licCursor size (licOffset keys i)) b := by
    rw [tlvInitCursorAtOffset, Nat.zero_add]
    exact tlvInitCursor_ret hfit hv
  have hl : (licTlv key).len = key.length := Nat.mod_eq_of_lt hkey
  have hlen : tlvLength (licCursor size (licOffset keys i)) b = .ret key.length b := by
    rw [hv.length hfit, licCursor, at_current, u32_item hat, if_neg (licTlv key).tag_ne,
      u32_item_len hat, hl]
  have hsz : key.length + 8 ≤ (licTlv key).size := by
    rw [TlvItem.size, hl, tlvDwordCount]
    omega
  have hval := slice_item hat
  rw [hl, licTlv_value hkey] at hval
  rw [ef10NvramBufferGetItem, bind_of_ret (ensure_pos (Nat.not_lt.mpr hmax)), bind_of_ret hinit,
    bind_of_ret hlen, bind_of_ret (ensure_pos (by omega)), licCursor, at_current,
    load_of_le (by omega), hval]

/-- **Finishing** makes the buffer one that validates. -/
theorem finish (h : Holds size b keys) : ∃ b', ef10NvramBufferFinish 0 size b = .ret () b' ∧
    ef10NvramBufferValidate 0 size b' = .ret () b' := by
  have hfit := h.fit_self 0
  have hlen := h.length
  have hroom := h.room
  have hsmall := h.small
  have hh := h.header_valid []
  have hE := h.end_some [] 0
  rw [List.append_nil] at hh hE
  obtain ⟨t, g, n, g', k, junk, hb, -⟩ := h.bytes
  have hmid := four_dvd_length_chainBytes (licItems keys)
  have hE4 : endPos (chainBytes (licItems keys)) = 36 + (chainBytes (licItems keys)).length := rfl
  obtain ⟨k', hrun, hsum⟩ := tlvUpdatePartitionLenAndCks_ret (t := t) (g := g) (n := n)
    (k := k)
    (c := ⟨0, 0, some (endPos (chainBytes (licItems keys)) : ℤ), (startCursor 0 size).limit⟩)
    rfl rfl hmid (by omega) (by
      intro g n g'
      have hl : (partitionBytes t g n (chainBytes (licItems keys)) g' k ++ junk).length = size := by
        rw [← hlen, hb, List.length_append, List.length_append, length_partitionBytes,
          length_partitionBytes]
      exact tlvValidateState_ret (by rw [hl]; rw [hlen] at hfit; exact hfit)
        (partition_header_valid
          (c := ⟨0, 0, some (endPos (chainBytes (licItems keys)) : ℤ), (startCursor 0 size).limit⟩)
          rfl (by rw [startCursor_limit]; omega)))
  rw [← hb] at hrun
  have hl' : ∀ g n g' k, (partitionBytes t g n (chainBytes (licItems keys)) g' k ++ junk).length = size := by
    intro g n g' k
    rw [← hlen, hb, List.length_append, List.length_append, length_partitionBytes,
      length_partitionBytes]
  refine ⟨_, ?_, ef10NvramBufferValidate_ret (by rw [hl']; omega) h.four
    (by rw [hl']; simp only [headerSize]; omega) (partition_accepted _
      (fun i hi => by rw [licItems_tag hi]; decide) rfl (by omega) (by omega) (by rw [hl']) hsum)⟩
  have hinit := tlvInitCursorFromSize_ret (m := b) (by omega) hh.valid
  have hreq : tlvRequireEnd (startCursor 0 size) b = .ret
      ⟨0, 0, some (endPos (chainBytes (licItems keys)) : ℤ), (startCursor 0 size).limit⟩ b :=
    tlvRequireEnd_ret hfit hE
  rw [ef10NvramBufferFinish, bind_of_ret (orFail_of_ret EFAULT hinit), bind_of_ret hreq]
  exact hrun

end Holds

/-! ### Runs -/

/-- The offsets a walk reports: the start of every item, and the trailer. -/
def insertOffsets (found : List (ℕ × ℕ) × ℕ) : List ℕ := found.1.map Prod.fst ++ [found.2]

/-- One edit of the buffer `b` and the abstract list `keys`.  Offsets are those the walk over the
buffer reports; what lies behind the buffer is arbitrary in every call, and not changed. -/
inductive LicStep (size : ℕ) : Bytes × List Bytes → Bytes × List Bytes → Prop
  | inserted {b b' beyond key : Bytes} {keys : List Bytes} {found : List (ℕ × ℕ) × ℕ}
      {i offset len : ℕ} :
      walkItems size b = .ret found b → (insertOffsets found)[i]? = some offset →
      key.length < 4294967296 → size ≤ beyond.length →
      ef10NvramBufferInsertItem 0 size offset key (b ++ beyond) = .ret len (b' ++ beyond) →
      LicStep size (b, keys) (b', keys.insertIdx i key)
  | notInserted {b b' beyond key : Bytes} {keys : List Bytes} {found : List (ℕ × ℕ) × ℕ}
      {i offset : ℕ} {e : Errno} :
      walkItems size b = .ret found b → (insertOffsets found)[i]? = some offset →
      key.length < 4294967296 → size ≤ beyond.length →
      ef10NvramBufferInsertItem 0 size offset key (b ++ beyond) = .err e (b' ++ beyond) →
      LicStep size (b, keys) (b', keys)
  | deleted {b b' beyond : Bytes} {keys : List Bytes} {found : List (ℕ × ℕ) × ℕ}
      {i offset len : ℕ} :
      walkItems size b = .ret found b → found.1[i]? = some (offset, len) → size ≤ beyond.length →
      ef10NvramBufferDeleteItem 0 size offset (b ++ beyond) = .ret () (b' ++ beyond) →
      LicStep size (b, keys) (b', keys.eraseIdx i)

/-- What the buffer functions report on a buffer that should hold `keys`. -/
structure Reports (size : ℕ) (b : Bytes) (keys : List Bytes) : Prop where
  /-- The walk finds the items in order and ends at the trailer; `get_item` returns the keys. -/
  enumerates : ∃ found, walkItems size b = .ret found b ∧ found.1.length = keys.length ∧
    u32 b found.2 = TLV_TAG_PARTITION_TRAILER ∧
    ∀ (i offset len : ℕ) (key : Bytes), found.1[i]? = some (offset, len) → keys[i]? = some key →
      ∀ itemMaxSize, len ≤ itemMaxSize →
        ef10NvramBufferGetItem 0 size offset len itemMaxSize b = .ret key b
  /-- An insertion succeeds, or fails and changes nothing. -/
  inserts : ∀ found, walkItems size b = .ret found b → ∀ offset ∈ insertOffsets found,
    ∀ key : Bytes, key.length < 4294967296 → ∀ beyond : Bytes, size ≤ beyond.length →
    (∃ e, ef10NvramBufferInsertItem 0 size offset key (b ++ beyond) = .err e (b ++ beyond)) ∨
    (∃ len b', ef10NvramBufferInsertItem 0 size offset key (b ++ beyond) = .ret len (b' ++ beyond) ∧
      b'.length = size)
  /-- A deletion succeeds. -/
  deletes : ∀ found, walkItems size b = .ret found b → ∀ offset len, (offset, len) ∈ found.1 →
    ∀ beyond : Bytes, size ≤ beyond.length →
    ∃ b', ef10NvramBufferDeleteItem 0 size offset (b ++ beyond) = .ret () (b' ++ beyond) ∧
      b'.length = size
  /-- Finishing makes the buffer valid. -/
  finishes : ∃ b', ef10NvramBufferFinish 0 size b = .ret () b' ∧
    ef10NvramBufferValidate 0 size b' = .ret () b'

theorem insertOffsets_walk (keys : List Bytes) {i offset : ℕ}
    (h : (insertOffsets (spans keys keys.length, licOffset keys keys.length))[i]? = some offset) :
    i ≤ keys.length ∧ offset = licOffset keys i := by
  have hl : ((spans keys keys.length).map Prod.fst).length = keys.length := by simp [spans]
  rw [insertOffsets] at h
  rcases Nat.lt_trichotomy i keys.length with hlt | rfl | hgt
  · rw [List.getElem?_append_left (by rw [hl]; exact hlt)] at h
    simp [spans, hlt] at h
    exact ⟨hlt.le, h.symm⟩
  · rw [List.getElem?_append_right (by rw [hl]), hl, Nat.sub_self] at h
    cases h
    exact ⟨le_rfl, rfl⟩
  · rw [List.getElem?_eq_none (by simp [spans]; omega)] at h
    cases h

theorem spans_walk (keys : List Bytes) {i offset len : ℕ}
    (h : (spans keys keys.length)[i]? = some (offset, len)) :
    ∃ key, keys[i]? = some key ∧ offset = licOffset keys i ∧ len = (licTlv key).size := by
  have hi : i < keys.length := by
    have := (List.getElem?_eq_some_iff.mp h).1
    simpa [spans] using this
  have hk : keys[i]? = some keys[i] := List.getElem?_eq_getElem hi
  simp [spans, List.getD_eq_getElem?_getD, hi] at h
  exact ⟨keys[i], hk, h.1.symm, h.2.symm⟩

theorem Holds.reports (h : Holds size b keys) : Reports size b keys where
  enumerates := by
    refine ⟨_, h.walk, by simp [spans], ?_, fun i offset len key hspan hkey max hmax => ?_⟩
    · have := (h.trailer []).1
      rwa [List.append_nil] at this
    · obtain ⟨key', hk, rfl, rfl⟩ := spans_walk keys hspan
      rw [hkey] at hk
      cases hk
      exact h.get_item hkey hmax
  inserts := by
    intro found hwalk offset hoff key hkey beyond hbeyond
    rw [h.walk] at hwalk
    cases hwalk
    obtain ⟨i, hi⟩ := List.mem_iff_getElem?.mp hoff
    obtain ⟨hile, rfl⟩ := insertOffsets_walk keys hi
    rcases h.insert beyond hile hkey with he | ⟨len, b', hr, hb'⟩
    · exact Or.inl he
    · exact Or.inr ⟨len, b', hr, hb'.length⟩
  deletes := by
    intro found hwalk offset len hmem beyond hbeyond
    rw [h.walk] at hwalk
    cases hwalk
    obtain ⟨i, hi⟩ := List.mem_iff_getElem?.mp hmem
    obtain ⟨key, hk, rfl, -⟩ := spans_walk keys hi
    obtain ⟨b', hr, hb'⟩ := h.delete hbeyond hk
    exact ⟨b', hr, hb'.length⟩
  finishes := h.finish

/-- **Step lemma.** -/
theorem Holds.step {s s' : Bytes × List Bytes} (h : Holds size s.1 s.2) (hs : LicStep size s s') :
    Holds size s'.1 s'.2 := by
  cases hs with
  | inserted hwalk hoff hkey hbeyond hrun =>
    rw [h.walk] at hwalk
    cases hwalk
    obtain ⟨hile, rfl⟩ := insertOffsets_walk _ hoff
    rcases h.insert _ hile hkey with ⟨e, he⟩ | ⟨len, b', hr, hb'⟩
    · rw [he] at hrun; cases hrun
    · rw [hr] at hrun
      injection hrun with _ hmem
      rw [← List.append_cancel_right hmem]
      exact hb'
  | notInserted hwalk hoff hkey hbeyond hrun =>
    rw [h.walk] at hwalk
    cases hwalk
    obtain ⟨hile, rfl⟩ := insertOffsets_walk _ hoff
    rcases h.insert _ hile hkey with ⟨e, he⟩ | ⟨len, b', hr, hb'⟩
    · rw [he] at hrun
      injection hrun with _ hmem
      rw [← List.append_cancel_right hmem]
      exact h
    · rw [hr] at hrun; cases hrun
  | deleted hwalk hspan hbeyond hrun =>
    rw [h.walk] at hwalk
    cases hwalk
    obtain ⟨key, hk, rfl, -⟩ := spans_walk _ hspan
    obtain ⟨b', hr, hb'⟩ := h.delete hbeyond hk
    rw [hr] at hrun
    injection hrun with _ hmem
    rw [← List.append_cancel_right hmem]
    exact hb'

theorem holds_created {partnType : ℕ} {b0 b1 : Bytes} (h4 : 4 ∣ size) (h32 : size < 4294967296)
    (hlen : b0.length = size) (hc : ef10NvramBufferCreate partnType 0 size b0 = .ret () b1) :
    Holds size b1 [] := by
  by_cases h44 : 44 ≤ size
  swap
  · obtain ⟨e, m', he⟩ := ef10NvramBufferCreate_err (t := partnType) (m := b0) (Nat.not_le.mp h44) h4
      hlen.ge
    rw [he] at hc; cases hc
  obtain ⟨k, hk⟩ := ef10NvramBufferCreate_ret (t := partnType) (m := b0) h44 h4 hlen.ge
  rw [hk] at hc
  cases hc
  have hd : b0.drop size = [] := List.drop_eq_nil_of_le hlen.le
  rw [hd, List.append_nil]
  refine ⟨h4, h32, ?_, by simp [licItems, endPos]; omega, by simp, partnType, 2, 40, 2, k, _, rfl,
    quiet_blank _⟩
  simp [endPos]
  omega

/-- **Licence editing.**  After creation, and after any sequence of insertions and deletions at offsets
that the walk reports, the buffer functions report the list of keys that the same insertions and
deletions make of the empty list. -/
theorem licence_editing {partnType : ℕ} {b0 b1 : Bytes} (h4 : 4 ∣ size) (h32 : size < 4294967296)
    (hlen : b0.length = size) (hc : ef10NvramBufferCreate partnType 0 size b0 = .ret () b1)
    (hreach : Reach (fun s => s = (b1, [])) (LicStep size) (b, keys)) : Reports size b keys := by
  have h : Holds size (b, keys).1 (b, keys).2 :=
    hreach.inv (fun s => Holds size s.1 s.2)
      (fun s hs => by rw [hs]; exact holds_created h4 h32 hlen hc) fun s s' hI hs => hI.step hs
  exact h.reports

/-- A fresh licence partition of 64 bytes. -/
def freshLicence : Bytes := ((ef10NvramBufferCreate 1 0 64 (List.replicate 64 0)).state?).getD []

/-- The same with one key of three bytes. -/
def oneKey : Bytes :=
  (((ef10NvramBufferInsertItem 0 64 20 [1, 2, 3] (freshLicence ++ List.replicate 64 0)).state?).getD
    []).take 64

theorem licence_editing_one : Reports 64 oneKey [[1, 2, 3]] := by
  have hc : ef10NvramBufferCreate 1 0 64 (List.replicate 64 0) = .ret () freshLicence := by
    decide +kernel
  have hw : walkItems 64 freshLicence = .ret ([], 20) freshLicence := by decide +kernel
  have hi : ef10NvramBufferInsertItem 0 64 20 [1, 2, 3] (freshLicence ++ List.replicate 64 0) =
      .ret 12 (oneKey ++ List.replicate 64 0) := by decide +kernel
  have hs : LicStep 64 (freshLicence, []) (oneKey, [[1, 2, 3]]) :=
    .inserted (i := 0) hw rfl (by decide) (by simp) hi
  exact licence_editing (by decide) (by decide) List.length_replicate hc
    (Reach.next (Reach.start rfl) hs)

end Sfxge.Tlv
