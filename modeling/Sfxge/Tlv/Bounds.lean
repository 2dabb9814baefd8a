import Sfxge.Tlv.Create

/-!
# Tlv.Bounds — which accesses of the buffer layer leave the block

The memory is exactly the block: `4 ∣ size` bytes of any content.  For each function of the buffer
layer the condition under which it reads or writes outside is stated on the content and the
arguments: a header item too short for its struct (`HeaderOnly`), and insertions, deletions and
modifications whose moves or writes reach over the ends of the block.
-/

namespace Sfxge.Tlv

open Lib Lib.Prog Errno

/-- A call of the buffer layer. -/
inductive BufOp
  | create (partnType : ℕ)
  | validate
  | findItemStart
  | findEnd
  | findItem (offset : ℕ)
  | getItem (offset length itemMaxSize : ℕ)
  | insertItem (offset : ℕ) (key : Bytes)
  | deleteItem (offset : ℕ)
  | finish
  | bufReadTlv (alloc : Bool) (tag : ℕ)
  | bufWriteTlv (tag : ℕ) (tagData : Bytes)

/-- The call on a buffer of `size` bytes at address 0. -/
def BufOp.run (size : ℕ) : BufOp → BufProg Unit
  | create partnType => ef10NvramBufferCreate partnType 0 size
  | validate => ef10NvramBufferValidate 0 size
  | findItemStart => do let _ ← ef10NvramBufferFindItemStart 0 size
  | findEnd => do let _ ← ef10NvramBufferFindEnd 0 size
  | findItem offset => do let _ ← ef10NvramBufferFindItem 0 size offset
  | getItem offset length itemMaxSize => do
    let _ ← ef10NvramBufferGetItem 0 size offset length itemMaxSize
  | insertItem offset key => do let _ ← ef10NvramBufferInsertItem 0 size offset key
  | deleteItem offset => ef10NvramBufferDeleteItem 0 size offset
  | finish => ef10NvramBufferFinish 0 size
  | bufReadTlv alloc tag => do let _ ← ef10NvramBufReadTlv alloc 0 size tag
  | bufWriteTlv tag tagData => do let _ ← ef10NvramBufWriteTlv 0 size tag tagData

/-- The cursor at `offset`. -/
def offsetCursor (size offset : ℕ) : TlvCursor := (startCursor 0 size).at offset

/-- The block is four words long and holds a header item of length 0. -/
def FourWords (m : Bytes) : Prop :=
  m.length = 16 ∧ u32 m 0 = TLV_TAG_PARTITION_HEADER ∧ u32 m 4 = 0

/-- Where `tlv_modify` or, for want of the tag, `tlv_insert` before the trailer leaves the block. -/
def UpdateFaults (m : Bytes) (c : TlvCursor) (tag : ℕ) (data : Bytes) : Prop :=
  match find? m c tag with
  | some p => CanModify m (c.at p) tag data ∧ ModifyFaults m (c.at p) tag data
  | none =>
    match find? m c TLV_TAG_PARTITION_TRAILER with
    | some p => CanInsert m (c.at p) tag data ∧ InsertFaults m (c.at p) tag data
    | none => False

/-- The calls that read or write outside the block `m`. -/
def BufOp.Unsafe (m : Bytes) : BufOp → Prop
  | validate => FourWords m
  | finish => FourWords m ∧ u32 m 8 = TLV_TAG_END
  | insertItem offset key =>
    CanInsert m (offsetCursor m.length offset) TLV_TAG_LICENSE key ∧
      InsertFaults m (offsetCursor m.length offset) TLV_TAG_LICENSE key
  | deleteItem offset =>
    CanDelete m (offsetCursor m.length offset) ∧ DeleteFaults m (offsetCursor m.length offset)
  | bufWriteTlv tag tagData =>
    HasHeader m 0 m.length ∧ UpdateFaults m (startCursor 0 m.length) tag tagData
  | _ => False

variable {m : Bytes}

theorem fit (m : Bytes) : 0 + m.length ≤ m.length := by omega

theorem start_fit (m : Bytes) : (startCursor 0 m.length).limit + 4 ≤ m.length :=
  startCursor_fit (fit m)

/-! ### The header -/

theorem headerOnly_iff (h4 : 4 ∣ m.length) : HeaderOnly m 0 m.length ↔ FourWords m := by
  constructor
  · rintro ⟨hh, hlt⟩
    have hs := hh.size_ge
    have hne : u32 m 0 ≠ TLV_TAG_END := by rw [hh.tag]; decide
    have h16 : m.length = 16 := by
      simp only [headerSize] at hlt
      omega
    have hn := hs.2.2
    rw [nextPos, if_neg hne, tlvDwordCount] at hn
    simp only [Nat.zero_add] at hn
    exact ⟨h16, hh.tag, by omega⟩
  · rintro ⟨h16, ht, hl⟩
    have hn : nextPos m 0 = 8 := by
      rw [nextPos, ht, Nat.zero_add, hl]
      rfl
    refine ⟨⟨⟨le_refl _, ?_, fun _ => ?_⟩, ht⟩, by simp only [headerSize]; omega⟩
    · simp only [startCursor_current, startCursor_limit]; omega
    · simp only [startCursor_current, startCursor_limit]
      rw [hn]
      omega

theorem header_or_fourWords (h4 : 4 ∣ m.length) (hh : HasHeader m 0 m.length) :
    0 + headerSize ≤ m.length ∨ FourWords m := by
  by_cases h : 0 + headerSize ≤ m.length
  · exact Or.inl h
  · exact Or.inr ((headerOnly_iff h4).mp ⟨hh, Nat.not_le.mp h⟩)

/-! ### Reading -/

/-- A program that begins with the cursor of the whole block. -/
theorem safe_start {α : Type} {f : TlvCursor → BufProg α}
    (h : Valid m (startCursor 0 m.length) → (f (startCursor 0 m.length)).Safe m) :
    (orFail (tlvInitCursorFromSize 0 m.length) EFAULT >>= f).Safe m := by
  refine safe_bind (safe_orFail _ (safe_tlvInitCursor (start_fit m))) fun c s hr => ?_
  obtain ⟨rfl, rfl, hv⟩ := tlvInitCursor_ret_inv (start_fit m) (orFail_ret_inv hr)
  exact h hv

/-- A program that begins with the cursor at an offset. -/
theorem safe_offset {α : Type} {f : TlvCursor → BufProg α} {offset : ℕ}
    (h : Valid m (offsetCursor m.length offset) → (f (offsetCursor m.length offset)).Safe m) :
    (tlvInitCursorAtOffset 0 m.length offset >>= f).Safe m := by
  rw [tlvInitCursorAtOffset, Nat.zero_add]
  refine safe_bind (safe_tlvInitCursor (start_fit m)) fun c s hr => ?_
  obtain ⟨rfl, rfl, hv⟩ := tlvInitCursor_ret_inv (start_fit m) hr
  exact h hv

theorem offset_fit (m : Bytes) (offset : ℕ) : (offsetCursor m.length offset).limit + 4 ≤ m.length :=
  start_fit m

theorem safe_tag {α : Type} {f : ℕ → BufProg α} {c : TlvCursor} (hfit : c.limit + 4 ≤ m.length)
    (hv : Valid m c) (h : (f (u32 m c.current)).Safe m) : (tlvTag c >>= f).Safe m := by
  rw [Safe, bind_of_ret (hv.tag hfit)]
  exact h

theorem safe_findItemStart : (ef10NvramBufferFindItemStart 0 m.length).Safe m := by
  refine safe_start fun hv => safe_tag (start_fit m) hv (safe_ensure_bind fun _ => ?_)
  refine safe_bind (safe_orFail _ (safe_tlvAdvance (start_fit m))) fun c s hr => ?_
  obtain ⟨rfl, rfl, -⟩ := tlvAdvance_ret_inv (start_fit m) (orFail_ret_inv hr)
  exact safe_bind (safe_tlvRequireEnd (start_fit s)) fun _ _ _ => safe_pure _ _

theorem safe_findEnd : (ef10NvramBufferFindEnd 0 m.length).Safe m := by
  refine safe_start fun hv => safe_bind (safe_tlvRequireEnd (start_fit m)) fun c s hr => ?_
  obtain ⟨e, -, rfl, rfl⟩ := tlvRequireEnd_ret_inv (start_fit m) hr
  exact safe_bind (safe_of_ret (tlvLastSegmentEnd_ret (start_fit s))) fun _ _ _ => safe_pure _ _

theorem safe_findItem (offset : ℕ) : (ef10NvramBufferFindItem 0 m.length offset).Safe m := by
  rw [ef10NvramBufferFindItem, tlvInitCursorAtOffset]
  refine safe_bind (safe_attempt (safe_tlvInitCursor (start_fit m))) fun r s hr => ?_
  rcases attempt_ret_inv hr with ⟨c, rfl, hc⟩ | ⟨e, rfl, he⟩
  swap
  · exact safe_pure _ _
  obtain ⟨rfl, rfl, hv⟩ := tlvInitCursor_ret_inv (start_fit m) hc
  -- every round stands on a valid item of the block
  refine safe_iterate (fun c s' => s' = s ∧ Valid s c ∧ c.limit + 4 ≤ s.length) ?_ ?_ _ _ _
    ⟨rfl, hv, start_fit s⟩
  · rintro c s' ⟨rfl, hv, hfit⟩
    rw [findItemStep]
    refine safe_tag hfit hv ?_
    split_ifs with h1 h2
    · exact safe_pure _ _
    · refine safe_bind (safe_attempt (safe_tlvAdvance hfit)) fun r s1 _ => ?_
      cases r <;> exact safe_pure _ _
    · exact safe_bind (safe_of_ret (hv.next hfit)) fun _ _ _ => safe_pure _ _
  · rintro c s' c' s1 ⟨rfl, hv, hfit⟩ hstep
    rw [findItemStep, bind_of_ret (hv.tag hfit)] at hstep
    split_ifs at hstep with h1 h2
    · cases hstep
    · obtain ⟨r, s2, hr, hk⟩ := bind_ret_inv hstep
      rcases attempt_ret_inv hr with ⟨c2, rfl, hc2⟩ | ⟨e, rfl, he⟩
      · cases hk
        obtain ⟨rfl, rfl, hadv⟩ := tlvAdvance_ret_inv hfit hc2
        exact ⟨rfl, hadv.valid_next, hfit⟩
      · cases hk
    · obtain ⟨n, s2, -, hk⟩ := bind_ret_inv hstep
      cases hk

/-- The value of the item at a valid cursor lies in the block. -/
theorem safe_value {c : TlvCursor} (hfit : c.limit + 4 ≤ m.length) (hv : Valid m c) :
    (load ((c.current + 8 : ℕ) : ℤ)
      (if u32 m c.current = TLV_TAG_END then 0 else u32 m (c.current + 4)) : BufProg Bytes).Safe m := by
  by_cases hend : u32 m c.current = TLV_TAG_END
  · rw [if_pos hend, Safe, load, if_pos (show InBlock m _ 0 from Or.inl rfl)]
    simp
  · have hb := (hv.bound_item hfit hend).2
    rw [nextPos, if_neg hend, tlvDwordCount] at hb
    rw [if_neg hend]
    exact safe_of_ret (load_of_le (by omega))

theorem safe_getItem (offset length itemMaxSize : ℕ) :
    (ef10NvramBufferGetItem 0 m.length offset length itemMaxSize).Safe m := by
  refine safe_ensure_bind fun _ => safe_offset fun hv => ?_
  rw [Safe, bind_of_ret (hv.length (offset_fit m offset))]
  exact safe_ensure_bind fun _ => safe_value (offset_fit m offset) hv

theorem safe_bufReadTlv (alloc : Bool) (tag : ℕ) :
    (ef10NvramBufReadTlv alloc 0 m.length tag).Safe m := by
  refine safe_ensure_bind fun _ => safe_start fun _ => ?_
  refine safe_bind (safe_orFail _ (safe_tlvFind (start_fit m) tag)) fun c s hr => ?_
  obtain ⟨q, hq, rfl, rfl⟩ := tlvFind_ret_inv (start_fit m) (orFail_ret_inv hr)
  have hv : Valid s ((startCursor 0 s.length).at q) := (find?_spec hq).1
  rw [Safe, bind_of_ret (hv.length (start_fit s))]
  by_cases h0 : (if u32 s ((startCursor 0 s.length).at q).current = TLV_TAG_END then 0
      else u32 s (((startCursor 0 s.length).at q).current + 4)) = 0
  · rw [if_pos h0]
    exact safe_pure _ _
  · rw [if_neg h0]
    exact safe_ensure_bind fun _ => safe_value (start_fit s) hv

/-! ### Inserting and deleting -/

theorem insertItem_fault {offset : ℕ} {key : Bytes}
    (h : (BufOp.insertItem offset key).Unsafe m) :
    ef10NvramBufferInsertItem 0 m.length offset key m = .fault := by
  have hinit : tlvInitCursorAtOffset 0 m.length offset m = .ret (offsetCursor m.length offset) m := by
    rw [tlvInitCursorAtOffset, Nat.zero_add]
    exact tlvInitCursor_ret (start_fit m) h.1.valid
  rw [ef10NvramBufferInsertItem, bind_of_ret hinit]
  exact bind_of_fault (tlvInsert_fault (offset_fit m offset) h.1 h.2)

theorem safe_insertItem {offset : ℕ} {key : Bytes} (h : ¬ (BufOp.insertItem offset key).Unsafe m) :
    (ef10NvramBufferInsertItem 0 m.length offset key).Safe m := by
  refine safe_offset fun _ => ?_
  have hfit := offset_fit m offset
  by_cases hc : CanInsert m (offsetCursor m.length offset) TLV_TAG_LICENSE key
  swap
  · obtain ⟨e, he⟩ := tlvInsert_err hfit hc
    exact safe_of_err (bind_of_err he)
  have hf : ¬ InsertFaults m (offsetCursor m.length offset) TLV_TAG_LICENSE key :=
    fun hf => h ⟨hc, hf⟩
  have hl := length_inserted hc (by omega) hf
  have hb : (offsetCursor m.length offset).current + (newItem TLV_TAG_LICENSE key).length ≤ m.length :=
    Nat.not_lt.mp fun hlt => hf (Or.inr hlt)
  rw [length_newItem] at hb
  rw [Safe, bind_of_ret (tlvInsert_ret hfit hc hf)]
  refine safe_bind (safe_of_ret (tlvNextItemPtr_ret ?_ fun _ => ?_)) fun _ _ _ => safe_pure _ _
  · rw [hl, shiftEnd_current]; omega
  · rw [hl, shiftEnd_current]; omega

theorem deleteItem_fault {offset : ℕ} (h : (BufOp.deleteItem offset).Unsafe m) :
    ef10NvramBufferDeleteItem 0 m.length offset m = .fault := by
  have hinit : tlvInitCursorAtOffset 0 m.length offset m = .ret (offsetCursor m.length offset) m := by
    rw [tlvInitCursorAtOffset, Nat.zero_add]
    exact tlvInitCursor_ret (start_fit m) h.1.valid
  have hdel := tlvDelete_run (offset_fit m offset) h.1
  rw [if_pos h.2] at hdel
  rw [ef10NvramBufferDeleteItem, bind_of_ret hinit]
  exact bind_of_fault hdel

theorem safe_deleteItem {offset : ℕ} (h : ¬ (BufOp.deleteItem offset).Unsafe m) :
    (ef10NvramBufferDeleteItem 0 m.length offset).Safe m := by
  refine safe_offset fun _ => ?_
  have hfit := offset_fit m offset
  by_cases hc : CanDelete m (offsetCursor m.length offset)
  · exact safe_bind (safe_of_ret (tlvDelete_ret hfit hc fun hf => h ⟨hc, hf⟩)) fun _ _ _ => safe_pure _ _
  · obtain ⟨e, he⟩ := tlvDelete_err hfit hc
    exact safe_of_err (bind_of_err he)

/-! ### Finishing -/

/-- In a block of four words the END tag can only be the third. -/
theorem fourWords_end {q : ℕ} (h : FourWords m) (hh : HasHeader m 0 m.length)
    (hq : find? m (startCursor 0 m.length) TLV_TAG_END = some q) :
    u32 m 8 = TLV_TAG_END := by
  obtain ⟨h16, ht, hl⟩ := h
  have hn : nextPos m 0 = 8 := by
    rw [nextPos, ht, Nat.zero_add, hl]
    rfl
  have h0 : Valid m ((startCursor 0 m.length).at 0) := hh.valid
  rw [find?, startCursor_block, seekFrom_eq (start_fit m), if_pos h0, if_neg (by rw [ht]; decide),
    if_neg (by simp), hn, seekFrom_eq (start_fit m)] at hq
  by_contra hne
  have hv : ¬ Valid m ((startCursor 0 m.length).at 8) := by
    intro hv
    have := (hv.item hne).1
    simp only [at_current, at_limit, startCursor_limit] at this
    omega
  rw [if_neg hv] at hq
  cases hq

theorem fourWords_find (h : FourWords m) (h8 : u32 m 8 = TLV_TAG_END) (hh : HasHeader m 0 m.length) :
    find? m (startCursor 0 m.length) TLV_TAG_END = some 8 := by
  obtain ⟨h16, ht, hl⟩ := h
  have hn : nextPos m 0 = 8 := by
    rw [nextPos, ht, Nat.zero_add, hl]
    rfl
  have h0 : Valid m ((startCursor 0 m.length).at 0) := hh.valid
  have h1 : Valid m ((startCursor 0 m.length).at 8) :=
    valid_end h8 (by simp) (by rw [startCursor_limit]; omega)
  rw [find?, startCursor_block, seekFrom_eq (start_fit m), if_pos h0, if_neg (by rw [ht]; decide),
    if_neg (by simp), hn, seekFrom_eq (start_fit m), if_pos h1, if_pos h8]

/-- The END tag is behind the header. -/
theorem end_ge {q : ℕ} (hh : HasHeader m 0 m.length)
    (hq : find? m (startCursor 0 m.length) TLV_TAG_END = some q) : 8 ≤ q := by
  have h0 : Valid m ((startCursor 0 m.length).at 0) := hh.valid
  rw [find?, startCursor_block, seekFrom_eq (start_fit m), if_pos h0,
    if_neg (by rw [hh.tag]; decide), if_neg (by simp)] at hq
  have h1 := (seek_spec hq).2.2
  have h2 := nextPos_ge m 0
  omega

/-- The update from its first write on, for an END tag at `q`. -/
theorem tlvUpdate_start {q : ℕ} (h64 : m.length < 18446744073709551616) (hh : HasHeader m 0 m.length)
    (hq : find? m (startCursor 0 m.length) TLV_TAG_END = some q) :
    tlvUpdatePartitionLenAndCks ⟨0, 0, some (q : ℤ), (startCursor 0 m.length).limit⟩ m =
      (do store ((0 + headerTotalLength : ℕ) : ℤ) (le 4 (q + 4))
          let generation ← loadU32 ((0 + headerGeneration : ℕ) : ℤ)
          store ((0 + headerGeneration : ℕ) : ℤ) (le 4 (generation + 1))
          store ((q - 8 : ℕ) : ℤ) (le 4 (generation + 1))
          let checksum ← loadU32 ((q - 4 : ℕ) : ℤ)
          let sum ← checksumTlvPartition 0 ⟨0, 0, some (q : ℤ), (startCursor 0 m.length).limit⟩
          store ((q - 4 : ℕ) : ℤ) (le 4 (checksum + (4294967296 - sum))) : BufProg Unit) m := by
  have hb := (find?_spec hq).1.bound (c := (startCursor 0 m.length).at q) (start_fit m)
  have hs := hh.size_ge
  have hq8 := end_ge hh hq
  simp only [at_current] at hb
  have hv : Valid m ⟨0, 0, some (q : ℤ), (startCursor 0 m.length).limit⟩ :=
    ⟨hh.valid.1, hh.valid.2, hh.valid.3⟩
  have hmod : (((q : ℤ) + 4 - (0 : ℕ)) % 18446744073709551616).toNat = q + 4 := by omega
  have hused := tlvBlockLengthUsed_ret
    (c := ⟨0, 0, some (q : ℤ), (startCursor 0 m.length).limit⟩) (start_fit m) hv rfl
  dsimp only at hused
  rw [hmod] at hused
  have htag : (loadU32 ((0 : ℕ) : ℤ) : BufProg ℕ) m = .ret TLV_TAG_PARTITION_HEADER m := by
    rw [loadU32_of_le (by omega), hh.tag]
  have hcast8 : ((0 : ℕ) : ℤ) + ((q + 4 : ℕ) : ℤ) - (trailerSize : ℤ) - 4 + (trailerGeneration : ℤ) =
      ((q - 8 : ℕ) : ℤ) := by
    simp only [trailerSize, trailerGeneration]; omega
  have hcast4 : ((0 : ℕ) : ℤ) + ((q + 4 : ℕ) : ℤ) - (trailerSize : ℤ) - 4 + (trailerChecksum : ℤ) =
      ((q - 4 : ℕ) : ℤ) := by
    simp only [trailerSize, trailerChecksum]; omega
  rw [tlvUpdatePartitionLenAndCks]
  dsimp only
  rw [bind_of_ret htag, bind_of_ret (ensure_pos rfl), bind_of_ret hused]
  dsimp only
  rw [bind_of_ret (ensure_pos (by omega)), hcast8, hcast4]

theorem checksum_ret {q : ℕ} {limit : ℤ} (hfit : limit + 4 ≤ m.length) (hq : q + 4 ≤ m.length)
    (h64 : m.length < 18446744073709551616) :
    ∃ w, checksumTlvPartition 0 ⟨0, 0, some (q : ℤ), limit⟩ m = .ret w m := by
  rcases tlvBlockLengthUsed_spec (c := ⟨0, 0, some (q : ℤ), limit⟩) hfit with ⟨e, -, he, hr⟩ | hr
  · cases he
    have hmod : (((q : ℤ) + 4 - (0 : ℕ)) % 18446744073709551616).toNat = q + 4 := by omega
    dsimp only at hr
    rw [hmod] at hr
    rw [checksumTlvPartition, bind_of_ret hr]
    exact ⟨_, sumU32_of_le (by omega)⟩
  · rw [checksumTlvPartition, bind_of_ret hr]
    exact ⟨_, sumU32_of_le (by omega)⟩

theorem finish_fault (h4 : 4 ∣ m.length) (h64 : m.length < 18446744073709551616)
    (h : BufOp.finish.Unsafe m) : ef10NvramBufferFinish 0 m.length m = .fault := by
  obtain ⟨hfw, h8⟩ := h
  have hh := ((headerOnly_iff h4).mpr hfw).1
  have hq := fourWords_find hfw h8 hh
  have hreq : tlvRequireEnd (startCursor 0 m.length) m =
      .ret ⟨0, 0, some ((8 : ℕ) : ℤ), (startCursor 0 m.length).limit⟩ m :=
    tlvRequireEnd_ret (start_fit m) (by
      change Option.map _ (find? m (startCursor 0 m.length) TLV_TAG_END) = _
      rw [hq]; rfl)
  rw [ef10NvramBufferFinish,
    bind_of_ret (orFail_of_ret EFAULT (tlvInitCursorFromSize_ret (fit m) hh.valid)), bind_of_ret hreq,
    tlvUpdate_start h64 hh hq]
  refine bind_of_fault (store_of_gt (List.ne_nil_of_length_pos (by simp)) ?_)
  rw [length_le, hfw.1]
  decide

theorem safe_finish (h4 : 4 ∣ m.length) (h64 : m.length < 18446744073709551616)
    (h : ¬ BufOp.finish.Unsafe m) : (ef10NvramBufferFinish 0 m.length).Safe m := by
  refine safe_start fun hv => safe_bind (safe_tlvRequireEnd (start_fit m)) fun c s hr => ?_
  obtain ⟨e, he, rfl, rfl⟩ := tlvRequireEnd_ret_inv (start_fit m) hr
  obtain ⟨q, hq, rfl⟩ := Option.map_eq_some_iff.mp
    (show Option.map _ (find? s (startCursor 0 s.length) TLV_TAG_END) = some e from he)
  have hb := (find?_spec hq).1.bound (c := (startCursor 0 s.length).at q) (start_fit s)
  simp only [at_current] at hb
  by_cases htag : u32 s 0 = TLV_TAG_PARTITION_HEADER
  swap
  · refine safe_of_err (e := EFAULT) (t := s) ?_
    rw [tlvUpdatePartitionLenAndCks]
    dsimp only [startCursor_block]
    rw [bind_of_ret (loadU32_of_le (by omega))]
    exact bind_of_err (ensure_neg htag)
  have hh : HasHeader s 0 s.length := ⟨hv, htag⟩
  have hq8 := end_ge hh hq
  have h20 : 0 + headerSize ≤ s.length := by
    rcases header_or_fourWords h4 hh with h20 | hfw
    · exact h20
    · exact absurd ⟨hfw, fourWords_end hfw hh hq⟩ h
  simp only [headerSize] at h20
  have hst := tlvUpdate_start h64 hh hq
  rw [Safe]
  dsimp only [startCursor_block, startCursor_current]
  rw [hst]
  refine safe_store_bind (by simp [headerTotalLength]; omega) fun m1 h1 => ?_
  refine safe_loadU32_bind (by rw [h1]; simp only [headerGeneration]; omega) ?_
  refine safe_store_bind (by rw [h1]; simp [headerGeneration]; omega) fun m2 h2 => ?_
  refine safe_store_bind (by rw [length_le]; omega) fun m3 h3 => ?_
  refine safe_loadU32_bind (by omega) ?_
  obtain ⟨w, hw⟩ := checksum_ret (m := m3) (q := q)
    (by rw [h3, h2, h1]; exact start_fit s) (by omega) (by omega)
  rw [Safe, bind_of_ret hw]
  exact safe_of_ret (store_of_le (by rw [length_le]; omega))

/-! ### Writing an item -/

/-- A found item of another tag than END that a block of four words can hold is its header. -/
theorem found_zero {tag p : ℕ} (h16 : m.length = 16) (hne : tag ≠ TLV_TAG_END)
    (hp : find? m (startCursor 0 m.length) tag = some p) : p = 0 := by
  obtain ⟨hv, ht, -⟩ := find?_spec hp
  have h1 := (hv.item (by rw [at_current, ht]; exact hne)).2
  have h2 := nextPos_ge m p
  simp only [at_current, at_limit, startCursor_limit] at h1
  omega

/-- What is left of the chain once its update has succeeded. -/
structure Updated (m : Bytes) (c' : TlvCursor) (m' : Bytes) : Prop where
  block : c'.block = 0
  limit : c'.limit = (startCursor 0 m.length).limit
  length : m'.length = m.length
  first : m.length = 16 → u32 m' 0 = TLV_TAG_PARTITION_HEADER

theorem updateChain_run {tag : ℕ} {data : Bytes} (hh : HasHeader m 0 m.length)
    (h : ¬ UpdateFaults m (startCursor 0 m.length) tag data) :
    (∃ e, updateChain (startCursor 0 m.length) tag data m = .err e m) ∨
    (∃ c' m', updateChain (startCursor 0 m.length) tag data m = .ret c' m' ∧ Updated m c' m') := by
  have hfit := start_fit m
  rw [updateChain]
  cases hp : find? m (startCursor 0 m.length) tag with
  | some p =>
    rw [bind_of_ret (attempt_of_ret (tlvFind_ret hfit hp))]
    dsimp only
    rw [UpdateFaults, hp] at h
    by_cases hc : CanModify m ((startCursor 0 m.length).at p) tag data
    swap
    · obtain ⟨e, he⟩ := tlvModify_err (c := (startCursor 0 m.length).at p) hfit hc
      exact Or.inl ⟨e, he⟩
    have hf : ¬ ModifyFaults m ((startCursor 0 m.length).at p) tag data := fun hf => h ⟨hc, hf⟩
    have hl := length_modified (c := (startCursor 0 m.length).at p) hfit hc hf
    refine Or.inr ⟨_, _, tlvModify_ret hfit hc hf, rfl, rfl, hl, fun h16 => ?_⟩
    have hp0 := found_zero h16 hc.tag_ne hp
    subst hp0
    have ht : tag = TLV_TAG_PARTITION_HEADER := by
      have := hc.tag_eq
      rw [at_current, hh.tag] at this
      exact this.symm
    simp only [ModifyFaults, not_or, Nat.not_lt] at hf
    have hlr := length_resized (c := (startCursor 0 m.length).at 0) hfit hc hf.1
    rw [modified, at_current, u32_newItem (by rw [hlr]; exact hf.2), ht]
    decide
  | none =>
    obtain ⟨e, he⟩ := tlvFind_err hfit hp
    rw [bind_of_ret (attempt_of_err he)]
    dsimp only
    rw [UpdateFaults, hp] at h
    cases hq : find? m (startCursor 0 m.length) TLV_TAG_PARTITION_TRAILER with
    | none =>
      obtain ⟨e, he⟩ := tlvFind_err hfit hq
      exact Or.inl ⟨_, bind_of_err (orFail_of_err EINVAL he)⟩
    | some p =>
      rw [bind_of_ret (orFail_of_ret EINVAL (tlvFind_ret hfit hq))]
      rw [hq] at h
      by_cases hc : CanInsert m ((startCursor 0 m.length).at p) tag data
      swap
      · obtain ⟨e, he⟩ := tlvInsert_err (c := (startCursor 0 m.length).at p) hfit hc
        exact Or.inl ⟨_, orFail_of_err EINVAL he⟩
      have hf : ¬ InsertFaults m ((startCursor 0 m.length).at p) tag data := fun hf => h ⟨hc, hf⟩
      have hl := length_inserted (c := (startCursor 0 m.length).at p) hc
        (by rw [at_limit, startCursor_limit]; omega) hf
      refine Or.inr ⟨_, _, orFail_of_ret EINVAL (tlvInsert_ret hfit hc hf), rfl, rfl, hl, fun h16 => ?_⟩
      -- the trailer would have to be the header
      have hp0 := found_zero h16 (by decide) hq
      have ht := (find?_spec hq).2.1
      rw [hp0, hh.tag] at ht
      exact absurd ht (by decide)

theorem updateChain_fault {tag : ℕ} {data : Bytes}
    (h : UpdateFaults m (startCursor 0 m.length) tag data) :
    updateChain (startCursor 0 m.length) tag data m = .fault := by
  have hfit := start_fit m
  rw [updateChain]
  cases hp : find? m (startCursor 0 m.length) tag with
  | some p =>
    rw [UpdateFaults, hp] at h
    rw [bind_of_ret (attempt_of_ret (tlvFind_ret hfit hp))]
    exact tlvModify_fault (c := (startCursor 0 m.length).at p) hfit h.1 h.2
  | none =>
    obtain ⟨e, he⟩ := tlvFind_err hfit hp
    rw [UpdateFaults, hp] at h
    rw [bind_of_ret (attempt_of_err he)]
    dsimp only
    cases hq : find? m (startCursor 0 m.length) TLV_TAG_PARTITION_TRAILER with
    | none => rw [hq] at h; exact h.elim
    | some p =>
      rw [hq] at h
      rw [bind_of_ret (orFail_of_ret EINVAL (tlvFind_ret hfit hq))]
      exact orFail_of_fault EINVAL (tlvInsert_fault (c := (startCursor 0 m.length).at p) hfit h.1 h.2)

theorem bufWriteTlv_fault {tag : ℕ} {data : Bytes} (h : (BufOp.bufWriteTlv tag data).Unsafe m) :
    ef10NvramBufWriteTlv 0 m.length tag data m = .fault := by
  obtain ⟨hh, hu⟩ := h
  have htag : tlvTag (startCursor 0 m.length) m = .ret (u32 m 0) m := hh.valid.tag (start_fit m)
  rw [ef10NvramBufWriteTlv,
    bind_of_ret (orFail_of_ret EFAULT (tlvInitCursorFromSize_ret (fit m) hh.valid)),
    bind_of_ret htag, bind_of_ret (ensure_pos hh.tag)]
  exact bind_of_fault (updateChain_fault hu)

theorem safe_bufWriteTlv {tag : ℕ} {data : Bytes} (h4 : 4 ∣ m.length)
    (h : ¬ (BufOp.bufWriteTlv tag data).Unsafe m) :
    (ef10NvramBufWriteTlv 0 m.length tag data).Safe m := by
  refine safe_start fun hv => safe_tag (start_fit m) hv (safe_ensure_bind fun htag => ?_)
  have hh : HasHeader m 0 m.length := ⟨hv, htag⟩
  have hsz := hh.size_ge
  rcases updateChain_run hh fun hu => h ⟨hh, hu⟩ with
    ⟨e, he⟩ | ⟨c', m', hr, hb, hlim, hlen, hfirst⟩
  · exact safe_of_err (bind_of_err he)
  rw [Safe, bind_of_ret hr]
  have hfit : c'.limit + 4 ≤ m'.length := by rw [hlim, hlen]; exact start_fit m
  refine safe_bind (safe_orFail _ (safe_tlvFind hfit _)) fun c2 s hr2 => ?_
  obtain ⟨q, hq, rfl, rfl⟩ := tlvFind_ret_inv hfit (orFail_ret_inv hr2)
  obtain ⟨hvq, htq, -⟩ := find?_spec hq
  have hne : u32 s q ≠ TLV_TAG_END := by rw [htq]; decide
  have h16 : q + 16 ≤ s.length := by
    have h1 := (hvq.item hne).2
    have h2 := nextPos_ge s q
    simp only [at_current, at_limit] at h1
    omega
  have h20 : 0 + headerSize ≤ s.length := by
    rw [hlen]
    rcases header_or_fourWords h4 hh with h20 | hfw
    · exact h20
    · have hq0 : q = 0 := by rw [hlen, hfw.1] at h16; omega
      rw [hq0, hfirst hfw.1] at htq
      exact absurd htq (by decide)
  simp only [headerSize] at h20
  -- from here on the writes go to header and trailer
  have htot : ∃ total c3, tlvBlockLengthUsed (c'.at q) s = .ret (total, c3) s := by
    rcases tlvBlockLengthUsed_spec (c := c'.at q) hfit with ⟨e, -, -, hu⟩ | hu
    · exact ⟨_, _, hu⟩
    · exact ⟨_, _, hu⟩
  obtain ⟨total, c3, hu⟩ := htot
  rw [Safe, bind_of_ret hu]
  refine safe_ensure_bind fun hle => ?_
  have hw := wordCount_le h4 (Nat.not_lt.mp hle)
  refine safe_loadU32_bind (by simp only [headerGeneration]; omega) ?_
  refine safe_store_bind (by simp [headerTotalLength]; omega) fun m1 h1 => ?_
  refine safe_store_bind (by rw [h1]; simp [headerGeneration]; omega) fun m2 h2 => ?_
  refine safe_store_bind (by rw [h2, h1]; simp [trailerGeneration]; omega) fun m3 h3 => ?_
  refine safe_store_bind (by rw [h3, h2, h1]; simp [trailerChecksum]; omega) fun m4 h4' => ?_
  refine safe_sumU32_bind (by omega) fun w => ?_
  refine safe_store_bind (by rw [h4', h3, h2, h1]; simp [trailerChecksum]; omega) fun m5 _ => ?_
  exact safe_pure _ _

/-! ### All calls -/

theorem safe_create (partnType : ℕ) (h4 : 4 ∣ m.length) :
    (ef10NvramBufferCreate partnType 0 m.length).Safe m := by
  by_cases h44 : 44 ≤ m.length
  · obtain ⟨k, hk⟩ := ef10NvramBufferCreate_ret (t := partnType) h44 h4 le_rfl
    exact safe_of_ret hk
  · obtain ⟨e, m', he⟩ := ef10NvramBufferCreate_err (t := partnType) (Nat.not_le.mp h44) h4 le_rfl
    exact safe_of_err he

theorem safe_validate (h4 : 4 ∣ m.length) (h : ¬ FourWords m) :
    (ef10NvramBufferValidate 0 m.length).Safe m := by
  have ho : ¬ HeaderOnly m 0 m.length := fun ho => h ((headerOnly_iff h4).mp ho)
  by_cases ha : ∃ q, Accepted m 0 m.length q
  · obtain ⟨q, hq⟩ := ha
    have h20 : 0 + headerSize ≤ m.length := (header_or_fourWords h4 hq.header).resolve_right h
    exact safe_of_ret (ef10NvramBufferValidate_ret (fit m) h4 h20 hq)
  · obtain ⟨e, he⟩ := ef10NvramBufferValidate_err (fit m) h4 ho (not_exists.mp ha)
    exact safe_of_err he

/-- A call whose result is dropped. -/
theorem safe_drop {α : Type} {p : BufProg α} (h : p.Safe m) : (p >>= fun _ => pure ()).Safe m :=
  safe_bind h fun _ s _ => safe_pure () s

/-- **Bounds of the buffer layer.**  For every content of a block of whole words, and all arguments,
a call reads or writes outside the block exactly when it is `Unsafe`. -/
theorem bounds_iff (op : BufOp) (h4 : 4 ∣ m.length) (h64 : m.length < 18446744073709551616) :
    op.run m.length m = .fault ↔ op.Unsafe m := by
  cases op with
  | create partnType => exact iff_of_false (safe_create partnType h4) not_false
  | validate =>
    refine ⟨fun h => ?_, fun h => ?_⟩
    · by_contra hn
      exact safe_validate h4 hn h
    · exact ef10NvramBufferValidate_fault (fit m) ((headerOnly_iff h4).mpr h)
  | findItemStart => exact iff_of_false (safe_drop safe_findItemStart) not_false
  | findEnd => exact iff_of_false (safe_drop safe_findEnd) not_false
  | findItem offset => exact iff_of_false (safe_drop (safe_findItem offset)) not_false
  | getItem offset length itemMaxSize =>
    exact iff_of_false (safe_drop (safe_getItem offset length itemMaxSize)) not_false
  | insertItem offset key =>
    refine ⟨fun h => ?_, fun h => bind_of_fault (insertItem_fault h)⟩
    by_contra hn
    exact safe_drop (safe_insertItem hn) h
  | deleteItem offset =>
    refine ⟨fun h => ?_, fun h => deleteItem_fault h⟩
    by_contra hn
    exact safe_deleteItem hn h
  | finish =>
    refine ⟨fun h => ?_, fun h => finish_fault h4 h64 h⟩
    by_contra hn
    exact safe_finish h4 h64 hn h
  | bufReadTlv alloc tag => exact iff_of_false (safe_drop (safe_bufReadTlv alloc tag)) not_false
  | bufWriteTlv tag tagData =>
    refine ⟨fun h => ?_, fun h => bind_of_fault (bufWriteTlv_fault h)⟩
    by_contra hn
    exact safe_drop (safe_bufWriteTlv h4 hn) h

/-- A block of four words with a header item of length 0. -/
def shortHeader : Bytes := le 4 TLV_TAG_PARTITION_HEADER ++ le 4 0 ++ le 4 TLV_TAG_END ++ le 4 0

theorem bounds_iff_shortHeader :
    BufOp.validate.run shortHeader.length shortHeader = .fault ↔ FourWords shortHeader :=
  bounds_iff .validate (by decide) (by decide)

/-- The total length is read behind this block. -/
theorem validate_reads_outside : ¬ ∀ (m : Bytes) (op : BufOp), 4 ∣ m.length →
    op.run m.length m ≠ .fault := by
  intro h
  exact h shortHeader .validate (by decide) rfl

end Sfxge.Tlv
