import Sfxge.Tlv.Walk

/-!
# Tlv.Edit — the editing cursor functions as functions of the memory

What `tlv_write`, `tlv_insert`, `tlv_delete` and `tlv_modify` do: when they leave with a return
code, when they touch a byte outside the memory, and the memory they leave otherwise.
-/

namespace Sfxge.Tlv

open Lib Lib.Prog Errno

/-- The bytes of the item that `tlv_write` writes. -/
def newItem (tag : ℕ) (data : Bytes) : Bytes :=
  let len := data.length % 4294967296
  le 4 tag ++ le 4 len ++ data.take len ++ List.replicate (4 * ((len + 3) / 4) - len) 0

theorem length_newItem (tag : ℕ) (data : Bytes) :
    (newItem tag data).length = 8 + 4 * ((data.length % 4294967296 + 3) / 4) := by
  have := Nat.mod_le data.length 4294967296
  simp only [newItem, List.length_append, length_le, List.length_take, List.length_replicate]
  omega

variable {m : Bytes} {c : TlvCursor} {tag : ℕ} {data : Bytes}

/-! ### `tlv_write` -/

theorem tlvWrite_ret (h : c.current + (newItem tag data).length ≤ m.length) :
    tlvWrite c tag data m = .ret () (splice m c.current (newItem tag data)) := by
  have hlen := length_newItem tag data
  rw [hlen] at h
  have hmod := Nat.mod_le data.length 4294967296
  have h1 : splice (splice m c.current (le 4 tag)) (c.current + 4)
      (le 4 (data.length % 4294967296)) =
        splice m c.current (le 4 tag ++ le 4 (data.length % 4294967296)) :=
    splice_splice_append (by simp; omega)
  rw [tlvWrite, bind_of_ret (store_of_le (by simp; omega)),
    bind_of_ret (store_of_le (by rw [length_splice] <;> simp <;> omega)), h1]
  simp only [newItem] at hlen ⊢
  generalize data.length % 4294967296 = len at *
  have hhead : (le 4 tag ++ le 4 len).length = 8 := by simp
  by_cases h0 : len > 0
  · rw [if_pos h0]
    have hl1 : (splice m c.current (le 4 tag ++ le 4 len)).length = m.length :=
      length_splice (by rw [hhead]; omega)
    rw [bind_of_ret (store_of_le (by rw [hl1]; simp; omega)),
      store_of_le (by rw [length_splice] <;> rw [hl1] <;> simp <;> omega)]
    congr 1
    -- the last word is zeroed first, then the value is written over it
    have hq : c.current + 8 + 4 * ((len - 1) / 4) + 4 =
        c.current + 8 + 4 * ((len + 3) / 4) := by omega
    have hdl : (data.take len).length = len := by simp; omega
    have hz : le 4 0 = List.replicate 4 0 := by decide
    rw [splice_over (by omega) (by rw [hdl]; omega) (by rw [hdl, length_le]; omega)
      (by rw [hl1]; omega), hz, List.drop_replicate, hdl]
    have h2 := @splice_splice_append m c.current (le 4 tag ++ le 4 len)
      (data.take len ++ List.replicate (4 - (c.current + 8 + len -
        (c.current + 8 + 4 * ((len - 1) / 4)))) 0) (by
          simp only [List.length_append, length_le, hdl, List.length_replicate]; omega)
    rw [hhead] at h2
    rw [h2, ← List.append_assoc]
    congr 3
    omega
  · have hz : len = 0 := by omega
    subst hz
    rw [if_neg h0]
    simp

/-- A value of 32-bit length fits the space made for it. -/
theorem length_newItem_of_lt (tag : ℕ) (h : data.length < 4294967296) :
    (newItem tag data).length = 4 * tlvDelta data.length := by
  rw [length_newItem, Nat.mod_eq_of_lt h, tlvDelta, Nat.mod_eq_of_lt]
  · simp only [tlvDwordCount]
    omega
  · simp only [tlvDwordCount]
    omega

theorem newItem_ne_nil (tag : ℕ) (data : Bytes) : newItem tag data ≠ [] := by
  intro h
  have := congrArg List.length h
  rw [length_newItem] at this
  simp at this

theorem tlvWrite_fault (h : m.length < c.current + (newItem tag data).length) :
    tlvWrite c tag data m = .fault := by
  rw [length_newItem] at h
  have hmod := Nat.mod_le data.length 4294967296
  rw [tlvWrite]
  by_cases h1 : c.current + 4 ≤ m.length
  swap
  · exact bind_of_fault (store_of_gt (List.ne_nil_of_length_pos (by simp)) (by simp; omega))
  rw [bind_of_ret (store_of_le (by simpa using h1))]
  have hl1 : (splice m c.current (le 4 tag)).length = m.length := length_splice (by simpa using h1)
  by_cases h2 : c.current + 8 ≤ m.length
  swap
  · exact bind_of_fault
      (store_of_gt (List.ne_nil_of_length_pos (by simp)) (by rw [hl1]; simp; omega))
  rw [bind_of_ret (store_of_le (by rw [hl1]; simp; omega))]
  have hl2 : (splice (splice m c.current (le 4 tag)) (c.current + 4)
      (le 4 (data.length % 4294967296))).length = m.length := by
    rw [length_splice (by rw [hl1]; simp; omega), hl1]
  -- the last word of the value is the first write behind the memory
  rw [if_pos (by omega)]
  exact bind_of_fault
    (store_of_gt (List.ne_nil_of_length_pos (by simp)) (by rw [hl2]; simp; omega))

/-! ### Moving the chain -/

/-- The position behind the END tag of the last segment. -/
def usedEnd (m : Bytes) (c : TlvCursor) : ℕ := lastSegmentEnd m c + 4

/-- Bytes of the whole words between `p` and `q`. -/
def span (p q : ℕ) : ℕ := 4 * ((q - p) / 4)

/-- The words from `p` up to `q` moved up by `d` bytes. -/
def openGap (m : Bytes) (p q d : ℕ) : Bytes := splice m (p + d) (slice m p (span p q))

/-- The chain up to `q` moved down over the `d` bytes at `p`, and the last `d` bytes zeroed. -/
def closeGap (m : Bytes) (p q d : ℕ) : Bytes :=
  splice (splice m p (slice m (p + d) (span p q))) (q - d) (List.replicate d 0)

theorem wordSpan_of_le {p q : ℕ} (h : p ≤ q) : wordSpan ((q : ℤ) - p) = (span p q : ℕ) := by
  simp only [wordSpan, span]
  omega

theorem wordSpan_neg {p q : ℕ} (h : q < p) : wordSpan ((q : ℤ) - p) < 0 := by
  simp only [wordSpan]
  omega

theorem span_le {p q : ℕ} (h : p ≤ q) : p + span p q ≤ q := by
  have := Nat.mul_div_le (q - p) 4
  simp only [span]
  omega

theorem length_openGap {p q d : ℕ} (h : p ≤ q) (hb : q + d ≤ m.length) :
    (openGap m p q d).length = m.length := by
  have hs := span_le h
  rw [openGap, length_splice]
  rw [length_slice (by omega)]
  omega

theorem segEnd_bound {limit : ℤ} (hfit : limit + 4 ≤ m.length) (n : ℕ) {last start : ℕ}
    (h : last + 4 ≤ m.length) : segEnd m limit n last start + 4 ≤ m.length := by
  induction n generalizing last start with
  | zero => exact h
  | succ n ih =>
    rw [segEnd]
    cases hf : find? m ⟨start, start, none, limit⟩ TLV_TAG_END with
    | none => exact h
    | some e => exact ih ((find?_spec hf).1.bound hfit)

theorem usedEnd_le (hfit : c.limit + 4 ≤ m.length) (hv : Valid m c) : usedEnd m c ≤ m.length := by
  have h1 := hv.block_le
  have h2 := hv.bound hfit
  exact segEnd_bound hfit _ (by omega)

/-- `memmove` of the words up to the end of the last segment, to a place where they fit. -/
theorem memmove_span {p q : ℕ} {dst : ℕ} (h : p ≤ q) (hs : q ≤ m.length)
    (hd : dst + span p q ≤ m.length) :
    (memmove dst p (wordSpan ((q : ℤ) - p)) : BufProg Unit) m =
      .ret () (splice m dst (slice m p (span p q))) := by
  have := span_le h
  rw [wordSpan_of_le h]
  exact memmove_of_le (by omega) hd

/-- Accesses of closing a gap of `d` bytes at `p` in a chain up to `q` that leave the memory: the
gap is behind the chain, the words moved down reach behind the memory, or the zeroed ones start
before it. -/
def GapFaults (m : Bytes) (p q d : ℕ) : Prop :=
  q < p ∨ (0 < span p q ∧ m.length < p + d + span p q) ∨ q < d

instance (m : Bytes) (p q d : ℕ) : Decidable (GapFaults m p q d) :=
  inferInstanceAs (Decidable (_ ∨ _))

theorem length_closeGap {p q d : ℕ} (hb : q ≤ m.length) (h : ¬ GapFaults m p q d) :
    (closeGap m p q d).length = m.length := by
  simp only [GapFaults, not_or, not_and, Nat.not_lt] at h
  obtain ⟨h1, h2, h3⟩ := h
  have hsp := span_le h1
  have hl : (splice m p (slice m (p + d) (span p q))).length = m.length := by
    by_cases h0 : span p q = 0
    · rw [h0]; simp
    · exact length_splice (by rw [length_slice (h2 (by omega))]; omega)
  rw [closeGap, length_splice (by rw [hl]; simp; omega), hl]

theorem closeGap_run {p q d : ℕ} {α : Type} (f : BufProg α) (hb : q ≤ m.length) (hd : 0 < d) :
    (do memmove p ((p + d : ℕ) : ℤ) (wordSpan ((q : ℤ) - p))
        memset ((q : ℤ) - d) 0 (d : ℕ)
        f : BufProg α) m =
      if GapFaults m p q d then .fault else f (closeGap m p q d) := by
  by_cases h1 : q < p
  · rw [if_pos (show GapFaults m p q d from Or.inl h1)]
    exact bind_of_fault (memmove_neg (wordSpan_neg h1))
  rw [Nat.not_lt] at h1
  have hsp := span_le h1
  by_cases h2 : 0 < span p q ∧ m.length < p + d + span p q
  · rw [if_pos (show GapFaults m p q d from Or.inr (Or.inl h2)), wordSpan_of_le h1]
    exact bind_of_fault (memmove_of_gt h2.1 h2.2)
  have hmove : (memmove p ((p + d : ℕ) : ℤ) (wordSpan ((q : ℤ) - p)) : BufProg Unit) m =
      .ret () (splice m p (slice m (p + d) (span p q))) := by
    rw [wordSpan_of_le h1]
    by_cases h0 : span p q = 0
    · rw [h0]; simpa using memmove_zero (m := m) (ε := Errno) (p : ℤ) ((p + d : ℕ) : ℤ)
    · exact memmove_of_le (by omega) (by omega)
  have hl : (splice m p (slice m (p + d) (span p q))).length = m.length := by
    by_cases h0 : span p q = 0
    · rw [h0]; simp
    · exact length_splice (by rw [length_slice (by omega)]; omega)
  rw [bind_of_ret hmove]
  by_cases h3 : q < d
  · rw [if_pos (show GapFaults m p q d from Or.inr (Or.inr h3))]
    exact bind_of_fault (memset_below hd (by omega))
  · rw [if_neg (by unfold GapFaults; omega)]
    have e : (q : ℤ) - d = ((q - d : ℕ) : ℤ) := by omega
    rw [e, bind_of_ret (memset_of_le (by rw [hl]; omega))]
    rfl

/-! ### `tlv_insert` -/

/-- `tlv_insert` gets past its checks. -/
structure CanInsert (m : Bytes) (c : TlvCursor) (tag : ℕ) (data : Bytes) : Prop where
  valid : Valid m c
  has_end : (endOf? m c).isSome
  tag_ne : tag ≠ TLV_TAG_END
  room : (usedEnd m c + 4 * tlvDelta data.length : ℤ) ≤ c.limit

/-- Then it writes outside the memory if the cursor is behind the last segment, or the item is
longer than its space (a length that does not fit in 32 bits). -/
def InsertFaults (m : Bytes) (c : TlvCursor) (tag : ℕ) (data : Bytes) : Prop :=
  usedEnd m c < c.current ∨ m.length < c.current + (newItem tag data).length

/-- The memory `tlv_insert` leaves. -/
def inserted (m : Bytes) (c : TlvCursor) (tag : ℕ) (data : Bytes) : Bytes :=
  splice (openGap m c.current (usedEnd m c) (4 * tlvDelta data.length)) c.current (newItem tag data)

/-- The end tag moved by `d` bytes. -/
def TlvCursor.shiftEnd (c : TlvCursor) (e : Option ℤ) (d : ℤ) : TlvCursor :=
  { c with endTag := e.map (· + d) }

theorem tlvInsert_err (hfit : c.limit + 4 ≤ m.length) (h : ¬ CanInsert m c tag data) :
    ∃ e, tlvInsert c tag data m = .err e m := by
  rw [tlvInsert]
  by_cases h1 : Valid m c
  swap
  · obtain ⟨e, he⟩ := tlvValidateState_err hfit h1
    exact ⟨e, bind_of_err he⟩
  rw [bind_of_ret (tlvValidateState_ret hfit h1)]
  cases h2 : endOf? m c with
  | none =>
    obtain ⟨e, he⟩ := tlvRequireEnd_err hfit h2
    exact ⟨e, bind_of_err he⟩
  | some e =>
    rw [bind_of_ret (tlvRequireEnd_ret hfit h2)]
    by_cases h3 : tag = TLV_TAG_END
    · exact ⟨_, bind_of_err (ensure_neg (not_not.mpr h3))⟩
    rw [bind_of_ret (ensure_pos h3),
      bind_of_ret (tlvLastSegmentEnd_ret (c := { c with endTag := some e }) hfit)]
    refine ⟨_, bind_of_err (ensure_neg fun h4 => h ⟨h1, by rw [h2]; rfl, h3, ?_⟩)⟩
    rw [usedEnd]
    push_cast
    exact h4

theorem tlvInsert_ok (hfit : c.limit + 4 ≤ m.length) (h : CanInsert m c tag data) :
    tlvInsert c tag data m =
      (do memmove ((c.current + 4 * tlvDelta data.length : ℕ) : ℤ) c.current
            (wordSpan ((usedEnd m c : ℤ) - c.current))
          tlvWrite c tag data
          pure (c.shiftEnd (endOf? m c) (4 * tlvDelta data.length)) : BufProg TlvCursor) m := by
  obtain ⟨h1, h2, h3, h4⟩ := h
  obtain ⟨e, he⟩ := Option.isSome_iff_exists.mp h2
  rw [tlvInsert, bind_of_ret (tlvValidateState_ret hfit h1), bind_of_ret (tlvRequireEnd_ret hfit he),
    bind_of_ret (ensure_pos h3),
    bind_of_ret (tlvLastSegmentEnd_ret (c := { c with endTag := some e }) hfit)]
  have h5 : (((lastSegmentEnd m { c with endTag := some e } : ℕ) : ℤ) + 4 +
      4 * tlvDelta data.length) ≤ c.limit := by
    rw [usedEnd] at h4
    push_cast at h4
    exact h4
  rw [bind_of_ret (ensure_pos h5), he]
  rfl

theorem tlvInsert_fault (hfit : c.limit + 4 ≤ m.length) (h : CanInsert m c tag data)
    (hf : InsertFaults m c tag data) : tlvInsert c tag data m = .fault := by
  rw [tlvInsert_ok hfit h]
  by_cases h1 : usedEnd m c < c.current
  · exact bind_of_fault (memmove_neg (wordSpan_neg h1))
  have h2 : m.length < c.current + (newItem tag data).length := hf.resolve_left h1
  have hroom := h.room
  rw [Nat.not_lt] at h1
  have hsp := span_le h1
  rw [bind_of_ret (memmove_span h1 (usedEnd_le hfit h.valid) (by omega))]
  have hl := length_openGap (m := m) (d := 4 * tlvDelta data.length) h1 (by omega)
  exact bind_of_fault (tlvWrite_fault (by rw [← openGap, hl]; exact h2))

theorem tlvInsert_ret (hfit : c.limit + 4 ≤ m.length) (h : CanInsert m c tag data)
    (hf : ¬ InsertFaults m c tag data) :
    tlvInsert c tag data m =
      .ret (c.shiftEnd (endOf? m c) (4 * tlvDelta data.length)) (inserted m c tag data) := by
  simp only [InsertFaults, not_or, Nat.not_lt] at hf
  obtain ⟨h1, h2⟩ := hf
  have hroom := h.room
  have hsp := span_le h1
  rw [tlvInsert_ok hfit h, bind_of_ret (memmove_span h1 (usedEnd_le hfit h.valid) (by omega))]
  have hl := length_openGap (m := m) (d := 4 * tlvDelta data.length) h1 (by omega)
  rw [bind_of_ret (tlvWrite_ret (by rw [← openGap, hl]; exact h2))]
  rfl

@[simp] theorem shiftEnd_block (e : Option ℤ) (d : ℤ) : (c.shiftEnd e d).block = c.block := rfl
@[simp] theorem shiftEnd_current (e : Option ℤ) (d : ℤ) : (c.shiftEnd e d).current = c.current := rfl
@[simp] theorem shiftEnd_limit (e : Option ℤ) (d : ℤ) : (c.shiftEnd e d).limit = c.limit := rfl

theorem length_inserted (h : CanInsert m c tag data) (hlim : c.limit ≤ m.length)
    (hf : ¬ InsertFaults m c tag data) : (inserted m c tag data).length = m.length := by
  simp only [InsertFaults, not_or, Nat.not_lt] at hf
  have hroom := h.room
  have hl := length_openGap (m := m) (d := 4 * tlvDelta data.length) hf.1 (by omega)
  rw [inserted, length_splice (by rw [hl]; exact hf.2), hl]

theorem u32_newItem {p : ℕ} (h : p + (newItem tag data).length ≤ m.length) :
    u32 (splice m p (newItem tag data)) p = tag % 4294967296 := by
  have hat := At.of_splice h
  simp only [newItem, List.append_assoc] at hat
  exact hat.left.u32_eq

/-! ### `tlv_delete` -/

/-- The length field of the item at the cursor, in words with tag and length. -/
def itemWords (m : Bytes) (c : TlvCursor) : ℕ := tlvDwordCount (u32 m (c.current + 4))

/-- `tlv_delete` gets past its checks. -/
structure CanDelete (m : Bytes) (c : TlvCursor) : Prop where
  valid : Valid m c
  not_end : u32 m c.current ≠ TLV_TAG_END
  has_end : (endOf? m c).isSome

def DeleteFaults (m : Bytes) (c : TlvCursor) : Prop :=
  GapFaults m c.current (usedEnd m c) (4 * itemWords m c)

/-- The memory `tlv_delete` leaves. -/
def deleted (m : Bytes) (c : TlvCursor) : Bytes :=
  closeGap m c.current (usedEnd m c) (4 * itemWords m c)

theorem itemWords_pos (m : Bytes) (c : TlvCursor) : 2 ≤ itemWords m c := by
  simp only [itemWords, tlvDwordCount]
  omega

theorem tlvDelete_err (hfit : c.limit + 4 ≤ m.length) (h : ¬ CanDelete m c) :
    ∃ e, tlvDelete c m = .err e m := by
  rw [tlvDelete]
  by_cases h1 : Valid m c
  swap
  · obtain ⟨e, he⟩ := tlvValidateState_err hfit h1
    exact ⟨e, bind_of_err he⟩
  rw [bind_of_ret (tlvValidateState_ret hfit h1), bind_of_ret (h1.tag hfit)]
  by_cases h2 : u32 m c.current = TLV_TAG_END
  · exact ⟨_, bind_of_err (ensure_neg (not_not.mpr h2))⟩
  rw [bind_of_ret (ensure_pos h2), bind_of_ret (h1.length hfit)]
  have hn : endOf? m c = none := by
    by_contra hs
    exact h ⟨h1, h2, Option.isSome_iff_ne_none.mpr hs⟩
  obtain ⟨e, he⟩ := tlvRequireEnd_err hfit hn
  exact ⟨e, bind_of_err he⟩

instance (m : Bytes) (c : TlvCursor) : Decidable (DeleteFaults m c) :=
  inferInstanceAs (Decidable (GapFaults _ _ _ _))

theorem tlvDelete_run (hfit : c.limit + 4 ≤ m.length) (h : CanDelete m c) :
    tlvDelete c m =
      if DeleteFaults m c then .fault
      else .ret (c.shiftEnd (endOf? m c) (-(4 * itemWords m c : ℕ))) (deleted m c) := by
  obtain ⟨h1, h2, h3⟩ := h
  obtain ⟨e, he⟩ := Option.isSome_iff_exists.mp h3
  have hw := itemWords_pos m c
  have hlse := tlvLastSegmentEnd_ret (c := { c with endTag := some e }) hfit
  rw [tlvDelete, bind_of_ret (tlvValidateState_ret hfit h1), bind_of_ret (h1.tag hfit),
    bind_of_ret (ensure_pos h2), bind_of_ret (h1.length hfit), if_neg h2,
    bind_of_ret (tlvRequireEnd_ret hfit he), bind_of_ret hlse, he]
  exact closeGap_run (d := 4 * itemWords m c)
    (pure { c with endTag := some (e - 4 * (itemWords m c : ℤ)) }) (usedEnd_le hfit h1) (by omega)

theorem tlvDelete_ret (hfit : c.limit + 4 ≤ m.length) (h : CanDelete m c)
    (hf : ¬ DeleteFaults m c) :
    tlvDelete c m =
      .ret (c.shiftEnd (endOf? m c) (-(4 * itemWords m c : ℕ))) (deleted m c) := by
  rw [tlvDelete_run hfit h, if_neg hf]

/-! ### `tlv_modify` -/

/-- `tlv_modify` gets past its checks. -/
structure CanModify (m : Bytes) (c : TlvCursor) (tag : ℕ) (data : Bytes) : Prop where
  valid : Valid m c
  tag_eq : u32 m c.current = tag
  tag_ne : tag ≠ TLV_TAG_END
  has_end : (endOf? m c).isSome
  room : itemWords m c < tlvDelta data.length →
    (usedEnd m c + 4 * (tlvDelta data.length - itemWords m c : ℕ) : ℤ) ≤ c.limit

/-- Making room for a value of another length leaves the memory. -/
def ResizeFaults (m : Bytes) (c : TlvCursor) (data : Bytes) : Prop :=
  let new := tlvDelta data.length
  let old := itemWords m c
  if old < new then usedEnd m c < c.current + 4 * old
  else if new < old then GapFaults m (c.current + 4 * new) (usedEnd m c) (4 * (old - new))
  else False

instance (m : Bytes) (c : TlvCursor) (data : Bytes) : Decidable (ResizeFaults m c data) :=
  inferInstanceAs (Decidable (if itemWords m c < tlvDelta data.length then usedEnd m c < _
    else if tlvDelta data.length < itemWords m c then GapFaults _ _ _ _ else False))

def ModifyFaults (m : Bytes) (c : TlvCursor) (tag : ℕ) (data : Bytes) : Prop :=
  ResizeFaults m c data ∨ m.length < c.current + (newItem tag data).length

/-- The memory with room for the new value. -/
def resized (m : Bytes) (c : TlvCursor) (data : Bytes) : Bytes :=
  let new := tlvDelta data.length
  let old := itemWords m c
  if old < new then openGap m (c.current + 4 * old) (usedEnd m c) (4 * (new - old))
  else if new < old then closeGap m (c.current + 4 * new) (usedEnd m c) (4 * (old - new))
  else m

/-- The memory `tlv_modify` leaves. -/
def modified (m : Bytes) (c : TlvCursor) (tag : ℕ) (data : Bytes) : Bytes :=
  splice (resized m c data) c.current (newItem tag data)

theorem resizeFaults_grow (h : itemWords m c < tlvDelta data.length) :
    ResizeFaults m c data ↔ usedEnd m c < c.current + 4 * itemWords m c := by
  rw [ResizeFaults, if_pos h]

theorem resizeFaults_shrink (h : tlvDelta data.length < itemWords m c) :
    ResizeFaults m c data ↔ GapFaults m (c.current + 4 * tlvDelta data.length) (usedEnd m c)
      (4 * (itemWords m c - tlvDelta data.length)) := by
  rw [ResizeFaults, if_neg (by omega), if_pos h]

theorem not_resizeFaults_same (h : itemWords m c = tlvDelta data.length) :
    ¬ ResizeFaults m c data := by
  rw [ResizeFaults, if_neg (by omega), if_neg (by omega)]
  exact not_false

theorem resized_grow (h : itemWords m c < tlvDelta data.length) :
    resized m c data = openGap m (c.current + 4 * itemWords m c) (usedEnd m c)
      (4 * (tlvDelta data.length - itemWords m c)) := by
  rw [resized, if_pos h]

theorem resized_shrink (h : tlvDelta data.length < itemWords m c) :
    resized m c data = closeGap m (c.current + 4 * tlvDelta data.length) (usedEnd m c)
      (4 * (itemWords m c - tlvDelta data.length)) := by
  rw [resized, if_neg (by omega), if_pos h]

theorem resized_same (h : itemWords m c = tlvDelta data.length) : resized m c data = m := by
  rw [resized, if_neg (by omega), if_neg (by omega)]

theorem length_resized (hfit : c.limit + 4 ≤ m.length) (h : CanModify m c tag data)
    (hf : ¬ ResizeFaults m c data) : (resized m c data).length = m.length := by
  have hue := usedEnd_le hfit h.valid
  rcases Nat.lt_trichotomy (itemWords m c) (tlvDelta data.length) with h1 | h1 | h1
  · rw [resizeFaults_grow h1] at hf
    have := h.room h1
    rw [resized_grow h1]
    exact length_openGap (Nat.not_lt.mp hf) (by omega)
  · rw [resized_same h1]
  · rw [resizeFaults_shrink h1] at hf
    rw [resized_shrink h1]
    exact length_closeGap hue hf

theorem tlvModifySpace_err {old new : ℕ} (h1 : old < new)
    (h2 : ¬ (usedEnd m c + 4 * (new - old : ℕ) : ℤ) ≤ c.limit) :
    tlvModifySpace c old new (lastSegmentEnd m c) m = .err ENOSPC m := by
  rw [tlvModifySpace, if_pos h1]
  refine bind_of_err (ensure_neg fun h => h2 ?_)
  rw [usedEnd]
  push_cast
  exact h

theorem tlvModifySpace_run (hfit : c.limit + 4 ≤ m.length) (hv : Valid m c)
    (hroom : itemWords m c < tlvDelta data.length →
      (usedEnd m c + 4 * (tlvDelta data.length - itemWords m c : ℕ) : ℤ) ≤ c.limit) :
    tlvModifySpace c (itemWords m c) (tlvDelta data.length) (lastSegmentEnd m c) m =
      if ResizeFaults m c data then .fault
      else .ret (c.shiftEnd c.endTag (4 * ((tlvDelta data.length : ℤ) - itemWords m c)))
        (resized m c data) := by
  have hue := usedEnd_le hfit hv
  rw [tlvModifySpace]
  rcases Nat.lt_trichotomy (itemWords m c) (tlvDelta data.length) with h | h | h
  · have hroom := hroom h
    have hr : ((lastSegmentEnd m c : ℤ) + 4 + 4 * (tlvDelta data.length - itemWords m c : ℕ)) ≤
        c.limit := by
      rw [usedEnd] at hroom
      push_cast at hroom
      exact hroom
    have hc : (4 * ((tlvDelta data.length : ℤ) - itemWords m c)) =
        4 * ((tlvDelta data.length - itemWords m c : ℕ) : ℤ) := by omega
    rw [if_pos h, bind_of_ret (ensure_pos hr), hc, resized_grow h]
    by_cases hf : ResizeFaults m c data
    · rw [if_pos hf]
      exact bind_of_fault (memmove_neg (wordSpan_neg ((resizeFaults_grow h).mp hf)))
    · rw [if_neg hf]
      rw [resizeFaults_grow h, Nat.not_lt] at hf
      have hsp := span_le hf
      exact bind_of_ret (memmove_span (q := usedEnd m c) hf hue (by omega))
  · have hz : c.shiftEnd c.endTag (4 * ((tlvDelta data.length : ℤ) - itemWords m c)) = c := by
      rw [h, sub_self, mul_zero]
      cases c with
      | mk block current endTag limit => cases endTag <;> simp [TlvCursor.shiftEnd]
    rw [if_neg (by omega), if_neg (by omega), if_neg (not_resizeFaults_same h), resized_same h, hz]
    rfl
  · have hc : (4 * ((tlvDelta data.length : ℤ) - itemWords m c)) =
        -(4 * ((itemWords m c - tlvDelta data.length : ℕ) : ℤ)) := by omega
    rw [if_neg (by omega), if_pos h, hc, resized_shrink h]
    simp only [resizeFaults_shrink h]
    exact closeGap_run (d := 4 * (itemWords m c - tlvDelta data.length))
      (pure (c.shiftEnd c.endTag (-(4 * ((itemWords m c - tlvDelta data.length : ℕ) : ℤ)))))
      hue (by omega)

/-- `tlv_modify` behind its first checks. -/
theorem tlvModify_checked (hfit : c.limit + 4 ≤ m.length) (h1 : Valid m c)
    (h2 : u32 m c.current = tag) (h3 : tag ≠ TLV_TAG_END) {e : ℤ} (he : endOf? m c = some e) :
    tlvModify c tag data m =
      (do let cursor ← tlvModifySpace { c with endTag := some e } (itemWords m c)
            (tlvDelta data.length) (lastSegmentEnd m { c with endTag := some e })
          tlvWrite cursor tag data
          pure cursor : BufProg TlvCursor) m := by
  have hlse := tlvLastSegmentEnd_ret (c := { c with endTag := some e }) hfit
  have hne : u32 m c.current ≠ TLV_TAG_END := h2 ▸ h3
  rw [tlvModify, bind_of_ret (tlvValidateState_ret hfit h1), bind_of_ret (h1.tag hfit),
    bind_of_ret (ensure_pos hne), bind_of_ret (h1.tag hfit), bind_of_ret (ensure_pos h2),
    bind_of_ret (h1.length hfit), if_neg hne, bind_of_ret (tlvRequireEnd_ret hfit he),
    bind_of_ret hlse]
  rfl

theorem tlvModify_err (hfit : c.limit + 4 ≤ m.length) (h : ¬ CanModify m c tag data) :
    ∃ e, tlvModify c tag data m = .err e m := by
  by_cases h1 : Valid m c
  swap
  · obtain ⟨e, he⟩ := tlvValidateState_err hfit h1
    exact ⟨e, bind_of_err he⟩
  by_cases h2 : u32 m c.current = TLV_TAG_END
  · rw [tlvModify, bind_of_ret (tlvValidateState_ret hfit h1), bind_of_ret (h1.tag hfit)]
    exact ⟨_, bind_of_err (ensure_neg (not_not.mpr h2))⟩
  by_cases h3 : u32 m c.current = tag
  swap
  · rw [tlvModify, bind_of_ret (tlvValidateState_ret hfit h1), bind_of_ret (h1.tag hfit),
      bind_of_ret (ensure_pos h2), bind_of_ret (h1.tag hfit)]
    exact ⟨_, bind_of_err (ensure_neg h3)⟩
  cases h4 : endOf? m c with
  | none =>
    rw [tlvModify, bind_of_ret (tlvValidateState_ret hfit h1), bind_of_ret (h1.tag hfit),
      bind_of_ret (ensure_pos h2), bind_of_ret (h1.tag hfit), bind_of_ret (ensure_pos h3),
      bind_of_ret (h1.length hfit)]
    obtain ⟨e, he⟩ := tlvRequireEnd_err hfit h4
    exact ⟨e, bind_of_err he⟩
  | some e =>
    rw [tlvModify_checked hfit h1 h3 (h3 ▸ h2) h4]
    have h5 : ¬ (itemWords m c < tlvDelta data.length →
        (usedEnd m c + 4 * (tlvDelta data.length - itemWords m c : ℕ) : ℤ) ≤ c.limit) :=
      fun h5 => h ⟨h1, h3, h3 ▸ h2, by rw [h4]; rfl, h5⟩
    rw [Classical.not_imp] at h5
    exact ⟨_, bind_of_err (tlvModifySpace_err (c := { c with endTag := some e }) h5.1 h5.2)⟩

theorem tlvModify_run (hfit : c.limit + 4 ≤ m.length) (h : CanModify m c tag data) :
    tlvModify c tag data m =
      if ResizeFaults m c data then .fault
      else (do tlvWrite c tag data
               pure (c.shiftEnd (endOf? m c) (4 * ((tlvDelta data.length : ℤ) - itemWords m c))) :
          BufProg TlvCursor) (resized m c data) := by
  obtain ⟨e, he⟩ := Option.isSome_iff_exists.mp h.has_end
  have hv : Valid m { c with endTag := some e } := ⟨h.valid.1, h.valid.2, h.valid.3⟩
  have hrun := tlvModifySpace_run (c := { c with endTag := some e }) hfit hv h.room
  rw [tlvModify_checked hfit h.valid h.tag_eq h.tag_ne he, he]
  by_cases hf : ResizeFaults m c data
  · rw [if_pos (show ResizeFaults m { c with endTag := some e } data from hf)] at hrun
    rw [if_pos hf]
    exact bind_of_fault hrun
  · rw [if_neg (show ¬ ResizeFaults m { c with endTag := some e } data from hf)] at hrun
    rw [if_neg hf]
    exact bind_of_ret hrun

theorem tlvModify_fault (hfit : c.limit + 4 ≤ m.length) (h : CanModify m c tag data)
    (hf : ModifyFaults m c tag data) : tlvModify c tag data m = .fault := by
  rw [tlvModify_run hfit h]
  by_cases h1 : ResizeFaults m c data
  · rw [if_pos h1]
  · rw [if_neg h1]
    refine bind_of_fault (tlvWrite_fault ?_)
    rw [length_resized hfit h h1]
    exact hf.resolve_left h1

theorem tlvModify_ret (hfit : c.limit + 4 ≤ m.length) (h : CanModify m c tag data)
    (hf : ¬ ModifyFaults m c tag data) :
    tlvModify c tag data m =
      .ret (c.shiftEnd (endOf? m c) (4 * ((tlvDelta data.length : ℤ) - itemWords m c)))
        (modified m c tag data) := by
  simp only [ModifyFaults, not_or, Nat.not_lt] at hf
  obtain ⟨h1, h2⟩ := hf
  rw [tlvModify_run hfit h, if_neg h1]
  exact bind_of_ret (tlvWrite_ret (by rw [length_resized hfit h h1]; exact h2))

theorem length_modified (hfit : c.limit + 4 ≤ m.length) (h : CanModify m c tag data)
    (hf : ¬ ModifyFaults m c tag data) : (modified m c tag data).length = m.length := by
  simp only [ModifyFaults, not_or, Nat.not_lt] at hf
  have hl := length_resized hfit h hf.1
  rw [modified, length_splice (by rw [hl]; exact hf.2), hl]

/-! ### A memory in pieces -/

section Pieces

variable {p q d : ℕ}

/-- Space for `item` is opened below `tail` and the item written there. -/
theorem openGap_split (pre tail item next rest : Bytes) (hp : p = pre.length)
    (hq : q = p + tail.length) (h4 : 4 ∣ tail.length) (hd : d = next.length) (hi : item.length = d) :
    splice (openGap (pre ++ tail ++ next ++ rest) p q d) p item = pre ++ item ++ tail ++ rest := by
  have hs : span p q = tail.length := by
    obtain ⟨w, hw⟩ := h4
    simp only [span]
    omega
  obtain ⟨gap, hg, he⟩ := splice_up hp rfl hd
  rw [openGap, hs, he, List.append_assoc (pre ++ gap), splice_mid hp (by omega)]
  simp only [List.append_assoc]

/-- `gone` is closed over by `tail`, and its space behind `tail` zeroed. -/
theorem closeGap_split (pre tail gone next rest : Bytes) (hp : p = pre.length)
    (hd : d = gone.length) (hq : q = p + d + tail.length)
    (hg4 : 4 ∣ gone.length) (ht4 : 4 ∣ tail.length) (ho : next.length = gone.length) :
    closeGap (pre ++ gone ++ tail ++ next ++ rest) p q d =
      pre ++ tail ++ List.replicate d 0 ++ next ++ rest := by
  have hs : span p q = (gone ++ tail).length := by
    obtain ⟨w, hw⟩ := ht4
    obtain ⟨v, hv⟩ := hg4
    rw [List.length_append]
    simp only [span]
    omega
  rw [closeGap, hs, splice_down hp hd ho rfl, List.append_assoc (pre ++ tail ++ next),
    splice_mid (by simp; omega) (by simp; omega)]
  simp only [List.append_assoc]

end Pieces

end Sfxge.Tlv
