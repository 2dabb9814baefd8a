import Sfxge.Lib.Run
import Sfxge.Tlv.Buffer

/-!
# Tlv.Walk — the cursor functions as functions of the memory

While a block is only read, what the cursor functions do depends on the memory alone.  `Valid` is
`tlv_validate_state`, `nextPos` is `tlv_next_item_ptr`, `seek` the walk of `tlv_find`, `segEnd` the
walk of `tlv_last_segment_end`.  As long as the last word of the block is in the memory
(`limit + 4 ≤ m.length`) none of them reads outside it, and none runs for ever.
-/

namespace Sfxge.Tlv

open Lib Lib.Prog Errno

/-- The position behind the item at `p`; an END tag counts as an item of length 0. -/
def nextPos (m : Bytes) (p : ℕ) : ℕ :=
  p + 4 * tlvDwordCount (if u32 m p = TLV_TAG_END then 0 else u32 m (p + 4))

theorem nextPos_ge (m : Bytes) (p : ℕ) : p + 8 ≤ nextPos m p := by
  simp only [nextPos, tlvDwordCount]
  omega

/-- What `tlv_validate_state` checks. -/
structure Valid (m : Bytes) (c : TlvCursor) : Prop where
  block_le : c.block ≤ c.current
  le_limit : (c.current : ℤ) ≤ c.limit
  item : u32 m c.current ≠ TLV_TAG_END →
    (c.current : ℤ) ≤ c.limit - 8 ∧ (nextPos m c.current : ℤ) ≤ c.limit - 4

theorem valid_iff (m : Bytes) (c : TlvCursor) :
    Valid m c ↔ c.block ≤ c.current ∧ (c.current : ℤ) ≤ c.limit ∧
      (u32 m c.current ≠ TLV_TAG_END →
        (c.current : ℤ) ≤ c.limit - 8 ∧ (nextPos m c.current : ℤ) ≤ c.limit - 4) :=
  ⟨fun h => ⟨h.1, h.2, h.3⟩, fun h => ⟨h.1, h.2.1, h.2.2⟩⟩

instance (m : Bytes) (c : TlvCursor) : Decidable (Valid m c) :=
  decidable_of_iff _ (valid_iff m c).symm

/-- The cursor moved to `p`. -/
def TlvCursor.at (c : TlvCursor) (p : ℕ) : TlvCursor := { c with current := p }

@[simp] theorem at_block (c : TlvCursor) (p : ℕ) : (c.at p).block = c.block := rfl
@[simp] theorem at_limit (c : TlvCursor) (p : ℕ) : (c.at p).limit = c.limit := rfl
@[simp] theorem at_endTag (c : TlvCursor) (p : ℕ) : (c.at p).endTag = c.endTag := rfl
@[simp] theorem at_current (c : TlvCursor) (p : ℕ) : (c.at p).current = p := rfl
@[simp] theorem at_at (c : TlvCursor) (p q : ℕ) : (c.at p).at q = c.at q := rfl
@[simp] theorem at_self (c : TlvCursor) : c.at c.current = c := rfl

/-! ### Reading at the cursor -/

variable {m : Bytes} {c : TlvCursor}

theorem tlvTag_ret (h : c.current + 4 ≤ m.length) : tlvTag c m = .ret (u32 m c.current) m :=
  loadU32_of_le h

theorem tlvLength_ret (h : c.current + 4 ≤ m.length)
    (h8 : u32 m c.current ≠ TLV_TAG_END → c.current + 8 ≤ m.length) :
    tlvLength c m =
      .ret (if u32 m c.current = TLV_TAG_END then 0 else u32 m (c.current + 4)) m := by
  rw [tlvLength, bind_of_ret (tlvTag_ret h)]
  by_cases hend : u32 m c.current = TLV_TAG_END
  · rw [if_pos hend, if_pos hend]; rfl
  · have := h8 hend
    rw [if_neg hend, if_neg hend]
    exact loadU32_of_le (by omega)

theorem tlvNextItemPtr_ret (h : c.current + 4 ≤ m.length)
    (h8 : u32 m c.current ≠ TLV_TAG_END → c.current + 8 ≤ m.length) :
    tlvNextItemPtr c m = .ret (nextPos m c.current) m := by
  rw [tlvNextItemPtr, bind_of_ret (tlvLength_ret h h8)]
  rfl

namespace Valid

theorem bound (h : Valid m c) (hfit : c.limit + 4 ≤ m.length) : c.current + 4 ≤ m.length := by
  have := h.le_limit
  omega

theorem bound_item (h : Valid m c) (hfit : c.limit + 4 ≤ m.length)
    (hend : u32 m c.current ≠ TLV_TAG_END) : c.current + 8 ≤ m.length ∧ nextPos m c.current ≤ m.length := by
  have := h.item hend
  omega

theorem tag (h : Valid m c) (hfit : c.limit + 4 ≤ m.length) :
    tlvTag c m = .ret (u32 m c.current) m := tlvTag_ret (h.bound hfit)

theorem length (h : Valid m c) (hfit : c.limit + 4 ≤ m.length) :
    tlvLength c m = .ret (if u32 m c.current = TLV_TAG_END then 0 else u32 m (c.current + 4)) m :=
  tlvLength_ret (h.bound hfit) fun hend => (h.bound_item hfit hend).1

theorem next (h : Valid m c) (hfit : c.limit + 4 ≤ m.length) :
    tlvNextItemPtr c m = .ret (nextPos m c.current) m :=
  tlvNextItemPtr_ret (h.bound hfit) fun hend => (h.bound_item hfit hend).1

end Valid

/-! ### Validating, advancing, rewinding -/

/-- A block may reach up to the end of the memory, as long as the word at the cursor is there. -/
theorem tlvValidateState_ret_of_bound (hlim : c.limit ≤ m.length) (hb : c.current + 4 ≤ m.length)
    (h : Valid m c) : tlvValidateState c m = .ret () m := by
  rw [tlvValidateState, bind_of_ret (ensure_pos h.block_le), bind_of_ret (ensure_pos h.le_limit),
    bind_of_ret (tlvTag_ret hb)]
  by_cases hend : u32 m c.current = TLV_TAG_END
  · rw [if_neg (by simpa using hend)]; rfl
  · have h3 := h.item hend
    rw [if_pos hend, bind_of_ret (ensure_pos h3.1),
      bind_of_ret (tlvNextItemPtr_ret hb fun _ => by omega)]
    exact ensure_pos h3.2

theorem tlvValidateState_err_of_bound (hlim : c.limit ≤ m.length)
    (hb : (c.current : ℤ) ≤ c.limit → c.current + 4 ≤ m.length) (h : ¬ Valid m c) :
    ∃ e, tlvValidateState c m = .err e m := by
  rw [tlvValidateState]
  by_cases h1 : c.block ≤ c.current
  swap
  · exact ⟨_, bind_of_err (ensure_neg h1)⟩
  rw [bind_of_ret (ensure_pos h1)]
  by_cases h2 : (c.current : ℤ) ≤ c.limit
  swap
  · exact ⟨_, bind_of_err (ensure_neg h2)⟩
  have hb := hb h2
  rw [bind_of_ret (ensure_pos h2), bind_of_ret (tlvTag_ret hb)]
  by_cases hend : u32 m c.current = TLV_TAG_END
  · exact absurd ⟨h1, h2, fun h' => absurd hend h'⟩ h
  rw [if_pos hend]
  by_cases h3 : (c.current : ℤ) ≤ c.limit - 8
  · rw [bind_of_ret (ensure_pos h3), bind_of_ret (tlvNextItemPtr_ret hb fun _ => by omega)]
    have h4 : ¬ (nextPos m c.current : ℤ) ≤ c.limit - 4 :=
      fun h4 => h ⟨h1, h2, fun _ => ⟨h3, h4⟩⟩
    exact ⟨_, ensure_neg h4⟩
  · exact ⟨_, bind_of_err (ensure_neg h3)⟩

theorem tlvValidateState_ret (hfit : c.limit + 4 ≤ m.length) (h : Valid m c) :
    tlvValidateState c m = .ret () m :=
  tlvValidateState_ret_of_bound (by omega) (h.bound hfit) h

theorem tlvValidateState_err (hfit : c.limit + 4 ≤ m.length) (h : ¬ Valid m c) :
    ∃ e, tlvValidateState c m = .err e m :=
  tlvValidateState_err_of_bound (by omega) (by omega) h

theorem tlvValidateState_ret_iff (hfit : c.limit + 4 ≤ m.length) {m' : Bytes} {u : Unit} :
    tlvValidateState c m = .ret u m' ↔ Valid m c ∧ m' = m := by
  constructor
  · intro h
    by_cases hv : Valid m c
    · rw [tlvValidateState_ret hfit hv] at h; cases h; exact ⟨hv, rfl⟩
    · obtain ⟨e, he⟩ := tlvValidateState_err hfit hv
      rw [he] at h; cases h
  · rintro ⟨hv, rfl⟩; exact tlvValidateState_ret hfit hv

/-- `c` may advance, and to a valid position. -/
structure CanAdvance (m : Bytes) (c : TlvCursor) : Prop where
  valid : Valid m c
  ne_end : c.endTag ≠ some (c.current : ℤ)
  valid_next : Valid m (c.at (nextPos m c.current))

theorem tlvAdvance_ret_of_bound (hlim : c.limit ≤ m.length) (hb : c.current + 4 ≤ m.length)
    (hn : nextPos m c.current + 4 ≤ m.length) (h : CanAdvance m c) :
    tlvAdvance c m = .ret (c.at (nextPos m c.current)) m := by
  have hnext : tlvNextItemPtr c m = .ret (nextPos m c.current) m :=
    tlvNextItemPtr_ret hb fun hend => by have := h.valid.item hend; omega
  rw [tlvAdvance, bind_of_ret (tlvValidateState_ret_of_bound hlim hb h.valid),
    bind_of_ret (ensure_pos h.ne_end), bind_of_ret hnext]
  exact bind_of_ret
    (tlvValidateState_ret_of_bound (c := c.at (nextPos m c.current)) hlim hn h.valid_next)

theorem tlvAdvance_err_of_bound (hlim : c.limit ≤ m.length)
    (hb : (c.current : ℤ) ≤ c.limit → c.current + 4 ≤ m.length)
    (hn : Valid m c → (nextPos m c.current : ℤ) ≤ c.limit → nextPos m c.current + 4 ≤ m.length)
    (h : ¬ CanAdvance m c) : ∃ e, tlvAdvance c m = .err e m := by
  rw [tlvAdvance]
  by_cases h1 : Valid m c
  swap
  · obtain ⟨e, he⟩ := tlvValidateState_err_of_bound hlim hb h1
    exact ⟨e, bind_of_err he⟩
  have hb := hb h1.le_limit
  rw [bind_of_ret (tlvValidateState_ret_of_bound hlim hb h1)]
  by_cases h2 : c.endTag ≠ some (c.current : ℤ)
  · have hnext : tlvNextItemPtr c m = .ret (nextPos m c.current) m :=
      tlvNextItemPtr_ret hb fun hend => by have := h1.item hend; omega
    rw [bind_of_ret (ensure_pos h2), bind_of_ret hnext]
    have h3 : ¬ Valid m (c.at (nextPos m c.current)) := fun h3 => h ⟨h1, h2, h3⟩
    obtain ⟨e, he⟩ := tlvValidateState_err_of_bound (c := c.at (nextPos m c.current)) hlim
      (hn h1) h3
    exact ⟨e, bind_of_err he⟩
  · exact ⟨_, bind_of_err (ensure_neg h2)⟩

theorem tlvAdvance_ret (hfit : c.limit + 4 ≤ m.length) (h : CanAdvance m c) :
    tlvAdvance c m = .ret (c.at (nextPos m c.current)) m :=
  tlvAdvance_ret_of_bound (by omega) (h.valid.bound hfit)
    (h.valid_next.bound (c := c.at (nextPos m c.current)) hfit) h

theorem tlvAdvance_err (hfit : c.limit + 4 ≤ m.length) (h : ¬ CanAdvance m c) :
    ∃ e, tlvAdvance c m = .err e m :=
  tlvAdvance_err_of_bound (by omega) (by omega) (by omega) h

theorem tlvInitCursor_ret {block current : ℕ} {limit : ℤ} (hfit : limit + 4 ≤ m.length)
    (h : Valid m ⟨block, current, none, limit⟩) :
    tlvInitCursor block limit current m = .ret ⟨block, current, none, limit⟩ m := by
  have := tlvValidateState_ret (c := ⟨block, current, none, limit⟩) hfit h
  rw [tlvInitCursor, bind_of_ret this]; rfl

theorem tlvInitCursor_err {block current : ℕ} {limit : ℤ} (hfit : limit + 4 ≤ m.length)
    (h : ¬ Valid m ⟨block, current, none, limit⟩) :
    ∃ e, tlvInitCursor block limit current m = .err e m := by
  obtain ⟨e, he⟩ := tlvValidateState_err (c := ⟨block, current, none, limit⟩) hfit h
  exact ⟨e, by rw [tlvInitCursor, bind_of_err he]⟩

/-! ### Finding a tag -/

/-- The position `tlv_find` reaches from `p`, in at most `n` rounds. -/
def seek (m : Bytes) (c : TlvCursor) (tag : ℕ) : (n p : ℕ) → Option ℕ
  | 0, _ => none
  | n + 1, p =>
    if Valid m (c.at p) then
      if u32 m p = tag then some p
      else if c.endTag = some (p : ℤ) then none
      else seek m c tag n (nextPos m p)
    else none

/-- The position `tlv_find` would reach from `p`. -/
def seekFrom (m : Bytes) (c : TlvCursor) (tag p : ℕ) : Option ℕ := seek m c tag (m.length + 1) p

/-- The position `tlv_find` reaches, if it finds the tag. -/
def find? (m : Bytes) (c : TlvCursor) (tag : ℕ) : Option ℕ := seekFrom m c tag c.block

/-- Either the word behind the block is in the memory, or the walk looks for the END tag and so
never goes past one. -/
theorem iterate_findStep {tag : ℕ} (hlim : c.limit ≤ m.length)
    (hfit : c.limit + 4 ≤ m.length ∨ tag = TLV_TAG_END) (n p : ℕ) (hv : Valid m (c.at p))
    (hp : p + 4 ≤ m.length) (hn : m.length < n + p) :
    (∃ q, seek m c tag n p = some q ∧ iterate (tlvFindStep tag) n (c.at p) m = .ret (c.at q) m) ∨
    (seek m c tag n p = none ∧ ∃ e, iterate (tlvFindStep tag) n (c.at p) m = .err e m) := by
  induction n generalizing p with
  | zero => omega
  | succ n ih =>
    have htag : tlvTag (c.at p) m = .ret (u32 m p) m := tlvTag_ret (c := c.at p) hp
    rw [seek, if_pos hv]
    by_cases ht : u32 m p = tag
    · left
      refine ⟨p, by rw [if_pos ht], iterate_inl n ?_⟩
      rw [tlvFindStep, bind_of_ret htag, if_pos ht]; rfl
    rw [if_neg ht]
    have hstep : tlvFindStep tag (c.at p) m =
        (tlvAdvance (c.at p) >>= fun cursor => pure (.inr cursor)) m := by
      rw [tlvFindStep, bind_of_ret htag, if_neg ht]
    have hnext : (nextPos m p : ℤ) ≤ c.limit → nextPos m p + 4 ≤ m.length := by
      intro hle
      rcases hfit with hfit | rfl
      · omega
      · have := (hv.item ht).2
        simp only [at_current, at_limit] at this
        omega
    by_cases hadv : CanAdvance m (c.at p)
    · have hle : (nextPos m p : ℤ) ≤ c.limit := hadv.valid_next.le_limit
      have hr : tlvFindStep tag (c.at p) m = .ret (.inr (c.at (nextPos m p))) m := by
        rw [hstep, bind_of_ret (tlvAdvance_ret_of_bound (c := c.at p) hlim hp (hnext hle) hadv)]; rfl
      have hge := nextPos_ge m p
      have hne : c.endTag ≠ some (p : ℤ) := hadv.ne_end
      rw [if_neg hne, iterate_inr n hr]
      exact ih (nextPos m p) hadv.valid_next (hnext hle) (by omega)
    · right
      obtain ⟨e, he⟩ := tlvAdvance_err_of_bound (c := c.at p) hlim (fun _ => hp)
        (fun _ => hnext) hadv
      refine ⟨?_, e, iterate_err n (by rw [hstep, bind_of_err he])⟩
      by_cases hend : c.endTag = some (p : ℤ)
      · rw [if_pos hend]
      · rw [if_neg hend]
        have hnv : ¬ Valid m (c.at (nextPos m p)) := fun h => hadv ⟨hv, hend, h⟩
        cases n with
        | zero => rfl
        | succ n => rw [seek, if_neg hnv]

theorem tlvFind_spec_of_bound {tag : ℕ} (hlim : c.limit ≤ m.length)
    (hfit : c.limit + 4 ≤ m.length ∨ tag = TLV_TAG_END)
    (hb : (c.block : ℤ) ≤ c.limit → c.block + 4 ≤ m.length) :
    (∃ q, find? m c tag = some q ∧ tlvFind c tag m = .ret (c.at q) m) ∨
    (find? m c tag = none ∧ ∃ e, tlvFind c tag m = .err e m) := by
  by_cases hv : Valid m (c.at c.block)
  · have hbb := hb hv.le_limit
    have hrew : tlvRewind c m = .ret (c.at c.block) m := by
      rw [tlvRewind]
      exact bind_of_ret (tlvValidateState_ret_of_bound (c := c.at c.block) hlim hbb hv)
    have hrun : tlvFind c tag m = iterate (tlvFindStep tag) (m.length + 1) (c.at c.block) m := by
      rw [tlvFind, bind_of_ret hrew]; rfl
    rw [hrun]
    exact iterate_findStep hlim hfit _ _ hv hbb (by omega)
  · right
    obtain ⟨e, he⟩ := tlvValidateState_err_of_bound (c := c.at c.block) hlim hb hv
    have hrew : tlvRewind c m = .err e m := by
      rw [tlvRewind]
      exact bind_of_err he
    refine ⟨by rw [find?, seekFrom, seek, if_neg hv], e, ?_⟩
    rw [tlvFind, bind_of_err hrew]

theorem tlvFind_spec (hfit : c.limit + 4 ≤ m.length) (tag : ℕ) :
    (∃ q, find? m c tag = some q ∧ tlvFind c tag m = .ret (c.at q) m) ∨
    (find? m c tag = none ∧ ∃ e, tlvFind c tag m = .err e m) :=
  tlvFind_spec_of_bound (by omega) (Or.inl hfit) (by omega)

theorem tlvFind_ret {tag q : ℕ} (hfit : c.limit + 4 ≤ m.length) (h : find? m c tag = some q) :
    tlvFind c tag m = .ret (c.at q) m := by
  rcases tlvFind_spec hfit tag with ⟨q', hq', hr⟩ | ⟨hn, -⟩
  · rw [h] at hq'; cases hq'; exact hr
  · rw [h] at hn; cases hn

theorem tlvFind_err {tag : ℕ} (hfit : c.limit + 4 ≤ m.length) (h : find? m c tag = none) :
    ∃ e, tlvFind c tag m = .err e m := by
  rcases tlvFind_spec hfit tag with ⟨q', hq', -⟩ | ⟨-, he⟩
  · rw [h] at hq'; cases hq'
  · exact he

theorem seek_spec {tag n p q : ℕ} (h : seek m c tag n p = some q) :
    Valid m (c.at q) ∧ u32 m q = tag ∧ p ≤ q := by
  induction n generalizing p with
  | zero => cases h
  | succ n ih =>
    rw [seek] at h
    split_ifs at h with hv ht he
    · cases h; exact ⟨hv, ht, le_refl _⟩
    · obtain ⟨h1, h2, h3⟩ := ih h
      exact ⟨h1, h2, by have := nextPos_ge m p; omega⟩

/-- The END tag a walk reaches is its start or has a spare word behind it. -/
theorem seek_end_bound {n p q : ℕ} (h : seek m c TLV_TAG_END n p = some q) :
    q = p ∨ (q : ℤ) ≤ c.limit - 4 := by
  induction n generalizing p with
  | zero => cases h
  | succ n ih =>
    rw [seek] at h
    split_ifs at h with hv ht he
    · cases h; exact Or.inl rfl
    · have hn := (hv.item ht).2
      simp only [at_current, at_limit] at hn
      rcases ih h with rfl | hq
      · exact Or.inr hn
      · exact Or.inr hq

theorem four_dvd_nextPos (p : ℕ) (h : 4 ∣ p) : 4 ∣ nextPos m p := by
  rw [nextPos]
  exact Nat.dvd_add h ⟨_, rfl⟩

/-- A walk stays on words. -/
theorem seek_aligned {tag n p q : ℕ} (h : seek m c tag n p = some q) (hp : 4 ∣ p) : 4 ∣ q := by
  induction n generalizing p with
  | zero => cases h
  | succ n ih =>
    rw [seek] at h
    split_ifs at h with hv ht he
    · cases h; exact hp
    · exact ih h (four_dvd_nextPos p hp)

theorem seek_succ (hfit : c.limit + 4 ≤ m.length) {tag n p : ℕ} (hn : m.length < n + p) :
    seek m c tag (n + 1) p = seek m c tag n p := by
  induction n generalizing p with
  | zero =>
    have hnv : ¬ Valid m (c.at p) := by
      intro hv
      have := hv.bound hfit
      simp only [at_current] at this
      omega
    rw [seek.eq_def m c tag (0 + 1) p]
    exact if_neg hnv
  | succ n ih =>
    have hge := nextPos_ge m p
    rw [seek, ih (p := nextPos m p) (by omega)]
    conv_rhs => rw [seek]

/-- **Walk rule.**  What the walk of `tlv_find` does at `p`. -/
theorem seekFrom_eq (hfit : c.limit + 4 ≤ m.length) (tag p : ℕ) :
    seekFrom m c tag p =
      if Valid m (c.at p) then
        if u32 m p = tag then some p
        else if c.endTag = some (p : ℤ) then none
        else seekFrom m c tag (nextPos m p)
      else none := by
  have hge := nextPos_ge m p
  have hs : seek m c tag (m.length + 1) (nextPos m p) = seek m c tag m.length (nextPos m p) :=
    seek_succ hfit (by omega)
  rw [seekFrom, seekFrom, seek, hs]

theorem find?_spec {tag q : ℕ} (h : find? m c tag = some q) :
    Valid m (c.at q) ∧ u32 m q = tag ∧ c.block ≤ q := seek_spec h

/-! ### The END tag and the last segment -/

/-- The end tag as `tlv_require_end` sets it: kept if known, else the first one on the walk. -/
def endOf? (m : Bytes) (c : TlvCursor) : Option ℤ :=
  match c.endTag with
  | some e => some e
  | none => Option.map (fun q : ℕ => (q : ℤ)) (find? m c TLV_TAG_END)

theorem tlvRequireEnd_ret (hfit : c.limit + 4 ≤ m.length) {e : ℤ} (h : endOf? m c = some e) :
    tlvRequireEnd c m = .ret { c with endTag := some e } m := by
  obtain ⟨block, current, endTag, limit⟩ := c
  cases endTag with
  | some e' => cases h; rfl
  | none =>
    obtain ⟨q, hq, rfl⟩ := Option.map_eq_some_iff.mp h
    exact bind_of_ret (tlvFind_ret hfit hq)

theorem tlvRequireEnd_err (hfit : c.limit + 4 ≤ m.length) (h : endOf? m c = none) :
    ∃ e, tlvRequireEnd c m = .err e m := by
  obtain ⟨block, current, endTag, limit⟩ := c
  cases endTag with
  | some e' => cases h
  | none =>
    have hn : find? m ⟨block, current, none, limit⟩ TLV_TAG_END = none := Option.map_eq_none_iff.mp h
    obtain ⟨e, he⟩ := tlvFind_err hfit hn
    exact ⟨e, bind_of_err he⟩

theorem tlvBlockLengthUsed_ret (hfit : c.limit + 4 ≤ m.length) (hv : Valid m c) {e : ℤ}
    (h : endOf? m c = some e) :
    tlvBlockLengthUsed c m =
      .ret (((e + 4 - c.block) % 18446744073709551616).toNat, { c with endTag := some e }) m := by
  rw [tlvBlockLengthUsed, bind_of_ret (attempt_of_ret (tlvValidateState_ret hfit hv))]
  dsimp only
  rw [bind_of_ret (attempt_of_ret (tlvRequireEnd_ret hfit h))]
  rfl

theorem tlvBlockLengthUsed_zero (hfit : c.limit + 4 ≤ m.length)
    (h : ¬ Valid m c ∨ endOf? m c = none) : tlvBlockLengthUsed c m = .ret (0, c) m := by
  rw [tlvBlockLengthUsed]
  by_cases hv : Valid m c
  · have hn : endOf? m c = none := h.resolve_left (not_not.mpr hv)
    obtain ⟨e, he⟩ := tlvRequireEnd_err hfit hn
    rw [bind_of_ret (attempt_of_ret (tlvValidateState_ret hfit hv))]
    dsimp only
    rw [bind_of_ret (attempt_of_err he)]; rfl
  · obtain ⟨e, he⟩ := tlvValidateState_err hfit hv
    rw [bind_of_ret (attempt_of_err he)]; rfl

/-- The last END tag from a segment start on, in at most `n` segments. -/
def segEnd (m : Bytes) (limit : ℤ) : (n last start : ℕ) → ℕ
  | 0, last, _ => last
  | n + 1, last, start =>
    match find? m ⟨start, start, none, limit⟩ TLV_TAG_END with
    | some e => segEnd m limit n e (e + 4)
    | none => last

/-- The position `tlv_last_segment_end` returns. -/
def lastSegmentEnd (m : Bytes) (c : TlvCursor) : ℕ :=
  segEnd m c.limit (m.length + 1) c.block c.block

theorem iterate_segmentEndStep {limit : ℤ} (hfit : limit + 4 ≤ m.length) (n last start : ℕ)
    (hn : m.length < n + 1 + start) :
    iterate (tlvLastSegmentEndStep limit) (n + 1) (last, start) m =
      .ret (segEnd m limit (n + 1) last start) m := by
  induction n generalizing last start with
  | zero =>
    have hnone : find? m ⟨start, start, none, limit⟩ TLV_TAG_END = none := by
      cases hf : find? m ⟨start, start, none, limit⟩ TLV_TAG_END with
      | none => rfl
      | some q =>
        have h1 := (find?_spec hf).1.bound hfit
        have h2 := (find?_spec hf).2.2
        simp only [at_current] at h1 h2
        omega
    have hnv : ¬ Valid m ⟨start, start, none, limit⟩ := by
      intro hv
      have := hv.bound hfit
      simp only at this
      omega
    obtain ⟨e, he⟩ := tlvInitCursor_err hfit hnv
    rw [segEnd, hnone]
    refine iterate_inl 0 ?_
    rw [tlvLastSegmentEndStep, bind_of_ret (attempt_of_err he)]; rfl
  | succ n ih =>
    rw [segEnd]
    by_cases hv : Valid m ⟨start, start, none, limit⟩
    · have hinit := tlvInitCursor_ret hfit hv
      cases hf : find? m ⟨start, start, none, limit⟩ TLV_TAG_END with
      | some q =>
        have hq := (find?_spec hf).2.2
        simp only at hq
        have hstep : tlvLastSegmentEndStep limit (last, start) m = .ret (.inr (q, q + 4)) m := by
          rw [tlvLastSegmentEndStep, bind_of_ret (attempt_of_ret hinit)]
          dsimp only
          rw [bind_of_ret (attempt_of_ret (tlvFind_ret hfit hf))]; rfl
        rw [iterate_inr (n + 1) hstep]
        exact ih q (q + 4) (by omega)
      | none =>
        obtain ⟨e, he⟩ := tlvFind_err (c := ⟨start, start, none, limit⟩) hfit hf
        refine iterate_inl (n + 1) ?_
        rw [tlvLastSegmentEndStep, bind_of_ret (attempt_of_ret hinit)]
        dsimp only
        rw [bind_of_ret (attempt_of_err he)]; rfl
    · have hnone : find? m ⟨start, start, none, limit⟩ TLV_TAG_END = none := by
        rw [find?, seekFrom, seek]
        exact if_neg hv
      obtain ⟨e, he⟩ := tlvInitCursor_err hfit hv
      rw [hnone]
      refine iterate_inl (n + 1) ?_
      rw [tlvLastSegmentEndStep, bind_of_ret (attempt_of_err he)]; rfl

theorem tlvLastSegmentEnd_ret (hfit : c.limit + 4 ≤ m.length) :
    tlvLastSegmentEnd c m = .ret (lastSegmentEnd m c) m := by
  rw [tlvLastSegmentEnd]
  exact iterate_segmentEndStep hfit m.length c.block c.block (by omega)

/-! ### What a walk that succeeds has done -/

theorem tlvInitCursor_ret_inv {block current : ℕ} {limit : ℤ} {c' : TlvCursor} {m' : Bytes}
    (hfit : limit + 4 ≤ m.length) (h : tlvInitCursor block limit current m = .ret c' m') :
    c' = ⟨block, current, none, limit⟩ ∧ m' = m ∧ Valid m ⟨block, current, none, limit⟩ := by
  by_cases hv : Valid m ⟨block, current, none, limit⟩
  · rw [tlvInitCursor_ret hfit hv] at h; cases h; exact ⟨rfl, rfl, hv⟩
  · obtain ⟨e, he⟩ := tlvInitCursor_err hfit hv
    rw [he] at h; cases h

theorem tlvAdvance_ret_inv {c' : TlvCursor} {m' : Bytes} (hfit : c.limit + 4 ≤ m.length)
    (h : tlvAdvance c m = .ret c' m') :
    c' = c.at (nextPos m c.current) ∧ m' = m ∧ CanAdvance m c := by
  by_cases hv : CanAdvance m c
  · rw [tlvAdvance_ret hfit hv] at h; cases h; exact ⟨rfl, rfl, hv⟩
  · obtain ⟨e, he⟩ := tlvAdvance_err hfit hv
    rw [he] at h; cases h

theorem tlvFind_ret_inv {tag : ℕ} {c' : TlvCursor} {m' : Bytes} (hfit : c.limit + 4 ≤ m.length)
    (h : tlvFind c tag m = .ret c' m') : ∃ q, find? m c tag = some q ∧ c' = c.at q ∧ m' = m := by
  rcases tlvFind_spec hfit tag with ⟨q, hq, hr⟩ | ⟨-, e, he⟩
  · rw [hr] at h; cases h; exact ⟨q, hq, rfl, rfl⟩
  · rw [he] at h; cases h

theorem tlvRequireEnd_ret_inv {c' : TlvCursor} {m' : Bytes} (hfit : c.limit + 4 ≤ m.length)
    (h : tlvRequireEnd c m = .ret c' m') :
    ∃ e, endOf? m c = some e ∧ c' = { c with endTag := some e } ∧ m' = m := by
  cases he : endOf? m c with
  | some e => rw [tlvRequireEnd_ret hfit he] at h; cases h; exact ⟨e, rfl, rfl, rfl⟩
  | none =>
    obtain ⟨e, hr⟩ := tlvRequireEnd_err hfit he
    rw [hr] at h; cases h

/-! ### Walks touch only the block -/

theorem safe_tlvInitCursor {block current : ℕ} {limit : ℤ} (hfit : limit + 4 ≤ m.length) :
    (tlvInitCursor block limit current).Safe m := by
  by_cases hv : Valid m ⟨block, current, none, limit⟩
  · exact safe_of_ret (tlvInitCursor_ret hfit hv)
  · obtain ⟨e, he⟩ := tlvInitCursor_err hfit hv
    exact safe_of_err he

theorem safe_tlvAdvance (hfit : c.limit + 4 ≤ m.length) : (tlvAdvance c).Safe m := by
  by_cases hv : CanAdvance m c
  · exact safe_of_ret (tlvAdvance_ret hfit hv)
  · obtain ⟨e, he⟩ := tlvAdvance_err hfit hv
    exact safe_of_err he

theorem safe_tlvFind (hfit : c.limit + 4 ≤ m.length) (tag : ℕ) : (tlvFind c tag).Safe m := by
  rcases tlvFind_spec hfit tag with ⟨q, -, hr⟩ | ⟨-, e, he⟩
  · exact safe_of_ret hr
  · exact safe_of_err he

theorem safe_tlvRequireEnd (hfit : c.limit + 4 ≤ m.length) : (tlvRequireEnd c).Safe m := by
  cases he : endOf? m c with
  | some e => exact safe_of_ret (tlvRequireEnd_ret hfit he)
  | none =>
    obtain ⟨e, hr⟩ := tlvRequireEnd_err hfit he
    exact safe_of_err hr

/-- What `tlv_block_length_used` reports fits the block. -/
theorem tlvBlockLengthUsed_spec (hfit : c.limit + 4 ≤ m.length) :
    (∃ e, Valid m c ∧ endOf? m c = some e ∧ tlvBlockLengthUsed c m =
      .ret (((e + 4 - c.block) % 18446744073709551616).toNat, { c with endTag := some e }) m) ∨
    tlvBlockLengthUsed c m = .ret (0, c) m := by
  by_cases hv : Valid m c
  · cases he : endOf? m c with
    | some e => exact Or.inl ⟨e, hv, rfl, tlvBlockLengthUsed_ret hfit hv he⟩
    | none => exact Or.inr (tlvBlockLengthUsed_zero hfit (Or.inr he))
  · exact Or.inr (tlvBlockLengthUsed_zero hfit (Or.inl hv))

end Sfxge.Tlv
