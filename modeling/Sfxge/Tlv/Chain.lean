import Sfxge.Tlv.Edit

/-!
# Tlv.Chain — chains of items

A chain is a list of items one behind the other.  Where its bytes lie in the memory, the walk of
`tlv_find` goes from item to item; conversely, where the walk gets to a tag it has gone over a chain.
-/

namespace Sfxge.Tlv

open Lib Lib.Prog Errno

/-- A TLV item: tag, length field, and the value with its padding to a whole word. -/
structure TlvItem where
  tag : ℕ
  len : ℕ
  body : Bytes
  tag_lt : tag < 4294967296
  tag_ne : tag ≠ TLV_TAG_END
  len_lt : len < 4294967296
  length_body : body.length = 4 * ((len + 3) / 4)

namespace TlvItem

def bytes (i : TlvItem) : Bytes := le 4 i.tag ++ le 4 i.len ++ i.body

/-- The bytes an item takes up. -/
def size (i : TlvItem) : ℕ := 4 * tlvDwordCount i.len

/-- The value without its padding. -/
def value (i : TlvItem) : Bytes := i.body.take i.len

@[simp] theorem length_bytes (i : TlvItem) : i.bytes.length = i.size := by
  have := i.length_body
  simp only [bytes, size, tlvDwordCount, List.length_append, length_le]
  omega

theorem size_ge (i : TlvItem) : 8 ≤ i.size := by
  simp only [size, tlvDwordCount]
  omega

theorem four_dvd_size (i : TlvItem) : 4 ∣ i.size := ⟨_, rfl⟩

end TlvItem

/-- The bytes of the items one behind the other. -/
def chainBytes (items : List TlvItem) : Bytes := (items.map TlvItem.bytes).flatten

@[simp] theorem chainBytes_nil : chainBytes [] = [] := rfl

@[simp] theorem chainBytes_cons (i : TlvItem) (items : List TlvItem) :
    chainBytes (i :: items) = i.bytes ++ chainBytes items := rfl

@[simp] theorem chainBytes_append (is js : List TlvItem) :
    chainBytes (is ++ js) = chainBytes is ++ chainBytes js := by
  simp [chainBytes]

theorem four_dvd_length_chainBytes (items : List TlvItem) : 4 ∣ (chainBytes items).length := by
  induction items with
  | nil => simp
  | cons i items ih =>
    rw [chainBytes_cons, List.length_append, TlvItem.length_bytes]
    exact Nat.dvd_add i.four_dvd_size ih

variable {m : Bytes} {c : TlvCursor} {p : ℕ} {i : TlvItem} {items : List TlvItem}

/-! ### An item in the memory -/

theorem u32_item (h : At m p i.bytes) : u32 m p = i.tag := by
  rw [TlvItem.bytes, List.append_assoc] at h
  rw [h.left.u32_eq, Nat.mod_eq_of_lt i.tag_lt]

theorem u32_item_len (h : At m p i.bytes) : u32 m (p + 4) = i.len := by
  rw [TlvItem.bytes, List.append_assoc] at h
  have h1 := h.right.left
  rw [length_le] at h1
  rw [h1.u32_eq, Nat.mod_eq_of_lt i.len_lt]

theorem nextPos_item (h : At m p i.bytes) : nextPos m p = p + i.size := by
  rw [nextPos, u32_item h, if_neg i.tag_ne, u32_item_len h]
  rfl

theorem slice_item (h : At m p i.bytes) : slice m (p + 8) i.len = i.value := by
  have hb := i.length_body
  have h1 := h.right
  simp only [List.length_append, length_le] at h1
  have h2 := h1.slice_sub (q := 0) (n := i.len) (by omega)
  simpa [slice, TlvItem.value] using h2

/-- A word is missing behind the item's end unless the block ends at least two words later. -/
theorem valid_item (h : At m p i.bytes) (hb : c.block ≤ p) (hl : (p + i.size + 4 : ℤ) ≤ c.limit) :
    Valid m (c.at p) := by
  have h8 := i.size_ge
  refine ⟨hb, ?_, fun _ => ⟨?_, ?_⟩⟩
  · simp only [at_current, at_limit]; omega
  · simp only [at_current, at_limit]; omega
  · simp only [at_current, at_limit]
    rw [nextPos_item h]
    push_cast
    omega

theorem valid_end (h : u32 m p = TLV_TAG_END) (hb : c.block ≤ p) (hl : (p : ℤ) ≤ c.limit) :
    Valid m (c.at p) := ⟨hb, hl, fun hn => absurd h hn⟩

/-! ### Walking over a chain -/

/-- **Chain walk.**  The walk goes over items that do not have the tag it looks for. -/
theorem seekFrom_chain (hfit : c.limit + 4 ≤ m.length) {tag : ℕ} (h : At m p (chainBytes items))
    (hb : c.block ≤ p) (hl : (p + (chainBytes items).length + 4 : ℤ) ≤ c.limit)
    (hend : ∀ e, c.endTag = some e → (p + (chainBytes items).length : ℤ) ≤ e)
    (htag : ∀ i ∈ items, i.tag ≠ tag) :
    seekFrom m c tag p = seekFrom m c tag (p + (chainBytes items).length) := by
  induction items generalizing p with
  | nil => simp
  | cons i items ih =>
    rw [chainBytes_cons] at h
    have h8 := i.size_ge
    simp only [chainBytes_cons, List.length_append, TlvItem.length_bytes, Nat.cast_add] at hl hend ⊢
    have hi := h.left
    have hr := h.right
    rw [TlvItem.length_bytes] at hr
    have hv : Valid m (c.at p) := valid_item hi hb (by omega)
    have ht : u32 m p ≠ tag := by rw [u32_item hi]; exact htag i (by simp)
    have he : c.endTag ≠ some (p : ℤ) := fun he => by have := hend _ he; omega
    rw [seekFrom_eq hfit, if_pos hv, if_neg ht, if_neg he, nextPos_item hi, ← Nat.add_assoc]
    exact ih hr (by omega) (by push_cast; omega)
      (fun e he => by have := hend e he; push_cast; omega) fun j hj => htag j (by simp [hj])

theorem seekFrom_hit (hfit : c.limit + 4 ≤ m.length) (hv : Valid m (c.at p)) :
    seekFrom m c (u32 m p) p = some p := by
  rw [seekFrom_eq hfit, if_pos hv, if_pos rfl]

/-- The walk to a tag behind a chain. -/
theorem find?_chain (hfit : c.limit + 4 ≤ m.length) {tag : ℕ} (hp : c.block = p)
    (h : At m p (chainBytes items)) (hl : (p + (chainBytes items).length + 4 : ℤ) ≤ c.limit)
    (hend : ∀ e, c.endTag = some e → (p + (chainBytes items).length : ℤ) ≤ e)
    (htag : ∀ i ∈ items, i.tag ≠ tag) (hq : u32 m (p + (chainBytes items).length) = tag)
    (hv : Valid m (c.at (p + (chainBytes items).length))) :
    find? m c tag = some (p + (chainBytes items).length) := by
  rw [find?, hp, seekFrom_chain hfit h hp.le hl hend htag, ← hq]
  exact seekFrom_hit hfit hv

/-! ### The item at a position -/

theorem length_itemBody (m : Bytes) (p : ℕ) (h : u32 m p ≠ TLV_TAG_END) (hb : nextPos m p ≤ m.length) :
    (slice m (p + 8) (4 * ((u32 m (p + 4) + 3) / 4))).length = 4 * ((u32 m (p + 4) + 3) / 4) := by
  rw [nextPos, if_neg h, tlvDwordCount] at hb
  exact length_slice (by omega)

/-- The item whose tag and length field are at `p`. -/
def itemAt (m : Bytes) (p : ℕ) (h : u32 m p ≠ TLV_TAG_END) (hb : nextPos m p ≤ m.length) :
    TlvItem where
  tag := u32 m p
  len := u32 m (p + 4)
  body := slice m (p + 8) (4 * ((u32 m (p + 4) + 3) / 4))
  tag_lt := u32_lt m p
  tag_ne := h
  len_lt := u32_lt m (p + 4)
  length_body := length_itemBody m p h hb

theorem itemAt_at (h : u32 m p ≠ TLV_TAG_END) (hb : nextPos m p ≤ m.length) :
    At m p (itemAt m p h hb).bytes := by
  have hn := hb
  rw [nextPos, if_neg h, tlvDwordCount] at hn
  refine At.append_iff.mpr ⟨At.append_iff.mpr ⟨At.of_u32 (by omega), ?_⟩, ?_⟩
  · rw [length_le]
    exact At.of_u32 (by omega)
  · simp only [List.length_append, length_le]
    exact At.of_slice (by rw [(itemAt m p h hb).length_body]; rfl)

/-- **Walk inversion.**  A walk to an END tag that stops at the first one has gone over a chain. -/
theorem seekFrom_end_inv (hfit : c.limit + 4 ≤ m.length) {q : ℕ}
    (h : seekFrom m c TLV_TAG_END p = some q) :
    ∃ items, At m p (chainBytes items) ∧ q = p + (chainBytes items).length := by
  generalize hn : m.length + 1 - p = n
  induction n using Nat.strong_induction_on generalizing p with
  | _ n ih =>
    rw [seekFrom_eq hfit] at h
    split_ifs at h with hv ht he
    · cases h
      exact ⟨[], At.nil, by simp⟩
    · have hb := hv.bound_item hfit ht
      simp only [at_current] at hb
      have hge := nextPos_ge m p
      obtain ⟨items, hat, hq⟩ := ih _ (by omega) h rfl
      have hi := itemAt_at ht hb.2
      have hnext := nextPos_item hi
      refine ⟨itemAt m p ht hb.2 :: items, ?_, ?_⟩
      · rw [chainBytes_cons]
        refine At.append_iff.mpr ⟨hi, ?_⟩
        rw [TlvItem.length_bytes, ← hnext]
        exact hat
      · rw [chainBytes_cons, List.length_append, TlvItem.length_bytes]
        omega

end Sfxge.Tlv
