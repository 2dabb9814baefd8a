import Sfxge.Tlv.Chain

/-!
# Tlv.Find — what `tlv_find` finds

The walk of `tlv_find` ends at a tag it looks for, or where an item does not fit.  A cursor that was just
initialised does not know its END tag: `tlv_advance` steps over it as over an item without a value, and the
words behind it are taken for items.  The last word of the block counts as room behind an item only.
-/

namespace Sfxge.Tlv

open Lib Lib.Prog Errno

variable {m : Bytes} {c : TlvCursor} {items : List TlvItem} {tag p q : ℕ}

/-- The offset of the first item with the tag, or of the END tag behind the items -/
def posOf (tag : ℕ) : List TlvItem → Option ℕ
  | [] => if tag = TLV_TAG_END then some 0 else none
  | i :: items => if i.tag = tag then some 0 else (posOf tag items).map (i.size + ·)

/-- A block: a header item, further items, and an END tag inside the limit, with any words behind it -/
structure IsBlock (m : Bytes) (c : TlvCursor) (items : List TlvItem) : Prop where
  header : ∃ h rest, items = h :: rest ∧ h.tag = TLV_TAG_PARTITION_HEADER
  chain : At m c.block (chainBytes items)
  endTag : u32 m (c.block + (chainBytes items).length) = TLV_TAG_END
  inside : ((c.block + (chainBytes items).length : ℕ) : ℤ) ≤ c.limit

/-- `tlv_find` reaches the first place of the tag up to the END tag, and fails if there is none. -/
def Finds (m : Bytes) (c : TlvCursor) (items : List TlvItem) (tag : ℕ) : Prop :=
  (∀ p, posOf tag items = some p → tlvFind c tag m = .ret (c.at (c.block + p)) m) ∧
    (posOf tag items = none → ∃ e, tlvFind c tag m = .err e m)

/-- Read as items one behind the other, the words from `p` on come to the tag inside the limit. -/
inductive Strays (m : Bytes) (c : TlvCursor) (tag : ℕ) : ℕ → Prop
  | here {p : ℕ} (hv : Valid m (c.at p)) (ht : u32 m p = tag) : Strays m c tag p
  | next {p : ℕ} (hv : Valid m (c.at p)) (h : Strays m c tag (nextPos m p)) : Strays m c tag p

/-! ### Where the tag is -/

theorem posOf_none : posOf tag items = none ↔ tag ≠ TLV_TAG_END ∧ ∀ i ∈ items, i.tag ≠ tag := by
  induction items with
  | nil => simp [posOf]
  | cons i items ih =>
    rw [posOf]
    by_cases hi : i.tag = tag
    · rw [if_pos hi]
      simp [hi]
    · rw [if_neg hi, Option.map_eq_none_iff, ih]
      simp [hi]

theorem posOf_some (h : posOf tag items = some p) :
    (∃ pre i post, items = pre ++ i :: post ∧ (∀ j ∈ pre, j.tag ≠ tag) ∧ i.tag = tag ∧
      p = (chainBytes pre).length) ∨
    (∀ i ∈ items, i.tag ≠ tag) ∧ tag = TLV_TAG_END ∧ p = (chainBytes items).length := by
  induction items generalizing p with
  | nil =>
    rw [posOf] at h
    split_ifs at h with ht
    cases h
    exact Or.inr ⟨by simp, ht, rfl⟩
  | cons i items ih =>
    rw [posOf] at h
    split_ifs at h with hi
    · cases h
      exact Or.inl ⟨[], i, items, rfl, by simp, hi, rfl⟩
    · obtain ⟨p', hp', rfl⟩ := Option.map_eq_some_iff.mp h
      rcases ih hp' with ⟨pre, j, post, rfl, hpre, hj, rfl⟩ | ⟨hall, htag, rfl⟩
      · refine Or.inl ⟨i :: pre, j, post, rfl, ?_, hj, ?_⟩
        · intro k hk
          rcases List.mem_cons.mp hk with rfl | hk
          · exact hi
          · exact hpre k hk
        · rw [chainBytes_cons, List.length_append, TlvItem.length_bytes]
      · refine Or.inr ⟨?_, htag, ?_⟩
        · intro k hk
          rcases List.mem_cons.mp hk with rfl | hk
          · exact hi
          · exact hall k hk
        · rw [chainBytes_cons, List.length_append, TlvItem.length_bytes]

theorem posOf_append_cons {pre post : List TlvItem} {i : TlvItem} (hi : i.tag = tag) (hpre : ∀ j ∈ pre, j.tag ≠ tag) :
    posOf tag (pre ++ i :: post) = some (chainBytes pre).length := by
  induction pre with
  | nil => rw [List.nil_append, posOf, if_pos hi, chainBytes_nil, List.length_nil]
  | cons j pre ih =>
    rw [List.cons_append, posOf, if_neg (hpre j (by simp)), ih fun k hk => hpre k (by simp [hk]), chainBytes_cons,
      List.length_append, TlvItem.length_bytes]
    rfl

/-! ### The walk -/

theorem finds_iff_find? (hfit : c.limit + 4 ≤ m.length) :
    Finds m c items tag ↔ find? m c tag = (posOf tag items).map (c.block + ·) := by
  unfold Finds
  cases hpos : posOf tag items with
  | none =>
    rw [Option.map_none]
    constructor
    · rintro ⟨-, h⟩
      obtain ⟨e, he⟩ := h rfl
      cases hf : find? m c tag with
      | none => rfl
      | some q =>
        rw [tlvFind_ret hfit hf] at he
        cases he
    · intro h
      exact ⟨fun p hp => absurd hp (by simp), fun _ => tlvFind_err hfit h⟩
  | some p =>
    rw [Option.map_some]
    constructor
    · rintro ⟨h, -⟩
      have hp := h p rfl
      obtain ⟨q, hq, heq, -⟩ := tlvFind_ret_inv hfit hp
      have hcur : c.block + p = q := congrArg TlvCursor.current heq
      rw [hq, hcur]
    · intro h
      refine ⟨fun p' hp' => ?_, fun hn => absurd hn (by simp)⟩
      cases hp'
      exact tlvFind_ret hfit h

/-- Where the cursor stands does not matter to the walk. -/
theorem find?_at (m : Bytes) (c : TlvCursor) (tag q : ℕ) : find? m (c.at q) tag = find? m c tag := by
  have hseek : ∀ n p, seek m (c.at q) tag n p = seek m c tag n p := by
    intro n
    induction n with
    | zero => exact fun _ => rfl
    | succ n ih => intro p; rw [seek, seek, ih]; rfl
  exact hseek _ _

/-- Behind the END tag the walk goes on as over an item without a value. -/
theorem seekFrom_end (hfit : c.limit + 4 ≤ m.length) (hfresh : c.endTag = none) (hend : u32 m p = TLV_TAG_END)
    (hv : Valid m (c.at p)) (htag : tag ≠ TLV_TAG_END) : seekFrom m c tag p = seekFrom m c tag (p + 8) := by
  have hnext : nextPos m p = p + 8 := by
    rw [nextPos, if_pos hend]
    rfl
  rw [seekFrom_eq hfit, if_pos hv, if_neg (by rw [hend]; exact htag.symm), if_neg (by rw [hfresh]; simp), hnext]

theorem strays_iff (hfit : c.limit + 4 ≤ m.length) (hfresh : c.endTag = none) :
    Strays m c tag p ↔ seekFrom m c tag p ≠ none := by
  have hnot : c.endTag ≠ some (p : ℤ) := by rw [hfresh]; simp
  constructor
  · intro h
    induction h with
    | here hv ht =>
      rw [seekFrom_eq hfit, if_pos hv, if_pos ht]
      simp
    | @next p hv h ih =>
      rw [seekFrom_eq hfit, if_pos hv]
      split_ifs with ht
      · simp
      · exact ih (by rw [hfresh]; simp)
  · intro h
    generalize hn : m.length + 1 - p = n
    induction n using Nat.strong_induction_on generalizing p with
    | _ n ih =>
      rw [seekFrom_eq hfit] at h
      split_ifs at h with hv ht
      · exact .here hv ht
      · have hb := hv.bound hfit
        simp only [at_current] at hb
        have hge := nextPos_ge m p
        exact .next hv (ih _ (by omega) (by rw [hfresh]; simp) h rfl)
      · exact absurd rfl h

/-- The walk comes to the first item with the tag, where there is a word behind the item's end. -/
theorem find?_item (hfit : c.limit + 4 ≤ m.length) (hfresh : c.endTag = none) {pre post : List TlvItem} {i : TlvItem}
    (hat : At m c.block (chainBytes (pre ++ i :: post)))
    (hroom : ((c.block + (chainBytes pre).length + i.size + 4 : ℕ) : ℤ) ≤ c.limit) (hpre : ∀ j ∈ pre, j.tag ≠ i.tag) :
    find? m c i.tag = some (c.block + (chainBytes pre).length) := by
  have h8 := i.size_ge
  rw [chainBytes_append, chainBytes_cons] at hat
  have hit := (At.append_iff.mp hat.right).1
  refine find?_chain hfit rfl hat.left (by push_cast at hroom ⊢; omega)
    (fun e he => by rw [hfresh] at he; cases he) hpre (u32_item hit) ?_
  exact valid_item hit (by omega) (by push_cast at hroom ⊢; omega)

/-- The walk comes to a tag in the block, where there is a word behind the END tag. -/
theorem find?_block (hfit : c.limit + 4 ≤ m.length) (hfresh : c.endTag = none) (hb : IsBlock m c items)
    (hroom : ((c.block + (chainBytes items).length + 4 : ℕ) : ℤ) ≤ c.limit) (hpos : posOf tag items = some p) :
    find? m c tag = some (c.block + p) := by
  rcases posOf_some hpos with ⟨pre, i, post, rfl, hpre, rfl, rfl⟩ | ⟨hall, rfl, rfl⟩
  · rw [chainBytes_append, chainBytes_cons, List.length_append, List.length_append, TlvItem.length_bytes] at hroom
    exact find?_item hfit hfresh hb.chain (by push_cast at hroom ⊢; omega) hpre
  · refine find?_chain hfit rfl hb.chain (by push_cast at hroom ⊢; omega)
      (fun e he => by rw [hfresh] at he; cases he) hall hb.endTag ?_
    exact valid_end hb.endTag (by omega) (by push_cast at hroom ⊢; omega)

/-- The walk for a tag that is not in the block goes on behind the END tag. -/
theorem find?_absent (hfit : c.limit + 4 ≤ m.length) (hfresh : c.endTag = none) (hb : IsBlock m c items)
    (hroom : ((c.block + (chainBytes items).length + 4 : ℕ) : ℤ) ≤ c.limit) (hpos : posOf tag items = none) :
    find? m c tag = seekFrom m c tag (c.block + (chainBytes items).length + 8) := by
  obtain ⟨htag, hall⟩ := posOf_none.mp hpos
  have hv : Valid m (c.at (c.block + (chainBytes items).length)) :=
    valid_end hb.endTag (by omega) (by push_cast at hroom ⊢; omega)
  rw [find?, seekFrom_chain hfit hb.chain le_rfl (by push_cast at hroom ⊢; omega)
    (fun e he => by rw [hfresh] at he; cases he) hall, seekFrom_end hfit hfresh hb.endTag hv htag]

/-- Without a word behind the END tag the last item is not valid. -/
theorem find?_tight {init : List TlvItem} {last : TlvItem} (hfit : c.limit + 4 ≤ m.length) (hfresh : c.endTag = none)
    (hchain : At m c.block (chainBytes (init ++ [last])))
    (hlimit : ((c.block + (chainBytes (init ++ [last])).length : ℕ) : ℤ) ≤ c.limit)
    (htight : c.limit < ((c.block + (chainBytes (init ++ [last])).length + 4 : ℕ) : ℤ)) :
    (∀ i ∈ init, i.tag ≠ tag) → find? m c tag = none := by
  intro hall
  rw [chainBytes_append] at hchain hlimit htight
  simp only [chainBytes_cons, chainBytes_nil, List.append_nil, List.length_append, TlvItem.length_bytes]
    at hchain hlimit htight
  have h8 := last.size_ge
  rw [find?, seekFrom_chain hfit hchain.left le_rfl (by push_cast at hlimit ⊢; omega)
    (fun e he => by rw [hfresh] at he; cases he) hall, seekFrom_eq hfit, if_neg]
  intro hv
  have hlast := hchain.right
  have hitem := (hv.item (by rw [at_current, u32_item hlast]; exact last.tag_ne)).2
  rw [at_current, at_limit, nextPos_item hlast] at hitem
  push_cast at hitem htight
  omega

/-- An item before the last has room behind it. -/
theorem find?_before {init : List TlvItem} {last : TlvItem} (hfit : c.limit + 4 ≤ m.length) (hfresh : c.endTag = none)
    (hchain : At m c.block (chainBytes (init ++ [last])))
    (hlimit : ((c.block + (chainBytes (init ++ [last])).length : ℕ) : ℤ) ≤ c.limit)
    (hin : ∃ i ∈ init, i.tag = tag) (hpos : posOf tag (init ++ [last]) = some p) :
    find? m c tag = some (c.block + p) := by
  have h8 := last.size_ge
  obtain ⟨j, hj, hjt⟩ := hin
  rcases posOf_some hpos with ⟨pre, i, post, heq, hpre, rfl, rfl⟩ | ⟨hall, -⟩
  · rcases List.eq_nil_or_concat post with rfl | ⟨post, last', rfl⟩
    · have hinit : init = pre := (List.append_inj' heq rfl).1
      exact absurd hjt (hpre j (hinit ▸ hj))
    · rw [heq] at hchain hlimit
      refine find?_item hfit hfresh hchain ?_ hpre
      have hsize := last'.size_ge
      simp only [chainBytes_append, chainBytes_cons, chainBytes_nil, List.concat_eq_append, List.length_append,
        TlvItem.length_bytes] at hlimit
      push_cast at hlimit ⊢
      omega
  · exact absurd hjt (hall j (List.mem_append_left _ hj))

/-- **What `tlv_find` finds.**  On a cursor that was just initialised over a block, `tlv_find` meets its
specification for a tag if and only if there is a word behind the END tag (unless the tag is not in the block,
or is that of an item before the last) and, for a tag that is not in the block, the words behind the END tag
do not read as items that come to it. -/
theorem find_meets_spec_iff {m : Bytes} {c : TlvCursor} {items : List TlvItem} (tag : ℕ)
    (hfit : c.limit + 4 ≤ m.length) (hfresh : c.endTag = none) (hb : IsBlock m c items) :
    Finds m c items tag ↔
      (((c.block + (chainBytes items).length + 4 : ℕ) : ℤ) ≤ c.limit ∨ posOf tag items = none ∨
        ∃ i ∈ items.dropLast, i.tag = tag) ∧
      (posOf tag items = none → ¬ Strays m c tag (c.block + (chainBytes items).length + 8)) := by
  rw [finds_iff_find? hfit, strays_iff hfit hfresh, not_not]
  by_cases hroom : ((c.block + (chainBytes items).length + 4 : ℕ) : ℤ) ≤ c.limit
  · cases hpos : posOf tag items with
    | some p =>
      rw [find?_block hfit hfresh hb hroom hpos]
      exact iff_of_true rfl ⟨Or.inl hroom, fun h => by cases h⟩
    | none =>
      rw [find?_absent hfit hfresh hb hroom hpos]
      exact ⟨fun h => ⟨Or.inl hroom, fun _ => h⟩, fun h => h.2 rfl⟩
  · obtain ⟨h, rest, hcons, -⟩ := hb.header
    obtain ⟨init, last, rfl⟩ : ∃ init last, items = init ++ [last] :=
      ⟨items.dropLast, items.getLast (by rw [hcons]; simp), (List.dropLast_append_getLast _).symm⟩
    have htight : (∀ i ∈ init, i.tag ≠ tag) → find? m c tag = none :=
      find?_tight hfit hfresh hb.chain hb.inside (by omega)
    rw [List.dropLast_concat]
    by_cases hin : ∃ i ∈ init, i.tag = tag
    · -- an item before the last: the walk does not get to the last one
      have hfind : find? m c tag = (posOf tag (init ++ [last])).map (c.block + ·) := by
        cases hpos : posOf tag (init ++ [last]) with
        | none =>
          obtain ⟨i, hi, ht⟩ := hin
          exact absurd ht ((posOf_none.mp hpos).2 i (List.mem_append_left _ hi))
        | some p => exact find?_before hfit hfresh hb.chain hb.inside hin hpos
      refine iff_of_true hfind ⟨Or.inr (Or.inr hin), fun hn => ?_⟩
      obtain ⟨i, hi, ht⟩ := hin
      exact absurd ht ((posOf_none.mp hn).2 i (List.mem_append_left _ hi))
    · have hall : ∀ i ∈ init, i.tag ≠ tag := fun i hi hit => hin ⟨i, hi, hit⟩
      rw [htight hall]
      constructor
      · intro hn
        have hnone : posOf tag (init ++ [last]) = none := Option.map_eq_none_iff.mp hn.symm
        refine ⟨Or.inr (Or.inl hnone), fun _ => ?_⟩
        -- nothing behind the limit is valid
        rw [seekFrom_eq hfit, if_neg]
        intro hv
        have hle := hv.le_limit
        rw [at_current, at_limit] at hle
        push_cast at hroom hle
        omega
      · rintro ⟨hn | hn | hn, -⟩
        · exact absurd hn hroom
        · rw [hn, Option.map_none]
        · exact absurd hn hin

/-- A header item without a value -/
def bareHeader : TlvItem := ⟨TLV_TAG_PARTITION_HEADER, 0, [], tagHeader_lt, tagHeader_ne_end, by decide, by decide⟩

/-- A header item, an END tag, and behind it what was left of a longer block -/
def leftover : Bytes :=
  bareHeader.bytes ++ le 4 TLV_TAG_END ++ le 4 0 ++ le 4 0x10020000 ++ le 4 0 ++ le 4 TLV_TAG_END ++ le 4 0

/-- The leftover is not in the way of the header's tag. -/
theorem find_header_leftover :
    tlvFind ⟨0, 0, none, 28⟩ TLV_TAG_PARTITION_HEADER leftover = .ret ⟨0, 0, none, 28⟩ leftover := by
  have hb : IsBlock leftover ⟨0, 0, none, 28⟩ [bareHeader] :=
    ⟨⟨_, _, rfl, rfl⟩, by decide, by decide, by decide⟩
  refine ((find_meets_spec_iff TLV_TAG_PARTITION_HEADER (by decide) rfl hb).mpr ?_).1 0 rfl
  refine ⟨Or.inl (by decide), ?_⟩
  exact fun h => by cases h

/-- The tag of an item that a shrunk block left behind its END tag is found there. -/
theorem find_strays : IsBlock leftover ⟨0, 0, none, 28⟩ [bareHeader] ∧
    tlvFind ⟨0, 0, none, 28⟩ 0x10020000 leftover = .ret ⟨0, 16, none, 28⟩ leftover ∧
    ¬ Finds leftover ⟨0, 0, none, 28⟩ [bareHeader] 0x10020000 := by
  have hfind : tlvFind ⟨0, 0, none, 28⟩ 0x10020000 leftover = .ret ⟨0, 16, none, 28⟩ leftover := by decide
  refine ⟨⟨⟨_, _, rfl, rfl⟩, by decide, by decide, by decide⟩, hfind, fun h => ?_⟩
  obtain ⟨e, he⟩ := h.2 (by decide)
  rw [hfind] at he
  cases he

end Sfxge.Tlv
