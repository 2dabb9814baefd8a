import Sfxge.Vpd.Hunk

/-!
# Vpd.Items — what a VPD block holds

The items of a block are its ID strings and the keywords of its read-only tags, in their order.  A block
that `efx_vpd_hunk_verify` accepts reads from its first tag to the END tag, and there the lookup is the
first item that matches and the enumeration goes through the items one by one.
-/

namespace Sfxge.Vpd

open Lib Tag

/-- An ID string, or a keyword of a read-only tag -/
structure Item where
  tag : Tag
  keyword : ℕ
  payload : ℕ
  paylen : ℕ
  /-- an ID string is of a length that fits in a byte -/
  short : Bool
  deriving Repr, DecidableEq

def TagAt.item (t : TagAt) : Item := ⟨EFX_VPD_ID, 0, t.offset, min t.taglen 0xff, t.taglen < 0x100⟩

def KeywordAt.item (offset : ℕ) (k : KeywordAt) : Item := ⟨EFX_VPD_RO, k.keyword, offset + (k.pos + 3), k.keylen, true⟩

def tagsOf (data : Bytes) : List TagAt := collect (tags data) (data.length + 1) 0

def keywordsOf (tag : Bytes) : List KeywordAt := collect (keywords tag) (tag.length + 1) 0

def itemsOfTag (data : Bytes) (t : TagAt) : List Item :=
  if t.tag = EFX_VPD_ID then [t.item]
  else (keywordsOf (contents data t)).map (KeywordAt.item t.offset)

/-- The items of a block -/
def items (data : Bytes) : List Item := (tagsOf data).flatMap (itemsOfTag data)

/-- The item a lookup asks for; an ID string goes by any keyword. -/
def Item.matches (tag : Option Tag) (keyword : ℕ) (i : Item) : Bool :=
  some i.tag = tag ∧ (i.tag = EFX_VPD_ID ∨ i.keyword = keyword)

/-- The bytes of an item -/
def Item.value (data : Bytes) (i : Item) : Bytes := slice data i.payload i.paylen

/-! ### Blocks that read to their END tag -/

variable {data tag : Bytes} {ts : List TagAt} {ks : List KeywordAt} {head q : ℕ}

theorem tags_ok {p p' : ℕ} {t : TagAt} (h : tags data p = .ok (some (t, p'))) :
    p < p' ∧ p' ≤ data.length ∧ t.tag ≠ EFX_VPD_END ∧ nextTag data p = .ok (t.tag, t.taglen, t.offset) ∧
      t.head = p ∧ p' = t.offset + t.taglen := by
  unfold tags at h
  cases hn : nextTag data p with
  | error e => rw [hn] at h; cases h
  | ok r =>
    obtain ⟨tag, taglen, offset⟩ := r
    rw [hn] at h
    dsimp only at h
    split_ifs at h with hend
    · cases h
    · cases h
      have := nextTag_ok hn
      exact ⟨by omega, this.2, hend, rfl, rfl, rfl⟩

theorem tags_none {p : ℕ} (h : tags data p = .ok none) :
    ∃ taglen offset, nextTag data p = .ok (EFX_VPD_END, taglen, offset) := by
  unfold tags at h
  cases hn : nextTag data p with
  | error e => rw [hn] at h; cases h
  | ok r =>
    obtain ⟨tag, taglen, offset⟩ := r
    rw [hn] at h
    dsimp only at h
    split_ifs at h with hend
    · exact ⟨taglen, offset, by rw [hend]⟩
    · cases h

theorem keywords_ok {p p' : ℕ} {k : KeywordAt} (h : keywords tag p = .ok (some (k, p'))) :
    p < p' ∧ p' ≤ tag.length ∧ p' = k.pos + 3 + k.keylen := by
  unfold keywords at h
  split_ifs at h with h0
  · cases h
  · cases hn : nextKeyword tag p with
    | error e => rw [hn] at h; cases h
    | ok r =>
      obtain ⟨keyword, keylen⟩ := r
      rw [hn] at h
      cases h
      unfold nextKeyword at hn
      dsimp only at hn
      split_ifs at hn with h1 h2
      cases hn
      dsimp only
      omega

theorem keywords_none {p : ℕ} (h : keywords tag p = .ok none) : p = tag.length := by
  unfold keywords at h
  split_ifs at h with h0
  · exact h0
  · cases hn : nextKeyword tag p with
    | error e => rw [hn] at h; cases h
    | ok r => rw [hn] at h; cases h

theorem tags_length_le (h : Reads (tags data) 0 ts head) : ts.length < data.length + 1 := by
  have hle := h.length_le fun p t p' hp => (tags_ok hp).1
  obtain ⟨taglen, offset, hn⟩ := tags_none h.end_eq
  have := nextTag_ok hn
  omega

theorem keywords_length_le (h : Reads (keywords tag) 0 ks q) : ks.length < tag.length + 1 := by
  have hle := h.length_le fun p t p' hp => (keywords_ok hp).1
  have := keywords_none h.end_eq
  omega

variable {σ β : Type}

theorem eachTag_eq (h : Reads (tags data) 0 ts head) {body : σ → TagAt → Except Errno (Round σ β)} (s : σ) :
    eachTag data body s = (rounds body ts s).map (Round.atEnd head) :=
  h.walk_eq (tags_length_le h) s

theorem eachKeyword_eq (h : Reads (keywords tag) 0 ks q) {body : σ → KeywordAt → Except Errno (Round σ β)} (s : σ) :
    eachKeyword tag body s = (rounds body ks s).map (Round.atEnd q) :=
  h.walk_eq (keywords_length_le h) s

@[simp] theorem inTag_map (r : Except Errno (Round σ β)) : inTag (r.map (Round.atEnd q)) = r := by
  cases r with
  | error e => rfl
  | ok r => cases r <;> rfl

theorem tagsOf_eq (h : Reads (tags data) 0 ts head) : tagsOf data = ts := h.collect_eq (tags_length_le h)

theorem keywordsOf_eq (h : Reads (keywords tag) 0 ks q) : keywordsOf tag = ks := h.collect_eq (keywords_length_le h)

/-- The block reads: its tags up to the END tag, and in each the keywords up to its end. -/
structure WellFormed (data : Bytes) : Prop where
  tags : ∃ head, Reads (tags data) 0 (tagsOf data) head
  keywords : ∀ t ∈ tagsOf data, t.tag ≠ EFX_VPD_ID →
    ∃ q, Reads (keywords (contents data t)) 0 (keywordsOf (contents data t)) q

theorem WellFormed.of_reads (h : Reads (Vpd.tags data) 0 ts head)
    (hk : ∀ t ∈ ts, t.tag ≠ EFX_VPD_ID → ∃ ks q, Reads (Vpd.keywords (contents data t)) 0 ks q) :
    WellFormed data := by
  have hts := tagsOf_eq h
  refine ⟨⟨head, by rwa [hts]⟩, fun t ht hid => ?_⟩
  obtain ⟨ks, q, hks⟩ := hk t (by rwa [← hts]) hid
  exact ⟨q, by rwa [keywordsOf_eq hks]⟩

/-- **What the check accepts reads.** -/
theorem wellFormed_of_hunkVerify {c : Bool} (h : hunkVerify data = .ok c) : WellFormed data := by
  unfold hunkVerify at h
  cases hw : eachTag data (verifyTag data) false with
  | error e => rw [hw] at h; cases h
  | ok r =>
    cases r with
    | stop b => exact b.elim
    | next s =>
      obtain ⟨ck, head⟩ := s
      obtain ⟨ts, hts, hrounds⟩ := Reads.of_walk hw
      refine WellFormed.of_reads hts fun t ht hid => ?_
      -- the round of the tag went on, and so did the loop over its keywords
      obtain ⟨pre, post, rfl⟩ := List.append_of_mem ht
      rw [rounds_append] at hrounds
      cases hpre : rounds (verifyTag data) pre false with
      | error e => rw [hpre] at hrounds; cases hrounds
      | ok r =>
        cases r with
        | stop b => exact b.elim
        | next s =>
          rw [hpre] at hrounds
          dsimp only at hrounds
          rw [rounds, verifyTag, if_neg hid] at hrounds
          cases hk : eachKeyword (contents data t) (verifyKeyword data t.offset) s with
          | error e => rw [hk] at hrounds; cases hrounds
          | ok r =>
            cases r with
            | stop b => exact b.elim
            | next x =>
              obtain ⟨s', q⟩ := x
              obtain ⟨ks, hks, -⟩ := Reads.of_walk hk
              exact ⟨ks, q, hks⟩

/-! ### Lookup and enumeration -/

/-- The rounds of a loop over the tags whose body loops over the keywords are rounds over the items. -/
theorem WellFormed.rounds_eq (hw : WellFormed data) {body : σ → TagAt → Except Errno (Round σ β)}
    {inner : σ → Item → Except Errno (Round σ β)}
    (hid : ∀ t s, t.tag = EFX_VPD_ID → body s t = rounds inner (itemsOfTag data t) s)
    (hro : ∀ t ks s, t.tag = EFX_VPD_RO → (∃ q, Reads (Vpd.keywords (contents data t)) 0 ks q) →
      body s t = rounds inner (ks.map (KeywordAt.item t.offset)) s) (s : σ) :
    rounds body (tagsOf data) s = rounds inner (items data) s := by
  obtain ⟨head, hts⟩ := hw.tags
  refine rounds_flatMap (fun t ht s => ?_) s
  by_cases h : t.tag = EFX_VPD_ID
  · exact hid t s h
  · have hnot : t.tag ≠ EFX_VPD_END := by
      clear hid hro
      generalize tagsOf data = ts at hts ht
      generalize 0 = p at hts
      induction hts with
      | nil h => cases ht
      | cons hp _ ih =>
        rcases List.mem_cons.mp ht with rfl | ht
        · exact (tags_ok hp).2.2.1
        · exact ih ht
    have htag : t.tag = EFX_VPD_RO := by
      cases hc : t.tag with
      | EFX_VPD_ID => exact absurd hc h
      | EFX_VPD_END => exact absurd hc hnot
      | EFX_VPD_RO => rfl
    rw [hro t _ s htag (hw.keywords t ht h), itemsOfTag, if_neg h]

/-- **Lookup.**  `efx_vpd_hunk_get` finds the first item that matches. -/
theorem hunkGet_eq (hw : WellFormed data) (tag : Option Tag) (keyword : ℕ) :
    hunkGet data tag keyword = match (items data).find? (Item.matches tag keyword) with
      | some i => .ok ⟨i.payload, i.paylen, i.short⟩
      | none => .error .ENOENT := by
  obtain ⟨head, hts⟩ := hw.tags
  let inner : Unit → Item → Except Errno (Round Unit Got) := fun _ i =>
    if i.matches tag keyword then .ok (.stop ⟨i.payload, i.paylen, i.short⟩) else .ok (.next ())
  have hrounds : rounds (getTag data tag keyword) (tagsOf data) () = rounds inner (items data) () := by
    refine hw.rounds_eq (fun t s ht => ?_) (fun t ks s ht hks => ?_) ()
    · rw [getTag, itemsOfTag, if_pos ht, if_pos ht]
      by_cases hm : some t.tag = tag
      · subst hm
        simp [inner, rounds, Item.matches, TagAt.item, ht]
      · rw [ht] at hm
        simp [inner, rounds, Item.matches, TagAt.item, ht, hm]
    · obtain ⟨q, hks⟩ := hks
      have hid : t.tag ≠ EFX_VPD_ID := by rw [ht]; decide
      rw [getTag, if_neg hid, eachKeyword_eq hks, inTag_map]
      by_cases hm : some t.tag = tag
      · rw [if_pos hm]
        refine rounds_map (fun s k => ?_) ks s
        rw [ht] at hm
        subst hm
        simp [inner, getKeyword, Item.matches, KeywordAt.item, Nat.add_assoc]
      · rw [if_neg hm]
        refine (rounds_skip fun i hi => ?_).symm
        obtain ⟨k, -, rfl⟩ := List.mem_map.mp hi
        rw [ht] at hm
        simp [inner, Item.matches, KeywordAt.item, hm]
  rw [hunkGet, eachTag_eq hts, hrounds,
    rounds_find (P := Item.matches tag keyword) (f := fun i => ⟨i.payload, i.paylen, i.short⟩) fun i _ => rfl]
  cases (items data).find? (Item.matches tag keyword) <;> rfl

/-- **Enumeration.**  `efx_vpd_hunk_next` hands out the items in their order, and then starts over. -/
theorem hunkNext_eq (hw : WellFormed data) (cont : ℕ) :
    ∃ payload, hunkNext data cont = match (items data)[cont]? with
      | some i => .ok ⟨i.tag, i.keyword, i.payload, i.paylen, cont + 1, i.short⟩
      | none => .ok ⟨EFX_VPD_END, 0, payload, 0, 0, true⟩ := by
  obtain ⟨head, hts⟩ := hw.tags
  let found : Item → Found := fun i => ⟨i.tag, i.keyword, i.payload, i.paylen, cont + 1, i.short⟩
  let inner : ℕ → Item → Except Errno (Round ℕ Found) := fun index i =>
    if index = cont then .ok (.stop (found i)) else .ok (.next (index + 1))
  have hrounds : rounds (nextOfTag data cont) (tagsOf data) 0 = rounds inner (items data) 0 := by
    refine hw.rounds_eq (fun t s ht => ?_) (fun t ks s ht hks => ?_) 0
    · rw [nextOfTag, itemsOfTag, if_pos ht, if_pos ht, rounds]
      by_cases hs : s = cont
      · simp [inner, found, TagAt.item, hs]
      · simp [inner, hs, rounds]
    · obtain ⟨q, hks⟩ := hks
      rw [nextOfTag, if_neg (by rw [ht]; decide), eachKeyword_eq hks, inTag_map]
      refine rounds_map (fun s k => ?_) ks s
      by_cases hs : s = cont
      · simp [inner, found, nextOfKeyword, KeywordAt.item, hs]
      · simp [inner, nextOfKeyword, hs]
  obtain ⟨taglen, offset, hend⟩ := tags_none hts.end_eq
  refine ⟨offset, ?_⟩
  rw [hunkNext, eachTag_eq hts, hrounds, rounds_index (f := found) (fun i _ s => rfl) (Nat.zero_le cont)]
  rw [Nat.sub_zero]
  cases (items data)[cont]? with
  | none => simp [Except.map, Round.atEnd, hend]
  | some i => rfl

end Sfxge.Vpd
