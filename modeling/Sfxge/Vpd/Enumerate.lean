import Sfxge.Vpd.Items

/-!
# Vpd.Enumerate — going through a VPD block

A caller that starts `efx_vpd_hunk_next` at `*contp = 0` and stops when it is 0 again is handed every item
of an accepted block once, in the order of the block, and `efx_vpd_hunk_get` answers with the first of them
that matches.  Both assert that an ID string is shorter than `0x100` bytes, which the check does not look at.
-/

namespace Sfxge.Vpd

open Lib Tag

variable {data : Bytes}

/-- The calls of `efx_vpd_hunk_next` from `cont` on, until `*contp` is 0 -/
def enumerateFrom (data : Bytes) : ℕ → ℕ → Except Errno (List Found)
  | 0, _ => .error .EFAULT
  | fuel + 1, cont =>
    match hunkNext data cont with
    | .error e => .error e
    | .ok f =>
      if f.cont = 0 then .ok [f]
      else match enumerateFrom data fuel f.cont with
        | .error e => .error e
        | .ok fs => .ok (f :: fs)

def enumerate (data : Bytes) : Except Errno (List Found) := enumerateFrom data (data.length + 1) 0

/-- An item as it is handed out with `*contp = index` -/
def Item.found (index : ℕ) (i : Item) : Found := ⟨i.tag, i.keyword, i.payload, i.paylen, index + 1, i.short⟩

/-- The item a lookup asks for, among those handed out -/
def Found.matches (tag : Option Tag) (keyword : ℕ) (f : Found) : Bool :=
  some f.tag = tag ∧ (f.tag = EFX_VPD_ID ∨ f.keyword = keyword)

/-- The enumeration and the lookup agree with what the block holds, and their assertions hold. -/
structure Agrees (data : Bytes) : Prop where
  enumerated : ∃ payload, enumerate data =
    .ok ((items data).mapIdx Item.found ++ [⟨EFX_VPD_END, 0, payload, 0, 0, true⟩])
  looked_up : ∀ tag keyword, (∃ f, ((items data).mapIdx Item.found).find? (Found.matches tag keyword) = some f ∧
      hunkGet data tag keyword = .ok ⟨f.payload, f.paylen, true⟩) ∨
    ((items data).mapIdx Item.found).find? (Found.matches tag keyword) = none ∧
      hunkGet data tag keyword = .error .ENOENT
  asserted : ∀ f ∈ (items data).mapIdx Item.found, f.asserted = true

/-! ### The items lie in the block, one behind the other -/

theorem itemsOfTag_length_le (hw : WellFormed data) {t : TagAt} (ht : t ∈ tagsOf data)
    (hb : t.head < t.offset) : (itemsOfTag data t).length ≤ t.offset + t.taglen - t.head := by
  unfold itemsOfTag
  split_ifs with hid
  · simp only [List.length_singleton]
    omega
  · obtain ⟨q, hks⟩ := hw.keywords t ht hid
    have hle := hks.length_le fun p k p' hp => (keywords_ok hp).1
    have hq := keywords_none hks.end_eq
    have hc : (contents data t).length ≤ t.taglen := by simp [contents, slice]
    rw [List.length_map]
    omega

/-- There are no more items than bytes. -/
theorem items_length_le (hw : WellFormed data) : (items data).length ≤ data.length := by
  obtain ⟨head, hts⟩ := hw.tags
  obtain ⟨taglen, offset, hend⟩ := tags_none hts.end_eq
  have hhead := nextTag_ok hend
  have hitems : ∀ {p q : ℕ} {ts : List TagAt}, Reads (tags data) p ts q → (∀ t ∈ ts, t ∈ tagsOf data) →
      p + (ts.flatMap (itemsOfTag data)).length ≤ q := by
    intro p q ts h hts
    induction h with
    | nil h => simp
    | @cons p p' q t ts hp _ ih =>
      obtain ⟨-, -, -, hnext, hthead, hp'⟩ := tags_ok hp
      have hoffset := (nextTag_ok hnext).1
      have hrest := ih fun t' ht' => hts t' (by simp [ht'])
      have hone := itemsOfTag_length_le hw (hts t (by simp)) (by rw [hthead]; exact hoffset)
      rw [List.flatMap_cons, List.length_append]
      omega
  have := hitems hts fun t ht => ht
  unfold items
  omega

/-! ### The enumeration -/

/-- From an item on, the calls hand out the rest of the items and the END tag. -/
theorem enumerateFrom_eq (hw : WellFormed data) (fuel cont : ℕ) (hcont : cont ≤ (items data).length)
    (hfuel : (items data).length < fuel + cont) :
    ∃ payload, enumerateFrom data fuel cont = .ok
      (((items data).mapIdx Item.found).drop cont ++ [⟨EFX_VPD_END, 0, payload, 0, 0, true⟩]) := by
  induction fuel generalizing cont with
  | zero => omega
  | succ fuel ih =>
    obtain ⟨payload, hnext⟩ := hunkNext_eq hw cont
    rcases Nat.lt_or_eq_of_le hcont with hlt | heq
    · have hget : (items data)[cont]? = some (items data)[cont] := List.getElem?_eq_getElem hlt
      obtain ⟨payload', hrest⟩ := ih (cont + 1) (by omega) (by omega)
      have hdrop : ((items data).mapIdx Item.found).drop cont =
          (items data)[cont].found cont :: ((items data).mapIdx Item.found).drop (cont + 1) := by
        rw [List.drop_eq_getElem_cons (by simpa using hlt), List.getElem_mapIdx]
      refine ⟨payload', ?_⟩
      rw [hget] at hnext
      rw [enumerateFrom, hnext]
      dsimp only
      rw [if_neg (by omega), hrest, hdrop]
      rfl
    · have hnone : (items data)[cont]? = none := List.getElem?_eq_none (by omega)
      refine ⟨payload, ?_⟩
      rw [hnone] at hnext
      rw [enumerateFrom, hnext]
      dsimp only
      rw [if_pos rfl, heq, List.drop_eq_nil_of_le (by simp)]
      rfl

theorem enumerate_eq (hw : WellFormed data) :
    ∃ payload, enumerate data =
      .ok ((items data).mapIdx Item.found ++ [⟨EFX_VPD_END, 0, payload, 0, 0, true⟩]) := by
  have hle := items_length_le hw
  obtain ⟨payload, h⟩ := enumerateFrom_eq hw (data.length + 1) 0 (Nat.zero_le _) (by omega)
  exact ⟨payload, by rw [enumerate, h, List.drop_zero]⟩

/-- The first item that matches is the first one handed out that matches. -/
theorem find?_mapIdx (is : List Item) (tag : Option Tag) (keyword : ℕ) :
    (∃ i f, is.find? (Item.matches tag keyword) = some i ∧
      (is.mapIdx Item.found).find? (Found.matches tag keyword) = some f ∧ f ∈ is.mapIdx Item.found ∧
      f.payload = i.payload ∧ f.paylen = i.paylen ∧ f.asserted = i.short) ∨
    is.find? (Item.matches tag keyword) = none ∧
      (is.mapIdx Item.found).find? (Found.matches tag keyword) = none := by
  have hfrom : ∀ n, (∃ i f, is.find? (Item.matches tag keyword) = some i ∧
      (is.mapIdx fun k => Item.found (k + n)).find? (Found.matches tag keyword) = some f ∧
      f ∈ is.mapIdx (fun k => Item.found (k + n)) ∧
      f.payload = i.payload ∧ f.paylen = i.paylen ∧ f.asserted = i.short) ∨
      is.find? (Item.matches tag keyword) = none ∧
      (is.mapIdx fun k => Item.found (k + n)).find? (Found.matches tag keyword) = none := by
    induction is with
    | nil => exact fun n => Or.inr ⟨rfl, rfl⟩
    | cons i is ih =>
      intro n
      rw [List.mapIdx_cons, List.find?_cons, List.find?_cons]
      have hm : Found.matches tag keyword (Item.found (0 + n) i) = Item.matches tag keyword i := rfl
      rw [hm]
      cases Item.matches tag keyword i with
      | true => exact Or.inl ⟨i, _, rfl, rfl, by simp, rfl, rfl, rfl⟩
      | false =>
        have hshift : (fun k => Item.found (k + 1 + n)) = fun k => Item.found (k + (n + 1)) := by
          funext k
          rw [Nat.add_assoc, Nat.add_comm 1]
        rcases ih (n + 1) with ⟨j, f, hj, hf, hmem, hfs⟩ | ⟨hj, hf⟩
        · refine Or.inl ⟨j, f, hj, ?_, ?_, hfs⟩
          · rw [hshift]
            exact hf
          · rw [hshift]
            exact List.mem_cons_of_mem _ hmem
        · refine Or.inr ⟨hj, ?_⟩
          rw [hshift]
          exact hf
  exact hfrom 0

/-! ### The assertions -/

/-- The ID strings of the block are shorter than `0x100` bytes. -/
def ShortIds (data : Bytes) : Prop := ∀ t ∈ tagsOf data, t.tag = EFX_VPD_ID → t.taglen < 0x100

instance (data : Bytes) : Decidable (ShortIds data) := by unfold ShortIds; infer_instance

theorem short_iff : (∀ i ∈ items data, i.short = true) ↔ ShortIds data := by
  constructor
  · intro h t ht hid
    have hmem : t.item ∈ items data := by
      refine List.mem_flatMap.mpr ⟨t, ht, ?_⟩
      rw [itemsOfTag, if_pos hid]
      exact List.mem_singleton.mpr rfl
    simpa [TagAt.item] using h _ hmem
  · intro h i hi
    obtain ⟨t, ht, hit⟩ := List.mem_flatMap.mp hi
    unfold itemsOfTag at hit
    split_ifs at hit with hid
    · rw [List.mem_singleton] at hit
      subst hit
      simpa [TagAt.item] using h t ht hid
    · obtain ⟨k, -, rfl⟩ := List.mem_map.mp hit
      rfl

theorem asserted_iff : (∀ f ∈ (items data).mapIdx Item.found, f.asserted = true) ↔ ShortIds data := by
  rw [← short_iff]
  simp only [List.mem_mapIdx]
  constructor
  · intro h i hi
    obtain ⟨k, hk, rfl⟩ := List.getElem_of_mem hi
    exact h _ ⟨k, hk, rfl⟩
  · rintro h f ⟨k, hk, rfl⟩
    exact h _ (List.getElem_mem hk)

/-- **Three scans of a block.**  On a block that `efx_vpd_hunk_verify` accepts, the enumeration hands out
every item once and in order, the lookup finds the first of them that matches, and no assertion fails, if and
only if every ID string is shorter than `0x100` bytes. -/
theorem scans_agree_iff {data : Bytes} {cksummed : Bool} (h : hunkVerify data = .ok cksummed) :
    Agrees data ↔ ShortIds data := by
  have hw := wellFormed_of_hunkVerify h
  constructor
  · exact fun ha => asserted_iff.mp ha.asserted
  · intro hs
    have hasserted := asserted_iff.mpr hs
    refine ⟨enumerate_eq hw, fun tag keyword => ?_, hasserted⟩
    have hget := hunkGet_eq hw tag keyword
    rcases find?_mapIdx (items data) tag keyword with ⟨i, f, hi, hf, hmem, hp, hl, hshort⟩ | ⟨hi, hf⟩
    · refine Or.inl ⟨f, hf, ?_⟩
      rw [hi] at hget
      have htrue : i.short = true := hshort ▸ hasserted f hmem
      rw [hget, hp, hl, ← htrue]
    · refine Or.inr ⟨hf, ?_⟩
      rw [hi] at hget
      exact hget

/-- A block whose ID string is `0x100` bytes long -/
def longId : Bytes := [0x82, 0x00, 0x01] ++ List.replicate 0x100 0x20 ++ [0x90, 0x04, 0x00, 0x52, 0x56, 0x01, 0x40, 0x78]

theorem scans_agree_blank : ∃ data : Bytes, Agrees data ∧ ShortIds data := by
  have hv : hunkVerify [0x82, 0x01, 0x00, 0x32, 0x90, 0x04, 0x00, 0x52, 0x56, 0x01, 0x0e, 0x78] = .ok true := by
    decide
  exact ⟨_, (scans_agree_iff hv).mpr (by decide), by decide⟩

/-- The check of a keyword, with the bytes summed in one pass -/
theorem verifyKeyword_eq (data : Bytes) : verifyKeyword data = fun offset cksummed k =>
    if cksummed then .error .EFAULT
    else if k.keyword = RV then
      if ((data.take (offset + k.pos + 4)).map UInt8.toNat).sum % 256 ≠ 0 then .error .EFAULT else .ok (.next true)
    else .ok (.next cksummed) := by
  funext offset cksummed k
  rw [verifyKeyword, bsum_eq_sum]

theorem long_id_asserts : hunkVerify longId = .ok true ∧ ¬ Agrees longId := by
  constructor
  · have htags : eachTag longId (verifyTag longId) false = .ok (.next (true, 266)) := by
      unfold verifyTag
      rw [verifyKeyword_eq]
      decide +kernel
    rw [hunkVerify, htags]
    rfl
  · intro h
    have htags : tagsOf longId = [⟨0, EFX_VPD_ID, 256, 3⟩, ⟨259, EFX_VPD_RO, 4, 262⟩] := by decide +kernel
    have hlong : (⟨0, EFX_VPD_ID, 256, 3⟩ : TagAt) ∈ tagsOf longId := by
      rw [htags]
      exact List.mem_cons_self
    exact absurd (asserted_iff.mp h.asserted _ hlong rfl) (by decide)

end Sfxge.Vpd
