import Sfxge.Vpd.Edit

/-!
# Vpd.Store — a block as a store of keywords

From `efx_vpd_hunk_reinit` on, every `efx_vpd_hunk_set` that succeeds leaves a block that `efx_vpd_hunk_verify` accepts
and in which `efx_vpd_hunk_get` finds the values set last, and one that fails leaves the block alone, as long as the
keyword and the length of its tag read as they are put.  The first that do not break the block.
-/

namespace Sfxge.Vpd

open Lib Prog Tag

variable {id : Option Bytes} {es es1 es2 old : List Entry} {ck : UInt8} {rest data : Bytes} {k : ℕ} {v : Value}

/-- A block, and the value that was set last of each tag and keyword; the empty one is none. -/
structure Held where
  hunk : Bytes
  value : Option Tag → ℕ → Bytes

/-- The value goes by the keyword; that of the ID string by any. -/
def Value.Names (v : Value) (tag : Option Tag) (keyword : ℕ) : Prop :=
  tag = v.evvTag ∧ (keyword = v.evvKeyword ∨ tag = some EFX_VPD_ID)

instance (v : Value) (tag : Option Tag) (keyword : ℕ) : Decidable (v.Names tag keyword) :=
  inferInstanceAs (Decidable (_ ∧ _))

/-- After a set that succeeded. -/
def Held.set (s : Held) (v : Value) (hunk : Bytes) : Held :=
  ⟨hunk, fun tag keyword => if v.Names tag keyword then v.evvValue else s.value tag keyword⟩

theorem Held.set_pos {s : Held} {hunk : Bytes} {tag : Option Tag} (h : v.Names tag k) :
    (s.set v hunk).value tag k = v.evvValue := if_pos h

theorem Held.set_neg {s : Held} {hunk : Bytes} {tag : Option Tag} (h : ¬ v.Names tag k) :
    (s.set v hunk).value tag k = s.value tag k := if_neg h

/-- A call of `efx_vpd_hunk_set` -/
def setStep (v : Value) (s : Held) : Option Held :=
  match hunkSet v s.hunk with
  | .ret _ hunk => some (s.set v hunk)
  | .err _ hunk => some ⟨hunk, s.value⟩
  | _ => none

/-- The block is accepted, and every keyword but the checksum is found with the value set last. -/
structure Serves (s : Held) : Prop where
  verified : hunkVerify s.hunk = .ok true
  gives : ∀ tag keyword, tag ≠ some EFX_VPD_RO ∨ keyword ≠ RV → Gives s.hunk tag keyword (s.value tag keyword)

/-- A call that fails leaves the block alone. -/
def FailsClean (v : Value) (s s' : Held) : Prop := ∀ e hunk, hunkSet v s.hunk = .err e hunk → s'.hunk = s.hunk

/-- What a set that goes through puts reads as it is put: the keyword, and the length of the tag then. -/
def Legible (v : Value) (s : Held) : Prop :=
  match place s.hunk v, efxVpdHunkLength s.hunk with
  | .ok (some p), .ok used => v.Allowed → used + p.dest ≤ s.hunk.length + p.source →
      ReadsBack v.evvKeyword ∧ ReadsBack (p.t.taglen + p.dest - p.source)
  | _, _ => True

/-- The block is laid out with the ID string and the keywords that were set last. -/
structure Laid (s : Held) (id : Option Bytes) (es : List Entry) : Prop where
  hunk : ∃ rest, s.hunk = laid id es (cksumOf id es) rest
  readable : Readable id es
  keywords : ∀ e ∈ es, ReadsBack e.keyword
  nodup : (es.map Entry.keyword).Nodup
  id_ok : ∀ t ∈ id, t ≠ [] ∧ t.length < 256
  value_id : ∀ k, s.value (some EFX_VPD_ID) k = id.getD []
  value_ro : ∀ k, k ≠ RV → s.value (some EFX_VPD_RO) k = valueOf es k
  value_other : ∀ tag k, tag ≠ some EFX_VPD_ID → tag ≠ some EFX_VPD_RO → s.value tag k = []

theorem Laid.serves {h : Held} (hl : Laid h id es) : Serves h := by
  obtain ⟨rest, hh⟩ := hl.hunk
  refine ⟨?_, fun tag k hk => ?_⟩
  · rw [hh, hunkVerify_laid hl.readable, if_pos (cksumOf_sum id es)]
  · rw [hh]
    by_cases hid : tag = some EFX_VPD_ID
    · subst hid
      rw [hl.value_id]
      exact gives_id hl.readable hl.id_ok _ rest k
    · by_cases hro : tag = some EFX_VPD_RO
      · subst hro
        have hrv := hk.resolve_left (not_not.mpr rfl)
        rw [hl.value_ro k hrv]
        exact gives_ro hl.readable _ rest hrv
      · rw [hl.value_other tag k hid hro]
        exact gives_other hl.readable _ rest hid hro k

/-! ### One set -/

theorem valueOf_skip {mid : List Entry} (h : ∀ e ∈ mid, readWord e.keyword ≠ k) :
    valueOf (es1 ++ mid ++ es2) k = valueOf (es1 ++ es2) k := by
  have hmid : mid.find? (fun e => readWord e.keyword = k) = none :=
    List.find?_eq_none.mpr fun e he => by simpa using h e he
  rw [valueOf, valueOf, List.find?_append, List.find?_append, hmid, Option.or_none, ← List.find?_append]

theorem mem_entries {e : Entry} (h : e ∈ v.entries) : e.keyword = v.evvKeyword ∧ e.value = v.evvValue := by
  unfold Value.entries at h
  split_ifs at h
  · cases h
  · obtain rfl := List.mem_singleton.mp h
    exact ⟨rfl, rfl⟩

/-- The values of the keywords after the edit. -/
theorem valueOf_edit (hg : Goes v.evvKeyword es1 old es2) (hread : ∀ e ∈ es1 ++ old ++ es2, ReadsBack e.keyword)
    (hnodup : ((es1 ++ old ++ es2).map Entry.keyword).Nodup) (hk : v.evvLength ≠ 0 → ReadsBack v.evvKeyword) (k : ℕ) :
    valueOf (es1 ++ v.entries ++ es2) k = if k = v.evvKeyword then v.evvValue else valueOf (es1 ++ old ++ es2) k := by
  by_cases hkk : k = v.evvKeyword
  · subst hkk
    rw [if_pos rfl]
    by_cases h0 : v.evvLength = 0
    · have hv : v.evvValue = [] := List.length_eq_zero_iff.mp h0
      have hbehind : ∀ e ∈ es2, readWord e.keyword ≠ v.evvKeyword := by
        intro e he
        rcases hg.at_old with ⟨o, rfl, ho⟩ | ⟨-, rfl⟩
        · have hro : o.keyword = v.evvKeyword := (hread o (by simp)).symm.trans ho
          have hne : o.keyword ≠ e.keyword := by
            simp only [List.map_append, List.map_cons, List.append_assoc, List.singleton_append] at hnodup
            have htail := (List.nodup_append.mp hnodup).2.1
            exact fun heq => (List.nodup_cons.mp htail).1 (heq ▸ List.mem_map_of_mem he)
          rw [show readWord e.keyword = e.keyword from hread e (by simp [he]), ← hro]
          exact hne.symm
        · cases he
      rw [entries_eq_nil.mpr h0, List.append_nil, hv]
      exact valueOf_none fun e he => (List.mem_append.mp he).elim (hg.before e) (hbehind e)
    · obtain ⟨n, hn⟩ : ∃ n, v.entries = [n] := by
        unfold Value.entries
        rw [dif_neg fun hv => h0 (List.length_eq_zero_iff.mpr hv)]
        exact ⟨_, rfl⟩
      obtain ⟨hnk, hnv⟩ := mem_entries (show n ∈ v.entries by simp [hn])
      rw [hn, List.append_assoc, List.singleton_append, valueOf_some hg.before (hnk ▸ hk h0), hnv]
  · rw [if_neg hkk]
    have hold : ∀ e ∈ old, readWord e.keyword ≠ k := by
      intro e he
      rcases hg.at_old with ⟨o, rfl, ho⟩ | ⟨rfl, -⟩
      · obtain rfl := List.mem_singleton.mp he
        rw [ho]
        exact Ne.symm hkk
      · cases he
    have hnew : ∀ e ∈ v.entries, readWord e.keyword ≠ k := by
      intro e he
      have h0 : v.evvLength ≠ 0 := fun h0 => by
        rw [entries_eq_nil.mpr h0] at he
        cases he
      rw [(mem_entries he).1, show readWord v.evvKeyword = _ from hk h0]
      exact Ne.symm hkk
    rw [valueOf_skip hold, valueOf_skip hnew]

/-- A keyword has been set. -/
theorem Laid.edit {h : Held} (hl : Laid h id (es1 ++ old ++ es2)) (hv : v.evvTag = some EFX_VPD_RO)
    (hrv : v.evvKeyword ≠ RV) (hg : Goes v.evvKeyword es1 old es2) (hk : v.evvLength ≠ 0 → ReadsBack v.evvKeyword)
    (hn : ReadsBack ((body (es1 ++ v.entries ++ es2)).length + 4)) (rest : Bytes) :
    Laid (h.set v (laid id (es1 ++ v.entries ++ es2) (cksumOf id (es1 ++ v.entries ++ es2)) rest)) id
      (es1 ++ v.entries ++ es2) := by
  have hentry : ∀ e ∈ v.entries, ReadsBack e.keyword ∧ e.keyword = v.evvKeyword := by
    intro e he
    have h0 : v.evvLength ≠ 0 := fun h0 => by
      rw [entries_eq_nil.mpr h0] at he
      cases he
    have hek := (mem_entries he).1
    exact ⟨hek ▸ hk h0, hek⟩
  have hmem : ∀ e ∈ es1 ++ v.entries ++ es2, e ∈ v.entries ∨ e ∈ es1 ++ old ++ es2 := by
    intro e he
    simp only [List.mem_append] at he ⊢
    tauto
  have hread : ∀ e ∈ es1 ++ v.entries ++ es2, ReadsBack e.keyword := fun e he =>
    (hmem e he).elim (fun he => (hentry e he).1) (hl.keywords e)
  refine ⟨⟨rest, rfl⟩, ⟨hl.readable.id, hn, fun e he => ?_⟩, hread, ?_, hl.id_ok, fun k => ?_, fun k hkrv => ?_,
    fun tag k hid hro => ?_⟩
  · rcases hmem e he with he | he
    · rw [show readWord e.keyword = e.keyword from (hentry e he).1, (hentry e he).2]
      exact hrv
    · exact hl.readable.rv e he
  · have hnodup := hl.nodup
    rcases hg.at_old with ⟨o, rfl, ho⟩ | ⟨rfl, rfl⟩
    · have hok : o.keyword = v.evvKeyword := (hl.keywords o (by simp)).symm.trans ho
      by_cases h0 : v.entries = []
      · refine hnodup.sublist ?_
        rw [h0]
        simp
      · obtain ⟨n, hn⟩ : ∃ n, v.entries = [n] := by
          unfold Value.entries at h0 ⊢
          split_ifs at h0 ⊢ with hval
          · exact absurd rfl h0
          · exact ⟨_, rfl⟩
        have hnk := (hentry n (by simp [hn])).2
        rw [hn]
        simpa [hnk, hok] using hnodup
    · rw [List.append_nil, List.map_append, List.nodup_append]
      rw [List.append_nil, List.append_nil] at hnodup
      refine ⟨hnodup, ?_, fun a ha b hb => ?_⟩
      · unfold Value.entries
        split_ifs <;> simp
      · obtain ⟨e, he, rfl⟩ := List.mem_map.mp ha
        obtain ⟨n, hnn, rfl⟩ := List.mem_map.mp hb
        rw [(hentry n hnn).2, ← show readWord e.keyword = e.keyword from hl.keywords e (by simp [he])]
        exact hg.before e he
  · have hno : ¬ v.Names (some EFX_VPD_ID) k := by simp [Value.Names, hv]
    rw [Held.set_neg hno, hl.value_id]
  · rw [valueOf_edit hg hl.keywords hl.nodup hk]
    by_cases hkk : k = v.evvKeyword
    · rw [if_pos hkk, Held.set_pos ⟨hv.symm, Or.inl hkk⟩]
    · rw [if_neg hkk, Held.set_neg fun hc => hc.2.elim hkk (by simp), hl.value_ro k hkrv]
  · have hno : ¬ v.Names tag k := fun hc => hro (hc.1.trans hv)
    rw [Held.set_neg hno, hl.value_other tag k hid hro]

/-- The ID string has been set. -/
theorem Laid.edit_id {h : Held} {s : Bytes} (hl : Laid h (some s) es) (hv : v.evvTag = some EFX_VPD_ID)
    (h0 : v.evvLength ≠ 0) (hn : ReadsBack v.evvLength) (rest : Bytes) :
    Laid (h.set v (laid (some v.evvValue) es (cksumOf (some v.evvValue) es) rest)) (some v.evvValue) es := by
  refine ⟨⟨rest, rfl⟩, ⟨fun t ht => ?_, hl.readable.ro, hl.readable.rv⟩, hl.keywords, hl.nodup, fun t ht => ?_,
    fun k => ?_, fun k hk => ?_, fun tag k hid hro => ?_⟩
  · obtain rfl := Option.mem_some_iff.mp ht
    exact hn
  · obtain rfl := Option.mem_some_iff.mp ht
    exact ⟨fun hnil => h0 (List.length_eq_zero_iff.mpr hnil), v.evvLength_lt⟩
  · rw [Held.set_pos ⟨hv.symm, Or.inr rfl⟩]
    rfl
  · have hno : ¬ v.Names (some EFX_VPD_RO) k := by simp [Value.Names, hv]
    rw [Held.set_neg hno, hl.value_ro k hk]
  · have hno : ¬ v.Names tag k := fun hc => hid (hc.1.trans hv)
    rw [Held.set_neg hno, hl.value_other tag k hid hro]

/-- What a call does to a laid-out block: nothing, or it puts the value and comes to the checksum. -/
inductive Outcome (v : Value) (h : Held) : Option Bytes → List Entry → Prop
  | refused {id : Option Bytes} {es : List Entry} {e : Errno} (hread : Legible v h)
      (hset : hunkSet v h.hunk = .err e h.hunk) : Outcome v h id es
  | nothing {id : Option Bytes} {es : List Entry} (hv : v.evvTag = some EFX_VPD_RO) (hrv : v.evvKeyword ≠ RV)
      (h0 : v.evvLength = 0) (hno : ∀ e ∈ es, readWord e.keyword ≠ v.evvKeyword) (hread : Legible v h)
      (hset : hunkSet v h.hunk = .ret () h.hunk) : Outcome v h id es
  | id {s : Bytes} {es : List Entry} {ck : UInt8} {rest : Bytes} (hv : v.evvTag = some EFX_VPD_ID)
      (h0 : v.evvLength ≠ 0) (hread : Legible v h ↔ ReadsBack v.evvLength)
      (hlen : (laid (some v.evvValue) es ck rest).length = h.hunk.length)
      (hset : hunkSet v h.hunk = checksum (laid (some v.evvValue) es ck rest)) : Outcome v h (some s) es
  | ro {id : Option Bytes} {es1 old es2 : List Entry} (hv : v.evvTag = some EFX_VPD_RO)
      (hrv : v.evvKeyword ≠ RV) (hg : Goes v.evvKeyword es1 old es2) (hput : ¬ (old = [] ∧ v.evvLength = 0))
      (hread : Legible v h ↔ ReadsBack v.evvKeyword ∧ ReadsBack ((body (es1 ++ v.entries ++ es2)).length + 4))
      (hfit : (front id (es1 ++ v.entries ++ es2)).length + 2 ≤ h.hunk.length)
      (hset : (body (es1 ++ v.entries ++ es2)).length + 4 < 65536 → ∃ ck rest,
        (laid id (es1 ++ v.entries ++ es2) ck rest).length = h.hunk.length ∧
          hunkSet v h.hunk = checksum (laid id (es1 ++ v.entries ++ es2) ck rest)) :
      Outcome v h id (es1 ++ old ++ es2)

theorem readsBack_zero : ReadsBack 0 := by decide

theorem legible_iff {h : Held} {p : Place} {used : ℕ} (hp : place h.hunk v = .ok (some p))
    (hused : efxVpdHunkLength h.hunk = .ok used) : Legible v h ↔ (v.Allowed → used + p.dest ≤ h.hunk.length + p.source →
      ReadsBack v.evvKeyword ∧ ReadsBack (p.t.taglen + p.dest - p.source)) := by
  rw [Legible, hp, hused]

theorem legible_of_not_place {h : Held} (hp : ∀ p, place h.hunk v ≠ .ok (some p)) : Legible v h := by
  unfold Legible
  split
  · rename_i p _ hplace _
    exact absurd hplace (hp p)
  · trivial

theorem Laid.outcome {h : Held} (hl : Laid h id es) (v : Value) : Outcome v h id es := by
  obtain ⟨rest, hh⟩ := hl.hunk
  have hused : efxVpdHunkLength h.hunk = .ok ((front id es).length + 2) := by
    have hlen : efxVpdHunkLength (block id (body (es ++ [rv (cksumOf id es)])) rest) = _ :=
      efxVpdHunkLength_block hl.readable.id (length_body_rv es (cksumOf id es) ▸ hl.readable.ro)
    rw [length_body_rv] at hlen
    rw [hh, laid, hlen, length_front]
    exact congrArg Except.ok (by omega)
  by_cases hallowed : v.Allowed
  swap
  · obtain ⟨e, he⟩ := hunkSet_refused hused (Or.inl hallowed)
    refine .refused ?_ he
    by_cases hp : ∃ p, place h.hunk v = .ok (some p)
    · obtain ⟨p, hp⟩ := hp
      exact (legible_iff hp hused).mpr fun ha => absurd ha hallowed
    · exact legible_of_not_place fun p hplace => hp ⟨p, hplace⟩
  have hcases := hallowed
  rcases hcases with ⟨hv, hk, h0⟩ | ⟨hv, hrv⟩
  · -- the ID string
    have hplace := place_id hl.readable hv (cksumOf id es) rest
    rw [← hh] at hplace
    cases id with
    | none =>
      obtain ⟨e, he⟩ := hunkSet_refused hused (Or.inr ⟨_, hplace⟩)
      exact .refused (legible_of_not_place fun p hp => by rw [hplace] at hp; cases hp) he
    | some s =>
      dsimp only at hplace
      have hset := hunkSet_some hallowed hused hplace
      by_cases hfit : (front (some s) es).length + 2 + (3 + v.evvLength) ≤ h.hunk.length + (3 + s.length)
      swap
      · exact .refused ((legible_iff hplace hused).mpr fun _ hc => absurd hc hfit) (hset.trans (rewrite_full hfit))
      have hfront : (front (some v.evvValue) es).length + 2 ≤ (laid (some s) es (cksumOf (some s) es) rest).length := by
        rw [← hh]
        simp only [length_front, idBytes_length] at hfit ⊢
        change 3 + v.evvLength + 3 + _ + _ + _ ≤ _
        omega
      obtain ⟨rest', hlen, hput⟩ := rewrite_id v rfl hfront
      rw [← hh] at hlen hput
      have hn : s.length + (3 + v.evvLength) - (3 + s.length) = v.evvLength := by omega
      refine .id hv h0 ?_ hlen (hset.trans hput)
      rw [legible_iff hplace hused, hn]
      exact ⟨fun hr => (hr hallowed hfit).2, fun hr _ _ => ⟨hk ▸ readsBack_zero, hr⟩⟩
  · -- a keyword
    obtain ⟨es1, old, es2, rfl, hg⟩ := exists_goes es v.evvKeyword
    have hplace := place_ro hl.readable hv hrv hg (cksumOf id (es1 ++ old ++ es2)) rest
    rw [← hh] at hplace
    by_cases hput : old = [] ∧ v.entries = []
    · rw [if_pos hput] at hplace
      refine .nothing hv hrv (entries_eq_nil.mp hput.2) (fun e he => ?_)
        (legible_of_not_place fun p hp => by rw [hplace] at hp; cases hp) (hunkSet_none hallowed hused hplace)
      rcases hg.at_old with ⟨o, rfl, -⟩ | ⟨rfl, rfl⟩
      · cases hput.1
      · exact hg.before e (by simpa using he)
    · rw [if_neg hput] at hplace
      have hset := hunkSet_some hallowed hused hplace
      by_cases hfit : (front id (es1 ++ old ++ es2)).length + 2 +
          ((idBytes id).length + 3 + (body es1).length + (body v.entries).length) ≤
          h.hunk.length + ((idBytes id).length + 3 + (body es1).length + (body old).length)
      swap
      · exact .refused ((legible_iff hplace hused).mpr fun _ hc => absurd hc hfit) (hset.trans (rewrite_full hfit))
      have hfront : (front id (es1 ++ v.entries ++ es2)).length + 2 ≤ h.hunk.length := by
        rw [length_front_edit] at hfit ⊢
        omega
      have hbody : ∀ mid : List Entry, (body (es1 ++ mid ++ es2)).length =
          (body es1).length + (body mid).length + (body es2).length := by
        intro mid
        rw [body_append, body_append, List.length_append, List.length_append]
      have hn : (body (es1 ++ old ++ es2)).length + 4 +
          ((idBytes id).length + 3 + (body es1).length + (body v.entries).length) -
          ((idBytes id).length + 3 + (body es1).length + (body old).length) =
          (body (es1 ++ v.entries ++ es2)).length + 4 := by
        rw [hbody, hbody]
        omega
      refine .ro hv hrv hg (fun hc => hput ⟨hc.1, entries_eq_nil.mpr hc.2⟩) ?_ hfront fun hlt => ?_
      · rw [legible_iff hplace hused, roTag]
        dsimp only
        rw [hn]
        exact ⟨fun hr => hr hallowed hfit, fun hr _ _ => hr⟩
      · obtain ⟨rest', hlen, heq⟩ := rewrite_ro v rfl rfl rfl rfl (hh ▸ hfront) hlt
        rw [← hh] at hlen heq
        exact ⟨_, rest', hlen, hset.trans heq⟩

theorem setStep_ret {h : Held} {hunk : Bytes} {u : Unit} (hset : hunkSet v h.hunk = .ret u hunk) :
    setStep v h = some (h.set v hunk) := by
  rw [setStep, hset]

theorem setStep_err {h : Held} {hunk : Bytes} {e : Errno} (hset : hunkSet v h.hunk = .err e hunk) :
    setStep v h = some ⟨hunk, h.value⟩ := by
  rw [setStep, hset]

theorem failsClean_of_ret {h h' : Held} {hunk : Bytes} {u : Unit} (hset : hunkSet v h.hunk = .ret u hunk) :
    FailsClean v h h' := by
  intro e hunk' he
  rw [hset] at he
  cases he

/-- The block is laid out, and as long as it was. -/
def Kept (size : ℕ) (h : Held) : Prop := (∃ id es, Laid h id es) ∧ h.hunk.length = size

theorem length_laid_congr (id : Option Bytes) (es : List Entry) (ck ck' : UInt8) {rest rest' : Bytes}
    (hr : rest'.length = rest.length) : (laid id es ck' rest').length = (laid id es ck rest).length := by
  rw [length_laid, length_laid, hr]

theorem checksum_kept {size : ℕ} {rest : Bytes} (hr : Readable id es) (hlen : (laid id es ck rest).length = size) :
    ∃ rest', checksum (laid id es ck rest) = .ret () (laid id es (cksumOf id es) rest') ∧
      (laid id es (cksumOf id es) rest').length = size :=
  ⟨_, checksum_laid hr ck rest, (length_laid_congr id es ck _ List.length_replicate).trans hlen⟩

/-- **A set.**  If what it puts reads, it keeps the block laid out, or fails and leaves it alone. -/
theorem Kept.step {size : ℕ} {h : Held} (hk : Kept size h) (hc : Legible v h) :
    ∃ h', setStep v h = some h' ∧ FailsClean v h h' ∧ Kept size h' := by
  obtain ⟨⟨id, es, hl⟩, hsize⟩ := hk
  cases hl.outcome v with
  | refused _ hset =>
    exact ⟨⟨h.hunk, h.value⟩, setStep_err hset, fun _ _ _ => rfl, ⟨id, es, hl⟩, hsize⟩
  | nothing hv hrv h0 hno _ hset =>
    refine ⟨h.set v h.hunk, setStep_ret hset, fun _ _ _ => rfl, ⟨id, es, ?_⟩, hsize⟩
    have hsame : ∀ tag k, (h.set v h.hunk).value tag k = h.value tag k := by
      intro tag k
      by_cases hn : v.Names tag k
      · obtain ⟨rfl, hkk⟩ := hn
        rw [hv] at hkk
        obtain rfl := hkk.resolve_right (by simp)
        rw [Held.set_pos ⟨rfl, Or.inl rfl⟩, hv, hl.value_ro _ hrv, valueOf_none hno]
        exact List.length_eq_zero_iff.mp h0
      · exact Held.set_neg hn
    exact ⟨hl.hunk, hl.readable, hl.keywords, hl.nodup, hl.id_ok, fun k => (hsame _ k).trans (hl.value_id k),
      fun k hkrv => (hsame _ k).trans (hl.value_ro k hkrv),
      fun tag k h1 h2 => (hsame tag k).trans (hl.value_other tag k h1 h2)⟩
  | id hv h0 hread hlen hset =>
    have hn := hread.mp hc
    have hr : Readable (some v.evvValue) es :=
      ⟨fun t ht => Option.mem_some_iff.mp ht ▸ hn, hl.readable.ro, hl.readable.rv⟩
    obtain ⟨rest', hck, hlen'⟩ := checksum_kept hr (hlen.trans hsize)
    exact ⟨_, setStep_ret (hset.trans hck), failsClean_of_ret (hset.trans hck),
      ⟨_, _, hl.edit_id hv h0 hn rest'⟩, hlen'⟩
  | @ro id es1 old es2 hv hrv hg _ hread _ hset =>
    obtain ⟨hkw, hn⟩ := hread.mp hc
    have hlt : (body (es1 ++ v.entries ++ es2)).length + 4 < 65536 := by
      rw [← show readWord _ = _ from hn]
      exact Nat.mod_lt _ (by decide)
    obtain ⟨ck, rest, hlen, heq⟩ := hset hlt
    have hl' := hl.edit hv hrv hg (fun _ => hkw) hn
    obtain ⟨rest', hck, hlen'⟩ := checksum_kept (hl' rest).readable (hlen.trans hsize)
    exact ⟨_, setStep_ret (heq.trans hck), failsClean_of_ret (heq.trans hck),
      ⟨_, _, hl' rest'⟩, hlen'⟩

theorem le_two_inj {a b : ℕ} (h : le 2 a = le 2 b) (ha : a < 65536) (hb : b < 65536) : a = b := by
  have hof := congrArg ofLe h
  rwa [ofLe_le, ofLe_le, Nat.mod_eq_of_lt (show a < 256 ^ 2 from ha), Nat.mod_eq_of_lt (show b < 256 ^ 2 from hb)] at hof

/-- The length of the ID string is in the block, and that of the read-only tag. -/
theorem id_length_inj {s s' rest rest' : Bytes} {es es' : List Entry} {ck ck' : UInt8}
    (h : laid (some s) es ck rest = laid (some s') es' ck' rest') (hs : s.length < 65536) (hs' : s'.length < 65536) :
    s.length = s'.length := by
  simp only [laid, block, idBytes, List.cons_append, List.append_assoc, List.cons.injEq, true_and] at h
  exact le_two_inj (List.append_inj h (by simp)).1 hs hs'

theorem ro_length_inj {rest rest' : Bytes} {es es' : List Entry} {ck ck' : UInt8}
    (h : laid id es ck rest = laid id es' ck' rest') (hn : (body es).length + 4 < 65536)
    (hn' : (body es').length + 4 < 65536) : (body es).length + 4 = (body es').length + 4 := by
  simp only [laid, block, length_body_rv] at h
  have hro := List.append_cancel_left h
  simp only [List.append_assoc, List.cons.injEq, true_and] at hro
  exact le_two_inj (List.append_inj hro (by simp)).1 hn hn'

theorem Readable.ro_lt (h : Readable id es) : (body es).length + 4 < 65536 := by
  rw [← show readWord _ = _ from h.ro]
  exact Nat.mod_lt _ (by decide)

/-- **What breaks.**  On a block that is shorter than all that an unreadable length reads as, a set that fails clean and
after which the value is found has put what reads. -/
theorem Kept.legible {size : ℕ} {h h' : Held} (hk : Kept size h) (hsize : size < 0xff83) (hs : setStep v h = some h')
    (hclean : FailsClean v h h') (hgives : v.evvTag = some EFX_VPD_RO → v.evvKeyword ≠ RV → ∀ x,
      Gives h'.hunk (some EFX_VPD_RO) v.evvKeyword x → x = h'.value (some EFX_VPD_RO) v.evvKeyword) : Legible v h := by
  obtain ⟨⟨id, es, hl⟩, hsz⟩ := hk
  obtain ⟨rest0, hh⟩ := hl.hunk
  cases hl.outcome v with
  | refused hread _ => exact hread
  | nothing _ _ _ _ hread _ => exact hread
  | @id s es ck rest hv h0 hread hlen hset =>
    by_contra hno
    have hun := (not_congr hread).mp hno
    have herr := hset.trans (checksum_id_unreadable hun (hlen ▸ hsz ▸ hsize))
    obtain rfl := Option.some.inj (hs.symm.trans (setStep_err herr))
    have hsame : laid (some v.evvValue) es ck rest = h.hunk := hclean _ _ herr
    have hlt := (hl.id_ok s rfl).2
    have hvlt := v.evvLength_lt
    have hn := id_length_inj (hsame.trans hh) (by omega) (by omega)
    exact hun ((congrArg ReadsBack hn).mpr (hl.readable.id s rfl))
  | @ro id es1 old es2 hv hrv hg hput hread hfit hset =>
    by_contra hno
    have hlt : (body (es1 ++ v.entries ++ es2)).length + 4 < 65536 := by
      rw [length_front] at hfit
      omega
    obtain ⟨ck, rest, hlen, heq⟩ := hset hlt
    by_cases hn : ReadsBack ((body (es1 ++ v.entries ++ es2)).length + 4)
    · -- the length reads, but the keyword does not: it is not found
      have hkw : ¬ ReadsBack v.evvKeyword := fun hkw => hno (hread.mpr ⟨hkw, hn⟩)
      have hmiss : ∀ e ∈ es1 ++ old ++ es2, readWord e.keyword ≠ v.evvKeyword := by
        intro e he heq'
        have hek : e.keyword = v.evvKeyword := (hl.keywords e he).symm.trans heq'
        exact hkw (hek ▸ hl.keywords e he)
      have hold : old = [] := by
        rcases hg.at_old with ⟨o, rfl, ho⟩ | ⟨rfl, -⟩
        · exact absurd ho (hmiss o (by simp))
        · rfl
      have hnew : ∀ e ∈ es1 ++ v.entries ++ es2, readWord e.keyword ≠ v.evvKeyword ∧ readWord e.keyword ≠ RV := by
        intro e he
        rcases List.mem_append.mp he with he | he
        · rcases List.mem_append.mp he with he | he
          · exact ⟨hmiss e (by simp [he]), hl.readable.rv e (by simp [he])⟩
          · rw [(mem_entries he).1]
            have hhigh := readWord_high v.evvKeyword_lt hkw
            exact ⟨hkw, fun hc => absurd (hc ▸ hhigh) (by decide)⟩
        · exact ⟨hmiss e (by simp [he]), hl.readable.rv e (by simp [he])⟩
      have hr : Readable id (es1 ++ v.entries ++ es2) := ⟨hl.readable.id, hn, fun e he => (hnew e he).2⟩
      have hret := heq.trans (checksum_laid hr ck rest)
      obtain rfl := Option.some.inj (hs.symm.trans (setStep_ret hret))
      have hnil := hgives hv hrv _ (gives_ro hr _ _ hrv)
      rw [Held.set_pos ⟨hv.symm, Or.inl rfl⟩, valueOf_none fun e he => (hnew e he).1] at hnil
      exact hput ⟨hold, List.length_eq_zero_iff.mpr hnil.symm⟩
    · have herr := heq.trans (checksum_ro_unreadable hl.readable.id hn (hlen ▸ hsz ▸ hsize))
      obtain rfl := Option.some.inj (hs.symm.trans (setStep_err herr))
      have hsame : laid id (es1 ++ v.entries ++ es2) ck rest = h.hunk := hclean _ _ herr
      have hnn := ro_length_inj (hsame.trans hh) hlt hl.readable.ro_lt
      exact hn ((congrArg ReadsBack hnn).mpr hl.readable.ro)

/-! ### Runs -/

/-- The ID string of a new block. -/
def blankId (wantpid : Bool) : Option Bytes := if wantpid then some [0x32] else none

/-- The block that `efx_vpd_hunk_reinit` makes of `data` -/
def start (wantpid : Bool) (data : Bytes) : Held :=
  ⟨((hunkReinit wantpid data).state?).getD [], fun tag _ => if tag = some EFX_VPD_ID then (blankId wantpid).getD [] else []⟩

theorem hunkReinit_laid (wantpid : Bool) (hlen : 0x100 ≤ data.length) :
    ∃ rest, (laid (blankId wantpid) [] (cksumOf (blankId wantpid) []) rest).length = data.length ∧
      hunkReinit wantpid data = .ret () (laid (blankId wantpid) [] (cksumOf (blankId wantpid) []) rest) := by
  set pid : Bytes := if wantpid then blankPid else [] with hpid
  have hpidlen : pid.length ≤ 4 := by
    rw [hpid]
    split_ifs <;> decide
  have hfront : front (blankId wantpid) [] = pid ++ [0x90, 0x04, 0x00, 0x52, 0x56, 0x01] := by
    rw [hpid, blankId]
    cases wantpid <;> rfl
  obtain ⟨a, b, c, r, rfl, ha, hb⟩ : ∃ a b : Bytes, ∃ (c : UInt8) (r : Bytes), data = a ++ b ++ c :: r ∧
      a.length = pid.length ∧ b.length = 7 := by
    refine ⟨data.take pid.length, (data.drop pid.length).take 7, data[pid.length + 7], data.drop (pid.length + 8), ?_,
      by simp; omega, by simp; omega⟩
    rw [List.cons_getElem_drop_succ, ← List.drop_drop, List.append_assoc, List.take_append_drop, List.take_append_drop]
  have hsize : (a ++ b ++ c :: r).length = pid.length + 7 + (r.length + 1) := by
    rw [List.length_append, List.length_append, ha, hb, List.length_cons]
  set id := blankId wantpid
  have hsum : bsum (pid ++ blankR ++ c :: r) 0 (pid.length + 7) = frontSum id [] := by
    have htake : (pid ++ blankR ++ c :: r).take (pid.length + 7) = front id [] ++ [0] := by
      rw [hfront, List.take_left' (by rw [List.length_append]; rfl)]
      simp [blankR]
    rw [bsum_eq_sum, htake, frontSum]
    simp
  have hpidput : (when (wantpid = true) (store 0 blankPid) : Prog Bytes Errno Unit) (a ++ b ++ c :: r) =
      .ret () (pid ++ b ++ c :: r) := by
    cases wantpid with
    | true =>
      rw [when_pos rfl]
      have hput : (store (0 : ℕ) blankPid : Prog Bytes Errno Unit) (a ++ b ++ c :: r) = _ := store_of_le (by
        rw [hsize, blankPid]
        simp
        omega)
      have hmid : splice ([] ++ a ++ (b ++ c :: r)) 0 blankPid = [] ++ blankPid ++ (b ++ c :: r) := splice_mid rfl ha.symm
      simp only [List.nil_append, ← List.append_assoc] at hmid
      exact hput.trans (congrArg (Res.ret ()) hmid)
    | false =>
      obtain rfl : a = [] := List.length_eq_zero_iff.mp ha
      rfl
  have hrput : (store (pid.length : ℕ) blankR : Prog Bytes Errno Unit) (pid ++ b ++ c :: r) =
      .ret () (pid ++ blankR ++ c :: r) := by
    rw [store_of_le (by simp [blankR]; omega), splice_mid rfl (show blankR.length = b.length from hb.symm)]
  -- the checksum and the END tag
  have hm2 : pid ++ blankR ++ c :: r = front id [] ++ [0] ++ c :: r := by
    rw [hfront, blankR]
    simp
  have hflen : pid.length + 7 = (front id []).length + 1 := by
    rw [hfront, List.length_append]
    rfl
  have hget : (front id [] ++ [0] ++ c :: r).getD (front id []).length 0 = 0 := by
    rw [List.append_assoc, List.getD_eq_getElem?_getD, List.getElem?_append_right le_rfl, Nat.sub_self]
    rfl
  have hck : (store (((front id []).length + 1 - 1 : ℕ) : ℤ)
      [(front id [] ++ [0] ++ c :: r).getD ((front id []).length + 1 - 1) 0 - UInt8.ofNat (frontSum id [])] :
        Prog Bytes Errno Unit) (front id [] ++ [0] ++ c :: r) = .ret () (front id [] ++ [cksumOf id []] ++ c :: r) := by
    rw [Nat.add_sub_cancel, hget, UInt8.zero_sub, store_of_le (by simp)]
    exact congrArg (Res.ret ()) (splice_mid rfl rfl)
  have hend : (store (((front id []).length + 1 : ℕ) : ℤ) [0x78] : Prog Bytes Errno Unit)
      (front id [] ++ [cksumOf id []] ++ c :: r) = .ret () (laid id [] (cksumOf id []) r) := by
    have hsplit : front id [] ++ [cksumOf id []] ++ c :: r = (front id [] ++ [cksumOf id []]) ++ [c] ++ r := by simp
    have hlaid : laid id [] (cksumOf id []) r = (front id [] ++ [cksumOf id []]) ++ [0x78] ++ r := by
      rw [laid_eq]
      simp
    have hfits : (front id []).length + 1 + [(0x78 : UInt8)].length ≤
        (front id [] ++ [cksumOf id []] ++ c :: r).length := by
      simp only [List.length_append, List.length_cons]
      omega
    rw [store_of_le hfits, hlaid, hsplit]
    exact congrArg (Res.ret ()) (splice_mid (by simp) rfl)
  refine ⟨r, ?_, ?_⟩
  · rw [length_laid, hsize]
    omega
  · have hoff : (if wantpid = true then blankPid.length else 0) = pid.length := by
      rw [hpid]
      cases wantpid <;> rfl
    rw [hunkReinit, bind_of_ret (get_apply _), bind_of_ret (ensure_pos hlen), bind_of_ret hpidput]
    dsimp only
    rw [hoff, bind_of_ret hrput, bind_of_ret (get_apply _), show blankR.length = 7 from rfl, hsum, hm2, hflen,
      bind_of_ret hck]
    exact hend

theorem kept_start (wantpid : Bool) (hlen : 0x100 ≤ data.length) : Kept data.length (start wantpid data) := by
  obtain ⟨rest, hsize, hret⟩ := hunkReinit_laid wantpid hlen
  have hh : (start wantpid data).hunk = laid (blankId wantpid) [] (cksumOf (blankId wantpid) []) rest := by
    rw [start, hret]
    rfl
  have hid : ∀ s ∈ blankId wantpid, s = [0x32] := by
    intro s hs
    cases wantpid with
    | true => exact (Option.mem_some_iff.mp hs).symm
    | false => cases hs
  refine ⟨⟨blankId wantpid, [], ⟨rest, hh⟩, ⟨fun s hs => ?_, by decide, by simp⟩, by simp, by simp, fun s hs => ?_,
    fun k => rfl, fun k _ => rfl, fun tag k hno _ => if_neg hno⟩, hh ▸ hsize⟩
  · rw [hid s hs]
    decide
  · rw [hid s hs]
    simp

/-- **A store of keywords.**  From `efx_vpd_hunk_reinit` on, as long as what the calls of `efx_vpd_hunk_set` put reads as
it is put, the block is accepted after each, and every lookup answers with the value set last; a call that fails leaves the
block alone.  On a block shorter than `0xff83` bytes the first call that does not meet the condition breaks one of these. -/
theorem hunk_keeps_store (wantpid : Bool) (data : Bytes) (hlen : 0x100 ≤ data.length) (vs : List Value) :
    (GuardsAlong setStep Legible vs (start wantpid data) →
      GoesAlong setStep Serves FailsClean vs (start wantpid data)) ∧
    (data.length < 0xff83 → GoesAlong setStep Serves FailsClean vs (start wantpid data) →
      GuardsAlong setStep Legible vs (start wantpid data)) := by
  have hserves : ∀ s, Kept data.length s → Serves s := by
    rintro s ⟨⟨id, es, hl⟩, -⟩
    exact hl.serves
  have hstart := kept_start wantpid hlen
  refine ⟨goesAlong_of_guards hserves (fun v s hk hc => hk.step hc) vs hstart, fun hsize => ?_⟩
  exact (goesAlong_iff hserves (fun v s hk hc => hk.step hc)
    (fun v s s' hk hs hclean hserves => hk.legible hsize hs hclean fun _ hrv x hx =>
      hx.unique (hserves.gives _ _ (Or.inr hrv))) vs hstart).mp

/-- A serial number of 121 bytes, with which the read-only tag is `0x80` bytes long. -/
def longSerial : Value := ⟨some EFX_VPD_RO, 0x4e53, List.replicate 121 0x20, by decide, by decide⟩

/-- 256 bytes. -/
def blank : Bytes := List.replicate 256 0

theorem length_blank : blank.length = 256 := List.length_replicate

theorem longSerial_breaks : ¬ GoesAlong setStep Serves FailsClean [longSerial] (start true blank) := by
  intro hgoes
  have hguards := (hunk_keeps_store true blank length_blank.ge [longSerial]).2 (by rw [length_blank]; decide) hgoes
  have hplace : place (start true blank).hunk longSerial = .ok (some ⟨⟨4, EFX_VPD_RO, 4, 7⟩, 0, 7, 131⟩) := by
    decide +kernel
  have hused : efxVpdHunkLength (start true blank).hunk = .ok 12 := by decide +kernel
  have hfit : 12 + 131 ≤ (start true blank).hunk.length + 7 := by decide +kernel
  have hallowed : longSerial.Allowed := by decide +kernel
  have hlong : ¬ ReadsBack 128 := by decide
  generalize start true blank = h at hguards hplace hused hfit
  exact hlong ((legible_iff hplace hused).mp hguards.1 hallowed hfit).2

end Sfxge.Vpd
