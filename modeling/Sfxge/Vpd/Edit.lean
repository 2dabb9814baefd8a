import Sfxge.Vpd.Layout

/-!
# Vpd.Edit — setting a keyword of a block

What `efx_vpd_hunk_set` does to a block that is laid out: where the value goes, how the rest of the block is moved, and
the checksum behind it.
-/

namespace Sfxge.Vpd

open Lib Prog Tag

variable {id : Option Bytes} {es es1 es2 old : List Entry} {e : Entry} {ck : UInt8} {rest data s : Bytes} {k n : ℕ}
  {v : Value}

/-! ### Where a value goes -/

/-- The keyword that a value is put as; a value of length 0 deletes. -/
def Value.entries (v : Value) : List Entry :=
  if h : v.evvValue = [] then [] else [⟨v.evvKeyword, v.evvValue, v.evvKeyword_lt, h, v.evvLength_lt⟩]

/-- The keywords `old` are where `keyword` goes: the first that reads as it, or none, in front of RV. -/
structure Goes (keyword : ℕ) (es1 old es2 : List Entry) : Prop where
  before : ∀ e ∈ es1, readWord e.keyword ≠ keyword
  at_old : (∃ e, old = [e] ∧ readWord e.keyword = keyword) ∨ (old = [] ∧ es2 = [])

theorem exists_goes (es : List Entry) (keyword : ℕ) : ∃ es1 old es2, es = es1 ++ old ++ es2 ∧ Goes keyword es1 old es2 := by
  rcases first_or_none es keyword with hno | ⟨es1, e, es2, rfl, he, hpre⟩
  · exact ⟨es, [], [], by simp, hno, Or.inr ⟨rfl, rfl⟩⟩
  · exact ⟨es1, [e], es2, by simp, hpre, Or.inl ⟨e, rfl, he⟩⟩

theorem body_singleton (e : Entry) : body [e] = e.bytes := List.flatMap_singleton ..

theorem length_body_entries (v : Value) :
    (body v.entries).length = if v.evvLength = 0 then 0 else 3 + v.evvLength := by
  unfold Value.entries Value.evvLength
  by_cases h : v.evvValue = []
  · rw [dif_pos h, h]
    rfl
  · rw [dif_neg h, if_neg fun h0 => h (List.length_eq_zero_iff.mp h0), body_singleton, Entry.length_bytes]

theorem entries_eq_nil : v.entries = [] ↔ v.evvLength = 0 := by
  unfold Value.entries Value.evvLength
  by_cases h : v.evvValue = [] <;> simp [h]

theorem rounds_idTags {v : Value} (data : Bytes) (hv : v.evvTag ≠ some EFX_VPD_ID) :
    rounds (placeTag data v) (idTags id) () = .ok (.next ()) := by
  refine rounds_skip fun t ht => ?_
  cases id with
  | none => cases ht
  | some s =>
    obtain rfl := List.mem_singleton.mp ht
    rw [placeTag, if_pos hv.symm]

/-- The search for a keyword of the read-only tag. -/
theorem place_ro (h : Readable id (es1 ++ old ++ es2)) (hv : v.evvTag = some EFX_VPD_RO) (hk : v.evvKeyword ≠ RV)
    (hg : Goes v.evvKeyword es1 old es2) (ck : UInt8) (rest : Bytes) :
    place (laid id (es1 ++ old ++ es2) ck rest) v = .ok (if old = [] ∧ v.entries = [] then none else
      some ⟨roTag id ((body (es1 ++ old ++ es2)).length + 4), (body es1).length,
        (idBytes id).length + 3 + (body es1).length + (body old).length,
        (idBytes id).length + 3 + (body es1).length + (body v.entries).length⟩) := by
  set t := roTag id ((body (es1 ++ old ++ es2)).length + 4) with ht
  have hskip : rounds (placeKeyword v t) (keywordsAt 0 es1) () = .ok (.next ()) := by
    refine rounds_skip fun kw hkw => ?_
    obtain ⟨e, he, hkw⟩ := mem_keywordsAt hkw
    have hne : kw.keyword ≠ v.evvKeyword := hkw ▸ hg.before e he
    have hrv : kw.keyword ≠ RV := hkw ▸ h.rv e (by simp [he])
    rw [placeKeyword, if_neg fun hc => hne hc.1, if_neg hne, if_neg hrv]
  have hrounds : rounds (placeKeyword v t) (keywordsAt 0 (es1 ++ old ++ es2 ++ [rv ck])) () =
      .ok (.stop (if old = [] ∧ v.entries = [] then none else some ⟨t, (body es1).length,
        (idBytes id).length + 3 + (body es1).length + (body old).length,
        (idBytes id).length + 3 + (body es1).length + (body v.entries).length⟩)) := by
    rw [List.append_assoc, List.append_assoc, keywordsAt_append, rounds_append_of_next hskip, length_body_entries]
    have hoff : t.offset = (idBytes id).length + 3 := rfl
    rcases hg.at_old with ⟨e, rfl, he⟩ | ⟨rfl, rfl⟩
    · rw [List.singleton_append, keywordsAt, rounds, placeKeyword, body_singleton, e.length_bytes,
        if_neg (show ¬ ([e] = [] ∧ v.entries = []) by simp)]
      dsimp only
      rw [he, hoff]
      by_cases h0 : v.evvLength = 0
      · rw [if_pos ⟨rfl, h0⟩, if_pos h0, Nat.zero_add, Nat.add_assoc _ 3 e.value.length]
        rfl
      · rw [if_neg fun hc => h0 hc.2, if_pos rfl, if_neg h0, Nat.zero_add, Nat.add_assoc _ 3 e.value.length,
          Nat.add_assoc _ 3 v.evvLength]
    · have hrv : readWord (rv ck).keyword = RV := show readWord RV = RV by decide
      rw [List.nil_append, List.nil_append, keywordsAt, rounds, placeKeyword]
      dsimp only
      rw [hrv, if_neg fun hc => hk hc.1.symm, if_neg hk.symm, if_pos rfl, hoff]
      by_cases h0 : v.evvLength = 0
      · rw [if_pos h0, if_pos ⟨rfl, entries_eq_nil.mpr h0⟩]
      · rw [if_neg h0, if_neg fun hc => h0 (entries_eq_nil.mp hc.2), if_neg h0, Nat.zero_add,
          Nat.add_assoc _ 3 v.evvLength]
        rfl
  have hro : placeTag (laid id (es1 ++ old ++ es2) ck rest) v () t = .ok (.stop (if old = [] ∧ v.entries = [] then none
      else some ⟨t, (body es1).length, (idBytes id).length + 3 + (body es1).length + (body old).length,
        (idBytes id).length + 3 + (body es1).length + (body v.entries).length⟩)) := by
    have hoff : t.offset - t.head = 3 := by
      rw [ht, roTag]
      dsimp only
      omega
    rw [placeTag, if_neg (by simp [hv, ht, roTag]), if_neg (not_not.mpr hoff), if_neg (by simp [ht, roTag]),
      eachKeyword_laid, hrounds]
    rfl
  rw [place, eachTag_eq (h.reads ck rest), rounds_append_of_next (rounds_idTags _ (by simp [hv])), rounds, hro]
  rfl

/-- The search for the ID string. -/
theorem place_id (h : Readable id es) (hv : v.evvTag = some EFX_VPD_ID) (ck : UInt8) (rest : Bytes) :
    place (laid id es ck rest) v = match id with
      | some s => .ok (some ⟨⟨0, EFX_VPD_ID, s.length, 3⟩, 0, 3 + s.length, 3 + v.evvLength⟩)
      | none => .error .ENOENT := by
  cases id with
  | none =>
    have hro : placeTag (laid none es ck rest) v () (roTag none ((body es).length + 4)) = .ok (.next ()) := by
      rw [placeTag, if_pos (by simp [hv, roTag])]
    rw [place, eachTag_eq (h.reads ck rest), idTags, List.nil_append, rounds, hro]
    rfl
  | some s =>
    have hid : placeTag (laid (some s) es ck rest) v () ⟨0, EFX_VPD_ID, s.length, 3⟩ =
        .ok (.stop (some ⟨⟨0, EFX_VPD_ID, s.length, 3⟩, 0, 3 + s.length, 3 + v.evvLength⟩)) := by
      rw [placeTag, if_neg (by simp [hv]), if_neg (by simp), if_pos rfl]
    rw [place, eachTag_eq (h.reads ck rest), idTags, List.singleton_append, rounds, hid]
    rfl

/-! ### Moving the rest of the block -/

/-- The rest of the block is moved, and what lay before it replaced. -/
theorem splice_moved (a m m' b r : Bytes) (hfit : a.length + m'.length + b.length ≤ (a ++ m ++ b ++ r).length) :
    ∃ r', (a ++ m' ++ b ++ r').length = (a ++ m ++ b ++ r).length ∧
      splice (splice (a ++ m ++ b ++ r) (a.length + m'.length) (slice (a ++ m ++ b ++ r) (a.length + m.length) b.length))
        a.length m' = a ++ m' ++ b ++ r' := by
  have hb : slice (a ++ m ++ b ++ r) (a.length + m.length) b.length = b := by
    rw [← List.length_append]
    exact slice_mid rfl rfl
  have hle : a.length + m'.length ≤ (a ++ m ++ b ++ r).length := by omega
  have hdrop : (splice (a ++ m ++ b ++ r) (a.length + m'.length) b).drop (a.length + m'.length) =
      b ++ (a ++ m ++ b ++ r).drop (a.length + m'.length + b.length) :=
    drop_splice (k := 0) (Nat.zero_le _) hle
  have htake : (splice (a ++ m ++ b ++ r) (a.length + m'.length) b).take a.length = a := by
    rw [take_splice (by omega) (by omega), List.append_assoc, List.append_assoc, List.take_left]
  refine ⟨(a ++ m ++ b ++ r).drop (a.length + m'.length + b.length), ?_, ?_⟩
  · simp only [List.length_append, List.length_drop] at hfit ⊢
    omega
  · rw [hb, splice, htake, hdrop, ← List.append_assoc (a ++ m') b]

/-- What is put in front of a value: nothing in front of an ID string. -/
def Value.header (v : Value) (tag : Tag) : Bytes :=
  if tag ≠ EFX_VPD_ID ∧ 0 < v.evvLength then le 2 v.evvKeyword ++ [UInt8.ofNat v.evvLength] else []

/-- The block in front of the checksum loop: the rest is moved, and the value and the length of its tag are put. -/
theorem rewrite_eq (v : Value) (x y m b r : Bytes) (len : ℕ) (p : Place) (hoff : p.t.offset = x.length + 2) (hpos : p.pos = y.length)
    (hsource : p.source = x.length + 2 + y.length + m.length)
    (hdest : p.dest = x.length + 2 + y.length + (v.header p.t.tag ++ v.evvValue).length)
    (hfit : x.length + 2 + y.length + (v.header p.t.tag ++ v.evvValue).length + b.length ≤
      (x ++ le 2 len ++ y ++ m ++ b ++ r).length) :
    ∃ r', (x ++ le 2 len ++ y ++ (v.header p.t.tag ++ v.evvValue) ++ b ++ r').length =
        (x ++ le 2 len ++ y ++ m ++ b ++ r).length ∧
      rewrite v (x.length + 2 + y.length + m.length + b.length) p (x ++ le 2 len ++ y ++ m ++ b ++ r) =
        checksum (x ++ le 2 ((p.t.taglen + p.dest - p.source : ℤ) % 65536).toNat ++ y ++
          (v.header p.t.tag ++ v.evvValue) ++ b ++ r') := by
  set data := x ++ le 2 len ++ y ++ m ++ b ++ r with hdata
  have ha : (x ++ le 2 len ++ y).length = x.length + 2 + y.length := by simp [Nat.add_assoc]
  have hsize : data.length = x.length + 2 + y.length + m.length + b.length + r.length := by
    rw [hdata, List.length_append, List.length_append, List.length_append, ha]
  obtain ⟨r', hlen, hmoved⟩ := splice_moved (x ++ le 2 len ++ y) m (v.header p.t.tag ++ v.evvValue) b r (by rwa [ha])
  rw [ha, ← hdata] at hmoved
  rw [← hdata] at hlen
  refine ⟨r', hlen, ?_⟩
  set m' := v.header p.t.tag ++ v.evvValue with hm'
  set data1 := splice data (x.length + 2 + y.length + m'.length) (slice data (x.length + 2 + y.length + m.length) b.length)
    with hdata1
  have hslice : (slice data (x.length + 2 + y.length + m.length) b.length).length = b.length :=
    length_slice (by omega)
  have hlen1 : data1.length = data.length := length_splice (by omega)
  have hm'len : m'.length = (v.header p.t.tag).length + v.evvLength := List.length_append
  -- the rest is moved
  have hmove : (memmove (p.dest : ℤ) (p.source : ℤ) ((x.length + 2 + y.length + m.length + b.length : ℕ) - p.source : ℤ) :
      Prog Bytes Errno Unit) data = .ret () data1 := by
    have hn : ((x.length + 2 + y.length + m.length + b.length : ℕ) - p.source : ℤ) = (b.length : ℤ) := by
      rw [hsource]
      push_cast
      ring
    rw [hn, memmove_of_le (by omega) (by omega), hdest, hsource]
  -- the value is put, and the header in front of it
  have hvalue : (store (p.dest - v.evvLength : ℤ) v.evvValue : Prog Bytes Errno Unit) data1 =
      .ret () (splice data1 (x.length + 2 + y.length + (v.header p.t.tag).length) v.evvValue) := by
    have hn : (p.dest - v.evvLength : ℤ) = ((x.length + 2 + y.length + (v.header p.t.tag).length : ℕ) : ℤ) := by
      rw [hdest, hm'len]
      push_cast
      ring
    rw [hn]
    exact store_of_le (by change _ + v.evvLength ≤ _; omega)
  have hheader : (when (p.t.tag ≠ EFX_VPD_ID ∧ 0 < v.evvLength)
      (store (p.t.offset + p.pos : ℕ) (le 2 v.evvKeyword ++ [UInt8.ofNat v.evvLength])) : Prog Bytes Errno Unit)
        (splice data1 (x.length + 2 + y.length + (v.header p.t.tag).length) v.evvValue) =
      .ret () (x ++ le 2 len ++ y ++ m' ++ b ++ r') := by
    by_cases hc : p.t.tag ≠ EFX_VPD_ID ∧ 0 < v.evvLength
    · have hh : v.header p.t.tag = le 2 v.evvKeyword ++ [UInt8.ofNat v.evvLength] := if_pos hc
      have h3 : (v.header p.t.tag).length = 3 := by
        rw [hh]
        simp
      have hover : splice (splice data1 (x.length + 2 + y.length + 3) v.evvValue) (x.length + 2 + y.length)
          (v.header p.t.tag) = splice data1 (x.length + 2 + y.length) m' := by
        rw [splice_over (by omega) (by omega) (by omega) (by omega), h3, Nat.sub_self, List.drop_zero]
      have hlen2 : (splice data1 (x.length + 2 + y.length + 3) v.evvValue).length = data.length := by
        rw [length_splice (by change _ + v.evvLength ≤ _; omega), hlen1]
      rw [when_pos hc, ← hh, h3, hoff, hpos, store_of_le (by omega), hover, hmoved]
    · have hh : v.header p.t.tag = [] := if_neg hc
      rw [hm', hh, List.nil_append] at hmoved
      rw [when_neg hc, hm', hh, List.nil_append, List.length_nil, Nat.add_zero, hmoved]
      rfl
  -- the length of the tag is put
  have htaglen : (store (p.t.offset - 2 : ℤ) (le 2 ((p.t.taglen + p.dest - p.source : ℤ) % 65536).toNat) :
      Prog Bytes Errno Unit) (x ++ le 2 len ++ y ++ m' ++ b ++ r') =
      .ret () (x ++ le 2 ((p.t.taglen + p.dest - p.source : ℤ) % 65536).toNat ++ y ++ m' ++ b ++ r') := by
    have hn : (p.t.offset - 2 : ℤ) = (x.length : ℤ) := by
      rw [hoff]
      push_cast
      ring
    have hassoc : ∀ z : Bytes, x ++ z ++ y ++ m' ++ b ++ r' = x ++ z ++ (y ++ m' ++ b ++ r') := by simp
    rw [hn, store_of_le (by rw [hlen, hsize]; simp; omega), hassoc, splice_mid rfl (by simp), ← hassoc]
  have henough : ¬ (x.length + 2 + y.length + m.length + b.length) + p.dest > data.length + p.source := by omega
  rw [rewrite, bind_of_ret (get_apply data), bind_of_ret (ensure_pos henough), bind_of_ret hmove, bind_of_ret hvalue,
    bind_of_ret hheader, bind_of_ret htaglen]

/-! ### The checksum -/

/-- The checksum that makes the sum 0. -/
def cksumOf (id : Option Bytes) (es : List Entry) : UInt8 := -UInt8.ofNat (frontSum id es)

theorem cksumOf_sum (id : Option Bytes) (es : List Entry) : (frontSum id es + (cksumOf id es).toNat) % 256 = 0 := by
  have h0 : (UInt8.ofNat (frontSum id es)).toNat = frontSum id es % 256 := UInt8.toNat_ofNat'
  rw [cksumOf, UInt8.toNat_neg, h0, show UInt8.size = 256 from rfl]
  omega

/-- The checksum loop looks for RV. -/
theorem checksumTag_laid (h : Readable id es) (ck : UInt8) (rest : Bytes) :
    checksumTag ((idBytes id).length + 3) ((body es).length + 4) (laid id es ck rest) =
      .ret () (laid id es (cksumOf id es) rest) := by
  have hskip : rounds findRV (keywordsAt 0 es) () = .ok (.next ()) := by
    refine rounds_skip fun kw hkw => ?_
    obtain ⟨e, he, hk⟩ := mem_keywordsAt hkw
    rw [findRV, if_neg (hk ▸ h.rv e he)]
  have hfind : eachKeyword (slice (laid id es ck rest) ((idBytes id).length + 3) ((body es).length + 4)) findRV () =
      .ok (.stop (body es).length) := by
    have heach : eachKeyword (contents (laid id es ck rest) (roTag id ((body es).length + 4))) findRV () = _ :=
      eachKeyword_laid id es ck rest ()
    rw [keywordsAt_rv, rounds_append_of_next hskip] at heach
    exact heach
  have hpos : (idBytes id).length + 3 + (body es).length + 3 = (front id es).length := by rw [length_front]
  have hlen := length_laid id es ck rest
  have hput : (store (((idBytes id).length + 3 + (body es).length + 3 : ℕ) : ℤ)
      [-UInt8.ofNat (bsum (laid id es ck rest) 0 ((idBytes id).length + 3 + (body es).length + 3))] :
        Prog Bytes Errno Unit) (laid id es ck rest) = .ret () (laid id es (cksumOf id es) rest) := by
    have hsplit : ∀ ck : UInt8, laid id es ck rest = front id es ++ [ck] ++ 0x78 :: rest := by
      intro ck
      rw [laid_eq]
      simp
    rw [hpos, (bsum_laid id es ck rest).1, store_of_le (by simp; omega), hsplit ck, hsplit (cksumOf id es)]
    exact congrArg (Res.ret ()) (splice_mid rfl rfl)
  rw [checksumTag, bind_of_ret (get_apply _), hfind]
  exact hput

theorem checksumRound_ro (h : Readable id es) (ck : UInt8) (rest : Bytes) :
    checksumRound (idBytes id).length (laid id es ck rest) =
      .ret (.inr ((idBytes id).length + 3 + ((body es).length + 4))) (laid id es (cksumOf id es) rest) := by
  have hnext : nextTag (laid id es ck rest) (idBytes id).length =
      .ok (EFX_VPD_RO, (body es).length + 4, (idBytes id).length + 3) := by
    rw [laid, nextTag_ro, length_body_rv, show readWord ((body es).length + 4) = _ from h.ro, if_neg (by omega)]
  rw [checksumRound, bind_of_ret (get_apply _), hnext, ofExcept, bind_of_ret (pure_apply _ _)]
  dsimp only
  rw [if_neg (by simp), when_pos rfl, bind_of_ret (checksumTag_laid h ck rest)]
  rfl

theorem checksumRound_end (id : Option Bytes) (es : List Entry) (ck : UInt8) (rest : Bytes) :
    checksumRound ((idBytes id).length + 3 + ((body es).length + 4)) (laid id es ck rest) =
      .ret (.inl ((front id es).length + 2)) (laid id es ck rest) := by
  have hnext : nextTag (laid id es ck rest) ((idBytes id).length + 3 + ((body es).length + 4)) =
      .ok (EFX_VPD_END, 0, (front id es).length + 2) := by
    have hend := nextTag_end id (body (es ++ [rv ck])) rest
    rw [length_body_rv] at hend
    have hfront : (idBytes id).length + 3 + ((body es).length + 4) + 1 = (front id es).length + 2 := by
      rw [length_front]
      omega
    rw [laid, hend, hfront]
  rw [checksumRound, bind_of_ret (get_apply _), hnext, ofExcept, bind_of_ret (pure_apply _ _)]
  dsimp only
  rw [if_pos rfl]
  rfl

theorem checksumRound_id (hs : ReadsBack s.length) (es : List Entry) (ck : UInt8) (rest : Bytes) :
    checksumRound 0 (laid (some s) es ck rest) = .ret (.inr (idBytes (some s)).length) (laid (some s) es ck rest) := by
  have hnext : nextTag (laid (some s) es ck rest) 0 = .ok (EFX_VPD_ID, s.length, 3) := by
    rw [laid, nextTag_id, show readWord s.length = s.length from hs, if_neg (by omega)]
  rw [checksumRound, bind_of_ret (get_apply _), hnext, ofExcept, bind_of_ret (pure_apply _ _)]
  dsimp only
  rw [if_neg (by simp), when_neg (by simp), bind_of_ret (pure_apply _ _), idBytes_length]
  rfl

/-- The first tag is the ID string, if there is one, and the loop goes on behind it. -/
theorem iterate_checksum_id (hid : ∀ s ∈ id, ReadsBack s.length) (es : List Entry) (ck : UInt8) (rest : Bytes) (n : ℕ) :
    ∃ n', n ≤ n' ∧ iterate checksumRound (n + 1) 0 (laid id es ck rest) =
      iterate checksumRound n' (idBytes id).length (laid id es ck rest) := by
  cases id with
  | none => exact ⟨n + 1, Nat.le_succ n, rfl⟩
  | some s => exact ⟨n, le_rfl, iterate_inr n (checksumRound_id (hid s rfl) es ck rest)⟩

/-- **The checksum** is put, and what is behind the block is blank. -/
theorem checksum_laid (h : Readable id es) (ck : UInt8) (rest : Bytes) : checksum (laid id es ck rest) =
    .ret () (laid id es (cksumOf id es) (List.replicate rest.length 0xff)) := by
  have hlen := length_laid id es ck rest
  obtain ⟨n, hn, hid⟩ := iterate_checksum_id h.id es ck rest (laid id es ck rest).length
  obtain ⟨n, rfl⟩ : ∃ n', n = n' + 2 := ⟨n - 2, by omega⟩
  have hloop : iterate checksumRound ((laid id es ck rest).length + 1) 0 (laid id es ck rest) =
      .ret ((front id es).length + 2) (laid id es (cksumOf id es) rest) := by
    rw [hid, iterate_inr (n + 1) (checksumRound_ro h ck rest), iterate_inl n (checksumRound_end id es _ rest)]
  have hset : (memset (((front id es).length + 2 : ℕ) : ℤ) 0xff
      ((laid id es ck rest).length - ((front id es).length + 2 : ℕ) : ℤ) : Prog Bytes Errno Unit)
        (laid id es (cksumOf id es) rest) =
      .ret () (laid id es (cksumOf id es) (List.replicate rest.length 0xff)) := by
    have hn : ((laid id es ck rest).length - ((front id es).length + 2 : ℕ) : ℤ) = (rest.length : ℤ) := by
      rw [hlen]
      push_cast
      ring
    have hsplit : ∀ rest : Bytes, laid id es (cksumOf id es) rest = front id es ++ [cksumOf id es, 0x78] ++ rest ++ [] := by
      intro rest
      rw [laid_eq]
      simp
    rw [hn, memset_of_le (by rw [length_laid]), hsplit rest, splice_mid (by simp) (by simp), ← hsplit]
  rw [checksum, bind_of_ret (get_apply _), bind_of_ret hloop]
  exact hset

/-- A length that does not read as it was put leaves the loop, unless the block is longer than all that it reads as. -/
theorem checksum_ro_unreadable (hid : ∀ s ∈ id, ReadsBack s.length) (hro : ¬ ReadsBack ((body es).length + 4))
    (hsize : (laid id es ck rest).length < 0xff83) : checksum (laid id es ck rest) = .err .EFAULT (laid id es ck rest) := by
  have hlen := length_laid id es ck rest
  have hfront := length_front id es
  obtain ⟨n, hn, hskip⟩ := iterate_checksum_id hid es ck rest (laid id es ck rest).length
  obtain ⟨n, rfl⟩ : ∃ n', n = n' + 1 := ⟨n - 1, by omega⟩
  have hhigh := readWord_high (by omega) hro
  have hround : checksumRound (idBytes id).length (laid id es ck rest) = .err .EFAULT (laid id es ck rest) := by
    rw [checksumRound, bind_of_ret (get_apply _), laid, nextTag_ro, length_body_rv, if_pos (by omega)]
    rfl
  rw [checksum, bind_of_ret (get_apply _), bind_of_err]
  rw [hskip, iterate_err n hround]

theorem checksum_id_unreadable (hs : ¬ ReadsBack s.length) (hsize : (laid (some s) es ck rest).length < 0xff83) :
    checksum (laid (some s) es ck rest) = .err .EFAULT (laid (some s) es ck rest) := by
  have hlen := length_laid (some s) es ck rest
  have hfront := length_front (some s) es
  have hidlen := idBytes_length s
  have hhigh := readWord_high (by omega) hs
  have hround : checksumRound 0 (laid (some s) es ck rest) = .err .EFAULT (laid (some s) es ck rest) := by
    rw [checksumRound, bind_of_ret (get_apply _), laid, nextTag_id, length_body_rv, if_pos (by omega)]
    rfl
  rw [checksum, bind_of_ret (get_apply _), bind_of_err]
  exact iterate_err _ hround

/-! ### A set -/

/-- The value is one that can be set. -/
def Value.Allowed (v : Value) : Prop :=
  (v.evvTag = some EFX_VPD_ID ∧ v.evvKeyword = 0 ∧ v.evvLength ≠ 0) ∨ (v.evvTag = some EFX_VPD_RO ∧ v.evvKeyword ≠ RV)

instance (v : Value) : Decidable v.Allowed := inferInstanceAs (Decidable (_ ∨ _))

theorem checkValue_ret (h : v.Allowed) (data : Bytes) : checkValue v data = .ret () data := by
  rcases h with ⟨htag, hk, hlen⟩ | ⟨htag, hk⟩
  · rw [checkValue, htag]
    dsimp only
    rw [bind_of_ret (ensure_pos hk), ensure_pos hlen]
  · rw [checkValue, htag]
    dsimp only
    rw [ensure_pos hk]

theorem checkValue_err (h : ¬ v.Allowed) (data : Bytes) : checkValue v data = .err .EINVAL data := by
  unfold checkValue
  cases htag : v.evvTag with
  | none => rfl
  | some tag =>
    cases tag with
    | EFX_VPD_ID =>
      dsimp only
      by_cases hk : v.evvKeyword = 0
      · rw [bind_of_ret (ensure_pos hk), ensure_neg fun hlen => h (Or.inl ⟨htag, hk, hlen⟩)]
      · rw [bind_of_err (ensure_neg hk)]
    | EFX_VPD_RO =>
      dsimp only
      rw [ensure_neg fun hk => h (Or.inr ⟨htag, hk⟩)]
    | EFX_VPD_END => rfl

/-- A value that is not allowed, or has no place, is refused. -/
theorem hunkSet_refused {used : ℕ} (hused : efxVpdHunkLength data = .ok used)
    (h : ¬ v.Allowed ∨ ∃ e, place data v = .error e) : ∃ e, hunkSet v data = .err e data := by
  by_cases hv : v.Allowed
  · obtain ⟨e, he⟩ := h.resolve_left (not_not.mpr hv)
    refine ⟨e, ?_⟩
    rw [hunkSet, bind_of_ret (checkValue_ret hv data), bind_of_ret (get_apply data), hused, ofExcept,
      bind_of_ret (pure_apply _ _), he]
    rfl
  · exact ⟨.EINVAL, by rw [hunkSet, bind_of_err (checkValue_err hv data)]⟩

theorem hunkSet_none {used : ℕ} (hv : v.Allowed) (hused : efxVpdHunkLength data = .ok used)
    (hp : place data v = .ok none) : hunkSet v data = .ret () data := by
  rw [hunkSet, bind_of_ret (checkValue_ret hv data), bind_of_ret (get_apply data), hused, ofExcept,
    bind_of_ret (pure_apply _ _), hp]
  rfl

theorem hunkSet_some {used : ℕ} {p : Place} (hv : v.Allowed) (hused : efxVpdHunkLength data = .ok used)
    (hp : place data v = .ok (some p)) : hunkSet v data = rewrite v used p data := by
  rw [hunkSet, bind_of_ret (checkValue_ret hv data), bind_of_ret (get_apply data), hused, ofExcept,
    bind_of_ret (pure_apply _ _), hp]
  rfl

/-- A value that does not fit is refused. -/
theorem rewrite_full {used : ℕ} {p : Place} (h : ¬ used + p.dest ≤ data.length + p.source) :
    rewrite v used p data = .err .ENOSPC data := by
  rw [rewrite, bind_of_ret (get_apply data), bind_of_err (ensure_neg (by omega))]

theorem header_ro (v : Value) : v.header EFX_VPD_RO ++ v.evvValue = body v.entries := by
  unfold Value.header Value.entries Value.evvLength
  by_cases h : v.evvValue = []
  · rw [dif_pos h, h]
    rfl
  · rw [dif_neg h, if_pos ⟨by simp, List.length_pos_of_ne_nil h⟩, body_singleton]
    rfl

theorem length_front_edit (id : Option Bytes) (es1 mid es2 : List Entry) : (front id (es1 ++ mid ++ es2)).length =
    (idBytes id).length + 6 + (body es1).length + (body mid).length + (body es2).length := by
  rw [length_front, body_append, body_append, List.length_append, List.length_append]
  omega

/-- A keyword that fits is put, and the checksum comes behind it. -/
theorem rewrite_ro {t : TagAt} {source dest used : ℕ} (v : Value)
    (ht : t = roTag id ((body (es1 ++ old ++ es2)).length + 4))
    (hsource : source = (idBytes id).length + 3 + (body es1).length + (body old).length)
    (hdest : dest = (idBytes id).length + 3 + (body es1).length + (body v.entries).length)
    (hused : used = (front id (es1 ++ old ++ es2)).length + 2)
    (hfit : (front id (es1 ++ v.entries ++ es2)).length + 2 ≤ (laid id (es1 ++ old ++ es2) ck rest).length)
    (hn : (body (es1 ++ v.entries ++ es2)).length + 4 < 65536) :
    ∃ rest', (laid id (es1 ++ v.entries ++ es2) ck rest').length = (laid id (es1 ++ old ++ es2) ck rest).length ∧
      rewrite v used ⟨t, (body es1).length, source, dest⟩ (laid id (es1 ++ old ++ es2) ck rest) =
        checksum (laid id (es1 ++ v.entries ++ es2) ck rest') := by
  subst ht
  have hsplit : ∀ (mid : List Entry) (rest : Bytes), laid id (es1 ++ mid ++ es2) ck rest = (idBytes id ++ [0x90]) ++
      le 2 ((body (es1 ++ mid ++ es2)).length + 4) ++ body es1 ++ body mid ++
        (body es2 ++ [0x52, 0x56, 1, ck, 0x78]) ++ rest := by
    intro mid rest
    rw [laid_eq, front, body_append, body_append]
    simp
  have hb : (body es2 ++ [0x52, 0x56, 1, ck, 0x78]).length = (body es2).length + 5 := List.length_append
  have hx : (idBytes id ++ [0x90]).length = (idBytes id).length + 1 := List.length_append
  rw [length_front_edit] at hfit hused
  have hbody : ∀ mid, (body (es1 ++ mid ++ es2)).length = (body es1).length + (body mid).length + (body es2).length := by
    intro mid
    rw [body_append, body_append, List.length_append, List.length_append]
  obtain ⟨r', hlen, heq⟩ := rewrite_eq v (idBytes id ++ [0x90]) (body es1) (body old)
    (body es2 ++ [0x52, 0x56, 1, ck, 0x78]) rest ((body (es1 ++ old ++ es2)).length + 4)
    ⟨roTag id ((body (es1 ++ old ++ es2)).length + 4), (body es1).length, source, dest⟩
    (by rw [hx]; rfl) rfl (by rw [hx, hsource]) (by rw [hx, hdest]; exact congrArg _ (congrArg _ (header_ro v).symm))
    (by
      rw [hx, hb, ← hsplit old rest]
      change _ + (v.header EFX_VPD_RO ++ v.evvValue).length + _ ≤ _
      rw [header_ro v]
      omega)
  change (_ ++ (v.header EFX_VPD_RO ++ v.evvValue) ++ _ ++ _).length = _ at hlen
  have htaglen : (((roTag id ((body (es1 ++ old ++ es2)).length + 4)).taglen + dest - source : ℤ) % 65536).toNat =
      (body (es1 ++ v.entries ++ es2)).length + 4 := by
    have hint : ((roTag id ((body (es1 ++ old ++ es2)).length + 4)).taglen + dest - source : ℤ) =
        (((body (es1 ++ v.entries ++ es2)).length + 4 : ℕ) : ℤ) := by
      rw [hsource, hdest, hbody, roTag, hbody]
      push_cast
      ring
    rw [hint, Int.emod_eq_of_lt (Int.natCast_nonneg _) (by exact_mod_cast hn), Int.toNat_natCast]
  rw [header_ro v] at hlen
  refine ⟨r', ?_, ?_⟩
  · rw [hsplit old rest, ← hlen, hsplit v.entries r']
    simp only [List.length_append, length_le]
  · rw [hsplit old rest]
    have hused' : used = (idBytes id ++ [0x90]).length + 2 + (body es1).length + (body old).length +
        (body es2 ++ [0x52, 0x56, 1, ck, 0x78]).length := by
      rw [hx, hb, hused]
      omega
    rw [hused', heq, htaglen, hsplit v.entries r']
    change checksum (_ ++ (v.header EFX_VPD_RO ++ v.evvValue) ++ _ ++ _) = _
    rw [header_ro v]

/-- An ID string that fits is put, and the checksum comes behind it. -/
theorem rewrite_id {used : ℕ} (v : Value) (hused : used = (front (some s) es).length + 2)
    (hfit : (front (some v.evvValue) es).length + 2 ≤ (laid (some s) es ck rest).length) :
    ∃ rest', (laid (some v.evvValue) es ck rest').length = (laid (some s) es ck rest).length ∧
      rewrite v used ⟨⟨0, EFX_VPD_ID, s.length, 3⟩, 0, 3 + s.length, 3 + v.evvLength⟩ (laid (some s) es ck rest) =
        checksum (laid (some v.evvValue) es ck rest') := by
  have hsplit : ∀ s rest : Bytes, laid (some s) es ck rest = [0x82] ++ le 2 s.length ++ [] ++ s ++
      (0x90 :: (le 2 ((body es).length + 4) ++ body es ++ [0x52, 0x56, 1, ck, 0x78])) ++ rest := by
    intro s rest
    rw [laid_eq, front, idBytes]
    simp
  have hb : (0x90 :: (le 2 ((body es).length + 4) ++ body es ++ [0x52, 0x56, 1, ck, 0x78])).length =
      (body es).length + 8 := by
    simp
    omega
  have hh : v.header EFX_VPD_ID ++ v.evvValue = v.evvValue := by
    rw [Value.header, if_neg (by simp), List.nil_append]
  rw [length_front, idBytes_length] at hfit hused
  obtain ⟨r', hlen, heq⟩ := rewrite_eq v [0x82] [] s
    (0x90 :: (le 2 ((body es).length + 4) ++ body es ++ [0x52, 0x56, 1, ck, 0x78])) rest s.length
    ⟨⟨0, EFX_VPD_ID, s.length, 3⟩, 0, 3 + s.length, 3 + v.evvLength⟩ rfl rfl rfl
    (by
      change 3 + v.evvLength = 3 + (v.header EFX_VPD_ID ++ v.evvValue).length
      rw [hh]
      rfl)
    (by
      rw [hb, ← hsplit s rest]
      change 3 + (v.header EFX_VPD_ID ++ v.evvValue).length + _ ≤ _
      rw [hh]
      omega)
  change (_ ++ (v.header EFX_VPD_ID ++ v.evvValue) ++ _ ++ _).length = _ at hlen
  rw [hh] at hlen
  have htaglen : ((((⟨0, EFX_VPD_ID, s.length, 3⟩ : TagAt).taglen : ℤ) + (3 + v.evvLength : ℕ) - (3 + s.length : ℕ)) %
      65536).toNat = v.evvValue.length := by
    have hint : (((⟨0, EFX_VPD_ID, s.length, 3⟩ : TagAt).taglen : ℤ) + (3 + v.evvLength : ℕ) - (3 + s.length : ℕ)) =
        (v.evvValue.length : ℤ) := by
      rw [Value.evvLength]
      push_cast
      ring
    have hlt := v.evvLength_lt
    rw [hint, Int.emod_eq_of_lt (Int.natCast_nonneg _) (by omega), Int.toNat_natCast]
  refine ⟨r', ?_, ?_⟩
  · rw [hsplit s rest, ← hlen, hsplit v.evvValue r']
    simp only [List.length_append, length_le]
  · rw [hsplit s rest]
    have hused' : used = ([0x82] : Bytes).length + 2 + ([] : Bytes).length + s.length +
        (0x90 :: (le 2 ((body es).length + 4) ++ body es ++ [0x52, 0x56, 1, ck, 0x78])).length := by
      rw [hb, hused, List.length_singleton, List.length_nil]
      omega
    rw [hused', heq, htaglen, hsplit v.evvValue r']
    change checksum (_ ++ (v.header EFX_VPD_ID ++ v.evvValue) ++ _ ++ _) = _
    rw [hh]

end Sfxge.Vpd
