import Mathlib.Data.Nat.Bitwise
import Mathlib.Data.List.Nodup
import Sfxge.Vpd.Items

/-!
# Vpd.Layout — a block as it is laid out

A block as `efx_vpd_hunk_reinit` makes it and `efx_vpd_hunk_set` keeps it: an ID string or none, one read-only tag whose
last keyword is RV, the END tag, and whatever is behind it.  Lengths and keywords are put as two bytes and read as two
`char`s, so that a low byte from `0x80` on does not read as it was put.
-/

namespace Sfxge.Vpd

open Lib Prog Tag

/-! ### Words -/

/-- What reads where `n` was put as a word. -/
def readWord (n : ℕ) : ℕ := wordOf (UInt8.ofNat n) (UInt8.ofNat (n / 256))

/-- The word reads as it was put. -/
def ReadsBack (n : ℕ) : Prop := readWord n = n

instance (n : ℕ) : Decidable (ReadsBack n) := inferInstanceAs (Decidable (_ = _))

variable {n : ℕ}

theorem readWord_of_low (hn : n < 65536) (hlow : n % 256 < 0x80) : readWord n = n := by
  have h0 : (UInt8.ofNat n).toNat = n % 256 := UInt8.toNat_ofNat'
  have h1 : (UInt8.ofNat (n / 256)).toNat = n / 256 % 256 := UInt8.toNat_ofNat'
  have hdiv : n / 256 % 256 = n / 256 := Nat.mod_eq_of_lt (by omega)
  have hor : (n / 256) <<< 8 + n % 256 = (n / 256) <<< 8 ||| n % 256 :=
    Nat.shiftLeft_add_eq_or_of_lt (show n % 256 < 2 ^ 8 by omega) _
  have hshift : (n / 256) <<< 8 = n / 256 * 256 := by rw [Nat.shiftLeft_eq]
  rw [readWord, wordOf, h0, h1, if_pos hlow, hdiv, Nat.or_comm, ← hor, hshift]
  omega

/-- A word that does not read as it was put reads high. -/
theorem readWord_high (hn : n < 65536) (h : ¬ ReadsBack n) : 0xff80 ≤ readWord n := by
  have hlow : 0x80 ≤ n % 256 := Nat.le_of_not_lt fun hlow => h (readWord_of_low hn hlow)
  have h0 : (UInt8.ofNat n).toNat = n % 256 := UInt8.toNat_ofNat'
  have h1 : (UInt8.ofNat (n / 256)).toNat = n / 256 % 256 := UInt8.toNat_ofNat'
  have hor : 0xff <<< 8 + n % 256 = 0xff <<< 8 ||| n % 256 :=
    Nat.shiftLeft_add_eq_or_of_lt (show n % 256 < 2 ^ 8 by omega) _
  have hlt : (0xff00 ||| n % 256) ||| (n / 256 % 256) <<< 8 < 65536 := by
    change _ < 2 ^ 16
    refine Nat.or_lt_two_pow (Nat.or_lt_two_pow (by decide) (by omega)) ?_
    rw [Nat.shiftLeft_eq]
    omega
  have hle : 0xff00 ||| n % 256 ≤ (0xff00 ||| n % 256) ||| (n / 256 % 256) <<< 8 := Nat.left_le_or
  have hsum : 0xff00 ||| n % 256 = 0xff00 + n % 256 := hor.symm
  rw [readWord, wordOf, h0, h1, if_neg (by omega), Nat.mod_eq_of_lt hlt]
  omega

/-! ### Keywords -/

/-- A keyword and its value. -/
structure Entry where
  keyword : ℕ
  value : Bytes
  keyword_lt : keyword < 65536
  value_ne : value ≠ []
  value_lt : value.length < 256

namespace Entry

def bytes (e : Entry) : Bytes := le 2 e.keyword ++ [UInt8.ofNat e.value.length] ++ e.value

theorem length_bytes (e : Entry) : e.bytes.length = 3 + e.value.length := by
  simp [bytes]
  omega

end Entry

/-- RV with its checksum. -/
def rv (cksum : UInt8) : Entry := ⟨RV, [cksum], by decide, by simp, by simp⟩

/-- The contents of a read-only tag. -/
def body (es : List Entry) : Bytes := es.flatMap Entry.bytes

theorem body_append (es es' : List Entry) : body (es ++ es') = body es ++ body es' := List.flatMap_append

/-- The keywords as they read from `p` on. -/
def keywordsAt : ℕ → List Entry → List KeywordAt
  | _, [] => []
  | p, e :: es => ⟨p, readWord e.keyword, e.value.length⟩ :: keywordsAt (p + e.bytes.length) es

variable {es es' : List Entry} {e : Entry} {p k : ℕ}

theorem keywordsAt_append (p : ℕ) (es es' : List Entry) :
    keywordsAt p (es ++ es') = keywordsAt p es ++ keywordsAt (p + (body es).length) es' := by
  induction es generalizing p with
  | nil => rfl
  | cons e es ih =>
    rw [List.cons_append, keywordsAt, ih, keywordsAt, List.cons_append, body, body, List.flatMap_cons, List.length_append,
      Nat.add_assoc]

theorem mem_keywordsAt {kw : KeywordAt} (h : kw ∈ keywordsAt p es) : ∃ e ∈ es, kw.keyword = readWord e.keyword := by
  induction es generalizing p with
  | nil => cases h
  | cons e es ih =>
    rcases List.mem_cons.mp h with rfl | h
    · exact ⟨e, List.mem_cons_self, rfl⟩
    · obtain ⟨e', he', hkw⟩ := ih h
      exact ⟨e', List.mem_cons_of_mem _ he', hkw⟩

theorem nextKeyword_entry (pre post : Bytes) (e : Entry) :
    nextKeyword (pre ++ e.bytes ++ post) pre.length = .ok (readWord e.keyword, e.value.length) := by
  have hlen : (UInt8.ofNat e.value.length).toNat = e.value.length := by
    rw [UInt8.toNat_ofNat', Nat.mod_eq_of_lt e.value_lt]
  have hpos := List.length_pos_of_ne_nil e.value_ne
  have hsize : (pre ++ e.bytes ++ post).length = pre.length + (3 + e.value.length) + post.length := by
    rw [List.length_append, List.length_append, e.length_bytes]
  have hget : ∀ i < 3, (pre ++ e.bytes ++ post).getD (pre.length + i) 0 =
      (le 2 e.keyword ++ [UInt8.ofNat e.value.length]).getD i 0 := by
    intro i hi
    simp only [List.getD_eq_getElem?_getD, List.append_assoc, Entry.bytes]
    rw [List.getElem?_append_right (Nat.le_add_right ..), Nat.add_sub_cancel_left, ← List.append_assoc,
      List.getElem?_append_left (by simpa using hi)]
  have h0 := hget 0 (by omega)
  rw [Nat.add_zero] at h0
  unfold nextKeyword
  dsimp only
  have h2 : ((le 2 e.keyword ++ [UInt8.ofNat e.value.length]).getD 2 0).toNat = e.value.length := hlen
  rw [h0, hget 1 (by omega), hget 2 (by omega), hsize, if_neg (by omega), if_neg (by rw [h2]; omega), h2]
  rfl

/-- The contents of a tag read. -/
theorem reads_keywords (pre : Bytes) (es : List Entry) :
    Reads (keywords (pre ++ body es)) pre.length (keywordsAt pre.length es) (pre ++ body es).length := by
  induction es generalizing pre with
  | nil =>
    have hnil : pre ++ body [] = pre := List.append_nil pre
    rw [hnil]
    exact .nil (if_pos rfl)
  | cons e es ih =>
    have hb : pre ++ body (e :: es) = pre ++ e.bytes ++ body es := by
      rw [body, List.flatMap_cons, ← List.append_assoc]
      rfl
    have hlen : (pre ++ e.bytes).length = pre.length + 3 + e.value.length := by
      rw [List.length_append, e.length_bytes, Nat.add_assoc]
    have hrest := ih (pre ++ e.bytes)
    rw [hb]
    refine .cons ?_ (List.length_append ▸ hrest)
    rw [keywords, if_neg (by simp only [List.length_append, e.length_bytes]; omega), nextKeyword_entry]
    dsimp only
    rw [e.length_bytes, Nat.add_assoc]

/-! ### Blocks -/

def idBytes : Option Bytes → Bytes
  | none => []
  | some s => 0x82 :: le 2 s.length ++ s

/-- A block with the contents `ro` of its read-only tag. -/
def block (id : Option Bytes) (ro rest : Bytes) : Bytes := idBytes id ++ 0x90 :: (le 2 ro.length ++ ro ++ 0x78 :: rest)

def idTags : Option Bytes → List TagAt
  | none => []
  | some s => [⟨0, EFX_VPD_ID, s.length, 3⟩]

def roTag (id : Option Bytes) (n : ℕ) : TagAt := ⟨(idBytes id).length, EFX_VPD_RO, n, (idBytes id).length + 3⟩

variable {id : Option Bytes} {ro rest pre post s : Bytes}

theorem length_block (id : Option Bytes) (ro rest : Bytes) :
    (block id ro rest).length = (idBytes id).length + 3 + ro.length + 1 + rest.length := by
  simp [block]
  omega

theorem nextTag_large (pre post : Bytes) (x a b : UInt8) {tag : Tag} (hx : x.toNat >>> 7 ≠ 0)
    (htag : Tag.ofName (x.toNat &&& 0x7f) = some tag) : nextTag (pre ++ x :: a :: b :: post) pre.length =
    if wordOf a b > post.length then .error .EFAULT else .ok (tag, wordOf a b, pre.length + 3) := by
  have hlen : (pre ++ x :: a :: b :: post).length = pre.length + 3 + post.length := by
    simp
    omega
  have hget : ∀ i, (pre ++ x :: a :: b :: post).getD (pre.length + i) 0 = (x :: a :: b :: post).getD i 0 := by
    intro i
    rw [List.getD_eq_getElem?_getD, List.getElem?_append_right (Nat.le_add_right ..), Nat.add_sub_cancel_left,
      ← List.getD_eq_getElem?_getD]
  have h0 := hget 0
  rw [Nat.add_zero] at h0
  unfold nextTag
  dsimp only
  rw [h0, hget 1, hget 2, hlen, if_neg (by omega)]
  simp only [List.getD_cons_zero, List.getD_cons_succ]
  rw [if_neg hx, if_neg (by omega), nextTag.finish, htag]
  split_ifs with h1 h2 h2
  · rfl
  · omega
  · omega
  · rfl

theorem nextTag_id (s ro rest : Bytes) : nextTag (block (some s) ro rest) 0 =
    if readWord s.length > s.length + (ro.length + 4 + rest.length) then .error .EFAULT
    else .ok (EFX_VPD_ID, readWord s.length, 3) := by
  have hb : block (some s) ro rest = [] ++ 0x82 :: UInt8.ofNat s.length :: UInt8.ofNat (s.length / 256) ::
      (s ++ 0x90 :: (le 2 ro.length ++ ro ++ 0x78 :: rest)) := rfl
  have hlen : (s ++ 0x90 :: (le 2 ro.length ++ ro ++ 0x78 :: rest)).length = s.length + (ro.length + 4 + rest.length) := by
    simp
    omega
  have h := nextTag_large [] (s ++ 0x90 :: (le 2 ro.length ++ ro ++ 0x78 :: rest)) 0x82 (UInt8.ofNat s.length)
    (UInt8.ofNat (s.length / 256)) (by decide) (show Tag.ofName _ = some EFX_VPD_ID by decide)
  rw [hb]
  rw [hlen] at h
  exact h

theorem nextTag_ro (id : Option Bytes) (ro rest : Bytes) : nextTag (block id ro rest) (idBytes id).length =
    if readWord ro.length > ro.length + 1 + rest.length then .error .EFAULT
    else .ok (EFX_VPD_RO, readWord ro.length, (idBytes id).length + 3) := by
  have hlen : (ro ++ 0x78 :: rest).length = ro.length + 1 + rest.length := by
    simp
    omega
  have h := nextTag_large (idBytes id) (ro ++ 0x78 :: rest) 0x90 (UInt8.ofNat ro.length) (UInt8.ofNat (ro.length / 256))
    (by decide) (show Tag.ofName _ = some EFX_VPD_RO by decide)
  rw [hlen] at h
  exact h

theorem nextTag_end (id : Option Bytes) (ro rest : Bytes) :
    nextTag (block id ro rest) ((idBytes id).length + 3 + ro.length) =
      .ok (EFX_VPD_END, 0, (idBytes id).length + 3 + ro.length + 1) := by
  have hb : block id ro rest = (idBytes id ++ 0x90 :: (le 2 ro.length ++ ro)) ++ 0x78 :: rest := by
    simp [block]
  have hlen : (idBytes id ++ 0x90 :: (le 2 ro.length ++ ro)).length = (idBytes id).length + 3 + ro.length := by
    simp
    omega
  have h0 : (block id ro rest).getD ((idBytes id).length + 3 + ro.length) 0 = 0x78 := by
    rw [hb, ← hlen, List.getD_eq_getElem?_getD, List.getElem?_append_right le_rfl, Nat.sub_self]
    rfl
  unfold nextTag
  dsimp only
  rw [h0, length_block, if_neg (by omega)]
  change nextTag.finish _ _ 1 0xf 0 = _
  rw [nextTag.finish, if_neg (by omega)]
  rfl

theorem idBytes_length (s : Bytes) : (idBytes (some s)).length = 3 + s.length := by
  simp [idBytes]
  omega

/-- The tags of a block whose lengths read as they were put. -/
theorem reads_tags (hid : ∀ s ∈ id, ReadsBack s.length) (hro : ReadsBack ro.length) :
    Reads (tags (block id ro rest)) 0 (idTags id ++ [roTag id ro.length]) ((idBytes id).length + 3 + ro.length) := by
  have hend : tags (block id ro rest) ((idBytes id).length + 3 + ro.length) = .ok none := by
    rw [tags, nextTag_end]
    rfl
  have htag : tags (block id ro rest) (idBytes id).length =
      .ok (some (roTag id ro.length, (idBytes id).length + 3 + ro.length)) := by
    rw [tags, nextTag_ro, show readWord ro.length = ro.length from hro, if_neg (by omega)]
    rfl
  cases id with
  | none => exact .cons htag (.nil hend)
  | some s =>
    refine .cons ?_ (.cons htag (.nil hend))
    rw [tags, nextTag_id, show readWord s.length = s.length from hid s rfl, if_neg (by omega), idBytes_length]
    rfl

theorem contents_roTag (id : Option Bytes) (ro rest : Bytes) : contents (block id ro rest) (roTag id ro.length) = ro := by
  have hb : block id ro rest = (idBytes id ++ 0x90 :: le 2 ro.length) ++ ro ++ 0x78 :: rest := by
    simp [block]
  rw [contents, hb]
  exact slice_mid (by simp [roTag]) rfl

/-- The length of a block is up to its END tag. -/
theorem hunkLengthFrom_of_reads {data : Bytes} {ts : List TagAt} {p q taglen offset fuel : ℕ} (h : Reads (tags data) p ts q)
    (hq : nextTag data q = .ok (EFX_VPD_END, taglen, offset)) (hfuel : ts.length < fuel) :
    hunkLengthFrom data fuel p = .ok (offset + taglen) := by
  induction h generalizing fuel with
  | nil _ =>
    obtain ⟨fuel, rfl⟩ := Nat.exists_eq_succ_of_ne_zero (Nat.ne_zero_of_lt hfuel)
    rw [hunkLengthFrom, hq]
    rfl
  | @cons p p' q t ts hp _ ih =>
    obtain ⟨fuel, rfl⟩ := Nat.exists_eq_succ_of_ne_zero (Nat.ne_zero_of_lt hfuel)
    obtain ⟨-, -, hend, hnext, -, rfl⟩ := tags_ok hp
    rw [hunkLengthFrom, hnext]
    dsimp only
    rw [if_neg hend]
    exact ih hq (by simpa using hfuel)

theorem efxVpdHunkLength_block (hid : ∀ s ∈ id, ReadsBack s.length) (hro : ReadsBack ro.length) :
    efxVpdHunkLength (block id ro rest) = .ok ((idBytes id).length + 3 + ro.length + 1) := by
  have hreads : Reads (tags (block id ro rest)) 0 _ _ := reads_tags hid hro
  have hlen := hunkLengthFrom_of_reads hreads (nextTag_end id ro rest) (tags_length_le hreads)
  exact hlen

/-! ### Blocks whose last keyword is RV -/

/-- Everything in front of the checksum. -/
def front (id : Option Bytes) (es : List Entry) : Bytes :=
  idBytes id ++ 0x90 :: (le 2 ((body es).length + 4) ++ body es ++ [0x52, 0x56, 1])

def laid (id : Option Bytes) (es : List Entry) (ck : UInt8) (rest : Bytes) : Bytes := block id (body (es ++ [rv ck])) rest

variable {ck : UInt8}

theorem length_body_rv (es : List Entry) (ck : UInt8) : (body (es ++ [rv ck])).length = (body es).length + 4 := by
  rw [body_append, List.length_append]
  rfl

theorem length_front (id : Option Bytes) (es : List Entry) :
    (front id es).length = (idBytes id).length + 3 + (body es).length + 3 := by
  simp [front]
  omega

theorem laid_eq (id : Option Bytes) (es : List Entry) (ck : UInt8) (rest : Bytes) :
    laid id es ck rest = front id es ++ ck :: 0x78 :: rest := by
  have hrv : body (es ++ [rv ck]) = body es ++ [0x52, 0x56, 1] ++ [ck] := by
    rw [body_append]
    simp [body, Entry.bytes, rv, le, RV]
  rw [laid, block, length_body_rv, hrv]
  simp [front]

theorem length_laid (id : Option Bytes) (es : List Entry) (ck : UInt8) (rest : Bytes) :
    (laid id es ck rest).length = (front id es).length + 2 + rest.length := by
  rw [laid_eq]
  simp
  omega

/-- The sum of the bytes in front of the checksum. -/
def frontSum (id : Option Bytes) (es : List Entry) : ℕ := ((front id es).map UInt8.toNat).sum

theorem bsum_laid (id : Option Bytes) (es : List Entry) (ck : UInt8) (rest : Bytes) :
    bsum (laid id es ck rest) 0 (front id es).length = frontSum id es ∧
      bsum (laid id es ck rest) 0 ((front id es).length + 1) = frontSum id es + ck.toNat := by
  have h0 : bsum (laid id es ck rest) 0 (front id es).length = frontSum id es := by
    rw [bsum_eq_sum, laid_eq, List.take_left, frontSum]
  refine ⟨h0, ?_⟩
  rw [bsum, h0, laid_eq, Nat.zero_add, List.getD_eq_getElem?_getD, List.getElem?_append_right le_rfl, Nat.sub_self]
  rfl

/-- The lengths of a block read as they were put, and RV is behind its other keywords. -/
structure Readable (id : Option Bytes) (es : List Entry) : Prop where
  id : ∀ s ∈ id, ReadsBack s.length
  ro : ReadsBack ((body es).length + 4)
  rv : ∀ e ∈ es, readWord e.keyword ≠ RV

variable {σ β : Type}

theorem Readable.reads (h : Readable id es) (ck : UInt8) (rest : Bytes) : Reads (tags (laid id es ck rest)) 0
    (idTags id ++ [roTag id ((body es).length + 4)]) ((idBytes id).length + 3 + ((body es).length + 4)) := by
  have hro : ReadsBack (body (es ++ [Vpd.rv ck])).length := by
    rw [length_body_rv]
    exact h.ro
  have hreads : Reads (tags (block id (body (es ++ [Vpd.rv ck])) rest)) 0 _ _ := reads_tags h.id hro
  rw [length_body_rv] at hreads
  exact hreads

/-- A loop over the keywords of a block. -/
theorem eachKeyword_laid (id : Option Bytes) (es : List Entry) (ck : UInt8) (rest : Bytes)
    {inner : σ → KeywordAt → Except Errno (Round σ β)} (x : σ) :
    eachKeyword (contents (laid id es ck rest) (roTag id ((body es).length + 4))) inner x =
      (rounds inner (keywordsAt 0 (es ++ [rv ck])) x).map (Round.atEnd ((body es).length + 4)) := by
  have hc := contents_roTag id (body (es ++ [rv ck])) rest
  have hreads := reads_keywords [] (es ++ [rv ck])
  rw [List.nil_append, length_body_rv] at hreads
  rw [length_body_rv] at hc
  rw [laid, hc]
  exact eachKeyword_eq hreads x

theorem keywordsAt_rv (es : List Entry) (ck : UInt8) :
    keywordsAt 0 (es ++ [rv ck]) = keywordsAt 0 es ++ [⟨(body es).length, RV, 1⟩] := by
  have hrv : readWord (rv ck).keyword = RV := show readWord RV = RV by decide
  rw [keywordsAt_append, Nat.zero_add, keywordsAt, keywordsAt, hrv]
  rfl

/-- **Verify.** -/
theorem hunkVerify_laid (h : Readable id es) (ck : UInt8) (rest : Bytes) : hunkVerify (laid id es ck rest) =
    if (frontSum id es + ck.toNat) % 256 = 0 then .ok true else .error .EFAULT := by
  have hro : verifyTag (laid id es ck rest) false (roTag id ((body es).length + 4)) =
      if (frontSum id es + ck.toNat) % 256 = 0 then .ok (.next true) else .error .EFAULT := by
    have hskip : rounds (verifyKeyword (laid id es ck rest) (roTag id ((body es).length + 4)).offset) (keywordsAt 0 es)
        false = .ok (.next false) := by
      refine rounds_skip fun kw hkw => ?_
      obtain ⟨e, he, hk⟩ := mem_keywordsAt hkw
      rw [verifyKeyword, if_neg Bool.false_ne_true, if_neg (hk ▸ h.rv e he)]
    have hpos : (roTag id ((body es).length + 4)).offset + (body es).length + 4 = (front id es).length + 1 := by
      rw [length_front, roTag]
    rw [verifyTag, if_neg (by simp [roTag]), eachKeyword_laid, inTag_map, keywordsAt_rv, rounds_append_of_next hskip,
      rounds, verifyKeyword, if_neg Bool.false_ne_true, if_pos rfl, hpos, (bsum_laid id es ck rest).2]
    by_cases hz : (frontSum id es + ck.toNat) % 256 = 0
    · rw [if_neg (not_not.mpr hz), if_pos hz]
      rfl
    · rw [if_pos hz, if_neg hz]
  have hid : rounds (verifyTag (laid id es ck rest)) (idTags id) false = .ok (.next false) := by
    refine rounds_skip fun t ht => ?_
    cases id with
    | none => cases ht
    | some s =>
      obtain rfl := List.mem_singleton.mp ht
      rfl
  rw [hunkVerify, eachTag_eq (h.reads ck rest), rounds_append_of_next hid, rounds, hro]
  split_ifs <;> rfl

/-! ### Lookup -/

/-- `efx_vpd_hunk_get` answers with the value `v`; none is the empty one. -/
def Gives (data : Bytes) (tag : Option Tag) (keyword : ℕ) (v : Bytes) : Prop :=
  (v = [] ∧ hunkGet data tag keyword = .error .ENOENT) ∨
    (v ≠ [] ∧ ∃ payload, hunkGet data tag keyword = .ok ⟨payload, v.length, true⟩ ∧ slice data payload v.length = v)

theorem Gives.unique {data v v' : Bytes} {tag : Option Tag} (h : Gives data tag k v) (h' : Gives data tag k v') :
    v = v' := by
  rcases h with ⟨rfl, h⟩ | ⟨-, q, h, hv⟩ <;> rcases h' with ⟨rfl, h'⟩ | ⟨-, q', h', hv'⟩
  · rfl
  · cases h.symm.trans h'
  · cases h.symm.trans h'
  · have hq := h.symm.trans h'
    simp only [Except.ok.injEq, Got.mk.injEq, and_true] at hq
    rw [hq.1, hq.2] at hv
    exact hv.symm.trans hv'

/-- The value of the first of the keywords that reads as `k`. -/
def valueOf (es : List Entry) (k : ℕ) : Bytes := ((es.find? fun e => readWord e.keyword = k).map Entry.value).getD []

theorem find_keywordsAt_none (h : ∀ e ∈ es, readWord e.keyword ≠ k) :
    (keywordsAt p es).find? (fun kw => kw.keyword = k) = none := by
  refine List.find?_eq_none.mpr fun kw hkw => ?_
  obtain ⟨e, he, hk⟩ := mem_keywordsAt hkw
  simpa [hk] using h e he

theorem find_keywordsAt_some (h : ∀ e ∈ es, readWord e.keyword ≠ k) (he : readWord e.keyword = k) :
    (keywordsAt p (es ++ e :: es')).find? (fun kw => kw.keyword = k) = some ⟨p + (body es).length, k, e.value.length⟩ := by
  rw [keywordsAt_append, List.find?_append, find_keywordsAt_none h, Option.none_or, keywordsAt,
    List.find?_cons_of_pos (by simpa using he), he]

/-- The lookup of a keyword goes through the keywords of the tag. -/
theorem hunkGet_ro (h : Readable id es) (ck : UInt8) (rest : Bytes) (k : ℕ) :
    hunkGet (laid id es ck rest) (some EFX_VPD_RO) k =
      match (keywordsAt 0 (es ++ [rv ck])).find? (fun kw => kw.keyword = k) with
      | some kw => .ok ⟨(idBytes id).length + 3 + kw.pos + 3, kw.keylen, true⟩
      | none => .error .ENOENT := by
  have hid : rounds (getTag (laid id es ck rest) (some EFX_VPD_RO) k) (idTags id) () = .ok (.next ()) := by
    refine rounds_skip fun t ht => ?_
    cases id with
    | none => cases ht
    | some s =>
      obtain rfl := List.mem_singleton.mp ht
      rfl
  have hro : getTag (laid id es ck rest) (some EFX_VPD_RO) k () (roTag id ((body es).length + 4)) =
      rounds (getKeyword ((idBytes id).length + 3) k) (keywordsAt 0 (es ++ [rv ck])) () := by
    rw [getTag, if_pos (by simp [roTag]), if_neg (by simp [roTag]), eachKeyword_laid, inTag_map]
    rfl
  have hfind : rounds (getKeyword ((idBytes id).length + 3) k) (keywordsAt 0 (es ++ [rv ck])) () = _ :=
    rounds_find (P := fun kw => kw.keyword = k) (f := fun kw => ⟨(idBytes id).length + 3 + kw.pos + 3, kw.keylen, true⟩)
      fun kw _ => by
        rw [getKeyword]
        by_cases hk : kw.keyword = k <;> simp [hk]
  rw [hunkGet, eachTag_eq (h.reads ck rest), rounds_append_of_next hid, rounds, hro, hfind]
  cases (keywordsAt 0 (es ++ [rv ck])).find? (fun kw => kw.keyword = k) <;> rfl

theorem valueOf_none (h : ∀ e ∈ es, readWord e.keyword ≠ k) : valueOf es k = [] := by
  rw [valueOf, List.find?_eq_none.mpr fun e he => by simpa using h e he]
  rfl

theorem valueOf_some (h : ∀ e ∈ es, readWord e.keyword ≠ k) (he : readWord e.keyword = k) :
    valueOf (es ++ e :: es') k = e.value := by
  rw [valueOf, List.find?_append, List.find?_eq_none.mpr fun e he => by simpa using h e he, Option.none_or,
    List.find?_cons_of_pos (by simpa using he)]
  rfl

/-- The first of the keywords that reads as `k`, or none does. -/
theorem first_or_none (es : List Entry) (k : ℕ) : (∀ e ∈ es, readWord e.keyword ≠ k) ∨
    ∃ es1 e es2, es = es1 ++ e :: es2 ∧ readWord e.keyword = k ∧ ∀ e' ∈ es1, readWord e'.keyword ≠ k := by
  cases hf : es.find? fun e => readWord e.keyword = k with
  | none => exact Or.inl fun e he => by simpa using List.find?_eq_none.mp hf e he
  | some e =>
    obtain ⟨he, es1, es2, rfl, hpre⟩ := List.find?_eq_some_iff_append.mp hf
    exact Or.inr ⟨es1, e, es2, rfl, by simpa using he, fun e' he' => by simpa using hpre e' he'⟩

/-- **Lookup.**  A keyword other than RV has the value of the first that reads as it. -/
theorem gives_ro (h : Readable id es) (ck : UInt8) (rest : Bytes) (hk : k ≠ RV) :
    Gives (laid id es ck rest) (some EFX_VPD_RO) k (valueOf es k) := by
  have hrv : ∀ e ∈ [rv ck], readWord e.keyword ≠ k := by
    intro e he
    obtain rfl := List.mem_singleton.mp he
    rw [show readWord (rv ck).keyword = RV from show readWord RV = RV by decide]
    exact hk.symm
  rcases first_or_none es k with hno | ⟨es1, e, es2, rfl, he, hpre⟩
  · refine Or.inl ⟨valueOf_none hno, ?_⟩
    rw [hunkGet_ro h, find_keywordsAt_none fun e he => (List.mem_append.mp he).elim (hno e) (hrv e)]
  · rw [valueOf_some hpre he]
    refine Or.inr ⟨e.value_ne, (idBytes id).length + 3 + (body es1).length + 3, ?_, ?_⟩
    · rw [hunkGet_ro h, List.append_assoc, List.cons_append, find_keywordsAt_some hpre he, Nat.zero_add]
    · have hb : laid id (es1 ++ e :: es2) ck rest = (idBytes id ++ 0x90 :: (le 2 ((body (es1 ++ e :: es2)).length + 4) ++
          body es1 ++ (le 2 e.keyword ++ [UInt8.ofNat e.value.length]))) ++ e.value ++
            (body es2 ++ [0x52, 0x56, 1, ck, 0x78] ++ rest) := by
        have hbody : body (es1 ++ e :: es2) = body es1 ++ (e.bytes ++ body es2) := body_append es1 (e :: es2)
        rw [laid_eq, front, hbody]
        simp [Entry.bytes]
      rw [hb]
      exact slice_mid (by simp; omega) rfl

/-- The ID string is found with any keyword. -/
theorem gives_id (h : Readable id es) (hid : ∀ s ∈ id, s ≠ [] ∧ s.length < 256) (ck : UInt8) (rest : Bytes) (k : ℕ) :
    Gives (laid id es ck rest) (some EFX_VPD_ID) k (id.getD []) := by
  have hro : getTag (laid id es ck rest) (some EFX_VPD_ID) k () (roTag id ((body es).length + 4)) = .ok (.next ()) := by
    rw [getTag, if_neg (by simp [roTag])]
  cases id with
  | none =>
    refine Or.inl ⟨rfl, ?_⟩
    rw [hunkGet, eachTag_eq (h.reads ck rest), idTags, List.nil_append, rounds, hro]
    rfl
  | some s =>
    obtain ⟨hne, hlt⟩ := hid s rfl
    refine Or.inr ⟨hne, 3, ?_, ?_⟩
    · have hget : getTag (laid (some s) es ck rest) (some EFX_VPD_ID) k () ⟨0, EFX_VPD_ID, s.length, 3⟩ =
          .ok (.stop ⟨3, s.length, true⟩) := by
        rw [getTag, if_pos rfl, if_pos rfl]
        dsimp only
        rw [Nat.min_eq_left (by omega), decide_eq_true hlt]
      rw [hunkGet, eachTag_eq (h.reads ck rest), idTags, List.singleton_append, rounds, hget]
      rfl
    · have hb : laid (some s) es ck rest = (0x82 :: le 2 s.length) ++ s ++
          (0x90 :: (le 2 ((body es).length + 4) ++ body es ++ [0x52, 0x56, 1, ck, 0x78]) ++ rest) := by
        rw [laid_eq, front, idBytes]
        simp
      rw [hb]
      exact slice_mid rfl rfl

/-- No other tag is found. -/
theorem gives_other (h : Readable id es) (ck : UInt8) (rest : Bytes) {tag : Option Tag} (hid : tag ≠ some EFX_VPD_ID)
    (hro : tag ≠ some EFX_VPD_RO) (k : ℕ) : Gives (laid id es ck rest) tag k [] := by
  refine Or.inl ⟨rfl, ?_⟩
  have hskip : rounds (getTag (laid id es ck rest) tag k) (idTags id ++ [roTag id ((body es).length + 4)]) () =
      .ok (.next ()) := by
    refine rounds_skip fun t ht => ?_
    rw [getTag, if_neg]
    rcases List.mem_append.mp ht with ht | ht
    · cases id with
      | none => cases ht
      | some s =>
        obtain rfl := List.mem_singleton.mp ht
        exact hid.symm
    · obtain rfl := List.mem_singleton.mp ht
      exact hro.symm
  rw [hunkGet, eachTag_eq (h.reads ck rest), hskip]
  rfl

end Sfxge.Vpd
