import Sfxge.Lic.V1V2

/-!
# Lic.Editing — what editing a V1/V2 licence partition keeps

`create` and `delete_key` keep a terminator behind the last key; `write_key` overwrites the old one
and writes none.  `editing_iff` says which runs keep the partition a list of keys: those in which
every write finds four zero bytes where the new terminator has to be.
-/

namespace Sfxge.Lic

open Lib Lib.Prog Errno

/-- What `find_key` accepts as a key: a consistent header that is not the terminator's. -/
structure KeyLike (key : Bytes) : Prop where
  header : HEADER_LENGTH ≤ key.length
  length : u16 key 2 + HEADER_LENGTH = key.length
  payload : u16 key 2 ≤ PAYLOAD_LENGTH_MAX
  type : ¬ (u16 key 0 = 0 ∧ u16 key 2 = 0)

theorem keyLike_of_validateKey {key : Bytes} (h : validateKey key = true) : KeyLike key := by
  simp only [validateKey] at h
  split_ifs at h with h1 h2 h3 h4
  exact ⟨by omega, by omega, by omega, fun h' => h3 h'.1⟩

@[simp] theorem length_terminator : terminator.length = HEADER_LENGTH := rfl

/-! ### `find_key` -/

variable {b : Bytes} {o : ℕ}

theorem findKey_of_le (h : o + HEADER_LENGTH ≤ b.length) :
    findKey b.length o b =
      if u16 b (o + 2) > PAYLOAD_LENGTH_MAX ∨ (u16 b o = 0 ∧ u16 b (o + 2) = 0) then .ret none b
      else .ret (some (o, u16 b (o + 2) + HEADER_LENGTH)) b := by
  simp only [HEADER_LENGTH] at h
  have hsub : ¬ (o ≤ b.length ∧ b.length - o < HEADER_LENGTH) := by
    simp only [HEADER_LENGTH]; omega
  rw [findKey, if_neg hsub, bind_of_ret (load_of_le (by omega)),
    bind_of_ret (load_of_le (by omega))]
  by_cases hc : u16 b (o + 2) > PAYLOAD_LENGTH_MAX ∨ (u16 b o = 0 ∧ u16 b (o + 2) = 0)
  · rw [if_pos hc]; exact if_pos hc ▸ rfl
  · rw [if_neg hc]; exact if_neg hc ▸ rfl

theorem findKey_of_gt (h : o ≤ b.length) (h' : b.length < o + HEADER_LENGTH) :
    findKey b.length o b = .ret none b := by
  rw [findKey, if_pos ⟨h, by omega⟩]
  rfl

/-- `find_key` behind the buffer reads outside it. -/
theorem findKey_beyond (h : b.length < o) : findKey b.length o b = .fault := by
  have hsub : ¬ (o ≤ b.length ∧ b.length - o < HEADER_LENGTH) := by omega
  rw [findKey, if_neg hsub, bind_of_fault]
  rw [load, if_neg (not_inBlock_natCast (by norm_num) (by omega))]

/-- A key that lies at `o` is found there. -/
theorem findKey_key {key : Bytes} (hk : KeyLike key) (h : At b o key) :
    findKey b.length o b = .ret (some (o, key.length)) b := by
  have hlen := hk.header
  simp only [HEADER_LENGTH] at hlen
  have hb := h.bound (by rintro rfl; simp at hlen)
  have h0 : u16 b o = u16 key 0 := by
    have := h.slice_sub (q := 0) (n := 2) (by omega)
    simp only [u16, ← this, Nat.add_zero]
  have h2 : u16 b (o + 2) = u16 key 2 := by
    simp only [u16, h.slice_sub (q := 2) (n := 2) (by omega)]
  have hno : ¬ (u16 b (o + 2) > PAYLOAD_LENGTH_MAX ∨ (u16 b o = 0 ∧ u16 b (o + 2) = 0)) := by
    rw [h0, h2]
    rintro (h3 | h3)
    · exact absurd hk.payload (by omega)
    · exact hk.type h3
  rw [findKey_of_le (by simp only [HEADER_LENGTH]; omega), if_neg hno, h2, hk.length]

/-- `find_key` stops at a terminator. -/
theorem findKey_terminator (h : At b o terminator) : findKey b.length o b = .ret none b := by
  have hb := h.bound (by decide)
  have h0 : u16 b o = 0 := by
    have := h.slice_sub (q := 0) (n := 2) (by decide)
    simp only [Nat.add_zero] at this
    rw [u16, this]
    decide
  have h2 : u16 b (o + 2) = 0 := by
    rw [u16, h.slice_sub (q := 2) (n := 2) (by decide)]
    decide
  rw [findKey_of_le (by simpa using hb), if_pos (Or.inr ⟨h0, h2⟩)]

theorem findKey_some_inv {start length : ℕ} {b' : Bytes}
    (h : findKey b.length o b = .ret (some (start, length)) b') :
    start = o ∧ length = u16 b (o + 2) + HEADER_LENGTH ∧ u16 b (o + 2) ≤ PAYLOAD_LENGTH_MAX ∧
      ¬ (u16 b o = 0 ∧ u16 b (o + 2) = 0) := by
  rcases Nat.lt_or_ge b.length o with hlt | hle
  · rw [findKey_beyond hlt] at h; cases h
  rcases Nat.lt_or_ge b.length (o + HEADER_LENGTH) with hlt | hge
  · rw [findKey_of_gt hle hlt] at h; cases h
  rw [findKey_of_le hge] at h
  by_cases hstop : u16 b (o + 2) > PAYLOAD_LENGTH_MAX ∨ (u16 b o = 0 ∧ u16 b (o + 2) = 0)
  · rw [if_pos hstop] at h; cases h
  rw [if_neg hstop] at h
  simp only [Res.ret.injEq, Option.some.injEq, Prod.mk.injEq] at h
  exact ⟨h.1.1.symm, h.1.2.symm, by omega, fun h0 => hstop (Or.inr h0)⟩

/-- What `find_key` finds is a key, if it lies in the buffer. -/
theorem keyLike_of_findKey {start length : ℕ} {b' : Bytes}
    (h : findKey b.length o b = .ret (some (start, length)) b')
    (hb : start + length ≤ b.length) : KeyLike (slice b start length) := by
  obtain ⟨rfl, rfl, hmax, hne⟩ := findKey_some_inv h
  have hlen := length_slice hb
  have h4 : HEADER_LENGTH = 4 := rfl
  have h0 : u16 (slice b start (u16 b (start + 2) + HEADER_LENGTH)) 0 = u16 b start := by
    rw [u16, slice_slice (by omega)]; rfl
  have h2 : u16 (slice b start (u16 b (start + 2) + HEADER_LENGTH)) 2 = u16 b (start + 2) := by
    rw [u16, slice_slice (by omega)]; rfl
  exact ⟨by rw [hlen]; omega, by rw [hlen, h2], by rw [h2]; exact hmax, by rw [h0, h2]; exact hne⟩

/-! ### Enumeration and layout -/

/-- Offsets and lengths of `keys` packed from `o` on. -/
def spansOf : ℕ → List Bytes → List (ℕ × ℕ)
  | _, [] => []
  | o, key :: keys => (o, key.length) :: spansOf (o + key.length) keys

theorem walk_of_at {keys : List Bytes} (hk : ∀ key ∈ keys, KeyLike key)
    (h : At b o (keys.flatten ++ terminator)) (ho : o + keys.flatten.length < 4294967296)
    {fuel : ℕ} (hf : keys.length < fuel) :
    walk b fuel o = some (spansOf o keys, o + keys.flatten.length) := by
  induction keys generalizing o fuel with
  | nil =>
    obtain ⟨fuel, rfl⟩ := Nat.exists_eq_succ_of_ne_zero (show fuel ≠ 0 by omega)
    have ho' : ¬ 4294967296 ≤ o := by simp at ho; omega
    rw [walk, if_neg ho', findKey_terminator (by simpa using h)]
    rfl
  | cons key keys ih =>
    obtain ⟨fuel, rfl⟩ := Nat.exists_eq_succ_of_ne_zero (show fuel ≠ 0 by omega)
    rw [List.flatten_cons, List.append_assoc] at h
    rw [List.flatten_cons, List.length_append] at ho ⊢
    have ho' : ¬ 4294967296 ≤ o := by omega
    have ih' := ih (fun k hk' => hk k (by simp [hk'])) h.right (by omega)
      (show keys.length < fuel by simp at hf; omega)
    rw [walk, if_neg ho', findKey_key (hk key (by simp)) h.left]
    simp only [ih', Option.map_some, spansOf]
    rw [Nat.add_assoc]

theorem readAll_of_at {keys : List Bytes} (h : At b o keys.flatten) (hk : ∀ key ∈ keys, key ≠ []) :
    readAll b (spansOf o keys) = some keys := by
  induction keys generalizing o with
  | nil => rfl
  | cons key keys ih =>
    rw [List.flatten_cons] at h
    have hb := h.left.bound (hk key (by simp))
    have hread : readKey o key.length key.length b = .ret key b := by
      rw [readKey, bind_of_ret (ensure_pos (le_refl _)), load_of_le hb, h.left.slice_eq]
    rw [spansOf, readAll, hread]
    simp only [ih h.right fun k hk' => hk k (by simp [hk']), Option.map_some]

theorem walk_inv {keys : List Bytes} {spans : List (ℕ × ℕ)} {stop fuel : ℕ}
    (hw : walk b fuel o = some (spans, stop)) (hr : readAll b spans = some keys) :
    (∀ key ∈ keys, KeyLike key) ∧ At b o keys.flatten ∧ stop = o + keys.flatten.length ∧
      spans = spansOf o keys ∧ stop < 4294967296 := by
  induction fuel generalizing o spans keys with
  | zero => cases hw
  | succ fuel ih =>
    rw [walk] at hw
    split_ifs at hw with ho
    split at hw
    · rename_i start length b' hfind
      obtain ⟨⟨spans', stop'⟩, hw', heq⟩ := Option.map_eq_some_iff.mp hw
      simp only [Prod.mk.injEq] at heq
      obtain ⟨rfl, rfl⟩ := heq
      simp only [readAll] at hr
      split at hr
      · rename_i key b'' hread
        obtain ⟨keys', hr', rfl⟩ := Option.map_eq_some_iff.mp hr
        obtain ⟨rfl, hlen, -⟩ := findKey_some_inv hfind
        have h4 : HEADER_LENGTH = 4 := rfl
        have hin : start + length ≤ b.length ∧ key = slice b start length := by
          rw [readKey, bind_of_ret (ensure_pos (le_refl _))] at hread
          rcases Nat.lt_or_ge b.length (start + length) with hlt | hge
          · rw [load, if_neg (not_inBlock_natCast (by omega) hlt)] at hread; cases hread
          · rw [load_of_le hge] at hread; cases hread; exact ⟨hge, rfl⟩
        have hkey := keyLike_of_findKey hfind hin.1
        have hkl : key.length = length := by rw [hin.2]; exact length_slice hin.1
        rw [← hin.2] at hkey
        obtain ⟨h1, h2, h3, h4, h5⟩ := ih hw' hr'
        subst hkl
        refine ⟨?_, ?_, ?_, ?_, h5⟩
        · rintro k (_ | ⟨_, hk⟩)
          · exact hkey
          · exact h1 k ‹_›
        · rw [List.flatten_cons, At.append_iff]
          exact ⟨At.of_slice hin.2.symm, h2⟩
        · rw [h3, List.flatten_cons, List.length_append]; omega
        · rw [h4]; rfl
      · cases hr
    · cases hw
      cases hr
      exact ⟨by simp, At.nil, by simp, rfl, by omega⟩
    · cases hw

/-- **Layout.**  A buffer holds `keys` exactly when they are packed at its start, each with a
consistent header, a terminator lies behind them, and their offsets fit in 32 bits. -/
theorem holds_iff {keys : List Bytes} :
    Holds b keys ↔ (∀ key ∈ keys, KeyLike key) ∧ At b 0 (keys.flatten ++ terminator) ∧
      keys.flatten.length < 4294967296 := by
  constructor
  · rintro ⟨spans, stop, hwalk, hread, hterm⟩
    obtain ⟨h1, h2, h3, -, h5⟩ := walk_inv hwalk hread
    rw [Nat.zero_add] at h3
    refine ⟨h1, At.append_iff.mpr ⟨h2, ?_⟩, by omega⟩
    rw [Nat.zero_add, ← h3]
    exact At.of_slice hterm
  · rintro ⟨hk, hat, hlen⟩
    have hne : ∀ key ∈ keys, key ≠ [] := by
      rintro key hkey rfl
      exact absurd (hk [] hkey).header (by decide)
    have hfuel : keys.length < b.length + 1 := by
      have h1 := length_le_length_flatten hne
      have h2 := hat.bound (by simp [terminator, HEADER_LENGTH])
      rw [List.length_append] at h2
      omega
    have hw := walk_of_at hk hat (by omega) hfuel
    refine ⟨_, _, hw, readAll_of_at hat.left hne, ?_⟩
    have := hat.right.slice_eq
    simpa using this

theorem enumerate_of_holds {keys : List Bytes} (h : Holds b keys) :
    enumerate b = some (spansOf 0 keys, keys.flatten.length) := by
  obtain ⟨spans, stop, hwalk, hread, -⟩ := h
  obtain ⟨-, -, h3, h4, -⟩ := walk_inv hwalk hread
  rw [hwalk, h3, h4, Nat.zero_add]

/-! ### One edit -/

/-- The condition on a write: four zero bytes already lie where the new terminator has to be, at an
offset that fits in 32 bits. -/
def Clear : Edit → Bytes × List Bytes → Prop
  | .writeKey key, (b, keys) =>
    keys.flatten.length + key.length < 4294967296 ∧
      slice b (keys.flatten.length + key.length) HEADER_LENGTH = terminator
  | .deleteKey _, _ => True

instance : (e : Edit) → (s : Bytes × List Bytes) → Decidable (Clear e s)
  | .writeKey _, (_, _) => inferInstanceAs (Decidable (_ ∧ _))
  | .deleteKey _, _ => inferInstanceAs (Decidable True)

theorem writeKey_ret {key : Bytes} {stop : ℕ} (h : stop + key.length + HEADER_LENGTH ≤ b.length) :
    writeKey b.length stop key b = .ret key.length (splice b stop key) := by
  have hmod := Nat.mod_le (stop + key.length) 4294967296
  have hroom : ¬ (HEADER_LENGTH ≤ b.length ∧
      (stop + key.length) % 4294967296 > b.length - HEADER_LENGTH) := by omega
  rw [writeKey, bind_of_ret (ensure_pos hroom), bind_of_ret (store_of_le (by omega))]
  rfl

/-- Writing a key over the terminator leaves a list of keys exactly when the bytes behind it are a
terminator already. -/
theorem holds_write_iff {keys : List Bytes} {key : Bytes} (hh : Holds b keys) (hk : KeyLike key)
    (hroom : keys.flatten.length + key.length + HEADER_LENGTH ≤ b.length) :
    Holds (splice b keys.flatten.length key) (keys ++ [key]) ↔
      Clear (.writeKey key) (b, keys) := by
  obtain ⟨hks, hat, hlen⟩ := holds_iff.mp hh
  have hin : keys.flatten.length + key.length ≤ b.length := by omega
  have hkeys : At (splice b keys.flatten.length key) 0 (keys.flatten ++ key) :=
    At.append_iff.mpr ⟨hat.left.splice_frame hin (Or.inl (by omega)),
      by rw [Nat.zero_add]; exact At.of_splice hin⟩
  have hflat : (keys ++ [key]).flatten = keys.flatten ++ key := by simp
  have hterm : At (splice b keys.flatten.length key) (0 + (keys.flatten ++ key).length) terminator ↔
      slice b (keys.flatten.length + key.length) HEADER_LENGTH = terminator := by
    rw [Nat.zero_add, List.length_append,
      ← slice_splice_after (p := keys.flatten.length) (le_refl _) hin]
    exact ⟨fun h => h.slice_eq, fun h => At.of_slice h⟩
  rw [holds_iff, hflat, At.append_iff, hterm, Clear, List.length_append]
  constructor
  · rintro ⟨-, ⟨-, h2⟩, h3⟩
    exact ⟨h3, h2⟩
  · rintro ⟨h3, h2⟩
    refine ⟨?_, ⟨hkeys, h2⟩, h3⟩
    intro k hk'
    rcases List.mem_append.mp hk' with hk' | hk'
    · exact hks k hk'
    · rw [List.mem_singleton.mp hk']; exact hk

theorem spansOf_getElem? {keys : List Bytes} {i start length : ℕ}
    (h : (spansOf o keys)[i]? = some (start, length)) :
    ∃ pre key post, keys = pre ++ key :: post ∧ pre.length = i ∧ start = o + pre.flatten.length ∧
      length = key.length := by
  induction keys generalizing o i with
  | nil => simp [spansOf] at h
  | cons key keys ih =>
    cases i with
    | zero =>
      simp only [spansOf, List.getElem?_cons_zero, Option.some.injEq, Prod.mk.injEq] at h
      exact ⟨[], key, keys, rfl, rfl, by simp [h.1], h.2.symm⟩
    | succ i =>
      simp only [spansOf, List.getElem?_cons_succ] at h
      obtain ⟨pre, k, post, rfl, rfl, rfl, rfl⟩ := ih h
      exact ⟨key :: pre, k, post, rfl, rfl, by simp; omega, rfl⟩

theorem deleteKey_ret {pre key post : List UInt8} (hat : At b 0 (pre ++ key ++ post ++ terminator))
    (hlen : (pre ++ key ++ post).length < 4294967296) (hk : HEADER_LENGTH ≤ key.length) :
    (do deleteKey pre.length key.length (← findEnd (pre ++ key ++ post).length) : LicProg ℕ) b =
      .ret key.length (splice b pre.length (post ++ terminator)) := by
  have hb := hat.bound (by simp [terminator, HEADER_LENGTH])
  have h4 : HEADER_LENGTH = 4 := rfl
  simp only [List.length_append, length_terminator] at hb hlen
  have htail : At b (pre.length + key.length) (post ++ terminator) := by
    have : At b 0 ((pre ++ key) ++ (post ++ terminator)) := by simpa using hat
    simpa using this.right
  have hmv : (((((pre ++ key ++ post).length + HEADER_LENGTH) % 4294967296 : ℕ) : ℤ) -
      (((pre.length + key.length) % 4294967296 : ℕ) : ℤ)) % 4294967296 =
      (((post ++ terminator).length : ℕ) : ℤ) := by
    simp only [List.length_append, length_terminator]
    omega
  have hsrc : (((pre.length + key.length) % 4294967296 : ℕ) : ℤ) =
      ((pre.length + key.length : ℕ) : ℤ) := by omega
  have hrun : deleteKey pre.length key.length (((pre ++ key ++ post).length + HEADER_LENGTH) %
      4294967296) b = .ret key.length (splice b pre.length (post ++ terminator)) := by
    simp only [deleteKey]
    rw [hmv, hsrc, bind_of_ret (memmove_of_le _ _), htail.slice_eq]
    · rfl
    · simp only [List.length_append, length_terminator]; omega
    · simp only [List.length_append, length_terminator]; omega
  exact hrun

/-- Deleting a key moves the terminator along. -/
theorem holds_delete {pre post : List Bytes} {key : Bytes}
    (hh : Holds b (pre ++ key :: post)) :
    Holds (splice b pre.flatten.length (post.flatten ++ terminator)) (pre ++ post) := by
  obtain ⟨hks, hat, hlen⟩ := holds_iff.mp hh
  have hflat : (pre ++ key :: post).flatten = pre.flatten ++ key ++ post.flatten := by simp
  rw [hflat] at hat hlen
  have hb := hat.bound (by simp [terminator, HEADER_LENGTH])
  simp only [List.length_append, length_terminator] at hb hlen
  have hin : pre.flatten.length + (post.flatten ++ terminator).length ≤ b.length := by
    simp only [List.length_append, length_terminator]; omega
  refine holds_iff.mpr ⟨fun k hk => hks k ?_, ?_, ?_⟩
  · simp only [List.mem_append, List.mem_cons] at hk ⊢
    tauto
  · rw [List.flatten_append, List.append_assoc, At.append_iff, Nat.zero_add]
    refine ⟨At.splice_frame ?_ hin (Or.inl (by omega)), At.of_splice hin⟩
    have : At b 0 (pre.flatten ++ (key ++ post.flatten ++ terminator)) := by simpa using hat
    exact this.left
  · rw [List.flatten_append, List.length_append]; omega

theorem holds_edit_iff (e : Edit) (s s' : Bytes × List Bytes) (hh : Holds s.1 s.2)
    (he : edit e s = some s') : Holds s'.1 s'.2 ↔ Clear e s := by
  obtain ⟨b, keys⟩ := s
  have henum := enumerate_of_holds hh
  cases e with
  | writeKey key =>
    simp only [edit, henum] at he
    split_ifs at he with hc
    rw [writeKey_ret hc.2] at he
    cases he
    exact holds_write_iff hh (keyLike_of_validateKey hc.1) hc.2
  | deleteKey i =>
    simp only [edit, henum] at he
    cases hspan : (spansOf 0 keys)[i]? with
    | none => rw [hspan] at he; cases he
    | some span =>
      obtain ⟨start, length⟩ := span
      obtain ⟨pre, key, post, rfl, rfl, rfl, rfl⟩ := spansOf_getElem? hspan
      obtain ⟨hks, hat, hlen⟩ := holds_iff.mp hh
      have hflat : (pre ++ key :: post).flatten = pre.flatten ++ key ++ post.flatten := by simp
      rw [hflat] at hat hlen
      have hrun := deleteKey_ret hat hlen (hks key (by simp)).header
      simp only [hspan, hflat, Nat.zero_add] at he
      rw [hrun] at he
      cases he
      simp only [Clear, iff_true]
      have := holds_delete hh
      simpa [List.eraseIdx_append_of_length_le] using this

/-! ### Runs -/

theorem createPartition_ret (h : HEADER_LENGTH ≤ b.length) :
    createPartition b = .ret () (splice b 0 terminator) := by
  rw [createPartition]
  exact memset_of_le (p := 0) (n := HEADER_LENGTH) (by omega)

theorem holds_create (h : HEADER_LENGTH ≤ b.length) : Holds (splice b 0 terminator) [] := by
  have : At (splice b 0 terminator) 0 terminator := At.of_splice (by simpa using h)
  exact holds_iff.mpr ⟨by simp, by simpa using this, by simp⟩

/-- **Editing.**  After `create`, the partition holds the edited list of keys in every state of a
run exactly when each write of the run finds a terminator already lying behind the new key. -/
theorem editing_iff {b0 b : Bytes} (h : HEADER_LENGTH ≤ b0.length)
    (hc : createPartition b0 = .ret () b) (edits : List Edit) :
    AlwaysAlong edit (fun s => Holds s.1 s.2) edits (b, []) ↔ StepsAlong edit Clear edits (b, []) := by
  rw [createPartition_ret h] at hc
  cases hc
  exact alwaysAlong_iff holds_edit_iff edits (s := (splice b0 0 terminator, [])) (holds_create h)

/-- Zero bytes behind the terminator: a key is added and deleted again. -/
theorem editing_zeroed :
    AlwaysAlong edit (fun s => Holds s.1 s.2) [.writeKey [1, 0, 0, 0], .deleteKey 0]
      ([0, 0, 0, 0, 0, 0, 0, 0], []) := by
  have hc : createPartition [9, 9, 9, 9, 0, 0, 0, 0] = .ret () [0, 0, 0, 0, 0, 0, 0, 0] := rfl
  refine (editing_iff (by decide) hc _).mpr fun s' _ => ?_
  exact ⟨by decide, fun _ _ => ⟨trivial, trivial⟩⟩

/-- Stale bytes behind the terminator that read as a key: after the first write they are one. -/
theorem editing_stale_key :
    createPartition [9, 9, 9, 9, 2, 0, 0, 0, 0, 0, 0, 0] =
        .ret () [0, 0, 0, 0, 2, 0, 0, 0, 0, 0, 0, 0] ∧
      ¬ AlwaysAlong edit (fun s => Holds s.1 s.2) [.writeKey [1, 0, 0, 0]]
        ([0, 0, 0, 0, 2, 0, 0, 0, 0, 0, 0, 0], []) := by
  refine ⟨rfl, fun h => ?_⟩
  have hh : Holds [1, 0, 0, 0, 2, 0, 0, 0, 0, 0, 0, 0] [[1, 0, 0, 0]] := h.2 _ rfl
  have h1 := enumerate_of_holds hh
  revert h1
  decide

end Sfxge.Lic
