import Sfxge.Lib.Run

/-!
# Lib.Bytes — byte memory

Memory is a list of bytes with addresses `0 ≤ p < m.length`.  `slice`/`splice` are the pure read
and write of a range, `At m p bs` says that the bytes `bs` lie at `p`, `u32`/`wsum` read
little-endian words and add them up.  The programs `load`, `store`, `memmove`, `memset` fault
exactly when a byte outside the memory would be touched; their addresses are integers, because C
pointer arithmetic may well go below the block.
-/

namespace Lib

abbrev Bytes := List UInt8

/-! ### Little-endian numbers -/

/-- The number with the given bytes, least significant byte first. -/
def ofLe : Bytes → ℕ
  | [] => 0
  | b :: bs => b.toNat + 256 * ofLe bs

/-- The `n` low bytes of `w`, least significant byte first. -/
def le : ℕ → ℕ → Bytes
  | 0, _ => []
  | n + 1, w => UInt8.ofNat w :: le n (w / 256)

@[simp] theorem length_le (n w : ℕ) : (le n w).length = n := by
  induction n generalizing w with
  | zero => rfl
  | succ n ih => simp [le, ih]

theorem ofLe_le (n w : ℕ) : ofLe (le n w) = w % 256 ^ n := by
  induction n generalizing w with
  | zero => simp [le, ofLe, Nat.mod_one]
  | succ n ih =>
    have h8 : (UInt8.ofNat w).toNat = w % 256 := UInt8.toNat_ofNat'
    rw [le, ofLe, ih, h8, pow_succ', Nat.mod_mul]

theorem ofLe_lt (bs : Bytes) : ofLe bs < 256 ^ bs.length := by
  induction bs with
  | nil => simp [ofLe]
  | cons b bs ih =>
    have hb : b.toNat < 256 := b.toNat_lt
    simp only [ofLe, List.length_cons, pow_succ]
    omega

theorem le_ofLe (bs : Bytes) : le bs.length (ofLe bs) = bs := by
  induction bs with
  | nil => rfl
  | cons b bs ih =>
    have hb : b.toNat < 256 := b.toNat_lt
    have h1 : (b.toNat + 256 * ofLe bs) / 256 = ofLe bs := by omega
    have h2 : UInt8.ofNat (b.toNat + 256 * ofLe bs) = b := by
      apply UInt8.toNat_inj.mp
      have : (UInt8.ofNat (b.toNat + 256 * ofLe bs)).toNat = (b.toNat + 256 * ofLe bs) % 256 :=
        UInt8.toNat_ofNat'
      omega
    simp only [List.length_cons, ofLe, le, h1, h2, ih]

/-! ### Ranges of a memory -/

/-- The `n` bytes at `p`. -/
def slice (m : Bytes) (p n : ℕ) : Bytes := (m.drop p).take n

/-- `m` with the bytes `bs` written at `p`. -/
def splice (m : Bytes) (p : ℕ) (bs : Bytes) : Bytes := m.take p ++ bs ++ m.drop (p + bs.length)

/-- The bytes `bs` lie at `p`. -/
def At (m : Bytes) (p : ℕ) (bs : Bytes) : Prop := bs <+: m.drop p

instance (m : Bytes) (p : ℕ) (bs : Bytes) : Decidable (At m p bs) :=
  inferInstanceAs (Decidable (bs <+: m.drop p))

theorem length_slice {m : Bytes} {p n : ℕ} (h : p + n ≤ m.length) : (slice m p n).length = n := by
  simp [slice]; omega

@[simp] theorem slice_zero (m : Bytes) (p : ℕ) : slice m p 0 = [] := by simp [slice]

theorem length_splice {m : Bytes} {p : ℕ} {bs : Bytes} (h : p + bs.length ≤ m.length) :
    (splice m p bs).length = m.length := by
  simp [splice]; omega

@[simp] theorem splice_nil (m : Bytes) (p : ℕ) : splice m p [] = m := by simp [splice]

/-- Two writes one behind the other are one write. -/
theorem splice_splice_append {m : Bytes} {p : ℕ} {bs cs : Bytes}
    (h : p + bs.length + cs.length ≤ m.length) :
    splice (splice m p bs) (p + bs.length) cs = splice m p (bs ++ cs) := by
  have hl : (m.take p ++ bs).length = p + bs.length := by simp; omega
  have e : splice m p bs = (m.take p ++ bs) ++ m.drop (p + bs.length) := rfl
  rw [splice, e, ← hl, List.take_left, hl, ← List.drop_drop, ← hl, List.drop_left, List.drop_drop,
    splice, hl]
  simp [Nat.add_assoc]

theorem take_splice {m : Bytes} {p q : ℕ} {bs : Bytes} (hq : q ≤ p) (h : p ≤ m.length) :
    (splice m p bs).take q = m.take q := by
  rw [splice, List.append_assoc, List.take_append_of_le_length (by simp; omega), List.take_take,
    min_eq_left hq]

theorem drop_splice {m : Bytes} {p k : ℕ} {bs : Bytes} (hk : k ≤ bs.length) (h : p ≤ m.length) :
    (splice m p bs).drop (p + k) = bs.drop k ++ m.drop (p + bs.length) := by
  have hl : (m.take p).length = p := by simp; omega
  have e : splice m p bs = m.take p ++ (bs ++ m.drop (p + bs.length)) := by
    rw [splice, List.append_assoc]
  have hd : (splice m p bs).drop p = bs ++ m.drop (p + bs.length) := by
    rw [e]
    conv_lhs => rw [← hl]
    rw [hl, List.drop_left' hl]
  rw [← List.drop_drop, hd, List.drop_append_of_le_length hk]

/-- A later write over the front of an earlier one. -/
theorem splice_over {m : Bytes} {p q : ℕ} {bs cs : Bytes} (hq : p ≤ q) (h1 : q ≤ p + cs.length)
    (h2 : p + cs.length ≤ q + bs.length) (h : q ≤ m.length) :
    splice (splice m q bs) p cs = splice m p (cs ++ bs.drop (p + cs.length - q)) := by
  obtain ⟨k, hk⟩ := Nat.exists_eq_add_of_le h1
  have hd : (splice m q bs).drop (q + k) = bs.drop k ++ m.drop (q + bs.length) :=
    drop_splice (by omega) h
  rw [splice, take_splice hq h, hk, hd, splice, List.length_append, List.length_drop,
    Nat.add_sub_cancel_left]
  have : p + (cs.length + (bs.length - k)) = q + bs.length := by omega
  rw [this]
  simp

/-- A range read out of a concatenation. -/
theorem slice_mid {a b c : Bytes} {p n : ℕ} (hp : p = a.length) (hn : n = b.length) :
    slice (a ++ b ++ c) p n = b := by
  subst hp hn
  simp [slice, List.append_assoc]

/-- A range of a concatenation overwritten by bytes of the same length. -/
theorem splice_mid {a b c bs : Bytes} {p : ℕ} (hp : p = a.length) (hb : bs.length = b.length) :
    splice (a ++ b ++ c) p bs = a ++ bs ++ c := by
  subst hp
  simp [splice, List.append_assoc, hb]

/-- A write behind the first part -/
theorem splice_append_right (a b bs : Bytes) (k : ℕ) : splice (a ++ b) (a.length + k) bs = a ++ splice b k bs := by
  simp only [splice, List.take_append, List.drop_append, List.append_assoc, Nat.add_sub_cancel_left, Nat.add_assoc]
  rw [List.take_of_length_le (Nat.le_add_right _ _), List.drop_eq_nil_of_le (Nat.le_add_right _ _), List.nil_append]

theorem slice_splice_self {m : Bytes} {p : ℕ} {bs : Bytes} (h : p + bs.length ≤ m.length) :
    slice (splice m p bs) p bs.length = bs := by
  unfold splice
  exact slice_mid (by simp; omega) rfl

theorem slice_splice_before {m : Bytes} {p q n : ℕ} {bs : Bytes} (hq : q + n ≤ p)
    (h : p + bs.length ≤ m.length) : slice (splice m p bs) q n = slice m q n := by
  have hlen : q ≤ (m.take p).length := by simp; omega
  simp only [slice, splice, List.append_assoc]
  rw [List.drop_append_of_le_length hlen, List.take_append_of_le_length (by simp; omega),
    List.drop_take, List.take_take, min_eq_left (by omega)]

theorem slice_splice_after {m : Bytes} {p q n : ℕ} {bs : Bytes} (hq : p + bs.length ≤ q)
    (h : p + bs.length ≤ m.length) : slice (splice m p bs) q n = slice m q n := by
  have hlen : (m.take p ++ bs).length = p + bs.length := by simp; omega
  have e : splice m p bs = (m.take p ++ bs) ++ m.drop (p + bs.length) := rfl
  obtain ⟨k, rfl⟩ := Nat.exists_eq_add_of_le hq
  unfold slice
  rw [e, ← List.drop_drop, ← hlen, List.drop_left, List.drop_drop]

/-- Reading a part of a range. -/
theorem slice_slice {m : Bytes} {p n q k : ℕ} (h : q + k ≤ n) :
    slice (slice m p n) q k = slice m (p + q) k := by
  simp only [slice, List.drop_take, List.take_take, List.drop_drop]
  rw [min_eq_left (by omega)]

theorem slice_append (m : Bytes) (p n k : ℕ) :
    slice m p (n + k) = slice m p n ++ slice m (p + n) k := by
  simp only [slice, List.take_add, List.drop_drop]

namespace At

variable {m : Bytes} {p : ℕ} {bs cs : Bytes}

theorem mid {a b c : Bytes} (hp : p = a.length) : At (a ++ b ++ c) p b := by
  subst hp
  exact ⟨c, by simp [List.append_assoc]⟩

theorem slice_eq (h : At m p bs) : slice m p bs.length = bs := by
  obtain ⟨t, ht⟩ := h
  rw [slice, ← ht]; simp

/-- A part of the bytes that lie at `p`. -/
theorem slice_sub (h : At m p bs) {q n : ℕ} (hq : q + n ≤ bs.length) :
    slice m (p + q) n = slice bs q n := by
  rw [← slice_slice hq, h.slice_eq]

theorem bound (h : At m p bs) (hne : bs ≠ []) : p + bs.length ≤ m.length := by
  have h1 := h.length_le
  have h2 := List.length_pos_of_ne_nil hne
  rw [List.length_drop] at h1
  omega

theorem of_slice (h : slice m p bs.length = bs) : At m p bs := by
  unfold At
  rw [← h]
  exact List.take_prefix _ _

theorem append_iff : At m p (bs ++ cs) ↔ At m p bs ∧ At m (p + bs.length) cs := by
  constructor
  · rintro ⟨t, ht⟩
    refine ⟨⟨cs ++ t, by rw [← List.append_assoc]; exact ht⟩, t, ?_⟩
    rw [← List.drop_drop, ← ht, List.append_assoc, List.drop_left]
  · rintro ⟨⟨t, ht⟩, u, hu⟩
    refine ⟨u, ?_⟩
    rw [← List.drop_drop, ← ht, List.drop_left] at hu
    rw [List.append_assoc, hu, ht]

theorem left (h : At m p (bs ++ cs)) : At m p bs := (append_iff.mp h).1

theorem right (h : At m p (bs ++ cs)) : At m (p + bs.length) cs := (append_iff.mp h).2

theorem nil : At m p [] := List.nil_prefix

/-- The memory around bytes that lie at `p`. -/
theorem split (h : At m p bs) : ∃ c, m = m.take p ++ bs ++ c := by
  obtain ⟨t, ht⟩ := h
  refine ⟨t, ?_⟩
  rw [List.append_assoc, ht, List.take_append_drop]

theorem of_splice (h : p + bs.length ≤ m.length) : At (splice m p bs) p bs :=
  of_slice (slice_splice_self h)

/-- Bytes that a write does not touch stay where they are. -/
theorem splice_frame {q : ℕ} (h : At m p bs) (hq : q + cs.length ≤ m.length)
    (hd : p + bs.length ≤ q ∨ q + cs.length ≤ p) : At (splice m q cs) p bs := by
  apply of_slice
  rcases hd with hd | hd
  · rw [slice_splice_before hd hq]; exact h.slice_eq
  · rw [slice_splice_after hd hq]; exact h.slice_eq

/-- A write inside bytes that lie in the memory -/
theorem splice_inside {k : ℕ} (h : At m p bs) (hp : p ≤ m.length) (hk : k + cs.length ≤ bs.length) :
    At (splice m (p + k) cs) p (splice bs k cs) := by
  obtain ⟨c, hm⟩ := h.split
  have hbs : bs = bs.take k ++ slice bs k cs.length ++ bs.drop (k + cs.length) := by
    rw [slice, ← List.drop_drop, List.append_assoc, List.take_append_drop, List.take_append_drop]
  have hm' : m = (m.take p ++ bs.take k) ++ slice bs k cs.length ++ (bs.drop (k + cs.length) ++ c) := by
    conv_lhs => rw [hm, hbs]
    simp only [List.append_assoc]
  have hlen : p + k = (m.take p ++ bs.take k).length := by
    rw [List.length_append, List.length_take, List.length_take]
    omega
  have hs : splice m (p + k) cs = m.take p ++ splice bs k cs ++ c := by
    conv_lhs => rw [hm']
    rw [splice_mid hlen (by rw [length_slice hk]), splice]
    simp only [List.append_assoc]
  rw [hs]
  exact At.mid (by rw [List.length_take]; omega)

end At

theorem length_le_length_flatten {bss : List Bytes} (h : ∀ bs ∈ bss, bs ≠ []) :
    bss.length ≤ bss.flatten.length := by
  induction bss with
  | nil => simp
  | cons bs bss ih =>
    have h1 := List.length_pos_of_ne_nil (h bs (by simp))
    have h2 := ih fun cs hcs => h cs (by simp [hcs])
    rw [List.flatten_cons, List.length_append, List.length_cons]
    omega

/-! ### Words -/

/-- The 32-bit little-endian word at `p`. -/
def u32 (m : Bytes) (p : ℕ) : ℕ := ofLe (slice m p 4)

/-- The 16-bit little-endian word at `p`. -/
def u16 (m : Bytes) (p : ℕ) : ℕ := ofLe (slice m p 2)

theorem u32_lt (m : Bytes) (p : ℕ) : u32 m p < 4294967296 := by
  have h := ofLe_lt (slice m p 4)
  have hl : (slice m p 4).length ≤ 4 := by simp [slice]
  have : (256 : ℕ) ^ (slice m p 4).length ≤ 256 ^ 4 := Nat.pow_le_pow_right (by norm_num) hl
  unfold u32
  omega

theorem u16_lt (m : Bytes) (p : ℕ) : u16 m p < 65536 := by
  have h := ofLe_lt (slice m p 2)
  have hl : (slice m p 2).length ≤ 2 := by simp [slice]
  have : (256 : ℕ) ^ (slice m p 2).length ≤ 256 ^ 2 := Nat.pow_le_pow_right (by norm_num) hl
  unfold u16
  omega

theorem u16_splice_self {m : Bytes} {p w : ℕ} (h : p + 2 ≤ m.length) :
    u16 (splice m p (le 2 w)) p = w % 65536 := by
  have hs : slice (splice m p (le 2 w)) p (le 2 w).length = le 2 w := slice_splice_self (by simpa using h)
  rw [length_le] at hs
  rw [u16, hs, ofLe_le]
  norm_num

theorem u32_append_left {m rest : Bytes} {p : ℕ} (h : p + 4 ≤ m.length) :
    u32 (m ++ rest) p = u32 m p := by
  rw [u32, u32, slice, slice, List.drop_append_of_le_length (by omega),
    List.take_append_of_le_length (by simp; omega)]

theorem u32_append_right (pre m : Bytes) (p : ℕ) : u32 (pre ++ m) (pre.length + p) = u32 m p := by
  rw [u32, u32, slice, slice, ← List.drop_drop, List.drop_left]

theorem u32_drop (m : Bytes) (d p : ℕ) : u32 (m.drop d) p = u32 m (d + p) := by
  rw [u32, u32, slice, slice, List.drop_drop]

theorem At.u32_eq {m : Bytes} {p w : ℕ} (h : At m p (le 4 w)) : u32 m p = w % 4294967296 := by
  have := h.slice_eq
  rw [length_le] at this
  rw [u32, this, ofLe_le]
  norm_num

theorem At.of_u32 {m : Bytes} {p : ℕ} (h : p + 4 ≤ m.length) : At m p (le 4 (u32 m p)) := by
  apply At.of_slice
  rw [length_le, u32]
  have := le_ofLe (slice m p 4)
  rw [length_slice h] at this
  exact this.symm

theorem u32_splice_frame {m bs : Bytes} {p q : ℕ} (h : p + bs.length ≤ m.length)
    (hd : q + 4 ≤ p ∨ p + bs.length ≤ q) : u32 (splice m p bs) q = u32 m q := by
  unfold u32
  rcases hd with hd | hd
  · rw [slice_splice_before hd h]
  · rw [slice_splice_after hd h]

theorem u32_splice_self {m : Bytes} {p w : ℕ} (h : p + 4 ≤ m.length) :
    u32 (splice m p (le 4 w)) p = w % 4294967296 :=
  (At.of_splice (by simpa using h)).u32_eq

theorem length_splice_le {m : Bytes} {p k w : ℕ} (h : p + k ≤ m.length) :
    (splice m p (le k w)).length = m.length := length_splice (by rwa [length_le])

theorem u32_splice_le {m : Bytes} {p k w q : ℕ} (h : p + k ≤ m.length) (hd : q + 4 ≤ p ∨ p + k ≤ q) :
    u32 (splice m p (le k w)) q = u32 m q :=
  u32_splice_frame (by rwa [length_le]) (by rwa [length_le])

theorem u16_splice_frame {m bs : Bytes} {p q : ℕ} (h : p + bs.length ≤ m.length)
    (hd : q + 2 ≤ p ∨ p + bs.length ≤ q) : u16 (splice m p bs) q = u16 m q := by
  unfold u16
  rcases hd with hd | hd
  · rw [slice_splice_before hd h]
  · rw [slice_splice_after hd h]

theorem u16_splice_le {m : Bytes} {p k w q : ℕ} (h : p + k ≤ m.length) (hd : q + 2 ≤ p ∨ p + k ≤ q) :
    u16 (splice m p (le k w)) q = u16 m q :=
  u16_splice_frame (by rwa [length_le]) (by rwa [length_le])

/-- The sum of the `n` words from `p` on. -/
def wsum (m : Bytes) (p : ℕ) : ℕ → ℕ
  | 0 => 0
  | n + 1 => wsum m p n + u32 m (p + 4 * n)

theorem wsum_add (m : Bytes) (p n k : ℕ) : wsum m p (n + k) = wsum m p n + wsum m (p + 4 * n) k := by
  induction k with
  | zero => rfl
  | succ k ih =>
    have e : p + 4 * (n + k) = p + 4 * n + 4 * k := by ring
    rw [← Nat.add_assoc, wsum, wsum, ih, e, Nat.add_assoc]

theorem wsum_congr {m m' : Bytes} {p p' n : ℕ} (h : ∀ i < n, u32 m' (p' + 4 * i) = u32 m (p + 4 * i)) :
    wsum m' p' n = wsum m p n := by
  induction n with
  | zero => rfl
  | succ n ih =>
    simp only [wsum, h n (by omega)]
    rw [ih fun i hi => h i (by omega)]

/-- Writing one word of a summed range. -/
theorem wsum_splice {m : Bytes} {p n i w : ℕ} (hi : i < n) (h : p + 4 * n ≤ m.length) :
    wsum (splice m (p + 4 * i) (le 4 w)) p n + u32 m (p + 4 * i) =
      wsum m p n + w % 4294967296 := by
  induction n with
  | zero => omega
  | succ n ih =>
    have hb : p + 4 * i + (le 4 w).length ≤ m.length := by rw [length_le]; omega
    simp only [wsum]
    rcases Nat.lt_succ_iff_lt_or_eq.mp hi with hlt | rfl
    · have h1 := ih hlt (by omega)
      have h2 : u32 (splice m (p + 4 * i) (le 4 w)) (p + 4 * n) = u32 m (p + 4 * n) :=
        u32_splice_frame hb (Or.inr (by rw [length_le]; omega))
      omega
    · have h1 : wsum (splice m (p + 4 * i) (le 4 w)) p i = wsum m p i :=
        wsum_congr fun j hj => u32_splice_frame hb (Or.inl (by omega))
      have h2 := u32_splice_self (w := w) (show p + 4 * i + 4 ≤ m.length by omega)
      omega

/-- The sum of the `n` bytes from `p` on. -/
def bsum (m : Bytes) (p : ℕ) : ℕ → ℕ
  | 0 => 0
  | n + 1 => bsum m p n + (m.getD (p + n) 0).toNat

theorem getD_set_ne {m : Bytes} {i j : ℕ} {b : UInt8} (h : i ≠ j) : (m.set i b).getD j 0 = m.getD j 0 := by
  rw [List.getD_eq_getElem?_getD, List.getD_eq_getElem?_getD, List.getElem?_set_ne h]

theorem bsum_congr {m m' : Bytes} {p n : ℕ} (h : ∀ i < n, m'.getD (p + i) 0 = m.getD (p + i) 0) :
    bsum m' p n = bsum m p n := by
  induction n with
  | zero => rfl
  | succ n ih => rw [bsum, bsum, h n (by omega), ih fun i hi => h i (by omega)]

/-- Writing one byte of a summed range. -/
theorem bsum_set {m : Bytes} {n i : ℕ} {b : UInt8} (hi : i < n) (h : n ≤ m.length) :
    bsum (m.set i b) 0 n + (m.getD i 0).toNat = bsum m 0 n + b.toNat := by
  induction n with
  | zero => omega
  | succ n ih =>
    simp only [bsum, Nat.zero_add]
    rcases Nat.lt_succ_iff_lt_or_eq.mp hi with hlt | rfl
    · have h1 := ih hlt (by omega)
      rw [getD_set_ne (by omega)]
      omega
    · have h1 : bsum (m.set i b) 0 i = bsum m 0 i := bsum_congr fun j hj => getD_set_ne (by omega)
      have h2 : (m.set i b).getD i 0 = b := by
        rw [List.getD_eq_getElem?_getD, List.getElem?_set_self (by omega), Option.getD_some]
      rw [h1, h2]
      omega

/-! ### Single bytes -/

theorem getD_splice {m bs : Bytes} {p : ℕ} (h : p + bs.length ≤ m.length) (i : ℕ) :
    (splice m p bs).getD i 0 = if p ≤ i ∧ i < p + bs.length then bs.getD (i - p) 0 else m.getD i 0 := by
  have hp : (m.take p).length = p := by simp; omega
  simp only [List.getD_eq_getElem?_getD, splice, List.append_assoc]
  rcases lt_or_ge i p with hlt | hge
  · rw [List.getElem?_append_left (by omega), List.getElem?_take_of_lt hlt, if_neg (by omega)]
  · rw [List.getElem?_append_right (by omega), hp]
    split_ifs with hin
    · rw [List.getElem?_append_left (by omega)]
    · rw [List.getElem?_append_right (by omega), List.getElem?_drop]
      congr 2
      omega

theorem getD_splice_frame {m bs : Bytes} {p i : ℕ} (h : p + bs.length ≤ m.length)
    (hd : i < p ∨ p + bs.length ≤ i) : (splice m p bs).getD i 0 = m.getD i 0 := by
  rw [getD_splice h, if_neg (by omega)]

/-- Ranges with the same bytes. -/
theorem slice_congr {m m' : Bytes} {p p' n : ℕ} (hp : p + n ≤ m.length) (hp' : p' + n ≤ m'.length)
    (h : ∀ i < n, m'.getD (p' + i) 0 = m.getD (p + i) 0) : slice m' p' n = slice m p n := by
  refine List.ext_getElem (by rw [length_slice hp, length_slice hp']) fun i h1 h2 => ?_
  have hi : i < n := by rwa [length_slice hp] at h2
  have := h i hi
  rw [List.getD_eq_getElem _ _ (by omega), List.getD_eq_getElem _ _ (by omega)] at this
  simpa [slice] using this

theorem slice_eq_replicate {m : Bytes} {p n : ℕ} {b : UInt8} (hp : p + n ≤ m.length)
    (h : ∀ i < n, m.getD (p + i) 0 = b) : slice m p n = List.replicate n b := by
  refine List.eq_replicate_iff.mpr ⟨length_slice hp, fun c hc => ?_⟩
  obtain ⟨i, hi, rfl⟩ := List.getElem_of_mem hc
  rw [length_slice hp] at hi
  have := h i hi
  rw [List.getD_eq_getElem _ _ (by omega)] at this
  simpa [slice] using this

theorem take_congr {m m' : Bytes} {k : ℕ} (hl : m'.length = m.length)
    (h : ∀ i < k, m'.getD i 0 = m.getD i 0) : m'.take k = m.take k := by
  refine List.ext_getElem (by simp [hl]) fun i h1 h2 => ?_
  have hi : i < m.length ∧ i < k := by simp at h2; omega
  have := h i hi.2
  rw [List.getD_eq_getElem _ _ (by omega), List.getD_eq_getElem _ _ (by omega)] at this
  simpa using this

theorem getD_of_take {m m' : Bytes} {k : ℕ} (h : m'.take k = m.take k) {i : ℕ} (hi : i < k) :
    m'.getD i 0 = m.getD i 0 := by
  have e : ∀ b : Bytes, b.getD i 0 = (b.take k).getD i 0 := by
    intro b
    rw [List.getD_eq_getElem?_getD, List.getD_eq_getElem?_getD, List.getElem?_take_of_lt hi]
  rw [e m', e m, h]

theorem u32_congr {m m' : Bytes} {p : ℕ} (hp : p + 4 ≤ m.length) (hp' : p + 4 ≤ m'.length)
    (h : ∀ i < 4, m'.getD (p + i) 0 = m.getD (p + i) 0) : u32 m' p = u32 m p := by
  rw [u32, u32, slice_congr hp hp' h]

theorem u16_congr {m m' : Bytes} {p : ℕ} (hp : p + 2 ≤ m.length) (hp' : p + 2 ≤ m'.length)
    (h : ∀ i < 2, m'.getD (p + i) 0 = m.getD (p + i) 0) : u16 m' p = u16 m p := by
  rw [u16, u16, slice_congr hp hp' h]

/-! ### Memories that agree below an address -/

section Below

variable {m m' : Bytes} {k : ℕ}

theorem slice_of_take (h : m'.take k = m.take k) {p n : ℕ} (hp : p + n ≤ k) : slice m' p n = slice m p n := by
  have e : ∀ b : Bytes, slice b p n = slice (b.take k) p n := by
    intro b
    rw [slice, slice, List.drop_take, List.take_take, min_eq_left (by omega)]
  rw [e m', e m, h]

theorem u32_of_take (h : m'.take k = m.take k) {p : ℕ} (hp : p + 4 ≤ k) : u32 m' p = u32 m p := by
  rw [u32, u32, slice_of_take h hp]

theorem u16_of_take (h : m'.take k = m.take k) {p : ℕ} (hp : p + 2 ≤ k) : u16 m' p = u16 m p := by
  rw [u16, u16, slice_of_take h hp]

theorem bsum_of_take (h : m'.take k = m.take k) : bsum m' 0 k = bsum m 0 k :=
  bsum_congr fun i hi => getD_of_take h (by omega)

theorem take_of_take (h : m'.take k = m.take k) {j : ℕ} (hj : j ≤ k) : m'.take j = m.take j := by
  rw [← min_eq_left hj, ← List.take_take, ← List.take_take, h]

end Below

theorem bsum_add (m : Bytes) (p n k : ℕ) : bsum m p (n + k) = bsum m p n + bsum m (p + n) k := by
  induction k with
  | zero => rfl
  | succ k ih => rw [← Nat.add_assoc, bsum, bsum, ih, Nat.add_assoc, Nat.add_assoc]

/-- The sum of the first bytes, in one pass -/
theorem bsum_eq_sum (m : Bytes) (n : ℕ) : bsum m 0 n = ((m.take n).map UInt8.toNat).sum := by
  induction n with
  | zero => rfl
  | succ n ih =>
    rw [bsum, ih, Nat.zero_add, List.take_add_one, List.map_append, List.sum_append, List.getD_eq_getElem?_getD]
    cases m[n]? <;> simp

/-! ### A buffer into which a memory is read -/

/-- A buffer of zeros, as long as the memory, with the first `k` bytes of the memory in it. -/
def readInto (m : Bytes) (k : ℕ) : Bytes := m.take k ++ List.replicate (m.length - k) 0

section

variable {m : Bytes} {k : ℕ}

theorem length_readInto (hk : k ≤ m.length) : (readInto m k).length = m.length := by
  rw [readInto, List.length_append, List.length_take_of_le hk, List.length_replicate]
  omega

theorem getD_readInto (hk : k ≤ m.length) (i : ℕ) : (readInto m k).getD i 0 = if i < k then m.getD i 0 else 0 := by
  have hl : (m.take k).length = k := List.length_take_of_le hk
  rw [readInto, List.getD_eq_getElem?_getD, List.getD_eq_getElem?_getD]
  split_ifs with hi
  · rw [List.getElem?_append_left (by omega), List.getElem?_take_of_lt hi]
  · rw [List.getElem?_append_right (by omega), List.getElem?_replicate]
    split_ifs <;> rfl

theorem take_readInto {j : ℕ} (hj : j ≤ k) (hk : k ≤ m.length) : (readInto m k).take j = m.take j :=
  take_congr (length_readInto hk) fun i hi => by rw [getD_readInto hk, if_pos (by omega)]

/-- Only what was read counts. -/
theorem bsum_readInto (hk : k ≤ m.length) (n : ℕ) : bsum (readInto m k) 0 n = bsum m 0 (min n k) := by
  induction n with
  | zero => rw [Nat.zero_min]; rfl
  | succ n ih =>
    rw [bsum, ih, Nat.zero_add, getD_readInto hk]
    split_ifs with hn
    · rw [min_eq_left (by omega), min_eq_left (by omega), bsum, Nat.zero_add]
    · rw [min_eq_right (by omega), min_eq_right (by omega)]
      rfl

end

/-! ### Programs on a byte memory -/

variable {ε : Type}

/-- The `n` bytes at address `p` exist.  An empty range touches nothing. -/
def InBlock (m : Bytes) (p : ℤ) (n : ℕ) : Prop := n = 0 ∨ 0 ≤ p ∧ p + n ≤ m.length

instance (m : Bytes) (p : ℤ) (n : ℕ) : Decidable (InBlock m p n) :=
  inferInstanceAs (Decidable (_ ∨ _))

theorem inBlock_natCast {m : Bytes} {p n : ℕ} (h : p + n ≤ m.length) : InBlock m p n :=
  Or.inr ⟨by omega, by exact_mod_cast h⟩

theorem not_inBlock_natCast {m : Bytes} {p n : ℕ} (hn : 0 < n) (h : m.length < p + n) :
    ¬ InBlock m p n := by
  rintro (h0 | ⟨-, h1⟩)
  · omega
  · have : p + n ≤ m.length := by exact_mod_cast h1
    omega

def load (p : ℤ) (n : ℕ) : Prog Bytes ε Bytes := fun m =>
  if InBlock m p n then .ret (slice m p.toNat n) m else .fault

def loadU32 (p : ℤ) : Prog Bytes ε ℕ := do
  let bs ← load p 4
  pure (ofLe bs)

def store (p : ℤ) (bs : Bytes) : Prog Bytes ε Unit := fun m =>
  if InBlock m p bs.length then .ret () (splice m p.toNat bs) else .fault

/-- `memmove(dst, src, n)`; a negative `n` becomes a count larger than any block. -/
def memmove (dst src n : ℤ) : Prog Bytes ε Unit := fun m =>
  if n < 0 then .fault
  else if InBlock m src n.toNat ∧ InBlock m dst n.toNat then
    .ret () (splice m dst.toNat (slice m src.toNat n.toNat))
  else .fault

def memset (p : ℤ) (b : UInt8) (n : ℤ) : Prog Bytes ε Unit := fun m =>
  if n < 0 then .fault else store p (List.replicate n.toNat b) m

/-- The 32-bit sum of the `n` words from `p` on, as the checksum loops compute it. -/
def sumU32 (p : ℤ) : ℕ → Prog Bytes ε ℕ
  | 0 => pure 0
  | n + 1 => do
    let s ← sumU32 p n
    let w ← loadU32 (p + 4 * n)
    pure ((s + w) % 4294967296)

variable {m : Bytes}

theorem load_of_le {p n : ℕ} (h : p + n ≤ m.length) :
    (load p n : Prog Bytes ε _) m = .ret (slice m p n) m := by
  rw [load, if_pos (inBlock_natCast h)]; rfl

theorem loadU32_of_le {p : ℕ} (h : p + 4 ≤ m.length) :
    (loadU32 p : Prog Bytes ε _) m = .ret (u32 m p) m := by
  rw [loadU32, Prog.bind_of_ret (load_of_le h)]; rfl

theorem loadU32_of_gt {p : ℕ} (h : m.length < p + 4) : (loadU32 p : Prog Bytes ε _) m = .fault := by
  rw [loadU32, Prog.bind_of_fault]
  rw [load, if_neg (not_inBlock_natCast (by omega) h)]

theorem store_of_le {p : ℕ} {bs : Bytes} (h : p + bs.length ≤ m.length) :
    (store p bs : Prog Bytes ε _) m = .ret () (splice m p bs) := by
  rw [store, if_pos (inBlock_natCast h)]; rfl

theorem store_of_gt {p : ℕ} {bs : Bytes} (hb : bs ≠ []) (h : m.length < p + bs.length) :
    (store p bs : Prog Bytes ε _) m = .fault := by
  rw [store, if_neg (not_inBlock_natCast (List.length_pos_of_ne_nil hb) h)]

theorem memmove_of_le {dst src n : ℕ} (hs : src + n ≤ m.length) (hd : dst + n ≤ m.length) :
    (memmove dst src n : Prog Bytes ε _) m = .ret () (splice m dst (slice m src n)) := by
  rw [memmove, if_neg (by omega), if_pos]
  · rfl
  · exact ⟨inBlock_natCast (by simpa using hs), inBlock_natCast (by simpa using hd)⟩

/-- A count that reaches behind the memory. -/
theorem memmove_of_gt {dst src n : ℕ} (hn : 0 < n) (hs : m.length < src + n) :
    (memmove dst src n : Prog Bytes ε _) m = .fault := by
  rw [memmove, if_neg (by omega), if_neg]
  rintro ⟨h, -⟩
  exact not_inBlock_natCast (by simpa using hn) (by simpa using hs) h

theorem memmove_neg {dst src n : ℤ} (h : n < 0) :
    (memmove dst src n : Prog Bytes ε _) m = .fault := by
  rw [memmove, if_pos h]

theorem memmove_zero (dst src : ℤ) : (memmove dst src 0 : Prog Bytes ε _) m = .ret () m := by
  rw [memmove, if_neg (by omega), if_pos ⟨Or.inl rfl, Or.inl rfl⟩]
  simp

theorem memset_of_le {p n : ℕ} {b : UInt8} (h : p + n ≤ m.length) :
    (memset p b n : Prog Bytes ε _) m = .ret () (splice m p (List.replicate n b)) := by
  rw [memset, if_neg (by omega)]
  exact store_of_le (by simpa using h)

theorem memset_below {p : ℤ} {b : UInt8} {n : ℕ} (hn : 0 < n) (h : p < 0) :
    (memset p b n : Prog Bytes ε _) m = .fault := by
  rw [memset, if_neg (by omega), store, if_neg]
  rintro (h0 | ⟨h1, -⟩)
  · simp at h0; omega
  · omega

theorem sumU32_of_le {p n : ℕ} (h : p + 4 * n ≤ m.length) :
    (sumU32 p n : Prog Bytes ε _) m = .ret (wsum m p n % 4294967296) m := by
  induction n with
  | zero => rfl
  | succ n ih =>
    have e : ((p : ℤ) + 4 * (n : ℤ)) = ((p + 4 * n : ℕ) : ℤ) := by push_cast; ring
    rw [sumU32, Prog.bind_of_ret (ih (by omega)), e, Prog.bind_of_ret (loadU32_of_le (by omega)),
      Prog.pure_apply, wsum]
    congr 1
    omega

/-! ### Accesses that stay in the memory -/

theorem safe_store_bind {α : Type} {p : ℕ} {bs : Bytes} {f : Unit → Prog Bytes ε α}
    (h : p + bs.length ≤ m.length) (hf : ∀ m' : Bytes, m'.length = m.length → (f ()).Safe m') :
    ((store p bs : Prog Bytes ε Unit) >>= f).Safe m := by
  rw [Prog.Safe, Prog.bind_of_ret (store_of_le h)]
  exact hf _ (length_splice h)

theorem safe_loadU32_bind {α : Type} {p : ℕ} {f : ℕ → Prog Bytes ε α} (h : p + 4 ≤ m.length)
    (hf : (f (u32 m p)).Safe m) : ((loadU32 p : Prog Bytes ε ℕ) >>= f).Safe m := by
  rw [Prog.Safe, Prog.bind_of_ret (loadU32_of_le h)]
  exact hf

theorem safe_sumU32_bind {α : Type} {p n : ℕ} {f : ℕ → Prog Bytes ε α} (h : p + 4 * n ≤ m.length)
    (hf : ∀ w, (f w).Safe m) : ((sumU32 p n : Prog Bytes ε ℕ) >>= f).Safe m := by
  rw [Prog.Safe, Prog.bind_of_ret (sumU32_of_le h)]
  exact hf _

/-! ### Moving a tail up and down -/

/-- Moving `tail` up by `d` bytes over what follows it opens a gap of `d` bytes below it. -/
theorem splice_up {pre tail next rest : Bytes} {p d n : ℕ} (hp : p = pre.length)
    (hn : n = tail.length) (hd : d = next.length) :
    ∃ gap, gap.length = d ∧
      splice (pre ++ tail ++ next ++ rest) (p + d)
        (slice (pre ++ tail ++ next ++ rest) p n) = pre ++ gap ++ tail ++ rest := by
  refine ⟨(tail ++ next).take d, by simp [hd], ?_⟩
  have e1 : slice (pre ++ tail ++ next ++ rest) p n = tail := by
    rw [List.append_assoc (pre ++ tail)]
    exact slice_mid hp hn
  have e2 : pre ++ tail ++ next ++ rest =
      (pre ++ (tail ++ next).take d) ++ (tail ++ next).drop d ++ rest := by
    rw [List.append_assoc pre (List.take _ _), List.take_append_drop]
    simp [List.append_assoc]
  rw [e1, e2]
  exact splice_mid (by simp [hp, hd]) (by simp [hd])

/-- Moving `tail` down over `gone` leaves the last bytes of `gone ++ tail ++ next` behind. -/
theorem splice_down {pre gone tail next rest : Bytes} {p d n : ℕ} (hp : p = pre.length)
    (hd : d = gone.length) (ho : next.length = gone.length) (hn : n = (gone ++ tail).length) :
    splice (pre ++ gone ++ tail ++ next ++ rest) p
        (slice (pre ++ gone ++ tail ++ next ++ rest) (p + d) n) =
      pre ++ tail ++ next ++ next ++ rest := by
  have e1 : slice (pre ++ gone ++ tail ++ next ++ rest) (p + d) n = tail ++ next := by
    rw [List.append_assoc (pre ++ gone) tail next]
    exact slice_mid (by simp [hp, hd]) (by simp [hn, ho]; omega)
  have e2 : pre ++ gone ++ tail ++ next ++ rest = pre ++ (gone ++ tail) ++ (next ++ rest) := by
    simp [List.append_assoc]
  rw [e1, e2, splice_mid hp (by simp [ho]; omega)]
  simp [List.append_assoc]

end Lib
