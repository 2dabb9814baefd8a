import Sfxge.Lib.Bytes

/-!
# Lib.Header — fields of a header in network order

A field is `n` bytes at an offset, its most significant byte first.  Fields that are apart do not disturb each
other, and whatever fields of a header have been changed, writing back what they held restores it, also where they
overlap.  Nothing here mentions the driver.
-/

namespace Lib

/-- The `n` low bytes of `w`, most significant byte first. -/
def be (n w : ℕ) : Bytes := (le n w).reverse

/-- The number with the given bytes, most significant byte first. -/
def ofBe (bs : Bytes) : ℕ := ofLe bs.reverse

@[simp] theorem length_be (n w : ℕ) : (be n w).length = n := by simp [be]

theorem ofBe_be (n w : ℕ) : ofBe (be n w) = w % 256 ^ n := by
  rw [ofBe, be, List.reverse_reverse, ofLe_le]

theorem be_ofBe (bs : Bytes) : be bs.length (ofBe bs) = bs := by
  have h := le_ofLe bs.reverse
  rw [List.length_reverse] at h
  rw [be, ofBe, h, List.reverse_reverse]

/-- The field of `n` bytes at `p`. -/
def getBe (m : Bytes) (p n : ℕ) : ℕ := ofBe (slice m p n)

/-- The header with `w` in its field of `n` bytes at `p`. -/
def setBe (m : Bytes) (p n w : ℕ) : Bytes := splice m p (be n w)

section

variable {m m' : Bytes} {p n q k w v : ℕ}

theorem getBe_lt : getBe m p n < 256 ^ n := by
  have h := ofLe_lt (slice m p n).reverse
  have hle : (slice m p n).reverse.length ≤ n := by
    rw [List.length_reverse, slice, List.length_take]
    exact min_le_left _ _
  exact lt_of_lt_of_le h (Nat.pow_le_pow_right (by decide) hle)

theorem length_setBe (h : p + n ≤ m.length) : (setBe m p n w).length = m.length :=
  length_splice (by rwa [length_be])

theorem getBe_setBe_self (h : p + n ≤ m.length) : getBe (setBe m p n w) p n = w % 256 ^ n := by
  have hself := slice_splice_self (m := m) (p := p) (show p + (be n w).length ≤ m.length by rwa [length_be])
  rw [length_be] at hself
  rw [getBe, setBe, hself, ofBe_be]

theorem getElem?_setBe (h : p + n ≤ m.length) (i : ℕ) :
    (setBe m p n w)[i]? = if p ≤ i ∧ i < p + n then (be n w)[i - p]? else m[i]? := by
  have hp : (m.take p).length = p := List.length_take_of_le (by omega)
  rw [setBe, splice, length_be, List.append_assoc]
  by_cases h1 : i < p
  · rw [List.getElem?_append_left (by omega), if_neg (by omega), List.getElem?_take_of_lt h1]
  · rw [List.getElem?_append_right (by omega), hp]
    by_cases h2 : i < p + n
    · rw [List.getElem?_append_left (by rw [length_be]; omega), if_pos ⟨by omega, h2⟩]
    · rw [List.getElem?_append_right (by rw [length_be]; omega), if_neg (by omega), length_be, List.getElem?_drop]
      exact congrArg (m[·]?) (by omega)

theorem slice_setBe_of_apart (h : p + n ≤ m.length) (hd : q + k ≤ p ∨ p + n ≤ q) :
    slice (setBe m p n w) q k = slice m q k := by
  rcases hd with hd | hd
  · exact slice_splice_before hd (by rwa [length_be])
  · exact slice_splice_after (by rwa [length_be]) (by rwa [length_be])

theorem getBe_setBe_of_apart (h : p + n ≤ m.length) (hd : q + k ≤ p ∨ p + n ≤ q) :
    getBe (setBe m p n w) q k = getBe m q k := congrArg ofBe (slice_setBe_of_apart h hd)

theorem drop_setBe (h : p + n ≤ m.length) (hq : p + n ≤ q) : (setBe m p n w).drop q = m.drop q := by
  refine List.ext_getElem? fun i => ?_
  rw [List.getElem?_drop, List.getElem?_drop, getElem?_setBe h, if_neg (by omega)]

/-- A field written twice holds what was written last. -/
theorem setBe_setBe_self (h : p + n ≤ m.length) : setBe (setBe m p n v) p n w = setBe m p n w := by
  refine List.ext_getElem? fun i => ?_
  rw [getElem?_setBe (by rwa [length_setBe h]), getElem?_setBe h, getElem?_setBe h]
  split_ifs <;> rfl

/-- Fields that are apart can be written in any order. -/
theorem setBe_comm (h : p + n ≤ m.length) (hq : q + k ≤ m.length) (hd : q + k ≤ p ∨ p + n ≤ q) :
    setBe (setBe m p n w) q k v = setBe (setBe m q k v) p n w := by
  refine List.ext_getElem? fun i => ?_
  rw [getElem?_setBe (by rwa [length_setBe h]), getElem?_setBe h, getElem?_setBe (by rwa [length_setBe hq]),
    getElem?_setBe hq]
  by_cases h1 : q ≤ i ∧ i < q + k
  · rw [if_pos h1, if_neg (by omega), if_pos h1]
  · rw [if_neg h1, if_neg h1]

theorem setBe_getBe (h : p + n ≤ m.length) : setBe m p n (getBe m p n) = m := by
  have hb : be n (getBe m p n) = slice m p n := by
    have := be_ofBe (slice m p n)
    rwa [length_slice h] at this
  refine List.ext_getElem? fun i => ?_
  rw [getElem?_setBe h, hb]
  split_ifs with hi
  · rw [slice, List.getElem?_take_of_lt (by omega), List.getElem?_drop]
    exact congrArg (m[·]?) (by omega)
  · rfl

end

/-! ### Restoring a header -/

/-- The headers differ at most in these fields. -/
def SameOutside (fields : List (ℕ × ℕ)) (m m' : Bytes) : Prop :=
  m'.length = m.length ∧ ∀ i, (∀ f ∈ fields, ¬ (f.1 ≤ i ∧ i < f.1 + f.2)) → m'[i]? = m[i]?

variable {fields : List (ℕ × ℕ)} {m m' : Bytes} {p n w : ℕ}

theorem SameOutside.refl (fields : List (ℕ × ℕ)) (m : Bytes) : SameOutside fields m m := ⟨rfl, fun _ _ => rfl⟩

theorem SameOutside.eq (h : SameOutside [] m m') : m' = m := List.ext_getElem? fun i => h.2 i nofun

theorem SameOutside.set (h : SameOutside fields m m') (hmem : (p, n) ∈ fields) (hp : p + n ≤ m.length) :
    SameOutside fields m (setBe m' p n w) := by
  have hp' : p + n ≤ m'.length := h.1 ▸ hp
  refine ⟨(length_setBe hp').trans h.1, fun i hi => ?_⟩
  rw [getElem?_setBe hp', if_neg (hi _ hmem)]
  exact h.2 i hi

/-- **Restoring a field.**  Writing back what a field held leaves one field less. -/
theorem SameOutside.restore (h : SameOutside ((p, n) :: fields) m m') (hp : p + n ≤ m.length) :
    SameOutside fields m (setBe m' p n (getBe m p n)) := by
  have hp' : p + n ≤ m'.length := h.1 ▸ hp
  refine ⟨(length_setBe hp').trans h.1, fun i hi => ?_⟩
  rw [getElem?_setBe hp']
  have horig := getElem?_setBe (w := getBe m p n) hp i
  rw [setBe_getBe hp] at horig
  split_ifs with hin
  · rw [horig, if_pos hin]
  · exact h.2 i (List.forall_mem_cons.mpr ⟨hin, hi⟩)

section

variable {q k : ℕ}

/-- What lies apart from the fields is the same. -/
theorem SameOutside.slice_eq (h : SameOutside fields m m') (hd : ∀ f ∈ fields, q + k ≤ f.1 ∨ f.1 + f.2 ≤ q) :
    slice m' q k = slice m q k := by
  refine List.ext_getElem? fun i => ?_
  simp only [slice]
  by_cases hi : i < k
  · rw [List.getElem?_take_of_lt hi, List.getElem?_take_of_lt hi, List.getElem?_drop, List.getElem?_drop]
    refine h.2 (q + i) fun f hf hin => ?_
    have := hd f hf
    omega
  · rw [List.getElem?_eq_none (by rw [List.length_take]; omega),
      List.getElem?_eq_none (by rw [List.length_take]; omega)]

theorem SameOutside.getBe_eq (h : SameOutside fields m m') (hd : ∀ f ∈ fields, q + k ≤ f.1 ∨ f.1 + f.2 ≤ q) :
    getBe m' q k = getBe m q k := by
  rw [getBe, h.slice_eq hd, getBe]

theorem SameOutside.drop_eq (h : SameOutside fields m m') (hd : ∀ f ∈ fields, f.1 + f.2 ≤ q) :
    m'.drop q = m.drop q := by
  refine List.ext_getElem? fun i => ?_
  rw [List.getElem?_drop, List.getElem?_drop]
  refine h.2 (q + i) fun f hf hin => ?_
  have := hd f hf
  omega

end

end Lib
