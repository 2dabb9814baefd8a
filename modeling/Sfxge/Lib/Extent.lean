import Mathlib.Data.List.Basic
import Mathlib.Tactic.Linarith
import Mathlib.Tactic.Ring

/-!
# Lib.Extent — an object that is scattered over memory

An extent is a range of addresses, and an object lies in a list of them, one after the other.  Where all extents
begin at a page and all but the last end at one, `pagesOf` lists their pages, and the page of a byte is found by
dividing its place.  Nothing here mentions the driver.
-/

namespace Lib

/-- A range of addresses. -/
structure Extent where
  addr : ℕ
  size : ℕ
  deriving DecidableEq

/-- The address of the `k`-th byte of an object. -/
def addrOf : List Extent → ℕ → ℕ
  | [], _ => 0
  | e :: es, k => if k < e.size then e.addr + k else addrOf es (k - e.size)

/-- The bytes of an object. -/
def totalSize (es : List Extent) : ℕ := (es.map Extent.size).sum

variable {p : ℕ}

/-- All extents begin at a page, and all but the last end at one. -/
def PageRuns (p : ℕ) : List Extent → Prop
  | [] => True
  | e :: es => p ∣ e.addr ∧ (es ≠ [] → p ∣ e.size) ∧ PageRuns p es

/-- The pages of an extent that begins at one. -/
def pages (p : ℕ) (e : Extent) : List ℕ := (List.range ((e.size + p - 1) / p)).map fun i => e.addr + p * i

def pagesOf (p : ℕ) (es : List Extent) : List ℕ := es.flatMap (pages p)

theorem pages_of_size_zero {a : ℕ} (hp : 0 < p) : pages p ⟨a, 0⟩ = [] := by
  have h0 : (0 + p - 1) / p = 0 := Nat.div_eq_of_lt (by omega)
  rw [pages, h0]
  rfl

/-- The first page and the rest. -/
theorem pages_cons {a s : ℕ} (hp : 0 < p) (hs : 0 < s) :
    pages p ⟨a, s⟩ = a :: pages p ⟨a + min p s, s - min p s⟩ := by
  rcases Nat.lt_or_ge p s with h | h
  · have hcount : (s + p - 1) / p = (s - p + p - 1) / p + 1 := by
      rw [show s + p - 1 = (s - p + p - 1) + p by omega, Nat.add_div_right _ hp]
    rw [Nat.min_eq_left (by omega), pages, pages, hcount, List.range_succ_eq_map, List.map_cons, List.map_map]
    refine congrArg₂ List.cons (by simp) (List.map_congr_left fun i _ => ?_)
    simp only [Function.comp_apply, Nat.succ_eq_add_one]
    ring
  · have hcount : (s + p - 1) / p = 1 := by
      rw [show s + p - 1 = (s - 1) + p by omega, Nat.add_div_right _ hp, Nat.div_eq_of_lt (by omega)]
    rw [Nat.min_eq_right h, Nat.sub_self, pages_of_size_zero hp, pages, hcount]
    simp

theorem length_pages (e : Extent) : (pages p e).length = (e.size + p - 1) / p := by simp [pages]

/-- **Page lookup.**  The page of a byte is found by dividing its place, and holds the byte. -/
theorem pagesOf_lookup (hp : 0 < p) {es : List Extent} (h : PageRuns p es) {j : ℕ} (hj : j < totalSize es) :
    ∃ a, (pagesOf p es)[j / p]? = some a ∧ a + j % p = addrOf es j := by
  induction es generalizing j with
  | nil => exact absurd hj (by simp [totalSize])
  | cons e es ih =>
    obtain ⟨-, hfull, hes⟩ := h
    have hcons : pagesOf p (e :: es) = pages p e ++ pagesOf p es := rfl
    by_cases hlt : j < e.size
    · have hidx : j / p < (e.size + p - 1) / p := by
        rw [Nat.div_lt_iff_lt_mul hp]
        have h1 := Nat.div_add_mod (e.size + p - 1) p
        have h2 := Nat.mod_lt (e.size + p - 1) hp
        have h3 : p * ((e.size + p - 1) / p) = (e.size + p - 1) / p * p := Nat.mul_comm _ _
        omega
      refine ⟨e.addr + p * (j / p), ?_, ?_⟩
      · rw [hcons, List.getElem?_append_left (by rw [length_pages]; exact hidx), pages, List.getElem?_map,
          List.getElem?_range hidx]
        rfl
      · rw [addrOf, if_pos hlt, Nat.add_assoc, Nat.div_add_mod]
    · have hne : es ≠ [] := by
        rintro rfl
        simp [totalSize] at hj
        exact hlt hj
      obtain ⟨q, hq⟩ := hfull hne
      have hsize : totalSize (e :: es) = e.size + totalSize es := by simp [totalSize]
      obtain ⟨a, ha, hadd⟩ := ih hes (j := j - e.size) (by omega)
      have hcount : (e.size + p - 1) / p = q := by
        rw [hq, Nat.add_sub_assoc (by omega), Nat.mul_add_div hp, Nat.div_eq_of_lt (by omega), Nat.add_zero]
      have hj' : j = (j - e.size) + p * q := by omega
      have hdiv : j / p = (j - e.size) / p + q := by
        conv_lhs => rw [hj']
        rw [Nat.add_mul_div_left _ _ hp]
      have hmod : j % p = (j - e.size) % p := by
        conv_lhs => rw [hj']
        rw [Nat.add_mul_mod_self_left]
      refine ⟨a, ?_, ?_⟩
      · have hle : (pages p e).length ≤ j / p := by
          rw [length_pages, hcount, hdiv]
          exact Nat.le_add_left q _
        rw [hcons, List.getElem?_append_right hle, length_pages, hcount, hdiv, Nat.add_sub_cancel]
        exact ha
      · rw [addrOf, if_neg hlt, hmod, hadd]

theorem dvd_of_mem_pagesOf {es : List Extent} (h : PageRuns p es) : ∀ a ∈ pagesOf p es, p ∣ a := by
  induction es with
  | nil => exact nofun
  | cons e es ih =>
    obtain ⟨haddr, -, hes⟩ := h
    intro a ha
    rcases List.mem_append.mp (show a ∈ pages p e ++ pagesOf p es from ha) with h | h
    · obtain ⟨i, -, rfl⟩ := List.mem_map.mp h
      exact Nat.dvd_add haddr (Dvd.intro i rfl)
    · exact ih hes a h

/-- All extents but the first begin at a page, and all but the last end at one. -/
def Paged (p : ℕ) : List Extent → Prop
  | [] => True
  | e :: es => (es ≠ [] → p ∣ e.addr + e.size) ∧ PageRuns p es

/-- The pages of an object: that in which it begins, and those that follow. -/
def objectPages (p : ℕ) (e : Extent) (es : List Extent) : List ℕ :=
  [e.addr - e.addr % p] ++ pages p ⟨e.addr + min (p - e.addr % p) e.size, e.size - min (p - e.addr % p) e.size⟩ ++
    pagesOf p es

/-- An object that begins inside a page, as one that begins with the page. -/
theorem objectPages_eq (hp : 0 < p) {e : Extent} (hpos : 0 < e.size) (es : List Extent) :
    objectPages p e es = pagesOf p (⟨e.addr - e.addr % p, e.size + e.addr % p⟩ :: es) := by
  have hmod : e.addr % p ≤ e.addr := Nat.mod_le _ _
  have hlt : e.addr % p < p := Nat.mod_lt _ hp
  have hhead := pages_cons (a := e.addr - e.addr % p) hp (by omega : 0 < e.size + e.addr % p)
  have haddr : e.addr - e.addr % p + min p (e.size + e.addr % p) = e.addr + min (p - e.addr % p) e.size := by omega
  have hsize : e.size + e.addr % p - min p (e.size + e.addr % p) = e.size - min (p - e.addr % p) e.size := by omega
  rw [haddr, hsize] at hhead
  rw [objectPages]
  exact congrArg (· ++ pagesOf p es) hhead.symm

/-- **Byte lookup.**  The page of the `k`-th byte holds it. -/
theorem objectPages_lookup (hp : 0 < p) {e : Extent} {es : List Extent} (hpos : 0 < e.size)
    (h : Paged p (e :: es)) {k : ℕ} (hk : k < totalSize (e :: es)) :
    ∃ a, (objectPages p e es)[(e.addr % p + k) / p]? = some a ∧ a + (e.addr % p + k) % p = addrOf (e :: es) k ∧
      p ∣ a := by
  have hmod : e.addr % p ≤ e.addr := Nat.mod_le _ _
  have hdvd : p ∣ e.addr - e.addr % p := Nat.dvd_sub_mod e.addr
  have hruns : PageRuns p (⟨e.addr - e.addr % p, e.size + e.addr % p⟩ :: es) := by
    refine ⟨hdvd, fun hne => ?_, h.2⟩
    have hend := Nat.dvd_sub (h.1 hne) hdvd
    have heq : e.addr + e.size - (e.addr - e.addr % p) = e.size + e.addr % p := by omega
    rwa [heq] at hend
  have hk' : e.addr % p + k < totalSize (⟨e.addr - e.addr % p, e.size + e.addr % p⟩ :: es) := by
    simp only [totalSize, List.map_cons, List.sum_cons] at hk ⊢
    omega
  obtain ⟨a, ha, hadd⟩ := pagesOf_lookup hp hruns hk'
  refine ⟨a, by rw [objectPages_eq hp hpos]; exact ha, ?_, dvd_of_mem_pagesOf hruns a (List.mem_of_getElem? ha)⟩
  rw [hadd, addrOf, addrOf]
  by_cases hlt : k < e.size
  · rw [if_pos hlt, if_pos (by dsimp only; omega)]
    dsimp only
    omega
  · rw [if_neg hlt, if_neg (by dsimp only; omega)]
    refine congrArg (addrOf es) ?_
    dsimp only
    omega

/-- **Run lookup.**  As long as a run of bytes stays in its page, it is one range of addresses. -/
theorem objectPages_run (hp : 0 < p) {e : Extent} {es : List Extent} (hpos : 0 < e.size) (h : Paged p (e :: es))
    {k s : ℕ} (hs : 0 < s) (hk : k + s ≤ totalSize (e :: es)) (hin : (e.addr % p + k) % p + s ≤ p) :
    ∃ a, (objectPages p e es)[(e.addr % p + k) / p]? = some a ∧ p ∣ a ∧
      ∀ i < s, addrOf (e :: es) (k + i) = a + (e.addr % p + k) % p + i := by
  obtain ⟨a, ha, -, hdvd⟩ := objectPages_lookup hp hpos h (k := k) (by omega)
  refine ⟨a, ha, hdvd, fun i hi => ?_⟩
  obtain ⟨a', ha', hadd, -⟩ := objectPages_lookup hp hpos h (k := k + i) (by omega)
  have hsplit : e.addr % p + (k + i) = ((e.addr % p + k) % p + i) + p * ((e.addr % p + k) / p) := by
    have := Nat.mod_add_div (e.addr % p + k) p
    omega
  have hlt : (e.addr % p + k) % p + i < p := by omega
  have hdiv : (e.addr % p + (k + i)) / p = (e.addr % p + k) / p := by
    rw [hsplit, Nat.add_mul_div_left _ _ hp, Nat.div_eq_of_lt hlt, Nat.zero_add]
  have hmod : (e.addr % p + (k + i)) % p = (e.addr % p + k) % p + i := by
    rw [hsplit, Nat.add_mul_mod_self_left, Nat.mod_eq_of_lt hlt]
  rw [hdiv, ha] at ha'
  rw [← hadd, hmod, ← Option.some.inj ha', Nat.add_assoc]

end Lib
