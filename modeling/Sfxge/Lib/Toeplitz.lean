import Mathlib.Data.BitVec
import Sfxge.Lib.Bytes

/-!
# Lib.Toeplitz — the Toeplitz hash of a bit string

A key and an input are bit strings.  A window of `w` bits slides over the key; the hash is the exclusive
or of the window's values at the positions of the input's set bits.
-/

namespace Lib

/-! ### Bit strings -/

/-- Bit `i` of a byte string, the most significant bit of the first byte being the first. -/
def bitAt (bs : Bytes) (i : ℕ) : Bool := (bs.getD (i / 8) 0).toBitVec.getMsbD (i % 8)

/-- The bits of a byte, most significant first. -/
def byteBits (b : UInt8) : List Bool := (List.range 8).map b.toBitVec.getMsbD

/-- The bits of a byte string. -/
def bits (bs : Bytes) : List Bool := bs.flatMap byteBits

@[simp] theorem length_byteBits (b : UInt8) : (byteBits b).length = 8 := by simp [byteBits]

theorem length_bits (bs : Bytes) : (bits bs).length = 8 * bs.length := by
  induction bs with
  | nil => rfl
  | cons b bs ih =>
    have h : bits (b :: bs) = byteBits b ++ bits bs := rfl
    rw [h, List.length_append, length_byteBits, ih, List.length_cons]
    omega

@[simp] theorem bits_append (as bs : Bytes) : bits (as ++ bs) = bits as ++ bits bs := List.flatMap_append

/-! ### The sliding window -/

/-- The `w` bits of the key `k` from position `i` on, the first being the most significant. -/
def window (k : ℕ → Bool) (i : ℕ) : (w : ℕ) → BitVec w
  | 0 => 0#0
  | w + 1 => (window k (i + 1) w).cons (k i)

variable {k : ℕ → Bool} {w i j : ℕ}

theorem getMsbD_window : (window k i w).getMsbD j = (decide (j < w) && k (i + j)) := by
  induction w generalizing i j with
  | zero => simp [window]
  | succ w ih =>
    rw [window]
    cases j with
    | zero => simp
    | succ j =>
      rw [BitVec.getMsbD_cons_succ, ih, show i + 1 + j = i + (j + 1) by omega]
      simp

/-- **Slide.** -/
theorem window_succ : window k (i + 1) (w + 1) = (window k i (w + 1) <<< 1) ||| (if k (i + (w + 1)) then 1 else 0) := by
  apply BitVec.eq_of_getMsbD_eq
  intro j hj
  have hone : (if k (i + (w + 1)) then 1#(w + 1) else 0).getMsbD j = (k (i + (w + 1)) && decide (j = w)) := by
    split_ifs with h <;> simp [h]
  have hval : (if k (i + (w + 1)) then (1 : BitVec (w + 1)) else 0).getMsbD j = _ := hone
  rw [BitVec.getMsbD_or, BitVec.getMsbD_shiftLeft, getMsbD_window, getMsbD_window, hval]
  by_cases hw : j = w
  · subst hw
    rw [show i + 1 + j = i + (j + 1) by omega]
    simp
  · have h1 : j < w + 1 := hj
    have h2 : j + 1 < w + 1 := by omega
    rw [show i + 1 + j = i + (j + 1) by omega]
    simp [hw, h1, h2]

/-! ### The hash -/

/-- The hash of the bits `xs`, the first of which is at position `i`. -/
def toeplitzFrom (k : ℕ → Bool) (w i : ℕ) : List Bool → BitVec w
  | [] => 0
  | x :: xs => (if x then window k i w else 0) ^^^ toeplitzFrom k w (i + 1) xs

/-- **Toeplitz hash.** -/
def toeplitz (k : ℕ → Bool) (w : ℕ) (xs : List Bool) : BitVec w := toeplitzFrom k w 0 xs

/-- The hash of a string is made of those of its parts. -/
theorem toeplitzFrom_append (xs ys : List Bool) :
    toeplitzFrom k w i (xs ++ ys) = toeplitzFrom k w i xs ^^^ toeplitzFrom k w (i + xs.length) ys := by
  induction xs generalizing i with
  | nil => simp [toeplitzFrom]
  | cons x xs ih =>
    rw [List.cons_append, toeplitzFrom, toeplitzFrom, ih, BitVec.xor_assoc, List.length_cons,
      show i + (xs.length + 1) = i + 1 + xs.length by omega]

/-- Bits that are not set do not count. -/
theorem toeplitzFrom_false (xs : List Bool) (h : ∀ x ∈ xs, x = false) : toeplitzFrom k w i xs = 0 := by
  induction xs generalizing i with
  | nil => rfl
  | cons x xs ih =>
    rw [toeplitzFrom, h x (by simp), ih fun y hy => h y (by simp [hy])]
    simp

/-- The hash as a fold over the positions. -/
theorem toeplitzFrom_eq_foldl (f : ℕ → Bool) (n : ℕ) (h : BitVec w) :
    (List.range n).foldl (fun h j => if f j then h ^^^ window k (i + j) w else h) h =
      h ^^^ toeplitzFrom k w i ((List.range n).map f) := by
  induction n with
  | zero => simp [toeplitzFrom]
  | succ n ih =>
    rw [List.range_succ, List.foldl_append, List.map_append, toeplitzFrom_append, ih, List.length_map,
      List.length_range, ← BitVec.xor_assoc]
    simp only [List.foldl_cons, List.foldl_nil, List.map_cons, List.map_nil, toeplitzFrom]
    split_ifs <;> simp

end Lib
