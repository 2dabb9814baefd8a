import Mathlib.Data.BitVec
import Mathlib.Data.Nat.Bitwise
import Mathlib.Data.List.Basic

/-!
# Lib.ByteOrder — elements of a block of bytes

A block of bytes is read and written in elements of `w` bits by a processor of either byte order.  Bit `p` of the block
is bit `p % 8` of byte `p / 8`; in the element that a processor reads, it is at the place `ByteOrder.raw` gives.
Nothing here mentions the driver.
-/

namespace Lib

/-- The byte order of a processor -/
inductive ByteOrder where
  | little | big
  deriving Repr, DecidableEq

variable {bo : ByteOrder} {b i j k n p w : ℕ}

/-- Where byte `j`, from the least significant on, of an element of `k` bytes is in memory. -/
def ByteOrder.place : ByteOrder → ℕ → ℕ → ℕ
  | little, _, j => j
  | big, k, j => k - 1 - j

theorem ByteOrder.place_lt (bo : ByteOrder) (h : j < k) : bo.place k j < k := by
  cases bo <;> simp only [place] <;> omega

@[simp] theorem ByteOrder.place_place (bo : ByteOrder) (h : j < k) : bo.place k (bo.place k j) = j := by
  cases bo <;> simp only [place]
  omega

/-- Where bit `p` of an element of `k` bytes, counted as in memory, is in the number that a processor reads. -/
def ByteOrder.raw (bo : ByteOrder) (k p : ℕ) : ℕ := 8 * bo.place k (p / 8) + p % 8

@[simp] theorem ByteOrder.raw_div (bo : ByteOrder) (k p : ℕ) : bo.raw k p / 8 = bo.place k (p / 8) := by
  rw [raw]
  omega

@[simp] theorem ByteOrder.raw_mod (bo : ByteOrder) (k p : ℕ) : bo.raw k p % 8 = p % 8 := by
  rw [raw]
  omega

theorem ByteOrder.raw_lt (bo : ByteOrder) (h : p < 8 * k) : bo.raw k p < 8 * k := by
  have hplace := bo.place_lt (show p / 8 < k by omega)
  rw [raw]
  omega

theorem ByteOrder.raw_raw (bo : ByteOrder) (h : p < 8 * k) : bo.raw k (bo.raw k p) = p := by
  rw [raw, raw_div, raw_mod, bo.place_place (by omega)]
  omega

/-! ### Blocks of bytes -/

/-- A block of `n` bytes -/
@[ext] structure Image (n : ℕ) where
  bytes : Vector (BitVec 8) n
  deriving DecidableEq

def Image.byte (m : Image n) (i : ℕ) : BitVec 8 := m.bytes[i]?.getD 0

def Image.bit (m : Image n) (p : ℕ) : Bool := (m.byte (p / 8)).getLsbD (p % 8)

/-- The number in the `width` bits from `lbn` on -/
def Image.number (m : Image n) (lbn width : ℕ) : ℕ := Nat.ofBits fun j : Fin width => m.bit (lbn + j)

theorem Image.byte_of_le {m : Image n} (h : n ≤ i) : m.byte i = 0 := by
  rw [byte, Vector.getElem?_eq_none h]
  rfl

theorem Image.bit_of_le {m : Image n} (h : 8 * n ≤ p) : m.bit p = false := by
  rw [bit, byte_of_le (by omega)]
  exact BitVec.getLsbD_zero

theorem Image.ext_bit {m m' : Image n} (h : ∀ p < 8 * n, m.bit p = m'.bit p) : m = m' := by
  ext i hi q hq
  have hbit := h (8 * i + q) (by omega)
  have hdiv : (8 * i + q) / 8 = i := by omega
  have hmod : (8 * i + q) % 8 = q := by omega
  rw [bit, bit, hdiv, hmod, byte, byte, Vector.getElem?_eq_getElem hi, Vector.getElem?_eq_getElem hi] at hbit
  simpa [BitVec.getLsbD_eq_getElem hq] using hbit

/-- The number with the `k` bytes `byte 0`, .., from the least significant on -/
def assemble (w : ℕ) (byte : ℕ → BitVec 8) : ℕ → BitVec w
  | 0 => 0
  | k + 1 => assemble w byte k ||| (byte k).setWidth w <<< (8 * k)

theorem getLsbD_assemble (w : ℕ) (byte : ℕ → BitVec 8) (k : ℕ) :
    (assemble w byte k).getLsbD p = (decide (p < w) && decide (p < 8 * k) && (byte (p / 8)).getLsbD (p % 8)) := by
  induction k with
  | zero => simp [assemble]
  | succ k ih =>
    rw [assemble, BitVec.getLsbD_or, ih, BitVec.getLsbD_shiftLeft, BitVec.getLsbD_setWidth]
    by_cases hw : p < w
    · by_cases hlow : p < 8 * k
      · have hnext : p < 8 * (k + 1) := by omega
        simp [hw, hlow, hnext]
      · by_cases hin : p < 8 * (k + 1)
        · have hdiv : p / 8 = k := by omega
          have hsub : p - 8 * k = p % 8 := by omega
          have hmod : p % 8 < w := by omega
          simp [hw, hlow, hin, hdiv, hsub, hmod]
        · rw [BitVec.getLsbD_of_ge (byte k) _ (by omega)]
          simp [hlow, hin]
    · simp [hw]

/-- Element `i`, as a processor reads it -/
def Image.load (m : Image n) (bo : ByteOrder) (w i : ℕ) : BitVec w :=
  assemble w (fun j => m.byte (i * (w / 8) + bo.place (w / 8) j)) (w / 8)

/-- The block after a processor has written element `i`. -/
def Image.store (m : Image n) (bo : ByteOrder) (i : ℕ) (e : BitVec w) : Image n where
  bytes := Vector.ofFn fun q : Fin n =>
    if q / (w / 8) = i then e.extractLsb' (8 * bo.place (w / 8) (q % (w / 8))) 8 else m.byte q

theorem Image.byte_store {m : Image n} {e : BitVec w} (hi : j < n) :
    (m.store bo i e).byte j =
      if j / (w / 8) = i then e.extractLsb' (8 * bo.place (w / 8) (j % (w / 8))) 8 else m.byte j := by
  rw [byte, store, Vector.getElem?_eq_getElem hi, Vector.getElem_ofFn]
  rfl

/-- **Reading an element.** -/
theorem Image.getLsbD_load (hw : 8 ∣ w) (m : Image n) (bo : ByteOrder) (i : ℕ) (hp : p < w) :
    (m.load bo w i).getLsbD (bo.raw (w / 8) p) = m.bit (w * i + p) := by
  obtain ⟨k, rfl⟩ := hw
  rw [Nat.mul_div_cancel_left k (by decide)]
  have hraw := bo.raw_lt hp
  have hdiv : (8 * k * i + p) / 8 = i * k + p / 8 := by
    rw [Nat.mul_assoc, Nat.mul_add_div (by decide), Nat.mul_comm k]
  have hmod : (8 * k * i + p) % 8 = p % 8 := by rw [Nat.mul_assoc, Nat.mul_add_mod]
  rw [load, Nat.mul_div_cancel_left k (by decide), getLsbD_assemble, ByteOrder.raw_div, ByteOrder.raw_mod,
    bo.place_place (by omega), decide_eq_true hraw, bit, hdiv, hmod, Bool.true_and, Bool.true_and]

/-- **Writing an element.** -/
theorem Image.bit_store (hw : 8 ∣ w) (m : Image n) (bo : ByteOrder) (i : ℕ) (e : BitVec w) (hp : p < 8 * n) :
    (m.store bo i e).bit p = if p / w = i then e.getLsbD (bo.raw (w / 8) (p % w)) else m.bit p := by
  obtain ⟨k, rfl⟩ := hw
  have hdiv : p / (8 * k) = p / 8 / k := (Nat.div_div_eq_div_mul p 8 k).symm
  have hbyte : p % (8 * k) / 8 = p / 8 % k := Nat.mod_mul_right_div_self p 8 k
  have hbit : p % (8 * k) % 8 = p % 8 := Nat.mod_mul_right_mod p 8 k
  rw [bit, byte_store (by omega), Nat.mul_div_cancel_left k (by decide), ← hdiv]
  by_cases he : p / (8 * k) = i
  · rw [if_pos he, if_pos he, BitVec.getLsbD_extractLsb', ByteOrder.raw, hbyte, hbit,
      decide_eq_true (Nat.mod_lt p (by decide)), Bool.true_and]
  · rw [if_neg he, if_neg he, bit]

theorem Image.load_congr (hw : 8 ∣ w) {m m' : Image n} (h : ∀ p < w, m.bit (w * i + p) = m'.bit (w * i + p)) :
    m.load bo w i = m'.load bo w i := by
  have hbytes : 8 * (w / 8) = w := Nat.mul_div_cancel' hw
  apply BitVec.eq_of_getLsbD_eq
  intro p hp
  have hp8 : p < 8 * (w / 8) := by omega
  have hraw : bo.raw (w / 8) p < w := (bo.raw_lt hp8).trans_eq hbytes
  have hload := getLsbD_load hw m bo i hraw
  have hload' := getLsbD_load hw m' bo i hraw
  rw [bo.raw_raw hp8] at hload hload'
  rw [hload, hload', h _ hraw]

/-! ### Going through the elements -/

/-- The first `count` elements, each replaced by what `g` makes of it. -/
def Image.update (m : Image n) (bo : ByteOrder) (g : ℕ → BitVec w → BitVec w) (count : ℕ) : Image n :=
  (List.range count).foldl (fun m i => m.store bo i (g i (m.load bo w i))) m

/-- **Update.**  Each element becomes what `g` makes of the one that was there. -/
theorem Image.bit_update (hw : 8 ∣ w) (m : Image n) (bo : ByteOrder) (g : ℕ → BitVec w → BitVec w) (count : ℕ)
    (hp : p < 8 * n) :
    (m.update bo g count).bit p =
      if p / w < count then (g (p / w) (m.load bo w (p / w))).getLsbD (bo.raw (w / 8) (p % w)) else m.bit p := by
  induction count generalizing p with
  | zero => rfl
  | succ count ih =>
    have hstep : m.update bo g (count + 1) =
        (m.update bo g count).store bo count (g count ((m.update bo g count).load bo w count)) := by
      rw [update, List.range_succ, List.foldl_append]
      rfl
    -- the elements behind those replaced are as they were
    have hload : (m.update bo g count).load bo w count = m.load bo w count := by
      refine load_congr hw fun q hq => ?_
      by_cases hin : w * count + q < 8 * n
      · have hdiv : (w * count + q) / w = count := by
          rw [Nat.mul_add_div (by omega), Nat.div_eq_of_lt hq, Nat.add_zero]
        rw [ih hin, hdiv, if_neg (Nat.lt_irrefl count)]
      · rw [bit_of_le (Nat.not_lt.mp hin), bit_of_le (Nat.not_lt.mp hin)]
    rw [hstep, bit_store hw _ _ _ _ hp, hload]
    by_cases he : p / w = count
    · rw [if_pos he, if_pos (by omega), he]
    · rw [if_neg he, ih hp]
      by_cases hlt : p / w < count
      · rw [if_pos hlt, if_pos (by omega)]
      · rw [if_neg hlt, if_neg (by omega)]

/-! ### Reversing bytes -/

/-- The two halves of `h` bits, with `half` done to each, exchanged. -/
def swapHalves (h : ℕ) (mask : BitVec w) (half : BitVec w → BitVec w) (x : BitVec w) : BitVec w :=
  half (x &&& mask) <<< h ||| half (x >>> h &&& mask)

/-- `f` reverses the `b` bytes of a number that has no more. -/
def ReversesBytes (b : ℕ) (f : BitVec w → BitVec w) : Prop :=
  ∀ x, (∀ p, 8 * b ≤ p → x.getLsbD p = false) →
    ∀ p, (f x).getLsbD p = (decide (p < 8 * b) && x.getLsbD (ByteOrder.big.raw b p))

theorem reversesBytes_id : ReversesBytes 1 (id : BitVec w → BitVec w) := by
  intro x hx p
  by_cases hp : p < 8
  · have hraw : ByteOrder.big.raw 1 p = p := by
      simp only [ByteOrder.raw, ByteOrder.place]
      omega
    simp [hraw, hp]
  · simp [hx p (by omega), hp]

/-- **Reversing bytes** half by half -/
theorem ReversesBytes.swapHalves {half : BitVec w → BitVec w} {mask : BitVec w} (hhalf : ReversesBytes b half)
    (hmask : ∀ p, mask.getLsbD p = decide (p < 8 * b)) (hw : 16 * b ≤ w) :
    ReversesBytes (2 * b) (swapHalves (8 * b) mask half) := by
  have hmasked : ∀ x : BitVec w, ∀ p, 8 * b ≤ p → (x &&& mask).getLsbD p = false := by
    intro x p hp
    rw [BitVec.getLsbD_and, hmask, decide_eq_false (by omega), Bool.and_false]
  intro x hx p
  rw [Lib.swapHalves, BitVec.getLsbD_or, BitVec.getLsbD_shiftLeft, hhalf _ (hmasked x),
    hhalf _ (hmasked (x >>> (8 * b))), BitVec.getLsbD_and, BitVec.getLsbD_and, hmask, hmask,
    BitVec.getLsbD_ushiftRight]
  by_cases hlow : p < 8 * b
  · -- a byte of the lower half comes from the upper one
    have hraw := ByteOrder.big.raw_lt hlow
    have hfrom : 8 * b + ByteOrder.big.raw b p = ByteOrder.big.raw (2 * b) p := by
      simp only [ByteOrder.raw, ByteOrder.place]
      omega
    have hboth : p < 8 * (2 * b) := by omega
    simp [hlow, hraw, hfrom, hboth]
  · by_cases hboth : p < 8 * (2 * b)
    · have hupper : p - 8 * b < 8 * b := by omega
      have hraw := ByteOrder.big.raw_lt hupper
      have hfrom : ByteOrder.big.raw b (p - 8 * b) = ByteOrder.big.raw (2 * b) p := by
        simp only [ByteOrder.raw, ByteOrder.place]
        omega
      have hpw : p < w := by omega
      rw [hfrom] at hraw ⊢
      simp [hlow, hboth, hupper, hraw, hpw]
    · have hupper : ¬ p - 8 * b < 8 * b := by omega
      simp [hlow, hboth, hupper]

/-- A number as memory has it, `swap` being the reversal of its bytes; the same converts back. -/
def ByteOrder.order (bo : ByteOrder) (swap : BitVec w → BitVec w) (x : BitVec w) : BitVec w :=
  match bo with
  | little => x
  | big => swap x

theorem getLsbD_order {swap : BitVec w → BitVec w} (hw : 8 ∣ w) (hswap : ReversesBytes (w / 8) swap) (bo : ByteOrder)
    (x : BitVec w) (hp : p < w) : (bo.order swap x).getLsbD p = x.getLsbD (bo.raw (w / 8) p) := by
  have hbytes : 8 * (w / 8) = w := Nat.mul_div_cancel' hw
  cases bo with
  | little =>
    have hraw : ByteOrder.little.raw (w / 8) p = p := by
      simp only [ByteOrder.raw, ByteOrder.place]
      omega
    rw [ByteOrder.order, hraw]
  | big =>
    rw [ByteOrder.order, hswap x (fun q hq => BitVec.getLsbD_of_ge x q (by omega)) p, hbytes, decide_eq_true hp,
      Bool.true_and]

/-- What is converted for memory has its bits where memory has them. -/
theorem getLsbD_order_raw {swap : BitVec w → BitVec w} (hw : 8 ∣ w) (hswap : ReversesBytes (w / 8) swap)
    (bo : ByteOrder) (x : BitVec w) (hp : p < w) : (bo.order swap x).getLsbD (bo.raw (w / 8) p) = x.getLsbD p := by
  have hbytes : 8 * (w / 8) = w := Nat.mul_div_cancel' hw
  have hp8 : p < 8 * (w / 8) := by omega
  rw [getLsbD_order hw hswap bo x ((bo.raw_lt hp8).trans_eq hbytes), bo.raw_raw hp8]

/-- An element read and converted is the bits of the block. -/
theorem Image.getLsbD_order_load {swap : BitVec w → BitVec w} (hw : 8 ∣ w) (hswap : ReversesBytes (w / 8) swap)
    (m : Image n) (bo : ByteOrder) (i : ℕ) (hp : p < w) :
    (bo.order swap (m.load bo w i)).getLsbD p = m.bit (w * i + p) := by
  rw [getLsbD_order hw hswap bo _ hp, getLsbD_load hw m bo i hp]

end Lib
