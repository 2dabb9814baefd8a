import Mathlib.Data.BitVec
import Sfxge.Lib.Bytes

/-!
# Lib.Crc — reflected cyclic redundancy checks

The remainder of a polynomial division, with the coefficients in reverse order: bit by bit, and a byte at a time from
a table of the remainders of the 256 bytes.  A division step is linear in exclusive or, and eight of them only move
down a remainder whose low byte is clear; a table of eight steps for each byte is all the rest of a step needs.
-/

namespace Lib.Crc

variable {w : ℕ} (poly : BitVec w)

/-- One step of the division: the remainder moves down, and takes the polynomial off for the one that falls out. -/
def step (c : BitVec w) : BitVec w := if c.getLsbD 0 then (c >>> 1) ^^^ poly else c >>> 1

def steps : ℕ → BitVec w → BitVec w
  | 0, c => c
  | n + 1, c => step poly (steps n c)

/-- The division of one more byte. -/
def byte (c : BitVec w) (b : UInt8) : BitVec w := steps poly 8 (c ^^^ b.toBitVec.setWidth w)

/-- **The remainder of a byte string**, bit by bit, from the remainder `c` of what came before it. -/
def crc (c : BitVec w) (bs : Bytes) : BitVec w := bs.foldl (byte poly) c

theorem crc_append (c : BitVec w) (as bs : Bytes) : crc poly c (as ++ bs) = crc poly (crc poly c as) bs :=
  List.foldl_append

/-! ### Linearity -/

theorem step_xor (a b : BitVec w) : step poly (a ^^^ b) = step poly a ^^^ step poly b := by
  unfold step
  rw [BitVec.getLsbD_xor, BitVec.ushiftRight_xor_distrib]
  cases a.getLsbD 0 <;> cases b.getLsbD 0
  · rfl
  · exact BitVec.xor_assoc _ _ _
  · simp only [Bool.true_bne, Bool.not_false, if_true, Bool.false_eq_true, if_false]
    rw [BitVec.xor_assoc, BitVec.xor_comm (b >>> 1), ← BitVec.xor_assoc]
  · simp only [bne_self_eq_false, Bool.false_eq_true, if_false, if_true]
    rw [BitVec.xor_assoc, BitVec.xor_comm poly, BitVec.xor_assoc, BitVec.xor_self, BitVec.xor_zero]

theorem steps_xor (n : ℕ) (a b : BitVec w) : steps poly n (a ^^^ b) = steps poly n a ^^^ steps poly n b := by
  induction n with
  | zero => rfl
  | succ n ih => rw [steps, steps, steps, ih, step_xor]

/-! ### A byte at a time -/

/-- A remainder whose low `m` bits are clear only moves down. -/
theorem steps_of_low_clear {c : BitVec w} {m : ℕ} (hc : ∀ i < m, c.getLsbD i = false) :
    ∀ n ≤ m, steps poly n c = c >>> n
  | 0, _ => by rw [steps, BitVec.ushiftRight_zero]
  | n + 1, hn => by
    have hlow : (c >>> n).getLsbD 0 = false := by
      rw [BitVec.getLsbD_ushiftRight]
      exact hc _ (by omega)
    rw [steps, steps_of_low_clear hc n (by omega), step, hlow, if_neg Bool.false_ne_true, BitVec.shiftRight_add]

/-- The low byte of a remainder. -/
def low (c : BitVec w) : BitVec w := c &&& BitVec.ofNat w 255

theorem getLsbD_low (c : BitVec w) (i : ℕ) : (low c).getLsbD i = (c.getLsbD i && decide (i < 8)) := by
  have h : (255 : ℕ) = 2 ^ 8 - 1 := rfl
  rw [low, BitVec.getLsbD_and, BitVec.getLsbD_ofNat, h, Nat.testBit_two_pow_sub_one]
  by_cases hi : i < w
  · simp [hi]
  · simp [BitVec.getLsbD_of_ge c i (Nat.not_lt.mp hi)]

/-- **Eight steps**: those of the low byte, and the rest moved down by a byte. -/
theorem steps_eight (c : BitVec w) : steps poly 8 c = (c >>> 8) ^^^ steps poly 8 (low c) := by
  have hsplit : c = (c ^^^ low c) ^^^ low c := by
    rw [BitVec.xor_assoc, BitVec.xor_self, BitVec.xor_zero]
  have hclear : ∀ i < 8, (c ^^^ low c).getLsbD i = false := by
    intro i hi
    rw [BitVec.getLsbD_xor, getLsbD_low]
    simp [hi]
  have hhigh : (c ^^^ low c) >>> 8 = c >>> 8 := by
    apply BitVec.eq_of_getLsbD_eq
    intro i _
    have hi : ¬ 8 + i < 8 := by omega
    rw [BitVec.getLsbD_ushiftRight, BitVec.getLsbD_ushiftRight, BitVec.getLsbD_xor, getLsbD_low]
    simp [hi]
  calc steps poly 8 c = steps poly 8 (c ^^^ low c) ^^^ steps poly 8 (low c) := by rw [← steps_xor, ← hsplit]
    _ = (c >>> 8) ^^^ steps poly 8 (low c) := by rw [steps_of_low_clear poly hclear 8 le_rfl, hhigh]

/-- **A byte from the table**, whose word is that of the low byte of the remainder and the input. -/
theorem byte_eq_table (table : BitVec w → BitVec w) (ht : ∀ c, table (low c) = steps poly 8 (low c)) (c : BitVec w)
    (b : UInt8) : byte poly c b = (c >>> 8) ^^^ table (low (c ^^^ b.toBitVec.setWidth w)) := by
  have hb : (b.toBitVec.setWidth w) >>> 8 = 0#w := by
    apply BitVec.eq_of_getLsbD_eq
    intro i _
    have hi : b.toBitVec.getLsbD (8 + i) = false := BitVec.getLsbD_of_ge _ _ (by omega)
    rw [BitVec.getLsbD_ushiftRight, BitVec.getLsbD_setWidth, hi, Bool.and_false, BitVec.getLsbD_zero]
  rw [byte, steps_eight, ht, BitVec.ushiftRight_xor_distrib, hb, BitVec.xor_zero]

end Lib.Crc
