import Mathlib.Data.BitVec
import Sfxge.Lib.Bytes

/-!
# Hash.Words — hashing words and hashing bytes

`efx_hash.c`: `efx_hash_dwords` takes its input in words, `efx_hash_bytes` byte by byte.  The two byte orders of the
latter differ only in where a byte of a word goes.
-/

namespace Sfxge.Hash

open Lib

/-- `EFX_HASH_INITIAL_VALUE` -/
def efxHashInitialValue : BitVec 32 := 0xdeadbeef

/-- `EFX_HASH_ROTATE` -/
def efxHashRotate (value : BitVec 32) (shift : ℕ) : BitVec 32 := (value <<< shift) ||| (value >>> (32 - shift))

/-- The three words `a`, `b` and `c`. -/
structure Abc where
  a : BitVec 32
  b : BitVec 32
  c : BitVec 32
  deriving Repr, DecidableEq

/-- `EFX_HASH_MIX` -/
def efxHashMix (s : Abc) : Abc :=
  let ⟨a, b, c⟩ := s
  let a := a - c
  let a := a ^^^ efxHashRotate c 4
  let c := c + b
  let b := b - a
  let b := b ^^^ efxHashRotate a 6
  let a := a + c
  let c := c - b
  let c := c ^^^ efxHashRotate b 8
  let b := b + a
  let a := a - c
  let a := a ^^^ efxHashRotate c 16
  let c := c + b
  let b := b - a
  let b := b ^^^ efxHashRotate a 19
  let a := a + c
  let c := c - b
  let c := c ^^^ efxHashRotate b 4
  let b := b + a
  ⟨a, b, c⟩

/-- `EFX_HASH_FINALISE` -/
def efxHashFinalise (s : Abc) : Abc :=
  let ⟨a, b, c⟩ := s
  let c := c ^^^ b
  let c := c - efxHashRotate b 14
  let a := a ^^^ c
  let a := a - efxHashRotate c 11
  let b := b ^^^ a
  let b := b - efxHashRotate a 25
  let c := c ^^^ b
  let c := c - efxHashRotate b 16
  let a := a ^^^ c
  let a := a - efxHashRotate c 4
  let b := b ^^^ a
  let b := b - efxHashRotate a 14
  let c := c ^^^ b
  let c := c - efxHashRotate b 24
  ⟨a, b, c⟩

def Abc.addA (s : Abc) (v : BitVec 32) : Abc := { s with a := s.a + v }
def Abc.addB (s : Abc) (v : BitVec 32) : Abc := { s with b := s.b + v }
def Abc.addC (s : Abc) (v : BitVec 32) : Abc := { s with c := s.c + v }

/-! ### Words -/

/-- The switch over the last words of the input. -/
def dwordsTail (s : Abc) (input : List (BitVec 32)) : Abc :=
  let s := if 3 ≤ input.length then s.addC (input.getD 2 0) else s
  let s := if 2 ≤ input.length then s.addB (input.getD 1 0) else s
  if 1 ≤ input.length then efxHashFinalise (s.addA (input.getD 0 0)) else s

/-- The loop over all but the last three words, and the switch behind it. -/
def dwordsLoop (s : Abc) (input : List (BitVec 32)) : Abc :=
  if 3 < input.length then
    dwordsLoop (efxHashMix (((s.addA (input.getD 0 0)).addB (input.getD 1 0)).addC (input.getD 2 0))) (input.drop 3)
  else dwordsTail s input
termination_by input.length
decreasing_by simp only [List.length_drop]; omega

/-- `efx_hash_dwords` -/
def efxHashDwords (input : List (BitVec 32)) (init : BitVec 32) : BitVec 32 :=
  let v := efxHashInitialValue + BitVec.ofNat 32 input.length * 4 + init
  (dwordsLoop ⟨v, v, v⟩ input).c

/-! ### Bytes -/

/-- `((uint32_t)input[i]) << shift`, where `order` shifts the bytes of a word. -/
def byteAt (order : ℕ → ℕ) (input : Bytes) (i : ℕ) : BitVec 32 :=
  (input.getD i 0).toBitVec.setWidth 32 <<< order (i % 4)

/-- The switch over the last bytes of the input: a byte for each case, from that of the length down. -/
def bytesTail (order : ℕ → ℕ) (s : Abc) (input : Bytes) : Abc :=
  let s := if 12 ≤ input.length then s.addC (byteAt order input 11) else s
  let s := if 11 ≤ input.length then s.addC (byteAt order input 10) else s
  let s := if 10 ≤ input.length then s.addC (byteAt order input 9) else s
  let s := if 9 ≤ input.length then s.addC (byteAt order input 8) else s
  let s := if 8 ≤ input.length then s.addB (byteAt order input 7) else s
  let s := if 7 ≤ input.length then s.addB (byteAt order input 6) else s
  let s := if 6 ≤ input.length then s.addB (byteAt order input 5) else s
  let s := if 5 ≤ input.length then s.addB (byteAt order input 4) else s
  let s := if 4 ≤ input.length then s.addA (byteAt order input 3) else s
  let s := if 3 ≤ input.length then s.addA (byteAt order input 2) else s
  let s := if 2 ≤ input.length then s.addA (byteAt order input 1) else s
  if 1 ≤ input.length then efxHashFinalise (s.addA (byteAt order input 0)) else s

/-- The loop over all but the last twelve bytes, and the switch behind it. -/
def bytesLoop (order : ℕ → ℕ) (s : Abc) (input : Bytes) : Abc :=
  if 12 < input.length then
    let s := s.addA (byteAt order input 0)
    let s := s.addA (byteAt order input 1)
    let s := s.addA (byteAt order input 2)
    let s := s.addA (byteAt order input 3)
    let s := s.addB (byteAt order input 4)
    let s := s.addB (byteAt order input 5)
    let s := s.addB (byteAt order input 6)
    let s := s.addB (byteAt order input 7)
    let s := s.addC (byteAt order input 8)
    let s := s.addC (byteAt order input 9)
    let s := s.addC (byteAt order input 10)
    let s := s.addC (byteAt order input 11)
    bytesLoop order (efxHashMix s) (input.drop 12)
  else bytesTail order s input
termination_by input.length
decreasing_by simp only [List.length_drop]; omega

/-- `efx_hash_bytes`, with the byte order as a parameter -/
def hashBytes (order : ℕ → ℕ) (input : Bytes) (init : BitVec 32) : BitVec 32 :=
  let v := efxHashInitialValue + BitVec.ofNat 32 input.length + init
  (bytesLoop order ⟨v, v, v⟩ input).c

/-- Where byte `i` of a word goes if `EFSYS_IS_LITTLE_ENDIAN`, and if `EFSYS_IS_BIG_ENDIAN`. -/
def littleEndian (i : ℕ) : ℕ := 8 * i
def bigEndian (i : ℕ) : ℕ := 24 - 8 * i

/-- `efx_hash_bytes` if `EFSYS_IS_LITTLE_ENDIAN` -/
def efxHashBytesLe : Bytes → BitVec 32 → BitVec 32 := hashBytes littleEndian

/-- `efx_hash_bytes` if `EFSYS_IS_BIG_ENDIAN` -/
def efxHashBytesBe : Bytes → BitVec 32 → BitVec 32 := hashBytes bigEndian

/-! ### The image of the words in memory -/

/-- The bytes of a word in memory. -/
def wordBytes (order : ℕ → ℕ) (x : BitVec 32) : Bytes :=
  [⟨(x >>> order 0).setWidth 8⟩, ⟨(x >>> order 1).setWidth 8⟩, ⟨(x >>> order 2).setWidth 8⟩,
    ⟨(x >>> order 3).setWidth 8⟩]

/-- The words in memory. -/
def image (order : ℕ → ℕ) (xs : List (BitVec 32)) : Bytes := xs.flatMap (wordBytes order)

/-- Byte `i` of a word, at its place in the word. -/
def placed (order : ℕ → ℕ) (x : BitVec 32) (i : ℕ) : BitVec 32 := ((x >>> order i).setWidth 8).setWidth 32 <<< order i

/-- The four bytes of a word add up to it. -/
structure ByteOrder (order : ℕ → ℕ) : Prop where
  add : ∀ v x, v + placed order x 0 + placed order x 1 + placed order x 2 + placed order x 3 = v + x

theorem byteOrder_littleEndian : ByteOrder littleEndian where
  add v x := by
    apply BitVec.eq_of_toNat_eq
    have hx := x.isLt
    simp only [placed, littleEndian, BitVec.toNat_add, BitVec.toNat_shiftLeft, BitVec.toNat_setWidth,
      BitVec.toNat_ushiftRight, Nat.shiftLeft_eq, Nat.shiftRight_eq_div_pow]
    omega

theorem byteOrder_bigEndian : ByteOrder bigEndian where
  add v x := by
    apply BitVec.eq_of_toNat_eq
    have hx := x.isLt
    simp only [placed, bigEndian, BitVec.toNat_add, BitVec.toNat_shiftLeft, BitVec.toNat_setWidth,
      BitVec.toNat_ushiftRight, Nat.shiftLeft_eq, Nat.shiftRight_eq_div_pow]
    omega

variable {order : ℕ → ℕ}

theorem length_image (xs : List (BitVec 32)) : (image order xs).length = 4 * xs.length := by
  induction xs with
  | nil => rfl
  | cons x xs ih =>
    have h : (image order (x :: xs)).length = 4 + (image order xs).length := Nat.add_comm _ 4
    rw [h, ih, List.length_cons]
    omega

/-- Byte `j` of the image is byte `j % 4` of word `j / 4`. -/
theorem byteAt_image (xs : List (BitVec 32)) (j : ℕ) :
    byteAt order (image order xs) j = placed order (xs.getD (j / 4) 0) (j % 4) := by
  induction xs generalizing j with
  | nil => simp [byteAt, image, placed]
  | cons x xs ih =>
    match j with
    | 0 | 1 | 2 | 3 => rfl
    | j + 4 =>
      have h : (image order (x :: xs)).getD (j + 4) 0 = (image order xs).getD j 0 := rfl
      have hj : byteAt order (image order (x :: xs)) (j + 4) = byteAt order (image order xs) j := by
        rw [byteAt, h, Nat.add_mod_right, byteAt]
      rw [hj, ih, Nat.add_mod_right, Nat.add_div_right j (by decide), List.getD_cons_succ]

/-! ### Adding a word byte by byte -/

namespace ByteOrder

variable (ho : ByteOrder order)
include ho

/-- The bytes in the order in which a fall-through adds them. -/
theorem add_rev (v x : BitVec 32) :
    v + placed order x 3 + placed order x 2 + placed order x 1 + placed order x 0 = v + x := by
  rw [← ho.add v x]
  ac_rfl

theorem addA (s : Abc) (x : BitVec 32) :
    (((s.addA (placed order x 0)).addA (placed order x 1)).addA (placed order x 2)).addA (placed order x 3) =
      s.addA x :=
  congrArg (fun a => { s with a := a }) (ho.add s.a x)

theorem addB (s : Abc) (x : BitVec 32) :
    (((s.addB (placed order x 0)).addB (placed order x 1)).addB (placed order x 2)).addB (placed order x 3) =
      s.addB x :=
  congrArg (fun b => { s with b := b }) (ho.add s.b x)

theorem addC (s : Abc) (x : BitVec 32) :
    (((s.addC (placed order x 0)).addC (placed order x 1)).addC (placed order x 2)).addC (placed order x 3) =
      s.addC x :=
  congrArg (fun c => { s with c := c }) (ho.add s.c x)

theorem addA_rev (s : Abc) (x : BitVec 32) :
    (((s.addA (placed order x 3)).addA (placed order x 2)).addA (placed order x 1)).addA (placed order x 0) =
      s.addA x :=
  congrArg (fun a => { s with a := a }) (ho.add_rev s.a x)

theorem addB_rev (s : Abc) (x : BitVec 32) :
    (((s.addB (placed order x 3)).addB (placed order x 2)).addB (placed order x 1)).addB (placed order x 0) =
      s.addB x :=
  congrArg (fun b => { s with b := b }) (ho.add_rev s.b x)

theorem addC_rev (s : Abc) (x : BitVec 32) :
    (((s.addC (placed order x 3)).addC (placed order x 2)).addC (placed order x 1)).addC (placed order x 0) =
      s.addC x :=
  congrArg (fun c => { s with c := c }) (ho.add_rev s.c x)

end ByteOrder

/-! ### The loops -/

/-- **The last words** and their bytes. -/
theorem bytesTail_image (ho : ByteOrder order) (s : Abc) {xs : List (BitVec 32)} (hx : xs.length ≤ 3) :
    bytesTail order s (image order xs) = dwordsTail s xs := by
  simp only [bytesTail, dwordsTail, length_image, byteAt_image]
  match xs, hx with
  | [], _ => simp
  | [x], _ => simp [ho.addA_rev]
  | [x, y], _ => simp [ho.addA_rev, ho.addB_rev]
  | [x, y, z], _ => simp [ho.addA_rev, ho.addB_rev, ho.addC_rev]

/-- A block of three words, and the rest. -/
theorem bytesLoop_block (ho : ByteOrder order) (s : Abc) (x y z w : BitVec 32) (xs : List (BitVec 32)) :
    bytesLoop order s (image order (x :: y :: z :: w :: xs)) =
      bytesLoop order (efxHashMix (((s.addA x).addB y).addC z)) (image order (w :: xs)) := by
  have hlen : 12 < (image order (x :: y :: z :: w :: xs)).length := by
    simp only [length_image, List.length_cons]
    omega
  have hdrop : (image order (x :: y :: z :: w :: xs)).drop 12 = image order (w :: xs) := rfl
  rw [bytesLoop, if_pos hlen, hdrop]
  simp [byteAt_image, ho.addA, ho.addB, ho.addC]

theorem bytesLoop_image (ho : ByteOrder order) (s : Abc) (xs : List (BitVec 32)) :
    bytesLoop order s (image order xs) = dwordsLoop s xs := by
  induction s, xs using dwordsLoop.induct with
  | case1 s xs hlt ih =>
    rw [dwordsLoop, if_pos hlt]
    match xs, hlt with
    | x :: y :: z :: w :: xs, _ => exact (bytesLoop_block ho s x y z w xs).trans ih
  | case2 s xs hle =>
    have hlen : ¬ 12 < (image order xs).length := by
      rw [length_image]
      omega
    rw [bytesLoop, if_neg hlen, dwordsLoop, if_neg hle]
    exact bytesTail_image ho s (Nat.not_lt.mp hle)

theorem hashBytes_image (ho : ByteOrder order) (xs : List (BitVec 32)) (init : BitVec 32) :
    hashBytes order (image order xs) init = efxHashDwords xs init := by
  have hlen : BitVec.ofNat 32 (image order xs).length = BitVec.ofNat 32 xs.length * 4 := by
    rw [length_image, BitVec.ofNat_mul, BitVec.mul_comm]
    rfl
  simp only [hashBytes, efxHashDwords, hlen, bytesLoop_image ho]

/-- **Bytes and words agree**, in each byte order. -/
theorem efxHashBytes_image (xs : List (BitVec 32)) (init : BitVec 32) :
    efxHashBytesLe (image littleEndian xs) init = efxHashDwords xs init ∧
      efxHashBytesBe (image bigEndian xs) init = efxHashDwords xs init :=
  ⟨hashBytes_image byteOrder_littleEndian xs init, hashBytes_image byteOrder_bigEndian xs init⟩

end Sfxge.Hash
