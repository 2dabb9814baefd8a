import Sfxge.Lib.Bits
import Sfxge.Lib.ByteOrder
import Sfxge.Oword

/-!
# Fields — the field macros of `efx_types.h`

`EFX_*_FIELD`, `EFX_SET_*_FIELD` and `EFX_POPULATE_*` of octwords and quadwords, on the bytes in memory: in their
64-bit and in their 32-bit form, for a host of either byte order.  A quadword or an octword is a block of 8 or of 16
bytes; what its bits say does not depend on the host.  The registers of `Sfxge.Oword` are what the 32-bit form makes
of an octword.
-/

namespace Sfxge.Fields

open Lib

variable {bo : ByteOrder} {n w : ℕ} {f : Field} {v : ℕ}

/-! ### Byte order -/

/-- `__SWAP16` -/
def swap16 (x : BitVec w) : BitVec w := swapHalves 8 0xff id x

/-- `__SWAP32` -/
def swap32 (x : BitVec w) : BitVec w := swapHalves 16 0xffff swap16 x

/-- `__SWAP64` -/
def swap64 (x : BitVec w) : BitVec w := swapHalves 32 0xffffffff swap32 x

/-- `__CPU_TO_LE_32` and `__LE_TO_CPU_32` -/
def cpuToLe32 (bo : ByteOrder) (x : BitVec 32) : BitVec 32 := bo.order swap32 x

/-- `__CPU_TO_LE_64` and `__LE_TO_CPU_64` -/
def cpuToLe64 (bo : ByteOrder) (x : BitVec 64) : BitVec 64 := bo.order swap64 x

/-! ### Parts of a field -/

def EFX_DUMMY_FIELD : Field := ⟨0, 0⟩

/-- `EFX_HIGH_BIT`, an `int`: `-1` for `EFX_DUMMY_FIELD` -/
def highBit (f : Field) : ℤ := f.lbn + f.width - 1

/-- `EFX_MASK64` and `EFX_MASK32` -/
def mask (w : ℕ) (f : Field) : BitVec w := if f.width = w then ~~~0 else (1 : BitVec w) <<< f.width - 1

/-- `EFX_EXTRACT_NATIVE` -/
def extractNative (element : BitVec w) (min max : ℕ) (f : Field) : BitVec w :=
  if f.lbn > max ∨ highBit f < min then 0
  else if f.lbn > min then element >>> (f.lbn - min)
  else element <<< (min - f.lbn)

/-- `EFX_INSERT_NATIVE64` and `EFX_INSERT_NATIVE32` -/
def insertNative (w min max : ℕ) (f : Field) (value : ℕ) : BitVec w :=
  if f.lbn > max ∨ highBit f < min then 0
  else if f.lbn > min then BitVec.ofNat w value <<< (f.lbn - min)
  else BitVec.ofNat w value >>> (min - f.lbn)

/-- `EFX_INSERT_FIELDS64` and `EFX_INSERT_FIELDS32`, before the conversion -/
def insertFields (w min max : ℕ) (fields : List (Field × ℕ)) : BitVec w :=
  fields.foldr (fun fv e => insertNative w min max fv.1 fv.2 ||| e) 0

/-! ### All the elements of a word

`toLe` converts an element between the order of the host and that of memory; element `i` holds the bits from `w * i`
up to `w * i + (w - 1)`. -/

/-- `EFX_EXTRACT_OWORD64` and its likes, of a word of `count` elements -/
def extractElements (bo : ByteOrder) (toLe : BitVec w → BitVec w) (count : ℕ) (m : Image n) (f : Field) : BitVec w :=
  (List.range count).foldr
    (fun i e => extractNative (toLe (m.load bo w i)) (w * i) (w * i + (w - 1)) f ||| e) 0

/-- `EFX_SET_OWORD_FIELD64` and its likes -/
def setElements (bo : ByteOrder) (toLe : BitVec w → BitVec w) (count : ℕ) (m : Image n) (f : Field) (value : ℕ) :
    Image n :=
  m.update bo (fun i (e : BitVec w) =>
    e &&& ~~~ toLe (insertNative w (w * i) (w * i + (w - 1)) f (mask w f).toNat) |||
      toLe (insertNative w (w * i) (w * i + (w - 1)) f value)) count

/-- `EFX_POPULATE_OWORD64` and its likes -/
def populateElements (bo : ByteOrder) (toLe : BitVec w → BitVec w) (count : ℕ) (m : Image n)
    (fields : List (Field × ℕ)) : Image n :=
  m.update bo (fun i (_ : BitVec w) => toLe (insertFields w (w * i) (w * i + (w - 1)) fields)) count

/-- `EFX_POPULATE_OWORD_9` and the other forms with fewer than ten fields put dummy fields in front. -/
def tenFields (fields : List (Field × ℕ)) : List (Field × ℕ) :=
  List.replicate (10 - fields.length) (EFX_DUMMY_FIELD, 0) ++ fields

/-! ### The macros -/

/-- `efx_oword_t` -/
abbrev OwordImage := Image 16

/-- `efx_qword_t` -/
abbrev QwordImage := Image 8

/-- `EFX_OWORD_FIELD64` -/
def owordField64 (bo : ByteOrder) (o : OwordImage) (f : Field) : U32 :=
  (extractElements bo (cpuToLe64 bo) 2 o f).setWidth 32 &&& mask 32 f

/-- `EFX_OWORD_FIELD32` -/
def owordField32 (bo : ByteOrder) (o : OwordImage) (f : Field) : U32 :=
  extractElements bo (cpuToLe32 bo) 4 o f &&& mask 32 f

/-- `EFX_QWORD_FIELD64` -/
def qwordField64 (bo : ByteOrder) (q : QwordImage) (f : Field) : U32 :=
  (extractElements bo (cpuToLe64 bo) 1 q f).setWidth 32 &&& mask 32 f

/-- `EFX_QWORD_FIELD32` -/
def qwordField32 (bo : ByteOrder) (q : QwordImage) (f : Field) : U32 :=
  extractElements bo (cpuToLe32 bo) 2 q f &&& mask 32 f

/-- `EFX_SET_OWORD_FIELD64` -/
def setOwordField64 (bo : ByteOrder) : OwordImage → Field → ℕ → OwordImage := setElements bo (cpuToLe64 bo) 2

/-- `EFX_SET_OWORD_FIELD32` -/
def setOwordField32 (bo : ByteOrder) : OwordImage → Field → ℕ → OwordImage := setElements bo (cpuToLe32 bo) 4

/-- `EFX_SET_QWORD_FIELD64` -/
def setQwordField64 (bo : ByteOrder) : QwordImage → Field → ℕ → QwordImage := setElements bo (cpuToLe64 bo) 1

/-- `EFX_SET_QWORD_FIELD32` -/
def setQwordField32 (bo : ByteOrder) : QwordImage → Field → ℕ → QwordImage := setElements bo (cpuToLe32 bo) 2

/-- `EFX_POPULATE_OWORD64` -/
def populateOword64 (bo : ByteOrder) (o : OwordImage) (fields : List (Field × ℕ)) : OwordImage :=
  populateElements bo (cpuToLe64 bo) 2 o (tenFields fields)

/-- `EFX_POPULATE_OWORD32` -/
def populateOword32 (bo : ByteOrder) (o : OwordImage) (fields : List (Field × ℕ)) : OwordImage :=
  populateElements bo (cpuToLe32 bo) 4 o (tenFields fields)

/-- `EFX_POPULATE_QWORD64` -/
def populateQword64 (bo : ByteOrder) (q : QwordImage) (fields : List (Field × ℕ)) : QwordImage :=
  populateElements bo (cpuToLe64 bo) 1 q (tenFields fields)

/-- `EFX_POPULATE_QWORD32` -/
def populateQword32 (bo : ByteOrder) (q : QwordImage) (fields : List (Field × ℕ)) : QwordImage :=
  populateElements bo (cpuToLe32 bo) 2 q (tenFields fields)

/-! ### Reversed bytes -/

theorem swap16_reverses (hw : 16 ≤ w) : ReversesBytes 2 (swap16 : BitVec w → BitVec w) :=
  reversesBytes_id.swapHalves (getLsbD_ofNat_two_pow_sub_one (show 8 ≤ w by omega)) hw

theorem swap32_reverses (hw : 32 ≤ w) : ReversesBytes 4 (swap32 : BitVec w → BitVec w) :=
  (swap16_reverses (by omega)).swapHalves (getLsbD_ofNat_two_pow_sub_one (show 16 ≤ w by omega)) hw

theorem swap64_reverses (hw : 64 ≤ w) : ReversesBytes 8 (swap64 : BitVec w → BitVec w) :=
  (swap32_reverses (by omega)).swapHalves (getLsbD_ofNat_two_pow_sub_one (show 32 ≤ w by omega)) hw

/-! ### Parts of a field, bit by bit -/

theorem toNat_mask (hwidth : f.width ≤ w) : (mask w f).toNat = 2 ^ f.width - 1 := by
  unfold mask
  split_ifs with h
  · rw [h, BitVec.toNat_not]
    rfl
  · have hlt : 2 ^ f.width < 2 ^ w := Nat.pow_lt_pow_right (by decide) (by omega)
    have hone : (1 : BitVec w).toNat = 1 := Nat.mod_eq_of_lt (Nat.one_lt_two_pow (by omega))
    have hpow : ((1 : BitVec w) <<< f.width).toNat = 2 ^ f.width := by
      rw [BitVec.toNat_shiftLeft, hone, Nat.shiftLeft_eq, Nat.one_mul, Nat.mod_eq_of_lt hlt]
    have hpos : 0 < 2 ^ f.width := Nat.two_pow_pos _
    rw [BitVec.toNat_sub_of_le (by rw [BitVec.le_def, hone, hpow]; exact hpos), hpow, hone]

theorem getLsbD_insertNative {min q : ℕ} (hwidth : f.width ≤ w) (hv : v < 2 ^ f.width) (hq : q < w) :
    (insertNative w min (min + (w - 1)) f v).getLsbD q =
      (decide (f.lbn ≤ min + q) && v.testBit (min + q - f.lbn)) := by
  unfold insertNative highBit
  split_ifs with h1 h2
  · rcases h1 with habove | hbelow
    · simp [show ¬ f.lbn ≤ min + q by omega]
    · rw [testBit_of_lt_two_pow hv (by omega)]
      simp
  · rw [BitVec.getLsbD_shiftLeft, BitVec.getLsbD_ofNat]
    by_cases h : f.lbn ≤ min + q
    · have hsub : q - (f.lbn - min) = min + q - f.lbn := by omega
      have hge : ¬ q < f.lbn - min := by omega
      have hin : min + q - f.lbn < w := by omega
      simp [h, hq, hsub, hge, hin]
    · simp [h, show q < f.lbn - min by omega]
  · rw [BitVec.getLsbD_ushiftRight, BitVec.getLsbD_ofNat]
    have hsub : min - f.lbn + q = min + q - f.lbn := by omega
    rw [hsub, decide_eq_true (show f.lbn ≤ min + q by omega), Bool.true_and]
    by_cases hin : min + q - f.lbn < w
    · rw [decide_eq_true hin, Bool.true_and]
    · rw [testBit_of_lt_two_pow hv (by omega), Bool.and_false]

theorem getLsbD_extractNative {e : BitVec w} {min j : ℕ} (hwidth : f.width ≤ w) (hj : j < f.width) :
    (extractNative e min (min + (w - 1)) f).getLsbD j =
      (decide (min ≤ f.lbn + j ∧ f.lbn + j < min + w) && e.getLsbD (f.lbn + j - min)) := by
  unfold extractNative highBit
  split_ifs with h1 h2
  · simp [show ¬ (min ≤ f.lbn + j ∧ f.lbn + j < min + w) by omega]
  · rw [BitVec.getLsbD_ushiftRight, show f.lbn - min + j = f.lbn + j - min by omega]
    by_cases hin : f.lbn + j < min + w
    · simp [hin, show min ≤ f.lbn + j by omega]
    · rw [BitVec.getLsbD_of_ge e _ (by omega), Bool.and_false]
  · rw [BitVec.getLsbD_shiftLeft]
    by_cases hin : min ≤ f.lbn + j
    · have hsub : j - (min - f.lbn) = f.lbn + j - min := by omega
      simp [hin, hsub, show ¬ j < min - f.lbn by omega, show f.lbn + j < min + w by omega, show j < w by omega]
    · simp [hin, show j < min - f.lbn by omega]

/-! ### Words, bit by bit -/

/-- A word of `n` bytes is `count` elements of `w` bits, whose bytes `swap` reverses. -/
structure Splits (n w count : ℕ) (swap : BitVec w → BitVec w) : Prop where
  bytes : 8 ∣ w
  word : 32 ≤ w
  all : w * count = 8 * n
  reverses : ReversesBytes (w / 8) swap

/-- A field is at most a dword wide, and inside a word of `bits` bits. -/
structure Inside (bits : ℕ) (f : Field) : Prop where
  pos : 1 ≤ f.width
  word : f.width ≤ 32
  inside : f.lbn + f.width ≤ bits

/-- Bit `p` is one of the field's. -/
def Covers (f : Field) (p : ℕ) : Prop := f.lbn ≤ p ∧ p < f.lbn + f.width

variable {count j p : ℕ} {swap : BitVec w → BitVec w} {m : Image n} {fields : List (Field × ℕ)}

theorem Splits.div_lt (hs : Splits n w count swap) (hp : p < 8 * n) : p / w < count :=
  Nat.div_lt_of_lt_mul (by rw [hs.all]; exact hp)

theorem Splits.mod_lt (hs : Splits n w count swap) (p : ℕ) : p % w < w :=
  Nat.mod_lt p (by have := hs.word; omega)

/-- **Extracting.**  The low bits of what is extracted are those of the field. -/
theorem getLsbD_extractElements (bo : ByteOrder) (m : Image n) (hs : Splits n w count swap) (hf : Inside (8 * n) f)
    (hj : j < f.width) :
    (extractElements bo (bo.order swap) count m f).getLsbD j = m.bit (f.lbn + j) := by
  have hwidth : f.width ≤ w := hf.word.trans hs.word
  have hpart : ∀ i, (extractNative (bo.order swap (m.load bo w i)) (w * i) (w * i + (w - 1)) f).getLsbD j =
      (decide (w * i ≤ f.lbn + j ∧ f.lbn + j < w * i + w) && m.bit (f.lbn + j)) := by
    intro i
    rw [getLsbD_extractNative hwidth hj]
    by_cases hin : w * i ≤ f.lbn + j ∧ f.lbn + j < w * i + w
    · rw [Image.getLsbD_order_load hs.bytes hs.reverses m bo i (by omega),
        show w * i + (f.lbn + j - w * i) = f.lbn + j by omega]
    · rw [decide_eq_false hin, Bool.false_and, Bool.false_and]
  rw [extractElements, getLsbD_foldr_or]
  simp only [hpart]
  -- the element that holds the bit
  have hinside := hf.inside
  have hdiv := Nat.div_add_mod (f.lbn + j) w
  have hmod := hs.mod_lt (f.lbn + j)
  rw [Bool.eq_iff_iff, List.any_eq_true]
  constructor
  · rintro ⟨i, -, h⟩
    exact (Bool.and_eq_true_iff.mp h).2
  · intro h
    refine ⟨(f.lbn + j) / w, List.mem_range.mpr (hs.div_lt (by omega)), ?_⟩
    rw [h, Bool.and_true, decide_eq_true_eq]
    omega

/-- **Setting.**  The bits of the field are those of the value, and the others as they were. -/
theorem bit_setElements (hs : Splits n w count swap) (hf : Inside (8 * n) f) (hv : v < 2 ^ f.width)
    (hp : p < 8 * n) :
    (setElements bo (bo.order swap) count m f v).bit p =
      if f.lbn ≤ p ∧ p < f.lbn + f.width then v.testBit (p - f.lbn) else m.bit p := by
  have hwidth : f.width ≤ w := hf.word.trans hs.word
  have hpos : 0 < 2 ^ f.width := Nat.two_pow_pos _
  have hmask : (mask w f).toNat < 2 ^ f.width := by
    rw [toNat_mask hwidth]
    omega
  have hq := hs.mod_lt p
  have hraw : bo.raw (w / 8) (p % w) < w := by
    have hbytes := Nat.mul_div_cancel' hs.bytes
    exact (bo.raw_lt (by omega)).trans_eq hbytes
  rw [setElements, Image.bit_update hs.bytes m bo _ count hp, if_pos (hs.div_lt hp), BitVec.getLsbD_or,
    BitVec.getLsbD_and, BitVec.getLsbD_not, Image.getLsbD_load hs.bytes m bo _ hq,
    getLsbD_order_raw hs.bytes hs.reverses bo _ hq, getLsbD_order_raw hs.bytes hs.reverses bo _ hq,
    getLsbD_insertNative hwidth hmask hq, getLsbD_insertNative hwidth hv hq, Nat.div_add_mod, toNat_mask hwidth,
    Nat.testBit_two_pow_sub_one, decide_eq_true hraw, Bool.true_and]
  by_cases hlow : f.lbn ≤ p
  · by_cases hhigh : p < f.lbn + f.width
    · simp [hlow, hhigh, show p - f.lbn < f.width by omega]
    · rw [testBit_of_lt_two_pow hv (by omega)]
      simp [hlow, hhigh, show ¬ p - f.lbn < f.width by omega]
  · simp [hlow]

/-- Field values that fit their fields -/
def Fitting (bits : ℕ) (fields : List (Field × ℕ)) : Prop :=
  ∀ fv ∈ fields, Inside bits fv.1 ∧ fv.2 < 2 ^ fv.1.width

/-- The fields in front are dummies. -/
theorem any_tenFields (p : ℕ) (fields : List (Field × ℕ)) :
    (tenFields fields).any (fun fv => decide (fv.1.lbn ≤ p) && fv.2.testBit (p - fv.1.lbn)) =
      fields.any fun fv => decide (fv.1.lbn ≤ p) && fv.2.testBit (p - fv.1.lbn) := by
  rw [tenFields, List.any_append, List.any_replicate]
  simp

/-- **Populating.**  A bit is set if some value sets it. -/
theorem bit_populateElements (hs : Splits n w count swap) (hfit : Fitting (8 * n) fields) (hp : p < 8 * n) :
    (populateElements bo (bo.order swap) count m (tenFields fields)).bit p =
      fields.any fun fv => decide (fv.1.lbn ≤ p) && fv.2.testBit (p - fv.1.lbn) := by
  have hq := hs.mod_lt p
  rw [populateElements, Image.bit_update hs.bytes m bo _ count hp, if_pos (hs.div_lt hp),
    getLsbD_order_raw hs.bytes hs.reverses bo _ hq, insertFields, getLsbD_foldr_or, ← any_tenFields]
  rw [Bool.eq_iff_iff, List.any_eq_true, List.any_eq_true]
  refine exists_congr fun fv => and_congr_right fun hfv => ?_
  have hfits : fv.1.width ≤ w ∧ fv.2 < 2 ^ fv.1.width := by
    rcases List.mem_append.mp hfv with hdummy | hmem
    · rw [List.eq_of_mem_replicate hdummy]
      exact ⟨Nat.zero_le w, by decide⟩
    · exact ⟨(hfit fv hmem).1.word.trans hs.word, (hfit fv hmem).2⟩
  rw [getLsbD_insertNative hfits.1 hfits.2 hq, Nat.div_add_mod]

/-- Fields without a bit in common: a bit of one is set only by its own value. -/
theorem any_fields (hd : (fields.map Prod.fst).Pairwise Field.Apart) (hfit : Fitting (8 * n) fields)
    (h : (f, v) ∈ fields) (hj : j < f.width) :
    (fields.any fun fv => decide (fv.1.lbn ≤ f.lbn + j) && fv.2.testBit (f.lbn + j - fv.1.lbn)) = v.testBit j := by
  rw [Bool.eq_iff_iff, List.any_eq_true]
  constructor
  · rintro ⟨⟨g, u⟩, hmem, hset⟩
    rw [Bool.and_eq_true, decide_eq_true_eq] at hset
    have hu := (hfit _ hmem).2
    have hlow : g.lbn ≤ f.lbn + j := hset.1
    have hin : f.lbn + j - g.lbn < g.width := by
      by_contra hout
      rw [testBit_of_lt_two_pow hu (Nat.not_lt.mp hout)] at hset
      exact Bool.noConfusion hset.2
    have hsymm : Std.Symm fun fv gv : Field × ℕ => fv.1.Apart gv.1 := ⟨fun _ _ => Or.symm⟩
    have hsame : (g, u) = (f, v) := by
      by_contra hne
      have hapart : g.lbn + g.width ≤ f.lbn ∨ f.lbn + f.width ≤ g.lbn :=
        ((List.pairwise_map.mp hd).forall hmem h hne).symm
      omega
    cases hsame
    rw [Nat.add_sub_cancel_left] at hset
    exact hset.2
  · intro hset
    refine ⟨(f, v), h, ?_⟩
    rw [Nat.add_sub_cancel_left, hset]
    simp

/-! ### The two forms -/

/-- What the macros for a word of `n` bytes do in their 64-bit and in their 32-bit form -/
structure Agrees (n : ℕ) (field64 field32 : Image n → Field → U32) (set64 set32 : Image n → Field → ℕ → Image n)
    (populate64 populate32 : Image n → List (Field × ℕ) → Image n) : Prop where
  /-- Both read the number in the field's bits of the bytes in memory. -/
  field : ∀ m f, Inside (8 * n) f → field64 m f = field32 m f ∧ (field64 m f).toNat = m.number f.lbn f.width
  /-- Both leave the same bytes, from which the value is read back; no other bit is touched. -/
  set : ∀ m f v, Inside (8 * n) f → v < 2 ^ f.width →
    set64 m f v = set32 m f v ∧ (field64 (set64 m f v) f).toNat = v ∧
      ∀ p < 8 * n, ¬ Covers f p → (set64 m f v).bit p = m.bit p
  /-- Both leave the same bytes whatever was there, from which every value is read back; all other bits are zero. -/
  populate : ∀ m m' fields, (fields.map Prod.fst).Pairwise Field.Apart → Fitting (8 * n) fields →
    populate64 m fields = populate32 m' fields ∧
      (∀ fv ∈ fields, (field64 (populate64 m fields) fv.1).toNat = fv.2) ∧
      ∀ p < 8 * n, (∀ fv ∈ fields, ¬ Covers fv.1 p) → (populate64 m fields).bit p = false

theorem splits_oword64 : Splits 16 64 2 swap64 := ⟨by decide, by decide, rfl, swap64_reverses (le_refl 64)⟩

theorem splits_oword32 : Splits 16 32 4 swap32 := ⟨by decide, by decide, rfl, swap32_reverses (le_refl 32)⟩

theorem splits_qword64 : Splits 8 64 1 swap64 := ⟨by decide, by decide, rfl, swap64_reverses (le_refl 64)⟩

theorem splits_qword32 : Splits 8 32 2 swap32 := ⟨by decide, by decide, rfl, swap32_reverses (le_refl 32)⟩

/-- What is extracted, cut to a dword and masked, is the number in the field. -/
theorem toNat_field (bo : ByteOrder) (m : Image n) (hs : Splits n w count swap) (hf : Inside (8 * n) f) :
    ((extractElements bo (bo.order swap) count m f).setWidth 32 &&& mask 32 f).toNat = m.number f.lbn f.width := by
  apply Nat.eq_of_testBit_eq
  intro j
  rw [BitVec.toNat_and, Nat.testBit_and, toNat_mask hf.word, Nat.testBit_two_pow_sub_one, Image.number]
  by_cases hj : j < f.width
  · have hj32 : j < 32 := hj.trans_le hf.word
    have hbit := getLsbD_extractElements bo m hs hf hj
    rw [Nat.testBit_ofBits_lt _ _ hj, ← hbit, BitVec.testBit_toNat, BitVec.getLsbD_setWidth]
    simp [hj, hj32]
  · rw [Nat.testBit_ofBits_ge _ _ (Nat.not_lt.mp hj), decide_eq_false hj, Bool.and_false]

theorem number_eq {v : ℕ} (hv : v < 2 ^ f.width) (h : ∀ j < f.width, m.bit (f.lbn + j) = v.testBit j) :
    m.number f.lbn f.width = v := by
  apply Nat.eq_of_testBit_eq
  intro j
  by_cases hj : j < f.width
  · rw [Image.number, Nat.testBit_ofBits_lt _ _ hj, h j hj]
  · rw [Image.number, Nat.testBit_ofBits_ge _ _ (Nat.not_lt.mp hj), testBit_of_lt_two_pow hv (Nat.not_lt.mp hj)]

theorem number_setElements (hs : Splits n w count swap) (hf : Inside (8 * n) f) (hv : v < 2 ^ f.width) :
    (setElements bo (bo.order swap) count m f v).number f.lbn f.width = v := by
  refine number_eq hv fun j hj => ?_
  have hinside := hf.inside
  rw [bit_setElements hs hf hv (by omega), if_pos (by omega), Nat.add_sub_cancel_left]

theorem number_populateElements (hs : Splits n w count swap) (hd : (fields.map Prod.fst).Pairwise Field.Apart)
    (hfit : Fitting (8 * n) fields) (h : (f, v) ∈ fields) :
    (populateElements bo (bo.order swap) count m (tenFields fields)).number f.lbn f.width = v := by
  obtain ⟨hf, hv⟩ : Inside (8 * n) f ∧ v < 2 ^ f.width := hfit _ h
  refine number_eq hv fun j hj => ?_
  have hinside := hf.inside
  rw [bit_populateElements hs hfit (by omega), any_fields hd hfit h hj]

/-- **Elements of any size.**  Two ways to split a word do the same to it. -/
theorem agrees_of_splits {w' count' : ℕ} {swap' : BitVec w' → BitVec w'} (hs : Splits n w count swap)
    (hs' : Splits n w' count' swap') (bo : ByteOrder) :
    Agrees n (fun m f => (extractElements bo (bo.order swap) count m f).setWidth 32 &&& mask 32 f)
      (fun m f => (extractElements bo (bo.order swap') count' m f).setWidth 32 &&& mask 32 f)
      (setElements bo (bo.order swap) count) (setElements bo (bo.order swap') count')
      (fun m fields => populateElements bo (bo.order swap) count m (tenFields fields))
      (fun m fields => populateElements bo (bo.order swap') count' m (tenFields fields)) where
  field m f hf := by
    refine ⟨BitVec.eq_of_toNat_eq ?_, toNat_field bo m hs hf⟩
    rw [toNat_field bo m hs hf, toNat_field bo m hs' hf]
  set m f v hf hv := by
    refine ⟨Image.ext_bit fun p hp => ?_, ?_, fun p hp hout => ?_⟩
    · rw [bit_setElements hs hf hv hp, bit_setElements hs' hf hv hp]
    · rw [toNat_field bo _ hs hf, number_setElements hs hf hv]
    · rw [bit_setElements hs hf hv hp]
      exact if_neg hout
  populate m m' fields hd hfit := by
    refine ⟨Image.ext_bit fun p hp => ?_, fun fv hfv => ?_, fun p hp hout => ?_⟩
    · rw [bit_populateElements hs hfit hp, bit_populateElements hs' hfit hp]
    · rw [toNat_field bo _ hs (hfit fv hfv).1, number_populateElements hs hd hfit hfv]
    · rw [bit_populateElements hs hfit hp, List.any_eq_false]
      intro fv hfv hset
      rw [Bool.and_eq_true, decide_eq_true_eq] at hset
      refine hout fv hfv ⟨hset.1, ?_⟩
      by_contra hbeyond
      rw [testBit_of_lt_two_pow (hfit fv hfv).2 (by omega)] at hset
      exact Bool.noConfusion hset.2

/-- **Field accessors.**  On a host of either byte order the 64-bit and the 32-bit form of the macros agree, for
octwords and for quadwords. -/
theorem efxFieldAccessors (bo : ByteOrder) :
    Agrees 16 (owordField64 bo) (owordField32 bo) (setOwordField64 bo) (setOwordField32 bo) (populateOword64 bo)
      (populateOword32 bo) ∧
    Agrees 8 (qwordField64 bo) (qwordField32 bo) (setQwordField64 bo) (setQwordField32 bo) (populateQword64 bo)
      (populateQword32 bo) := by
  have ho := agrees_of_splits splits_oword64 splits_oword32 bo
  have hq := agrees_of_splits splits_qword64 splits_qword32 bo
  -- a dword cut to a dword is itself
  simp only [BitVec.setWidth_eq] at ho hq
  exact ⟨ho, hq⟩

/-! ### Registers -/

/-- The register whose bytes in the memory of a host are `o` -/
def toOword (bo : ByteOrder) (o : OwordImage) : Oword where
  u0 := cpuToLe32 bo (o.load bo 32 0)
  u1 := cpuToLe32 bo (o.load bo 32 1)
  u2 := cpuToLe32 bo (o.load bo 32 2)
  u3 := cpuToLe32 bo (o.load bo 32 3)

theorem getLsbD_toOword (bo : ByteOrder) (o : OwordImage) (hp : p < 128) : (toOword bo o).bits.getLsbD p = o.bit p := by
  have hword : ∀ i q, q < 32 → (cpuToLe32 bo (o.load bo 32 i)).getLsbD q = o.bit (32 * i + q) := fun i q hq =>
    Image.getLsbD_order_load splits_oword32.bytes splits_oword32.reverses o bo i hq
  rw [getLsbD_bits]
  split_ifs with h1 h2 h3
  · rw [toOword, hword 0 p h1]
    congr 1
    omega
  · rw [toOword, hword 1 _ (by omega)]
    congr 1
    omega
  · rw [toOword, hword 2 _ (by omega)]
    congr 1
    omega
  · rw [toOword, hword 3 _ (by omega)]
    congr 1
    omega

theorem oword_ext {o o' : Oword} (h : ∀ p < 128, o.bits.getLsbD p = o'.bits.getLsbD p) : o = o' := by
  have hword : ∀ i < 32, o.u0.getLsbD i = o'.u0.getLsbD i ∧ o.u1.getLsbD i = o'.u1.getLsbD i ∧
      o.u2.getLsbD i = o'.u2.getLsbD i ∧ o.u3.getLsbD i = o'.u3.getLsbD i := by
    intro i hi
    have h0 := h i (by omega)
    have h1 := h (32 + i) (by omega)
    have h2 := h (64 + i) (by omega)
    have h3 := h (96 + i) (by omega)
    simp only [getLsbD_bits] at h0 h1 h2 h3
    refine ⟨?_, ?_, ?_, ?_⟩
    · simpa [hi] using h0
    · simpa [show ¬ 32 + i < 32 by omega, show 32 + i < 64 by omega] using h1
    · simpa [show ¬ 64 + i < 32 by omega, show ¬ 64 + i < 64 by omega, show 64 + i < 96 by omega] using h2
    · simpa [show ¬ 96 + i < 32 by omega, show ¬ 96 + i < 64 by omega, show ¬ 96 + i < 96 by omega] using h3
  cases o
  cases o'
  congr 1
  · exact BitVec.eq_of_getLsbD_eq fun i hi => (hword i hi).1
  · exact BitVec.eq_of_getLsbD_eq fun i hi => (hword i hi).2.1
  · exact BitVec.eq_of_getLsbD_eq fun i hi => (hword i hi).2.2.1
  · exact BitVec.eq_of_getLsbD_eq fun i hi => (hword i hi).2.2.2

theorem inside_of_fits (hf : f.Fits) : Inside (8 * 16) f := ⟨hf.pos, hf.word, hf.inside⟩

/-- **Reading a register.**  The hardware reads in a field what the macros read. -/
theorem field_toOword (bo : ByteOrder) (o : OwordImage) (hf : f.Fits) :
    (toOword bo o).field f = (owordField32 bo o f).toNat := by
  have hread : (owordField32 bo o f).toNat = o.number f.lbn f.width := by
    have hnum := toNat_field bo o splits_oword32 (inside_of_fits hf)
    rwa [BitVec.setWidth_eq] at hnum
  have hinside := hf.inside
  rw [hread]
  refine (number_eq (BitVec.isLt _) fun j hj => ?_).symm
  rw [BitVec.testBit_toNat, BitVec.getLsbD_extractLsb', getLsbD_toOword bo o (by omega), decide_eq_true hj,
    Bool.true_and]

/-- **Setting a field of a register.** -/
theorem toOword_set (bo : ByteOrder) (o : OwordImage) (hf : f.Fits) (hv : v < 2 ^ f.width) :
    toOword bo (setOwordField32 bo o f v) = setOwordField (toOword bo o) f (BitVec.ofNat 32 v) := by
  have h32 : 2 ^ f.width ≤ 2 ^ 32 := Nat.pow_le_pow_right (by decide) hf.word
  have hval : (BitVec.ofNat 32 v).toNat = v := Nat.mod_eq_of_lt (hv.trans_le h32)
  refine oword_ext fun p hp => ?_
  rw [getLsbD_toOword bo _ hp, getLsbD_setOwordField hf (by rw [hval]; exact hv) hp, getLsbD_toOword bo o hp,
    ← BitVec.testBit_toNat, hval]
  exact bit_setElements splits_oword32 (inside_of_fits hf) hv hp

theorem getLsbD_insertFields32 {min q : ℕ} (hfit : Fitting (8 * 16) fields) (hq : q < 32) :
    (insertFields32 min (min + 31) (fields.map fun fv => (fv.1, BitVec.ofNat 32 fv.2))).getLsbD q =
      fields.any fun fv => decide (fv.1.lbn ≤ min + q) && fv.2.testBit (min + q - fv.1.lbn) := by
  rw [insertFields32, List.foldr_map, getLsbD_foldr_or, Bool.eq_iff_iff, List.any_eq_true, List.any_eq_true]
  refine exists_congr fun fv => and_congr_right fun hfv => ?_
  obtain ⟨hf, hv⟩ := hfit fv hfv
  have h32 : 2 ^ fv.1.width ≤ 2 ^ 32 := Nat.pow_le_pow_right (by decide) hf.word
  have hval : (BitVec.ofNat 32 fv.2).toNat = fv.2 := Nat.mod_eq_of_lt (hv.trans_le h32)
  rw [getLsbD_insertNative32 hf.pos (by rw [hval]; exact hv) hq, ← BitVec.testBit_toNat, hval]

/-- **Populating a register.** -/
theorem toOword_populate (bo : ByteOrder) (o : OwordImage) (hfit : Fitting (8 * 16) fields) :
    toOword bo (populateOword32 bo o fields) =
      populateOword (fields.map fun fv => (fv.1, BitVec.ofNat 32 fv.2)) := by
  have hbit : ∀ p < 128, (toOword bo (populateOword32 bo o fields)).bits.getLsbD p =
      fields.any fun fv => decide (fv.1.lbn ≤ p) && fv.2.testBit (p - fv.1.lbn) := fun p hp => by
    rw [getLsbD_toOword bo _ hp]
    exact bit_populateElements splits_oword32 hfit hp
  refine oword_ext fun p hp => ?_
  have hword : ∀ min, min ≤ p → p - min < 32 →
      (fields.any fun fv => decide (fv.1.lbn ≤ p) && fv.2.testBit (p - fv.1.lbn)) =
        (insertFields32 min (min + 31) (fields.map fun fv => (fv.1, BitVec.ofNat 32 fv.2))).getLsbD (p - min) := by
    intro min hmin hlt
    rw [getLsbD_insertFields32 hfit hlt, Nat.add_sub_cancel' hmin]
  rw [hbit p hp, getLsbD_bits]
  split_ifs with h1 h2 h3
  · exact hword 0 (Nat.zero_le p) h1
  · exact hword 32 (by omega) (by omega)
  · exact hword 64 (by omega) (by omega)
  · exact hword 96 (by omega) (by omega)

end Sfxge.Fields
