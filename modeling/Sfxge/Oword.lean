import Sfxge.Lib.Bits
import Sfxge.Lib.Run

/-!
# Oword — 128-bit registers of the BAR

The `EFX_POPULATE_OWORD_*` and `EFX_SET_OWORD_FIELD` macros of `efx_types.h` in their 32-bit form
(`EFSYS_USE_UINT64` is `0` on this platform), register accesses, and the 64-bit events.  A field value is not masked to
the width of its field, as in the source.
-/

namespace Sfxge

open Lib

abbrev U32 := BitVec 32

/-- `efx_oword_t`, seen as `eo_u32[4]`. -/
structure Oword where
  u0 : U32
  u1 : U32
  u2 : U32
  u3 : U32
  deriving Repr, DecidableEq

def Oword.zero : Oword := ⟨0, 0, 0, 0⟩

/-- A register field: its `_LBN` and `_WIDTH`. -/
structure Field where
  lbn : ℕ
  width : ℕ
  deriving Repr, DecidableEq

/-- `EFX_HIGH_BIT` -/
def Field.high (f : Field) : ℕ := f.lbn + f.width - 1

def EFX_DWORD_0 : Field := ⟨0, 32⟩
def EFX_DWORD_1 : Field := ⟨32, 32⟩
def EFX_DWORD_2 : Field := ⟨64, 32⟩

/-- `EFX_INSERT_FIELD_NATIVE32`: the part of a field value that falls into bits `min..max`. -/
def insertNative32 (min max : ℕ) (f : Field) (value : U32) : U32 :=
  if f.lbn > max ∨ f.high < min then 0
  else if f.lbn > min then value <<< (f.lbn - min)
  else value >>> (min - f.lbn)

/-- `EFX_INSERT_FIELDS32` -/
def insertFields32 (min max : ℕ) (fields : List (Field × U32)) : U32 :=
  fields.foldr (fun fv w => insertNative32 min max fv.1 fv.2 ||| w) 0

/-- `EFX_POPULATE_OWORD32` -/
def populateOword (fields : List (Field × U32)) : Oword :=
  ⟨insertFields32 0 31 fields, insertFields32 32 63 fields, insertFields32 64 95 fields,
    insertFields32 96 127 fields⟩

/-- `EFX_MASK32` -/
def mask32 (f : Field) : U32 := if f.width = 32 then 0xffffffff else ((1 : U32) <<< f.width) - 1

/-- `EFX_POPULATE_DWORD` -/
def populateDword (fields : List (Field × U32)) : U32 := insertFields32 0 31 fields

/-- `EFX_DWORD_FIELD` -/
def dwordField (d : U32) (f : Field) : U32 := (d >>> f.lbn) &&& mask32 f

/-- `efx_qword_t`, seen as `eq_u32[2]`. -/
structure Qword where
  u0 : U32
  u1 : U32
  deriving Repr, DecidableEq

/-- `EFX_SET_QWORD` -/
def Qword.ones : Qword := ⟨0xffffffff, 0xffffffff⟩

/-- `EFX_EXTRACT_NATIVE`: bits `min..max` of a field of an element. -/
def extractNative (min max : ℕ) (f : Field) (element : U32) : U32 :=
  if f.lbn > max ∨ f.high < min then 0
  else if f.lbn > min then element >>> (f.lbn - min)
  else element <<< (min - f.lbn)

/-- `EFX_QWORD_FIELD32` -/
def Qword.field (q : Qword) (f : Field) : U32 :=
  (extractNative 0 31 f q.u0 ||| extractNative 32 63 f q.u1) &&& mask32 f

/-- `EFX_SET_OWORD_FIELD32` -/
def setOwordField (o : Oword) (f : Field) (value : U32) : Oword :=
  let set (min max : ℕ) (w : U32) :=
    w &&& ~~~ insertNative32 min max f (mask32 f) ||| insertNative32 min max f value
  ⟨set 0 31 o.u0, set 32 63 o.u1, set 64 95 o.u2, set 96 127 o.u3⟩

/-- The 128-bit registers by BAR offset, and every write made to them, latest first. -/
structure Bar where
  reg : ℕ → Oword
  writes : List (ℕ × Oword)

variable {ε : Type}

/-- `EFX_BAR_READO` -/
def barReado (ofst : ℕ) : Prog Bar ε Oword := fun bar => .ret (bar.reg ofst) bar

def Bar.write (bar : Bar) (ofst : ℕ) (o : Oword) : Bar where
  reg := Function.update bar.reg ofst o
  writes := (ofst, o) :: bar.writes

/-- `EFX_BAR_WRITEO` -/
def barWriteo (ofst : ℕ) (o : Oword) : Prog Bar ε Unit := fun bar => .ret () (bar.write ofst o)

@[simp] theorem barReado_apply (ofst : ℕ) (bar : Bar) :
    (barReado ofst : Prog Bar ε _) bar = .ret (bar.reg ofst) bar := rfl

@[simp] theorem barWriteo_apply (ofst : ℕ) (o : Oword) (bar : Bar) :
    (barWriteo ofst o : Prog Bar ε _) bar = .ret () (bar.write ofst o) := rfl

@[simp] theorem write_writes (bar : Bar) (ofst : ℕ) (o : Oword) :
    (bar.write ofst o).writes = (ofst, o) :: bar.writes := rfl

theorem write_reg_self (bar : Bar) (ofst : ℕ) (o : Oword) : (bar.write ofst o).reg ofst = o :=
  Function.update_self ..

theorem write_reg_ne (bar : Bar) {ofst p : ℕ} (o : Oword) (h : p ≠ ofst) :
    (bar.write ofst o).reg p = bar.reg p := Function.update_of_ne h ..

/-! ### Reading fields -/

/-- The 128 bits of a register. -/
def Oword.bits (o : Oword) : BitVec 128 := o.u3 ++ o.u2 ++ o.u1 ++ o.u0

/-- What the hardware reads in a field. -/
def Oword.field (o : Oword) (f : Field) : ℕ := (o.bits.extractLsb' f.lbn f.width).toNat

theorem getLsbD_of_lt_two_pow {value : U32} {w j : ℕ} (hv : value.toNat < 2 ^ w) (hj : w ≤ j) :
    value.getLsbD j = false :=
  testBit_of_lt_two_pow hv hj

theorem getLsbD_insertNative32 {min : ℕ} {f : Field} {value : U32} (hw : 0 < f.width)
    (hv : value.toNat < 2 ^ f.width) {k : ℕ} (hk : k < 32) :
    (insertNative32 min (min + 31) f value).getLsbD k =
      (decide (f.lbn ≤ min + k) && value.getLsbD (min + k - f.lbn)) := by
  unfold insertNative32 Field.high
  split_ifs with h1 h2
  · rcases h1 with h1 | h1
    · have : ¬ f.lbn ≤ min + k := by omega
      simp [this]
    · rw [getLsbD_of_lt_two_pow hv (show f.width ≤ min + k - f.lbn by omega)]
      simp
  · rw [BitVec.getLsbD_shiftLeft]
    by_cases h : f.lbn ≤ min + k
    · have e1 : k - (f.lbn - min) = min + k - f.lbn := by omega
      have e2 : ¬ k < f.lbn - min := by omega
      simp [h, hk, e1, e2]
    · have e2 : k < f.lbn - min := by omega
      simp [h, e2]
  · rw [BitVec.getLsbD_ushiftRight]
    have e1 : min - f.lbn + k = min + k - f.lbn := by omega
    have e2 : f.lbn ≤ min + k := by omega
    simp [e1, e2]

theorem toNat_mask32 {f : Field} (hf : f.width ≤ 32) : (mask32 f).toNat = 2 ^ f.width - 1 := by
  unfold mask32
  split_ifs with h
  · rw [h]; rfl
  · have hlt : 2 ^ f.width < 2 ^ 32 := Nat.pow_lt_pow_right (by norm_num) (by omega)
    have hpos : 0 < 2 ^ f.width := by positivity
    have h1 : ((1 : U32) <<< f.width).toNat = 2 ^ f.width := by
      rw [BitVec.toNat_shiftLeft, Nat.shiftLeft_eq, show (1 : U32).toNat = 1 from rfl, one_mul,
        Nat.mod_eq_of_lt hlt]
    rw [BitVec.toNat_sub, h1, show (1 : U32).toNat = 1 from rfl]
    omega

theorem getLsbD_mask32 {f : Field} (hf : f.width ≤ 32) (j : ℕ) :
    (mask32 f).getLsbD j = decide (j < f.width) := by
  rw [BitVec.getLsbD, toNat_mask32 hf, Nat.testBit_two_pow_sub_one]

/-- A field is one that the macros can write: at most a word wide, inside the register. -/
structure Field.Fits (f : Field) : Prop where
  pos : 0 < f.width
  word : f.width ≤ 32
  inside : f.lbn + f.width ≤ 128

instance (f : Field) : Decidable f.Fits :=
  decidable_of_iff (0 < f.width ∧ f.width ≤ 32 ∧ f.lbn + f.width ≤ 128)
    ⟨fun h => ⟨h.1, h.2.1, h.2.2⟩, fun h => ⟨h.1, h.2, h.3⟩⟩

theorem getLsbD_bits {o : Oword} {p : ℕ} :
    o.bits.getLsbD p =
      if p < 32 then o.u0.getLsbD p
      else if p < 64 then o.u1.getLsbD (p - 32)
      else if p < 96 then o.u2.getLsbD (p - 64)
      else o.u3.getLsbD (p - 96) := by
  simp only [Oword.bits, BitVec.getLsbD_append, Nat.sub_sub]
  split_ifs <;> first | rfl | omega

/-- One word of a register with a field set. -/
theorem getLsbD_setWord {min : ℕ} {f : Field} {value w : U32} (hf : f.Fits)
    (hv : value.toNat < 2 ^ f.width) {k : ℕ} (hk : k < 32) :
    (w &&& ~~~ insertNative32 min (min + 31) f (mask32 f) ||| insertNative32 min (min + 31) f value).getLsbD k =
      if f.lbn ≤ min + k ∧ min + k < f.lbn + f.width then value.getLsbD (min + k - f.lbn)
      else w.getLsbD k := by
  have hm : (mask32 f).toNat < 2 ^ f.width := by
    have : 0 < 2 ^ f.width := by positivity
    rw [toNat_mask32 hf.word]
    omega
  rw [BitVec.getLsbD_or, BitVec.getLsbD_and, BitVec.getLsbD_not,
    getLsbD_insertNative32 hf.pos hv hk, getLsbD_insertNative32 hf.pos hm hk, getLsbD_mask32 hf.word]
  by_cases h1 : f.lbn ≤ min + k
  · by_cases h2 : min + k < f.lbn + f.width
    · have h3 : min + k - f.lbn < f.width := by omega
      simp [h1, h2, h3]
    · have h3 : ¬ min + k - f.lbn < f.width := by omega
      rw [getLsbD_of_lt_two_pow hv (Nat.not_lt.mp h3)]
      simp [h1, h2, h3, hk]
  · simp [h1, hk]

theorem getLsbD_setOwordField {o : Oword} {f : Field} {value : U32} (hf : f.Fits)
    (hv : value.toNat < 2 ^ f.width) {p : ℕ} (hp : p < 128) :
    (setOwordField o f value).bits.getLsbD p =
      if f.lbn ≤ p ∧ p < f.lbn + f.width then value.getLsbD (p - f.lbn) else o.bits.getLsbD p := by
  rw [getLsbD_bits, getLsbD_bits]
  by_cases h1 : p < 32
  · have h := @getLsbD_setWord 0 f value o.u0 hf hv p h1
    simpa [setOwordField, h1] using h
  by_cases h2 : p < 64
  · have h := @getLsbD_setWord 32 f value o.u1 hf hv (p - 32) (by omega)
    have e : 32 + (p - 32) = p := by omega
    rw [e] at h
    simpa [setOwordField, h1, h2] using h
  by_cases h3 : p < 96
  · have h := @getLsbD_setWord 64 f value o.u2 hf hv (p - 64) (by omega)
    have e : 64 + (p - 64) = p := by omega
    rw [e] at h
    simpa [setOwordField, h1, h2, h3] using h
  · have h := @getLsbD_setWord 96 f value o.u3 hf hv (p - 96) (by omega)
    have e : 96 + (p - 96) = p := by omega
    rw [e] at h
    simpa [setOwordField, h1, h2, h3] using h

/-- A field holds what was written to it. -/
theorem field_set_self {o : Oword} {f : Field} {value : U32} (hf : f.Fits)
    (hv : value.toNat < 2 ^ f.width) : (setOwordField o f value).field f = value.toNat := by
  apply Nat.eq_of_testBit_eq
  intro j
  change ((setOwordField o f value).bits.extractLsb' f.lbn f.width).getLsbD j = value.getLsbD j
  rw [BitVec.getLsbD_extractLsb']
  have hi := hf.inside
  by_cases hj : j < f.width
  · rw [getLsbD_setOwordField hf hv (by omega), if_pos (by omega)]
    simp [hj]
  · rw [getLsbD_of_lt_two_pow hv (Nat.not_lt.mp hj)]
    simp [hj]

/-- Writing a field leaves the others alone. -/
theorem field_set_ne {o : Oword} {f g : Field} {value : U32} (hf : f.Fits) (hg : g.Fits)
    (hv : value.toNat < 2 ^ f.width) (hd : g.lbn + g.width ≤ f.lbn ∨ f.lbn + f.width ≤ g.lbn) :
    (setOwordField o f value).field g = o.field g := by
  apply Nat.eq_of_testBit_eq
  intro j
  change ((setOwordField o f value).bits.extractLsb' g.lbn g.width).getLsbD j =
    (o.bits.extractLsb' g.lbn g.width).getLsbD j
  rw [BitVec.getLsbD_extractLsb', BitVec.getLsbD_extractLsb']
  have hi := hg.inside
  by_cases hj : j < g.width
  · rw [getLsbD_setOwordField hf hv (by omega), if_neg (by omega)]
  · simp [hj]

/-- Several fields set one after the other. -/
def setFields (o : Oword) (fields : List (Field × U32)) : Oword :=
  fields.foldl (fun o fv => setOwordField o fv.1 fv.2) o

/-- Fields without a bit in common. -/
def Field.Apart (f g : Field) : Prop := g.lbn + g.width ≤ f.lbn ∨ f.lbn + f.width ≤ g.lbn

instance (f g : Field) : Decidable (f.Apart g) := inferInstanceAs (Decidable (_ ∨ _))

theorem field_setFields_ne {fields : List (Field × U32)} {g : Field} (hg : g.Fits)
    (hf : ∀ fv ∈ fields, fv.1.Fits ∧ fv.2.toNat < 2 ^ fv.1.width ∧ fv.1.Apart g) (o : Oword) :
    (setFields o fields).field g = o.field g := by
  induction fields generalizing o with
  | nil => rfl
  | cons fv fields ih =>
    obtain ⟨h1, h2, h3⟩ := hf fv (by simp)
    have hset := ih (fun gv hgv => hf gv (by simp [hgv])) (setOwordField o fv.1 fv.2)
    rw [field_set_ne h1 hg h2 h3] at hset
    exact hset

/-- **Fields.**  Fields that are apart hold what was written to them. -/
theorem field_setFields {fields : List (Field × U32)} (hd : (fields.map Prod.fst).Pairwise Field.Apart)
    (hf : ∀ fv ∈ fields, fv.1.Fits ∧ fv.2.toNat < 2 ^ fv.1.width) {f : Field} {value : U32}
    (h : (f, value) ∈ fields) (o : Oword) : (setFields o fields).field f = value.toNat := by
  induction fields generalizing o with
  | nil => cases h
  | cons fv fields ih =>
    obtain ⟨hhead, htail⟩ := List.pairwise_cons.mp hd
    rcases List.mem_cons.mp h with rfl | h
    · obtain ⟨h1, h2⟩ := hf (f, value) (by simp)
      have hapart : ∀ gv ∈ fields, gv.1.Fits ∧ gv.2.toNat < 2 ^ gv.1.width ∧ gv.1.Apart f := by
        intro gv hgv
        obtain ⟨h3, h4⟩ := hf gv (by simp [hgv])
        exact ⟨h3, h4, (hhead gv.1 (List.mem_map_of_mem hgv)).symm⟩
      have hrest := field_setFields_ne h1 hapart (setOwordField o f value)
      rw [field_set_self h1 h2] at hrest
      exact hrest
    · exact ih htail (fun gv hgv => hf gv (by simp [hgv])) h _

/-! ### Dwords -/

theorem getLsbD_populateDword_ne {fields : List (Field × U32)} {f : Field} {k : ℕ} (hk : k < 32)
    (hin : f.lbn ≤ k ∧ k < f.lbn + f.width)
    (hf : ∀ fv ∈ fields, 0 < fv.1.width ∧ fv.2.toNat < 2 ^ fv.1.width ∧ fv.1.Apart f) :
    (populateDword fields).getLsbD k = false := by
  induction fields with
  | nil => exact BitVec.getLsbD_zero
  | cons fv fields ih =>
    obtain ⟨h1, h2, h3⟩ := hf fv (by simp)
    have hrest := ih fun gv hgv => hf gv (by simp [hgv])
    have hword := @getLsbD_insertNative32 0 fv.1 fv.2 h1 h2 k hk
    change (insertNative32 0 31 fv.1 fv.2 ||| populateDword fields).getLsbD k = false
    rw [BitVec.getLsbD_or, hrest, hword, Nat.zero_add, Bool.or_false]
    rcases h3 with h | h
    · have : ¬ fv.1.lbn ≤ k := by omega
      simp [this]
    · rw [getLsbD_of_lt_two_pow h2 (by omega), Bool.and_false]

theorem getLsbD_populateDword {fields : List (Field × U32)}
    (hd : (fields.map Prod.fst).Pairwise Field.Apart)
    (hf : ∀ fv ∈ fields, 0 < fv.1.width ∧ fv.2.toNat < 2 ^ fv.1.width) {f : Field} {value : U32}
    (h : (f, value) ∈ fields) {k : ℕ} (hk : k < 32) (hin : f.lbn ≤ k ∧ k < f.lbn + f.width) :
    (populateDword fields).getLsbD k = value.getLsbD (k - f.lbn) := by
  induction fields with
  | nil => cases h
  | cons fv fields ih =>
    obtain ⟨hhead, htail⟩ := List.pairwise_cons.mp hd
    obtain ⟨h1, h2⟩ := hf fv (by simp)
    have hword := @getLsbD_insertNative32 0 fv.1 fv.2 h1 h2 k hk
    change (insertNative32 0 31 fv.1 fv.2 ||| populateDword fields).getLsbD k = _
    rw [BitVec.getLsbD_or, hword, Nat.zero_add]
    rcases List.mem_cons.mp h with rfl | h
    · have hapart : ∀ gv ∈ fields, 0 < gv.1.width ∧ gv.2.toNat < 2 ^ gv.1.width ∧ gv.1.Apart f := by
        intro gv hgv
        obtain ⟨h3, h4⟩ := hf gv (by simp [hgv])
        exact ⟨h3, h4, (hhead gv.1 (List.mem_map_of_mem hgv)).symm⟩
      rw [getLsbD_populateDword_ne hk hin hapart, Bool.or_false, decide_eq_true hin.1, Bool.true_and]
    · rw [ih htail (fun gv hgv => hf gv (by simp [hgv])) h]
      rcases hhead f (List.mem_map_of_mem h) with h3 | h3
      · have : ¬ fv.1.lbn ≤ k := by omega
        simp [this]
      · rw [getLsbD_of_lt_two_pow h2 (by omega), Bool.and_false, Bool.false_or]

/-- **Fields of a dword.**  Fields that are apart hold what was written to them. -/
theorem dwordField_populateDword {fields : List (Field × U32)}
    (hd : (fields.map Prod.fst).Pairwise Field.Apart)
    (hf : ∀ fv ∈ fields, 0 < fv.1.width ∧ fv.2.toNat < 2 ^ fv.1.width) {f : Field} {value : U32}
    (h : (f, value) ∈ fields) (hin : f.lbn + f.width ≤ 32) :
    dwordField (populateDword fields) f = value := by
  obtain ⟨h1, h2⟩ := hf _ h
  apply BitVec.eq_of_getLsbD_eq
  intro j hj
  rw [dwordField, BitVec.getLsbD_and, BitVec.getLsbD_ushiftRight, getLsbD_mask32 (by omega)]
  by_cases hjw : j < f.width
  · rw [getLsbD_populateDword hd hf h (by omega) (by omega), decide_eq_true hjw, Bool.and_true,
      Nat.add_sub_cancel_left]
  · rw [getLsbD_of_lt_two_pow h2 (Nat.not_lt.mp hjw), decide_eq_false hjw, Bool.and_false]

end Sfxge
