import Sfxge.Oword
import Sfxge.Tx.Fragment

/-!
# Dma.Format — the descriptors of a buffer

The descriptors that `ef10_tx_qpost`, `siena_tx_qpost`, `ef10_rx_qpost` and `siena_rx_qpost` make of a buffer, and what
the device reads in them.  A field value is not masked to the width of its field: a buffer that is too long or too high
up spoils the fields above.
-/

namespace Sfxge

/-- The 64 bits of a quadword. -/
def Qword.bits (q : Qword) : BitVec 64 := q.u1 ++ q.u0

/-- What the device reads in a field. -/
def Qword.read (q : Qword) (f : Field) : ℕ := (q.bits.extractLsb' f.lbn f.width).toNat

end Sfxge

namespace Sfxge.Dma

open Lib
open Tx.Frag (EfxBuffer)

/-- `EFX_POPULATE_QWORD32` -/
def populateQword (fields : List (Field × U32)) : Qword := ⟨insertFields32 0 31 fields, insertFields32 32 63 fields⟩

/-! ### The descriptors -/

def ESF_DZ_TX_KER_TYPE : Field := ⟨63, 1⟩
def ESF_DZ_TX_KER_CONT : Field := ⟨62, 1⟩
def ESF_DZ_TX_KER_BYTE_CNT : Field := ⟨48, 14⟩
def ESF_DZ_TX_KER_BUF_ADDR_DW0 : Field := ⟨0, 32⟩
def ESF_DZ_TX_KER_BUF_ADDR_DW1 : Field := ⟨32, 16⟩
def ESF_DZ_TX_KER_BUF_ADDR : Field := ⟨0, 48⟩

def ESF_DZ_RX_KER_BYTE_CNT : Field := ⟨48, 14⟩
def ESF_DZ_RX_KER_BUF_ADDR_DW0 : Field := ⟨0, 32⟩
def ESF_DZ_RX_KER_BUF_ADDR_DW1 : Field := ⟨32, 16⟩
def ESF_DZ_RX_KER_BUF_ADDR : Field := ⟨0, 48⟩

def FSF_AZ_TX_KER_CONT : Field := ⟨62, 1⟩
def FSF_AZ_TX_KER_BYTE_COUNT : Field := ⟨48, 14⟩
def FSF_AZ_TX_KER_BUF_ADDR_DW0 : Field := ⟨0, 32⟩
def FSF_AZ_TX_KER_BUF_ADDR_DW1 : Field := ⟨32, 14⟩
def FSF_AZ_TX_KER_BUF_ADDR : Field := ⟨0, 46⟩

def FSF_AZ_RX_KER_BUF_SIZE : Field := ⟨48, 14⟩
def FSF_AZ_RX_KER_BUF_ADDR_DW0 : Field := ⟨0, 32⟩
def FSF_AZ_RX_KER_BUF_ADDR_DW1 : Field := ⟨32, 14⟩
def FSF_AZ_RX_KER_BUF_ADDR : Field := ⟨0, 46⟩

/-- The address and the size of a buffer, below the fields `top`. -/
def bufferDesc (top : List (Field × U32)) (byteCnt dw0 dw1 : Field) (b : EfxBuffer) : Qword :=
  populateQword (top ++ [(byteCnt, .ofNat 32 b.ebSize), (dw0, .ofNat 32 (b.ebAddr &&& 0xffffffff)),
    (dw1, .ofNat 32 (b.ebAddr >>> 32))])

/-- `(eop) ? 0 : 1` -/
def cont (eop : Bool) : U32 := if eop then 0 else 1

def ef10Top (eop : Bool) : List (Field × U32) := [(ESF_DZ_TX_KER_TYPE, 0), (ESF_DZ_TX_KER_CONT, cont eop)]

def sienaTop (eop : Bool) : List (Field × U32) := [(FSF_AZ_TX_KER_CONT, cont eop)]

/-- `ef10_tx_qdesc_dma_create`, and what `ef10_tx_qpost` writes -/
def ef10TxDesc (b : EfxBuffer) : Qword :=
  bufferDesc (ef10Top b.ebEop) ESF_DZ_TX_KER_BYTE_CNT ESF_DZ_TX_KER_BUF_ADDR_DW0 ESF_DZ_TX_KER_BUF_ADDR_DW1 b

/-- `EFX_TX_DESC` and `siena_tx_qdesc_dma_create` -/
def sienaTxDesc (b : EfxBuffer) : Qword :=
  bufferDesc (sienaTop b.ebEop) FSF_AZ_TX_KER_BYTE_COUNT FSF_AZ_TX_KER_BUF_ADDR_DW0 FSF_AZ_TX_KER_BUF_ADDR_DW1 b

/-- What `ef10_rx_qpost` writes -/
def ef10RxDesc (b : EfxBuffer) : Qword :=
  bufferDesc [] ESF_DZ_RX_KER_BYTE_CNT ESF_DZ_RX_KER_BUF_ADDR_DW0 ESF_DZ_RX_KER_BUF_ADDR_DW1 b

/-- What `siena_rx_qpost` writes -/
def sienaRxDesc (b : EfxBuffer) : Qword :=
  bufferDesc [] FSF_AZ_RX_KER_BUF_SIZE FSF_AZ_RX_KER_BUF_ADDR_DW0 FSF_AZ_RX_KER_BUF_ADDR_DW1 b

/-! ### What the device reads -/

/-- A transmit descriptor of EF10; `none` for one that is not of a buffer. -/
def ef10TxReads (q : Qword) : Option EfxBuffer :=
  if q.read ESF_DZ_TX_KER_TYPE = 0 then
    some ⟨q.read ESF_DZ_TX_KER_BUF_ADDR, q.read ESF_DZ_TX_KER_BYTE_CNT, q.read ESF_DZ_TX_KER_CONT = 0⟩
  else none

def sienaTxReads (q : Qword) : Option EfxBuffer :=
  some ⟨q.read FSF_AZ_TX_KER_BUF_ADDR, q.read FSF_AZ_TX_KER_BYTE_COUNT, q.read FSF_AZ_TX_KER_CONT = 0⟩

/-- A receive descriptor: the address and the size. -/
def ef10RxReads (q : Qword) : ℕ × ℕ := (q.read ESF_DZ_RX_KER_BUF_ADDR, q.read ESF_DZ_RX_KER_BYTE_CNT)

def sienaRxReads (q : Qword) : ℕ × ℕ := (q.read FSF_AZ_RX_KER_BUF_ADDR, q.read FSF_AZ_RX_KER_BUF_SIZE)

/-- The buffer can be said in a descriptor with addresses of `w` bits. -/
def Fits (w : ℕ) (b : EfxBuffer) : Prop := b.ebAddr < 2 ^ w ∧ b.ebSize < 2 ^ 14

instance (w : ℕ) (b : EfxBuffer) : Decidable (Fits w b) := inferInstanceAs (Decidable (_ ∧ _))

/-- Every value is within the width of its field. -/
def Within (fields : List (Field × U32)) : Prop := ∀ fv ∈ fields, 0 < fv.1.width ∧ fv.2.toNat < 2 ^ fv.1.width

instance (fields : List (Field × U32)) : Decidable (Within fields) := inferInstanceAs (Decidable (∀ fv ∈ fields, _))

theorem getLsbD_insertFields32 (min : ℕ) {k : ℕ} {fields : List (Field × U32)} (hf : Within fields) (hk : k < 32) :
    (insertFields32 min (min + 31) fields).getLsbD k =
      fields.any fun fv => decide (fv.1.lbn ≤ min + k) && fv.2.getLsbD (min + k - fv.1.lbn) := by
  induction fields with
  | nil => exact BitVec.getLsbD_zero
  | cons fv fields ih =>
    obtain ⟨hw, hv⟩ := hf fv (by simp)
    have hrest := ih fun gv hgv => hf gv (by simp [hgv])
    change (insertNative32 min (min + 31) fv.1 fv.2 ||| insertFields32 min (min + 31) fields).getLsbD k = _
    rw [BitVec.getLsbD_or, getLsbD_insertNative32 hw hv hk, hrest, List.any_cons]

theorem getLsbD_populateQword {p : ℕ} {fields : List (Field × U32)} (hf : Within fields) (hp : p < 64) :
    (populateQword fields).bits.getLsbD p =
      fields.any fun fv => decide (fv.1.lbn ≤ p) && fv.2.getLsbD (p - fv.1.lbn) := by
  unfold Qword.bits populateQword
  rw [BitVec.getLsbD_append]
  by_cases h : p < 32
  · have hlow := getLsbD_insertFields32 0 hf h
    rw [if_pos h]
    simpa only [Nat.zero_add] using hlow
  · have hhigh := getLsbD_insertFields32 32 hf (show p - 32 < 32 by omega)
    rw [if_neg h]
    simpa only [show 32 + (p - 32) = p by omega] using hhigh

theorem read_lt (q : Qword) (f : Field) : q.read f < 2 ^ f.width := BitVec.isLt _

/-- A field is read bit by bit. -/
theorem read_eq {q : Qword} {f : Field} {v : ℕ} (hv : v < 2 ^ f.width)
    (h : ∀ j, j < f.width → q.bits.getLsbD (f.lbn + j) = v.testBit j) : q.read f = v := by
  apply Nat.eq_of_testBit_eq
  intro j
  change (q.bits.extractLsb' f.lbn f.width).getLsbD j = _
  rw [BitVec.getLsbD_extractLsb']
  by_cases hj : j < f.width
  · rw [h j hj, decide_eq_true hj, Bool.true_and]
  · rw [decide_eq_false hj, Bool.false_and]
    exact (Nat.testBit_lt_two_pow (hv.trans_le (Nat.pow_le_pow_right (by omega) (not_lt.mp hj)))).symm

section Buffer

variable {top : List (Field × U32)} {w p : ℕ} {b : EfxBuffer}

/-- The fields of `top` that have bit `p` set. -/
def topBit (top : List (Field × U32)) (p : ℕ) : Bool :=
  top.any fun fv => decide (fv.1.lbn ≤ p) && fv.2.getLsbD (p - fv.1.lbn)

theorem topBit_low (htop : ∀ fv ∈ top, 62 ≤ fv.1.lbn) (hp : p < 62) : topBit top p = false := by
  rw [topBit, List.any_eq_false]
  intro fv hfv
  have hlow : ¬ fv.1.lbn ≤ p := by
    have := htop fv hfv
    omega
  simp [hlow]

theorem toNat_low (a : ℕ) : (BitVec.ofNat 32 (a &&& 0xffffffff)).toNat < 2 ^ 32 := BitVec.isLt _

/-- **The bits of a descriptor.** -/
theorem bits_bufferDesc (hwithin : Within top) (hw0 : 0 < w) (hw : w ≤ 16) (hb : Fits (32 + w) b) (hp : p < 64) :
    (bufferDesc top ⟨48, 14⟩ ⟨0, 32⟩ ⟨32, w⟩ b).bits.getLsbD p =
      (topBit top p || (decide (48 ≤ p) && b.ebSize.testBit (p - 48)) || b.ebAddr.testBit p) := by
  obtain ⟨haddr, hsize⟩ := hb
  have hpow : (2 : ℕ) ^ (32 + w) = 2 ^ 32 * 2 ^ w := pow_add 2 32 w
  have hhigh : b.ebAddr >>> 32 < 2 ^ w := by
    rw [Nat.shiftRight_eq_div_pow]
    exact Nat.div_lt_of_lt_mul (hpow ▸ haddr)
  have hwide : (2 : ℕ) ^ w ≤ 2 ^ 16 := Nat.pow_le_pow_right (by omega) hw
  have hfields : Within (top ++ [((⟨48, 14⟩ : Field), BitVec.ofNat 32 b.ebSize),
      (⟨0, 32⟩, BitVec.ofNat 32 (b.ebAddr &&& 0xffffffff)), (⟨32, w⟩, BitVec.ofNat 32 (b.ebAddr >>> 32))]) := by
    intro fv hfv
    rcases List.mem_append.mp hfv with hfv | hfv
    · exact hwithin fv hfv
    · simp only [List.mem_cons, List.not_mem_nil, or_false] at hfv
      rcases hfv with rfl | rfl | rfl
      · refine ⟨Nat.succ_pos 13, ?_⟩
        rw [BitVec.toNat_ofNat]
        exact (Nat.mod_le _ _).trans_lt hsize
      · exact ⟨Nat.succ_pos 31, toNat_low _⟩
      · refine ⟨hw0, ?_⟩
        rw [BitVec.toNat_ofNat]
        exact (Nat.mod_le _ _).trans_lt hhigh
  unfold bufferDesc
  rw [getLsbD_populateQword hfields hp, List.any_append, ← topBit, Bool.or_assoc]
  congr 1
  simp only [List.any_cons, List.any_nil, Bool.or_false, BitVec.getLsbD_ofNat, Nat.zero_le, decide_true, Bool.true_and,
    Nat.sub_zero, Nat.testBit_and, Nat.testBit_shiftRight]
  -- the address is in two parts
  have hmask : (0xffffffff : ℕ).testBit p = decide (p < 32) := Nat.testBit_two_pow_sub_one 32 p
  have hbig : ∀ q, 14 ≤ q → b.ebSize.testBit q = false := fun q hq =>
    Nat.testBit_lt_two_pow (hsize.trans_le (Nat.pow_le_pow_right (by omega) hq))
  rw [hmask]
  by_cases h32 : p < 32
  · have h1 : ¬ 48 ≤ p := by omega
    have h2 : ¬ 32 ≤ p := by omega
    simp [h32, h1, h2]
  · have h2 : 32 ≤ p := by omega
    have h3 : 32 + (p - 32) = p := by omega
    have h4 : p - 32 < 32 := by omega
    have h5 : p - 48 < 32 := by omega
    simp [h32, h2, h3, h4, h5]

theorem read_addr (hwithin : Within top) (htop : ∀ fv ∈ top, 62 ≤ fv.1.lbn) (hw0 : 0 < w) (hw : w ≤ 16)
    (hb : Fits (32 + w) b) : (bufferDesc top ⟨48, 14⟩ ⟨0, 32⟩ ⟨32, w⟩ b).read ⟨0, 32 + w⟩ = b.ebAddr := by
  refine read_eq hb.1 fun j hj => ?_
  change j < 32 + w at hj
  have h48 : ¬ 48 ≤ j := by omega
  rw [Nat.zero_add, bits_bufferDesc hwithin hw0 hw hb (by omega), topBit_low htop (by omega)]
  simp [h48]

theorem read_size (hwithin : Within top) (htop : ∀ fv ∈ top, 62 ≤ fv.1.lbn) (hw0 : 0 < w) (hw : w ≤ 16)
    (hb : Fits (32 + w) b) : (bufferDesc top ⟨48, 14⟩ ⟨0, 32⟩ ⟨32, w⟩ b).read ⟨48, 14⟩ = b.ebSize := by
  refine read_eq hb.2 fun j hj => ?_
  change j < 14 at hj
  change (Qword.bits _).getLsbD (48 + j) = _
  have haddr : b.ebAddr.testBit (48 + j) = false :=
    Nat.testBit_lt_two_pow (hb.1.trans_le (Nat.pow_le_pow_right (by omega) (by omega)))
  rw [bits_bufferDesc hwithin hw0 hw hb (by omega), topBit_low htop (by omega), haddr]
  simp

/-- A bit above the size is as `top` has it. -/
theorem read_top (hwithin : Within top) (hw0 : 0 < w) (hw : w ≤ 16) (hb : Fits (32 + w) b) (hp : 62 ≤ p) (hp' : p < 64) :
    (bufferDesc top ⟨48, 14⟩ ⟨0, 32⟩ ⟨32, w⟩ b).read ⟨p, 1⟩ = (topBit top p).toNat := by
  refine read_eq (Bool.toNat_lt _) fun j hj => ?_
  change j < 1 at hj
  obtain rfl : j = 0 := by omega
  have haddr : b.ebAddr.testBit p = false :=
    Nat.testBit_lt_two_pow (hb.1.trans_le (Nat.pow_le_pow_right (by omega) (by omega)))
  have hsize : b.ebSize.testBit (p - 48) = false :=
    Nat.testBit_lt_two_pow (hb.2.trans_le (Nat.pow_le_pow_right (by omega) (by omega)))
  rw [Nat.add_zero, bits_bufferDesc hwithin hw0 hw hb hp', haddr, hsize]
  cases topBit top p <;> simp

end Buffer

/-! ### Exactly the buffers that fit -/

/-- Fields above the size that say no more than whether the packet ends. -/
structure Tops (top : Bool → List (Field × U32)) : Prop where
  within : ∀ eop, Within (top eop)
  high : ∀ eop, ∀ fv ∈ top eop, 62 ≤ fv.1.lbn
  cont : ∀ eop, topBit (top eop) 62 = !eop
  type : ∀ eop, topBit (top eop) 63 = false

theorem tops_ef10 : Tops ef10Top where
  within := by decide
  high := by decide
  cont := by decide
  type := by decide

theorem tops_siena : Tops sienaTop where
  within := by decide
  high := by decide
  cont := by decide
  type := by decide

theorem Tops.reads {top : Bool → List (Field × U32)} {w : ℕ} {b : EfxBuffer} (h : Tops top) (hw0 : 0 < w) (hw : w ≤ 16)
    (hb : Fits (32 + w) b) : let q := bufferDesc (top b.ebEop) ⟨48, 14⟩ ⟨0, 32⟩ ⟨32, w⟩ b
      q.read ⟨63, 1⟩ = 0 ∧
        (⟨q.read ⟨0, 32 + w⟩, q.read ⟨48, 14⟩, q.read ⟨62, 1⟩ = 0⟩ : EfxBuffer) = b := by
  have htype := read_top (h.within b.ebEop) hw0 hw hb (p := 63) (by omega) (by omega)
  have hcont := read_top (h.within b.ebEop) hw0 hw hb (p := 62) (by omega) (by omega)
  rw [h.type] at htype
  rw [h.cont] at hcont
  refine ⟨htype, ?_⟩
  rw [read_addr (h.within _) (h.high _) hw0 hw hb, read_size (h.within _) (h.high _) hw0 hw hb, hcont]
  obtain ⟨addr, size, eop⟩ := b
  cases eop <;> rfl

theorem ef10TxReads_iff (b : EfxBuffer) : ef10TxReads (ef10TxDesc b) = some b ↔ Fits 48 b := by
  constructor
  · intro h
    unfold ef10TxReads at h
    split_ifs at h
    have hb := Option.some.inj h
    rw [← hb]
    exact ⟨read_lt _ ESF_DZ_TX_KER_BUF_ADDR, read_lt _ ESF_DZ_TX_KER_BYTE_CNT⟩
  · intro hb
    obtain ⟨htype, hbuf⟩ := tops_ef10.reads (w := 16) (by omega) le_rfl hb
    exact (if_pos htype).trans (congrArg some hbuf)

theorem sienaTxReads_iff (b : EfxBuffer) : sienaTxReads (sienaTxDesc b) = some b ↔ Fits 46 b := by
  constructor
  · intro h
    have hb := Option.some.inj h
    rw [← hb]
    exact ⟨read_lt _ FSF_AZ_TX_KER_BUF_ADDR, read_lt _ FSF_AZ_TX_KER_BYTE_COUNT⟩
  · intro hb
    exact congrArg some (tops_siena.reads (w := 14) (by omega) (by omega) hb).2

theorem within_nil : Within [] := fun _ h => absurd h List.not_mem_nil

/-- A receive descriptor has nothing above the size. -/
theorem reads_nil {w : ℕ} {b : EfxBuffer} (hw0 : 0 < w) (hw : w ≤ 16) (hb : Fits (32 + w) b) :
    let q := bufferDesc [] ⟨48, 14⟩ ⟨0, 32⟩ ⟨32, w⟩ b
    (q.read ⟨0, 32 + w⟩, q.read ⟨48, 14⟩) = (b.ebAddr, b.ebSize) := by
  have hnone : ∀ fv ∈ ([] : List (Field × U32)), 62 ≤ fv.1.lbn := fun _ h => absurd h List.not_mem_nil
  exact Prod.ext (read_addr within_nil hnone hw0 hw hb) (read_size within_nil hnone hw0 hw hb)

theorem ef10RxReads_iff (b : EfxBuffer) : ef10RxReads (ef10RxDesc b) = (b.ebAddr, b.ebSize) ↔ Fits 48 b := by
  constructor
  · intro h
    obtain ⟨haddr, hsize⟩ := Prod.mk.inj h
    exact ⟨haddr ▸ read_lt _ ESF_DZ_RX_KER_BUF_ADDR, hsize ▸ read_lt _ ESF_DZ_RX_KER_BYTE_CNT⟩
  · intro hb
    exact reads_nil (w := 16) (by omega) le_rfl hb

theorem sienaRxReads_iff (b : EfxBuffer) : sienaRxReads (sienaRxDesc b) = (b.ebAddr, b.ebSize) ↔ Fits 46 b := by
  constructor
  · intro h
    obtain ⟨haddr, hsize⟩ := Prod.mk.inj h
    exact ⟨haddr ▸ read_lt _ FSF_AZ_RX_KER_BUF_ADDR, hsize ▸ read_lt _ FSF_AZ_RX_KER_BUF_SIZE⟩
  · intro hb
    exact reads_nil (w := 14) (by omega) (by omega) hb

end Sfxge.Dma
