import Sfxge.Lib.DescRing
import Sfxge.Dma.Format
import Sfxge.Rx.Refill

/-!
# Dma.Rings — posting and pushing descriptors

`ef10_tx_qpost`, `ef10_tx_qdesc_post`, `ef10_tx_qpio_post`, `ef10_tx_qpush`, `ef10_rx_qpost`, `ef10_rx_qpush` and their
Siena counterparts of `efx_tx.c` and `efx_rx.c`.  The memory of a ring is known by its quadwords, as the driver has written
them and as they are in memory; what the device is told is read in the register that is written.
-/

namespace Sfxge.Dma

open Lib Errno
open Tx.Frag (EfxBuffer)

/-- `et_esmp` and `er_esmp`, by quadwords: `EFSYS_MEM_WRITEQ` at `id * sizeof (efx_qword_t)` writes number `id`. -/
abbrev Mem := ℕ → Qword

/-- `EFX_TXQ_LIMIT(et_mask + 1)` and `EFX_RXQ_LIMIT(er_mask + 1)`, in unsigned arithmetic. -/
def limit (mask : U32) : U32 := mask + 1 - 16

/-- The first `n` elements of an array. -/
def firstN {β : Type} (n : U32) (array : ℕ → β) : List β := (List.range n.toNat).map array

/-! ### Posting -/

/-- The loop of the transmit functions: `id = added++ & et_mask`. -/
def txWrite (mask added : U32) (ds : List Qword) (mem : Mem) : Mem :=
  match ds with
  | [] => mem
  | d :: ds => txWrite mask (added + 1) ds (Function.update mem (added &&& mask).toNat d)

/-- A transmit post of `n` descriptors: `*addedp` and the memory then. -/
def txPost (mask : U32) (ed : ℕ → Qword) (n completed added : U32) (mem : Mem) : Except Errno (U32 × Mem) :=
  if added - completed + n > limit mask then .error ENOSPC
  else .ok (added + n, txWrite mask added (firstN n ed) mem)

def ef10TxQpost (mask : U32) (eb : ℕ → EfxBuffer) : U32 → U32 → U32 → Mem → Except Errno (U32 × Mem) :=
  txPost mask (ef10TxDesc ∘ eb)

def sienaTxQpost (mask : U32) (eb : ℕ → EfxBuffer) : U32 → U32 → U32 → Mem → Except Errno (U32 × Mem) :=
  txPost mask (sienaTxDesc ∘ eb)

def ef10TxQdescPost : U32 → (ℕ → Qword) → U32 → U32 → U32 → Mem → Except Errno (U32 × Mem) := txPost

def sienaTxQdescPost : U32 → (ℕ → Qword) → U32 → U32 → U32 → Mem → Except Errno (U32 × Mem) := txPost

def ESF_DZ_TX_DESC_IS_OPT : Field := ⟨63, 1⟩
def ESF_DZ_TX_OPTION_TYPE : Field := ⟨60, 3⟩
def ESF_DZ_TX_PIO_CONT : Field := ⟨59, 1⟩
def ESF_DZ_TX_PIO_BYTE_CNT : Field := ⟨32, 12⟩
def ESF_DZ_TX_PIO_BUF_ADDR : Field := ⟨0, 12⟩
def ESF_DZ_TX_OPTION_UDP_TCP_CSUM : Field := ⟨1, 1⟩
def ESF_DZ_TX_OPTION_IP_CSUM : Field := ⟨0, 1⟩
def ESE_DZ_TX_OPTION_DESC_CRC_CSUM : U32 := 0

/-- The descriptor of `ef10_tx_qpio_post` -/
def pioDesc (etPioOffset pktLength : U32) : Qword :=
  populateQword [(ESF_DZ_TX_DESC_IS_OPT, 1), (ESF_DZ_TX_OPTION_TYPE, 1), (ESF_DZ_TX_PIO_CONT, 0),
    (ESF_DZ_TX_PIO_BYTE_CNT, pktLength), (ESF_DZ_TX_PIO_BUF_ADDR, etPioOffset)]

/-- `ef10_tx_qpio_post` -/
def ef10TxQpioPost (mask etPioOffset etPioSize pktLength completed added : U32) (mem : Mem) : Except Errno (U32 × Mem) :=
  if added - completed + 1 > limit mask then .error ENOSPC
  else if etPioSize = 0 then .error ENOENT
  else .ok (added + 1, Function.update mem (added &&& mask).toNat (pioDesc etPioOffset pktLength))

/-- The no-op descriptor with which `ef10_tx_qcreate` clears the push collector. -/
def createDesc (cksumTcpudp cksumIpv4 : Bool) : Qword :=
  populateQword [(ESF_DZ_TX_DESC_IS_OPT, 1), (ESF_DZ_TX_OPTION_TYPE, ESE_DZ_TX_OPTION_DESC_CRC_CSUM),
    (ESF_DZ_TX_OPTION_UDP_TCP_CSUM, if cksumTcpudp then 1 else 0), (ESF_DZ_TX_OPTION_IP_CSUM, if cksumIpv4 then 1 else 0)]

/-- The loop of the receive functions: `id = (id + 1) & er_mask`. -/
def rxWrite (mask id : U32) (ds : List Qword) (mem : Mem) : Mem :=
  match ds with
  | [] => mem
  | d :: ds => rxWrite mask ((id + 1) &&& mask) ds (Function.update mem id.toNat d)

/-- A receive post of `n` buffers of one size. -/
def rxPost (desc : EfxBuffer → Qword) (mask : U32) (addrp : ℕ → ℕ) (size : ℕ) (n added : U32) (mem : Mem) : Mem :=
  rxWrite mask (added &&& mask) (firstN n fun i => desc ⟨addrp i, size, false⟩) mem

def ef10RxQpost : U32 → (ℕ → ℕ) → ℕ → U32 → U32 → Mem → Mem := rxPost ef10RxDesc

def sienaRxQpost : U32 → (ℕ → ℕ) → ℕ → U32 → U32 → Mem → Mem := rxPost sienaRxDesc

/-! ### Pushing -/

/-- `EFSYS_DMA_SYNC_FOR_DEVICE` of a range of quadwords -/
def syncForDevice (first count : ℕ) (mem seen : Mem) : Mem := fun i =>
  if first ≤ i ∧ i < first + count then mem i else seen i

/-- `EFX_DMA_SYNC_QUEUE_FOR_DEVICE` -/
def syncQueueForDevice (entries wptr owptr : U32) (mem seen : Mem) : Mem :=
  if wptr ≥ owptr then syncForDevice owptr.toNat (wptr - owptr).toNat mem seen
  -- it is cheaper to sync the entire map than two parts
  else syncForDevice 0 entries.toNat mem seen

def EFX_DWORD_3 : Field := ⟨96, 32⟩
def ERF_DZ_TX_DESC_WPTR : Field := ⟨64, 12⟩
def ERF_DZ_TX_DESC_HWORD : Field := ⟨32, 32⟩
def ERF_DZ_TX_DESC_LWORD : Field := ⟨0, 32⟩
def ERF_DZ_RX_DESC_WPTR : Field := ⟨0, 12⟩
def FRF_AZ_TX_DESC_WPTR : Field := ⟨96, 12⟩
def FRF_AZ_RX_DESC_WPTR : Field := ⟨96, 12⟩

def EF10_RX_WPTR_ALIGN : U32 := 8

/-- `EFX_OWORD_FIELD32` -/
def owordField (o : Oword) (f : Field) : U32 :=
  (extractNative 0 31 f o.u0 ||| extractNative 32 63 f o.u1 ||| extractNative 64 95 f o.u2 |||
    extractNative 96 127 f o.u3) &&& mask32 f

/-- What `ef10_tx_qpush` writes to `ER_DZ_TX_DESC_UPD_REG` -/
def ef10TxDoorbell (wptr : U32) (desc : Qword) : Oword :=
  populateOword [(ERF_DZ_TX_DESC_WPTR, wptr), (ERF_DZ_TX_DESC_HWORD, desc.field EFX_DWORD_1),
    (ERF_DZ_TX_DESC_LWORD, desc.field EFX_DWORD_0)]

/-- What `siena_tx_qpush` and `siena_rx_qpush` write to the third dword of the register -/
def sienaDoorbell (descWptr : Field) (wptr : U32) : U32 :=
  populateDword [(EFX_DWORD_0, owordField (populateOword [(descWptr, wptr)]) EFX_DWORD_3)]

/-- What `ef10_rx_qpush` writes to `ER_DZ_RX_DESC_UPD_REG` -/
def ef10RxDoorbell (wptr : U32) : U32 := populateDword [(ERF_DZ_RX_DESC_WPTR, wptr)]

/-- The descriptors of a push are brought to memory before the register is written. -/
def sync (mask wptr id : U32) (r : DescRing Qword) : DescRing Qword :=
  { r with seen := syncQueueForDevice (mask + 1) wptr id r.mem r.seen }

def ef10TxQpush (mask added pushed : U32) (r : DescRing Qword) : DescRing Qword :=
  let wptr := added &&& mask
  let id := pushed &&& mask
  let o := ef10TxDoorbell wptr (r.mem id.toNat)
  (sync mask wptr id r).doorbell (o.field ERF_DZ_TX_DESC_WPTR)
    (some ⟨.ofNat 32 (o.field ERF_DZ_TX_DESC_LWORD), .ofNat 32 (o.field ERF_DZ_TX_DESC_HWORD)⟩)

def sienaTxQpush (mask added pushed : U32) (r : DescRing Qword) : DescRing Qword :=
  let wptr := added &&& mask
  (sync mask wptr (pushed &&& mask) r).doorbell
    (Oword.field { Oword.zero with u3 := sienaDoorbell FRF_AZ_TX_DESC_WPTR wptr } FRF_AZ_TX_DESC_WPTR) none

/-- `ef10_rx_qpush`, with `*pushedp` -/
def ef10RxQpush (mask added pushed : U32) (r : DescRing Qword) : U32 × DescRing Qword :=
  -- hardware has an alignment restriction for WPTR
  let wptr := added &&& -EF10_RX_WPTR_ALIGN
  if pushed = wptr then (pushed, r)
  else
    (wptr, (sync mask (wptr &&& mask) (pushed &&& mask) r).doorbell
      (Oword.field { Oword.zero with u0 := ef10RxDoorbell (wptr &&& mask) } ERF_DZ_RX_DESC_WPTR) none)

/-- `siena_rx_qpush`, with `*pushedp` -/
def sienaRxQpush (mask added pushed : U32) (r : DescRing Qword) : U32 × DescRing Qword :=
  let wptr := added &&& mask
  (added, (sync mask wptr (pushed &&& mask) r).doorbell
    (Oword.field { Oword.zero with u3 := sienaDoorbell FRF_AZ_RX_DESC_WPTR wptr } FRF_AZ_RX_DESC_WPTR) none)

/-! ### Slots -/

section Slots

variable {k j P P' : ℕ} {mem seen : Mem}

/-- `n - 1` for a ring of `n = 2 ^ k` descriptors -/
def maskOf (k : ℕ) : U32 := BitVec.ofNat 32 (2 ^ k - 1)

theorem slot_eq (hk : k ≤ 32) (j : ℕ) : (BitVec.ofNat 32 j &&& maskOf k).toNat = j % 2 ^ k := by
  rw [maskOf, and_mask hk, BitVec.toNat_ofNat, Nat.mod_mod_of_dvd _ (pow_dvd_pow 2 hk)]

theorem txWrite_eq (hk : k ≤ 32) (ds : List Qword) :
    txWrite (maskOf k) (BitVec.ofNat 32 j) ds mem = writeAll (2 ^ k) j ds mem := by
  induction ds generalizing j mem with
  | nil => rfl
  | cons d ds ih =>
    have hnext : BitVec.ofNat 32 j + 1 = BitVec.ofNat 32 (j + 1) := (BitVec.ofNat_add j 1).symm
    rw [txWrite, writeAll, slot_eq hk, hnext]
    exact ih

/-- The receive functions mask the index at every step. -/
theorem slot_succ (hk : k ≤ 32) (j : ℕ) :
    ((BitVec.ofNat 32 j &&& maskOf k) + 1) &&& maskOf k = BitVec.ofNat 32 (j + 1) &&& maskOf k := by
  refine BitVec.eq_of_toNat_eq ?_
  have hslot : (BitVec.ofNat 32 j &&& maskOf k) + 1 = BitVec.ofNat 32 (j % 2 ^ k + 1) := by
    refine BitVec.eq_of_toNat_eq ?_
    rw [BitVec.toNat_add, slot_eq hk, BitVec.toNat_ofNat]
    rfl
  rw [hslot, slot_eq hk, slot_eq hk, Nat.mod_add_mod]

theorem rxWrite_eq (hk : k ≤ 32) (ds : List Qword) :
    rxWrite (maskOf k) (BitVec.ofNat 32 j &&& maskOf k) ds mem = writeAll (2 ^ k) j ds mem := by
  induction ds generalizing j mem with
  | nil => rfl
  | cons d ds ih =>
    rw [rxWrite, writeAll, slot_eq hk, slot_succ hk]
    exact ih

theorem maskOf_add_one (hk : k < 32) : (maskOf k + 1).toNat = 2 ^ k := by
  have hpos : 0 < 2 ^ k := Nat.two_pow_pos k
  have hlt : 2 ^ k < 2 ^ 32 := Nat.pow_lt_pow_right (by omega) hk
  rw [maskOf, BitVec.toNat_add, BitVec.toNat_ofNat, show (1 : U32).toNat = 1 from rfl]
  omega

theorem toNat_limit (hk4 : 4 ≤ k) (hk : k < 32) : (limit (maskOf k)).toNat = 2 ^ k - 16 := by
  have hlow : 2 ^ 4 ≤ 2 ^ k := Nat.pow_le_pow_right (by omega) hk4
  have hsub : (16 : U32) ≤ maskOf k + 1 := by
    rw [BitVec.le_def, maskOf_add_one hk]
    exact hlow
  rw [limit, BitVec.toNat_sub_of_le hsub, maskOf_add_one hk]
  rfl

/-- **Synchronisation.**  Whether or not they go round the end of the ring, the descriptors from `P` to `P'` are brought to
memory. -/
theorem sync_shows (mem seen : Mem) (hk : k < 32) (hP : P ≤ P') (hlt : P' < P + 2 ^ k) :
    ∃ I : ℕ → Prop, Shows mem seen (syncQueueForDevice (maskOf k + 1) (BitVec.ofNat 32 P' &&& maskOf k)
      (BitVec.ofNat 32 P &&& maskOf k) mem seen) I ∧ ∀ j, P ≤ j → j < P' → I (j % 2 ^ k) := by
  have hpos : 0 < 2 ^ k := Nat.two_pow_pos k
  have hrange : ∀ first count,
      Shows mem seen (syncForDevice first count mem seen) fun i => first ≤ i ∧ i < first + count := by
    intro first count i
    by_cases hi : first ≤ i ∧ i < first + count
    · exact Or.inl (if_pos hi)
    · exact Or.inr ⟨hi, if_neg hi⟩
  unfold syncQueueForDevice
  split_ifs with hge
  · have hle : P % 2 ^ k ≤ P' % 2 ^ k := by
      rwa [ge_iff_le, BitVec.le_def, slot_eq hk.le, slot_eq hk.le] at hge
    refine ⟨_, hrange _ _, fun j hj hj' => ?_⟩
    rw [BitVec.toNat_sub_of_le hge, slot_eq hk.le, slot_eq hk.le]
    -- without a turn of the ring in between, the slots are as far apart as the numbers
    have hturn : P' - P < 2 ^ k - P % 2 ^ k := by
      by_contra hnot
      have hP'' : P' % 2 ^ k = P % 2 ^ k + (P' - P) - 2 ^ k := by
        have hsum : P' % 2 ^ k = (P % 2 ^ k + (P' - P)) % 2 ^ k := by
          rw [Nat.mod_add_mod, Nat.add_sub_cancel' hP]
        rw [hsum, Nat.mod_eq_sub_mod (by omega), Nat.mod_eq_of_lt (by omega)]
      omega
    have hj'' : j % 2 ^ k = P % 2 ^ k + (j - P) := by
      have := mod_add (n := 2 ^ k) (b := P) (i := j - P) dvd_rfl (by omega)
      rwa [Nat.add_sub_cancel' hj] at this
    have hw : P' % 2 ^ k = P % 2 ^ k + (P' - P) := by
      have := mod_add (n := 2 ^ k) (b := P) (i := P' - P) dvd_rfl hturn
      rwa [Nat.add_sub_cancel' hP] at this
    omega
  · refine ⟨_, hrange _ _, fun j _ _ => ?_⟩
    rw [maskOf_add_one hk]
    exact ⟨Nat.zero_le _, by rw [Nat.zero_add]; exact Nat.mod_lt _ hpos⟩

end Slots

/-! ### The registers -/

section Registers

variable {wptr : U32}

/-- A field that lies in one dword. -/
theorem field_eq_of_bits {o : Oword} {f : Field} {u : U32} (hu : u.toNat < 2 ^ f.width)
    (h : ∀ j, j < f.width → o.bits.getLsbD (f.lbn + j) = u.getLsbD j) : o.field f = u.toNat := by
  apply Nat.eq_of_testBit_eq
  intro j
  change (o.bits.extractLsb' f.lbn f.width).getLsbD j = u.getLsbD j
  rw [BitVec.getLsbD_extractLsb']
  by_cases hj : j < f.width
  · rw [h j hj, decide_eq_true hj, Bool.true_and]
  · rw [decide_eq_false hj, Bool.false_and, getLsbD_of_lt_two_pow hu (not_lt.mp hj)]

theorem field_dword0 {o : Oword} {w : ℕ} (hw : w ≤ 32) (h : o.u0.toNat < 2 ^ w) : o.field ⟨0, w⟩ = o.u0.toNat := by
  refine field_eq_of_bits h fun j hj => ?_
  change j < w at hj
  rw [getLsbD_bits, Nat.zero_add, if_pos (by omega)]

theorem field_dword1 {o : Oword} : o.field ⟨32, 32⟩ = o.u1.toNat := by
  refine field_eq_of_bits o.u1.isLt fun j hj => ?_
  change j < 32 at hj
  change o.bits.getLsbD (32 + j) = _
  rw [getLsbD_bits, if_neg (by omega), if_pos (by omega), Nat.add_sub_cancel_left]

theorem field_dword2 {o : Oword} (h : o.u2.toNat < 2 ^ 12) : o.field ⟨64, 12⟩ = o.u2.toNat := by
  refine field_eq_of_bits h fun j hj => ?_
  change j < 12 at hj
  change o.bits.getLsbD (64 + j) = _
  rw [getLsbD_bits, if_neg (by omega), if_neg (by omega), if_pos (by omega), Nat.add_sub_cancel_left]

theorem field_dword3 {o : Oword} (h : o.u3.toNat < 2 ^ 12) : o.field ⟨96, 12⟩ = o.u3.toNat := by
  refine field_eq_of_bits h fun j hj => ?_
  change j < 12 at hj
  change o.bits.getLsbD (96 + j) = _
  rw [getLsbD_bits, if_neg (by omega), if_neg (by omega), if_neg (by omega), Nat.add_sub_cancel_left]

theorem and_dword (u : U32) : u &&& 0xffffffff = u := BitVec.and_allOnes

theorem ef10TxDoorbell_eq (desc : Qword) : ef10TxDoorbell wptr desc = ⟨desc.u0, desc.u1, wptr, 0⟩ := by
  have h0 : desc.field EFX_DWORD_0 = desc.u0 := by
    simp [Qword.field, extractNative, EFX_DWORD_0, Field.high, mask32]
    exact and_dword _
  have h1 : desc.field EFX_DWORD_1 = desc.u1 := by
    simp [Qword.field, extractNative, EFX_DWORD_1, Field.high, mask32]
    exact and_dword _
  rw [ef10TxDoorbell, h0, h1]
  simp [populateOword, insertFields32, insertNative32, ERF_DZ_TX_DESC_WPTR, ERF_DZ_TX_DESC_HWORD, ERF_DZ_TX_DESC_LWORD,
    Field.high]

theorem sienaDoorbell_eq : sienaDoorbell ⟨96, 12⟩ wptr = wptr := by
  simp [sienaDoorbell, populateDword, owordField, extractNative, populateOword, insertFields32, insertNative32, EFX_DWORD_0,
    EFX_DWORD_3, Field.high, mask32]
  exact and_dword _

theorem ef10RxDoorbell_eq : ef10RxDoorbell wptr = wptr := by
  simp [ef10RxDoorbell, populateDword, insertFields32, insertNative32, ERF_DZ_RX_DESC_WPTR, Field.high]

end Registers

end Sfxge.Dma
