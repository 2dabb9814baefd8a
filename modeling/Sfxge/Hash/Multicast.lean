import Sfxge.Oword
import Sfxge.Mac.Mac
import Sfxge.Hash.Crc32

/-!
# Hash.Multicast — the multicast hash of Siena

`siena_mac_multicast_hash_compute` of `efx_mac.c`: a bit of two 128-bit words for each listed address, picked by the
CRC of the address.
-/

namespace Sfxge.Hash

open Lib Mac

/-- `EFX_SHIFT32` -/
def shift32 (bit base : ℕ) : U32 := if base ≤ bit ∧ bit < base + 32 then 1#32 <<< (bit - base) else 0

/-- `EFX_SET_OWORD_BIT32` -/
def setOwordBit (o : Oword) (bit : ℕ) : Oword :=
  ⟨o.u0 ||| shift32 bit 0, o.u1 ||| shift32 bit 32, o.u2 ||| shift32 bit 64, o.u3 ||| shift32 bit 96⟩

/-- `EFX_MAC_HASH_BITS` -/
def efxMacHashBits : ℕ := 1 <<< 8

/-- `ep_multicst_hash[2]`: the low word and the high one. -/
structure MulticstHash where
  low : Oword
  high : Oword
  deriving Repr, DecidableEq

/-- The hash bucket of an address. -/
def bucket (addr : EtherAddr) : ℕ := (efxCrc32Calculate 0xffffffff addr.toList).toNat % efxMacHashBits

/-- The body of the loop over the addresses. -/
def hashAddr (h : MulticstHash) (addr : EtherAddr) : MulticstHash :=
  let index := bucket addr
  if index < 128 then { h with low := setOwordBit h.low index }
  else { h with high := setOwordBit h.high (index - 128) }

/-- `siena_mac_multicast_hash_compute` -/
def sienaMacMulticastHashCompute (addrs : List EtherAddr) : MulticstHash :=
  addrs.foldl hashAddr ⟨.zero, .zero⟩

/-- The 256 bits of the hash. -/
def MulticstHash.bits (h : MulticstHash) : BitVec 256 := h.high.bits ++ h.low.bits

/-! ### Bits of a word -/

theorem getLsbD_shift32 {bit base k : ℕ} (hk : k < 32) : (shift32 bit base).getLsbD k = decide (bit = base + k) := by
  unfold shift32
  split_ifs with h
  · have hone : (1#32).getLsbD (k - (bit - base)) = decide (k - (bit - base) = 0) := by simp
    rw [BitVec.getLsbD_shiftLeft, hone]
    by_cases he : bit = base + k
    · have h1 : ¬ k < bit - base := by omega
      have h2 : k - (bit - base) = 0 := by omega
      simp [hk, he]
    · have hne : ¬ (¬ k < bit - base ∧ k - (bit - base) = 0) := by omega
      by_cases hlt : k < bit - base
      · simp [hlt, he]
      · have h2 : ¬ k - (bit - base) = 0 := fun h2 => hne ⟨hlt, h2⟩
        simp [h2, he]
  · have he : ¬ bit = base + k := by omega
    simp [he]

theorem getLsbD_setOwordBit (o : Oword) {bit p : ℕ} (hp : p < 128) :
    (setOwordBit o bit).bits.getLsbD p = (o.bits.getLsbD p || decide (bit = p)) := by
  rw [getLsbD_bits, getLsbD_bits]
  simp only [setOwordBit, BitVec.getLsbD_or]
  split_ifs with h1 h2 h3
  · rw [getLsbD_shift32 h1, Nat.zero_add]
  · rw [getLsbD_shift32 (by omega), show 32 + (p - 32) = p by omega]
  · rw [getLsbD_shift32 (by omega), show 64 + (p - 64) = p by omega]
  · rw [getLsbD_shift32 (by omega), show 96 + (p - 96) = p by omega]

/-! ### Bits of the hash -/

theorem getLsbD_hash (h : MulticstHash) (b : ℕ) :
    h.bits.getLsbD b = if b < 128 then h.low.bits.getLsbD b else h.high.bits.getLsbD (b - 128) := by
  rw [MulticstHash.bits, BitVec.getLsbD_append]

theorem bucket_lt (addr : EtherAddr) : bucket addr < 256 := Nat.mod_lt _ (by decide)

/-- An address sets its bucket's bit and leaves the others as they are. -/
theorem getLsbD_hashAddr (h : MulticstHash) (addr : EtherAddr) (b : ℕ) :
    (hashAddr h addr).bits.getLsbD b = (h.bits.getLsbD b || decide (bucket addr = b)) := by
  have hlt := bucket_lt addr
  rw [getLsbD_hash, getLsbD_hash]
  by_cases hi : bucket addr < 128
  · have he : hashAddr h addr = { h with low := setOwordBit h.low (bucket addr) } := if_pos hi
    rw [he]
    split_ifs with hb
    · exact getLsbD_setOwordBit _ hb
    · have hne : bucket addr ≠ b := by omega
      simp [hne]
  · have he : hashAddr h addr = { h with high := setOwordBit h.high (bucket addr - 128) } := if_neg hi
    rw [he]
    split_ifs with hb
    · have hne : bucket addr ≠ b := by omega
      simp [hne]
    · by_cases hb2 : b < 256
      · have hiff : (bucket addr - 128 = b - 128) ↔ bucket addr = b := by omega
        rw [getLsbD_setOwordBit _ (by omega), decide_eq_decide.mpr hiff]
      · have hne : bucket addr ≠ b := by omega
        rw [BitVec.getLsbD_of_ge _ _ (by omega), BitVec.getLsbD_of_ge _ _ (by omega)]
        simp [hne]

theorem getLsbD_foldl_hashAddr (addrs : List EtherAddr) (h : MulticstHash) (b : ℕ) :
    (addrs.foldl hashAddr h).bits.getLsbD b = true ↔ h.bits.getLsbD b = true ∨ ∃ a ∈ addrs, bucket a = b := by
  induction addrs generalizing h with
  | nil => simp
  | cons a addrs ih =>
    rw [List.foldl_cons, ih, getLsbD_hashAddr, Bool.or_eq_true, decide_eq_true_eq, or_assoc, List.exists_mem_cons_iff]

theorem getLsbD_multicastHash (addrs : List EtherAddr) (b : ℕ) :
    (sienaMacMulticastHashCompute addrs).bits.getLsbD b = true ↔ ∃ a ∈ addrs, bucket a = b := by
  have hzero : ¬ (MulticstHash.mk .zero .zero).bits.getLsbD b = true := by
    have h : (MulticstHash.mk .zero .zero).bits = 0#256 := by decide
    rw [h, BitVec.getLsbD_zero]
    exact Bool.false_ne_true
  rw [sienaMacMulticastHashCompute, getLsbD_foldl_hashAddr, or_iff_right hzero]

/-- **CRC and hash.**  The table-driven CRC is the bit-by-bit one, a concatenation is computed part by part, and the
hash has exactly the bits that the CRC of a listed address picks. -/
theorem crc32_and_hash :
    (∀ crcInit input, efxCrc32Calculate crcInit input = Crc.crc crc32Poly crcInit input) ∧
    (∀ crcInit xs ys, efxCrc32Calculate crcInit (xs ++ ys) = efxCrc32Calculate (efxCrc32Calculate crcInit xs) ys) ∧
    ∀ addrs b, (sienaMacMulticastHashCompute addrs).bits.getLsbD b = true ↔
      ∃ a ∈ addrs, (efxCrc32Calculate 0xffffffff a.toList).toNat % 256 = b :=
  ⟨efxCrc32Calculate_eq_crc, efxCrc32Calculate_append, getLsbD_multicastHash⟩

end Sfxge.Hash
