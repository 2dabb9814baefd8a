import Sfxge.Lib.Toeplitz
import Sfxge.Oword

/-!
# Rx.Toeplitz — the cached receive hash of `sfxge_hash.c`

`toeplitz_cache_init` tabulates the hash of every byte at every input position; `toeplitz_hash` assembles
the hash of an input from the table.  A read or write outside the key, the input or the table is `none`.
-/

namespace Sfxge.Rx

open Lib

def SFXGE_TOEPLITZ_KEY_LEN : ℕ := 40
def SFXGE_TOEPLITZ_IN_MAX : ℕ := 2 * (16 + 2)
def SFXGE_TOEPLITZ_CACHE_SIZE : ℕ := SFXGE_TOEPLITZ_IN_MAX * (255 + 1)

/-- `BE_IN32(key)` -/
def beIn32 (key : Bytes) (i : ℕ) : Option U32 := do
  let a ← key[i]?
  let b ← key[i + 1]?
  let c ← key[i + 2]?
  let d ← key[i + 3]?
  some (a.toBitVec ++ b.toBitVec ++ c.toBitVec ++ d.toBitVec)

/-- `mask` in its round `j` -/
def mask (j : ℕ) : BitVec 8 := 1 <<< 7 >>> j

/-- `key_bits[j]`, where `next` is the byte after the first four. -/
def keyBits (first : U32) (next : UInt8) : ℕ → U32
  | 0 => first
  | j + 1 =>
    if next.toBitVec &&& mask j ≠ 0 then keyBits first next j <<< 1 ||| 1 else keyBits first next j <<< 1

/-- The table's value for a byte. -/
def byteHash (first : U32) (next : UInt8) (byte : BitVec 8) : U32 :=
  (List.range 8).foldl (fun res j => if byte &&& mask j ≠ 0 then res ^^^ keyBits first next j else res) 0

/-- `cache[i] = v;` -/
def store (cache : List U32) (i : ℕ) (v : U32) : Option (List U32) :=
  if i < cache.length then some (cache.set i v) else none

/-- `toeplitz_cache_init`; `cache` is the memory that has been allocated. -/
def toeplitzCacheInit (key : Bytes) (cache : List U32) : Option (List U32) :=
  (List.range SFXGE_TOEPLITZ_IN_MAX).foldlM (fun cache i => do
    let first ← beIn32 key i
    let next ← key[i + 4]?
    (List.range 256).foldlM (fun cache byte =>
      store cache (i * (255 + 1) + byte) (byteHash first next (BitVec.ofNat 8 byte))) cache) cache

/-- The loop of `toeplitz_hash`, with its locals. -/
def toeplitzHash (cache : List U32) (input : Bytes) (pos : ℕ) : ℕ → U32 → Option U32
  | 0, hash => some hash
  | datalen + 1, hash => do
    let b ← input.head?
    let w ← cache[pos * (255 + 1) + b.toNat]?
    toeplitzHash cache input.tail (pos + 1) datalen (hash ^^^ w)

/-- `sfxge_toeplitz_hash`, where a port is the two bytes it has in memory. -/
def sfxgeToeplitzHash (cache : List U32) (addrSize : ℕ) (srcAddr : Bytes) (srcPort : ℕ) (dstAddr : Bytes)
    (dstPort : ℕ) : Option U32 := do
  let hash ← toeplitzHash cache srcAddr 0 addrSize 0
  let hash' ← toeplitzHash cache dstAddr addrSize addrSize 0
  if srcPort ≠ 0 ∨ dstPort ≠ 0 then
    let hash2 ← toeplitzHash cache (le 2 srcPort) (addrSize + addrSize) 2 0
    let hash3 ← toeplitzHash cache (le 2 dstPort) (addrSize + addrSize + 2) 2 0
    some (hash ^^^ hash' ^^^ hash2 ^^^ hash3)
  else some (hash ^^^ hash')

/-! ### The table -/

/-- The hash of one byte at the position `i` of the input. -/
def subHash (key : Bytes) (i : ℕ) (b : UInt8) : U32 := toeplitzFrom (bitAt key) 32 (8 * i) (byteBits b)

theorem and_mask {x : BitVec 8} {j : ℕ} (hj : j < 8) : x &&& mask j ≠ 0 ↔ x.getMsbD j = true := by
  have hmask : mask j = BitVec.twoPow 8 (7 - j) := by
    interval_cases j <;> rfl
  rw [hmask, BitVec.and_twoPow, BitVec.getMsbD_eq_getLsbD]
  have hpos : ¬ BitVec.twoPow 8 (7 - j) = 0#8 := by
    interval_cases j <;> decide
  by_cases h : x.getLsbD (7 - j) = true <;> simp [h, hj, hpos]

variable {key : Bytes}

theorem bitAt_of_getElem {i : ℕ} {b : UInt8} (h : key[i]? = some b) {j : ℕ} (hj : j < 8) :
    bitAt key (8 * i + j) = b.toBitVec.getMsbD j := by
  have h1 : (8 * i + j) / 8 = i := by omega
  have h2 : (8 * i + j) % 8 = j := by omega
  rw [bitAt, h1, h2, List.getD_eq_getElem?_getD, h]
  rfl

/-- The first window of a row. -/
theorem beIn32_eq {i : ℕ} (h : i + 4 ≤ key.length) : beIn32 key i = some (window (bitAt key) (8 * i) 32) := by
  obtain ⟨a, ha⟩ : ∃ a, key[i]? = some a := ⟨_, List.getElem?_eq_getElem (by omega)⟩
  obtain ⟨b, hb⟩ : ∃ b, key[i + 1]? = some b := ⟨_, List.getElem?_eq_getElem (by omega)⟩
  obtain ⟨c, hc⟩ : ∃ c, key[i + 2]? = some c := ⟨_, List.getElem?_eq_getElem (by omega)⟩
  obtain ⟨d, hd⟩ : ∃ d, key[i + 3]? = some d := ⟨_, List.getElem?_eq_getElem (by omega)⟩
  have heq : a.toBitVec ++ b.toBitVec ++ c.toBitVec ++ d.toBitVec = window (bitAt key) (8 * i) 32 := by
    apply BitVec.eq_of_getMsbD_eq
    intro j hj
    rw [getMsbD_window, BitVec.getMsbD_append, BitVec.getMsbD_append, BitVec.getMsbD_append]
    have hj' : j < 32 := hj
    simp only [hj', decide_true, Bool.true_and]
    by_cases h1 : j < 8
    · rw [bitAt_of_getElem ha h1]
      simp [show ¬ 24 ≤ j by omega, show ¬ 16 ≤ j by omega, show ¬ 8 ≤ j by omega]
    by_cases h2 : j < 16
    · rw [show 8 * i + j = 8 * (i + 1) + (j - 8) by omega, bitAt_of_getElem hb (by omega)]
      simp [show ¬ 24 ≤ j by omega, show ¬ 16 ≤ j by omega, show 8 ≤ j by omega]
    by_cases h3 : j < 24
    · rw [show 8 * i + j = 8 * (i + 2) + (j - 16) by omega, bitAt_of_getElem hc (by omega)]
      simp [show ¬ 24 ≤ j by omega, show 16 ≤ j by omega]
    · rw [show 8 * i + j = 8 * (i + 3) + (j - 24) by omega, bitAt_of_getElem hd (by omega)]
      simp [show 24 ≤ j by omega]
  rw [beIn32, ha, hb, hc, hd, ← heq]
  rfl

/-- **Recurrence.**  The entries of `key_bits` are the windows of the row. -/
theorem keyBits_eq {i j : ℕ} (hj : j < 8) {next : UInt8} (h : key[i + 4]? = some next) :
    keyBits (window (bitAt key) (8 * i) 32) next j = window (bitAt key) (8 * i + j) 32 := by
  induction j with
  | zero => rfl
  | succ j ih =>
    have hbit := bitAt_of_getElem h (show j < 8 by omega)
    rw [keyBits, ih (by omega), ← Nat.add_assoc, window_succ, show 8 * i + j + (31 + 1) = 8 * (i + 4) + j by omega,
      hbit]
    by_cases hm : next.toBitVec &&& mask j ≠ 0
    · rw [if_pos hm, (and_mask (by omega)).mp hm]
      rfl
    · rw [if_neg hm, Bool.eq_false_iff.mpr fun hb => hm ((and_mask (by omega)).mpr hb)]
      simp

theorem byteHash_eq {i : ℕ} {next : UInt8} (h : key[i + 4]? = some next) (b : UInt8) :
    byteHash (window (bitAt key) (8 * i) 32) next b.toBitVec = subHash key i b := by
  have hfold := toeplitzFrom_eq_foldl (k := bitAt key) (i := 8 * i) b.toBitVec.getMsbD 8 (0#32)
  rw [BitVec.zero_xor] at hfold
  rw [subHash, byteBits, byteHash, ← hfold]
  refine List.foldl_ext _ _ _ fun h' j hj => ?_
  have hj8 : j < 8 := List.mem_range.mp hj
  rw [keyBits_eq hj8 h]
  exact if_congr (and_mask hj8) rfl rfl

/-- The rows below `i` and the first `n` entries of the row `i` are filled in. -/
def Filled (key : Bytes) (i n : ℕ) (cache : List U32) : Prop :=
  cache.length = SFXGE_TOEPLITZ_CACHE_SIZE ∧ ∀ pos (b : UInt8), pos < i ∨ (pos = i ∧ b.toNat < n) →
    cache[pos * (255 + 1) + b.toNat]? = some (subHash key pos b)

theorem filled_store {i n : ℕ} {cache : List U32} (h : Filled key i n cache) (hi : i < SFXGE_TOEPLITZ_IN_MAX)
    (hn : n < 256) : ∃ cache', store cache (i * (255 + 1) + n) (subHash key i (UInt8.ofNat n)) = some cache' ∧
      Filled key i (n + 1) cache' := by
  obtain ⟨hlen, hcache⟩ := h
  have hsize : SFXGE_TOEPLITZ_CACHE_SIZE = SFXGE_TOEPLITZ_IN_MAX * 256 := rfl
  have hlt : i * (255 + 1) + n < cache.length := by omega
  refine ⟨_, if_pos hlt, by rw [List.length_set, hlen], fun pos b hpos => ?_⟩
  have hb := b.toNat_lt
  by_cases heq : pos = i ∧ b.toNat = n
  · obtain ⟨rfl, hbn⟩ := heq
    rw [hbn, List.getElem?_set_self hlt, ← hbn, UInt8.ofNat_toNat]
  · rw [List.getElem?_set_ne (by omega)]
    exact hcache pos b (by omega)

theorem range_split {n i : ℕ} {done rest : List ℕ} (h : List.range n = done ++ i :: rest) :
    i = done.length ∧ i < n := by
  have hlt : done.length < n := by
    have := congrArg List.length h
    simp at this
    omega
  have hget : (List.range n)[done.length]? = some i := by
    rw [h, List.getElem?_append_right le_rfl, Nat.sub_self]
    rfl
  rw [List.getElem?_range hlt] at hget
  have hi := Option.some.inj hget
  exact ⟨hi.symm, by omega⟩

/-- **The table.** -/
theorem toeplitzCacheInit_filled (hkey : key.length = SFXGE_TOEPLITZ_KEY_LEN) {cache : List U32}
    (hcache : cache.length = SFXGE_TOEPLITZ_CACHE_SIZE) :
    ∃ cache', toeplitzCacheInit key cache = some cache' ∧ Filled key SFXGE_TOEPLITZ_IN_MAX 0 cache' := by
  have hrow : ∀ done i rest cache, List.range SFXGE_TOEPLITZ_IN_MAX = done ++ i :: rest →
      Filled key done.length 0 cache → ∃ cache', (do
        let first ← beIn32 key i
        let next ← key[i + 4]?
        (List.range 256).foldlM (fun cache byte =>
          store cache (i * (255 + 1) + byte) (byteHash first next (BitVec.ofNat 8 byte))) cache) = some cache' ∧
        Filled key (done ++ [i]).length 0 cache' := by
    intro done i rest cache hdone hfilled
    obtain ⟨hlen, hi⟩ := range_split hdone
    rw [← hlen] at hfilled
    have hmax : SFXGE_TOEPLITZ_IN_MAX = 36 := rfl
    have hkeylen : key.length = 40 := hkey
    obtain ⟨next, hnext⟩ : ∃ next, key[i + 4]? = some next := ⟨_, List.getElem?_eq_getElem (by omega)⟩
    rw [beIn32_eq (by omega), hnext]
    obtain ⟨cache', hrun, hfilled'⟩ := foldlM_rule (fun done => Filled key i done.length) (List.range 256)
      (f := fun cache byte => store cache (i * (255 + 1) + byte)
        (byteHash (window (bitAt key) (8 * i) 32) next (BitVec.ofNat 8 byte)))
      hfilled (fun done n rest cache hn hfilled => by
        obtain ⟨hlen', hn256⟩ := range_split hn
        rw [List.length_append, ← hlen', List.length_singleton]
        rw [← hlen'] at hfilled
        have hbyte : byteHash (window (bitAt key) (8 * i) 32) next (BitVec.ofNat 8 n) = subHash key i (UInt8.ofNat n) :=
          byteHash_eq hnext (UInt8.ofNat n)
        rw [hbyte]
        exact filled_store hfilled hi hn256)
    refine ⟨cache', hrun, hfilled'.1, fun pos b hpos => hfilled'.2 pos b ?_⟩
    rw [List.length_append, ← hlen, List.length_singleton] at hpos
    rw [List.length_range]
    have hb : b.toNat < 256 := b.toNat_lt
    omega
  have hbase : Filled key ([] : List ℕ).length 0 cache := ⟨hcache, fun pos b h => by simp at h⟩
  obtain ⟨cache', hrun, hfilled⟩ := foldlM_rule (fun done => Filled key done.length 0) _ hbase hrow
  rw [List.length_range] at hfilled
  exact ⟨cache', hrun, hfilled⟩

/-! ### The hash -/

variable {cache : List U32}

/-- A piece of the input, at its position. -/
theorem toeplitzHash_eq (h : Filled key SFXGE_TOEPLITZ_IN_MAX 0 cache) {input : Bytes} {pos : ℕ}
    (hpos : pos + input.length ≤ SFXGE_TOEPLITZ_IN_MAX) (hash : U32) :
    toeplitzHash cache input pos input.length hash =
      some (hash ^^^ toeplitzFrom (bitAt key) 32 (8 * pos) (bits input)) := by
  induction input generalizing pos hash with
  | nil =>
    have hnil : toeplitzFrom (bitAt key) 32 (8 * pos) (bits []) = 0#32 := rfl
    rw [hnil, BitVec.xor_zero]
    rfl
  | cons b input ih =>
    rw [List.length_cons] at hpos
    have hbits : bits (b :: input) = byteBits b ++ bits input := rfl
    have hread := h.2 pos b (Or.inl (by omega))
    rw [List.length_cons, toeplitzHash, List.head?_cons, hbits, toeplitzFrom_append, length_byteBits,
      ← BitVec.xor_assoc]
    change (cache[pos * (255 + 1) + b.toNat]?.bind fun w => _) = _
    rw [hread, Option.bind_some, List.tail_cons, ih (by omega)]
    rfl

theorem toeplitzHash_zero (h : Filled key SFXGE_TOEPLITZ_IN_MAX 0 cache) (input : Bytes) (pos : ℕ)
    (hpos : pos + input.length ≤ SFXGE_TOEPLITZ_IN_MAX) :
    toeplitzHash cache input pos input.length 0 = some (toeplitzFrom (bitAt key) 32 (8 * pos) (bits input)) := by
  rw [toeplitzHash_eq h hpos, show (0 : U32) = 0#32 from rfl, BitVec.zero_xor]

theorem toeplitz_split (k : ℕ → Bool) (as bs : Bytes) (pos : ℕ) :
    toeplitzFrom k 32 (8 * pos) (bits (as ++ bs)) =
      toeplitzFrom k 32 (8 * pos) (bits as) ^^^ toeplitzFrom k 32 (8 * (pos + as.length)) (bits bs) := by
  rw [bits_append, toeplitzFrom_append, length_bits, Nat.mul_add]

/-- **Cached Toeplitz hash.**  From every key the table is built, and with it the hash of every input of at
most 36 bytes, in particular of addresses and ports, is the Toeplitz hash of its bits. -/
theorem toeplitz_cached (hkey : key.length = SFXGE_TOEPLITZ_KEY_LEN) (hcache : cache.length = SFXGE_TOEPLITZ_CACHE_SIZE) :
    ∃ cache', toeplitzCacheInit key cache = some cache' ∧
      (∀ input : Bytes, input.length ≤ SFXGE_TOEPLITZ_IN_MAX →
        toeplitzHash cache' input 0 input.length 0 = some (toeplitz (bitAt key) 32 (bits input))) ∧
      ∀ (srcAddr dstAddr : Bytes) (srcPort dstPort : ℕ), srcAddr.length = dstAddr.length →
        2 * (srcAddr.length + 2) ≤ SFXGE_TOEPLITZ_IN_MAX →
        sfxgeToeplitzHash cache' srcAddr.length srcAddr srcPort dstAddr dstPort =
          some (toeplitz (bitAt key) 32 (bits (srcAddr ++ dstAddr ++ le 2 srcPort ++ le 2 dstPort))) := by
  obtain ⟨cache', hrun, hfilled⟩ := toeplitzCacheInit_filled hkey hcache
  refine ⟨cache', hrun, fun input hlen => ?_, fun src dst sp dp hlen hmax => ?_⟩
  · rw [toeplitzHash_zero hfilled input 0 (by omega)]
    rfl
  · have hsrc := toeplitzHash_zero hfilled src 0 (by omega)
    have hdst := toeplitzHash_zero hfilled dst src.length (by omega)
    have hsp := toeplitzHash_zero hfilled (le 2 sp) (src.length + src.length) (by rw [length_le]; omega)
    have hdp := toeplitzHash_zero hfilled (le 2 dp) (src.length + src.length + 2) (by rw [length_le]; omega)
    rw [← hlen] at hdst
    rw [length_le] at hsp hdp
    have htotal : toeplitz (bitAt key) 32 (bits (src ++ dst ++ le 2 sp ++ le 2 dp)) =
        toeplitzFrom (bitAt key) 32 (8 * 0) (bits src) ^^^ toeplitzFrom (bitAt key) 32 (8 * src.length) (bits dst) ^^^
          toeplitzFrom (bitAt key) 32 (8 * (src.length + src.length)) (bits (le 2 sp)) ^^^
          toeplitzFrom (bitAt key) 32 (8 * (src.length + src.length + 2)) (bits (le 2 dp)) := by
      have h0 : toeplitz (bitAt key) 32 (bits (src ++ dst ++ le 2 sp ++ le 2 dp)) =
        toeplitzFrom (bitAt key) 32 (8 * 0) (bits (src ++ dst ++ le 2 sp ++ le 2 dp)) := rfl
      rw [h0, toeplitz_split, toeplitz_split, toeplitz_split]
      simp only [List.length_append, length_le, Nat.zero_add, ← hlen]
    rw [htotal, sfxgeToeplitzHash, hsrc, Option.bind_eq_bind, Option.bind_some, hdst]
    simp only [Option.bind_some, hsp, hdp]
    split_ifs with hports
    · rfl
    · rw [not_or, not_not, not_not] at hports
      obtain ⟨rfl, rfl⟩ := hports
      have hzero : ∀ i, toeplitzFrom (bitAt key) 32 i (bits (le 2 0)) = 0#32 := fun i =>
        toeplitzFrom_false _ (by decide)
      rw [hzero, hzero, BitVec.xor_zero, BitVec.xor_zero]

def sampleKey : Bytes :=
  [0x6d, 0x5a, 0x56, 0xda, 0x25, 0x5b, 0x0e, 0xc2, 0x41, 0x67, 0x25, 0x3d, 0x43, 0xa3, 0x8f, 0xb0, 0xd0, 0xca,
    0x2b, 0xcb, 0xae, 0x7b, 0x30, 0xb4, 0x77, 0xcb, 0x2d, 0xa3, 0x80, 0x30, 0xf2, 0x0c, 0x6a, 0x42, 0xb7, 0x3b,
    0xbe, 0xac, 0x01, 0xfa]

/-- The connection from 66.9.149.187, port 2794, to 161.142.100.80, port 1766. -/
def sampleInput : Bytes := [66, 9, 149, 187, 161, 142, 100, 80, 0x0a, 0xea, 0x06, 0xe6]

theorem toeplitz_sample : ∃ cache, toeplitzCacheInit sampleKey (List.replicate SFXGE_TOEPLITZ_CACHE_SIZE 0) = some cache ∧
    toeplitzHash cache sampleInput 0 12 0 = some 0x51ccc178 := by
  obtain ⟨cache, hrun, hhash, -⟩ := @toeplitz_cached sampleKey _ rfl
    (List.length_replicate (n := SFXGE_TOEPLITZ_CACHE_SIZE) (a := (0 : U32)))
  have hval : toeplitz (bitAt sampleKey) 32 (bits sampleInput) = 0x51ccc178 := by decide +kernel
  exact ⟨cache, hrun, by rw [← hval]; exact hhash sampleInput (by decide)⟩

end Sfxge.Rx
