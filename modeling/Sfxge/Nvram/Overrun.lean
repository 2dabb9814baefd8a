import Sfxge.Nvram.Segments
import Sfxge.Tlv.Check
import Sfxge.Tlv.Length

/-!
# Nvram.Overrun — where the segments of a partition are stored

`ef10_nvram_partn_write_segment_tlv` reads each segment to where the segments before it end after their rewrite,
and bounds the read by what the partition has left behind them before it.  `segmentStores` are the byte ranges
of the buffer that one such read stores.
-/

namespace Sfxge.Nvram.Ef10

open Lib Lib.Prog Tlv

/-! ### Ranges that lie one behind the other -/

/-- Each range begins where the one before it ends, the first at `p`, and none is empty. -/
def Consecutive : ℕ → List (ℕ × ℕ) → Prop
  | _, [] => True
  | p, b :: bs => b.1 = p ∧ 0 < b.2 ∧ Consecutive (p + b.2) bs

/-- The bytes of the ranges together. -/
def total (bs : List (ℕ × ℕ)) : ℕ := (bs.map Prod.snd).sum

@[simp] theorem total_nil : total [] = 0 := rfl

@[simp] theorem total_cons (b : ℕ × ℕ) (bs : List (ℕ × ℕ)) : total (b :: bs) = b.2 + total bs := rfl

/-- Consecutive ranges lie below `n` if and only if there is none or their last byte does. -/
theorem Consecutive.inside_iff {bs : List (ℕ × ℕ)} {p n : ℕ} (h : Consecutive p bs) :
    (∀ b ∈ bs, b.1 + b.2 ≤ n) ↔ (total bs ≠ 0 → p + total bs ≤ n) := by
  induction bs generalizing p with
  | nil => simp
  | cons b bs ih =>
    obtain ⟨h1, h2, h3⟩ := h
    rw [List.forall_mem_cons, ih h3, total_cons, h1]
    constructor
    · rintro ⟨hb, hbs⟩ -
      by_cases h0 : total bs = 0
      · omega
      · have := hbs h0
        omega
    · intro hall
      have := hall (by omega)
      exact ⟨by omega, fun _ => by omega⟩

theorem Consecutive.map_add {bs : List (ℕ × ℕ)} {p : ℕ} (h : Consecutive p bs) (base : ℕ) :
    Consecutive (base + p) (bs.map fun b => (base + b.1, b.2)) := by
  induction bs generalizing p with
  | nil => trivial
  | cons b bs ih =>
    obtain ⟨h1, h2, h3⟩ := h
    refine ⟨congrArg (base + ·) h1, h2, ?_⟩
    rw [Nat.add_assoc]
    exact ih h3

theorem total_map_add (bs : List (ℕ × ℕ)) (base : ℕ) : total (bs.map fun b => (base + b.1, b.2)) = total bs := by
  rw [total, List.map_map]
  rfl

/-- The chunks of a read lie one behind the other. -/
theorem consecutive_chunksOf {step : ℕ} (hstep : 0 < step) (size : ℕ) : Consecutive 0 (chunksOf step size) := by
  have hgen : ∀ n k, k * step + n * step < size + step →
      Consecutive (k * step) ((List.range' k n).map fun i => (i * step, min step (size - i * step))) := by
    intro n
    induction n with
    | zero => intro k _; trivial
    | succ n ih =>
      intro k hk
      rw [Nat.add_mul, Nat.one_mul] at hk
      refine ⟨rfl, by dsimp only; omega, ?_⟩
      rcases Nat.eq_zero_or_pos n with rfl | hn
      · trivial
      · have hnk : step ≤ n * step := Nat.le_mul_of_pos_left step hn
        have hmin : min step (size - k * step) = step := by omega
        dsimp only
        rw [hmin, ← Nat.succ_mul]
        exact ih (k + 1) (by rw [Nat.add_mul, Nat.one_mul]; omega)
  have hdiv : (size + step - 1) / step * step ≤ size + step - 1 := Nat.div_mul_le_self _ _
  have h := hgen ((size + step - 1) / step) 0 (by omega)
  rwa [Nat.zero_mul, ← List.range_eq_range'] at h

/-! ### What a read of a partition stores -/

/-- The chunks that the NVRAM answers, the next command being the `k`-th: all up to the first one that fails or
lies outside the partition. -/
def answered (h : Host Flash) (offset : ℕ) : ℕ → List (ℕ × ℕ) → List (ℕ × ℕ)
  | _, [] => []
  | k, b :: bs =>
    if h.fails k = none ∧ offset + b.1 + b.2 ≤ h.content.bytes.length then b :: answered h offset (k + 1) bs
    else []

/-- The byte ranges of the buffer that `ef10_nvram_partn_read_mode` stores. -/
def readStores (h : Host Flash) (offset base size : ℕ) : List (ℕ × ℕ) :=
  (answered h offset h.count (chunksOf ef10Chunk size)).map fun b => (base + b.1, b.2)

/-- The initial chunk of a segment with its header item. -/
def segmentHead (segOffset base maxSize : ℕ) : Cmd Flash (TlvCursor × ℕ) := do
  partnRead segOffset base ef10Chunk
  onBuf (headerItem base maxSize)

/-- The byte ranges of the buffer that `ef10_nvram_read_tlv_segment` stores: the initial chunk, and the
remainder of the segment when its header is good. -/
def segmentStores (h : Host Flash) (segOffset base maxSize : ℕ) : List (ℕ × ℕ) :=
  if maxSize = 0 then []
  else readStores h segOffset base ef10Chunk ++
    match segmentHead segOffset base maxSize h with
    | .ret (_, totalLength) h1 =>
      if totalLength > ef10Chunk then
        readStores h1 (segOffset + ef10Chunk) (base + ef10Chunk) (totalLength - ef10Chunk)
      else []
    | _ => []

/-! ### What the NVRAM brings -/

/-- The bytes that a read of `size` bytes brings. -/
def readBytes (h : Host Flash) (k offset size : ℕ) : ℕ := total (answered h offset k (chunksOf ef10Chunk size))

instance (m : Bytes) (base size : ℕ) : Decidable (HasHeader m base size) :=
  decidable_of_iff (Valid m (startCursor base size) ∧ u32 m base = TLV_TAG_PARTITION_HEADER)
    ⟨fun h => ⟨h.1, h.2⟩, fun h => ⟨h.1, h.2⟩⟩

/-- The header of the segment at `offset` of the partition is good and says more than one chunk. -/
def LongSegment (bytes : Bytes) (offset maxSize : ℕ) : Prop :=
  HasHeader bytes offset maxSize ∧ ef10Chunk < u32 bytes (offset + headerTotalLength) ∧
    u32 bytes (offset + headerTotalLength) ≤ maxSize

instance (bytes : Bytes) (offset maxSize : ℕ) : Decidable (LongSegment bytes offset maxSize) :=
  inferInstanceAs (Decidable (_ ∧ _))

/-- The bytes that reading the segment at `offset` brings, by what the partition holds there. -/
def segmentBytes (h : Host Flash) (offset maxSize : ℕ) : ℕ :=
  if maxSize = 0 then 0
  else readBytes h h.count offset ef10Chunk +
    if readBytes h h.count offset ef10Chunk ≠ 0 ∧ LongSegment h.content.bytes offset maxSize then
      readBytes h (h.count + 1) (offset + ef10Chunk) (u32 h.content.bytes (offset + headerTotalLength) - ef10Chunk)
    else 0

/-! ### One read -/

variable {h : Host Flash} {segOffset base maxSize : ℕ}

theorem answered_congr (h h1 : Host Flash) (hf : h1.fails = h.fails) (hb : h1.content.bytes = h.content.bytes)
    (offset k : ℕ) (bs : List (ℕ × ℕ)) : answered h1 offset k bs = answered h offset k bs := by
  induction bs generalizing k with
  | nil => rfl
  | cons b bs ih => rw [answered, answered, hf, hb, ih]

theorem answered_consecutive {offset p : ℕ} {bs : List (ℕ × ℕ)} (hc : Consecutive p bs) (k : ℕ) :
    Consecutive p (answered h offset k bs) := by
  induction bs generalizing p k with
  | nil => trivial
  | cons b bs ih =>
    obtain ⟨h1, h2, h3⟩ := hc
    rw [answered]
    split_ifs
    · exact ⟨h1, h2, ih h3 (k + 1)⟩
    · trivial

theorem answered_inside {offset k : ℕ} {bs : List (ℕ × ℕ)} :
    ∀ b ∈ answered h offset k bs, offset + b.1 + b.2 ≤ h.content.bytes.length := by
  induction bs generalizing k with
  | nil => exact nofun
  | cons b bs ih =>
    rw [answered]
    split_ifs with hb
    · exact List.forall_mem_cons.mpr ⟨hb.2, ih⟩
    · exact nofun

/-- One command of a read: it is answered or not, and its bytes have room or not. -/
theorem nvramRead_err {offset size : ℕ}
    (hno : ¬ (h.fails h.count = none ∧ offset + size ≤ h.content.bytes.length)) :
    ∃ e h', nvramRead offset base size h = .err e h' := by
  rw [nvramRead]
  cases hf : h.fails h.count with
  | some e => exact ⟨e, h.tick, bind_of_err (command_of_fail hf)⟩
  | none =>
    have hout : ¬ offset + size ≤ h.tick.content.bytes.length := fun hin => hno ⟨hf, hin⟩
    rw [bind_of_ret (command_of_ok hf), bind_of_ret (content_apply _)]
    exact ⟨_, _, bind_of_err (ensure_neg hout)⟩

/-- The host when a read of `size` bytes at `offset` has been stored at `base`. -/
def stored (h : Host Flash) (offset base size : ℕ) : Host Flash :=
  h.tick.setContent (h.content.setBuf (splice h.content.buf base (slice h.content.bytes offset size)))

theorem nvramRead_answered {offset size : ℕ} (hf : h.fails h.count = none)
    (hin : offset + size ≤ h.content.bytes.length) :
    nvramRead offset base size h = onBuf (store (base : ℤ) (slice h.content.bytes offset size)) h.tick := by
  have hin' : offset + size ≤ h.tick.content.bytes.length := hin
  rw [nvramRead, bind_of_ret (command_of_ok hf), bind_of_ret (content_apply _), bind_of_ret (ensure_pos hin')]
  rfl

theorem nvramRead_ret {offset size : ℕ} (hf : h.fails h.count = none)
    (hin : offset + size ≤ h.content.bytes.length) (hroom : base + size ≤ h.content.buf.length) :
    nvramRead offset base size h = .ret () (stored h offset base size) := by
  rw [nvramRead_answered hf hin]
  exact zoom_of_ret (store_of_le (by rwa [length_slice hin]))

theorem nvramRead_fault {offset size : ℕ} (hf : h.fails h.count = none)
    (hin : offset + size ≤ h.content.bytes.length) (hsize : 0 < size) (hroom : h.content.buf.length < base + size) :
    nvramRead offset base size h = .fault := by
  have hlen := length_slice hin
  have hne : slice h.content.bytes offset size ≠ [] := fun h0 => by
    rw [h0] at hlen
    exact hsize.ne hlen
  have hstore : (store (base : ℤ) (slice h.content.bytes offset size) : BufProg Unit) h.tick.content.buf = .fault :=
    store_of_gt hne (by rw [hlen]; exact hroom)
  rw [nvramRead_answered hf hin, onBuf, zoom, hstore]

/-- **Where a partition read leaves the buffer.**  The read goes outside the buffer exactly when one of the ranges
it stores does. -/
theorem partnRead_fault_iff (offset base size : ℕ) :
    partnRead offset base size h = .fault ↔
      ¬ ∀ r ∈ readStores h offset base size, r.1 + r.2 ≤ h.content.buf.length := by
  have hgen : ∀ (bs : List (ℕ × ℕ)) (p : ℕ) (h : Host Flash), Consecutive p bs →
      (forEach (fun b => nvramRead (offset + b.1) (base + b.1) b.2) bs h = .fault ↔
        ¬ ∀ b ∈ answered h offset h.count bs, base + b.1 + b.2 ≤ h.content.buf.length) := by
    intro bs
    induction bs with
    | nil =>
      intro p h _
      rw [forEach, answered]
      exact iff_of_false (by simp) (by simp)
    | cons b bs ih =>
      rintro p h ⟨-, h2, h3⟩
      rw [forEach, answered]
      by_cases hans : h.fails h.count = none ∧ offset + b.1 + b.2 ≤ h.content.bytes.length
      swap
      · obtain ⟨e, h', herr⟩ := nvramRead_err hans
        rw [bind_of_err herr, if_neg hans]
        exact iff_of_false (by simp) (by simp)
      rw [if_pos hans, List.forall_mem_cons]
      by_cases hroom : base + b.1 + b.2 ≤ h.content.buf.length
      swap
      · rw [bind_of_fault (nvramRead_fault hans.1 hans.2 h2 (Nat.not_le.mp hroom))]
        exact iff_of_true rfl fun hall => hroom hall.1
      · have hlen : (stored h (offset + b.1) (base + b.1) b.2).content.buf.length = h.content.buf.length :=
          length_splice (by rwa [length_slice hans.2])
        have hrest : answered (stored h (offset + b.1) (base + b.1) b.2) offset
            (stored h (offset + b.1) (base + b.1) b.2).count bs = answered h offset (h.count + 1) bs :=
          answered_congr h (stored h (offset + b.1) (base + b.1) b.2) rfl rfl offset (h.count + 1) bs
        rw [bind_of_ret (nvramRead_ret hans.1 hans.2 hroom), ih _ _ h3, hlen, hrest]
        exact not_congr ⟨fun hall => ⟨hroom, hall⟩, fun hall => hall.2⟩
  rw [partnRead, hgen _ 0 h (consecutive_chunksOf (by decide) _), readStores, List.forall_mem_map]

/-! ### The head of a segment -/

/-- A cursor at an item whose first two words are there. -/
theorem tlvValidateState_of_words {m : Bytes} {c : TlvCursor} (h8 : c.current + 8 ≤ m.length) :
    (Valid m c → tlvValidateState c m = .ret () m) ∧ (¬ Valid m c → ∃ e, tlvValidateState c m = .err e m) := by
  have htag := tlvTag_ret (m := m) (c := c) (by omega)
  have hnext := tlvNextItemPtr_ret (m := m) (c := c) (by omega) fun _ => h8
  rw [tlvValidateState]
  by_cases h1 : c.block ≤ c.current
  swap
  · exact ⟨fun hv => absurd hv.block_le h1, fun _ => ⟨_, bind_of_err (ensure_neg h1)⟩⟩
  rw [bind_of_ret (ensure_pos h1)]
  by_cases h2 : (c.current : ℤ) ≤ c.limit
  swap
  · exact ⟨fun hv => absurd hv.le_limit h2, fun _ => ⟨_, bind_of_err (ensure_neg h2)⟩⟩
  rw [bind_of_ret (ensure_pos h2), bind_of_ret htag]
  by_cases hend : u32 m c.current = TLV_TAG_END
  · rw [if_neg (by simpa using hend)]
    exact ⟨fun _ => rfl, fun hv => absurd ⟨h1, h2, fun h' => absurd hend h'⟩ hv⟩
  rw [if_pos hend]
  by_cases h3 : (c.current : ℤ) ≤ c.limit - 8
  swap
  · exact ⟨fun hv => absurd (hv.item hend).1 h3, fun _ => ⟨_, bind_of_err (ensure_neg h3)⟩⟩
  rw [bind_of_ret (ensure_pos h3), bind_of_ret hnext]
  by_cases h4 : (nextPos m c.current : ℤ) ≤ c.limit - 4
  · exact ⟨fun _ => ensure_pos h4, fun hv => absurd ⟨h1, h2, fun _ => ⟨h3, h4⟩⟩ hv⟩
  · exact ⟨fun hv => absurd (hv.item hend).2 h4, fun _ => ⟨_, ensure_neg h4⟩⟩

/-- The header item in a buffer that holds its struct, wherever the block is said to end. -/
theorem headerItem_of_struct {m : Bytes} (h20 : base + headerSize ≤ m.length) :
    (HasHeader m base maxSize → u32 m (base + headerTotalLength) ≤ maxSize →
      headerItem base maxSize m = .ret (startCursor base maxSize, u32 m (base + headerTotalLength)) m) ∧
    (¬ (HasHeader m base maxSize ∧ u32 m (base + headerTotalLength) ≤ maxSize) →
      ∃ e, headerItem base maxSize m = .err e m) := by
  have h20' : base + 20 ≤ m.length := h20
  obtain ⟨hvalid, hbad⟩ := tlvValidateState_of_words (m := m) (c := startCursor base maxSize)
    (show base + 8 ≤ m.length by omega)
  have hload : (loadU32 ((base + headerTotalLength : ℕ) : ℤ) : BufProg ℕ) m =
      .ret (u32 m (base + headerTotalLength)) m := loadU32_of_le h20
  have htag : tlvTag (startCursor base maxSize) m = .ret (u32 m base) m :=
    tlvTag_ret (show base + 4 ≤ m.length by omega)
  have hinit : Valid m (startCursor base maxSize) →
      orFail (tlvInitCursorFromSize base maxSize) Errno.EFAULT m = .ret (startCursor base maxSize) m :=
    fun hv => orFail_of_ret _ (by
      rw [tlvInitCursorFromSize, tlvInitCursor]
      exact bind_of_ret (hvalid hv))
  rw [headerItem]
  constructor
  · intro hh hn
    rw [bind_of_ret (hinit hh.valid), bind_of_ret htag, bind_of_ret (ensure_pos hh.tag), bind_of_ret hload,
      bind_of_ret (ensure_pos (Nat.not_lt.mpr hn))]
    rfl
  · intro hno
    by_cases hv : Valid m (startCursor base maxSize)
    swap
    · obtain ⟨e, he⟩ := hbad hv
      exact ⟨_, bind_of_err (orFail_of_err _ (bind_of_err he))⟩
    rw [bind_of_ret (hinit hv), bind_of_ret htag]
    by_cases ht : u32 m base = TLV_TAG_PARTITION_HEADER
    swap
    · exact ⟨_, bind_of_err (ensure_neg ht)⟩
    rw [bind_of_ret (ensure_pos ht), bind_of_ret hload]
    exact ⟨_, bind_of_err (ensure_neg fun hn => hno ⟨⟨hv, ht⟩, Nat.not_lt.mp hn⟩)⟩

/-- A good header is good wherever its first words are. -/
theorem hasHeader_congr {m m' : Bytes} {base' : ℕ} (h0 : u32 m base = u32 m' base')
    (h4 : u32 m (base + 4) = u32 m' (base' + 4)) : HasHeader m base maxSize ↔ HasHeader m' base' maxSize := by
  have hvalid : ∀ (m : Bytes) (base : ℕ), u32 m base = TLV_TAG_PARTITION_HEADER →
      (Valid m (startCursor base maxSize) ↔ 8 + 4 * ((u32 m (base + 4) + 3) / 4) + 8 ≤ maxSize) := by
    intro m base ht
    have hne : u32 m base ≠ TLV_TAG_END := by rw [ht]; decide
    have hnext : nextPos m base = base + 8 + 4 * ((u32 m (base + 4) + 3) / 4) := by
      rw [nextPos, if_neg hne, tlvDwordCount]
      omega
    rw [valid_iff]
    simp only [startCursor_block, startCursor_current, startCursor_limit, hnext]
    constructor
    · rintro ⟨-, -, h3⟩
      have := (h3 hne).2
      omega
    · exact fun hle => ⟨le_rfl, by omega, fun _ => ⟨by omega, by omega⟩⟩
  constructor
  · rintro ⟨hv, ht⟩
    have ht' := h0 ▸ ht
    exact ⟨(hvalid m' base' ht').mpr (h4 ▸ (hvalid m base ht).mp hv), ht'⟩
  · rintro ⟨hv, ht⟩
    have ht' := h0.symm ▸ ht
    exact ⟨(hvalid m base ht').mpr (h4.symm ▸ (hvalid m' base' ht).mp hv), ht'⟩

/-- A word of what has been stored. -/
theorem stored_u32 {offset size k : ℕ} (hin : offset + size ≤ h.content.bytes.length)
    (hroom : base + size ≤ h.content.buf.length) (hk : k + 4 ≤ size) :
    u32 (stored h offset base size).content.buf (base + k) = u32 h.content.bytes (offset + k) := by
  have hlen := length_slice hin
  have hat : At (splice h.content.buf base (slice h.content.bytes offset size)) base
      (slice h.content.bytes offset size) := At.of_splice (by rwa [hlen])
  have h1 := hat.slice_sub (q := k) (n := 4) (by rwa [hlen])
  rw [slice_slice hk] at h1
  exact congrArg ofLe h1

/-! ### What the read of a segment stores -/

theorem chunksOf_chunk : chunksOf ef10Chunk ef10Chunk = [(0, ef10Chunk)] := by decide

/-- The initial chunk is answered. -/
def HeadAnswered (h : Host Flash) (offset : ℕ) : Prop :=
  h.fails h.count = none ∧ offset + ef10Chunk ≤ h.content.bytes.length

instance (h : Host Flash) (offset : ℕ) : Decidable (HeadAnswered h offset) := inferInstanceAs (Decidable (_ ∧ _))

theorem answered_chunk (h : Host Flash) (offset : ℕ) : answered h offset h.count (chunksOf ef10Chunk ef10Chunk) =
    if HeadAnswered h offset then [(0, ef10Chunk)] else [] := by
  rw [chunksOf_chunk]
  rfl

theorem readBytes_chunk (h : Host Flash) (offset : ℕ) : readBytes h h.count offset ef10Chunk =
    if HeadAnswered h offset then ef10Chunk else 0 := by
  rw [readBytes, answered_chunk]
  split_ifs <;> rfl

theorem readStores_chunk (h : Host Flash) (offset base : ℕ) : readStores h offset base ef10Chunk =
    if HeadAnswered h offset then [(base, ef10Chunk)] else [] := by
  rw [readStores, answered_chunk]
  split_ifs <;> rfl

theorem partnRead_chunk (offset base : ℕ) : partnRead offset base ef10Chunk = nvramRead offset base ef10Chunk := by
  rw [partnRead, chunksOf_chunk]
  funext h
  change (nvramRead offset base ef10Chunk h).bind _ = _
  cases nvramRead offset base ef10Chunk h <;> rfl

theorem total_readStores (h : Host Flash) (offset base size : ℕ) :
    total (readStores h offset base size) = readBytes h h.count offset size := total_map_add _ _

theorem readStores_consecutive (h : Host Flash) (offset base size : ℕ) :
    Consecutive base (readStores h offset base size) :=
  (answered_consecutive (consecutive_chunksOf (by decide) size) h.count).map_add base

/-- What is stored of a segment whose initial chunk has been answered, where that chunk has room. -/
theorem segmentStores_stored (hmax : maxSize ≠ 0) (ha : HeadAnswered h segOffset)
    (hroom : base + ef10Chunk ≤ h.content.buf.length) :
    segmentStores h segOffset base maxSize = (base, ef10Chunk) ::
      if LongSegment h.content.bytes segOffset maxSize then
        readStores (stored h segOffset base ef10Chunk) (segOffset + ef10Chunk) (base + ef10Chunk)
          (u32 h.content.bytes (segOffset + headerTotalLength) - ef10Chunk)
      else [] := by
  have hword : ∀ k, k + 4 ≤ ef10Chunk → u32 (stored h segOffset base ef10Chunk).content.buf (base + k) =
      u32 h.content.bytes (segOffset + k) := fun k hk => stored_u32 ha.2 hroom hk
  have hlen : (stored h segOffset base ef10Chunk).content.buf.length = h.content.buf.length :=
    length_splice (by rwa [length_slice ha.2])
  have htotal := hword headerTotalLength (by decide)
  have hhead : HasHeader (stored h segOffset base ef10Chunk).content.buf base maxSize ↔
      HasHeader h.content.bytes segOffset maxSize := hasHeader_congr (hword 0 (by decide)) (hword 4 (by decide))
  have hstruct : base + headerSize ≤ (stored h segOffset base ef10Chunk).content.buf.length := by
    rw [hlen]
    exact le_trans (Nat.add_le_add_left (by decide) base) hroom
  obtain ⟨hret, herr⟩ := headerItem_of_struct hstruct
  have hread : partnRead segOffset base ef10Chunk h = .ret () (stored h segOffset base ef10Chunk) := by
    rw [partnRead_chunk]
    exact nvramRead_ret ha.1 ha.2 hroom
  rw [htotal] at hret herr
  rw [segmentStores, if_neg hmax, readStores_chunk, if_pos ha, segmentHead, bind_of_ret hread]
  by_cases hgood : HasHeader (stored h segOffset base ef10Chunk).content.buf base maxSize ∧
      u32 h.content.bytes (segOffset + headerTotalLength) ≤ maxSize
  · have hitem : onBuf (headerItem base maxSize) (stored h segOffset base ef10Chunk) =
        .ret (startCursor base maxSize, u32 h.content.bytes (segOffset + headerTotalLength))
          (stored h segOffset base ef10Chunk) := zoom_of_ret (hret hgood.1 hgood.2)
    rw [hitem]
    refine congrArg ((base, ef10Chunk) :: ·) (if_congr ?_ rfl rfl)
    exact ⟨fun hlt => ⟨hhead.mp hgood.1, hlt, hgood.2⟩, fun hl => hl.2.1⟩
  · obtain ⟨e, he⟩ := herr hgood
    have hitem : onBuf (headerItem base maxSize) (stored h segOffset base ef10Chunk) =
        .err e (stored h segOffset base ef10Chunk) := zoom_of_err he
    rw [hitem, if_neg fun hl => hgood ⟨hhead.mpr hl.1, hl.2.2⟩]
    rfl

/-- **One read.**  What reading a segment stores lies in the buffer if and only if the bytes that the NVRAM brings,
if any, fit behind the place they go to. -/
theorem segmentStores_inside_iff (h : Host Flash) (segOffset base maxSize : ℕ) :
    (∀ r ∈ segmentStores h segOffset base maxSize, r.1 + r.2 ≤ h.content.buf.length) ↔
      (segmentBytes h segOffset maxSize ≠ 0 → base + segmentBytes h segOffset maxSize ≤ h.content.buf.length) := by
  have hpos : ef10Chunk ≠ 0 := by decide
  by_cases hmax : maxSize = 0
  · rw [segmentStores, segmentBytes, if_pos hmax, if_pos hmax]
    exact iff_of_true nofun fun h0 => absurd rfl h0
  by_cases ha : HeadAnswered h segOffset
  swap
  · -- nothing is stored when the initial chunk is not answered
    obtain ⟨e, h', herr⟩ : ∃ e h', nvramRead segOffset base ef10Chunk h = .err e h' := nvramRead_err ha
    rw [← partnRead_chunk] at herr
    rw [segmentStores, segmentBytes, if_neg hmax, if_neg hmax, readStores_chunk, readBytes_chunk, if_neg ha, if_neg ha,
      segmentHead, bind_of_err herr, if_neg fun hn => hn.1 rfl]
    exact iff_of_true nofun fun h0 => absurd rfl h0
  have hbytes : segmentBytes h segOffset maxSize = ef10Chunk +
      if LongSegment h.content.bytes segOffset maxSize then
        readBytes h (h.count + 1) (segOffset + ef10Chunk)
          (u32 h.content.bytes (segOffset + headerTotalLength) - ef10Chunk)
      else 0 := by
    rw [segmentBytes, if_neg hmax, readBytes_chunk, if_pos ha]
    exact congrArg (ef10Chunk + ·) (if_congr (and_iff_right hpos) rfl rfl)
  by_cases hroom : base + ef10Chunk ≤ h.content.buf.length
  swap
  · -- the initial chunk itself goes outside
    refine iff_of_false (fun hall => hroom (hall (base, ef10Chunk) ?_)) fun hall => ?_
    · rw [segmentStores, if_neg hmax, readStores_chunk, if_pos ha]
      exact List.mem_cons_self
    · rw [hbytes] at hall
      have := hall (by omega)
      omega
  have hstores := segmentStores_stored hmax ha hroom
  have hcons : Consecutive base (segmentStores h segOffset base maxSize) := by
    rw [hstores]
    refine ⟨rfl, Nat.pos_of_ne_zero hpos, ?_⟩
    split_ifs
    · exact readStores_consecutive _ _ _ _
    · trivial
  have htotal : total (segmentStores h segOffset base maxSize) = segmentBytes h segOffset maxSize := by
    rw [hstores, hbytes, total_cons]
    refine congrArg (ef10Chunk + ·) ?_
    split_ifs
    · rw [total_readStores, readBytes, answered_congr h (stored h segOffset base ef10Chunk) rfl rfl]
      rfl
    · rfl
  rw [hcons.inside_iff, htotal]

/-- The NVRAM brings nothing from behind the partition. -/
theorem segmentBytes_le (h : Host Flash) (offset maxSize : ℕ) (h0 : segmentBytes h offset maxSize ≠ 0) :
    offset + segmentBytes h offset maxSize ≤ h.content.bytes.length := by
  have hread : ∀ k offset size, readBytes h k offset size ≠ 0 →
      offset + readBytes h k offset size ≤ h.content.bytes.length := by
    intro k offset size
    have hc : Consecutive (offset + 0)
        ((answered h offset k (chunksOf ef10Chunk size)).map fun b => (offset + b.1, b.2)) :=
      (answered_consecutive (consecutive_chunksOf (by decide) size) k).map_add offset
    have hin := hc.inside_iff.mp (List.forall_mem_map.mpr answered_inside)
    rwa [total_map_add] at hin
  unfold segmentBytes at h0 ⊢
  by_cases hmax : maxSize = 0
  · rw [if_pos hmax] at h0
    exact absurd rfl h0
  rw [if_neg hmax] at h0 ⊢
  by_cases hfirst : readBytes h h.count offset ef10Chunk = 0
  · rw [if_neg fun hn => hn.1 hfirst, hfirst] at h0
    exact absurd rfl h0
  have hchunk : readBytes h h.count offset ef10Chunk = ef10Chunk := by
    rw [readBytes_chunk] at hfirst ⊢
    split_ifs at hfirst ⊢
    · rfl
    · exact absurd rfl hfirst
  have h1 := hread h.count offset ef10Chunk hfirst
  split_ifs with hlong
  · by_cases h2 : readBytes h (h.count + 1) (offset + ef10Chunk)
        (u32 h.content.bytes (offset + headerTotalLength) - ef10Chunk) = 0
    · rwa [h2, Nat.add_zero]
    · have := hread _ _ _ h2
      omega
  · rwa [Nat.add_zero]

/-! ### What the rounds keep -/

/-- The partition, the answers of the NVRAM and the length of the buffer. -/
def setting (h : Host Flash) : Bytes × (ℕ → Option Errno) × ℕ := (h.content.bytes, h.fails, h.content.buf.length)

/-- All but the bytes in the buffer, the commands counted and the locks. -/
def besides (h : Host Flash) : Flash × (ℕ → Option Errno) × ℕ :=
  (h.content.setBuf [], h.fails, h.content.buf.length)

theorem setting_of_besides {α : Type} {p : Cmd Flash α} (hp : p.Frames besides) : p.Frames setting := fun h h' hr =>
  congrArg (fun u => (u.1.bytes, u.2.1, u.2.2)) (hp h h' hr)

theorem besides_command : (command : Cmd Flash Unit).Frames besides := by
  intro h h' hr
  unfold command at hr
  split at hr <;> cases hr <;> rfl

theorem besides_content : (content : Cmd Flash Flash).Frames besides := by
  intro h h' hr
  cases hr
  rfl

theorem besides_onBuf {α : Type} {p : BufProg α} (hp : p.Frames List.length) : (onBuf p).Frames besides := by
  intro h h' hr
  unfold onBuf zoom at hr
  have hlen := hp h.content.buf
  cases hb : p h.content.buf with
  | ret a b =>
    rw [hb] at hr hlen
    cases hr
    exact congrArg (fun n => (h.content.setBuf [], h.fails, n)) (hlen b rfl)
  | err e b =>
    rw [hb] at hr hlen
    cases hr
    exact congrArg (fun n => (h.content.setBuf [], h.fails, n)) (hlen b rfl)
  | fault => rw [hb] at hr; cases hr
  | spin => rw [hb] at hr; cases hr

theorem besides_partnRead (offset base size : ℕ) : (partnRead offset base size).Frames besides :=
  frames_forEach _ fun _ => frames_bind besides_command fun _ => frames_bind besides_content fun _ =>
    frames_bind (frames_ensure _ _) fun _ => besides_onBuf (frames_store _ _)

theorem besides_readTlvSegment (segOffset base maxSize : ℕ) : (readTlvSegment segOffset base maxSize).Frames besides :=
  frames_bind (frames_ensure _ _) fun _ => frames_bind (besides_partnRead _ _ _) fun _ =>
    frames_bind (besides_onBuf (frames_headerItem _ _)) fun _ =>
      frames_bind (frames_ite (besides_partnRead _ _ _) (frames_pure ())) fun _ =>
        frames_bind (besides_onBuf (frames_trailerItem _)) fun _ =>
          frames_bind (besides_onBuf (frames_checkGeneration _ _ _)) fun _ => besides_onBuf (frames_checkSum _ _)

theorem besides_segmentWriteTlv (tag : ℕ) (data : Bytes) (write : Bool) (p : Progress) :
    (segmentWriteTlv tag data write p).Frames besides :=
  frames_bind (frames_orFail _ (besides_readTlvSegment _ _ _)) fun _ =>
    frames_bind (frames_orFail _ (besides_onBuf (frames_ef10NvramBufSegmentSize _ _))) fun _ =>
      frames_ite
        (frames_bind (besides_onBuf (frames_ef10NvramBufWriteTlv _ _ _ _)) fun _ => frames_pure _)
        (frames_bind (frames_pure _) fun _ => frames_pure _)

theorem besides_segmentStep (tag : ℕ) (data : Bytes) (allSegments : Bool) (partnSize : ℕ) (p : Progress) :
    (segmentStep tag data allSegments partnSize p).Frames besides := by
  refine frames_bind (frames_attempt (besides_segmentWriteTlv _ _ _ p)) fun r => ?_
  cases r with
  | error e => exact frames_ite (frames_fail e) (frames_pure _)
  | ok q => exact frames_ite (frames_pure _) (frames_pure _)

theorem setting_segmentStep (tag : ℕ) (data : Bytes) (allSegments : Bool) (partnSize : ℕ) (p : Progress) :
    (segmentStep tag data allSegments partnSize p).Frames setting :=
  setting_of_besides (besides_segmentStep _ _ _ _ _)

/-- A round that goes on has moved past a segment, by its size before the rewrite in the partition and by its size
after it in the buffer. -/
theorem segmentStep_inr {tag : ℕ} {data : Bytes} {allSegments : Bool} {partnSize : ℕ} {p q : Progress} {h' : Host Flash}
    (hs : segmentStep tag data allSegments partnSize p h = .ret (.inr q) h') :
    ∃ original modified, q = ⟨p.segData + modified, p.currentOffset + original, p.remainingOriginal - original,
      p.remainingModified - modified⟩ := by
  obtain ⟨r, h1, hr, hk⟩ := bind_ret_inv hs
  rcases attempt_ret_inv hr with ⟨q', rfl, hq⟩ | ⟨e, rfl, -⟩
  swap
  · dsimp only at hk
    split_ifs at hk <;> cases hk
  have hqq : q' = q := by
    dsimp only at hk
    split_ifs at hk <;> cases hk
    rfl
  subst hqq
  obtain ⟨-, h2, -, hq⟩ := bind_ret_inv hq
  obtain ⟨original, h3, -, hq⟩ := bind_ret_inv hq
  dsimp only at hq
  split_ifs at hq
  · obtain ⟨modified, h4, -, hq⟩ := bind_ret_inv hq
    cases hq
    exact ⟨original, modified, rfl⟩
  · obtain ⟨modified, h4, -, hq⟩ := bind_ret_inv hq
    cases hq
    exact ⟨original, modified, rfl⟩

/-! ### The loop over the segments -/

/-- The host when the loop begins, with memory for the entire partition. -/
def allocated (h : Host Flash) : Host Flash :=
  h.setContent (h.content.setBuf (List.replicate h.content.bytes.length 0))

/-- The rounds of `ef10_nvram_partn_write_segment_tlv` on the partition of `h0`: the size of each segment passed
so far before its rewrite and after it, with the pointers and lengths and the host that the next round begins
with. -/
inductive Rewrites (tag : ℕ) (data : Bytes) (allSegments : Bool) (h0 : Host Flash) :
    List (ℕ × ℕ) → Progress → Host Flash → Prop
  | start : Rewrites tag data allSegments h0 [] ⟨0, 0, h0.content.bytes.length, h0.content.bytes.length⟩ (allocated h0)
  | next {sizes : List (ℕ × ℕ)} {p q : Progress} {h h' : Host Flash} : Rewrites tag data allSegments h0 sizes p h →
      segmentStep tag data allSegments h0.content.bytes.length p h = .ret (.inr q) h' →
      Rewrites tag data allSegments h0
        (sizes ++ [(q.currentOffset - p.currentOffset, q.segData - p.segData)]) q h'

/-- The length of the segments before their rewrite. -/
def originalLength (sizes : List (ℕ × ℕ)) : ℕ := (sizes.map Prod.fst).sum

/-- How much longer the segments are after their rewrite. -/
def growth (sizes : List (ℕ × ℕ)) : ℤ := (sizes.map fun s => (s.2 : ℤ) - s.1).sum

variable {tag : ℕ} {data : Bytes} {allSegments : Bool} {h0 : Host Flash} {sizes : List (ℕ × ℕ)} {p : Progress}

theorem Rewrites.setting_eq (hr : Rewrites tag data allSegments h0 sizes p h) : setting h = setting (allocated h0) := by
  induction hr with
  | start => rfl
  | next _ hs ih => exact (setting_segmentStep _ _ _ _ _ _ _ (congrArg Res.state? hs)).trans ih

theorem Rewrites.bytes_eq (hr : Rewrites tag data allSegments h0 sizes p h) :
    h.content.bytes = h0.content.bytes := congrArg Prod.fst hr.setting_eq

theorem Rewrites.length_buf (hr : Rewrites tag data allSegments h0 sizes p h) :
    h.content.buf.length = h0.content.bytes.length := by
  have hlen := congrArg (fun s => s.2.2) hr.setting_eq
  exact hlen.trans List.length_replicate

/-- The pointers and lengths are those of the sizes. -/
theorem Rewrites.progress (hr : Rewrites tag data allSegments h0 sizes p h) :
    p.currentOffset = originalLength sizes ∧ (p.segData : ℤ) = originalLength sizes + growth sizes ∧
      p.remainingOriginal = h0.content.bytes.length - originalLength sizes := by
  induction hr with
  | start => exact ⟨rfl, rfl, rfl⟩
  | @next sizes p q h h' _ hs ih =>
    obtain ⟨h1, h2, h3⟩ := ih
    obtain ⟨original, modified, rfl⟩ := segmentStep_inr hs
    simp only [originalLength, growth, List.map_append, List.map_cons, List.map_nil, List.sum_append, List.sum_cons,
      List.sum_nil, Nat.add_sub_cancel_left] at h1 h2 h3 ⊢
    exact ⟨by omega, by omega, by omega⟩

/-- The segments passed so far have not grown by more than the partition holds behind the bytes that the next round
reads. -/
def GrowthFits (h : Host Flash) (sizes : List (ℕ × ℕ)) : Prop :=
  segmentBytes h (originalLength sizes) (h.content.bytes.length - originalLength sizes) ≠ 0 →
    growth sizes ≤ (h.content.bytes.length : ℤ) - (originalLength sizes +
      segmentBytes h (originalLength sizes) (h.content.bytes.length - originalLength sizes) : ℕ)

/-- **One round.**  What it stores of its segment lies in the buffer if and only if the growth so far fits. -/
theorem Rewrites.inside_iff (hr : Rewrites tag data allSegments h0 sizes p h) :
    (∀ r ∈ segmentStores h p.currentOffset p.segData p.remainingOriginal, r.1 + r.2 ≤ h0.content.bytes.length) ↔
      GrowthFits h sizes := by
  obtain ⟨h1, h2, h3⟩ := hr.progress
  rw [← hr.length_buf, segmentStores_inside_iff, GrowthFits, hr.length_buf, hr.bytes_eq, h1, h3]
  refine imp_congr_right fun _ => ?_
  omega

/-- As long as no segment has grown, whatever a round stores of the next one lies in the buffer. -/
theorem Rewrites.inside_of_growth_nonpos (hr : Rewrites tag data allSegments h0 sizes p h) (hg : growth sizes ≤ 0) :
    ∀ r ∈ segmentStores h p.currentOffset p.segData p.remainingOriginal, r.1 + r.2 ≤ h0.content.bytes.length :=
  hr.inside_iff.mpr fun hne => by
    have := segmentBytes_le _ _ _ hne
    omega

/-- **Bounds of the buffer.**  In `ef10_nvram_partn_write_segment_tlv` every byte range that
`ef10_nvram_read_tlv_segment` stores lies in the memory allocated for the partition if and only if in each round the
segments passed before have not grown by more than the partition holds behind the bytes that the round reads. -/
theorem stores_inside_iff (tag : ℕ) (data : Bytes) (allSegments : Bool) (h0 : Host Flash) :
    (∀ sizes p h, Rewrites tag data allSegments h0 sizes p h →
      ∀ r ∈ segmentStores h p.currentOffset p.segData p.remainingOriginal, r.1 + r.2 ≤ h0.content.bytes.length) ↔
    ∀ sizes p h, Rewrites tag data allSegments h0 sizes p h → GrowthFits h sizes :=
  forall_congr' fun _ => forall_congr' fun _ => forall_congr' fun _ => forall_congr' fun hr => hr.inside_iff

/-! ### A chunk behind the buffer -/

/-- What the next round of the loop begins with, if there is one. -/
def goesOn : Res (Host Flash) Errno (Progress ⊕ Progress) → Option Progress
  | .ret (.inr q) _ => some q
  | _ => none

theorem goesOn_eq_some {r : Res (Host Flash) Errno (Progress ⊕ Progress)} {q : Progress} (hq : goesOn r = some q) :
    ∃ h', r = .ret (.inr q) h' := by
  unfold goesOn at hq
  split at hq
  · cases hq
    exact ⟨_, rfl⟩
  · cases hq

/-- A segment without items. -/
def emptySegment : Bytes :=
  le 4 TLV_TAG_PARTITION_HEADER ++ le 4 12 ++ le 4 0 ++ le 4 1 ++ le 4 40 ++ le 4 TLV_TAG_PARTITION_TRAILER ++ le 4 8 ++
    le 4 1 ++ le 4 854596611 ++ le 4 TLV_TAG_END

/-- A partition of 256 bytes, blank behind a segment of 40, whose commands all succeed. -/
def smallPartition : Host Flash := ⟨⟨emptySegment ++ List.replicate 216 0xff, 0, 0, 128, []⟩, fun _ => none, 0, []⟩

/-- An item of 100 bytes makes the segment end at 148: the next round stores the chunk behind it at 148 to 276. -/
theorem chunk_outside : ¬ ∀ sizes p h, Rewrites 0x10020000 (List.replicate 100 0) false smallPartition sizes p h →
    ∀ r ∈ segmentStores h p.currentOffset p.segData p.remainingOriginal,
      r.1 + r.2 ≤ smallPartition.content.bytes.length := by
  intro hall
  have hround : goesOn (segmentStep 0x10020000 (List.replicate 100 0) false smallPartition.content.bytes.length
      ⟨0, 0, smallPartition.content.bytes.length, smallPartition.content.bytes.length⟩ (allocated smallPartition)) =
      some ⟨148, 40, 216, 108⟩ := by decide +kernel
  obtain ⟨h', hs⟩ := goesOn_eq_some hround
  have hr := Rewrites.start.next hs
  have hlen : smallPartition.content.bytes.length = 256 := by decide +kernel
  have ha : HeadAnswered h' 40 := by
    have hfails : h'.fails = fun _ => none := congrArg (fun s => s.2.1) hr.setting_eq
    rw [HeadAnswered, hr.bytes_eq, hfails, hlen]
    exact ⟨rfl, by decide⟩
  refine absurd (hall _ _ _ hr (148, ef10Chunk) ?_) (by rw [hlen]; decide)
  rw [segmentStores, if_neg (by decide), readStores_chunk, if_pos ha]
  exact List.mem_cons_self

end Sfxge.Nvram.Ef10
