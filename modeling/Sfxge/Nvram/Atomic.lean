import Sfxge.Nvram.Overrun

/-!
# Nvram.Atomic — whether a failed update leaves the partition alone

`ef10_nvram_partn_write_segment_tlv` erases the partition before it writes it.  What `ef10_nvram_partn_erase` refuses
it refuses before the first erase, but `ef10_nvram_partn_write` and the command below it look at the length of what
is to be written, and at what one command can carry, when the partition is already erased.
-/

namespace Sfxge.Nvram

open Lib Lib.Prog

variable {σ α : Type}

/-- An update whose start succeeds fails exactly when its body does, after the finish. -/
theorem underLock_err_iff {partn : ℕ} {body : Cmd σ α} {h h' : Host σ} {e : Errno} (hf : h.fails h.count = none) :
    underLock partn body h = .err e h' ↔
      ∃ h1, body (h.tick.log (.start partn)) = .err e h1 ∧ h' = (h1.log (.finish partn)).tick := by
  have hs : nvramUpdateStart partn h = .ret () (h.tick.log (.start partn)) := by
    rw [nvramUpdateStart, bind_of_ret (command_of_ok hf), logLock_apply]
  rw [underLock, bind_of_ret hs]
  cases hb : body (h.tick.log (.start partn)) with
  | ret a h1 =>
    rw [bind_of_ret (attempt_of_ret hb)]
    dsimp only
    rw [bind_of_ret (nvramUpdateFinish_apply partn h1)]
    exact iff_of_false (by simp) (by simp)
  | err e1 h1 =>
    rw [bind_of_ret (attempt_of_err hb)]
    dsimp only
    rw [bind_of_ret (nvramUpdateFinish_apply partn h1), fail_apply]
    constructor
    · intro heq
      cases heq
      exact ⟨h1, rfl, rfl⟩
    · rintro ⟨h2, heq, rfl⟩
      cases heq
      rfl
  | fault =>
    rw [bind_of_fault (attempt_of_fault hb)]
    exact iff_of_false (by simp) (by simp)
  | spin =>
    rw [bind_of_spin (by rw [attempt, hb])]
    exact iff_of_false (by simp) (by simp)

namespace Ef10

open Tlv

variable {h : Host Flash} {offset size step : ℕ}

/-! ### Chunks -/

theorem mem_chunksOf {b : ℕ × ℕ} (hstep : 0 < step) (hb : b ∈ chunksOf step size) :
    b.1 + b.2 ≤ size ∧ b.2 ≤ min step size ∧ 0 < b.2 := by
  obtain ⟨i, hi, rfl⟩ := List.mem_map.mp hb
  have hlt : i * step + step ≤ size + step - 1 := by
    have hle := Nat.mul_le_mul_right step (Nat.succ_le_of_lt (List.mem_range.mp hi))
    have hdiv : (size + step - 1) / step * step ≤ size + step - 1 := Nat.div_mul_le_self _ _
    rw [Nat.succ_mul] at hle
    omega
  dsimp only
  omega

theorem chunksOf_cons (hstep : 0 < step) (hsize : 0 < size) :
    ∃ bs, chunksOf step size = (0, min step size) :: bs := by
  have hpos : 0 < (size + step - 1) / step := Nat.div_pos (by omega) hstep
  obtain ⟨n, hn⟩ := Nat.exists_eq_succ_of_ne_zero hpos.ne'
  rw [chunksOf, hn, List.range_succ_eq_map, List.map_cons, Nat.zero_mul]
  exact ⟨_, rfl⟩

/-! ### Erasing -/

/-- The size of the partition is a multiple of what is erased at once. -/
def Erasable (c : Flash) : Prop := c.eraseSize ≠ 0 → c.bytes.length % c.eraseSize = 0

instance (c : Flash) : Decidable (Erasable c) := inferInstanceAs (Decidable (_ → _))

theorem nvramInfo_ret (hf : h.fails h.count = none) : nvramInfo h = .ret h.content h.tick := by
  rw [nvramInfo, bind_of_ret (command_of_ok hf), content_apply]
  rfl

theorem nvramErase_ret (hf : h.fails h.count = none) (hin : offset + size ≤ h.content.bytes.length) :
    nvramErase offset size h = .ret () (h.tick.setContent
      (h.content.setBytes (splice h.content.bytes offset (List.replicate size 0xff)))) := by
  have hin' : offset + size ≤ h.tick.content.bytes.length := hin
  rw [nvramErase, bind_of_ret (command_of_ok hf), bind_of_ret (content_apply _), bind_of_ret (ensure_pos hin')]
  rfl

/-- What is not erasable is refused before anything is erased. -/
theorem partnErase_err (hf : h.fails h.count = none) (he : ¬ Erasable h.content) :
    partnErase 0 h.content.bytes.length h = .err .EINVAL h.tick := by
  obtain ⟨h0, hmod⟩ := Classical.not_imp.mp he
  rw [partnErase, bind_of_ret (nvramInfo_ret hf), if_neg h0, bind_of_err (ensure_neg hmod)]

/-- The partition as `h` had it, but for its bytes, of which the first is erased. -/
structure Erased (h h' : Host Flash) : Prop where
  fails : h'.fails = h.fails
  content : h'.content.setBytes [] = h.content.setBytes []
  length : h'.content.bytes.length = h.content.bytes.length
  first : h'.content.bytes.getD 0 0 = 0xff

theorem partnErase_ret (hf : ∀ k, h.fails k = none) (he : Erasable h.content) (hpos : 0 < h.content.bytes.length) :
    ∃ h', partnErase 0 h.content.bytes.length h = .ret () h' ∧ Erased h h' := by
  have hfirst : ∀ (m : Bytes) (n : ℕ), 0 < n → n ≤ m.length →
      (splice m 0 (List.replicate n 0xff)).getD 0 0 = 0xff := by
    intro m n hn hle
    rw [getD_splice (by simpa using hle), if_pos (by simpa using hn), List.getD_eq_getElem _ _ (by simpa using hn)]
    simp
  rw [partnErase, bind_of_ret (nvramInfo_ret (hf _))]
  by_cases h0 : h.content.eraseSize = 0
  · rw [if_pos h0]
    have hin : 0 + h.tick.content.bytes.length ≤ h.tick.content.bytes.length := by omega
    exact ⟨_, nvramErase_ret (hf _) hin, rfl, rfl, length_splice (by simp [Host.tick]), hfirst _ _ hpos le_rfl⟩
  · rw [if_neg h0, bind_of_ret (ensure_pos (he h0))]
    have hstep := Nat.pos_of_ne_zero h0
    -- the first chunk is erased, and those behind it leave it alone
    obtain ⟨h', hret, h1, h2, h3, h4⟩ := forEach_rule
      (f := fun b : ℕ × ℕ => nvramErase (0 + b.1) b.2)
      (I := fun done s => s.fails = h.fails ∧ s.content.setBytes [] = h.content.setBytes [] ∧
        s.content.bytes.length = h.content.bytes.length ∧
        ((∃ b ∈ done, b.1 = 0) → s.content.bytes.getD 0 0 = 0xff))
      (chunksOf h.content.eraseSize h.content.bytes.length) (s := h.tick) ⟨rfl, rfl, rfl, by simp⟩ (by
        rintro done b s hb ⟨h1, h2, h3, h4⟩
        obtain ⟨hb1, -, hb2⟩ := mem_chunksOf hstep hb
        have hin : 0 + b.1 + b.2 ≤ s.content.bytes.length := by omega
        have hlen : 0 + b.1 + (List.replicate b.2 (0xff : UInt8)).length ≤ s.content.bytes.length := by
          rwa [List.length_replicate]
        refine ⟨_, nvramErase_ret (by rw [h1]; exact hf _) hin, h1, h2, (length_splice hlen).trans h3, fun hex => ?_⟩
        change (splice s.content.bytes (0 + b.1) (List.replicate b.2 0xff)).getD 0 0 = 0xff
        by_cases hb0 : b.1 = 0
        · rw [hb0]
          exact hfirst _ _ hb2 (by omega)
        · rw [getD_splice_frame hlen (Or.inl (by omega))]
          refine h4 ?_
          obtain ⟨c, hc, hc0⟩ := hex
          rcases List.mem_append.mp hc with hc | hc
          · exact ⟨c, hc, hc0⟩
          · exact absurd (List.mem_singleton.mp hc ▸ hc0) hb0)
    obtain ⟨bs, hbs⟩ := chunksOf_cons hstep hpos
    exact ⟨h', hret, h1, h2, h3, h4 ⟨_, by rw [hbs]; exact List.mem_cons_self, rfl⟩⟩

/-! ### Writing -/

/-- What is written at once. -/
def writeChunk (c : Flash) : ℕ := if c.writeSize ≠ 0 then c.writeSize else ef10Chunk

/-- `size` bytes can be written: they are a multiple of the write chunk size that the NVRAM tells, if it tells one,
and a command can carry a chunk of them. -/
def Writable (c : Flash) (size : ℕ) : Prop :=
  (c.writeSize ≠ 0 → size % c.writeSize = 0) ∧ min (writeChunk c) size ≤ c.maxWrite

instance (c : Flash) (size : ℕ) : Decidable (Writable c size) := inferInstanceAs (Decidable (_ ∧ _))

theorem writeChunk_pos (c : Flash) : 0 < writeChunk c := by
  unfold writeChunk
  split_ifs with h0
  · exact Nat.pos_of_ne_zero h0
  · decide

theorem nvramWrite_err {base : ℕ} (hmax : h.content.maxWrite < size) :
    nvramWrite offset base size h = .err .EINVAL h := by
  rw [nvramWrite, bind_of_ret (content_apply h), bind_of_err (ensure_neg (Nat.not_le.mpr hmax))]

theorem nvramWrite_ret {base : ℕ} (hf : h.fails h.count = none) (hmax : size ≤ h.content.maxWrite)
    (hin : offset + size ≤ h.content.bytes.length) (hbuf : base + size ≤ h.content.buf.length) :
    nvramWrite offset base size h = .ret () (h.tick.setContent
      (h.content.setBytes (splice h.content.bytes offset (slice h.content.buf base size)))) := by
  have hload : onBuf (load (base : ℤ) size) h.tick = .ret (slice h.content.buf base size) h.tick :=
    zoom_of_ret (load_of_le hbuf)
  rw [nvramWrite, bind_of_ret (content_apply h), bind_of_ret (ensure_pos hmax), bind_of_ret (command_of_ok hf),
    bind_of_ret (ensure_pos hin), bind_of_ret hload]
  rfl

theorem partnWrite_err (hf : h.fails h.count = none) (hw : ¬ Writable h.content size) :
    ∃ e h', partnWrite 0 0 size h = .err e h' ∧ h'.content = h.content := by
  rw [partnWrite, bind_of_ret (nvramInfo_ret hf)]
  by_cases hmod : h.content.writeSize ≠ 0 → size % h.content.writeSize = 0
  swap
  · exact ⟨_, _, bind_of_err (ensure_neg hmod), rfl⟩
  rw [bind_of_ret (ensure_pos hmod)]
  have hmax : h.content.maxWrite < min (writeChunk h.content) size := Nat.lt_of_not_le fun hle => hw ⟨hmod, hle⟩
  obtain ⟨bs, hbs⟩ := chunksOf_cons (writeChunk_pos h.content) (show 0 < size by omega)
  refine ⟨.EINVAL, h.tick, ?_, rfl⟩
  change forEach _ (chunksOf (writeChunk h.content) size) h.tick = _
  rw [hbs, forEach]
  exact bind_of_err (nvramWrite_err (h := h.tick) hmax)

theorem partnWrite_ret (hf : ∀ k, h.fails k = none) (hw : Writable h.content size)
    (hin : size ≤ h.content.bytes.length) (hbuf : size ≤ h.content.buf.length) :
    ∃ h', partnWrite 0 0 size h = .ret () h' := by
  rw [partnWrite, bind_of_ret (nvramInfo_ret (hf _)), bind_of_ret (ensure_pos hw.1)]
  obtain ⟨h', hret, -⟩ := forEach_rule (f := fun b : ℕ × ℕ => nvramWrite (0 + b.1) (0 + b.1) b.2)
    (I := fun _ s => s.fails = h.fails ∧ s.content.setBytes [] = h.content.setBytes [] ∧
      s.content.bytes.length = h.content.bytes.length)
    (chunksOf (writeChunk h.content) size) (s := h.tick) ⟨rfl, rfl, rfl⟩ (by
      rintro done b s hb ⟨h1, h2, h3⟩
      obtain ⟨hb1, hb2, -⟩ := mem_chunksOf (writeChunk_pos h.content) hb
      have hbuf' : (s.content.setBytes []).buf = (h.content.setBytes []).buf := congrArg Flash.buf h2
      have hmax' : (s.content.setBytes []).maxWrite = (h.content.setBytes []).maxWrite := congrArg Flash.maxWrite h2
      change s.content.buf = h.content.buf at hbuf'
      change s.content.maxWrite = h.content.maxWrite at hmax'
      have hbase : 0 + b.1 + b.2 ≤ s.content.buf.length := by rw [hbuf']; omega
      have hlen := length_slice hbase
      refine ⟨_, nvramWrite_ret (by rw [h1]; exact hf _) (by rw [hmax']; exact hb2.trans hw.2) (by omega) hbase, h1, h2,
        (length_splice (by rw [hlen]; omega)).trans h3⟩)
  exact ⟨h', hret⟩

/-! ### The loop over the segments -/

variable {rounds partn tag : ℕ} {data : Bytes} {allSegments : Bool}

/-- The loop of `ef10_nvram_partn_write_segment_tlv` -/
def segmentsLoop (rounds tag : ℕ) (data : Bytes) (allSegments : Bool) (partnSize : ℕ) : Cmd Flash Progress :=
  iterate (segmentStep tag data allSegments partnSize) rounds ⟨0, 0, partnSize, partnSize⟩

theorem u32_mod (m : Bytes) (hm : 4 ≤ m.length) : u32 m 0 % 256 = (m.getD 0 0).toNat := by
  match m, hm with
  | a :: b :: c :: d :: rest, _ =>
    have := a.toNat_lt
    simp only [u32, slice, List.drop_zero, List.take_succ_cons, List.take_zero, ofLe, List.getD_cons_zero]
    omega

/-- A segment is read only where its header begins. -/
theorem readTlvSegment_header {maxSize : ℕ} {u : Unit} {h' : Host Flash}
    (hbuf : h.content.buf.length = h.content.bytes.length) (hr : readTlvSegment 0 0 maxSize h = .ret u h') :
    ef10Chunk ≤ h.content.bytes.length ∧ u32 h.content.bytes 0 = TLV_TAG_PARTITION_HEADER := by
  obtain ⟨-, hr⟩ := ensure_bind_ret_inv hr
  obtain ⟨⟨⟩, h1, hread, hr⟩ := bind_ret_inv hr
  obtain ⟨⟨cursor, totalLength⟩, h2, hitem, -⟩ := bind_ret_inv hr
  rw [partnRead_chunk] at hread
  by_cases ha : HeadAnswered h 0
  swap
  · obtain ⟨e, h3, herr⟩ := nvramRead_err ha
    rw [herr] at hread
    cases hread
  have hin : ef10Chunk ≤ h.content.bytes.length := (Nat.zero_add _).symm.trans_le ha.2
  have hroom : 0 + ef10Chunk ≤ h.content.buf.length := by rwa [Nat.zero_add, hbuf]
  rw [nvramRead_ret ha.1 ha.2 hroom] at hread
  cases hread
  have hlen : (stored h 0 0 ef10Chunk).content.buf.length = h.content.buf.length :=
    length_splice (by rwa [length_slice ha.2])
  have hstruct : 0 + headerSize ≤ (stored h 0 0 ef10Chunk).content.buf.length := by
    rw [hlen]
    exact le_trans (by decide) hroom
  have hgood : HasHeader (stored h 0 0 ef10Chunk).content.buf 0 maxSize := by
    by_contra hno
    obtain ⟨e, he⟩ := (headerItem_of_struct hstruct).2 fun hh => hno hh.1
    have herr : onBuf (headerItem 0 maxSize) (stored h 0 0 ef10Chunk) = .err e (stored h 0 0 ef10Chunk) :=
      zoom_of_err he
    rw [herr] at hitem
    cases hitem
  exact ⟨hin, (stored_u32 (k := 0) ha.2 hroom (by decide)).symm.trans hgood.tag⟩

/-- A loop that ends has read the first segment. -/
theorem segmentsLoop_header {p : Progress} {h' : Host Flash} (hbuf : h.content.buf.length = h.content.bytes.length)
    (hr : segmentsLoop rounds tag data allSegments h.content.bytes.length h = .ret p h') :
    ef10Chunk ≤ h.content.bytes.length ∧ u32 h.content.bytes 0 = TLV_TAG_PARTITION_HEADER := by
  unfold segmentsLoop at hr
  cases rounds with
  | zero => cases hr
  | succ n =>
    obtain ⟨r, h1, hstep, -⟩ := bind_ret_inv hr
    obtain ⟨a, h2, hatt, hend⟩ := bind_ret_inv hstep
    rcases attempt_ret_inv hatt with ⟨q, rfl, hseg⟩ | ⟨e, rfl, -⟩
    · obtain ⟨u, h3, hread, -⟩ := bind_ret_inv hseg
      exact readTlvSegment_header hbuf (orFail_ret_inv hread)
    · -- an error at the first segment ends the loop with it
      cases hend

theorem besides_segmentsLoop (rounds tag : ℕ) (data : Bytes) (allSegments : Bool) (partnSize : ℕ) :
    (segmentsLoop rounds tag data allSegments partnSize).Frames besides :=
  frames_iterate (fun p => besides_segmentStep tag data allSegments partnSize p) _ _

/-- The body of the update leaves the partition alone when it fails, if and only if it does not come to write, behind
the erase, what cannot be written. -/
theorem writeSegmentBody_atomic_iff (rounds tag : ℕ) (data : Bytes) (allSegments : Bool) (hf : ∀ k, h.fails k = none)
    (hbuf : h.content.buf.length = h.content.bytes.length) :
    (∀ e h', writeSegmentBody rounds tag data allSegments h.content.bytes.length h = .err e h' →
      h'.content.bytes = h.content.bytes) ↔
    ∀ p h', segmentsLoop rounds tag data allSegments h.content.bytes.length h = .ret p h' →
      p.segData ≤ h.content.bytes.length → Erasable h.content → Writable h.content p.segData := by
  have hframe := besides_segmentsLoop rounds tag data allSegments h.content.bytes.length h
  have hbody : writeSegmentBody rounds tag data allSegments h.content.bytes.length h =
      (segmentsLoop rounds tag data allSegments h.content.bytes.length h).bind fun p =>
        ensure (¬ p.segData > h.content.bytes.length) Errno.ENOSPC >>= fun _ =>
          partnErase 0 h.content.bytes.length >>= fun _ => partnWrite 0 0 p.segData := rfl
  rw [hbody]
  cases hl : segmentsLoop rounds tag data allSegments h.content.bytes.length h with
  | err e h1 =>
    refine iff_of_true (fun e' h' heq => ?_) (by simp)
    cases heq
    have hb := hframe h1 (by rw [hl]; rfl)
    exact congrArg (fun u => u.1.bytes) hb
  | fault => exact iff_of_true (by simp) (by simp)
  | spin => exact iff_of_true (by simp) (by simp)
  | ret p h1 =>
    have hb := hframe h1 (by rw [hl]; rfl)
    have hc : h1.content.setBuf [] = h.content.setBuf [] := congrArg Prod.fst hb
    have hf1 : ∀ k, h1.fails k = none := fun k => by rw [show h1.fails = h.fails from congrArg (fun u => u.2.1) hb, hf]
    have hbuf1 : h1.content.buf.length = h.content.buf.length := congrArg (fun u => u.2.2) hb
    have hbytes : (h1.content.setBuf []).bytes = (h.content.setBuf []).bytes := congrArg Flash.bytes hc
    change h1.content.bytes = h.content.bytes at hbytes
    have herasable : Erasable h1.content ↔ Erasable h.content := by
      have : Erasable (h1.content.setBuf []) ↔ Erasable (h.content.setBuf []) := by rw [hc]
      exact this
    have hwritable : ∀ n, Writable h1.content n ↔ Writable h.content n := fun n => by
      have : Writable (h1.content.setBuf []) n ↔ Writable (h.content.setBuf []) n := by rw [hc]
      exact this
    obtain ⟨hlen, htag⟩ := segmentsLoop_header hbuf hl
    have hcond : (∀ q h', Res.ret p h1 = (.ret q h' : Res (Host Flash) Errno Progress) →
        q.segData ≤ h.content.bytes.length → Erasable h.content → Writable h.content q.segData) ↔
        (p.segData ≤ h.content.bytes.length → Erasable h.content → Writable h.content p.segData) :=
      ⟨fun hall => hall p h1 rfl, fun hone q h' heq => by cases heq; exact hone⟩
    rw [hcond, Res.bind_ret]
    by_cases hfit : p.segData ≤ h.content.bytes.length
    swap
    · rw [bind_of_err (ensure_neg (not_not.mpr (Nat.lt_of_not_le hfit)))]
      refine iff_of_true (fun e h' heq => ?_) fun hle => absurd hle hfit
      cases heq
      exact hbytes
    rw [bind_of_ret (ensure_pos (Nat.not_lt.mpr hfit)), ← hbytes]
    by_cases he : Erasable h1.content
    swap
    · rw [bind_of_err (partnErase_err (hf1 _) he)]
      refine iff_of_true (fun e h' heq => ?_) fun _ he' => absurd (herasable.mpr he') he
      cases heq
      rfl
    obtain ⟨h2, hret, hera⟩ := partnErase_ret hf1 he (by rw [hbytes]; exact lt_of_lt_of_le (by decide) hlen)
    have hwritable2 : Writable h2.content p.segData ↔ Writable h1.content p.segData := by
      have : Writable (h2.content.setBytes []) p.segData ↔ Writable (h1.content.setBytes []) p.segData := by
        rw [hera.content]
      exact this
    rw [bind_of_ret hret]
    by_cases hw : Writable h1.content p.segData
    · have hbuf2 : (h2.content.setBytes []).buf = (h1.content.setBytes []).buf := congrArg Flash.buf hera.content
      change h2.content.buf = h1.content.buf at hbuf2
      obtain ⟨h3, hret3⟩ := partnWrite_ret (h := h2) (fun k => by rw [hera.fails, hf1]) (hwritable2.mpr hw)
        (by rw [hera.length, hbytes]; exact hfit) (by rw [hbuf2, hbuf1, hbuf]; exact hfit)
      rw [hret3]
      exact iff_of_true (by simp) fun _ _ => (hwritable _).mp hw
    · obtain ⟨e, h3, herr, hc3⟩ := partnWrite_err (h := h2) (by rw [hera.fails, hf1]) fun hw2 => hw (hwritable2.mp hw2)
      rw [herr]
      refine iff_of_false (fun hall => ?_) fun hall => hw ((hwritable _).mpr (hall (by rwa [hbytes]) (herasable.mp he)))
      -- the first byte is that of a header no more
      have hsame : h2.content.bytes = h1.content.bytes := (congrArg Flash.bytes hc3).symm.trans (hall e h3 rfl)
      have hbyte := u32_mod h.content.bytes (le_trans (by decide) hlen)
      rw [← hbytes, ← hsame, hera.first, hsame, hbytes, htag] at hbyte
      revert hbyte
      decide

/-- The host when the loop over the segments begins, with the partition locked. -/
def locked (partn : ℕ) (h : Host Flash) : Host Flash := (allocated h.tick.tick).tick.log (.start partn)

/-- The update cannot come to write what cannot be written: the memory for the partition is not there, a segment is in
error, the segments do not fit or the partition is not erasable; otherwise what they are rewritten to is writable. -/
def WritesErased (rounds partn tag : ℕ) (data : Bytes) (allSegments : Bool) (h : Host Flash) : Prop :=
  h.fails (h.count + 1) = none →
    ∀ p h', segmentsLoop rounds tag data allSegments h.content.bytes.length (locked partn h) = .ret p h' →
      p.segData ≤ h.content.bytes.length → Erasable h.content → Writable h.content p.segData

/-- **A failed update.**  When no command fails, `ef10_nvram_partn_write_segment_tlv` leaves the bytes of the partition
as they were whenever it returns an error, if and only if it does not come to write what cannot be written. -/
theorem update_atomic_iff (rounds partn tag : ℕ) (data : Bytes) (allSegments : Bool) (h : Host Flash)
    (hf : ∀ k, k ≠ h.count + 1 → h.fails k = none) :
    (∀ e h', partnWriteSegmentTlv rounds partn tag data allSegments h = .err e h' →
      h'.content.bytes = h.content.bytes) ↔ WritesErased rounds partn tag data allSegments h := by
  have hinfo : nvramInfo h = .ret h.content h.tick := nvramInfo_ret (hf _ (by omega))
  rw [WritesErased, partnWriteSegmentTlv, bind_of_ret hinfo]
  cases halloc : h.fails (h.count + 1) with
  | some e =>
    have hfail : (kmemAlloc : Cmd Flash Unit) h.tick = .err Errno.ENOMEM h.tick.tick :=
      orFail_of_err _ (command_of_fail halloc)
    rw [bind_of_err hfail]
    refine iff_of_true (fun e' h' heq => ?_) (by simp)
    cases heq
    rfl
  | none =>
    have hall : ∀ k, h.fails k = none := by
      intro k
      by_cases hk : k = h.count + 1
      · rw [hk, halloc]
      · exact hf k hk
    have hret : (kmemAlloc : Cmd Flash Unit) h.tick = .ret () h.tick.tick := orFail_of_ret _ (command_of_ok halloc)
    have hlocked := writeSegmentBody_atomic_iff (h := locked partn h) rounds tag data allSegments hall
      List.length_replicate
    rw [bind_of_ret hret]
    change (∀ e h', underLock partn _ (allocated h.tick.tick) = .err e h' → _) ↔ _
    refine Iff.trans ?_ (hlocked.trans ⟨fun hw _ => hw, fun hw => hw rfl⟩)
    constructor
    · intro hup e h1 herr
      exact hup e (h1.log (.finish partn)).tick
        ((underLock_err_iff (h := allocated h.tick.tick) (hall _)).mpr ⟨h1, herr, rfl⟩)
    · rintro hbody e h' herr
      obtain ⟨h1, herr1, rfl⟩ := (underLock_err_iff (h := allocated h.tick.tick) (hall _)).mp herr
      exact hbody e h1 herr1

/-- The length of the segments that the loop leaves, where it ends without an error. -/
def leftBy : Res (Host Flash) Errno Progress → Option ℕ
  | .ret p _ => some p.segData
  | _ => none

theorem leftBy_eq_some {r : Res (Host Flash) Errno Progress} {n : ℕ} (hn : leftBy r = some n) :
    ∃ p h', r = .ret p h' ∧ p.segData = n := by
  unfold leftBy at hn
  split at hn
  · exact ⟨_, _, rfl, Option.some.inj hn⟩
  · cases hn

/-- The small partition, on NVRAM that is written 16 bytes at once. -/
def smallChunks : Host Flash := ⟨{ smallPartition.content with writeSize := 16 }, fun _ => none, 0, []⟩

/-- An item of 4 bytes makes its segment end at 52, which is no multiple of 16: the partition stays erased. -/
theorem update_left_erased : ¬ ∀ e h', partnWriteSegmentTlv 2 1 0x10020000 (List.replicate 4 0) false smallChunks =
    .err e h' → h'.content.bytes = smallChunks.content.bytes := by
  rw [update_atomic_iff 2 1 0x10020000 (List.replicate 4 0) false smallChunks fun _ _ => rfl]
  intro hwrites
  have hleft : leftBy (segmentsLoop 2 0x10020000 (List.replicate 4 0) false smallChunks.content.bytes.length
      (locked 1 smallChunks)) = some 52 := by decide +kernel
  obtain ⟨p, h', hloop, hp⟩ := leftBy_eq_some hleft
  have hw := hwrites rfl p h' hloop (by rw [hp]; decide +kernel) (by decide +kernel)
  rw [hp] at hw
  revert hw
  decide +kernel

end Ef10

end Sfxge.Nvram
