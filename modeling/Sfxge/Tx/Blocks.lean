import Sfxge.Tx.Pieces

/-!
# Tx.Blocks — one block of the message

How a round of either loop extends the fragment list: by what it copies of a block, or by what it maps of it.
-/

namespace Sfxge.Tx.Frag

open Lib Lib.Prog Errno

variable {kernel : Kernel} {id : Fin SFXGE_TX_NDESCS} {phys0 : Memory} {stp stp' q0 start : Stq}
  {hand : Option ℕ} {done : Bytes} {blk : Mblk} {v : Locals} {n b : ℕ}

/-- The packet ends with the next `n` bytes of the block: no more are wanted, or no more are there. -/
def Locals.Closes (v : Locals) (nblocks : ℕ) (blk : Mblk) (n : ℕ) : Prop :=
  v.size = n ∨ v.off + n = blk.mblkl ∧ v.mp + 1 = nblocks

/-- Where the next byte is to be found. -/
def Locals.next (v : Locals) (blk : Mblk) (n : ℕ) : ℕ × ℕ :=
  if v.off + n = blk.mblkl then (v.mp + 1, 0) else (v.mp, v.off + n)

/-- The next `n` bytes of the block have been added to what the list and the buffer at hand hold. -/
structure Moved (kernel : Kernel) (id : Fin SFXGE_TX_NDESCS) (start : Stq) (done : Bytes)
    (blk : Mblk) (v : Locals) (stp : Stq) (n : ℕ) (hand : Option ℕ) (stp' : Stq) : Prop where
  le : v.off + n ≤ blk.mblkl
  le_size : n ≤ v.size
  pos : v.off < blk.mblkl → 0 < v.size → 0 < n
  finished : v.Closes stp.msg.length blk n → ∃ k, (k = 0 ↔ n = 0 ∧ waiting stp v.stbp = 0) ∧
    Finished kernel id start (done ++ slice blk.bytes v.off n) k stp'
  built : ¬ v.Closes stp.msg.length blk n →
    Built kernel id start (done ++ slice blk.bytes v.off n) hand stp' ∧ Flushed stp' hand

theorem length_bytes (blk : Mblk) : blk.bytes.length = blk.mblkl := List.length_drop

theorem getMblk_ret {ε : Type} {mp : ℕ} (h : stp.msg[mp]? = some blk) :
    (getMblk mp : Prog Stq ε Mblk) stp = .ret blk stp := by
  rw [getMblk, h]

/-! ### Places in the message -/

/-- The bytes of a message. -/
def msgBytes (msg : List Mblk) : Bytes := msg.flatMap Mblk.bytes

/-- How many bytes of the message lie before the byte at `off` of the block `mp`. -/
def place (msg : List Mblk) (mp off : ℕ) : ℕ := msgdsize (msg.take mp) + off

theorem length_msgBytes (msg : List Mblk) : (msgBytes msg).length = msgdsize msg := by
  simp [msgBytes, msgdsize, length_bytes, List.length_flatMap]

variable {msg : List Mblk}

theorem msg_split {mp : ℕ} (h : msg[mp]? = some blk) :
    msgBytes msg = msgBytes (msg.take mp) ++ blk.bytes ++ msgBytes (msg.drop (mp + 1)) := by
  obtain ⟨hlt, hget⟩ := List.getElem?_eq_some_iff.mp h
  conv_lhs => rw [← List.take_append_drop mp msg, List.drop_eq_getElem_cons hlt, hget]
  simp [msgBytes]

theorem place_add_le {mp off : ℕ} (h : msg[mp]? = some blk) (hle : off ≤ blk.mblkl) :
    place msg mp off ≤ (msgBytes msg).length := by
  have := length_bytes blk
  rw [msg_split h, place, List.length_append, List.length_append, length_msgBytes]
  omega

/-- The bytes of a block are where they are in the message. -/
theorem slice_msgBytes {mp off : ℕ} (h : msg[mp]? = some blk) (hle : off + n ≤ blk.mblkl) :
    slice (msgBytes msg) (place msg mp off) n = slice blk.bytes off n := by
  rw [msg_split h, place, ← length_msgBytes, slice, slice, List.append_assoc, ← List.drop_drop, List.drop_left,
    List.drop_append_of_le_length (by rw [length_bytes]; omega), List.take_append_of_le_length]
  rw [List.length_drop, length_bytes]
  omega

theorem place_next (n : ℕ) (h : msg[v.mp]? = some blk) :
    place msg (v.next blk n).1 (v.next blk n).2 = place msg v.mp v.off + n := by
  obtain ⟨hlt, hget⟩ := List.getElem?_eq_some_iff.mp h
  rw [Locals.next]
  split_ifs with hend
  · have htake : msgdsize (msg.take (v.mp + 1)) = msgdsize (msg.take v.mp) + blk.mblkl := by
      rw [List.take_succ_eq_append_getElem hlt, hget]
      simp [msgdsize]
    simp only [place, htake]
    omega
  · simp only [place]
    omega

/-- The bytes before the byte at hand, and those that follow it. -/
theorem take_slice (h : msg[v.mp]? = some blk) (hle : v.off + n ≤ blk.mblkl) :
    (msgBytes msg).take (place msg v.mp v.off) ++ slice blk.bytes v.off n =
      (msgBytes msg).take (place msg (v.next blk n).1 (v.next blk n).2) := by
  rw [place_next n h, List.take_add, ← slice_msgBytes h hle]
  rfl

/-- The block is left when it is used up. -/
theorem ite_next {ε : Type} (size : ℕ) (stbp stmp : Option ℕ) :
    (if v.off + n = blk.mblkl then pure ⟨v.mp + 1, 0, size, stbp, stmp⟩ else pure ⟨v.mp, v.off + n, size, stbp, stmp⟩ :
      Prog Stq ε Locals) = pure ⟨(v.next blk n).1, (v.next blk n).2, size, stbp, stmp⟩ := by
  rw [Locals.next]
  split_ifs <;> rfl

/-! ### Copying a block -/

/-- `copy_size` -/
def copySize (stp : Stq) (b : ℕ) (blk : Mblk) (off limit : ℕ) : ℕ :=
  min (min (SFXGE_TX_BUFFER_SIZE - (stp.buffers b).esmUsed) (blk.mblkl - off)) limit

theorem msgbCopy_ret {ε : Type} (kernel : Kernel) {mp : ℕ} (off limit : ℕ) (hblk : stp.msg[mp]? = some blk)
    (hused : (stp.buffers b).esmUsed ≤ SFXGE_TX_BUFFER_SIZE) :
    (msgbCopy kernel mp b off limit : Prog Stq ε _) stp =
      .ret (decide (limit - copySize stp b blk off limit = 0 ∨
          blk.mblkl - off - copySize stp b blk off limit = 0 ∧ mp + 1 = stp.msg.length),
        off + copySize stp b blk off limit, limit - copySize stp b blk off limit)
        (stp.copied kernel b (slice blk.bytes off (copySize stp b blk off limit))) := by
  have hslice : slice blk.data (blk.bRptr + off) (copySize stp b blk off limit) =
      slice blk.bytes off (copySize stp b blk off limit) := by
    rw [slice, slice, Mblk.bytes, List.drop_drop]
  have hlen : (slice blk.bytes off (copySize stp b blk off limit)).length = copySize stp b blk off limit := by
    have hb := length_bytes blk
    rw [slice, List.length_take, List.length_drop, hb]
    simp only [copySize]
    omega
  have hroom : (stp.buffers b).esmUsed + (slice blk.bytes off (copySize stp b blk off limit)).length ≤
      SFXGE_TX_BUFFER_SIZE := by
    rw [hlen]
    simp only [copySize]
    omega
  have hget : (getBuffer b : Prog Stq ε TxBuffer) stp = .ret (stp.buffers b) stp := rfl
  have hcopy : (bcopy kernel (slice blk.bytes off (copySize stp b blk off limit)) b (stp.buffers b).esmUsed :
      Prog Stq ε Unit) stp = .ret () { stp with
        phys := stp.phys.write (kernel.esmAddr b + (stp.buffers b).esmUsed)
          (slice blk.bytes off (copySize stp b blk off limit)) } := if_pos hroom
  have hdef : min (min (SFXGE_TX_BUFFER_SIZE - (stp.buffers b).esmUsed) (blk.mblkl - off)) limit =
      copySize stp b blk off limit := rfl
  rw [msgbCopy, bind_of_ret (getMblk_ret hblk), bind_of_ret hget, bind_of_ret (get_apply _)]
  simp only [hdef, hslice]
  rw [bind_of_ret hcopy, Stq.copied, hlen]
  rfl

/-- What happens to a buffer that has been copied into: it is added if it is full or the packet ends. -/
theorem Built.settle (hk : kernel.Sound) (h : Built kernel id start done (some b) stp) (eop : Bool)
    (hfull : (stp.buffers b).esmUsed = SFXGE_TX_BUFFER_SIZE → 0 < waiting stp (some b)) :
    (when ((stp.buffers b).esmUsed = SFXGE_TX_BUFFER_SIZE ∨ eop = true) (qbufferAdd kernel b eop)).Post stp
      (fun _ stp' => stp'.msg = stp.msg ∧
        (eop = true → Finished kernel id start done (waiting stp (some b)) stp') ∧
        (eop = false → Built kernel id start done (some b) stp' ∧ Flushed stp' (some b) ∧
          fill stp' (some b) = fill stp (some b) ∧
          waiting stp' (some b) =
            if (stp.buffers b).esmUsed = SFXGE_TX_BUFFER_SIZE then 0 else waiting stp (some b)))
      fun _ => True := by
  refine post_when (fun hadd => post_qbufferAdd_ret fun hn => ⟨rfl, fun he => ?_, fun he => ?_⟩) fun hno => ?_
  · rw [he]
    exact h.close_buffer hk hn
  · have hused := hadd.resolve_right (by rw [he]; nofun)
    rw [he, if_pos hused]
    refine ⟨h.add_buffer hk hn (hfull hused), ?_, fill_bufferAdded false, waiting_bufferAdded false⟩
    rintro _ ⟨⟩ -
    exact waiting_bufferAdded false
  · rw [not_or] at hno
    refine ⟨rfl, fun he => absurd he hno.2, fun _ => ⟨h, ?_, rfl, by rw [if_neg hno.1]⟩⟩
    rintro _ ⟨⟩ hfull
    exact absurd hfull hno.1

/-- **Copying.**  What a round that copies does to the list and the buffer at hand. -/
theorem post_copyBlock_moved {msg : List Mblk} {bs ms : List ℕ} (hk : kernel.Sound) (h0 : q0.bufs.Clean .unused)
    (hh : Holding id q0 msg bs ms stp) (h : Built kernel id start done v.stbp stp) (hf : Flushed stp v.stbp)
    (hblk : stp.msg[v.mp]? = some blk) (hoff : v.off ≤ blk.mblkl) :
    (copyBlock kernel id v).Post stp (fun v' stp' => ∃ n b,
      v' = ⟨(v.next blk n).1, (v.next blk n).2, v.size - n, some b, v.stmp⟩ ∧
      fill stp v.stbp + n ≤ SFXGE_TX_BUFFER_SIZE ∧
      Moved kernel id start done blk v stp n (some b) stp' ∧
      (¬ v.Closes stp.msg.length blk n → fill stp' (some b) = (fill stp v.stbp + n) % SFXGE_TX_BUFFER_SIZE ∧
        waiting stp' (some b) =
          if fill stp v.stbp + n = SFXGE_TX_BUFFER_SIZE then 0 else waiting stp v.stbp + n)) fun _ => True := by
  rw [copyBlock]
  refine post_bind (h.pick h0 hh (fun b => b.esmUsed = SFXGE_TX_BUFFER_SIZE) hf) ?_
  rintro b stp1 ⟨h1, hmsg, hwait, halt⟩
  rw [← hmsg] at hblk
  have hok := h1.steady.ok b (h1.steady.held b rfl)
  have hused : (stp1.buffers b).esmUsed < SFXGE_TX_BUFFER_SIZE := by
    rcases halt with ⟨-, rfl, hnot⟩ | ⟨-, hun⟩
    · exact lt_of_le_of_ne hok.used_le hnot
    · rw [hun]
      decide
  have hfill : fill stp v.stbp = (stp1.buffers b).esmUsed := by
    rcases halt with ⟨hhand, rfl, hnot⟩ | ⟨hall, hun⟩
    · rw [hhand, fill, Nat.mod_eq_of_lt hused]
    · rw [hun]
      cases hv : v.stbp with
      | none => rfl
      | some c => rw [fill, hall c hv, Nat.mod_self]; rfl
  rw [← hmsg, hfill, ← hwait]
  obtain ⟨n, hn⟩ : ∃ n, n = copySize stp1 b blk v.off v.size := ⟨_, rfl⟩
  have hcopy := msgbCopy_ret (ε := Errno) kernel v.off v.size hblk hok.used_le
  rw [← hn] at hcopy
  have hbounds : v.off + n ≤ blk.mblkl ∧ n ≤ v.size ∧ (v.off < blk.mblkl → 0 < v.size → 0 < n) ∧
      (stp1.buffers b).esmUsed + n ≤ SFXGE_TX_BUFFER_SIZE := by
    simp only [copySize] at hn
    omega
  obtain ⟨hle, hsize, hpos, hroom⟩ := hbounds
  have hlen : (slice blk.bytes v.off n).length = n := length_slice (by rw [length_bytes]; exact hle)
  have hclose : (v.size - n = 0 ∨ blk.mblkl - v.off - n = 0 ∧ v.mp + 1 = stp1.msg.length) ↔
      v.Closes stp1.msg.length blk n := by
    simp only [Locals.Closes]
    omega
  refine post_bind_of_ret hcopy (post_bind_of_ret rfl ?_)
  -- the buffer with the bytes
  have h2 := h1.copy (slice blk.bytes v.off n) (by rw [hlen]; exact hroom)
  have hw2 : waiting (stp1.copied kernel b (slice blk.bytes v.off n)) (some b) = waiting stp1 (some b) + n := by
    rw [waiting_copied hok, hlen]
  have hu2 : ((stp1.copied kernel b (slice blk.bytes v.off n)).buffers b).esmUsed =
      (stp1.buffers b).esmUsed + n := by rw [copied_buffer, hlen]
  refine post_bind (h2.settle hk _ fun hfull => by omega) ?_
  rintro _ stp2 ⟨hmsg2, hfin, hbuilt⟩
  rw [decide_eq_true_eq, hclose] at hfin
  rw [decide_eq_false_iff_not, hclose] at hbuilt
  refine post_bind_of_ret (getMblk_ret (hmsg2 ▸ hblk)) ?_
  rw [ite_next]
  refine post_pure ⟨n, b, rfl, hroom, ⟨hle, hsize, hpos, fun hc => ?_, fun hc => ?_⟩, fun hc => ?_⟩
  · exact ⟨_, by rw [hw2, ← hwait]; omega, hfin (hmsg ▸ hc)⟩
  · obtain ⟨hb2, hf2, -, -⟩ := hbuilt (hmsg ▸ hc)
    exact ⟨hb2, hf2⟩
  · obtain ⟨-, -, hfill2, hwait2⟩ := hbuilt hc
    rw [hfill2, hwait2, hu2, hw2, fill, hu2]
    exact ⟨rfl, rfl⟩

/-! ### Mapping a block -/

/-- The mapping holds the pages of the block. -/
def Mapped (kernel : Kernel) (stp : Stq) (m mp : ℕ) (blk : Mblk) (dmac : Cookie) (cookies : List Cookie) : Prop :=
  kernel.bind mp = some (dmac :: cookies) ∧
    stp.mappings m = ⟨some mp, some blk.bRptr, blk.mblkl, dmac.addr % SFXGE_TX_DESCSIZE,
      objectPages SFXGE_TX_DESCSIZE dmac cookies⟩

theorem Steady.add_fragment {eb : EfxBuffer} (h : Steady kernel id phys0 hand stp)
    (hn : stp.stEb.length ≠ EFX_TXQ_LIMIT SFXGE_TX_NDESCS) (hfrozen : Frozen kernel stp eb) :
    Steady kernel id phys0 hand { stp with stEb := stp.stEb ++ [eb] } := by
  refine { h with room := ?_, frozen := ?_ }
  · have := h.room
    rw [List.length_append, List.length_singleton]
    omega
  · intro eb' heb
    rcases List.mem_append.mp heb with heb | heb
    · exact h.frozen eb' heb
    · rw [List.mem_singleton.mp heb]
      exact hfrozen

section

variable {eb : EfxBuffer} {bs : Bytes} (h : Built kernel id start done hand stp) (hw : waiting stp hand = 0)
  (hn : stp.stEb.length ≠ EFX_TXQ_LIMIT SFXGE_TX_NDESCS) (hfrozen : Frozen kernel stp eb)
  (hread : stp.phys.read eb.ebAddr eb.ebSize = bs)
include h hw hn hfrozen hread

/-- A fragment in the middle of a packet. -/
theorem Built.add_fragment (heb : Inner eb) :
    Built kernel id start (done ++ bs) hand { stp with stEb := stp.stEb ++ [eb] } := by
  obtain ⟨hs, hold, new, hnew, hinner, hdone⟩ := h
  rw [pending_of_waiting_zero hw, List.append_nil] at hdone
  refine ⟨hs.add_fragment hn hfrozen, hold, new ++ [eb], ?_, ?_, ?_⟩
  · rw [hnew, List.append_assoc]
  · intro eb' heb'
    rcases List.mem_append.mp heb' with hmem | hmem
    · exact hinner eb' hmem
    · rw [List.mem_singleton.mp hmem]
      exact heb
  · have hp : pending kernel { stp with stEb := stp.stEb ++ [eb] } hand = [] := pending_of_waiting_zero (by
      rw [← hw]
      cases hand <;> rfl)
    rw [hp, List.append_nil, contents_append, contents_singleton, hdone, hread]

/-- The last fragment of a packet. -/
theorem Built.close_fragment (hfits : eb.Fits) (heop : eb.ebEop = true) :
    Finished kernel id start (done ++ bs) eb.ebSize { stp with stEb := stp.stEb ++ [eb] } := by
  obtain ⟨hs, hold, new, hnew, hinner, hdone⟩ := h
  rw [pending_of_waiting_zero hw, List.append_nil] at hdone
  refine ⟨(hs.put_down hw).add_fragment hn hfrozen, hold, new, eb, ?_, hinner, hfits, heop, rfl, ?_⟩
  · rw [hnew, List.append_assoc]
  · rw [contents_append, contents_singleton, hdone, hread]

end

/-- A run of a block inside one page, as the device sees it. -/
theorem Kernel.Backs.run {dmac : Cookie} {cookies : List Cookie} (h : kernel.Backs phys0 blk (dmac :: cookies))
    (hs : Steady kernel id phys0 hand stp) {k s : ℕ} (hpos : 0 < s) (hk : k + s ≤ blk.mblkl)
    (hin : (dmac.addr % SFXGE_TX_DESCSIZE + k) % SFXGE_TX_DESCSIZE + s ≤ SFXGE_TX_DESCSIZE) :
    ∃ a, (objectPages SFXGE_TX_DESCSIZE dmac cookies)[(dmac.addr % SFXGE_TX_DESCSIZE + k) / SFXGE_TX_DESCSIZE]? =
        some a ∧ ∀ eop, (⟨a + (dmac.addr % SFXGE_TX_DESCSIZE + k) % SFXGE_TX_DESCSIZE, s, eop⟩ : EfxBuffer).Fits ∧
      Frozen kernel stp ⟨a + (dmac.addr % SFXGE_TX_DESCSIZE + k) % SFXGE_TX_DESCSIZE, s, eop⟩ ∧
      stp.phys.read (a + (dmac.addr % SFXGE_TX_DESCSIZE + k) % SFXGE_TX_DESCSIZE) s = slice blk.bytes k s := by
  have hlen := length_bytes blk
  obtain ⟨a, ha, ⟨q, hq⟩, haddr⟩ := objectPages_run (by decide : 0 < SFXGE_TX_DESCSIZE)
    (h.pos dmac (List.mem_cons_self ..)) h.paged hpos (by rw [h.total, hlen]; exact hk) hin
  have hapart : ∀ i < s, ∀ b,
      ¬ kernel.InBuffer b 0 (a + (dmac.addr % SFXGE_TX_DESCSIZE + k) % SFXGE_TX_DESCSIZE + i) := by
    intro i hi b
    rw [← haddr i hi]
    exact h.apart (k + i) (by omega) b
  refine ⟨a, ha, fun eop => ⟨⟨by dsimp only; omega, ?_⟩, ?_, ?_⟩⟩
  · dsimp only
    rw [hq, Nat.mul_add_mod, Nat.mod_mod]
    exact hin
  · intro b x h1 h2 hx
    dsimp only at h1 h2
    refine hapart (x - (a + (dmac.addr % SFXGE_TX_DESCSIZE + k) % SFXGE_TX_DESCSIZE)) (by omega) b ?_
    simp only [Kernel.InBuffer] at hx ⊢
    omega
  · refine Memory.read_eq_of_getElem (length_slice (by omega)) fun i hi => ?_
    rw [length_slice (by omega)] at hi
    rw [hs.outside _ (hapart i hi), ← haddr i hi, h.holds (k + i) (by omega)]
    simp [slice]

/-- What is mapped of a block by a call. -/
def mapSize (blk : Mblk) (off limit : ℕ) : ℕ := min (blk.mblkl - off) limit

/-- The loop of `sfxge_tx_qmapping_add`, once `j` of the `n` bytes have been added. -/
structure MapLoop (kernel : Kernel) (id : Fin SFXGE_TX_NDESCS) (start : Stq) (done : Bytes)
    (blk : Mblk) (v : Locals) (stp : Stq) (n j : ℕ) (ebs : List EfxBuffer) : Prop where
  le : j ≤ n
  built : j < n ∨ ¬ v.Closes stp.msg.length blk n →
    Built kernel id start (done ++ slice blk.bytes v.off j) v.stbp { stp with stEb := ebs }
  finished : j = n → v.Closes stp.msg.length blk n → ∃ k, 0 < k ∧
    Finished kernel id start (done ++ slice blk.bytes v.off j) k { stp with stEb := ebs }

/-- A round of the loop adds the rest of a page. -/
theorem MapLoop.round {dmac : Cookie} {cookies : List Cookie} {j : ℕ} {ebs : List EfxBuffer}
    (hback : kernel.Backs start.phys blk (dmac :: cookies)) (hw : waiting stp v.stbp = 0)
    (hn : n = mapSize blk v.off v.size)
    (h : MapLoop kernel id start done blk v stp n j ebs) (hj : j < n) :
    (mappingAddRound (objectPages SFXGE_TX_DESCSIZE dmac cookies) (v.mp + 1 = stp.msg.length)
      ⟨v.off + j, v.size - j, dmac.addr % SFXGE_TX_DESCSIZE + (v.off + j), blk.mblkl - (v.off + j)⟩).Post
      { stp with stEb := ebs } (fun r stp' => ∃ j' ebs', stp' = { stp with stEb := ebs' } ∧
        r = .inr ⟨v.off + j', v.size - j', dmac.addr % SFXGE_TX_DESCSIZE + (v.off + j'), blk.mblkl - (v.off + j')⟩ ∧
        MapLoop kernel id start done blk v stp n j' ebs') fun _ => True := by
  have hnle : n ≤ blk.mblkl - v.off ∧ n ≤ v.size ∧ (n = v.size ∨ v.off + n = blk.mblkl) := by
    simp only [mapSize] at hn
    omega
  obtain ⟨hn1, hn2, hn3⟩ := hnle
  have hb := h.built (.inl hj)
  have hgo : ¬ (blk.mblkl - (v.off + j) = 0 ∨ v.size - j = 0) := by omega
  obtain ⟨s, hs⟩ : ∃ s, s = min (min (SFXGE_TX_DESCSIZE - (dmac.addr % SFXGE_TX_DESCSIZE + (v.off + j)) %
    SFXGE_TX_DESCSIZE) (blk.mblkl - (v.off + j))) (v.size - j) := ⟨_, rfl⟩
  have hpage : (dmac.addr % SFXGE_TX_DESCSIZE + (v.off + j)) % SFXGE_TX_DESCSIZE < SFXGE_TX_DESCSIZE :=
    Nat.mod_lt _ (by decide)
  have hbound : 0 < s ∧ s ≤ blk.mblkl - (v.off + j) ∧ s ≤ v.size - j ∧
      (dmac.addr % SFXGE_TX_DESCSIZE + (v.off + j)) % SFXGE_TX_DESCSIZE + s ≤ SFXGE_TX_DESCSIZE := by omega
  obtain ⟨hs1, hs2, hs3, hs4⟩ := hbound
  obtain ⟨a, ha, hrun⟩ := hback.run hb.steady hs1 (by omega) hs4
  have hslice : done ++ slice blk.bytes v.off (j + s) =
      done ++ slice blk.bytes v.off j ++ slice blk.bytes (v.off + j) s := by
    rw [slice_append, List.append_assoc]
  have hnext : (⟨v.off + j + s, v.size - j - s, dmac.addr % SFXGE_TX_DESCSIZE + (v.off + j) + s,
      blk.mblkl - (v.off + j) - s⟩ : MappingLocals) =
      ⟨v.off + (j + s), v.size - (j + s), dmac.addr % SFXGE_TX_DESCSIZE + (v.off + (j + s)),
        blk.mblkl - (v.off + (j + s))⟩ := by
    simp only [MappingLocals.mk.injEq]
    omega
  rw [mappingAddRound, if_neg hgo]
  simp only [ha, ← hs]
  clear hs hpage hs4
  refine post_bind (post_addFragment_ret (Q := fun _ stp' => ebs.length ≠ EFX_TXQ_LIMIT SFXGE_TX_NDESCS ∧
    stp' = { stp with stEb := ebs ++ [_] }) trivial fun hroom => ⟨hroom, rfl⟩) ?_
  rintro _ _ ⟨hroom, rfl⟩
  refine post_pure ⟨j + s, _, rfl, by rw [hnext], by omega, fun hcase => ?_, fun hend hclose => ?_⟩
  · rw [hslice]
    refine hb.add_fragment hw hroom (hrun _).2.1 (hrun false).2.2 ⟨(hrun _).1, by dsimp only; omega, ?_⟩
    rw [decide_eq_false_iff_not, decide_eq_true_eq]
    simp only [Locals.Closes] at hcase
    omega
  · rw [hslice]
    refine ⟨s, by omega, hb.close_fragment hw hroom (hrun _).2.1 (hrun false).2.2 (hrun _).1 ?_⟩
    rw [decide_eq_true_eq, decide_eq_true_eq]
    simp only [Locals.Closes] at hclose
    omega

/-- `sfxge_tx_qmapping_add`: all that is wanted of the rest of the block becomes fragments. -/
theorem post_qmappingAdd_moved {dmac : Cookie} {cookies : List Cookie} {m : ℕ}
    (hm : Mapped kernel stp m v.mp blk dmac cookies) (hback : kernel.Backs start.phys blk (dmac :: cookies))
    (hb : Built kernel id start done v.stbp stp) (hw : waiting stp v.stbp = 0) (hoff : v.off < blk.mblkl)
    (hsize : 0 < v.size) :
    (qmappingAdd m v.off v.size).Post stp (fun r stp' => ∃ n, 0 < n ∧ (n = v.size ∨ v.off + n = blk.mblkl) ∧
      r = (v.off + n, v.size - n) ∧
      Moved kernel id start done blk v stp n v.stbp stp' ∧ ∃ ebs, stp' = { stp with stEb := ebs }) fun _ => True := by
  obtain ⟨n, hn⟩ : ∃ n, n = mapSize blk v.off v.size := ⟨_, rfl⟩
  have hbounds : 0 < n ∧ v.off + n ≤ blk.mblkl ∧ n ≤ v.size ∧ (n = v.size ∨ v.off + n = blk.mblkl) := by
    simp only [mapSize] at hn
    omega
  obtain ⟨hpos, hle, hle', hend⟩ := hbounds
  rw [qmappingAdd]
  refine post_bind_of_ret rfl ?_
  rw [hm.2]
  refine post_bind_of_ret rfl ?_
  refine post_iterate (fun u stp' => ∃ j ebs, stp' = { stp with stEb := ebs } ∧
    u = ⟨v.off + j, v.size - j, dmac.addr % SFXGE_TX_DESCSIZE + (v.off + j), blk.mblkl - (v.off + j)⟩ ∧
    MapLoop kernel id start done blk v stp n j ebs) ?_ _ _ _ ⟨0, stp.stEb, rfl, rfl, Nat.zero_le n, ?_, ?_⟩
  · rintro _ _ ⟨j, ebs, rfl, rfl, hloop⟩
    by_cases hj : j = n
    · have hstop : blk.mblkl - (v.off + j) = 0 ∨ v.size - j = 0 := by omega
      rw [mappingAddRound, if_pos hstop]
      refine post_pure ⟨n, hpos, hend, by rw [hj], ⟨hle, hle', fun _ _ => hpos, fun hc => ?_, fun hc => ?_⟩, ebs, rfl⟩
      · obtain ⟨k, hk, hfin⟩ := hloop.finished hj hc
        exact ⟨k, by omega, hj ▸ hfin⟩
      · refine ⟨hj ▸ hloop.built (.inr hc), fun b hb _ => ?_⟩
        rw [← hw]
        cases v.stbp <;> rfl
    · refine (hloop.round hback hw hn (lt_of_le_of_ne hloop.le hj)).mono ?_ fun _ ht => ht
      rintro _ _ ⟨j', ebs', rfl, rfl, hloop'⟩
      exact ⟨j', ebs', rfl, rfl, hloop'⟩
  · intro _
    rw [slice_zero, List.append_nil]
    exact hb
  · intro h0
    exact absurd h0 (Nat.ne_of_lt hpos)

/-- What waits in the buffer at hand is added before a mapping. -/
theorem post_flushBuffer_built (hk : kernel.Sound) (h : Built kernel id start done hand stp) :
    (flushBuffer kernel hand).Post stp (fun _ stp' => Built kernel id start done hand stp' ∧
      waiting stp' hand = 0 ∧ fill stp' hand = fill stp hand ∧ stp'.msg = stp.msg ∧ stp'.mappings = stp.mappings)
      fun _ => True := by
  cases hand with
  | none => exact post_pure ⟨h, rfl, rfl, rfl, rfl⟩
  | some b =>
    refine post_bind_of_ret rfl (post_when (fun hlt => post_qbufferAdd_ret fun hn => ?_) fun hno => ?_)
    · have hw : 0 < waiting stp (some b) := Nat.sub_pos_of_lt hlt
      exact ⟨h.add_buffer hk hn hw, waiting_bufferAdded false, fill_bufferAdded false, rfl, rfl⟩
    · exact ⟨h, Nat.sub_eq_zero_of_le (not_lt.mp hno), rfl, rfl, rfl⟩

/-- **Mapping.**  What a round that maps does to the list and the buffer at hand. -/
theorem post_mapBlock_moved {dmac : Cookie} {cookies : List Cookie} {m : ℕ} (hk : kernel.Sound)
    (hm : Mapped kernel stp m v.mp blk dmac cookies) (hback : kernel.Backs start.phys blk (dmac :: cookies))
    (hb : Built kernel id start done v.stbp stp) (hoff : v.off < blk.mblkl) (hsize : 0 < v.size) :
    (mapBlock kernel m v).Post stp (fun r stp' => ∃ n, 0 < n ∧ (n = v.size ∨ v.off + n = blk.mblkl) ∧
      r = (v.off + n, v.size - n) ∧
      Moved kernel id start done blk v stp n v.stbp stp' ∧
      fill stp' v.stbp = fill stp v.stbp ∧ waiting stp' v.stbp = 0) fun _ => True := by
  rw [mapBlock]
  refine post_bind (post_flushBuffer_built hk hb) ?_
  rintro _ stp1 ⟨h1, hw1, hfill1, hmsg1, hmap1⟩
  have hm1 : Mapped kernel stp1 m v.mp blk dmac cookies := ⟨hm.1, by rw [hmap1]; exact hm.2⟩
  refine (post_qmappingAdd_moved hm1 hback h1 hw1 hoff hsize).mono ?_ fun _ ht => ht
  rintro _ _ ⟨n, hpos, hend, rfl, hmoved, ebs, rfl⟩
  have hsame : ∀ hand, fill { stp1 with stEb := ebs } hand = fill stp1 hand ∧
      waiting { stp1 with stEb := ebs } hand = waiting stp1 hand := fun hand => by
    cases hand <;> exact ⟨rfl, rfl⟩
  refine ⟨n, hpos, hend, rfl, ⟨hmoved.le, hmoved.le_size, hmoved.pos, fun hc => ?_, fun hc => ?_⟩, ?_, ?_⟩
  · obtain ⟨k, hk0, hfin⟩ := hmoved.finished (hmsg1 ▸ hc)
    exact ⟨k, by omega, hfin⟩
  · exact hmoved.built (hmsg1 ▸ hc)
  · rw [(hsame _).1, hfill1]
  · rw [(hsame _).2, hw1]

end Sfxge.Tx.Frag

