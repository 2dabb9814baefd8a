import Sfxge.Tx.Undo

/-!
# Tx.Pieces — what the fragments hold

The bytes that the device reads through a fragment list, and how each part of fragmentation extends them.  A list
under construction is followed by what waits in the buffer at hand.  Nothing that is written later reaches a
fragment: each buffer is written behind `stb_off` only, and the blocks of the message lie apart from the buffers.
-/

namespace Sfxge.Tx.Frag

open Lib Lib.Prog Errno

/-- What the device reads. -/
def contents (phys : Memory) (ebs : List EfxBuffer) : Bytes := ebs.flatMap fun eb => phys.read eb.ebAddr eb.ebSize

/-- A fragment of at most 4096 bytes that does not cross a multiple of 4096. -/
structure EfxBuffer.Fits (eb : EfxBuffer) : Prop where
  size_le : eb.ebSize ≤ SFXGE_TX_DESCSIZE
  within : eb.ebAddr % SFXGE_TX_DESCSIZE + eb.ebSize ≤ SFXGE_TX_DESCSIZE

/-- The address is in the memory of a buffer, `off` bytes from its start or later. -/
def Kernel.InBuffer (kernel : Kernel) (b off x : ℕ) : Prop :=
  kernel.esmAddr b + off ≤ x ∧ x < kernel.esmAddr b + SFXGE_TX_BUFFER_SIZE

/-- `sfxge_tx_buffer_dma_attr`: each buffer is aligned, and no two are in one place. -/
structure Kernel.Sound (kernel : Kernel) : Prop where
  aligned : ∀ b, SFXGE_TX_BUFFER_SIZE ∣ kernel.esmAddr b
  injective : Function.Injective kernel.esmAddr

/-- If a block is bound, then its cookies cover it, in runs of pages, and lie apart from the buffers. -/
structure Kernel.Backs (kernel : Kernel) (phys : Memory) (blk : Mblk) (cookies : List Cookie) : Prop where
  pos : ∀ dmac ∈ cookies, 0 < dmac.size
  paged : Paged SFXGE_TX_DESCSIZE cookies
  total : totalSize cookies = blk.bytes.length
  holds : ∀ k (hk : k < blk.bytes.length), phys (addrOf cookies k) = blk.bytes[k]
  apart : ∀ k < blk.bytes.length, ∀ b, ¬ kernel.InBuffer b 0 (addrOf cookies k)

variable {kernel : Kernel} {id : Fin SFXGE_TX_NDESCS} {phys phys0 : Memory} {stp q0 start : Stq}
  {hand : Option ℕ} {done : Bytes} {b : ℕ}

/-! ### The list and the buffer at hand -/

/-- No byte of the fragment is written again. -/
def Frozen (kernel : Kernel) (stp : Stq) (eb : EfxBuffer) : Prop :=
  ∀ b x, eb.ebAddr ≤ x → x < eb.ebAddr + eb.ebSize → ¬ kernel.InBuffer b (stp.buffers b).stbOff x

/-- What holds of a buffer of the descriptor. -/
structure TxBuffer.Ok (b : TxBuffer) : Prop where
  off_le : b.stbOff ≤ b.esmUsed
  used_le : b.esmUsed ≤ SFXGE_TX_BUFFER_SIZE

/-- What holds between any two steps; `hand` is the buffer at hand, and the memory was `phys0` before. -/
structure Steady (kernel : Kernel) (id : Fin SFXGE_TX_NDESCS) (phys0 : Memory) (hand : Option ℕ)
    (stp : Stq) : Prop where
  room : stp.stEb.length ≤ EFX_TXQ_LIMIT SFXGE_TX_NDESCS
  frozen : ∀ eb ∈ stp.stEb, Frozen kernel stp eb
  outside : ∀ x, (∀ b, ¬ kernel.InBuffer b 0 x) → stp.phys x = phys0 x
  ok : ∀ b ∈ stp.stStbp id, (stp.buffers b).Ok
  flushed : ∀ b ∈ stp.stStbp id, hand ≠ some b → (stp.buffers b).stbOff = (stp.buffers b).esmUsed
  held : ∀ b ∈ hand, b ∈ stp.stStbp id

/-- How many bytes wait in the buffer at hand. -/
def waiting (stp : Stq) : Option ℕ → ℕ
  | none => 0
  | some b => (stp.buffers b).esmUsed - (stp.buffers b).stbOff

/-- How far the buffer at hand is filled; a full one counts as none. -/
def fill (stp : Stq) : Option ℕ → ℕ
  | none => 0
  | some b => (stp.buffers b).esmUsed % SFXGE_TX_BUFFER_SIZE

/-- The bytes that wait in the buffer at hand. -/
def pending (kernel : Kernel) (stp : Stq) : Option ℕ → Bytes
  | none => []
  | some b => stp.phys.read (kernel.esmAddr b + (stp.buffers b).stbOff) (waiting stp (some b))

/-- A full buffer has been added. -/
def Flushed (stp : Stq) (hand : Option ℕ) : Prop :=
  ∀ b ∈ hand, (stp.buffers b).esmUsed = SFXGE_TX_BUFFER_SIZE → waiting stp hand = 0

/-- Fragments with data, none of them the last of a packet. -/
structure Inner (eb : EfxBuffer) : Prop where
  fits : eb.Fits
  pos : 0 < eb.ebSize
  eop : eb.ebEop = false

/-- The fragments of `start` still hold what they held. -/
def Preserved (start stp : Stq) : Prop :=
  ∀ eb ∈ start.stEb, stp.phys.read eb.ebAddr eb.ebSize = start.phys.read eb.ebAddr eb.ebSize

/-- Behind the fragments of `start`, the list and the buffer at hand hold `done`. -/
structure Built (kernel : Kernel) (id : Fin SFXGE_TX_NDESCS) (start : Stq) (done : Bytes) (hand : Option ℕ)
    (stp : Stq) : Prop where
  steady : Steady kernel id start.phys hand stp
  old : Preserved start stp
  pieces : ∃ new, stp.stEb = start.stEb ++ new ∧ (∀ eb ∈ new, Inner eb) ∧
    contents stp.phys new ++ pending kernel stp hand = done

/-- Behind the fragments of `start`, the list holds the packet `done`; its last fragment has `k` bytes. -/
structure Finished (kernel : Kernel) (id : Fin SFXGE_TX_NDESCS) (start : Stq) (done : Bytes) (k : ℕ) (stp : Stq) :
    Prop where
  steady : Steady kernel id start.phys none stp
  old : Preserved start stp
  pieces : ∃ new last, stp.stEb = start.stEb ++ (new ++ [last]) ∧ (∀ eb ∈ new, Inner eb) ∧ last.Fits ∧
    last.ebEop = true ∧ last.ebSize = k ∧ contents stp.phys (new ++ [last]) = done

/-! ### Reading what is not written -/

@[simp] theorem contents_nil : contents phys [] = [] := rfl

theorem contents_append (ebs ebs' : List EfxBuffer) :
    contents phys (ebs ++ ebs') = contents phys ebs ++ contents phys ebs' := List.flatMap_append

theorem contents_singleton (eb : EfxBuffer) : contents phys [eb] = phys.read eb.ebAddr eb.ebSize := by
  simp [contents]

theorem contents_congr {phys' : Memory} {ebs : List EfxBuffer}
    (h : ∀ eb ∈ ebs, phys'.read eb.ebAddr eb.ebSize = phys.read eb.ebAddr eb.ebSize) :
    contents phys' ebs = contents phys ebs := List.flatMap_congr h

theorem length_contents_le (phys : Memory) {ebs : List EfxBuffer} (h : ∀ eb ∈ ebs, eb.Fits) :
    (contents phys ebs).length ≤ SFXGE_TX_DESCSIZE * ebs.length := by
  induction ebs with
  | nil => exact Nat.zero_le _
  | cons eb ebs ih =>
    obtain ⟨heb, hrest⟩ := List.forall_mem_cons.mp h
    have hsize := heb.size_le
    have := ih hrest
    rw [show eb :: ebs = [eb] ++ ebs from rfl, contents_append, contents_singleton, List.length_append,
      Memory.length_read, List.length_append, List.length_singleton, Nat.mul_add, Nat.mul_one]
    omega

/-- Two buffers do not overlap. -/
theorem Kernel.Sound.apart (hk : kernel.Sound) {b c off off' x : ℕ} (hb : kernel.InBuffer b off x)
    (hc : kernel.InBuffer c off' x) : b = c := by
  refine hk.injective ?_
  obtain ⟨q, hq⟩ := hk.aligned b
  obtain ⟨r, hr⟩ := hk.aligned c
  simp only [Kernel.InBuffer, SFXGE_TX_BUFFER_SIZE] at *
  omega

/-- A part of a buffer is a fragment that fits. -/
theorem Kernel.Sound.fits (hk : kernel.Sound) (b : ℕ) {off n : ℕ} (h : off + n ≤ SFXGE_TX_BUFFER_SIZE) (eop : Bool) :
    (⟨kernel.esmAddr b + off, n, eop⟩ : EfxBuffer).Fits := by
  obtain ⟨q, hq⟩ := hk.aligned b
  have hs : SFXGE_TX_BUFFER_SIZE = 1024 := rfl
  refine ⟨?_, ?_⟩ <;> simp only [SFXGE_TX_DESCSIZE, hq, hs] at * <;> omega

/-- Writing into the free part of a buffer does not reach a fragment. -/
theorem Frozen.read_write {eb : EfxBuffer} (h : Frozen kernel stp eb) {bs : Bytes} {off : ℕ}
    (hoff : (stp.buffers b).stbOff ≤ off) (hroom : off + bs.length ≤ SFXGE_TX_BUFFER_SIZE) :
    (stp.phys.write (kernel.esmAddr b + off) bs).read eb.ebAddr eb.ebSize = stp.phys.read eb.ebAddr eb.ebSize := by
  refine Memory.read_write_of_apart fun x h1 h2 hx => h b x h1 h2 ?_
  simp only [Kernel.InBuffer]
  omega

theorem Frozen.mono {stp' : Stq} {eb : EfxBuffer} (h : Frozen kernel stp eb)
    (hoff : ∀ b, (stp.buffers b).stbOff ≤ (stp'.buffers b).stbOff) : Frozen kernel stp' eb := by
  intro b x h1 h2 hx
  have := hoff b
  refine h b x h1 h2 ?_
  simp only [Kernel.InBuffer] at hx ⊢
  omega

/-! ### Adding a fragment -/

theorem post_addFragment_ret {eb : EfxBuffer} {Q : Unit → Stq → Prop} {E : Stq → Prop} (hE : E stp)
    (h : stp.stEb.length ≠ EFX_TXQ_LIMIT SFXGE_TX_NDESCS → Q () { stp with stEb := stp.stEb ++ [eb] }) :
    (addFragment eb).Post stp Q E := by
  by_cases hn : stp.stEb.length = EFX_TXQ_LIMIT SFXGE_TX_NDESCS
  · exact post_of_err (if_pos hn) hE
  · exact post_of_ret (if_neg hn) (h hn)

/-- The fragment of `sfxge_tx_qbuffer_add`. -/
def Stq.bufferFragment (stp : Stq) (kernel : Kernel) (b : ℕ) (eop : Bool) : EfxBuffer :=
  ⟨kernel.esmAddr b + (stp.buffers b).stbOff, waiting stp (some b), eop⟩

/-- The state after `sfxge_tx_qbuffer_add`. -/
def Stq.bufferAdded (stp : Stq) (kernel : Kernel) (b : ℕ) (eop : Bool) : Stq :=
  { stp with
    stEb := stp.stEb ++ [stp.bufferFragment kernel b eop]
    buffers := Function.update stp.buffers b { stp.buffers b with stbOff := (stp.buffers b).esmUsed } }

theorem post_qbufferAdd_ret {eop : Bool} {Q : Unit → Stq → Prop}
    (h : stp.stEb.length ≠ EFX_TXQ_LIMIT SFXGE_TX_NDESCS → Q () (stp.bufferAdded kernel b eop)) :
    (qbufferAdd kernel b eop).Post stp Q fun _ => True := by
  rw [qbufferAdd]
  refine post_bind_of_ret rfl (post_bind (post_addFragment_ret (Q := fun _ stp' =>
    stp.stEb.length ≠ EFX_TXQ_LIMIT SFXGE_TX_NDESCS ∧ stp' = { stp with
      stEb := stp.stEb ++ [stp.bufferFragment kernel b eop] })
    trivial fun hn => ⟨hn, rfl⟩) ?_)
  rintro _ _ ⟨hn, rfl⟩
  exact post_of_ret rfl (h hn)

/-- With all buffers flushed, any of them may be at hand. -/
theorem Steady.take_up (h : Steady kernel id phys0 none stp) (hb : b ∈ stp.stStbp id) :
    Steady kernel id phys0 (some b) stp :=
  { h with
    flushed := fun c hc _ => h.flushed c hc nofun
    held := by rintro _ ⟨⟩; exact hb }

/-- And a buffer that has nothing waiting may be put down. -/
theorem Steady.put_down (h : Steady kernel id phys0 hand stp) (h0 : waiting stp hand = 0) :
    Steady kernel id phys0 none stp :=
  { h with
    flushed := fun c hc _ => by
      by_cases hh : hand = some c
      · have hle := (h.ok c hc).off_le
        rw [hh, waiting] at h0
        omega
      · exact h.flushed c hc hh
    held := nofun }

/-- The buffer at hand is added, and nothing waits any more. -/
theorem Steady.add_buffer (hk : kernel.Sound) (h : Steady kernel id phys0 (some b) stp)
    (hn : stp.stEb.length ≠ EFX_TXQ_LIMIT SFXGE_TX_NDESCS) (eop : Bool) :
    Steady kernel id phys0 none (stp.bufferAdded kernel b eop) := by
  have hb : b ∈ stp.stStbp id := h.held b rfl
  have hok := h.ok b hb
  have hbuf : ∀ c, (stp.bufferAdded kernel b eop).buffers c =
      if c = b then { stp.buffers b with stbOff := (stp.buffers b).esmUsed } else stp.buffers c := fun c => by
    rw [← Function.update_apply]
    rfl
  have hoff : ∀ c, (stp.buffers c).stbOff ≤ ((stp.bufferAdded kernel b eop).buffers c).stbOff := by
    intro c
    rw [hbuf]
    split_ifs with hc
    · rw [hc]
      exact hok.off_le
    · exact le_rfl
  refine ⟨?_, ?_, h.outside, ?_, ?_, nofun⟩
  · have := h.room
    rw [Stq.bufferAdded, List.length_append, List.length_singleton]
    omega
  · intro eb heb
    rcases List.mem_append.mp heb with heb | heb
    · exact (h.frozen eb heb).mono hoff
    · rw [List.mem_singleton.mp heb]
      intro c x h1 h2 hx
      have hle := hok.off_le
      have hused := hok.used_le
      have hin : kernel.InBuffer b 0 x := by
        simp only [Kernel.InBuffer, Stq.bufferFragment, waiting] at *
        omega
      have hcb : c = b := hk.apart hx hin
      rw [hbuf, if_pos hcb, hcb] at hx
      simp only [Kernel.InBuffer, Stq.bufferFragment, waiting] at *
      omega
  · intro c hc
    rw [hbuf]
    split_ifs with hcb
    · exact ⟨le_rfl, hok.used_le⟩
    · exact h.ok c hc
  · intro c hc _
    rw [hbuf]
    split_ifs with hcb
    · rfl
    · exact h.flushed c hc fun hh => hcb (Option.some.inj hh).symm

theorem pending_of_waiting_zero (h : waiting stp hand = 0) : pending kernel stp hand = [] := by
  cases hand with
  | none => rfl
  | some b => rw [pending, h, Memory.read_zero]

theorem waiting_bufferAdded (eop : Bool) : waiting (stp.bufferAdded kernel b eop) (some b) = 0 := by
  simp [waiting, Stq.bufferAdded]

theorem fill_bufferAdded (eop : Bool) : fill (stp.bufferAdded kernel b eop) (some b) = fill stp (some b) := by
  simp [fill, Stq.bufferAdded]

/-- A buffer with data is added in the middle of a packet. -/
theorem Built.add_buffer (hk : kernel.Sound) (h : Built kernel id start done (some b) stp)
    (hn : stp.stEb.length ≠ EFX_TXQ_LIMIT SFXGE_TX_NDESCS) (hw : 0 < waiting stp (some b)) :
    Built kernel id start done (some b) (stp.bufferAdded kernel b false) := by
  obtain ⟨hs, hold, new, hnew, hinner, hdone⟩ := h
  have hb : b ∈ stp.stStbp id := hs.held b rfl
  have hok := hs.ok b hb
  have hfits : (stp.buffers b).stbOff + waiting stp (some b) ≤ SFXGE_TX_BUFFER_SIZE := by
    have hused := hok.used_le
    have hle := hok.off_le
    simp only [waiting] at *
    omega
  refine ⟨(hs.add_buffer hk hn false).take_up hb, hold, new ++ [stp.bufferFragment kernel b false], ?_, ?_, ?_⟩
  · rw [Stq.bufferAdded, hnew, List.append_assoc]
  · intro eb heb
    rcases List.mem_append.mp heb with heb | heb
    · exact hinner eb heb
    · rw [List.mem_singleton.mp heb]
      exact ⟨hk.fits b hfits false, hw, rfl⟩
  · rw [pending_of_waiting_zero (waiting_bufferAdded false), List.append_nil, contents_append, contents_singleton]
    exact hdone

/-- The buffer at hand ends the packet. -/
theorem Built.close_buffer (hk : kernel.Sound) (h : Built kernel id start done (some b) stp)
    (hn : stp.stEb.length ≠ EFX_TXQ_LIMIT SFXGE_TX_NDESCS) :
    Finished kernel id start done (waiting stp (some b)) (stp.bufferAdded kernel b true) := by
  obtain ⟨hs, hold, new, hnew, hinner, hdone⟩ := h
  have hok := hs.ok b (hs.held b rfl)
  have hfits : (stp.buffers b).stbOff + waiting stp (some b) ≤ SFXGE_TX_BUFFER_SIZE := by
    have hused := hok.used_le
    have hle := hok.off_le
    simp only [waiting] at *
    omega
  refine ⟨hs.add_buffer hk hn true, hold, new, stp.bufferFragment kernel b true, ?_, hinner,
    hk.fits b hfits true, rfl, rfl, ?_⟩
  · rw [Stq.bufferAdded, hnew, List.append_assoc]
  · rw [contents_append, contents_singleton]
    exact hdone

/-! ### Taking a buffer -/

/-- An unused buffer is at hand. -/
def Stq.bufferTaken (stp : Stq) (id : Fin SFXGE_TX_NDESCS) (b n : ℕ) (free : List ℕ) : Stq :=
  { stp with
    nbuffers := n
    stFbp := free
    stStbp := Function.update stp.stStbp id (b :: stp.stStbp id) }

theorem post_takeBuffer_ret (h0 : q0.bufs.Clean .unused) (hd : q0.bufs.Drawn stp.bufs (stp.stStbp id)) :
    (takeBuffer kernel id).Post stp
      (fun b stp' => stp.buffers b = .unused ∧ ∃ n free, stp' = stp.bufferTaken id b n free) fun _ => True := by
  rw [takeBuffer]
  cases hfree : stp.stFbp with
  | cons b rest =>
    have hget : (qfbpGet : Prog Stq Errno _) stp = .ret (some b) { stp with stFbp := rest } := by
      rw [qfbpGet, hfree]
    have hb : stp.bufs.obj b = .unused := hd.free_unused h0 (by
      change b ∈ stp.stFbp
      rw [hfree]
      exact List.mem_cons_self ..)
    exact post_of_ret (bind_of_ret hget) ⟨hb, _, _, rfl⟩
  | nil =>
    have hget : (qfbpGet : Prog Stq Errno _) stp = .ret none stp := by rw [qfbpGet, hfree]
    by_cases hk : kernel.tbc stp.nbuffers = true
    · have hb : stp.buffers stp.nbuffers = .unused := hd.fresh h0 (le_refl _)
      have hsame : Function.update stp.buffers stp.nbuffers .unused = stp.buffers := by
        rw [← hb, Function.update_eq_self]
      have halloc : (tbcAlloc kernel : Prog Stq Errno _) stp = .ret (some stp.nbuffers) { stp with
          nbuffers := stp.nbuffers + 1 } := by
        rw [tbcAlloc, if_pos hk, hsame]
      exact post_of_ret ((bind_of_ret hget).trans (bind_of_ret halloc)) ⟨hb, _, _, by rw [Stq.bufferTaken, hfree]⟩
    · have halloc : (tbcAlloc kernel : Prog Stq Errno _) stp = .ret none stp := by
        rw [tbcAlloc, if_neg hk]
      exact post_of_err ((bind_of_ret hget).trans (bind_of_ret halloc)) trivial

theorem Steady.take (h : Steady kernel id phys0 none stp) (hb : stp.buffers b = .unused) (n : ℕ) (free : List ℕ) :
    Steady kernel id phys0 (some b) (stp.bufferTaken id b n free) := by
  have hlist : (stp.bufferTaken id b n free).stStbp id = b :: stp.stStbp id := Function.update_self ..
  refine ⟨h.room, h.frozen, h.outside, ?_, ?_, ?_⟩
  · rw [hlist]
    refine List.forall_mem_cons.mpr ⟨?_, h.ok⟩
    rw [show (stp.bufferTaken id b n free).buffers b = .unused from hb]
    exact ⟨le_rfl, Nat.zero_le _⟩
  · rw [hlist]
    exact List.forall_mem_cons.mpr ⟨fun hne => absurd rfl hne, fun c hc _ => h.flushed c hc nofun⟩
  · rintro _ ⟨⟩
    rw [hlist]
    exact List.mem_cons_self ..

theorem waiting_of_unused (hb : stp.buffers b = .unused) : waiting stp (some b) = 0 := by
  rw [waiting, hb]
  rfl

/-- A buffer is picked where the one at hand, if it is full, has nothing waiting. -/
theorem Built.pick {msg : List Mblk} {bs ms : List ℕ} (h : Built kernel id start done hand stp)
    (h0 : q0.bufs.Clean .unused) (hh : Holding id q0 msg bs ms stp) (full : TxBuffer → Prop) [DecidablePred full]
    (hfull : ∀ b ∈ hand, full (stp.buffers b) → waiting stp hand = 0) :
    (pickBuffer kernel id hand full).Post stp (fun b stp' => Built kernel id start done (some b) stp' ∧
      stp'.msg = stp.msg ∧ waiting stp' (some b) = waiting stp hand ∧
      (hand = some b ∧ stp' = stp ∧ ¬ full (stp.buffers b) ∨
        (∀ c ∈ hand, full (stp.buffers c)) ∧ stp'.buffers b = .unused)) fun _ => True := by
  have htake : waiting stp hand = 0 → (∀ c ∈ hand, full (stp.buffers c)) →
      (takeBuffer kernel id).Post stp (fun b stp' => Built kernel id start done (some b) stp' ∧
        stp'.msg = stp.msg ∧ waiting stp' (some b) = waiting stp hand ∧
        (hand = some b ∧ stp' = stp ∧ ¬ full (stp.buffers b) ∨
          (∀ c ∈ hand, full (stp.buffers c)) ∧ stp'.buffers b = .unused)) fun _ => True := by
    intro hw hall
    refine (post_takeBuffer_ret h0 hh.kept.bufs).mono (fun b stp' hq => ?_) fun _ ht => ht
    obtain ⟨hb, n, free, rfl⟩ := hq
    have hb' : (stp.bufferTaken id b n free).buffers b = .unused := hb
    obtain ⟨new, hnew, hinner, hdone⟩ := h.pieces
    refine ⟨⟨(h.steady.put_down hw).take hb n free, h.old, new, hnew, hinner, ?_⟩, rfl, ?_, .inr ⟨hall, hb⟩⟩
    · rw [pending_of_waiting_zero hw] at hdone
      rw [pending_of_waiting_zero (waiting_of_unused hb')]
      exact hdone
    · rw [hw, waiting_of_unused hb']
  cases hand with
  | none => exact htake rfl nofun
  | some b =>
    by_cases hf : full (stp.buffers b)
    · have hpost := htake (hfull b rfl hf) (by rintro _ ⟨⟩; exact hf)
      have hrun : pickBuffer kernel id (some b) full stp = takeBuffer kernel id stp := if_pos hf
      exact ⟨fun a s' hr => hpost.1 a s' (hrun ▸ hr), fun _ _ _ => trivial⟩
    · exact post_of_ret (if_neg hf) ⟨h, rfl, rfl, .inl ⟨rfl, rfl, hf⟩⟩

/-! ### Copying -/

/-- The state after bytes are copied behind those that a buffer holds. -/
def Stq.copied (stp : Stq) (kernel : Kernel) (b : ℕ) (bs : Bytes) : Stq :=
  { stp with
    phys := stp.phys.write (kernel.esmAddr b + (stp.buffers b).esmUsed) bs
    buffers := Function.update stp.buffers b
      { stp.buffers b with esmUsed := (stp.buffers b).esmUsed + bs.length } }

variable {bs : Bytes}

theorem copied_buffer : (stp.copied kernel b bs).buffers b =
    { stp.buffers b with esmUsed := (stp.buffers b).esmUsed + bs.length } := Function.update_self ..

theorem Steady.copy (h : Steady kernel id phys0 (some b) stp)
    (hroom : (stp.buffers b).esmUsed + bs.length ≤ SFXGE_TX_BUFFER_SIZE) :
    Steady kernel id phys0 (some b) (stp.copied kernel b bs) := by
  have hother : ∀ c ≠ b, (stp.copied kernel b bs).buffers c = stp.buffers c := fun c hc =>
    Function.update_of_ne hc ..
  have hle := (h.ok b (h.held b rfl)).off_le
  refine ⟨h.room, ?_, ?_, ?_, ?_, h.held⟩
  · refine fun eb heb => (h.frozen eb heb).mono fun c => le_of_eq ?_
    by_cases hc : c = b
    · rw [hc, copied_buffer]
    · rw [hother c hc]
  · intro x hx
    refine (Memory.write_of_not_mem fun hin => hx b ?_).trans (h.outside x hx)
    simp only [Kernel.InBuffer]
    omega
  · intro c hc
    by_cases hcb : c = b
    · rw [hcb, copied_buffer]
      exact ⟨hle.trans (Nat.le_add_right ..), hroom⟩
    · rw [hother c hcb]
      exact h.ok c hc
  · intro c hc hne
    rw [hother c fun hcb => hne (congrArg some hcb.symm)]
    exact h.flushed c hc hne

theorem waiting_copied (h : (stp.buffers b).Ok) :
    waiting (stp.copied kernel b bs) (some b) = waiting stp (some b) + bs.length := by
  have hle := h.off_le
  simp only [waiting, copied_buffer]
  omega

/-- What is copied waits in the buffer. -/
theorem Built.copy (h : Built kernel id start done (some b) stp) (bs : Bytes)
    (hroom : (stp.buffers b).esmUsed + bs.length ≤ SFXGE_TX_BUFFER_SIZE) :
    Built kernel id start (done ++ bs) (some b) (stp.copied kernel b bs) := by
  obtain ⟨hs, hold, new, hnew, hinner, hdone⟩ := h
  have hok := hs.ok b (hs.held b rfl)
  have hle := hok.off_le
  have hsum : (stp.buffers b).stbOff + waiting stp (some b) = (stp.buffers b).esmUsed := by
    simp only [waiting]
    omega
  have hfrozen : ∀ eb ∈ stp.stEb, (stp.copied kernel b bs).phys.read eb.ebAddr eb.ebSize =
      stp.phys.read eb.ebAddr eb.ebSize := fun eb heb => (hs.frozen eb heb).read_write hle hroom
  have hcontents : contents (stp.copied kernel b bs).phys new = contents stp.phys new :=
    contents_congr fun eb heb => hfrozen eb (by rw [hnew]; exact List.mem_append_right _ heb)
  have hpreserved : Preserved start (stp.copied kernel b bs) := fun eb heb =>
    (hfrozen eb (by rw [hnew]; exact List.mem_append_left _ heb)).trans (hold eb heb)
  have hpending : pending kernel (stp.copied kernel b bs) (some b) = pending kernel stp (some b) ++ bs := by
    have hoff : ((stp.copied kernel b bs).buffers b).stbOff = (stp.buffers b).stbOff := by rw [copied_buffer]
    rw [pending, waiting_copied hok, Memory.read_add, hoff, pending, Nat.add_assoc, hsum]
    refine congrArg₂ (· ++ ·) (Memory.read_write_of_apart fun x h1 h2 hx => ?_) Memory.read_write_self
    omega
  exact ⟨hs.copy hroom, hpreserved, new, hnew, hinner, by rw [hcontents, hpending, ← List.append_assoc, hdone]⟩

end Sfxge.Tx.Frag
