import Sfxge.Tx.Abort
import Sfxge.Tx.Bind

/-!
# Tx.Packet — the fragments of a packet

`sfxge_tx_qpacket_fragment` goes through the blocks of a message.  The fragments it has built hold the bytes of the
message, and the last of them ends the packet.  An empty block at the end is copied like any other: where nothing
waits in a buffer it becomes a fragment without data.
-/

namespace Sfxge.Tx.Frag

open Lib Lib.Prog Errno

variable {kernel : Kernel} {id : Fin SFXGE_TX_NDESCS} {copy : Bool} {stp stp' q0 : Stq} {blk : Mblk}
  {v : Locals} {n : ℕ} {start : Stq} {done : Bytes} {hand : Option ℕ}

/-! ### What is copied -/

instance (stFmp : List ℕ) (mp : ℕ) : Decidable (HasMapping kernel stFmp mp) := inferInstanceAs (Decidable (_ ∨ _))

instance (stFmp : List ℕ) (mp off : ℕ) : Decidable (Maps kernel copy stFmp mp off blk) :=
  inferInstanceAs (Decidable (_ ∧ _))

/-- What has become of the blocks before a block: the mappings that are left in the pool, how many bytes have been
copied, and how many of them since a block was mapped. -/
structure Tally where
  pool : List ℕ
  copied : ℕ
  since : ℕ
  deriving DecidableEq

def Tally.next (kernel : Kernel) (copy : Bool) (mp : ℕ) (blk : Mblk) (t : Tally) : Tally :=
  if Maps kernel copy t.pool mp 0 blk then ⟨poolLeft copy blk 0 t.pool, t.copied, 0⟩
  else ⟨poolLeft copy blk 0 t.pool, t.copied + blk.mblkl, t.since + blk.mblkl⟩

/-- What has become of the blocks before `mp`. -/
def tally (kernel : Kernel) (copy : Bool) (stFmp : List ℕ) (msg : List Mblk) : ℕ → Tally
  | 0 => ⟨stFmp, 0, 0⟩
  | mp + 1 =>
    match msg[mp]? with
    | some blk => (tally kernel copy stFmp msg mp).next kernel copy mp blk
    | none => tally kernel copy stFmp msg mp

/-- Copied data waits in a buffer. -/
def Tally.Waits (t : Tally) : Prop := t.since ≠ 0 ∧ t.copied % SFXGE_TX_BUFFER_SIZE ≠ 0

instance (t : Tally) : Decidable t.Waits := inferInstanceAs (Decidable (_ ∧ _))

/-- The last block has data, or data waits in a buffer when it is reached. -/
def EndsWithData (kernel : Kernel) (copy : Bool) (stFmp : List ℕ) (msg : List Mblk) : Prop :=
  ∀ blk ∈ msg.getLast?, 0 < blk.mblkl ∨ (tally kernel copy stFmp msg (msg.length - 1)).Waits

/-! ### The loop -/

/-- The state of the loop before a round. -/
structure Running (kernel : Kernel) (id : Fin SFXGE_TX_NDESCS) (copy : Bool) (q0 : Stq) (v : Locals) (blk : Mblk)
    (t : Tally) (stp : Stq) : Prop where
  built : Built kernel id q0 ((msgBytes q0.msg).take (place q0.msg v.mp v.off)) v.stbp stp
  flushed : Flushed stp v.stbp
  size : v.size = LONG_MAX - place q0.msg v.mp v.off
  block : q0.msg[v.mp]? = some blk
  before : t = tally kernel copy q0.stFmp q0.msg v.mp
  inside : v.off = 0 ∨ 0 < v.off ∧ v.off < blk.mblkl ∧ ¬ Maps kernel copy t.pool v.mp 0 blk
  fill : fill stp v.stbp = (t.copied + v.off) % SFXGE_TX_BUFFER_SIZE
  waiting : waiting stp v.stbp = 0 ↔ t.since + v.off = 0 ∨ (t.copied + v.off) % SFXGE_TX_BUFFER_SIZE = 0

/-- The mappings that the pool has left before a round. -/
def Locals.pool (v : Locals) (copy : Bool) (blk : Mblk) (t : Tally) : List ℕ :=
  if v.off = 0 then t.pool else poolLeft copy blk 0 t.pool

/-- The packet is complete. -/
def Ended (kernel : Kernel) (id : Fin SFXGE_TX_NDESCS) (copy : Bool) (q0 stp : Stq) : Prop :=
  ∃ k, Finished kernel id q0 (msgBytes q0.msg) k stp ∧ (0 < k ↔ EndsWithData kernel copy q0.stFmp q0.msg)

theorem Finished.length_le (h : Finished kernel id start done n stp) :
    done.length ≤ SFXGE_TX_DESCSIZE * EFX_TXQ_LIMIT SFXGE_TX_NDESCS := by
  obtain ⟨new, last, hnew, hinner, hfits, -, -, hdone⟩ := h.pieces
  have hroom := h.steady.room
  rw [hnew, List.length_append] at hroom
  rw [← hdone]
  refine (length_contents_le _ fun eb heb => ?_).trans (Nat.mul_le_mul_left _ ((Nat.le_add_left ..).trans hroom))
  rcases List.mem_append.mp heb with heb | heb
  · exact (hinner eb heb).fits
  · rw [List.mem_singleton.mp heb]
    exact hfits

theorem Built.length_le (h : Built kernel id start done hand stp) :
    done.length ≤ SFXGE_TX_DESCSIZE * EFX_TXQ_LIMIT SFXGE_TX_NDESCS + SFXGE_TX_BUFFER_SIZE := by
  obtain ⟨new, hnew, hinner, hdone⟩ := h.pieces
  have hroom := h.steady.room
  rw [hnew, List.length_append] at hroom
  have hcontents := (length_contents_le stp.phys fun eb heb => (hinner eb heb).fits).trans
    (Nat.mul_le_mul_left SFXGE_TX_DESCSIZE ((Nat.le_add_left ..).trans hroom))
  have hpending : (pending kernel stp hand).length ≤ SFXGE_TX_BUFFER_SIZE := by
    cases hand with
    | none => exact Nat.zero_le _
    | some b =>
      have hle := (h.steady.ok b (h.steady.held b rfl)).used_le
      rw [pending, Memory.length_read, waiting]
      omega
  rw [← hdone, List.length_append]
  omega

section

variable {t : Tally} (hr : Running kernel id copy q0 v blk t stp)
include hr

theorem Running.off_le : v.off ≤ blk.mblkl := by
  rcases hr.inside with h0 | ⟨-, hlt, -⟩ <;> omega

/-- `LONG_MAX` is larger than the packet. -/
theorem Running.size_pos : 0 < v.size ∧ place q0.msg v.mp v.off + v.size = LONG_MAX := by
  have hle := hr.built.length_le
  rw [List.length_take, Nat.min_eq_left (place_add_le hr.block hr.off_le)] at hle
  have hsize := hr.size
  simp only [SFXGE_TX_DESCSIZE, EFX_TXQ_LIMIT, SFXGE_TX_NDESCS, SFXGE_TX_BUFFER_SIZE] at hle
  simp only [LONG_MAX] at *
  omega

/-- Where the packet ends, it is complete. -/
theorem Running.close (hmsg : stp.msg = q0.msg)
    (hm : Moved kernel id q0 ((msgBytes q0.msg).take (place q0.msg v.mp v.off)) blk v stp n hand stp')
    (hc : v.Closes q0.msg.length blk n) :
    v.off + n = blk.mblkl ∧ v.mp + 1 = q0.msg.length ∧ Ended kernel id copy q0 stp' := by
  obtain ⟨k, hk, hfin⟩ := hm.finished (hmsg ▸ hc)
  obtain ⟨hpos, hsum⟩ := hr.size_pos
  have hn := hm.le
  rw [take_slice hr.block hn] at hfin
  have hnext := place_next n hr.block
  have hlast : v.off + n = blk.mblkl ∧ v.mp + 1 = q0.msg.length := by
    refine hc.resolve_left fun hsize => ?_
    have hle := hfin.length_le
    have hend := place_add_le hr.block hn
    rw [List.length_take, hnext, Nat.min_eq_left (by simp only [place] at hend ⊢; omega), ← hsize, hsum] at hle
    simp only [SFXGE_TX_DESCSIZE, EFX_TXQ_LIMIT, SFXGE_TX_NDESCS, LONG_MAX] at hle
    omega
  obtain ⟨hend, hlen⟩ := hlast
  refine ⟨hend, hlen, k, ?_, ?_⟩
  · have hwhole : place q0.msg (v.next blk n).1 (v.next blk n).2 = (msgBytes q0.msg).length := by
      rw [Locals.next, if_pos hend, place, hlen, List.take_length, length_msgBytes, Nat.add_zero]
    rwa [hwhole, List.take_length] at hfin
  · have hget : q0.msg.getLast? = some blk := by
      rw [List.getLast?_eq_getElem?, ← hlen, Nat.add_sub_cancel]
      exact hr.block
    have hmp : q0.msg.length - 1 = v.mp := by omega
    rw [EndsWithData, hget, hmp, ← hr.before]
    simp only [Option.mem_def, Option.some.injEq, forall_eq', Tally.Waits]
    have hwait := hr.waiting
    have hn0 := hm.pos
    rcases hr.inside with h0 | ⟨h0, hlt, -⟩
    · rw [h0, Nat.add_zero, Nat.add_zero] at hwait
      omega
    · omega

theorem Running.maps_only (h : MapsOnly stp stp') : Running kernel id copy q0 v blk t stp' := by
  obtain ⟨hb, hf, hw, hfill⟩ := h.built hr.built
  exact { hr with built := hb, flushed := hf hr.flushed, fill := hfill.trans hr.fill, waiting := hw ▸ hr.waiting }

/-- There is a next block where the packet does not end with this one. -/
theorem Running.next_block (hc : ¬ v.Closes q0.msg.length blk n) (hend : v.off + n = blk.mblkl) :
    ∃ blk', q0.msg[v.mp + 1]? = some blk' := by
  obtain ⟨hlt, -⟩ := List.getElem?_eq_some_iff.mp hr.block
  rw [Locals.Closes, not_or, not_and] at hc
  have := hc.2 hend
  exact ⟨_, List.getElem?_eq_getElem (by omega)⟩

/-- The state before the next round, where the block has been copied. -/
theorem Running.after_copy (hmsg : stp.msg = q0.msg) {b : ℕ} (stmp : Option ℕ)
    (hm : Moved kernel id q0 ((msgBytes q0.msg).take (place q0.msg v.mp v.off)) blk v stp n (some b) stp')
    (hc : ¬ v.Closes q0.msg.length blk n) (hno : ¬ Maps kernel copy t.pool v.mp 0 blk)
    (hfree : stp'.stFmp = poolLeft copy blk 0 t.pool) (hroom : Frag.fill stp v.stbp + n ≤ SFXGE_TX_BUFFER_SIZE)
    (hfill : Frag.fill stp' (some b) = (Frag.fill stp v.stbp + n) % SFXGE_TX_BUFFER_SIZE)
    (hwait : Frag.waiting stp' (some b) =
      if Frag.fill stp v.stbp + n = SFXGE_TX_BUFFER_SIZE then 0 else Frag.waiting stp v.stbp + n) :
    ∃ v' blk' t', v' = ⟨(v.next blk n).1, (v.next blk n).2, v.size - n, some b, stmp⟩ ∧
      Running kernel id copy q0 v' blk' t' stp' ∧ stp'.stFmp = v'.pool copy blk' t' := by
  obtain ⟨hb, hf⟩ := hm.built (hmsg ▸ hc)
  rw [take_slice hr.block hm.le] at hb
  have hplace := place_next n hr.block
  have hsize : v.size - n = LONG_MAX - place q0.msg (v.next blk n).1 (v.next blk n).2 := by
    rw [hplace, hr.size, Nat.sub_sub]
  -- what has been copied, in the terms of the block before
  have hfill' : Frag.fill stp' (some b) = (t.copied + (v.off + n)) % SFXGE_TX_BUFFER_SIZE := by
    rw [hfill, hr.fill, Nat.mod_add_mod, Nat.add_assoc]
  have hwait' : Frag.waiting stp' (some b) = 0 ↔
      t.since + (v.off + n) = 0 ∨ (t.copied + (v.off + n)) % SFXGE_TX_BUFFER_SIZE = 0 := by
    have hlt : (t.copied + v.off) % SFXGE_TX_BUFFER_SIZE < SFXGE_TX_BUFFER_SIZE := Nat.mod_lt _ (by decide)
    have hw := hr.waiting
    have hfl := hr.fill
    rw [← hfill', hfill, hwait]
    rw [← hfl] at hw
    split_ifs with hfull
    · rw [hfull, Nat.mod_self]
      exact ⟨fun _ => .inr rfl, fun _ => rfl⟩
    · rw [Nat.mod_eq_of_lt (lt_of_le_of_ne hroom hfull)]
      omega
  by_cases hend : v.off + n = blk.mblkl
  · obtain ⟨blk', hblk'⟩ := hr.next_block hc hend
    have ht : tally kernel copy q0.stFmp q0.msg (v.mp + 1) =
        ⟨poolLeft copy blk 0 t.pool, t.copied + blk.mblkl, t.since + blk.mblkl⟩ := by
      rw [tally, hr.block]
      dsimp only
      rw [← hr.before, Tally.next, if_neg hno]
    rw [hend] at hfill' hwait'
    rw [Locals.next, if_pos hend] at hb hsize ⊢
    exact ⟨_, blk', _, rfl, ⟨hb, hf, hsize, hblk', ht.symm, .inl rfl, hfill', hwait'⟩, hfree⟩
  · have hn := hm.le
    have hpos := hm.pos
    obtain ⟨hsz, -⟩ := hr.size_pos
    rw [Locals.next, if_neg hend] at hb hsize ⊢
    have hoff : 0 < v.off + n ∧ v.off + n < blk.mblkl := by omega
    refine ⟨_, blk, t, rfl, ⟨hb, hf, hsize, hr.block, hr.before, .inr ⟨hoff.1, hoff.2, hno⟩, hfill', hwait'⟩, ?_⟩
    rw [hfree, Locals.pool, if_neg (Nat.ne_of_gt hoff.1)]

/-- The state before the next round, where the block has been mapped. -/
theorem Running.after_map (hmsg : stp.msg = q0.msg) (stmp : Option ℕ)
    (hm : Moved kernel id q0 ((msgBytes q0.msg).take (place q0.msg v.mp v.off)) blk v stp n v.stbp stp')
    (hc : ¬ v.Closes q0.msg.length blk n) (hend : v.off + n = blk.mblkl) (hoff : v.off = 0)
    (hmaps : Maps kernel copy t.pool v.mp 0 blk) (hfree : stp'.stFmp = poolLeft copy blk 0 t.pool)
    (hfill : Frag.fill stp' v.stbp = Frag.fill stp v.stbp) (hwait : Frag.waiting stp' v.stbp = 0) :
    ∃ v' blk' t', v' = ⟨v.mp + 1, 0, v.size - n, v.stbp, stmp⟩ ∧ Running kernel id copy q0 v' blk' t' stp' ∧
      stp'.stFmp = v'.pool copy blk' t' := by
  obtain ⟨hb, hf⟩ := hm.built (hmsg ▸ hc)
  rw [take_slice hr.block hm.le] at hb
  have hplace := place_next n hr.block
  have hsize : v.size - n = LONG_MAX - place q0.msg (v.next blk n).1 (v.next blk n).2 := by
    rw [hplace, hr.size, Nat.sub_sub]
  obtain ⟨blk', hblk'⟩ := hr.next_block hc hend
  have ht : tally kernel copy q0.stFmp q0.msg (v.mp + 1) = ⟨poolLeft copy blk 0 t.pool, t.copied, 0⟩ := by
    rw [tally, hr.block]
    dsimp only
    rw [← hr.before, Tally.next, if_pos hmaps]
  have hfill0 := hr.fill
  rw [hoff] at hfill0
  rw [Locals.next, if_pos hend] at hb hsize
  exact ⟨_, blk', _, rfl, ⟨hb, hf, hsize, hblk', ht.symm, .inl rfl, hfill.trans hfill0, fun _ => .inl rfl,
    fun _ => hwait⟩, hfree⟩

end

/-- What a round leads to: another round, or the complete packet. -/
def Outcome (kernel : Kernel) (id : Fin SFXGE_TX_NDESCS) (copy : Bool) (q0 : Stq) (v : Locals) (stp : Stq) : Prop :=
  (∃ blk t, Running kernel id copy q0 v blk t stp ∧ stp.stFmp = v.pool copy blk t) ∨
    v.mp = q0.msg.length ∧ Ended kernel id copy q0 stp

section

variable {t : Tally} {m : ℕ} (hk : kernel.Sound) (hr : Running kernel id copy q0 v blk t stp) (hmsg : stp.msg = q0.msg)
  (hfree : stp.stFmp = poolLeft copy blk 0 t.pool)
include hk hr hmsg hfree

theorem post_copyBlock_outcome (h0 : Idle q0) {bs ms : List ℕ} (hh : Holding id q0 q0.msg bs ms stp)
    (hno : ¬ Maps kernel copy t.pool v.mp 0 blk) :
    (copyBlock kernel id v).Post stp (fun v' stp' => Outcome kernel id copy q0 v' stp') fun _ => True := by
  have hmoved := post_copyBlock_moved hk h0.bufs hh hr.built hr.flushed (hmsg ▸ hr.block) hr.off_le
  refine (hmoved.and (post_of_frames (frames_copyBlock kernel id v) stp)).mono ?_ fun _ _ => trivial
  rintro _ stp' ⟨⟨n, b, rfl, hroom, hm, htally⟩, hframe⟩
  rw [hmsg] at htally
  have hfree' : stp'.stFmp = poolLeft copy blk 0 t.pool := (congrArg (·.2.2.1) hframe).trans hfree
  by_cases hc : v.Closes q0.msg.length blk n
  · obtain ⟨hend, hlen, hended⟩ := hr.close hmsg hm hc
    refine .inr ⟨?_, hended⟩
    rw [Locals.next, if_pos hend]
    exact hlen
  · obtain ⟨hfill, hwait⟩ := htally hc
    obtain ⟨_, blk', t', rfl, hr', hpool⟩ := hr.after_copy hmsg v.stmp hm hc hno hfree' hroom hfill hwait
    exact .inl ⟨blk', t', hr', hpool⟩

theorem post_mapBlock_outcome (hmaps : Maps kernel copy t.pool v.mp 0 blk) (hoff : v.off = 0) {dmac : Cookie}
    {cookies : List Cookie} (hm : Mapped kernel stp m v.mp blk dmac cookies)
    (hbinds : copy = false → kernel.Binds q0.phys q0.msg) :
    (mapBlock kernel m v).Post stp (fun r stp' => Outcome kernel id copy q0 ⟨v.mp + 1, 0, r.2, v.stbp, some m⟩ stp')
      fun _ => True := by
  have hback := hbinds hmaps.1 v.mp blk _ hr.block hm.1
  have hlen : v.off < blk.mblkl := by
    have := hmaps.2.1.2
    rw [hoff]
    exact lt_of_lt_of_le (by decide) this
  have hmoved := post_mapBlock_moved hk hm hback hr.built hlen hr.size_pos.1
  refine (hmoved.and (post_of_frames (frames_mapBlock kernel m v) stp)).mono ?_ fun _ _ => trivial
  rintro _ stp' ⟨⟨n, hn, hstop, rfl, hm, hfill, hwait⟩, hframe⟩
  have hfree' : stp'.stFmp = poolLeft copy blk 0 t.pool := (congrArg (·.2.2.1) hframe).trans hfree
  by_cases hc : v.Closes q0.msg.length blk n
  · obtain ⟨-, hlen, hended⟩ := hr.close hmsg hm hc
    exact .inr ⟨hlen, hended⟩
  · have hend := hstop.resolve_left fun hsize => hc (.inl hsize.symm)
    obtain ⟨_, blk', t', rfl, hr', hpool⟩ := hr.after_map hmsg (some m) hm hc hend hoff hmaps hfree' hfill hwait
    exact .inl ⟨blk', t', hr', hpool⟩

end

/-- **A round.**  It goes on, or the packet is complete. -/
theorem post_packetRound_outcome (hk : kernel.Sound) (hbinds : copy = false → kernel.Binds q0.phys q0.msg)
    (h0 : Idle q0) (hh : Holding id q0 q0.msg v.stbp.toList v.stmp.toList stp) (h : Outcome kernel id copy q0 v stp) :
    (packetRound kernel id copy v).Post stp (fun r stp' => match r with
      | .inl _ => Ended kernel id copy q0 stp'
      | .inr v' => Outcome kernel id copy q0 v' stp') fun _ => True := by
  have hmsg := hh.kept.msg_eq
  rw [packetRound]
  refine post_bind_of_ret rfl ?_
  rcases h with ⟨blk, t, hr, hpool⟩ | ⟨hmp, hended⟩
  · have hlt := (List.getElem?_eq_some_iff.mp hr.block).1
    rw [if_neg (by rw [hmsg]; exact Nat.ne_of_lt hlt)]
    have hmapping := (post_packetMapping hh kernel h0.maps copy v fun m hv => Option.mem_toList.mpr hv).and
      (post_packetMapping_ret id copy (hmsg.symm ▸ hbinds) (hmsg ▸ hr.block))
    refine post_bind (hmapping.mono (fun _ _ hq => hq) fun _ _ => trivial) ?_
    rintro ⟨stmp, mapped⟩ stp1 ⟨hh1, hiff, hmapped, honly, hfree⟩
    have hmsg1 := hh1.kept.msg_eq
    have hr1 := hr.maps_only honly
    have hfree1 : stp1.stFmp = poolLeft copy blk 0 t.pool ∧
        (mapped = true ↔ v.off = 0 ∧ Maps kernel copy t.pool v.mp 0 blk) := by
      rw [hpool] at hfree hiff
      by_cases hoff : v.off = 0
      · rw [Locals.pool, if_pos hoff, hoff] at hfree hiff
        exact ⟨hfree, hiff.trans (iff_and_self.mpr fun _ => hoff)⟩
      · rw [Locals.pool, if_neg hoff] at hfree
        rw [poolLeft, if_neg fun hw => hoff hw.2.1] at hfree
        exact ⟨hfree, fun hm => absurd (hiff.mp hm).2.1.1 hoff, fun hm => absurd hm.1 hoff⟩
    obtain ⟨hfree1, hiff1⟩ := hfree1
    cases hb : mapped with
    | true =>
      obtain ⟨m, dmac, cookies, hstmp, hm⟩ := hmapped hb
      obtain ⟨hoff, hmaps⟩ := hiff1.mp hb
      cases hstmp
      refine post_bind (post_mapBlock_outcome hk hr1 hmsg1 hfree1 hmaps hoff hm hbinds) fun r stp2 h2 => ?_
      exact post_pure h2
    | false =>
      have hno : ¬ Maps kernel copy t.pool v.mp 0 blk := by
        rcases hr.inside with hoff | ⟨-, -, hno⟩
        · exact fun hm => absurd (hiff1.mpr ⟨hoff, hm⟩) (by simp [hb])
        · exact hno
      have hcopy := post_copyBlock_outcome (v := { v with stmp := stmp }) hk { hr1 with } hmsg1 hfree1 h0 hh1 hno
      cases stmp with
      | none => exact post_bind hcopy fun v' stp2 h2 => post_pure h2
      | some m => exact post_bind hcopy fun v' stp2 h2 => post_pure h2
  · rw [if_pos (by rw [hmsg]; exact hmp)]
    exact post_pure hended

/-! ### The whole -/

theorem Idle.steady (h0 : Idle q0) : Steady kernel (slot q0.stAdded) q0.phys none q0 where
  room := by rw [h0.stEb]; exact Nat.zero_le _
  frozen := by rw [h0.stEb]; nofun
  outside _ _ := rfl
  ok := by rw [h0.stStbp]; nofun
  flushed := by rw [h0.stStbp]; nofun
  held := nofun

theorem Running.begin (h0 : Idle q0) (hblk : q0.msg[0]? = some blk) :
    Running kernel (slot q0.stAdded) copy q0 ⟨0, 0, LONG_MAX, none, none⟩ blk ⟨q0.stFmp, 0, 0⟩ q0 where
  built :=
    { steady := h0.steady
      old := by rw [Preserved, h0.stEb]; nofun
      pieces := ⟨[], by rw [h0.stEb]; rfl, nofun, rfl⟩ }
  flushed := nofun
  size := rfl
  block := hblk
  before := rfl
  inside := .inl rfl
  fill := rfl
  waiting := ⟨fun _ => .inl rfl, fun _ => rfl⟩

theorem post_giveMessage {ε : Type} (stpMp : ℕ) : (giveMessage id stpMp : Prog Stq ε Unit).Post stp
    (fun _ stp' => stp'.stEb = stp.stEb ∧ stp'.phys = stp.phys) fun _ => True := by
  refine ⟨fun _ s' hr => ?_, fun _ _ _ => trivial⟩
  rw [giveMessage] at hr
  split_ifs at hr <;> cases hr <;> exact ⟨rfl, rfl⟩

/-- What has been built of a packet when `sfxge_tx_qpacket_fragment` returns. -/
theorem post_qpacketFragment_ended (hk : kernel.Sound) (copy : Bool)
    (hbinds : copy = false → kernel.Binds q0.phys q0.msg) (h0 : Idle q0) (hne : q0.msg ≠ []) (stpMp : ℕ) :
    (qpacketFragment kernel stpMp copy).Post q0 (fun _ stp => ∃ stp1, Ended kernel (slot q0.stAdded) copy q0 stp1 ∧
      stp.stEb = stp1.stEb ∧ stp.phys = stp1.phys) fun _ => True := by
  obtain ⟨blk, rest, hmsg⟩ := List.exists_cons_of_ne_nil hne
  rw [qpacketFragment]
  refine post_bind_of_ret rfl (post_bind (Q := fun _ stp1 => Ended kernel (slot q0.stAdded) copy q0 stp1) ?_ ?_)
  · refine post_iterate (fun v stp' => Holding (slot q0.stAdded) q0 q0.msg v.stbp.toList v.stmp.toList stp' ∧
      Outcome kernel (slot q0.stAdded) copy q0 v stp') (fun v stp' h' => ?_) _ _ _
      ⟨.refl h0.stStbp h0.stStmp, .inl ⟨blk, _, .begin h0 (by rw [hmsg]; rfl), rfl⟩⟩
    obtain ⟨hh, hout⟩ := h'
    have hhold := post_packetRound hh kernel h0.maps copy v
      (fun b hv => Option.mem_toList.mpr hv) fun m hv => Option.mem_toList.mpr hv
    refine (hhold.and (post_packetRound_outcome hk hbinds h0 hh hout)).mono (fun r stp2 h2 => ?_) fun _ _ => trivial
    cases r with
    | inl c => exact h2.2
    | inr v' =>
      exact ⟨h2.1.mono (fun b hmem => List.mem_append_left _ hmem) fun m hmem => List.mem_append_left _ hmem, h2.2⟩
  · intro _ stp1 h1
    exact (post_giveMessage stpMp).mono (fun _ stp2 h2 => ⟨stp1, h1, h2⟩) fun _ _ => trivial

/-- The fragments of a packet are as the device wants them, and hold its bytes. -/
structure WellFragmented (msg : List Mblk) (stp : Stq) : Prop where
  pos : ∀ eb ∈ stp.stEb, 0 < eb.ebSize
  fits : ∀ eb ∈ stp.stEb, eb.Fits
  bytes : contents stp.phys stp.stEb = msgBytes msg
  eop : ∃ ebs last, stp.stEb = ebs ++ [last] ∧ last.ebEop = true ∧ ∀ eb ∈ ebs, eb.ebEop = false
  room : stp.stEb.length ≤ EFX_TXQ_LIMIT SFXGE_TX_NDESCS

/-- **Fragmentation of a packet.**  Where it succeeds the fragments are well formed and hold the packet, if and only
if the last block has data or data waits in a buffer when it is reached. -/
theorem qpacketFragment_wellFragmented_iff (hk : kernel.Sound) (hbinds : kernel.Binds q0.phys q0.msg) (h0 : Idle q0)
    (hne : q0.msg ≠ []) {stpMp : ℕ} {copy : Bool} (h : qpacketFragment kernel stpMp copy q0 = .ret () stp) :
    WellFragmented q0.msg stp ↔ EndsWithData kernel copy q0.stFmp q0.msg := by
  have hended := post_qpacketFragment_ended hk copy (fun _ => hbinds) h0 hne stpMp
  obtain ⟨stp1, ⟨k, hfin, hk0⟩, heb, hphys⟩ := hended.1 () stp h
  obtain ⟨new, last, hnew, hinner, hfits, heop, hsize, hdone⟩ := hfin.pieces
  rw [h0.stEb, List.nil_append] at hnew
  have hlist : stp.stEb = new ++ [last] := heb.trans hnew
  refine ⟨fun hw => hk0.mp ?_, fun hdata => ⟨?_, ?_, ?_, ?_, ?_⟩⟩
  · rw [← hsize]
    exact hw.pos last (by rw [hlist]; exact List.mem_append_right _ (List.mem_singleton_self _))
  · intro eb hmem
    rw [hlist] at hmem
    rcases List.mem_append.mp hmem with hmem | hmem
    · exact (hinner eb hmem).pos
    · rw [List.mem_singleton.mp hmem, hsize]
      exact hk0.mpr hdata
  · intro eb hmem
    rw [hlist] at hmem
    rcases List.mem_append.mp hmem with hmem | hmem
    · exact (hinner eb hmem).fits
    · rw [List.mem_singleton.mp hmem]
      exact hfits
  · rw [hphys, hlist]
    exact hdone
  · exact ⟨new, last, hlist, heop, fun eb hmem => (hinner eb hmem).eop⟩
  · rw [heb]
    exact hfin.steady.room

/-- A kernel that binds the first block only, at 0x2000. -/
def oneBlockKernel : Kernel where
  esmAddr b := 0x100000 + SFXGE_TX_BUFFER_SIZE * b
  tbc _ := true
  tmc _ := true
  bind mp := if mp = 0 then some [⟨0x2000, 512⟩] else none

theorem oneBlockKernel_sound : oneBlockKernel.Sound where
  aligned b := ⟨0x400 + b, by simp [oneBlockKernel, SFXGE_TX_BUFFER_SIZE]; omega⟩
  injective b c h := by
    simp only [oneBlockKernel, SFXGE_TX_BUFFER_SIZE] at h
    omega

/-- 512 bytes and another block. -/
def twoBlocks (data : Bytes) : List Mblk := [⟨List.replicate 512 0, 0⟩, ⟨data, 0⟩]

theorem oneBlockKernel_binds (data : Bytes) :
    oneBlockKernel.Binds (freshQueue (twoBlocks data)).phys (twoBlocks data) := by
  intro mp blk cookies hblk hbind
  have hmp : mp = 0 := by
    by_contra hne
    have hnone : oneBlockKernel.bind mp = none := if_neg hne
    rw [hnone] at hbind
    cases hbind
  subst hmp
  have hblk' : blk = ⟨List.replicate 512 0, 0⟩ := (Option.some.inj hblk).symm
  subst hblk'
  cases hbind
  have hlen : (⟨List.replicate 512 0, 0⟩ : Mblk).bytes.length = 512 := List.length_replicate
  refine ⟨?_, ⟨nofun, trivial⟩, hlen.symm, fun k hk => ?_, fun k hk b => ?_⟩
  · intro dmac hmem
    rw [List.mem_singleton.mp hmem]
    decide
  · exact (List.getElem_replicate (by rwa [List.length_replicate, ← hlen])).symm
  · rw [hlen] at hk
    rw [addrOf, if_pos hk]
    simp only [Kernel.InBuffer, oneBlockKernel]
    omega

theorem threeBytes_wellFragmented : ∃ stp, qpacketFragment oneBlockKernel 7 false (freshQueue (twoBlocks [1, 2, 3])) =
    .ret () stp ∧ WellFragmented (twoBlocks [1, 2, 3]) stp := by
  have hrun : (qpacketFragment oneBlockKernel 7 false (freshQueue (twoBlocks [1, 2, 3]))).Returns fun _ => True := by
    decide +kernel
  obtain ⟨⟨⟩, stp, h, -⟩ := hrun
  exact ⟨stp, h, (qpacketFragment_wellFragmented_iff oneBlockKernel_sound (oneBlockKernel_binds _) (idle_freshQueue _)
    nofun h).mpr fun blk hblk => .inl (by cases hblk; decide)⟩

/-- A block that is mapped, and an empty one: the second fragment is empty. -/
theorem emptyLast_not_wellFragmented : oneBlockKernel.Sound ∧
    oneBlockKernel.Binds (freshQueue (twoBlocks [])).phys (twoBlocks []) ∧ Idle (freshQueue (twoBlocks [])) ∧
    ∃ stp, qpacketFragment oneBlockKernel 7 false (freshQueue (twoBlocks [])) = .ret () stp ∧
      ¬ WellFragmented (twoBlocks []) stp := by
  refine ⟨oneBlockKernel_sound, oneBlockKernel_binds _, idle_freshQueue _, ?_⟩
  have hrun : (qpacketFragment oneBlockKernel 7 false (freshQueue (twoBlocks []))).Returns
      fun stp => stp.stEb = [⟨0x2000, 512, false⟩, ⟨0x100000, 0, true⟩] := by decide +kernel
  obtain ⟨⟨⟩, stp, h, heb⟩ := hrun
  refine ⟨stp, h, fun hw => absurd (hw.pos ⟨0x100000, 0, true⟩ ?_) (lt_irrefl 0)⟩
  rw [heb]
  exact List.mem_cons_of_mem _ (List.mem_singleton_self _)

end Sfxge.Tx.Frag
