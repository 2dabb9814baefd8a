import Sfxge.Tx.Packet
import Sfxge.Tx.Payload

/-!
# Tx.Lso — the segments of a large packet

`sfxge_tx_qlso_fragment` cuts a TCP packet into segments.  Each is a copy of the headers with its own sequence
number, id, length and flags, and the next bytes of the payload.
-/

namespace Sfxge.Tx.Frag

open Lib Lib.Prog Errno

variable {kernel : Kernel} {id : Fin SFXGE_TX_NDESCS} {copy : Bool} {stp stp' q0 start : Stq} {stpp : TxPacket}
  {blk : Mblk} {rest msg : List Mblk} {D d : Bytes} {bs : List ℕ} {r hp : ℕ}

/-! ### A packet and its segments -/

section

variable (stpp : TxPacket) (D : Bytes)

/-- The size of the Ethernet header. -/
def TxPacket.etherHs : ℕ := if getBe D (stpp.stpEtherhp + 12) 2 = ETHERTYPE_VLAN then 18 else 14

/-- The size of the IP header. -/
def TxPacket.ipHs : ℕ := getBe D stpp.stpIphp 1 % 16 * 4

/-- The size of the TCP header. -/
def TxPacket.tcpHs : ℕ := getBe D (stpp.stpThp + 12) 1 / 16 * 4

/-- A TCP/IPv4 packet whose headers have been parsed: they follow each other from `b_rptr` on, and the payload
begins behind them. -/
structure Parsed (blk : Mblk) : Prop where
  etherhp : stpp.stpEtherhp = blk.bRptr
  iphp : stpp.stpIphp = blk.bRptr + stpp.etherHs blk.data
  thp : stpp.stpThp = stpp.stpIphp + stpp.ipHs blk.data
  off : stpp.stpOff = stpp.etherHs blk.data + stpp.ipHs blk.data + stpp.tcpHs blk.data
  ipHl : 20 ≤ stpp.ipHs blk.data
  thOff : 20 ≤ stpp.tcpHs blk.data
  size : stpp.stpSize < 2 ^ 64

/-- The payload bytes of segment `i`. -/
def TxPacket.segSize (i : ℕ) : ℕ := min (stpp.stpSize - i * stpp.stpMss) stpp.stpMss

/-- The headers of segment `i`: those of the packet with its own sequence number, id, length and flags. -/
structure SegmentHeader (i : ℕ) (d : Bytes) : Prop where
  rest : SameOutside stpp.changed D d
  thSeq : getBe d stpp.thSeq.1 stpp.thSeq.2 = (getBe D stpp.thSeq.1 stpp.thSeq.2 + i * stpp.stpMss) % 2 ^ 32
  ipId : getBe d stpp.ipId.1 stpp.ipId.2 = (getBe D stpp.ipId.1 stpp.ipId.2 + i) % 2 ^ 16
  ipLen : getBe d stpp.ipLen.1 stpp.ipLen.2 = stpp.ipHs D + stpp.tcpHs D + stpp.segSize i
  thFlags : getBe d stpp.thFlags.1 stpp.thFlags.2 =
    if stpp.stpSize ≤ (i + 1) * stpp.stpMss then getBe D stpp.thFlags.1 stpp.thFlags.2
    else getBe D stpp.thFlags.1 stpp.thFlags.2 &&& (0xff - (TH_PUSH + TH_FIN))

/-- The fragments of segment `i`: they hold its headers and its part of the payload, and the last of them ends it. -/
structure Segment (blk : Mblk) (payload : Bytes) (i : ℕ) (phys : Memory) (ebs : List EfxBuffer) : Prop where
  bytes : ∃ d, SegmentHeader stpp blk.data i d ∧
    contents phys ebs = slice d blk.bRptr stpp.stpOff ++ slice payload (i * stpp.stpMss) (stpp.segSize i)
  eop : ∃ new last, ebs = new ++ [last] ∧ last.ebEop = true ∧ ∀ eb ∈ new, eb.ebEop = false

/-- The message behind the headers. -/
def TxPacket.behind (msg : List Mblk) : List Mblk :=
  msg.modifyHead fun blk => { blk with bRptr := blk.bRptr + stpp.stpOff }

end

/-! ### The headers -/

/-- The headers are in the first block before `r`, and their fields do not overlap. -/
structure Layout (stpp : TxPacket) (hp r : ℕ) (D : Bytes) : Prop where
  hp_le : hp ≤ stpp.stpIphp
  ip : stpp.stpIphp + 20 ≤ stpp.stpThp
  tcp : stpp.stpThp + 20 ≤ r
  len : r ≤ D.length

section

variable (hl : Layout stpp hp r D) (hsame : SameOutside stpp.changed D d)
include hl hsame

theorem Layout.ipHs_eq : stpp.ipHs d = stpp.ipHs D := by
  have hip := hl.ip
  rw [TxPacket.ipHs, TxPacket.ipHs, hsame.getBe_eq fun f hf => ?_]
  simp only [TxPacket.changed, List.mem_cons, List.not_mem_nil, or_false] at hf
  rcases hf with rfl | rfl | rfl | rfl <;>
    simp only [TxPacket.thSeq, TxPacket.thFlags, TxPacket.ipLen, TxPacket.ipId] <;> omega

theorem Layout.tcpHs_eq : stpp.tcpHs d = stpp.tcpHs D := by
  have hip := hl.ip
  rw [TxPacket.tcpHs, TxPacket.tcpHs, hsame.getBe_eq fun f hf => ?_]
  simp only [TxPacket.changed, List.mem_cons, List.not_mem_nil, or_false] at hf
  rcases hf with rfl | rfl | rfl | rfl <;>
    simp only [TxPacket.thSeq, TxPacket.thFlags, TxPacket.ipLen, TxPacket.ipId] <;> omega

/-- The payload is not touched. -/
theorem Layout.behind_eq : d.drop r = D.drop r := by
  have hip := hl.ip
  have htcp := hl.tcp
  refine hsame.drop_eq fun f hf => ?_
  simp only [TxPacket.changed, List.mem_cons, List.not_mem_nil, or_false] at hf
  rcases hf with rfl | rfl | rfl | rfl <;>
    simp only [TxPacket.thSeq, TxPacket.thFlags, TxPacket.ipLen, TxPacket.ipId] <;> omega

end

section

variable {α : Type} {k : ℕ → Prog Stq Errno α} {Q : α → Stq → Prop} {E : Stq → Prop}

theorem post_ipHs_ret (hmsg : stp.msg = ⟨d, r⟩ :: rest) (h : (k (stpp.ipHs d)).Post stp Q E) :
    (ipHs stpp >>= k).Post stp Q E := by
  rw [ipHs, bind_assoc]
  exact post_getField_bind (f := (stpp.stpIphp, 1)) hmsg fun _ => h

theorem post_tcpHs_ret (hmsg : stp.msg = ⟨d, r⟩ :: rest) (h : (k (stpp.tcpHs d)).Post stp Q E) :
    (tcpHs stpp >>= k).Post stp Q E := by
  rw [tcpHs, bind_assoc]
  exact post_getField_bind (f := (stpp.stpThp + 12, 1)) hmsg fun _ => h

end

/-- What the headers of the interim segments and the last one have in `ip_len` and `th_flags`. -/
structure LenFlags (stpp : TxPacket) (d : Bytes) (len flags : ℕ) : Prop where
  len : getBe d stpp.ipLen.1 stpp.ipLen.2 = len % 256 ^ 2
  flags : getBe d stpp.thFlags.1 stpp.thFlags.2 = flags % 256 ^ 1

/-- `ip_len` and `th_flags` are written. -/
theorem LenFlags.set (hl : Layout stpp hp r d) (len flags : ℕ) :
    LenFlags stpp (setBe (setBe d stpp.ipLen.1 stpp.ipLen.2 len) stpp.thFlags.1 stpp.thFlags.2 flags) len flags := by
  have hip := hl.ip
  have htcp := hl.tcp
  have hlen := hl.len
  have h1 : stpp.ipLen.1 + stpp.ipLen.2 ≤ d.length := by simp only [TxPacket.ipLen]; omega
  have h2 : stpp.thFlags.1 + stpp.thFlags.2 ≤ (setBe d stpp.ipLen.1 stpp.ipLen.2 len).length := by
    rw [length_setBe h1]
    simp only [TxPacket.thFlags]
    omega
  refine ⟨?_, getBe_setBe_self h2⟩
  rw [getBe_setBe_of_apart h2 (.inl (by simp only [TxPacket.ipLen, TxPacket.thFlags]; omega)), getBe_setBe_self h1]
  rfl

/-- **The headers of a segment.**  What `adjustHeader` makes of them. -/
theorem post_adjustHeader_ret (hl : Layout stpp hp r D) (hmsg : stp.msg = ⟨d, r⟩ :: rest)
    (hsame : SameOutside stpp.changed D d) (startFlags ipId thSeq ss : ℕ) (eol : Bool) {len flags : ℕ}
    (hlf : LenFlags stpp d len flags) :
    (adjustHeader stpp startFlags ipId thSeq ss eol).Post stp (fun _ stp' =>
      ∃ d', stp' = { stp with msg := ⟨d', r⟩ :: rest } ∧ SameOutside stpp.changed D d' ∧
      getBe d' stpp.ipId.1 stpp.ipId.2 = ipId % 256 ^ 2 ∧ getBe d' stpp.thSeq.1 stpp.thSeq.2 = thSeq % 256 ^ 4 ∧
      LenFlags stpp d' (if eol = true then stpp.ipHs D + stpp.tcpHs D + ss else len)
        (if eol = true then startFlags else flags)) fun _ => True := by
  have hin : stpp.thSeq ∈ stpp.changed ∧ stpp.thFlags ∈ stpp.changed ∧ stpp.ipLen ∈ stpp.changed ∧
      stpp.ipId ∈ stpp.changed := by simp [TxPacket.changed]
  obtain ⟨mseq, mflags, mlen, mid⟩ := hin
  have hip := hl.ip
  have htcp := hl.tcp
  have hDlen := hl.len
  have hbound : ∀ e, SameOutside stpp.changed D e → ∀ f ∈ stpp.changed, f.1 + f.2 ≤ e.length := by
    intro e he f hf
    rw [he.1]
    simp only [TxPacket.changed, List.mem_cons, List.not_mem_nil, or_false] at hf
    rcases hf with rfl | rfl | rfl | rfl <;>
      simp only [TxPacket.thSeq, TxPacket.thFlags, TxPacket.ipLen, TxPacket.ipId] <;> omega
  -- `ip_id` and `th_seq`
  obtain ⟨d1, hd1⟩ : ∃ d1, d1 = setBe d stpp.ipId.1 stpp.ipId.2 ipId := ⟨_, rfl⟩
  obtain ⟨d2, hd2⟩ : ∃ d2, d2 = setBe d1 stpp.thSeq.1 stpp.thSeq.2 thSeq := ⟨_, rfl⟩
  have b1 := hbound d hsame stpp.ipId mid
  have s1 : SameOutside stpp.changed D d1 := hd1 ▸ hsame.set mid (hbound D (.refl _ _) _ mid)
  have b2 := hbound d1 s1 stpp.thSeq mseq
  have s2 : SameOutside stpp.changed D d2 := hd2 ▸ s1.set mseq (hbound D (.refl _ _) _ mseq)
  have hid2 : getBe d2 stpp.ipId.1 stpp.ipId.2 = ipId % 256 ^ 2 := by
    rw [hd2, getBe_setBe_of_apart b2 (.inl (by simp only [TxPacket.ipId, TxPacket.thSeq]; omega)), hd1,
      getBe_setBe_self b1]
    rfl
  have hseq2 : getBe d2 stpp.thSeq.1 stpp.thSeq.2 = thSeq % 256 ^ 4 := by
    rw [hd2, getBe_setBe_self b2]
    rfl
  have hlf2 : LenFlags stpp d2 len flags := by
    refine ⟨?_, ?_⟩
    · rw [hd2, getBe_setBe_of_apart b2 (.inl (by simp only [TxPacket.ipLen, TxPacket.thSeq]; omega)), hd1,
        getBe_setBe_of_apart b1 (.inl (by simp only [TxPacket.ipLen, TxPacket.ipId]; omega)), hlf.len]
    · rw [hd2, getBe_setBe_of_apart b2 (.inr (by simp only [TxPacket.thFlags, TxPacket.thSeq]; omega)), hd1,
        getBe_setBe_of_apart b1 (.inr (by simp only [TxPacket.thFlags, TxPacket.ipId]; omega)), hlf.flags]
  rw [adjustHeader]
  refine post_bind (post_setField (Q := fun _ s => s = { stp with msg := ⟨d1, r⟩ :: rest }) hmsg
    fun _ => by rw [hd1]) ?_
  rintro _ _ rfl
  refine post_bind (post_setField (Q := fun _ s => s = { stp with msg := ⟨d2, r⟩ :: rest }) rfl fun _ => by rw [hd2]) ?_
  rintro _ _ rfl
  refine post_when (fun he => ?_) fun he => ?_
  · -- the last segment
    have hl2 : Layout stpp hp r d2 := { hl with len := s2.1 ▸ hDlen }
    refine post_ipHs_ret rfl (post_tcpHs_ret rfl ?_)
    rw [hl.ipHs_eq s2, hl.tcpHs_eq s2, if_pos he, if_pos he]
    obtain ⟨d3, hd3⟩ : ∃ d3, d3 = setBe d2 stpp.ipLen.1 stpp.ipLen.2 (stpp.ipHs D + stpp.tcpHs D + ss) := ⟨_, rfl⟩
    have b3 := hbound d2 s2 stpp.ipLen mlen
    have s3 : SameOutside stpp.changed D d3 := hd3 ▸ s2.set mlen (hbound D (.refl _ _) _ mlen)
    have b4 := hbound d3 s3 stpp.thFlags mflags
    refine post_bind (post_setField (Q := fun _ s => s = { stp with msg := ⟨d3, r⟩ :: rest }) rfl
      fun _ => by rw [hd3]) ?_
    rintro _ _ rfl
    obtain ⟨d4, hd4⟩ : ∃ d4, d4 = setBe d3 stpp.thFlags.1 stpp.thFlags.2 startFlags := ⟨_, rfl⟩
    have s4 : SameOutside stpp.changed D d4 := hd4 ▸ s3.set mflags (hbound D (.refl _ _) _ mflags)
    refine post_setField rfl fun _ => ⟨d4, by rw [hd4], s4, ?_, ?_, ?_⟩
    · rw [hd4, getBe_setBe_of_apart b4 (.inl (by simp only [TxPacket.ipId, TxPacket.thFlags]; omega)), hd3,
        getBe_setBe_of_apart b3 (.inr (by simp only [TxPacket.ipId, TxPacket.ipLen]; omega)), hid2]
    · rw [hd4, getBe_setBe_of_apart b4 (.inl (by simp only [TxPacket.thSeq, TxPacket.thFlags]; omega)), hd3,
        getBe_setBe_of_apart b3 (.inr (by simp only [TxPacket.thSeq, TxPacket.ipLen]; omega)), hseq2]
    · rw [hd4, hd3]
      exact LenFlags.set hl2 _ _
  · rw [if_neg he, if_neg he]
    exact ⟨d2, rfl, s2, hid2, hseq2, hlf2⟩

/-- The headers become a fragment. -/
theorem post_copyHeader_built {hs : ℕ} {ms : List ℕ} {stbp : Option ℕ} (hk : kernel.Sound)
    (hbufs : q0.bufs.Clean .unused) (hh : Holding id q0 msg bs ms stp) (hst : Steady kernel id stp.phys none stp)
    (hb : ∀ b ∈ stbp, b ∈ bs) (hblk : stp.msg[0]? = some blk) (hlen : hp + hs ≤ blk.data.length) (hpos : 0 < hs) :
    (copyHeader kernel id hp hs stbp).Post stp (fun b stp' =>
      Built kernel id stp (slice blk.data hp hs) (some b) stp' ∧ waiting stp' (some b) = 0) fun _ => True := by
  have hslen : (slice blk.data hp hs).length = hs := length_slice hlen
  have hw0 : waiting stp stbp = 0 := by
    cases stbp with
    | none => rfl
    | some b => exact Nat.sub_eq_zero_of_le (hst.flushed b (hh.buffers b (hb b rfl)) nofun).ge
  have hst0 : Steady kernel id stp.phys stbp stp := by
    cases stbp with
    | none => exact hst
    | some b => exact hst.take_up (hh.buffers b (hb b rfl))
  have hbuilt : Built kernel id stp [] stbp stp :=
    ⟨hst0, fun _ _ => rfl, [], (List.append_nil _).symm, nofun, by rw [pending_of_waiting_zero hw0]; rfl⟩
  rw [copyHeader]
  refine post_bind (hbuilt.pick hbufs hh _ fun _ _ _ => hw0) ?_
  rintro b stp1 ⟨h1, hmsg, hwait, -⟩
  refine post_bind_of_ret (getMblk_ret (hmsg ▸ hblk)) (post_bind_of_ret rfl ?_)
  have hok := h1.steady.ok b (h1.steady.held b rfl)
  have hoff : (stp1.buffers b).stbOff = (stp1.buffers b).esmUsed := by
    have := hok.off_le
    rw [hw0, waiting] at hwait
    omega
  by_cases hroom : (stp1.buffers b).esmUsed + (slice blk.data hp hs).length ≤ SFXGE_TX_BUFFER_SIZE
  · have hcopy : (bcopy kernel (slice blk.data hp hs) b (stp1.buffers b).stbOff : Prog Stq Errno Unit) stp1 =
        .ret () { stp1 with
          phys := stp1.phys.write (kernel.esmAddr b + (stp1.buffers b).esmUsed) (slice blk.data hp hs) } := by
      rw [hoff]
      exact if_pos hroom
    have h2 := h1.copy (slice blk.data hp hs) hroom
    rw [List.nil_append] at h2
    have hw2 : waiting (stp1.copied kernel b (slice blk.data hp hs)) (some b) = _ := waiting_copied hok
    rw [hwait, hw0, hslen, Nat.zero_add] at hw2
    refine post_bind_of_ret hcopy ?_
    have hset : (setBuffer b { stp1.buffers b with esmUsed := (stp1.buffers b).esmUsed + hs } : Prog Stq Errno Unit)
        { stp1 with phys := stp1.phys.write (kernel.esmAddr b + (stp1.buffers b).esmUsed) (slice blk.data hp hs) } =
        .ret () (stp1.copied kernel b (slice blk.data hp hs)) := by
      rw [Stq.copied, hslen]
      rfl
    refine post_bind_of_ret hset (post_bind (post_qbufferAdd_ret fun hn => ?_) fun _ stp3 h3 => post_pure h3)
    exact ⟨h2.add_buffer hk hn (by omega), waiting_bufferAdded false⟩
  · have hfault : (bcopy kernel (slice blk.data hp hs) b (stp1.buffers b).stbOff : Prog Stq Errno Unit) stp1 =
        .fault := by
      rw [hoff]
      exact if_neg hroom
    exact post_of_fault (bind_of_fault hfault)

theorem frames_copyHeader (kernel : Kernel) (id : Fin SFXGE_TX_NDESCS) (hp hs : ℕ) (stbp : Option ℕ) :
    (copyHeader kernel id hp hs stbp).Frames Stq.mapsView :=
  frames_bind (frames_pickBuffer _ _) fun b => frames_bind (frames_getMblk _) fun _ =>
    frames_bind (frames_getBuffer b) fun _ => frames_bind (frames_bcopy _ _ _) fun _ =>
    frames_bind (frames_setBuffer _ _) fun _ => frames_bind (frames_qbufferAdd _ _) fun _ => frames_pure _

/-! ### Another header in the same message -/

section

variable (hlen : d.length = D.length)
include hlen

theorem place_head (mp off : ℕ) : place (⟨d, r⟩ :: rest) mp off = place (⟨D, r⟩ :: rest) mp off := by
  cases mp with
  | zero => rfl
  | succ mp => simp [place, msgdsize, Mblk.mblkl, hlen]

theorem inside_head (mp off : ℕ) : Inside (⟨d, r⟩ :: rest) mp off ↔ Inside (⟨D, r⟩ :: rest) mp off := by
  cases mp with
  | zero => simp [Inside, Mblk.mblkl, hlen]
  | succ mp => rfl

theorem AllMapped.head (hmsg : stp.msg = ⟨D, r⟩ :: rest) (h : AllMapped kernel id stp) :
    AllMapped kernel id { stp with msg := ⟨d, r⟩ :: rest } := by
  intro m hm mp hmp
  obtain ⟨blk, dmac, cookies, hblk, hmapped⟩ := h m hm mp hmp
  rw [hmsg] at hblk
  cases mp with
  | zero =>
    cases hblk
    refine ⟨⟨d, r⟩, dmac, cookies, rfl, hmapped.1, hmapped.2.trans ?_⟩
    simp only [Mblk.mblkl, hlen]
  | succ mp => exact ⟨blk, dmac, cookies, hblk, hmapped⟩

end

section

variable (hdrop : d.drop r = D.drop r)
include hdrop

theorem msgBytes_head : msgBytes (⟨d, r⟩ :: rest) = msgBytes (⟨D, r⟩ :: rest) := by
  simp [msgBytes, Mblk.bytes, hdrop]

/-- The blocks are as they were, as far as the kernel is concerned. -/
theorem Kernel.Binds.head {phys phys0 : Memory} (h : kernel.Binds phys0 (⟨D, r⟩ :: rest))
    (hphys : ∀ x, (∀ b, ¬ kernel.InBuffer b 0 x) → phys x = phys0 x) : kernel.Binds phys (⟨d, r⟩ :: rest) := by
  have hback : ∀ {blk blk' : Mblk} {cookies : List Cookie}, blk'.bytes = blk.bytes →
      kernel.Backs phys0 blk cookies → kernel.Backs phys blk' cookies := by
    intro blk blk' cookies hbytes hb
    refine ⟨hb.pos, hb.paged, by rw [hbytes]; exact hb.total, fun k hk => ?_, fun k hk => hb.apart k (hbytes ▸ hk)⟩
    have hk' : k < blk.bytes.length := hbytes ▸ hk
    rw [hphys _ (hb.apart k hk'), hb.holds k hk']
    exact (List.getElem_of_eq hbytes.symm hk')
  intro mp blk cookies hblk hbind
  cases mp with
  | zero =>
    cases hblk
    have hbytes : (⟨d, r⟩ : Mblk).bytes = (⟨D, r⟩ : Mblk).bytes := hdrop
    exact hback hbytes (h 0 _ cookies rfl hbind)
  | succ mp => exact hback rfl (h (mp + 1) blk cookies hblk hbind)

end

/-! ### A segment -/

theorem Steady.rebase {phys0 : Memory} {hand : Option ℕ} (h : Steady kernel id phys0 hand stp) :
    Steady kernel id stp.phys hand stp :=
  { h with outside := fun _ _ => rfl }

theorem Steady.through {phys0 : Memory} {hand hand' : Option ℕ} (h : Steady kernel id phys0 hand start)
    (h' : Steady kernel id start.phys hand' stp) : Steady kernel id phys0 hand' stp :=
  { h' with outside := fun x hx => (h'.outside x hx).trans (h.outside x hx) }

/-- The fragment of the headers and those of the payload are one segment. -/
theorem Finished.after {hdr pay : Bytes} {b k : ℕ} (h : Built kernel id start hdr (some b) stp)
    (hw : waiting stp (some b) = 0) (h' : Finished kernel id stp pay k stp') :
    ∃ seg, stp'.stEb = start.stEb ++ seg ∧ contents stp'.phys seg = hdr ++ pay ∧ Preserved start stp' ∧
      ∃ new last, seg = new ++ [last] ∧ last.ebEop = true ∧ ∀ eb ∈ new, eb.ebEop = false := by
  obtain ⟨hst, hold, new, hnew, hinner, hdone⟩ := h
  obtain ⟨hst', hold', new', last, hnew', hinner', -, heop, -, hdone'⟩ := h'
  rw [pending_of_waiting_zero hw, List.append_nil] at hdone
  have hsame : contents stp'.phys new = contents stp.phys new :=
    contents_congr fun eb heb => hold' eb (by rw [hnew]; exact List.mem_append_right _ heb)
  refine ⟨new ++ (new' ++ [last]), ?_, ?_, fun eb heb => ?_, new ++ new', last, ?_, heop, fun eb heb => ?_⟩
  · rw [hnew', hnew, List.append_assoc]
  · rw [contents_append, hsame, hdone, hdone']
  · exact (hold' eb (by rw [hnew]; exact List.mem_append_left _ heb)).trans (hold eb heb)
  · rw [List.append_assoc]
  · exact (List.mem_append.mp heb).elim (fun hm => (hinner eb hm).eop) fun hm => (hinner' eb hm).eop

/-- The fragments of a segment, and where it ends. -/
structure SegmentAdded (kernel : Kernel) (id : Fin SFXGE_TX_NDESCS) (q0 : Stq) (msg : List Mblk) (hdr pay : Bytes)
    (next : ℕ) (start : Stq) (b : ℕ) (t : ℕ × ℕ) (stp : Stq) : Prop where
  holding : Holding id q0 msg [b] [] stp
  all : AllMapped kernel id stp
  steady : Steady kernel id q0.phys none stp
  inside : Inside msg t.1 t.2
  place : place msg t.1 t.2 = next
  old : Preserved start stp
  pieces : ∃ seg, stp.stEb = start.stEb ++ seg ∧ contents stp.phys seg = hdr ++ pay ∧
    ∃ new last, seg = new ++ [last] ∧ last.ebEop = true ∧ ∀ eb ∈ new, eb.ebEop = false

/-- **A segment.**  A copy of the headers, and the next bytes of the message. -/
theorem post_segment_bind {β : Type} {hs size mp off : ℕ} {stbp : Option ℕ} {k : ℕ → ℕ × ℕ → Prog Stq Errno β}
    {Q : β → Stq → Prop} (hk : kernel.Sound) (h0 : Idle q0) (hh : Holding id q0 (⟨d, r⟩ :: rest) stbp.toList [] stp)
    (hall : AllMapped kernel id stp) (hst : Steady kernel id q0.phys none stp) (hlen : hp + hs ≤ d.length)
    (hpos : 0 < hs) (hbinds : copy = false → kernel.Binds q0.phys (⟨d, r⟩ :: rest)) (hsize : 0 < size)
    (hin : Inside (⟨d, r⟩ :: rest) mp off)
    (hfit : place (⟨d, r⟩ :: rest) mp off + size ≤ (msgBytes (⟨d, r⟩ :: rest)).length)
    (hnext : ∀ b t stp', SegmentAdded kernel id q0 (⟨d, r⟩ :: rest) (slice d hp hs)
      (slice (msgBytes (⟨d, r⟩ :: rest)) (place (⟨d, r⟩ :: rest) mp off) size)
      (place (⟨d, r⟩ :: rest) mp off + size) stp b t stp' → (k b t).Post stp' Q fun _ => True) :
    (copyHeader kernel id hp hs stbp >>= fun b => qpayloadFragment kernel id mp off size copy >>= k b).Post stp Q
      fun _ => True := by
  have hmsg : stp.msg = ⟨d, r⟩ :: rest := hh.kept.msg_eq
  have hblk : stp.msg[0]? = some ⟨d, r⟩ := by rw [hmsg]; rfl
  have hheld : (copyHeader kernel id hp hs stbp).Post stp _ _ :=
    post_copyHeader_holding hh hp hs fun b hb => Option.mem_toList.mpr hb
  have hcopy := hheld.and ((post_copyHeader_built hk h0.bufs hh hst.rebase (fun b hb => Option.mem_toList.mpr hb)
    hblk hlen hpos).and (post_of_frames (frames_copyHeader kernel id hp hs stbp) stp))
  refine post_bind (hcopy.mono (fun _ _ hq => hq) fun _ _ => trivial) ?_
  rintro b stp1 ⟨hh1, ⟨hb1, hw1⟩, hview⟩
  have hst1 := hb1.steady.put_down hw1
  have hh1' : Holding id q0 (⟨d, r⟩ :: rest) [b] [] stp1 :=
    hh1.mono (fun c hc => List.mem_cons.mpr (.inl (List.mem_singleton.mp hc))) fun _ hm => hm
  have hbinds1 : copy = false → kernel.Binds stp1.phys (⟨d, r⟩ :: rest) := fun hc =>
    (hbinds hc).head rfl fun x hx => (hst.through hst1).outside x hx
  have hpay := post_qpayloadFragment_filled hk h0.bufs h0.maps hbinds1 hsize hh1' (hall.congr hview)
    hst1.rebase hin hfit
  refine post_bind hpay ?_
  rintro t stp2 ⟨hh2, hall2, hplace, hinside, k, -, hfin⟩
  obtain ⟨seg, hlist, hbytes, hold, heop⟩ := Finished.after hb1 hw1 hfin
  exact hnext b t stp2 ⟨hh2, hall2, (hst.through hst1).through hfin.steady, hinside, hplace, hold, seg, hlist,
    hbytes, heop⟩

/-! ### The loop -/

/-- `th_flags` of the interim segments. -/
def TxPacket.interimFlags (stpp : TxPacket) (D : Bytes) : ℕ :=
  getBe D stpp.thFlags.1 stpp.thFlags.2 &&& (0xff - (TH_PUSH + TH_FIN))

/-- The state of the loop before a round, with the segments so far. -/
structure Segmenting (kernel : Kernel) (id : Fin SFXGE_TX_NDESCS) (q0 : Stq) (stpp : TxPacket) (blk : Mblk)
    (rest : List Mblk) (segs : List (List EfxBuffer)) (v : LsoLocals) (stp : Stq) : Prop where
  head : ∃ d, stp.msg = ⟨d, blk.bRptr + stpp.stpOff⟩ :: rest ∧ SameOutside stpp.changed blk.data d ∧
    (0 < v.lss → LenFlags stpp d (stpp.ipHs blk.data + stpp.tcpHs blk.data + stpp.stpMss) (stpp.interimFlags blk.data))
  holding : Holding id q0 stp.msg v.stbp.toList [] stp
  all : AllMapped kernel id stp
  steady : Steady kernel id q0.phys none stp
  inside : Inside (⟨blk.data, blk.bRptr + stpp.stpOff⟩ :: rest) v.mp v.off
  taken : place (⟨blk.data, blk.bRptr + stpp.stpOff⟩ :: rest) v.mp v.off = min (segs.length * stpp.stpMss) stpp.stpSize
  left : v.lss = stpp.stpSize - segs.length * stpp.stpMss
  count : segs.length ≠ 0 → (segs.length - 1) * stpp.stpMss < stpp.stpSize
  ipId : v.ipId = (getBe blk.data stpp.ipId.1 stpp.ipId.2 + segs.length) % 2 ^ 16
  thSeq : v.thSeq = (getBe blk.data stpp.thSeq.1 stpp.thSeq.2 + min (segs.length * stpp.stpMss) stpp.stpSize) % 2 ^ 32
  list : stp.stEb = segs.flatten
  segments : ∀ i (hi : i < segs.length),
    Segment stpp blk (msgBytes (⟨blk.data, blk.bRptr + stpp.stpOff⟩ :: rest)) i stp.phys segs[i]

/-- The headers that `adjustHeader` has made are those of the segment. -/
theorem SegmentHeader.of_adjusted {i : ℕ} (hi : i * stpp.stpMss < stpp.stpSize)
    (hsize : stpp.ipHs D + stpp.tcpHs D + stpp.stpSize < 2 ^ 16) (hsame : SameOutside stpp.changed D d)
    (hid : getBe d stpp.ipId.1 stpp.ipId.2 = (getBe D stpp.ipId.1 stpp.ipId.2 + i) % 2 ^ 16 % 256 ^ 2)
    (hseq : getBe d stpp.thSeq.1 stpp.thSeq.2 =
      (getBe D stpp.thSeq.1 stpp.thSeq.2 + i * stpp.stpMss) % 2 ^ 32 % 256 ^ 4)
    {eol : Bool} (heol : eol = true ↔ stpp.stpSize ≤ (i + 1) * stpp.stpMss)
    (hlf : LenFlags stpp d
      (if eol = true then stpp.ipHs D + stpp.tcpHs D + stpp.segSize i else stpp.ipHs D + stpp.tcpHs D + stpp.stpMss)
      (if eol = true then getBe D stpp.thFlags.1 stpp.thFlags.2 else stpp.interimFlags D)) :
    SegmentHeader stpp D i d where
  rest := hsame
  thSeq := hseq.trans (Nat.mod_eq_of_lt (lt_of_lt_of_eq (Nat.mod_lt _ (by decide)) (by norm_num)))
  ipId := hid.trans (Nat.mod_eq_of_lt (lt_of_lt_of_eq (Nat.mod_lt _ (by decide)) (by norm_num)))
  ipLen := by
    have hsucc : (i + 1) * stpp.stpMss = i * stpp.stpMss + stpp.stpMss := Nat.succ_mul _ _
    rw [hlf.len]
    split_ifs with he
    · refine Nat.mod_eq_of_lt ?_
      have : stpp.segSize i ≤ stpp.stpSize := (min_le_left _ _).trans (Nat.sub_le _ _)
      omega
    · rw [heol, hsucc] at he
      have hss : stpp.segSize i = stpp.stpMss := by
        rw [TxPacket.segSize]
        omega
      rw [hss]
      exact Nat.mod_eq_of_lt (by omega)
  thFlags := by
    have hlt : getBe D stpp.thFlags.1 stpp.thFlags.2 < 256 ^ 1 := getBe_lt
    rw [hlf.flags]
    by_cases he : eol = true
    · rw [if_pos he, if_pos (heol.mp he)]
      exact Nat.mod_eq_of_lt hlt
    · rw [if_neg he, if_neg fun h => he (heol.mpr h)]
      exact Nat.mod_eq_of_lt (lt_of_le_of_lt Nat.and_le_left hlt)

/-- The list consists of the segments of the packet. -/
def Segmented (stpp : TxPacket) (blk : Mblk) (payload : Bytes) (stp : Stq) : Prop :=
  ∃ segs : List (List EfxBuffer), stp.stEb = segs.flatten ∧
    segs.length = (stpp.stpSize + stpp.stpMss - 1) / stpp.stpMss ∧
    ∀ i (hi : i < segs.length), Segment stpp blk payload i stp.phys segs[i]

/-- A segment stays what it is while its fragments hold what they held. -/
theorem Segment.congr {payload : Bytes} {i : ℕ} {phys phys' : Memory} {ebs : List EfxBuffer}
    (h : Segment stpp blk payload i phys ebs)
    (hsame : ∀ eb ∈ ebs, phys'.read eb.ebAddr eb.ebSize = phys.read eb.ebAddr eb.ebSize) :
    Segment stpp blk payload i phys' ebs := by
  obtain ⟨⟨d, hheader, hbytes⟩, heop⟩ := h
  exact ⟨⟨d, hheader, (contents_congr hsame).trans hbytes⟩, heop⟩

section

variable {segs : List (List EfxBuffer)} {v : LsoLocals} (hmss : 0 < stpp.stpMss)
  (h : Segmenting kernel id q0 stpp blk rest segs v stp)
include hmss h

/-- When nothing is left there are as many segments as there should be. -/
theorem Segmenting.segmented (hleft : v.lss = 0) :
    Segmented stpp blk (msgBytes (⟨blk.data, blk.bRptr + stpp.stpOff⟩ :: rest)) stp := by
  refine ⟨segs, h.list, ?_, h.segments⟩
  have hl := h.left
  have hcount := h.count
  have hsucc : (segs.length + 1) * stpp.stpMss = segs.length * stpp.stpMss + stpp.stpMss := Nat.succ_mul _ _
  rcases Nat.eq_zero_or_pos segs.length with h0 | hpos
  · rw [h0, Nat.zero_mul] at hl
    rw [h0, Nat.div_eq_of_lt (by omega)]
  · have hpred : (segs.length - 1) * stpp.stpMss + stpp.stpMss = segs.length * stpp.stpMss := by
      rw [← Nat.succ_mul, Nat.succ_eq_add_one, Nat.sub_add_cancel hpos]
    have := hcount (Nat.ne_of_gt hpos)
    exact (Nat.div_eq_of_lt_le (by omega) (by omega)).symm

/-- **A round.**  It adds a segment, or the packet is complete. -/
theorem post_lsoRound_segmenting (hk : kernel.Sound) (h0 : Idle q0)
    (hl : Layout stpp blk.bRptr (blk.bRptr + stpp.stpOff) blk.data)
    (hsize : stpp.ipHs blk.data + stpp.tcpHs blk.data + stpp.stpSize < 2 ^ 16)
    (hbinds : copy = false → kernel.Binds q0.phys (⟨blk.data, blk.bRptr + stpp.stpOff⟩ :: rest))
    (hfit : (msgBytes (⟨blk.data, blk.bRptr + stpp.stpOff⟩ :: rest)).length = stpp.stpSize) :
    (lsoRound kernel id stpp blk.bRptr (getBe blk.data stpp.thFlags.1 stpp.thFlags.2) copy v).Post stp
      (fun r stp' => match r with
        | .inl _ => Segmented stpp blk (msgBytes (⟨blk.data, blk.bRptr + stpp.stpOff⟩ :: rest)) stp'
        | .inr v' => ∃ segs', Segmenting kernel id q0 stpp blk rest segs' v' stp') fun _ => True := by
  rw [lsoRound]
  by_cases hleft : v.lss = 0
  · rw [if_pos hleft]
    exact post_pure (h.segmented hmss hleft)
  rw [if_neg hleft]
  have hlt : segs.length * stpp.stpMss < stpp.stpSize := by
    have := h.left
    omega
  have hss : min v.lss stpp.stpMss = stpp.segSize segs.length := by rw [TxPacket.segSize, h.left]
  have heol : decide (stpp.segSize segs.length = v.lss) = true ↔
      stpp.stpSize ≤ (segs.length + 1) * stpp.stpMss := by
    have hsucc : (segs.length + 1) * stpp.stpMss = segs.length * stpp.stpMss + stpp.stpMss := Nat.succ_mul _ _
    rw [decide_eq_true_eq, TxPacket.segSize, h.left, hsucc]
    omega
  have htaken : min (segs.length * stpp.stpMss) stpp.stpSize = segs.length * stpp.stpMss := min_eq_left hlt.le
  obtain ⟨d, hmsg, hsame, hlf⟩ := h.head
  rw [hss]
  -- the headers
  refine post_bind (post_adjustHeader_ret hl hmsg hsame _ v.ipId v.thSeq _ _ (hlf (by omega))) ?_
  rintro _ _ ⟨d', rfl, hsame', hid, hseq, hlf'⟩
  have hheader : SegmentHeader stpp blk.data segs.length d' := by
    rw [h.ipId] at hid
    rw [h.thSeq, htaken] at hseq
    exact .of_adjusted hlt hsize hsame' hid hseq heol hlf'
  -- the fragments
  have hdrop : d'.drop (blk.bRptr + stpp.stpOff) = blk.data.drop (blk.bRptr + stpp.stpOff) := hl.behind_eq hsame'
  have hplace : place (⟨d', blk.bRptr + stpp.stpOff⟩ :: rest) v.mp v.off = segs.length * stpp.stpMss := by
    rw [place_head hsame'.1, h.taken, htaken]
  have hpay : msgBytes (⟨d', blk.bRptr + stpp.stpOff⟩ :: rest) =
      msgBytes (⟨blk.data, blk.bRptr + stpp.stpOff⟩ :: rest) := msgBytes_head hdrop
  have hseg : stpp.segSize segs.length ≤ stpp.stpSize - segs.length * stpp.stpMss := min_le_left _ _
  have hpos : 0 < stpp.segSize segs.length := by
    rw [TxPacket.segSize]
    omega
  have hip := hl.ip
  have htcp := hl.tcp
  have hhp := hl.hp_le
  have hroom : blk.bRptr + stpp.stpOff ≤ d'.length := hsame'.1 ▸ hl.len
  refine post_segment_bind hk h0 (h.holding.set_msg _) (h.all.head (hsame'.1.trans hsame.1.symm) hmsg)
    { h.steady with } hroom (by omega) (fun hc => (hbinds hc).head hdrop fun _ _ => rfl) hpos
    ((inside_head hsame'.1 _ _).mpr h.inside) (by rw [hplace, hpay, hfit]; omega) ?_
  intro b t stp' hadd
  have hplace' := hadd.place
  obtain ⟨seg, hlist, hbytes, heop⟩ := hadd.pieces
  rw [hplace] at hplace' hbytes
  have hsucc : (segs.length + 1) * stpp.stpMss = segs.length * stpp.stpMss + stpp.stpMss := Nat.succ_mul _ _
  have hnext : min ((segs.length + 1) * stpp.stpMss) stpp.stpSize =
      segs.length * stpp.stpMss + stpp.segSize segs.length := by
    rw [hsucc, TxPacket.segSize]
    omega
  have hslen : (segs ++ [seg]).length = segs.length + 1 := List.length_append
  refine post_pure ⟨segs ++ [seg], ?_⟩
  refine
    { head := ⟨d', hadd.holding.kept.msg_eq, hsame', fun hleft' => by
        rw [if_neg, if_neg] at hlf'
        · exact hlf'
        all_goals
          rw [heol, hsucc]
          have := h.left
          dsimp only at hleft'
          omega⟩
      holding := hadd.holding.kept.msg_eq.symm ▸ hadd.holding
      all := hadd.all
      steady := hadd.steady
      inside := (inside_head hsame'.1 _ _).mp hadd.inside
      taken := by rw [hslen, hnext, ← place_head hsame'.1, hplace']
      left := by
        dsimp only
        rw [hslen, hsucc, h.left, TxPacket.segSize]
        omega
      count := fun _ => by rwa [hslen, Nat.add_sub_cancel]
      ipId := by
        dsimp only
        rw [h.ipId, hslen]
        omega
      thSeq := by
        dsimp only
        rw [h.thSeq, hslen, hnext, htaken]
        omega
      list := by rw [hlist, h.list, List.flatten_append, List.flatten_singleton]
      segments := fun i hi => ?_ }
  by_cases hlast : i < segs.length
  · rw [List.getElem_append_left hlast]
    refine (h.segments i hlast).congr fun eb heb => hadd.old eb ?_
    rw [h.list]
    exact List.mem_flatten.mpr ⟨segs[i], List.getElem_mem hlast, heb⟩
  · have hi' : i = segs.length := by omega
    subst hi'
    have hget : (segs ++ [seg])[segs.length] = seg := by simp
    rw [hget, ← hpay]
    exact ⟨⟨d', hheader, hbytes⟩, heop⟩

end

/-! ### The whole -/

/-- The headers of a parsed packet are laid out. -/
theorem Parsed.layout (hp : Parsed stpp blk) (hhs : stpp.stpOff ≤ blk.mblkl) :
    Layout stpp blk.bRptr (blk.bRptr + stpp.stpOff) blk.data := by
  have hiphp := hp.iphp
  have hthp := hp.thp
  have hoff := hp.off
  have hipHl := hp.ipHl
  have hthOff := hp.thOff
  simp only [Mblk.mblkl] at hhs
  constructor <;> omega

/-- The checks leave the payload behind the headers. -/
theorem Parsed.sizes (hp : Parsed stpp blk)
    (hdsize : msgdsize (blk :: rest) = stpp.etherHs blk.data + getBe blk.data stpp.ipLen.1 stpp.ipLen.2)
    (hhs : stpp.stpOff ≤ blk.mblkl)
    (hip : (stpp.stpSize + stpp.tcpHs blk.data + stpp.ipHs blk.data) % 2 ^ 64 =
      getBe blk.data stpp.ipLen.1 stpp.ipLen.2) :
    stpp.ipHs blk.data + stpp.tcpHs blk.data + stpp.stpSize < 2 ^ 16 ∧
      (msgBytes (⟨blk.data, blk.bRptr + stpp.stpOff⟩ :: rest)).length = stpp.stpSize := by
  have hlt : getBe blk.data stpp.ipLen.1 stpp.ipLen.2 < 2 ^ 16 :=
    lt_of_lt_of_eq getBe_lt (by norm_num [TxPacket.ipLen])
  have hipHs : stpp.ipHs blk.data ≤ 60 := by
    rw [TxPacket.ipHs]
    omega
  have htcpHs : stpp.tcpHs blk.data ≤ 60 := by
    have hb : getBe blk.data (stpp.stpThp + 12) 1 < 256 ^ 1 := getBe_lt
    rw [TxPacket.tcpHs]
    omega
  have hoff := hp.off
  have hsize := hp.size
  -- the sum does not wrap: the headers are a part of the message
  have hsum : msgdsize (blk :: rest) = blk.mblkl + msgdsize rest := rfl
  have hsum' : msgdsize (⟨blk.data, blk.bRptr + stpp.stpOff⟩ :: rest) =
      (blk.data.length - (blk.bRptr + stpp.stpOff)) + msgdsize rest := rfl
  have hnowrap : stpp.stpSize + stpp.tcpHs blk.data + stpp.ipHs blk.data < 2 ^ 64 := by omega
  rw [Nat.mod_eq_of_lt hnowrap] at hip
  rw [length_msgBytes, hsum']
  simp only [Mblk.mblkl] at *
  omega

section

variable (hmss : 0 < stpp.stpMss) (hk : kernel.Sound) (h0 : Idle q0) (hmsg : q0.msg = blk :: rest)
  (hbinds : copy = false → kernel.Binds q0.phys (stpp.behind q0.msg))
include hmss hk h0 hmsg hbinds

/-- With `b_rptr` behind the headers, the list becomes the segments of the packet. -/
theorem post_lsoSegments_segmented (hl : Layout stpp blk.bRptr (blk.bRptr + stpp.stpOff) blk.data)
    (hsize : stpp.ipHs blk.data + stpp.tcpHs blk.data + stpp.stpSize < 2 ^ 16)
    (hfit : (msgBytes (stpp.behind q0.msg)).length = stpp.stpSize) {mp : ℕ}
    (hplace : place (stpp.behind q0.msg) mp 0 = 0) :
    (lsoSegments kernel (slot q0.stAdded) stpp blk.bRptr mp copy).Post { q0 with msg := stpp.behind q0.msg }
      (fun _ stp => Segmented stpp blk (msgBytes (stpp.behind q0.msg)) stp) fun _ => True := by
  have hbehind : stpp.behind q0.msg = ⟨blk.data, blk.bRptr + stpp.stpOff⟩ :: rest := by
    rw [hmsg]
    rfl
  rw [hbehind] at hfit hplace hbinds ⊢
  have hip := hl.ip
  have htcp := hl.tcp
  have hDlen := hl.len
  have hin : stpp.ipLen ∈ stpp.changed ∧ stpp.thFlags ∈ stpp.changed := by simp [TxPacket.changed]
  obtain ⟨mlen, mflags⟩ := hin
  have b1 : stpp.ipLen.1 + stpp.ipLen.2 ≤ blk.data.length := by simp only [TxPacket.ipLen]; omega
  have b2 : stpp.thFlags.1 + stpp.thFlags.2 ≤ blk.data.length := by simp only [TxPacket.thFlags]; omega
  rw [lsoSegments]
  refine post_getField_bind rfl fun _ => post_getField_bind rfl fun _ => post_getField_bind rfl fun _ =>
    post_getField_bind rfl fun _ => post_ipHs_ret rfl (post_tcpHs_ret rfl ?_)
  -- the header for interim segments
  obtain ⟨d1, hd1⟩ : ∃ d1, d1 = setBe blk.data stpp.ipLen.1 stpp.ipLen.2
    (stpp.ipHs blk.data + stpp.tcpHs blk.data + stpp.stpMss) := ⟨_, rfl⟩
  obtain ⟨d2, hd2⟩ : ∃ d2, d2 = setBe d1 stpp.thFlags.1 stpp.thFlags.2 (stpp.interimFlags blk.data) := ⟨_, rfl⟩
  have s1 : SameOutside stpp.changed blk.data d1 := hd1 ▸ (SameOutside.refl _ _).set mlen b1
  have s2 : SameOutside stpp.changed blk.data d2 := hd2 ▸ s1.set mflags b2
  refine post_bind (post_setField (Q := fun _ s => s = { q0 with
    msg := ⟨d1, blk.bRptr + stpp.stpOff⟩ :: rest }) rfl fun _ => by rw [hd1]) ?_
  rintro _ _ rfl
  refine post_bind (post_setField (Q := fun _ s => s = { q0 with
    msg := ⟨d2, blk.bRptr + stpp.stpOff⟩ :: rest }) rfl fun _ => by rw [hd2]; rfl) ?_
  rintro _ _ rfl
  refine post_protect (F := fun _ => True) ?_ fun _ _ => ⟨fun _ _ _ => trivial, fun _ _ _ => trivial⟩
  refine post_ensure_bind (fun _ => ?_) fun _ => trivial
  refine post_iterate (fun v stp => ∃ segs, Segmenting kernel (slot q0.stAdded) q0 stpp blk rest segs v stp)
    (fun v stp h => ?_) _ _ _ ⟨[], ?_⟩
  · obtain ⟨segs, hseg⟩ := h
    refine (post_lsoRound_segmenting hmss hseg hk h0 hl hsize hbinds hfit).mono (fun r s h1 => ?_) fun _ _ => trivial
    cases r with
    | inl _ => exact h1
    | inr v' => exact h1
  · exact
      { head := ⟨d2, rfl, s2, fun _ => by rw [hd2, hd1]; exact LenFlags.set hl _ _⟩
        holding := (Holding.refl h0.stStbp h0.stStmp).set_msg _
        all := by rw [AllMapped]; intro m hm; exact absurd (h0.stStmp ▸ hm) List.not_mem_nil
        steady := { h0.steady with }
        inside := .inl rfl
        taken := by rw [hplace, List.length_nil, Nat.zero_mul, Nat.zero_min]
        left := by rw [List.length_nil, Nat.zero_mul, Nat.sub_zero]
        count := fun h => absurd rfl h
        ipId := (Nat.mod_eq_of_lt (lt_of_lt_of_eq getBe_lt (by norm_num [TxPacket.ipId]))).symm
        thSeq := by
          rw [List.length_nil, Nat.zero_mul, Nat.zero_min]
          exact (Nat.mod_eq_of_lt (lt_of_lt_of_eq getBe_lt (by norm_num [TxPacket.thSeq]))).symm
        list := h0.stEb
        segments := by simp }

/-- **Segmentation.**  Where `sfxge_tx_qlso_fragment` succeeds, the fragments are those of the segments, and these
hold the payload. -/
theorem qlsoFragment_segmented (hp : Parsed stpp blk) (h : qlsoFragment kernel stpp copy q0 = .ret () stp) :
    (msgBytes (stpp.behind q0.msg)).length = stpp.stpSize ∧
      Segmented stpp blk (msgBytes (stpp.behind q0.msg)) stp := by
  have hpost : (qlsoFragment kernel stpp copy).Post q0 (fun _ s =>
      (msgBytes (stpp.behind q0.msg)).length = stpp.stpSize ∧
        Segmented stpp blk (msgBytes (stpp.behind q0.msg)) s) fun _ => True := by
    rw [qlsoFragment]
    refine post_ensure_bind (fun _ => ?_) fun _ => trivial
    refine post_bind_of_ret rfl (post_getField_bind (f := (stpp.stpEtherhp + 12, 2)) hmsg fun _ =>
      post_getField_bind hmsg fun _ => ?_)
    refine post_ensure_bind (fun hdsize => ?_) fun _ => trivial
    have hblk : q0.msg[0]? = some blk := by rw [hmsg]; rfl
    refine post_bind_of_ret (getMblk_ret hblk) (post_ensure_bind (fun hhs => ?_) fun _ => trivial)
    refine post_bind_of_ret (setMblk_apply _) (post_protect (F := fun _ => True) ?_ fun _ _ =>
      ⟨fun _ _ _ => trivial, fun _ _ _ => trivial⟩)
    have hbehind : stpp.behind q0.msg = ⟨blk.data, blk.bRptr + stpp.stpOff⟩ :: rest := by
      rw [hmsg]
      rfl
    change Prog.Post _ { q0 with msg := stpp.behind q0.msg } _ _
    refine post_getField_bind hbehind fun _ => post_getField_bind hbehind fun _ =>
      post_getField_bind hbehind fun _ => ?_
    refine post_ensure_bind (fun _ => ?_) fun _ => trivial
    refine post_tcpHs_ret hbehind (post_ipHs_ret hbehind (post_getField_bind hbehind fun _ => ?_))
    refine post_ensure_bind (fun hip => ?_) fun _ => trivial
    have hl : Layout stpp blk.bRptr (blk.bRptr + stpp.stpOff) blk.data := hp.layout hhs
    obtain ⟨hsum, hfit⟩ := hp.sizes (hmsg ▸ hdsize) hhs hip
    rw [← hbehind] at hfit
    refine post_bind (post_lsoSegments_segmented hmss hk h0 hmsg hbinds hl hsum hfit ?_) fun _ stp1 h1 => ?_
    · rw [hbehind]
      split_ifs with h1
      · simp only [Mblk.mblkl] at h1
        simp only [place, msgdsize, List.take_succ_cons, List.take_zero, List.map_cons, List.map_nil,
          List.sum_cons, List.sum_nil, Mblk.mblkl]
        omega
      · rfl
    · refine (post_giveMessage stpp.stpMp).mono (fun _ stp2 h2 => ⟨hfit, ?_⟩) fun _ _ => trivial
      rw [Segmented, h2.1, h2.2]
      exact h1
  exact hpost.1 () stp h

end

/-- A packet with 5 bytes of payload, for segments of 2. -/
def smallPacket : TxPacket where
  stpMp := 7
  hwLso := true
  stpEtherhp := 0
  stpIphp := 14
  stpThp := 34
  stpOff := 54
  stpSize := 5
  stpMss := 2

/-- Its only block. -/
def smallBlock : Mblk where
  data := [0, 0, 0, 0, 0, 0, 0, 0, 0, 0, 0, 0, 8, 0,
    0x45, 0, 0, 45, 0xff, 0xff, 0, 0, 0, 0, 0, 0, 0, 0, 0, 0, 0, 0, 0, 0,
    0, 0, 0, 0, 0xff, 0xff, 0xff, 0xff, 0, 0, 0, 0, 0x50, 0x08, 0, 0, 0, 0, 0, 0,
    1, 2, 3, 4, 5]
  bRptr := 0

theorem smallPacket_segmented : ∃ stp,
    qlsoFragment oneBlockKernel smallPacket true (freshQueue [smallBlock]) = .ret () stp ∧
    Segmented smallPacket smallBlock [1, 2, 3, 4, 5] stp := by
  have hrun : (qlsoFragment oneBlockKernel smallPacket true (freshQueue [smallBlock])).Returns fun _ => True := by
    decide +kernel
  obtain ⟨⟨⟩, stp, h, -⟩ := hrun
  have hparsed : Parsed smallPacket smallBlock := by constructor <;> decide
  have hbytes : msgBytes (smallPacket.behind (freshQueue [smallBlock]).msg) = [1, 2, 3, 4, 5] := by decide
  have hbinds : true = false → oneBlockKernel.Binds (freshQueue [smallBlock]).phys
    (smallPacket.behind (freshQueue [smallBlock]).msg) := nofun
  have hseg := qlsoFragment_segmented (by decide) oneBlockKernel_sound (idle_freshQueue _) rfl hbinds hparsed h
  rw [hbytes] at hseg
  exact ⟨stp, h, hseg.2⟩

/-! ### A second attempt -/

/-- The code of `sfxge_tx_qdpl_drain` after the label `again`. -/
def fragmentAgain (kernel : Kernel) (stpp : TxPacket) (copy : Bool) : Prog Stq Errno Unit :=
  if stpp.stpMss ≠ 0 then qlsoFragment kernel stpp copy else qpacketFragment kernel stpp.stpMp copy

/-- The fragments are those of the packet. -/
def Sends (stpp : TxPacket) (msg : List Mblk) (stp : Stq) : Prop :=
  if stpp.stpMss ≠ 0 then
    ∀ blk rest, msg = blk :: rest → Parsed stpp blk → Segmented stpp blk (msgBytes (stpp.behind msg)) stp
  else contents stp.phys stp.stEb = msgBytes msg

/-- With copying, whatever the kernel binds, the packet is sent. -/
theorem fragmentAgain_sends (hk : kernel.Sound) (h0 : Idle q0) (hne : q0.msg ≠ [])
    (h : fragmentAgain kernel stpp true q0 = .ret () stp) : Sends stpp q0.msg stp := by
  rw [fragmentAgain] at h
  rw [Sends]
  split_ifs at h ⊢ with hmss
  · intro blk rest hmsg hp
    exact (qlsoFragment_segmented (Nat.pos_of_ne_zero hmss) hk h0 hmsg (fun hc => by cases hc) hp h).2
  · have hended := post_qpacketFragment_ended hk true (fun hc => by cases hc) h0 hne stpp.stpMp
    obtain ⟨stp1, ⟨k, hfin, -⟩, heb, hphys⟩ := hended.1 () stp h
    obtain ⟨new, last, hnew, -, -, -, -, hdone⟩ := hfin.pieces
    rw [h0.stEb, List.nil_append] at hnew
    rw [heb, hphys, hnew, hdone]

/-- **A failed fragmentation leaves no trace.**  Wherever it fails, the abort brings back the message, the pools and
the slots, and a second attempt that copies sends the packet. -/
theorem fragmentAgain_abort {e : Errno} (h0 : Idle q0) (hne : q0.msg ≠ [])
    (h : fragmentAgain kernel stpp copy q0 = .err e stp) :
    ∃ stp', (qlistAbort : Prog Stq Errno Unit) stp = .ret () stp' ∧ Idle stp' ∧ Undone q0 stp' ∧
      (kernel.Sound → ∀ stp2, fragmentAgain kernel stpp true stp' = .ret () stp2 → Sends stpp q0.msg stp2) := by
  have hkept : Kept (slot q0.stAdded) q0 q0.msg stp := by
    rw [fragmentAgain] at h
    split_ifs at h
    · exact (post_qlsoFragment h0.maps stpp copy h0.stStbp h0.stStmp).2 e stp h
    · exact (post_qpacketFragment h0.maps stpp.stpMp copy h0.stStbp h0.stStmp).2 e stp h
  obtain ⟨stp', hrun, hidle, hundone⟩ := hkept.abort h0
  refine ⟨stp', hrun, hidle, hundone, fun hk stp2 h2 => ?_⟩
  rw [← hundone.msg]
  exact fragmentAgain_sends hk hidle (hundone.msg ▸ hne) h2

/-- A kernel that has no buffers left. -/
def noBufferKernel : Kernel := { oneBlockKernel with tbc := fun _ => false }

/-- The packet, to be sent as it is. -/
def wholePacket : TxPacket := { smallPacket with stpMss := 0 }

theorem noBuffer_abort : ∃ stp, fragmentAgain noBufferKernel wholePacket false (freshQueue (twoBlocks [1, 2, 3])) =
    .err ENOMEM stp ∧ stp.stStmp (slot 0) = [0] ∧
      ∃ stp', (qlistAbort : Prog Stq Errno Unit) stp = .ret () stp' ∧ Idle stp' ∧
        Undone (freshQueue (twoBlocks [1, 2, 3])) stp' := by
  have hrun : (fragmentAgain noBufferKernel wholePacket false (freshQueue (twoBlocks [1, 2, 3]))).Leaves ENOMEM
      fun stp => stp.stStmp (slot 0) = [0] := by decide +kernel
  obtain ⟨stp, h, htaken⟩ := hrun
  obtain ⟨stp', h', hidle, hundone, -⟩ := fragmentAgain_abort (idle_freshQueue _) (List.cons_ne_nil _ _) h
  exact ⟨stp, h, htaken, stp', h', hidle, hundone⟩

end Sfxge.Tx.Frag
