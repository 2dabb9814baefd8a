import Sfxge.Tx.Bind

/-!
# Tx.Payload — the fragments of a payload

`sfxge_tx_qpayload_fragment` takes a number of bytes from where the last call left off.  Where a block has been
mapped for a segment before, the mapping is used again.
-/

namespace Sfxge.Tx.Frag

open Lib Lib.Prog Errno

variable {ε : Type} {kernel : Kernel} {id : Fin SFXGE_TX_NDESCS} {copy : Bool} {stp stp' q0 start : Stq} {blk : Mblk}
  {msg : List Mblk} {v : Locals} {mp m n size c p0 : ℕ} {hand : Option ℕ} {bs ms : List ℕ}

/-! ### The mappings of a descriptor -/

/-- The mappings of the descriptor hold the pages of their blocks. -/
def AllMapped (kernel : Kernel) (id : Fin SFXGE_TX_NDESCS) (stp : Stq) : Prop :=
  ∀ m ∈ stp.stStmp id, ∀ mp, (stp.mappings m).stmMp = some mp →
    ∃ blk dmac cookies, stp.msg[mp]? = some blk ∧ Mapped kernel stp m mp blk dmac cookies

theorem AllMapped.congr (h : AllMapped kernel id stp) (hview : stp'.mapsView = stp.mapsView) :
    AllMapped kernel id stp' := by
  cases stp
  cases stp'
  cases hview
  exact h

/-- They do if all but a new one are as they were. -/
theorem AllMapped.push (h : AllMapped kernel id stp) (hmsg : stp'.msg = stp.msg)
    (hlist : ∀ j ∈ stp'.stStmp id, j = m ∨ j ∈ stp.stStmp id)
    (hother : ∀ j ∈ stp.stStmp id, j ≠ m → stp'.mappings j = stp.mappings j)
    (hm : ∀ mp, (stp'.mappings m).stmMp = some mp →
      ∃ blk dmac cookies, stp.msg[mp]? = some blk ∧ Mapped kernel stp' m mp blk dmac cookies) :
    AllMapped kernel id stp' := by
  intro j hj mp hmp
  rw [hmsg]
  by_cases hjm : j = m
  · subst hjm
    exact hm mp hmp
  · have hmem := (hlist j hj).resolve_left hjm
    rw [hother j hmem hjm] at hmp
    obtain ⟨blk, dmac, cookies, hblk, hbind, hmapped⟩ := h j hmem mp hmp
    exact ⟨blk, dmac, cookies, hblk, hbind, by rw [hother j hmem hjm, hmapped]⟩

theorem post_takeMapping_all (h0 : q0.maps.Clean .unused) (hh : Holding id q0 msg bs ms stp)
    (h : AllMapped kernel id stp) (mp : ℕ) :
    (takeMapping kernel id mp : Prog Stq ε (Option ℕ)).Post stp (fun r stp' => AllMapped kernel id stp' ∧
      ∀ m ∈ r, stp'.mappings m = .unused) fun _ => True := by
  rw [takeMapping]
  cases hfree : stp.stFmp with
  | cons m rest =>
    have hget : (qfmpGet : Prog Stq ε _) stp = .ret (some m) { stp with stFmp := rest } := by rw [qfmpGet, hfree]
    have hm : stp.mappings m = .unused := hh.kept.maps.free_unused h0 (by
      change m ∈ stp.stFmp
      rw [hfree]
      exact List.mem_cons_self ..)
    refine post_of_ret (bind_of_ret hget) ⟨h.push (m := m) rfl (fun j hj => ?_) (fun _ _ _ => rfl) fun mp hmp => ?_, ?_⟩
    · change j ∈ Function.update stp.stStmp id (m :: stp.stStmp id) id at hj
      rw [Function.update_self] at hj
      exact List.mem_cons.mp hj
    · change (stp.mappings m).stmMp = some mp at hmp
      rw [hm] at hmp
      cases hmp
    · rintro _ ⟨⟩
      exact hm
  | nil =>
    have hget : (qfmpGet : Prog Stq ε _) stp = .ret none stp := by rw [qfmpGet, hfree]
    by_cases hk : kernel.tmc mp = true
    · have halloc : (tmcAlloc kernel mp : Prog Stq ε _) stp = .ret (some stp.nmappings) { stp with
          nmappings := stp.nmappings + 1
          mappings := Function.update stp.mappings stp.nmappings .unused } := by
        rw [tmcAlloc, if_pos hk]
      refine post_of_ret ((bind_of_ret hget).trans (bind_of_ret halloc))
        ⟨h.push (m := stp.nmappings) rfl (fun j hj => ?_) (fun j _ hj => Function.update_of_ne hj ..) fun mp hmp => ?_,
          ?_⟩
      · change j ∈ Function.update stp.stStmp id (stp.nmappings :: stp.stStmp id) id at hj
        rw [Function.update_self] at hj
        exact List.mem_cons.mp hj
      · change (Function.update stp.mappings stp.nmappings .unused stp.nmappings).stmMp = some mp at hmp
        rw [Function.update_self] at hmp
        cases hmp
      · rintro _ ⟨⟩
        exact Function.update_self ..
    · have halloc : (tmcAlloc kernel mp : Prog Stq ε _) stp = .ret none stp := by rw [tmcAlloc, if_neg hk]
      exact post_of_ret ((bind_of_ret hget).trans (bind_of_ret halloc)) ⟨h, by simp⟩

theorem post_tryMap_all {phys : Memory} (h0 : q0.maps.Clean .unused) (hh : Holding id q0 msg bs ms stp)
    (h : AllMapped kernel id stp) (hbinds : kernel.Binds phys stp.msg) (mp off : ℕ) (stmp : Option ℕ) :
    (tryMap kernel id mp off stmp).Post stp (fun _ stp' => AllMapped kernel id stp') fun _ => True := by
  rw [tryMap]
  refine post_getMblk_bind fun blk hblk => ?_
  split_ifs
  · exact post_pure h
  · exact post_pure h
  have hheld : (takeMapping kernel id mp : Prog Stq Errno _).Post stp _ _ := post_takeMapping hh h0 mp
  have htake := hheld.and ((post_takeMapping_all h0 hh h mp).and post_takeMapping_ret)
  refine post_bind (htake.mono (fun _ _ hq => hq) fun _ _ => trivial) ?_
  rintro r stp1 ⟨⟨hh1, -⟩, ⟨h1, hun⟩, -, honly, -⟩
  cases r with
  | none => exact post_pure h1
  | some m =>
    refine post_bind (post_msgbBind_ret (honly.msg.symm ▸ hbinds) (honly.msg ▸ hblk)) ?_
    rintro bound stp2 ⟨-, hmapped, hfailed, hother, honly2, -, hlist⟩
    refine post_pure (h1.push (m := m) honly2.msg (fun j hj => .inr (hlist ▸ hj)) (fun j _ hj => hother j hj)
      fun mp' hmp' => ?_)
    cases hbound : bound with
    | true =>
      obtain ⟨dmac, cookies, hm⟩ := hmapped hbound
      have heq : mp' = mp := by
        rw [hm.2] at hmp'
        exact (Option.some.inj hmp').symm
      exact ⟨blk, dmac, cookies, by rw [heq, honly.msg, hblk], heq ▸ hm⟩
    | false =>
      rw [hfailed hbound] at hmp'
      cases hmp'

/-- **The choice for a payload.**  A block that is mapped now or has been mapped before is in its mapping. -/
theorem post_payloadMapping_ret {phys : Memory} (h0 : q0.maps.Clean .unused) (hh : Holding id q0 msg bs ms stp)
    (h : AllMapped kernel id stp) (hbinds : copy = false → kernel.Binds phys stp.msg) (hblk : stp.msg[v.mp]? = some blk)
    (hm : ∀ m ∈ v.stmp, m ∈ stp.stStmp id) :
    (payloadMapping kernel id copy v).Post stp (fun r stp' =>
      (r.2 = true → copy = false ∧ ∃ m dmac cookies, r.1 = some m ∧ Mapped kernel stp' m v.mp blk dmac cookies) ∧
      MapsOnly stp stp' ∧ AllMapped kernel id stp') fun _ => True := by
  by_cases hc : copy = false ∧ v.stmp.any fun stmp => (stp.mappings stmp).stmMp = some v.mp
  · refine post_of_ret (if_pos hc) ⟨fun _ => ⟨hc.1, ?_⟩, .refl stp, h⟩
    obtain ⟨m, hv, hmp⟩ : ∃ m, v.stmp = some m ∧ (stp.mappings m).stmMp = some v.mp := by
      cases hv : v.stmp with
      | none => rw [hv] at hc; cases hc.2
      | some m => rw [hv] at hc; exact ⟨m, rfl, of_decide_eq_true hc.2⟩
    obtain ⟨blk', dmac, cookies, hblk', hmapped⟩ := h m (hm m hv) v.mp hmp
    rw [hblk] at hblk'
    cases hblk'
    exact ⟨m, dmac, cookies, hv, hmapped⟩
  · have hrun : payloadMapping kernel id copy v stp = packetMapping kernel id copy v stp := if_neg hc
    have hall : (packetMapping kernel id copy v).Post stp (fun _ stp' => AllMapped kernel id stp') fun _ => True := by
      rw [packetMapping]
      split_ifs with hcopy
      · exact post_pure h
      · exact post_tryMap_all h0 hh h (hbinds (Bool.eq_false_iff.mpr hcopy)) v.mp v.off v.stmp
    have hpost := (post_packetMapping_ret id copy hbinds hblk).and hall
    refine ⟨fun r s' hr => ?_, fun _ _ _ => trivial⟩
    obtain ⟨⟨hiff, hmapped, honly, -⟩, hall'⟩ := hpost.1 r s' (hrun ▸ hr)
    exact ⟨fun hb => ⟨(hiff.mp hb).1, hmapped hb⟩, honly, hall'⟩

/-! ### The loop -/

/-- A place from which bytes may be taken: the start of a block, or inside one. -/
def Inside (msg : List Mblk) (mp off : ℕ) : Prop := off = 0 ∨ ∃ blk, msg[mp]? = some blk ∧ off < blk.mblkl

theorem Inside.block {off : ℕ} (h : Inside msg mp off) (hlt : place msg mp off < (msgBytes msg).length) :
    ∃ blk, msg[mp]? = some blk ∧ off ≤ blk.mblkl := by
  cases hblk : msg[mp]? with
  | none =>
    have hlen := List.getElem?_eq_none_iff.mp hblk
    rw [place, List.take_of_length_le hlen, length_msgBytes] at hlt
    omega
  | some blk =>
    refine ⟨blk, rfl, ?_⟩
    rcases h with h0 | ⟨blk', hblk', hoff⟩
    · omega
    · rw [hblk] at hblk'
      cases hblk'
      exact hoff.le

/-- The state of the loop before a round: of `size` bytes from `p0` on, `c` have been taken. -/
structure Filling (kernel : Kernel) (id : Fin SFXGE_TX_NDESCS) (start : Stq) (msg : List Mblk) (p0 size c : ℕ)
    (v : Locals) (stp : Stq) : Prop where
  built : Built kernel id start (slice (msgBytes msg) p0 c) v.stbp stp
  flushed : Flushed stp v.stbp
  place : place msg v.mp v.off = p0 + c
  inside : Inside msg v.mp v.off
  total : c + v.size = size
  pos : 0 < v.size

/-- All bytes have been taken, and the fragments end the packet. -/
structure Filled (kernel : Kernel) (id : Fin SFXGE_TX_NDESCS) (start : Stq) (msg : List Mblk) (p0 size mp off : ℕ)
    (stp : Stq) : Prop where
  place : place msg mp off = p0 + size
  inside : Inside msg mp off
  finished : ∃ k, 0 < k ∧ Finished kernel id start (slice (msgBytes msg) p0 size) k stp

/-- What a round leads to. -/
def PayloadOutcome (kernel : Kernel) (id : Fin SFXGE_TX_NDESCS) (start : Stq) (msg : List Mblk) (p0 size : ℕ)
    (v : Locals) (stp : Stq) : Prop :=
  (∃ c, Filling kernel id start msg p0 size c v stp) ∨
    v.size = 0 ∧ Filled kernel id start msg p0 size v.mp v.off stp

section

variable (hf : Filling kernel id start msg p0 size c v stp) (hfit : p0 + size ≤ (msgBytes msg).length)
  (hmsg : stp.msg = msg) (hblk : msg[v.mp]? = some blk)
include hf hfit hmsg hblk

/-- A round that moves on by some bytes of a block. -/
theorem Filling.moved (hm : Moved kernel id start (slice (msgBytes msg) p0 c) blk v stp n hand stp')
    (stmp : Option ℕ) : PayloadOutcome kernel id start msg p0 size
      ⟨(v.next blk n).1, (v.next blk n).2, v.size - n, hand, stmp⟩ stp' := by
  have hle := hm.le
  have hsize := hm.le_size
  have htotal := hf.total
  have hplace : Frag.place msg (v.next blk n).1 (v.next blk n).2 = p0 + (c + n) := by
    rw [place_next n hblk, hf.place, Nat.add_assoc]
  have hslice : slice (msgBytes msg) p0 c ++ slice blk.bytes v.off n = slice (msgBytes msg) p0 (c + n) := by
    rw [slice_append, ← hf.place, slice_msgBytes hblk hle]
  have hinside : Inside msg (v.next blk n).1 (v.next blk n).2 := by
    rw [Locals.next]
    split_ifs with hend
    · exact .inl rfl
    · exact .inr ⟨blk, hblk, lt_of_le_of_ne hle hend⟩
  have hclose : v.Closes stp.msg.length blk n ↔ v.size = n := by
    refine ⟨fun hc => hc.elim (fun h => h) fun hlast => ?_, .inl⟩
    have hend : Frag.place msg (v.next blk n).1 (v.next blk n).2 = (msgBytes msg).length := by
      rw [Locals.next, if_pos hlast.1, Frag.place, hlast.2, hmsg, List.take_length, length_msgBytes, Nat.add_zero]
    omega
  rw [PayloadOutcome]
  by_cases hc : v.size = n
  · obtain ⟨k, hk, hfin⟩ := hm.finished (hclose.mpr hc)
    have hpos := hf.pos
    have hall : c + n = size := by omega
    rw [hslice, hall] at hfin
    exact .inr ⟨by dsimp only; omega, hall ▸ hplace, hinside, k, by omega, hfin⟩
  · obtain ⟨hb, hfl⟩ := hm.built fun h => hc (hclose.mp h)
    rw [hslice] at hb
    exact .inl ⟨c + n, hb, hfl, hplace, hinside, by dsimp only; omega, by dsimp only; omega⟩

end

/-- **A round.**  It takes the next bytes, or all have been taken. -/
theorem post_payloadRound_outcome (hk : kernel.Sound) (hbufs : q0.bufs.Clean .unused)
    (hmaps : q0.maps.Clean .unused) (hbinds : copy = false → kernel.Binds start.phys msg)
    (hfit : p0 + size ≤ (msgBytes msg).length) (hh : Holding id q0 msg (v.stbp.toList ++ bs) (v.stmp.toList ++ ms) stp)
    (hall : AllMapped kernel id stp) (h : PayloadOutcome kernel id start msg p0 size v stp) :
    (payloadRound kernel id copy v).Post stp (fun r stp' => match r with
      | .inl r => Filled kernel id start msg p0 size r.1 r.2 stp' ∧ AllMapped kernel id stp'
      | .inr v' => PayloadOutcome kernel id start msg p0 size v' stp' ∧ AllMapped kernel id stp') fun _ => True := by
  have hmsg := hh.kept.msg_eq
  rw [payloadRound]
  rcases h with ⟨c, hf⟩ | ⟨hsize, hdone⟩
  · rw [if_neg (Nat.ne_of_gt hf.pos)]
    obtain ⟨blk, hblk, hoff⟩ := hf.inside.block (by rw [hf.place]; have := hf.total; have := hf.pos; omega)
    have hheld : ∀ m ∈ v.stmp, m ∈ v.stmp.toList ++ ms := fun m hv =>
      List.mem_append_left _ (Option.mem_toList.mpr hv)
    have hmapping := (post_payloadMapping hh hmaps copy v hheld).and
      (post_payloadMapping_ret hmaps hh hall (hmsg.symm ▸ hbinds) (hmsg.symm ▸ hblk)
        fun m hv => hh.mappings m (hheld m hv))
    refine post_bind (hmapping.mono (fun _ _ hq => hq) fun _ _ => trivial) ?_
    rintro ⟨stmp, mapped⟩ stp1 ⟨hh1, hmapped, honly, hall1⟩
    have hmsg1 := hh1.kept.msg_eq
    obtain ⟨hb1, hfl1, -, -⟩ := honly.built hf.built
    have hf1 : Filling kernel id start msg p0 size c v stp1 := { hf with built := hb1, flushed := hfl1 hf.flushed }
    cases hb : mapped with
    | true =>
      obtain ⟨hcopy, m, dmac, cookies, hstmp, hm⟩ := hmapped hb
      have hback := hbinds hcopy v.mp blk _ hblk hm.1
      have hlt : v.off < blk.mblkl := by
        have hpos := hback.pos dmac (List.mem_cons_self ..)
        have htotal := hback.total
        rw [length_bytes, totalSize, List.map_cons, List.sum_cons] at htotal
        rcases hf.inside with h0 | ⟨blk', hblk', hlt⟩
        · omega
        · rw [hblk] at hblk'
          cases hblk'
          exact hlt
      cases hstmp
      have hmoved := post_mapBlock_moved hk hm hback hb1 hlt hf.pos
      have hframe := post_of_frames (frames_mapBlock kernel m v) stp1
      refine post_bind ((hmoved.and hframe).mono (fun _ _ hq => hq) fun _ _ => trivial) ?_
      rintro _ stp2 ⟨⟨n, -, -, rfl, hmv, -, -⟩, hview⟩
      have hblk2 : stp2.msg[v.mp]? = some blk := by
        rw [show stp2.msg = stp1.msg from congrArg (·.1) hview, hmsg1, hblk]
      refine post_bind_of_ret (getMblk_ret hblk2) ?_
      have hout := hf1.moved hfit hmsg1 hblk hmv (some m)
      have hall2 := hall1.congr hview
      rw [Locals.next] at hout
      split_ifs at hout ⊢ with hend
      · exact post_pure ⟨hout, hall2⟩
      · exact post_pure ⟨hout, hall2⟩
    | false =>
      have hmoved := post_copyBlock_moved (v := { v with stmp := stmp }) hk hbufs hh1 hb1 (hfl1 hf.flushed)
        (hmsg1.symm ▸ hblk) hoff
      have hcopy : (copyBlock kernel id { v with stmp := stmp }).Post stp1 (fun v' stp' =>
          PayloadOutcome kernel id start msg p0 size v' stp' ∧ AllMapped kernel id stp') fun _ => True := by
        refine (hmoved.and (post_of_frames (frames_copyBlock kernel id _) stp1)).mono ?_ fun _ _ => trivial
        rintro _ stp2 ⟨⟨n, b, rfl, -, hmv, -⟩, hview⟩
        exact ⟨Filling.moved (v := { v with stmp := stmp }) { hf1 with } hfit hmsg1 hblk hmv stmp, hall1.congr hview⟩
      cases stmp with
      | none => exact post_bind hcopy fun v' stp2 h2 => post_pure h2
      | some m => exact post_bind hcopy fun v' stp2 h2 => post_pure h2
  · rw [if_pos hsize]
    exact post_pure ⟨hdone, hall⟩

/-- With all buffers flushed, the first of the list is at hand. -/
theorem Steady.begin {phys : Memory} (h : Steady kernel id phys none stp) :
    Steady kernel id phys (stp.stStbp id).head? stp ∧ waiting stp (stp.stStbp id).head? = 0 := by
  cases hlist : stp.stStbp id with
  | nil => exact ⟨h, rfl⟩
  | cons b rest =>
    have hb : b ∈ stp.stStbp id := by rw [hlist]; exact List.mem_cons_self ..
    exact ⟨h.take_up hb, Nat.sub_eq_zero_of_le (h.flushed b hb nofun).ge⟩

/-- **A payload.**  `sfxge_tx_qpayload_fragment` takes the next `size` bytes of the message. -/
theorem post_qpayloadFragment_filled (hk : kernel.Sound) (hbufs : q0.bufs.Clean .unused)
    (hmaps : q0.maps.Clean .unused) (hbinds : copy = false → kernel.Binds stp.phys msg) (hsize : 0 < size)
    (hh : Holding id q0 msg bs ms stp) (hall : AllMapped kernel id stp) (hs : Steady kernel id stp.phys none stp)
    {mp off : ℕ} (hin : Inside msg mp off) (hfit : place msg mp off + size ≤ (msgBytes msg).length) :
    (qpayloadFragment kernel id mp off size copy).Post stp (fun r stp' => Holding id q0 msg bs ms stp' ∧
      AllMapped kernel id stp' ∧ Filled kernel id stp msg (place msg mp off) size r.1 r.2 stp') fun _ => True := by
  obtain ⟨hs0, hw0⟩ := hs.begin
  have hstart : Filling kernel id stp msg (place msg mp off) size 0
      ⟨mp, off, size, (stp.stStbp id).head?, (stp.stStmp id).head?⟩ stp :=
    { built := ⟨hs0, fun _ _ => rfl, [], (List.append_nil _).symm, nofun, by
        rw [pending_of_waiting_zero hw0, slice_zero]; rfl⟩
      flushed := fun _ _ _ => hw0
      place := rfl
      inside := hin
      total := Nat.zero_add _
      pos := hsize }
  rw [qpayloadFragment]
  refine post_bind_of_ret rfl ?_
  refine post_iterate (fun v stp' => Holding id q0 msg (v.stbp.toList ++ bs) (v.stmp.toList ++ ms) stp' ∧
    AllMapped kernel id stp' ∧ PayloadOutcome kernel id stp msg (place msg mp off) size v stp') ?_ _ _ _
    ⟨hh.heads, hall, .inl ⟨0, hstart⟩⟩
  rintro v stp1 ⟨hh1, hall1, hout⟩
  have hround := post_payloadRound_outcome hk hbufs hmaps hbinds hfit hh1 hall1 hout
  refine ((post_payloadRound_holding hh1 kernel hmaps copy).and hround).mono (fun r stp2 h2 => ?_) fun _ _ => trivial
  cases r with
  | inl r => exact ⟨h2.1, h2.2.2, h2.2.1⟩
  | inr v' => exact ⟨h2.1, h2.2.2, h2.2.1⟩

end Sfxge.Tx.Frag
