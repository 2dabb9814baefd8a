import Sfxge.Tx.Blocks

/-!
# Tx.Bind — which blocks are mapped

A block is mapped if it is worth it, there is a mapping and the kernel binds the block to it.  The mapping then
holds the pages of the block.
-/

namespace Sfxge.Tx.Frag

open Lib Lib.Prog Errno

variable {ε : Type} {kernel : Kernel} {id : Fin SFXGE_TX_NDESCS} {phys0 : Memory} {stp stp' q0 start : Stq}
  {hand : Option ℕ} {done : Bytes} {blk : Mblk} {msg : List Mblk} {mp m : ℕ}

/-- `ddi_dma_addr_bind_handle`: the cookies of each block that it binds cover the block. -/
def Kernel.Binds (kernel : Kernel) (phys : Memory) (msg : List Mblk) : Prop :=
  ∀ mp blk cookies, msg[mp]? = some blk → kernel.bind mp = some cookies → kernel.Backs phys blk cookies

/-! ### The pages of a block -/

theorem pages_nil {dmac : Cookie} (h : dmac.size = 0) : pages SFXGE_TX_DESCSIZE dmac = [] := by
  obtain ⟨addr, size⟩ := dmac
  cases h
  exact pages_of_size_zero (by decide)

theorem nextCookie_none {dmac : Cookie} {cookies : List Cookie} (h : nextCookie dmac cookies = none) :
    dmac.size = 0 ∧ cookies = [] := by
  by_cases hz : dmac.size = 0
  · rw [nextCookie.eq_def, if_pos hz] at h
    cases cookies with
    | nil => exact ⟨hz, rfl⟩
    | cons c cs => cases h
  · rw [nextCookie.eq_def, if_neg hz] at h
    cases h

/-- Going on to the next cookie leaves the same pages to be added. -/
theorem nextCookie_some {dmac d : Cookie} {cookies cs : List Cookie} (hpos : ∀ c ∈ cookies, 0 < c.size)
    (h : nextCookie dmac cookies = some (d, cs)) : 0 < d.size ∧ (∀ c ∈ cs, 0 < c.size) ∧
      pages SFXGE_TX_DESCSIZE dmac ++ pagesOf SFXGE_TX_DESCSIZE cookies =
        pages SFXGE_TX_DESCSIZE d ++ pagesOf SFXGE_TX_DESCSIZE cs := by
  by_cases hz : dmac.size = 0
  · rw [nextCookie.eq_def, if_pos hz] at h
    cases cookies with
    | nil => cases h
    | cons c cs' =>
      cases h
      obtain ⟨hd, hcs⟩ := List.forall_mem_cons.mp hpos
      exact ⟨hd, hcs, by rw [pages_nil hz]; rfl⟩
  · rw [nextCookie.eq_def, if_neg hz] at h
    cases h
    exact ⟨Nat.pos_of_ne_zero hz, hpos, rfl⟩

/-- The loop adds the pages of all cookies. -/
theorem bindLoop_eq {room : ℕ} {dmac : Cookie} {cookies : List Cookie} {acc stmAddr : List ℕ}
    (hpos : ∀ c ∈ cookies, 0 < c.size) (h : bindLoop room dmac cookies acc = some stmAddr) :
    stmAddr = acc ++ (pages SFXGE_TX_DESCSIZE dmac ++ pagesOf SFXGE_TX_DESCSIZE cookies) := by
  induction room generalizing dmac cookies acc with
  | zero =>
    rw [bindLoop] at h
    cases hnext : nextCookie dmac cookies with
    | none =>
      rw [hnext] at h
      cases h
      obtain ⟨hz, rfl⟩ := nextCookie_none hnext
      rw [pages_nil hz]
      exact (List.append_nil _).symm
    | some next =>
      rw [hnext] at h
      cases h
  | succ room ih =>
    rw [bindLoop] at h
    cases hnext : nextCookie dmac cookies with
    | none =>
      rw [hnext] at h
      cases h
      obtain ⟨hz, rfl⟩ := nextCookie_none hnext
      rw [pages_nil hz]
      exact (List.append_nil _).symm
    | some next =>
      obtain ⟨⟨addr, size⟩, cs⟩ := next
      obtain ⟨hd, hcs, hsame⟩ := nextCookie_some hpos hnext
      rw [hnext] at h
      rw [ih hcs h, hsame, pages_cons (by decide) hd, List.append_assoc]
      rfl

/-! ### Binding -/

/-- The states differ in their mappings only. -/
structure MapsOnly (stp stp' : Stq) : Prop where
  msg : stp'.msg = stp.msg
  phys : stp'.phys = stp.phys
  stEb : stp'.stEb = stp.stEb
  buffers : stp'.buffers = stp.buffers
  stStbp : stp'.stStbp = stp.stStbp

theorem MapsOnly.refl (stp : Stq) : MapsOnly stp stp := ⟨rfl, rfl, rfl, rfl, rfl⟩

theorem MapsOnly.trans {stp2 : Stq} (h : MapsOnly stp stp') (h' : MapsOnly stp' stp2) : MapsOnly stp stp2 :=
  ⟨h'.msg.trans h.msg, h'.phys.trans h.phys, h'.stEb.trans h.stEb, h'.buffers.trans h.buffers,
    h'.stStbp.trans h.stStbp⟩

/-- The list and the buffers do not depend on the mappings. -/
theorem MapsOnly.built (h : MapsOnly stp stp') (hb : Built kernel id start done hand stp) :
    Built kernel id start done hand stp' ∧ (Flushed stp hand → Flushed stp' hand) ∧
      waiting stp' hand = waiting stp hand ∧ fill stp' hand = fill stp hand := by
  obtain ⟨hmsg, hphys, heb, hbuf, hstbp⟩ := h
  cases stp
  cases stp'
  cases hmsg
  cases hphys
  cases heb
  cases hbuf
  cases hstbp
  exact ⟨⟨{ hb.steady with }, hb.old, hb.pieces⟩, by cases hand <;> exact fun hf => hf, by cases hand <;> rfl,
    by cases hand <;> rfl⟩

/-- `sfxge_tx_msgb_bind` binds what the kernel binds, and the mapping then holds the pages of the block. -/
theorem post_msgbBind_ret (hbinds : kernel.Binds phys0 stp.msg) (hblk : stp.msg[mp]? = some blk) :
    (msgbBind kernel mp m : Prog Stq ε Bool).Post stp (fun r stp' => r = (kernel.bind mp).isSome ∧
      (r = true → ∃ dmac cookies, Mapped kernel stp' m mp blk dmac cookies) ∧
      (r = false → (stp'.mappings m).stmMp = none) ∧ (∀ j ≠ m, stp'.mappings j = stp.mappings j) ∧
      MapsOnly stp stp' ∧ stp'.stFmp = stp.stFmp ∧ stp'.stStmp = stp.stStmp) fun _ => True := by
  rw [msgbBind]
  refine post_bind_of_ret (getMblk_ret hblk) (post_bind_of_ret rfl ?_)
  cases hbind : kernel.bind mp with
  | none =>
    refine post_bind_of_ret rfl (post_pure ⟨rfl, by simp, fun _ => ?_, fun j hj => Function.update_of_ne hj ..,
      ⟨rfl, rfl, rfl, rfl, rfl⟩, rfl, rfl⟩)
    simp only [Function.update_self]
  | some cookies =>
    cases cookies with
    | nil => exact post_stuck
    | cons dmac cookies =>
      have hback := hbinds mp blk _ hblk hbind
      dsimp only
      cases hloop : bindLoop (SFXGE_TX_MAPPING_NADDR - 1)
        ⟨dmac.addr + min (SFXGE_TX_DESCSIZE - dmac.addr % SFXGE_TX_DESCSIZE) dmac.size,
          dmac.size - min (SFXGE_TX_DESCSIZE - dmac.addr % SFXGE_TX_DESCSIZE) dmac.size⟩ cookies
        [dmac.addr - dmac.addr % SFXGE_TX_DESCSIZE] with
      | none => exact post_stuck
      | some stmAddr =>
        have hpages := bindLoop_eq (fun c hc => hback.pos c (List.mem_cons_of_mem _ hc)) hloop
        refine post_bind_of_ret rfl (post_pure ⟨rfl, fun _ => ⟨dmac, cookies, hbind, ?_⟩, by simp,
          fun j hj => Function.update_of_ne hj .., ⟨rfl, rfl, rfl, rfl, rfl⟩, rfl, rfl⟩)
        refine (Function.update_self ..).trans ?_
        rw [hpages, objectPages, List.append_assoc]

/-- The block is worth a mapping. -/
def Worth (blk : Mblk) (off : ℕ) : Prop := off = 0 ∧ SFXGE_TX_COPY_THRESHOLD ≤ blk.mblkl

instance (blk : Mblk) (off : ℕ) : Decidable (Worth blk off) := inferInstanceAs (Decidable (_ ∧ _))

/-- A mapping is had. -/
def HasMapping (kernel : Kernel) (stFmp : List ℕ) (mp : ℕ) : Prop := stFmp ≠ [] ∨ kernel.tmc mp = true

theorem post_takeMapping_ret :
    (takeMapping kernel id mp : Prog Stq ε (Option ℕ)).Post stp (fun r stp' =>
      (r.isSome ↔ HasMapping kernel stp.stFmp mp) ∧ MapsOnly stp stp' ∧ stp'.stFmp = stp.stFmp.tail)
      fun _ => True := by
  rw [takeMapping]
  cases hfree : stp.stFmp with
  | cons m rest =>
    have hget : (qfmpGet : Prog Stq ε _) stp = .ret (some m) { stp with stFmp := rest } := by rw [qfmpGet, hfree]
    exact post_of_ret (bind_of_ret hget) ⟨by simp [HasMapping], ⟨rfl, rfl, rfl, rfl, rfl⟩, rfl⟩
  | nil =>
    have hget : (qfmpGet : Prog Stq ε _) stp = .ret none stp := by rw [qfmpGet, hfree]
    by_cases hk : kernel.tmc mp = true
    · have halloc : (tmcAlloc kernel mp : Prog Stq ε _) stp = .ret (some stp.nmappings) { stp with
          nmappings := stp.nmappings + 1
          mappings := Function.update stp.mappings stp.nmappings .unused } := by
        rw [tmcAlloc, if_pos hk]
      exact post_of_ret ((bind_of_ret hget).trans (bind_of_ret halloc))
        ⟨by simp [HasMapping, hk], ⟨rfl, rfl, rfl, rfl, rfl⟩, hfree⟩
    · have halloc : (tmcAlloc kernel mp : Prog Stq ε _) stp = .ret none stp := by rw [tmcAlloc, if_neg hk]
      exact post_of_ret ((bind_of_ret hget).trans (bind_of_ret halloc))
        ⟨by simp [HasMapping, hk], ⟨rfl, rfl, rfl, rfl, rfl⟩, hfree⟩

/-- Whether a block is mapped. -/
def Maps (kernel : Kernel) (copy : Bool) (stFmp : List ℕ) (mp off : ℕ) (blk : Mblk) : Prop :=
  copy = false ∧ Worth blk off ∧ HasMapping kernel stFmp mp ∧ (kernel.bind mp).isSome = true

/-- The mappings that a block leaves in the pool. -/
def poolLeft (copy : Bool) (blk : Mblk) (off : ℕ) (stFmp : List ℕ) : List ℕ :=
  if copy = false ∧ Worth blk off then stFmp.tail else stFmp

/-- **The choice.**  A block is mapped if it is worth it, there is a mapping, and the kernel binds it. -/
theorem post_packetMapping_ret (id : Fin SFXGE_TX_NDESCS) (copy : Bool) {v : Locals}
    (hbinds : copy = false → kernel.Binds phys0 stp.msg) (hblk : stp.msg[v.mp]? = some blk) :
    (packetMapping kernel id copy v).Post stp (fun r stp' =>
      (r.2 = true ↔ Maps kernel copy stp.stFmp v.mp v.off blk) ∧
      (r.2 = true → ∃ m dmac cookies, r.1 = some m ∧ Mapped kernel stp' m v.mp blk dmac cookies) ∧
      MapsOnly stp stp' ∧ stp'.stFmp = poolLeft copy blk v.off stp.stFmp)
      fun _ => True := by
  have hno : ∀ stmp, ¬ (copy = false ∧ Worth blk v.off) →
      (pure (stmp, false) : Prog Stq Errno (Option ℕ × Bool)).Post stp (fun r stp' =>
        (r.2 = true ↔ Maps kernel copy stp.stFmp v.mp v.off blk) ∧
        (r.2 = true → ∃ m dmac cookies, r.1 = some m ∧ Mapped kernel stp' m v.mp blk dmac cookies) ∧
        MapsOnly stp stp' ∧ stp'.stFmp = poolLeft copy blk v.off stp.stFmp)
        fun _ => True := fun stmp hn =>
    post_pure ⟨⟨by simp, fun h => absurd ⟨h.1, h.2.1⟩ hn⟩, by simp, .refl stp, (if_neg hn).symm⟩
  rw [packetMapping]
  split_ifs with hcopy
  · exact hno _ fun h => by rw [hcopy] at h; cases h.1
  rw [tryMap]
  refine post_bind_of_ret (getMblk_ret hblk) ?_
  split_ifs with hoff hlen
  · exact hno _ fun h => hoff h.2.1
  · exact hno _ fun h => absurd h.2.2 (not_le.mpr hlen)
  have hyes : copy = false ∧ Worth blk v.off :=
    ⟨Bool.eq_false_iff.mpr hcopy, not_not.mp hoff, not_lt.mp hlen⟩
  rw [poolLeft, if_pos hyes]
  refine post_bind post_takeMapping_ret ?_
  rintro r stp1 ⟨hhas, honly, hfree⟩
  cases r with
  | none =>
    exact post_pure ⟨⟨by simp, fun h => absurd (hhas.mpr h.2.2.1) (by simp)⟩, by simp, honly, hfree⟩
  | some m =>
    refine post_bind (post_msgbBind_ret (honly.msg.symm ▸ hbinds hyes.1) (honly.msg ▸ hblk)) ?_
    rintro bound stp2 ⟨rfl, hmapped, -, -, honly2, hfree2, -⟩
    refine post_pure ⟨⟨fun h => ⟨hyes.1, hyes.2, hhas.mp rfl, h⟩, fun h => h.2.2.2⟩, fun h => ?_, honly.trans honly2,
      hfree2.trans hfree⟩
    obtain ⟨dmac, cookies, hm⟩ := hmapped h
    exact ⟨m, dmac, cookies, rfl, hm⟩

/-! ### What the blocks leave alone -/

/-- The message and the mappings. -/
def Stq.mapsView (stp : Stq) : List Mblk × (ℕ → TxMapping) × List ℕ × (Fin SFXGE_TX_NDESCS → List ℕ) :=
  (stp.msg, stp.mappings, stp.stFmp, stp.stStmp)

theorem frames_getMblk (mp : ℕ) : (getMblk mp : Prog Stq ε Mblk).Frames Stq.mapsView := by
  intro s s' h
  rw [getMblk] at h
  cases hblk : s.msg[mp]? with
  | none => rw [hblk] at h; cases h
  | some blk => rw [hblk] at h; cases h; rfl

theorem frames_getBuffer (b : ℕ) : (getBuffer b : Prog Stq ε TxBuffer).Frames Stq.mapsView := by
  intro s s' h
  cases h
  rfl

theorem frames_setBuffer (b : ℕ) (x : TxBuffer) : (setBuffer b x : Prog Stq ε Unit).Frames Stq.mapsView := by
  intro s s' h
  cases h
  rfl

theorem frames_addFragment (eb : EfxBuffer) : (addFragment eb).Frames Stq.mapsView := by
  intro s s' h
  rw [addFragment] at h
  split_ifs at h <;> cases h <;> rfl

theorem frames_qbufferAdd (b : ℕ) (eop : Bool) : (qbufferAdd kernel b eop).Frames Stq.mapsView :=
  frames_bind (frames_getBuffer b) fun _ => frames_bind (frames_addFragment _) fun _ => frames_setBuffer b _

theorem frames_takeBuffer : (takeBuffer kernel id).Frames Stq.mapsView := by
  have hget : (qfbpGet : Prog Stq Errno _).Frames Stq.mapsView := by
    intro s s' h
    rw [qfbpGet] at h
    cases hfree : s.stFbp with
    | nil => rw [hfree] at h; cases h; rfl
    | cons b rest => rw [hfree] at h; cases h; rfl
  have halloc : (tbcAlloc kernel : Prog Stq Errno _).Frames Stq.mapsView := by
    intro s s' h
    rw [tbcAlloc] at h
    split_ifs at h <;> cases h <;> rfl
  have hpush : ∀ stbp : ℕ, (do
      modify fun stp => { stp with stStbp := Function.update stp.stStbp id (stbp :: stp.stStbp id) }
      return stbp : Prog Stq Errno ℕ).Frames Stq.mapsView := by
    intro b s s' h
    cases h
    rfl
  refine frames_bind hget fun r => ?_
  cases r with
  | none =>
    refine frames_bind halloc fun r => ?_
    cases r with
    | none => exact frames_fail ENOMEM
    | some b => exact hpush b
  | some b => exact hpush b

theorem frames_pickBuffer (stbp : Option ℕ) (full : TxBuffer → Prop) [DecidablePred full] :
    (pickBuffer kernel id stbp full).Frames Stq.mapsView := by
  intro s s' h
  cases stbp with
  | none => exact frames_takeBuffer s s' h
  | some b =>
    rw [pickBuffer] at h
    split_ifs at h
    · exact frames_takeBuffer s s' h
    · cases h; rfl

theorem frames_bcopy (bs : Bytes) (b copyOff : ℕ) :
    (bcopy kernel bs b copyOff : Prog Stq ε Unit).Frames Stq.mapsView := by
  intro s s' h
  rw [bcopy] at h
  split_ifs at h <;> cases h
  rfl

/-- Copying a block does not touch the mappings. -/
theorem frames_copyBlock (kernel : Kernel) (id : Fin SFXGE_TX_NDESCS) (v : Locals) :
    (copyBlock kernel id v).Frames Stq.mapsView := by
  refine frames_bind (frames_pickBuffer _ _) fun b => frames_bind ?_ fun r =>
    frames_bind (frames_getBuffer b) fun _ => ?_
  · exact frames_bind (frames_getMblk _) fun _ => frames_bind (frames_getBuffer b) fun _ => frames_bind frames_get
      fun _ => frames_bind (frames_bcopy _ _ _) fun _ => frames_bind (frames_setBuffer _ _) fun _ => frames_pure _
  · refine frames_bind (frames_ite (frames_qbufferAdd _ _) (frames_pure _)) fun _ => frames_bind (frames_getMblk _)
      fun _ => frames_ite (frames_pure _) (frames_pure _)

theorem frames_flushBuffer (stbp : Option ℕ) : (flushBuffer kernel stbp).Frames Stq.mapsView := by
  cases stbp with
  | none => exact frames_pure ()
  | some b =>
    exact frames_bind (frames_getBuffer b) fun _ => frames_ite (frames_qbufferAdd _ _) (frames_pure _)

theorem frames_qmappingAdd (m off limit : ℕ) : (qmappingAdd m off limit).Frames Stq.mapsView := by
  have hget : (getMapping m : Prog Stq Errno TxMapping).Frames Stq.mapsView := by
    intro s s' h
    cases h
    rfl
  have hstuck : ∀ {α : Type}, (stuck : Prog Stq Errno α).Frames Stq.mapsView := fun s s' h => by cases h
  refine frames_bind hget fun stm => ?_
  cases stm.stmMp with
  | none => exact hstuck
  | some mp =>
    refine frames_bind frames_get fun _ => frames_iterate (fun u => ?_) _ _
    rw [mappingAddRound]
    refine frames_ite (frames_pure _) ?_
    dsimp only
    split
    · exact hstuck
    · exact frames_bind (frames_addFragment _) fun _ => frames_pure _

/-- Nor does adding a mapping to the list. -/
theorem frames_mapBlock (kernel : Kernel) (m : ℕ) (v : Locals) : (mapBlock kernel m v).Frames Stq.mapsView :=
  frames_bind (frames_flushBuffer _) fun _ => frames_qmappingAdd _ _ _

end Sfxge.Tx.Frag
