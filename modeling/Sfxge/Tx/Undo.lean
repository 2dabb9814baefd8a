import Sfxge.Lib.Pool
import Sfxge.Lib.Post
import Sfxge.Tx.Segment

/-!
# Tx.Undo — a failed fragmentation leaves no trace

Whatever the two functions have done when they fail, the buffers and mappings they have drawn are on the lists of
one descriptor, the other slots are as they were, and the message is as it was.  `qlistAbort` gives the lists back.
-/

namespace Sfxge.Tx.Frag

open Lib Lib.Prog Errno

/-- The buffers of a queue. -/
def Stq.bufs (stp : Stq) : Pool TxBuffer := ⟨stp.nbuffers, stp.buffers, stp.stFbp⟩

/-- The mappings of a queue. -/
def Stq.maps (stp : Stq) : Pool TxMapping := ⟨stp.nmappings, stp.mappings, stp.stFmp⟩

variable {ε : Type} {kernel : Kernel} {id : Fin SFXGE_TX_NDESCS} {q0 stp : Stq} {msg : List Mblk}

/-! ### What fragmentation keeps -/

/-- Since `q0` only buffers and mappings that are now on the lists of `id` have been drawn, and no other slot has
changed. -/
structure Kept (id : Fin SFXGE_TX_NDESCS) (q0 : Stq) (msg : List Mblk) (stp : Stq) : Prop where
  msg_eq : stp.msg = msg
  bufs : q0.bufs.Drawn stp.bufs (stp.stStbp id)
  maps : q0.maps.Drawn stp.maps (stp.stStmp id)
  unbound : ∀ m ∈ stp.stStmp id, (stp.mappings m).stmMp = none → stp.mappings m = .unused
  slots : ∀ j ≠ id, stp.stStbp j = q0.stStbp j ∧ stp.stStmp j = q0.stStmp j
  stMp : stp.stMp = q0.stMp
  freed : stp.freed = q0.freed
  stAdded : stp.stAdded = q0.stAdded

/-- Among them are the buffers `bs` and the mappings `ms`. -/
structure Holding (id : Fin SFXGE_TX_NDESCS) (q0 : Stq) (msg : List Mblk) (bs ms : List ℕ) (stp : Stq) : Prop where
  kept : Kept id q0 msg stp
  buffers : ∀ b ∈ bs, b ∈ stp.stStbp id
  mappings : ∀ m ∈ ms, m ∈ stp.stStmp id

theorem post_getMblk_bind {α : Type} {mp : ℕ} {f : Mblk → Prog Stq ε α} {Q : α → Stq → Prop} {E : Stq → Prop}
    (h : ∀ blk, stp.msg[mp]? = some blk → (f blk).Post stp Q E) : (getMblk mp >>= f).Post stp Q E := by
  cases hblk : stp.msg[mp]? with
  | none =>
    have hrun : (getMblk mp : Prog Stq ε Mblk) stp = .fault := by rw [getMblk, hblk]
    exact post_of_fault (bind_of_fault hrun)
  | some blk =>
    have hrun : (getMblk mp : Prog Stq ε Mblk) stp = .ret blk stp := by rw [getMblk, hblk]
    have hpost : (getMblk mp : Prog Stq ε Mblk).Post stp (fun b s => b = blk ∧ s = stp) E :=
      post_of_ret hrun ⟨rfl, rfl⟩
    refine post_bind hpost ?_
    rintro a s' ⟨rfl, rfl⟩
    exact h _ hblk

section

variable {bs ms : List ℕ} (h : Holding id q0 msg bs ms stp)
include h

/-- A buffer that has been drawn is added to the list. -/
theorem Holding.push_buffer {b : ℕ} {p : Pool TxBuffer} (hd : q0.bufs.Drawn p (b :: stp.stStbp id)) :
    Holding id q0 msg (b :: bs) ms { stp with
      nbuffers := p.count
      buffers := p.obj
      stFbp := p.free
      stStbp := Function.update stp.stStbp id (b :: stp.stStbp id) } where
  kept :=
    { h.kept with
      bufs := by
        change q0.bufs.Drawn p (Function.update stp.stStbp id (b :: stp.stStbp id) id)
        rwa [Function.update_self]
      slots := fun j hj => ⟨(Function.update_of_ne hj ..).trans (h.kept.slots j hj).1, (h.kept.slots j hj).2⟩ }
  buffers c hc := by
    change c ∈ Function.update stp.stStbp id (b :: stp.stStbp id) id
    rw [Function.update_self]
    rcases List.mem_cons.mp hc with rfl | hc
    · exact List.mem_cons_self ..
    · exact List.mem_cons_of_mem _ (h.buffers c hc)
  mappings := h.mappings

/-- A mapping that has been drawn is added to the list. -/
theorem Holding.push_mapping {m : ℕ} {p : Pool TxMapping} (hd : q0.maps.Drawn p (m :: stp.stStmp id))
    (hm : p.obj m = .unused) (hrest : ∀ j ∈ stp.stStmp id, p.obj j = stp.mappings j) :
    Holding id q0 msg bs (m :: ms) { stp with
      nmappings := p.count
      mappings := p.obj
      stFmp := p.free
      stStmp := Function.update stp.stStmp id (m :: stp.stStmp id) } where
  kept :=
    { h.kept with
      maps := by
        change q0.maps.Drawn p (Function.update stp.stStmp id (m :: stp.stStmp id) id)
        rwa [Function.update_self]
      unbound := by
        change ∀ j ∈ Function.update stp.stStmp id (m :: stp.stStmp id) id, (p.obj j).stmMp = none → p.obj j = .unused
        rw [Function.update_self, List.forall_mem_cons]
        refine ⟨fun _ => hm, fun j hj hnone => ?_⟩
        rw [hrest j hj] at hnone ⊢
        exact h.kept.unbound j hj hnone
      slots := fun j hj => ⟨(h.kept.slots j hj).1, (Function.update_of_ne hj ..).trans (h.kept.slots j hj).2⟩ }
  buffers := h.buffers
  mappings c hc := by
    change c ∈ Function.update stp.stStmp id (m :: stp.stStmp id) id
    rw [Function.update_self]
    rcases List.mem_cons.mp hc with rfl | hc
    · exact List.mem_cons_self ..
    · exact List.mem_cons_of_mem _ (h.mappings c hc)

theorem Holding.set_buffer {b : ℕ} (hb : b ∈ bs) (x : TxBuffer) :
    Holding id q0 msg bs ms { stp with buffers := Function.update stp.buffers b x } where
  kept := { h.kept with bufs := h.kept.bufs.set (h.buffers b hb) x }
  buffers := h.buffers
  mappings := h.mappings

theorem Holding.set_mapping {m : ℕ} (hm : m ∈ ms) {x : TxMapping} (hx : x.stmMp = none → x = .unused) :
    Holding id q0 msg bs ms { stp with mappings := Function.update stp.mappings m x } where
  kept :=
    { h.kept with
      maps := h.kept.maps.set (h.mappings m hm) x
      unbound := fun j hj => by
        change (Function.update stp.mappings m x j).stmMp = none → Function.update stp.mappings m x j = .unused
        by_cases hjm : j = m
        · rw [hjm, Function.update_self]
          exact hx
        · rw [Function.update_of_ne hjm]
          exact h.kept.unbound j hj }
  buffers := h.buffers
  mappings := h.mappings

theorem Holding.set_eb (stEb : List EfxBuffer) : Holding id q0 msg bs ms { stp with stEb := stEb } :=
  ⟨{ h.kept with }, h.buffers, h.mappings⟩

theorem Holding.set_phys (phys : Memory) : Holding id q0 msg bs ms { stp with phys := phys } :=
  ⟨{ h.kept with }, h.buffers, h.mappings⟩

/-- What is on the lists may be named again. -/
theorem Holding.mono {bs' ms' : List ℕ} (hb : ∀ b ∈ bs', b ∈ bs) (hm : ∀ m ∈ ms', m ∈ ms) :
    Holding id q0 msg bs' ms' stp :=
  ⟨h.kept, fun b hmem => h.buffers b (hb b hmem), fun m hmem => h.mappings m (hm m hmem)⟩

theorem Holding.also_buffer {stbp : Option ℕ} (hb : ∀ b ∈ stbp, b ∈ bs) :
    Holding id q0 msg (stbp.toList ++ bs) ms stp :=
  h.mono (fun b hmem => (List.mem_append.mp hmem).elim (fun hs => hb b (Option.mem_toList.mp hs)) fun hh => hh)
    fun _ hm => hm

theorem Holding.also_mapping {stmp : Option ℕ} (hm : ∀ m ∈ stmp, m ∈ ms) :
    Holding id q0 msg bs (stmp.toList ++ ms) stp :=
  h.mono (fun _ hb => hb)
    fun m hmem => (List.mem_append.mp hmem).elim (fun hs => hm m (Option.mem_toList.mp hs)) fun hh => hh

/-! ### What each part does -/

theorem post_takeBuffer (kernel : Kernel) :
    (takeBuffer kernel id).Post stp (fun b stp' => Holding id q0 msg (b :: bs) ms stp') (Kept id q0 msg) := by
  rw [takeBuffer]
  cases hfree : stp.stFbp with
  | cons b rest =>
    have hget : (qfbpGet : Prog Stq Errno _) stp = .ret (some b) { stp with stFbp := rest } := by
      rw [qfbpGet, hfree]
    exact post_of_ret (bind_of_ret hget) (h.push_buffer (h.kept.bufs.take hfree))
  | nil =>
    have hget : (qfbpGet : Prog Stq Errno _) stp = .ret none stp := by rw [qfbpGet, hfree]
    by_cases hk : kernel.tbc stp.nbuffers = true
    · have halloc : (tbcAlloc kernel : Prog Stq Errno _) stp = .ret (some stp.nbuffers) { stp with
          nbuffers := stp.nbuffers + 1
          buffers := Function.update stp.buffers stp.nbuffers .unused } := by
        rw [tbcAlloc, if_pos hk]
      exact post_of_ret ((bind_of_ret hget).trans (bind_of_ret halloc)) (h.push_buffer (h.kept.bufs.make .unused))
    · have halloc : (tbcAlloc kernel : Prog Stq Errno _) stp = .ret none stp := by
        rw [tbcAlloc, if_neg hk]
      exact post_of_err ((bind_of_ret hget).trans (bind_of_ret halloc)) h.kept

theorem post_takeMapping (h0 : q0.maps.Clean .unused) (mp : ℕ) :
    (takeMapping kernel id mp : Prog Stq ε _).Post stp
      (fun r stp' => Holding id q0 msg bs (r.toList ++ ms) stp' ∧ ∀ m ∈ r, stp'.mappings m = .unused)
      (Kept id q0 msg) := by
  rw [takeMapping]
  cases hfree : stp.stFmp with
  | cons m rest =>
    have hget : (qfmpGet : Prog Stq ε _) stp = .ret (some m) { stp with stFmp := rest } := by
      rw [qfmpGet, hfree]
    have hm : stp.maps.obj m = .unused := h.kept.maps.free_unused h0 (by
      change m ∈ stp.stFmp
      rw [hfree]
      exact List.mem_cons_self ..)
    refine post_of_ret (bind_of_ret hget) ⟨h.push_mapping (h.kept.maps.take hfree) hm fun _ _ => rfl, ?_⟩
    rintro _ ⟨⟩
    exact hm
  | nil =>
    have hget : (qfmpGet : Prog Stq ε _) stp = .ret none stp := by rw [qfmpGet, hfree]
    by_cases hk : kernel.tmc mp = true
    · have halloc : (tmcAlloc kernel mp : Prog Stq ε _) stp = .ret (some stp.nmappings) { stp with
          nmappings := stp.nmappings + 1
          mappings := Function.update stp.mappings stp.nmappings .unused } := by
        rw [tmcAlloc, if_pos hk]
      have hother : ∀ j ∈ stp.stStmp id, Function.update stp.mappings stp.nmappings .unused j = stp.mappings j := by
        intro j hj
        have hlt : j < stp.nmappings := h.kept.maps.lt h0 (List.mem_append_left _ hj)
        exact Function.update_of_ne (Nat.ne_of_lt hlt) ..
      refine post_of_ret ((bind_of_ret hget).trans (bind_of_ret halloc))
        ⟨h.push_mapping (h.kept.maps.make .unused) (Function.update_self ..) hother, ?_⟩
      rintro _ ⟨⟩
      exact Function.update_self ..
    · have halloc : (tmcAlloc kernel mp : Prog Stq ε _) stp = .ret none stp := by
        rw [tmcAlloc, if_neg hk]
      exact post_of_ret ((bind_of_ret hget).trans (bind_of_ret halloc)) ⟨h, nofun⟩

theorem post_msgbBind (mp : ℕ) {m : ℕ} (hm : m ∈ ms) (hun : stp.mappings m = .unused) :
    (msgbBind kernel mp m : Prog Stq ε _).Post stp (fun _ stp' => Holding id q0 msg bs ms stp') (Kept id q0 msg) := by
  rw [msgbBind]
  refine post_getMblk_bind fun blk _ => post_bind_of_ret rfl ?_
  split
  · refine post_bind_of_ret rfl (post_pure (h.set_mapping hm fun _ => ?_))
    rw [hun]
    rfl
  · exact post_stuck
  · dsimp only
    split
    · exact post_stuck
    · exact post_bind_of_ret rfl (post_pure (h.set_mapping hm nofun))

theorem post_addFragment (eb : EfxBuffer) :
    (addFragment eb).Post stp (fun _ stp' => Holding id q0 msg bs ms stp') (Kept id q0 msg) := by
  by_cases hn : stp.stEb.length = EFX_TXQ_LIMIT SFXGE_TX_NDESCS
  · exact post_of_err (if_pos hn) h.kept
  · exact post_of_ret (if_neg hn) (h.set_eb _)

theorem post_qmappingAdd (m off limit : ℕ) :
    (qmappingAdd m off limit).Post stp (fun _ stp' => Holding id q0 msg bs ms stp') (Kept id q0 msg) := by
  rw [qmappingAdd]
  refine post_bind_of_ret rfl ?_
  split
  · exact post_stuck
  · refine post_bind_of_ret rfl ?_
    refine post_iterate (fun _ stp' => Holding id q0 msg bs ms stp') (fun v stp' h' => ?_) _ _ _ h
    rw [mappingAddRound]
    split_ifs
    · exact post_pure h'
    · dsimp only
      split
      · exact post_stuck
      · exact post_bind (post_addFragment h' _) fun _ stp2 h2 => post_pure h2

theorem post_qbufferAdd {b : ℕ} (hb : b ∈ bs) (eop : Bool) :
    (qbufferAdd kernel b eop).Post stp (fun _ stp' => Holding id q0 msg bs ms stp') (Kept id q0 msg) := by
  rw [qbufferAdd]
  exact post_bind_of_ret rfl (post_bind (post_addFragment h _) fun _ stp2 h2 => post_of_ret rfl (h2.set_buffer hb _))

theorem post_bcopy (b : ℕ) (copied : Bytes) (copyOff : ℕ) :
    (bcopy kernel copied b copyOff : Prog Stq ε _).Post stp (fun _ stp' => Holding id q0 msg bs ms stp')
      (Kept id q0 msg) := by
  by_cases hroom : copyOff + copied.length ≤ SFXGE_TX_BUFFER_SIZE
  · exact post_of_ret (if_pos hroom) (h.set_phys _)
  · exact post_of_fault (if_neg hroom)

theorem post_msgbCopy {b : ℕ} (hb : b ∈ bs) (mp off limit : ℕ) :
    (msgbCopy kernel mp b off limit : Prog Stq ε _).Post stp (fun _ stp' => Holding id q0 msg bs ms stp')
      (Kept id q0 msg) := by
  rw [msgbCopy]
  refine post_getMblk_bind fun blk _ => post_bind_of_ret rfl (post_bind_of_ret rfl ?_)
  refine post_bind (post_bcopy h b _ _) fun _ stp2 h2 => ?_
  exact post_bind_of_ret rfl (post_pure (h2.set_buffer hb _))

theorem post_tryMap (h0 : q0.maps.Clean .unused) (mp off : ℕ) (stmp : Option ℕ) (hm : ∀ m ∈ stmp, m ∈ ms) :
    (tryMap kernel id mp off stmp).Post stp (fun r stp' => Holding id q0 msg bs (r.1.toList ++ ms) stp')
      (Kept id q0 msg) := by
  rw [tryMap]
  refine post_getMblk_bind fun blk _ => ?_
  split_ifs
  · exact post_pure (h.also_mapping hm)
  · exact post_pure (h.also_mapping hm)
  · refine post_bind (post_takeMapping h h0 mp) fun r stp2 h2 => ?_
    cases r with
    | none => exact post_pure h2.1
    | some m =>
      exact post_bind (post_msgbBind h2.1 mp (List.mem_cons_self ..) (h2.2 m rfl)) fun _ stp3 h3 => post_pure h3

theorem post_flushBuffer {stbp : Option ℕ} (hb : ∀ b ∈ stbp, b ∈ bs) :
    (flushBuffer kernel stbp).Post stp (fun _ stp' => Holding id q0 msg bs ms stp') (Kept id q0 msg) := by
  cases stbp with
  | none => exact post_pure h
  | some b =>
    exact post_bind_of_ret rfl (post_when (fun _ => post_qbufferAdd h (hb b rfl) false) fun _ => h)

theorem post_pickBuffer {stbp : Option ℕ} (hb : ∀ b ∈ stbp, b ∈ bs) (full : TxBuffer → Prop) [DecidablePred full] :
    (pickBuffer kernel id stbp full).Post stp (fun b stp' => Holding id q0 msg (b :: bs) ms stp') (Kept id q0 msg) := by
  have htake := post_takeBuffer h kernel
  cases stbp with
  | none => exact htake
  | some b =>
    by_cases hfull : full (stp.buffers b)
    · have hrun : pickBuffer kernel id (some b) full stp = takeBuffer kernel id stp := if_pos hfull
      exact ⟨fun a s' hr => htake.1 a s' (hrun ▸ hr), fun e s' he => htake.2 e s' (hrun ▸ he)⟩
    · exact post_of_ret (if_neg hfull) (h.mono (List.forall_mem_cons.mpr ⟨hb b rfl, fun _ hc => hc⟩) fun _ hm => hm)

theorem post_copyBlock (v : Locals) (hb : ∀ b ∈ v.stbp, b ∈ bs) :
    (copyBlock kernel id v).Post stp
      (fun v' stp' => v'.stmp = v.stmp ∧ Holding id q0 msg (v'.stbp.toList ++ bs) ms stp')
      (Kept id q0 msg) := by
  rw [copyBlock]
  refine post_bind (post_pickBuffer h hb _) fun b stp1 h1 => ?_
  refine post_bind (post_msgbCopy h1 (List.mem_cons_self ..) _ _ _) fun r stp2 h2 => post_bind_of_ret rfl ?_
  refine post_bind (post_when (fun _ => post_qbufferAdd h2 (List.mem_cons_self ..) r.1) fun _ => h2) fun _ stp3 h3 => ?_
  refine post_getMblk_bind fun blk _ => ?_
  split_ifs
  · exact post_pure ⟨rfl, h3⟩
  · exact post_pure ⟨rfl, h3⟩

theorem post_mapBlock (m : ℕ) (v : Locals) (hb : ∀ b ∈ v.stbp, b ∈ bs) :
    (mapBlock kernel m v).Post stp (fun _ stp' => Holding id q0 msg bs ms stp') (Kept id q0 msg) := by
  rw [mapBlock]
  exact post_bind (post_flushBuffer h hb) fun _ stp1 h1 => post_qmappingAdd h1 m _ _

theorem post_packetMapping (kernel : Kernel) (h0 : q0.maps.Clean .unused) (copy : Bool) (v : Locals)
    (hm : ∀ m ∈ v.stmp, m ∈ ms) :
    (packetMapping kernel id copy v).Post stp (fun r stp' => Holding id q0 msg bs (r.1.toList ++ ms) stp')
      (Kept id q0 msg) := by
  rw [packetMapping]
  split_ifs
  · exact post_pure (h.also_mapping hm)
  · exact post_tryMap h h0 v.mp v.off v.stmp hm

theorem post_payloadMapping (h0 : q0.maps.Clean .unused) (copy : Bool) (v : Locals) (hm : ∀ m ∈ v.stmp, m ∈ ms) :
    (payloadMapping kernel id copy v).Post stp (fun r stp' => Holding id q0 msg bs (r.1.toList ++ ms) stp')
      (Kept id q0 msg) := by
  by_cases hc : copy = false ∧ v.stmp.any fun stmp => (stp.mappings stmp).stmMp = some v.mp
  · exact post_of_ret (if_pos hc) (h.also_mapping hm)
  · have hrun : payloadMapping kernel id copy v stp = packetMapping kernel id copy v stp := if_neg hc
    have hpost := post_packetMapping h kernel h0 copy v hm
    exact ⟨fun a s' hr => hpost.1 a s' (hrun ▸ hr), fun e s' he => hpost.2 e s' (hrun ▸ he)⟩

/-! ### The loops -/

/-- The rest of a round, once it is known whether the block is mapped. -/
theorem post_payloadRound (h0 : q0.maps.Clean .unused) (copy : Bool) (v : Locals) (hb : ∀ b ∈ v.stbp, b ∈ bs)
    (hm : ∀ m ∈ v.stmp, m ∈ ms) :
    (payloadRound kernel id copy v).Post stp (fun r stp' => match r with
      | .inl _ => Holding id q0 msg bs ms stp'
      | .inr v' => Holding id q0 msg (v'.stbp.toList ++ bs) (v'.stmp.toList ++ ms) stp') (Kept id q0 msg) := by
  rw [payloadRound]
  split_ifs
  · exact post_pure h
  refine post_bind (post_payloadMapping h h0 copy v hm) fun r stp1 h1 => ?_
  split
  · next _ m =>
    refine post_bind (post_mapBlock h1 m v hb) fun r2 stp2 h2 => post_getMblk_bind fun blk _ => ?_
    split_ifs
    · exact post_pure (h2.also_buffer hb)
    · exact post_pure (h2.also_buffer hb)
  · next stmp _ _ =>
    refine post_bind (post_copyBlock h1 { v with stmp := stmp } hb) fun v' stp2 h2 => post_pure ?_
    dsimp only
    rw [h2.1]
    exact h2.2

theorem post_packetRound (kernel : Kernel) (h0 : q0.maps.Clean .unused) (copy : Bool) (v : Locals)
    (hb : ∀ b ∈ v.stbp, b ∈ bs) (hm : ∀ m ∈ v.stmp, m ∈ ms) :
    (packetRound kernel id copy v).Post stp (fun r stp' => match r with
      | .inl _ => Holding id q0 msg bs ms stp'
      | .inr v' => Holding id q0 msg (v'.stbp.toList ++ bs) (v'.stmp.toList ++ ms) stp') (Kept id q0 msg) := by
  rw [packetRound]
  refine post_bind_of_ret rfl ?_
  split_ifs
  · exact post_pure h
  refine post_bind (post_packetMapping h kernel h0 copy v hm) fun r stp1 h1 => ?_
  split
  · next _ m => exact post_bind (post_mapBlock h1 m v hb) fun r2 stp2 h2 => post_pure (h2.also_buffer hb)
  · next stmp _ _ =>
    refine post_bind (post_copyBlock h1 { v with stmp := stmp } hb) fun v' stp2 h2 => post_pure ?_
    dsimp only
    rw [h2.1]
    exact h2.2

/-- The heads of the lists are on them. -/
theorem Holding.heads :
    Holding id q0 msg ((stp.stStbp id).head?.toList ++ bs) ((stp.stStmp id).head?.toList ++ ms) stp := by
  refine ⟨h.kept, fun b hmem => ?_, fun m hmem => ?_⟩
  · exact (List.mem_append.mp hmem).elim (fun hs => List.mem_of_mem_head? (Option.mem_toList.mp hs)) (h.buffers b)
  · exact (List.mem_append.mp hmem).elim (fun hs => List.mem_of_mem_head? (Option.mem_toList.mp hs)) (h.mappings m)

omit h in
/-- A round holds what its locals name. -/
theorem post_payloadRound_holding {v : Locals} (h : Holding id q0 msg (v.stbp.toList ++ bs) (v.stmp.toList ++ ms) stp)
    (kernel : Kernel) (h0 : q0.maps.Clean .unused) (copy : Bool) :
    (payloadRound kernel id copy v).Post stp (fun r stp' => match r with
      | .inl _ => Holding id q0 msg bs ms stp'
      | .inr v' => Holding id q0 msg (v'.stbp.toList ++ bs) (v'.stmp.toList ++ ms) stp') (Kept id q0 msg) := by
  refine (post_payloadRound h h0 copy v (fun b hv => List.mem_append_left _ (Option.mem_toList.mpr hv))
    fun m hv => List.mem_append_left _ (Option.mem_toList.mpr hv)).mono (fun r stp2 h2 => ?_) fun _ hk => hk
  cases r with
  | inl c => exact h2.mono (fun b hmem => List.mem_append_right _ hmem) fun m hmem => List.mem_append_right _ hmem
  | inr v' =>
    exact h2.mono (fun b hmem => (List.mem_append.mp hmem).elim (List.mem_append_left _) fun hh =>
      List.mem_append_right _ (List.mem_append_right _ hh)) fun m hmem =>
        (List.mem_append.mp hmem).elim (List.mem_append_left _) fun hh =>
          List.mem_append_right _ (List.mem_append_right _ hh)

theorem post_qpayloadFragment (kernel : Kernel) (h0 : q0.maps.Clean .unused) (mp off size : ℕ) (copy : Bool) :
    (qpayloadFragment kernel id mp off size copy).Post stp (fun _ stp' => Holding id q0 msg bs ms stp')
      (Kept id q0 msg) := by
  rw [qpayloadFragment]
  refine post_bind_of_ret rfl ?_
  refine post_iterate (fun v stp' => Holding id q0 msg (v.stbp.toList ++ bs) (v.stmp.toList ++ ms) stp')
    (fun v stp' h' => ?_) _ _ _ h.heads
  refine (post_payloadRound_holding h' kernel h0 copy).mono (fun r stp2 h2 => ?_) fun _ hk => hk
  cases r with
  | inl c => exact h2
  | inr v' => exact h2

end

/-! ### A packet -/

theorem Holding.refl (hb : q0.stStbp id = []) (hm : q0.stStmp id = []) : Holding id q0 q0.msg [] [] q0 where
  kept := ⟨rfl, hb ▸ Pool.Drawn.refl _, hm ▸ Pool.Drawn.refl _, hm ▸ nofun, fun _ _ => ⟨rfl, rfl⟩, rfl, rfl, rfl⟩
  buffers := nofun
  mappings := nofun

theorem post_qpacketFragment (h0 : q0.maps.Clean .unused) (stpMp : ℕ) (copy : Bool)
    (hb : q0.stStbp (slot q0.stAdded) = []) (hm : q0.stStmp (slot q0.stAdded) = []) :
    (qpacketFragment kernel stpMp copy).Post q0 (fun _ _ => True) (Kept (slot q0.stAdded) q0 q0.msg) := by
  rw [qpacketFragment]
  refine post_bind_of_ret rfl (post_bind (Q := fun _ _ => True) ?_ fun _ stp1 _ => ?_)
  · refine post_iterate (fun v stp' => Holding (slot q0.stAdded) q0 q0.msg v.stbp.toList v.stmp.toList stp')
      (fun v stp' h' => ?_) _ _ _ (Holding.refl hb hm)
    refine (post_packetRound h' kernel h0 copy v (fun b hv => Option.mem_toList.mpr hv)
      fun m hv => Option.mem_toList.mpr hv).mono (fun r stp2 h2 => ?_) fun _ hk => hk
    cases r with
    | inl c => trivial
    | inr v' =>
      exact h2.mono (fun b hmem => List.mem_append_left _ hmem) fun m hmem => List.mem_append_left _ hmem
  · rw [Post]
    refine ⟨fun _ _ _ => trivial, fun e s' he => ?_⟩
    rw [giveMessage] at he
    split_ifs at he

/-! ### A large packet -/

/-- The messages differ at most in these fields of the first block. -/
def HeadChanged (fields : List (ℕ × ℕ)) (msg msg' : List Mblk) : Prop :=
  ∃ blk blk' rest, msg = blk :: rest ∧ msg' = blk' :: rest ∧ blk'.bRptr = blk.bRptr ∧
    SameOutside fields blk.data blk'.data

/-- `Holding` of a message that differs at most in these fields. -/
def HoldingHead (id : Fin SFXGE_TX_NDESCS) (q0 : Stq) (msg : List Mblk) (fields : List (ℕ × ℕ)) (bs : List ℕ)
    (stp : Stq) : Prop := ∃ msg', HeadChanged fields msg msg' ∧ Holding id q0 msg' bs [] stp

variable {fields : List (ℕ × ℕ)} {bs : List ℕ} {f : ℕ × ℕ} {E : Stq → Prop}

theorem setMblk_apply (g : Mblk → Mblk) :
    (setMblk g : Prog Stq ε Unit) stp = .ret () { stp with msg := stp.msg.modifyHead g } := rfl

theorem Holding.set_msg {ms : List ℕ} (h : Holding id q0 msg bs ms stp) (msg' : List Mblk) :
    Holding id q0 msg' bs ms { stp with msg := msg' } :=
  ⟨{ h.kept with msg_eq := rfl }, h.buffers, h.mappings⟩

/-- The headers are copied into a buffer that is held. -/
theorem post_copyHeader_holding (h : Holding id q0 msg bs [] stp) (hp hs : ℕ) {stbp : Option ℕ}
    (hb : ∀ b ∈ stbp, b ∈ bs) :
    (copyHeader kernel id hp hs stbp).Post stp (fun b stp' => Holding id q0 msg (b :: bs) [] stp')
      (Kept id q0 msg) := by
  rw [copyHeader]
  refine post_bind (post_pickBuffer h hb _) fun b stp1 h1 => ?_
  refine post_getMblk_bind fun blk _ => post_bind_of_ret rfl ?_
  refine post_bind (post_bcopy h1 b _ _) fun _ stp2 h2 => post_bind_of_ret rfl ?_
  have h3 := h2.set_buffer (List.mem_cons_self ..)
    { stp1.buffers b with esmUsed := (stp1.buffers b).esmUsed + hs }
  exact post_bind (post_qbufferAdd h3 (List.mem_cons_self ..) false) fun _ stp4 h4 => post_pure h4

/-- A field is read. -/
theorem post_getField_bind {α : Type} {k : ℕ → Prog Stq ε α} {Q : α → Stq → Prop} {blk : Mblk} {rest : List Mblk}
    (hmsg : stp.msg = blk :: rest)
    (h : f.1 + f.2 ≤ blk.data.length → (k (getBe blk.data f.1 f.2)).Post stp Q E) :
    (getField f >>= k).Post stp Q E := by
  have hblk : (getMblk 0 : Prog Stq ε Mblk) stp = .ret blk stp := by rw [getMblk, hmsg]; rfl
  by_cases hr : f.1 + f.2 ≤ blk.data.length
  · have hrun : (getField f : Prog Stq ε ℕ) stp = .ret (getBe blk.data f.1 f.2) stp := by
      rw [getField, hdrGet, bind_of_ret hblk, if_pos hr]
      rfl
    exact post_bind_of_ret hrun (h hr)
  · have hrun : (getField f : Prog Stq ε ℕ) stp = .fault := by
      rw [getField, hdrGet, bind_of_ret hblk, if_neg hr]
      rfl
    exact post_of_fault (bind_of_fault hrun)

/-- A field is written. -/
theorem post_setField {blk : Mblk} {rest : List Mblk} (hmsg : stp.msg = blk :: rest) {w : ℕ} {Q : Unit → Stq → Prop}
    (h : f.1 + f.2 ≤ blk.data.length →
      Q () { stp with msg := { blk with data := setBe blk.data f.1 f.2 w } :: rest }) :
    (setField f w : Prog Stq ε Unit).Post stp Q E := by
  have hblk : (getMblk 0 : Prog Stq ε Mblk) stp = .ret blk stp := by rw [getMblk, hmsg]; rfl
  by_cases hr : f.1 + f.2 ≤ blk.data.length
  · have hrun : (setField f w : Prog Stq ε Unit) stp =
        .ret () { stp with msg := { blk with data := setBe blk.data f.1 f.2 w } :: rest } := by
      rw [setField, hdrSet, bind_of_ret hblk, if_pos hr, setMblk_apply, hmsg]
      rfl
    exact post_of_ret hrun (h hr)
  · have hrun : (setField f w : Prog Stq ε Unit) stp = .fault := by
      rw [setField, hdrSet, bind_of_ret hblk, if_neg hr]
      rfl
    exact post_of_fault hrun

theorem post_hdrGet_bind {α : Type} {p n : ℕ} {k : ℕ → Prog Stq ε α} {Q : α → Stq → Prop}
    (h : ∀ v, (k v).Post stp Q E) : (hdrGet p n >>= k).Post stp Q E := by
  cases hmsg : stp.msg with
  | nil =>
    have hblk : (getMblk 0 : Prog Stq ε Mblk) stp = .fault := by rw [getMblk, hmsg]; rfl
    have hrun : (hdrGet p n : Prog Stq ε ℕ) stp = .fault := bind_of_fault hblk
    exact post_of_fault (bind_of_fault hrun)
  | cons blk rest =>
    exact post_getField_bind (f := (p, n)) hmsg fun _ => h _

theorem post_ipHs_bind {α : Type} {stpp : TxPacket} {k : ℕ → Prog Stq ε α} {Q : α → Stq → Prop}
    (h : ∀ v, (k v).Post stp Q E) : (ipHs stpp >>= k).Post stp Q E := by
  rw [ipHs, bind_assoc]
  exact post_hdrGet_bind fun v => h _

theorem post_tcpHs_bind {α : Type} {stpp : TxPacket} {k : ℕ → Prog Stq ε α} {Q : α → Stq → Prop}
    (h : ∀ v, (k v).Post stp Q E) : (tcpHs stpp >>= k).Post stp Q E := by
  rw [tcpHs, bind_assoc]
  exact post_hdrGet_bind fun v => h _

section

variable (h : HoldingHead id q0 msg fields bs stp)
include h

/-- Writing one of the fields. -/
theorem post_setHead (hf : f ∈ fields) (w : ℕ) :
    (setField f w : Prog Stq ε Unit).Post stp (fun _ stp' => HoldingHead id q0 msg fields bs stp') E := by
  obtain ⟨_, ⟨blk, blk', rest, rfl, rfl, hrptr, hsame⟩, hh⟩ := h
  refine post_setField hh.kept.msg_eq fun hr => ?_
  exact ⟨{ blk' with data := setBe blk'.data f.1 f.2 w } :: rest,
    ⟨blk, _, rest, rfl, rfl, hrptr, hsame.set hf (hsame.1 ▸ hr)⟩, hh.set_msg _⟩

theorem post_adjustHeader {stpp : TxPacket} (hid : stpp.ipId ∈ fields) (hseq : stpp.thSeq ∈ fields)
    (hlen : stpp.ipLen ∈ fields) (hflags : stpp.thFlags ∈ fields) (startFlags ipId thSeq ss : ℕ) (eol : Bool) :
    (adjustHeader stpp startFlags ipId thSeq ss eol).Post stp
      (fun _ stp' => HoldingHead id q0 msg fields bs stp') (HoldingHead id q0 msg fields []) := by
  rw [adjustHeader]
  refine post_bind (post_setHead h hid _) fun _ stp1 h1 => ?_
  refine post_bind (post_setHead h1 hseq _) fun _ stp2 h2 => ?_
  refine post_when (fun _ => ?_) fun _ => h2
  refine post_ipHs_bind fun _ => post_tcpHs_bind fun _ => ?_
  exact post_bind (post_setHead h2 hlen _) fun _ stp3 h3 => post_setHead h3 hflags _

theorem post_copyHeader (hp hs : ℕ) {stbp : Option ℕ}
    (hb : ∀ b ∈ stbp, b ∈ bs) :
    (copyHeader kernel id hp hs stbp).Post stp (fun b stp' => HoldingHead id q0 msg fields (b :: bs) stp')
      (HoldingHead id q0 msg fields []) := by
  obtain ⟨msg', hch, hh⟩ := h
  exact (post_copyHeader_holding hh hp hs hb).mono (fun _ _ h2 => ⟨msg', hch, h2⟩)
    fun _ hk => ⟨msg', hch, hk, nofun, nofun⟩

theorem post_lsoRound (h0 : q0.maps.Clean .unused) {stpp : TxPacket} (hid : stpp.ipId ∈ fields)
    (hseq : stpp.thSeq ∈ fields) (hlen : stpp.ipLen ∈ fields) (hflags : stpp.thFlags ∈ fields)
    (hp startFlags : ℕ) (copy : Bool) (v : LsoLocals) (hb : ∀ b ∈ v.stbp, b ∈ bs) :
    (lsoRound kernel id stpp hp startFlags copy v).Post stp (fun r stp' => match r with
      | .inl _ => True
      | .inr v' => HoldingHead id q0 msg fields v'.stbp.toList stp') (HoldingHead id q0 msg fields []) := by
  rw [lsoRound]
  split_ifs
  · exact post_pure trivial
  refine post_bind (post_adjustHeader h hid hseq hlen hflags _ _ _ _ _) fun _ stp1 h1 => ?_
  refine post_bind (post_copyHeader h1 hp _ hb) fun b stp2 h2 => ?_
  obtain ⟨msg', hch, hh⟩ := h2
  have hpay := (post_qpayloadFragment hh kernel h0 v.mp v.off (min v.lss stpp.stpMss) copy).mono
    (fun _ _ hq => hq) fun stp' hk => (⟨msg', hch, hk, nofun, nofun⟩ : HoldingHead id q0 msg fields [] stp')
  refine post_bind hpay fun r stp3 h3 => post_pure ?_
  exact ⟨msg', hch, h3.mono (fun c hc => List.mem_cons.mpr (Or.inl (List.mem_singleton.mp hc))) fun _ hm => hm⟩

end

/-- Writing back what a field held. -/
theorem post_restoreField {blk : Mblk} {rest : List Mblk} (hmsg : msg = blk :: rest)
    (h : HoldingHead id q0 msg (f :: fields) [] stp) :
    (setField f (getBe blk.data f.1 f.2) : Prog Stq ε Unit).Post stp
      (fun _ stp' => HoldingHead id q0 msg fields [] stp') E := by
  obtain ⟨_, ⟨blk0, blk', rest', hmsg0, rfl, hrptr, hsame⟩, hh⟩ := h
  rw [hmsg] at hmsg0
  cases hmsg0
  refine post_setField hh.kept.msg_eq fun hr => ?_
  exact ⟨{ blk' with data := setBe blk'.data f.1 f.2 (getBe blk.data f.1 f.2) } :: rest,
    ⟨blk, _, rest, hmsg, rfl, hrptr, hsame.restore (hsame.1 ▸ hr)⟩, hh.set_msg _⟩

theorem HoldingHead.of_holding (h : Holding id q0 msg bs [] stp) (hne : msg ≠ []) :
    HoldingHead id q0 msg fields bs stp := by
  obtain ⟨blk, rest, rfl⟩ := List.exists_cons_of_ne_nil hne
  exact ⟨_, ⟨blk, blk, rest, rfl, rfl, rfl, SameOutside.refl _ _⟩, h⟩

theorem HoldingHead.kept (h : HoldingHead id q0 msg [] bs stp) : Kept id q0 msg stp := by
  obtain ⟨_, ⟨blk, blk', rest, rfl, rfl, hrptr, hsame⟩, hh⟩ := h
  have hdata := hsame.eq
  obtain ⟨data, bRptr⟩ := blk
  obtain ⟨data', bRptr'⟩ := blk'
  cases hdata
  cases hrptr
  exact hh.kept

/-- The fields of the header that segmentation changes. -/
def TxPacket.changed (stpp : TxPacket) : List (ℕ × ℕ) := [stpp.thSeq, stpp.thFlags, stpp.ipLen, stpp.ipId]

theorem post_lsoSegments (h0 : q0.maps.Clean .unused) (h : Holding id q0 msg [] [] stp) (stpp : TxPacket)
    (hp mp : ℕ) (copy : Bool) :
    (lsoSegments kernel id stpp hp mp copy).Post stp (fun _ _ => True) (Kept id q0 msg) := by
  cases hmsg : msg with
  | nil =>
    have hblk : (getMblk 0 : Prog Stq Errno Mblk) stp = .fault := by rw [getMblk, h.kept.msg_eq, hmsg]; rfl
    have hrun : (getField stpp.ipLen : Prog Stq Errno ℕ) stp = .fault := bind_of_fault hblk
    exact post_of_fault (bind_of_fault hrun)
  | cons blk rest =>
    have hst : stp.msg = blk :: rest := h.kept.msg_eq.trans hmsg
    rw [← hmsg]
    have hhead : HoldingHead id q0 msg stpp.changed [] stp := .of_holding h (by rw [hmsg]; nofun)
    have hin : stpp.thSeq ∈ stpp.changed ∧ stpp.thFlags ∈ stpp.changed ∧ stpp.ipLen ∈ stpp.changed ∧
        stpp.ipId ∈ stpp.changed := by simp [TxPacket.changed]
    obtain ⟨hseq, hflags, hlen, hid⟩ := hin
    rw [lsoSegments]
    refine post_getField_bind hst fun _ => post_getField_bind hst fun _ => post_getField_bind hst fun _ =>
      post_getField_bind hst fun _ => ?_
    refine post_ipHs_bind fun _ => post_tcpHs_bind fun _ => ?_
    refine post_bind (post_setHead hhead hlen _) fun _ stp1 h1 => ?_
    refine post_bind (post_setHead h1 hflags _) fun _ stp2 h2 => ?_
    refine post_protect (F := HoldingHead id q0 msg stpp.changed []) ?_ fun stp3 h3 => ?_
    · refine post_ensure_bind (fun _ => ?_) fun _ => h2
      refine post_iterate (fun v stp' => HoldingHead id q0 msg stpp.changed v.stbp.toList stp') (fun v stp' h' => ?_)
        _ _ _ h2
      refine (post_lsoRound h' h0 hid hseq hlen hflags _ _ _ v fun b hb => Option.mem_toList.mpr hb).mono
        (fun r stp4 h4 => ?_) fun _ hk => hk
      cases r with
      | inl c => trivial
      | inr v' => exact h4
    · rw [restoreHeader]
      refine post_bind (post_restoreField hmsg h3) fun _ stp4 h4 => ?_
      refine post_bind (post_restoreField hmsg h4) fun _ stp5 h5 => ?_
      refine post_bind (post_restoreField hmsg h5) fun _ stp6 h6 => ?_
      exact (post_restoreField hmsg h6).mono (fun _ _ hk => hk.kept) fun _ hk => hk

theorem post_qlsoFragment (h0 : q0.maps.Clean .unused) (stpp : TxPacket) (copy : Bool)
    (hb : q0.stStbp (slot q0.stAdded) = []) (hm : q0.stStmp (slot q0.stAdded) = []) :
    (qlsoFragment kernel stpp copy).Post q0 (fun _ _ => True) (Kept (slot q0.stAdded) q0 q0.msg) := by
  have hh := Holding.refl hb hm
  rw [qlsoFragment]
  refine post_ensure_bind (fun _ => ?_) fun _ => hh.kept
  refine post_bind_of_ret rfl (post_hdrGet_bind fun _ => post_hdrGet_bind fun _ => ?_)
  refine post_ensure_bind (fun _ => ?_) fun _ => hh.kept
  refine post_getMblk_bind fun blk hblk => post_ensure_bind (fun _ => ?_) fun _ => hh.kept
  obtain ⟨rest, hmsg⟩ : ∃ rest, q0.msg = blk :: rest := by
    cases hm : q0.msg with
    | nil => rw [hm] at hblk; cases hblk
    | cons blk0 rest => rw [hm] at hblk; cases hblk; exact ⟨rest, rfl⟩
  refine post_bind_of_ret (setMblk_apply _) ?_
  have h1 := hh.set_msg (q0.msg.modifyHead fun blk => { blk with bRptr := blk.bRptr + stpp.stpOff })
  refine post_protect (F := Kept (slot q0.stAdded) q0
    (q0.msg.modifyHead fun blk => { blk with bRptr := blk.bRptr + stpp.stpOff })) ?_ fun stp1 hk => ?_
  · refine post_hdrGet_bind fun _ => post_hdrGet_bind fun _ => post_hdrGet_bind fun _ => ?_
    refine post_ensure_bind (fun _ => ?_) fun _ => h1.kept
    refine post_tcpHs_bind fun _ => post_ipHs_bind fun _ => post_hdrGet_bind fun _ => ?_
    refine post_ensure_bind (fun _ => ?_) fun _ => h1.kept
    refine post_bind (post_lsoSegments h0 h1 stpp _ _ copy) fun _ stp2 _ => ?_
    refine ⟨fun _ _ _ => trivial, fun e s' he => ?_⟩
    rw [giveMessage] at he
    split_ifs at he
  · -- b_rptr is moved back
    refine post_of_ret (setMblk_apply _) ?_
    have hback : stp1.msg.modifyHead (fun blk => { blk with bRptr := blk.bRptr - stpp.stpOff }) = q0.msg := by
      rw [hk.msg_eq, hmsg]
      simp
    rw [hback]
    exact { hk with msg_eq := rfl }

end Sfxge.Tx.Frag
