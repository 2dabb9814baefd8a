import Sfxge.Tx.Undo

/-!
# Tx.Abort — aborting a failed fragmentation

`sfxge_tx_qlist_abort` gives back everything that a failed fragmentation has left on the lists of its descriptor.
The queue is then as idle as before, and the message is the one that came in.
-/

namespace Sfxge.Tx.Frag

open Lib Lib.Prog Errno

variable {ε : Type} {kernel : Kernel} {q0 stp : Stq} {id : Fin SFXGE_TX_NDESCS}

/-- No packet is in fragments: both pools are clean, and the slot of the next descriptor is empty. -/
structure Idle (stp : Stq) : Prop where
  bufs : stp.bufs.Clean .unused
  maps : stp.maps.Clean .unused
  stStbp : stp.stStbp (slot stp.stAdded) = []
  stStmp : stp.stStmp (slot stp.stAdded) = []
  stMp : stp.stMp (slot stp.stAdded) = none
  stEb : stp.stEb = []

/-- A queue that has just been started, with a message. -/
def freshQueue (msg : List Mblk) : Stq where
  msg := msg
  phys := fun _ => 0
  stEb := []
  buffers := fun _ => .unused
  mappings := fun _ => .unused
  nbuffers := 0
  nmappings := 0
  stStbp := fun _ => []
  stStmp := fun _ => []
  stMp := fun _ => none
  stFbp := []
  stFmp := []
  stAdded := 0
  freed := []

theorem idle_freshQueue (msg : List Mblk) : Idle (freshQueue msg) :=
  ⟨⟨fun _ _ => rfl, nofun, nofun, List.nodup_nil⟩, ⟨fun _ _ => rfl, nofun, nofun, List.nodup_nil⟩, rfl, rfl, rfl, rfl⟩

/-- Nothing is left of what has happened since `q0`: the message is as it was, the pools hold what they held and
what has been made since, each once, and every slot is as it was. -/
structure Undone (q0 stp : Stq) : Prop where
  msg : stp.msg = q0.msg
  bufs : stp.stFbp.Perm (q0.stFbp ++ Pool.made q0.bufs stp.bufs)
  maps : stp.stFmp.Perm (q0.stFmp ++ Pool.made q0.maps stp.maps)
  stStbp : stp.stStbp = q0.stStbp
  stStmp : stp.stStmp = q0.stStmp
  stMp : stp.stMp = q0.stMp
  freed : stp.freed = q0.freed
  stAdded : stp.stAdded = q0.stAdded

/-! ### Giving back -/

/-- A mapping that holds no block is unused already. -/
theorem freeMapping_apply {m : ℕ} (hm : (stp.mappings m).stmMp = none → stp.mappings m = .unused) :
    (freeMapping m : Prog Stq ε Unit) stp =
      .ret () { stp with mappings := Function.update stp.mappings m .unused, stFmp := m :: stp.stFmp } := by
  have hget : (getMapping m : Prog Stq ε TxMapping) stp = .ret (stp.mappings m) stp := rfl
  rw [freeMapping, bind_of_ret hget]
  by_cases hnone : (stp.mappings m).stmMp = none
  · have hsame : Function.update stp.mappings m .unused = stp.mappings := by
      rw [← hm hnone, Function.update_eq_self]
    rw [when_neg (not_not_intro hnone), hsame]
    rfl
  · rw [when_pos hnone]
    rfl

theorem freeBuffer_apply (b : ℕ) : (freeBuffer b : Prog Stq ε Unit) stp =
    .ret () { stp with buffers := Function.update stp.buffers b .unused, stFbp := b :: stp.stFbp } := rfl

/-- The mappings on a list go back one by one. -/
theorem forEach_freeMapping (h0 : q0.maps.Clean .unused) (held : List ℕ) (stp : Stq)
    (hd : q0.maps.Drawn stp.maps held)
    (hun : ∀ m ∈ held, (stp.mappings m).stmMp = none → stp.mappings m = .unused) :
    ∃ obj free, q0.maps.Drawn ⟨stp.nmappings, obj, free⟩ [] ∧
      (forEach freeMapping held : Prog Stq ε Unit) stp = .ret () { stp with mappings := obj, stFmp := free } := by
  induction held generalizing stp with
  | nil => exact ⟨stp.mappings, stp.stFmp, hd, rfl⟩
  | cons m held ih =>
    obtain ⟨hm, hrest⟩ := List.forall_mem_cons.mp hun
    have hnot : ∀ j ∈ held, j ≠ m := by
      intro j hj hjm
      have hnodup : (m :: (held ++ stp.stFmp)).Nodup := hd.nodup h0
      exact (List.nodup_cons.mp hnodup).1 (List.mem_append_left _ (hjm ▸ hj))
    obtain ⟨obj, free, hd', hrun⟩ := ih
      { stp with mappings := Function.update stp.mappings m .unused, stFmp := m :: stp.stFmp } (hd.put h0)
      fun j hj => by
        simp only [Function.update_of_ne (hnot j hj)]
        exact hrest j hj
    exact ⟨obj, free, hd', (bind_of_ret (freeMapping_apply hm)).trans hrun⟩

/-- So do the buffers. -/
theorem forEach_freeBuffer (h0 : q0.bufs.Clean .unused) (held : List ℕ) (stp : Stq)
    (hd : q0.bufs.Drawn stp.bufs held) :
    ∃ obj free, q0.bufs.Drawn ⟨stp.nbuffers, obj, free⟩ [] ∧
      (forEach freeBuffer held : Prog Stq ε Unit) stp = .ret () { stp with buffers := obj, stFbp := free } := by
  induction held generalizing stp with
  | nil => exact ⟨stp.buffers, stp.stFbp, hd, rfl⟩
  | cons b held ih =>
    obtain ⟨obj, free, hd', hrun⟩ := ih
      { stp with buffers := Function.update stp.buffers b .unused, stFbp := b :: stp.stFbp } (hd.put h0)
    exact ⟨obj, free, hd', (bind_of_ret (freeBuffer_apply b)).trans hrun⟩

/-! ### The whole -/

/-- What fragmentation keeps, the abort gives back. -/
theorem Kept.abort (h0 : Idle q0) (h : Kept (slot q0.stAdded) q0 q0.msg stp) :
    ∃ stp', (qlistAbort : Prog Stq ε Unit) stp = .ret () stp' ∧ Idle stp' ∧ Undone q0 stp' := by
  obtain ⟨mobj, mfree, hm, hmrun⟩ := forEach_freeMapping (ε := ε) h0.maps (stp.stStmp (slot stp.stAdded))
    { stp with stStmp := Function.update stp.stStmp (slot stp.stAdded) [] } (h.stAdded.symm ▸ h.maps)
    (h.stAdded.symm ▸ h.unbound)
  obtain ⟨bobj, bfree, hb, hbrun⟩ := forEach_freeBuffer (ε := ε) h0.bufs (stp.stStbp (slot stp.stAdded))
    { stp with
      stStmp := Function.update stp.stStmp (slot stp.stAdded) []
      mappings := mobj
      stFmp := mfree
      stStbp := Function.update stp.stStbp (slot stp.stAdded) [] } (h.stAdded.symm ▸ h.bufs)
  have hmp : stp.stMp (slot stp.stAdded) = none := by rw [h.stMp, h.stAdded, h0.stMp]
  have hslot : ∀ {α : Type} (f f0 : Fin SFXGE_TX_NDESCS → α) {x : α}, f0 (slot q0.stAdded) = x →
      (∀ j ≠ slot q0.stAdded, f j = f0 j) → Function.update f (slot stp.stAdded) x = f0 := by
    rintro α f f0 _ rfl hrest
    rw [h.stAdded, Function.update_eq_iff]
    exact ⟨rfl, hrest⟩
  have hstbp := hslot stp.stStbp q0.stStbp h0.stStbp fun j hj => (h.slots j hj).1
  have hstmp := hslot stp.stStmp q0.stStmp h0.stStmp fun j hj => (h.slots j hj).2
  have hstmp' := hslot stp.stMp q0.stMp h0.stMp fun j _ => congrFun h.stMp j
  refine ⟨{ stp with
    stEb := []
    buffers := bobj
    mappings := mobj
    stFbp := bfree
    stFmp := mfree
    stStbp := q0.stStbp
    stStmp := q0.stStmp
    stMp := q0.stMp }, ?_, ?_, ?_⟩
  · have hfreed : stp.freed ++ (stp.stMp (slot stp.stAdded)).toList = stp.freed := by
      rw [hmp, Option.toList_none, List.append_nil]
    rw [qlistAbort, bind_of_ret (get_apply _), bind_of_ret (modify_apply _ _), bind_of_ret hmrun,
      bind_of_ret (modify_apply _ _), bind_of_ret hbrun, modify_apply]
    simp only [hstbp, hstmp, hstmp', hfreed]
  · have hadd := h.stAdded
    exact ⟨hb.clean h0.bufs, hm.clean h0.maps, hadd ▸ h0.stStbp, hadd ▸ h0.stStmp, hadd ▸ h0.stMp, rfl⟩
  · exact ⟨h.msg_eq, hb.perm, hm.perm, rfl, rfl, rfl, h.freed, h.stAdded⟩

end Sfxge.Tx.Frag
