import Sfxge.Tx.Ring

/-!
# Tx.Counters — the counters of the ring

`st_reaped`, `st_completed`, `st_pending` and `st_added` are 32-bit counters of descriptors.  `Counts`
gives each the number of descriptors it stands for since the counters' common base, which does not
wrap; what a step of the ring does to these numbers is said once, in `counts_step`.
-/

namespace Sfxge.Tx

open Errno TxqState Txq

/-! ### Descriptor numbers -/

/-- The counter value of descriptor number `j` from the base `b`. -/
def idx (b j : ℕ) : U32 := BitVec.ofNat 32 (b + j)

theorem idx_add (b j n : ℕ) : idx b j + BitVec.ofNat 32 n = idx b (j + n) := by
  rw [idx, idx, ← BitVec.ofNat_add, Nat.add_assoc]

theorem idx_succ (b j : ℕ) : idx b j + 1 = idx b (j + 1) := idx_add b j 1

theorem idx_pred (b j : ℕ) : idx b (j + 1) - 1 = idx b j := by
  rw [← idx_succ, BitVec.add_sub_cancel]

theorem idx_toNat (c : U32) : idx c.toNat 0 = c := by
  rw [idx, Nat.add_zero, BitVec.ofNat_toNat, BitVec.setWidth_eq]

theorem idx_sub {b j k : ℕ} (hjk : j ≤ k) (hk : k < j + 2 ^ 32) : (idx b k - idx b j).toNat = k - j := by
  rw [idx, idx, BitVec.toNat_sub, BitVec.toNat_ofNat, BitVec.toNat_ofNat]
  omega

theorem idx_inj {b j k : ℕ} (hjk : j ≤ k) (hk : k < j + 2 ^ 32) : idx b k = idx b j ↔ k = j := by
  refine ⟨fun h => ?_, fun h => by rw [h]⟩
  have := idx_sub (b := b) hjk hk
  rw [h, BitVec.sub_self] at this
  change 0 = _ at this
  omega

theorem slot_val (b j : ℕ) : (slot (idx b j)).val = (b + j) % 1024 := by
  simp only [slot, idx, SFXGE_TX_NDESCS, BitVec.toNat_ofNat]
  omega

theorem slot_eq_iff {b j k : ℕ} : slot (idx b j) = slot (idx b k) ↔ (b + j) % 1024 = (b + k) % 1024 := by
  rw [Fin.ext_iff, slot_val, slot_val]

/-- Descriptors less than a ring apart have different slots. -/
theorem slot_ne {b j k : ℕ} (hne : j ≠ k) (hjk : j < k + 1024) (hkj : k < j + 1024) :
    slot (idx b j) ≠ slot (idx b k) := by
  rw [Ne, slot_eq_iff]
  omega

/-- Every slot belongs to one of the descriptors of a ring's length. -/
theorem slot_surj (b R : ℕ) (id : Fin SFXGE_TX_NDESCS) :
    ∃ j, R ≤ j ∧ j < R + 1024 ∧ slot (idx b j) = id := by
  have hid : id.val < 1024 := id.isLt
  refine ⟨R + (id.val + 1024 - (b + R) % 1024) % 1024, by omega, by omega, ?_⟩
  rw [Fin.ext_iff, slot_val]
  omega

/-! ### Frames -/

/-- The slots of the `k` descriptors from `c` on. -/
def slotsFrom (c : U32) (k : ℕ) : List (Fin SFXGE_TX_NDESCS) :=
  (List.range k).map fun i => slot (c + BitVec.ofNat 32 i)

theorem mem_slotsFrom {b j k : ℕ} {id : Fin SFXGE_TX_NDESCS} :
    id ∈ slotsFrom (idx b j) k ↔ ∃ i < k, slot (idx b (j + i)) = id := by
  simp [slotsFrom, idx_add]

theorem slotsFrom_succ (c : U32) (k : ℕ) :
    slotsFrom c (k + 1) = slotsFrom c k ++ [slot (c + BitVec.ofNat 32 k)] := by
  rw [slotsFrom, List.range_succ, List.map_append]
  rfl

theorem update_ite_mem {ι β : Type} [DecidableEq ι] (ids : List ι) (id : ι) (v : β) (f : ι → β) :
    Function.update (fun i => if i ∈ ids then v else f i) id v =
      fun i => if i ∈ ids ++ [id] then v else f i := by
  funext i
  by_cases hi : i = id <;> simp [hi]

/-- What `k` rounds of reaping do. -/
theorem iterate_reapOne (k : ℕ) (stp : Txq) : reapOne^[k] stp =
    { stp with
      stReaped := stp.stReaped + BitVec.ofNat 32 k
      stStmp := fun id => if id ∈ slotsFrom stp.stReaped k then [] else stp.stStmp id
      stStbp := fun id => if id ∈ slotsFrom stp.stReaped k then [] else stp.stStbp id } := by
  induction k with
  | zero => simp [slotsFrom]
  | succ k ih =>
    have hcount : stp.stReaped + BitVec.ofNat 32 k + 1 = stp.stReaped + BitVec.ofNat 32 (k + 1) := by
      rw [BitVec.ofNat_add, BitVec.add_assoc]
      rfl
    rw [Function.iterate_succ_apply', ih, reapOne, slotsFrom_succ]
    dsimp only
    rw [hcount, update_ite_mem, update_ite_mem]

/-- The fields that only the posting and the completion of descriptors change. -/
def Txq.frame (stp : Txq) : (U32 × U32 × U32 × U32) × Option ℕ × TxqState × U32 :=
  ((stp.stAdded, stp.stReaped, stp.stPending, stp.stCompleted), stp.stUnblock, stp.stState, stp.wptr)

theorem frame_fragment (f : Fragments) (mp : Mblk) (stp : Txq) :
    (stp.fragment f mp).frame = stp.frame := by
  unfold fragment
  dsimp only
  split
  · rfl
  · split_ifs <;> rfl

theorem frame_reject (mp : Mblk) (stp : Txq) : (stp.reject mp).frame = stp.frame := rfl

theorem frame_qlistAbort (stp : Txq) : stp.qlistAbort.frame = stp.frame := rfl

theorem frame_fragmentPacket (f : Bool → Fragments) (mp : Mblk) (stp : Txq) :
    (stp.fragmentPacket f mp).1.frame = stp.frame := by
  unfold fragmentPacket
  split_ifs
  · exact frame_reject mp stp
  · split
    · exact frame_fragment _ _ _
    · split
      · exact (frame_fragment _ _ _).trans (frame_fragment _ _ _)
      · exact (frame_fragment _ _ _).trans (frame_fragment _ _ _)
    · exact frame_fragment _ _ _

theorem frame_moveInfo (id last : Fin SFXGE_TX_NDESCS) (stp : Txq) :
    (stp.moveInfo id last).frame = stp.frame := by
  unfold moveInfo
  split_ifs <;> rfl

theorem frame_completeOne (c : U32) (stp : Txq) : (stp.completeOne c).frame = stp.frame := by
  unfold completeOne
  dsimp only
  split_ifs <;> rfl

theorem stN_completeOne (c : U32) (stp : Txq) : (stp.completeOne c).stN = stp.stN := by
  unfold completeOne
  dsimp only
  split_ifs <;> rfl

theorem stN_fragment (f : Fragments) (mp : Mblk) (stp : Txq) : (stp.fragment f mp).stN = f.n := by
  unfold fragment
  dsimp only
  split
  · rfl
  · split_ifs <;> rfl

theorem stN_fragmentPacket (f : Bool → Fragments) (mp : Mblk) (stp : Txq) :
    (stp.fragmentPacket f mp).1.stN ≤ EFX_TXQ_LIMIT SFXGE_TX_NDESCS := by
  have hfrag : ∀ (c : Bool) stp, (fragment (f c) mp stp).stN ≤ EFX_TXQ_LIMIT SFXGE_TX_NDESCS := by
    intro c stp
    rw [stN_fragment]
    exact (f c).n_le
  unfold fragmentPacket
  split_ifs
  · exact Nat.zero_le _
  · split
    · exact hfrag _ _
    · split
      · exact hfrag _ _
      · exact Nat.zero_le _
    · exact Nat.zero_le _

/-! ### The counters in order -/

/-- The counters of `s` stand for the descriptor numbers `A` (added), `R` (reaped), `C` (completed) and
`P` (pending); `D` is how far the `sfxge_tx_qcomplete` in progress is. -/
structure Counts (s : RingState) (b A R C D P : ℕ) : Prop where
  added : s.stp.stAdded = idx b A
  reaped : s.stp.stReaped = idx b R
  completed : s.stp.stCompleted = idx b C
  pending : s.stp.stPending = idx b P
  done : ∀ c ∈ s.completing, c = idx b D
  idle : s.completing = none → D = C
  order : R ≤ C ∧ C ≤ D ∧ D ≤ P ∧ P ≤ A ∧ A ≤ R + 1008
  n_le : s.stp.stN ≤ 1008

variable {s s' : RingState} {b A R C D P : ℕ}

/-- The counters are where they were. -/
theorem Counts.of_frame (h : Counts s b A R C D P) {stp : Txq} (hf : stp.frame = s.stp.frame)
    (hn : stp.stN ≤ 1008) (posting : Option PostPc) :
    Counts { s with stp := stp, posting := posting } b A R C D P := by
  simp only [Txq.frame, Prod.mk.injEq] at hf
  obtain ⟨⟨ha, hr, hp, hc⟩, -⟩ := hf
  exact ⟨ha.trans h.added, hr.trans h.reaped, hc.trans h.completed, hp.trans h.pending, h.done, h.idle,
    h.order, hn⟩

theorem Counts.available_reaped (h : Counts s b A R C D P) :
    (s.stp.available s.stp.stReaped).toNat = 1008 - (A - R) := by
  obtain ⟨h1, h2, h3, h4, h5⟩ := h.order
  have hsub := idx_sub (b := b) (j := R) (k := A) (by omega) (by omega)
  rw [available, h.added, h.reaped, BitVec.toNat_sub, hsub]
  simp only [EFX_TXQ_LIMIT, SFXGE_TX_NDESCS, BitVec.toNat_ofNat]
  omega

theorem Counts.available_completed (h : Counts s b A R C D P) :
    (s.stp.available s.stp.stCompleted).toNat = 1008 - (A - C) := by
  obtain ⟨h1, h2, h3, h4, h5⟩ := h.order
  have hsub := idx_sub (b := b) (j := C) (k := A) (by omega) (by omega)
  rw [available, h.added, h.completed, BitVec.toNat_sub, hsub]
  simp only [EFX_TXQ_LIMIT, SFXGE_TX_NDESCS, BitVec.toNat_ofNat]
  omega

theorem Counts.toReap (h : Counts s b A R C D P) :
    (s.stp.stCompleted - s.stp.stReaped).toNat = C - R := by
  obtain ⟨h1, h2, h3, h4, h5⟩ := h.order
  rw [h.completed, h.reaped, idx_sub h1 (by omega)]

/-- The list is posted when it fits behind what has not been reaped. -/
theorem Counts.post_again (h : Counts s b A R C D P) : s.stp.postStep .again =
    if A - R + s.stp.stN ≤ 1008 then
      ({ s.stp.moveInfo (slot (idx b A)) (slot (idx b (A + s.stp.stN) - 1)) with
        stAdded := idx b (A + s.stp.stN), stN := 0 }, none)
    else (s.stp, some .space) := by
  obtain ⟨h1, h2, h3, h4, h5⟩ := h.order
  have hn := h.n_le
  have hsub := idx_sub (b := b) (j := R) (k := A) (by omega) (by omega)
  rw [postStep, h.available_reaped]
  by_cases hfit : A - R + s.stp.stN ≤ 1008
  · have hpost : efxTxQpost s.stp.stN s.stp.stReaped s.stp.stAdded = some (idx b (A + s.stp.stN)) := by
      rw [efxTxQpost, if_neg, h.added, idx_add]
      rw [h.added, h.reaped, BitVec.toNat_add, hsub]
      simp only [EFX_TXQ_LIMIT, SFXGE_TX_NDESCS, BitVec.toNat_ofNat]
      omega
    rw [if_neg (by omega), if_pos hfit, hpost, h.added]
  · rw [if_pos (by omega), if_neg hfit]

/-- `qreap` in the order of the counters. -/
theorem Counts.qreap_eq (h : Counts s b A R C D P) : s.stp.qreap =
    { s.stp with
      stReaped := idx b C
      stStmp := fun id => if id ∈ slotsFrom (idx b R) (C - R) then [] else s.stp.stStmp id
      stStbp := fun id => if id ∈ slotsFrom (idx b R) (C - R) then [] else s.stp.stStbp id } := by
  obtain ⟨h1, h2, h3, h4, h5⟩ := h.order
  rw [qreap, h.toReap, iterate_reapOne, h.reaped, idx_add, show R + (C - R) = C by omega]

theorem Counts.qreap (h : Counts s b A R C D P) (unblock : Option ℕ) (posting : Option PostPc) :
    Counts { s with stp := { s.stp.qreap with stUnblock := unblock }, posting := posting } b A C C D P := by
  obtain ⟨h1, h2, h3, h4, h5⟩ := h.order
  rw [h.qreap_eq]
  exact ⟨h.added, rfl, h.completed, h.pending, h.done, h.idle, ⟨le_rfl, h2, h3, h4, by omega⟩, h.n_le⟩

/-- An event for a posted descriptor moves `st_pending` to the one after it. -/
theorem Counts.evTx (h : Counts s b A R C D P) {id : U32}
    (hid : s.stp.evTxDelta id ≤ (s.stp.stAdded - s.stp.stPending).toNat) :
    ∃ P', P ≤ P' ∧ P' ≤ A ∧ s.stp.evTx id = { s.stp with stPending := idx b P' } := by
  obtain ⟨h1, h2, h3, h4, h5⟩ := h.order
  rw [h.added, h.pending, idx_sub h4 (by omega)] at hid
  by_cases hst : s.stp.stState = SFXGE_TXQ_STARTED
  · refine ⟨P + s.stp.evTxDelta id, by omega, by omega, ?_⟩
    rw [Txq.evTx, if_neg (by simp [hst]), h.pending, idx_add]
  · refine ⟨P, le_rfl, h4, ?_⟩
    rw [Txq.evTx, if_pos hst, ← h.pending]

/-- The event for the posted descriptor number `j` moves `st_pending` past it: these are the events that
`ringStep` lets arrive. -/
theorem Counts.evTxDelta_posted (h : Counts s b A R C D P) {j : ℕ} (hP : P ≤ j) (hA : j < A) :
    s.stp.evTxDelta (BitVec.ofNat 32 (slot (idx b j)).val) = j + 1 - P := by
  obtain ⟨h1, h2, h3, h4, h5⟩ := h.order
  have hstop : (slot (BitVec.ofNat 32 (slot (idx b j)).val + 1)).val = (b + j + 1) % 1024 := by
    have hone : BitVec.ofNat 32 (slot (idx b j)).val + 1 = idx (slot (idx b j)).val 1 :=
      (BitVec.ofNat_add ..).symm
    rw [hone, slot_val, slot_val]
    omega
  rw [evTxDelta, hstop, h.pending, slot_val, SFXGE_TX_NDESCS]
  split_ifs <;> omega

/-- The loop of `sfxge_tx_qcomplete` leaves the counters to its end. -/
theorem iterate_completeOne (k : ℕ) (c : U32) (stp : Txq) :
    ((fun p : U32 × Txq => (p.1 + 1, p.2.completeOne p.1))^[k] (c, stp)).1 = c + BitVec.ofNat 32 k ∧
      ((fun p : U32 × Txq => (p.1 + 1, p.2.completeOne p.1))^[k] (c, stp)).2.frame = stp.frame ∧
      ((fun p : U32 × Txq => (p.1 + 1, p.2.completeOne p.1))^[k] (c, stp)).2.stN = stp.stN := by
  induction k with
  | zero => simp
  | succ k ih =>
    obtain ⟨h1, h2, h3⟩ := ih
    rw [Function.iterate_succ_apply']
    refine ⟨?_, (frame_completeOne _ _).trans h2, (stN_completeOne _ _).trans h3⟩
    rw [h1, BitVec.ofNat_add, BitVec.add_assoc]
    rfl

theorem stN_qstop (stp : Txq) : stp.qstop.stN = 0 := by
  rw [qstop, Txq.qreap, iterate_reapOne]
  exact (iterate_completeOne _ _ _).2.2

theorem counts_init : Counts .init 0 0 0 0 0 0 :=
  ⟨rfl, rfl, rfl, rfl, nofun, fun _ => rfl, by omega, Nat.zero_le _⟩

theorem counts_stop {s : RingState} (hc : s.completing = none) :
    Counts { s with stp := s.stp.qstop } 0 0 0 0 0 0 :=
  ⟨rfl, rfl, rfl, rfl, by simp [hc], fun _ => rfl, by omega, by rw [stN_qstop]; omega⟩

theorem counts_start (h : Counts s b A R C D P) (hc : s.completing = none) (d : U32) :
    Counts { s with stp := s.stp.qstart d } d.toNat 0 0 0 0 0 :=
  ⟨(idx_toNat d).symm, (idx_toNat d).symm, (idx_toNat d).symm, (idx_toNat d).symm, by simp [hc],
    fun _ => rfl, by omega, h.n_le⟩

/-- The list is posted. -/
theorem Counts.posted (h : Counts s b A R C D P) (hfit : A - R + s.stp.stN ≤ 1008) :
    (s.stp.postStep .again).2 = none ∧
      Counts { s with stp := (s.stp.postStep .again).1, posting := none } b (A + s.stp.stN) R C D P := by
  obtain ⟨h1, h2, h3, h4, h5⟩ := h.order
  have hf := frame_moveInfo (slot (idx b A)) (slot (idx b (A + s.stp.stN) - 1)) s.stp
  simp only [Txq.frame, Prod.mk.injEq] at hf
  obtain ⟨⟨-, hr, hp, hc⟩, -⟩ := hf
  rw [h.post_again, if_pos hfit]
  exact ⟨rfl, rfl, hr.trans h.reaped, hc.trans h.completed, hp.trans h.pending, h.done, h.idle, by omega,
    Nat.zero_le _⟩

/-- A step of `sfxge_tx_qlist_post`. -/
theorem Counts.post (h : Counts s b A R C D P) (pc : PostPc) :
    ∃ A' R', Counts { s with stp := (s.stp.postStep pc).1, posting := (s.stp.postStep pc).2 }
      b A' R' C D P := by
  obtain ⟨h1, h2, h3, h4, h5⟩ := h.order
  cases pc with
  | again =>
    by_cases hfit : A - R + s.stp.stN ≤ 1008
    · obtain ⟨hnone, hc⟩ := h.posted hfit
      rw [hnone]
      exact ⟨_, _, hc⟩
    · rw [h.post_again, if_neg hfit]
      exact ⟨A, R, h.of_frame rfl h.n_le _⟩
  | reap => exact ⟨A, C, h.qreap _ _⟩
  | unrace => exact ⟨A, C, h.qreap _ _⟩
  | block => exact ⟨A, R, ⟨h.added, h.reaped, h.completed, h.pending, h.done, h.idle, h.order, h.n_le⟩⟩
  | space => exact ⟨A, R, h.of_frame rfl h.n_le _⟩
  | batch => exact ⟨A, R, h.of_frame rfl h.n_le _⟩
  | race => exact ⟨A, R, h.of_frame rfl h.n_le _⟩

/-- A step of `sfxge_tx_qcomplete`: it starts, completes a descriptor or ends. -/
theorem Counts.complete (h : Counts s b A R C D P) (hs : ringStep .complete s = some s') :
    (s.completing = none ∧ s' = { s with completing := some (idx b D) } ∧ Counts s' b A R C D P) ∨
    (s.completing = some (idx b D) ∧ D = P ∧
      s' = { s with stp := { s.stp with stCompleted := idx b D }, completing := none } ∧
      Counts s' b A R D D P) ∨
    (s.completing = some (idx b D) ∧ D < P ∧
      s' = { s with stp := s.stp.completeOne (idx b D), completing := some (idx b (D + 1)) } ∧
      Counts s' b A R C (D + 1) P) := by
  obtain ⟨h1, h2, h3, h4, h5⟩ := h.order
  rw [ringStep] at hs
  cases hc : s.completing with
  | none =>
    rw [hc] at hs
    cases hs
    have hD := h.idle hc
    refine Or.inl ⟨rfl, by rw [hD, h.completed], ?_⟩
    refine ⟨h.added, h.reaped, h.completed, h.pending, ?_, nofun, h.order, h.n_le⟩
    intro c hcc
    cases hcc
    rw [hD, h.completed]
  | some c =>
    have hcD := h.done c hc
    subst hcD
    rw [hc] at hs
    dsimp only at hs
    by_cases hDP : D = P
    · rw [if_pos (by rw [hDP, h.pending])] at hs
      cases hs
      exact Or.inr (Or.inl ⟨rfl, hDP, rfl, h.added, h.reaped, rfl, h.pending, nofun, fun _ => rfl,
        by omega, h.n_le⟩)
    · have hne : idx b D ≠ s.stp.stPending := by
        rw [h.pending]
        exact fun he => hDP ((idx_inj h3 (by omega)).mp he.symm).symm
      rw [if_neg hne] at hs
      cases hs
      refine Or.inr (Or.inr ⟨rfl, by omega, by rw [idx_succ], ?_⟩)
      have hf := frame_completeOne (idx b D) s.stp
      simp only [Txq.frame, Prod.mk.injEq] at hf
      obtain ⟨⟨ha, hr, hp, hcc⟩, -⟩ := hf
      refine ⟨ha.trans h.added, hr.trans h.reaped, hcc.trans h.completed, hp.trans h.pending, ?_, nofun,
        by omega, by rw [stN_completeOne]; exact h.n_le⟩
      intro c hc'
      cases hc'
      exact idx_succ b D

/-- **Step.**  The counters stay in order. -/
theorem counts_step {op : RingOp} (h : Counts s b A R C D P) (hs : ringStep op s = some s') :
    ∃ b' A' R' C' D' P', Counts s' b' A' R' C' D' P' := by
  cases op with
  | packet mp f =>
    rw [ringStep, Option.ite_none_right_eq_some] at hs
    obtain ⟨-, ⟨⟩⟩ := hs
    exact ⟨b, A, R, C, D, P, h.of_frame (frame_fragmentPacket f mp s.stp) (stN_fragmentPacket f mp s.stp) _⟩
  | post =>
    obtain ⟨pc, -, rfl⟩ := Option.map_eq_some_iff.mp hs
    obtain ⟨A', R', h'⟩ := h.post pc
    exact ⟨b, A', R', C, D, P, h'⟩
  | unblock =>
    rw [ringStep, Option.ite_none_right_eq_some] at hs
    obtain ⟨-, ⟨⟩⟩ := hs
    exact ⟨b, A, R, C, D, P, h.added, h.reaped, h.completed, h.pending, h.done, h.idle, h.order, h.n_le⟩
  | discard mp =>
    cases hs
    exact ⟨b, A, R, C, D, P, h.added, h.reaped, h.completed, h.pending, h.done, h.idle, h.order, h.n_le⟩
  | push =>
    cases hs
    exact ⟨b, A, R, C, D, P, h.added, h.reaped, h.completed, h.pending, h.done, h.idle, h.order, h.n_le⟩
  | evTx id =>
    rw [ringStep, Option.ite_none_right_eq_some] at hs
    obtain ⟨⟨hc, hid⟩, ⟨⟩⟩ := hs
    obtain ⟨P', hP, hA, heq⟩ := h.evTx hid
    obtain ⟨h1, h2, h3, h4, h5⟩ := h.order
    rw [heq]
    exact ⟨b, A, R, C, D, P', h.added, h.reaped, h.completed, rfl, h.done, h.idle, by omega, h.n_le⟩
  | complete =>
    obtain ⟨-, -, h'⟩ | ⟨-, -, -, h'⟩ | ⟨-, -, -, h'⟩ := h.complete hs
    · exact ⟨_, _, _, _, _, _, h'⟩
    · exact ⟨_, _, _, _, _, _, h'⟩
    · exact ⟨_, _, _, _, _, _, h'⟩
  | flush st =>
    rw [ringStep, Option.ite_none_right_eq_some] at hs
    obtain ⟨-, ⟨⟩⟩ := hs
    exact ⟨b, A, R, C, D, P, h.added, h.reaped, h.completed, h.pending, h.done, h.idle, h.order, h.n_le⟩
  | stop =>
    rw [ringStep, Option.ite_none_right_eq_some] at hs
    obtain ⟨⟨-, hc, -⟩, ⟨⟩⟩ := hs
    exact ⟨_, _, _, _, _, _, counts_stop hc⟩
  | start d =>
    rw [ringStep, Option.ite_none_right_eq_some] at hs
    obtain ⟨⟨-, hc, -⟩, ⟨⟩⟩ := hs
    exact ⟨_, _, _, _, _, _, counts_start h hc d⟩

end Sfxge.Tx
