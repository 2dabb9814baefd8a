import Sfxge.Rx.Runs

/-!
# Rx.Events — receive events and the outstanding descriptors

The distance of an event from the pending counter is checked against the batches that the hardware makes,
not against the descriptors that are outstanding, and the pending counter is moved before the check.  So the
counters stay in order, and no slot is used without a packet, exactly as long as all events fit.
-/

namespace Sfxge.Rx

open Lib RxqState

namespace Rxq

variable {cfg : Config} {io : Io} {A : Prop} {b C P : ℕ} {srp srp' : Rxq}

/-- `sr_completed <= sr_pending <= sr_added`, modulo `2 ^ 32` -/
def Ordered (srp : Rxq) : Prop :=
  (srp.srPending - srp.srCompleted).toNat ≤ (srp.srAdded - srp.srCompleted).toNat

instance (srp : Rxq) : Decidable srp.Ordered := inferInstanceAs (Decidable (_ ≤ _))

/-- The operation is an event that is rejected as out of order. -/
def Rejected (cfg : Config) : Op → Rxq → Prop
  | .evRx _ id _ _, srp => srp.seException = false ∧ srp.srState = SFXGE_RXQ_STARTED ∧
      outOfOrder cfg (srp.delta cfg id)
  | _, _ => False

/-- A rejected event leaves the pending counter, the packets and the slots alone. -/
def Unmoved (cfg : Config) (o : Op) (srp srp' : Rxq) : Prop :=
  Rejected cfg o srp → srp'.srPending = srp.srPending ∧ srp'.packet = srp.packet ∧ srp'.srSrpp = srp.srSrpp

theorem Inv.ordered (h : srp.Inv cfg b C P) : srp.Ordered ↔ P ≤ srp.posted.length := by
  have hn := h.ncomplete
  have hc := h.ring.c_le_length
  unfold Ordered
  rw [h.rxfill]
  omega

/-- The outstanding descriptors. -/
theorem Inv.outstanding (h : srp.Inv cfg b C P) (hP : P ≤ srp.posted.length) :
    (srp.srAdded - srp.srPending).toNat = srp.posted.length - P := by
  have hadded : srp.srAdded = idx 32 b srp.posted.length := by
    rw [← h.ring.added]
    exact (BitVec.add_zero _).symm
  have hlimit := h.ring.limit
  have hc := h.ring.c_le
  have hsize := cfg.size_le
  rw [hadded, h.ring.pending]
  exact idx_sub hP (by omega)

/-- An operation that fits does not use a slot without a packet. -/
theorem Sound.step_some (h : srp.Sound cfg True b C P) {o : Op} (hfits : Fits cfg o srp) :
    ∃ srp', Rxq.step cfg o srp = some srp' := by
  have hP := h.ahead (Or.inl trivial)
  cases o with
  | preallocate io nprealloc =>
    unfold Rxq.step
    dsimp only
    split_ifs <;> exact ⟨_, rfl⟩
  | qinit => exact ⟨_, rfl⟩
  | qstart io port => exact ⟨_, rfl⟩
  | evRx io id size flags =>
    by_cases hign : srp.seException = true ∨ srp.srState ≠ SFXGE_RXQ_STARTED
    · exact ⟨srp, if_pos hign⟩
    obtain ⟨hex, hst⟩ := not_or.mp hign
    refine h.inv.evRx_some hP (Bool.eq_false_iff.mpr hex) (not_not.mp hst) (fun hout => ?_) io size flags
    rcases hfits with hf | hf | hf | ⟨-, hf⟩
    · exact absurd hf hex
    · exact absurd hf hst
    · rw [hf]
      exact hP
    · have hle := BitVec.le_def.mp hf
      rw [h.inv.outstanding hP] at hle
      omega
  | evPolled io =>
    have h0 : ({ srp with seRx := 0 } : Rxq).Inv cfg b C P := ⟨h.inv.ring.congr rfl rfl rfl rfl,
      ⟨h.inv.pool.count, h.inv.pool.putCount, h.inv.pool.owned, h.inv.pool.loaned⟩, h.inv.completed⟩
    exact h0.evQcomplete_some hP io
  | trim io => exact h.inv.qfppTrim_some io
  | stackFree cpu recycled p => exact ⟨_, rfl⟩
  | qstop => exact ⟨_, rfl⟩
  | qdrain io =>
    change ∃ srp', srp.qdrain cfg io = some srp'
    unfold Rxq.qdrain
    split_ifs
    · obtain ⟨srp1, h1⟩ := h.inv.drained.qcomplete_some (Nat.le_refl _) io
      exact ⟨_, Option.map_eq_some_iff.mpr ⟨srp1, h1, rfl⟩⟩
    · exact ⟨srp, rfl⟩
  | qfini io => exact ⟨_, rfl⟩

/-- **Events and outstanding descriptors.**  Throughout a run the counters are in order, no slot is used
without a packet and rejected events change no packet and no counter, if and only if all events fit. -/
theorem events_outstanding (cfg : Config) (os : List Op) :
    GoesAlong (step cfg) Ordered (Unmoved cfg) os construct ↔
      GuardsAlong (step cfg) (Fits cfg) os construct := by
  refine goesAlong_iff (I := fun srp => ∃ b C P, srp.Sound cfg True b C P) ?_ ?_ ?_ os
    ⟨0, 0, 0, sound_construct cfg True⟩
  · rintro srp ⟨b, C, P, h⟩
    exact h.inv.ordered.mpr (h.ahead (Or.inl trivial))
  · rintro o srp ⟨b, C, P, h⟩ hfits
    obtain ⟨srp', hr⟩ := h.step_some hfits
    refine ⟨srp', hr, fun hrej => ?_, h.step (fun _ => hfits) hr⟩
    cases o with
    | evRx io id size flags =>
      obtain ⟨hex, hst, hout⟩ := hrej
      have hzero := hfits.delta_zero hex hst hout
      rcases h.inv.evRx (h.ahead (Or.inl trivial)) hex hst hr with ⟨-, rfl⟩ | ⟨hin, -⟩
      · rw [hzero]
        exact ⟨BitVec.add_zero _, rfl, rfl⟩
      · exact absurd hout hin
    | _ => exact hrej.elim
  · rintro o srp srp' ⟨b, C, P, h⟩ hr hkeeps -
    cases o with
    | evRx io id size flags =>
      by_cases hign : srp.seException = true ∨ srp.srState ≠ SFXGE_RXQ_STARTED
      · exact hign.imp_right Or.inl
      obtain ⟨hex, hst⟩ := not_or.mp hign
      have hex : srp.seException = false := Bool.eq_false_iff.mpr hex
      have hst : srp.srState = SFXGE_RXQ_STARTED := not_not.mp hst
      have hP := h.ahead (Or.inl trivial)
      refine Or.inr (Or.inr ?_)
      rcases h.inv.evRx hP hex hst hr with ⟨hout, rfl⟩ | ⟨hin, hd, -⟩
      · have hadd : srp.srPending + srp.delta cfg id = srp.srPending := (hkeeps ⟨hex, hst, hout⟩).1
        exact Or.inl (by simpa using hadd)
      · refine Or.inr ⟨hin, BitVec.le_def.mpr ?_⟩
        rw [h.inv.outstanding hP]
        omega
    | _ => exact trivial

/-- With 16 descriptors posted, an event 21 descriptors on is rejected but moves the pending counter beyond
them, and the end of the poll uses a slot without a packet; so does an event that is accepted after all have
been completed. -/
theorem events_misfit :
    ¬ GoesAlong (step .least) Ordered (Unmoved .least) [.qinit, .qstart (.plain true) ⟨0, 0, 1500⟩,
      .evRx (.plain true) 20 64 EFX_PKT_IPV4] construct ∧
    (runOps (step .least) [.qinit, .qstart (.plain true) ⟨0, 0, 1500⟩,
      .evRx (.plain true) 20 64 EFX_PKT_IPV4, .evPolled (.plain true)] construct).isNone ∧
    (runOps (step .least) [.qinit, .qstart (.plain true) ⟨0, 0, 1500⟩,
      .evRx (.plain true) 15 64 EFX_PKT_IPV4, .evRx (.plain true) 19 64 EFX_PKT_IPV4] construct).isNone := by
  refine ⟨fun h => ?_, by decide +kernel, by decide⟩
  obtain ⟨srp, hr, hordered⟩ := h.last
  have hnot : ((runOps (step .least) [.qinit, .qstart (.plain true) ⟨0, 0, 1500⟩,
      .evRx (.plain true) 20 64 EFX_PKT_IPV4] construct).all fun srp => decide (¬ srp.Ordered)) = true := by
    decide
  rw [hr] at hnot
  exact absurd hordered (of_decide_eq_true hnot)

end Rxq

end Sfxge.Rx
