import Sfxge.Tx.Accounting
import Sfxge.Tx.Order

/-!
# Tx.Holdings — where the messages of a queue are

A message that a queue has accepted is on its lists, in a slot of its ring, or has been freed.  `Holds` joins
the invariant of the lists with that of the ring: the packets taken off the lists are the messages that the
ring has been given.
-/

namespace Sfxge.Tx

open Errno TxqState Txq Lib

/-! ### The messages in the ring -/

/-- The messages in the completion information of the descriptors. -/
def Txq.inSlots (stp : Txq) : List Mblk := (List.finRange SFXGE_TX_NDESCS).filterMap stp.stMp

/-- The messages that are held for the hardware. -/
def Ledger.kept (l : Ledger) : List Mblk :=
  (l.sent.filter fun h => h.Held l.nDone).map Sent.mp ++ l.waiting.elim [] fun w => if w.2 then [w.1] else []

theorem Ledger.kept_due (l : Ledger) : (l.kept ++ l.due).Perm l.mblks := by
  have hsent : ((l.sent.filter fun h => h.Held l.nDone).map Sent.mp ++ freedBy l.nDone l.sent).Perm
      (l.sent.map Sent.mp) := by
    rw [freedBy, ← List.map_append]
    refine List.Perm.map _ ?_
    have h := List.filter_append_perm (fun h : Sent => decide (h.Held l.nDone)) l.sent
    simpa only [decide_not] using h
  have hwait : ((l.waiting.elim [] fun w => if w.2 then [w.1] else []) ++
      l.waiting.elim [] fun w => if w.2 then [] else [w.1]) = (l.waiting.map Prod.fst).toList := by
    cases l.waiting with
    | none => rfl
    | some w =>
      simp only [Option.elim_some, Option.map_some, Option.toList_some]
      split_ifs <;> rfl
  rw [Ledger.kept, Ledger.due, Ledger.mblks, ← hwait]
  refine List.Perm.trans ?_ (hsent.append_right _)
  rw [List.perm_iff_count]
  intro mp
  simp only [List.count_append]
  omega

variable {l l' : Ledger} {b R C P : ℕ}

/-- What a slot holds: the message of a packet whose last descriptor it is, or the one in the fragment list. -/
theorem Booked.stMp_iff (B : Booked l b R C P) {id : Fin SFXGE_TX_NDESCS} {mp : Mblk} :
    l.s.stp.stMp id = some mp ↔
      (∃ h ∈ l.sent, h.Held l.nDone ∧ h.mp = mp ∧ slot (idx b (h.stop - 1)) = id) ∨
        (l.waiting = some (mp, true) ∧ slot (idx b l.nAdded) = id) := by
  obtain ⟨o1, o2, o3, o4, o5⟩ := B.counts.order
  constructor
  · intro hid
    obtain ⟨j, h1, h2, rfl⟩ := slot_surj b R id
    rcases Nat.lt_trichotomy j l.nAdded with hj | rfl | hj
    · left
      have hD : l.nDone ≤ j := by
        by_contra hlt
        rw [B.slots.past j h1 (by omega)] at hid
        cases hid
      by_cases hex : ∃ h ∈ l.sent, h.mapped = true ∧ h.stop = j + 1
      · obtain ⟨h, hmem, hmap, hstop⟩ := hex
        have hheld : h.Held l.nDone := ⟨hmap, by omega⟩
        have hlive := (B.slots.live h hmem hheld).1
        rw [hstop, Nat.add_sub_cancel, hid] at hlive
        exact ⟨h, hmem, hheld, (Option.some.inj hlive).symm, by rw [hstop, Nat.add_sub_cancel]⟩
      · rw [(B.slots.plain j hD hj fun h hmem hmap hstop => hex ⟨h, hmem, hmap, hstop⟩).2] at hid
        cases hid
    · right
      cases hw : l.waiting with
      | none =>
        rw [(B.clear hw).2.2.2] at hid
        cases hid
      | some w =>
        obtain ⟨mp', mapped⟩ := w
        rw [(B.held mp' mapped hw).2.1] at hid
        cases mapped with
        | false => cases hid
        | true =>
          cases hid
          exact ⟨rfl, rfl⟩
    · rw [(B.slots.free j hj h2).2.2] at hid
      cases hid
  · rintro (⟨h, hmem, hheld, rfl, rfl⟩ | ⟨hw, rfl⟩)
    · exact (B.slots.live h hmem hheld).1
    · exact (B.held mp true hw).2.1

theorem Booked.inSlots_perm (B : Booked l b R C P) : l.s.stp.inSlots.Perm l.kept := by
  have hkept : ∀ mp, mp ∈ l.kept ↔
      (∃ h ∈ l.sent, h.Held l.nDone ∧ h.mp = mp) ∨ l.waiting = some (mp, true) := by
    intro mp
    rw [Ledger.kept, List.mem_append]
    refine or_congr ?_ ?_
    · simp only [List.mem_map, List.mem_filter, decide_eq_true_eq, and_assoc]
    · cases l.waiting with
      | none => exact ⟨nofun, nofun⟩
      | some w =>
        obtain ⟨mp', mapped⟩ := w
        rw [Option.elim_some, Option.some_inj, Prod.mk.injEq]
        cases mapped with
        | false => exact ⟨nofun, nofun⟩
        | true => exact List.mem_singleton.trans ⟨fun h => ⟨h.symm, rfl⟩, fun h => h.1.symm⟩
  have hnodup : l.kept.Nodup := (List.nodup_append.mp (l.kept_due.nodup_iff.mpr B.nodup)).1
  obtain ⟨hsent, -, hdisj⟩ := List.nodup_append.mp B.nodup
  -- a message names its packet, and this its last descriptor
  have hinj : ∀ id id' mp, mp ∈ l.s.stp.stMp id → mp ∈ l.s.stp.stMp id' → id = id' := by
    intro id id' mp h h'
    have hout : ∀ h ∈ l.sent, l.waiting ≠ some (h.mp, true) := by
      intro h hmem hw
      refine hdisj h.mp (List.mem_map_of_mem hmem) h.mp ?_ rfl
      rw [hw]
      exact List.mem_append_left _ List.mem_cons_self
    rcases B.stMp_iff.mp h with ⟨x, hx, -, rfl, rfl⟩ | ⟨hw, rfl⟩
    · rcases B.stMp_iff.mp h' with ⟨y, hy, -, hmp, rfl⟩ | ⟨hw, rfl⟩
      · rw [List.inj_on_of_nodup_map hsent hx hy hmp.symm]
      · exact absurd hw (hout x hx)
    · rcases B.stMp_iff.mp h' with ⟨y, hy, -, rfl, rfl⟩ | ⟨-, rfl⟩
      · exact absurd hw (hout y hy)
      · rfl
  refine (List.perm_ext_iff_of_nodup ((List.nodup_finRange _).filterMap hinj) hnodup).mpr fun mp => ?_
  simp only [List.mem_filterMap, List.mem_finRange, true_and, hkept, B.stMp_iff]
  constructor
  · rintro ⟨id, ⟨h, hmem, hheld, hmp, -⟩ | ⟨hw, -⟩⟩
    · exact Or.inl ⟨h, hmem, hheld, hmp⟩
    · exact Or.inr hw
  · rintro (⟨h, hmem, hheld, hmp⟩ | hw)
    · exact ⟨_, Or.inl ⟨h, hmem, hheld, hmp, rfl⟩⟩
    · exact ⟨_, Or.inr ⟨hw, rfl⟩⟩

/-- **Whereabouts.**  What the ring has been given is in a slot or has been freed. -/
theorem Booked.mblks_perm (B : Booked l b R C P) : l.mblks.Perm (l.s.stp.inSlots ++ l.s.stp.freed) :=
  l.kept_due.symm.trans (B.inSlots_perm.symm.append B.freed.symm)

/-- The ring of a queue that is not started holds nothing. -/
theorem Booked.inSlots_stopped (B : Booked l b R C P) (h : l.s.stp.stState = SFXGE_TXQ_INITIALIZED) :
    l.s.stp.inSlots = [] := by
  obtain ⟨hA, hw⟩ := B.stopped h
  have hsent : l.sent = [] := List.eq_nil_iff_forall_not_mem.mpr fun h hmem => by
    have := B.stops h hmem
    omega
  have hkept : l.kept = [] := by
    rw [Ledger.kept, hw, hsent]
    rfl
  exact List.Perm.eq_nil (hkept ▸ B.inSlots_perm)

/-! ### The ring keeps its ledger -/

/-- The message that an operation gives to the ring. -/
def RingOp.mblk : RingOp → Option Mblk
  | .packet mp _ => some mp
  | .discard mp => some mp
  | _ => none

/-- **Bookkeeping.**  A step of the ring that is given a new message is one of the ledger. -/
theorem ledger_sim {op : RingOp} {rs : RingState} (B : Booked l b R C P) (hs : ringStep op l.s = some rs)
    (hnew : ∀ mp ∈ op.mblk, mp ∉ l.mblks) :
    ∃ l', Ledger.step op l = some l' ∧ l'.s = rs ∧ l'.mblks.Perm (l.mblks ++ op.mblk.toList) := by
  unfold Ledger.step
  rw [hs]
  cases op with
  | packet mp f =>
    have hmp : mp ∉ l.mblks := hnew mp rfl
    rw [ringStep, Option.ite_none_right_eq_some] at hs
    have hw : l.waiting = none := B.waits.mpr hs.1
    simp only [Option.bind_some, if_neg hmp, RingOp.mblk, Option.toList_some]
    split_ifs
    · refine ⟨_, rfl, rfl, ?_⟩
      rw [List.perm_iff_count]
      intro x
      simp only [Ledger.mblks, List.count_append, List.count_cons, List.count_nil]
      omega
    · refine ⟨_, rfl, rfl, ?_⟩
      rw [List.perm_iff_count]
      intro x
      simp only [Ledger.mblks, hw, Option.map_none, Option.map_some, Option.toList_some, Option.toList_none,
        List.count_append, List.count_cons, List.count_nil]
      omega
  | discard mp =>
    have hmp : mp ∉ l.mblks := hnew mp rfl
    simp only [Option.bind_some, if_neg hmp, RingOp.mblk, Option.toList_some]
    refine ⟨_, rfl, rfl, ?_⟩
    rw [List.perm_iff_count]
    intro x
    simp only [Ledger.mblks, List.count_append, List.count_cons, List.count_nil]
    omega
  | post =>
    simp only [Option.bind_some, RingOp.mblk, Option.toList_none, List.append_nil]
    split
    · next mp mapped hw =>
      split_ifs
      · refine ⟨_, rfl, rfl, ?_⟩
        rw [List.perm_iff_count]
        intro x
        simp only [Ledger.mblks, hw, Option.map_none, Option.map_some, Option.toList_some, Option.toList_none,
          List.map_append, List.map_cons, List.map_nil, List.count_append, List.count_nil]
        omega
      · exact ⟨_, rfl, rfl, List.Perm.refl _⟩
    · exact ⟨_, rfl, rfl, List.Perm.refl _⟩
  | stop =>
    refine ⟨_, rfl, rfl, ?_⟩
    simp only [RingOp.mblk, Option.toList_none, List.append_nil]
    exact List.Perm.refl _
  | unblock | push | evTx id | complete | flush st | start d =>
    refine ⟨_, rfl, rfl, ?_⟩
    simp only [RingOp.mblk, Option.toList_none, List.append_nil]
    exact List.Perm.refl _

/-! ### A queue that is started and stopped -/

/-- The operations of `Tx.Queue` other than those of `sfxge_tx_packet_add`.  A packet is not fragmented into
nothing, as `sfxge_tx_qlist_post` asserts. -/
def Op.Inner : Op → Prop
  | .add _ _ _ => False
  | .addLocked _ _ _ => False
  | .hold f => ∀ lso copy, (f lso copy).rc = none → 0 < (f lso copy).n
  | _ => True

instance : DecidablePred Op.Inner
  | .add _ _ _ | .addLocked _ _ _ => isFalse id
  | .hold f => inferInstanceAs (Decidable (∀ lso copy, (f lso copy).rc = none → 0 < (f lso copy).n))
  | .service | .flushList | .qunblock | .flush _ | .evTx _ | .qcomplete => isTrue trivial

inductive QueueOp where
  | run (op : Op)
  /-- `sfxge_tx_qstart` -/
  | start (descIndex : U32)
  /-- `sfxge_tx_qstop`, up to its call of `sfxge_tx_qdpl_flush_locked` -/
  | stop

/-- A step of a queue.  `sfxge_tx_qstop` holds `se_lock` and `st_lock` until the lists are flushed. -/
def queueStep : QueueOp → Sys → Option Sys
  | .run op, s => if op.Inner then step op s else none
  | .start descIndex, s =>
    if s.pc ≠ .free then none else (ringStep (.start descIndex) s.rs).map fun rs => { s with rs := rs }
  | .stop, s =>
    if s.pc ≠ .free ∨ s.evq ≠ .poll then none
    else (ringStep .stop s.rs).map fun rs => { s with rs := rs, pc := .swizzle .flush, evq := .unblock }

/-- A queue after `sfxge_tx_qinit`. -/
def Sys.initial (pkt : ℕ → Packet) (getPktLimit putPktLimit : ℕ) : Sys :=
  { Sys.started pkt getPktLimit putPktLimit 0 with rs := .init }

/-! ### What a step gives to the ring -/

variable {s s' : Sys}

/-- The ring takes at most one step, and is given the packet that is taken off the lists. -/
def Rings (s s' : Sys) : Prop := (s'.rs = s.rs ∧ s'.taken = s.taken) ∨
  ∃ op, Ledger.NonEmpty op ∧ ringStep op s.rs = some s'.rs ∧ s'.taken = s.taken ++ op.mblk.toList

/-- The packet that waits for the put list to be swizzled. -/
def Pc.waiting : Pc → Option ℕ
  | .swizzle (.add stpp) => some stpp
  | _ => none

/-- The packets that the queue has accepted. -/
def Sys.accepted (s : Sys) : List Mblk := s.entered ++ (s.pc.waiting.bind fun p => (s.pkt p).stpMp).toList

theorem accepted_congr (hentered : s'.entered = s.entered) (hpc : s.pc.waiting = none) (hpc' : s'.pc.waiting = none) :
    s'.accepted = s.accepted := by
  rw [Sys.accepted, Sys.accepted, hentered, hpc, hpc']
  rfl

theorem rings_drainEnd (stpp : Option ℕ) (count : ℕ) (pushed : U32) : Rings s (s.drainEnd stpp count pushed) := by
  unfold Sys.drainEnd Sys.push
  dsimp only
  split_ifs
  · exact Or.inr ⟨.push, trivial, rfl, (List.append_nil _).symm⟩
  · exact Or.inr ⟨.push, trivial, rfl, (List.append_nil _).symm⟩
  · exact Or.inl ⟨rfl, rfl⟩
  · exact Or.inl ⟨rfl, rfl⟩

theorem drainEnd_accepted {stpp : Option ℕ} {count : ℕ} {pushed : U32} (hpc : s.pc.waiting = none) :
    (s.drainEnd stpp count pushed).accepted = s.accepted := by
  refine accepted_congr ?_ hpc ?_
  · unfold Sys.drainEnd Sys.push
    dsimp only
    split_ifs <;> rfl
  · unfold Sys.drainEnd Sys.push
    dsimp only
    split_ifs <;> rfl

theorem appendGet_keeps (p count pp : ℕ) : (s.appendGet p count pp).rs = s.rs ∧
    (s.appendGet p count pp).taken = s.taken ∧ (s.appendGet p count pp).entered = s.entered := by
  unfold Sys.appendGet Sys.setLink
  cases s.dpl.stdGetp <;> exact ⟨rfl, rfl, rfl⟩

theorem swizzled_keeps (k : SwizzleFor) : (s.swizzled k).rs = s.rs ∧ (s.swizzled k).taken = s.taken ∧
    (s.swizzled k).entered = s.entered ∧ (s.swizzled k).pc.waiting = none := by
  cases k <;> exact ⟨rfl, rfl, rfl, rfl⟩

/-- What the holder of the lock does to the ring and to the packets accepted. -/
theorem hold_rings {f : Bool → Bool → Fragments} (hf : (Op.hold f).Inner) (hs : s.hold f = some s') :
    Rings s s' ∧ s'.accepted = s.accepted := by
  unfold Sys.hold at hs
  cases hpc : s.pc with
  | free =>
    rw [hpc] at hs
    cases hs
  | swizzle k =>
    rw [hpc] at hs
    cases hs
    obtain ⟨h1, h2, h3, h4⟩ := swizzled_keeps (s := s.enter k) k
    have henter : (s.enter k).rs = s.rs ∧ (s.enter k).taken = s.taken ∧ (s.enter k).entered = s.accepted := by
      rw [Sys.accepted, hpc]
      cases k with
      | add stpp => exact ⟨rfl, rfl, rfl⟩
      | service => exact ⟨rfl, rfl, (List.append_nil _).symm⟩
      | flush => exact ⟨rfl, rfl, (List.append_nil _).symm⟩
    obtain ⟨e1, e2, e3⟩ := henter
    have hend : Rings s ((s.enter k).swizzled k) ∧ ((s.enter k).swizzled k).accepted = s.accepted := by
      refine ⟨Or.inl ⟨h1.trans e1, h2.trans e2⟩, ?_⟩
      rw [Sys.accepted, h4, h3, e3]
      exact List.append_nil _
    unfold Sys.swizzle
    split_ifs
    · exact hend
    · split
      · exact hend
      · exact ⟨Or.inl ⟨e1, e2⟩, (List.append_nil _).trans e3⟩
  | reverse stpp p count pp k =>
    rw [hpc] at hs
    cases hs
    unfold Sys.reverse
    split <;> exact ⟨Or.inl ⟨rfl, rfl⟩, accepted_congr rfl (by rw [hpc]; rfl) rfl⟩
  | splice p count pp k =>
    rw [hpc] at hs
    cases hs
    obtain ⟨h1, h2, h3, h4⟩ := swizzled_keeps (s := s.appendGet p count pp) k
    obtain ⟨e1, e2, e3⟩ := appendGet_keeps (s := s) p count pp
    exact ⟨Or.inl ⟨h1.trans e1, h2.trans e2⟩, accepted_congr (h3.trans e3) (by rw [hpc]; rfl) h4⟩
  | tail stpp =>
    rw [hpc] at hs
    cases hs
    obtain ⟨e1, e2, e3⟩ := appendGet_keeps (s := s) stpp 1 stpp
    exact ⟨Or.inl ⟨e1, e2⟩, accepted_congr e3 (by rw [hpc]; rfl) rfl⟩
  | service =>
    rw [hpc] at hs
    cases hs
    refine ⟨Or.inl ⟨rfl, rfl⟩, accepted_congr rfl (by rw [hpc]; rfl) ?_⟩
    dsimp only
    split_ifs <;> rfl
  | unblocked =>
    rw [hpc] at hs
    cases hs
    refine ⟨Or.inl ⟨rfl, rfl⟩, accepted_congr rfl (by rw [hpc]; rfl) ?_⟩
    dsimp only
    split_ifs <;> rfl
  | drain stpp count pushed =>
    rw [hpc] at hs
    have hw : s.pc.waiting = none := by rw [hpc]; rfl
    dsimp only at hs
    split_ifs at hs
    · cases hs
      exact ⟨rings_drainEnd stpp count pushed, drainEnd_accepted hw⟩
    · obtain ⟨p, -, hs⟩ := Option.bind_eq_some_iff.mp hs
      obtain ⟨mp, -, hs⟩ := Option.bind_eq_some_iff.mp hs
      obtain ⟨rs, hrs, hs⟩ := Option.map_eq_some_iff.mp hs
      have hop : Ledger.NonEmpty (.packet mp (f (decide ((s.pkt p).stpMss ≠ 0)))) := hf _
      split_ifs at hs <;> subst hs
      · exact ⟨Or.inr ⟨_, hop, hrs, rfl⟩, accepted_congr rfl hw rfl⟩
      · exact ⟨Or.inr ⟨_, hop, hrs, rfl⟩, accepted_congr rfl hw rfl⟩
  | post k =>
    rw [hpc] at hs
    have hw : s.pc.waiting = none := by rw [hpc]; rfl
    obtain ⟨rs, hrs, hs⟩ := Option.map_eq_some_iff.mp hs
    split_ifs at hs <;> subst hs
    · refine ⟨Or.inr ⟨.post, trivial, hrs, (List.append_nil _).symm⟩, accepted_congr rfl hw ?_⟩
      cases k <;> rfl
    · exact ⟨Or.inr ⟨.post, trivial, hrs, (List.append_nil _).symm⟩, accepted_congr rfl hw hw⟩
  | posted stpp count pushed =>
    rw [hpc] at hs
    cases hs
    have hw : s.pc.waiting = none := by rw [hpc]; rfl
    unfold Sys.posted
    split_ifs
    · exact ⟨rings_drainEnd stpp count pushed, drainEnd_accepted hw⟩
    · exact ⟨Or.inr ⟨.push, trivial, rfl, (List.append_nil _).symm⟩, accepted_congr rfl hw rfl⟩
    · exact ⟨Or.inl ⟨rfl, rfl⟩, accepted_congr rfl hw rfl⟩
  | discard stpp count =>
    rw [hpc] at hs
    have hw : s.pc.waiting = none := by rw [hpc]; rfl
    dsimp only at hs
    split_ifs at hs
    · cases hs
      exact ⟨Or.inl ⟨rfl, rfl⟩, accepted_congr rfl hw rfl⟩
    · obtain ⟨p, -, hs⟩ := Option.bind_eq_some_iff.mp hs
      have hs' : s.discardOne p count = some s' := hs
      obtain ⟨mp, -, hs⟩ := Option.bind_eq_some_iff.mp hs'
      obtain ⟨rs, hrs, rfl⟩ := Option.map_eq_some_iff.mp hs
      exact ⟨Or.inr ⟨.discard mp, trivial, hrs, rfl⟩, accepted_congr rfl hw rfl⟩
  | exit =>
    rw [hpc] at hs
    cases hs
    exact ⟨Or.inl ⟨rfl, rfl⟩, accepted_congr rfl (by rw [hpc]; rfl) rfl⟩

/-- **Inversion.** -/
theorem queueStep_rings {op : QueueOp} (hs : queueStep op s = some s') :
    Rings s s' ∧ s'.accepted = s.accepted := by
  cases op with
  | run op =>
    rw [queueStep, Option.ite_none_right_eq_some] at hs
    obtain ⟨hin, hs⟩ := hs
    cases op with
    | add stpp mp mss => exact hin.elim
    | addLocked stpp mp mss => exact hin.elim
    | service =>
      rw [step, Option.ite_none_left_eq_some, not_not] at hs
      obtain ⟨hpc, ⟨⟩⟩ := hs
      exact ⟨Or.inl ⟨rfl, rfl⟩, accepted_congr rfl (by rw [hpc]; rfl) rfl⟩
    | flushList =>
      rw [step, Option.ite_none_left_eq_some, not_not] at hs
      obtain ⟨hpc, ⟨⟩⟩ := hs
      exact ⟨Or.inl ⟨rfl, rfl⟩, accepted_congr rfl (by rw [hpc]; rfl) rfl⟩
    | qunblock =>
      rw [step, Option.ite_none_left_eq_some, not_or, not_not] at hs
      obtain ⟨⟨hpc, -⟩, ⟨⟩⟩ := hs
      have hw : s.pc.waiting = none := by rw [hpc]; rfl
      unfold Sys.qunblock
      dsimp only
      split_ifs
      · exact ⟨Or.inl ⟨rfl, rfl⟩, accepted_congr rfl hw rfl⟩
      · split
        · next rs hrs =>
          exact ⟨Or.inr ⟨.unblock, trivial, hrs, (List.append_nil _).symm⟩, accepted_congr rfl hw rfl⟩
        · exact ⟨Or.inl ⟨rfl, rfl⟩, accepted_congr rfl hw rfl⟩
    | flush st =>
      rw [step, Option.ite_none_left_eq_some] at hs
      obtain ⟨rs, hrs, rfl⟩ := Option.map_eq_some_iff.mp hs.2
      exact ⟨Or.inr ⟨.flush st, trivial, hrs, (List.append_nil _).symm⟩, rfl⟩
    | hold f => exact hold_rings hin hs
    | evTx id =>
      rw [step, Option.ite_none_left_eq_some] at hs
      obtain ⟨rs, hrs, rfl⟩ := Option.map_eq_some_iff.mp hs.2
      exact ⟨Or.inr ⟨.evTx id, trivial, hrs, (List.append_nil _).symm⟩, rfl⟩
    | qcomplete =>
      rw [step, Sys.qcomplete] at hs
      split at hs
      · obtain ⟨rs, hrs, rfl⟩ := Option.map_eq_some_iff.mp hs
        exact ⟨Or.inr ⟨.complete, trivial, hrs, (List.append_nil _).symm⟩, rfl⟩
      · obtain ⟨rs, hrs, rfl⟩ := Option.map_eq_some_iff.mp hs
        exact ⟨Or.inr ⟨.complete, trivial, hrs, (List.append_nil _).symm⟩, rfl⟩
      · cases hs
        exact ⟨Or.inl ⟨rfl, rfl⟩, rfl⟩
      · cases hs
        exact ⟨Or.inl ⟨rfl, rfl⟩, rfl⟩
      · cases hs
      · cases hs
  | start d =>
    rw [queueStep, Option.ite_none_left_eq_some] at hs
    obtain ⟨rs, hrs, rfl⟩ := Option.map_eq_some_iff.mp hs.2
    exact ⟨Or.inr ⟨.start d, trivial, hrs, (List.append_nil _).symm⟩, rfl⟩
  | stop =>
    rw [queueStep, Option.ite_none_left_eq_some, not_or, not_not] at hs
    obtain ⟨⟨hpc, -⟩, hs⟩ := hs
    obtain ⟨rs, hrs, rfl⟩ := Option.map_eq_some_iff.mp hs
    exact ⟨Or.inr ⟨.stop, trivial, hrs, (List.append_nil _).symm⟩, accepted_congr rfl (by rw [hpc]; rfl) rfl⟩

theorem queued_queueStep {op : QueueOp} {gs fs ps : List ℕ} (Q : Queued s gs fs ps)
    (hs : queueStep op s = some s') : ∃ gs' fs' ps', Queued s' gs' fs' ps' := by
  cases op with
  | run op =>
    rw [queueStep, Option.ite_none_right_eq_some] at hs
    exact queued_step Q hs.2
  | start d =>
    rw [queueStep, Option.ite_none_left_eq_some] at hs
    obtain ⟨rs, -, rfl⟩ := Option.map_eq_some_iff.mp hs.2
    exact ⟨_, _, _, Q.congr rfl rfl rfl rfl rfl rfl rfl⟩
  | stop =>
    rw [queueStep, Option.ite_none_left_eq_some, not_or, not_not] at hs
    obtain ⟨⟨hpc, -⟩, hs⟩ := hs
    obtain ⟨rs, -, rfl⟩ := Option.map_eq_some_iff.mp hs
    exact ⟨_, _, _, Q.goto rfl (by rw [hpc]; trivial) (by rw [hpc]; rfl) trivial rfl⟩

/-! ### The lists and the ring together -/

/-- The lists and the ring of a queue, of which the ring has been given what has been taken off the lists. -/
structure Holds (s : Sys) : Prop where
  queued : ∃ gs fs ps, Queued s gs fs ps
  booked : ∃ l b R C P, Booked l b R C P ∧ l.s = s.rs ∧ l.mblks.Perm s.taken

theorem holds_initial (pkt : ℕ → Packet) (getPktLimit putPktLimit : ℕ) :
    Holds (.initial pkt getPktLimit putPktLimit) where
  queued := ⟨[], [], [], List.nodup_nil, nofun, rfl, trivial, Nat.zero_le _, nofun, ⟨Tailed.empty, rfl⟩, rfl,
    Nat.zero_le _, rfl, List.Sublist.refl _⟩
  booked := ⟨.init, 0, 0, 0, 0, booked_init, rfl, List.Perm.nil⟩

/-- The packets entered are those taken off the lists and those on them. -/
theorem Queued.entered_eq {gs fs ps : List ℕ} (Q : Queued s gs fs ps) :
    s.entered = s.taken ++ (gs ++ (fs ++ (s.pc.entering ++ ps.reverse))).filterMap fun p => (s.pkt p).stpMp := by
  have h := congrArg (List.filterMap id) Q.order
  simpa only [List.filterMap_append, List.filterMap_map, Function.comp_def, id_eq, List.filterMap_some] using h

/-- The ring keeps its ledger when the messages taken off the lists are different. -/
theorem Holds.rings (H : Holds s) (hr : Rings s s') (hn : s'.taken.Nodup)
    (hq : ∃ gs fs ps, Queued s' gs fs ps) : Holds s' := by
  obtain ⟨l, b, R, C, P, B, hl, hperm⟩ := H.booked
  rcases hr with ⟨hrs, htaken⟩ | ⟨op, hop, hs, htaken⟩
  · exact ⟨hq, l, b, R, C, P, B, hl.trans hrs.symm, htaken.symm ▸ hperm⟩
  · have hnew : ∀ mp ∈ op.mblk, mp ∉ l.mblks := by
      intro mp hmp hmem
      rw [htaken] at hn
      exact (List.nodup_append.mp hn).2.2 mp (hperm.mem_iff.mp hmem) mp (Option.mem_toList.mpr hmp) rfl
    rw [← hl] at hs
    obtain ⟨l', hl', hrs, hperm'⟩ := ledger_sim B hs hnew
    obtain ⟨b', R', C', P', B'⟩ := booked_step ⟨b, R, C, P, B⟩ ⟨op, hop, hl'⟩
    exact ⟨hq, l', b', R', C', P', B', hrs, htaken.symm ▸ hperm'.trans (hperm.append_right _)⟩

/-- **Step.**  A queue keeps what it has accepted. -/
theorem Holds.queueStep (H : Holds s) (hn : s.accepted.Nodup) {op : QueueOp}
    (hs : Tx.queueStep op s = some s') : Holds s' ∧ s'.accepted = s.accepted := by
  obtain ⟨hr, hacc⟩ := queueStep_rings hs
  obtain ⟨gs, fs, ps, Q⟩ := H.queued
  obtain ⟨gs', fs', ps', Q'⟩ := queued_queueStep Q hs
  have htaken : s'.taken.Nodup := by
    rw [← hacc, Sys.accepted, Q'.entered_eq, List.append_assoc] at hn
    exact (List.nodup_append.mp hn).1
  exact ⟨H.rings hr htaken ⟨gs', fs', ps', Q'⟩, hacc⟩

/-! ### Adding a packet -/

/-- `sfxge_tx_qdpl_add` finds its list full. -/
def Sys.full (s : Sys) (locked : Bool) : Bool :=
  if locked then decide (s.dpl.stdCount ≥ s.dpl.getPktLimit) else decide (s.putLen ≥ s.dpl.putPktLimit)

/-- The step of `sfxge_tx_packet_add` that adds the packet. -/
def addOp (stpp : ℕ) (mp : Mblk) (mss : ℕ) (locked : Bool) : Op :=
  if locked then .addLocked stpp mp mss else .add stpp mp mss

variable {stpp mss : ℕ} {mp : Mblk} {locked : Bool}

/-- **Add.**  The queue accepts the packet unless its list is full. -/
theorem Holds.add (H : Holds s) (hs : step (addOp stpp mp mss locked) s = some s') :
    Holds s' ∧ s'.accepted.Perm (if s.full locked then s.accepted else mp :: s.accepted) := by
  obtain ⟨gs, fs, ps, Q⟩ := H.queued
  have hq := queued_step Q hs
  obtain ⟨l, b, R, C, P, B, hl, hperm⟩ := H.booked
  cases locked with
  | false =>
    rw [addOp, if_neg (by simp), step, Option.ite_none_left_eq_some] at hs
    obtain ⟨hlive, ⟨⟩⟩ := hs
    have hf : s.full false = decide (s.putLen ≥ s.dpl.putPktLimit) := rfl
    unfold Sys.qdplAddUnlocked at hq ⊢
    rw [hf]
    by_cases hfull : s.putLen ≥ s.dpl.putPktLimit
    · rw [if_pos hfull] at hq ⊢
      rw [if_pos (decide_eq_true hfull)]
      exact ⟨⟨hq, l, b, R, C, P, B, hl, hperm⟩, List.Perm.refl _⟩
    · rw [if_neg hfull] at hq ⊢
      rw [if_neg (by rw [decide_eq_true_iff]; exact hfull)]
      refine ⟨⟨hq, l, b, R, C, P, B, hl, hperm⟩, ?_⟩
      have hsame : (s.pc.waiting.bind fun p => (Function.update s.pkt stpp
          { Sys.packet mp mss with stpNext := s.dpl.stdPut, stpDplPutLen := s.putLen } p).stpMp) =
          s.pc.waiting.bind fun p => (s.pkt p).stpMp := by
        unfold Pc.waiting
        split
        · next p hpc =>
          have hp : p ∈ s.live := Q.live p (by rw [hpc]; simp [Pc.adding, SwizzleFor.adding])
          rw [Option.bind_some, Option.bind_some, Function.update_of_ne (ne_of_mem_of_not_mem hp hlive)]
        · rfl
      change (s.entered ++ [mp] ++ (s.pc.waiting.bind fun p => (Function.update s.pkt stpp _ p).stpMp).toList).Perm _
      rw [hsame, Sys.accepted, List.append_assoc]
      exact List.perm_middle
  | true =>
    rw [addOp, if_pos rfl, step, Option.ite_none_left_eq_some, not_or, not_not] at hs
    obtain ⟨⟨hpc, hlive⟩, ⟨⟩⟩ := hs
    have hf : s.full true = decide (s.dpl.stdCount ≥ s.dpl.getPktLimit) := rfl
    unfold Sys.packetAddLocked at hq ⊢
    rw [hf]
    by_cases hfull : s.dpl.stdCount ≥ s.dpl.getPktLimit
    · rw [if_pos hfull] at hq ⊢
      rw [if_pos (decide_eq_true hfull)]
      exact ⟨⟨hq, l, b, R, C, P, B, hl, hperm⟩, List.Perm.refl _⟩
    · rw [if_neg hfull] at hq ⊢
      rw [if_neg (by rw [decide_eq_true_iff]; exact hfull)]
      refine ⟨⟨hq, l, b, R, C, P, B, hl, hperm⟩, ?_⟩
      change (s.entered ++ (Function.update s.pkt stpp (Sys.packet mp mss) stpp).stpMp.toList).Perm _
      rw [Function.update_self, Sys.accepted, hpc]
      change (s.entered ++ [mp]).Perm (mp :: (s.entered ++ []))
      rw [List.append_nil]
      exact List.perm_append_singleton mp s.entered

/-! ### Where the packets are -/

/-- The packets on the lists of the queue, the one that is being added included. -/
def Sys.Listed (s : Sys) (mps : List Mblk) : Prop := ∃ gs fs ps,
  s.GetAt gs ∧ s.MovedAt fs ∧ Chain s.next s.dpl.stdPut ps ∧
    mps = (gs ++ (fs ++ (s.pc.adding ++ ps))).filterMap fun p => (s.pkt p).stpMp

/-- The queue is not started, nothing is on its lists, and no thread is at work on it. -/
def Sys.Idle (s : Sys) : Prop := s.pc = .free ∧ s.rs.stp.stState = SFXGE_TXQ_INITIALIZED ∧
  s.dpl.stdCount = 0 ∧ s.dpl.stdPut = none

/-- The messages that the queue has in its ring or has freed. -/
def Sys.ringed (s : Sys) : List Mblk := s.rs.stp.inSlots ++ s.rs.stp.freed

/-- **Whereabouts.**  What a queue has accepted is on its lists, in its ring, or freed. -/
theorem Holds.whereabouts (H : Holds s) : ∃ mps, s.Listed mps ∧ s.accepted.Perm (mps ++ s.ringed) := by
  obtain ⟨gs, fs, ps, Q⟩ := H.queued
  obtain ⟨l, b, R, C, P, B, hl, hperm⟩ := H.booked
  refine ⟨_, ⟨gs, fs, ps, Q.get, Q.moved, Q.put, rfl⟩, ?_⟩
  have hring : s.taken.Perm s.ringed := by
    have h := B.mblks_perm
    rw [hl] at h
    exact hperm.symm.trans h
  have hadd : s.pc.adding.filterMap (fun p => (s.pkt p).stpMp) =
      (s.pc.waiting.bind fun p => (s.pkt p).stpMp).toList ++
        s.pc.entering.filterMap fun p => (s.pkt p).stpMp := by
    unfold Pc.waiting Pc.entering
    cases s.pc with
    | swizzle k =>
      cases k with
      | add p =>
        change [p].filterMap (fun p => (s.pkt p).stpMp) = (s.pkt p).stpMp.toList ++ []
        cases h : (s.pkt p).stpMp <;> simp [h]
      | service => rfl
      | flush => rfl
    | _ => rfl
  have hrev : (ps.reverse.filterMap fun p => (s.pkt p).stpMp).Perm (ps.filterMap fun p => (s.pkt p).stpMp) :=
    (List.reverse_perm ps).filterMap _
  rw [Sys.accepted, Q.entered_eq]
  simp only [List.filterMap_append, hadd]
  rw [List.perm_iff_count] at hring hrev ⊢
  intro mp
  have h1 := hring mp
  have h2 := hrev mp
  simp only [List.count_append] at h1 h2 ⊢
  omega

/-- Only one list of packets is on the lists of an idle queue, and nothing is in its ring. -/
theorem Holds.idle (H : Holds s) (hidle : s.Idle) {mps : List Mblk} (hlisted : s.Listed mps) :
    mps = [] ∧ s.rs.stp.inSlots = [] := by
  obtain ⟨hpc, hst, hcount, hput⟩ := hidle
  obtain ⟨gs, fs, ps, hget, hmoved, hchain, rfl⟩ := hlisted
  rw [Sys.GetAt, hpc] at hget
  rw [Sys.MovedAt, hpc] at hmoved
  have hgs : gs = [] := List.length_eq_zero_iff.mp (hget.2.symm.trans hcount)
  have hfs : fs = [] := hmoved
  rw [hput] at hchain
  rw [hgs, hfs, hchain.eq_nil, hpc]
  obtain ⟨l, b, R, C, P, B, hl, -⟩ := H.booked
  rw [← hl] at hst ⊢
  exact ⟨rfl, B.inSlots_stopped hst⟩

end Sfxge.Tx
