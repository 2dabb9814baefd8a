import Sfxge.Ev.Poll

/-!
# Ev.Delivery — events are delivered once each

The ring between the hardware's writes and the poll's clearing is a window on the list of written events
(`Holds`), which a step moves at one end.  A poll that a handler has aborted stops, unless the abort falls
on the last event of a batch: the loop then takes the batch for a full one and reads on.
-/

namespace Sfxge.Ev

open Lib

/-! ### The ring -/

/-- The ring holds the events from number `K` on, and ones beyond the last. -/
def Holds (size b K : ℕ) (mem : ℕ → Qword) (written : List Qword) : Prop :=
  Window size b K mem fun j => written.getD j Qword.ones

section

variable {size b K : ℕ} {mem : ℕ → Qword} {written : List Qword}

theorem Holds.get (h : Holds size b K mem written) {j : ℕ} (h1 : K ≤ j) (h2 : j < K + size) :
    mem ((b + j) % size) = written.getD j Qword.ones := h j h1 h2

theorem getD_of_le {j : ℕ} (hj : written.length ≤ j) : written.getD j Qword.ones = Qword.ones :=
  List.getD_eq_default _ _ hj

/-- A number stands for an event exactly when what the ring holds for it is present. -/
theorem present_getD (hp : ∀ ev ∈ written, present ev = true) {j : ℕ} :
    present (written.getD j Qword.ones) = true ↔ j < written.length := by
  rw [List.getD_eq_getElem?_getD]
  by_cases hj : j < written.length
  · simp [hj, hp]
  · simp [hj, not_present_ones]

/-- A slot that has been cleared is not one of an event that waits. -/
theorem Holds.room (h : Holds size b K mem written) (hp : ∀ ev ∈ written, present ev = true)
    (hsize : 0 < size) (hle : written.length ≤ K + size)
    (hfree : mem ((b + written.length) % size) = Qword.ones) : written.length < K + size := by
  rcases Nat.lt_or_eq_of_le hle with hlt | heq
  · exact hlt
  exfalso
  have hslot : (b + written.length) % size = (b + K) % size := by
    rw [heq, ← Nat.add_assoc, Nat.add_mod_right]
  have hold := h.get (Nat.le_refl _) (show K < K + size by omega)
  have hpres := (present_getD hp (j := K)).mpr (by omega)
  rw [← hold, ← hslot, hfree, not_present_ones] at hpres
  cases hpres

theorem Holds.write (h : Holds size b K mem written) (hK : K ≤ written.length)
    (hroom : written.length < K + size) (ev : Qword) :
    Holds size b K (Function.update mem ((b + written.length) % size) ev) (written ++ [ev]) := by
  refine (h.set hK hroom ev).congr fun j _ _ => ?_
  rcases Nat.lt_trichotomy j written.length with hj | rfl | hj
  · rw [Function.update_of_ne (Nat.ne_of_lt hj), List.getD_append _ _ _ _ hj]
  · rw [Function.update_self, List.getD_append_right _ _ _ _ (Nat.le_refl _), Nat.sub_self]
    rfl
  · rw [Function.update_of_ne (Nat.ne_of_gt hj), getD_of_le (by omega), getD_of_le (by simp; omega)]

/-- Clearing the first slot of the window moves the window on. -/
theorem Holds.clear (h : Holds size b K mem written) (hle : written.length ≤ K + size) :
    Holds size b (K + 1) (Function.update mem ((b + K) % size) Qword.ones) written :=
  h.next (getD_of_le hle)

end

/-! ### The invariant -/

/-- The events of the batch that have been dispatched. -/
def Pc.called : Pc → ℕ
  | .process _ _ index => index
  | .clear _ total _ => total
  | _ => 0

/-- The slots of the batch that have been cleared. -/
def Pc.erased : Pc → ℕ
  | .clear _ _ index => index
  | _ => 0

/-- The read count of the batch. -/
def Pc.count (countp : U32) : Pc → U32
  | .idle => countp
  | .read count _ | .process count _ _ | .clear count _ _ => count

namespace Sys

/-- What the locals of the poll hold, when `D` events came before the batch. -/
def At (D : ℕ) (s : Sys) : Prop :=
  match s.pc with
  | .idle => ¬ s.Aborted → s.atPoll ≤ s.calls.length
  | .read count ev => ev <+: s.written.drop D ∧ ev.length ≤ batch count
  | .process count ev index => ev <+: s.written.drop D ∧ ev.length ≤ batch count ∧ index ≤ ev.length ∧
      (ev.length < batch count → s.atPoll ≤ D + ev.length)
  | .clear count total index => total ≤ batch count ∧ index ≤ total ∧
      (total < batch count → ¬ s.Aborted → s.atPoll ≤ s.calls.length)

/-- `D` events came before the batch that the poll is at. -/
structure Inv (eep : Evq) (mem0 : ℕ → Qword) (count0 : U32) (D : ℕ) (s : Sys) : Prop where
  called : s.calls.length = D + s.pc.called
  count : s.pc.count s.countp = idx 32 count0.toNat D
  wptr : s.wptr = idx 32 count0.toNat s.written.length
  order : s.events <+: s.written
  handlers : ∀ c ∈ s.calls, c.handler = eep.handler c.ev
  present : ∀ ev ∈ s.written, present ev = true
  room : s.written.length ≤ D + s.pc.erased + eep.size
  ring : Holds eep.size count0.toNat (D + s.pc.erased) s.mem s.written
  others : ∀ i ≥ eep.size, s.mem i = mem0 i
  atPoll : s.atPoll ≤ s.written.length
  stands : s.At D

variable {eep : Evq} {mem0 : ℕ → Qword} {count0 : U32} {D : ℕ} {s s' : Sys}

theorem inv_init : Inv eep mem0 count0 0 (init eep mem0 count0) where
  called := rfl
  count := (idx_toNat count0).symm
  wptr := (idx_toNat count0).symm
  order := List.prefix_rfl
  handlers := by simp [init]
  present := by simp [init]
  room := Nat.zero_le _
  ring j _ _ := if_pos (Nat.mod_lt _ (Nat.two_pow_pos _))
  others i hi := if_neg (Nat.not_lt.mpr hi)
  atPoll := Nat.le_refl _
  stands _ := Nat.le_refl _

/-- What has been cleared has been written. -/
theorem Inv.cleared_le (hi : Inv eep mem0 count0 D s) : D + s.pc.erased ≤ s.written.length := by
  have hlen : s.calls.length ≤ s.written.length := by
    have := hi.order.length_le
    rwa [events, List.length_map] at this
  have hcalled := hi.called
  have hst := hi.stands
  unfold At at hst
  cases hpc : s.pc with
  | clear count total index =>
    rw [hpc] at hst hcalled
    obtain ⟨-, h, -⟩ := hst
    change D + index ≤ _
    change _ = D + total at hcalled
    omega
  | _ =>
    change D + 0 ≤ _
    omega

theorem At.congr (h : s.At D) (hpc : s'.pc = s.pc) (hw : s.written <+: s'.written) (hc : s'.calls = s.calls)
    (hp : s'.polls = s.polls) (ha : s'.atPoll = s.atPoll) : s'.At D := by
  have hdrop : s.written.drop D <+: s'.written.drop D := by
    obtain ⟨rest, hrest⟩ := hw
    rw [← hrest, List.drop_append]
    exact List.prefix_append _ _
  have habort : s'.Aborted ↔ s.Aborted := by rw [Aborted, Aborted, hc, hp]
  unfold At at h ⊢
  rw [hpc, hc, ha, habort]
  cases hpc : s.pc with
  | idle | clear =>
    rw [hpc] at h
    exact h
  | read count evs | process count evs index =>
    rw [hpc] at h
    exact ⟨h.1.trans hdrop, h.2⟩

theorem Inv.write (hi : Inv eep mem0 count0 D s) {ev : Qword} (h : s.write eep ev = some s') :
    Inv eep mem0 count0 D s' := by
  obtain ⟨⟨hev, hfree⟩, h⟩ := Option.ite_none_right_eq_some.mp h
  cases h
  have hsize := eep.eight_le
  rw [hi.wptr, eep.slot_idx] at hfree
  have hroom := hi.ring.room hi.present (by omega) hi.room hfree
  have hlt : (count0.toNat + s.written.length) % eep.size < eep.size := Nat.mod_lt _ (by omega)
  refine ⟨hi.called, hi.count, ?_, hi.order.trans (List.prefix_append _ _), hi.handlers, ?_, ?_,
    ?_, ?_, ?_, hi.stands.congr rfl (List.prefix_append _ _) rfl rfl rfl⟩
  · rw [List.length_append, hi.wptr]
    exact idx_succ _ _
  · intro e he
    rcases List.mem_append.mp he with he | he
    · exact hi.present e he
    · rw [List.mem_singleton.mp he]
      exact hev
  · rw [List.length_append]
    exact hroom
  · rw [hi.wptr, eep.slot_idx]
    exact hi.ring.write hi.cleared_le hroom ev
  · intro i hige
    dsimp only
    rw [hi.wptr, eep.slot_idx, Function.update_of_ne (by omega), hi.others i hige]
  · rw [List.length_append]
    exact Nat.le_succ_of_le hi.atPoll

theorem Inv.poll (hi : Inv eep mem0 count0 D s) (h : s.poll = some s') : Inv eep mem0 count0 D s' := by
  unfold Sys.poll at h
  split at h
  · rename_i hpc
    cases h
    have hcalled := hi.called
    have hcount := hi.count
    have hroom := hi.room
    have hring := hi.ring
    rw [hpc] at hcalled hcount hroom hring
    exact ⟨hcalled, hcount, hi.wptr, hi.order, hi.handlers, hi.present, hroom, hring, hi.others, Nat.le_refl _,
      List.nil_prefix, Nat.zero_le _⟩
  · cases h

theorem prefix_snoc {α : Type} {l L : List α} {x : α} (h : l <+: L) (hx : L[l.length]? = some x) :
    l ++ [x] <+: L := by
  obtain ⟨rest, rfl⟩ := h
  rw [List.getElem?_append_right (Nat.le_refl _), Nat.sub_self] at hx
  cases rest with
  | nil => cases hx
  | cons y rest =>
    cases hx
    exact ⟨rest, by simp⟩

/-- The next event of a batch is the next to be delivered. -/
theorem Inv.event (hi : Inv eep mem0 count0 D s) {count : U32} {ev : List Qword} {index : ℕ} {e : Qword}
    (hpc : s.pc = .process count ev index) (he : ev[index]? = some e) :
    s.events ++ [e] <+: s.written := by
  have hst := hi.stands
  have hcalled := hi.called
  unfold At at hst
  rw [hpc] at hst hcalled
  obtain ⟨⟨rest, hrest⟩, -, -, -⟩ := hst
  change _ = D + index at hcalled
  refine prefix_snoc hi.order ?_
  rw [events, List.length_map, hcalled, ← List.getElem?_drop, ← hrest]
  exact (List.getElem?_append_left (List.getElem?_eq_some_iff.mp he).1).trans he

/-- What holds of the calls made before, and of the new one. -/
theorem calls_dispatch {P : Call → Prop} {e : Qword} {rv : Bool} (h : ∀ c ∈ s.calls, P c)
    (hnew : P ⟨s.polls, eep.handler e, e, shouldAbort (eep.handler e) rv⟩) :
    ∀ c ∈ (s.dispatch eep e rv).calls, P c := by
  intro c hc
  rcases List.mem_append.mp hc with hc | hc
  · exact h c hc
  · rw [List.mem_singleton.mp hc]
    exact hnew

/-- **Step lemma of the poll.** -/
theorem Inv.next (hi : Inv eep mem0 count0 D s) {rv : Bool} (h : s.next eep rv = some s') :
    ∃ D', Inv eep mem0 count0 D' s' := by
  have hst := hi.stands
  have hcalled := hi.called
  have hcount := hi.count
  have hroom := hi.room
  have hring := hi.ring
  have hle := hi.cleared_le
  have hsize := eep.eight_le
  unfold At at hst
  cases next_cases h with
  | @readOne count ev hpc hlt hpres =>
    rw [hpc] at hst hcalled hcount hroom hring
    change count = _ at hcount
    have hbatch := batch_le count0.toNat D
    rw [hcount] at hlt hpres ⊢
    rw [eep.slot_batch hlt] at hpres ⊢
    have hmem := hring.get (show _ ≤ D + ev.length by simp [Pc.erased]) (by simp only [Pc.erased]; omega)
    rw [hmem] at hpres ⊢
    have hnext := (present_getD hi.present).mp hpres
    refine ⟨D, hcalled, rfl, hi.wptr, hi.order, hi.handlers, hi.present, hroom, hring, hi.others,
      hi.atPoll, ?_, by simp; omega⟩
    refine prefix_snoc hst.1 ?_
    rw [List.getElem?_drop, List.getElem?_eq_getElem hnext, List.getD_eq_getElem _ _ hnext]
  | @readEnd count ev hpc hend =>
    rw [hpc] at hst hcalled hcount hroom hring
    change count = _ at hcount
    have hbatch := batch_le count0.toNat D
    refine ⟨D, hcalled, hcount, hi.wptr, hi.order, hi.handlers, hi.present, hroom, hring,
      hi.others, hi.atPoll, hst.1, hst.2, Nat.zero_le _, fun hlt => ?_⟩
    -- the batch is cut short only by a slot without an event
    have hmem := hring.get (show _ ≤ D + ev.length by simp [Pc.erased])
      (by rw [hcount] at hlt; simp only [Pc.erased]; omega)
    have hpres : ¬ Ev.present (s.mem (eep.slot count + ev.length)) = true := fun h => hend ⟨hlt, h⟩
    rw [hcount] at hlt hpres
    rw [eep.slot_batch hlt, hmem, present_getD hi.present] at hpres
    have hatp := hi.atPoll
    change s.atPoll ≤ D + ev.length
    omega
  | @abort count ev index e hpc he ha =>
    have hev := hi.event hpc he
    rw [hpc] at hst hcalled hcount hroom hring
    obtain ⟨hlt, -⟩ := List.getElem?_eq_some_iff.mp he
    refine ⟨D, ?_, hcount, hi.wptr, ?_, calls_dispatch hi.handlers rfl, hi.present, hroom, hring, hi.others,
      hi.atPoll, ?_, Nat.zero_le _, ?_⟩
    · rw [dispatch, List.length_append, hcalled]
      rfl
    · rw [events, dispatch, List.map_append]
      exact hev
    · have := hst.2.1
      omega
    · intro _ hna
      exact absurd ⟨_, List.mem_append_right _ (List.mem_singleton_self _), rfl, ha⟩ hna
  | @call count ev index e hpc he ha =>
    have hev := hi.event hpc he
    rw [hpc] at hst hcalled hcount hroom hring
    obtain ⟨hlt, -⟩ := List.getElem?_eq_some_iff.mp he
    refine ⟨D, ?_, hcount, hi.wptr, ?_, calls_dispatch hi.handlers rfl, hi.present, hroom, hring, hi.others,
      hi.atPoll, hst.1, hst.2.1, hlt, hst.2.2.2⟩
    · rw [dispatch, List.length_append, hcalled]
      rfl
    · rw [events, dispatch, List.map_append]
      exact hev
  | @callEnd count ev index hpc hend =>
    rw [hpc] at hst hcalled hcount hroom hring
    change _ = D + index at hcalled
    have hindex : index = ev.length := Nat.le_antisymm hst.2.2.1 hend
    refine ⟨D, hcalled.trans (by rw [hindex]; rfl), hcount, hi.wptr, hi.order, hi.handlers,
      hi.present, hroom, hring, hi.others, hi.atPoll, hst.2.1, Nat.zero_le _, fun hlt _ => ?_⟩
    have hfound := hst.2.2.2 hlt
    change s.atPoll ≤ s.calls.length
    omega
  | @clearOne count total index hpc hlt =>
    rw [hpc] at hst hcalled hcount hroom hring
    change count = _ at hcount
    have hslot : eep.slot count + index = (count0.toNat + (D + index)) % eep.size := by
      rw [hcount]
      refine eep.slot_batch (Nat.lt_of_lt_of_le hlt ?_)
      rw [← hcount]
      exact hst.1
    have hin : (count0.toNat + (D + index)) % eep.size < eep.size := Nat.mod_lt _ (by omega)
    change s.written.length ≤ D + index + eep.size at hroom
    refine ⟨D, hcalled, hcount, hi.wptr, hi.order, hi.handlers, hi.present, ?_, ?_, fun i hige => ?_,
      hi.atPoll, hst.1, hlt, hst.2.2⟩
    · change s.written.length ≤ D + (index + 1) + eep.size
      omega
    · rw [hslot]
      exact hring.clear hroom
    · dsimp only
      rw [hslot, Function.update_of_ne (by omega), hi.others i hige]
  | @again count total index hpc hend hbatch =>
    rw [hpc] at hst hcalled hcount hroom hring
    change count = _ at hcount
    have hindex : index = total := Nat.le_antisymm hst.2.1 hend
    rw [hindex] at hroom hring
    have hnext : count + BitVec.ofNat 32 total = idx 32 count0.toNat (D + total) := by rw [hcount, idx_add]
    exact ⟨D + total, hcalled, hnext, hi.wptr, hi.order, hi.handlers, hi.present, hroom, hring,
      hi.others, hi.atPoll, List.nil_prefix, Nat.zero_le _⟩
  | @done count total index hpc hend hbatch =>
    rw [hpc] at hst hcalled hcount hroom hring
    change count = _ at hcount
    have hindex : index = total := Nat.le_antisymm hst.2.1 hend
    rw [hindex] at hroom hring
    have hnext : count + BitVec.ofNat 32 total = idx 32 count0.toNat (D + total) := by rw [hcount, idx_add]
    exact ⟨D + total, hcalled, hnext, hi.wptr, hi.order, hi.handlers, hi.present, hroom, hring,
      hi.others, hi.atPoll, hst.2.2 (Nat.lt_of_le_of_ne hst.1 hbatch)⟩

/-- **Step lemma.** -/
theorem Inv.step {o : Op} (hi : Inv eep mem0 count0 D s) (h : step eep o s = some s') :
    ∃ D', Inv eep mem0 count0 D' s' := by
  cases o with
  | write ev => exact ⟨D, hi.write h⟩
  | poll => exact ⟨D, hi.poll h⟩
  | step rv => exact hi.next h

/-! ### Delivery -/

/-- The slots of the events that wait, between polls. -/
theorem Inv.delivers (hi : Inv eep mem0 count0 D s) : s.Delivers eep mem0 count0 := by
  have hidle : s.pc = .idle → s.countp = idx 32 count0.toNat s.calls.length ∧
      s.written.length ≤ s.calls.length + eep.size ∧
      Holds eep.size count0.toNat s.calls.length s.mem s.written := by
    intro hpc
    have hcalled := hi.called
    have hcount := hi.count
    have hroom := hi.room
    have hring := hi.ring
    rw [hpc] at hcalled hcount hroom hring
    rw [hcalled]
    exact ⟨hcount, hroom, hring⟩
  refine ⟨hi.order, hi.handlers, fun hpc => ?_, fun hpc i ev => ?_, fun hpc i hlt hnone => ?_, hi.others,
    fun hpc hna => ?_⟩
  · rw [add_ofNat]
    exact (hidle hpc).1
  · rintro ⟨j, hj, hev, rfl⟩
    obtain ⟨-, hroom, hring⟩ := hidle hpc
    obtain ⟨hjlt, hget⟩ := List.getElem?_eq_some_iff.mp hev
    rw [add_ofNat, eep.slot_idx, hring.get hj (by omega), List.getD_eq_getElem _ _ hjlt, hget]
  · obtain ⟨-, -, hring⟩ := hidle hpc
    obtain ⟨j, hj1, hj2, rfl⟩ := mod_surj count0.toNat hlt s.calls.length
    rw [hring.get hj1 hj2]
    refine getD_of_le (Nat.not_lt.mp fun hjlt => ?_)
    refine hnone s.written[j] ⟨j, hj1, List.getElem?_eq_getElem hjlt, ?_⟩
    rw [add_ofNat, eep.slot_idx]
  · have hst := hi.stands
    unfold At at hst
    rw [hpc] at hst
    exact hst hna

/-! ### Aborts -/

instance : Decidable (s.Resumes eep) :=
  match h : s.pc with
  | .read count [] =>
    decidable_of_iff (s.Aborted ∧ present (s.mem (eep.slot count)) = true) (by simp [Resumes, h])
  | .read _ (_ :: _) | .idle | .process .. | .clear .. => isFalse (by simp [Resumes, h])

/-- Polls that do not go on after an abort. -/
def Obeys (eep : Evq) (o : Op) (s : Sys) : Prop :=
  match o with
  | .step _ => ¬ s.Resumes eep
  | _ => True

instance : ∀ o s, Decidable (Obeys eep o s)
  | .step _, s => inferInstanceAs (Decidable (¬ s.Resumes eep))
  | .write _, _ | .poll, _ => inferInstanceAs (Decidable True)

/-- An aborted poll has read no event since. -/
def Quiet (s : Sys) : Prop :=
  s.Stops ∧ match s.pc with
  | .read _ ev | .process _ ev _ => s.Aborted → ev = []
  | _ => True

/-- An aborted poll has an event to dispatch, or has dispatched it. -/
def Doomed (s : Sys) : Prop :=
  ¬ s.Stops ∨ s.Aborted ∧ match s.pc with
  | .read _ ev => ev ≠ []
  | .process _ ev index => index < ev.length
  | _ => False

/-- A call keeps the rule exactly when the poll has not been aborted. -/
theorem stops_dispatch {e : Qword} {rv : Bool} :
    (s.dispatch eep e rv).Stops ↔ s.Stops ∧ ¬ s.Aborted := by
  unfold Stops Aborted dispatch
  rw [List.pairwise_append]
  constructor
  · rintro ⟨h1, -, h2⟩
    refine ⟨h1, ?_⟩
    rintro ⟨c, hc, hp, ha⟩
    rw [h2 c hc _ (List.mem_singleton_self _) hp] at ha
    cases ha
  · rintro ⟨h1, h2⟩
    refine ⟨h1, List.pairwise_singleton _ _, fun c hc d hd hp => ?_⟩
    rw [List.mem_singleton.mp hd] at hp
    exact Bool.eq_false_iff.mpr fun ha => h2 ⟨c, hc, hp, ha⟩

theorem Aborted.dispatch {e : Qword} {rv : Bool} {pc : Pc}
    (h : ({ s.dispatch eep e rv with pc := pc } : Sys).Aborted) :
    s.Aborted ∨ shouldAbort (eep.handler e) rv = true := by
  obtain ⟨c, hc, hp, ha⟩ := h
  rcases List.mem_append.mp hc with hc | hc
  · exact Or.inl ⟨c, hc, hp, ha⟩
  · rw [List.mem_singleton.mp hc] at ha
    exact Or.inr ha

/-- An aborted poll that obeys is past its calls. -/
theorem Quiet.not_aborted (hq : s.Quiet) {count : U32} {ev : List Qword} {index : ℕ} {e : Qword}
    (hpc : s.pc = .process count ev index) (he : ev[index]? = some e) : ¬ s.Aborted := by
  intro ha
  have hev := hq.2
  rw [hpc] at hev
  rw [hev ha] at he
  cases he

/-- **Step lemma.**  Steps that obey keep an aborted poll from reading on. -/
theorem Quiet.step {o : Op} (hq : s.Quiet) (ho : Obeys eep o s)
    (h : step eep o s = some s') : s'.Quiet := by
  cases o with
  | write ev =>
    obtain ⟨-, h⟩ := Option.ite_none_right_eq_some.mp h
    cases h
    exact hq
  | poll =>
    change s.poll = _ at h
    unfold Sys.poll at h
    split at h
    · cases h
      refine ⟨hq.1, fun _ => rfl⟩
    · cases h
  | step rv =>
    have hloc := hq.2
    cases next_cases h with
    | @readOne count ev hpc hlt hpres =>
      rw [hpc] at hloc
      have hna : ¬ s.Aborted := by
        intro ha
        have hev := hloc ha
        subst hev
        refine ho ?_
        unfold Resumes
        rw [hpc]
        exact ⟨ha, hpres⟩
      exact ⟨hq.1, fun ha => absurd ha hna⟩
    | @readEnd count ev hpc hend =>
      rw [hpc] at hloc
      exact ⟨hq.1, hloc⟩
    | abort hpc he ha => exact ⟨stops_dispatch.mpr ⟨hq.1, hq.not_aborted hpc he⟩, trivial⟩
    | call hpc he ha =>
      have hna := hq.not_aborted hpc he
      refine ⟨stops_dispatch.mpr ⟨hq.1, hna⟩, fun hab => ?_⟩
      rcases hab.dispatch with h | h
      · exact absurd h hna
      · rw [ha] at h
        cases h
    | callEnd | clearOne | done => exact ⟨hq.1, trivial⟩
    | again => exact ⟨hq.1, fun _ => rfl⟩

/-- A poll that has read an event after an abort dispatches it. -/
theorem Doomed.step {o : Op} (hd : s.Doomed) (h : step eep o s = some s') : s'.Doomed := by
  cases o with
  | write ev =>
    obtain ⟨-, h⟩ := Option.ite_none_right_eq_some.mp h
    cases h
    exact hd
  | poll =>
    change s.poll = _ at h
    unfold Sys.poll at h
    split at h
    · rename_i hpc
      cases h
      rcases hd with hd | ⟨-, hd⟩
      · exact Or.inl hd
      · rw [hpc] at hd
        cases hd
    · cases h
  | step rv =>
    rcases hd with hd | ⟨ha, hd⟩
    · left
      cases next_cases h with
      | abort | call => exact fun hs => hd (stops_dispatch.mp hs).1
      | _ => exact hd
    · cases next_cases h with
      | readOne hpc => exact Or.inr ⟨ha, by simp⟩
      | readEnd hpc =>
        rw [hpc] at hd
        exact Or.inr ⟨ha, List.length_pos_iff.mpr hd⟩
      | abort | call => exact Or.inl fun hs => (stops_dispatch.mp hs).2 ha
      | callEnd hpc hend =>
        rw [hpc] at hd
        exact absurd hd (Nat.not_lt.mpr hend)
      | clearOne hpc | again hpc | done hpc =>
        rw [hpc] at hd
        cases hd

/-- The first step that does not obey reads an event after an abort. -/
theorem doomed_of_resumes {o : Op} (ho : ¬ Obeys eep o s) (h : step eep o s = some s') : s'.Doomed := by
  cases o with
  | write | poll => exact absurd trivial ho
  | step rv =>
    have hres : s.Resumes eep := Decidable.not_not.mp ho
    unfold Resumes at hres
    split at hres
    · rename_i count hpc
      cases next_cases h with
      | readOne hpc' => exact Or.inr ⟨hres.1, by simp⟩
      | readEnd hpc' hend =>
        cases hpc.symm.trans hpc'
        exact absurd ⟨batch_pos count, hres.2⟩ hend
      | abort hpc' | call hpc' | callEnd hpc' | clearOne hpc' | again hpc' | done hpc' =>
        cases hpc.symm.trans hpc'
    · cases hres

theorem quiet_init : (init eep mem0 count0).Quiet := ⟨List.Pairwise.nil, trivial⟩

theorem Doomed.not_stops (hd : s.Doomed) (hpc : s.pc = .idle) : ¬ s.Stops := by
  rcases hd with hd | ⟨-, hd⟩
  · exact hd
  · rw [hpc] at hd
    cases hd

/-- **Polling an event queue.**  Whatever the handlers ask for and whenever the hardware writes, the
events are delivered once each, in order, and their slots cleared.  No event is dispatched after an abort
in the same poll exactly when no aborted poll has come to a next batch with an event in it. -/
theorem qpoll_delivers (eep : Evq) (mem0 : ℕ → Qword) (count0 : U32) (os : List Op) (s : Sys)
    (h : runOps (step eep) os (init eep mem0 count0) = some s) :
    s.Delivers eep mem0 count0 ∧
    (runOps (guarded (step eep) (Obeys eep)) os (init eep mem0 count0) = some s → s.Stops) ∧
    (s.pc = .idle →
      (s.Stops ↔ runOps (guarded (step eep) (Obeys eep)) os (init eep mem0 count0) = some s)) := by
  have hinv : ∃ D, Inv eep mem0 count0 D s :=
    runOps_inv (fun s => ∃ D, Inv eep mem0 count0 D s) (fun _ _ _ ⟨_, hi⟩ hs => hi.step hs)
      ⟨0, inv_init⟩ h
  obtain ⟨D, hi⟩ := hinv
  have hstops : runOps (guarded (step eep) (Obeys eep)) os (init eep mem0 count0) = some s → s.Stops := by
    intro hg
    refine (runOps_inv Quiet (fun o s s' hq hs => ?_) quiet_init hg).1
    obtain ⟨hC, hs⟩ := guarded_inv hs
    exact hq.step hC hs
  refine ⟨hi.delivers, hstops, fun hpc => ⟨fun hs => ?_, hstops⟩⟩
  have hor := runOps_guarded_or Doomed (fun _ _ _ => doomed_of_resumes) (fun _ _ _ => Doomed.step) h
  exact hor.resolve_right fun hd => hd.not_stops hpc hs

/-! ### A poll of nine events -/

/-- A queue of 512 events. -/
def queue512 : Evq := ⟨9, true, by omega, by omega⟩

/-- Nine receive events arrive and are polled for `n` steps; the handler called in step `k` asks to abort
the poll. -/
def nineEvents (k n : ℕ) : List Op :=
  List.replicate 9 (.write ⟨0, 0⟩) ++ .poll :: (List.range n).map fun i => .step (i = k)

/-- An empty queue. -/
def empty512 : Sys := init queue512 (fun _ => Qword.ones) 0

/-- The handler that asks to abort at the eighth event, the last of a batch, is called for the ninth. -/
theorem abort_ignored : ∃ s,
    runOps (step queue512) (nineEvents 16 32) empty512 = some s ∧ s.pc = .idle ∧ ¬ s.Stops :=
  exists_of_any (by decide)

/-- An abort at the fourth event leaves five. -/
theorem abort_fourth : ∃ s,
    runOps (step queue512) (nineEvents 12 18) empty512 = some s ∧ (s.pc = .idle ∧ s.calls.length = 4) ∧
    s.Delivers queue512 (fun _ => Qword.ones) 0 ∧ s.Stops := by
  have hrun : ∃ s, runOps (guarded (step queue512) (Obeys queue512)) (nineEvents 12 18) empty512 = some s ∧
      s.pc = .idle ∧ s.calls.length = 4 := exists_of_any (by decide)
  obtain ⟨s, hs, hpc, hlen⟩ := hrun
  have h := qpoll_delivers queue512 (fun _ => Qword.ones) 0 (nineEvents 12 18) s (runOps_guarded hs)
  exact ⟨s, runOps_guarded hs, ⟨hpc, hlen⟩, h.1, (h.2.2 hpc).mpr hs⟩

end Sys

end Sfxge.Ev
