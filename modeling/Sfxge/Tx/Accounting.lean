import Mathlib.Data.List.Nodup
import Mathlib.Data.List.Perm.Basic
import Sfxge.Tx.Counters

/-!
# Tx.Accounting — which message is freed when

The ledger of a run numbers the descriptors as they are posted and completed and notes for each packet
its last descriptor.  `Booked` ties the ledger to the completion information in the slots of the ring;
from it, a mapped packet is freed once, when its last descriptor is completed.
-/

namespace Sfxge.Tx

open Errno TxqState Txq Lib

/-- A packet that has been posted; its last descriptor is number `stop - 1`. -/
structure Sent where
  mp : Mblk
  mapped : Bool
  stop : ℕ
  deriving Repr, DecidableEq

/-- A mapped packet is held until its descriptors are completed. -/
def Sent.Held (D : ℕ) (h : Sent) : Prop := h.mapped = true ∧ D < h.stop

instance (D : ℕ) (h : Sent) : Decidable (h.Held D) := inferInstanceAs (Decidable (_ ∧ _))

theorem Sent.held_succ {D : ℕ} {h : Sent} (hno : h.mapped = true → h.stop ≠ D + 1) :
    h.Held (D + 1) ↔ h.Held D := by
  refine and_congr_right fun hm => ?_
  have := hno hm
  omega

/-! ### The slots -/

/-- A slot without completion information. -/
def Txq.Clear (stp : Txq) (id : Fin SFXGE_TX_NDESCS) : Prop :=
  stp.stStmp id = [] ∧ stp.stStbp id = [] ∧ stp.stMp id = none

/-- The completion information of the descriptors posted, of which those below `R` have been reaped and
those below `D` completed. -/
structure Slots (stp : Txq) (b R D A : ℕ) (sent : List Sent) : Prop where
  live : ∀ h ∈ sent, h.Held D →
    stp.stMp (slot (idx b (h.stop - 1))) = some h.mp ∧ stp.stStmp (slot (idx b (h.stop - 1))) ≠ []
  plain : ∀ j, D ≤ j → j < A → (∀ h ∈ sent, h.mapped = true → h.stop ≠ j + 1) →
    stp.stStmp (slot (idx b j)) = [] ∧ stp.stMp (slot (idx b j)) = none
  past : ∀ j, R ≤ j → j < D → stp.stMp (slot (idx b j)) = none
  free : ∀ j, A < j → j < R + 1024 → stp.Clear (slot (idx b j))

/-- The messages of `sent` that have been freed when `D` descriptors are completed. -/
def freedBy (D : ℕ) (sent : List Sent) : List Mblk := (sent.filter fun h => ¬ h.Held D).map Sent.mp

variable {stp : Txq} {b R D A : ℕ} {sent : List Sent}

theorem freedBy_all (h : ∀ h ∈ sent, h.stop ≤ D) : freedBy D sent = sent.map Sent.mp := by
  rw [freedBy, List.filter_eq_self.mpr]
  intro x hx
  have := h x hx
  simp only [Sent.Held, decide_eq_true_eq, not_and, not_lt]
  exact fun _ => this

/-- The packet that ends in descriptor `D` joins the freed ones, and no other. -/
theorem freedBy_succ_of_mem (hmono : sent.Pairwise fun h h' => h.stop < h'.stop) {h : Sent}
    (hmem : h ∈ sent) (hmap : h.mapped = true) (hstop : h.stop = D + 1) :
    (freedBy (D + 1) sent).Perm (h.mp :: freedBy D sent) := by
  obtain ⟨as, bs, rfl⟩ := List.append_of_mem hmem
  obtain ⟨-, hbs, hab⟩ := List.pairwise_append.mp hmono
  have hsame : ∀ x ∈ as ++ bs, decide (¬ x.Held (D + 1)) = decide (¬ x.Held D) := by
    intro x hx
    have hne : x.stop ≠ D + 1 := by
      rcases List.mem_append.mp hx with hx | hx
      · have := hab x hx h (by simp)
        omega
      · have := (List.pairwise_cons.mp hbs).1 x hx
        omega
    exact decide_eq_decide.mpr (not_congr (Sent.held_succ fun _ => hne))
  have hold : h.Held D := ⟨hmap, by omega⟩
  have hnew : ¬ h.Held (D + 1) := fun hh => by have := hh.2; omega
  simp only [freedBy, List.filter_append, List.map_append, List.filter_cons, hold, hnew, not_true,
    not_false_eq_true, decide_true, decide_false, if_true, Bool.false_eq_true, if_false, List.map_cons]
  rw [List.filter_congr fun x hx => hsame x (List.mem_append_left _ hx),
    List.filter_congr fun x hx => hsame x (List.mem_append_right _ hx)]
  exact List.perm_middle

theorem freedBy_succ (hno : ∀ h ∈ sent, h.mapped = true → h.stop ≠ D + 1) :
    freedBy (D + 1) sent = freedBy D sent := by
  rw [freedBy, freedBy, List.filter_congr]
  intro x hx
  exact decide_eq_decide.mpr (not_congr (Sent.held_succ (hno x hx)))

/-- What completing a descriptor does to the other slots. -/
theorem completeOne_of_ne (stp : Txq) {c : U32} {id : Fin SFXGE_TX_NDESCS} (hne : id ≠ slot c) :
    (stp.completeOne c).stStmp id = stp.stStmp id ∧ (stp.completeOne c).stStbp id = stp.stStbp id ∧
      (stp.completeOne c).stMp id = stp.stMp id := by
  unfold completeOne
  dsimp only
  split_ifs
  · exact ⟨rfl, rfl, rfl⟩
  · exact ⟨Function.update_of_ne hne _ _, rfl, Function.update_of_ne hne _ _⟩

/-- **Completion.**  The next descriptor is completed; a mapped packet that ends there is freed. -/
theorem Slots.completeOne (hs : Slots stp b R D A sent) (hR : R ≤ D) (hD : D < A) (hA : A ≤ R + 1008)
    (hmono : sent.Pairwise fun h h' => h.stop < h'.stop) (hstop : ∀ h ∈ sent, h.stop ≤ A)
    {rest : List Mblk} (hf : stp.freed.Perm (freedBy D sent ++ rest)) :
    Slots (stp.completeOne (idx b D)) b R (D + 1) A sent ∧
      (stp.completeOne (idx b D)).freed.Perm (freedBy (D + 1) sent ++ rest) := by
  have hother : ∀ j, R ≤ j → j < R + 1024 → j ≠ D → slot (idx b j) ≠ slot (idx b D) :=
    fun j h1 h2 hne => slot_ne hne (by omega) (by omega)
  have hmp : (stp.completeOne (idx b D)).stMp (slot (idx b D)) = none ∧
      (stp.completeOne (idx b D)).freed.Perm (freedBy (D + 1) sent ++ rest) := by
    by_cases hex : ∃ h ∈ sent, h.mapped = true ∧ h.stop = D + 1
    · obtain ⟨h, hmem, hmap, hst⟩ := hex
      obtain ⟨h1, h2⟩ := hs.live h hmem ⟨hmap, by omega⟩
      rw [hst, Nat.add_sub_cancel] at h1 h2
      rw [Txq.completeOne]
      dsimp only
      rw [if_neg h2, h1]
      refine ⟨Function.update_self .., ?_⟩
      refine List.Perm.trans ?_ ((freedBy_succ_of_mem hmono hmem hmap hst).symm.append_right rest)
      exact (List.perm_append_singleton h.mp stp.freed).trans (hf.cons h.mp)
    · have hno : ∀ h ∈ sent, h.mapped = true → h.stop ≠ D + 1 :=
        fun h hmem hmap hst => hex ⟨h, hmem, hmap, hst⟩
      obtain ⟨h1, h2⟩ := hs.plain D le_rfl hD hno
      rw [Txq.completeOne]
      dsimp only
      rw [if_pos h1, freedBy_succ hno]
      exact ⟨h2, hf⟩
  refine ⟨⟨?_, ?_, ?_, ?_⟩, hmp.2⟩
  · intro h hmem hheld
    have hle := hstop h hmem
    obtain ⟨hmap, hlt⟩ := hheld
    obtain ⟨e1, -, e3⟩ := completeOne_of_ne stp (hother (h.stop - 1) (by omega) (by omega) (by omega))
    rw [e1, e3]
    exact hs.live h hmem ⟨hmap, by omega⟩
  · intro j h1 h2 hno
    obtain ⟨e1, -, e3⟩ := completeOne_of_ne stp (hother j (by omega) (by omega) (by omega))
    rw [e1, e3]
    exact hs.plain j (by omega) h2 hno
  · intro j h1 h2
    by_cases hj : j = D
    · rw [hj]
      exact hmp.1
    · rw [(completeOne_of_ne stp (hother j h1 (by omega) hj)).2.2]
      exact hs.past j h1 (by omega)
  · intro j h1 h2
    obtain ⟨e1, e2, e3⟩ := completeOne_of_ne stp (hother j (by omega) h2 (by omega))
    rw [Clear, e1, e2, e3]
    exact hs.free j h1 h2

/-- **Reaping.**  The slots of completed descriptors are free again. -/
theorem Slots.reap (hs : Slots stp b R D A sent) {C : ℕ} (hR : R ≤ C) (hC : C ≤ D) (hA : A ≤ R + 1008)
    (hstop : ∀ h ∈ sent, h.stop ≤ A) {stp' : Txq}
    (hstmp : stp'.stStmp = fun id => if id ∈ slotsFrom (idx b R) (C - R) then [] else stp.stStmp id)
    (hstbp : stp'.stStbp = fun id => if id ∈ slotsFrom (idx b R) (C - R) then [] else stp.stStbp id)
    (hmp : stp'.stMp = stp.stMp) : Slots stp' b C D A sent := by
  have hkeep : ∀ j, C ≤ j → j < R + 1024 → slot (idx b j) ∉ slotsFrom (idx b R) (C - R) := by
    intro j h1 h2 hmem
    obtain ⟨i, hi, he⟩ := mem_slotsFrom.mp hmem
    exact slot_ne (by omega) (by omega) (by omega) he
  refine ⟨?_, ?_, ?_, ?_⟩
  · intro h hmem hheld
    have h1 := hheld.2
    have h2 := hstop h hmem
    rw [hstmp, hmp]
    dsimp only
    rw [if_neg (hkeep _ (by omega) (by omega))]
    exact hs.live h hmem hheld
  · intro j h1 h2 hno
    rw [hstmp, hmp]
    dsimp only
    rw [if_neg (hkeep j (by omega) (by omega))]
    exact hs.plain j h1 h2 hno
  · intro j h1 h2
    rw [hmp]
    exact hs.past j (by omega) h2
  · intro j h1 h2
    rw [Clear, hstmp, hstbp, hmp]
    by_cases hj : j < R + 1024
    · obtain ⟨e1, e2, e3⟩ := hs.free j h1 hj
      exact ⟨ite_eq_left_iff.mpr fun _ => e1, ite_eq_left_iff.mpr fun _ => e2, e3⟩
    · -- the slot is the one of a descriptor that is reaped now
      have hslot : slot (idx b j) = slot (idx b (j - 1024)) := by
        rw [slot_eq_iff]
        omega
      have hmem : slot (idx b j) ∈ slotsFrom (idx b R) (C - R) :=
        mem_slotsFrom.mpr ⟨j - 1024 - R, by omega, by rw [hslot, Nat.add_sub_cancel' (by omega)]⟩
      dsimp only
      rw [if_pos hmem, if_pos hmem, hslot]
      exact ⟨rfl, rfl, hs.past (j - 1024) (by omega) (by omega)⟩

/-! ### The fragment list -/

/-- Aborting an empty list changes nothing. -/
theorem abort_clear (hn : stp.stN = 0) (hc : stp.Clear (slot stp.stAdded)) : stp.qlistAbort = stp := by
  obtain ⟨h1, h2, h3⟩ := hc
  have e1 : Function.update stp.stStmp (slot stp.stAdded) [] = stp.stStmp := by
    rw [← h1, Function.update_eq_self]
  have e2 : Function.update stp.stStbp (slot stp.stAdded) [] = stp.stStbp := by
    rw [← h2, Function.update_eq_self]
  have e3 : Function.update stp.stMp (slot stp.stAdded) none = stp.stMp := by
    rw [← h3, Function.update_eq_self]
  rw [qlistAbort]
  dsimp only [setInfo, freemsg]
  rw [e1, e2, e3, h3, Option.toList_none, List.append_nil, ← hn]

/-- A failed fragmentation is undone by aborting the list. -/
theorem abort_fragment {f : Fragments} {mp : Mblk} (hrc : f.rc ≠ none) (hn : stp.stN = 0)
    (hc : stp.Clear (slot stp.stAdded)) : (stp.fragment f mp).qlistAbort = stp := by
  refine Eq.trans ?_ (abort_clear hn hc)
  obtain ⟨rc, hrc⟩ := Option.ne_none_iff_exists'.mp hrc
  rw [fragment, hrc]
  dsimp only [qlistAbort, setInfo, freemsg]
  rw [Function.update_idem, Function.update_idem, Function.update_idem, Function.update_self]

/-- A packet is fragmented, or it is freed and nothing else changes. -/
theorem fragmentPacket_clear (f : Bool → Fragments) (mp : Mblk) (hn : stp.stN = 0)
    (hc : stp.Clear (slot stp.stAdded)) :
    (stp.stState = SFXGE_TXQ_STARTED ∧ ∃ copy, (f copy).rc = none ∧
      stp.fragmentPacket f mp = (stp.fragment (f copy) mp, true)) ∨
    stp.fragmentPacket f mp = (stp.freemsg (some mp), false) := by
  unfold fragmentPacket
  by_cases hst : stp.stState = SFXGE_TXQ_STARTED
  · rw [if_neg (by simp [hst])]
    split
    · next hrc => exact Or.inl ⟨hst, false, hrc, rfl⟩
    · next hrc =>
      rw [abort_fragment (by rw [hrc]; simp) hn hc]
      split
      · next hrc' => exact Or.inl ⟨hst, true, hrc', rfl⟩
      · next hrc' =>
        right
        rw [reject, abort_fragment (by rw [hrc']; simp) hn hc]
    · next hrc =>
      right
      rw [reject, abort_fragment (by rw [hrc]; simp) hn hc]
  · rw [if_pos hst, reject, abort_clear hn hc]
    exact Or.inr rfl

/-- What a fragmented packet leaves in the slot of the next descriptor. -/
theorem fragment_slot {f : Fragments} (mp : Mblk) (hrc : f.rc = none) (hc : stp.Clear (slot stp.stAdded)) :
    (stp.fragment f mp).stStmp (slot stp.stAdded) = f.stmp ∧
      (stp.fragment f mp).stMp (slot stp.stAdded) = (if f.stmp = [] then none else some mp) ∧
      (stp.fragment f mp).freed = stp.freed ++ (if f.stmp = [] then [mp] else []) ∧
      ∀ id ≠ slot stp.stAdded, (stp.fragment f mp).stStmp id = stp.stStmp id ∧
        (stp.fragment f mp).stStbp id = stp.stStbp id ∧ (stp.fragment f mp).stMp id = stp.stMp id := by
  obtain ⟨h1, h2, h3⟩ := hc
  have hself : Function.update stp.stStmp (slot stp.stAdded) (f.stmp ++ stp.stStmp (slot stp.stAdded))
      (slot stp.stAdded) = f.stmp := by
    rw [Function.update_self, h1, List.append_nil]
  unfold fragment
  rw [hrc]
  dsimp only
  split_ifs with hm hm' hm'
  · exact ⟨hself, (Function.update_self ..).trans h3, rfl, fun id hid =>
      ⟨Function.update_of_ne hid .., Function.update_of_ne hid .., Function.update_of_ne hid ..⟩⟩
  · exact absurd (hself.symm.trans hm) hm'
  · exact absurd (hself.trans hm') hm
  · exact ⟨hself, Function.update_self .., (List.append_nil _).symm, fun id hid =>
      ⟨Function.update_of_ne hid .., Function.update_of_ne hid ..,
        (Function.update_of_ne hid ..).trans (Function.update_of_ne hid ..)⟩⟩

/-- What posting leaves in the slots: the completion information is in that of the last descriptor. -/
theorem moveInfo_slot (stp : Txq) (id last : Fin SFXGE_TX_NDESCS) :
    ((stp.moveInfo id last).stStmp last = stp.stStmp id ∧ (stp.moveInfo id last).stMp last = stp.stMp id) ∧
      (last ≠ id → (stp.moveInfo id last).Clear id) ∧
      (∀ i, i ≠ id → i ≠ last → (stp.moveInfo id last).stStmp i = stp.stStmp i ∧
        (stp.moveInfo id last).stStbp i = stp.stStbp i ∧ (stp.moveInfo id last).stMp i = stp.stMp i) ∧
      (stp.moveInfo id last).freed = stp.freed := by
  unfold moveInfo
  split_ifs with h
  · dsimp only [setInfo]
    refine ⟨⟨Function.update_self .., Function.update_self ..⟩, fun _ => ⟨?_, ?_, ?_⟩, fun i h1 h2 => ?_, rfl⟩
    · dsimp only
      rw [Function.update_of_ne h.symm, Function.update_self]
    · dsimp only
      rw [Function.update_of_ne h.symm, Function.update_self]
    · dsimp only
      rw [Function.update_of_ne h.symm, Function.update_self]
    · rw [Function.update_of_ne h2, Function.update_of_ne h1, Function.update_of_ne h2,
        Function.update_of_ne h1, Function.update_of_ne h2, Function.update_of_ne h1]
      exact ⟨rfl, rfl, rfl⟩
  · rw [not_not] at h
    rw [h]
    exact ⟨⟨rfl, rfl⟩, fun h => absurd rfl h, fun i _ _ => ⟨rfl, rfl, rfl⟩, rfl⟩

/-! ### The ledger -/

/-- A ring with the packets it has been given: those posted since the queue was started, the one in the
fragment list (whether it is mapped), and those dropped or posted before. -/
structure Ledger where
  s : RingState
  nAdded : ℕ
  nDone : ℕ
  sent : List Sent
  waiting : Option (Mblk × Bool)
  closed : List Mblk

namespace Ledger

/-- All messages that the ring has been given. -/
def mblks (l : Ledger) : List Mblk :=
  l.sent.map Sent.mp ++ ((l.waiting.map Prod.fst).toList ++ l.closed)

/-- The messages that are not held for the hardware. -/
def due (l : Ledger) : List Mblk :=
  freedBy l.nDone l.sent ++ ((l.waiting.elim [] fun w => if w.2 then [] else [w.1]) ++ l.closed)

def init : Ledger := ⟨.init, 0, 0, [], none, []⟩

/-- A step of the ring, with the ledger brought up to date.  A message is given to the ring once. -/
def step (op : RingOp) (l : Ledger) : Option Ledger := (ringStep op l.s).bind fun s' => match op with
  | .packet mp _ =>
    if mp ∈ l.mblks then none
    else if s'.posting = none then some { l with s := s', closed := mp :: l.closed }
    else some { l with
      s := s', waiting := some (mp, decide (s'.stp.stStmp (slot s'.stp.stAdded) ≠ [])) }
  | .discard mp =>
    if mp ∈ l.mblks then none else some { l with s := s', closed := mp :: l.closed }
  | .post => match l.waiting with
    | some (mp, mapped) =>
      if l.s.posting = some .again ∧ s'.posting = none then
        some { l with
          s := s'
          nAdded := l.nAdded + l.s.stp.stN
          sent := l.sent ++ [⟨mp, mapped, l.nAdded + l.s.stp.stN⟩]
          waiting := none }
      else some { l with s := s' }
    | none => some { l with s := s' }
  | .complete =>
    some { l with
      s := s'
      nDone := if l.s.completing = none ∨ s'.completing = none then l.nDone else l.nDone + 1 }
  | .stop => some ⟨s', 0, 0, [], none, l.mblks⟩
  | _ => some { l with s := s' }

/-- The fragment list of a packet is not empty, as `sfxge_tx_qlist_post` asserts. -/
def NonEmpty : RingOp → Prop
  | .packet _ f => ∀ copy, (f copy).rc = none → 0 < (f copy).n
  | _ => True

def Step (l l' : Ledger) : Prop := ∃ op, NonEmpty op ∧ step op l = some l'

end Ledger

/-- The ring agrees with the ledger. -/
structure Booked (l : Ledger) (b R C P : ℕ) : Prop where
  counts : Counts l.s b l.nAdded R C l.nDone P
  slots : Slots l.s.stp b R l.nDone l.nAdded l.sent
  stops : ∀ h ∈ l.sent, 0 < h.stop ∧ h.stop ≤ l.nAdded
  mono : l.sent.Pairwise fun h h' => h.stop < h'.stop
  clear : l.waiting = none → l.s.stp.stN = 0 ∧ l.s.stp.Clear (slot (idx b l.nAdded))
  held : ∀ mp mapped, l.waiting = some (mp, mapped) → 0 < l.s.stp.stN ∧
    l.s.stp.stMp (slot (idx b l.nAdded)) = (if mapped then some mp else none) ∧
    (l.s.stp.stStmp (slot (idx b l.nAdded)) ≠ [] ↔ mapped = true)
  waits : l.waiting = none ↔ l.s.posting = none ∧ l.s.stp.stUnblock = none
  unblocked : ∀ pc, l.s.posting = some pc → pc ≠ .race → pc ≠ .unrace → l.s.stp.stUnblock = none
  blocked : l.s.posting = some .race → l.s.stp.stUnblock ≠ none
  stopped : l.s.stp.stState = SFXGE_TXQ_INITIALIZED → l.nAdded = 0 ∧ l.waiting = none
  nodup : l.mblks.Nodup
  freed : l.s.stp.freed.Perm l.due

theorem booked_init : Booked .init 0 0 0 0 where
  counts := counts_init
  slots := ⟨by simp [Ledger.init], fun _ _ _ _ => ⟨rfl, rfl⟩, fun _ _ _ => rfl, fun _ _ _ => ⟨rfl, rfl, rfl⟩⟩
  stops := by simp [Ledger.init]
  mono := List.Pairwise.nil
  clear _ := ⟨rfl, rfl, rfl, rfl⟩
  held := nofun
  waits := ⟨fun _ => ⟨rfl, rfl⟩, fun _ => rfl⟩
  unblocked := nofun
  blocked := nofun
  stopped _ := ⟨rfl, rfl⟩
  nodup := List.nodup_nil
  freed := List.Perm.nil

/-! ### Steps -/

/-- A change of the next descriptor's slot alone. -/
theorem Slots.next_only (hs : Slots stp b R D A sent) (hR : R ≤ D) (hD : D ≤ A) (hA : A ≤ R + 1008)
    (hstop : ∀ h ∈ sent, 0 < h.stop ∧ h.stop ≤ A) {stp' : Txq}
    (heq : ∀ id, id ≠ slot (idx b A) → stp'.stStmp id = stp.stStmp id ∧ stp'.stStbp id = stp.stStbp id ∧
      stp'.stMp id = stp.stMp id) : Slots stp' b R D A sent := by
  have hne : ∀ j, R ≤ j → j < R + 1024 → j ≠ A → slot (idx b j) ≠ slot (idx b A) :=
    fun j h1 h2 hne => slot_ne hne (by omega) (by omega)
  refine ⟨?_, ?_, ?_, ?_⟩
  · intro h hmem hheld
    obtain ⟨h1, h2⟩ := hstop h hmem
    have h3 := hheld.2
    obtain ⟨e1, -, e3⟩ := heq _ (hne (h.stop - 1) (by omega) (by omega) (by omega))
    rw [e1, e3]
    exact hs.live h hmem hheld
  · intro j h1 h2 hno
    obtain ⟨e1, -, e3⟩ := heq _ (hne j (by omega) (by omega) (by omega))
    rw [e1, e3]
    exact hs.plain j h1 h2 hno
  · intro j h1 h2
    rw [(heq _ (hne j h1 (by omega) (by omega))).2.2]
    exact hs.past j h1 h2
  · intro j h1 h2
    obtain ⟨e1, e2, e3⟩ := heq _ (hne j (by omega) h2 (by omega))
    rw [Clear, e1, e2, e3]
    exact hs.free j h1 h2

variable {l l' : Ledger} {C P : ℕ}

theorem booked_packet {mp : Mblk} {f : Bool → Fragments} (B : Booked l b R C P)
    (hf : Ledger.NonEmpty (.packet mp f)) (hs : Ledger.step (.packet mp f) l = some l') :
    Booked l' b R C P := by
  obtain ⟨s', hs', hl⟩ := Option.bind_eq_some_iff.mp hs
  rw [ringStep, Option.ite_none_right_eq_some] at hs'
  obtain ⟨hidle, ⟨⟩⟩ := hs'
  dsimp only at hl
  rw [Option.ite_none_left_eq_some] at hl
  obtain ⟨hfresh, hl⟩ := hl
  have hw : l.waiting = none := B.waits.mpr hidle
  obtain ⟨hn, hclear⟩ := B.clear hw
  have hadded := B.counts.added
  rw [← hadded] at hclear
  obtain ⟨o1, o2, o3, o4, o5⟩ := B.counts.order
  have hcounts := B.counts.of_frame (frame_fragmentPacket f mp l.s.stp) (stN_fragmentPacket f mp l.s.stp)
    (if (l.s.stp.fragmentPacket f mp).2 = true then some .again else none)
  have hframe := frame_fragmentPacket f mp l.s.stp
  simp only [Txq.frame, Prod.mk.injEq] at hframe
  obtain ⟨⟨ha, -⟩, hu, hst, -⟩ := hframe
  rcases fragmentPacket_clear f mp hn hclear with ⟨hstart, copy, hrc, he⟩ | he
  · -- the packet is in the fragment list
    rw [he] at hl hcounts ha hu hst
    cases hl
    obtain ⟨f1, f2, f3, f4⟩ := fragment_slot mp hrc hclear
    dsimp only at ha hu hst
    have hmapped : (decide ((l.s.stp.fragment (f copy) mp).stStmp
        (slot (l.s.stp.fragment (f copy) mp).stAdded) ≠ []) = true) ↔ (f copy).stmp ≠ [] := by
      rw [decide_eq_true_iff, ha, f1]
    refine ⟨hcounts, ?_, B.stops, B.mono, by simp, ?_, ?_, ?_, by simp, ?_, ?_, ?_⟩
    · refine B.slots.next_only (by omega) (by omega) o5 B.stops fun id hid => ?_
      rw [← hadded] at hid
      exact f4 id hid
    · intro mp' mapped hsome
      cases hsome
      rw [← hadded]
      dsimp only
      rw [stN_fragment, f1, f2]
      refine ⟨hf copy hrc, ?_, hmapped.symm⟩
      by_cases hm : (f copy).stmp = []
      · rw [if_pos hm, if_neg (by rw [hmapped]; exact not_not.mpr hm)]
      · rw [if_neg hm, if_pos (hmapped.mpr hm)]
    · simp
    · intro pc _ _ _
      exact hu.trans hidle.2
    · intro hinit
      rw [hst, hstart] at hinit
      cases hinit
    · have := B.nodup
      simp only [Ledger.mblks, hw, Option.map_none, Option.toList_none, List.nil_append] at this hfresh
      change (l.sent.map Sent.mp ++ mp :: l.closed).Nodup
      rw [List.perm_middle.nodup_iff]
      exact List.nodup_cons.mpr ⟨hfresh, this⟩
    · have hdue : l.due = freedBy l.nDone l.sent ++ l.closed := by rw [Ledger.due, hw]; rfl
      have := B.freed
      rw [hdue] at this
      simp only [Ledger.due, Option.elim_some]
      rw [f3]
      by_cases hm : (f copy).stmp = []
      · rw [if_pos hm, if_neg (by rw [hmapped]; exact not_not.mpr hm)]
        refine (List.perm_append_singleton _ _).trans ((this.cons mp).trans ?_)
        exact List.perm_middle.symm
      · rw [if_neg hm, if_pos (hmapped.mpr hm), List.append_nil]
        exact this
  · -- the packet is dropped
    rw [he] at hl hcounts
    cases hl
    refine ⟨hcounts, ?_, B.stops, B.mono, ?_, ?_, ?_, by simp, by simp, B.stopped, ?_, ?_⟩
    · exact ⟨B.slots.live, B.slots.plain, B.slots.past, B.slots.free⟩
    · exact fun _ => B.clear hw
    · intro mp' mapped hsome
      rw [hw] at hsome
      cases hsome
    · exact ⟨fun _ => ⟨rfl, hidle.2⟩, fun _ => hw⟩
    · have := B.nodup
      simp only [Ledger.mblks, hw, Option.map_none, Option.toList_none, List.nil_append] at this hfresh ⊢
      rw [List.perm_middle.nodup_iff]
      exact List.nodup_cons.mpr ⟨hfresh, this⟩
    · have := B.freed
      simp only [Ledger.due, hw, Option.elim_none, List.nil_append] at this ⊢
      refine (List.perm_append_singleton _ _).trans ((this.cons mp).trans ?_)
      exact List.perm_middle.symm

theorem booked_discard {mp : Mblk} (B : Booked l b R C P) (hs : Ledger.step (.discard mp) l = some l') :
    Booked l' b R C P := by
  obtain ⟨s', hs', hl⟩ := Option.bind_eq_some_iff.mp hs
  cases hs'
  dsimp only at hl
  rw [Option.ite_none_left_eq_some] at hl
  obtain ⟨hfresh, ⟨⟩⟩ := hl
  have hc := B.counts
  refine ⟨⟨hc.added, hc.reaped, hc.completed, hc.pending, hc.done, hc.idle, hc.order, hc.n_le⟩,
    ⟨B.slots.live, B.slots.plain, B.slots.past, B.slots.free⟩, B.stops, B.mono, B.clear, B.held, B.waits, B.unblocked,
    B.blocked, B.stopped, ?_, ?_⟩
  · have := B.nodup
    simp only [Ledger.mblks, ← List.append_assoc] at this hfresh ⊢
    rw [List.perm_middle.nodup_iff]
    exact List.nodup_cons.mpr ⟨hfresh, this⟩
  · have := B.freed
    simp only [Ledger.due, ← List.append_assoc] at this ⊢
    exact (List.perm_append_singleton _ _).trans ((this.cons mp).trans List.perm_middle.symm)

/-- A step with the packet still in the fragment list. -/
theorem Booked.wait (B : Booked l b R C P) (hw : l.waiting ≠ none) {s' : RingState} {R' : ℕ}
    (hc : Counts s' b l.nAdded R' C l.nDone P) (hs : Slots s'.stp b R' l.nDone l.nAdded l.sent)
    (hn : s'.stp.stN = l.s.stp.stN) (hst : s'.stp.stState = l.s.stp.stState)
    (hf : s'.stp.freed = l.s.stp.freed)
    (hslot : s'.stp.stMp (slot (idx b l.nAdded)) = l.s.stp.stMp (slot (idx b l.nAdded)) ∧
      s'.stp.stStmp (slot (idx b l.nAdded)) = l.s.stp.stStmp (slot (idx b l.nAdded)))
    (hwait : ¬ (s'.posting = none ∧ s'.stp.stUnblock = none))
    (hun : ∀ pc, s'.posting = some pc → pc ≠ .race → pc ≠ .unrace → s'.stp.stUnblock = none)
    (hbl : s'.posting = some .race → s'.stp.stUnblock ≠ none) :
    Booked { l with s := s' } b R' C P where
  counts := hc
  slots := hs
  stops := B.stops
  mono := B.mono
  clear h := absurd h hw
  held mp mapped hsome := by
    rw [hn, hslot.1, hslot.2]
    exact B.held mp mapped hsome
  waits := ⟨fun h => absurd h hw, fun h => absurd h hwait⟩
  unblocked := hun
  blocked := hbl
  stopped h := B.stopped (hst.symm.trans h)
  nodup := B.nodup
  freed := by
    rw [hf]
    exact B.freed

/-- The waiting packet is posted. -/
theorem booked_posted (B : Booked l b R C P) {mp : Mblk} {mapped : Bool}
    (hw : l.waiting = some (mp, mapped)) (hpc : l.s.posting = some .again)
    (hfit : l.nAdded - R + l.s.stp.stN ≤ 1008) :
    Booked { l with
      s := { l.s with stp := (l.s.stp.postStep .again).1, posting := none }
      nAdded := l.nAdded + l.s.stp.stN
      sent := l.sent ++ [⟨mp, mapped, l.nAdded + l.s.stp.stN⟩]
      waiting := none } b R C P := by
  obtain ⟨o1, o2, o3, o4, o5⟩ := B.counts.order
  obtain ⟨hpos, hmp, hstmp⟩ := B.held mp mapped hw
  have hpost := B.counts.post_again
  rw [if_pos hfit] at hpost
  rw [hpost]
  generalize hn : l.s.stp.stN = n at *
  have hlast : idx b (l.nAdded + n) - 1 = idx b (l.nAdded + n - 1) := by
    have := idx_pred b (l.nAdded + n - 1)
    rwa [Nat.sub_add_cancel (by omega)] at this
  have hf := frame_moveInfo (slot (idx b l.nAdded)) (slot (idx b (l.nAdded + n) - 1)) l.s.stp
  simp only [Txq.frame, Prod.mk.injEq] at hf
  obtain ⟨⟨-, fr, fp, fc⟩, fu, fs, -⟩ := hf
  obtain ⟨⟨m1, m2⟩, m3, m4, m5⟩ := moveInfo_slot l.s.stp (slot (idx b l.nAdded))
    (slot (idx b (l.nAdded + n) - 1))
  rw [hlast] at m1 m2 m3 m4 m5 fr fp fc fu fs ⊢
  generalize hstp' : l.s.stp.moveInfo (slot (idx b l.nAdded)) (slot (idx b (l.nAdded + n - 1))) = stp' at *
  have hne : ∀ j k, R ≤ j → j < R + 1024 → R ≤ k → k < R + 1024 → j ≠ k →
      slot (idx b j) ≠ slot (idx b k) := fun j k h1 h2 h3 h4 hjk => slot_ne hjk (by omega) (by omega)
  have hkeep : ∀ j, R ≤ j → j < R + 1024 → j ≠ l.nAdded → j ≠ l.nAdded + n - 1 →
      stp'.stStmp (slot (idx b j)) = l.s.stp.stStmp (slot (idx b j)) ∧
      stp'.stStbp (slot (idx b j)) = l.s.stp.stStbp (slot (idx b j)) ∧
      stp'.stMp (slot (idx b j)) = l.s.stp.stMp (slot (idx b j)) := fun j h1 h2 h3 h4 =>
    m4 _ (hne j _ h1 h2 (by omega) (by omega) h3) (hne j _ h1 h2 (by omega) (by omega) h4)
  have hfree : ∀ j, l.nAdded < j → j < R + 1024 → j ≠ l.nAdded + n - 1 → stp'.Clear (slot (idx b j)) := by
    intro j h1 h2 h3
    obtain ⟨e1, e2, e3⟩ := hkeep j (by omega) h2 (by omega) h3
    rw [Clear, e1, e2, e3]
    exact B.slots.free j h1 h2
  refine ⟨?_, ⟨?_, ?_, ?_, ?_⟩, ?_, ?_, ?_, by simp, ?_, by simp, by simp, ?_, ?_, ?_⟩
  · exact ⟨rfl, fr.trans B.counts.reaped, fc.trans B.counts.completed, fp.trans B.counts.pending,
      B.counts.done, B.counts.idle, ⟨o1, o2, o3, Nat.le_add_right_of_le o4,
        (by omega : l.nAdded + n ≤ R + 1008)⟩, Nat.zero_le _⟩
  · intro h hmem hheld
    rcases List.mem_append.mp hmem with hmem | hmem
    · obtain ⟨h1, h2⟩ := B.stops h hmem
      have h3 : l.nDone < h.stop := hheld.2
      obtain ⟨e1, -, e3⟩ := hkeep (h.stop - 1) (by omega) (by omega) (by omega) (by omega)
      dsimp only
      rw [e1, e3]
      exact B.slots.live h hmem hheld
    · rw [List.mem_singleton] at hmem
      subst hmem
      have hm : mapped = true := hheld.1
      dsimp only
      rw [m1, m2, hmp, if_pos hm]
      exact ⟨rfl, hstmp.mpr hm⟩
  · intro j h1 h2 hno
    dsimp only at h1 h2 ⊢
    by_cases hjA : j < l.nAdded
    · obtain ⟨e1, -, e3⟩ := hkeep j (by omega) (by omega) (by omega) (by omega)
      rw [e1, e3]
      exact B.slots.plain j h1 hjA fun h hmem => hno h (List.mem_append_left _ hmem)
    · by_cases hjl : j = l.nAdded + n - 1
      · have hm : ¬ mapped = true := fun hm =>
          hno ⟨mp, mapped, l.nAdded + n⟩ (by simp) hm (by dsimp only; omega)
        rw [hjl, m1, m2, hmp, if_neg hm]
        exact ⟨not_not.mp (mt hstmp.mp hm), rfl⟩
      · have hclear : stp'.Clear (slot (idx b j)) := by
          by_cases hj : j = l.nAdded
          · rw [hj]
            exact m3 (hne _ _ (by omega) (by omega) (by omega) (by omega) (by omega))
          · exact hfree j (by omega) (by omega) hjl
        exact ⟨hclear.1, hclear.2.2⟩
  · intro j h1 h2
    dsimp only at h2 ⊢
    rw [(hkeep j h1 (by omega) (by omega) (by omega)).2.2]
    exact B.slots.past j h1 h2
  · intro j h1 h2
    dsimp only at h1 ⊢
    exact hfree j (by omega) h2 (by omega)
  · intro h hmem
    dsimp only
    rcases List.mem_append.mp hmem with hmem | hmem
    · have := B.stops h hmem
      omega
    · rw [List.mem_singleton] at hmem
      subst hmem
      dsimp only
      omega
  · refine List.pairwise_append.mpr ⟨B.mono, List.pairwise_singleton _ _, fun h hmem h' hmem' => ?_⟩
    rw [List.mem_singleton] at hmem'
    subst hmem'
    have := B.stops h hmem
    dsimp only
    omega
  · exact fun _ => ⟨rfl, hfree (l.nAdded + n) (by omega) (by omega) (by omega)⟩
  · exact ⟨fun _ => ⟨rfl, fu.trans (B.unblocked _ hpc (by simp) (by simp))⟩, fun _ => rfl⟩
  · intro hinit
    have := B.stopped (fs.symm.trans hinit)
    rw [hw] at this
    cases this.2
  · have := B.nodup
    simp only [Ledger.mblks, hw, Option.map_some, Option.toList_some, Option.map_none, Option.toList_none,
      List.map_append, List.map_cons, List.map_nil, List.append_assoc, List.nil_append] at this ⊢
    exact this
  · have hlist : freedBy l.nDone (l.sent ++ [⟨mp, mapped, l.nAdded + n⟩]) =
        freedBy l.nDone l.sent ++ if mapped then [] else [mp] := by
      rw [freedBy, List.filter_append, List.map_append, ← freedBy]
      cases mapped with
      | false => simp [Sent.Held]
      | true =>
        have : l.nDone < l.nAdded + n := by omega
        simp [Sent.Held, this]
    have := B.freed
    simp only [Ledger.due, hw, Option.elim_some, Option.elim_none, List.nil_append] at this ⊢
    rw [hlist, m5, List.append_assoc]
    exact this

/-- Reaping leaves the slots from the completed descriptors on alone. -/
theorem Booked.reap (B : Booked l b R C P) (hw : l.waiting ≠ none) (unblock : Option ℕ)
    (posting : Option PostPc) (hwait : ¬ (posting = none ∧ unblock = none))
    (hun : ∀ pc, posting = some pc → pc ≠ .race → pc ≠ .unrace → unblock = none)
    (hbl : posting = some .race → unblock ≠ none) :
    Booked { l with s := { l.s with
      stp := { l.s.stp.qreap with stUnblock := unblock }, posting := posting } } b C C P := by
  obtain ⟨o1, o2, o3, o4, o5⟩ := B.counts.order
  have hc := B.counts.qreap unblock posting
  have hnext : slot (idx b l.nAdded) ∉ slotsFrom (idx b R) (C - R) := by
    intro hmem
    obtain ⟨i, hi, he⟩ := mem_slotsFrom.mp hmem
    exact slot_ne (by omega) (by omega) (by omega) he
  rw [B.counts.qreap_eq] at hc ⊢
  refine B.wait hw hc ?_ rfl rfl rfl ⟨rfl, if_neg hnext⟩ hwait hun hbl
  exact B.slots.reap o1 o2 o5 (fun h hmem => (B.stops h hmem).2) rfl rfl rfl

theorem step_post {pc : PostPc} {mp : Mblk} {mapped : Bool} (hpc : l.s.posting = some pc)
    (hsome : l.waiting = some (mp, mapped)) : Ledger.step .post l =
      if l.s.posting = some .again ∧ (l.s.stp.postStep pc).2 = none then
        some { l with
          s := { l.s with stp := (l.s.stp.postStep pc).1, posting := (l.s.stp.postStep pc).2 }
          nAdded := l.nAdded + l.s.stp.stN
          sent := l.sent ++ [⟨mp, mapped, l.nAdded + l.s.stp.stN⟩]
          waiting := none }
      else some { l with
        s := { l.s with stp := (l.s.stp.postStep pc).1, posting := (l.s.stp.postStep pc).2 } } := by
  obtain ⟨s, nAdded, nDone, sent, waiting, closed⟩ := l
  dsimp only at hpc hsome
  subst hsome
  rw [Ledger.step, ringStep, hpc]
  rfl

theorem booked_post (B : Booked l b R C P) (hs : Ledger.step .post l = some l') :
    ∃ R', Booked l' b R' C P := by
  obtain ⟨s', hs', -⟩ := Option.bind_eq_some_iff.mp hs
  obtain ⟨pc, hpc, -⟩ := Option.map_eq_some_iff.mp hs'
  have hw : l.waiting ≠ none := fun hw => by
    rw [(B.waits.mp hw).1] at hpc
    cases hpc
  obtain ⟨⟨mp, mapped⟩, hsome⟩ := Option.ne_none_iff_exists'.mp hw
  have hl := (step_post hpc hsome).symm.trans hs
  have hun := B.unblocked pc hpc
  -- all steps but the last leave the packet in the fragment list
  have hstay : ∀ pc', (l.s.stp.postStep pc).1 = l.s.stp → (l.s.stp.postStep pc).2 = pc' →
      ¬ (pc' = none ∧ l.s.stp.stUnblock = none) →
      (∀ q, pc' = some q → q ≠ .race → q ≠ .unrace → l.s.stp.stUnblock = none) →
      (pc' = some .race → l.s.stp.stUnblock ≠ none) →
      Booked { l with s := { l.s with stp := (l.s.stp.postStep pc).1, posting := (l.s.stp.postStep pc).2 } }
        b R C P := by
    intro pc' h1 h2 h3 h4 h5
    rw [h1, h2]
    exact B.wait hw (B.counts.of_frame rfl B.counts.n_le _) B.slots rfl rfl rfl ⟨rfl, rfl⟩ h3 h4 h5
  cases pc with
  | again =>
    have hnone := hun (by simp) (by simp)
    by_cases hfit : l.nAdded - R + l.s.stp.stN ≤ 1008
    · have hret : (l.s.stp.postStep .again).2 = none := by rw [B.counts.post_again, if_pos hfit]
      rw [if_pos ⟨hpc, hret⟩] at hl
      cases hl
      rw [hret]
      exact ⟨R, booked_posted B hsome hpc hfit⟩
    · have hret : l.s.stp.postStep .again = (l.s.stp, some .space) := by
        rw [B.counts.post_again, if_neg hfit]
      rw [if_neg (by rw [hret]; simp)] at hl
      cases hl
      exact ⟨R, hstay _ (by rw [hret]) rfl (by rw [hret]; simp) (fun _ _ _ _ => hnone) (by rw [hret]; simp)⟩
  | space =>
    rw [if_neg (by rw [hpc]; simp)] at hl
    cases hl
    refine ⟨R, hstay _ rfl rfl ?_ (fun _ _ _ _ => hun (by simp) (by simp)) ?_⟩
    all_goals rw [postStep]; split_ifs <;> simp
  | batch =>
    rw [if_neg (by rw [hpc]; simp)] at hl
    cases hl
    refine ⟨R, hstay _ rfl rfl ?_ (fun _ _ _ _ => hun (by simp) (by simp)) ?_⟩
    all_goals rw [postStep]; split_ifs <;> simp
  | race =>
    rw [if_neg (by rw [hpc]; simp)] at hl
    cases hl
    have hb := B.blocked hpc
    refine ⟨R, hstay _ rfl rfl (fun h => hb h.2) ?_ (fun _ => hb)⟩
    intro q hq _ hne
    rw [postStep] at hq
    split_ifs at hq
    cases hq
    exact absurd rfl hne
  | block =>
    rw [if_neg (by rw [hpc]; simp)] at hl
    cases hl
    refine ⟨R, B.wait hw ?_ ⟨B.slots.live, B.slots.plain, B.slots.past, B.slots.free⟩ rfl rfl rfl ⟨rfl, rfl⟩
      (by simp [postStep]) ?_ (by simp [postStep])⟩
    · have hc := B.counts
      exact ⟨hc.added, hc.reaped, hc.completed, hc.pending, hc.done, hc.idle, hc.order, hc.n_le⟩
    · intro q hq hne _
      cases hq
      exact absurd rfl hne
  | reap =>
    rw [if_neg (by rw [hpc]; simp)] at hl
    cases hl
    have heq : l.s.stp.qreap = { l.s.stp.qreap with stUnblock := none } := by
      rw [B.counts.qreap_eq, ← hun (by simp) (by simp)]
    have := B.reap hw none (some .again) (by simp) (fun _ _ _ _ => rfl) (by simp)
    rw [← heq] at this
    exact ⟨C, this⟩
  | unrace =>
    rw [if_neg (by rw [hpc]; simp)] at hl
    cases hl
    exact ⟨C, B.reap hw none (some .again) (by simp) (fun _ _ _ _ => rfl) (by simp)⟩

theorem booked_unblock (B : Booked l b R C P) (hs : Ledger.step .unblock l = some l') :
    Booked l' b R C P := by
  obtain ⟨s', hs', hl⟩ := Option.bind_eq_some_iff.mp hs
  rw [ringStep, Option.ite_none_right_eq_some] at hs'
  obtain ⟨⟨-, -, hb, -⟩, ⟨⟩⟩ := hs'
  cases hl
  have hw : l.waiting ≠ none := fun hw => hb (B.waits.mp hw).2
  have hc := B.counts
  exact B.wait hw ⟨hc.added, hc.reaped, hc.completed, hc.pending, hc.done, hc.idle, hc.order, hc.n_le⟩
    ⟨B.slots.live, B.slots.plain, B.slots.past, B.slots.free⟩ rfl rfl rfl ⟨rfl, rfl⟩ (by simp)
    (fun _ _ _ _ => rfl) (by simp)

theorem booked_complete (B : Booked l b R C P) (hs : Ledger.step .complete l = some l') :
    ∃ C', Booked l' b R C' P := by
  obtain ⟨s', hs', hl⟩ := Option.bind_eq_some_iff.mp hs
  cases hl
  obtain ⟨o1, o2, o3, o4, o5⟩ := B.counts.order
  rcases B.counts.complete hs' with ⟨hc, rfl, hcounts⟩ | ⟨hc, hDP, rfl, hcounts⟩ | ⟨hc, hDP, rfl, hcounts⟩
  · rw [if_pos (Or.inl hc)]
    exact ⟨C, hcounts, B.slots, B.stops, B.mono, B.clear, B.held, B.waits, B.unblocked, B.blocked,
      B.stopped, B.nodup, B.freed⟩
  · rw [if_pos (Or.inr rfl)]
    exact ⟨l.nDone, hcounts, ⟨B.slots.live, B.slots.plain, B.slots.past, B.slots.free⟩, B.stops, B.mono,
      B.clear, B.held, B.waits, B.unblocked, B.blocked, B.stopped, B.nodup, B.freed⟩
  · rw [if_neg (by rw [hc]; simp)]
    have hstop : ∀ h ∈ l.sent, h.stop ≤ l.nAdded := fun h hmem => (B.stops h hmem).2
    obtain ⟨hslots, hfreed⟩ := B.slots.completeOne (by omega) (by omega) o5 B.mono hstop B.freed
    obtain ⟨e1, e2, e3⟩ := completeOne_of_ne l.s.stp
      (slot_ne (b := b) (j := l.nAdded) (k := l.nDone) (by omega) (by omega) (by omega))
    have hf := frame_completeOne (idx b l.nDone) l.s.stp
    simp only [Txq.frame, Prod.mk.injEq] at hf
    obtain ⟨-, fu, fs, -⟩ := hf
    refine ⟨C, hcounts, hslots, B.stops, B.mono, ?_, ?_, ?_, ?_, ?_, ?_, B.nodup, hfreed⟩
    · intro hw
      dsimp only
      rw [stN_completeOne, Clear, e1, e2, e3]
      exact B.clear hw
    · intro mp mapped hsome
      dsimp only
      rw [stN_completeOne, e1, e3]
      exact B.held mp mapped hsome
    · dsimp only
      rw [fu]
      exact B.waits
    · dsimp only
      rw [fu]
      exact B.unblocked
    · dsimp only
      rw [fu]
      exact B.blocked
    · dsimp only
      rw [fs]
      exact B.stopped

/-- The loop of `sfxge_tx_qcomplete` completes the descriptors one by one. -/
theorem slots_completeAll (hs : Slots stp b R D A sent) (hR : R ≤ D) (hA : A ≤ R + 1008)
    (hmono : sent.Pairwise fun h h' => h.stop < h'.stop) (hstop : ∀ h ∈ sent, h.stop ≤ A)
    {rest : List Mblk} (hf : stp.freed.Perm (freedBy D sent ++ rest)) (hc : stp.Clear (slot (idx b A)))
    (k : ℕ) (hk : D + k ≤ A) :
    let p := (fun p : U32 × Txq => (p.1 + 1, p.2.completeOne p.1))^[k] (idx b D, stp)
    p.1 = idx b (D + k) ∧ Slots p.2 b R (D + k) A sent ∧ p.2.freed.Perm (freedBy (D + k) sent ++ rest) ∧
      p.2.Clear (slot (idx b A)) := by
  induction k with
  | zero => exact ⟨rfl, hs, hf, hc⟩
  | succ k ih =>
    obtain ⟨h1, h2, h3, h4⟩ := ih (by omega)
    dsimp only
    rw [Function.iterate_succ_apply']
    obtain ⟨h5, h6⟩ := h2.completeOne (by omega) (by omega) hA hmono hstop h3
    dsimp only
    rw [h1]
    refine ⟨idx_succ b _, h5, h6, ?_⟩
    obtain ⟨e1, e2, e3⟩ := completeOne_of_ne ((fun p : U32 × Txq => (p.1 + 1, p.2.completeOne p.1))^[k]
      (idx b D, stp)).2 (slot_ne (b := b) (j := A) (k := D + k) (by omega) (by omega) (by omega))
    rw [Clear, e1, e2, e3]
    exact h4

/-- The packet in the fragment list is dropped and freed, whether it is mapped or not. -/
theorem Booked.abort (B : Booked l b R C P) :
    Slots l.s.stp.qlistAbort b R l.nDone l.nAdded l.sent ∧
      l.s.stp.qlistAbort.Clear (slot (idx b l.nAdded)) ∧
      l.s.stp.qlistAbort.freed.Perm
        (freedBy l.nDone l.sent ++ ((l.waiting.map Prod.fst).toList ++ l.closed)) := by
  obtain ⟨o1, o2, o3, o4, o5⟩ := B.counts.order
  have hadded := B.counts.added
  refine ⟨B.slots.next_only (by omega) (by omega) o5 B.stops fun id hid => ?_, ?_, ?_⟩
  · rw [← hadded] at hid
    exact ⟨Function.update_of_ne hid .., Function.update_of_ne hid .., Function.update_of_ne hid ..⟩
  · rw [← hadded]
    exact ⟨Function.update_self .., Function.update_self .., Function.update_self ..⟩
  · change (l.s.stp.freed ++ (l.s.stp.stMp (slot l.s.stp.stAdded)).toList).Perm _
    rw [hadded]
    have hfreed := B.freed
    rw [Ledger.due] at hfreed
    cases hw : l.waiting with
    | none =>
      rw [(B.clear hw).2.2.2]
      rw [hw] at hfreed
      simpa using hfreed
    | some w =>
      obtain ⟨mp, mapped⟩ := w
      rw [(B.held mp mapped hw).2.1]
      rw [hw] at hfreed
      cases mapped with
      | false => simpa using hfreed
      | true => exact (List.perm_append_singleton _ _).trans ((hfreed.cons mp).trans List.perm_middle.symm)

theorem booked_stop (B : Booked l b R C P) (hs : Ledger.step .stop l = some l') : Booked l' 0 0 0 0 := by
  obtain ⟨s', hs', hl⟩ := Option.bind_eq_some_iff.mp hs
  rw [ringStep, Option.ite_none_right_eq_some] at hs'
  obtain ⟨⟨hpost, hcompl, -⟩, ⟨⟩⟩ := hs'
  cases hl
  obtain ⟨o1, o2, o3, o4, o5⟩ := B.counts.order
  have hDC := B.counts.idle hcompl
  have hstop : ∀ h ∈ l.sent, h.stop ≤ l.nAdded := fun h hmem => (B.stops h hmem).2
  obtain ⟨ha1, ha2, ha3⟩ := B.abort
  generalize hstp1 : ({ l.s.stp.qlistAbort with stUnblock := none, stPending := l.s.stp.stAdded } : Txq) =
    stp1
  have hs1 : Slots stp1 b R l.nDone l.nAdded l.sent := by
    rw [← hstp1]
    exact ⟨ha1.live, ha1.plain, ha1.past, ha1.free⟩
  have hf1 : stp1.freed.Perm (freedBy l.nDone l.sent ++ ((l.waiting.map Prod.fst).toList ++ l.closed)) := by
    rw [← hstp1]
    exact ha3
  have hc1 : stp1.Clear (slot (idx b l.nAdded)) := by
    rw [← hstp1]
    exact ha2
  have hk : (stp1.stPending - stp1.stCompleted).toNat = l.nAdded - l.nDone := by
    rw [← hstp1]
    change (l.s.stp.stAdded - l.s.stp.stCompleted).toNat = _
    rw [B.counts.added, B.counts.completed, ← hDC, idx_sub (by omega) (by omega)]
  have hcomp1 : stp1.stCompleted = idx b l.nDone := by
    rw [← hstp1, hDC]
    exact B.counts.completed
  have hreap1 : stp1.stReaped = idx b R := by
    rw [← hstp1]
    exact B.counts.reaped
  have hun1 : stp1.stUnblock = none := by rw [← hstp1]
  obtain ⟨hp1, hp2, hp3, hp4⟩ := slots_completeAll hs1 (by omega) o5 B.mono hstop hf1 hc1
    (l.nAdded - l.nDone) (by omega)
  obtain ⟨-, hframe, -⟩ := iterate_completeOne (l.nAdded - l.nDone) (idx b l.nDone) stp1
  generalize hp : (fun p : U32 × Txq => (p.1 + 1, p.2.completeOne p.1))^[l.nAdded - l.nDone]
    (idx b l.nDone, stp1) = p at hp1 hp2 hp3 hp4 hframe
  rw [Nat.add_sub_cancel' (by omega)] at hp1 hp2 hp3
  rw [freedBy_all hstop] at hp3
  simp only [Txq.frame, Prod.mk.injEq] at hframe
  obtain ⟨⟨-, fr, -⟩, fu, -⟩ := hframe
  have hall : stp1.completeAll = { p.2 with stCompleted := p.1 } := by
    rw [completeAll, hk, hcomp1, hp]
  have hreap : (stp1.completeAll).qreap = { p.2 with
      stCompleted := p.1
      stReaped := idx b l.nAdded
      stStmp := fun id => if id ∈ slotsFrom (idx b R) (l.nAdded - R) then [] else p.2.stStmp id
      stStbp := fun id => if id ∈ slotsFrom (idx b R) (l.nAdded - R) then [] else p.2.stStbp id } := by
    rw [hall, qreap, iterate_reapOne]
    dsimp only
    rw [hp1, fr, hreap1, idx_sub (by omega) (by omega), idx_add, Nat.add_sub_cancel' (by omega)]
  have hqstop : l.s.stp.qstop = { stp1.completeAll.qreap with
      stAdded := 0, stPending := 0, stCompleted := 0, stReaped := 0, stState := SFXGE_TXQ_INITIALIZED } := by
    rw [← hstp1]
    rfl
  have hend : Slots l.s.stp.qstop b l.nAdded l.nAdded l.nAdded l.sent := by
    rw [hqstop, hreap]
    exact hp2.reap (by omega) le_rfl o5 hstop rfl rfl rfl
  have hnext : slot (idx b l.nAdded) ∉ slotsFrom (idx b R) (l.nAdded - R) := by
    intro hmem
    obtain ⟨i, hi, he⟩ := mem_slotsFrom.mp hmem
    exact slot_ne (by omega) (by omega) (by omega) he
  have hclear : ∀ id, l.s.stp.qstop.Clear id := by
    intro id
    obtain ⟨j, h1, h2, rfl⟩ := slot_surj b l.nAdded id
    by_cases hj : j = l.nAdded
    · rw [hj, hqstop, hreap]
      exact ⟨(if_neg hnext).trans hp4.1, (if_neg hnext).trans hp4.2.1, hp4.2.2⟩
    · exact hend.free j (by omega) h2
  have hfreed : l.s.stp.qstop.freed.Perm l.mblks := by
    rw [hqstop, hreap]
    exact hp3
  refine ⟨counts_stop hcompl, ⟨by simp, fun j _ h => absurd h (Nat.not_lt_zero j),
    fun j _ h => absurd h (Nat.not_lt_zero j), fun j _ _ => hclear _⟩, by simp, List.Pairwise.nil,
    fun _ => ⟨stN_qstop _, hclear _⟩, by simp, ⟨fun _ => ⟨hpost, ?_⟩, fun _ => rfl⟩, ?_, ?_,
    fun _ => ⟨rfl, rfl⟩, B.nodup, hfreed⟩
  · dsimp only
    rw [hqstop, hreap]
    exact fu.trans hun1
  · intro pc h
    rw [hpost] at h
    cases h
  · intro h
    rw [hpost] at h
    cases h

theorem booked_start {d : U32} (B : Booked l b R C P) (hs : Ledger.step (.start d) l = some l') :
    Booked l' d.toNat 0 0 0 := by
  obtain ⟨s', hs', hl⟩ := Option.bind_eq_some_iff.mp hs
  rw [ringStep, Option.ite_none_right_eq_some] at hs'
  obtain ⟨⟨hpost, hcompl, hinit⟩, ⟨⟩⟩ := hs'
  cases hl
  obtain ⟨hA, hw⟩ := B.stopped hinit
  obtain ⟨o1, o2, o3, o4, o5⟩ := B.counts.order
  have hD : l.nDone = 0 := by omega
  have hR : R = 0 := by omega
  have hsent : l.sent = [] := List.eq_nil_iff_forall_not_mem.mpr fun h hmem => by
    have := B.stops h hmem
    omega
  obtain ⟨hn, hnext⟩ := B.clear hw
  have hclear : ∀ id, l.s.stp.Clear id := by
    intro id
    obtain ⟨j, h1, h2, rfl⟩ := slot_surj b 0 id
    by_cases hj : j = 0
    · rw [hj, ← hA]
      exact hnext
    · exact B.slots.free j (by omega) (by omega)
  have hcounts := counts_start B.counts hcompl d
  refine ⟨?_, ⟨?_, ?_, ?_, fun j _ _ => hclear _⟩, B.stops, B.mono, fun _ => ⟨hn, hclear _⟩, ?_, B.waits,
    B.unblocked, B.blocked, by simp [qstart], B.nodup, B.freed⟩
  · rw [hA, hD]
    exact hcounts
  · intro h hmem
    rw [hsent] at hmem
    cases hmem
  · intro j _ h
    rw [hA] at h
    omega
  · intro j _ h
    rw [hD] at h
    omega
  · intro mp mapped hsome
    rw [hw] at hsome
    cases hsome

/-- **Step.**  Every step keeps the ring in agreement with the ledger. -/
theorem booked_step (B : ∃ b R C P, Booked l b R C P) (hs : Ledger.Step l l') :
    ∃ b R C P, Booked l' b R C P := by
  obtain ⟨b, R, C, P, B⟩ := B
  obtain ⟨op, hop, hs⟩ := hs
  cases op with
  | packet mp f => exact ⟨_, _, _, _, booked_packet B hop hs⟩
  | discard mp => exact ⟨_, _, _, _, booked_discard B hs⟩
  | post =>
    obtain ⟨R', h⟩ := booked_post B hs
    exact ⟨_, _, _, _, h⟩
  | unblock => exact ⟨_, _, _, _, booked_unblock B hs⟩
  | push =>
    obtain ⟨s', hs', hl⟩ := Option.bind_eq_some_iff.mp hs
    cases hs'
    cases hl
    have hc := B.counts
    exact ⟨b, R, C, P, ⟨hc.added, hc.reaped, hc.completed, hc.pending, hc.done, hc.idle, hc.order, hc.n_le⟩,
      ⟨B.slots.live, B.slots.plain, B.slots.past, B.slots.free⟩, B.stops, B.mono, B.clear, B.held, B.waits,
      B.unblocked, B.blocked, B.stopped, B.nodup, B.freed⟩
  | evTx id =>
    obtain ⟨s', hs', hl⟩ := Option.bind_eq_some_iff.mp hs
    rw [ringStep, Option.ite_none_right_eq_some] at hs'
    obtain ⟨⟨hcompl, hid⟩, ⟨⟩⟩ := hs'
    cases hl
    obtain ⟨P', hP, hA, heq⟩ := B.counts.evTx hid
    rw [heq]
    have hc := B.counts
    obtain ⟨o1, o2, o3, o4, o5⟩ := hc.order
    exact ⟨b, R, C, P', ⟨hc.added, hc.reaped, hc.completed, rfl, hc.done, hc.idle,
      ⟨o1, o2, o3.trans hP, hA, o5⟩, hc.n_le⟩,
      ⟨B.slots.live, B.slots.plain, B.slots.past, B.slots.free⟩, B.stops, B.mono, B.clear, B.held, B.waits,
      B.unblocked, B.blocked, B.stopped, B.nodup, B.freed⟩
  | complete =>
    obtain ⟨C', h⟩ := booked_complete B hs
    exact ⟨_, _, _, _, h⟩
  | flush st =>
    obtain ⟨s', hs', hl⟩ := Option.bind_eq_some_iff.mp hs
    rw [ringStep, Option.ite_none_right_eq_some] at hs'
    obtain ⟨⟨-, -, hst⟩, ⟨⟩⟩ := hs'
    cases hl
    have hc := B.counts
    refine ⟨b, R, C, P, ⟨hc.added, hc.reaped, hc.completed, hc.pending, hc.done, hc.idle, hc.order, hc.n_le⟩,
      ⟨B.slots.live, B.slots.plain, B.slots.past, B.slots.free⟩, B.stops, B.mono, B.clear, B.held, B.waits,
      B.unblocked, B.blocked, ?_, B.nodup, B.freed⟩
    rintro rfl
    rcases hst with h | h | h <;> cases h
  | stop => exact ⟨_, _, _, _, booked_stop B hs⟩
  | start d => exact ⟨_, _, _, _, booked_start B hs⟩

/-! ### Runs -/

def RingState.Step (s s' : RingState) : Prop := ∃ op, ringStep op s = some s'

/-- `st_reaped <= st_completed <= st_pending <= st_added` modulo `2 ^ 32`, within the ring. -/
def Txq.Ordered (stp : Txq) : Prop :=
  (stp.stCompleted - stp.stReaped).toNat ≤ (stp.stPending - stp.stReaped).toNat ∧
    (stp.stPending - stp.stReaped).toNat ≤ (stp.stAdded - stp.stReaped).toNat ∧
    (stp.stAdded - stp.stReaped).toNat ≤ EFX_TXQ_LIMIT SFXGE_TX_NDESCS

/-- No message is freed twice.  The message of a posted packet has been freed, unless it is mapped and its
last descriptor has not been completed; in the fragment list, a packet that is not mapped has been freed;
the packets dropped, and those of a queue that has been stopped, have been freed. -/
def Ledger.FreedOnce (l : Ledger) : Prop :=
  l.s.stp.freed.Nodup ∧ (∀ h ∈ l.sent, h.mp ∈ l.s.stp.freed ↔ ¬ h.Held l.nDone) ∧
    (∀ mp mapped, l.waiting = some (mp, mapped) → (mp ∈ l.s.stp.freed ↔ mapped = false)) ∧
    (∀ mp ∈ l.closed, mp ∈ l.s.stp.freed) ∧ (∀ mp ∈ l.s.stp.freed, mp ∈ l.mblks) ∧
    (l.s.stp.stAdded - l.s.completing.getD l.s.stp.stCompleted).toNat = l.nAdded - l.nDone

theorem Counts.ordered {s : RingState} {D P : ℕ} (h : Counts s b A R C D P) : s.stp.Ordered := by
  obtain ⟨o1, o2, o3, o4, o5⟩ := h.order
  rw [Txq.Ordered, h.added, h.reaped, h.completed, h.pending, idx_sub o1 (by omega),
    idx_sub (by omega) (by omega), idx_sub (by omega) (by omega)]
  simp only [EFX_TXQ_LIMIT, SFXGE_TX_NDESCS]
  omega

theorem counts_reachable {s : RingState} (h : Reach (· = RingState.init) RingState.Step s) :
    ∃ b A R C D P, Counts s b A R C D P := by
  refine h.inv (fun s => ∃ b A R C D P, Counts s b A R C D P) ?_ ?_
  · rintro s rfl
    exact ⟨_, _, _, _, _, _, counts_init⟩
  · rintro s s' ⟨b, A, R, C, D, P, hc⟩ ⟨op, hs⟩
    exact counts_step hc hs

theorem booked_reachable (h : Reach (· = Ledger.init) Ledger.Step l) : ∃ b R C P, Booked l b R C P :=
  h.inv (fun l => ∃ b R C P, Booked l b R C P) (by rintro l rfl; exact ⟨_, _, _, _, booked_init⟩)
    fun _ _ => booked_step

theorem nodup_due (hn : l.mblks.Nodup) : l.due.Nodup := by
  refine hn.sublist ?_
  refine List.Sublist.append ((List.filter_sublist).map Sent.mp) (List.Sublist.append ?_ (List.Sublist.refl _))
  cases l.waiting with
  | none => exact List.nil_sublist _
  | some w =>
    rw [Option.elim_some]
    split_ifs
    · exact List.nil_sublist _
    · exact List.Sublist.refl _

theorem Booked.freedOnce (B : Booked l b R C P) : l.FreedOnce := by
  have hmem : ∀ mp, mp ∈ l.s.stp.freed ↔ mp ∈ freedBy l.nDone l.sent ∨
      mp ∈ (l.waiting.elim [] fun w => if w.2 then [] else [w.1]) ∨ mp ∈ l.closed := by
    intro mp
    rw [B.freed.mem_iff, Ledger.due, List.mem_append, List.mem_append]
  have hfreedBy : ∀ mp, mp ∈ freedBy l.nDone l.sent ↔ ∃ h ∈ l.sent, ¬ h.Held l.nDone ∧ h.mp = mp := by
    intro mp
    simp only [freedBy, List.mem_map, List.mem_filter, decide_eq_true_eq, and_assoc]
  obtain ⟨hsent, hrest, hdisj⟩ := List.nodup_append.mp B.nodup
  obtain ⟨-, -, hdisj'⟩ := List.nodup_append.mp hrest
  have hwait : ∀ mp, mp ∈ (l.waiting.elim [] fun w => if w.2 then [] else [w.1]) ↔
      l.waiting = some (mp, false) := by
    intro mp
    cases hw : l.waiting with
    | none => simp
    | some w =>
      obtain ⟨mp', mapped⟩ := w
      rw [Option.elim_some]
      cases mapped with
      | false =>
        rw [if_neg (by simp), List.mem_singleton]
        exact ⟨fun h => by rw [h], fun h => by cases h; rfl⟩
      | true =>
        rw [if_pos rfl]
        exact ⟨nofun, nofun⟩
  refine ⟨B.freed.nodup_iff.mpr (nodup_due B.nodup), ?_, ?_, ?_, ?_, ?_⟩
  · intro h hh
    have hmap : h.mp ∈ l.sent.map Sent.mp := List.mem_map_of_mem hh
    rw [hmem, hfreedBy]
    constructor
    · rintro (⟨h', hh', hnot, heq⟩ | hw | hc)
      · rwa [← List.inj_on_of_nodup_map hsent hh' hh heq]
      · rw [hwait] at hw
        exact absurd rfl (hdisj h.mp hmap h.mp (List.mem_append_left _ (by rw [hw]; simp)))
      · exact absurd rfl (hdisj h.mp hmap h.mp (List.mem_append_right _ hc))
    · exact fun hnot => Or.inl ⟨h, hh, hnot, rfl⟩
  · intro mp mapped hw
    have hmp : mp ∈ (l.waiting.map Prod.fst).toList := by rw [hw]; simp
    rw [hmem, hfreedBy, hwait]
    constructor
    · rintro (⟨h', hh', -, heq⟩ | hw' | hc)
      · exact absurd heq (hdisj h'.mp (List.mem_map_of_mem hh') mp (List.mem_append_left _ hmp))
      · rw [hw] at hw'
        cases hw'
        rfl
      · exact absurd rfl (hdisj' mp hmp mp hc)
    · rintro rfl
      exact Or.inr (Or.inl hw)
  · exact fun mp hc => (hmem mp).mpr (Or.inr (Or.inr hc))
  · intro mp hf
    rcases (hmem mp).mp hf with h | h | h
    · obtain ⟨h', hh', -, rfl⟩ := (hfreedBy mp).mp h
      exact List.mem_append_left _ (List.mem_map_of_mem hh')
    · exact List.mem_append_right _ (List.mem_append_left _ (by rw [(hwait mp).mp h]; simp))
    · exact List.mem_append_right _ (List.mem_append_right _ h)
  · obtain ⟨o1, o2, o3, o4, o5⟩ := B.counts.order
    have hD : l.s.completing.getD l.s.stp.stCompleted = idx b l.nDone := by
      cases hc : l.s.completing with
      | none => rw [Option.getD_none, B.counts.completed, B.counts.idle hc]
      | some c => exact B.counts.done c hc
    rw [hD, B.counts.added, idx_sub (by omega) (by omega)]

/-- **Ring accounting.**  In every run the counters stay in order and within the ring.  In every run in
which no fragment list is empty, a mapped packet is freed once, when its last descriptor is completed, and
a packet that has been copied as a whole once, when it has been fragmented. -/
theorem accounting_reachable :
    (∀ s, Reach (· = RingState.init) RingState.Step s → s.stp.Ordered) ∧
      ∀ l, Reach (· = Ledger.init) Ledger.Step l → l.FreedOnce := by
  constructor
  · intro s h
    obtain ⟨b, A, R, C, D, P, hc⟩ := counts_reachable h
    exact hc.ordered
  · intro l h
    obtain ⟨b, R, C, P, B⟩ := booked_reachable h
    exact B.freedOnce

/-- A packet that fits into one buffer. -/
def copied (_ : Bool) : Fragments := ⟨none, 1, [], [0], one_le_limit⟩

/-- A queue is started and sends a packet. -/
def sendCopied : List RingOp := [.start 0, .packet 7 copied, .post]

/-- The ring of a run with a ledger. -/
theorem reach_ring (h : Reach (· = Ledger.init) Ledger.Step l) :
    Reach (· = RingState.init) RingState.Step l.s := by
  induction h with
  | start h =>
    subst h
    exact .start rfl
  | next _ hstep ih =>
    obtain ⟨op, -, hs⟩ := hstep
    obtain ⟨s', hs', hl⟩ := Option.bind_eq_some_iff.mp hs
    refine .next ih ⟨op, hs'.trans ?_⟩
    cases op <;> dsimp only at hl <;> (try split at hl) <;> (try split_ifs at hl) <;> cases hl <;> rfl

theorem reach_sendCopied (h : runOps Ledger.step sendCopied .init = some l) :
    Reach (· = Ledger.init) Ledger.Step l := by
  have hops : ∀ op ∈ sendCopied, Ledger.NonEmpty op := by
    simp [sendCopied, Ledger.NonEmpty, copied]
  exact Reach.runOps (fun op hop _ _ hs => ⟨op, hops op hop, hs⟩) (.start rfl) h

theorem accounting_sendCopied : ∃ l, runOps Ledger.step sendCopied .init = some l ∧ l.s.stp.Ordered ∧
    l.FreedOnce := by
  obtain ⟨l, hl⟩ : ∃ l, runOps Ledger.step sendCopied .init = some l := ⟨_, rfl⟩
  have hr := reach_sendCopied hl
  exact ⟨l, hl, accounting_reachable.1 _ (reach_ring hr), accounting_reachable.2 _ hr⟩

/-- A packet that has been copied into a buffer is freed before its descriptor is completed. -/
theorem copied_freed_early : ¬ ∀ l, Reach (· = Ledger.init) Ledger.Step l →
    ∀ h ∈ l.sent, h.mp ∈ l.s.stp.freed → h.stop ≤ l.nDone := by
  intro h
  obtain ⟨l, hl⟩ : ∃ l, runOps Ledger.step sendCopied .init = some l := ⟨_, rfl⟩
  have hsent : l.sent = [⟨7, false, 1⟩] ∧ l.s.stp.freed = [7] ∧ l.nDone = 0 := by
    cases hl
    exact ⟨rfl, rfl, rfl⟩
  have := h l (reach_sendCopied hl) ⟨7, false, 1⟩ (by rw [hsent.1]; simp)
    (by rw [hsent.2.1]; simp)
  rw [hsent.2.2] at this
  exact absurd this (by decide)

end Sfxge.Tx
