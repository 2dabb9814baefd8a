import Mathlib.Algebra.BigOperators.Fin
import Mathlib.Algebra.Order.BigOperators.Group.Finset
import Mathlib.Algebra.Order.Group.Multiset
import Mathlib.Tactic.Abel
import Sfxge.Tx.Holdings

/-!
# Tx.Ownership — who frees a message

`sfxge_tx_packet_add` leaves its message to the caller when it returns `ENOSPC`, and frees it on any other
error.  `sfxge_gld_tx` goes by that; `sfxge_tx_loopback` frees the message on every error.  The driver is its
queues and the threads that send; a message is named once, when it is passed to the driver or allocated.
-/

namespace Sfxge.Tx

open Errno TxqState Txq Lib

/-- The caller of `sfxge_tx_packet_add`. -/
inductive Caller where
  /-- `sfxge_gld_tx`, with the rest of its chain -/
  | gld (next : List Mblk)
  /-- `sfxge_tx_loopback`, with the message it duplicates and its count -/
  | loopback (mp : Mblk) (count : ℕ)
  deriving DecidableEq

/-- Where a thread that sends is. -/
inductive Sender where
  /-- `sfxge_tx_packet_add` is to read `s_state` -/
  | enter (mp : Mblk) (caller : Caller)
  /-- `sfxge_tx_packet_add` has found the driver started -/
  | adding (mp : Mblk) (caller : Caller)
  /-- `sfxge_tx_loopback` is to call `dupb` -/
  | dup (mp : Mblk) (count : ℕ)
  deriving DecidableEq

/-- The messages that a caller still has. -/
def Caller.mblks : Caller → List Mblk
  | .gld next => next
  | .loopback mp _ => [mp]

def Caller.isLoopback : Caller → Bool
  | .gld _ => false
  | .loopback _ _ => true

/-- The messages that a thread has in hand. -/
def Sender.mblks : Sender → List Mblk
  | .enter mp caller => mp :: caller.mblks
  | .adding mp caller => mp :: caller.mblks
  | .dup mp _ => [mp]

def Sender.isLoopback : Sender → Bool
  | .enter _ caller => caller.isLoopback
  | .adding _ caller => caller.isLoopback
  | .dup _ _ => true

/-- The driver with its threads.  `started` says that `s_state` is `SFXGE_STARTED`; `back` are the messages
handed back to the network stack, `freed` those freed outside of the queues, and `given` all that have been
passed to the driver or allocated by it. -/
structure Driver (n : ℕ) where
  started : Bool
  q : Fin n → Sys
  senders : List Sender
  back : List Mblk
  freed : List Mblk
  given : List Mblk

namespace Driver

variable {n : ℕ} (d : Driver n)

/-- A thread goes on. -/
def goto (t : Sender) : Driver n := { d with senders := t :: d.senders }

/-- The driver without the thread that takes the step. -/
def leave (k : ℕ) : Driver n := { d with senders := d.senders.eraseIdx k }

/-- `freemsg(mp);` or `freeb(mp);` -/
def freemsg (mp : Mblk) : Driver n := { d with freed := d.freed ++ [mp] }

/-- New messages. -/
def give (mps : List Mblk) : Driver n := { d with given := d.given ++ mps }

def setQueue (i : Fin n) (s : Sys) : Driver n := { d with q := Function.update d.q i s }

/-- The loop of `sfxge_gld_tx`, with the chain that is left. -/
def gldTx : List Mblk → Driver n
  | [] => d
  | mp :: next => d.goto (.enter mp (.gld next))

/-- The caller of `sfxge_tx_packet_add` gets the return code. -/
def returned (rc : Option Errno) (mp : Mblk) : Caller → Driver n
  | .gld next => if rc = some ENOSPC then { d with back := d.back ++ mp :: next } else d.gldTx next
  | .loopback tmpl count =>
    if rc ≠ none then (d.freemsg mp).freemsg tmpl
    else if count - 1 ≠ 0 then d.goto (.dup tmpl (count - 1))
    else d.freemsg tmpl

/-- The label `fail1` of `sfxge_tx_packet_add`. -/
def addFail (rc : Errno) (mp : Mblk) (caller : Caller) : Driver n :=
  (if rc ≠ ENOSPC then d.freemsg mp else d).returned (some rc) mp caller

end Driver

inductive DriverOp (n : ℕ) where
  /-- `s_state` is written, under `s_state_lock` -/
  | state (started : Bool)
  | queue (i : Fin n) (op : QueueOp)
  /-- the network stack sends a chain -/
  | gldTx (mp : Mblk) (next : List Mblk)
  /-- `sfxge_tx_loopback` up to its loop, where `allocb` returns `mp` -/
  | loopback (count : ℕ) (mp : Option Mblk)
  /-- thread `k` calls `dupb`, which returns `nmp` -/
  | dupb (k : ℕ) (nmp : Option Mblk)
  /-- thread `k` reads `s_state` in `sfxge_tx_packet_add` -/
  | check (k : ℕ)
  /-- the headers of a packet to be segmented are refused -/
  | parse (k : ℕ)
  /-- `sfxge_tx_packet_create` fails -/
  | create (k : ℕ)
  /-- thread `k` adds its packet to queue `i` -/
  | add (k : ℕ) (i : Fin n) (stpp mss : ℕ) (locked : Bool)

variable {n : ℕ}

/-- A step of one of the threads.  `sfxge_ioctl` holds `s_state_lock` while `sfxge_tx_loopback` runs, and the
message it allocates asks for no segmentation. -/
def Driver.step : DriverOp n → Driver n → Option (Driver n)
  | .state started, d => if d.senders.any Sender.isLoopback then none else some { d with started := started }
  | .queue i op, d => (queueStep op (d.q i)).map (d.setQueue i)
  | .gldTx mp next, d =>
    if (mp :: next).Nodup ∧ ∀ x ∈ mp :: next, x ∉ d.given then
      some ((d.give (mp :: next)).gldTx (mp :: next))
    else none
  | .loopback count mp, d => match mp with
    | none => some d
    | some mp =>
      if count = 0 then some d
      else if mp ∈ d.given then none else some ((d.give [mp]).goto (.dup mp count))
  | .dupb k nmp, d => match d.senders[k]?, nmp with
    | some (.dup mp _), none => some ((d.leave k).freemsg mp)
    | some (.dup mp count), some nmp =>
      if nmp ∈ d.given then none
      else some (((d.leave k).give [nmp]).goto (.enter nmp (.loopback mp count)))
    | _, _ => none
  | .check k, d => match d.senders[k]? with
    | some (.enter mp caller) =>
      if d.started then some ((d.leave k).goto (.adding mp caller))
      else some ((d.leave k).addFail EINVAL mp caller)
    | _ => none
  | .parse k, d => match d.senders[k]? with
    | some (.adding mp (.gld next)) => some ((d.leave k).addFail EINVAL mp (.gld next))
    | _ => none
  | .create k, d => match d.senders[k]? with
    | some (.adding mp caller) => some ((d.leave k).addFail ENOSPC mp caller)
    | _ => none
  | .add k i stpp mss locked, d => match d.senders[k]? with
    | some (.adding mp caller) => (Tx.step (addOp stpp mp mss locked) (d.q i)).map fun s =>
      if (d.q i).full locked then ((d.leave k).setQueue i s).addFail ENOSPC mp caller
      else ((d.leave k).setQueue i s).returned none mp caller
    | _ => none

/-- The driver before it is started. -/
def Driver.initial (pkt : Fin n → ℕ → Packet) (getPktLimit putPktLimit : ℕ) : Driver n where
  started := false
  q i := .initial (pkt i) getPktLimit putPktLimit
  senders := []
  back := []
  freed := []
  given := []

/-! ### What the driver holds -/

namespace Driver

variable {d d' : Driver n}

/-- Every message that the driver has or has had, as often as it has or has had it. -/
def held (d : Driver n) : Multiset Mblk :=
  ↑(d.senders.flatMap Sender.mblks) + ↑d.back + ↑d.freed + ∑ i, (↑(d.q i).accepted : Multiset Mblk)

theorem held_goto (t : Sender) : (d.goto t).held = ↑t.mblks + d.held := by
  rw [held, held, goto, List.flatMap_cons, ← Multiset.coe_add]
  simp only [add_assoc]

theorem held_leave {k : ℕ} {t : Sender} (h : d.senders[k]? = some t) : d.held = ↑t.mblks + (d.leave k).held := by
  obtain ⟨hk, rfl⟩ := List.getElem?_eq_some_iff.mp h
  have hperm := (List.getElem_cons_eraseIdx_perm hk).flatMap_right Sender.mblks
  have hsenders : (↑(d.senders.flatMap Sender.mblks) : Multiset Mblk) =
      ↑d.senders[k].mblks + ↑((d.senders.eraseIdx k).flatMap Sender.mblks) := by
    rw [← Multiset.coe_eq_coe.mpr hperm, List.flatMap_cons, Multiset.coe_add]
  rw [held, held, leave, hsenders]
  simp only [add_assoc]

theorem held_freemsg (mp : Mblk) : (d.freemsg mp).held = {mp} + d.held := by
  rw [held, held, freemsg, ← Multiset.coe_add, Multiset.coe_singleton]
  dsimp only
  abel

theorem held_back (mps : List Mblk) : ({ d with back := d.back ++ mps } : Driver n).held = ↑mps + d.held := by
  rw [held, held, ← Multiset.coe_add]
  dsimp only
  abel

theorem held_gldTx (mps : List Mblk) : (d.gldTx mps).held = ↑mps + d.held := by
  cases mps with
  | nil => exact (zero_add _).symm
  | cons mp next => exact held_goto _

theorem held_setQueue (i : Fin n) (s : Sys) :
    (d.setQueue i s).held + ↑(d.q i).accepted = ↑s.accepted + d.held := by
  have hsum : (∑ j, (↑(Function.update d.q i s j).accepted : Multiset Mblk)) + ↑(d.q i).accepted =
      ↑s.accepted + ∑ j, (↑(d.q j).accepted : Multiset Mblk) := by
    rw [← Finset.add_sum_erase _ _ (Finset.mem_univ i), ← Finset.add_sum_erase _ _ (Finset.mem_univ i),
      Function.update_self]
    have herase : ∑ j ∈ Finset.univ.erase i, (↑(Function.update d.q i s j).accepted : Multiset Mblk) =
        ∑ j ∈ Finset.univ.erase i, (↑(d.q j).accepted : Multiset Mblk) :=
      Finset.sum_congr rfl fun j hj => by rw [Function.update_of_ne (Finset.ne_of_mem_erase hj)]
    rw [herase]
    abel
  rw [held, held, setQueue]
  dsimp only
  rw [add_assoc, hsum]
  abel

/-- The message that `sfxge_tx_packet_add` has left to its caller. -/
theorem held_returned_full (mp : Mblk) (caller : Caller) :
    (d.returned (some ENOSPC) mp caller).held = ↑(mp :: caller.mblks) + d.held := by
  cases caller with
  | gld next =>
    rw [returned, if_pos rfl]
    exact held_back _
  | loopback tmpl count =>
    rw [returned, if_pos (by simp), held_freemsg, held_freemsg, Caller.mblks, ← Multiset.cons_coe,
      ← Multiset.singleton_add, Multiset.coe_singleton]
    abel

theorem held_returned_none (mp : Mblk) (caller : Caller) :
    (d.returned none mp caller).held = ↑caller.mblks + d.held := by
  cases caller with
  | gld next =>
    rw [returned, if_neg (by simp)]
    exact held_gldTx _
  | loopback tmpl count =>
    rw [returned, if_neg (by simp)]
    split_ifs
    · exact held_goto _
    · exact held_freemsg _

/-- `sfxge_gld_tx` goes on with its chain when the message has been freed. -/
theorem held_addFail_gld (mp : Mblk) (next : List Mblk) :
    (d.addFail EINVAL mp (.gld next)).held = ↑(mp :: next) + d.held := by
  rw [addFail, if_pos (by decide), returned, if_neg (by decide), held_gldTx, held_freemsg, ← Multiset.cons_coe,
    ← Multiset.singleton_add]
  abel

theorem held_addFail_full (mp : Mblk) (caller : Caller) :
    (d.addFail ENOSPC mp caller).held = ↑(mp :: caller.mblks) + d.held := by
  rw [addFail, if_neg (by decide)]
  exact held_returned_full mp caller

/-! ### Frames -/

theorem gldTx_frame (mps : List Mblk) : (d.gldTx mps).given = d.given ∧ (d.gldTx mps).q = d.q := by
  cases mps <;> exact ⟨rfl, rfl⟩

theorem returned_frame (rc : Option Errno) (mp : Mblk) (caller : Caller) :
    (d.returned rc mp caller).given = d.given ∧ (d.returned rc mp caller).q = d.q := by
  unfold returned
  cases caller with
  | gld next =>
    dsimp only
    split_ifs
    · exact ⟨rfl, rfl⟩
    · exact gldTx_frame next
  | loopback tmpl count =>
    dsimp only
    split_ifs <;> exact ⟨rfl, rfl⟩

theorem addFail_frame (rc : Errno) (mp : Mblk) (caller : Caller) :
    (d.addFail rc mp caller).given = d.given ∧ (d.addFail rc mp caller).q = d.q := by
  unfold addFail
  split_ifs
  · exact returned_frame (some rc) mp caller
  · exact returned_frame (some rc) mp caller

/-! ### The invariant -/

/-- Every message that the driver has been given is held once. -/
structure Owned (d : Driver n) : Prop where
  queues : ∀ i, Holds (d.q i)
  nodup : d.given.Nodup
  held : ↑d.given = d.held

theorem Owned.same (O : Owned d) (hgiven : d'.given = d.given) (hq : d'.q = d.q) (hheld : d'.held = d.held) :
    Owned d' where
  queues := by
    rw [hq]
    exact O.queues
  nodup := by
    rw [hgiven]
    exact O.nodup
  held := by rw [hgiven, hheld, O.held]

/-- New messages come in. -/
theorem Owned.give (O : Owned d) {mps : List Mblk} (hn : mps.Nodup) (hnew : ∀ mp ∈ mps, mp ∉ d.given)
    (hgiven : d'.given = d.given ++ mps) (hq : d'.q = d.q) (hheld : d'.held = ↑mps + d.held) : Owned d' where
  queues := by
    rw [hq]
    exact O.queues
  nodup := by
    rw [hgiven]
    refine List.nodup_append.mpr ⟨O.nodup, hn, ?_⟩
    rintro mp hmp mp' hmp' rfl
    exact hnew mp hmp' hmp
  held := by rw [hgiven, hheld, ← Multiset.coe_add, O.held, add_comm]

theorem Owned.accepted_nodup (O : Owned d) (i : Fin n) : (d.q i).accepted.Nodup := by
  have hle : (↑(d.q i).accepted : Multiset Mblk) ≤ d.held :=
    (Finset.single_le_sum (f := fun j => (↑(d.q j).accepted : Multiset Mblk)) (fun _ _ => Multiset.zero_le _)
      (Finset.mem_univ i)).trans (Multiset.le_add_left _ _)
  rw [← O.held] at hle
  exact Multiset.coe_nodup.mp (Multiset.nodup_of_le hle (Multiset.coe_nodup.mpr O.nodup))

theorem holds_setQueue (hq : ∀ j, Holds (d.q j)) (i : Fin n) {s : Sys} (H : Holds s) :
    ∀ j, Holds ((d.setQueue i s).q j) := by
  intro j
  by_cases hj : j = i
  · rw [hj]
    change Holds (Function.update d.q i s i)
    rw [Function.update_self]
    exact H
  · change Holds (Function.update d.q i s j)
    rw [Function.update_of_ne hj]
    exact hq j

/-- A packet that is refused for want of room goes back to the caller. -/
theorem Owned.full (O : Owned d) {k : ℕ} {mp : Mblk} {caller : Caller}
    (h : d.senders[k]? = some (.adding mp caller)) : Owned ((d.leave k).addFail ENOSPC mp caller) := by
  obtain ⟨hgiven, hq⟩ := addFail_frame (d := d.leave k) ENOSPC mp caller
  refine O.same hgiven hq ?_
  rw [held_addFail_full, held_leave h]
  rfl

/-- A packet of a chain that is refused otherwise has been freed. -/
theorem Owned.refuse (O : Owned d) {k : ℕ} {t : Sender} {mp : Mblk} {next : List Mblk}
    (h : d.senders[k]? = some t) (ht : t.mblks = mp :: next) :
    Owned ((d.leave k).addFail EINVAL mp (.gld next)) := by
  obtain ⟨hgiven, hq⟩ := addFail_frame (d := d.leave k) EINVAL mp (.gld next)
  refine O.same hgiven hq ?_
  rw [held_addFail_gld, held_leave h, ht]

/-- The packet is on a list of the queue. -/
theorem Owned.accept (O : Owned d) {k : ℕ} {mp : Mblk} {caller : Caller}
    (h : d.senders[k]? = some (.adding mp caller)) (i : Fin n) {s : Sys} (H : Holds s)
    (hacc : s.accepted.Perm (mp :: (d.q i).accepted)) :
    Owned (((d.leave k).setQueue i s).returned none mp caller) := by
  obtain ⟨hgiven, hq⟩ := returned_frame (d := (d.leave k).setQueue i s) none mp caller
  have hheld := held_setQueue (d := d.leave k) i s
  rw [Multiset.coe_eq_coe.mpr hacc] at hheld
  have hmore : ((d.leave k).setQueue i s).held = {mp} + (d.leave k).held := by
    refine add_right_cancel (hheld.trans ?_)
    rw [← Multiset.cons_coe, ← Multiset.singleton_add]
    change {mp} + ↑(d.q i).accepted + (d.leave k).held = {mp} + (d.leave k).held + ↑(d.q i).accepted
    abel
  refine ⟨?_, ?_, ?_⟩
  · rw [hq]
    exact holds_setQueue (d := d.leave k) O.queues i H
  · rw [hgiven]
    exact O.nodup
  · rw [hgiven, held_returned_none, hmore]
    refine O.held.trans ((held_leave h).trans ?_)
    change ↑(mp :: caller.mblks) + (d.leave k).held = _
    rw [← Multiset.cons_coe, ← Multiset.singleton_add]
    abel

/-- A queue that has accepted nothing more. -/
theorem Owned.setQueue (O : Owned d) (i : Fin n) {s : Sys} (H : Holds s)
    (hacc : s.accepted.Perm (d.q i).accepted) : Owned (d.setQueue i s) := by
  have hheld := held_setQueue (d := d) i s
  rw [Multiset.coe_eq_coe.mpr hacc, add_comm] at hheld
  exact ⟨holds_setQueue O.queues i H, O.nodup, O.held.trans (add_left_cancel hheld).symm⟩

/-- `sfxge_tx_loopback` calls `sfxge_tx_packet_add` only while the driver is started. -/
def FindsStarted : DriverOp n → Driver n → Prop
  | .check k, d => ∀ mp tmpl count, d.senders[k]? = some (.enter mp (.loopback tmpl count)) → d.started = true
  | _, _ => True

/-- **Step.** -/
theorem Owned.step (O : Owned d) {op : DriverOp n} (hop : FindsStarted op d) (hs : Driver.step op d = some d') :
    Owned d' := by
  cases op with
  | state started =>
    rw [Driver.step, Option.ite_none_left_eq_some] at hs
    obtain ⟨-, ⟨⟩⟩ := hs
    exact O.same rfl rfl rfl
  | queue i op =>
    obtain ⟨s, hq, rfl⟩ := Option.map_eq_some_iff.mp hs
    obtain ⟨H, hacc⟩ := (O.queues i).queueStep (O.accepted_nodup i) hq
    exact O.setQueue i H (by rw [hacc])
  | gldTx mp next =>
    rw [Driver.step, Option.ite_none_right_eq_some] at hs
    obtain ⟨⟨hn, hnew⟩, ⟨⟩⟩ := hs
    obtain ⟨hgiven, hq⟩ := gldTx_frame (d := d.give (mp :: next)) (mp :: next)
    exact O.give hn hnew hgiven hq (held_gldTx _)
  | loopback count mp =>
    cases mp with
    | none =>
      cases hs
      exact O
    | some mp =>
      rw [Driver.step] at hs
      split_ifs at hs with h0 hmem
      · cases hs
        exact O
      · cases hs
        exact O.give (List.nodup_singleton mp) (by simpa using hmem) rfl rfl (held_goto _)
  | dupb k nmp =>
    unfold Driver.step at hs
    dsimp only at hs
    split at hs
    · next mp count heq =>
      cases hs
      refine O.same rfl rfl ?_
      rw [held_freemsg, held_leave heq]
      rfl
    · next mp count nmp heq =>
      rw [Option.ite_none_left_eq_some] at hs
      obtain ⟨hmem, ⟨⟩⟩ := hs
      refine O.give (List.nodup_singleton nmp) (by simpa using hmem) rfl rfl ?_
      rw [held_goto, held_leave heq]
      change ↑([nmp] ++ [mp]) + (d.leave k).held = ↑[nmp] + (↑[mp] + (d.leave k).held)
      rw [← Multiset.coe_add, add_assoc]
    · cases hs
  | check k =>
    unfold Driver.step at hs
    dsimp only at hs
    split at hs
    · next mp caller heq =>
      split_ifs at hs with hst
      · cases hs
        refine O.same rfl rfl ?_
        rw [held_goto, held_leave heq]
        rfl
      · cases hs
        cases caller with
        | gld next => exact O.refuse heq rfl
        | loopback tmpl count => exact absurd (hop mp tmpl count heq) hst
    · cases hs
  | parse k =>
    unfold Driver.step at hs
    dsimp only at hs
    split at hs
    · next mp next heq =>
      cases hs
      exact O.refuse heq rfl
    · cases hs
  | create k =>
    unfold Driver.step at hs
    dsimp only at hs
    split at hs
    · next mp caller heq =>
      cases hs
      exact O.full heq
    · cases hs
  | add k i stpp mss locked =>
    unfold Driver.step at hs
    dsimp only at hs
    split at hs
    · next mp caller heq =>
      obtain ⟨s, hadd, hd⟩ := Option.map_eq_some_iff.mp hs
      obtain ⟨H, hacc⟩ := (O.queues i).add hadd
      split_ifs at hd hacc
      · subst hd
        exact (O.setQueue i H hacc).full heq
      · subst hd
        exact O.accept heq i H hacc
    · cases hs

theorem owned_initial (pkt : Fin n → ℕ → Packet) (getPktLimit putPktLimit : ℕ) :
    Owned (.initial pkt getPktLimit putPktLimit) where
  queues i := holds_initial (pkt i) getPktLimit putPktLimit
  nodup := List.nodup_nil
  held := by
    have hq : ∀ i, (Sys.initial (pkt i) getPktLimit putPktLimit).accepted = [] := fun _ => rfl
    simp [Driver.held, Driver.initial, hq]

/-! ### Accounting -/

/-- Every message that the driver has been given is, once, with a thread, handed back, freed, on the lists of
a queue or in its ring.  When nothing is left to do, it has been handed back or freed, once. -/
def Accounted (d : Driver n) : Prop :=
  d.given.Nodup ∧
    (∃ mps : Fin n → List Mblk, (∀ i, (d.q i).Listed (mps i)) ∧
      (↑d.given : Multiset Mblk) = ↑(d.senders.flatMap Sender.mblks) + ↑d.back + ↑d.freed +
        ∑ i, (↑(mps i ++ (d.q i).ringed) : Multiset Mblk)) ∧
    (d.senders = [] → (∀ i, (d.q i).Idle) →
      (↑d.given : Multiset Mblk) = ↑d.back + ↑d.freed + ∑ i, (↑(d.q i).rs.stp.freed : Multiset Mblk))

theorem Owned.accounted (O : Owned d) : d.Accounted := by
  choose mps hlisted hperm using fun i => (O.queues i).whereabouts
  have hsum : ∑ i, (↑(d.q i).accepted : Multiset Mblk) = ∑ i, (↑(mps i ++ (d.q i).ringed) : Multiset Mblk) :=
    Finset.sum_congr rfl fun i _ => Multiset.coe_eq_coe.mpr (hperm i)
  have hgiven := O.held
  rw [Driver.held, hsum] at hgiven
  refine ⟨O.nodup, ⟨mps, hlisted, hgiven⟩, fun hsenders hidle => ?_⟩
  have hfreed : ∑ i, (↑(mps i ++ (d.q i).ringed) : Multiset Mblk) =
      ∑ i, (↑(d.q i).rs.stp.freed : Multiset Mblk) := by
    refine Finset.sum_congr rfl fun i _ => ?_
    obtain ⟨hmps, hslots⟩ := (O.queues i).idle (hidle i) (hlisted i)
    rw [hmps, Sys.ringed, hslots]
    rfl
  rw [hgiven, hfreed, hsenders, List.flatMap_nil, Multiset.coe_nil, zero_add]

theorem Accounted.freed_nodup (h : d.Accounted) : d.freed.Nodup := by
  obtain ⟨hn, ⟨mps, -, hgiven⟩, -⟩ := h
  have hle : (↑d.freed : Multiset Mblk) ≤ ↑d.given := by
    rw [hgiven]
    exact (Multiset.le_add_left _ _).trans (Multiset.le_add_right _ _)
  exact Multiset.coe_nodup.mp (Multiset.nodup_of_le hle (Multiset.coe_nodup.mpr hn))

/-- `sfxge_tx_loopback` frees the message that `sfxge_tx_packet_add` has freed. -/
theorem freed_loopback (mp tmpl : Mblk) (count : ℕ) :
    (d.addFail EINVAL mp (.loopback tmpl count)).freed = d.freed ++ [mp, mp, tmpl] := by
  rw [addFail, if_pos (by decide), returned, if_pos (by decide)]
  simp only [freemsg, List.append_assoc, List.cons_append, List.nil_append]

/-- **Ownership.**  Every message is freed once or handed back, in every run, if and only if
`sfxge_tx_loopback` calls `sfxge_tx_packet_add` only while the driver is started. -/
theorem mblks_accounted_iff (pkt : Fin n → ℕ → Packet) (getPktLimit putPktLimit : ℕ) (os : List (DriverOp n)) :
    AlwaysAlong Driver.step Accounted os (.initial pkt getPktLimit putPktLimit) ↔
      StepsAlong Driver.step FindsStarted os (.initial pkt getPktLimit putPktLimit) := by
  have hO := owned_initial pkt getPktLimit putPktLimit
  refine alwaysAlong_iff_of_steps (fun o s s' hO _ hC hs => hO.step hC hs) (fun o s s' hO _ hs => ?_) os hO
    hO.accounted
  refine ⟨fun hP => ?_, fun hC => (hO.step hC hs).accounted⟩
  cases o with
  | check k =>
    intro mp tmpl count heq
    by_contra hst
    unfold Driver.step at hs
    dsimp only at hs
    rw [heq] at hs
    dsimp only at hs
    rw [if_neg hst] at hs
    cases hs
    have hn := hP.freed_nodup
    rw [freed_loopback] at hn
    exact absurd (List.nodup_append.mp hn).2.1 (by simp)
  | _ => trivial

/-- The ioctl sends one packet on a driver that has not been started. -/
def loopbackStopped : List (DriverOp 1) := [.loopback 1 (some 0), .dupb 0 (some 1), .check 0]

/-- The message is freed twice. -/
theorem loopback_frees_twice : ¬ ∀ os : List (DriverOp 1),
    AlwaysAlong Driver.step Accounted os (.initial (fun _ _ => .blank) 1024 1024) := by
  intro h
  obtain ⟨d, hd⟩ : ∃ d, runOps Driver.step loopbackStopped (.initial (fun _ _ => .blank) 1024 1024) = some d :=
    ⟨_, rfl⟩
  have hfreed : d.freed = [1, 1, 0] := by
    cases hd
    rfl
  have hn := ((h loopbackStopped).last hd).freed_nodup
  rw [hfreed] at hn
  exact absurd hn (by decide)

end Driver

end Sfxge.Tx
