import Mathlib.Data.List.Perm.Basic
import Sfxge.Mcdi.Sections

/-!
# Mcdi.Matching — which completion completes which request

Any thread may be between the locked section of a function and its end, and the completion events
the controller owes may arrive in any order, however late.  A request is completed once, and a late
event completes a later request only when the sequence number has come round.
-/

namespace Sfxge.Mcdi

open Lib Lib.Prog Errno

/-! ### The system -/

/-- A function that has dropped the lock and is not done. -/
inductive Finishing
  | poll (sec : PollSection)
  | evCpl (emrp outlen : ℕ) (errcode : U32)
  | evDeath (emrp : Option ℕ) (evCpl : Bool) (rc : Errno)

/-- The request that it will complete: the upper layer is told when the function is done. -/
def Finishing.taken : Finishing → Option ℕ
  | poll sec => sec.taken
  | evCpl emrp _ _ => some emrp
  | evDeath emrp ev _ => if ev then emrp else none

/-- The rest of the function. -/
def Finishing.finish : Finishing → Prog Nic Errno Unit
  | poll sec => efxMcdiRequestPollFinish sec
  | evCpl emrp outlen errcode => efxMcdiEvCplFinish emrp outlen errcode
  | evDeath emrp _ rc => efxMcdiEvDeathFinish emrp rc

/-- A NIC with the functions in progress and the events in flight.  Requests are numbered in the
order in which they are started. -/
structure Sys where
  nic : Nic
  starts : ℕ
  /-- The calls of `efx_mcdi_request_start` that have not sent their request yet. -/
  sending : List (ℕ × Bool × RequestLocals)
  finishing : List Finishing
  /-- The event-mode requests whose completion event has not arrived, with their sequence numbers. -/
  owed : List (ℕ × U32)
  /-- The requests whose completion the upper layer has been told, latest first. -/
  completed : List ℕ

inductive Op
  | start (emr : EfxMcdiReq) (evCpl : Bool)
  | send (i : ℕ)
  | poll
  | abort
  | evCpl (e : ℕ × U32) (outlen : ℕ) (errcode : U32)
  | evDeath (rc : Errno)
  | finish (i : ℕ)
  /-- The controller writes the shared memory and its status. -/
  | firmware (mem : ℕ → U32) (sftStatus : U32)

/-- The system after a part of a function; it does not go on from a failed assertion. -/
def Sys.after {α : Type} (s : Sys) (p : Prog Nic Errno α) (f : α → Sys → Sys) : Option Sys :=
  match p s.nic with
  | .ret a enp => some (f a { s with nic := enp })
  | .err _ _ | .fault | .spin => none

/-- The new request is written at its number and started; the controller owes an event for it. -/
def startOp (emr : EfxMcdiReq) (evCpl : Bool) (s : Sys) : Option Sys :=
  s.after (do setReq s.starts fun _ => emr; efxMcdiRequestStartLocked s.starts evCpl) fun l s =>
    { s with
      starts := s.starts + 1
      sending := s.sending ++ [(s.starts, evCpl, l)]
      owed := if evCpl then (s.starts, l.seq) :: s.owed else s.owed }

def step : Op → Sys → Option Sys
  | .start emr evCpl, s => startOp emr evCpl s
  | .send i, s => s.sending[i]?.bind fun x =>
    s.after (efxMcdiRequestStartSend x.1 x.2.1 x.2.2) fun _ s =>
      { s with sending := s.sending.eraseIdx i }
  | .poll, s => s.after efxMcdiRequestPollLocked fun sec s =>
    { s with finishing := .poll sec :: s.finishing }
  | .abort, s => s.after efxMcdiRequestAbort fun emrp s =>
    { s with completed := emrp.toList ++ s.completed }
  | .evCpl e outlen errcode, s =>
    if e ∈ s.owed then s.after (efxMcdiEvCplLocked e.2) fun emrp s =>
      { s with
        owed := s.owed.erase e
        finishing := (emrp.map fun p => .evCpl p outlen errcode).toList ++ s.finishing }
    else none
  | .evDeath rc, s => s.after (efxMcdiEvDeathLocked rc) fun r s =>
    { s with finishing := .evDeath r.1 r.2 rc :: s.finishing }
  | .finish i, s => s.finishing[i]?.bind fun x => s.after x.finish fun _ s =>
    { s with finishing := s.finishing.eraseIdx i, completed := x.taken.toList ++ s.completed }
  | .firmware mem sftStatus, s => some { s with nic := { s.nic with mem := mem, sftStatus := sftStatus } }

def Step (s s' : Sys) : Prop := ∃ op, step op s = some s'

/-- An initialised interface with no request. -/
def Fresh (s : Sys) : Prop :=
  s.nic.modMcdi = true ∧ s.nic.emip.emiPendingReq = none ∧ s.nic.emip.emiAborted = 0 ∧
    s.starts = 0 ∧ s.sending = [] ∧ s.finishing = [] ∧ s.owed = [] ∧ s.completed = []

theorem after_inv {α : Type} {s s' : Sys} {p : Prog Nic Errno α} {f : α → Sys → Sys}
    (h : s.after p f = some s') : ∃ a enp, p s.nic = .ret a enp ∧ s' = f a { s with nic := enp } := by
  unfold Sys.after at h
  split at h <;> cases h
  rename_i a enp hp
  exact ⟨a, enp, hp, rfl⟩

theorem after_of_ret {α : Type} {s : Sys} {p : Prog Nic Errno α} {f : α → Sys → Sys} {a : α}
    {enp : Nic} (h : p s.nic = .ret a enp) : s.after p f = some (f a { s with nic := enp }) := by
  rw [Sys.after, h]

/-! ### What a step does -/

/-- The requests that have been taken: their completion is on its way or has been told. -/
def Sys.taken (s : Sys) : List ℕ := s.finishing.filterMap Finishing.taken ++ s.completed

/-- All that a step does to the interface, the requests and the events. -/
inductive Moves (s s' : Sys) : Prop
  | start (ev : Bool) : s.nic.core.pending = none →
      s'.nic.core = { s.nic.core with
        pending := some s.starts, evCpl := ev, seq := s.nic.core.seq + 1 } →
      s'.starts = s.starts + 1 →
      s'.owed = (if ev then
        (s.starts, s.nic.core.seq &&& mask32 MCDI_HEADER_SEQ) :: s.owed else s.owed) →
      s'.taken.Perm s.taken → Moves s s'
  /-- The pending request is polled to its end, aborted or terminated. -/
  | finish (emrp : ℕ) : s.nic.core.pending = some emrp →
      s'.nic.core = { s.nic.core with
        pending := none
        aborted := if s.nic.core.evCpl = true then s.nic.core.aborted + 1 else s.nic.core.aborted
        newEpoch := s'.nic.core.newEpoch } →
      (s.nic.core.newEpoch = true → s'.nic.core.newEpoch = true) →
      s'.starts = s.starts → s'.owed = s.owed → s'.taken.Perm (emrp :: s.taken) → Moves s s'
  /-- An event takes the pending request. -/
  | hit (e : ℕ × U32) (emrp : ℕ) : e ∈ s.owed → s.nic.core.Matches e.2 emrp →
      s'.nic.core = { s.nic.core with pending := none } → s'.starts = s.starts →
      s'.owed = s.owed.erase e → s'.taken.Perm (emrp :: s.taken) → Moves s s'
  /-- An event finds no request of its own. -/
  | miss (e : ℕ × U32) : e ∈ s.owed → (∀ emrp, ¬ s.nic.core.Matches e.2 emrp) →
      0 < s.nic.core.aborted.toInt →
      s'.nic.core = { s.nic.core with aborted := s.nic.core.aborted - 1 } → s'.starts = s.starts →
      s'.owed = s.owed.erase e → s'.taken.Perm s.taken → Moves s s'
  | quiet : s'.nic.core = { s.nic.core with newEpoch := s'.nic.core.newEpoch } →
      (s.nic.core.newEpoch = true → s'.nic.core.newEpoch = true) →
      s'.starts = s.starts → s'.owed = s.owed → s'.taken.Perm s.taken → Moves s s'

theorem taken_cons (x : Finishing) (xs : List Finishing) (cs : List ℕ) :
    (x :: xs).filterMap Finishing.taken ++ cs =
      x.taken.toList ++ (xs.filterMap Finishing.taken ++ cs) := by
  cases h : x.taken with
  | none => rw [List.filterMap_cons_none h]; rfl
  | some p => rw [List.filterMap_cons_some h]; rfl

theorem taken_finish {xs : List Finishing} {x : Finishing} {i : ℕ} (h : xs[i]? = some x) (cs : List ℕ) :
    ((xs.eraseIdx i).filterMap Finishing.taken ++ (x.taken.toList ++ cs)).Perm
      (xs.filterMap Finishing.taken ++ cs) := by
  obtain ⟨hi, rfl⟩ := List.getElem?_eq_some_iff.mp h
  have hperm := ((List.getElem_cons_eraseIdx_perm hi).filterMap Finishing.taken).append_right cs
  rw [taken_cons] at hperm
  refine List.Perm.trans ?_ hperm
  rw [← List.append_assoc, ← List.append_assoc]
  exact List.Perm.append_right _ List.perm_append_comm

/-- **Inversion.** -/
theorem step_moves {op : Op} {s s' : Sys} (h : step op s = some s') : Moves s s' := by
  cases op with
  | start emr ev =>
    rw [step, startOp] at h
    obtain ⟨l, enp, hrun, rfl⟩ := after_inv h
    obtain ⟨_, enp1, h1, h2⟩ := bind_ret_inv hrun
    have e1 := keeps_setReq _ _ _ _ _ h1
    obtain ⟨-, hp, rfl, hcore⟩ := start_inv h2
    rw [e1] at hp hcore
    refine .start ev hp hcore rfl ?_ (List.Perm.refl _)
    rw [e1]
  | send i =>
    obtain ⟨x, hx, h⟩ := Option.bind_eq_some_iff.mp h
    obtain ⟨_, enp, hrun, rfl⟩ := after_inv h
    have e := keeps_startSend _ _ _ _ _ _ hrun
    exact .quiet (by rw [← e]) (by rw [← e]; exact id) rfl rfl (List.Perm.refl _)
  | poll =>
    rw [step] at h
    obtain ⟨sec, enp, hrun, rfl⟩ := after_inv h
    obtain ⟨hev, emrp, hp, ⟨ht, hcore⟩ | ⟨ht, hcore⟩⟩ := poll_inv hrun
    · refine .quiet (by rw [← hcore]) (by rw [← hcore]; exact id) rfl rfl ?_
      rw [Sys.taken, taken_cons, Finishing.taken, ht]
      exact List.Perm.refl _
    · refine .finish emrp hp ?_ (by rw [hcore]; exact id) rfl rfl ?_
      · rw [if_neg (by rw [hev]; decide)]
        exact hcore.trans (by rw [hcore])
      · rw [Sys.taken, taken_cons, Finishing.taken, ht]
        exact List.Perm.refl _
  | abort =>
    rw [step] at h
    obtain ⟨r, enp, hrun, rfl⟩ := after_inv h
    obtain ⟨enp1, hrun1, hcore⟩ := abort_run (ε := Errno) (mod_of_abort hrun)
    rw [hrun1] at hrun
    cases hrun
    cases hp : s.nic.core.pending with
    | none =>
      refine .quiet ?_ (by rw [hcore]; exact id) rfl rfl (List.Perm.refl _)
      rw [if_neg (fun h => h.1 hp), ← hp] at hcore
      exact hcore.trans (by rw [hcore])
    | some emrp =>
      refine .finish emrp hp ?_ (by rw [hcore]; exact id) rfl rfl ?_
      · rw [hp] at hcore
        simp only [ne_eq, reduceCtorEq, not_false_eq_true, true_and] at hcore
        exact hcore.trans (by rw [hcore])
      · exact List.perm_middle
  | evCpl e outlen errcode =>
    rw [step] at h
    split_ifs at h with he
    obtain ⟨r, enp, hrun, rfl⟩ := after_inv h
    have hmod := mod_of_evCpl hrun
    by_cases hm : ∃ emrp, s.nic.core.Matches e.2 emrp
    · obtain ⟨emrp, hm⟩ := hm
      obtain ⟨enp1, hrun1, hcore⟩ := evCpl_match (ε := Errno) hmod hm
      rw [hrun1] at hrun
      cases hrun
      exact .hit e emrp he hm hcore rfl rfl (List.Perm.refl _)
    · rw [not_exists] at hm
      have hmiss := evCpl_miss (ε := Errno) hmod hm
      split_ifs at hmiss with hpos
      · obtain ⟨enp1, hrun1, hcore⟩ := hmiss
        rw [hrun1] at hrun
        cases hrun
        exact .miss e he hm hpos hcore rfl rfl (List.Perm.refl _)
      · rw [hmiss] at hrun
        cases hrun
  | evDeath rc =>
    rw [step] at h
    obtain ⟨r, enp, hrun, rfl⟩ := after_inv h
    obtain ⟨enp1, hrun1, hcore⟩ := @evDeath_run Errno s.nic rc
    rw [hrun1] at hrun
    cases hrun
    have hnew : s.nic.core.newEpoch = true → enp.core.newEpoch = true := by
      intro h
      rw [hcore, h, Bool.true_or]
    cases hev : s.nic.core.evCpl with
    | false =>
      refine .quiet ?_ hnew rfl rfl ?_
      · rw [hev, if_neg (by decide), if_neg (fun h => by cases h.2)] at hcore
        exact hcore.trans (by rw [hcore])
      · rw [Sys.taken, taken_cons, Finishing.taken]
        exact List.Perm.refl _
    | true =>
      cases hp : s.nic.core.pending with
      | none =>
        refine .quiet ?_ hnew rfl rfl ?_
        · simp only [hp, ne_eq, not_true_eq_false, false_and, ite_self, if_false] at hcore
          exact hcore.trans (by rw [hcore, ← hp])
        · rw [Sys.taken, taken_cons, Finishing.taken, ite_self]
          exact List.Perm.refl _
      | some emrp =>
        refine .finish emrp hp ?_ hnew rfl rfl ?_
        · rw [if_pos hev, if_pos ⟨by rw [hp]; simp, hev⟩] at hcore
          rw [if_pos hev]
          exact hcore.trans (by rw [hcore])
        · rw [Sys.taken, taken_cons, Finishing.taken, if_pos rfl]
          exact List.Perm.refl _
  | finish i =>
    obtain ⟨x, hx, h⟩ := Option.bind_eq_some_iff.mp h
    obtain ⟨_, enp, hrun, rfl⟩ := after_inv h
    have e : enp.core = s.nic.core := by
      cases x with
      | poll sec => exact keeps_pollFinish _ _ _ _ hrun
      | evCpl emrp outlen errcode => exact keeps_evCplFinish _ _ _ _ _ _ hrun
      | evDeath emrp ev rc => exact keeps_raiseException _ _ _ _ _ hrun
    exact .quiet (by rw [← e]) (by rw [← e]; exact id) rfl rfl (taken_finish hx _)
  | firmware mem sftStatus =>
    cases h
    exact .quiet rfl id rfl rfl (List.Perm.refl _)

/-! ### Once -/

/-- Every request started so far is pending, taken or completed, and only once. -/
structure Once (s : Sys) : Prop where
  mod : s.nic.core.modMcdi = true
  last : ∀ n, s.nic.core.pending = some n → n + 1 = s.starts
  lt : ∀ n ∈ s.taken, n < s.starts
  fresh : ∀ n, s.nic.core.pending = some n → n ∉ s.taken
  nodup : s.taken.Nodup

theorem once_of_fresh {s : Sys} (h : Fresh s) : Once s := by
  obtain ⟨h1, h2, -, -, -, h6, -, h8⟩ := h
  have htaken : s.taken = [] := by rw [Sys.taken, h6, h8]; rfl
  have hp : s.nic.core.pending = none := h2
  refine ⟨h1, ?_, ?_, ?_, ?_⟩
  · intro n hn
    rw [hp] at hn
    cases hn
  · intro n hn
    rw [htaken] at hn
    cases hn
  · intro n hn
    rw [hp] at hn
    cases hn
  · rw [htaken]
    exact List.nodup_nil

/-- A step that takes the pending request. -/
theorem once_take {s s' : Sys} (h : Once s) {p : ℕ} (hp : s.nic.core.pending = some p)
    (hmod : s'.nic.core.modMcdi = true) (hp' : s'.nic.core.pending = none)
    (hstarts : s'.starts = s.starts) (ht : s'.taken.Perm (p :: s.taken)) : Once s' := by
  have hnone : ∀ n, s'.nic.core.pending ≠ some n := by
    intro n hn
    rw [hp'] at hn
    cases hn
  refine ⟨hmod, fun n hn => absurd hn (hnone n), ?_, fun n hn => absurd hn (hnone n), ?_⟩
  · intro n hn
    rw [hstarts]
    rcases List.mem_cons.mp (ht.subset hn) with rfl | hn
    · have := h.last n hp
      omega
    · exact h.lt n hn
  · exact ht.nodup_iff.mpr (List.nodup_cons.mpr ⟨h.fresh p hp, h.nodup⟩)

theorem once_quiet {s s' : Sys} (h : Once s) (hmod : s'.nic.core.modMcdi = s.nic.core.modMcdi)
    (hp' : s'.nic.core.pending = s.nic.core.pending)
    (hstarts : s'.starts = s.starts) (ht : s'.taken.Perm s.taken) : Once s' := by
  refine ⟨hmod.trans h.mod, ?_, ?_, ?_, ht.nodup_iff.mpr h.nodup⟩
  · rw [hp', hstarts]
    exact h.last
  · intro n hn
    rw [hstarts]
    exact h.lt n (ht.subset hn)
  · intro n hn hmem
    rw [hp'] at hn
    exact h.fresh n hn (ht.subset hmem)

/-- **Step lemma.** -/
theorem once_step {s s' : Sys} (h : Once s) (hs : Moves s s') : Once s' := by
  rcases hs with ⟨ev, hp, hcore, hstarts, howed, ht⟩ | ⟨p, hp, hcore, hnew, hstarts, howed, ht⟩ |
    ⟨e, p, he, hm, hcore, hstarts, howed, ht⟩ | ⟨e, he, hm, hpos, hcore, hstarts, howed, ht⟩ |
    ⟨hcore, hnew, hstarts, howed, ht⟩
  · have hp' : s'.nic.core.pending = some s.starts := by rw [hcore]
    refine ⟨by rw [hcore]; exact h.mod, ?_, ?_, ?_, ht.nodup_iff.mpr h.nodup⟩
    · intro n hn
      rw [hp'] at hn
      cases hn
      exact hstarts.symm
    · intro n hn
      have := h.lt n (ht.subset hn)
      omega
    · intro n hn hmem
      rw [hp'] at hn
      cases hn
      exact absurd (h.lt _ (ht.subset hmem)) (Nat.lt_irrefl _)
  · exact once_take h hp (by rw [hcore]; exact h.mod) (by rw [hcore]) hstarts ht
  · exact once_take h hm.1 (by rw [hcore]; exact h.mod) (by rw [hcore]) hstarts ht
  · exact once_quiet h (by rw [hcore]) (by rw [hcore]) hstarts ht
  · exact once_quiet h (by rw [hcore]) (by rw [hcore]) hstarts ht

/-! ### Sequence numbers -/

/-- The sequence number of the `n`-th request, when the count began at `base`. -/
def seqOf (base : U32) (n : ℕ) : U32 := (base + BitVec.ofNat 32 n) &&& mask32 MCDI_HEADER_SEQ

theorem toNat_seqOf (base : U32) (n : ℕ) : (seqOf base n).toNat = (base.toNat + n) % 16 := by
  have hm : mask32 MCDI_HEADER_SEQ = 15#32 := rfl
  rw [seqOf, hm, BitVec.toNat_and]
  have h15 : (15#32 : BitVec 32).toNat = 2 ^ 4 - 1 := rfl
  rw [h15, Nat.and_two_pow_sub_one_eq_mod, BitVec.toNat_add, BitVec.toNat_ofNat]
  omega

/-- `emi_seq` counts the requests, and an event bears the number of its request. -/
structure Numbered (base : U32) (s : Sys) : Prop where
  seq : s.nic.core.seq = base + BitVec.ofNat 32 s.starts
  owed_lt : ∀ e ∈ s.owed, e.1 < s.starts
  owed_seq : ∀ e ∈ s.owed, e.2 = seqOf base e.1

theorem numbered_erase {base : U32} {s s' : Sys} (h : Numbered base s) (e : ℕ × U32)
    (hseq : s'.nic.core.seq = s.nic.core.seq) (hstarts : s'.starts = s.starts)
    (howed : s'.owed = s.owed.erase e) : Numbered base s' := by
  refine ⟨by rw [hseq, hstarts]; exact h.seq, ?_, ?_⟩
  · intro x hx
    rw [howed] at hx
    rw [hstarts]
    exact h.owed_lt x (List.mem_of_mem_erase hx)
  · intro x hx
    rw [howed] at hx
    exact h.owed_seq x (List.mem_of_mem_erase hx)

theorem numbered_quiet {base : U32} {s s' : Sys} (h : Numbered base s)
    (hseq : s'.nic.core.seq = s.nic.core.seq) (hstarts : s'.starts = s.starts)
    (howed : s'.owed = s.owed) : Numbered base s' :=
  ⟨by rw [hseq, hstarts]; exact h.seq, by rw [howed, hstarts]; exact h.owed_lt,
    by rw [howed]; exact h.owed_seq⟩

/-- **Step lemma.** -/
theorem numbered_step {base : U32} {s s' : Sys} (h : Numbered base s) (hs : Moves s s') :
    Numbered base s' := by
  rcases hs with ⟨ev, hp, hcore, hstarts, howed, ht⟩ | ⟨p, hp, hcore, hnew, hstarts, howed, ht⟩ |
    ⟨e, p, he, hm, hcore, hstarts, howed, ht⟩ | ⟨e, he, hm, hpos, hcore, hstarts, howed, ht⟩ |
    ⟨hcore, hnew, hstarts, howed, ht⟩
  · have hmem : ∀ x ∈ s'.owed, x ∈ s.owed ∨
        x = (s.starts, s.nic.core.seq &&& mask32 MCDI_HEADER_SEQ) := by
      intro x hx
      rw [howed] at hx
      split_ifs at hx
      · exact (List.mem_cons.mp hx).symm
      · exact Or.inl hx
    refine ⟨?_, ?_, ?_⟩
    · have hseq : s'.nic.core.seq = s.nic.core.seq + 1 := by rw [hcore]
      rw [hseq, hstarts, h.seq, BitVec.ofNat_add, BitVec.add_assoc]
      rfl
    · intro x hx
      rw [hstarts]
      rcases hmem x hx with hx | rfl
      · exact Nat.lt_succ_of_lt (h.owed_lt x hx)
      · exact Nat.lt_succ_self _
    · intro x hx
      rcases hmem x hx with hx | rfl
      · exact h.owed_seq x hx
      · rw [seqOf, ← h.seq]
  · exact numbered_quiet h (by rw [hcore]) hstarts howed
  · exact numbered_erase h e (by rw [hcore]) hstarts howed
  · exact numbered_erase h e (by rw [hcore]) hstarts howed
  · exact numbered_quiet h (by rw [hcore]) hstarts howed

/-- The number a completion event must bear. -/
theorem lastSeq_eq {base : U32} {s : Sys} (h : Numbered base s) {p : ℕ} (hp : p + 1 = s.starts) :
    s.nic.core.lastSeq = seqOf base p := by
  rw [Core.lastSeq, h.seq, ← hp, BitVec.ofNat_add, ← BitVec.add_assoc, seqOf]
  congr 1
  exact BitVec.add_sub_cancel _ _

/-- An event that takes a request not its own comes after sixteen more have been started. -/
theorem late_event {base : U32} {s : Sys} (ho : Once s) (h : Numbered base s) {e : ℕ × U32}
    (he : e ∈ s.owed) {p : ℕ} (hm : s.nic.core.Matches e.2 p) (hne : p ≠ e.1) :
    e.1 + 16 < s.starts := by
  obtain ⟨hp, -, hseq⟩ := hm
  have hlast := ho.last p hp
  rw [lastSeq_eq h hlast, h.owed_seq e he] at hseq
  have hnat := congrArg BitVec.toNat hseq
  rw [toNat_seqOf, toNat_seqOf] at hnat
  have hlt := h.owed_lt e he
  omega

/-! ### Credits -/

/-- `emi_aborted` covers the events still owed to requests that are not pending. -/
structure Credited (s : Sys) : Prop where
  nonneg : 0 ≤ s.nic.core.aborted.toInt
  covers : (s.owed.length : ℤ) ≤ s.nic.core.aborted.toInt +
    if s.nic.core.pending ≠ none ∧ s.nic.core.evCpl = true then 1 else 0
  /-- The event of the pending request is one of them. -/
  own : ∀ p, s.nic.core.pending = some p → s.nic.core.evCpl = true → ∃ seq, (p, seq) ∈ s.owed

theorem credited_of_fresh {s : Sys} (h : Fresh s) : Credited s := by
  obtain ⟨-, h2, h3, -, -, -, h7, -⟩ := h
  have ha : s.nic.core.aborted = 0 := h3
  have hp : s.nic.core.pending = none := h2
  refine ⟨by rw [ha]; decide, ?_, ?_⟩
  · rw [h7, ha, if_neg (fun h => h.1 hp)]
    decide
  · intro p hp'
    rw [hp] at hp'
    cases hp'

/-- No credit is given beyond the largest `int`. -/
def CreditFits (s s' : Sys) : Prop :=
  s.nic.core.aborted = BitVec.intMax 32 → s'.nic.core.aborted ≠ BitVec.intMin 32

theorem toInt_add_one {a : BitVec 32} (h : a = BitVec.intMax 32 → a + 1 ≠ BitVec.intMin 32) :
    (a + 1).toInt = a.toInt + 1 := by
  by_cases ha : a = BitVec.intMax 32
  · subst ha
    exact absurd rfl (h rfl)
  · have hne : a.toNat ≠ 2147483647 := by
      intro hn
      exact ha (BitVec.eq_of_toNat_eq hn)
    have hlt := a.isLt
    rw [BitVec.toInt_eq_toNat_cond, BitVec.toInt_eq_toNat_cond, BitVec.toNat_add]
    rw [show (1 : BitVec 32).toNat = 1 from rfl]
    split_ifs <;> omega

theorem toInt_sub_one {a : BitVec 32} (h : 0 < a.toInt) : (a - 1).toInt = a.toInt - 1 := by
  have hlt := a.isLt
  rw [BitVec.toInt_eq_toNat_cond] at h ⊢
  rw [BitVec.toInt_eq_toNat_cond, BitVec.toNat_sub, show (1 : BitVec 32).toNat = 1 from rfl]
  split_ifs at h ⊢ <;> omega

/-- **Step lemma.** -/
theorem credited_step {base : U32} {s s' : Sys} (h : Credited s) (ho : Once s) (hn : Numbered base s)
    (hfit : CreditFits s s') (hs : Moves s s') : Credited s' := by
  have hcov := h.covers
  rcases hs with ⟨ev, hp, hcore, hstarts, howed, ht⟩ | ⟨p, hp, hcore, hnew, hstarts, howed, ht⟩ |
    ⟨e, p, he, hm, hcore, hstarts, howed, ht⟩ | ⟨e, he, hm, hpos, hcore, hstarts, howed, ht⟩ |
    ⟨hcore, hnew, hstarts, howed, ht⟩
  · have ha : s'.nic.core.aborted = s.nic.core.aborted := by rw [hcore]
    have hp' : s'.nic.core.pending = some s.starts := by rw [hcore]
    have hev' : s'.nic.core.evCpl = ev := by rw [hcore]
    rw [if_neg (fun h => h.1 hp)] at hcov
    refine ⟨by rw [ha]; exact h.nonneg, ?_, ?_⟩
    · rw [ha, hp', hev', howed]
      cases ev
      · rw [if_neg (by decide), if_neg (fun h => by cases h.2)]
        exact hcov
      · rw [if_pos rfl, if_pos ⟨by simp, rfl⟩, List.length_cons]
        push_cast
        omega
    · intro p hpp hee
      rw [hp'] at hpp
      cases hpp
      rw [hev'] at hee
      rw [howed, if_pos hee]
      exact ⟨_, List.mem_cons_self⟩
  · have hp' : s'.nic.core.pending = none := by rw [hcore]
    have ha : s'.nic.core.aborted = if s.nic.core.evCpl = true then s.nic.core.aborted + 1
        else s.nic.core.aborted := by rw [hcore]
    have hint : s'.nic.core.aborted.toInt =
        s.nic.core.aborted.toInt + if s.nic.core.evCpl = true then 1 else 0 := by
      rw [CreditFits, ha] at hfit
      rw [ha]
      split_ifs at hfit ⊢
      · exact toInt_add_one hfit
      · exact (add_zero _).symm
    have hnonneg := h.nonneg
    refine ⟨?_, ?_, ?_⟩
    · rw [hint]
      split_ifs <;> omega
    · have hno : (if s'.nic.core.pending ≠ none ∧ s'.nic.core.evCpl = true then (1 : ℤ) else 0) = 0 :=
        if_neg fun h => h.1 hp'
      rw [howed, hint, hno]
      rw [hp] at hcov
      simpa using hcov
    · intro q hq
      rw [hp'] at hq
      cases hq
  · have hp' : s'.nic.core.pending = none := by rw [hcore]
    have ha : s'.nic.core.aborted = s.nic.core.aborted := by rw [hcore]
    have hlen := List.length_erase_of_mem he
    have hpos := List.length_pos_of_mem he
    refine ⟨by rw [ha]; exact h.nonneg, ?_, ?_⟩
    · rw [howed, ha, if_neg (fun h => h.1 hp')]
      rw [if_pos ⟨by rw [hm.1]; simp, hm.2.1⟩] at hcov
      omega
    · intro q hq
      rw [hp'] at hq
      cases hq
  · have hp' : s'.nic.core.pending = s.nic.core.pending := by rw [hcore]
    have hev' : s'.nic.core.evCpl = s.nic.core.evCpl := by rw [hcore]
    have ha : s'.nic.core.aborted = s.nic.core.aborted - 1 := by rw [hcore]
    have hint := toInt_sub_one hpos
    have hlen := List.length_erase_of_mem he
    have hpos' := List.length_pos_of_mem he
    refine ⟨by rw [ha]; omega, ?_, ?_⟩
    · rw [howed, ha, hp', hev', hint]
      omega
    · intro q hq hev
      rw [hp'] at hq
      rw [hev'] at hev
      obtain ⟨seq, hseq⟩ := h.own q hq hev
      refine ⟨seq, ?_⟩
      rw [howed]
      -- the event of the pending request would have matched
      refine (List.mem_erase_of_ne fun heq => ?_).mpr hseq
      refine hm q ⟨hq, hev, ?_⟩
      rw [← heq, lastSeq_eq hn (ho.last q hq)]
      exact hn.owed_seq _ hseq
  · have hp' : s'.nic.core.pending = s.nic.core.pending := by rw [hcore]
    have hev' : s'.nic.core.evCpl = s.nic.core.evCpl := by rw [hcore]
    have ha : s'.nic.core.aborted = s.nic.core.aborted := by rw [hcore]
    exact ⟨by rw [ha]; exact h.nonneg, by rw [howed, ha, hp', hev']; exact hcov,
      by rw [howed, hp', hev']; exact h.own⟩

/-- An owed event that matches nothing meets a credit. -/
theorem credit_pos {base : U32} {s : Sys} (h : Credited s) (ho : Once s) (hn : Numbered base s)
    {e : ℕ × U32} (he : e ∈ s.owed) (hm : ∀ p, ¬ s.nic.core.Matches e.2 p) :
    0 < s.nic.core.aborted.toInt := by
  have hcov := h.covers
  have hpos := List.length_pos_of_mem he
  split_ifs at hcov with hc
  · -- the event of the pending request is another one
    obtain ⟨p, hp⟩ := Option.ne_none_iff_exists'.mp hc.1
    obtain ⟨seq, hseq⟩ := h.own p hp hc.2
    have hne : (p, seq) ≠ e := by
      intro heq
      refine hm p ⟨hp, hc.2, ?_⟩
      rw [← heq, lastSeq_eq hn (ho.last p hp)]
      exact hn.owed_seq _ hseq
    have hlen := List.length_erase_of_mem he
    have hpos' := List.length_pos_of_mem ((List.mem_erase_of_ne hne).mpr hseq)
    omega
  · omega

/-! ### Runs -/

theorem once_reachable {s : Sys} (h : Reach Fresh Step s) : Once s := by
  refine h.inv Once (fun s => once_of_fresh) fun s s' hI hs => ?_
  obtain ⟨op, hop⟩ := hs
  exact once_step hI (step_moves hop)

theorem numbered_reachable {s : Sys} (h : Reach Fresh Step s) : Once s ∧ ∃ base, Numbered base s := by
  refine h.inv (fun s => Once s ∧ ∃ base, Numbered base s) (fun s hs => ⟨once_of_fresh hs, ?_⟩)
    fun s s' hI hs => ?_
  · obtain ⟨-, -, -, h4, -, -, h7, -⟩ := hs
    refine ⟨s.nic.core.seq, ?_, ?_, ?_⟩
    · rw [h4]
      exact (BitVec.add_zero _).symm
    · intro e he
      rw [h7] at he
      cases he
    · intro e he
      rw [h7] at he
      cases he
  · obtain ⟨op, hop⟩ := hs
    obtain ⟨ho, base, hn⟩ := hI
    have hm := step_moves hop
    exact ⟨once_step ho hm, base, numbered_step hn hm⟩

/-- A step that gives no credit beyond the largest `int`. -/
def StepFits (s s' : Sys) : Prop := Step s s' ∧ CreditFits s s'

theorem credited_reachable {s : Sys} (h : Reach Fresh StepFits s) :
    Reach Fresh Step s ∧ Credited s := by
  refine h.inv (fun s => Reach Fresh Step s ∧ Credited s)
    (fun s hs => ⟨.start hs, credited_of_fresh hs⟩) fun s s' hI hs => ?_
  obtain ⟨⟨op, hop⟩, hfit⟩ := hs
  obtain ⟨ho, base, hn⟩ := numbered_reachable hI.1
  exact ⟨.next hI.1 ⟨op, hop⟩, credited_step hI.2 ho hn hfit (step_moves hop)⟩

/-- The event of request `e.1` completes request `p`. -/
def Completes (s : Sys) (e : ℕ × U32) (p : ℕ) : Prop :=
  ∃ enp', (efxMcdiEvCplLocked e.2 : Prog Nic Errno _) s.nic = .ret (some p) enp'

theorem matches_of_completes {s : Sys} (hmod : s.nic.core.modMcdi = true) {e : ℕ × U32} {p : ℕ}
    (h : Completes s e p) : s.nic.core.Matches e.2 p := by
  obtain ⟨enp', hrun⟩ := h
  by_cases hm : ∃ emrp, s.nic.core.Matches e.2 emrp
  · obtain ⟨emrp, hm⟩ := hm
    obtain ⟨enp1, hrun1, -⟩ := evCpl_match (ε := Errno) hmod hm
    rw [hrun1] at hrun
    cases hrun
    exact hm
  · rw [not_exists] at hm
    have hmiss := evCpl_miss (ε := Errno) hmod hm
    split_ifs at hmiss
    · obtain ⟨enp1, hrun1, -⟩ := hmiss
      rw [hrun1] at hrun
      cases hrun
    · rw [hmiss] at hrun
      cases hrun

/-- A controller just initialised. -/
def freshNic : Nic where
  family := .HUNTINGTON
  modMcdi := true
  emip := ⟨2, 0, none, false, true, 0, 0, 0⟩
  req _ := ⟨false, 0, [], 0, none, none, 0, 0, 0, 0⟩
  mem _ := 0
  sftStatus := 0
  sent := []
  exceptions := []

def freshSys : Sys := ⟨freshNic, 0, [], [], [], []⟩

theorem fresh_freshSys : Fresh freshSys := ⟨rfl, rfl, rfl, rfl, rfl, rfl, rfl, rfl⟩

/-- A request is started and aborted, and its event does not come. -/
theorem start_abort {s : Sys} (h : Reach Fresh Step s) (hmod : s.nic.core.modMcdi = true)
    (hp : s.nic.core.pending = none) : ∃ s', Reach Fresh Step s' ∧ s'.nic.core.modMcdi = true ∧
      s'.nic.core.pending = none ∧ s'.nic.core.aborted = s.nic.core.aborted + 1 ∧
      s'.owed.length = s.owed.length + 1 := by
  obtain ⟨_, enp1, hset⟩ : ∃ u enp1, (setReq s.starts fun _ => s.nic.req 0 : Prog Nic Errno Unit) s.nic =
      .ret u enp1 := ⟨_, _, rfl⟩
  have e1 := keeps_setReq _ _ _ _ _ hset
  obtain ⟨l, enp2, hstart⟩ := start_run (ε := Errno) s.starts true (by rw [e1]; exact hmod)
    (by rw [e1]; exact hp)
  obtain ⟨-, -, -, e2⟩ := start_inv hstart
  let s1 : Sys := { s with
    nic := enp2
    starts := s.starts + 1
    sending := s.sending ++ [(s.starts, true, l)]
    owed := (s.starts, l.seq) :: s.owed }
  have hs1 : step (.start (s.nic.req 0) true) s = some s1 := by
    rw [step, startOp, after_of_ret ((bind_of_ret hset).trans hstart)]
    rfl
  have hmod2 : enp2.core.modMcdi = true := by rw [e2, e1]; exact hmod
  obtain ⟨enp3, habort, e3⟩ := abort_run (ε := Errno) hmod2
  have hs2 : step .abort s1 = some { s1 with
      nic := enp3, completed := enp2.core.pending.toList ++ s1.completed } := by
    rw [step, after_of_ret habort]
  refine ⟨_, .next (.next h ⟨_, hs1⟩) ⟨_, hs2⟩, ?_, ?_, ?_, rfl⟩
  · change enp3.core.modMcdi = true
    rw [e3]
    exact hmod2
  · change enp3.core.pending = none
    rw [e3]
  · change enp3.core.aborted = _
    rw [e3, if_pos ⟨by rw [e2]; simp, by rw [e2]⟩, e2, e1]

/-- `emi_aborted` counts the requests aborted, as an `int` does. -/
theorem aborted_run (n : ℕ) : ∃ s, Reach Fresh Step s ∧ s.nic.core.modMcdi = true ∧
    s.nic.core.pending = none ∧ s.nic.core.aborted = BitVec.ofNat 32 n ∧ s.owed.length = n := by
  induction n with
  | zero => exact ⟨freshSys, .start fresh_freshSys, rfl, rfl, rfl, rfl⟩
  | succ n ih =>
    obtain ⟨s, h, hmod, hp, ha, hl⟩ := ih
    obtain ⟨s', h', hmod', hp', ha', hl'⟩ := start_abort h hmod hp
    refine ⟨s', h', hmod', hp', ?_, by rw [hl', hl]⟩
    rw [ha', ha, BitVec.ofNat_add]
    rfl

end Sfxge.Mcdi
