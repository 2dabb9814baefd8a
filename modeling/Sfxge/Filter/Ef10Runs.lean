import Sfxge.Filter.Ef10Table

/-!
# Filter.Ef10Runs — runs of filter calls, and the entries a restore leaves busy

A run is a list of calls from `ef10_filter_init`; `ef10_filter_reconfigure` is made of the calls `setAutoOld`,
`add` and `deleteInternal`.  `ef10_filter_restore` leaves an entry `BUSY` exactly when the firmware refuses it
(`restores_iff`).
-/

namespace Sfxge.Filter.Ef10

open Lib Lib.Prog Errno

variable {nic nic' : Nic} {spec saved : FilterSpec} {i j : Row} {out : FilterOpOut}

/-! ### Delete -/

/-- A request that programs no rule. -/
theorem execute_bind_state {req : FilterOpIn} (hreq : req.op = .REMOVE ∨ req.op = .UNSUBSCRIBE) {c : Prop}
    [Decidable c] (out : FilterOpOut) (nic : Nic) :
    ((efxMcdiExecute req out >>= fun _ => ensure c EMSGSIZE : Prog Nic Errno Unit) nic).state? = some nic := by
  cases hrc : out.rc with
  | some rc =>
    have hrun : efxMcdiExecute req out nic = .err rc nic := by
      rw [efxMcdiExecute, hrc]
      rfl
    rw [bind_of_err hrun]
    rfl
  | none =>
    have hrun : efxMcdiExecute req out nic = .ret () nic := by
      rw [efxMcdiExecute, hrc]
      change Res.ret () (nic.program req out) = _
      rw [Nic.program]
      rcases hreq with h | h <;> rw [h]
    rw [bind_of_ret hrun]
    by_cases h : c
    · rw [ensure_pos h]
      rfl
    · rw [ensure_neg h]
      rfl

theorem filterOpDelete_state (op : FilterOp) (i : Row) (out : FilterOpOut) (nic : Nic) :
    (efxMcdiFilterOpDelete op i out nic).state? = some nic := by
  cases op with
  | INSERT | SUBSCRIBE | REPLACE => rfl
  | REMOVE => exact execute_bind_state (.inl rfl) out nic
  | UNSUBSCRIBE => exact execute_bind_state (.inr rfl) out nic

/-- **Delete.**  Nothing changes, or an entry that was not busy is given up. -/
theorem deleteInternal_state {filterId : U32} (h : (ef10FilterDeleteInternal filterId out nic).state? = some nic') :
    nic' = nic ∨ ∃ i, nic' = nic.dropped i := by
  rw [ef10FilterDeleteInternal, bind_of_ret (get_apply nic)] at h
  generalize (Fin.ofNat EFX_EF10_FILTER_TBL_ROWS filterId.toNat : Row) = i at h
  cases hb : (nic.entry i).busy with
  | true =>
    rw [hb] at h
    cases h
  | false =>
    rw [hb, if_neg (by simp)] at h
    cases hs : (nic.entry i).spec with
    | none =>
      rw [hs] at h
      cases h
      exact .inl rfl
    | some spec =>
      rw [hs] at h
      simp only at h
      generalize (if ef10FilterIsExclusive spec then FilterOp.REMOVE else .UNSUBSCRIBE) = op at h
      have hmark : ef10FilterSetEntryBusy i nic = .ret () (nic.setEntry i ((nic.entry i).withBusy true)) := rfl
      rw [bind_of_ret hmark] at h
      have hop := filterOpDelete_state op i out (nic.setEntry i ((nic.entry i).withBusy true))
      have hatt : ∃ r, (attempt (efxMcdiFilterOpDelete op i out) : Prog Nic Errno _)
          (nic.setEntry i ((nic.entry i).withBusy true)) =
          .ret r (nic.setEntry i ((nic.entry i).withBusy true)) := by
        unfold attempt
        cases hrun : efxMcdiFilterOpDelete op i out (nic.setEntry i ((nic.entry i).withBusy true)) with
        | ret u s => rw [hrun] at hop; cases hop; exact ⟨_, rfl⟩
        | err e s => rw [hrun] at hop; cases hop; exact ⟨_, rfl⟩
        | fault => rw [hrun] at hop; cases hop
        | spin => rw [hrun] at hop; cases hop
      obtain ⟨r, hr⟩ := hatt
      have hdrop : ((nic.setEntry i ((nic.entry i).withBusy true)).setEntry i
          (((nic.entry i).withBusy true).withBusy false)).setEntry i
          ((((nic.entry i).withBusy true).withBusy false).withSpec none) = nic.dropped i := by
        rw [setEntry_setEntry, setEntry_setEntry]
        rfl
      have hclear : ef10FilterSetEntryNotBusy i (nic.setEntry i ((nic.entry i).withBusy true)) =
          .ret () ((nic.setEntry i ((nic.entry i).withBusy true)).setEntry i
            (((nic.entry i).withBusy true).withBusy false)) := by
        rw [ef10FilterSetEntryNotBusy, modify_apply, setEntry_self]
      have hnull : ef10FilterSetEntry i none ((nic.setEntry i ((nic.entry i).withBusy true)).setEntry i
          (((nic.entry i).withBusy true).withBusy false)) = .ret () (nic.dropped i) := by
        rw [ef10FilterSetEntry, modify_apply, setEntry_self, hdrop]
      rw [bind_of_ret hr, bind_of_ret hclear, bind_of_ret hnull] at h
      refine .inr ⟨i, ?_⟩
      cases r <;> cases h <;> rfl

theorem delete_state (h : (ef10FilterDelete spec out nic).state? = some nic') :
    nic' = nic ∨ ∃ i, nic' = nic.dropped i := by
  rw [ef10FilterDelete, bind_of_ret (get_apply nic)] at h
  cases hf : (searchRows spec).find? (nic.isTarget spec) with
  | none =>
    rw [hf] at h
    cases h
    exact .inl rfl
  | some i =>
    rw [hf] at h
    exact deleteInternal_state h

/-! ### Runs -/

/-- A call of the filter code. -/
inductive Op where
  | add (spec : FilterSpec) (mayReplace alloc : Bool) (out : FilterOpOut)
  | delete (spec : FilterSpec) (out : FilterOpOut)
  | deleteInternal (filterId : U32) (out : FilterOpOut)
  | restore (answers : Row → FilterOpOut)
  | setAutoOld (i : Row)
  | setRssContext (rssContext : U32)

def Op.call : Op → Prog Nic Errno Unit
  | add spec mayReplace alloc out => ef10FilterAdd spec mayReplace alloc out
  | delete spec out => ef10FilterDelete spec out
  | deleteInternal filterId out => ef10FilterDeleteInternal filterId out
  | restore answers => ef10FilterRestore answers
  | setAutoOld i => ef10FilterSetEntryAutoOld i
  | setRssContext rssContext => modify fun nic => { nic with rssContext }

/-- The state after a call, however it returns. -/
def step (o : Op) (nic : Nic) : Option Nic := (o.call nic).state?

/-- The table of `ef10_filter_init`. -/
def Fresh (nic : Nic) : Prop := ∃ rssContext, nic = ef10FilterInit rssContext

/-- A state that calls reach from `ef10_filter_init`. -/
def Reachable : Nic → Prop := Reach Fresh fun nic nic' => ∃ o, step o nic = some nic'

/-- What a call of add leaves. -/
theorem add_ends {mayReplace alloc : Bool} (h : step (.add spec mayReplace alloc out) nic = some nic') :
    ∃ r, AddEnds nic (spec.inContext nic.rssContext) mayReplace alloc out r ∧ r.state? = some nic' := by
  refine ⟨_, addInternal_ends nic spec mayReplace alloc out, ?_⟩
  change (ef10FilterAdd spec mayReplace alloc out nic).state? = _ at h
  rw [ef10FilterAdd, bind_apply] at h
  cases hr : ef10FilterAddInternal spec mayReplace alloc out nic <;> rw [hr] at h <;> exact h

/-! ### No entry stays busy -/

/-- No entry is being worked on. -/
def Idle (nic : Nic) : Prop := ∀ i, (nic.entry i).busy = false

theorem Idle.setEntry {e : FilterEntry} (h : Idle nic) (he : e.busy = false) : Idle (nic.setEntry i e) := by
  intro j
  by_cases hj : j = i
  · rw [hj, setEntry_self, he]
  · rw [setEntry_ne _ _ hj]
    exact h j

theorem Idle.congr (h : Idle nic) (he : nic'.entry = nic.entry) : Idle nic' := fun i => by rw [he]; exact h i

theorem Idle.add {mayReplace alloc : Bool} {r : Res Nic Errno Row} (h : Idle nic)
    (hr : AddEnds nic spec mayReplace alloc out r) (hs : r.state? = some nic') : Idle nic' := by
  cases hr with
  | spins => cases hs
  | full | exist | noMemory => cases hs; exact h
  | refresh i => cases hs; exact h.setEntry (h i)
  | replaced i => cases hs; exact (h.congr (told_entry ..)).setEntry (h i)
  | notReplaced | notAdded => cases hs; exact (h.congr (told_entry ..)).setEntry rfl
  | added i => cases hs; exact (h.congr (told_entry ..)).setEntry rfl

/-- **Restore, all accepted.** -/
theorem restore_accepted {answers : Row → FilterOpOut} (hidle : Idle nic)
    (hall : ∀ i spec, (nic.entry i).spec = some spec → (answers i).Accepted) :
    ∃ nic', ef10FilterRestore answers nic = .ret () nic' ∧ ∀ i, nic'.entry i =
      if (nic.entry i).spec = none then nic.entry i else (nic.entry i).withHandle (answers i).handle := by
  have hloop : ∃ s, forEach (restoreRow answers) allRows nic = .ret () s ∧
      ∀ i, s.entry i = if (nic.entry i).spec = none ∨ i ∉ allRows then nic.entry i
        else (nic.entry i).withHandle (answers i).handle := by
    refine forEach_rule (fun done (s : Nic) => ∀ i, s.entry i = if (nic.entry i).spec = none ∨ i ∉ done then nic.entry i
      else (nic.entry i).withHandle (answers i).handle) allRows (by simp) fun done i s _ hI => ?_
    have hsame : (s.entry i).spec = (nic.entry i).spec ∧ (s.entry i).busy = false := by
      rw [hI i]
      split_ifs
      · exact ⟨rfl, hidle i⟩
      · exact ⟨rfl, hidle i⟩
    cases hs : (nic.entry i).spec with
    | none =>
      refine ⟨s, restoreRow_skips (.inl (hsame.1.trans hs)) answers, fun j => ?_⟩
      rw [hI j]
      by_cases hj : j = i
      · simp [hj, hs]
      · simp [hj]
    | some spec =>
      refine ⟨_, restoreRow_accepted (hsame.1.trans hs) hsame.2 (hall i spec hs), fun j => ?_⟩
      by_cases hj : j = i
      · subst hj
        rw [setEntry_self, hI j, if_neg (c := _ ∨ j ∉ done ++ [j]) (by simp [hs])]
        split_ifs
        · rfl
        · rfl
      · rw [setEntry_ne _ _ hj, Nic.asked, told_entry, hI j]
        simp [hj]
  obtain ⟨nic', hrun, hentry⟩ := hloop
  refine ⟨nic', hrun, fun i => ?_⟩
  rw [hentry i]
  simp [allRows]

/-- **Restore, one refused**: an entry stays busy. -/
theorem restore_rejected (answers : Row → FilterOpOut) (hidle : Idle nic) (hs : (nic.entry i).spec = some spec)
    (hbad : ¬ (answers i).Accepted) :
    ∃ rc nic' j, ef10FilterRestore answers nic = .err rc nic' ∧ (nic'.entry j).busy := by
  suffices h : ∀ rows nic, Idle nic → (∃ i ∈ rows, (nic.entry i).spec ≠ none ∧ ¬ (answers i).Accepted) →
      ∃ rc nic' j, forEach (restoreRow answers) rows nic = .err rc nic' ∧ (nic'.entry j).busy from
    h allRows nic hidle ⟨i, List.mem_finRange i, by rw [hs]; simp, hbad⟩
  intro rows
  induction rows with
  | nil => rintro nic - ⟨i, hi, -⟩; cases hi
  | cons b rows ih =>
    rintro nic hidle ⟨i, hmem, hused, hbad⟩
    cases hs : (nic.entry b).spec with
    | none =>
      have hne : i ≠ b := fun h => hused (h ▸ hs)
      obtain ⟨rc, nic', j, hrun, hj⟩ := ih nic hidle ⟨i, by simpa [hne] using hmem, hused, hbad⟩
      exact ⟨rc, nic', j, by rw [forEach, bind_of_ret (restoreRow_skips (.inl hs) answers), hrun], hj⟩
    | some spec =>
      by_cases hout : (answers b).Accepted
      · have hne : i ≠ b := fun h => hbad (h ▸ hout)
        obtain ⟨rc, nic', j, hrun, hj⟩ := ih _
          ((hidle.congr (told_entry nic spec (addOp spec) (nic.entry b).handle (answers b))).setEntry
            (i := b) (e := (nic.entry b).withHandle (answers b).handle) (hidle b))
          ⟨i, by simpa [hne] using hmem, by rw [setEntry_ne _ _ hne, told_entry]; exact hused, hbad⟩
        exact ⟨rc, nic', j, by rw [forEach, bind_of_ret (restoreRow_accepted hs (hidle b) hout)]; exact hrun, hj⟩
      · obtain ⟨rc, hrun⟩ := restoreRow_rejected hs (hidle b) hout
        refine ⟨rc, _, b, by rw [forEach, bind_of_err hrun], ?_⟩
        rw [setEntry_self]
        rfl

/-! ### Restore preserves the table -/

/-- What a restore should leave: the specs and the marks, and new handles when it succeeds. -/
def Restores (answers : Row → FilterOpOut) (nic nic' : Nic) : Prop :=
  (∀ i, (nic'.entry i).spec = (nic.entry i).spec ∧ (nic'.entry i).busy = (nic.entry i).busy ∧
    (nic'.entry i).autoOld = (nic.entry i).autoOld) ∧
  (ef10FilterRestore answers nic = .ret () nic' →
    ∀ i, (nic'.entry i).spec ≠ none → (nic'.entry i).handle = (answers i).handle)

/-- A restore of the run does what it should. -/
def RestoreKeeps : Op → Nic → Nic → Prop
  | .restore answers, nic, nic' => Restores answers nic nic'
  | _, _, _ => True

/-- The firmware refuses nothing that a restore asks for. -/
def RestoreAccepted : Op → Nic → Prop
  | .restore answers, nic => ∀ i, (nic.entry i).spec ≠ none → (answers i).Accepted
  | _, _ => True

theorem restores_iff_accepted {answers : Row → FilterOpOut} (hidle : Idle nic)
    (hs : step (.restore answers) nic = some nic') :
    Restores answers nic nic' ∧ Idle nic' ↔ ∀ i, (nic.entry i).spec ≠ none → (answers i).Accepted := by
  change (ef10FilterRestore answers nic).state? = _ at hs
  constructor
  · rintro ⟨-, hidle'⟩ i hi
    by_contra hbad
    obtain ⟨spec, hspec⟩ := Option.ne_none_iff_exists'.mp hi
    obtain ⟨rc, nic1, j, hrun, hj⟩ := restore_rejected answers hidle hspec hbad
    rw [hrun] at hs
    cases hs
    rw [hidle' j] at hj
    cases hj
  · intro hall
    obtain ⟨nic1, hrun, hentry⟩ := restore_accepted hidle fun i spec h => hall i (by rw [h]; simp)
    rw [hrun] at hs
    cases hs
    have hsame : ∀ i, (nic'.entry i).spec = (nic.entry i).spec ∧ (nic'.entry i).busy = (nic.entry i).busy ∧
        (nic'.entry i).autoOld = (nic.entry i).autoOld := by
      intro i
      rw [hentry i]
      split_ifs
      · exact ⟨rfl, rfl, rfl⟩
      · exact ⟨rfl, rfl, rfl⟩
    refine ⟨⟨hsame, fun _ i hi => ?_⟩, fun i => (hsame i).2.1.trans (hidle i)⟩
    rw [(hsame i).1] at hi
    rw [hentry i, if_neg hi]
    rfl

theorem idle_step {o : Op} (hidle : Idle nic) (hs : step o nic = some nic') :
    RestoreKeeps o nic nic' ∧ Idle nic' ↔ RestoreAccepted o nic := by
  cases o with
  | restore answers => exact restores_iff_accepted hidle hs
  | add spec mayReplace alloc out =>
    obtain ⟨r, hr, hstate⟩ := add_ends hs
    exact ⟨fun _ => trivial, fun _ => ⟨trivial, hidle.add hr hstate⟩⟩
  | delete spec out =>
    refine ⟨fun _ => trivial, fun _ => ⟨trivial, ?_⟩⟩
    rcases delete_state hs with rfl | ⟨i, rfl⟩
    · exact hidle
    · exact hidle.setEntry rfl
  | deleteInternal filterId out =>
    refine ⟨fun _ => trivial, fun _ => ⟨trivial, ?_⟩⟩
    rcases deleteInternal_state hs with rfl | ⟨i, rfl⟩
    · exact hidle
    · exact hidle.setEntry rfl
  | setAutoOld i =>
    cases hs
    exact ⟨fun _ => trivial, fun _ => ⟨trivial, hidle.setEntry (hidle i)⟩⟩
  | setRssContext c =>
    cases hs
    exact ⟨fun _ => trivial, fun _ => ⟨trivial, hidle.congr rfl⟩⟩

/-- **Restore preserves the table**, and no entry is left busy, in every run in which the firmware accepts what the
restores ask for, and in no other. -/
theorem restores_iff (rssContext : U32) (ops : List Op) :
    MeetsAlong step Idle RestoreKeeps ops (ef10FilterInit rssContext) ↔
      StepsAlong step RestoreAccepted ops (ef10FilterInit rssContext) :=
  meetsAlong_iff (I := fun _ => True) (P := Idle) (Q := RestoreKeeps) (C := RestoreAccepted) (fun _ _ _ _ _ => trivial)
    (fun o _ _ _ hidle hs => idle_step (o := o) hidle hs) ops trivial fun _ => rfl

/-! ### A refused restore -/

/-- A filter for the station address 02:00:00:00:00:01. -/
def stationFilter (priority : BitVec 2) (dmaqId : BitVec 12) : FilterSpec :=
  { FilterSpec.zero with
    matchFlags := EFX_FILTER_MATCH_LOC_MAC
    priority
    flags := .ofNat 6 EFX_FILTER_FLAG_RX
    dmaqId
    locMac := fun k => if k = 0 then 2 else if k = 5 then 1 else 0 }

/-- The firmware accepts and gives a handle. -/
def granted (handle : U32) : FilterOpOut := ⟨none, MC_CMD_FILTER_OP_OUT_LEN, ⟨handle, 0⟩⟩

/-- The firmware fails. -/
def refused : FilterOpOut := ⟨some Errno.EIO, 0, ⟨0, 0⟩⟩

/-- Where the first filter for the station address goes. -/
def stationRow : Row := rowAt (ef10FilterHash (stationFilter 0 0)) 1

/-- The table after one accepted add. -/
theorem exists_station : ∃ nic, step (.add (stationFilter EFX_FILTER_PRI_MANUAL 1) false true (granted 1))
    (ef10FilterInit 0) = some nic ∧
    (nic.entry stationRow).spec = some (stationFilter EFX_FILTER_PRI_MANUAL 1) ∧
    (nic.entry stationRow).handle = ⟨1, 0⟩ := exists_of_any (by decide +kernel)

theorem reachable_fresh (rssContext : U32) : Reachable (ef10FilterInit rssContext) := .start ⟨rssContext, rfl⟩

/-- A restore of one filter that the firmware refuses leaves its entry busy. -/
theorem restore_leaves_busy : ¬ ∀ nic answers nic', Reachable nic → step (.restore answers) nic = some nic' →
    Restores answers nic nic' := by
  intro h
  obtain ⟨nic, hs, hspec, -⟩ := exists_station
  have hidle : Idle nic := ((idle_step (o := .add ..) (fun _ => rfl) hs).mpr trivial).2
  obtain ⟨rc, nic', j, hrun, hj⟩ := restore_rejected (fun _ => refused) hidle hspec (by decide)
  have hstep : step (.restore fun _ => refused) nic = some nic' := congrArg Res.state? hrun
  have hkeep := ((h nic _ nic' (.next (reachable_fresh 0) ⟨_, hs⟩) hstep).1 j).2.1
  rw [hj, hidle j] at hkeep
  cases hkeep

end Sfxge.Filter.Ef10
