import Sfxge.Filter.Ef10

/-!
# Filter.Ef10Table — what the calls do to the EF10 filter table

One theorem for each call says how it can end and which entry it has changed; `Sound` is what every call keeps.
-/

namespace Sfxge.Filter.Ef10

open Lib Lib.Prog Errno

variable {nic nic' : Nic} {spec saved : FilterSpec} {i j : Row} {out : FilterOpOut} {op : FilterOp}

/-! ### Match tuples -/

/-- What `ef10_filter_equal` compares. -/
def FilterSpec.tuple (spec : FilterSpec) :=
  (spec.matchFlags, spec.remHost, spec.locHost, spec.remMac, spec.locMac, spec.remPort, spec.locPort,
    spec.innerVid, spec.outerVid, spec.etherType, spec.ipProto)

theorem equal_iff {left right : FilterSpec} : ef10FilterEqual left right ↔ left.tuple = right.tuple := by
  simp only [ef10FilterEqual, FilterSpec.tuple, Prod.mk.injEq, ne_eq, ite_not]
  simp only [Bool.if_false_right, Bool.and_true, Bool.and_eq_true, decide_eq_true_eq]

@[simp] theorem tuple_updatedBy (saved spec : FilterSpec) : (saved.updatedBy spec).tuple = saved.tuple := rfl

/-- A replacement sees to all fields that are not compared. -/
theorem updatedBy_eq (h : spec.tuple = saved.tuple) : saved.updatedBy spec = spec := by
  obtain ⟨⟩ := spec
  obtain ⟨⟩ := saved
  simp only [FilterSpec.tuple, Prod.mk.injEq] at h
  obtain ⟨rfl, rfl, rfl, rfl, rfl, rfl, rfl, rfl, rfl, rfl, rfl⟩ := h
  rfl

/-- A function of the compared fields. -/
theorem congr_of_tuple {α : Type} (f : FilterSpec → α) (hf : ∀ saved spec, f (saved.updatedBy spec) = f saved)
    (h : spec.tuple = saved.tuple) : f spec = f saved := by
  rw [← hf saved spec, updatedBy_eq h]

theorem searchRows_congr (h : spec.tuple = saved.tuple) : searchRows spec = searchRows saved :=
  congr_of_tuple _ (fun _ _ => rfl) h

theorem isExclusive_congr (h : spec.tuple = saved.tuple) :
    ef10FilterIsExclusive spec = ef10FilterIsExclusive saved :=
  congr_of_tuple _ (fun _ _ => rfl) h

theorem valuesOf_congr (h : spec.tuple = saved.tuple) : valuesOf spec = valuesOf saved :=
  congr_of_tuple _ (fun _ _ => rfl) h

/-! ### Entries -/

section Entries

variable (e : FilterEntry)

@[simp] theorem withSpec_spec (s : Option FilterSpec) : (e.withSpec s).spec = s := rfl
@[simp] theorem withSpec_busy (s : Option FilterSpec) : (e.withSpec s).busy = false := rfl
@[simp] theorem withSpec_autoOld (s : Option FilterSpec) : (e.withSpec s).autoOld = false := rfl
@[simp] theorem withSpec_handle (s : Option FilterSpec) : (e.withSpec s).handle = e.handle := rfl

@[simp] theorem withSaved_spec (s : FilterSpec) : (e.withSaved s).spec = some s := rfl
@[simp] theorem withSaved_busy (s : FilterSpec) : (e.withSaved s).busy = e.busy := rfl
@[simp] theorem withSaved_handle (s : FilterSpec) : (e.withSaved s).handle = e.handle := rfl

@[simp] theorem withBusy_spec (b : Bool) : (e.withBusy b).spec = e.spec := rfl
@[simp] theorem withBusy_busy (b : Bool) : (e.withBusy b).busy = b := rfl
@[simp] theorem withBusy_autoOld (b : Bool) : (e.withBusy b).autoOld = e.autoOld := rfl
@[simp] theorem withBusy_handle (b : Bool) : (e.withBusy b).handle = e.handle := rfl

@[simp] theorem withAutoOld_spec (b : Bool) : (e.withAutoOld b).spec = e.spec := rfl
@[simp] theorem withAutoOld_busy (b : Bool) : (e.withAutoOld b).busy = e.busy := rfl
@[simp] theorem withAutoOld_handle (b : Bool) : (e.withAutoOld b).handle = e.handle := rfl

@[simp] theorem withHandle_spec (h : Handle) : (e.withHandle h).spec = e.spec := rfl
@[simp] theorem withHandle_busy (h : Handle) : (e.withHandle h).busy = e.busy := rfl
@[simp] theorem withHandle_autoOld (h : Handle) : (e.withHandle h).autoOld = e.autoOld := rfl
@[simp] theorem withHandle_handle (h : Handle) : (e.withHandle h).handle = h := rfl

end Entries

/-! ### FILTER_OP -/

@[simp] theorem setEntry_self (nic : Nic) (i : Row) (e : FilterEntry) : (nic.setEntry i e).entry i = e :=
  Function.update_self ..

theorem setEntry_ne (nic : Nic) (e : FilterEntry) (h : j ≠ i) : (nic.setEntry i e).entry j = nic.entry j :=
  Function.update_of_ne h ..

@[simp] theorem setEntry_setEntry (nic : Nic) (i : Row) (e e' : FilterEntry) :
    (nic.setEntry i e).setEntry i e' = nic.setEntry i e' := by simp [Nic.setEntry]

@[simp] theorem program_entry (nic : Nic) (req : FilterOpIn) (out : FilterOpOut) :
    (nic.program req out).entry = nic.entry := by
  unfold Nic.program
  split <;> rfl

theorem program_setEntry (nic : Nic) (i : Row) (e : FilterEntry) (req : FilterOpIn) (out : FilterOpOut) :
    (nic.setEntry i e).program req out = (nic.program req out).setEntry i e := by
  unfold Nic.program
  split <;> rfl

/-- The driver takes the answer for a success. -/
def FilterOpOut.Accepted (out : FilterOpOut) : Prop := out.rc = none ∧ MC_CMD_FILTER_OP_OUT_LEN ≤ out.outLengthUsed

instance : Decidable out.Accepted := inferInstanceAs (Decidable (_ ∧ _))

/-- The firmware after the request for an entry with a handle. -/
def Nic.told (nic : Nic) (spec : FilterSpec) (op : FilterOp) (handle : Handle) (out : FilterOpOut) : Nic :=
  if out.rc = none then nic.program (filterOpIn spec op handle) out else nic

@[simp] theorem told_entry (nic : Nic) (spec : FilterSpec) (op : FilterOp) (handle : Handle) (out : FilterOpOut) :
    (nic.told spec op handle out).entry = nic.entry := by
  unfold Nic.told
  split <;> simp

theorem told_setEntry (nic : Nic) (e : FilterEntry) (spec : FilterSpec) (op : FilterOp) (handle : Handle)
    (out : FilterOpOut) : (nic.setEntry i e).told spec op handle out = (nic.told spec op handle out).setEntry i e := by
  unfold Nic.told
  split
  · exact program_setEntry ..
  · rfl

/-- The operations of `efx_mcdi_filter_op_add`. -/
def FilterOp.Adds (op : FilterOp) : Prop := op = .INSERT ∨ op = .SUBSCRIBE ∨ op = .REPLACE

theorem filterOpAdd_accepted (hop : op.Adds) (h : out.Accepted) :
    efxMcdiFilterOpAdd spec op i out nic =
      .ret () ((nic.told spec op (nic.entry i).handle out).setEntry i
        ((nic.entry i).withHandle out.handle)) := by
  obtain ⟨hrc, hlen⟩ := h
  have hrun : efxMcdiExecute (filterOpIn spec op (nic.entry i).handle) out nic =
      .ret () (nic.told spec op (nic.entry i).handle out) := by
    unfold efxMcdiExecute Nic.told
    rw [hrc, if_pos rfl]
    rfl
  have hentry : (nic.told spec op (nic.entry i).handle out).entry i = nic.entry i := by rw [told_entry]
  rcases hop with rfl | rfl | rfl <;>
  · rw [efxMcdiFilterOpAdd, bind_of_ret (get_apply nic), bind_of_ret hrun, bind_of_ret (ensure_pos hlen),
      modify_apply, hentry]

theorem filterOpAdd_rejected (nic : Nic) (spec : FilterSpec) (i : Row) (hop : op.Adds) (h : ¬ out.Accepted) :
    ∃ rc, efxMcdiFilterOpAdd spec op i out nic = .err rc (nic.told spec op (nic.entry i).handle out) := by
  cases hrc : out.rc with
  | some rc =>
    refine ⟨rc, ?_⟩
    have hrun : efxMcdiExecute (filterOpIn spec op (nic.entry i).handle) out nic = .err rc nic := by
      unfold efxMcdiExecute
      rw [hrc]
      rfl
    rw [Nic.told, hrc, if_neg (by simp)]
    rcases hop with rfl | rfl | rfl <;>
    · rw [efxMcdiFilterOpAdd, bind_of_ret (get_apply nic), bind_of_err hrun]
  | none =>
    refine ⟨EMSGSIZE, ?_⟩
    have hlen : ¬ MC_CMD_FILTER_OP_OUT_LEN ≤ out.outLengthUsed := fun hlen => h ⟨hrc, hlen⟩
    have hrun : efxMcdiExecute (filterOpIn spec op (nic.entry i).handle) out nic =
        .ret () (nic.told spec op (nic.entry i).handle out) := by
      unfold efxMcdiExecute Nic.told
      rw [hrc, if_pos rfl]
      rfl
    rcases hop with rfl | rfl | rfl <;>
    · rw [efxMcdiFilterOpAdd, bind_of_ret (get_apply nic), bind_of_ret hrun, bind_of_err (ensure_neg hlen)]

/-- The operation that adds a spec: single-recipient for the exclusive ones. -/
def addOp (spec : FilterSpec) : FilterOp := if ef10FilterIsExclusive spec then .INSERT else .SUBSCRIBE

theorem addOp_adds (spec : FilterSpec) : (addOp spec).Adds := by
  unfold addOp
  split
  · exact .inl rfl
  · exact .inr (.inl rfl)

/-! ### Restore -/

theorem restoreRow_skips (h : (nic.entry i).spec = none ∨ (nic.entry i).busy) (answers : Row → FilterOpOut) :
    restoreRow answers i nic = .ret () nic := by
  rw [restoreRow, bind_of_ret (get_apply nic)]
  rcases h with h | h
  · rw [h]
    rfl
  · cases hs : (nic.entry i).spec with
    | none => rfl
    | some spec =>
      change when _ _ nic = _
      rw [when_neg (by simp [h])]
      rfl

section Restore

variable {answers : Row → FilterOpOut} (hs : (nic.entry i).spec = some spec) (hb : (nic.entry i).busy = false)

/-- The state when a row was sent to the firmware. -/
def Nic.asked (nic : Nic) (spec : FilterSpec) (i : Row) (out : FilterOpOut) : Nic :=
  nic.told spec (addOp spec) (nic.entry i).handle out

include hs hb

theorem restoreRow_eq : restoreRow answers i nic =
    (efxMcdiFilterOpAdd spec (addOp spec) i (answers i) >>= fun _ => ef10FilterSetEntryNotBusy i)
      (nic.setEntry i ((nic.entry i).withBusy true)) := by
  rw [restoreRow, bind_of_ret (get_apply nic)]
  simp only [hs]
  rw [when_pos (by simp [hb])]
  have hmark : ef10FilterSetEntryBusy i nic = .ret () (nic.setEntry i ((nic.entry i).withBusy true)) := rfl
  rw [bind_of_ret hmark]
  unfold addOp
  split_ifs <;> rfl

theorem restoreRow_accepted (h : (answers i).Accepted) : restoreRow answers i nic =
    .ret () ((nic.asked spec i (answers i)).setEntry i ((nic.entry i).withHandle (answers i).handle)) := by
  rw [restoreRow_eq hs hb, bind_of_ret (filterOpAdd_accepted (addOp_adds spec) h), ef10FilterSetEntryNotBusy,
    modify_apply]
  have hentry : (((nic.entry i).withBusy true).withHandle (answers i).handle).withBusy false =
      (nic.entry i).withHandle (answers i).handle := by
    rw [FilterEntry.withBusy, FilterEntry.withHandle, FilterEntry.withBusy, FilterEntry.withHandle, ← hb]
  rw [setEntry_self, setEntry_setEntry, setEntry_self, told_setEntry, setEntry_setEntry, hentry]
  rfl

theorem restoreRow_rejected (h : ¬ (answers i).Accepted) : ∃ rc, restoreRow answers i nic =
    .err rc ((nic.asked spec i (answers i)).setEntry i ((nic.entry i).withBusy true)) := by
  obtain ⟨rc, hrun⟩ := filterOpAdd_rejected (nic.setEntry i ((nic.entry i).withBusy true)) spec i (addOp_adds spec) h
  refine ⟨rc, ?_⟩
  rw [restoreRow_eq hs hb, bind_of_err hrun, told_setEntry, setEntry_self]
  rfl

end Restore

/-! ### Add -/

/-- The search stops at this entry: it matches and is in the way of a new one. -/
def Nic.Stops (nic : Nic) (spec : FilterSpec) (i : Row) : Prop :=
  ∃ saved, (nic.entry i).spec = some saved ∧ spec.tuple = saved.tuple ∧
    ((nic.entry i).busy ∨ saved.priority = EFX_FILTER_PRI_AUTO ∨ ef10FilterIsExclusive spec)

/-- How a search through `rows` ends that has already found `insIndex`. -/
inductive Searched (nic : Nic) (spec : FilterSpec) (mayReplace : Bool) (rows : List Row) (insIndex : Option Row) :
    Search → Prop
  | refresh (i : Row) (saved : FilterSpec) : i ∈ rows → (nic.entry i).spec = some saved →
      spec.tuple = saved.tuple → (nic.entry i).busy = false → saved.priority = EFX_FILTER_PRI_AUTO →
      Searched nic spec mayReplace rows insIndex (.found i)
  | replace (i : Row) (saved : FilterSpec) : i ∈ rows → (nic.entry i).spec = some saved →
      spec.tuple = saved.tuple → (nic.entry i).busy = false → saved.priority ≠ EFX_FILTER_PRI_AUTO →
      ef10FilterIsExclusive spec → mayReplace → Searched nic spec mayReplace rows insIndex (.found i)
  | free (i : Row) : (∀ j ∈ rows, ¬ nic.Stops spec j) →
      insIndex.or (rows.find? fun j => (nic.entry j).spec = none) = some i →
      Searched nic spec mayReplace rows insIndex (.found i)
  | full : (∀ j ∈ rows, ¬ nic.Stops spec j) → insIndex.or (rows.find? fun j => (nic.entry j).spec = none) = none →
      Searched nic spec mayReplace rows insIndex (.fail EBUSY)
  | exist (i : Row) (saved : FilterSpec) : i ∈ rows → (nic.entry i).spec = some saved →
      spec.tuple = saved.tuple → ef10FilterIsExclusive spec → mayReplace = false →
      Searched nic spec mayReplace rows insIndex (.fail EEXIST)
  | busy : Searched nic spec mayReplace rows insIndex .busy

theorem Searched.cons {mayReplace : Bool} {rows : List Row} {insIndex insIndex' : Option Row} {r : Search}
    (h : Searched nic spec mayReplace rows insIndex' r) (hi : ¬ nic.Stops spec i)
    (hins : insIndex' = insIndex.or (if (nic.entry i).spec = none then some i else none)) :
    Searched nic spec mayReplace (i :: rows) insIndex r := by
  have hor : insIndex.or ((i :: rows).find? fun j => (nic.entry j).spec = none) =
      insIndex'.or (rows.find? fun j => (nic.entry j).spec = none) := by
    rw [hins, Option.or_assoc, List.find?_cons]
    by_cases hs : (nic.entry i).spec = none
    · simp [hs]
    · simp [hs]
  cases h with
  | refresh j saved hmem h1 h2 h3 h4 => exact .refresh j saved (by simp [hmem]) h1 h2 h3 h4
  | replace j saved hmem h1 h2 h3 h4 h5 h6 => exact .replace j saved (by simp [hmem]) h1 h2 h3 h4 h5 h6
  | free j hall hfind => exact .free j (by simpa [hi] using hall) (hor.trans hfind)
  | full hall hfind => exact .full (by simpa [hi] using hall) (hor.trans hfind)
  | exist j saved hmem h1 h2 h3 h4 => exact .exist j saved (by simp [hmem]) h1 h2 h3 h4
  | busy => exact .busy

theorem searchFrom_searched (nic : Nic) (spec : FilterSpec) (mayReplace : Bool) (rows : List Row)
    (insIndex : Option Row) :
    Searched nic spec mayReplace rows insIndex (searchFrom nic spec mayReplace rows insIndex) := by
  induction rows generalizing insIndex with
  | nil =>
    cases insIndex with
    | none => exact .full (by simp) rfl
    | some i => exact .free i (by simp) (by simp)
  | cons i rows ih =>
    rw [searchFrom]
    cases hs : (nic.entry i).spec with
    | none =>
      refine (ih _).cons (fun ⟨saved, h, _⟩ => by rw [hs] at h; cases h) ?_
      cases insIndex <;> simp [hs]
    | some saved =>
      have hins : insIndex = insIndex.or (if (nic.entry i).spec = none then some i else none) := by simp [hs]
      simp only
      by_cases heq : ef10FilterEqual spec saved
      · have htuple := equal_iff.mp heq
        rw [if_pos heq]
        cases hbusy : (nic.entry i).busy with
        | true => exact .busy
        | false =>
          rw [if_neg (by simp)]
          split_ifs with hauto hexcl hmay
          · exact .refresh i saved (by simp) hs htuple hbusy hauto
          · exact .replace i saved (by simp) hs htuple hbusy hauto hexcl hmay
          · exact .exist i saved (by simp) hs htuple hexcl (by simpa using hmay)
          · refine (ih _).cons (fun ⟨sv, h, _, h3⟩ => ?_) hins
            cases hs.symm.trans h
            rcases h3 with h3 | h3 | h3
            · rw [hbusy] at h3
              cases h3
            · exact hauto h3
            · exact hexcl h3
      · rw [if_neg heq]
        refine (ih _).cons (fun ⟨sv, h, h2, _⟩ => ?_) hins
        cases hs.symm.trans h
        exact heq (equal_iff.mpr h2)

/-- The first free entry a search meets. -/
def Nic.firstFree (nic : Nic) (spec : FilterSpec) : Option Row :=
  (searchRows spec).find? fun i => (nic.entry i).spec = none

/-- Where the search for `spec` ends with an entry that holds `saved`. -/
structure Nic.Finds (nic : Nic) (spec : FilterSpec) (i : Row) (saved : FilterSpec) : Prop where
  mem : i ∈ searchRows spec
  holds : (nic.entry i).spec = some saved
  tuple : spec.tuple = saved.tuple
  idle : (nic.entry i).busy = false

/-- A refreshed entry. -/
def Nic.refreshed (nic : Nic) (i : Row) : Nic := nic.setEntry i ((nic.entry i).withAutoOld false)

/-- A replaced filter. -/
def Nic.replaced (nic : Nic) (spec saved : FilterSpec) (i : Row) (out : FilterOpOut) : Nic :=
  (nic.told spec .REPLACE (nic.entry i).handle out).setEntry i
    (((nic.entry i).withSaved (saved.updatedBy spec)).withHandle out.handle)

/-- A new filter. -/
def Nic.added (nic : Nic) (spec : FilterSpec) (i : Row) (out : FilterOpOut) : Nic :=
  (nic.asked spec i out).setEntry i (((nic.entry i).withSpec (some spec)).withHandle out.handle)

/-- An entry given up. -/
def Nic.dropped (nic : Nic) (i : Row) : Nic := nic.setEntry i ((nic.entry i).withSpec none)

/-- How `ef10_filter_add_internal` ends for a spec that has its RSS context. -/
inductive AddEnds (nic : Nic) (spec : FilterSpec) (mayReplace alloc : Bool) (out : FilterOpOut) :
    Res Nic Errno Row → Prop
  | spins : AddEnds nic spec mayReplace alloc out .spin
  | full : (∀ j ∈ searchRows spec, ¬ nic.Stops spec j) → nic.firstFree spec = none →
      AddEnds nic spec mayReplace alloc out (.err EBUSY nic)
  | exist (i : Row) (saved : FilterSpec) : (nic.entry i).spec = some saved → spec.tuple = saved.tuple →
      ef10FilterIsExclusive spec → mayReplace = false → AddEnds nic spec mayReplace alloc out (.err EEXIST nic)
  | refresh (i : Row) (saved : FilterSpec) : nic.Finds spec i saved → saved.priority = EFX_FILTER_PRI_AUTO →
      AddEnds nic spec mayReplace alloc out (.ret i (nic.refreshed i))
  | replaced (i : Row) (saved : FilterSpec) : nic.Finds spec i saved → saved.priority ≠ EFX_FILTER_PRI_AUTO →
      ef10FilterIsExclusive spec → mayReplace → out.Accepted →
      AddEnds nic spec mayReplace alloc out (.ret i (nic.replaced spec saved i out))
  | notReplaced (i : Row) (saved : FilterSpec) (rc : Errno) : nic.Finds spec i saved →
      saved.priority ≠ EFX_FILTER_PRI_AUTO → ef10FilterIsExclusive spec → mayReplace → ¬ out.Accepted →
      AddEnds nic spec mayReplace alloc out (.err rc ((nic.told spec .REPLACE (nic.entry i).handle out).dropped i))
  | noMemory : (∀ j ∈ searchRows spec, ¬ nic.Stops spec j) → alloc = false →
      AddEnds nic spec mayReplace alloc out (.err ENOMEM nic)
  | added (i : Row) : (∀ j ∈ searchRows spec, ¬ nic.Stops spec j) → nic.firstFree spec = some i → alloc →
      out.Accepted → AddEnds nic spec mayReplace alloc out (.ret i (nic.added spec i out))
  | notAdded (i : Row) (rc : Errno) : (∀ j ∈ searchRows spec, ¬ nic.Stops spec j) → nic.firstFree spec = some i →
      alloc → ¬ out.Accepted → AddEnds nic spec mayReplace alloc out (.err rc ((nic.asked spec i out).dropped i))

theorem addReplacing_accepted (h : out.Accepted) (hidle : (nic.entry i).busy = false) :
    addReplacing spec saved out i nic = .ret () (nic.replaced spec saved i out) := by
  have hmark : ef10FilterSetEntryBusy i nic = .ret () (nic.setEntry i ((nic.entry i).withBusy true)) := rfl
  rw [addReplacing, bind_of_ret hmark, bind_of_ret (attempt_of_ret (filterOpAdd_accepted (.inr (.inr rfl)) h))]
  have hentry : (((((nic.entry i).withBusy true).withHandle out.handle).withSaved (saved.updatedBy spec)).withBusy
      false) = ((nic.entry i).withSaved (saved.updatedBy spec)).withHandle out.handle := by
    rw [FilterEntry.withBusy, FilterEntry.withHandle, FilterEntry.withSaved, FilterEntry.withBusy,
      FilterEntry.withSaved, FilterEntry.withHandle, ← hidle]
  change Res.ret () _ = _
  simp only [setEntry_self, setEntry_setEntry, told_setEntry, hentry]
  rfl

theorem undoAdd_apply (i : Row) (rc : Errno) (nic : Nic) : undoAdd i rc nic = .err rc (nic.dropped i) := by
  change Res.err rc ((nic.setEntry i _).setEntry i _) = _
  rw [setEntry_self, setEntry_setEntry]
  rfl

theorem dropped_setEntry (nic : Nic) (i : Row) (e : FilterEntry) (h : e.handle = (nic.entry i).handle) :
    (nic.setEntry i e).dropped i = nic.dropped i := by
  rw [Nic.dropped, setEntry_self, setEntry_setEntry, FilterEntry.withSpec, h]
  rfl

theorem addReplacing_rejected (nic : Nic) (spec saved : FilterSpec) (i : Row) (h : ¬ out.Accepted) :
    ∃ rc, addReplacing spec saved out i nic = .err rc ((nic.told spec .REPLACE (nic.entry i).handle out).dropped i) := by
  have hmark : ef10FilterSetEntryBusy i nic = .ret () (nic.setEntry i ((nic.entry i).withBusy true)) := rfl
  have hadds : FilterOp.REPLACE.Adds := .inr (.inr rfl)
  obtain ⟨rc, hrun⟩ := filterOpAdd_rejected (nic.setEntry i ((nic.entry i).withBusy true)) spec i hadds h
  refine ⟨rc, ?_⟩
  rw [addReplacing, bind_of_ret hmark, bind_of_ret (attempt_of_err hrun)]
  change undoAdd i rc _ = _
  rw [undoAdd_apply, told_setEntry, setEntry_self, dropped_setEntry _ _ _ (by rw [told_entry]; rfl)]
  rfl

section New

variable {alloc : Bool} (ha : alloc)

/-- The state in which the firmware is asked for a new filter. -/
def Nic.reserved (nic : Nic) (spec : FilterSpec) (i : Row) : Nic :=
  nic.setEntry i (((nic.entry i).withSpec (some spec)).withBusy true)

include ha

theorem addNew_eq : addNew spec alloc out i nic =
    (attempt (efxMcdiFilterOpAdd spec (addOp spec) i out) >>= fun r => match r with
      | .error rc => undoAdd i rc
      | .ok () => ef10FilterSetEntryNotBusy i) (nic.reserved spec i) := by
  have hset : ef10FilterSetEntry i (some spec) nic =
      .ret () (nic.setEntry i ((nic.entry i).withSpec (some spec))) := rfl
  have hmark : ef10FilterSetEntryBusy i (nic.setEntry i ((nic.entry i).withSpec (some spec))) =
      .ret () (nic.reserved spec i) := by
    rw [ef10FilterSetEntryBusy, modify_apply, setEntry_self, setEntry_setEntry]
    rfl
  rw [addNew, bind_of_ret (ensure_pos ha), bind_of_ret hset, bind_of_ret hmark]
  rfl

theorem addNew_accepted (h : out.Accepted) : addNew spec alloc out i nic = .ret () (nic.added spec i out) := by
  rw [addNew_eq ha, bind_of_ret (attempt_of_ret (filterOpAdd_accepted (addOp_adds spec) h))]
  change Res.ret () _ = _
  simp only [Nic.reserved, setEntry_self, setEntry_setEntry, told_setEntry]
  rfl

theorem addNew_rejected (nic : Nic) (spec : FilterSpec) (i : Row) (h : ¬ out.Accepted) :
    ∃ rc, addNew spec alloc out i nic = .err rc ((nic.asked spec i out).dropped i) := by
  obtain ⟨rc, hrun⟩ := filterOpAdd_rejected (nic.reserved spec i) spec i (addOp_adds spec) h
  refine ⟨rc, ?_⟩
  rw [addNew_eq ha, bind_of_ret (attempt_of_err hrun)]
  change undoAdd i rc _ = _
  rw [undoAdd_apply, Nic.reserved, told_setEntry, setEntry_self, dropped_setEntry _ _ _ (by rw [told_entry]; rfl)]
  rfl

end New

/-- **Add, case by case.** -/
theorem addInternal_ends (nic : Nic) (spec : FilterSpec) (mayReplace alloc : Bool) (out : FilterOpOut) :
    AddEnds nic (spec.inContext nic.rssContext) mayReplace alloc out
      (ef10FilterAddInternal spec mayReplace alloc out nic) := by
  generalize hsp : spec.inContext nic.rssContext = sp
  have hsearch := searchFrom_searched nic sp mayReplace (searchRows sp) none
  rw [ef10FilterAddInternal, bind_of_ret (get_apply nic)]
  simp only [hsp]
  generalize searchFrom nic sp mayReplace (searchRows sp) none = r at hsearch ⊢
  cases hsearch with
  | refresh i saved hmem hs htuple hidle hauto =>
    have hrun : ef10FilterSetEntryNotAutoOld i nic = .ret () (nic.refreshed i) := rfl
    simp only [hs, if_pos hauto]
    rw [bind_of_ret hrun]
    exact .refresh i saved ⟨hmem, hs, htuple, hidle⟩ hauto
  | replace i saved hmem hs htuple hidle hauto hexcl hmay =>
    simp only [hs, if_neg hauto]
    by_cases hout : out.Accepted
    · rw [bind_of_ret (addReplacing_accepted hout hidle)]
      exact .replaced i saved ⟨hmem, hs, htuple, hidle⟩ hauto hexcl hmay hout
    · obtain ⟨rc, hrun⟩ := addReplacing_rejected nic sp saved i hout
      rw [bind_of_err hrun]
      exact .notReplaced i saved rc ⟨hmem, hs, htuple, hidle⟩ hauto hexcl hmay hout
  | free i hall hfind =>
    rw [Option.none_or] at hfind
    have hs : (nic.entry i).spec = none := by simpa using List.find?_some hfind
    simp only [hs]
    cases ha : alloc with
    | false =>
      have hrun : addNew sp false out i nic = .err ENOMEM nic := rfl
      rw [bind_of_err hrun]
      exact .noMemory hall rfl
    | true =>
      by_cases hout : out.Accepted
      · rw [bind_of_ret (addNew_accepted rfl hout)]
        exact .added i hall hfind rfl hout
      · obtain ⟨rc, hrun⟩ := addNew_rejected rfl nic sp i hout
        rw [bind_of_err hrun]
        exact .notAdded i rc hall hfind rfl hout
  | full hall hfind => exact .full hall hfind
  | exist i saved hmem hs htuple hexcl hmay => exact .exist i saved hs htuple hexcl hmay
  | busy => exact .spins

end Sfxge.Filter.Ef10
