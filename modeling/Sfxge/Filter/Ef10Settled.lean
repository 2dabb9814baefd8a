import Sfxge.Filter.Ef10Reconfigure
import Sfxge.Filter.Ef10Undo

/-!
# Filter.Ef10Settled — no automatic filter is forgotten

Between calls the lists of the table have every automatic filter, and no filter is marked or being worked on.  A
`reconfigure` that comes through leaves just filters that it was asked for; one that fails forgets the unicast filters
that it has neither renewed nor removed, and no others.
-/

namespace Sfxge.Filter.Ef10

open Lib Lib.Prog Errno

variable {nic nic' : Nic} {spec saved : FilterSpec} {i j : Row} {out : FilterOpOut} {mayReplace alloc : Bool}
  {W : FilterSpec → Prop} {was now was' now' : Row → Prop}

/-! ### In the middle of a call -/

/-- A filter that the driver put for itself. -/
def Nic.Auto (nic : Nic) (i : Row) : Prop :=
  ∃ spec, (nic.entry i).spec = some spec ∧ spec.priority = EFX_FILTER_PRI_AUTO

/-- The marked filters are among `was`, and the other automatic ones among `now`, each with `W`. -/
structure Renewing (W : FilterSpec → Prop) (was now : Row → Prop) (nic : Nic) : Prop where
  sound : Sound nic
  idle : Idle nic
  old : ∀ i spec, (nic.entry i).spec = some spec → (nic.entry i).autoOld = true → was i
  fresh : ∀ i spec, (nic.entry i).spec = some spec → spec.priority = EFX_FILTER_PRI_AUTO →
    (nic.entry i).autoOld = false → now i ∧ W spec

theorem Renewing.mono {W' : FilterSpec → Prop} (h : Renewing W was now nic) (hwas : ∀ i, was i → was' i)
    (hnow : ∀ i, now i → now' i) (hW : ∀ sp, W sp → W' sp) : Renewing W' was' now' nic :=
  ⟨h.sound, h.idle, fun i sp hs ho => hwas i (h.old i sp hs ho),
    fun i sp hs hp ho => ⟨hnow i (h.fresh i sp hs hp ho).1, hW sp (h.fresh i sp hs hp ho).2⟩⟩

theorem Renewing.congr (h : Renewing W was now nic) (he : nic'.entry = nic.entry) : Renewing W was now nic' := by
  obtain ⟨h1, h2, h3, h4⟩ := h
  rw [← he] at h3 h4
  exact ⟨h1.congr he, h2.congr he, h3, h4⟩

/-- **Frame rule** for a change of one entry. -/
theorem Renewing.setEntry {e : FilterEntry} (h : Renewing W was now nic) (hsound : Sound (nic.setEntry i e))
    (hidle : e.busy = false) (hold : ∀ sp, e.spec = some sp → e.autoOld = true → was i)
    (hfresh : ∀ sp, e.spec = some sp → sp.priority = EFX_FILTER_PRI_AUTO → e.autoOld = false → now i ∧ W sp) :
    Renewing W was now (nic.setEntry i e) := by
  refine ⟨hsound, h.idle.setEntry hidle, fun j sp hj ho => ?_, fun j sp hj hp ho => ?_⟩
  · by_cases hji : j = i
    · subst hji
      rw [setEntry_self] at hj ho
      exact hold sp hj ho
    · rw [setEntry_ne _ _ hji] at hj ho
      exact h.old j sp hj ho
  · by_cases hji : j = i
    · subst hji
      rw [setEntry_self] at hj ho
      exact hfresh sp hj hp ho
    · rw [setEntry_ne _ _ hji] at hj ho
      exact h.fresh j sp hj hp ho

/-- An entry given up is neither marked nor automatic. -/
theorem Renewing.dropped (h : Renewing W was now nic) (i : Row) :
    Renewing W (fun j => was j ∧ j ≠ i) (fun j => now j ∧ j ≠ i) (nic.dropped i) := by
  have hne : ∀ j sp, ((nic.dropped i).entry j).spec = some sp → j ≠ i := by
    rintro j sp hj rfl
    rw [Nic.dropped, setEntry_self] at hj
    cases hj
  have hentry : ∀ j, j ≠ i → (nic.dropped i).entry j = nic.entry j := fun j hji => setEntry_ne _ _ hji
  refine ⟨h.sound.dropped i, h.idle.setEntry rfl, fun j sp hj ho => ?_, fun j sp hj hp ho => ?_⟩
  · have hji := hne j sp hj
    rw [hentry j hji] at hj ho
    exact ⟨h.old j sp hj ho, hji⟩
  · have hji := hne j sp hj
    rw [hentry j hji] at hj ho
    exact ⟨⟨(h.fresh j sp hj hp ho).1, hji⟩, (h.fresh j sp hj hp ho).2⟩

/-- What is dropped after the firmware was asked. -/
theorem Renewing.dropped_told (h : Renewing W was now nic) (he : nic'.entry = nic.entry) (i : Row) :
    Renewing W was now (nic'.dropped i) :=
  ((h.congr he).dropped i).mono (fun _ hj => hj.1) (fun _ hj => hj.1) fun _ hw => hw

/-- **Add.**  An automatic filter that was asked for is there then; a failed add leaves none. -/
theorem Renewing.add {r : Res Nic Errno Row} (h : Renewing W was now nic)
    (hr : AddEnds nic spec mayReplace alloc out r)
    (hW : ∀ sp : FilterSpec, spec.tuple = sp.tuple → W sp) :
    (∀ i nic', r = .ret i nic' → Renewing W was (fun j => now j ∨ j = i) nic') ∧
      ∀ e nic', r = .err e nic' → Renewing W was now nic' := by
  have hmono : ∀ i, Renewing W was (fun j => now j ∨ j = i) nic := fun i =>
    h.mono (fun _ hj => hj) (fun _ hj => Or.inl hj) fun _ hw => hw
  refine ⟨fun i nic' hret => ?_, fun e nic' herr => ?_⟩
  · have hsound : Sound nic' := h.sound.add hr (by rw [hret]; rfl)
    cases hr with
    | spins | full | exist | notReplaced | noMemory | notAdded => cases hret
    | refresh i saved hfinds hauto =>
      cases hret
      refine (hmono i).setEntry hsound (h.idle i) (fun sp hsp ho => by cases ho) fun sp hsp _ _ => ⟨Or.inr rfl, ?_⟩
      cases hfinds.holds.symm.trans hsp
      exact hW saved hfinds.tuple
    | replaced i saved hfinds hmanual hexcl hmay hout =>
      cases hret
      refine ((hmono i).congr (told_entry ..)).setEntry hsound (h.idle i) (fun sp hsp ho => ?_)
        fun sp hsp _ _ => ⟨Or.inr rfl, ?_⟩
      · exact h.old i saved hfinds.holds ho
      · cases hsp
        exact hW _ hfinds.tuple
    | added i hall hfree halloc hout =>
      cases hret
      refine ((hmono i).congr (told_entry ..)).setEntry hsound rfl (fun sp hsp ho => by cases ho)
        fun sp hsp _ _ => ⟨Or.inr rfl, ?_⟩
      cases hsp
      exact hW spec rfl
  · cases hr with
    | spins | refresh | replaced | added => cases herr
    | full | exist | noMemory =>
      cases herr
      exact h
    | notReplaced | notAdded =>
      cases herr
      exact h.dropped_told (told_entry ..) _

/-- An add of somebody else's filter, while none is marked. -/
theorem Renewing.addOther {r : Res Nic Errno Row} (h : Renewing W (fun _ => False) now nic)
    (hr : AddEnds nic spec mayReplace alloc out r) (hpri : spec.priority ≠ EFX_FILTER_PRI_AUTO)
    (hs : r.state? = some nic') : Renewing W (fun _ => False) now nic' := by
  have hsound : Sound nic' := h.sound.add hr hs
  cases hr with
  | spins => cases hs
  | full | exist | noMemory =>
    cases hs
    exact h
  | notReplaced | notAdded =>
    cases hs
    exact h.dropped_told (told_entry ..) _
  | refresh i saved hfinds hauto =>
    cases hs
    refine h.setEntry hsound (h.idle i) (fun sp hsp ho => by cases ho) fun sp hsp hp _ => ?_
    exact h.fresh i sp hsp hp (Bool.eq_false_iff.mpr fun ho => h.old i sp hsp ho)
  | replaced i saved hfinds =>
    cases hs
    refine (h.congr (told_entry ..)).setEntry hsound (h.idle i) (fun sp hsp ho => h.old i saved hfinds.holds ho)
      fun sp hsp hp _ => ?_
    cases hsp
    exact absurd hp hpri
  | added i hall hfree =>
    cases hs
    refine (h.congr (told_entry ..)).setEntry hsound rfl (fun sp hsp ho => by cases ho) fun sp hsp hp _ => ?_
    cases hsp
    exact absurd hp hpri

/-! ### Calls on an idle table end -/

theorem searchFrom_ne_busy (hidle : Idle nic) (spec : FilterSpec) (mayReplace : Bool) (rows : List Row)
    (insIndex : Option Row) : searchFrom nic spec mayReplace rows insIndex ≠ .busy := by
  induction rows generalizing insIndex with
  | nil => cases insIndex <;> simp [searchFrom]
  | cons i rows ih =>
    rw [searchFrom]
    cases hs : (nic.entry i).spec with
    | none => exact ih _
    | some saved =>
      dsimp only
      rw [hidle i, if_neg Bool.false_ne_true]
      split_ifs
      · simp
      · simp
      · simp
      · exact ih _
      · exact ih _

theorem addInternal_ne_spin (hidle : Idle nic) (spec : FilterSpec) (mayReplace alloc : Bool) (out : FilterOpOut) :
    ef10FilterAddInternal spec mayReplace alloc out nic ≠ .spin := by
  rw [ef10FilterAddInternal, bind_of_ret (get_apply nic)]
  generalize hsp : spec.inContext nic.rssContext = sp
  cases hr : searchFrom nic sp mayReplace (searchRows sp) none with
  | busy => exact absurd hr (searchFrom_ne_busy hidle sp mayReplace _ _)
  | fail rc => simp
  | found i =>
    have hends : ∀ p : Prog Nic Errno Unit, p nic ≠ .spin → (p >>= fun _ => pure i : Prog Nic Errno Row) nic ≠ .spin := by
      intro p hp
      rw [bind_apply]
      cases hpn : p nic with
      | ret u s => simp
      | err e s => simp
      | fault => simp
      | spin => exact absurd hpn hp
    cases hs : (nic.entry i).spec with
    | none =>
      simp only [hs]
      refine hends _ ?_
      cases ha : alloc with
      | false => simp [addNew, ensure, bind_apply]
      | true =>
        by_cases hout : out.Accepted
        · rw [addNew_accepted rfl hout]
          simp
        · obtain ⟨rc, hrun⟩ := addNew_rejected rfl nic sp i hout
          rw [hrun]
          simp
    | some saved =>
      simp only [hs]
      by_cases hauto : saved.priority = EFX_FILTER_PRI_AUTO
      · rw [if_pos hauto]
        exact hends (ef10FilterSetEntryNotAutoOld i) (by simp [ef10FilterSetEntryNotAutoOld])
      · rw [if_neg hauto]
        refine hends _ ?_
        by_cases hout : out.Accepted
        · rw [addReplacing_accepted hout (hidle i)]
          simp
        · obtain ⟨rc, hrun⟩ := addReplacing_rejected nic sp saved i hout
          rw [hrun]
          simp

theorem addInternal_runs (hidle : Idle nic) (spec : FilterSpec) (mayReplace alloc : Bool) (out : FilterOpOut) :
    (ef10FilterAddInternal spec mayReplace alloc out).Runs nic
      (fun i nic' => AddEnds nic (spec.inContext nic.rssContext) mayReplace alloc out (.ret i nic'))
      fun e nic' => AddEnds nic (spec.inContext nic.rssContext) mayReplace alloc out (.err e nic') := by
  have hends := addInternal_ends nic spec mayReplace alloc out
  have hspin := addInternal_ne_spin hidle spec mayReplace alloc out
  cases hr : ef10FilterAddInternal spec mayReplace alloc out nic with
  | ret i nic' => exact runs_of_ret hr (hr ▸ hends)
  | err e nic' => exact runs_of_err hr (hr ▸ hends)
  | fault =>
    rw [hr] at hends
    cases hends
  | spin => exact absurd hr hspin

theorem filterOpDelete_runs (op : FilterOp) (i : Row) (out : FilterOpOut) (nic : Nic) :
    (efxMcdiFilterOpDelete op i out).Runs nic (fun _ nic' => nic' = nic) fun _ nic' => nic' = nic := by
  have hstate := filterOpDelete_state op i out nic
  cases hr : efxMcdiFilterOpDelete op i out nic with
  | ret u nic' =>
    rw [hr] at hstate
    exact runs_of_ret hr (Option.some.inj hstate)
  | err e nic' =>
    rw [hr] at hstate
    exact runs_of_err hr (Option.some.inj hstate)
  | fault =>
    rw [hr] at hstate
    cases hstate
  | spin =>
    rw [hr] at hstate
    cases hstate

theorem deleteInternal_runs (hidle : Idle nic) (filterId : U32) (out : FilterOpOut) {R : Nic → Prop}
    (hdrop : R (nic.dropped (Fin.ofNat EFX_EF10_FILTER_TBL_ROWS filterId.toNat)))
    (hfree : (nic.entry (Fin.ofNat EFX_EF10_FILTER_TBL_ROWS filterId.toNat)).spec = none → R nic) :
    (ef10FilterDeleteInternal filterId out).Runs nic (fun _ => R) fun _ => R := by
  rw [ef10FilterDeleteInternal]
  generalize (Fin.ofNat EFX_EF10_FILTER_TBL_ROWS filterId.toNat : Row) = i at *
  refine runs_get_bind ?_
  rw [if_neg (by rw [hidle i]; exact Bool.false_ne_true)]
  cases hs : (nic.entry i).spec with
  | none => exact runs_fail (hfree hs)
  | some spec =>
    have hlast : (((nic.setEntry i ((nic.entry i).withBusy true)).setEntry i
        (((nic.setEntry i ((nic.entry i).withBusy true)).entry i).withBusy false)).setEntry i
        ((((nic.setEntry i ((nic.entry i).withBusy true)).setEntry i
          (((nic.setEntry i ((nic.entry i).withBusy true)).entry i).withBusy false)).entry i).withSpec none)) =
        nic.dropped i := by
      simp only [setEntry_self, setEntry_setEntry]
      rfl
    refine runs_modify_bind (runs_bind (runs_attempt ((filterOpDelete_runs _ i out _).mono ?_ ?_)))
    · rintro u nic' rfl
      refine runs_modify_bind (runs_modify_bind (runs_pure ?_))
      rw [hlast]
      exact hdrop
    · rintro e nic' rfl
      refine runs_modify_bind (runs_modify_bind (runs_fail ?_))
      rw [hlast]
      exact hdrop

/-! ### Adds and deletes of a call -/

variable {fw : Firmware} {s s' : Filters} {rows : List Row} {m : List Row} {filterFlags : BitVec 6} {rollback : Bool}
  {addr : MacAddr} {addrs : List MacAddr} {c : Config} {workarounds : Except Errno (U32 × U32)}

/-- The lists, and where the filters go. -/
def Filters.lists (s : Filters) : List Row × List Row × Option ℕ := (s.unicst, s.mulcst, s.defaultRxq)

theorem rowOfId (i : Row) : (Fin.ofNat EFX_EF10_FILTER_TBL_ROWS (BitVec.ofNat 32 i.val).toNat : Row) = i := by
  have hlt : i.val < EFX_EF10_FILTER_TBL_ROWS := i.isLt
  have hpow : EFX_EF10_FILTER_TBL_ROWS < 4294967296 := by decide
  refine Fin.ext ?_
  rw [BitVec.toNat_ofNat]
  change i.val % 4294967296 % EFX_EF10_FILTER_TBL_ROWS = i.val
  rw [Nat.mod_eq_of_lt (hlt.trans hpow), Nat.mod_eq_of_lt hlt]

theorem addAuto_runs (h : Renewing W was now s.nic) (hW : ∀ sp : FilterSpec, spec.tuple = sp.tuple → W sp) :
    (addAuto fw spec).Runs s
      (fun i s' => Renewing W was (fun j => now j ∨ j = i) s'.nic ∧ s'.lists = s.lists)
      fun _ s' => Renewing W was now s'.nic ∧ s'.lists = s.lists := by
  refine runs_get_bind (runs_modify_bind (runs_zoom ?_))
  refine (addInternal_runs h.idle spec true _ _).mono (fun i nic' hends => ⟨?_, rfl⟩) fun e nic' hends => ⟨?_, rfl⟩
  · exact (h.add hends hW).1 i nic' rfl
  · exact (h.add hends hW).2 e nic' rfl

theorem deleteAuto_runs (h : Renewing W was now s.nic) (i : Row) :
    (deleteAuto fw i).Runs s
      (fun _ s' => Renewing W (fun j => was j ∧ j ≠ i) (fun j => now j ∧ j ≠ i) s'.nic ∧ s'.lists = s.lists)
      fun _ _ => False := by
  have hfree : (s.nic.entry i).spec = none → Renewing W (fun j => was j ∧ j ≠ i) (fun j => now j ∧ j ≠ i) s.nic := by
    intro hs
    have hne : ∀ j sp, (s.nic.entry j).spec = some sp → j ≠ i := by
      rintro j sp hj rfl
      rw [hs] at hj
      cases hj
    exact ⟨h.sound, h.idle, fun j sp hj ho => ⟨h.old j sp hj ho, hne j sp hj⟩,
      fun j sp hj hp ho => ⟨⟨(h.fresh j sp hj hp ho).1, hne j sp hj⟩, (h.fresh j sp hj hp ho).2⟩⟩
  refine runs_get_bind (runs_modify_bind (runs_bind (runs_attempt (runs_zoom ?_))))
  have hdel := deleteInternal_runs h.idle (.ofNat 32 i.val) (fw s.asked).out
    (R := fun nic' => Renewing W (fun j => was j ∧ j ≠ i) (fun j => now j ∧ j ≠ i) nic')
    (by rw [rowOfId]; exact h.dropped i) (by rw [rowOfId]; exact hfree)
  exact hdel.mono (fun _ nic' hn => runs_pure ⟨hn, rfl⟩) fun _ nic' hn => runs_pure ⟨hn, rfl⟩

/-- Deletes in a row. -/
theorem deleteEach_runs (h : Renewing W was now s.nic) (rows : List Row) :
    (forEach (deleteAuto fw) rows).Runs s
      (fun _ s' => Renewing W was (fun j => now j ∧ j ∉ rows) s'.nic ∧ s'.lists = s.lists) fun _ _ => False := by
  refine runs_forEach (fun (done : List Row) (s' : Filters) =>
    Renewing W was (fun j => now j ∧ j ∉ done) s'.nic ∧ s'.lists = s.lists) rows
    ⟨h.mono (fun _ hj => hj) (fun j hj => ⟨hj, by simp⟩) fun _ hw => hw, rfl⟩ ?_
  rintro done i s1 - ⟨h1, hl1⟩
  refine (deleteAuto_runs h1 i).mono (fun _ s2 h2 => ⟨?_, h2.2.trans hl1⟩) fun _ _ hf => hf
  exact h2.1.mono (fun _ hj => hj.1) (fun j hj => ⟨hj.1.1, by simp [hj.1.2, hj.2]⟩) fun _ hw => hw

/-- **Sweep.**  No filter is marked then. -/
theorem removeOld_runs (h : Renewing W was now s.nic) :
    (ef10FilterRemoveOld fw).Runs s
      (fun _ s' => Renewing W (fun _ => False) now s'.nic ∧ s'.lists = s.lists) fun _ _ => False := by
  have hloop : (ef10FilterRemoveOld fw).Runs s
      (fun _ s' => Renewing W (fun j => was j ∧ j ∉ allRows) now s'.nic ∧ s'.lists = s.lists) fun _ _ => False := by
    unfold ef10FilterRemoveOld
    refine runs_forEach (fun (done : List Row) (s' : Filters) =>
      Renewing W (fun j => was j ∧ j ∉ done) now s'.nic ∧ s'.lists = s.lists) allRows
      ⟨h.mono (fun j hj => ⟨hj, by simp⟩) (fun _ hj => hj) fun _ hw => hw, rfl⟩ ?_
    rintro done i s1 - ⟨h1, hl1⟩
    refine runs_get_bind (runs_when (fun ho => ?_) fun ho => ⟨?_, hl1⟩)
    · refine (deleteAuto_runs h1 i).mono (fun _ s2 h2 => ⟨?_, h2.2.trans hl1⟩) fun _ _ hf => hf
      exact h2.1.mono (fun j hj => ⟨hj.1.1, by simp [hj.1.2, hj.2]⟩) (fun _ hj => hj.1) fun _ hw => hw
    · refine ⟨h1.sound, h1.idle, fun j sp hj hoj => ?_, h1.fresh⟩
      have hwas := h1.old j sp hj hoj
      have hji : j ≠ i := by
        rintro rfl
        exact ho hoj
      exact ⟨hwas.1, by simp [hwas.2, hji]⟩
  refine hloop.mono (fun _ s' h' => ⟨?_, h'.2⟩) fun _ _ hf => hf
  exact h'.1.mono (fun j hj => hj.2 (List.mem_finRange j)) (fun _ hj => hj) fun _ hw => hw

/-- **Mark.** -/
theorem markOld_runs (h : Renewing W was now s.nic) (rows : List Row) :
    (markOld rows).Runs s
      (fun _ s' => Renewing W (fun j => was j ∨ j ∈ rows) (fun j => now j ∧ j ∉ rows) s'.nic ∧ s'.lists = s.lists)
      fun _ _ => False := by
  refine runs_forEach (fun (done : List Row) (s' : Filters) =>
    Renewing W (fun j => was j ∨ j ∈ done) (fun j => now j ∧ j ∉ done) s'.nic ∧ s'.lists = s.lists) rows
    ⟨h.mono (fun j hj => Or.inl hj) (fun j hj => ⟨hj, by simp⟩) fun _ hw => hw, rfl⟩ ?_
  rintro done i s1 - ⟨h1, hl1⟩
  refine runs_zoom (runs_modify ⟨?_, hl1⟩)
  have hsound : Sound (s1.nic.setEntry i ((s1.nic.entry i).withAutoOld true)) := h1.sound.mark rfl (h1.sound.free i)
  refine ⟨hsound, h1.idle.setEntry (h1.idle i), fun j sp hj ho => ?_, fun j sp hj hp ho => ?_⟩
  · by_cases hji : j = i
    · exact Or.inr (by simp [hji])
    · rw [setEntry_ne _ _ hji] at hj ho
      exact (h1.old j sp hj ho).imp id fun hd => by simp [hd]
  · by_cases hji : j = i
    · subst hji
      rw [setEntry_self] at ho
      cases ho
    · rw [setEntry_ne _ _ hji] at hj ho
      obtain ⟨hn, hw⟩ := h1.fresh j sp hj hp ho
      exact ⟨⟨hn.1, by simp [hn.2, hji]⟩, hw⟩

/-- The same filters and lists; the marks may differ. -/
def Filters.SameSpecs (s' s : Filters) : Prop :=
  s'.lists = s.lists ∧ ∀ i, (s'.nic.entry i).spec = (s.nic.entry i).spec

/-- The marks of a call that failed are taken away, not the filters. -/
theorem clearAutoOld_runs (h : Renewing W was now s.nic) :
    clearAutoOld.Runs s
      (fun _ s' => Renewing (fun _ => True) (fun _ => False) (fun j => was j ∨ now j) s'.nic ∧ s'.SameSpecs s)
      fun _ _ => False := by
  have hloop : clearAutoOld.Runs s (fun _ s' => Renewing (fun _ => True) (fun j => was j ∧ j ∉ allRows)
      (fun j => was j ∨ now j) s'.nic ∧ s'.SameSpecs s) fun _ _ => False := by
    unfold clearAutoOld
    refine runs_forEach (fun (done : List Row) (s' : Filters) =>
      Renewing (fun _ => True) (fun j => was j ∧ j ∉ done) (fun j => was j ∨ now j) s'.nic ∧ s'.SameSpecs s) allRows
      ⟨h.mono (fun j hj => ⟨hj, by simp⟩) (fun _ hj => Or.inr hj) fun _ _ => trivial, rfl, fun _ => rfl⟩ ?_
    rintro done i s1 - ⟨h1, hl1⟩
    have hold : ∀ j sp, j ≠ i → (s1.nic.entry j).spec = some sp → (s1.nic.entry j).autoOld = true →
        was j ∧ j ∉ done ++ [i] := by
      intro j sp hji hj ho
      have hwas := h1.old j sp hj ho
      exact ⟨hwas.1, by simp [hwas.2, hji]⟩
    refine runs_get_bind (runs_when (fun ho => runs_zoom (runs_modify ⟨?_, hl1.1, fun j => ?_⟩)) fun ho => ⟨?_, hl1⟩)
    rotate_left
    · refine Eq.trans ?_ (hl1.2 j)
      by_cases hji : j = i
      · subst hji
        rw [setEntry_self]
        rfl
      · rw [setEntry_ne _ _ hji]
    · refine ⟨h1.sound, h1.idle, fun j sp hj hoj => hold j sp ?_ hj hoj, h1.fresh⟩
      rintro rfl
      exact ho hoj
    · have hsound : Sound (s1.nic.setEntry i ((s1.nic.entry i).withAutoOld false)) :=
        h1.sound.mark rfl (h1.sound.free i)
      refine ⟨hsound, h1.idle.setEntry (h1.idle i), fun j sp hj hoj => ?_, fun j sp hj hp hoj => ?_⟩
      · by_cases hji : j = i
        · subst hji
          rw [setEntry_self] at hoj
          cases hoj
        · rw [setEntry_ne _ _ hji] at hj hoj
          exact hold j sp hji hj hoj
      · by_cases hji : j = i
        · subst hji
          rw [setEntry_self] at hj
          exact ⟨Or.inl (h1.old j sp hj ho).1, trivial⟩
        · rw [setEntry_ne _ _ hji] at hj hoj
          exact h1.fresh j sp hj hp hoj
  refine hloop.mono (fun _ s' h' => ⟨?_, h'.2⟩) fun _ _ hf => hf
  exact h'.1.mono (fun j hj => hj.2 (List.mem_finRange j)) (fun _ hj => hj) fun _ hw => hw

/-! ### The stages of a call -/

/-- The filters a call may ask for, by their match tuples -/
def Config.wanted (c : Config) : List FilterSpec :=
  [efxFilterSpecSetEthLocal .zero EFX_FILTER_SPEC_VID_UNSPEC c.macAddr, efxFilterSpecSetUcDef .zero,
    efxFilterSpecSetMcDef .zero] ++
  (if c.mulcst || c.allMulcst then c.addrs.map (efxFilterSpecSetEthLocal .zero EFX_FILTER_SPEC_VID_UNSPEC) else []) ++
  if c.brdcst then [efxFilterSpecSetEthLocal .zero EFX_FILTER_SPEC_VID_UNSPEC broadcastAddr] else []

def Wanted (c : Config) (spec : FilterSpec) : Prop := ∃ w ∈ c.wanted, w.tuple = spec.tuple

/-- Within a call: what has been inserted is in the unicast list or in `rows`, and the multicast list is still `m`. -/
structure Mid (W : FilterSpec → Prop) (was : Row → Prop) (m : List Row) (er : ℕ) (rows : List Row) (s : Filters) :
    Prop where
  renewing : Renewing W was (fun i => i ∈ s.unicst ∨ i ∈ rows) s.nic
  mulcst : s.mulcst = m
  rxq : s.defaultRxq = some er

/-- The filters of the lists -/
def Filters.Records (s : Filters) (i : Row) : Prop := i ∈ s.unicst ∨ i ∈ s.mulcst

variable {er : ℕ}

theorem lists_eq (h : s'.lists = s.lists) :
    s'.unicst = s.unicst ∧ s'.mulcst = s.mulcst ∧ s'.defaultRxq = s.defaultRxq := by
  simpa [Filters.lists] using h

theorem Mid.of_lists (h : Mid W was m er rows s) (hl : s'.lists = s.lists)
    (hr : Renewing W was (fun i => i ∈ s.unicst ∨ i ∈ rows) s'.nic) : Mid W was m er rows s' := by
  obtain ⟨hu, hm, hrxq⟩ := lists_eq hl
  exact ⟨hu ▸ hr, hm.trans h.mulcst, hrxq.trans h.rxq⟩

theorem initAuto_bind_runs {α : Type} {f : FilterSpec → Prog Filters Errno α} {R : α → Filters → Prop}
    {E : Errno → Filters → Prop} (hrxq : s.defaultRxq = some er)
    (hf : (f (efxFilterSpecInitRx EFX_FILTER_PRI_AUTO filterFlags er)).Runs s R E) :
    (initAuto filterFlags >>= f).Runs s R E := by
  have hinit : initAuto filterFlags s = .ret (efxFilterSpecInitRx EFX_FILTER_PRI_AUTO filterFlags er) s := by
    rw [initAuto, bind_of_ret (get_apply s), hrxq]
    rfl
  rw [Runs, bind_of_ret hinit]
  exact hf

/-- A filter for the unicast list -/
theorem insertUnicst_runs (h : Mid W was m er [] s) (hW : ∀ sp : FilterSpec, spec.tuple = sp.tuple → W sp) :
    (addAuto fw spec >>= fun i => modify fun s => { s with unicst := s.unicst ++ [i] }).Runs s
      (fun _ => Mid W was m er []) fun _ => Mid W was m er [] := by
  refine runs_bind ((addAuto_runs h.renewing hW).mono (fun i s1 h1 => runs_modify ?_) fun _ s1 h1 =>
    h.of_lists h1.2 h1.1)
  obtain ⟨hu, hm, hrxq⟩ := lists_eq h1.2
  refine ⟨h1.1.mono (fun _ hj => hj) (fun j hj => ?_) fun _ hw => hw, hm.trans h.mulcst, hrxq.trans h.rxq⟩
  change j ∈ s1.unicst ++ [i] ∨ _
  rw [hu]
  rcases hj with (hj | hj) | rfl
  · exact Or.inl (by simp [hj])
  · exact Or.inr hj
  · exact Or.inl (by simp)

theorem insertUnicast_runs (h : Mid (Wanted c) was m er [] s) :
    (ef10FilterInsertUnicast fw c.macAddr filterFlags).Runs s (fun _ => Mid (Wanted c) was m er [])
      fun _ => Mid (Wanted c) was m er [] :=
  initAuto_bind_runs h.rxq (insertUnicst_runs h fun _ ht =>
    ⟨efxFilterSpecSetEthLocal .zero EFX_FILTER_SPEC_VID_UNSPEC c.macAddr, by simp [Config.wanted], ht⟩)

theorem insertAllUnicast_runs (h : Mid (Wanted c) was m er [] s) :
    (ef10FilterInsertAllUnicast fw filterFlags).Runs s (fun _ => Mid (Wanted c) was m er [])
      fun _ => Mid (Wanted c) was m er [] :=
  initAuto_bind_runs h.rxq (insertUnicst_runs h fun _ ht => ⟨efxFilterSpecSetUcDef .zero, by simp [Config.wanted], ht⟩)

theorem renewUnicast_runs (hr : Renewing (Wanted c) was (fun _ => False) s.nic) (hrxq : s.defaultRxq = some er) :
    (renewUnicast fw c filterFlags).Runs s (fun _ => Mid (Wanted c) was s.mulcst er [])
      fun _ => Mid (Wanted c) was s.mulcst er [] := by
  have hstart : Mid (Wanted c) was s.mulcst er [] { s with unicst := [] } :=
    ⟨hr.mono (fun _ hj => hj) (fun _ hj => hj.elim) fun _ hw => hw, rfl, hrxq⟩
  have hall : ∀ {s1 : Filters} {f : Except Errno Unit → Prog Filters Errno Bool}, Mid (Wanted c) was s.mulcst er [] s1 →
      (∀ r s2, Mid (Wanted c) was s.mulcst er [] s2 → (f r).Runs s2 (fun _ => Mid (Wanted c) was s.mulcst er [])
        fun _ => Mid (Wanted c) was s.mulcst er []) →
      ((attempt (ef10FilterInsertAllUnicast fw filterFlags) : Prog Filters Errno _) >>= f).Runs s1
        (fun _ => Mid (Wanted c) was s.mulcst er []) fun _ => Mid (Wanted c) was s.mulcst er [] := by
    intro s1 f h1 hf
    exact runs_bind (runs_attempt ((insertAllUnicast_runs h1).mono (fun _ s2 h2 => hf _ s2 h2) fun _ s2 h2 => hf _ s2 h2))
  refine runs_modify_bind (runs_bind (runs_attempt ((insertUnicast_runs hstart).mono (fun _ s1 h1 => ?_)
    fun rc s1 h1 => ?_)))
  · cases c.allUnicst with
    | false => exact runs_pure h1
    | true =>
      refine hall h1 fun r s2 h2 => ?_
      cases r with
      | ok u => exact runs_pure h2
      | error e => exact runs_pure h2
  · refine hall h1 fun r s2 h2 => ?_
    cases r with
    | ok u => exact runs_pure h2
    | error e => exact runs_fail h2

theorem getWorkarounds_runs (h : Mid W was m er rows s) :
    (ef10FilterGetWorkarounds workarounds).Runs s (fun _ => Mid W was m er rows) fun _ => Mid W was m er rows := by
  cases workarounds with
  | ok r => exact runs_modify ⟨h.renewing, h.mulcst, h.rxq⟩
  | error rc =>
    by_cases hrc : rc = ENOTSUP
    · rw [ef10FilterGetWorkarounds, if_pos hrc]
      exact runs_modify ⟨h.renewing, h.mulcst, h.rxq⟩
    · rw [ef10FilterGetWorkarounds, if_neg hrc]
      exact runs_fail h

/-- What a roll back leaves. -/
theorem rollBack_runs {Q : List Row → Filters → Prop} (h : Mid W was m er rows s) (rc : Errno) :
    (rollBack fw rows rc).Runs s Q fun _ => Mid W was [] er [] := by
  refine runs_bind ((deleteEach_runs h.renewing rows.reverse).mono (fun _ s1 h1 => ?_) fun _ _ hf => hf.elim)
  obtain ⟨hu, -, hrxq⟩ := lists_eq h1.2
  refine runs_modify_bind (runs_fail ⟨h1.1.mono (fun _ hj => hj) (fun j hj => Or.inl ?_) fun _ hw => hw, rfl,
    hrxq.trans h.rxq⟩)
  change j ∈ s1.unicst
  rw [hu]
  exact hj.1.resolve_right fun hrow => hj.2 (List.mem_reverse.mpr hrow)

theorem insertAddrs_runs (h : Mid W was m er rows s) (hW : ∀ addr ∈ addrs, ∀ sp : FilterSpec,
    (efxFilterSpecSetEthLocal .zero EFX_FILTER_SPEC_VID_UNSPEC addr).tuple = sp.tuple → W sp) :
    (insertAddrs fw filterFlags rollback addrs rows).Runs s (fun rows' => Mid W was m er rows')
      fun _ s' => rollback = true ∧ Mid W was [] er [] s' := by
  induction addrs generalizing rows s with
  | nil => exact runs_pure h
  | cons addr addrs ih =>
    have hrest : ∀ a ∈ addrs, ∀ sp : FilterSpec,
        (efxFilterSpecSetEthLocal .zero EFX_FILTER_SPEC_VID_UNSPEC a).tuple = sp.tuple → W sp :=
      fun a ha => hW a (List.mem_cons_of_mem _ ha)
    have hone : ∀ sp : FilterSpec, (efxFilterSpecSetEthLocal (efxFilterSpecInitRx EFX_FILTER_PRI_AUTO filterFlags er)
        EFX_FILTER_SPEC_VID_UNSPEC addr).tuple = sp.tuple → W sp := fun sp ht => hW addr List.mem_cons_self sp ht
    refine initAuto_bind_runs h.rxq (runs_bind (runs_attempt ((addAuto_runs h.renewing hone).mono
      (fun i s1 h1 => ?_) fun rc s1 h1 => ?_)))
    · obtain ⟨hu, hm, hrxq⟩ := lists_eq h1.2
      refine ih ⟨h1.1.mono (fun _ hj => hj) (fun j hj => ?_) fun _ hw => hw, hm.trans h.mulcst, hrxq.trans h.rxq⟩ hrest
      rw [hu]
      rcases hj with (hj | hj) | rfl
      · exact Or.inl hj
      · exact Or.inr (by simp [hj])
      · exact Or.inr (by simp)
    · have hmid := h.of_lists h1.2 h1.1
      cases rollback with
      | true => exact (rollBack_runs hmid rc).mono (fun _ _ hq => hq) fun _ s2 h2 => ⟨rfl, h2⟩
      | false => exact ih hmid hrest

/-- The list does not fit. -/
def TooMany (mulcst brdcst : Bool) (addrs : List MacAddr) : Prop :=
  (if mulcst then addrs else []).length + (if brdcst then 1 else 0) > EFX_EF10_FILTER_MULTICAST_FILTERS_MAX

theorem insertMulticastList_runs {mulcst : Bool} (h : Mid (Wanted c) was m er [] s)
    (hmulcst : mulcst = true → c.mulcst = true ∨ c.allMulcst = true) :
    (ef10FilterInsertMulticastList fw mulcst c.brdcst c.addrs filterFlags rollback).Runs s
      (fun _ s' => Renewing (Wanted c) was s'.Records s'.nic)
      fun _ s' => TooMany mulcst c.brdcst c.addrs ∧ Mid (Wanted c) was m er [] s' ∨
        ¬ TooMany mulcst c.brdcst c.addrs ∧ rollback = true ∧ Mid (Wanted c) was [] er [] s' := by
  have hW : ∀ addr ∈ (if mulcst then c.addrs else []) ++ (if c.brdcst then [broadcastAddr] else []),
      ∀ sp : FilterSpec, (efxFilterSpecSetEthLocal .zero EFX_FILTER_SPEC_VID_UNSPEC addr).tuple = sp.tuple →
        Wanted c sp := by
    intro addr haddr sp ht
    refine ⟨efxFilterSpecSetEthLocal .zero EFX_FILTER_SPEC_VID_UNSPEC addr, ?_, ht⟩
    rcases List.mem_append.mp haddr with hmem | hmem
    · have hm : mulcst = true := by
        by_contra hno
        rw [if_neg hno] at hmem
        cases hmem
      rw [if_pos hm] at hmem
      have hor := hmulcst hm
      simp only [Config.wanted, List.mem_append, Bool.or_eq_true, if_pos hor, List.mem_map]
      exact Or.inl (Or.inr ⟨addr, hmem, rfl⟩)
    · have hb : c.brdcst = true := by
        by_contra hno
        rw [if_neg hno] at hmem
        cases hmem
      rw [if_pos hb] at hmem
      obtain rfl := List.mem_singleton.mp hmem
      simp [Config.wanted, hb]
  refine runs_bind (runs_ensure (fun hfit => ?_) fun hfit => Or.inl ⟨not_not.mp hfit, h⟩)
  refine runs_bind ((insertAddrs_runs h hW).mono (fun rows s1 h1 => runs_modify h1.renewing)
    fun _ s1 h1 => Or.inr ⟨hfit, h1⟩)

theorem insertAllMulticast_runs (h : Mid (Wanted c) was m er [] s) :
    (ef10FilterInsertAllMulticast fw filterFlags).Runs s (fun _ s' => Renewing (Wanted c) was s'.Records s'.nic)
      fun _ => Mid (Wanted c) was m er [] := by
  have hW : ∀ sp : FilterSpec, (efxFilterSpecSetMcDef (efxFilterSpecInitRx EFX_FILTER_PRI_AUTO filterFlags er)).tuple =
      sp.tuple → Wanted c sp := fun sp ht => ⟨efxFilterSpecSetMcDef .zero, by simp [Config.wanted], ht⟩
  refine initAuto_bind_runs h.rxq (runs_bind ((addAuto_runs h.renewing hW).mono (fun i s1 h1 => runs_modify ?_)
    fun _ s1 h1 => h.of_lists h1.2 h1.1))
  obtain ⟨hu, -, -⟩ := lists_eq h1.2
  refine h1.1.mono (fun _ hj => hj) (fun j hj => ?_) fun _ hw => hw
  change j ∈ s1.unicst ∨ j ∈ [i]
  rw [hu]
  rcases hj with (hj | hj) | rfl
  · exact Or.inl hj
  · cases hj
  · exact Or.inr List.mem_cons_self

/-- Old filters may go before new ones come. -/
theorem removeOldWhen_runs (h : Mid W was m er rows s) (b : Prop) [Decidable b] :
    (when b (ef10FilterRemoveOld fw)).Runs s (fun _ => Mid W was m er rows) fun _ _ => False := by
  refine runs_when (fun _ => (removeOld_runs h.renewing).mono (fun _ s1 h1 => ?_) fun _ _ hf => hf) fun _ => h
  exact h.of_lists h1.2 (h1.1.mono (fun _ hj => hj.elim) (fun _ hj => hj) fun _ hw => hw)

/-- The list is only touched when it fits; then the last try does not fail. -/
theorem renewAllMulticast_runs {m' : List Row} (h : Mid (Wanted c) was m' er [] s)
    (hm : TooMany c.mulcst c.brdcst c.addrs → m' = m) :
    (renewAllMulticast fw c filterFlags).Runs s (fun _ s' => Renewing (Wanted c) was s'.Records s'.nic)
      fun _ => Mid (Wanted c) was m er [] := by
  refine runs_get_bind (runs_bind ((removeOldWhen_runs h _).mono (fun _ s1 h1 => ?_) fun _ _ hf => hf.elim))
  refine runs_bind (runs_attempt ((insertAllMulticast_runs h1).mono (fun _ s2 h2 => runs_pure h2) fun _ s2 h2 => ?_))
  refine runs_bind ((insertMulticastList_runs h2 Or.inl).mono (fun _ s3 h3 => runs_pure h3) fun _ s3 h3 => ?_)
  obtain ⟨hmany, h3⟩ := h3.resolve_right fun hr => Bool.false_ne_true hr.2.1
  exact hm hmany ▸ h3

theorem renewMulticast_runs (h : Mid (Wanted c) was m er [] s) :
    (renewMulticast fw c filterFlags).Runs s (fun _ s' => Renewing (Wanted c) was s'.Records s'.nic)
      fun _ => Mid (Wanted c) was m er [] := by
  refine runs_get_bind (runs_bind ((removeOldWhen_runs h _).mono (fun _ s1 h1 => ?_) fun _ _ hf => hf.elim))
  by_cases hall : c.allMulcst = true
  · rw [if_pos hall]
    refine runs_bind (runs_attempt ((insertAllMulticast_runs h1).mono (fun _ s2 h2 => runs_pure h2) fun _ s2 h2 => ?_))
    refine runs_bind ((insertMulticastList_runs h2 fun _ => Or.inr hall).mono (fun _ s3 h3 => runs_pure h3)
      fun _ s3 h3 => ?_)
    exact (h3.resolve_right fun hr => Bool.false_ne_true hr.2.1).2
  · rw [if_neg hall]
    refine runs_bind (runs_attempt ((insertMulticastList_runs h1 Or.inl).mono (fun _ s2 h2 => runs_pure h2)
      fun _ s2 h2 => ?_))
    rcases h2 with ⟨-, h2⟩ | ⟨hfit, -, h2⟩
    · exact renewAllMulticast_runs h2 fun _ => rfl
    · exact renewAllMulticast_runs h2 fun hmany => absurd hmany hfit

/-! ### A call -/

/-- Between calls no filter is marked, and the lists have the automatic ones. -/
def Between (s : Filters) : Prop := Renewing (fun _ => True) (fun _ => False) s.Records s.nic

/-- Every automatic filter is one that the call asked for. -/
def AllWanted (c : Config) (s : Filters) : Prop :=
  ∀ i spec, (s.nic.entry i).spec = some spec → spec.priority = EFX_FILTER_PRI_AUTO → Wanted c spec

theorem renew_runs (h : Between s) (hrxq : s.defaultRxq = some er) :
    (renew fw c workarounds).Runs s (fun _ s' => Renewing (Wanted c) (fun _ => False) s'.Records s'.nic)
      fun _ => Mid (Wanted c) s.Records s.mulcst er [] := by
  refine runs_get_bind (runs_bind ((markOld_runs h s.unicst).mono (fun _ s1 h1 => ?_) fun _ _ hf => hf.elim))
  refine runs_bind ((markOld_runs h1.1 s.mulcst).mono (fun _ s2 h2 => ?_) fun _ _ hf => hf.elim)
  obtain ⟨-, hm, hr⟩ := lists_eq (h2.2.trans h1.2)
  have hmarked : Renewing (Wanted c) s.Records (fun _ => False) s2.nic := by
    refine ⟨h2.1.sound, h2.1.idle, fun j sp hj ho => ?_, fun j sp hj hp ho => ?_⟩
    · exact (h2.1.old j sp hj ho).imp (fun hj => hj.resolve_left id) id
    · obtain ⟨⟨hrec, hnu⟩, hnm⟩ := (h2.1.fresh j sp hj hp ho).1
      exact (hrec.elim hnu hnm).elim
  refine runs_bind ((renewUnicast_runs hmarked (hr.trans hrxq)).mono (fun _ s3 h3 => ?_) fun _ s3 h3 => hm ▸ h3)
  refine runs_bind ((getWorkarounds_runs h3).mono (fun _ s4 h4 => ?_) fun _ s4 h4 => hm ▸ h4)
  refine runs_bind ((renewMulticast_runs h4).mono (fun _ s5 h5 => ?_) fun _ s5 h5 => hm ▸ h5)
  refine runs_bind ((removeOld_runs h5).mono (fun _ s6 h6 => runs_pure ?_) fun _ _ hf => hf.elim)
  obtain ⟨hu6, hm6, -⟩ := lists_eq h6.2
  refine h6.1.mono (fun _ hj => hj) (fun j hj => ?_) fun _ hw => hw
  rwa [Filters.Records, hu6, hm6]

theorem removeAll_runs (h : Between s) :
    (removeAll fw).Runs s (fun _ s' => Renewing (fun _ => True) (fun _ => False) (fun _ => False) s'.nic)
      fun _ _ => False := by
  refine runs_get_bind (runs_bind ((deleteEach_runs h s.unicst).mono (fun _ s1 h1 => ?_) fun _ _ hf => hf))
  refine runs_modify_bind (runs_bind ((deleteEach_runs (s := { s1 with unicst := [] }) h1.1 s.mulcst).mono
    (fun _ s2 h2 => runs_modify ?_) fun _ _ hf => hf))
  exact h2.1.mono (fun _ hj => hj) (fun j hj => hj.1.1.elim hj.1.2 hj.2) fun _ hw => hw

/-- How a reconfigure ends. -/
inductive Ended (fw : Firmware) (c : Config) (workarounds : Except Errno (U32 × U32)) (s s' : Filters) : Prop
  | removed (hrxq : s.defaultRxq = none) (h : Renewing (fun _ => True) (fun _ => False) (fun _ => False) s'.nic)
  | renewed (hrxq : s.defaultRxq ≠ none) (r : Bool) (s1 : Filters) (hret : renew fw c workarounds s = .ret r s1)
      (h : Renewing (Wanted c) (fun _ => False) s'.Records s'.nic)
  | failed (hrxq : s.defaultRxq ≠ none) (rc : Errno) (s1 : Filters) (herr : renew fw c workarounds s = .err rc s1)
      (hsame : s'.SameSpecs s1) (hm : s'.mulcst = s.mulcst)
      (h : Renewing (fun _ => True) (fun _ => False) (fun j => s.Records j ∨ j ∈ s'.unicst) s'.nic)

theorem reconfigure_runs (h : Between s) : (ef10FilterReconfigure fw c workarounds).Runs s
    (fun _ => Ended fw c workarounds s) fun _ => Ended fw c workarounds s := by
  refine runs_get_bind ?_
  by_cases hrxq : s.defaultRxq = none
  · rw [if_pos hrxq]
    exact (removeAll_runs h).mono (fun _ s1 h1 => .removed hrxq h1) fun _ _ hf => hf.elim
  · rw [if_neg hrxq]
    obtain ⟨er, her⟩ := Option.ne_none_iff_exists'.mp hrxq
    rcases (renew_runs h her : (renew fw c workarounds).Runs s _ _) with ⟨r, s1, hret, h1⟩ | ⟨rc, s1, herr, h1⟩
    · refine runs_bind (runs_of_ret (attempt_of_ret hret) ?_)
      exact runs_ensure (fun _ => .renewed hrxq r s1 hret h1) fun _ => .renewed hrxq r s1 hret h1
    · refine runs_bind (runs_of_ret (attempt_of_err herr) ?_)
      refine runs_bind ((clearAutoOld_runs h1.renewing).mono (fun _ s2 h2 => runs_fail ?_) fun _ _ hf => hf.elim)
      obtain ⟨hu, hm, -⟩ := lists_eq h2.2.1
      refine .failed hrxq rc s1 herr h2.2 (hm.trans h1.mulcst) (h2.1.mono (fun _ hj => hj) (fun j hj => ?_) fun _ hw => hw)
      rw [hu]
      exact hj.imp id fun hj => hj.resolve_right (by simp)

/-! ### Runs -/

/-- A call of the filter code from outside; the priority of an automatic filter is not for others to use. -/
inductive Call where
  | reconfigure (c : Config) (workarounds : Except Errno (U32 × U32))
  | rxqSet (erIndex : ℕ) (usingRss : Bool) (c : Config) (workarounds : Except Errno (U32 × U32))
  | rxqClear (c : Config) (workarounds : Except Errno (U32 × U32))
  | insert (spec : FilterSpec) (hpri : spec.priority ≠ EFX_FILTER_PRI_AUTO) (mayReplace alloc : Bool) (out : FilterOpOut)
  | remove (spec : FilterSpec) (out : FilterOpOut)
  | restore (answers : Row → FilterOpOut)
  | setRssContext (rssContext : U32)

def Call.prog (fw : Firmware) : Call → Prog Filters Errno Unit
  | reconfigure c workarounds => ef10FilterReconfigure fw c workarounds
  | rxqSet erIndex usingRss c workarounds => ef10MacFilterDefaultRxqSet fw erIndex usingRss c workarounds
  | rxqClear c workarounds => ef10MacFilterDefaultRxqClear fw c workarounds
  | insert spec _ mayReplace alloc out => onNic (ef10FilterAdd spec mayReplace alloc out)
  | remove spec out => onNic (ef10FilterDelete spec out)
  | restore answers => onNic (ef10FilterRestore answers)
  | setRssContext rssContext => onNic (modify fun nic => { nic with rssContext })

/-- The state after a call, however it returns. -/
def callStep (fw : Firmware) (o : Call) (s : Filters) : Option Filters := (o.prog fw s).state?

/-- The state in which `ef10_mac_filter_default_rxq_set` calls for the filters -/
def Filters.withRxq (s : Filters) (erIndex : ℕ) (usingRss : Bool) : Filters :=
  { s with defaultRxq := some erIndex, usingRss }

/-- No entry is being worked on, no filter is marked, and no automatic filter is forgotten. -/
structure Settled (s : Filters) : Prop where
  idle : Idle s.nic
  unmarked : ∀ i spec, (s.nic.entry i).spec = some spec → (s.nic.entry i).autoOld = false
  known : ∀ i, s.nic.Auto i → s.Records i

/-- The reconfigure from `s` comes through. -/
def ComesThrough (fw : Firmware) (c : Config) (workarounds : Except Errno (U32 × U32)) (s : Filters) : Prop :=
  ∃ r s1, renew fw c workarounds s = .ret r s1

/-- What a call is for. -/
def Does (fw : Firmware) : Call → Filters → Filters → Prop
  | .reconfigure c workarounds, s, s' => (s.defaultRxq = none → ∀ i, ¬ s'.nic.Auto i) ∧
      (s.defaultRxq ≠ none → ComesThrough fw c workarounds s → AllWanted c s')
  | .rxqSet erIndex usingRss c workarounds, s, s' =>
      ComesThrough fw c workarounds (s.withRxq erIndex usingRss) → AllWanted c s'
  | .rxqClear _ _, _, s' => ∀ i, ¬ s'.nic.Auto i
  | .restore answers, s, s' => Restores answers s.nic s'.nic
  | _, _, _ => True

/-- A reconfigure from `s` that fails has renewed or removed the unicast filters. -/
def RenewsUnicast (fw : Firmware) (c : Config) (workarounds : Except Errno (U32 × U32)) (s : Filters) : Prop :=
  ∀ rc s1, renew fw c workarounds s = .err rc s1 → ∀ i ∈ s.unicst, s1.nic.Auto i → s1.Records i

/-- The firmware accepts what a restore asks for, and a reconfigure comes through or has seen to the unicast filters. -/
def Clean (fw : Firmware) : Call → Filters → Prop
  | .reconfigure c workarounds, s => s.defaultRxq ≠ none → RenewsUnicast fw c workarounds s
  | .rxqSet erIndex usingRss c workarounds, s => RenewsUnicast fw c workarounds (s.withRxq erIndex usingRss)
  | .restore answers, s => ∀ i, (s.nic.entry i).spec ≠ none → (answers i).Accepted
  | _, _ => True

theorem Between.settled (h : Between s) : Settled s := by
  refine ⟨h.idle, fun i sp hs => Bool.eq_false_iff.mpr fun ho => h.old i sp hs ho, ?_⟩
  rintro i ⟨sp, hs, hp⟩
  exact (h.fresh i sp hs hp (Bool.eq_false_iff.mpr fun ho => h.old i sp hs ho)).1

theorem Renewing.allWanted (h : Renewing (Wanted c) (fun _ => False) now s.nic) : AllWanted c s := fun i sp hs hp =>
  (h.fresh i sp hs hp (Bool.eq_false_iff.mpr fun ho => h.old i sp hs ho)).2

theorem Renewing.none_auto (h : Renewing W (fun _ => False) (fun _ => False) nic) (i : Row) : ¬ nic.Auto i := by
  rintro ⟨sp, hs, hp⟩
  exact (h.fresh i sp hs hp (Bool.eq_false_iff.mpr fun ho => h.old i sp hs ho)).1

theorem auto_congr (h : (nic'.entry i).spec = (nic.entry i).spec) : nic'.Auto i ↔ nic.Auto i := by
  rw [Nic.Auto, Nic.Auto, h]

/-- **A reconfigure.** -/
theorem Ended.between (h : Ended fw c workarounds s s')
    (hc : s.defaultRxq ≠ none → RenewsUnicast fw c workarounds s) : Between s' := by
  cases h with
  | removed _ h => exact h.mono (fun _ hj => hj) (fun _ hj => hj.elim) fun _ hw => hw
  | renewed _ _ _ _ h => exact h.mono (fun _ hj => hj) (fun _ hj => hj) fun _ _ => trivial
  | failed hrxq rc s1 herr hsame hm h =>
    refine ⟨h.sound, h.idle, h.old, fun i sp hs hp ho => ⟨?_, trivial⟩⟩
    obtain ⟨hu1, hm1, -⟩ := lists_eq hsame.1
    rcases (h.fresh i sp hs hp ho).1 with (hi | hi) | hi
    · have hauto : s1.nic.Auto i := (auto_congr (hsame.2 i)).mp ⟨sp, hs, hp⟩
      have hrec := hc hrxq rc s1 herr i hi hauto
      rwa [Filters.Records, hu1, hm1]
    · exact Or.inr (hm ▸ hi)
    · exact Or.inl hi

theorem Ended.does (h : Ended fw c workarounds s s') : Does fw (.reconfigure c workarounds) s s' := by
  cases h with
  | removed hrxq h => exact ⟨fun _ => h.none_auto, fun hno => absurd hrxq hno⟩
  | renewed hrxq _ _ _ h => exact ⟨fun hno => absurd hno hrxq, fun _ _ => h.allWanted⟩
  | failed hrxq rc s1 herr =>
    refine ⟨fun hno => absurd hno hrxq, ?_⟩
    rintro - ⟨r, s2, hret⟩
    rw [herr] at hret
    cases hret

/-- **What is forgotten.**  After a reconfigure that has failed the lists have every automatic filter only if it had seen
to the unicast ones. -/
theorem Ended.renewsUnicast (h : Ended fw c workarounds s s') (hknown : ∀ i, s'.nic.Auto i → s'.Records i)
    (hrxq : s.defaultRxq ≠ none) : RenewsUnicast fw c workarounds s := by
  intro rc s1 herr i hi hauto
  cases h with
  | removed hno => exact absurd hno hrxq
  | renewed _ r s2 hret =>
    rw [herr] at hret
    cases hret
  | failed _ rc' s2 herr' hsame =>
    cases herr.symm.trans herr'
    obtain ⟨hu, hm, -⟩ := lists_eq hsame.1
    have hrec := hknown i ((auto_congr (hsame.2 i)).mpr hauto)
    rwa [Filters.Records, hu, hm] at hrec

/-! ### Every call -/

theorem onNic_state {α : Type} {p : Prog Nic Errno α} (h : (onNic p s).state? = some s') :
    ∃ nic', (p s.nic).state? = some nic' ∧ s' = { s with nic := nic' } := by
  cases hp : p s.nic with
  | ret a nic' =>
    rw [onNic, zoom_of_ret hp] at h
    exact ⟨nic', rfl, (Option.some.inj h).symm⟩
  | err e nic' =>
    rw [onNic, zoom_of_err hp] at h
    exact ⟨nic', rfl, (Option.some.inj h).symm⟩
  | fault =>
    rw [onNic, zoom, hp] at h
    cases h
  | spin =>
    rw [onNic, zoom, hp] at h
    cases h

theorem insert_runs (h : Between s) (hpri : spec.priority ≠ EFX_FILTER_PRI_AUTO) :
    (onNic (ef10FilterAdd spec mayReplace alloc out)).Runs s (fun _ => Between) fun _ => Between := by
  refine runs_zoom (runs_bind ((addInternal_runs h.idle spec mayReplace alloc out).mono (fun i nic' hends => runs_pure ?_)
    fun e nic' hends => ?_))
  · exact h.addOther hends hpri rfl
  · exact h.addOther hends hpri rfl

theorem remove_runs (h : Between s) (spec : FilterSpec) (out : FilterOpOut) :
    (onNic (ef10FilterDelete spec out)).Runs s (fun _ => Between) fun _ => Between := by
  have hdrop : ∀ i, Between { s with nic := s.nic.dropped i } := fun i =>
    (h.dropped i).mono (fun _ hj => hj.1) (fun _ hj => hj.1) fun _ hw => hw
  refine runs_zoom (runs_get_bind ?_)
  cases hf : (searchRows spec).find? (s.nic.isTarget spec) with
  | none => exact runs_fail h
  | some i =>
    exact deleteInternal_runs h.idle (.ofNat 32 i.val) out (R := fun nic' => Between { s with nic := nic' })
      (hdrop _) fun _ => h

theorem restore_runs {answers : Row → FilterOpOut} (h : Between s)
    (hc : ∀ i, (s.nic.entry i).spec ≠ none → (answers i).Accepted) :
    ∃ s', callStep fw (.restore answers) s = some s' ∧ Restores answers s.nic s'.nic ∧ Between s' := by
  obtain ⟨nic1, hrun, -⟩ := restore_accepted h.idle fun i spec hs => hc i (by rw [hs]; simp)
  have hstep : Ef10.step (.restore answers) s.nic = some nic1 := congrArg Res.state? hrun
  obtain ⟨hrest, hidle⟩ := (idle_step (o := .restore answers) h.idle hstep).mpr hc
  have hcall : callStep fw (.restore answers) s = some { s with nic := nic1 } := by
    change (onNic (ef10FilterRestore answers) s).state? = _
    rw [onNic, zoom_of_ret hrun]
    rfl
  refine ⟨_, hcall, hrest, h.sound.step hstep, hidle, fun j sp hj ho => ?_, fun j sp hj hp ho => ?_⟩
  · obtain ⟨hs, -, hold⟩ := hrest.1 j
    exact h.old j sp (hs.symm.trans hj) (hold.symm.trans ho)
  · obtain ⟨hs, -, hold⟩ := hrest.1 j
    exact h.fresh j sp (hs.symm.trans hj) hp (hold.symm.trans ho)

/-- The state that a new default queue leaves: the queue is taken back where the filters could not be set. -/
theorem rxqSet_runs {erIndex : ℕ} {usingRss : Bool} (h : Between s) :
    (ef10MacFilterDefaultRxqSet fw erIndex usingRss c workarounds).Runs s
      (fun _ s' => ∃ s1, Ended fw c workarounds (s.withRxq erIndex usingRss) s1 ∧ s'.nic = s1.nic ∧ s'.Records = s1.Records)
      fun _ s' => ∃ s1, Ended fw c workarounds (s.withRxq erIndex usingRss) s1 ∧ s'.nic = s1.nic ∧
        s'.Records = s1.Records := by
  have hset : Between (s.withRxq erIndex usingRss) := h
  refine runs_get_bind (runs_modify_bind (runs_bind (runs_attempt ((reconfigure_runs hset).mono
    (fun _ s1 h1 => runs_pure ⟨s1, h1, rfl, rfl⟩) fun _ s1 h1 => ?_))))
  exact runs_modify_bind (runs_fail ⟨s1, h1, rfl, rfl⟩)

theorem rxqClear_runs (h : Between s) : (ef10MacFilterDefaultRxqClear fw c workarounds).Runs s
    (fun _ s' => Renewing (fun _ => True) (fun _ => False) (fun _ => False) s'.nic) fun _ _ => False := by
  have hclear : Between { s with defaultRxq := none, usingRss := false } := h
  have hremoved : ∀ s1, Ended fw c workarounds { s with defaultRxq := none, usingRss := false } s1 →
      Renewing (fun _ => True) (fun _ => False) (fun _ => False) s1.nic := by
    intro s1 h1
    cases h1 with
    | removed _ h1 => exact h1
    | renewed hno => exact absurd rfl hno
    | failed hno => exact absurd rfl hno
  exact runs_modify_bind (runs_bind (runs_attempt ((reconfigure_runs hclear).mono
    (fun _ s1 h1 => runs_pure (hremoved s1 h1)) fun _ s1 h1 => runs_pure (hremoved s1 h1))))

theorem Between.step {o : Call} (h : Between s) (hc : Clean fw o s) :
    ∃ s', callStep fw o s = some s' ∧ Does fw o s s' ∧ Between s' := by
  cases o with
  | reconfigure c workarounds =>
    have hruns : (ef10FilterReconfigure fw c workarounds).Runs s _ _ := reconfigure_runs h
    obtain ⟨s', hs', hends⟩ := hruns.state
    exact ⟨s', hs', hends.does, hends.between hc⟩
  | rxqSet erIndex usingRss c workarounds =>
    have hruns : (ef10MacFilterDefaultRxqSet fw erIndex usingRss c workarounds).Runs s _ _ := rxqSet_runs h
    obtain ⟨s', hs', s1, hends, hnic, hrec⟩ := hruns.state
    refine ⟨s', hs', fun hthrough => ?_, ?_⟩
    · have hwanted := (hends.does.2 (Option.some_ne_none _) hthrough)
      rwa [AllWanted, ← hnic] at hwanted
    · have hbetween := hends.between fun _ => hc
      rwa [Between, ← hnic, ← hrec] at hbetween
  | rxqClear c workarounds =>
    have hruns : (ef10MacFilterDefaultRxqClear fw c workarounds).Runs s _ _ := rxqClear_runs h
    obtain ⟨s', hs', hnone⟩ := (hruns.mono (fun _ s' hn => hn) fun _ _ hf => hf.elim).state
    exact ⟨s', hs', hnone.none_auto, hnone.mono (fun _ hj => hj) (fun _ hj => hj.elim) fun _ hw => hw⟩
  | insert spec hpri mayReplace alloc out =>
    obtain ⟨s', hs', hb⟩ := (insert_runs h hpri).state
    exact ⟨s', hs', trivial, hb⟩
  | remove spec out =>
    obtain ⟨s', hs', hb⟩ := (remove_runs h spec out).state
    exact ⟨s', hs', trivial, hb⟩
  | restore answers => exact restore_runs h hc
  | setRssContext rssContext => exact ⟨_, rfl, trivial, h.congr rfl⟩

theorem Between.clean {o : Call} (h : Between s) (hs : callStep fw o s = some s') (hsettled : Settled s')
    (hdoes : Does fw o s s') : Clean fw o s := by
  cases o with
  | reconfigure c workarounds =>
    intro hrxq
    have hruns : (ef10FilterReconfigure fw c workarounds).Runs s _ _ := reconfigure_runs h
    obtain ⟨s1, hs1, hends⟩ := hruns.state
    cases hs.symm.trans hs1
    exact hends.renewsUnicast hsettled.known hrxq
  | rxqSet erIndex usingRss c workarounds =>
    have hruns : (ef10MacFilterDefaultRxqSet fw erIndex usingRss c workarounds).Runs s _ _ := rxqSet_runs h
    obtain ⟨s2, hs2, s1, hends, hnic, hrec⟩ := hruns.state
    cases hs.symm.trans hs2
    refine hends.renewsUnicast (fun i hi => ?_) (Option.some_ne_none _)
    rw [← hrec]
    exact hsettled.known i (hnic ▸ hi)
  | restore answers =>
    obtain ⟨nic', hnic', rfl⟩ := onNic_state hs
    exact (idle_step (o := .restore answers) h.idle hnic').mp ⟨hdoes, hsettled.idle⟩
  | rxqClear | insert | remove | setRssContext => exact trivial

theorem between_init (rssContext : U32) : Between (filtersInit rssContext) :=
  ⟨sound_fresh ⟨rssContext, rfl⟩, fun _ => rfl, fun _ _ hs => (by cases hs), fun _ _ hs => (by cases hs)⟩

/-- **No automatic filter is forgotten.**  In a run of calls from `ef10_filter_init`, whatever the firmware answers, every
call ends, does what it is for and leaves the table settled, as long as no refused restore and no failed reconfigure that
leaves unicast filters behind is among them, and no longer. -/
theorem filters_settled_iff (fw : Firmware) (rssContext : U32) (calls : List Call) :
    GoesAlong (callStep fw) Settled (Does fw) calls (filtersInit rssContext) ↔
      GuardsAlong (callStep fw) (Clean fw) calls (filtersInit rssContext) :=
  goesAlong_iff (fun _ h => h.settled) (fun _ _ h hc => h.step hc)
    (fun _ _ _ h hs hdoes hsettled => h.clean hs hsettled hdoes) calls (between_init rssContext)

end Sfxge.Filter.Ef10
