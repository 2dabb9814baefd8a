import Sfxge.Filter.Ef10Undo

/-!
# Filter.Ef10Install — what a successful `ef10_filter_add` has installed

Of the firmware it is assumed that a handle names one filter: an answer gives a handle that an entry of the table
has only to the filter that is replaced there (`Fair`).  Then the firmware was last told, for the handle of every
entry, the rule of its spec (`Synced`), and an add that returns 0 has installed its spec, unless there was an
automatic filter for the same frames, which it refreshes (`add_installs`).
-/

namespace Sfxge.Filter.Ef10

open Lib Lib.Prog Errno

variable {nic nic' : Nic} {spec saved : FilterSpec} {i j : Row} {out : FilterOpOut} {mayReplace alloc : Bool}

/-! ### The firmware's rules -/

/-- The rule of a spec. -/
def ruleOf (spec : FilterSpec) : FilterRule := ⟨deliveryOf spec, valuesOf spec⟩

/-- Table and firmware agree. -/
structure Synced (nic : Nic) : Prop where
  programmed : ∀ i spec, (nic.entry i).spec = some spec → nic.programmed (nic.entry i).handle = some (ruleOf spec)
  handles : ∀ i j, i ≠ j → (nic.entry i).spec ≠ none → (nic.entry j).spec ≠ none →
    (nic.entry i).handle ≠ (nic.entry j).handle

/-- No other entry has the handle of the answer. -/
def Nic.Names (nic : Nic) (i : Row) (out : FilterOpOut) : Prop :=
  out.rc = none → ∀ j, j ≠ i → (nic.entry j).spec ≠ none → (nic.entry j).handle ≠ out.handle

theorem told_programmed_add (nic : Nic) (spec : FilterSpec) (h : Handle) (out : FilterOpOut) :
    (nic.told spec (addOp spec) h out).programmed =
      if out.rc = none then Function.update nic.programmed out.handle (some (ruleOf spec)) else nic.programmed := by
  unfold Nic.told addOp
  by_cases hexcl : ef10FilterIsExclusive spec
  · split_ifs <;> rfl
  · split_ifs <;> rfl

theorem told_programmed_replace (hrule : nic.programmed (nic.entry i).handle = some (ruleOf saved))
    (htuple : spec.tuple = saved.tuple) (out : FilterOpOut) :
    (nic.told spec .REPLACE (nic.entry i).handle out).programmed =
      if out.rc = none then Function.update nic.programmed out.handle (some (ruleOf spec)) else nic.programmed := by
  unfold Nic.told
  split_ifs
  · have hmap : (nic.programmed (nic.entry i).handle).map (fun old => { old with delivery := deliveryOf spec }) =
        some (ruleOf spec) := by
      rw [hrule, ruleOf, ruleOf, valuesOf_congr htuple]
      rfl
    change Function.update nic.programmed out.handle _ = _
    exact congrArg _ hmap
  · rfl

section Told

variable {nic1 : Nic} {e : FilterEntry} (h : Synced nic) (hentry : nic1.entry = nic.entry) (hnames : nic.Names i out)

/-- What the other entries have is as before. -/
theorem programmed_other {rule : Option FilterRule} (hj : j ≠ i) (hused : (nic.entry j).spec ≠ none)
    (hnames : nic.Names i out)
    (hprog : nic1.programmed = if out.rc = none then Function.update nic.programmed out.handle rule
      else nic.programmed) : nic1.programmed (nic.entry j).handle = nic.programmed (nic.entry j).handle := by
  rw [hprog]
  split_ifs with hrc
  · exact Function.update_of_ne (hnames hrc j hj hused) ..
  · rfl

include h hentry hnames

/-- **Accepted**: the entry has the spec that was programmed. -/
theorem Synced.accepted (hout : out.Accepted) (he : e.spec = some spec) (hh : e.handle = out.handle)
    (hprog : nic1.programmed = if out.rc = none then Function.update nic.programmed out.handle (some (ruleOf spec))
      else nic.programmed) : Synced (nic1.setEntry i e) := by
  have hne : ∀ j, j ≠ i → ((nic1.setEntry i e).entry j) = nic.entry j := fun j hj => by
    rw [setEntry_ne _ _ hj, hentry]
  refine ⟨fun j sp hj => ?_, fun j k hjk hj hk => ?_⟩
  · change nic1.programmed _ = _
    by_cases hji : j = i
    · subst hji
      rw [setEntry_self] at hj ⊢
      cases he.symm.trans hj
      rw [hh, hprog, if_pos hout.1, Function.update_self]
    · rw [hne j hji] at hj ⊢
      rw [programmed_other hji (by rw [hj]; simp) hnames hprog]
      exact h.programmed j sp hj
  · by_cases hji : j = i <;> by_cases hki : k = i
    · exact absurd (hji.trans hki.symm) hjk
    · rw [hne k hki] at hk ⊢
      rw [hji, setEntry_self, hh]
      exact (hnames hout.1 k hki hk).symm
    · rw [hne j hji] at hj ⊢
      rw [hki, setEntry_self, hh]
      exact hnames hout.1 j hji hj
    · rw [hne j hji] at hj ⊢
      rw [hne k hki] at hk ⊢
      exact h.handles j k hjk hj hk

/-- **Given up**: the entry has no spec. -/
theorem Synced.dropped {rule : Option FilterRule}
    (hprog : nic1.programmed = if out.rc = none then Function.update nic.programmed out.handle rule
      else nic.programmed) : Synced (nic1.dropped i) := by
  have hne : ∀ j, ((nic1.dropped i).entry j).spec ≠ none → j ≠ i ∧ (nic1.dropped i).entry j = nic.entry j := by
    intro j hj
    have hji : j ≠ i := by
      rintro rfl
      rw [Nic.dropped, setEntry_self] at hj
      exact hj rfl
    exact ⟨hji, by rw [Nic.dropped, setEntry_ne _ _ hji, hentry]⟩
  refine ⟨fun j sp hj => ?_, fun j k hjk hj hk => ?_⟩
  · obtain ⟨hji, heq⟩ := hne j (by rw [hj]; simp)
    rw [heq] at hj ⊢
    change nic1.programmed _ = _
    rw [programmed_other hji (by rw [hj]; simp) hnames hprog]
    exact h.programmed j sp hj
  · obtain ⟨-, heq⟩ := hne j hj
    obtain ⟨-, heq'⟩ := hne k hk
    rw [heq] at hj ⊢
    rw [heq'] at hk ⊢
    exact h.handles j k hjk hj hk

/-- **Refused**: the entry keeps its spec and its handle. -/
theorem Synced.refused (hs : (nic.entry i).spec = some spec) (he : e.spec = some spec)
    (hh : e.handle = (nic.entry i).handle)
    (hprog : nic1.programmed = if out.rc = none then Function.update nic.programmed out.handle (some (ruleOf spec))
      else nic.programmed) : Synced (nic1.setEntry i e) := by
  have hsame : ∀ j, ((nic1.setEntry i e).entry j).spec = (nic.entry j).spec ∧
      ((nic1.setEntry i e).entry j).handle = (nic.entry j).handle := by
    intro j
    by_cases hji : j = i
    · subst hji
      rw [setEntry_self]
      exact ⟨he.trans hs.symm, hh⟩
    · rw [setEntry_ne _ _ hji, hentry]
      exact ⟨rfl, rfl⟩
  refine ⟨fun j sp hj => ?_, fun j k hjk hj hk => ?_⟩
  · rw [(hsame j).1] at hj
    rw [(hsame j).2]
    change nic1.programmed _ = _
    by_cases hji : j = i
    · subst hji
      cases hs.symm.trans hj
      rw [hprog]
      split_ifs
      · rw [Function.update_apply]
        split_ifs
        · rfl
        · exact h.programmed j spec hj
      · exact h.programmed j spec hj
    · rw [programmed_other hji (by rw [hj]; simp) hnames hprog]
      exact h.programmed j sp hj
  · rw [(hsame j).1] at hj
    rw [(hsame k).1] at hk
    rw [(hsame j).2, (hsame k).2]
    exact h.handles j k hjk hj hk

end Told

/-! ### What is assumed of the answers -/

/-- The answers to a call name no filter of the table twice. -/
def Fair : Op → Nic → Prop
  | .add spec _ _ out, nic => out.rc = none → ∀ j saved, (nic.entry j).spec = some saved →
      (nic.entry j).handle = out.handle → ef10FilterEqual spec saved ∧ ef10FilterIsExclusive spec
  | .restore answers, nic => ∀ i j, i ≠ j → (nic.entry j).spec ≠ none → (answers i).rc = none →
      (nic.entry j).handle ≠ (answers i).handle ∧
        ((answers j).rc = none → (answers j).handle ≠ (answers i).handle)
  | _, _ => True

/-- A state that calls with fair answers reach. -/
def FairlyReachable : Nic → Prop := Reach Fresh fun nic nic' => ∃ o, Fair o nic ∧ step o nic = some nic'

theorem FairlyReachable.sound (h : FairlyReachable nic) : Sound nic :=
  Reach.inv Sound (fun _ => sound_fresh) (fun _ _ hI ⟨_, _, hs⟩ => hI.step hs) h

theorem synced_fresh (h : Fresh nic) : Synced nic := by
  obtain ⟨c, rfl⟩ := h
  exact ⟨fun i spec h => (by cases h), fun i j _ h => absurd rfl h⟩

theorem Synced.congr (h : Synced nic) (he : nic'.entry = nic.entry) (hp : nic'.programmed = nic.programmed) :
    Synced nic' := by
  obtain ⟨h1, h2⟩ := h
  rw [← he] at h1 h2
  rw [← hp] at h1
  exact ⟨h1, h2⟩

/-- An entry that keeps its spec and its handle. -/
theorem Synced.mark {e : FilterEntry} (h : Synced nic) (hs : e.spec = (nic.entry i).spec)
    (hh : e.handle = (nic.entry i).handle) : Synced (nic.setEntry i e) := by
  have hsame : ∀ j, ((nic.setEntry i e).entry j).spec = (nic.entry j).spec ∧
      ((nic.setEntry i e).entry j).handle = (nic.entry j).handle := by
    intro j
    by_cases hji : j = i
    · rw [hji, setEntry_self]
      exact ⟨hs, hh⟩
    · rw [setEntry_ne _ _ hji]
      exact ⟨rfl, rfl⟩
  refine ⟨fun j sp hj => ?_, fun j k hjk hj hk => ?_⟩
  · rw [(hsame j).1] at hj
    rw [(hsame j).2]
    exact h.programmed j sp hj
  · rw [(hsame j).1] at hj
    rw [(hsame k).1] at hk
    rw [(hsame j).2, (hsame k).2]
    exact h.handles j k hjk hj hk

theorem Synced.drop (h : Synced nic) (i : Row) : Synced (nic.dropped i) :=
  have hnames : nic.Names i ⟨some EINVAL, 0, ⟨0, 0⟩⟩ := nofun
  have hprog : nic.programmed =
      if some EINVAL = none then Function.update nic.programmed ⟨0, 0⟩ none else nic.programmed := by simp
  h.dropped rfl hnames hprog

/-- The answer to a new filter. -/
theorem names_of_free (hsound : Sound nic) (hall : ∀ j ∈ searchRows spec, ¬ nic.Stops spec j)
    (hfair : Fair (.add spec mayReplace alloc out) nic) (i : Row) : nic.Names i out := by
  intro hrc j _ hused heq
  obtain ⟨saved, hs⟩ := Option.ne_none_iff_exists'.mp hused
  obtain ⟨htuple, hexcl⟩ := hfair hrc j saved hs heq
  exact hsound.not_stops hall j ⟨saved, hs, equal_iff.mp htuple, .inr (.inr hexcl)⟩

/-- The answer to a replacement. -/
theorem names_of_finds (hsound : Sound nic) (hfinds : nic.Finds spec i saved)
    (hfair : Fair (.add spec mayReplace alloc out) nic) : nic.Names i out := by
  intro hrc j hji hused heq
  obtain ⟨sj, hs⟩ := Option.ne_none_iff_exists'.mp hused
  obtain ⟨htuple, hexcl⟩ := hfair hrc j sj hs heq
  have hsame : saved.tuple = sj.tuple := hfinds.tuple.symm.trans (equal_iff.mp htuple)
  rw [isExclusive_congr hfinds.tuple] at hexcl
  exact hji (hsound.unique i j saved sj hfinds.holds hs hsame hexcl).symm

theorem Synced.add {r : Res Nic Errno Row} (h : Synced nic) (hsound : Sound nic)
    (hfair : Fair (.add spec mayReplace alloc out) nic) (hr : AddEnds nic spec mayReplace alloc out r)
    (hs : r.state? = some nic') : Synced nic' := by
  cases hr with
  | spins => cases hs
  | full | exist | noMemory => cases hs; exact h
  | refresh i => cases hs; exact h.mark rfl rfl
  | replaced i saved hfinds _ _ _ hout =>
    cases hs
    have hspec : (((nic.entry i).withSaved (saved.updatedBy spec)).withHandle out.handle).spec = some spec := by
      rw [updatedBy_eq hfinds.tuple]
      rfl
    exact h.accepted (told_entry ..) (names_of_finds hsound hfinds hfair) hout hspec rfl
      (told_programmed_replace (h.programmed i saved hfinds.holds) hfinds.tuple out)
  | notReplaced i saved _ hfinds =>
    cases hs
    exact h.dropped (told_entry ..) (names_of_finds hsound hfinds hfair)
      (told_programmed_replace (h.programmed i saved hfinds.holds) hfinds.tuple out)
  | added i hall _ _ hout =>
    cases hs
    exact h.accepted (told_entry ..) (names_of_free hsound hall hfair i) hout rfl rfl (told_programmed_add ..)
  | notAdded i _ hall =>
    cases hs
    exact h.dropped (told_entry ..) (names_of_free hsound hall hfair i) (told_programmed_add ..)

/-! ### Restore under fair answers -/

/-- In the course of a restore: an entry has the handle it had, or the one it was answered. -/
structure Restoring (answers : Row → FilterOpOut) (nic0 nic : Nic) : Prop where
  synced : Synced nic
  spec : ∀ i, (nic.entry i).spec = (nic0.entry i).spec
  handle : ∀ i, (nic.entry i).handle = (nic0.entry i).handle ∨
    (answers i).rc = none ∧ (nic.entry i).handle = (answers i).handle

theorem Restoring.names {answers : Row → FilterOpOut} {nic0 : Nic} (h : Restoring answers nic0 nic)
    (hfair : Fair (.restore answers) nic0) (i : Row) : nic.Names i (answers i) := by
  intro hrc j hji hused heq
  rw [h.spec j] at hused
  obtain ⟨h1, h2⟩ := hfair i j (Ne.symm hji) hused hrc
  rcases h.handle j with hold | ⟨hrcj, hnew⟩
  · exact h1 (hold.symm.trans heq)
  · exact h2 hrcj (hnew.symm.trans heq)

theorem Restoring.row {answers : Row → FilterOpOut} {nic0 : Nic} (h : Restoring answers nic0 nic)
    (hfair : Fair (.restore answers) nic0) (i : Row) :
    (restoreRow answers i).Does nic (Restoring answers nic0) := by
  intro nic' hs
  cases hspec : (nic.entry i).spec with
  | none =>
    rw [restoreRow_skips (.inl hspec)] at hs
    cases hs
    exact h
  | some spec =>
    cases hb : (nic.entry i).busy with
    | true =>
      rw [restoreRow_skips (.inr hb)] at hs
      cases hs
      exact h
    | false =>
      have hother (e : FilterEntry) (j : Row) (hji : j ≠ i) :
          ((nic.asked spec i (answers i)).setEntry i e).entry j = nic.entry j := by
        rw [setEntry_ne _ _ hji, Nic.asked, told_entry]
      by_cases hout : (answers i).Accepted
      · rw [restoreRow_accepted hspec hb hout] at hs
        cases hs
        refine ⟨h.synced.accepted (told_entry ..) (h.names hfair i) hout hspec rfl (told_programmed_add ..),
          fun j => ?_, fun j => ?_⟩
        · by_cases hji : j = i
          · rw [hji, setEntry_self]
            exact h.spec i
          · rw [hother _ j hji]
            exact h.spec j
        · by_cases hji : j = i
          · rw [hji, setEntry_self]
            exact .inr ⟨hout.1, rfl⟩
          · rw [hother _ j hji]
            exact h.handle j
      · obtain ⟨rc, hrun⟩ := restoreRow_rejected hspec hb hout
        rw [hrun] at hs
        cases hs
        refine ⟨h.synced.refused (told_entry ..) (h.names hfair i) hspec hspec rfl (told_programmed_add ..),
          fun j => ?_, fun j => ?_⟩
        · by_cases hji : j = i
          · rw [hji, setEntry_self]
            exact h.spec i
          · rw [hother _ j hji]
            exact h.spec j
        · by_cases hji : j = i
          · rw [hji, setEntry_self]
            exact h.handle i
          · rw [hother _ j hji]
            exact h.handle j

theorem Synced.step {o : Op} (h : Synced nic) (hsound : Sound nic) (hfair : Fair o nic)
    (hs : step o nic = some nic') : Synced nic' := by
  cases o with
  | add spec mayReplace alloc out =>
    obtain ⟨r, hr, hstate⟩ := add_ends hs
    have hfair' : Fair (.add (spec.inContext nic.rssContext) mayReplace alloc out) nic := hfair
    exact h.add hsound hfair' hr hstate
  | delete spec out =>
    rcases delete_state hs with rfl | ⟨i, rfl⟩
    · exact h
    · exact h.drop i
  | deleteInternal filterId out =>
    rcases deleteInternal_state hs with rfl | ⟨i, rfl⟩
    · exact h
    · exact h.drop i
  | restore answers =>
    have hloop : (ef10FilterRestore answers).Does nic (Restoring answers nic) :=
      does_forEach (Restoring answers nic) ⟨h, fun _ => rfl, fun _ => .inl rfl⟩ fun i _ _ hI => hI.row hfair i
    exact (hloop nic' hs).synced
  | setAutoOld i =>
    cases hs
    exact h.mark rfl rfl
  | setRssContext c =>
    cases hs
    exact h.congr rfl rfl

theorem FairlyReachable.synced (h : FairlyReachable nic) : Synced nic :=
  (Reach.inv (fun nic => Sound nic ∧ Synced nic) (fun _ hf => ⟨sound_fresh hf, synced_fresh hf⟩)
    (fun _ _ hI ⟨_, hfair, hs⟩ => ⟨hI.1.step hs, hI.2.step hI.1 hfair hs⟩) h).2

/-! ### Add installs -/

/-- The spec is the only one for its frames, at entry `i`. -/
def Nic.Alone (nic : Nic) (spec : FilterSpec) (i : Row) : Prop :=
  ∀ j sj, (nic.entry j).spec = some sj → ef10FilterEqual spec sj → j = i

/-- There is an automatic filter for the frames of the spec. -/
def Nic.HasAuto (nic : Nic) (spec : FilterSpec) : Prop :=
  ∃ i saved, (nic.entry i).spec = some saved ∧ ef10FilterEqual spec saved ∧ saved.priority = EFX_FILTER_PRI_AUTO

/-- Entry `i` holds the spec, and the firmware was told so; the other entries are as before. -/
structure Installed (nic nic' : Nic) (spec : FilterSpec) (i : Row) : Prop where
  entry : (nic'.entry i).spec = some spec
  idle : (nic'.entry i).busy = false
  programmed : nic'.programmed (nic'.entry i).handle = some (ruleOf spec)
  alone : ef10FilterIsExclusive spec → nic'.Alone spec i
  others : ∀ j, j ≠ i → nic'.entry j = nic.entry j

/-- Entry `i` holds an automatic filter for the frames of the spec, of which only the `AUTO_OLD` mark is cleared. -/
structure Refreshed (nic nic' : Nic) (spec : FilterSpec) (i : Row) : Prop where
  auto : ∃ saved, (nic.entry i).spec = some saved ∧ ef10FilterEqual spec saved ∧
    saved.priority = EFX_FILTER_PRI_AUTO ∧ nic'.programmed (nic'.entry i).handle = some (ruleOf saved)
  alone : ef10FilterIsExclusive spec → nic'.Alone spec i
  after : nic' = nic.refreshed i

theorem Sound.alone (h : Sound nic) (hs : (nic.entry i).spec = some saved) (htuple : spec.tuple = saved.tuple)
    (hexcl : ef10FilterIsExclusive spec) : nic.Alone spec i := by
  intro j sj hj heq
  rw [isExclusive_congr htuple] at hexcl
  exact (h.unique i j saved sj hs hj (htuple.symm.trans (equal_iff.mp heq)) hexcl).symm

/-- **Add installs its spec.**  The spec has the RSS context of the NIC by then. -/
theorem add_installs (h : FairlyReachable nic) (hfair : Fair (.add spec mayReplace alloc out) nic)
    (hr : ef10FilterAdd spec mayReplace alloc out nic = .ret () nic') :
    ∃ i, (nic.HasAuto spec → Refreshed nic nic' spec i) ∧
      (¬ nic.HasAuto spec → Installed nic nic' (spec.inContext nic.rssContext) i) := by
  have hstep : step (.add spec mayReplace alloc out) nic = some nic' := by
    change (ef10FilterAdd spec mayReplace alloc out nic).state? = _
    rw [hr]
    rfl
  have hsound' : Sound nic' := h.sound.step hstep
  have hsynced' : Synced nic' := h.synced.step h.sound hfair hstep
  obtain ⟨i, nic1, hrun, hpure⟩ := bind_ret_inv hr
  cases hpure
  have hends := addInternal_ends nic spec mayReplace alloc out
  rw [hrun] at hends
  have hauto_stops : nic.HasAuto spec → ∃ j, nic.Stops (spec.inContext nic.rssContext) j := by
    rintro ⟨j, sj, hs, heq, hauto⟩
    exact ⟨j, sj, hs, equal_iff.mp heq, .inr (.inl hauto)⟩
  refine ⟨i, ?_⟩
  cases hends with
  | refresh i saved hfinds hauto =>
    have hentry : ((nic.refreshed i).entry i).spec = some saved := by
      rw [Nic.refreshed, setEntry_self]
      exact hfinds.holds
    have heq : ef10FilterEqual spec saved := equal_iff.mpr hfinds.tuple
    refine ⟨fun _ => ⟨⟨saved, hfinds.holds, heq, hauto, hsynced'.programmed i saved hentry⟩, ?_, rfl⟩,
      fun hn => absurd ⟨i, saved, hfinds.holds, heq, hauto⟩ hn⟩
    exact hsound'.alone hentry (equal_iff.mp heq)
  | replaced i saved hfinds hauto hexcl =>
    have hentry : ((nic.replaced (spec.inContext nic.rssContext) saved i out).entry i).spec =
        some (spec.inContext nic.rssContext) := by
      rw [Nic.replaced, setEntry_self, updatedBy_eq hfinds.tuple]
      rfl
    refine ⟨fun hauto' => ?_, fun _ => ⟨hentry, ?_, hsynced'.programmed i _ hentry,
      hsound'.alone hentry rfl, fun j hj => ?_⟩⟩
    · obtain ⟨j, sj, hs, heq, hauto'⟩ := hauto'
      rw [isExclusive_congr hfinds.tuple] at hexcl
      cases h.sound.unique i j saved sj hfinds.holds hs (hfinds.tuple.symm.trans (equal_iff.mp heq)) hexcl
      cases hs.symm.trans hfinds.holds
      exact absurd hauto' hauto
    · rw [Nic.replaced, setEntry_self]
      exact hfinds.idle
    · rw [Nic.replaced, setEntry_ne _ _ hj, told_entry]
  | added i hall hfree =>
    have hentry : ((nic.added (spec.inContext nic.rssContext) i out).entry i).spec =
        some (spec.inContext nic.rssContext) := by
      rw [Nic.added, setEntry_self]
      rfl
    refine ⟨fun hauto => ?_, fun _ => ⟨hentry, ?_, hsynced'.programmed i _ hentry,
      hsound'.alone hentry rfl, fun j hj => ?_⟩⟩
    · obtain ⟨j, hstops⟩ := hauto_stops hauto
      exact absurd hstops (h.sound.not_stops hall j)
    · rw [Nic.added, setEntry_self]
      rfl
    · rw [Nic.added, setEntry_ne _ _ hj, Nic.asked, told_entry]

theorem fair_fresh (rssContext : U32) (spec : FilterSpec) (mayReplace alloc : Bool) (out : FilterOpOut) :
    Fair (.add spec mayReplace alloc out) (ef10FilterInit rssContext) := by
  intro _ j saved hs
  cases hs

/-- The first filter of a fresh table is installed. -/
theorem add_installs_first : ∃ nic i, ef10FilterAdd (stationFilter EFX_FILTER_PRI_MANUAL 1) false true (granted 1)
    (ef10FilterInit 0) = .ret () nic ∧
    Installed (ef10FilterInit 0) nic ((stationFilter EFX_FILTER_PRI_MANUAL 1).inContext 0) i := by
  have htest : (ef10FilterAdd (stationFilter EFX_FILTER_PRI_MANUAL 1) false true (granted 1)
      (ef10FilterInit 0)).returnsIn (fun _ => true) := by decide +kernel
  obtain ⟨⟨⟩, nic, hr, -⟩ := Res.returnsIn_iff.mp htest
  obtain ⟨i, -, hi⟩ := add_installs (.start ⟨0, rfl⟩) (fair_fresh 0 _ _ _ _) hr
  refine ⟨nic, i, hr, hi ?_⟩
  rintro ⟨j, saved, hs, -⟩
  cases hs

/-- One entry has the spec, with at least its priority, and the firmware was told so. -/
def Nic.Holds (nic : Nic) (spec : FilterSpec) : Prop :=
  ∃ i saved, (nic.entry i).spec = some saved ∧ ef10FilterEqual spec saved ∧ nic.Alone spec i ∧
    saved.dmaqId = spec.dmaqId ∧ saved.flags = spec.flags ∧ saved.rssContext = spec.rssContext ∧
    spec.priority ≤ saved.priority ∧ nic.programmed (nic.entry i).handle = some (ruleOf spec)

/-- A filter for the multicast address 01:00:00:00:00:01. -/
def groupFilter (dmaqId : BitVec 12) : FilterSpec :=
  { stationFilter EFX_FILTER_PRI_MANUAL dmaqId with locMac := fun k => if k = 0 ∨ k = 5 then 1 else 0 }

/-- Where the first two filters for it go. -/
def groupRow (n : ℕ) : Row := rowAt (ef10FilterHash (groupFilter 0)) n

/-- A second filter for a multicast address stands beside the first. -/
theorem two_groups : ∃ nic nic', step (.add (groupFilter 1) false true (granted 1)) (ef10FilterInit 0) = some nic ∧
    ef10FilterAdd (groupFilter 2) false true (granted 2) nic = .ret () nic' ∧
    (nic'.entry (groupRow 1)).spec = some (groupFilter 1) ∧ (nic'.entry (groupRow 2)).spec = some (groupFilter 2) := by
  obtain ⟨nic, hs, htest⟩ := exists_of_any
    (r := step (.add (groupFilter 1) false true (granted 1)) (ef10FilterInit 0))
    (P := fun nic => (ef10FilterAdd (groupFilter 2) false true (granted 2) nic).returnsIn fun nic' =>
      (nic'.entry (groupRow 1)).spec = some (groupFilter 1) ∧
        (nic'.entry (groupRow 2)).spec = some (groupFilter 2)) (by decide +kernel)
  obtain ⟨⟨⟩, nic', hr, hspecs⟩ := Res.returnsIn_iff.mp htest
  exact ⟨nic, nic', hs, hr, of_decide_eq_true hspecs⟩

/-- A filter for the station address is not installed where there is an automatic one. -/
theorem auto_stays : ∃ nic nic',
    step (.add (stationFilter EFX_FILTER_PRI_AUTO 0) true true (granted 1)) (ef10FilterInit 0) = some nic ∧
    ef10FilterAdd (stationFilter EFX_FILTER_PRI_MANUAL 1) false true (granted 2) nic = .ret () nic' ∧
    (nic.entry stationRow).spec = some (stationFilter EFX_FILTER_PRI_AUTO 0) ∧
    (nic'.entry stationRow).spec = some (stationFilter EFX_FILTER_PRI_AUTO 0) := by
  obtain ⟨nic, hs, htest⟩ := exists_of_any
    (r := step (.add (stationFilter EFX_FILTER_PRI_AUTO 0) true true (granted 1)) (ef10FilterInit 0))
    (P := fun nic => (ef10FilterAdd (stationFilter EFX_FILTER_PRI_MANUAL 1) false true (granted 2) nic).returnsIn
      fun nic' => (nic.entry stationRow).spec = some (stationFilter EFX_FILTER_PRI_AUTO 0) ∧
        (nic'.entry stationRow).spec = some (stationFilter EFX_FILTER_PRI_AUTO 0)) (by decide +kernel)
  obtain ⟨⟨⟩, nic', hr, hspec⟩ := Res.returnsIn_iff.mp htest
  exact ⟨nic, nic', hs, hr, of_decide_eq_true hspec⟩

/-- A successful add may leave two entries for the frames of a multicast filter, and an automatic filter in the
place of a manual one. -/
theorem add_not_holds :
    (∃ nic nic' spec out, Reachable nic ∧ ef10FilterIsExclusive spec = false ∧
      ef10FilterAdd spec false true out nic = .ret () nic' ∧ ¬ nic'.Holds (spec.inContext nic.rssContext)) ∧
    (∃ nic nic' spec out, Reachable nic ∧ nic.HasAuto spec ∧
      ef10FilterAdd spec false true out nic = .ret () nic' ∧ ¬ nic'.Holds (spec.inContext nic.rssContext)) := by
  constructor
  · obtain ⟨nic, nic', hs, hr, h1, h2⟩ := two_groups
    refine ⟨nic, nic', groupFilter 2, granted 2, .next (reachable_fresh 0) ⟨_, hs⟩, by decide, hr, ?_⟩
    rintro ⟨i, saved, -, -, halone, -⟩
    have heq1 : ef10FilterEqual (groupFilter 2) (groupFilter 1) := by decide
    have heq2 : ef10FilterEqual (groupFilter 2) (groupFilter 2) := by decide
    have hrow := (halone _ _ h1 heq1).trans (halone _ _ h2 heq2).symm
    exact absurd hrow (by decide +kernel)
  · obtain ⟨nic, nic', hs, hr, hold, hspec⟩ := auto_stays
    refine ⟨nic, nic', stationFilter EFX_FILTER_PRI_MANUAL 1, granted 2, .next (reachable_fresh 0) ⟨_, hs⟩,
      ⟨stationRow, _, hold, by decide, rfl⟩, hr, ?_⟩
    rintro ⟨i, saved, hi, -, halone, hdmaq, -⟩
    have heq : ef10FilterEqual (stationFilter EFX_FILTER_PRI_MANUAL 1) (stationFilter EFX_FILTER_PRI_AUTO 0) := by
      decide
    cases halone _ _ hspec heq
    cases hspec.symm.trans hi
    have hne : (stationFilter EFX_FILTER_PRI_AUTO 0).dmaqId ≠ (stationFilter EFX_FILTER_PRI_MANUAL 1).dmaqId := by
      decide
    exact hne hdmaq

end Sfxge.Filter.Ef10
