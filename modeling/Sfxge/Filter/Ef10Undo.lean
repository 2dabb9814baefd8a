import Sfxge.Filter.Ef10Runs

/-!
# Filter.Ef10Undo — what a failed `ef10_filter_add_internal` leaves behind

In a reachable table every filter is where a search for it looks, and an exclusive one is there once (`Sound`).
A failed add has changed the table exactly when it was to replace a filter, which it drops, or when the free entry
it took had an `AUTO_OLD` mark, which it loses (`addInternal_undone_iff`).
-/

namespace Sfxge.Filter.Ef10

open Lib Lib.Prog Errno

variable {nic nic' : Nic} {spec saved : FilterSpec} {i j : Row} {out : FilterOpOut} {mayReplace alloc : Bool}

/-! ### Sound tables -/

/-- What every call keeps. -/
structure Sound (nic : Nic) : Prop where
  inWindow : ∀ i spec, (nic.entry i).spec = some spec → i ∈ searchRows spec
  unique : ∀ i j si sj, (nic.entry i).spec = some si → (nic.entry j).spec = some sj → si.tuple = sj.tuple →
    ef10FilterIsExclusive si → i = j
  free : ∀ i, (nic.entry i).spec = none → (nic.entry i).busy = false

theorem sound_fresh (h : Fresh nic) : Sound nic := by
  obtain ⟨c, rfl⟩ := h
  exact ⟨fun i spec h => (by cases h), fun i j si sj h => (by cases h), fun i _ => rfl⟩

theorem Sound.congr (h : Sound nic) (he : nic'.entry = nic.entry) : Sound nic' := by
  obtain ⟨h1, h2, h3⟩ := h
  rw [← he] at h1 h2 h3
  exact ⟨h1, h2, h3⟩

/-- **Frame rule** for a change of one entry. -/
theorem Sound.setEntry {e : FilterEntry} (h : Sound nic) (hfree : e.spec = none → e.busy = false)
    (hspec : ∀ sp, e.spec = some sp → i ∈ searchRows sp ∧
      ∀ j sj, j ≠ i → (nic.entry j).spec = some sj → sp.tuple = sj.tuple → ¬ ef10FilterIsExclusive sp) :
    Sound (nic.setEntry i e) := by
  refine ⟨fun j sp hj => ?_, fun j k sj sk hj hk htuple hexcl => ?_, fun j hj => ?_⟩
  · by_cases hji : j = i
    · subst hji
      rw [setEntry_self] at hj
      exact (hspec sp hj).1
    · rw [setEntry_ne _ _ hji] at hj
      exact h.inWindow j sp hj
  · by_cases hji : j = i <;> by_cases hki : k = i
    · rw [hji, hki]
    · rw [hji, setEntry_self] at hj
      rw [setEntry_ne _ _ hki] at hk
      exact absurd hexcl ((hspec sj hj).2 k sk hki hk htuple)
    · rw [hki, setEntry_self] at hk
      rw [setEntry_ne _ _ hji] at hj
      rw [isExclusive_congr htuple] at hexcl
      exact absurd hexcl ((hspec sk hk).2 j sj hji hj htuple.symm)
    · rw [setEntry_ne _ _ hji] at hj
      rw [setEntry_ne _ _ hki] at hk
      exact h.unique j k sj sk hj hk htuple hexcl
  · by_cases hji : j = i
    · subst hji
      rw [setEntry_self] at hj ⊢
      exact hfree hj
    · rw [setEntry_ne _ _ hji] at hj ⊢
      exact h.free j hj

/-- An entry that keeps its match tuple. -/
theorem Sound.setEntry_same {e : FilterEntry} (h : Sound nic) (hs : (nic.entry i).spec = some saved)
    (he : e.spec = some spec) (htuple : spec.tuple = saved.tuple) : Sound (nic.setEntry i e) := by
  refine h.setEntry (fun hnone => by rw [he] at hnone; cases hnone) fun sp hsp => ?_
  cases he.symm.trans hsp
  refine ⟨by rw [searchRows_congr htuple]; exact h.inWindow i saved hs, fun j sj hji hj htj hexcl => ?_⟩
  rw [isExclusive_congr htuple] at hexcl
  exact hji (h.unique i j saved sj hs hj (htuple.symm.trans htj) hexcl).symm

/-- An entry that keeps its spec. -/
theorem Sound.mark {e : FilterEntry} (h : Sound nic) (he : e.spec = (nic.entry i).spec)
    (hfree : e.spec = none → e.busy = false) : Sound (nic.setEntry i e) := by
  cases hs : (nic.entry i).spec with
  | none => exact h.setEntry hfree fun sp hsp => by rw [he, hs] at hsp; cases hsp
  | some saved => exact h.setEntry_same hs (he.trans hs) rfl

theorem Sound.dropped (h : Sound nic) (i : Row) : Sound (nic.dropped i) :=
  h.setEntry (fun _ => rfl) fun _ hsp => by cases hsp

/-- No filter of the table stops a search that has met none. -/
theorem Sound.not_stops (h : Sound nic) (hall : ∀ j ∈ searchRows spec, ¬ nic.Stops spec j) (j : Row) :
    ¬ nic.Stops spec j := by
  rintro ⟨saved, hs, htuple, hstop⟩
  refine hall j ?_ ⟨saved, hs, htuple, hstop⟩
  rw [searchRows_congr htuple]
  exact h.inWindow j saved hs

theorem mem_of_firstFree (h : nic.firstFree spec = some i) : i ∈ searchRows spec ∧ (nic.entry i).spec = none :=
  ⟨List.mem_of_find?_eq_some h, by simpa using List.find?_some h⟩

theorem Sound.add {r : Res Nic Errno Row} (h : Sound nic) (hr : AddEnds nic spec mayReplace alloc out r)
    (hs : r.state? = some nic') : Sound nic' := by
  cases hr with
  | spins => cases hs
  | full | exist | noMemory => cases hs; exact h
  | refresh i saved hfinds hauto =>
    cases hs
    exact h.mark rfl (h.free i)
  | replaced i saved hfinds =>
    cases hs
    have hs : ((nic.told spec .REPLACE (nic.entry i).handle out).entry i).spec = some saved := by
      rw [told_entry]
      exact hfinds.holds
    exact (h.congr (told_entry ..)).setEntry_same hs rfl rfl
  | notReplaced | notAdded =>
    cases hs
    exact (h.congr (told_entry ..)).dropped _
  | added i hall hfree =>
    cases hs
    refine (h.congr (told_entry ..)).setEntry (fun hnone => by cases hnone) fun sp hsp => ?_
    cases hsp
    refine ⟨(mem_of_firstFree hfree).1, fun j sj _ hj htuple hexcl => ?_⟩
    rw [told_entry] at hj
    exact h.not_stops hall j ⟨sj, hj, htuple, .inr (.inr hexcl)⟩

theorem Sound.restoreRow {answers : Row → FilterOpOut} (h : Sound nic) :
    (restoreRow answers i).Does nic Sound := by
  intro nic' hs
  cases hspec : (nic.entry i).spec with
  | none =>
    rw [restoreRow_skips (.inl hspec)] at hs
    cases hs
    exact h
  | some spec =>
    have hasked : Sound (nic.asked spec i (answers i)) := h.congr (told_entry ..)
    have hentry : (nic.asked spec i (answers i)).entry = nic.entry := told_entry ..
    cases hb : (nic.entry i).busy with
    | true =>
      rw [restoreRow_skips (.inr hb)] at hs
      cases hs
      exact h
    | false =>
      by_cases hout : (answers i).Accepted
      · rw [restoreRow_accepted hspec hb hout] at hs
        cases hs
        exact hasked.setEntry_same (by rw [hentry]; exact hspec) hspec rfl
      · obtain ⟨rc, hrun⟩ := restoreRow_rejected hspec hb hout
        rw [hrun] at hs
        cases hs
        exact hasked.setEntry_same (by rw [hentry]; exact hspec) hspec rfl

theorem Sound.step {o : Op} (h : Sound nic) (hs : step o nic = some nic') : Sound nic' := by
  cases o with
  | add spec mayReplace alloc out =>
    obtain ⟨r, hr, hstate⟩ := add_ends hs
    exact h.add hr hstate
  | delete spec out =>
    rcases delete_state hs with rfl | ⟨i, rfl⟩
    · exact h
    · exact h.dropped i
  | deleteInternal filterId out =>
    rcases deleteInternal_state hs with rfl | ⟨i, rfl⟩
    · exact h
    · exact h.dropped i
  | restore answers => exact does_forEach Sound h (fun _ _ _ hI => hI.restoreRow) nic' hs
  | setAutoOld i =>
    cases hs
    exact h.mark rfl (h.free i)
  | setRssContext c =>
    cases hs
    exact h.congr rfl

theorem Reachable.sound (h : Reachable nic) : Sound nic :=
  Reach.inv Sound (fun _ => sound_fresh) (fun _ _ hI ⟨_, hs⟩ => hI.step hs) h

/-! ### A failed add -/

/-- The add is to replace a filter of the table. -/
def Nic.Overwrites (nic : Nic) (spec : FilterSpec) (mayReplace : Bool) : Prop :=
  mayReplace ∧ ef10FilterIsExclusive spec ∧
    ∃ i saved, (nic.entry i).spec = some saved ∧ ef10FilterEqual spec saved ∧ saved.priority ≠ EFX_FILTER_PRI_AUTO

/-- The add is to take a free entry with an `AUTO_OLD` mark. -/
def Nic.TakesMarked (nic : Nic) (spec : FilterSpec) (alloc : Bool) : Prop :=
  alloc ∧ (∀ i, ¬ nic.Stops spec i) ∧ ∃ i, nic.firstFree spec = some i ∧ (nic.entry i).autoOld

theorem Sound.not_overwrites (h : Sound nic) (hall : ∀ j ∈ searchRows spec, ¬ nic.Stops spec j) :
    ¬ nic.Overwrites spec mayReplace := by
  rintro ⟨-, hexcl, i, saved, hs, heq, -⟩
  exact h.not_stops hall i ⟨saved, hs, equal_iff.mp heq, .inr (.inr hexcl)⟩

theorem dropped_free (h : Sound nic) (hs : (nic.entry i).spec = none) :
    (nic.dropped i).entry = nic.entry ↔ (nic.entry i).autoOld = false := by
  constructor
  · intro heq
    rw [← heq, Nic.dropped, setEntry_self]
    rfl
  · intro hold
    have hentry : (nic.entry i).withSpec none = nic.entry i := by
      have hbusy := h.free i hs
      obtain ⟨e, he⟩ : ∃ e, nic.entry i = e := ⟨_, rfl⟩
      rw [he] at hs hold hbusy ⊢
      obtain ⟨sp, b, o, hd⟩ := e
      cases hs
      cases hold
      cases hbusy
      rfl
    change Function.update nic.entry i _ = _
    rw [hentry, Function.update_eq_self]

/-- **Add is undone**: when it fails, the table is as before, unless the add was to replace a filter or took a
free entry with a mark. -/
theorem addInternal_undone_iff (h : Reachable nic) {rc : Errno}
    (hr : ef10FilterAddInternal spec mayReplace alloc out nic = .err rc nic') :
    nic'.entry = nic.entry ↔ ¬ nic.Overwrites spec mayReplace ∧ ¬ nic.TakesMarked spec alloc := by
  have hsound := h.sound
  have hends := addInternal_ends nic spec mayReplace alloc out
  rw [hr] at hends
  cases hends with
  | full hall hnone =>
    refine iff_of_true rfl ⟨hsound.not_overwrites hall, fun ⟨_, _, i, hi, _⟩ => ?_⟩
    cases hi.symm.trans hnone
  | exist i saved hs htuple hexcl hmay =>
    refine iff_of_true rfl ⟨fun ⟨hm, _⟩ => ?_, fun ⟨_, hall, _⟩ => hall i ⟨saved, hs, htuple, .inr (.inr hexcl)⟩⟩
    rw [hmay] at hm
    cases hm
  | noMemory hall halloc =>
    refine iff_of_true rfl ⟨hsound.not_overwrites hall, fun ⟨ha, _⟩ => ?_⟩
    rw [halloc] at ha
    cases ha
  | notReplaced i saved _ hfinds hauto hexcl hmay =>
    refine iff_of_false (fun heq => ?_)
      fun hn => hn.1 ⟨hmay, hexcl, i, saved, hfinds.holds, equal_iff.mpr hfinds.tuple, hauto⟩
    have hnone := congrArg (fun e => (e i).spec) heq
    rw [Nic.dropped, setEntry_self, hfinds.holds] at hnone
    cases hnone
  | notAdded i _ hall hfree halloc =>
    have hi := (mem_of_firstFree hfree).2
    have hasked : (nic.asked (spec.inContext nic.rssContext) i out).entry = nic.entry := told_entry ..
    have hdrop := dropped_free (i := i) (hsound.congr hasked) (by rw [hasked]; exact hi)
    rw [hasked] at hdrop
    rw [hdrop]
    constructor
    · intro hold
      refine ⟨hsound.not_overwrites hall, fun ⟨_, _, j, hj, hmark⟩ => ?_⟩
      cases hj.symm.trans hfree
      rw [hold] at hmark
      cases hmark
    · rintro ⟨-, hn⟩
      by_contra hmark
      exact hn ⟨halloc, hsound.not_stops hall, i, hfree, by simpa using hmark⟩

/-- Nothing to replace, and nothing marked: a refused add is undone. -/
theorem addInternal_undone_fresh : ∃ nic rc, ef10FilterAddInternal (stationFilter EFX_FILTER_PRI_MANUAL 1) true true
    refused (ef10FilterInit 0) = .err rc nic ∧ nic.entry = (ef10FilterInit 0).entry := by
  have htest : (ef10FilterAddInternal (stationFilter EFX_FILTER_PRI_MANUAL 1) true true refused
      (ef10FilterInit 0)).failsIn (fun _ => true) := by decide +kernel
  obtain ⟨rc, nic, hr, -⟩ := Res.failsIn_iff.mp htest
  refine ⟨nic, rc, hr, (addInternal_undone_iff (reachable_fresh 0) hr).mpr ⟨?_, ?_⟩⟩
  · rintro ⟨-, -, i, saved, hs, -⟩
    cases hs
  · rintro ⟨-, -, i, -, hmark⟩
    cases hmark

/-- A replacement that the firmware refuses drops the filter it was to replace. -/
theorem add_not_undone : ¬ ∀ nic nic' spec mayReplace alloc out rc, Reachable nic →
    ef10FilterAddInternal spec mayReplace alloc out nic = .err rc nic' → nic'.entry = nic.entry := by
  intro h
  obtain ⟨nic, hs, htest⟩ := exists_of_any
    (r := step (.add (stationFilter EFX_FILTER_PRI_MANUAL 1) false true (granted 1)) (ef10FilterInit 0))
    (P := fun nic => (ef10FilterAddInternal (stationFilter EFX_FILTER_PRI_MANUAL 2) true true refused nic).failsIn
      fun nic' => (nic'.entry stationRow).spec ≠ (nic.entry stationRow).spec) (by decide +kernel)
  obtain ⟨rc, nic', hr, hne⟩ := Res.failsIn_iff.mp htest
  refine of_decide_eq_true hne ?_
  rw [h _ _ _ _ _ _ _ (.next (reachable_fresh 0) ⟨_, hs⟩) hr]

end Sfxge.Filter.Ef10
