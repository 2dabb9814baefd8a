import Sfxge.Filter.Table

/-!
# Filter.Sets — when the Siena filter tables behave as sets

`siena_filter_search` takes the first free row for an insertion, also when an equal filter lies
behind it, where an entry deleted since then was in its way.  `sets_iff` says that this is the only
way in which the tables differ from sets of filters.
-/

namespace Sfxge.Filter

open Lib Lib.Prog Errno SienaFilterType SienaFilterTblId

/-! ### Equal filters -/

/-- What `siena_filter_equal` compares. -/
def SameFilter (left right : SienaFilterSpec) : Prop :=
  left.type = right.type ∧ left.dword0 = right.dword0 ∧ left.dword1 = right.dword1 ∧
    left.dword2 = right.dword2 ∧
    (sienaFilterTblId left.type = TX_IP ∨ sienaFilterTblId left.type = TX_MAC →
      left.dmaqId = right.dmaqId)

theorem equal_iff (left right : SienaFilterSpec) :
    sienaFilterEqual left right = true ↔ SameFilter left right := by
  unfold sienaFilterEqual SameFilter
  dsimp only
  split_ifs with h1 h2 h3
  · simp [h1]
  · refine ⟨fun h => (by cases h), ?_⟩
    rintro ⟨-, h3, h4, h5, -⟩
    rcases h2 with h | h | h
    · exact absurd h3 h
    · exact absurd h4 h
    · exact absurd h5 h
  · refine ⟨fun h => (by cases h), ?_⟩
    rintro ⟨-, -, -, -, h⟩
    exact absurd (h h3.1) h3.2
  · refine ⟨fun _ => ?_, fun _ => rfl⟩
    simp only [ne_eq, not_or, Classical.not_not, not_and] at h1 h2 h3
    exact ⟨h1, h2.1, h2.2.1, h2.2.2, h3⟩

namespace SameFilter

variable {a b c : SienaFilterSpec}

theorem symm (h : SameFilter a b) : SameFilter b a := by
  obtain ⟨h1, h2, h3, h4, h5⟩ := h
  exact ⟨h1.symm, h2.symm, h3.symm, h4.symm, fun ht => (h5 (h1 ▸ ht)).symm⟩

theorem trans (h : SameFilter a b) (h' : SameFilter b c) : SameFilter a c := by
  obtain ⟨h1, h2, h3, h4, h5⟩ := h
  obtain ⟨k1, k2, k3, k4, k5⟩ := h'
  exact ⟨h1.trans k1, h2.trans k2, h3.trans k3, h4.trans k4,
    fun ht => (h5 ht).trans (k5 (h1 ▸ ht))⟩

/-- Equal filters are filed under the same key. -/
theorem key_eq (h : SameFilter a b) : filterKey a = filterKey b := by
  obtain ⟨h1, h2, h3, h4, h5⟩ := h
  unfold filterKey sienaFilterBuild
  rw [← h1, ← h2, ← h3, ← h4]
  cases ht : sienaFilterTblId a.type with
  | RX_IP => dsimp only
  | RX_MAC => dsimp only
  | TX_IP =>
    dsimp only
    rw [← h5 (Or.inl ht)]
  | TX_MAC =>
    dsimp only
    rw [← h5 (Or.inr ht)]

end SameFilter

/-! ### The set of installed filters -/

/-- An equal filter is installed. -/
def Installed (sfp : SienaFilter) (spec : SienaFilterSpec) : Prop :=
  ∃ i, sienaFilterTestUsed (sfp.tbl (sienaFilterTblId spec.type)) i = true ∧
    SameFilter spec ((sfp.tbl (sienaFilterTblId spec.type)).spec i)

/-- No two used entries of a table are equal. -/
def NoDup (sfp : SienaFilter) : Prop :=
  ∀ t i j, sienaFilterTestUsed (sfp.tbl t) i = true → sienaFilterTestUsed (sfp.tbl t) j = true →
    SameFilter ((sfp.tbl t).spec i) ((sfp.tbl t).spec j) → i = j

/-- An equal filter, if installed, comes before the first free row of its probe sequence. -/
def NotBehindGap (sfp : SienaFilter) (spec : SienaFilterSpec) : Prop :=
  Installed sfp spec → ∃ k, k < FILTER_CTL_SRCH_MAX ∧
    sienaFilterTestUsed (sfp.tbl (sienaFilterTblId spec.type))
      (probePos (tblRows (sienaFilterTblId spec.type)) (filterKey spec) k) = true ∧
    SameFilter spec ((sfp.tbl (sienaFilterTblId spec.type)).spec
      (probePos (tblRows (sienaFilterTblId spec.type)) (filterKey spec) k)) ∧
    ∀ n, n < k → sienaFilterTestUsed (sfp.tbl (sienaFilterTblId spec.type))
      (probePos (tblRows (sienaFilterTblId spec.type)) (filterKey spec) n) = true

/-- A call: an insertion, which may not replace, or a deletion. -/
inductive SetOp
  | add (spec : EfxFilterSpec)
  | delete (spec : EfxFilterSpec)

def SetOp.run : SetOp → Prog Nic Errno Unit
  | add spec => sienaFilterAdd spec false
  | delete spec => sienaFilterDelete spec

/-- The state after a call. -/
def callStep (op : SetOp) (nic : Nic) : Option Nic := (op.run nic).state?

/-- What a call reports is right for a set: an insertion returns `EEXIST` exactly when an equal
filter is installed, and none is left after a successful deletion. -/
def ReportsSet : SetOp → Nic → Nic → Prop
  | .add spec, nic, _ => ∀ sfSpec, sienaFilterSpecFromGenSpec spec = .ok sfSpec →
      ((∃ s, sienaFilterAdd spec false nic = .err EEXIST s) ↔ Installed nic.filter sfSpec)
  | .delete spec, nic, nic' => ∀ sfSpec, sienaFilterSpecFromGenSpec spec = .ok sfSpec →
      sienaFilterDelete spec nic = .ret () nic' → ¬ Installed nic'.filter sfSpec

/-- The condition on a call: an insertion does not find its filter behind a gap. -/
def GapFree : SetOp → Nic → Prop
  | .add spec, nic => ∀ sfSpec, sienaFilterSpecFromGenSpec spec = .ok sfSpec →
      NotBehindGap nic.filter sfSpec
  | .delete _, _ => True

/-! ### One call -/

variable {nic nic' : Nic} {spec : EfxFilterSpec} {sfSpec : SienaFilterSpec}

theorem stops_insert_iff {sftp : SienaFilterTbl} {i : ℕ} : Stops sftp sfSpec true i ↔
    (sienaFilterTestUsed sftp i = true → SameFilter sfSpec (sftp.spec i)) := by
  rw [Stops, ← equal_iff]
  cases sienaFilterTestUsed sftp i <;> simp

/-- An installed filter is at one of the positions a search looks at. -/
theorem installed_probe (h : Chained nic.filter) (hi : Installed nic.filter sfSpec) :
    ∃ k, k < FILTER_CTL_SRCH_MAX ∧
      sienaFilterTestUsed (nic.filter.tbl (sienaFilterTblId sfSpec.type))
        (probePos (nic.filter.tbl (sienaFilterTblId sfSpec.type)).size (filterKey sfSpec) k) = true ∧
      SameFilter sfSpec ((nic.filter.tbl (sienaFilterTblId sfSpec.type)).spec
        (probePos (nic.filter.tbl (sienaFilterTblId sfSpec.type)).size (filterKey sfSpec) k)) := by
  obtain ⟨i, hu, hs⟩ := hi
  obtain ⟨k, h1, h2⟩ := h.chain _ i hu
  rw [← hs.key_eq] at h2
  subst h2
  exact ⟨k, lt_of_lt_of_le h1 (h.depth_le _), hu, hs⟩

/-- **Insertion step.** -/
theorem add_step (hc : Chained nic.filter) (hN : NoDup nic.filter)
    (hspec : sienaFilterSpecFromGenSpec spec = .ok sfSpec)
    (hrun : (sienaFilterAdd spec false nic).state? = some nic') :
    (((∃ s, sienaFilterAdd spec false nic = .err EEXIST s) ↔ Installed nic.filter sfSpec) ∧
      NoDup nic'.filter) ↔ NotBehindGap nic.filter sfSpec := by
  have hsize := hc.placed.size (sienaFilterTblId sfSpec.type)
  rcases add_cases hc.placed hspec with ⟨e, hsearch, hr⟩ | ⟨i, d, hsearch, hu, hr⟩ | ⟨i, d, hsearch, hu, hr⟩
  · -- every probe position is taken by another filter
    obtain ⟨he, hno⟩ := search_error hsearch
    rw [hr] at hrun
    cases hrun
    have hnot : ¬ Installed nic.filter sfSpec := by
      intro hi
      obtain ⟨k, hk, -, hs⟩ := installed_probe hc hi
      exact hno k hk (stops_insert_iff.mpr fun _ => hs)
    constructor
    · intro _ hi
      exact absurd hi hnot
    · intro _
      refine ⟨⟨?_, fun hi => absurd hi hnot⟩, hN⟩
      rintro ⟨s, hs⟩
      rw [hr, he] at hs
      cases hs
  · -- the search ends at an equal filter
    obtain ⟨k, hk, rfl, -, hstop, hbefore⟩ := search_ok hsearch
    have hsame := stops_insert_iff.mp hstop hu
    rw [hr] at hrun
    cases hrun
    rw [hsize] at hu hsame hbefore
    constructor
    · intro _ _
      refine ⟨k, hk, hu, hsame, fun n hn => ?_⟩
      have h := hbefore n hn
      rw [stops_insert_iff, Classical.not_imp] at h
      exact h.1
    · intro _
      exact ⟨⟨fun _ => ⟨_, hu, hsame⟩, fun _ => ⟨nic, hr⟩⟩, hN⟩
  · -- the search ends at a free row
    obtain ⟨k, hk, rfl, -, hstop, hbefore⟩ := search_ok hsearch
    rw [hr] at hrun
    cases hrun
    have hret : ¬ ∃ s, sienaFilterAdd spec false nic = .err EEXIST s := by
      rintro ⟨s, hs⟩
      rw [hr] at hs
      cases hs
    constructor
    · rintro ⟨hiff, -⟩ hi
      exact absurd (hiff.mpr hi) hret
    · intro hgap
      have hnot : ¬ Installed nic.filter sfSpec := by
        intro hi
        obtain ⟨n, -, hn1, hn2, hn3⟩ := hgap hi
        rw [← hsize] at hn1 hn2 hn3
        rcases Nat.lt_trichotomy k n with hlt | rfl | hlt
        · rw [hn3 k hlt] at hu
          cases hu
        · rw [hn1] at hu
          cases hu
        · exact hbefore n hlt (stops_insert_iff.mpr fun _ => hn2)
      refine ⟨⟨fun h => absurd h hret, fun h => absurd h hnot⟩, ?_⟩
      generalize probePos (nic.filter.tbl (sienaFilterTblId sfSpec.type)).size (filterKey sfSpec) k = i
        at hu
      intro t a b ha hb hab
      rw [saved_tbl, saveSpec] at ha hb hab
      by_cases ht : t = sienaFilterTblId sfSpec.type
      swap
      · rw [setTbl_ne _ _ ht] at ha hb hab
        exact hN t a b ha hb hab
      subst ht
      rw [setTbl_self, testUsed_setSpec, testUsed_setUsed] at ha hb
      rw [setTbl_self, spec_setSpec, spec_setUsed] at hab
      by_cases hai : a = i
      · by_cases hbi : b = i
        · rw [hai, hbi]
        · rw [hai, Function.update_self, Function.update_of_ne hbi] at hab
          exact absurd ⟨b, by simpa [hbi] using hb, hab⟩ hnot
      · by_cases hbi : b = i
        · rw [hbi, Function.update_self, Function.update_of_ne hai] at hab
          exact absurd ⟨a, by simpa [hai] using ha, hab.symm⟩ hnot
        · rw [Function.update_of_ne hai, Function.update_of_ne hbi] at hab
          exact hN _ a b (by simpa [hai] using ha) (by simpa [hbi] using hb) hab

theorem noDup_of_tbl {sfp sfp' : SienaFilter} (h : NoDup sfp) (ht : sfp'.tbl = sfp.tbl) :
    NoDup sfp' := by
  unfold NoDup
  rw [ht]
  exact h

theorem emptied_tbl (nic : Nic) (t : SienaFilterTblId) :
    (emptied nic t).filter.tbl = nic.filter.tbl := by
  unfold emptied
  split_ifs <;> rfl

/-- **Deletion step.** -/
theorem delete_step (hN : NoDup nic.filter) (hspec : sienaFilterSpecFromGenSpec spec = .ok sfSpec)
    (hrun : (sienaFilterDelete spec nic).state? = some nic') :
    (sienaFilterDelete spec nic = .ret () nic' → ¬ Installed nic'.filter sfSpec) ∧
      NoDup nic'.filter := by
  rcases delete_cases nic hspec with ⟨e, -, hr⟩ | ⟨i, d, -, hu, heq, hr⟩
  · rw [hr] at hrun
    cases hrun
    refine ⟨fun h => ?_, hN⟩
    rw [hr] at h
    cases h
  · rw [hr] at hrun
    cases hrun
    have hsame := (equal_iff _ _).mp heq
    -- the entries left are the others
    have hold : ∀ t j, sienaFilterTestUsed
        ((dropSpec nic.filter (sienaFilterTblId sfSpec.type) i).tbl t) j = true →
        sienaFilterTestUsed (nic.filter.tbl t) j = true ∧
          ((dropSpec nic.filter (sienaFilterTblId sfSpec.type) i).tbl t).spec j =
            (nic.filter.tbl t).spec j ∧ (t = sienaFilterTblId sfSpec.type → j ≠ i) := by
      intro t j hj
      by_cases ht : t = sienaFilterTblId sfSpec.type
      · subst ht
        rw [dropSpec, setTbl_self, testUsed_setSpec, testUsed_clearUsed] at hj
        rw [dropSpec, setTbl_self]
        by_cases hji : j = i
        · simp [hji] at hj
        · exact ⟨by simpa [hji] using hj, by simp [hji], fun _ => hji⟩
      · rw [dropSpec, setTbl_ne _ _ ht] at hj ⊢
        exact ⟨hj, rfl, fun h => absurd h ht⟩
    refine ⟨fun _ hi => ?_, noDup_of_tbl ?_ (emptied_tbl _ _)⟩
    · obtain ⟨j, hj, hjs⟩ := hi
      rw [emptied_tbl] at hj hjs
      obtain ⟨h1, h2, h3⟩ := hold _ j hj
      rw [h2] at hjs
      exact h3 rfl (hN _ j i h1 hu (hjs.symm.trans hsame))
    · intro t a b ha hb hab
      obtain ⟨h1, h2, -⟩ := hold t a ha
      obtain ⟨k1, k2, -⟩ := hold t b hb
      rw [h2, k2] at hab
      exact hN t a b h1 k1 hab

/-! ### Runs -/

theorem chained_call (op : SetOp) (s s' : Nic) (h : Chained s.filter) (hs : callStep op s = some s') :
    Chained s'.filter := by
  cases op with
  | add spec => exact (chained_add h spec s' hs).1
  | delete spec => exact (chained_delete h spec s' hs).1

/-- **Step.**  A call on tables without duplicates reports what a set would, and leaves no
duplicates, exactly when it is not an insertion of a filter that lies behind a gap. -/
theorem call_step (op : SetOp) (s s' : Nic) (hc : Chained s.filter) (hN : NoDup s.filter)
    (hs : callStep op s = some s') :
    (ReportsSet op s s' ∧ NoDup s'.filter) ↔ GapFree op s := by
  cases op with
  | add spec =>
    cases hspec : sienaFilterSpecFromGenSpec spec with
    | error rc =>
      have hr : sienaFilterAdd spec false s = .err rc s := by
        unfold sienaFilterAdd
        rw [hspec]
        rfl
      change (sienaFilterAdd spec false s).state? = some s' at hs
      rw [hr] at hs
      cases hs
      simp only [ReportsSet, GapFree, hspec]
      exact ⟨fun _ _ h => (by cases h), fun _ => ⟨fun _ h => (by cases h), hN⟩⟩
    | ok sfSpec =>
      have h := add_step hc hN hspec hs
      simp only [ReportsSet, GapFree, hspec, Except.ok.injEq, forall_eq']
      exact h
  | delete spec =>
    refine ⟨fun _ => trivial, fun _ => ?_⟩
    cases hspec : sienaFilterSpecFromGenSpec spec with
    | error rc =>
      have hr : sienaFilterDelete spec s = .err rc s := by
        unfold sienaFilterDelete
        rw [hspec]
        rfl
      change (sienaFilterDelete spec s).state? = some s' at hs
      rw [hr] at hs
      cases hs
      refine ⟨fun sfSpec h => ?_, hN⟩
      rw [hspec] at h
      cases h
    | ok sfSpec =>
      obtain ⟨h1, h2⟩ := delete_step hN hspec hs
      refine ⟨fun sfSpec' h => ?_, h2⟩
      rw [hspec] at h
      cases h
      exact h1

theorem noDup_init : NoDup sienaFilterInit := by
  intro t i j hi
  rw [testUsed_init] at hi
  cases hi

/-- **Sets.**  From fresh tables, a run of insertions and deletions keeps the tables without
duplicates and reports what sets would exactly when no insertion of the run is of a filter that is
installed behind a free row of its probe sequence. -/
theorem sets_iff {nic : Nic} (h : Fresh nic) (ops : List SetOp) :
    MeetsAlong callStep (fun s => NoDup s.filter) ReportsSet ops nic ↔
      StepsAlong callStep GapFree ops nic := by
  have h0 : Chained nic.filter ∧ NoDup nic.filter := by
    rw [h]
    exact ⟨chained_init, noDup_init⟩
  exact meetsAlong_iff (I := fun s : Nic => Chained s.filter) (fun op s s' => chained_call op s s')
    (fun op s s' hI hP hs => call_step op s s' hI hP hs) ops h0.1 h0.2

theorem notBehindGap_fresh (sfSpec : SienaFilterSpec) : NotBehindGap freshNic.filter sfSpec := by
  rintro ⟨i, hu, -⟩
  change sienaFilterTestUsed (sienaFilterInit.tbl _) i = true at hu
  rw [testUsed_init] at hu
  cases hu

/-- An insertion and a deletion. -/
theorem sets_add_delete : MeetsAlong callStep (fun s => NoDup s.filter) ReportsSet
    [.add (tcpLocal 0 80), .delete (tcpLocal 0 80)] freshNic :=
  (sets_iff fresh_freshNic _).mpr fun _ _ =>
    ⟨fun _ _ => notBehindGap_fresh _, fun _ _ => ⟨trivial, trivial⟩⟩

/-- Fresh tables after a run. -/
def tablesAfter (ops : List SetOp) : Nic :=
  ops.foldl (fun nic op => (callStep op nic).getD nic) freshNic

/-- The second of two filters with the same key. -/
def collider : EfxFilterSpec := tcpLocal 0x10000 81

/-- Two filters with the same key; the one added first is deleted, and the other added again. -/
theorem sets_behind_gap : ¬ ∀ ops nic, Fresh nic →
    MeetsAlong callStep (fun s => NoDup s.filter) ReportsSet ops nic := by
  intro h
  have hrun := h [.add (tcpLocal 0 80), .add collider, .delete (tcpLocal 0 80), .add collider]
    freshNic fresh_freshNic
  have e1 : callStep (.add (tcpLocal 0 80)) freshNic =
      some (tablesAfter [.add (tcpLocal 0 80)]) := rfl
  have e2 : callStep (.add collider) (tablesAfter [.add (tcpLocal 0 80)]) =
      some (tablesAfter [.add (tcpLocal 0 80), .add collider]) := rfl
  have e3 : callStep (.delete (tcpLocal 0 80)) (tablesAfter [.add (tcpLocal 0 80), .add collider]) =
      some (tablesAfter [.add (tcpLocal 0 80), .add collider, .delete (tcpLocal 0 80)]) := rfl
  obtain ⟨-, h1⟩ := (hrun.2 _ e1).2
  obtain ⟨-, h2⟩ := (h1 _ e2).2
  obtain ⟨hreport, -⟩ := (((h2 _ e3).2).2 _ rfl)
  generalize hs3 : tablesAfter [.add (tcpLocal 0 80), .add collider, .delete (tcpLocal 0 80)] = s3
    at hreport
  have hspec : sienaFilterSpecFromGenSpec collider = .ok ⟨RX_TCP_WILD, 8, 1, 0, 0x510000, 0x10000⟩ :=
    rfl
  have hinst : Installed s3.filter ⟨RX_TCP_WILD, 8, 1, 0, 0x510000, 0x10000⟩ := by
    rw [← hs3]
    exact ⟨5875, rfl, rfl, rfl, rfl, rfl, fun _ => rfl⟩
  obtain ⟨s, hs⟩ := (hreport _ hspec).mpr hinst
  rw [← hs3] at hs
  cases hs

end Sfxge.Filter
