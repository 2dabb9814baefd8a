import Sfxge.Lib.Run
import Sfxge.Sram.Test

/-!
# Sram.Batches — how many rows are written between two waits

The test of the batch is made behind the write: a batch ends when its first row is 64 behind the row just written, and
so it has 65 rows.
-/

namespace Sfxge.Sram

open Lib Prog

/-! ### The rows since the last wait -/

/-- The rows that have been written since the last wait. -/
def sinceWait : Trace → ℕ
  | [] => 0
  | .spin _ :: _ => 0
  | .write _ _ :: es => sinceWait es + 1
  | _ :: es => sinceWait es

/-- At no time have more than `bound` rows been written since the last wait. -/
def Throttled (bound : ℕ) (es : Trace) : Prop := ∀ t, t <:+ es → sinceWait t ≤ bound

variable {dev : Device} {func : PatternFn} {negate : Bool} {rows rptr wptr n bound : ℕ} {es es0 : Trace}
  {e : SramEvent} {P I : Trace → Prop} {E : Trace → Prop}

theorem throttled_nil (bound : ℕ) : Throttled bound [] := fun t ht => by
  rw [List.suffix_nil.mp ht]
  exact Nat.zero_le bound

theorem Throttled.cons (h : Throttled bound es) (he : sinceWait (e :: es) ≤ bound) : Throttled bound (e :: es) :=
  fun t ht => by
    rcases List.suffix_cons_iff.mp ht with rfl | ht
    · exact he
    · exact h t ht

theorem Throttled.sinceWait_le (h : Throttled bound es) : sinceWait es ≤ bound := h es List.suffix_rfl

/-- An event other than a write is always allowed. -/
theorem Throttled.other (h : Throttled bound es) (he : sinceWait (e :: es) ≤ sinceWait es) :
    Throttled bound (e :: es) :=
  h.cons (he.trans h.sinceWait_le)

/-! ### Rules -/

theorem triple_event {Q : Unit → Trace → Prop} (h : ∀ s, P s → Q () (e :: s)) : Triple P (event e) Q E :=
  fun s hs => Or.inl ⟨(), e :: s, rfl, h s hs⟩

theorem triple_event_keeps (hI : ∀ s e, I s → I (e :: s)) : Triple I (event e) (fun _ => I) I :=
  triple_event fun s hs => hI s e hs

/-- Reading back keeps what reading a row keeps, and it ends. -/
theorem triple_readRows (hI : ∀ s row q, I s → I (.read row q :: s)) :
    Triple I (readRows dev func negate rptr n) (fun _ => I) I := by
  induction n generalizing rptr with
  | zero => exact Triple.pure fun _ hs => hs
  | succ n ih =>
    intro s hs
    have hread := hI s rptr (dev s rptr) hs
    have hq : barTblReadq dev rptr s = .ret (dev s rptr) (.read rptr (dev s rptr) :: s) := rfl
    rw [readRows, bind_of_ret hq]
    by_cases hverify : dev s rptr = func rptr negate
    · rw [bind_of_ret (ensure_pos hverify)]
      exact ih _ hread
    · exact Or.inr ⟨.EFAULT, _, bind_of_err (ensure_neg hverify), hread⟩

/-- So does writing, if all that it does keeps it. -/
theorem triple_writeRows (hI : ∀ s e, I s → I (e :: s)) :
    Triple I (writeRows dev func negate rows wptr rptr n) (fun _ => I) I := by
  induction n generalizing wptr rptr with
  | zero => exact Triple.pure fun _ hs => hs
  | succ n ih =>
    rw [writeRows]
    refine (triple_event_keeps hI).bind fun _ => ?_
    split_ifs
    · exact ih
    · refine (triple_event_keeps hI).bind fun _ => ?_
      exact (triple_readRows fun s row q hs => hI s _ hs).bind fun _ => ih

/-! ### Batches -/

/-- The trace is throttled, and `n` rows have been written since the last wait. -/
def Since (bound n : ℕ) (es : Trace) : Prop := Throttled bound es ∧ sinceWait es = n

/-- **A batch has 65 rows**, or all there are if they are fewer. -/
theorem writeRows_throttled (hle : rptr ≤ wptr) (hbatch : wptr - rptr ≤ 64) (hrows : wptr + n = rows)
    (hend : n = 0 → rptr = rows) (hbound : min rows 65 ≤ bound) :
    Triple (Since bound (wptr - rptr)) (writeRows dev func negate rows wptr rptr n) (fun _ => Since bound 0)
      (Throttled bound) := by
  induction n generalizing wptr rptr with
  | zero =>
    refine Triple.pure fun s hs => ?_
    rwa [hend rfl, show wptr - rows = 0 by omega] at hs
  | succ n ih =>
    rw [writeRows]
    have hwrite : Triple (Since bound (wptr - rptr)) (event (.write wptr (func wptr negate)))
        (fun _ => Since bound (wptr + 1 - rptr)) (Throttled bound) := by
      refine triple_event fun s hs => ?_
      have hsince : sinceWait (.write wptr (func wptr negate) :: s) = wptr + 1 - rptr := by
        rw [sinceWait, hs.2]
        omega
      exact ⟨hs.1.cons (by omega), hsince⟩
    refine hwrite.bind fun _ => ?_
    split_ifs with hmore
    · exact ih (by omega) (by omega) (by omega) (by omega)
    · have hspin : Triple (Since bound (wptr + 1 - rptr)) (event (.spin 1)) (fun _ => Since bound 0) (Throttled bound) :=
        triple_event fun s hs => ⟨hs.1.other (Nat.zero_le _), rfl⟩
      have hread : Triple (Since bound 0) (readRows dev func negate rptr (wptr + 1 - rptr)) (fun _ => Since bound 0)
          (Throttled bound) :=
        (triple_readRows fun s row q hs => ⟨hs.1.other le_rfl, hs.2⟩).weaken (fun _ hs => hs) (fun _ _ hs => hs)
          fun _ hs => hs.1
      have hnext := @ih (wptr + 1) (wptr + 1) le_rfl (by omega) (by omega) (by omega)
      rw [Nat.sub_self] at hnext
      exact hspin.bind fun _ => hread.bind fun _ => hnext

/-- Somewhere 65 rows have been written since the last wait. -/
def Overfull (es : Trace) : Prop := ∃ t, t <:+ es ∧ sinceWait t = 65

theorem Overfull.cons (h : Overfull es) (e : SramEvent) : Overfull (e :: es) := by
  obtain ⟨t, ht, hsince⟩ := h
  exact ⟨t, ht.trans (List.suffix_cons e es), hsince⟩

/-- **The first batch is too long** if there are rows for it. -/
theorem writeRows_overfull (hwptr : wptr ≤ 64) (hrows : wptr + n = rows) (hmany : 65 ≤ rows) :
    Triple (fun es => sinceWait es = wptr) (writeRows dev func negate rows wptr 0 n) (fun _ => Overfull) Overfull := by
  induction n generalizing wptr with
  | zero => omega
  | succ n ih =>
    rw [writeRows]
    by_cases hlast : wptr = 64
    · have hwrite : Triple (fun es => sinceWait es = wptr) (event (.write wptr (func wptr negate)))
          (fun _ => Overfull) Overfull := by
        refine triple_event fun s hs => ⟨_, List.suffix_rfl, ?_⟩
        rw [sinceWait, hs, hlast]
      refine hwrite.bind fun _ => ?_
      split_ifs
      · exact triple_writeRows fun s e hs => hs.cons e
      · refine (triple_event_keeps fun s e hs => hs.cons e).bind fun _ => ?_
        exact (triple_readRows fun s row q hs => hs.cons _).bind fun _ => triple_writeRows fun s e hs => hs.cons e
    · have hwrite : Triple (fun es => sinceWait es = wptr) (event (.write wptr (func wptr negate)))
          (fun _ es => sinceWait es = wptr + 1) Overfull := triple_event fun s hs => by rw [sinceWait, hs]
      refine hwrite.bind fun _ => ?_
      rw [if_pos ⟨by omega, by omega⟩]
      exact ih (by omega) (by omega)

/-! ### The test -/

/-- The mode that the buffer table is in. -/
def mode : Trace → Option ℕ
  | [] => none
  | .bufTblMode m :: _ => some m
  | _ :: es => mode es

/-- What happens before the first row is written. -/
def setup (rows : ℕ) : Trace := [.txDcBaseAdr (rows + 1), .rxDcBaseAdr rows, .bufTblMode 0]

/-- The test does what it is for: if it succeeds, every row has been written and read back equal once as it is and once
negated; at no time have more than 64 rows been written since the last wait; and the buffer table is left in its full
mode. -/
structure Tests (dev : Device) (func : PatternFn) (rows : ℕ) : Prop where
  covers : ∀ u es, sienaSramTest dev func rows [] = .ret u es → ∃ straight negated,
    es = .bufTblMode 1 :: (negated ++ (straight ++ setup rows)) ∧
      Progress func false rows rows straight ∧ Progress func true rows rows negated
  throttled : ∀ es, (sienaSramTest dev func rows []).state? = some es → Throttled 64 es
  full : ∀ es, (sienaSramTest dev func rows []).state? = some es → mode es = some 1

theorem sienaSramTest_eq (dev : Device) (func : PatternFn) (rows : ℕ) :
    sienaSramTest dev func rows [] = (protect (event (.bufTblMode 1)) (do
      writeRows dev func false rows 0 0 rows
      writeRows dev func true rows 0 0 rows) >>= fun _ => event (.bufTblMode 1)) (setup rows) := rfl

/-- What holds of the rows, once they have been written both ways or a row has not been read back equal, holds of the test
before it sets the mode back. -/
theorem sienaSramTest_leaves {J F : Trace → Prop} (hstraight : Triple (fun es => es = setup rows)
    (writeRows dev func false rows 0 0 rows) (fun _ => J) F)
    (hnegated : Triple J (writeRows dev func true rows 0 0 rows) (fun _ => F) F) :
    ∃ es, (sienaSramTest dev func rows []).state? = some (.bufTblMode 1 :: es) ∧ F es := by
  have hrestore : Triple F (event (.bufTblMode 1)) (fun _ es => ∃ es', es = .bufTblMode 1 :: es' ∧ F es')
      fun _ => False := triple_event fun s hs => ⟨s, rfl, hs⟩
  have hbody := ((hstraight.bind fun _ => hnegated).protect hrestore).bind fun _ =>
    hrestore.weaken (fun _ hs => hs) (fun _ _ hs => hs) fun _ hf => hf.elim
  rw [sienaSramTest_eq]
  rcases hbody (setup rows) rfl with ⟨_, _, hret, es, rfl, hF⟩ | ⟨_, _, herr, es, rfl, hF⟩
  · exact ⟨es, by rw [hret]; rfl, hF⟩
  · exact ⟨es, by rw [herr]; rfl, hF⟩

/-- **A success** has covered the rows both ways. -/
theorem sienaSramTest_covers {u : Unit} (h : sienaSramTest dev func rows [] = .ret u es) : ∃ straight negated,
    es = .bufTblMode 1 :: (negated ++ (straight ++ setup rows)) ∧
      Progress func false rows rows straight ∧ Progress func true rows rows negated := by
  rw [sienaSramTest_eq] at h
  obtain ⟨_, s1, h1, h⟩ := bind_ret_inv h
  cases h
  have hends : ∀ n, n = 0 → 0 = n := fun n hn => hn.symm
  rw [protect] at h1
  split at h1
  next hrows =>
    cases h1
    obtain ⟨_, s2, hstraight, hnegated⟩ := bind_ret_inv hrows
    obtain ⟨straight, rfl, hs⟩ := writeRows_progress (progress_nil func false) le_rfl (Nat.zero_add rows) (hends rows)
      hstraight
    obtain ⟨negated, rfl, hn⟩ := writeRows_progress (progress_nil func true) le_rfl (Nat.zero_add rows) (hends rows)
      hnegated
    exact ⟨straight, negated, rfl, hs, hn⟩
  all_goals cases h1

/-- **At no time more than 65 rows**, or all that there are, have been written since the last wait. -/
theorem sienaSramTest_throttled (dev : Device) (func : PatternFn) {rows bound : ℕ} (hbound : min rows 65 ≤ bound) :
    ∃ es, (sienaSramTest dev func rows []).state? = some (.bufTblMode 1 :: es) ∧ Throttled bound es := by
  have hends : rows = 0 → 0 = rows := fun h => h.symm
  have hloop : ∀ negate, Triple (Since bound 0) (writeRows dev func negate rows 0 0 rows) (fun _ => Since bound 0)
      (Throttled bound) := fun negate =>
    writeRows_throttled le_rfl (Nat.zero_le _) (Nat.zero_add rows) hends hbound
  have hsetup : Since bound 0 (setup rows) :=
    ⟨((throttled_nil bound).other le_rfl).other le_rfl |>.other le_rfl, rfl⟩
  exact sienaSramTest_leaves ((hloop false).weaken (fun s hs => hs ▸ hsetup) (fun _ _ hs => hs) fun _ hs => hs)
    ((hloop true).weaken (fun _ hs => hs) (fun _ _ hs => hs.1) fun _ hs => hs)

/-- **With 65 rows or more** there is a time when 65 have been written since the last wait. -/
theorem sienaSramTest_overfull (dev : Device) (func : PatternFn) (hmany : 65 ≤ rows) :
    ∃ es, (sienaSramTest dev func rows []).state? = some (.bufTblMode 1 :: es) ∧ Overfull es :=
  sienaSramTest_leaves ((writeRows_overfull (Nat.zero_le 64) (Nat.zero_add rows) hmany).weaken
    (fun s hs => by rw [hs]; rfl) (fun _ _ hs => hs) fun _ hs => hs) (triple_writeRows fun s e hs => hs.cons e)

theorem not_throttled_of_overfull (h : Overfull es) : ¬ Throttled 64 es := fun ht => by
  obtain ⟨t, hsuffix, hsince⟩ := h
  have := ht t hsuffix
  omega

/-- **The SRAM test**, whatever the device, the pattern and the number of rows, does what it is for exactly if there are
at most 64 rows. -/
theorem tests_iff (dev : Device) (func : PatternFn) (rows : ℕ) : Tests dev func rows ↔ rows ≤ 64 := by
  constructor
  · intro h
    by_contra hmany
    obtain ⟨es, hstate, hover⟩ := sienaSramTest_overfull dev func (Nat.not_le.mp hmany)
    exact not_throttled_of_overfull (hover.cons _) (h.throttled _ hstate)
  · intro hfew
    obtain ⟨es, hstate, hthrottled⟩ := sienaSramTest_throttled dev func ((min_le_left rows 65).trans hfew)
    refine ⟨fun u es h => sienaSramTest_covers h, fun es' h => ?_, fun es' h => ?_⟩
    · cases hstate.symm.trans h
      exact hthrottled.other le_rfl
    · cases hstate.symm.trans h
      rfl

/-- The first batch of the test of the whole SRAM has 65 rows. -/
theorem batch_of_65 : ¬ ∀ dev func rows, Tests dev func rows := by
  intro h
  have hmany : 65 ≤ SIENA_SRAM_ROWS - 1 := by decide
  obtain ⟨es, hstate, hover⟩ := sienaSramTest_overfull (fun _ _ => .ones) efxSramAllTheSameSet hmany
  exact not_throttled_of_overfull (hover.cons _) ((h _ _ _).throttled _ hstate)

/-- On Siena it is so for every pattern. -/
theorem efxSramTest_overfull (dev : Device) (type : PatternType) :
    ∃ es, (efxSramTest dev true type []).state? = some es ∧ Overfull es := by
  have hmany : 65 ≤ SIENA_SRAM_ROWS - 1 := by decide
  obtain ⟨es, hstate, hover⟩ := sienaSramTest_overfull dev (efxSramPatternFns type) hmany
  exact ⟨_, hstate, hover.cons _⟩

end Sfxge.Sram
