import Mathlib.Data.List.Range
import Mathlib.Data.List.Perm.Basic
import Sfxge.Intr.Init

/-!
# Intr.Undo — what a failed initialisation leaves

The lock is run over what was recorded, and the handles freed are compared with those granted.  `freeDown` is described
once; what `sfxge_intr_init` leaves behind is then read off at each point at which it can fail.
-/

namespace Sfxge.Intr

/-! ### The record -/

/-- Runs the lock over the record: whether it is held at the end, if it was never entered twice nor exited while it was
not held. -/
def lockRun : Bool → List IntrEvent → Option Bool
  | held, [] => some held
  | held, .lockEnter :: es => if held then none else lockRun true es
  | held, .lockExit :: es => if held then lockRun false es else none
  | held, .intrFree _ :: es => lockRun held es

theorem lockRun_append (as bs : List IntrEvent) (held : Bool) :
    lockRun held (as ++ bs) = (lockRun held as).bind fun h => lockRun h bs := by
  induction as generalizing held with
  | nil => rfl
  | cons e as ih =>
    cases e with
    | lockEnter => cases held <;> simp [lockRun, ih]
    | lockExit => cases held <;> simp [lockRun, ih]
    | intrFree => simp [lockRun, ih]

/-- The handle that an event frees. -/
def IntrEvent.freed? : IntrEvent → Option (Option ℕ)
  | .intrFree h => some h
  | _ => none

/-- The handles that were freed. -/
def freed (es : List IntrEvent) : List (Option ℕ) := es.filterMap IntrEvent.freed?

theorem freed_append (as bs : List IntrEvent) : freed (as ++ bs) = freed as ++ freed bs := List.filterMap_append

theorem lockRun_map_intrFree (hs : List (Option ℕ)) (held : Bool) :
    lockRun held (hs.map .intrFree) = some held := by
  induction hs with
  | nil => rfl
  | cons h hs ih => exact ih

theorem freed_map_intrFree (hs : List (Option ℕ)) : freed (hs.map .intrFree) = hs := by
  induction hs with
  | nil => rfl
  | cons h hs ih =>
    have hcons : freed (.intrFree h :: hs.map .intrFree) = h :: freed (hs.map .intrFree) := rfl
    rw [List.map_cons, hcons, ih]

/-! ### Freeing vectors -/

variable {ddi : Ddi} {s r : SfxgeIntr} {low n i : ℕ}

/-- The handles of the vectors `low .. n`, in the order in which they are freed. -/
def SfxgeIntr.handles (s : SfxgeIntr) (low n : ℕ) : List (Option ℕ) :=
  (List.range' low (n - low)).reverse.map s.handle

/-- The vectors `low .. n` have been freed, and nothing else has changed. -/
structure FreedDown (low n : ℕ) (s r : SfxgeIntr) : Prop where
  frame : r = { s with events := r.events, siTable := r.siTable }
  events : r.events = s.events ++ (s.handles low n).map .intrFree
  handle : ∀ i < low, r.handle i = s.handle i

theorem handle_freeVector (h : i ≠ n) : (s.freeVector n).handle i = s.handle i := by
  unfold SfxgeIntr.handle SfxgeIntr.freeVector
  cases s.siTable with
  | none => rfl
  | some t =>
    simp only [Option.map_some, Option.getD_some, List.getD_eq_getElem?_getD]
    rw [List.getElem?_set_ne h.symm]

theorem freeDown_spec (low n : ℕ) (s : SfxgeIntr) : FreedDown low n s (SfxgeIntr.freeDown low n s) := by
  induction n generalizing s with
  | zero => exact ⟨rfl, by simp [SfxgeIntr.handles, SfxgeIntr.freeDown], fun _ _ => rfl⟩
  | succ n ih =>
    rw [SfxgeIntr.freeDown]
    split_ifs with hlow
    · obtain ⟨hframe, hevents, hhandle⟩ := ih (s.freeVector n)
      have hhandles : s.handles low (n + 1) = s.handle n :: (s.freeVector n).handles low n := by
        have hrange : List.range' low (n + 1 - low) = List.range' low (n - low) ++ [n] := by
          rw [show n + 1 - low = n - low + 1 by omega, List.range'_concat]
          simp only [one_mul, List.append_cancel_left_eq, List.cons.injEq, and_true]
          omega
        rw [SfxgeIntr.handles, hrange, List.reverse_append, List.reverse_singleton, List.singleton_append, List.map_cons,
          SfxgeIntr.handles]
        congr 1
        refine List.map_congr_left fun i hi => (handle_freeVector ?_).symm
        have := List.mem_range'_1.mp (List.mem_reverse.mp hi)
        omega
      refine ⟨hframe.trans rfl, ?_, fun i hi => (hhandle i hi).trans (handle_freeVector (by omega))⟩
      have hlog : (s.freeVector n).events = s.events ++ [.intrFree (s.handle n)] := rfl
      rw [hevents, hlog, hhandles, List.append_assoc]
      rfl
    · have hnil : s.handles low (n + 1) = [] := by
        rw [SfxgeIntr.handles, show n + 1 - low = 0 by omega]
        rfl
      exact ⟨rfl, by rw [hnil, List.map_nil, List.append_nil], fun _ _ => rfl⟩

/-! ### The error paths -/

/-- **The path of the late failures** exits the lock before it frees the vectors, and once more behind them. -/
theorem fail4_events (s : SfxgeIntr) :
    s.fail4.events = s.events ++ (.lockExit :: (s.handles 0 s.siNalloc).map .intrFree ++ [.lockExit]) := by
  have hspec := freeDown_spec 0 s.siNalloc (s.log .lockExit)
  have hhandles : (s.log .lockExit).handles 0 s.siNalloc = s.handles 0 s.siNalloc := rfl
  have hevents : s.fail4.events = (SfxgeIntr.freeDown 0 s.siNalloc (s.log .lockExit)).events ++ [.lockExit] := rfl
  have hlog : (s.log .lockExit).events = s.events ++ [.lockExit] := rfl
  rw [hevents, hspec.events, hhandles, hlog]
  simp only [List.append_assoc, List.cons_append, List.nil_append]

theorem lockRun_fail4 (h : lockRun false s.events = some false) : lockRun false s.fail4.events = none := by
  rw [fail4_events, lockRun_append, h]
  rfl

theorem freed_fail4 (s : SfxgeIntr) : freed s.fail4.events = freed s.events ++ s.handles 0 s.siNalloc := by
  have hexit : ∀ es, freed (.lockExit :: es) = freed es := fun _ => rfl
  rw [fail4_events, freed_append, List.cons_append, hexit, freed_append, freed_map_intrFree]
  exact congrArg _ (List.append_nil _)

theorem priLoop_frame (ddi : Ddi) (index n : ℕ) (s : SfxgeIntr) :
    ∃ pri, (priLoop ddi index n s).1 = { s with siIntrPri := pri } := by
  induction n generalizing index s with
  | zero => exact ⟨s.siIntrPri, rfl⟩
  | succ n ih =>
    rw [priLoop]
    split
    · exact ⟨s.siIntrPri, rfl⟩
    · split_ifs
      · obtain ⟨pri, hpri⟩ := ih (index + 1) { s with siIntrPri := _ }
        exact ⟨pri, hpri⟩
      · exact ih (index + 1) s

/-- The interrupts with another DMA buffer and another priority. -/
def SfxgeIntr.withDma (s : SfxgeIntr) (mem : DmaBuffer) (pri : ℕ) : SfxgeIntr :=
  { s with siMem := mem, siIntrPri := pri }

/-- A failure from the DMA buffer on goes through `fail4`. -/
theorem intrInitDma_failed (h : (intrInitDma ddi s).2 ≠ none) :
    ∃ mem pri, (intrInitDma ddi s).1 = (s.withDma mem pri).fail4 := by
  rcases hmem : sfxgeDmaBufferCreate ddi s.siMem with ⟨mem, _ | _⟩
  · exact ⟨mem, s.siIntrPri, by simp only [intrInitDma, hmem, SfxgeIntr.withDma]⟩
  · obtain ⟨pri, hpri⟩ := priLoop_frame ddi 0 s.siNalloc { s with siMem := mem, siIntrPri := 0 }
    rcases hloop : priLoop ddi 0 s.siNalloc { s with siMem := mem, siIntrPri := 0 } with ⟨s', _ | rc⟩
    · exact absurd (by simp only [intrInitDma, hmem, hloop]) h
    · rw [hloop] at hpri
      exact ⟨mem, pri, by simp only [intrInitDma, hmem, hloop, SfxgeIntr.withDma, ← hpri]⟩

/-! ### A clean failure -/

/-- The number of vectors that `ddi_intr_alloc` is asked for, if it is called. -/
def Ddi.asked (ddi : Ddi) : Option ℕ :=
  match ddi.types, ddi.navail with
  | .ok msix, .ok navail => if navail = 0 then none else some (vectorsWanted ddi msix navail)
  | _, _ => none

/-- The vectors that it grants. -/
def Ddi.granted (ddi : Ddi) : ℕ :=
  match ddi.asked.map ddi.alloc with
  | some (.ok granted) => granted
  | _ => 0

/-- The count that it leaves if it fails. -/
def Ddi.leftCount (ddi : Ddi) : ℕ :=
  match ddi.asked.map ddi.alloc with
  | some (.error (_, nalloc)) => nalloc
  | _ => 0

/-- Nothing is left behind: the lock was entered and exited in turn and is not held, every handle granted was freed once
and no other, the DMA buffer is gone, and the table, the count and the type are as before. -/
structure LeftClean (ddi : Ddi) (s : SfxgeIntr) : Prop where
  lock : lockRun false s.events = some false
  freed : (freed s.events).Perm ((List.range ddi.granted).map some)
  mem : s.siMem = .none
  table : s.siTable = none
  tableSize : s.siTableSize = 0
  nalloc : s.siNalloc = 0
  type : s.siType = .invalid

theorem leftClean_initial (h : ddi.granted = 0) : LeftClean ddi .initial :=
  ⟨rfl, by rw [h]; exact .refl _, rfl, rfl, rfl, rfl, rfl⟩

/-- What is left when `ddi_intr_alloc` has been called and no vector was granted. -/
theorem leftClean_fail3 {t : IntrType} {table : Option (List (Option ℕ))} {size count : ℕ} (h : ddi.granted = 0) :
    LeftClean ddi (SfxgeIntr.fail3 ⟨.uninitialized, t, table, size, count, 0, .none, [.lockEnter, .lockExit]⟩) ↔
      count = 0 :=
  ⟨fun hc => hc.nalloc, fun hc => ⟨rfl, by rw [h]; exact .refl _, rfl, rfl, rfl, hc, rfl⟩⟩

/-- The interrupts when `g` of the `n` vectors asked for have been granted, and the lock is held to free some. -/
def holding (n g : ℕ) (s : SfxgeIntr) : SfxgeIntr :=
  { s with
    siTableSize := n * 8
    siTable := some ((List.range g).map some ++ List.replicate (n - g) none)
    siNalloc := g
    events := s.events ++ [.lockEnter, .lockExit, .lockEnter] }

/-- The interrupts when the vectors that are not wanted have been freed. -/
def rounded (n g : ℕ) (s : SfxgeIntr) : SfxgeIntr :=
  { (SfxgeIntr.freeDown (pow2Le g) g (holding n g s)).log .lockExit with siNalloc := pow2Le g }

theorem intrInitAlloc_granted {g : ℕ} (ha : ddi.alloc n = .ok g) (hg : g ≠ 0) :
    intrInitAlloc ddi n s = intrInitDma ddi (rounded n g s) := by
  have hlog : s.events ++ [IntrEvent.lockEnter, .lockExit, .lockEnter] =
      ((s.events ++ [.lockEnter]) ++ [.lockExit]) ++ [.lockEnter] := by simp
  unfold intrInitAlloc rounded holding
  rw [ha, hlog]
  exact if_neg hg

theorem handle_holding {g : ℕ} (hi : i < g) : (holding n g s).handle i = some i := by
  have hlen : ((List.range g).map some).length = g := by simp
  simp only [SfxgeIntr.handle, holding, Option.getD_some, List.getD_eq_getElem?_getD]
  rw [List.getElem?_append_left (by rw [hlen]; exact hi), List.getElem?_map, List.getElem?_range hi]
  rfl

/-- The vectors `low .. n`, from the last down. -/
def vectorsDown (low n : ℕ) : List (Option ℕ) := (List.range' low (n - low)).reverse.map some

theorem handles_eq_vectorsDown (h : ∀ i < n, s.handle i = some i) : s.handles low n = vectorsDown low n := by
  refine List.map_congr_left fun i hi => h i ?_
  have := List.mem_range'_1.mp (List.mem_reverse.mp hi)
  omega

theorem rounded_events (n g : ℕ) (s : SfxgeIntr) :
    (rounded n g s).events = s.events ++
      ([.lockEnter, .lockExit, .lockEnter] ++ (vectorsDown (pow2Le g) g).map .intrFree ++ [.lockExit]) := by
  have hspec := freeDown_spec (pow2Le g) g (holding n g s)
  have hevents : (rounded n g s).events =
      (SfxgeIntr.freeDown (pow2Le g) g (holding n g s)).events ++ [.lockExit] := rfl
  have hhold : (holding n g s).events = s.events ++ [.lockEnter, .lockExit, .lockEnter] := rfl
  rw [hevents, hspec.events, handles_eq_vectorsDown fun i hi => handle_holding hi, hhold]
  simp only [List.append_assoc]

theorem lockRun_rounded (h : lockRun false s.events = some false) (n g : ℕ) :
    lockRun false (rounded n g s).events = some false := by
  have hfree : lockRun true ((vectorsDown (pow2Le g) g).map .intrFree ++ [.lockExit]) = some false := by
    rw [lockRun_append, lockRun_map_intrFree]
    rfl
  rw [rounded_events, lockRun_append, h]
  exact hfree

/-- A late failure exits the lock while it is not held. -/
theorem lockRun_late {g : ℕ} (hs : lockRun false s.events = some false)
    (h : (intrInitDma ddi (rounded n g s)).2 ≠ none) :
    lockRun false (intrInitDma ddi (rounded n g s)).1.events = none := by
  obtain ⟨mem, pri, heq⟩ := intrInitDma_failed h
  rw [heq]
  exact lockRun_fail4 (lockRun_rounded hs n g)

/-- **Only an early failure is clean**: one that comes before any vector is granted. -/
theorem leftClean_iff (ddi : Ddi) (h : (sfxgeIntrInit ddi .initial).2 ≠ none) :
    LeftClean ddi (sfxgeIntrInit ddi .initial).1 ↔ ddi.granted = 0 ∧ ddi.leftCount = 0 := by
  unfold sfxgeIntrInit at h ⊢
  rcases ht : ddi.types with err | msix <;> rw [ht] at h <;> dsimp only at h ⊢
  · have hg : ddi.granted = 0 := by simp only [Ddi.granted, Ddi.asked, ht, Option.map_none]
    exact iff_of_true (leftClean_initial hg) ⟨hg, by simp only [Ddi.leftCount, Ddi.asked, ht, Option.map_none]⟩
  rcases hn : ddi.navail with err | navail <;> rw [hn] at h <;> dsimp only at h ⊢
  · have hg : ddi.granted = 0 := by simp only [Ddi.granted, Ddi.asked, ht, hn, Option.map_none]
    exact iff_of_true (leftClean_initial hg) ⟨hg, by simp only [Ddi.leftCount, Ddi.asked, ht, hn, Option.map_none]⟩
  by_cases h0 : navail = 0
  · rw [if_pos h0]
    have hasked : ddi.asked = none := by simp only [Ddi.asked, ht, hn, if_pos h0]
    have hg : ddi.granted = 0 := by rw [Ddi.granted, hasked]; rfl
    exact iff_of_true (leftClean_initial hg) ⟨hg, by rw [Ddi.leftCount, hasked]; rfl⟩
  rw [if_neg h0] at h ⊢
  have hasked : ddi.asked = some (vectorsWanted ddi msix navail) := by simp only [Ddi.asked, ht, hn, if_neg h0]
  rcases ha : ddi.alloc (vectorsWanted ddi msix navail) with ⟨err, left⟩ | g
  · have hg : ddi.granted = 0 := by rw [Ddi.granted, hasked, Option.map_some, ha]
    have hleft : ddi.leftCount = left := by rw [Ddi.leftCount, hasked, Option.map_some, ha]
    unfold intrInitAlloc
    rw [ha, hleft, and_iff_right hg]
    exact leftClean_fail3 hg
  · have hg : ddi.granted = g := by rw [Ddi.granted, hasked, Option.map_some, ha]
    have hleft : ddi.leftCount = 0 := by rw [Ddi.leftCount, hasked, Option.map_some, ha]
    rw [hleft, and_iff_left rfl]
    by_cases hg0 : g = 0
    · unfold intrInitAlloc
      subst hg0
      rw [ha, iff_true_right hg]
      exact (leftClean_fail3 hg).mpr rfl
    · rw [intrInitAlloc_granted ha hg0] at h ⊢
      refine iff_of_false (fun hc => ?_) (hg ▸ hg0)
      have hlock := hc.lock
      rw [lockRun_late rfl h] at hlock
      cases hlock

/-- A bus that offers 8 vectors and grants none, and one that grants all but has no DMA handle. -/
def grantsNone : Ddi where
  types := .ok true
  navail := .ok 8
  rxScaleCount := none
  ncpus := 4
  alloc _ := .ok 0
  alloc_le _ _ h := by
    cases h
    exact Nat.zero_le _
  dmaHandle := none
  dmaMem := true
  dmaBind := none
  pri _ := .ok 5

theorem allGranted_le (n g : ℕ) (h : (.ok n : Except (DdiErr × ℕ) ℕ) = .ok g) : g ≤ n := by
  cases h
  exact le_rfl

def noDmaHandle : Ddi :=
  { grantsNone with
    alloc := fun n => .ok n
    alloc_le := allGranted_le
    dmaHandle := some .noresources }

theorem leftClean_grantsNone : LeftClean grantsNone (sfxgeIntrInit grantsNone .initial).1 :=
  (leftClean_iff grantsNone (by decide)).mpr ⟨rfl, rfl⟩

/-- Without a DMA handle the lock is exited twice that was entered for neither. -/
theorem lock_exited_unheld :
    ¬ ∀ ddi, (sfxgeIntrInit ddi .initial).2 ≠ none → LeftClean ddi (sfxgeIntrInit ddi .initial).1 := by
  intro h
  have hne : (sfxgeIntrInit noDmaHandle .initial).2 ≠ none := by
    have hdma : (sfxgeIntrInit noDmaHandle .initial).2 = some .dma := rfl
    rw [hdma]
    exact Option.some_ne_none _
  have hlock := (h noDmaHandle hne).lock
  have hlate : lockRun false (sfxgeIntrInit noDmaHandle .initial).1.events = none := by
    have halloc : sfxgeIntrInit noDmaHandle .initial =
        intrInitAlloc noDmaHandle 8 { SfxgeIntr.initial with siType := .message } := rfl
    rw [halloc, intrInitAlloc_granted rfl (by decide)] at hne ⊢
    exact lockRun_late rfl hne
  rw [hlate] at hlock
  cases hlock

/-! ### The handles -/

theorem handle_rounded {g : ℕ} (hi : i < pow2Le g) (hg : g ≠ 0) : (rounded n g s).handle i = some i :=
  ((freeDown_spec (pow2Le g) g (holding n g s)).handle i hi).trans
    (handle_holding (lt_of_lt_of_le hi (pow2Le_le hg)))

/-- The vectors down to a power of two and those below it are all of them. -/
theorem vectorsDown_perm {low n : ℕ} (h : low ≤ n) :
    (vectorsDown low n ++ vectorsDown 0 low).Perm ((List.range n).map some) := by
  have hrange : List.range n = List.range' 0 low ++ List.range' low (n - low) := by
    conv_lhs => rw [← Nat.add_sub_cancel' h]
    rw [List.range_eq_range', ← List.range'_append_1, Nat.zero_add]
  rw [hrange, List.map_append]
  exact List.perm_append_comm.trans (((List.reverse_perm _).map some).append ((List.reverse_perm _).map some))

theorem freed_rounded (n g : ℕ) (s : SfxgeIntr) :
    freed (rounded n g s).events = freed s.events ++ vectorsDown (pow2Le g) g := by
  have hlocks : freed [.lockEnter, .lockExit, .lockEnter] = [] := rfl
  have hexit : freed [.lockExit] = [] := rfl
  rw [rounded_events, freed_append, freed_append, freed_append, freed_map_intrFree, hlocks, hexit, List.append_nil,
    List.nil_append]

/-- A late failure has freed every handle once, for all that it leaves behind. -/
theorem freed_late {g : ℕ} (hg : g ≠ 0) (hs : freed s.events = []) (h : (intrInitDma ddi (rounded n g s)).2 ≠ none) :
    (freed (intrInitDma ddi (rounded n g s)).1.events).Perm ((List.range g).map some) := by
  obtain ⟨mem, pri, heq⟩ := intrInitDma_failed h
  have hhandles : (rounded n g s).handles 0 (pow2Le g) = vectorsDown 0 (pow2Le g) :=
    handles_eq_vectorsDown fun i hi => handle_rounded hi hg
  have hevents : ((rounded n g s).withDma mem pri).events = (rounded n g s).events := rfl
  have hall : ((rounded n g s).withDma mem pri).handles 0 ((rounded n g s).withDma mem pri).siNalloc =
      (rounded n g s).handles 0 (pow2Le g) := rfl
  rw [heq, freed_fail4, hevents, freed_rounded, hs, List.nil_append, hall, hhandles]
  exact vectorsDown_perm (pow2Le_le hg)

end Sfxge.Intr
