import Sfxge.Mac.Stats

/-!
# Mac.Snapshot — whether the statistics taken are those of one generation

`statsOf` are the statistics of one record.  While the record does not change the reads store them
(`statReads_run`), and it does not change where the numbers at its two ends are one (`Watched.word_eq`).  The update
compares words that it has read in halves: equal words are equal numbers unless the number goes on by `2 ^ 32`.
-/

namespace Sfxge.Mac

open Lib.SeqLock

/-- The statistics that reads store. -/
def stored (reads : List MacStatRead) : List EfxMacStat := reads.flatMap fun r => r.store.targets

/-- The statistics after a record with the words `w` has been read. -/
def readAll (reads : List MacStatRead) (w : ℕ → BitVec 64) (stat : EfxMacStat → BitVec 64) :
    EfxMacStat → BitVec 64 :=
  reads.foldl (fun stat r => r.store.apply (w r.field) stat) stat

/-- The statistics of a record. -/
def statsOf (reads : List MacStatRead) (w : ℕ → BitVec 64) : EfxMacStat → BitVec 64 := readAll reads w fun _ => 0

/-- What an update that began with `stat` has left is generation `g`: all statistics it stores are those of the
record `data g`, and `g` is the generation it reports. -/
structure SingleGeneration (reads : List MacStatRead) (data : ℕ → ℕ → BitVec 64) (stat : EfxMacStat → BitVec 64)
    (r : Updated) (g : ℕ) : Prop where
  stored : ∀ s ∈ stored reads, r.stat s = statsOf reads (data g) s
  kept : ∀ s, s ∉ Mac.stored reads → r.stat s = stat s
  reported : ∀ rep, r.generation = some rep → rep = BitVec.ofNat 32 g

/-! ### Stores -/

theorem StatStore.apply_of_notMem {st : StatStore} {s : EfxMacStat} (h : s ∉ st.targets) (q : BitVec 64)
    (stat : EfxMacStat → BitVec 64) : st.apply q stat s = stat s := by
  cases st <;> simp_all [StatStore.apply, StatStore.targets]

/-- What a store leaves depends on the statistics it takes further, and elsewhere is what was there. -/
theorem StatStore.apply_congr {st : StatStore} {stat stat' : EfxMacStat → BitVec 64}
    (h : ∀ s ∈ st.sources, stat s = stat' s) (q : BitVec 64) {s : EfxMacStat}
    (hs : s ∈ st.targets ∨ stat s = stat' s) : st.apply q stat s = st.apply q stat' s := by
  by_cases hm : s ∈ st.targets
  · cases st with
    | setQword t | incrQword t | subrQword t =>
      simp_all [StatStore.apply, StatStore.targets, StatStore.sources]
    | setDwords t0 t1 =>
      simp only [StatStore.targets, List.mem_cons, List.not_mem_nil, or_false] at hm
      by_cases h1 : s = t1
      · simp [StatStore.apply, h1]
      · simp [StatStore.apply, hm.resolve_right h1, Function.update_apply]
  · rw [apply_of_notMem hm, apply_of_notMem hm]
    exact hs.resolve_left hm

/-- Every statistic that is taken further has been set before; those in `seen` have been. -/
def SetFirst (seen : List EfxMacStat) : List MacStatRead → Bool
  | [] => true
  | r :: reads => r.store.sources.all (· ∈ seen) && SetFirst (r.store.targets ++ seen) reads

theorem readAll_of_notMem {reads : List MacStatRead} {s : EfxMacStat} (h : s ∉ stored reads) (w : ℕ → BitVec 64)
    (stat : EfxMacStat → BitVec 64) : readAll reads w stat s = stat s := by
  induction reads generalizing stat with
  | nil => rfl
  | cons r reads ih =>
    simp only [stored, List.flatMap_cons, List.mem_append, not_or] at h
    exact (ih h.2 _).trans (StatStore.apply_of_notMem h.1 _ stat)

/-- What the reads store does not depend on what was there. -/
theorem readAll_congr {reads : List MacStatRead} {seen : List EfxMacStat} (h : SetFirst seen reads)
    (w : ℕ → BitVec 64) {stat stat' : EfxMacStat → BitVec 64} (hseen : ∀ s ∈ seen, stat s = stat' s)
    {s : EfxMacStat} (hs : s ∈ seen ∨ s ∈ stored reads) : readAll reads w stat s = readAll reads w stat' s := by
  induction reads generalizing seen stat stat' with
  | nil => exact hseen s (hs.resolve_right (by simp [stored]))
  | cons r reads ih =>
    simp only [SetFirst, Bool.and_eq_true, List.all_eq_true, decide_eq_true_eq] at h
    have hsrc : ∀ t ∈ r.store.sources, stat t = stat' t := fun t ht => hseen t (h.1 t ht)
    refine ih h.2 (fun t ht => StatStore.apply_congr hsrc _ ?_) ?_
    · exact (List.mem_append.mp ht).imp_right (hseen t)
    · simp only [stored, List.flatMap_cons, List.mem_append] at hs ⊢
      tauto

theorem setFirst_reads (c : Family) : SetFirst [] c.reads := by cases c <;> decide

/-- EF10 reports the frames of exactly 64 bytes where Siena reports those of at most 64. -/
theorem statsOf_txLe64Pkts (w : ℕ → BitVec 64) :
    statsOf ef10Reads w .txLe64Pkts = w McMac.tx64Pkts ∧
      statsOf sienaReads w .txLe64Pkts = w McMac.txLt64Pkts + w McMac.tx64Pkts :=
  ⟨rfl, rfl⟩

/-! ### Reads -/

/-- A word from two looks. -/
def joined (lo hi : BitVec 64) : BitVec 64 := eqDword 1 hi ++ eqDword 0 lo

theorem eqDword_toNat (i : ℕ) (q : BitVec 64) : (eqDword i q).toNat = q.toNat / 2 ^ (32 * i) % 2 ^ 32 := by
  simp [eqDword, Nat.shiftRight_eq_div_pow]

theorem joined_toNat (lo hi : BitVec 64) :
    (joined lo hi).toNat = hi.toNat / 2 ^ 32 * 2 ^ 32 + lo.toNat % 2 ^ 32 := by
  have h0 := eqDword_toNat 0 lo
  have h1 := eqDword_toNat 1 hi
  have hlt : (eqDword 0 lo).toNat < 2 ^ 32 := (eqDword 0 lo).isLt
  have h := BitVec.toNat_append (eqDword 1 hi) (eqDword 0 lo)
  rw [← Nat.shiftLeft_add_eq_or_of_lt hlt, Nat.shiftLeft_eq] at h
  refine h.trans ?_
  have := hi.isLt
  omega

theorem joined_self (q : BitVec 64) : joined q q = q := by
  apply BitVec.eq_of_toNat_eq
  rw [joined_toNat]
  omega

/-- Two words that agree although each was read in halves come from one number, unless the number has gone from
one multiple of `2 ^ 32` past another and on by `2 ^ 32` at least. -/
theorem eq_of_joined_eq {e e' g g' : ℕ} (h1 : e ≤ e') (h2 : e' ≤ g) (h3 : g ≤ g') (h4 : g' < 2 ^ 64)
    (hlap : e / 2 ^ 32 = e' / 2 ^ 32 ∨ g < e + 2 ^ 32)
    (h : joined (.ofNat 64 g) (.ofNat 64 g') = joined (.ofNat 64 e) (.ofNat 64 e')) : g = e := by
  have hn := congrArg BitVec.toNat h
  rw [joined_toNat, joined_toNat] at hn
  simp only [BitVec.toNat_ofNat, Nat.mod_eq_of_lt h4, Nat.mod_eq_of_lt (h3.trans_lt h4),
    Nat.mod_eq_of_lt ((h2.trans h3).trans_lt h4), Nat.mod_eq_of_lt ((h1.trans (h2.trans h3)).trans_lt h4)] at hn
  omega

variable {obs : ℕ → ℕ → BitVec 64} {n : ℕ}

theorem memReadq_run (field : ℕ) :
    memReadq field obs n = (joined (obs n field) (obs (n + 1) field), n + 2) := rfl

theorem statRead_run (stat : EfxMacStat → BitVec 64) (r : MacStatRead) :
    statRead stat r obs n = (r.store.apply (joined (obs n r.field) (obs (n + 1) r.field)) stat, n + 2) := rfl

theorem statReads_cons (r : MacStatRead) (reads : List MacStatRead) (stat : EfxMacStat → BitVec 64) :
    (r :: reads).foldlM statRead stat obs n =
      reads.foldlM statRead (r.store.apply (joined (obs n r.field) (obs (n + 1) r.field)) stat) obs (n + 2) := by
  rw [List.foldlM_cons]
  rfl

theorem statReads_look (reads : List MacStatRead) (stat : EfxMacStat → BitVec 64) :
    (reads.foldlM statRead stat obs n).2 = n + 2 * reads.length := by
  induction reads generalizing n stat with
  | nil => rfl
  | cons r reads ih =>
    rw [statReads_cons, ih, List.length_cons]
    omega

theorem statReads_of_notMem {reads : List MacStatRead} {s : EfxMacStat} (h : s ∉ stored reads)
    (stat : EfxMacStat → BitVec 64) : (reads.foldlM statRead stat obs n).1 s = stat s := by
  induction reads generalizing n stat with
  | nil => rfl
  | cons r reads ih =>
    simp only [stored, List.flatMap_cons, List.mem_append, not_or] at h
    rw [statReads_cons]
    exact (ih h.2 _).trans (StatStore.apply_of_notMem h.1 _ stat)

/-- **Read rule.**  While the words the reads look at are those of `w`, the reads store the statistics of `w`. -/
theorem statReads_run {reads : List MacStatRead} {w : ℕ → BitVec 64} (stat : EfxMacStat → BitVec 64)
    (h : ∀ m, n ≤ m → m < n + 2 * reads.length → ∀ r ∈ reads, obs m r.field = w r.field) :
    (reads.foldlM statRead stat obs n).1 = readAll reads w stat := by
  induction reads generalizing n stat with
  | nil => rfl
  | cons r reads ih =>
    have h0 := h n le_rfl (by simp) r List.mem_cons_self
    have h1 := h (n + 1) (by omega) (by simp; omega) r List.mem_cons_self
    rw [statReads_cons, h0, h1, joined_self]
    exact ih _ fun m hm hm' r' hr' =>
      h m (by omega) (by simp only [List.length_cons]; omega) r' (List.mem_cons_of_mem r hr')

theorem field_mem (c : Family) : ∀ r ∈ c.reads, r.field ∈ statsLayout.body := by
  have hbetween : ∀ r ∈ c.reads, McMac.generationStart < r.field ∧ r.field < McMac.generationEnd := by
    cases c <;> decide
  exact fun r hr => Finset.mem_Ioo.mpr (hbetween r hr)

/-! ### The update -/

theorem macStatsUpdate_eq (c : Family) : c.macStatsUpdate = macStatsUpdate c.reads := by cases c <;> rfl

/-- The update, whatever its looks see. -/
theorem macStatsUpdate_run (c : Family) (obs : ℕ → ℕ → BitVec 64) (stat : EfxMacStat → BitVec 64)
    (generation : Option (BitVec 32)) : (c.macStatsUpdate stat generation obs 0).1 =
      let n := 2 + 2 * c.reads.length
      let generationStart := joined (obs n McMac.generationStart) (obs (n + 1) McMac.generationStart)
      let stats := (c.reads.foldlM statRead stat obs 2).1
      if generationStart ≠ joined (obs 0 McMac.generationEnd) (obs 1 McMac.generationEnd) then
        ⟨some .EAGAIN, stats, generation⟩
      else ⟨none, stats, generation.map fun _ => eqDword 0 generationStart⟩ := by
  have hlook : (c.reads.foldlM statRead stat obs 2).2 = 2 + 2 * c.reads.length := statReads_look c.reads stat
  rw [macStatsUpdate_eq, macStatsUpdate, Reading.bind_run, memReadq_run, Reading.bind_run, hlook,
    Reading.bind_run, memReadq_run]
  dsimp only
  split_ifs
  · rfl
  · rfl

section

variable {data : ℕ → ℕ → BitVec 64} (w : Watched statsLayout data) (c : Family)

/-- The look at which the update begins to read `GENERATION_START`. -/
def Family.startLook : ℕ := 2 + 2 * c.reads.length

/-- The number behind the record, as the update reads it. -/
def endRead : BitVec 64 := joined (w.obs 0 McMac.generationEnd) (w.obs 1 McMac.generationEnd)

/-- The number in front of the record, as the update reads it. -/
def startRead : BitVec 64 :=
  joined (w.obs c.startLook McMac.generationStart) (w.obs (c.startLook + 1) McMac.generationStart)

/-- The statistics that the update leaves, whatever it returns. -/
def statsRead (stat : EfxMacStat → BitVec 64) : EfxMacStat → BitVec 64 :=
  (c.reads.foldlM statRead stat w.obs 2).1

theorem run_macStatsUpdate (stat : EfxMacStat → BitVec 64) (generation : Option (BitVec 32)) :
    w.run (c.macStatsUpdate stat generation) =
      if startRead w c ≠ endRead w then ⟨some .EAGAIN, statsRead w c stat, generation⟩
      else ⟨none, statsRead w c stat, generation.map fun _ => eqDword 0 (startRead w c)⟩ :=
  macStatsUpdate_run c w.obs stat generation

variable {w c} {stat : EfxMacStat → BitVec 64} {generation : Option (BitVec 32)}

/-- The number behind the record at the first look is the one in front of it when the update has read the
statistics, or the update fails. -/
theorem begun_eq_ended (hrc : (w.run (c.macStatsUpdate stat generation)).rc = none)
    (hlap : (w.state 0).ended / 2 ^ 32 = (w.state 1).ended / 2 ^ 32 ∨
      (w.state c.startLook).begun < (w.state 0).ended + 2 ^ 32) :
    startRead w c = endRead w ∧ (w.state c.startLook).begun = (w.state 0).ended := by
  rw [run_macStatsUpdate] at hrc
  split_ifs at hrc with h
  rw [not_not] at h
  have hj := h
  simp only [startRead, endRead, show McMac.generationStart = statsLayout.start from rfl,
    show McMac.generationEnd = statsLayout.finish from rfl, w.obs_start, w.obs_finish] at hj
  exact ⟨h, eq_of_joined_eq (w.ended_mono (by omega)) (w.ended_le_begun (by unfold Family.startLook; omega))
    (w.begun_mono (by omega)) (w.coherent_at _).begun_lt hlap hj⟩

/-- **Statistics of one generation.**  Whatever the controller writes between the reads: an update that returns 0
has stored the statistics of the generation it reports, provided the number behind the record does not pass a
multiple of `2 ^ 32` between the two halves of its read, or the numbers go on by less than `2 ^ 32`. -/
theorem stats_single_generation (w : Watched statsLayout data) (c : Family) (stat : EfxMacStat → BitVec 64)
    (generation : Option (BitVec 32)) (hrc : (w.run (c.macStatsUpdate stat generation)).rc = none)
    (hlap : (w.state 0).ended / 2 ^ 32 = (w.state 1).ended / 2 ^ 32 ∨
      (w.state c.startLook).begun < (w.state 0).ended + 2 ^ 32) :
    SingleGeneration c.reads data stat (w.run (c.macStatsUpdate stat generation)) (w.state 0).ended := by
  obtain ⟨hread, hgen⟩ := begun_eq_ended hrc hlap
  have hstats : statsRead w c stat = readAll c.reads (data (w.state 0).ended) stat :=
    statReads_run stat fun m _ hm r hr =>
      w.word_eq m.zero_le (by unfold Family.startLook; omega) hgen (field_mem c r hr)
  rw [run_macStatsUpdate, if_neg (not_not.mpr hread), hstats]
  refine ⟨fun s hs => ?_, fun s hs => readAll_of_notMem hs _ stat, fun rep hrep => ?_⟩
  · exact readAll_congr (setFirst_reads c) _ (by simp) (.inr hs)
  · cases generation with
    | none => cases hrep
    | some _ =>
      have hstart : startRead w c = joined (.ofNat 64 (w.state 0).ended) (.ofNat 64 (w.state 1).ended) := by
        rw [hread, endRead]
        exact congrArg₂ joined (w.obs_finish 0) (w.obs_finish 1)
      rw [← Option.some.inj hrep, hstart]
      apply BitVec.eq_of_toNat_eq
      rw [eqDword_toNat, joined_toNat, BitVec.toNat_ofNat, BitVec.toNat_ofNat, BitVec.toNat_ofNat]
      omega

/-- Generation 5 until the update has read the statistics, and generation 6 from then on. -/
def leading (c : Family) : Watched statsLayout fun g _ => BitVec.ofNat 64 g where
  state n := published statsLayout _ (fun _ => 0) (if n ≤ c.startLook + 1 then 5 else 6)
  reached := ⟨fun _ => 0, 5, by decide, .refl⟩
  later n := by
    rcases lt_trichotomy n (c.startLook + 1) with h | h | h
    · rw [if_pos h.le, if_pos (by omega)]
    · rw [if_pos h.le, if_neg (by omega)]
      exact publish (by decide) (by decide)
    · rw [if_neg (by omega), if_neg (by omega)]

theorem stats_single_generation_leading :
    SingleGeneration ef10Reads (fun g _ => BitVec.ofNat 64 g) (fun _ => 0)
      ((leading .ef10).run (ef10MacStatsUpdate (fun _ => 0) (some 0))) 5 := by
  refine stats_single_generation (leading .ef10) .ef10 (fun _ => 0) (some 0) ?_ (.inl rfl)
  have hread : startRead (leading .ef10) .ef10 = endRead (leading .ef10) :=
    congrArg₂ joined ((leading .ef10).obs_start _) ((leading .ef10).obs_start _)
  rw [run_macStatsUpdate, if_neg (not_not.mpr hread)]

/-- Generation 5 when the update begins, `2 ^ 32 + 3` from the second look on and `2 ^ 32 + 5` from the fifth on;
the words of a record are 1 in the last one and 0 before. -/
def lapping : Watched statsLayout fun g _ => if g = 2 ^ 32 + 5 then 1 else 0 where
  state n := published statsLayout _ (fun _ => 0) (if n = 0 then 5 else if n < 4 then 2 ^ 32 + 3 else 2 ^ 32 + 5)
  reached := ⟨fun _ => 0, 5, by decide, .refl⟩
  later n := by
    rcases n with _ | _ | _ | _ | n
    · exact publish (by decide) (by decide)
    · exact .refl
    · exact .refl
    · exact publish (by decide) (by decide)
    · exact .refl

theorem Family.reads_eq : ∃ reads, c.reads = ⟨McMac.txPkts, .setQword .txPkts⟩ ::
    ⟨McMac.txControlPkts, .subrQword .txPkts⟩ :: reads ∧ EfxMacStat.txPkts ∉ stored reads := by
  cases c <;> exact ⟨_, rfl, by decide⟩

theorem statsOf_txPkts (w : ℕ → BitVec 64) :
    statsOf c.reads w .txPkts = w McMac.txPkts - w McMac.txControlPkts := by
  obtain ⟨reads, hreads, hnot⟩ := c.reads_eq
  rw [statsOf, hreads]
  exact readAll_of_notMem hnot w _

theorem lapping_word (n : ℕ) {i : ℕ} (hi : i ∈ statsLayout.body) :
    lapping.obs n i = if n < 4 then 0 else 1 := by
  have h : lapping.obs n i = if (lapping.state n).begun = 2 ^ 32 + 5 then 1 else 0 :=
    (lapping.coherent_at n).word_eq rfl hi
  rw [h]
  rcases n with _ | _ | _ | _ | n <;> simp [lapping, published]

/-- The number behind the record is read as `2 ^ 32 + 5` before that generation has begun: the update of either
family returns 0 with statistics that are those of no generation. -/
theorem stats_torn :
    ∃ (data : ℕ → ℕ → BitVec 64) (w : Watched statsLayout data) (stat : EfxMacStat → BitVec 64), ∀ c : Family,
      (w.run (c.macStatsUpdate stat none)).rc = none ∧
      ∀ g, ¬ SingleGeneration c.reads data stat (w.run (c.macStatsUpdate stat none)) g := by
  refine ⟨_, lapping, fun _ => 0, fun c => ?_⟩
  have hread : startRead lapping c = endRead lapping := by
    have h : startRead lapping c = joined (.ofNat 64 (2 ^ 32 + 5)) (.ofNat 64 (2 ^ 32 + 5)) := by
      cases c <;> exact congrArg₂ joined (lapping.obs_start _) (lapping.obs_start _)
    have h' : endRead lapping = joined (.ofNat 64 5) (.ofNat 64 (2 ^ 32 + 3)) :=
      congrArg₂ joined (lapping.obs_finish 0) (lapping.obs_finish 1)
    rw [h, h']
    decide
  refine ⟨?_, fun g hg => ?_⟩
  · rw [run_macStatsUpdate, if_neg (not_not.mpr hread)]
  · have hmem : EfxMacStat.txPkts ∈ stored c.reads := by cases c <;> decide
    have hstat : statsRead lapping c (fun _ => 0) .txPkts = 0 := by
      have h := hg.stored _ hmem
      rw [run_macStatsUpdate, if_neg (not_not.mpr hread), statsOf_txPkts] at h
      exact h.trans (BitVec.sub_self _)
    obtain ⟨reads, hreads, hnot⟩ := c.reads_eq
    have htx : McMac.txPkts ∈ statsLayout.body := by decide
    have hctl : McMac.txControlPkts ∈ statsLayout.body := by decide
    rw [statsRead, hreads, statReads_cons, statReads_cons, statReads_of_notMem hnot, lapping_word 2 htx,
      lapping_word (2 + 1) htx, lapping_word (2 + 2) hctl, lapping_word (2 + 2 + 1) hctl] at hstat
    revert hstat
    decide

end

end Sfxge.Mac
