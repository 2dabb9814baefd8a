import Sfxge.Mac.Snapshot

/-!
# Mac.Families — whether the two families report the same statistics

A statistic depends on the reads that store it and on no others (`readAll_filter`).  Those are the same for both families
but for the transmitted frames of 64 bytes.
-/

namespace Sfxge.Mac

open Lib.SeqLock

/-- What an update leaves of a buffer that does not change. -/
def Family.updateOf (c : Family) (m : ℕ → BitVec 64) (stat : EfxMacStat → BitVec 64)
    (generation : Option (BitVec 32)) : Updated :=
  (c.macStatsUpdate stat generation (fun _ => m) 0).1

/-- The two families store the same in each statistic that both write, and in some of them a sum or difference of two
counters of the buffer. -/
structure FamiliesAgree (m : ℕ → BitVec 64) (ef10 siena : Updated) : Prop where
  same : ∀ s, s ∈ stored ef10Reads → s ∈ stored sienaReads → ef10.stat s = siena.stat s
  txLe64 : ∀ r ∈ [ef10, siena], r.stat .txLe64Pkts = m McMac.txLt64Pkts + m McMac.tx64Pkts
  rxLe64 : ∀ r ∈ [ef10, siena], r.stat .rxLe64Pkts = m McMac.rxUndersizePkts + m McMac.rx64Pkts
  txGe15xx : ∀ r ∈ [ef10, siena], r.stat .txGe15xxPkts = m McMac.tx15xxToJumboPkts + m McMac.txGtjumboPkts
  rxGe15xx : ∀ r ∈ [ef10, siena], r.stat .rxGe15xxPkts = m McMac.rx15xxToJumboPkts + m McMac.rxGtjumboPkts
  txPkts : ∀ r ∈ [ef10, siena], r.stat .txPkts = m McMac.txPkts - m McMac.txControlPkts

variable {m : ℕ → BitVec 64} {stat stat' : EfxMacStat → BitVec 64} {generation generation' : Option (BitVec 32)}
  {c : Family} {s : EfxMacStat}

/-! ### One statistic -/

/-- What a store leaves in a statistic depends on that statistic only. -/
theorem StatStore.apply_congr_self {st : StatStore} (q : BitVec 64) (h : stat s = stat' s) :
    st.apply q stat s = st.apply q stat' s := by
  by_cases hm : s ∈ st.targets
  · refine StatStore.apply_congr (fun t ht => ?_) q (.inl hm)
    have hts : t = s := by cases st <;> simp_all [StatStore.targets, StatStore.sources]
    rw [hts, h]
  · rw [StatStore.apply_of_notMem hm, StatStore.apply_of_notMem hm, h]

/-- The value of a statistic comes from the reads that store it. -/
theorem readAll_filter (reads : List MacStatRead) (m : ℕ → BitVec 64) (stat : EfxMacStat → BitVec 64) :
    readAll reads m stat s = readAll (reads.filter fun r => s ∈ r.store.targets) m stat s := by
  have hcongr : ∀ (reads : List MacStatRead) (stat stat' : EfxMacStat → BitVec 64), stat s = stat' s →
      readAll reads m stat s = readAll reads m stat' s := by
    intro reads
    induction reads with
    | nil => exact fun _ _ h => h
    | cons r reads ih => exact fun _ _ h => ih _ _ (StatStore.apply_congr_self _ h)
  induction reads generalizing stat with
  | nil => rfl
  | cons r reads ih =>
    by_cases hm : s ∈ r.store.targets
    · rw [List.filter_cons_of_pos (by simpa using hm)]
      exact ih _
    · rw [List.filter_cons_of_neg (by simpa using hm), ← ih]
      exact hcongr reads _ _ (StatStore.apply_of_notMem hm _ _)

/-- The families read the same of what is transmitted, but for the frames below 64 bytes. -/
theorem filter_txReads (hs : s ≠ .txLe64Pkts) :
    (txReads .setQword).filter (fun r => s ∈ r.store.targets) =
      (txReads .incrQword).filter fun r => s ∈ r.store.targets := by
  have hsplit : ∀ tx64, txReads tx64 =
      (txReads .setQword).take 8 ++ ⟨McMac.tx64Pkts, tx64 .txLe64Pkts⟩ :: (txReads .setQword).drop 9 := fun _ => rfl
  rw [hsplit .setQword, hsplit .incrQword, List.filter_append, List.filter_append,
    List.filter_cons_of_neg (by simpa [StatStore.targets] using hs),
    List.filter_cons_of_neg (by simpa [StatStore.targets] using hs)]

/-- What only one of the families reads is stored in other statistics. -/
theorem notMem_stored_sienaReads : ∀ r ∈ pmReads ++ (rxdpReads ++ vadapterReads), ∀ t ∈ r.store.targets,
    t ∉ stored sienaReads := by
  decide

/-- The reads of a statistic are those of both families. -/
theorem filter_ef10Reads (hs : s ∈ stored sienaReads) (hs64 : s ≠ .txLe64Pkts) :
    ef10Reads.filter (fun r => s ∈ r.store.targets) = sienaReads.filter fun r => s ∈ r.store.targets := by
  have hrest : (pmReads ++ (rxdpReads ++ vadapterReads)).filter (fun r => s ∈ r.store.targets) = [] := by
    rw [List.filter_eq_nil_iff]
    intro r hr hmem
    exact notMem_stored_sienaReads r hr s (of_decide_eq_true hmem) hs
  rw [ef10Reads, sienaReads, List.append_assoc, List.append_assoc, List.filter_append, List.filter_append, hrest,
    List.append_nil, filter_txReads hs64, ← List.filter_append]

/-! ### The update of a buffer that does not change -/

theorem updateOf_eq (hgen : m McMac.generationStart = m McMac.generationEnd) :
    c.updateOf m stat generation = ⟨none, readAll c.reads m stat, generation.map fun _ => eqDword 0 (m 0)⟩ := by
  have hstats : (c.reads.foldlM statRead stat (fun _ => m) 2).1 = readAll c.reads m stat :=
    statReads_run stat fun _ _ _ _ _ => rfl
  rw [Family.updateOf, macStatsUpdate_run]
  dsimp only
  rw [joined_self, joined_self, hstats, if_neg (not_not.mpr hgen)]
  rfl

/-- An update leaves the statistics of the buffer in those that it writes. -/
theorem updateOf_stat (hgen : m McMac.generationStart = m McMac.generationEnd) (hs : s ∈ stored c.reads) :
    (c.updateOf m stat generation).stat s = statsOf c.reads m s := by
  rw [updateOf_eq hgen]
  exact readAll_congr (setFirst_reads c) m (by simp) (.inr hs)

/-- **The two families.**  They agree on the statistics of a buffer exactly if it counts no transmitted frames below 64
bytes. -/
theorem families_agree_iff (hgen : m McMac.generationStart = m McMac.generationEnd)
    (stat stat' : EfxMacStat → BitVec 64) (generation generation' : Option (BitVec 32)) :
    FamiliesAgree m (Family.ef10.updateOf m stat generation) (Family.siena.updateOf m stat' generation') ↔
      m McMac.txLt64Pkts = 0 := by
  have hef10 : ∀ s ∈ stored ef10Reads, (Family.ef10.updateOf m stat generation).stat s = statsOf ef10Reads m s :=
    fun s hs => updateOf_stat hgen hs
  have hsiena : ∀ s ∈ stored sienaReads, (Family.siena.updateOf m stat' generation').stat s = statsOf sienaReads m s :=
    fun s hs => updateOf_stat hgen hs
  obtain ⟨h64, h64'⟩ := statsOf_txLe64Pkts m
  constructor
  · intro h
    have hsum := h.txLe64 _ List.mem_cons_self
    rw [hef10 _ (by decide), h64] at hsum
    exact (BitVec.self_eq_add_left).mp hsum
  · intro h0
    have hle : statsOf ef10Reads m .txLe64Pkts = statsOf sienaReads m .txLe64Pkts := by
      rw [h64, h64', h0]
      exact (BitVec.zero_add _).symm
    have hsame : ∀ s ∈ stored sienaReads, statsOf ef10Reads m s = statsOf sienaReads m s := by
      intro s hs
      by_cases hs64 : s = .txLe64Pkts
      · rw [hs64, hle]
      · rw [statsOf, statsOf, readAll_filter, filter_ef10Reads hs hs64, ← readAll_filter]
    -- a statistic of both families, from that of one record
    have hboth : ∀ s v, s ∈ stored ef10Reads → s ∈ stored sienaReads → statsOf sienaReads m s = v →
        ∀ r ∈ [Family.ef10.updateOf m stat generation, Family.siena.updateOf m stat' generation'], r.stat s = v := by
      intro s v h10 hsi hv r hr
      rcases List.mem_pair.mp hr with rfl | rfl
      · rw [hef10 s h10, hsame s hsi, hv]
      · rw [hsiena s hsi, hv]
    refine ⟨fun s h10 hsi => ?_, ?_, ?_, ?_, ?_, ?_⟩
    · rw [hef10 s h10, hsiena s hsi, hsame s hsi]
    · exact hboth _ _ (by decide) (by decide) h64'
    · exact hboth _ _ (by decide) (by decide) rfl
    · exact hboth _ _ (by decide) (by decide) rfl
    · exact hboth _ _ (by decide) (by decide) rfl
    · exact hboth _ _ (by decide) (by decide) (statsOf_txPkts (c := .siena) m)

/-- A buffer of one counter. -/
def oneCounter (field : ℕ) (n : BitVec 64) : ℕ → BitVec 64 := fun i => if i = field then n else 0

theorem families_agree_iff_short : FamiliesAgree (oneCounter McMac.tx64Pkts 1)
    (Family.ef10.updateOf (oneCounter McMac.tx64Pkts 1) (fun _ => 7) none)
    (Family.siena.updateOf (oneCounter McMac.tx64Pkts 1) (fun _ => 0) none) ↔
      oneCounter McMac.tx64Pkts 1 McMac.txLt64Pkts = 0 :=
  families_agree_iff rfl _ _ _ _

/-- A frame of less than 64 bytes that was transmitted is counted by one family only. -/
theorem shortFrame_disagree :
    ∃ m : ℕ → BitVec 64, m McMac.generationStart = m McMac.generationEnd ∧ ∀ stat,
      (Family.ef10.updateOf m stat none).stat .txLe64Pkts = 0 ∧
      (Family.siena.updateOf m stat none).stat .txLe64Pkts = 1 ∧
      ¬ FamiliesAgree m (Family.ef10.updateOf m stat none) (Family.siena.updateOf m stat none) := by
  refine ⟨oneCounter McMac.txLt64Pkts 1, rfl, fun stat => ?_⟩
  have h10 : (Family.ef10.updateOf (oneCounter McMac.txLt64Pkts 1) stat none).stat .txLe64Pkts = 0 :=
    (updateOf_stat rfl (by decide)).trans (statsOf_txLe64Pkts _).1
  have hsi : (Family.siena.updateOf (oneCounter McMac.txLt64Pkts 1) stat none).stat .txLe64Pkts = 1 :=
    (updateOf_stat rfl (by decide)).trans (statsOf_txLe64Pkts _).2
  refine ⟨h10, hsi, fun h => ?_⟩
  have heq := h.same .txLe64Pkts (by decide) (by decide)
  rw [h10, hsi] at heq
  exact absurd heq (by decide)

end Sfxge.Mac
