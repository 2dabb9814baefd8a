import Mathlib.Algebra.Order.BigOperators.Group.Finset
import Mathlib.Data.Int.CardIntervalMod
import Sfxge.Rx.Scale

/-!
# Rx.Contention — the contention counts over runs, and how the RSS table spreads

`chooseQueues_chosen` says once what the choice does: its queues are `Greedy.Picks` under the contention of the other
adapters, and the counters go up by them.  The sum over the adapters follows for every run (`Sound.step`), and the
table spreads over distinct queues exactly when there are enough fresh ones.
-/

namespace Sfxge.Rx.Scale

open Lib Lib.Greedy

variable {κ : Type} [DecidableEq κ] {n count : ℕ} {cpuId : ℕ → κ} {load : κ → ℕ}

/-! ### The choice -/

/-- The comparisons with the queues up to `m`. -/
theorem foldl_better (rating : ℕ → ℕ) (m : ℕ) :
    ∃ c, (List.range' 1 m).foldl (better rating) (0, rating 0) = (c, rating c) ∧ c < m + 1 ∧
      ∀ q, q < m + 1 → q ≠ c → Ahead (rating c) c (rating q) q := by
  induction m with
  | zero => exact ⟨0, rfl, by omega, fun q hq hne => absurd hq (by omega)⟩
  | succ m ih =>
    obtain ⟨c, hc, hlt, hahead⟩ := ih
    rw [List.range'_1_concat, List.foldl_append, hc, List.foldl_cons, List.foldl_nil, better]
    split_ifs with h
    · refine ⟨1 + m, rfl, by omega, fun q hq hne => ?_⟩
      by_cases hqc : q = c
      · exact .inl (hqc ▸ h)
      · have := hahead q (by omega) hqc
        unfold Ahead at this ⊢
        dsimp only at h
        omega
    · refine ⟨c, rfl, by omega, fun q hq hne => ?_⟩
      by_cases hqm : q < m + 1
      · exact hahead q hqm hne
      · obtain rfl : q = 1 + m := by omega
        dsimp only at h
        unfold Ahead
        omega

omit [DecidableEq κ] in
theorem choose_isPick (hn : 0 < n) (cpuId : ℕ → κ) (cpu : κ → ℕ) :
    IsPick n cpuId cpu (choose (fun index => cpu (cpuId index)) n) := by
  obtain ⟨c, hc, hlt, hahead⟩ := foldl_better (fun index => cpu (cpuId index)) (n - 1)
  rw [choose, hc]
  exact ⟨by dsimp only; omega, fun q hq hne => hahead q (by omega) hne⟩

/-- What `count` choices leave that began with the contention `load`. -/
structure Chosen (n : ℕ) (cpuId : ℕ → κ) (load : κ → ℕ) (count : ℕ) (c : Choice κ) : Prop where
  picks : Picks n cpuId load c.tbl
  length : c.tbl.length = count
  own : ∀ id, c.own id = (c.tbl.map cpuId).count id
  cpu : ∀ id, c.cpu id = loadAfter cpuId load c.tbl id

theorem incr_eq {f : κ → ℕ} {id : κ} (h : f id + 1 < 2 ^ 32) (x : κ) :
    incr f id x = f x + if id = x then 1 else 0 := by
  by_cases hx : x = id
  · subst hx
    simp only [incr, Function.update_self, if_true]
    exact Nat.mod_eq_of_lt h
  · rw [incr, Function.update_of_ne hx, if_neg fun h => hx h.symm, Nat.add_zero]

theorem Chosen.next {c : Choice κ} (h : Chosen n cpuId load count c) (hn : 0 < n)
    (hlt : ∀ id, load id + count + 1 < 2 ^ 32) : Chosen n cpuId load (count + 1) (chooseNext n cpuId c) := by
  have hpick := choose_isPick hn cpuId c.cpu
  obtain ⟨p, hp⟩ : ∃ p, p = choose (fun index => c.cpu (cpuId index)) n := ⟨_, rfl⟩
  have hnext : chooseNext n cpuId c = ⟨c.tbl ++ [p], incr c.own (cpuId p), incr c.cpu (cpuId p)⟩ := by
    rw [hp]
    rfl
  have hown : c.own (cpuId p) + 1 < 2 ^ 32 ∧ c.cpu (cpuId p) + 1 < 2 ^ 32 := by
    have hle := List.count_le_length (a := cpuId p) (l := c.tbl.map cpuId)
    rw [List.length_map, h.length] at hle
    have := hlt (cpuId p)
    rw [h.own, h.cpu, loadAfter]
    omega
  rw [hnext]
  refine ⟨.snoc h.picks ?_, by simp [h.length], fun id => (incr_eq hown.1 id).trans ?_,
    fun id => (incr_eq hown.2 id).trans ?_⟩
  · rwa [← hp, show c.cpu = loadAfter cpuId load c.tbl from funext h.cpu] at hpick
  · rw [h.own]
    simp [List.count_singleton]
  · rw [h.cpu, loadAfter_snoc]

theorem chooseQueues_chosen (hn : 0 < n) (hlt : ∀ id, load id + count < 2 ^ 32) :
    Chosen n cpuId load count (chooseQueues n cpuId count load) := by
  induction count with
  | zero => exact ⟨.nil, rfl, fun _ => rfl, fun id => by simp [chooseQueues, loadAfter]⟩
  | succ k ih =>
    rw [chooseQueues, Function.iterate_succ_apply']
    exact (ih fun id => by have := hlt id; omega).next hn fun id => by have := hlt id; omega

/-! ### The expanded table -/

theorem expand_eq (tbl : List ℕ) (hn : 0 < n) (entries : ℕ) {count : ℕ} (hc : count < n) :
    expand tbl n entries count = (List.range entries).map fun e => tbl.getD ((count + e) % n) 0 := by
  induction entries generalizing count with
  | zero => rfl
  | succ entries ih =>
    rw [expand, ih (Nat.mod_lt _ hn), List.range_succ_eq_map, List.map_cons, List.map_map]
    simp only [Nat.add_zero, Nat.mod_eq_of_lt hc]
    congr 1
    refine List.map_congr_left fun e _ => ?_
    rw [Function.comp_apply, Nat.mod_add_mod]
    congr 2
    omega

/-- The table that is expanded from `tbl`. -/
theorem mem_expand {tbl : List ℕ} (hn : 0 < tbl.length) (hle : tbl.length ≤ rxScaleMax) (q : ℕ) :
    q ∈ expand tbl tbl.length rxScaleMax 0 ↔ q ∈ tbl := by
  rw [expand_eq tbl hn _ hn, List.mem_map]
  constructor
  · rintro ⟨e, -, rfl⟩
    rw [List.getD_eq_getElem _ _ (Nat.mod_lt _ hn)]
    exact List.getElem_mem _
  · intro hq
    obtain ⟨k, hk, rfl⟩ := List.getElem_of_mem hq
    refine ⟨k, List.mem_range.mpr (by omega), ?_⟩
    rw [Nat.zero_add, Nat.mod_eq_of_lt hk, List.getD_eq_getElem _ _ hk]

theorem length_expand (tbl : List ℕ) (n entries count : ℕ) : (expand tbl n entries count).length = entries := by
  induction entries generalizing count with
  | zero => rfl
  | succ entries ih => rw [expand, List.length_cons, ih]

/-- Of distinct queues each gets its share of the entries. -/
theorem count_expand {tbl : List ℕ} (hnd : tbl.Nodup) {k : ℕ} (hk : k < tbl.length) (entries : ℕ) :
    (expand tbl tbl.length entries 0).count tbl[k] =
      entries / tbl.length + if k < entries % tbl.length then 1 else 0 := by
  have hn : 0 < tbl.length := by omega
  rw [expand_eq tbl hn _ hn, List.count_eq_countP, List.countP_map]
  have hcount := Nat.count_modEq_card (r := tbl.length) entries hn k
  rw [Nat.mod_eq_of_lt hk] at hcount
  rw [← hcount, Nat.count]
  refine List.countP_congr fun e _ => ?_
  have hlt := Nat.mod_lt e hn
  simp only [Function.comp_apply, Nat.zero_add, beq_iff_eq, decide_eq_true_eq, Nat.ModEq, Nat.mod_eq_of_lt hk,
    List.getD_eq_getElem _ _ hlt]
  exact hnd.getElem_inj_iff

theorem div_ceil {m n : ℕ} (h : 0 < m % n) (hn : 0 < n) : (m + n - 1) / n = m / n + 1 := by
  have hsplit : m + n - 1 = m % n + n - 1 + n * (m / n) := by
    have := Nat.mod_add_div m n
    omega
  have hone : (m % n + n - 1) / n = 1 := by
    have := Nat.mod_lt m hn
    exact Nat.div_eq_of_lt_le (by omega) (by omega)
  rw [hsplit, Nat.add_mul_div_left _ _ hn, hone, Nat.add_comm]

omit [DecidableEq κ] in
/-- **Even spread.**  The table expanded from some queues spreads as it should exactly when they are distinct. -/
theorem spread_iff {A : Adapter} {srs : RxScale κ} {tbl : List ℕ} (hlen : tbl.length = srs.count)
    (hpos : 0 < srs.count) (hle : srs.count ≤ rxScaleMax) (hvalid : ∀ q ∈ tbl, q < A.nalloc)
    (htbl : srs.tbl = expand tbl srs.count rxScaleMax 0) : Spread A srs ↔ tbl.Nodup := by
  rw [← hlen] at hpos hle htbl
  have hmem := mem_expand hpos hle
  have hset : srs.tbl.toFinset = tbl.toFinset := by
    ext q
    rw [List.mem_toFinset, List.mem_toFinset, htbl, hmem]
  constructor
  · intro h
    have hcard := h.distinct
    rw [hset, ← hlen] at hcard
    exact Multiset.coe_nodup.mp (Multiset.toFinset_card_eq_card_iff_nodup.mp hcard)
  · intro hnd
    refine ⟨htbl ▸ length_expand .., fun q hq => hvalid q ((hmem q).mp (htbl ▸ hq)), ?_, fun q hq => ?_⟩
    · rw [hset, List.toFinset_card_of_nodup hnd, hlen]
    · rw [htbl] at hq ⊢
      obtain ⟨k, hk, rfl⟩ := List.getElem_of_mem ((hmem q).mp hq)
      rw [count_expand hnd hk, ← hlen]
      split_ifs with h
      · exact .inr (div_ceil (by omega) hpos).symm
      · exact .inl rfl

/-! ### One operation -/

section

variable {ι : Type} [DecidableEq ι] [Fintype ι] {A : ι → Adapter} {s s' : System ι κ} {i : ι}

/-- What every operation keeps. -/
structure Sound (A : ι → Adapter) (s : System ι κ) : Prop where
  counted : Counted s
  own_le : ∀ i id, (s.inst i).cpu id ≤ rxScaleMax
  count : ∀ i, (s.inst i).state ≠ .uninitialized → 1 ≤ (s.inst i).count ∧ (s.inst i).count ≤ (A i).nalloc

omit [DecidableEq κ] [DecidableEq ι] in
theorem counted_of_sum (h : ∀ id, s.cpu id = ∑ i, (s.inst i).cpu id) : Counted s :=
  ⟨h, fun i id => h id ▸ Finset.single_le_sum (f := fun i => (s.inst i).cpu id) (fun _ _ => Nat.zero_le _)
    (Finset.mem_univ i)⟩

omit [DecidableEq κ] [DecidableEq ι] in
theorem Sound.of_init (h : Init A s) : Sound A s where
  counted := counted_of_sum fun id => by simp [h.cpu, h.own]
  own_le i id := by simp [h.own]
  count i hi := h.count i (by
    have := h.stopped i
    cases hst : (s.inst i).state <;> simp_all)

omit [DecidableEq κ] in
/-- The other adapters leave room for one. -/
theorem Sound.others_le (h : Sound A s) (i : ι) (id : κ) :
    s.cpu id - (s.inst i).cpu id + rxScaleMax ≤ rxScaleMax * Fintype.card ι := by
  have hle := Finset.sum_le_card_nsmul (Finset.univ.erase i) (fun i => (s.inst i).cpu id) rxScaleMax
    fun i _ => h.own_le i id
  have hsum := h.counted.1 id
  rw [← Finset.add_sum_erase _ _ (Finset.mem_univ i)] at hsum
  have hcard : (Finset.univ.erase i).card + 1 = Fintype.card ι := Finset.card_erase_add_one (Finset.mem_univ i)
  rw [← hcard, Nat.mul_add, Nat.mul_one, Nat.mul_comm]
  rw [nsmul_eq_mul, Nat.cast_id] at hle
  omega

omit [DecidableEq κ] in
/-- What the other adapters put on a CPU. -/
theorem Sound.release_eq (h : Sound A s) (hcard : rxScaleMax * Fintype.card ι < 2 ^ 32) (i : ι) :
    release s.cpu (s.inst i).cpu = fun id => s.cpu id - (s.inst i).cpu id := by
  funext id
  have h1 := h.counted.2 i id
  have h2 := h.own_le i id
  have h3 := h.others_le i id
  rw [release, show s.cpu id + 2 ^ 32 - (s.inst i).cpu id = s.cpu id - (s.inst i).cpu id + 2 ^ 32 by omega,
    Nat.add_mod_right, Nat.mod_eq_of_lt (by omega)]

omit [DecidableEq κ] in
/-- Adapter `i` counts anew on top of what the others have counted. -/
theorem Sound.recount (h : Sound A s) (srs : RxScale κ) {c : κ → ℕ}
    (hcpu : ∀ id, c id = s.cpu id - (s.inst i).cpu id + srs.cpu id) (hle : ∀ id, srs.cpu id ≤ rxScaleMax)
    (hcount : srs.state ≠ .uninitialized → 1 ≤ srs.count ∧ srs.count ≤ (A i).nalloc) (rc : Option Errno) :
    Sound A (((s.setInst i srs).setCpu c).done rc) := by
  have hinst : ∀ j, (((s.setInst i srs).setCpu c).done rc).inst j = if j = i then srs else s.inst j := fun j =>
    Function.update_apply ..
  refine ⟨counted_of_sum fun id => ?_, fun j id => ?_, fun j => ?_⟩
  · have hold := h.counted.1 id
    rw [← Finset.add_sum_erase _ _ (Finset.mem_univ i)] at hold ⊢
    have hrest : ∑ j ∈ Finset.univ.erase i, ((((s.setInst i srs).setCpu c).done rc).inst j).cpu id =
        ∑ j ∈ Finset.univ.erase i, (s.inst j).cpu id :=
      Finset.sum_congr rfl fun j hj => by rw [hinst, if_neg (Finset.ne_of_mem_erase hj)]
    rw [hrest, hinst, if_pos rfl]
    refine (hcpu id).trans ?_
    omega
  · rw [hinst]
    split_ifs
    exacts [hle id, h.own_le j id]
  · rw [hinst]
    split_ifs with hj
    · exact hj ▸ hcount
    · exact h.count j

omit [DecidableEq κ] [DecidableEq ι] in
theorem Sound.done (h : Sound A s) (rc : Option Errno) : Sound A (s.done rc) := ⟨h.counted, h.own_le, h.count⟩

omit [DecidableEq κ] in
/-- An operation that leaves the counts alone. -/
theorem Sound.setInst (h : Sound A s) (srs : RxScale κ) (hcpu : srs.cpu = (s.inst i).cpu)
    (hcount : srs.state ≠ .uninitialized → 1 ≤ srs.count ∧ srs.count ≤ (A i).nalloc) (rc : Option Errno) :
    Sound A ((s.setInst i srs).done rc) := by
  refine h.recount srs (c := s.cpu) (fun id => ?_) (fun id => ?_) hcount rc
  · have := h.counted.2 i id
    rw [hcpu]
    omega
  · exact hcpu ▸ h.own_le i id

/-- What the choice of an update leaves. -/
theorem Sound.chosen (h : Sound A s) (hcard : rxScaleMax * Fintype.card ι < 2 ^ 32) (cpuId : ℕ → κ)
    (hst : (s.inst i).state = .started) :
    Chosen (A i).nalloc cpuId (fun id => s.cpu id - (s.inst i).cpu id) (s.inst i).count
      (s.choice i (A i) cpuId) := by
  rw [System.choice, h.release_eq hcard]
  refine chooseQueues_chosen (A i).pos fun id => ?_
  have hcount := (h.count i (by simp [hst])).2
  have hle := (A i).le
  have := h.others_le i id
  omega

theorem Sound.update (h : Sound A s) (hcard : rxScaleMax * Fintype.card ι < 2 ^ 32) (tblAlloc ratingAlloc : Bool)
    (cpuId : ℕ → κ) : Sound A (s.update i (A i) tblAlloc ratingAlloc cpuId) := by
  rw [System.update]
  split_ifs with hst
  · exact h.done _
  · exact h.done _
  · exact h.done _
  · have hst' : (s.inst i).state = .started := not_not.mp hst
    have hc := h.chosen hcard cpuId hst'
    have hcount := h.count i (by simp [hst'])
    have hcpu : ∀ id, (s.choice i (A i) cpuId).cpu id =
        s.cpu id - (s.inst i).cpu id + (s.choice i (A i) cpuId).own id := fun id => by
      rw [hc.cpu, loadAfter, hc.own]
    have hle : ∀ id, (s.choice i (A i) cpuId).own id ≤ rxScaleMax := fun id => by
      have hlen := List.count_le_length (a := id) (l := (s.choice i (A i) cpuId).tbl.map cpuId)
      rw [List.length_map, hc.length] at hlen
      rw [hc.own]
      exact hlen.trans (hcount.2.trans (A i).le)
    exact h.recount ((s.inst i).build (s.choice i (A i) cpuId)) hcpu hle (fun _ => hcount) none

theorem Sound.step (h : Sound A s) (hcard : rxScaleMax * Fintype.card ι < 2 ^ 32) {o : Op ι κ}
    (hs : step A o s = some s') : Sound A s' := by
  cases o with
  | start i hash =>
    obtain ⟨hst, hs⟩ := Option.ite_none_right_eq_some.mp hs
    cases hs
    have hcount := h.count i (by simp [hst])
    cases hash with
    | some e => exact h.setInst (s.inst i).clear rfl (fun _ => hcount) _
    | none => exact h.setInst { (s.inst i).clear with state := .started } rfl (fun _ => hcount) _
  | update i tblAlloc ratingAlloc cpuId =>
    cases hs
    exact h.update hcard tblAlloc ratingAlloc cpuId
  | countSet i count =>
    cases hs
    rw [System.countSet]
    split_ifs with hc hst
    · exact h.done _
    · exact h.done _
    · have hcount : 1 ≤ count ∧ count ≤ (A i).nalloc := by omega
      exact h.setInst { s.inst i with count := count } rfl (fun _ => hcount) _
  | stop i =>
    obtain ⟨hst, hs⟩ := Option.ite_none_right_eq_some.mp hs
    cases hs
    exact h.recount { (s.inst i).clear with state := .initialized, cpu := fun _ => 0 }
      (congrFun (h.release_eq hcard i)) (fun _ => Nat.zero_le _) (fun _ => h.count i (by simp [hst])) none

/-- An update that succeeds spreads exactly when there are enough fresh queues. -/
theorem Sound.updates_iff (h : Sound A s) (hcard : rxScaleMax * Fintype.card ι < 2 ^ 32) {o : Op ι κ}
    (hs : Scale.step A o s = some s') : Updates A o s s' ↔ EnoughFresh A o s := by
  cases o with
  | start | countSet | stop => exact Iff.rfl
  | update i tblAlloc ratingAlloc cpuId =>
    cases hs
    simp only [Updates, EnoughFresh, System.update]
    split_ifs with hst htbl hrating
    · exact ⟨fun _ hst' => absurd hst' hst, fun _ hrc => by cases hrc⟩
    · exact ⟨fun _ _ ht => by simp_all, fun _ hrc => by cases hrc⟩
    · exact ⟨fun _ _ _ hr => by simp_all, fun _ hrc => by cases hrc⟩
    · have hst' : (s.inst i).state = .started := not_not.mp hst
      have hc := h.chosen hcard cpuId hst'
      have hcount := h.count i (by simp [hst'])
      have hspread : Spread (A i) ((s.inst i).build (s.choice i (A i) cpuId)) ↔ (s.choice i (A i) cpuId).tbl.Nodup :=
        spread_iff hc.length hcount.1 (hcount.2.trans (A i).le) hc.picks.lt rfl
      rw [hc.picks.nodup_iff, hc.length] at hspread
      have hinst : (s.setInst i ((s.inst i).build (s.choice i (A i) cpuId))).inst i = _ := Function.update_self ..
      simp only [Bool.not_eq_true', Bool.not_eq_false] at htbl hrating
      simp only [System.done, System.setCpu, hinst, hspread, hst', htbl, hrating, true_imp_iff]

/-- **Contention counts and the RSS table over runs.**  With fewer than `2 ^ 25` adapters, in every run the
contention counts are the sums over the adapters, and every update that succeeds spreads evenly over as many distinct
queues as it should, exactly when every update finds enough fresh queues. -/
theorem scale_meets_iff (A : ι → Adapter) (hcard : rxScaleMax * Fintype.card ι < 2 ^ 32) {s : System ι κ}
    (h0 : Init A s) (os : List (Op ι κ)) :
    MeetsAlong (step A) Counted (Updates A) os s ↔ StepsAlong (step A) (EnoughFresh A) os s := by
  have hs := Sound.of_init h0
  refine meetsAlong_iff (I := Sound A) (fun o s s' h hstep => h.step hcard hstep) ?_ os hs hs.counted
  intro o s s' h _ hstep
  rw [and_iff_left (h.step hcard hstep).counted]
  exact h.updates_iff hcard hstep

end

/-! ### One adapter with two event queues -/

/-- An adapter with two event queues that uses both. -/
def pair : Unit → Adapter := fun _ => ⟨2, by decide, by decide⟩

def pairInit : System Unit (Fin 2) := ⟨fun _ => 0, fun _ => ⟨.initialized, 2, fun _ => 0, []⟩, none⟩

theorem pairInit_init : Init pair pairInit :=
  ⟨fun _ => rfl, by decide, fun _ _ => rfl, by decide⟩

/-- Event queues on two CPUs: the table spreads. -/
theorem scale_meets_pair :
    MeetsAlong (step pair) Counted (Updates pair)
      [.start () none, .update () true true fun q => if q = 0 then 0 else 1] pairInit := by
  refine (scale_meets_iff pair (by decide) pairInit_init _).mpr ?_
  rintro s1 ⟨⟩
  refine ⟨trivial, ?_⟩
  rintro s2 ⟨⟩
  exact ⟨fun _ _ _ => by decide, trivial⟩

/-- Event queues that have recorded the same CPU: the first one is chosen twice, and the other one never used. -/
theorem scale_one_cpu :
    ¬ MeetsAlong (step pair) Counted (Updates pair) [.start () none, .update () true true fun _ => 0] pairInit := by
  intro h
  have hspread : Spread _ _ := ((h.2 _ rfl).2.2 _ rfl).1 rfl
  have hcard := hspread.distinct
  revert hcard
  decide +kernel

end Sfxge.Rx.Scale
