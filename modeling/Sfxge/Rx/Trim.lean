import Sfxge.Rx.Loans
import Sfxge.Rx.Refill

/-!
# Rx.Trim — trimming the free packet pool

`sfxge_rx_qfpp_trim` frees the packets behind the first `srfpp_count - max(srfpp_lowat, srfpp_min)`.  So it frees as
many as the larger of the two, where it is to leave that many.
-/

namespace Sfxge.Rx

open Lib RxqState

namespace Rxq

variable {cfg : Config} {io : Io} {b C P : ℕ} {srp srp' q : Rxq}

/-! ### What a trim should do -/

/-- The pool that is trimmed: the ring of a queue that is running has been refilled. -/
def refilled (cfg : Config) (io : Io) (srp : Rxq) : Rxq :=
  if srp.srState = SFXGE_RXQ_STARTED then srp.qrefill cfg io cfg.limit else srp

/-- The packets that were not needed since the last trim, as far as the low water mark lets them go. -/
def excess (q : Rxq) : ℕ := min q.srfppMin.toNat (q.srfppGet.length - q.srfppLowat.toNat)

/-- A trim of the pool `q` leaves `srp'`: it frees packets from the end of the get list, those of a running queue that
are in excess, not below the low water mark, none without an excess, and no more than `srfpp_min` counts. -/
structure Trims (q srp' : Rxq) : Prop where
  freesTail : srp'.srfppGet <+: q.srfppGet
  frees : q.srState = SFXGE_RXQ_STARTED → q.srfppGet.length - srp'.srfppGet.length = q.excess
  lowat : q.srfppLowat.toNat ≤ q.srfppGet.length → q.srfppLowat.toNat ≤ srp'.srfppGet.length
  noExcess : q.excess = 0 → srp'.srfppGet = q.srfppGet
  count : srp'.srfppCount = BitVec.ofNat 32 srp'.srfppGet.length
  min : q.srfppGet.length - srp'.srfppGet.length ≤ q.srfppMin.toNat

/-! ### The pool after the refill -/

/-- The packets on the get list once the ring has been refilled. -/
def left (cfg : Config) (srp : Rxq) : ℕ :=
  if srp.ntodo cfg cfg.limit = 0 then srp.srfppGet.length
  else srp.srfppGet.length + srp.putLength - srp.ntodo cfg cfg.limit

/-- The least count since the last trim, that after the refill included. -/
def fewest (cfg : Config) (srp : Rxq) : ℕ := min srp.srfppMin.toNat (srp.left cfg % 2 ^ 32)

theorem swizzleOne_length (id : Cpu) (srp : Rxq) : (srp.swizzleOne id).srfppGet.length + (srp.swizzleOne id).putLength =
    srp.srfppGet.length + srp.putLength := by
  have hput := putLength_put srp id [] (Function.update srp.srfplCount id 0)
  unfold swizzleOne
  dsimp only at hput ⊢
  split_ifs with hp
  · rw [hp] at hput
    exact congrArg (srp.srfppGet.length + ·) hput
  · change (srp.srfplPutp id ++ srp.srfppGet).length + _ = _
    rw [List.length_append]
    rw [List.length_nil] at hput
    change _ + Rxq.putLength { srp with
      srfplPutp := Function.update srp.srfplPutp id []
      srfplCount := Function.update srp.srfplCount id 0 } = _
    omega

theorem qfppSwizzle_length (cpu : Cpu) (srp : Rxq) :
    (srp.qfppSwizzle cpu).srfppGet.length = srp.srfppGet.length + srp.putLength := by
  have hfold : ∀ (ids : List Cpu) (srp : Rxq),
      (ids.foldl (fun srp id => srp.swizzleOne id) srp).srfppGet.length +
        (ids.foldl (fun srp id => srp.swizzleOne id) srp).putLength = srp.srfppGet.length + srp.putLength := by
    intro ids
    induction ids with
    | nil => exact fun _ => rfl
    | cons id ids ih => exact fun srp => (ih _).trans (swizzleOne_length id srp)
  have hempty := putLength_qfppSwizzle cpu srp
  have hall := hfold (swizzleOrder cpu) srp
  rw [qfppSwizzle] at hempty ⊢
  omega

/-- The marks of the pool. -/
def poolMarks (srp : Rxq) : U32 × U32 := (srp.srfppMin, srp.srfppLowat)

theorem poolMarks_qpush (cfg : Config) (srp : Rxq) : (srp.qpush cfg).poolMarks = srp.poolMarks := rfl

theorem poolMarks_refillLoop (cfg : Config) (n k : ℕ) (srp : Rxq) :
    (refillLoop cfg n k srp).poolMarks = srp.poolMarks := by
  induction n generalizing k srp with
  | zero => rfl
  | succ n ih =>
    unfold refillLoop
    split
    · rfl
    · dsimp only
      split_ifs
      · exact ih _ _
      · refine (ih _ _).trans ?_
        unfold addPacket
        split_ifs <;> rfl

theorem poolMarks_qfppSwizzle (cpu : Cpu) (srp : Rxq) : (srp.qfppSwizzle cpu).poolMarks = srp.poolMarks := by
  unfold qfppSwizzle
  generalize swizzleOrder cpu = ids
  induction ids generalizing srp with
  | nil => rfl
  | cons id ids ih =>
    refine (ih _).trans ?_
    unfold swizzleOne
    dsimp only
    split_ifs <;> rfl

/-- What the refill leaves of the pool. -/
theorem Inv.refilled_pool (h : srp.Inv cfg b C P) (hst : srp.srState = SFXGE_RXQ_STARTED) (io : Io) :
    (srp.qrefill cfg io cfg.limit).srfppGet.length = srp.left cfg ∧
      (srp.qrefill cfg io cfg.limit).srfppMin.toNat = srp.fewest cfg ∧
      (srp.qrefill cfg io cfg.limit).srfppLowat = srp.srfppLowat := by
  have hcount := (h.of_filled (h.qrefill io cfg.limit)).pool.count
  rw [qrefill_started hst] at hcount ⊢
  set s1 := if srp.ntodo cfg cfg.limit = 0 then srp
    else (refillLoop cfg (srp.ntodo cfg cfg.limit) 0 (srp.qfppSwizzle io.cpu)).qpush cfg with hs1
  have hget : s1.srfppGet.length = srp.left cfg := by
    rw [hs1, left]
    split_ifs
    · rfl
    · obtain ⟨hstock, -⟩ := refillLoop_stock cfg (srp.ntodo cfg cfg.limit) 0 (srp.qfppSwizzle io.cpu)
      have hlen := congrArg (fun s => s.get.length) hstock
      rw [← qfppSwizzle_length io.cpu]
      exact hlen.trans List.length_drop
  have hmarks : s1.poolMarks = srp.poolMarks := by
    rw [hs1]
    split_ifs
    · rfl
    · rw [poolMarks_qpush, poolMarks_refillLoop, poolMarks_qfppSwizzle]
  have hmin : s1.srfppMin = srp.srfppMin := congrArg (·.1) hmarks
  have hlowat : s1.srfppLowat = srp.srfppLowat := congrArg (·.2) hmarks
  unfold noteMin at hcount ⊢
  have hN : s1.srfppCount = BitVec.ofNat 32 s1.srfppGet.length := by
    split_ifs at hcount <;> exact hcount
  have hc : s1.srfppCount.toNat = srp.left cfg % 2 ^ 32 := by rw [hN, BitVec.toNat_ofNat, hget]
  split_ifs with hlt
  · refine ⟨hget, ?_, hlowat⟩
    rw [BitVec.lt_def, hmin] at hlt
    rw [fewest]
    dsimp only
    omega
  · refine ⟨hget, ?_, hlowat⟩
    rw [BitVec.lt_def, hmin] at hlt
    rw [fewest, hmin]
    omega

/-! ### What it does -/

/-- When a trim is right: the queue is stopped, there is nothing to trim, or the low water mark is not above the least
count and the two of them together not above the count; the count is one that an `int` holds. -/
def TrimsRight (cfg : Config) (srp : Rxq) : Prop :=
  srp.srState ≠ SFXGE_RXQ_STARTED ∨ srp.fewest cfg = 0 ∨ srp.left cfg ≤ srp.srfppLowat.toNat ∨
    (srp.srfppLowat.toNat ≤ srp.fewest cfg ∧ srp.srfppLowat.toNat + srp.fewest cfg ≤ srp.left cfg ∧
      srp.left cfg < srp.fewest cfg + 2 ^ 31)

/-- A trim that frees nothing. -/
theorem trims_none_iff (hcount : q.srfppCount = BitVec.ofNat 32 q.srfppGet.length) :
    Trims q { q with srfppMin := q.srfppCount } ↔ q.srState ≠ SFXGE_RXQ_STARTED ∨ q.excess = 0 := by
  have hsub : q.srfppGet.length - q.srfppGet.length = 0 := Nat.sub_self _
  constructor
  · intro h
    by_cases hst : q.srState = SFXGE_RXQ_STARTED
    · exact .inr ((h.frees hst).symm.trans hsub)
    · exact .inl hst
  · intro h
    refine ⟨List.prefix_rfl, fun hst => ?_, id, fun _ => rfl, hcount, hsub.trans_le (Nat.zero_le _)⟩
    exact hsub.trans (h.resolve_left (not_not.mpr hst)).symm

/-- A trim of a running queue that keeps `keep` packets. -/
theorem trims_take_iff {keep : ℕ} (hst : q.srState = SFXGE_RXQ_STARTED) (hget : srp'.srfppGet = q.srfppGet.take keep)
    (hcount : srp'.srfppCount = BitVec.ofNat 32 srp'.srfppGet.length) (hkeep : keep ≤ q.srfppGet.length) :
    Trims q srp' ↔ q.srfppGet.length - keep = q.excess := by
  have hlen : srp'.srfppGet.length = keep := by rw [hget, List.length_take_of_le hkeep]
  constructor
  · intro h
    have h1 := h.frees hst
    rwa [hlen] at h1
  · intro h
    have hexcess : q.excess ≤ q.srfppMin.toNat ∧ q.excess ≤ q.srfppGet.length - q.srfppLowat.toNat :=
      ⟨Nat.min_le_left _ _, Nat.min_le_right _ _⟩
    refine ⟨hget ▸ List.take_prefix _ _, fun _ => hlen.symm ▸ h, fun hle => ?_, fun h0 => ?_, hcount, ?_⟩
    · rw [hlen]
      omega
    · rw [hget, List.take_of_length_le (by omega)]
    · rw [hlen, h]
      exact hexcess.1

/-- The packets that the loop over the get list passes. -/
theorem kept_toNat (c l m : U32) (hl : l.toNat ≤ c.toNat) (hm : m.toNat ≤ c.toNat) :
    (if l > m then c - l else c - m).toInt.toNat =
      if c.toNat - max l.toNat m.toNat < 2 ^ 31 then c.toNat - max l.toNat m.toNat else 0 := by
  have hsub : ∀ x : U32, x.toNat ≤ c.toNat →
      (c - x).toInt.toNat = if c.toNat - x.toNat < 2 ^ 31 then c.toNat - x.toNat else 0 := by
    intro x hx
    have h1 : (c - x).toNat = c.toNat - x.toNat := BitVec.toNat_sub_of_le (BitVec.le_def.mpr hx)
    have hlt := c.isLt
    rw [BitVec.toInt_eq_toNat_cond, h1]
    split_ifs <;> omega
  split_ifs with h1 h2 h2
  all_goals rw [gt_iff_lt, BitVec.lt_def] at h1
  · rw [hsub l hl, if_pos (by omega)]
    omega
  · rw [hsub l hl, if_neg (by omega)]
  · rw [hsub m hm, if_pos (by omega)]
    omega
  · rw [hsub m hm, if_neg (by omega)]

/-- The trim of a running queue: nothing is done, or the get list is cut behind the packets to keep. -/
theorem qfppTrim_running (hst : srp.srState = SFXGE_RXQ_STARTED) (hr : srp.qfppTrim cfg io = some srp')
    (hq : q = srp.qrefill cfg io cfg.limit) :
    ((q.srfppMin = 0 ∨ q.srfppCount ≤ q.srfppLowat) ∧ srp' = { q with srfppMin := q.srfppCount }) ∨
    (q.srfppMin ≠ 0 ∧ ¬ q.srfppCount ≤ q.srfppLowat ∧
      ∃ keep, keep = (if q.srfppLowat > q.srfppMin then q.srfppCount - q.srfppLowat
          else q.srfppCount - q.srfppMin).toInt.toNat ∧
        keep ≤ q.srfppGet.length ∧ srp'.srfppGet = q.srfppGet.take keep) := by
  unfold qfppTrim at hr
  dsimp only at hr
  rw [if_neg (not_not.mpr hst), ← hq] at hr
  by_cases h1 : q.srfppMin = 0
  · rw [if_pos h1] at hr
    cases hr
    exact .inl ⟨.inl h1, rfl⟩
  rw [if_neg h1] at hr
  by_cases h2 : q.srfppCount ≤ q.srfppLowat
  · rw [if_pos h2] at hr
    cases hr
    exact .inl ⟨.inr h2, rfl⟩
  rw [if_neg h2] at hr
  obtain ⟨keep, hkeep⟩ : ∃ keep, keep = (if q.srfppLowat > q.srfppMin then q.srfppCount - q.srfppLowat
      else q.srfppCount - q.srfppMin).toInt.toNat := ⟨_, rfl⟩
  rw [← hkeep] at hr
  split_ifs at hr with hlt
  cases hr
  exact .inr ⟨h1, h2, keep, hkeep, Nat.le_of_not_lt hlt, rfl⟩

/-- The arithmetic of a trim that keeps packets: `few` is the least count, `low` the low water mark. -/
theorem kept_right_iff {left few low : ℕ} (h0 : few ≠ 0) (hfew : few ≤ left % 2 ^ 32) (hlow : low < left % 2 ^ 32) :
    left - (if left % 2 ^ 32 - max low few < 2 ^ 31 then left % 2 ^ 32 - max low few else 0) = min few (left - low) ↔
      few = 0 ∨ left ≤ low ∨ (low ≤ few ∧ low + few ≤ left ∧ left < few + 2 ^ 31) := by
  have hmod : left % 2 ^ 32 ≤ left := Nat.mod_le _ _
  split_ifs <;> omega

/-- The trim of a running queue is right under the condition. -/
theorem Inv.trims_running (hi : srp.Inv cfg b C P) (hst : srp.srState = SFXGE_RXQ_STARTED)
    (htrim : srp.qfppTrim cfg io = some srp') :
    Trims (srp.qrefill cfg io cfg.limit) srp' ↔ srp.TrimsRight cfg := by
  have hcount' := (hi.qfppTrim htrim).1.pool.count
  obtain ⟨hN, hm, hL⟩ := hi.refilled_pool hst io
  have hcount := (hi.of_filled (hi.qrefill io cfg.limit)).pool.count
  have hstq := (hi.qrefill io cfg.limit).same.srState.trans hst
  have hcases := qfppTrim_running hst htrim rfl
  generalize srp.qrefill cfg io cfg.limit = q at *
  have hc : q.srfppCount.toNat = srp.left cfg % 2 ^ 32 := by rw [hcount, BitVec.toNat_ofNat, hN]
  have hfew : srp.fewest cfg ≤ srp.left cfg % 2 ^ 32 := Nat.min_le_right _ _
  have hexcess : q.excess = min (srp.fewest cfg) (srp.left cfg - srp.srfppLowat.toNat) := by rw [excess, hm, hN, hL]
  have hzero : q.srfppMin = 0 ↔ srp.fewest cfg = 0 := by
    rw [← hm]
    exact ⟨fun h => by rw [h]; rfl, fun h => BitVec.eq_of_toNat_eq h⟩
  have hbelow : q.srfppCount ≤ q.srfppLowat ↔ srp.left cfg % 2 ^ 32 ≤ srp.srfppLowat.toNat := by
    rw [BitVec.le_def, hc, hL]
  rw [TrimsRight, or_iff_right (not_not.mpr hst)]
  obtain ⟨hnone, rfl⟩ | ⟨h1, h2, keep, rfl, hle, hget⟩ := hcases
  · rw [hzero, hbelow] at hnone
    rw [trims_none_iff hcount, or_iff_right (not_not.mpr hstq), hexcess]
    have hlow := srp.srfppLowat.isLt
    have hmod : srp.left cfg % 2 ^ 32 ≤ srp.left cfg := Nat.mod_le _ _
    omega
  · rw [Ne, hzero] at h1
    rw [hbelow, Nat.not_le] at h2
    have hkept := kept_toNat q.srfppCount q.srfppLowat q.srfppMin (by rw [hc, hL]; exact h2.le)
      (by rw [hc, hm]; exact hfew)
    rw [trims_take_iff hstq hget hcount' hle, hkept, hexcess, hm, hN, hL, hc]
    exact kept_right_iff h1 hfew h2

/-- **Trimming.**  In every state of every run, the trim of the pool is right exactly under this condition. -/
theorem qfppTrim_trims_iff {os : List Op} (h : runOps (step cfg) os construct = some srp) (io : Io) :
    ∃ srp', srp.qfppTrim cfg io = some srp' ∧ (Trims (srp.refilled cfg io) srp' ↔ srp.TrimsRight cfg) := by
  have hsound : ∃ b C P, srp.Sound cfg False b C P :=
    runOps_inv (fun srp => ∃ b C P, srp.Sound cfg False b C P)
      (fun _ _ _ ⟨_, _, _, hs⟩ hr => hs.step False.elim hr) ⟨0, 0, 0, sound_construct cfg False⟩ h
  obtain ⟨b, C, P, hs⟩ := hsound
  have hi := hs.inv
  obtain ⟨srp', htrim⟩ := hi.qfppTrim_some io
  refine ⟨srp', htrim, ?_⟩
  by_cases hst : srp.srState = SFXGE_RXQ_STARTED
  · rw [refilled, if_pos hst]
    exact hi.trims_running hst htrim
  · rw [refilled, if_neg hst]
    unfold qfppTrim at htrim
    dsimp only at htrim
    rw [if_pos hst] at htrim
    cases htrim
    exact iff_of_true ((trims_none_iff hi.pool.count).mpr (.inl hst)) (.inl hst)

/-! ### Two histories -/

/-- Sixteen packets are lent and given back through the put list of CPU 0. -/
def lendAll : List Op :=
  [.preallocate (Io.plain true) 3, .qinit, .qstart (Io.plain true) ⟨2048, 0, 1500⟩,
    .evRx (Io.plain true) 15 60 0, .evPolled (Io.plain true)]

/-- Packets come back one after another. -/
def giveBack (ps : List ℕ) : List Op := ps.map (.stackFree 0 true ·)

/-- Ten packets were left at the last trim, and none was taken since. -/
def unused : List Op :=
  lendAll ++ giveBack (List.range 16) ++
    [.evRx (Io.plain true) 18 60 0, .evPolled (Io.plain true), .trim (Io.plain true)]

/-- Four packets were left at the last trim, and seven are left now. -/
def refreshed : List Op :=
  lendAll ++ giveBack (List.range 10) ++
    [.evRx (Io.plain true) 18 60 0, .evPolled (Io.plain true), .trim (Io.plain true)] ++
    giveBack (List.range' 10 6) ++ [.evRx (Io.plain true) 21 60 0, .evPolled (Io.plain true)]

theorem qfppTrim_trims_refreshed : ∃ srp srp', runOps (step .least) refreshed construct = some srp ∧
    srp.qfppTrim .least (Io.plain true) = some srp' ∧
      (Trims (srp.refilled .least (Io.plain true)) srp' ↔ srp.TrimsRight .least) := by
  have hrun : (runOps (step .least) refreshed construct).isSome := by decide +kernel
  obtain ⟨srp, h⟩ := Option.isSome_iff_exists.mp hrun
  obtain ⟨srp', htrim, hiff⟩ := qfppTrim_trims_iff h (Io.plain true)
  exact ⟨srp, srp', h, htrim, hiff⟩

/-- An idle pool of ten packets, whose low water mark is three, is trimmed to nothing. -/
theorem unused_trimmed_away : ∃ srp srp', runOps (step .least) unused construct = some srp ∧
    srp.qfppTrim .least (Io.plain true) = some srp' ∧ ¬ Trims (srp.refilled .least (Io.plain true)) srp' := by
  have hrun : (runOps (step .least) unused construct).any (fun srp =>
      (srp.qfppTrim .least (Io.plain true)).any fun srp' =>
        let q := srp.refilled .least (Io.plain true)
        decide (q.srfppLowat.toNat ≤ q.srfppGet.length ∧ srp'.srfppGet.length < q.srfppLowat.toNat)) = true := by
    decide +kernel
  obtain ⟨srp, h, htrim⟩ := (Option.any_eq_true _ _).mp hrun
  obtain ⟨srp', h', hlow⟩ := (Option.any_eq_true _ _).mp htrim
  have hlow' := of_decide_eq_true hlow
  exact ⟨srp, srp', h, h', fun ht => absurd (ht.lowat hlow'.1) (Nat.not_le.mpr hlow'.2)⟩

end Rxq

end Sfxge.Rx
