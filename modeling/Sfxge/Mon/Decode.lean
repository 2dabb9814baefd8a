import Sfxge.Lib.Bits
import Sfxge.Mon.Sensors

/-!
# Mon.Decode — which reading becomes which statistic

The packed array has an entry for each sensor of the mask, and the next page flags have none.  The port that a sensor is
of is told by a mask that `mcdi_mon_decode_stats` and `mcdi_mon_ev` make of the port number in different ways.
-/

namespace Sfxge.Mon

open Errno

/-! ### What the mask and the readings mean -/

variable (sensorMask : List U32) (esmp : Option (ℕ → U32)) (emiPort : ℕ)

/-- The sensor is in the mask. -/
def supported (s : ℕ) : Bool :=
  s % MCDI_MON_PAGE_SIZE ≠ MC_CMD_SENSOR_PAGE0_NEXT && (sensorMask.getD (s / 32) 0).getLsbD (s % 32)

/-- The sensors of the mask before `s`, on all pages. -/
def rank (s : ℕ) : ℕ := (List.range s).countP (supported sensorMask)

/-- The decoder takes the sensor to be of the port. -/
def attributed (s : ℕ) : Bool := ((1 : U32) <<< (emiPort % 32) &&& 0xffff) &&& (sensorMap s).msmPortMask ≠ 0

/-- The sensors of the port among the first `n`. -/
def reported (n : ℕ) : List ℕ := (List.range n).filter fun s => supported sensorMask s && attributed emiPort s

/-- The sensors that the mask and the map know. -/
def sensorMax : ℕ := min (8 * (4 * sensorMask.length)) mcdiSensorMap.length

/-- The statistics with the readings of some sensors, each stored in its turn. -/
def storeAll (stat : ℕ → MonStatValue) (sensors : List ℕ) : ℕ → MonStatValue :=
  match esmp with
  | none => stat
  | some reading => sensors.foldl (fun stat s =>
      Function.update stat (sensorMap s).msmStat (monStatValue (reading (rank sensorMask s)))) stat

/-- The bit of a statistic. -/
def statBit (statMask : List U32) (id : ℕ) : Bool :=
  (statMask.getD (id / EFX_MON_MASK_ELEMENT_SIZE) 0).getLsbD (id % EFX_MON_MASK_ELEMENT_SIZE)

/-- The sensors of the port are decoded: the reading of each is stored, and those statistics are in the mask. -/
structure Decoded (stat : ℕ → MonStatValue) (r : List U32 × (ℕ → MonStatValue)) : Prop where
  stored : r.2 = storeAll sensorMask esmp stat (reported sensorMask emiPort (sensorMax sensorMask))
  statMask : ∀ id, statBit r.1 id = true ↔
    ∃ s ∈ reported sensorMask emiPort (sensorMax sensorMask), (sensorMap s).msmStat = id

/-- Whatever the readings are, the sensors of the port are decoded; and those are the sensors of which events are
accepted. -/
structure DecodesRight (shl : OneShl) : Prop where
  decoded : ∀ esmp stat, ∃ r, mcdiMonDecodeStats shl sensorMask esmp emiPort stat = some r ∧
    Decoded sensorMask esmp emiPort stat r
  accepted : ∀ s < 8 * (4 * sensorMask.length), supported sensorMask s = true →
    ∀ eqp : Qword, (eqp.field MCDI_EVENT_SENSOREVT_MONITOR).toNat = s →
      ((s < mcdiSensorMap.length ∧ attributed emiPort s = true) ↔ ∃ r, mcdiMonEv emiPort eqp = .ok r)

/-! ### The loop -/

variable {sensorMask esmp emiPort} {shl : OneShl} {n s id : ℕ} {stat : ℕ → MonStatValue} {d : Decode}

theorem andNot_shl_eq_zero_iff (w : U32) {k : ℕ} (hk : k < 32) :
    ~~~w &&& (1 : U32) <<< k = 0 ↔ w.getLsbD k = true := by
  rw [Lib.and_one_shl_eq_zero_iff _ hk, BitVec.getLsbD_not]
  simp [hk]

theorem rank_succ (s : ℕ) : rank sensorMask (s + 1) = rank sensorMask s + if supported sensorMask s then 1 else 0 := by
  rw [rank, List.range_succ, List.countP_append, List.countP_singleton, rank]

theorem reported_succ (n : ℕ) : reported sensorMask emiPort (n + 1) = reported sensorMask emiPort n ++
    if supported sensorMask n && attributed emiPort n then [n] else [] := by
  rw [reported, List.range_succ, List.filter_append, List.filter_singleton, reported, Bool.cond_eq_ite]

/-- The locals after `n` rounds. -/
def decodeAt (sensorMask : List U32) (esmp : Option (ℕ → U32)) (emiPort n : ℕ) (stat : ℕ → MonStatValue) : Decode :=
  ⟨n / 32, rank sensorMask n, (reported sensorMask emiPort n).foldl (fun m s => setStat m (sensorMap s).msmStat)
    [0, 0, 0], storeAll sensorMask esmp stat (reported sensorMask emiPort n)⟩

theorem storeAll_append (stat : ℕ → MonStatValue) (ss : List ℕ) (s : ℕ) :
    storeAll sensorMask esmp stat (ss ++ [s]) = match esmp with
      | none => storeAll sensorMask esmp stat ss
      | some reading => Function.update (storeAll sensorMask esmp stat ss) (sensorMap s).msmStat
          (monStatValue (reading (rank sensorMask s))) := by
  cases esmp with
  | none => rfl
  | some reading => exact List.foldl_append

/-- A round whose shift tests the bit of the sensor. -/
theorem decodeSensor_at (hn : n < 8 * (4 * sensorMask.length))
    (hshl : n % 32 ≠ 31 → shl.run n = some ((1 : U32) <<< (n % 32))) :
    decodeSensor shl sensorMask esmp ((1 : U32) <<< (emiPort % 32) &&& 0xffff)
        (decodeAt sensorMask esmp emiPort n stat) n =
      some (decodeAt sensorMask esmp emiPort (n + 1) stat) := by
  have hpage : n / 32 < sensorMask.length := by omega
  unfold decodeSensor
  dsimp only
  by_cases hnext : n % MCDI_MON_PAGE_SIZE = MC_CMD_SENSOR_PAGE0_NEXT
  · have hsup : supported sensorMask n = false := by simp [supported, hnext]
    have hdiv : n / 32 + 1 = (n + 1) / 32 := by
      change n % 32 = 31 at hnext
      omega
    rw [if_pos hnext]
    unfold decodeAt
    rw [rank_succ, reported_succ, hsup, Bool.false_and, if_neg Bool.false_ne_true, if_neg Bool.false_ne_true,
      List.append_nil, Nat.add_zero, ← hdiv]
    rfl
  have hdiv : n / 32 = (n + 1) / 32 := by
    change n % 32 ≠ 31 at hnext
    omega
  have hword : sensorMask[(decodeAt sensorMask esmp emiPort n stat).page]? = some (sensorMask.getD (n / 32) 0) := by
    rw [show (decodeAt sensorMask esmp emiPort n stat).page = n / 32 from rfl, List.getD_eq_getElem?_getD,
      List.getElem?_eq_getElem hpage]
    rfl
  have hsup : supported sensorMask n = (sensorMask.getD (n / 32) 0).getLsbD (n % 32) := by
    rw [supported, decide_eq_true hnext, Bool.true_and]
  rw [if_neg hnext, hword, hshl hnext]
  dsimp only [bind, Option.bind]
  have htest := andNot_shl_eq_zero_iff (sensorMask.getD (n / 32) 0) (Nat.mod_lt n (show 32 > 0 by decide))
  rw [← hsup] at htest
  by_cases hs : supported sensorMask n = true
  swap
  · rw [if_pos (mt htest.mp hs)]
    unfold decodeAt
    rw [rank_succ, reported_succ, if_neg hs, Bool.eq_false_iff.mpr hs, Bool.false_and, if_neg Bool.false_ne_true,
      List.append_nil, Nat.add_zero, hdiv]
    rfl
  rw [if_neg (not_not.mpr (htest.mpr hs))]
  by_cases ha : attributed emiPort n = true
  swap
  · have hmask : ((1 : U32) <<< (emiPort % 32) &&& 0xffff) &&& (sensorMap n).msmPortMask = 0 := by
      simpa [attributed] using ha
    rw [if_pos hmask]
    unfold decodeAt
    rw [rank_succ, reported_succ, if_pos hs, Bool.eq_false_iff.mpr ha, Bool.and_false, if_neg Bool.false_ne_true,
      List.append_nil, hdiv]
  have hmask : ¬ ((1 : U32) <<< (emiPort % 32) &&& 0xffff) &&& (sensorMap n).msmPortMask = 0 := by
    simpa [attributed] using ha
  rw [if_neg hmask]
  unfold decodeAt
  rw [rank_succ, reported_succ, if_pos hs, hs, ha, Bool.true_and, if_pos rfl, List.foldl_append, storeAll_append, hdiv]
  cases esmp with
  | none => rfl
  | some reading => rfl

/-- The whole loop, while the shifts test the bits of the sensors. -/
theorem decodeLoop_eq (esmp : Option (ℕ → U32)) (emiPort : ℕ) (stat : ℕ → MonStatValue)
    (hn : n ≤ 8 * (4 * sensorMask.length))
    (hshl : ∀ s < n, s % 32 ≠ 31 → shl.run s = some ((1 : U32) <<< (s % 32))) :
    (List.range n).foldlM (decodeSensor shl sensorMask esmp ((1 : U32) <<< (emiPort % 32) &&& 0xffff))
      (decodeAt sensorMask esmp emiPort 0 stat) = some (decodeAt sensorMask esmp emiPort n stat) := by
  induction n with
  | zero => rfl
  | succ n ih =>
    rw [List.range_succ, List.foldlM_append, ih (by omega) fun s hs => hshl s (by omega)]
    have hround : decodeSensor shl sensorMask esmp _ (decodeAt sensorMask esmp emiPort n stat) n = some _ :=
      decodeSensor_at (by omega) (hshl n (by omega))
    dsimp only [bind, Option.bind]
    rw [List.foldlM_cons, hround]
    rfl

/-! ### The mask of statistics -/

theorem statBit_setStat {m : List U32} (hid : id / 32 < m.length) (j : ℕ) :
    statBit (setStat m id) j = (statBit m j || decide (j = id)) := by
  unfold statBit setStat EFX_MON_MASK_ELEMENT_SIZE
  rw [List.getD_eq_getElem?_getD, List.getElem?_modify, List.getD_eq_getElem?_getD]
  by_cases hw : id / 32 = j / 32
  · have hj : j / 32 < m.length := hw ▸ hid
    have hbit : decide (j = id) = decide (j % 32 = id % 32) := by
      congr 1
      rw [eq_iff_iff]
      omega
    rw [List.getElem?_eq_getElem hj, hbit]
    have hshl : ((1 : U32) <<< (id % 32)).getLsbD (j % 32) = decide (j % 32 = id % 32) := by
      rw [show (1 : U32) <<< (id % 32) = BitVec.twoPow 32 (id % 32) from (BitVec.twoPow_eq 32 _).symm,
        BitVec.getLsbD_twoPow]
      have hlt : id % 32 < 32 := Nat.mod_lt _ (by decide)
      simp [hlt, eq_comm]
    change (if id / 32 = j / 32 then m[j / 32] ||| (1 : U32) <<< (id % 32) else m[j / 32]).getLsbD (j % 32) = _
    rw [if_pos hw, BitVec.getLsbD_or, hshl]
    rfl
  · have hne : j ≠ id := fun h => hw (by rw [h])
    rw [decide_eq_false hne, Bool.or_false]
    simp [hw]

theorem statBit_foldl (ss : List ℕ) (hss : ∀ s ∈ ss, (sensorMap s).msmStat < EFX_MON_NSTATS) {m : List U32}
    (hm : m.length = 3) (id : ℕ) : statBit (ss.foldl (fun m s => setStat m (sensorMap s).msmStat) m) id = true ↔
      statBit m id = true ∨ ∃ s ∈ ss, (sensorMap s).msmStat = id := by
  induction ss generalizing m with
  | nil => simp
  | cons s ss ih =>
    have hs : (sensorMap s).msmStat / 32 < m.length := by
      have h := hss s List.mem_cons_self
      rw [EFX_MON_NSTATS] at h
      omega
    have hm' : (setStat m (sensorMap s).msmStat).length = 3 := (List.length_modify ..).trans hm
    rw [List.foldl_cons, ih (fun s' h => hss s' (List.mem_cons_of_mem _ h)) hm', statBit_setStat hs, Bool.or_eq_true,
      decide_eq_true_iff, List.exists_mem_cons_iff, or_assoc, eq_comm (a := id)]

/-- A sensor of a port has a statistic. -/
theorem stat_lt_of_attributed (hs : s < 81) (ha : attributed emiPort s = true) :
    (sensorMap s).msmStat < EFX_MON_NSTATS := by
  refine sensorMap_stat_lt s hs fun h0 => ?_
  simp [attributed, h0] at ha

theorem lt_of_mem_reported (h : s ∈ reported sensorMask emiPort n) : s < n ∧ supported sensorMask s = true ∧
    attributed emiPort s = true := by
  simpa [reported] using h

/-- The decoder, while the shifts test the bits of the sensors and of the port. -/
theorem decoded_of_shifts (hport : shl.run emiPort = some ((1 : U32) <<< (emiPort % 32)))
    (hshl : ∀ s < sensorMax sensorMask, s % 32 ≠ 31 → shl.run s = some ((1 : U32) <<< (s % 32))) :
    ∃ r, mcdiMonDecodeStats shl sensorMask esmp emiPort stat = some r ∧ Decoded sensorMask esmp emiPort stat r := by
  have hloop := decodeLoop_eq esmp emiPort stat (Nat.min_le_left _ _) hshl
  have hstart : decodeAt sensorMask esmp emiPort 0 stat =
      ⟨0, 0, List.replicate ((mcdiSensorMap.length + 31) / 32) 0, stat⟩ := by
    cases esmp <;> rfl
  rw [hstart] at hloop
  set d := decodeAt sensorMask esmp emiPort (min (8 * (4 * sensorMask.length)) mcdiSensorMap.length) stat with hd
  have hrun : mcdiMonDecodeStats shl sensorMask esmp emiPort stat = some (d.statMask, d.stat) := by
    unfold mcdiMonDecodeStats
    rw [hport]
    dsimp only [bind, Option.bind]
    rw [hloop]
  refine ⟨_, hrun, rfl, fun id => ?_⟩
  · have h0 : statBit [0, 0, 0] id = false := by
      unfold statBit
      rw [List.getD_eq_getElem?_getD]
      cases hk : ([0, 0, 0] : List U32)[id / EFX_MON_MASK_ELEMENT_SIZE]? with
      | none => exact BitVec.getLsbD_zero
      | some w =>
        have hw : w = 0 := by simpa using List.mem_of_getElem? hk
        rw [hw]
        exact BitVec.getLsbD_zero
    refine (statBit_foldl _ (fun s hs => ?_) rfl id).trans ?_
    · obtain ⟨hlt, -, ha⟩ := lt_of_mem_reported hs
      exact stat_lt_of_attributed (hlt.trans_le (Nat.min_le_right _ _)) ha
    · rw [h0, Bool.false_eq_true, false_or]
      rfl

/-! ### The ports -/

/-- The port masks of the decoder and of the events agree on the sensors of the mask: with the port number as shift
count, the decoder takes the sensors of the first port to be of port 0 and those of the second to be of port 1, where
the events have the second at every port but port 1. -/
def PortsAgree (sensorMask : List U32) (emiPort : ℕ) : Prop :=
  ∀ s < sensorMax sensorMask, supported sensorMask s = true →
    ((sensorMap s).msmPortMask = MCDI_MON_PORT_P1 → emiPort % 32 ≠ 0 ∧ emiPort ≠ 1) ∧
      ((sensorMap s).msmPortMask = MCDI_MON_PORT_P2 → emiPort % 32 = 1 ∧ emiPort ≠ 1) ∧
      ((sensorMap s).msmPortMask = MCDI_MON_PORT_Px → emiPort % 32 < 16)

/-- The sensors of whose events `mcdi_mon_ev` takes notice. -/
theorem mcdiMonEv_ok_iff {eqp : Qword} (hs : (eqp.field MCDI_EVENT_SENSOREVT_MONITOR).toNat = s) :
    (∃ r, mcdiMonEv emiPort eqp = .ok r) ↔ s < mcdiSensorMap.length ∧
      (if emiPort = 1 then MCDI_MON_PORT_P1 else MCDI_MON_PORT_P2) &&& (sensorMap s).msmPortMask ≠ 0 := by
  unfold mcdiMonEv
  rw [hs]
  dsimp only
  split_ifs with h1 h2
  all_goals simp_all

theorem shifted_port (p : ℕ) (hp : p < 32) :
    (((1 : U32) <<< p &&& 0xffff) &&& MCDI_MON_PORT_P1 ≠ 0 ↔ p = 0) ∧
      (((1 : U32) <<< p &&& 0xffff) &&& MCDI_MON_PORT_P2 ≠ 0 ↔ p = 1) ∧
      (((1 : U32) <<< p &&& 0xffff) &&& MCDI_MON_PORT_Px ≠ 0 ↔ p < 16) := by
  decide +revert

/-- Where the two port masks agree on a sensor. -/
theorem attributed_iff_event (hs : s < 81) :
    (attributed emiPort s = true ↔
      (if emiPort = 1 then MCDI_MON_PORT_P1 else MCDI_MON_PORT_P2) &&& (sensorMap s).msmPortMask ≠ 0) ↔
    ((sensorMap s).msmPortMask = MCDI_MON_PORT_P1 → emiPort % 32 ≠ 0 ∧ emiPort ≠ 1) ∧
      ((sensorMap s).msmPortMask = MCDI_MON_PORT_P2 → emiPort % 32 = 1 ∧ emiPort ≠ 1) ∧
      ((sensorMap s).msmPortMask = MCDI_MON_PORT_Px → emiPort % 32 < 16) := by
  obtain ⟨h1, h2, hx⟩ := shifted_port (emiPort % 32) (Nat.mod_lt _ (by decide))
  have hport := sensorMap_ports s hs
  unfold attributed
  rw [decide_eq_true_iff]
  generalize (sensorMap s).msmPortMask = m at hport ⊢
  simp only [List.mem_cons, List.not_mem_nil, or_false] at hport
  by_cases h : emiPort = 1
  · have hmod : emiPort % 32 = 1 := by omega
    rcases hport with rfl | rfl | rfl | rfl
    · simp [MCDI_MON_PORT_NONE, MCDI_MON_PORT_P1, MCDI_MON_PORT_P2, MCDI_MON_PORT_Px]
    all_goals
      first
      | rw [h1]
      | rw [h2]
      | rw [hx]
      rw [if_pos h, hmod]
      simp [h, MCDI_MON_PORT_P1, MCDI_MON_PORT_P2, MCDI_MON_PORT_Px]
  · rcases hport with rfl | rfl | rfl | rfl
    · simp [MCDI_MON_PORT_NONE, MCDI_MON_PORT_P1, MCDI_MON_PORT_P2, MCDI_MON_PORT_Px]
    all_goals
      first
      | rw [h1]
      | rw [h2]
      | rw [hx]
      rw [if_neg h]
      simp [h, MCDI_MON_PORT_P1, MCDI_MON_PORT_P2, MCDI_MON_PORT_Px]

/-- An event of a sensor. -/
theorem event_monitor : ∀ s < 81,
    (Qword.field ⟨BitVec.ofNat 32 s, 0⟩ MCDI_EVENT_SENSOREVT_MONITOR).toNat = s := by
  decide

theorem accepted_iff_portsAgree : (∀ s < 8 * (4 * sensorMask.length), supported sensorMask s = true →
    ∀ eqp : Qword, (eqp.field MCDI_EVENT_SENSOREVT_MONITOR).toNat = s →
      ((s < mcdiSensorMap.length ∧ attributed emiPort s = true) ↔ ∃ r, mcdiMonEv emiPort eqp = .ok r)) ↔
    PortsAgree sensorMask emiPort := by
  constructor
  · intro h s hs hsup
    have hs81 : s < 81 := hs.trans_le (Nat.min_le_right _ _)
    have hiff := h s (hs.trans_le (Nat.min_le_left _ _)) hsup _ (event_monitor s hs81)
    rw [mcdiMonEv_ok_iff (event_monitor s hs81), and_congr_right_iff] at hiff
    exact (attributed_iff_event hs81).mp (hiff hs81)
  · intro h s hs hsup eqp heqp
    rw [mcdiMonEv_ok_iff heqp, and_congr_right_iff]
    exact fun hs81 => (attributed_iff_event hs81).mpr (h s (Nat.lt_min.mpr ⟨hs, hs81⟩) hsup)

/-! ### When the sensors are decoded -/

/-- A fold that goes wrong at some element. -/
theorem foldlM_eq_none {σ α : Type} {f : σ → α → Option σ} {a : α} (hf : ∀ d, f d a = none) {as : List α} (ha : a ∈ as)
    (d : σ) : as.foldlM f d = none := by
  induction as generalizing d with
  | nil => cases ha
  | cons b as ih =>
    rw [List.foldlM_cons]
    rcases List.mem_cons.mp ha with rfl | hmem
    · rw [hf]
      rfl
    · cases f d b with
      | none => rfl
      | some d' => exact ih hmem d'

/-- A shift that is not defined. -/
theorem decodeStats_undefined (h : 32 ≤ emiPort ∨ 1 < sensorMask.length) :
    mcdiMonDecodeStats .defined sensorMask esmp emiPort stat = none := by
  have hundef : ∀ k, 32 ≤ k → OneShl.defined.run k = none := fun k hk => if_neg (Nat.not_lt.mpr hk)
  unfold mcdiMonDecodeStats
  rcases h with hport | hlen
  · rw [hundef _ hport]
    rfl
  · have h32 : ∀ (m : U32) (d : Decode), decodeSensor .defined sensorMask esmp m d 32 = none := by
      intro m d
      unfold decodeSensor
      rw [if_neg (by decide), hundef 32 (le_refl _)]
      cases sensorMask[d.page]? <;> rfl
    have hmem : 32 ∈ List.range (min (8 * (4 * sensorMask.length)) mcdiSensorMap.length) := by
      rw [List.mem_range, mcdiSensorMap_length]
      omega
    cases OneShl.defined.run emiPort with
    | none => rfl
    | some m =>
      dsimp only [bind, Option.bind]
      rw [foldlM_eq_none (h32 _) hmem]

/-- **Sensor decoding.**  As C has it, the sensors are decoded right exactly if the mask is of one page at most, the port
number is one to shift by and the port masks agree on the sensors of the mask; on a machine that takes shift counts
modulo 32, exactly if the port masks agree. -/
theorem mcdiMonDecodeStats_right_iff (sensorMask : List U32) (emiPort : ℕ) :
    (DecodesRight sensorMask emiPort .defined ↔
      emiPort < 32 ∧ sensorMask.length ≤ 1 ∧ PortsAgree sensorMask emiPort) ∧
    (DecodesRight sensorMask emiPort .modulo ↔ PortsAgree sensorMask emiPort) := by
  constructor
  · constructor
    · intro h
      have hdef : ¬ (32 ≤ emiPort ∨ 1 < sensorMask.length) := by
        intro hu
        obtain ⟨r, hr, -⟩ := h.decoded none fun _ => ⟨0, 0⟩
        rw [decodeStats_undefined hu] at hr
        cases hr
      exact ⟨by omega, by omega, accepted_iff_portsAgree.mp h.accepted⟩
    · rintro ⟨hport, hlen, hagree⟩
      refine ⟨fun esmp stat => decoded_of_shifts ?_ fun s hs _ => ?_, accepted_iff_portsAgree.mpr hagree⟩
      · exact (OneShl.defined.low _ hport).trans (by rw [Nat.mod_eq_of_lt hport])
      · have hs32 : s < 32 := by
          have hle : s < 8 * (4 * sensorMask.length) := hs.trans_le (Nat.min_le_left _ _)
          omega
        exact (OneShl.defined.low _ hs32).trans (by rw [Nat.mod_eq_of_lt hs32])
  · constructor
    · exact fun h => accepted_iff_portsAgree.mp h.accepted
    · exact fun hagree => ⟨fun esmp stat => decoded_of_shifts rfl fun _ _ _ => rfl, accepted_iff_portsAgree.mpr hagree⟩

/-- On the first port, the temperature sensor of its PHY is not decoded although its events are accepted, however a
shift that C leaves undefined goes. -/
theorem phy0Temp_not_decoded : ¬ ∃ shl, DecodesRight [0x8] 1 shl := by
  rintro ⟨shl, h⟩
  have hiff := h.accepted 3 (by decide) (by decide) ⟨3, 0⟩ (by decide)
  have hok : ∃ r, mcdiMonEv 1 ⟨3, 0⟩ = .ok r := ⟨_, rfl⟩
  exact absurd (hiff.mpr hok).2 (by decide)

end Sfxge.Mon
