import Mathlib.Data.Finset.Card
import Mathlib.Data.Finset.Range
import Sfxge.Filter.Restore

/-!
# Filter.Table — the representation invariant of the Siena filter tables

What one call of `siena_filter_add`, `siena_filter_delete` or `siena_filter_tbl_clear` does to the
tables and to the hardware, and the invariant that carries over every run: entries lie on the probe
sequence of their key within the search depth of their type, the hardware rows are the encodings of
the entries, and the search limits of the hardware reach every entry.
-/

namespace Sfxge.Filter

open Lib Lib.Prog Errno SienaFilterType SienaFilterTblId

/-! ### Probe sequences -/

/-- The key under which an entry is filed. -/
def filterKey (spec : SienaFilterSpec) : U32 := (sienaFilterBuild spec).2

/-- The position behind `k` steps on the probe sequence of a key in a table of `size` rows. -/
def probePos (size : ℕ) (key : U32) : ℕ → ℕ
  | 0 => (sienaFilterTblHash key).toNat &&& (size - 1)
  | k + 1 => (probePos size key k + (sienaFilterTblIncrement key).toNat) &&& (size - 1)

theorem probePos_lt {size : ℕ} (h : 0 < size) (key : U32) (k : ℕ) : probePos size key k < size := by
  cases k with
  | zero =>
    have := Nat.and_le_right (n := (sienaFilterTblHash key).toNat) (m := size - 1)
    rw [probePos]
    omega
  | succ k =>
    have := Nat.and_le_right (n := probePos size key k + (sienaFilterTblIncrement key).toNat)
      (m := size - 1)
    rw [probePos]
    omega

/-- A search ends at this row. -/
def Stops (sftp : SienaFilterTbl) (spec : SienaFilterSpec) (forInsert : Bool) (i : ℕ) : Prop :=
  (if sienaFilterTestUsed sftp i then sienaFilterEqual spec (sftp.spec i) else forInsert) = true

variable {sftp : SienaFilterTbl} {spec : SienaFilterSpec} {key : U32} {forInsert : Bool}

theorem probe_stop {incr left i depth : ℕ} (h : Stops sftp spec forInsert i) :
    sienaFilterProbe sftp spec forInsert incr left i depth = .ok (i, depth) := by
  unfold sienaFilterProbe
  exact if_pos h

theorem probe_last {incr i depth : ℕ} (h : ¬ Stops sftp spec forInsert i) :
    sienaFilterProbe sftp spec forInsert incr 0 i depth =
      .error (if forInsert then EBUSY else ENOENT) := by
  unfold sienaFilterProbe
  exact if_neg h

theorem probe_next {incr left i depth : ℕ} (h : ¬ Stops sftp spec forInsert i) :
    sienaFilterProbe sftp spec forInsert incr (left + 1) i depth =
      sienaFilterProbe sftp spec forInsert incr left ((i + incr) &&& (sftp.size - 1)) (depth + 1) := by
  conv_lhs => unfold sienaFilterProbe
  exact if_neg h

theorem probe_ok {left k i depth : ℕ}
    (h : sienaFilterProbe sftp spec forInsert (sienaFilterTblIncrement key).toNat left
      (probePos sftp.size key k) (k + 1) = .ok (i, depth)) :
    ∃ j, k ≤ j ∧ j ≤ k + left ∧ i = probePos sftp.size key j ∧ depth = j + 1 ∧
      Stops sftp spec forInsert (probePos sftp.size key j) ∧
      ∀ n, k ≤ n → n < j → ¬ Stops sftp spec forInsert (probePos sftp.size key n) := by
  induction left generalizing k with
  | zero =>
    by_cases hs : Stops sftp spec forInsert (probePos sftp.size key k)
    · rw [probe_stop hs] at h
      cases h
      exact ⟨k, le_refl _, by omega, rfl, rfl, hs, fun n h1 h2 => by omega⟩
    · rw [probe_last hs] at h
      cases h
  | succ left ih =>
    by_cases hs : Stops sftp spec forInsert (probePos sftp.size key k)
    · rw [probe_stop hs] at h
      cases h
      exact ⟨k, le_refl _, by omega, rfl, rfl, hs, fun n h1 h2 => by omega⟩
    · rw [probe_next hs] at h
      obtain ⟨j, h1, h2, h3, h4, h5, h6⟩ := ih (k := k + 1) h
      refine ⟨j, by omega, by omega, h3, h4, h5, fun n hn hj => ?_⟩
      rcases Nat.eq_or_lt_of_le hn with rfl | hlt
      · exact hs
      · exact h6 n hlt hj

theorem probe_error {left k : ℕ} {e : Errno}
    (h : sienaFilterProbe sftp spec forInsert (sienaFilterTblIncrement key).toNat left
      (probePos sftp.size key k) (k + 1) = .error e) :
    e = (if forInsert then EBUSY else ENOENT) ∧
      ∀ n, k ≤ n → n ≤ k + left → ¬ Stops sftp spec forInsert (probePos sftp.size key n) := by
  induction left generalizing k with
  | zero =>
    by_cases hs : Stops sftp spec forInsert (probePos sftp.size key k)
    · rw [probe_stop hs] at h
      cases h
    · rw [probe_last hs] at h
      cases h
      exact ⟨rfl, fun n h1 h2 => by rwa [show n = k by omega]⟩
  | succ left ih =>
    by_cases hs : Stops sftp spec forInsert (probePos sftp.size key k)
    · rw [probe_stop hs] at h
      cases h
    · rw [probe_next hs] at h
      obtain ⟨h1, h2⟩ := ih (k := k + 1) h
      refine ⟨h1, fun n hn hl => ?_⟩
      rcases Nat.eq_or_lt_of_le hn with rfl | hlt
      · exact hs
      · exact h2 n hlt (by omega)

/-- **Search.**  It ends at the first of the 200 probe positions where it may. -/
theorem search_ok {i depth : ℕ} (h : sienaFilterSearch sftp spec key forInsert = .ok (i, depth)) :
    ∃ k, k < FILTER_CTL_SRCH_MAX ∧ i = probePos sftp.size key k ∧ depth = k + 1 ∧
      Stops sftp spec forInsert (probePos sftp.size key k) ∧
      ∀ n, n < k → ¬ Stops sftp spec forInsert (probePos sftp.size key n) := by
  obtain ⟨k, -, h2, h3, h4, h5, h6⟩ := probe_ok (k := 0) h
  exact ⟨k, by simp only [FILTER_CTL_SRCH_MAX] at h2 ⊢; omega, h3, h4, h5,
    fun n hn => h6 n (Nat.zero_le _) hn⟩

theorem search_error {e : Errno} (h : sienaFilterSearch sftp spec key forInsert = .error e) :
    e = (if forInsert then EBUSY else ENOENT) ∧
      ∀ n, n < FILTER_CTL_SRCH_MAX → ¬ Stops sftp spec forInsert (probePos sftp.size key n) := by
  obtain ⟨h1, h2⟩ := probe_error (k := 0) h
  exact ⟨h1, fun n hn => h2 n (Nat.zero_le _) (by simp only [FILTER_CTL_SRCH_MAX] at hn ⊢; omega)⟩

/-! ### Search limits -/

/-- The field in which the hardware keeps the search limit of a type. -/
def limitField : SienaFilterType → Field
  | RX_TCP_FULL => FRF_AZ_TCP_FULL_SRCH_LIMIT
  | RX_TCP_WILD => FRF_AZ_TCP_WILD_SRCH_LIMIT
  | RX_UDP_FULL => FRF_AZ_UDP_FULL_SRCH_LIMIT
  | RX_UDP_WILD => FRF_AZ_UDP_WILD_SRCH_LIMIT
  | RX_MAC_FULL => FRF_CZ_ETHERNET_FULL_SEARCH_LIMIT
  | RX_MAC_WILD => FRF_CZ_ETHERNET_WILDCARD_SEARCH_LIMIT
  | TX_TCP_FULL => FRF_CZ_TX_TCPIP_FILTER_FULL_SEARCH_RANGE
  | TX_TCP_WILD => FRF_CZ_TX_TCPIP_FILTER_WILD_SEARCH_RANGE
  | TX_UDP_FULL => FRF_CZ_TX_UDPIP_FILTER_FULL_SEARCH_RANGE
  | TX_UDP_WILD => FRF_CZ_TX_UDPIP_FILTER_WILD_SEARCH_RANGE
  | TX_MAC_FULL => FRF_CZ_TX_ETH_FILTER_FULL_SEARCH_RANGE
  | TX_MAC_WILD => FRF_CZ_TX_ETH_FILTER_WILD_SEARCH_RANGE

/-- What is added to the depth of a type. -/
def limitFudge : SienaFilterType → ℕ
  | RX_TCP_FULL | RX_UDP_FULL | RX_MAC_FULL | TX_TCP_FULL | TX_UDP_FULL | TX_MAC_FULL =>
    FILTER_CTL_SRCH_FUDGE_FULL
  | RX_TCP_WILD | RX_UDP_WILD | RX_MAC_WILD | TX_TCP_WILD | TX_UDP_WILD | TX_MAC_WILD =>
    FILTER_CTL_SRCH_FUDGE_WILD

def rxTypes : List SienaFilterType :=
  [RX_TCP_FULL, RX_TCP_WILD, RX_UDP_FULL, RX_UDP_WILD, RX_MAC_FULL, RX_MAC_WILD]

def txTypes : List SienaFilterType :=
  [TX_TCP_FULL, TX_TCP_WILD, TX_UDP_FULL, TX_UDP_WILD, TX_MAC_FULL, TX_MAC_WILD]

/-- The register with the search limit of a type. -/
def limitReg (type : SienaFilterType) : ℕ :=
  if type ∈ rxTypes then FR_AZ_RX_FILTER_CTL_REG else FR_AZ_TX_CFG_REG

/-- The search limit of a type as the hardware has it. -/
def hwLimit (bar : Bar) (type : SienaFilterType) : ℕ :=
  (bar.reg (limitReg type)).field (limitField type)

/-- The fields that the push functions set. -/
def limitFields (sfp : SienaFilter) (types : List SienaFilterType) : List (Field × U32) :=
  types.map fun type => (limitField type, BitVec.ofNat 32 (sfp.depth type + limitFudge type))

variable {ε : Type} {sfp : SienaFilter}

theorem pushRx_run (h : (sfp.tbl RX_MAC).size ≠ 0) (bar : Bar) :
    (sienaFilterPushRxLimits sfp : Prog Bar ε Unit) bar =
      .ret () (bar.write FR_AZ_RX_FILTER_CTL_REG
        (setFields (bar.reg FR_AZ_RX_FILTER_CTL_REG) (limitFields sfp rxTypes))) := by
  unfold sienaFilterPushRxLimits
  simp only [bind_apply, barReado_apply, Res.bind_ret, if_pos h]
  rfl

theorem pushTx_run (h1 : (sfp.tbl TX_IP).size ≠ 0) (h2 : (sfp.tbl TX_MAC).size ≠ 0) (bar : Bar) :
    (sienaFilterPushTxLimits sfp : Prog Bar ε Unit) bar =
      .ret () (bar.write FR_AZ_TX_CFG_REG
        (setFields (bar.reg FR_AZ_TX_CFG_REG) (limitFields sfp txTypes))) := by
  unfold sienaFilterPushTxLimits
  simp only [bind_apply, barReado_apply, Res.bind_ret, if_pos h1, if_pos h2]
  rfl

theorem limitFields_fst (sfp : SienaFilter) (types : List SienaFilterType) :
    (limitFields sfp types).map Prod.fst = types.map limitField := by
  simp [limitFields]

theorem limit_fits (type : SienaFilterType) : (limitField type).Fits ∧ (limitField type).width = 8 := by
  cases type <;> decide

theorem limitFudge_le (type : SienaFilterType) : limitFudge type ≤ 3 := by
  cases type <;> decide

/-- A pushed limit is what the hardware reads. -/
theorem field_limits (hd : ∀ type, sfp.depth type ≤ FILTER_CTL_SRCH_MAX) {types : List SienaFilterType}
    (happart : (types.map limitField).Pairwise Field.Apart) {type : SienaFilterType}
    (h : type ∈ types) (o : Oword) :
    (setFields o (limitFields sfp types)).field (limitField type) =
      sfp.depth type + limitFudge type := by
  have hlt : ∀ type, (BitVec.ofNat 32 (sfp.depth type + limitFudge type) : U32).toNat =
      sfp.depth type + limitFudge type ∧ sfp.depth type + limitFudge type < 2 ^ 8 := by
    intro type
    have h1 := hd type
    have h2 := limitFudge_le type
    simp only [FILTER_CTL_SRCH_MAX] at h1
    rw [BitVec.toNat_ofNat, Nat.mod_eq_of_lt (by omega)]
    exact ⟨rfl, by omega⟩
  have hfit : ∀ fv ∈ limitFields sfp types, fv.1.Fits ∧ fv.2.toNat < 2 ^ fv.1.width := by
    intro fv hfv
    obtain ⟨type, -, rfl⟩ := List.mem_map.mp hfv
    obtain ⟨h1, h2⟩ := limit_fits type
    exact ⟨h1, by rw [h2, (hlt type).1]; exact (hlt type).2⟩
  have hset := field_setFields (by rwa [limitFields_fst]) hfit (List.mem_map.mpr ⟨type, h, rfl⟩) o
  rw [hset, (hlt type).1]

/-! ### What a call does -/

/-- The types whose limits are in the same register. -/
def bank (type : SienaFilterType) : List SienaFilterType :=
  if type ∈ rxTypes then rxTypes else txTypes

/-- The tables after saving a spec in a row at search depth `d`. -/
def saved (sfp : SienaFilter) (sfSpec : SienaFilterSpec) (i d : ℕ) : SienaFilter :=
  { saveSpec sfp sfSpec i with
    depth := Function.update sfp.depth sfSpec.type (max (sfp.depth sfSpec.type) d) }

@[simp] theorem saved_tbl (sfp : SienaFilter) (sfSpec : SienaFilterSpec) (i d : ℕ) :
    (saved sfp sfSpec i d).tbl = (saveSpec sfp sfSpec i).tbl := rfl

theorem saved_of_le {sfp : SienaFilter} {sfSpec : SienaFilterSpec} {d : ℕ}
    (h : ¬ sfp.depth sfSpec.type < d) (i : ℕ) : saved sfp sfSpec i d = saveSpec sfp sfSpec i := by
  unfold saved
  rw [max_eq_left (by omega), Function.update_eq_self]
  rfl

/-- The registers after pushing the limits of a type's bank. -/
def limitsPushed (bar : Bar) (sfp : SienaFilter) (type : SienaFilterType) : Bar :=
  bar.write (limitReg type) (setFields (bar.reg (limitReg type)) (limitFields sfp (bank type)))

theorem saveSpec_size (sfp : SienaFilter) (sfSpec : SienaFilterSpec) (i : ℕ) (t : SienaFilterTblId) :
    ((saveSpec sfp sfSpec i).tbl t).size = (sfp.tbl t).size := by
  unfold saveSpec
  by_cases h : t = sienaFilterTblId sfSpec.type
  · subst h; rw [setTbl_self]; rfl
  · rw [setTbl_ne _ _ h]

/-- The registers after installing: the limits where the depth grew, then the row. -/
def installedBar (nic : Nic) (sfSpec : SienaFilterSpec) (filter : Oword) (i d : ℕ) : Bar :=
  (if nic.filter.depth sfSpec.type < d then
      limitsPushed nic.bar (saved nic.filter sfSpec i d) sfSpec.type
    else nic.bar).write (rowOfst (sienaFilterTblId sfSpec.type) i) filter

theorem saved_of_lt {sfp : SienaFilter} {sfSpec : SienaFilterSpec} {d : ℕ}
    (h : sfp.depth sfSpec.type < d) (i : ℕ) : saved sfp sfSpec i d =
      { saveSpec sfp sfSpec i with depth := Function.update sfp.depth sfSpec.type d } := by
  unfold saved
  rw [max_eq_right (by omega)]

theorem tx_bank {type : SienaFilterType}
    (h : sienaFilterTblId type = TX_IP ∨ sienaFilterTblId type = TX_MAC) :
    limitReg type = FR_AZ_TX_CFG_REG ∧ bank type = txTypes := by
  revert h
  cases type <;> decide

theorem rx_bank {type : SienaFilterType}
    (h : ¬ (sienaFilterTblId type = TX_IP ∨ sienaFilterTblId type = TX_MAC)) :
    limitReg type = FR_AZ_RX_FILTER_CTL_REG ∧ bank type = rxTypes := by
  revert h
  cases type <;> decide

theorem install_run {nic : Nic} (hsize : ∀ t, (nic.filter.tbl t).size ≠ 0)
    (sfSpec : SienaFilterSpec) (filter : Oword) (i d : ℕ) :
    (sienaFilterInstall sfSpec filter i d : Prog Nic Errno Unit) nic =
      .ret () ⟨saved nic.filter sfSpec i d, installedBar nic sfSpec filter i d⟩ := by
  have hs : ∀ t, ((saved nic.filter sfSpec i d).tbl t).size ≠ 0 := fun t => by
    rw [saved_tbl, saveSpec_size]
    exact hsize t
  rw [installedBar]
  unfold sienaFilterInstall
  simp only [bind_apply, get_apply, Res.bind_ret, putFilter]
  have hdepth : (nic.filter.setTbl (sienaFilterTblId sfSpec.type)
      ((sienaFilterSetUsed (nic.filter.tbl (sienaFilterTblId sfSpec.type)) i).setSpec i sfSpec)).depth =
      nic.filter.depth := rfl
  rw [hdepth]
  by_cases hd : nic.filter.depth sfSpec.type < d
  swap
  · rw [if_neg hd, if_neg hd, saved_of_le hd]
    rfl
  rw [if_pos hd, if_pos hd]
  by_cases ht : sienaFilterTblId sfSpec.type = TX_IP ∨ sienaFilterTblId sfSpec.type = TX_MAC
  · have hpush : (onBar (sienaFilterPushTxLimits (saved nic.filter sfSpec i d)) : Prog Nic Errno Unit)
        ⟨saved nic.filter sfSpec i d, nic.bar⟩ = .ret () ⟨saved nic.filter sfSpec i d,
          limitsPushed nic.bar (saved nic.filter sfSpec i d) sfSpec.type⟩ := by
      rw [limitsPushed, (tx_bank ht).1, (tx_bank ht).2]
      exact zoom_of_ret (pushTx_run (hs TX_IP) (hs TX_MAC) nic.bar)
    rw [if_pos ht]
    rw [saved_of_lt hd] at hpush ⊢
    exact bind_of_ret (f := fun _ => onBar (sienaFilterPushEntry sfSpec.type i filter)) hpush
  · have hpush : (onBar (sienaFilterPushRxLimits (saved nic.filter sfSpec i d)) : Prog Nic Errno Unit)
        ⟨saved nic.filter sfSpec i d, nic.bar⟩ = .ret () ⟨saved nic.filter sfSpec i d,
          limitsPushed nic.bar (saved nic.filter sfSpec i d) sfSpec.type⟩ := by
      rw [limitsPushed, (rx_bank ht).1, (rx_bank ht).2]
      exact zoom_of_ret (pushRx_run (hs RX_MAC) nic.bar)
    rw [if_neg ht]
    rw [saved_of_lt hd] at hpush ⊢
    exact bind_of_ret (f := fun _ => onBar (sienaFilterPushEntry sfSpec.type i filter)) hpush

theorem tblRows_pos (t : SienaFilterTblId) : 0 < tblRows t := by
  cases t <;> decide

/-- **Add**, which may not replace: it leaves with a return code and changes nothing, or installs the
spec in the unused row that the search found. -/
theorem add_cases {nic : Nic} (hP : Placed nic.filter) {spec : EfxFilterSpec}
    {sfSpec : SienaFilterSpec} (hspec : sienaFilterSpecFromGenSpec spec = .ok sfSpec) :
    (∃ e, sienaFilterSearch (nic.filter.tbl (sienaFilterTblId sfSpec.type)) sfSpec
        (filterKey sfSpec) true = .error e ∧ sienaFilterAdd spec false nic = .err e nic) ∨
    (∃ i d, sienaFilterSearch (nic.filter.tbl (sienaFilterTblId sfSpec.type)) sfSpec
        (filterKey sfSpec) true = .ok (i, d) ∧
      sienaFilterTestUsed (nic.filter.tbl (sienaFilterTblId sfSpec.type)) i = true ∧
      sienaFilterAdd spec false nic = .err EEXIST nic) ∨
    (∃ i d, sienaFilterSearch (nic.filter.tbl (sienaFilterTblId sfSpec.type)) sfSpec
        (filterKey sfSpec) true = .ok (i, d) ∧
      sienaFilterTestUsed (nic.filter.tbl (sienaFilterTblId sfSpec.type)) i = false ∧
      sienaFilterAdd spec false nic = .ret () ⟨saved nic.filter sfSpec i d,
        installedBar nic sfSpec (sienaFilterBuild sfSpec).1 i d⟩) := by
  have hsize : ∀ t, (nic.filter.tbl t).size ≠ 0 := fun t => by
    rw [hP.size]
    exact (tblRows_pos t).ne'
  have hget : (Prog.get : Prog Nic Errno Nic) nic = .ret nic nic := rfl
  have hfail : ∀ e, sienaFilterSearch (nic.filter.tbl (sienaFilterTblId sfSpec.type)) sfSpec
      (filterKey sfSpec) true = .error e → sienaFilterAdd spec false nic = .err e nic := by
    intro e hsearch
    rw [filterKey] at hsearch
    unfold sienaFilterAdd
    rw [hspec]
    dsimp only
    rw [bind_of_ret hget, bind_of_ret (ensure_pos (hsize _)), hsearch]
    rfl
  have hfound : ∀ i d, sienaFilterSearch (nic.filter.tbl (sienaFilterTblId sfSpec.type)) sfSpec
      (filterKey sfSpec) true = .ok (i, d) →
      sienaFilterAdd spec false nic = (do
        ensure (¬ (sienaFilterTestUsed (nic.filter.tbl (sienaFilterTblId sfSpec.type)) i ∧ false = false)) EEXIST
        sienaFilterInstall sfSpec (sienaFilterBuild sfSpec).1 i d : Prog Nic Errno Unit) nic := by
    intro i d hsearch
    rw [filterKey] at hsearch
    unfold sienaFilterAdd
    rw [hspec]
    dsimp only
    rw [bind_of_ret hget, bind_of_ret (ensure_pos (hsize _)), hsearch]
  cases hsearch : sienaFilterSearch (nic.filter.tbl (sienaFilterTblId sfSpec.type)) sfSpec
      (filterKey sfSpec) true with
  | error e => exact Or.inl ⟨e, rfl, hfail e hsearch⟩
  | ok r =>
    obtain ⟨i, d⟩ := r
    right
    have h := hfound i d hsearch
    cases hu : sienaFilterTestUsed (nic.filter.tbl (sienaFilterTblId sfSpec.type)) i with
    | true =>
      refine Or.inl ⟨i, d, rfl, hu, ?_⟩
      rw [h, bind_of_err (ensure_neg (by simp [hu]))]
    | false =>
      refine Or.inr ⟨i, d, rfl, hu, ?_⟩
      rw [h, bind_of_ret (ensure_pos (by simp [hu]))]
      exact install_run hsize sfSpec _ i d

theorem clearEntry_unused {nic : Nic} {t : SienaFilterTblId} {i : ℕ}
    (h : sienaFilterTestUsed (nic.filter.tbl t) i = false) :
    (sienaFilterClearEntry t i : Prog Nic ε Unit) nic = .ret () nic := by
  unfold sienaFilterClearEntry
  simp only [bind_apply, get_apply, Res.bind_ret, h]
  rfl

theorem clearEntry_used {nic : Nic} {t : SienaFilterTblId} {i : ℕ}
    (h : sienaFilterTestUsed (nic.filter.tbl t) i = true) :
    (sienaFilterClearEntry t i : Prog Nic ε Unit) nic =
      .ret () ⟨dropSpec nic.filter t i,
        nic.bar.write (rowOfst (sienaFilterTblId ((nic.filter.tbl t).spec i).type) i) Oword.zero⟩ := by
  unfold sienaFilterClearEntry
  simp only [bind_apply, get_apply, Res.bind_ret, h, if_true]
  rfl

/-- The state after `resetIfEmpty`. -/
def emptied (nic : Nic) (t : SienaFilterTblId) : Nic :=
  if (nic.filter.tbl t).used = 0 then { nic with filter := sienaFilterResetSearchDepth nic.filter t }
  else nic

theorem resetIfEmpty_run (nic : Nic) (t : SienaFilterTblId) :
    (resetIfEmpty t : Prog Nic ε Unit) nic = .ret () (emptied nic t) := by
  unfold resetIfEmpty emptied
  simp only [bind_apply, get_apply, Res.bind_ret]
  split_ifs <;> rfl

/-- **Delete**: it leaves with a return code and changes nothing, or clears the row that the search
found. -/
theorem delete_cases (nic : Nic) {spec : EfxFilterSpec} {sfSpec : SienaFilterSpec}
    (hspec : sienaFilterSpecFromGenSpec spec = .ok sfSpec) :
    (∃ e, sienaFilterSearch (nic.filter.tbl (sienaFilterTblId sfSpec.type)) sfSpec
        (filterKey sfSpec) false = .error e ∧ sienaFilterDelete spec nic = .err e nic) ∨
    (∃ i d, sienaFilterSearch (nic.filter.tbl (sienaFilterTblId sfSpec.type)) sfSpec
        (filterKey sfSpec) false = .ok (i, d) ∧
      sienaFilterTestUsed (nic.filter.tbl (sienaFilterTblId sfSpec.type)) i = true ∧
      sienaFilterEqual sfSpec ((nic.filter.tbl (sienaFilterTblId sfSpec.type)).spec i) = true ∧
      sienaFilterDelete spec nic = .ret () (emptied
        ⟨dropSpec nic.filter (sienaFilterTblId sfSpec.type) i, nic.bar.write (rowOfst
          (sienaFilterTblId ((nic.filter.tbl (sienaFilterTblId sfSpec.type)).spec i).type) i)
            Oword.zero⟩ (sienaFilterTblId sfSpec.type))) := by
  have hget : (Prog.get : Prog Nic Errno Nic) nic = .ret nic nic := rfl
  have hfail : ∀ e, sienaFilterSearch (nic.filter.tbl (sienaFilterTblId sfSpec.type)) sfSpec
      (filterKey sfSpec) false = .error e → sienaFilterDelete spec nic = .err e nic := by
    intro e hsearch
    rw [filterKey] at hsearch
    unfold sienaFilterDelete
    rw [hspec]
    dsimp only
    rw [bind_of_ret hget, hsearch]
    rfl
  have hfound : ∀ i d, sienaFilterSearch (nic.filter.tbl (sienaFilterTblId sfSpec.type)) sfSpec
      (filterKey sfSpec) false = .ok (i, d) →
      sienaFilterDelete spec nic = (do
        sienaFilterClearEntry (sienaFilterTblId sfSpec.type) i
        resetIfEmpty (sienaFilterTblId sfSpec.type) : Prog Nic Errno Unit) nic := by
    intro i d hsearch
    rw [filterKey] at hsearch
    unfold sienaFilterDelete
    rw [hspec]
    dsimp only
    rw [bind_of_ret hget, hsearch]
  cases hsearch : sienaFilterSearch (nic.filter.tbl (sienaFilterTblId sfSpec.type)) sfSpec
      (filterKey sfSpec) false with
  | error e => exact Or.inl ⟨e, rfl, hfail e hsearch⟩
  | ok r =>
    obtain ⟨i, d⟩ := r
    obtain ⟨k, -, rfl, rfl, hs, -⟩ := search_ok hsearch
    cases hu : sienaFilterTestUsed (nic.filter.tbl (sienaFilterTblId sfSpec.type))
        (probePos (nic.filter.tbl (sienaFilterTblId sfSpec.type)).size (filterKey sfSpec) k) with
    | false => simp [Stops, hu] at hs
    | true =>
      refine Or.inr ⟨_, _, rfl, hu, by simpa [Stops, hu] using hs, ?_⟩
      rw [hfound _ _ hsearch, bind_of_ret (clearEntry_used hu), resetIfEmpty_run]

/-! ### The software invariant -/

/-- The used rows of a table. -/
def usedRows (sftp : SienaFilterTbl) : Finset ℕ :=
  (Finset.range sftp.size).filter fun i => sienaFilterTestUsed sftp i = true

/-- Entries are where the searches for them look. -/
structure Chained (sfp : SienaFilter) : Prop where
  placed : Placed sfp
  bound : ∀ t i, sienaFilterTestUsed (sfp.tbl t) i → i < (sfp.tbl t).size
  chain : ∀ t i, sienaFilterTestUsed (sfp.tbl t) i →
    ∃ k, k < sfp.depth ((sfp.tbl t).spec i).type ∧
      i = probePos (sfp.tbl t).size (filterKey ((sfp.tbl t).spec i)) k
  depth_le : ∀ type, sfp.depth type ≤ FILTER_CTL_SRCH_MAX
  count : ∀ t, (sfp.tbl t).used = (usedRows (sfp.tbl t)).card

theorem testUsed_init (t : SienaFilterTblId) (i : ℕ) :
    sienaFilterTestUsed (sienaFilterInit.tbl t) i = false := by
  simp [sienaFilterTestUsed, sienaFilterInit]

theorem mem_usedRows {sftp : SienaFilterTbl} {i : ℕ} :
    i ∈ usedRows sftp ↔ i < sftp.size ∧ sienaFilterTestUsed sftp i = true := by
  simp [usedRows]

theorem chained_init : Chained sienaFilterInit where
  placed := placed_init
  bound t i h := by rw [testUsed_init] at h; cases h
  chain t i h := by rw [testUsed_init] at h; cases h
  depth_le _ := Nat.zero_le _
  count t := by
    have h : usedRows (sienaFilterInit.tbl t) = ∅ := by
      ext i
      simp [mem_usedRows, testUsed_init]
    rw [h]
    rfl

theorem usedRows_setUsed {sftp : SienaFilterTbl} {i : ℕ} (hi : i < sftp.size) (spec : SienaFilterSpec) :
    usedRows ((sienaFilterSetUsed sftp i).setSpec i spec) = insert i (usedRows sftp) := by
  ext j
  rw [Finset.mem_insert, mem_usedRows, mem_usedRows, testUsed_setSpec, testUsed_setUsed, size_setSpec,
    size_setUsed, Bool.or_eq_true, decide_eq_true_iff]
  constructor
  · rintro ⟨h1, h2 | h2⟩
    · exact Or.inl h2
    · exact Or.inr ⟨h1, h2⟩
  · rintro (rfl | ⟨h1, h2⟩)
    · exact ⟨hi, Or.inl rfl⟩
    · exact ⟨h1, Or.inr h2⟩

theorem usedRows_clearUsed (sftp : SienaFilterTbl) (i : ℕ) (spec : SienaFilterSpec) :
    usedRows ((sienaFilterClearUsed sftp i).setSpec i spec) = (usedRows sftp).erase i := by
  ext j
  rw [Finset.mem_erase, mem_usedRows, mem_usedRows, testUsed_setSpec, testUsed_clearUsed, size_setSpec,
    size_clearUsed, Bool.and_eq_true, Bool.not_eq_true', decide_eq_false_iff_not]
  tauto

theorem count_setUsed {sftp : SienaFilterTbl} {i : ℕ} (hi : i < sftp.size)
    (hu : sienaFilterTestUsed sftp i = false) (spec : SienaFilterSpec)
    (h : sftp.used = (usedRows sftp).card) :
    ((sienaFilterSetUsed sftp i).setSpec i spec).used =
      (usedRows ((sienaFilterSetUsed sftp i).setSpec i spec)).card := by
  have hnot : i ∉ usedRows sftp := by
    rw [mem_usedRows, hu]
    simp
  rw [usedRows_setUsed hi, Finset.card_insert_of_notMem hnot]
  push_cast
  rw [← h]
  rfl

theorem count_clearUsed {sftp : SienaFilterTbl} {i : ℕ} (hi : i < sftp.size)
    (hu : sienaFilterTestUsed sftp i = true) (spec : SienaFilterSpec)
    (h : sftp.used = (usedRows sftp).card) :
    ((sienaFilterClearUsed sftp i).setSpec i spec).used =
      (usedRows ((sienaFilterClearUsed sftp i).setSpec i spec)).card := by
  have hmem : i ∈ usedRows sftp := mem_usedRows.mpr ⟨hi, hu⟩
  have hcard := Finset.card_erase_add_one hmem
  rw [usedRows_clearUsed]
  change sftp.used - 1 = _
  omega

/-- Saving a spec at its place in an unused row. -/
theorem chained_saved {sfp : SienaFilter} (h : Chained sfp) {sfSpec : SienaFilterSpec} {k : ℕ}
    (hk : k < FILTER_CTL_SRCH_MAX)
    (hu : sienaFilterTestUsed (sfp.tbl (sienaFilterTblId sfSpec.type))
      (probePos (sfp.tbl (sienaFilterTblId sfSpec.type)).size (filterKey sfSpec) k) = false) :
    Chained (saved sfp sfSpec
      (probePos (sfp.tbl (sienaFilterTblId sfSpec.type)).size (filterKey sfSpec) k) (k + 1)) := by
  have hlt : probePos (sfp.tbl (sienaFilterTblId sfSpec.type)).size (filterKey sfSpec) k <
      (sfp.tbl (sienaFilterTblId sfSpec.type)).size := by
    refine probePos_lt ?_ _ _
    rw [h.placed.size]
    exact tblRows_pos _
  generalize hi : probePos (sfp.tbl (sienaFilterTblId sfSpec.type)).size (filterKey sfSpec) k = i at *
  have hmono : ∀ type, sfp.depth type ≤ (saved sfp sfSpec i (k + 1)).depth type := by
    intro type
    simp only [saved]
    by_cases ht : type = sfSpec.type
    · subst ht; simp
    · simp [ht]
  refine ⟨placed_of_tbl (placed_saveSpec h.placed sfSpec i) rfl, ?_, ?_, ?_, ?_⟩
  · intro t j hj
    rw [saved_tbl] at hj ⊢
    rw [saveSpec_size]
    by_cases ht : t = sienaFilterTblId sfSpec.type
    · subst ht
      rw [saveSpec, setTbl_self, testUsed_setSpec, testUsed_setUsed] at hj
      by_cases hji : j = i
      · rw [hji]; exact hlt
      · exact h.bound _ j (by simpa [hji] using hj)
    · rw [saveSpec, setTbl_ne _ _ ht] at hj
      exact h.bound t j hj
  · intro t j hj
    rw [saved_tbl] at hj ⊢
    rw [saveSpec_size]
    by_cases ht : t = sienaFilterTblId sfSpec.type
    · subst ht
      rw [saveSpec, setTbl_self, testUsed_setSpec, testUsed_setUsed] at hj
      rw [saveSpec, setTbl_self]
      by_cases hji : j = i
      · subst hji
        refine ⟨k, ?_, ?_⟩
        · simp [saved]
        · simp [hi]
      · obtain ⟨n, h1, h2⟩ := h.chain _ j (by simpa [hji] using hj)
        rw [spec_setSpec, spec_setUsed, Function.update_of_ne hji]
        exact ⟨n, lt_of_lt_of_le h1 (hmono _), h2⟩
    · rw [saveSpec, setTbl_ne _ _ ht] at hj ⊢
      obtain ⟨n, h1, h2⟩ := h.chain t j hj
      exact ⟨n, lt_of_lt_of_le h1 (hmono _), h2⟩
  · intro type
    have h1 := h.depth_le type
    simp only [saved]
    by_cases ht : type = sfSpec.type
    · subst ht
      simp only [Function.update_self]
      omega
    · simpa [ht] using h1
  · intro t
    rw [saved_tbl]
    by_cases ht : t = sienaFilterTblId sfSpec.type
    · subst ht
      rw [saveSpec, setTbl_self]
      exact count_setUsed hlt hu sfSpec (h.count _)
    · rw [saveSpec, setTbl_ne _ _ ht]
      exact h.count t

/-- Clearing a used row. -/
theorem chained_dropSpec {sfp : SienaFilter} (h : Chained sfp) {t : SienaFilterTblId} {i : ℕ}
    (hu : sienaFilterTestUsed (sfp.tbl t) i = true) : Chained (dropSpec sfp t i) := by
  have hsize : ∀ u, ((dropSpec sfp t i).tbl u).size = (sfp.tbl u).size := fun u => by
    by_cases ht : u = t
    · subst ht; rw [dropSpec, setTbl_self]; rfl
    · rw [dropSpec, setTbl_ne _ _ ht]
  have hold : ∀ u j, sienaFilterTestUsed ((dropSpec sfp t i).tbl u) j →
      sienaFilterTestUsed (sfp.tbl u) j ∧ ((dropSpec sfp t i).tbl u).spec j = (sfp.tbl u).spec j := by
    intro u j hj
    by_cases ht : u = t
    · subst ht
      rw [dropSpec, setTbl_self, testUsed_setSpec, testUsed_clearUsed] at hj
      rw [dropSpec, setTbl_self]
      by_cases hji : j = i
      · simp [hji] at hj
      · exact ⟨by simpa [hji] using hj, by simp [hji]⟩
    · rw [dropSpec, setTbl_ne _ _ ht] at hj ⊢
      exact ⟨hj, rfl⟩
  refine ⟨placed_dropSpec h.placed t i, ?_, ?_, h.depth_le, ?_⟩
  · intro u j hj
    rw [hsize]
    exact h.bound u j (hold u j hj).1
  · intro u j hj
    obtain ⟨h1, h2⟩ := hold u j hj
    rw [hsize, h2]
    exact h.chain u j h1
  · intro u
    by_cases ht : u = t
    · subst ht
      rw [dropSpec, setTbl_self]
      exact count_clearUsed (h.bound u i hu) hu _ (h.count u)
    · rw [dropSpec, setTbl_ne _ _ ht]
      exact h.count u

/-- Resetting the depths of a table without entries. -/
theorem chained_emptied {nic : Nic} (h : Chained nic.filter) (t : SienaFilterTblId) :
    Chained (emptied nic t).filter := by
  unfold emptied
  split_ifs with h0
  swap
  · exact h
  have hnone : ∀ i, ¬ sienaFilterTestUsed (nic.filter.tbl t) i = true := by
    intro i hi
    have hmem : i ∈ usedRows (nic.filter.tbl t) := mem_usedRows.mpr ⟨h.bound t i hi, hi⟩
    have hcard : (usedRows (nic.filter.tbl t)).card = 0 := by
      have := h.count t
      omega
    rw [Finset.card_eq_zero] at hcard
    rw [hcard] at hmem
    cases hmem
  refine ⟨placed_of_tbl h.placed rfl, h.bound, ?_, ?_, h.count⟩
  · intro u j hj
    obtain ⟨k, h1, h2⟩ := h.chain u j hj
    have hne : sienaFilterTblId ((nic.filter.tbl u).spec j).type ≠ t := by
      intro he
      rw [h.placed.type u j hj] at he
      subst he
      exact hnone j hj
    exact ⟨k, by simpa [sienaFilterResetSearchDepth, hne] using h1, h2⟩
  · intro type
    have := h.depth_le type
    simp only [sienaFilterResetSearchDepth]
    split_ifs
    · exact Nat.zero_le _
    · exact this

/-! ### The hardware -/

/-- The registers say what the tables say. -/
structure Programmed (nic : Nic) : Prop where
  limit : ∀ type, 0 < nic.filter.depth type →
    nic.filter.depth type + limitFudge type ≤ hwLimit nic.bar type
  row : ∀ t i, i < tblRows t → nic.bar.reg (rowOfst t i) =
    if sienaFilterTestUsed (nic.filter.tbl t) i then (sienaFilterBuild ((nic.filter.tbl t).spec i)).1
    else Oword.zero

theorem rowOfst_ne_limitReg (t : SienaFilterTblId) (i : ℕ) (type : SienaFilterType) :
    rowOfst t i ≠ limitReg type := by
  have h := rowOfst_ge t i
  have hreg : limitReg type < 0x00f00000 := by cases type <;> decide
  omega

theorem hwLimit_row (bar : Bar) (t : SienaFilterTblId) (i : ℕ) (o : Oword) (type : SienaFilterType) :
    hwLimit (bar.write (rowOfst t i) o) type = hwLimit bar type := by
  rw [hwLimit, write_reg_ne _ _ (rowOfst_ne_limitReg t i type).symm]
  rfl

theorem mem_bank_self (type : SienaFilterType) : type ∈ bank type := by
  cases type <;> decide

theorem bank_apart (type : SienaFilterType) : ((bank type).map limitField).Pairwise Field.Apart := by
  cases type <;> decide

theorem limitReg_eq_iff (ty type : SienaFilterType) : limitReg ty = limitReg type ↔ ty ∈ bank type := by
  cases ty <;> cases type <;> decide

theorem hwLimit_pushed {sfp : SienaFilter} (hd : ∀ type, sfp.depth type ≤ FILTER_CTL_SRCH_MAX)
    (bar : Bar) (type ty : SienaFilterType) :
    hwLimit (limitsPushed bar sfp type) ty =
      if ty ∈ bank type then sfp.depth ty + limitFudge ty else hwLimit bar ty := by
  split_ifs with h
  · have hreg := (limitReg_eq_iff ty type).mpr h
    rw [hwLimit, hreg, limitsPushed, write_reg_self]
    exact field_limits hd (bank_apart type) h _
  · have hreg : limitReg ty ≠ limitReg type := fun he => h ((limitReg_eq_iff ty type).mp he)
    rw [hwLimit, limitsPushed, write_reg_ne _ _ hreg]
    rfl

/-- Installing keeps the registers in step with the tables. -/
theorem programmed_installed {nic : Nic} (h : Programmed nic) {sfSpec : SienaFilterSpec} {i d : ℕ}
    (hi : i < tblRows (sienaFilterTblId sfSpec.type))
    (hd : ∀ type, (saved nic.filter sfSpec i d).depth type ≤ FILTER_CTL_SRCH_MAX) :
    Programmed ⟨saved nic.filter sfSpec i d,
      installedBar nic sfSpec (sienaFilterBuild sfSpec).1 i d⟩ := by
  constructor
  · intro type hpos
    change (saved nic.filter sfSpec i d).depth type + _ ≤ _
    rw [installedBar, hwLimit_row]
    split_ifs with hlt
    · rw [hwLimit_pushed hd]
      split_ifs with hb
      · exact le_refl _
      · -- another bank: depth and limit are as before
        have hne : type ≠ sfSpec.type := fun he => hb (he ▸ mem_bank_self _)
        have hsame : (saved nic.filter sfSpec i d).depth type = nic.filter.depth type := by
          simp [saved, hne]
        rw [hsame]
        exact h.limit type (by rw [← hsame]; exact hpos)
    · have hsame : (saved nic.filter sfSpec i d).depth = nic.filter.depth := by
        rw [saved_of_le hlt]
        rfl
      rw [hsame]
      exact h.limit type (by rw [← hsame]; exact hpos)
  · intro t j hj
    have hbar : ∀ u n, (if nic.filter.depth sfSpec.type < d then
        limitsPushed nic.bar (saved nic.filter sfSpec i d) sfSpec.type else nic.bar).reg (rowOfst u n) =
        nic.bar.reg (rowOfst u n) := by
      intro u n
      split_ifs
      · exact write_reg_ne _ _ (rowOfst_ne_limitReg u n sfSpec.type)
      · rfl
    change (installedBar nic sfSpec (sienaFilterBuild sfSpec).1 i d).reg _ = _
    rw [saved_tbl, installedBar]
    by_cases hp : rowOfst t j = rowOfst (sienaFilterTblId sfSpec.type) i
    · obtain ⟨rfl, rfl⟩ := rowOfst_inj hj hi hp
      rw [write_reg_self, saveSpec, setTbl_self, testUsed_setSpec, testUsed_setUsed]
      simp
    · rw [write_reg_ne _ _ hp, hbar, h.row t j hj, saveSpec]
      by_cases ht : t = sienaFilterTblId sfSpec.type
      · subst ht
        have hji : j ≠ i := fun he => hp (by rw [he])
        rw [setTbl_self, testUsed_setSpec, testUsed_setUsed]
        simp [hji]
      · rw [setTbl_ne _ _ ht]

/-- Clearing a row keeps the registers in step with the tables. -/
theorem programmed_dropSpec {nic : Nic} (h : Programmed nic) {t : SienaFilterTblId} {i : ℕ}
    (hi : i < tblRows t) :
    Programmed ⟨dropSpec nic.filter t i, nic.bar.write (rowOfst t i) Oword.zero⟩ := by
  constructor
  · intro type hpos
    rw [hwLimit_row]
    exact h.limit type hpos
  · intro u j hj
    change (nic.bar.write (rowOfst t i) Oword.zero).reg _ = _
    by_cases hp : rowOfst u j = rowOfst t i
    · obtain ⟨rfl, rfl⟩ := rowOfst_inj hj hi hp
      rw [write_reg_self, dropSpec, setTbl_self, testUsed_setSpec, testUsed_clearUsed]
      simp
    · rw [write_reg_ne _ _ hp, h.row u j hj, dropSpec]
      by_cases ht : u = t
      · subst ht
        have hji : j ≠ i := fun he => hp (by rw [he])
        rw [setTbl_self, testUsed_setSpec, testUsed_clearUsed]
        simp [hji]
      · rw [setTbl_ne _ _ ht]

theorem programmed_emptied {nic : Nic} (h : Programmed nic) (t : SienaFilterTblId) :
    Programmed (emptied nic t) := by
  unfold emptied
  split_ifs
  swap
  · exact h
  refine ⟨fun type hpos => ?_, h.row⟩
  simp only [sienaFilterResetSearchDepth] at hpos ⊢
  split_ifs at hpos ⊢
  · omega
  · exact h.limit type hpos

/-! ### Runs -/

/-- Tables and registers together. -/
def Kept (nic : Nic) : Prop := Chained nic.filter ∧ Programmed nic

theorem chained_add {nic : Nic} (h : Chained nic.filter) (spec : EfxFilterSpec) :
    (sienaFilterAdd spec false).Does nic fun nic' =>
      Chained nic'.filter ∧ (Programmed nic → Programmed nic') := by
  intro nic' h'
  cases hspec : sienaFilterSpecFromGenSpec spec with
  | error rc =>
    unfold sienaFilterAdd at h'
    rw [hspec] at h'
    cases h'
    exact ⟨h, id⟩
  | ok sfSpec =>
    rcases add_cases h.placed hspec with ⟨e, -, hr⟩ | ⟨i, d, -, -, hr⟩ | ⟨i, d, hsearch, hu, hr⟩
    · rw [hr] at h'; cases h'; exact ⟨h, id⟩
    · rw [hr] at h'; cases h'; exact ⟨h, id⟩
    · rw [hr] at h'
      cases h'
      obtain ⟨k, hk, rfl, rfl, -, -⟩ := search_ok hsearch
      have hc := chained_saved h hk hu
      refine ⟨hc, fun hp => programmed_installed hp ?_ hc.depth_le⟩
      rw [← h.placed.size]
      exact probePos_lt (by rw [h.placed.size]; exact tblRows_pos _) _ _

theorem chained_clearEntry {nic : Nic} (h : Chained nic.filter) (t : SienaFilterTblId) (i : ℕ) :
    (sienaFilterClearEntry t i : Prog Nic Errno Unit).Does nic fun nic' =>
      Chained nic'.filter ∧ (Programmed nic → Programmed nic') := by
  intro nic' h'
  cases hu : sienaFilterTestUsed (nic.filter.tbl t) i with
  | false =>
    rw [clearEntry_unused hu] at h'
    cases h'
    exact ⟨h, id⟩
  | true =>
    rw [clearEntry_used hu, h.placed.type t i hu] at h'
    cases h'
    refine ⟨chained_dropSpec h hu, fun hp => programmed_dropSpec hp ?_⟩
    rw [← h.placed.size]
    exact h.bound t i hu

theorem chained_delete {nic : Nic} (h : Chained nic.filter) (spec : EfxFilterSpec) :
    (sienaFilterDelete spec).Does nic fun nic' =>
      Chained nic'.filter ∧ (Programmed nic → Programmed nic') := by
  intro nic' h'
  cases hspec : sienaFilterSpecFromGenSpec spec with
  | error rc =>
    unfold sienaFilterDelete at h'
    rw [hspec] at h'
    cases h'
    exact ⟨h, id⟩
  | ok sfSpec =>
    rcases delete_cases nic hspec with ⟨e, -, hr⟩ | ⟨i, d, -, hu, -, hr⟩
    · rw [hr] at h'; cases h'; exact ⟨h, id⟩
    · rw [hr, h.placed.type _ i hu] at h'
      cases h'
      refine ⟨chained_emptied (chained_dropSpec h hu) _, fun hp => programmed_emptied ?_ _⟩
      refine programmed_dropSpec hp ?_
      rw [← h.placed.size]
      exact h.bound _ i hu

theorem chained_tblClear {nic : Nic} (h : Chained nic.filter) (t : SienaFilterTblId) :
    (sienaFilterTblClear t : Prog Nic Errno Unit).Does nic fun nic' =>
      Chained nic'.filter ∧ (Programmed nic → Programmed nic') := by
  unfold sienaFilterTblClear
  refine does_bind (fun nic0 nic1 h1 => ?_) (fun _ _ h1 => by cases h1)
  cases h1
  have hall : (forEach (sienaFilterClearEntry t) (List.range (nic.filter.tbl t).size) :
      Prog Nic Errno Unit).Does nic fun nic' =>
        Chained nic'.filter ∧ (Programmed nic → Programmed nic') := by
    refine does_forEach (fun nic' : Nic => Chained nic'.filter ∧ (Programmed nic → Programmed nic'))
      ⟨h, id⟩ fun i nic1 _ hI nic2 h2 => ?_
    obtain ⟨h3, h4⟩ := chained_clearEntry hI.1 t i nic2 h2
    exact ⟨h3, fun hp => h4 (hI.2 hp)⟩
  refine does_bind (fun _ nic1 h1 => ?_) (fun _ nic1 h1 => hall nic1 (by rw [h1]; rfl))
  obtain ⟨h3, h4⟩ := hall nic1 (by rw [h1]; rfl)
  exact does_of_ret (resetIfEmpty_run nic1 t)
    ⟨chained_emptied h3 t, fun hp => programmed_emptied (h4 hp) t⟩

/-- One call of the filter API, with `may_replace` false as `efx_filter_insert` passes it. -/
inductive TableStep (nic nic' : Nic) : Prop
  | add (spec : EfxFilterSpec) : (sienaFilterAdd spec false nic).state? = some nic' → TableStep nic nic'
  | delete (spec : EfxFilterSpec) :
      (sienaFilterDelete spec nic).state? = some nic' → TableStep nic nic'
  | tblClear (t : SienaFilterTblId) :
      (sienaFilterTblClear (ε := Errno) t nic).state? = some nic' → TableStep nic nic'

/-- A NIC after `siena_filter_init`, with the filter rows of a reset device. -/
def Blank (nic : Nic) : Prop :=
  nic.filter = sienaFilterInit ∧ ∀ t i, i < tblRows t → nic.bar.reg (rowOfst t i) = Oword.zero

theorem kept_blank {nic : Nic} (h : Blank nic) : Kept nic := by
  obtain ⟨h1, h2⟩ := h
  refine ⟨by rw [h1]; exact chained_init, ?_, ?_⟩
  · intro type hpos
    rw [h1] at hpos
    cases hpos
  · intro t i hi
    rw [h1, testUsed_init]
    exact h2 t i hi

/-- **Step lemma.** -/
theorem kept_step {nic nic' : Nic} (h : Kept nic) (hs : TableStep nic nic') : Kept nic' := by
  cases hs with
  | add spec h' =>
    obtain ⟨h1, h2⟩ := chained_add h.1 spec nic' h'
    exact ⟨h1, h2 h.2⟩
  | delete spec h' =>
    obtain ⟨h1, h2⟩ := chained_delete h.1 spec nic' h'
    exact ⟨h1, h2 h.2⟩
  | tblClear t h' =>
    obtain ⟨h1, h2⟩ := chained_tblClear h.1 t nic' h'
    exact ⟨h1, h2 h.2⟩

/-- **Run lemma.** -/
theorem kept_reachable {nic : Nic} (h : Reach Blank TableStep nic) : Kept nic :=
  h.inv Kept (fun _ => kept_blank) fun _ _ => kept_step

/-! ### What the tables represent -/

/-- The hardware search for the key of a filter, within the limit of its type, meets its row. -/
def HwFinds (bar : Bar) (t : SienaFilterTblId) (spec : SienaFilterSpec) : Prop :=
  ∃ d, 1 ≤ d ∧ d ≤ hwLimit bar spec.type ∧
    bar.reg (rowOfst t (probePos (tblRows t) (filterKey spec) (d - 1))) = (sienaFilterBuild spec).1

/-- The tables, the depths and the registers of a filter state agree. -/
structure Represents (nic : Nic) : Prop where
  /-- `sft_used` counts the bits of the bitmap. -/
  used_count : ∀ t, (nic.filter.tbl t).used = (usedRows (nic.filter.tbl t)).card ∧
    ∀ i, sienaFilterTestUsed (nic.filter.tbl t) i → i < tblRows t
  /-- A used entry is at the `d`-th position of its probe sequence, within the depth of its type. -/
  probe : ∀ t i, sienaFilterTestUsed (nic.filter.tbl t) i → ∃ d, 1 ≤ d ∧
    d ≤ nic.filter.depth ((nic.filter.tbl t).spec i).type ∧
    i = probePos (tblRows t) (filterKey ((nic.filter.tbl t).spec i)) (d - 1)
  depth_le : ∀ type, nic.filter.depth type ≤ 200
  /-- The hardware limit of a type that has a depth reaches that depth and its fudge. -/
  limit : ∀ type, 0 < nic.filter.depth type →
    nic.filter.depth type + limitFudge type ≤ hwLimit nic.bar type
  /-- The row of an index is the encoding of its spec if it is used and zero otherwise. -/
  row : ∀ t i, i < tblRows t → nic.bar.reg (rowOfst t i) =
    if sienaFilterTestUsed (nic.filter.tbl t) i then (sienaFilterBuild ((nic.filter.tbl t).spec i)).1
    else Oword.zero
  /-- Every installed filter is found by the hardware. -/
  found : ∀ t i, sienaFilterTestUsed (nic.filter.tbl t) i → HwFinds nic.bar t ((nic.filter.tbl t).spec i)

/-- **Representation.**  In every state that adds, deletes and clears reach from a blank NIC, tables
and hardware agree, and the hardware finds every installed filter. -/
theorem represents_reachable {nic : Nic} (h : Reach Blank TableStep nic) : Represents nic := by
  obtain ⟨hc, hp⟩ := kept_reachable h
  have hprobe : ∀ t i, sienaFilterTestUsed (nic.filter.tbl t) i → ∃ d, 1 ≤ d ∧
      d ≤ nic.filter.depth ((nic.filter.tbl t).spec i).type ∧
      i = probePos (tblRows t) (filterKey ((nic.filter.tbl t).spec i)) (d - 1) := by
    intro t i hi
    obtain ⟨k, h1, h2⟩ := hc.chain t i hi
    rw [hc.placed.size] at h2
    exact ⟨k + 1, by omega, h1, h2⟩
  have hbound : ∀ t i, sienaFilterTestUsed (nic.filter.tbl t) i → i < tblRows t := by
    intro t i hi
    rw [← hc.placed.size]
    exact hc.bound t i hi
  refine ⟨fun t => ⟨hc.count t, hbound t⟩, hprobe, hc.depth_le, hp.limit, hp.row, ?_⟩
  intro t i hi
  obtain ⟨d, h1, h2, h3⟩ := hprobe t i hi
  have hlim := hp.limit ((nic.filter.tbl t).spec i).type (by omega)
  refine ⟨d, h1, by omega, ?_⟩
  rw [← h3, hp.row t i (hbound t i hi), if_pos hi]

/-- One filter on a blank NIC. -/
theorem represents_web : Represents (nicWith (tcpLocal 0 80)) := by
  have hstep : (sienaFilterAdd (tcpLocal 0 80) false freshNic).state? =
      some (nicWith (tcpLocal 0 80)) := rfl
  exact represents_reachable (.next (.start ⟨rfl, fun _ _ _ => rfl⟩) (.add _ hstep))

/-- Before the first filter of its bank, the limit of a type has not been programmed. -/
theorem limit_unprogrammed : ¬ ∀ nic, Reach Blank TableStep nic →
    ∀ type, nic.filter.depth type + limitFudge type ≤ hwLimit nic.bar type := by
  intro h
  have h1 := h freshNic (.start ⟨rfl, fun _ _ _ => rfl⟩) RX_TCP_FULL
  revert h1
  decide

end Sfxge.Filter
