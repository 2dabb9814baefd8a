import Sfxge.Filter.Siena

/-!
# Filter.Restore — what `siena_filter_restore` achieves

`siena_filter_restore` takes the key returned by `siena_filter_build` for a return code, so it stops
at the first used entry whose key is not zero.  `restore_iff` says when a reachable filter state is
restored completely: the dwords of every installed filter cancel out.
-/

namespace Sfxge.Filter

open Lib Lib.Prog Errno SienaFilterType SienaFilterTblId

/-! ### The bitmap -/

theorem getLsbD_and_bit (w : U32) {k j : ℕ} (hj : j < 32) :
    (w &&& (1 : U32) <<< k).getLsbD j = (w.getLsbD j && decide (j = k)) := by
  rw [BitVec.getLsbD_and, BitVec.getLsbD_shiftLeft]
  by_cases hjk : j = k
  · subst hjk; simp [hj]
  · by_cases hlt : j < k
    · simp [hlt, hjk]
    · have : j - k ≠ 0 := by omega
      simp [hjk, BitVec.getLsbD_one, this]

theorem and_bit_ne_zero (w : U32) {k : ℕ} (hk : k < 32) :
    w &&& (1 : U32) <<< k ≠ 0 ↔ w.getLsbD k = true := by
  constructor
  · intro h
    by_contra hb
    apply h
    apply BitVec.eq_of_getLsbD_eq
    intro j hj
    rw [getLsbD_and_bit w hj]
    by_cases hjk : j = k
    · subst hjk; simp [hb]
    · simp [hjk]
  · intro hb h0
    have h1 := getLsbD_and_bit w (k := k) hk
    rw [h0, hb] at h1
    simp at h1

theorem testUsed_eq (sftp : SienaFilterTbl) (i : ℕ) :
    sienaFilterTestUsed sftp i = (sftp.bitmap (i / 32)).getLsbD (i % 32) := by
  have h := and_bit_ne_zero (sftp.bitmap (i / 32)) (Nat.mod_lt i (show 0 < 32 by norm_num))
  rw [sienaFilterTestUsed, Bool.eq_iff_iff, decide_eq_true_iff, h]

theorem word_bit_eq {i j : ℕ} (h1 : j / 32 = i / 32) (h2 : j % 32 = i % 32) : j = i := by omega

theorem testUsed_setUsed (sftp : SienaFilterTbl) (i j : ℕ) :
    sienaFilterTestUsed (sienaFilterSetUsed sftp i) j =
      (decide (j = i) || sienaFilterTestUsed sftp j) := by
  have hj : j % 32 < 32 := Nat.mod_lt _ (by norm_num)
  rw [testUsed_eq, testUsed_eq, sienaFilterSetUsed]
  by_cases hw : j / 32 = i / 32
  · simp only [hw, Function.update_self]
    rw [BitVec.getLsbD_or, BitVec.getLsbD_shiftLeft]
    by_cases hb : j % 32 = i % 32
    · have := word_bit_eq hw hb
      simp [this, Nat.mod_lt]
    · have hne : j ≠ i := fun h => hb (by rw [h])
      by_cases hlt : j % 32 < i % 32
      · simp [hlt, hne]
      · have : j % 32 - i % 32 ≠ 0 := by omega
        simp [hne, BitVec.getLsbD_one, this]
  · have hne : j ≠ i := fun h => hw (by rw [h])
    simp only [Function.update_of_ne hw, hne, decide_false, Bool.false_or]

theorem testUsed_clearUsed (sftp : SienaFilterTbl) (i j : ℕ) :
    sienaFilterTestUsed (sienaFilterClearUsed sftp i) j =
      (!decide (j = i) && sienaFilterTestUsed sftp j) := by
  have hj : j % 32 < 32 := Nat.mod_lt _ (by norm_num)
  rw [testUsed_eq, testUsed_eq, sienaFilterClearUsed]
  by_cases hw : j / 32 = i / 32
  · simp only [hw, Function.update_self]
    rw [BitVec.getLsbD_and, BitVec.getLsbD_not, BitVec.getLsbD_shiftLeft]
    by_cases hb : j % 32 = i % 32
    · have := word_bit_eq hw hb
      simp [this, Nat.mod_lt]
    · have hne : j ≠ i := fun h => hb (by rw [h])
      by_cases hlt : j % 32 < i % 32
      · simp [hlt, hne, hj]
      · have : j % 32 - i % 32 ≠ 0 := by omega
        simp [hne, BitVec.getLsbD_one, this, hj]
  · have hne : j ≠ i := fun h => hw (by rw [h])
    simp only [Function.update_of_ne hw, hne, decide_false, Bool.not_false, Bool.true_and]

/-! ### Reachable filter states -/

/-- One call of the filter API, whatever it returns. -/
inductive Step (nic nic' : Nic) : Prop
  | add (spec : EfxFilterSpec) (mayReplace : Bool) :
      (sienaFilterAdd spec mayReplace nic).state? = some nic' → Step nic nic'
  | delete (spec : EfxFilterSpec) : (sienaFilterDelete spec nic).state? = some nic' → Step nic nic'
  | tblClear (tblId : SienaFilterTblId) :
      (sienaFilterTblClear (ε := Errno) tblId nic).state? = some nic' → Step nic nic'

/-- A NIC after `siena_filter_init`; the registers may hold anything. -/
def Fresh (nic : Nic) : Prop := nic.filter = sienaFilterInit

def Reachable : Nic → Prop := Reach Fresh Step

/-- The tables have their rows, and every used entry is of a type of its table. -/
structure Placed (sfp : SienaFilter) : Prop where
  size : ∀ tblId, (sfp.tbl tblId).size = tblRows tblId
  type : ∀ tblId i, sienaFilterTestUsed (sfp.tbl tblId) i →
    sienaFilterTblId ((sfp.tbl tblId).spec i).type = tblId

theorem placed_init : Placed sienaFilterInit :=
  ⟨fun _ => rfl, fun tblId i h => by simp [sienaFilterInit, sienaFilterTestUsed] at h⟩

/-- Saving a spec in an entry of its table. -/
def saveSpec (sfp : SienaFilter) (sfSpec : SienaFilterSpec) (i : ℕ) : SienaFilter :=
  let tblId := sienaFilterTblId sfSpec.type
  sfp.setTbl tblId ((sienaFilterSetUsed (sfp.tbl tblId) i).setSpec i sfSpec)

/-- Clearing an entry. -/
def dropSpec (sfp : SienaFilter) (tblId : SienaFilterTblId) (i : ℕ) : SienaFilter :=
  sfp.setTbl tblId ((sienaFilterClearUsed (sfp.tbl tblId) i).setSpec i SienaFilterSpec.zero)

theorem setTbl_self (sfp : SienaFilter) (tblId : SienaFilterTblId) (sftp : SienaFilterTbl) :
    (sfp.setTbl tblId sftp).tbl tblId = sftp := by simp [SienaFilter.setTbl]

theorem setTbl_ne (sfp : SienaFilter) {tblId tblId' : SienaFilterTblId} (sftp : SienaFilterTbl)
    (h : tblId' ≠ tblId) : (sfp.setTbl tblId sftp).tbl tblId' = sfp.tbl tblId' := by
  simp [SienaFilter.setTbl, h]

theorem placed_of_tbl {sfp sfp' : SienaFilter} (h : Placed sfp) (ht : sfp'.tbl = sfp.tbl) :
    Placed sfp' :=
  ⟨by rw [ht]; exact h.size, by rw [ht]; exact h.type⟩

theorem placed_setTbl {sfp : SienaFilter} {T : SienaFilterTblId} {sftp : SienaFilterTbl}
    (h : Placed sfp) (hsize : sftp.size = (sfp.tbl T).size)
    (htype : ∀ i, sienaFilterTestUsed sftp i → sienaFilterTblId (sftp.spec i).type = T) :
    Placed (sfp.setTbl T sftp) := by
  constructor
  · intro tblId
    by_cases hT : tblId = T
    · subst hT; rw [setTbl_self, hsize]; exact h.size tblId
    · rw [setTbl_ne _ _ hT]; exact h.size tblId
  · intro tblId
    by_cases hT : tblId = T
    · subst hT; rw [setTbl_self]; exact htype
    · rw [setTbl_ne _ _ hT]; exact h.type tblId

theorem placed_saveSpec {sfp : SienaFilter} (h : Placed sfp) (sfSpec : SienaFilterSpec) (i : ℕ) :
    Placed (saveSpec sfp sfSpec i) := by
  refine placed_setTbl h rfl fun j hj => ?_
  rw [testUsed_setSpec, testUsed_setUsed] at hj
  by_cases hji : j = i
  · subst hji; simp
  · simp only [hji, decide_false, Bool.false_or] at hj
    simpa [hji] using h.type _ j hj

theorem placed_dropSpec {sfp : SienaFilter} (h : Placed sfp) (tblId : SienaFilterTblId) (i : ℕ) :
    Placed (dropSpec sfp tblId i) := by
  refine placed_setTbl h rfl fun j hj => ?_
  rw [testUsed_setSpec, testUsed_clearUsed] at hj
  by_cases hji : j = i
  · simp [hji] at hj
  · simp only [hji, decide_false, Bool.not_false, Bool.true_and] at hj
    simpa [hji] using h.type _ j hj

/-- Register accesses leave the tables alone and do not fail. -/
theorem pushRx_ret (sfp : SienaFilter) (bar : Bar) :
    ∃ o, (sienaFilterPushRxLimits sfp : Prog Bar U32 Unit) bar =
      .ret () (bar.write FR_AZ_RX_FILTER_CTL_REG o) := ⟨_, rfl⟩

theorem pushTx_ret (sfp : SienaFilter) (bar : Bar) :
    ∃ o, (sienaFilterPushTxLimits sfp : Prog Bar U32 Unit) bar =
      .ret () (bar.write FR_AZ_TX_CFG_REG o) := ⟨_, rfl⟩

theorem does_onBar {ε α : Type} {p : Prog Bar ε α} {nic : Nic} {R : Nic → Prop}
    (h : ∀ bar, R { nic with bar }) : (onBar p).Does nic R := by
  intro nic' h'
  unfold onBar zoom at h'
  cases hp : p nic.bar with
  | ret a bar => rw [hp] at h'; cases h'; exact h bar
  | err e bar => rw [hp] at h'; cases h'; exact h bar
  | fault => rw [hp] at h'; cases h'
  | spin => rw [hp] at h'; cases h'

theorem does_install (sfSpec : SienaFilterSpec) (filter : Oword) (i depth : ℕ) (nic : Nic) :
    (sienaFilterInstall sfSpec filter i depth : Prog Nic Errno Unit).Does nic fun nic' =>
      nic'.filter.tbl = (saveSpec nic.filter sfSpec i).tbl := by
  intro nic' h
  unfold sienaFilterInstall at h
  simp only [bind_apply, get_apply, Res.bind_ret, putFilter] at h
  split_ifs at h <;> cases h <;> rfl

theorem does_add (spec : EfxFilterSpec) (mayReplace : Bool) (nic : Nic) :
    (sienaFilterAdd spec mayReplace).Does nic fun nic' =>
      nic'.filter.tbl = nic.filter.tbl ∨
      ∃ sfSpec i, sienaFilterSpecFromGenSpec spec = .ok sfSpec ∧
        nic'.filter.tbl = (saveSpec nic.filter sfSpec i).tbl := by
  unfold sienaFilterAdd
  cases hspec : sienaFilterSpecFromGenSpec spec with
  | error rc => exact does_fail (Or.inl rfl)
  | ok sfSpec =>
    refine does_ensure_bind (fun _ => ?_) (fun _ => Or.inl rfl)
    rcases sienaFilterBuild sfSpec with ⟨filter, key⟩
    dsimp only
    cases sienaFilterSearch (nic.filter.tbl (sienaFilterTblId sfSpec.type)) sfSpec key true with
    | error rc => exact does_fail (Or.inl rfl)
    | ok r =>
      refine does_ensure_bind (fun _ => ?_) (fun _ => Or.inl rfl)
      intro nic' h'
      exact Or.inr ⟨sfSpec, r.1, rfl, does_install sfSpec filter r.1 r.2 nic nic' h'⟩

theorem does_clearEntry (tblId : SienaFilterTblId) (i : ℕ) (nic : Nic) :
    (sienaFilterClearEntry tblId i : Prog Nic Errno Unit).Does nic fun nic' =>
      nic'.filter.tbl = nic.filter.tbl ∨ nic'.filter.tbl = (dropSpec nic.filter tblId i).tbl := by
  intro nic' h
  unfold sienaFilterClearEntry at h
  simp only [bind_apply, get_apply, Res.bind_ret] at h
  split_ifs at h
  · cases h; exact Or.inr rfl
  · cases h; exact Or.inl rfl

theorem placed_clearEntry {nic : Nic} (h : Placed nic.filter) (tblId : SienaFilterTblId) (i : ℕ) :
    (sienaFilterClearEntry tblId i : Prog Nic Errno Unit).Does nic fun nic' =>
      Placed nic'.filter := by
  intro nic' h'
  rcases does_clearEntry tblId i nic nic' h' with ht | ht
  · exact placed_of_tbl h ht
  · exact placed_of_tbl (placed_dropSpec h tblId i) ht

theorem placed_resetIfEmpty {nic : Nic} (h : Placed nic.filter) (tblId : SienaFilterTblId) :
    (resetIfEmpty tblId : Prog Nic Errno Unit).Does nic fun nic' => Placed nic'.filter := by
  intro nic' h'
  unfold resetIfEmpty at h'
  simp only [bind_apply, get_apply, Res.bind_ret] at h'
  split_ifs at h' <;> cases h'
  · exact placed_of_tbl h rfl
  · exact h

theorem placed_add {nic : Nic} (h : Placed nic.filter) (spec : EfxFilterSpec) (mayReplace : Bool) :
    (sienaFilterAdd spec mayReplace).Does nic fun nic' => Placed nic'.filter := by
  intro nic' h'
  rcases does_add spec mayReplace nic nic' h' with ht | ⟨sfSpec, i, -, ht⟩
  · exact placed_of_tbl h ht
  · exact placed_of_tbl (placed_saveSpec h sfSpec i) ht

theorem placed_delete {nic : Nic} (h : Placed nic.filter) (spec : EfxFilterSpec) :
    (sienaFilterDelete spec).Does nic fun nic' => Placed nic'.filter := by
  unfold sienaFilterDelete
  cases sienaFilterSpecFromGenSpec spec with
  | error rc => exact does_fail h
  | ok sfSpec =>
    refine does_bind (fun nic0 nic1 h1 => ?_) (fun _ _ h1 => by cases h1)
    cases h1
    dsimp only
    cases sienaFilterSearch (nic.filter.tbl (sienaFilterTblId sfSpec.type)) sfSpec
      (sienaFilterBuild sfSpec).2 false with
    | error rc => exact does_fail h
    | ok r =>
      dsimp only
      have hclear := placed_clearEntry h (sienaFilterTblId sfSpec.type) r.1
      refine does_bind (fun _ nic1 h1 => ?_) (fun _ nic1 h1 => hclear nic1 (by rw [h1]; rfl))
      exact placed_resetIfEmpty (hclear nic1 (by rw [h1]; rfl)) _

theorem placed_tblClear {nic : Nic} (h : Placed nic.filter) (tblId : SienaFilterTblId) :
    (sienaFilterTblClear tblId : Prog Nic Errno Unit).Does nic fun nic' => Placed nic'.filter := by
  unfold sienaFilterTblClear
  refine does_bind (fun nic0 nic1 h1 => ?_) (fun _ _ h1 => by cases h1)
  cases h1
  have hall : (forEach (sienaFilterClearEntry tblId) (List.range (nic.filter.tbl tblId).size) :
      Prog Nic Errno Unit).Does nic fun nic' => Placed nic'.filter :=
    does_forEach (fun nic' : Nic => Placed nic'.filter) h fun i _ _ hI => placed_clearEntry hI tblId i
  refine does_bind (fun _ nic1 h1 => ?_) (fun _ nic1 h1 => hall nic1 (by rw [h1]; rfl))
  exact placed_resetIfEmpty (hall nic1 (by rw [h1]; rfl)) tblId

/-- **Run lemma.**  In every reachable state the tables are well placed. -/
theorem placed_reachable {nic : Nic} (h : Reachable nic) : Placed nic.filter := by
  refine h.inv (fun nic : Nic => Placed nic.filter) (fun nic h0 => by rw [h0]; exact placed_init) ?_
  intro nic nic' hP hs
  cases hs with
  | add spec mayReplace h' => exact placed_add hP spec mayReplace nic' h'
  | delete spec h' => exact placed_delete hP spec nic' h'
  | tblClear tblId h' => exact placed_tblClear hP tblId nic' h'

/-! ### Rows -/

theorem rowOfst_inj {t u : SienaFilterTblId} {i j : ℕ} (hi : i < tblRows t) (hj : j < tblRows u)
    (h : rowOfst t i = rowOfst u j) : t = u ∧ i = j := by
  cases t <;> cases u <;>
    simp only [rowOfst, tblOfst, tblStep, tblRows, FR_AZ_RX_FILTER_TBL0_ROWS,
      FR_CZ_RX_MAC_FILTER_TBL0_ROWS, FR_CZ_TX_FILTER_TBL0_ROWS, FR_CZ_TX_MAC_FILTER_TBL0_ROWS]
      at hi hj h <;>
    first
      | exact ⟨rfl, by omega⟩
      | omega

theorem rowOfst_ge (t : SienaFilterTblId) (i : ℕ) : 0x00f00000 ≤ rowOfst t i := by
  cases t <;> simp only [rowOfst, tblOfst] <;> omega

/-- The row of a used entry holds its encoding, and it has been written. -/
def RowRestored (sfp : SienaFilter) (bar : Bar) (tblId : SienaFilterTblId) (i : ℕ) : Prop :=
  sienaFilterTestUsed (sfp.tbl tblId) i →
    bar.reg (rowOfst tblId i) = (sienaFilterBuild ((sfp.tbl tblId).spec i)).1 ∧
    (rowOfst tblId i, (sienaFilterBuild ((sfp.tbl tblId).spec i)).1) ∈ bar.writes

/-- `siena_filter_restore` returns 0 and has rewritten the row of every used entry. -/
def RestoresAll (sfp : SienaFilter) (reg : ℕ → Oword) : Prop :=
  ∃ bar, sienaFilterRestore sfp ⟨reg, []⟩ = .ret () bar ∧
    ∀ tblId i, i < (sfp.tbl tblId).size → RowRestored sfp bar tblId i

/-- The 32-bit words of a filter, its protocol or wildcard bit and its queue, added without carry. -/
def dwordXor (spec : SienaFilterSpec) : U32 :=
  spec.dword0 ^^^ spec.dword1 ^^^ spec.dword2 ^^^
    match spec.type with
    | RX_TCP_FULL | RX_TCP_WILD | RX_MAC_FULL => 0
    | RX_UDP_FULL | RX_UDP_WILD | RX_MAC_WILD => 1
    | TX_TCP_FULL | TX_TCP_WILD | TX_MAC_FULL => spec.dmaqId <<< 1
    | TX_UDP_FULL | TX_UDP_WILD | TX_MAC_WILD => 1 ||| spec.dmaqId <<< 1

theorem build_key (spec : SienaFilterSpec) : (sienaFilterBuild spec).2 = dwordXor spec := by
  unfold sienaFilterBuild dwordXor
  cases spec.type <;> simp [sienaFilterTblId, bit]

theorem row_write_other {sfp : SienaFilter} {bar : Bar} {t : SienaFilterTblId} {i p : ℕ} (o : Oword)
    (h : RowRestored sfp bar t i) (hp : rowOfst t i ≠ p) : RowRestored sfp (bar.write p o) t i := by
  intro hu
  obtain ⟨h1, h2⟩ := h hu
  exact ⟨by rw [write_reg_ne _ _ hp, h1], List.mem_cons_of_mem _ h2⟩

theorem row_write_self (sfp : SienaFilter) (bar : Bar) (t : SienaFilterTblId) (i : ℕ) :
    RowRestored sfp (bar.write (rowOfst t i) (sienaFilterBuild ((sfp.tbl t).spec i)).1) t i :=
  fun _ => ⟨write_reg_self .., List.mem_cons_self⟩

variable {sfp : SienaFilter}

theorem restoreEntry_unused {sftp : SienaFilterTbl} {i : ℕ} (bar : Bar)
    (h : sienaFilterTestUsed sftp i = false) :
    sienaFilterRestoreEntry sftp i bar = .ret () bar := by
  simp [sienaFilterRestoreEntry, h]

theorem restoreEntry_ret {sftp : SienaFilterTbl} {i : ℕ} (bar : Bar)
    (hu : sienaFilterTestUsed sftp i = true) (hk : dwordXor (sftp.spec i) = 0) :
    sienaFilterRestoreEntry sftp i bar =
      .ret () (bar.write (rowOfst (sienaFilterTblId (sftp.spec i).type) i)
        (sienaFilterBuild (sftp.spec i)).1) := by
  rw [← build_key] at hk
  simp only [sienaFilterRestoreEntry, hu, if_true]
  rcases hb : sienaFilterBuild (sftp.spec i) with ⟨filter, rc⟩
  rw [hb] at hk
  rw [bind_of_ret (ensure_pos hk)]
  rfl

theorem restoreEntry_ret_inv {sftp : SienaFilterTbl} {i : ℕ} {bar bar' : Bar} {u : Unit}
    (h : sienaFilterRestoreEntry sftp i bar = .ret u bar')
    (hu : sienaFilterTestUsed sftp i = true) : dwordXor (sftp.spec i) = 0 := by
  rw [← build_key]
  simp only [sienaFilterRestoreEntry, hu, if_true] at h
  obtain ⟨_, _, h1, -⟩ := bind_ret_inv h
  exact (ensure_ret_inv h1).1

/-- A complete restore needs every used entry's words to cancel out. -/
theorem dwordXor_of_restore {bar bar' : Bar} {u : Unit}
    (h : sienaFilterRestore sfp bar = .ret u bar') (t : SienaFilterTblId) (i : ℕ)
    (hi : i < (sfp.tbl t).size) (hu : sienaFilterTestUsed (sfp.tbl t) i) :
    dwordXor ((sfp.tbl t).spec i) = 0 := by
  obtain ⟨_, _, h1, -⟩ := bind_ret_inv h
  obtain ⟨_, _, h2⟩ := forEach_ret_inv h1 t (by cases t <;> simp [allTbls])
  obtain ⟨_, _, h3⟩ := forEach_ret_inv h2 i (by simpa using hi)
  exact restoreEntry_ret_inv h3 hu

/-- One table: its rows are restored and the rows restored before stay so. -/
theorem restoreTbl (hP : Placed sfp) (t : SienaFilterTblId)
    (hk : ∀ i, i < (sfp.tbl t).size → sienaFilterTestUsed (sfp.tbl t) i →
      dwordXor ((sfp.tbl t).spec i) = 0) (bar : Bar) :
    ∃ bar', forEach (sienaFilterRestoreEntry (sfp.tbl t)) (List.range (sfp.tbl t).size) bar =
        .ret () bar' ∧
      (∀ i, i < (sfp.tbl t).size → RowRestored sfp bar' t i) ∧
      ∀ u j, j < (sfp.tbl u).size → RowRestored sfp bar u j → RowRestored sfp bar' u j := by
  have key := forEach_rule (f := sienaFilterRestoreEntry (sfp.tbl t))
    (fun done bar' => (∀ i ∈ done, i < (sfp.tbl t).size → RowRestored sfp bar' t i) ∧
      ∀ u j, j < (sfp.tbl u).size → RowRestored sfp bar u j → RowRestored sfp bar' u j)
    (List.range (sfp.tbl t).size) (s := bar) ⟨by simp, fun _ _ _ h => h⟩ ?_
  · obtain ⟨bar', h1, h2, h3⟩ := key
    exact ⟨bar', h1, fun i hi => h2 i (by simpa using hi) hi, h3⟩
  intro done i b hi ⟨hdone, hkeep⟩
  have hi : i < (sfp.tbl t).size := by simpa using hi
  cases hu : sienaFilterTestUsed (sfp.tbl t) i with
  | false =>
    refine ⟨b, restoreEntry_unused b hu, ?_, hkeep⟩
    intro j hj hjs
    rcases List.mem_append.mp hj with hj | hj
    · exact hdone j hj hjs
    · have : j = i := by simpa using hj
      subst this
      intro hu'
      rw [hu] at hu'
      cases hu'
  | true =>
    have hrow : sienaFilterTblId ((sfp.tbl t).spec i).type = t := hP.type t i hu
    have hrun := restoreEntry_ret b hu (hk i hi hu)
    rw [hrow] at hrun
    -- a row restored before is another row, or the one written now
    have hstay : ∀ u j, j < (sfp.tbl u).size → RowRestored sfp b u j →
        RowRestored sfp (b.write (rowOfst t i) (sienaFilterBuild ((sfp.tbl t).spec i)).1) u j := by
      intro u j hj h
      by_cases hp : rowOfst u j = rowOfst t i
      · rw [hP.size] at hi hj
        obtain ⟨rfl, rfl⟩ := rowOfst_inj hj hi hp
        exact row_write_self sfp b u j
      · exact row_write_other _ h hp
    refine ⟨_, hrun, ?_, fun u j hj h => hstay u j hj (hkeep u j hj h)⟩
    intro j hj hjs
    rcases List.mem_append.mp hj with hj | hj
    · exact hstay t j hjs (hdone j hj hjs)
    · have : j = i := by simpa using hj
      subst this
      exact row_write_self sfp b t j

theorem restoresAll_of_dwordXor (hP : Placed sfp)
    (hk : ∀ t i, i < (sfp.tbl t).size → sienaFilterTestUsed (sfp.tbl t) i →
      dwordXor ((sfp.tbl t).spec i) = 0) (reg : ℕ → Oword) : RestoresAll sfp reg := by
  obtain ⟨bar, hloop, hrows⟩ := forEach_rule
    (f := fun t => forEach (sienaFilterRestoreEntry (sfp.tbl t)) (List.range (sfp.tbl t).size))
    (fun done bar => ∀ t ∈ done, ∀ i, i < (sfp.tbl t).size → RowRestored sfp bar t i)
    allTbls (s := ⟨reg, []⟩) (by simp) (by
      intro done t bar _ hdone
      obtain ⟨bar', h1, h2, h3⟩ := restoreTbl hP t (hk t) bar
      refine ⟨bar', h1, fun u hu i hi => ?_⟩
      rcases List.mem_append.mp hu with hu | hu
      · exact h3 u i hi (hdone u hu i hi)
      · have : u = t := by simpa using hu
        subst this
        exact h2 i hi)
  obtain ⟨o, hrx⟩ := pushRx_ret sfp bar
  obtain ⟨o', htx⟩ := pushTx_ret sfp (bar.write FR_AZ_RX_FILTER_CTL_REG o)
  refine ⟨_, by rw [sienaFilterRestore, bind_of_ret hloop, bind_of_ret hrx, htx], ?_⟩
  intro t i hi
  have hge := rowOfst_ge t i
  have h := hrows t (by cases t <;> simp [allTbls]) i hi
  refine row_write_other _ (row_write_other _ h ?_) ?_
  · simp only [FR_AZ_RX_FILTER_CTL_REG]; omega
  · simp only [FR_AZ_TX_CFG_REG]; omega

/-- **Restore.**  From a reachable filter state, whatever the registers hold, restoring returns 0
and rewrites every used row exactly when the words of every installed filter cancel out. -/
theorem restore_iff {nic : Nic} (h : Reachable nic) (reg : ℕ → Oword) :
    RestoresAll nic.filter reg ↔
      ∀ t i, i < (nic.filter.tbl t).size → sienaFilterTestUsed (nic.filter.tbl t) i →
        dwordXor ((nic.filter.tbl t).spec i) = 0 := by
  constructor
  · rintro ⟨bar, hrun, -⟩ t i hi hu
    exact dwordXor_of_restore hrun t i hi hu
  · intro hk
    exact restoresAll_of_dwordXor (placed_reachable h) hk reg

/-! ### One installed filter -/

/-- Receive queue 1 for TCP to the given local host and port. -/
def tcpLocal (locHost : U32) (locPort : BitVec 16) : EfxFilterSpec where
  matchFlags := matchIpWild
  flags := BitVec.ofNat 6 EFX_FILTER_FLAG_RX
  dmaqId := 1
  rssContext := 0
  outerVid := 0
  locMac _ := 0
  etherType := EFX_ETHER_TYPE_IPV4
  ipProto := EFX_IPPROTO_TCP
  locPort := locPort
  remPort := 0
  remHost := 0
  locHost := locHost

def freshNic : Nic := ⟨sienaFilterInit, ⟨fun _ => Oword.zero, []⟩⟩

/-- A fresh NIC after one add. -/
def nicWith (spec : EfxFilterSpec) : Nic :=
  (sienaFilterAdd spec false freshNic).state?.getD freshNic

theorem fresh_freshNic : Fresh freshNic := rfl

theorem used_saveSpec_init {sfSpec : SienaFilterSpec} {i j : ℕ} {t : SienaFilterTblId}
    (h : sienaFilterTestUsed ((saveSpec sienaFilterInit sfSpec i).tbl t) j) :
    ((saveSpec sienaFilterInit sfSpec i).tbl t).spec j = sfSpec := by
  have h0 : ∀ u k, sienaFilterTestUsed (sienaFilterInit.tbl u) k = false := by
    intro u k
    simp [sienaFilterTestUsed, sienaFilterInit]
  unfold saveSpec at h ⊢
  by_cases hT : t = sienaFilterTblId sfSpec.type
  · subst hT
    rw [setTbl_self] at h ⊢
    rw [testUsed_setSpec, testUsed_setUsed, h0] at h
    have : j = i := by simpa using h
    subst this
    simp
  · rw [setTbl_ne _ _ hT, h0] at h
    cases h

/-- A filter for 0.80.0.0 port 80: host and port cancel out, and the table is restored. -/
theorem restore_cancelling :
    RestoresAll (nicWith (tcpLocal 0x500000 80)).filter fun _ => Oword.zero := by
  have hstep : (sienaFilterAdd (tcpLocal 0x500000 80) false freshNic).state? =
      some (nicWith (tcpLocal 0x500000 80)) := rfl
  refine (restore_iff (.next (.start fresh_freshNic) (.add _ _ hstep)) _).mpr ?_
  rcases does_add _ _ _ _ hstep with ht | ⟨sfSpec, i, hspec, ht⟩ <;> rw [ht]
  · intro t j _ hu
    simp [freshNic, sienaFilterInit, sienaFilterTestUsed] at hu
  · change ∀ t j, j < ((saveSpec sienaFilterInit sfSpec i).tbl t).size →
      sienaFilterTestUsed ((saveSpec sienaFilterInit sfSpec i).tbl t) j →
      dwordXor (((saveSpec sienaFilterInit sfSpec i).tbl t).spec j) = 0
    intro t j _ hu
    rw [used_saveSpec_init hu]
    have : sfSpec = ⟨RX_TCP_WILD, 8, 1, 0, 0x500000, 0x500000⟩ := by
      apply Except.ok.inj
      rw [← hspec]
      rfl
    subst this
    decide

/-- With one filter for TCP port 80 installed, the restore does not return 0. -/
theorem restore_web_fails :
    Reachable (nicWith (tcpLocal 0 80)) ∧
      ¬ RestoresAll (nicWith (tcpLocal 0 80)).filter fun _ => Oword.zero := by
  constructor
  · have hstep : (sienaFilterAdd (tcpLocal 0 80) false freshNic).state? =
        some (nicWith (tcpLocal 0 80)) := rfl
    exact .next (.start fresh_freshNic) (.add _ _ hstep)
  · rintro ⟨bar, hrun, -⟩
    have h := dwordXor_of_restore hrun RX_IP 5876 (by decide) (by decide)
    revert h
    decide

end Sfxge.Filter
