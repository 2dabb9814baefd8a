import Sfxge.Lib.Tenancy
import Sfxge.Tx.Flush

/-!
# Tx.Label — the labels of the transmit queues

An event names its transmit queue by a label, of which an event queue has `SFXGE_TX_NLABELS`.  `sfxge_tx_qinit` takes
the first label that is free, `sfxge_tx_qfini` gives it back, and a flush-done event that comes to the wrong event queue
is sent on under the label.  So a label must not change hands while an event with it is on its way.
-/

namespace Sfxge.Tx.Label

open Lib Prog

def SFXGE_TX_NLABELS : ℕ := 32

/-- `SFXGE_RX_SCALE_MAX`, and the size of `s_sep` -/
def SFXGE_RX_SCALE_MAX : ℕ := 128

def SFXGE_TXQ_NTYPES : ℕ := 3

/-- What `sfxge_txq_t` says of the place of a queue. -/
structure Txq where
  stIndex : ℕ
  stType : ℕ
  stEvq : ℕ
  stLabel : ℕ
  deriving Repr, DecidableEq

/-- The queues in memory, numbered as they were made, of which there are `made`; `s_stp`, `s_tx_qcount`, and
`se_label_stp` of each event queue. -/
structure Adapter where
  txq : ℕ → Option Txq
  made : ℕ
  sStp : ℕ → Option ℕ
  sTxQcount : ℕ
  seLabelStp : ℕ → ℕ → Option ℕ

namespace Adapter

variable (a : Adapter)

/-- `se_label_stp[label] = stp` -/
def setLabelStp (evq label : ℕ) (stp : Option ℕ) : Adapter :=
  { a with seLabelStp := Function.update a.seLabelStp evq (Function.update (a.seLabelStp evq) label stp) }

/-- What is in memory at `stp`, after `kmem_cache_free` nothing. -/
def setTxq (stp : ℕ) (txq : Option Txq) : Adapter := { a with txq := Function.update a.txq stp txq }

end Adapter

abbrev LabelProg := Prog Adapter Errno

/-- The loop of `sfxge_ev_txlabel_alloc` over `n` labels from `label` on; `stpp` is the first free one so far. -/
def search (labelStp : ℕ → Option ℕ) (stp : ℕ) : ℕ → ℕ → Option ℕ → Except Errno (Option ℕ)
  | _, 0, stpp => .ok stpp
  | label, n + 1, stpp =>
    if labelStp label = some stp then .error .EEXIST
    else search labelStp stp (label + 1) n (if stpp = none ∧ labelStp label = none then some label else stpp)

/-- `sfxge_ev_txlabel_alloc` -/
def evTxlabelAlloc (evq stp : ℕ) : LabelProg ℕ := fun a =>
  match search (a.seLabelStp evq) stp 0 SFXGE_TX_NLABELS none with
  | .error e => .err e a
  | .ok none => .err .ENOSPC a
  | .ok (some label) => .ret label (a.setLabelStp evq label (some stp))

/-- `sfxge_ev_txlabel_free` -/
def evTxlabelFree (evq stp label : ℕ) : LabelProg Unit := do
  ensure (¬ label > SFXGE_TX_NLABELS) .EINVAL
  -- the check lets the label behind the last one through
  let a ← if label < SFXGE_TX_NLABELS then get else stuck
  ensure (a.seLabelStp evq label = some stp) .EINVAL
  set (a.setLabelStp evq label none)

/-- `sfxge_tx_qinit` of the queue made as number `stp`, behind `kmem_cache_alloc`; `kstat` is how `sfxge_tx_kstat_init`
ends. -/
def txQinitAt (stp index type evq : ℕ) (kstat : Bool) : LabelProg Unit := do
  modify fun a => a.setTxq stp (some ⟨index, type, evq, 0⟩)
  let label ← protect (modify fun a => a.setTxq stp none) do
    ensure (kstat = true) .ENOMEM
    evTxlabelAlloc evq stp
  modify fun a => a.setTxq stp (some ⟨index, type, evq, label⟩)
  let a ← get
  -- ASSERT3P(sp->s_stp[index], ==, NULL)
  if a.sStp index = none then
    set { a with sStp := Function.update a.sStp index (some stp), sTxQcount := a.sTxQcount + 1 }
  else stuck

/-- `sfxge_tx_qinit`; `mem` is how `kmem_cache_alloc` ends. -/
def txQinit (index type evq : ℕ) (mem kstat : Bool) : LabelProg Unit := do
  ensure (mem = true) .ENOMEM
  let a ← get
  set { a with made := a.made + 1 }
  txQinitAt a.made index type evq kstat

/-- `*stp`, where `stp` points to a queue. -/
def loadTxq (stp : Option ℕ) : LabelProg (ℕ × Txq) := fun a =>
  match stp with
  | none => .fault
  | some stp =>
    match a.txq stp with
    | none => .fault
    | some txq => .ret (stp, txq) a

/-- `sfxge_tx_qfini` -/
def txQfini (index : ℕ) : LabelProg Unit := do
  let a ← get
  let (stp, txq) ← loadTxq (a.sStp index)
  -- ASSERT(sp->s_tx_qcount > 0)
  when (¬ a.sTxQcount > 0) stuck
  set { a with sStp := Function.update a.sStp index none, sTxQcount := a.sTxQcount - 1 }
  -- what the call returns is not looked at
  let _ ← (attempt (evTxlabelFree txq.stEvq stp txq.stLabel) : LabelProg (Except Errno Unit))
  modify fun a => a.setTxq stp none

/-! ### Events -/

def SFXGE_MAGIC_DMAQ_LABEL_MASK : BitVec 16 := 0x1f

def SFXGE_MAGIC_TX_QFLUSH_DONE : BitVec 16 := 0x8080

/-- A software event on its way to the event queue `evq`; as a ghost the queue that it is `about`. -/
structure Soft where
  evq : ℕ
  magic : BitVec 16
  about : ℕ
  deriving Repr, DecidableEq

/-- The label in the event -/
def Soft.label (ev : Soft) : ℕ := (ev.magic &&& SFXGE_MAGIC_DMAQ_LABEL_MASK).toNat

/-- The adapter and the events on their way.  The others are ghosts: the event queue that was last `asked` for a label
and how the last call has ended, and whether anything undefined has been done or an assertion has failed, or an event
has got to a queue that it was not about. -/
structure Sys where
  adapter : Adapter
  soft : List Soft
  asked : ℕ
  rc : Option Errno
  broken : Bool
  misled : Bool

namespace Sys

variable (s : Sys)

def call (p : LabelProg Unit) : Sys :=
  match p s.adapter with
  | .ret _ adapter => { s with adapter, rc := none }
  | .err e adapter => { s with adapter, rc := some e }
  | .fault | .spin => { s with broken := true }

/-- `sfxge_ev_txq_flush_done` on event queue `e` -/
def evTxqFlushDone (e txqIndex : ℕ) : Sys :=
  match s.adapter.sStp txqIndex with
  -- events may arrive after the queue was destroyed
  | none => s
  | some stp =>
    match s.adapter.txq stp with
    | none => { s with broken := true }
    | some txq =>
      -- sfxge_tx_qflush_done(stp)
      if txq.stEvq = e then s
      else
        -- ASSERT((label & SFXGE_MAGIC_DMAQ_LABEL_MASK) == label)
        if BitVec.ofNat 16 txq.stLabel &&& SFXGE_MAGIC_DMAQ_LABEL_MASK = BitVec.ofNat 16 txq.stLabel then
          { s with soft := s.soft ++ [⟨txq.stEvq, SFXGE_MAGIC_TX_QFLUSH_DONE ||| BitVec.ofNat 16 txq.stLabel, stp⟩] }
        else { s with broken := true }

/-- `sfxge_ev_software` -/
def evSoftware (ev : Soft) : Sys :=
  if ev.magic &&& ~~~SFXGE_MAGIC_DMAQ_LABEL_MASK = SFXGE_MAGIC_TX_QFLUSH_DONE then
    match s.adapter.seLabelStp ev.evq ev.label with
    | none => s
    | some stp =>
      match s.adapter.txq stp with
      | none => { s with broken := true }
      | some txq =>
        -- ASSERT3U(sep->se_index, ==, stp->st_evq)
        if txq.stEvq = ev.evq then { s with misled := s.misled || decide (stp ≠ ev.about) }
        else { s with broken := true }
  else { s with misled := true }

end Sys

inductive Op
  /-- `sfxge_tx_qinit`, from the loop of `sfxge_tx_init` -/
  | qinit (index type evq : ℕ) (mem kstat : Bool)
  /-- `sfxge_tx_qfini`, where there is a queue -/
  | qfini (index : ℕ)
  /-- The firmware tells event queue `e` that a queue is flushed. -/
  | flushDone (e txqIndex : ℕ)
  /-- A software event is handled. -/
  | software (k : ℕ)
  /-- `sfxge_ev_qstop`: what event queue `e` has not handled is gone. -/
  | evStop (e : ℕ)
  deriving Repr, DecidableEq

def step : Op → Sys → Option Sys
  | .qinit index type evq mem kstat, s =>
    if index < SFXGE_RX_SCALE_MAX * SFXGE_TXQ_NTYPES ∧ type < SFXGE_TXQ_NTYPES ∧ evq < SFXGE_RX_SCALE_MAX ∧
        s.adapter.sStp index = none then
      some ({ s with asked := evq }.call (txQinit index type evq mem kstat))
    else none
  | .qfini index, s => if s.adapter.sStp index = none then none else some (s.call (txQfini index))
  | .flushDone e txqIndex, s => some (s.evTxqFlushDone e txqIndex)
  | .software k, s => s.soft[k]?.map fun ev => { s with soft := s.soft.eraseIdx k }.evSoftware ev
  | .evStop e, s => some { s with soft := s.soft.filter fun ev => decide (ev.evq ≠ e) }

def Sys.start : Sys := ⟨⟨fun _ => none, 0, fun _ => none, 0, fun _ _ => none⟩, [], 0, none, false, false⟩

/-- The first label that is free. -/
def firstFree (labelStp : ℕ → Option ℕ) : Option ℕ :=
  (List.range SFXGE_TX_NLABELS).find? fun label => decide (labelStp label = none)

/-- The queues as `sfxge_tx_stop` and the flush events find them. -/
def Describes (a : Adapter) (d : Flush.Dev) : Prop :=
  d.size = SFXGE_RX_SCALE_MAX * SFXGE_TXQ_NTYPES ∧
    (∀ index, d.stEvq index = ((a.sStp index).bind a.txq).map Txq.stEvq) ∧
    (∀ index txq, (a.sStp index).bind a.txq = some txq → d.stLabel index = txq.stLabel) ∧
    ∀ e label, d.seLabelStp e label = ((a.seLabelStp e label).bind a.txq).map Txq.stIndex

/-- Every queue has a label of its own, the assertions hold, a queue is turned away only for want of memory or of a
label, and the events on their way still lead to the queue that they are about, or to none. -/
structure Labelled (s : Sys) : Prop where
  dev : ∃ d, Describes s.adapter d
  labels : ∀ index txq, (s.adapter.sStp index).bind s.adapter.txq = some txq → txq.stLabel < SFXGE_TX_NLABELS
  refused : ∀ e, s.rc = some e → e = .ENOMEM ∨ (e = .ENOSPC ∧ firstFree (s.adapter.seLabelStp s.asked) = none)
  defined : s.broken = false
  led : s.misled = false
  onTheWay : ∀ ev ∈ s.soft, ∀ stp, s.adapter.seLabelStp ev.evq ev.label = some stp → stp = ev.about

/-- The label that a new queue is given is not that of an event on its way. -/
def Clear (o : Op) (s : Sys) : Prop :=
  match o with
  | .qinit _ _ evq mem kstat => mem = true → kstat = true →
    ∀ label, firstFree (s.adapter.seLabelStp evq) = some label → ∀ ev ∈ s.soft, ev.evq = evq → ev.label ≠ label
  | _ => True

/-! ### The search -/

theorem search_eq {labelStp : ℕ → Option ℕ} {stp : ℕ} (hnew : ∀ label, labelStp label ≠ some stp) (label n : ℕ)
    (stpp : Option ℕ) : search labelStp stp label n stpp =
      .ok (stpp.or ((List.range' label n).find? fun label => decide (labelStp label = none))) := by
  induction n generalizing label stpp with
  | zero => simp [search]
  | succ n ih =>
    rw [search, if_neg (hnew label), ih, List.range'_succ, List.find?_cons]
    cases stpp with
    | some found => simp
    | none =>
      by_cases hfree : labelStp label = none
      · simp [hfree]
      · simp [hfree]

theorem firstFree_some {labelStp : ℕ → Option ℕ} {label : ℕ} (h : firstFree labelStp = some label) :
    label < SFXGE_TX_NLABELS ∧ labelStp label = none := by
  have hfree := List.find?_some (p := fun label => decide (labelStp label = none)) h
  exact ⟨List.mem_range.mp (List.mem_of_find?_eq_some h), of_decide_eq_true hfree⟩

theorem search_all {labelStp : ℕ → Option ℕ} {stp : ℕ} (hnew : ∀ label, labelStp label ≠ some stp) :
    search labelStp stp 0 SFXGE_TX_NLABELS none = .ok (firstFree labelStp) := by
  rw [search_eq hnew, Option.none_or, ← List.range_eq_range']
  rfl

theorem evTxlabelAlloc_full {a : Adapter} {evq stp : ℕ} (hnew : ∀ label, a.seLabelStp evq label ≠ some stp)
    (hfull : firstFree (a.seLabelStp evq) = none) : evTxlabelAlloc evq stp a = .err .ENOSPC a := by
  rw [evTxlabelAlloc, search_all hnew, hfull]

theorem evTxlabelAlloc_first {a : Adapter} {evq stp label : ℕ} (hnew : ∀ label, a.seLabelStp evq label ≠ some stp)
    (hlabel : firstFree (a.seLabelStp evq) = some label) :
    evTxlabelAlloc evq stp a = .ret label (a.setLabelStp evq label (some stp)) := by
  rw [evTxlabelAlloc, search_all hnew, hlabel]

theorem setLabelStp_apply (a : Adapter) (evq label e l : ℕ) (stp : Option ℕ) :
    (a.setLabelStp evq label stp).seLabelStp e l = if e = evq ∧ l = label then stp else a.seLabelStp e l := by
  unfold Adapter.setLabelStp
  by_cases he : e = evq
  · subst he
    by_cases hl : l = label
    · subst hl
      simp
    · simp [hl]
  · simp [he]

/-! ### The invariant -/

/-- The slots of `s_stp` that are taken -/
def attached (sStp : ℕ → Option ℕ) : Finset ℕ :=
  (Finset.range (SFXGE_RX_SCALE_MAX * SFXGE_TXQ_NTYPES)).filter fun index => (sStp index).isSome

/-- The queues in memory hold their labels as the tenancy has it, and the tables say so. -/
structure Inv (a : Adapter) (t : Tenancy ℕ (ℕ × ℕ)) : Prop where
  held : ∀ stp, t.held stp = (a.txq stp).map fun txq => (txq.stEvq, txq.stLabel)
  table : ∀ evq label stp, a.seLabelStp evq label = some stp ↔ t.held stp = some (evq, label)
  label : ∀ stp txq, a.txq stp = some txq → txq.stLabel < SFXGE_TX_NLABELS
  index : ∀ stp txq, a.txq stp = some txq → a.sStp txq.stIndex = some stp
  slot : ∀ index stp, a.sStp index = some stp → ∃ txq, a.txq stp = some txq ∧ txq.stIndex = index
  bound : ∀ index stp, a.sStp index = some stp → index < SFXGE_RX_SCALE_MAX * SFXGE_TXQ_NTYPES
  fresh : ∀ stp, a.made ≤ stp → a.txq stp = none
  count : a.sTxQcount = (attached a.sStp).card

section Inv

variable {a : Adapter} {t : Tenancy ℕ (ℕ × ℕ)} {index type evq label stp : ℕ} {txq : Txq}

theorem inv_start : Inv Sys.start.adapter .empty where
  held _ := rfl
  table _ _ _ := by simp [Sys.start, Tenancy.empty]
  label _ _ h := by cases h
  index _ _ h := by cases h
  slot _ _ h := by cases h
  bound _ _ h := by cases h
  fresh _ _ := rfl
  count := by simp [Sys.start, attached]

/-- A queue that is not in memory is in no table. -/
theorem Inv.not_in_table (h : Inv a t) (hstp : a.txq stp = none) (evq label : ℕ) :
    a.seLabelStp evq label ≠ some stp := by
  intro htable
  have hheld := (h.table evq label stp).mp htable
  rw [h.held, hstp] at hheld
  cases hheld

/-- A label that nobody has is free. -/
theorem Inv.not_taken (h : Inv a t) (hfree : a.seLabelStp evq label = none) : (evq, label) ∉ t.taken := by
  rintro ⟨stp, hstp⟩
  rw [(h.table evq label stp).mpr hstp] at hfree
  cases hfree

/-- A number may have been used for nothing. -/
theorem Inv.skip (h : Inv a t) {made : ℕ} (hmade : a.made ≤ made) : Inv { a with made } t :=
  { h with fresh := fun stp hstp => h.fresh stp (hmade.trans hstp) }

theorem attached_some (hbound : index < SFXGE_RX_SCALE_MAX * SFXGE_TXQ_NTYPES) (sStp : ℕ → Option ℕ) (stp : ℕ) :
    attached (Function.update sStp index (some stp)) = insert index (attached sStp) := by
  ext i
  simp only [attached, Finset.mem_filter, Finset.mem_range, Finset.mem_insert]
  by_cases hi : i = index
  · subst hi
    simp [hbound]
  · simp [hi]

theorem attached_none (sStp : ℕ → Option ℕ) (index : ℕ) :
    attached (Function.update sStp index none) = (attached sStp).erase index := by
  ext i
  simp only [attached, Finset.mem_filter, Finset.mem_range, Finset.mem_erase]
  by_cases hi : i = index
  · subst hi
    simp
  · simp [hi]

theorem Inv.mem_attached (h : Inv a t) (hs : a.sStp index = some stp) : index ∈ attached a.sStp := by
  rw [attached, Finset.mem_filter, Finset.mem_range, hs]
  exact ⟨h.bound index stp hs, rfl⟩

/-! ### A queue comes -/

/-- The adapter with a new queue. -/
def Adapter.attach (a : Adapter) (index type evq label : ℕ) : Adapter :=
  { a.setLabelStp evq label (some a.made) with
    txq := Function.update a.txq a.made (some ⟨index, type, evq, label⟩)
    made := a.made + 1
    sStp := Function.update a.sStp index (some a.made)
    sTxQcount := a.sTxQcount + 1 }

@[simp] theorem attach_txq_self : (a.attach index type evq label).txq a.made = some ⟨index, type, evq, label⟩ :=
  Function.update_self ..

theorem attach_txq_of_ne (h : stp ≠ a.made) : (a.attach index type evq label).txq stp = a.txq stp :=
  Function.update_of_ne h ..

@[simp] theorem attach_sStp_self : (a.attach index type evq label).sStp index = some a.made := Function.update_self ..

theorem attach_sStp_of_ne {i : ℕ} (h : i ≠ index) : (a.attach index type evq label).sStp i = a.sStp i :=
  Function.update_of_ne h ..

theorem attach_seLabelStp (e l : ℕ) : (a.attach index type evq label).seLabelStp e l =
    if e = evq ∧ l = label then some a.made else a.seLabelStp e l :=
  setLabelStp_apply a evq label e l (some a.made)

theorem Inv.attach (h : Inv a t) (type : ℕ) (hbound : index < SFXGE_RX_SCALE_MAX * SFXGE_TXQ_NTYPES)
    (hslot : a.sStp index = none) (hlabel : label < SFXGE_TX_NLABELS) (hfree : a.seLabelStp evq label = none) :
    Inv (a.attach index type evq label) (t.grant a.made (evq, label) (h.not_taken hfree)) := by
  have hnew : a.txq a.made = none := h.fresh a.made le_rfl
  refine ⟨?_, ?_, ?_, ?_, ?_, ?_, ?_, ?_⟩
  · intro stp
    by_cases hstp : stp = a.made
    · subst hstp
      rw [Tenancy.held_grant_self, attach_txq_self]
      rfl
    · rw [Tenancy.held_grant_of_ne _ hstp, attach_txq_of_ne hstp, h.held]
  · intro e l stp
    rw [attach_seLabelStp]
    by_cases hstp : stp = a.made
    · subst hstp
      have hnot := h.not_in_table hnew e l
      by_cases hel : e = evq ∧ l = label
      · simp [hel]
      · rw [if_neg hel, Tenancy.held_grant_self]
        refine iff_of_false hnot fun heq => hel ?_
        cases heq
        exact ⟨rfl, rfl⟩
    · rw [Tenancy.held_grant_of_ne _ hstp, ← h.table]
      by_cases hel : e = evq ∧ l = label
      · rw [if_pos hel, hel.1, hel.2, hfree]
        exact iff_of_false (fun heq => hstp (Option.some.inj heq).symm) (by simp)
      · rw [if_neg hel]
  · intro stp txq htxq
    by_cases hstp : stp = a.made
    · subst hstp
      rw [attach_txq_self] at htxq
      cases htxq
      exact hlabel
    · rw [attach_txq_of_ne hstp] at htxq
      exact h.label stp txq htxq
  · intro stp txq htxq
    by_cases hstp : stp = a.made
    · subst hstp
      rw [attach_txq_self] at htxq
      cases htxq
      exact attach_sStp_self
    · rw [attach_txq_of_ne hstp] at htxq
      have hold := h.index stp txq htxq
      have hne : txq.stIndex ≠ index := by
        intro heq
        rw [heq, hslot] at hold
        cases hold
      rw [attach_sStp_of_ne hne, hold]
  · intro i stp hs
    by_cases hi : i = index
    · subst hi
      rw [attach_sStp_self] at hs
      cases hs
      exact ⟨_, attach_txq_self, rfl⟩
    · rw [attach_sStp_of_ne hi] at hs
      obtain ⟨txq, htxq, hidx⟩ := h.slot i stp hs
      have hstp : stp ≠ a.made := by
        rintro rfl
        rw [hnew] at htxq
        cases htxq
      exact ⟨txq, (attach_txq_of_ne hstp).trans htxq, hidx⟩
  · intro i stp hs
    by_cases hi : i = index
    · exact hi ▸ hbound
    · rw [attach_sStp_of_ne hi] at hs
      exact h.bound i stp hs
  · intro stp hmade
    have hlt : a.made < stp := hmade
    rw [attach_txq_of_ne hlt.ne']
    exact h.fresh stp hlt.le
  · have hnot : index ∉ attached a.sStp := by
      intro hmem
      rw [attached, Finset.mem_filter, hslot] at hmem
      cases hmem.2
    change a.sTxQcount + 1 = (attached (Function.update a.sStp index (some a.made))).card
    rw [attached_some hbound, Finset.card_insert_of_notMem hnot, h.count]

/-- What `sfxge_tx_qinit` undoes leaves no more than a number that has been used. -/
theorem Inv.undone (h : Inv a t) (txq : Txq) :
    (({ a with made := a.made + 1 } : Adapter).setTxq a.made (some txq)).setTxq a.made none =
      { a with made := a.made + 1 } := by
  have hnew : a.txq a.made = none := h.fresh a.made le_rfl
  have hupdate : Function.update (Function.update a.txq a.made (some txq)) a.made none = a.txq := by
    rw [Function.update_idem, ← hnew, Function.update_eq_self]
  exact congrArg (fun txq => ({ a with made := a.made + 1, txq } : Adapter)) hupdate

theorem Inv.qinit_no_kstat (h : Inv a t) (index type evq : ℕ) :
    txQinit index type evq true false a = .err .ENOMEM { a with made := a.made + 1 } :=
  congrArg (Res.err Errno.ENOMEM) (h.undone ⟨index, type, evq, 0⟩)

/-- **No label is left.** -/
theorem Inv.qinit_full (h : Inv a t) (index type : ℕ) (hfull : firstFree (a.seLabelStp evq) = none) :
    txQinit index type evq true true a = .err .ENOSPC { a with made := a.made + 1 } := by
  let a1 := ({ a with made := a.made + 1 } : Adapter).setTxq a.made (some ⟨index, type, evq, 0⟩)
  have halloc : (ensure (true = true) .ENOMEM >>= fun _ => evTxlabelAlloc evq a.made : LabelProg ℕ) a1 =
      .err .ENOSPC a1 :=
    evTxlabelAlloc_full (a := a1) (h.not_in_table (h.fresh a.made le_rfl) evq) hfull
  have hfail : protect (modify fun a' : Adapter => a'.setTxq a.made none)
      (ensure (true = true) .ENOMEM >>= fun _ => evTxlabelAlloc evq a.made) a1 =
        .err .ENOSPC { a with made := a.made + 1 } := by
    rw [← h.undone ⟨index, type, evq, 0⟩]
    exact protect_of_err halloc rfl
  change (protect _ _ >>= _) a1 = _
  exact bind_of_err hfail

/-- **The first label that is free is taken.** -/
theorem Inv.qinit_first (h : Inv a t) (type : ℕ) (hslot : a.sStp index = none)
    (hlabel : firstFree (a.seLabelStp evq) = some label) :
    txQinit index type evq true true a = .ret () (a.attach index type evq label) := by
  let a1 := ({ a with made := a.made + 1 } : Adapter).setTxq a.made (some ⟨index, type, evq, 0⟩)
  have halloc : (ensure (true = true) .ENOMEM >>= fun _ => evTxlabelAlloc evq a.made : LabelProg ℕ) a1 =
      .ret label (a1.setLabelStp evq label (some a.made)) :=
    evTxlabelAlloc_first (a := a1) (h.not_in_table (h.fresh a.made le_rfl) evq) hlabel
  change (protect _ _ >>= _) a1 = _
  refine (bind_of_ret (protect_of_ret halloc)).trans ?_
  change (if a.sStp index = none then set _ else stuck : LabelProg Unit) _ = _
  rw [if_pos hslot]
  exact congrArg (fun txq => Res.ret () ({ a.attach index type evq label with txq } : Adapter))
    (Function.update_idem ..)

/-! ### A queue goes -/

/-- The adapter without the queue. -/
def Adapter.detach (a : Adapter) (stp : ℕ) (txq : Txq) : Adapter :=
  { a.setLabelStp txq.stEvq txq.stLabel none with
    txq := Function.update a.txq stp none
    sStp := Function.update a.sStp txq.stIndex none
    sTxQcount := a.sTxQcount - 1 }

@[simp] theorem detach_txq_self : (a.detach stp txq).txq stp = none := Function.update_self ..

theorem detach_txq_of_ne {p : ℕ} (h : p ≠ stp) : (a.detach stp txq).txq p = a.txq p := Function.update_of_ne h ..

@[simp] theorem detach_sStp_self : (a.detach stp txq).sStp txq.stIndex = none := Function.update_self ..

theorem detach_sStp_of_ne {i : ℕ} (h : i ≠ txq.stIndex) : (a.detach stp txq).sStp i = a.sStp i :=
  Function.update_of_ne h ..

theorem detach_seLabelStp (e l : ℕ) : (a.detach stp txq).seLabelStp e l =
    if e = txq.stEvq ∧ l = txq.stLabel then none else a.seLabelStp e l :=
  setLabelStp_apply a txq.stEvq txq.stLabel e l none

theorem Inv.held_some (h : Inv a t) (htxq : a.txq stp = some txq) : t.held stp = some (txq.stEvq, txq.stLabel) := by
  rw [h.held, htxq]
  rfl

theorem Inv.detach (h : Inv a t) (htxq : a.txq stp = some txq) : Inv (a.detach stp txq) (t.release stp) := by
  have hheld := h.held_some htxq
  have hs := h.index stp txq htxq
  have hother : ∀ {p q}, (a.detach stp txq).txq p = some q → p ≠ stp ∧ a.txq p = some q := by
    intro p q hq
    have hp : p ≠ stp := by
      rintro rfl
      rw [detach_txq_self] at hq
      cases hq
    exact ⟨hp, (detach_txq_of_ne hp).symm.trans hq⟩
  have hslot : ∀ {i p}, (a.detach stp txq).sStp i = some p → i ≠ txq.stIndex ∧ a.sStp i = some p := by
    intro i p hi
    have hne : i ≠ txq.stIndex := by
      rintro rfl
      rw [detach_sStp_self] at hi
      cases hi
    exact ⟨hne, (detach_sStp_of_ne hne).symm.trans hi⟩
  refine ⟨?_, ?_, ?_, ?_, ?_, ?_, ?_, ?_⟩
  · intro p
    by_cases hp : p = stp
    · subst hp
      rw [Tenancy.held_release_self, detach_txq_self]
      rfl
    · rw [Tenancy.held_release_of_ne hp, detach_txq_of_ne hp, h.held]
  · intro e l p
    rw [detach_seLabelStp]
    by_cases hp : p = stp
    · subst hp
      rw [Tenancy.held_release_self]
      refine iff_of_false (fun heq => ?_) (by simp)
      split_ifs at heq with hel
      rw [h.table, hheld] at heq
      cases heq
      exact hel ⟨rfl, rfl⟩
    · rw [Tenancy.held_release_of_ne hp, ← h.table]
      by_cases hel : e = txq.stEvq ∧ l = txq.stLabel
      · rw [if_pos hel, h.table]
        refine iff_of_false (by simp) fun heq => hp ?_
        rw [hel.1, hel.2] at heq
        exact t.unique p stp _ heq hheld
      · rw [if_neg hel]
  · intro p q hq
    exact h.label p q (hother hq).2
  · intro p q hq
    obtain ⟨hp, hq'⟩ := hother hq
    have hold := h.index p q hq'
    have hne : q.stIndex ≠ txq.stIndex := by
      intro heq
      rw [heq, hs] at hold
      exact hp (Option.some.inj hold).symm
    rw [detach_sStp_of_ne hne, hold]
  · intro i p hi
    obtain ⟨hne, hi'⟩ := hslot hi
    obtain ⟨q, hq, hidx⟩ := h.slot i p hi'
    have hp : p ≠ stp := by
      rintro rfl
      rw [htxq] at hq
      cases hq
      exact hne hidx.symm
    exact ⟨q, (detach_txq_of_ne hp).trans hq, hidx⟩
  · intro i p hi
    exact h.bound i p (hslot hi).2
  · intro p hmade
    by_cases hp : p = stp
    · subst hp
      exact detach_txq_self
    · rw [detach_txq_of_ne hp]
      exact h.fresh p hmade
  · change a.sTxQcount - 1 = (attached (Function.update a.sStp txq.stIndex none)).card
    rw [attached_none, Finset.card_erase_of_mem (h.mem_attached hs), h.count]

/-- **The label is given back.** -/
theorem Inv.qfini_eq (h : Inv a t) {index : ℕ} (hs : a.sStp index = some stp) (htxq : a.txq stp = some txq) :
    txQfini index a = .ret () (a.detach stp txq) := by
  have hidx : txq.stIndex = index := by
    obtain ⟨txq', htxq', hidx⟩ := h.slot index stp hs
    rw [htxq] at htxq'
    cases htxq'
    exact hidx
  subst hidx
  have hlabel := h.label stp txq htxq
  have htable : a.seLabelStp txq.stEvq txq.stLabel = some stp := (h.table _ _ _).mpr (h.held_some htxq)
  have hcount : 0 < a.sTxQcount := by
    rw [h.count]
    exact Finset.card_pos.mpr ⟨_, h.mem_attached hs⟩
  let a1 : Adapter := { a with sStp := Function.update a.sStp txq.stIndex none, sTxQcount := a.sTxQcount - 1 }
  have hfree : evTxlabelFree txq.stEvq stp txq.stLabel a1 = .ret () (a1.setLabelStp txq.stEvq txq.stLabel none) := by
    rw [evTxlabelFree, bind_of_ret (ensure_pos (Nat.not_lt.mpr hlabel.le)), if_pos hlabel]
    exact bind_of_ret (ensure_pos htable)
  have hload : loadTxq (a.sStp txq.stIndex) a = .ret (stp, txq) a := by
    rw [hs]
    simp only [loadTxq, htxq]
  change (loadTxq (a.sStp txq.stIndex) >>= _) a = _
  refine (bind_of_ret hload).trans ?_
  change (when (¬ a.sTxQcount > 0) stuck >>= _) a = _
  rw [when_neg (not_not.mpr hcount)]
  change (attempt (evTxlabelFree txq.stEvq stp txq.stLabel) >>= _) a1 = _
  exact bind_of_ret (attempt_of_ret hfree)

/-! ### What the tables say -/

/-- A label is five bits of the event. -/
theorem magic_label : ∀ label < SFXGE_TX_NLABELS,
    BitVec.ofNat 16 label &&& SFXGE_MAGIC_DMAQ_LABEL_MASK = BitVec.ofNat 16 label ∧
      ((SFXGE_MAGIC_TX_QFLUSH_DONE ||| BitVec.ofNat 16 label) &&& SFXGE_MAGIC_DMAQ_LABEL_MASK).toNat = label ∧
      (SFXGE_MAGIC_TX_QFLUSH_DONE ||| BitVec.ofNat 16 label) &&& ~~~SFXGE_MAGIC_DMAQ_LABEL_MASK =
        SFXGE_MAGIC_TX_QFLUSH_DONE := by
  decide

theorem Inv.at_slot (h : Inv a t) (hq : (a.sStp index).bind a.txq = some txq) :
    ∃ stp, a.txq stp = some txq ∧ txq.stIndex = index := by
  obtain ⟨stp, hs, htxq⟩ := Option.bind_eq_some_iff.mp hq
  obtain ⟨txq', htxq', hidx⟩ := h.slot index stp hs
  rw [htxq] at htxq'
  cases htxq'
  exact ⟨stp, htxq, hidx⟩

theorem Inv.slot_of_txq (h : Inv a t) (htxq : a.txq stp = some txq) : (a.sStp txq.stIndex).bind a.txq = some txq := by
  rw [h.index stp txq htxq]
  exact htxq

theorem Inv.table_of_txq (h : Inv a t) (htxq : a.txq stp = some txq) :
    a.seLabelStp txq.stEvq txq.stLabel = some stp := (h.table _ _ _).mpr (h.held_some htxq)

/-- What a table leads to is in memory, and has that label. -/
theorem Inv.txq_of_table (h : Inv a t) (htable : a.seLabelStp evq label = some stp) :
    ∃ txq, a.txq stp = some txq ∧ txq.stEvq = evq ∧ txq.stLabel = label := by
  have hheld := (h.table evq label stp).mp htable
  rw [h.held] at hheld
  obtain ⟨txq, htxq, heq⟩ := Option.map_eq_some_iff.mp hheld
  cases heq
  exact ⟨txq, htxq, rfl, rfl⟩

/-- **The queues are those that stopping and flushing take for given.** -/
theorem Inv.describes (h : Inv a t) : ∃ d, Describes a d := by
  refine ⟨{
    size := SFXGE_RX_SCALE_MAX * SFXGE_TXQ_NTYPES
    stEvq := fun index => ((a.sStp index).bind a.txq).map Txq.stEvq
    stLabel := fun index => (((a.sStp index).bind a.txq).map Txq.stLabel).getD 0
    seLabelStp := fun e label => ((a.seLabelStp e label).bind a.txq).map Txq.stIndex
    lt_size := ?_
    label_stp := ?_
    stp_evq := ?_ }, rfl, fun _ => rfl, fun index txq hq => ?_, fun _ _ => rfl⟩
  · intro index e hevq
    obtain ⟨txq, hq, -⟩ := Option.map_eq_some_iff.mp hevq
    obtain ⟨stp, htxq, hidx⟩ := h.at_slot hq
    rw [← hidx]
    exact h.bound _ _ (h.index stp txq htxq)
  · intro index e hevq
    obtain ⟨txq, hq, rfl⟩ := Option.map_eq_some_iff.mp hevq
    obtain ⟨stp, htxq, hidx⟩ := h.at_slot hq
    rw [hq]
    change ((a.seLabelStp txq.stEvq txq.stLabel).bind a.txq).map Txq.stIndex = some index
    rw [h.table_of_txq htxq, Option.bind_some, htxq, Option.map_some, hidx]
  · intro index e label hstp
    obtain ⟨txq, hq, rfl⟩ := Option.map_eq_some_iff.mp hstp
    obtain ⟨stp, htable, htxq⟩ := Option.bind_eq_some_iff.mp hq
    obtain ⟨txq', htxq', rfl, -⟩ := h.txq_of_table htable
    rw [htxq] at htxq'
    cases htxq'
    rw [h.slot_of_txq htxq]
    rfl
  · change (((a.sStp index).bind a.txq).map Txq.stLabel).getD 0 = _
    rw [hq]
    rfl

end Inv

/-! ### Every step -/

/-- What the adapter and the events are between steps. -/
structure Sound (s : Sys) : Prop where
  inv : ∃ t, Inv s.adapter t
  about : ∀ ev ∈ s.soft, ev.about < s.adapter.made
  magic : ∀ ev ∈ s.soft, ev.magic &&& ~~~SFXGE_MAGIC_DMAQ_LABEL_MASK = SFXGE_MAGIC_TX_QFLUSH_DONE

section Steps

variable {s s' : Sys} {t : Tenancy ℕ (ℕ × ℕ)}

theorem Sound.labelled (h : Sound s)
    (hrefused : ∀ e, s.rc = some e → e = .ENOMEM ∨ (e = .ENOSPC ∧ firstFree (s.adapter.seLabelStp s.asked) = none))
    (hdefined : s.broken = false) (hled : s.misled = false)
    (hway : ∀ ev ∈ s.soft, ∀ stp, s.adapter.seLabelStp ev.evq ev.label = some stp → stp = ev.about) : Labelled s := by
  obtain ⟨t, hinv⟩ := h.inv
  refine ⟨hinv.describes, fun index txq hq => ?_, hrefused, hdefined, hled, hway⟩
  obtain ⟨stp, htxq, -⟩ := hinv.at_slot hq
  exact hinv.label stp txq htxq

theorem Sys.call_ret {p : LabelProg Unit} {adapter : Adapter} (h : p s.adapter = .ret () adapter) :
    s.call p = { s with adapter, rc := none } := by
  rw [Sys.call, h]

theorem Sys.call_err {p : LabelProg Unit} {adapter : Adapter} {e : Errno} (h : p s.adapter = .err e adapter) :
    s.call p = { s with adapter, rc := some e } := by
  rw [Sys.call, h]

/-- What `sfxge_tx_qinit` does to the adapter: nothing but to use up a number, or the new queue. -/
inductive Qinit (s : Sys) (index type evq : ℕ) (mem kstat : Bool) : Sys → Prop
  | fails (made : ℕ) (e : Errno) (hmade : s.adapter.made ≤ made)
      (he : e = .ENOMEM ∨ (e = .ENOSPC ∧ firstFree (s.adapter.seLabelStp evq) = none))
      (hnone : mem = true → kstat = true → firstFree (s.adapter.seLabelStp evq) = none) :
      Qinit s index type evq mem kstat { s with asked := evq, adapter := { s.adapter with made }, rc := some e }
  | attaches (label : ℕ) (hmem : mem = true) (hkstat : kstat = true)
      (hlabel : firstFree (s.adapter.seLabelStp evq) = some label) :
      Qinit s index type evq mem kstat
        { s with asked := evq, adapter := s.adapter.attach index type evq label, rc := none }

theorem Inv.qinit_cases (h : Inv s.adapter t) {index : ℕ} (type evq : ℕ) (mem kstat : Bool)
    (hslot : s.adapter.sStp index = none) :
    Qinit s index type evq mem kstat ({ s with asked := evq }.call (txQinit index type evq mem kstat)) := by
  let s1 : Sys := { s with asked := evq }
  cases mem with
  | false =>
    have hmem : txQinit index type evq false kstat s1.adapter = .err .ENOMEM s.adapter := rfl
    rw [Sys.call_err hmem]
    exact .fails s.adapter.made .ENOMEM le_rfl (Or.inl rfl) (by simp)
  | true =>
    cases kstat with
    | false =>
      rw [Sys.call_err (s := s1) (h.qinit_no_kstat index type evq)]
      exact .fails (s.adapter.made + 1) .ENOMEM (Nat.le_succ _) (Or.inl rfl) (by simp)
    | true =>
      cases hfree : firstFree (s.adapter.seLabelStp evq) with
      | none =>
        rw [Sys.call_err (s := s1) (h.qinit_full index type hfree)]
        exact .fails (s.adapter.made + 1) .ENOSPC (Nat.le_succ _) (Or.inr ⟨rfl, hfree⟩) fun _ _ => hfree
      | some label =>
        rw [Sys.call_ret (s := s1) (h.qinit_first type hslot hfree)]
        exact .attaches label rfl rfl hfree

theorem Inv.qfini_cases (h : Inv s.adapter t) {index : ℕ} (hslot : s.adapter.sStp index ≠ none) :
    ∃ stp txq, s.adapter.txq stp = some txq ∧ s.call (txQfini index) =
      { s with adapter := s.adapter.detach stp txq, rc := none } := by
  obtain ⟨stp, hs⟩ := Option.ne_none_iff_exists'.mp hslot
  obtain ⟨txq, htxq, -⟩ := h.slot index stp hs
  exact ⟨stp, txq, htxq, Sys.call_ret (h.qfini_eq hs htxq)⟩

/-- The event for another event queue is sent on under the label of the queue. -/
theorem Inv.flushDone_cases (h : Inv s.adapter t) (e txqIndex : ℕ) : s.evTxqFlushDone e txqIndex = s ∨
    ∃ stp txq, s.adapter.txq stp = some txq ∧ s.evTxqFlushDone e txqIndex =
      { s with soft := s.soft ++ [⟨txq.stEvq, SFXGE_MAGIC_TX_QFLUSH_DONE ||| BitVec.ofNat 16 txq.stLabel, stp⟩] } := by
  unfold Sys.evTxqFlushDone
  cases hs : s.adapter.sStp txqIndex with
  | none => exact Or.inl rfl
  | some stp =>
    obtain ⟨txq, htxq, -⟩ := h.slot txqIndex stp hs
    simp only [htxq]
    by_cases hevq : txq.stEvq = e
    · exact Or.inl (if_pos hevq)
    · rw [if_neg hevq, if_pos (magic_label _ (h.label stp txq htxq)).1]
      exact Or.inr ⟨stp, txq, htxq, rfl⟩

/-- An event that still leads to its queue, or to none, does no harm. -/
theorem Sound.software_eq (h : Sound s) {ev : Soft}
    (hmagic : ev.magic &&& ~~~SFXGE_MAGIC_DMAQ_LABEL_MASK = SFXGE_MAGIC_TX_QFLUSH_DONE) :
    s.evSoftware ev = { s with
      misled := s.misled || (s.adapter.seLabelStp ev.evq ev.label).any fun stp => decide (stp ≠ ev.about) } := by
  obtain ⟨t, hinv⟩ := h.inv
  unfold Sys.evSoftware
  rw [if_pos hmagic]
  cases htable : s.adapter.seLabelStp ev.evq ev.label with
  | none => simp
  | some stp =>
    obtain ⟨txq, htxq, hevq, -⟩ := hinv.txq_of_table htable
    simp only [htxq, if_pos hevq, Option.any_some]

theorem Sound.kept (h : Sound s) {o : Op} (hs : step o s = some s') : Sound s' := by
  obtain ⟨t, hinv⟩ := h.inv
  cases o with
  | qinit index type evq mem kstat =>
    rw [step] at hs
    split_ifs at hs with hguard
    obtain ⟨hbound, -, -, hslot⟩ := hguard
    have hqinit := hinv.qinit_cases type evq mem kstat hslot
    rw [Option.some.inj hs] at hqinit
    cases hqinit with
    | fails made e hmade he hnone =>
      exact ⟨⟨t, hinv.skip hmade⟩, fun ev hev => (h.about ev hev).trans_le hmade, h.magic⟩
    | attaches label hmem hkstat hlabel =>
      obtain ⟨hlt, hfree⟩ := firstFree_some hlabel
      exact ⟨⟨_, hinv.attach type hbound hslot hlt hfree⟩, fun ev hev => Nat.lt_succ_of_lt (h.about ev hev), h.magic⟩
  | qfini index =>
    rw [step] at hs
    split_ifs at hs with hslot
    cases hs
    obtain ⟨stp, txq, htxq, heq⟩ := hinv.qfini_cases hslot
    rw [heq]
    exact ⟨⟨_, hinv.detach htxq⟩, h.about, h.magic⟩
  | flushDone e txqIndex =>
    cases hs
    rcases hinv.flushDone_cases e txqIndex with heq | ⟨stp, txq, htxq, heq⟩
    · rwa [heq]
    · rw [heq]
      refine ⟨⟨t, hinv⟩, fun ev hev => ?_, fun ev hev => ?_⟩
      · rcases List.mem_append.mp hev with hev | hev
        · exact h.about ev hev
        · rw [List.mem_singleton.mp hev]
          by_contra hnot
          rw [hinv.fresh stp (not_lt.mp hnot)] at htxq
          cases htxq
      · rcases List.mem_append.mp hev with hev | hev
        · exact h.magic ev hev
        · rw [List.mem_singleton.mp hev]
          exact (magic_label _ (hinv.label stp txq htxq)).2.2
  | software k =>
    obtain ⟨ev, hev, rfl⟩ := Option.map_eq_some_iff.mp hs
    have hsound : Sound { s with soft := s.soft.eraseIdx k } :=
      ⟨h.inv, fun ev hev => h.about ev (List.mem_of_mem_eraseIdx hev),
        fun ev hev => h.magic ev (List.mem_of_mem_eraseIdx hev)⟩
    rw [hsound.software_eq (h.magic ev (List.mem_of_getElem? hev))]
    exact ⟨hsound.inv, hsound.about, hsound.magic⟩
  | evStop e =>
    cases hs
    exact ⟨h.inv, fun ev hev => h.about ev (List.mem_of_mem_filter hev),
      fun ev hev => h.magic ev (List.mem_of_mem_filter hev)⟩

/-- **Step lemma.** -/
theorem Sound.labelled_iff (h : Sound s) (hl : Labelled s) {o : Op} (hs : step o s = some s') :
    Labelled s' ↔ Clear o s := by
  have h' := h.kept hs
  obtain ⟨t, hinv⟩ := h.inv
  cases o with
  | qinit index type evq mem kstat =>
    rw [step] at hs
    split_ifs at hs with hguard
    have hqinit := hinv.qinit_cases type evq mem kstat hguard.2.2.2
    rw [Option.some.inj hs] at hqinit
    cases hqinit with
    | fails made e hmade he hnone =>
      refine iff_of_true (h'.labelled (fun e' he' => ?_) hl.defined hl.led hl.onTheWay)
        fun hmem hkstat label hlabel => ?_
      · cases he'
        exact he
      · rw [hnone hmem hkstat] at hlabel
        cases hlabel
    | attaches label hmem hkstat hlabel =>
      constructor
      · intro hl' _ _ label' hlabel' ev hev hevq heq
        rw [hlabel] at hlabel'
        cases hlabel'
        have hled := hl'.onTheWay ev hev s.adapter.made ((attach_seLabelStp _ _).trans (if_pos ⟨hevq, heq⟩))
        have hlt := h.about ev hev
        omega
      · intro hclear
        refine h'.labelled (fun e he => by cases he) hl.defined hl.led fun ev hev stp hstp => ?_
        change (s.adapter.attach index type evq label).seLabelStp ev.evq ev.label = some stp at hstp
        rw [attach_seLabelStp] at hstp
        split_ifs at hstp with hel
        · exact absurd hel.2 (hclear hmem hkstat label hlabel ev hev hel.1)
        · exact hl.onTheWay ev hev stp hstp
  | qfini index =>
    rw [step] at hs
    split_ifs at hs with hslot
    cases hs
    obtain ⟨stp, txq, htxq, heq⟩ := hinv.qfini_cases hslot
    rw [heq] at h' ⊢
    refine iff_of_true (h'.labelled (fun e he => by cases he) hl.defined hl.led fun ev hev p hp => ?_) trivial
    change (s.adapter.detach stp txq).seLabelStp ev.evq ev.label = some p at hp
    rw [detach_seLabelStp] at hp
    split_ifs at hp with hel
    exact hl.onTheWay ev hev p hp
  | flushDone e txqIndex =>
    cases hs
    rcases hinv.flushDone_cases e txqIndex with heq | ⟨stp, txq, htxq, heq⟩
    · rw [heq]
      exact iff_of_true hl trivial
    · rw [heq] at h' ⊢
      refine iff_of_true (h'.labelled hl.refused hl.defined hl.led fun ev hev p hp => ?_) trivial
      rcases List.mem_append.mp hev with hev | hev
      · exact hl.onTheWay ev hev p hp
      · obtain rfl := List.mem_singleton.mp hev
        have hlabel := (magic_label _ (hinv.label stp txq htxq)).2.1
        change s.adapter.seLabelStp txq.stEvq ((SFXGE_MAGIC_TX_QFLUSH_DONE ||| BitVec.ofNat 16 txq.stLabel) &&&
          SFXGE_MAGIC_DMAQ_LABEL_MASK).toNat = some p at hp
        rw [hlabel, hinv.table_of_txq htxq] at hp
        exact (Option.some.inj hp).symm
  | software k =>
    obtain ⟨ev, hev, rfl⟩ := Option.map_eq_some_iff.mp hs
    have hmem := List.mem_of_getElem? hev
    have hsound : Sound { s with soft := s.soft.eraseIdx k } :=
      ⟨h.inv, fun ev hev => h.about ev (List.mem_of_mem_eraseIdx hev),
        fun ev hev => h.magic ev (List.mem_of_mem_eraseIdx hev)⟩
    rw [hsound.software_eq (h.magic ev hmem)] at h' ⊢
    refine iff_of_true (h'.labelled hl.refused hl.defined ?_
      fun ev hev => hl.onTheWay ev (List.mem_of_mem_eraseIdx hev)) trivial
    change (s.misled || (s.adapter.seLabelStp ev.evq ev.label).any fun stp => decide (stp ≠ ev.about)) = false
    rw [hl.led, Bool.false_or]
    cases htable : s.adapter.seLabelStp ev.evq ev.label with
    | none => rfl
    | some stp => simp [hl.onTheWay ev hmem stp htable]
  | evStop e =>
    cases hs
    exact iff_of_true (h'.labelled hl.refused hl.defined hl.led
      fun ev hev => hl.onTheWay ev (List.mem_of_mem_filter hev)) trivial

/-- **A label leads to its queue.**  In a run in which queues come and go and flush events are sent on, the tables are
those that stopping and flushing take for given, and no event gets to a queue that it is not about, as long as no new
queue is given the label of an event on its way, and no longer. -/
theorem labels_lead_iff (ops : List Op) :
    AlwaysAlong step Labelled ops Sys.start ↔ StepsAlong step Clear ops Sys.start := by
  have hsound : Sound Sys.start := ⟨⟨_, inv_start⟩, fun ev hev => absurd hev List.not_mem_nil,
    fun ev hev => absurd hev List.not_mem_nil⟩
  refine alwaysAlong_iff_of_inv (I := Sound) (fun o s s' h hs => h.kept hs) (fun o s s' h hl hs => h.labelled_iff hl hs)
    ops hsound (hsound.labelled (fun e he => by cases he) rfl rfl fun ev hev => absurd hev List.not_mem_nil)

end Steps

end Sfxge.Tx.Label
