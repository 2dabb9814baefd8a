import Mathlib.Algebra.BigOperators.Group.Finset.Basic
import Mathlib.Data.Finset.Card
import Sfxge.Nic.Start

/-!
# Nic.Unwind — a start that fails

Between two stages of a start, the adapter has a `Shape`.  A stage that is undone leads from its own shape to
the one before, and changes nothing of the event queues that are not started; what a stage that fails leaves is
decided by the world alone.
-/

namespace Sfxge.Nic

open Lib Prog NicState EvqState Tx.TxqState Rx.RxqState IntrState SramState MacState RxScaleState MonState

variable {b : Board} {w : World} {s s' : Adapter}

/-! ### Single steps -/

theorem assert_of {c : Adapter → Prop} [∀ s, Decidable (c s)] (h : c s) : assert c s = .ret () s := by
  rw [assert, modify_apply, decide_eq_true h, Bool.and_true]

theorem assert_bind {c : Adapter → Prop} [∀ s, Decidable (c s)] {f : Unit → Prog Adapter Errno Unit} (h : c s) :
    (assert c >>= f) s = f () s :=
  bind_of_ret (assert_of h)

theorem check_of {c : Adapter → Prop} [∀ s, Decidable (c s)] {e : Errno} (h : c s) : check c e s = .ret () s :=
  if_pos h

theorem check_not {c : Adapter → Prop} [∀ s, Decidable (c s)] {e : Errno} (h : ¬ c s) : check c e s = .err e s :=
  if_neg h

theorem check_bind {c : Adapter → Prop} [∀ s, Decidable (c s)] {e : Errno} {f : Unit → Prog Adapter Errno Unit}
    (h : c s) : (check c e >>= f) s = f () s :=
  bind_of_ret (check_of h)

theorem modify_bind {g : Adapter → Adapter} {f : Unit → Prog Adapter Errno Unit} :
    (modify g >>= f) s = f () (g s) := rfl

theorem get_bind {f : Adapter → Prog Adapter Errno Unit} : (get >>= f) s = f s s := rfl

@[simp] theorem outcome_none : outcome none s = .ret () s := rfl

@[simp] theorem outcome_some (e : Errno) : outcome (some e) s = .err e s := rfl

theorem ignore_of_ret {p : Prog Adapter Errno Unit} (h : p s = .ret () s') : ignore p s = .ret () s' :=
  bind_of_ret (attempt_of_ret h)

theorem ignore_of_err {p : Prog Adapter Errno Unit} {e : Errno} (h : p s = .err e s') : ignore p s = .ret () s' :=
  bind_of_ret (attempt_of_err h)

/-! ### Shapes -/

/-- How far the parts of the adapter are started: `evqs`, `rxqs` and `txqs` queues, of which the transmit queues
below `unflushed` have not been flushed; the common code has made `evqsMade`, `rxqsMade` and `txqsMade` queues,
and `bufs` entries of the buffer table are in use. -/
structure Shape where
  state : NicState
  flags : Finset Mod
  intr : IntrState
  sram : SramState
  bufs : ℕ
  evqs : ℕ
  evqsMade : ℕ
  mac : MacState
  scale : RxScaleState
  rxqs : ℕ
  rxqsMade : ℕ
  txqs : ℕ
  unflushed : ℕ
  txqsMade : ℕ
  mon : MonState

/-- The state of the transmit queue `i`, where those below `txqs` are started and those from `unflushed` on
flushed. -/
def TxqIs (txqs unflushed i : ℕ) (st : Tx.TxqState) : Prop :=
  if i < txqs then (if i < unflushed then st = SFXGE_TXQ_STARTED else st.Flushing) else st = SFXGE_TXQ_INITIALIZED

/-- The adapter has the shape. -/
structure Fits (b : Board) (p : Shape) (s : Adapter) : Prop where
  state : s.sState = p.state
  flags : s.enModFlags = p.flags
  evQcount : s.enEvQcount = p.evqsMade
  rxQcount : s.enRxQcount = p.rxqsMade
  txQcount : s.enTxQcount = p.txqsMade
  intr : s.siState = p.intr
  sram : s.ssState = p.sram
  count : s.ssCount = p.bufs
  evq : ∀ i < b.nalloc, (s.sep i).seState = if i < p.evqs then SFXGE_EVQ_STARTED else SFXGE_EVQ_INITIALIZED
  mac : s.smState = p.mac
  scale : s.srsState = p.scale
  rxq : ∀ i < b.nalloc, s.srState i = if i < p.rxqs then SFXGE_RXQ_STARTED else SFXGE_RXQ_INITIALIZED
  txq : ∀ i, b.stEvq i ≠ none → TxqIs p.txqs p.unflushed i (s.stState i)
  mon : s.monState = p.mon

/-- The event queues from `n` on are as a full stop leaves them. -/
def Clean (b : Board) (n : ℕ) (s : Adapter) : Prop := ∀ i < b.nalloc, n ≤ i → s.sep i = .stopped

/-- The adapter has the shape, and nothing has gone wrong. -/
structure Good (b : Board) (p : Shape) (s : Adapter) : Prop where
  fits : Fits b p s
  passed : s.passed = true
  fromZero : s.fromZero = true
  clean : Clean b p.evqs s

/-- The adapter has the shape after a failure, and nothing has gone wrong exactly when `K`. -/
structure Failed (b : Board) (K : Prop) (p : Shape) (s : Adapter) : Prop where
  fits : Fits b p s
  fromZero : s.fromZero = true
  iff : s.passed = true ∧ Clean b p.evqs s ↔ K

theorem Good.failed {K : Prop} {p : Shape} (h : Good b p s) (hK : K) : Failed b K p s :=
  ⟨h.fits, h.fromZero, iff_of_true ⟨h.passed, h.clean⟩ hK⟩

/-- `u` leads from the shape `p` down to `p'`, and leaves alone what is not started. -/
def Undoes (b : Board) (p p' : Shape) (u : Prog Adapter Errno Unit) : Prop :=
  ∀ s, Fits b p s → ∃ s', u s = .ret () s' ∧ Fits b p' s' ∧ s'.passed = s.passed ∧ s'.fromZero = s.fromZero ∧
    (∀ i, p.evqs ≤ i → s'.sep i = s.sep i) ∧ ∀ i, p'.evqs ≤ i → i < p.evqs → s'.sep i = .stopped

namespace Undoes

variable {p p' p'' : Shape} {u v : Prog Adapter Errno Unit}

theorem bind (hu : Undoes b p p' u) (hv : Undoes b p' p'' v) (hle : p'.evqs ≤ p.evqs) :
    Undoes b p p'' (u >>= fun _ => v) := by
  intro s hs
  obtain ⟨s1, hu1, hfit1, hpass1, hzero1, hrest1, hstop1⟩ := hu s hs
  obtain ⟨s2, hu2, hfit2, hpass2, hzero2, hrest2, hstop2⟩ := hv s1 hfit1
  refine ⟨s2, (bind_of_ret hu1).trans hu2, hfit2, hpass2.trans hpass1, hzero2.trans hzero1, fun i hi => ?_,
    fun i hi hlt => ?_⟩
  · rw [hrest2 i (hle.trans hi), hrest1 i hi]
  · by_cases h1 : i < p'.evqs
    · exact hstop2 i hi h1
    · rw [hrest2 i (Nat.not_lt.mp h1)]
      exact hstop1 i (Nat.not_lt.mp h1) hlt

theorem clean_iff (hle : p'.evqs ≤ p.evqs) (hrest : ∀ i, p.evqs ≤ i → s'.sep i = s.sep i)
    (hstop : ∀ i, p'.evqs ≤ i → i < p.evqs → s'.sep i = .stopped) : Clean b p'.evqs s' ↔ Clean b p.evqs s := by
  constructor
  · intro h i hlt hi
    rw [← hrest i hi]
    exact h i hlt (hle.trans hi)
  · intro h i hlt hi
    by_cases h1 : i < p.evqs
    · exact hstop i hi h1
    · rw [hrest i (Nat.not_lt.mp h1)]
      exact h i hlt (Nat.not_lt.mp h1)

theorem good (hu : Undoes b p p' u) (hle : p'.evqs ≤ p.evqs) {E : Adapter → Prop} :
    Triple (Good b p) u (fun _ => Good b p') E := by
  intro s hs
  obtain ⟨s', hu', hfit, hpass, hzero, hrest, hstop⟩ := hu s hs.fits
  exact Or.inl ⟨(), s', hu', hfit, hpass.trans hs.passed, hzero.trans hs.fromZero,
    (clean_iff hle hrest hstop).mpr hs.clean⟩

theorem failed (hu : Undoes b p p' u) (hle : p'.evqs ≤ p.evqs) {K : Prop} {E : Adapter → Prop} :
    Triple (Failed b K p) u (fun _ => Failed b K p') E := by
  intro s hs
  obtain ⟨s', hu', hfit, hpass, hzero, hrest, hstop⟩ := hu s hs.fits
  refine Or.inl ⟨(), s', hu', hfit, hzero.trans hs.fromZero, ?_⟩
  rw [hpass, clean_iff hle hrest hstop]
  exact hs.iff

theorem descend {p : ℕ → Shape} {down : ℕ → Prog Adapter Errno Unit} {n : ℕ} (hmono : Monotone fun k => (p k).evqs)
    (h : ∀ k < n, Undoes b (p (k + 1)) (p k) (down k)) : Undoes b (p n) (p 0) (Prog.descend down n) := by
  induction n with
  | zero => exact fun s hs => ⟨s, rfl, hs, rfl, rfl, fun _ _ => rfl, fun i h0 h1 => absurd h1 (Nat.not_lt.mpr h0)⟩
  | succ n ih =>
    exact (h n n.lt_succ_self).bind (ih fun k hk => h k (Nat.lt_succ_of_lt hk)) (hmono n.le_succ)

end Undoes

/-- What is undone leaves the event queues alone. -/
theorem Undoes.of_same {p p' : Shape} {u : Prog Adapter Errno Unit} (hevqs : p'.evqs = p.evqs)
    (h : ∀ s, Fits b p s → ∃ s', u s = .ret () s' ∧ Fits b p' s' ∧ s'.passed = s.passed ∧
      s'.fromZero = s.fromZero ∧ s'.sep = s.sep) : Undoes b p p' u := by
  intro s hs
  obtain ⟨s', hu, hfit, hpass, hzero, hsep⟩ := h s hs
  exact ⟨s', hu, hfit, hpass, hzero, fun i _ => congrFun hsep i, fun i h0 h1 => absurd h1 (by omega)⟩

/-! ### The stages -/

def nicFlags : Finset Mod := insert .NIC attached
def filterFlags : Finset Mod := insert .FILTER nicFlags
def intrFlags : Finset Mod := insert .INTR filterFlags
def evFlags : Finset Mod := insert .EV intrFlags
def portFlags : Finset Mod := insert .PORT evFlags
def rxFlags : Finset Mod := insert .RX portFlags
def txFlags : Finset Mod := insert .TX rxFlags
def monFlags : Finset Mod := insert .MON txFlags

/-- The number of transmit queues below `n`. -/
def Board.txqs (b : Board) : ℕ → ℕ
  | 0 => 0
  | n + 1 => if b.stEvq n = none then b.txqs n else b.txqs n + 1

/-- Nothing is started. -/
def ground (b : Board) (st : NicState) : Shape where
  state := st
  flags := attached
  intr := SFXGE_INTR_INITIALIZED
  sram := SFXGE_SRAM_INITIALIZED
  bufs := 0
  evqs := 0
  evqsMade := 0
  mac := SFXGE_MAC_INITIALIZED
  scale := SFXGE_RX_SCALE_INITIALIZED
  rxqs := 0
  rxqsMade := 0
  txqs := 0
  unflushed := b.ntxq
  txqsMade := 0
  mon := SFXGE_MON_INITIALIZED

def nicUp (b : Board) (st : NicState) : Shape := { ground b st with flags := nicFlags }

def filterUp (b : Board) (st : NicState) : Shape := { nicUp b st with flags := filterFlags }

def sramUp (b : Board) (st : NicState) : Shape := { filterUp b st with sram := SFXGE_SRAM_STARTED }

def intrUp (b : Board) (st : NicState) : Shape :=
  { sramUp b st with
    flags := intrFlags
    intr := SFXGE_INTR_STARTED }

/-- `k` event queues are started. -/
def evqUp (b : Board) (st : NicState) (k : ℕ) : Shape :=
  { intrUp b st with
    flags := evFlags
    bufs := ∑ i ∈ Finset.range k, b.evqNbufs i
    evqs := k
    evqsMade := k }

def macUp (b : Board) (st : NicState) : Shape :=
  { evqUp b st b.nalloc with
    flags := portFlags
    mac := SFXGE_MAC_STARTED }

/-- `k` receive queues are started. -/
def rxqUp (b : Board) (st : NicState) (scale : RxScaleState) (k : ℕ) : Shape :=
  { macUp b st with
    flags := rxFlags
    bufs := (macUp b st).bufs + k * b.rxqNbufs
    scale := scale
    rxqs := k
    rxqsMade := k }

def rxUp (b : Board) (st : NicState) : Shape := rxqUp b st SFXGE_RX_SCALE_STARTED b.nalloc

/-- The transmit queues below `k` are started, and those from `u` on flushed. -/
def txqUp (b : Board) (st : NicState) (k u : ℕ) : Shape :=
  { rxUp b st with
    flags := txFlags
    bufs := (rxUp b st).bufs + b.txqs k * b.txqNbufs
    txqs := k
    unflushed := u
    txqsMade := b.txqs k }

def txUp (b : Board) (st : NicState) : Shape := txqUp b st b.ntxq b.ntxq

def monUp (b : Board) (st : NicState) : Shape :=
  { txUp b st with
    flags := monFlags
    mon := SFXGE_MON_STARTED }

variable {st : NicState}

theorem evqUp_succ {k : ℕ} : evqUp b st (k + 1) = { evqUp b st k with
    bufs := (evqUp b st k).bufs + b.evqNbufs k
    evqs := k + 1
    evqsMade := (evqUp b st k).evqsMade + 1 } := by
  simp only [evqUp, Finset.sum_range_succ]

theorem rxqUp_succ {scale : RxScaleState} {k : ℕ} : rxqUp b st scale (k + 1) = { rxqUp b st scale k with
    bufs := (rxqUp b st scale k).bufs + b.rxqNbufs
    rxqs := k + 1
    rxqsMade := (rxqUp b st scale k).rxqsMade + 1 } := by
  simp only [rxqUp, Nat.succ_mul, Nat.add_assoc]

theorem txqUp_succ {k u : ℕ} (h : b.stEvq k ≠ none) : txqUp b st (k + 1) u = { txqUp b st k u with
    bufs := (txqUp b st k u).bufs + b.txqNbufs
    txqs := k + 1
    txqsMade := (txqUp b st k u).txqsMade + 1 } := by
  simp only [txqUp, Board.txqs, if_neg h, Nat.succ_mul, Nat.add_assoc]

theorem txqUp_succ_none {k u : ℕ} (h : b.stEvq k = none) :
    txqUp b st (k + 1) u = { txqUp b st k u with txqs := k + 1 } := by
  simp only [txqUp, Board.txqs, if_pos h]

/-! ### Undoing single steps -/

section

variable {p : Shape}

theorem Undoes.assert {p' : Shape} {c : Adapter → Prop} [∀ s, Decidable (c s)] {u : Prog Adapter Errno Unit}
    (hc : ∀ s, Fits b p s → c s) (hu : Undoes b p p' u) : Undoes b p p' (Nic.assert c >>= fun _ => u) := by
  intro s h
  rw [assert_bind (hc s h)]
  exact hu s h

/-- A module that is initialized is marked as not initialized. -/
theorem undoes_clearMod {m : Mod} {f : Finset Mod} (hf : p.flags.erase m = f) :
    Undoes b p { p with flags := f } (clearMod m) := by
  refine .of_same rfl fun s h =>
    ⟨{ s with enModFlags := s.enModFlags.erase m }, rfl, { h with flags := ?_ }, rfl, rfl, rfl⟩
  show s.enModFlags.erase m = f
  rw [h.flags, hf]

theorem Undoes.assertMod {p' : Shape} {m : Mod} {u : Prog Adapter Errno Unit} (hm : m ∈ p.flags)
    (hu : Undoes b p p' u) : Undoes b p p' (Nic.assertMod m >>= fun _ => u) :=
  .assert (fun _ h => h.flags ▸ hm) hu

theorem Undoes.assertNoMod {p' : Shape} {m : Mod} {u : Prog Adapter Errno Unit} (hm : m ∉ p.flags)
    (hu : Undoes b p p' u) : Undoes b p p' (Nic.assertNoMod m >>= fun _ => u) :=
  .assert (fun _ h => h.flags ▸ hm) hu

theorem undoes_setIntr {intr : IntrState} : Undoes b p { p with intr := intr } (setIntr intr) :=
  .of_same rfl fun s h => ⟨{ s with siState := intr }, rfl, { h with intr := rfl }, rfl, rfl, rfl⟩

theorem undoes_bufTblClear {n : ℕ} (hsram : p.sram = SFXGE_SRAM_STARTED) :
    Undoes b { p with bufs := p.bufs + n } p (sfxgeSramBufTblClear n) := by
  refine .assert (fun s h => h.sram.trans hsram) (.assert (fun s h => ?_) (.of_same rfl fun s h =>
    ⟨{ s with ssCount := s.ssCount - n }, rfl, { h with count := ?_ }, rfl, rfl, rfl⟩))
  · rw [h.count]
    exact Nat.le_add_left ..
  · show s.ssCount - n = _
    rw [h.count]
    exact Nat.add_sub_cancel ..

theorem undoes_evQdestroy : Undoes b { p with evqsMade := p.evqsMade + 1 } p efxEvQdestroy := by
  refine .assert (fun s h => ?_) (.of_same rfl fun s h =>
    ⟨{ s with enEvQcount := s.enEvQcount - 1 }, rfl, { h with evQcount := ?_ }, rfl, rfl, rfl⟩)
  · rw [h.evQcount]
    exact Nat.succ_ne_zero _
  · show s.enEvQcount - 1 = _
    rw [h.evQcount]
    rfl

theorem undoes_rxQdestroy : Undoes b { p with rxqsMade := p.rxqsMade + 1 } p efxRxQdestroy := by
  refine .assert (fun s h => ?_) (.of_same rfl fun s h =>
    ⟨{ s with enRxQcount := s.enRxQcount - 1 }, rfl, { h with rxQcount := ?_ }, rfl, rfl, rfl⟩)
  · rw [h.rxQcount]
    exact Nat.succ_ne_zero _
  · show s.enRxQcount - 1 = _
    rw [h.rxQcount]
    rfl

theorem undoes_txQdestroy : Undoes b { p with txqsMade := p.txqsMade + 1 } p efxTxQdestroy := by
  refine .assert (fun s h => ?_) (.of_same rfl fun s h =>
    ⟨{ s with enTxQcount := s.enTxQcount - 1 }, rfl, { h with txQcount := ?_ }, rfl, rfl, rfl⟩)
  · rw [h.txQcount]
    exact Nat.succ_ne_zero _
  · show s.enTxQcount - 1 = _
    rw [h.txQcount]
    rfl

end

/-! ### Undoing the stages -/

theorem undoes_nicFini : Undoes b (nicUp b st) (ground b st) efxNicFini :=
  .assertMod (show Mod.PROBE ∈ nicFlags by decide) (.assertMod (show Mod.NIC ∈ nicFlags by decide)
    (.assertNoMod (show Mod.INTR ∉ nicFlags by decide) (.assertNoMod (show Mod.EV ∉ nicFlags by decide)
      (.assertNoMod (show Mod.RX ∉ nicFlags by decide) (.assertNoMod (show Mod.TX ∉ nicFlags by decide)
        (undoes_clearMod (show nicFlags.erase .NIC = attached by decide)))))))

theorem undoes_filterFini : Undoes b (filterUp b st) (nicUp b st) efxFilterFini :=
  .assertMod (show Mod.PROBE ∈ filterFlags by decide) (.assertMod (show Mod.FILTER ∈ filterFlags by decide)
    (undoes_clearMod (show filterFlags.erase .FILTER = nicFlags by decide)))

theorem undoes_sramStop : Undoes b (sramUp b st) (filterUp b st) sfxgeSramStop :=
  .assert (fun _ h => h.sram) (.assert (fun _ h => h.count) (.of_same rfl fun s h =>
    ⟨{ s with ssState := SFXGE_SRAM_INITIALIZED }, rfl, { h with sram := rfl }, rfl, rfl, rfl⟩))

theorem undoes_intrFini {intr : IntrState} :
    Undoes b { intrUp b st with intr := intr } { sramUp b st with intr := intr } efxIntrFini :=
  .assertMod (show Mod.NIC ∈ intrFlags by decide) (.assertMod (show Mod.INTR ∈ intrFlags by decide)
    (undoes_clearMod (show intrFlags.erase .INTR = filterFlags by decide)))

theorem undoes_intrStop : Undoes b (intrUp b st) (sramUp b st) sfxgeIntrStop :=
  .assert (fun _ h => h.intr) (undoes_setIntr.bind undoes_intrFini le_rfl)

theorem undoes_evFini : Undoes b (evqUp b st 0) (intrUp b st) efxEvFini :=
  .assertMod (show Mod.INTR ∈ evFlags by decide) (.assertMod (show Mod.EV ∈ evFlags by decide)
    (.assertNoMod (show Mod.RX ∉ evFlags by decide) (.assertNoMod (show Mod.TX ∉ evFlags by decide)
      (.assert (fun _ h => h.evQcount) (undoes_clearMod (show evFlags.erase .EV = intrFlags by decide))))))

/-- The event queue `k`, the last one started, is taken down. -/
theorem undoes_evqStopped {p : Shape} {k : ℕ} (hk : p.evqs = k) :
    Undoes b { p with evqs := k + 1 } p (onEvq k fun _ => .stopped) := by
  intro s h
  refine ⟨{ s with sep := Function.update s.sep k .stopped }, rfl, { h with evq := fun i hi => ?_ }, rfl, rfl,
    fun i hi => ?_, fun i h0 h1 => ?_⟩
  · show (Function.update s.sep k .stopped i).seState = if i < p.evqs then _ else _
    by_cases heq : i = k
    · rw [heq, Function.update_self, if_neg (by omega)]
      rfl
    · rw [Function.update_of_ne heq, h.evq i hi, hk]
      exact if_congr (Nat.lt_succ_iff_lt_or_eq.trans (or_iff_left heq)) rfl rfl
  · have : k + 1 ≤ i := hi
    exact Function.update_of_ne (by omega) _ _
  · have : i < k + 1 := h1
    obtain rfl : i = k := by omega
    exact Function.update_self ..

theorem undoes_evqMade {p : Shape} {n : ℕ} (hsram : p.sram = SFXGE_SRAM_STARTED) :
    Undoes b { p with
      bufs := p.bufs + n
      evqsMade := p.evqsMade + 1 } p (efxEvQdestroy >>= fun _ => sfxgeSramBufTblClear n) := by
  have hdestroy : Undoes b { p with
      bufs := p.bufs + n
      evqsMade := p.evqsMade + 1 } { p with bufs := p.bufs + n } efxEvQdestroy :=
    undoes_evQdestroy (p := { p with bufs := p.bufs + n })
  exact hdestroy.bind (undoes_bufTblClear hsram) le_rfl

theorem undoes_evQstop {k : ℕ} (hk : k < b.nalloc) :
    Undoes b (evqUp b st (k + 1)) (evqUp b st k) (sfxgeEvQstop b k) := by
  refine .assert (fun _ h => (h.evq k hk).trans (if_pos k.lt_succ_self)) ?_
  have hstopped : Undoes b (evqUp b st (k + 1)) { evqUp b st k with
      bufs := (evqUp b st k).bufs + b.evqNbufs k
      evqsMade := (evqUp b st k).evqsMade + 1 } (onEvq k fun _ => .stopped) := by
    rw [evqUp_succ]
    exact undoes_evqStopped (p := { evqUp b st k with
      bufs := (evqUp b st k).bufs + b.evqNbufs k
      evqsMade := (evqUp b st k).evqsMade + 1 }) rfl
  exact hstopped.bind (undoes_evqMade rfl) k.le_succ

theorem undoes_evQstops : Undoes b (evqUp b st b.nalloc) (evqUp b st 0) (descend (sfxgeEvQstop b) b.nalloc) :=
  Undoes.descend (p := evqUp b st) (fun _ _ h => h) fun _ hk => undoes_evQstop hk

theorem undoes_evStop : Undoes b (evqUp b st b.nalloc) (intrUp b st) (sfxgeEvStop b) :=
  .assert (fun _ h => h.intr) (undoes_evQstops.bind undoes_evFini b.nalloc.zero_le)

/-- A call that does nothing to what a shape says. -/
theorem Undoes.skip {p : Shape} {u : Prog Adapter Errno Unit}
    (h : ∀ s, Fits b p s → ∃ d, u s = .ret () { s with epMacDrain := d }) : Undoes b p p u :=
  .of_same rfl fun s hs => (h s hs).elim fun d hu => ⟨{ s with epMacDrain := d }, hu, { hs with }, rfl, rfl, rfl⟩

theorem undoes_statsOff : Undoes b { macUp b st with mac := SFXGE_MAC_INITIALIZED }
    { macUp b st with mac := SFXGE_MAC_INITIALIZED } (when (b.macStatsTimerReqd = false) (ignore (efxMac none))) := by
  refine .skip fun s h => ⟨s.epMacDrain, ?_⟩
  have hport : .PORT ∈ s.enModFlags := h.flags ▸ (show Mod.PORT ∈ portFlags by decide)
  by_cases hb : b.macStatsTimerReqd = false
  · rw [when_pos hb]
    exact ignore_of_ret (assert_bind hport)
  · rw [when_neg hb]
    rfl

theorem efxPortFini_eq (hf : s.enModFlags = portFlags) : efxPortFini s = .ret () { s with
    passed := s.passed && s.epMacDrain
    epMacDrain := false
    enModFlags := evFlags } := by
  have hassert : assert (fun s => s.epMacDrain = true) s = .ret () { s with passed := s.passed && s.epMacDrain } := by
    rw [assert, modify_apply, Bool.decide_eq_true]
  have hprobe : .PROBE ∈ s.enModFlags := hf ▸ (show Mod.PROBE ∈ portFlags by decide)
  have hnic : .NIC ∈ s.enModFlags := hf ▸ (show Mod.NIC ∈ portFlags by decide)
  have hport : .PORT ∈ s.enModFlags := hf ▸ (show Mod.PORT ∈ portFlags by decide)
  rw [efxPortFini]
  refine (assert_bind hprobe).trans ((assert_bind hnic).trans ((assert_bind hport).trans ?_))
  refine (bind_of_ret hassert).trans ?_
  have herase : s.enModFlags.erase .PORT = evFlags := hf ▸ (show portFlags.erase .PORT = evFlags by decide)
  rw [modify_bind, clearMod, modify_apply, herase]

theorem undoes_macStop : Undoes b (macUp b st) (evqUp b st b.nalloc) (sfxgeMacStop b) := by
  refine .assert (fun _ h => h.mac) ?_
  have hset : Undoes b (macUp b st) { macUp b st with mac := SFXGE_MAC_INITIALIZED }
      (modify fun s => { s with smState := SFXGE_MAC_INITIALIZED }) :=
    .of_same rfl fun s h => ⟨_, rfl, { h with mac := rfl }, rfl, rfl, rfl⟩
  refine hset.bind (undoes_statsOff.bind (.of_same rfl fun s h => ?_) le_rfl) le_rfl
  have hf : s.enModFlags = portFlags := h.flags
  have hport : .PORT ∈ s.enModFlags := by rw [hf]; decide
  have hdrain : ignore (efxMacDrain true none) s = .ret () { s with epMacDrain := true } := by
    refine ignore_of_ret ((assert_bind hport).trans (get_bind.trans ?_))
    by_cases hd : s.epMacDrain = true
    · rw [if_pos hd, ← hd]
      rfl
    · rw [if_neg hd]
      rfl
  refine ⟨_, (bind_of_ret hdrain).trans (efxPortFini_eq hf), { h with flags := rfl }, ?_, rfl, rfl⟩
  exact Bool.and_true _

theorem undoes_rxqStopped {p : Shape} {k : ℕ} (hk : p.rxqs = k) :
    Undoes b { p with rxqs := k + 1 } p (setRxq k SFXGE_RXQ_INITIALIZED) := by
  refine .of_same rfl fun s h => ⟨{ s with srState := Function.update s.srState k SFXGE_RXQ_INITIALIZED }, rfl,
    { h with rxq := fun i hi => ?_ }, rfl, rfl, rfl⟩
  show Function.update s.srState k _ i = if i < p.rxqs then _ else _
  by_cases heq : i = k
  · rw [heq, Function.update_self, if_neg (by omega)]
  · rw [Function.update_of_ne heq, h.rxq i hi, hk]
    exact if_congr (Nat.lt_succ_iff_lt_or_eq.trans (or_iff_left heq)) rfl rfl

theorem undoes_rxqMade {p : Shape} {n : ℕ} (hsram : p.sram = SFXGE_SRAM_STARTED) :
    Undoes b { p with
      bufs := p.bufs + n
      rxqsMade := p.rxqsMade + 1 } p (efxRxQdestroy >>= fun _ => sfxgeSramBufTblClear n) := by
  have hdestroy : Undoes b { p with
      bufs := p.bufs + n
      rxqsMade := p.rxqsMade + 1 } { p with bufs := p.bufs + n } efxRxQdestroy :=
    undoes_rxQdestroy (p := { p with bufs := p.bufs + n })
  exact hdestroy.bind (undoes_bufTblClear hsram) le_rfl

theorem undoes_rxQstop {scale : RxScaleState} {k : ℕ} (hk : k < b.nalloc) :
    Undoes b (rxqUp b st scale (k + 1)) (rxqUp b st scale k) (sfxgeRxQstop b k) := by
  refine .assert (fun _ h => (h.rxq k hk).trans (if_pos k.lt_succ_self)) ?_
  have hstopped : Undoes b (rxqUp b st scale (k + 1)) { rxqUp b st scale k with
      bufs := (rxqUp b st scale k).bufs + b.rxqNbufs
      rxqsMade := (rxqUp b st scale k).rxqsMade + 1 } (setRxq k SFXGE_RXQ_INITIALIZED) := by
    rw [rxqUp_succ]
    exact undoes_rxqStopped (p := { rxqUp b st scale k with
      bufs := (rxqUp b st scale k).bufs + b.rxqNbufs
      rxqsMade := (rxqUp b st scale k).rxqsMade + 1 }) rfl
  exact hstopped.bind (undoes_rxqMade rfl) le_rfl

theorem undoes_rxQstops {scale : RxScaleState} :
    Undoes b (rxqUp b st scale b.nalloc) (rxqUp b st scale 0) (descend (sfxgeRxQstop b) b.nalloc) :=
  Undoes.descend (p := rxqUp b st scale) (fun _ _ _ => le_rfl) fun _ hk => undoes_rxQstop hk

theorem undoes_rxScaleStop {k : ℕ} : Undoes b (rxqUp b st SFXGE_RX_SCALE_STARTED k)
    (rxqUp b st SFXGE_RX_SCALE_INITIALIZED k) sfxgeRxScaleStop :=
  .assert (fun _ h => h.scale) (.of_same rfl fun s h =>
    ⟨{ s with srsState := SFXGE_RX_SCALE_INITIALIZED }, rfl, { h with scale := rfl }, rfl, rfl, rfl⟩)

theorem rxqUp_zero : rxqUp b st SFXGE_RX_SCALE_INITIALIZED 0 = { macUp b st with flags := rxFlags } := by
  simp only [rxqUp, Nat.zero_mul, Nat.add_zero]
  rfl

theorem undoes_rxFini : Undoes b (rxqUp b st SFXGE_RX_SCALE_INITIALIZED 0) (macUp b st) efxRxFini := by
  rw [rxqUp_zero]
  exact .assertMod (show Mod.NIC ∈ rxFlags by decide) (.assertMod (show Mod.RX ∈ rxFlags by decide)
    (.assert (fun _ h => h.rxQcount) (undoes_clearMod (show rxFlags.erase .RX = portFlags by decide))))

theorem undoes_rxStop : Undoes b (rxUp b st) (macUp b st) (sfxgeRxStop b) :=
  .assertMod (show Mod.PORT ∈ rxFlags by decide)
    (undoes_rxQstops.bind (undoes_rxScaleStop.bind undoes_rxFini le_rfl) le_rfl)

/-! ### Undoing the transmit queues -/

section

variable {k j i : ℕ} {tst : Tx.TxqState}

theorem txqIs_started (hk : i < k) (hj : i < j) : TxqIs k j i tst ↔ tst = SFXGE_TXQ_STARTED := by
  rw [TxqIs, if_pos hk, if_pos hj]

theorem txqIs_flushed (hk : i < k) (hj : j ≤ i) : TxqIs k j i tst ↔ tst.Flushing := by
  rw [TxqIs, if_pos hk, if_neg (Nat.not_lt.mpr hj)]

theorem txqIs_initialized (hk : k ≤ i) : TxqIs k j i tst ↔ tst = SFXGE_TXQ_INITIALIZED := by
  rw [TxqIs, if_neg (Nat.not_lt.mpr hk)]

/-- The number of flushed queues tells only the queue `j` apart. -/
theorem txqIs_of_ne (hi : i ≠ j) : TxqIs k (j + 1) i tst ↔ TxqIs k j i tst := by
  have hlt : i < j + 1 ↔ i < j := by omega
  rw [TxqIs, TxqIs]
  simp only [hlt]

/-- The number of started queues tells only the queue `k` apart. -/
theorem txqIs_of_ne' (hi : i ≠ k) : TxqIs (k + 1) j i tst ↔ TxqIs k j i tst := by
  have hlt : i < k + 1 ↔ i < k := by omega
  rw [TxqIs, TxqIs]
  simp only [hlt]

theorem flushing_state (f : Flushed) : f.state.Flushing := by
  cases f
  · exact Or.inl rfl
  · exact Or.inr (Or.inl rfl)
  · exact Or.inr (Or.inr rfl)

theorem undoes_txQflush {flushed : ℕ → Flushed} :
    Undoes b (txqUp b st k (j + 1)) (txqUp b st k j) (sfxgeTxQflush b flushed j) := by
  refine .of_same rfl fun s h => ?_
  have htxq : ∀ i, b.stEvq i ≠ none → TxqIs k (j + 1) i (s.stState i) := h.txq
  by_cases hst : b.stEvq j ≠ none ∧ s.stState j = SFXGE_TXQ_STARTED
  · have hk : j < k := by
      by_contra hk
      have hinit := (txqIs_initialized (Nat.not_lt.mp hk)).mp (htxq j hst.1)
      rw [hst.2] at hinit
      cases hinit
    refine ⟨{ s with stState := Function.update s.stState j (flushed j).state }, ?_,
      { h with txq := fun i hi => ?_ }, rfl, rfl, rfl⟩
    · rw [sfxgeTxQflush, get_bind, when_pos hst]
      rfl
    · show TxqIs k j i (Function.update s.stState j _ i)
      by_cases heq : i = j
      · rw [heq, Function.update_self]
        exact (txqIs_flushed hk le_rfl).mpr (flushing_state _)
      · rw [Function.update_of_ne heq]
        exact (txqIs_of_ne heq).mp (htxq i hi)
  · refine ⟨s, ?_, { h with txq := fun i hi => ?_ }, rfl, rfl, rfl⟩
    · rw [sfxgeTxQflush, get_bind, when_neg hst]
      rfl
    · show TxqIs k j i (s.stState i)
      by_cases heq : i = j
      · subst heq
        have hk : k ≤ i := by
          by_contra hk
          exact hst ⟨hi, (txqIs_started (Nat.not_le.mp hk) i.lt_succ_self).mp (htxq i hi)⟩
        exact (txqIs_initialized hk).mpr ((txqIs_initialized hk).mp (htxq i hi))
      · exact (txqIs_of_ne heq).mp (htxq i hi)

theorem undoes_txQflushes {flushed : ℕ → Flushed} :
    Undoes b (txqUp b st k b.ntxq) (txqUp b st k 0) (descend (sfxgeTxQflush b flushed) b.ntxq) :=
  Undoes.descend (p := txqUp b st k) (fun _ _ _ => le_rfl) fun _ _ => undoes_txQflush

/-- A queue that is not started is not stopped. -/
theorem undoes_txQstop_idle {p : Shape} (h : ∀ s, Fits b p s → b.stEvq j ≠ none → s.stState j = SFXGE_TXQ_INITIALIZED) :
    Undoes b p p (sfxgeTxQstop b j) := by
  refine .of_same rfl fun s hs => ⟨s, ?_, hs, rfl, rfl, rfl⟩
  rw [sfxgeTxQstop, get_bind, when_neg]
  · rfl
  · exact fun hst => hst.2 (h s hs hst.1)

theorem undoes_txqStopped {p : Shape} (hk : p.txqs = k) :
    Undoes b { p with txqs := k + 1 } p (setTxq k SFXGE_TXQ_INITIALIZED) := by
  refine .of_same rfl fun s h => ⟨{ s with stState := Function.update s.stState k SFXGE_TXQ_INITIALIZED }, rfl,
    { h with txq := fun i hi => ?_ }, rfl, rfl, rfl⟩
  show TxqIs p.txqs p.unflushed i (Function.update s.stState k _ i)
  rw [hk]
  by_cases heq : i = k
  · rw [heq, Function.update_self]
    exact (txqIs_initialized le_rfl).mpr rfl
  · rw [Function.update_of_ne heq]
    exact (txqIs_of_ne' heq).mp (h.txq i hi)

theorem undoes_txQstop : Undoes b (txqUp b st (k + 1) 0) (txqUp b st k 0) (sfxgeTxQstop b k) := by
  by_cases hnone : b.stEvq k = none
  · rw [txqUp_succ_none hnone]
    refine .of_same rfl fun s h => ⟨s, ?_, { h with txq := fun i hi => ?_ }, rfl, rfl, rfl⟩
    · rw [sfxgeTxQstop, get_bind, when_neg fun hst => hst.1 hnone]
      rfl
    · exact (txqIs_of_ne' fun heq : i = k => hi (heq ▸ hnone)).mp (h.txq i hi)
  · have hdestroy : Undoes b (txqUp b st (k + 1) 0) { txqUp b st k 0 with
        bufs := (txqUp b st k 0).bufs + b.txqNbufs
        txqs := k + 1 } efxTxQdestroy := by
      rw [txqUp_succ hnone]
      exact undoes_txQdestroy (p := { txqUp b st k 0 with
        bufs := (txqUp b st k 0).bufs + b.txqNbufs
        txqs := k + 1 })
    have hclear : Undoes b { txqUp b st k 0 with
        bufs := (txqUp b st k 0).bufs + b.txqNbufs
        txqs := k + 1 } { txqUp b st k 0 with txqs := k + 1 } (sfxgeSramBufTblClear b.txqNbufs) :=
      undoes_bufTblClear (p := { txqUp b st k 0 with txqs := k + 1 }) rfl
    have hstop := hdestroy.bind (hclear.bind (undoes_txqStopped (b := b) (p := txqUp b st k 0) rfl) le_rfl) le_rfl
    intro s h
    have hflush : (s.stState k).Flushing := (txqIs_flushed k.lt_succ_self k.zero_le).mp (h.txq k hnone)
    have hst : b.stEvq k ≠ none ∧ s.stState k ≠ SFXGE_TXQ_INITIALIZED := ⟨hnone, fun hinit => by
      rw [hinit] at hflush
      rcases hflush with h | h | h <;> cases h⟩
    rw [sfxgeTxQstop, get_bind, when_pos hst, assert_bind hflush]
    exact hstop s h

theorem undoes_txQstops (hk : k ≤ b.ntxq) :
    Undoes b (txqUp b st k 0) (txqUp b st 0 0) (descend (sfxgeTxQstop b) b.ntxq) := by
  have h : Undoes b (txqUp b st (min k b.ntxq) 0) (txqUp b st (min k 0) 0) (descend (sfxgeTxQstop b) b.ntxq) := by
    refine Undoes.descend (p := fun n => txqUp b st (min k n) 0) (fun _ _ _ => le_rfl) fun j _ => ?_
    by_cases hj : j < k
    · rw [Nat.min_eq_right hj, Nat.min_eq_right hj.le]
      exact undoes_txQstop
    · rw [Nat.min_eq_left (by omega), Nat.min_eq_left (by omega)]
      exact undoes_txQstop_idle fun s hs hj' => (txqIs_initialized (Nat.not_lt.mp hj)).mp (hs.txq j hj')
  rwa [Nat.min_eq_left hk, Nat.min_zero] at h

theorem undoes_txFini : Undoes b (txqUp b st 0 0) (rxUp b st) efxTxFini := by
  refine .assertMod (show Mod.NIC ∈ txFlags by decide) (.assertMod (show Mod.TX ∈ txFlags by decide)
    (.assert (fun _ h => h.txQcount) (.of_same rfl fun s h =>
      ⟨{ s with enModFlags := s.enModFlags.erase .TX }, rfl, { h with flags := ?_, count := ?_ }, rfl, rfl, rfl⟩)))
  · show s.enModFlags.erase .TX = _
    rw [show s.enModFlags = txFlags from h.flags]
    exact show txFlags.erase .TX = rxFlags by decide
  · rw [h.count]
    show _ + 0 * _ = _
    omega

theorem undoes_txStop {flushed : ℕ → Flushed} (hk : k ≤ b.ntxq) :
    Undoes b (txqUp b st k b.ntxq) (rxUp b st) (sfxgeTxStop b flushed) :=
  undoes_txQflushes.bind ((undoes_txQstops hk).bind undoes_txFini le_rfl) le_rfl

end

theorem undoes_monStop : Undoes b (monUp b st) (txUp b st) sfxgeMonStop := by
  have hset : Undoes b (monUp b st) { monUp b st with mon := SFXGE_MON_INITIALIZED }
      (modify fun s => { s with monState := SFXGE_MON_INITIALIZED }) :=
    .of_same rfl fun s h => ⟨_, rfl, { h with mon := rfl }, rfl, rfl, rfl⟩
  exact .assert (fun _ h => h.mon) (hset.bind (.assertMod (show Mod.PROBE ∈ monFlags by decide)
    (.assertMod (show Mod.MON ∈ monFlags by decide)
      (undoes_clearMod (show monFlags.erase .MON = txFlags by decide)))) le_rfl)

end Sfxge.Nic
