import Sfxge.Lib.Run
import Sfxge.Rx.Contention
import Sfxge.Intr.Undo

/-!
# Intr.Queues — the number of vectors and the arrays of queues

The vectors that `sfxge_intr_init` leaves give the number of the event, receive and transmit queues, for which
`sfxge_t` has arrays of a fixed size.  The loops over the queues make an undefined access where an index is outside its
array, or where an assertion about it fails.
-/

namespace Sfxge.Intr

open Lib Prog

/-! ### The arrays -/

/-- `s_sep`, `s_srp` and `s_stp`, with the slots that are taken, `srs_tbl`, and the condensed RSS table. -/
structure Arrays where
  sSep : Vector Bool sfxgeRxScaleMax
  sSrp : Vector Bool sfxgeRxScaleMax
  sStp : Vector Bool (sfxgeRxScaleMax * 3)
  tbl : Vector ℕ sfxgeRxScaleMax
  srsTbl : Vector ℕ sfxgeRxScaleMax

/-- `ASSERT3U(index, <, bound)` -/
def assertBelow (index bound : ℕ) : Prog Arrays Errno Unit := if index < bound then pure () else stuck

section

variable {α : Type} {k : ℕ}

/-- `array[index]` -/
def loadAt (view : Arrays → Vector α k) (index : ℕ) : Prog Arrays Errno α := fun a =>
  if h : index < k then .ret (view a)[index] a else .fault

/-- `array[index] = v` -/
def storeAt (view : Arrays → Vector α k) (put : Arrays → Vector α k → Arrays) (index : ℕ) (v : α) :
    Prog Arrays Errno Unit := fun a =>
  if h : index < k then .ret () (put a ((view a).set index v h)) else .fault

end

def storeSep : ℕ → Bool → Prog Arrays Errno Unit := storeAt Arrays.sSep fun a v => { a with sSep := v }
def storeSrp : ℕ → Bool → Prog Arrays Errno Unit := storeAt Arrays.sSrp fun a v => { a with sSrp := v }
def storeStp : ℕ → Bool → Prog Arrays Errno Unit := storeAt Arrays.sStp fun a v => { a with sStp := v }
def storeTbl : ℕ → ℕ → Prog Arrays Errno Unit := storeAt Arrays.tbl fun a v => { a with tbl := v }
def storeSrsTbl : ℕ → ℕ → Prog Arrays Errno Unit := storeAt Arrays.srsTbl fun a v => { a with srsTbl := v }

/-- How the steps of a queue's initialisation end. -/
structure QueueOutcome where
  mem : ℕ → Bool
  kstat : ℕ → Option Errno
  label : ℕ → Option Errno

/-- A step of which the outcome is given. -/
def outcome : Option Errno → Prog Arrays Errno Unit
  | none => pure ()
  | some e => fail e

/-! ### The loops -/

/-- `while (--index >= 0) qfini(index)` -/
def finiDown (qfini : ℕ → Prog Arrays Errno Unit) : ℕ → Prog Arrays Errno Unit
  | 0 => pure ()
  | index + 1 => do
    qfini index
    finiDown qfini index

/-- `for (; index < index + n; index++) qinit(index)`; if a queue fails, the ones before it are torn down. -/
def initLoop (qinit qfini : ℕ → Prog Arrays Errno Unit) : ℕ → ℕ → Prog Arrays Errno Unit
  | _, 0 => pure ()
  | index, n + 1 => do
    protect (finiDown qfini index) (qinit index)
    initLoop qinit qfini (index + 1) n

/-- `sfxge_ev_qinit` -/
def sfxgeEvQinit (out : QueueOutcome) (index : ℕ) : Prog Arrays Errno Unit := do
  assertBelow index sfxgeRxScaleMax
  ensure (out.mem index = true) .ENOMEM
  outcome (out.kstat index)
  storeSep index true

/-- `sfxge_ev_qfini` -/
def sfxgeEvQfini (index : ℕ) : Prog Arrays Errno Unit := storeSep index false

/-- The loop of `sfxge_ev_init` -/
def sfxgeEvInit (out : QueueOutcome) (nalloc : ℕ) : Prog Arrays Errno Unit :=
  initLoop (sfxgeEvQinit out) sfxgeEvQfini 0 nalloc

/-- `sfxge_rx_qinit` -/
def sfxgeRxQinit (out : QueueOutcome) (index : ℕ) : Prog Arrays Errno Unit := do
  assertBelow index sfxgeRxScaleMax
  ensure (out.mem index = true) .ENOMEM
  storeSrp index true
  outcome (out.kstat index)

/-- `sfxge_rx_qfini` -/
def sfxgeRxQfini (index : ℕ) : Prog Arrays Errno Unit := storeSrp index false

/-- The loop of `sfxge_rx_init` -/
def sfxgeRxInit (out : QueueOutcome) (nalloc : ℕ) : Prog Arrays Errno Unit :=
  initLoop (sfxgeRxQinit out) sfxgeRxQfini 0 nalloc

/-- `sfxge_tx_qinit` -/
def sfxgeTxQinit (out : QueueOutcome) (index evq : ℕ) : Prog Arrays Errno Unit := do
  assertBelow index (sfxgeRxScaleMax * 3)
  assertBelow evq sfxgeRxScaleMax
  ensure (out.mem index = true) .ENOMEM
  outcome (out.kstat index)
  outcome (out.label index)
  storeStp index true

/-- The loop over the event queues for a type of transmit queue: `txq` is the next queue. -/
def txEvqLoop (out : QueueOutcome) (txq : ℕ) : ℕ → ℕ → Prog Arrays Errno Unit
  | _, 0 => pure ()
  | evq, n + 1 => do
    sfxgeTxQinit out (txq + evq) evq
    txEvqLoop out txq (evq + 1) n

/-- The loop over the types, of which `s_tx_scale_max` is given. -/
def txTypeLoop (out : QueueOutcome) : ℕ → List ℕ → Prog Arrays Errno Unit
  | _, [] => pure ()
  | txq, txScale :: scales => do
    ensure (¬ txq + txScale > sfxgeRxScaleMax * 3) .EINVAL
    txEvqLoop out txq 0 txScale
    txTypeLoop out (txq + txScale) scales

/-- All the slots are looked through, from the last down, and the queues there torn down. -/
def txFiniDown : ℕ → Prog Arrays Errno Unit
  | 0 => pure ()
  | index + 1 => do
    let taken ← loadAt Arrays.sStp index
    when (taken = true) (storeStp index false)
    txFiniDown index

/-- The queues of `sfxge_tx_init`: those without checksums, with the IP checksum, and with all of them -/
def sfxgeTxInit (out : QueueOutcome) (nalloc : ℕ) : Prog Arrays Errno Unit :=
  protect (txFiniDown (sfxgeRxScaleMax * 3)) (txTypeLoop out 0 [max nalloc 1, max 1 1, nalloc])

/-- The loop that rates each event queue. -/
def rateLoop : ℕ → ℕ → Prog Arrays Errno Unit
  | _, 0 => pure ()
  | index, n + 1 => do
    let _ ← loadAt Arrays.sSep index
    rateLoop (index + 1) n

/-- The loop that chooses `n` queues by their rating, and puts them into the condensed table from `count` on. -/
def chooseLoop (rating : ℕ → ℕ → ℕ) (nalloc : ℕ) : ℕ → ℕ → Prog Arrays Errno Unit
  | _, 0 => pure ()
  | count, n + 1 => do
    rateLoop 0 nalloc
    let choice := Rx.Scale.choose (rating count) nalloc
    storeTbl count choice
    let _ ← loadAt Arrays.sSep choice
    chooseLoop rating nalloc (count + 1) n

/-- The loop that builds the expanded table from `entry` on. -/
def expandLoop (srsCount : ℕ) : ℕ → ℕ → ℕ → Prog Arrays Errno Unit
  | _, _, 0 => pure ()
  | entry, count, n + 1 => do
    let index ← loadAt Arrays.tbl count
    storeSrsTbl entry index
    expandLoop srsCount (entry + 1) ((count + 1) % srsCount) n

/-- The tables of `sfxge_rx_scale_update` -/
def sfxgeRxScaleUpdate (rating : ℕ → ℕ → ℕ) (srsCount nalloc : ℕ) : Prog Arrays Errno Unit := do
  chooseLoop rating nalloc 0 srsCount
  expandLoop srsCount 0 0 sfxgeRxScaleMax

/-! ### Indices that are inside -/

variable {out : QueueOutcome} {nalloc n index : ℕ} {a a' : Arrays}

theorem assertBelow_of_lt {bound : ℕ} (h : index < bound) : assertBelow index bound a = .ret () a := by
  rw [assertBelow, if_pos h, pure_apply]

theorem safe_outcome (o : Option Errno) (a : Arrays) : (outcome o).Safe a := by
  cases o with
  | none => exact safe_pure () a
  | some e => exact safe_of_err rfl

theorem safe_loadAt {α : Type} {k : ℕ} {view : Arrays → Vector α k} (h : index < k) (a : Arrays) :
    (loadAt view index).Safe a := by
  rw [Safe, loadAt, dif_pos h]
  simp

theorem safe_storeAt {α : Type} {k : ℕ} {view : Arrays → Vector α k} {put : Arrays → Vector α k → Arrays}
    (h : index < k) (v : α) (a : Arrays) : (storeAt view put index v).Safe a := by
  rw [Safe, storeAt, dif_pos h]
  simp

theorem safe_protect {undo p : Prog Arrays Errno Unit} (hundo : ∀ a, undo.Safe a) (hp : p.Safe a) :
    (protect undo p).Safe a := by
  rw [Safe, protect]
  cases h : p a with
  | ret _ _ => simp
  | err e a' => exact safe_bind (f := fun _ => fail e) (hundo a') fun _ _ _ => safe_of_err rfl
  | fault => exact absurd h hp
  | spin => simp

theorem safe_finiDown {qfini : ℕ → Prog Arrays Errno Unit} (h : ∀ i < n, ∀ a, (qfini i).Safe a) (a : Arrays) :
    (finiDown qfini n).Safe a := by
  induction n generalizing a with
  | zero => exact safe_pure () a
  | succ n ih =>
    exact safe_bind (h n (Nat.lt_succ_self n) a) fun _ a' _ => ih (fun i hi => h i (Nat.lt_succ_of_lt hi)) a'

/-- **A loop over the queues** is safe if its indices are. -/
theorem safe_initLoop {qinit qfini : ℕ → Prog Arrays Errno Unit} {bound : ℕ}
    (hinit : ∀ i < bound, ∀ a, (qinit i).Safe a) (hfini : ∀ i < bound, ∀ a, (qfini i).Safe a) (index n : ℕ)
    (h : index + n ≤ bound) (a : Arrays) : (initLoop qinit qfini index n).Safe a := by
  induction n generalizing index a with
  | zero => exact safe_pure () a
  | succ n ih =>
    refine safe_bind (safe_protect (fun a => safe_finiDown (fun i hi => hfini i (by omega)) a)
      (hinit index (by omega) a)) fun _ a' _ => ih (index + 1) (by omega) a'

theorem safe_sfxgeEvQinit (h : index < sfxgeRxScaleMax) (a : Arrays) : (sfxgeEvQinit out index).Safe a := by
  refine safe_bind (safe_of_ret (assertBelow_of_lt h)) fun _ _ _ => safe_ensure_bind fun _ => ?_
  exact safe_bind (safe_outcome _ _) fun _ _ _ => safe_storeAt h _ _

theorem safe_sfxgeEvQfini (h : index < sfxgeRxScaleMax) (a : Arrays) : (sfxgeEvQfini index).Safe a := by
  rw [sfxgeEvQfini, storeSep]
  exact safe_storeAt h _ a

theorem safe_sfxgeEvInit (h : nalloc ≤ sfxgeRxScaleMax) (a : Arrays) : (sfxgeEvInit out nalloc).Safe a :=
  safe_initLoop (fun _ hi a => safe_sfxgeEvQinit hi a) (fun _ hi a => safe_sfxgeEvQfini hi a) 0 nalloc (by omega) a

theorem safe_sfxgeRxQinit (h : index < sfxgeRxScaleMax) (a : Arrays) : (sfxgeRxQinit out index).Safe a := by
  refine safe_bind (safe_of_ret (assertBelow_of_lt h)) fun _ _ _ => safe_ensure_bind fun _ => ?_
  exact safe_bind (safe_storeAt h _ _) fun _ _ _ => safe_outcome _ _

theorem safe_sfxgeRxQfini (h : index < sfxgeRxScaleMax) (a : Arrays) : (sfxgeRxQfini index).Safe a := by
  rw [sfxgeRxQfini, storeSrp]
  exact safe_storeAt h _ a

theorem safe_sfxgeRxInit (h : nalloc ≤ sfxgeRxScaleMax) (a : Arrays) : (sfxgeRxInit out nalloc).Safe a :=
  safe_initLoop (fun _ hi a => safe_sfxgeRxQinit hi a) (fun _ hi a => safe_sfxgeRxQfini hi a) 0 nalloc (by omega) a

theorem safe_sfxgeTxQinit {evq : ℕ} (h : index < sfxgeRxScaleMax * 3) (hevq : evq < sfxgeRxScaleMax) (a : Arrays) :
    (sfxgeTxQinit out index evq).Safe a := by
  refine safe_bind (safe_of_ret (assertBelow_of_lt h)) fun _ _ _ => ?_
  refine safe_bind (safe_of_ret (assertBelow_of_lt hevq)) fun _ _ _ => safe_ensure_bind fun _ => ?_
  refine safe_bind (safe_outcome _ _) fun _ _ _ => safe_bind (safe_outcome _ _) fun _ _ _ => ?_
  exact safe_storeAt h _ _

theorem safe_txEvqLoop {txq : ℕ} (evq n : ℕ) (h : txq + evq + n ≤ sfxgeRxScaleMax * 3)
    (hevq : evq + n ≤ sfxgeRxScaleMax) (a : Arrays) : (txEvqLoop out txq evq n).Safe a := by
  induction n generalizing evq a with
  | zero => exact safe_pure () a
  | succ n ih =>
    exact safe_bind (safe_sfxgeTxQinit (by omega) (by omega) a) fun _ a' _ => ih (evq + 1) (by omega) (by omega) a'

theorem safe_txTypeLoop (txq : ℕ) {scales : List ℕ} (h : ∀ n ∈ scales, n ≤ sfxgeRxScaleMax) (a : Arrays) :
    (txTypeLoop out txq scales).Safe a := by
  induction scales generalizing txq a with
  | nil => exact safe_pure () a
  | cons n scales ih =>
    have hn := h n List.mem_cons_self
    refine safe_ensure_bind fun hfit => ?_
    exact safe_bind (safe_txEvqLoop 0 n (by omega) (by omega) a) fun _ a' _ =>
      ih (txq + n) (fun k hk => h k (List.mem_cons_of_mem n hk)) a'

theorem safe_txFiniDown (h : n ≤ sfxgeRxScaleMax * 3) (a : Arrays) : (txFiniDown n).Safe a := by
  induction n generalizing a with
  | zero => exact safe_pure () a
  | succ n ih =>
    refine safe_bind (safe_loadAt (by omega) a) fun taken a' _ => ?_
    refine safe_bind ?_ fun _ a'' _ => ih (by omega) a''
    by_cases ht : taken = true
    · rw [when_pos ht]
      exact safe_storeAt (by omega) _ _
    · rw [when_neg ht]
      exact safe_pure () a'

theorem safe_sfxgeTxInit (h : nalloc ≤ sfxgeRxScaleMax) (a : Arrays) : (sfxgeTxInit out nalloc).Safe a := by
  refine safe_protect (fun a => safe_txFiniDown le_rfl a) (safe_txTypeLoop 0 ?_ a)
  have hone : 1 ≤ sfxgeRxScaleMax := by decide
  intro n hn
  simp only [List.mem_cons, List.not_mem_nil, or_false, max_self] at hn
  omega

/-! ### The RSS table -/

variable {rating : ℕ → ℕ → ℕ} {count srsCount entry : ℕ}

/-- The first `count` entries of the condensed table are queues. -/
def Condensed (nalloc count : ℕ) (a : Arrays) : Prop := ∀ i (h : i < sfxgeRxScaleMax), i < count → a.tbl[i] < nalloc

/-- The first `entry` entries of the expanded table are queues. -/
def Expanded (nalloc entry : ℕ) (a : Arrays) : Prop := ∀ i (h : i < sfxgeRxScaleMax), i < entry → a.srsTbl[i] < nalloc

theorem choose_lt (hn : 0 < nalloc) (rating : ℕ → ℕ) : Rx.Scale.choose rating nalloc < nalloc :=
  (Rx.Scale.choose_isPick hn id rating).lt

theorem safe_rateLoop (index n : ℕ) (h : index + n ≤ sfxgeRxScaleMax) (a : Arrays) : (rateLoop index n).Safe a := by
  induction n generalizing index a with
  | zero => exact safe_pure () a
  | succ n ih => exact safe_bind (safe_loadAt (by omega) a) fun _ a' _ => ih (index + 1) (by omega) a'

theorem rateLoop_ret {u : Unit} (h : rateLoop index n a = .ret u a') : a' = a := by
  induction n generalizing index with
  | zero => cases h; rfl
  | succ n ih =>
    obtain ⟨b, a1, h1, h2⟩ := bind_ret_inv h
    rw [loadAt] at h1
    split_ifs at h1
    cases h1
    exact ih h2

theorem safe_chooseLoop (hn : 0 < nalloc) (hle : nalloc ≤ sfxgeRxScaleMax) (count n : ℕ)
    (h : count + n ≤ sfxgeRxScaleMax) (a : Arrays) : (chooseLoop rating nalloc count n).Safe a := by
  induction n generalizing count a with
  | zero => exact safe_pure () a
  | succ n ih =>
    refine safe_bind (safe_rateLoop 0 nalloc (by omega) a) fun _ a' _ => ?_
    refine safe_bind (safe_storeAt (by omega) _ a') fun _ a'' _ => ?_
    exact safe_bind (safe_loadAt (lt_of_lt_of_le (choose_lt hn _) hle) a'') fun _ b _ => ih (count + 1) (by omega) b

theorem safe_expandLoop (hc : 0 < srsCount) (hle : srsCount ≤ sfxgeRxScaleMax) (entry count n : ℕ)
    (hcount : count < srsCount) (h : entry + n ≤ sfxgeRxScaleMax) (a : Arrays) :
    (expandLoop srsCount entry count n).Safe a := by
  induction n generalizing entry count a with
  | zero => exact safe_pure () a
  | succ n ih =>
    refine safe_bind (safe_loadAt (by omega) a) fun _ a' _ => ?_
    exact safe_bind (safe_storeAt (by omega) _ a') fun _ a'' _ =>
      ih (entry + 1) _ (Nat.mod_lt _ hc) (by omega) a''

theorem loadAt_ret {α : Type} {k : ℕ} {view : Arrays → Vector α k} {v : α} (h : loadAt view index a = .ret v a') :
    a' = a ∧ ∃ hi : index < k, v = (view a)[index] := by
  rw [loadAt] at h
  split_ifs at h with hi
  cases h
  exact ⟨rfl, hi, rfl⟩

theorem condensed_storeTbl {v : ℕ} {u : Unit} (hc : Condensed nalloc count a) (hv : v < nalloc)
    (h : storeTbl count v a = .ret u a') : Condensed nalloc (count + 1) a' := by
  rw [storeTbl, storeAt] at h
  split_ifs at h with hi
  cases h
  intro i hlt hle
  dsimp only
  rw [Vector.getElem_set]
  split_ifs with he
  · exact hv
  · exact hc i hlt (by omega)

theorem expanded_storeSrsTbl {v : ℕ} {u : Unit} (he : Expanded nalloc entry a) (hv : v < nalloc)
    (h : storeSrsTbl entry v a = .ret u a') : Expanded nalloc (entry + 1) a' ∧ a'.tbl = a.tbl := by
  rw [storeSrsTbl, storeAt] at h
  split_ifs at h with hi
  cases h
  refine ⟨fun i hlt hle => ?_, rfl⟩
  dsimp only
  rw [Vector.getElem_set]
  split_ifs with heq
  · exact hv
  · exact he i hlt (by omega)

theorem chooseLoop_ret {u : Unit} (hn : 0 < nalloc) (hc : Condensed nalloc count a)
    (h : chooseLoop rating nalloc count n a = .ret u a') : Condensed nalloc (count + n) a' := by
  induction n generalizing count a with
  | zero => cases h; exact hc
  | succ n ih =>
    obtain ⟨_, a1, h1, h⟩ := bind_ret_inv h
    obtain ⟨_, a2, h2, h⟩ := bind_ret_inv h
    obtain ⟨_, a3, h3, h⟩ := bind_ret_inv h
    have hstored := condensed_storeTbl (rateLoop_ret h1 ▸ hc) (choose_lt hn _) h2
    rw [← (loadAt_ret h3).1] at hstored
    rw [show count + (n + 1) = count + 1 + n by omega]
    exact ih hstored h

theorem expandLoop_ret {u : Unit} (hs : 0 < srsCount) (hcount : count < srsCount) (hc : Condensed nalloc srsCount a)
    (he : Expanded nalloc entry a) (h : expandLoop srsCount entry count n a = .ret u a') :
    Expanded nalloc (entry + n) a' := by
  induction n generalizing entry count a with
  | zero => cases h; exact he
  | succ n ih =>
    obtain ⟨v, a1, h1, hrest⟩ := bind_ret_inv h
    obtain ⟨rfl, hi, rfl⟩ := loadAt_ret h1
    obtain ⟨_, a2, h2, hrest⟩ := bind_ret_inv hrest
    obtain ⟨he2, htbl⟩ := expanded_storeSrsTbl he (hc count hi hcount) h2
    rw [show entry + (n + 1) = entry + 1 + n by omega]
    refine ih (Nat.mod_lt _ hs) (fun i hlt hle => ?_) he2 hrest
    rw [htbl]
    exact hc i hlt hle

/-- **The table is safe to build** if the queues fit, and its entries are queues. -/
theorem sfxgeRxScaleUpdate_fits (hle : nalloc ≤ sfxgeRxScaleMax) (hs : 0 < srsCount) (hcount : srsCount ≤ nalloc)
    (rating : ℕ → ℕ → ℕ) (a : Arrays) :
    (sfxgeRxScaleUpdate rating srsCount nalloc).Safe a ∧
      ∀ u a', sfxgeRxScaleUpdate rating srsCount nalloc a = .ret u a' → Expanded nalloc sfxgeRxScaleMax a' := by
  refine ⟨safe_bind (safe_chooseLoop (by omega) hle 0 srsCount (by omega) a) fun _ a' _ =>
    safe_expandLoop hs (by omega) 0 0 sfxgeRxScaleMax hs (by omega) a', fun u a' h => ?_⟩
  obtain ⟨_, a1, h1, h⟩ := bind_ret_inv h
  have hc : Condensed nalloc srsCount a1 := by
    have := chooseLoop_ret (by omega) (fun i _ hi => absurd hi (Nat.not_lt_zero i)) h1
    rwa [Nat.zero_add] at this
  have := expandLoop_ret hs hs hc (fun i _ hi => absurd hi (Nat.not_lt_zero i)) h
  rwa [Nat.zero_add] at this

/-! ### The number of vectors -/

/-- A success from the DMA buffer on leaves the vectors as they are. -/
theorem intrInitDma_ret {ddi : Ddi} {s : SfxgeIntr} (h : (intrInitDma ddi s).2 = none) :
    ∃ mem pri, (intrInitDma ddi s).1 = { s.withDma mem pri with siState := .initialized } := by
  rcases hmem : sfxgeDmaBufferCreate ddi s.siMem with ⟨mem, _ | _⟩
  · simp only [intrInitDma, hmem] at h
    exact absurd h (Option.some_ne_none _)
  · obtain ⟨pri, hpri⟩ := priLoop_frame ddi 0 s.siNalloc { s with siMem := mem, siIntrPri := 0 }
    rcases hloop : priLoop ddi 0 s.siNalloc { s with siMem := mem, siIntrPri := 0 } with ⟨s', _ | rc⟩
    · rw [hloop] at hpri
      have hs' : s' = s.withDma mem pri := hpri
      exact ⟨mem, pri, by simp only [intrInitDma, hmem, hloop, hs']⟩
    · simp only [intrInitDma, hmem, hloop] at h
      exact absurd h (Option.some_ne_none _)

/-- A successful initialisation has been granted vectors, and goes on with them rounded down. -/
theorem sfxgeIntrInit_ret {ddi : Ddi} (h : (sfxgeIntrInit ddi .initial).2 = none) :
    ∃ msix n, ddi.types = .ok msix ∧ (msix = false → n = 1) ∧ ddi.alloc n = .ok ddi.granted ∧ ddi.granted ≠ 0 ∧
      sfxgeIntrInit ddi .initial = intrInitDma ddi
        (rounded n ddi.granted { SfxgeIntr.initial with siType := if msix then .message else .line }) := by
  unfold sfxgeIntrInit at h ⊢
  rcases ht : ddi.types with err | msix <;> rw [ht] at h <;> dsimp only at h ⊢
  · exact absurd h (Option.some_ne_none _)
  rcases hn : ddi.navail with err | navail <;> rw [hn] at h <;> dsimp only at h ⊢
  · exact absurd h (Option.some_ne_none _)
  by_cases h0 : navail = 0
  · rw [if_pos h0] at h
    exact absurd h (Option.some_ne_none _)
  rw [if_neg h0] at h ⊢
  have hasked : ddi.asked = some (vectorsWanted ddi msix navail) := by simp only [Ddi.asked, ht, hn, if_neg h0]
  rcases ha : ddi.alloc (vectorsWanted ddi msix navail) with ⟨err, left⟩ | g
  · unfold intrInitAlloc at h
    rw [ha] at h
    exact absurd h (Option.some_ne_none _)
  · have hg : ddi.granted = g := by rw [Ddi.granted, hasked, Option.map_some, ha]
    rw [hg]
    by_cases hg0 : g = 0
    · unfold intrInitAlloc at h
      subst hg0
      rw [ha] at h
      exact absurd h (Option.some_ne_none _)
    · refine ⟨msix, vectorsWanted ddi msix navail, rfl, fun hmsix => ?_, ha, hg0, intrInitAlloc_granted ha hg0⟩
      subst hmsix
      rfl

/-- It leaves the vectors granted, rounded down. -/
theorem sfxgeIntrInit_nalloc {ddi : Ddi} (h : (sfxgeIntrInit ddi .initial).2 = none) :
    ddi.granted ≠ 0 ∧ (sfxgeIntrInit ddi .initial).1.siNalloc = pow2Le ddi.granted := by
  obtain ⟨msix, n, -, -, -, hg, heq⟩ := sfxgeIntrInit_ret h
  rw [heq] at h ⊢
  obtain ⟨mem, pri, hdma⟩ := intrInitDma_ret h
  rw [hdma]
  exact ⟨hg, rfl⟩

/-- It leaves a type, and one vector if that is the type of a line. -/
theorem sfxgeIntrInit_type {ddi : Ddi} (h : (sfxgeIntrInit ddi .initial).2 = none) :
    (sfxgeIntrInit ddi .initial).1.siType ≠ .invalid ∧
      ((sfxgeIntrInit ddi .initial).1.siType = .line → (sfxgeIntrInit ddi .initial).1.siNalloc = 1) := by
  have hnalloc := (sfxgeIntrInit_nalloc h).2
  obtain ⟨msix, n, -, hline, ha, hg, heq⟩ := sfxgeIntrInit_ret h
  rw [hnalloc]
  rw [heq] at h ⊢
  obtain ⟨mem, pri, hdma⟩ := intrInitDma_ret h
  have htype : (intrInitDma ddi
      (rounded n ddi.granted { SfxgeIntr.initial with siType := if msix then .message else .line })).1.siType =
        if msix then .message else .line := by
    rw [hdma]
    exact (congrArg SfxgeIntr.siType (freeDown_spec (pow2Le ddi.granted) ddi.granted (holding n ddi.granted
      { SfxgeIntr.initial with siType := if msix then .message else .line })).frame).trans rfl
  rw [htype]
  cases msix with
  | true => exact ⟨nofun, nofun⟩
  | false =>
    have hone : ddi.granted = 1 := by
      have := ddi.alloc_le n _ ha
      have := hline rfl
      omega
    refine ⟨nofun, fun _ => ?_⟩
    rw [hone, pow2Le_eq Nat.one_ne_zero, Nat.log_one_right]
    rfl

/-- With more queues than that the assertion about the index fails, if the event queues before it are initialised. -/
theorem evLoop_faults (index n : ℕ) (hidx : index ≤ sfxgeRxScaleMax) (h : sfxgeRxScaleMax < index + n) (a : Arrays) :
    initLoop (sfxgeEvQinit ⟨fun _ => true, fun _ => none, fun _ => none⟩) sfxgeEvQfini index n a = .fault := by
  induction n generalizing index a with
  | zero => omega
  | succ n ih =>
    rw [initLoop, bind_apply, protect]
    by_cases hlt : index < sfxgeRxScaleMax
    · have hret : ∃ a', sfxgeEvQinit ⟨fun _ => true, fun _ => none, fun _ => none⟩ index a = .ret () a' := by
        rw [sfxgeEvQinit, bind_apply, assertBelow_of_lt hlt]
        exact ⟨_, dif_pos hlt⟩
      obtain ⟨a', ha'⟩ := hret
      rw [ha']
      exact ih (index + 1) (by omega) (by omega) a'
    · rw [sfxgeEvQinit, bind_apply, assertBelow, if_neg hlt]
      rfl

theorem sfxgeRxScaleMax_eq : sfxgeRxScaleMax = 2 ^ 7 := rfl

/-- The vectors left fit the arrays: their number is a power of two, the queues are initialised without an access
outside the arrays and without a failed assertion, however the steps of their initialisation end, and so is the RSS
table for every number of queues that it can have; its entries are queues. -/
structure QueuesFit (nalloc : ℕ) : Prop where
  pow2 : ∃ order, nalloc = 2 ^ order
  pos : 1 ≤ nalloc
  le : nalloc ≤ sfxgeRxScaleMax
  ev : ∀ out a, (sfxgeEvInit out nalloc).Safe a
  rx : ∀ out a, (sfxgeRxInit out nalloc).Safe a
  tx : ∀ out a, (sfxgeTxInit out nalloc).Safe a
  rss : ∀ rating srsCount, 0 < srsCount → srsCount ≤ nalloc → ∀ a,
    (sfxgeRxScaleUpdate rating srsCount nalloc).Safe a ∧
      ∀ u a', sfxgeRxScaleUpdate rating srsCount nalloc a = .ret u a' → Expanded nalloc sfxgeRxScaleMax a'

/-- **A power of two that is small enough fits.** -/
theorem queuesFit_of_le {order : ℕ} (h : 2 ^ order ≤ sfxgeRxScaleMax) : QueuesFit (2 ^ order) :=
  ⟨⟨order, rfl⟩, Nat.one_le_two_pow, h, fun _ a => safe_sfxgeEvInit h a, fun _ a => safe_sfxgeRxInit h a,
    fun _ a => safe_sfxgeTxInit h a, fun rating _ hs hcount a => sfxgeRxScaleUpdate_fits h hs hcount rating a⟩

/-- **The queues fit** exactly if fewer than twice as many vectors were granted as the arrays have room for. -/
theorem queuesFit_iff (ddi : Ddi) (h : (sfxgeIntrInit ddi .initial).2 = none) :
    QueuesFit (sfxgeIntrInit ddi .initial).1.siNalloc ↔ ddi.granted < 2 * sfxgeRxScaleMax := by
  obtain ⟨hg, hnalloc⟩ := sfxgeIntrInit_nalloc h
  rw [hnalloc, pow2Le_eq hg]
  have hlog : ddi.granted < 2 * sfxgeRxScaleMax ↔ Nat.log 2 ddi.granted < 8 := by
    rw [Nat.log_lt_iff_lt_pow (by decide) hg]
    rfl
  rw [hlog]
  constructor
  · intro hfit
    have hle := hfit.le
    rw [sfxgeRxScaleMax_eq, Nat.pow_le_pow_iff_right (by decide)] at hle
    omega
  · intro hlt
    refine queuesFit_of_le ?_
    rw [sfxgeRxScaleMax_eq, Nat.pow_le_pow_iff_right (by decide)]
    omega

/-- A bus that grants all of the vectors that it is asked for, of which it offers `navail`, with a property that asks
for `count`. -/
def grantsAll (navail count : ℕ) : Ddi :=
  { grantsNone with
    navail := .ok navail
    rxScaleCount := some count
    alloc := fun n => .ok n
    alloc_le := allGranted_le }

theorem priLoop_ok {ddi : Ddi} (hpri : ∀ i, ddi.pri i = .ok 5) (index n : ℕ) (s : SfxgeIntr) :
    (priLoop ddi index n s).2 = none := by
  induction n generalizing index s with
  | zero => rfl
  | succ n ih =>
    rw [priLoop, hpri]
    exact ih _ _

theorem intrInitDma_ok {ddi : Ddi} (hdma : ∀ m, (sfxgeDmaBufferCreate ddi m).2 = true)
    (hpri : ∀ i, ddi.pri i = .ok 5) (s : SfxgeIntr) : (intrInitDma ddi s).2 = none := by
  rcases hmem : sfxgeDmaBufferCreate ddi s.siMem with ⟨mem, _ | _⟩
  · have hfalse := hdma s.siMem
    rw [hmem] at hfalse
    cases hfalse
  · have hloop := priLoop_ok hpri 0 s.siNalloc { s with siMem := mem, siIntrPri := 0 }
    rcases hres : priLoop ddi 0 s.siNalloc { s with siMem := mem, siIntrPri := 0 } with ⟨s', _ | rc⟩
    · simp only [intrInitDma, hmem, hres]
    · rw [hres] at hloop
      cases hloop

/-- Such a bus lets the initialisation succeed, with as many vectors as the property asks for or there are. -/
theorem sfxgeIntrInit_grantsAll (navail count : ℕ) (hn : navail ≠ 0) (hc : count ≠ 0) :
    (sfxgeIntrInit (grantsAll navail count) .initial).2 = none ∧
      (grantsAll navail count).granted = min navail count := by
  have hscale : sfxgeRxScalePropGet (grantsAll navail count) = count := by
    have hprop : (grantsAll navail count).rxScaleCount.getD sfxgeRxScaleMax = (count : ℤ) := rfl
    rw [sfxgeRxScalePropGet, hprop, if_neg (by omega), Int.toNat_natCast]
  have hwanted : vectorsWanted (grantsAll navail count) true navail = min navail count := by
    rw [vectorsWanted, if_pos rfl, hscale]
  have htypes : (grantsAll navail count).types = .ok true := rfl
  have hnavail : (grantsAll navail count).navail = .ok navail := rfl
  constructor
  · unfold sfxgeIntrInit
    rw [htypes, hnavail]
    dsimp only
    rw [if_neg hn, hwanted, intrInitAlloc_granted rfl (by omega)]
    exact intrInitDma_ok (fun _ => rfl) (fun _ => rfl) _
  · have hasked : (grantsAll navail count).asked = some (min navail count) := by
      simp only [Ddi.asked, htypes, hnavail, if_neg hn, hwanted]
    rw [Ddi.granted, hasked]
    rfl

theorem queuesFit_grantsAll : QueuesFit (sfxgeIntrInit (grantsAll 6 3) .initial).1.siNalloc :=
  have hinit := sfxgeIntrInit_grantsAll 6 3 (by decide) (by decide)
  (queuesFit_iff (grantsAll 6 3) hinit.1).mpr (hinit.2 ▸ by decide)

/-- The arrays when there are no queues. -/
def noQueues : Arrays where
  sSep := .replicate _ false
  sSrp := .replicate _ false
  sStp := .replicate _ false
  tbl := .replicate _ 0
  srsTbl := .replicate _ 0

/-- With 256 vectors granted the assertion about the index of an event queue fails. -/
theorem queues_outside :
    ¬ ∀ ddi, (sfxgeIntrInit ddi .initial).2 = none → QueuesFit (sfxgeIntrInit ddi .initial).1.siNalloc := by
  intro h
  obtain ⟨hinit, hgranted⟩ := sfxgeIntrInit_grantsAll 256 256 (by decide) (by decide)
  have hev := (h _ hinit).ev
  have hlog : Nat.log 2 (min 256 256) = 8 := by rw [Nat.log_eq_iff (by decide)]; decide
  rw [(sfxgeIntrInit_nalloc hinit).2, hgranted, pow2Le_eq (by decide), hlog] at hev
  exact hev _ _ (evLoop_faults 0 (2 ^ 8) (Nat.zero_le _) (by decide) noQueues)

end Sfxge.Intr
