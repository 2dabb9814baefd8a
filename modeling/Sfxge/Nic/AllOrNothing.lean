import Sfxge.Nic.Unwind

/-!
# Nic.AllOrNothing — starting the adapter is all or nothing

The stages of a start in turn: what each leads to, and what is left when it fails.  An event queue that has
handled events when its start times out keeps their count, and its exception; and a MAC that cannot leave drain is
taken down as though it had.
-/

namespace Sfxge.Nic

open Lib Prog NicState EvqState Tx.TxqState Rx.RxqState IntrState SramState MacState RxScaleState MonState

variable {b : Board} {w : World} {s s' : Adapter} {st : NicState}

/-! ### Climbing -/

section

variable {K φ ψ : Prop} {p p' : Shape} {P E : Adapter → Prop} {Q : Unit → Adapter → Prop}
  {act rest : Prog Adapter Errno Unit}

/-- From the shape `p`, the stage leads to `p'` and finds out `φ`, or it fails and leaves `p`. -/
def Climbs (b : Board) (K : Prop) (p p' : Shape) (φ : Prop) (act : Prog Adapter Errno Unit) : Prop :=
  Triple (Good b p) act (fun _ s => Good b p' s ∧ φ) (Failed b K p)

/-- What a stage has found out may be used in the rest. -/
theorem triple_and (h : φ → Triple P act Q E) : Triple (fun s => P s ∧ φ) act Q E :=
  fun s hs => h hs.2 s hs.1

theorem triple_assert {c : Adapter → Prop} [∀ s, Decidable (c s)] (hc : ∀ s, P s → c s) (h : Triple P act Q E) :
    Triple P (assert c >>= fun _ => act) Q E := by
  intro s hs
  rw [assert_bind (hc s hs)]
  exact h s hs

theorem triple_check {c : Adapter → Prop} [∀ s, Decidable (c s)] {e : Errno} (hc : ∀ s, P s → c s)
    (h : Triple P act Q E) : Triple P (check c e >>= fun _ => act) Q E := by
  intro s hs
  rw [check_bind (hc s hs)]
  exact h s hs

theorem triple_assertMod {m : Mod} (hm : m ∈ p.flags) (h : Triple (Good b p) act Q E) :
    Triple (Good b p) (assertMod m >>= fun _ => act) Q E :=
  triple_assert (fun _ hs => hs.fits.flags ▸ hm) h

theorem triple_assertNoMod {m : Mod} (hm : m ∉ p.flags) (h : Triple (Good b p) act Q E) :
    Triple (Good b p) (assertNoMod m >>= fun _ => act) Q E :=
  triple_assert (fun _ hs => hs.fits.flags ▸ hm) h

theorem triple_checkMod {m : Mod} {e : Errno} (hm : m ∈ p.flags) (h : Triple (Good b p) act Q E) :
    Triple (Good b p) (check (fun s => m ∈ s.enModFlags) e >>= fun _ => act) Q E :=
  triple_check (fun _ hs => hs.fits.flags ▸ hm) h

theorem triple_checkNoMod {m : Mod} {e : Errno} (hm : m ∉ p.flags) (h : Triple (Good b p) act Q E) :
    Triple (Good b p) (check (fun s => m ∉ s.enModFlags) e >>= fun _ => act) Q E :=
  triple_check (fun _ hs => hs.fits.flags ▸ hm) h

theorem triple_modify {g : Adapter → Adapter} (hφ : φ)
    (h : ∀ s, Fits b p s → Fits b p' (g s) ∧ (g s).passed = s.passed ∧ (g s).fromZero = s.fromZero ∧
      (g s).sep = s.sep) (hevqs : p'.evqs = p.evqs) :
    Triple (Good b p) (modify g : Prog Adapter Errno Unit) (fun _ s => Good b p' s ∧ φ) E := by
  intro s hs
  obtain ⟨hfit, hpass, hzero, hsep⟩ := h s hs.fits
  exact Or.inl ⟨(), g s, rfl, ⟨hfit, hpass.trans hs.passed, hzero.trans hs.fromZero,
    fun i hi hle => (congrFun hsep i).trans (hs.clean i hi (hevqs ▸ hle))⟩, hφ⟩

theorem triple_setMod {m : Mod} {f : Finset Mod} (hφ : φ) (hf : insert m p.flags = f) :
    Triple (Good b p) (setMod m) (fun _ s => Good b { p with flags := f } s ∧ φ) E := by
  refine triple_modify hφ (fun s h => ⟨{ h with flags := ?_ }, rfl, rfl, rfl⟩) rfl
  show insert m s.enModFlags = f
  rw [h.flags, hf]

theorem triple_setIntr {intr : IntrState} (hφ : φ) :
    Triple (Good b p) (setIntr intr) (fun _ s => Good b { p with intr := intr } s ∧ φ) E :=
  triple_modify hφ (fun _ h => ⟨{ h with intr := rfl }, rfl, rfl, rfl⟩) rfl

namespace Climbs

theorem outcome {rc : Option Errno} (hK : rc ≠ none → K) : Climbs b K p p (rc = none) (outcome rc) := by
  intro s h
  cases rc with
  | none => exact Or.inl ⟨(), s, rfl, h, rfl⟩
  | some e => exact Or.inr ⟨e, s, rfl, h.failed (hK nofun)⟩

theorem check {c : Prop} [Decidable c] {e : Errno} (hK : ¬ c → K) : Climbs b K p p c (check (fun _ => c) e) := by
  intro s h
  by_cases hc : c
  · exact Or.inl ⟨(), s, check_of hc, h, hc⟩
  · exact Or.inr ⟨e, s, check_not hc, h.failed (hK hc)⟩

/-- A stage and what it makes possible; where the rest fails, the stage is undone. -/
theorem protect {q : Shape} {undo : Prog Adapter Errno Unit} (hact : Climbs b K p q φ act)
    (hrest : φ → Climbs b K q p' ψ rest) (hundo : Undoes b q p undo) (hle : p.evqs ≤ q.evqs) :
    Climbs b K p p' ψ (act >>= fun _ => Prog.protect undo rest) :=
  hact.bind fun _ => triple_and fun hφ => Triple.protect (hrest hφ) (hundo.failed hle)

/-- The same, with a last step that cannot fail. -/
theorem protect_bind {q p'' : Shape} {χ : Prop} {undo last : Prog Adapter Errno Unit} (hact : Climbs b K p q φ act)
    (hrest : φ → Climbs b K q p' ψ rest) (hundo : Undoes b q p undo) (hle : p.evqs ≤ q.evqs)
    (hlast : ψ → Triple (Good b p') last (fun _ s => Good b p'' s ∧ χ) (Failed b K p)) :
    Climbs b K p p'' χ (act >>= fun _ => Prog.protect undo rest >>= fun _ => last) :=
  hact.bind fun _ => triple_and fun hφ => (Triple.protect (hrest hφ) (hundo.failed hle)).bind fun _ => triple_and hlast

theorem weaken (h : Climbs b K p p' φ act) (hφ : φ → ψ) : Climbs b K p p' ψ act :=
  Triple.weaken h (fun _ hs => hs) (fun _ _ hs => ⟨hs.1, hφ hs.2⟩) fun _ hs => hs

/-- Steps that leave the shape as it is until the last. -/
theorem bind (hact : Climbs b K p p φ act) (hrest : φ → Climbs b K p p' ψ rest) :
    Climbs b K p p' ψ (act >>= fun _ => rest) :=
  Triple.bind hact fun _ => triple_and hrest

/-- A module whose initialization fails is marked as not initialized. -/
theorem protectMod {m : Mod} (hm : m ∉ p.flags) (h : Climbs b K p p φ act) :
    Climbs b K p p φ (Prog.protect (clearMod m) act) :=
  Triple.protect h ((undoes_clearMod (Finset.erase_eq_of_notMem hm)).failed le_rfl)

end Climbs

theorem climbs_nicInit (hK : w.nicInit ≠ none → K) :
    Climbs b K (ground b st) (nicUp b st) (w.nicInit = none) (efxNicInit w.nicInit) :=
  triple_assertMod (show Mod.PROBE ∈ attached by decide) (triple_checkNoMod (show Mod.NIC ∉ attached by decide)
    (Climbs.bind (.outcome hK) fun h => triple_setMod h rfl))

theorem climbs_filterInit (hK : w.filterInit ≠ none → K) :
    Climbs b K (nicUp b st) (filterUp b st) (w.filterInit = none) (efxFilterInit w.filterInit) :=
  triple_assertMod (show Mod.PROBE ∈ nicFlags by decide) (triple_assertNoMod (show Mod.FILTER ∉ nicFlags by decide)
    (Climbs.bind (.protectMod (show Mod.FILTER ∉ nicFlags by decide) (.outcome hK)) fun h => triple_setMod h rfl))

theorem climbs_sramStart : Climbs b K (filterUp b st) (sramUp b st) True sfxgeSramStart :=
  triple_assert (fun _ h => h.fits.sram) (triple_assert (fun _ h => h.fits.count)
    (triple_modify trivial (fun _ h => ⟨{ h with sram := rfl }, rfl, rfl, rfl⟩) rfl))

theorem climbs_intrNicEnable {intr : IntrState} (htest : ¬ (b.huntington = true ∨ w.intrTest = true) → K) :
    Climbs b K { sramUp b st with intr := intr } { intrUp b st with intr := intr }
      (b.huntington = true ∨ w.intrTest = true) (sfxgeIntrNicEnable b w) :=
  Climbs.protect (triple_assertMod (show Mod.NIC ∈ filterFlags by decide)
    (triple_checkNoMod (show Mod.INTR ∉ filterFlags by decide) (triple_setMod trivial rfl)))
    (fun _ => .check htest) undoes_intrFini le_rfl

theorem climbs_intrStart (hbus : w.busEnable ≠ none → K)
    (htest : ¬ (b.huntington = true ∨ w.intrTest = true) → K) :
    Climbs b K (sramUp b st) (intrUp b st) (w.busEnable = none ∧ (b.huntington = true ∨ w.intrTest = true))
      (sfxgeIntrStart b w) := by
  -- `si_state` may be `SFXGE_INTR_TESTING` when the start fails
  have hundo : Triple (fun s => ∃ intr, Failed b K { sramUp b st with intr := intr } s)
      (setIntr SFXGE_INTR_INITIALIZED) (fun _ => Failed b K (sramUp b st)) fun _ => False :=
    fun s ⟨_, h⟩ => undoes_setIntr.failed le_rfl s h
  have hfail : ∀ intr s, Failed b K { sramUp b st with intr := intr } s →
      ∃ intr, Failed b K { sramUp b st with intr := intr } s := fun intr s h => ⟨intr, h⟩
  refine triple_assert (fun _ h => h.fits.intr) (Triple.protect ?_ hundo)
  refine (Triple.weaken (Climbs.outcome hbus) (fun _ h => h) (fun _ _ h => h) (hfail SFXGE_INTR_INITIALIZED)).bind
    fun _ => triple_and fun hb => ?_
  refine (triple_setIntr trivial).bind fun _ => triple_and fun _ => ?_
  refine (Triple.weaken (climbs_intrNicEnable htest) (fun _ h => h) (fun _ _ h => h) (hfail SFXGE_INTR_TESTING)).bind
    fun _ => triple_and fun ht => ?_
  exact triple_setIntr ⟨hb, ht⟩

theorem climbs_evInit (hK : w.evInit ≠ none → K) :
    Climbs b K (intrUp b st) (evqUp b st 0) (w.evInit = none) (efxEvInit w.evInit) :=
  triple_assertMod (show Mod.INTR ∈ intrFlags by decide)
    (Climbs.bind (.protectMod (show Mod.EV ∉ intrFlags by decide)
      (triple_checkNoMod (show Mod.EV ∉ intrFlags by decide)
        (triple_assert (fun _ h => h.fits.evQcount) (Climbs.outcome hK)))) fun h => triple_setMod h rfl)

/-! ### Event queues -/

theorem foldl_handle (events : List Event) (sep : StartEvq) :
    events.foldl StartEvq.handle sep = ⟨if .initialized ∈ events then SFXGE_EVQ_STARTED else sep.seState, sep.seCount,
      sep.seException || decide (.exception ∈ events)⟩ := by
  induction events generalizing sep with
  | nil => simp
  | cons ev events ih =>
    rw [List.foldl_cons, ih]
    cases ev <;> simp [StartEvq.handle, StartEvq.goto]

/-- What an event queue that starts or runs has become after some polls. -/
theorem polls_eq (polls : List (List Event)) (sep : StartEvq)
    (hsep : sep.seState = SFXGE_EVQ_STARTING ∨ sep.seState = SFXGE_EVQ_STARTED) :
    sep.polls polls = ⟨if .initialized ∈ polls.flatten then SFXGE_EVQ_STARTED else sep.seState,
      sep.seCount + BitVec.ofNat 32 polls.flatten.length, sep.seException || decide (.exception ∈ polls.flatten)⟩ := by
  induction polls generalizing sep with
  | nil => simp [StartEvq.polls]
  | cons events polls ih =>
    have hpoll : sep.qpoll events = ⟨if .initialized ∈ events then SFXGE_EVQ_STARTED else sep.seState,
        sep.seCount + BitVec.ofNat 32 events.length, sep.seException || decide (.exception ∈ events)⟩ := by
      rw [StartEvq.qpoll, if_neg fun h => hsep.elim h.1 h.2, foldl_handle]
    have hnext : (sep.qpoll events).seState = SFXGE_EVQ_STARTING ∨ (sep.qpoll events).seState = SFXGE_EVQ_STARTED := by
      rw [hpoll]
      dsimp only
      split_ifs
      · exact Or.inr rfl
      · exact hsep
    rw [StartEvq.polls, List.foldl_cons, ← StartEvq.polls, ih _ hnext, hpoll, List.flatten_cons, List.length_append]
    simp only [List.mem_append, BitVec.ofNat_add, BitVec.add_assoc, Bool.decide_or, Bool.or_assoc]
    congr 1
    by_cases hin : Event.initialized ∈ polls.flatten
    · simp [hin]
    · simp [hin]

/-- Polls leave a queue started that is. -/
theorem polls_started {polls : List (List Event)} {sep : StartEvq} (h : sep.seState = SFXGE_EVQ_STARTED) :
    (sep.polls polls).seState = SFXGE_EVQ_STARTED := by
  rw [polls_eq polls sep (Or.inr h)]
  dsimp only
  split_ifs
  · rfl
  · exact h

/-- The wait for the initialization event ends with the event. -/
def EvqStart.Initialized (e : EvqStart) : Prop := e.timeout = false ∧ .initialized ∈ e.polls.flatten

/-- The adapter with the event queue `k` as given. -/
def Adapter.withEvq (s : Adapter) (k : ℕ) (sep : StartEvq) : Adapter := { s with sep := Function.update s.sep k sep }

theorem onEvq_withEvq {k : ℕ} {sep : StartEvq} {f : StartEvq → StartEvq} :
    onEvq k f (s.withEvq k sep) = .ret () (s.withEvq k (f sep)) := by
  simp [onEvq, Adapter.withEvq]

theorem withEvq_sep (s : Adapter) (k : ℕ) (sep : StartEvq) : (s.withEvq k sep).sep k = sep := Function.update_self ..

theorem withEvq_self {k : ℕ} {sep : StartEvq} (h : s.sep k = sep) : s.withEvq k sep = s := by
  rw [← h, Adapter.withEvq, Function.update_eq_self]

/-- An event queue whose count is 0 is primed at ring index 0. -/
theorem efxEvQprime_eq {k : ℕ} {rc : Option Errno} (hcount : (s.sep k).seCount = 0) (hmod : .INTR ∈ s.enModFlags) :
    efxEvQprime k rc s = outcome rc s := by
  rw [efxEvQprime, modify_bind, decide_eq_true hcount, Bool.and_true]
  exact check_bind hmod

/-- An event queue that is not started any more fits like one that never was. -/
theorem fits_withEvq_initialized {p : Shape} {k : ℕ} {sep : StartEvq} (h : Fits b p s) (hk : p.evqs ≤ k)
    (hsep : sep.seState = SFXGE_EVQ_INITIALIZED) : Fits b p (s.withEvq k sep) := by
  refine { h with evq := fun i hi => ?_ }
  show (Function.update s.sep k sep i).seState = _
  by_cases heq : i = k
  · rw [heq, Function.update_self, hsep, if_neg (Nat.not_lt.mpr hk)]
  · rw [Function.update_of_ne heq]
    exact h.evq i hi

theorem fits_withEvq_started {p : Shape} {k : ℕ} {sep : StartEvq} (h : Fits b p s) (hk : p.evqs = k)
    (hsep : sep.seState = SFXGE_EVQ_STARTED) : Fits b { p with evqs := k + 1 } (s.withEvq k sep) := by
  refine { h with evq := fun i hi => ?_ }
  show (Function.update s.sep k sep i).seState = if i < k + 1 then _ else _
  by_cases heq : i = k
  · rw [heq, Function.update_self, hsep, if_pos k.lt_succ_self]
  · rw [Function.update_of_ne heq, h.evq i hi, hk]
    exact if_congr (Nat.lt_succ_iff_lt_or_eq.trans (or_iff_left heq)).symm rfl rfl

theorem clean_withEvq {n k : ℕ} {sep : StartEvq} (h : Clean b n s) (hn : n ≤ k) (hk : k < b.nalloc) :
    Clean b n (s.withEvq k sep) ↔ sep = .stopped := by
  constructor
  · intro hc
    rw [← withEvq_sep s k sep]
    exact hc k hk hn
  · intro hsep
    rw [withEvq_self ((h k hk hn).trans hsep.symm)]
    exact h

theorem climbs_evqWait {k : ℕ} (hk : k < b.nalloc) (hevqs : p.evqs = k) (hintr : p.intr = SFXGE_INTR_STARTED)
    (hmod : .INTR ∈ p.flags) (hprime : (w.evq k).qprime ≠ none → K)
    (hwait : (w.evq k).qprime = none → ¬ (w.evq k).Initialized → (K ↔ (w.evq k).Unpolled)) :
    Climbs b K p { p with evqs := k + 1 } ((w.evq k).qprime = none ∧ (w.evq k).Initialized) (do
      Nic.check (fun s => s.siState = SFXGE_INTR_STARTED) .EINVAL
      onEvq k (StartEvq.goto SFXGE_EVQ_STARTING)
      Prog.protect (onEvq k (StartEvq.goto SFXGE_EVQ_INITIALIZED)) do
        efxEvQprime k (w.evq k).qprime
        onEvq k (StartEvq.polls (w.evq k).polls)
        Nic.check (fun s => (w.evq k).timeout = false ∧ (s.sep k).seState = SFXGE_EVQ_STARTED) .ETIMEDOUT) := by
  refine triple_check (fun _ h => h.fits.intr.trans hintr) fun s h => ?_
  have hsep : s.sep k = .stopped := h.clean k hk hevqs.le
  have hstart : onEvq k (StartEvq.goto SFXGE_EVQ_STARTING) s = .ret () (s.withEvq k ⟨SFXGE_EVQ_STARTING, 0, false⟩) := by
    rw [← withEvq_self hsep, onEvq_withEvq, withEvq_self hsep]
    rfl
  rw [bind_of_ret hstart]
  set t := s.withEvq k ⟨SFXGE_EVQ_STARTING, 0, false⟩ with ht
  have hprimed : efxEvQprime k (w.evq k).qprime t = outcome (w.evq k).qprime t :=
    efxEvQprime_eq (by rw [ht, withEvq_sep]) (h.fits.flags ▸ hmod)
  cases hrc : (w.evq k).qprime with
  | some e =>
    rw [hrc] at hprimed
    have hback : onEvq k (StartEvq.goto SFXGE_EVQ_INITIALIZED) t = .ret () s := by
      rw [ht, onEvq_withEvq]
      exact congrArg (Res.ret ()) (withEvq_self hsep)
    exact Or.inr ⟨e, s, protect_of_err (bind_of_err hprimed) hback, h.failed (hprime (hrc ▸ nofun))⟩
  | none =>
    rw [hrc] at hprimed
    set sep := StartEvq.polls (w.evq k).polls ⟨SFXGE_EVQ_STARTING, 0, false⟩ with hpolls
    have heq := polls_eq (w.evq k).polls ⟨SFXGE_EVQ_STARTING, 0, false⟩ (Or.inl rfl)
    rw [← hpolls] at heq
    have hpolled : onEvq k (StartEvq.polls (w.evq k).polls) t = .ret () (s.withEvq k sep) := onEvq_withEvq
    have hiff : (w.evq k).timeout = false ∧ ((s.withEvq k sep).sep k).seState = SFXGE_EVQ_STARTED ↔
        (w.evq k).Initialized := by
      rw [withEvq_sep, heq]
      refine and_congr_right fun _ => ?_
      dsimp only
      split_ifs with hin
      · exact iff_of_true rfl hin
      · exact iff_of_false nofun hin
    by_cases hinit : (w.evq k).Initialized
    · refine Or.inl ⟨(), s.withEvq k sep, protect_of_ret ((bind_of_ret hprimed).trans ((bind_of_ret hpolled).trans
        (check_of (hiff.mpr hinit)))), ⟨fits_withEvq_started h.fits hevqs ?_, h.passed, h.fromZero, fun i hi hle => ?_⟩,
        rfl, hinit⟩
      · rw [← withEvq_sep s k sep]
        exact (hiff.mpr hinit).2
      · have : k + 1 ≤ i := hle
        exact (Function.update_of_ne (by omega) _ _).trans (h.clean i hi (by omega))
    · refine Or.inr ⟨.ETIMEDOUT, s.withEvq k (sep.goto SFXGE_EVQ_INITIALIZED), ?_,
        fits_withEvq_initialized h.fits hevqs.le rfl, h.fromZero, ?_⟩
      · exact protect_of_err ((bind_of_ret hprimed).trans ((bind_of_ret hpolled).trans
          (check_not fun hc => hinit (hiff.mp hc)))) onEvq_withEvq
      rw [hwait hrc hinit, clean_withEvq h.clean hevqs.le hk, heq]
      show s.passed = true ∧ (⟨_, 0#32 + _, false || _⟩ : StartEvq) = ⟨_, 0#32, false⟩ ↔ _
      simp [h.passed, EvqStart.Unpolled, and_comm]

theorem climbs_bufTblSet {n : ℕ} {rc : Option Errno} (hsram : p.sram = SFXGE_SRAM_STARTED) (hK : rc ≠ none → K) :
    Climbs b K p { p with bufs := p.bufs + n } (rc = none) (sfxgeSramBufTblSet n rc) :=
  triple_assert (fun _ h => h.fits.sram.trans hsram) (Climbs.bind (.outcome hK) fun hrc =>
    triple_modify hrc (fun _ h => ⟨{ h with count := congrArg (· + n) h.count }, rfl, rfl, rfl⟩) rfl)

theorem climbs_evQcreate {rc : Option Errno} (hmod : .EV ∈ p.flags) (hK : rc ≠ none → K) :
    Climbs b K p { p with evqsMade := p.evqsMade + 1 } (rc = none) (efxEvQcreate rc) :=
  triple_assertMod hmod (Climbs.bind (.outcome hK) fun hrc =>
    triple_modify hrc (fun _ h => ⟨{ h with evQcount := congrArg (· + 1) h.evQcount }, rfl, rfl, rfl⟩) rfl)

/-- Polls of a started queue leave the shape as it is. -/
theorem good_polls {k : ℕ} {polls : List (List Event)} (h : Good b p s) (hk : k < b.nalloc) (hlt : k < p.evqs) :
    Good b p (s.withEvq k ((s.sep k).polls polls)) := by
  have hsep : (s.sep k).seState = SFXGE_EVQ_STARTED := (h.fits.evq k hk).trans (if_pos hlt)
  refine ⟨{ h.fits with evq := fun i hi => ?_ }, h.passed, h.fromZero, fun i hi hle => ?_⟩
  · show (Function.update s.sep k _ i).seState = _
    by_cases heq : i = k
    · rw [heq, Function.update_self, polls_started hsep, if_pos hlt]
    · rw [Function.update_of_ne heq]
      exact h.fits.evq i hi
  · exact (Function.update_of_ne (by omega) _ _).trans (h.clean i hi hle)

theorem climbs_evQstart {k : ℕ} (hk : k < b.nalloc) (hK : ¬ (w.evq k).Waits → K)
    (hwait : (w.evq k).Waits → ¬ (w.evq k).Starts → (K ↔ (w.evq k).Unpolled)) :
    Climbs b K (evqUp b st k) (evqUp b st (k + 1)) (w.evq k).Starts (sfxgeEvQstart b w k) := by
  refine triple_assert (fun _ h => (h.fits.evq k hk).trans (if_neg (lt_irrefl k))) ?_
  refine Climbs.protect_bind (climbs_bufTblSet rfl fun h => hK fun hw => h hw.1) (fun hset => ?_)
    (undoes_bufTblClear (p := evqUp b st k) rfl) le_rfl
    fun (hst : (w.evq k).Starts) s h => Or.inl ⟨(), _, rfl, good_polls h hk k.lt_succ_self, hst⟩
  rw [evqUp_succ]
  refine Climbs.protect (climbs_evQcreate (show Mod.EV ∈ evFlags by decide) fun h => hK fun hw => h hw.2.1)
    (fun hcreate => ?_) undoes_evQdestroy le_rfl
  refine Climbs.bind (.outcome fun h => hK fun hw => h hw.2.2.1) fun hmoderate => ?_
  refine Climbs.weaken (climbs_evqWait hk rfl rfl (show Mod.INTR ∈ evFlags by decide) (fun h => hK fun hw => h hw.2.2.2)
    fun hprime hinit => hwait ⟨hset, hcreate, hmoderate, hprime⟩ fun hst => hinit hst.2) fun hdone => ?_
  exact ⟨⟨hset, hcreate, hmoderate, hdone.1⟩, hdone.2⟩

/-- The start as far as event queue `k` fails there in the way that `Kept` asks about. -/
theorem kept_iff {k : ℕ} (hk : k < b.nalloc) (hreach : w.ReachesEvqs b) (hbefore : ∀ j < k, (w.evq j).Starts)
    (hst : ¬ (w.evq k).Starts) : w.Kept b ↔ ((w.evq k).Waits → (w.evq k).Unpolled) := by
  constructor
  · intro h hw
    exact (h hreach).1 k hk hbefore hw hst
  · refine fun h _ => ⟨fun i hi hb hw hst' => ?_, fun hall => absurd (hall k hk) hst⟩
    rcases lt_trichotomy i k with hlt | rfl | hlt
    · exact absurd (hbefore i hlt) hst'
    · exact h hw
    · exact absurd (hb k hlt) hst

theorem climbs_evQstarts (hreach : w.ReachesEvqs b) :
    Climbs b (w.Kept b) (evqUp b st 0) (evqUp b st b.nalloc) (∀ i < b.nalloc, (w.evq i).Starts)
      (climb (sfxgeEvQstart b w) (sfxgeEvQstop b) b.nalloc) := by
  refine Triple.weaken (Triple.climb (I := fun k s => Good b (evqUp b st k) s ∧ ∀ i < k, (w.evq i).Starts)
    (J := fun k => Failed b (w.Kept b) (evqUp b st k)) (fun k hk => triple_and fun hbefore => ?_)
    fun k hk => (undoes_evQstop hk).failed k.le_succ) (fun s h => ⟨h, fun i hi => absurd hi i.not_lt_zero⟩)
    (fun _ _ h => h) fun _ h => h
  refine Climbs.weaken (climbs_evQstart hk (fun hw => ?_) fun hw hst => ?_) fun hst i hi => ?_
  · exact (kept_iff hk hreach hbefore fun hst => hw hst.1).mpr fun hw' => absurd hw' hw
  · rw [kept_iff hk hreach hbefore hst]
    exact forall_prop_of_true hw
  · rcases Nat.lt_succ_iff_lt_or_eq.mp hi with hlt | rfl
    · exact hbefore i hlt
    · exact hst

theorem climbs_evStart (hreach : w.evInit = none → w.ReachesEvqs b) (hK : w.evInit ≠ none → w.Kept b) :
    Climbs b (w.Kept b) (intrUp b st) (evqUp b st b.nalloc) (w.ReachesEvqs b ∧ ∀ i < b.nalloc, (w.evq i).Starts)
      (sfxgeEvStart b w) :=
  triple_assert (fun _ h => h.fits.intr) (Climbs.protect (climbs_evInit hK)
    (fun h => Climbs.weaken (climbs_evQstarts (hreach h)) fun hall => ⟨hreach h, hall⟩) undoes_evFini le_rfl)

/-! ### MAC -/

theorem climbs_efxMac {rc : Option Errno} (hmod : .PORT ∈ p.flags) (hK : rc ≠ none → K) :
    Climbs b K p p (rc = none) (efxMac rc) :=
  triple_assertMod hmod (Climbs.outcome hK)

/-- The port is initialized, and in drain. -/
theorem portInit_triple {rc : Option Errno} (hK : rc ≠ none → K) : Triple (Good b (evqUp b st b.nalloc)) (efxPortInit rc)
    (fun _ s => (Good b { evqUp b st b.nalloc with flags := portFlags } s ∧ s.epMacDrain = true) ∧ rc = none)
    (Failed b K (evqUp b st b.nalloc)) := by
  have hundo : Triple (Failed b K { evqUp b st b.nalloc with flags := portFlags }) (clearMod .PORT)
      (fun _ => Failed b K (evqUp b st b.nalloc)) fun _ => False :=
    (undoes_clearMod (show portFlags.erase .PORT = evFlags by decide)).failed le_rfl
  refine triple_assertMod (show Mod.PROBE ∈ evFlags by decide) (triple_assertMod (show Mod.NIC ∈ evFlags by decide)
    (Triple.protect ?_ hundo))
  refine triple_checkNoMod (show Mod.PORT ∉ evFlags by decide) ((triple_setMod trivial rfl).bind fun _ =>
    triple_and fun _ => ?_)
  intro s h
  have hgood : Good b { evqUp b st b.nalloc with flags := portFlags } { s with epMacDrain := true } :=
    ⟨{ h.fits with }, h.passed, h.fromZero, h.clean⟩
  cases rc with
  | none => exact Or.inl ⟨(), _, rfl, ⟨hgood, rfl⟩, rfl⟩
  | some e => exact Or.inr ⟨e, _, rfl, hgood.failed (hK nofun)⟩

theorem efxMac_none (hmod : .PORT ∈ s.enModFlags) : efxMac none s = .ret () s := assert_bind hmod

theorem efxMac_some {e : Errno} (hmod : .PORT ∈ s.enModFlags) : efxMac (some e) s = .err e s := assert_bind hmod

/-- A call that fails before `efx_mac_drain` leaves the MAC in drain. -/
theorem triple_efxMac {rc : Option Errno} {R : Adapter → Prop} (hP : ∀ s, P s → .PORT ∈ s.enModFlags)
    (hrest : rc = none → Triple P rest Q R) (hR : rc ≠ none → ∀ s, P s → R s) :
    Triple P (efxMac rc >>= fun _ => rest) Q R := by
  intro s hs
  cases rc with
  | none =>
    rw [bind_of_ret (efxMac_none (hP s hs))]
    exact hrest rfl s hs
  | some e => exact Or.inr ⟨e, s, bind_of_err (efxMac_some (hP s hs)), hR nofun s hs⟩

/-- The last step of `sfxge_mac_start` in question. -/
theorem drain_eq (rc : Option Errno) (hmod : .PORT ∈ s.enModFlags) (hdrain : s.epMacDrain = true) :
    Prog.protect (ignore (efxMac none)) (efxMacDrain false rc) s = match rc with
      | none => .ret () { s with epMacDrain := false }
      | some e => .err e { s with epMacDrain := false } := by
  have hcall : efxMacDrain false rc s = outcome rc { s with epMacDrain := false } := by
    rw [efxMacDrain]
    refine (assert_bind hmod).trans (get_bind.trans ?_)
    rw [if_neg (by simp [hdrain])]
    rfl
  cases rc with
  | none => exact protect_of_ret hcall
  | some e => exact protect_of_err hcall (ignore_of_ret (efxMac_none (s := { s with epMacDrain := false }) hmod))

/-- The MAC with its port initialized and in drain. -/
def Drained (b : Board) (st : NicState) (s : Adapter) : Prop :=
  Good b { evqUp b st b.nalloc with flags := portFlags } s ∧ s.epMacDrain = true

theorem Drained.port (h : Drained b st s) : .PORT ∈ s.enModFlags :=
  h.1.fits.flags ▸ (show Mod.PORT ∈ portFlags by decide)

/-- What the middle of `sfxge_mac_start` leaves when it fails. -/
def DrainLeft (b : Board) (st : NicState) (w : World) (s : Adapter) : Prop :=
  Good b { evqUp b st b.nalloc with flags := portFlags } s ∧
    (s.epMacDrain = true ↔ (w.mac.ReachesDrain b → w.mac.drain = none))

theorem Drained.left (h : Drained b st s) (hreach : ¬ w.mac.ReachesDrain b) : DrainLeft b st w s :=
  ⟨h.1, iff_of_true h.2 fun hr => absurd hr hreach⟩

theorem macBody_triple (hinit : w.mac.portInit = none) : Triple (Drained b st) (do
      efxMac w.mac.phyCapApply
      efxMac w.mac.pduSet
      efxMac w.mac.fcntlSet
      efxMac w.mac.addrSet
      sfxgeMacFilterApply w.mac.filterApply
      when (b.macStatsTimerReqd = false) (efxMac w.mac.statsPeriodic)
      Prog.protect (ignore (efxMac none)) (efxMacDrain false w.mac.drain))
    (fun _ s => Good b { evqUp b st b.nalloc with flags := portFlags } s ∧
      (w.mac.ReachesDrain b → w.mac.drain = none)) (DrainLeft b st w) := by
  have hport : ∀ s, Drained b st s → .PORT ∈ s.enModFlags := fun _ h => h.port
  refine triple_efxMac hport (fun hphy => ?_) fun hrc s h => h.left fun hr => hrc hr.2.1
  refine triple_efxMac hport (fun hpdu => ?_) fun hrc s h => h.left fun hr => hrc hr.2.2.1
  refine triple_efxMac hport (fun hfcntl => ?_) fun hrc s h => h.left fun hr => hrc hr.2.2.2.1
  refine triple_efxMac hport (fun haddr => ?_) fun hrc s h => h.left fun hr => hrc hr.2.2.2.2.1
  -- the MAC is not started yet, and its filters are not applied
  refine Triple.bind (Q := fun _ => Drained b st) (fun s h => Or.inl ⟨(), s, ?_, h⟩) fun _ => ?_
  · rw [sfxgeMacFilterApply, get_bind, when_neg]
    · rfl
    · rw [show s.smState = SFXGE_MAC_INITIALIZED from h.1.fits.mac]
      exact nofun
  have hlast : (b.macStatsTimerReqd = false → w.mac.statsPeriodic = none) →
      Triple (Drained b st) (Prog.protect (ignore (efxMac none)) (efxMacDrain false w.mac.drain))
        (fun _ s => Good b { evqUp b st b.nalloc with flags := portFlags } s ∧
          (w.mac.ReachesDrain b → w.mac.drain = none)) (DrainLeft b st w) := by
    intro hstats s h
    have heq := drain_eq w.mac.drain h.port h.2
    have hgood : Good b { evqUp b st b.nalloc with flags := portFlags } { s with epMacDrain := false } :=
      ⟨{ h.1.fits with }, h.1.passed, h.1.fromZero, h.1.clean⟩
    cases hd : w.mac.drain with
    | none =>
      rw [hd] at heq
      exact Or.inl ⟨(), _, heq, hgood, fun _ => rfl⟩
    | some e =>
      rw [hd] at heq
      refine Or.inr ⟨e, _, heq, hgood, iff_of_false nofun fun hr => ?_⟩
      exact absurd (hr ⟨hinit, hphy, hpdu, hfcntl, haddr, hstats⟩) (hd ▸ nofun)
  by_cases hb : b.macStatsTimerReqd = false
  · rw [when_pos hb]
    exact triple_efxMac hport (fun hstats => hlast fun _ => hstats) fun hrc s h => h.left fun hr => hrc (hr.2.2.2.2.2 hb)
  · rw [when_neg hb]
    exact Triple.bind (Triple.pure fun _ h => h) fun _ => hlast fun h => absurd h hb

/-- **MAC.**  It is started, or taken down; an assertion fails when it could not leave drain. -/
theorem climbs_macStart (hK : K ↔ (w.mac.ReachesDrain b → w.mac.drain = none)) :
    Climbs b K (evqUp b st b.nalloc) (macUp b st) K (sfxgeMacStart b w) := by
  have hundo : Triple (DrainLeft b st w) efxPortFini (fun _ => Failed b K (evqUp b st b.nalloc)) fun _ => False := by
    rintro s ⟨h, hd⟩
    refine Or.inl ⟨(), _, efxPortFini_eq h.fits.flags, { h.fits with flags := rfl }, h.fromZero, ?_⟩
    rw [hK, ← hd]
    show (s.passed && s.epMacDrain) = true ∧ Clean b b.nalloc s ↔ _
    rw [h.passed, Bool.true_and]
    exact and_iff_left h.clean
  refine triple_assert (fun _ h => h.fits.mac) ((portInit_triple fun h => hK.mpr fun hr => absurd hr.1 h).bind fun _ =>
    triple_and fun hinit => ?_)
  exact ((macBody_triple hinit).protect hundo).bind fun _ => triple_and fun hk =>
    triple_modify (hK.mpr hk) (fun _ h => ⟨{ h with mac := rfl }, rfl, rfl, rfl⟩) rfl

theorem kept_iff_mac (hreach : w.ReachesEvqs b) (hall : ∀ i < b.nalloc, (w.evq i).Starts) :
    w.Kept b ↔ (w.mac.ReachesDrain b → w.mac.drain = none) := by
  constructor
  · exact fun h => (h hreach).2 hall
  · exact fun h _ => ⟨fun i hi _ _ hst => absurd (hall i hi) hst, fun _ => h⟩

/-! ### Receive and transmit queues -/

theorem climbs_rxInit {rc : Option Errno} (hk : K) :
    Climbs b K (macUp b st) (rxqUp b st SFXGE_RX_SCALE_INITIALIZED 0) True (efxRxInit rc) := by
  rw [rxqUp_zero]
  exact triple_assertMod (show Mod.NIC ∈ portFlags by decide)
    (Climbs.bind (.protectMod (show Mod.RX ∉ portFlags by decide)
      (triple_checkMod (show Mod.EV ∈ portFlags by decide) (triple_checkNoMod (show Mod.RX ∉ portFlags by decide)
        (Climbs.outcome fun _ => hk)))) fun _ => triple_setMod trivial rfl)

theorem climbs_rxScaleStart {rc : Option Errno} (hk : K) : Climbs b K (rxqUp b st SFXGE_RX_SCALE_INITIALIZED 0)
    (rxqUp b st SFXGE_RX_SCALE_STARTED 0) True (sfxgeRxScaleStart rc) :=
  triple_assert (fun _ h => h.fits.scale) (Climbs.bind (.outcome fun _ => hk) fun _ =>
    triple_modify trivial (fun _ h => ⟨{ h with scale := rfl }, rfl, rfl, rfl⟩) rfl)

theorem climbs_rxQcreate {rc : Option Errno} (hmod : .RX ∈ p.flags) (hK : rc ≠ none → K) :
    Climbs b K p { p with rxqsMade := p.rxqsMade + 1 } (rc = none) (efxRxQcreate rc) :=
  triple_assertMod hmod (Climbs.bind (.outcome hK) fun hrc =>
    triple_modify hrc (fun _ h => ⟨{ h with rxQcount := congrArg (· + 1) h.rxQcount }, rfl, rfl, rfl⟩) rfl)

theorem triple_setRxq {k : ℕ} (hk : p.rxqs = k) (hφ : φ) : Triple (Good b p) (setRxq k SFXGE_RXQ_STARTED)
    (fun _ s => Good b { p with rxqs := k + 1 } s ∧ φ) E := by
  refine triple_modify hφ (fun s h => ⟨{ h with rxq := fun i hi => ?_ }, rfl, rfl, rfl⟩) rfl
  show Function.update s.srState k _ i = if i < k + 1 then _ else _
  by_cases heq : i = k
  · rw [heq, Function.update_self, if_pos k.lt_succ_self]
  · rw [Function.update_of_ne heq, h.rxq i hi, hk]
    exact if_congr (Nat.lt_succ_iff_lt_or_eq.trans (or_iff_left heq)).symm rfl rfl

theorem climbs_rxQstart {k : ℕ} (hlt : k < b.nalloc) (hk : K) : Climbs b K (rxqUp b st SFXGE_RX_SCALE_STARTED k)
    (rxqUp b st SFXGE_RX_SCALE_STARTED (k + 1)) True (sfxgeRxQstart b w k) := by
  refine triple_assert (fun _ h => (h.fits.rxq k hlt).trans (if_neg (lt_irrefl k))) (triple_assert
    (fun _ h => (h.fits.evq k hlt).trans (if_pos hlt)) ?_)
  rw [rxqUp_succ]
  exact Climbs.protect_bind (climbs_bufTblSet rfl fun _ => hk)
    (fun _ => climbs_rxQcreate (show Mod.RX ∈ rxFlags by decide) fun _ => hk)
    (undoes_bufTblClear (p := rxqUp b st SFXGE_RX_SCALE_STARTED k) rfl) le_rfl fun _ => triple_setRxq rfl trivial

theorem climbs_rxQstarts (hk : K) : Climbs b K (rxqUp b st SFXGE_RX_SCALE_STARTED 0) (rxUp b st) True
    (climb (sfxgeRxQstart b w) (sfxgeRxQstop b) b.nalloc) := by
  refine Triple.weaken (Triple.climb (I := fun k => Good b (rxqUp b st SFXGE_RX_SCALE_STARTED k))
    (J := fun k => Failed b K (rxqUp b st SFXGE_RX_SCALE_STARTED k)) (fun k hlt => ?_)
    fun k hlt => (undoes_rxQstop hlt).failed le_rfl) (fun _ h => h) (fun _ _ h => ⟨h, trivial⟩) fun _ h => h
  exact Triple.weaken (climbs_rxQstart hlt hk) (fun _ h => h) (fun _ _ h => h.1) fun _ h => h

theorem climbs_rxStart (hk : K) : Climbs b K (macUp b st) (rxUp b st) True (sfxgeRxStart b w) := by
  refine Climbs.protect (climbs_rxInit hk) (fun _ => ?_) undoes_rxFini le_rfl
  refine Climbs.protect (climbs_rxScaleStart hk) (fun _ => ?_) undoes_rxScaleStop le_rfl
  refine Climbs.protect (climbs_rxQstarts hk) (fun _ => ?_) undoes_rxQstops le_rfl
  refine triple_assert (fun _ h => (h.fits.rxq 0 b.nalloc_pos).trans (if_pos b.nalloc_pos))
    (triple_assert (fun _ h => h.fits.scale) ?_)
  exact Climbs.weaken (climbs_efxMac (show Mod.PORT ∈ rxFlags by decide) fun _ => hk) fun _ => trivial

theorem climbs_txInit {rc : Option Errno} (hk : K) :
    Climbs b K (rxUp b st) (txqUp b st 0 b.ntxq) True (efxTxInit rc) := by
  have hzero : txqUp b st 0 b.ntxq = { rxUp b st with flags := txFlags } := by
    simp only [txqUp, Board.txqs, Nat.zero_mul, Nat.add_zero]
    rfl
  rw [hzero]
  exact triple_assertMod (show Mod.NIC ∈ rxFlags by decide)
    (Climbs.bind (.protectMod (show Mod.TX ∉ rxFlags by decide)
      (triple_checkMod (show Mod.EV ∈ rxFlags by decide) (triple_checkNoMod (show Mod.TX ∉ rxFlags by decide)
        (triple_assert (fun _ h => h.fits.txQcount) (Climbs.outcome fun _ => hk))))) fun _ => triple_setMod trivial rfl)

theorem climbs_txQcreate {rc : Option Errno} (hmod : .TX ∈ p.flags) (hK : rc ≠ none → K) :
    Climbs b K p { p with txqsMade := p.txqsMade + 1 } (rc = none) (efxTxQcreate rc) :=
  triple_assertMod hmod (Climbs.bind (.outcome hK) fun hrc =>
    triple_modify hrc (fun _ h => ⟨{ h with txQcount := congrArg (· + 1) h.txQcount }, rfl, rfl, rfl⟩) rfl)

theorem triple_setTxq {k : ℕ} (hk : p.txqs = k) (hlt : k < p.unflushed) (hφ : φ) :
    Triple (Good b p) (setTxq k SFXGE_TXQ_STARTED) (fun _ s => Good b { p with txqs := k + 1 } s ∧ φ) E := by
  refine triple_modify hφ (fun s h => ⟨{ h with txq := fun i hi => ?_ }, rfl, rfl, rfl⟩) rfl
  show TxqIs (k + 1) p.unflushed i (Function.update s.stState k _ i)
  by_cases heq : i = k
  · rw [heq, Function.update_self]
    exact (txqIs_started k.lt_succ_self hlt).mpr rfl
  · rw [Function.update_of_ne heq]
    exact (txqIs_of_ne' heq).mpr (hk ▸ h.txq i hi)

theorem climbs_txQstart {k : ℕ} (hlt : k < b.ntxq) (hk : K) :
    Climbs b K (txqUp b st k b.ntxq) (txqUp b st (k + 1) b.ntxq) True (sfxgeTxQstart b w k) := by
  cases hevq : b.stEvq k with
  | none =>
    rw [txqUp_succ_none hevq, sfxgeTxQstart, hevq]
    refine Triple.pure fun s h => ⟨⟨{ h.fits with txq := fun i hi => ?_ }, h.passed, h.fromZero, h.clean⟩, trivial⟩
    exact (txqIs_of_ne' fun heq : i = k => hi (heq ▸ hevq)).mpr (h.fits.txq i hi)
  | some evq =>
    have hsome : b.stEvq k ≠ none := hevq ▸ nofun
    rw [txqUp_succ hsome, sfxgeTxQstart, hevq]
    refine triple_assert (fun _ h => (txqIs_initialized le_rfl).mp (h.fits.txq k hsome)) (triple_assert
      (fun _ h => (h.fits.evq evq (b.stEvq_lt hevq)).trans (if_pos (b.stEvq_lt hevq))) ?_)
    exact Climbs.protect_bind (climbs_bufTblSet rfl fun _ => hk)
      (fun _ => climbs_txQcreate (show Mod.TX ∈ txFlags by decide) fun _ => hk)
      (undoes_bufTblClear (p := txqUp b st k b.ntxq) rfl) le_rfl fun _ => triple_setTxq rfl hlt trivial

theorem climbs_txStart (hk : K) : Climbs b K (rxUp b st) (txUp b st) True (sfxgeTxStart b w) := by
  -- `sfxge_tx_stop` takes down as many queues as have been started
  have hstarts : Triple (Good b (txqUp b st 0 b.ntxq)) (climb (sfxgeTxQstart b w) (fun _ => pure ()) b.ntxq)
      (fun _ => Good b (txUp b st)) fun s => ∃ k ≤ b.ntxq, Failed b K (txqUp b st k b.ntxq) s :=
    Triple.climb (I := fun k => Good b (txqUp b st k b.ntxq))
      (J := fun _ s => ∃ k ≤ b.ntxq, Failed b K (txqUp b st k b.ntxq) s)
      (fun k hlt => Triple.weaken (climbs_txQstart hlt hk) (fun _ h => h) (fun _ _ h => h.1) fun _ h => ⟨k, hlt.le, h⟩)
      fun _ _ => Triple.pure fun _ h => h
  have hundo : Triple (fun s => ∃ k ≤ b.ntxq, Failed b K (txqUp b st k b.ntxq) s) (sfxgeTxStop b w.flushed)
      (fun _ => Failed b K (rxUp b st)) fun _ => False :=
    fun s ⟨_, hle, h⟩ => (undoes_txStop hle).failed le_rfl s h
  exact Triple.bind (climbs_txInit hk) fun _ => triple_and fun _ =>
    Triple.weaken (hstarts.protect hundo) (fun _ h => h) (fun _ _ h => ⟨h, trivial⟩) fun _ h => h

theorem climbs_monStart (hk : K) : Climbs b K (txUp b st) (monUp b st) True (sfxgeMonStart w) := by
  have hundo : Triple (Failed b K { txUp b st with flags := monFlags }) (clearMod .MON)
      (fun _ => Failed b K (txUp b st)) fun _ => False :=
    (undoes_clearMod (show monFlags.erase .MON = txFlags by decide)).failed le_rfl
  have hinit : Climbs b K (txUp b st) { txUp b st with flags := monFlags } (w.monInit = none) (efxMonInit w.monInit) :=
    triple_assertMod (show Mod.PROBE ∈ txFlags by decide) (triple_checkNoMod (show Mod.MON ∉ txFlags by decide)
      ((triple_setMod trivial rfl).bind fun _ => triple_and fun _ =>
        Triple.protect (Climbs.outcome fun _ => hk) hundo))
  exact triple_assert (fun _ h => h.fits.mon) (Triple.bind hinit fun _ => triple_and fun _ =>
    triple_modify trivial (fun _ h => ⟨{ h with mon := rfl }, rfl, rfl, rfl⟩) rfl)

/-! ### Start and stop -/

theorem kept_of_not_reach (h : ¬ w.ReachesEvqs b) : w.Kept b := fun hr => absurd hr h

/-- **A start from the NIC up.** -/
theorem climbs_startUp (hreset : w.reset = none) :
    Climbs b (w.Kept b) (ground b st) (monUp b st) (w.Kept b) (startUp b w) := by
  refine Climbs.protect (climbs_nicInit fun h => kept_of_not_reach fun hr => h hr.2.1) (fun hnic => ?_)
    undoes_nicFini le_rfl
  refine Climbs.protect (climbs_filterInit fun h => kept_of_not_reach fun hr => h hr.2.2.1) (fun hfilter => ?_)
    undoes_filterFini le_rfl
  refine Climbs.protect climbs_sramStart (fun _ => ?_) undoes_sramStop le_rfl
  refine Climbs.protect (climbs_intrStart (fun h => kept_of_not_reach fun hr => h hr.2.2.2.1)
    fun h => kept_of_not_reach fun hr => h hr.2.2.2.2.1) (fun hintr => ?_) undoes_intrStop le_rfl
  have hreach : w.evInit = none → w.ReachesEvqs b := fun hev => ⟨hreset, hnic, hfilter, hintr.1, hintr.2, hev⟩
  refine Climbs.protect (climbs_evStart hreach fun h => kept_of_not_reach fun hr => h hr.2.2.2.2.2) (fun hall => ?_)
    undoes_evStop b.nalloc.zero_le
  refine Climbs.protect (climbs_macStart (kept_iff_mac hall.1 hall.2)) (fun hk => ?_) undoes_macStop le_rfl
  refine Climbs.protect (climbs_rxStart hk) (fun _ => ?_) undoes_rxStop le_rfl
  refine Climbs.protect (climbs_txStart hk) (fun _ => ?_) (undoes_txStop le_rfl) le_rfl
  exact Climbs.weaken (climbs_monStart hk) fun _ => hk

theorem nicReset_eq {rc : Option Errno} (h : Fits b (ground b st) s) : efxNicReset rc s = outcome rc s := by
  have hf : s.enModFlags = attached := h.flags
  have hprobe : .PROBE ∈ s.enModFlags := hf ▸ (show Mod.PROBE ∈ attached by decide)
  have hkept : s.enModFlags \ keptByReset = ∅ := hf ▸ (show attached \ keptByReset = ∅ by decide)
  exact (assert_bind hprobe).trans ((assert_bind hkept).trans (check_bind hkept))

theorem undoes_nicReset {rc : Option Errno} : Undoes b (ground b st) (ground b st) (ignore (efxNicReset rc)) := by
  refine .of_same rfl fun s h => ⟨s, ?_, h, rfl, rfl, rfl⟩
  cases rc with
  | none => exact ignore_of_ret (nicReset_eq h)
  | some e => exact ignore_of_err (nicReset_eq h)

theorem undoes_setNic {st' : NicState} : Undoes b p { p with state := st' } (setNic st') :=
  .of_same rfl fun s h => ⟨{ s with sState := st' }, rfl, { h with state := rfl }, rfl, rfl, rfl⟩

/-- **Start.**  A start leads from a stopped adapter to a started one, or fails and leaves a stopped one, with
nothing gone wrong exactly under the condition. -/
theorem sfxgeStartLocked_triple : Triple (Good b (ground b SFXGE_REGISTERED)) (sfxgeStartLocked b w)
    (fun _ s => Good b (monUp b SFXGE_STARTED) s ∧ w.Kept b) (Failed b (w.Kept b) (ground b SFXGE_REGISTERED)) := by
  have hundo : Triple (Failed b (w.Kept b) (ground b SFXGE_STARTING))
      (assert (fun s => s.sState = SFXGE_STARTING) >>= fun _ => setNic SFXGE_REGISTERED)
      (fun _ => Failed b (w.Kept b) (ground b SFXGE_REGISTERED)) fun _ => False :=
    (Undoes.assert (fun _ h => h.state) undoes_setNic).failed le_rfl
  have hreset : Climbs b (w.Kept b) (ground b SFXGE_STARTING) (ground b SFXGE_STARTING) (w.reset = none)
      (efxNicReset w.reset) := by
    intro s h
    rw [nicReset_eq h.fits]
    exact Climbs.outcome (fun hrc => kept_of_not_reach fun hr => hrc hr.1) s h
  intro s h
  have hreg : s.sState = SFXGE_REGISTERED := h.fits.state
  rw [sfxgeStartLocked, get_bind, if_neg (by rw [hreg]; exact nofun), check_bind hreg]
  refine Triple.bind ((undoes_setNic (b := b)).good le_rfl) (fun _ => ?_) s h
  refine Triple.protect (Triple.bind hreset fun _ => triple_and fun hr => ?_) hundo
  refine Triple.bind (Triple.protect (climbs_startUp hr) (undoes_nicReset.failed le_rfl)) fun _ => triple_and fun hk => ?_
  exact triple_assert (fun _ h => h.fits.state)
    (triple_modify hk (fun _ h => ⟨{ h with state := rfl }, rfl, rfl, rfl⟩) rfl)

/-- **Stop.** -/
theorem sfxgeStopLocked_triple {flushed : ℕ → Flushed} : Triple (Good b (monUp b SFXGE_STARTED))
    (sfxgeStopLocked b flushed) (fun _ => Good b (ground b SFXGE_REGISTERED)) fun _ => False := by
  intro s h
  rw [sfxgeStopLocked, get_bind, if_neg (by rw [show s.sState = SFXGE_STARTED from h.fits.state]; exact fun hn => hn rfl)]
  have hlast : Undoes b (ground b SFXGE_STOPPING) (ground b SFXGE_REGISTERED)
      (assert (fun s => s.sState = SFXGE_STOPPING) >>= fun _ => setNic SFXGE_REGISTERED) :=
    .assert (fun _ h => h.state) undoes_setNic
  have hdown : Undoes b (monUp b SFXGE_STARTED) (monUp b SFXGE_STOPPING) (setNic SFXGE_STOPPING) := undoes_setNic
  have hreset : Undoes b (ground b SFXGE_STOPPING) (ground b SFXGE_STOPPING) (ignore (efxNicReset none)) :=
    undoes_nicReset
  have htx : Undoes b (txUp b SFXGE_STOPPING) (rxUp b SFXGE_STOPPING) (sfxgeTxStop b flushed) := undoes_txStop le_rfl
  have h0 := undoes_nicFini.bind (hreset.bind hlast le_rfl) le_rfl
  have h1 := undoes_intrStop.bind (undoes_sramStop.bind (undoes_filterFini.bind h0 le_rfl) le_rfl) le_rfl
  have h2 := undoes_macStop.bind (undoes_evStop.bind h1 b.nalloc.zero_le) le_rfl
  have h3 := htx.bind (undoes_rxStop.bind h2 le_rfl) le_rfl
  exact (hdown.bind (undoes_monStop.bind h3 le_rfl) le_rfl).good b.nalloc.zero_le s h

end

/-! ### Runs -/

/-- The adapter is down or up, and nothing has gone wrong. -/
def Sound (b : Board) (s : Adapter) : Prop := Good b (ground b SFXGE_REGISTERED) s ∨ Good b (monUp b SFXGE_STARTED) s

theorem good_init : Good b (ground b SFXGE_REGISTERED) .init := by
  refine ⟨⟨rfl, rfl, rfl, rfl, rfl, rfl, rfl, rfl, fun i _ => ?_, rfl, rfl, fun i _ => ?_, fun i _ => ?_, rfl⟩, rfl, rfl,
    fun _ _ _ => rfl⟩
  · exact (if_neg i.not_lt_zero).symm
  · exact (if_neg i.not_lt_zero).symm
  · exact (txqIs_initialized i.zero_le).mpr rfl

theorem Fits.stopped (h : Fits b (ground b SFXGE_REGISTERED) s) (hc : Clean b 0 s) : Stopped b s where
  flags := h.flags
  intr := h.intr
  sram := h.sram
  count := h.count
  evq i hi := hc i hi i.zero_le
  mac := h.mac
  scale := h.scale
  rxq i hi := (h.rxq i hi).trans (if_neg i.not_lt_zero)
  txq i _ hi := (txqIs_initialized i.zero_le).mp (h.txq i hi)
  mon := h.mon

theorem Sound.allOrNothing (h : Sound b s) : AllOrNothing b s := by
  rcases h with h | h
  · exact ⟨h.passed, h.fromZero, fun _ => h.fits.stopped h.clean⟩
  · refine ⟨h.passed, h.fromZero, fun hreg => ?_⟩
    have := h.fits.state.symm.trans hreg
    cases this

/-- A start that has failed has gone wrong or not. -/
theorem Failed.allOrNothing_iff {K : Prop} (h : Failed b K (ground b SFXGE_REGISTERED) s) : AllOrNothing b s ↔ K := by
  rw [← h.iff]
  constructor
  · exact fun ha => ⟨ha.passed, fun i hi _ => (ha.stopped h.fits.state).evq i hi⟩
  · exact fun ⟨hp, hc⟩ => ⟨hp, h.fromZero, fun _ => h.fits.stopped hc⟩

theorem Failed.sound {K : Prop} (h : Failed b K (ground b SFXGE_REGISTERED) s) (hK : K) : Sound b s :=
  Or.inl ⟨h.fits, (h.iff.mpr hK).1, h.fromZero, (h.iff.mpr hK).2⟩

/-- A poll leaves the adapter as sound as it was. -/
theorem Sound.poll {index : ℕ} {events : List Event} (h : Sound b s) (hi : index < b.nalloc) :
    Sound b (s.withEvq index ((s.sep index).qpoll events)) := by
  rcases h with h | h
  · have hsep : s.sep index = .stopped := h.clean index hi index.zero_le
    have hpoll : (s.sep index).qpoll events = s.sep index := by
      rw [hsep]
      exact if_pos ⟨nofun, nofun⟩
    rw [hpoll, withEvq_self rfl]
    exact Or.inl h
  · have hgood : Good b (monUp b SFXGE_STARTED) (s.withEvq index ((s.sep index).polls [events])) := good_polls h hi hi
    exact Or.inr hgood

theorem start_step {o : StartOp} (h : Sound b s) (hs : startStep b o s = some s') :
    (AllOrNothing b s' ↔ KeptStep b o s) ∧ (KeptStep b o s → Sound b s') := by
  cases o with
  | start w =>
    have hs : after (sfxgeStartLocked b w) s = some s' := hs
    rcases h with h | h
    · have hreg : s.sState = SFXGE_REGISTERED := h.fits.state
      have hstep : KeptStep b (.start w) s ↔ w.Kept b := forall_prop_of_true hreg
      rw [hstep]
      rcases sfxgeStartLocked_triple s h with ⟨_, t, hret, hgood, hk⟩ | ⟨e, t, herr, hfail⟩
      · rw [after, hret] at hs
        cases hs
        exact ⟨iff_of_true (Sound.allOrNothing (Or.inr hgood)) hk, fun _ => Or.inr hgood⟩
      · rw [after, herr] at hs
        cases hs
        exact ⟨hfail.allOrNothing_iff, hfail.sound⟩
    · have hst : s.sState = SFXGE_STARTED := h.fits.state
      have hret : sfxgeStartLocked b w s = .ret () s := by
        rw [sfxgeStartLocked, get_bind, if_pos hst]
        rfl
      rw [after, hret] at hs
      cases hs
      have hk : KeptStep b (.start w) s := fun hreg => by
        rw [hst] at hreg
        cases hreg
      exact ⟨iff_of_true (Sound.allOrNothing (Or.inr h)) hk, fun _ => Or.inr h⟩
  | stop flushed =>
    have hs : after (sfxgeStopLocked b flushed) s = some s' := hs
    have hsound : Sound b s' := by
      rcases h with h | h
      · have hreg : s.sState = SFXGE_REGISTERED := h.fits.state
        have hret : sfxgeStopLocked b flushed s = .ret () s := by
          rw [sfxgeStopLocked, get_bind, if_pos (by rw [hreg]; exact nofun)]
          rfl
        rw [after, hret] at hs
        cases hs
        exact Or.inl h
      · rcases sfxgeStopLocked_triple s h with ⟨_, t, hret, hgood⟩ | ⟨_, _, _, hfalse⟩
        · rw [after, hret] at hs
          cases hs
          exact Or.inl hgood
        · exact hfalse.elim
    exact ⟨iff_of_true hsound.allOrNothing trivial, fun _ => hsound⟩
  | poll index events =>
    simp only [startStep] at hs
    split_ifs at hs with hi
    cases hs
    have hsound : Sound b (s.withEvq index ((s.sep index).qpoll events)) := h.poll hi
    exact ⟨iff_of_true hsound.allOrNothing trivial, fun _ => hsound⟩

/-- **Starting the adapter is all or nothing** along a run of starts, stops and polls exactly when no event queue
that has handled events while it waited times out, and no start fails because the MAC cannot leave drain. -/
theorem start_all_or_nothing_iff (b : Board) (ops : List StartOp) :
    AlwaysAlong (startStep b) (AllOrNothing b) ops .init ↔ StepsAlong (startStep b) (KeptStep b) ops .init :=
  alwaysAlong_iff_of_steps (I := Sound b) (fun _ _ _ h _ hk hs => (start_step h hs).2 hk)
    (fun _ _ _ h _ hs => (start_step h hs).1) ops (Or.inl good_init) (Sound.allOrNothing (Or.inl good_init))

/-- One event queue, with the transmit queue that has no checksum offload. -/
def oneQueue : Board where
  nalloc := 1
  huntington := true
  macStatsTimerReqd := true
  ntxq := 1
  stEvq index := if index = 0 then some 0 else none
  evqNbufs _ := 1
  rxqNbufs := 1
  txqNbufs := 1
  nalloc_pos := one_pos
  stEvq_lt := by
    intro index e h
    split_ifs at h
    cases h
    exact one_pos

/-- A start where only the event queue, or the MAC at its last step, may be in the way. -/
def World.but (evq : EvqStart) (drain : Option Errno) : World where
  reset := none
  resetAgain := none
  nicInit := none
  filterInit := none
  busEnable := none
  intrTest := true
  evInit := none
  evq _ := evq
  mac := ⟨none, none, none, none, none, none, none, drain⟩
  rxInit := none
  toeplitzHashInit := none
  rxq _ := ⟨none, none⟩
  defaultRxqSet := none
  txInit := none
  txq _ := ⟨none, none⟩
  flushed _ := .done
  monInit := none

/-- One event is handled, and it is not the one that is waited for: `se_count` stays at 1, and the next start polls
the queue from there. -/
def World.late : World := .but ⟨none, none, none, none, [[.other]], true, []⟩ none

/-- `emo_reconfigure` fails. -/
def World.stuck : World := .but ⟨none, none, none, none, [[.initialized]], false, []⟩ (some Errno.EIO)

theorem start_late : ¬ AlwaysAlong (startStep oneQueue) (AllOrNothing oneQueue) [.start .late] .init ∧
    ¬ AlwaysAlong (startStep oneQueue) (fun s => s.fromZero = true) [.start .late, .start .late] .init ∧
    ¬ AlwaysAlong (startStep oneQueue) (AllOrNothing oneQueue) [.start .stuck] .init := by
  refine ⟨fun h => ?_, fun h => ?_, fun h => ?_⟩
  · obtain ⟨s, hs, hn⟩ := exists_of_any
      (r := runOps (startStep oneQueue) [.start .late] .init) (P := fun s => ¬ AllOrNothing oneQueue s)
      (by decide)
    exact hn (h.last hs)
  · obtain ⟨s, hs, hn⟩ := exists_of_any
      (r := runOps (startStep oneQueue) [.start .late, .start .late] .init) (P := fun s => ¬ s.fromZero = true)
      (by decide)
    exact hn (h.last hs)
  · obtain ⟨s, hs, hn⟩ := exists_of_any
      (r := runOps (startStep oneQueue) [.start .stuck] .init) (P := fun s => ¬ AllOrNothing oneQueue s)
      (by decide)
    exact hn (h.last hs)

end Sfxge.Nic
