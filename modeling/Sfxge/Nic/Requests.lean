import Sfxge.Nic.Restart

/-!
# Nic.Requests — which restart requests are served

A request that is counted while a restart still has its stop phase before it is served by that restart.
`_sfxge_restart` zeroes the count only when it ends, so that a request counted after the stop phase is
merged into a restart that has already stopped, and lost.
-/

namespace Sfxge.Nic

open Lib NicState HwErr ActionOnHwErr EvqState

namespace Sys

variable {cfg : Config} {s s' : Sys}

/-! ### Updates -/

theorem update_some {α : Type} {f : ℕ → Option α} {t t' : ℕ} {x : Option α} {a : α}
    (h : Function.update f t x t' = some a) : t' = t ∧ x = some a ∨ t' ≠ t ∧ f t' = some a := by
  by_cases ht : t' = t
  · subst ht
    rw [Function.update_self] at h
    exact Or.inl ⟨rfl, h⟩
  · rw [Function.update_of_ne ht] at h
    exact Or.inr ⟨ht, h⟩

@[simp] theorem onEvq_self (i : ℕ) (f : Evq → Evq) (s : Sys) : (s.onEvq i f).evqs i = f (s.evqs i) :=
  Function.update_self ..

theorem onEvq_of_ne {i j : ℕ} (h : j ≠ i) (f : Evq → Evq) (s : Sys) : (s.onEvq i f).evqs j = s.evqs j :=
  Function.update_of_ne h ..

/-- What a write to a queue keeps of it, it keeps of all. -/
theorem onEvq_keeps {β : Type} {g : Evq → β} {i : ℕ} {f : Evq → Evq} (h : g (f (s.evqs i)) = g (s.evqs i))
    (j : ℕ) : g ((s.onEvq i f).evqs j) = g (s.evqs j) := by
  by_cases hj : j = i
  · subst hj
    rw [onEvq_self, h]
  · rw [onEvq_of_ne hj]

theorem leave_calls (t : ℕ) (c : Call) (s : Sys) : (s.leave t c).calls = Function.update s.calls t none := by
  unfold leave
  cases c.evq <;> rfl

theorem leave_frame (t : ℕ) (c : Call) (s : Sys) : (s.leave t c).task = s.task ∧
    (s.leave t c).sState = s.sState ∧ (s.leave t c).sHwErr = s.sHwErr ∧
    (s.leave t c).sNestedRestarts = s.sNestedRestarts ∧ (s.leave t c).queued = s.queued ∧
    (s.leave t c).made = s.made ∧ (s.leave t c).stopped = s.stopped ∧ (s.leave t c).served = s.served := by
  unfold leave
  cases c.evq <;> exact ⟨rfl, rfl, rfl, rfl, rfl, rfl, rfl, rfl⟩

/-- A handler that returns lets the lock of its queue go. -/
theorem leave_keeps {β : Type} {g : Evq → β} (hg : ∀ q : Evq, g q.release = g q) (t : ℕ) (c : Call) (j : ℕ) :
    g ((s.leave t c).evqs j) = g (s.evqs j) := by
  unfold leave
  cases c.evq with
  | none => rfl
  | some i => exact onEvq_keeps (s := { s with calls := Function.update s.calls t none }) (hg _) j

theorem leave_lock {t : ℕ} {c : Call} {j : ℕ} (hj : c.evq ≠ some j) :
    ((s.leave t c).evqs j).seLock = (s.evqs j).seLock := by
  unfold leave
  cases hc : c.evq with
  | none => rfl
  | some i =>
    have hne : j ≠ i := fun h => hj (by rw [hc, h])
    exact congrArg Evq.seLock (onEvq_of_ne hne _ _)

/-! ### Locks of the event queues -/

/-- An event handler that asks for a restart holds the lock of its queue, which is being polled. -/
structure Held (cfg : Config) (s : Sys) : Prop where
  lock : ∀ t c i, s.calls t = some c → c.evq = some i →
    i < cfg.nalloc ∧ (s.evqs i).seLock = true ∧ (s.evqs i).polled = true
  alone : ∀ t t' c c' i, s.calls t = some c → s.calls t' = some c' → c.evq = some i → c'.evq = some i → t = t'

/-- The stop phase has stopped the queues from the last on. -/
def Halted (cfg : Config) (s : Sys) : Prop :=
  ∀ m, s.task = .stop m → ∀ i, m ≤ i → i < cfg.nalloc → (s.evqs i).polled = false

theorem Held.free (hl : s.Held cfg) {i : ℕ} (hfree : (s.evqs i).seLock = false) {t : ℕ} {c : Call}
    (hc : s.calls t = some c) : c.evq ≠ some i := by
  intro hi
  rw [(hl.lock t c i hc hi).2.1] at hfree
  cases hfree

theorem Held.enter (hl : s.Held cfg) (t : ℕ) (sleep : Bool) (hwErr : HwErr) :
    (s.enter t sleep hwErr none).Held cfg := by
  refine ⟨fun t' c i hc hi => ?_, fun t1 t2 c c' i hc hc' hi hi' => ?_⟩
  · rcases update_some hc with ⟨-, h⟩ | ⟨-, h⟩
    · cases h
      cases hi
    · exact hl.lock t' c i h hi
  · rcases update_some hc with ⟨-, h⟩ | ⟨-, h⟩
    · cases h
      cases hi
    rcases update_some hc' with ⟨-, h'⟩ | ⟨-, h'⟩
    · cases h'
      cases hi'
    · exact hl.alone t1 t2 c c' i h h' hi hi'

/-- A handler takes the lock. -/
theorem Held.enterEvq (hl : s.Held cfg) {t i : ℕ} (sleep : Bool) (hwErr : HwErr) (hh : s.Handles cfg t i) :
    ((s.onEvq i (Evq.except true)).enter t sleep hwErr (some i)).Held cfg := by
  obtain ⟨hi, hpolled, hfree, -⟩ := hh
  refine ⟨fun t' c j hc hj => ?_, fun t1 t2 c c' j hc hc' hj hj' => ?_⟩
  · change j < _ ∧ ((s.onEvq i _).evqs j).seLock = _ ∧ ((s.onEvq i _).evqs j).polled = _
    rcases update_some hc with ⟨-, h⟩ | ⟨-, h⟩
    · cases h
      cases hj
      rw [onEvq_self]
      exact ⟨hi, rfl, hpolled⟩
    · have hne : j ≠ i := fun hji => hl.free hfree h (hji ▸ hj)
      rw [onEvq_of_ne hne]
      exact hl.lock t' c j h hj
  · rcases update_some hc with ⟨h1, h⟩ | ⟨-, h⟩ <;> rcases update_some hc' with ⟨h2, h'⟩ | ⟨-, h'⟩
    · rw [h1, h2]
    · cases h
      cases hj
      exact absurd hj' (hl.free hfree h')
    · cases h'
      cases hj'
      exact absurd hj (hl.free hfree h)
    · exact hl.alone t1 t2 c c' j h h' hj hj'

theorem Held.advance (hl : s.Held cfg) {t : ℕ} {c : Call} (hc : s.calls t = some c) (stage : Stage) :
    (s.advance t c stage).Held cfg := by
  have hback : ∀ t' c', (s.advance t c stage).calls t' = some c' →
      ∃ c0, s.calls t' = some c0 ∧ c'.evq = c0.evq := by
    intro t' c' hc'
    rcases update_some hc' with ⟨rfl, h⟩ | ⟨-, h⟩
    · cases h
      exact ⟨c, hc, rfl⟩
    · exact ⟨c', h, rfl⟩
  refine ⟨fun t' c' i hc' hi => ?_, fun t1 t2 c1 c2 i h1 h2 hi1 hi2 => ?_⟩
  · obtain ⟨c0, h0, he⟩ := hback t' c' hc'
    exact hl.lock t' c0 i h0 (he ▸ hi)
  · obtain ⟨d1, hd1, he1⟩ := hback t1 c1 h1
    obtain ⟨d2, hd2, he2⟩ := hback t2 c2 h2
    exact hl.alone t1 t2 d1 d2 i hd1 hd2 (he1 ▸ hi1) (he2 ▸ hi2)

theorem Held.leave (hl : s.Held cfg) {t : ℕ} {c : Call} (hc : s.calls t = some c) : (s.leave t c).Held cfg := by
  have hback : ∀ t' c', (s.leave t c).calls t' = some c' → t' ≠ t ∧ s.calls t' = some c' := by
    intro t' c' hc'
    rw [leave_calls] at hc'
    rcases update_some hc' with ⟨-, h⟩ | h
    · cases h
    · exact h
  refine ⟨fun t' c' i hc' hi => ?_, fun t1 t2 c1 c2 i h1 h2 hi1 hi2 => ?_⟩
  · obtain ⟨hne, h0⟩ := hback t' c' hc'
    obtain ⟨hin, hlock, hpolled⟩ := hl.lock t' c' i h0 hi
    have hci : c.evq ≠ some i := fun h => hne (hl.alone t' t c' c i h0 hc hi h)
    rw [leave_lock hci, leave_keeps (g := Evq.polled) (fun _ => rfl)]
    exact ⟨hin, hlock, hpolled⟩
  · exact hl.alone t1 t2 c1 c2 i (hback t1 c1 h1).2 (hback t2 c2 h2).2 hi1 hi2

/-- A queue is stopped or started. -/
theorem Held.onEvq (hl : s.Held cfg) {i : ℕ} {f : Evq → Evq} (hlock : (f (s.evqs i)).seLock = (s.evqs i).seLock)
    (hok : (s.evqs i).seLock = false ∨ (f (s.evqs i)).polled = true) : (s.onEvq i f).Held cfg := by
  refine ⟨fun t c j hc hj => ?_, hl.alone⟩
  obtain ⟨hin, hl1, hp1⟩ := hl.lock t c j hc hj
  rw [onEvq_keeps (g := Evq.seLock) hlock]
  refine ⟨hin, hl1, ?_⟩
  by_cases hji : j = i
  · subst hji
    rw [onEvq_self]
    rcases hok with h | h
    · rw [hl1] at h
      cases h
    · exact h
  · rw [onEvq_of_ne hji]
    exact hp1

theorem Halted.congr (hh : s.Halted cfg) (htask : s'.task = s.task)
    (hpolled : ∀ i, (s'.evqs i).polled = (s.evqs i).polled) : s'.Halted cfg := by
  intro m hm i hmi hin
  rw [hpolled]
  exact hh m (htask ▸ hm) i hmi hin

theorem Halted.of_ne (h : ∀ m, s.task ≠ .stop m) : s.Halted cfg := fun m hm => absurd hm (h m)

/-- **Step lemma.** -/
theorem locks_step {o : Op} (hl : s.Held cfg) (hh : s.Halted cfg) (h : step cfg o s = some s') :
    s'.Held cfg ∧ s'.Halted cfg := by
  cases o with
  | call t sleep hwErr =>
    obtain ⟨-, h⟩ := Option.ite_none_right_eq_some.mp h
    cases h
    exact ⟨hl.enter t sleep hwErr, hh⟩
  | evRx t i =>
    obtain ⟨⟨hhand, -⟩, h⟩ := Option.ite_none_right_eq_some.mp h
    cases h
    exact ⟨hl.enterEvq true SFXGE_HW_ERR hhand, hh.congr rfl (onEvq_keeps (g := Evq.polled) rfl)⟩
  | evException t i sensor =>
    obtain ⟨hhand, h⟩ := Option.ite_none_right_eq_some.mp h
    split_ifs at h <;> cases h
    · refine ⟨hl.onEvq hhand.2.2.1.symm (Or.inl hhand.2.2.1), hh.congr rfl (onEvq_keeps (g := Evq.polled) rfl)⟩
    · exact ⟨hl.enterEvq true SFXGE_HW_ERR hhand, hh.congr rfl (onEvq_keeps (g := Evq.polled) rfl)⟩
  | go t ok =>
    obtain ⟨c, hc, h⟩ := went h
    have hkeep : ∀ s : Sys, ∀ i, ((s.leave t c).evqs i).polled = (s.evqs i).polled :=
      fun s => leave_keeps (g := Evq.polled) (fun _ => rfl) t c
    cases h with
    | mark => exact ⟨⟨(hl.advance hc .count).lock, (hl.advance hc .count).alone⟩, hh⟩
    | merge =>
      have hl1 : ({ s with
          sNestedRestarts := s.sNestedRestarts + 1
          made := s.made + 1 } : Sys).Held cfg := ⟨hl.lock, hl.alone⟩
      exact ⟨hl1.leave hc, hh.congr (leave_frame ..).1 (hkeep _)⟩
    | first => exact ⟨⟨(hl.advance hc .dispatch).lock, (hl.advance hc .dispatch).alone⟩, hh⟩
    | dispatch =>
      exact ⟨⟨(hl.leave hc).lock, (hl.leave hc).alone⟩, hh.congr (leave_frame ..).1 (hkeep _)⟩
    | drop => exact ⟨hl.leave hc, hh.congr (leave_frame ..).1 (hkeep _)⟩
  | take =>
    obtain ⟨-, h⟩ := Option.ite_none_right_eq_some.mp h
    cases h
    exact ⟨⟨hl.lock, hl.alone⟩, .of_ne nofun⟩
  | run ok =>
    have hheld : ∀ {i : ℕ} {f : Evq → Evq} (task : Task), (f (s.evqs i)).seLock = (s.evqs i).seLock →
        ((s.evqs i).seLock = false ∨ (f (s.evqs i)).polled = true) →
        ({ s.onEvq i f with task := task } : Sys).Held cfg :=
      fun _ h1 h2 => ⟨(hl.onEvq h1 h2).lock, (hl.onEvq h1 h2).alone⟩
    cases ran h with
    | check =>
      refine ⟨⟨hl.lock, hl.alone⟩, fun m hm i hmi hin => ?_⟩
      cases hm
      exact absurd hin (Nat.not_lt.mpr hmi)
    | stopEvq n htask hfree =>
      refine ⟨hheld _ rfl (Or.inl hfree), fun m hm i hmi hin => ?_⟩
      cases hm
      change ((s.onEvq n _).evqs i).polled = _
      rcases Nat.eq_or_lt_of_le hmi with rfl | hlt
      · rw [onEvq_self]
        rfl
      · rw [onEvq_of_ne (Nat.ne_of_gt hlt)]
        exact hh (n + 1) htask i hlt hin
    | startEvq i => exact ⟨hheld _ rfl (Or.inr rfl), .of_ne nofun⟩
    | started i => exact ⟨hheld _ rfl (Or.inr rfl), .of_ne nofun⟩
    | timeout i htask hfree => exact ⟨hheld _ rfl (Or.inl hfree), .of_ne nofun⟩
    | undoEvq n htask hfree => exact ⟨hheld _ rfl (Or.inl hfree), .of_ne nofun⟩
    | start task htask hst hcase =>
      refine ⟨⟨hl.lock, hl.alone⟩, .of_ne fun m hm => ?_⟩
      rcases hcase with rfl | rfl <;> cases hm
    | _ => exact ⟨⟨hl.lock, hl.alone⟩, .of_ne nofun⟩

/-! ### Adapters that are up -/

/-- The adapter is up, or is being restarted. -/
def Alive (s : Sys) : Prop :=
  match s.task with
  | .idle | .check | .swap | .exit => s.sState = SFXGE_STARTED
  | .stop _ => s.sState = SFXGE_STOPPING
  | .judge | .start => s.sState = SFXGE_REGISTERED
  | .startEvq _ | .waitEvq _ | .finish => s.sState = SFXGE_STARTING
  | .undo _ => False

/-- The adapter is left down. -/
def Dead (s : Sys) : Prop :=
  match s.task with
  | .idle | .check | .swap | .exit => s.sState = SFXGE_REGISTERED
  | .undo _ => s.sState = SFXGE_STARTING
  | _ => False

/-! ### Requests -/

/-- A call has marked the error and is to be counted. -/
def Counting (s : Sys) : Prop := ∃ t c, s.calls t = some c ∧ c.stage = .count

/-- A handler of queue `i` is to have its request counted. -/
def Handling (i : ℕ) (s : Sys) : Prop := ∃ t c, s.calls t = some c ∧ c.evq = some i ∧ c.stage ≠ .dispatch

/-- A restart that has queue `i` still to stop. -/
def DueFor (i : ℕ) (s : Sys) : Prop := s.Queued ∨ s.task = .check ∨ ∃ n, s.task = .stop n ∧ i < n

/-- The stop phase has finished, and the start has not. -/
def Starting (s : Sys) : Prop :=
  match s.task with
  | .judge | .start | .startEvq _ | .waitEvq _ | .finish => True
  | _ => False

/-- What there is to restart for has a restart to come. -/
structure Good (cfg : Config) (s : Sys) : Prop where
  hwErr : s.sHwErr ≠ SFXGE_HW_OK → s.Counting ∨ s.Due ∨ s.task = .judge
  exception : ∀ i < cfg.nalloc, (s.evqs i).seException = true → s.Handling i ∨ s.DueFor i
  nested : s.sNestedRestarts ≠ 0 → s.Due ∨ s.Stopped
  stopped_le : s.stopped ≤ s.made
  served_le : s.served ≤ s.stopped
  made : s.served < s.made → s.Due ∨ s.Starting ∧ s.stopped = s.made

/-- The invariant of runs whose requests are heeded. -/
structure Inv (cfg : Config) (s : Sys) : Prop where
  held : s.Held cfg
  halted : s.Halted cfg
  up : s.Dead ∨ s.Alive ∧ s.Good cfg

theorem inv_init : init.Inv cfg where
  held := ⟨nofun, nofun⟩
  halted := .of_ne nofun
  up := Or.inr ⟨rfl, fun h => absurd rfl h, nofun, fun h => absurd rfl h, Nat.le_refl _, Nat.le_refl _, nofun⟩

/-- A queue that is being polled is still to be stopped. -/
theorem Due.dueFor (hd : s.Due) (hh : s.Halted cfg) {i : ℕ} (hi : i < cfg.nalloc)
    (hp : (s.evqs i).polled = true) : s.DueFor i := by
  rcases hd with h | h | ⟨n, h⟩
  · exact Or.inl h
  · exact Or.inr (Or.inl h)
  · refine Or.inr (Or.inr ⟨n, h, Nat.not_le.mp fun hni => ?_⟩)
    rw [hh n h i hni hi] at hp
    cases hp

theorem Due.imp (hd : s.Due) (hq : s.Queued → s'.Queued) (htask : s'.task = s.task) : s'.Due := by
  rw [Due, htask]
  exact hd.imp_left hq

theorem DueFor.imp {i : ℕ} (hd : s.DueFor i) (hq : s.Queued → s'.Queued) (htask : s'.task = s.task) :
    s'.DueFor i := by
  rw [DueFor, htask]
  exact hd.imp_left hq

theorem stopped_congr (htask : s'.task = s.task) : s'.Stopped ↔ s.Stopped := by rw [Stopped, Stopped, htask]

theorem starting_congr (htask : s'.task = s.task) : s'.Starting ↔ s.Starting := by
  rw [Starting, Starting, htask]

/-- The calls of other threads stay where they are. -/
theorem exists_update {P : Call → Prop} {f : ℕ → Option Call} {t : ℕ} {x : Option Call}
    (h : ∃ t' c, f t' = some c ∧ P c) (hx : ∀ c, f t = some c → P c → ∃ d, x = some d ∧ P d) :
    ∃ t' c, Function.update f t x t' = some c ∧ P c := by
  obtain ⟨t', c, hc, hP⟩ := h
  by_cases ht : t' = t
  · subst ht
    obtain ⟨d, hd, hPd⟩ := hx c hc hP
    exact ⟨t', d, by rw [Function.update_self, hd], hPd⟩
  · exact ⟨t', c, by rw [Function.update_of_ne ht, hc], hP⟩

theorem exists_update_none {P : Call → Prop} {f : ℕ → Option Call} {t : ℕ} {x : Option Call}
    (h : ∃ t' c, f t' = some c ∧ P c) (hx : f t = none) : ∃ t' c, Function.update f t x t' = some c ∧ P c :=
  exists_update h fun c hc => by
    rw [hx] at hc
    cases hc

/-! ### Calls -/

/-- A new call takes nothing away. -/
theorem Good.enter (hg : s.Good cfg) {t : ℕ} (ht : s.calls t = none) (sleep : Bool) (hwErr : HwErr)
    (evq : Option ℕ) : (s.enter t sleep hwErr evq).Good cfg := by
  have hq : s.Queued → (s.enter t sleep hwErr evq).Queued := fun h =>
    h.imp_left fun h => exists_update_none h ht
  refine ⟨fun h => ?_, fun i hi he => ?_, fun h => ?_, hg.stopped_le, hg.served_le, fun h => ?_⟩
  · exact (hg.hwErr h).imp (fun h => exists_update_none h ht) (Or.imp_left fun h => h.imp hq rfl)
  · exact (hg.exception i hi he).imp (fun h => exists_update_none h ht) fun h => h.imp hq rfl
  · exact (hg.nested h).imp_left fun h => h.imp hq rfl
  · exact (hg.made h).imp_left fun h => h.imp hq rfl

/-- A handler that flags its queue is counted with it. -/
theorem Good.enterEvq (hg : s.Good cfg) {t i : ℕ} (ht : s.calls t = none) :
    ((s.onEvq i (Evq.except true)).enter t true SFXGE_HW_ERR (some i)).Good cfg := by
  have hold := hg.enter ht true SFXGE_HW_ERR (some i)
  refine ⟨hold.hwErr, fun j hj he => ?_, hold.nested, hg.stopped_le, hg.served_le, hold.made⟩
  by_cases hji : j = i
  · subst hji
    exact Or.inl ⟨t, _, Function.update_self .., rfl, nofun⟩
  · refine hold.exception j hj ?_
    rw [← he]
    exact congrArg Evq.seException (onEvq_of_ne hji _ s).symm

theorem Good.mark (hg : s.Good cfg) {t : ℕ} {c : Call} (hc : s.calls t = some c) (hstage : c.stage = .mark)
    (hwErr : HwErr) : ({ s.advance t c .count with sHwErr := hwErr } : Sys).Good cfg := by
  have hq : s.Queued → ({ s.advance t c .count with sHwErr := hwErr } : Sys).Queued := fun h => by
    refine h.imp_left fun h => exists_update h fun c' hc' hs => ?_
    cases hc.symm.trans hc'
    rw [hstage] at hs
    cases hs
  refine ⟨fun _ => Or.inl ⟨t, _, Function.update_self .., rfl⟩, fun i hi he => ?_, fun h => ?_, hg.stopped_le,
    hg.served_le, fun h => ?_⟩
  · refine (hg.exception i hi he).imp (fun h => exists_update h fun c' hc' hs => ?_) fun h => h.imp hq rfl
    cases hc.symm.trans hc'
    exact ⟨_, rfl, hs.1, nofun⟩
  · exact (hg.nested h).imp_left fun h => h.imp hq rfl
  · exact (hg.made h).imp_left fun h => h.imp hq rfl

/-- The first request has a restart queued. -/
theorem Good.first (hg : s.Good cfg) {t : ℕ} {c : Call} :
    ({ s with
      sNestedRestarts := s.sNestedRestarts + 1
      made := s.made + 1 }.advance t c .dispatch).Good cfg := by
  have hq : ({ s with
      sNestedRestarts := s.sNestedRestarts + 1
      made := s.made + 1 }.advance t c .dispatch).Queued := Or.inl ⟨t, _, Function.update_self .., rfl⟩
  exact ⟨fun _ => Or.inr (Or.inl (Or.inl hq)), fun _ _ _ => Or.inr (Or.inl hq), fun _ => Or.inl (Or.inl hq),
    Nat.le_succ_of_le hg.stopped_le, hg.served_le, fun _ => Or.inl (Or.inl hq)⟩

/-- A call that is through leaves what else is queued. -/
theorem Queued.leave (h : s.Queued) {t : ℕ} {c : Call} (hc : s.calls t = some c) (hstage : c.stage ≠ .dispatch) :
    (s.leave t c).Queued := by
  unfold Queued
  rw [leave_calls, (leave_frame t c s).2.2.2.2.1]
  refine h.imp_left fun h => exists_update h fun c' hc' hs => ?_
  cases hc.symm.trans hc'
  exact absurd hs hstage

/-- A request that is merged has a restart to come. -/
theorem Good.merge (hg : s.Good cfg) (hl : s.Held cfg) (hh : s.Halted cfg) {t : ℕ} {c : Call}
    (hc : s.calls t = some c) (hstage : c.stage = .count) (hdue : s.Due) :
    ({ s with
      sNestedRestarts := s.sNestedRestarts + 1
      made := s.made + 1 }.leave t c).Good cfg := by
  set s1 : Sys := { s with
    sNestedRestarts := s.sNestedRestarts + 1
    made := s.made + 1 } with hs1
  obtain ⟨htask, -, -, -, hqueued, hmade, hstopped, hserved⟩ := leave_frame t c s1
  have hne : c.stage ≠ .dispatch := by
    rw [hstage]
    exact nofun
  have hq : s.Queued → (s1.leave t c).Queued := fun h => Queued.leave (s := s1) h hc hne
  have hdue' : (s1.leave t c).Due := hdue.imp hq htask
  refine ⟨fun _ => Or.inr (Or.inl hdue'), fun i hi he => ?_, fun _ => Or.inl hdue', ?_, ?_,
    fun _ => Or.inl hdue'⟩
  · rw [leave_keeps (g := Evq.seException) (fun _ => rfl)] at he
    rcases hg.exception i hi he with ⟨t', c', hc', hci, hs⟩ | h
    · exact Or.inr ((hdue.dueFor hh hi (hl.lock t' c' i hc' hci).2.2).imp hq htask)
    · exact Or.inr (h.imp hq htask)
  · rw [hmade, hstopped]
    exact Nat.le_succ_of_le hg.stopped_le
  · rw [hstopped, hserved]
    exact hg.served_le

theorem Good.dispatch (hg : s.Good cfg) {t : ℕ} {c : Call} :
    ({ s.leave t c with queued := s.queued + 1 } : Sys).Good cfg := by
  have hq : ({ s.leave t c with queued := s.queued + 1 } : Sys).Queued := Or.inr (Nat.succ_pos _)
  refine ⟨fun _ => Or.inr (Or.inl (Or.inl hq)), fun _ _ _ => Or.inr (Or.inl hq), fun _ => Or.inl (Or.inl hq), ?_, ?_,
    fun _ => Or.inl (Or.inl hq)⟩
  all_goals obtain ⟨-, -, -, -, -, hmade, hstopped, hserved⟩ := leave_frame t c s
  · change (s.leave t c).stopped ≤ (s.leave t c).made
    rw [hmade, hstopped]
    exact hg.stopped_le
  · change (s.leave t c).served ≤ (s.leave t c).stopped
    rw [hstopped, hserved]
    exact hg.served_le

/-! ### The restart -/

/-- A restart that is left down stays down. -/
theorem Dead.ran (hd : s.Dead) (h : Ran cfg s s') : s'.Dead := by
  unfold Dead at hd
  cases h with
  | skip htask | exit htask | swap htask | undoEvq n htask =>
    rw [htask] at hd
    exact hd
  | undo => rfl
  | check htask hst =>
    rw [htask] at hd
    cases hst.symm.trans hd
  | fail n htask =>
    rcases htask with htask | htask <;> rw [htask] at hd <;> cases hd
  | stopEvq n htask | stop htask | leaveDead htask | judge htask | refuse htask | start _ htask | startEvq i htask
  | started i htask | timeout i htask | evqs i htask | finish htask =>
    rw [htask] at hd
    cases hd

theorem Dead.not_started (hd : s.Dead) : s.sState ≠ SFXGE_STARTED := by
  intro hst
  unfold Dead at hd
  split at hd <;> first | cases hst.symm.trans hd | exact hd

/-- Past its stop phase, a restart leaves alone what is queued behind it. -/
theorem Good.late (hg : s.Good cfg) (hstop : ∀ n, s.task ≠ .stop n) (hcheck : s.task ≠ .check)
    (hcalls : s'.calls = s.calls) (hqueued : s'.queued = s.queued)
    (hexc : ∀ i, (s'.evqs i).seException = (s.evqs i).seException) (hmade : s'.made = s.made)
    (hstopped : s'.stopped = s.stopped)
    (herr : s'.sHwErr ≠ SFXGE_HW_OK → s.sHwErr ≠ SFXGE_HW_OK ∧ s.task ≠ .judge)
    (hnested : s'.sNestedRestarts ≠ 0 → s.Due ∨ s'.Stopped)
    (hserved : s'.served = s.stopped ∨ s'.served = s.served ∧ (s.Starting → s'.Starting)) : s'.Good cfg := by
  have hq : s.Queued → s'.Queued := by
    rw [Queued, Queued, hcalls, hqueued]
    exact id
  have hdue : s.Due → s'.Due := by
    rintro (h | h | ⟨n, h⟩)
    · exact Or.inl (hq h)
    · exact absurd h hcheck
    · exact absurd h (hstop n)
  refine ⟨fun h => ?_, fun i hi he => ?_, fun h => (hnested h).imp_left hdue, ?_, ?_, fun h => ?_⟩
  · obtain ⟨h1, h2⟩ := herr h
    rcases hg.hwErr h1 with hc | hd | hj
    · refine Or.inl ?_
      rw [Counting, hcalls]
      exact hc
    · exact Or.inr (Or.inl (hdue hd))
    · exact absurd hj h2
  · rw [hexc] at he
    rcases hg.exception i hi he with hh | hd | hd | ⟨n, hd, -⟩
    · refine Or.inl ?_
      rw [Handling, hcalls]
      exact hh
    · exact Or.inr (Or.inl (hq hd))
    · exact absurd hd hcheck
    · exact absurd hd (hstop n)
  · rw [hmade, hstopped]
    exact hg.stopped_le
  · rw [hstopped]
    rcases hserved with h | ⟨h, -⟩ <;> rw [h]
    exact hg.served_le
  · rw [hmade] at h ⊢
    rw [hstopped]
    rcases hserved with h1 | ⟨h1, h2⟩
    · rw [h1] at h
      have hle := hg.served_le
      rcases hg.made (by omega) with hd | ⟨-, heq⟩
      · exact Or.inl (hdue hd)
      · omega
    · rw [h1] at h
      exact (hg.made h).imp hdue fun ⟨hs, heq⟩ => ⟨h2 hs, heq⟩

/-- **Step lemma of the restart.** -/
theorem Good.ran (hg : s.Good cfg) (ha : s.Alive) (h : Ran cfg s s') :
    s'.Dead ∨ s'.Alive ∧ s'.Good cfg := by
  unfold Alive at ha
  cases h with
  | skip htask hst =>
    rw [htask] at ha
    exact absurd ha hst
  | check htask hst =>
    have hdue : ∀ s' : Sys, s'.task = .stop cfg.nalloc → s'.Due := fun s' h => Or.inr (Or.inr ⟨_, h⟩)
    exact Or.inr ⟨rfl, fun _ => Or.inr (Or.inl (hdue _ rfl)),
      fun i hi _ => Or.inr (Or.inr (Or.inr ⟨_, rfl, hi⟩)), fun _ => Or.inl (hdue _ rfl), hg.stopped_le,
      hg.served_le, fun _ => Or.inl (hdue _ rfl)⟩
  | stopEvq n htask hfree =>
    rw [htask] at ha
    have hdue : ∀ s' : Sys, s'.task = .stop n → s'.Due := fun s' h => Or.inr (Or.inr ⟨_, h⟩)
    refine Or.inr ⟨ha, fun _ => Or.inr (Or.inl (hdue _ rfl)), fun i hi he => ?_, fun _ => Or.inl (hdue _ rfl),
      hg.stopped_le, hg.served_le, fun _ => Or.inl (hdue _ rfl)⟩
    have hne : i ≠ n := by
      rintro rfl
      change ((s.onEvq i _).evqs i).seException = true at he
      rw [onEvq_self] at he
      cases he
    change ((s.onEvq n _).evqs i).seException = true at he
    rw [onEvq_of_ne hne] at he
    refine (hg.exception i hi he).imp id ?_
    rintro (h | h | ⟨m, hm, him⟩)
    · exact Or.inl h
    · rw [htask] at h
      cases h
    · rw [htask] at hm
      cases hm
      exact Or.inr (Or.inr ⟨n, rfl, by omega⟩)
  | stop htask =>
    refine Or.inr ⟨rfl, fun _ => Or.inr (Or.inr rfl), fun i hi he => ?_, fun _ => Or.inr trivial, Nat.le_refl _,
      Nat.le_trans hg.served_le hg.stopped_le, fun _ => Or.inr ⟨trivial, rfl⟩⟩
    refine (hg.exception i hi he).imp id ?_
    rintro (h | h | ⟨m, hm, him⟩)
    · exact Or.inl h
    · rw [htask] at h
      cases h
    · rw [htask] at hm
      cases hm
      exact absurd him (Nat.not_lt_zero i)
  | leaveDead htask =>
    rw [htask] at ha
    exact Or.inl ha
  | judge htask =>
    rw [htask] at ha
    refine Or.inr ⟨ha, hg.late ?_ ?_ rfl rfl (fun _ => rfl) rfl rfl (fun h => absurd rfl h) (fun _ => Or.inr trivial)
      (Or.inr ⟨rfl, fun _ => trivial⟩)⟩ <;> simp [htask]
  | refuse htask hst =>
    rw [htask] at ha
    exact absurd ha hst
  | start task htask hst hcase =>
    rcases hcase with rfl | rfl
    · refine Or.inr ⟨rfl, hg.late ?_ ?_ rfl rfl (fun _ => rfl) rfl rfl (fun h => ⟨h, ?_⟩) (fun _ => Or.inr trivial)
        (Or.inr ⟨rfl, fun _ => trivial⟩)⟩ <;> simp [htask]
    · exact Or.inl rfl
  | startEvq i htask hi =>
    rw [htask] at ha
    refine Or.inr ⟨ha, hg.late ?_ ?_ rfl rfl (onEvq_keeps (g := Evq.seException) rfl) rfl rfl
      (fun h => ⟨h, ?_⟩) (fun _ => Or.inr trivial) (Or.inr ⟨rfl, fun _ => trivial⟩)⟩ <;> simp [htask]
  | started i htask hfree =>
    rw [htask] at ha
    refine Or.inr ⟨ha, hg.late ?_ ?_ rfl rfl (onEvq_keeps (g := Evq.seException) rfl) rfl rfl
      (fun h => ⟨h, ?_⟩) (fun _ => Or.inr trivial) (Or.inr ⟨rfl, fun _ => trivial⟩)⟩ <;> simp [htask]
  | timeout i htask hfree =>
    rw [htask] at ha
    exact Or.inl ha
  | evqs i htask =>
    rw [htask] at ha
    refine Or.inr ⟨ha, hg.late ?_ ?_ rfl rfl (fun _ => rfl) rfl rfl (fun h => ⟨h, ?_⟩) (fun _ => Or.inr trivial)
      (Or.inr ⟨rfl, fun _ => trivial⟩)⟩ <;> simp [htask]
  | fail n htask =>
    left
    rcases htask with htask | htask <;> rw [htask] at ha <;> exact ha
  | finish htask =>
    refine Or.inr ⟨rfl, hg.late ?_ ?_ rfl rfl (fun _ => rfl) rfl rfl (fun h => ⟨h, ?_⟩) (fun _ => Or.inr trivial)
      (Or.inl rfl)⟩ <;> simp [htask]
  | undoEvq n htask | undo htask =>
    rw [htask] at ha
    exact ha.elim
  | swap htask =>
    rw [htask] at ha
    refine Or.inr ⟨ha, hg.late ?_ ?_ rfl rfl (fun _ => rfl) rfl rfl (fun h => ⟨h, ?_⟩) (fun h => absurd rfl h)
      (Or.inr ⟨rfl, fun h => ?_⟩)⟩
    · simp [htask]
    · simp [htask]
    · simp [htask]
    · rw [Starting, htask] at h
      exact h.elim
  | exit htask =>
    rw [htask] at ha
    refine Or.inr ⟨ha, hg.late ?_ ?_ rfl rfl (fun _ => rfl) rfl rfl (fun h => ⟨h, ?_⟩) (fun h => ?_)
      (Or.inr ⟨rfl, fun h => ?_⟩)⟩
    · simp [htask]
    · simp [htask]
    · simp [htask]
    · refine (hg.nested h).imp_right fun hs => ?_
      rw [Stopped, htask] at hs
      exact hs.elim
    · rw [Starting, htask] at h
      exact h.elim

/-! ### Runs -/

theorem up_congr (hup : s.Dead ∨ s.Alive ∧ s.Good cfg) (htask : s'.task = s.task)
    (hst : s'.sState = s.sState) (hg : s.Good cfg → s'.Good cfg) : s'.Dead ∨ s'.Alive ∧ s'.Good cfg := by
  unfold Dead Alive at hup ⊢
  rw [htask, hst]
  exact hup.imp id fun ⟨ha, h⟩ => ⟨ha, hg h⟩

/-- **Step lemma.**  Steps whose requests are heeded lose none. -/
theorem Inv.step {o : Op} (hi : s.Inv cfg) (ho : Heeded o s) (h : step cfg o s = some s') : s'.Inv cfg := by
  obtain ⟨hheld, hhalted, hup⟩ := hi
  obtain ⟨hheld', hhalted'⟩ := locks_step hheld hhalted h
  refine ⟨hheld', hhalted', ?_⟩
  cases o with
  | call t sleep hwErr =>
    obtain ⟨ht, h⟩ := Option.ite_none_right_eq_some.mp h
    cases h
    exact hup.imp id fun ⟨ha, hg⟩ => ⟨ha, hg.enter ht sleep hwErr none⟩
  | evRx t i =>
    obtain ⟨⟨hh, -⟩, h⟩ := Option.ite_none_right_eq_some.mp h
    cases h
    exact hup.imp id fun ⟨ha, hg⟩ => ⟨ha, hg.enterEvq hh.2.2.2⟩
  | evException t i sensor =>
    obtain ⟨hh, h⟩ := Option.ite_none_right_eq_some.mp h
    cases ho
    cases h
    exact hup.imp id fun ⟨ha, hg⟩ => ⟨ha, hg.enterEvq hh.2.2.2⟩
  | go t ok =>
    obtain ⟨c, hc, h⟩ := went h
    simp only [Heeded, hc] at ho
    cases h with
    | mark hwErr hstage => exact hup.imp id fun ⟨ha, hg⟩ => ⟨ha, hg.mark hc hstage hwErr⟩
    | merge hstage hnv =>
      simp only [hstage] at ho
      obtain ⟨ht, hs, -⟩ := leave_frame t c { s with
        sNestedRestarts := s.sNestedRestarts + 1
        made := s.made + 1 }
      refine up_congr hup ht hs fun hg => ?_
      have hne : s.sNestedRestarts ≠ 0 := by
        intro h0
        rw [h0] at hnv
        exact absurd hnv (by decide)
      exact hg.merge hheld hhalted hc hstage ((hg.nested hne).resolve_right fun hs => ho ⟨hs, hnv⟩)
    | first => exact hup.imp id fun ⟨ha, hg⟩ => ⟨ha, hg.first⟩
    | dispatch =>
      obtain ⟨ht, hs, -⟩ := leave_frame t c s
      exact up_congr hup ht hs fun hg => hg.dispatch
    | drop hstage hno =>
      simp only [hstage] at ho
      exact absurd ho hno
  | take =>
    obtain ⟨⟨hidle, -⟩, h⟩ := Option.ite_none_right_eq_some.mp h
    cases h
    have hdue : ∀ s' : Sys, s'.task = .check → s'.Due := fun _ h => Or.inr (Or.inl h)
    unfold Dead Alive at hup
    rw [hidle] at hup
    exact hup.imp id fun ⟨ha, hg⟩ => ⟨ha, fun _ => Or.inr (Or.inl (hdue _ rfl)),
      fun _ _ _ => Or.inr (Or.inr (Or.inl rfl)), fun _ => Or.inl (hdue _ rfl), hg.stopped_le, hg.served_le,
      fun _ => Or.inl (hdue _ rfl)⟩
  | run ok => exact hup.elim (fun hd => Or.inl (hd.ran (ran h))) fun ⟨ha, hg⟩ => hg.ran ha (ran h)

/-- Between restarts there is none to come. -/
theorem Quiescent.not_due (hq : s.Quiescent) : ¬ s.Due := by
  obtain ⟨htask, hqueued, hcalls⟩ := hq
  rintro ((⟨t, c, hc, -⟩ | h) | h | ⟨n, h⟩)
  · rw [hcalls t] at hc
    cases hc
  · omega
  · rw [htask] at h
    cases h
  · rw [htask] at h
    cases h

/-- An adapter that is starting is not started. -/
theorem Alive.not_starting (ha : s.Alive) (hst : s.sState = SFXGE_STARTED) : ¬ s.Starting := by
  unfold Alive at ha
  rw [Starting]
  cases htask : s.task with
  | judge | start | startEvq | waitEvq | finish =>
    rw [htask] at ha
    cases hst.symm.trans ha
  | _ => exact id

theorem Inv.noneLost (hi : s.Inv cfg) : s.NoneLost cfg := by
  have hgood : s.sState = SFXGE_STARTED → s.Alive ∧ s.Good cfg := fun hst =>
    hi.up.resolve_left fun hd => hd.not_started hst
  have hserved : s.sState = SFXGE_STARTED → s.served < s.made → s.Due := by
    intro hst hlt
    obtain ⟨ha, hg⟩ := hgood hst
    exact (hg.made hlt).resolve_right fun h => ha.not_starting hst h.1
  refine ⟨hserved, fun hq hst => ?_, fun hq hst => ?_, fun hq hst i hin => ?_⟩
  · have hg := (hgood hst).2
    have hle := Nat.le_trans hg.served_le hg.stopped_le
    exact Nat.le_antisymm hle (Nat.not_lt.mp fun hlt => hq.not_due (hserved hst hlt))
  · refine Decidable.not_not.mp fun hne => ?_
    rcases (hgood hst).2.hwErr hne with ⟨t, c, hc, -⟩ | hd | hj
    · rw [hq.2.2 t] at hc
      cases hc
    · exact hq.not_due hd
    · rw [hq.1] at hj
      cases hj
  · refine Bool.eq_false_iff.mpr fun he => ?_
    rcases (hgood hst).2.exception i hin he with ⟨t, c, hc, -⟩ | h
    · rw [hq.2.2 t] at hc
      cases hc
    · refine hq.not_due (h.imp_right (Or.imp_right ?_))
      rintro ⟨n, hn, -⟩
      exact ⟨n, hn⟩

/-- **Restart requests.**  In every run whose requests are heeded, none is lost. -/
theorem restart_heeded (cfg : Config) (os : List Op) (s : Sys)
    (h : runOps (guarded (step cfg) Heeded) os init = some s) : s.NoneLost cfg := by
  refine (runOps_inv (Inv cfg) (fun o s s' hi hs => ?_) inv_init h).noneLost
  obtain ⟨ho, hs⟩ := guarded_inv hs
  exact hi.step ho hs

/-! ### A request during the start -/

/-- An adapter with one event queue. -/
def oneQueue : Config := ⟨1, SFXGE_RECOVER⟩

/-- Thread 0 asks for a restart, which stops the adapter and starts its event queue. -/
def restarting : List Op :=
  [.call 0 true SFXGE_HW_OK, .go 0 true, .go 0 true, .go 0 true, .take] ++ List.replicate 7 (.run true)

/-- Thread 1 handles an event that is out of order, and asks for a restart. -/
def outOfOrder : List Op := [.evRx 1 0, .go 1 true, .go 1 true]

/-- **A lost request.**  The event queue that has just been started gets an event out of order; the restart
that is running ends, and the adapter is left with an error and a queue that ignores its events. -/
theorem request_lost : ∃ s,
    runOps (step oneQueue) (restarting ++ outOfOrder ++ List.replicate 4 (.run true)) init = some s ∧
    s.Quiescent ∧ s.sState = SFXGE_STARTED ∧ s.sHwErr = SFXGE_HW_ERR ∧ (s.evqs 0).seException = true ∧
    s.served < s.made := by
  refine ⟨_, rfl, ⟨rfl, rfl, fun t => ?_⟩, rfl, rfl, rfl, by decide⟩
  rcases t with _ | _ | t <;> rfl

/-- The same event before the restart has stopped its queue. -/
theorem request_served : ∃ s,
    runOps (guarded (step oneQueue) Heeded)
      (restarting.take 6 ++ outOfOrder ++ List.replicate 10 (.run true)) init = some s ∧
    s.made = 2 ∧ s.Quiescent ∧ s.sState = SFXGE_STARTED ∧ s.NoneLost oneQueue := by
  obtain ⟨s, hs, hp⟩ : ∃ s, runOps (guarded (step oneQueue) Heeded)
      (restarting.take 6 ++ outOfOrder ++ List.replicate 10 (.run true)) init = some s ∧
      s.made = 2 ∧ s.Quiescent ∧ s.sState = SFXGE_STARTED := by
    refine ⟨_, rfl, rfl, ⟨rfl, rfl, fun t => ?_⟩, rfl⟩
    rcases t with _ | _ | t <;> rfl
  exact ⟨s, hs, hp.1, hp.2.1, hp.2.2, restart_heeded oneQueue _ s hs⟩

end Sys

end Sfxge.Nic
