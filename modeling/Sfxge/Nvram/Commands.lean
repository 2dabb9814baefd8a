import Sfxge.Lib.Run
import Sfxge.Efx

/-!
# Nvram.Commands — NVRAM commands that may fail

Every NVRAM command and every allocation may fail; `fails k` says how the `k`-th of them ends.  An update of
a partition is started by one command and finished by another, and `locks` is the history of both: a start
that succeeded, and a finish that was issued.  `underLock` is the pattern of the updates that unlock on all
of their exits.
-/

namespace Sfxge.Nvram

open Lib Lib.Prog

inductive Lock
  | start (partn : ℕ)
  | finish (partn : ℕ)
  deriving Repr, DecidableEq

/-- The driver's side of the NVRAM, with `content` for what the commands are about. -/
structure Host (σ : Type) where
  content : σ
  fails : ℕ → Option Errno
  count : ℕ
  locks : List Lock

abbrev Cmd (σ : Type) := Prog (Host σ) Errno

variable {σ α : Type}

/-- The next command or allocation has been made. -/
def Host.tick (h : Host σ) : Host σ := { h with count := h.count + 1 }

def Host.setContent (h : Host σ) (c : σ) : Host σ := { h with content := c }

def Host.log (h : Host σ) (l : Lock) : Host σ := { h with locks := h.locks ++ [l] }

/-- A command. -/
def command : Cmd σ Unit := fun h =>
  match h.fails h.count with
  | none => .ret () h.tick
  | some e => .err e h.tick

/-- `EFSYS_KMEM_ALLOC` -/
def kmemAlloc : Cmd σ Unit := orFail command Errno.ENOMEM

/-- What the driver knows, or what a command has done. -/
def content : Cmd σ σ := fun h => .ret h.content h

def setContent (f : σ → σ) : Cmd σ Unit := fun h => .ret () (h.setContent (f h.content))

def logLock (l : Lock) : Cmd σ Unit := fun h => .ret () (h.log l)

/-- `efx_mcdi_nvram_update_start` -/
def nvramUpdateStart (partn : ℕ) : Cmd σ Unit := do
  command
  logLock (.start partn)

/-- `efx_mcdi_nvram_update_finish`; that it fails is not looked at. -/
def nvramUpdateFinish (partn : ℕ) : Cmd σ Unit := do
  logLock (.finish partn)
  let _ ← attempt command
  pure ()

/-- An update that is finished whether or not its body succeeds. -/
def underLock (partn : ℕ) (body : Cmd σ α) : Cmd σ α := do
  nvramUpdateStart partn
  match ← attempt body with
  | .ok a =>
    nvramUpdateFinish partn
    pure a
  | .error e =>
    nvramUpdateFinish partn
    fail e

theorem command_of_ok {h : Host σ} (hf : h.fails h.count = none) : (command : Cmd σ Unit) h = .ret () h.tick := by
  rw [command, hf]

theorem command_of_fail {h : Host σ} {e : Errno} (hf : h.fails h.count = some e) :
    (command : Cmd σ Unit) h = .err e h.tick := by
  rw [command, hf]

@[simp] theorem content_apply (h : Host σ) : (content : Cmd σ σ) h = .ret h.content h := rfl

@[simp] theorem logLock_apply (l : Lock) (h : Host σ) : logLock l h = .ret () (h.log l) := rfl

/-! ### Balance -/

/-- However `p` ends: it has started no update and finished none, or it has started one and finished it
once. -/
def Balanced (partn : ℕ) (p : Cmd σ α) (h : Host σ) : Prop :=
  p.Does h fun h' => h'.locks = h.locks ∨ h'.locks = h.locks ++ [.start partn, .finish partn]

theorem frames_command : (command : Cmd σ Unit).Frames Host.locks := by
  intro h h' hr
  unfold command at hr
  cases hf : h.fails h.count with
  | none => rw [hf] at hr; cases hr; rfl
  | some e => rw [hf] at hr; cases hr; rfl

theorem frames_kmemAlloc : (kmemAlloc : Cmd σ Unit).Frames Host.locks := frames_orFail _ frames_command

theorem frames_content : (content : Cmd σ σ).Frames Host.locks := by
  intro h h' hr
  cases hr
  rfl

theorem frames_setContent (f : σ → σ) : (setContent f).Frames Host.locks := by
  intro h h' hr
  cases hr
  rfl

theorem balanced_of_frames {p : Cmd σ α} (hp : p.Frames Host.locks) (partn : ℕ) (h : Host σ) :
    Balanced partn p h := fun h' hr => Or.inl (hp h h' hr)

/-- What comes before an update leaves the locks alone. -/
theorem balanced_bind {β : Type} {p : Cmd σ α} {f : α → Cmd σ β} {partn : ℕ} {h : Host σ}
    (hp : p.Frames Host.locks) (hf : ∀ a h1, p h = .ret a h1 → Balanced partn (f a) h1) :
    Balanced partn (p >>= f) h := by
  refine does_bind (fun a h1 hr h' hr' => ?_) fun e h1 hr => Or.inl (hp h h1 (by rw [hr]; rfl))
  rw [← hp h h1 (by rw [hr]; rfl)]
  exact hf a h1 hr h' hr'

theorem nvramUpdateStart_cases (partn : ℕ) (h : Host σ) :
    (nvramUpdateStart partn h = .ret () (h.tick.log (.start partn)) ∧ h.fails h.count = none) ∨
      ∃ e, nvramUpdateStart partn h = .err e h.tick ∧ h.fails h.count = some e := by
  unfold nvramUpdateStart
  cases hf : h.fails h.count with
  | none => exact Or.inl ⟨by rw [bind_of_ret (command_of_ok hf)]; rfl, rfl⟩
  | some e => exact Or.inr ⟨e, bind_of_err (command_of_fail hf), rfl⟩

theorem nvramUpdateFinish_apply (partn : ℕ) (h : Host σ) :
    nvramUpdateFinish partn h = .ret () (h.log (.finish partn)).tick := by
  rw [nvramUpdateFinish, bind_of_ret (logLock_apply _ _)]
  cases hf : (h.log (.finish partn)).fails (h.log (.finish partn)).count with
  | none =>
    rw [bind_of_ret (attempt_of_ret (command_of_ok hf))]
    rfl
  | some e =>
    rw [bind_of_ret (attempt_of_err (command_of_fail hf))]
    rfl

/-- A finish is issued, and the call goes on. -/
theorem nvramUpdateFinish_ret (partn : ℕ) (h : Host σ) :
    ∃ h', nvramUpdateFinish partn h = .ret () h' ∧ h'.locks = h.locks ++ [.finish partn] :=
  ⟨_, nvramUpdateFinish_apply partn h, rfl⟩

/-- **Updates under the lock are balanced** when their body leaves the locks alone. -/
theorem balanced_underLock {partn : ℕ} {body : Cmd σ α} (hbody : body.Frames Host.locks) (h : Host σ) :
    Balanced partn (underLock partn body) h := by
  intro h' hr
  unfold underLock at hr
  rcases nvramUpdateStart_cases partn h with ⟨hs, -⟩ | ⟨e, hs, -⟩
  · rw [bind_of_ret hs] at hr
    cases hb : body (h.tick.log (.start partn)) with
    | ret a h1 =>
      have hlocks : h1.locks = h.locks ++ [.start partn] := hbody _ h1 (by rw [hb]; rfl)
      obtain ⟨h2, hfin, hlocks2⟩ := nvramUpdateFinish_ret partn h1
      rw [bind_of_ret (attempt_of_ret hb)] at hr
      dsimp only at hr
      rw [bind_of_ret hfin] at hr
      cases hr
      exact Or.inr (by rw [hlocks2, hlocks, List.append_assoc]; rfl)
    | err e h1 =>
      have hlocks : h1.locks = h.locks ++ [.start partn] := hbody _ h1 (by rw [hb]; rfl)
      obtain ⟨h2, hfin, hlocks2⟩ := nvramUpdateFinish_ret partn h1
      rw [bind_of_ret (attempt_of_err hb)] at hr
      dsimp only at hr
      rw [bind_of_ret hfin] at hr
      cases hr
      exact Or.inr (by rw [hlocks2, hlocks, List.append_assoc]; rfl)
    | fault =>
      rw [bind_of_fault (attempt_of_fault hb)] at hr
      cases hr
    | spin =>
      rw [bind_of_spin (by rw [attempt, hb])] at hr
      cases hr
  · rw [bind_of_err hs] at hr
    cases hr
    exact Or.inl rfl

/-! ### How many commands succeed -/

/-- The next `n` commands succeed. -/
def Host.Clear (h : Host σ) (n : ℕ) : Prop := ∀ k < n, h.fails (h.count + k) = none

instance (h : Host σ) (n : ℕ) : Decidable (h.Clear n) := inferInstanceAs (Decidable (∀ k < n, _))

theorem Host.clear_add {h h1 : Host σ} {n m : ℕ} (hf : h1.fails = h.fails) (hc : h1.count = h.count + n) :
    h.Clear (n + m) ↔ h.Clear n ∧ h1.Clear m := by
  constructor
  · intro hall
    refine ⟨fun k hk => hall k (by omega), fun k hk => ?_⟩
    rw [hf, hc, Nat.add_assoc]
    exact hall (n + k) (by omega)
  · rintro ⟨h1', h2⟩ k hk
    rcases lt_or_ge k n with hlt | hge
    · exact h1' k hlt
    · have := h2 (k - n) (by omega)
      rwa [hf, hc, Nat.add_assoc, Nat.add_sub_cancel' hge] at this

/-- `p` makes `n` commands: when they all succeed it returns `a` with the content `c`, otherwise it leaves. -/
structure Takes (p : Cmd σ α) (n : ℕ) (h : Host σ) (a : α) (c : σ) : Prop where
  ret : h.Clear n → ∃ h', p h = .ret a h' ∧ h'.count = h.count + n ∧ h'.fails = h.fails ∧ h'.content = c
  err : ¬ h.Clear n → ∃ e h', p h = .err e h'

/-- `p` leaves, whatever the commands do. -/
def Stops (p : Cmd σ α) (h : Host σ) : Prop := ∃ e h', p h = .err e h'

theorem takes_pure (a : α) (h : Host σ) : Takes (pure a : Cmd σ α) 0 h a h.content :=
  ⟨fun _ => ⟨h, rfl, rfl, rfl, rfl⟩, fun hc => absurd (fun k hk => absurd hk (Nat.not_lt_zero k)) hc⟩

theorem takes_setContent (f : σ → σ) (h : Host σ) : Takes (setContent f) 0 h () (f h.content) :=
  ⟨fun _ => ⟨h.setContent (f h.content), rfl, rfl, rfl, rfl⟩,
    fun hc => absurd (fun k hk => absurd hk (Nat.not_lt_zero k)) hc⟩

theorem clear_one {h : Host σ} : h.Clear 1 ↔ h.fails h.count = none := by
  refine ⟨fun hc => hc 0 Nat.one_pos, fun hf k hk => ?_⟩
  obtain rfl : k = 0 := by omega
  exact hf

theorem takes_command (h : Host σ) : Takes (command : Cmd σ Unit) 1 h () h.content := by
  refine ⟨fun hc => ⟨h.tick, command_of_ok (clear_one.mp hc), rfl, rfl, rfl⟩, fun hc => ?_⟩
  cases hf : h.fails h.count with
  | none => exact absurd (clear_one.mpr hf) hc
  | some e => exact ⟨e, h.tick, command_of_fail hf⟩

theorem takes_kmemAlloc (h : Host σ) : Takes (kmemAlloc : Cmd σ Unit) 1 h () h.content := by
  have hcmd := takes_command h
  refine ⟨fun hc => ?_, fun hc => ?_⟩
  · obtain ⟨h', hr, hrest⟩ := hcmd.ret hc
    exact ⟨h', orFail_of_ret _ hr, hrest⟩
  · obtain ⟨e, h', hr⟩ := hcmd.err hc
    exact ⟨_, h', orFail_of_err _ hr⟩

theorem takes_bind {β : Type} {p : Cmd σ α} {f : α → Cmd σ β} {n m : ℕ} {h : Host σ} {a : α} {b : β} {c d : σ}
    (hp : Takes p n h a c)
    (hf : ∀ h1 : Host σ, h1.count = h.count + n → h1.fails = h.fails → h1.content = c → Takes (f a) m h1 b d) :
    Takes (p >>= f) (n + m) h b d := by
  by_cases hn : h.Clear n
  · obtain ⟨h1, hr, hcount, hfails, hcontent⟩ := hp.ret hn
    have hrest := hf h1 hcount hfails hcontent
    have hclear := Host.clear_add (m := m) hfails hcount
    constructor
    · intro hall
      obtain ⟨h2, hr2, hcount2, hfails2, hcontent2⟩ := hrest.ret (hclear.mp hall).2
      exact ⟨h2, by rw [bind_of_ret hr, hr2], by omega, hfails2.trans hfails, hcontent2⟩
    · intro hnot
      obtain ⟨e, h2, hr2⟩ := hrest.err fun hm => hnot (hclear.mpr ⟨hn, hm⟩)
      exact ⟨e, h2, by rw [bind_of_ret hr, hr2]⟩
  · obtain ⟨e, h1, hr⟩ := hp.err hn
    exact ⟨fun hall => absurd (fun k hk => hall k (by omega)) hn, fun _ => ⟨e, h1, bind_of_err hr⟩⟩

theorem takes_content_bind {f : σ → Cmd σ α} {n : ℕ} {h : Host σ} {a : α} {d : σ} (hf : Takes (f h.content) n h a d) :
    Takes (content >>= f) n h a d :=
  ⟨fun hn => by rw [bind_of_ret (content_apply h)]; exact hf.ret hn,
    fun hn => by rw [bind_of_ret (content_apply h)]; exact hf.err hn⟩

theorem takes_ensure_bind {c : Prop} [Decidable c] {e : Errno} {f : Unit → Cmd σ α} {n : ℕ} {h : Host σ} {a : α}
    {d : σ} (hc : c) (hf : Takes (f ()) n h a d) : Takes (ensure c e >>= f) n h a d :=
  ⟨fun hn => by rw [bind_of_ret (ensure_pos hc)]; exact hf.ret hn,
    fun hn => by rw [bind_of_ret (ensure_pos hc)]; exact hf.err hn⟩

theorem stops_ensure_bind {c : Prop} [Decidable c] {e : Errno} {f : Unit → Cmd σ α} {h : Host σ} (hc : ¬ c) :
    Stops (ensure c e >>= f) h := ⟨e, h, bind_of_err (ensure_neg hc)⟩

theorem stops_bind {β : Type} {p : Cmd σ α} {f : α → Cmd σ β} {n : ℕ} {h : Host σ} {a : α} {c : σ}
    (hp : Takes p n h a c) (hf : ∀ h1 : Host σ, h1.content = c → Stops (f a) h1) : Stops (p >>= f) h := by
  by_cases hn : h.Clear n
  · obtain ⟨h1, hr, -, -, hcontent⟩ := hp.ret hn
    obtain ⟨e, h2, hr2⟩ := hf h1 hcontent
    exact ⟨e, h2, by rw [bind_of_ret hr, hr2]⟩
  · obtain ⟨e, h1, hr⟩ := hp.err hn
    exact ⟨e, h1, bind_of_err hr⟩

/-- A loop of single commands. -/
theorem takes_forEach {β : Type} {f : β → Cmd σ Unit} {g : β → σ → σ}
    (hf : ∀ b h, Takes (f b) 1 h () (g b h.content)) (bs : List β) (h : Host σ) :
    Takes (forEach f bs) bs.length h () (bs.foldl (fun c b => g b c) h.content) := by
  induction bs generalizing h with
  | nil => exact takes_pure () h
  | cons b bs ih =>
    rw [List.length_cons, Nat.add_comm]
    refine takes_bind (hf b h) fun h1 _ _ hcontent => ?_
    have := ih h1
    rwa [hcontent] at this

end Sfxge.Nvram
