import Sfxge.Lib.Run
import Sfxge.Oword
import Sfxge.Intr.Queues

/-!
# Intr.SelfTest — the interrupt test, over runs

`sfxge_intr_start` and `sfxge_intr_stop` step by step, with any number of handlers in between: a handler reads
`si_state` and `si_mask` and swaps the mask, each in a step of its own.  The test waits until `si_mask` has the bits of
all the vectors; `1 << index` is an `int`, so that the bit of vector 31 is extended over the upper half, and a vector
from 32 on has none of its own.
-/

namespace Sfxge.Intr

open Lib

abbrev U64 := BitVec 64

/-! ### The system -/

/-- What `1 << index` gives as an `int`; C leaves it undefined for an index of 32 and more. -/
structure IntShl where
  run : ℕ → U32
  low : ∀ index < 32, run index = (1 : U32) <<< index

/-- A machine that takes the count modulo 32. -/
def IntShl.modulo : IntShl where
  run index := (1 : U32) <<< (index % 32)
  low index h := by rw [Nat.mod_eq_of_lt h]

/-- The operand of `mask |= (1 << index)`, for a mask of 64 bits -/
def IntShl.bit (shl : IntShl) (index : ℕ) : U64 := (shl.run index).signExtend 64

/-- What the interrupts are started with. -/
structure Config where
  siType : IntrType
  siNalloc : ℕ
  /-- `s_family == EFX_FAMILY_HUNTINGTON` -/
  huntington : Bool
  shl : IntShl

/-- How far a handler has come: before it compares `si_state` with `SFXGE_INTR_STARTED`, with `SFXGE_INTR_TESTING`, and
with that again; before it reads `si_mask`, and before it stores the mask read with its bit. -/
inductive HandlerPc
  | cmpStarted
  | cmpTesting
  | inTest
  | load
  | update (mask : U64)
  deriving DecidableEq

/-- A handler that runs, and whether its vector had been triggered by the test when it was entered. -/
structure Handler where
  index : ℕ
  pc : HandlerPc
  since : Bool
  deriving DecidableEq

/-- How far `sfxge_intr_start` or `sfxge_intr_stop` has come, in the order of its steps. -/
inductive Ctl
  | down
  | busEnabled
  | nicInit
  | trigger (index : ℕ) (mask : U64)
  | wait (count : ℕ) (mask : U64)
  | clear
  | returned (rc : Option Errno)
  | busDisabled
  | up
  | stopping
  | stopBus
  deriving DecidableEq

/-- The interrupts, the handlers that run, and the vectors whose handler, entered since the vector was triggered, has
stored its bit in `SFXGE_INTR_TESTING`. -/
structure Sys where
  siState : IntrState
  siMask : U64
  ctl : Ctl
  handlers : List Handler
  ran : List ℕ
  deriving DecidableEq

def Sys.initial : Sys := ⟨.initialized, 0, .down, [], []⟩

/-- The vector has been triggered by the test that goes on. -/
def Ctl.triggered (index : ℕ) : Ctl → Bool
  | .trigger i _ => index < i
  | .wait _ _ => true
  | _ => false

/-- The test goes on. -/
def Ctl.testing : Ctl → Bool
  | .trigger _ _ | .wait _ _ => true
  | _ => false

/-- The handlers are added. -/
def Ctl.busOn : Ctl → Bool
  | .down | .busDisabled => false
  | _ => true

namespace Sys

variable (s : Sys)

def goto (ctl : Ctl) : Sys := { s with ctl }

/-- The test begins: whatever handler runs was entered before. -/
def beginTest : Sys :=
  { s with
    ctl := .trigger 0 0
    handlers := s.handlers.map fun h => { h with since := false }
    ran := [] }

/-- The handler at `k` goes on to `pc`. -/
def handlerGoto (k : ℕ) (h : Handler) (pc : HandlerPc) : Sys := { s with handlers := s.handlers.set k { h with pc } }

/-- The handler at `k` returns. -/
def handlerDone (k : ℕ) : Sys := { s with handlers := s.handlers.eraseIdx k }

/-- The handler stores the mask. -/
def store (h : Handler) (mask : U64) : Sys :=
  { s with siMask := mask, ran := if h.since then h.index :: s.ran else s.ran }

end Sys

/-- The next step of `sfxge_intr_start` or of `sfxge_intr_stop`; `rc` is how the call ends that can fail there.  Before
the test and after it there is nothing else of `sfxge_intr_nic_enable` that the handlers go by. -/
def thread (c : Config) (rc : Option Errno) (s : Sys) : Sys :=
  match s.ctl with
  | .down =>
    -- sfxge_intr_bus_enable
    match c.siType, rc with
    | .invalid, _ => s
    | _, some _ => s
    | _, none => s.goto .busEnabled
  | .busEnabled => { s with siState := .testing, ctl := .nicInit }
  | .nicInit =>
    -- efx_intr_init
    match rc with
    | some e => s.goto (.returned (some e))
    | none => if c.huntington then s.goto (.returned none) else s.beginTest
  | .trigger index mask =>
    if index < c.siNalloc then s.goto (.trigger (index + 1) (mask ||| c.shl.bit index)) else s.goto (.wait 0 mask)
  | .wait count mask =>
    if mask &&& s.siMask = mask then s.goto (.returned none)
    else if count + 1 < 20 then s.goto (.wait (count + 1) mask) else s.goto .clear
  | .clear => { s with siMask := 0, ctl := .returned (some .ETIMEDOUT) }
  | .returned none => { s with siState := .started, ctl := .up }
  | .returned (some _) => s.goto .busDisabled
  | .busDisabled => { s with siState := .initialized, ctl := .down }
  | .up => { s with siState := .initialized, ctl := .stopping }
  | .stopping => { s with siMask := 0, ctl := .stopBus }
  | .stopBus => s.goto .down

/-- The next step of the handler `h` at `k`: `sfxge_intr_message`, and `sfxge_intr_line` where the type is that -/
def handler (c : Config) (k : ℕ) (h : Handler) (s : Sys) : Sys :=
  match h.pc with
  | .cmpStarted => s.handlerGoto k h (if s.siState = .started then .inTest else .cmpTesting)
  | .cmpTesting => if s.siState = .testing then s.handlerGoto k h .inTest else s.handlerDone k
  -- not in the test the event queue is polled
  | .inTest => if s.siState = .testing then s.handlerGoto k h .load else s.handlerDone k
  | .load => s.handlerGoto k h (.update s.siMask)
  | .update mask =>
    if c.siType = .line then (s.store h (mask ||| 1)).handlerDone k
    -- atomic_cas_64
    else if s.siMask = mask then (s.store h (mask ||| c.shl.bit h.index)).handlerDone k
    else s.handlerGoto k h .load

/-- What can happen: the thread goes on, a vector interrupts, the `k`-th handler goes on. -/
inductive Op
  | thread (rc : Option Errno)
  | interrupt (index : ℕ)
  | handler (k : ℕ)

def step (c : Config) : Op → Sys → Option Sys
  | .thread rc, s => some (thread c rc s)
  | .interrupt index, s =>
    if s.ctl.busOn = true ∧ index < c.siNalloc then
      some { s with handlers := ⟨index, .cmpStarted, s.ctl.triggered index⟩ :: s.handlers }
    else none
  | .handler k, s => s.handlers[k]?.map fun h => handler c k h s

/-- Where the test runs, `sfxge_intr_nic_enable` has returned 0 only if the handler of every vector has run. -/
def Tested (c : Config) (s : Sys) : Prop :=
  c.huntington = false → s.ctl = .returned none → ∀ index < c.siNalloc, index ∈ s.ran

/-- No step goes by what is left of an earlier test: the test begins with a mask of zero, and while it goes on, a
handler stores its bit only if it was entered since its vector was triggered. -/
def Clean (c : Config) (o : Op) (s : Sys) : Prop :=
  match o with
  | .thread none => s.ctl = .nicInit → s.siMask = 0
  | .handler k => s.ctl.testing = true → ∀ h ∈ s.handlers[k]?, ∀ mask, h.pc = .update mask →
    c.siType = .line ∨ s.siMask = mask → h.since = true
  | _ => True

/-! ### The bits -/

variable {c : Config} {s s' : Sys} {k n : ℕ} {h : Handler} {mask : U64} {ran ran' : List ℕ}

/-- Below 32 a vector's bit tells it from the others, for all that the bit of vector 31 is extended. -/
theorem getLsbD_bit (shl : IntShl) {i j : ℕ} (hi : i < 32) (hj : j < 32) :
    (shl.bit i).getLsbD j = true ↔ i = j := by
  have htwo : (1 : U32) <<< i = BitVec.twoPow 32 i := (BitVec.twoPow_eq 32 i).symm
  rw [IntShl.bit, BitVec.getLsbD_signExtend, shl.low i hi, if_pos hj, htwo, BitVec.getLsbD_twoPow]
  simp only [Bool.and_eq_true, decide_eq_true_eq]
  omega

theorem bit_zero (shl : IntShl) : shl.bit 0 = 1 := by
  rw [IntShl.bit, shl.low 0 (by decide)]
  rfl

/-- Every bit of the mask is that of a vector whose handler has run. -/
def Covered (c : Config) (ran : List ℕ) (mask : U64) : Prop :=
  ∀ b, mask.getLsbD b = true → ∃ index ∈ ran, (c.shl.bit index).getLsbD b = true

/-- The mask has the bits of the first `n` vectors. -/
def Needs (c : Config) (n : ℕ) (mask : U64) : Prop :=
  ∀ index < n, ∀ b, (c.shl.bit index).getLsbD b = true → mask.getLsbD b = true

theorem covered_zero (c : Config) (ran : List ℕ) : Covered c ran 0 := fun b hb => by
  have hzero : (0 : U64).getLsbD b = false := BitVec.getLsbD_zero
  rw [hzero] at hb
  cases hb

theorem Covered.mono (hm : Covered c ran mask) (hsub : ran ⊆ ran') : Covered c ran' mask := fun b hb => by
  obtain ⟨index, hran, hbit⟩ := hm b hb
  exact ⟨index, hsub hran, hbit⟩

theorem Covered.or_bit (hm : Covered c ran mask) {index : ℕ} (hran : index ∈ ran) :
    Covered c ran (mask ||| c.shl.bit index) := fun b hb => by
  rw [BitVec.getLsbD_or, Bool.or_eq_true] at hb
  exact hb.elim (hm b) fun hbit => ⟨index, hran, hbit⟩

theorem Needs.or_bit (hm : Needs c n mask) : Needs c (n + 1) (mask ||| c.shl.bit n) := fun index hindex b hb => by
  rw [BitVec.getLsbD_or, Bool.or_eq_true]
  rcases Nat.lt_succ_iff_lt_or_eq.mp hindex with hlt | rfl
  · exact Or.inl (hm index hlt b hb)
  · exact Or.inr hb

/-- **The test** that finds the bits of all the vectors has seen a handler of each, if there are at most 32. -/
theorem ran_of_mask (hn : c.siNalloc ≤ 32) (hneeds : Needs c c.siNalloc mask) (hran : ∀ i ∈ ran, i < c.siNalloc)
    {got : U64} (hgot : Covered c ran got) (hall : mask &&& got = mask) {index : ℕ} (hindex : index < c.siNalloc) :
    index ∈ ran := by
  have hmask := hneeds index hindex index ((getLsbD_bit c.shl (by omega) (by omega)).mpr rfl)
  rw [← hall, BitVec.getLsbD_and, Bool.and_eq_true] at hmask
  obtain ⟨i, hi, hbit⟩ := hgot index hmask.2
  have hlt := hran i hi
  rwa [(getLsbD_bit c.shl (by omega) (by omega)).mp hbit] at hi

/-! ### The invariant -/

structure Sys.Inv (c : Config) (s : Sys) : Prop where
  index : ∀ h ∈ s.handlers, h.index < c.siNalloc
  ran : ∀ i ∈ s.ran, i < c.siNalloc
  mask : s.ctl.testing = true → Covered c s.ran s.siMask
  loaded : s.ctl.testing = true → ∀ h ∈ s.handlers, h.since = true → ∀ mask, h.pc = .update mask →
    Covered c s.ran mask
  trigger : ∀ n mask, s.ctl = .trigger n mask → Needs c n mask
  wait : ∀ n mask, s.ctl = .wait n mask → Needs c c.siNalloc mask
  tested : Tested c s

theorem inv_initial (c : Config) : Sys.Inv c .initial :=
  ⟨fun _ hh => absurd hh List.not_mem_nil, fun _ hi => absurd hi List.not_mem_nil, nofun, nofun, nofun, nofun, nofun⟩

/-- Outside of the test, and not with a success, there is nothing to show of where the thread is. -/
theorem Sys.Inv.outside (hs : s.Inv c) {s' : Sys} (hhandlers : s'.handlers = s.handlers) (hran : s'.ran = s.ran)
    (htest : s'.ctl.testing = false) (hret : s'.ctl ≠ .returned none) : s'.Inv c := by
  have hnot : ¬ s'.ctl.testing = true := by rw [htest]; exact Bool.false_ne_true
  refine ⟨hhandlers ▸ hs.index, hran ▸ hs.ran, fun ht => absurd ht hnot, fun ht => absurd ht hnot,
    fun n mask hc => ?_, fun n mask hc => ?_, fun _ hc => absurd hc hret⟩
  · rw [hc] at htest
    cases htest
  · rw [hc] at htest
    cases htest

theorem inv_beginTest (hs : s.Inv c) (hmask : s.siMask = 0) : s.beginTest.Inv c := by
  refine ⟨fun h hh => ?_, fun _ hi => absurd hi List.not_mem_nil, fun _ => ?_, fun _ h hh hsince => ?_,
    fun n mask hc => ?_, nofun, nofun⟩
  · obtain ⟨h0, hh0, rfl⟩ := List.mem_map.mp hh
    exact hs.index h0 hh0
  · have hz : s.beginTest.siMask = 0 := hmask
    rw [hz]
    exact covered_zero c _
  · obtain ⟨h0, hh0, rfl⟩ := List.mem_map.mp hh
    cases hsince
  · cases hc
    exact fun index hindex => absurd hindex (Nat.not_lt_zero index)

/-- **A step of the thread.** -/
theorem inv_thread (hn : c.siNalloc ≤ 32) (hs : s.Inv c) (rc : Option Errno)
    (hclean : rc = none → s.ctl = .nicInit → s.siMask = 0) : (thread c rc s).Inv c := by
  unfold thread
  split
  case h_1 hctl =>
    split
    · exact hs
    · exact hs
    · exact hs.outside rfl rfl rfl nofun
  case h_2 hctl => exact hs.outside rfl rfl rfl nofun
  case h_3 hctl =>
    rcases rc with _ | e
    · dsimp only
      split_ifs with hhunt
      · exact ⟨hs.index, hs.ran, nofun, nofun, nofun, nofun, fun h => by rw [hhunt] at h; cases h⟩
      · exact inv_beginTest hs (hclean rfl hctl)
    · exact hs.outside rfl rfl rfl nofun
  case h_4 n mask hctl =>
    have htest : s.ctl.testing = true := by rw [hctl]; rfl
    split_ifs with hlt
    · refine ⟨hs.index, hs.ran, fun _ => hs.mask htest, fun _ => hs.loaded htest, fun i m hc => ?_, nofun, nofun⟩
      cases hc
      exact (hs.trigger n mask hctl).or_bit
    · refine ⟨hs.index, hs.ran, fun _ => hs.mask htest, fun _ => hs.loaded htest, nofun, fun i m hc => ?_, nofun⟩
      cases hc
      exact fun index hindex => hs.trigger n mask hctl index (by omega)
  case h_5 n mask hctl =>
    have htest : s.ctl.testing = true := by rw [hctl]; rfl
    split_ifs with hall hcount
    · exact ⟨hs.index, hs.ran, nofun, nofun, nofun, nofun, fun _ _ index hindex =>
        ran_of_mask hn (hs.wait n mask hctl) hs.ran (hs.mask htest) hall hindex⟩
    · refine ⟨hs.index, hs.ran, fun _ => hs.mask htest, fun _ => hs.loaded htest, nofun, fun i m hc => ?_, nofun⟩
      cases hc
      exact hs.wait n mask hctl
    · exact hs.outside rfl rfl rfl nofun
  all_goals exact hs.outside rfl rfl rfl nofun

/-- The handlers of the interrupts after a step of one of them are those of before, but for that one. -/
theorem Sys.Inv.handlerGoto (hs : s.Inv c) (hk : s.handlers[k]? = some h) {pc : HandlerPc}
    (hpc : s.ctl.testing = true → h.since = true → ∀ mask, pc = .update mask → Covered c s.ran mask) :
    (s.handlerGoto k h pc).Inv c := by
  refine ⟨fun h' hh' => ?_, hs.ran, hs.mask, fun ht h' hh' hsince mask hm => ?_, hs.trigger, hs.wait, hs.tested⟩
  · rcases List.mem_or_eq_of_mem_set hh' with hmem | rfl
    · exact hs.index h' hmem
    · exact hs.index h (List.mem_of_getElem? hk)
  · rcases List.mem_or_eq_of_mem_set hh' with hmem | rfl
    · exact hs.loaded ht h' hmem hsince mask hm
    · exact hpc ht hsince mask hm

theorem Sys.Inv.handlerDone (hs : s.Inv c) (k : ℕ) : (s.handlerDone k).Inv c :=
  ⟨fun h hh => hs.index h (List.mem_of_mem_eraseIdx hh), hs.ran, hs.mask,
    fun ht h hh => hs.loaded ht h (List.mem_of_mem_eraseIdx hh), hs.trigger, hs.wait, hs.tested⟩

theorem subset_store (s : Sys) (h : Handler) (mask : U64) : s.ran ⊆ (s.store h mask).ran := by
  unfold Sys.store
  dsimp only
  split_ifs
  · exact List.subset_cons_self _ _
  · exact List.Subset.refl _

/-- **A handler stores its bit.** -/
theorem Sys.Inv.store (hs : s.Inv c) (hk : s.handlers[k]? = some h) (hclean : s.ctl.testing = true → h.since = true)
    (hmask : s.ctl.testing = true → Covered c s.ran mask) {bit : U64} (hbit : bit = c.shl.bit h.index) :
    (s.store h (mask ||| bit)).Inv c := by
  subst hbit
  have hran : ∀ i ∈ (s.store h (mask ||| c.shl.bit h.index)).ran, i < c.siNalloc := by
    intro i hi
    unfold Sys.store at hi
    dsimp only at hi
    split_ifs at hi
    · rcases List.mem_cons.mp hi with rfl | hi
      · exact hs.index h (List.mem_of_getElem? hk)
      · exact hs.ran i hi
    · exact hs.ran i hi
  have hsub := subset_store s h (mask ||| c.shl.bit h.index)
  refine ⟨hs.index, hran, fun ht => ?_, fun ht h' hh' hsince m hm => (hs.loaded ht h' hh' hsince m hm).mono hsub,
    hs.trigger, hs.wait, fun hhunt hret index hindex => hsub (hs.tested hhunt hret index hindex)⟩
  have hmem : h.index ∈ (s.store h (mask ||| c.shl.bit h.index)).ran := by
    unfold Sys.store
    rw [if_pos (hclean ht)]
    exact List.mem_cons_self
  exact ((hmask ht).mono hsub).or_bit hmem

/-- **A step of a handler.** -/
theorem inv_handler (hline : c.siType = .line → c.siNalloc = 1) (hs : s.Inv c) (hk : s.handlers[k]? = some h)
    (hclean : s.ctl.testing = true → ∀ mask, h.pc = .update mask → c.siType = .line ∨ s.siMask = mask →
      h.since = true) : (handler c k h s).Inv c := by
  unfold handler
  split
  case h_1 => split_ifs <;> exact hs.handlerGoto hk nofun
  case h_2 =>
    split_ifs
    · exact hs.handlerGoto hk nofun
    · exact hs.handlerDone k
  case h_3 =>
    split_ifs
    · exact hs.handlerGoto hk nofun
    · exact hs.handlerDone k
  case h_4 =>
    refine hs.handlerGoto hk fun ht _ mask hm => ?_
    cases hm
    exact hs.mask ht
  case h_5 mask hpc =>
    have hindex := hs.index h (List.mem_of_getElem? hk)
    split_ifs with htype hcas
    · have hzero : h.index = 0 := by rw [hline htype] at hindex; omega
      refine (hs.store hk (fun ht => hclean ht mask hpc (Or.inl htype)) (fun ht => ?_) ?_).handlerDone k
      · exact hs.loaded ht h (List.mem_of_getElem? hk) (hclean ht mask hpc (Or.inl htype)) mask hpc
      · rw [hzero, bit_zero]
    · refine (hs.store hk (fun ht => hclean ht mask hpc (Or.inr hcas)) (fun ht => ?_) rfl).handlerDone k
      rw [← hcas]
      exact hs.mask ht
    · exact hs.handlerGoto hk nofun

theorem inv_step (hn : c.siNalloc ≤ 32) (hline : c.siType = .line → c.siNalloc = 1) (o : Op) (s s' : Sys)
    (hs : s.Inv c) (hclean : Clean c o s) (h : step c o s = some s') : s'.Inv c := by
  cases o with
  | thread rc =>
    cases h
    refine inv_thread hn hs rc fun hrc => ?_
    subst hrc
    exact hclean
  | interrupt index =>
    obtain ⟨⟨-, hindex⟩, heq⟩ := Option.ite_none_right_eq_some.mp h
    cases heq
    refine ⟨fun h hh => ?_, hs.ran, hs.mask, fun ht h hh hsince mask hm => ?_, hs.trigger, hs.wait, hs.tested⟩
    · rcases List.mem_cons.mp hh with rfl | hh
      · exact hindex
      · exact hs.index h hh
    · rcases List.mem_cons.mp hh with rfl | hh
      · cases hm
      · exact hs.loaded ht h hh hsince mask hm
  | handler k =>
    obtain ⟨h', hk, rfl⟩ := Option.map_eq_some_iff.mp h
    exact inv_handler hline hs hk fun ht => hclean ht h' hk

/-! ### More than 32 vectors -/

/-- The test has triggered the vectors, and no handler runs. -/
def waiting (mask got : U64) (ran : List ℕ) : Sys := ⟨.testing, got, .wait 0 mask, [], ran⟩

/-- The thread gets to the loop that waits. -/
theorem leadsTo_waiting (htype : c.siType ≠ .invalid) (hhunt : c.huntington = false) :
    ∃ mask, LeadsTo (step c) (Clean c) .initial (waiting mask 0 []) := by
  have hstart : LeadsTo (step c) (Clean c) .initial ⟨.testing, 0, .trigger 0 0, [], []⟩ := by
    have hbus : LeadsTo (step c) (Clean c) .initial ⟨.initialized, 0, .busEnabled, [], []⟩ := by
      refine (LeadsTo.refl _ _).next (.thread none) nofun ?_
      have hdown : thread c none .initial = ⟨.initialized, 0, .busEnabled, [], []⟩ := by
        rcases ht : c.siType
        · exact absurd ht htype
        · simp only [thread, Sys.initial, ht, Sys.goto]
        · simp only [thread, Sys.initial, ht, Sys.goto]
      exact congrArg some hdown
    have hinit : LeadsTo (step c) (Clean c) .initial ⟨.testing, 0, .nicInit, [], []⟩ := hbus.next (.thread none) nofun rfl
    refine hinit.next (.thread none) (fun _ => rfl) ?_
    · unfold step thread
      dsimp only
      rw [if_neg (by rw [hhunt]; exact Bool.false_ne_true)]
      rfl
  have hloop : ∀ n ≤ c.siNalloc, ∃ mask, LeadsTo (step c) (Clean c) .initial ⟨.testing, 0, .trigger n mask, [], []⟩ := by
    intro n hn
    induction n with
    | zero => exact ⟨0, hstart⟩
    | succ n ih =>
      obtain ⟨mask, hrun⟩ := ih (by omega)
      exact ⟨_, hrun.next (.thread none) nofun (congrArg some (if_pos hn))⟩
  obtain ⟨mask, hrun⟩ := hloop c.siNalloc le_rfl
  exact ⟨mask, hrun.next (.thread none) nofun (congrArg some (if_neg (lt_irrefl _)))⟩

/-- A vector interrupts, and its handler stores its bit. -/
theorem leadsTo_ran (htype : c.siType ≠ .line) {got : U64} {index : ℕ} (hindex : index < c.siNalloc) :
    LeadsTo (step c) (Clean c) (waiting mask got ran) (waiting mask (got ||| c.shl.bit index) (index :: ran)) := by
  have hclean : ∀ pc, Clean c (.handler 0) ⟨.testing, got, .wait 0 mask, [⟨index, pc, true⟩], ran⟩ := by
    intro pc _ h hh _ _ _
    cases hh
    rfl
  refine ((((((LeadsTo.refl _ _).next (.interrupt index) trivial (if_pos ⟨rfl, hindex⟩)).next (.handler 0)
    (hclean .cmpStarted) rfl).next (.handler 0) (hclean .cmpTesting) rfl).next (.handler 0) (hclean .inTest) rfl).next
    (.handler 0) (hclean .load) rfl).next (.handler 0) (hclean (.update got)) ?_
  have hupdate : handler c 0 ⟨index, .update got, true⟩ ⟨.testing, got, .wait 0 mask, [⟨index, .update got, true⟩], ran⟩
      = waiting mask (got ||| c.shl.bit index) (index :: ran) := by
    rw [handler]
    dsimp only
    rw [if_neg htype, if_pos rfl]
    rfl
  exact congrArg some hupdate

/-- The bits of 32 vectors are all that there are. -/
theorem eq_allOnes_of_needs {got : U64} (h : Needs c 32 got) : got = BitVec.allOnes 64 := by
  refine BitVec.eq_of_getLsbD_eq fun b hb => ?_
  rw [BitVec.getLsbD_allOnes, decide_eq_true hb]
  by_cases hlow : b < 32
  · exact h b hlow b ((getLsbD_bit c.shl hlow hlow).mpr rfl)
  · refine h 31 (by decide) b ?_
    rw [IntShl.bit, BitVec.getLsbD_signExtend, c.shl.low 31 (by decide), if_neg hlow, decide_eq_true hb]
    rfl

/-- **With more than 32 vectors** the test succeeds when the handlers of the first 32 have run. -/
theorem leadsTo_untested (htype : c.siType = .message) (hhunt : c.huntington = false) (hn : 32 < c.siNalloc) :
    ∃ s, LeadsTo (step c) (Clean c) .initial s ∧ s.ctl = .returned none ∧ 32 ∉ s.ran := by
  obtain ⟨mask, hrun⟩ := leadsTo_waiting (by rw [htype]; exact nofun) hhunt
  have hloop : ∀ n ≤ 32, ∃ got ran, LeadsTo (step c) (Clean c) .initial (waiting mask got ran) ∧ Needs c n got ∧
      ∀ i ∈ ran, i < n := by
    intro n hle
    induction n with
    | zero => exact ⟨0, [], hrun, fun _ hi => absurd hi (Nat.not_lt_zero _), fun _ hi => absurd hi List.not_mem_nil⟩
    | succ n ih =>
      obtain ⟨got, ran, hto, hneeds, hran⟩ := ih (by omega)
      refine ⟨_, _, hto.trans (leadsTo_ran (by rw [htype]; exact nofun) (by omega : n < c.siNalloc)), hneeds.or_bit, ?_⟩
      intro i hi
      rcases List.mem_cons.mp hi with rfl | hi
      · exact Nat.lt_succ_self i
      · exact Nat.lt_succ_of_lt (hran i hi)
  obtain ⟨got, ran, hto, hneeds, hran⟩ := hloop 32 le_rfl
  have hall : mask &&& got = mask := by rw [eq_allOnes_of_needs hneeds, BitVec.and_allOnes]
  refine ⟨_, hto.next (.thread none) nofun (congrArg some (if_pos hall)), rfl, fun h32 => ?_⟩
  exact absurd (hran 32 h32) (lt_irrefl _)

/-! ### The interrupts that an initialisation leaves -/

/-- What the interrupts are started with after `sfxge_intr_init`. -/
def Config.ofInit (ddi : Ddi) (huntington : Bool) (shl : IntShl) : Config :=
  ⟨(sfxgeIntrInit ddi .initial).1.siType, (sfxgeIntrInit ddi .initial).1.siNalloc, huntington, shl⟩

/-- With more than 32 vectors a run leads to a success without a handler of vector 32. -/
theorem leadsTo_not_tested {ddi : Ddi} (shl : IntShl) (h : (sfxgeIntrInit ddi .initial).2 = none)
    (hn : 32 < (sfxgeIntrInit ddi .initial).1.siNalloc) :
    ∃ s, LeadsTo (step (.ofInit ddi false shl)) (Clean (.ofInit ddi false shl)) .initial s ∧
      ¬ Tested (.ofInit ddi false shl) s := by
  obtain ⟨htype, hline⟩ := sfxgeIntrInit_type h
  have hmessage : (sfxgeIntrInit ddi .initial).1.siType = .message := by
    cases ht : (sfxgeIntrInit ddi .initial).1.siType with
    | invalid => exact absurd ht htype
    | line =>
      rw [hline ht] at hn
      exact absurd hn (by decide)
    | message => rfl
  obtain ⟨s, hto, hret, hran⟩ := leadsTo_untested (c := .ofInit ddi false shl) hmessage rfl hn
  exact ⟨s, hto, fun htested => hran (htested rfl hret 32 hn)⟩

/-- **The interrupt test.**  In every run whose steps go by nothing that an earlier test has left, the test that succeeds
has seen the handler of every vector run, exactly if there are at most 32 vectors. -/
theorem tested_iff (ddi : Ddi) (shl : IntShl) (h : (sfxgeIntrInit ddi .initial).2 = none) :
    (∀ os, StepsAlong (step (.ofInit ddi false shl)) (Clean (.ofInit ddi false shl)) os .initial →
      AlwaysAlong (step (.ofInit ddi false shl)) (Tested (.ofInit ddi false shl)) os .initial) ↔
      (sfxgeIntrInit ddi .initial).1.siNalloc ≤ 32 := by
  constructor
  · intro hruns
    by_contra hn
    obtain ⟨s, hto, hnot⟩ := leadsTo_not_tested shl h (Nat.not_le.mp hn)
    exact hnot (hto.of_alwaysAlong hruns)
  · intro hn os hclean
    have hline := (sfxgeIntrInit_type h).2
    exact alwaysAlong_of_steps (inv_step hn hline) (fun s hs => hs.tested) os (inv_initial _) hclean

theorem tested_grantsAll :
    (∀ os, StepsAlong (step (.ofInit (grantsAll 6 3) false .modulo)) (Clean (.ofInit (grantsAll 6 3) false .modulo)) os
        .initial →
      AlwaysAlong (step (.ofInit (grantsAll 6 3) false .modulo)) (Tested (.ofInit (grantsAll 6 3) false .modulo)) os
        .initial) ↔ (sfxgeIntrInit (grantsAll 6 3) .initial).1.siNalloc ≤ 32 :=
  tested_iff (grantsAll 6 3) .modulo (sfxgeIntrInit_grantsAll 6 3 (by decide) (by decide)).1

/-- With 64 vectors the test succeeds though the handler of vector 32 has not run. -/
theorem vector_untested :
    ¬ ∀ os, AlwaysAlong (step (.ofInit (grantsAll 64 64) false .modulo))
      (Tested (.ofInit (grantsAll 64 64) false .modulo)) os .initial := by
  intro hruns
  obtain ⟨hinit, hgranted⟩ := sfxgeIntrInit_grantsAll 64 64 (by decide) (by decide)
  have hlog : Nat.log 2 (min 64 64) = 6 := by rw [Nat.log_eq_iff (by decide)]; decide
  have hn : (sfxgeIntrInit (grantsAll 64 64) .initial).1.siNalloc = 64 := by
    rw [(sfxgeIntrInit_nalloc hinit).2, hgranted, pow2Le_eq (by decide), hlog]
    rfl
  obtain ⟨s, hto, hnot⟩ := leadsTo_not_tested .modulo hinit (by rw [hn]; decide)
  exact hnot (hto.of_alwaysAlong fun os _ => hruns os)

/-- A vector of which the handler runs when the test has given up on it: the mask has been cleared by then, but is not
cleared when the next test begins. -/
theorem late_handler_tested :
    ∃ os s, runOps (step ⟨.message, 1, false, .modulo⟩) os .initial = some s ∧ s.ctl = .returned none ∧ s.ran = [] :=
  ⟨List.replicate 26 (.thread none) ++ .interrupt 0 :: List.replicate 5 (.handler 0) ++ List.replicate 8 (.thread none),
    ⟨.testing, 1, .returned none, [], []⟩, by decide, rfl, rfl⟩

end Sfxge.Intr
