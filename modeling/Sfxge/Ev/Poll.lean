import Sfxge.Lib.Counter
import Sfxge.Oword

/-!
# Ev.Poll — polling an event queue

`siena_ev_qpoll` of `efx_ev.c`, cut at its accesses to the ring and at its calls of the handlers, with
the hardware writing events in between.  The ring is memory: what a slot outside it holds belongs to
others.
-/

namespace Sfxge.Ev

open Lib

/-! ### Events and handlers -/

/-- `EFX_EV_PRESENT` -/
def present (q : Qword) : Bool := q.field EFX_DWORD_0 ≠ 0xffffffff ∧ q.field EFX_DWORD_1 ≠ 0xffffffff

def FSF_AZ_EV_CODE : Field := ⟨60, 4⟩
def FSE_AZ_EV_CODE_RX_EV : U32 := 0
def FSE_AZ_EV_CODE_TX_EV : U32 := 2
def FSE_AZ_EV_CODE_DRIVER_EV : U32 := 5
def FSE_AZ_EV_CODE_GLOBAL_EV : U32 := 6
def FSE_AZ_EV_CODE_DRV_GEN_EV : U32 := 7
def FSE_AZ_EV_CODE_MCDI_EVRESPONSE : U32 := 0xc

/-- What the poll calls for an event: a handler of the queue, or `eec_exception`. -/
inductive Handler where
  | rx
  | tx
  | driver
  | drvGen
  | mcdi
  | global
  | exception (code : U32)
  deriving Repr, DecidableEq

/-- `efx_evq_t`: the ring has `2 ^ logSize` slots, and `eeGlobal` tells whether `ee_global` is set. -/
structure Evq where
  logSize : ℕ
  eeGlobal : Bool
  three_le : 3 ≤ logSize
  le_32 : logSize ≤ 32

def EFX_EV_BATCH : U32 := 8

namespace Evq

def size (eep : Evq) : ℕ := 2 ^ eep.logSize

def eeMask (eep : Evq) : U32 := BitVec.ofNat 32 (2 ^ eep.logSize - 1)

/-- `count & eep->ee_mask` -/
def slot (eep : Evq) (count : U32) : ℕ := (count &&& eep.eeMask).toNat

/-- The `switch` of `siena_ev_qpoll`. -/
def handler (eep : Evq) (ev : Qword) : Handler :=
  let code := ev.field FSF_AZ_EV_CODE
  if code = FSE_AZ_EV_CODE_RX_EV then .rx
  else if code = FSE_AZ_EV_CODE_TX_EV then .tx
  else if code = FSE_AZ_EV_CODE_DRIVER_EV then .driver
  else if code = FSE_AZ_EV_CODE_DRV_GEN_EV then .drvGen
  else if code = FSE_AZ_EV_CODE_MCDI_EVRESPONSE then .mcdi
  else if code = FSE_AZ_EV_CODE_GLOBAL_EV ∧ eep.eeGlobal then .global
  else .exception code

end Evq

/-- `should_abort`, where `rv` is what the handler returns. -/
def shouldAbort (h : Handler) (rv : Bool) : Bool :=
  match h with
  | .exception _ => true
  | _ => rv

/-! ### The poll -/

/-- `batch`: read up until the end of the batch period. -/
def batch (count : U32) : ℕ := (EFX_EV_BATCH - (count &&& (EFX_EV_BATCH - 1))).toNat

/-- Where a poll stands, with its locals; `ev` is the part of `ev[]` that has been read. -/
inductive Pc where
  | idle
  | read (count : U32) (ev : List Qword)
  | process (count : U32) (ev : List Qword) (index : ℕ)
  | clear (count : U32) (total index : ℕ)
  deriving Repr, DecidableEq

/-- A call of a handler, in poll number `poll`. -/
structure Call where
  poll : ℕ
  handler : Handler
  ev : Qword
  abort : Bool
  deriving Repr, DecidableEq

/-- The queue's memory, the driver's `*countp`, the poll, and the hardware's write pointer.  `written`
are the events that the hardware has written and `calls` the handlers called, both in order; `polls` is
the number of polls begun, and `atPoll` how many events there were when the last of them began. -/
structure Sys where
  mem : ℕ → Qword
  countp : U32
  pc : Pc
  wptr : U32
  written : List Qword
  calls : List Call
  polls : ℕ
  atPoll : ℕ

inductive Op where
  /-- The hardware writes an event. -/
  | write (ev : Qword)
  /-- `siena_ev_qpoll` is called. -/
  | poll
  /-- The poll goes on; a handler called now returns `rv`. -/
  | step (rv : Bool)
  deriving Repr, DecidableEq

namespace Sys

variable (eep : Evq)

/-- The queue is empty; what memory holds outside it is `mem0`. -/
def init (mem0 : ℕ → Qword) (count : U32) : Sys where
  mem := fun i => if i < eep.size then Qword.ones else mem0 i
  countp := count
  pc := .idle
  wptr := count
  written := []
  calls := []
  polls := 0
  atPoll := 0

/-- The hardware writes an event in the next slot, which must have been cleared. -/
def write (ev : Qword) (s : Sys) : Option Sys :=
  if present ev ∧ s.mem (eep.slot s.wptr) = Qword.ones then
    some { s with
      mem := Function.update s.mem (eep.slot s.wptr) ev
      wptr := s.wptr + 1
      written := s.written ++ [ev] }
  else none

/-- A poll begins. -/
def poll (s : Sys) : Option Sys :=
  match s.pc with
  | .idle => some { s with
      pc := .read s.countp []
      polls := s.polls + 1
      atPoll := s.written.length }
  | _ => none

/-- The call of the handler of an event. -/
def dispatch (ev : Qword) (rv : Bool) (s : Sys) : Sys :=
  { s with calls := s.calls ++ [⟨s.polls, eep.handler ev, ev, shouldAbort (eep.handler ev) rv⟩] }

/-- The next access or call of `siena_ev_qpoll`. -/
def next (rv : Bool) (s : Sys) : Option Sys :=
  match s.pc with
  | .idle => none
  | .read count ev =>
    let q := s.mem (eep.slot count + ev.length)
    if ev.length < batch count ∧ present q then some { s with pc := .read count (ev ++ [q]) }
    else some { s with pc := .process count ev 0 }
  | .process count ev index =>
    match ev[index]? with
    | some e =>
      -- on an abort the subsequent events are ignored
      if shouldAbort (eep.handler e) rv then
        some { s.dispatch eep e rv with pc := .clear count (index + 1) 0 }
      else some { s.dispatch eep e rv with pc := .process count ev (index + 1) }
    | none => some { s with pc := .clear count ev.length 0 }
  | .clear count total index =>
    if index < total then
      some { s with
        mem := Function.update s.mem (eep.slot count + index) Qword.ones
        pc := .clear count total (index + 1) }
    else if total = batch count then some { s with pc := .read (count + BitVec.ofNat 32 total) [] }
    else some { s with pc := .idle, countp := count + BitVec.ofNat 32 total }

def step : Op → Sys → Option Sys
  | .write ev => write eep ev
  | .poll => poll
  | .step rv => next eep rv

/-! ### What the poll is for -/

/-- The events that have been delivered. -/
def events (s : Sys) : List Qword := s.calls.map Call.ev

/-- Slot `i` holds an event that is still to be delivered. -/
def Waiting (count0 : U32) (s : Sys) (i : ℕ) (ev : Qword) : Prop :=
  ∃ j, s.calls.length ≤ j ∧ s.written[j]? = some ev ∧ eep.slot (count0 + BitVec.ofNat 32 j) = i

/-- A handler has asked to abort the poll. -/
def Aborted (s : Sys) : Prop := ∃ c ∈ s.calls, c.poll = s.polls ∧ c.abort = true

instance (s : Sys) : Decidable s.Aborted := inferInstanceAs (Decidable (∃ c ∈ s.calls, _))

/-- No event is dispatched in a poll that a handler has asked to abort. -/
def Stops (s : Sys) : Prop := s.calls.Pairwise fun c d => c.poll = d.poll → c.abort = false

instance (s : Sys) : Decidable s.Stops :=
  inferInstanceAs (Decidable (s.calls.Pairwise fun c d => c.poll = d.poll → c.abort = false))

/-- Events are delivered once each, in order and to their handlers; between polls, `*countp` has
advanced by their number, their slots and no others have been cleared, and a poll that no handler has
aborted has left none of the events it found. -/
structure Delivers (mem0 : ℕ → Qword) (count0 : U32) (s : Sys) : Prop where
  order : s.events <+: s.written
  handlers : ∀ c ∈ s.calls, c.handler = eep.handler c.ev
  count : s.pc = .idle → s.countp = count0 + BitVec.ofNat 32 s.calls.length
  waiting : s.pc = .idle → ∀ i ev, s.Waiting eep count0 i ev → s.mem i = ev
  cleared : s.pc = .idle → ∀ i < eep.size, (∀ ev, ¬ s.Waiting eep count0 i ev) → s.mem i = Qword.ones
  others : ∀ i ≥ eep.size, s.mem i = mem0 i
  all : s.pc = .idle → ¬ s.Aborted → s.atPoll ≤ s.calls.length

/-- A poll that a handler has asked to abort comes to the next batch and finds an event there. -/
def Resumes (s : Sys) : Prop :=
  match s.pc with
  | .read count [] => s.Aborted ∧ present (s.mem (eep.slot count)) = true
  | _ => False

end Sys

/-! ### Slots and batches -/

theorem not_present_ones : present Qword.ones = false := by decide

section

variable (eep : Evq)

theorem Evq.eight_dvd : 8 ∣ eep.size := Nat.pow_dvd_pow 2 eep.three_le

theorem Evq.size_dvd : eep.size ∣ 2 ^ 32 := Nat.pow_dvd_pow 2 eep.le_32

theorem Evq.eight_le : 8 ≤ eep.size := Nat.le_of_dvd (Nat.two_pow_pos _) eep.eight_dvd

theorem Evq.slot_idx (b j : ℕ) : eep.slot (idx 32 b j) = (b + j) % eep.size := by
  rw [Evq.slot, Evq.eeMask, and_mask eep.le_32]
  exact idx_mod eep.size_dvd

theorem batch_idx (b j : ℕ) : batch (idx 32 b j) = 8 - (b + j) % 8 := by
  have hand : (idx 32 b j &&& 7#32).toNat = (b + j) % 8 := by
    rw [← idx_mod (w := 32) (b := b) (j := j) (n := 8) ⟨2 ^ 29, by norm_num⟩]
    exact and_mask (k := 3) (by omega) _
  have hlt : (b + j) % 8 < 8 := Nat.mod_lt _ (by omega)
  rw [batch, BitVec.toNat_sub]
  change (2 ^ 32 - (idx 32 b j &&& 7#32).toNat + 8) % 2 ^ 32 = _
  rw [hand]
  omega

/-- Within a batch, slots follow each other. -/
theorem Evq.slot_batch {b D i : ℕ} (hi : i < batch (idx 32 b D)) :
    eep.slot (idx 32 b D) + i = (b + (D + i)) % eep.size := by
  rw [batch_idx] at hi
  rw [eep.slot_idx, ← Nat.add_assoc, mod_add eep.eight_dvd hi]

theorem batch_pos (count : U32) : 0 < batch count := by
  rw [← idx_toNat count, batch_idx]
  omega

theorem batch_le (b j : ℕ) : batch (idx 32 b j) ≤ 8 := by
  rw [batch_idx]
  omega

end

/-! ### Steps -/

namespace Sys

variable {eep : Evq} {s s' : Sys}

/-- What the poll does next. -/
inductive Next (eep : Evq) (rv : Bool) (s : Sys) : Sys → Prop
  | readOne {count : U32} {ev : List Qword} : s.pc = .read count ev → ev.length < batch count →
      present (s.mem (eep.slot count + ev.length)) = true →
      Next eep rv s { s with pc := .read count (ev ++ [s.mem (eep.slot count + ev.length)]) }
  | readEnd {count : U32} {ev : List Qword} : s.pc = .read count ev →
      ¬ (ev.length < batch count ∧ present (s.mem (eep.slot count + ev.length)) = true) →
      Next eep rv s { s with pc := .process count ev 0 }
  | abort {count : U32} {ev : List Qword} {index : ℕ} {e : Qword} : s.pc = .process count ev index →
      ev[index]? = some e → shouldAbort (eep.handler e) rv = true →
      Next eep rv s { s.dispatch eep e rv with pc := .clear count (index + 1) 0 }
  | call {count : U32} {ev : List Qword} {index : ℕ} {e : Qword} : s.pc = .process count ev index →
      ev[index]? = some e → shouldAbort (eep.handler e) rv = false →
      Next eep rv s { s.dispatch eep e rv with pc := .process count ev (index + 1) }
  | callEnd {count : U32} {ev : List Qword} {index : ℕ} : s.pc = .process count ev index →
      ev.length ≤ index → Next eep rv s { s with pc := .clear count ev.length 0 }
  | clearOne {count : U32} {total index : ℕ} : s.pc = .clear count total index → index < total →
      Next eep rv s { s with
        mem := Function.update s.mem (eep.slot count + index) Qword.ones
        pc := .clear count total (index + 1) }
  | again {count : U32} {total index : ℕ} : s.pc = .clear count total index → total ≤ index →
      total = batch count → Next eep rv s { s with pc := .read (count + BitVec.ofNat 32 total) [] }
  | done {count : U32} {total index : ℕ} : s.pc = .clear count total index → total ≤ index →
      total ≠ batch count →
      Next eep rv s { s with
        pc := .idle
        countp := count + BitVec.ofNat 32 total }

theorem next_cases {rv : Bool} (h : s.next eep rv = some s') : Next eep rv s s' := by
  unfold next at h
  cases hpc : s.pc with
  | idle =>
    rw [hpc] at h
    cases h
  | read count ev =>
    rw [hpc] at h
    dsimp only at h
    split_ifs at h with hread
    · cases h
      exact .readOne hpc hread.1 hread.2
    · cases h
      exact .readEnd hpc hread
  | process count ev index =>
    rw [hpc] at h
    dsimp only at h
    cases hev : ev[index]? with
    | some e =>
      rw [hev] at h
      dsimp only at h
      split_ifs at h with habort
      · cases h
        exact .abort hpc hev habort
      · cases h
        exact .call hpc hev (Bool.not_eq_true _ ▸ habort)
    | none =>
      rw [hev] at h
      cases h
      exact .callEnd hpc (List.getElem?_eq_none_iff.mp hev)
  | clear count total index =>
    rw [hpc] at h
    dsimp only at h
    split_ifs at h with hlt hbatch
    · cases h
      exact .clearOne hpc hlt
    · cases h
      exact .again hpc (Nat.not_lt.mp hlt) hbatch
    · cases h
      exact .done hpc (Nat.not_lt.mp hlt) hbatch

end Sys

end Sfxge.Ev
