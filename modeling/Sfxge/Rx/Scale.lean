import Mathlib.Algebra.BigOperators.Group.Finset.Basic
import Mathlib.Data.Fintype.Card
import Sfxge.Lib.Run
import Sfxge.Lib.Greedy
import Sfxge.Efx

/-!
# Rx.Scale — the RSS table and the CPU contention counts

`sfxge_rx_scale_update` chooses event queues for the RSS table by the contention on their CPUs, which all adapters
count in the one table `sfxge_cpu`; `sfxge_rx_scale_start`, `sfxge_rx_scale_count_set` and `sfxge_rx_scale_stop`
are the other operations on it.  Each runs under its adapter's lock, and touches `sfxge_cpu` under `cpu_lock`.
The counters have 32 bits.
-/

namespace Sfxge.Rx.Scale

open Lib

/-- `SFXGE_RX_SCALE_MAX`, which is `EFX_RSS_TBL_SIZE` -/
def rxScaleMax : ℕ := 128

/-- `sfxge_rx_scale_state_t` -/
inductive ScaleState
  | uninitialized
  | initialized
  | started
  deriving Repr, DecidableEq

/-- The event queues of an adapter: `si_nalloc` of the `SFXGE_RX_SCALE_MAX` that `s_sep` holds. -/
structure Adapter where
  nalloc : ℕ
  pos : 0 < nalloc
  le : nalloc ≤ rxScaleMax

/-- `sfxge_rx_scale_t`; `κ` are the CPUs. -/
structure RxScale (κ : Type) where
  state : ScaleState
  count : ℕ
  cpu : κ → ℕ
  tbl : List ℕ

/-- `sfxge_cpu`, the adapters, and what the last operation returned; `sfxge_rx_scale_update` keeps it to itself. -/
structure System (ι κ : Type) where
  cpu : κ → ℕ
  inst : ι → RxScale κ
  rc : Option Errno

variable {ι κ : Type} [DecidableEq ι] [DecidableEq κ]

/-! ### Event queues for the table -/

/-- The choice among the ratings, and its rating, after some of them have been compared with it. -/
def better (rating : ℕ → ℕ) (c : ℕ × ℕ) (index : ℕ) : ℕ × ℕ :=
  if rating index < c.2 then (index, rating index) else c

/-- Choose the queue with the lowest CPU contention. -/
def choose (rating : ℕ → ℕ) (nalloc : ℕ) : ℕ :=
  ((List.range' 1 (nalloc - 1)).foldl (better rating) (0, rating 0)).1

/-- `(*p)++` of an `unsigned int` -/
def incr (f : κ → ℕ) (id : κ) : κ → ℕ := Function.update f id ((f id + 1) % 2 ^ 32)

/-- The condensed RSS table, `srs_cpu` and `sfxge_cpu`. -/
structure Choice (κ : Type) where
  tbl : List ℕ
  own : κ → ℕ
  cpu : κ → ℕ

/-- Rate the event queues, choose one and count it; `cpuId` is `se_cpu_id`. -/
def chooseNext (nalloc : ℕ) (cpuId : ℕ → κ) (c : Choice κ) : Choice κ :=
  let choice := choose (fun index => c.cpu (cpuId index)) nalloc
  ⟨c.tbl ++ [choice], incr c.own (cpuId choice), incr c.cpu (cpuId choice)⟩

/-- Choose as many event queues as we need. -/
def chooseQueues (nalloc : ℕ) (cpuId : ℕ → κ) (count : ℕ) (cpu : κ → ℕ) : Choice κ :=
  (chooseNext nalloc cpuId)^[count] ⟨[], fun _ => 0, cpu⟩

/-- The expanded RSS table from an entry on, of which `entries` are left; `count` goes round the condensed one. -/
def expand (tbl : List ℕ) (srsCount : ℕ) : ℕ → ℕ → List ℕ
  | 0, _ => []
  | entries + 1, count => tbl.getD count 0 :: expand tbl srsCount entries ((count + 1) % srsCount)

/-- Count the chosen queues and build the expanded RSS table. -/
def RxScale.build (srs : RxScale κ) (c : Choice κ) : RxScale κ :=
  { srs with cpu := c.own, tbl := expand c.tbl srs.count rxScaleMax 0 }

/-- Clear down the RSS table. -/
def RxScale.clear (srs : RxScale κ) : RxScale κ := { srs with tbl := List.replicate rxScaleMax 0 }

/-! ### The operations -/

/-- `sfxge_cpu[id] -= srsp->srs_cpu[id]` for all CPUs -/
def release (cpu own : κ → ℕ) : κ → ℕ := fun id => (cpu id + 2 ^ 32 - own id) % 2 ^ 32

/-- One operation on adapter `i`, with how the calls in it end: `hash` is what `sfxge_toeplitz_hash_init` returns,
`tblAlloc` and `ratingAlloc` say whether `kmem_zalloc` succeeds, and `cpuId` are the CPUs that the event queues have
recorded. -/
inductive Op (ι κ : Type)
  | start (i : ι) (hash : Option Errno)
  | update (i : ι) (tblAlloc ratingAlloc : Bool) (cpuId : ℕ → κ)
  | countSet (i : ι) (count : ℕ)
  | stop (i : ι)

namespace System

variable (s : System ι κ) (i : ι)

/-- The operation returns `rc`. -/
def done (rc : Option Errno) : System ι κ := { s with rc := rc }

def setInst (srs : RxScale κ) : System ι κ := { s with inst := Function.update s.inst i srs }

def setCpu (cpu : κ → ℕ) : System ι κ := { s with cpu := cpu }

/-- `sfxge_rx_scale_start`; the update that it dispatches is an operation of its own. -/
def start (hash : Option Errno) : System ι κ :=
  match hash with
  | some e => (s.setInst i (s.inst i).clear).done (some e)
  | none => (s.setInst i { (s.inst i).clear with state := .started }).done none

/-- The queues that adapter `i` chooses, with its own counts out of the way. -/
def choice (A : Adapter) (cpuId : ℕ → κ) : Choice κ :=
  chooseQueues A.nalloc cpuId (s.inst i).count (release s.cpu (s.inst i).cpu)

/-- `sfxge_rx_scale_update` -/
def update (A : Adapter) (tblAlloc ratingAlloc : Bool) (cpuId : ℕ → κ) : System ι κ :=
  if (s.inst i).state ≠ .started then s.done (some .EFAULT)
  else if !tblAlloc then s.done (some .ENOMEM)
  else if !ratingAlloc then s.done (some .ENOMEM)
  else
    let c := s.choice i A cpuId
    ((s.setInst i ((s.inst i).build c)).setCpu c.cpu).done none

/-- `sfxge_rx_scale_count_set`; the update that it dispatches is an operation of its own. -/
def countSet (A : Adapter) (count : ℕ) : System ι κ :=
  if count < 1 ∨ A.nalloc < count then s.done (some .EINVAL)
  else if (s.inst i).state = .uninitialized then s.done (some .ENOTSUP)
  else (s.setInst i { s.inst i with count := count }).done none

/-- `sfxge_rx_scale_stop` -/
def stop : System ι κ :=
  ((s.setInst i { (s.inst i).clear with state := .initialized, cpu := fun _ => 0 }).setCpu
    (release s.cpu (s.inst i).cpu)).done none

end System

/-- One operation.  The driver starts a table that is not started, and stops one that is. -/
def step (A : ι → Adapter) : Op ι κ → System ι κ → Option (System ι κ)
  | .start i hash, s => if (s.inst i).state = .initialized then some (s.start i hash) else none
  | .update i tblAlloc ratingAlloc cpuId, s => some (s.update i (A i) tblAlloc ratingAlloc cpuId)
  | .countSet i count, s => some (s.countSet i (A i) count)
  | .stop i, s => if (s.inst i).state = .started then some (s.stop i) else none

/-- Some adapters are as `sfxge_rx_scale_init` leaves them, and the others not initialized. -/
structure Init (A : ι → Adapter) (s : System ι κ) : Prop where
  cpu : ∀ id, s.cpu id = 0
  stopped : ∀ i, (s.inst i).state ≠ .started
  own : ∀ i id, (s.inst i).cpu id = 0
  count : ∀ i, (s.inst i).state = .initialized → 1 ≤ (s.inst i).count ∧ (s.inst i).count ≤ (A i).nalloc

/-! ### What the operations should do -/

/-- `sfxge_cpu` is the sum over the adapters, so no subtraction underflows. -/
def Counted [Fintype ι] (s : System ι κ) : Prop :=
  (∀ id, s.cpu id = ∑ i, (s.inst i).cpu id) ∧ ∀ i id, (s.inst i).cpu id ≤ s.cpu id

/-- The RSS table of an adapter spreads evenly over `srs_count` of its event queues. -/
structure Spread (A : Adapter) (srs : RxScale κ) : Prop where
  length : srs.tbl.length = rxScaleMax
  valid : ∀ q ∈ srs.tbl, q < A.nalloc
  distinct : srs.tbl.toFinset.card = srs.count
  even : ∀ q ∈ srs.tbl, srs.tbl.count q = rxScaleMax / srs.count ∨
    srs.tbl.count q = (rxScaleMax + srs.count - 1) / srs.count

/-- An update that succeeds leaves such a table. -/
def Updates (A : ι → Adapter) : Op ι κ → System ι κ → System ι κ → Prop
  | .update i _ _ _, _, s' => s'.rc = none → Spread (A i) (s'.inst i)
  | _, _, _ => True

/-- There are as many fresh event queues, by the contention of the other adapters, as the update needs. -/
def EnoughFresh (A : ι → Adapter) : Op ι κ → System ι κ → Prop
  | .update i tblAlloc ratingAlloc cpuId, s =>
    (s.inst i).state = .started → tblAlloc → ratingAlloc →
      (s.inst i).count ≤ (Greedy.fresh (A i).nalloc cpuId fun id => s.cpu id - (s.inst i).cpu id).card
  | _, _ => True

end Sfxge.Rx.Scale
