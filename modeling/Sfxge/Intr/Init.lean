import Mathlib.Data.Nat.Log
import Sfxge.Efx

/-!
# Intr.Init — interrupt vectors

`sfxge_intr_init` and `sfxge_intr_fini` with the DMA buffer of `sfxge_dma.c`: the vectors that the bus grants are
rounded down to a power of two, the others are freed.  How the calls into the DDI end is a parameter; the lock and the
vectors freed are recorded in the order in which that happens.
-/

namespace Sfxge.Intr

/-! ### The state -/

/-- `efx_intr_type_t` -/
inductive IntrType
  | invalid
  | line
  | message
  deriving Repr, DecidableEq

/-- `sfxge_intr_state_t` -/
inductive IntrState
  | uninitialized
  | initialized
  | testing
  | started
  deriving Repr, DecidableEq

/-- The parts of `efsys_mem_t` that are there: the DMA handle, the memory, and the binding of one to the other. -/
structure DmaBuffer where
  handle : Bool
  mem : Bool
  bound : Bool
  deriving Repr, DecidableEq

def DmaBuffer.none : DmaBuffer := ⟨false, false, false⟩

/-- What is recorded: `mutex_enter` and `mutex_exit` of `sfxge_global_lock`, and `ddi_intr_free` of a handle. -/
inductive IntrEvent
  | lockEnter
  | lockExit
  | intrFree (handle : Option ℕ)
  deriving Repr, DecidableEq

/-- `sfxge_intr_t`.  The handle of vector `i` is `some i`; a handle table that is not there is `none`. -/
structure SfxgeIntr where
  siState : IntrState
  siType : IntrType
  siTable : Option (List (Option ℕ))
  siTableSize : ℕ
  siNalloc : ℕ
  siIntrPri : ℕ
  siMem : DmaBuffer
  events : List IntrEvent
  deriving Repr, DecidableEq

/-- The interrupts before `sfxge_intr_init`. -/
def SfxgeIntr.initial : SfxgeIntr := ⟨.uninitialized, .invalid, none, 0, 0, 0, .none, []⟩

/-! ### The DDI -/

/-- The errors of the DDI that are told apart. -/
inductive DdiErr
  | einval
  | eagain
  | notfound
  | other
  deriving Repr, DecidableEq

/-- How `ddi_dma_addr_bind_handle` fails. -/
inductive BindErr
  | inuse
  | noresources
  | nomapping
  | toobig
  | other
  deriving Repr, DecidableEq

/-- How `ddi_dma_alloc_handle` fails. -/
inductive HandleErr
  | badattr
  | noresources
  | other
  deriving Repr, DecidableEq

/-- How the calls into the DDI end.  `types` says whether there are MSI-X vectors; `alloc` gives the number of vectors
granted of those asked for, or an error and the count that is left with it; `pri` is the priority of a vector. -/
structure Ddi where
  types : Except DdiErr Bool
  navail : Except DdiErr ℕ
  rxScaleCount : Option ℤ
  ncpus : ℕ
  alloc : ℕ → Except (DdiErr × ℕ) ℕ
  alloc_le : ∀ n g, alloc n = .ok g → g ≤ n
  dmaHandle : Option HandleErr
  dmaMem : Bool
  dmaBind : Option BindErr
  pri : ℕ → Except ℤ ℕ

/-- What `sfxge_intr_init` returns when it fails: an error number, the `-1` of `sfxge_dma_buffer_create`, or the code
of `ddi_intr_get_pri`. -/
inductive InitErr
  | errno (e : Errno)
  | dma
  | pri (rc : ℤ)
  deriving Repr, DecidableEq

/-- The error number for a query that fails. -/
def queryErr : DdiErr → InitErr
  | .einval => .errno .EINVAL
  | .notfound => .errno .ENOENT
  | _ => .errno .EFAULT

/-- The error number for an allocation that fails. -/
def allocErr : DdiErr → InitErr
  | .einval => .errno .EINVAL
  | .eagain => .errno .EAGAIN
  | .notfound => .errno .ENOENT
  | .other => .errno .EFAULT

/-! ### The DMA buffer -/

/-- `sfxge_dma_buffer_create`, which takes back what it made if a later step fails -/
def sfxgeDmaBufferCreate (ddi : Ddi) (m : DmaBuffer) : DmaBuffer × Bool :=
  match ddi.dmaHandle with
  | some _ => (m, false)
  | none =>
    let m := { m with handle := true }
    if ddi.dmaMem then
      let m := { m with mem := true }
      match ddi.dmaBind with
      | some _ =>
        let m := { m with mem := false }
        ({ m with handle := false }, false)
      | none => ({ m with bound := true }, true)
    else ({ m with handle := false }, false)

/-- `sfxge_dma_buffer_destroy` -/
def sfxgeDmaBufferDestroy (m : DmaBuffer) : DmaBuffer :=
  let m := { m with bound := false }
  let m := { m with mem := false }
  { m with handle := false }

/-! ### The vectors -/

/-- `SFXGE_RX_SCALE_MAX` -/
def sfxgeRxScaleMax : ℕ := 128

/-- `sfxge_rx_scale_prop_get` -/
def sfxgeRxScalePropGet (ddi : Ddi) : ℕ :=
  let rxScale := ddi.rxScaleCount.getD sfxgeRxScaleMax
  if rxScale ≤ 0 then ddi.ncpus else rxScale.toNat

/-- The loop of `pow2_le`. -/
def pow2LeFrom (n order : ℕ) : ℕ := if 2 ^ order ≤ n then pow2LeFrom n (order + 1) else 2 ^ (order - 1)
termination_by n - order
decreasing_by
  have := Nat.lt_two_pow_self (n := order)
  omega

/-- `pow2_le` -/
def pow2Le (n : ℕ) : ℕ := pow2LeFrom n 1

theorem pow2LeFrom_eq {n order : ℕ} (ho : order ≠ 0) (h : 2 ^ (order - 1) ≤ n) :
    pow2LeFrom n order = 2 ^ Nat.log 2 n := by
  induction order using pow2LeFrom.induct n with
  | case1 order hle ih =>
    rw [pow2LeFrom, if_pos hle]
    exact ih (Nat.succ_ne_zero order) hle
  | case2 order hgt =>
    have hpos : n ≠ 0 := fun h0 => absurd (h0 ▸ h) (Nat.not_le.mpr (Nat.two_pow_pos _))
    have hlog : Nat.log 2 n = order - 1 := by
      rw [Nat.log_eq_iff (Or.inr ⟨by decide, hpos⟩), Nat.sub_add_cancel (Nat.one_le_iff_ne_zero.mpr ho)]
      exact ⟨h, Nat.not_le.mp hgt⟩
    rw [pow2LeFrom, if_neg hgt, hlog]

/-- **Rounding down** to a power of two. -/
theorem pow2Le_eq {n : ℕ} (h : n ≠ 0) : pow2Le n = 2 ^ Nat.log 2 n :=
  pow2LeFrom_eq Nat.one_ne_zero (Nat.one_le_iff_ne_zero.mpr h)

theorem pow2Le_le {n : ℕ} (h : n ≠ 0) : pow2Le n ≤ n := pow2Le_eq h ▸ Nat.pow_log_le_self 2 h

namespace SfxgeIntr

variable (s : SfxgeIntr)

def log (e : IntrEvent) : SfxgeIntr := { s with events := s.events ++ [e] }

/-- `sip->si_table[index]` -/
def handle (index : ℕ) : Option ℕ := (s.siTable.getD []).getD index none

/-- `ddi_intr_free(sip->si_table[index]); sip->si_table[index] = NULL;` -/
def freeVector (index : ℕ) : SfxgeIntr :=
  { s.log (.intrFree (s.handle index)) with siTable := s.siTable.map fun t => t.set index none }

/-- `while (--index >= low)` over the vectors, each of which is freed -/
def freeDown (low : ℕ) : ℕ → SfxgeIntr → SfxgeIntr
  | 0, s => s
  | index + 1, s => if low ≤ index then freeDown low index (s.freeVector index) else s

/-! ### The error paths of `sfxge_intr_init` -/

/-- Clear the interrupt type. -/
def fail2 : SfxgeIntr := { s with siType := .invalid }

/-- Free the handle table. -/
def fail3 : SfxgeIntr := fail2 { s with siTable := none, siTableSize := 0 }

/-- Free the interrupt handles; the lock is exited before that, and again behind it. -/
def fail4 : SfxgeIntr :=
  let s := s.log .lockExit
  let s := freeDown 0 s.siNalloc s
  let s := { s with siNalloc := 0 }
  fail3 (s.log .lockExit)

end SfxgeIntr

/-- The loop that stores the highest priority, from `index` on for `n` vectors. -/
def priLoop (ddi : Ddi) : ℕ → ℕ → SfxgeIntr → SfxgeIntr × Option ℤ
  | _, 0, s => (s, none)
  | index, n + 1, s =>
    match ddi.pri index with
    | .error rc => (s, some rc)
    | .ok pri => priLoop ddi (index + 1) n (if pri > s.siIntrPri then { s with siIntrPri := pri } else s)

/-- `sfxge_intr_init` from the DMA buffer on -/
def intrInitDma (ddi : Ddi) (s : SfxgeIntr) : SfxgeIntr × Option InitErr :=
  match sfxgeDmaBufferCreate ddi s.siMem with
  | (mem, false) => (SfxgeIntr.fail4 { s with siMem := mem }, some .dma)
  | (mem, true) =>
    match priLoop ddi 0 s.siNalloc { s with siMem := mem, siIntrPri := 0 } with
    | (s, some rc) => (s.fail4, some (.pri rc))
    | (s, none) => ({ s with siState := .initialized }, none)

/-- The vectors that are asked for: one, or with MSI-X as many as are available and wanted. -/
def vectorsWanted (ddi : Ddi) (msix : Bool) (navail : ℕ) : ℕ :=
  if msix then min navail (sfxgeRxScalePropGet ddi) else 1

/-- `sfxge_intr_init` from the handle table on -/
def intrInitAlloc (ddi : Ddi) (navail : ℕ) (s : SfxgeIntr) : SfxgeIntr × Option InitErr :=
  -- a handle is a pointer
  let s := { s with siTableSize := navail * 8, siTable := some (List.replicate navail none) }
  let s := s.log .lockEnter
  match ddi.alloc navail with
  | .error (err, nalloc) => (SfxgeIntr.fail3 { s.log .lockExit with siNalloc := nalloc }, some (allocErr err))
  | .ok granted =>
    let s := { s with
      siTable := some ((List.range granted).map some ++ List.replicate (navail - granted) none)
      siNalloc := granted }
    let s := s.log .lockExit
    if s.siNalloc = 0 then (s.fail3, some (.errno .ENOENT))
    else
      let nalloc := pow2Le s.siNalloc
      let s := s.log .lockEnter
      let s := SfxgeIntr.freeDown nalloc s.siNalloc s
      let s := s.log .lockExit
      intrInitDma ddi { s with siNalloc := nalloc }

/-- `sfxge_intr_init` -/
def sfxgeIntrInit (ddi : Ddi) (s : SfxgeIntr) : SfxgeIntr × Option InitErr :=
  match ddi.types with
  | .error err => (s, some (queryErr err))
  | .ok msix =>
    let s := { s with siType := if msix then .message else .line }
    match ddi.navail with
    | .error err => (s.fail2, some (queryErr err))
    | .ok navail =>
      if navail = 0 then (s.fail2, some (.errno .ENOENT))
      else intrInitAlloc ddi (vectorsWanted ddi msix navail) s

/-- `sfxge_intr_fini` -/
def sfxgeIntrFini (s : SfxgeIntr) : SfxgeIntr :=
  let s := { s with siState := .uninitialized, siMem := sfxgeDmaBufferDestroy s.siMem }
  let s := s.log .lockEnter
  let s := SfxgeIntr.freeDown 0 s.siNalloc s
  let s := { s with siNalloc := 0 }
  (s.log .lockExit).fail3

end Sfxge.Intr
