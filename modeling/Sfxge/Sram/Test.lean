import Sfxge.Lib.Prog
import Sfxge.Oword
import Sfxge.Efx

/-!
# Sram.Test — the SRAM test

`siena_sram_test` writes a pattern in batches, waits 1us behind each and reads the batch back, once as it is and once
negated.  What the device returns for a read is a parameter, of all that has happened before; what happens is recorded,
latest first.
-/

namespace Sfxge.Sram

open Lib Prog

/-! ### The device -/

/-- What `siena_sram_test` does to the device: it writes a row through `BUF_HALF_TBL` or reads one, waits, and sets the
mode of the buffer table or the base of a descriptor cache. -/
inductive SramEvent
  | write (row : ℕ) (qword : Qword)
  | read (row : ℕ) (qword : Qword)
  | spin (us : ℕ)
  | bufTblMode (mode : ℕ)
  | rxDcBaseAdr (row : ℕ)
  | txDcBaseAdr (row : ℕ)
  deriving DecidableEq

abbrev Trace := List SramEvent

/-- What the device returns for a read of a row. -/
abbrev Device := Trace → ℕ → Qword

/-- `efx_sram_pattern_fn_t` -/
abbrev PatternFn := ℕ → Bool → Qword

def event (e : SramEvent) : Prog Trace Errno Unit := fun es => .ret () (e :: es)

/-- `EFX_BAR_TBL_READQ` -/
def barTblReadq (dev : Device) (row : ℕ) : Prog Trace Errno Qword := fun es =>
  .ret (dev es row) (.read row (dev es row) :: es)

/-! ### The test -/

/-- The loop that reads back the rows from `rptr` on, `n` of them. -/
def readRows (dev : Device) (func : PatternFn) (negate : Bool) : ℕ → ℕ → Prog Trace Errno Unit
  | _, 0 => pure ()
  | rptr, n + 1 => do
    let verify ← barTblReadq dev rptr
    ensure (verify = func rptr negate) .EFAULT
    readRows dev func negate (rptr + 1) n

/-- The loop that writes the rows from `wptr` on, `n` of them, of which those from `rptr` on have not been read back. -/
def writeRows (dev : Device) (func : PatternFn) (negate : Bool) (rows : ℕ) : ℕ → ℕ → ℕ → Prog Trace Errno Unit
  | _, _, 0 => pure ()
  | wptr, rptr, n + 1 => do
    event (.write wptr (func wptr negate))
    if wptr - rptr < 64 ∧ wptr < rows - 1 then writeRows dev func negate rows (wptr + 1) rptr n
    else do
      event (.spin 1)
      readRows dev func negate rptr (wptr + 1 - rptr)
      writeRows dev func negate rows (wptr + 1) (wptr + 1) n

/-- `siena_sram_test`, for `rows` rows below the descriptor caches -/
def sienaSramTest (dev : Device) (func : PatternFn) (rows : ℕ) : Prog Trace Errno Unit := do
  event (.bufTblMode 0)
  event (.rxDcBaseAdr rows)
  event (.txDcBaseAdr (rows + 1))
  protect (event (.bufTblMode 1)) (do
    writeRows dev func false rows 0 0 rows
    writeRows dev func true rows 0 0 rows)
  event (.bufTblMode 1)

/-- `SIENA_SRAM_ROWS` -/
def SIENA_SRAM_ROWS : ℕ := 0x12000

/-! ### The patterns -/

def FR_AZ_SRM_DBG_REG_STEP : ℕ := 8

/-- An `efx_qword_t` of its bytes. -/
def Qword.ofBytes (u8 : ℕ → BitVec 8) : Qword := ⟨u8 3 ++ u8 2 ++ u8 1 ++ u8 0, u8 7 ++ u8 6 ++ u8 5 ++ u8 4⟩

def efxSramByteIncrementSet : PatternFn := fun row _ =>
  Qword.ofBytes fun index => BitVec.ofNat 8 (row * FR_AZ_SRM_DBG_REG_STEP + index)

def efxSramAllTheSameSet : PatternFn := fun _ negate => if negate then .ones else ⟨0, 0⟩

def efxSramBitAlternateSet : PatternFn := fun _ negate =>
  if negate then ⟨0x55555555, 0x55555555⟩ else ⟨0xaaaaaaaa, 0xaaaaaaaa⟩

def efxSramByteAlternateSet : PatternFn := fun _ negate =>
  if negate then ⟨0x00ff00ff, 0x00ff00ff⟩ else ⟨0xff00ff00, 0xff00ff00⟩

def efxSramByteChangingSet : PatternFn := fun row negate =>
  let offset := row * FR_AZ_SRM_DBG_REG_STEP
  let byte : BitVec 8 := if offset / 256 = 0 then BitVec.ofNat 8 (offset % 257 % 256)
    else BitVec.ofNat 8 ((~~~BitVec.ofNat 64 ((offset - 8) % 257)).toNat % 256)
  Qword.ofBytes fun _ => if negate then ~~~byte else byte

def efxSramBitSweepSet : PatternFn := fun row negate =>
  let bit := row * FR_AZ_SRM_DBG_REG_STEP / 8 % 64
  let one : Qword := if bit < 32 then ⟨(1 : U32) <<< bit, 0⟩ else ⟨0, (1 : U32) <<< (bit - 32)⟩
  if negate then ⟨~~~one.u0, ~~~one.u1⟩ else one

/-- `efx_pattern_type_t` -/
inductive PatternType
  | byteIncrement
  | allTheSame
  | bitAlternate
  | byteAlternate
  | byteChanging
  | bitSweep

/-- `__efx_sram_pattern_fns` -/
def efxSramPatternFns : PatternType → PatternFn
  | .byteIncrement => efxSramByteIncrementSet
  | .allTheSame => efxSramAllTheSameSet
  | .bitAlternate => efxSramBitAlternateSet
  | .byteAlternate => efxSramByteAlternateSet
  | .byteChanging => efxSramByteChangingSet
  | .bitSweep => efxSramBitSweepSet

theorem not_bytes (a b c d : BitVec 8) : ~~~a ++ ~~~b ++ ~~~c ++ ~~~d = ~~~(a ++ b ++ c ++ d) := by
  rw [BitVec.not_append, BitVec.not_append, BitVec.not_append]

/-- All the patterns but the increment are negated bit by bit. -/
theorem efxSramPatternFns_negate {type : PatternType} (h : type ≠ .byteIncrement) (row : ℕ) :
    efxSramPatternFns type row true =
      ⟨~~~(efxSramPatternFns type row false).u0, ~~~(efxSramPatternFns type row false).u1⟩ := by
  cases type with
  | byteIncrement => exact absurd rfl h
  | allTheSame => simp [efxSramPatternFns, efxSramAllTheSameSet, Qword.ones]
  | bitAlternate => simp [efxSramPatternFns, efxSramBitAlternateSet]
  | byteAlternate => simp [efxSramPatternFns, efxSramByteAlternateSet]
  | byteChanging => exact congrArg₂ Qword.mk (not_bytes _ _ _ _) (not_bytes _ _ _ _)
  | bitSweep => rfl

/-- `efx_sram_test`, on Siena and on the other families -/
def efxSramTest (dev : Device) (siena : Bool) (type : PatternType) : Prog Trace Errno Unit :=
  if siena then sienaSramTest dev (efxSramPatternFns type) (SIENA_SRAM_ROWS - 1) else pure ()

/-! ### Coverage -/

/-- The event is a write or a read of the row. -/
def SramEvent.onRow (row : ℕ) : SramEvent → Bool
  | .write r _ => r = row
  | .read r _ => r = row
  | _ => false

/-- The rows below `rptr` have been written with their pattern and then read back equal, each once; those below `wptr`
have been written, and the others not been touched. -/
def Progress (func : PatternFn) (negate : Bool) (rptr wptr : ℕ) (es : Trace) : Prop :=
  ∀ row, es.filter (SramEvent.onRow row) =
    if row < rptr then [.read row (func row negate), .write row (func row negate)]
    else if row < wptr then [.write row (func row negate)] else []

variable {dev : Device} {func : PatternFn} {negate : Bool} {rows rptr wptr n : ℕ} {es es' es0 : Trace}

theorem progress_nil (func : PatternFn) (negate : Bool) : Progress func negate 0 0 [] := fun row => by
  simp

theorem Progress.write (h : Progress func negate rptr wptr es) (hle : rptr ≤ wptr) :
    Progress func negate rptr (wptr + 1) (.write wptr (func wptr negate) :: es) := by
  intro row
  rw [List.filter_cons, h row]
  by_cases hrow : row = wptr
  · subst hrow
    simp [SramEvent.onRow, Nat.not_lt.mpr hle]
  · have hne : ¬ wptr = row := fun he => hrow he.symm
    have hlt : row < wptr + 1 ↔ row < wptr := by omega
    simp [SramEvent.onRow, hne, hlt]

theorem Progress.read (h : Progress func negate rptr wptr es) (hlt : rptr < wptr) :
    Progress func negate (rptr + 1) wptr (.read rptr (func rptr negate) :: es) := by
  intro row
  rw [List.filter_cons, h row]
  by_cases hrow : row = rptr
  · subst hrow
    simp [SramEvent.onRow, hlt]
  · have hne : ¬ rptr = row := fun he => hrow he.symm
    have hlt' : row < rptr + 1 ↔ row < rptr := by omega
    simp [SramEvent.onRow, hne, hlt']

theorem Progress.spin (h : Progress func negate rptr wptr es) (us : ℕ) :
    Progress func negate rptr wptr (.spin us :: es) :=
  fun row => by
    rw [List.filter_cons, h row]
    simp [SramEvent.onRow]

/-- **Reading back.** -/
theorem readRows_progress (h : Progress func negate rptr wptr es) (hle : rptr + n ≤ wptr) {u : Unit}
    (hr : readRows dev func negate rptr n (es ++ es0) = .ret u es') :
    ∃ es1, es' = es1 ++ es0 ∧ Progress func negate (rptr + n) wptr es1 := by
  induction n generalizing rptr es with
  | zero =>
    cases hr
    exact ⟨es, rfl, h⟩
  | succ n ih =>
    obtain ⟨verify, s1, h1, hr⟩ := bind_ret_inv hr
    cases h1
    obtain ⟨hverify, hr⟩ := ensure_bind_ret_inv hr
    have hstep := h.read (by omega)
    rw [← hverify] at hstep
    obtain ⟨es1, hes, hp⟩ := ih hstep (by omega) hr
    exact ⟨es1, hes, by rwa [show rptr + (n + 1) = rptr + 1 + n by omega]⟩

/-- **Writing.**  When the last row has been written, all have been read back. -/
theorem writeRows_progress (h : Progress func negate rptr wptr es) (hle : rptr ≤ wptr) (hrows : wptr + n = rows)
    (hend : n = 0 → rptr = rows) {u : Unit} (hr : writeRows dev func negate rows wptr rptr n (es ++ es0) = .ret u es') :
    ∃ es1, es' = es1 ++ es0 ∧ Progress func negate rows rows es1 := by
  induction n generalizing wptr rptr es with
  | zero =>
    cases hr
    rw [Nat.add_zero] at hrows
    exact ⟨es, rfl, by rwa [hend rfl, hrows] at h⟩
  | succ n ih =>
    obtain ⟨_, s1, h1, hr⟩ := bind_ret_inv hr
    cases h1
    have hw := h.write hle
    split_ifs at hr with hbatch
    · exact ih hw (by omega) (by omega) (by omega) hr
    · obtain ⟨_, s1, h1, hr⟩ := bind_ret_inv hr
      cases h1
      obtain ⟨_, s2, h2, hr⟩ := bind_ret_inv hr
      obtain ⟨es1, rfl, hread⟩ := readRows_progress (n := wptr + 1 - rptr) (hw.spin 1) (by omega) h2
      rw [show rptr + (wptr + 1 - rptr) = wptr + 1 by omega] at hread
      exact ih hread le_rfl (by omega) (by omega) hr

end Sfxge.Sram
