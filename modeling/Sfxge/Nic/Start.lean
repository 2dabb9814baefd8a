import Mathlib.Data.Finset.Basic
import Sfxge.Lib.Prog
import Sfxge.Lib.Run
import Sfxge.Nic.Restart
import Sfxge.Rx.Queue
import Sfxge.Tx.Ring

/-!
# Nic.Start — starting and stopping the adapter

`sfxge_start_locked` and `sfxge_stop_locked` with what they call, down to the parts that hold a state or a
module flag.  What hardware, firmware and the kernel answer is given: a `World` says how each call would end and
what the event queues are sent meanwhile.  An assertion that fails is recorded and changes nothing.
-/

namespace Sfxge.Nic

open Lib Prog NicState EvqState Tx.TxqState Rx.RxqState

/-! ### The adapter -/

/-- `EFX_MOD_*`: the bits of `en_mod_flags` that this driver uses. -/
inductive Mod
  | MCDI
  | PROBE
  | NVRAM
  | VPD
  | NIC
  | INTR
  | EV
  | RX
  | TX
  | PORT
  | MON
  | FILTER
  | LIC
  deriving Repr, DecidableEq

/-- `sfxge_intr_state_t` -/
inductive IntrState
  | SFXGE_INTR_UNINITIALIZED
  | SFXGE_INTR_INITIALIZED
  | SFXGE_INTR_TESTING
  | SFXGE_INTR_STARTED
  deriving Repr, DecidableEq

/-- `sfxge_sram_state_t` -/
inductive SramState
  | SFXGE_SRAM_UNINITIALIZED
  | SFXGE_SRAM_INITIALIZED
  | SFXGE_SRAM_STARTED
  deriving Repr, DecidableEq

/-- `sfxge_mac_state_t` -/
inductive MacState
  | SFXGE_MAC_UNINITIALIZED
  | SFXGE_MAC_INITIALIZED
  | SFXGE_MAC_STARTED
  deriving Repr, DecidableEq

/-- `sfxge_rx_scale_state_t` -/
inductive RxScaleState
  | SFXGE_RX_SCALE_UNINITIALIZED
  | SFXGE_RX_SCALE_INITIALIZED
  | SFXGE_RX_SCALE_STARTED
  deriving Repr, DecidableEq

/-- `sfxge_mon_state_t` -/
inductive MonState
  | SFXGE_MON_UNINITIALIZED
  | SFXGE_MON_INITIALIZED
  | SFXGE_MON_STARTED
  deriving Repr, DecidableEq

open IntrState SramState MacState RxScaleState MonState

/-- What starting and stopping has to do with in `sfxge_evq_t`. -/
structure StartEvq where
  seState : EvqState
  seCount : U32
  seException : Bool
  deriving Repr, DecidableEq

/-- The adapter.  Two ghosts: `passed` while every assertion has held, and `fromZero` while every event queue has
been started at index 0 of its ring. -/
structure Adapter where
  sState : NicState
  enModFlags : Finset Mod
  enEvQcount : ℕ
  enRxQcount : ℕ
  enTxQcount : ℕ
  epMacDrain : Bool
  siState : IntrState
  ssState : SramState
  ssCount : ℕ
  sep : ℕ → StartEvq
  smState : MacState
  srsState : RxScaleState
  srState : ℕ → Rx.RxqState
  stState : ℕ → Tx.TxqState
  monState : MonState
  passed : Bool
  fromZero : Bool

/-- `si_nalloc`, `s_family`, `sm_mac_stats_timer_reqd`, the size of `s_stp` with the event queue of those that
exist, and `EFX_EVQ_NBUFS`, `EFX_RXQ_NBUFS` and `EFX_TXQ_NBUFS` of the sizes in use. -/
structure Board where
  nalloc : ℕ
  huntington : Bool
  macStatsTimerReqd : Bool
  ntxq : ℕ
  stEvq : ℕ → Option ℕ
  evqNbufs : ℕ → ℕ
  rxqNbufs : ℕ
  txqNbufs : ℕ
  nalloc_pos : 0 < nalloc
  stEvq_lt : ∀ {index e}, stEvq index = some e → e < nalloc

/-! ### What is given -/

/-- What an event does to its queue. -/
inductive Event
  /-- `sfxge_ev_initialized` -/
  | initialized
  /-- `sfxge_ev_exception` -/
  | exception
  | other
  deriving Repr, DecidableEq

/-- How `sfxge_ev_qstart` goes: the events that each poll handles before the wait for the initialization event
ends, whether it ends because time is up, and the polls from then on. -/
structure EvqStart where
  bufTblSet : Option Errno
  qcreate : Option Errno
  qmoderate : Option Errno
  qprime : Option Errno
  polls : List (List Event)
  timeout : Bool
  running : List (List Event)

/-- How `sfxge_mac_start` goes. -/
structure MacStart where
  portInit : Option Errno
  phyCapApply : Option Errno
  pduSet : Option Errno
  fcntlSet : Option Errno
  addrSet : Option Errno
  filterApply : Option Errno
  statsPeriodic : Option Errno
  drain : Option Errno

/-- How the start of a receive or transmit queue goes. -/
structure QueueStart where
  bufTblSet : Option Errno
  qcreate : Option Errno

/-- What has become of the flush of a transmit queue when it is stopped. -/
inductive Flushed
  | pending
  | done
  | failed
  deriving Repr, DecidableEq

def Flushed.state : Flushed → Tx.TxqState
  | pending => SFXGE_TXQ_FLUSH_PENDING
  | done => SFXGE_TXQ_FLUSH_DONE
  | failed => SFXGE_TXQ_FLUSH_FAILED

/-- How a start goes; `resetAgain` is for the reset that undoes it. -/
structure World where
  reset : Option Errno
  resetAgain : Option Errno
  nicInit : Option Errno
  filterInit : Option Errno
  busEnable : Option Errno
  intrTest : Bool
  evInit : Option Errno
  evq : ℕ → EvqStart
  mac : MacStart
  rxInit : Option Errno
  toeplitzHashInit : Option Errno
  rxq : ℕ → QueueStart
  defaultRxqSet : Option Errno
  txInit : Option Errno
  txq : ℕ → QueueStart
  flushed : ℕ → Flushed
  monInit : Option Errno

/-! ### Steps of the code -/

/-- `ASSERT(c)` -/
def assert (c : Adapter → Prop) [∀ s, Decidable (c s)] : Prog Adapter Errno Unit :=
  modify fun s => { s with passed := s.passed && decide (c s) }

/-- `if (!c) { rc = e; goto fail; }` -/
def check (c : Adapter → Prop) [∀ s, Decidable (c s)] (e : Errno) : Prog Adapter Errno Unit := fun s =>
  if c s then .ret () s else .err e s

/-- The return code of a call that is given. -/
def outcome : Option Errno → Prog Adapter Errno Unit
  | none => pure ()
  | some e => fail e

/-- `(void) p()` -/
def ignore (p : Prog Adapter Errno Unit) : Prog Adapter Errno Unit := do
  let _ ← attempt p
  pure ()

/-- `en_mod_flags |= m` -/
def setMod (m : Mod) : Prog Adapter Errno Unit := modify fun s => { s with enModFlags := insert m s.enModFlags }

/-- `en_mod_flags &= ~m` -/
def clearMod (m : Mod) : Prog Adapter Errno Unit := modify fun s => { s with enModFlags := s.enModFlags.erase m }

/-- `EFSYS_ASSERT(en_mod_flags & m)` -/
def assertMod (m : Mod) : Prog Adapter Errno Unit := assert fun s => m ∈ s.enModFlags

/-- `EFSYS_ASSERT(!(en_mod_flags & m))` -/
def assertNoMod (m : Mod) : Prog Adapter Errno Unit := assert fun s => m ∉ s.enModFlags

/-- The modules that `efx_nic_reset` does not mind. -/
def keptByReset : Finset Mod := {.MCDI, .PROBE, .NVRAM, .VPD, .MON, .LIC}

def efxNicReset (rc : Option Errno) : Prog Adapter Errno Unit := do
  assertMod .PROBE
  assert fun s => s.enModFlags \ keptByReset = ∅
  check (fun s => s.enModFlags \ keptByReset = ∅) .EINVAL
  outcome rc

def efxNicInit (rc : Option Errno) : Prog Adapter Errno Unit := do
  assertMod .PROBE
  check (fun s => .NIC ∉ s.enModFlags) .EINVAL
  outcome rc
  setMod .NIC

def efxNicFini : Prog Adapter Errno Unit := do
  assertMod .PROBE
  assertMod .NIC
  assertNoMod .INTR
  assertNoMod .EV
  assertNoMod .RX
  assertNoMod .TX
  clearMod .NIC

def efxFilterInit (rc : Option Errno) : Prog Adapter Errno Unit := do
  assertMod .PROBE
  assertNoMod .FILTER
  protect (clearMod .FILTER) (outcome rc)
  setMod .FILTER

def efxFilterFini : Prog Adapter Errno Unit := do
  assertMod .PROBE
  assertMod .FILTER
  clearMod .FILTER

/-! ### SRAM and interrupts -/

def sfxgeSramStart : Prog Adapter Errno Unit := do
  assert fun s => s.ssState = SFXGE_SRAM_INITIALIZED
  assert fun s => s.ssCount = 0
  modify fun s => { s with ssState := SFXGE_SRAM_STARTED }

def sfxgeSramStop : Prog Adapter Errno Unit := do
  assert fun s => s.ssState = SFXGE_SRAM_STARTED
  assert fun s => s.ssCount = 0
  modify fun s => { s with ssState := SFXGE_SRAM_INITIALIZED }

def sfxgeSramBufTblSet (n : ℕ) (rc : Option Errno) : Prog Adapter Errno Unit := do
  assert fun s => s.ssState = SFXGE_SRAM_STARTED
  outcome rc
  modify fun s => { s with ssCount := s.ssCount + n }

def sfxgeSramBufTblClear (n : ℕ) : Prog Adapter Errno Unit := do
  assert fun s => s.ssState = SFXGE_SRAM_STARTED
  assert fun s => n ≤ s.ssCount
  modify fun s => { s with ssCount := s.ssCount - n }

/-- `eio_init` returns 0 for every family. -/
def efxIntrInit : Prog Adapter Errno Unit := do
  assertMod .NIC
  check (fun s => .INTR ∉ s.enModFlags) .EINVAL
  setMod .INTR

def efxIntrFini : Prog Adapter Errno Unit := do
  assertMod .NIC
  assertMod .INTR
  clearMod .INTR

/-- The interrupts are tested but on Huntington. -/
def sfxgeIntrNicEnable (b : Board) (w : World) : Prog Adapter Errno Unit := do
  efxIntrInit
  protect efxIntrFini (check (fun _ => b.huntington = true ∨ w.intrTest = true) .ETIMEDOUT)

def setIntr (st : IntrState) : Prog Adapter Errno Unit := modify fun s => { s with siState := st }

def sfxgeIntrStart (b : Board) (w : World) : Prog Adapter Errno Unit := do
  assert fun s => s.siState = SFXGE_INTR_INITIALIZED
  protect (setIntr SFXGE_INTR_INITIALIZED) do
    outcome w.busEnable
    setIntr SFXGE_INTR_TESTING
    sfxgeIntrNicEnable b w
    setIntr SFXGE_INTR_STARTED

def sfxgeIntrStop : Prog Adapter Errno Unit := do
  assert fun s => s.siState = SFXGE_INTR_STARTED
  setIntr SFXGE_INTR_INITIALIZED
  efxIntrFini

/-! ### Event queues -/

def efxEvInit (rc : Option Errno) : Prog Adapter Errno Unit := do
  assertMod .INTR
  protect (clearMod .EV) do
    check (fun s => .EV ∉ s.enModFlags) .EINVAL
    assert fun s => s.enEvQcount = 0
    outcome rc
  setMod .EV

def efxEvFini : Prog Adapter Errno Unit := do
  assertMod .INTR
  assertMod .EV
  assertNoMod .RX
  assertNoMod .TX
  assert fun s => s.enEvQcount = 0
  clearMod .EV

def efxEvQcreate (rc : Option Errno) : Prog Adapter Errno Unit := do
  assertMod .EV
  outcome rc
  modify fun s => { s with enEvQcount := s.enEvQcount + 1 }

def efxEvQdestroy : Prog Adapter Errno Unit := do
  assert fun s => s.enEvQcount ≠ 0
  modify fun s => { s with enEvQcount := s.enEvQcount - 1 }

def onEvq (index : ℕ) (f : StartEvq → StartEvq) : Prog Adapter Errno Unit :=
  modify fun s => { s with sep := Function.update s.sep index (f (s.sep index)) }

def StartEvq.goto (st : EvqState) (sep : StartEvq) : StartEvq := { sep with seState := st }

/-- `efx_ev_qprime` in `sfxge_ev_qstart`. -/
def efxEvQprime (index : ℕ) (rc : Option Errno) : Prog Adapter Errno Unit := do
  modify fun s => { s with fromZero := s.fromZero && decide ((s.sep index).seCount = 0) }
  check (fun s => .INTR ∈ s.enModFlags) .EINVAL
  outcome rc

/-- A handler of an event queue. -/
def StartEvq.handle (sep : StartEvq) : Event → StartEvq
  | .initialized => sep.goto SFXGE_EVQ_STARTED
  | .exception => { sep with seException := true }
  | .other => sep

/-- `sfxge_ev_qpoll`, which handles `events`; the handlers' assertions hold whenever it calls them. -/
def StartEvq.qpoll (events : List Event) (sep : StartEvq) : StartEvq :=
  if sep.seState ≠ SFXGE_EVQ_STARTING ∧ sep.seState ≠ SFXGE_EVQ_STARTED then sep
  else { events.foldl handle sep with seCount := sep.seCount + BitVec.ofNat 32 events.length }

def StartEvq.polls (polls : List (List Event)) (sep : StartEvq) : StartEvq :=
  polls.foldl (fun sep events => sep.qpoll events) sep

def sfxgeEvQstart (b : Board) (w : World) (index : ℕ) : Prog Adapter Errno Unit := do
  assert fun s => (s.sep index).seState = SFXGE_EVQ_INITIALIZED
  sfxgeSramBufTblSet (b.evqNbufs index) (w.evq index).bufTblSet
  protect (sfxgeSramBufTblClear (b.evqNbufs index)) do
    efxEvQcreate (w.evq index).qcreate
    protect efxEvQdestroy do
      outcome (w.evq index).qmoderate
      check (fun s => s.siState = SFXGE_INTR_STARTED) .EINVAL
      onEvq index (StartEvq.goto SFXGE_EVQ_STARTING)
      protect (onEvq index (StartEvq.goto SFXGE_EVQ_INITIALIZED)) do
        efxEvQprime index (w.evq index).qprime
        -- in `cv_timedwait`
        onEvq index (StartEvq.polls (w.evq index).polls)
        check (fun s => (w.evq index).timeout = false ∧ (s.sep index).seState = SFXGE_EVQ_STARTED) .ETIMEDOUT
  -- until the start returns
  onEvq index (StartEvq.polls (w.evq index).running)

def StartEvq.stopped : StartEvq := ⟨SFXGE_EVQ_INITIALIZED, 0, false⟩

def sfxgeEvQstop (b : Board) (index : ℕ) : Prog Adapter Errno Unit := do
  assert fun s => (s.sep index).seState = SFXGE_EVQ_STARTED
  onEvq index fun _ => .stopped
  efxEvQdestroy
  sfxgeSramBufTblClear (b.evqNbufs index)

def sfxgeEvStart (b : Board) (w : World) : Prog Adapter Errno Unit := do
  assert fun s => s.siState = SFXGE_INTR_STARTED
  efxEvInit w.evInit
  protect efxEvFini (climb (sfxgeEvQstart b w) (sfxgeEvQstop b) b.nalloc)

def sfxgeEvStop (b : Board) : Prog Adapter Errno Unit := do
  assert fun s => s.siState = SFXGE_INTR_STARTED
  descend (sfxgeEvQstop b) b.nalloc
  efxEvFini

/-! ### MAC -/

def efxPortInit (rc : Option Errno) : Prog Adapter Errno Unit := do
  assertMod .PROBE
  assertMod .NIC
  protect (clearMod .PORT) do
    check (fun s => .PORT ∉ s.enModFlags) .EINVAL
    setMod .PORT
    modify fun s => { s with epMacDrain := true }
    outcome rc

def efxPortFini : Prog Adapter Errno Unit := do
  assertMod .PROBE
  assertMod .NIC
  assertMod .PORT
  assert fun s => s.epMacDrain = true
  modify fun s => { s with epMacDrain := false }
  clearMod .PORT

/-- A call of `efx_mac.c` or `efx_phy.c` that sets something in hardware. -/
def efxMac (rc : Option Errno) : Prog Adapter Errno Unit := do
  assertMod .PORT
  outcome rc

/-- `efx_mac_drain`, where `emo_reconfigure` would return `rc`. -/
def efxMacDrain (enabled : Bool) (rc : Option Errno) : Prog Adapter Errno Unit := do
  assertMod .PORT
  let s ← get
  if s.epMacDrain = enabled then pure ()
  else do
    modify fun s => { s with epMacDrain := enabled }
    outcome rc

/-- `sfxge_mac_filter_apply` -/
def sfxgeMacFilterApply (rc : Option Errno) : Prog Adapter Errno Unit := do
  let s ← get
  when (s.smState = SFXGE_MAC_STARTED) (efxMac rc)

def sfxgeMacStart (b : Board) (w : World) : Prog Adapter Errno Unit := do
  assert fun s => s.smState = SFXGE_MAC_INITIALIZED
  efxPortInit w.mac.portInit
  protect efxPortFini do
    efxMac w.mac.phyCapApply
    efxMac w.mac.pduSet
    efxMac w.mac.fcntlSet
    efxMac w.mac.addrSet
    sfxgeMacFilterApply w.mac.filterApply
    when (b.macStatsTimerReqd = false) (efxMac w.mac.statsPeriodic)
    protect (ignore (efxMac none)) (efxMacDrain false w.mac.drain)
  modify fun s => { s with smState := SFXGE_MAC_STARTED }

def sfxgeMacStop (b : Board) : Prog Adapter Errno Unit := do
  assert fun s => s.smState = SFXGE_MAC_STARTED
  modify fun s => { s with smState := SFXGE_MAC_INITIALIZED }
  when (b.macStatsTimerReqd = false) (ignore (efxMac none))
  ignore (efxMacDrain true none)
  efxPortFini

/-! ### Receive and transmit queues -/

def efxRxInit (rc : Option Errno) : Prog Adapter Errno Unit := do
  assertMod .NIC
  protect (clearMod .RX) do
    check (fun s => .EV ∈ s.enModFlags) .EINVAL
    check (fun s => .RX ∉ s.enModFlags) .EINVAL
    outcome rc
  setMod .RX

def efxRxFini : Prog Adapter Errno Unit := do
  assertMod .NIC
  assertMod .RX
  assert fun s => s.enRxQcount = 0
  clearMod .RX

def efxRxQcreate (rc : Option Errno) : Prog Adapter Errno Unit := do
  assertMod .RX
  outcome rc
  modify fun s => { s with enRxQcount := s.enRxQcount + 1 }

def efxRxQdestroy : Prog Adapter Errno Unit := do
  assert fun s => s.enRxQcount ≠ 0
  modify fun s => { s with enRxQcount := s.enRxQcount - 1 }

def sfxgeRxScaleStart (rc : Option Errno) : Prog Adapter Errno Unit := do
  assert fun s => s.srsState = SFXGE_RX_SCALE_INITIALIZED
  outcome rc
  modify fun s => { s with srsState := SFXGE_RX_SCALE_STARTED }

def sfxgeRxScaleStop : Prog Adapter Errno Unit := do
  assert fun s => s.srsState = SFXGE_RX_SCALE_STARTED
  modify fun s => { s with srsState := SFXGE_RX_SCALE_INITIALIZED }

def setRxq (index : ℕ) (st : Rx.RxqState) : Prog Adapter Errno Unit :=
  modify fun s => { s with srState := Function.update s.srState index st }

def sfxgeRxQstart (b : Board) (w : World) (index : ℕ) : Prog Adapter Errno Unit := do
  assert fun s => s.srState index = SFXGE_RXQ_INITIALIZED
  assert fun s => (s.sep index).seState = SFXGE_EVQ_STARTED
  sfxgeSramBufTblSet b.rxqNbufs (w.rxq index).bufTblSet
  protect (sfxgeSramBufTblClear b.rxqNbufs) (efxRxQcreate (w.rxq index).qcreate)
  setRxq index SFXGE_RXQ_STARTED

def sfxgeRxQstop (b : Board) (index : ℕ) : Prog Adapter Errno Unit := do
  assert fun s => s.srState index = SFXGE_RXQ_STARTED
  setRxq index SFXGE_RXQ_INITIALIZED
  efxRxQdestroy
  sfxgeSramBufTblClear b.rxqNbufs

def sfxgeRxStart (b : Board) (w : World) : Prog Adapter Errno Unit := do
  efxRxInit w.rxInit
  protect efxRxFini do
    sfxgeRxScaleStart w.toeplitzHashInit
    protect sfxgeRxScaleStop do
      climb (sfxgeRxQstart b w) (sfxgeRxQstop b) b.nalloc
      protect (descend (sfxgeRxQstop b) b.nalloc) do
        assert fun s => s.srState 0 = SFXGE_RXQ_STARTED
        assert fun s => s.srsState = SFXGE_RX_SCALE_STARTED
        efxMac w.defaultRxqSet

def sfxgeRxStop (b : Board) : Prog Adapter Errno Unit := do
  -- `efx_mac_filter_default_rxq_clear`
  assertMod .PORT
  descend (sfxgeRxQstop b) b.nalloc
  sfxgeRxScaleStop
  efxRxFini

def efxTxInit (rc : Option Errno) : Prog Adapter Errno Unit := do
  assertMod .NIC
  protect (clearMod .TX) do
    check (fun s => .EV ∈ s.enModFlags) .EINVAL
    check (fun s => .TX ∉ s.enModFlags) .EINVAL
    assert fun s => s.enTxQcount = 0
    outcome rc
  setMod .TX

def efxTxFini : Prog Adapter Errno Unit := do
  assertMod .NIC
  assertMod .TX
  assert fun s => s.enTxQcount = 0
  clearMod .TX

def efxTxQcreate (rc : Option Errno) : Prog Adapter Errno Unit := do
  assertMod .TX
  outcome rc
  modify fun s => { s with enTxQcount := s.enTxQcount + 1 }

def efxTxQdestroy : Prog Adapter Errno Unit := do
  assert fun s => s.enTxQcount ≠ 0
  modify fun s => { s with enTxQcount := s.enTxQcount - 1 }

def setTxq (index : ℕ) (st : Tx.TxqState) : Prog Adapter Errno Unit :=
  modify fun s => { s with stState := Function.update s.stState index st }

/-- `sfxge_tx_qstart`, where there is a queue `index`. -/
def sfxgeTxQstart (b : Board) (w : World) (index : ℕ) : Prog Adapter Errno Unit :=
  match b.stEvq index with
  | none => pure ()
  | some evq => do
    assert fun s => s.stState index = SFXGE_TXQ_INITIALIZED
    assert fun s => (s.sep evq).seState = SFXGE_EVQ_STARTED
    sfxgeSramBufTblSet b.txqNbufs (w.txq index).bufTblSet
    protect (sfxgeSramBufTblClear b.txqNbufs) (efxTxQcreate (w.txq index).qcreate)
    setTxq index SFXGE_TXQ_STARTED

/-- `sfxge_tx_qflush`, where there is a queue `index`, with what becomes of the flush. -/
def sfxgeTxQflush (b : Board) (flushed : ℕ → Flushed) (index : ℕ) : Prog Adapter Errno Unit := do
  let s ← get
  when (b.stEvq index ≠ none ∧ s.stState index = SFXGE_TXQ_STARTED) (setTxq index (flushed index).state)

/-- `sfxge_tx_qstop`, where there is a queue `index`. -/
def sfxgeTxQstop (b : Board) (index : ℕ) : Prog Adapter Errno Unit := do
  let s ← get
  when (b.stEvq index ≠ none ∧ s.stState index ≠ SFXGE_TXQ_INITIALIZED) do
    assert fun s => (s.stState index).Flushing
    efxTxQdestroy
    sfxgeSramBufTblClear b.txqNbufs
    setTxq index SFXGE_TXQ_INITIALIZED

def sfxgeTxStop (b : Board) (flushed : ℕ → Flushed) : Prog Adapter Errno Unit := do
  descend (sfxgeTxQflush b flushed) b.ntxq
  descend (sfxgeTxQstop b) b.ntxq
  efxTxFini

def sfxgeTxStart (b : Board) (w : World) : Prog Adapter Errno Unit := do
  efxTxInit w.txInit
  protect (sfxgeTxStop b w.flushed) (climb (sfxgeTxQstart b w) (fun _ => pure ()) b.ntxq)

/-! ### The adapter as a whole -/

def efxMonInit (rc : Option Errno) : Prog Adapter Errno Unit := do
  assertMod .PROBE
  check (fun s => .MON ∉ s.enModFlags) .EINVAL
  setMod .MON
  protect (clearMod .MON) (outcome rc)

def efxMonFini : Prog Adapter Errno Unit := do
  assertMod .PROBE
  assertMod .MON
  clearMod .MON

def sfxgeMonStart (w : World) : Prog Adapter Errno Unit := do
  assert fun s => s.monState = SFXGE_MON_INITIALIZED
  efxMonInit w.monInit
  modify fun s => { s with monState := SFXGE_MON_STARTED }

def sfxgeMonStop : Prog Adapter Errno Unit := do
  assert fun s => s.monState = SFXGE_MON_STARTED
  modify fun s => { s with monState := SFXGE_MON_INITIALIZED }
  efxMonFini

def setNic (st : NicState) : Prog Adapter Errno Unit := modify fun s => { s with sState := st }

/-- `sfxge_start_locked` from `efx_nic_init` on. -/
def startUp (b : Board) (w : World) : Prog Adapter Errno Unit := do
  efxNicInit w.nicInit
  protect efxNicFini do
    efxFilterInit w.filterInit
    protect efxFilterFini do
      sfxgeSramStart
      protect sfxgeSramStop do
        sfxgeIntrStart b w
        protect sfxgeIntrStop do
          sfxgeEvStart b w
          protect (sfxgeEvStop b) do
            sfxgeMacStart b w
            protect (sfxgeMacStop b) do
              sfxgeRxStart b w
              protect (sfxgeRxStop b) do
                sfxgeTxStart b w
                protect (sfxgeTxStop b w.flushed) (sfxgeMonStart w)

def sfxgeStartLocked (b : Board) (w : World) : Prog Adapter Errno Unit := do
  let s ← get
  if s.sState = SFXGE_STARTED then pure ()
  else do
    check (fun s => s.sState = SFXGE_REGISTERED) .EINVAL
    setNic SFXGE_STARTING
    protect (assert (fun s => s.sState = SFXGE_STARTING) >>= fun _ => setNic SFXGE_REGISTERED) do
      efxNicReset w.reset
      protect (ignore (efxNicReset w.resetAgain)) (startUp b w)
      assert fun s => s.sState = SFXGE_STARTING
      setNic SFXGE_STARTED

def sfxgeStopLocked (b : Board) (flushed : ℕ → Flushed) : Prog Adapter Errno Unit := do
  let s ← get
  if s.sState ≠ SFXGE_STARTED then pure ()
  else do
    setNic SFXGE_STOPPING
    sfxgeMonStop
    sfxgeTxStop b flushed
    sfxgeRxStop b
    sfxgeMacStop b
    sfxgeEvStop b
    sfxgeIntrStop
    sfxgeSramStop
    efxFilterFini
    efxNicFini
    ignore (efxNicReset none)
    assert fun s => s.sState = SFXGE_STOPPING
    setNic SFXGE_REGISTERED

/-! ### Runs -/

/-- The modules of an adapter that has been attached. -/
def attached : Finset Mod := {.MCDI, .PROBE, .NVRAM, .VPD}

def Adapter.init : Adapter where
  sState := SFXGE_REGISTERED
  enModFlags := attached
  enEvQcount := 0
  enRxQcount := 0
  enTxQcount := 0
  epMacDrain := false
  siState := SFXGE_INTR_INITIALIZED
  ssState := SFXGE_SRAM_INITIALIZED
  ssCount := 0
  sep _ := .stopped
  smState := SFXGE_MAC_INITIALIZED
  srsState := SFXGE_RX_SCALE_INITIALIZED
  srState _ := SFXGE_RXQ_INITIALIZED
  stState _ := SFXGE_TXQ_INITIALIZED
  monState := SFXGE_MON_INITIALIZED
  passed := true
  fromZero := true

inductive StartOp
  | start (w : World)
  | stop (flushed : ℕ → Flushed)
  /-- Event queue `index` is polled, and handles `events`. -/
  | poll (index : ℕ) (events : List Event)

/-- The state that a call leaves, whatever it returns. -/
def after (p : Prog Adapter Errno Unit) (s : Adapter) : Option Adapter :=
  match p s with
  | .ret _ s' | .err _ s' => some s'
  | .fault | .spin => none

def startStep (b : Board) : StartOp → Adapter → Option Adapter
  | .start w, s => after (sfxgeStartLocked b w) s
  | .stop flushed, s => after (sfxgeStopLocked b flushed) s
  | .poll index events, s => if index < b.nalloc then after (onEvq index (StartEvq.qpoll events)) s else none

/-- What a full stop leaves. -/
structure Stopped (b : Board) (s : Adapter) : Prop where
  flags : s.enModFlags = attached
  intr : s.siState = SFXGE_INTR_INITIALIZED
  sram : s.ssState = SFXGE_SRAM_INITIALIZED
  count : s.ssCount = 0
  evq : ∀ i < b.nalloc, s.sep i = .stopped
  mac : s.smState = SFXGE_MAC_INITIALIZED
  scale : s.srsState = SFXGE_RX_SCALE_INITIALIZED
  rxq : ∀ i < b.nalloc, s.srState i = SFXGE_RXQ_INITIALIZED
  txq : ∀ i < b.ntxq, b.stEvq i ≠ none → s.stState i = SFXGE_TXQ_INITIALIZED
  mon : s.monState = SFXGE_MON_INITIALIZED

/-- **All or nothing.**  Whatever leaves the adapter `SFXGE_REGISTERED` leaves it as a full stop does, no
assertion fails, and event queues are polled from ring index 0. -/
structure AllOrNothing (b : Board) (s : Adapter) : Prop where
  passed : s.passed = true
  fromZero : s.fromZero = true
  stopped : s.sState = SFXGE_REGISTERED → Stopped b s

instance (b : Board) (s : Adapter) : Decidable (Stopped b s) :=
  decidable_of_iff (s.enModFlags = attached ∧ s.siState = SFXGE_INTR_INITIALIZED ∧
      s.ssState = SFXGE_SRAM_INITIALIZED ∧ s.ssCount = 0 ∧ (∀ i < b.nalloc, s.sep i = .stopped) ∧
      s.smState = SFXGE_MAC_INITIALIZED ∧ s.srsState = SFXGE_RX_SCALE_INITIALIZED ∧
      (∀ i < b.nalloc, s.srState i = SFXGE_RXQ_INITIALIZED) ∧
      (∀ i < b.ntxq, b.stEvq i ≠ none → s.stState i = SFXGE_TXQ_INITIALIZED) ∧ s.monState = SFXGE_MON_INITIALIZED)
    ⟨fun ⟨h1, h2, h3, h4, h5, h6, h7, h8, h9, h10⟩ => ⟨h1, h2, h3, h4, h5, h6, h7, h8, h9, h10⟩,
      fun ⟨h1, h2, h3, h4, h5, h6, h7, h8, h9, h10⟩ => ⟨h1, h2, h3, h4, h5, h6, h7, h8, h9, h10⟩⟩

instance (b : Board) (s : Adapter) : Decidable (AllOrNothing b s) :=
  decidable_of_iff (s.passed = true ∧ s.fromZero = true ∧ (s.sState = SFXGE_REGISTERED → Stopped b s))
    ⟨fun ⟨h1, h2, h3⟩ => ⟨h1, h2, h3⟩, fun ⟨h1, h2, h3⟩ => ⟨h1, h2, h3⟩⟩

/-! ### What decides -/

/-- The event queue gets as far as the wait for its initialization event. -/
def EvqStart.Waits (e : EvqStart) : Prop :=
  e.bufTblSet = none ∧ e.qcreate = none ∧ e.qmoderate = none ∧ e.qprime = none

/-- The event queue starts. -/
def EvqStart.Starts (e : EvqStart) : Prop := e.Waits ∧ e.timeout = false ∧ .initialized ∈ e.polls.flatten

/-- While the event queue waited it has handled nothing: no exception, and no event, or 2³² and none else. -/
def EvqStart.Unpolled (e : EvqStart) : Prop :=
  .exception ∉ e.polls.flatten ∧ BitVec.ofNat 32 e.polls.flatten.length = 0#32

/-- The start gets as far as the event queues. -/
def World.ReachesEvqs (b : Board) (w : World) : Prop :=
  w.reset = none ∧ w.nicInit = none ∧ w.filterInit = none ∧ w.busEnable = none ∧
    (b.huntington = true ∨ w.intrTest = true) ∧ w.evInit = none

/-- `sfxge_mac_start` gets as far as the last `efx_mac_drain`. -/
def MacStart.ReachesDrain (b : Board) (m : MacStart) : Prop :=
  m.portInit = none ∧ m.phyCapApply = none ∧ m.pduSet = none ∧ m.fcntlSet = none ∧ m.addrSet = none ∧
    (b.macStatsTimerReqd = false → m.statsPeriodic = none)

/-- No event queue that has handled events times out, and the MAC is not found failing when it is to leave
drain. -/
def World.Kept (b : Board) (w : World) : Prop :=
  w.ReachesEvqs b →
    (∀ i < b.nalloc, (∀ j < i, (w.evq j).Starts) → (w.evq i).Waits → ¬ (w.evq i).Starts → (w.evq i).Unpolled) ∧
    ((∀ i < b.nalloc, (w.evq i).Starts) → w.mac.ReachesDrain b → w.mac.drain = none)

/-- The condition on a step. -/
def KeptStep (b : Board) : StartOp → Adapter → Prop
  | .start w, s => s.sState = SFXGE_REGISTERED → w.Kept b
  | _, _ => True

end Sfxge.Nic
