import Sfxge.Lib.Total
import Sfxge.Filter.Ef10Runs

/-!
# Filter.Ef10Reconfigure — the automatic filters of an EF10 NIC

`ef10_filter_reconfigure` of `ef10_filter.c` and its callers in `ef10_mac.c`.  The filters of the last call are marked
`AUTO_OLD`; those that this call asks for are inserted, which takes the mark off one that is there; what keeps the mark is
removed.  The firmware's answers are a stream, one for each add or delete.
-/

namespace Sfxge.Filter.Ef10

open Lib Lib.Prog Errno

def EFX_FILTER_SPEC_RSS_CONTEXT_DEFAULT : U32 := 0xffffffff

def EFX_FILTER_SPEC_VID_UNSPEC : BitVec 16 := 0xffff

/-- `EFX_MAC_MULTICAST_LIST_MAX + 1` -/
def EFX_EF10_FILTER_MULTICAST_FILTERS_MAX : ℕ := 257

def MC_CMD_GET_WORKAROUNDS_OUT_BUG26807 : U32 := 0x40

/-! ### Specs -/

/-- `efx_filter_spec_init_rx`, with the index of the queue -/
def efxFilterSpecInitRx (priority : BitVec 2) (flags : BitVec 6) (erIndex : ℕ) : FilterSpec :=
  { FilterSpec.zero with
    priority
    flags := .ofNat 6 EFX_FILTER_FLAG_RX ||| flags
    rssContext := EFX_FILTER_SPEC_RSS_CONTEXT_DEFAULT
    dmaqId := .ofNat 12 erIndex }

/-- `efx_filter_spec_set_eth_local` with an address -/
def efxFilterSpecSetEthLocal (spec : FilterSpec) (vid : BitVec 16) (addr : MacAddr) : FilterSpec :=
  let spec :=
    if vid ≠ EFX_FILTER_SPEC_VID_UNSPEC then
      { spec with matchFlags := spec.matchFlags ||| EFX_FILTER_MATCH_OUTER_VID, outerVid := vid }
    else spec
  { spec with matchFlags := spec.matchFlags ||| EFX_FILTER_MATCH_LOC_MAC, locMac := addr }

/-- `efx_filter_spec_set_uc_def` -/
def efxFilterSpecSetUcDef (spec : FilterSpec) : FilterSpec :=
  { spec with matchFlags := spec.matchFlags ||| EFX_FILTER_MATCH_LOC_MAC_IG }

/-- `efx_filter_spec_set_mc_def` -/
def efxFilterSpecSetMcDef (spec : FilterSpec) : FilterSpec :=
  { spec with
    matchFlags := spec.matchFlags ||| EFX_FILTER_MATCH_LOC_MAC_IG
    locMac := Function.update spec.locMac 0 1 }

/-- `EFX_MAC_BROADCAST_ADDR_SET` -/
def broadcastAddr : MacAddr := fun _ => 0xff

/-! ### The table and its lists -/

/-- `ef10_filter_table_t` whole, `enc_bug26807_workaround`, and how many requests have been answered. -/
structure Filters where
  nic : Nic
  defaultRxq : Option ℕ
  usingRss : Bool
  unicst : List Row
  mulcst : List Row
  usingAllMulcst : Bool
  bug26807Workaround : Bool
  asked : ℕ

/-- `ef10_filter_init` -/
def filtersInit (rssContext : U32) : Filters := ⟨ef10FilterInit rssContext, none, false, [], [], false, false, 0⟩

/-- What one add or delete meets: its allocation, and the firmware. -/
structure Reply where
  alloc : Bool
  out : FilterOpOut

abbrev Firmware := ℕ → Reply

/-- What the MAC code passes on: `ep_mac_addr`, the modes and the multicast list. -/
structure Config where
  macAddr : MacAddr
  allUnicst : Bool
  mulcst : Bool
  allMulcst : Bool
  brdcst : Bool
  addrs : List MacAddr

def onNic {α : Type} (p : Prog Nic Errno α) : Prog Filters Errno α := zoom Filters.nic (fun s nic => { s with nic }) p

variable (fw : Firmware)

/-- `ef10_filter_add_internal(enp, &spec, B_TRUE, &filter_id)` -/
def addAuto (spec : FilterSpec) : Prog Filters Errno Row := do
  let s ← get
  modify fun s => { s with asked := s.asked + 1 }
  onNic (ef10FilterAddInternal spec true (fw s.asked).alloc (fw s.asked).out)

/-- `(void) ef10_filter_delete_internal(enp, filter_id)` -/
def deleteAuto (i : Row) : Prog Filters Errno Unit := do
  let s ← get
  modify fun s => { s with asked := s.asked + 1 }
  let _ ← attempt (onNic (ef10FilterDeleteInternal (.ofNat 32 i.val) (fw s.asked).out))

/-- `efx_filter_spec_init_rx(&spec, EFX_FILTER_PRI_AUTO, filter_flags, eftp->eft_default_rxq)` -/
def initAuto (filterFlags : BitVec 6) : Prog Filters Errno FilterSpec := do
  let s ← get
  match s.defaultRxq with
  | none => stuck
  | some erIndex => pure (efxFilterSpecInitRx EFX_FILTER_PRI_AUTO filterFlags erIndex)

/-! ### Inserting -/

def ef10FilterInsertUnicast (addr : MacAddr) (filterFlags : BitVec 6) : Prog Filters Errno Unit := do
  let spec ← initAuto filterFlags
  let i ← addAuto fw (efxFilterSpecSetEthLocal spec EFX_FILTER_SPEC_VID_UNSPEC addr)
  modify fun s => { s with unicst := s.unicst ++ [i] }

def ef10FilterInsertAllUnicast (filterFlags : BitVec 6) : Prog Filters Errno Unit := do
  let spec ← initAuto filterFlags
  let i ← addAuto fw (efxFilterSpecSetUcDef spec)
  modify fun s => { s with unicst := s.unicst ++ [i] }

/-- The `rollback` label: what was inserted is removed, the last first. -/
def rollBack (rows : List Row) (rc : Errno) : Prog Filters Errno (List Row) := do
  forEach (deleteAuto fw) rows.reverse
  modify fun s => { s with mulcst := [] }
  fail rc

/-- The loop of `ef10_filter_insert_multicast_list`, and its step for the broadcast address, which is another round. -/
def insertAddrs (filterFlags : BitVec 6) (rollback : Bool) : List MacAddr → List Row → Prog Filters Errno (List Row)
  | [], rows => pure rows
  | addr :: addrs, rows => do
    let spec ← initAuto filterFlags
    match ← attempt (addAuto fw (efxFilterSpecSetEthLocal spec EFX_FILTER_SPEC_VID_UNSPEC addr)) with
    | .ok i => insertAddrs filterFlags rollback addrs (rows ++ [i])
    | .error rc =>
      -- only stop upon failure if told to roll back
      if rollback then rollBack fw rows rc else insertAddrs filterFlags rollback addrs rows

def ef10FilterInsertMulticastList (mulcst brdcst : Bool) (addrs : List MacAddr) (filterFlags : BitVec 6)
    (rollback : Bool) : Prog Filters Errno Unit := do
  let addrs := if mulcst then addrs else []
  ensure (¬ addrs.length + (if brdcst then 1 else 0) > EFX_EF10_FILTER_MULTICAST_FILTERS_MAX) EINVAL
  let rows ← insertAddrs fw filterFlags rollback (addrs ++ if brdcst then [broadcastAddr] else []) []
  modify fun s => { s with mulcst := rows, usingAllMulcst := false }

def ef10FilterInsertAllMulticast (filterFlags : BitVec 6) : Prog Filters Errno Unit := do
  let spec ← initAuto filterFlags
  let i ← addAuto fw (efxFilterSpecSetMcDef spec)
  modify fun s => { s with mulcst := [i], usingAllMulcst := true }

/-! ### Reconfigure -/

def ef10FilterRemoveOld : Prog Filters Errno Unit :=
  forEach (fun i => do
    let s ← get
    when ((s.nic.entry i).autoOld = true) (deleteAuto fw i)) allRows

/-- `ef10_filter_get_workarounds`; `answer` is that of `efx_mcdi_get_workarounds`. -/
def ef10FilterGetWorkarounds (answer : Except Errno (U32 × U32)) : Prog Filters Errno Unit :=
  match answer with
  | .ok (implemented, enabled) => modify fun s =>
      { s with bug26807Workaround := implemented &&& enabled &&& MC_CMD_GET_WORKAROUNDS_OUT_BUG26807 ≠ 0 }
  | .error rc => if rc = ENOTSUP then modify fun s => { s with bug26807Workaround := false } else fail rc

/-- Mark old filters which may need to be removed. -/
def markOld (rows : List Row) : Prog Filters Errno Unit := forEach (fun i => onNic (ef10FilterSetEntryAutoOld i)) rows

/-- Insert or renew unicast filters; tells whether the unknown unicast filter was tried and refused. -/
def renewUnicast (c : Config) (filterFlags : BitVec 6) : Prog Filters Errno Bool := do
  modify fun s => { s with unicst := [] }
  match ← attempt (ef10FilterInsertUnicast fw c.macAddr filterFlags), c.allUnicst with
  | .ok (), false => pure false
  | .ok (), true =>
    match ← attempt (ef10FilterInsertAllUnicast fw filterFlags) with
    | .ok () => pure false
    | .error _ => pure true
  | .error rc, _ =>
    match ← attempt (ef10FilterInsertAllUnicast fw filterFlags) with
    | .ok () => pure false
    | .error _ => fail rc

/-- Where the list could not be inserted: the unknown multicast filter instead, or as much of the list as will go. -/
def renewAllMulticast (c : Config) (filterFlags : BitVec 6) : Prog Filters Errno Bool := do
  let s ← get
  when (s.usingAllMulcst = false ∧ s.bug26807Workaround = true) (ef10FilterRemoveOld fw)
  match ← attempt (ef10FilterInsertAllMulticast fw filterFlags) with
  | .ok () => pure false
  | .error _ => do
    ef10FilterInsertMulticastList fw c.mulcst c.brdcst c.addrs filterFlags false
    pure false

/-- Insert or renew multicast filters; tells whether the unknown multicast filter was asked for and refused. -/
def renewMulticast (c : Config) (filterFlags : BitVec 6) : Prog Filters Errno Bool := do
  let s ← get
  -- to avoid duplicate delivery where filters are chained
  when (s.usingAllMulcst ≠ c.allMulcst ∧ s.bug26807Workaround = true) (ef10FilterRemoveOld fw)
  if c.allMulcst then
    match ← attempt (ef10FilterInsertAllMulticast fw filterFlags) with
    | .ok () => pure false
    | .error _ => do
      ef10FilterInsertMulticastList fw true c.brdcst c.addrs filterFlags false
      pure true
  else
    match ← attempt (ef10FilterInsertMulticastList fw c.mulcst c.brdcst c.addrs filterFlags true) with
    | .ok () => pure false
    | .error _ => renewAllMulticast fw c filterFlags

/-- `ef10_filter_reconfigure` with a default queue, up to its last look at the optional filters, and whether one of them
was refused. -/
def renew (c : Config) (workarounds : Except Errno (U32 × U32)) : Prog Filters Errno Bool := do
  let s ← get
  let filterFlags : BitVec 6 := if s.usingRss then .ofNat 6 EFX_FILTER_FLAG_RX_RSS else 0
  markOld s.unicst
  markOld s.mulcst
  let noUnicst ← renewUnicast fw c filterFlags
  ef10FilterGetWorkarounds workarounds
  let noMulcst ← renewMulticast fw c filterFlags
  ef10FilterRemoveOld fw
  pure (noUnicst || noMulcst)

/-- Without a default queue: any currently configured filters must be removed. -/
def removeAll : Prog Filters Errno Unit := do
  let s ← get
  forEach (deleteAuto fw) s.unicst
  modify fun s => { s with unicst := [] }
  forEach (deleteAuto fw) s.mulcst
  modify fun s => { s with mulcst := [] }

/-- Clear auto old flags. -/
def clearAutoOld : Prog Filters Errno Unit :=
  forEach (fun i => do
    let s ← get
    when ((s.nic.entry i).autoOld = true) (onNic (ef10FilterSetEntryNotAutoOld i))) allRows

def ef10FilterReconfigure (c : Config) (workarounds : Except Errno (U32 × U32)) : Prog Filters Errno Unit := do
  let s ← get
  if s.defaultRxq = none then removeAll fw
  else
    match ← attempt (renew fw c workarounds) with
    | .error rc => do
      clearAutoOld
      fail rc
    | .ok refused => ensure (refused = false) ENOTSUP

/-! ### The callers -/

/-- `ef10_filter_default_rxq_set` -/
def ef10FilterDefaultRxqSet (rxq : Option ℕ) (usingRss : Bool) : Prog Filters Errno Unit :=
  modify fun s => { s with defaultRxq := rxq, usingRss }

/-- `ef10_mac_filter_default_rxq_set` -/
def ef10MacFilterDefaultRxqSet (erIndex : ℕ) (usingRss : Bool) (c : Config) (workarounds : Except Errno (U32 × U32)) :
    Prog Filters Errno Unit := do
  let s ← get
  ef10FilterDefaultRxqSet (some erIndex) usingRss
  match ← attempt (ef10FilterReconfigure fw c workarounds) with
  | .ok () => pure ()
  | .error rc => do
    ef10FilterDefaultRxqSet s.defaultRxq s.usingRss
    fail rc

/-- `ef10_mac_filter_default_rxq_clear` -/
def ef10MacFilterDefaultRxqClear (c : Config) (workarounds : Except Errno (U32 × U32)) : Prog Filters Errno Unit := do
  ef10FilterDefaultRxqSet none false
  let _ ← attempt (ef10FilterReconfigure fw c workarounds)

end Sfxge.Filter.Ef10
