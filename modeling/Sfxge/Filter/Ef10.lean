import Sfxge.Filter.Siena

/-!
# Filter.Ef10 — the EF10 filter table of `common/ef10_filter.c`

8192 entries, each a saved spec with the `BUSY` and `AUTO_OLD` marks kept in the low bits of its pointer, and
the handle the firmware gave.  The firmware is what it answers to a `FILTER_OP` and the rule it was last told for
each handle.  Calls run one at a time, so `en_eslp` is not modelled, and a call that meets a busy entry spins:
nothing else would clear it.  Specs are cleared before they are filled in, so the padding they are hashed with
is zero.
-/

namespace Sfxge.Filter.Ef10

open Lib Lib.Prog Errno

/-! ### Specs -/

abbrev MacAddr := Fin 6 → BitVec 8

/-- `efx_filter_spec_t`, whole. -/
structure FilterSpec where
  matchFlags : BitVec 12
  priority : BitVec 2
  flags : BitVec 6
  dmaqId : BitVec 12
  rssContext : U32
  outerVid : BitVec 16
  innerVid : BitVec 16
  locMac : MacAddr
  remMac : MacAddr
  etherType : BitVec 16
  ipProto : BitVec 8
  locPort : BitVec 16
  remPort : BitVec 16
  remHost : Oword
  locHost : Oword
  deriving DecidableEq

def EFX_FILTER_PRI_AUTO : BitVec 2 := 1
def EFX_FILTER_PRI_MANUAL : BitVec 2 := 2

/-- A spec that matches nothing in particular, as `memset` leaves it. -/
def FilterSpec.zero : FilterSpec :=
  ⟨0, 0, 0, 0, 0, 0, 0, fun _ => 0, fun _ => 0, 0, 0, 0, 0, Oword.zero, Oword.zero⟩

def EFX_FILTER_MATCH_LOC_MAC_IG : BitVec 12 := 0x0400

def EFX_ETHER_TYPE_IPV6 : BitVec 16 := 0x86DD

/-- `EFX_MAC_ADDR_IS_MULTICAST` -/
def macAddrIsMulticast (addr : MacAddr) : Bool := addr 0 &&& 1 ≠ 0

/-- `eo_u8[0]` -/
def firstByte (o : Oword) : BitVec 8 := o.u0.setWidth 8

def ef10FilterEqual (left right : FilterSpec) : Bool :=
  if left.matchFlags ≠ right.matchFlags then false
  else if left.remHost ≠ right.remHost then false
  else if left.locHost ≠ right.locHost then false
  else if left.remMac ≠ right.remMac then false
  else if left.locMac ≠ right.locMac then false
  else if left.remPort ≠ right.remPort then false
  else if left.locPort ≠ right.locPort then false
  else if left.innerVid ≠ right.innerVid then false
  else if left.outerVid ≠ right.outerVid then false
  else if left.etherType ≠ right.etherType then false
  else if left.ipProto ≠ right.ipProto then false
  else true

def ef10FilterSameDest (left right : FilterSpec) : Bool :=
  if hasFlag left.flags EFX_FILTER_FLAG_RX_RSS ∧ hasFlag right.flags EFX_FILTER_FLAG_RX_RSS then
    left.rssContext = right.rssContext
  else if hasFlag (~~~left.flags) EFX_FILTER_FLAG_RX_RSS ∧ hasFlag (~~~right.flags) EFX_FILTER_FLAG_RX_RSS then
    left.dmaqId = right.dmaqId
  else false

/-- Filters for specific local unicast MAC and IP addresses are exclusive. -/
def ef10FilterIsExclusive (spec : FilterSpec) : Bool :=
  let matchLocHost := EFX_FILTER_MATCH_ETHER_TYPE ||| EFX_FILTER_MATCH_LOC_HOST
  if spec.matchFlags &&& EFX_FILTER_MATCH_LOC_MAC ≠ 0 ∧ ¬ macAddrIsMulticast spec.locMac then true
  else if spec.matchFlags &&& matchLocHost = matchLocHost then
    if spec.etherType = EFX_ETHER_TYPE_IPV4 ∧ firstByte spec.locHost &&& 0xf ≠ 0xe then true
    else if spec.etherType = EFX_ETHER_TYPE_IPV6 ∧ firstByte spec.locHost ≠ 0xff then true
    else false
  else false

/-! ### The hash of `common/efx_hash.c` -/

def EFX_HASH_INITIAL_VALUE : U32 := 0xdeadbeef

/-- `EFX_HASH_ROTATE` -/
def hashRotate (value : U32) (shift : ℕ) : U32 := value <<< shift ||| value >>> (32 - shift)

/-- `EFX_HASH_MIX` -/
def hashMix (a b c : U32) : U32 × U32 × U32 :=
  let a := a - c
  let a := a ^^^ hashRotate c 4
  let c := c + b
  let b := b - a
  let b := b ^^^ hashRotate a 6
  let a := a + c
  let c := c - b
  let c := c ^^^ hashRotate b 8
  let b := b + a
  let a := a - c
  let a := a ^^^ hashRotate c 16
  let c := c + b
  let b := b - a
  let b := b ^^^ hashRotate a 19
  let a := a + c
  let c := c - b
  let c := c ^^^ hashRotate b 4
  let b := b + a
  (a, b, c)

/-- `EFX_HASH_FINALISE`, as the value it leaves in `c`. -/
def hashFinalise (a b c : U32) : U32 :=
  let c := c ^^^ b
  let c := c - hashRotate b 14
  let a := a ^^^ c
  let a := a - hashRotate c 11
  let b := b ^^^ a
  let b := b - hashRotate a 25
  let c := c ^^^ b
  let c := c - hashRotate b 16
  let a := a ^^^ c
  let a := a - hashRotate c 4
  let b := b ^^^ a
  let b := b - hashRotate a 14
  let c := c ^^^ b
  c - hashRotate b 24

/-- The loop over all but the last three dwords, and the left-overs. -/
def hashDwordsFrom : List U32 → U32 → U32 → U32 → U32
  | x :: y :: z :: w :: input, a, b, c =>
    let (a, b, c) := hashMix (a + x) (b + y) (c + z)
    hashDwordsFrom (w :: input) a b c
  | [x, y, z], a, b, c => hashFinalise (a + x) (b + y) (c + z)
  | [x, y], a, b, c => hashFinalise (a + x) (b + y) c
  | [x], a, b, c => hashFinalise (a + x) b c
  | [], _, _, c => c

def efxHashDwords (input : List U32) (init : U32) : U32 :=
  let abc := EFX_HASH_INITIAL_VALUE + .ofNat 32 input.length * 4 + init
  hashDwordsFrom input abc abc abc

def le16 (lo hi : BitVec 16) : U32 := lo.setWidth 32 ||| hi.setWidth 32 <<< 16

def le8 (b0 b1 b2 b3 : BitVec 8) : U32 :=
  b0.setWidth 32 ||| b1.setWidth 32 <<< 8 ||| b2.setWidth 32 <<< 16 ||| b3.setWidth 32 <<< 24

/-- The dwords of the spec from `efs_outer_vid` on, in memory order. -/
def FilterSpec.dwords (spec : FilterSpec) : List U32 :=
  [le16 spec.outerVid spec.innerVid,
    le8 (spec.locMac 0) (spec.locMac 1) (spec.locMac 2) (spec.locMac 3),
    le8 (spec.locMac 4) (spec.locMac 5) (spec.remMac 0) (spec.remMac 1),
    le8 (spec.remMac 2) (spec.remMac 3) (spec.remMac 4) (spec.remMac 5),
    le16 spec.etherType (spec.ipProto.setWidth 16),
    le16 spec.locPort spec.remPort,
    spec.remHost.u0, spec.remHost.u1, spec.remHost.u2, spec.remHost.u3,
    spec.locHost.u0, spec.locHost.u1, spec.locHost.u2, spec.locHost.u3]

def ef10FilterHash (spec : FilterSpec) : U32 := efxHashDwords spec.dwords 0

/-! ### The table -/

def EFX_EF10_FILTER_TBL_ROWS : ℕ := 8192

/-- The index of an entry. -/
abbrev Row := Fin EFX_EF10_FILTER_TBL_ROWS

instance : NeZero EFX_EF10_FILTER_TBL_ROWS := ⟨by decide⟩

/-- `ef10_filter_handle_t` -/
structure Handle where
  lo : U32
  hi : U32
  deriving Repr, DecidableEq

/-- `ef10_filter_entry_t`: `efe_spec` is the pointer and its two marks. -/
structure FilterEntry where
  spec : Option FilterSpec
  busy : Bool
  autoOld : Bool
  handle : Handle
  deriving DecidableEq

namespace FilterEntry

/-- Storing a pointer clears the marks. -/
def withSpec (entry : FilterEntry) (spec : Option FilterSpec) : FilterEntry :=
  { entry with spec := spec, busy := false, autoOld := false }

/-- The spec that the pointer points to changes. -/
def withSaved (entry : FilterEntry) (spec : FilterSpec) : FilterEntry := { entry with spec := some spec }

def withBusy (entry : FilterEntry) (busy : Bool) : FilterEntry := { entry with busy := busy }

def withAutoOld (entry : FilterEntry) (autoOld : Bool) : FilterEntry := { entry with autoOld := autoOld }

def withHandle (entry : FilterEntry) (handle : Handle) : FilterEntry := { entry with handle := handle }

end FilterEntry

/-- Where a matching frame goes. -/
structure Delivery where
  portId : U32
  matchFields : U32
  rxDest : U32
  rxQueue : U32
  rxContext : U32
  rxMode : U32
  txDest : U32
  deriving Repr, DecidableEq

/-- The values a frame is matched with, in network byte order. -/
structure MatchValues where
  srcMac : MacAddr
  dstMac : MacAddr
  srcPort : BitVec 16
  dstPort : BitVec 16
  etherType : BitVec 16
  innerVlan : BitVec 16
  outerVlan : BitVec 16
  ipProto : BitVec 8
  srcIp : Oword
  dstIp : Oword
  deriving DecidableEq

/-- A rule of the firmware. -/
structure FilterRule where
  delivery : Delivery
  values : MatchValues
  deriving DecidableEq

/-- The NIC as the filter code sees it: `ef_ef10_filter_table`, `en_rss_context`, and the rule the firmware was
last told for each handle. -/
structure Nic where
  entry : Row → FilterEntry
  rssContext : U32
  programmed : Handle → Option FilterRule

/-- `ef10_filter_init` when its allocation, which is zeroed, succeeds; the firmware has no rule. -/
def ef10FilterInit (rssContext : U32) : Nic where
  entry _ := { spec := none, busy := false, autoOld := false, handle := ⟨0, 0⟩ }
  rssContext
  programmed _ := none

/-- A change of one entry. -/
def Nic.setEntry (nic : Nic) (i : Row) (entry : FilterEntry) : Nic :=
  { nic with entry := Function.update nic.entry i entry }

def ef10FilterSetEntry (i : Row) (spec : Option FilterSpec) : Prog Nic Errno Unit :=
  modify fun nic => nic.setEntry i ((nic.entry i).withSpec spec)

def ef10FilterSetEntryBusy (i : Row) : Prog Nic Errno Unit :=
  modify fun nic => nic.setEntry i ((nic.entry i).withBusy true)

def ef10FilterSetEntryNotBusy (i : Row) : Prog Nic Errno Unit :=
  modify fun nic => nic.setEntry i ((nic.entry i).withBusy false)

def ef10FilterSetEntryAutoOld (i : Row) : Prog Nic Errno Unit :=
  modify fun nic => nic.setEntry i ((nic.entry i).withAutoOld true)

def ef10FilterSetEntryNotAutoOld (i : Row) : Prog Nic Errno Unit :=
  modify fun nic => nic.setEntry i ((nic.entry i).withAutoOld false)

/-! ### FILTER_OP -/

inductive FilterOp where
  | INSERT | REMOVE | SUBSCRIBE | UNSUBSCRIBE | REPLACE
  deriving Repr, DecidableEq

/-- `MC_CMD_FILTER_OP_IN`; what is not set is zero. -/
structure FilterOpIn where
  op : FilterOp
  handle : Handle
  delivery : Delivery
  values : MatchValues

/-- What the firmware answers: `emr_rc`, `emr_out_length_used`, and the handle of the filter. -/
structure FilterOpOut where
  rc : Option Errno
  outLengthUsed : ℕ
  handle : Handle
  deriving Repr, DecidableEq

def MC_CMD_FILTER_OP_OUT_LEN : ℕ := 12
def MC_CMD_FILTER_OP_IN_MATCH_UNKNOWN_MCAST_DST_LBN : ℕ := 30
def MC_CMD_FILTER_OP_IN_MATCH_UNKNOWN_UCAST_DST_LBN : ℕ := 31
def MC_CMD_FILTER_OP_IN_RX_DEST_HOST : U32 := 1
def MC_CMD_FILTER_OP_IN_RX_MODE_SIMPLE : U32 := 0
def MC_CMD_FILTER_OP_IN_RX_MODE_RSS : U32 := 1
def MC_CMD_FILTER_OP_IN_TX_DEST_DEFAULT : U32 := 0xffffffff
def EVB_PORT_ID_ASSIGNED : U32 := 0x1000000

def cpuToBe16 (v : BitVec 16) : BitVec 16 := v <<< 8 ||| v >>> 8

/-- `match_fields`: the MAC address tells the unknown unicast and multicast filters apart. -/
def matchFields (spec : FilterSpec) : U32 :=
  let unknown : U32 :=
    if spec.matchFlags &&& EFX_FILTER_MATCH_LOC_MAC_IG ≠ 0 then
      if macAddrIsMulticast spec.locMac then (1 : U32) <<< MC_CMD_FILTER_OP_IN_MATCH_UNKNOWN_MCAST_DST_LBN
      else (1 : U32) <<< MC_CMD_FILTER_OP_IN_MATCH_UNKNOWN_UCAST_DST_LBN
    else 0
  unknown ||| (spec.matchFlags &&& ~~~EFX_FILTER_MATCH_LOC_MAC_IG).setWidth 32

def deliveryOf (spec : FilterSpec) : Delivery :=
  let rss := hasFlag spec.flags EFX_FILTER_FLAG_RX_RSS
  { portId := EVB_PORT_ID_ASSIGNED
    matchFields := matchFields spec
    rxDest := MC_CMD_FILTER_OP_IN_RX_DEST_HOST
    rxQueue := spec.dmaqId.setWidth 32
    rxContext := if rss then spec.rssContext else 0
    rxMode := if rss then MC_CMD_FILTER_OP_IN_RX_MODE_RSS else MC_CMD_FILTER_OP_IN_RX_MODE_SIMPLE
    txDest := MC_CMD_FILTER_OP_IN_TX_DEST_DEFAULT }

def valuesOf (spec : FilterSpec) : MatchValues where
  srcMac := spec.remMac
  dstMac := spec.locMac
  srcPort := cpuToBe16 spec.remPort
  dstPort := cpuToBe16 spec.locPort
  etherType := cpuToBe16 spec.etherType
  innerVlan := cpuToBe16 spec.innerVid
  outerVlan := cpuToBe16 spec.outerVid
  ipProto := spec.ipProto
  srcIp := spec.remHost
  dstIp := spec.locHost

def MatchValues.zero : MatchValues :=
  ⟨fun _ => 0, fun _ => 0, 0, 0, 0, 0, 0, 0, Oword.zero, Oword.zero⟩

def filterOpIn (spec : FilterSpec) (op : FilterOp) (handle : Handle) : FilterOpIn where
  op := op
  handle := if op = .REPLACE then handle else ⟨0, 0⟩
  delivery := deliveryOf spec
  values := if op ≠ .REPLACE then valuesOf spec else MatchValues.zero

/-- What the firmware is told by a request it accepts: a whole rule, or a new delivery for the rule of a handle. -/
def Nic.program (nic : Nic) (req : FilterOpIn) (out : FilterOpOut) : Nic :=
  match req.op with
  | .INSERT | .SUBSCRIBE =>
    { nic with programmed := Function.update nic.programmed out.handle (some ⟨req.delivery, req.values⟩) }
  | .REPLACE =>
    let rule := (nic.programmed req.handle).map fun old => { old with delivery := req.delivery }
    { nic with programmed := Function.update nic.programmed out.handle rule }
  | .REMOVE | .UNSUBSCRIBE => nic

/-- `efx_mcdi_execute` of a `FILTER_OP`. -/
def efxMcdiExecute (req : FilterOpIn) (out : FilterOpOut) : Prog Nic Errno Unit :=
  match out.rc with
  | some rc => fail rc
  | none => modify fun nic => nic.program req out

def efxMcdiFilterOpAdd (spec : FilterSpec) (filterOp : FilterOp) (i : Row) (out : FilterOpOut) :
    Prog Nic Errno Unit :=
  match filterOp with
  | .REMOVE | .UNSUBSCRIBE => fail EINVAL
  | .INSERT | .SUBSCRIBE | .REPLACE => do
    let nic ← get
    efxMcdiExecute (filterOpIn spec filterOp (nic.entry i).handle) out
    ensure (MC_CMD_FILTER_OP_OUT_LEN ≤ out.outLengthUsed) EMSGSIZE
    modify fun nic => nic.setEntry i ((nic.entry i).withHandle out.handle)

def efxMcdiFilterOpDelete (filterOp : FilterOp) (i : Row) (out : FilterOpOut) : Prog Nic Errno Unit :=
  match filterOp with
  | .INSERT | .SUBSCRIBE | .REPLACE => fail EINVAL
  | .REMOVE | .UNSUBSCRIBE => do
    let nic ← get
    efxMcdiExecute ⟨filterOp, (nic.entry i).handle, ⟨0, 0, 0, 0, 0, 0, 0⟩, MatchValues.zero⟩ out
    ensure (MC_CMD_FILTER_OP_OUT_LEN ≤ out.outLengthUsed) EMSGSIZE

/-! ### Restore -/

/-- Waiting for a busy entry: nothing clears it meanwhile. -/
def waitForever {α : Type} : Prog Nic Errno α := fun _ => .spin

def allRows : List Row := List.finRange EFX_EF10_FILTER_TBL_ROWS

/-- One turn of the loop of `ef10_filter_restore`. -/
def restoreRow (out : Row → FilterOpOut) (tblId : Row) : Prog Nic Errno Unit := do
  let nic ← get
  match (nic.entry tblId).spec with
  | none => pure ()
  | some spec =>
    -- busy entries are ignored
    when (¬ (nic.entry tblId).busy) do
      ef10FilterSetEntryBusy tblId
      if ef10FilterIsExclusive spec then efxMcdiFilterOpAdd spec .INSERT tblId (out tblId)
      else efxMcdiFilterOpAdd spec .SUBSCRIBE tblId (out tblId)
      ef10FilterSetEntryNotBusy tblId

def ef10FilterRestore (out : Row → FilterOpOut) : Prog Nic Errno Unit := forEach (restoreRow out) allRows

/-! ### Add -/

def EF10_FILTER_SEARCH_LIMIT : ℕ := 200

/-- `(hash + depth) & (EFX_EF10_FILTER_TBL_ROWS - 1)` -/
def rowAt (hash : U32) (depth : ℕ) : Row :=
  Fin.ofNat EFX_EF10_FILTER_TBL_ROWS
    ((hash + .ofNat 32 depth) &&& .ofNat 32 (EFX_EF10_FILTER_TBL_ROWS - 1)).toNat

/-- The entries a search for a spec goes through. -/
def searchRows (spec : FilterSpec) : List Row :=
  (List.range' 1 EF10_FILTER_SEARCH_LIMIT).map (rowAt (ef10FilterHash spec))

/-- How the search of `ef10_filter_add_internal` ends. -/
inductive Search where
  | found (insIndex : Row)
  | busy
  | fail (rc : Errno)
  deriving Repr, DecidableEq

def searchFrom (nic : Nic) (spec : FilterSpec) (mayReplace : Bool) : List Row → Option Row → Search
  | [], none => .fail EBUSY
  | [], some insIndex => .found insIndex
  | i :: rows, insIndex =>
    match (nic.entry i).spec with
    | none => searchFrom nic spec mayReplace rows (if insIndex = none then some i else insIndex)
    | some savedSpec =>
      if ef10FilterEqual spec savedSpec then
        if (nic.entry i).busy then .busy
        else if savedSpec.priority = EFX_FILTER_PRI_AUTO then .found i
        else if ef10FilterIsExclusive spec then
          if mayReplace then .found i else .fail EEXIST
        else searchFrom nic spec mayReplace rows insIndex
      else searchFrom nic spec mayReplace rows insIndex

/-- `spec->efs_rss_context = enp->en_rss_context` -/
def FilterSpec.inContext (spec : FilterSpec) (rssContext : U32) : FilterSpec := { spec with rssContext := rssContext }

/-- The fields a replacement updates in the saved spec. -/
def FilterSpec.updatedBy (savedSpec spec : FilterSpec) : FilterSpec :=
  { savedSpec with
    priority := spec.priority
    flags := spec.flags
    rssContext := spec.rssContext
    dmaqId := spec.dmaqId }

/-- From `fail4`. -/
def undoAdd (insIndex : Row) (rc : Errno) : Prog Nic Errno Unit := do
  ef10FilterSetEntryNotBusy insIndex
  ef10FilterSetEntry insIndex none
  fail rc

/-- From `found` with an entry that holds a spec. -/
def addReplacing (spec savedSpec : FilterSpec) (out : FilterOpOut) (insIndex : Row) : Prog Nic Errno Unit := do
  ef10FilterSetEntryBusy insIndex
  match ← attempt (efxMcdiFilterOpAdd spec .REPLACE insIndex out) with
  | .error rc => undoAdd insIndex rc
  | .ok () =>
    modify fun nic => nic.setEntry insIndex ((nic.entry insIndex).withSaved (savedSpec.updatedBy spec))
    ef10FilterSetEntryNotBusy insIndex

/-- From `found` with a free entry; `alloc` tells whether the allocation succeeds. -/
def addNew (spec : FilterSpec) (alloc : Bool) (out : FilterOpOut) (insIndex : Row) : Prog Nic Errno Unit := do
  ensure alloc ENOMEM
  ef10FilterSetEntry insIndex (some spec)
  ef10FilterSetEntryBusy insIndex
  match ← attempt (efxMcdiFilterOpAdd spec (if ef10FilterIsExclusive spec then .INSERT else .SUBSCRIBE) insIndex
      out) with
  | .error rc => undoAdd insIndex rc
  | .ok () => ef10FilterSetEntryNotBusy insIndex

/-- `ef10_filter_add_internal`; the result is `*filter_id`. -/
def ef10FilterAddInternal (spec : FilterSpec) (mayReplace alloc : Bool) (out : FilterOpOut) :
    Prog Nic Errno Row := do
  let nic ← get
  let spec := spec.inContext nic.rssContext
  match searchFrom nic spec mayReplace (searchRows spec) none with
  | .busy => waitForever
  | .fail rc => fail rc
  | .found insIndex =>
    match (nic.entry insIndex).spec with
    | some savedSpec =>
      if savedSpec.priority = EFX_FILTER_PRI_AUTO then
        -- this is a filter we are refreshing
        ef10FilterSetEntryNotAutoOld insIndex
      else addReplacing spec savedSpec out insIndex
    | none => addNew spec alloc out insIndex
    pure insIndex

def ef10FilterAdd (spec : FilterSpec) (mayReplace alloc : Bool) (out : FilterOpOut) : Prog Nic Errno Unit := do
  let _ ← ef10FilterAddInternal spec mayReplace alloc out

/-! ### Delete -/

def ef10FilterDeleteInternal (filterId : U32) (out : FilterOpOut) : Prog Nic Errno Unit := do
  let filterIdx : Row := Fin.ofNat EFX_EF10_FILTER_TBL_ROWS filterId.toNat
  let nic ← get
  if (nic.entry filterIdx).busy then waitForever
  else match (nic.entry filterIdx).spec with
    | none => fail ENOENT
    | some spec =>
      ef10FilterSetEntryBusy filterIdx
      let rc ← attempt
        (efxMcdiFilterOpDelete (if ef10FilterIsExclusive spec then .REMOVE else .UNSUBSCRIBE) filterIdx out)
      ef10FilterSetEntryNotBusy filterIdx
      ef10FilterSetEntry filterIdx none
      match rc with
      | .error rc => fail rc
      | .ok () => pure ()

/-- The entry `ef10_filter_delete` looks for. -/
def Nic.isTarget (nic : Nic) (spec : FilterSpec) (i : Row) : Bool :=
  match (nic.entry i).spec with
  | none => false
  | some savedSpec => ef10FilterEqual spec savedSpec && ef10FilterSameDest spec savedSpec

def ef10FilterDelete (spec : FilterSpec) (out : FilterOpOut) : Prog Nic Errno Unit := do
  let nic ← get
  match (searchRows spec).find? (nic.isTarget spec) with
  | none => fail ENOENT
  | some i => ef10FilterDeleteInternal (.ofNat 32 i.val) out

end Sfxge.Filter.Ef10
