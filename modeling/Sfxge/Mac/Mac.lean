import Mathlib.Logic.Function.Basic
import Sfxge.Lib.Run
import Sfxge.Efx

/-!
# Mac.Mac — the receive configuration of the MAC

The promiscuous mode and the multicast list of `sfxge_mac.c`, and `efx_mac_filter_set` and
`efx_mac_multicast_list_set` of `efx_mac.c`, through which they get to the port.  Every call below may fail;
the outcomes of the calls an operation makes are part of it.
-/

namespace Sfxge.Mac

/-- `uint8_t addr[ETHERADDRL]` -/
abbrev EtherAddr := Vector UInt8 6

instance lawfulEtherAddr : LawfulBEq EtherAddr := inferInstance

/-- `SFXGE_MCAST_LIST_MAX`, and `EFX_MAC_MULTICAST_LIST_MAX` -/
def mcastListMax : ℕ := 256

/-- `sfxge_promisc_type_t` -/
inductive Promisc
  | off
  | allMulti
  | allPhys
  deriving Repr, DecidableEq

/-- The receive mode of a port. -/
structure Mode where
  allUnicst : Bool
  mulcst : Bool
  allMulcst : Bool
  brdcst : Bool
  mulcstAddrList : List EtherAddr
  deriving Repr, DecidableEq

/-- The calls an operation makes: those of the common code, and those below them. -/
inductive EfxCall
  | portInit
  | phyCapApply
  | pduSet
  | fcntlSet
  | addrSet
  | reconfigure
  | kmemAlloc
  | multicastListSet
  | statsPeriodic
  | drain
  deriving Repr, DecidableEq

/-- How each call ends. -/
abbrev Outcome := EfxCall → Option Errno

/-- `sfxge_mac_t` and its port.  `applied` is a ghost: the receive mode with which the port was last configured
successfully; `members` is another: whether the last successful operation on an address was an add; `rc` is what
the last operation returned; and `overrun` says that the list has been written behind its array. -/
structure SfxgeMac where
  started : Bool
  promisc : Promisc
  mcast : List EtherAddr
  port : Mode
  statsTimerReqd : Bool
  applied : Mode
  members : EtherAddr → Bool
  rc : Option Errno
  overrun : Bool

namespace SfxgeMac

variable (s : SfxgeMac)

def setPort (port : Mode) : SfxgeMac := { s with port := port }

/-- The port has been configured. -/
def apply : SfxgeMac := { s with applied := s.port }

def setMcast (mcast : List EtherAddr) : SfxgeMac := { s with mcast := mcast }

/-- The operation returns `rc`. -/
def done (rc : Option Errno) : SfxgeMac := { s with rc := rc }

/-- The last operation on `addr` was a successful add, or a successful remove. -/
def setMember (addr : EtherAddr) (member : Bool) : SfxgeMac :=
  { s with members := Function.update s.members addr member }

/-- `efx_mac_filter_set` -/
def efxMacFilterSet (out : Outcome) (allUnicst mulcst allMulcst brdcst : Bool) : SfxgeMac × Option Errno :=
  let s1 := s.setPort { s.port with allUnicst, mulcst, allMulcst, brdcst }
  match out .reconfigure with
  | none => (s1.apply, none)
  | some e => (s1.setPort s.port, some e)

/-- `efx_mac_multicast_list_set` -/
def efxMacMulticastListSet (out : Outcome) (addrs : List EtherAddr) : SfxgeMac × Option Errno :=
  if addrs.length > mcastListMax then (s, some .EINVAL)
  -- memory to store the old list
  else if s.port.mulcstAddrList.length > 0 ∧ out .kmemAlloc ≠ none then (s, some .ENOMEM)
  else
    let s1 := s.setPort { s.port with mulcstAddrList := addrs }
    match out .multicastListSet with
    | none => (s1.apply, none)
    | some e => (s1.setPort s.port, some e)

/-- `sfxge_mac_filter_apply` -/
def filterApply (out : Outcome) : SfxgeMac × Option Errno :=
  if s.started then
    match s.efxMacFilterSet out (s.promisc = .allPhys) (s.mcast.length > 0) (s.promisc ≠ .off) true with
    | (s1, some e) => (s1, some e)
    | (s1, none) => s1.efxMacMulticastListSet out s1.mcast
  else (s, none)

/-- The calls of `sfxge_mac_start` before and after the filters, in their order; the port is configured with
the mode it has when it is initialised. -/
def sfxgeMacStart (out : Outcome) : SfxgeMac × Option Errno :=
  match [EfxCall.portInit, .phyCapApply, .pduSet, .fcntlSet, .addrSet].findSome? out with
  | some e => (s, some e)
  | none =>
    match s.filterApply out with
    | (s1, some e) => (s1, some e)
    | (s1, none) =>
      match ((if s1.statsTimerReqd then [] else [EfxCall.statsPeriodic]) ++ [EfxCall.drain]).findSome? out with
      | some e => (s1, some e)
      | none => ({ s1 with started := true }, none)

/-- `sfxge_mac_stop` -/
def sfxgeMacStop : SfxgeMac := { s with started := false }

/-- `sfxge_mac_promisc_set` -/
def sfxgeMacPromiscSet (out : Outcome) (promisc : Promisc) : SfxgeMac × Option Errno :=
  if s.promisc = promisc then (s, none) else { s with promisc := promisc }.filterApply out

/-- The append of `sfxge_mac_multicst_add`; it does not look at the capacity. -/
def append (addr : EtherAddr) : SfxgeMac :=
  { s with mcast := s.mcast ++ [addr], overrun := s.overrun || mcastListMax ≤ s.mcast.length }

/-- `sfxge_mac_multicst_add` -/
def sfxgeMacMulticstAdd (out : Outcome) (addr : EtherAddr) : SfxgeMac × Option Errno :=
  if addr ∈ s.mcast then (s, none) else (s.append addr).filterApply out

/-- The loop of `sfxge_mac_multicst_remove`: an address that matches is taken out, the ones behind it move up. -/
def removeAddr (addr : EtherAddr) : List EtherAddr → List EtherAddr
  | [] => []
  | a :: as => if a = addr then removeAddr addr as else a :: removeAddr addr as

/-- `sfxge_mac_multicst_remove` -/
def sfxgeMacMulticstRemove (out : Outcome) (addr : EtherAddr) : SfxgeMac × Option Errno :=
  (s.setMcast (removeAddr addr s.mcast)).filterApply out

end SfxgeMac

/-- The operations, with how the calls they make end. -/
inductive Op
  | start (out : Outcome)
  | stop
  | promiscSet (out : Outcome) (promisc : Promisc)
  | multicstAdd (out : Outcome) (addr : EtherAddr)
  | multicstRemove (out : Outcome) (addr : EtherAddr)

/-- What an operation makes of the MAC, `none` where it is not possible: the MAC is started when it is stopped, and
stopped when it is started.  Nothing is said of a MAC whose list has overrun its array. -/
def step : Op → SfxgeMac → Option SfxgeMac
  | o, s =>
    if s.overrun then none
    else match o with
      | .start out =>
        if s.started then none
        else
          let (s1, rc) := s.sfxgeMacStart out
          some (s1.done rc)
      | .stop => if s.started then some (s.sfxgeMacStop.done none) else none
      | .promiscSet out promisc =>
        let (s1, rc) := s.sfxgeMacPromiscSet out promisc
        some (s1.done rc)
      | .multicstAdd out addr =>
        let (s1, rc) := s.sfxgeMacMulticstAdd out addr
        some ((if rc = none then s1.setMember addr true else s1).done rc)
      | .multicstRemove out addr =>
        let (s1, rc) := s.sfxgeMacMulticstRemove out addr
        some ((if rc = none then s1.setMember addr false else s1).done rc)

/-- The receive mode of a port that nobody has configured. -/
def Mode.zero : Mode := ⟨false, false, false, false, []⟩

/-- The MAC when `sfxge_mac_init` is done; `timer` says whether the statistics need a timer. -/
def SfxgeMac.init (timer : Bool) : SfxgeMac := ⟨false, .off, [], .zero, timer, .zero, fun _ => false, none, false⟩

/-- The receive mode the software wants. -/
def SfxgeMac.wanted (s : SfxgeMac) : Mode :=
  ⟨s.promisc = .allPhys, s.mcast.length > 0, s.promisc ≠ .off, true, s.mcast⟩

end Sfxge.Mac
