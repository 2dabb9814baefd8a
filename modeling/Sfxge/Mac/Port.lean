import Mathlib.Data.BitVec
import Sfxge.Mac.Mac

/-!
# Mac.Port — the port of the common code

`efx_port_t` and the operations of `efx_mac.c`, `efx_phy.c` and `efx_port.c` that work on its capabilities, its flow
control and its configuration.  An operation that reconfigures the PHY or the MAC is given how that ends.
-/

namespace Sfxge.Mac

/-- `efx_port_t` -/
structure EfxPort where
  advCapMask : BitVec 32
  lpCapMask : BitVec 32
  defaultAdvCapMask : BitVec 32
  phyCapMask : BitVec 32
  fcntl : BitVec 32
  fcntlAutoneg : Bool
  macPdu : ℕ
  macDrain : Bool
  macAddr : EtherAddr
  mode : Mode
  deriving Repr, DecidableEq

/-! ### Capabilities and flow control -/

/-- `1 << field` -/
def capBit (field : ℕ) : BitVec 32 := 1#32 <<< field

/-- The test of a capability in a mask. -/
theorem and_capBit_ne_zero (mask : BitVec 32) {field : ℕ} (h : field < 32) :
    mask &&& capBit field ≠ 0 ↔ mask.getLsbD field = true := by
  have hbit : capBit field = BitVec.twoPow 32 field := (BitVec.twoPow_eq 32 field).symm
  have hne : BitVec.twoPow 32 field ≠ 0#32 := fun h0 => by
    have hset := congrArg (BitVec.getLsbD · field) h0
    simp [h] at hset
  rw [hbit, BitVec.and_twoPow]
  split_ifs with hs
  · exact iff_of_true hne hs
  · exact iff_of_false (not_not_intro rfl) hs

/-- `EFX_PHY_CAP_PAUSE`, `EFX_PHY_CAP_ASYM` and `EFX_PHY_CAP_AN` -/
def phyCapPause : ℕ := 8
def phyCapAsym : ℕ := 9
def phyCapAn : ℕ := 10

/-- `EFX_FCNTL_RESPOND` and `EFX_FCNTL_GENERATE` -/
def fcntlRespond : BitVec 32 := 1
def fcntlGenerate : BitVec 32 := 2

/-- The settings that `efx_mac_fcntl_set` is called with. -/
inductive FlowControl
  | off
  | respond
  | respondGenerate
  deriving Repr, DecidableEq

def FlowControl.bits : FlowControl → BitVec 32
  | .off => 0
  | .respond => fcntlRespond
  | .respondGenerate => fcntlRespond ||| fcntlGenerate

/-- `EFX_MAC_PDU_MIN`, and `EFX_MAC_PDU_MAX`, which is `EFX_MAC_PDU(EFX_MAC_SDU_MAX)` -/
def macPduMin : ℕ := 60
def macPduMax : ℕ := (9202 + 14 + 4 + 4 + 16 + 7) / 8 * 8

/-- `EFX_MAC_ADDR_IS_MULTICAST` -/
def macAddrIsMulticast (addr : EtherAddr) : Bool := addr[0] &&& 1 ≠ 0

/-- `oui` is zero: `addr[0] << 16 | addr[1] << 8 | addr[2]`. -/
def zeroOui (addr : EtherAddr) : Bool := addr[0] = 0 ∧ addr[1] = 0 ∧ addr[2] = 0

/-- The address can be that of a station. -/
def validAddr (addr : EtherAddr) : Bool := !macAddrIsMulticast addr && !zeroOui addr

/-- The address of the first port in the runs on a concrete adapter. -/
def portAddr : EtherAddr := #v[0, 0x0f, 0x53, 0, 0, 1]

namespace EfxPort

variable (p : EfxPort)

/-- `epp->ep_phy_cap_mask & (1 << EFX_PHY_CAP_AN)` -/
def hasAn : Bool := p.phyCapMask &&& capBit phyCapAn ≠ 0

/-- The advertised capabilities with the flow control settings in them. -/
def fcntlCap (fcntl mask : BitVec 32) : BitVec 32 :=
  let both := capBit phyCapPause ||| capBit phyCapAsym
  let mask := if fcntl &&& fcntlRespond ≠ 0 then mask ||| both else mask &&& ~~~both
  if fcntl &&& fcntlGenerate ≠ 0 then mask ^^^ capBit phyCapAsym else mask

/-- The port on which `efx_mac_fcntl_set` reconfigures the PHY and the MAC. -/
def withFcntl (fcntl : BitVec 32) (autoneg : Bool) : EfxPort :=
  -- a request for auto-negotiation is ignored if the PHY doesn't support it
  { p with
    fcntl := fcntl
    fcntlAutoneg := p.hasAn && autoneg
    advCapMask := fcntlCap fcntl p.advCapMask }

/-- `efx_mac_fcntl_set` -/
def efxMacFcntlSet (fcntl : BitVec 32) (autoneg : Bool) (phy mac : Option Errno) : EfxPort × Option Errno :=
  if fcntl &&& ~~~(fcntlRespond ||| fcntlGenerate) ≠ 0 then (p, some .EINVAL)
  else match phy, mac with
    | none, none => (p.withFcntl fcntl autoneg, none)
    | none, some e | some e, _ => (p, some e)

/-- `efx_phy_adv_cap_set`; if the PHY cannot be reconfigured the mask is put back. -/
def efxPhyAdvCapSet (mask : BitVec 32) (phy : Option Errno) : EfxPort × Option Errno :=
  if mask &&& ~~~p.phyCapMask ≠ 0 then (p, some .ENOTSUP)
  else if p.advCapMask = mask then (p, none)
  else match phy with
    | none => ({ p with advCapMask := mask }, none)
    | some e => (p, some e)

/-! ### The configuration of the MAC -/

def efxMacPduSet (pdu : ℕ) (mac : Option Errno) : EfxPort × Option Errno :=
  if pdu < macPduMin ∨ macPduMax < pdu then (p, some .EINVAL)
  else match mac with
    | none => ({ p with macPdu := pdu }, none)
    | some e => (p, some e)

def efxMacAddrSet (addr : EtherAddr) (mac : Option Errno) : EfxPort × Option Errno :=
  if !validAddr addr then (p, some .EINVAL)
  else match mac with
    | none => ({ p with macAddr := addr }, none)
    | some e => (p, some e)

def efxMacFilterSet (allUnicst mulcst allMulcst brdcst : Bool) (mac : Option Errno) : EfxPort × Option Errno :=
  match mac with
  | none => ({ p with mode := { p.mode with allUnicst, mulcst, allMulcst, brdcst } }, none)
  | some e => (p, some e)

/-- `efx_mac_multicast_list_set`, whose copy of the old list finds memory -/
def efxMacMulticastListSet (addrs : List EtherAddr) (mac : Option Errno) : EfxPort × Option Errno :=
  if addrs.length > mcastListMax then (p, some .EINVAL)
  else match mac with
    | none => ({ p with mode := { p.mode with mulcstAddrList := addrs } }, none)
    | some e => (p, some e)

/-- `efx_mac_drain`, which does not put the setting back. -/
def efxMacDrain (enabled : Bool) (mac : Option Errno) : EfxPort × Option Errno :=
  if p.macDrain = enabled then (p, none) else ({ p with macDrain := enabled }, mac)

end EfxPort

end Sfxge.Mac
