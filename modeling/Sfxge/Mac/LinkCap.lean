import Mathlib.Tactic.IntervalCases
import Sfxge.Mac.Port

/-!
# Mac.LinkCap — the link capabilities that are reported

The capability statistics of `sfxge_gld_getstat` and the capability parameters of `sfxge_gld_nd_get`, with the getters of
`sfxge_phy.c` and `efx_phy.c` that they go through.  Each of the two has its own table of capabilities, for the masks of
the hardware, of what is advertised and of the link partner.
-/

namespace Sfxge.Mac

/-! ### The getters -/

/-- `EFX_PHY_CAP_10HDX` and the ones behind it -/
def phyCap10hdx : ℕ := 1
def phyCap10fdx : ℕ := 2
def phyCap100hdx : ℕ := 3
def phyCap100fdx : ℕ := 4
def phyCap1000hdx : ℕ := 5
def phyCap1000fdx : ℕ := 6
def phyCap10000fdx : ℕ := 7
def phyCap40000fdx : ℕ := 11

/-- `EFX_PHY_CAP_CURRENT`, `EFX_PHY_CAP_DEFAULT` and `EFX_PHY_CAP_PERM` -/
inductive PhyCapFlag
  | current
  | default
  | perm
  deriving Repr, DecidableEq

namespace EfxPort

variable (p : EfxPort)

/-- `efx_phy_adv_cap_get` -/
def efxPhyAdvCapGet : PhyCapFlag → BitVec 32
  | .current => p.advCapMask
  | .default => p.defaultAdvCapMask
  | .perm => p.phyCapMask

/-- `efx_phy_lp_cap_get` -/
def efxPhyLpCapGet : BitVec 32 := p.lpCapMask

/-- `sfxge_phy_cap_test`; `started` says whether the MAC is.  The second result is `*mutablep`. -/
def sfxgePhyCapTest (started : Bool) (flag : PhyCapFlag) (field : ℕ) : BitVec 8 × Bool :=
  let cap := if started then p.efxPhyAdvCapGet flag else 0
  let perm := if started then p.efxPhyAdvCapGet .perm else 0
  (if cap &&& capBit field ≠ 0 then 1 else 0, perm &&& capBit field ≠ 0)

/-- `sfxge_phy_lp_cap_test`, which returns a `uint8_t` -/
def sfxgePhyLpCapTest (started : Bool) (field : ℕ) : BitVec 8 :=
  let cap := if started then p.efxPhyLpCapGet else 0
  (cap &&& capBit field).setWidth 8

/-- `sfxge_phy_dfl_cap_test64` -/
def sfxgePhyDflCapTest64 (started : Bool) (field : ℕ) : BitVec 64 :=
  if (p.sfxgePhyCapTest started .default field).1 ≠ 0 then 1 else 0

/-- `sfxge_phy_cur_cap_test64` -/
def sfxgePhyCurCapTest64 (started : Bool) (field : ℕ) : BitVec 64 :=
  if (p.sfxgePhyCapTest started .current field).1 ≠ 0 then 1 else 0

/-- `sfxge_phy_lp_cap_test64` -/
def sfxgePhyLpCapTest64 (started : Bool) (field : ℕ) : BitVec 64 :=
  if p.sfxgePhyLpCapTest started field ≠ 0 then 1 else 0

end EfxPort

/-! ### The two tables -/

/-- `CAP`, `ADV_CAP` and `LP_CAP` -/
inductive CapSide
  | cap
  | adv
  | lp
  deriving Repr, DecidableEq

/-- A capability in the names of the two interfaces. -/
inductive LinkCap
  | fdx40g
  | fdx10g
  | fdx1000
  | hdx1000
  | fdx100
  | hdx100
  | fdx10
  | hdx10
  | asmPause
  | pause
  | autoneg
  deriving Repr, DecidableEq

/-- The statistics that the kernel's headers have: those of 40G and of 10G are behind an `#ifdef` each. -/
structure EtherStats where
  fdx40g : CapSide → Bool
  fdx10g : CapSide → Bool

def EtherStats.has (stats : EtherStats) (side : CapSide) : LinkCap → Bool
  | .fdx40g => stats.fdx40g side
  | .fdx10g => stats.fdx10g side
  | _ => true

/-- The capability cases of the switch of `sfxge_gld_getstat`. -/
def capStat (p : EfxPort) (started : Bool) : CapSide → LinkCap → BitVec 64
  | .cap, .fdx40g => p.sfxgePhyDflCapTest64 started phyCap40000fdx
  | .cap, .fdx10g => p.sfxgePhyDflCapTest64 started phyCap10000fdx
  | .cap, .fdx1000 => p.sfxgePhyDflCapTest64 started phyCap1000fdx
  | .cap, .hdx1000 => p.sfxgePhyDflCapTest64 started phyCap1000hdx
  | .cap, .fdx100 => p.sfxgePhyDflCapTest64 started phyCap100fdx
  | .cap, .hdx100 => p.sfxgePhyDflCapTest64 started phyCap100hdx
  | .cap, .fdx10 => p.sfxgePhyDflCapTest64 started phyCap10fdx
  | .cap, .hdx10 => p.sfxgePhyDflCapTest64 started phyCap10hdx
  | .cap, .asmPause => p.sfxgePhyDflCapTest64 started phyCapAsym
  | .cap, .pause => p.sfxgePhyDflCapTest64 started phyCapPause
  | .cap, .autoneg => p.sfxgePhyDflCapTest64 started phyCapAn
  | .adv, .fdx40g => p.sfxgePhyCurCapTest64 started phyCap40000fdx
  | .adv, .fdx10g => p.sfxgePhyCurCapTest64 started phyCap10000fdx
  | .adv, .fdx1000 => p.sfxgePhyCurCapTest64 started phyCap1000fdx
  | .adv, .hdx1000 => p.sfxgePhyCurCapTest64 started phyCap1000hdx
  | .adv, .fdx100 => p.sfxgePhyCurCapTest64 started phyCap100fdx
  | .adv, .hdx100 => p.sfxgePhyCurCapTest64 started phyCap100hdx
  | .adv, .fdx10 => p.sfxgePhyCurCapTest64 started phyCap10fdx
  | .adv, .hdx10 => p.sfxgePhyCurCapTest64 started phyCap10hdx
  | .adv, .asmPause => p.sfxgePhyCurCapTest64 started phyCapAsym
  | .adv, .pause => p.sfxgePhyCurCapTest64 started phyCapPause
  | .adv, .autoneg => p.sfxgePhyCurCapTest64 started phyCapAn
  | .lp, .fdx40g => p.sfxgePhyLpCapTest64 started phyCap40000fdx
  | .lp, .fdx10g => p.sfxgePhyLpCapTest64 started phyCap10000fdx
  | .lp, .fdx1000 => p.sfxgePhyLpCapTest64 started phyCap1000fdx
  | .lp, .hdx1000 => p.sfxgePhyLpCapTest64 started phyCap1000hdx
  | .lp, .fdx100 => p.sfxgePhyLpCapTest64 started phyCap100fdx
  | .lp, .hdx100 => p.sfxgePhyLpCapTest64 started phyCap100hdx
  | .lp, .fdx10 => p.sfxgePhyLpCapTest64 started phyCap10fdx
  | .lp, .hdx10 => p.sfxgePhyLpCapTest64 started phyCap10hdx
  | .lp, .asmPause => p.sfxgePhyLpCapTest64 started phyCapAsym
  | .lp, .pause => p.sfxgePhyLpCapTest64 started phyCapPause
  | .lp, .autoneg => p.sfxgePhyLpCapTest64 started phyCapAn

/-- `sfxge_gld_getstat` of a capability -/
def sfxgeGldGetstat (stats : EtherStats) (p : EfxPort) (started : Bool) (side : CapSide) (c : LinkCap) :
    Except Errno (BitVec 64) :=
  if started = false then .error .ENODEV
  else if stats.has side c then .ok (capStat p started side c)
  else .error .ENOTSUP

/-- `(mask & (1 << field)) ? 1 : 0` -/
def ndTest (mask : BitVec 32) (field : ℕ) : BitVec 32 := if mask &&& capBit field ≠ 0 then 1 else 0

/-- The capability cases of the switch of `sfxge_gld_nd_get`; that of the link partner's auto-negotiation gets the
advertised mask. -/
def capProp (p : EfxPort) : CapSide → LinkCap → BitVec 32
  | .adv, .autoneg => ndTest (p.efxPhyAdvCapGet .current) phyCapAn
  | .adv, .fdx40g => ndTest (p.efxPhyAdvCapGet .current) phyCap40000fdx
  | .adv, .fdx10g => ndTest (p.efxPhyAdvCapGet .current) phyCap10000fdx
  | .adv, .fdx1000 => ndTest (p.efxPhyAdvCapGet .current) phyCap1000fdx
  | .adv, .hdx1000 => ndTest (p.efxPhyAdvCapGet .current) phyCap1000hdx
  | .adv, .fdx100 => ndTest (p.efxPhyAdvCapGet .current) phyCap100fdx
  | .adv, .hdx100 => ndTest (p.efxPhyAdvCapGet .current) phyCap100hdx
  | .adv, .fdx10 => ndTest (p.efxPhyAdvCapGet .current) phyCap10fdx
  | .adv, .hdx10 => ndTest (p.efxPhyAdvCapGet .current) phyCap10hdx
  | .adv, .pause => ndTest (p.efxPhyAdvCapGet .current) phyCapPause
  | .adv, .asmPause => ndTest (p.efxPhyAdvCapGet .current) phyCapAsym
  | .lp, .autoneg => ndTest (p.efxPhyAdvCapGet .current) phyCapAn
  | .lp, .fdx40g => ndTest p.efxPhyLpCapGet phyCap40000fdx
  | .lp, .fdx10g => ndTest p.efxPhyLpCapGet phyCap10000fdx
  | .lp, .fdx1000 => ndTest p.efxPhyLpCapGet phyCap1000fdx
  | .lp, .hdx1000 => ndTest p.efxPhyLpCapGet phyCap1000hdx
  | .lp, .fdx100 => ndTest p.efxPhyLpCapGet phyCap100fdx
  | .lp, .hdx100 => ndTest p.efxPhyLpCapGet phyCap100hdx
  | .lp, .fdx10 => ndTest p.efxPhyLpCapGet phyCap10fdx
  | .lp, .hdx10 => ndTest p.efxPhyLpCapGet phyCap10hdx
  | .lp, .pause => ndTest p.efxPhyLpCapGet phyCapPause
  | .lp, .asmPause => ndTest p.efxPhyLpCapGet phyCapAsym
  | .cap, .autoneg => ndTest (p.efxPhyAdvCapGet .default) phyCapAn
  | .cap, .fdx40g => ndTest (p.efxPhyAdvCapGet .default) phyCap40000fdx
  | .cap, .fdx10g => ndTest (p.efxPhyAdvCapGet .default) phyCap10000fdx
  | .cap, .fdx1000 => ndTest (p.efxPhyAdvCapGet .default) phyCap1000fdx
  | .cap, .hdx1000 => ndTest (p.efxPhyAdvCapGet .default) phyCap1000hdx
  | .cap, .fdx100 => ndTest (p.efxPhyAdvCapGet .default) phyCap100fdx
  | .cap, .hdx100 => ndTest (p.efxPhyAdvCapGet .default) phyCap100hdx
  | .cap, .fdx10 => ndTest (p.efxPhyAdvCapGet .default) phyCap10fdx
  | .cap, .hdx10 => ndTest (p.efxPhyAdvCapGet .default) phyCap10hdx
  | .cap, .pause => ndTest (p.efxPhyAdvCapGet .default) phyCapPause
  | .cap, .asmPause => ndTest (p.efxPhyAdvCapGet .default) phyCapAsym

/-- `sfxge_gld_nd_get` of a capability -/
def sfxgeGldNdGet (p : EfxPort) (started : Bool) (side : CapSide) (c : LinkCap) : Except Errno (BitVec 32) :=
  if started = false then .error .ENODEV else .ok (capProp p side c)

/-! ### What should be reported -/

/-- The bit of a capability. -/
def LinkCap.field : LinkCap → ℕ
  | .fdx40g => phyCap40000fdx
  | .fdx10g => phyCap10000fdx
  | .fdx1000 => phyCap1000fdx
  | .hdx1000 => phyCap1000hdx
  | .fdx100 => phyCap100fdx
  | .hdx100 => phyCap100hdx
  | .fdx10 => phyCap10fdx
  | .hdx10 => phyCap10hdx
  | .asmPause => phyCapAsym
  | .pause => phyCapPause
  | .autoneg => phyCapAn

/-- The mask that each side is about. -/
def EfxPort.capMask (p : EfxPort) : CapSide → BitVec 32
  | .cap => p.defaultAdvCapMask
  | .adv => p.advCapMask
  | .lp => p.lpCapMask

/-- The port has the capability on that side. -/
def EfxPort.hasCap (p : EfxPort) (side : CapSide) (c : LinkCap) : Bool := (p.capMask side).getLsbD c.field

/-- The statistic and the parameter are both the capability's bit. -/
structure Reported (stats : EtherStats) (p : EfxPort) (side : CapSide) (c : LinkCap) : Prop where
  stat : sfxgeGldGetstat stats p true side c = .ok (if p.hasCap side c then 1 else 0)
  prop : sfxgeGldNdGet p true side c = .ok (if p.hasCap side c then 1 else 0)

/-! ### The tests -/

section

variable {p : EfxPort} {field : ℕ}

/-- A capability gets through a `uint8_t` only if its bit fits. -/
theorem setWidth_and_capBit_ne_zero (mask : BitVec 32) (h : field < 32) :
    (mask &&& capBit field).setWidth 8 ≠ 0 ↔ field < 8 ∧ mask.getLsbD field = true := by
  have hbit : capBit field = BitVec.twoPow 32 field := (BitVec.twoPow_eq 32 field).symm
  have hpow : (BitVec.twoPow 32 field).setWidth 8 ≠ 0 ↔ field < 8 := by
    interval_cases field <;> decide
  rw [hbit, BitVec.and_twoPow]
  split_ifs with hm
  · rw [hpow, and_iff_left hm]
  · exact iff_of_false (not_not_intro rfl) fun hf => hm hf.2

theorem ndTest_eq (mask : BitVec 32) (h : field < 32) : ndTest mask field = if mask.getLsbD field then 1 else 0 := by
  unfold ndTest
  rw [if_congr (and_capBit_ne_zero mask h) rfl rfl]

theorem capTest_ne_zero (flag : PhyCapFlag) (h : field < 32) :
    (p.sfxgePhyCapTest true flag field).1 ≠ 0 ↔ (p.efxPhyAdvCapGet flag).getLsbD field = true := by
  rw [← and_capBit_ne_zero _ h]
  simp only [EfxPort.sfxgePhyCapTest, if_true]
  split_ifs with hb
  · exact iff_of_true (by decide) hb
  · exact iff_of_false (by decide) hb

theorem dflCapTest64_eq (h : field < 32) :
    p.sfxgePhyDflCapTest64 true field = if p.defaultAdvCapMask.getLsbD field then 1 else 0 :=
  if_congr (capTest_ne_zero .default h) rfl rfl

theorem curCapTest64_eq (h : field < 32) :
    p.sfxgePhyCurCapTest64 true field = if p.advCapMask.getLsbD field then 1 else 0 :=
  if_congr (capTest_ne_zero .current h) rfl rfl

/-- Only the capabilities of the low byte get through. -/
theorem lpCapTest64_eq (h : field < 32) :
    p.sfxgePhyLpCapTest64 true field = if field < 8 ∧ p.lpCapMask.getLsbD field = true then 1 else 0 :=
  if_congr (setWidth_and_capBit_ne_zero _ h) rfl rfl

end

/-! ### The tables -/

section

variable {stats : EtherStats} {p : EfxPort} {side : CapSide} {c : LinkCap}

theorem LinkCap.field_lt (c : LinkCap) : c.field < 32 := by
  cases c <;> decide

theorem capStat_cap (c : LinkCap) : capStat p true .cap c = if p.hasCap .cap c then 1 else 0 := by
  rw [EfxPort.hasCap, EfxPort.capMask, ← dflCapTest64_eq c.field_lt]
  cases c <;> rfl

theorem capStat_adv (c : LinkCap) : capStat p true .adv c = if p.hasCap .adv c then 1 else 0 := by
  rw [EfxPort.hasCap, EfxPort.capMask, ← curCapTest64_eq c.field_lt]
  cases c <;> rfl

theorem capStat_lp (c : LinkCap) :
    capStat p true .lp c = if c.field < 8 ∧ p.hasCap .lp c = true then 1 else 0 := by
  rw [EfxPort.hasCap, EfxPort.capMask, ← lpCapTest64_eq c.field_lt]
  cases c <;> rfl

theorem capProp_cap (c : LinkCap) : capProp p .cap c = if p.hasCap .cap c then 1 else 0 := by
  rw [EfxPort.hasCap, EfxPort.capMask, ← ndTest_eq _ c.field_lt]
  cases c <;> rfl

theorem capProp_adv (c : LinkCap) : capProp p .adv c = if p.hasCap .adv c then 1 else 0 := by
  rw [EfxPort.hasCap, EfxPort.capMask, ← ndTest_eq _ c.field_lt]
  cases c <;> rfl

theorem capProp_lp (hc : c ≠ .autoneg) : capProp p .lp c = if p.hasCap .lp c then 1 else 0 := by
  rw [EfxPort.hasCap, EfxPort.capMask, ← ndTest_eq _ c.field_lt]
  cases c <;> first | rfl | exact absurd rfl hc

theorem capProp_lp_autoneg : capProp p .lp .autoneg = if p.hasCap .adv .autoneg then 1 else 0 := capProp_adv .autoneg

/-- **A statistic** is the bit, unless it is the link partner's and the bit does not fit a byte. -/
theorem stat_iff (hs : stats.has side c = true) :
    sfxgeGldGetstat stats p true side c = .ok (if p.hasCap side c then 1 else 0) ↔
      (side = .lp → 8 ≤ c.field → p.hasCap .lp c = false) := by
  have hget : sfxgeGldGetstat stats p true side c = .ok (capStat p true side c) := by
    rw [sfxgeGldGetstat, if_neg Bool.noConfusion, if_pos hs]
  rw [hget, Except.ok.injEq]
  cases side with
  | cap => exact iff_of_true (capStat_cap c) nofun
  | adv => exact iff_of_true (capStat_adv c) nofun
  | lp =>
    rw [capStat_lp]
    cases hb : p.hasCap .lp c with
    | false => simp
    | true =>
      by_cases hf : c.field < 8
      · exact iff_of_true (by simp [hf]) fun _ h => absurd hf (Nat.not_lt.mpr h)
      · exact iff_of_false (by simp [hf]) fun h => Bool.noConfusion (h rfl (Nat.not_lt.mp hf))

/-- **A parameter** is the bit, but the link partner's auto-negotiation is that of the port itself. -/
theorem prop_iff :
    sfxgeGldNdGet p true side c = .ok (if p.hasCap side c then 1 else 0) ↔
      (side = .lp → c = .autoneg → p.hasCap .adv .autoneg = p.hasCap .lp .autoneg) := by
  have hget : sfxgeGldNdGet p true side c = .ok (capProp p side c) := by
    rw [sfxgeGldNdGet, if_neg Bool.noConfusion]
  rw [hget, Except.ok.injEq]
  cases side with
  | cap => exact iff_of_true (capProp_cap c) nofun
  | adv => exact iff_of_true (capProp_adv c) nofun
  | lp =>
    by_cases hc : c = .autoneg
    · subst hc
      rw [capProp_lp_autoneg]
      cases p.hasCap .adv .autoneg <;> cases p.hasCap .lp .autoneg <;> simp
    · exact iff_of_true (capProp_lp hc) fun _ h => absurd h hc

end

/-- **The two interfaces report the masks** exactly if the link partner has none of the capabilities that do not fit a
byte and the port does not advertise auto-negotiation. -/
theorem reported_iff (stats : EtherStats) (p : EfxPort) :
    (∀ side c, stats.has side c = true → Reported stats p side c) ↔
      p.hasCap .lp .pause = false ∧ p.hasCap .lp .asmPause = false ∧ p.hasCap .lp .autoneg = false ∧
        (stats.fdx40g .lp = true → p.hasCap .lp .fdx40g = false) ∧ p.hasCap .adv .autoneg = false := by
  constructor
  · intro h
    have hlp : ∀ c, stats.has .lp c = true → 8 ≤ c.field → p.hasCap .lp c = false := fun c hs =>
      (stat_iff hs).mp (h .lp c hs).stat rfl
    have han := hlp .autoneg rfl (by decide)
    have hadv := prop_iff.mp (h .lp .autoneg rfl).prop rfl rfl
    exact ⟨hlp .pause rfl (by decide), hlp .asmPause rfl (by decide), han, fun hs => hlp .fdx40g hs (by decide),
      hadv.trans han⟩
  · rintro ⟨hpause, hasm, han, h40g, hadv⟩ side c hs
    refine ⟨(stat_iff hs).mpr ?_, prop_iff.mpr fun _ _ => hadv.trans han.symm⟩
    rintro rfl hf
    cases c with
    | fdx40g => exact h40g hs
    | asmPause => exact hasm
    | pause => exact hpause
    | autoneg => exact han
    | _ => exact absurd hf (by decide)

/-- A port at 10G whose link partner pauses. -/
def pausingPartner : EfxPort where
  advCapMask := capBit phyCap10000fdx
  lpCapMask := capBit phyCap10000fdx ||| capBit phyCapPause
  defaultAdvCapMask := capBit phyCap10000fdx
  phyCapMask := capBit phyCap10000fdx ||| capBit phyCapPause ||| capBit phyCapAsym
  fcntl := 0
  fcntlAutoneg := false
  macPdu := 1518
  macDrain := false
  macAddr := portAddr
  mode := .zero

/-- The parameter says that the link partner can pause, the statistic that it cannot. -/
theorem lp_pause_lost :
    ¬ ∀ (stats : EtherStats) (p : EfxPort) (side : CapSide) (c : LinkCap), stats.has side c = true →
      Reported stats p side c := by
  intro h
  have hs := (h ⟨fun _ => true, fun _ => true⟩ pausingPartner .lp .pause rfl).stat
  exact absurd hs (by decide)

end Sfxge.Mac
