import Sfxge.Mac.Port

/-!
# Mac.Siena — forced flow control on Siena

`siena_mac_reconfigure` sends the flow control in `ep_fcntl`.  `efx_mac_fcntl_set` stores there what is forced, and
the link's reports are stored there too: by `siena_phy_link_ev` only on a PHY with auto-negotiation, by
`siena_mac_poll` always.  All MCDI commands succeed.
-/

namespace Sfxge.Mac

open Lib

/-! ### Link state -/

/-- `efx_link_mode_t` -/
inductive LinkMode
  | unknown
  | down
  | tenHdx
  | tenFdx
  | hundredHdx
  | hundredFdx
  | thousandHdx
  | thousandFdx
  | tenThousandFdx
  | fortyThousandFdx
  deriving Repr, DecidableEq

/-- `siena_phy_decode_cap`: the capabilities up to `EFX_PHY_CAP_AN` have the same bits on both sides. -/
def sienaPhyDecodeCap (mcdiCap : BitVec 32) : BitVec 32 :=
  (List.range' 1 10).foldl (fun mask lbn => if mcdiCap &&& capBit lbn ≠ 0 then mask ||| capBit lbn else mask) 0

/-- The flow control part of `siena_phy_decode_link_mode`. -/
def decodeFcntl (fcntl : ℕ) : BitVec 32 :=
  match fcntl with
  | 0 => 0
  | 1 => fcntlRespond
  | 2 => fcntlRespond ||| fcntlGenerate
  | _ => 0

/-- `siena_phy_decode_link_mode` -/
def sienaPhyDecodeLinkMode (linkFlags : BitVec 32) (speed fcntl : ℕ) : LinkMode × BitVec 32 :=
  let up := linkFlags &&& capBit 0 ≠ 0
  let fd := linkFlags &&& capBit 1 ≠ 0
  let mode :=
    if ¬ up then LinkMode.down
    else if speed = 10000 ∧ fd then .tenThousandFdx
    else if speed = 1000 then if fd then .thousandFdx else .thousandHdx
    else if speed = 100 then if fd then .hundredFdx else .hundredHdx
    else if speed = 10 then if fd then .tenFdx else .tenHdx
    else .unknown
  (mode, decodeFcntl fcntl)

/-- What the MC answers to `MC_CMD_GET_LINK`. -/
structure GetLink where
  cap : BitVec 32
  flags : BitVec 32
  speed : ℕ
  fcntl : ℕ
  deriving Repr, DecidableEq

/-- A link-change event. -/
structure LinkChange where
  speed : ℕ
  flags : BitVec 32
  fcntl : ℕ
  lpCap : BitVec 32
  deriving Repr, DecidableEq

/-- The speed of a link-change event in mbit/s. -/
def LinkChange.mbits (ev : LinkChange) : ℕ :=
  match ev.speed with
  | 1 => 100
  | 2 => 1000
  | 3 => 10000
  | _ => 0

/-! ### The MAC -/

/-- `MC_CMD_FCNTL_*` -/
inductive McFcntl
  | off
  | respond
  | bidir
  | auto
  deriving Repr, DecidableEq

/-- `MC_CMD_SET_MAC` -/
structure SetMac where
  mtu : ℕ
  drain : Bool
  addr : EtherAddr
  rejectUncst : Bool
  rejectBrdcst : Bool
  fcntl : McFcntl
  deriving Repr, DecidableEq

/-- The flow control mode of a forced setting. -/
def forcedMode (fcntl : BitVec 32) : McFcntl :=
  if fcntl &&& fcntlRespond ≠ 0 then if fcntl &&& fcntlGenerate ≠ 0 then .bidir else .respond else .off

namespace EfxPort

variable (p : EfxPort)

/-- The command that `siena_mac_reconfigure` sends. -/
def setMac : SetMac where
  mtu := p.macPdu
  drain := p.macDrain
  addr := p.macAddr
  rejectUncst := !p.mode.allUnicst
  rejectBrdcst := !p.mode.brdcst
  fcntl := if p.fcntlAutoneg then .auto else forcedMode p.fcntl

/-- `siena_mac_poll` -/
def sienaMacPoll (link : GetLink) : EfxPort × LinkMode :=
  let (mode, fcntl) := sienaPhyDecodeLinkMode link.flags link.speed link.fcntl
  ({ p with advCapMask := sienaPhyDecodeCap link.cap, fcntl := fcntl }, mode)

/-- `siena_phy_link_ev`: a forced setting is left alone. -/
def sienaPhyLinkEv (ev : LinkChange) : EfxPort × LinkMode :=
  let (mode, fcntl) := sienaPhyDecodeLinkMode ev.flags ev.mbits ev.fcntl
  ({ p with
      lpCapMask := sienaPhyDecodeCap ev.lpCap
      fcntl := if p.hasAn then fcntl else p.fcntl }, mode)

end EfxPort

/-! ### Runs -/

/-- An operation on the port. -/
inductive PortOp
  | fcntlSet (fcntl : FlowControl) (autoneg : Bool)
  | portPoll (link : GetLink)
  | linkEv (ev : LinkChange)
  | pduSet (pdu : ℕ)
  | addrSet (addr : EtherAddr)
  | filterSet (allUnicst mulcst allMulcst brdcst : Bool)
  | multicastListSet (addrs : List EtherAddr)
  | drain (enabled : Bool)

/-- The port, and as ghosts what was last forced, what `efx_port_poll` has found since, and the commands sent, each
with what had been forced at the time. -/
structure SienaPort where
  port : EfxPort
  forced : Option FlowControl
  polled : Option GetLink
  sent : List (Option FlowControl × SetMac)

namespace SienaPort

variable (s : SienaPort)

/-- `siena_mac_reconfigure` of the port `p` that an operation has left -/
def reconfigure (p : EfxPort) : SienaPort := { s with port := p, sent := s.sent ++ [(s.forced, p.setMac)] }

/-- An operation that reconfigures the MAC unless it returns an error. -/
def reconfigureUnless (r : EfxPort × Option Errno) : SienaPort :=
  match r with
  | (p, none) => s.reconfigure p
  | (_, some _) => s

end SienaPort

/-- One operation; its MCDI commands succeed. -/
def portStep : PortOp → SienaPort → Option SienaPort
  | .fcntlSet fcntl autoneg, s =>
    some ({ s with forced := some fcntl, polled := none }.reconfigureUnless
      (s.port.efxMacFcntlSet fcntl.bits autoneg none none))
  | .portPoll link, s => some { s with port := (s.port.sienaMacPoll link).1, polled := some link }
  | .linkEv ev, s => some { s with port := (s.port.sienaPhyLinkEv ev).1 }
  | .pduSet pdu, s => some (s.reconfigureUnless (s.port.efxMacPduSet pdu none))
  | .addrSet addr, s => some (s.reconfigureUnless (s.port.efxMacAddrSet addr none))
  | .filterSet allUnicst mulcst allMulcst brdcst, s =>
    some (s.reconfigureUnless (s.port.efxMacFilterSet allUnicst mulcst allMulcst brdcst none))
  | .multicastListSet addrs, s => some (s.reconfigureUnless (s.port.efxMacMulticastListSet addrs none))
  | .drain enabled, s =>
    some (if s.port.macDrain = enabled then s else s.reconfigureUnless (s.port.efxMacDrain enabled none))

/-- Nothing has been forced yet on this port, whose PHY cannot auto-negotiate. -/
structure SienaPort.Init (s : SienaPort) : Prop where
  an : s.port.hasAn = false
  forced : s.forced = none
  sent : s.sent = []

/-- Every command sent after flow control has been forced carries what was forced last. -/
def CarriesForced (s : SienaPort) : Prop := ∀ f c, (some f, c) ∈ s.sent → c.fcntl = forcedMode f.bits

/-- Whether an operation other than `efx_mac_fcntl_set` reconfigures the MAC. -/
def PortOp.reconfigures (p : EfxPort) : PortOp → Bool
  | .pduSet pdu => macPduMin ≤ pdu ∧ pdu ≤ macPduMax
  | .addrSet addr => validAddr addr
  | .filterSet _ _ _ _ => true
  | .multicastListSet addrs => addrs.length ≤ mcastListMax
  | .drain enabled => p.macDrain ≠ enabled
  | .fcntlSet _ _ | .portPoll _ | .linkEv _ => false

/-- The operation does not reconfigure the MAC after `efx_port_poll` has found another flow control mode than the
one that was forced last before it. -/
def PollAgrees (o : PortOp) (s : SienaPort) : Prop :=
  o.reconfigures s.port → ∀ f link, s.forced = some f → s.polled = some link →
    forcedMode (decodeFcntl link.fcntl) = forcedMode f.bits

/-! ### What the steps keep -/

variable {s s' : SienaPort} {o : PortOp}

/-- Where flow control has been forced, `ep_fcntl` holds what was forced, or what has been polled since. -/
structure SienaPort.Sound (s : SienaPort) : Prop where
  an : s.port.hasAn = false
  autoneg : s.forced ≠ none → s.port.fcntlAutoneg = false
  fcntl : ∀ f, s.forced = some f → s.port.fcntl = (s.polled.map fun link => decodeFcntl link.fcntl).getD f.bits

theorem SienaPort.Init.sound (h : s.Init) : s.Sound :=
  ⟨h.an, fun hf => absurd h.forced hf, fun f hf => by simp [h.forced] at hf⟩

theorem carriesForced_reconfigure (p : EfxPort) :
    CarriesForced (s.reconfigure p) ↔
      CarriesForced s ∧ ∀ f, s.forced = some f → p.setMac.fcntl = forcedMode f.bits := by
  simp only [CarriesForced, SienaPort.reconfigure, List.mem_append, List.mem_singleton, Prod.mk.injEq, or_imp,
    forall_and]
  refine and_congr_right fun _ => ⟨fun h f hf => h f _ ⟨hf.symm, rfl⟩, fun h f c hc => ?_⟩
  rw [hc.2]
  exact h f hc.1.symm

/-- Two ports with the same flow control. -/
structure EfxPort.SameFcntl (p q : EfxPort) : Prop where
  fcntl : p.fcntl = q.fcntl
  autoneg : p.fcntlAutoneg = q.fcntlAutoneg
  phyCapMask : p.phyCapMask = q.phyCapMask

/-- An operation of the last kind reconfigures a MAC with the same flow control, or does nothing. -/
def Reconfigures (o : PortOp) (s s' : SienaPort) : Prop :=
  (o.reconfigures s.port = true ∧ ∃ p : EfxPort, p.SameFcntl s.port ∧ s' = s.reconfigure p) ∨
    (o.reconfigures s.port = false ∧ s' = s)

/-- **What a step does.** -/
theorem portStep_cases (h : portStep o s = some s') :
    (∃ f autoneg, o = .fcntlSet f autoneg ∧
      s' = { s with forced := some f, polled := none }.reconfigure (s.port.withFcntl f.bits autoneg)) ∨
    (∃ link, o = .portPoll link ∧ s' = { s with port := (s.port.sienaMacPoll link).1, polled := some link }) ∨
    (∃ ev, o = .linkEv ev ∧ s' = { s with port := (s.port.sienaPhyLinkEv ev).1 }) ∨
    Reconfigures o s s' := by
  cases o with
  | fcntlSet f autoneg =>
    refine .inl ⟨f, autoneg, rfl, ?_⟩
    cases f <;> exact (Option.some.inj h).symm
  | portPoll link => exact .inr (.inl ⟨link, rfl, (Option.some.inj h).symm⟩)
  | linkEv ev => exact .inr (.inr (.inl ⟨ev, rfl, (Option.some.inj h).symm⟩))
  | pduSet pdu =>
    refine .inr (.inr (.inr ?_))
    cases h
    by_cases hv : pdu < macPduMin ∨ macPduMax < pdu
    · refine .inr ⟨by simp [PortOp.reconfigures]; omega, ?_⟩
      rw [EfxPort.efxMacPduSet, if_pos hv]
      rfl
    · refine .inl ⟨by simp [PortOp.reconfigures]; omega, { s.port with macPdu := pdu }, ⟨rfl, rfl, rfl⟩, ?_⟩
      rw [EfxPort.efxMacPduSet, if_neg hv]
      rfl
  | addrSet addr =>
    refine .inr (.inr (.inr ?_))
    cases h
    cases hv : validAddr addr with
    | false =>
      refine .inr ⟨hv, ?_⟩
      simp [EfxPort.efxMacAddrSet, hv, SienaPort.reconfigureUnless]
    | true =>
      refine .inl ⟨hv, { s.port with macAddr := addr }, ⟨rfl, rfl, rfl⟩, ?_⟩
      simp [EfxPort.efxMacAddrSet, hv, SienaPort.reconfigureUnless]
  | filterSet allUnicst mulcst allMulcst brdcst =>
    cases h
    exact .inr (.inr (.inr (.inl ⟨rfl,
      { s.port with mode := { s.port.mode with allUnicst, mulcst, allMulcst, brdcst } }, ⟨rfl, rfl, rfl⟩, rfl⟩)))
  | multicastListSet addrs =>
    refine .inr (.inr (.inr ?_))
    cases h
    by_cases hv : addrs.length > mcastListMax
    · refine .inr ⟨by simp [PortOp.reconfigures]; omega, ?_⟩
      rw [EfxPort.efxMacMulticastListSet, if_pos hv]
      rfl
    · refine .inl ⟨by simp [PortOp.reconfigures]; omega,
        { s.port with mode := { s.port.mode with mulcstAddrList := addrs } }, ⟨rfl, rfl, rfl⟩, ?_⟩
      rw [EfxPort.efxMacMulticastListSet, if_neg hv]
      rfl
  | drain enabled =>
    refine .inr (.inr (.inr ?_))
    cases h
    by_cases hv : s.port.macDrain = enabled
    · exact .inr ⟨by simp [PortOp.reconfigures, hv], if_pos hv⟩
    · refine .inl ⟨by simp [PortOp.reconfigures, hv], { s.port with macDrain := enabled }, ⟨rfl, rfl, rfl⟩,
        (if_neg hv).trans ?_⟩
      rw [EfxPort.efxMacDrain, if_neg hv]
      rfl

theorem EfxPort.SameFcntl.hasAn {p q : EfxPort} (h : p.SameFcntl q) : p.hasAn = q.hasAn := by
  rw [EfxPort.hasAn, EfxPort.hasAn, h.phyCapMask]

theorem SienaPort.Sound.step (h : s.Sound) (hs : portStep o s = some s') : s'.Sound := by
  obtain ⟨f, autoneg, -, rfl⟩ | ⟨link, -, rfl⟩ | ⟨ev, -, rfl⟩ | ⟨-, p, hp, rfl⟩ | ⟨-, rfl⟩ := portStep_cases hs
  · refine ⟨h.an, fun _ => ?_, fun g hg => ?_⟩
    · simp [SienaPort.reconfigure, EfxPort.withFcntl, h.an]
    · cases hg
      rfl
  · exact ⟨h.an, h.autoneg, fun g _ => rfl⟩
  · refine ⟨h.an, h.autoneg, fun g hg => ?_⟩
    simp only [EfxPort.sienaPhyLinkEv, h.an]
    exact h.fcntl g hg
  · exact ⟨hp.hasAn.trans h.an, fun hf => hp.autoneg.trans (h.autoneg hf), fun f hf => hp.fcntl.trans (h.fcntl f hf)⟩
  · exact h

/-- The flow control that a MAC is reconfigured with after it has been forced. -/
theorem SienaPort.Sound.setMac_fcntl (h : s.Sound) {p : EfxPort} (hp : p.SameFcntl s.port) {f : FlowControl}
    (hf : s.forced = some f) :
    p.setMac.fcntl = forcedMode ((s.polled.map fun link => decodeFcntl link.fcntl).getD f.bits) := by
  have hauto : p.fcntlAutoneg = false := hp.autoneg.trans (h.autoneg (by simp [hf]))
  rw [EfxPort.setMac, hauto, hp.fcntl, h.fcntl f hf]
  rfl

/-- A step from a state in which every command carries what was forced leads to another exactly when the operation
agrees with the polls. -/
theorem SienaPort.Sound.carries_iff (h : s.Sound) (hc : CarriesForced s) (hs : portStep o s = some s') :
    CarriesForced s' ↔ PollAgrees o s := by
  obtain ⟨f, autoneg, rfl, rfl⟩ | ⟨link, rfl, rfl⟩ | ⟨ev, rfl, rfl⟩ | ⟨hr, p, hp, rfl⟩ | ⟨hr, rfl⟩ :=
    portStep_cases hs
  · refine iff_of_true ?_ fun hr => by cases hr
    rw [carriesForced_reconfigure]
    refine ⟨hc, fun g hg => ?_⟩
    cases hg
    simp [EfxPort.setMac, EfxPort.withFcntl, h.an]
  · exact iff_of_true hc fun hr => by cases hr
  · exact iff_of_true hc fun hr => by cases hr
  · rw [carriesForced_reconfigure, and_iff_right hc]
    constructor
    · intro hall _ f link hf hlink
      have := h.setMac_fcntl hp hf
      rw [hall f hf, hlink] at this
      exact this.symm
    · intro hagree f hf
      rw [h.setMac_fcntl hp hf]
      cases hpoll : s.polled with
      | none => rfl
      | some link => exact hagree hr f link hf hpoll
  · exact iff_of_true hc fun hr' => by rw [hr] at hr'; cases hr'

/-- **Forced flow control over runs.**  In every run on a PHY without auto-negotiation the commands carry what was
forced last exactly when the MAC is never reconfigured after a poll has found another flow control mode. -/
theorem forced_fcntl_iff {s : SienaPort} (h : s.Init) (os : List PortOp) :
    AlwaysAlong portStep CarriesForced os s ↔ StepsAlong portStep PollAgrees os s :=
  alwaysAlong_iff_of_inv (fun _ _ _ hI hs => hI.step hs) (fun _ _ _ hI hP hs => hI.carries_iff hP hs) os h.sound
    fun f c hm => by simp [h.sent] at hm

/-! ### A port without auto-negotiation -/

/-- A port after `efx_port_init`. -/
def plainPort : SienaPort where
  port := ⟨0, 0, 0, capBit 7, 0, false, 1500, true, portAddr, .zero⟩
  forced := none
  polled := none
  sent := []

theorem plainPort_init : plainPort.Init := ⟨by decide, rfl, rfl⟩

/-- The link is polled as it has been forced. -/
theorem forced_fcntl_plain :
    AlwaysAlong portStep CarriesForced
      [.fcntlSet .respond true, .portPoll ⟨0, 3, 10000, 1⟩, .linkEv ⟨3, 3, 0, 0⟩, .drain false] plainPort := by
  refine (forced_fcntl_iff plainPort_init _).mpr ?_
  rintro s1 ⟨⟩
  refine ⟨(by rintro ⟨⟩), ?_⟩
  rintro s2 ⟨⟩
  refine ⟨(by rintro ⟨⟩), ?_⟩
  rintro s3 ⟨⟩
  refine ⟨(by rintro ⟨⟩), ?_⟩
  rintro s4 ⟨⟩
  refine ⟨?_, trivial⟩
  rintro - f link ⟨⟩ ⟨⟩
  decide

/-- Flow control is forced, the link is polled while it is down, and the MAC is reconfigured: flow control is
off. -/
theorem forced_fcntl_lost :
    ¬ AlwaysAlong portStep CarriesForced [.fcntlSet .respond true, .portPoll ⟨0, 0, 0, 0⟩, .drain false] plainPort := by
  intro h
  have hlast : CarriesForced _ := (((h.2 _ rfl).2 _ rfl).2 _ rfl)
  have := hlast .respond ⟨1500, false, #v[0, 0x0f, 0x53, 0, 0, 1], true, true, .off⟩ (by decide)
  revert this
  decide

end Sfxge.Mac
