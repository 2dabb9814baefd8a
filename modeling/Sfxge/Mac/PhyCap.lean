import Sfxge.Mac.Port

/-!
# Mac.PhyCap — capability requests for a MAC that is not started

`sfxge_phy_cap_set` stores requests in two sets while the MAC is not started, and `sfxge_mac_start` takes them to the
port with `sfxge_phy_cap_apply`, which clears the sets.  `Kept` says of a history that the sets still hold the last
request for each field, `requested` what they ask for.
-/

namespace Sfxge.Mac

open Lib

/-- The parts of `sfxge_mac_t` that have to do with capabilities, and the port. -/
structure PhyMac where
  port : EfxPort
  started : Bool
  toSet : BitVec 32
  toUnset : BitVec 32
  fcntl : BitVec 32

/-- How the calls of `sfxge_mac_start` end; `link` are the capabilities with which `efx_port_poll` answers in
`efx_port_init`, and `phyCap` and `phyDefault` the two PHY reconfigurations of `sfxge_phy_cap_apply`. -/
structure StartOutcome where
  portInit : Option Errno
  link : Option (BitVec 32)
  phyCap : Option Errno
  phyDefault : Option Errno
  pduSet : Option Errno
  fcntlPhy : Option Errno
  fcntlMac : Option Errno
  addrSet : Option Errno
  filterApply : Option Errno
  statsPeriodic : Option Errno
  drain : Option Errno

namespace PhyMac

variable (s : PhyMac)

def setPort (p : EfxPort) : PhyMac := { s with port := p }

/-- `efx_port_init` picks up the current capabilities. -/
def polled (out : StartOutcome) : PhyMac := s.setPort { s.port with advCapMask := out.link.getD s.port.advCapMask }

/-- `sfxge_phy_cap_apply` -/
def phyCapApply (useDefault : Bool) (out : StartOutcome) : PhyMac × Option Errno :=
  let base := if useDefault then s.port.defaultAdvCapMask else s.port.advCapMask
  let advCap := (base ||| s.toSet) &&& ~~~s.toUnset
  let s1 := { s with toSet := 0, toUnset := 0 }
  match s1.port.efxPhyAdvCapSet advCap out.phyCap with
  | (p, none) => (s1.setPort p, none)
  | (p, some .EINVAL) =>
    -- the configuration wasn't accepted, so set to defaults
    let (p, rc) := p.efxPhyAdvCapSet p.defaultAdvCapMask out.phyDefault
    (s1.setPort p, rc)
  | (p, some e) => (s1.setPort p, some e)

/-- `sfxge_mac_start`; of its later calls only `efx_mac_fcntl_set` works on the capabilities. -/
def sfxgeMacStart (restart : Bool) (out : StartOutcome) : PhyMac × Option Errno :=
  let s1 := s.polled out
  match out.portInit with
  | some e => (s1, some e)
  | none =>
    match s1.phyCapApply (!restart) out with
    | (s2, some e) => (s2, some e)
    | (s2, none) =>
      match out.pduSet with
      | some e => (s2, some e)
      | none =>
        match s2.port.efxMacFcntlSet s2.fcntl true out.fcntlPhy out.fcntlMac with
        | (p, some e) => (s2.setPort p, some e)
        | (p, none) =>
          match [out.addrSet, out.filterApply, out.statsPeriodic, out.drain].findSome? id with
          | some e => (s2.setPort p, some e)
          | none => ({ s2.setPort p with started := true }, none)

/-- `sfxge_phy_cap_set`; `phy` is how a reconfiguration of the PHY ends. -/
def sfxgePhyCapSet (field : Fin 32) (set : Bool) (phy : Option Errno) : PhyMac × Option Errno :=
  if s.started then
    let cap := s.port.advCapMask
    let cap := if set then cap ||| capBit field else cap &&& ~~~capBit field
    let (p, rc) := s.port.efxPhyAdvCapSet cap phy
    (s.setPort p, rc)
  -- store the request for when the mac is started
  else if set then ({ s with toSet := s.toSet ||| capBit field }, none)
  else ({ s with toUnset := s.toUnset ||| capBit field }, none)

end PhyMac

/-! ### Histories -/

/-- A request, or an attempt to start. -/
inductive CapOp
  | capSet (field : Fin 32) (set : Bool)
  | start (restart : Bool) (out : StartOutcome)

/-- One operation; a MAC that is started is not started again. -/
def capStep : CapOp → PhyMac → Option PhyMac
  | .capSet field set, s => some (s.sfxgePhyCapSet field set none).1
  | .start restart out, s => if s.started then none else some (s.sfxgeMacStart restart out).1

/-- Nothing has been requested of a MAC that is not started. -/
structure PhyMac.Init (s : PhyMac) : Prop where
  started : s.started = false
  toSet : s.toSet = 0
  toUnset : s.toUnset = 0

/-- A mask with each requested field as it was requested last. -/
def requested (mask : BitVec 32) : List CapOp → BitVec 32
  | [] => mask
  | .capSet field true :: os => requested (mask ||| capBit field) os
  | .capSet field false :: os => requested (mask &&& ~~~capBit field) os
  | .start _ _ :: os => requested mask os

/-- The last request for a field, `last` where there is none. -/
def lastRequest (field : Fin 32) (last : Option Bool) : List CapOp → Option Bool
  | [] => last
  | .capSet f set :: os => lastRequest field (if f = field then some set else last) os
  | .start _ _ :: os => lastRequest field last os

/-- The requests since the last attempt that got as far as `sfxge_phy_cap_apply`, after those of `reqs`. -/
def pending (reqs : List (Fin 32 × Bool)) : List CapOp → List (Fin 32 × Bool)
  | [] => reqs
  | .capSet f set :: os => pending (reqs ++ [(f, set)]) os
  | .start _ out :: os => pending (if out.portInit = none then [] else reqs) os

/-- The last request for each field has been made since the last attempt that got as far as `sfxge_phy_cap_apply`,
and where it asks for the field it has not been asked to be cleared since then. -/
def Kept (os : List CapOp) : Prop :=
  ∀ f set, lastRequest f none os = some set → (f, set) ∈ pending [] os ∧ (set = true → (f, false) ∉ pending [] os)

/-- The mask that a start begins with: the default one, or on a restart the current one. -/
def PhyMac.base (s : PhyMac) (restart : Bool) (out : StartOutcome) : BitVec 32 :=
  if restart then (s.polled out).port.advCapMask else s.port.defaultAdvCapMask

/-- All calls of a start succeed. -/
def StartOutcome.Succeeds (out : StartOutcome) : Prop :=
  out.portInit = none ∧ out.phyCap = none ∧ out.phyDefault = none ∧ out.pduSet = none ∧ out.fcntlPhy = none ∧
    out.fcntlMac = none ∧ out.addrSet = none ∧ out.filterApply = none ∧ out.statsPeriodic = none ∧ out.drain = none

/-! ### Bits of a mask -/

/-- The mask has the field `f`. -/
def hasField (mask : BitVec 32) (f : Fin 32) : Bool := mask.getLsbD f

@[simp] theorem hasField_zero (f : Fin 32) : hasField 0#32 f = false := by simp [hasField]

@[simp] theorem hasField_or (m k : BitVec 32) (f : Fin 32) : hasField (m ||| k) f = (hasField m f || hasField k f) :=
  BitVec.getLsbD_or ..

@[simp] theorem hasField_and (m k : BitVec 32) (f : Fin 32) : hasField (m &&& k) f = (hasField m f && hasField k f) :=
  BitVec.getLsbD_and ..

@[simp] theorem hasField_not (m : BitVec 32) (f : Fin 32) : hasField (~~~m) f = !hasField m f := by
  have := f.isLt
  simp [hasField]

@[simp] theorem hasField_capBit (f g : Fin 32) : hasField (capBit f) g = decide (g = f) := by
  have := f.isLt
  have := g.isLt
  simp only [hasField, capBit, BitVec.getLsbD_shiftLeft, BitVec.getLsbD_one]
  grind

theorem eq_of_hasField {m k : BitVec 32} (h : ∀ f, hasField m f = hasField k f) : m = k :=
  BitVec.eq_of_getLsbD_eq fun i hi => h ⟨i, hi⟩

/-- A requested mask field by field. -/
theorem hasField_requested (os : List CapOp) {mask : BitVec 32} {last : Option Bool} {f : Fin 32} {b : Bool}
    (h : hasField mask f = last.getD b) : hasField (requested mask os) f = (lastRequest f last os).getD b := by
  induction os generalizing mask last with
  | nil => exact h
  | cons o os ih =>
    cases o with
    | start => exact ih h
    | capSet g set =>
      by_cases hg : g = f
      · subst hg
        cases set <;> exact ih (by simp)
      · have hne : f ≠ g := fun e => hg e.symm
        cases set <;> exact ih (by simp [hg, hne, h])

/-! ### What the sets hold -/

/-- The sets hold the requests `reqs`. -/
structure PhyMac.Holds (reqs : List (Fin 32 × Bool)) (s : PhyMac) : Prop where
  toSet : ∀ f, hasField s.toSet f = decide ((f, true) ∈ reqs)
  toUnset : ∀ f, hasField s.toUnset f = decide ((f, false) ∈ reqs)

variable {s s' : PhyMac} {reqs : List (Fin 32 × Bool)} {restart : Bool} {out : StartOutcome}

theorem PhyMac.Init.holds (h : s.Init) : s.Holds [] :=
  ⟨fun f => by simp [h.toSet], fun f => by simp [h.toUnset]⟩

theorem PhyMac.Holds.capSet (h : s.Holds reqs) (hs : s.started = false) (f : Fin 32) (set : Bool)
    (phy : Option Errno) : (s.sfxgePhyCapSet f set phy).1.Holds (reqs ++ [(f, set)]) := by
  cases set with
  | true => exact ⟨fun g => by simp [PhyMac.sfxgePhyCapSet, hs, h.toSet],
      fun g => by simp [PhyMac.sfxgePhyCapSet, hs, h.toUnset]⟩
  | false => exact ⟨fun g => by simp [PhyMac.sfxgePhyCapSet, hs, h.toSet],
      fun g => by simp [PhyMac.sfxgePhyCapSet, hs, h.toUnset]⟩

/-- What an attempt to start does not touch. -/
structure PhyMac.Keeps (s s' : PhyMac) : Prop where
  fcntl : s'.fcntl = s.fcntl
  phyCapMask : s'.port.phyCapMask = s.port.phyCapMask
  defaultAdvCapMask : s'.port.defaultAdvCapMask = s.port.defaultAdvCapMask

theorem EfxPort.efxPhyAdvCapSet_keeps (p : EfxPort) (mask : BitVec 32) (phy : Option Errno) :
    (p.efxPhyAdvCapSet mask phy).1 = { p with advCapMask := (p.efxPhyAdvCapSet mask phy).1.advCapMask } := by
  unfold EfxPort.efxPhyAdvCapSet
  split_ifs
  · rfl
  · rfl
  · cases phy <;> rfl

/-- A mask that is permitted is set. -/
theorem EfxPort.efxPhyAdvCapSet_of_permitted {p : EfxPort} {mask : BitVec 32} (h : mask &&& ~~~p.phyCapMask = 0) :
    p.efxPhyAdvCapSet mask none = ({ p with advCapMask := mask }, none) := by
  rw [EfxPort.efxPhyAdvCapSet, if_neg (not_not.mpr h)]
  split_ifs with heq
  · rw [← heq]
  · rfl

/-- The sets are empty after `sfxge_phy_cap_apply`, whatever it returns. -/
theorem PhyMac.phyCapApply_sets (useDefault : Bool) :
    (s.phyCapApply useDefault out).1.toSet = 0 ∧ (s.phyCapApply useDefault out).1.toUnset = 0 := by
  unfold PhyMac.phyCapApply
  dsimp only
  split <;> exact ⟨rfl, rfl⟩

/-- After an attempt to start, the sets hold what they did if `efx_port_init` has failed, and nothing else. -/
theorem PhyMac.Holds.start (h : s.Holds reqs) (restart : Bool) (out : StartOutcome) :
    (s.sfxgeMacStart restart out).1.Holds (if out.portInit = none then [] else reqs) := by
  cases hp : out.portInit with
  | some e =>
    rw [if_neg (by simp)]
    simp only [PhyMac.sfxgeMacStart, hp]
    exact ⟨h.toSet, h.toUnset⟩
  | none =>
    have hsets : ((s.polled out).phyCapApply (!restart) out).1.toSet = 0 ∧
        ((s.polled out).phyCapApply (!restart) out).1.toUnset = 0 := PhyMac.phyCapApply_sets (!restart)
    have hall : (s.sfxgeMacStart restart out).1.toSet = 0 ∧ (s.sfxgeMacStart restart out).1.toUnset = 0 := by
      simp only [PhyMac.sfxgeMacStart, hp]
      split
      · rename_i s2 e heq
        rw [heq] at hsets
        exact hsets
      · rename_i s2 heq
        rw [heq] at hsets
        split
        · exact hsets
        · split
          · exact hsets
          · split <;> exact hsets
    exact ⟨fun f => by simp [hall.1], fun f => by simp [hall.2]⟩

theorem started_capStep {o : CapOp} (h : s.started = true) (hs : capStep o s = some s') : s'.started = true := by
  cases o with
  | capSet f set =>
    cases hs
    simp [PhyMac.sfxgePhyCapSet, h, PhyMac.setPort]
  | start restart out => simp [capStep, h] at hs

theorem started_run {os : List CapOp} (h : s.started = true) (hr : runOps capStep os s = some s') :
    s'.started = true := by
  induction os generalizing s with
  | nil =>
    cases hr
    exact h
  | cons o os ih =>
    obtain ⟨s1, hs, hr⟩ := Option.bind_eq_some_iff.mp hr
    exact ih (started_capStep h hs) hr

/-- The sets at the end of a history that has not started the MAC. -/
theorem PhyMac.Holds.run (h : s.Holds reqs) {os : List CapOp} (hr : runOps capStep os s = some s')
    (hs' : s'.started = false) : s'.Holds (pending reqs os) := by
  induction os generalizing s reqs with
  | nil =>
    cases hr
    exact h
  | cons o os ih =>
    have hs : s.started = false := by
      by_contra hst
      rw [Bool.not_eq_false] at hst
      rw [started_run hst hr] at hs'
      cases hs'
    obtain ⟨s1, hstep, hr⟩ := Option.bind_eq_some_iff.mp hr
    cases o with
    | capSet f set =>
      cases hstep
      exact ih (h.capSet hs f set none) hr
    | start restart out =>
      rw [capStep, hs] at hstep
      cases hstep
      exact ih (h.start restart out) hr

/-! ### The start -/

theorem lastRequest_isSome {f : Fin 32} {last : Option Bool} (h : last.isSome) (os : List CapOp) :
    (lastRequest f last os).isSome := by
  induction os generalizing last with
  | nil => exact h
  | cons o os ih =>
    cases o with
    | start => exact ih h
    | capSet g set =>
      refine ih ?_
      split_ifs
      · rfl
      · exact h

/-- A field with a pending request has been requested. -/
theorem lastRequest_of_pending {f : Fin 32} {set : Bool} {last : Option Bool} {os : List CapOp}
    (h : (f, set) ∈ pending reqs os) (hreqs : (f, set) ∈ reqs → last.isSome) : (lastRequest f last os).isSome := by
  induction os generalizing reqs last with
  | nil => exact hreqs h
  | cons o os ih =>
    cases o with
    | start restart out =>
      refine ih h fun hm => ?_
      split_ifs at hm
      · simp at hm
      · exact hreqs hm
    | capSet g b =>
      by_cases hg : g = f
      · rw [lastRequest, if_pos hg]
        exact lastRequest_isSome rfl os
      · rw [lastRequest, if_neg hg]
        refine ih h fun hm => ?_
        rcases List.mem_append.mp hm with hm | hm
        · exact hreqs hm
        · simp only [List.mem_singleton, Prod.mk.injEq] at hm
          exact absurd hm.1.symm hg

/-- **The requested mask.**  After a history that keeps the requests, the sets turn a mask into the requested
one. -/
theorem Kept.mask_eq {os : List CapOp} (hk : Kept os) (h : s.Holds (pending [] os)) (base : BitVec 32) :
    (base ||| s.toSet) &&& ~~~s.toUnset = requested base os := by
  refine eq_of_hasField fun f => ?_
  have hreq : hasField (requested base os) f = (lastRequest f none os).getD (hasField base f) :=
    hasField_requested os rfl
  rw [hreq]
  simp only [hasField_and, hasField_or, hasField_not, h.toSet, h.toUnset]
  cases hl : lastRequest f none os with
  | none =>
    have hnot : ∀ set, (f, set) ∉ pending [] os := fun set hm => by
      have : (lastRequest f none os).isSome := lastRequest_of_pending hm (by simp)
      rw [hl] at this
      cases this
    simp [hnot]
  | some set =>
    obtain ⟨hmem, hnot⟩ := hk f set hl
    cases set with
    | true => simp [hmem, hnot rfl]
    | false => simp [hmem]

/-- **Deferred capability requests.**  After a history of requests and failed attempts to start that keeps the
requests, a start whose calls succeed returns 0 if the requested mask is permitted, and advertises that mask with
the flow control settings in it. -/
theorem start_advertises {s0 s : PhyMac} (h0 : s0.Init) {os : List CapOp} (hr : runOps capStep os s0 = some s)
    (hs : s.started = false) (hk : Kept os) {restart : Bool} {out : StartOutcome} (hout : out.Succeeds)
    (hfcntl : s.fcntl &&& ~~~(fcntlRespond ||| fcntlGenerate) = 0)
    (hperm : requested (s.base restart out) os &&& ~~~s.port.phyCapMask = 0) :
    (s.sfxgeMacStart restart out).2 = none ∧ (s.sfxgeMacStart restart out).1.started = true ∧
      (s.sfxgeMacStart restart out).1.port.advCapMask =
        EfxPort.fcntlCap s.fcntl (requested (s.base restart out) os) := by
  obtain ⟨h1, h2, -, h4, h5, h6, h7, h8, h9, h10⟩ := hout
  have hmask := hk.mask_eq (h0.holds.run hr hs) (s.base restart out)
  have hbase : (if !restart then (s.polled out).port.defaultAdvCapMask else (s.polled out).port.advCapMask) =
      s.base restart out := by
    cases restart <;> rfl
  have hset := EfxPort.efxPhyAdvCapSet_of_permitted (p := (s.polled out).port) hperm
  obtain ⟨p, hp⟩ : ∃ p, p = { (s.polled out).port with advCapMask := requested (s.base restart out) os } := ⟨_, rfl⟩
  have happly : (s.polled out).phyCapApply (!restart) out =
      ({ s.polled out with port := p, toSet := 0, toUnset := 0 }, none) := by
    rw [PhyMac.phyCapApply, hbase]
    simp only [show (s.polled out).toSet = s.toSet from rfl, show (s.polled out).toUnset = s.toUnset from rfl, hmask,
      h2, hset, hp]
    rfl
  have hfc : p.efxMacFcntlSet s.fcntl true none none = (p.withFcntl s.fcntl true, none) := by
    rw [EfxPort.efxMacFcntlSet, if_neg (not_not.mpr hfcntl)]
  have hstart : s.sfxgeMacStart restart out =
      ({ s.polled out with port := p.withFcntl s.fcntl true, toSet := 0, toUnset := 0, started := true }, none) := by
    simp only [PhyMac.sfxgeMacStart, h1, happly, h4, h5, h6, show (s.polled out).fcntl = s.fcntl from rfl, hfc, h7, h8,
      h9, h10, List.findSome?, id]
    rfl
  rw [hstart]
  exact ⟨rfl, rfl, by rw [hp]; rfl⟩

/-! ### A port with a fixed speed and both kinds of pause -/

/-- A MAC as `sfxge_mac_init` leaves it, on a PHY for 1000FDX and 10000FDX with auto-negotiation. -/
def idleMac : PhyMac where
  port := ⟨0, 0, capBit 6 ||| capBit 8 ||| capBit 9 ||| capBit 10,
    capBit 6 ||| capBit 7 ||| capBit 8 ||| capBit 9 ||| capBit 10, 0, false, 1500, true,
    portAddr, .zero⟩
  started := false
  toSet := 0
  toUnset := 0
  fcntl := fcntlRespond ||| fcntlGenerate

def goodStart : StartOutcome := ⟨none, none, none, none, none, none, none, none, none, none, none⟩

def failedInit : StartOutcome := { goodStart with portInit := some Errno.EIO }

theorem idleMac_init : idleMac.Init := ⟨rfl, rfl, rfl⟩

/-- 10000FDX is requested, the port cannot be initialized at first, and auto-negotiation is cleared. -/
def twoRequests : List CapOp := [.capSet 7 true, .start false failedInit, .capSet 10 false]

/-- The MAC after these requests. -/
def requestedMac : PhyMac := { idleMac with toSet := capBit 7, toUnset := capBit 10 }

theorem start_advertises_requests :
    (requestedMac.sfxgeMacStart false goodStart).2 = none ∧ (requestedMac.sfxgeMacStart false goodStart).1.started = true ∧
      (requestedMac.sfxgeMacStart false goodStart).1.port.advCapMask =
        EfxPort.fcntlCap requestedMac.fcntl (requested (requestedMac.base false goodStart) twoRequests) :=
  start_advertises idleMac_init (by rfl) rfl (by unfold Kept; decide) ⟨rfl, rfl, rfl, rfl, rfl, rfl, rfl, rfl, rfl, rfl⟩
    (by decide) (by decide)

/-- Nothing has been requested, and the start does not advertise the default mask: pause in both directions clears
`EFX_PHY_CAP_ASYM`. -/
theorem start_changes_pause :
    ∃ (s : PhyMac) (out : StartOutcome), s.Init ∧ out.Succeeds ∧
      requested (s.base false out) [] &&& ~~~s.port.phyCapMask = 0 ∧
      (s.sfxgeMacStart false out).1.port.advCapMask ≠ requested (s.base false out) [] :=
  ⟨idleMac, goodStart, idleMac_init, ⟨rfl, rfl, rfl, rfl, rfl, rfl, rfl, rfl, rfl, rfl⟩, by decide, by decide⟩

end Sfxge.Mac
