import Sfxge.Mac.Port
import Sfxge.Hash.Multicast

/-!
# Mac.Setters — the setters of `efx_mac.c`

Each setter stores in the port, has the layer below configure the hardware from it, and puts back what it stored if
that fails.  The port has its raw multicast array and the hash of Siena here; an operation of the layer below is given
how it ends, and the operations that a call attempts are recorded with the port that they were to configure.
-/

namespace Sfxge.Mac.Setters

open Hash

/-! ### The multicast list -/

/-- `ep_mulcst_addr_list` and `ep_mulcst_addr_count` -/
structure MulcstAddrs where
  list : List EtherAddr
  count : ℕ
  length_eq : list.length = mcastListMax
  count_le : count ≤ mcastListMax
  deriving DecidableEq

namespace MulcstAddrs

variable (m : MulcstAddrs)

/-- The addresses that count. -/
def listed : List EtherAddr := m.list.take m.count

/-- A copy to the start of the array, and the new count. -/
def store (addrs : List EtherAddr) (h : addrs.length ≤ mcastListMax) : MulcstAddrs where
  list := addrs ++ m.list.drop addrs.length
  count := addrs.length
  length_eq := by
    rw [List.length_append, List.length_drop, m.length_eq]
    omega
  count_le := h

theorem length_listed : m.listed.length = m.count := by
  have := m.count_le
  rw [listed, List.length_take, m.length_eq]
  omega

theorem length_listed_le : m.listed.length ≤ mcastListMax := m.length_listed ▸ m.count_le

/-- An old list is copied back only if there was one. -/
def restore (old : List EtherAddr) (h : old.length ≤ mcastListMax) : MulcstAddrs :=
  if old.length > 0 then m.store old h else { m with count := 0, count_le := Nat.zero_le _ }

@[simp] theorem listed_store (addrs : List EtherAddr) (h : addrs.length ≤ mcastListMax) :
    (m.store addrs h).listed = addrs := List.take_left

theorem restore_eq_store (old : List EtherAddr) (h : old.length ≤ mcastListMax) : m.restore old h = m.store old h := by
  unfold restore
  split_ifs with hpos
  · rfl
  · have h0 : old = [] := List.eq_nil_of_length_eq_zero (Nat.le_zero.mp (Nat.not_lt.mp hpos))
    subst h0
    rfl

/-- Storing a list again after the old one was put back leaves the array as the first time. -/
theorem store_restore_store (addrs : List EtherAddr) (h : addrs.length ≤ mcastListMax) :
    ((m.store addrs h).restore m.listed m.length_listed_le).store addrs h = m.store addrs h := by
  rw [restore_eq_store]
  have hdrop : ((m.listed ++ (addrs ++ m.list.drop addrs.length).drop m.listed.length).drop addrs.length) =
      m.list.drop addrs.length := by
    have hlen := m.length_eq
    have hcount := m.count_le
    rw [m.length_listed]
    rcases Nat.le_total m.count addrs.length with hle | hle
    · rw [List.drop_append, m.length_listed, List.drop_eq_nil_of_le (by rw [m.length_listed]; exact hle),
        List.nil_append, List.drop_drop, show m.count + (addrs.length - m.count) = addrs.length by omega,
        List.drop_left]
    · have htail : (addrs ++ m.list.drop addrs.length).drop m.count = m.list.drop m.count := by
        rw [List.drop_append, List.drop_eq_nil_of_le hle, List.nil_append, List.drop_drop,
          show addrs.length + (m.count - addrs.length) = m.count by omega]
      rw [htail, listed, List.take_append_drop]
  simp only [store, hdrop]

end MulcstAddrs

/-! ### The port and the layer below -/

/-- The fields of `efx_port_t` that the setters use. -/
structure Port where
  macPdu : ℕ
  macAddr : EtherAddr
  allUnicst : Bool
  mulcst : Bool
  allMulcst : Bool
  brdcst : Bool
  macDrain : Bool
  fcntl : BitVec 32
  fcntlAutoneg : Bool
  advCapMask : BitVec 32
  phyCapMask : BitVec 32
  mulcstAddrs : MulcstAddrs
  multicstHash : MulticstHash
  deriving DecidableEq

/-- The operations of the layer below: `emo_pdu_set`, `emo_addr_set`, `emo_reconfigure` and `epo_reconfigure`. -/
inductive LowerOp
  | pduSet
  | addrSet
  | macReconfigure
  | phyReconfigure
  deriving Repr, DecidableEq

/-- How an operation on a port ends. -/
abbrev Lower := LowerOp → Port → Option Errno

/-- What a call leaves: the port, the operations that it attempted, and its return code. -/
structure Out where
  port : Port
  attempts : List (LowerOp × Port)
  rc : Option Errno

/-- A call that is turned down, or has nothing to do. -/
def Out.done (p : Port) (rc : Option Errno) : Out := ⟨p, [], rc⟩

/-- One operation is attempted; if it fails the port becomes `undone`. -/
def Out.attempt (lower : Lower) (op : LowerOp) (p undone : Port) : Out :=
  match lower op p with
  | none => ⟨p, [(op, p)], none⟩
  | some e => ⟨undone, [(op, p)], some e⟩

/-! ### The setters -/

/-- `efx_mac_pdu_set` -/
def efxMacPduSet (lower : Lower) (p : Port) (pdu : ℕ) : Out :=
  if pdu < macPduMin then .done p (some .EINVAL)
  else if pdu > macPduMax then .done p (some .EINVAL)
  else
    let oldPdu := p.macPdu
    let p := { p with macPdu := pdu % 2 ^ 32 }
    .attempt lower .pduSet p { p with macPdu := oldPdu }

/-- `efx_mac_addr_set` -/
def efxMacAddrSet (lower : Lower) (p : Port) (addr : EtherAddr) : Out :=
  if macAddrIsMulticast addr then .done p (some .EINVAL)
  else if zeroOui addr then .done p (some .EINVAL)
  else
    let oldAddr := p.macAddr
    let p := { p with macAddr := addr }
    .attempt lower .addrSet p { p with macAddr := oldAddr }

/-- `efx_mac_filter_set` -/
def efxMacFilterSet (lower : Lower) (p : Port) (allUnicst mulcst allMulcst brdcst : Bool) : Out :=
  let oldAllUnicst := p.allUnicst
  let oldMulcst := p.mulcst
  let oldAllMulcst := p.allMulcst
  let oldBrdcst := p.brdcst
  let p := { p with allUnicst := allUnicst, mulcst := mulcst, allMulcst := allMulcst, brdcst := brdcst }
  .attempt lower .macReconfigure p
    { p with allUnicst := oldAllUnicst, mulcst := oldMulcst, allMulcst := oldAllMulcst, brdcst := oldBrdcst }

/-- `efx_mac_drain`; its error path puts nothing back. -/
def efxMacDrain (lower : Lower) (p : Port) (enabled : Bool) : Out :=
  if p.macDrain = enabled then .done p none
  else
    let p := { p with macDrain := enabled }
    .attempt lower .macReconfigure p p

/-- The stores of `efx_mac_fcntl_set`: auto-negotiation is ignored if the PHY does not support it, and the settings are
always encoded in the advertised capabilities. -/
def Port.withFcntl (p : Port) (fcntl : BitVec 32) (autoneg : Bool) : Port :=
  { p with
    fcntl := fcntl
    fcntlAutoneg := if ~~~p.phyCapMask &&& capBit phyCapAn ≠ 0 then false else autoneg
    advCapMask := EfxPort.fcntlCap fcntl p.advCapMask }

/-- `efx_mac_fcntl_set` -/
def efxMacFcntlSet (lower : Lower) (p : Port) (fcntl : BitVec 32) (autoneg : Bool) : Out :=
  if fcntl &&& ~~~(fcntlRespond ||| fcntlGenerate) ≠ 0 then .done p (some .EINVAL)
  else
    let oldFcntl := p.fcntl
    let oldAutoneg := p.fcntlAutoneg
    let oldAdvCap := p.advCapMask
    let p := p.withFcntl fcntl autoneg
    let undone := { p with fcntl := oldFcntl, fcntlAutoneg := oldAutoneg, advCapMask := oldAdvCap }
    match lower .phyReconfigure p, lower .macReconfigure p with
    | some e, _ => ⟨undone, [(.phyReconfigure, p)], some e⟩
    | none, some e => ⟨undone, [(.phyReconfigure, p), (.macReconfigure, p)], some e⟩
    | none, none => ⟨p, [(.phyReconfigure, p), (.macReconfigure, p)], none⟩

/-- The two tables of operations, `__efx_siena_mac_ops` and `__efx_ef10_mac_ops`. -/
inductive EmacOps
  | siena
  | ef10
  deriving Repr, DecidableEq

/-- `siena_mac_multicast_list_set` -/
def sienaMacMulticastListSet (lower : Lower) (p : Port) : Out :=
  let oldHash := p.multicstHash
  let p := { p with multicstHash := sienaMacMulticastHashCompute p.mulcstAddrs.listed }
  .attempt lower .macReconfigure p { p with multicstHash := oldHash }

/-- `ef10_mac_multicast_list_set` -/
def ef10MacMulticastListSet (lower : Lower) (p : Port) : Out := .attempt lower .macReconfigure p p

/-- `emo_multicast_list_set` -/
def EmacOps.multicastListSet : EmacOps → Lower → Port → Out
  | .siena => sienaMacMulticastListSet
  | .ef10 => ef10MacMulticastListSet

/-- `efx_mac_multicast_list_set`; `mem` says whether there is memory for a copy of the old list. -/
def efxMacMulticastListSet (ops : EmacOps) (lower : Lower) (p : Port) (addrs : List EtherAddr) (mem : Bool) : Out :=
  if h : addrs.length > mcastListMax then .done p (some .EINVAL)
  else if p.mulcstAddrs.count > 0 ∧ mem = false then .done p (some .ENOMEM)
  else
    let old := p.mulcstAddrs.listed
    let out := ops.multicastListSet lower { p with mulcstAddrs := p.mulcstAddrs.store addrs (Nat.not_lt.mp h) }
    match out.rc with
    | none => out
    | some _ =>
      { out with
        port := { out.port with
          mulcstAddrs := out.port.mulcstAddrs.restore old p.mulcstAddrs.length_listed_le } }

/-- A call of a setter. -/
inductive Call
  | pduSet (pdu : ℕ)
  | addrSet (addr : EtherAddr)
  | filterSet (allUnicst mulcst allMulcst brdcst : Bool)
  | drain (enabled : Bool)
  | fcntlSet (fcntl : BitVec 32) (autoneg : Bool)
  | multicastListSet (addrs : List EtherAddr) (mem : Bool)

def Call.exec (ops : EmacOps) (lower : Lower) (p : Port) : Call → Out
  | .pduSet pdu => efxMacPduSet lower p pdu
  | .addrSet addr => efxMacAddrSet lower p addr
  | .filterSet allUnicst mulcst allMulcst brdcst => efxMacFilterSet lower p allUnicst mulcst allMulcst brdcst
  | .drain enabled => efxMacDrain lower p enabled
  | .fcntlSet fcntl autoneg => efxMacFcntlSet lower p fcntl autoneg
  | .multicastListSet addrs mem => efxMacMulticastListSet ops lower p addrs mem

/-! ### The closed forms

On the port without its raw array and its hash the setters are those of `Mac.Port`. -/

/-- The port as `Mac.Port` has it. -/
def Port.efx (p : Port) (lpCapMask defaultAdvCapMask : BitVec 32) : EfxPort where
  advCapMask := p.advCapMask
  lpCapMask := lpCapMask
  defaultAdvCapMask := defaultAdvCapMask
  phyCapMask := p.phyCapMask
  fcntl := p.fcntl
  fcntlAutoneg := p.fcntlAutoneg
  macPdu := p.macPdu
  macDrain := p.macDrain
  macAddr := p.macAddr
  mode := ⟨p.allUnicst, p.mulcst, p.allMulcst, p.brdcst, p.mulcstAddrs.listed⟩

/-- The port and the return code that a call leaves. -/
def Out.efx (o : Out) (lpCapMask defaultAdvCapMask : BitVec 32) : EfxPort × Option Errno :=
  (o.port.efx lpCapMask defaultAdvCapMask, o.rc)

section

variable {lower : Lower} {p : Port} {lp dflt : BitVec 32}

theorem efxMacPduSet_efx (pdu : ℕ) :
    (efxMacPduSet lower p pdu).efx lp dflt =
      (p.efx lp dflt).efxMacPduSet pdu (lower .pduSet { p with macPdu := pdu }) := by
  unfold efxMacPduSet EfxPort.efxMacPduSet
  by_cases hmin : pdu < macPduMin
  · rw [if_pos hmin, if_pos (Or.inl hmin)]
    rfl
  by_cases hmax : pdu > macPduMax
  · rw [if_neg hmin, if_pos hmax, if_pos (Or.inr hmax)]
    rfl
  have hpdu : pdu % 2 ^ 32 = pdu := Nat.mod_eq_of_lt (lt_of_le_of_lt (Nat.not_lt.mp hmax) (by decide))
  rw [if_neg hmin, if_neg hmax, if_neg (not_or.mpr ⟨hmin, hmax⟩), hpdu]
  unfold Out.attempt
  dsimp only
  cases lower .pduSet { p with macPdu := pdu } <;> rfl

theorem efxMacAddrSet_efx (addr : EtherAddr) :
    (efxMacAddrSet lower p addr).efx lp dflt =
      (p.efx lp dflt).efxMacAddrSet addr (lower .addrSet { p with macAddr := addr }) := by
  unfold efxMacAddrSet EfxPort.efxMacAddrSet validAddr
  cases hmul : macAddrIsMulticast addr with
  | false =>
    cases houi : zeroOui addr with
    | false =>
      unfold Out.attempt
      dsimp only
      cases lower .addrSet { p with macAddr := addr } <;> rfl
    | true => rfl
  | true => rfl

theorem efxMacFilterSet_efx (allUnicst mulcst allMulcst brdcst : Bool) :
    (efxMacFilterSet lower p allUnicst mulcst allMulcst brdcst).efx lp dflt =
      (p.efx lp dflt).efxMacFilterSet allUnicst mulcst allMulcst brdcst
        (lower .macReconfigure { p with allUnicst, mulcst, allMulcst, brdcst }) := by
  unfold efxMacFilterSet EfxPort.efxMacFilterSet Out.attempt
  dsimp only
  cases lower .macReconfigure { p with allUnicst, mulcst, allMulcst, brdcst } <;> rfl

theorem efxMacDrain_efx (enabled : Bool) :
    (efxMacDrain lower p enabled).efx lp dflt =
      (p.efx lp dflt).efxMacDrain enabled (lower .macReconfigure { p with macDrain := enabled }) := by
  have hd : (p.efx lp dflt).macDrain = p.macDrain := rfl
  unfold efxMacDrain EfxPort.efxMacDrain Out.attempt
  rw [hd]
  by_cases h : p.macDrain = enabled
  · rw [if_pos h, if_pos h]
    rfl
  · rw [if_neg h, if_neg h]
    dsimp only
    cases lower .macReconfigure { p with macDrain := enabled } <;> rfl

theorem Port.withFcntl_efx (fcntl : BitVec 32) (autoneg : Bool) :
    (p.withFcntl fcntl autoneg).efx lp dflt = (p.efx lp dflt).withFcntl fcntl autoneg := by
  have hnot : ~~~p.phyCapMask &&& capBit phyCapAn ≠ 0 ↔ ¬ p.phyCapMask &&& capBit phyCapAn ≠ 0 := by
    rw [and_capBit_ne_zero _ (by decide), and_capBit_ne_zero _ (by decide), BitVec.getLsbD_not]
    simp [phyCapAn]
  have han : (if ~~~p.phyCapMask &&& capBit phyCapAn ≠ 0 then false else autoneg) =
      ((p.efx lp dflt).hasAn && autoneg) := by
    have hdef : (p.efx lp dflt).hasAn = decide (p.phyCapMask &&& capBit phyCapAn ≠ 0) := rfl
    rw [hdef]
    by_cases h : p.phyCapMask &&& capBit phyCapAn ≠ 0
    · rw [if_neg fun hn => hnot.mp hn h, decide_eq_true h, Bool.true_and]
    · rw [if_pos (hnot.mpr h), decide_eq_false h, Bool.false_and]
  simp only [Port.withFcntl, han]
  rfl

theorem efxMacFcntlSet_efx (fcntl : BitVec 32) (autoneg : Bool) :
    (efxMacFcntlSet lower p fcntl autoneg).efx lp dflt =
      (p.efx lp dflt).efxMacFcntlSet fcntl autoneg (lower .phyReconfigure (p.withFcntl fcntl autoneg))
        (lower .macReconfigure (p.withFcntl fcntl autoneg)) := by
  unfold efxMacFcntlSet EfxPort.efxMacFcntlSet
  by_cases hf : fcntl &&& ~~~(fcntlRespond ||| fcntlGenerate) ≠ 0
  · rw [if_pos hf, if_pos hf]
    rfl
  · rw [if_neg hf, if_neg hf, ← p.withFcntl_efx]
    dsimp only
    generalize lower .phyReconfigure (p.withFcntl fcntl autoneg) = phy,
      lower .macReconfigure (p.withFcntl fcntl autoneg) = mac
    match phy, mac with
    | none, none => rfl
    | none, some _ => rfl
    | some _, _ => rfl

end

/-! ### No trace -/

/-- The port is as before: every field but the raw array is, and so are the addresses that count. -/
structure Restored (p q : Port) : Prop where
  fields : q = { p with mulcstAddrs := q.mulcstAddrs }
  count : q.mulcstAddrs.count = p.mulcstAddrs.count
  listed : q.mulcstAddrs.listed = p.mulcstAddrs.listed

theorem Restored.refl (p : Port) : Restored p p := ⟨rfl, rfl, rfl⟩

/-- A call that fails leaves the port as before, and the same call then begins with the same operation on the same
configuration, or none if it was turned down. -/
def LeavesNoTrace (ops : EmacOps) (lower : Lower) (p : Port) (c : Call) : Prop :=
  ∀ e, (c.exec ops lower p).rc = some e →
    Restored p (c.exec ops lower p).port ∧
      ∀ lower', (c.exec ops lower' (c.exec ops lower p).port).attempts.head? = (c.exec ops lower p).attempts.head?

/-- The call is an `efx_mac_drain` that changes the setting, and the MAC cannot be reconfigured with it. -/
def DrainFails (lower : Lower) (p : Port) : Call → Prop
  | .drain enabled => p.macDrain ≠ enabled ∧ lower .macReconfigure { p with macDrain := enabled } ≠ none
  | _ => False

section

variable {ops : EmacOps} {lower lower' : Lower} {p undone : Port} {op : LowerOp} {e : Errno}

theorem attempt_head : (Out.attempt lower op p undone).attempts.head? = some (op, p) := by
  unfold Out.attempt
  cases lower op p <;> rfl

theorem attempt_failed (h : (Out.attempt lower op p undone).rc = some e) :
    (Out.attempt lower op p undone).port = undone := by
  unfold Out.attempt at h ⊢
  cases hl : lower op p with
  | none => simp [hl] at h
  | some _ => rfl

/-- The port that the multicast operation configures: Siena's has the hash of the list. -/
def EmacOps.hashed : EmacOps → Port → Port
  | .siena, p => { p with multicstHash := sienaMacMulticastHashCompute p.mulcstAddrs.listed }
  | .ef10, p => p

theorem EmacOps.multicastListSet_eq :
    ops.multicastListSet lower p = .attempt lower .macReconfigure (ops.hashed p) p := by
  cases ops <;> rfl

/-- A list that is accepted goes to the port, and the old one back to it if the MAC cannot be reconfigured. -/
theorem efxMacMulticastListSet_eq {addrs : List EtherAddr} {mem : Bool} (hlen : addrs.length ≤ mcastListMax)
    (hmem : ¬ (p.mulcstAddrs.count > 0 ∧ mem = false)) :
    efxMacMulticastListSet ops lower p addrs mem =
      .attempt lower .macReconfigure (ops.hashed { p with mulcstAddrs := p.mulcstAddrs.store addrs hlen })
        { p with
          mulcstAddrs := (p.mulcstAddrs.store addrs hlen).restore p.mulcstAddrs.listed
            p.mulcstAddrs.length_listed_le } := by
  rw [efxMacMulticastListSet, dif_neg (Nat.not_lt.mpr hlen), if_neg hmem, EmacOps.multicastListSet_eq]
  unfold Out.attempt
  cases lower .macReconfigure (ops.hashed { p with mulcstAddrs := p.mulcstAddrs.store addrs hlen }) <;> rfl

theorem efxMacMulticastListSet_efx {addrs : List EtherAddr} (hlen : addrs.length ≤ mcastListMax)
    {lp dflt : BitVec 32} :
    (efxMacMulticastListSet ops lower p addrs true).efx lp dflt =
      (p.efx lp dflt).efxMacMulticastListSet addrs
        (lower .macReconfigure (ops.hashed { p with mulcstAddrs := p.mulcstAddrs.store addrs hlen })) := by
  rw [efxMacMulticastListSet_eq hlen fun h => Bool.noConfusion h.2]
  unfold EfxPort.efxMacMulticastListSet Out.attempt
  rw [if_neg (Nat.not_lt.mpr hlen)]
  cases lower .macReconfigure (ops.hashed { p with mulcstAddrs := p.mulcstAddrs.store addrs hlen }) with
  | none => cases ops <;> simp [Out.efx, Port.efx, EmacOps.hashed]
  | some e =>
    rw [MulcstAddrs.restore_eq_store]
    simp [Out.efx, Port.efx]

/-- The PHY comes first, with the new settings. -/
theorem efxMacFcntlSet_head (lower : Lower) (p : Port) {fcntl : BitVec 32} (autoneg : Bool)
    (h : ¬ fcntl &&& ~~~(fcntlRespond ||| fcntlGenerate) ≠ 0) :
    (efxMacFcntlSet lower p fcntl autoneg).attempts.head? =
      some (.phyReconfigure, p.withFcntl fcntl autoneg) := by
  rw [efxMacFcntlSet, if_neg h]
  dsimp only
  split <;> rfl

/-- What a call attempts first depends on the port only. -/
theorem exec_head (c : Call) : (c.exec ops lower p).attempts.head? = (c.exec ops lower' p).attempts.head? := by
  cases c with
  | pduSet pdu =>
    simp only [Call.exec, efxMacPduSet]
    split_ifs
    · rfl
    · rfl
    · rw [attempt_head, attempt_head]
  | addrSet addr =>
    simp only [Call.exec, efxMacAddrSet]
    split_ifs
    · rfl
    · rfl
    · rw [attempt_head, attempt_head]
  | filterSet => exact attempt_head.trans attempt_head.symm
  | drain enabled =>
    simp only [Call.exec, efxMacDrain]
    split_ifs
    · rfl
    · rw [attempt_head, attempt_head]
  | fcntlSet fcntl autoneg =>
    by_cases h : fcntl &&& ~~~(fcntlRespond ||| fcntlGenerate) ≠ 0
    · simp only [Call.exec, efxMacFcntlSet, if_pos h, Out.done]
    · exact (efxMacFcntlSet_head lower p autoneg h).trans (efxMacFcntlSet_head lower' p autoneg h).symm
  | multicastListSet addrs mem =>
    by_cases hlen : addrs.length > mcastListMax
    · simp only [Call.exec, efxMacMulticastListSet, dif_pos hlen, Out.done]
    · by_cases hmem : p.mulcstAddrs.count > 0 ∧ mem = false
      · simp only [Call.exec, efxMacMulticastListSet, dif_neg hlen, if_pos hmem, Out.done]
      · rw [Call.exec, Call.exec, efxMacMulticastListSet_eq (Nat.not_lt.mp hlen) hmem,
          efxMacMulticastListSet_eq (Nat.not_lt.mp hlen) hmem, attempt_head, attempt_head]

theorem efxMacFcntlSet_failed {fcntl : BitVec 32} {autoneg : Bool}
    (h : (efxMacFcntlSet lower p fcntl autoneg).rc = some e) : (efxMacFcntlSet lower p fcntl autoneg).port = p := by
  unfold efxMacFcntlSet at h ⊢
  by_cases hf : fcntl &&& ~~~(fcntlRespond ||| fcntlGenerate) ≠ 0
  · rw [if_pos hf]
    rfl
  · rw [if_neg hf] at h ⊢
    dsimp only at h ⊢
    generalize lower .phyReconfigure _ = phy, lower .macReconfigure _ = mac at h ⊢
    match phy, mac with
    | none, none => exact absurd h.symm (Option.some_ne_none e)
    | none, some _ => rfl
    | some _, _ => rfl

/-- A setter of the MAC's own settings that fails has put back what it stored. -/
theorem exec_failed_port {c : Call} (hd : ¬ DrainFails lower p c) (hm : ∀ addrs mem, c ≠ .multicastListSet addrs mem)
    (h : (c.exec ops lower p).rc = some e) : (c.exec ops lower p).port = p := by
  cases c with
  | pduSet pdu =>
    simp only [Call.exec, efxMacPduSet] at h ⊢
    split_ifs at h ⊢
    · rfl
    · rfl
    · exact attempt_failed h
  | addrSet addr =>
    simp only [Call.exec, efxMacAddrSet] at h ⊢
    split_ifs at h ⊢
    · rfl
    · rfl
    · exact attempt_failed h
  | filterSet => exact attempt_failed h
  | drain enabled =>
    simp only [Call.exec, efxMacDrain] at h ⊢
    split_ifs at h ⊢ with heq
    · rfl
    · refine absurd ⟨heq, fun hnone => ?_⟩ hd
      rw [Out.attempt, hnone] at h
      exact Option.some_ne_none e h.symm
  | fcntlSet => exact efxMacFcntlSet_failed h
  | multicastListSet addrs mem => exact absurd rfl (hm addrs mem)

theorem multicastListSet_leavesNoTrace (addrs : List EtherAddr) (mem : Bool) :
    LeavesNoTrace ops lower p (.multicastListSet addrs mem) := by
  intro e he
  simp only [Call.exec] at he ⊢
  by_cases hlen : addrs.length > mcastListMax
  · simp only [efxMacMulticastListSet, dif_pos hlen]
    exact ⟨.refl p, fun _ => rfl⟩
  by_cases hmem : p.mulcstAddrs.count > 0 ∧ mem = false
  · simp only [efxMacMulticastListSet, dif_neg hlen, if_pos hmem, Out.done]
    exact ⟨.refl p, fun _ => trivial⟩
  have hle := Nat.not_lt.mp hlen
  rw [efxMacMulticastListSet_eq hle hmem] at he ⊢
  rw [attempt_failed he, attempt_head]
  set old := (p.mulcstAddrs.store addrs hle).restore p.mulcstAddrs.listed p.mulcstAddrs.length_listed_le with hold
  have hlisted : old.listed = p.mulcstAddrs.listed := by
    rw [hold, MulcstAddrs.restore_eq_store, MulcstAddrs.listed_store]
  have hcount : old.count = p.mulcstAddrs.count := by
    rw [← old.length_listed, hlisted, MulcstAddrs.length_listed]
  refine ⟨⟨rfl, hcount, hlisted⟩, fun lower' => ?_⟩
  have hmem' : ¬ (old.count > 0 ∧ mem = false) := hcount ▸ hmem
  rw [efxMacMulticastListSet_eq hle hmem', attempt_head]
  simp only [hold, MulcstAddrs.store_restore_store]

/-- **No trace is left** by a failed call, except that of a drain setting which cannot be configured. -/
theorem leavesNoTrace_iff (ops : EmacOps) (lower : Lower) (p : Port) (c : Call) :
    LeavesNoTrace ops lower p c ↔ ¬ DrainFails lower p c := by
  constructor
  · intro h hd
    cases c with
    | drain enabled =>
      obtain ⟨hne, hfail⟩ := hd
      obtain ⟨e, he⟩ := Option.ne_none_iff_exists'.mp hfail
      have hexec : (Call.drain enabled).exec ops lower p =
          ⟨{ p with macDrain := enabled }, [(.macReconfigure, { p with macDrain := enabled })], some e⟩ := by
        simp only [Call.exec, efxMacDrain, if_neg hne, Out.attempt, he]
      have hr := (h e (by rw [hexec])).1.fields
      rw [hexec] at hr
      exact hne (congrArg Port.macDrain hr).symm
    | _ => exact hd
  · intro hd
    by_cases hm : ∃ addrs mem, c = .multicastListSet addrs mem
    · obtain ⟨addrs, mem, rfl⟩ := hm
      exact multicastListSet_leavesNoTrace addrs mem
    · intro e he
      have hport := exec_failed_port hd (fun addrs mem hc => hm ⟨addrs, mem, hc⟩) he
      rw [hport]
      exact ⟨.refl p, fun lower' => exec_head c⟩

end

/-- A port without addresses that is not drained. -/
def idlePort : Port where
  macPdu := 1518
  macAddr := portAddr
  allUnicst := false
  mulcst := false
  allMulcst := false
  brdcst := true
  macDrain := true
  fcntl := 0
  fcntlAutoneg := false
  advCapMask := 0
  phyCapMask := 0
  mulcstAddrs := ⟨List.replicate mcastListMax ⟨#[0, 0, 0, 0, 0, 0], rfl⟩, 0, List.length_replicate, Nat.zero_le _⟩
  multicstHash := ⟨.zero, .zero⟩

/-- The MAC cannot be reconfigured, but the port is not drained any more. -/
theorem drain_setting_kept :
    ¬ ∀ ops lower p c, LeavesNoTrace ops lower p c := by
  intro h
  have hr := (h .ef10 (fun _ _ => some Errno.EIO) idlePort (.drain false) Errno.EIO rfl).1.fields
  exact absurd (congrArg Port.macDrain hr) (by decide)

end Sfxge.Mac.Setters
