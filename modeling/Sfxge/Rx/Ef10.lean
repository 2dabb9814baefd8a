import Sfxge.Rx.Events

/-!
# Rx.Ef10 — EF10 receive events

`ef10_ev_rx` rebuilds the index of the last descriptor that an event consumed from the low 4 bits of the
count of all consumed descriptors, with a read pointer of its own; `sfxge_ev_rx` makes it a distance again.
The two agree on the number of descriptors unless it is 16, which the 4 bits cannot tell from none.
-/

namespace Sfxge.Rx

open Lib RxqState

def ESF_DZ_RX_BYTES : Field := ⟨0, 14⟩
def ESF_DZ_RX_CONT : Field := ⟨14, 1⟩
def ESF_DZ_RX_PARSE_INCOMPLETE : Field := ⟨15, 1⟩
def ESF_DZ_RX_ECRC_ERR : Field := ⟨24, 1⟩
def ESF_DZ_RX_IPCKSUM_ERR : Field := ⟨25, 1⟩
def ESF_DZ_RX_TCPUDP_CKSUM_ERR : Field := ⟨26, 1⟩
def ESF_DZ_RX_ECC_ERR : Field := ⟨29, 1⟩
def ESF_DZ_RX_MAC_CLASS : Field := ⟨35, 1⟩
def ESF_DZ_RX_ETH_TAG_CLASS : Field := ⟨39, 3⟩
def ESF_DZ_RX_L3_CLASS : Field := ⟨42, 3⟩
def ESF_DZ_RX_L4_CLASS : Field := ⟨45, 3⟩
def ESF_DZ_RX_DSC_PTR_LBITS : Field := ⟨48, 4⟩
def ESF_DZ_RX_DROP_EVENT : Field := ⟨58, 1⟩

def ESE_DZ_MAC_CLASS_UCAST : U32 := 0
def ESE_DZ_ETH_TAG_CLASS_VLAN1 : U32 := 1
def ESE_DZ_ETH_TAG_CLASS_VLAN2 : U32 := 2
def ESE_DZ_L3_CLASS_IP4 : U32 := 1
def ESE_DZ_L3_CLASS_IP6 : U32 := 2
def ESE_DZ_L3_CLASS_IP4_FRAG : U32 := 4
def ESE_DZ_L3_CLASS_IP6_FRAG : U32 := 6
def ESE_DZ_L4_CLASS_TCP : U32 := 1
def ESE_DZ_L4_CLASS_UDP : U32 := 2

def EFX_PKT_UNICAST : U16 := 0x0004
def EFX_CKSUM_TCPUDP : U16 := 0x0020
def EFX_CKSUM_IPV4 : U16 := 0x0040
def EFX_PKT_CONT : U16 := 0x0080
def EFX_PKT_TCP : U16 := 0x0200
def EFX_PKT_UDP : U16 := 0x0400

def EFX_RESET_RXQ_ERR : U32 := 0x00000002
def EFX_RESET_TXQ_ERR : U32 := 0x00000004

/-- `ef10_nic_board_cfg`: batches of up to 16 if the firmware supports them. -/
def Config.ef10 (cfg : Config) (rxBatching : Bool) : Config :=
  { cfg with
    wptrAlign := 8
    encRxBatchingEnabled := rxBatching
    encRxBatchMax := if rxBatching then 16 else 0 }

/-! ### The flags of an event -/

def l4Flags (eqp : Qword) (flags : U16) : U16 :=
  if eqp.field ESF_DZ_RX_L4_CLASS = ESE_DZ_L4_CLASS_TCP then flags ||| EFX_PKT_TCP
  else if eqp.field ESF_DZ_RX_L4_CLASS = ESE_DZ_L4_CLASS_UDP then flags ||| EFX_PKT_UDP
  else flags

/-- The switch on the class of the network layer. -/
def l3Flags (eqp : Qword) (flags : U16) : U16 :=
  let l3Class := eqp.field ESF_DZ_RX_L3_CLASS
  if l3Class = ESE_DZ_L3_CLASS_IP4 ∨ l3Class = ESE_DZ_L3_CLASS_IP4_FRAG then
    let flags := flags ||| EFX_PKT_IPV4
    l4Flags eqp (if eqp.field ESF_DZ_RX_IPCKSUM_ERR ≠ 0 then flags else flags ||| EFX_CKSUM_IPV4)
  else if l3Class = ESE_DZ_L3_CLASS_IP6 ∨ l3Class = ESE_DZ_L3_CLASS_IP6_FRAG then
    l4Flags eqp (flags ||| EFX_PKT_IPV6)
  else flags

/-- What `ef10_ev_rx` makes the flags of an event that consumes `descCount` descriptors. -/
def ef10Flags (eqp : Qword) (descCount : U32) : U16 :=
  let flags : U16 := if eqp.field ESF_DZ_RX_CONT ≠ 0 then EFX_PKT_CONT else 0
  let flags := if eqp.field ESF_DZ_RX_MAC_CLASS = ESE_DZ_MAC_CLASS_UCAST then flags ||| EFX_PKT_UNICAST
    else flags
  let flags := if descCount > 1 then flags ||| EFX_PKT_PREFIX_LEN else flags
  if eqp.field ESF_DZ_RX_ECC_ERR ≠ 0 then flags ||| EFX_DISCARD
  else if eqp.field ESF_DZ_RX_ECRC_ERR ≠ 0 then flags ||| EFX_DISCARD
  else if eqp.field ESF_DZ_RX_PARSE_INCOMPLETE ≠ 0 then flags
  else
    let ethTagClass := eqp.field ESF_DZ_RX_ETH_TAG_CLASS
    let flags := if ethTagClass = ESE_DZ_ETH_TAG_CLASS_VLAN1 ∨ ethTagClass = ESE_DZ_ETH_TAG_CLASS_VLAN2 then
        flags ||| EFX_PKT_VLAN_TAGGED
      else flags
    let flags := l3Flags eqp flags
    if flags &&& (EFX_PKT_TCP ||| EFX_PKT_UDP) ≠ 0 ∧ eqp.field ESF_DZ_RX_TCPUDP_CKSUM_ERR = 0 then
      flags ||| EFX_CKSUM_TCPUDP
    else flags

/-- The size of an event's packet. -/
def ef10Size (eqp : Qword) : U16 := (eqp.field ESF_DZ_RX_BYTES).setWidth 16

/-! ### The queue with its label -/

/-- A receive queue with the `efx_evq_rxq_state_t` of its label.  Of the descriptors posted since it was
created, those after the first `first` packets, the hardware has consumed `consumed`; `due` are the flags and
sizes that the events so far have for the packets consumed, in order. -/
structure Ef10Rxq where
  enResetFlags : U32
  eersRxReadPtr : U32
  eersRxMask : U32
  srp : Rxq
  first : ℕ
  consumed : ℕ
  due : List (Pkt × U16 × U16)

namespace Ef10Rxq

def construct : Ef10Rxq where
  enResetFlags := 0
  eersRxReadPtr := 0
  eersRxMask := 0
  srp := .construct
  first := 0
  consumed := 0
  due := []

/-- `ef10_ev_rxlabel_init`, of a new queue -/
def rxlabelInit (cfg : Config) (s : Ef10Rxq) : Ef10Rxq :=
  { s with
    eersRxReadPtr := 0
    eersRxMask := cfg.mask
    first := s.srp.posted.length
    consumed := 0 }

/-- `ef10_ev_rxlabel_fini` -/
def rxlabelFini (s : Ef10Rxq) : Ef10Rxq :=
  { s with
    eersRxReadPtr := 0
    eersRxMask := 0 }

/-- `ef10_ev_rx` -/
def ef10EvRx (cfg : Config) (io : Io) (eqp : Qword) (s : Ef10Rxq) : Option Ef10Rxq :=
  if s.enResetFlags &&& (EFX_RESET_RXQ_ERR ||| EFX_RESET_TXQ_ERR) ≠ 0 then some s
  else if eqp.field ESF_DZ_RX_DROP_EVENT ≠ 0 then some s
  else
    let descCount := (eqp.field ESF_DZ_RX_DSC_PTR_LBITS - s.eersRxReadPtr) &&& mask32 ESF_DZ_RX_DSC_PTR_LBITS
    let s := { s with eersRxReadPtr := s.eersRxReadPtr + descCount }
    let lastUsedId := (s.eersRxReadPtr - 1) &&& s.eersRxMask
    (s.srp.evRx cfg io lastUsedId (ef10Size eqp) (ef10Flags eqp descCount)).map fun srp => { s with srp := srp }

/-- The hardware consumes `n` outstanding descriptors of a started queue and makes an event of it. -/
def Consumes (cfg : Config) (n : ℕ) (eqp : Qword) (s : Ef10Rxq) : Prop :=
  s.srp.srState = SFXGE_RXQ_STARTED ∧ 1 ≤ n ∧ n ≤ cfg.encRxBatchMax.toNat ∧
    s.first + s.consumed + n ≤ s.srp.posted.length ∧
    eqp.field ESF_DZ_RX_DSC_PTR_LBITS = BitVec.ofNat 32 ((s.consumed + n) % 16) ∧
    eqp.field ESF_DZ_RX_DROP_EVENT = 0

instance (cfg : Config) (n : ℕ) (eqp : Qword) (s : Ef10Rxq) : Decidable (Consumes cfg n eqp s) :=
  inferInstanceAs (Decidable (_ ∧ _))

/-- The consumed descriptors are counted, and the flags and the size of their event are due to them. -/
def consume (n : ℕ) (eqp : Qword) (s : Ef10Rxq) : Ef10Rxq :=
  { s with
    consumed := s.consumed + n
    due := s.due ++ (List.range n).filterMap fun i =>
      (s.srp.posted[s.first + s.consumed + i]?).map (·, ef10Flags eqp (BitVec.ofNat 32 n), ef10Size eqp) }

inductive Op where
  | event (io : Io) (n : ℕ) (eqp : Qword)
  | queue (o : Rxq.Op)

/-- `sfxge_rx_qstart`, with `ef10_rx_qcreate` -/
def qstart (cfg : Config) (io : Io) (port : Port) (s : Ef10Rxq) : Ef10Rxq :=
  if s.srp.srState = SFXGE_RXQ_INITIALIZED ∧ s.srp.stopping = false then
    { s.rxlabelInit cfg with srp := s.srp.qstart cfg io port }
  else s

/-- The end of `sfxge_rx_qstop`, with `ef10_rx_qdestroy` -/
def qdrain (cfg : Config) (io : Io) (s : Ef10Rxq) : Option Ef10Rxq :=
  if s.srp.stopping then (s.srp.qdrain cfg io).map fun srp => { s.rxlabelFini with srp := srp } else some s

/-- An operation on the queue.  Receive events come from the hardware only; an operation that is out of its
place does nothing. -/
def step (cfg : Config) : Op → Ef10Rxq → Option Ef10Rxq
  | .event io n eqp, s => if Consumes cfg n eqp s then (s.consume n eqp).ef10EvRx cfg io eqp else some s
  | .queue (.evRx _ _ _ _), s => some s
  | .queue (.qstart io port), s => some (s.qstart cfg io port)
  | .queue (.qdrain io), s => s.qdrain cfg io
  | .queue o, s => (s.srp.step cfg o).map fun srp => { s with srp := srp }

variable {cfg : Config} {io : Io} {rxBatching : Bool} {b C P c n : ℕ} {s s' : Ef10Rxq}

/-! ### From the 4 bits to the distance -/

/-- The 4 bits give the number of descriptors, below 16. -/
theorem descCount_eq (hn : n < 16) :
    (BitVec.ofNat 32 ((c + n) % 16) - BitVec.ofNat 32 c) &&& mask32 ESF_DZ_RX_DSC_PTR_LBITS =
      BitVec.ofNat 32 n := by
  have hmask : mask32 ESF_DZ_RX_DSC_PTR_LBITS = BitVec.ofNat 32 (2 ^ 4 - 1) := by decide
  refine BitVec.eq_of_toNat_eq ?_
  rw [hmask, and_mask (by omega), BitVec.toNat_sub, BitVec.toNat_ofNat, BitVec.toNat_ofNat, BitVec.toNat_ofNat]
  omega

/-- They do not tell 16 from none. -/
theorem descCount_sixteen :
    (BitVec.ofNat 32 ((c + 16) % 16) - BitVec.ofNat 32 c) &&& mask32 ESF_DZ_RX_DSC_PTR_LBITS = 0 := by
  have h := descCount_eq (c := c) (n := 0) (by omega)
  rwa [Nat.add_zero, ← Nat.add_mod_right] at h

/-- The distance to the index handed up is that of the read pointer. -/
theorem delta_lastUsedId {srp : Rxq} (hpending : srp.srPending = BitVec.ofNat 32 c) (hn : n < cfg.size) :
    srp.delta cfg ((BitVec.ofNat 32 (c + n) - 1) &&& cfg.mask) = BitVec.ofNat 32 n := by
  have hsize := cfg.size_le
  have hpos := cfg.le_size
  set x : U32 := BitVec.ofNat 32 (c + n) - 1 with hxdef
  have hx : (x.toNat + 1) % 2 ^ 32 = (c + n) % 2 ^ 32 := by
    rw [hxdef, BitVec.toNat_sub, BitVec.toNat_ofNat]
    change ((2 ^ 32 - 1 + (c + n) % 2 ^ 32) % 2 ^ 32 + 1) % 2 ^ 32 = _
    omega
  have hid : ((x &&& cfg.mask) + 1).toNat % cfg.size = (c + n) % cfg.size := by
    have hmask : (x &&& cfg.mask).toNat = x.toNat % cfg.size := cfg.slot_eq x
    rw [BitVec.toNat_add, Nat.mod_mod_of_dvd _ cfg.size_dvd, hmask]
    change (x.toNat % cfg.size + 1) % cfg.size = _
    rw [Nat.mod_add_mod, ← Nat.mod_mod_of_dvd _ cfg.size_dvd, hx, Nat.mod_mod_of_dvd _ cfg.size_dvd]
  have hp : srp.srPending.toNat % cfg.size = c % cfg.size := by
    rw [hpending, BitVec.toNat_ofNat, Nat.mod_mod_of_dvd _ cfg.size_dvd]
  refine BitVec.eq_of_toNat_eq ?_
  rw [Rxq.delta_toNat, hid, hp, BitVec.toNat_ofNat, Nat.mod_eq_of_lt (show n < 2 ^ 32 by omega), Nat.add_mod,
    Nat.mod_eq_of_lt hn]
  have hc : c % cfg.size < cfg.size := Nat.mod_lt _ (by omega)
  rcases Nat.lt_or_ge (c % cfg.size + n) cfg.size with hlt | hge
  · have hsum : c % cfg.size + n + cfg.size - c % cfg.size = n + cfg.size := by omega
    rw [Nat.mod_eq_of_lt hlt, hsum, Nat.add_mod_right, Nat.mod_eq_of_lt hn]
  · rw [Nat.mod_eq_sub_mod hge, Nat.mod_eq_of_lt (show c % cfg.size + n - cfg.size < cfg.size by omega)]
    have hsum : c % cfg.size + n - cfg.size + cfg.size - c % cfg.size = n := by omega
    rw [hsum, Nat.mod_eq_of_lt hn]

/-! ### Runs -/

/-- The pending counter is the number of descriptors consumed, and the packets consumed have got the flags and
sizes of their events, each once. -/
def Tracked (s : Ef10Rxq) : Prop :=
  s.srp.marks = s.due ∧ (s.srp.srState = SFXGE_RXQ_STARTED → s.srp.srPending = BitVec.ofNat 32 s.consumed)

/-- What holds as long as no event consumes 16 descriptors. -/
structure Inv (cfg : Config) (b C P : ℕ) (s : Ef10Rxq) : Prop where
  sound : s.srp.Sound cfg True b C P
  reset : s.enResetFlags = 0
  marks : s.srp.marks = s.due
  idle : s.srp.srState ≠ SFXGE_RXQ_STARTED → s.srp.stopping = false → s.srp.srPending = 0
  exception : s.srp.srState = SFXGE_RXQ_STARTED → s.srp.seException = false
  readPtr : s.srp.srState = SFXGE_RXQ_STARTED → s.eersRxReadPtr = BitVec.ofNat 32 s.consumed
  mask : s.srp.srState = SFXGE_RXQ_STARTED → s.eersRxMask = cfg.mask
  pending : s.srp.srState = SFXGE_RXQ_STARTED → s.srp.srPending = BitVec.ofNat 32 s.consumed
  number : s.srp.srState = SFXGE_RXQ_STARTED → P = s.first + s.consumed

theorem Inv.tracked (h : s.Inv cfg b C P) : s.Tracked := ⟨h.marks, h.pending⟩

theorem inv_construct (cfg : Config) : construct.Inv cfg 0 0 0 := by
  refine ⟨Rxq.sound_construct cfg True, rfl, rfl, fun _ _ => rfl, ?_, ?_, ?_, ?_, ?_⟩
  all_goals exact fun hst => by cases hst

theorem Consumes.batching {eqp : Qword} (h : Consumes (cfg.ef10 rxBatching) n eqp s) : rxBatching = true ∧ n ≤ 16 := by
  obtain ⟨-, h1, h2, -⟩ := h
  cases rxBatching with
  | true => exact ⟨rfl, h2⟩
  | false =>
    have h0 : n ≤ 0 := h2
    omega

theorem Consumes.inOrder {eqp : Qword} (h : Consumes (cfg.ef10 rxBatching) n eqp s) :
    ¬ Rxq.outOfOrder (cfg.ef10 rxBatching) (BitVec.ofNat 32 n) := by
  obtain ⟨hbatch, hn⟩ := h.batching
  obtain ⟨-, h1, -⟩ := h
  subst hbatch
  rintro ⟨-, h | h | h⟩
  · cases h
  · have h' := BitVec.le_def.mp h
    rw [BitVec.toNat_ofNat] at h'
    change _ ≤ 0 at h'
    omega
  · have h' := BitVec.lt_def.mp h
    rw [BitVec.toNat_ofNat] at h'
    change 16 < _ at h'
    omega

/-- What `ef10_ev_rx` hands up for an event. -/
theorem Inv.ef10EvRx (h : s.Inv cfg b C P) {eqp : Qword} (hc : Consumes cfg n eqp s) {d : ℕ}
    (hd : (BitVec.ofNat 32 ((s.consumed + n) % 16) - BitVec.ofNat 32 s.consumed) &&&
      mask32 ESF_DZ_RX_DSC_PTR_LBITS = BitVec.ofNat 32 d) (io : Io) :
    (s.consume n eqp).ef10EvRx cfg io eqp =
      (s.srp.evRx cfg io ((BitVec.ofNat 32 (s.consumed + d) - 1) &&& cfg.mask) (ef10Size eqp)
        (ef10Flags eqp (BitVec.ofNat 32 d))).map fun srp =>
          { s.consume n eqp with
            eersRxReadPtr := BitVec.ofNat 32 (s.consumed + d)
            srp := srp } := by
  obtain ⟨hst, -, -, -, hlbits, hdrop⟩ := hc
  have hreset : ¬ ((s.consume n eqp).enResetFlags &&& (EFX_RESET_RXQ_ERR ||| EFX_RESET_TXQ_ERR) ≠ 0) := by
    change ¬ (s.enResetFlags &&& _ ≠ 0)
    rw [h.reset]
    decide
  unfold Ef10Rxq.ef10EvRx
  rw [if_neg hreset, if_neg (not_not.mpr hdrop), hlbits]
  change Option.map _ (s.srp.evRx cfg io ((s.eersRxReadPtr + ((_ - s.eersRxReadPtr) &&& _) - 1) &&& s.eersRxMask) _
    (ef10Flags eqp ((_ - s.eersRxReadPtr) &&& _))) = _
  rw [h.readPtr hst, h.mask hst, hd, ← BitVec.ofNat_add]
  refine congrArg (fun f => Option.map f _) (funext fun srp => ?_)
  change ({ s.consume n eqp with
    eersRxReadPtr := s.eersRxReadPtr + ((BitVec.ofNat 32 ((s.consumed + n) % 16) - s.eersRxReadPtr) &&&
      mask32 ESF_DZ_RX_DSC_PTR_LBITS)
    srp := srp } : Ef10Rxq) = _
  rw [h.readPtr hst, hd, ← BitVec.ofNat_add]

/-- An event for fewer than 16 descriptors. -/
theorem Inv.event (h : s.Inv (cfg.ef10 rxBatching) b C P) {eqp : Qword} (hc : Consumes (cfg.ef10 rxBatching) n eqp s)
    (hn : n ≠ 16) (io : Io) : ∃ s', (s.consume n eqp).ef10EvRx (cfg.ef10 rxBatching) io eqp = some s' ∧
      ∃ C' P', s'.Inv (cfg.ef10 rxBatching) b C' P' := by
  have hin := hc.inOrder
  obtain ⟨hbatch, hle⟩ := hc.batching
  have hst := hc.1
  have hroom := hc.2.2.2.1
  have hP := h.number hst
  have hpos := cfg.le_size
  have hdelta : s.srp.delta (cfg.ef10 rxBatching) ((BitVec.ofNat 32 (s.consumed + n) - 1) &&&
      (cfg.ef10 rxBatching).mask) = BitVec.ofNat 32 n :=
    delta_lastUsedId (h.pending hst) ((by omega : n < 32).trans_le hpos)
  set cfg' := cfg.ef10 rxBatching with hcfg'
  set id : U32 := (BitVec.ofNat 32 (s.consumed + n) - 1) &&& cfg'.mask with hid
  have hdn : (s.srp.delta cfg' id).toNat = n := by
    rw [hdelta, BitVec.toNat_ofNat]
    exact Nat.mod_eq_of_lt (by omega)
  have hlen : P + (s.srp.delta cfg' id).toNat ≤ s.srp.posted.length := by
    rw [hdn, hP]
    exact hroom
  have hlen' := h.sound.ahead (Or.inl trivial)
  have hex := h.exception hst
  obtain ⟨srp', hr⟩ := h.sound.inv.evRx_some hlen' hex hst (fun _ => hlen) io (ef10Size eqp)
    (ef10Flags eqp (BitVec.ofNat 32 n))
  rw [h.ef10EvRx hc (descCount_eq (by omega)) io, hr]
  refine ⟨_, rfl, ?_⟩
  rcases h.sound.inv.evRx hlen' hex hst hr with ⟨hout, -⟩ | ⟨-, -, srp1, hm, hr1⟩
  · rw [hdelta] at hout
    exact absurd hout hin
  obtain ⟨C', hs', hsame⟩ := h.sound.accepted hst hm hlen hr1
  rw [hdn] at hs'
  have hmarks : srp1.marks = s.due ++ (List.range n).filterMap fun i =>
      (s.srp.posted[P + i]?).map (·, ef10Flags eqp (BitVec.ofNat 32 n), ef10Size eqp) := by
    rw [hm.1, hdn, h.marks]
  have hpending : srp1.srPending = BitVec.ofNat 32 (s.consumed + n) := by
    rw [hm.1, hdelta, h.pending hst, BitVec.ofNat_add]
  have hst1 : srp1.srState = SFXGE_RXQ_STARTED := by rw [hm.1]; exact hst
  have hex1 : srp1.seException = false := by rw [hm.1]; exact hex
  refine ⟨C', P + n, hs', h.reset, ?_, fun hne => ?_, fun _ => ?_, fun _ => rfl, fun _ => h.mask hst, fun _ => ?_,
    fun _ => ?_⟩
  · change srp'.marks = _
    rw [hsame.marks, hmarks, hP]
    rfl
  · exact absurd (hsame.srState.trans hst1) hne
  · exact hsame.seException.trans hex1
  · exact hsame.srPending.trans hpending
  · change P + n = s.first + (s.consumed + n)
    omega

/-- An event for 16 descriptors looks like one for none. -/
theorem Inv.event_sixteen (h : s.Inv (cfg.ef10 rxBatching) b C P) {eqp : Qword}
    (hc : Consumes (cfg.ef10 rxBatching) 16 eqp s)
    (hr : (s.consume 16 eqp).ef10EvRx (cfg.ef10 rxBatching) io eqp = some s') : ¬ s'.Tracked := by
  have hst := hc.1
  have hpos := cfg.le_size
  have hdelta : s.srp.delta (cfg.ef10 rxBatching) ((BitVec.ofNat 32 (s.consumed + 0) - 1) &&&
      (cfg.ef10 rxBatching).mask) = BitVec.ofNat 32 0 :=
    delta_lastUsedId (h.pending hst) ((by omega : 0 < 32).trans_le hpos)
  rw [h.ef10EvRx hc (d := 0) descCount_sixteen io] at hr
  obtain ⟨srp', hr', rfl⟩ := Option.map_eq_some_iff.mp hr
  have hout : Rxq.outOfOrder (cfg.ef10 rxBatching) (BitVec.ofNat 32 0) :=
    ⟨by decide, Or.inr (Or.inl (BitVec.le_refl _))⟩
  rintro ⟨-, hpending⟩
  rcases h.sound.inv.evRx (h.sound.ahead (Or.inl trivial)) (h.exception hst) hst hr' with ⟨-, rfl⟩ | ⟨hin, -⟩
  · have heq : s.srp.srPending + s.srp.delta (cfg.ef10 rxBatching) _ = BitVec.ofNat 32 (s.consumed + 16) :=
      hpending hst
    rw [hdelta, h.pending hst, ← BitVec.ofNat_add] at heq
    have heq' := congrArg BitVec.toNat heq
    rw [BitVec.toNat_ofNat, BitVec.toNat_ofNat] at heq'
    omega
  · rw [hdelta] at hin
    exact hin hout

/-- What a change of the queue that is no event keeps. -/
theorem Inv.of_same (h : s.Inv cfg b C P) {srp' : Rxq} {C' : ℕ} (hs : srp'.Sound cfg True b C' P)
    (hsame : s.srp.Same srp') : ({ s with srp := srp' } : Ef10Rxq).Inv cfg b C' P := by
  refine ⟨hs, h.reset, hsame.marks.trans h.marks, fun hne hstop => ?_, fun hst => ?_, fun hst => ?_, fun hst => ?_,
    fun hst => ?_, fun hst => ?_⟩
  · exact hsame.srPending.trans (h.idle (hsame.srState ▸ hne) (hsame.stopping ▸ hstop))
  · exact hsame.seException.trans (h.exception (hsame.srState ▸ hst))
  · exact h.readPtr (hsame.srState ▸ hst)
  · exact h.mask (hsame.srState ▸ hst)
  · exact hsame.srPending.trans (h.pending (hsame.srState ▸ hst))
  · exact h.number (hsame.srState ▸ hst)

/-- A change to a queue that is not started. -/
theorem Inv.of_stopped (h : s.Inv cfg b C P) {s' : Ef10Rxq} {b' C' P' : ℕ} (hs : s'.srp.Sound cfg True b' C' P')
    (hreset : s'.enResetFlags = s.enResetFlags) (hdue : s'.due = s.due) (hmarks : s'.srp.marks = s.srp.marks)
    (hst : s'.srp.srState ≠ SFXGE_RXQ_STARTED) (hidle : s'.srp.stopping = false → s'.srp.srPending = 0) :
    s'.Inv cfg b' C' P' :=
  ⟨hs, hreset.trans h.reset, hmarks.trans (h.marks.trans hdue.symm), fun _ => hidle, fun h => absurd h hst,
    fun h => absurd h hst, fun h => absurd h hst, fun h => absurd h hst, fun h => absurd h hst⟩

/-- A queue starts with nothing consumed. -/
theorem Inv.qstart (h : s.Inv cfg b C P) (io : Io) (port : Port) : (s.qstart cfg io port).Inv cfg b C P := by
  unfold Ef10Rxq.qstart
  split_ifs with hidle
  · obtain ⟨-, hsame⟩ := h.sound.inv.qstart hidle io port
    have hne : s.srp.srState ≠ SFXGE_RXQ_STARTED := by
      rw [hidle.1]
      exact nofun
    obtain ⟨hC, hP⟩ := h.sound.idle hne hidle.2
    refine ⟨h.sound.qstart io port, h.reset, hsame.marks.trans h.marks, fun hne' => absurd hsame.srState hne',
      fun _ => hsame.seException, fun _ => rfl, fun _ => rfl, fun _ => ?_, fun _ => hP.trans hC⟩
    exact hsame.srPending.trans (h.idle hne hidle.2)
  · exact h

/-- A stopped queue is drained. -/
theorem Inv.qdrain (h : s.Inv cfg b C P) (io : Io) :
    ∃ s', s.qdrain cfg io = some s' ∧ ∃ b' C' P', s'.Inv cfg b' C' P' := by
  unfold Ef10Rxq.qdrain
  split_ifs with hstop
  · obtain ⟨srp', hr⟩ := h.sound.step_some (o := .qdrain io) trivial
    change s.srp.qdrain cfg io = some srp' at hr
    obtain ⟨b', C', P', hs⟩ := h.sound.qdrain hr
    rw [hr]
    refine ⟨_, rfl, b', C', P', ?_⟩
    unfold Rxq.qdrain at hr
    rw [if_pos hstop] at hr
    obtain ⟨srp1, h1, rfl⟩ := Option.map_eq_some_iff.mp hr
    obtain ⟨-, hsame⟩ := h.sound.inv.drained.qcomplete h1
    refine h.of_stopped hs rfl rfl hsame.marks ?_ fun _ => rfl
    change srp1.srState ≠ _
    rw [hsame.srState]
    change s.srp.srState ≠ _
    rw [h.sound.stopping hstop]
    exact nofun
  · exact ⟨s, rfl, b, C, P, h⟩

/-- Any other operation. -/
theorem Inv.queue (h : s.Inv cfg b C P) (o : Rxq.Op) :
    ∃ s', step cfg (.queue o) s = some s' ∧ ∃ b' C' P', s'.Inv cfg b' C' P' := by
  cases o with
  | evRx io id size flags => exact ⟨s, rfl, b, C, P, h⟩
  | qstart io port => exact ⟨_, rfl, b, C, P, h.qstart io port⟩
  | qdrain io => exact h.qdrain io
  | preallocate io nprealloc =>
    by_cases hst : s.srp.srState = SFXGE_RXQ_UNINITIALIZED
    · refine ⟨_, congrArg (Option.map _) (if_pos hst), b, C, P, ?_⟩
      exact h.of_same (h.sound.qpreallocate io nprealloc) (h.sound.inv.qpreallocate io nprealloc).2
    · exact ⟨_, congrArg (Option.map _) (if_neg hst), b, C, P, h⟩
  | qinit =>
    refine ⟨_, rfl, b, C, P, ?_⟩
    have hs := h.sound.qinit
    change ({ s with srp := s.srp.qinit } : Ef10Rxq).Inv cfg b C P
    by_cases hst : s.srp.srState = SFXGE_RXQ_UNINITIALIZED
    · have hinit : s.srp.qinit = { s.srp with srState := SFXGE_RXQ_INITIALIZED } := if_pos hst
      rw [hinit] at hs ⊢
      exact h.of_stopped hs rfl rfl rfl nofun fun hstop => h.idle (by rw [hst]; exact nofun) hstop
    · have hkeep : s.srp.qinit = s.srp := if_neg hst
      rw [hkeep]
      exact h
  | evPolled io =>
    obtain ⟨srp', hr⟩ := h.sound.step_some (o := .evPolled io) trivial
    refine ⟨_, congrArg (Option.map _) hr, b, P, P, ?_⟩
    have hi0 : ({ s.srp with seRx := 0 } : Rxq).Inv cfg b C P := ⟨h.sound.inv.ring.congr rfl rfl rfl rfl,
      ⟨h.sound.inv.pool.count, h.sound.inv.pool.putCount, h.sound.inv.pool.owned, h.sound.inv.pool.loaned⟩,
      h.sound.inv.completed⟩
    have hsame0 : s.srp.Same { s.srp with seRx := 0 } := ⟨rfl, rfl, rfl, rfl, rfl, List.prefix_rfl⟩
    exact h.of_same (h.sound.evPolled hr) (hsame0.trans (hi0.evQcomplete hr).2)
  | trim io =>
    obtain ⟨srp', hr⟩ := h.sound.inv.qfppTrim_some io
    refine ⟨_, congrArg (Option.map _) hr, b, C, P, ?_⟩
    exact h.of_same (h.sound.qfppTrim hr) (h.sound.inv.qfppTrim hr).2
  | stackFree cpu recycled p =>
    refine ⟨_, rfl, b, C, P, ?_⟩
    exact h.of_same (h.sound.stackFree cpu recycled p) (Rxq.stackFree_frame cpu recycled p s.srp).1
  | qstop =>
    refine ⟨_, rfl, b, C, P, ?_⟩
    have hs := h.sound.qstop
    change ({ s with srp := s.srp.qstop } : Ef10Rxq).Inv cfg b C P
    by_cases hst : s.srp.srState = SFXGE_RXQ_STARTED
    · have hstop : s.srp.qstop = { s.srp with
          srState := SFXGE_RXQ_INITIALIZED
          stopping := true } := if_pos hst
      rw [hstop] at hs ⊢
      exact h.of_stopped hs rfl rfl rfl nofun nofun
    · have hkeep : s.srp.qstop = s.srp := if_neg hst
      rw [hkeep]
      exact h
  | qfini io =>
    refine ⟨_, rfl, b, C, P, ?_⟩
    have hs := h.sound.qfini io
    change ({ s with srp := s.srp.qfini io } : Ef10Rxq).Inv cfg b C P
    unfold Rxq.qfini at hs ⊢
    split_ifs at hs ⊢ with hst
    · have hf : Rxq.Filled cfg b C P 0 s.srp (s.srp.qfppSwizzle io.cpu) :=
        h.sound.inv.filled.swizzle (Rxq.swizzleOrder io.cpu)
      refine h.of_stopped hs rfl rfl hf.same.marks nofun fun _ => ?_
      exact hf.same.srPending.trans (h.idle (by rw [hst.1]; exact nofun) hst.2)
    · exact h

/-- The operation is no event that consumes 16 descriptors. -/
def NotSixteen (cfg : Config) : Op → Ef10Rxq → Prop
  | .event _ n eqp, s => Consumes cfg n eqp s → n ≠ 16
  | .queue _, _ => True

/-- **Descriptor accounting.**  In a run of EF10 events the pending counter tracks the consumed descriptors,
and each of them gets the flags and the size of its event once, if and only if no event consumes 16. -/
theorem events_tracked (cfg : Config) (rxBatching : Bool) (os : List Op) :
    GoesAlong (step (cfg.ef10 rxBatching)) Tracked (fun _ _ _ => True) os construct ↔
      GuardsAlong (step (cfg.ef10 rxBatching)) (NotSixteen (cfg.ef10 rxBatching)) os construct := by
  refine goesAlong_iff (I := fun s => ∃ b C P, s.Inv (cfg.ef10 rxBatching) b C P) ?_ ?_ ?_ os
    ⟨0, 0, 0, inv_construct _⟩
  · rintro s ⟨b, C, P, h⟩
    exact h.tracked
  · rintro (⟨io, n, eqp⟩ | o) s ⟨b, C, P, h⟩ hne
    · by_cases hc : Consumes (cfg.ef10 rxBatching) n eqp s
      · obtain ⟨s', hr, h'⟩ := h.event hc (hne hc) io
        exact ⟨s', (if_pos hc).trans hr, trivial, b, h'⟩
      · exact ⟨s, if_neg hc, trivial, b, C, P, h⟩
    · obtain ⟨s', hr, h'⟩ := h.queue o
      exact ⟨s', hr, trivial, h'⟩
  · rintro (⟨io, n, eqp⟩ | o) s s' ⟨b, C, P, h⟩ hr - htracked
    · rintro hc rfl
      exact h.event_sixteen hc ((if_pos hc).symm.trans hr) htracked
    · trivial

/-- All 16 descriptors of a new queue are consumed by one event: the pending counter stays. -/
theorem sixteen_untracked :
    ¬ GoesAlong (step (Config.least.ef10 true)) Tracked (fun _ _ _ => True)
      [.queue .qinit, .queue (.qstart (.plain true) ⟨0, 0, 1500⟩), .event (.plain true) 16 ⟨64, 0⟩] construct := by
  intro h
  obtain ⟨s, hr, -, hpending⟩ := h.last
  have hnot : ((runOps (step (Config.least.ef10 true)) [.queue .qinit,
      .queue (.qstart (.plain true) ⟨0, 0, 1500⟩), .event (.plain true) 16 ⟨64, 0⟩] construct).all fun s =>
        decide (s.srp.srState = SFXGE_RXQ_STARTED ∧ s.srp.srPending ≠ BitVec.ofNat 32 s.consumed)) = true := by
    decide
  rw [hr] at hnot
  obtain ⟨hst, hne⟩ := of_decide_eq_true hnot
  exact hne (hpending hst)

end Ef10Rxq

end Sfxge.Rx
