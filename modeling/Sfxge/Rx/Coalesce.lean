import Sfxge.Lib.Lanes
import Sfxge.Lib.Bytes
import Sfxge.Lib.Run
import Sfxge.Rx.Ef10

/-!
# Rx.Coalesce — large receive coalescing

`sfxge_rx_qpacket_coalesce` joins the segments of a TCP flow to one message, which the flow holds until
`sfxge_rx_qflow_complete` puts it on the chain of the queue; what cannot be joined goes on the chain as it is.  A packet
here is what `sfxge_pkthdr_parse` finds in it.
-/

namespace Sfxge.Rx.Coalesce

open Lib

def SFXGE_MAX_FLOW : ℕ := 1024
def SFXGE_SLOW_START : BitVec 32 := 20
def IP_DF : U16 := 0x4000
def TH_SYN : BitVec 8 := 0x02
def TH_RST : BitVec 8 := 0x04
def TH_PUSH : BitVec 8 := 0x08
def TH_URG : BitVec 8 := 0x20

/-- `sfxge_rx_coalesce_mode_t` -/
inductive CoalesceMode where
  | SFXGE_RX_COALESCE_OFF
  | SFXGE_RX_COALESCE_DISALLOW_PUSH
  | SFXGE_RX_COALESCE_ALLOW_PUSH
  deriving Repr, DecidableEq

open CoalesceMode

/-- The addresses and ports of a TCP connection. -/
structure Tuple where
  saddr : BitVec 32
  daddr : BitVec 32
  sport : U16
  dport : U16
  deriving DecidableEq

/-- A received packet: its message block, the flags of its event and its headers.  `hdr` is the length of its IP and TCP
headers, so that `ip_len` is that of the headers and the payload. -/
structure Packet where
  srpMp : ℕ
  srpFlags : U16
  etherTci : U16
  ipOff : U16
  tuple : Tuple
  hdr : ℕ
  thSeq : BitVec 32
  thAck : BitVec 32
  thWin : U16
  thFlags : BitVec 8
  thUrp : U16
  payload : Bytes
  ipLen_lt : hdr + payload.length < 65536
  deriving DecidableEq

namespace Packet

variable (p : Packet)

def ipLen : ℕ := p.hdr + p.payload.length

def size : ℕ := p.payload.length

/-- The sequence number behind the segment. -/
def seqEnd : BitVec 32 := p.thSeq + BitVec.ofNat 32 p.size

def IsTcp : Prop := ~~~p.srpFlags &&& EFX_PKT_TCP = 0

/-- A TCP packet that is fully checksummed and not a fragment. -/
def Mergeable : Prop :=
  p.IsTcp ∧ ~~~p.srpFlags &&& (EFX_CKSUM_TCPUDP ||| EFX_CKSUM_IPV4) = 0 ∧ p.ipOff &&& ~~~IP_DF = 0

instance : Decidable p.IsTcp := inferInstanceAs (Decidable (_ = _))

instance : Decidable p.Mergeable := inferInstanceAs (Decidable (_ ∧ _))

/-- The TCP flow of a packet: its connection and its VLAN. -/
def flow : Option (Tuple × U16) := if p.IsTcp then some (p.tuple, p.etherTci) else none

/-- A pure ACK, or URG, SYN or RST: nothing is merged across it. -/
def Apart : Prop := p.size = 0 ∨ p.thFlags &&& (TH_URG ||| TH_SYN ||| TH_RST) ≠ 0 ∨ p.thUrp ≠ 0

instance : Decidable p.Apart := inferInstanceAs (Decidable (_ ∨ _))

end Packet

/-- A message on the chain: the frame of its first packet with the payload of the others behind it, and what the headers
of the first say then. -/
structure Msg where
  first : Packet
  bCont : List Packet
  ipLen : U16
  thAck : BitVec 32
  thWin : U16
  thFlags : BitVec 8

namespace Msg

def packets (m : Msg) : List Packet := m.first :: m.bCont

def payload (m : Msg) : Bytes := m.packets.flatMap Packet.payload

/-- A packet as it came. -/
def single (p : Packet) : Msg := ⟨p, [], BitVec.ofNat 16 p.ipLen, p.thAck, p.thWin, p.thFlags⟩

end Msg

/-- `sfxge_rx_flow_t`; `srfMp` are the packets of the message that it holds. -/
structure Flow where
  srfTag : BitVec 32
  srfCount : BitVec 32
  srfTci : U16
  srfTuple : Tuple
  srfSeq : BitVec 32
  srfLbolt : ℤ
  srfMp : List Packet
  srfLastThp : Option Packet
  srfLen : ℕ

def Flow.join (srfp : Flow) (p : Packet) : Flow :=
  if srfp.srfMp = [] then { srfp with srfMp := [p], srfLastThp := some p, srfLen := p.ipLen }
  else { srfp with
    srfMp := srfp.srfMp ++ [p]
    srfLastThp := some p
    srfLen := srfp.srfLen + p.size }

/-- The flows of a receive queue, those that are occupied in their list, and what the coalescing is given and has put
on the chain so far. -/
structure Lro where
  srFlow : ℕ → Flow
  srSrfp : List ℕ
  received : List Packet
  posted : List Msg

/-- The hash of a connection, by the NIC or by the driver, and the retransmission timeout. -/
structure Env where
  hash : Tuple → BitVec 32
  srRto : ℤ

/-- As `sfxge_rx_qctor` leaves it. -/
def ctor : Lro := ⟨fun _ => ⟨0, 0, 0, ⟨0, 0, 0, 0⟩, 0, 0, [], none, 0⟩, [], [], []⟩

namespace Lro

variable (env : Env) (mode : CoalesceMode) (now : ℤ)

def setFlow (s : Lro) (i : ℕ) (f : Flow) : Lro := { s with srFlow := Function.update s.srFlow i f }

/-- `*(srp->sr_mpp) = mp` -/
def post (s : Lro) (m : Msg) : Lro := { s with posted := s.posted ++ [m] }

/-- The packet is put on the chain as it is. -/
def reject (s : Lro) (p : Packet) : Lro := s.post (Msg.single p)

/-- `sfxge_rx_qflow_complete` -/
def qflowComplete (s : Lro) (i : ℕ) : Lro :=
  let srfp := s.srFlow i
  match srfp.srfMp with
  | [] => s
  | first :: bCont =>
    let thp := srfp.srfLastThp.getD first
    (s.setFlow i { srfp with srfMp := [], srfLen := 0 }).post
      ⟨first, bCont, BitVec.ofNat 16 srfp.srfLen, thp.thAck, thp.thWin, thp.thFlags⟩

/-- The failure exits of `sfxge_rx_qflow_add`, with the flow as they are reached. -/
def leave (s : Lro) (i : ℕ) (srfp : Flow) : Lro :=
  let s := (s.setFlow i srfp).qflowComplete i
  s.setFlow i { s.srFlow i with srfLbolt := now }

/-- The packet becomes the first of the message that the flow holds, or the last. -/
def join (s : Lro) (i : ℕ) (p : Packet) : Lro :=
  let srfp := s.srFlow i
  { s.setFlow i (srfp.join p) with
    srSrfp := if srfp.srfMp = [] ∧ i ∉ s.srSrfp then s.srSrfp ++ [i] else s.srSrfp }

/-- The in-order segment count of a flow from which a segment is missing. -/
def slowDown (count : BitVec 32) : BitVec 32 :=
  (if SFXGE_SLOW_START < count then SFXGE_SLOW_START else count) >>> 1 + 1

/-- The largest message that a flow may hold, scaled up from 4k. -/
def room (count : BitVec 32) : ℕ := 2 ^ min (count - SFXGE_SLOW_START + 12).toNat 16

/-- `sfxge_rx_qflow_add` from where the segment can be joined -/
def qflowJoin (s : Lro) (i : ℕ) (p : Packet) : Lro :=
  let srfp := s.srFlow i
  let s := if srfp.srfLen + p.size ≥ room srfp.srfCount then s.qflowComplete i else s
  let s := s.join i p
  -- try to align coalesced segments on push boundaries
  let s := if mode = SFXGE_RX_COALESCE_ALLOW_PUSH ∧ p.thFlags &&& TH_PUSH ≠ 0 then s.qflowComplete i else s
  s.setFlow i { s.srFlow i with srfLbolt := now }

/-- `sfxge_rx_qflow_add`, with whether the packet has been added. -/
def qflowAdd (s : Lro) (i : ℕ) (p : Packet) : Lro × Bool :=
  let srfp := s.srFlow i
  if now - srfp.srfLbolt > env.srRto then
    (s.leave now i { srfp with srfCount := 1, srfSeq := p.seqEnd }, false)
  else if p.thSeq ≠ srfp.srfSeq then
    (s.leave now i { srfp with srfCount := slowDown srfp.srfCount, srfSeq := p.seqEnd }, false)
  else
    let srfp := { srfp with srfCount := srfp.srfCount + 1, srfSeq := p.seqEnd }
    if p.Apart then (s.leave now i srfp, false)
    else if srfp.srfCount < SFXGE_SLOW_START then (s.leave now i srfp, false)
    else ((s.setFlow i srfp).qflowJoin mode now i p, true)

/-- The flow is that of the packet. -/
def Matches (srfp : Flow) (p : Packet) : Prop := srfp.srfTuple = p.tuple ∧ srfp.srfTci = p.etherTci

instance (srfp : Flow) (p : Packet) : Decidable (Matches srfp p) := inferInstanceAs (Decidable (_ ∧ _))

/-- `&(srp->sr_flow[(hash >> 6) % SFXGE_MAX_FLOW])` -/
def bucket (t : Tuple) : ℕ := (env.hash t >>> 6).toNat % SFXGE_MAX_FLOW

/-- A new flow in the place of an unused or stale one. -/
def newFlow (srfp : Flow) (p : Packet) : Flow :=
  { srfp with
    srfTag := env.hash p.tuple + 1
    srfTuple := p.tuple
    srfTci := p.etherTci
    srfCount := 0
    srfSeq := p.thSeq
    srfLbolt := now }

/-- The flow at `i` may not be replaced: it is in use, or it holds a message. -/
def InUse (srfp : Flow) : Prop := (srfp.srfCount ≠ 0 ∧ now - srfp.srfLbolt ≤ env.srRto) ∨ srfp.srfMp ≠ []

instance (srfp : Flow) : Decidable (InUse env now srfp) := inferInstanceAs (Decidable (_ ∨ _))

/-- From `lookup:` to `add:` or to `reject:`, with whether the packet has a flow. -/
def lookup (s : Lro) (p : Packet) : Lro × Bool :=
  let i := bucket env p.tuple
  let srfp := s.srFlow i
  if env.hash p.tuple + 1 ≠ srfp.srfTag then
    if InUse env now srfp then (s, false) else (s.setFlow i (newFlow env now srfp p), true)
  else (s, decide (Matches srfp p))

/-- From `add:` on. -/
def add (s : Lro) (i : ℕ) (p : Packet) : Lro :=
  let (s, added) := s.qflowAdd env mode now i p
  if added then s else s.reject p

/-- One round of `sfxge_rx_qpacket_coalesce`; `srfp` is the flow that was looked up last. -/
def coalesceOne (srfp : Option ℕ) (s : Lro) (p : Packet) : Option ℕ × Lro :=
  if ¬ p.Mergeable then (srfp, s.reject p)
  else match srfp.filter fun i => Matches (s.srFlow i) p with
    | some i => (some i, s.add env mode now i p)
    | none =>
      let i := bucket env p.tuple
      let (s, found) := s.lookup env now p
      (some i, if found then s.add env mode now i p else s.reject p)

/-- The packet has been taken off the ring. -/
def receive (s : Lro) (p : Packet) : Lro := { s with received := s.received ++ [p] }

/-- A round of the loop over the packets, or none where coalescing is off. -/
def round (srfp : Option ℕ) (s : Lro) (p : Packet) : Option ℕ × Lro :=
  if mode = SFXGE_RX_COALESCE_OFF then (srfp, (s.receive p).reject p)
  else (s.receive p).coalesceOne env mode now srfp p

/-- `sfxge_rx_qpacket_coalesce`: `*(srp->sr_srfpp)`, where it starts, is the end of the list. -/
def qpacketCoalesce (s : Lro) (mps : List Packet) : Lro :=
  (mps.foldl (fun c p => round env mode now c.1 c.2 p) (none, s)).2

/-- The pending flows are completed at the end of a poll. -/
def completeAll (s : Lro) : Lro :=
  s.srSrfp.foldl qflowComplete { s with srSrfp := [] }

end Lro

/-- What `sfxge_rx_qcomplete` is called with: the time, the mode, the packets that have been received, and whether this
is the end of the poll. -/
structure Poll where
  now : ℤ
  mode : CoalesceMode
  mps : List Packet
  eop : Bool

/-- The coalescing of `sfxge_rx_qcomplete` -/
def qcomplete (env : Env) (b : Poll) (s : Lro) : Lro :=
  let s := s.qpacketCoalesce env b.mode b.now b.mps
  if b.eop then s.completeAll else s

/-! ### The flows as lanes -/

def Flow.key (srfp : Flow) : Tuple × U16 := (srfp.srfTuple, srfp.srfTci)

/-- What of a flow of packets is held. -/
def held (env : Env) (s : Lro) : Option (Tuple × U16) → List Packet
  | none => []
  | some k => if (s.srFlow (Lro.bucket env k.1)).key = k then (s.srFlow (Lro.bucket env k.1)).srfMp else []

/-- What is held of each flow of packets, and the packets that are on the chain. -/
def lanes (env : Env) (s : Lro) : Lanes (Option (Tuple × U16)) Packet := ⟨held env s, s.posted.flatMap Msg.packets⟩

/-- A packet does not come from port 0 of no address to port 0 of no address. -/
def Packet.Addressed (p : Packet) : Prop := p.tuple ≠ ⟨0, 0, 0, 0⟩

instance (p : Packet) : Decidable p.Addressed := inferInstanceAs (Decidable (_ ≠ _))

/-- `q` carries on where `p` ends. -/
def Follows (p q : Packet) : Prop := q.thSeq = p.seqEnd

/-- A message of segments of one flow that follow each other; several are joined only where that is allowed.  The length
in the IP header is that of the message, and the rest of the TCP header is that of the last segment. -/
structure Msg.Joined (m : Msg) : Prop where
  flow : ∀ p ∈ m.packets, p.flow = m.first.flow
  follows : m.packets.IsChain Follows
  mergeable : m.bCont ≠ [] → ∀ p ∈ m.packets, p.Mergeable ∧ ¬ p.Apart
  ipLen : m.ipLen.toNat = m.first.hdr + m.payload.length
  last : ∀ p ∈ m.packets.getLast?, m.thAck = p.thAck ∧ m.thWin = p.thWin ∧ m.thFlags = p.thFlags

/-- What a flow holds can be completed to a message. -/
structure Flow.Holds (srfp : Flow) : Prop where
  flow : ∀ p ∈ srfp.srfMp, p.flow = some srfp.key ∧ p.Addressed ∧ p.Mergeable ∧ ¬ p.Apart
  follows : srfp.srfMp.IsChain Follows
  len : ∀ p ∈ srfp.srfMp.head?, srfp.srfLen = p.hdr + (srfp.srfMp.flatMap Packet.payload).length
  len_lt : srfp.srfMp ≠ [] → srfp.srfLen < 65536
  last : srfp.srfMp ≠ [] → srfp.srfLastThp = srfp.srfMp.getLast?

/-- A flow that has been used is where its hash says. -/
structure Inv (env : Env) (s : Lro) : Prop where
  placed : ∀ i, (s.srFlow i).srfTuple ≠ ⟨0, 0, 0, 0⟩ →
    (s.srFlow i).srfTag = env.hash (s.srFlow i).srfTuple + 1 ∧ Lro.bucket env (s.srFlow i).srfTuple = i
  holds : ∀ i, (s.srFlow i).Holds
  joined : ∀ m ∈ s.posted, m.Joined

/-- The next segment of a flow is the one behind what it holds, and a flow that holds something is in the list. -/
def Flow.Linked (srfps : List ℕ) (i : ℕ) (srfp : Flow) : Prop :=
  (∀ p ∈ srfp.srfMp.getLast?, p.seqEnd = srfp.srfSeq) ∧ (srfp.srfMp ≠ [] → i ∈ srfps)

def Linked (s : Lro) : Prop := ∀ i, (s.srFlow i).Linked s.srSrfp i

/-- Only the flow at `i` has changed. -/
structure Frame (i : ℕ) (s s' : Lro) : Prop where
  srFlow : ∀ j, j ≠ i → s'.srFlow j = s.srFlow j
  srSrfp : s.srSrfp ⊆ s'.srSrfp
  received : s'.received = s.received

variable {env : Env} (mode : CoalesceMode) (now : ℤ) {s s' s'' : Lro} {i : ℕ} {p : Packet} {srfp : Flow}

open Lro

@[simp] theorem setFlow_srFlow (s : Lro) (i : ℕ) (f : Flow) : (s.setFlow i f).srFlow = Function.update s.srFlow i f :=
  rfl

theorem setFlow_setFlow (s : Lro) (i : ℕ) (f g : Flow) : (s.setFlow i f).setFlow i g = s.setFlow i g := by
  simp [setFlow]

theorem Packet.flow_eq (h : p.Mergeable) : p.flow = some (p.tuple, p.etherTci) := if_pos h.1

theorem Msg.joined_single (p : Packet) : (Msg.single p).Joined where
  flow q hq := by
    obtain rfl : q = p := by simpa [single, packets] using hq
    rfl
  follows := by simp [single, packets]
  mergeable h := absurd rfl h
  ipLen := by
    have := p.ipLen_lt
    simp only [single, payload, packets, Packet.ipLen, BitVec.toNat_ofNat, List.flatMap_cons, List.flatMap_nil,
      List.append_nil]
    omega
  last q hq := by
    obtain rfl : q = p := by simpa [single, packets] using hq.symm
    exact ⟨rfl, rfl, rfl⟩

/-- What a flow without addresses holds: nothing. -/
theorem Inv.unaddressed (h : Inv env s) (hi : (s.srFlow i).srfTuple = ⟨0, 0, 0, 0⟩) : (s.srFlow i).srfMp = [] := by
  refine List.eq_nil_iff_forall_not_mem.mpr fun p hp => ?_
  obtain ⟨hflow, haddr, hm, -⟩ := (h.holds i).flow p hp
  rw [Packet.flow_eq hm] at hflow
  exact haddr ((congrArg Prod.fst (Option.some.inj hflow)).trans hi)

/-- What a flow holds is in the lane of its key. -/
theorem Inv.held_key (h : Inv env s) (i : ℕ) : held env s (some (s.srFlow i).key) = (s.srFlow i).srfMp := by
  by_cases hi : (s.srFlow i).srfTuple = ⟨0, 0, 0, 0⟩
  · rw [h.unaddressed hi, held]
    split_ifs with hk
    · exact h.unaddressed ((congrArg Prod.fst hk).trans hi)
    · rfl
  · rw [held, show bucket env (s.srFlow i).key.1 = i from (h.placed i hi).2, if_pos rfl]

theorem held_setFlow (s : Lro) (i : ℕ) (f : Flow) (k : Tuple × U16) : held env (s.setFlow i f) (some k) =
    if bucket env k.1 = i then (if f.key = k then f.srfMp else []) else held env s (some k) := by
  by_cases hb : bucket env k.1 = i
  · rw [if_pos hb, held, hb, setFlow_srFlow, Function.update_self]
  · rw [if_neg hb, held, setFlow_srFlow, Function.update_of_ne hb, held]

/-- When a flow keeps its key, what it holds is all that changes. -/
theorem Inv.held_update (h : Inv env s) (hkey : srfp.key = (s.srFlow i).key)
    (hz : (s.srFlow i).srfTuple = ⟨0, 0, 0, 0⟩ → srfp.srfMp = []) :
    held env (s.setFlow i srfp) = Function.update (held env s) (some srfp.key) srfp.srfMp := by
  funext k
  cases k with
  | none => rfl
  | some k =>
    rw [held_setFlow]
    by_cases hk : k = srfp.key
    · subst hk
      rw [Function.update_self, if_pos rfl]
      split_ifs with hb
      · rfl
      · have hi : (s.srFlow i).srfTuple = ⟨0, 0, 0, 0⟩ := by
          by_contra hi
          exact hb (hkey ▸ (h.placed i hi).2)
        rw [hkey, h.held_key, h.unaddressed hi, hz hi]
    · rw [Function.update_of_ne fun he => hk (Option.some.inj he)]
      split_ifs with hb hk'
      · exact absurd hk'.symm hk
      · rw [held, hb, if_neg fun he => hk (he.symm.trans hkey.symm)]
      · rfl

theorem Inv.lanes_setFlow (h : Inv env s) (hkey : srfp.key = (s.srFlow i).key)
    (hmp : srfp.srfMp = (s.srFlow i).srfMp) : lanes env (s.setFlow i srfp) = lanes env s := by
  have hheld := h.held_update hkey fun hi => hmp.trans (h.unaddressed hi)
  rw [hkey, hmp, ← h.held_key i, Function.update_eq_self] at hheld
  rw [lanes, hheld]
  rfl

/-- Changes of what a flow says of its segments. -/
theorem Inv.setFlow (h : Inv env s) (hkey : srfp.key = (s.srFlow i).key) (htag : srfp.srfTag = (s.srFlow i).srfTag)
    (hholds : srfp.Holds) : Inv env (s.setFlow i srfp) where
  placed j hj := by
    by_cases hji : j = i
    · subst hji
      have ht : srfp.srfTuple = (s.srFlow j).srfTuple := congrArg Prod.fst hkey
      rw [setFlow_srFlow, Function.update_self] at hj ⊢
      rw [ht] at hj
      rw [ht, htag]
      exact h.placed j hj
    · rw [setFlow_srFlow, Function.update_of_ne hji] at hj ⊢
      exact h.placed j hj
  holds j := by
    by_cases hji : j = i
    · subst hji
      rw [setFlow_srFlow, Function.update_self]
      exact hholds
    · rw [setFlow_srFlow, Function.update_of_ne hji]
      exact h.holds j
  joined := h.joined

/-! ### Completing -/

/-- A flow once it is complete. -/
def Flow.emptied (srfp : Flow) : Flow := if srfp.srfMp = [] then srfp else { srfp with srfMp := [], srfLen := 0 }

theorem Flow.emptied_srfMp (srfp : Flow) : srfp.emptied.srfMp = [] := by
  unfold emptied
  split_ifs with h
  · exact h
  · rfl

theorem Flow.emptied_frame (srfp : Flow) : srfp.emptied.key = srfp.key ∧ srfp.emptied.srfTag = srfp.srfTag ∧
    srfp.emptied.srfSeq = srfp.srfSeq ∧ srfp.emptied.srfCount = srfp.srfCount := by
  unfold emptied
  split_ifs <;> exact ⟨rfl, rfl, rfl, rfl⟩

theorem Flow.holds_nil (h : srfp.srfMp = []) : srfp.Holds := by
  constructor <;> simp [h]

/-- The message of a flow. -/
theorem Flow.Holds.joined {first : Packet} {bCont : List Packet} (h : srfp.Holds) (hmp : srfp.srfMp = first :: bCont) :
    let thp := srfp.srfLastThp.getD first
    (⟨first, bCont, BitVec.ofNat 16 srfp.srfLen, thp.thAck, thp.thWin, thp.thFlags⟩ : Msg).Joined := by
  have hne : srfp.srfMp ≠ [] := by simp [hmp]
  refine ⟨fun p hp => ?_, ?_, fun _ p hp => ?_, ?_, fun p hp => ?_⟩
  · rw [(h.flow p (hmp ▸ hp)).1, (h.flow first (by simp [hmp])).1]
  · have hf := h.follows
    rwa [hmp] at hf
  · exact (h.flow p (hmp ▸ hp)).2.2
  · have hlen := h.len first (by simp [hmp])
    rw [hmp] at hlen
    rw [BitVec.toNat_ofNat, Nat.mod_eq_of_lt (h.len_lt hne)]
    exact hlen
  · have hlast : srfp.srfLastThp = some p := (h.last hne).trans (hmp ▸ hp)
    simp [hlast]

theorem qflowComplete_nil (hmp : (s.srFlow i).srfMp = []) : s.qflowComplete i = s := by
  simp only [qflowComplete, hmp]

theorem qflowComplete_cons {first : Packet} {bCont : List Packet} (hmp : (s.srFlow i).srfMp = first :: bCont) :
    let thp := (s.srFlow i).srfLastThp.getD first
    s.qflowComplete i = (s.setFlow i { s.srFlow i with srfMp := [], srfLen := 0 }).post
      ⟨first, bCont, BitVec.ofNat 16 (s.srFlow i).srfLen, thp.thAck, thp.thWin, thp.thFlags⟩ := by
  simp only [qflowComplete, hmp]

theorem qflowComplete_srFlow (s : Lro) (i : ℕ) :
    (s.qflowComplete i).srFlow = Function.update s.srFlow i (s.srFlow i).emptied := by
  cases hmp : (s.srFlow i).srfMp with
  | nil => rw [qflowComplete_nil hmp, Flow.emptied, if_pos hmp, Function.update_eq_self]
  | cons first bCont => rw [qflowComplete_cons hmp, Flow.emptied, if_neg (by simp [hmp])]; rfl

theorem qflowComplete_frame (s : Lro) (i : ℕ) : Frame i s (s.qflowComplete i) := by
  refine ⟨fun j hj => by rw [qflowComplete_srFlow, Function.update_of_ne hj], ?_, ?_⟩ <;>
    cases hmp : (s.srFlow i).srfMp with
    | nil => simp [qflowComplete_nil hmp]
    | cons first bCont => simp [qflowComplete_cons hmp, post, setFlow]

/-- **`sfxge_rx_qflow_complete`** lets out what the flow holds. -/
theorem Inv.qflowComplete (h : Inv env s) (i : ℕ) : Inv env (s.qflowComplete i) ∧
    lanes env (s.qflowComplete i) = (lanes env s).flush (some (s.srFlow i).key) := by
  cases hmp : (s.srFlow i).srfMp with
  | nil =>
    rw [qflowComplete_nil hmp]
    exact ⟨h, (Lanes.flush_of_nil ((h.held_key i).trans hmp)).symm⟩
  | cons first bCont =>
    rw [qflowComplete_cons hmp]
    have hI : Inv env (s.setFlow i { s.srFlow i with srfMp := [], srfLen := 0 }) :=
      h.setFlow rfl rfl (Flow.holds_nil rfl)
    refine ⟨⟨hI.placed, hI.holds, fun m hm => ?_⟩, ?_⟩
    · rcases List.mem_append.mp hm with hm | hm
      · exact h.joined m hm
      · obtain rfl := List.mem_singleton.mp hm
        exact (h.holds i).joined hmp
    · have hheld := h.held_update (i := i)
        (show Flow.key { s.srFlow i with srfMp := [], srfLen := 0 } = _ from rfl) fun _ => rfl
      have hkey := h.held_key i
      rw [hmp] at hkey
      simp only [Lanes.flush, lanes, hkey]
      refine congrArg₂ Lanes.mk hheld ?_
      simp [post, Lro.setFlow, Msg.packets]

/-! ### Adding to a flow -/

theorem Frame.trans (h : Frame i s s') (h' : Frame i s' s'') : Frame i s s'' where
  srFlow j hj := (h'.srFlow j hj).trans (h.srFlow j hj)
  srSrfp _ hj := h'.srSrfp (h.srSrfp hj)
  received := h'.received.trans h.received

theorem frame_setFlow (s : Lro) (i : ℕ) (f : Flow) : Frame i s (s.setFlow i f) :=
  ⟨fun j hj => by rw [setFlow_srFlow, Function.update_of_ne hj], List.Subset.refl _, rfl⟩

theorem frame_join (s : Lro) (i : ℕ) (p : Packet) : Frame i s (s.join i p) := by
  refine ⟨(frame_setFlow s i _).srFlow, ?_, rfl⟩
  unfold join
  dsimp only
  split_ifs
  · exact List.subset_append_left ..
  · exact List.Subset.refl _

theorem Linked.step (h : Linked s) (hf : Frame i s s') (hi : (s'.srFlow i).Linked s'.srSrfp i) : Linked s' := by
  intro j
  by_cases hj : j = i
  · exact hj ▸ hi
  · rw [hf.srFlow j hj]
    exact ⟨(h j).1, fun hne => hf.srSrfp ((h j).2 hne)⟩

theorem Flow.linked_nil {srfps : List ℕ} (h : srfp.srfMp = []) : srfp.Linked srfps i := by
  simp [Flow.Linked, h]

/-- What of a flow its segment count, its next sequence number and its time say nothing about. -/
def Flow.content (srfp : Flow) : (Tuple × U16) × BitVec 32 × List Packet × ℕ × Option Packet :=
  (srfp.key, srfp.srfTag, srfp.srfMp, srfp.srfLen, srfp.srfLastThp)

theorem Flow.Holds.congr {f : Flow} (h : srfp.Holds) (hc : f.content = srfp.content) : f.Holds := by
  simp only [Flow.content, Prod.mk.injEq] at hc
  obtain ⟨hkey, -, hmp, hlen, hlast⟩ := hc
  obtain ⟨h1, h2, h3, h4, h5⟩ := h
  constructor <;> rw [hmp]
  · rw [hkey]
    exact h1
  · exact h2
  · rw [hlen]
    exact h3
  · rw [hlen]
    exact h4
  · rw [hlast]
    exact h5

theorem Inv.setContent (h : Inv env s) (srfp : Flow) (hc : srfp.content = (s.srFlow i).content) :
    Inv env (s.setFlow i srfp) ∧ lanes env (s.setFlow i srfp) = lanes env s := by
  have hholds := (h.holds i).congr hc
  simp only [Flow.content, Prod.mk.injEq] at hc
  exact ⟨h.setFlow hc.1 hc.2.1 hholds, h.lanes_setFlow hc.1 hc.2.2.1⟩

/-- The failure exits let out what the flow holds. -/
theorem Inv.leave (h : Inv env s) (hc : srfp.content = (s.srFlow i).content) :
    Inv env (s.leave now i srfp) ∧ lanes env (s.leave now i srfp) = (lanes env s).flush (some (s.srFlow i).key) ∧
      Frame i s (s.leave now i srfp) ∧ ((s.leave now i srfp).srFlow i).srfMp = [] := by
  obtain ⟨h1, hl1⟩ := h.setContent srfp hc
  obtain ⟨h2, hl2⟩ := h1.qflowComplete i
  obtain ⟨h3, hl3⟩ := h2.setContent { ((s.setFlow i srfp).qflowComplete i).srFlow i with srfLbolt := now } rfl
  have hkey : ((s.setFlow i srfp).srFlow i).key = (s.srFlow i).key := by
    rw [setFlow_srFlow, Function.update_self]
    exact congrArg Prod.fst hc
  refine ⟨h3, ?_, ?_, ?_⟩
  · rw [Lro.leave, hl3, hl2, hl1, hkey]
  · exact ((frame_setFlow s i srfp).trans (qflowComplete_frame _ i)).trans (frame_setFlow _ i _)
  · simp only [Lro.leave, setFlow_srFlow, Function.update_self, qflowComplete_srFlow]
    exact Flow.emptied_srfMp srfp

theorem Flow.Holds.join (h : srfp.Holds) (hkey : srfp.key = (p.tuple, p.etherTci)) (hm : p.Mergeable)
    (ha : p.Addressed) (hp : ¬ p.Apart) (hnext : ∀ q ∈ srfp.srfMp.getLast?, Follows q p)
    (hroom : srfp.srfMp ≠ [] → srfp.srfLen + p.size < 65536) : (srfp.join p).Holds := by
  have hflow : p.flow = some srfp.key := (Packet.flow_eq hm).trans (congrArg some hkey.symm)
  unfold Flow.join
  split_ifs with h0
  · constructor <;> simp_all [Packet.ipLen, Flow.key, p.ipLen_lt]
  · refine ⟨fun q hq => ?_, ?_, fun q hq => ?_, fun _ => hroom h0, fun _ => by simp⟩
    · rcases List.mem_append.mp hq with hq | hq
      · exact h.flow q hq
      · obtain rfl := List.mem_singleton.mp hq
        exact ⟨hflow, ha, hm, hp⟩
    · refine List.isChain_append.mpr ⟨h.follows, List.isChain_singleton _, fun x hx y hy => ?_⟩
      obtain rfl : y = p := by simpa using hy.symm
      exact hnext x hx
    · have hhead := h.len q (by simpa [List.head?_append_of_ne_nil _ h0] using hq)
      simp only [List.flatMap_append, List.length_append, List.flatMap_cons, List.flatMap_nil, List.append_nil]
      rw [hhead, Packet.size]
      omega

theorem Flow.join_frame (srfp : Flow) (p : Packet) : (srfp.join p).key = srfp.key ∧
    (srfp.join p).srfTag = srfp.srfTag ∧ (srfp.join p).srfSeq = srfp.srfSeq ∧
    (srfp.join p).srfMp = srfp.srfMp ++ [p] := by
  unfold Flow.join
  split_ifs with h <;> simp [Flow.key, h]

/-- The packet is the next segment of the flow at `i`, whose sequence number has moved behind it already. -/
structure Next (s : Lro) (i : ℕ) (p : Packet) : Prop where
  key : (s.srFlow i).key = (p.tuple, p.etherTci)
  mergeable : p.Mergeable
  addressed : p.Addressed
  joins : ¬ p.Apart
  follows : ∀ q ∈ (s.srFlow i).srfMp.getLast?, Follows q p
  seq : (s.srFlow i).srfSeq = p.seqEnd
  listed : (s.srFlow i).srfMp ≠ [] → i ∈ s.srSrfp

theorem Next.flow (h : Next s i p) : p.flow = some (s.srFlow i).key :=
  (Packet.flow_eq h.mergeable).trans (congrArg some h.key.symm)

theorem Next.complete (h : Next s i p) : Next (s.qflowComplete i) i p where
  key := by
    rw [qflowComplete_srFlow, Function.update_self, (Flow.emptied_frame _).1]
    exact h.key
  mergeable := h.mergeable
  addressed := h.addressed
  joins := h.joins
  follows := by simp [qflowComplete_srFlow, Flow.emptied_srfMp]
  seq := by
    rw [qflowComplete_srFlow, Function.update_self, (Flow.emptied_frame _).2.2.1]
    exact h.seq
  listed hne := absurd (by simp [qflowComplete_srFlow, Flow.emptied_srfMp]) hne

/-- Joining holds the packet back, and the flow is in the list then. -/
theorem Inv.join (h : Inv env s) (hn : Next s i p)
    (hroom : (s.srFlow i).srfMp ≠ [] → (s.srFlow i).srfLen + p.size < 65536) :
    Inv env (s.join i p) ∧ lanes env (s.join i p) = (lanes env s).keep p.flow p ∧
      ((s.join i p).srFlow i).Linked (s.join i p).srSrfp i := by
  obtain ⟨hkey, htag, hseq, hmp⟩ := Flow.join_frame (s.srFlow i) p
  have hI := h.setFlow hkey htag
    ((h.holds i).join hn.key hn.mergeable hn.addressed hn.joins hn.follows hroom)
  have hheld := h.held_update hkey fun hz =>
    absurd ((congrArg Prod.fst hn.key).symm.trans hz) hn.addressed
  refine ⟨⟨hI.placed, hI.holds, hI.joined⟩, ?_, ?_⟩
  · refine congrArg₂ Lanes.mk ?_ rfl
    change held env (s.setFlow i ((s.srFlow i).join p)) = _
    rw [hheld, hkey, hmp, hn.flow]
    exact congrArg (fun ps => Function.update (held env s) _ (ps ++ [p])) (h.held_key i).symm
  · have hflow : (s.join i p).srFlow i = (s.srFlow i).join p := by simp [Lro.join]
    rw [hflow, Flow.Linked, hmp]
    refine ⟨fun q hq => ?_, fun _ => ?_⟩
    · obtain rfl : q = p := by simpa using hq.symm
      rw [hseq, hn.seq]
    · simp only [Lro.join]
      split_ifs with hnot
      · exact List.mem_append_right _ (List.mem_singleton_self i)
      · by_cases h0 : (s.srFlow i).srfMp = []
        · exact not_not.mp fun hi => hnot ⟨h0, hi⟩
        · exact hn.listed h0

theorem room_le (count : BitVec 32) : room count ≤ 65536 :=
  Nat.pow_le_pow_right (by decide) (Nat.min_le_right _ 16)

/-- Where the segment can be joined it is held, behind what the flow holds or after that has been let out. -/
theorem Inv.qflowJoin (h : Inv env s) (hn : Next s i p) : Inv env (s.qflowJoin mode now i p) ∧
    Lanes.Orderly Packet.flow p (lanes env s) (lanes env (s.qflowJoin mode now i p)) ∧
    Frame i s (s.qflowJoin mode now i p) ∧
    ((s.qflowJoin mode now i p).srFlow i).Linked (s.qflowJoin mode now i p).srSrfp i := by
  set s1 := if (s.srFlow i).srfLen + p.size ≥ room (s.srFlow i).srfCount then s.qflowComplete i else s with hs1
  set s3 := if mode = CoalesceMode.SFXGE_RX_COALESCE_ALLOW_PUSH ∧ p.thFlags &&& TH_PUSH ≠ 0
    then (s1.join i p).qflowComplete i else s1.join i p with hs3
  have hs4 : s.qflowJoin mode now i p = s3.setFlow i { s3.srFlow i with srfLbolt := now } := rfl
  -- before
  obtain ⟨h1, hn1, hroom1, hf1, hl1⟩ : Inv env s1 ∧ Next s1 i p ∧
      ((s1.srFlow i).srfMp ≠ [] → (s1.srFlow i).srfLen + p.size < 65536) ∧ Frame i s s1 ∧
      (lanes env s1 = lanes env s ∨ lanes env s1 = (lanes env s).flush p.flow) := by
    rw [hs1]
    split_ifs with hroom
    · obtain ⟨hI, hl⟩ := h.qflowComplete i
      refine ⟨hI, hn.complete, fun hne => absurd ?_ hne, qflowComplete_frame s i, Or.inr (hn.flow ▸ hl)⟩
      simp [qflowComplete_srFlow, Flow.emptied_srfMp]
    · exact ⟨h, hn, fun _ => (Nat.lt_of_not_le hroom).trans_le (room_le _), ⟨fun _ _ => rfl, List.Subset.refl _, rfl⟩,
        Or.inl rfl⟩
  obtain ⟨h2, hl2, hlink2⟩ := h1.join hn1 hroom1
  -- behind
  obtain ⟨h3, hf3, hlink3, hl3⟩ : Inv env s3 ∧ Frame i (s1.join i p) s3 ∧ (s3.srFlow i).Linked s3.srSrfp i ∧
      (lanes env s3 = lanes env (s1.join i p) ∨ ∃ k, lanes env s3 = (lanes env (s1.join i p)).flush k) := by
    rw [hs3]
    split_ifs
    · obtain ⟨hI, hl⟩ := h2.qflowComplete i
      exact ⟨hI, qflowComplete_frame _ i, Flow.linked_nil (by simp [qflowComplete_srFlow, Flow.emptied_srfMp]),
        Or.inr ⟨_, hl⟩⟩
    · exact ⟨h2, ⟨fun _ _ => rfl, List.Subset.refl _, rfl⟩, hlink2, Or.inl rfl⟩
  obtain ⟨h4, hl4⟩ := h3.setContent { s3.srFlow i with srfLbolt := now } rfl
  rw [hs4]
  refine ⟨h4, ?_, ((hf1.trans (frame_join s1 i p)).trans hf3).trans (frame_setFlow s3 i _), ?_⟩
  · have hkeep : Lanes.Orderly Packet.flow p (lanes env s) (lanes env (s1.join i p)) := by
      rw [hl2]
      rcases hl1 with hl1 | hl1
      · rw [hl1]
        exact .keep
      · rw [hl1]
        exact .before .keep
    rw [hl4]
    rcases hl3 with hl3 | ⟨k, hl3⟩
    · rwa [hl3]
    · rw [hl3]
      exact .after hkeep
  · rw [setFlow_srFlow, Function.update_self]
    exact hlink3

/-- A packet that was to be added to its flow: it stays behind those of the flow, or these have been let out. -/
structure Added (env : Env) (s : Lro) (p : Packet) (r : Lro × Bool) : Prop where
  inv : Inv env r.1
  linked : Linked r.1
  received : r.1.received = s.received
  added : r.2 = true → Lanes.Orderly Packet.flow p (lanes env s) (lanes env r.1)
  left : r.2 = false → lanes env r.1 = (lanes env s).flush p.flow

/-- **`sfxge_rx_qflow_add`** joins the packet to its flow, or lets out what the flow holds. -/
theorem Inv.qflowAdd (h : Inv env s) (hlinked : Linked s) (hkey : Matches (s.srFlow i) p) (hm : p.Mergeable)
    (ha : p.Addressed) : Added env s p (s.qflowAdd env mode now i p) := by
  have hkey' : (s.srFlow i).key = (p.tuple, p.etherTci) := Prod.ext hkey.1 hkey.2
  have hflow : p.flow = some (s.srFlow i).key := (Packet.flow_eq hm).trans (congrArg some hkey'.symm)
  have hleave : ∀ f : Flow, f.content = (s.srFlow i).content → Added env s p (s.leave now i f, false) := by
    intro f hc
    obtain ⟨h1, hl1, hf1, hmp⟩ := h.leave now hc
    exact ⟨h1, hlinked.step hf1 (Flow.linked_nil hmp), hf1.received, fun hb => absurd hb Bool.false_ne_true,
      fun _ => hflow ▸ hl1⟩
  unfold Lro.qflowAdd
  dsimp only
  split_ifs with hrto hseq hapart hslow
  · exact hleave _ rfl
  · exact hleave _ rfl
  · exact hleave _ rfl
  · exact hleave _ rfl
  · set f : Flow := { s.srFlow i with srfCount := (s.srFlow i).srfCount + 1, srfSeq := p.seqEnd }
    obtain ⟨h1, hl1⟩ := h.setContent f rfl
    have hn : Next (s.setFlow i f) i p := by
      refine ⟨?_, hm, ha, hapart, ?_, ?_, ?_⟩ <;> rw [setFlow_srFlow, Function.update_self]
      · exact hkey'
      · exact fun q hq => (not_not.mp hseq).trans ((hlinked i).1 q hq).symm
      · exact (hlinked i).2
    obtain ⟨h2, ho, hf, hlink⟩ := h1.qflowJoin mode now hn
    exact ⟨h2, hlinked.step ((frame_setFlow s i f).trans hf) hlink, hf.received, fun _ => hl1 ▸ ho,
      fun hb => absurd hb.symm Bool.false_ne_true⟩

theorem Inv.reject (h : Inv env s) (p : Packet) : Inv env (s.reject p) := by
  refine ⟨h.placed, h.holds, fun m hm => ?_⟩
  rcases List.mem_append.mp hm with hm | hm
  · exact h.joined m hm
  · exact List.mem_singleton.mp hm ▸ Msg.joined_single p

theorem lanes_reject (s : Lro) (p : Packet) : lanes env (s.reject p) = (lanes env s).pass p := by
  refine congrArg₂ Lanes.mk rfl ?_
  simp [Lro.reject, post, lanes, Msg.single, Msg.packets]

/-- A packet with a flow stays behind those of the flow. -/
theorem Inv.add (h : Inv env s) (hlinked : Linked s) (hkey : Matches (s.srFlow i) p) (hm : p.Mergeable)
    (ha : p.Addressed) : Inv env (s.add env mode now i p) ∧ Linked (s.add env mode now i p) ∧
      (s.add env mode now i p).received = s.received ∧
      Lanes.Orderly Packet.flow p (lanes env s) (lanes env (s.add env mode now i p)) := by
  have hr := h.qflowAdd mode now hlinked hkey hm ha
  unfold Lro.add
  cases hadded : s.qflowAdd env mode now i p with
  | mk s' added =>
    rw [hadded] at hr
    cases added with
    | true => exact ⟨hr.inv, hr.linked, hr.received, hr.added rfl⟩
    | false =>
      refine ⟨hr.inv.reject p, hr.linked, hr.received, ?_⟩
      change Lanes.Orderly Packet.flow p (lanes env s) (lanes env (s'.reject p))
      rw [lanes_reject, hr.left rfl]
      exact .before (.pass (by simp [Lanes.flush]))

/-! ### A round -/

/-- A new flow takes the place of one that holds nothing. -/
theorem Inv.newFlow (h : Inv env s) (hi : bucket env p.tuple = i) (h0 : (s.srFlow i).srfMp = []) :
    Inv env (s.setFlow i (Lro.newFlow env now (s.srFlow i) p)) ∧
      lanes env (s.setFlow i (Lro.newFlow env now (s.srFlow i) p)) = lanes env s := by
  have hmp : (Lro.newFlow env now (s.srFlow i) p).srfMp = [] := h0
  refine ⟨⟨fun j hj => ?_, fun j => ?_, h.joined⟩, congrArg₂ Lanes.mk (funext fun k => ?_) rfl⟩
  · by_cases hji : j = i
    · subst hji
      rw [setFlow_srFlow, Function.update_self]
      exact ⟨rfl, hi⟩
    · rw [setFlow_srFlow, Function.update_of_ne hji] at hj ⊢
      exact h.placed j hj
  · by_cases hji : j = i
    · subst hji
      rw [setFlow_srFlow, Function.update_self]
      exact Flow.holds_nil hmp
    · rw [setFlow_srFlow, Function.update_of_ne hji]
      exact h.holds j
  · cases k with
    | none => rfl
    | some k =>
      rw [held_setFlow, hmp, ite_self]
      split_ifs with hb
      · rw [held, hb, h0, ite_self]
      · rfl

/-- A packet whose flow was looked up: it is there, or nothing of it is held. -/
structure LookedUp (env : Env) (s : Lro) (p : Packet) (r : Lro × Bool) : Prop where
  inv : Inv env r.1
  linked : Linked r.1
  received : r.1.received = s.received
  lanes_eq : lanes env r.1 = lanes env s
  found : r.2 = true → Matches (r.1.srFlow (bucket env p.tuple)) p
  missing : r.2 = false → held env s p.flow = []

theorem Inv.lookup (h : Inv env s) (hlinked : Linked s) (hm : p.Mergeable) (ha : p.Addressed) :
    LookedUp env s p (s.lookup env now p) := by
  have hnone : ¬ Matches (s.srFlow (bucket env p.tuple)) p → held env s p.flow = [] := by
    intro hno
    rw [Packet.flow_eq hm, held, if_neg fun hk => hno ⟨congrArg Prod.fst hk, congrArg Prod.snd hk⟩]
  unfold Lro.lookup
  dsimp only
  split_ifs with htag huse
  · refine ⟨h, hlinked, rfl, rfl, fun hb => absurd hb Bool.false_ne_true, fun _ => hnone fun hk => htag ?_⟩
    rw [(h.placed _ (by rw [hk.1]; exact ha)).1, hk.1]
  · have h0 : (s.srFlow (bucket env p.tuple)).srfMp = [] := not_not.mp fun hne => huse (Or.inr hne)
    obtain ⟨h1, hl1⟩ := h.newFlow now rfl h0
    refine ⟨h1, hlinked.step (frame_setFlow s _ _) (Flow.linked_nil ?_), rfl, hl1, fun _ => ?_,
      fun hb => absurd hb.symm Bool.false_ne_true⟩
    · rw [setFlow_srFlow, Function.update_self]
      exact h0
    · rw [setFlow_srFlow, Function.update_self]
      exact ⟨rfl, rfl⟩
  · exact ⟨h, hlinked, rfl, rfl, of_decide_eq_true, fun hb => hnone (of_decide_eq_false hb)⟩

/-- The packet goes on the chain past what its flow holds. -/
def Overtakes (env : Env) (mode : CoalesceMode) (s : Lro) (p : Packet) : Prop :=
  (mode = CoalesceMode.SFXGE_RX_COALESCE_OFF ∨ ¬ p.Mergeable) ∧ held env s p.flow ≠ []

instance (env : Env) (mode : CoalesceMode) (s : Lro) (p : Packet) : Decidable (Overtakes env mode s p) :=
  inferInstanceAs (Decidable (_ ∧ _))

/-- A packet that has been received: it stays behind those of its flow unless it overtakes what the flow holds. -/
structure Received (env : Env) (mode : CoalesceMode) (s : Lro) (p : Packet) (s' : Lro) : Prop where
  inv : Inv env s'
  linked : Linked s'
  received : s'.received = s.received ++ [p]
  orderly : ¬ Overtakes env mode s p → Lanes.Orderly Packet.flow p (lanes env s) (lanes env s')
  overtakes : Overtakes env mode s p → lanes env s' = (lanes env s).pass p

/-- **One round.** -/
theorem Inv.round (h : Inv env s) (hlinked : Linked s) (srfp : Option ℕ) (ha : p.Mergeable → p.Addressed) :
    Received env mode s p (Lro.round env mode now srfp s p).2 := by
  have hrec : Inv env (s.receive p) := ⟨h.placed, h.holds, h.joined⟩
  have hlin : Linked (s.receive p) := hlinked
  -- on the chain as it is
  have hpass : mode = CoalesceMode.SFXGE_RX_COALESCE_OFF ∨ ¬ p.Mergeable →
      Received env mode s p ((s.receive p).reject p) := by
    intro hby
    have hl : lanes env ((s.receive p).reject p) = _ := lanes_reject (s.receive p) p
    exact ⟨hrec.reject p, hlin, rfl, fun hover => hl ▸ .pass (not_not.mp fun hne => hover ⟨hby, hne⟩), fun _ => hl⟩
  unfold Lro.round
  by_cases hoff : mode = CoalesceMode.SFXGE_RX_COALESCE_OFF
  · rw [if_pos hoff]
    exact hpass (Or.inl hoff)
  rw [if_neg hoff, coalesceOne]
  by_cases hm : p.Mergeable
  swap
  · rw [if_pos hm]
    exact hpass (Or.inr hm)
  have hstays : ¬ Overtakes env mode s p := fun ho => ho.1.elim hoff (absurd hm)
  rw [if_neg (not_not.mpr hm)]
  cases hf : srfp.filter fun i => Matches ((s.receive p).srFlow i) p with
  | some i =>
    have hk : Matches ((s.receive p).srFlow i) p := by simpa using (Option.filter_eq_some_iff.mp hf).2
    obtain ⟨h1, h2, h3, h4⟩ := hrec.add mode now hlin hk hm (ha hm)
    exact ⟨h1, h2, h3, fun _ => h4, fun ho => absurd ho hstays⟩
  | none =>
    have hr := hrec.lookup now hlin hm (ha hm)
    cases hlook : (s.receive p).lookup env now p with
    | mk s1 found =>
      rw [hlook] at hr
      have hl : lanes env s1 = lanes env s := hr.lanes_eq
      cases found with
      | true =>
        obtain ⟨h1, h2, h3, h4⟩ := hr.inv.add mode now hr.linked (hr.found rfl) hm (ha hm)
        rw [hl] at h4
        exact ⟨h1, h2, h3.trans hr.received, fun _ => h4, fun ho => absurd ho hstays⟩
      | false =>
        refine ⟨hr.inv.reject p, hr.linked, hr.received, fun _ => ?_, fun ho => absurd ho hstays⟩
        change Lanes.Orderly Packet.flow p (lanes env s) (lanes env (s1.reject p))
        rw [lanes_reject, hl]
        exact .pass (hr.missing rfl)

end Sfxge.Rx.Coalesce
