import Sfxge.Lib.Counter
import Sfxge.Oword

/-!
# Rx.Queue — a receive queue and its free packet pool

The ring of packets of `sfxge_rxq_t`, its free packet pool `sfxge_rx_fpp_t` and the receive events of its
event queue, as `sfxge_rx.c` and `sfxge_ev.c` handle them under `se_lock`.  The network stack frees packets
at any time; a put list is emptied once in a swizzle, so that a free during one comes before it or after
it.  The use of a ring slot without a packet is `none`.
-/

namespace Sfxge.Rx

open Lib

abbrev U16 := BitVec 16

def SFXGE_REFILL_BATCH : ℕ := 64
def SFXGE_RX_BATCH : U32 := 128
def EFX_RXQ_LIMIT (ndescs : ℕ) : ℕ := ndescs - 16

def EFX_PKT_VLAN_TAGGED : U16 := 0x0010
def EFX_PKT_IPV4 : U16 := 0x0800
def EFX_PKT_IPV6 : U16 := 0x1000
def EFX_PKT_PREFIX_LEN : U16 := 0x2000
def EFX_ADDR_MISMATCH : U16 := 0x4000
def EFX_DISCARD : U16 := 0x8000

/-- One of `SFXGE_RX_FPP_NSLOTS` put lists, and the CPUs that use it: `cpu_seqid & SFXGE_RX_FPP_MASK`. -/
abbrev Cpu := Fin 8

/-- There is a first of them. -/
instance someCpu : NeZero 8 := ⟨by decide⟩

/-- `sfxge_rxq_state_t` -/
inductive RxqState where
  | SFXGE_RXQ_UNINITIALIZED
  | SFXGE_RXQ_INITIALIZED
  | SFXGE_RXQ_STARTED
  deriving Repr, DecidableEq

open RxqState

/-- A packet, named by the order of its creation. -/
abbrev Pkt := ℕ

/-- The fields of `sfxge_rx_packet_t` that decide what becomes of a packet. -/
structure Packet where
  srpMblksize : ℕ
  srpRecycle : Bool
  srpFlags : U16
  srpSize : U16
  deriving Repr, DecidableEq

/-- What a packet's data says: the length in its pseudo header, and whether it is a loopback frame. -/
structure Seen where
  length : U16
  loopback : Bool
  deriving Repr, DecidableEq

/-- `s_rx_buffer_size - s_rx_buffer_align`, `s_rx_prefix_size` and `s_mtu` -/
structure Port where
  mblksize : ℕ
  prefixSize : ℕ
  mtu : ℕ
  deriving Repr, DecidableEq

/-- The ring has `2 ^ logSize` slots; `wptrAlign` is the alignment of the write pointer that the hardware
is given. -/
structure Config where
  logSize : ℕ
  five_le : 5 ≤ logSize
  le_31 : logSize ≤ 31
  wptrAlign : U32
  encRxBatchingEnabled : Bool
  encRxBatchMax : U32
  seEvBatch : U32

/-- What surroundings do in a call: the CPU it runs on, what packets hold, the first message of the chain
that coalescing leaves (`none` when there is none), which packets get a new message block when they are
freed, how many packets can be created, and what the stack frees on which CPU once the chain has been passed
up. -/
structure Io where
  cpu : Cpu
  see : Pkt → Seen
  first : Option (List Pkt)
  recycled : Pkt → Bool
  creates : ℕ
  meanwhile : List (Cpu × Pkt)

/-- `sfxge_rxq_t` with its `sfxge_rx_fpp_t` and the receive part of its `sfxge_evq_t`.  `stopping` tells that
`sfxge_rx_qstop` is waiting for the flush.  `stack` are the packets that have been taken off the ring and not
been freed, whether they are held for coalescing or by the stack; `posted` are all packets ever posted, in
order, and `marks` what receive events have written to packets.  `preallocated` counts the packets created
for the pool and `lost` those that were freed on loan and not recycled; `asserts` tells whether
`srfpp_loaned >= count` has held in every round of a swizzle. -/
structure Rxq where
  srState : RxqState
  stopping : Bool
  srSrpp : ℕ → Option Pkt
  srAdded : U32
  srPushed : U32
  srPending : U32
  srCompleted : U32
  srLowat : U32
  srHiwat : U32
  srfppGet : List Pkt
  srfppCount : U32
  srfppMin : U32
  srfppLowat : U32
  srfppLoaned : U32
  srfplPutp : Cpu → List Pkt
  srfplCount : Cpu → U32
  seException : Bool
  seRx : U32
  port : Port
  packet : Pkt → Packet
  created : ℕ
  stack : List Pkt
  posted : List Pkt
  marks : List (Pkt × U16 × U16)
  preallocated : ℕ
  lost : ℕ
  asserts : Bool

namespace Config

def size (cfg : Config) : ℕ := 2 ^ cfg.logSize

def mask (cfg : Config) : U32 := BitVec.ofNat 32 (2 ^ cfg.logSize - 1)

/-- `i & (sp->s_rxq_size - 1)` -/
def slot (cfg : Config) (i : U32) : ℕ := (i &&& cfg.mask).toNat

def limit (cfg : Config) : U32 := BitVec.ofNat 32 (EFX_RXQ_LIMIT cfg.size)

end Config

namespace Rxq

/-- A queue that `sfxge_rx_qctor` has constructed, up to its preallocation. -/
def construct : Rxq where
  srState := SFXGE_RXQ_UNINITIALIZED
  stopping := false
  srSrpp _ := none
  srAdded := 0
  srPushed := 0
  srPending := 0
  srCompleted := 0
  srLowat := 0
  srHiwat := 0
  srfppGet := []
  srfppCount := 0
  srfppMin := 0
  srfppLowat := 0
  srfppLoaned := 0
  srfplPutp _ := []
  srfplCount _ := 0
  seException := false
  seRx := 0
  port := ⟨0, 0, 0⟩
  packet _ := ⟨0, false, 0, 0⟩
  created := 0
  stack := []
  posted := []
  marks := []
  preallocated := 0
  lost := 0
  asserts := true

def setPacket (p : Pkt) (f : Packet → Packet) (srp : Rxq) : Rxq :=
  { srp with packet := Function.update srp.packet p (f (srp.packet p)) }

/-! ### The free packet pool -/

/-- `sfxge_rx_qfpp_put` -/
def qfppPut (cpu : Cpu) (p : Pkt) (srp : Rxq) : Rxq :=
  { srp with
    srfplPutp := Function.update srp.srfplPutp cpu (srp.srfplPutp cpu ++ [p])
    srfplCount := Function.update srp.srfplCount cpu (srp.srfplCount cpu + 1) }

/-- `sfxge_rx_qpacket_free`, of a packet on loan; a packet that is not recycled is destroyed. -/
def qpacketFree (cpu : Cpu) (recycled : Bool) (p : Pkt) (srp : Rxq) : Rxq :=
  if (srp.packet p).srpRecycle ∧ recycled then srp.qfppPut cpu p
  else { srp with lost := srp.lost + 1 }

/-- A round of the loop of `sfxge_rx_qfpp_swizzle`. -/
def swizzleOne (id : Cpu) (srp : Rxq) : Rxq :=
  let p := srp.srfplPutp id
  let count := srp.srfplCount id
  let srp := { srp with
    srfplPutp := Function.update srp.srfplPutp id []
    srfplCount := Function.update srp.srfplCount id 0 }
  if p = [] then srp
  else { srp with
    srfppGet := p ++ srp.srfppGet
    asserts := srp.asserts && decide (count ≤ srp.srfppLoaned)
    srfppLoaned := srp.srfppLoaned - count
    srfppCount := srp.srfppCount + count }

/-- The put lists in the order of a swizzle, that of the current CPU last. -/
def swizzleOrder (cpu : Cpu) : List Cpu :=
  (List.finRange 8).map fun i => cpu + 1 + i

/-- `sfxge_rx_qfpp_swizzle` -/
def qfppSwizzle (cpu : Cpu) (srp : Rxq) : Rxq :=
  (swizzleOrder cpu).foldl (fun srp id => srp.swizzleOne id) srp

/-! ### Refilling -/

/-- The packet is put in the slot after the `batch` packets that wait to be posted. -/
def postPacket (cfg : Config) (batch : ℕ) (p : Pkt) (srp : Rxq) : Rxq :=
  { srp.setPacket p fun srpp =>
      { srpp with
        srpFlags := EFX_DISCARD
        srpSize := 0 } with
    srSrpp := Function.update srp.srSrpp (cfg.slot (srp.srAdded + BitVec.ofNat 32 batch)) (some p)
    posted := srp.posted ++ [p] }

/-- `efx_rx_qpost` of a batch, and what is added to `sr_added`. -/
def qpost (batch : ℕ) (srp : Rxq) : Rxq := { srp with srAdded := srp.srAdded + BitVec.ofNat 32 batch }

/-- A packet joins the batch, which is posted when it is full. -/
def addPacket (cfg : Config) (batch : ℕ) (p : Pkt) (srp : Rxq) : Rxq × ℕ :=
  if batch + 1 = SFXGE_REFILL_BATCH then ((srp.postPacket cfg batch p).qpost (batch + 1), 0)
  else (srp.postPacket cfg batch p, batch + 1)

/-- `efx_rx_qpush` -/
def qpush (cfg : Config) (srp : Rxq) : Rxq := { srp with srPushed := srp.srAdded &&& -cfg.wptrAlign }

/-- The descriptors that a refill is to add. -/
def ntodo (cfg : Config) (target : U32) (srp : Rxq) : ℕ :=
  let rxfill := srp.srAdded - srp.srCompleted
  (if cfg.limit - rxfill < target then cfg.limit - rxfill else target).toInt.toNat

/-- The loop of `sfxge_rx_qrefill`. -/
def refillLoop (cfg : Config) : ℕ → ℕ → Rxq → Rxq
  | 0, batch, srp => srp.qpost batch
  | ntodo + 1, batch, srp =>
    match srp.srfppGet with
    | [] => srp.qpost batch
    | p :: rest =>
      let srp := { srp with
        srfppGet := rest
        srfppCount := srp.srfppCount - 1 }
      -- the MTU may have changed since the packet was allocated: it is destroyed
      if (srp.packet p).srpMblksize ≠ srp.port.mblksize then refillLoop cfg ntodo batch srp
      else refillLoop cfg ntodo (srp.addPacket cfg batch p).2 (srp.addPacket cfg batch p).1

/-- `sfxge_rx_qrefill` -/
def qrefill (cfg : Config) (io : Io) (target : U32) (srp : Rxq) : Rxq :=
  if srp.srState ≠ SFXGE_RXQ_STARTED then srp
  else
    let srp :=
      if srp.ntodo cfg target = 0 then srp
      else (refillLoop cfg (srp.ntodo cfg target) 0 (srp.qfppSwizzle io.cpu)).qpush cfg
    if srp.srfppCount < srp.srfppMin then { srp with srfppMin := srp.srfppCount } else srp

/-- `sfxge_rx_qpacket_create`, where it succeeds. -/
def qpacketCreate (srp : Rxq) : Pkt × Rxq :=
  (srp.created, { srp with
    packet := Function.update srp.packet srp.created ⟨srp.port.mblksize, true, 0, 0⟩
    created := srp.created + 1 })

/-- The loop of `sfxge_rx_qfill`. -/
def fillLoop (cfg : Config) : ℕ → ℕ → ℕ → Rxq → Rxq
  | ntodo + 1, creates + 1, batch, srp =>
    let r := srp.qpacketCreate.2.addPacket cfg batch srp.qpacketCreate.1
    fillLoop cfg ntodo creates r.2 r.1
  | _, _, batch, srp => srp.qpost batch

/-- `sfxge_rx_qfill` -/
def qfill (cfg : Config) (io : Io) (target : U32) (srp : Rxq) : Rxq :=
  if srp.srState ≠ SFXGE_RXQ_STARTED then srp
  else if srp.ntodo cfg target = 0 then srp
  else (fillLoop cfg (srp.ntodo cfg target) io.creates 0 srp).qpush cfg

/-- The loop of `sfxge_rx_qpreallocate`. -/
def preallocateLoop (cpu : Cpu) : ℕ → Rxq → Rxq
  | 0, srp => srp
  | n + 1, srp =>
    let srp := srp.qpacketCreate.2.qfppPut cpu srp.qpacketCreate.1
    preallocateLoop cpu n { srp with preallocated := srp.preallocated + 1 }

/-- `sfxge_rx_qpreallocate` -/
def qpreallocate (io : Io) (nprealloc : U32) (srp : Rxq) : Rxq :=
  preallocateLoop io.cpu (min nprealloc.toInt.toNat io.creates) { srp with srfppLowat := nprealloc }

/-- The rest of the get list is freed, with `srp_recycle` cleared. -/
def freeRest (rest : List Pkt) (srp : Rxq) : Rxq :=
  { srp with
    srfppMin := srp.srfppMin - BitVec.ofNat 32 rest.length
    srfppCount := srp.srfppCount - BitVec.ofNat 32 rest.length }

/-- `sfxge_rx_qfpp_trim` -/
def qfppTrim (cfg : Config) (io : Io) (srp : Rxq) : Option Rxq :=
  let done (srp : Rxq) : Rxq := { srp with srfppMin := srp.srfppCount }
  if srp.srState ≠ SFXGE_RXQ_STARTED then some (done srp)
  else
    let srp := srp.qrefill cfg io cfg.limit
    if srp.srfppMin = 0 then some (done srp)
    else if srp.srfppCount ≤ srp.srfppLowat then some (done srp)
    else
      let count := if srp.srfppLowat > srp.srfppMin then srp.srfppCount - srp.srfppLowat
        else srp.srfppCount - srp.srfppMin
      let keep := count.toInt.toNat
      -- the walk of the get list
      if srp.srfppGet.length < keep then none
      else some (done ({ srp with srfppGet := srp.srfppGet.take keep }.freeRest (srp.srfppGet.drop keep)))

/-! ### Completion -/

/-- What `sfxge_rx_qcomplete` makes of a packet: `true` when it is passed up, with its size. -/
def receive (srp : Rxq) (srpp : Packet) (seen : Seen) : Bool × U16 :=
  if srp.srState ≠ SFXGE_RXQ_STARTED then (false, srpp.srpSize)
  else if srpp.srpFlags &&& (EFX_ADDR_MISMATCH ||| EFX_DISCARD) ≠ 0 then (false, srpp.srpSize)
  else
    let size :=
      if srpp.srpFlags &&& EFX_PKT_PREFIX_LEN ≠ 0 then seen.length + BitVec.ofNat 16 srp.port.prefixSize
      else srpp.srpSize
    let limit := srp.port.mtu + if srpp.srpFlags &&& EFX_PKT_VLAN_TAGGED ≠ 0 then 18 else 14
    -- a size below that of the prefix makes a length beyond any limit
    if size.toNat < srp.port.prefixSize ∨ size.toNat - srp.port.prefixSize > limit then (false, size)
    else if srpp.srpFlags &&& EFX_PKT_IPV4 = 0 ∧ srpp.srpFlags &&& EFX_PKT_IPV6 = 0 ∧ seen.loopback then
      (false, size)
    else (true, size)

/-- A round of the loop of `sfxge_rx_qcomplete`; `completed` is its local. -/
def completeOne (cfg : Config) (io : Io) (completed : U32) (srp : Rxq) : Option Rxq :=
  let id := cfg.slot completed
  let left := srp.srPending - (completed + 1)
  -- the prefetch reads the packet four slots on
  if 4 ≤ left.toNat ∧ srp.srSrpp (cfg.slot (BitVec.ofNat 32 (id + 4))) = none then none
  else match srp.srSrpp id with
    | none => none
    | some p =>
      let r := srp.receive (srp.packet p) (io.see p)
      let srp := { srp.setPacket p (fun srpp => { srpp with srpSize := r.2 }) with
        srSrpp := Function.update srp.srSrpp id none
        srfppLoaned := srp.srfppLoaned + 1 }
      some (if r.1 then { srp with stack := srp.stack ++ [p] } else srp.qpacketFree io.cpu (io.recycled p) p)

/-- The loop of `sfxge_rx_qcomplete`, for `n` more packets. -/
def completeLoop (cfg : Config) (io : Io) : ℕ → U32 → Rxq → Option Rxq
  | 0, completed, srp => some { srp with srCompleted := completed }
  | n + 1, completed, srp => (srp.completeOne cfg io completed).bind (completeLoop cfg io n (completed + 1))

/-- The stack frees a packet that it holds. -/
def stackFree (cpu : Cpu) (recycled : Bool) (p : Pkt) (srp : Rxq) : Rxq :=
  if p ∈ srp.stack then { srp with stack := srp.stack.erase p }.qpacketFree cpu recycled p else srp

/-- `freemsg` of the first message of the chain. -/
def freemsg (io : Io) (ps : List Pkt) (srp : Rxq) : Rxq :=
  ps.foldl (fun srp p => srp.stackFree io.cpu (io.recycled p) p) srp

/-- The stack frees packets one after the other. -/
def stackFrees (io : Io) (fs : List (Cpu × Pkt)) (srp : Rxq) : Rxq :=
  fs.foldl (fun srp f => srp.stackFree f.1 (io.recycled f.2) f.2) srp

/-- `sr_pushed - sr_completed` -/
def level (srp : Rxq) : U32 := srp.srPushed - srp.srCompleted

/-- The chain is passed up; with an empty ring, its first message is freed instead. -/
def passUp (cfg : Config) (io : Io) (srp : Rxq) : Rxq :=
  match io.first with
  | none => srp
  | some ps =>
    if srp.level = 0 then
      let srp := srp.qrefill cfg io cfg.limit
      if srp.level = 0 then srp.freemsg io ps else srp
    else srp

/-- The queue is topped up if necessary. -/
def topUp (cfg : Config) (io : Io) (level : U32) (srp : Rxq) : Rxq :=
  if level < srp.srHiwat then
    let srp := srp.qrefill cfg io cfg.limit
    if srp.srAdded - srp.srCompleted < srp.srLowat then srp.qfill cfg io cfg.limit else srp
  else srp

/-- `sfxge_rx_qcomplete` -/
def qcomplete (cfg : Config) (io : Io) (srp : Rxq) : Option Rxq :=
  (completeLoop cfg io (srp.srPending - srp.srCompleted).toNat srp.srCompleted srp).map fun srp =>
    let srp := (srp.passUp cfg io).stackFrees io io.meanwhile
    srp.topUp cfg io srp.level

/-- `sfxge_ev_qcomplete`, the receive part -/
def evQcomplete (cfg : Config) (io : Io) (srp : Rxq) : Option Rxq :=
  if srp.srPending ≠ srp.srCompleted then srp.qcomplete cfg io else some srp

/-! ### Receive events -/

/-- The distance from `sr_pending` to the descriptor after `id`. -/
def delta (cfg : Config) (id : U32) (srp : Rxq) : U32 :=
  let stop := (id + 1) &&& cfg.mask
  let id := srp.srPending &&& cfg.mask
  if stop ≥ id then stop - id else BitVec.ofNat 32 cfg.size - id + stop

/-- The distance is one that the hardware does not make. -/
def outOfOrder (cfg : Config) (delta : U32) : Prop :=
  delta ≠ 1 ∧ (cfg.encRxBatchingEnabled = false ∨ delta ≤ 0 ∨ delta > cfg.encRxBatchMax)

instance (cfg : Config) (delta : U32) : Decidable (outOfOrder cfg delta) :=
  inferInstanceAs (Decidable (_ ∧ _))

/-- The event's flags and size are written to the packets in the slots. -/
def markSlots (flags size : U16) : List ℕ → Rxq → Option Rxq
  | [], srp => some srp
  | i :: is, srp =>
    match srp.srSrpp i with
    | none => none
    | some p =>
      markSlots flags size is
        { srp.setPacket p fun srpp =>
            { srpp with
              srpFlags := flags
              srpSize := size } with
          marks := srp.marks ++ [(p, flags, size)] }

/-- The slots from `id` up to `stop`. -/
def slotsTo (cfg : Config) (id stop : U32) : List ℕ :=
  (List.range (cfg.slot (stop - id))).map fun i => cfg.slot (id + BitVec.ofNat 32 i)

/-- `sfxge_ev_rx` -/
def evRx (cfg : Config) (io : Io) (id : U32) (size flags : U16) (srp : Rxq) : Option Rxq :=
  if srp.seException ∨ srp.srState ≠ SFXGE_RXQ_STARTED then some srp
  else
    let d := srp.delta cfg id
    let slots := slotsTo cfg (srp.srPending &&& cfg.mask) ((id + 1) &&& cfg.mask)
    let srp := { srp with srPending := srp.srPending + d }
    if outOfOrder cfg d then some { srp with seException := true }
    else (markSlots flags size slots srp).bind fun srp =>
      let srp := { srp with seRx := srp.seRx + 1 }
      if srp.srPending - srp.srCompleted ≥ SFXGE_RX_BATCH then srp.evQcomplete cfg io else some srp

/-- What `sfxge_ev_rx` returns after it: whether the poll is to stop. -/
def evRxAborts (cfg : Config) (srp : Rxq) : Bool := srp.seRx ≥ cfg.seEvBatch

/-- `sfxge_ev_qpoll`, after its events -/
def evPolled (cfg : Config) (io : Io) (srp : Rxq) : Option Rxq :=
  ({ srp with seRx := 0 } : Rxq).evQcomplete cfg io

/-! ### Starting and stopping -/

/-- `sfxge_rx_qstart` of a queue that has been stopped; the event queue has been restarted before it. -/
def qstart (cfg : Config) (io : Io) (port : Port) (srp : Rxq) : Rxq :=
  if srp.srState = SFXGE_RXQ_INITIALIZED ∧ srp.stopping = false then
    let hiwat := cfg.limit * 9 / 10
    let srp : Rxq := { srp with
      srHiwat := hiwat
      srLowat := hiwat / 2
      srState := SFXGE_RXQ_STARTED
      port := port
      seException := false
      seRx := 0 }
    let srp := srp.qrefill cfg io cfg.limit
    if srp.srAdded - srp.srCompleted < SFXGE_RX_BATCH then srp.qfill cfg io SFXGE_RX_BATCH else srp
  else srp

/-- `sfxge_rx_qstop`, up to its wait for the flush -/
def qstop (srp : Rxq) : Rxq :=
  if srp.srState = SFXGE_RXQ_STARTED then
    { srp with
      srState := SFXGE_RXQ_INITIALIZED
      stopping := true }
  else srp

/-- `sfxge_rx_qstop`, after it -/
def qdrain (cfg : Config) (io : Io) (srp : Rxq) : Option Rxq :=
  if srp.stopping then
    (qcomplete cfg io { srp with srPending := srp.srAdded }).map fun srp =>
      { srp with
        srAdded := 0
        srPushed := 0
        srPending := 0
        srCompleted := 0
        srLowat := 0
        srHiwat := 0
        stopping := false }
  else some srp

/-- `sfxge_rx_qinit` of a queue that has been constructed -/
def qinit (srp : Rxq) : Rxq :=
  if srp.srState = SFXGE_RXQ_UNINITIALIZED then { srp with srState := SFXGE_RXQ_INITIALIZED } else srp

/-- `sfxge_rx_qfini` with its `sfxge_rx_qfpp_empty` -/
def qfini (io : Io) (srp : Rxq) : Rxq :=
  if srp.srState = SFXGE_RXQ_INITIALIZED ∧ srp.stopping = false then
    let srp := srp.qfppSwizzle io.cpu
    { srp with
      srState := SFXGE_RXQ_UNINITIALIZED
      srfppGet := []
      srfppCount := srp.srfppCount - BitVec.ofNat 32 srp.srfppGet.length
      srfppMin := 0 }
  else srp

/-! ### Runs -/

inductive Op where
  | preallocate (io : Io) (nprealloc : U32)
  | qinit
  | qstart (io : Io) (port : Port)
  | evRx (io : Io) (id : U32) (size flags : U16)
  | evPolled (io : Io)
  | trim (io : Io)
  | stackFree (cpu : Cpu) (recycled : Bool) (p : Pkt)
  | qstop
  | qdrain (io : Io)
  | qfini (io : Io)

/-- An operation on the queue; one that is out of its place does nothing. -/
def step (cfg : Config) : Op → Rxq → Option Rxq
  | .preallocate io nprealloc, srp =>
    if srp.srState = SFXGE_RXQ_UNINITIALIZED then some (srp.qpreallocate io nprealloc) else some srp
  | .qinit, srp => some srp.qinit
  | .qstart io port, srp => some (srp.qstart cfg io port)
  | .evRx io id size flags, srp => srp.evRx cfg io id size flags
  | .evPolled io, srp => srp.evPolled cfg io
  | .trim io, srp => srp.qfppTrim cfg io
  | .stackFree cpu recycled p, srp => some (srp.stackFree cpu recycled p)
  | .qstop, srp => some srp.qstop
  | .qdrain io, srp => srp.qdrain cfg io
  | .qfini io, srp => some (srp.qfini io)

end Rxq

end Sfxge.Rx
