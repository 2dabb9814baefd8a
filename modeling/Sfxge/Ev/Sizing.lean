import Mathlib.Algebra.BigOperators.Group.Finset.Basic
import Sfxge.Lib.Run
import Sfxge.Tx.Ring

/-!
# Ev.Sizing — the sizes of the event queues and what is attached to them

What `sfxge_create`, `sfxge_ev_init` and `sfxge_tx_init` make of the ring size and of the number of interrupts, and
the queues that `sfxge_tx_packet_add` chooses.  In a run descriptors are posted, the hardware writes an event for
some of them, and the driver reads it and frees them.
-/

namespace Sfxge.Ev.Sizing

open Lib Tx

def EFX_RXQ_MAXNDESCS : U32 := 4096
def EFX_RXQ_MINNDESCS : U32 := 512
def EFX_EVQ_MAXNEVS : ℕ := 32768
def SFXGE_DEFAULT_RXQ_SIZE : U32 := 1024
def SFXGE_RX_SCALE_MAX : ℕ := 128

/-- `EFX_RXQ_LIMIT` -/
def EFX_RXQ_LIMIT (ndescs : ℕ) : ℕ := ndescs - 16

/-! ### Sizes -/

/-- `ISP2` -/
def ISP2 (x : U32) : Prop := x &&& (x - 1) = 0

instance : DecidablePred ISP2 := fun _ => inferInstanceAs (Decidable (_ = _))

/-- The ring size that `sfxge_create` takes for the property `rxq_size`. -/
def rxqSize (prop : U32) : ℕ :=
  let size := if ISP2 prop then prop else SFXGE_DEFAULT_RXQ_SIZE
  max (min size.toNat EFX_RXQ_MAXNDESCS.toNat) EFX_RXQ_MINNDESCS.toNat

/-- The loop of `pow2_ge`, for at most so many rounds. -/
def pow2GeFrom (n : ℕ) : ℕ → ℕ → ℕ
  | 0, order => 2 ^ order
  | rounds + 1, order => if 2 ^ order < n then pow2GeFrom n rounds (order + 1) else 2 ^ order

/-- `pow2_ge`; a number of 32 bits needs no more than 32 rounds. -/
def pow2Ge (n : ℕ) : ℕ := pow2GeFrom n 32 0

/-- `sfxge_ev_init`: `s_evq0_size` and `s_evqX_size` -/
def evInit (rxqSize : ℕ) : Except Errno (ℕ × ℕ) :=
  let evqXSize := rxqSize + SFXGE_TX_NDESCS
  -- only IP checksum TXQ
  let evq0Size := evqXSize + SFXGE_TX_NDESCS
  -- no checksums
  let evq0Size := evq0Size + SFXGE_TX_NDESCS
  if evq0Size > EFX_EVQ_MAXNEVS then .error .EINVAL else .ok (pow2Ge evq0Size, pow2Ge evqXSize)

/-! ### Transmit queues -/

/-- `sfxge_txq_type_t` -/
inductive TxqType
  | nonCksum
  | ipCksum
  | ipTcpUdpCksum
  deriving Repr, DecidableEq

/-- `s_tx_scale_max` -/
def txScaleMax (nalloc : ℕ) : TxqType → ℕ
  | .nonCksum => max nalloc 1
  | .ipCksum => 1
  | .ipTcpUdpCksum => nalloc

/-- `s_tx_scale_base` -/
def txScaleBase (nalloc : ℕ) : TxqType → ℕ
  | .nonCksum => 0
  | .ipCksum => txScaleMax nalloc .nonCksum
  | .ipTcpUdpCksum => txScaleMax nalloc .nonCksum + txScaleMax nalloc .ipCksum

/-- `s_stp`: the type and the event queue of the transmit queues that `sfxge_tx_init` makes. -/
def stp (nalloc : ℕ) : List (TxqType × ℕ) :=
  [.nonCksum, .ipCksum, .ipTcpUdpCksum].flatMap fun qtype => (List.range (txScaleMax nalloc qtype)).map (qtype, ·)

/-- `sfxge_tx_init`, for the queues -/
def txInit (nalloc : ℕ) : Except Errno (List (TxqType × ℕ)) :=
  if (stp nalloc).length > SFXGE_RX_SCALE_MAX * 3 then .error .EINVAL else .ok (stp nalloc)

/-- An attached adapter. -/
structure Dev where
  nalloc : ℕ
  rxqSize : ℕ
  evq0Size : ℕ
  evqXSize : ℕ
  stp : List (TxqType × ℕ)
  deriving DecidableEq

/-- `prop` is the property `rxq_size`, `nalloc` the number of interrupts. -/
def attach (prop : U32) (nalloc : ℕ) : Except Errno Dev :=
  match evInit (rxqSize prop), txInit nalloc with
  | .error e, _ => .error e
  | _, .error e => .error e
  | .ok (evq0Size, evqXSize), .ok stp => .ok ⟨nalloc, rxqSize prop, evq0Size, evqXSize, stp⟩

/-- A descriptor ring: that of receive queue `index`, or of the transmit queue of a type on an event queue. -/
inductive Queue
  | rx (index : ℕ)
  | tx (qtype : TxqType) (evq : ℕ)
  deriving Repr, DecidableEq

/-- The event queue of a ring. -/
def Queue.evq : Queue → ℕ
  | .rx index => index
  | .tx _ evq => evq

/-- The most descriptors of a ring in use at a time. -/
def Dev.limit (d : Dev) : Queue → ℕ
  | .rx _ => EFX_RXQ_LIMIT d.rxqSize
  | .tx _ _ => EFX_TXQ_LIMIT SFXGE_TX_NDESCS

/-- The size of the event queue `index`. -/
def Dev.evqSize (d : Dev) (index : ℕ) : ℕ := if index ≠ 0 then d.evqXSize else d.evq0Size

/-! ### Runs -/

/-- A ring has `posted` descriptors, of which events for `signalled` have been written, those for `seen` have been
read, and `freed` are free again.  `unread` are the events in an event queue, each with its ring and the number of
descriptors it is for. -/
structure Sys where
  posted : Queue → ℕ
  signalled : Queue → ℕ
  seen : Queue → ℕ
  freed : Queue → ℕ
  unread : ℕ → List (Queue × ℕ)
  srsStarted : Bool
  srsCount : ℕ
  srsTbl : ℕ → ℕ

namespace Sys

variable (s : Sys)

/-- The entry of the RSS table for a packet; `hash` where the packet has headers to take one of. -/
def scaleIndex (hash : Option U32) : ℕ :=
  if s.srsStarted then
    if s.srsCount > 1 then
      match hash with
      | some hash => s.srsTbl (hash.toNat % SFXGE_RX_SCALE_MAX)
      | none => s.srsTbl 0
    else s.srsTbl 0
  else 0

/-- The transmit queue that `sfxge_tx_packet_add` chooses, by the flags of the packet. -/
def packetQueue (d : Dev) (fullCksum ipv4HdrCksum : Bool) (hash : Option U32) : Option Queue :=
  let txq :=
    if fullCksum then txScaleBase d.nalloc .ipTcpUdpCksum + s.scaleIndex hash
    else if ipv4HdrCksum then txScaleBase d.nalloc .ipCksum
    else txScaleBase d.nalloc .nonCksum + s.scaleIndex hash
  d.stp[txq]?.map fun (qtype, evq) => .tx qtype evq

/-- `n` descriptors are posted, unless that is more than the ring may have in use. -/
def post (d : Dev) (n : ℕ) (q : Queue) : Option Sys :=
  if s.posted q + n ≤ s.freed q + d.limit q then
    some { s with posted := Function.update s.posted q (s.posted q + n) }
  else none

/-- The hardware writes an event for the next `k` descriptors of a ring. -/
def signal (q : Queue) (k : ℕ) : Sys :=
  { s with
    signalled := Function.update s.signalled q (s.signalled q + k)
    unread := Function.update s.unread q.evq (s.unread q.evq ++ [(q, k)]) }

/-- The driver reads the first event of the event queue `e`. -/
def read (e : ℕ) (q : Queue) (k : ℕ) (rest : List (Queue × ℕ)) : Sys :=
  { s with
    seen := Function.update s.seen q (s.seen q + k)
    unread := Function.update s.unread e rest }

/-- The adapter has been started; `count` is `srs_count`. -/
def init (count : ℕ) : Sys where
  posted _ := 0
  signalled _ := 0
  seen _ := 0
  freed _ := 0
  unread _ := []
  srsStarted := false
  srsCount := count
  srsTbl _ := 0

end Sys

inductive Op
  | rxPost (index n : ℕ)
  /-- A packet that takes `n` descriptors. -/
  | packet (fullCksum ipv4HdrCksum : Bool) (hash : Option U32) (n : ℕ)
  | signal (q : Queue) (k : ℕ)
  | read (e : ℕ)
  | free (q : Queue) (n : ℕ)
  /-- `sfxge_rx_scale_start`, `sfxge_rx_scale_count_set`, `sfxge_rx_scale_update` with the event queues it chooses,
  and `sfxge_rx_scale_stop` -/
  | scaleStart
  | scaleCountSet (count : ℕ)
  | scaleUpdate (tbl : List ℕ)
  | scaleStop
  /-- The adapter is stopped and started. -/
  | restart

/-- A step, `none` where it is not possible. -/
def step (d : Dev) : Op → Sys → Option Sys
  | .rxPost index n, s => if index < d.nalloc then s.post d n (.rx index) else none
  | .packet fullCksum ipv4HdrCksum hash n, s => (s.packetQueue d fullCksum ipv4HdrCksum hash).bind (s.post d n)
  | .signal q k, s => if 0 < k ∧ s.signalled q + k ≤ s.posted q then some (s.signal q k) else none
  | .read e, s => match s.unread e with
    | [] => none
    | (q, k) :: rest => some (s.read e q k rest)
  | .free q n, s =>
    if s.freed q + n ≤ s.seen q then some { s with freed := Function.update s.freed q (s.freed q + n) } else none
  | .scaleStart, s =>
    if s.srsStarted = false then some { s with srsStarted := true, srsTbl := fun _ => 0 } else none
  | .scaleCountSet count, s =>
    if 1 ≤ count ∧ count ≤ d.nalloc then some { s with srsCount := count } else none
  | .scaleUpdate tbl, s =>
    if s.srsStarted = true ∧ tbl.length = s.srsCount ∧ ∀ index ∈ tbl, index < d.nalloc then
      some { s with srsTbl := fun entry => tbl.getD (entry % s.srsCount) 0 }
    else none
  | .scaleStop, s =>
    if s.srsStarted = true then some { s with srsStarted := false, srsTbl := fun _ => 0 } else none
  | .restart, s => some (.init s.srsCount)

/-- No event queue holds as many events as it has slots. -/
def Fits (d : Dev) (s : Sys) : Prop := ∀ e < d.nalloc, (s.unread e).length < d.evqSize e

instance (d : Dev) : DecidablePred (Fits d) := fun _ => inferInstanceAs (Decidable (∀ e < d.nalloc, _))

/-- `srs_count` as `sfxge_rx_scale_init` sets it; `prop` is the property. -/
def scaleInit (nalloc prop : ℕ) : ℕ := max (min prop nalloc) 1

end Sfxge.Ev.Sizing
