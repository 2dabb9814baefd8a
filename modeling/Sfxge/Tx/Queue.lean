import Sfxge.Lib.Chain
import Sfxge.Lib.Run
import Sfxge.Tx.Ring

/-!
# Tx.Queue — a transmit queue and its users

The deferred packet lists of `sfxge_tx.c`, the functions that run under `st_lock`, cut at their accesses
to what other threads write, and the event queue's thread.  A producer that does not get the lock pushes
its packet on the put list in one atomic step, whatever the holder of the lock is at.
-/

namespace Sfxge.Tx

open Errno TxqState Txq Lib

/-- `sfxge_tx_packet_t`, as far as the lists and the fragmentation are concerned. -/
structure Packet where
  stpNext : Option ℕ
  stpMp : Option Mblk
  stpMss : ℕ
  stpDplPutLen : ℕ

/-- A packet structure that has been freed. -/
def Packet.blank : Packet := ⟨none, none, 0, 0⟩

/-- `sfxge_tx_dpl_t` -/
structure Dpl where
  stdPut : Option ℕ
  stdGet : Option ℕ
  stdGetp : Link ℕ
  stdCount : ℕ
  getPktLimit : ℕ
  putPktLimit : ℕ
  getFullCount : ℕ
  putFullCount : ℕ

/-- The caller of `sfxge_tx_qdpl_swizzle`. -/
inductive SwizzleFor where
  /-- `sfxge_tx_qdpl_add` of this packet -/
  | add (stpp : ℕ)
  | service
  | flush
  deriving DecidableEq

/-- The caller of `sfxge_tx_qlist_post`. -/
inductive PostFor where
  | qunblock
  /-- `sfxge_tx_qdpl_drain`, with its locals -/
  | drain (stpp : Option ℕ) (count : ℕ) (pushed : U32)
  deriving DecidableEq

/-- Where the holder of `st_lock` is. -/
inductive Pc where
  | free
  | swizzle (k : SwizzleFor)
  /-- in the loop that reverses the list -/
  | reverse (stpp : ℕ) (p : Option ℕ) (count pp : ℕ) (k : SwizzleFor)
  /-- the reversed list is added to the get list -/
  | splice (p count pp : ℕ) (k : SwizzleFor)
  /-- `sfxge_tx_qdpl_add` adds the packet to the get list -/
  | tail (stpp : ℕ)
  | service
  /-- `sfxge_tx_qdpl_service` checks `st_unblock` -/
  | unblocked
  /-- in the loop of `sfxge_tx_qdpl_drain` -/
  | drain (stpp : Option ℕ) (count : ℕ) (pushed : U32)
  | post (k : PostFor)
  /-- `sfxge_tx_qlist_post` has returned to `sfxge_tx_qdpl_drain` -/
  | posted (stpp : Option ℕ) (count : ℕ) (pushed : U32)
  /-- in the loop of `sfxge_tx_qdpl_flush_locked` -/
  | discard (stpp : Option ℕ) (count : ℕ)
  | exit
  deriving DecidableEq

/-- Where the thread that holds `se_lock` is. -/
inductive EvqPc where
  /-- between events -/
  | poll
  /-- in the first loop of `sfxge_tx_qcomplete` -/
  | completing
  /-- it checks `st_unblock` -/
  | check
  /-- it compares the level -/
  | level
  /-- it waits for `st_lock` -/
  | lock
  /-- it holds `st_lock` -/
  | unblock
  deriving DecidableEq

/-- A queue with its users.  `live` are the packet structures in use; `entered`, `taken` and `sent` are the
packets that have been added to the lists, taken off them, and passed to the descriptor ring, each in
order. -/
structure Sys where
  pkt : ℕ → Packet
  live : List ℕ
  dpl : Dpl
  rs : RingState
  pc : Pc
  evq : EvqPc
  entered : List Mblk
  taken : List Mblk
  sent : List Mblk

namespace Sys

variable (s : Sys)

/-- The `stp_next` fields. -/
def next (p : ℕ) : Option ℕ := (s.pkt p).stpNext

def setPkt (p : ℕ) (x : Packet) : Sys := { s with pkt := Function.update s.pkt p x }

/-- `p->stp_next = v;` -/
def setNext (p : ℕ) (v : Option ℕ) : Sys := s.setPkt p { s.pkt p with stpNext := v }

/-- `*link = v;` -/
def setLink (link : Link ℕ) (v : Option ℕ) : Sys := match link with
  | .head => { s with dpl := { s.dpl with stdGet := v } }
  | .next p => s.setNext p v

/-- The packet that `sfxge_tx_packet_add` has in hand. -/
def packet (mp : Mblk) (mss : ℕ) : Packet := ⟨none, some mp, mss, 0⟩

/-! ### Adding a packet -/

/-- The length of the put list with one more packet. -/
def putLen : ℕ := match s.dpl.stdPut with
  | some old => (s.pkt old).stpDplPutLen + 1
  | none => 1

/-- `sfxge_tx_qdpl_add` without the lock: the packet is pushed on the put list, or destroyed when the list
is full. -/
def qdplAddUnlocked (stpp : ℕ) (mp : Mblk) (mss : ℕ) : Sys :=
  if s.putLen ≥ s.dpl.putPktLimit then
    { s with dpl := { s.dpl with putFullCount := s.dpl.putFullCount + 1 } }
  else
    { s.setPkt stpp { packet mp mss with stpNext := s.dpl.stdPut, stpDplPutLen := s.putLen } with
      live := stpp :: s.live
      dpl := { s.dpl with stdPut := some stpp }
      entered := s.entered ++ [mp] }

/-- `sfxge_tx_packet_add` with the lock, up to the call of `sfxge_tx_qdpl_swizzle`. -/
def packetAddLocked (stpp : ℕ) (mp : Mblk) (mss : ℕ) : Sys :=
  if s.dpl.stdCount ≥ s.dpl.getPktLimit then
    { s with dpl := { s.dpl with getFullCount := s.dpl.getFullCount + 1 } }
  else
    { s.setPkt stpp (packet mp mss) with live := stpp :: s.live, pc := .swizzle (.add stpp) }

/-! ### Swizzling -/

/-- What the caller of `sfxge_tx_qdpl_swizzle` does next. -/
def swizzled : SwizzleFor → Sys
  | .add stpp => { s with pc := .tail stpp }
  | .service => { s with pc := .unblocked }
  | .flush => { s with pc := .discard s.dpl.stdGet s.dpl.stdCount }

/-- The packet being added comes after all those on the put list: it has its place in the order of
additions from here on. -/
def enter : SwizzleFor → Sys
  | .add stpp => { s with entered := s.entered ++ (s.pkt stpp).stpMp.toList }
  | .service => s
  | .flush => s

/-- The check of the get list and the swap of the put list. -/
def swizzle (k : SwizzleFor) : Sys :=
  if s.dpl.stdCount ≥ s.dpl.getPktLimit then (s.enter k).swizzled k
  else match s.dpl.stdPut with
    | none => (s.enter k).swizzled k
    | some stpp =>
      { s.enter k with dpl := { s.dpl with stdPut := none }, pc := .reverse stpp none 0 stpp k }

/-- A round of the loop that reverses the list. -/
def reverse (stpp : ℕ) (p : Option ℕ) (count pp : ℕ) (k : SwizzleFor) : Sys :=
  match s.next stpp with
  | some next => { s.setNext stpp p with pc := .reverse next (some stpp) (count + 1) pp k }
  | none => { s.setNext stpp p with pc := .splice stpp (count + 1) pp k }

/-- The chain from `p` on, of `count` packets with the last link `pp`, is added to the get list. -/
def appendGet (p count pp : ℕ) : Sys :=
  let s' := s.setLink s.dpl.stdGetp (some p)
  { s' with dpl := { s'.dpl with stdGetp := .next pp, stdCount := s.dpl.stdCount + count } }

/-! ### Draining -/

/-- `efx_tx_qpush`, when there is anything to push. -/
def push (pushed : U32) : Sys :=
  if s.rs.stp.stAdded ≠ pushed then
    { s with rs := { s.rs with stp := s.rs.stp.efxTxQpush s.rs.stp.stAdded } }
  else s

/-- The end of `sfxge_tx_qdpl_drain`. -/
def drainEnd (stpp : Option ℕ) (count : ℕ) (pushed : U32) : Sys :=
  let s' := { s with
    dpl := if count = 0 then { s.dpl with stdGet := none, stdCount := 0, stdGetp := .head }
      else { s.dpl with stdGet := stpp, stdCount := count }
    pc := .exit }
  s'.push pushed

/-- The first packet is split off and its structure freed. -/
def split (stpp : ℕ) (mp : Mblk) : Sys :=
  { s.setPkt stpp .blank with live := s.live.erase stpp, taken := s.taken ++ [mp] }

/-- A packet is fragmented, and posted if that succeeds. -/
def drainOne (f : Bool → Bool → Fragments) (stpp count : ℕ) (pushed : U32) : Option Sys :=
  (s.pkt stpp).stpMp.bind fun mp =>
    (ringStep (.packet mp (f (decide ((s.pkt stpp).stpMss ≠ 0)))) s.rs).map fun rs =>
      let s' := { s.split stpp mp with rs := rs }
      if rs.posting = none then { s' with pc := .drain (s.next stpp) (count - 1) pushed }
      else { s' with pc := .post (.drain (s.next stpp) (count - 1) pushed), sent := s.sent ++ [mp] }

/-- `sfxge_tx_qlist_post` has returned. -/
def posted (stpp : Option ℕ) (count : ℕ) (pushed : U32) : Sys :=
  if s.rs.stp.stUnblock ≠ none then s.drainEnd stpp count pushed
  else if (s.rs.stp.stAdded - pushed).toNat ≥ SFXGE_TX_BATCH then
    { s with
      rs := { s.rs with stp := s.rs.stp.efxTxQpush s.rs.stp.stAdded }
      pc := .drain stpp count s.rs.stp.stAdded }
  else { s with pc := .drain stpp count pushed }

/-- A step of `sfxge_tx_qlist_post`. -/
def postOne (k : PostFor) : Option Sys :=
  (ringStep .post s.rs).map fun rs =>
    if rs.posting = none then
      { s with
        rs := rs
        pc := match k with
          | .qunblock => .service
          | .drain stpp count pushed => .posted stpp count pushed }
    else { s with rs := rs }

/-- The end of `sfxge_tx_qdpl_flush_locked`. -/
def flushEnd : Sys :=
  { s with dpl := { s.dpl with stdGet := none, stdCount := 0, stdGetp := .head }, pc := .exit }

/-- A round of the loop of `sfxge_tx_qdpl_flush_locked`. -/
def discardOne (stpp count : ℕ) : Option Sys :=
  (s.pkt stpp).stpMp.bind fun mp =>
    (ringStep (.discard mp) s.rs).map fun rs =>
      { s.split stpp mp with rs := rs, pc := .discard (s.next stpp) (count - 1) }

/-! ### The holder of the lock -/

/-- A step of the thread that holds `st_lock`, where `f lso copy` is the outcome of fragmenting a packet.
It does not go on from a failed assertion. -/
def hold (f : Bool → Bool → Fragments) : Option Sys := match s.pc with
  | .free => none
  | .swizzle k => some (s.swizzle k)
  | .reverse stpp p count pp k => some (s.reverse stpp p count pp k)
  | .splice p count pp k => some ((s.appendGet p count pp).swizzled k)
  | .tail stpp => some { s.appendGet stpp 1 stpp with pc := .service }
  | .service => some { s with pc := if s.dpl.stdPut ≠ none then .swizzle .service else .unblocked }
  | .unblocked => some { s with
      pc := if s.rs.stp.stUnblock = none then .drain s.dpl.stdGet s.dpl.stdCount s.rs.stp.stAdded
        else .exit }
  | .drain stpp count pushed =>
    if count = 0 then some (s.drainEnd stpp count pushed)
    else stpp.bind fun stpp => s.drainOne f stpp count pushed
  | .post k => s.postOne k
  | .posted stpp count pushed => some (s.posted stpp count pushed)
  | .discard stpp count =>
    if count = 0 then some s.flushEnd else stpp.bind fun stpp => s.discardOne stpp count
  | .exit => some { s with pc := .free, evq := if s.evq = .unblock then .poll else s.evq }

/-- `sfxge_tx_qunblock`, once it has the lock. -/
def qunblock : Sys :=
  let s := { s with evq := .unblock }
  if s.rs.stp.stState ≠ SFXGE_TXQ_STARTED then { s with pc := .exit }
  else match ringStep .unblock s.rs with
    | some rs => { s with rs := rs, pc := .post .qunblock }
    | none => { s with pc := .service }

/-! ### The event queue -/

/-- A step of `sfxge_tx_qcomplete`. -/
def qcomplete : Option Sys := match s.evq with
  | .poll => (ringStep .complete s.rs).map fun rs => { s with rs := rs, evq := .completing }
  | .completing => (ringStep .complete s.rs).map fun rs =>
    { s with rs := rs, evq := if rs.completing = none then .check else .completing }
  | .check => some { s with evq := if s.rs.stp.stUnblock = none then .poll else .level }
  | .level => some { s with evq := if s.rs.stp.belowUnblock s.rs.stp.stAdded then .lock else .poll }
  | .lock => none
  | .unblock => none

end Sys

inductive Op where
  /-- a producer adds a packet without the lock -/
  | add (stpp : ℕ) (mp : Mblk) (mss : ℕ)
  /-- a producer adds a packet with the lock -/
  | addLocked (stpp : ℕ) (mp : Mblk) (mss : ℕ)
  /-- a thread gets the lock for `sfxge_tx_qdpl_service` -/
  | service
  /-- a thread gets the lock for `sfxge_tx_qdpl_flush` -/
  | flushList
  /-- the event queue's thread gets the lock for `sfxge_tx_qunblock` -/
  | qunblock
  /-- the queue leaves the state `SFXGE_TXQ_STARTED` -/
  | flush (st : TxqState)
  /-- the holder of the lock goes on -/
  | hold (f : Bool → Bool → Txq.Fragments)
  | evTx (id : U32)
  | qcomplete

/-- A step of one of the threads.  A packet structure that is taken from the pool or created is not in
use. -/
def step (op : Op) (s : Sys) : Option Sys := match op with
  | .add stpp mp mss => if stpp ∈ s.live then none else some (s.qdplAddUnlocked stpp mp mss)
  | .addLocked stpp mp mss =>
    if s.pc ≠ .free ∨ stpp ∈ s.live then none else some (s.packetAddLocked stpp mp mss)
  | .service => if s.pc ≠ .free then none else some { s with pc := .service }
  | .flushList => if s.pc ≠ .free then none else some { s with pc := .swizzle .flush }
  | .qunblock => if s.pc ≠ .free ∨ s.evq ≠ .lock then none else some s.qunblock
  | .flush st =>
    if s.pc ≠ .free then none else (ringStep (.flush st) s.rs).map fun rs => { s with rs := rs }
  | .hold f => s.hold f
  | .evTx id =>
    if s.evq ≠ .poll then none else (ringStep (.evTx id) s.rs).map fun rs => { s with rs := rs }
  | .qcomplete => s.qcomplete

def Step (s s' : Sys) : Prop := ∃ op, step op s = some s'

/-- A queue just started, with no packet. -/
def Sys.started (pkt : ℕ → Packet) (getPktLimit putPktLimit : ℕ) (descIndex : U32) : Sys where
  pkt := pkt
  live := []
  dpl := ⟨none, none, .head, 0, getPktLimit, putPktLimit, 0, 0⟩
  rs := { RingState.init with stp := RingState.init.stp.qstart descIndex }
  pc := .free
  evq := .poll
  entered := []
  taken := []
  sent := []

def Started (s : Sys) : Prop := ∃ pkt get put d, s = .started pkt get put d

end Sfxge.Tx
