import Mathlib.Order.Interval.Finset.Nat
import Sfxge.Lib.SeqLock
import Sfxge.Efx

/-!
# Mac.Stats — the statistics that the controller writes into host memory

`ef10_mac_stats_update` and `siena_mac_stats_update` read `GENERATION_END`, then the statistics one by one, then
`GENERATION_START`, and take the statistics when the two agree.  Every word has 64 bits, and `EFSYS_MEM_READQ`
reads it as two words of 32 bits.
-/

namespace Sfxge.Mac

open Lib.SeqLock

/-- `efx_mac_stat_t` -/
inductive EfxMacStat
  | rxOctets | rxPkts | rxUnicstPkts | rxMulticstPkts | rxBrdcstPkts | rxPausePkts | rxLe64Pkts
  | rx65To127Pkts | rx128To255Pkts | rx256To511Pkts | rx512To1023Pkts | rx1024To15xxPkts | rxGe15xxPkts
  | rxErrors | rxFcsErrors | rxDropEvents | rxFalseCarrierErrors | rxSymbolErrors | rxAlignErrors
  | rxInternalErrors | rxJabberPkts | rxLane0CharErr | rxLane1CharErr | rxLane2CharErr | rxLane3CharErr
  | rxLane0DispErr | rxLane1DispErr | rxLane2DispErr | rxLane3DispErr | rxMatchFault | rxNodescDropCnt
  | txOctets | txPkts | txUnicstPkts | txMulticstPkts | txBrdcstPkts | txPausePkts | txLe64Pkts
  | tx65To127Pkts | tx128To255Pkts | tx256To511Pkts | tx512To1023Pkts | tx1024To15xxPkts | txGe15xxPkts
  | txErrors | txSglColPkts | txMultColPkts | txExColPkts | txLateColPkts | txDefPkts | txExDefPkts
  | pmTruncBbOverflow | pmDiscardBbOverflow | pmTruncVfifoFull | pmDiscardVfifoFull | pmTruncQbb
  | pmDiscardQbb | pmDiscardMapping | rxdpQDisabledPkts | rxdpDiDroppedPkts | rxdpStreamingPkts
  | rxdpHlbFetch | rxdpHlbWait | vadapterRxUnicastPackets | vadapterRxUnicastBytes
  | vadapterRxMulticastPackets | vadapterRxMulticastBytes | vadapterRxBroadcastPackets
  | vadapterRxBroadcastBytes | vadapterRxBadPackets | vadapterRxBadBytes | vadapterRxOverflow
  | vadapterTxUnicastPackets | vadapterTxUnicastBytes | vadapterTxMulticastPackets | vadapterTxMulticastBytes
  | vadapterTxBroadcastPackets | vadapterTxBroadcastBytes | vadapterTxBadPackets | vadapterTxBadBytes
  | vadapterTxOverflow
  deriving Repr, DecidableEq

/-! The words of the statistics in the DMA buffer, `MC_CMD_MAC_*`. -/

namespace McMac

def generationStart : ℕ := 0x0
def txPkts : ℕ := 0x1
def txPausePkts : ℕ := 0x2
def txControlPkts : ℕ := 0x3
def txUnicastPkts : ℕ := 0x4
def txMulticastPkts : ℕ := 0x5
def txBroadcastPkts : ℕ := 0x6
def txBytes : ℕ := 0x7
def txLt64Pkts : ℕ := 0x9
def tx64Pkts : ℕ := 0xa
def tx65To127Pkts : ℕ := 0xb
def tx128To255Pkts : ℕ := 0xc
def tx256To511Pkts : ℕ := 0xd
def tx512To1023Pkts : ℕ := 0xe
def tx1024To15xxPkts : ℕ := 0xf
def tx15xxToJumboPkts : ℕ := 0x10
def txGtjumboPkts : ℕ := 0x11
def txBadFcsPkts : ℕ := 0x12
def txSingleCollisionPkts : ℕ := 0x13
def txMultipleCollisionPkts : ℕ := 0x14
def txExcessiveCollisionPkts : ℕ := 0x15
def txLateCollisionPkts : ℕ := 0x16
def txDeferredPkts : ℕ := 0x17
def txExcessiveDeferredPkts : ℕ := 0x18
def rxPkts : ℕ := 0x1c
def rxPausePkts : ℕ := 0x1d
def rxUnicastPkts : ℕ := 0x20
def rxMulticastPkts : ℕ := 0x21
def rxBroadcastPkts : ℕ := 0x22
def rxBytes : ℕ := 0x23
def rx64Pkts : ℕ := 0x25
def rx65To127Pkts : ℕ := 0x26
def rx128To255Pkts : ℕ := 0x27
def rx256To511Pkts : ℕ := 0x28
def rx512To1023Pkts : ℕ := 0x29
def rx1024To15xxPkts : ℕ := 0x2a
def rx15xxToJumboPkts : ℕ := 0x2b
def rxGtjumboPkts : ℕ := 0x2c
def rxUndersizePkts : ℕ := 0x2d
def rxBadFcsPkts : ℕ := 0x2e
def rxOverflowPkts : ℕ := 0x2f
def rxFalseCarrierPkts : ℕ := 0x30
def rxSymbolErrorPkts : ℕ := 0x31
def rxAlignErrorPkts : ℕ := 0x32
def rxInternalErrorPkts : ℕ := 0x34
def rxJabberPkts : ℕ := 0x35
def rxNodescDrops : ℕ := 0x36
def rxLanes01CharErr : ℕ := 0x37
def rxLanes23CharErr : ℕ := 0x38
def rxLanes01DispErr : ℕ := 0x39
def rxLanes23DispErr : ℕ := 0x3a
def rxMatchFault : ℕ := 0x3b
def pmTruncBbOverflow : ℕ := 0x3c
def pmDiscardBbOverflow : ℕ := 0x3d
def pmTruncVfifoFull : ℕ := 0x3e
def pmDiscardVfifoFull : ℕ := 0x3f
def pmTruncQbb : ℕ := 0x40
def pmDiscardQbb : ℕ := 0x41
def pmDiscardMapping : ℕ := 0x42
def rxdpQDisabledPkts : ℕ := 0x43
def rxdpDiDroppedPkts : ℕ := 0x45
def rxdpStreamingPkts : ℕ := 0x46
def rxdpHlbFetchConditions : ℕ := 0x47
def rxdpHlbWaitConditions : ℕ := 0x48
def vadapterRxUnicastPackets : ℕ := 0x4c
def vadapterRxUnicastBytes : ℕ := 0x4d
def vadapterRxMulticastPackets : ℕ := 0x4e
def vadapterRxMulticastBytes : ℕ := 0x4f
def vadapterRxBroadcastPackets : ℕ := 0x50
def vadapterRxBroadcastBytes : ℕ := 0x51
def vadapterRxBadPackets : ℕ := 0x52
def vadapterRxBadBytes : ℕ := 0x53
def vadapterRxOverflow : ℕ := 0x54
def vadapterTxUnicastPackets : ℕ := 0x57
def vadapterTxUnicastBytes : ℕ := 0x58
def vadapterTxMulticastPackets : ℕ := 0x59
def vadapterTxMulticastBytes : ℕ := 0x5a
def vadapterTxBroadcastPackets : ℕ := 0x5b
def vadapterTxBroadcastBytes : ℕ := 0x5c
def vadapterTxBadPackets : ℕ := 0x5d
def vadapterTxBadBytes : ℕ := 0x5e
def vadapterTxOverflow : ℕ := 0x5f
def generationEnd : ℕ := 0x60

end McMac

/-- What becomes of a word that has been read: `EFSYS_STAT_SET_QWORD`, `EFSYS_STAT_INCR_QWORD`,
`EFSYS_STAT_SUBR_QWORD`, or `EFSYS_STAT_SET_DWORD` for each half. -/
inductive StatStore
  | setQword (s : EfxMacStat)
  | incrQword (s : EfxMacStat)
  | subrQword (s : EfxMacStat)
  | setDwords (s0 s1 : EfxMacStat)
  deriving Repr, DecidableEq

/-- `EF10_MAC_STAT_READ` and `SIENA_MAC_STAT_READ` of a word, and what becomes of it. -/
structure MacStatRead where
  field : ℕ
  store : StatStore
  deriving Repr, DecidableEq

/-- `eq_dword[i]` -/
def eqDword (i : ℕ) (q : BitVec 64) : BitVec 32 := q.extractLsb' (32 * i) 32

namespace StatStore

/-- The statistics after a word `q` has been stored. -/
def apply (q : BitVec 64) (stat : EfxMacStat → BitVec 64) : StatStore → EfxMacStat → BitVec 64
  | setQword s => Function.update stat s q
  | incrQword s => Function.update stat s (stat s + q)
  | subrQword s => Function.update stat s (stat s - q)
  | setDwords s0 s1 =>
    Function.update (Function.update stat s0 ((eqDword 0 q).setWidth 64)) s1 ((eqDword 1 q).setWidth 64)

/-- The statistics that it stores. -/
def targets : StatStore → List EfxMacStat
  | setQword s | incrQword s | subrQword s => [s]
  | setDwords s0 s1 => [s0, s1]

/-- The statistics that it takes further. -/
def sources : StatStore → List EfxMacStat
  | incrQword s | subrQword s => [s]
  | setQword _ | setDwords _ _ => []

end StatStore

/-- The reads under `TX`; the two functions differ in what they do with the frames of 64 bytes. -/
def txReads (tx64 : EfxMacStat → StatStore) : List MacStatRead := [
  ⟨McMac.txPkts, .setQword .txPkts⟩,
  ⟨McMac.txControlPkts, .subrQword .txPkts⟩,
  ⟨McMac.txPausePkts, .setQword .txPausePkts⟩,
  ⟨McMac.txUnicastPkts, .setQword .txUnicstPkts⟩,
  ⟨McMac.txMulticastPkts, .setQword .txMulticstPkts⟩,
  ⟨McMac.txBroadcastPkts, .setQword .txBrdcstPkts⟩,
  ⟨McMac.txBytes, .setQword .txOctets⟩,
  ⟨McMac.txLt64Pkts, .setQword .txLe64Pkts⟩,
  ⟨McMac.tx64Pkts, tx64 .txLe64Pkts⟩,
  ⟨McMac.tx65To127Pkts, .setQword .tx65To127Pkts⟩,
  ⟨McMac.tx128To255Pkts, .setQword .tx128To255Pkts⟩,
  ⟨McMac.tx256To511Pkts, .setQword .tx256To511Pkts⟩,
  ⟨McMac.tx512To1023Pkts, .setQword .tx512To1023Pkts⟩,
  ⟨McMac.tx1024To15xxPkts, .setQword .tx1024To15xxPkts⟩,
  ⟨McMac.tx15xxToJumboPkts, .setQword .txGe15xxPkts⟩,
  ⟨McMac.txGtjumboPkts, .incrQword .txGe15xxPkts⟩,
  ⟨McMac.txBadFcsPkts, .setQword .txErrors⟩,
  ⟨McMac.txSingleCollisionPkts, .setQword .txSglColPkts⟩,
  ⟨McMac.txMultipleCollisionPkts, .setQword .txMultColPkts⟩,
  ⟨McMac.txExcessiveCollisionPkts, .setQword .txExColPkts⟩,
  ⟨McMac.txLateCollisionPkts, .setQword .txLateColPkts⟩,
  ⟨McMac.txDeferredPkts, .setQword .txDefPkts⟩,
  ⟨McMac.txExcessiveDeferredPkts, .setQword .txExDefPkts⟩]

/-- The reads under `RX`. -/
def rxReads : List MacStatRead := [
  ⟨McMac.rxBytes, .setQword .rxOctets⟩,
  ⟨McMac.rxPkts, .setQword .rxPkts⟩,
  ⟨McMac.rxUnicastPkts, .setQword .rxUnicstPkts⟩,
  ⟨McMac.rxMulticastPkts, .setQword .rxMulticstPkts⟩,
  ⟨McMac.rxBroadcastPkts, .setQword .rxBrdcstPkts⟩,
  ⟨McMac.rxPausePkts, .setQword .rxPausePkts⟩,
  ⟨McMac.rxUndersizePkts, .setQword .rxLe64Pkts⟩,
  ⟨McMac.rx64Pkts, .incrQword .rxLe64Pkts⟩,
  ⟨McMac.rx65To127Pkts, .setQword .rx65To127Pkts⟩,
  ⟨McMac.rx128To255Pkts, .setQword .rx128To255Pkts⟩,
  ⟨McMac.rx256To511Pkts, .setQword .rx256To511Pkts⟩,
  ⟨McMac.rx512To1023Pkts, .setQword .rx512To1023Pkts⟩,
  ⟨McMac.rx1024To15xxPkts, .setQword .rx1024To15xxPkts⟩,
  ⟨McMac.rx15xxToJumboPkts, .setQword .rxGe15xxPkts⟩,
  ⟨McMac.rxGtjumboPkts, .incrQword .rxGe15xxPkts⟩,
  ⟨McMac.rxBadFcsPkts, .setQword .rxFcsErrors⟩,
  ⟨McMac.rxOverflowPkts, .setQword .rxDropEvents⟩,
  ⟨McMac.rxFalseCarrierPkts, .setQword .rxFalseCarrierErrors⟩,
  ⟨McMac.rxSymbolErrorPkts, .setQword .rxSymbolErrors⟩,
  ⟨McMac.rxAlignErrorPkts, .setQword .rxAlignErrors⟩,
  ⟨McMac.rxInternalErrorPkts, .setQword .rxInternalErrors⟩,
  ⟨McMac.rxJabberPkts, .setQword .rxJabberPkts⟩,
  ⟨McMac.rxLanes01CharErr, .setDwords .rxLane0CharErr .rxLane1CharErr⟩,
  ⟨McMac.rxLanes23CharErr, .setDwords .rxLane2CharErr .rxLane3CharErr⟩,
  ⟨McMac.rxLanes01DispErr, .setDwords .rxLane0DispErr .rxLane1DispErr⟩,
  ⟨McMac.rxLanes23DispErr, .setDwords .rxLane2DispErr .rxLane3DispErr⟩,
  ⟨McMac.rxMatchFault, .setQword .rxMatchFault⟩,
  ⟨McMac.rxNodescDrops, .setQword .rxNodescDropCnt⟩]

/-- The reads under `Packet memory`. -/
def pmReads : List MacStatRead := [
  ⟨McMac.pmTruncBbOverflow, .setQword .pmTruncBbOverflow⟩,
  ⟨McMac.pmDiscardBbOverflow, .setQword .pmDiscardBbOverflow⟩,
  ⟨McMac.pmTruncVfifoFull, .setQword .pmTruncVfifoFull⟩,
  ⟨McMac.pmDiscardVfifoFull, .setQword .pmDiscardVfifoFull⟩,
  ⟨McMac.pmTruncQbb, .setQword .pmTruncQbb⟩,
  ⟨McMac.pmDiscardQbb, .setQword .pmDiscardQbb⟩,
  ⟨McMac.pmDiscardMapping, .setQword .pmDiscardMapping⟩]

/-- The reads under `RX datapath`. -/
def rxdpReads : List MacStatRead := [
  ⟨McMac.rxdpQDisabledPkts, .setQword .rxdpQDisabledPkts⟩,
  ⟨McMac.rxdpDiDroppedPkts, .setQword .rxdpDiDroppedPkts⟩,
  ⟨McMac.rxdpStreamingPkts, .setQword .rxdpStreamingPkts⟩,
  ⟨McMac.rxdpHlbFetchConditions, .setQword .rxdpHlbFetch⟩,
  ⟨McMac.rxdpHlbWaitConditions, .setQword .rxdpHlbWait⟩]

/-- The reads under `VADAPTER RX` and `VADAPTER TX`. -/
def vadapterReads : List MacStatRead := [
  ⟨McMac.vadapterRxUnicastPackets, .setQword .vadapterRxUnicastPackets⟩,
  ⟨McMac.vadapterRxUnicastBytes, .setQword .vadapterRxUnicastBytes⟩,
  ⟨McMac.vadapterRxMulticastPackets, .setQword .vadapterRxMulticastPackets⟩,
  ⟨McMac.vadapterRxMulticastBytes, .setQword .vadapterRxMulticastBytes⟩,
  ⟨McMac.vadapterRxBroadcastPackets, .setQword .vadapterRxBroadcastPackets⟩,
  ⟨McMac.vadapterRxBroadcastBytes, .setQword .vadapterRxBroadcastBytes⟩,
  ⟨McMac.vadapterRxBadPackets, .setQword .vadapterRxBadPackets⟩,
  ⟨McMac.vadapterRxBadBytes, .setQword .vadapterRxBadBytes⟩,
  ⟨McMac.vadapterRxOverflow, .setQword .vadapterRxOverflow⟩,
  ⟨McMac.vadapterTxUnicastPackets, .setQword .vadapterTxUnicastPackets⟩,
  ⟨McMac.vadapterTxUnicastBytes, .setQword .vadapterTxUnicastBytes⟩,
  ⟨McMac.vadapterTxMulticastPackets, .setQword .vadapterTxMulticastPackets⟩,
  ⟨McMac.vadapterTxMulticastBytes, .setQword .vadapterTxMulticastBytes⟩,
  ⟨McMac.vadapterTxBroadcastPackets, .setQword .vadapterTxBroadcastPackets⟩,
  ⟨McMac.vadapterTxBroadcastBytes, .setQword .vadapterTxBroadcastBytes⟩,
  ⟨McMac.vadapterTxBadPackets, .setQword .vadapterTxBadPackets⟩,
  ⟨McMac.vadapterTxBadBytes, .setQword .vadapterTxBadBytes⟩,
  ⟨McMac.vadapterTxOverflow, .setQword .vadapterTxOverflow⟩]

/-- The reads of `siena_mac_stats_update`. -/
def sienaReads : List MacStatRead := txReads .incrQword ++ rxReads

/-- The reads of `ef10_mac_stats_update`; its `TX_64_PKTS` is set where the other adds it. -/
def ef10Reads : List MacStatRead := txReads .setQword ++ rxReads ++ pmReads ++ rxdpReads ++ vadapterReads

/-- `EFSYS_MEM_READQ`: two reads of 32 bits, the low half first. -/
def memReadq (field : ℕ) : Reading ℕ (BitVec 64) (BitVec 64) := do
  let lo ← look field (eqDword 0)
  let hi ← look field (eqDword 1)
  return hi ++ lo

/-- One read of a statistic, and its store. -/
def statRead (stat : EfxMacStat → BitVec 64) (r : MacStatRead) :
    Reading ℕ (BitVec 64) (EfxMacStat → BitVec 64) := do
  let value ← memReadq r.field
  return r.store.apply value stat

/-- What an update leaves: its return code, the statistics, and `*generationp` where there is one. -/
structure Updated where
  rc : Option Errno
  stat : EfxMacStat → BitVec 64
  generation : Option (BitVec 32)

/-- The body of both functions. -/
def macStatsUpdate (reads : List MacStatRead) (stat : EfxMacStat → BitVec 64) (generation : Option (BitVec 32)) :
    Reading ℕ (BitVec 64) Updated := do
  let generationEnd ← memReadq McMac.generationEnd
  let stat ← reads.foldlM statRead stat
  let generationStart ← memReadq McMac.generationStart
  -- check that we didn't read the stats in the middle of a DMA
  if generationStart ≠ generationEnd then
    return ⟨some .EAGAIN, stat, generation⟩
  return ⟨none, stat, generation.map fun _ => eqDword 0 generationStart⟩

def sienaMacStatsUpdate := macStatsUpdate sienaReads

def ef10MacStatsUpdate := macStatsUpdate ef10Reads

/-- The controllers. -/
inductive Family
  | siena
  | ef10
  deriving Repr, DecidableEq

def Family.reads : Family → List MacStatRead
  | .siena => sienaReads
  | .ef10 => ef10Reads

/-- `emo_stats_update` -/
def Family.macStatsUpdate : Family → (EfxMacStat → BitVec 64) → Option (BitVec 32) →
    Reading ℕ (BitVec 64) Updated
  | .siena => sienaMacStatsUpdate
  | .ef10 => ef10MacStatsUpdate

/-- The buffer as the controller writes it: generation numbers of 64 bits in front of the statistics and behind
them. -/
def statsLayout : Layout ℕ (BitVec 64) where
  start := McMac.generationStart
  finish := McMac.generationEnd
  body := Finset.Ioo McMac.generationStart McMac.generationEnd
  number := BitVec.ofNat 64
  top := 2 ^ 64
  start_ne := by decide
  start_notMem := by simp
  finish_notMem := by simp

end Sfxge.Mac
