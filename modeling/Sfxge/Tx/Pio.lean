import Sfxge.Lib.Run
import Sfxge.Oword
import Sfxge.Efx

/-!
# Tx.Pio — PIO buffers and their blocks

The buffers that `ef10_nic_init` allocates within the driver limits, the blocks into which `ef10_nic_pio_alloc` divides
them, and the queues that hold one.  How the MCDI commands end is a parameter.
-/

namespace Sfxge.Tx.Pio

open Lib Prog

abbrev U64 := BitVec 64

/-! ### The limits -/

def ER_DZ_TX_PIOBUF_OFST : ℕ := 0x1000
def ER_DZ_TX_PIOBUF_STEP : ℕ := 8192

/-- `EF10_MAX_PIOBUF_NBUFS` -/
def ef10MaxPiobufNbufs : ℕ := 16

def EFX_PIOBUF_HANDLE_INVALID : U32 := -1

/-- What `efx_nic_cfg_t` says of the resources of a board: there are arrays for all the buffers, the least block is one
part in 32, and a buffer is inside the page of its VI. -/
structure NicCfg where
  encEvqLimit : ℕ
  encRxqLimit : ℕ
  encTxqLimit : ℕ
  encPiobufLimit : ℕ
  encPiobufSize : ℕ
  encPiobufMinAllocSize : ℕ
  limit_le : encPiobufLimit ≤ ef10MaxPiobufNbufs
  size_eq : encPiobufSize = 32 * encPiobufMinAllocSize
  size_le : ER_DZ_TX_PIOBUF_OFST + encPiobufSize ≤ ER_DZ_TX_PIOBUF_STEP

/-- `hunt_board_cfg` -/
def huntBoardCfg : NicCfg := ⟨1024, 512, 259, 16, 2048, 2048 / 32, by decide, by decide, by decide⟩

/-- `medford_board_cfg` -/
def medfordBoardCfg : NicCfg := ⟨1024, 512, 259, 16, 4096, 4096 / 32, by decide, by decide, by decide⟩

/-- `efx_drv_limits_t` -/
structure DrvLimits where
  edlMinEvqCount : ℕ
  edlMaxEvqCount : ℕ
  edlMinRxqCount : ℕ
  edlMaxRxqCount : ℕ
  edlMinTxqCount : ℕ
  edlMaxTxqCount : ℕ
  edlMinPioAllocSize : ℕ
  edlMaxPioAllocCount : ℕ

/-- `efx_drv_cfg_t` -/
structure DrvCfg where
  edcMinViCount : ℕ
  edcMaxViCount : ℕ
  edcMaxPiobufCount : ℕ
  edcPioAllocSize : ℕ

/-- `ef10_nic_set_drv_limits` -/
def ef10NicSetDrvLimits (encp : NicCfg) : Option DrvLimits → Except Errno DrvCfg
  | none => .error .EINVAL
  | some edlp =>
    let minEvqCount := min edlp.edlMinEvqCount encp.encEvqLimit
    let minRxqCount := min edlp.edlMinRxqCount encp.encRxqLimit
    let minTxqCount := min edlp.edlMinTxqCount encp.encTxqLimit
    let maxEvqCount := min edlp.edlMaxEvqCount encp.encEvqLimit
    let maxRxqCount := min edlp.edlMaxRxqCount encp.encRxqLimit
    let maxTxqCount := min edlp.edlMaxTxqCount encp.encTxqLimit
    let minViCount := max minEvqCount (max minRxqCount minTxqCount)
    let maxViCount := max maxEvqCount (max maxRxqCount maxTxqCount)
    if encp.encPiobufSize = 0 ∨ encp.encPiobufLimit = 0 ∨ edlp.edlMinPioAllocSize = 0 ∨
        edlp.edlMinPioAllocSize > encp.encPiobufSize then
      -- PIO is disabled
      .ok ⟨minViCount, maxViCount, 0, 0⟩
    else
      let blkSize := max edlp.edlMinPioAllocSize encp.encPiobufMinAllocSize
      let blksPerPiobuf := encp.encPiobufSize / blkSize
      let blkCount := encp.encPiobufLimit * blksPerPiobuf
      let blkCount := if edlp.edlMaxPioAllocCount > 0 ∧ edlp.edlMaxPioAllocCount < blkCount then
        edlp.edlMaxPioAllocCount else blkCount
      .ok ⟨minViCount, maxViCount, (blkCount + (blksPerPiobuf - 1)) / blksPerPiobuf, blkSize⟩

/-! ### The NIC -/

/-- What `efx_nic_t` says of the buffers, the VIs and the memory mappings. -/
structure Nic where
  encp : NicCfg
  edcp : DrvCfg
  piobufCount : ℕ
  piobufHandle : ℕ → U32
  pioAllocMap : ℕ → U32
  viBase : ℕ
  viCount : ℕ
  viShift : ℕ
  pioWriteViBase : ℕ
  ucMemMapOffset : ℕ
  ucMemMapSize : ℕ
  wcMemMapOffset : ℕ
  wcMemMapSize : ℕ

/-- `ef10_nic_free_piobufs` -/
def ef10NicFreePiobufs (enp : Nic) : Nic :=
  { enp with
    piobufHandle := fun i => if i < enp.piobufCount then EFX_PIOBUF_HANDLE_INVALID else enp.piobufHandle i
    piobufCount := 0 }

/-- The loop of `ef10_nic_alloc_piobufs`, `n` buffers before its end; `alloc` says how the command ends for a buffer. -/
def allocPiobufsLoop (alloc : ℕ → Except Errno U32) : ℕ → ℕ → Nic → Nic
  | _, 0, enp => enp
  | i, n + 1, enp =>
    match alloc i with
    | .error _ => ef10NicFreePiobufs enp
    | .ok handle => allocPiobufsLoop alloc (i + 1) n
      { enp with
        piobufHandle := Function.update enp.piobufHandle i handle
        pioAllocMap := Function.update enp.pioAllocMap i 0
        piobufCount := enp.piobufCount + 1 }

/-- `ef10_nic_alloc_piobufs` -/
def ef10NicAllocPiobufs (alloc : ℕ → Except Errno U32) (maxPiobufCount : ℕ) (enp : Nic) : Nic :=
  allocPiobufsLoop alloc 0 maxPiobufCount { enp with piobufCount := 0 }

/-- The VIs that `MC_CMD_ALLOC_VIS` grants. -/
structure Vis where
  viBase : ℕ
  viCount : ℕ
  viShift : ℕ

/-- How the commands of `ef10_nic_init` end; `vadaptor` is for the loop of retries. -/
structure InitOutcome where
  logCtrl : Option Errno
  allocPiobuf : ℕ → Except Errno U32
  freeVis : Option Errno
  allocVis : ℕ → ℕ → Except Errno Vis
  vadaptor : Option Errno

/-- The memory mappings: that of the VIs, and behind it one for the writes to the buffers. -/
def saveMemMaps (enp : Nic) (vis : Vis) : Nic :=
  let enp := { enp with viBase := vis.viBase, viCount := vis.viCount, viShift := vis.viShift }
  let enp := if vis.viCount < enp.edcp.edcMinViCount + enp.piobufCount then ef10NicFreePiobufs enp else enp
  let enp := { enp with pioWriteViBase := vis.viCount - enp.piobufCount, ucMemMapOffset := 0 }
  let enp := { enp with
    ucMemMapSize := ER_DZ_TX_PIOBUF_STEP * (if enp.piobufCount > 0 then enp.pioWriteViBase else enp.viCount) % 2 ^ 32 }
  { enp with
    wcMemMapOffset := (enp.ucMemMapOffset + enp.ucMemMapSize) % 2 ^ 32
    wcMemMapSize := ER_DZ_TX_PIOBUF_STEP * enp.piobufCount }

/-- `ef10_nic_init`; whether the buffers can be linked to the VIs of their mapping is not looked at. -/
def ef10NicInit (out : InitOutcome) (enp : Nic) : Nic × Option Errno :=
  match out.logCtrl with
  | some rc => (enp, some rc)
  | none =>
    let enp := ef10NicAllocPiobufs out.allocPiobuf enp.edcp.edcMaxPiobufCount enp
    match out.freeVis with
    | some rc => (ef10NicFreePiobufs enp, some rc)
    | none =>
      match out.allocVis enp.edcp.edcMinViCount (enp.edcp.edcMaxViCount + enp.piobufCount) with
      | .error rc => (ef10NicFreePiobufs enp, some rc)
      | .ok vis =>
        if vis.viCount < enp.edcp.edcMinViCount then (ef10NicFreePiobufs enp, some .ENOMEM)
        else
          let enp := saveMemMaps enp vis
          match out.vadaptor with
          | some rc => (ef10NicFreePiobufs enp, some rc)
          | none => (enp, none)

/-! ### Blocks -/

/-- What `ef10_nic_pio_alloc` returns. -/
structure PioBlock where
  bufnum : ℕ
  handle : U32
  blknum : ℕ
  offset : ℕ
  size : ℕ

/-- The loop over the blocks of a buffer, from `blk` on for `n` of them. -/
def findBlk (map : U32) : ℕ → ℕ → Option ℕ
  | _, 0 => none
  | blk, n + 1 => if map &&& (1 : U32) <<< blk = 0 then some blk else findBlk map (blk + 1) n

/-- The loop over the buffers, from `buf` on for `n` of them. -/
def findBuf (map : ℕ → U32) (blkPerBuf : ℕ) : ℕ → ℕ → Option (ℕ × ℕ)
  | _, 0 => none
  | buf, n + 1 =>
    if ~~~map buf = 0 then findBuf map blkPerBuf (buf + 1) n
    else
      match findBlk (map buf) 0 blkPerBuf with
      | some blk => some (buf, blk)
      | none => findBuf map blkPerBuf (buf + 1) n

/-- `blk_per_buf` -/
def Nic.blkPerBuf (enp : Nic) : ℕ := enp.encp.encPiobufSize / enp.edcp.edcPioAllocSize

/-- `ef10_nic_pio_alloc` -/
def ef10NicPioAlloc (enp : Nic) : Except Errno (Nic × PioBlock) :=
  if enp.edcp.edcPioAllocSize = 0 ∨ enp.piobufCount = 0 then .error .ENOMEM
  else
    match findBuf enp.pioAllocMap enp.blkPerBuf 0 enp.piobufCount with
    | none => .error .ENOMEM
    | some (buf, blk) => .ok
      ({ enp with pioAllocMap := Function.update enp.pioAllocMap buf (enp.pioAllocMap buf ||| (1 : U32) <<< blk) },
        ⟨buf, enp.piobufHandle buf, blk, blk * enp.edcp.edcPioAllocSize, enp.edcp.edcPioAllocSize⟩)

/-- `ef10_nic_pio_free` -/
def ef10NicPioFree (enp : Nic) (bufnum blknum : ℕ) : Except Errno Nic :=
  if bufnum ≥ enp.piobufCount ∨ blknum ≥ 8 * 4 then .error .EINVAL
  else if enp.pioAllocMap bufnum &&& (1 : U32) <<< blknum = 0 then .error .ENOENT
  else .ok { enp with
    pioAllocMap := Function.update enp.pioAllocMap bufnum (enp.pioAllocMap bufnum &&& ~~~((1 : U32) <<< blknum)) }

/-- A call of which the result is not looked at. -/
def pioFreed (enp : Nic) (bufnum blknum : ℕ) : Nic :=
  match ef10NicPioFree enp bufnum blknum with
  | .ok enp => enp
  | .error _ => enp

/-! ### Queues -/

/-- What `efx_txq_t` says of the block that the queue holds. -/
structure Txq where
  pioBufnum : ℕ
  pioBlknum : ℕ
  pioWriteOffset : ℕ
  pioOffset : ℕ
  pioSize : ℕ

/-- A queue that `efx_tx_qcreate` has allocated. -/
def Txq.created : Txq := ⟨0, 0, 0, 0, 0⟩

/-- `ef10_tx_qpio_enable`; `link` says how `MC_CMD_LINK_PIOBUF` ends for a handle. -/
def ef10TxQpioEnable (link : U32 → Option Errno) (enp : Nic) (etp : Txq) : Nic × Txq × Option Errno :=
  if etp.pioSize ≠ 0 then (enp, etp, some .EALREADY)
  else
    match ef10NicPioAlloc enp with
    | .error rc => (enp, etp, some rc)
    | .ok (enp, b) =>
      let etp := { etp with pioBufnum := b.bufnum, pioBlknum := b.blknum, pioOffset := b.offset, pioSize := b.size }
      match link b.handle with
      | some rc => (pioFreed enp etp.pioBufnum etp.pioBlknum, { etp with pioSize := 0 }, some rc)
      | none =>
        (enp, { etp with pioWriteOffset :=
          etp.pioBufnum * ER_DZ_TX_PIOBUF_STEP + ER_DZ_TX_PIOBUF_OFST + etp.pioOffset }, none)

/-- `ef10_tx_qpio_disable`; how `MC_CMD_UNLINK_PIOBUF` ends is not looked at. -/
def ef10TxQpioDisable (enp : Nic) (etp : Txq) : Nic × Txq :=
  if etp.pioSize ≠ 0 then
    (pioFreed enp etp.pioBufnum etp.pioBlknum, { etp with pioSize := 0, pioWriteOffset := 0 })
  else (enp, etp)

/-- A request to write, of a length that the function asserts. -/
structure WriteReq where
  buffer : ℕ → Qword
  length : U64
  offset : U64
  dvd : 8 ∣ length.toNat

/-- A round of the loop of `ef10_tx_qpio_write`, with the place in the buffer and `write_offset`; what is written where
in the write-combined mapping is recorded. -/
def writeRound (buffer : ℕ → Qword) (writeOffsetLimit : ℕ) :
    ℕ × ℕ → Prog (List (ℕ × Qword)) Errno (Unit ⊕ (ℕ × ℕ)) := fun (eqp, writeOffset) written =>
  if writeOffset < writeOffsetLimit then
    .ret (.inr (eqp + 1, (writeOffset + 8) % 2 ^ 32)) (written ++ [(writeOffset, buffer eqp)])
  else .ret (.inl ()) written

/-- `ef10_tx_qpio_write` -/
def ef10TxQpioWrite (etp : Txq) (req : WriteReq) : Prog (List (ℕ × Qword)) Errno Unit := do
  ensure (etp.pioSize ≠ 0) .ENOENT
  ensure (¬ (req.offset + req.length).toNat > etp.pioSize) .ENOSPC
  let writeOffset := (etp.pioWriteOffset + req.offset.toNat) % 2 ^ 32
  let writeOffsetLimit := (writeOffset + req.length.toNat) % 2 ^ 32
  iterate (writeRound req.buffer writeOffsetLimit) (2 ^ 32) (0, writeOffset)

/-! ### The system -/

/-- The NIC and its queues, and what the last call has written and returned. -/
structure Sys where
  enp : Nic
  txq : ℕ → Txq
  written : List (ℕ × Qword)
  rc : Option Errno

/-- A call for a queue. -/
inductive Op
  | enable (index : ℕ) (link : U32 → Option Errno)
  | disable (index : ℕ) (unlink : Option Errno)
  | write (index : ℕ) (req : WriteReq)

def step : Op → Sys → Option Sys
  | .enable index link, s =>
    let (enp, etp, rc) := ef10TxQpioEnable link s.enp (s.txq index)
    some ⟨enp, Function.update s.txq index etp, [], rc⟩
  | .disable index _, s =>
    let (enp, etp) := ef10TxQpioDisable s.enp (s.txq index)
    some ⟨enp, Function.update s.txq index etp, [], none⟩
  | .write index req, s =>
    match ef10TxQpioWrite (s.txq index) req [] with
    | .ret _ written => some { s with written, rc := none }
    | .err rc written => some { s with written, rc := some rc }
    | .fault | .spin => none

/-- The NIC when the board has been probed, with the driver limits. -/
def Nic.probed (encp : NicCfg) (edcp : DrvCfg) : Nic :=
  ⟨encp, edcp, 0, fun _ => 0, fun _ => 0, 0, 0, 0, 0, 0, 0, 0, 0⟩

/-- The system when the NIC has been initialised. -/
def Sys.start (enp : Nic) : Sys := ⟨enp, fun _ => .created, [], none⟩

end Sfxge.Tx.Pio
