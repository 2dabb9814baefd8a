import Sfxge.Lib.Extent
import Sfxge.Lib.Memory
import Sfxge.Tx.Ring

/-!
# Tx.Fragment — how a packet becomes a fragment list

`sfxge_tx_qpacket_fragment`, `sfxge_tx_qlso_fragment` and what they use, with the blocks of the message, the
buffers and mappings of the queue and the memory that the device reads.  A block of the message is pointed to by
its number, and the number after the last is `NULL`; the entries of `st_eb` in use are a list.  A chain of buffers
or mappings is a list, its head first.  Assertions, prefetches and the cache synchronisation are not built in.
-/

namespace Sfxge.Tx.Frag

open Lib Lib.Prog Errno

def SFXGE_TX_BUFFER_SIZE : ℕ := 0x400
def SFXGE_TX_COPY_THRESHOLD : ℕ := 0x200
def SFXGE_TX_MAPPING_NADDR : ℕ := 18
def SFXGE_TX_DESCSIZE : ℕ := 4096
def LONG_MAX : ℕ := 2 ^ 63 - 1

/-! ### The state -/

/-- `mblk_t`: its data up to `b_wptr`, and where in it `b_rptr` is. -/
structure Mblk where
  data : Bytes
  bRptr : ℕ
  deriving DecidableEq

/-- `MBLKL` -/
def Mblk.mblkl (mp : Mblk) : ℕ := mp.data.length - mp.bRptr

/-- The bytes from `b_rptr` to `b_wptr`. -/
def Mblk.bytes (mp : Mblk) : Bytes := mp.data.drop mp.bRptr

/-- `efx_buffer_t` -/
structure EfxBuffer where
  ebAddr : ℕ
  ebSize : ℕ
  ebEop : Bool
  deriving DecidableEq

/-- `sfxge_tx_buffer_t`; its memory is at `esm_addr`. -/
structure TxBuffer where
  stbOff : ℕ
  esmUsed : ℕ
  deriving DecidableEq

/-- `sfxge_tx_mapping_t`; `stm_addr` up to its last entry in use, and `stm_base` as the `b_rptr` it is. -/
structure TxMapping where
  stmMp : Option ℕ
  stmBase : Option ℕ
  stmSize : ℕ
  stmOff : ℕ
  stmAddr : List ℕ
  deriving DecidableEq

def TxBuffer.unused : TxBuffer := ⟨0, 0⟩
def TxMapping.unused : TxMapping := ⟨none, none, 0, 0, []⟩

/-- `ddi_dma_cookie_t`: `dmac_laddress` and `dmac_size`. -/
abbrev Cookie := Extent

/-- The kernel: where the memory of each buffer lies, whether `kmem_cache_alloc` has another buffer when there are
so many, whether it has a mapping for a block, and the cookies of `ddi_dma_addr_bind_handle` for a block. -/
structure Kernel where
  esmAddr : ℕ → ℕ
  tbc : ℕ → Bool
  tmc : ℕ → Bool
  bind : ℕ → Option (List Cookie)

/-- The part of `sfxge_txq_t` that fragmentation uses, with the message, all buffers and mappings by their numbers,
how many there are, and the memory.  A message is known to `st_mp` and `freemsg` by its name. -/
structure Stq where
  msg : List Mblk
  phys : Memory
  stEb : List EfxBuffer
  buffers : ℕ → TxBuffer
  mappings : ℕ → TxMapping
  nbuffers : ℕ
  nmappings : ℕ
  stStbp : Fin SFXGE_TX_NDESCS → List ℕ
  stStmp : Fin SFXGE_TX_NDESCS → List ℕ
  stMp : Fin SFXGE_TX_NDESCS → Option ℕ
  stFbp : List ℕ
  stFmp : List ℕ
  stAdded : U32
  freed : List ℕ

/-- `msgdsize` -/
def msgdsize (msg : List Mblk) : ℕ := (msg.map Mblk.mblkl).sum

variable {ε : Type} (kernel : Kernel) (id : Fin SFXGE_TX_NDESCS)

/-- The block that `mp` points to. -/
def getMblk (mp : ℕ) : Prog Stq ε Mblk := fun stp =>
  match stp.msg[mp]? with
  | some blk => .ret blk stp
  | none => .fault

def getBuffer (stbp : ℕ) : Prog Stq ε TxBuffer := fun stp => .ret (stp.buffers stbp) stp

def getMapping (stmp : ℕ) : Prog Stq ε TxMapping := fun stp => .ret (stp.mappings stmp) stp

def setBuffer (stbp : ℕ) (b : TxBuffer) : Prog Stq ε Unit := fun stp =>
  .ret () { stp with buffers := Function.update stp.buffers stbp b }

def setMapping (stmp : ℕ) (m : TxMapping) : Prog Stq ε Unit := fun stp =>
  .ret () { stp with mappings := Function.update stp.mappings stmp m }

/-! ### Buffers and mappings -/

/-- `sfxge_tx_qfbp_get` -/
def qfbpGet : Prog Stq ε (Option ℕ) := fun stp =>
  match stp.stFbp with
  | [] => .ret none stp
  | stbp :: stFbp => .ret (some stbp) { stp with stFbp := stFbp }

/-- `sfxge_tx_qfmp_get` -/
def qfmpGet : Prog Stq ε (Option ℕ) := fun stp =>
  match stp.stFmp with
  | [] => .ret none stp
  | stmp :: stFmp => .ret (some stmp) { stp with stFmp := stFmp }

/-- `kmem_cache_alloc(sp->s_tbc, KM_NOSLEEP)` -/
def tbcAlloc : Prog Stq ε (Option ℕ) := fun stp =>
  if kernel.tbc stp.nbuffers then
    .ret (some stp.nbuffers) { stp with
      nbuffers := stp.nbuffers + 1
      buffers := Function.update stp.buffers stp.nbuffers .unused }
  else .ret none stp

/-- `kmem_cache_alloc(sp->s_tmc, KM_NOSLEEP)`, for the block `mp`. -/
def tmcAlloc (mp : ℕ) : Prog Stq ε (Option ℕ) := fun stp =>
  if kernel.tmc mp then
    .ret (some stp.nmappings) { stp with
      nmappings := stp.nmappings + 1
      mappings := Function.update stp.mappings stp.nmappings .unused }
  else .ret none stp

/-- A buffer is taken from the pool or allocated, and added to the list of the descriptor. -/
def takeBuffer : Prog Stq Errno ℕ := do
  let stbp ← qfbpGet
  let stbp ← match stbp with
    | some stbp => pure (some stbp)
    | none => tbcAlloc kernel
  match stbp with
  | none => fail ENOMEM
  | some stbp =>
    modify fun stp => { stp with stStbp := Function.update stp.stStbp id (stbp :: stp.stStbp id) }
    return stbp

/-- A buffer is taken if there is none at hand, or it is `full`. -/
def pickBuffer (stbp : Option ℕ) (full : TxBuffer → Prop) [DecidablePred full] : Prog Stq Errno ℕ := fun stp =>
  match stbp with
  | none => takeBuffer kernel id stp
  | some stbp => if full (stp.buffers stbp) then takeBuffer kernel id stp else .ret stbp stp

/-- A mapping for the block `mp` is taken from the pool or allocated, and added to the list of the descriptor. -/
def takeMapping (mp : ℕ) : Prog Stq ε (Option ℕ) := do
  let stmp ← qfmpGet
  let stmp ← match stmp with
    | some stmp => pure (some stmp)
    | none => tmcAlloc kernel mp
  match stmp with
  | none => return none
  | some stmp =>
    modify fun stp => { stp with stStmp := Function.update stp.stStmp id (stmp :: stp.stStmp id) }
    return some stmp

/-- The cookie at hand, or where it is used up `ddi_dma_nextcookie`. -/
def nextCookie (dmac : Cookie) (cookies : List Cookie) : Option (Cookie × List Cookie) :=
  if dmac.size = 0 then
    match cookies with
    | [] => none
    | dmac :: cookies => some (dmac, cookies)
  else some (dmac, cookies)

/-- The loop of `sfxge_tx_msgb_bind` with `room` entries of `stm_addr` left; none, if they do not suffice. -/
def bindLoop (room : ℕ) (dmac : Cookie) (cookies : List Cookie) (stmAddr : List ℕ) : Option (List ℕ) :=
  match nextCookie dmac cookies with
  | none => some stmAddr
  | some (dmac, cookies) =>
    match room with
    | 0 => none
    | room + 1 =>
      let size := min SFXGE_TX_DESCSIZE dmac.size
      bindLoop room ⟨dmac.addr + size, dmac.size - size⟩ cookies (stmAddr ++ [dmac.addr])

/-- `sfxge_tx_msgb_bind`: whether the block is bound. -/
def msgbBind (mp stmp : ℕ) : Prog Stq ε Bool := do
  let blk ← getMblk mp
  let stm ← getMapping stmp
  match kernel.bind mp with
  | none =>
    setMapping stmp { stm with stmSize := 0, stmBase := none, stmMp := none }
    return false
  | some [] => stuck
  | some (dmac :: cookies) =>
    let stmOff := dmac.addr % SFXGE_TX_DESCSIZE
    let size := min (SFXGE_TX_DESCSIZE - stmOff) dmac.size
    match bindLoop (SFXGE_TX_MAPPING_NADDR - 1) ⟨dmac.addr + size, dmac.size - size⟩ cookies
        [dmac.addr - stmOff] with
    | none => stuck
    | some stmAddr =>
      setMapping stmp ⟨some mp, some blk.bRptr, blk.mblkl, stmOff, stmAddr⟩
      return true

/-- `sfxge_tx_msgb_unbind` -/
def msgbUnbind (stmp : ℕ) : Prog Stq ε Unit := setMapping stmp .unused

/-! ### Fragments -/

/-- An entry of `st_eb` is filled, if there is one left. -/
def addFragment (eb : EfxBuffer) : Prog Stq Errno Unit := fun stp =>
  if stp.stEb.length = EFX_TXQ_LIMIT SFXGE_TX_NDESCS then .err ENOSPC stp
  else .ret () { stp with stEb := stp.stEb ++ [eb] }

/-- What the loop of `sfxge_tx_qmapping_add` changes. -/
structure MappingLocals where
  off : ℕ
  limit : ℕ
  mappingOff : ℕ
  mappingSize : ℕ

/-- A round of the loop; `last` is `mp->b_cont == NULL`. -/
def mappingAddRound (stmAddr : List ℕ) (last : Bool) (v : MappingLocals) :
    Prog Stq Errno ((ℕ × ℕ) ⊕ MappingLocals) := do
  if v.mappingSize = 0 ∨ v.limit = 0 then return .inl (v.off, v.limit)
  let page := v.mappingOff / SFXGE_TX_DESCSIZE
  let pageOff := v.mappingOff % SFXGE_TX_DESCSIZE
  let pageSize := min (min (SFXGE_TX_DESCSIZE - pageOff) v.mappingSize) v.limit
  match stmAddr[page]? with
  | none => stuck
  | some addr =>
    let v' : MappingLocals :=
      ⟨v.off + pageSize, v.limit - pageSize, v.mappingOff + pageSize, v.mappingSize - pageSize⟩
    addFragment ⟨addr + pageOff, pageSize, v'.limit = 0 ∨ v'.mappingSize = 0 ∧ last = true⟩
    return .inr v'

/-- `sfxge_tx_qmapping_add`: the new `*offp` and `*limitp`. -/
def qmappingAdd (stmp off limit : ℕ) : Prog Stq Errno (ℕ × ℕ) := do
  let stm ← getMapping stmp
  match stm.stmMp with
  | none => stuck
  | some mp =>
    let stp ← get
    iterate (mappingAddRound stm.stmAddr (mp + 1 = stp.msg.length)) (stm.stmSize + 1)
      ⟨off, limit, stm.stmOff + off, stm.stmSize - off⟩

/-- `sfxge_tx_qbuffer_add` -/
def qbufferAdd (stbp : ℕ) (eop : Bool) : Prog Stq Errno Unit := do
  let b ← getBuffer stbp
  addFragment ⟨kernel.esmAddr stbp + b.stbOff, b.esmUsed - b.stbOff, eop⟩
  setBuffer stbp { b with stbOff := b.esmUsed }

/-- `bcopy` into a buffer; a copy behind its end is undefined. -/
def bcopy (bs : Bytes) (stbp copyOff : ℕ) : Prog Stq ε Unit := fun stp =>
  if copyOff + bs.length ≤ SFXGE_TX_BUFFER_SIZE then
    .ret () { stp with phys := stp.phys.write (kernel.esmAddr stbp + copyOff) bs }
  else .fault

/-- `sfxge_tx_msgb_copy`: whether the end of the packet is reached, and the new `*offp` and `*limitp`. -/
def msgbCopy (mp stbp off limit : ℕ) : Prog Stq ε (Bool × ℕ × ℕ) := do
  let blk ← getMblk mp
  let b ← getBuffer stbp
  let stp ← get
  let copySize := min (min (SFXGE_TX_BUFFER_SIZE - b.esmUsed) (blk.mblkl - off)) limit
  bcopy kernel (slice blk.data (blk.bRptr + off) copySize) stbp b.esmUsed
  setBuffer stbp { b with esmUsed := b.esmUsed + copySize }
  return (limit - copySize = 0 ∨ blk.mblkl - off - copySize = 0 ∧ mp + 1 = stp.msg.length,
    off + copySize, limit - copySize)

/-! ### The loops -/

/-- The locals of `sfxge_tx_qpayload_fragment` and `sfxge_tx_qpacket_fragment`. -/
structure Locals where
  mp : ℕ
  off : ℕ
  size : ℕ
  stbp : Option ℕ
  stmp : Option ℕ

/-- The attempt to map a block: the new `stmp`, and whether the block is bound to it. -/
def tryMap (mp off : ℕ) (stmp : Option ℕ) : Prog Stq Errno (Option ℕ × Bool) := do
  let blk ← getMblk mp
  -- part way through copying a data block there's no point in trying to map it
  if off ≠ 0 then return (stmp, false)
  -- TX copy break
  if blk.mblkl < SFXGE_TX_COPY_THRESHOLD then return (stmp, false)
  match ← takeMapping kernel id mp with
  | none => return (none, false)
  | some stmp => return (some stmp, ← msgbBind kernel mp stmp)

/-- A partially filled buffer is added before the mapping. -/
def flushBuffer (stbp : Option ℕ) : Prog Stq Errno Unit := do
  match stbp with
  | none => pure ()
  | some stbp =>
    let b ← getBuffer stbp
    when (b.stbOff < b.esmUsed) (qbufferAdd kernel stbp false)

/-- The code after the label `copy`. -/
def copyBlock (v : Locals) : Prog Stq Errno Locals := do
  let stbp ← pickBuffer kernel id v.stbp fun b => b.esmUsed = SFXGE_TX_BUFFER_SIZE
  -- copy as much of the data block as we can into the buffer
  let (eop, off, size) ← msgbCopy kernel v.mp stbp v.off v.size
  -- the end of the packet, or the buffer is full
  let b ← getBuffer stbp
  when (b.esmUsed = SFXGE_TX_BUFFER_SIZE ∨ eop = true) (qbufferAdd kernel stbp eop)
  let blk ← getMblk v.mp
  if off = blk.mblkl then return ⟨v.mp + 1, 0, size, some stbp, v.stmp⟩
  return ⟨v.mp, off, size, some stbp, v.stmp⟩

/-- The code before the label `copy`, for a mapped block: the new `*offp` and `*limitp`. -/
def mapBlock (stmp : ℕ) (v : Locals) : Prog Stq Errno (ℕ × ℕ) := do
  flushBuffer kernel v.stbp
  qmappingAdd stmp v.off v.size

/-- Whether `sfxge_tx_qpacket_fragment` maps the block. -/
def packetMapping (copy : Bool) (v : Locals) : Prog Stq Errno (Option ℕ × Bool) := do
  if copy then return (v.stmp, false)
  tryMap kernel id v.mp v.off v.stmp

/-- Whether `sfxge_tx_qpayload_fragment` maps the block; it may have done so for the segment before. -/
def payloadMapping (copy : Bool) (v : Locals) : Prog Stq Errno (Option ℕ × Bool) := fun stp =>
  if copy = false ∧ v.stmp.any fun stmp => (stp.mappings stmp).stmMp = some v.mp then .ret (v.stmp, true) stp
  else packetMapping kernel id copy v stp

/-- A round of the loop of `sfxge_tx_qpayload_fragment`. -/
def payloadRound (copy : Bool) (v : Locals) : Prog Stq Errno ((ℕ × ℕ) ⊕ Locals) := do
  if v.size = 0 then return .inl (v.mp, v.off)
  match ← payloadMapping kernel id copy v with
  | (some stmp, true) =>
    let (off, size) ← mapBlock kernel stmp v
    let blk ← getMblk v.mp
    if off = blk.mblkl then return .inr ⟨v.mp + 1, 0, size, v.stbp, some stmp⟩
    return .inr ⟨v.mp, off, size, v.stbp, some stmp⟩
  | (stmp, _) => return .inr (← copyBlock kernel id { v with stmp := stmp })

/-- `sfxge_tx_qpayload_fragment`: the new `*mpp` and `*offp`. -/
def qpayloadFragment (mp off size : ℕ) (copy : Bool) : Prog Stq Errno (ℕ × ℕ) := do
  let stp ← get
  iterate (payloadRound kernel id copy) (size + stp.msg.length + 1)
    ⟨mp, off, size, (stp.stStbp id).head?, (stp.stStmp id).head?⟩

/-- A round of the loop of `sfxge_tx_qpacket_fragment`. -/
def packetRound (copy : Bool) (v : Locals) : Prog Stq Errno (Unit ⊕ Locals) := do
  let stp ← get
  if v.mp = stp.msg.length then return .inl ()
  match ← packetMapping kernel id copy v with
  | (some stmp, true) =>
    let (_, size) ← mapBlock kernel stmp v
    return .inr ⟨v.mp + 1, 0, size, v.stbp, some stmp⟩
  | (stmp, _) => return .inr (← copyBlock kernel id { v with stmp := stmp })

/-- The message is freed, or where a part of it is mapped kept until completion. -/
def giveMessage (stpMp : ℕ) : Prog Stq ε Unit := fun stp =>
  if stp.stStmp id = [] then .ret () { stp with freed := stp.freed ++ [stpMp] }
  else .ret () { stp with stMp := Function.update stp.stMp id (some stpMp) }

/-- `sfxge_tx_qpacket_fragment` of the message `stpMp` -/
def qpacketFragment (stpMp : ℕ) (copy : Bool) : Prog Stq Errno Unit := do
  let stp ← get
  let id := slot stp.stAdded
  iterate (packetRound kernel id copy) (msgdsize stp.msg + stp.msg.length + 1) ⟨0, 0, LONG_MAX, none, none⟩
  giveMessage id stpMp

/-! ### Undoing -/

/-- A mapping of an aborted list goes back to its pool. -/
def freeMapping (stmp : ℕ) : Prog Stq ε Unit := do
  let stm ← getMapping stmp
  when (stm.stmMp ≠ none) (msgbUnbind stmp)
  -- sfxge_tx_qfmp_put
  modify fun stp => { stp with stFmp := stmp :: stp.stFmp }

/-- A buffer of an aborted list goes back to its pool. -/
def freeBuffer (stbp : ℕ) : Prog Stq ε Unit := do
  setBuffer stbp ⟨0, 0⟩
  -- sfxge_tx_qfbp_put
  modify fun stp => { stp with stFbp := stbp :: stp.stFbp }

/-- `sfxge_tx_qlist_abort` -/
def qlistAbort : Prog Stq ε Unit := do
  let stp ← get
  let id := slot stp.stAdded
  -- clear the completion information
  modify fun stp => { stp with stStmp := Function.update stp.stStmp id [] }
  forEach freeMapping (stp.stStmp id)
  modify fun stp => { stp with stStbp := Function.update stp.stStbp id [] }
  forEach freeBuffer (stp.stStbp id)
  modify fun stp => { stp with
    stMp := Function.update stp.stMp id none
    freed := stp.freed ++ (stp.stMp id).toList
    stEb := [] }

end Sfxge.Tx.Frag
