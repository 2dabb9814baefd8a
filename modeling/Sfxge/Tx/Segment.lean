import Sfxge.Lib.Header
import Sfxge.Tx.Fragment

/-!
# Tx.Segment — how a large TCP packet becomes segments

`sfxge_tx_qlso_fragment`.  The headers are in the first block of the message, and are pointed to by their offset
in its data.
-/

namespace Sfxge.Tx.Frag

open Lib Lib.Prog Errno

def ETHERTYPE_VLAN : ℕ := 0x8100
def IP_DF : ℕ := 0x4000
def TH_FIN : ℕ := 0x01
def TH_SYN : ℕ := 0x02
def TH_PUSH : ℕ := 0x08
def TH_URG : ℕ := 0x20

/-- `sfxge_tx_packet_t`, with `HW_LSO` of `DB_LSOFLAGS`; the message is known by its name. -/
structure TxPacket where
  stpMp : ℕ
  hwLso : Bool
  stpEtherhp : ℕ
  stpIphp : ℕ
  stpThp : ℕ
  stpOff : ℕ
  stpSize : ℕ
  stpMss : ℕ

variable {ε : Type} (kernel : Kernel) (id : Fin SFXGE_TX_NDESCS)

/-- A field of a header, in network order. -/
def hdrGet (p n : ℕ) : Prog Stq ε ℕ := do
  let blk ← getMblk 0
  if p + n ≤ blk.data.length then return getBe blk.data p n
  stuck

/-- The first block is changed. -/
def setMblk (f : Mblk → Mblk) : Prog Stq ε Unit := modify fun stp => { stp with msg := stp.msg.modifyHead f }

def hdrSet (p n w : ℕ) : Prog Stq ε Unit := do
  let blk ← getMblk 0
  if p + n ≤ blk.data.length then setMblk fun blk => { blk with data := setBe blk.data p n w }
  else stuck

section

variable (stpp : TxPacket)

/-- `ip_len` -/
def TxPacket.ipLen : ℕ × ℕ := (stpp.stpIphp + 2, 2)
/-- `ip_id` -/
def TxPacket.ipId : ℕ × ℕ := (stpp.stpIphp + 4, 2)
/-- `ip_off` -/
def TxPacket.ipOff : ℕ × ℕ := (stpp.stpIphp + 6, 2)
/-- `th_seq` -/
def TxPacket.thSeq : ℕ × ℕ := (stpp.stpThp + 4, 4)
/-- `th_flags` -/
def TxPacket.thFlags : ℕ × ℕ := (stpp.stpThp + 13, 1)
/-- `th_urp` -/
def TxPacket.thUrp : ℕ × ℕ := (stpp.stpThp + 18, 2)

end

def getField (f : ℕ × ℕ) : Prog Stq ε ℕ := hdrGet f.1 f.2

def setField (f : ℕ × ℕ) (w : ℕ) : Prog Stq ε Unit := hdrSet f.1 f.2 w

/-- `iphp->ip_hl << 2`, from the low half of the first byte. -/
def ipHs (stpp : TxPacket) : Prog Stq ε ℕ := do
  return (← hdrGet stpp.stpIphp 1) % 16 * 4

/-- `thp->th_off << 2`, from the high half of the byte at 12. -/
def tcpHs (stpp : TxPacket) : Prog Stq ε ℕ := do
  return (← hdrGet (stpp.stpThp + 12) 1) / 16 * 4

/-- The locals of the loop of `sfxge_tx_qlso_fragment`. -/
structure LsoLocals where
  lss : ℕ
  ipId : ℕ
  thSeq : ℕ
  mp : ℕ
  off : ℕ
  stbp : Option ℕ

/-- The header is adjusted for a segment of `ss` bytes. -/
def adjustHeader (stpp : TxPacket) (startFlags ipId thSeq ss : ℕ) (eol : Bool) : Prog Stq Errno Unit := do
  setField stpp.ipId ipId
  setField stpp.thSeq thSeq
  when (eol = true) do
    setField stpp.ipLen ((← ipHs stpp) + (← tcpHs stpp) + ss)
    setField stpp.thFlags startFlags

/-- The headers are copied into a buffer, which is added to the fragment list. -/
def copyHeader (hp hs : ℕ) (stbp : Option ℕ) : Prog Stq Errno ℕ := do
  let stbp ← pickBuffer kernel id stbp fun b => SFXGE_TX_BUFFER_SIZE < b.esmUsed + hs
  let blk ← getMblk 0
  let b ← getBuffer stbp
  bcopy kernel (slice blk.data hp hs) stbp b.stbOff
  setBuffer stbp { b with esmUsed := b.esmUsed + hs }
  qbufferAdd kernel stbp false
  return stbp

/-- A round of the loop: one segment. -/
def lsoRound (stpp : TxPacket) (hp startFlags : ℕ) (copy : Bool) (v : LsoLocals) :
    Prog Stq Errno (Unit ⊕ LsoLocals) := do
  if v.lss = 0 then return .inl ()
  let ss := min v.lss stpp.stpMss
  adjustHeader stpp startFlags v.ipId v.thSeq ss (ss = v.lss)
  let stbp ← copyHeader kernel id hp stpp.stpOff v.stbp
  let (mp, off) ← qpayloadFragment kernel id v.mp v.off ss copy
  return .inr ⟨v.lss - ss, (v.ipId + 1) % 2 ^ 16, (v.thSeq + ss) % 2 ^ 32, mp, off, some stbp⟩

/-- From the label `fail5` on, the header is restored. -/
def restoreHeader (stpp : TxPacket) (startSeq startFlags startLen startId : ℕ) : Prog Stq Errno Unit := do
  setField stpp.thSeq startSeq
  setField stpp.thFlags startFlags
  setField stpp.ipLen startLen
  setField stpp.ipId startId

/-- The segments, once `b_rptr` is behind the headers. -/
def lsoSegments (stpp : TxPacket) (hp mp : ℕ) (copy : Bool) : Prog Stq Errno Unit := do
  let startLen ← getField stpp.ipLen
  let startId ← getField stpp.ipId
  let startFlags ← getField stpp.thFlags
  let startSeq ← getField stpp.thSeq
  -- adjust the header for interim segments
  setField stpp.ipLen ((← ipHs stpp) + (← tcpHs stpp) + stpp.stpMss)
  setField stpp.thFlags (startFlags &&& (0xff - (TH_PUSH + TH_FIN)))
  protect (restoreHeader stpp startSeq startFlags startLen startId) do
    ensure (stpp.stpSize / stpp.stpMss < EFX_TXQ_LIMIT SFXGE_TX_NDESCS / 2) EINVAL
    iterate (lsoRound kernel id stpp hp startFlags copy) (stpp.stpSize + 1)
      ⟨stpp.stpSize, startId, startSeq, mp, 0, none⟩

/-- `sfxge_tx_qlso_fragment` -/
def qlsoFragment (stpp : TxPacket) (copy : Bool) : Prog Stq Errno Unit := do
  ensure (stpp.hwLso = true) EINVAL
  let stp ← get
  let id := slot stp.stAdded
  let ehs := if (← hdrGet (stpp.stpEtherhp + 12) 2) = ETHERTYPE_VLAN then 18 else 14
  ensure (msgdsize stp.msg = ehs + (← getField stpp.ipLen)) EINVAL
  -- the payload offset is equivalent to the size of the headers
  let blk ← getMblk 0
  let hp := blk.bRptr
  let hs := stpp.stpOff
  ensure (hs ≤ blk.mblkl) EINVAL
  setMblk fun blk => { blk with bRptr := blk.bRptr + hs }
  protect (setMblk fun blk => { blk with bRptr := blk.bRptr - hs }) do
    let mp := if blk.mblkl - hs = 0 then 1 else 0
    -- check IP and TCP headers are suitable for LSO
    let ipOff ← getField stpp.ipOff
    let thFlags ← getField stpp.thFlags
    let thUrp ← getField stpp.thUrp
    ensure (ipOff &&& (0xffff - IP_DF) = 0 ∧ thFlags &&& (TH_URG + TH_SYN) = 0 ∧ thUrp = 0) EINVAL
    ensure ((stpp.stpSize + (← tcpHs stpp) + (← ipHs stpp)) % 2 ^ 64 = (← getField stpp.ipLen)) EINVAL
    lsoSegments kernel id stpp hp mp copy
    giveMessage id stpp.stpMp

end Sfxge.Tx.Frag
