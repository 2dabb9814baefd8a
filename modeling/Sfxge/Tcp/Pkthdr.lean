import Sfxge.Lib.Header

/-!
# Tcp.Pkthdr — `sfxge_pkthdr_parse`

The headers of a packet are parsed in the first block of its message, to which `pullupmsg` adds what it does not hold.
-/

namespace Sfxge.Tcp

open Lib

def ETHERTYPE_IP : ℕ := 0x0800
def ETHERTYPE_VLAN : ℕ := 0x8100
def IPV4_VERSION : ℕ := 4
def IPPROTO_TCP : ℕ := 6
def IPPROTO_UDP : ℕ := 17
def IPPROTO_SCTP : ℕ := 132

/-! ### Messages -/

/-- `mblk_t`: the name of its data block, where in it `b_rptr` is, and the bytes up to `b_wptr`. -/
structure Mblk where
  bDatap : ℕ
  bRptr : ℕ
  data : Bytes

/-- A message: its blocks, and how many data blocks were ever allocated, which are named in that order. -/
structure Msg where
  first : Mblk
  bCont : List Mblk
  allocated : ℕ
  known : first.bDatap < allocated

namespace Msg

variable (mp : Msg)

/-- `MBLKL` -/
def mblkl : ℕ := mp.first.data.length

def bytes : Bytes := mp.first.data ++ mp.bCont.flatMap Mblk.data

def msgdsize : ℕ := mp.bytes.length

/-- The field of `n` bytes at `b_rptr + p`, in network order. -/
def be (p n : ℕ) : ℕ := getBe mp.first.data p n

/-- The port at `b_rptr + p`, as it is. -/
def port (p : ℕ) : ℕ := u16 mp.first.data p

end Msg

/-- A pointer into a data block. -/
structure Ptr where
  bDatap : ℕ
  off : ℕ
  deriving DecidableEq

/-- `b_rptr + p` -/
def Msg.rptr (mp : Msg) (p : ℕ) : Ptr := ⟨mp.first.bDatap, mp.first.bRptr + p⟩

/-- `pullupmsg`, which has no message where it returns 0.  The message has the same bytes, and those asked for are in its
first block; where they were not, the first block has another data block. -/
structure Pullupmsg where
  run : Msg → ℕ → Option Msg
  bytes : ∀ {mp len mp'}, run mp len = some mp' → mp'.bytes = mp.bytes
  pulled : ∀ {mp len mp'}, run mp len = some mp' → len ≤ mp'.mblkl
  anew : ∀ {mp len mp'}, run mp len = some mp' → mp.mblkl < len → mp.allocated ≤ mp'.first.bDatap

/-- The bytes asked for are in the first block, or are pulled up. -/
def Pullupmsg.demand (kernel : Pullupmsg) (mp : Msg) (len : ℕ) : Option Msg :=
  if mp.mblkl < len then kernel.run mp len else some mp

/-! ### The parse -/

/-- `sfxge_packet_type_t` -/
inductive PacketType where
  | SFXGE_PACKET_TYPE_UNKNOWN
  | SFXGE_PACKET_TYPE_IPV4_TCP
  | SFXGE_PACKET_TYPE_IPV4_UDP
  | SFXGE_PACKET_TYPE_IPV4_SCTP
  | SFXGE_PACKET_TYPE_IPV4_OTHER
  deriving DecidableEq

open PacketType

/-- What `sfxge_pkthdr_parse` returns, with the message as it is then; `asserts` when its assertion failed. -/
structure Pkthdr where
  mp : Msg
  pktType : PacketType
  etherhp : Option Ptr
  iphp : Option Ptr
  thp : Option Ptr
  off : ℕ
  size : BitVec 64
  sport : ℕ
  dport : ℕ
  asserts : Bool

def Pkthdr.start (mp : Msg) : Pkthdr :=
  ⟨mp, SFXGE_PACKET_TYPE_UNKNOWN, none, none, none, 0, 0, 0, 0, false⟩

variable (kernel : Pullupmsg)

/-- The end of the parse, where the last pull-up may fail. -/
def pullupHeaders (p : Pkthdr) : Pkthdr :=
  match kernel.demand p.mp p.off with
  | none => p
  | some mp => { p with mp := mp }

/-- The header of the transport, of at least `hdr` bytes and of `hs mp off` bytes where it lies at `off`. -/
def parseTransport (pktType : PacketType) (hdr sport dport : ℕ) (hs : Msg → ℕ → ℕ) (p : Pkthdr) : Pkthdr :=
  match kernel.demand p.mp (p.off + hdr) with
  | none => p
  | some mp =>
    pullupHeaders kernel { p with
      mp := mp
      thp := if pktType = SFXGE_PACKET_TYPE_IPV4_TCP then some (mp.rptr p.off) else none
      dport := mp.port (p.off + dport)
      sport := mp.port (p.off + sport)
      off := p.off + hs mp p.off
      size := p.size - BitVec.ofNat 64 (hs mp p.off)
      pktType := pktType }

/-- `struct tcphdr`, with `th_off` in the high half of the byte at 12. -/
def parseTcp (p : Pkthdr) : Pkthdr :=
  parseTransport kernel SFXGE_PACKET_TYPE_IPV4_TCP 20 0 2 (fun mp off => mp.be (off + 12) 1 / 16 * 4) p

/-- `struct udphdr` -/
def parseUdp (p : Pkthdr) : Pkthdr :=
  parseTransport kernel SFXGE_PACKET_TYPE_IPV4_UDP 8 0 2 (fun _ _ => 8) p

/-- `struct sctp_hdr` -/
def parseSctp (p : Pkthdr) : Pkthdr :=
  parseTransport kernel SFXGE_PACKET_TYPE_IPV4_SCTP 12 0 2 (fun _ _ => 12) p

/-- `struct ip`, with `ip_v` and `ip_hl` in the halves of its first byte. -/
def parseIp (etherhs : ℕ) (p : Pkthdr) : Pkthdr :=
  let p := { p with iphp := some (p.mp.rptr p.off) }
  let iphs := p.mp.be p.off 1 % 16 * 4
  if p.mp.be p.off 1 / 16 ≠ IPV4_VERSION then p
  else
    let size := p.mp.be (p.off + 2) 2
    let ipP := p.mp.be (p.off + 9) 1
    let p := { p with
      asserts := decide (p.mp.msgdsize < etherhs + size)
      pktType := SFXGE_PACKET_TYPE_IPV4_OTHER
      off := p.off + iphs
      size := BitVec.ofNat 64 size - BitVec.ofNat 64 iphs }
    if ipP = IPPROTO_TCP then parseTcp kernel p
    else if ipP = IPPROTO_UDP then parseUdp kernel p
    else if ipP = IPPROTO_SCTP then parseSctp kernel p
    else pullupHeaders kernel p

/-- The MAC header of `etherhs` bytes is skipped. -/
def skipMac (etherhs etherType : ℕ) (p : Pkthdr) : Pkthdr :=
  if etherType ≠ ETHERTYPE_IP then p
  else
    let p := { p with off := etherhs }
    match kernel.demand p.mp (p.off + 20) with
    | none => p
    | some mp => parseIp kernel etherhs { p with mp := mp }

/-- `struct ether_header`, or `struct ether_vlan_header`. -/
def parseMac (p : Pkthdr) : Pkthdr :=
  let p := { p with etherhp := some (p.mp.rptr 0) }
  if p.mp.be 12 2 = ETHERTYPE_VLAN then
    match kernel.demand p.mp 18 with
    | none => p
    | some mp => skipMac kernel 18 (mp.be 16 2) { p with mp := mp }
  else skipMac kernel 14 (p.mp.be 12 2) p

/-- `sfxge_pkthdr_parse` -/
def pkthdrParse (mp : Msg) : Pkthdr :=
  match kernel.demand mp 14 with
  | none => .start mp
  | some mp' => parseMac kernel (.start mp')

/-! ### Pull-ups -/

variable {kernel : Pullupmsg} {mp mp' : Msg} {len p n : ℕ}

theorem Msg.be_eq (h : p + n ≤ mp.mblkl) : mp.be p n = getBe mp.bytes p n := by
  have hp : mp.first.data <+: mp.bytes := List.prefix_append _ _
  have hs : slice mp.first.data p n = slice mp.bytes p n := by
    rw [slice, slice]
    refine ((hp.drop p).take n).eq_of_length ?_
    rw [List.length_take, List.length_take, List.length_drop, List.length_drop]
    have hle := hp.length_le
    rw [Msg.mblkl] at h
    omega
  rw [Msg.be, getBe, getBe, hs]

theorem Pullupmsg.demand_bytes (h : kernel.demand mp len = some mp') : mp'.bytes = mp.bytes := by
  unfold Pullupmsg.demand at h
  split_ifs at h with hlt
  · exact kernel.bytes h
  · cases h
    rfl

theorem Pullupmsg.demand_held (h : kernel.demand mp len = some mp') : len ≤ mp'.mblkl := by
  unfold Pullupmsg.demand at h
  split_ifs at h with hlt
  · exact kernel.pulled h
  · cases h
    exact Nat.le_of_not_lt hlt

/-- A field of what was demanded is that of the message. -/
theorem Pullupmsg.demand_be (h : kernel.demand mp len = some mp') (hp : p + n ≤ len) :
    mp'.be p n = getBe mp.bytes p n := by
  rw [Msg.be_eq (hp.trans (Pullupmsg.demand_held h)), Pullupmsg.demand_bytes h]

/-- A `pullupmsg` that copies what is asked for while memory lasts for `n` data blocks. -/
def Pullupmsg.copying (n : ℕ) : Pullupmsg where
  run mp len :=
    if mp.msgdsize < len ∨ n ≤ mp.allocated then none
    else some ⟨⟨mp.allocated, 0, mp.bytes.take (max len mp.mblkl)⟩,
      [⟨mp.first.bDatap, mp.first.bRptr + mp.mblkl, mp.bytes.drop (max len mp.mblkl)⟩], mp.allocated + 1,
      Nat.lt_succ_self _⟩
  bytes h := by
    split_ifs at h
    cases h
    simp [Msg.bytes]
  pulled := by
    intro mp len mp' h
    split_ifs at h with hno
    cases h
    have hm : mp.mblkl ≤ mp.msgdsize := by simp [Msg.mblkl, Msg.msgdsize, Msg.bytes]
    have hlen : len ≤ mp.msgdsize := Nat.le_of_not_lt fun h => hno (.inl h)
    change len ≤ (mp.bytes.take (max len mp.mblkl)).length
    rw [List.length_take_of_le (max_le hlen hm)]
    exact le_max_left _ _
  anew h _ := by
    split_ifs at h
    cases h
    exact Nat.le_refl _

end Sfxge.Tcp
