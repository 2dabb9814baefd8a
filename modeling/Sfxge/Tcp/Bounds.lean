import Sfxge.Tcp.Pkthdr

/-!
# Tcp.Bounds — the payload that a parse reports

The lengths in the headers are not checked against each other or against the message, so the offset and the size that
`sfxge_pkthdr_parse` reports are right where the headers of the packet are.
-/

namespace Sfxge.Tcp

open Lib PacketType

/-! ### The headers of a packet -/

/-- There is a VLAN tag. -/
def tagged (bs : Bytes) : Bool := getBe bs 12 2 = ETHERTYPE_VLAN

def etherHs (bs : Bytes) : ℕ := if tagged bs then 18 else 14

def etherType (bs : Bytes) : ℕ := if tagged bs then getBe bs 16 2 else getBe bs 12 2

def ipV (bs : Bytes) : ℕ := getBe bs (etherHs bs) 1 / 16

/-- `4 * ip_hl` -/
def ipHs (bs : Bytes) : ℕ := getBe bs (etherHs bs) 1 % 16 * 4

def ipLen (bs : Bytes) : ℕ := getBe bs (etherHs bs + 2) 2

def ipP (bs : Bytes) : ℕ := getBe bs (etherHs bs + 9) 1

/-- `4 * th_off` -/
def thHs (bs : Bytes) : ℕ := getBe bs (etherHs bs + ipHs bs + 12) 1 / 16 * 4

/-- Each of the demands, in turn, is met. -/
def Pullupmsg.Meets (kernel : Pullupmsg) (mp : Msg) (lens : List ℕ) : Prop := (lens.foldlM kernel.demand mp).isSome

variable (kernel : Pullupmsg) (mp : Msg)

/-- What is asked for to come to the IP header. -/
def ipDemands (bs : Bytes) : List ℕ := 14 :: ((if tagged bs then [18] else []) ++ [etherHs bs + 20])

/-- The parse comes to an IPv4 header. -/
def IsIpv4 : Prop :=
  etherType mp.bytes = ETHERTYPE_IP ∧ ipV mp.bytes = IPV4_VERSION ∧ kernel.Meets mp (ipDemands mp.bytes)

/-- The parse comes to a TCP header. -/
def IsTcp : Prop :=
  IsIpv4 kernel mp ∧ ipP mp.bytes = IPPROTO_TCP ∧
    kernel.Meets mp (ipDemands mp.bytes ++ [etherHs mp.bytes + ipHs mp.bytes + 20])

/-- The payload of a TCP packet is reported as it is, inside the message, and no assertion fails. -/
structure Reported (bs : Bytes) (p : Pkthdr) : Prop where
  inside : p.pktType = SFXGE_PACKET_TYPE_IPV4_TCP → p.off + p.size.toNat ≤ bs.length
  headers : p.pktType = SFXGE_PACKET_TYPE_IPV4_TCP → ipHs bs + thHs bs ≤ ipLen bs
  size : p.pktType = SFXGE_PACKET_TYPE_IPV4_TCP → p.size.toNat = ipLen bs - ipHs bs - thHs bs
  asserts : p.asserts = false

/-! ### The parse, header by header -/

variable {kernel mp} {mp' : Msg} {bs : Bytes} {lens : List ℕ} {p : Pkthdr}

/-- The last pull-up changes the message only. -/
theorem pullupHeaders_same (kernel : Pullupmsg) (p : Pkthdr) :
    ∃ mp', pullupHeaders kernel p = { p with mp := mp' } := by
  unfold pullupHeaders
  split
  · exact ⟨p.mp, rfl⟩
  · exact ⟨_, rfl⟩

/-- A transport other than TCP does not report a TCP packet. -/
theorem parseTransport_other (kernel : Pullupmsg) (pktType : PacketType) {hdr sport dport : ℕ} {hs : Msg → ℕ → ℕ}
    (hp : p.pktType ≠ SFXGE_PACKET_TYPE_IPV4_TCP) (hty : pktType ≠ SFXGE_PACKET_TYPE_IPV4_TCP) :
    (parseTransport kernel pktType hdr sport dport hs p).pktType ≠ SFXGE_PACKET_TYPE_IPV4_TCP ∧
      (parseTransport kernel pktType hdr sport dport hs p).asserts = p.asserts := by
  unfold parseTransport
  split
  · exact ⟨hp, rfl⟩
  · obtain ⟨mp', h⟩ := pullupHeaders_same kernel _
    rw [h]
    exact ⟨hty, rfl⟩

/-- What `parseTcp` adds to the parse where there is a TCP header. -/
theorem parseTcp_met (hbs : p.mp.bytes = bs) (hoff : p.off = etherHs bs + ipHs bs)
    (hmet : (kernel.demand p.mp (p.off + 20)).isSome) :
    (parseTcp kernel p).pktType = SFXGE_PACKET_TYPE_IPV4_TCP ∧ (parseTcp kernel p).asserts = p.asserts ∧
      (parseTcp kernel p).off = p.off + thHs bs ∧
      (parseTcp kernel p).size = p.size - BitVec.ofNat 64 (thHs bs) := by
  obtain ⟨mp', h⟩ := Option.isSome_iff_exists.mp hmet
  have hths : mp'.be (p.off + 12) 1 / 16 * 4 = thHs bs := by
    rw [Pullupmsg.demand_be h (by omega), hbs, hoff, thHs]
  unfold parseTcp parseTransport
  rw [h]
  dsimp only
  rw [hths]
  obtain ⟨mp', h⟩ := pullupHeaders_same kernel _
  rw [h]
  exact ⟨rfl, rfl, rfl, rfl⟩

theorem parseTcp_unmet (h : kernel.demand p.mp (p.off + 20) = none) : parseTcp kernel p = p := by
  unfold parseTcp parseTransport
  rw [h]

/-- The payload is what the headers leave of the packet, where they leave something. -/
theorem size_toNat {len iphs ths : ℕ} (hlen : len < 2 ^ 64) (h : iphs + ths ≤ len) :
    (BitVec.ofNat 64 len - BitVec.ofNat 64 iphs - BitVec.ofNat 64 ths).toNat = len - iphs - ths := by
  simp only [BitVec.toNat_sub, BitVec.toNat_ofNat]
  omega

theorem reported_other (hty : p.pktType ≠ SFXGE_PACKET_TYPE_IPV4_TCP) : Reported bs p ↔ p.asserts = false :=
  ⟨fun h => h.asserts, fun h => ⟨fun h => absurd h hty, fun h => absurd h hty, fun h => absurd h hty, h⟩⟩

/-- The parse from the IP header on. -/
theorem parseIp_reported_iff (hbs : p.mp.bytes = bs) (hoff : p.off = etherHs bs) (hheld : etherHs bs + 20 ≤ p.mp.mblkl)
    (hty : p.pktType ≠ SFXGE_PACKET_TYPE_IPV4_TCP) (hasserts : p.asserts = false) :
    Reported bs (parseIp kernel (etherHs bs) p) ↔ (ipV bs = IPV4_VERSION → etherHs bs + ipLen bs ≤ bs.length ∧
      (ipP bs = IPPROTO_TCP → (kernel.demand p.mp (etherHs bs + ipHs bs + 20)).isSome →
        ipHs bs + thHs bs ≤ ipLen bs)) := by
  have hbe : ∀ q n, q + n ≤ 20 → p.mp.be (p.off + q) n = getBe bs (etherHs bs + q) n := by
    intro q n hq
    rw [Msg.be_eq (by omega), hbs, hoff]
  have hhl : p.mp.be p.off 1 = getBe bs (etherHs bs) 1 := hbe 0 1 (by decide)
  have hlen : p.mp.be (p.off + 2) 2 = ipLen bs := hbe 2 2 (by decide)
  have hproto : p.mp.be (p.off + 9) 1 = ipP bs := hbe 9 1 (by decide)
  unfold parseIp
  dsimp only
  rw [hhl, hlen, hproto]
  change Reported bs (if ipV bs ≠ IPV4_VERSION then _ else _) ↔ _
  by_cases hv : ipV bs = IPV4_VERSION
  swap
  · rw [if_pos hv]
    refine iff_of_true ((reported_other ?_).mpr ?_) fun h => absurd h hv
    · exact hty
    · exact hasserts
  rw [if_neg (not_not.mpr hv)]
  set p1 : Pkthdr := { p with
    iphp := some (p.mp.rptr p.off)
    asserts := decide (p.mp.msgdsize < etherHs bs + ipLen bs)
    pktType := SFXGE_PACKET_TYPE_IPV4_OTHER
    off := p.off + getBe bs (etherHs bs) 1 % 16 * 4
    size := BitVec.ofNat 64 (ipLen bs) - BitVec.ofNat 64 (getBe bs (etherHs bs) 1 % 16 * 4) } with hp1
  have hasserts1 : p1.asserts = false ↔ etherHs bs + ipLen bs ≤ bs.length := by
    have hsize : p.mp.msgdsize = bs.length := congrArg List.length hbs
    rw [hp1, ← hsize]
    exact decide_eq_false_iff_not.trans Nat.not_lt
  have hoff1 : p1.off = etherHs bs + ipHs bs := congrArg (· + ipHs bs) hoff
  have hother : ∀ r : Pkthdr, r.pktType ≠ SFXGE_PACKET_TYPE_IPV4_TCP → r.asserts = p1.asserts →
      (Reported bs r ↔ etherHs bs + ipLen bs ≤ bs.length) := by
    intro r hr ha
    rw [reported_other hr, ha, hasserts1]
  have hty1 : p1.pktType ≠ SFXGE_PACKET_TYPE_IPV4_TCP := nofun
  by_cases htcp : ipP bs = IPPROTO_TCP
  · rw [if_pos htcp]
    cases hd : kernel.demand p1.mp (p1.off + 20) with
    | none =>
      rw [parseTcp_unmet hd, hother p1 hty1 rfl]
      rw [hoff1] at hd
      have hd' : kernel.demand p.mp (etherHs bs + ipHs bs + 20) = none := hd
      rw [hd']
      simp [hv]
    | some mp' =>
      obtain ⟨htype, ha, hoff2, hsize⟩ := parseTcp_met (p := p1) hbs hoff1 (Option.isSome_iff_exists.mpr ⟨_, hd⟩)
      rw [hoff1] at hd
      have hd' : kernel.demand p.mp (etherHs bs + ipHs bs + 20) = some mp' := hd
      rw [hd']
      have hlt : ipLen bs < 2 ^ 64 := lt_of_lt_of_le getBe_lt (by norm_num)
      constructor
      · intro h
        exact fun _ => ⟨hasserts1.mp (ha ▸ h.asserts), fun _ _ => h.headers htype⟩
      · intro h
        obtain ⟨hin, hhdr⟩ := h hv
        have hle := hhdr htcp rfl
        have hsz : (parseTcp kernel p1).size.toNat = ipLen bs - ipHs bs - thHs bs := by
          rw [hsize]
          exact size_toNat hlt hle
        refine ⟨fun _ => ?_, fun _ => hle, fun _ => hsz, ha.trans (hasserts1.mpr hin)⟩
        rw [hsz, hoff2, hoff1]
        omega
  · rw [if_neg htcp]
    have hrhs : (ipV bs = IPV4_VERSION → etherHs bs + ipLen bs ≤ bs.length ∧ (ipP bs = IPPROTO_TCP →
        (kernel.demand p.mp (etherHs bs + ipHs bs + 20)).isSome → ipHs bs + thHs bs ≤ ipLen bs)) ↔
        etherHs bs + ipLen bs ≤ bs.length := by simp [hv, htcp]
    rw [hrhs]
    split_ifs
    · obtain ⟨h1, h2⟩ := parseTransport_other kernel SFXGE_PACKET_TYPE_IPV4_UDP hty1 nofun
      exact hother _ h1 h2
    · obtain ⟨h1, h2⟩ := parseTransport_other kernel SFXGE_PACKET_TYPE_IPV4_SCTP hty1 nofun
      exact hother _ h1 h2
    · obtain ⟨mp', h⟩ := pullupHeaders_same kernel p1
      rw [h]
      exact hother _ hty1 rfl

/-! ### The whole parse -/

theorem skipMac_reported_iff {k : ℕ} (hbs : p.mp.bytes = bs) (hk : k = etherHs bs)
    (hty : p.pktType ≠ SFXGE_PACKET_TYPE_IPV4_TCP) (hasserts : p.asserts = false) :
    Reported bs (skipMac kernel k (etherType bs) p) ↔ (etherType bs = ETHERTYPE_IP → ∀ mp',
      kernel.demand p.mp (etherHs bs + 20) = some mp' → ipV bs = IPV4_VERSION → etherHs bs + ipLen bs ≤ bs.length ∧
      (ipP bs = IPPROTO_TCP → (kernel.demand mp' (etherHs bs + ipHs bs + 20)).isSome →
        ipHs bs + thHs bs ≤ ipLen bs)) := by
  subst hk
  unfold skipMac
  dsimp only
  by_cases het : etherType bs = ETHERTYPE_IP
  swap
  · rw [if_pos het]
    exact iff_of_true ((reported_other hty).mpr hasserts) fun h => absurd h het
  rw [if_neg (not_not.mpr het)]
  cases hd : kernel.demand p.mp (etherHs bs + 20) with
  | none =>
    refine iff_of_true ((reported_other ?_).mpr ?_) fun _ _ h => nomatch h
    · exact hty
    · exact hasserts
  | some mp' =>
    have hiff : Reported bs (parseIp kernel (etherHs bs) { p with off := etherHs bs, mp := mp' }) ↔ _ :=
      parseIp_reported_iff ((Pullupmsg.demand_bytes hd).trans hbs) rfl (Pullupmsg.demand_held hd) hty hasserts
    refine hiff.trans ⟨fun h _ _ he => ?_, fun h => h het mp' rfl⟩
    cases he
    exact h

theorem Pullupmsg.meets_nil : kernel.Meets mp [] := rfl

theorem Pullupmsg.meets_cons {len : ℕ} :
    kernel.Meets mp (len :: lens) ↔ ∃ mp', kernel.demand mp len = some mp' ∧ kernel.Meets mp' lens := by
  unfold Pullupmsg.Meets
  rw [List.foldlM_cons]
  cases kernel.demand mp len with
  | none => exact iff_of_false nofun fun ⟨_, h, _⟩ => nomatch h
  | some mp' => exact ⟨fun h => ⟨mp', rfl, h⟩, fun ⟨_, he, h⟩ => Option.some.inj he ▸ h⟩

/-- The lengths that the headers of a packet tell, where the parse reads them. -/
def LengthsRight (kernel : Pullupmsg) (mp : Msg) : Prop :=
  (IsIpv4 kernel mp → etherHs mp.bytes + ipLen mp.bytes ≤ mp.msgdsize) ∧
    (IsTcp kernel mp → ipHs mp.bytes + thHs mp.bytes ≤ ipLen mp.bytes)

/-- A parse that does not come to the IP header. -/
theorem lengthsRight_of_unmet (h : ∀ lens, ¬ kernel.Meets mp (14 :: ((if tagged mp.bytes then [18] else []) ++ lens))) :
    LengthsRight kernel mp :=
  ⟨fun hip => absurd hip.2.2 (h _), fun htcp => absurd htcp.1.2.2 (h _)⟩

/-- The lengths, once the MAC header is skipped. -/
theorem lengthsRight_of_skipped {m : Msg} (hm : ∀ lens, kernel.Meets mp
      (14 :: ((if tagged mp.bytes then [18] else []) ++ lens)) ↔ kernel.Meets m lens) :
    LengthsRight kernel mp ↔ (etherType mp.bytes = ETHERTYPE_IP → ∀ mp',
      kernel.demand m (etherHs mp.bytes + 20) = some mp' → ipV mp.bytes = IPV4_VERSION →
      etherHs mp.bytes + ipLen mp.bytes ≤ mp.bytes.length ∧ (ipP mp.bytes = IPPROTO_TCP →
        (kernel.demand mp' (etherHs mp.bytes + ipHs mp.bytes + 20)).isSome →
        ipHs mp.bytes + thHs mp.bytes ≤ ipLen mp.bytes)) := by
  have hip := (hm [etherHs mp.bytes + 20]).trans Pullupmsg.meets_cons
  have htcp := (hm [etherHs mp.bytes + 20, etherHs mp.bytes + ipHs mp.bytes + 20]).trans Pullupmsg.meets_cons
  unfold LengthsRight IsTcp IsIpv4 ipDemands
  rw [List.cons_append, List.append_assoc, List.cons_append, List.nil_append, hip, htcp]
  constructor
  · rintro ⟨h1, h2⟩ het mp' hd hv
    refine ⟨h1 ⟨het, hv, mp', hd, Pullupmsg.meets_nil⟩, fun hp hd2 => ?_⟩
    obtain ⟨mp2, hd2⟩ := Option.isSome_iff_exists.mp hd2
    exact h2 ⟨⟨het, hv, mp', hd, Pullupmsg.meets_nil⟩, hp, mp', hd,
      Pullupmsg.meets_cons.mpr ⟨mp2, hd2, Pullupmsg.meets_nil⟩⟩
  · intro h
    refine ⟨fun ⟨het, hv, mp', hd, _⟩ => (h het mp' hd hv).1, fun ⟨⟨het, hv, _⟩, hp, mp', hd, hmet⟩ => ?_⟩
    obtain ⟨mp2, hd2, -⟩ := Pullupmsg.meets_cons.mp hmet
    exact (h het mp' hd hv).2 hp (Option.isSome_iff_exists.mpr ⟨mp2, hd2⟩)

/-- **The payload of a TCP packet.**  It is reported right, and no assertion fails, exactly if the IP length is not
beyond the message and the headers of a TCP packet are not beyond the IP length. -/
theorem pkthdrParse_reported_iff (kernel : Pullupmsg) (mp : Msg) :
    Reported mp.bytes (pkthdrParse kernel mp) ↔ LengthsRight kernel mp := by
  have hunread : (Pkthdr.start mp).pktType ≠ SFXGE_PACKET_TYPE_IPV4_TCP := by simp [Pkthdr.start]
  unfold pkthdrParse
  cases hd : kernel.demand mp 14 with
  | none =>
    refine iff_of_true ((reported_other hunread).mpr rfl) (lengthsRight_of_unmet fun lens h => ?_)
    obtain ⟨_, h, -⟩ := Pullupmsg.meets_cons.mp h
    exact nomatch hd.symm.trans h
  | some m1 =>
    have hb1 := Pullupmsg.demand_bytes hd
    have h12 : m1.be 12 2 = getBe mp.bytes 12 2 := Pullupmsg.demand_be hd (by decide)
    have hm1 : ∀ lens, kernel.Meets mp (14 :: lens) ↔ kernel.Meets m1 lens := fun lens => by
      rw [Pullupmsg.meets_cons, hd]
      exact ⟨fun ⟨_, he, h⟩ => Option.some.inj he ▸ h, fun h => ⟨m1, rfl, h⟩⟩
    unfold parseMac
    dsimp only [Pkthdr.start]
    rw [h12]
    by_cases htag : getBe mp.bytes 12 2 = ETHERTYPE_VLAN
    · rw [if_pos htag]
      have htagged : tagged mp.bytes = true := decide_eq_true htag
      cases hd2 : kernel.demand m1 18 with
      | none =>
        dsimp only
        refine iff_of_true ((reported_other ?_).mpr rfl) (lengthsRight_of_unmet fun lens h => ?_)
        · exact hunread
        rw [hm1, htagged, if_pos rfl, List.cons_append] at h
        obtain ⟨_, h, -⟩ := Pullupmsg.meets_cons.mp h
        exact nomatch hd2.symm.trans h
      | some m2 =>
        have h16 : m2.be 16 2 = etherType mp.bytes := by
          rw [Pullupmsg.demand_be hd2 (by decide), hb1, etherType, if_pos htagged]
        dsimp only
        rw [h16]
        refine (skipMac_reported_iff ((Pullupmsg.demand_bytes hd2).trans hb1) ?_ ?_ rfl).trans
          (lengthsRight_of_skipped (m := m2) fun lens => ?_).symm
        · rw [etherHs, if_pos htagged]
        · exact hunread
        · rw [hm1, htagged, if_pos rfl, List.cons_append, List.nil_append, Pullupmsg.meets_cons, hd2]
          exact ⟨fun ⟨_, he, h⟩ => Option.some.inj he ▸ h, fun h => ⟨m2, rfl, h⟩⟩
    · rw [if_neg htag]
      have htagged : tagged mp.bytes = false := decide_eq_false htag
      have h12' : getBe mp.bytes 12 2 = etherType mp.bytes := by rw [etherType, htagged]; rfl
      rw [h12']
      refine (skipMac_reported_iff hb1 ?_ ?_ rfl).trans (lengthsRight_of_skipped (m := m1) fun lens => ?_).symm
      · rw [etherHs, htagged]
        rfl
      · exact hunread
      · rw [hm1, htagged]
        rfl

/-! ### A packet -/

/-- A TCP packet of 54 bytes in one block, whose IP length is `len`; its IP and TCP headers are of 20 bytes. -/
def syn (len : UInt8) : Msg :=
  ⟨⟨0, 0, List.replicate 12 0 ++ [8, 0] ++ [0x45, 0, 0, len] ++ [0, 0, 0, 0, 0, 6] ++ List.replicate 10 0 ++
    List.replicate 12 0 ++ [0x50] ++ List.replicate 7 0⟩, [], 1, Nat.one_pos⟩

/-- The size of a packet whose IP length is that of its IP header alone is below zero, and the sum of the reported
offset and size is beyond the message; where the IP length is beyond the message, the assertion fails. -/
theorem syn_not_reported : ¬ Reported (syn 20).bytes (pkthdrParse (.copying 1) (syn 20)) ∧
    (pkthdrParse (.copying 1) (syn 20)).size.toNat = 2 ^ 64 - 20 ∧
    ¬ Reported (syn 60).bytes (pkthdrParse (.copying 1) (syn 60)) := by
  refine ⟨fun h => ?_, by decide, fun h => ?_⟩
  · have hty : (pkthdrParse (.copying 1) (syn 20)).pktType = SFXGE_PACKET_TYPE_IPV4_TCP := by decide
    exact absurd (h.inside hty) (by decide)
  · exact absurd h.asserts (by decide)

end Sfxge.Tcp
