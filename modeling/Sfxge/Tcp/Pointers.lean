import Sfxge.Tcp.Bounds

/-!
# Tcp.Pointers — the header pointers of a parse

Each pull-up that is carried out leaves the headers that were found before it in another data block.  The pointers to
them are not made anew.
-/

namespace Sfxge.Tcp

open Lib PacketType

variable {kernel : Pullupmsg} {mp mp' m : Msg} {bs : Bytes} {lens : List ℕ} {p : Pkthdr} {q : Ptr}

/-! ### Pointers -/

/-- The pointer is to a byte of the first block. -/
def Msg.Holds (mp : Msg) (q : Ptr) : Prop :=
  q.bDatap = mp.first.bDatap ∧ mp.first.bRptr ≤ q.off ∧ q.off < mp.first.bRptr + mp.mblkl

theorem Msg.holds_rptr {k : ℕ} (h : k < mp.mblkl) : mp.Holds (mp.rptr k) :=
  ⟨rfl, Nat.le_add_right _ _, Nat.add_lt_add_left h _⟩

/-- The pointers that are returned are all into the first block of the message. -/
structure Pkthdr.Pointed (p : Pkthdr) : Prop where
  etherhp : ∀ q, p.etherhp = some q → p.mp.Holds q
  iphp : ∀ q, p.iphp = some q → p.mp.Holds q
  thp : ∀ q, p.thp = some q → p.mp.Holds q

/-! ### What a parse demands -/

/-- The lengths that the parse demands after the MAC header has been found, one after another. -/
def transportDemands (bs : Bytes) : List ℕ :=
  let off := etherHs bs + ipHs bs
  if ipP bs = IPPROTO_TCP then [off + 20, off + thHs bs]
  else if ipP bs = IPPROTO_UDP then [off + 8, off + 8]
  else if ipP bs = IPPROTO_SCTP then [off + 12, off + 12]
  else [off]

def ipv4Demands (bs : Bytes) : List ℕ :=
  if etherType bs ≠ ETHERTYPE_IP then []
  else (etherHs bs + 20) :: if ipV bs ≠ IPV4_VERSION then [] else transportDemands bs

def laterDemands (bs : Bytes) : List ℕ := (if tagged bs then [18] else []) ++ ipv4Demands bs

/-- None of the demands pulls anything up: those before the first that is beyond the first block are met by it, and that
one cannot be. -/
def Pullupmsg.Still (kernel : Pullupmsg) (mp : Msg) : List ℕ → Prop
  | [] => True
  | len :: lens => if mp.mblkl < len then kernel.run mp len = none else kernel.Still mp lens

/-! ### What becomes of the pointers -/

/-- The MAC header was found in `m`, and the first block is in a data block that was allocated later. -/
structure Pkthdr.Lost (m : Msg) (p : Pkthdr) : Prop where
  etherhp : p.etherhp = some (m.rptr 0)
  later : m.allocated ≤ p.mp.first.bDatap

/-- The pointer to the MAC header is left behind. -/
theorem Pkthdr.Lost.not_pointed (h : p.Lost m) : ¬ p.Pointed := by
  intro hq
  have heq : m.first.bDatap = p.mp.first.bDatap := (hq.etherhp _ h.etherhp).1
  exact absurd (m.known.trans_le h.later) (by rw [heq]; exact lt_irrefl _)

/-- A parse that goes on from the message `m` leaves it, and points into it, if nothing is pulled up; otherwise the first
block is another. -/
structure Follows (kernel : Pullupmsg) (m : Msg) (lens : List ℕ) (p : Pkthdr) : Prop where
  still : kernel.Still m lens → p.mp = m ∧ p.Pointed
  lost : ¬ kernel.Still m lens → p.Lost m

theorem follows_nil (hp : p.mp = m) (hq : p.Pointed) : Follows kernel m [] p :=
  ⟨fun _ => ⟨hp, hq⟩, fun h => absurd trivial h⟩

/-- A demand of the parse. -/
theorem follows_demand {len : ℕ} {f : Msg → Pkthdr} (hp : p.mp = m) (hq : p.Pointed)
    (hmet : len ≤ m.mblkl → Follows kernel m lens (f m))
    (hlost : ∀ mp', m.allocated ≤ mp'.first.bDatap → (f mp').Lost m) :
    Follows kernel m (len :: lens) (match kernel.demand p.mp len with | none => p | some mp' => f mp') := by
  rw [hp]
  by_cases hlt : m.mblkl < len
  · have hstill : kernel.Still m (len :: lens) ↔ kernel.run m len = none := by rw [Pullupmsg.Still, if_pos hlt]
    rw [show kernel.demand m len = kernel.run m len from if_pos hlt]
    cases hr : kernel.run m len with
    | none => exact ⟨fun _ => ⟨hp, hq⟩, fun h => absurd (hstill.mpr hr) h⟩
    | some mp' =>
      refine ⟨fun h => ?_, fun _ => hlost mp' (kernel.anew hr hlt)⟩
      rw [hstill, hr] at h
      cases h
  · have hstill : kernel.Still m (len :: lens) ↔ kernel.Still m lens := by rw [Pullupmsg.Still, if_neg hlt]
    rw [show kernel.demand m len = some m from if_neg hlt]
    have h := hmet (Nat.le_of_not_lt hlt)
    exact ⟨fun hs => h.still (hstill.mp hs), fun hs => h.lost (mt hstill.mpr hs)⟩

/-! ### Once the first block is another -/

theorem later_demand {len : ℕ} (h : m.allocated ≤ mp.first.bDatap) (hd : kernel.demand mp len = some mp') :
    m.allocated ≤ mp'.first.bDatap := by
  unfold Pullupmsg.demand at hd
  split_ifs at hd with hlt
  · exact h.trans (mp.known.le.trans (kernel.anew hd hlt))
  · cases hd
    exact h

theorem Pkthdr.Lost.pullupHeaders (h : p.Lost m) : (pullupHeaders kernel p).Lost m := by
  unfold Tcp.pullupHeaders
  split
  · exact h
  · exact ⟨h.etherhp, later_demand h.later (by assumption)⟩

theorem Pkthdr.Lost.parseTransport {pktType : PacketType} {hdr sport dport : ℕ} {hs : Msg → ℕ → ℕ} (h : p.Lost m) :
    (parseTransport kernel pktType hdr sport dport hs p).Lost m := by
  unfold Tcp.parseTransport
  split
  · exact h
  · exact Pkthdr.Lost.pullupHeaders ⟨h.etherhp, later_demand h.later (by assumption)⟩

theorem Pkthdr.Lost.parseIp {k : ℕ} (h : p.Lost m) : (parseIp kernel k p).Lost m := by
  unfold Tcp.parseIp
  dsimp only
  split_ifs
  · exact ⟨h.etherhp, h.later⟩
  · exact Pkthdr.Lost.parseTransport ⟨h.etherhp, h.later⟩
  · exact Pkthdr.Lost.parseTransport ⟨h.etherhp, h.later⟩
  · exact Pkthdr.Lost.parseTransport ⟨h.etherhp, h.later⟩
  · exact Pkthdr.Lost.pullupHeaders ⟨h.etherhp, h.later⟩

theorem Pkthdr.Lost.skipMac {k ty : ℕ} (h : p.Lost m) : (skipMac kernel k ty p).Lost m := by
  unfold Tcp.skipMac
  split_ifs
  · exact h
  · dsimp only
    split
    · exact ⟨h.etherhp, h.later⟩
    · exact Pkthdr.Lost.parseIp ⟨h.etherhp, later_demand h.later (by assumption)⟩

/-! ### The parse, header by header -/

theorem Pkthdr.Pointed.congr {p' : Pkthdr} (h : p.Pointed) (hmp : p'.mp = p.mp) (he : p'.etherhp = p.etherhp)
    (hi : ∀ q, p'.iphp = some q → p.mp.Holds q) (ht : ∀ q, p'.thp = some q → p.mp.Holds q) : p'.Pointed := by
  refine ⟨fun q hq => ?_, fun q hq => ?_, fun q hq => ?_⟩
  all_goals rw [hmp]
  · exact h.etherhp q (he ▸ hq)
  · exact hi q hq
  · exact ht q hq

theorem follows_pullupHeaders {k : ℕ} (hk : p.off = k) (hp : p.mp = m) (hq : p.Pointed)
    (he : p.etherhp = some (m.rptr 0)) : Follows kernel m [k] (pullupHeaders kernel p) := by
  subst hk
  refine follows_demand hp hq (fun _ => follows_nil rfl ?_) fun _ h => ⟨he, h⟩
  exact hq.congr hp.symm rfl hq.iphp hq.thp

theorem follows_parseTransport {pktType : PacketType} {hdr sport dport k l : ℕ} {hs : Msg → ℕ → ℕ} (hhdr : 0 < hdr)
    (hk : p.off = k) (hl : k + hdr ≤ m.mblkl → k + hs m k = l) (hp : p.mp = m) (hq : p.Pointed)
    (he : p.etherhp = some (m.rptr 0)) :
    Follows kernel m [k + hdr, l] (parseTransport kernel pktType hdr sport dport hs p) := by
  subst hk
  refine follows_demand hp hq (fun hheld => follows_pullupHeaders (hl hheld) rfl ?_ he) fun mp' h => ?_
  · refine hq.congr hp.symm rfl hq.iphp fun q hth => ?_
    dsimp only at hth
    split_ifs at hth
    cases hth
    rw [hp]
    exact Msg.holds_rptr (by omega)
  · exact Pkthdr.Lost.pullupHeaders ⟨he, h⟩

theorem follows_parseIp (hbs : m.bytes = bs) (hoff : p.off = etherHs bs) (hheld : etherHs bs + 20 ≤ m.mblkl)
    (hp : p.mp = m) (hq : p.Pointed) (he : p.etherhp = some (m.rptr 0)) :
    Follows kernel m (if ipV bs ≠ IPV4_VERSION then [] else transportDemands bs)
      (parseIp kernel (etherHs bs) p) := by
  have hbe : ∀ q n, q + n ≤ 20 → p.mp.be (p.off + q) n = getBe bs (etherHs bs + q) n := by
    intro q n hq
    rw [hp, Msg.be_eq (by omega), hbs, hoff]
  have hhl : p.mp.be p.off 1 = getBe bs (etherHs bs) 1 := hbe 0 1 (by decide)
  have hproto : p.mp.be (p.off + 9) 1 = ipP bs := hbe 9 1 (by decide)
  unfold parseIp transportDemands
  dsimp only
  rw [hhl, hproto]
  change Follows kernel m (if ipV bs ≠ IPV4_VERSION then [] else _) (if ipV bs ≠ IPV4_VERSION then _ else _)
  have hiphp : ∀ q, some (p.mp.rptr p.off) = some q → p.mp.Holds q := by
    rintro q ⟨⟩
    exact Msg.holds_rptr (by rw [hp, hoff]; omega)
  have hoff' : p.off + getBe bs (etherHs bs) 1 % 16 * 4 = etherHs bs + ipHs bs := congrArg (· + ipHs bs) hoff
  split_ifs
  · exact follows_nil hp (hq.congr rfl rfl hiphp hq.thp)
  · refine follows_parseTransport (by decide) hoff' (fun h => ?_) hp (hq.congr rfl rfl hiphp hq.thp) he
    rw [Msg.be_eq (by omega), hbs]
    rfl
  · exact follows_parseTransport (by decide) hoff' (fun h => rfl) hp (hq.congr rfl rfl hiphp hq.thp) he
  · exact follows_parseTransport (by decide) hoff' (fun h => rfl) hp (hq.congr rfl rfl hiphp hq.thp) he
  · exact follows_pullupHeaders hoff' hp (hq.congr rfl rfl hiphp hq.thp) he

theorem follows_skipMac {k ty : ℕ} (hbs : m.bytes = bs) (hk : k = etherHs bs) (hty : ty = etherType bs)
    (hp : p.mp = m) (hq : p.Pointed) (he : p.etherhp = some (m.rptr 0)) :
    Follows kernel m (ipv4Demands bs) (skipMac kernel k ty p) := by
  subst hk hty
  unfold skipMac ipv4Demands
  by_cases h : etherType bs = ETHERTYPE_IP
  swap
  · rw [if_pos h, if_pos h]
    exact follows_nil hp hq
  rw [if_neg (not_not.mpr h), if_neg (not_not.mpr h)]
  have hq' : ({ p with off := etherHs bs } : Pkthdr).Pointed := hq.congr rfl rfl hq.iphp hq.thp
  refine follows_demand (p := { p with off := etherHs bs }) hp hq' (fun hheld => ?_) fun mp' h => ?_
  · refine follows_parseIp hbs rfl hheld rfl ?_ he
    exact hq.congr hp.symm rfl hq.iphp hq.thp
  · exact Pkthdr.Lost.parseIp ⟨he, h⟩

theorem follows_parseMac (hbs : m.bytes = bs) (hheld : 14 ≤ m.mblkl) :
    Follows kernel m (laterDemands bs) (parseMac kernel (.start m)) := by
  have h12 : m.be 12 2 = getBe bs 12 2 := by rw [Msg.be_eq (by omega), hbs]
  have hq : ({ Pkthdr.start m with etherhp := some (m.rptr 0) } : Pkthdr).Pointed := by
    refine ⟨?_, nofun, nofun⟩
    rintro q ⟨⟩
    exact Msg.holds_rptr (lt_of_lt_of_le (by decide) hheld)
  unfold parseMac laterDemands
  dsimp only [Pkthdr.start]
  rw [h12]
  by_cases htag : getBe bs 12 2 = ETHERTYPE_VLAN
  · have htagged : tagged bs = true := decide_eq_true htag
    rw [if_pos htag, if_pos htagged, List.cons_append, List.nil_append]
    refine follows_demand (p := { Pkthdr.start m with etherhp := some (m.rptr 0) }) rfl hq (fun hheld => ?_)
      fun mp' h => Pkthdr.Lost.skipMac ⟨rfl, h⟩
    refine follows_skipMac hbs ?_ ?_ rfl hq rfl
    · rw [etherHs, if_pos htagged]
    · rw [Msg.be_eq (by omega), hbs, etherType, if_pos htagged]
  · have htagged : tagged bs = false := decide_eq_false htag
    rw [if_neg htag, htagged]
    refine follows_skipMac hbs ?_ ?_ rfl hq rfl
    · rw [etherHs, htagged]
      rfl
    · rw [etherType, htagged]
      rfl

/-- The pull-ups after that of the MAC header, if any, fail. -/
def Settled (kernel : Pullupmsg) (mp : Msg) : Prop :=
  ∀ m, kernel.demand mp 14 = some m → kernel.Still m (laterDemands mp.bytes)

/-- **The header pointers.**  They are into the first block of the message as it is left exactly if no pull-up is carried
out once the MAC header has been found. -/
theorem pkthdrParse_pointed_iff (kernel : Pullupmsg) (mp : Msg) :
    (pkthdrParse kernel mp).Pointed ↔ Settled kernel mp := by
  unfold pkthdrParse Settled
  cases hd : kernel.demand mp 14 with
  | none => exact iff_of_true ⟨nofun, nofun, nofun⟩ nofun
  | some m =>
    have h : Follows kernel m _ (parseMac kernel (.start m)) :=
      follows_parseMac (Pullupmsg.demand_bytes hd) (Pullupmsg.demand_held hd)
    constructor
    · rintro hq _ ⟨⟩
      exact not_not.mp fun hs => (h.lost hs).not_pointed hq
    · exact fun hs => (h.still (hs m rfl)).2

/-- A TCP packet whose MAC header is a block of its own. -/
def splitMac (mp : Msg) : Msg :=
  { mp with
    first := { mp.first with data := mp.first.data.take 14 }
    bCont := [{ mp.first with data := mp.first.data.drop 14 }] }

/-- The pull-up of the IP header leaves the pointer to the MAC header behind. -/
theorem splitMac_not_pointed : ¬ (pkthdrParse (.copying 9) (splitMac (syn 40))).Pointed :=
  fun h => absurd (h.etherhp ⟨0, 0⟩ (by decide)).1 (by decide)

end Sfxge.Tcp
