import Sfxge.Lib.Counter
import Sfxge.Ev.Sizing

/-!
# Ev.Overflow — when the event queues are large enough

The unread events of a ring stand for descriptors in use, so an event queue holds at most as many as the rings
attached to it may have in use together.  Event queue 0 was sized for its four rings; the others have three, and
were sized for two.
-/

namespace Sfxge.Ev.Sizing

open Lib Tx

variable {d : Dev} {s s' : Sys}

/-! ### What is attached -/

/-- The rings of the event queue `e`. -/
def attached (e : ℕ) : Finset Queue :=
  if e = 0 then {.rx 0, .tx .nonCksum 0, .tx .ipCksum 0, .tx .ipTcpUdpCksum 0}
  else {.rx e, .tx .nonCksum e, .tx .ipTcpUdpCksum e}

theorem stp_eq (nalloc : ℕ) : stp nalloc = (List.range (max nalloc 1)).map (.nonCksum, ·) ++
    (.ipCksum, 0) :: (List.range nalloc).map (.ipTcpUdpCksum, ·) := by
  simp [stp, txScaleMax, List.flatMap_cons]

theorem mem_attached_of_stp {nalloc e : ℕ} {qtype : TxqType} (h : (qtype, e) ∈ stp nalloc) :
    Queue.tx qtype e ∈ attached e := by
  rw [stp_eq] at h
  unfold attached
  rcases List.mem_append.mp h with h | h
  · obtain ⟨i, -, hi⟩ := List.mem_map.mp h
    cases hi
    split_ifs with he
    · simp [he]
    · simp
  · rcases List.mem_cons.mp h with h | h
    · cases h
      simp
    · obtain ⟨i, -, hi⟩ := List.mem_map.mp h
      cases hi
      split_ifs with he
      · simp [he]
      · simp

theorem rx_mem_attached (e : ℕ) : Queue.rx e ∈ attached e := by
  unfold attached
  split_ifs with he
  · simp [he]
  · simp

/-- The powers of two that `sfxge_create` does not limit from above. -/
theorem ISP2.cases {size : U32} (h : ISP2 size) (hlt : size.toNat < 4096) :
    size.toNat ≤ 512 ∨ size.toNat = 1024 ∨ size.toNat = 2048 := by
  by_cases h0 : size.toNat = 0
  · omega
  have hnat := congrArg BitVec.toNat h
  have hsub : (size - 1).toNat = size.toNat - 1 := by
    rw [BitVec.toNat_sub]
    have := size.isLt
    show (2 ^ 32 - 1 + size.toNat) % 2 ^ 32 = _
    omega
  rw [BitVec.toNat_and, hsub] at hnat
  obtain ⟨k, hk⟩ := (Nat.and_sub_one_eq_zero_iff_isPowerOfTwo h0).mp hnat
  have hk12 : k < 12 := by
    rw [hk] at hlt
    exact (Nat.pow_lt_pow_iff_right (by omega)).mp (lt_of_lt_of_eq hlt (by rfl : (4096 : ℕ) = 2 ^ 12))
  rcases Nat.lt_or_ge k 10 with hlow | hhigh
  · have hpow := Nat.pow_le_pow_right (n := 2) (by omega) (show k ≤ 9 by omega)
    omega
  · obtain rfl | rfl : k = 10 ∨ k = 11 := by omega
    · exact Or.inr (Or.inl hk)
    · exact Or.inr (Or.inr hk)

/-- The ring sizes that `sfxge_create` takes. -/
theorem rxqSize_cases (prop : U32) :
    rxqSize prop = 512 ∨ rxqSize prop = 1024 ∨ rxqSize prop = 2048 ∨ rxqSize prop = 4096 := by
  have hmax : EFX_RXQ_MAXNDESCS.toNat = 4096 := rfl
  have hmin : EFX_RXQ_MINNDESCS.toNat = 512 := rfl
  unfold rxqSize
  dsimp only
  rw [hmax, hmin]
  by_cases hp : ISP2 prop
  · rw [if_pos hp]
    by_cases hlt : prop.toNat < 4096
    · have := hp.cases hlt
      omega
    · omega
  · rw [if_neg hp]
    exact Or.inr (Or.inl rfl)

theorem attach_eq {prop : U32} {nalloc : ℕ} (h : attach prop nalloc = .ok d) :
    d = ⟨nalloc, rxqSize prop, pow2Ge (rxqSize prop + 3072), pow2Ge (rxqSize prop + 1024), stp nalloc⟩ := by
  unfold attach evInit txInit at h
  dsimp only [SFXGE_TX_NDESCS] at h
  split_ifs at h
  cases h
  rfl

theorem sum_limit_zero (d : Dev) : ∑ q ∈ attached 0, d.limit q = (d.rxqSize - 16) + (1008 + (1008 + 1008)) := by
  unfold attached
  rw [if_pos rfl, Finset.sum_insert (by simp), Finset.sum_insert (by simp), Finset.sum_insert (by simp),
    Finset.sum_singleton]
  rfl

theorem sum_limit_of_ne (d : Dev) {e : ℕ} (he : e ≠ 0) :
    ∑ q ∈ attached e, d.limit q = (d.rxqSize - 16) + (1008 + 1008) := by
  unfold attached
  rw [if_neg he, Finset.sum_insert (by simp), Finset.sum_insert (by simp), Finset.sum_singleton]
  rfl

/-- The event queues take what is attached to them, but for a small ring on one behind the first. -/
theorem sum_limit_lt {prop : U32} {nalloc : ℕ} (h : attach prop nalloc = .ok d) {e : ℕ}
    (he : e = 0 ∨ 2048 ≤ d.rxqSize) : ∑ q ∈ attached e, d.limit q < d.evqSize e := by
  have hrxq : d.rxqSize = rxqSize prop := by rw [attach_eq h]
  have h0 : d.evq0Size = pow2Ge (rxqSize prop + 3072) := by rw [attach_eq h]
  have hX : d.evqXSize = pow2Ge (rxqSize prop + 1024) := by rw [attach_eq h]
  rw [hrxq] at he
  by_cases hzero : e = 0
  · subst hzero
    rw [sum_limit_zero, hrxq, Dev.evqSize, if_neg (fun hne => hne rfl), h0]
    rcases rxqSize_cases prop with hr | hr | hr | hr <;> rw [hr] <;> decide
  · rw [sum_limit_of_ne d hzero, hrxq, Dev.evqSize, if_pos hzero, hX]
    rcases rxqSize_cases prop with hr | hr | hr | hr <;> rw [hr] at he ⊢
    · omega
    · omega
    · decide
    · decide

/-! ### The events stand for descriptors in use -/

/-- The unread events of a ring are for the descriptors signalled and not seen, and only rings that are attached
have any. -/
structure Booked (d : Dev) (s : Sys) : Prop where
  freed : ∀ q, s.freed q ≤ s.seen q
  signalled : ∀ q, s.signalled q ≤ s.posted q
  posted : ∀ q, s.posted q ≤ s.freed q + d.limit q
  unread : ∀ q, s.seen q + sumOf (s.unread q.evq) q = s.signalled q
  entry : ∀ e, ∀ x ∈ s.unread e, 0 < x.2 ∧ x.1 ∈ attached e ∧ x.1.evq = e
  attached : ∀ q, 0 < s.posted q → q ∈ attached q.evq

theorem Booked.init (count : ℕ) : Booked d (.init count) :=
  ⟨fun _ => le_rfl, fun _ => le_rfl, fun _ => Nat.zero_le _, fun _ => rfl, nofun, fun _ h => absurd h (lt_irrefl 0)⟩

theorem Booked.length_le (h : Booked d s) (e : ℕ) : (s.unread e).length ≤ ∑ q ∈ Sizing.attached e, d.limit q := by
  have hentry := h.entry e
  refine (length_le_sum fun x hx => ⟨(hentry x hx).1, (hentry x hx).2.1⟩).trans (Finset.sum_le_sum fun q hq => ?_)
  have hevq : q.evq = e := by
    unfold Sizing.attached at hq
    split_ifs at hq with he
    · simp only [Finset.mem_insert, Finset.mem_singleton] at hq
      rcases hq with rfl | rfl | rfl | rfl <;> exact he.symm
    · simp only [Finset.mem_insert, Finset.mem_singleton] at hq
      rcases hq with rfl | rfl | rfl <;> rfl
  subst hevq
  have h1 := h.unread q
  have h2 := h.freed q
  have h3 := h.signalled q
  have h4 := h.posted q
  omega

theorem Booked.post (h : Booked d s) {n : ℕ} {q : Queue} (hq : q ∈ Sizing.attached q.evq)
    (hs : s.post d n q = some s') : Booked d s' := by
  unfold Sys.post at hs
  split_ifs at hs with hfit
  cases hs
  refine ⟨h.freed, fun q' => ?_, fun q' => ?_, h.unread, h.entry, fun q' hpos => ?_⟩
  · show _ ≤ Function.update s.posted q (s.posted q + n) q'
    by_cases hqq : q' = q
    · subst hqq
      rw [Function.update_self]
      exact (h.signalled q').trans (Nat.le_add_right _ _)
    · rw [Function.update_of_ne hqq]
      exact h.signalled q'
  · show Function.update s.posted q (s.posted q + n) q' ≤ _
    by_cases hqq : q' = q
    · subst hqq
      rw [Function.update_self]
      exact hfit
    · rw [Function.update_of_ne hqq]
      exact h.posted q'
  · by_cases hqq : q' = q
    · subst hqq
      exact hq
    · change 0 < Function.update s.posted q (s.posted q + n) q' at hpos
      rw [Function.update_of_ne hqq] at hpos
      exact h.attached q' hpos

theorem Booked.signal (h : Booked d s) {q : Queue} {k : ℕ} (hk : 0 < k) (hle : s.signalled q + k ≤ s.posted q) :
    Booked d (s.signal q k) := by
  refine ⟨h.freed, fun q' => ?_, h.posted, fun q' => ?_, fun e x hx => ?_, h.attached⟩
  · show Function.update s.signalled q (s.signalled q + k) q' ≤ _
    by_cases hqq : q' = q
    · subst hqq
      rw [Function.update_self]
      exact hle
    · rw [Function.update_of_ne hqq]
      exact h.signalled q'
  · show s.seen q' + sumOf (Function.update s.unread q.evq (s.unread q.evq ++ [(q, k)]) q'.evq) q' =
      Function.update s.signalled q (s.signalled q + k) q'
    have hold := h.unread q'
    have hone : sumOf [(q, k)] q' = if q = q' then k else 0 := by
      rw [sumOf_cons]
      rfl
    by_cases hevq : q'.evq = q.evq
    · rw [hevq, Function.update_self, sumOf_append, hone, ← hevq]
      by_cases hqq : q' = q
      · subst hqq
        rw [Function.update_self, if_pos rfl]
        omega
      · rw [Function.update_of_ne hqq, if_neg (Ne.symm hqq)]
        exact hold
    · have hqq : q' ≠ q := fun hqq => hevq (by rw [hqq])
      rw [Function.update_of_ne hevq, Function.update_of_ne hqq]
      exact hold
  · change x ∈ Function.update s.unread q.evq (s.unread q.evq ++ [(q, k)]) e at hx
    by_cases he : e = q.evq
    · subst he
      rw [Function.update_self] at hx
      rcases List.mem_append.mp hx with hx | hx
      · exact h.entry _ x hx
      · rw [List.mem_singleton.mp hx]
        exact ⟨hk, h.attached q (by omega), rfl⟩
    · rw [Function.update_of_ne he] at hx
      exact h.entry e x hx

theorem Booked.read (h : Booked d s) {e k : ℕ} {q : Queue} {rest : List (Queue × ℕ)}
    (hun : s.unread e = (q, k) :: rest) : Booked d (s.read e q k rest) := by
  have hevq : q.evq = e := (h.entry e (q, k) (by rw [hun]; simp)).2.2
  subst hevq
  refine ⟨fun q' => ?_, h.signalled, h.posted, fun q' => ?_, fun e x hx => ?_, h.attached⟩
  · show _ ≤ Function.update s.seen q (s.seen q + k) q'
    by_cases hqq : q' = q
    · subst hqq
      rw [Function.update_self]
      exact (h.freed q').trans (Nat.le_add_right _ _)
    · rw [Function.update_of_ne hqq]
      exact h.freed q'
  · show Function.update s.seen q (s.seen q + k) q' + sumOf (Function.update s.unread q.evq rest q'.evq) q' =
      s.signalled q'
    have hold := h.unread q'
    by_cases hevq : q'.evq = q.evq
    · rw [hevq, hun, sumOf_cons] at hold
      rw [hevq, Function.update_self]
      by_cases hqq : q' = q
      · subst hqq
        rw [if_pos rfl] at hold
        rw [Function.update_self]
        omega
      · rw [if_neg (Ne.symm hqq), Nat.zero_add] at hold
        rw [Function.update_of_ne hqq]
        exact hold
    · have hqq : q' ≠ q := fun hqq => hevq (by rw [hqq])
      rw [Function.update_of_ne hevq, Function.update_of_ne hqq]
      exact hold
  · change x ∈ Function.update s.unread q.evq rest e at hx
    by_cases he : e = q.evq
    · subst he
      rw [Function.update_self] at hx
      exact h.entry _ x (by rw [hun]; exact List.mem_cons_of_mem _ hx)
    · rw [Function.update_of_ne he] at hx
      exact h.entry e x hx

theorem Booked.free (h : Booked d s) {q : Queue} {n : ℕ} (hle : s.freed q + n ≤ s.seen q) :
    Booked d { s with freed := Function.update s.freed q (s.freed q + n) } := by
  refine ⟨fun q' => ?_, h.signalled, fun q' => ?_, h.unread, h.entry, h.attached⟩
  · show Function.update s.freed q (s.freed q + n) q' ≤ _
    by_cases hqq : q' = q
    · subst hqq
      rw [Function.update_self]
      exact hle
    · rw [Function.update_of_ne hqq]
      exact h.freed q'
  · show s.posted q' ≤ Function.update s.freed q (s.freed q + n) q' + d.limit q'
    have hold := h.posted q'
    by_cases hqq : q' = q
    · subst hqq
      rw [Function.update_self]
      omega
    · rw [Function.update_of_ne hqq]
      exact hold

/-- The RSS table is not in the books. -/
theorem Booked.scale (h : Booked d s) (started : Bool) (count : ℕ) (tbl : ℕ → ℕ) :
    Booked d { s with srsStarted := started, srsCount := count, srsTbl := tbl } :=
  ⟨h.freed, h.signalled, h.posted, h.unread, h.entry, h.attached⟩

theorem step_booked {prop : U32} {nalloc : ℕ} (hd : attach prop nalloc = .ok d) (o : Op) (s s' : Sys)
    (h : Booked d s) (hs : step d o s = some s') : Booked d s' := by
  have hstp : d.stp = stp nalloc := by rw [attach_eq hd]
  cases o with
  | rxPost index n =>
    simp only [step] at hs
    split_ifs at hs
    exact h.post (rx_mem_attached index) hs
  | packet fullCksum ipv4HdrCksum hash n =>
    obtain ⟨q, hq, hpost⟩ := Option.bind_eq_some_iff.mp hs
    obtain ⟨⟨qtype, e⟩, hmem, rfl⟩ := Option.map_eq_some_iff.mp hq
    have hstp' : (qtype, e) ∈ stp nalloc := by
      rw [← hstp]
      exact List.mem_of_getElem? hmem
    exact h.post (mem_attached_of_stp hstp') hpost
  | signal q k =>
    simp only [step] at hs
    split_ifs at hs with hk
    cases hs
    exact h.signal hk.1 hk.2
  | read e =>
    simp only [step] at hs
    split at hs
    · cases hs
    · rename_i q k rest hun
      cases hs
      exact h.read hun
  | free q n =>
    simp only [step] at hs
    split_ifs at hs with hle
    cases hs
    exact h.free hle
  | scaleStart =>
    simp only [step] at hs
    split_ifs at hs
    cases hs
    exact h.scale _ _ _
  | scaleCountSet count =>
    simp only [step] at hs
    split_ifs at hs
    cases hs
    exact h.scale _ _ _
  | scaleUpdate tbl =>
    simp only [step] at hs
    split_ifs at hs
    cases hs
    exact h.scale _ _ _
  | scaleStop =>
    simp only [step] at hs
    split_ifs at hs
    cases hs
    exact h.scale _ _ _
  | restart =>
    cases hs
    exact Booked.init _

/-- Event queues that take what is attached to them do not overflow. -/
theorem fits_of_large {prop : U32} {nalloc : ℕ} (hd : attach prop nalloc = .ok d)
    (hlarge : nalloc ≤ 1 ∨ 2048 ≤ d.rxqSize) (count : ℕ) (os : List Op) :
    AlwaysAlong (step d) (Fits d) os (.init count) := by
  refine alwaysAlong_of_inv (step_booked hd) (fun s h e he => ?_) os (Booked.init count)
  have hnalloc : d.nalloc = nalloc := by rw [attach_eq hd]
  refine lt_of_le_of_lt (h.length_le e) (sum_limit_lt hd (hlarge.imp_left fun h1 => ?_))
  omega

/-! ### An event queue that overflows -/

/-- An event for each of the next `n` descriptors of a ring. -/
theorem run_signals (n : ℕ) {q : Queue} (hle : s.signalled q + n ≤ s.posted q) :
    ∃ s', runOps (step d) (List.replicate n (.signal q 1)) s = some s' ∧ s'.posted = s.posted ∧
      (∀ q', q' ≠ q → s'.signalled q' = s.signalled q') ∧
      (s'.unread q.evq).length = (s.unread q.evq).length + n := by
  induction n generalizing s with
  | zero => exact ⟨s, rfl, rfl, fun _ _ => rfl, rfl⟩
  | succ n ih =>
    have hstep : step d (.signal q 1) s = some (s.signal q 1) := if_pos ⟨Nat.one_pos, by omega⟩
    have hsig : (s.signal q 1).signalled q = s.signalled q + 1 := Function.update_self ..
    have hun : ((s.signal q 1).unread q.evq).length = (s.unread q.evq).length + 1 := by
      show (Function.update s.unread q.evq (s.unread q.evq ++ [(q, 1)]) q.evq).length = _
      rw [Function.update_self, List.length_append, List.length_singleton]
    obtain ⟨s', hrun, hpost, hother, hlen⟩ := ih (s := s.signal q 1) (by rw [hsig]; exact le_trans (by omega) hle)
    refine ⟨s', ?_, hpost, fun q' hq' => ?_, ?_⟩
    · rw [List.replicate_succ, runOps, hstep]
      exact hrun
    · rw [hother q' hq']
      exact Function.update_of_ne hq' ..
    · rw [hlen, hun]
      omega

/-- The rings of event queue 1 are filled, and all of it is signalled. -/
def fill : List Op :=
  [.scaleStart, .scaleCountSet 1, .scaleUpdate [1], .packet true false none 1008, .packet false false none 1008,
    .rxPost 1 32]

def flood : List Op :=
  fill ++ (List.replicate 1008 (.signal (.tx .ipTcpUdpCksum 1) 1) ++
    (List.replicate 1008 (.signal (.tx .nonCksum 1) 1) ++ List.replicate 32 (.signal (.rx 1) 1)))

theorem packetQueue_full {nalloc : ℕ} (hn : d.nalloc = nalloc) (hstp : d.stp = stp nalloc) (h2 : 2 ≤ nalloc)
    (hidx : s.scaleIndex none = 1) : s.packetQueue d true false none = some (.tx .ipTcpUdpCksum 1) := by
  have hget : (stp nalloc)[max nalloc 1 + 1 + 1]? = some (.ipTcpUdpCksum, 1) := by
    rw [stp_eq, List.getElem?_append_right (by simp; omega)]
    simp [show max nalloc 1 + 1 + 1 - max nalloc 1 = 1 + 1 by omega, show 1 < nalloc by omega]
  rw [Sys.packetQueue, hidx, hn, hstp, if_pos rfl]
  dsimp only [txScaleBase, txScaleMax]
  rw [hget]
  rfl

theorem packetQueue_none {nalloc : ℕ} (hstp : d.stp = stp nalloc) (h2 : 2 ≤ nalloc)
    (hidx : s.scaleIndex none = 1) : s.packetQueue d false false none = some (.tx .nonCksum 1) := by
  have hget : (stp nalloc)[0 + 1]? = some (.nonCksum, 1) := by
    rw [stp_eq, List.getElem?_append_left (by simp; omega)]
    simp [show 1 < nalloc by omega]
  rw [Sys.packetQueue, hidx, hstp, if_neg Bool.false_ne_true, if_neg Bool.false_ne_true]
  dsimp only [txScaleBase]
  rw [hget]
  rfl

theorem post_of_fits {n : ℕ} {q : Queue} (h : s.posted q + n ≤ s.freed q + d.limit q) :
    s.post d n q = some { s with posted := Function.update s.posted q (s.posted q + n) } := if_pos h

theorem run_fill {prop : U32} {nalloc : ℕ} (hd : attach prop nalloc = .ok d) (hmany : 2 ≤ nalloc) (count : ℕ) :
    ∃ s, runOps (step d) fill (.init count) = some s ∧ (∀ q, s.signalled q = 0) ∧ s.unread 1 = [] ∧
      s.posted (.tx .ipTcpUdpCksum 1) = 1008 ∧ s.posted (.tx .nonCksum 1) = 1008 ∧ s.posted (.rx 1) = 32 := by
  have hn : d.nalloc = nalloc := by rw [attach_eq hd]
  have hstp : d.stp = stp nalloc := by rw [attach_eq hd]
  have hrxq : 32 ≤ d.rxqSize - 16 := by
    rw [show d.rxqSize = rxqSize prop by rw [attach_eq hd]]
    have := rxqSize_cases prop
    omega
  let s1 : Sys :=
    { Sys.init count with
      srsStarted := true
      srsCount := 1
      srsTbl := fun entry => [1].getD (entry % 1) 0 }
  let s2 : Sys :=
    { s1 with
      posted := Function.update s1.posted (.tx .ipTcpUdpCksum 1) (s1.posted (.tx .ipTcpUdpCksum 1) + 1008) }
  let s3 : Sys :=
    { s2 with
      posted := Function.update s2.posted (.tx .nonCksum 1) (s2.posted (.tx .nonCksum 1) + 1008) }
  let s4 : Sys :=
    { s3 with
      posted := Function.update s3.posted (.rx 1) (s3.posted (.rx 1) + 32) }
  have hlimit : ∀ qtype, d.limit (.tx qtype 1) = 1008 := fun _ => rfl
  have hidx1 : s1.scaleIndex none = 1 := rfl
  have hidx2 : s2.scaleIndex none = 1 := rfl
  have h1 : runOps (step d) [.scaleStart, .scaleCountSet 1, .scaleUpdate [1]] (.init count) = some s1 := by
    have hset : 1 ≤ 1 ∧ 1 ≤ d.nalloc := by omega
    have hupd : ∀ index ∈ [1], index < d.nalloc := by
      intro index hi
      rw [List.mem_singleton.mp hi]
      omega
    simp [runOps, step, Sys.init, hset, hupd, s1]
  have h2 : step d (.packet true false none 1008) s1 = some s2 := by
    have hfit : s1.posted (.tx .ipTcpUdpCksum 1) + 1008 ≤ s1.freed (.tx .ipTcpUdpCksum 1) +
        d.limit (.tx .ipTcpUdpCksum 1) := by rw [hlimit]; exact le_rfl
    rw [step, packetQueue_full hn hstp hmany hidx1, Option.bind_some, post_of_fits hfit]
  have h3 : step d (.packet false false none 1008) s2 = some s3 := by
    have hfit : s2.posted (.tx .nonCksum 1) + 1008 ≤ s2.freed (.tx .nonCksum 1) + d.limit (.tx .nonCksum 1) := by
      rw [hlimit]
      exact le_rfl
    rw [step, packetQueue_none hstp hmany hidx2, Option.bind_some, post_of_fits hfit]
  have h4 : step d (.rxPost 1 32) s3 = some s4 := by
    rw [step, if_pos (by omega)]
    refine post_of_fits ?_
    show 0 + 32 ≤ 0 + (d.rxqSize - 16)
    omega
  refine ⟨s4, ?_, fun _ => rfl, rfl, rfl, rfl, rfl⟩
  rw [fill, show ∀ os : List Op, Op.scaleStart :: .scaleCountSet 1 :: .scaleUpdate [1] :: os =
    [.scaleStart, .scaleCountSet 1, .scaleUpdate [1]] ++ os from fun _ => rfl, runOps_append h1]
  simp only [runOps, h2, h3, h4, Option.bind_some]

/-- With a small ring, event queue 1 overflows. -/
theorem overflows {prop : U32} {nalloc : ℕ} (hd : attach prop nalloc = .ok d) (hmany : 2 ≤ nalloc)
    (hsmall : d.rxqSize < 2048) (count : ℕ) : ¬ AlwaysAlong (step d) (Fits d) flood (.init count) := by
  obtain ⟨s, hfill, hsig, hun, hfull, hnone, hrx⟩ := run_fill hd hmany count
  obtain ⟨s1, hrun1, hpost1, hsig1, hlen1⟩ :=
    run_signals (d := d) (s := s) 1008 (q := .tx .ipTcpUdpCksum 1) (by rw [hsig, hfull])
  obtain ⟨s2, hrun2, hpost2, hsig2, hlen2⟩ := run_signals (d := d) (s := s1) 1008 (q := .tx .nonCksum 1)
    (by rw [hsig1 _ (by decide), hsig, hpost1, hnone])
  obtain ⟨s3, hrun3, -, -, hlen3⟩ := run_signals (d := d) (s := s2) 32 (q := .rx 1)
    (by rw [hsig2 _ (by decide), hsig1 _ (by decide), hsig, hpost2, hpost1, hrx])
  have hrun : runOps (step d) flood (.init count) = some s3 := by
    rw [flood, runOps_append hfill, runOps_append hrun1, runOps_append hrun2, hrun3]
  have hlen : (s3.unread 1).length = 2048 := by
    rw [show s3.unread 1 = s3.unread (Queue.rx 1).evq from rfl, hlen3]
    rw [show s2.unread (Queue.rx 1).evq = s2.unread (Queue.tx .nonCksum 1).evq from rfl, hlen2]
    rw [show s1.unread (Queue.tx .nonCksum 1).evq = s1.unread (Queue.tx .ipTcpUdpCksum 1).evq from rfl, hlen1]
    rw [show s.unread (Queue.tx .ipTcpUdpCksum 1).evq = s.unread 1 from rfl, hun]
    rfl
  have hsize : d.evqSize 1 ≤ 2048 := by
    have hrxq : d.rxqSize = rxqSize prop := by rw [attach_eq hd]
    have hX : d.evqXSize = pow2Ge (rxqSize prop + 1024) := by rw [attach_eq hd]
    rw [Dev.evqSize, if_pos Nat.one_ne_zero, hX]
    rw [hrxq] at hsmall
    rcases rxqSize_cases prop with hr | hr | hr | hr <;> rw [hr] at hsmall ⊢
    · decide
    · decide
    · omega
    · omega
  intro h
  have hfits := h.last hrun 1 (by rw [attach_eq hd]; exact hmany)
  omega

/-- **The event queues never overflow** exactly when there is one interrupt, or a ring of at least 2048
descriptors. -/
theorem evqs_fit_iff {prop : U32} {nalloc : ℕ} (hd : attach prop nalloc = .ok d) :
    (∀ (scale : ℕ) (os : List Op), AlwaysAlong (step d) (Fits d) os (.init (scaleInit nalloc scale))) ↔
      nalloc ≤ 1 ∨ 2048 ≤ rxqSize prop := by
  have hrxq : d.rxqSize = rxqSize prop := by rw [attach_eq hd]
  rw [← hrxq]
  constructor
  · intro h
    by_contra hno
    exact overflows hd (by omega) (by omega) _ (h 0 flood)
  · exact fun hlarge scale os => fits_of_large hd hlarge _ os

/-- The default ring size, with two interrupts. -/
def twoInterrupts : Dev := ⟨2, 1024, 4096, 2048, stp 2⟩

theorem attach_twoInterrupts : attach SFXGE_DEFAULT_RXQ_SIZE 2 = .ok twoInterrupts := by decide +kernel

theorem evqs_fit_two : (∀ (scale : ℕ) (os : List Op), AlwaysAlong (step twoInterrupts) (Fits twoInterrupts) os
    (.init (scaleInit 2 scale))) ↔ 2 ≤ 1 ∨ 2048 ≤ rxqSize SFXGE_DEFAULT_RXQ_SIZE :=
  evqs_fit_iff attach_twoInterrupts

/-- Event queue 1 has 2048 slots and gets as many events. -/
theorem default_overflows : ¬ AlwaysAlong (step twoInterrupts) (Fits twoInterrupts) flood (.init (scaleInit 2 2)) :=
  overflows attach_twoInterrupts le_rfl (by decide) _

end Sfxge.Ev.Sizing
