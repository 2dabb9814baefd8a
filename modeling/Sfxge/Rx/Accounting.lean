import Mathlib.Algebra.Order.BigOperators.Group.Finset
import Mathlib.Data.Fintype.BigOperators
import Sfxge.Rx.Queue

/-!
# Rx.Accounting — where the packets of a receive queue are

Every packet is in one place: posted in the ring, in the get list or a put list of the free packet pool, or
on loan to the stack.  The ring is a window on the list of all packets ever posted (`Ring`); the counts of
the pool's lists are their lengths, and the count of loans is what the stack and the put lists hold, up to
the packets that were preallocated or lost (`Pool`).
-/

namespace Sfxge.Rx

open Lib RxqState

/-! ### Counters and slots -/

section

variable (cfg : Config)

theorem Config.size_dvd : cfg.size ∣ 2 ^ 32 := Nat.pow_dvd_pow 2 (by have := cfg.le_31; omega)

theorem Config.le_size : 32 ≤ cfg.size := Nat.pow_le_pow_right (n := 2) (by omega) cfg.five_le

theorem Config.size_le : cfg.size ≤ 2 ^ 31 := Nat.pow_le_pow_right (by omega) cfg.le_31

theorem Config.slot_eq (i : U32) : cfg.slot i = i.toNat % cfg.size :=
  and_mask (by have := cfg.le_31; omega) i

theorem Config.slot_idx (b j : ℕ) : cfg.slot (idx 32 b j) = (b + j) % cfg.size := by
  rw [cfg.slot_eq, idx_mod cfg.size_dvd]

theorem Config.slot_lt (i : U32) : cfg.slot i < cfg.size := by
  rw [cfg.slot_eq]
  exact Nat.mod_lt _ (Nat.two_pow_pos _)

theorem Config.limit_toNat : cfg.limit.toNat = cfg.size - 16 := by
  have := cfg.size_le
  rw [Config.limit, EFX_RXQ_LIMIT, BitVec.toNat_ofNat]
  omega

end

namespace Rxq

/-! ### The ring -/

/-- The ring holds the packets posted from number `C` on; `k` of them wait to be added, and those before `P`
are to be completed.  After an event that the hardware does not make, `P` may be beyond them all. -/
structure Ring (cfg : Config) (b C P k : ℕ) (srp : Rxq) : Prop where
  added : srp.srAdded + BitVec.ofNat 32 k = idx 32 b srp.posted.length
  pending : srp.srPending = idx 32 b P
  c_le : C ≤ P
  c_le_length : C + k ≤ srp.posted.length
  p_lt : P < srp.posted.length + cfg.size
  limit : srp.posted.length ≤ C + (cfg.size - 16)
  window : Window cfg.size b C srp.srSrpp fun j => srp.posted[j]?
  others : ∀ i, cfg.size ≤ i → srp.srSrpp i = none

variable {cfg : Config} {io : Io} {b C P k : ℕ} {srp srp' : Rxq}

theorem Ring.congr (h : srp.Ring cfg b C P k) (h1 : srp'.srAdded = srp.srAdded)
    (h2 : srp'.srPending = srp.srPending) (h3 : srp'.srSrpp = srp.srSrpp) (h4 : srp'.posted = srp.posted) :
    srp'.Ring cfg b C P k := by
  refine ⟨?_, ?_, h.c_le, ?_, ?_, ?_, ?_, ?_⟩
  · rw [h1, h4]
    exact h.added
  · rw [h2]
    exact h.pending
  · rw [h4]
    exact h.c_le_length
  · rw [h4]
    exact h.p_lt
  · rw [h4]
    exact h.limit
  · rw [h3, h4]
    exact h.window
  · rw [h3]
    exact h.others

/-- A packet joins the batch. -/
theorem Ring.postPacket (h : srp.Ring cfg b C P k) (hroom : srp.posted.length < C + (cfg.size - 16)) (p : Pkt) :
    (srp.postPacket cfg k p).Ring cfg b C P (k + 1) := by
  have hslot : cfg.slot (srp.srAdded + BitVec.ofNat 32 k) = (b + srp.posted.length) % cfg.size := by
    rw [h.added, cfg.slot_idx]
  have hc := h.c_le_length
  have hp := h.p_lt
  refine ⟨?_, h.pending, h.c_le, ?_, ?_, ?_, ?_, fun i hi => ?_⟩
  · change srp.srAdded + BitVec.ofNat 32 (k + 1) = idx 32 b (srp.posted ++ [p]).length
    rw [BitVec.ofNat_add, ← BitVec.add_assoc, h.added, List.length_append]
    exact idx_succ b _
  · change C + (k + 1) ≤ (srp.posted ++ [p]).length
    rw [List.length_append]
    exact Nat.succ_le_succ hc
  · change P < (srp.posted ++ [p]).length + cfg.size
    rw [List.length_append]
    omega
  · change (srp.posted ++ [p]).length ≤ _
    rw [List.length_append]
    exact hroom
  · change Window cfg.size b C (Function.update srp.srSrpp _ _) fun j => (srp.posted ++ [p])[j]?
    rw [hslot]
    refine (h.window.set (by omega) (by omega) (some p)).congr fun j _ _ => ?_
    rcases Nat.lt_trichotomy j srp.posted.length with hj | rfl | hj
    · rw [Function.update_of_ne (Nat.ne_of_lt hj), List.getElem?_append_left hj]
    · rw [Function.update_self, List.getElem?_concat_length]
    · rw [Function.update_of_ne (Nat.ne_of_gt hj), List.getElem?_eq_none (by omega),
        List.getElem?_eq_none (by simp; omega)]
  · change Function.update srp.srSrpp _ _ i = none
    have hlt : (b + srp.posted.length) % cfg.size < cfg.size := Nat.mod_lt _ (Nat.two_pow_pos _)
    rw [hslot, Function.update_of_ne (by omega), h.others i hi]

/-- The batch is posted. -/
theorem Ring.qpost (h : srp.Ring cfg b C P k) : (srp.qpost k).Ring cfg b C P 0 :=
  ⟨(BitVec.add_zero _).trans h.added, h.pending, h.c_le, Nat.le_trans (Nat.le_add_right _ _) h.c_le_length,
    h.p_lt, h.limit, h.window, h.others⟩

/-- The packet of the first descriptor is taken off. -/
theorem Ring.take (h : srp.Ring cfg b C P 0) (hlt : C < P) (hC : C < srp.posted.length)
    (h1 : srp'.srAdded = srp.srAdded)
    (h2 : srp'.srPending = srp.srPending)
    (h3 : srp'.srSrpp = Function.update srp.srSrpp ((b + C) % cfg.size) none) (h4 : srp'.posted = srp.posted) :
    srp'.Ring cfg b (C + 1) P 0 := by
  have hlimit := h.limit
  have hsize := cfg.le_size
  refine ⟨?_, ?_, hlt, ?_, ?_, ?_, ?_, fun i hi => ?_⟩
  · rw [h1, h4]
    exact h.added
  · rw [h2]
    exact h.pending
  · rw [h4]
    exact hC
  · rw [h4]
    exact h.p_lt
  · rw [h4]
    omega
  · rw [h3, h4]
    exact h.window.next (List.getElem?_eq_none (by omega))
  · have hslot : (b + C) % cfg.size < cfg.size := Nat.mod_lt _ (by omega)
    rw [h3, Function.update_of_ne (by omega), h.others i hi]

/-! ### The free packet pool -/

/-- How often a packet occurs in the ring, the pool and on loan, the packets before number `C` being off the
ring. -/
def places (C : ℕ) (p : Pkt) (srp : Rxq) : ℕ :=
  (srp.posted.drop C).count p + srp.srfppGet.count p + ∑ id, (srp.srfplPutp id).count p + srp.stack.count p

/-- The packets on the put lists. -/
def putLength (srp : Rxq) : ℕ := ∑ id, (srp.srfplPutp id).length

/-- The packets in `hand` are on loan, and about to be put somewhere. -/
structure Pool (C : ℕ) (hand : List Pkt) (srp : Rxq) : Prop where
  count : srp.srfppCount = BitVec.ofNat 32 srp.srfppGet.length
  putCount : ∀ id, srp.srfplCount id = BitVec.ofNat 32 (srp.srfplPutp id).length
  owned : ∀ p, srp.places C p + hand.count p ≤ if p < srp.created then 1 else 0
  loaned : srp.srfppLoaned + BitVec.ofNat 32 srp.preallocated =
    BitVec.ofNat 32 (srp.stack.length + srp.putLength + srp.lost + hand.length)

theorem sum_update {ι : Type} [Fintype ι] [DecidableEq ι] {α : Type} (g : α → ℕ) (f : ι → α) (i : ι) (x : α) :
    ∑ j, g (Function.update f i x j) + g (f i) = ∑ j, g (f j) + g x := by
  have h1 : ∑ j, g (Function.update f i x j) = g x + ∑ j ∈ Finset.univ.erase i, g (f j) := by
    rw [← Finset.add_sum_erase _ _ (Finset.mem_univ i), Function.update_self]
    congr 1
    refine Finset.sum_congr rfl fun j hj => ?_
    rw [Function.update_of_ne (Finset.ne_of_mem_erase hj)]
  rw [h1, ← Finset.add_sum_erase _ _ (Finset.mem_univ i)]
  omega

/-- A put list is changed. -/
theorem places_put (C : ℕ) (p : Pkt) (srp : Rxq) (id : Cpu) (l : List Pkt) (count : Cpu → U32) :
    ({ srp with
      srfplPutp := Function.update srp.srfplPutp id l
      srfplCount := count } : Rxq).places C p + (srp.srfplPutp id).count p = srp.places C p + l.count p := by
  have h := sum_update (List.count p) srp.srfplPutp id l
  unfold places
  dsimp only
  omega

theorem putLength_put (srp : Rxq) (id : Cpu) (l : List Pkt) (count : Cpu → U32) :
    ({ srp with
      srfplPutp := Function.update srp.srfplPutp id l
      srfplCount := count } : Rxq).putLength + (srp.srfplPutp id).length = srp.putLength + l.length :=
  sum_update List.length srp.srfplPutp id l

theorem length_le_putLength (srp : Rxq) (id : Cpu) : (srp.srfplPutp id).length ≤ srp.putLength :=
  Finset.single_le_sum (f := fun id => (srp.srfplPutp id).length) (fun _ _ => Nat.zero_le _) (Finset.mem_univ id)

/-- A packet in hand goes to a put list. -/
theorem Pool.qfppPut {hand : List Pkt} {p : Pkt} (h : srp.Pool C (p :: hand)) (cpu : Cpu) :
    (srp.qfppPut cpu p).Pool C hand := by
  refine ⟨h.count, fun id => ?_, fun q => ?_, ?_⟩
  · change Function.update srp.srfplCount cpu _ id = BitVec.ofNat 32 (Function.update srp.srfplPutp cpu _ id).length
    by_cases hid : id = cpu
    · subst hid
      rw [Function.update_self, Function.update_self, List.length_append, BitVec.ofNat_add, h.putCount]
      rfl
    · rw [Function.update_of_ne hid, Function.update_of_ne hid, h.putCount]
  · have hown := h.owned q
    have hput := places_put C q srp cpu (srp.srfplPutp cpu ++ [p])
      (Function.update srp.srfplCount cpu (srp.srfplCount cpu + 1))
    rw [List.count_append, List.count_singleton] at hput
    rw [List.count_cons] at hown
    change places C q (srp.qfppPut cpu p) + _ = _ at hput
    change _ ≤ if q < srp.created then 1 else 0
    omega
  · have hput := putLength_put srp cpu (srp.srfplPutp cpu ++ [p])
      (Function.update srp.srfplCount cpu (srp.srfplCount cpu + 1))
    rw [List.length_append, List.length_singleton] at hput
    change putLength (srp.qfppPut cpu p) + _ = _ at hput
    refine h.loaned.trans (congrArg (BitVec.ofNat 32) ?_)
    change srp.stack.length + srp.putLength + srp.lost + (hand.length + 1) =
      srp.stack.length + (srp.qfppPut cpu p).putLength + srp.lost + hand.length
    omega

/-- A packet in hand is freed. -/
theorem Pool.qpacketFree {hand : List Pkt} {p : Pkt} (h : srp.Pool C (p :: hand)) (cpu : Cpu) (recycled : Bool) :
    (srp.qpacketFree cpu recycled p).Pool C hand := by
  unfold Rxq.qpacketFree
  split_ifs
  · exact h.qfppPut cpu
  · refine ⟨h.count, h.putCount, fun q => ?_, ?_⟩
    · have hown := h.owned q
      rw [List.count_cons] at hown
      exact Nat.le_trans (Nat.add_le_add_left (Nat.le_add_right _ _) _) hown
    · refine h.loaned.trans (congrArg (BitVec.ofNat 32) ?_)
      change srp.stack.length + srp.putLength + srp.lost + (hand.length + 1) =
        srp.stack.length + srp.putLength + (srp.lost + 1) + hand.length
      omega

/-- A packet in hand goes to the stack. -/
theorem Pool.give {hand : List Pkt} {p : Pkt} (h : srp.Pool C (p :: hand)) :
    ({ srp with stack := srp.stack ++ [p] } : Rxq).Pool C hand := by
  refine ⟨h.count, h.putCount, fun q => ?_, ?_⟩
  · have hown := h.owned q
    unfold places at hown ⊢
    rw [List.count_cons] at hown
    dsimp only
    rw [List.count_append, List.count_singleton]
    omega
  · refine h.loaned.trans (congrArg (BitVec.ofNat 32) ?_)
    change srp.stack.length + srp.putLength + srp.lost + (hand.length + 1) =
      (srp.stack ++ [p]).length + srp.putLength + srp.lost + hand.length
    rw [List.length_append, List.length_singleton]
    omega

/-- A packet of the stack comes to hand. -/
theorem Pool.take {hand : List Pkt} {p : Pkt} (h : srp.Pool C hand) (hp : p ∈ srp.stack) :
    ({ srp with stack := srp.stack.erase p } : Rxq).Pool C (p :: hand) := by
  refine ⟨h.count, h.putCount, fun q => ?_, ?_⟩
  · have hown := h.owned q
    have hcount := List.count_pos_iff.mpr hp
    unfold places at hown ⊢
    rw [List.count_cons]
    dsimp only
    rw [List.count_erase]
    by_cases hq : p = q
    · subst hq
      simp only [beq_self_eq_true, if_true] at *
      omega
    · simp only [beq_iff_eq, hq, if_false] at *
      omega
  · refine h.loaned.trans (congrArg (BitVec.ofNat 32) ?_)
    have hpos := List.length_pos_of_mem hp
    change srp.stack.length + srp.putLength + srp.lost + hand.length =
      (srp.stack.erase p).length + srp.putLength + srp.lost + (hand.length + 1)
    rw [List.length_erase_of_mem hp]
    omega

/-- An empty put list is left alone. -/
theorem swizzleOne_nil {id : Cpu} (hp : srp.srfplPutp id = []) (hc : srp.srfplCount id = 0) :
    srp.swizzleOne id = srp := by
  unfold swizzleOne
  have h1 : Function.update srp.srfplPutp id [] = srp.srfplPutp := by
    rw [← hp]
    exact Function.update_eq_self id srp.srfplPutp
  have h2 : Function.update srp.srfplCount id 0 = srp.srfplCount := by
    rw [← hc]
    exact Function.update_eq_self id srp.srfplCount
  rw [hp]
  dsimp only
  rw [if_pos rfl, h1, h2]

/-- A round of a swizzle. -/
theorem Pool.swizzleOne {hand : List Pkt} (h : srp.Pool C hand) (id : Cpu) : (srp.swizzleOne id).Pool C hand := by
  by_cases hp : srp.srfplPutp id = []
  · have hc : srp.srfplCount id = 0 := by
      rw [h.putCount, hp]
      rfl
    rw [swizzleOne_nil hp hc]
    exact h
  have hswz : srp.swizzleOne id = { srp with
      srfplPutp := Function.update srp.srfplPutp id []
      srfplCount := Function.update srp.srfplCount id 0
      srfppGet := srp.srfplPutp id ++ srp.srfppGet
      asserts := srp.asserts && decide (srp.srfplCount id ≤ srp.srfppLoaned)
      srfppLoaned := srp.srfppLoaned - srp.srfplCount id
      srfppCount := srp.srfppCount + srp.srfplCount id } := by
    unfold Rxq.swizzleOne
    dsimp only
    rw [if_neg hp]
  rw [hswz]
  refine ⟨?_, fun id' => ?_, fun q => ?_, ?_⟩
  · dsimp only
    rw [h.count, h.putCount, List.length_append, ← BitVec.ofNat_add, Nat.add_comm]
  · dsimp only
    by_cases hid : id' = id
    · subst hid
      rw [Function.update_self, Function.update_self]
      rfl
    · rw [Function.update_of_ne hid, Function.update_of_ne hid, h.putCount]
  · have hown := h.owned q
    have hput := places_put C q srp id [] (Function.update srp.srfplCount id 0)
    unfold places at hown hput ⊢
    dsimp only at hput ⊢
    rw [List.count_nil] at hput
    rw [List.count_append]
    omega
  · have hput := putLength_put srp id [] (Function.update srp.srfplCount id 0)
    have hpos := length_le_putLength srp id
    unfold putLength at hput hpos ⊢
    dsimp only at hput ⊢
    rw [List.length_nil] at hput
    set n := ∑ id', (Function.update srp.srfplPutp id [] id').length with hn
    have hsplit : srp.stack.length + srp.putLength + srp.lost + hand.length =
        srp.stack.length + n + srp.lost + hand.length + (srp.srfplPutp id).length := by
      unfold putLength
      omega
    have hloaned := h.loaned
    rw [hsplit, BitVec.ofNat_add, ← h.putCount] at hloaned
    rw [BitVec.sub_add_comm, hloaned, BitVec.add_sub_cancel]

theorem Pool.congr {C' : ℕ} {hand : List Pkt} (h : srp.Pool C hand) (h1 : srp'.srfppCount = srp.srfppCount)
    (h2 : srp'.srfplCount = srp.srfplCount) (h3 : srp'.srfppLoaned = srp.srfppLoaned)
    (h4 : srp'.srfppGet = srp.srfppGet) (h5 : srp'.srfplPutp = srp.srfplPutp) (h6 : srp'.stack = srp.stack)
    (h7 : srp'.posted.drop C' = srp.posted.drop C) (h8 : srp'.created = srp.created)
    (h9 : srp'.preallocated = srp.preallocated) (h10 : srp'.lost = srp.lost) : srp'.Pool C' hand := by
  refine ⟨?_, fun id => ?_, fun p => ?_, ?_⟩
  · rw [h1, h4]
    exact h.count
  · rw [h2, h5]
    exact h.putCount id
  · unfold places
    rw [h7, h4, h5, h6, h8]
    exact h.owned p
  · unfold putLength
    rw [h3, h9, h6, h5, h10]
    exact h.loaned

/-- A packet of the get list is posted. -/
theorem Pool.repost {hand : List Pkt} {p : Pkt} {rest : List Pkt} (h : srp.Pool C hand)
    (hget : srp.srfppGet = p :: rest) (hC : C ≤ srp.posted.length) :
    (({ srp with
      srfppGet := rest
      srfppCount := srp.srfppCount - 1 } : Rxq).postPacket cfg k p).Pool C hand := by
  refine ⟨?_, h.putCount, fun q => ?_, h.loaned⟩
  · change srp.srfppCount - 1 = BitVec.ofNat 32 rest.length
    rw [h.count, hget, List.length_cons, BitVec.ofNat_add]
    exact BitVec.add_sub_cancel ..
  · have hown := h.owned q
    unfold places at hown ⊢
    change ((srp.posted ++ [p]).drop C).count q + rest.count q + _ + srp.stack.count q + _ ≤
      if q < srp.created then 1 else 0
    rw [hget, List.count_cons] at hown
    rw [List.drop_append_of_le_length hC, List.count_append, List.count_singleton]
    change _ + _ + ∑ id, (srp.srfplPutp id).count q + _ + _ ≤ _
    omega

/-- A packet of the get list is destroyed. -/
theorem Pool.drop {hand : List Pkt} {p : Pkt} {rest : List Pkt} (h : srp.Pool C hand)
    (hget : srp.srfppGet = p :: rest) :
    ({ srp with
      srfppGet := rest
      srfppCount := srp.srfppCount - 1 } : Rxq).Pool C hand := by
  refine ⟨?_, h.putCount, fun q => ?_, h.loaned⟩
  · change srp.srfppCount - 1 = BitVec.ofNat 32 rest.length
    rw [h.count, hget, List.length_cons, BitVec.ofNat_add]
    exact BitVec.add_sub_cancel ..
  · have hown := h.owned q
    unfold places at hown ⊢
    rw [hget, List.count_cons] at hown
    dsimp only
    omega

theorem created_mono (n q : ℕ) : (if q < n then 1 else 0) ≤ if q < n + 1 then 1 else 0 := by
  split_ifs <;> omega

/-- A new packet is posted. -/
theorem Pool.createPost {hand : List Pkt} (h : srp.Pool C hand) (hC : C ≤ srp.posted.length) :
    (srp.qpacketCreate.2.postPacket cfg k srp.qpacketCreate.1).Pool C hand := by
  refine ⟨h.count, h.putCount, fun q => ?_, h.loaned⟩
  have hown := h.owned q
  unfold places at hown ⊢
  change ((srp.posted ++ [srp.created]).drop C).count q + srp.srfppGet.count q + ∑ id, (srp.srfplPutp id).count q +
    srp.stack.count q + _ ≤ if q < srp.created + 1 then 1 else 0
  rw [List.drop_append_of_le_length hC, List.count_append, List.count_singleton]
  by_cases hq : srp.created = q
  · subst hq
    rw [if_neg (Nat.lt_irrefl _)] at hown
    simp only [beq_self_eq_true, if_true, Nat.lt_succ_self]
    omega
  · refine Nat.le_trans (Nat.le_of_eq ?_) (Nat.le_trans hown (created_mono srp.created q))
    simp only [beq_iff_eq, hq, if_false]
    omega

/-- A new packet is put in the pool. -/
theorem Pool.createPut {hand : List Pkt} (h : srp.Pool C hand) (cpu : Cpu) :
    ({ srp.qpacketCreate.2.qfppPut cpu srp.qpacketCreate.1 with
      preallocated := srp.preallocated + 1 } : Rxq).Pool C hand := by
  have hnew : ({ srp.qpacketCreate.2 with preallocated := srp.preallocated + 1 } : Rxq).Pool C
      (srp.created :: hand) := by
    refine ⟨h.count, h.putCount, fun q => ?_, ?_⟩
    · have hown := h.owned q
      change srp.places C q + _ ≤ if q < srp.created + 1 then 1 else 0
      rw [List.count_cons]
      by_cases hq : srp.created = q
      · subst hq
        rw [if_neg (Nat.lt_irrefl _)] at hown
        simp only [beq_self_eq_true, if_true, Nat.lt_succ_self]
        omega
      · refine Nat.le_trans (Nat.le_of_eq ?_) (Nat.le_trans hown (created_mono srp.created q))
        simp only [beq_iff_eq, hq, if_false]
        omega
    · change srp.srfppLoaned + BitVec.ofNat 32 (srp.preallocated + 1) =
        BitVec.ofNat 32 (srp.stack.length + srp.putLength + srp.lost + (hand.length + 1))
      rw [BitVec.ofNat_add, ← BitVec.add_assoc, h.loaned, ← BitVec.ofNat_add]
      rfl
  exact hnew.qfppPut cpu

/-! ### Refilling -/

/-- What the refilling and the completion of a ring leave alone. -/
structure Same (srp srp' : Rxq) : Prop where
  srState : srp'.srState = srp.srState
  stopping : srp'.stopping = srp.stopping
  srPending : srp'.srPending = srp.srPending
  seException : srp'.seException = srp.seException
  marks : srp'.marks = srp.marks
  posted : srp.posted <+: srp'.posted

theorem Same.refl (srp : Rxq) : srp.Same srp := ⟨rfl, rfl, rfl, rfl, rfl, List.prefix_rfl⟩

theorem Same.trans {srp'' : Rxq} (h : srp.Same srp') (h' : srp'.Same srp'') : srp.Same srp'' :=
  ⟨h'.srState.trans h.srState, h'.stopping.trans h.stopping, h'.srPending.trans h.srPending,
    h'.seException.trans h.seException, h'.marks.trans h.marks,
    h.posted.trans h'.posted⟩

/-- The packets of a batch being posted, or the ring between batches. -/
structure Filled (cfg : Config) (b C P k : ℕ) (srp0 srp : Rxq) : Prop where
  ring : srp.Ring cfg b C P k
  pool : srp.Pool C []
  same : srp0.Same srp
  completed : srp.srCompleted = srp0.srCompleted

variable {srp0 : Rxq}

theorem Filled.qpost (h : Filled cfg b C P k srp0 srp) : Filled cfg b C P 0 srp0 (srp.qpost k) :=
  ⟨h.ring.qpost, ⟨h.pool.count, h.pool.putCount, h.pool.owned, h.pool.loaned⟩,
    h.same.trans ⟨rfl, rfl, rfl, rfl, rfl, List.prefix_rfl⟩, h.completed⟩

/-- A packet has joined the batch; a full batch is posted. -/
theorem addPacket_filled {p : Pkt} (hring : srp.Ring cfg b C P k)
    (hroom : srp.posted.length < C + (cfg.size - 16)) (hpool : (srp.postPacket cfg k p).Pool C [])
    (hsame : srp0.Same srp) (hcompleted : srp.srCompleted = srp0.srCompleted) :
    Filled cfg b C P (srp.addPacket cfg k p).2 srp0 (srp.addPacket cfg k p).1 := by
  have h : Filled cfg b C P (k + 1) srp0 (srp.postPacket cfg k p) :=
    ⟨hring.postPacket hroom p, hpool, hsame.trans ⟨rfl, rfl, rfl, rfl, rfl, List.prefix_append _ _⟩, hcompleted⟩
  unfold addPacket
  split_ifs
  · exact h.qpost
  · exact h

theorem length_addPacket (p : Pkt) : (srp.addPacket cfg k p).1.posted.length = srp.posted.length + 1 := by
  unfold addPacket
  split_ifs <;> exact List.length_append

theorem Filled.refillLoop {n : ℕ} (h : Filled cfg b C P k srp0 srp)
    (hroom : srp.posted.length + n ≤ C + (cfg.size - 16)) :
    Filled cfg b C P 0 srp0 (refillLoop cfg n k srp) := by
  induction n generalizing k srp with
  | zero => exact h.qpost
  | succ n ih =>
    unfold Rxq.refillLoop
    cases hget : srp.srfppGet with
    | nil => exact h.qpost
    | cons p rest =>
      dsimp only
      have hring : ({ srp with
          srfppGet := rest
          srfppCount := srp.srfppCount - 1 } : Rxq).Ring cfg b C P k := h.ring.congr rfl rfl rfl rfl
      have hsame : srp0.Same { srp with
          srfppGet := rest
          srfppCount := srp.srfppCount - 1 } := h.same.trans ⟨rfl, rfl, rfl, rfl, rfl, List.prefix_rfl⟩
      split_ifs
      · exact ih ⟨hring, h.pool.drop hget, hsame, h.completed⟩ (by dsimp only; omega)
      · refine ih (addPacket_filled hring (by dsimp only; omega)
          (h.pool.repost hget (Nat.le_of_add_right_le h.ring.c_le_length)) hsame h.completed) ?_
        rw [length_addPacket]
        dsimp only
        omega

theorem Filled.fillLoop {n c : ℕ} (h : Filled cfg b C P k srp0 srp)
    (hroom : srp.posted.length + n ≤ C + (cfg.size - 16)) :
    Filled cfg b C P 0 srp0 (fillLoop cfg n c k srp) := by
  induction n generalizing k srp c with
  | zero => exact h.qpost
  | succ n ih =>
    cases c with
    | zero => exact h.qpost
    | succ c =>
      unfold Rxq.fillLoop
      dsimp only
      have hring : srp.qpacketCreate.2.Ring cfg b C P k := h.ring.congr rfl rfl rfl rfl
      have hlen : srp.qpacketCreate.2.posted.length = srp.posted.length := rfl
      refine ih (addPacket_filled hring (by omega) (h.pool.createPost (Nat.le_of_add_right_le h.ring.c_le_length))
        (h.same.trans ⟨rfl, rfl, rfl, rfl, rfl, List.prefix_rfl⟩) h.completed) ?_
      rw [length_addPacket]
      omega

theorem Filled.qpush (h : Filled cfg b C P 0 srp0 srp) : Filled cfg b C P 0 srp0 (srp.qpush cfg) :=
  ⟨h.ring.congr rfl rfl rfl rfl, ⟨h.pool.count, h.pool.putCount, h.pool.owned, h.pool.loaned⟩,
    h.same.trans ⟨rfl, rfl, rfl, rfl, rfl, List.prefix_rfl⟩, h.completed⟩

theorem swizzleOne_frame (id : Cpu) (srp : Rxq) : srp.Same (srp.swizzleOne id) ∧
    (srp.swizzleOne id).srAdded = srp.srAdded ∧ (srp.swizzleOne id).srSrpp = srp.srSrpp ∧
    (srp.swizzleOne id).posted = srp.posted ∧ (srp.swizzleOne id).srCompleted = srp.srCompleted := by
  unfold swizzleOne
  dsimp only
  split_ifs <;> exact ⟨⟨rfl, rfl, rfl, rfl, rfl, List.prefix_rfl⟩, rfl, rfl, rfl, rfl⟩

theorem Filled.swizzleOne (h : Filled cfg b C P k srp0 srp) (id : Cpu) :
    Filled cfg b C P k srp0 (srp.swizzleOne id) := by
  obtain ⟨hsame, hadded, hsrpp, hposted, hcompleted⟩ := swizzleOne_frame id srp
  exact ⟨h.ring.congr hadded hsame.srPending hsrpp hposted, h.pool.swizzleOne id, h.same.trans hsame,
    hcompleted.trans h.completed⟩

theorem Filled.swizzle (h : Filled cfg b C P k srp0 srp) (ids : List Cpu) :
    Filled cfg b C P k srp0 (ids.foldl (fun srp id => srp.swizzleOne id) srp) := by
  induction ids generalizing srp with
  | nil => exact h
  | cons id ids ih => exact ih (h.swizzleOne id)

theorem posted_swizzle (ids : List Cpu) (srp : Rxq) :
    (ids.foldl (fun srp id => srp.swizzleOne id) srp).posted = srp.posted := by
  induction ids generalizing srp with
  | nil => rfl
  | cons id ids ih => exact (ih _).trans (swizzleOne_frame id srp).2.2.2.1

/-- The invariant between operations. -/
structure Inv (cfg : Config) (b C P : ℕ) (srp : Rxq) : Prop where
  ring : srp.Ring cfg b C P 0
  pool : srp.Pool C []
  completed : srp.srCompleted = idx 32 b C

theorem Inv.filled (h : srp.Inv cfg b C P) : Filled cfg b C P 0 srp srp := ⟨h.ring, h.pool, .refl srp, rfl⟩

theorem Inv.of_filled (h : srp.Inv cfg b C P) (hf : Filled cfg b C P 0 srp srp') : srp'.Inv cfg b C P :=
  ⟨hf.ring, hf.pool, hf.completed.trans h.completed⟩

/-- The ring's level. -/
theorem Inv.rxfill (h : srp.Inv cfg b C P) : (srp.srAdded - srp.srCompleted).toNat = srp.posted.length - C := by
  have hadded : srp.srAdded = idx 32 b srp.posted.length := by
    rw [← h.ring.added]
    exact (BitVec.add_zero _).symm
  have hlimit := h.ring.limit
  have hsize := cfg.size_le
  rw [hadded, h.completed]
  exact idx_sub h.ring.c_le_length (by omega)

theorem toInt_toNat_le (x : U32) : x.toInt.toNat ≤ x.toNat := by
  rw [BitVec.toInt_eq_toNat_cond]
  split_ifs <;> omega

/-- A refill does not overfill the ring. -/
theorem Inv.ntodo_le (h : srp.Inv cfg b C P) (target : U32) :
    srp.posted.length + srp.ntodo cfg target ≤ C + (cfg.size - 16) := by
  have hfill := h.rxfill
  have hlimit := h.ring.limit
  have hc := h.ring.c_le_length
  have hlim := cfg.limit_toNat
  have hroom : (cfg.limit - (srp.srAdded - srp.srCompleted)).toNat = cfg.size - 16 - (srp.posted.length - C) := by
    rw [BitVec.toNat_sub_of_le (by rw [BitVec.le_def]; omega)]
    omega
  have hle : srp.ntodo cfg target ≤ (cfg.limit - (srp.srAdded - srp.srCompleted)).toNat := by
    unfold ntodo
    dsimp only
    refine Nat.le_trans (toInt_toNat_le _) ?_
    split_ifs with hlt
    · exact Nat.le_refl _
    · exact BitVec.le_def.mp (BitVec.not_lt.mp hlt)
  omega

theorem Inv.qrefill (h : srp.Inv cfg b C P) (io : Io) (target : U32) :
    Filled cfg b C P 0 srp (srp.qrefill cfg io target) := by
  have hmin : ∀ {srp1 : Rxq}, Filled cfg b C P 0 srp srp1 → Filled cfg b C P 0 srp
      (if srp1.srfppCount < srp1.srfppMin then { srp1 with srfppMin := srp1.srfppCount } else srp1) := by
    intro srp1 h1
    split_ifs
    · exact ⟨h1.ring.congr rfl rfl rfl rfl, ⟨h1.pool.count, h1.pool.putCount, h1.pool.owned, h1.pool.loaned⟩,
        h1.same.trans ⟨rfl, rfl, rfl, rfl, rfl, List.prefix_rfl⟩, h1.completed⟩
    · exact h1
  unfold Rxq.qrefill
  split_ifs with hstate htodo
  · exact h.filled
  · exact hmin h.filled
  · refine hmin ((h.filled.swizzle _).refillLoop ?_).qpush
    rw [posted_swizzle]
    exact h.ntodo_le target

theorem Inv.qfill (h : srp.Inv cfg b C P) (io : Io) (target : U32) :
    Filled cfg b C P 0 srp (srp.qfill cfg io target) := by
  unfold Rxq.qfill
  split_ifs
  · exact h.filled
  · exact h.filled
  · exact (h.filled.fillLoop (h.ntodo_le target)).qpush

/-! ### Completion -/

theorem qpacketFree_frame (cpu : Cpu) (recycled : Bool) (p : Pkt) (srp : Rxq) :
    srp.Same (srp.qpacketFree cpu recycled p) ∧ (srp.qpacketFree cpu recycled p).srAdded = srp.srAdded ∧
    (srp.qpacketFree cpu recycled p).srSrpp = srp.srSrpp ∧
    (srp.qpacketFree cpu recycled p).posted = srp.posted ∧
    (srp.qpacketFree cpu recycled p).srCompleted = srp.srCompleted := by
  unfold qpacketFree
  split_ifs <;> exact ⟨⟨rfl, rfl, rfl, rfl, rfl, List.prefix_rfl⟩, rfl, rfl, rfl, rfl⟩

/-- The packet of the first descriptor comes to hand, on loan. -/
theorem Pool.offRing {p : Pkt} {hand : List Pkt} (h : srp.Pool C hand) (hp : srp.posted[C]? = some p)
    (f : Packet → Packet) (m : ℕ → Option Pkt) :
    ({ srp.setPacket p f with
      srSrpp := m
      srfppLoaned := srp.srfppLoaned + 1 } : Rxq).Pool (C + 1) (p :: hand) := by
  refine ⟨h.count, h.putCount, fun q => ?_, ?_⟩
  · have hown := h.owned q
    obtain ⟨hlt, hget⟩ := List.getElem?_eq_some_iff.mp hp
    unfold places at hown ⊢
    rw [List.drop_eq_getElem_cons hlt, hget, List.count_cons] at hown
    change (srp.posted.drop (C + 1)).count q + srp.srfppGet.count q + ∑ id, (srp.srfplPutp id).count q +
      srp.stack.count q + _ ≤ if q < srp.created then 1 else 0
    rw [List.count_cons]
    omega
  · have hloaned := h.loaned
    change srp.srfppLoaned + 1 + BitVec.ofNat 32 srp.preallocated =
      BitVec.ofNat 32 (srp.stack.length + srp.putLength + srp.lost + (hand.length + 1))
    rw [BitVec.add_assoc, BitVec.add_comm 1, ← BitVec.add_assoc, hloaned, ← Nat.add_assoc,
      BitVec.ofNat_add _ 1]
    rfl

/-- The outstanding descriptors have packets in their slots. -/
theorem Ring.slot (h : srp.Ring cfg b C P k) {j : ℕ} (h1 : C ≤ j) (h2 : j < srp.posted.length) :
    srp.srSrpp ((b + j) % cfg.size) = some srp.posted[j] := by
  have hlimit := h.limit
  have hsize := cfg.le_size
  rw [h.window j h1 (by omega)]
  exact List.getElem?_eq_getElem h2

/-- Beyond the posted packets a slot is empty. -/
theorem Ring.slot_none (h : srp.Ring cfg b C P k) {j : ℕ} (h1 : srp.posted.length ≤ j) (h2 : j < C + cfg.size) :
    srp.srSrpp ((b + j) % cfg.size) = none := by
  have hC := h.c_le_length
  rw [h.window j (by omega) h2]
  exact List.getElem?_eq_none h1

/-- A round of the loop of completion. -/
theorem Filled.completeOne (h : Filled cfg b C P 0 srp0 srp) (hlt : C < P)
    (hr : srp.completeOne cfg io (idx 32 b C) = some srp') : Filled cfg b (C + 1) P 0 srp0 srp' := by
  have hsize := cfg.le_size
  unfold Rxq.completeOne at hr
  dsimp only at hr
  rw [cfg.slot_idx] at hr
  rcases Nat.lt_or_ge C srp.posted.length with hC | hC
  · have hget : srp.posted[C]? = some srp.posted[C] := List.getElem?_eq_getElem hC
    rw [h.ring.slot (Nat.le_refl C) hC] at hr
    dsimp only at hr
    set f : Packet → Packet := fun srpp =>
      { srpp with srpSize := (srp.receive (srp.packet srp.posted[C]) (io.see srp.posted[C])).2 } with hf
    have hpool := h.pool.offRing hget f (Function.update srp.srSrpp ((b + C) % cfg.size) none)
    set srp1 : Rxq := { srp.setPacket srp.posted[C] f with
      srSrpp := Function.update srp.srSrpp ((b + C) % cfg.size) none
      srfppLoaned := srp.srfppLoaned + 1 } with hsrp1
    have hring : srp1.Ring cfg b (C + 1) P 0 := h.ring.take hlt hC rfl rfl rfl rfl
    have hsame : srp0.Same srp1 := h.same.trans ⟨rfl, rfl, rfl, rfl, rfl, List.prefix_rfl⟩
    split_ifs at hr <;> cases hr
    · exact ⟨hring.congr rfl rfl rfl rfl, hpool.give, hsame.trans ⟨rfl, rfl, rfl, rfl, rfl, List.prefix_rfl⟩,
        h.completed⟩
    · obtain ⟨hs, ha, hsr, hpo, hco⟩ := qpacketFree_frame io.cpu (io.recycled srp.posted[C]) srp.posted[C] srp1
      exact ⟨hring.congr ha hs.srPending hsr hpo, hpool.qpacketFree io.cpu _, hsame.trans hs,
        hco.trans h.completed⟩
  · have hCle := h.ring.c_le_length
    rw [h.ring.slot_none hC (by omega)] at hr
    split_ifs at hr

/-- The packets of completed descriptors are in their slots. -/
theorem Ring.completeOne (h : srp.Ring cfg b C P 0) (hlt : C < P) (hP : P ≤ srp.posted.length) (io : Io) :
    ∃ srp', srp.completeOne cfg io (idx 32 b C) = some srp' := by
  have hlimit := h.limit
  have hsize := cfg.size_le
  have hleft : (srp.srPending - (idx 32 b C + 1)).toNat = P - (C + 1) := by
    rw [h.pending]
    change (idx 32 b P - (idx 32 b C + 1#32)).toNat = _
    rw [idx_succ]
    exact idx_sub hlt (by omega)
  have hmod : (b + C) % cfg.size < cfg.size := Nat.mod_lt _ (Nat.two_pow_pos _)
  have hahead : ¬ (4 ≤ (srp.srPending - (idx 32 b C + 1)).toNat ∧
      srp.srSrpp (cfg.slot (BitVec.ofNat 32 ((b + C) % cfg.size + 4))) = none) := by
    rintro ⟨h4, hnone⟩
    rw [hleft] at h4
    have hnext : cfg.slot (BitVec.ofNat 32 ((b + C) % cfg.size + 4)) = (b + (C + 4)) % cfg.size := by
      rw [cfg.slot_eq, BitVec.toNat_ofNat, Nat.mod_eq_of_lt (show (b + C) % cfg.size + 4 < 2 ^ 32 by omega),
        Nat.mod_add_mod, Nat.add_assoc]
    rw [hnext, h.slot (by omega) (by omega)] at hnone
    cases hnone
  unfold Rxq.completeOne
  dsimp only
  rw [cfg.slot_idx, if_neg hahead, h.slot (Nat.le_refl C) (by omega)]
  exact ⟨_, rfl⟩

/-- The loop of completion. -/
theorem Filled.completeLoop {n : ℕ} (h : Filled cfg b C P 0 srp0 srp) (hn : C + n = P)
    (hr : completeLoop cfg io n (idx 32 b C) srp = some srp') : srp'.Inv cfg b P P ∧ srp0.Same srp' := by
  induction n generalizing C srp with
  | zero =>
    cases hn
    cases hr
    exact ⟨⟨h.ring.congr rfl rfl rfl rfl, ⟨h.pool.count, h.pool.putCount, h.pool.owned, h.pool.loaned⟩, rfl⟩,
      h.same.trans ⟨rfl, rfl, rfl, rfl, rfl, List.prefix_rfl⟩⟩
  | succ n ih =>
    obtain ⟨srp1, h1, h2⟩ := Option.bind_eq_some_iff.mp hr
    change Rxq.completeLoop cfg io n (idx 32 b C + 1#32) srp1 = _ at h2
    rw [idx_succ] at h2
    exact ih (h.completeOne (by omega) h1) (by omega) h2

theorem Filled.completeLoop_some {n : ℕ} (h : Filled cfg b C P 0 srp0 srp) (hn : C + n = P)
    (hP : P ≤ srp0.posted.length) (io : Io) : ∃ srp', Rxq.completeLoop cfg io n (idx 32 b C) srp = some srp' := by
  induction n generalizing C srp with
  | zero => exact ⟨_, rfl⟩
  | succ n ih =>
    obtain ⟨srp1, h1⟩ := h.ring.completeOne (by omega) (hP.trans h.same.posted.length_le) io
    obtain ⟨srp2, h2⟩ := ih (h.completeOne (by omega) h1) (by omega)
    refine ⟨srp2, Option.bind_eq_some_iff.mpr ⟨srp1, h1, ?_⟩⟩
    change Rxq.completeLoop cfg io n (idx 32 b C + 1#32) srp1 = _
    rw [idx_succ]
    exact h2

/-! ### The stack -/

theorem stackFree_frame (cpu : Cpu) (recycled : Bool) (p : Pkt) (srp : Rxq) :
    srp.Same (srp.stackFree cpu recycled p) ∧ (srp.stackFree cpu recycled p).srAdded = srp.srAdded ∧
    (srp.stackFree cpu recycled p).srSrpp = srp.srSrpp ∧
    (srp.stackFree cpu recycled p).posted = srp.posted ∧
    (srp.stackFree cpu recycled p).srCompleted = srp.srCompleted := by
  unfold stackFree
  split_ifs
  · obtain ⟨hs, ha, hsr, hpo, hco⟩ := qpacketFree_frame cpu recycled p
      { srp with stack := srp.stack.erase p }
    exact ⟨⟨hs.srState, hs.stopping, hs.srPending, hs.seException, hs.marks, hs.posted⟩, ha, hsr, hpo, hco⟩
  · exact ⟨.refl srp, rfl, rfl, rfl, rfl⟩

theorem Inv.stackFree (h : srp.Inv cfg b C P) (cpu : Cpu) (recycled : Bool) (p : Pkt) :
    (srp.stackFree cpu recycled p).Inv cfg b C P := by
  obtain ⟨hsame, hadded, hsrpp, hposted, hcompleted⟩ := stackFree_frame cpu recycled p srp
  refine ⟨h.ring.congr hadded hsame.srPending hsrpp hposted, ?_, hcompleted.trans h.completed⟩
  unfold Rxq.stackFree
  split_ifs with hp
  · exact (h.pool.take hp).qpacketFree cpu recycled
  · exact h.pool

theorem freemsg_eq (io : Io) (ps : List Pkt) (srp : Rxq) :
    srp.freemsg io ps = srp.stackFrees io (ps.map fun p => (io.cpu, p)) := by
  unfold stackFrees freemsg
  rw [List.foldl_map]

theorem Inv.stackFrees (h : srp.Inv cfg b C P) (io : Io) (fs : List (Cpu × Pkt)) :
    (srp.stackFrees io fs).Inv cfg b C P ∧ srp.Same (srp.stackFrees io fs) ∧
      (srp.stackFrees io fs).posted = srp.posted := by
  induction fs generalizing srp with
  | nil => exact ⟨h, .refl srp, rfl⟩
  | cons f fs ih =>
    obtain ⟨hsame, -, -, hposted, -⟩ := stackFree_frame f.1 (io.recycled f.2) f.2 srp
    obtain ⟨hi, hs, hp⟩ := ih (h.stackFree f.1 (io.recycled f.2) f.2)
    exact ⟨hi, hsame.trans hs, hp.trans hposted⟩

theorem Inv.passUp (h : srp.Inv cfg b C P) (io : Io) :
    (srp.passUp cfg io).Inv cfg b C P ∧ srp.Same (srp.passUp cfg io) := by
  unfold Rxq.passUp
  cases io.first with
  | none => exact ⟨h, .refl srp⟩
  | some ps =>
    have hf := h.qrefill io cfg.limit
    have hi := h.of_filled hf
    dsimp only
    split_ifs
    · obtain ⟨hi', hs', -⟩ := hi.stackFrees io (ps.map fun p => (io.cpu, p))
      rw [freemsg_eq]
      exact ⟨hi', hf.same.trans hs'⟩
    · exact ⟨hi, hf.same⟩
    · exact ⟨h, .refl srp⟩

theorem Inv.topUp (h : srp.Inv cfg b C P) (io : Io) (level : U32) :
    (srp.topUp cfg io level).Inv cfg b C P ∧ srp.Same (srp.topUp cfg io level) := by
  have hf := h.qrefill io cfg.limit
  have hi := h.of_filled hf
  unfold Rxq.topUp
  dsimp only
  split_ifs
  · have hf' := hi.qfill io cfg.limit
    exact ⟨hi.of_filled hf', hf.same.trans hf'.same⟩
  · exact ⟨hi, hf.same⟩
  · exact ⟨h, .refl srp⟩

/-- The packets to complete. -/
theorem Inv.ncomplete (h : srp.Inv cfg b C P) : C + (srp.srPending - srp.srCompleted).toNat = P := by
  have hc := h.ring.c_le
  have hp := h.ring.p_lt
  have hlimit := h.ring.limit
  have hsize := cfg.size_le
  rw [h.ring.pending, h.completed, idx_sub hc (by omega)]
  omega

theorem Inv.qcomplete (h : srp.Inv cfg b C P) (hr : srp.qcomplete cfg io = some srp') :
    srp'.Inv cfg b P P ∧ srp.Same srp' := by
  obtain ⟨srp1, h1, rfl⟩ := Option.map_eq_some_iff.mp hr
  rw [h.completed] at h1
  obtain ⟨hi1, hs1⟩ := h.filled.completeLoop (h.completed ▸ h.ncomplete) h1
  obtain ⟨hi2, hs2⟩ := hi1.passUp io
  obtain ⟨hi3, hs3, -⟩ := hi2.stackFrees io io.meanwhile
  obtain ⟨hi4, hs4⟩ := hi3.topUp io ((srp1.passUp cfg io).stackFrees io io.meanwhile).level
  exact ⟨hi4, hs1.trans (hs2.trans (hs3.trans hs4))⟩

theorem Inv.qcomplete_some (h : srp.Inv cfg b C P) (hP : P ≤ srp.posted.length) (io : Io) :
    ∃ srp', srp.qcomplete cfg io = some srp' := by
  obtain ⟨srp1, h1⟩ := h.filled.completeLoop_some (h.completed ▸ h.ncomplete) hP io
  rw [← h.completed] at h1
  exact ⟨_, Option.map_eq_some_iff.mpr ⟨srp1, h1, rfl⟩⟩

theorem Inv.pending_eq (h : srp.Inv cfg b C P) : srp.srPending = srp.srCompleted ↔ P = C := by
  have hn := h.ncomplete
  constructor
  · intro heq
    rw [heq, BitVec.sub_self] at hn
    exact hn.symm
  · rintro rfl
    rw [h.ring.pending, h.completed]

theorem Inv.evQcomplete (h : srp.Inv cfg b C P) (hr : srp.evQcomplete cfg io = some srp') :
    srp'.Inv cfg b P P ∧ srp.Same srp' := by
  unfold Rxq.evQcomplete at hr
  split_ifs at hr with hne
  · exact h.qcomplete hr
  · cases hr
    obtain rfl := h.pending_eq.mp (not_not.mp hne)
    exact ⟨h, .refl srp⟩

theorem Inv.evQcomplete_some (h : srp.Inv cfg b C P) (hP : P ≤ srp.posted.length) (io : Io) :
    ∃ srp', srp.evQcomplete cfg io = some srp' := by
  unfold Rxq.evQcomplete
  split_ifs
  · exact h.qcomplete_some hP io
  · exact ⟨srp, rfl⟩

/-! ### Trimming and preallocation -/

/-- The rest of the get list is destroyed. -/
theorem Pool.freeRest {hand : List Pkt} (h : srp.Pool C hand) (n : ℕ) :
    (({ srp with srfppGet := srp.srfppGet.take n } : Rxq).freeRest (srp.srfppGet.drop n)).Pool C hand := by
  refine ⟨?_, h.putCount, fun q => ?_, h.loaned⟩
  · change srp.srfppCount - BitVec.ofNat 32 (srp.srfppGet.drop n).length =
      BitVec.ofNat 32 (srp.srfppGet.take n).length
    have hlen : srp.srfppGet.length = (srp.srfppGet.take n).length + (srp.srfppGet.drop n).length := by
      rw [← List.length_append, List.take_append_drop]
    rw [h.count, hlen, BitVec.ofNat_add, BitVec.add_sub_cancel]
  · have hown := h.owned q
    have hcount : srp.srfppGet.count q = (srp.srfppGet.take n).count q + (srp.srfppGet.drop n).count q := by
      rw [← List.count_append, List.take_append_drop]
    unfold places at hown ⊢
    change (srp.posted.drop C).count q + (srp.srfppGet.take n).count q + ∑ id, (srp.srfplPutp id).count q +
      srp.stack.count q + _ ≤ if q < srp.created then 1 else 0
    omega

theorem Inv.qfppTrim (h : srp.Inv cfg b C P) (hr : srp.qfppTrim cfg io = some srp') :
    srp'.Inv cfg b C P ∧ srp.Same srp' := by
  have hf := h.qrefill io cfg.limit
  have hdone : ∀ {srp1 : Rxq}, srp1.Inv cfg b C P ∧ srp.Same srp1 →
      ({ srp1 with srfppMin := srp1.srfppCount } : Rxq).Inv cfg b C P ∧
        srp.Same { srp1 with srfppMin := srp1.srfppCount } := fun ⟨hi, hs⟩ =>
    ⟨⟨hi.ring.congr rfl rfl rfl rfl, ⟨hi.pool.count, hi.pool.putCount, hi.pool.owned, hi.pool.loaned⟩,
      hi.completed⟩, hs.trans ⟨rfl, rfl, rfl, rfl, rfl, List.prefix_rfl⟩⟩
  unfold Rxq.qfppTrim at hr
  dsimp only at hr
  have hi := h.of_filled hf
  split_ifs at hr <;> cases hr
  · exact hdone ⟨h, .refl srp⟩
  · exact hdone ⟨hi, hf.same⟩
  · exact hdone ⟨hi, hf.same⟩
  all_goals
    exact hdone ⟨⟨hi.ring.congr rfl rfl rfl rfl, hi.pool.freeRest _, hi.completed⟩,
      hf.same.trans ⟨rfl, rfl, rfl, rfl, rfl, List.prefix_rfl⟩⟩

theorem qrefill_min (hstate : srp.srState = SFXGE_RXQ_STARTED) (target : U32) :
    (srp.qrefill cfg io target).srfppMin ≤ (srp.qrefill cfg io target).srfppCount := by
  unfold qrefill
  rw [if_neg (not_not.mpr hstate)]
  dsimp only
  split_ifs with _ hlt hlt
  · exact BitVec.le_refl _
  · exact BitVec.not_lt.mp hlt
  · exact BitVec.le_refl _
  · exact BitVec.not_lt.mp hlt

/-- The walk of the get list does not leave it. -/
theorem Inv.qfppTrim_some (h : srp.Inv cfg b C P) (io : Io) : ∃ srp', srp.qfppTrim cfg io = some srp' := by
  have hcount := (h.of_filled (h.qrefill io cfg.limit)).pool.count
  have hkeep : ∀ less : U32, less ≤ (srp.qrefill cfg io cfg.limit).srfppCount →
      ¬ (srp.qrefill cfg io cfg.limit).srfppGet.length <
        ((srp.qrefill cfg io cfg.limit).srfppCount - less).toInt.toNat := by
    intro less hle
    have h1 := toInt_toNat_le ((srp.qrefill cfg io cfg.limit).srfppCount - less)
    rw [BitVec.toNat_sub_of_le hle] at h1
    have h2 := Nat.mod_le (srp.qrefill cfg io cfg.limit).srfppGet.length (2 ^ 32)
    rw [hcount, BitVec.toNat_ofNat] at h1
    rw [hcount]
    omega
  unfold Rxq.qfppTrim
  dsimp only
  by_cases hstate : srp.srState = SFXGE_RXQ_STARTED
  · have hmin : (srp.qrefill cfg io cfg.limit).srfppMin ≤ (srp.qrefill cfg io cfg.limit).srfppCount :=
      qrefill_min hstate cfg.limit
    rw [if_neg (not_not.mpr hstate)]
    split_ifs with h1 h2 h3 h4 h5
    · exact ⟨_, rfl⟩
    · exact ⟨_, rfl⟩
    · exact absurd h4 (hkeep _ (BitVec.le_of_lt (BitVec.not_le.mp h2)))
    · exact ⟨_, rfl⟩
    · exact absurd h5 (hkeep _ hmin)
    · exact ⟨_, rfl⟩
  · rw [if_pos hstate]
    exact ⟨_, rfl⟩

/-- A preallocation puts new packets in the pool. -/
theorem Inv.preallocateLoop (h : srp.Inv cfg b C P) (cpu : Cpu) (n : ℕ) :
    (preallocateLoop cpu n srp).Inv cfg b C P ∧ srp.Same (preallocateLoop cpu n srp) := by
  induction n generalizing srp with
  | zero => exact ⟨h, .refl srp⟩
  | succ n ih =>
    have h1 : ({ srp.qpacketCreate.2.qfppPut cpu srp.qpacketCreate.1 with
        preallocated := srp.preallocated + 1 } : Rxq).Inv cfg b C P :=
      ⟨h.ring.congr rfl rfl rfl rfl, h.pool.createPut cpu, h.completed⟩
    have hs1 : srp.Same { srp.qpacketCreate.2.qfppPut cpu srp.qpacketCreate.1 with
        preallocated := srp.preallocated + 1 } := ⟨rfl, rfl, rfl, rfl, rfl, List.prefix_rfl⟩
    obtain ⟨hi, hs⟩ := ih h1
    exact ⟨hi, hs1.trans hs⟩

end Rxq

end Sfxge.Rx
