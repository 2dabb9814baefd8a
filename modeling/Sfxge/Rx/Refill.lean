import Sfxge.Rx.Events

/-!
# Rx.Refill — what a completion leaves the hardware

The hardware is given descriptors in multiples of 8.  So a completion of all that it has been given leaves it
without any unless 8 packets are there in all: added but not yet pushed, in the free packet pool, freed in the
meantime or newly created (`Replenished`).  The packets that are to be had are counted on an abstraction of the
queue (`Stock`), and the queue's refills are shown to add as many.
-/

namespace Sfxge.Rx

open Lib RxqState

/-! ### Packets to be had -/

/-- The free packet pool and what the stack holds.  `fits` are the packets of the size in use. -/
structure Stock where
  get : List Pkt
  put : Cpu → List Pkt
  stack : List Pkt
  fits : Pkt → Bool
  recycle : Pkt → Bool

namespace Stock

variable {n : ℕ}

/-- A packet on loan is freed. -/
def free (cpu : Cpu) (recycled : Bool) (p : Pkt) (s : Stock) : Stock :=
  if s.recycle p ∧ recycled then { s with put := Function.update s.put cpu (s.put cpu ++ [p]) } else s

/-- The stack frees packets. -/
def frees (recycled : Pkt → Bool) (fs : List (Cpu × Pkt)) (s : Stock) : Stock :=
  fs.foldl (fun s f => if f.2 ∈ s.stack then { s with stack := s.stack.erase f.2 }.free f.1 (recycled f.2) f.2 else s) s

/-- Packets come off the ring: those that pass are for the stack, and the others are freed. -/
def complete (cpu : Cpu) (recycled passes : Pkt → Bool) (ps : List Pkt) (s : Stock) : Stock :=
  ps.foldl (fun s p => if passes p then { s with stack := s.stack ++ [p] } else s.free cpu (recycled p) p) s

/-- The put lists are emptied into the get list. -/
def swizzle (cpu : Cpu) (s : Stock) : Stock :=
  (Rxq.swizzleOrder cpu).foldl (fun s id =>
    { s with
      get := s.put id ++ s.get
      put := Function.update s.put id [] }) s

/-- The packets that a refill which goes through `n` of them adds. -/
def gain (n : ℕ) (s : Stock) : ℕ := (s.get.take n).countP s.fits

/-- The descriptors that a refill adds to `fill`. -/
def refill (cfg : Config) (cpu : Cpu) (fill : ℕ) (s : Stock) : ℕ :=
  (s.swizzle cpu).gain (EFX_RXQ_LIMIT cfg.size - fill)

/-- The stock without the packets that a refill has gone through. -/
def rest (n : ℕ) (s : Stock) : Stock := { s with get := s.get.drop n }

theorem rest_nil {s : Stock} (h : s.get = []) : s.rest n = s := by
  cases s
  cases h
  rw [rest, List.drop_nil]

theorem gain_nil {s : Stock} (h : s.get = []) : s.gain n = 0 := by
  rw [gain, h, List.take_nil]
  rfl

theorem complete_congr {cpu : Cpu} {recycled passes passes' : Pkt → Bool} {ps : List Pkt} {s : Stock}
    (h : ∀ p ∈ ps, passes p = passes' p) : s.complete cpu recycled passes ps = s.complete cpu recycled passes' ps := by
  unfold complete
  refine List.foldl_ext _ _ _ fun s p hp => ?_
  rw [h p hp]

end Stock

namespace Rxq

def stock (srp : Rxq) : Stock where
  get := srp.srfppGet
  put := srp.srfplPutp
  stack := srp.stack
  fits p := decide ((srp.packet p).srpMblksize = srp.port.mblksize)
  recycle p := (srp.packet p).srpRecycle

variable {cfg : Config} {io : Io} {b C P k n : ℕ} {srp srp' srp0 : Rxq}

theorem stock_setPacket {p : Pkt} {f : Packet → Packet} (hf : ∀ x, (f x).srpMblksize = x.srpMblksize ∧
    (f x).srpRecycle = x.srpRecycle) (srp : Rxq) : (srp.setPacket p f).stock = srp.stock := by
  have hpacket : ∀ q, ((srp.setPacket p f).packet q).srpMblksize = (srp.packet q).srpMblksize ∧
      ((srp.setPacket p f).packet q).srpRecycle = (srp.packet q).srpRecycle := by
    intro q
    change (Function.update srp.packet p (f (srp.packet p)) q).srpMblksize = _ ∧
      (Function.update srp.packet p (f (srp.packet p)) q).srpRecycle = _
    by_cases hqp : q = p
    · subst hqp
      rw [Function.update_self]
      exact hf _
    · rw [Function.update_of_ne hqp]
      exact ⟨rfl, rfl⟩
  unfold stock
  congr 1
  · funext q
    exact congrArg (fun n => decide (n = srp.port.mblksize)) (hpacket q).1
  · funext q
    exact (hpacket q).2

theorem stock_qpacketFree (cpu : Cpu) (recycled : Bool) (p : Pkt) (srp : Rxq) :
    (srp.qpacketFree cpu recycled p).stock = srp.stock.free cpu recycled p := by
  unfold qpacketFree Stock.free
  change stock (if _ then _ else _) = if (srp.packet p).srpRecycle = true ∧ recycled = true then _ else _
  split_ifs <;> rfl

theorem stock_stackFrees (io : Io) (fs : List (Cpu × Pkt)) (srp : Rxq) :
    (srp.stackFrees io fs).stock = srp.stock.frees io.recycled fs := by
  induction fs generalizing srp with
  | nil => rfl
  | cons f fs ih =>
    refine (ih _).trans ?_
    unfold Stock.frees
    rw [List.foldl_cons]
    congr 1
    unfold stackFree
    change stock (if f.2 ∈ srp.stack then _ else _) = if f.2 ∈ srp.stack then _ else _
    split_ifs
    · exact stock_qpacketFree _ _ _ _
    · rfl

theorem stock_swizzleOne (id : Cpu) (srp : Rxq) : (srp.swizzleOne id).stock =
    { srp.stock with
      get := srp.srfplPutp id ++ srp.srfppGet
      put := Function.update srp.srfplPutp id [] } := by
  unfold swizzleOne
  dsimp only
  split_ifs with hp
  · rw [hp]
    rfl
  · rfl

theorem stock_qfppSwizzle (cpu : Cpu) (srp : Rxq) : (srp.qfppSwizzle cpu).stock = srp.stock.swizzle cpu := by
  unfold qfppSwizzle Stock.swizzle
  generalize swizzleOrder cpu = ids
  induction ids generalizing srp with
  | nil => rfl
  | cons id ids ih =>
    rw [List.foldl_cons, List.foldl_cons, ih, stock_swizzleOne]
    rfl

theorem stock_addPacket (p : Pkt) (srp : Rxq) : (srp.addPacket cfg k p).1.stock = srp.stock := by
  have hpost : (srp.postPacket cfg k p).stock = srp.stock := by
    refine stock_setPacket (p := p) (f := fun srpp =>
      { srpp with
        srpFlags := EFX_DISCARD
        srpSize := 0 }) (fun _ => ?_) srp
    exact ⟨rfl, rfl⟩
  unfold addPacket
  split_ifs
  · exact hpost
  · exact hpost

/-- **Refilling.**  A refill goes through the packets of the get list, and adds those of the size in use. -/
theorem refillLoop_stock (cfg : Config) (n k : ℕ) (srp : Rxq) : (refillLoop cfg n k srp).stock = srp.stock.rest n ∧
    (refillLoop cfg n k srp).posted.length = srp.posted.length + srp.stock.gain n := by
  induction n generalizing k srp with
  | zero => exact ⟨rfl, rfl⟩
  | succ n ih =>
    unfold refillLoop
    cases hget : srp.srfppGet with
    | nil =>
      have hstock : srp.stock.get = [] := hget
      exact ⟨(Stock.rest_nil hstock).symm, (Nat.add_eq_left.mpr (Stock.gain_nil hstock)).symm⟩
    | cons p rest =>
      dsimp only
      have hstock : srp.stock.get = p :: rest := hget
      have hrest : (({ srp with
          srfppGet := rest
          srfppCount := srp.srfppCount - 1 } : Rxq).stock.rest n) = srp.stock.rest (n + 1) := by
        rw [Stock.rest, Stock.rest, hstock, List.drop_succ_cons]
        rfl
      have hgain : srp.stock.gain (n + 1) = ({ srp with
          srfppGet := rest
          srfppCount := srp.srfppCount - 1 } : Rxq).stock.gain n +
            if (srp.packet p).srpMblksize = srp.port.mblksize then 1 else 0 := by
        rw [Stock.gain, Stock.gain, hstock, List.take_succ_cons, List.countP_cons]
        congr 1
        exact if_congr decide_eq_true_iff rfl rfl
      split_ifs with hsize
      · obtain ⟨h1, h2⟩ := ih k { srp with
          srfppGet := rest
          srfppCount := srp.srfppCount - 1 }
        refine ⟨h1.trans hrest, h2.trans ?_⟩
        rw [hgain, if_neg hsize]
        rfl
      · obtain ⟨h1, h2⟩ := ih (({ srp with
          srfppGet := rest
          srfppCount := srp.srfppCount - 1 } : Rxq).addPacket cfg k p).2 (({ srp with
          srfppGet := rest
          srfppCount := srp.srfppCount - 1 } : Rxq).addPacket cfg k p).1
        rw [stock_addPacket] at h1 h2
        refine ⟨h1.trans hrest, h2.trans ?_⟩
        rw [hgain, if_pos (not_not.mp hsize), length_addPacket]
        dsimp only
        omega

theorem length_fillLoop (n c k : ℕ) (srp : Rxq) :
    (fillLoop cfg n c k srp).posted.length = srp.posted.length + min n c := by
  induction n generalizing c k srp with
  | zero =>
    rw [Nat.zero_min]
    rfl
  | succ n ih =>
    cases c with
    | zero => rfl
    | succ c =>
      refine (ih c _ _).trans ?_
      rw [length_addPacket, Nat.add_min_add_right]
      change srp.posted.length + 1 + _ = _
      omega

/-! ### Completing -/

/-- The packets that a completion takes off the ring. -/
def ncompleted (cfg : Config) (srp : Rxq) : List Pkt :=
  (List.range (srp.srPending - srp.srCompleted).toNat).filterMap fun i =>
    srp.srSrpp (cfg.slot (srp.srCompleted + BitVec.ofNat 32 i))

/-- Whether a packet is passed up. -/
def passes (io : Io) (srp : Rxq) (p : Pkt) : Bool := (srp.receive (srp.packet p) (io.see p)).1

theorem filterMap_range {α : Type} (l : List α) (C n : ℕ) :
    ((List.range n).filterMap fun i => l[C + i]?) = (l.drop C).take n := by
  induction n with
  | zero => rfl
  | succ n ih =>
    rw [List.range_succ, List.filterMap_append, ih, List.take_add_one, List.getElem?_drop]
    cases hget : l[C + n]? <;> simp [hget]

theorem Inv.ncompleted (h : srp.Inv cfg b C P) (hP : P ≤ srp.posted.length) :
    srp.ncompleted cfg = (srp.posted.drop C).take (P - C) := by
  have hc := h.ring.c_le
  have hn : (srp.srPending - srp.srCompleted).toNat = P - C := by
    have := h.ncomplete
    omega
  have hslot : ∀ i ∈ List.range (P - C), srp.srSrpp (cfg.slot (srp.srCompleted + BitVec.ofNat 32 i)) =
      srp.posted[C + i]? := by
    intro i hi
    have hlt := List.mem_range.mp hi
    rw [h.completed, idx_add, cfg.slot_idx, h.ring.slot (Nat.le_add_right C i) (by omega),
      List.getElem?_eq_getElem]
  unfold Rxq.ncompleted
  rw [hn, List.filterMap_congr hslot, filterMap_range]

/-- The water marks and the descriptors pushed. -/
def levels (srp : Rxq) : U32 × U32 × U32 := (srp.srHiwat, srp.srLowat, srp.srPushed)

theorem levels_qpacketFree (cpu : Cpu) (recycled : Bool) (p : Pkt) (srp : Rxq) :
    (srp.qpacketFree cpu recycled p).levels = srp.levels := by
  unfold qpacketFree
  split_ifs <;> rfl

theorem levels_stackFrees (io : Io) (fs : List (Cpu × Pkt)) (srp : Rxq) :
    (srp.stackFrees io fs).levels = srp.levels := by
  induction fs generalizing srp with
  | nil => rfl
  | cons f fs ih =>
    refine (ih _).trans ?_
    change (srp.stackFree f.1 (io.recycled f.2) f.2).levels = _
    unfold stackFree
    split_ifs
    · exact levels_qpacketFree _ _ _ _
    · rfl

/-- A round of the loop of completion. -/
theorem Filled.completeOne_stock (h : Filled cfg b C P 0 srp0 srp) (hC : C < srp.posted.length)
    (hr : srp.completeOne cfg io (idx 32 b C) = some srp') :
    srp'.stock = srp.stock.complete io.cpu io.recycled (srp.passes io) [srp.posted[C]] ∧ srp'.levels = srp.levels ∧
      srp'.srState = srp.srState ∧ srp'.port = srp.port ∧ srp'.posted = srp.posted ∧
      ∀ q ≠ srp.posted[C], srp'.packet q = srp.packet q := by
  unfold Rxq.completeOne at hr
  dsimp only at hr
  rw [cfg.slot_idx, h.ring.slot (Nat.le_refl C) hC] at hr
  dsimp only at hr
  set p := srp.posted[C] with hp
  set f : Packet → Packet := fun srpp => { srpp with srpSize := (srp.receive (srp.packet p) (io.see p)).2 } with hf
  set srp1 : Rxq := { srp.setPacket p f with
    srSrpp := Function.update srp.srSrpp ((b + C) % cfg.size) none
    srfppLoaned := srp.srfppLoaned + 1 } with hsrp1
  have hstock : srp1.stock = srp.stock := stock_setPacket (p := p) (f := f) (fun _ => ⟨rfl, rfl⟩) srp
  have hpacket : ∀ q ≠ p, srp1.packet q = srp.packet q := fun q hq => Function.update_of_ne hq _ _
  split_ifs at hr with h4 hpass <;> cases hr
  · refine ⟨?_, rfl, rfl, rfl, rfl, hpacket⟩
    have hpass : srp.passes io p = true := hpass
    rw [Stock.complete, List.foldl_cons, List.foldl_nil, if_pos hpass, ← hstock]
    rfl
  · obtain ⟨hsame, -, -, hposted, -⟩ := qpacketFree_frame io.cpu (io.recycled p) p srp1
    refine ⟨?_, levels_qpacketFree _ _ _ _, hsame.srState, ?_, hposted, fun q hq => ?_⟩
    · have hpass : ¬ srp.passes io p = true := hpass
      rw [Stock.complete, List.foldl_cons, List.foldl_nil, if_neg hpass, ← hstock]
      exact stock_qpacketFree _ _ _ _
    · unfold qpacketFree
      split_ifs <;> rfl
    · refine Eq.trans ?_ (hpacket q hq)
      unfold qpacketFree
      split_ifs <;> rfl

/-- **Completing.** -/
theorem Filled.completeLoop_stock {n : ℕ} (h : Filled cfg b C P 0 srp0 srp) (hn : C + n = P)
    (hP : P ≤ srp.posted.length) (hr : Rxq.completeLoop cfg io n (idx 32 b C) srp = some srp') :
    srp'.stock = srp.stock.complete io.cpu io.recycled (srp.passes io) ((srp.posted.drop C).take n) ∧
      srp'.levels = srp.levels ∧ srp'.posted = srp.posted := by
  induction n generalizing C srp with
  | zero =>
    cases hr
    exact ⟨rfl, rfl, rfl⟩
  | succ n ih =>
    obtain ⟨srp1, h1, h2⟩ := Option.bind_eq_some_iff.mp hr
    change Rxq.completeLoop cfg io n (idx 32 b C + 1#32) srp1 = _ at h2
    rw [idx_succ] at h2
    have hC : C < srp.posted.length := by omega
    obtain ⟨hs1, hl1, hst1, hport1, hp1, hpacket1⟩ := h.completeOne_stock hC h1
    obtain ⟨hs2, hl2, hp2⟩ := ih (h.completeOne (by omega) h1) (by omega) (hp1 ▸ hP) h2
    refine ⟨?_, hl2.trans hl1, hp2.trans hp1⟩
    have hnodup : (srp.posted.drop C).Nodup := List.nodup_iff_count_le_one.mpr fun q => by
      have hown := h.pool.owned q
      unfold places at hown
      split_ifs at hown <;> omega
    have hpasses : ∀ q ∈ (srp.posted.drop (C + 1)).take n, srp1.passes io q = srp.passes io q := by
      intro q hq
      have hne : q ≠ srp.posted[C] := by
        rintro rfl
        rw [List.drop_eq_getElem_cons hC] at hnodup
        exact (List.nodup_cons.mp hnodup).1 (List.mem_of_mem_take hq)
      unfold passes receive
      rw [hst1, hport1, hpacket1 q hne]
    rw [hs2, hs1, hp1, Stock.complete_congr hpasses, List.drop_eq_getElem_cons hC, List.take_succ_cons]
    rfl

/-! ### A started queue -/

/-- The number up to which descriptors are pushed, when those before number `n` have been added. -/
def pushedTo (n : ℕ) : ℕ := n / 8 * 8

theorem and_neg_eight (x : U32) : (x &&& (-8 : U32)).toNat = x.toNat / 8 * 8 := by
  have hshift : x &&& (-8 : U32) = (x >>> 3) <<< 3 := by
    refine BitVec.eq_of_getLsbD_eq fun i hi => ?_
    rw [BitVec.getLsbD_and, BitVec.getLsbD_shiftLeft, BitVec.getLsbD_ushiftRight]
    interval_cases i <;> simp
  rw [hshift, BitVec.toNat_shiftLeft, BitVec.toNat_ushiftRight, Nat.shiftLeft_eq, Nat.shiftRight_eq_div_pow]
  have := x.isLt
  omega

/-- A started queue of EF10: what has been added is pushed up to a multiple of 8, and no event is for more. -/
structure Up (cfg : Config) (b C P : ℕ) (srp : Rxq) : Prop where
  inv : srp.Inv cfg b C P
  state : srp.srState = SFXGE_RXQ_STARTED
  pushed : srp.srPushed = srp.srAdded &&& (-8 : U32)
  hiwat : srp.srHiwat = cfg.limit * 9 / 10
  lowat : srp.srLowat = cfg.limit * 9 / 10 / 2
  behind : b + P ≤ pushedTo (b + srp.posted.length)

theorem Inv.added (h : srp.Inv cfg b C P) : srp.srAdded = idx 32 b srp.posted.length := by
  rw [← h.ring.added]
  exact (BitVec.add_zero _).symm

theorem pushed_eq (h : srp.srAdded = idx 32 b n) : srp.srAdded &&& (-8 : U32) = BitVec.ofNat 32 (pushedTo (b + n)) := by
  refine BitVec.eq_of_toNat_eq ?_
  rw [and_neg_eight, h, idx, BitVec.toNat_ofNat, BitVec.toNat_ofNat, pushedTo]
  omega

/-- The descriptors pushed from number `j` on. -/
theorem Up.pushed_sub (h : srp.Up cfg b C P) {j : ℕ} (hC : C ≤ j) (hP : j ≤ P) :
    (srp.srPushed - idx 32 b j).toNat = pushedTo (b + srp.posted.length) - (b + j) := by
  have hlimit := h.inv.ring.limit
  have hsize := cfg.size_le
  have hbehind := h.behind
  have hle : pushedTo (b + srp.posted.length) ≤ b + srp.posted.length := Nat.div_mul_le_self _ _
  obtain ⟨d, hd⟩ := Nat.exists_eq_add_of_le (show b ≤ pushedTo (b + srp.posted.length) by omega)
  have hidx : BitVec.ofNat 32 (pushedTo (b + srp.posted.length)) = idx 32 b d := by rw [hd]; rfl
  rw [h.pushed, pushed_eq h.inv.added, hidx, idx_sub (by omega) (by omega), hd]
  omega

/-- The descriptors that the hardware has. -/
theorem Up.level (h : srp.Up cfg b C P) : srp.level.toNat = pushedTo (b + srp.posted.length) - (b + C) := by
  rw [Rxq.level, h.inv.completed]
  exact h.pushed_sub (Nat.le_refl C) h.inv.ring.c_le

theorem Up.le_pushedTo (h : srp.Up cfg b C P) (hlen : srp.posted.length ≤ n) : b + P ≤ pushedTo (b + n) :=
  h.behind.trans (Nat.mul_le_mul_right 8 (Nat.div_le_div_right (Nat.add_le_add_left hlen b)))

/-- What refills leave alone. -/
theorem Up.of_filled (h : srp.Up cfg b C P) (hf : Filled cfg b C P 0 srp srp')
    (hpushed : srp'.srPushed = srp'.srAdded &&& (-8 : U32)) (hhiwat : srp'.srHiwat = srp.srHiwat)
    (hlowat : srp'.srLowat = srp.srLowat) : srp'.Up cfg b C P :=
  ⟨h.inv.of_filled hf, hf.same.srState.trans h.state, hpushed, hhiwat.trans h.hiwat, hlowat.trans h.lowat,
    h.le_pushedTo hf.same.posted.length_le⟩

/-- What leaves the ring and the levels alone. -/
theorem Up.congr (h : srp.Up cfg b C P) {C' P' : ℕ} (hi : srp'.Inv cfg b C' P') (hst : srp'.srState = srp.srState)
    (hl : srp'.levels = srp.levels) (hp : srp'.posted = srp.posted)
    (hbehind : b + P' ≤ pushedTo (b + srp.posted.length)) : srp'.Up cfg b C' P' := by
  have hadded : srp'.srAdded = srp.srAdded := by rw [hi.added, h.inv.added, hp]
  refine ⟨hi, hst.trans h.state, ?_, ?_, ?_, ?_⟩
  · rw [hadded]
    exact (congrArg (·.2.2) hl).trans h.pushed
  · exact (congrArg (·.1) hl).trans h.hiwat
  · exact (congrArg (·.2.1) hl).trans h.lowat
  · rw [hp]
    exact hbehind

theorem marks_addPacket (cfg : Config) (k : ℕ) (p : Pkt) (srp : Rxq) : (srp.addPacket cfg k p).1.srHiwat = srp.srHiwat ∧
    (srp.addPacket cfg k p).1.srLowat = srp.srLowat := by
  unfold addPacket
  split_ifs <;> exact ⟨rfl, rfl⟩

theorem marks_refillLoop (cfg : Config) (n k : ℕ) (srp : Rxq) : (refillLoop cfg n k srp).srHiwat = srp.srHiwat ∧
    (refillLoop cfg n k srp).srLowat = srp.srLowat := by
  induction n generalizing k srp with
  | zero => exact ⟨rfl, rfl⟩
  | succ n ih =>
    unfold refillLoop
    split
    · exact ⟨rfl, rfl⟩
    · dsimp only
      split_ifs
      · exact ih _ _
      · obtain ⟨h1, h2⟩ := ih (addPacket cfg k _ _).2 (addPacket cfg k _ _).1
        obtain ⟨h3, h4⟩ := marks_addPacket cfg k _ _
        exact ⟨h1.trans h3, h2.trans h4⟩

theorem marks_fillLoop (cfg : Config) (n c k : ℕ) (srp : Rxq) : (fillLoop cfg n c k srp).srHiwat = srp.srHiwat ∧
    (fillLoop cfg n c k srp).srLowat = srp.srLowat := by
  induction n generalizing c k srp with
  | zero => exact ⟨rfl, rfl⟩
  | succ n ih =>
    cases c with
    | zero => exact ⟨rfl, rfl⟩
    | succ c =>
      obtain ⟨h1, h2⟩ := ih c (addPacket cfg k srp.qpacketCreate.1 srp.qpacketCreate.2).2
        (addPacket cfg k srp.qpacketCreate.1 srp.qpacketCreate.2).1
      obtain ⟨h3, h4⟩ := marks_addPacket cfg k srp.qpacketCreate.1 srp.qpacketCreate.2
      exact ⟨h1.trans h3, h2.trans h4⟩

theorem levels_qfppSwizzle (cpu : Cpu) (srp : Rxq) : (srp.qfppSwizzle cpu).levels = srp.levels := by
  unfold qfppSwizzle
  generalize swizzleOrder cpu = ids
  induction ids generalizing srp with
  | nil => rfl
  | cons id ids ih =>
    refine (ih _).trans ?_
    unfold swizzleOne
    dsimp only
    split_ifs <;> rfl

theorem Inv.ntodo_eq (h : srp.Inv cfg b C P) :
    srp.ntodo cfg cfg.limit = EFX_RXQ_LIMIT cfg.size - (srp.posted.length - C) := by
  have hlim := cfg.limit_toNat
  have hsize := cfg.size_le
  have hlimit := h.ring.limit
  have hfill := h.rxfill
  have hroom : (cfg.limit - (srp.srAdded - srp.srCompleted)).toNat = cfg.size - 16 - (srp.posted.length - C) := by
    rw [BitVec.toNat_sub_of_le (by rw [BitVec.le_def]; omega)]
    omega
  have hint : ∀ x : U32, x.toNat < 2 ^ 31 → x.toInt.toNat = x.toNat := fun x hx => by
    rw [BitVec.toInt_eq_toNat_of_lt (by omega), Int.toNat_natCast]
  unfold ntodo EFX_RXQ_LIMIT
  dsimp only
  split_ifs with hlt
  · rw [hint _ (by omega), hroom]
  · rw [BitVec.lt_def] at hlt
    rw [hint _ (by omega)]
    omega

/-- The end of a refill. -/
def noteMin (srp : Rxq) : Rxq :=
  if srp.srfppCount < srp.srfppMin then { srp with srfppMin := srp.srfppCount } else srp

theorem noteMin_frame (srp : Rxq) : srp.noteMin.levels = srp.levels ∧ srp.noteMin.srAdded = srp.srAdded ∧
    srp.noteMin.posted = srp.posted ∧ srp.noteMin.stock = srp.stock := by
  unfold noteMin
  split_ifs <;> exact ⟨rfl, rfl, rfl, rfl⟩

theorem qrefill_started (hst : srp.srState = SFXGE_RXQ_STARTED) (target : U32) : srp.qrefill cfg io target =
    noteMin (if srp.ntodo cfg target = 0 then srp
      else (refillLoop cfg (srp.ntodo cfg target) 0 (srp.qfppSwizzle io.cpu)).qpush cfg) := by
  unfold Rxq.qrefill
  rw [if_neg (not_not.mpr hst)]
  rfl

/-- **Refilling a started queue.** -/
theorem Up.qrefill (h : srp.Up cfg b C P) (hal : cfg.wptrAlign = 8) (io : Io) :
    (srp.qrefill cfg io cfg.limit).Up cfg b C P ∧
    (srp.qrefill cfg io cfg.limit).posted.length =
      srp.posted.length + srp.stock.refill cfg io.cpu (srp.posted.length - C) ∧
    (srp.posted.length - C < EFX_RXQ_LIMIT cfg.size → (srp.qrefill cfg io cfg.limit).stock =
      (srp.stock.swizzle io.cpu).rest (EFX_RXQ_LIMIT cfg.size - (srp.posted.length - C))) := by
  have hntodo := h.inv.ntodo_eq
  have hf := h.inv.qrefill io cfg.limit
  rw [qrefill_started h.state, hntodo] at hf ⊢
  set n := EFX_RXQ_LIMIT cfg.size - (srp.posted.length - C) with hn
  rw [Stock.refill, ← hn]
  by_cases hzero : n = 0
  · rw [if_pos hzero] at hf ⊢
    obtain ⟨hlevels, hadded, hposted, hstock⟩ := noteMin_frame srp
    refine ⟨h.of_filled hf ?_ (congrArg (·.1) hlevels) (congrArg (·.2.1) hlevels), ?_, fun hlt => by omega⟩
    · rw [hadded]
      exact (congrArg (·.2.2) hlevels).trans h.pushed
    · rw [hposted, hzero]
      rfl
  · rw [if_neg hzero] at hf ⊢
    obtain ⟨hlevels, hadded, hposted, hstock⟩ := noteMin_frame ((refillLoop cfg n 0 (srp.qfppSwizzle io.cpu)).qpush cfg)
    obtain ⟨hst, hlen⟩ := refillLoop_stock cfg n 0 (srp.qfppSwizzle io.cpu)
    obtain ⟨hhi, hlo⟩ := marks_refillLoop cfg n 0 (srp.qfppSwizzle io.cpu)
    have hswz := levels_qfppSwizzle io.cpu srp
    rw [stock_qfppSwizzle] at hst hlen
    refine ⟨h.of_filled hf ?_ ?_ ?_, ?_, fun _ => hstock.trans hst⟩
    · rw [hadded]
      refine (congrArg (·.2.2) hlevels).trans ?_
      change _ &&& -cfg.wptrAlign = _
      rw [hal]
      rfl
    · exact (congrArg (·.1) hlevels).trans (hhi.trans (congrArg (·.1) hswz))
    · exact (congrArg (·.2.1) hlevels).trans (hlo.trans (congrArg (·.2.1) hswz))
    · rw [hposted]
      refine hlen.trans ?_
      rw [qfppSwizzle, posted_swizzle]

/-- **Filling a started queue.** -/
theorem Up.qfill (h : srp.Up cfg b C P) (hal : cfg.wptrAlign = 8) (io : Io) (target : U32) :
    (srp.qfill cfg io target).Up cfg b C P ∧
    (srp.qfill cfg io target).posted.length = srp.posted.length + min (srp.ntodo cfg target) io.creates := by
  have hf := h.inv.qfill io target
  unfold Rxq.qfill at hf ⊢
  rw [if_neg (not_not.mpr h.state)] at hf ⊢
  split_ifs at hf ⊢ with hzero
  · refine ⟨h, ?_⟩
    rw [hzero, Nat.zero_min]
    rfl
  · obtain ⟨hhi, hlo⟩ := marks_fillLoop cfg (srp.ntodo cfg target) io.creates 0 srp
    refine ⟨h.of_filled hf ?_ hhi hlo, length_fillLoop _ _ _ srp⟩
    change _ &&& -cfg.wptrAlign = _
    rw [hal]
    rfl

theorem Up.stackFrees (h : srp.Up cfg b C P) (io : Io) (fs : List (Cpu × Pkt)) :
    (srp.stackFrees io fs).Up cfg b C P ∧ (srp.stackFrees io fs).posted = srp.posted := by
  obtain ⟨hi, hs, hp⟩ := h.inv.stackFrees io fs
  exact ⟨h.congr hi hs.srState (levels_stackFrees io fs srp) hp h.behind, hp⟩

/-- **Completing a started queue.** -/
theorem Up.completeLoop (h : srp.Up cfg b C P) (hP : P ≤ srp.posted.length)
    (hr : Rxq.completeLoop cfg io (srp.srPending - srp.srCompleted).toNat srp.srCompleted srp = some srp') :
    srp'.Up cfg b P P ∧ srp'.posted = srp.posted ∧
      srp'.stock = srp.stock.complete io.cpu io.recycled (srp.passes io) (srp.ncompleted cfg) := by
  have hn := h.inv.ncomplete
  rw [h.inv.completed] at hr
  have hn' : C + (srp.srPending - idx 32 b C).toNat = P := by rw [← h.inv.completed]; exact hn
  obtain ⟨hi, hs⟩ := h.inv.filled.completeLoop hn' hr
  obtain ⟨hstock, hl, hp⟩ := h.inv.filled.completeLoop_stock hn' hP hr
  refine ⟨h.congr hi hs.srState hl hp h.behind, hp, ?_⟩
  rw [hstock, h.inv.ncompleted hP]
  congr 2
  omega

/-! ### A completion -/

/-- What decides.  When all pushed descriptors are completed, 8 must be there: those that are added and not pushed,
those that refills add from the pool, to which the completion returns what it discards, then the first message of
the chain and what the stack frees, and those that can be created. -/
def Replenished (cfg : Config) (io : Io) (srp : Rxq) : Prop :=
  srp.srPushed = srp.srPending →
    let fill := (srp.srAdded - srp.srPending).toNat
    let stock := srp.stock.complete io.cpu io.recycled (srp.passes io) (srp.ncompleted cfg)
    match io.first with
    | none => 8 ≤ fill + (stock.frees io.recycled io.meanwhile).refill cfg io.cpu fill + io.creates
    | some ps =>
      let fill' := fill + stock.refill cfg io.cpu fill
      let stock' := (stock.swizzle io.cpu).rest (EFX_RXQ_LIMIT cfg.size - fill)
      8 ≤ fill' ∨ 8 ≤ fill' + ((stock'.frees io.recycled (ps.map fun p => (io.cpu, p))).frees io.recycled
        io.meanwhile).refill cfg io.cpu fill' + io.creates

/-- The hardware has a descriptor. -/
theorem Up.usable_iff (h : srp.Up cfg b C P) : srp.level ≠ 0 ↔ b + C < pushedTo (b + srp.posted.length) := by
  have hlevel := h.level
  rw [ne_eq, ← BitVec.toNat_inj, hlevel]
  change ¬ _ = 0 ↔ _
  omega

theorem usable_iff_level : srp.srPushed ≠ srp.srCompleted ↔ srp.level ≠ 0 := by
  exact sub_ne_zero.symm

/-- The water marks are beyond a batch of descriptors. -/
structure Sized (cfg : Config) : Prop where
  hiwat : 0 < cfg.limit * 9 / 10
  lowat : 8#32 ≤ cfg.limit * 9 / 10 / 2

/-- **Topping up.**  With nothing left to the hardware, the queue is refilled and filled. -/
theorem Up.topUp_empty (h : srp.Up cfg b P P) (hal : cfg.wptrAlign = 8) (hsized : Sized cfg) (io : Io)
    (hempty : pushedTo (b + srp.posted.length) = b + P) :
    (srp.topUp cfg io srp.level).Up cfg b P P ∧ ((srp.topUp cfg io srp.level).level ≠ 0 ↔
      8 ≤ srp.posted.length - P + srp.stock.refill cfg io.cpu (srp.posted.length - P) + io.creates) := by
  have hlevel : srp.level = 0 := by
    by_contra hne
    have := h.usable_iff.mp hne
    omega
  obtain ⟨hup1, hlen1, -⟩ := h.qrefill hal io
  obtain ⟨hup2, hlen2⟩ := hup1.qfill hal io cfg.limit
  rw [hup1.inv.ntodo_eq] at hlen2
  have hfill := hup1.inv.rxfill
  have hc := h.inv.ring.c_le_length
  have hlimit : 8 + (srp.posted.length - P) ≤ EFX_RXQ_LIMIT cfg.size := by
    have hsize := cfg.le_size
    unfold pushedTo at hempty
    unfold EFX_RXQ_LIMIT
    omega
  unfold Rxq.topUp
  rw [hlevel, if_pos (h.hiwat ▸ hsized.hiwat)]
  dsimp only
  split_ifs with hlow
  · refine ⟨hup2, hup2.usable_iff.trans ?_⟩
    rw [hlen2, hlen1]
    unfold pushedTo at hempty ⊢
    omega
  · refine ⟨hup1, hup1.usable_iff.trans ?_⟩
    have hlow' : 8 ≤ (srp.qrefill cfg io cfg.limit).posted.length - P := by
      have h1 := BitVec.not_lt.mp hlow
      rw [hup1.lowat] at h1
      have h2 := BitVec.le_def.mp (BitVec.le_trans hsized.lowat h1)
      rw [hfill] at h2
      exact h2
    rw [hlen1] at hlow' ⊢
    unfold pushedTo at hempty ⊢
    omega

theorem Up.topUp (h : srp.Up cfg b C P) (hal : cfg.wptrAlign = 8) (io : Io) (level : U32) :
    (srp.topUp cfg io level).Up cfg b C P ∧ srp.posted.length ≤ (srp.topUp cfg io level).posted.length := by
  obtain ⟨hup1, -⟩ := h.qrefill hal io
  obtain ⟨hup2, -⟩ := hup1.qfill hal io cfg.limit
  refine ⟨?_, (h.inv.topUp io level).2.posted.length_le⟩
  unfold Rxq.topUp
  dsimp only
  split_ifs
  · exact hup2
  · exact hup1
  · exact h

theorem Up.passUp (h : srp.Up cfg b C P) (hal : cfg.wptrAlign = 8) (io : Io) :
    (srp.passUp cfg io).Up cfg b C P ∧ srp.posted.length ≤ (srp.passUp cfg io).posted.length := by
  obtain ⟨hup1, -⟩ := h.qrefill hal io
  refine ⟨?_, (h.inv.passUp io).2.posted.length_le⟩
  unfold Rxq.passUp
  cases io.first with
  | none => exact h
  | some ps =>
    dsimp only
    split_ifs
    · rw [freemsg_eq]
      exact (hup1.stackFrees io _).1
    · exact hup1
    · exact h

/-- What follows a completion that leaves the hardware some descriptors. -/
theorem Up.kept (h : srp.Up cfg b P P) (hal : cfg.wptrAlign = 8) (io : Io) (hlevel : srp.level ≠ 0) :
    ((srp.stackFrees io io.meanwhile).topUp cfg io (srp.stackFrees io io.meanwhile).level).level ≠ 0 := by
  obtain ⟨hup1, hp⟩ := h.stackFrees io io.meanwhile
  obtain ⟨hup2, hlen⟩ := hup1.topUp hal io (srp.stackFrees io io.meanwhile).level
  rw [hp] at hlen
  exact hup2.usable_iff.mpr ((h.usable_iff.mp hlevel).trans_le
    (Nat.mul_le_mul_right 8 (Nat.div_le_div_right (Nat.add_le_add_left hlen b))))

/-- **A completion** leaves the hardware a descriptor exactly if 8 are there. -/
theorem Up.qcomplete_iff (h : srp.Up cfg b C P) (hal : cfg.wptrAlign = 8) (hsized : Sized cfg)
    (hP : P ≤ srp.posted.length) (hr : srp.qcomplete cfg io = some srp') :
    srp'.Up cfg b P P ∧ (srp'.srPushed ≠ srp'.srCompleted ↔ srp.Replenished cfg io) := by
  obtain ⟨srp1, h1, rfl⟩ := Option.map_eq_some_iff.mp hr
  obtain ⟨hup1, hp1, hstock1⟩ := h.completeLoop hP h1
  have hfill : (srp.srAdded - srp.srPending).toNat = srp.posted.length - P := h.inv.outstanding hP
  have hbehind := h.behind
  have hpushed : srp.srPushed = srp.srPending ↔ srp1.level = 0 := by
    have h1 : srp1.srPushed = srp.srPushed := by
      rw [hup1.pushed, h.pushed, hup1.inv.added, h.inv.added, hp1]
    have h2 : srp1.srCompleted = srp.srPending := hup1.inv.completed.trans h.inv.ring.pending.symm
    rw [← h1, ← h2]
    exact sub_eq_zero.symm
  have hempty : srp1.level = 0 → pushedTo (b + srp1.posted.length) = b + P := fun hlevel => by
    have h1 := mt hup1.usable_iff.mpr (not_not.mpr hlevel)
    rw [hp1] at h1 ⊢
    omega
  refine ⟨(((hup1.passUp hal io).1.stackFrees io io.meanwhile).1.topUp hal io _).1, usable_iff_level.trans ?_⟩
  by_cases hlevel : srp1.level = 0
  · have hfirst : srp.Replenished cfg io ↔ _ := forall_prop_of_true (hpushed.mpr hlevel)
    rw [hfirst, hfill, ← hstock1, ← hp1]
    unfold Rxq.passUp
    cases hio : io.first with
    | none =>
      obtain ⟨hup2, hp2⟩ := hup1.stackFrees io io.meanwhile
      refine (hup2.topUp_empty hal hsized io (hp2 ▸ hempty hlevel)).2.trans ?_
      rw [hp2, stock_stackFrees]
    | some ps =>
      obtain ⟨hup2, hlen2, hstock2⟩ := hup1.qrefill hal io
      have hroom : srp1.posted.length - P < EFX_RXQ_LIMIT cfg.size := by
        have h1 := hempty hlevel
        have hsize := cfg.le_size
        unfold pushedTo at h1
        unfold EFX_RXQ_LIMIT
        omega
      have hstock2 := hstock2 hroom
      have hmul := hempty hlevel
      have hc := hup1.inv.ring.c_le_length
      have hiff := hup2.usable_iff
      rw [hlen2] at hiff
      dsimp only
      rw [if_pos hlevel]
      by_cases hlevel2 : (srp1.qrefill cfg io cfg.limit).level = 0
      · rw [if_pos hlevel2, freemsg_eq]
        have h8 : ¬ 8 ≤ srp1.posted.length - P + srp1.stock.refill cfg io.cpu (srp1.posted.length - P) := by
          have h1 := mt hiff.mpr (not_not.mpr hlevel2)
          unfold pushedTo at h1 hmul
          omega
        obtain ⟨hup3, hp3⟩ := hup2.stackFrees io (ps.map fun p => (io.cpu, p))
        obtain ⟨hup4, hp4⟩ := hup3.stackFrees io io.meanwhile
        have hempty4 : pushedTo (b + (((srp1.qrefill cfg io cfg.limit).stackFrees io (ps.map fun p =>
            (io.cpu, p))).stackFrees io io.meanwhile).posted.length) = b + P := by
          have h1 := mt hiff.mpr (not_not.mpr hlevel2)
          have h2 := hup2.behind
          rw [hp4, hp3, hlen2]
          rw [hlen2] at h2
          omega
        refine (hup4.topUp_empty hal hsized io hempty4).2.trans ?_
        rw [or_iff_right h8, hp4, hp3, hlen2, stock_stackFrees, stock_stackFrees, hstock2]
        have hsum : srp1.posted.length + srp1.stock.refill cfg io.cpu (srp1.posted.length - P) - P =
            srp1.posted.length - P + srp1.stock.refill cfg io.cpu (srp1.posted.length - P) := by omega
        rw [hsum]
      · rw [if_neg hlevel2]
        refine iff_of_true (hup2.kept hal io hlevel2) (Or.inl ?_)
        have h1 := hiff.mp hlevel2
        unfold pushedTo at h1 hmul
        omega
  · have hpass : srp1.passUp cfg io = srp1 := by
      unfold Rxq.passUp
      cases io.first with
      | none => rfl
      | some ps => exact if_neg hlevel
    rw [hpass]
    exact iff_of_true (hup1.kept hal io hlevel) fun heq => absurd (hpushed.mp heq) hlevel

end Rxq

end Sfxge.Rx
