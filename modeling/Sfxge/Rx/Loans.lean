import Sfxge.Rx.Runs

/-!
# Rx.Loans — the count of packets on loan

The count of loans is that of the packets that the stack holds and of those on put lists, as long as no
packet is created for the pool and every packet on loan is recycled when it is freed (`Lossless`).  A
preallocated packet goes to a put list without having been on loan, and one that is not recycled stays on
loan for ever.
-/

namespace Sfxge.Rx

open Lib RxqState

namespace Rxq

variable {cfg : Config} {io : Io} {A : Prop} {b C P k L n : ℕ} {srp srp' srp0 : Rxq}

/-- The packets that exist: in the ring from number `C` on, in the pool and with the stack. -/
def live (C : ℕ) (srp : Rxq) : ℕ :=
  srp.posted.length - C + srp.srfppGet.length + srp.putLength + srp.stack.length

/-- No packet has been preallocated or lost, and no assertion has failed.  At most `L` packets exist, `n` of
them in hand. -/
structure Lossless (L C n : ℕ) (srp : Rxq) : Prop where
  preallocated : srp.preallocated = 0
  lost : srp.lost = 0
  recycle : ∀ p < srp.created, (srp.packet p).srpRecycle = true
  asserts : srp.asserts = true
  live : srp.live C + n ≤ L

theorem Lossless.congr (h : srp.Lossless L C n) (h1 : srp'.preallocated = srp.preallocated)
    (h2 : srp'.lost = srp.lost) (h3 : srp'.packet = srp.packet) (h4 : srp'.created = srp.created)
    (h5 : srp'.asserts = srp.asserts) (h6 : srp'.live C = srp.live C) : srp'.Lossless L C n := by
  refine ⟨h1.trans h.preallocated, h2.trans h.lost, ?_, h5.trans h.asserts, h6 ▸ h.live⟩
  rw [h3, h4]
  exact h.recycle

/-! ### The pool -/

theorem Lossless.qfppPut (h : srp.Lossless L C (n + 1)) (cpu : Cpu) (p : Pkt) :
    (srp.qfppPut cpu p).Lossless L C n := by
  refine ⟨h.preallocated, h.lost, h.recycle, h.asserts, ?_⟩
  have hlive := h.live
  have hput := putLength_put srp cpu (srp.srfplPutp cpu ++ [p])
    (Function.update srp.srfplCount cpu (srp.srfplCount cpu + 1))
  change (srp.qfppPut cpu p).putLength + _ = _ at hput
  rw [List.length_append, List.length_singleton] at hput
  unfold Rxq.live at hlive ⊢
  change srp.posted.length - C + srp.srfppGet.length + (srp.qfppPut cpu p).putLength + srp.stack.length + n ≤ L
  omega

/-- A packet that is recycled is not lost. -/
theorem Lossless.qpacketFree (h : srp.Lossless L C (n + 1)) (cpu : Cpu) {p : Pkt} (hp : p < srp.created) :
    (srp.qpacketFree cpu true p).Lossless L C n := by
  unfold Rxq.qpacketFree
  rw [if_pos ⟨h.recycle p hp, rfl⟩]
  exact h.qfppPut cpu p

/-- Packets that are accounted for have been created. -/
theorem Pool.lt_created {hand : List Pkt} (h : srp.Pool C hand) {p : Pkt} (hp : 0 < srp.places C p + hand.count p) :
    p < srp.created := by
  have hown := h.owned p
  split_ifs at hown with hlt
  · exact hlt
  · omega

/-- The count of loans, while it does not wrap. -/
theorem Lossless.loaned (h : srp.Lossless L C 0) (hpool : srp.Pool C []) :
    srp.srfppLoaned = BitVec.ofNat 32 (srp.stack.length + srp.putLength) := by
  have hloaned := hpool.loaned
  rw [h.preallocated, h.lost] at hloaned
  exact (BitVec.add_zero _).symm.trans hloaned

/-- No assertion of a swizzle fails. -/
theorem Lossless.swizzleOne (h : srp.Lossless L C 0) (hpool : srp.Pool C []) (hL : L < 2 ^ 32) (id : Cpu) :
    (srp.swizzleOne id).Lossless L C 0 := by
  by_cases hp : srp.srfplPutp id = []
  · have hc : srp.srfplCount id = 0 := by
      rw [hpool.putCount, hp]
      rfl
    rw [swizzleOne_nil hp hc]
    exact h
  have hput := putLength_put srp id [] (Function.update srp.srfplCount id 0)
  have hle := length_le_putLength srp id
  have hlive := h.live
  unfold Rxq.live at hlive
  have hcount : srp.srfplCount id ≤ srp.srfppLoaned := by
    rw [BitVec.le_def, h.loaned hpool, hpool.putCount, BitVec.toNat_ofNat, BitVec.toNat_ofNat,
      Nat.mod_eq_of_lt (by omega), Nat.mod_eq_of_lt (by omega)]
    omega
  unfold Rxq.swizzleOne
  dsimp only
  rw [if_neg hp]
  refine ⟨h.preallocated, h.lost, h.recycle, ?_, ?_⟩
  · dsimp only
    rw [h.asserts, decide_eq_true hcount]
    rfl
  · unfold Rxq.live putLength at *
    dsimp only at hput ⊢
    rw [List.length_append]
    rw [List.length_nil] at hput
    omega

theorem Lossless.swizzle (h : srp.Lossless L C 0) (hf : Filled cfg b C P k srp0 srp) (hL : L < 2 ^ 32)
    (ids : List Cpu) : (ids.foldl (fun srp id => srp.swizzleOne id) srp).Lossless L C 0 := by
  induction ids generalizing srp with
  | nil => exact h
  | cons id ids ih => exact ih (h.swizzleOne hf.pool hL id) (hf.swizzleOne id)

/-! ### Refilling -/

theorem Lossless.qpost (h : srp.Lossless L C n) (k : ℕ) : (srp.qpost k).Lossless L C n :=
  h.congr rfl rfl rfl rfl rfl rfl

/-- A packet in hand is posted. -/
theorem Lossless.addPacket (h : srp.Lossless L C (n + 1)) (k : ℕ) (p : Pkt) (hC : C ≤ srp.posted.length) :
    (srp.addPacket cfg k p).1.Lossless L C n := by
  have hpost : (srp.postPacket cfg k p).Lossless L C n := by
    refine ⟨h.preallocated, h.lost, fun q hq => ?_, h.asserts, ?_⟩
    · refine Eq.trans ?_ (h.recycle q hq)
      exact recycle_setPacket (p := p) (f := fun srpp => { srpp with
        srpFlags := EFX_DISCARD
        srpSize := 0 }) (fun _ => rfl) srp q
    have hlive := h.live
    unfold Rxq.live at hlive ⊢
    change (srp.posted ++ [p]).length - C + srp.srfppGet.length + srp.putLength + srp.stack.length + n ≤ L
    rw [List.length_append, List.length_singleton]
    omega
  unfold Rxq.addPacket
  split_ifs
  · exact hpost.qpost _
  · exact hpost

theorem Lossless.refillLoop {m : ℕ} (h : srp.Lossless L C 0) (hC : C ≤ srp.posted.length) :
    (refillLoop cfg m k srp).Lossless L C 0 := by
  induction m generalizing k srp with
  | zero => exact h.qpost k
  | succ m ih =>
    unfold Rxq.refillLoop
    cases hget : srp.srfppGet with
    | nil => exact h.qpost k
    | cons p rest =>
      have htake : ({ srp with
          srfppGet := rest
          srfppCount := srp.srfppCount - 1 } : Rxq).Lossless L C 1 := by
        refine ⟨h.preallocated, h.lost, h.recycle, h.asserts, ?_⟩
        have hlive := h.live
        unfold Rxq.live putLength at hlive ⊢
        rw [hget, List.length_cons] at hlive
        dsimp only
        omega
      dsimp only
      split_ifs
      · exact ih ⟨h.preallocated, h.lost, h.recycle, h.asserts, Nat.le_of_succ_le htake.live⟩ hC
      · refine ih (htake.addPacket k p hC) ?_
        rw [length_addPacket]
        exact Nat.le_succ_of_le hC

theorem Lossless.qrefill (h : srp.Lossless L C 0) (hi : srp.Inv cfg b C P) (hL : L < 2 ^ 32) (io : Io)
    (target : U32) : (srp.qrefill cfg io target).Lossless L C 0 := by
  have hmin : ∀ {srp1 : Rxq}, srp1.Lossless L C 0 →
      (if srp1.srfppCount < srp1.srfppMin then { srp1 with srfppMin := srp1.srfppCount } else srp1).Lossless L C 0 := by
    intro srp1 h1
    split_ifs
    · exact h1.congr rfl rfl rfl rfl rfl rfl
    · exact h1
  unfold Rxq.qrefill
  split_ifs
  · exact h
  · exact hmin h
  · have hswz := h.swizzle hi.filled hL (swizzleOrder io.cpu)
    have hposted : (srp.qfppSwizzle io.cpu).posted = srp.posted := posted_swizzle _ _
    have hloop : (Rxq.refillLoop cfg (srp.ntodo cfg target) 0 (srp.qfppSwizzle io.cpu)).Lossless L C 0 :=
      hswz.refillLoop (by
        change C ≤ (srp.qfppSwizzle io.cpu).posted.length
        rw [hposted]
        exact hi.ring.c_le_length)
    exact hmin (hloop.congr rfl rfl rfl rfl rfl rfl)

/-- New packets are recycled as well; there are more of them. -/
theorem Lossless.fillLoop {m c : ℕ} (h : srp.Lossless L C 0) (hC : C ≤ srp.posted.length) :
    ∃ L', (fillLoop cfg m c k srp).Lossless L' C 0 := by
  induction m generalizing k srp c L with
  | zero => exact ⟨L, h.qpost k⟩
  | succ m ih =>
    cases c with
    | zero => exact ⟨L, h.qpost k⟩
    | succ c =>
      have hnew : srp.qpacketCreate.2.Lossless (L + 1) C 1 := by
        refine ⟨h.preallocated, h.lost, fun q hq => ?_, h.asserts, Nat.succ_le_succ h.live⟩
        change (Function.update srp.packet srp.created _ q).srpRecycle = true
        by_cases hqc : q = srp.created
        · subst hqc
          rw [Function.update_self]
        · rw [Function.update_of_ne hqc]
          exact h.recycle q (Nat.lt_of_le_of_ne (Nat.le_of_lt_succ hq) hqc)
      refine ih (hnew.addPacket k srp.created hC) ?_
      rw [length_addPacket]
      exact Nat.le_succ_of_le hC

theorem Lossless.qfill (h : srp.Lossless L C 0) (hi : srp.Inv cfg b C P) (io : Io) (target : U32) :
    ∃ L', (srp.qfill cfg io target).Lossless L' C 0 := by
  unfold Rxq.qfill
  split_ifs
  · exact ⟨L, h⟩
  · exact ⟨L, h⟩
  · have hloop : ∃ L', (Rxq.fillLoop cfg (srp.ntodo cfg target) io.creates 0 srp).Lossless L' C 0 :=
      h.fillLoop hi.ring.c_le_length
    obtain ⟨L', h'⟩ := hloop
    exact ⟨L', h'.congr rfl rfl rfl rfl rfl rfl⟩

/-! ### Completion -/

theorem Lossless.completeOne (h : srp.Lossless L C 0) (hf : Filled cfg b C P 0 srp0 srp)
    (hrec : ∀ p, io.recycled p = true) (hr : srp.completeOne cfg io (idx 32 b C) = some srp') :
    srp'.Lossless L (C + 1) 0 := by
  have hsize := cfg.le_size
  unfold Rxq.completeOne at hr
  dsimp only at hr
  rw [cfg.slot_idx] at hr
  rcases Nat.lt_or_ge C srp.posted.length with hC | hC
  · rw [hf.ring.slot (Nat.le_refl C) hC] at hr
    dsimp only at hr
    set f : Packet → Packet := fun srpp =>
      { srpp with srpSize := (srp.receive (srp.packet srp.posted[C]) (io.see srp.posted[C])).2 } with hfdef
    set srp1 : Rxq := { srp.setPacket srp.posted[C] f with
      srSrpp := Function.update srp.srSrpp ((b + C) % cfg.size) none
      srfppLoaned := srp.srfppLoaned + 1 } with hsrp1
    have hlive := h.live
    unfold Rxq.live at hlive
    have h1 : srp1.Lossless L (C + 1) 1 := by
      refine ⟨h.preallocated, h.lost, fun q hq => Eq.trans ?_ (h.recycle q hq), h.asserts, ?_⟩
      · exact recycle_setPacket (f := f) (fun _ => rfl) srp q
      change srp.posted.length - (C + 1) + srp.srfppGet.length + srp.putLength + srp.stack.length + 1 ≤ L
      omega
    split_ifs at hr <;> cases hr
    · refine ⟨h1.preallocated, h1.lost, h1.recycle, h1.asserts, ?_⟩
      change srp.posted.length - (C + 1) + srp.srfppGet.length + srp.putLength +
        (srp.stack ++ [srp.posted[C]]).length + 0 ≤ L
      rw [List.length_append, List.length_singleton]
      omega
    · rw [hrec]
      refine h1.qpacketFree io.cpu (hf.pool.lt_created ?_)
      have hpos := List.count_pos_iff.mpr (List.mem_drop_iff_getElem.mpr ⟨0, by omega, by simp⟩ :
        srp.posted[C] ∈ srp.posted.drop C)
      unfold places
      omega
  · have hCle := hf.ring.c_le_length
    rw [hf.ring.slot_none hC (by omega)] at hr
    split_ifs at hr

theorem Lossless.completeLoop {m : ℕ} (h : srp.Lossless L C 0) (hf : Filled cfg b C P 0 srp0 srp)
    (hm : C + m = P) (hrec : ∀ p, io.recycled p = true)
    (hr : completeLoop cfg io m (idx 32 b C) srp = some srp') : srp'.Lossless L P 0 := by
  induction m generalizing C srp with
  | zero =>
    cases hm
    cases hr
    exact h.congr rfl rfl rfl rfl rfl rfl
  | succ m ih =>
    obtain ⟨srp1, h1, h2⟩ := Option.bind_eq_some_iff.mp hr
    change Rxq.completeLoop cfg io m (idx 32 b C + 1#32) srp1 = _ at h2
    rw [idx_succ] at h2
    exact ih (h.completeOne hf hrec h1) (hf.completeOne (by omega) h1) (by omega) h2

theorem Lossless.stackFree (h : srp.Lossless L C 0) (hpool : srp.Pool C []) (cpu : Cpu) (p : Pkt) :
    (srp.stackFree cpu true p).Lossless L C 0 := by
  unfold Rxq.stackFree
  split_ifs with hp
  · have htake : ({ srp with stack := srp.stack.erase p } : Rxq).Lossless L C 1 := by
      refine ⟨h.preallocated, h.lost, h.recycle, h.asserts, ?_⟩
      have hlive := h.live
      have hpos := List.length_pos_of_mem hp
      unfold Rxq.live at hlive ⊢
      change srp.posted.length - C + srp.srfppGet.length + srp.putLength + (srp.stack.erase p).length + 1 ≤ L
      rw [List.length_erase_of_mem hp]
      omega
    refine htake.qpacketFree cpu ((hpool.take hp).lt_created ?_)
    rw [List.count_cons_self]
    omega
  · exact h

theorem Lossless.stackFrees (h : srp.Lossless L C 0) (hi : srp.Inv cfg b C P) (hrec : ∀ p, io.recycled p = true)
    (fs : List (Cpu × Pkt)) : (srp.stackFrees io fs).Lossless L C 0 := by
  induction fs generalizing srp with
  | nil => exact h
  | cons f fs ih =>
    have h1 := h.stackFree hi.pool f.1 f.2
    rw [← hrec f.2] at h1
    exact ih h1 (hi.stackFree f.1 (io.recycled f.2) f.2)

theorem Lossless.passUp (h : srp.Lossless L C 0) (hi : srp.Inv cfg b C P) (hL : L < 2 ^ 32)
    (hrec : ∀ p, io.recycled p = true) : (srp.passUp cfg io).Lossless L C 0 := by
  unfold Rxq.passUp
  cases io.first with
  | none => exact h
  | some ps =>
    have h1 := h.qrefill hi hL io cfg.limit
    have hi1 := hi.of_filled (hi.qrefill io cfg.limit)
    dsimp only
    split_ifs
    · rw [freemsg_eq]
      exact h1.stackFrees hi1 hrec _
    · exact h1
    · exact h

theorem Lossless.topUp (h : srp.Lossless L C 0) (hi : srp.Inv cfg b C P) (hL : L < 2 ^ 32) (io : Io)
    (level : U32) : ∃ L', (srp.topUp cfg io level).Lossless L' C 0 := by
  have h1 := h.qrefill hi hL io cfg.limit
  have hi1 := hi.of_filled (hi.qrefill io cfg.limit)
  unfold Rxq.topUp
  dsimp only
  split_ifs
  · exact h1.qfill hi1 io cfg.limit
  · exact ⟨L, h1⟩
  · exact ⟨L, h⟩

theorem Lossless.qcomplete (h : srp.Lossless L C 0) (hi : srp.Inv cfg b C P) (hL : L < 2 ^ 32)
    (hrec : ∀ p, io.recycled p = true) (hr : srp.qcomplete cfg io = some srp') :
    ∃ L', srp'.Lossless L' P 0 := by
  obtain ⟨srp1, h1, rfl⟩ := Option.map_eq_some_iff.mp hr
  rw [hi.completed] at h1
  have hn := hi.completed ▸ hi.ncomplete
  have hl1 := h.completeLoop hi.filled hn hrec h1
  obtain ⟨hi1, -⟩ := hi.filled.completeLoop hn h1
  obtain ⟨hi2, -⟩ := hi1.passUp io
  obtain ⟨hi3, -⟩ := hi2.stackFrees io io.meanwhile
  exact ((hl1.passUp hi1 hL hrec).stackFrees hi2 hrec io.meanwhile).topUp hi3 hL io _

theorem Lossless.evQcomplete (h : srp.Lossless L C 0) (hi : srp.Inv cfg b C P) (hL : L < 2 ^ 32)
    (hrec : ∀ p, io.recycled p = true) (hr : srp.evQcomplete cfg io = some srp') :
    ∃ L', srp'.Lossless L' P 0 := by
  unfold Rxq.evQcomplete at hr
  split_ifs at hr with hne
  · exact h.qcomplete hi hL hrec hr
  · cases hr
    obtain rfl := hi.pending_eq.mp (not_not.mp hne)
    exact ⟨L, h⟩

/-! ### Operations -/

/-- The packets that exist, by the counters. -/
def existing (srp : Rxq) : ℕ :=
  (srp.srAdded - srp.srCompleted).toNat + srp.srfppGet.length + srp.putLength + srp.stack.length

theorem Inv.existing (h : srp.Inv cfg b C P) : srp.existing = srp.live C := by
  unfold Rxq.existing live
  rw [h.rxfill]

/-- An operation that creates no packet for the pool and in which every packet that is freed on loan is
recycled. -/
def Recycles : Op → Prop
  | .preallocate _ nprealloc => nprealloc.toInt ≤ 0
  | .evRx io _ _ _ | .evPolled io | .qdrain io => ∀ p, io.recycled p = true
  | .stackFree _ recycled _ => recycled = true
  | .qinit | .qstart _ _ | .trim _ | .qstop | .qfini _ => True

theorem Lossless.evRx (h : srp.Lossless L C 0) (hs : srp.Sound cfg A b C P) (hL : L < 2 ^ 32)
    (hrec : ∀ p, io.recycled p = true) {id : U32} {size flags : U16}
    (hr : srp.evRx cfg io id size flags = some srp') : ∃ L' C', srp'.Lossless L' C' 0 := by
  by_cases hex : srp.seException = true ∨ srp.srState ≠ SFXGE_RXQ_STARTED
  · unfold Rxq.evRx at hr
    rw [if_pos hex] at hr
    cases hr
    exact ⟨L, C, h⟩
  obtain ⟨hex, hst⟩ := not_or.mp hex
  have hex : srp.seException = false := Bool.eq_false_iff.mpr hex
  rcases hs.inv.evRx (hs.ahead (Or.inr hex)) hex (not_not.mp hst) hr with ⟨-, rfl⟩ | ⟨-, hd, srp1, hm, hr1⟩
  · exact ⟨L, C, h.congr rfl rfl rfl rfl rfl rfl⟩
  · have hi1 := hs.inv.of_marked hm hd
    obtain ⟨heq, hkeep⟩ := hm
    have h1 : srp1.Lossless L C 0 := by
      rw [heq]
      exact ⟨h.preallocated, h.lost, fun q hq => (hkeep q).trans (h.recycle q hq), h.asserts, h.live⟩
    rcases hr1 with rfl | hr1
    · exact ⟨L, C, h1⟩
    · obtain ⟨L', h'⟩ := h1.evQcomplete hi1 hL hrec hr1
      exact ⟨L', _, h'⟩

theorem Lossless.qstart (h : srp.Lossless L C 0) (hs : srp.Sound cfg A b C P) (hL : L < 2 ^ 32) (io : Io)
    (port : Port) : ∃ L', (srp.qstart cfg io port).Lossless L' C 0 := by
  unfold Rxq.qstart
  split_ifs
  · dsimp only
    set srp1 : Rxq := { srp with
      srHiwat := cfg.limit * 9 / 10
      srLowat := cfg.limit * 9 / 10 / 2
      srState := SFXGE_RXQ_STARTED
      port := port
      seException := false
      seRx := 0 } with hsrp1
    have hi1 : srp1.Inv cfg b C P := ⟨hs.inv.ring.congr rfl rfl rfl rfl, ⟨hs.inv.pool.count,
      hs.inv.pool.putCount, hs.inv.pool.owned, hs.inv.pool.loaned⟩, hs.inv.completed⟩
    have h1 : srp1.Lossless L C 0 := h.congr rfl rfl rfl rfl rfl rfl
    have h2 := h1.qrefill hi1 hL io cfg.limit
    split_ifs
    · exact h2.qfill (hi1.of_filled (hi1.qrefill io cfg.limit)) io SFXGE_RX_BATCH
    · exact ⟨L, h2⟩
  · exact ⟨L, h⟩

theorem Lossless.freeRest (h : srp.Lossless L C n) (m : ℕ) :
    (({ srp with srfppGet := srp.srfppGet.take m } : Rxq).freeRest (srp.srfppGet.drop m)).Lossless L C n := by
  have hlive := h.live
  have hle := (List.take_sublist m srp.srfppGet).length_le
  refine ⟨h.preallocated, h.lost, h.recycle, h.asserts, ?_⟩
  unfold Rxq.live at hlive ⊢
  change srp.posted.length - C + (srp.srfppGet.take m).length + srp.putLength + srp.stack.length + n ≤ L
  omega

theorem Lossless.qfppTrim (h : srp.Lossless L C 0) (hi : srp.Inv cfg b C P) (hL : L < 2 ^ 32)
    (hr : srp.qfppTrim cfg io = some srp') : srp'.Lossless L C 0 := by
  have h1 := h.qrefill hi hL io cfg.limit
  unfold Rxq.qfppTrim at hr
  dsimp only at hr
  split_ifs at hr <;> cases hr
  · exact h.congr rfl rfl rfl rfl rfl rfl
  · exact h1.congr rfl rfl rfl rfl rfl rfl
  · exact h1.congr rfl rfl rfl rfl rfl rfl
  all_goals exact (h1.freeRest _).congr rfl rfl rfl rfl rfl rfl

theorem Lossless.qfini (h : srp.Lossless L C 0) (hi : srp.Inv cfg b C P) (hL : L < 2 ^ 32) (io : Io) :
    (srp.qfini io).Lossless L C 0 := by
  unfold Rxq.qfini
  split_ifs
  · have h1 : (srp.qfppSwizzle io.cpu).Lossless L C 0 := h.swizzle hi.filled hL (swizzleOrder io.cpu)
    refine ⟨h1.preallocated, h1.lost, h1.recycle, h1.asserts, Nat.le_trans ?_ h1.live⟩
    unfold Rxq.live putLength
    dsimp only
    rw [List.length_nil]
    omega
  · exact h

/-- **Step lemma.**  An operation that recycles loses no packet, when there are fewer than `2 ^ 32`. -/
theorem Lossless.step (h : srp.Lossless L C 0) (hs : srp.Sound cfg A b C P) (hL : L < 2 ^ 32) {o : Op}
    (hrec : Recycles o) (hr : step cfg o srp = some srp') : ∃ L' C', srp'.Lossless L' C' 0 := by
  cases o with
  | preallocate io nprealloc =>
    change (if _ then _ else _) = _ at hr
    split_ifs at hr <;> cases hr
    · have hzero : min nprealloc.toInt.toNat io.creates = 0 := by
        rw [Int.toNat_of_nonpos hrec, Nat.zero_min]
      unfold qpreallocate
      rw [hzero]
      exact ⟨L, C, h.congr rfl rfl rfl rfl rfl rfl⟩
    · exact ⟨L, C, h⟩
  | qinit =>
    cases hr
    unfold qinit
    split_ifs
    · exact ⟨L, C, h.congr rfl rfl rfl rfl rfl rfl⟩
    · exact ⟨L, C, h⟩
  | qstart io port =>
    cases hr
    obtain ⟨L', h'⟩ := h.qstart hs hL io port
    exact ⟨L', C, h'⟩
  | evRx io id size flags => exact h.evRx hs hL hrec hr
  | evPolled io =>
    have h0 : ({ srp with seRx := 0 } : Rxq).Lossless L C 0 := h.congr rfl rfl rfl rfl rfl rfl
    have hi0 : ({ srp with seRx := 0 } : Rxq).Inv cfg b C P := ⟨hs.inv.ring.congr rfl rfl rfl rfl,
      ⟨hs.inv.pool.count, hs.inv.pool.putCount, hs.inv.pool.owned, hs.inv.pool.loaned⟩, hs.inv.completed⟩
    obtain ⟨L', h'⟩ := h0.evQcomplete hi0 hL hrec hr
    exact ⟨L', P, h'⟩
  | trim io => exact ⟨L, C, h.qfppTrim hs.inv hL hr⟩
  | stackFree cpu recycled p =>
    cases hr
    cases (show recycled = true from hrec)
    exact ⟨L, C, h.stackFree hs.inv.pool cpu p⟩
  | qstop =>
    cases hr
    unfold qstop
    split_ifs
    · exact ⟨L, C, h.congr rfl rfl rfl rfl rfl rfl⟩
    · exact ⟨L, C, h⟩
  | qdrain io =>
    change (if _ then _ else _) = _ at hr
    split_ifs at hr
    · obtain ⟨srp1, h1, rfl⟩ := Option.map_eq_some_iff.mp hr
      have h0 : ({ srp with srPending := srp.srAdded } : Rxq).Lossless L C 0 := h.congr rfl rfl rfl rfl rfl rfl
      obtain ⟨L', h'⟩ := h0.qcomplete (hs.inv.drained) hL hrec h1
      exact ⟨L', _, h'.congr rfl rfl rfl rfl rfl rfl⟩
    · cases hr
      exact ⟨L, C, h⟩
  | qfini io =>
    cases hr
    exact ⟨L, C, h.qfini hs.inv hL io⟩

/-! ### Runs -/

/-- `srfpp_loaned` is the count of the packets of the stack and the put lists, and was never less than what
a put list gave back; when the stack has returned all packets, a swizzle leaves none on loan. -/
structure LoansAccounted (srp : Rxq) : Prop where
  loaned : srp.srfppLoaned = BitVec.ofNat 32 (srp.stack.length + srp.putLength)
  asserted : srp.asserts = true
  returned : srp.stack = [] → ∀ cpu, (srp.qfppSwizzle cpu).srfppLoaned = 0

theorem putp_swizzleOne (id id' : Cpu) (srp : Rxq) :
    (srp.swizzleOne id).srfplPutp id' = if id' = id then [] else srp.srfplPutp id' := by
  have h : (srp.swizzleOne id).srfplPutp = Function.update srp.srfplPutp id [] := by
    unfold swizzleOne
    dsimp only
    split_ifs <;> rfl
  rw [h]
  exact Function.update_apply ..

theorem putp_swizzle (ids : List Cpu) {id : Cpu} (srp : Rxq) (h : id ∈ ids ∨ srp.srfplPutp id = []) :
    (ids.foldl (fun srp id => srp.swizzleOne id) srp).srfplPutp id = [] := by
  induction ids generalizing srp with
  | nil => exact h.resolve_left List.not_mem_nil
  | cons id' ids ih =>
    refine ih _ ?_
    rw [putp_swizzleOne]
    by_cases hid : id = id'
    · exact Or.inr (if_pos hid)
    · rw [if_neg hid]
      exact h.imp_left fun hmem => (List.mem_cons.mp hmem).resolve_left hid

/-- A swizzle frees no packet. -/
theorem swizzle_keeps (ids : List Cpu) (srp : Rxq) :
    (ids.foldl (fun srp id => srp.swizzleOne id) srp).stack = srp.stack ∧
    (ids.foldl (fun srp id => srp.swizzleOne id) srp).preallocated = srp.preallocated ∧
    (ids.foldl (fun srp id => srp.swizzleOne id) srp).lost = srp.lost := by
  induction ids generalizing srp with
  | nil => exact ⟨rfl, rfl, rfl⟩
  | cons id ids ih =>
    have hone : (srp.swizzleOne id).stack = srp.stack ∧ (srp.swizzleOne id).preallocated = srp.preallocated ∧
        (srp.swizzleOne id).lost = srp.lost := by
      unfold swizzleOne
      dsimp only
      split_ifs <;> exact ⟨rfl, rfl, rfl⟩
    obtain ⟨h1, h2, h3⟩ := ih (srp.swizzleOne id)
    exact ⟨h1.trans hone.1, h2.trans hone.2.1, h3.trans hone.2.2⟩

/-- A swizzle empties all put lists. -/
theorem putLength_qfppSwizzle (cpu : Cpu) (srp : Rxq) : (srp.qfppSwizzle cpu).putLength = 0 := by
  have hall : ∀ cpu id : Cpu, id ∈ swizzleOrder cpu := by decide
  refine Finset.sum_eq_zero fun id _ => ?_
  rw [qfppSwizzle, putp_swizzle _ _ (Or.inl (hall cpu id))]
  rfl

theorem Lossless.accounted (h : srp.Lossless L C 0) (hi : srp.Inv cfg b C P) : srp.LoansAccounted := by
  refine ⟨h.loaned hi.pool, h.asserts, fun hstack cpu => ?_⟩
  have hf : Filled cfg b C P 0 srp (srp.qfppSwizzle cpu) := hi.filled.swizzle (swizzleOrder cpu)
  have hloaned := hf.pool.loaned
  obtain ⟨hs, hpre, hlost⟩ : (srp.qfppSwizzle cpu).stack = srp.stack ∧
    (srp.qfppSwizzle cpu).preallocated = srp.preallocated ∧ (srp.qfppSwizzle cpu).lost = srp.lost :=
    swizzle_keeps _ _
  rw [putLength_qfppSwizzle, hpre, hlost, hs, hstack, h.preallocated, h.lost] at hloaned
  exact (BitVec.add_zero _).symm.trans hloaned

theorem lossless_construct : construct.Lossless 0 0 0 := by
  refine ⟨rfl, rfl, nofun, rfl, ?_⟩
  unfold live putLength
  simp [construct]

/-- **Loan accounting.**  In a run in which no packet is created for the pool, every packet that is freed on
loan is recycled and fewer than `2 ^ 32` packets exist, the loans are accounted for. -/
theorem loans_accounted (cfg : Config) (os : List Op) (hrec : ∀ o ∈ os, Recycles o)
    (hlt : StepsAlong (step cfg) (fun _ srp => srp.existing < 2 ^ 32) os construct) :
    AlwaysAlong (step cfg) LoansAccounted os construct := by
  refine alwaysAlong_of_steps (I := fun srp => ∃ L b C P, srp.Lossless L C 0 ∧ srp.Sound cfg False b C P)
    (C := fun o srp => Recycles o ∧ srp.existing < 2 ^ 32) ?_ ?_ os ?_ (hlt.and_ops hrec)
  · rintro o srp srp' ⟨L, b, C, P, h, hs⟩ ⟨hrec, hlt⟩ hr
    rw [hs.inv.existing] at hlt
    have h' : srp.Lossless (srp.live C) C 0 := ⟨h.preallocated, h.lost, h.recycle, h.asserts, Nat.le_refl _⟩
    obtain ⟨L', C1, h1⟩ := h'.step hs hlt hrec hr
    obtain ⟨b', C', P', hs'⟩ := hs.step False.elim hr
    exact ⟨srp'.live C', b', C', P', ⟨h1.preallocated, h1.lost, h1.recycle, h1.asserts, Nat.le_refl _⟩, hs'⟩
  · rintro srp ⟨L, b, C, P, h, hs⟩
    exact h.accounted hs.inv
  · exact ⟨0, 0, 0, 0, lossless_construct, sound_construct cfg False⟩

/-- The loans of a run in which two packets are received, passed up and freed on different CPUs. -/
theorem loans_accounted_two : AlwaysAlong (step .least) LoansAccounted
    [.qinit, .qstart (.plain true) ⟨0, 0, 1500⟩, .evRx (.plain true) 1 64 EFX_PKT_IPV4, .evPolled (.plain true),
      .stackFree 3 true 0, .trim (.plain true), .stackFree 5 true 1, .qstop, .qdrain (.plain true),
      .qfini (.plain true)] construct :=
  loans_accounted .least _ (by simp [Recycles, Io.plain]) (by decide +kernel)

/-- A run whose last state has another count of loans. -/
theorem not_accounted {os : List Op}
    (h : ((runOps (step .least) os construct).any fun srp =>
      decide (srp.srfppLoaned ≠ BitVec.ofNat 32 (srp.stack.length + srp.putLength))) = true) :
    ¬ AlwaysAlong (step .least) LoansAccounted os construct := by
  obtain ⟨srp, hr, hne⟩ := exists_of_any h
  exact fun hall => hne (hall.last hr).loaned

/-- A packet that is created for the pool or lost when it is freed is not accounted for: the count of loans
is below that of the put lists, so that the next swizzle takes it below zero, or it does not come back to
zero. -/
theorem loans_unaccounted :
    ¬ AlwaysAlong (step .least) LoansAccounted [.preallocate (.plain true) 1] construct ∧
    (∃ srp, runOps (step .least) [.preallocate (.plain true) 1, .qinit,
      .qstart (.plain true) ⟨0, 0, 1500⟩] construct = some srp ∧
      (srp.asserts = false ∧ srp.srfppLoaned = 0xffffffff)) ∧
    ¬ AlwaysAlong (step .least) LoansAccounted [.qinit, .qstart (.plain true) ⟨0, 0, 1500⟩,
      .evRx (.plain true) 0 64 EFX_PKT_IPV4, .evPolled (.plain true), .stackFree 3 false 0] construct := by
  refine ⟨not_accounted ?_, exists_of_any ?_, not_accounted ?_⟩
  · decide
  · decide
  · decide +kernel

end Rxq

end Sfxge.Rx
