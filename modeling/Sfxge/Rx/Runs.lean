import Sfxge.Lib.Run
import Sfxge.Rx.Accounting

/-!
# Rx.Runs — what every run of a receive queue keeps

An event moves the pending counter round the ring to the descriptor after its own (`delta`) and marks the
packets in between.  `Sound` is the accounting of `Rx.Accounting` with what is known of a queue that is
stopped or whose event queue has seen an exception; every operation keeps it (`Sound.step`).
-/

namespace Sfxge.Rx

open Lib RxqState

namespace Rxq

variable {cfg : Config} {io : Io} {A : Prop} {b C P : ℕ} {srp srp' : Rxq}

/-! ### Events -/

theorem delta_toNat (cfg : Config) (id : U32) (srp : Rxq) :
    (srp.delta cfg id).toNat = ((id + 1).toNat % cfg.size + cfg.size - srp.srPending.toNat % cfg.size) % cfg.size := by
  have hsize := cfg.size_le
  have hpos := cfg.le_size
  have hs : ((id + 1) &&& cfg.mask).toNat = (id + 1).toNat % cfg.size := cfg.slot_eq _
  have hp : (srp.srPending &&& cfg.mask).toNat = srp.srPending.toNat % cfg.size := cfg.slot_eq _
  have hs' : (id + 1).toNat % cfg.size < cfg.size := Nat.mod_lt _ (by omega)
  have hp' : srp.srPending.toNat % cfg.size < cfg.size := Nat.mod_lt _ (by omega)
  have hn : (BitVec.ofNat 32 cfg.size).toNat = cfg.size := by
    rw [BitVec.toNat_ofNat]
    exact Nat.mod_eq_of_lt (by omega)
  unfold delta
  dsimp only
  split_ifs with hle
  · have hle' : srp.srPending.toNat % cfg.size ≤ (id + 1).toNat % cfg.size := by
      rw [← hs, ← hp]
      exact BitVec.le_def.mp hle
    have hsum : (id + 1).toNat % cfg.size + cfg.size - srp.srPending.toNat % cfg.size =
        ((id + 1).toNat % cfg.size - srp.srPending.toNat % cfg.size) + cfg.size := by omega
    rw [BitVec.toNat_sub_of_le hle, hs, hp, hsum, Nat.add_mod_right,
      Nat.mod_eq_of_lt (show (id + 1).toNat % cfg.size - srp.srPending.toNat % cfg.size < cfg.size by omega)]
  · have hlt : (id + 1).toNat % cfg.size < srp.srPending.toNat % cfg.size := by
      rw [← hs, ← hp]
      exact BitVec.lt_def.mp (BitVec.not_le.mp hle)
    have hsub : (BitVec.ofNat 32 cfg.size - (srp.srPending &&& cfg.mask)).toNat =
        cfg.size - srp.srPending.toNat % cfg.size := by
      rw [BitVec.toNat_sub_of_le (by rw [BitVec.le_def, hn, hp]; omega), hn, hp]
    have hlt' : cfg.size - srp.srPending.toNat % cfg.size + (id + 1).toNat % cfg.size < cfg.size := by omega
    have hsum : (id + 1).toNat % cfg.size + cfg.size - srp.srPending.toNat % cfg.size =
        cfg.size - srp.srPending.toNat % cfg.size + (id + 1).toNat % cfg.size := by omega
    rw [BitVec.toNat_add, hsub, hs, hsum, Nat.mod_eq_of_lt hlt', Nat.mod_eq_of_lt (Nat.lt_of_lt_of_le hlt' (by omega))]

theorem delta_lt (cfg : Config) (id : U32) (srp : Rxq) : (srp.delta cfg id).toNat < cfg.size := by
  rw [delta_toNat]
  exact Nat.mod_lt _ (Nat.two_pow_pos _)

/-- An event's slots are those of the descriptors from the pending one on. -/
theorem Ring.slotsTo (h : srp.Ring cfg b C P 0) (id : U32) :
    slotsTo cfg (srp.srPending &&& cfg.mask) ((id + 1) &&& cfg.mask) =
      (List.range (srp.delta cfg id).toNat).map fun i => (b + (P + i)) % cfg.size := by
  have hsize := cfg.size_le
  have hpos := cfg.le_size
  have hs : ((id + 1) &&& cfg.mask).toNat = (id + 1).toNat % cfg.size := cfg.slot_eq _
  have hp : (srp.srPending &&& cfg.mask).toNat = srp.srPending.toNat % cfg.size := cfg.slot_eq _
  have hp' : srp.srPending.toNat % cfg.size < cfg.size := Nat.mod_lt _ (by omega)
  have hlen : cfg.slot (((id + 1) &&& cfg.mask) - (srp.srPending &&& cfg.mask)) = (srp.delta cfg id).toNat := by
    obtain ⟨q, hq⟩ := cfg.size_dvd
    have hqpos : 0 < q := by
      rcases Nat.eq_zero_or_pos q with rfl | hq0
      · omega
      · exact hq0
    obtain ⟨q', rfl⟩ := Nat.exists_eq_add_of_lt hqpos
    have hsum : 2 ^ 32 - srp.srPending.toNat % cfg.size + (id + 1).toNat % cfg.size =
        (id + 1).toNat % cfg.size + cfg.size - srp.srPending.toNat % cfg.size + cfg.size * q' := by
      rw [hq, Nat.zero_add, Nat.mul_add, Nat.mul_one]
      omega
    rw [cfg.slot_eq, BitVec.toNat_sub, hs, hp, Nat.mod_mod_of_dvd _ cfg.size_dvd, hsum, Nat.add_mul_mod_self_left,
      delta_toNat]
  unfold Rxq.slotsTo
  rw [hlen]
  refine List.map_congr_left fun i _ => ?_
  have hbase : (srp.srPending &&& cfg.mask).toNat = (b + P) % cfg.size := by
    rw [h.pending]
    exact cfg.slot_idx b P
  rw [add_ofNat, cfg.slot_idx, hbase, Nat.mod_add_mod, Nat.add_assoc]

theorem recycle_setPacket {p : Pkt} {f : Packet → Packet} (hf : ∀ srpp, (f srpp).srpRecycle = srpp.srpRecycle)
    (srp : Rxq) (q : Pkt) : ((srp.setPacket p f).packet q).srpRecycle = (srp.packet q).srpRecycle := by
  change (Function.update srp.packet p (f (srp.packet p)) q).srpRecycle = _
  by_cases hqp : q = p
  · subst hqp
    rw [Function.update_self, hf]
  · rw [Function.update_of_ne hqp]

/-- Marking changes only packets, and does not change whether they are recycled. -/
theorem markSlots_inv {flags size : U16} {is : List ℕ} (hr : markSlots flags size is srp = some srp') :
    srp' = { srp with
      packet := srp'.packet
      marks := srp.marks ++ is.filterMap fun i => (srp.srSrpp i).map (·, flags, size) } ∧
    (∀ q, (srp'.packet q).srpRecycle = (srp.packet q).srpRecycle) ∧ ∀ i ∈ is, srp.srSrpp i ≠ none := by
  induction is generalizing srp with
  | nil =>
    cases hr
    refine ⟨?_, fun _ => rfl, nofun⟩
    rw [List.filterMap_nil, List.append_nil]
  | cons i is ih =>
    unfold markSlots at hr
    cases hi : srp.srSrpp i with
    | none =>
      rw [hi] at hr
      cases hr
    | some p =>
      rw [hi] at hr
      dsimp only at hr
      obtain ⟨heq, hrec, hall⟩ := ih hr
      refine ⟨?_, fun q => (hrec q).trans ?_, ?_⟩
      · rw [List.filterMap_cons, hi]
        change srp' = { srp with
          packet := srp'.packet
          marks := srp.marks ++ ((p, flags, size) :: _) }
        rw [List.append_cons]
        exact heq
      · exact recycle_setPacket (f := fun srpp => { srpp with
          srpFlags := flags
          srpSize := size }) (fun _ => rfl) srp q
      · rintro i' hi'
        rcases List.mem_cons.mp hi' with rfl | hi'
        · rw [hi]
          exact nofun
        · exact hall i' hi'

theorem markSlots_some (flags size : U16) {is : List ℕ} (h : ∀ i ∈ is, srp.srSrpp i ≠ none) :
    ∃ srp', markSlots flags size is srp = some srp' := by
  induction is generalizing srp with
  | nil => exact ⟨srp, rfl⟩
  | cons i is ih =>
    obtain ⟨p, hp⟩ := Option.ne_none_iff_exists'.mp (h i (by simp))
    unfold markSlots
    rw [hp]
    exact ih fun i' hi' => h i' (by simp [hi'])

/-- The pending counter is moved. -/
theorem Inv.advance (h : srp.Inv cfg b C P) {d : U32} (hd : P + d.toNat < srp.posted.length + cfg.size) :
    ({ srp with srPending := srp.srPending + d } : Rxq).Inv cfg b C (P + d.toNat) := by
  have hr := h.ring
  refine ⟨⟨hr.added, ?_, Nat.le_add_right_of_le hr.c_le, hr.c_le_length, hd, hr.limit, hr.window, hr.others⟩,
    ⟨h.pool.count, h.pool.putCount, h.pool.owned, h.pool.loaned⟩, h.completed⟩
  dsimp only
  rw [hr.pending, ← idx_add, BitVec.ofNat_toNat, BitVec.setWidth_eq]

/-- What an accepted event has done before the completion that it may start. -/
def marked (cfg : Config) (P : ℕ) (id : U32) (size flags : U16) (srp srp' : Rxq) : Prop :=
  srp' = { srp with
    packet := srp'.packet
    srPending := srp.srPending + srp.delta cfg id
    seRx := srp.seRx + 1
    marks := srp.marks ++ (List.range (srp.delta cfg id).toNat).filterMap fun i =>
      (srp.posted[P + i]?).map (·, flags, size) } ∧
  ∀ q, (srp'.packet q).srpRecycle = (srp.packet q).srpRecycle

theorem Inv.of_marked (h : srp.Inv cfg b C P) {id : U32} {size flags : U16} (hm : marked cfg P id size flags srp srp')
    (hd : P + (srp.delta cfg id).toNat ≤ srp.posted.length) :
    srp'.Inv cfg b C (P + (srp.delta cfg id).toNat) := by
  have hpos := cfg.le_size
  have hi := h.advance (d := srp.delta cfg id) (by omega)
  rw [hm.1]
  exact ⟨hi.ring.congr rfl rfl rfl rfl, ⟨hi.pool.count, hi.pool.putCount, hi.pool.owned, hi.pool.loaned⟩,
    hi.completed⟩

/-- The packets that an event marks. -/
theorem Ring.marks (h : srp.Ring cfg b C P 0) {d : ℕ} (hd : P + d ≤ srp.posted.length) (flags size : U16) :
    (((List.range d).map fun i => (b + (P + i)) % cfg.size).filterMap fun i =>
        (srp.srSrpp i).map (·, flags, size)) =
      (List.range d).filterMap fun i => (srp.posted[P + i]?).map (·, flags, size) := by
  have hc := h.c_le
  have hlimit := h.limit
  rw [List.filterMap_map]
  refine List.filterMap_congr fun i hi => ?_
  have hlt := List.mem_range.mp hi
  have hsize := cfg.le_size
  change (srp.srSrpp ((b + (P + i)) % cfg.size)).map _ = _
  rw [h.window (P + i) (by omega) (by omega)]

/-- The slots of an accepted event hold packets only if its descriptors are outstanding. -/
theorem Ring.slots_full (h : srp.Ring cfg b C P 0) (hP : P ≤ srp.posted.length) {d : ℕ} :
    (∀ i ∈ (List.range d).map fun i => (b + (P + i)) % cfg.size, srp.srSrpp i ≠ none) ↔
      P + d ≤ srp.posted.length := by
  have hc := h.c_le
  constructor
  · intro hall
    by_contra hlt
    have hmem : (b + (P + (srp.posted.length - P))) % cfg.size ∈
        (List.range d).map fun i => (b + (P + i)) % cfg.size :=
      List.mem_map.mpr ⟨srp.posted.length - P, List.mem_range.mpr (by omega), rfl⟩
    have hlimit := h.limit
    have hsize := cfg.le_size
    refine hall _ hmem ?_
    rw [Nat.add_sub_cancel' hP]
    exact h.slot_none (Nat.le_refl _) (by omega)
  · intro hd i hi
    obtain ⟨j, hj, rfl⟩ := List.mem_map.mp hi
    have hlt := List.mem_range.mp hj
    rw [h.slot (show C ≤ P + j by omega) (by omega)]
    exact nofun

/-- What `sfxge_ev_rx` does with an event that it does not ignore. -/
theorem Inv.evRx (h : srp.Inv cfg b C P) (hP : P ≤ srp.posted.length) (hex : srp.seException = false)
    (hst : srp.srState = SFXGE_RXQ_STARTED) {id : U32} {size flags : U16}
    (hr : srp.evRx cfg io id size flags = some srp') :
    (outOfOrder cfg (srp.delta cfg id) ∧ srp' = { srp with
      srPending := srp.srPending + srp.delta cfg id
      seException := true }) ∨
    (¬ outOfOrder cfg (srp.delta cfg id) ∧ P + (srp.delta cfg id).toNat ≤ srp.posted.length ∧
      ∃ srp1, marked cfg P id size flags srp srp1 ∧ (srp' = srp1 ∨ srp1.evQcomplete cfg io = some srp')) := by
  unfold Rxq.evRx at hr
  rw [if_neg (by simp [hex, hst])] at hr
  dsimp only at hr
  split_ifs at hr with hout
  · cases hr
    exact Or.inl ⟨hout, rfl⟩
  · rw [h.ring.slotsTo] at hr
    obtain ⟨srp1, h1, h2⟩ := Option.bind_eq_some_iff.mp hr
    obtain ⟨heq, hrec, hall⟩ := markSlots_inv h1
    have hd := (h.ring.slots_full hP).mp hall
    refine Or.inr ⟨hout, hd, { srp1 with seRx := srp1.seRx + 1 }, ⟨?_, hrec⟩, ?_⟩
    · rw [← h.ring.marks hd]
      exact congrArg (fun srp : Rxq => { srp with seRx := srp.seRx + 1 }) heq
    · split_ifs at h2
      · exact Or.inr h2
      · exact Or.inl (Option.some.inj h2).symm

/-- An event for outstanding descriptors uses no slot without a packet. -/
theorem Inv.evRx_some (h : srp.Inv cfg b C P) (hP : P ≤ srp.posted.length) (hex : srp.seException = false)
    (hst : srp.srState = SFXGE_RXQ_STARTED) {id : U32}
    (hd : ¬ outOfOrder cfg (srp.delta cfg id) → P + (srp.delta cfg id).toNat ≤ srp.posted.length)
    (io : Io) (size flags : U16) : ∃ srp', srp.evRx cfg io id size flags = some srp' := by
  unfold Rxq.evRx
  rw [if_neg (by simp [hex, hst])]
  dsimp only
  split_ifs with hout
  · exact ⟨_, rfl⟩
  rw [h.ring.slotsTo]
  have hfull : ∀ i ∈ (List.range (srp.delta cfg id).toNat).map fun i => (b + (P + i)) % cfg.size,
      ({ srp with srPending := srp.srPending + srp.delta cfg id } : Rxq).srSrpp i ≠ none :=
    (h.ring.slots_full hP).mpr (hd hout)
  obtain ⟨srp1, h1⟩ := markSlots_some flags size hfull
  obtain ⟨heq, hrec, -⟩ := markSlots_inv h1
  rw [h1]
  have hm : marked cfg P id size flags srp { srp1 with seRx := srp1.seRx + 1 } := by
    refine ⟨?_, hrec⟩
    rw [← h.ring.marks (hd hout)]
    exact congrArg (fun srp : Rxq => { srp with seRx := srp.seRx + 1 }) heq
  have hi := h.of_marked hm (hd hout)
  have hposted : srp1.posted = srp.posted := by rw [heq]
  rw [Option.bind_some]
  split_ifs
  · exact hi.evQcomplete_some ((hd hout).trans (Nat.le_of_eq (congrArg _ hposted.symm))) io
  · exact ⟨_, rfl⟩

/-! ### Operations -/

/-- An event that is ignored, or that is for the last descriptor completed or for outstanding ones. -/
def Fits (cfg : Config) : Op → Rxq → Prop
  | .evRx _ id _ _, srp => srp.seException = true ∨ srp.srState ≠ SFXGE_RXQ_STARTED ∨ srp.delta cfg id = 0 ∨
      ¬ outOfOrder cfg (srp.delta cfg id) ∧ srp.delta cfg id ≤ srp.srAdded - srp.srPending
  | _, _ => True

/-- The accounting of a queue.  Unless all events fit (`A`), an exception is seen before the pending counter
is beyond the posted packets; a queue that is neither started nor being stopped is empty. -/
structure Sound (cfg : Config) (A : Prop) (b C P : ℕ) (srp : Rxq) : Prop where
  inv : srp.Inv cfg b C P
  ahead : A ∨ srp.seException = false → P ≤ srp.posted.length
  stopping : srp.stopping = true → srp.srState = SFXGE_RXQ_INITIALIZED
  idle : srp.srState ≠ SFXGE_RXQ_STARTED → srp.stopping = false → C = srp.posted.length ∧ P = C

/-- What operations keep of a queue's state that says whether it is sound. -/
theorem Sound.of_inv (h : srp.Sound cfg A b C P) {b' C' P' : ℕ} (hi : srp'.Inv cfg b' C' P') (hs : srp.Same srp')
    (hahead : A ∨ srp.seException = false → P' ≤ srp'.posted.length)
    (hidle : srp.srState ≠ SFXGE_RXQ_STARTED → srp.stopping = false → C' = srp'.posted.length ∧ P' = C') :
    srp'.Sound cfg A b' C' P' := by
  refine ⟨hi, fun hex => hahead (hex.imp_right (hs.seException ▸ ·)), fun hstop => ?_, fun hst hstop => ?_⟩
  · rw [hs.srState]
    exact h.stopping (hs.stopping ▸ hstop)
  · exact hidle (hs.srState ▸ hst) (hs.stopping ▸ hstop)

theorem sound_construct (cfg : Config) (A : Prop) : construct.Sound cfg A 0 0 0 := by
  have hsize := cfg.le_size
  refine ⟨⟨⟨rfl, rfl, Nat.le_refl _, Nat.le_refl _, by change 0 < 0 + cfg.size; omega, Nat.zero_le _,
    fun _ _ _ => rfl, fun _ _ => rfl⟩, ⟨rfl, fun _ => rfl, fun p => ?_, ?_⟩, rfl⟩, fun _ => Nat.le_refl _, nofun,
    fun _ _ => ⟨rfl, rfl⟩⟩
  · have h0 : construct.places 0 p = 0 := by
      unfold places
      simp [Rxq.construct]
    rw [h0]
    exact Nat.zero_le _
  · have h0 : construct.putLength = 0 := by
      unfold putLength
      simp [Rxq.construct]
    rw [h0]
    rfl

theorem posted_preallocateLoop (cpu : Cpu) (n : ℕ) (srp : Rxq) :
    (preallocateLoop cpu n srp).posted = srp.posted := by
  induction n generalizing srp with
  | zero => rfl
  | succ n ih => exact ih _

theorem Inv.qpreallocate (h : srp.Inv cfg b C P) (io : Io) (nprealloc : U32) :
    (srp.qpreallocate io nprealloc).Inv cfg b C P ∧ srp.Same (srp.qpreallocate io nprealloc) := by
  have hi0 : ({ srp with srfppLowat := nprealloc } : Rxq).Inv cfg b C P :=
    ⟨h.ring.congr rfl rfl rfl rfl, ⟨h.pool.count, h.pool.putCount, h.pool.owned, h.pool.loaned⟩, h.completed⟩
  have hs0 : srp.Same { srp with srfppLowat := nprealloc } := ⟨rfl, rfl, rfl, rfl, rfl, List.prefix_rfl⟩
  obtain ⟨hi, hs⟩ := hi0.preallocateLoop io.cpu (min nprealloc.toInt.toNat io.creates)
  exact ⟨hi, hs0.trans hs⟩

theorem Sound.qpreallocate (h : srp.Sound cfg A b C P) (io : Io) (nprealloc : U32) :
    (srp.qpreallocate io nprealloc).Sound cfg A b C P := by
  obtain ⟨hi, hs⟩ := h.inv.qpreallocate io nprealloc
  have hposted : (srp.qpreallocate io nprealloc).posted = srp.posted := posted_preallocateLoop _ _ _
  refine h.of_inv hi hs (fun hex => ?_) fun hst hstop => ?_
  · exact (h.ahead hex).trans hs.posted.length_le
  · obtain ⟨hC, hP⟩ := h.idle hst hstop
    exact ⟨hC.trans (congrArg _ hposted.symm), hP⟩

theorem Sound.qinit (h : srp.Sound cfg A b C P) : srp.qinit.Sound cfg A b C P := by
  unfold Rxq.qinit
  split_ifs with hst
  · have hstop : srp.stopping = false := by
      rw [Bool.eq_false_iff]
      intro hstop
      rw [h.stopping hstop] at hst
      cases hst
    have hidle := h.idle (by rw [hst]; exact nofun) hstop
    exact ⟨⟨h.inv.ring.congr rfl rfl rfl rfl, ⟨h.inv.pool.count, h.inv.pool.putCount, h.inv.pool.owned,
      h.inv.pool.loaned⟩, h.inv.completed⟩, h.ahead, fun _ => rfl, fun _ _ => hidle⟩
  · exact h

/-- A queue in `sfxge_rx_qstart`, before it is filled. -/
def started (cfg : Config) (port : Port) (srp : Rxq) : Rxq :=
  { srp with
    srHiwat := cfg.limit * 9 / 10
    srLowat := cfg.limit * 9 / 10 / 2
    srState := SFXGE_RXQ_STARTED
    port := port
    seException := false
    seRx := 0 }

theorem Inv.started (h : srp.Inv cfg b C P) (port : Port) : (srp.started cfg port).Inv cfg b C P :=
  ⟨h.ring.congr rfl rfl rfl rfl, ⟨h.pool.count, h.pool.putCount, h.pool.owned, h.pool.loaned⟩, h.completed⟩

theorem Inv.qstart (h : srp.Inv cfg b C P) (hst : srp.srState = SFXGE_RXQ_INITIALIZED ∧ srp.stopping = false)
    (io : Io) (port : Port) : (srp.qstart cfg io port).Inv cfg b C P ∧
      (srp.started cfg port).Same (srp.qstart cfg io port) := by
  have hf2 := (h.started port).qrefill io cfg.limit
  have hi2 := (h.started port).of_filled hf2
  unfold Rxq.qstart
  rw [if_pos hst]
  change (if _ < _ then Rxq.qfill cfg io SFXGE_RX_BATCH ((srp.started cfg port).qrefill cfg io cfg.limit)
      else (srp.started cfg port).qrefill cfg io cfg.limit : Rxq).Inv cfg b C P ∧
    (srp.started cfg port).Same (if _ < _ then _ else _)
  split_ifs
  · have hf3 := hi2.qfill io SFXGE_RX_BATCH
    exact ⟨hi2.of_filled hf3, hf2.same.trans hf3.same⟩
  · exact ⟨hi2, hf2.same⟩

theorem Sound.qstart (h : srp.Sound cfg A b C P) (io : Io) (port : Port) :
    (srp.qstart cfg io port).Sound cfg A b C P := by
  by_cases hst : srp.srState = SFXGE_RXQ_INITIALIZED ∧ srp.stopping = false
  · obtain ⟨hi, hs⟩ := h.inv.qstart hst io port
    obtain ⟨hC, hP⟩ := h.idle (by rw [hst.1]; exact nofun) hst.2
    refine ⟨hi, fun _ => ?_, fun hstop => ?_, fun hne => absurd hs.srState hne⟩
    · have hlen : srp.posted.length ≤ (srp.qstart cfg io port).posted.length := hs.posted.length_le
      omega
    · have hstop' : srp.stopping = true := hs.stopping.symm.trans hstop
      rw [hst.2] at hstop'
      cases hstop'
  · have hkeep : srp.qstart cfg io port = srp := if_neg hst
    rw [hkeep]
    exact h

theorem Sound.evQcomplete (h : srp.Sound cfg A b C P) (hr : srp.evQcomplete cfg io = some srp') :
    srp'.Sound cfg A b P P := by
  obtain ⟨hi, hs⟩ := h.inv.evQcomplete hr
  refine h.of_inv hi hs (fun hex => (h.ahead hex).trans hs.posted.length_le) fun hst hstop => ?_
  obtain ⟨hC, hP⟩ := h.idle hst hstop
  unfold Rxq.evQcomplete at hr
  rw [if_neg (not_not.mpr (h.inv.pending_eq.mpr hP))] at hr
  cases hr
  exact ⟨hP.trans hC, rfl⟩

/-- A handled event that fits and is rejected is one for no descriptor. -/
theorem Fits.delta_zero {id : U32} {size flags : U16} (h : Fits cfg (.evRx io id size flags) srp)
    (hex : srp.seException = false) (hst : srp.srState = SFXGE_RXQ_STARTED)
    (hout : outOfOrder cfg (srp.delta cfg id)) : srp.delta cfg id = 0 := by
  rcases h with h | h | h | ⟨h, -⟩
  · rw [hex] at h
    cases h
  · exact absurd hst h
  · exact h
  · exact absurd hout h

/-- An accepted event, and the completion that it may start. -/
theorem Sound.accepted (h : srp.Sound cfg A b C P) (hst : srp.srState = SFXGE_RXQ_STARTED) {id : U32}
    {size flags : U16} {srp1 : Rxq} (hm : marked cfg P id size flags srp srp1)
    (hd : P + (srp.delta cfg id).toNat ≤ srp.posted.length)
    (hr : srp' = srp1 ∨ srp1.evQcomplete cfg io = some srp') :
    ∃ C', srp'.Sound cfg A b C' (P + (srp.delta cfg id).toNat) ∧ srp1.Same srp' := by
  have h1 : srp1.Sound cfg A b C (P + (srp.delta cfg id).toNat) := by
    have hi := h.inv.of_marked hm hd
    rw [hm.1] at hi ⊢
    refine ⟨hi, fun _ => hd, fun hs => ?_, fun hne => absurd hst hne⟩
    exact h.stopping hs
  rcases hr with rfl | hr
  · exact ⟨C, h1, .refl srp'⟩
  · exact ⟨_, h1.evQcomplete hr, (h1.inv.evQcomplete hr).2⟩

theorem Sound.evRx (h : srp.Sound cfg A b C P) {id : U32} {size flags : U16}
    (hA : A → Fits cfg (.evRx io id size flags) srp) (hr : srp.evRx cfg io id size flags = some srp') :
    ∃ C' P', srp'.Sound cfg A b C' P' := by
  by_cases hex : srp.seException = true ∨ srp.srState ≠ SFXGE_RXQ_STARTED
  · unfold Rxq.evRx at hr
    rw [if_pos hex] at hr
    cases hr
    exact ⟨C, P, h⟩
  obtain ⟨hex, hst⟩ := not_or.mp hex
  have hex : srp.seException = false := Bool.eq_false_iff.mpr hex
  have hst : srp.srState = SFXGE_RXQ_STARTED := not_not.mp hst
  have hP := h.ahead (Or.inr hex)
  have hstop : ∀ {X : Prop}, srp.stopping = true → X := fun hstop => by
    have heq := h.stopping hstop
    rw [hst] at heq
    cases heq
  rcases h.inv.evRx hP hex hst hr with ⟨hout, rfl⟩ | ⟨-, hd, srp1, hm, hr1⟩
  · have hlt := delta_lt cfg id srp
    have hi := h.inv.advance (d := srp.delta cfg id) (by omega)
    refine ⟨C, _, ⟨hi.ring.congr rfl rfl rfl rfl, ⟨hi.pool.count, hi.pool.putCount, hi.pool.owned, hi.pool.loaned⟩,
      hi.completed⟩, fun hA' => ?_, fun hs => hstop hs, fun hne => absurd hst hne⟩
    have hzero := (hA (hA'.resolve_right nofun)).delta_zero hex hst hout
    rw [hzero]
    exact hP
  · obtain ⟨C', h', -⟩ := h.accepted hst hm hd hr1
    exact ⟨C', _, h'⟩

theorem Sound.evPolled (h : srp.Sound cfg A b C P) (hr : srp.evPolled cfg io = some srp') :
    srp'.Sound cfg A b P P := by
  have h0 : ({ srp with seRx := 0 } : Rxq).Sound cfg A b C P :=
    ⟨⟨h.inv.ring.congr rfl rfl rfl rfl, ⟨h.inv.pool.count, h.inv.pool.putCount, h.inv.pool.owned,
      h.inv.pool.loaned⟩, h.inv.completed⟩, h.ahead, h.stopping, h.idle⟩
  exact h0.evQcomplete hr

theorem Sound.qfppTrim (h : srp.Sound cfg A b C P) (hr : srp.qfppTrim cfg io = some srp') :
    srp'.Sound cfg A b C P := by
  obtain ⟨hi, hs⟩ := h.inv.qfppTrim hr
  refine h.of_inv hi hs (fun hex => (h.ahead hex).trans hs.posted.length_le) fun hst hstop => ?_
  unfold Rxq.qfppTrim at hr
  dsimp only at hr
  rw [if_pos hst] at hr
  cases hr
  exact h.idle hst hstop

theorem Sound.stackFree (h : srp.Sound cfg A b C P) (cpu : Cpu) (recycled : Bool) (p : Pkt) :
    (srp.stackFree cpu recycled p).Sound cfg A b C P := by
  obtain ⟨hs, -, -, hposted, -⟩ := stackFree_frame cpu recycled p srp
  refine h.of_inv (h.inv.stackFree cpu recycled p) hs ?_ ?_
  · rw [hposted]
    exact h.ahead
  · rw [hposted]
    exact h.idle

theorem Sound.qstop (h : srp.Sound cfg A b C P) : srp.qstop.Sound cfg A b C P := by
  unfold Rxq.qstop
  split_ifs
  · exact ⟨⟨h.inv.ring.congr rfl rfl rfl rfl, ⟨h.inv.pool.count, h.inv.pool.putCount, h.inv.pool.owned,
      h.inv.pool.loaned⟩, h.inv.completed⟩, h.ahead, fun _ => rfl, fun _ => nofun⟩
  · exact h

theorem posted_completeOne {completed : U32} (hr : srp.completeOne cfg io completed = some srp') :
    srp'.posted = srp.posted := by
  unfold completeOne at hr
  dsimp only at hr
  cases hslot : srp.srSrpp (cfg.slot completed) with
  | none =>
    rw [hslot] at hr
    split_ifs at hr
  | some p =>
    rw [hslot] at hr
    dsimp only at hr
    split_ifs at hr <;> cases hr
    · rfl
    · exact (qpacketFree_frame _ _ _ _).2.2.2.1

theorem posted_completeLoop {n : ℕ} {completed : U32} (hr : completeLoop cfg io n completed srp = some srp') :
    srp'.posted = srp.posted := by
  induction n generalizing completed srp with
  | zero =>
    cases hr
    rfl
  | succ n ih =>
    obtain ⟨srp1, h1, h2⟩ := Option.bind_eq_some_iff.mp hr
    exact (ih h2).trans (posted_completeOne h1)

theorem qrefill_stopped (hst : srp.srState ≠ SFXGE_RXQ_STARTED) (target : U32) :
    srp.qrefill cfg io target = srp := if_pos hst

theorem qfill_stopped (hst : srp.srState ≠ SFXGE_RXQ_STARTED) (target : U32) :
    srp.qfill cfg io target = srp := if_pos hst

/-- A queue that is not started is not refilled on completion. -/
theorem Inv.posted_qcomplete (h : srp.Inv cfg b C P) (hst : srp.srState ≠ SFXGE_RXQ_STARTED)
    (hr : srp.qcomplete cfg io = some srp') : srp'.posted = srp.posted := by
  obtain ⟨srp1, h1, rfl⟩ := Option.map_eq_some_iff.mp hr
  have hposted := posted_completeLoop h1
  rw [h.completed] at h1
  obtain ⟨hi1, hs1⟩ := h.filled.completeLoop (h.completed ▸ h.ncomplete) h1
  have hst1 : srp1.srState ≠ SFXGE_RXQ_STARTED := hs1.srState ▸ hst
  have hpass : (srp1.passUp cfg io).posted = srp1.posted := by
    unfold Rxq.passUp
    rw [qrefill_stopped hst1]
    cases io.first with
    | none => rfl
    | some ps =>
      dsimp only
      split_ifs
      · rw [freemsg_eq]
        exact (hi1.stackFrees io _).2.2
      · rfl
  obtain ⟨hi2, hs2⟩ := hi1.passUp io
  obtain ⟨-, hs3, hfrees⟩ := hi2.stackFrees io io.meanwhile
  have hst3 : ((srp1.passUp cfg io).stackFrees io io.meanwhile).srState ≠ SFXGE_RXQ_STARTED :=
    (hs2.trans hs3).srState ▸ hst1
  refine Eq.trans ?_ (hfrees.trans (hpass.trans hposted))
  dsimp only
  unfold Rxq.topUp
  rw [qrefill_stopped hst3]
  dsimp only
  rw [qfill_stopped hst3]
  split_ifs <;> rfl

/-- When all descriptors have been completed, the ring is empty. -/
theorem Ring.empty (h : srp.Ring cfg b C P 0) (hC : C = srp.posted.length) (i : ℕ) : srp.srSrpp i = none := by
  rcases Nat.lt_or_ge i cfg.size with hi | hi
  · obtain ⟨j, h1, h2, rfl⟩ := mod_surj b hi C
    exact h.slot_none (by omega) h2
  · exact h.others i hi

/-- Draining completes all descriptors. -/
theorem Inv.drained (h : srp.Inv cfg b C P) :
    ({ srp with srPending := srp.srAdded } : Rxq).Inv cfg b C srp.posted.length := by
  have hc := h.ring.c_le_length
  have hsize := cfg.le_size
  refine ⟨⟨h.ring.added, ?_, hc, hc, ?_, h.ring.limit, h.ring.window, h.ring.others⟩,
    ⟨h.pool.count, h.pool.putCount, h.pool.owned, h.pool.loaned⟩, h.completed⟩
  · exact (BitVec.add_zero _).symm.trans h.ring.added
  · change srp.posted.length < srp.posted.length + cfg.size
    omega

/-- A stopped queue is empty, and its counters begin again. -/
theorem Sound.qdrain (h : srp.Sound cfg A b C P) (hr : srp.qdrain cfg io = some srp') :
    ∃ b' C' P', srp'.Sound cfg A b' C' P' := by
  unfold Rxq.qdrain at hr
  split_ifs at hr with hstop
  · obtain ⟨srp1, h1, rfl⟩ := Option.map_eq_some_iff.mp hr
    have hst : srp.srState ≠ SFXGE_RXQ_STARTED := by
      rw [h.stopping hstop]
      simp
    have hsize := cfg.le_size
    have hi0 := h.inv.drained
    obtain ⟨hi1, hs1⟩ := hi0.qcomplete h1
    have hposted : srp1.posted = srp.posted := hi0.posted_qcomplete hst h1
    have hC : srp.posted.length = srp1.posted.length := congrArg _ hposted.symm
    set n := srp1.posted.length with hn
    have hzero : (0 : U32) = idx 32 (2 ^ 32 * (n + 1) - n) n := by
      have hsum : 2 ^ 32 * (n + 1) - n + n = 2 ^ 32 * (n + 1) := by omega
      rw [idx, hsum]
      refine BitVec.eq_of_toNat_eq ?_
      rw [BitVec.toNat_ofNat, Nat.mul_mod_right]
      rfl
    rw [hC] at hi1
    refine ⟨2 ^ 32 * (n + 1) - n, n, n, ⟨⟨?_, hzero, Nat.le_refl _, Nat.le_refl _, ?_, Nat.le_add_right _ _, ?_, ?_⟩,
      ⟨hi1.pool.count, hi1.pool.putCount, hi1.pool.owned, hi1.pool.loaned⟩, hzero⟩, fun _ => Nat.le_refl _, by simp,
      fun _ _ => ⟨rfl, rfl⟩⟩
    · exact (BitVec.add_zero _).trans hzero
    · change n < n + cfg.size
      omega
    · intro j h1 _
      exact (hi1.ring.empty rfl _).trans (List.getElem?_eq_none h1).symm
    · exact fun i _ => hi1.ring.empty rfl i
  · cases hr
    exact ⟨b, C, P, h⟩

theorem Sound.qfini (h : srp.Sound cfg A b C P) (io : Io) : (srp.qfini io).Sound cfg A b C P := by
  unfold Rxq.qfini
  split_ifs with hst
  · obtain ⟨hst, hstop⟩ := hst
    have hf : Filled cfg b C P 0 srp (srp.qfppSwizzle io.cpu) := h.inv.filled.swizzle (swizzleOrder io.cpu)
    have hposted : (srp.qfppSwizzle io.cpu).posted = srp.posted := posted_swizzle _ _
    have hi := h.inv.of_filled hf
    obtain ⟨hC, hP⟩ := h.idle (by rw [hst]; exact nofun) hstop
    refine ⟨⟨hi.ring.congr rfl rfl rfl rfl, ⟨?_, hi.pool.putCount, fun p => ?_, hi.pool.loaned⟩, hi.completed⟩,
      fun _ => ?_, fun hs => ?_, fun _ _ => ⟨hC.trans (congrArg _ hposted.symm), hP⟩⟩
    · dsimp only
      rw [hi.pool.count, BitVec.sub_self]
      rfl
    · have hown := hi.pool.owned p
      unfold places at hown ⊢
      dsimp only
      rw [List.count_nil]
      omega
    · change P ≤ (srp.qfppSwizzle io.cpu).posted.length
      rw [hposted]
      omega
    · have hs' : (srp.qfppSwizzle io.cpu).stopping = true := hs
      rw [hf.same.stopping, hstop] at hs'
      cases hs'
  · exact h

/-- **Step lemma.**  Every operation keeps the accounting. -/
theorem Sound.step (h : srp.Sound cfg A b C P) {o : Op} (hA : A → Fits cfg o srp)
    (hr : step cfg o srp = some srp') :
    ∃ b' C' P', srp'.Sound cfg A b' C' P' := by
  cases o with
  | preallocate io nprealloc =>
    change (if _ then _ else _) = _ at hr
    split_ifs at hr <;> cases hr
    · exact ⟨b, C, P, h.qpreallocate io nprealloc⟩
    · exact ⟨b, C, P, h⟩
  | qinit =>
    cases hr
    exact ⟨b, C, P, h.qinit⟩
  | qstart io port =>
    cases hr
    exact ⟨b, C, P, h.qstart io port⟩
  | evRx io id size flags => exact ⟨b, h.evRx hA hr⟩
  | evPolled io => exact ⟨b, P, P, h.evPolled hr⟩
  | trim io => exact ⟨b, C, P, h.qfppTrim hr⟩
  | stackFree cpu recycled p =>
    cases hr
    exact ⟨b, C, P, h.stackFree cpu recycled p⟩
  | qstop =>
    cases hr
    exact ⟨b, C, P, h.qstop⟩
  | qdrain io => exact h.qdrain hr
  | qfini io =>
    cases hr
    exact ⟨b, C, P, h.qfini io⟩

/-! ### The ring and the pool -/

/-- The ring holds the packets of the outstanding descriptors, each of them once and none of the pool's. -/
structure RingAccounted (cfg : Config) (srp : Rxq) : Prop where
  limit : (srp.srAdded - srp.srCompleted).toNat ≤ EFX_RXQ_LIMIT cfg.size
  outstanding : ∀ i, srp.srSrpp i ≠ none ↔
    ∃ n < (srp.srAdded - srp.srCompleted).toNat, i = cfg.slot (srp.srCompleted + BitVec.ofNat 32 n)
  once : ∀ i j p, srp.srSrpp i = some p → srp.srSrpp j = some p → i = j
  unpooled : ∀ i p, srp.srSrpp i = some p → p ∉ srp.srfppGet ∧ ∀ id, p ∉ srp.srfplPutp id
  count : srp.srfppCount = BitVec.ofNat 32 srp.srfppGet.length

/-- A packet in a slot is that of a descriptor. -/
theorem Ring.of_slot (h : srp.Ring cfg b C P 0) {i : ℕ} {p : Pkt} (hi : srp.srSrpp i = some p) :
    ∃ j, C ≤ j ∧ ∃ hj : j < srp.posted.length, i = (b + j) % cfg.size ∧ srp.posted[j] = p := by
  rcases Nat.lt_or_ge i cfg.size with hlt | hge
  · obtain ⟨j, h1, h2, rfl⟩ := mod_surj b hlt C
    rw [h.window j h1 h2] at hi
    obtain ⟨hj, hp⟩ := List.getElem?_eq_some_iff.mp hi
    exact ⟨j, h1, hj, rfl, hp⟩
  · rw [h.others i hge] at hi
    cases hi

theorem Inv.ringAccounted (h : srp.Inv cfg b C P) : srp.RingAccounted cfg := by
  have hlimit := h.ring.limit
  have hsize := cfg.size_le
  have hmem : ∀ {j : ℕ} (h1 : C ≤ j) (hj : j < srp.posted.length), srp.posted[j] ∈ srp.posted.drop C := by
    intro j h1 hj
    exact List.mem_drop_iff_getElem.mpr ⟨j - C, by omega, by simp [Nat.add_sub_cancel' h1]⟩
  have hcount : ∀ p, (srp.posted.drop C).count p + srp.srfppGet.count p + ∑ id, (srp.srfplPutp id).count p ≤ 1 := by
    intro p
    have hown := h.pool.owned p
    unfold places at hown
    split_ifs at hown <;> omega
  refine ⟨?_, fun i => ⟨fun hi => ?_, ?_⟩, ?_, ?_, h.pool.count⟩
  · rw [h.rxfill, EFX_RXQ_LIMIT]
    omega
  · obtain ⟨p, hp⟩ := Option.ne_none_iff_exists'.mp hi
    obtain ⟨j, h1, hj, rfl, -⟩ := h.ring.of_slot hp
    refine ⟨j - C, by rw [h.rxfill]; omega, ?_⟩
    rw [h.completed, idx_add, cfg.slot_idx, Nat.add_sub_cancel' h1]
  · rintro ⟨n, hn, rfl⟩
    rw [h.rxfill] at hn
    rw [h.completed, idx_add, cfg.slot_idx, h.ring.slot (Nat.le_add_right _ _) (by omega)]
    simp
  · intro i i' p hi hi'
    obtain ⟨j, h1, hj, rfl, hp⟩ := h.ring.of_slot hi
    obtain ⟨j', h1', hj', rfl, hp'⟩ := h.ring.of_slot hi'
    have hnodup : (srp.posted.drop C).Nodup := List.nodup_iff_count_le_one.mpr fun q => by
      have := hcount q
      omega
    have hlt : j - C < (srp.posted.drop C).length := by
      rw [List.length_drop]
      omega
    have hlt' : j' - C < (srp.posted.drop C).length := by
      rw [List.length_drop]
      omega
    have hget : (srp.posted.drop C)[j - C] = (srp.posted.drop C)[j' - C] := by
      simp [Nat.add_sub_cancel' h1, Nat.add_sub_cancel' h1', hp, hp']
    have heq := (hnodup.getElem_inj_iff).mp hget
    have hjj : j = j' := by omega
    rw [hjj]
  · intro i p hi
    obtain ⟨j, h1, hj, rfl, rfl⟩ := h.ring.of_slot hi
    have hpos := List.count_pos_iff.mpr (hmem h1 hj)
    have hc := hcount srp.posted[j]
    refine ⟨fun hget => ?_, fun id hput => ?_⟩
    · have := List.count_pos_iff.mpr hget
      omega
    · have h1 := List.count_pos_iff.mpr hput
      have h2 : (srp.srfplPutp id).count srp.posted[j] ≤ ∑ id, (srp.srfplPutp id).count srp.posted[j] :=
        Finset.single_le_sum (f := fun id => (srp.srfplPutp id).count srp.posted[j]) (fun _ _ => Nat.zero_le _)
          (Finset.mem_univ id)
      omega

/-- **Ring accounting.**  In every state of every run of a receive queue, whatever events it gets, the ring is
not beyond its limit and holds just the packets of the outstanding descriptors. -/
theorem ring_accounted (cfg : Config) (os : List Op) :
    AlwaysAlong (step cfg) (RingAccounted cfg) os construct :=
  alwaysAlong_of_inv (I := fun srp => ∃ b C P, srp.Sound cfg False b C P)
    (fun _ _ _ ⟨_, _, _, h⟩ hr => h.step False.elim hr) (fun _ ⟨_, _, _, h⟩ => h.inv.ringAccounted) os
    ⟨0, 0, 0, sound_construct cfg False⟩

end Rxq

/-- The smallest ring, with batches of up to 16 descriptors. -/
def Config.least : Config where
  logSize := 5
  five_le := Nat.le_refl 5
  le_31 := by decide
  wptrAlign := 8
  encRxBatchingEnabled := true
  encRxBatchMax := 16
  seEvBatch := 256

/-- A call on the first CPU that creates up to 16 packets, with no chain to pass up. -/
def Io.plain (recycled : Bool) : Io where
  cpu := 0
  see _ := ⟨0, false⟩
  first := none
  recycled _ := recycled
  creates := 16
  meanwhile := []

end Sfxge.Rx
