import Sfxge.Rx.Refill

/-!
# Rx.Usable — the last usable descriptor

A run of a receive queue on EF10 in which the hardware completes only the descriptors that it has been given.  The
one packet that is recycled in an emergency does not make it a descriptor.
-/

namespace Sfxge.Rx

open Lib RxqState

namespace Rxq

variable {cfg : Config} {io : Io} {b C P : ℕ} {srp srp' : Rxq}

/-- The part of `sfxge_ev_rx` that comes before a completion. -/
def evRxMarks (cfg : Config) (id : U32) (size flags : U16) (srp : Rxq) : Option Rxq :=
  (markSlots flags size (slotsTo cfg (srp.srPending &&& cfg.mask) ((id + 1) &&& cfg.mask))
    { srp with srPending := srp.srPending + srp.delta cfg id }).map fun srp => { srp with seRx := srp.seRx + 1 }

/-- The call of `sfxge_rx_qcomplete` that an operation comes to, with the queue that it finds. -/
def calls (cfg : Config) : Op → Rxq → Option (Io × Rxq)
  | .evRx io id size flags, srp =>
    if srp.seException ∨ srp.srState ≠ SFXGE_RXQ_STARTED ∨ outOfOrder cfg (srp.delta cfg id) then none
    else (srp.evRxMarks cfg id size flags).bind fun srp =>
      if srp.srPending - srp.srCompleted ≥ SFXGE_RX_BATCH then some (io, srp) else none
  | .evPolled io, srp => if srp.srPending ≠ srp.srCompleted then some (io, { srp with seRx := 0 }) else none
  | .qdrain io, srp => if srp.stopping then some (io, { srp with srPending := srp.srAdded }) else none
  | _, _ => none

/-- Whether the hardware makes the event: it is for descriptors that have been pushed, or for none, as
`ef10_ev_rx` takes one for 16. -/
def Made (cfg : Config) : Op → Rxq → Prop
  | .evRx _ id _ _, srp => srp.seException = true ∨ srp.srState ≠ SFXGE_RXQ_STARTED ∨ srp.delta cfg id = 0 ∨
      ¬ outOfOrder cfg (srp.delta cfg id) ∧ srp.delta cfg id ≤ srp.srPushed - srp.srPending
  | _, _ => True

instance (cfg : Config) : ∀ o srp, Decidable (Made cfg o srp)
  | .evRx _ id _ _, srp => inferInstanceAs (Decidable (srp.seException = true ∨ srp.srState ≠ SFXGE_RXQ_STARTED ∨
      srp.delta cfg id = 0 ∨ ¬ outOfOrder cfg (srp.delta cfg id) ∧ srp.delta cfg id ≤ srp.srPushed - srp.srPending))
  | .preallocate _ _, _ | .qinit, _ | .qstart _ _, _ | .evPolled _, _ | .trim _, _ | .stackFree _ _ _, _ | .qstop, _
  | .qdrain _, _ | .qfini _, _ => isTrue trivial

/-- An operation, where the hardware completes only pushed descriptors. -/
def hwStep (cfg : Config) (o : Op) (srp : Rxq) : Option Rxq := if Made cfg o srp then step cfg o srp else none

/-- When `sfxge_rx_qcomplete` returns in a started queue, the hardware has a descriptor. -/
def KeepsUsable (cfg : Config) (o : Op) (srp srp' : Rxq) : Prop :=
  (calls cfg o srp).isSome → srp'.srState = SFXGE_RXQ_STARTED → srp'.srPushed ≠ srp'.srCompleted

/-- The call finds the packets that it needs. -/
def Supplied (cfg : Config) (o : Op) (srp : Rxq) : Prop :=
  ∀ c, calls cfg o srp = some c → c.2.srState = SFXGE_RXQ_STARTED → c.2.Replenished cfg c.1

/-- What holds between operations. -/
structure Watched (cfg : Config) (b C P : ℕ) (srp : Rxq) : Prop where
  sound : srp.Sound cfg True b C P
  idle : srp.srState ≠ SFXGE_RXQ_STARTED → srp.stopping = false → srp.srAdded = 0 ∧ srp.srPushed = 0
  up : srp.srState = SFXGE_RXQ_STARTED → srp.Up cfg b C P

theorem watched_construct (cfg : Config) : construct.Watched cfg 0 0 0 :=
  ⟨sound_construct cfg True, fun _ _ => ⟨rfl, rfl⟩, nofun⟩

/-- A queue that is not started is left alone but for its pool. -/
theorem Sound.watched (h : srp.Sound cfg True b C P) (hst : srp.srState ≠ SFXGE_RXQ_STARTED)
    (hidle : srp.stopping = false → srp.srAdded = 0 ∧ srp.srPushed = 0) : srp.Watched cfg b C P :=
  ⟨h, fun _ => hidle, fun h => absurd h hst⟩

theorem Up.ahead (h : srp.Up cfg b C P) : P ≤ srp.posted.length := by
  have h1 := h.behind
  have h2 : pushedTo (b + srp.posted.length) ≤ b + srp.posted.length := Nat.div_mul_le_self _ _
  omega

theorem Up.watched (h : srp.Up cfg b C P) (hstop : srp.stopping = false) : srp.Watched cfg b C P :=
  ⟨⟨h.inv, fun _ => h.ahead, fun hs => absurd (hstop.symm.trans hs) nofun, fun hne => absurd h.state hne⟩,
    fun hne => absurd h.state hne, fun _ => h⟩

theorem Watched.not_stopping (h : srp.Watched cfg b C P) (hst : srp.srState = SFXGE_RXQ_STARTED) :
    srp.stopping = false := by
  rw [Bool.eq_false_iff]
  intro hstop
  have := (h.sound.stopping hstop).symm.trans hst
  cases this

theorem Up.started (h : srp.Sound cfg True b C P) (hst : srp.srState = SFXGE_RXQ_INITIALIZED ∧ srp.stopping = false)
    (hidle : srp.srAdded = 0 ∧ srp.srPushed = 0) (port : Port) : (srp.started cfg port).Up cfg b C P := by
  obtain ⟨hC, hP⟩ := h.idle (by rw [hst.1]; exact nofun) hst.2
  refine ⟨h.inv.started port, rfl, ?_, rfl, rfl, ?_⟩
  · change srp.srPushed = srp.srAdded &&& _
    rw [hidle.1, hidle.2]
    rfl
  · have hadded := h.inv.added.symm.trans hidle.1
    have hzero : (b + srp.posted.length) % 2 ^ 32 = 0 := by
      have := congrArg BitVec.toNat hadded
      rwa [idx, BitVec.toNat_ofNat] at this
    change b + P ≤ (b + srp.posted.length) / 8 * 8
    omega

theorem Watched.qstart (h : srp.Watched cfg b C P) (hal : cfg.wptrAlign = 8) (io : Io) (port : Port) :
    (srp.qstart cfg io port).Watched cfg b C P := by
  by_cases hst : srp.srState = SFXGE_RXQ_INITIALIZED ∧ srp.stopping = false
  · have hne : srp.srState ≠ SFXGE_RXQ_STARTED := by
      rw [hst.1]
      exact nofun
    have hup0 := Up.started h.sound hst (h.idle hne hst.2) port
    obtain ⟨hup1, -⟩ := hup0.qrefill hal io
    obtain ⟨hup2, -⟩ := hup1.qfill hal io SFXGE_RX_BATCH
    have hup : (srp.qstart cfg io port).Up cfg b C P := by
      unfold Rxq.qstart
      rw [if_pos hst]
      change (if _ < _ then Rxq.qfill cfg io SFXGE_RX_BATCH ((srp.started cfg port).qrefill cfg io cfg.limit)
        else (srp.started cfg port).qrefill cfg io cfg.limit : Rxq).Up cfg b C P
      split_ifs
      · exact hup2
      · exact hup1
    exact ⟨h.sound.qstart io port, fun hne' => absurd hup.state hne', fun _ => hup⟩
  · have hkeep : srp.qstart cfg io port = srp := if_neg hst
    rw [hkeep]
    exact h

/-- What the descriptors that an event is for have been given, before the completion that it may start. -/
theorem Inv.evRxMarks (h : srp.Inv cfg b C P) (hP : P ≤ srp.posted.length) {id : U32} {size flags : U16}
    (hr : srp.evRxMarks cfg id size flags = some srp') :
    marked cfg P id size flags srp srp' ∧ P + (srp.delta cfg id).toNat ≤ srp.posted.length := by
  unfold Rxq.evRxMarks at hr
  rw [h.ring.slotsTo] at hr
  obtain ⟨srp1, h1, rfl⟩ := Option.map_eq_some_iff.mp hr
  obtain ⟨heq, hrec, hall⟩ := markSlots_inv h1
  have hd := (h.ring.slots_full hP).mp hall
  refine ⟨⟨?_, hrec⟩, hd⟩
  rw [← h.ring.marks hd]
  exact congrArg (fun srp : Rxq => { srp with seRx := srp.seRx + 1 }) heq

theorem evRx_eq (hex : srp.seException = false) (hst : srp.srState = SFXGE_RXQ_STARTED) {id : U32}
    {size flags : U16} (hin : ¬ outOfOrder cfg (srp.delta cfg id)) : srp.evRx cfg io id size flags =
      (srp.evRxMarks cfg id size flags).bind fun srp =>
        if srp.srPending - srp.srCompleted ≥ SFXGE_RX_BATCH then srp.evQcomplete cfg io else some srp := by
  unfold Rxq.evRx Rxq.evRxMarks
  rw [if_neg (by simp [hex, hst])]
  dsimp only
  rw [if_neg hin, Option.bind_map]
  rfl

/-- An operation that completes nothing. -/
theorem keeps_of_none {o : Op} (hcalls : calls cfg o srp = none) : KeepsUsable cfg o srp srp' ↔ Supplied cfg o srp :=
  iff_of_true (fun hsome => by rw [hcalls] at hsome; cases hsome) fun c hc => by rw [hcalls] at hc; cases hc

/-- An operation that completes. -/
theorem keeps_of_some {o : Op} {srp1 : Rxq} (hcalls : calls cfg o srp = some (io, srp1))
    (hst1 : srp1.srState = SFXGE_RXQ_STARTED) (hst : srp'.srState = SFXGE_RXQ_STARTED)
    (h : srp'.srPushed ≠ srp'.srCompleted ↔ srp1.Replenished cfg io) :
    KeepsUsable cfg o srp srp' ↔ Supplied cfg o srp := by
  constructor
  · intro hk c hc _
    cases hcalls.symm.trans hc
    exact h.mp (hk (hcalls ▸ rfl) hst)
  · exact fun hs _ _ => h.mpr (hs _ hcalls hst1)

/-- **Events.** -/
theorem Watched.evRx (h : srp.Watched cfg b C P) (hal : cfg.wptrAlign = 8) (hsized : Sized cfg) {id : U32}
    {size flags : U16} (hmade : Made cfg (.evRx io id size flags) srp)
    (hr : srp.evRx cfg io id size flags = some srp') : (∃ C' P', srp'.Watched cfg b C' P') ∧
      (KeepsUsable cfg (.evRx io id size flags) srp srp' ↔ Supplied cfg (.evRx io id size flags) srp) := by
  by_cases hign : srp.seException = true ∨ srp.srState ≠ SFXGE_RXQ_STARTED
  · have hsame : srp.evRx cfg io id size flags = some srp := if_pos hign
    cases hsame.symm.trans hr
    exact ⟨⟨C, P, h⟩, keeps_of_none (if_pos (hign.imp_right Or.inl))⟩
  obtain ⟨hex, hst⟩ := not_or.mp hign
  have hex : srp.seException = false := Bool.eq_false_iff.mpr hex
  have hst : srp.srState = SFXGE_RXQ_STARTED := not_not.mp hst
  have hup := h.up hst
  have hstop := h.not_stopping hst
  by_cases hout : outOfOrder cfg (srp.delta cfg id)
  · have hzero : srp.delta cfg id = 0 := by
      rcases hmade with hm | hm | hm | ⟨hm, -⟩
      · exact absurd (hex.symm.trans hm) nofun
      · exact absurd hst hm
      · exact hm
      · exact absurd hout hm
    rcases h.sound.inv.evRx hup.ahead hex hst hr with ⟨-, rfl⟩ | ⟨hin, -⟩
    · refine ⟨⟨C, P, Up.watched (hup.congr ?_ rfl rfl rfl hup.behind) hstop⟩,
        keeps_of_none (if_pos (Or.inr (Or.inr hout)))⟩
      rw [hzero, add_zero]
      exact ⟨hup.inv.ring.congr rfl rfl rfl rfl, ⟨hup.inv.pool.count, hup.inv.pool.putCount, hup.inv.pool.owned,
        hup.inv.pool.loaned⟩, hup.inv.completed⟩
    · exact absurd hout hin
  have hle : srp.delta cfg id ≤ srp.srPushed - srp.srPending := by
    rcases hmade with hm | hm | hm | ⟨-, hm⟩
    · exact absurd (hex.symm.trans hm) nofun
    · exact absurd hst hm
    · rw [hm]
      exact BitVec.le_def.mpr (Nat.zero_le _)
    · exact hm
  rw [evRx_eq hex hst hout] at hr
  obtain ⟨srp1, h1, h2⟩ := Option.bind_eq_some_iff.mp hr
  obtain ⟨hm, hd⟩ := h.sound.inv.evRxMarks hup.ahead h1
  have hi1 := h.sound.inv.of_marked hm hd
  have hbehind : b + (P + (srp.delta cfg id).toNat) ≤ pushedTo (b + srp.posted.length) := by
    have hle := BitVec.le_def.mp hle
    rw [hup.inv.ring.pending, hup.pushed_sub hup.inv.ring.c_le (Nat.le_refl P)] at hle
    have hbehind := hup.behind
    omega
  have hup1 : srp1.Up cfg b C (P + (srp.delta cfg id).toNat) := by
    rw [hm.1] at hi1 ⊢
    exact hup.congr hi1 rfl rfl rfl hbehind
  have hstop1 : srp1.stopping = false := by
    rw [hm.1]
    exact hstop
  have hcalls : calls cfg (.evRx io id size flags) srp = (srp.evRxMarks cfg id size flags).bind fun srp =>
      if srp.srPending - srp.srCompleted ≥ SFXGE_RX_BATCH then some (io, srp) else none :=
    if_neg fun hor => hor.elim (fun h => hign (Or.inl h)) fun hor => hor.elim (fun h => hign (Or.inr h)) hout
  rw [h1, Option.bind_some] at hcalls
  split_ifs at h2 hcalls with hbatch
  · have hne : srp1.srPending ≠ srp1.srCompleted := by
      intro heq
      rw [heq, BitVec.sub_self] at hbatch
      exact absurd hbatch (by decide)
    rw [evQcomplete, if_pos hne] at h2
    obtain ⟨hup2, hiff⟩ := hup1.qcomplete_iff hal hsized hup1.ahead h2
    have hstop2 := (hup1.inv.qcomplete h2).2.stopping.trans hstop1
    exact ⟨⟨_, _, hup2.watched hstop2⟩, keeps_of_some hcalls hup1.state hup2.state hiff⟩
  · cases h2
    exact ⟨⟨C, _, hup1.watched hstop1⟩, keeps_of_none hcalls⟩

/-- **The end of a poll.** -/
theorem Watched.evPolled (h : srp.Watched cfg b C P) (hal : cfg.wptrAlign = 8) (hsized : Sized cfg)
    (hr : srp.evPolled cfg io = some srp') : srp'.Watched cfg b P P ∧
      (KeepsUsable cfg (.evPolled io) srp srp' ↔ Supplied cfg (.evPolled io) srp) := by
  set srp1 : Rxq := { srp with seRx := 0 } with hsrp1
  have hi1 : srp1.Inv cfg b C P := ⟨h.sound.inv.ring.congr rfl rfl rfl rfl,
    ⟨h.sound.inv.pool.count, h.sound.inv.pool.putCount, h.sound.inv.pool.owned, h.sound.inv.pool.loaned⟩,
    h.sound.inv.completed⟩
  obtain ⟨hi2, hsame⟩ := hi1.evQcomplete hr
  by_cases hne : srp.srPending ≠ srp.srCompleted
  · have hcalls : calls cfg (.evPolled io) srp = some (io, srp1) := if_pos hne
    have hq : srp1.qcomplete cfg io = some srp' := (if_pos hne).symm.trans hr
    by_cases hst : srp.srState = SFXGE_RXQ_STARTED
    · have hup1 : srp1.Up cfg b C P := (h.up hst).congr hi1 rfl rfl rfl (h.up hst).behind
      obtain ⟨hup2, hiff⟩ := hup1.qcomplete_iff hal hsized hup1.ahead hq
      exact ⟨hup2.watched (hsame.stopping.trans (h.not_stopping hst)),
        keeps_of_some hcalls hup1.state hup2.state hiff⟩
    · have hst' : srp'.srState ≠ SFXGE_RXQ_STARTED := by
        rw [hsame.srState]
        exact hst
      refine ⟨(h.sound.evPolled hr).watched hst' fun hstop => ?_, ?_⟩
      · obtain ⟨-, hP⟩ := h.sound.idle hst (hsame.stopping.symm.trans hstop)
        exact absurd (h.sound.inv.pending_eq.mpr hP) hne
      · refine iff_of_true (fun _ hst2 => absurd hst2 hst') fun c hc hst2 => ?_
        cases hcalls.symm.trans hc
        exact absurd hst2 hst
  · have hkeep : srp' = srp1 := Option.some.inj (hr.symm.trans (if_neg hne))
    obtain rfl := h.sound.inv.pending_eq.mp (not_not.mp hne)
    subst hkeep
    refine ⟨⟨h.sound.evPolled hr, h.idle, fun hst => ?_⟩, keeps_of_none (if_neg hne)⟩
    exact (h.up hst).congr hi1 rfl rfl rfl (h.up hst).behind

theorem Watched.trim (h : srp.Watched cfg b C P) (hal : cfg.wptrAlign = 8) (hr : srp.qfppTrim cfg io = some srp') :
    srp'.Watched cfg b C P := by
  obtain ⟨hi, hsame⟩ := h.sound.inv.qfppTrim hr
  by_cases hst : srp.srState = SFXGE_RXQ_STARTED
  · obtain ⟨hup1, -⟩ := (h.up hst).qrefill hal io
    have hup : srp'.Up cfg b C P := by
      have hframe : srp'.levels = (srp.qrefill cfg io cfg.limit).levels ∧
          srp'.posted = (srp.qrefill cfg io cfg.limit).posted ∧
          srp'.srState = (srp.qrefill cfg io cfg.limit).srState := by
        unfold Rxq.qfppTrim at hr
        dsimp only at hr
        rw [if_neg (not_not.mpr hst)] at hr
        split_ifs at hr <;> cases hr <;> exact ⟨rfl, rfl, rfl⟩
      exact hup1.congr hi hframe.2.2 hframe.1 hframe.2.1 hup1.behind
    exact hup.watched (hsame.stopping.trans (h.not_stopping hst))
  · have hkeep : srp' = { srp with srfppMin := srp.srfppCount } := by
      unfold Rxq.qfppTrim at hr
      dsimp only at hr
      rw [if_pos hst] at hr
      exact (Option.some.inj hr).symm
    refine (h.sound.qfppTrim hr).watched (hsame.srState ▸ hst) fun hstop => ?_
    rw [hkeep]
    exact h.idle hst (hsame.stopping.symm.trans hstop)

theorem Watched.stackFree (h : srp.Watched cfg b C P) (cpu : Cpu) (recycled : Bool) (p : Pkt) :
    (srp.stackFree cpu recycled p).Watched cfg b C P := by
  obtain ⟨hsame, hadded, -, hp, -⟩ := stackFree_frame cpu recycled p srp
  have hl : (srp.stackFree cpu recycled p).levels = srp.levels := by
    unfold Rxq.stackFree
    split_ifs
    · exact levels_qpacketFree _ _ _ _
    · rfl
  refine ⟨h.sound.stackFree cpu recycled p, fun hst hstop => ?_, fun hst => ?_⟩
  · obtain ⟨h1, h2⟩ := h.idle (hsame.srState ▸ hst) (hsame.stopping ▸ hstop)
    exact ⟨hadded.trans h1, (congrArg (·.2.2) hl).trans h2⟩
  · have hup := h.up (hsame.srState ▸ hst)
    exact hup.congr (h.sound.inv.stackFree cpu recycled p) hsame.srState hl hp hup.behind

theorem preallocateLoop_frame (cpu : Cpu) (n : ℕ) (srp : Rxq) :
    (preallocateLoop cpu n srp).srAdded = srp.srAdded ∧ (preallocateLoop cpu n srp).srPushed = srp.srPushed := by
  induction n generalizing srp with
  | zero => exact ⟨rfl, rfl⟩
  | succ n ih => exact ih _

theorem Watched.preallocate (h : srp.Watched cfg b C P) (hst : srp.srState = SFXGE_RXQ_UNINITIALIZED) (io : Io)
    (nprealloc : U32) : (srp.qpreallocate io nprealloc).Watched cfg b C P := by
  have hsame := (h.sound.inv.qpreallocate io nprealloc).2
  have hne : srp.srState ≠ SFXGE_RXQ_STARTED := by
    rw [hst]
    exact nofun
  refine (h.sound.qpreallocate io nprealloc).watched (hsame.srState ▸ hne) fun hstop => ?_
  obtain ⟨h1, h2⟩ := h.idle hne (hsame.stopping ▸ hstop)
  obtain ⟨h3, h4⟩ := preallocateLoop_frame io.cpu (min nprealloc.toInt.toNat io.creates)
    { srp with srfppLowat := nprealloc }
  exact ⟨h3.trans h1, h4.trans h2⟩

theorem Watched.qinit (h : srp.Watched cfg b C P) : srp.qinit.Watched cfg b C P := by
  have hs := h.sound.qinit
  unfold Rxq.qinit at hs ⊢
  split_ifs at hs ⊢ with hst
  · exact hs.watched nofun fun hstop => h.idle (by rw [hst]; exact nofun) hstop
  · exact h

theorem Watched.qstop (h : srp.Watched cfg b C P) : srp.qstop.Watched cfg b C P := by
  have hs := h.sound.qstop
  unfold Rxq.qstop at hs ⊢
  split_ifs at hs ⊢
  · exact hs.watched nofun nofun
  · exact h

theorem Watched.qfini (h : srp.Watched cfg b C P) (io : Io) : (srp.qfini io).Watched cfg b C P := by
  have hs := h.sound.qfini io
  unfold Rxq.qfini at hs ⊢
  split_ifs at hs ⊢ with hst
  · refine hs.watched nofun fun _ => ?_
    have hswz : (srp.qfppSwizzle io.cpu).srAdded = srp.srAdded := by
      have hf := h.sound.inv.filled.swizzle (swizzleOrder io.cpu)
      refine (h.sound.inv.of_filled hf).added.trans (Eq.trans ?_ h.sound.inv.added.symm)
      rw [posted_swizzle]
    obtain ⟨h1, h2⟩ := h.idle (by rw [hst.1]; exact nofun) hst.2
    exact ⟨hswz.trans h1, (congrArg (·.2.2) (levels_qfppSwizzle io.cpu srp)).trans h2⟩
  · exact h

theorem Watched.qdrain (h : srp.Watched cfg b C P) (hr : srp.qdrain cfg io = some srp') :
    (∃ b' C' P', srp'.Watched cfg b' C' P') ∧
      (KeepsUsable cfg (.qdrain io) srp srp' ↔ Supplied cfg (.qdrain io) srp) := by
  obtain ⟨b', C', P', hs⟩ := h.sound.qdrain hr
  unfold Rxq.qdrain at hr
  split_ifs at hr with hstop
  · obtain ⟨srp1, h1, rfl⟩ := Option.map_eq_some_iff.mp hr
    have hst : srp.srState ≠ SFXGE_RXQ_STARTED := by
      rw [h.sound.stopping hstop]
      exact nofun
    have hst1 : srp1.srState ≠ SFXGE_RXQ_STARTED := by
      rw [(h.sound.inv.drained.qcomplete h1).2.srState]
      exact hst
    have hcalls : calls cfg (.qdrain io) srp = some (io, { srp with srPending := srp.srAdded }) := if_pos hstop
    refine ⟨⟨b', C', P', hs.watched hst1 fun _ => ⟨rfl, rfl⟩⟩, iff_of_true (fun _ hst2 => absurd hst2 hst1) ?_⟩
    intro c hc hst2
    cases hcalls.symm.trans hc
    exact absurd hst2 hst
  · cases hr
    exact ⟨⟨b, C, P, h⟩, keeps_of_none (if_neg hstop)⟩

/-- **Step lemma.** -/
theorem Watched.step (h : srp.Watched cfg b C P) (hal : cfg.wptrAlign = 8) (hsized : Sized cfg) {o : Op}
    (hmade : Made cfg o srp) (hr : step cfg o srp = some srp') :
    (∃ b' C' P', srp'.Watched cfg b' C' P') ∧ (KeepsUsable cfg o srp srp' ↔ Supplied cfg o srp) := by
  cases o with
  | preallocate io nprealloc =>
    refine ⟨?_, keeps_of_none rfl⟩
    change (if _ then _ else _) = _ at hr
    split_ifs at hr with hst <;> cases hr
    · exact ⟨b, C, P, h.preallocate hst io nprealloc⟩
    · exact ⟨b, C, P, h⟩
  | qinit =>
    cases hr
    exact ⟨⟨b, C, P, h.qinit⟩, keeps_of_none rfl⟩
  | qstart io port =>
    cases hr
    exact ⟨⟨b, C, P, h.qstart hal io port⟩, keeps_of_none rfl⟩
  | evRx io id size flags =>
    obtain ⟨h', hiff⟩ := h.evRx hal hsized hmade hr
    exact ⟨⟨b, h'⟩, hiff⟩
  | evPolled io =>
    obtain ⟨h', hiff⟩ := h.evPolled hal hsized hr
    exact ⟨⟨b, P, P, h'⟩, hiff⟩
  | trim io => exact ⟨⟨b, C, P, h.trim hal hr⟩, keeps_of_none rfl⟩
  | stackFree cpu recycled p =>
    cases hr
    exact ⟨⟨b, C, P, h.stackFree cpu recycled p⟩, keeps_of_none rfl⟩
  | qstop =>
    cases hr
    exact ⟨⟨b, C, P, h.qstop⟩, keeps_of_none rfl⟩
  | qdrain io => exact h.qdrain hr
  | qfini io =>
    cases hr
    exact ⟨⟨b, C, P, h.qfini io⟩, keeps_of_none rfl⟩

end Rxq

/-- A configuration of EF10, with `s_rxq_size` from `EFX_RXQ_MINNDESCS` to `EFX_RXQ_MAXNDESCS`. -/
structure Ef10Config extends Config where
  nine_le : 9 ≤ logSize
  le_twelve : logSize ≤ 12
  ef10RxWptrAlign : wptrAlign = 8

namespace Rxq

theorem sized (cfg : Ef10Config) : Sized cfg.toConfig := by
  have hle : 512 ≤ cfg.toConfig.size := Nat.pow_le_pow_right (n := 2) (by omega) cfg.nine_le
  have hge : cfg.toConfig.size ≤ 4096 := Nat.pow_le_pow_right (n := 2) (by omega) cfg.le_twelve
  have hhiwat : (cfg.toConfig.limit * 9 / 10).toNat = (cfg.toConfig.size - 16) * 9 / 10 := by
    rw [BitVec.toNat_udiv, BitVec.toNat_mul, cfg.toConfig.limit_toNat]
    change ((cfg.toConfig.size - 16) * 9 % 2 ^ 32) / 10 = _
    omega
  constructor
  · rw [BitVec.lt_def, hhiwat]
    change 0 < _
    omega
  · rw [BitVec.le_def, BitVec.toNat_udiv, hhiwat]
    change 8 ≤ (cfg.toConfig.size - 16) * 9 / 10 / 2
    omega

/-- **The last usable descriptor.**  In a run in which the hardware completes only descriptors that it has been
given, every completion of a started queue leaves it at least one exactly if each that completes all of them finds
the packets it needs. -/
theorem keeps_usable_iff (cfg : Ef10Config) (os : List Op) :
    MeetsAlong (hwStep cfg.toConfig) (fun _ => True) (KeepsUsable cfg.toConfig) os construct ↔
      StepsAlong (hwStep cfg.toConfig) (Supplied cfg.toConfig) os construct := by
  have hstep : ∀ o srp srp', (∃ b C P, srp.Watched cfg.toConfig b C P) → hwStep cfg.toConfig o srp = some srp' →
      (∃ b C P, srp'.Watched cfg.toConfig b C P) ∧
        (KeepsUsable cfg.toConfig o srp srp' ↔ Supplied cfg.toConfig o srp) := by
    rintro o srp srp' ⟨b, C, P, h⟩ hr
    unfold hwStep at hr
    split_ifs at hr with hmade
    exact h.step cfg.ef10RxWptrAlign (sized cfg) hmade hr
  refine meetsAlong_iff (I := fun srp => ∃ b C P, srp.Watched cfg.toConfig b C P) (fun o srp srp' h hr =>
    (hstep o srp srp' h hr).1) (fun o srp srp' h _ hr => ?_) os ⟨0, 0, 0, watched_construct _⟩ trivial
  rw [and_true]
  exact (hstep o srp srp' h hr).2

end Rxq

/-- A ring of 512 descriptors. -/
def Config.ef10Least : Ef10Config where
  logSize := 9
  five_le := by decide
  le_31 := by decide
  wptrAlign := 8
  encRxBatchingEnabled := true
  encRxBatchMax := 16
  seEvBatch := 256
  nine_le := Nat.le_refl 9
  le_twelve := by decide
  ef10RxWptrAlign := rfl

/-- A call on the first CPU that creates up to `creates` packets, and has the chain `first` to pass up. -/
def Io.short (creates : ℕ) (first : Option (List Pkt)) : Io where
  cpu := 0
  see _ := ⟨0, false⟩
  first := first
  recycled _ := true
  creates := creates
  meanwhile := []

namespace Rxq

/-- Only 8 packets could be created when the queue was started, and they all are received.  In the emergency the
first of them is recycled, and its descriptor is the only one that is added: it is not pushed. -/
theorem starved : ¬ MeetsAlong (hwStep Config.ef10Least.toConfig) (fun _ => True) (KeepsUsable Config.ef10Least.toConfig)
    ([.qinit, .qstart (.short 8 none) ⟨0, 0, 1500⟩, .evRx (.short 0 none) 7 64 EFX_PKT_IPV4] ++
      [.evPolled (.short 0 (some [0]))]) construct := by
  intro h
  obtain ⟨srp, hr, hstarved⟩ := exists_of_any (r := runOps (hwStep Config.ef10Least.toConfig) [.qinit,
      .qstart (.short 8 none) ⟨0, 0, 1500⟩, .evRx (.short 0 none) 7 64 EFX_PKT_IPV4] construct)
    (P := fun srp => ((hwStep Config.ef10Least.toConfig (.evPolled (.short 0 (some [0]))) srp).any fun srp' =>
      decide ((calls Config.ef10Least.toConfig (.evPolled (.short 0 (some [0]))) srp).isSome ∧
        srp'.srState = SFXGE_RXQ_STARTED ∧ srp'.srAdded = 9 ∧ srp'.srPushed = srp'.srCompleted)) = true)
    (by decide +kernel)
  obtain ⟨srp', hr', hcalls, hst, -, heq⟩ := exists_of_any hstarved
  exact MeetsAlong.last h hr hr' hcalls hst heq

end Rxq

end Sfxge.Rx
