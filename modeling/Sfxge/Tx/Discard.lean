import Sfxge.Tx.Service

/-!
# Tx.Discard — flushing the deferred packets

`sfxge_tx_qdpl_flush` swizzles and then discards the get list.  Where the get list is at its limit the swizzle leaves
the put list alone, and so does the flush.
-/

namespace Sfxge.Tx

open Errno TxqState Txq Lib StateTransition

variable {f : Bool → Bool → Fragments} {s s' : Sys} {gs ps : List ℕ}

/-- A step of the thread that holds the lock, while no other thread acts. -/
def alone (f : Bool → Bool → Fragments) (s : Sys) : Option Sys := s.hold f

/-- `sfxge_tx_qdpl_flush` gets from `s` to `s'`, while no other thread acts. -/
def Flushes (f : Bool → Bool → Fragments) (s s' : Sys) : Prop :=
  ∃ s1, step .flushList s = some s1 ∧ s' ∈ eval (alone f) s1 ∧ s'.pc = .free

/-- The get list `gs` and the put list `ps` of `s` have been emptied, and their packets have been freed: each
structure once, and each message once. -/
structure Emptied (gs ps : List ℕ) (s s' : Sys) : Prop where
  stdGet : s'.dpl.stdGet = none
  stdPut : s'.dpl.stdPut = none
  stdCount : s'.dpl.stdCount = 0
  live : s.live.Perm (gs ++ ps ++ s'.live)
  freed : ∃ mps, (gs ++ ps.reverse).map (fun p => (s.pkt p).stpMp) = mps.map some ∧
    s'.rs.stp.freed = s.rs.stp.freed ++ mps

/-! ### Discarding the get list -/

/-- What discarding the get list `gs` of `s` leaves. -/
structure Discarded (gs ps : List ℕ) (s s' : Sys) : Prop where
  pc : s'.pc = .free
  stdGet : s'.dpl.stdGet = none
  stdCount : s'.dpl.stdCount = 0
  stdPut : s'.dpl.stdPut = none ↔ ps = []
  live : s.live.Perm (gs ++ s'.live)
  freed : ∃ mps, s'.rs.stp.freed = s.rs.stp.freed ++ mps ∧ s.entered.map some =
    (s.taken ++ mps).map some ++ ps.reverse.map fun p => (s'.pkt p).stpMp

/-- The loop of `sfxge_tx_qdpl_flush_locked`: the induction is on the get list. -/
theorem run_discard {p : Option ℕ} {count : ℕ} (Q : Queued s gs [] ps) (hpc : s.pc = .discard p count) :
    ∃ s', Reaches (alone f) s s' ∧ Discarded gs ps s s' := by
  induction gs generalizing s p count with
  | nil =>
    obtain ⟨-, hcount, -⟩ := Q.part (show s.pc.taking = some (p, count) by rw [hpc]; rfl)
    have h1 : alone f s = some s.flushEnd := by
      rw [alone, Sys.hold, hpc]
      exact if_pos hcount
    obtain ⟨s2, hs2⟩ : ∃ s2 : Sys, s2 = { s.flushEnd with
      pc := .free, evq := if s.evq = .unblock then .poll else s.evq } := ⟨_, rfl⟩
    have h2 : alone f s.flushEnd = some s2 := by
      rw [hs2]
      rfl
    refine ⟨s2, .head h1 (.single h2), ?_⟩
    subst hs2
    have hput := put_eq_none_iff Q
    refine ⟨rfl, rfl, rfl, hput, .refl _, [], (List.append_nil _).symm, ?_⟩
    have horder := Q.order
    rw [hpc] at horder
    rw [List.append_nil]
    exact horder
  | cons q gs ih =>
    obtain ⟨hchain, hcount, -⟩ := Q.part (show s.pc.taking = some (p, count) by rw [hpc]; rfl)
    obtain rfl : p = some q := hchain.1
    obtain ⟨mp, hmp⟩ := Q.stpMp (List.mem_cons_self : q ∈ q :: gs)
    obtain ⟨s1, hs1⟩ : ∃ s1, s1 = { s.split q mp with
      rs := { s.rs with stp := s.rs.stp.freemsg (some mp) }, pc := .discard (s.next q) (count - 1) } := ⟨_, rfl⟩
    have hone : s.discardOne q count = some s1 := by
      rw [Sys.discardOne, hmp, hs1]
      rfl
    have h1 : alone f s = some s1 := by
      rw [alone, Sys.hold, hpc]
      dsimp only
      rw [if_neg (by rw [hcount]; exact Nat.succ_ne_zero _)]
      exact hone
    obtain ⟨gs', heq, Q1⟩ := queued_discardOne Q hpc hone
    obtain rfl : gs = gs' := (List.cons.inj heq).2
    obtain ⟨s2, hrun, hd⟩ := ih Q1 (by rw [hs1])
    obtain ⟨mps, hfreed, horder⟩ := hd.freed
    refine ⟨s2, .head h1 hrun, hd.pc, hd.stdGet, hd.stdCount, hd.stdPut, ?_, mp :: mps, ?_, ?_⟩
    · have hlive : s1.live = s.live.erase q := by rw [hs1]; rfl
      have hmem : q ∈ s.live := Q.live q (List.mem_append_left _ (List.mem_cons_self ..))
      exact (List.perm_cons_erase hmem).trans ((hlive ▸ hd.live).cons q)
    · have hfreed1 : s1.rs.stp.freed = s.rs.stp.freed ++ [mp] := by rw [hs1]; rfl
      rw [hfreed, hfreed1, List.append_assoc, List.singleton_append]
    · have htaken : s1.taken = s.taken ++ [mp] := by rw [hs1]; rfl
      have hentered : s1.entered = s.entered := by rw [hs1]; rfl
      rw [← hentered, horder, htaken, List.append_assoc, List.singleton_append]

/-! ### The flush -/

/-- The swizzle of the flush takes the put list, if it may. -/
theorem run_swizzle_flush (Q : Queued s gs [] ps) (hpc : s.pc = .swizzle .flush) :
    ∃ s' gs' ps' p count, Reaches (alone f) s s' ∧ s'.pc = .discard p count ∧ Queued s' gs' [] ps' ∧
      (gs', ps') = (if ps = [] ∨ s.dpl.getPktLimit ≤ gs.length then (gs, ps) else (gs ++ ps.reverse, [])) ∧
      Links s s' := by
  have hstep : alone f s = some (s.swizzle .flush) := by rw [alone, Sys.hold, hpc]
  obtain ⟨-, hwhole, -⟩ := Q.at_swizzle hpc
  obtain ⟨hstay, hq⟩ | ⟨hgo, hq⟩ := queued_swizzle Q hpc
  · rw [if_pos hstay]
    have hs1 : s.swizzle .flush = { s with pc := .discard s.dpl.stdGet s.dpl.stdCount } := by
      unfold Sys.swizzle
      split_ifs with hfull
      · rfl
      · have hput := (put_eq_none_iff Q).mpr (hstay.resolve_right fun hle => hfull (hwhole.2.symm ▸ hle))
        dsimp only
        rw [hput]
        rfl
    rw [hs1] at hstep hq
    exact ⟨_, gs, ps, _, _, .single hstep, rfl, hq, rfl, rfl, rfl, fun _ => rfl, rfl, rfl, rfl⟩
  · rw [if_neg hgo]
    rw [not_or] at hgo
    obtain ⟨stpp, hsome⟩ := Option.ne_none_iff_exists'.mp fun h => hgo.1 ((put_eq_none_iff Q).mp h)
    have hs1 : s.swizzle .flush =
        { s with dpl := { s.dpl with stdPut := none }, pc := .reverse stpp none 0 stpp .flush } := by
      unfold Sys.swizzle
      rw [if_neg (hwhole.2.symm ▸ hgo.2)]
      dsimp only
      rw [hsome]
      rfl
    rw [hs1] at hstep hq
    have hchain : Chain s.next (some stpp) ps := hsome ▸ Q.put
    have hturn : ∀ s stpp p count pp, s.pc = .reverse stpp p count pp .flush →
        alone f s = some (s.reverse stpp p count pp .flush) := fun s stpp p count pp hpc => by
      rw [alone, Sys.hold, hpc]
    obtain ⟨s2, p, count, hrun, hpc2, hq2, hl2⟩ := run_reverse hturn hq rfl hchain
    have hstep2 : alone f s2 = some ((s2.appendGet p count stpp).swizzled .flush) := by
      rw [alone, Sys.hold, hpc2]
    have hl3 := hl2.trans (links_appendGet s2 p count stpp)
    exact ⟨_, gs ++ ps.reverse, [], _, _, .head hstep (hrun.tail hstep2), rfl, (queued_splice hq2 hpc2).swizzled, rfl,
      hl3.rs, hl3.limit, hl3.mss, hl3.live, hl3.entered, hl3.taken⟩

theorem flushes_unique {s1 s2 : Sys} (h1 : Flushes f s s1) (h2 : Flushes f s s2) : s1 = s2 := by
  obtain ⟨t1, ht1, he1, -⟩ := h1
  obtain ⟨t2, ht2, he2, -⟩ := h2
  rw [ht1] at ht2
  cases ht2
  exact Part.mem_unique he1 he2

/-- The flush discards the packets that the swizzle leaves on the get list. -/
theorem exists_flushes (Q : Queued s gs [] ps) (hpc : s.pc = .free) (f : Bool → Bool → Fragments) :
    ∃ s' s2 gs' ps', Flushes f s s' ∧ Discarded gs' ps' s2 s' ∧ Links s s2 ∧
      (gs', ps') = if ps = [] ∨ s.dpl.getPktLimit ≤ gs.length then (gs, ps) else (gs ++ ps.reverse, []) := by
  have hlock : step .flushList s = some { s with pc := .swizzle .flush } := if_neg (not_not.mpr hpc)
  have Q1 : Queued { s with pc := .swizzle .flush } gs [] ps :=
    Q.goto rfl (by rw [hpc]; trivial) (by rw [hpc]; rfl) trivial rfl
  obtain ⟨s2, gs', ps', p, count, hrun, hpc2, Q2, hlists, hl⟩ := run_swizzle_flush (f := f) Q1 rfl
  obtain ⟨s3, hrun3, hd⟩ := run_discard (f := f) Q2 hpc2
  have hstop : alone f s3 = none := by rw [alone, Sys.hold, hd.pc]
  exact ⟨s3, s2, gs', ps', ⟨_, hlock, mem_eval.mpr ⟨hrun.trans hrun3, hstop⟩, hd.pc⟩, hd,
    ⟨hl.rs, hl.limit, hl.mss, hl.live, hl.entered, hl.taken⟩, hlists⟩

/-- With the put list taken, everything has been freed. -/
theorem Discarded.emptied {s2 : Sys} {gs' : List ℕ} (Q : Queued s gs [] ps) (hpc : s.pc = .free)
    (hd : Discarded gs' [] s2 s') (hl : Links s s2) (hperm : gs'.Perm (gs ++ ps)) : Emptied gs ps s s' := by
  obtain ⟨mps, hfreed, horder⟩ := hd.freed
  have horder0 : s.entered.map some = s.taken.map some ++ (gs ++ ps.reverse).map fun p => (s.pkt p).stpMp := by
    have h := Q.order
    rw [hpc] at h
    exact h
  have htaken : (s2.taken ++ mps).map some = s.taken.map some ++ mps.map some := by rw [hl.taken, List.map_append]
  rw [hl.entered, htaken, horder0, List.reverse_nil, List.map_nil, List.append_nil] at horder
  rw [hl.rs] at hfreed
  exact ⟨hd.stdGet, hd.stdPut.mpr rfl, hd.stdCount, (hl.live ▸ hd.live).trans (hperm.append_right _), mps,
    List.append_cancel_left horder, hfreed⟩

/-- **Flushing.**  From every state with any packets on the two lists, within the limits, the flush comes to its end;
it empties both lists exactly if the put list is empty or the get list is below its limit. -/
theorem flush_empties_iff (Q : Queued s gs [] ps) (hpc : s.pc = .free) (f : Bool → Bool → Fragments) :
    (∃ s', Flushes f s s') ∧
      ∀ s', Flushes f s s' → (Emptied gs ps s s' ↔ ps = [] ∨ gs.length < s.dpl.getPktLimit) := by
  obtain ⟨s3, s2, gs', ps', hflush, hd, hl, hlists⟩ := exists_flushes Q hpc f
  refine ⟨⟨s3, hflush⟩, fun s' hs' => ?_⟩
  rw [← flushes_unique hflush hs']
  constructor
  · intro he
    by_contra hno
    rw [not_or, not_lt] at hno
    rw [if_pos (Or.inr hno.2)] at hlists
    cases hlists
    exact hno.1 (hd.stdPut.mp he.stdPut)
  · intro hcond
    by_cases hnil : ps = []
    · subst hnil
      rw [if_pos (Or.inl rfl)] at hlists
      cases hlists
      exact hd.emptied Q hpc hl (by rw [List.append_nil])
    · rw [if_neg (not_or.mpr ⟨hnil, Nat.not_le.mpr (hcond.resolve_left hnil)⟩)] at hlists
      cases hlists
      exact hd.emptied Q hpc hl ((List.reverse_perm ps).append_left gs)

/-- One packet is on the put list. -/
theorem flush_empties_one : ∃ s s', runOps step [.add 1 1 0] smallQueue = some s ∧ Flushes oneFragment s s' ∧
    Emptied [] [1] s s' := by
  obtain ⟨s, hs⟩ : ∃ s, runOps step [.add 1 1 0] smallQueue = some s := ⟨_, rfl⟩
  obtain ⟨gs, fs, ps, Q⟩ := queued_reachable (reach_small hs)
  have hval : s.pc = .free ∧ Chain s.next s.dpl.stdGet [] ∧ Chain s.next s.dpl.stdPut [1] := by
    cases hs
    exact ⟨rfl, rfl, rfl, rfl⟩
  obtain ⟨hpc, hget, hput⟩ := hval
  obtain ⟨rfl, -⟩ := Q.core (by rw [hpc]; trivial)
  obtain rfl : gs = [] := (Q.whole (by rw [hpc]; rfl)).1.chain.unique hget
  obtain rfl : ps = [1] := Q.put.unique hput
  obtain ⟨⟨s', hflush⟩, hiff⟩ := flush_empties_iff Q hpc oneFragment
  refine ⟨s, s', hs, hflush, (hiff s' hflush).mpr (.inr ?_)⟩
  cases hs
  exact Nat.zero_lt_one

/-- The ring is full, one packet is on the get list, which is its limit, and one on the put list; then the queue is
stopped. -/
def stoppedFull : List Op :=
  send 1 9 ringFragments ++ send 2 11 oneFragment ++ send 3 5 oneFragment ++ [.add 4 4 0, .flush SFXGE_TXQ_FLUSH_DONE]

theorem stoppedFull_not_emptied : ∃ s s', runOps step stoppedFull smallQueue = some s ∧
    s.rs.stp.stState = SFXGE_TXQ_FLUSH_DONE ∧ Chain s.next s.dpl.stdGet [3] ∧ Chain s.next s.dpl.stdPut [4] ∧
    Flushes oneFragment s s' ∧ ¬ Emptied [3] [4] s s' := by
  obtain ⟨s, hs⟩ : ∃ s, runOps step stoppedFull smallQueue = some s := ⟨_, rfl⟩
  obtain ⟨gs, fs, ps, Q⟩ := queued_reachable (reach_small hs)
  have hval : s.pc = .free ∧ Chain s.next s.dpl.stdGet [3] ∧ Chain s.next s.dpl.stdPut [4] ∧
      s.rs.stp.stState = SFXGE_TXQ_FLUSH_DONE ∧ s.dpl.getPktLimit = 1 := by
    cases hs
    exact ⟨rfl, ⟨rfl, rfl⟩, ⟨rfl, rfl⟩, rfl, rfl⟩
  obtain ⟨hpc, hget, hput, hstate, hlimit⟩ := hval
  obtain ⟨rfl, -⟩ := Q.core (by rw [hpc]; trivial)
  obtain rfl : gs = [3] := (Q.whole (by rw [hpc]; rfl)).1.chain.unique hget
  obtain rfl : ps = [4] := Q.put.unique hput
  obtain ⟨s', s2, gs', ps', hflush, hd, -, hlists⟩ := exists_flushes Q hpc oneFragment
  rw [hlimit, if_pos (Or.inr (by decide))] at hlists
  cases hlists
  exact ⟨s, s', hs, hstate, hget, hput, hflush, fun he => nomatch hd.stdPut.mp he.stdPut⟩

end Sfxge.Tx
