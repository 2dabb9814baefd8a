import Sfxge.Tx.Loop
import Sfxge.Tx.Wakeup

/-!
# Tx.Service — when `sfxge_tx_qdpl_service` returns

`solo` is a step of the thread that holds the lock while no other thread acts.  The queue refines the loop
over the lists of `Tx.Loop`, so that it returns exactly when that loop ends.
-/

namespace Sfxge.Tx

open Errno TxqState Txq Lib StateTransition

/-! ### The holder alone -/

/-- The packet that is fragmented next. -/
def Sys.current (s : Sys) : ℕ := match s.pc with
  | .drain (some stpp) _ _ => stpp
  | _ => 0

/-- A step of `sfxge_tx_qdpl_service` while no other thread acts, where `f stpp lso copy` is the outcome of
fragmenting the packet `stpp`: `mutex_tryenter` succeeds, and the loop ends with the put list empty. -/
def solo (f : ℕ → Bool → Bool → Fragments) (s : Sys) : Option Sys :=
  if s.pc = .free then if s.dpl.stdPut = none then none else some { s with pc := .service }
  else s.hold (f s.current)

/-- The loop returns. -/
def Returns (f : ℕ → Bool → Bool → Fragments) (s : Sys) : Prop :=
  ∃ s' ∈ eval (solo f) s, s'.pc = .free ∧ s'.dpl.stdPut = none

/-- The descriptors that `sfxge_tx_qdpl_drain` has for a packet; none when it is rejected. -/
def descs (f : Bool → Fragments) : ℕ := match (f false).rc with
  | none => (f false).n
  | some ENOSPC => match (f true).rc with
    | none => (f true).n
    | some _ => 0
  | some _ => 0

/-- The descriptors of the packet `stpp`. -/
def Sys.load (s : Sys) (f : ℕ → Bool → Bool → Fragments) (stpp : ℕ) : ℕ :=
  if s.rs.stp.stState = SFXGE_TXQ_STARTED then descs (f stpp (decide ((s.pkt stpp).stpMss ≠ 0))) else 0

variable {f : ℕ → Bool → Bool → Fragments} {s s' : Sys}

theorem solo_hold (h : s.pc ≠ .free) : solo f s = s.hold (f s.current) := if_neg h

theorem solo_step (h : solo f s = some s') : Step s s' := by
  unfold solo at h
  split_ifs at h with hpc hput
  · cases h
    exact ⟨.service, if_neg (not_not.mpr hpc)⟩
  · exact ⟨.hold (f s.current), h⟩

/-- A packet is rejected, or has its descriptors in the list to post. -/
theorem fragmentPacket_descs (g : Bool → Fragments) (mp : Mblk) (stp : Txq) :
    ((stp.fragmentPacket g mp).2 = false ∧
      (if stp.stState = SFXGE_TXQ_STARTED then descs g else 0) = 0) ∨
    ((stp.fragmentPacket g mp).2 = true ∧
      (stp.fragmentPacket g mp).1.stN = if stp.stState = SFXGE_TXQ_STARTED then descs g else 0) := by
  unfold fragmentPacket descs
  by_cases hst : stp.stState = SFXGE_TXQ_STARTED
  · rw [if_neg (not_not.mpr hst), if_pos hst]
    cases hrc : (g false).rc with
    | none => exact Or.inr ⟨rfl, stN_fragment _ _ _⟩
    | some e =>
      by_cases he : e = ENOSPC
      · rw [he]
        cases (g true).rc with
        | none => exact Or.inr ⟨rfl, stN_fragment _ _ _⟩
        | some e' => exact Or.inl ⟨rfl, rfl⟩
      · cases e <;> first | exact absurd rfl he | exact Or.inl ⟨rfl, rfl⟩
  · rw [if_pos hst, if_neg hst]
    exact Or.inl ⟨rfl, rfl⟩

/-! ### The queue and the loop over its lists -/

section Refinement

/- `load` gives the packets their descriptors; `b`, `C`, `D` and `P` are the counters of the event queue's
thread, which does not act. -/
variable {load : ℕ → ℕ} {limit b C D P A R : ℕ} {gs ps : List ℕ}

/-- The get list is `gs` and the put list `ps`, and the counters of the ring are at `A` and `R`. -/
structure At (f : ℕ → Bool → Bool → Fragments) (load : ℕ → ℕ) (limit b C D P : ℕ) (gs ps : List ℕ)
    (A R : ℕ) (s : Sys) : Prop where
  reach : Reach Started Step s
  queued : Queued s gs [] ps
  counts : Counts s.rs b A R C D P
  limit_eq : s.dpl.getPktLimit = limit
  load_eq : ∀ p ∈ gs ++ ps, s.load f p = load p

/-- The states of the queue that a state of the loop stands for. -/
def Stands (f : ℕ → Bool → Bool → Fragments) (load : ℕ → ℕ) (limit b C D P : ℕ) (a : Svc) (s : Sys) : Prop :=
  match a with
  | .done => s.pc = .free ∧ s.dpl.stdPut = none
  | .service blocked gs ps A R => At f load limit b C D P gs ps A R s ∧ s.pc = .service ∧
    (blocked = true ↔ s.rs.stp.stUnblock ≠ none)
  | .drain gs ps A R => At f load limit b C D P gs ps A R s ∧ ∃ p count pushed, s.pc = .drain p count pushed
  | .full n gs ps A R => At f load limit b C D P gs ps A R s ∧
    (∃ p count pushed, s.pc = .post (.drain p count pushed)) ∧ s.rs.posting = some .space ∧ s.rs.stp.stN = n

/-- What keeps the packets' descriptors. -/
structure Same (s s' : Sys) : Prop where
  limit : s'.dpl.getPktLimit = s.dpl.getPktLimit
  state : s'.rs.stp.stState = s.rs.stp.stState

theorem Same.refl (s : Sys) : Same s s := ⟨rfl, rfl⟩

theorem Same.load_eq (h : Same s s') {p : ℕ} (hmss : (s'.pkt p).stpMss = (s.pkt p).stpMss) :
    s'.load f p = s.load f p := by
  rw [Sys.load, Sys.load, h.state, hmss]

theorem At.next {gs' ps' : List ℕ} {A' R' : ℕ} (h : At f load limit b C D P gs ps A R s)
    (hr : Reaches (solo f) s s') (hq : Queued s' gs' [] ps') (hc : Counts s'.rs b A' R' C D P)
    (hsame : Same s s') (hsub : ∀ p ∈ gs' ++ ps', p ∈ gs ++ ps)
    (hmss : ∀ p ∈ gs' ++ ps', (s'.pkt p).stpMss = (s.pkt p).stpMss) :
    At f load limit b C D P gs' ps' A' R' s' where
  reach := h.reach.reaches (fun _ _ => solo_step) hr
  queued := hq
  counts := hc
  limit_eq := hsame.limit.trans h.limit_eq
  load_eq p hp := (hsame.load_eq (hmss p hp)).trans (h.load_eq p (hsub p hp))

/-- The holder goes on with the whole get list, and leaves the ring alone. -/
theorem At.goto (h : At f load limit b C D P gs ps A R s) (hr : Reaches (solo f) s s')
    (hs' : s' = ⟨s.pkt, s.live, s.dpl, s.rs, s'.pc, s'.evq, s.entered, s.taken, s.sent⟩) (hpc : s.pc.Plain)
    (htak : s.pc.taking = none) (hpc' : s'.pc.Plain) (htak' : s'.pc.taking = none) :
    At f load limit b C D P gs ps A R s' := by
  have hrs : s'.rs = s.rs := by rw [hs']
  have hpkt : s'.pkt = s.pkt := by rw [hs']
  have hdpl : s'.dpl = s.dpl := by rw [hs']
  refine h.next hr (h.queued.goto ?_ hpc htak hpc' htak') ?_ ⟨?_, ?_⟩ (fun p hp => hp) fun p _ => ?_
  · rw [hrs]
    exact hs'
  · rw [hrs]
    exact h.counts
  · rw [hdpl]
  · rw [hrs]
  · rw [hpkt]

/-- The holder goes on with what is left of the get list. -/
theorem At.goon {A' R' : ℕ} (h : At f load limit b C D P gs ps A R s) (hr : solo f s = some s')
    (hs' : s' = ⟨s.pkt, s.live, s.dpl, s'.rs, s'.pc, s'.evq, s.entered, s.taken, s.sent⟩) (hpc : s.pc.Plain)
    (htak : s.pc.taking ≠ none) (hpc' : s'.pc.Plain) (htak' : s'.pc.taking = s.pc.taking)
    (hstate : s'.rs.stp.stState = s.rs.stp.stState) (hc : Counts s'.rs b A' R' C D P) :
    At f load limit b C D P gs ps A' R' s' := by
  have hpkt : s'.pkt = s.pkt := by rw [hs']
  have hdpl : s'.dpl = s.dpl := by rw [hs']
  refine h.next (.single hr) (h.queued.goon hs' hpc htak hpc' htak') hc ⟨?_, hstate⟩ (fun p hp => hp)
    fun p _ => ?_
  · rw [hdpl]
  · rw [hpkt]

/-! ### The end of a round -/

theorem put_eq_none_iff (Q : Queued s gs [] ps) : s.dpl.stdPut = none ↔ ps = [] := by
  have hput := Q.put
  constructor
  · intro h
    rw [h] at hput
    exact hput.eq_nil
  · intro h
    rw [h] at hput
    exact hput

/-- The lock is released, and taken again when the put list is not empty. -/
theorem run_exit (h : At f load limit b C D P gs ps A R s) (hpc : s.pc = .exit) {blocked : Bool}
    (hb : blocked = true ↔ s.rs.stp.stUnblock ≠ none) :
    ∃ s', Stands f load limit b C D P (.after blocked gs ps A R) s' ∧ Reaches₁ (solo f) s s' := by
  have hstep : solo f s = some { s with pc := .free, evq := if s.evq = .unblock then .poll else s.evq } := by
    rw [solo_hold (by rw [hpc]; exact nofun), Sys.hold, hpc]
  have h1 := h.goto (.single hstep) rfl (by rw [hpc]; trivial) (by rw [hpc]; rfl) trivial rfl
  by_cases hps : ps = []
  · have hput : s.dpl.stdPut = none := (put_eq_none_iff h.queued).mpr hps
    refine ⟨_, ?_, .single hstep⟩
    rw [hps, Svc.after_nil]
    exact ⟨rfl, hput⟩
  · have hput : s.dpl.stdPut ≠ none := fun hn => hps ((put_eq_none_iff h.queued).mp hn)
    have hagain : solo f { s with pc := .free, evq := if s.evq = .unblock then .poll else s.evq } =
        some { s with pc := .service, evq := if s.evq = .unblock then .poll else s.evq } :=
      (if_pos rfl).trans (if_neg hput)
    refine ⟨_, ?_, .tail (.single hstep) hagain⟩
    rw [Svc.after_pos hps]
    exact ⟨h1.goto (.single hagain) rfl trivial rfl trivial rfl, rfl, hb⟩

/-- `sfxge_tx_qdpl_service` checks `st_unblock`. -/
theorem run_unblocked (h : At f load limit b C D P gs ps A R s) (hpc : s.pc = .unblocked) {blocked : Bool}
    (hb : blocked = true ↔ s.rs.stp.stUnblock ≠ none) :
    ∃ s', Stands f load limit b C D P (if blocked then .after true gs ps A R else .drain gs ps A R) s' ∧
      Reaches₁ (solo f) s s' := by
  have hstep : solo f s = some { s with
      pc := if s.rs.stp.stUnblock = none then .drain s.dpl.stdGet s.dpl.stdCount s.rs.stp.stAdded
        else .exit } := by
    rw [solo_hold (by rw [hpc]; exact nofun), Sys.hold, hpc]
  have hplain : s.pc.Plain := by rw [hpc]; trivial
  have htak : s.pc.taking = none := by rw [hpc]; rfl
  cases blocked with
  | true =>
    rw [if_neg (hb.mp rfl)] at hstep
    obtain ⟨s', hstands, hrun⟩ :=
      run_exit (h.goto (.single hstep) rfl hplain htak trivial rfl) rfl hb
    exact ⟨s', hstands, .head hstep hrun⟩
  | false =>
    have hno : s.rs.stp.stUnblock = none := by
      by_contra hne
      exact absurd (hb.mpr hne) (by decide)
    rw [if_pos hno] at hstep
    refine ⟨_, ⟨h.next (.single hstep) (h.queued.take rfl hplain htak trivial rfl) h.counts ⟨rfl, rfl⟩
      (fun p hp => hp) fun p _ => rfl, _, _, _, rfl⟩, .single hstep⟩

/-! ### Swizzling -/

theorem mss_setNext (s : Sys) (p : ℕ) (v : Option ℕ) (q : ℕ) :
    ((s.setNext p v).pkt q).stpMss = (s.pkt q).stpMss := by
  rw [Sys.setNext, Sys.setPkt]
  dsimp only
  rw [Function.update_apply]
  split_ifs with hq
  · rw [hq]
  · rfl

/-- Swizzling leaves the ring and all but the links of the packets. -/
structure Links (s s' : Sys) : Prop where
  rs : s'.rs = s.rs
  limit : s'.dpl.getPktLimit = s.dpl.getPktLimit
  mss : ∀ q, (s'.pkt q).stpMss = (s.pkt q).stpMss
  live : s'.live = s.live
  entered : s'.entered = s.entered
  taken : s'.taken = s.taken

theorem Links.trans {s1 : Sys} (h : Links s s1) (h' : Links s1 s') : Links s s' :=
  ⟨h'.rs.trans h.rs, h'.limit.trans h.limit, fun q => (h'.mss q).trans (h.mss q), h'.live.trans h.live,
    h'.entered.trans h.entered, h'.taken.trans h.taken⟩

theorem links_reverse (s : Sys) (stpp : ℕ) (p : Option ℕ) (count pp : ℕ) (k : SwizzleFor) :
    Links s (s.reverse stpp p count pp k) := by
  unfold Sys.reverse
  split <;> exact ⟨rfl, rfl, mss_setNext s stpp p, rfl, rfl, rfl⟩

theorem links_appendGet (s : Sys) (p count pp : ℕ) : Links s (s.appendGet p count pp) := by
  unfold Sys.appendGet Sys.setLink
  cases s.dpl.stdGetp with
  | head => exact ⟨rfl, rfl, fun _ => rfl, rfl, rfl, rfl⟩
  | next q => exact ⟨rfl, rfl, mss_setNext s q (some p), rfl, rfl, rfl⟩

/-- The loop of `sfxge_tx_qdpl_swizzle` comes to its end: the induction is on the packets still to turn. -/
theorem run_reverse {t : Sys → Option Sys} {k : SwizzleFor} (ht : ∀ s stpp p count pp,
      s.pc = .reverse stpp p count pp k → t s = some (s.reverse stpp p count pp k))
    {fs as : List ℕ} (hq : Queued s gs fs ps) {stpp : ℕ} {p : Option ℕ} {count pp : ℕ}
    (hpc : s.pc = .reverse stpp p count pp k) (has : Chain s.next (some stpp) as) :
    ∃ s' p' count', Reaches t s s' ∧ s'.pc = .splice p' count' pp k ∧ Queued s' gs fs ps ∧ Links s s' := by
  induction as generalizing s stpp p count with
  | nil => cases has
  | cons q as ih =>
    have hnodup := has.nodup
    obtain ⟨hhead, hrest⟩ := has
    have hqs : stpp = q := Option.some.inj hhead
    subst hqs
    have hstep := ht s stpp p count pp hpc
    have hq1 := queued_reverse hq hpc
    have hl1 := links_reverse s stpp p count pp k
    cases hn : s.next stpp with
    | none =>
      have hpc1 : (s.reverse stpp p count pp k).pc = .splice stpp (count + 1) pp k := by
        unfold Sys.reverse
        rw [hn]
      exact ⟨_, _, _, .single hstep, hpc1, hq1, hl1⟩
    | some n =>
      have hs1 : s.reverse stpp p count pp k =
          { s.setNext stpp p with pc := .reverse n (some stpp) (count + 1) pp k } := by
        unfold Sys.reverse
        rw [hn]
      have hpc1 : (s.reverse stpp p count pp k).pc = .reverse n (some stpp) (count + 1) pp k := by
        rw [hs1]
      have hchain : Chain (s.reverse stpp p count pp k).next (some n) as := by
        rw [hn] at hrest
        rw [hs1]
        change Chain (s.setNext stpp p).next (some n) as
        rw [next_setNext]
        exact hrest.update_notMem (List.nodup_cons.mp hnodup).1 p
      obtain ⟨s', p', count', hrun, hpc', hq', hl'⟩ := ih hq1 hpc1 hchain
      exact ⟨s', p', count', .head hstep hrun, hpc', hq', hl1.trans hl'⟩

/-- The put list is taken, or left when it is empty or the get list is full. -/
theorem run_swizzle (h : At f load limit b C D P gs ps A R s) (hpc : s.pc = .service) :
    ∃ s', Reaches₁ (solo f) s s' ∧ s'.pc = .unblocked ∧ s'.rs = s.rs ∧
      At f load limit b C D P (Svc.swizzle limit gs ps).1 (Svc.swizzle limit gs ps).2 A R s' := by
  have hplain : s.pc.Plain := by rw [hpc]; trivial
  have htak : s.pc.taking = none := by rw [hpc]; rfl
  have hstep : solo f s = some { s with pc := if s.dpl.stdPut ≠ none then .swizzle .service else .unblocked } := by
    rw [solo_hold (by simp [hpc]), Sys.hold, hpc]
  by_cases hput : s.dpl.stdPut = none
  · rw [if_neg (not_not.mpr hput)] at hstep
    have hps := (put_eq_none_iff h.queued).mp hput
    refine ⟨_, .single hstep, rfl, rfl, ?_⟩
    rw [Svc.swizzle, if_pos (Or.inl hps)]
    exact h.goto (.single hstep) rfl hplain htak trivial rfl
  · rw [if_pos hput] at hstep
    have h1 := h.goto (.single hstep) rfl hplain htak trivial rfl
    have hstep1 : solo f { s with pc := .swizzle .service } =
        some ({ s with pc := .swizzle .service }.swizzle .service) := if_neg (by simp)
    have hwhole := h.queued.whole htak
    obtain ⟨hstay, hq⟩ | ⟨hgo, hq⟩ := queued_swizzle h1.queued rfl
    · have hfull : s.dpl.stdCount ≥ s.dpl.getPktLimit := by
        rw [hwhole.2]
        exact hstay.resolve_left fun hn => hput ((put_eq_none_iff h.queued).mpr hn)
      have hs1 : { s with pc := .swizzle .service }.swizzle .service = { s with pc := .unblocked } := by
        unfold Sys.swizzle
        rw [if_pos hfull]
        rfl
      rw [hs1] at hstep1 hq
      refine ⟨_, .tail (.single hstep) hstep1, rfl, rfl, ?_⟩
      rw [Svc.swizzle, if_pos (by rw [← h.limit_eq]; exact hstay)]
      exact h1.goto (.single hstep1) rfl trivial rfl trivial rfl
    · obtain ⟨stpp, hsome⟩ := Option.ne_none_iff_exists'.mp hput
      rw [not_or] at hgo
      have hroom : ¬ s.dpl.stdCount ≥ s.dpl.getPktLimit := by
        rw [hwhole.2]
        exact hgo.2
      have hs1 : { s with pc := .swizzle .service }.swizzle .service =
          { s with dpl := { s.dpl with stdPut := none }, pc := .reverse stpp none 0 stpp .service } := by
        unfold Sys.swizzle
        rw [if_neg hroom]
        dsimp only
        rw [hsome]
        rfl
      rw [hs1] at hstep1 hq
      have hchain : Chain s.next (some stpp) ps := by
        rw [← hsome]
        exact h.queued.put
      have hturn : ∀ s stpp p count pp, s.pc = .reverse stpp p count pp .service →
          solo f s = some (s.reverse stpp p count pp .service) := fun s stpp p count pp hpc => by
        rw [solo_hold (by simp [hpc]), Sys.hold, hpc]
      obtain ⟨s2, p, count, hrun, hpc2, hq2, hl2⟩ := run_reverse hturn hq rfl hchain
      have hstep2 : solo f s2 = some ((s2.appendGet p count stpp).swizzled .service) := by
        rw [solo_hold (by simp [hpc2]), Sys.hold, hpc2]
      have hl3 := hl2.trans (links_appendGet s2 p count stpp)
      have hq3 := (queued_splice hq2 hpc2).swizzled
      have hrun3 : Reaches₁ (solo f) s ((s2.appendGet p count stpp).swizzled .service) :=
        .head hstep (.head' hstep1 (hrun.tail hstep2))
      refine ⟨_, hrun3, rfl, hl3.rs, ?_⟩
      rw [Svc.swizzle, if_neg (by rw [← h.limit_eq, not_or]; exact hgo)]
      refine h.next hrun3.to_reflTransGen hq3 ?_ ⟨hl3.limit, congrArg (fun rs => rs.stp.stState) hl3.rs⟩ ?_
        fun q _ => hl3.mss q
      · change Counts (s2.appendGet p count stpp).rs _ _ _ _ _ _
        rw [hl3.rs]
        exact h.counts
      · intro q hq'
        simpa using hq'

/-- A round starts. -/
theorem run_service (h : At f load limit b C D P gs ps A R s) (hpc : s.pc = .service) {blocked : Bool}
    (hb : blocked = true ↔ s.rs.stp.stUnblock ≠ none) :
    ∃ s', Stands f load limit b C D P
        (if blocked then .after true (Svc.swizzle limit gs ps).1 (Svc.swizzle limit gs ps).2 A R
          else .drain (Svc.swizzle limit gs ps).1 (Svc.swizzle limit gs ps).2 A R) s' ∧
      Reaches₁ (solo f) s s' := by
  obtain ⟨s1, hrun, hpc1, hrs, h1⟩ := run_swizzle h hpc
  obtain ⟨s', hstands, hrun'⟩ := run_unblocked h1 hpc1 (by rw [hrs]; exact hb)
  exact ⟨s', hstands, hrun.trans hrun'⟩

/-! ### Posting a list -/

variable {p : Option ℕ} {count : ℕ} {pushed : U32}

theorem counts_push {rs : RingState} (h : Counts rs b A R C D P) : Counts rs.push b A R C D P :=
  ⟨h.added, h.reaped, h.completed, h.pending, h.done, h.idle, h.order, h.n_le⟩

/-- The end of `sfxge_tx_qdpl_drain`. -/
theorem run_drainEnd (h : At f load limit b C D P gs ps A R s) (hstep : solo f s = some (s.drainEnd p count pushed))
    (hplain : s.pc.Plain) (htak : s.pc.taking = some (p, count)) {blocked : Bool}
    (hb : blocked = true ↔ s.rs.stp.stUnblock ≠ none) :
    ∃ s', Stands f load limit b C D P (.after blocked gs ps A R) s' ∧ Reaches₁ (solo f) s s' := by
  obtain ⟨hrs, -, hpc, -⟩ := drainEnd_frame (s := s) p count pushed
  have hring : (s.drainEnd p count pushed).rs.stp.stUnblock = s.rs.stp.stUnblock ∧
      (s.drainEnd p count pushed).rs.stp.stState = s.rs.stp.stState ∧
      Counts (s.drainEnd p count pushed).rs b A R C D P := by
    rw [hrs]
    split_ifs
    · exact ⟨rfl, rfl, counts_push h.counts⟩
    · exact ⟨rfl, rfl, h.counts⟩
  have hlimit : (s.drainEnd p count pushed).dpl.getPktLimit = s.dpl.getPktLimit ∧
      (s.drainEnd p count pushed).pkt = s.pkt := by
    unfold Sys.drainEnd Sys.push
    dsimp only
    split_ifs <;> exact ⟨rfl, rfl⟩
  have h1 := h.next (.single hstep) (h.queued.drainEnd hplain htak) hring.2.2 ⟨hlimit.1, hring.2.1⟩
    (fun q hq => hq) fun q _ => by rw [hlimit.2]
  obtain ⟨s', hstands, hrun⟩ := run_exit h1 hpc (by rw [hring.1]; exact hb)
  exact ⟨s', hstands, .head hstep hrun⟩

theorem solo_posted (hpc : s.pc = .posted p count pushed) : solo f s = some (s.posted p count pushed) := by
  rw [solo_hold (by rw [hpc]; exact nofun), Sys.hold, hpc]

/-- The queue is blocked. -/
theorem run_posted_blocked (h : At f load limit b C D P gs ps A R s) (hpc : s.pc = .posted p count pushed)
    (hb : s.rs.stp.stUnblock ≠ none) :
    ∃ s', Stands f load limit b C D P (.after true gs ps A R) s' ∧ Reaches₁ (solo f) s s' := by
  have hstep : solo f s = some (s.drainEnd p count pushed) :=
    (solo_posted hpc).trans (congrArg some (if_pos hb))
  exact run_drainEnd h hstep (by rw [hpc]; trivial) (by rw [hpc]; rfl) ⟨fun _ => hb, fun _ => rfl⟩

/-- The loop of `sfxge_tx_qdpl_drain` goes on. -/
theorem run_posted (h : At f load limit b C D P gs ps A R s) (hpc : s.pc = .posted p count pushed)
    (hno : s.rs.stp.stUnblock = none) :
    ∃ s', Stands f load limit b C D P (.drain gs ps A R) s' ∧ Reaches₁ (solo f) s s' := by
  have hplain : s.pc.Plain := by rw [hpc]; trivial
  have htak : s.pc.taking = some (p, count) := by rw [hpc]; rfl
  have hstep := solo_posted (f := f) hpc
  unfold Sys.posted at hstep
  rw [if_neg (not_not.mpr hno)] at hstep
  split_ifs at hstep
  · exact ⟨_, ⟨h.goon hstep rfl hplain (by rw [htak]; exact nofun) trivial htak.symm rfl
      (counts_push h.counts), _, _, _, rfl⟩, .single hstep⟩
  · exact ⟨_, ⟨h.goon hstep rfl hplain (by rw [htak]; exact nofun) trivial htak.symm rfl h.counts, _, _, _, rfl⟩,
      .single hstep⟩

theorem solo_post (hpc : s.pc = .post (.drain p count pushed)) :
    solo f s = s.postOne (.drain p count pushed) := by
  rw [solo_hold (by rw [hpc]; exact nofun), Sys.hold, hpc]

/-- A step of `sfxge_tx_qlist_post` within it. -/
theorem At.post (h : At f load limit b C D P gs ps A R s) (hpc : s.pc = .post (.drain p count pushed))
    {pc pc' : PostPc} {stp' : Txq} {R' : ℕ} (hposting : s.rs.posting = some pc)
    (heq : s.rs.stp.postStep pc = (stp', some pc'))
    (hc : Counts { s.rs with stp := stp', posting := some pc' } b A R' C D P) :
    solo f s = some { s with rs := { s.rs with stp := stp', posting := some pc' } } ∧
      At f load limit b C D P gs ps A R' { s with rs := { s.rs with stp := stp', posting := some pc' } } := by
  have hstep : solo f s = some { s with rs := { s.rs with stp := stp', posting := some pc' } } := by
    rw [solo_post hpc, Sys.postOne, ringStep, hposting, Option.map_some, Option.map_some, heq]
    rfl
  have hstate : stp'.stState = s.rs.stp.stState := by
    have hk := kept_post s.rs.stp pc
    rw [heq] at hk
    exact (Prod.mk.inj (Prod.mk.inj hk).2).1
  exact ⟨hstep, h.goon hstep rfl (by rw [hpc]; trivial) (by simp [hpc, Pc.taking]) (by rw [hpc]; trivial)
    rfl hstate hc⟩

/-- `sfxge_tx_qlist_post` returns. -/
theorem At.posted (h : At f load limit b C D P gs ps A R s) (hpc : s.pc = .post (.drain p count pushed))
    {pc : PostPc} {stp' : Txq} {A' : ℕ} (hposting : s.rs.posting = some pc)
    (heq : s.rs.stp.postStep pc = (stp', none))
    (hc : Counts { s.rs with stp := stp', posting := none } b A' R C D P) :
    solo f s = some { s with rs := { s.rs with stp := stp', posting := none }, pc := .posted p count pushed } ∧
      At f load limit b C D P gs ps A' R
        { s with rs := { s.rs with stp := stp', posting := none }, pc := .posted p count pushed } := by
  have hstep : solo f s = some { s with
      rs := { s.rs with stp := stp', posting := none }
      pc := .posted p count pushed } := by
    rw [solo_post hpc, Sys.postOne, ringStep, hposting, Option.map_some, Option.map_some, heq]
    rfl
  have hstate : stp'.stState = s.rs.stp.stState := by
    have hk := kept_post s.rs.stp pc
    rw [heq] at hk
    exact (Prod.mk.inj (Prod.mk.inj hk).2).1
  exact ⟨hstep, h.goon hstep rfl (by rw [hpc]; trivial) (by simp [hpc, Pc.taking]) trivial
    (by rw [hpc]; rfl) hstate hc⟩

/-- The list fits. -/
theorem run_again (h : At f load limit b C D P gs ps A R s) (hpc : s.pc = .post (.drain p count pushed))
    (hposting : s.rs.posting = some .again) {n : ℕ} (hn : s.rs.stp.stN = n) (hfit : A - R + n ≤ 1008) :
    ∃ s', Stands f load limit b C D P (.drain gs ps (A + n) R) s' ∧ Reaches₁ (solo f) s s' := by
  subst hn
  obtain ⟨hnone, hc⟩ := h.counts.posted hfit
  have hlevel := (awake_reachable h.reach).1.level .again hposting
  have hno : (s.rs.stp.postStep .again).1.stUnblock = none := by
    obtain heq | ⟨stp', added, hf, heq⟩ := postStep_again s.rs.stp
    · rw [heq] at hnone
      cases hnone
    · simp only [Txq.frame, Prod.mk.injEq] at hf
      rw [heq]
      exact hf.2.1.trans (hlevel.mpr id)
  obtain ⟨hstep, h1⟩ := h.posted hpc hposting (Prod.ext rfl hnone) hc
  obtain ⟨s', hstands, hrun⟩ := run_posted h1 rfl hno
  exact ⟨s', hstands, .head hstep hrun⟩

/-- The list does not fit. -/
theorem run_space (h : At f load limit b C D P gs ps A R s) (hpc : s.pc = .post (.drain p count pushed))
    (hposting : s.rs.posting = some .again) {n : ℕ} (hn : s.rs.stp.stN = n) (hno : 1008 < A - R + n) :
    ∃ s', Stands f load limit b C D P (.full n gs ps A R) s' ∧ Reaches₁ (solo f) s s' := by
  subst hn
  have heq : s.rs.stp.postStep .again = (s.rs.stp, some .space) := by
    rw [h.counts.post_again, if_neg (by omega)]
  obtain ⟨hstep, h1⟩ := h.post hpc hposting heq (h.counts.of_frame rfl h.counts.n_le _)
  exact ⟨_, ⟨h1, ⟨p, count, pushed, hpc⟩, rfl, rfl⟩, .single hstep⟩

theorem stN_qreap (stp : Txq) : stp.qreap.stN = stp.stN := by
  rw [Txq.qreap, iterate_reapOne]

/-- The race with the completion handling is checked. -/
theorem run_block (h : At f load limit b C D P gs ps A R s) (hpc : s.pc = .post (.drain p count pushed))
    (hposting : s.rs.posting = some .block) :
    ∃ s', Stands f load limit b C D P (if P ≠ A then .after true gs ps A R
        else if A - C + s.rs.stp.stN ≤ 1008 then .drain gs ps (A + s.rs.stp.stN) C
        else .full s.rs.stp.stN gs ps A C) s' ∧ Reaches₁ (solo f) s s' := by
  obtain ⟨hstep, h1⟩ := h.post hpc hposting rfl
    ⟨h.counts.added, h.counts.reaped, h.counts.completed, h.counts.pending, h.counts.done, h.counts.idle,
      h.counts.order, h.counts.n_le⟩
  obtain ⟨o1, o2, o3, o4, o5⟩ := h.counts.order
  have hrace : s.rs.stp.stPending = s.rs.stp.stAdded ↔ P = A := by
    rw [h.counts.pending, h.counts.added, eq_comm, idx_inj o4 (by omega), eq_comm]
  by_cases hPA : P = A
  · rw [if_neg (not_not.mpr hPA)]
    obtain ⟨hstep2, h2⟩ := h1.post hpc rfl (Prod.ext rfl (if_pos (hrace.mpr hPA)))
      (h1.counts.of_frame rfl h1.counts.n_le _)
    obtain ⟨hstep3, h3⟩ := h2.post hpc rfl rfl (h2.counts.qreap _ _)
    by_cases hfit : A - C + s.rs.stp.stN ≤ 1008
    · rw [if_pos hfit]
      obtain ⟨s', hstands, hrun⟩ := run_again h3 hpc rfl (stN_qreap _) hfit
      exact ⟨s', hstands, .head hstep (.head hstep2 (.head hstep3 hrun))⟩
    · rw [if_neg hfit]
      obtain ⟨s', hstands, hrun⟩ := run_space h3 hpc rfl (stN_qreap _) (Nat.lt_of_not_le hfit)
      exact ⟨s', hstands, .head hstep (.head hstep2 (.head hstep3 hrun))⟩
  · rw [if_pos hPA]
    obtain ⟨hstep2, h2⟩ := h1.posted hpc rfl (Prod.ext rfl (if_neg (fun he => hPA (hrace.mp he))))
      (h1.counts.of_frame rfl h1.counts.n_le _)
    obtain ⟨s', hstands, hrun⟩ := run_posted_blocked h2 rfl nofun
    exact ⟨s', hstands, .head hstep (.head hstep2 hrun)⟩

/-- `sfxge_tx_qlist_post` when the list does not fit. -/
theorem run_full (h : At f load limit b C D P gs ps A R s) (hpc : s.pc = .post (.drain p count pushed))
    (hposting : s.rs.posting = some .space) {n : ℕ} (hn : s.rs.stp.stN = n) :
    ∃ s', Stands f load limit b C D P
        (if n ≤ 1008 - (A - C) ∧ SFXGE_TX_BATCH ≤ C - R then .drain gs ps (A + n) C
          else if P ≠ A then .after true gs ps A R
          else if A - C + n ≤ 1008 then .drain gs ps (A + n) C
          else .full n gs ps A C) s' ∧ Reaches₁ (solo f) s s' := by
  have hspace := h.counts.available_completed
  have hbatch := h.counts.toReap
  obtain ⟨o1, o2, o3, o4, o5⟩ := h.counts.order
  subst hn
  by_cases hroom : s.rs.stp.stN ≤ 1008 - (A - C)
  · obtain ⟨hstep, h1⟩ := h.post hpc hposting (Prod.ext rfl (if_pos (by rw [hspace]; exact hroom)))
      (h.counts.of_frame rfl h.counts.n_le _)
    by_cases hreap : SFXGE_TX_BATCH ≤ C - R
    · rw [if_pos ⟨hroom, hreap⟩]
      obtain ⟨hstep1, h2⟩ := h1.post hpc rfl (Prod.ext rfl (if_pos (hreap.trans_eq hbatch.symm)))
        (h1.counts.of_frame rfl h1.counts.n_le _)
      obtain ⟨hstep2, h3⟩ := h2.post hpc rfl rfl (h2.counts.qreap _ _)
      obtain ⟨s', hstands, hrun⟩ := run_again h3 hpc rfl (stN_qreap _) (by dsimp only [postStep]; omega)
      exact ⟨s', hstands, .head hstep (.head hstep1 (.head hstep2 hrun))⟩
    · rw [if_neg fun hc => hreap hc.2]
      obtain ⟨hstep1, h2⟩ := h1.post hpc rfl (Prod.ext rfl (if_neg fun hle => hreap (hle.trans_eq hbatch)))
        (h1.counts.of_frame rfl h1.counts.n_le _)
      obtain ⟨s', hstands, hrun⟩ := run_block h2 hpc rfl
      exact ⟨s', hstands, .head hstep (.head hstep1 hrun)⟩
  · rw [if_neg fun hc => hroom hc.1]
    obtain ⟨hstep, h1⟩ := h.post hpc hposting (Prod.ext rfl (if_neg (by rw [hspace]; exact hroom)))
      (h.counts.of_frame rfl h.counts.n_le _)
    obtain ⟨s', hstands, hrun⟩ := run_block h1 hpc rfl
    exact ⟨s', hstands, .head hstep hrun⟩

/-! ### Draining -/

theorem solo_drain (hpc : s.pc = .drain p count pushed) :
    solo f s = if count = 0 then some (s.drainEnd p count pushed)
      else p.bind fun p => s.drainOne (f s.current) p count pushed := by
  rw [solo_hold (by rw [hpc]; exact nofun), Sys.hold, hpc]

/-- The get list is empty. -/
theorem run_drained (h : At f load limit b C D P [] ps A R s) (hpc : s.pc = .drain p count pushed) :
    ∃ s', Stands f load limit b C D P (.after false [] ps A R) s' ∧ Reaches₁ (solo f) s s' := by
  have htak : s.pc.taking = some (p, count) := by rw [hpc]; rfl
  have hcount : count = 0 := (h.queued.part htak).2.1
  have hno : s.rs.stp.stUnblock = none := (awake_reachable h.reach).1.drain pushed (by rw [hpc]; rfl)
  exact run_drainEnd h ((solo_drain hpc).trans (if_pos hcount)) (by rw [hpc]; trivial) htak
    ⟨nofun, fun hb => absurd hno hb⟩

/-- A packet that is on a list has a message. -/
theorem Queued.stpMp (Q : Queued s gs [] ps) {q : ℕ} (hq : q ∈ gs) : ∃ mp, (s.pkt q).stpMp = some mp := by
  have hmem : (s.pkt q).stpMp ∈ s.entered.map some := by
    rw [Q.order]
    exact List.mem_append_right _ (List.mem_map.mpr ⟨q, by simp [hq], rfl⟩)
  obtain ⟨mp, -, hmp⟩ := List.mem_map.mp hmem
  exact ⟨mp, hmp.symm⟩

theorem drainOne_of {g : Bool → Bool → Fragments} {q : ℕ} {mp : Mblk} {rs : RingState}
    (hmp : (s.pkt q).stpMp = some mp)
    (hrs : ringStep (.packet mp (g (decide ((s.pkt q).stpMss ≠ 0)))) s.rs = some rs) :
    s.drainOne g q count pushed = some (if rs.posting = none then
        { s.split q mp with rs := rs, pc := .drain (s.next q) (count - 1) pushed }
      else { s.split q mp with
        rs := rs, pc := .post (.drain (s.next q) (count - 1) pushed), sent := s.sent ++ [mp] }) := by
  rw [Sys.drainOne, hmp, Option.bind_some, hrs]
  rfl

theorem ringStep_packet {rs : RingState} (g : Bool → Fragments) (mp : Mblk) (hidle : rs.posting = none)
    (hno : rs.stp.stUnblock = none) : ringStep (.packet mp g) rs = some { rs with
      stp := (rs.stp.fragmentPacket g mp).1
      posting := if (rs.stp.fragmentPacket g mp).2 then some .again else none } := if_pos ⟨hidle, hno⟩

/-- The first packet is off the get list. -/
theorem At.split {q : ℕ} (h : At f load limit b C D P (q :: gs) ps A R s) (hpc : s.pc = .drain (some q) count pushed)
    {mp : Mblk} (hmp : (s.pkt q).stpMp = some mp) (hstep : solo f s = some s')
    (hs' : s' = { s.split q mp with rs := s'.rs, pc := s'.pc, sent := s'.sent }) (hpc' : s'.pc.Plain)
    (htak' : s'.pc.taking = some (s.next q, count - 1)) (hsent : s'.sent.Sublist (s.taken ++ [mp]))
    (hc : Counts s'.rs b A R C D P) (hstate : s'.rs.stp.stState = s.rs.stp.stState) :
    At f load limit b C D P gs ps A R s' := by
  have hplain : s.pc.Plain := by rw [hpc]; trivial
  obtain ⟨gs', heq, hq⟩ := h.queued.split hplain (by rw [hpc]; rfl) hmp hs' hpc' htak' hsent
  obtain rfl : gs = gs' := (List.cons.inj heq).2
  have hnodup := (h.queued.core hplain).2.nodup
  rw [List.cons_append, List.nodup_cons] at hnodup
  have hpkt : s'.pkt = Function.update s.pkt q .blank := by
    rw [hs']
    rfl
  have hlimit : s'.dpl.getPktLimit = s.dpl.getPktLimit := by
    rw [hs']
    rfl
  refine h.next (.single hstep) hq hc ⟨hlimit, hstate⟩ (fun p hp => List.mem_cons_of_mem _ hp) fun p hp => ?_
  rw [hpkt, Function.update_of_ne (ne_of_mem_of_not_mem hp hnodup.1)]

/-- A packet is taken. -/
theorem run_take {q : ℕ} (h : At f load limit b C D P (q :: gs) ps A R s) (hpc : s.pc = .drain p count pushed) :
    ∃ s', Stands f load limit b C D P
        (if A - R + load q ≤ 1008 then .drain gs ps (A + load q) R else .full (load q) gs ps A R) s' ∧
      Reaches₁ (solo f) s s' := by
  obtain ⟨o1, o2, o3, o4, o5⟩ := h.counts.order
  obtain ⟨hchain, hcount, -⟩ := h.queued.part (show s.pc.taking = some (p, count) by rw [hpc]; rfl)
  obtain rfl : p = some q := hchain.1
  obtain ⟨mp, hmp⟩ := h.queued.stpMp (List.mem_cons_self : q ∈ q :: gs)
  have hidle : s.rs.posting = none := (awake_reachable h.reach).1.idle (by simp [hpc, Pc.stage])
  have hno : s.rs.stp.stUnblock = none := (awake_reachable h.reach).1.drain pushed (by rw [hpc]; rfl)
  have hload : s.load f q = load q := h.load_eq q (by simp)
  have hcurrent : s.current = q := by rw [Sys.current, hpc]
  have hstep : solo f s = s.drainOne (f q) q count pushed := by
    rw [solo_drain hpc, if_neg (by rw [hcount]; exact Nat.succ_ne_zero _), hcurrent]
    rfl
  rw [drainOne_of hmp (ringStep_packet _ mp hidle hno)] at hstep
  have hframe := frame_fragmentPacket (f q (decide ((s.pkt q).stpMss ≠ 0))) mp s.rs.stp
  have hn := stN_fragmentPacket (f q (decide ((s.pkt q).stpMss ≠ 0))) mp s.rs.stp
  have hstate : (s.rs.stp.fragmentPacket (f q (decide ((s.pkt q).stpMss ≠ 0))) mp).1.stState = s.rs.stp.stState := by
    simp only [Txq.frame, Prod.mk.injEq] at hframe
    exact hframe.2.2.1
  have hc := h.counts.of_frame hframe hn
  obtain ⟨hrej, hzero⟩ | ⟨hok, hdescs⟩ := fragmentPacket_descs (f q (decide ((s.pkt q).stpMss ≠ 0))) mp s.rs.stp
  · rw [hrej, if_neg Bool.false_ne_true, if_pos rfl] at hstep
    have hzero' : load q = 0 := hload.symm.trans hzero
    rw [hzero', if_pos (by omega)]
    refine ⟨_, ⟨h.split hpc hmp hstep rfl trivial rfl
      (h.queued.sent.trans (List.sublist_append_left _ _)) (hc _) hstate, _, _, _, rfl⟩, .single hstep⟩
  · rw [hok, if_pos rfl, if_neg (by simp)] at hstep
    have h1 := h.split hpc hmp hstep rfl trivial rfl (h.queued.sent.append (List.Sublist.refl _)) (hc _) hstate
    have hdescs' := hdescs.trans hload
    by_cases hfit : A - R + load q ≤ 1008
    · rw [if_pos hfit]
      obtain ⟨s', hstands, hrun⟩ := run_again h1 rfl rfl hdescs' hfit
      exact ⟨s', hstands, .head hstep hrun⟩
    · rw [if_neg hfit]
      obtain ⟨s', hstands, hrun⟩ := run_space h1 rfl rfl hdescs' (Nat.lt_of_not_le hfit)
      exact ⟨s', hstands, .head hstep hrun⟩

/-! ### The refinement -/

/-- **Refinement.**  A step of the loop over the lists is one or more steps of the queue. -/
theorem stands_respects : Respects (Svc.step load limit C P) (solo f) fun a s => Stands f load limit b C D P a s := by
  intro a s h
  cases a with
  | done => exact (if_pos h.1).trans (if_pos h.2)
  | service blocked gs ps A R =>
    obtain ⟨h, hpc, hb⟩ := h
    obtain ⟨s', hstands, hrun⟩ := run_service h hpc hb
    cases blocked <;> exact ⟨s', hstands, hrun⟩
  | drain gs ps A R =>
    obtain ⟨h, p, count, pushed, hpc⟩ := h
    cases gs with
    | nil => exact run_drained h hpc
    | cons q gs =>
      have hrun := run_take h hpc
      rw [Svc.step]
      split_ifs at hrun ⊢ <;> exact hrun
  | full n gs ps A R =>
    obtain ⟨h, ⟨p, count, pushed, hpc⟩, hposting, hn⟩ := h
    have hrun := run_full h hpc hposting hn
    rw [Svc.step]
    split_ifs at hrun ⊢ <;> exact hrun

/-- The loop of the queue returns exactly when the loop over its lists ends. -/
theorem returns_iff_dom {a : Svc} (h : Stands f load limit b C D P a s) :
    Returns f s ↔ (eval (Svc.step load limit C P) a).Dom := by
  constructor
  · rintro ⟨s', hs', -⟩
    exact (tr_eval_dom stands_respects h).mp (Part.dom_iff_mem.mpr ⟨s', hs'⟩)
  · intro hdom
    obtain ⟨a', ha'⟩ := Part.dom_iff_mem.mp hdom
    obtain ⟨s', hstands, hs'⟩ := tr_eval stands_respects h ha'
    have hstop := (mem_eval.mp ha').2
    cases a' with
    | done => exact ⟨s', hs', hstands⟩
    | service blocked gs ps A R => cases blocked <;> cases hstop
    | drain gs ps A R =>
      cases gs with
      | nil => cases hstop
      | cons q gs =>
        rw [Svc.step] at hstop
        split_ifs at hstop
    | full n gs ps A R =>
      rw [Svc.step] at hstop
      split_ifs at hstop

end Refinement

/-! ### When the loop returns -/

section Terminates

variable (s : Sys) (f : ℕ → Bool → Bool → Fragments)

/-- All posted descriptors are pending completion, and the first packet with descriptors needs more than there
will be after reaping. -/
def Sys.Spins (xs : List ℕ) : Prop :=
  s.rs.stp.stPending = s.rs.stp.stAdded ∧
    (s.rs.stp.available s.rs.stp.stCompleted).toNat < Svc.first (s.load f) xs

/-- The packets `xs` are posted without blocking the queue. -/
def Sys.Fits (xs : List ℕ) : Prop :=
  (xs.map (s.load f)).sum ≤ (s.rs.stp.available s.rs.stp.stReaped).toNat ∨
    ((SFXGE_TX_BATCH ≤ (s.rs.stp.stCompleted - s.rs.stp.stReaped).toNat ∨
      (s.rs.stp.stPending = s.rs.stp.stAdded ∧
        (s.rs.stp.available s.rs.stp.stReaped).toNat < Svc.first (s.load f) xs)) ∧
      (xs.map (s.load f)).sum ≤ (s.rs.stp.available s.rs.stp.stCompleted).toNat)

/-- With the packets `gs` on the get list and `ps` on the put list, latest first: a blocked queue can take the
put list; another does not spin, and can take the put list now or after draining. -/
def Sys.Terminates (gs ps : List ℕ) : Prop :=
  if s.rs.stp.stUnblock ≠ none then ps = [] ∨ gs.length < s.dpl.getPktLimit
  else ¬ s.Spins f (gs ++ ps.reverse) ∧ (ps = [] ∨ gs.length < s.dpl.getPktLimit ∨
    (0 < s.dpl.getPktLimit ∧ s.Fits f (gs.take (gs.length - s.dpl.getPktLimit))))

end Terminates

variable {gs ps : List ℕ}

theorem returns_iff (h : Reach Started Step s) (hpc : s.pc = .service) (hget : Chain s.next s.dpl.stdGet gs)
    (hput : Chain s.next s.dpl.stdPut ps) : Returns f s ↔ s.Terminates f gs ps := by
  obtain ⟨gs', fs, ps', Q⟩ := queued_reachable h
  obtain ⟨rfl, -⟩ := Q.core (by rw [hpc]; trivial)
  obtain rfl : gs = gs' := hget.unique (Q.whole (by rw [hpc]; rfl)).1.chain
  obtain rfl : ps = ps' := hput.unique Q.put
  obtain ⟨b, A, R, C, D, P, hc⟩ := counts_reachable (ring_reachable h)
  obtain ⟨o1, o2, o3, o4, o5⟩ := hc.order
  have hat : At f (s.load f) s.dpl.getPktLimit b C D P gs ps A R s := ⟨h, Q, hc, rfl, fun _ _ => rfl⟩
  have hstands : Stands f (s.load f) s.dpl.getPktLimit b C D P
      (.service (decide (s.rs.stp.stUnblock ≠ none)) gs ps A R) s := ⟨hat, hpc, decide_eq_true_iff⟩
  have hPA : s.rs.stp.stPending = s.rs.stp.stAdded ↔ P = A := by
    rw [hc.pending, hc.added, eq_comm, idx_inj o4 (by omega), eq_comm]
  rw [returns_iff_dom hstands, Svc.service_dom_iff ⟨o1, by omega, o4, o5⟩]
  simp only [Sys.Terminates, Sys.Spins, Sys.Fits, Svc.Ends, Svc.Spins, Svc.Fits, hPA, hc.available_completed,
    hc.available_reaped, hc.toReap, decide_eq_true_iff]

/-- **The service loop.**  From any reached state in which the lock is held for `sfxge_tx_qdpl_service`, the loop
returns exactly under the condition on the lists and the ring at its entry. -/
theorem service_returns_iff (h : Reach Started Step s) (hpc : s.pc = .service)
    (f : ℕ → Bool → Bool → Fragments) : ∃ gs ps, Chain s.next s.dpl.stdGet gs ∧ Chain s.next s.dpl.stdPut ps ∧
      (Returns f s ↔ s.Terminates f gs ps) := by
  obtain ⟨gs, fs, ps, Q⟩ := queued_reachable h
  have hget := (Q.whole (by rw [hpc]; rfl)).1.chain
  exact ⟨gs, ps, hget, Q.put, returns_iff h hpc hget Q.put⟩

/-- Every packet has one descriptor. -/
def oneEach (_ : ℕ) : Bool → Bool → Fragments := oneFragment

theorem reach_small {os : List Op} (h : runOps step os smallQueue = some s) : Reach Started Step s :=
  Reach.runOps (fun op _ _ _ hs => ⟨op, hs⟩) (.start ⟨_, _, _, _, rfl⟩) h

theorem service_returns_one : ∃ s, runOps step [.add 1 1 0, .service] smallQueue = some s ∧ Returns oneEach s := by
  obtain ⟨s, hs⟩ : ∃ s, runOps step [.add 1 1 0, .service] smallQueue = some s := ⟨_, rfl⟩
  have hval : s.pc = .service ∧ Chain s.next s.dpl.stdGet [] ∧ Chain s.next s.dpl.stdPut [1] ∧
      s.rs.stp.stUnblock = none ∧ s.dpl.getPktLimit = 1 ∧ s.load oneEach 1 = 1 ∧
      (s.rs.stp.available s.rs.stp.stCompleted).toNat = 1008 := by
    cases hs
    exact ⟨rfl, rfl, ⟨rfl, rfl⟩, rfl, rfl, rfl, rfl⟩
  obtain ⟨hpc, hget, hput, hno, hlimit, hload, havail⟩ := hval
  obtain ⟨gs, ps, hgs, hps, hiff⟩ := service_returns_iff (reach_small hs) hpc oneEach
  rw [hgs.unique hget, hps.unique hput] at hiff
  refine ⟨s, hs, hiff.mpr ?_⟩
  rw [Sys.Terminates, if_neg (not_not.mpr hno), hlimit]
  refine ⟨fun hspin => ?_, Or.inr (Or.inl (by decide))⟩
  have hlt := hspin.2
  rw [havail] at hlt
  simp [Svc.first, hload] at hlt

/-- The ring is full, the queue blocked, one packet on the get list, which is its limit, and one on the put
list. -/
def jammed : List Op :=
  send 1 9 ringFragments ++ send 2 11 oneFragment ++ send 3 5 oneFragment ++ [.add 4 4 0, .service]

theorem jammed_spins : ¬ ∀ s f, Reach Started Step s → s.pc = .service → Returns f s := by
  intro h
  obtain ⟨s, hs⟩ : ∃ s, runOps step jammed smallQueue = some s := ⟨_, rfl⟩
  have hval : s.pc = .service ∧ Chain s.next s.dpl.stdGet [3] ∧ Chain s.next s.dpl.stdPut [4] ∧
      s.rs.stp.stUnblock = some 252 ∧ s.dpl.getPktLimit = 1 := by
    cases hs
    exact ⟨rfl, ⟨rfl, rfl⟩, ⟨rfl, rfl⟩, rfl, rfl⟩
  obtain ⟨hpc, hget, hput, hb, hlimit⟩ := hval
  have hreach := reach_small hs
  have hterm := (returns_iff hreach hpc hget hput).mp (h s oneEach hreach hpc)
  rw [Sys.Terminates, if_pos (by rw [hb]; exact nofun), hlimit] at hterm
  simp at hterm

end Sfxge.Tx
