import Sfxge.Lib.Run
import Sfxge.Tx.Ring

/-!
# Tx.Loop — the loop of `sfxge_tx_qdpl_service` over the lists

`Svc` is the loop when no other thread acts, as far as its end depends on it: the packets on the two
lists, how many descriptors each takes, and two of the ring's counters.  It may go round for ever, in
`sfxge_tx_qlist_post` and as a whole; `service_dom_iff` says exactly when it ends.
-/

namespace Sfxge.Tx

open Lib StateTransition

/-- The loop with the packets `gs` on the get list and `ps` on the put list, latest first, where `A`
descriptors have been added and `R` reaped. -/
inductive Svc where
  /-- the loop has ended -/
  | done
  /-- at its head -/
  | service (blocked : Bool) (gs ps : List ℕ) (A R : ℕ)
  /-- in the loop of `sfxge_tx_qdpl_drain` -/
  | drain (gs ps : List ℕ) (A R : ℕ)
  /-- a packet of `n` descriptors has been taken off the get list and has not fit into the ring -/
  | full (n : ℕ) (gs ps : List ℕ) (A R : ℕ)

namespace Svc

section Loop

/- `load` is the number of descriptors of a packet, `limit` the limit of the get list; `C` descriptors have
been completed and `P` are pending. -/
variable (load : ℕ → ℕ) (limit C P : ℕ)

/-- The lock is released and the put list checked. -/
def after (blocked : Bool) (gs ps : List ℕ) (A R : ℕ) : Svc :=
  if ps = [] then .done else .service blocked gs ps A R

/-- `sfxge_tx_qdpl_swizzle` -/
def swizzle (gs ps : List ℕ) : List ℕ × List ℕ :=
  if ps = [] ∨ limit ≤ gs.length then (gs, ps) else (gs ++ ps.reverse, [])

def step : Svc → Option Svc
  | .done => none
  | .service blocked gs ps A R =>
    if blocked then some (after true (swizzle limit gs ps).1 (swizzle limit gs ps).2 A R)
    else some (.drain (swizzle limit gs ps).1 (swizzle limit gs ps).2 A R)
  | .drain [] ps A R => some (after false [] ps A R)
  | .drain (p :: gs) ps A R =>
    if A - R + load p ≤ 1008 then some (.drain gs ps (A + load p) R) else some (.full (load p) gs ps A R)
  | .full n gs ps A R =>
    if n ≤ 1008 - (A - C) ∧ SFXGE_TX_BATCH ≤ C - R then some (.drain gs ps (A + n) C)
    else if P ≠ A then some (after true gs ps A R)
    else if A - C + n ≤ 1008 then some (.drain gs ps (A + n) C)
    else some (.full n gs ps A C)

/-- The descriptors of the first packet that has any. -/
def first : List ℕ → ℕ
  | [] => 0
  | p :: ps => if load p = 0 then first ps else load p

/-- `sfxge_tx_qlist_post` does not end for the first packet with descriptors. -/
def Spins (A : ℕ) (gs : List ℕ) : Prop := P = A ∧ 1008 - (A - C) < first load gs

/-- The packets `gs` are posted without blocking the queue. -/
def Fits (A R : ℕ) (gs : List ℕ) : Prop :=
  (gs.map load).sum ≤ 1008 - (A - R) ∨
    ((SFXGE_TX_BATCH ≤ C - R ∨ (P = A ∧ 1008 - (A - R) < first load gs)) ∧ (gs.map load).sum ≤ 1008 - (A - C))

variable {load limit C P}

theorem first_eq_zero {gs : List ℕ} : first load gs = 0 ↔ (gs.map load).sum = 0 := by
  induction gs with
  | nil => simp [first]
  | cons p gs ih =>
    rw [first, List.map_cons, List.sum_cons]
    split_ifs with hp
    · rw [ih]
      omega
    · omega

theorem first_append {gs hs : List ℕ} : first load (gs ++ hs) =
    if first load gs = 0 then first load hs else first load gs := by
  induction gs with
  | nil => simp [first]
  | cons p gs ih =>
    rw [List.cons_append, first, first]
    split_ifs with hp hg <;> simp_all

theorem first_le (gs : List ℕ) : first load gs ≤ (gs.map load).sum := by
  induction gs with
  | nil => simp [first]
  | cons p gs ih =>
    rw [first, List.map_cons, List.sum_cons]
    split_ifs <;> omega

/-- The counters are in order. -/
def InRing (C P A R : ℕ) : Prop := R ≤ C ∧ C ≤ P ∧ P ≤ A ∧ A ≤ R + 1008

variable {A R : ℕ} {gs ps : List ℕ}

/-- Once a descriptor is posted there is one to wait for. -/
theorem not_spins_of_lt (h : P < A) : ¬ Spins load C P A gs := fun hs => absurd hs.1 (by omega)

theorem Fits.of_append {hs : List ℕ} (h : Fits load C P A R (gs ++ hs)) : Fits load C P A R gs := by
  unfold Fits at h ⊢
  rw [List.map_append, List.sum_append, first_append] at h
  by_cases h0 : first load gs = 0
  · exact Or.inl (by rw [first_eq_zero.mp h0]; exact Nat.zero_le _)
  · rw [if_neg h0] at h
    omega

theorem fits_cons_zero {p : ℕ} (hp : load p = 0) : Fits load C P A R (p :: gs) ↔ Fits load C P A R gs := by
  unfold Fits
  rw [List.map_cons, List.sum_cons, first, if_pos hp, hp, Nat.zero_add]

/-- The first packet fits behind what has not been reaped. -/
theorem fits_cons_again {p : ℕ} (hr : InRing C P A R) (hp : load p ≠ 0) (hfit : A - R + load p ≤ 1008) :
    Fits load C P A R (p :: gs) ↔ Fits load C P (A + load p) R gs := by
  obtain ⟨h1, h2, h3, h4⟩ := hr
  unfold Fits
  rw [List.map_cons, List.sum_cons, first, if_neg hp]
  have hPA : P ≠ A + load p := by omega
  simp only [hPA, false_and, or_false]
  omega

/-- It fits after reaping. -/
theorem fits_cons_reap {p : ℕ} (hr : InRing C P A R) (hp : load p ≠ 0) (hno : 1008 < A - R + load p)
    (hfit : A - C + load p ≤ 1008) (hreap : SFXGE_TX_BATCH ≤ C - R ∨ P = A) :
    Fits load C P A R (p :: gs) ↔ Fits load C P (A + load p) C gs := by
  obtain ⟨h1, h2, h3, h4⟩ := hr
  unfold Fits
  rw [List.map_cons, List.sum_cons, first, if_neg hp]
  have hPA : P ≠ A + load p := by omega
  simp only [hPA, false_and, or_false]
  omega

/-- It does not fit. -/
theorem not_fits_cons {p : ℕ} (hr : InRing C P A R) (hno : 1008 < A - R + load p)
    (hreap : ¬ (load p ≤ 1008 - (A - C) ∧ SFXGE_TX_BATCH ≤ C - R)) (hPA : P ≠ A) :
    ¬ Fits load C P A R (p :: gs) := by
  obtain ⟨h1, h2, h3, h4⟩ := hr
  unfold Fits
  rw [List.map_cons, List.sum_cons]
  simp only [hPA, false_and, or_false]
  omega

/-- What the loop of `sfxge_tx_qdpl_drain` comes to: the list is empty, or blocked behind the packet `p`. -/
def Drains (load : ℕ → ℕ) (limit C P : ℕ) (gs ps : List ℕ) (A R : ℕ) : Prop :=
  (Fits load C P A R gs ∧ ∃ A' R', A' = A + (gs.map load).sum ∧ InRing C P A' R' ∧
    Reaches (step load limit C P) (.drain gs ps A R) (after false [] ps A' R')) ∨
  (∃ xs p ys A' R', gs = xs ++ p :: ys ∧ Fits load C P A R xs ∧ ¬ Fits load C P A R (xs ++ [p]) ∧
    Reaches (step load limit C P) (.drain gs ps A R) (after true ys ps A' R'))

theorem Drains.cons {p R' : ℕ} (h : Drains load limit C P gs ps (A + load p) R')
    (hstep : Reaches (step load limit C P) (.drain (p :: gs) ps A R) (.drain gs ps (A + load p) R'))
    (hfits : ∀ hs, Fits load C P A R (p :: hs) ↔ Fits load C P (A + load p) R' hs) :
    Drains load limit C P (p :: gs) ps A R := by
  obtain ⟨hfit, A', R'', hA', hr', hrun⟩ | ⟨xs, q, ys, A', R'', heq, hfit, hno, hrun⟩ := h
  · refine Or.inl ⟨(hfits gs).mpr hfit, A', R'', ?_, hr', hstep.trans hrun⟩
    rw [hA', List.map_cons, List.sum_cons]
    omega
  · exact Or.inr ⟨p :: xs, q, ys, A', R'', by rw [heq]; rfl, (hfits xs).mpr hfit, fun h => hno ((hfits _).mp h),
      hstep.trans hrun⟩

theorem drains (hr : InRing C P A R) (hs : ¬ Spins load C P A gs) : Drains load limit C P gs ps A R := by
  induction gs generalizing A R with
  | nil => exact Or.inl ⟨Or.inl (Nat.zero_le _), A, R, rfl, hr, .single rfl⟩
  | cons p gs ih =>
    obtain ⟨h1, h2, h3, h4⟩ := hr
    by_cases hfit : A - R + load p ≤ 1008
    · have hstep : step load limit C P (.drain (p :: gs) ps A R) = some (.drain gs ps (A + load p) R) := if_pos hfit
      by_cases hp : load p = 0
      · refine (ih ⟨h1, h2, by omega, by omega⟩ fun h => hs ?_).cons (.single hstep) fun hs => ?_
        · rw [Spins, first, if_pos hp]
          rw [hp] at h
          exact h
        · rw [fits_cons_zero hp, hp, Nat.add_zero]
      · exact (ih ⟨h1, h2, by omega, by omega⟩ (not_spins_of_lt (by omega))).cons (.single hstep)
          fun _ => fits_cons_again ⟨h1, h2, h3, h4⟩ hp hfit
    · have hp : load p ≠ 0 := by omega
      have hfull : step load limit C P (.drain (p :: gs) ps A R) = some (.full (load p) gs ps A R) := if_neg hfit
      have hin : InRing C P A R := ⟨h1, h2, h3, h4⟩
      have hgo : ∀ (hfits : A - C + load p ≤ 1008) (hreap : SFXGE_TX_BATCH ≤ C - R ∨ P = A),
          step load limit C P (.full (load p) gs ps A R) = some (.drain gs ps (A + load p) C) →
            Drains load limit C P (p :: gs) ps A R := fun hfits hreap hstep =>
        (ih ⟨le_rfl, h2, by omega, by omega⟩ (not_spins_of_lt (by omega))).cons
          (.head hfull (.single hstep)) fun _ => fits_cons_reap hin hp (by omega) hfits hreap
      by_cases hreap : load p ≤ 1008 - (A - C) ∧ SFXGE_TX_BATCH ≤ C - R
      · exact hgo (by omega) (Or.inl hreap.2) (if_pos hreap)
      · by_cases hPA : P = A
        · have hfits : A - C + load p ≤ 1008 := by
            have : ¬ (P = A ∧ 1008 - (A - C) < load p) := by
              rw [Spins, first, if_neg hp] at hs
              exact hs
            omega
          exact hgo hfits (Or.inr hPA)
            ((if_neg hreap).trans ((if_neg (not_not.mpr hPA)).trans (if_pos hfits)))
        · have hstep : step load limit C P (.full (load p) gs ps A R) = some (after true gs ps A R) :=
            (if_neg hreap).trans (if_pos hPA)
          exact Or.inr ⟨[], p, gs, A, R, rfl, Or.inl (Nat.zero_le _),
            not_fits_cons hin (by omega) hreap hPA, .head hfull (.single hstep)⟩

/-- The loop of `sfxge_tx_qlist_post` does not end for a packet that the ring has no room for, while the
completed descriptors are all that is pending. -/
theorem spins_not_dom (hr : InRing C P A R) (hs : Spins load C P A gs) :
    ¬ (eval (step load limit C P) (.drain gs ps A R)).Dom := by
  induction gs generalizing A R with
  | nil => exact absurd hs.2 (Nat.not_lt_zero _)
  | cons p gs ih =>
    obtain ⟨h1, h2, h3, h4⟩ := hr
    obtain ⟨hPA, hlt⟩ := hs
    rw [first] at hlt
    by_cases hp : load p = 0
    · rw [if_pos hp] at hlt
      have hstep : step load limit C P (.drain (p :: gs) ps A R) = some (.drain gs ps (A + load p) R) :=
        if_pos (by omega)
      rw [dom_iff_of_reaches (.single hstep), hp]
      exact ih ⟨h1, h2, h3, h4⟩ ⟨hPA, hlt⟩
    · rw [if_neg hp] at hlt
      have hfull : step load limit C P (.drain (p :: gs) ps A R) = some (.full (load p) gs ps A R) :=
        if_neg (by omega)
      have hspin : ∀ R, step load limit C P (.full (load p) gs ps A R) = some (.full (load p) gs ps A C) := fun R =>
        (if_neg (by omega)).trans ((if_neg (not_not.mpr hPA)).trans (if_neg (by omega)))
      rw [dom_iff_of_reaches (.head hfull (.single (hspin R)))]
      exact not_dom_of_cycle (.single (hspin C))

/-- When the loop ends. -/
def Ends (load : ℕ → ℕ) (limit C P : ℕ) (blocked : Bool) (gs ps : List ℕ) (A R : ℕ) : Prop :=
  if blocked then ps = [] ∨ gs.length < limit
  else ¬ Spins load C P A (gs ++ ps.reverse) ∧
    (ps = [] ∨ gs.length < limit ∨ (0 < limit ∧ Fits load C P A R (gs.take (gs.length - limit))))

theorem after_nil (blocked : Bool) (gs : List ℕ) (A R : ℕ) : after blocked gs [] A R = .done := rfl

theorem after_pos (hps : ps ≠ []) (blocked : Bool) (gs : List ℕ) (A R : ℕ) :
    after blocked gs ps A R = .service blocked gs ps A R := if_neg hps

/-- A blocked queue takes the put list or goes round. -/
theorem blocked_dom_iff : (eval (step load limit C P) (.service true gs ps A R)).Dom ↔ ps = [] ∨ gs.length < limit := by
  have hstep : step load limit C P (.service true gs ps A R) =
      some (after true (swizzle limit gs ps).1 (swizzle limit gs ps).2 A R) := rfl
  by_cases hstay : ps = [] ∨ limit ≤ gs.length
  · rw [swizzle, if_pos hstay] at hstep
    by_cases hps : ps = []
    · rw [dom_iff_of_reaches (.single hstep), hps]
      exact ⟨fun _ => Or.inl rfl, fun _ => dom_of_stop rfl⟩
    · dsimp only at hstep
      rw [after_pos hps] at hstep
      refine iff_of_false (not_dom_of_cycle (.single hstep)) ?_
      have := hstay.resolve_left hps
      exact fun h => h.elim hps (by omega)
  · rw [swizzle, if_neg hstay] at hstep
    rw [dom_iff_of_reaches (.single hstep)]
    rw [not_or, not_le] at hstay
    exact iff_of_true (dom_of_stop rfl) (Or.inr hstay.2)

/-- Draining ends the loop when the put list is empty. -/
theorem drain_dom_iff (hr : InRing C P A R) :
    (eval (step load limit C P) (.drain gs [] A R)).Dom ↔ ¬ Spins load C P A gs := by
  refine ⟨fun hdom hs => spins_not_dom hr hs hdom, fun hs => ?_⟩
  obtain ⟨-, A', R', -, -, hrun⟩ | ⟨xs, p, ys, A', R', -, -, -, hrun⟩ := @drains load limit C P A R gs [] hr hs
  · rw [dom_iff_of_reaches hrun]
    exact dom_of_stop rfl
  · rw [dom_iff_of_reaches hrun]
    exact dom_of_stop rfl

theorem spins_append_of_pos (h : first load gs ≠ 0) (hs : List ℕ) :
    Spins load C P A (gs ++ hs) ↔ Spins load C P A gs := by
  rw [Spins, Spins, first_append, if_neg h]

theorem spins_append_of_zero (h : first load gs = 0) (hs : List ℕ) :
    Spins load C P A (gs ++ hs) ↔ Spins load C P A hs := by
  rw [Spins, Spins, first_append, if_pos h]

/-- The get list is full, and the queue not blocked. -/
theorem full_dom_iff (hr : InRing C P A R) (hps : ps ≠ []) (hfull : limit ≤ gs.length) :
    (eval (step load limit C P) (.drain gs ps A R)).Dom ↔ ¬ Spins load C P A (gs ++ ps.reverse) ∧
      0 < limit ∧ Fits load C P A R (gs.take (gs.length - limit)) := by
  by_cases hs : Spins load C P A gs
  · have hpos : first load gs ≠ 0 := by
      have := hs.2
      omega
    refine iff_of_false (spins_not_dom hr hs) fun h => h.1 ((spins_append_of_pos hpos _).mpr hs)
  · obtain ⟨hfit, A', R', hA', hr', hrun⟩ | ⟨xs, p, ys, A', R', heq, hfit, hno, hrun⟩ :=
      @drains load limit C P A R gs ps hr hs
    · rw [dom_iff_of_reaches hrun, after_pos hps]
      have htake : Fits load C P A R (gs.take (gs.length - limit)) := by
        rw [← List.take_append_drop (gs.length - limit) gs] at hfit
        exact hfit.of_append
      have hstep : step load limit C P (.service false [] ps A' R') =
          some (.drain (swizzle limit [] ps).1 (swizzle limit [] ps).2 A' R') := rfl
      by_cases hlimit : limit = 0
      · rw [swizzle, if_pos (Or.inr (by omega))] at hstep
        have hback : step load limit C P (.drain [] ps A' R') = some (.service false [] ps A' R') :=
          congrArg some (after_pos hps false [] A' R')
        exact iff_of_false (not_dom_of_cycle (.head hstep (.single hback))) fun h => by omega
      · rw [swizzle, if_neg (by rw [not_or]; exact ⟨hps, by simpa using hlimit⟩)] at hstep
        rw [dom_iff_of_reaches (.single hstep), drain_dom_iff hr', List.nil_append]
        have hspin : Spins load C P A (gs ++ ps.reverse) ↔ Spins load C P A' ps.reverse := by
          by_cases h0 : first load gs = 0
          · rw [spins_append_of_zero h0, hA', first_eq_zero.mp h0, Nat.add_zero]
          · rw [spins_append_of_pos h0]
            have hsum : (gs.map load).sum ≠ 0 := fun h => h0 (first_eq_zero.mpr h)
            have hPA := hr.2.2.1
            exact iff_of_false hs (not_spins_of_lt (by omega))
        rw [hspin]
        exact ⟨fun h => ⟨h, by omega, htake⟩, fun h => h.1⟩
    · rw [dom_iff_of_reaches hrun, after_pos hps, blocked_dom_iff]
      have hlen : gs.length = xs.length + (1 + ys.length) := by
        rw [heq, List.length_append, List.length_cons]
        omega
      have hpos : first load gs ≠ 0 := by
        intro h
        refine hno (Or.inl ?_)
        rw [heq, ← List.singleton_append, ← List.append_assoc, first_append] at h
        have h0 : first load (xs ++ [p]) = 0 := by
          by_contra hne
          rw [if_neg hne] at h
          exact hne h
        rw [first_eq_zero.mp h0]
        exact Nat.zero_le _
      rw [spins_append_of_pos hpos]
      constructor
      · intro h
        have hlt := h.resolve_left hps
        refine ⟨hs, by omega, ?_⟩
        have htake : ∀ k ≤ xs.length, gs.take k = xs.take k := fun k hk => by
          rw [heq, List.take_append_of_le_length hk]
        rw [← List.take_append_drop (gs.length - limit) xs] at hfit
        rw [htake _ (by omega)]
        exact hfit.of_append
      · rintro ⟨-, hlim, htake⟩
        refine Or.inr (Nat.lt_of_not_le fun hle => hno ?_)
        have htwo : gs = xs ++ [p] ++ ys := by rw [heq]; simp
        have hsplit : gs.take (gs.length - limit) = xs ++ [p] ++ ys.take (ys.length - limit) := by
          have hcount : gs.length - limit = (xs ++ [p]).length + (ys.length - limit) := by
            rw [List.length_append, List.length_singleton]
            omega
          rw [hcount]
          conv_lhs => rw [htwo]
          rw [List.take_length_add_append]
        rw [hsplit] at htake
        exact htake.of_append

/-- **The loop over the lists.** -/
theorem service_dom_iff (hr : InRing C P A R) (blocked : Bool) :
    (eval (step load limit C P) (.service blocked gs ps A R)).Dom ↔ Ends load limit C P blocked gs ps A R := by
  cases blocked with
  | true => exact blocked_dom_iff
  | false =>
    have hstep : step load limit C P (.service false gs ps A R) =
        some (.drain (swizzle limit gs ps).1 (swizzle limit gs ps).2 A R) := rfl
    rw [Ends, if_neg Bool.false_ne_true, dom_iff_of_reaches (.single hstep)]
    by_cases hps : ps = []
    · rw [swizzle, if_pos (Or.inl hps)]
      dsimp only
      rw [hps, drain_dom_iff hr, List.reverse_nil, List.append_nil]
      exact ⟨fun h => ⟨h, Or.inl rfl⟩, fun h => h.1⟩
    · by_cases hlt : gs.length < limit
      · rw [swizzle, if_neg (by rw [not_or, not_le]; exact ⟨hps, hlt⟩), drain_dom_iff hr]
        exact ⟨fun h => ⟨h, Or.inr (Or.inl hlt)⟩, fun h => h.1⟩
      · rw [swizzle, if_pos (Or.inr (not_lt.mp hlt)), full_dom_iff hr hps (not_lt.mp hlt)]
        simp only [hps, hlt, false_or]

end Loop

end Svc

end Sfxge.Tx
