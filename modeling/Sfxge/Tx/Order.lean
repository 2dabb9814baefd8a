import Mathlib.Data.List.Perm.Basic
import Sfxge.Tx.Queue

/-!
# Tx.Order — packets leave the lists in the order of their additions

`Queued` names the packets on the get list, those that are being moved and those on the put list, and says
for every point of the holder of the lock what its locals are.  Every step keeps it; from it the lists are
well formed, bounded, and hold exactly the packets that have been added and not taken, in order.
-/

namespace Sfxge.Tx

open Lib

/-! ### Where the packets are -/

/-- The packet that is being added with the lock. -/
def SwizzleFor.adding : SwizzleFor → List ℕ
  | .add stpp => [stpp]
  | .service => []
  | .flush => []

def Pc.adding : Pc → List ℕ
  | .swizzle k => k.adding
  | .reverse _ _ _ _ k => k.adding
  | .splice _ _ _ k => k.adding
  | .tail stpp => [stpp]
  | _ => []

/-- The same from when it has its place in the order. -/
def Pc.entering : Pc → List ℕ
  | .swizzle _ => []
  | pc => pc.adding

/-- The locals that stand for the get list while packets are taken off it. -/
def Pc.taking : Pc → Option (Option ℕ × ℕ)
  | .drain stpp count _ => some (stpp, count)
  | .post (.drain stpp count _) => some (stpp, count)
  | .posted stpp count _ => some (stpp, count)
  | .discard stpp count => some (stpp, count)
  | _ => none

/-- The packets on the put list carry its length. -/
def Depths (pkt : ℕ → Packet) : List ℕ → Prop
  | [] => True
  | p :: ps => (pkt p).stpDplPutLen = ps.length + 1 ∧ Depths pkt ps

/-- The get list is `gs`. -/
def Sys.GetAt (s : Sys) (gs : List ℕ) : Prop := match s.pc.taking with
  | some (stpp, count) =>
    Chain s.next stpp gs ∧ count = gs.length ∧ (gs ≠ [] → s.dpl.stdGetp = lastLink gs)
  | none => Tailed s.next s.dpl.stdGet s.dpl.stdGetp gs ∧ s.dpl.stdCount = gs.length

/-- The packets that have been taken off the put list and are not on the get list yet are `fs`. -/
def Sys.MovedAt (s : Sys) (fs : List ℕ) : Prop := match s.pc with
  | .reverse stpp p count pp _ => ∃ as bs zs, fs = as.reverse ++ bs ∧ fs = zs ++ [pp] ∧
    Chain s.next (some stpp) as ∧ Chain s.next p bs ∧ count = bs.length
  | .splice p count pp _ => Chain s.next (some p) fs ∧ count = fs.length ∧ ∃ zs, fs = zs ++ [pp]
  | _ => fs = []

/-- The lengths of the two. -/
def Sys.BoundAt (s : Sys) (gs fs : List ℕ) : Prop := match s.pc with
  | .swizzle (.add _) => gs.length < s.dpl.getPktLimit
  | .reverse _ _ _ _ _ => gs.length < s.dpl.getPktLimit ∧ fs.length ≤ s.dpl.putPktLimit - 1
  | .splice _ _ _ _ => gs.length < s.dpl.getPktLimit ∧ fs.length ≤ s.dpl.putPktLimit - 1
  | pc => gs.length + pc.adding.length ≤ s.dpl.getPktLimit + (s.dpl.putPktLimit - 1)

/-- The packets on the get list, being moved, and on the put list. -/
structure Queued (s : Sys) (gs fs ps : List ℕ) : Prop where
  nodup : (gs ++ (fs ++ (s.pc.adding ++ ps))).Nodup
  live : ∀ p ∈ gs ++ (fs ++ (s.pc.adding ++ ps)), p ∈ s.live
  put : Chain s.next s.dpl.stdPut ps
  depths : Depths s.pkt ps
  putLe : ps.length ≤ s.dpl.putPktLimit - 1
  adding : ∀ p ∈ s.pc.adding, s.next p = none ∧ (s.pkt p).stpMp ≠ none
  get : s.GetAt gs
  moved : s.MovedAt fs
  bound : s.BoundAt gs fs
  order : s.entered.map some = s.taken.map some ++
    (gs ++ (fs ++ (s.pc.entering ++ ps.reverse))).map fun p => (s.pkt p).stpMp
  sent : s.sent.Sublist s.taken

/-! ### Frames -/

section Frames

variable {s : Sys} {p : ℕ} {x : Packet} {gs fs ps : List ℕ}

theorem next_setPkt : (s.setPkt p x).next = Function.update s.next p x.stpNext := by
  funext q
  simp only [Sys.next, Sys.setPkt, Function.update_apply]
  split_ifs <;> rfl

theorem next_setPkt_same (h : x.stpNext = s.next p) : (s.setPkt p x).next = s.next := by
  rw [next_setPkt, h, Function.update_eq_self]

theorem depths_update {pkt : ℕ → Packet} (h : Depths pkt ps) (hp : p ∉ ps) :
    Depths (Function.update pkt p x) ps := by
  induction ps with
  | nil => trivial
  | cons q ps ih =>
    rw [List.mem_cons, not_or] at hp
    refine ⟨?_, ih h.2 hp.2⟩
    rw [Function.update_of_ne (Ne.symm hp.1)]
    exact h.1

/-- A change of the links alone. -/
theorem depths_congr {pkt pkt' : ℕ → Packet} (h : Depths pkt ps)
    (heq : ∀ p ∈ ps, (pkt' p).stpDplPutLen = (pkt p).stpDplPutLen) : Depths pkt' ps := by
  induction ps with
  | nil => trivial
  | cons q ps ih => exact ⟨(heq q (by simp)).trans h.1, ih h.2 fun p hp => heq p (by simp [hp])⟩

theorem map_mp_update {pkt : ℕ → Packet} {xs : List ℕ} (hp : p ∉ xs) :
    (xs.map fun q => (Function.update pkt p x q).stpMp) = xs.map fun q => (pkt q).stpMp :=
  List.map_congr_left fun q hq => by rw [Function.update_of_ne (ne_of_mem_of_not_mem hq hp)]

theorem getAt_congr {s' : Sys} (h : s.GetAt gs) (hpc : s'.pc.taking = s.pc.taking)
    (hget : s'.dpl.stdGet = s.dpl.stdGet) (hgetp : s'.dpl.stdGetp = s.dpl.stdGetp)
    (hcount : s'.dpl.stdCount = s.dpl.stdCount) (hnext : ∀ p ∈ gs, s'.next p = s.next p) :
    s'.GetAt gs := by
  unfold Sys.GetAt at h ⊢
  rw [hpc, hget, hgetp, hcount]
  split at h
  · exact ⟨h.1.congr hnext, h.2⟩
  · exact ⟨h.1.congr hnext, h.2⟩

theorem movedAt_congr {s' : Sys} (h : s.MovedAt fs) (hpc : s'.pc = s.pc)
    (hnext : ∀ p ∈ fs, s'.next p = s.next p) : s'.MovedAt fs := by
  unfold Sys.MovedAt at h ⊢
  rw [hpc]
  split at h
  · obtain ⟨as, bs, zs, h1, h2, h3, h4, h5⟩ := h
    refine ⟨as, bs, zs, h1, h2, h3.congr fun p hp => hnext p ?_, h4.congr fun p hp => hnext p ?_, h5⟩
    · rw [h1]
      exact List.mem_append_left _ (List.mem_reverse.mpr hp)
    · rw [h1]
      exact List.mem_append_right _ hp
  · exact ⟨h.1.congr hnext, h.2⟩
  · exact h

theorem boundAt_congr {s' : Sys} (h : s.BoundAt gs fs) (hpc : s'.pc = s.pc)
    (hget : s'.dpl.getPktLimit = s.dpl.getPktLimit) (hput : s'.dpl.putPktLimit = s.dpl.putPktLimit) :
    s'.BoundAt gs fs := by
  unfold Sys.BoundAt at h ⊢
  rw [hpc, hget, hput]
  exact h

/-- A step that leaves the lists and the holder alone. -/
theorem Queued.congr {s' : Sys} (Q : Queued s gs fs ps) (hpkt : s'.pkt = s.pkt) (hlive : s'.live = s.live)
    (hdpl : (s'.dpl.stdPut, s'.dpl.stdGet, s'.dpl.stdGetp, s'.dpl.stdCount, s'.dpl.getPktLimit,
      s'.dpl.putPktLimit) = (s.dpl.stdPut, s.dpl.stdGet, s.dpl.stdGetp, s.dpl.stdCount, s.dpl.getPktLimit,
      s.dpl.putPktLimit)) (hpc : s'.pc = s.pc) (hentered : s'.entered = s.entered)
    (htaken : s'.taken = s.taken) (hsent : s'.sent = s.sent) : Queued s' gs fs ps := by
  simp only [Prod.mk.injEq] at hdpl
  obtain ⟨h1, h2, h3, h4, h5, h6⟩ := hdpl
  have hnext : s'.next = s.next := by
    funext p
    rw [Sys.next, hpkt, Sys.next]
  refine ⟨?_, ?_, ?_, ?_, ?_, ?_, ?_, ?_, ?_, ?_, ?_⟩
  · rw [hpc]
    exact Q.nodup
  · rw [hpc, hlive]
    exact Q.live
  · rw [hnext, h1]
    exact Q.put
  · rw [hpkt]
    exact Q.depths
  · rw [h6]
    exact Q.putLe
  · rw [hpc, hnext, hpkt]
    exact Q.adding
  · exact getAt_congr Q.get (by rw [hpc]) h2 h3 h4 fun p _ => congrFun hnext p
  · exact movedAt_congr Q.moved hpc fun p _ => congrFun hnext p
  · exact boundAt_congr Q.bound hpc h5 h6
  · rw [hentered, htaken, hpc, hpkt]
    exact Q.order
  · rw [hsent, htaken]
    exact Q.sent

end Frames

/-! ### Adding a packet -/

variable {s s' : Sys} {gs fs ps : List ℕ} {stpp : ℕ} {mp : Mblk} {mss : ℕ}

/-- The length that `sfxge_tx_qdpl_add` computes. -/
theorem Queued.putLen (Q : Queued s gs fs ps) : s.putLen = ps.length + 1 := by
  have hput := Q.put
  have hdepths := Q.depths
  unfold Sys.putLen
  cases hp : s.dpl.stdPut with
  | none =>
    rw [hp] at hput
    rw [hput.eq_nil]
    rfl
  | some old =>
    rw [hp] at hput
    obtain ⟨qs, rfl, -⟩ := hput.eq_cons
    dsimp only
    rw [hdepths.1, List.length_cons]

/-- **Push.** -/
theorem queued_add (Q : Queued s gs fs ps) (hlive : stpp ∉ s.live) :
    ∃ ps', Queued (s.qdplAddUnlocked stpp mp mss) gs fs ps' := by
  unfold Sys.qdplAddUnlocked
  rw [Q.putLen]
  dsimp only
  split_ifs with hfull
  · exact ⟨ps, Q.congr rfl rfl rfl rfl rfl rfl rfl⟩
  · have hnot : ∀ p ∈ gs ++ (fs ++ (s.pc.adding ++ ps)), p ≠ stpp := fun p hp =>
      ne_of_mem_of_not_mem (Q.live p hp) hlive
    have hgs : stpp ∉ gs := fun h => hnot _ (by simp [h]) rfl
    have hfs : stpp ∉ fs := fun h => hnot _ (by simp [h]) rfl
    have hadd : stpp ∉ s.pc.adding := fun h => hnot _ (by simp [h]) rfl
    have hps : stpp ∉ ps := fun h => hnot _ (by simp [h]) rfl
    have hent : stpp ∉ s.pc.entering := by
      intro h
      unfold Pc.entering at h
      split at h
      · cases h
      · exact hadd h
    have hnext : ∀ p, p ≠ stpp → (s.setPkt stpp
        { Sys.packet mp mss with stpNext := s.dpl.stdPut, stpDplPutLen := ps.length + 1 }).next p = s.next p :=
      fun p hp => by rw [next_setPkt, Function.update_of_ne hp]
    refine ⟨stpp :: ps, ?_, ?_, ?_, ⟨?_, ?_⟩, ?_, ?_, ?_, ?_, Q.bound, ?_, Q.sent⟩
    · have hperm : (gs ++ (fs ++ (s.pc.adding ++ stpp :: ps))).Perm
          (stpp :: (gs ++ (fs ++ (s.pc.adding ++ ps)))) := by
        simp only [← List.append_assoc]
        exact List.perm_middle
      exact hperm.nodup_iff.mpr (List.nodup_cons.mpr ⟨fun h => hnot _ h rfl, Q.nodup⟩)
    · intro p hp
      simp only [List.mem_append, List.mem_cons] at hp
      by_cases heq : p = stpp
      · rw [heq]
        exact List.mem_cons_self
      · refine List.mem_cons_of_mem _ (Q.live p ?_)
        simp only [List.mem_append]
        tauto
    · change Chain (s.setPkt _ _).next (some stpp) _
      rw [next_setPkt]
      exact Q.put.push hps
    · change (Function.update s.pkt stpp _ stpp).stpDplPutLen = _
      rw [Function.update_self]
    · exact depths_update Q.depths hps
    · rw [List.length_cons]
      dsimp only
      omega
    · intro p hp
      have hne : p ≠ stpp := ne_of_mem_of_not_mem hp hadd
      refine ⟨(hnext p hne).trans (Q.adding p hp).1, ?_⟩
      change (Function.update s.pkt stpp _ p).stpMp ≠ none
      rw [Function.update_of_ne hne]
      exact (Q.adding p hp).2
    · exact getAt_congr Q.get rfl rfl rfl rfl fun p hp => hnext p (ne_of_mem_of_not_mem hp hgs)
    · exact movedAt_congr Q.moved rfl fun p hp => hnext p (ne_of_mem_of_not_mem hp hfs)
    · have hold := Q.order
      change (s.entered ++ [mp]).map some = s.taken.map some ++
        (gs ++ (fs ++ (s.pc.entering ++ (stpp :: ps).reverse))).map fun q => (Function.update s.pkt stpp _ q).stpMp
      have hmap : stpp ∉ gs ++ (fs ++ (s.pc.entering ++ ps.reverse)) := by
        simp only [List.mem_append, List.mem_reverse, not_or]
        exact ⟨hgs, hfs, hent, hps⟩
      have hsplit : gs ++ (fs ++ (s.pc.entering ++ (stpp :: ps).reverse)) =
          gs ++ (fs ++ (s.pc.entering ++ ps.reverse)) ++ [stpp] := by
        simp only [List.reverse_cons, List.append_assoc]
      rw [hsplit, List.map_append, List.map_append, map_mp_update hmap, hold, List.append_assoc,
        List.map_singleton, List.map_singleton, Function.update_self]
      rfl

theorem queued_addLocked (Q : Queued s gs fs ps) (hpc : s.pc = .free) (hlive : stpp ∉ s.live) :
    Queued (s.packetAddLocked stpp mp mss) gs fs ps := by
  unfold Sys.packetAddLocked
  split_ifs with hfull
  · exact Q.congr rfl rfl rfl rfl rfl rfl rfl
  · have hget := Q.get
    have hmoved := Q.moved
    have hbound := Q.bound
    have hnodup := Q.nodup
    have hqlive := Q.live
    have horder := Q.order
    rw [Sys.GetAt, hpc] at hget
    rw [Sys.MovedAt, hpc] at hmoved
    rw [hpc] at hnodup hqlive horder
    have hget' : Tailed s.next s.dpl.stdGet s.dpl.stdGetp gs ∧ s.dpl.stdCount = gs.length := hget
    have hfs : fs = [] := hmoved
    subst hfs
    have hnot : ∀ p ∈ gs ++ ([] ++ ([] ++ ps)), p ≠ stpp := fun p hp =>
      ne_of_mem_of_not_mem (hqlive p hp) hlive
    have hgs : stpp ∉ gs := fun h => hnot _ (by simp [h]) rfl
    have hps : stpp ∉ ps := fun h => hnot _ (by simp [h]) rfl
    have hnext : ∀ p, p ≠ stpp → (s.setPkt stpp (Sys.packet mp mss)).next p = s.next p :=
      fun p hp => by rw [next_setPkt, Function.update_of_ne hp]
    refine ⟨?_, ?_, ?_, depths_update Q.depths hps, Q.putLe, ?_, ⟨?_, hget'.2⟩, rfl, ?_, ?_, Q.sent⟩
    · have hperm : (gs ++ ([] ++ ([stpp] ++ ps))).Perm (stpp :: (gs ++ ([] ++ ([] ++ ps)))) :=
        List.perm_middle
      exact hperm.nodup_iff.mpr (List.nodup_cons.mpr ⟨fun h => hnot _ h rfl, hnodup⟩)
    · intro p hp
      change p ∈ gs ++ ([] ++ ([stpp] ++ ps)) at hp
      simp only [List.mem_append, List.mem_cons, List.not_mem_nil] at hp
      by_cases heq : p = stpp
      · rw [heq]
        exact List.mem_cons_self
      · refine List.mem_cons_of_mem _ (hqlive p ?_)
        simp only [List.mem_append]
        tauto
    · exact Q.put.congr fun p hp => hnext p (ne_of_mem_of_not_mem hp hps)
    · intro p hp
      change p ∈ [stpp] at hp
      rw [List.mem_singleton] at hp
      subst hp
      change (s.setPkt p (Sys.packet mp mss)).next p = none ∧ (Function.update s.pkt p _ p).stpMp ≠ none
      rw [next_setPkt, Function.update_self, Function.update_self]
      exact ⟨rfl, by simp [Sys.packet]⟩
    · exact hget'.1.congr fun p hp => hnext p (ne_of_mem_of_not_mem hp hgs)
    · change gs.length < s.dpl.getPktLimit
      rw [← hget'.2]
      omega
    · change s.entered.map some = s.taken.map some ++
        (gs ++ ([] ++ ([] ++ ps.reverse))).map fun q => (Function.update s.pkt stpp _ q).stpMp
      rw [map_mp_update (by simp [hgs, hps])]
      exact horder

/-! ### Swizzling -/

/-- The get list is whole and the packet being added, if any, is the next on it. -/
structure Settled (s : Sys) (k : SwizzleFor) (gs ps : List ℕ) : Prop where
  nodup : (gs ++ (k.adding ++ ps)).Nodup
  live : ∀ p ∈ gs ++ (k.adding ++ ps), p ∈ s.live
  put : Chain s.next s.dpl.stdPut ps
  depths : Depths s.pkt ps
  putLe : ps.length ≤ s.dpl.putPktLimit - 1
  adding : ∀ p ∈ k.adding, s.next p = none ∧ (s.pkt p).stpMp ≠ none
  get : Tailed s.next s.dpl.stdGet s.dpl.stdGetp gs ∧ s.dpl.stdCount = gs.length
  bound : gs.length + k.adding.length ≤ s.dpl.getPktLimit + (s.dpl.putPktLimit - 1)
  order : s.entered.map some = s.taken.map some ++
    (gs ++ (k.adding ++ ps.reverse)).map fun p => (s.pkt p).stpMp
  sent : s.sent.Sublist s.taken

variable {k : SwizzleFor}

theorem Settled.swizzled (S : Settled s k gs ps) : Queued (s.swizzled k) gs [] ps := by
  cases k with
  | add stpp =>
    exact ⟨S.nodup, S.live, S.put, S.depths, S.putLe, S.adding, S.get, rfl, S.bound, S.order, S.sent⟩
  | service =>
    exact ⟨S.nodup, S.live, S.put, S.depths, S.putLe, nofun, S.get, rfl, S.bound, S.order, S.sent⟩
  | flush =>
    refine ⟨S.nodup, S.live, S.put, S.depths, S.putLe, nofun, ?_, rfl, S.bound, S.order, S.sent⟩
    exact ⟨S.get.1.chain, S.get.2, fun _ => S.get.1.tail_eq⟩

/-- What holds at the call of `sfxge_tx_qdpl_swizzle`. -/
theorem Queued.at_swizzle (Q : Queued s gs fs ps) (hpc : s.pc = .swizzle k) :
    fs = [] ∧ (Tailed s.next s.dpl.stdGet s.dpl.stdGetp gs ∧ s.dpl.stdCount = gs.length) ∧
      (k.adding ≠ [] → gs.length < s.dpl.getPktLimit) := by
  have hget := Q.get
  have hmoved := Q.moved
  have hbound := Q.bound
  rw [Sys.GetAt, hpc] at hget
  rw [Sys.MovedAt, hpc] at hmoved
  rw [Sys.BoundAt, hpc] at hbound
  refine ⟨hmoved, hget, fun hk => ?_⟩
  cases k with
  | add stpp => exact hbound
  | service => exact absurd rfl hk
  | flush => exact absurd rfl hk

/-- The packet being added has its place in the order. -/
theorem Queued.entered_enter (Q : Queued s gs [] ps) (hpc : s.pc = .swizzle k) :
    (s.enter k).entered.map some = s.taken.map some ++ ((gs ++ ps.reverse).map fun p => (s.pkt p).stpMp) ++
      k.adding.map fun p => (s.pkt p).stpMp := by
  have horder := Q.order
  have hadding := Q.adding
  rw [hpc] at horder hadding
  have horder' : s.entered.map some = s.taken.map some ++ (gs ++ ps.reverse).map fun p => (s.pkt p).stpMp :=
    horder
  cases k with
  | add stpp =>
    obtain ⟨mp, hmp⟩ := Option.ne_none_iff_exists'.mp (hadding stpp List.mem_cons_self).2
    change (s.entered ++ (s.pkt stpp).stpMp.toList).map some = _
    rw [List.map_append, horder', hmp]
    change _ = _ ++ [(s.pkt stpp).stpMp]
    rw [hmp]
    rfl
  | service =>
    rw [SwizzleFor.adding, List.map_nil, List.append_nil]
    exact horder'
  | flush =>
    rw [SwizzleFor.adding, List.map_nil, List.append_nil]
    exact horder'

theorem enter_frame (s : Sys) (k : SwizzleFor) : (s.enter k).pkt = s.pkt ∧ (s.enter k).live = s.live ∧
    (s.enter k).dpl = s.dpl ∧ (s.enter k).taken = s.taken ∧ (s.enter k).sent = s.sent ∧
    (s.enter k).next = s.next := by
  cases k <;> exact ⟨rfl, rfl, rfl, rfl, rfl, rfl⟩

/-- The put list is left where it is, or empty. -/
theorem Queued.settled_enter (Q : Queued s gs fs ps) (hpc : s.pc = .swizzle k)
    (hstay : k.adding ≠ [] → ps = []) : Settled (s.enter k) k gs ps := by
  obtain ⟨rfl, hget, hlt⟩ := Q.at_swizzle hpc
  have hnodup := Q.nodup
  have hlive := Q.live
  have hadding := Q.adding
  rw [hpc] at hnodup hlive hadding
  obtain ⟨e1, e2, e3, e4, e5, e6⟩ := enter_frame s k
  have hle : gs.length + k.adding.length ≤ s.dpl.getPktLimit + (s.dpl.putPktLimit - 1) := by
    have hbound := Q.bound
    rw [Sys.BoundAt, hpc] at hbound
    cases k with
    | add stpp =>
      have := hlt (by simp [SwizzleFor.adding])
      change gs.length + 1 ≤ _
      omega
    | service => exact hbound
    | flush => exact hbound
  refine ⟨hnodup, ?_, ?_, ?_, ?_, ?_, ?_, ?_, ?_, ?_⟩
  · rw [e2]
    exact hlive
  · rw [e3, e6]
    exact Q.put
  · rw [e1]
    exact Q.depths
  · rw [e3]
    exact Q.putLe
  · rw [e1, e6]
    exact hadding
  · rw [e3, e6]
    exact hget
  · rw [e3]
    exact hle
  · rw [Q.entered_enter hpc, e1, e4]
    by_cases hk : k.adding = []
    · simp [hk]
    · rw [hstay hk]
      simp
  · rw [e4, e5]
    exact Q.sent

/-- **Swap.**  The put list stays where it is, or is taken as a whole. -/
theorem queued_swizzle (Q : Queued s gs fs ps) (hpc : s.pc = .swizzle k) :
    ((ps = [] ∨ s.dpl.getPktLimit ≤ gs.length) ∧ Queued (s.swizzle k) gs [] ps) ∨
      (¬ (ps = [] ∨ s.dpl.getPktLimit ≤ gs.length) ∧ Queued (s.swizzle k) gs ps.reverse []) := by
  obtain ⟨rfl, hget, hlt⟩ := Q.at_swizzle hpc
  unfold Sys.swizzle
  split_ifs with hfull
  · rw [hget.2] at hfull
    refine Or.inl ⟨Or.inr hfull, (Q.settled_enter hpc fun hk => ?_).swizzled⟩
    have := hlt hk
    omega
  · have hput := Q.put
    cases hp : s.dpl.stdPut with
    | none =>
      rw [hp] at hput
      exact Or.inl ⟨Or.inl hput.eq_nil, (Q.settled_enter hpc fun _ => hput.eq_nil).swizzled⟩
    | some stpp =>
      rw [hp] at hput
      have hnodup := Q.nodup
      have hlive := Q.live
      have hadding := Q.adding
      rw [hpc] at hnodup hlive hadding
      obtain ⟨e1, e2, e3, e4, e5, e6⟩ := enter_frame s k
      obtain ⟨rest, hrest, -⟩ := hput.eq_cons
      have hperm : (gs ++ (ps.reverse ++ (k.adding ++ []))).Perm (gs ++ ([] ++ (k.adding ++ ps))) := by
        rw [List.append_nil, List.nil_append]
        exact List.Perm.append_left gs (List.perm_append_comm.trans ((List.reverse_perm ps).append_left _))
      rw [hget.2] at hfull
      refine Or.inr ⟨?_, ?_, ?_, rfl, trivial, Nat.zero_le _, ?_, ?_, ?_, ?_, ?_, ?_⟩
      · rw [hrest]
        simpa using hfull
      · exact hperm.nodup_iff.mpr hnodup
      · intro p hp'
        change p ∈ (s.enter k).live
        rw [e2]
        exact hlive p (hperm.mem_iff.mp hp')
      · intro p hp'
        change (s.enter k).next p = none ∧ ((s.enter k).pkt p).stpMp ≠ none
        rw [e6, e1]
        exact hadding p hp'
      · change Tailed (s.enter k).next s.dpl.stdGet s.dpl.stdGetp gs ∧ s.dpl.stdCount = gs.length
        rw [e6]
        exact hget
      · refine ⟨ps, [], rest.reverse, (List.append_nil _).symm, by rw [hrest, List.reverse_cons], ?_, rfl, rfl⟩
        change Chain (s.enter k).next (some stpp) ps
        rw [e6]
        exact hput
      · refine ⟨?_, by rw [List.length_reverse]; exact Q.putLe⟩
        exact Nat.lt_of_not_ge hfull
      · change (s.enter k).entered.map some = (s.enter k).taken.map some ++
          (gs ++ (ps.reverse ++ (k.adding ++ []))).map fun p => ((s.enter k).pkt p).stpMp
        rw [Q.entered_enter hpc, e1, e4]
        simp
      · change (s.enter k).sent.Sublist (s.enter k).taken
        rw [e4, e5]
        exact Q.sent

theorem next_setNext (s : Sys) (p : ℕ) (v : Option ℕ) : (s.setNext p v).next = Function.update s.next p v :=
  next_setPkt

/-- A link is all that changes of a packet. -/
theorem pkt_setNext (s : Sys) (p : ℕ) (v : Option ℕ) (q : ℕ) :
    ((s.setNext p v).pkt q).stpMp = (s.pkt q).stpMp ∧
      ((s.setNext p v).pkt q).stpDplPutLen = (s.pkt q).stpDplPutLen := by
  rw [Sys.setNext, Sys.setPkt]
  dsimp only
  rw [Function.update_apply]
  split_ifs with hq
  · rw [hq]
    exact ⟨rfl, rfl⟩
  · exact ⟨rfl, rfl⟩

/-- **Reversal.** -/
theorem queued_reverse {p : Option ℕ} {count pp : ℕ} (Q : Queued s gs fs ps)
    (hpc : s.pc = .reverse stpp p count pp k) : Queued (s.reverse stpp p count pp k) gs fs ps := by
  have hmoved := Q.moved
  have hget := Q.get
  have hbound := Q.bound
  have hnodup := Q.nodup
  have hlive := Q.live
  have hadding := Q.adding
  have horder := Q.order
  rw [Sys.MovedAt, hpc] at hmoved
  rw [Sys.GetAt, hpc] at hget
  rw [Sys.BoundAt, hpc] at hbound
  rw [hpc] at hnodup hlive hadding horder
  obtain ⟨as, bs, zs, h1, h2, has, hbs, hcount⟩ := hmoved
  obtain ⟨as, rfl, hrest⟩ := has.eq_cons
  have hget' : Tailed s.next s.dpl.stdGet s.dpl.stdGetp gs ∧ s.dpl.stdCount = gs.length := hget
  have hfs : stpp ∈ fs := by
    rw [h1]
    simp
  -- the packet turned round is on no other list
  have hdisj := List.nodup_append.mp hnodup
  have hdisj' := List.nodup_append.mp hdisj.2.1
  have hgs : stpp ∉ gs := fun h => hdisj.2.2 stpp h stpp (List.mem_append_left _ hfs) rfl
  have hps : stpp ∉ ps := fun h => hdisj'.2.2 stpp hfs stpp (List.mem_append_right _ h) rfl
  have hadd : stpp ∉ k.adding := fun h => hdisj'.2.2 stpp hfs stpp (List.mem_append_left _ h) rfl
  have hnas : stpp ∉ as := (List.nodup_cons.mp has.nodup).1
  have hnbs : stpp ∉ bs := by
    have := hdisj'.1
    rw [h1] at this
    exact fun h => (List.nodup_append.mp this).2.2 stpp (by simp) stpp h rfl
  have hnext := next_setNext s stpp p
  have hkeep : ∀ q, q ≠ stpp → (s.setNext stpp p).next q = s.next q :=
    fun q hq => by rw [hnext, Function.update_of_ne hq]
  have hput' : Chain (s.setNext stpp p).next s.dpl.stdPut ps :=
    Q.put.congr fun q hq => hkeep q (ne_of_mem_of_not_mem hq hps)
  have hget'' : Tailed (s.setNext stpp p).next s.dpl.stdGet s.dpl.stdGetp gs :=
    hget'.1.congr fun q hq => hkeep q (ne_of_mem_of_not_mem hq hgs)
  have hbs' : Chain (s.setNext stpp p).next (some stpp) (stpp :: bs) := by
    rw [hnext]
    exact hbs.push hnbs
  have has' : Chain (s.setNext stpp p).next (s.next stpp) as :=
    hrest.congr fun q hq => hkeep q (ne_of_mem_of_not_mem hq hnas)
  have hadding' : ∀ q ∈ k.adding, (s.setNext stpp p).next q = none ∧
      ((s.setNext stpp p).pkt q).stpMp ≠ none := by
    intro q hq
    have hne := ne_of_mem_of_not_mem hq hadd
    refine ⟨(hkeep q hne).trans (hadding q hq).1, ?_⟩
    rw [(pkt_setNext s stpp p q).1]
    exact (hadding q hq).2
  have hdepths' : Depths (s.setNext stpp p).pkt ps :=
    depths_congr Q.depths fun q _ => (pkt_setNext s stpp p q).2
  have horder' : s.entered.map some = s.taken.map some ++
      (gs ++ (fs ++ (k.adding ++ ps.reverse))).map fun q =>
        ((s.setNext stpp p).pkt q).stpMp := by
    exact horder.trans (congrArg _ (List.map_congr_left fun q _ => (pkt_setNext s stpp p q).1.symm))
  unfold Sys.reverse
  dsimp only
  split
  · next n hn =>
    rw [hn] at has'
    refine ⟨hnodup, hlive, hput', hdepths', Q.putLe, hadding', ⟨hget'', hget'.2⟩, ?_, hbound, horder', Q.sent⟩
    refine ⟨as, stpp :: bs, zs, ?_, h2, has', hbs', ?_⟩
    · rw [h1, List.reverse_cons, List.append_assoc, List.singleton_append]
    · rw [hcount, List.length_cons]
  · next hn =>
    rw [hn] at has'
    have hnil := has'.eq_nil
    subst hnil
    have hfs' : fs = stpp :: bs := h1
    refine ⟨hnodup, hlive, hput', hdepths', Q.putLe, hadding', ⟨hget'', hget'.2⟩, ?_, hbound, horder', Q.sent⟩
    refine ⟨?_, ?_, zs, h2⟩
    · rw [hfs']
      exact hbs'
    · rw [hfs', hcount, List.length_cons]

/-- What writing a link of the get list changes. -/
theorem setLink_frame (link : Link ℕ) (v : Option ℕ) (s : Sys) :
    (s.setLink link v).next = writeNext link v s.next ∧
      (s.setLink link v).dpl.stdGet = writeHead link v s.dpl.stdGet ∧
      (∀ ps, Depths s.pkt ps → Depths (s.setLink link v).pkt ps) ∧
      (∀ q, ((s.setLink link v).pkt q).stpMp = (s.pkt q).stpMp) ∧
      (s.setLink link v).live = s.live ∧
      ((s.setLink link v).dpl.stdPut, (s.setLink link v).dpl.getPktLimit,
        (s.setLink link v).dpl.putPktLimit) = (s.dpl.stdPut, s.dpl.getPktLimit, s.dpl.putPktLimit) ∧
      (s.setLink link v).entered = s.entered ∧ (s.setLink link v).taken = s.taken ∧
      (s.setLink link v).sent = s.sent := by
  cases link with
  | head => exact ⟨rfl, rfl, fun _ h => h, fun _ => rfl, rfl, rfl, rfl, rfl, rfl⟩
  | next p =>
    exact ⟨next_setNext s p v, rfl, fun _ h => depths_congr h fun q _ => (pkt_setNext s p v q).2,
      fun q => (pkt_setNext s p v q).1, rfl, rfl, rfl, rfl, rfl⟩

/-- Only the last packet of the get list has its link changed. -/
theorem writeNext_of_notMem {next : ℕ → Option ℕ} {v : Option ℕ} {q : ℕ} (hq : q ∉ gs) :
    writeNext (lastLink gs) v next q = next q := by
  cases gs with
  | nil => rfl
  | cons g gs =>
    have hne : q ≠ (g :: gs).getLast (List.cons_ne_nil g gs) :=
      fun h => hq (h ▸ List.getLast_mem _)
    exact Function.update_of_ne hne v next

/-- **Append.**  A chain joins the get list. -/
theorem tailed_appendGet {p count pp : ℕ} {zs : List ℕ}
    (hget : Tailed s.next s.dpl.stdGet s.dpl.stdGetp gs ∧ s.dpl.stdCount = gs.length)
    (hchain : Chain s.next (some p) (zs ++ [pp])) (hcount : count = (zs ++ [pp]).length)
    (hdisj : List.Disjoint gs (zs ++ [pp])) :
    Tailed (s.appendGet p count pp).next (s.appendGet p count pp).dpl.stdGet
        (s.appendGet p count pp).dpl.stdGetp (gs ++ (zs ++ [pp])) ∧
      (s.appendGet p count pp).dpl.stdCount = (gs ++ (zs ++ [pp])).length := by
  obtain ⟨e1, e2, -⟩ := setLink_frame s.dpl.stdGetp (some p) s
  constructor
  · change Tailed (s.setLink s.dpl.stdGetp (some p)).next (s.setLink s.dpl.stdGetp (some p)).dpl.stdGet
      (.next pp) _
    rw [e1, e2]
    exact hget.1.append hchain hdisj
  · change s.dpl.stdCount + count = _
    rw [hget.2, hcount, @List.length_append _ gs]

/-- **Splice.** -/
theorem queued_splice {p count pp : ℕ} (Q : Queued s gs fs ps) (hpc : s.pc = .splice p count pp k) :
    Settled (s.appendGet p count pp) k (gs ++ fs) ps := by
  have hmoved := Q.moved
  have hget := Q.get
  have hbound := Q.bound
  have hnodup := Q.nodup
  have hlive := Q.live
  have hadding := Q.adding
  have horder := Q.order
  rw [Sys.MovedAt, hpc] at hmoved
  rw [Sys.GetAt, hpc] at hget
  rw [Sys.BoundAt, hpc] at hbound
  rw [hpc] at hnodup hlive hadding horder
  obtain ⟨hchain, hcount, zs, rfl⟩ := hmoved
  have hget' : Tailed s.next s.dpl.stdGet s.dpl.stdGetp gs ∧ s.dpl.stdCount = gs.length := hget
  have hnodup' : (gs ++ ((zs ++ [pp]) ++ (k.adding ++ ps))).Nodup := hnodup
  have hdisj := List.nodup_append.mp hnodup'
  obtain ⟨e1, e2, e3, e4, e5, e6, e7, e8, e9⟩ := setLink_frame s.dpl.stdGetp (some p) s
  simp only [Prod.mk.injEq] at e6
  rw [hget'.1.tail_eq] at e1
  have hkeep : ∀ q ∈ k.adding ++ ps, (s.setLink s.dpl.stdGetp (some p)).next q = s.next q := by
    intro q hq
    rw [hget'.1.tail_eq, e1]
    exact writeNext_of_notMem fun h => hdisj.2.2 q h q (List.mem_append_right _ hq) rfl
  refine ⟨?_, ?_, ?_, e3 ps Q.depths, ?_, ?_, ?_, ?_, ?_, ?_⟩
  · rw [List.append_assoc]
    exact hnodup'
  · intro q hq
    rw [List.append_assoc] at hq
    exact (congrArg (q ∈ ·) e5).mpr (hlive q hq)
  · change Chain (s.setLink s.dpl.stdGetp (some p)).next (s.setLink s.dpl.stdGetp (some p)).dpl.stdPut ps
    rw [e6.1]
    exact Q.put.congr fun q hq => hkeep q (List.mem_append_right _ hq)
  · exact Q.putLe.trans_eq (congrArg (· - 1) e6.2.2.symm)
  · intro q hq
    refine ⟨(hkeep q (List.mem_append_left _ hq)).trans (hadding q hq).1, ?_⟩
    change ((s.setLink s.dpl.stdGetp (some p)).pkt q).stpMp ≠ none
    rw [e4]
    exact (hadding q hq).2
  · exact tailed_appendGet hget' hchain hcount fun q hq hq' => hdisj.2.2 q hq q (List.mem_append_left _ hq') rfl
  · change _ ≤ (s.setLink s.dpl.stdGetp (some p)).dpl.getPktLimit +
      ((s.setLink s.dpl.stdGetp (some p)).dpl.putPktLimit - 1)
    rw [e6.2.1, e6.2.2, @List.length_append _ gs]
    have hadd : k.adding.length ≤ 1 := by cases k <;> simp [SwizzleFor.adding]
    have := hbound.1
    have := hbound.2
    omega
  · change (s.setLink s.dpl.stdGetp (some p)).entered.map some = _ ++ _
    rw [e7, List.append_assoc]
    refine horder.trans (congrArg₂ _ (congrArg _ e8.symm) (List.map_congr_left fun q _ => (e4 q).symm))
  · change (s.setLink s.dpl.stdGetp (some p)).sent.Sublist (s.setLink s.dpl.stdGetp (some p)).taken
    rw [e8, e9]
    exact Q.sent

/-- The packet being added is put on the get list. -/
theorem queued_tail (Q : Queued s gs fs ps) (hpc : s.pc = .tail stpp) :
    Queued { s.appendGet stpp 1 stpp with pc := .service } (gs ++ [stpp]) [] ps := by
  have hmoved := Q.moved
  have hget := Q.get
  have hbound := Q.bound
  have hnodup := Q.nodup
  have hlive := Q.live
  have hadding := Q.adding
  have horder := Q.order
  rw [Sys.MovedAt, hpc] at hmoved
  rw [Sys.GetAt, hpc] at hget
  rw [Sys.BoundAt, hpc] at hbound
  rw [hpc] at hnodup hlive hadding horder
  have hfs : fs = [] := hmoved
  subst hfs
  have hget' : Tailed s.next s.dpl.stdGet s.dpl.stdGetp gs ∧ s.dpl.stdCount = gs.length := hget
  have hnodup' : (gs ++ ([stpp] ++ ps)).Nodup := hnodup
  have hdisj := List.nodup_append.mp hnodup'
  have hchain : Chain s.next (some stpp) ([] ++ [stpp]) := ⟨rfl, (hadding stpp List.mem_cons_self).1⟩
  obtain ⟨e1, e2, e3, e4, e5, e6, e7, e8, e9⟩ := setLink_frame s.dpl.stdGetp (some stpp) s
  simp only [Prod.mk.injEq] at e6
  rw [hget'.1.tail_eq] at e1
  have hkeep : ∀ q ∈ ps, (s.setLink s.dpl.stdGetp (some stpp)).next q = s.next q := by
    intro q hq
    rw [hget'.1.tail_eq, e1]
    exact writeNext_of_notMem fun h => hdisj.2.2 q h q (List.mem_append_right _ hq) rfl
  refine ⟨?_, ?_, ?_, e3 ps Q.depths, ?_, nofun, ?_, rfl, ?_, ?_, ?_⟩
  · change (gs ++ [stpp] ++ ([] ++ ([] ++ ps))).Nodup
    rw [List.append_assoc]
    exact hnodup'
  · intro q hq
    change q ∈ gs ++ [stpp] ++ ([] ++ ([] ++ ps)) at hq
    rw [List.append_assoc] at hq
    exact (congrArg (q ∈ ·) e5).mpr (hlive q hq)
  · change Chain (s.setLink s.dpl.stdGetp (some stpp)).next (s.setLink s.dpl.stdGetp (some stpp)).dpl.stdPut ps
    rw [e6.1]
    exact Q.put.congr hkeep
  · exact Q.putLe.trans_eq (congrArg (· - 1) e6.2.2.symm)
  · exact tailed_appendGet hget' hchain rfl fun q hq hq' => hdisj.2.2 q hq q (List.mem_append_left _ hq') rfl
  · change (gs ++ [stpp]).length + 0 ≤ (s.setLink s.dpl.stdGetp (some stpp)).dpl.getPktLimit +
      ((s.setLink s.dpl.stdGetp (some stpp)).dpl.putPktLimit - 1)
    rw [e6.2.1, e6.2.2, List.length_append]
    exact hbound
  · change (s.setLink s.dpl.stdGetp (some stpp)).entered.map some = _ ++
      (gs ++ [stpp] ++ ([] ++ ([] ++ ps.reverse))).map _
    rw [e7, List.append_assoc]
    exact horder.trans (congrArg₂ _ (congrArg _ e8.symm) (List.map_congr_left fun q _ => (e4 q).symm))
  · change (s.setLink s.dpl.stdGetp (some stpp)).sent.Sublist (s.setLink s.dpl.stdGetp (some stpp)).taken
    rw [e8, e9]
    exact Q.sent

/-! ### Taking packets off the get list -/

/-- No packet is being moved or added. -/
def Pc.Plain : Pc → Prop
  | .swizzle (.add _) => False
  | .reverse _ _ _ _ _ => False
  | .splice _ _ _ _ => False
  | .tail _ => False
  | _ => True

/-- `Queued` without the get list's fields, at a point where no packet is being moved or added. -/
structure Core (s : Sys) (gs ps : List ℕ) : Prop where
  nodup : (gs ++ ps).Nodup
  live : ∀ p ∈ gs ++ ps, p ∈ s.live
  put : Chain s.next s.dpl.stdPut ps
  depths : Depths s.pkt ps
  putLe : ps.length ≤ s.dpl.putPktLimit - 1
  bound : gs.length ≤ s.dpl.getPktLimit + (s.dpl.putPktLimit - 1)
  order : s.entered.map some = s.taken.map some ++ (gs ++ ps.reverse).map fun p => (s.pkt p).stpMp
  sent : s.sent.Sublist s.taken

theorem plain_inv {pc : Pc} (h : pc.Plain) : pc.adding = [] ∧ pc.entering = [] := by
  cases pc with
  | swizzle k =>
    cases k with
    | add stpp => exact h.elim
    | service => exact ⟨rfl, rfl⟩
    | flush => exact ⟨rfl, rfl⟩
  | reverse => exact h.elim
  | splice => exact h.elim
  | tail => exact h.elim
  | _ => exact ⟨rfl, rfl⟩

theorem plain_moved (h : s.pc.Plain) : s.MovedAt fs ↔ fs = [] := by
  unfold Sys.MovedAt
  cases hpc : s.pc with
  | reverse => rw [hpc] at h; exact h.elim
  | splice => rw [hpc] at h; exact h.elim
  | _ => exact Iff.rfl

theorem plain_bound (h : s.pc.Plain) :
    s.BoundAt gs fs ↔ gs.length ≤ s.dpl.getPktLimit + (s.dpl.putPktLimit - 1) := by
  unfold Sys.BoundAt
  cases hpc : s.pc with
  | swizzle k =>
    rw [hpc] at h
    cases k with
    | add stpp => exact h.elim
    | service => exact Iff.rfl
    | flush => exact Iff.rfl
  | reverse => rw [hpc] at h; exact h.elim
  | splice => rw [hpc] at h; exact h.elim
  | tail => rw [hpc] at h; exact h.elim
  | _ => exact Iff.rfl

theorem Queued.core (Q : Queued s gs fs ps) (hpc : s.pc.Plain) : fs = [] ∧ Core s gs ps := by
  obtain ⟨h1, h2⟩ := plain_inv hpc
  have hfs : fs = [] := (plain_moved hpc).mp Q.moved
  subst hfs
  have hnodup := Q.nodup
  have hlive := Q.live
  have horder := Q.order
  rw [h1] at hnodup hlive
  rw [h2] at horder
  exact ⟨rfl, hnodup, hlive, Q.put, Q.depths, Q.putLe, (plain_bound hpc).mp Q.bound, horder, Q.sent⟩

theorem Core.queued (C : Core s gs ps) (hpc : s.pc.Plain) (hget : s.GetAt gs) : Queued s gs [] ps := by
  obtain ⟨h1, h2⟩ := plain_inv hpc
  refine ⟨?_, ?_, C.put, C.depths, C.putLe, ?_, hget, (plain_moved hpc).mpr rfl, (plain_bound hpc).mpr C.bound,
    ?_, C.sent⟩
  · rw [h1]
    exact C.nodup
  · rw [h1]
    exact C.live
  · rw [h1]
    exact nofun
  · rw [h2]
    exact C.order

theorem Queued.whole (Q : Queued s gs fs ps) (hpc : s.pc.taking = none) :
    Tailed s.next s.dpl.stdGet s.dpl.stdGetp gs ∧ s.dpl.stdCount = gs.length := by
  have hget := Q.get
  rw [Sys.GetAt, hpc] at hget
  exact hget

theorem Queued.part (Q : Queued s gs fs ps) {p : Option ℕ} {count : ℕ} (hpc : s.pc.taking = some (p, count)) :
    Chain s.next p gs ∧ count = gs.length ∧ (gs ≠ [] → s.dpl.stdGetp = lastLink gs) := by
  have hget := Q.get
  rw [Sys.GetAt, hpc] at hget
  exact hget

/-- The holder of the lock goes on with the whole get list. -/
theorem Queued.goto (Q : Queued s gs fs ps) {s' : Sys}
    (hs' : s' = ⟨s.pkt, s.live, s.dpl, s'.rs, s'.pc, s'.evq, s.entered, s.taken, s.sent⟩)
    (hpc : s.pc.Plain) (htak : s.pc.taking = none) (hpc' : s'.pc.Plain)
    (htak' : s'.pc.taking = none) : Queued s' gs [] ps := by
  obtain ⟨rfl, C⟩ := Q.core hpc
  have hget := Q.whole htak
  rw [hs']
  refine Core.queued ⟨C.nodup, C.live, C.put, C.depths, C.putLe, C.bound, C.order, C.sent⟩ hpc' ?_
  rw [Sys.GetAt, htak']
  exact hget

/-- The holder of the lock goes on with what is left of the get list. -/
theorem Queued.goon (Q : Queued s gs fs ps) {s' : Sys}
    (hs' : s' = ⟨s.pkt, s.live, s.dpl, s'.rs, s'.pc, s'.evq, s.entered, s.taken, s.sent⟩)
    (hpc : s.pc.Plain) (htak : s.pc.taking ≠ none) (hpc' : s'.pc.Plain)
    (htak' : s'.pc.taking = s.pc.taking) : Queued s' gs [] ps := by
  obtain ⟨rfl, C⟩ := Q.core hpc
  obtain ⟨⟨p, count⟩, htak⟩ := Option.ne_none_iff_exists'.mp htak
  have hget := Q.part htak
  rw [hs']
  refine Core.queued ⟨C.nodup, C.live, C.put, C.depths, C.putLe, C.bound, C.order, C.sent⟩ hpc' ?_
  rw [Sys.GetAt, htak', htak]
  exact hget

/-- A function starts to take packets off. -/
theorem Queued.take (Q : Queued s gs fs ps) {s' : Sys}
    (hs' : s' = ⟨s.pkt, s.live, s.dpl, s'.rs, s'.pc, s'.evq, s.entered, s.taken, s.sent⟩)
    (hpc : s.pc.Plain) (htak : s.pc.taking = none) (hpc' : s'.pc.Plain)
    (htak' : s'.pc.taking = some (s.dpl.stdGet, s.dpl.stdCount)) : Queued s' gs [] ps := by
  obtain ⟨rfl, C⟩ := Q.core hpc
  have hget := Q.whole htak
  rw [hs']
  refine Core.queued ⟨C.nodup, C.live, C.put, C.depths, C.putLe, C.bound, C.order, C.sent⟩ hpc' ?_
  rw [Sys.GetAt, htak']
  exact ⟨hget.1.chain, hget.2, fun _ => hget.1.tail_eq⟩

/-- **Take.**  The first packet leaves the list. -/
theorem Queued.split (Q : Queued s gs fs ps) {p count : ℕ} (hpc : s.pc.Plain)
    (htak : s.pc.taking = some (some p, count)) (hmp : (s.pkt p).stpMp = some mp) {s' : Sys}
    (hs' : s' = { s.split p mp with rs := s'.rs, pc := s'.pc, sent := s'.sent })
    (hpc' : s'.pc.Plain) (htak' : s'.pc.taking = some (s.next p, count - 1))
    (hsent : s'.sent.Sublist (s.taken ++ [mp])) : ∃ gs', gs = p :: gs' ∧ Queued s' gs' [] ps := by
  obtain ⟨rfl, C⟩ := Q.core hpc
  obtain ⟨hchain, hcount, hgetp⟩ := Q.part htak
  obtain ⟨gs, rfl, hrest⟩ := hchain.eq_cons
  have hnodup := C.nodup
  rw [List.cons_append, List.nodup_cons] at hnodup
  have hgs : p ∉ gs := fun h => hnodup.1 (List.mem_append_left _ h)
  have hps : p ∉ ps := fun h => hnodup.1 (List.mem_append_right _ h)
  have hnext : ∀ q, q ≠ p → (s.split p mp).next q = s.next q := by
    intro q hq
    change (s.setPkt p .blank).next q = _
    rw [next_setPkt, Function.update_of_ne hq]
  refine ⟨gs, rfl, ?_⟩
  rw [hs']
  refine Core.queued ⟨hnodup.2, ?_, ?_, ?_, C.putLe, ?_, ?_, hsent⟩ hpc' ?_
  · intro q hq
    exact (List.mem_erase_of_ne (ne_of_mem_of_not_mem hq hnodup.1)).mpr (C.live q (List.mem_cons_of_mem _ hq))
  · exact C.put.congr fun q hq => hnext q (ne_of_mem_of_not_mem hq hps)
  · exact depths_update C.depths hps
  · have := C.bound
    rw [List.length_cons] at this
    exact (Nat.le_succ _).trans this
  · have horder := C.order
    rw [List.cons_append, List.map_cons, hmp] at horder
    change s.entered.map some = (s.taken ++ [mp]).map some ++
      (gs ++ ps.reverse).map fun q => (Function.update s.pkt p .blank q).stpMp
    rw [map_mp_update (by simp [hgs, hps]), horder]
    simp
  · rw [Sys.GetAt, htak']
    refine ⟨hrest.congr fun q hq => hnext q (ne_of_mem_of_not_mem hq hgs), by rw [hcount]; rfl, fun hne => ?_⟩
    refine (hgetp (by simp)).trans ?_
    obtain ⟨g, gs, rfl⟩ := List.exists_cons_of_ne_nil hne
    simp [lastLink]

/-- What is left of the list is put back. -/
theorem Queued.drainEnd (Q : Queued s gs fs ps) {p : Option ℕ} {count : ℕ} {pushed : U32}
    (hpc : s.pc.Plain) (htak : s.pc.taking = some (p, count)) :
    Queued (s.drainEnd p count pushed) gs [] ps := by
  obtain ⟨rfl, C⟩ := Q.core hpc
  obtain ⟨hchain, hcount, hgetp⟩ := Q.part htak
  have hpush : ∀ s' : Sys, Queued s' gs [] ps → Queued (s'.push pushed) gs [] ps := by
    intro s' Q'
    unfold Sys.push
    split_ifs
    · exact Q'.congr rfl rfl rfl rfl rfl rfl rfl
    · exact Q'
  refine hpush _ ?_
  by_cases h0 : count = 0
  · rw [if_pos h0]
    have hnil : gs = [] := List.length_eq_zero_iff.mp (hcount.symm.trans h0)
    subst hnil
    exact Core.queued ⟨C.nodup, C.live, C.put, C.depths, C.putLe, C.bound, C.order, C.sent⟩ trivial
      ⟨Tailed.empty, rfl⟩
  · rw [if_neg h0]
    have hne : gs ≠ [] := by
      rintro rfl
      exact h0 hcount
    exact Core.queued ⟨C.nodup, C.live, C.put, C.depths, C.putLe, C.bound, C.order, C.sent⟩ trivial
      ⟨⟨hchain, hgetp hne⟩, hcount⟩

/-! ### Steps -/

theorem queued_drainOne {f : Bool → Bool → Txq.Fragments} {p count : ℕ} {pushed : U32}
    (Q : Queued s gs fs ps) (hpc : s.pc = .drain (some p) count pushed)
    (hs : s.drainOne f p count pushed = some s') : ∃ gs', gs = p :: gs' ∧ Queued s' gs' [] ps := by
  obtain ⟨mp, hmp, hs⟩ := Option.bind_eq_some_iff.mp hs
  obtain ⟨rs, hrs, hs⟩ := Option.map_eq_some_iff.mp hs
  have hplain : s.pc.Plain := by rw [hpc]; trivial
  have htak : s.pc.taking = some (some p, count) := by rw [hpc]; rfl
  split_ifs at hs
  · subst hs
    exact Q.split hplain htak hmp rfl trivial rfl (Q.sent.trans (List.sublist_append_left _ _))
  · subst hs
    exact Q.split hplain htak hmp rfl trivial rfl (Q.sent.append (List.Sublist.refl _))

theorem queued_discardOne {p count : ℕ} (Q : Queued s gs fs ps) (hpc : s.pc = .discard (some p) count)
    (hs : s.discardOne p count = some s') : ∃ gs', gs = p :: gs' ∧ Queued s' gs' [] ps := by
  obtain ⟨mp, hmp, hs⟩ := Option.bind_eq_some_iff.mp hs
  obtain ⟨rs, hrs, rfl⟩ := Option.map_eq_some_iff.mp hs
  exact Q.split (by rw [hpc]; trivial) (by rw [hpc]; rfl) hmp rfl trivial rfl
    (Q.sent.trans (List.sublist_append_left _ _))

/-- A step of the holder of the lock. -/
theorem queued_hold {f : Bool → Bool → Txq.Fragments} (Q : Queued s gs fs ps) (hs : s.hold f = some s') :
    ∃ gs' fs' ps', Queued s' gs' fs' ps' := by
  unfold Sys.hold at hs
  cases hpc : s.pc with
  | free =>
    rw [hpc] at hs
    cases hs
  | swizzle k =>
    rw [hpc] at hs
    cases hs
    obtain ⟨-, Q'⟩ | ⟨-, Q'⟩ := queued_swizzle Q hpc <;> exact ⟨_, _, _, Q'⟩
  | reverse stpp p count pp k =>
    rw [hpc] at hs
    cases hs
    exact ⟨gs, fs, ps, queued_reverse Q hpc⟩
  | splice p count pp k =>
    rw [hpc] at hs
    cases hs
    exact ⟨_, _, _, (queued_splice Q hpc).swizzled⟩
  | tail stpp =>
    rw [hpc] at hs
    cases hs
    have hfs : fs = [] := by
      have := Q.moved
      rw [Sys.MovedAt, hpc] at this
      exact this
    subst hfs
    exact ⟨_, _, _, queued_tail Q hpc⟩
  | service =>
    rw [hpc] at hs
    cases hs
    refine ⟨_, _, _, Q.goto rfl (by rw [hpc]; trivial) (by rw [hpc]; rfl) ?_ ?_⟩
    · dsimp only
      split_ifs <;> trivial
    · dsimp only
      split_ifs <;> rfl
  | unblocked =>
    rw [hpc] at hs
    cases hs
    split_ifs
    · exact ⟨_, _, _, Q.take rfl (by rw [hpc]; trivial) (by rw [hpc]; rfl) trivial rfl⟩
    · exact ⟨_, _, _, Q.goto rfl (by rw [hpc]; trivial) (by rw [hpc]; rfl) trivial rfl⟩
  | drain stpp count pushed =>
    rw [hpc] at hs
    dsimp only at hs
    split_ifs at hs with h0
    · cases hs
      exact ⟨_, _, _, Q.drainEnd (by rw [hpc]; trivial) (by rw [hpc]; rfl)⟩
    · obtain ⟨p, rfl, hs⟩ := Option.bind_eq_some_iff.mp hs
      obtain ⟨gs', -, Q'⟩ := queued_drainOne Q hpc hs
      exact ⟨_, _, _, Q'⟩
  | post k =>
    rw [hpc] at hs
    obtain ⟨rs, hrs, hs⟩ := Option.map_eq_some_iff.mp hs
    cases k with
    | qunblock =>
      split_ifs at hs <;> subst hs
      · exact ⟨_, _, _, Q.goto rfl (by rw [hpc]; trivial) (by rw [hpc]; rfl) trivial rfl⟩
      · exact ⟨_, _, _, Q.congr rfl rfl rfl rfl rfl rfl rfl⟩
    | drain stpp count pushed =>
      split_ifs at hs <;> subst hs
      · exact ⟨_, _, _, Q.goon rfl (by rw [hpc]; trivial) (by rw [hpc]; simp [Pc.taking]) trivial
          (by rw [hpc]; rfl)⟩
      · exact ⟨_, _, _, Q.congr rfl rfl rfl rfl rfl rfl rfl⟩
  | posted stpp count pushed =>
    rw [hpc] at hs
    cases hs
    unfold Sys.posted
    split_ifs
    · exact ⟨_, _, _, Q.drainEnd (by rw [hpc]; trivial) (by rw [hpc]; rfl)⟩
    · exact ⟨_, _, _, Q.goon rfl (by rw [hpc]; trivial) (by rw [hpc]; simp [Pc.taking]) trivial
        (by rw [hpc]; rfl)⟩
    · exact ⟨_, _, _, Q.goon rfl (by rw [hpc]; trivial) (by rw [hpc]; simp [Pc.taking]) trivial
        (by rw [hpc]; rfl)⟩
  | discard stpp count =>
    rw [hpc] at hs
    dsimp only at hs
    have hplain : s.pc.Plain := by rw [hpc]; trivial
    have htak : s.pc.taking = some (stpp, count) := by rw [hpc]; rfl
    split_ifs at hs with h0
    · cases hs
      obtain ⟨rfl, C⟩ := Q.core hplain
      have hnil : gs = [] := List.length_eq_zero_iff.mp ((Q.part htak).2.1.symm.trans h0)
      subst hnil
      exact ⟨_, _, _, Core.queued ⟨C.nodup, C.live, C.put, C.depths, C.putLe, C.bound, C.order, C.sent⟩ trivial
        ⟨Tailed.empty, rfl⟩⟩
    · obtain ⟨p, rfl, hs⟩ := Option.bind_eq_some_iff.mp hs
      obtain ⟨gs', -, Q'⟩ := queued_discardOne Q hpc hs
      exact ⟨_, _, _, Q'⟩
  | exit =>
    rw [hpc] at hs
    cases hs
    exact ⟨_, _, _, Q.goto rfl (by rw [hpc]; trivial) (by rw [hpc]; rfl) trivial rfl⟩

/-- **Step.** -/
theorem queued_step {op : Op} (Q : Queued s gs fs ps) (hs : step op s = some s') :
    ∃ gs' fs' ps', Queued s' gs' fs' ps' := by
  cases op with
  | add stpp mp mss =>
    rw [step, Option.ite_none_left_eq_some] at hs
    obtain ⟨hlive, ⟨⟩⟩ := hs
    obtain ⟨ps', Q'⟩ := queued_add Q hlive
    exact ⟨_, _, _, Q'⟩
  | addLocked stpp mp mss =>
    rw [step, Option.ite_none_left_eq_some, not_or, not_not] at hs
    obtain ⟨⟨hpc, hlive⟩, ⟨⟩⟩ := hs
    exact ⟨_, _, _, queued_addLocked Q hpc hlive⟩
  | service =>
    rw [step, Option.ite_none_left_eq_some, not_not] at hs
    obtain ⟨hpc, ⟨⟩⟩ := hs
    exact ⟨_, _, _, Q.goto rfl (by rw [hpc]; trivial) (by rw [hpc]; rfl) trivial rfl⟩
  | flushList =>
    rw [step, Option.ite_none_left_eq_some, not_not] at hs
    obtain ⟨hpc, ⟨⟩⟩ := hs
    exact ⟨_, _, _, Q.goto rfl (by rw [hpc]; trivial) (by rw [hpc]; rfl) trivial rfl⟩
  | qunblock =>
    rw [step, Option.ite_none_left_eq_some, not_or, not_not] at hs
    obtain ⟨⟨hpc, -⟩, ⟨⟩⟩ := hs
    have hplain : s.pc.Plain := by rw [hpc]; trivial
    have htak : s.pc.taking = none := by rw [hpc]; rfl
    unfold Sys.qunblock
    dsimp only
    split_ifs
    · exact ⟨_, _, _, Q.goto rfl hplain htak trivial rfl⟩
    · split
      · exact ⟨_, _, _, Q.goto rfl hplain htak trivial rfl⟩
      · exact ⟨_, _, _, Q.goto rfl hplain htak trivial rfl⟩
  | flush st =>
    rw [step, Option.ite_none_left_eq_some] at hs
    obtain ⟨rs, -, rfl⟩ := Option.map_eq_some_iff.mp hs.2
    exact ⟨_, _, _, Q.congr rfl rfl rfl rfl rfl rfl rfl⟩
  | hold f => exact queued_hold Q hs
  | evTx id =>
    rw [step, Option.ite_none_left_eq_some] at hs
    obtain ⟨rs, -, rfl⟩ := Option.map_eq_some_iff.mp hs.2
    exact ⟨_, _, _, Q.congr rfl rfl rfl rfl rfl rfl rfl⟩
  | qcomplete =>
    rw [step, Sys.qcomplete] at hs
    split at hs
    · obtain ⟨rs, -, rfl⟩ := Option.map_eq_some_iff.mp hs
      exact ⟨_, _, _, Q.congr rfl rfl rfl rfl rfl rfl rfl⟩
    · obtain ⟨rs, -, rfl⟩ := Option.map_eq_some_iff.mp hs
      exact ⟨_, _, _, Q.congr rfl rfl rfl rfl rfl rfl rfl⟩
    · cases hs
      exact ⟨_, _, _, Q.congr rfl rfl rfl rfl rfl rfl rfl⟩
    · cases hs
      exact ⟨_, _, _, Q.congr rfl rfl rfl rfl rfl rfl rfl⟩
    · cases hs
    · cases hs

theorem queued_reachable (h : Reach Started Step s) : ∃ gs fs ps, Queued s gs fs ps := by
  refine h.inv (fun s => ∃ gs fs ps, Queued s gs fs ps) ?_ ?_
  · rintro s ⟨pkt, get, put, d, rfl⟩
    exact ⟨[], [], [], List.nodup_nil, nofun, rfl, trivial, Nat.zero_le _, nofun, ⟨Tailed.empty, rfl⟩, rfl,
      Nat.zero_le _, rfl, List.Sublist.refl _⟩
  · rintro s s' ⟨gs, fs, ps, Q⟩ ⟨op, hs⟩
    exact queued_step Q hs

/-! ### The deferred packet list -/

theorem Queued.total (Q : Queued s gs fs ps) : gs.length + fs.length + s.pc.adding.length + ps.length ≤
    s.dpl.getPktLimit + 2 * (s.dpl.putPktLimit - 1) := by
  have hput := Q.putLe
  have hbound := Q.bound
  have hmoved := Q.moved
  have hadd : ∀ k : SwizzleFor, k.adding.length ≤ 1 := by
    intro k
    cases k <;> simp [SwizzleFor.adding]
  by_cases hplain : s.pc.Plain
  · obtain ⟨rfl, C⟩ := Q.core hplain
    have hlen := C.bound
    rw [(plain_inv hplain).1]
    simp only [List.length_nil]
    omega
  · unfold Sys.BoundAt at hbound
    unfold Sys.MovedAt at hmoved
    cases hpc : s.pc with
    | swizzle k =>
      rw [hpc] at hbound hmoved hplain
      have hfs : fs = [] := hmoved
      subst hfs
      cases k with
      | add stpp =>
        have hlt : gs.length < s.dpl.getPktLimit := hbound
        simp only [Pc.adding, SwizzleFor.adding, List.length_nil, List.length_singleton]
        omega
      | service => exact absurd trivial hplain
      | flush => exact absurd trivial hplain
    | reverse _ _ _ _ k =>
      rw [hpc] at hbound
      have := hadd k
      have h1 := hbound.1
      have h2 := hbound.2
      rw [Pc.adding]
      omega
    | splice _ _ _ k =>
      rw [hpc] at hbound
      have := hadd k
      have h1 := hbound.1
      have h2 := hbound.2
      rw [Pc.adding]
      omega
    | tail stpp =>
      rw [hpc] at hbound hmoved
      have hfs : fs = [] := hmoved
      subst hfs
      have hle : gs.length + 1 ≤ s.dpl.getPktLimit + (s.dpl.putPktLimit - 1) := hbound
      simp only [Pc.adding, List.length_nil, List.length_singleton]
      omega
    | _ =>
      rw [hpc] at hplain
      exact absurd trivial hplain

/-- With the packets `gs` on the get list, `fs` between the lists and `ps` on the put list, latest first:
the get list is well formed, there are at most the get limit and twice the put limit less two of them, and
the packets added are, in order, those taken off the lists and these; those passed to the ring are among
the former, in order. -/
def Sys.InOrder (s : Sys) : Prop := ∃ gs fs ps,
  (s.GetAt gs ∧ s.MovedAt fs ∧ Chain s.next s.dpl.stdPut ps) ∧
    gs.length + fs.length + s.pc.adding.length + ps.length ≤
      s.dpl.getPktLimit + 2 * (s.dpl.putPktLimit - 1) ∧
    (gs ++ (fs ++ (s.pc.adding ++ ps))).Nodup ∧
    s.entered.map some = s.taken.map some ++
      (gs ++ (fs ++ (s.pc.entering ++ ps.reverse))).map (fun p => (s.pkt p).stpMp) ∧
    s.sent.Sublist s.taken

/-- **Deferred packet list.** -/
theorem order_reachable (h : Reach Started Step s) : s.InOrder := by
  obtain ⟨gs, fs, ps, Q⟩ := queued_reachable h
  exact ⟨gs, fs, ps, ⟨Q.get, Q.moved, Q.put⟩, Q.total, Q.nodup, Q.order, Q.sent⟩

/-- A queue with the limits 1 and 3. -/
def smallQueue : Sys := .started (fun _ => .blank) 1 3 0

/-- A packet of one descriptor, mapped. -/
def oneFragment (_ _ : Bool) : Txq.Fragments := ⟨none, 1, [⟨0, none⟩], [], Txq.one_le_limit⟩

/-- One packet is added with the lock, two while it waits for the put list to be swizzled and two after
that. -/
def crowd : List Op :=
  [.addLocked 3 3 0, .add 1 1 0, .add 2 2 0, .hold oneFragment, .hold oneFragment, .hold oneFragment,
    .hold oneFragment, .hold oneFragment, .add 4 4 0, .add 5 5 0]

theorem reach_crowd (h : runOps step crowd smallQueue = some s) : Reach Started Step s :=
  Reach.runOps (fun op _ _ _ hs => ⟨op, hs⟩) (.start ⟨_, _, _, _, rfl⟩) h

theorem order_crowd : ∃ s, runOps step crowd smallQueue = some s ∧ s.InOrder := by
  obtain ⟨s, hs⟩ : ∃ s, runOps step crowd smallQueue = some s := ⟨_, rfl⟩
  exact ⟨s, hs, order_reachable (reach_crowd hs)⟩

/-- Five packets are on the lists: three on the get list and two on the put list. -/
theorem crowd_total : ¬ ∀ s, Reach Started Step s →
    s.dpl.stdCount + (s.putLen - 1) ≤ s.dpl.getPktLimit + s.dpl.putPktLimit := by
  intro h
  obtain ⟨s, hs⟩ : ∃ s, runOps step crowd smallQueue = some s := ⟨_, rfl⟩
  have hle := h s (reach_crowd hs)
  have hval : s.dpl.stdCount = 3 ∧ s.putLen = 3 ∧ s.dpl.getPktLimit = 1 ∧ s.dpl.putPktLimit = 3 := by
    cases hs
    exact ⟨rfl, rfl, rfl, rfl⟩
  omega

end Sfxge.Tx
