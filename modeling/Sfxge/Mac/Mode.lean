import Sfxge.Mac.Mac

/-!
# Mac.Mode — the receive mode and the multicast list over runs

`filterApply_eq` says once what the way to the port can do: with the old mode back in place after a failure, the
port has the mode it was last configured with.  Starting the MAC never takes that way, and an operation that
changes nothing does not either; these are the conditions of `mode_in_step_iff`.
-/

namespace Sfxge.Mac

open Lib

namespace SfxgeMac

variable {s : SfxgeMac} {out : Outcome}

/-- The port has been configured with the mode `p`. -/
def configured (s : SfxgeMac) (p : Mode) : SfxgeMac := { s with port := p, applied := p }

@[simp] theorem configured_wanted (p : Mode) : (s.configured p).wanted = s.wanted := rfl

theorem configured_self (h : s.port = s.applied) : s.configured s.port = s := by
  obtain ⟨_, _, _, _, _, _, _, _, _⟩ := s
  cases h
  rfl

/-- What the calls of a filter update have to do for it to succeed. -/
def Applies (out : Outcome) (s : SfxgeMac) : Prop :=
  s.started = true → out .reconfigure = none ∧ (0 < s.port.mulcstAddrList.length → out .kmemAlloc = none) ∧
    out .multicastListSet = none

instance (out : Outcome) (s : SfxgeMac) : Decidable (Applies out s) := inferInstanceAs (Decidable (_ → _))

theorem efxMacFilterSet_eq (out : Outcome) (a m am b : Bool) :
    (out .reconfigure = none ∧ s.efxMacFilterSet out a m am b =
        (s.configured ⟨a, m, am, b, s.port.mulcstAddrList⟩, none)) ∨
      ∃ e, out .reconfigure = some e ∧ s.efxMacFilterSet out a m am b = (s, some e) := by
  unfold efxMacFilterSet
  cases hr : out .reconfigure with
  | none => exact Or.inl ⟨rfl, rfl⟩
  | some e => exact Or.inr ⟨e, rfl, rfl⟩

theorem efxMacMulticastListSet_eq (out : Outcome) (addrs : List EtherAddr) :
    (addrs.length ≤ mcastListMax ∧ (0 < s.port.mulcstAddrList.length → out .kmemAlloc = none) ∧
        out .multicastListSet = none ∧
        s.efxMacMulticastListSet out addrs = (s.configured { s.port with mulcstAddrList := addrs }, none)) ∨
      (¬ (addrs.length ≤ mcastListMax ∧ (0 < s.port.mulcstAddrList.length → out .kmemAlloc = none) ∧
        out .multicastListSet = none) ∧ ∃ e, s.efxMacMulticastListSet out addrs = (s, some e)) := by
  unfold efxMacMulticastListSet
  split_ifs with hmax halloc
  · exact Or.inr ⟨fun h => absurd h.1 (by omega), _, rfl⟩
  · exact Or.inr ⟨fun h => halloc.2 (h.2.1 halloc.1), _, rfl⟩
  · have halloc' : 0 < s.port.mulcstAddrList.length → out .kmemAlloc = none := by
      intro hpos
      by_contra hne
      exact halloc ⟨hpos, hne⟩
    cases hr : out .multicastListSet with
    | none => exact Or.inl ⟨by omega, halloc', rfl, rfl⟩
    | some e => exact Or.inr ⟨fun h => absurd h.2.2 nofun, e, rfl⟩

/-- **What `sfxge_mac_filter_apply` does**: nothing to a MAC that is not started; to one that is, it succeeds
exactly when its calls do and the list is not too long, and then the port has the mode that is wanted. -/
theorem filterApply_eq (h : s.port = s.applied) (out : Outcome) :
    ∃ p rc, s.filterApply out = (s.configured p, rc) ∧ (s.started = false → p = s.port) ∧
      (s.started = true → rc = none → p = s.wanted) ∧
      (s.mcast.length ≤ mcastListMax → (rc = none ↔ Applies out s)) := by
  unfold filterApply
  by_cases hs : s.started = true
  swap
  · rw [if_neg hs]
    exact ⟨s.port, none, by rw [configured_self h], fun _ => rfl, fun h' => absurd h' hs,
      fun _ => ⟨fun _ h' => absurd h' hs, fun _ => rfl⟩⟩
  rw [if_pos hs]
  have hnot : ¬ s.started = false := by rw [hs]; exact Bool.noConfusion
  rcases efxMacFilterSet_eq (s := s) out (s.promisc = .allPhys) (s.mcast.length > 0) (s.promisc ≠ .off) true with
    ⟨hr, he⟩ | ⟨e, hr, he⟩
  · rw [he]
    dsimp only
    rcases efxMacMulticastListSet_eq (s := s.configured ⟨_, _, _, _, s.port.mulcstAddrList⟩) out s.mcast with
      ⟨-, halloc, hset, he'⟩ | ⟨hfail, e, he'⟩
    · exact ⟨s.wanted, none, he', fun h' => absurd h' hnot, fun _ _ => rfl,
        fun _ => ⟨fun _ _ => ⟨hr, halloc, hset⟩, fun _ => rfl⟩⟩
    · exact ⟨_, some e, he', fun h' => absurd h' hnot, fun _ => nofun,
        fun hlen => ⟨nofun, fun ha => absurd ⟨hlen, (ha hs).2⟩ hfail⟩⟩
  · rw [he]
    exact ⟨s.port, some e, by rw [configured_self h], fun _ => rfl, fun _ => nofun,
      fun _ => ⟨nofun, fun ha => absurd (hr.symm.trans (ha hs).1) nofun⟩⟩

/-- The calls with which the MAC starts succeed. -/
def Starts (out : Outcome) (s : SfxgeMac) : Prop :=
  (∀ c ∈ [EfxCall.portInit, .phyCapApply, .pduSet, .fcntlSet, .addrSet], out c = none) ∧
    ∀ c ∈ (if s.statsTimerReqd then [] else [EfxCall.statsPeriodic]) ++ [EfxCall.drain], out c = none

instance (out : Outcome) (s : SfxgeMac) : Decidable (Starts out s) := inferInstanceAs (Decidable (_ ∧ _))

/-- Starting the MAC leaves its port alone. -/
theorem sfxgeMacStart_eq (hs : s.started = false) (out : Outcome) :
    (Starts out s ∧ s.sfxgeMacStart out = ({ s with started := true }, none)) ∨
      (¬ Starts out s ∧ ∃ e, s.sfxgeMacStart out = (s, some e)) := by
  have hskip : s.filterApply out = (s, none) := by rw [filterApply, if_neg (by rw [hs]; exact Bool.noConfusion)]
  unfold sfxgeMacStart
  cases h1 : [EfxCall.portInit, .phyCapApply, .pduSet, .fcntlSet, .addrSet].findSome? out with
  | some e =>
    refine Or.inr ⟨fun h => ?_, e, rfl⟩
    rw [List.findSome?_eq_none_iff.mpr h.1] at h1
    cases h1
  | none =>
    dsimp only
    rw [hskip]
    dsimp only
    cases h2 : ((if s.statsTimerReqd then [] else [EfxCall.statsPeriodic]) ++ [EfxCall.drain]).findSome? out with
    | some e =>
      refine Or.inr ⟨fun h => ?_, e, rfl⟩
      rw [List.findSome?_eq_none_iff.mpr h.2] at h2
      cases h2
    | none =>
      exact Or.inl ⟨⟨List.findSome?_eq_none_iff.mp h1, List.findSome?_eq_none_iff.mp h2⟩, rfl⟩

theorem removeAddr_eq_filter (addr : EtherAddr) (l : List EtherAddr) : removeAddr addr l = l.filter (· ≠ addr) := by
  induction l with
  | nil => rfl
  | cons a as ih =>
    rw [removeAddr, ih]
    by_cases h : a = addr
    · rw [if_pos h, List.filter_cons_of_neg (by simpa using h)]
    · rw [if_neg h, List.filter_cons_of_pos (by simpa using h)]

theorem mem_removeAddr {addr a : EtherAddr} {l : List EtherAddr} : a ∈ removeAddr addr l ↔ a ∈ l ∧ a ≠ addr := by
  rw [removeAddr_eq_filter, List.mem_filter, decide_eq_true_eq]

theorem removeAddr_of_not_mem {addr : EtherAddr} {l : List EtherAddr} (h : addr ∉ l) : removeAddr addr l = l := by
  rw [removeAddr_eq_filter, List.filter_eq_self]
  intro a ha
  rw [decide_eq_true_eq]
  rintro rfl
  exact h ha

end SfxgeMac

/-! ### Steps -/

open SfxgeMac

variable {s s' : SfxgeMac}

/-- The port has the mode it was last configured with. -/
def PortKept (s : SfxgeMac) : Prop := s.port = s.applied

/-- **What a step does**, to a MAC whose list has not overrun its array. -/
inductive Stepped : Op → SfxgeMac → SfxgeMac → Prop
  | startOk {s : SfxgeMac} {out : Outcome} : s.started = false → Starts out s →
      Stepped (.start out) s ({ s with started := true }.done none)
  | startErr {s : SfxgeMac} {out : Outcome} {e : Errno} : s.started = false → ¬ Starts out s →
      Stepped (.start out) s (s.done (some e))
  | stop {s : SfxgeMac} : Stepped .stop s (s.sfxgeMacStop.done none)
  | promiscSame {s : SfxgeMac} {out : Outcome} : Stepped (.promiscSet out s.promisc) s (s.done none)
  | promiscNew {s : SfxgeMac} {out : Outcome} {promisc : Promisc} {p : Mode} {rc : Option Errno} :
      s.promisc ≠ promisc → (s.started = true → rc = none → p = { s with promisc := promisc }.wanted) →
      Stepped (.promiscSet out promisc) s (({ s with promisc := promisc }.configured p).done rc)
  | addOld {s : SfxgeMac} {out : Outcome} {addr : EtherAddr} : addr ∈ s.mcast →
      Stepped (.multicstAdd out addr) s ((s.setMember addr true).done none)
  | addNew {s : SfxgeMac} {out : Outcome} {addr : EtherAddr} {p : Mode} {rc : Option Errno} :
      addr ∉ s.mcast → (s.started = true → rc = none → p = (s.append addr).wanted) →
      (s.mcast.length < mcastListMax → (rc = none ↔ Applies out s)) →
      Stepped (.multicstAdd out addr) s
        ((if rc = none then ((s.append addr).configured p).setMember addr true
          else (s.append addr).configured p).done rc)
  | remove {s : SfxgeMac} {out : Outcome} {addr : EtherAddr} {p : Mode} {rc : Option Errno} :
      (s.started = true → rc = none → p = (s.setMcast (removeAddr addr s.mcast)).wanted) →
      (s.mcast.length ≤ mcastListMax → (rc = none ↔ Applies out s)) →
      Stepped (.multicstRemove out addr) s
        ((if rc = none then ((s.setMcast (removeAddr addr s.mcast)).configured p).setMember addr false
          else (s.setMcast (removeAddr addr s.mcast)).configured p).done rc)

theorem length_removeAddr_le (addr : EtherAddr) (l : List EtherAddr) : (removeAddr addr l).length ≤ l.length := by
  rw [removeAddr_eq_filter]
  exact List.length_filter_le _ _

theorem stepped {o : Op} (hk : PortKept s) (h : step o s = some s') : s.overrun = false ∧ Stepped o s s' := by
  unfold step at h
  dsimp only at h
  by_cases hov : s.overrun = true
  · rw [if_pos hov] at h
    cases h
  rw [if_neg hov] at h
  refine ⟨by simpa using hov, ?_⟩
  cases o with
  | start out =>
    dsimp only at h
    split_ifs at h with hs
    have hs' : s.started = false := by simpa using hs
    rcases sfxgeMacStart_eq hs' out with ⟨hst, he⟩ | ⟨hst, e, he⟩
    · rw [he] at h
      cases h
      exact .startOk hs' hst
    · rw [he] at h
      cases h
      exact .startErr hs' hst
  | stop =>
    dsimp only at h
    split_ifs at h
    cases h
    exact .stop
  | promiscSet out promisc =>
    dsimp only at h
    unfold sfxgeMacPromiscSet at h
    by_cases hp : s.promisc = promisc
    · subst hp
      rw [if_pos rfl] at h
      cases h
      exact .promiscSame
    · rw [if_neg hp] at h
      obtain ⟨p, rc, he, -, hw, -⟩ := filterApply_eq (s := { s with promisc := promisc }) hk out
      rw [he] at h
      cases h
      exact .promiscNew hp hw
  | multicstAdd out addr =>
    dsimp only at h
    unfold sfxgeMacMulticstAdd at h
    by_cases ha : addr ∈ s.mcast
    · rw [if_pos ha] at h
      cases h
      exact .addOld ha
    · rw [if_neg ha] at h
      obtain ⟨p, rc, he, -, hw, hrc⟩ := filterApply_eq (s := s.append addr) hk out
      rw [he] at h
      cases h
      refine .addNew ha hw fun hlen => hrc ?_
      show (s.mcast ++ [addr]).length ≤ mcastListMax
      rw [List.length_append, List.length_singleton]
      exact hlen
  | multicstRemove out addr =>
    dsimp only at h
    unfold sfxgeMacMulticstRemove at h
    obtain ⟨p, rc, he, -, hw, hrc⟩ := filterApply_eq (s := s.setMcast (removeAddr addr s.mcast)) hk out
    rw [he] at h
    cases h
    exact .remove hw fun hlen => hrc (le_trans (length_removeAddr_le addr s.mcast) hlen)

theorem stepped_portKept {o : Op} (h : Stepped o s s') (hk : PortKept s) : PortKept s' := by
  cases h with
  | startOk => exact hk
  | startErr => exact hk
  | stop => exact hk
  | promiscSame => exact hk
  | promiscNew => rfl
  | addOld => exact hk
  | addNew => split_ifs <;> rfl
  | remove => split_ifs <;> rfl

theorem step_portKept (o : Op) (s s' : SfxgeMac) (hk : PortKept s) (h : step o s = some s') : PortKept s' :=
  stepped_portKept (stepped hk h).2 hk

/-! ### In step with the configuration -/

/-- The list has not overrun its array, and a started MAC whose last operation succeeded has its port in the mode
that is wanted. -/
def InMode (s : SfxgeMac) : Prop := s.overrun = false ∧ (s.started = true → s.rc = none → s.applied = s.wanted)

instance : DecidablePred InMode := fun _ => inferInstanceAs (Decidable (_ ∧ (_ → _ → _)))

/-- When an operation keeps the port in the wanted mode: a start that succeeds has to find it there, and so has,
with the MAC started, an operation that finds nothing to change; and an address more needs room. -/
def Fits : Op → SfxgeMac → Prop
  | .start out, s => Starts out s → s.applied = s.wanted
  | .stop, _ => True
  | .promiscSet _ promisc, s => s.promisc = promisc → s.started = true → s.applied = s.wanted
  | .multicstAdd _ addr, s =>
    if addr ∈ s.mcast then s.started = true → s.applied = s.wanted else s.mcast.length < mcastListMax
  | .multicstRemove _ _, _ => True

instance : ∀ o s, Decidable (Fits o s)
  | .start _, _ => inferInstanceAs (Decidable (_ → _))
  | .stop, _ => inferInstanceAs (Decidable True)
  | .promiscSet _ _, _ => inferInstanceAs (Decidable (_ → _ → _))
  | .multicstAdd _ addr, s => inferInstanceAs (Decidable
      (if addr ∈ s.mcast then s.started = true → s.applied = s.wanted else s.mcast.length < mcastListMax))
  | .multicstRemove _ _, _ => inferInstanceAs (Decidable True)

theorem inMode_setMember {c : Prop} [Decidable c] {x : SfxgeMac} {addr : EtherAddr} {member : Bool}
    {rc : Option Errno} : InMode ((if c then x.setMember addr member else x).done rc) ↔ InMode (x.done rc) := by
  split_ifs <;> rfl

theorem append_overrun (hov : s.overrun = false) (addr : EtherAddr) :
    (s.append addr).overrun = false ↔ s.mcast.length < mcastListMax := by
  show (s.overrun || decide (mcastListMax ≤ s.mcast.length)) = false ↔ _
  rw [hov, Bool.false_or, decide_eq_false_iff_not]
  omega

theorem inMode_iff {o : Op} (h : Stepped o s s') (hs : InMode s) : InMode s' ↔ Fits o s := by
  obtain ⟨hov, hmode⟩ := hs
  cases h with
  | startOk hstop hst =>
    constructor
    · exact fun h _ => h.2 rfl rfl
    · exact fun h => ⟨hov, fun _ _ => h hst⟩
  | startErr hstop hst =>
    refine iff_of_true ⟨hov, fun h => ?_⟩ fun h => absurd h hst
    cases hstop.symm.trans h
  | stop => exact iff_of_true ⟨hov, nofun⟩ trivial
  | promiscSame =>
    constructor
    · exact fun h _ hst => h.2 hst rfl
    · exact fun h => ⟨hov, fun hst _ => h rfl hst⟩
  | promiscNew hne hp =>
    refine iff_of_true ⟨hov, fun hst hrc => ?_⟩ fun h => absurd h hne
    exact hp hst hrc
  | addOld ha =>
    show _ ↔ if _ then _ else _
    rw [if_pos ha]
    constructor
    · exact fun h hst => h.2 hst rfl
    · exact fun h => ⟨hov, fun hst _ => h hst⟩
  | @addNew _ _ addr _ _ ha hp _ =>
    rw [inMode_setMember]
    show _ ↔ if _ then _ else _
    rw [if_neg ha]
    constructor
    · exact fun h => (append_overrun hov addr).mp h.1
    · exact fun h => ⟨(append_overrun hov addr).mpr h, hp⟩
  | remove hp =>
    rw [inMode_setMember]
    exact iff_of_true ⟨hov, hp⟩ trivial

/-- **The receive mode stays in step** with the configuration in exactly the runs whose steps all fit. -/
theorem mode_in_step_iff (timer : Bool) (os : List Op) :
    AlwaysAlong step InMode os (.init timer) ↔ StepsAlong step Fits os (.init timer) := by
  refine alwaysAlong_iff_of_inv step_portKept (fun o s s' hk hs h => ?_) os rfl ⟨rfl, nofun⟩
  exact inMode_iff (stepped hk h).2 hs

/-- The first start leaves broadcasts off. -/
theorem broadcasts_off : ¬ AlwaysAlong step InMode [.start fun _ => none] (.init false) := by
  intro h
  obtain ⟨s, hrun, hout⟩ : ∃ s, runOps step [.start fun _ => none] (.init false) = some s ∧ ¬ InMode s :=
    exists_of_any (by decide)
  exact hout (h.last hrun)

/-! ### The multicast list -/

/-- The list is a set that fits its array: that of the addresses which have been added. -/
def ListOk (s : SfxgeMac) : Prop :=
  s.overrun = false ∧ s.mcast.Nodup ∧ s.mcast.length ≤ mcastListMax ∧ ∀ addr, addr ∈ s.mcast ↔ s.members addr = true

/-- An operation that fails leaves the list as it was. -/
def ListKept (_ : Op) (s s' : SfxgeMac) : Prop := s'.rc ≠ none → s'.mcast = s.mcast

/-- When an operation treats the list well: one that edits it has to apply the new one without a failure, and
an address more needs room. -/
def Edits : Op → SfxgeMac → Prop
  | .multicstAdd out addr, s => addr ∈ s.mcast ∨ (s.mcast.length < mcastListMax ∧ Applies out s)
  | .multicstRemove out addr, s => addr ∈ s.mcast → Applies out s
  | _, _ => True

instance : ∀ o s, Decidable (Edits o s)
  | .start _, _ => inferInstanceAs (Decidable True)
  | .stop, _ => inferInstanceAs (Decidable True)
  | .promiscSet _ _, _ => inferInstanceAs (Decidable True)
  | .multicstAdd _ _, _ => inferInstanceAs (Decidable (_ ∨ (_ ∧ _)))
  | .multicstRemove _ _, _ => inferInstanceAs (Decidable (_ → _))

/-- Nothing about the list has changed. -/
theorem listOk_of_eq (hl : ListOk s) (hov : s'.overrun = s.overrun) (hmcast : s'.mcast = s.mcast)
    (hm : s'.members = s.members) : ListOk s' := by
  obtain ⟨h1, h2, h3, h4⟩ := hl
  exact ⟨hov.trans h1, hmcast ▸ h2, hmcast ▸ h3, fun addr => by rw [hmcast, hm, h4]⟩

theorem update_eq_true_iff {members : EtherAddr → Bool} {addr a : EtherAddr} {member : Bool} :
    Function.update members addr member a = true ↔ (a = addr ∧ member = true) ∨ (a ≠ addr ∧ members a = true) := by
  by_cases h : a = addr
  · subst h
    rw [Function.update_self]
    simp
  · rw [Function.update_of_ne h]
    simp [h]

theorem listOk_add {addr : EtherAddr} (hl : ListOk s) (ha : addr ∉ s.mcast) (hlen : s.mcast.length < mcastListMax)
    (hov : s'.overrun = false) (hmcast : s'.mcast = s.mcast ++ [addr])
    (hm : s'.members = Function.update s.members addr true) : ListOk s' := by
  obtain ⟨-, hnd, -, hmem⟩ := hl
  refine ⟨hov, ?_, ?_, fun a => ?_⟩
  · rw [hmcast]
    exact List.nodup_append.mpr ⟨hnd, List.nodup_singleton _, fun a h b hb => by
      rw [List.mem_singleton.mp hb]
      rintro rfl
      exact ha h⟩
  · rw [hmcast, List.length_append, List.length_singleton]
    exact hlen
  · rw [hmcast, hm, update_eq_true_iff, List.mem_append, List.mem_singleton, hmem]
    by_cases h : a = addr
    · simp [h]
    · simp [h]

theorem listOk_remove {addr : EtherAddr} (hl : ListOk s) (hov : s'.overrun = s.overrun)
    (hmcast : s'.mcast = removeAddr addr s.mcast) (hm : s'.members = Function.update s.members addr false) :
    ListOk s' := by
  obtain ⟨hov', hnd, hlen, hmem⟩ := hl
  refine ⟨hov.trans hov', ?_, ?_, fun a => ?_⟩
  · rw [hmcast, removeAddr_eq_filter]
    exact hnd.filter _
  · rw [hmcast]
    exact le_trans (length_removeAddr_le addr s.mcast) hlen
  · rw [hmcast, hm, update_eq_true_iff, mem_removeAddr, hmem, and_comm]
    simp

theorem listKept_iff {o : Op} (h : Stepped o s s') (hl : ListOk s) : ListKept o s s' ∧ ListOk s' ↔ Edits o s := by
  obtain ⟨hov, -, hlen, hmem⟩ := id hl
  cases h with
  | startOk => exact iff_of_true ⟨fun _ => rfl, listOk_of_eq hl rfl rfl rfl⟩ trivial
  | startErr => exact iff_of_true ⟨fun _ => rfl, listOk_of_eq hl rfl rfl rfl⟩ trivial
  | stop => exact iff_of_true ⟨fun _ => rfl, listOk_of_eq hl rfl rfl rfl⟩ trivial
  | promiscSame => exact iff_of_true ⟨fun _ => rfl, listOk_of_eq hl rfl rfl rfl⟩ trivial
  | promiscNew => exact iff_of_true ⟨fun _ => rfl, listOk_of_eq hl rfl rfl rfl⟩ trivial
  | @addOld _ out addr ha =>
    refine iff_of_true ⟨fun _ => rfl, listOk_of_eq hl rfl rfl ?_⟩ (Or.inl ha)
    exact Function.update_eq_self_iff.mpr ((hmem addr).mp ha).symm
  | @addNew _ out addr p rc ha hp hrc =>
    constructor
    · rintro ⟨hkept, hok⟩
      have hroom : s.mcast.length < mcastListMax := by
        have hov' := hok.1
        split_ifs at hov' <;> exact (append_overrun hov addr).mp hov'
      refine Or.inr ⟨hroom, (hrc hroom).mp ?_⟩
      by_contra hne
      have hlen' := congrArg List.length (hkept hne)
      rw [if_neg hne] at hlen'
      simp [done, configured, append] at hlen'
    · rintro (ha' | ⟨hroom, happ⟩)
      · exact absurd ha' ha
      · have hnone : rc = none := (hrc hroom).mpr happ
        subst hnone
        refine ⟨fun h => absurd rfl h, ?_⟩
        exact listOk_add hl ha hroom ((append_overrun hov addr).mpr hroom) rfl rfl
  | @remove _ out addr p rc hp hrc =>
    have hrc := hrc hlen
    constructor
    · rintro ⟨hkept, -⟩ ha
      refine hrc.mp ?_
      by_contra hne
      have hsame := hkept hne
      rw [if_neg hne] at hsame
      have hgone : addr ∈ removeAddr addr s.mcast := by
        rw [show removeAddr addr s.mcast = s.mcast from hsame]
        exact ha
      exact (mem_removeAddr.mp hgone).2 rfl
    · intro he
      by_cases hnone : rc = none
      · subst hnone
        exact ⟨fun h => absurd rfl h, listOk_remove hl rfl rfl rfl⟩
      · have ha : addr ∉ s.mcast := fun ha => hnone (hrc.mpr (he ha))
        rw [if_neg hnone]
        exact ⟨fun _ => removeAddr_of_not_mem ha, listOk_of_eq hl rfl (removeAddr_of_not_mem ha) rfl⟩

/-- **The list is well treated** in exactly the runs whose edits all can be applied and have room. -/
theorem list_represented_iff (timer : Bool) (os : List Op) :
    MeetsAlong step ListOk ListKept os (.init timer) ↔ StepsAlong step Edits os (.init timer) := by
  have h0 : ListOk (.init timer) := ⟨rfl, List.nodup_nil, Nat.zero_le _, by simp [SfxgeMac.init]⟩
  refine meetsAlong_iff step_portKept (fun o s s' hk hl h => ?_) os rfl h0
  exact listKept_iff (stepped hk h).2 hl

/-- An address that cannot be applied stays in the list. -/
theorem address_left_behind : ¬ MeetsAlong step ListOk ListKept
    [.start fun _ => none, .multicstAdd (fun _ => some Errno.EIO) (Vector.replicate 6 1)] (.init false) := by
  rintro ⟨-, h⟩
  obtain ⟨-, -, hadd⟩ := h _ rfl
  exact absurd ((hadd _ rfl).1 (by decide)) (by decide)

end Sfxge.Mac
