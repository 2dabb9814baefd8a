import Sfxge.Rx.Coalesce

/-!
# Rx.CoalesceRuns — coalescing over whole runs

Every packet that is received goes up once, by itself or joined to segments of its flow that it follows, and none is
left when a poll ends.  The packets of a flow go up in the order they came unless one overtakes: it cannot be merged,
and goes past what its flow holds.
-/

namespace Sfxge.Rx.Coalesce

open Lib Lro

variable {env : Env} {mode : CoalesceMode} {now : ℤ} {s s' : Lro} {p : Packet} {srfp : Option ℕ} {mps : List Packet}

/-- What has been received is on the chain or held. -/
structure Sound (env : Env) (s : Lro) : Prop where
  inv : Inv env s
  linked : Linked s
  conserved : Lanes.Conserved Packet.flow s.received (lanes env s)

theorem Inv.keyed (h : Inv env s) : Lanes.Keyed Packet.flow (lanes env s) := by
  intro k p hp
  cases k with
  | none => cases hp
  | some k =>
    simp only [lanes, held] at hp
    split_ifs at hp with hk
    · rw [((h.holds _).flow p hp).1, hk]
    · cases hp

theorem sound_ctor (env : Env) : Sound env ctor := by
  refine ⟨⟨fun i hi => absurd rfl hi, fun i => Flow.holds_nil rfl, fun m hm => by cases hm⟩,
    fun i => Flow.linked_nil rfl, fun k => ?_⟩
  have hheld : held env ctor k = [] := by
    cases k with
    | none => rfl
    | some k => exact ite_self _
  rw [Lanes.line, show (lanes env ctor).held k = [] from hheld, List.append_nil]
  exact List.Perm.refl _

/-! ### A poll -/

theorem Received.out_grows (h : Received env mode s p s') : (lanes env s).out <+: (lanes env s').out := by
  by_cases ho : Overtakes env mode s p
  · rw [h.overtakes ho]
    exact List.prefix_append ..
  · exact (h.orderly ho).out_grows

theorem Sound.received (h : Sound env s) (hr : Received env mode s p s') : Sound env s' := by
  refine ⟨hr.inv, hr.linked, ?_⟩
  rw [hr.received]
  by_cases ho : Overtakes env mode s p
  · rw [hr.overtakes ho]
    exact h.conserved.pass p
  · exact h.conserved.orderly h.inv.keyed (hr.orderly ho)

/-- The rounds of the loop. -/
def rounds (env : Env) (mode : CoalesceMode) (now : ℤ) (c : Option ℕ × Lro) (mps : List Packet) : Option ℕ × Lro :=
  mps.foldl (fun c p => Lro.round env mode now c.1 c.2 p) c

/-- No packet of the loop overtakes what its flow holds. -/
def Stays (env : Env) (mode : CoalesceMode) (now : ℤ) : Option ℕ × Lro → List Packet → Prop
  | _, [] => True
  | c, p :: ps => ¬ Overtakes env mode c.2 p ∧ Stays env mode now (Lro.round env mode now c.1 c.2 p) ps

instance decidableStays : ∀ c mps, Decidable (Stays env mode now c mps)
  | _, [] => isTrue trivial
  | c, p :: ps =>
    have := decidableStays (Lro.round env mode now c.1 c.2 p) ps
    inferInstanceAs (Decidable (_ ∧ _))

variable (mode now)

theorem Sound.rounds (h : Sound env s) (srfp : Option ℕ) (ha : ∀ p ∈ mps, p.Mergeable → p.Addressed) :
    let s' := (rounds env mode now (srfp, s) mps).2
    Sound env s' ∧ s'.received = s.received ++ mps ∧ (lanes env s).out <+: (lanes env s').out := by
  induction mps generalizing s srfp with
  | nil => exact ⟨h, by simp [Coalesce.rounds], List.prefix_refl _⟩
  | cons p ps ih =>
    have hr := h.inv.round mode now h.linked srfp (ha p List.mem_cons_self)
    obtain ⟨h1, h2, h3⟩ := ih (h.received hr) (Lro.round env mode now srfp s p).1
      fun q hq => ha q (List.mem_cons_of_mem _ hq)
    refine ⟨h1, h2.trans ?_, hr.out_grows.trans h3⟩
    rw [hr.received, List.append_assoc, List.singleton_append]

theorem Sound.rounds_inOrder (h : Sound env s) (ho : Lanes.InOrder Packet.flow s.received (lanes env s))
    (ha : ∀ p ∈ mps, p.Mergeable → p.Addressed) (hs : Stays env mode now (srfp, s) mps) :
    let s' := (Coalesce.rounds env mode now (srfp, s) mps).2
    Lanes.InOrder Packet.flow s'.received (lanes env s') := by
  induction mps generalizing s srfp with
  | nil => exact ho
  | cons p ps ih =>
    have hr := h.inv.round mode now h.linked srfp (ha p List.mem_cons_self)
    have ho' := ho.orderly h.inv.keyed (hr.orderly hs.1)
    rw [← hr.received] at ho'
    exact ih (h.received hr) ho' (fun q hq => ha q (List.mem_cons_of_mem _ hq)) hs.2

/-- The packets of each flow that are on the chain are those that were received first, in their order. -/
def Delivered (env : Env) (s : Lro) : Prop :=
  ∀ k, Lanes.ofKey Packet.flow k (lanes env s).out <+: Lanes.ofKey Packet.flow k s.received

/-- After a packet has overtaken, its flow is out of order for good. -/
theorem Sound.rounds_overtaken (h : Sound env s) (ho : Lanes.InOrder Packet.flow s.received (lanes env s))
    (ha : ∀ p ∈ mps, p.Mergeable → p.Addressed) (hn : (s.received ++ mps).Nodup)
    (hs : ¬ Stays env mode now (srfp, s) mps) :
    ∃ k, ¬ Lanes.ofKey Packet.flow k (lanes env (Coalesce.rounds env mode now (srfp, s) mps).2).out <+:
      Lanes.ofKey Packet.flow k (Coalesce.rounds env mode now (srfp, s) mps).2.received := by
  induction mps generalizing s srfp with
  | nil => exact absurd trivial hs
  | cons p ps ih =>
    have hr := h.inv.round mode now h.linked srfp (ha p List.mem_cons_self)
    have ha' : ∀ q ∈ ps, q.Mergeable → q.Addressed := fun q hq => ha q (List.mem_cons_of_mem _ hq)
    by_cases hover : Overtakes env mode s p
    · have hnew : p ∉ s.received := fun hp => List.disjoint_of_nodup_append hn hp List.mem_cons_self
      have hbad := ho.overtaken hover.2 hnew
      rw [← hr.overtakes hover, ← hr.received] at hbad
      obtain ⟨-, hrec, hout⟩ := (h.received hr).rounds mode now
        (Lro.round env mode now srfp s p).1 ha'
      refine ⟨p.flow, Lanes.not_prefix_mono hbad ((h.received hr).conserved.length_le _)
        (Lanes.ofKey_mono hout _) (Lanes.ofKey_mono ?_ _)⟩
      exact ⟨ps, hrec.symm⟩
    · have ho' := ho.orderly h.inv.keyed (hr.orderly hover)
      rw [← hr.received] at ho'
      have hn' : ((Lro.round env mode now srfp s p).2.received ++ ps).Nodup := by
        rwa [hr.received, List.append_assoc, List.singleton_append]
      exact ih (h.received hr) ho' ha' hn' fun hstays => hs ⟨hover, hstays⟩

/-- Completing the listed flows lets out all that is held. -/
theorem Inv.completeAll (h : Inv env s) (hlinked : Linked s) :
    Inv env s.completeAll ∧ (∀ i, (s.completeAll.srFlow i).srfMp = []) ∧ s.completeAll.received = s.received ∧
      (lanes env s).out <+: (lanes env s.completeAll).out ∧
      ∀ k, Lanes.line Packet.flow (lanes env s.completeAll) k = Lanes.line Packet.flow (lanes env s) k := by
  have hgen : ∀ (is : List ℕ) (s : Lro), Inv env s → (∀ i, (s.srFlow i).srfMp ≠ [] → i ∈ is) →
      Inv env (is.foldl Lro.qflowComplete s) ∧ (∀ i, ((is.foldl Lro.qflowComplete s).srFlow i).srfMp = []) ∧
      (is.foldl Lro.qflowComplete s).received = s.received ∧
      (lanes env s).out <+: (lanes env (is.foldl Lro.qflowComplete s)).out ∧
      ∀ k, Lanes.line Packet.flow (lanes env (is.foldl Lro.qflowComplete s)) k =
        Lanes.line Packet.flow (lanes env s) k := by
    intro is
    induction is with
    | nil =>
      intro s hI hin
      exact ⟨hI, fun i => not_not.mp fun hne => List.not_mem_nil (hin i hne), rfl, List.prefix_refl _, fun _ => rfl⟩
    | cons i is ih =>
      intro s hI hin
      obtain ⟨h1, hl1⟩ := hI.qflowComplete i
      have hin1 : ∀ j, ((s.qflowComplete i).srFlow j).srfMp ≠ [] → j ∈ is := by
        intro j hj
        rw [qflowComplete_srFlow] at hj
        by_cases hji : j = i
        · subst hji
          rw [Function.update_self] at hj
          exact absurd (Flow.emptied_srfMp _) hj
        · rw [Function.update_of_ne hji] at hj
          exact List.mem_of_ne_of_mem hji (hin j hj)
      obtain ⟨h2, h3, h4, h5, h6⟩ := ih (s.qflowComplete i) h1 hin1
      rw [hl1] at h5 h6
      exact ⟨h2, h3, h4.trans (qflowComplete_frame s i).received, (List.prefix_append ..).trans h5,
        fun k => (h6 k).trans (Lanes.line_flush hI.keyed _ k)⟩
  exact hgen s.srSrfp { s with srSrfp := [] } ⟨h.placed, h.holds, h.joined⟩ fun i => (hlinked i).2

/-- **A poll** keeps what is received, and nothing is held behind its end. -/
theorem Sound.qcomplete (h : Sound env s) (b : Poll) (ha : ∀ p ∈ b.mps, p.Mergeable → p.Addressed) :
    let s' := Coalesce.qcomplete env b s
    Sound env s' ∧ s'.received = s.received ++ b.mps ∧ (b.eop = true → ∀ k, held env s' k = []) := by
  obtain ⟨h1, h2⟩ : Sound env (s.qpacketCoalesce env b.mode b.now b.mps) ∧
      (s.qpacketCoalesce env b.mode b.now b.mps).received = s.received ++ b.mps :=
    ⟨(h.rounds b.mode b.now none ha).1, (h.rounds b.mode b.now none ha).2.1⟩
  unfold Coalesce.qcomplete
  dsimp only
  split_ifs with heop
  · obtain ⟨h3, h4, h5, -, h6⟩ := h1.inv.completeAll h1.linked
    refine ⟨⟨h3, fun i => Flow.linked_nil (h4 i), fun k => ?_⟩, h5.trans h2, fun _ k => ?_⟩
    · rw [h6, h5]
      exact h1.conserved k
    · cases k with
      | none => rfl
      | some k => exact ite_eq_right_iff.mpr fun _ => h4 _
  · exact ⟨h1, h2, fun ht => absurd ht heop⟩

/-- No packet of the poll overtakes what its flow holds. -/
def Poll.Stays (env : Env) (b : Poll) (s : Lro) : Prop := Coalesce.Stays env b.mode b.now (none, s) b.mps

instance (b : Poll) (s : Lro) : Decidable (b.Stays env s) := inferInstanceAs (Decidable (Coalesce.Stays ..))

/-- A poll keeps the order of each flow if and only if no packet of it overtakes. -/
theorem Sound.qcomplete_inOrder (h : Sound env s) (ho : Lanes.InOrder Packet.flow s.received (lanes env s)) (b : Poll)
    (ha : ∀ p ∈ b.mps, p.Mergeable → p.Addressed) (hn : (s.received ++ b.mps).Nodup) :
    let s' := Coalesce.qcomplete env b s
    (b.Stays env s → Lanes.InOrder Packet.flow s'.received (lanes env s')) ∧
      (¬ b.Stays env s → ¬ Delivered env s') := by
  have h1 : Sound env (s.qpacketCoalesce env b.mode b.now b.mps) := (h.rounds b.mode b.now none ha).1
  unfold Coalesce.qcomplete
  dsimp only
  constructor
  · intro hs
    have h2 := h.rounds_inOrder b.mode b.now ho ha hs
    split_ifs
    · obtain ⟨-, -, h5, -, h6⟩ := h1.inv.completeAll h1.linked
      intro k
      rw [h6, h5]
      exact h2 k
    · exact h2
  · intro hs hdel
    obtain ⟨k, hk⟩ := h.rounds_overtaken b.mode b.now ho ha hn hs
    split_ifs at hdel
    · obtain ⟨-, -, h5, h6, -⟩ := h1.inv.completeAll h1.linked
      refine Lanes.not_prefix_mono hk (h1.conserved.length_le k) (Lanes.ofKey_mono h6 k) ?_ (hdel k)
      exact (congrArg (Lanes.ofKey Packet.flow k) h5).symm ▸ List.prefix_refl _
    · exact hk (hdel k)

/-! ### Runs -/

/-- The state after the polls. -/
def run (env : Env) (bs : List Poll) : Lro := bs.foldl (fun s b => qcomplete env b s) ctor

theorem sound_run (env : Env) (bs : List Poll) (ha : ∀ b ∈ bs, ∀ p ∈ b.mps, p.Mergeable → p.Addressed) :
    Sound env (run env bs) ∧ (run env bs).received = bs.flatMap Poll.mps := by
  induction bs using List.reverseRecOn with
  | nil => exact ⟨sound_ctor env, rfl⟩
  | append_singleton bs b ih =>
    obtain ⟨h1, h2⟩ := ih fun b' hb' => ha b' (List.mem_append_left _ hb')
    obtain ⟨h3, h4, -⟩ := h1.qcomplete b (ha b (by simp))
    have hrun : run env (bs ++ [b]) = qcomplete env b (run env bs) := by simp [run]
    rw [hrun]
    exact ⟨h3, by simp [h4, h2]⟩

/-- **Coalescing loses nothing.**  After any polls, what has been received of each flow is on the chain or held, each
packet once; the messages on the chain are joined of segments that follow each other; and after the end of a poll
all that has been received is on the chain. -/
theorem coalescing_complete (env : Env) (bs : List Poll) (ha : ∀ b ∈ bs, ∀ p ∈ b.mps, p.Mergeable → p.Addressed) :
    (∀ k, (Lanes.ofKey Packet.flow k ((run env bs).posted.flatMap Msg.packets) ++ held env (run env bs) k).Perm
      (Lanes.ofKey Packet.flow k (bs.flatMap Poll.mps))) ∧
    (∀ m ∈ (run env bs).posted, m.Joined) ∧
    ∀ b ∈ bs.getLast?, b.eop = true → ((run env bs).posted.flatMap Msg.packets).Perm (bs.flatMap Poll.mps) := by
  obtain ⟨h, hrec⟩ := sound_run env bs ha
  refine ⟨fun k => ?_, h.inv.joined, fun b hb heop => ?_⟩
  · rw [← hrec]
    exact h.conserved k
  · obtain ⟨bs, rfl⟩ := List.getLast?_eq_some_iff.mp hb
    have hbefore := (sound_run env bs fun b' hb' => ha b' (List.mem_append_left _ hb')).1
    have hrun : run env (bs ++ [b]) = qcomplete env b (run env bs) := by simp [run]
    rw [← hrec]
    refine h.conserved.out_perm fun k => ?_
    rw [hrun]
    exact (hbefore.qcomplete b (ha b (by simp))).2.2 heop k

/-- Segment `n` of a connection, of one byte, with the flags of its event. -/
def segment (flags : U16) (n : ℕ) : Packet :=
  ⟨n, flags, 0, 0, ⟨1, 2, 3, 4⟩, 40, BitVec.ofNat 32 n, 0, 0, 0x10, 0, [0], by decide⟩

/-- 21 segments of which the last has no good TCP checksum. -/
def unchecked : Poll :=
  ⟨0, .SFXGE_RX_COALESCE_ALLOW_PUSH, (List.range 20).map (segment 0x0a60) ++ [segment 0x0a40 20], true⟩

theorem coalescing_complete_unchecked :
    ((run ⟨fun _ => 0, 20⟩ [unchecked]).posted.flatMap Msg.packets).Perm unchecked.mps :=
  (coalescing_complete ⟨fun _ => 0, 20⟩ [unchecked] (by decide +kernel)).2.2 unchecked rfl rfl

end Sfxge.Rx.Coalesce
