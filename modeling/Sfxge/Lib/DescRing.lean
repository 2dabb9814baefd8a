import Mathlib.Data.List.Basic
import Mathlib.Logic.Function.Basic
import Sfxge.Lib.Counter

/-!
# Lib.DescRing — a ring of descriptors between a driver and a device

The driver writes descriptors into a ring of `n` slots and rings a doorbell; the device reads them at its own pace, from
memory that may show an older state than the driver has written.  With the doorbell the driver may hand over the first
new descriptor itself.  `Carries` is what both sides keep as long as the driver does not go round the ring past what the
device has done.  Nothing here mentions the driver.
-/

namespace Lib

variable {α : Type} {n : ℕ}

/-- The memory as the driver has written it and as the device sees it, the two pointers of the device, the descriptor that
came with the last doorbell, and the descriptors that the device has read, in order. -/
structure DescRing (α : Type) where
  mem : ℕ → α
  seen : ℕ → α
  wptr : ℕ
  rptr : ℕ
  hand : Option α
  fetched : List α

/-- Descriptors are written one after the other, from number `j`. -/
def writeAll (n j : ℕ) (ds : List α) (mem : ℕ → α) : ℕ → α :=
  match ds with
  | [] => mem
  | d :: ds => writeAll n (j + 1) ds (Function.update mem (j % n) d)

/-- `ds` are in the slots from number `lo` to their end. -/
def Holds (n lo : ℕ) (ds : List α) (mem : ℕ → α) : Prop := ∀ j, lo ≤ j → j < ds.length → ds[j]? = some (mem (j % n))

theorem Holds.mono {lo lo' : ℕ} {ds : List α} {mem : ℕ → α} (h : Holds n lo ds mem) (hlo : lo ≤ lo') :
    Holds n lo' ds mem := fun j hj => h j (hlo.trans hj)

theorem Holds.take {lo : ℕ} {ds : List α} {mem : ℕ → α} (h : Holds n lo ds mem) (m : ℕ) : Holds n lo (ds.take m) mem := by
  intro j hlo hj
  rw [List.length_take] at hj
  rw [List.getElem?_take_of_lt (by omega)]
  exact h j hlo (by omega)

/-- The next descriptor. -/
theorem Holds.snoc {lo : ℕ} {ds : List α} {mem : ℕ → α} (h : Holds n lo ds mem) (hroom : ds.length < lo + n) (d : α) :
    Holds n lo (ds ++ [d]) (Function.update mem (ds.length % n) d) := by
  intro j hlo hj
  rw [List.length_append, List.length_singleton] at hj
  by_cases hlast : j = ds.length
  · subst hlast
    rw [Function.update_self, List.getElem?_append_right le_rfl, Nat.sub_self]
    rfl
  · have hne := mod_ne (b := 0) hlast (show j < ds.length + n by omega) (show ds.length < j + n by omega)
    rw [Nat.zero_add, Nat.zero_add] at hne
    rw [Function.update_of_ne hne, List.getElem?_append_left (by omega)]
    exact h j hlo (by omega)

theorem Holds.writeAll {lo : ℕ} {ds more : List α} {mem : ℕ → α} (h : Holds n lo ds mem)
    (hroom : ds.length + more.length ≤ lo + n) : Holds n lo (ds ++ more) (writeAll n ds.length more mem) := by
  induction more generalizing ds mem with
  | nil =>
    rw [List.append_nil]
    exact h
  | cons d more ih =>
    rw [List.length_cons] at hroom
    have hnext := h.snoc (show ds.length < lo + n by omega) d
    have hrest := ih hnext (by rw [List.length_append, List.length_singleton]; omega)
    rw [List.append_assoc, List.singleton_append, List.length_append, List.length_singleton] at hrest
    exact hrest

/-! ### The device -/

namespace DescRing

/-- The doorbell.  A descriptor that comes with it is kept if the device has nothing else to read. -/
def doorbell (wptr : ℕ) (pushed : Option α) (r : DescRing α) : DescRing α :=
  { r with wptr, hand := if r.rptr = r.wptr then pushed else none }

/-- The device reads the next descriptor, in memory or the one that it was handed. -/
def fetch (n : ℕ) (handed : Bool) (r : DescRing α) : Option (DescRing α) :=
  if r.rptr = r.wptr then none
  else
    let d := if handed then r.hand.getD (r.seen r.rptr) else r.seen r.rptr
    some { r with rptr := (r.rptr + 1) % n, hand := none, fetched := r.fetched ++ [d] }

/-- What the driver has written in a slot reaches the memory by itself. -/
def writeBack (i : ℕ) (r : DescRing α) : DescRing α := { r with seen := Function.update r.seen i (r.mem i) }

end DescRing

/-- `seen'` is `seen` where what the driver has written has reached the memory in the slots of `I`, at least. -/
def Shows (mem seen seen' : ℕ → α) (I : ℕ → Prop) : Prop :=
  ∀ i, seen' i = mem i ∨ (¬ I i ∧ seen' i = seen i)

/-- **The protocol.**  Of the descriptors `posted` the device has been told of the first `P`, and the driver knows that
the first `C` are done. -/
structure Carries (n : ℕ) (posted : List α) (P C : ℕ) (r : DescRing α) : Prop where
  known : C ≤ r.fetched.length
  told : r.fetched.length ≤ P
  pushed : P ≤ posted.length
  room : posted.length < C + n
  fetched : r.fetched = posted.take r.fetched.length
  wptr : r.wptr = P % n
  rptr : r.rptr = r.fetched.length % n
  mem : Holds n C posted r.mem
  seen : Holds n r.fetched.length (posted.take P) r.seen
  hand : ∀ d, r.hand = some d → r.fetched.length < P → posted[r.fetched.length]? = some d

section Carries

variable {posted : List α} {P P' C C' : ℕ} {r r' : DescRing α}

theorem carries_fresh (hn : 0 < n) (mem seen : ℕ → α) : Carries n [] 0 0 ⟨mem, seen, 0, 0, none, []⟩ where
  known := le_rfl
  told := le_rfl
  pushed := le_rfl
  room := by simpa using hn
  fetched := rfl
  wptr := (Nat.zero_mod n).symm
  rptr := (Nat.zero_mod n).symm
  mem := fun j _ hj => absurd hj (Nat.not_lt_zero j)
  seen := fun j _ hj => absurd hj (Nat.not_lt_zero j)
  hand := fun d hd => by cases hd

/-- The device stands where it was told to stop exactly when it has read everything. -/
theorem Carries.idle_iff (h : Carries n posted P C r) : r.rptr = r.wptr ↔ r.fetched.length = P := by
  rw [h.rptr, h.wptr]
  refine ⟨fun heq => ?_, fun heq => by rw [heq]⟩
  by_contra hne
  have h1 := h.known
  have h2 := h.told
  have h3 := h.pushed
  have h4 := h.room
  have hdiff := mod_ne (n := n) (b := 0) hne (by omega) (by omega)
  rw [Nat.zero_add, Nat.zero_add] at hdiff
  exact hdiff heq

/-- What the device will read next. -/
theorem Carries.next (h : Carries n posted P C r) (hlt : r.fetched.length < P) :
    posted[r.fetched.length]? = some (r.seen r.rptr) := by
  have hlen : r.fetched.length < (posted.take P).length := by
    have := h.pushed
    rw [List.length_take]
    omega
  have hs := h.seen r.fetched.length le_rfl hlen
  rwa [List.getElem?_take_of_lt hlt, ← h.rptr] at hs

/-- **Post rule.** -/
theorem Carries.post (h : Carries n posted P C r) (ds : List α) (hroom : posted.length + ds.length < C + n) :
    Carries n (posted ++ ds) P C { r with mem := writeAll n posted.length ds r.mem } := by
  have hF : r.fetched.length ≤ posted.length := h.told.trans h.pushed
  refine ⟨h.known, h.told, ?_, ?_, ?_, h.wptr, h.rptr, ?_, ?_, ?_⟩
  · rw [List.length_append]
    exact h.pushed.trans (Nat.le_add_right _ _)
  · rw [List.length_append]
    exact hroom
  · rw [List.take_append_of_le_length hF]
    exact h.fetched
  · exact h.mem.writeAll hroom.le
  · rw [List.take_append_of_le_length h.pushed]
    exact h.seen
  · intro d hd hlt
    rw [List.getElem?_append_left (hlt.trans_le h.pushed)]
    exact h.hand d hd hlt

/-- **Doorbell rule.**  The descriptors that the device is told of must have reached the memory; one that is handed over
must be the first of them. -/
theorem Carries.doorbell (h : Carries n posted P C r) (hP : P ≤ P') (hP' : P' ≤ posted.length) {seen' : ℕ → α}
    {I : ℕ → Prop} (hshows : Shows r.mem r.seen seen' I) (hI : ∀ j, P ≤ j → j < P' → I (j % n)) {pushed : Option α}
    (hpushed : ∀ d, pushed = some d → P < P' → d = r.mem (P % n)) :
    Carries n posted P' C ({ r with seen := seen' }.doorbell (P' % n) pushed) := by
  have hmem : ∀ j, r.fetched.length ≤ j → j < P' → posted[j]? = some (r.mem (j % n)) := fun j hj hlt =>
    h.mem j (h.known.trans hj) (hlt.trans_le hP')
  refine ⟨h.known, h.told.trans hP, hP', h.room, h.fetched, rfl, h.rptr, h.mem, fun j hj hlt => ?_, fun d hd hlt => ?_⟩
  · rw [List.length_take] at hlt
    rw [List.getElem?_take_of_lt (by omega)]
    change posted[j]? = some (seen' (j % n))
    rcases hshows (j % n) with hs | ⟨hnot, hs⟩
    · rw [hs]
      exact hmem j hj (by omega)
    · -- a slot that has not been brought up to date was already shown
      have hold : j < P := by
        by_contra hge
        exact hnot (hI j (by omega) (by omega))
      have hp := h.pushed
      have hshown := h.seen j hj (by rw [List.length_take]; omega)
      rw [List.getElem?_take_of_lt hold] at hshown
      rw [hs]
      exact hshown
  · change (if r.rptr = r.wptr then pushed else none) = some d at hd
    split_ifs at hd with hidle
    have hF : r.fetched.length = P := h.idle_iff.mp hidle
    change r.fetched.length < P' at hlt
    change posted[r.fetched.length]? = some d
    rw [hpushed d hd (hF ▸ hlt), ← hF]
    exact hmem r.fetched.length le_rfl hlt

/-- **Fetch rule.**  The device reads the next descriptor that was posted. -/
theorem Carries.fetch {handed : Bool} (h : Carries n posted P C r) (hr : r.fetch n handed = some r') :
    Carries n posted P C r' ∧ r'.fetched.length = r.fetched.length + 1 := by
  unfold DescRing.fetch at hr
  by_cases hidle : r.rptr = r.wptr
  · rw [if_pos hidle] at hr
    cases hr
  rw [if_neg hidle] at hr
  cases hr
  have hF : r.fetched.length < P := lt_of_le_of_ne h.told fun heq => hidle (h.idle_iff.mpr heq)
  have hnext : posted[r.fetched.length]? = some (if handed then r.hand.getD (r.seen r.rptr) else r.seen r.rptr) := by
    cases handed with
    | false => exact h.next hF
    | true =>
      cases hhand : r.hand with
      | none => exact h.next hF
      | some d => exact h.hand d hhand hF
  refine ⟨⟨?_, ?_, h.pushed, h.room, ?_, h.wptr, ?_, h.mem, ?_, ?_⟩, ?_⟩
  · rw [List.length_append]
    exact h.known.trans (Nat.le_add_right _ _)
  · rw [List.length_append]
    exact hF
  · rw [List.length_append, List.length_singleton, List.take_add_one, hnext, ← h.fetched]
    rfl
  · rw [List.length_append, List.length_singleton]
    change (r.rptr + 1) % n = _
    rw [h.rptr, Nat.mod_add_mod]
  · rw [List.length_append]
    exact h.seen.mono (Nat.le_add_right _ _)
  · intro d hd
    cases hd
  · rw [List.length_append, List.length_singleton]

/-- **Completion rule.** -/
theorem Carries.complete (h : Carries n posted P C r) (hC : C ≤ C') (hC' : C' ≤ r.fetched.length) :
    Carries n posted P C' r :=
  { h with known := hC', room := by have := h.room; omega, mem := h.mem.mono hC }

theorem Carries.writeBack (h : Carries n posted P C r) (i : ℕ) : Carries n posted P C (r.writeBack i) := by
  refine { h with seen := fun j hj hlt => ?_ }
  change (posted.take P)[j]? = some (Function.update r.seen i (r.mem i) (j % n))
  by_cases hi : j % n = i
  · subst hi
    rw [Function.update_self]
    exact h.mem.take P j (h.known.trans hj) hlt
  · rw [Function.update_of_ne hi]
    exact h.seen j hj hlt

end Carries

end Lib
