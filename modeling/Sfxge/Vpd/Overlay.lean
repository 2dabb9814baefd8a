import Sfxge.Vpd.Enumerate
import Sfxge.Vpd.Store

/-!
# Vpd.Overlay — the static block under the one that is edited

`siena_vpd.c` and `ef10_vpd.c` present the static block, read and accepted when the module is initialised, and the block
of the caller as one.  A keyword of the static block is answered from there and is not to be set; the check of the
caller's block refuses a keyword that both have.  From `_reinit` on, `_set` never makes one.
-/

namespace Sfxge.Vpd

open Lib Prog Tag

/-- `enu_svpd`, `ena_svpd`: none, or a block that was accepted. -/
structure Svpd where
  bytes : Bytes
  accepted : 0 < bytes.length → ∃ c, hunkVerify bytes = .ok c

/-- The end of `siena_vpd_init` and `ef10_vpd_init`, with what was read of the static section. -/
def vpdInit (svpd : Bytes) : Except Errno Svpd :=
  if hsize : 0 < svpd.length then
    match hv : hunkVerify svpd with
    | .error e => .error e
    | .ok c => .ok ⟨svpd, fun _ => ⟨c, hv⟩⟩
  else .ok ⟨svpd, fun hpos => absurd hpos hsize⟩

/-- `while (1)` over `efx_vpd_hunk_next`, until `*contp` is 0 -/
def eachNext (data : Bytes) (body : Found → Except Errno Unit) : ℕ → ℕ → Except Errno Unit
  | 0, _ => .error .EFAULT
  | fuel + 1, cont =>
    match hunkNext data cont with
    | .error e => .error e
    | .ok f =>
      if f.cont = 0 then .ok ()
      else match body f with
        | .error e => .error e
        | .ok () => eachNext data body fuel f.cont

/-- The inner loop's body in `siena_vpd_verify` and `ef10_vpd_verify` -/
def differ (d s : Found) : Except Errno Unit := if s.tag = d.tag ∧ s.keyword = d.keyword then .error .EEXIST else .ok ()

/-- The outer loop's body: RV is in both. -/
def onlyHere (svpd : Bytes) (d : Found) : Except Errno Unit :=
  if d.tag = EFX_VPD_RO ∧ d.keyword = RV then .ok () else eachNext svpd (differ d) (svpd.length + 1) 0

/-- `siena_vpd_verify`, `ef10_vpd_verify` -/
def vpdVerify (svpd : Svpd) (data : Bytes) : Except Errno Unit :=
  match hunkVerify data with
  | .error e => .error e
  | .ok _ => if svpd.bytes.length = 0 then .ok () else eachNext data (onlyHere svpd.bytes) (data.length + 1) 0

/-- Whether `siena_vpd_reinit` and `ef10_vpd_reinit` put an ID string -/
def wantPid (svpd : Svpd) : Except Errno Bool :=
  if svpd.bytes.length = 0 then .ok true
  else match hunkGet svpd.bytes (some EFX_VPD_ID) 0 with
    | .ok _ => .ok false
    | .error e => if e = .ENOENT then .ok true else .error e

/-- `siena_vpd_reinit`, `ef10_vpd_reinit` -/
def vpdReinit (svpd : Svpd) : Prog Bytes Errno Unit := do
  let wantpid ← ofExcept (wantPid svpd)
  hunkReinit wantpid

/-- What a lookup copies out, and whether the assertion on its way held -/
structure Answer where
  value : Bytes
  asserted : Bool
  deriving Repr, DecidableEq

def Got.answer (data : Bytes) (g : Got) : Answer := ⟨slice data g.payload g.paylen, g.asserted⟩

/-- `siena_vpd_get`, `ef10_vpd_get` -/
def vpdGet (svpd : Svpd) (data : Bytes) (tag : Option Tag) (keyword : ℕ) : Except Errno Answer :=
  if 0 < svpd.bytes.length then
    match hunkGet svpd.bytes tag keyword with
    | .ok g => .ok (g.answer svpd.bytes)
    | .error e => if e ≠ .ENOENT then .error e else fromData
  else fromData
where
  /-- And then from the provided data buffer. -/
  fromData : Except Errno Answer :=
    match hunkGet data tag keyword with
    | .error e => .error e
    | .ok g => .ok (g.answer data)

/-- `siena_vpd_set`, `ef10_vpd_set`; that the static block could not be read does not matter here. -/
def vpdSet (svpd : Svpd) (v : Value) : Prog Bytes Errno Unit := do
  ensure (¬ (0 < svpd.bytes.length ∧ (hunkGet svpd.bytes v.evvTag v.evvKeyword).isOk = true)) .EACCES
  hunkSet v

/-! ### The static block -/

variable {svpd : Svpd} {data : Bytes} {v : Value} {tag : Option Tag} {k : ℕ}

/-- The item of the static block that a lookup finds -/
def Svpd.find (svpd : Svpd) (tag : Option Tag) (keyword : ℕ) : Option Item :=
  (items svpd.bytes).find? (Item.matches tag keyword)

/-- An item as it is copied out -/
def Item.answer (data : Bytes) (i : Item) : Answer := ⟨i.value data, i.short⟩

theorem Svpd.wellFormed (hpos : 0 < svpd.bytes.length) : WellFormed svpd.bytes := by
  obtain ⟨c, hc⟩ := svpd.accepted hpos
  exact wellFormed_of_hunkVerify hc

theorem Svpd.find_empty (h0 : svpd.bytes.length = 0) (tag : Option Tag) (k : ℕ) : svpd.find tag k = none := by
  rw [Svpd.find, List.length_eq_zero_iff.mp h0]
  rfl

/-- Any keyword finds the ID string. -/
theorem Svpd.find_id (svpd : Svpd) (k k' : ℕ) : svpd.find (some EFX_VPD_ID) k = svpd.find (some EFX_VPD_ID) k' := by
  have hmatch : Item.matches (some EFX_VPD_ID) k = Item.matches (some EFX_VPD_ID) k' := by
    funext i
    by_cases hi : i.tag = EFX_VPD_ID <;> simp [Item.matches, hi]
  rw [Svpd.find, Svpd.find, hmatch]

theorem Svpd.hunkGet_of_some (hpos : 0 < svpd.bytes.length) {i : Item} (hi : svpd.find tag k = some i) :
    hunkGet svpd.bytes tag k = .ok ⟨i.payload, i.paylen, i.short⟩ := by
  rw [hunkGet_eq (svpd.wellFormed hpos), show (items svpd.bytes).find? _ = some i from hi]

theorem Svpd.hunkGet_of_none (hpos : 0 < svpd.bytes.length) (hi : svpd.find tag k = none) :
    hunkGet svpd.bytes tag k = .error .ENOENT := by
  rw [hunkGet_eq (svpd.wellFormed hpos), show (items svpd.bytes).find? _ = none from hi]

theorem Svpd.pos_of_some {i : Item} (hi : svpd.find tag k = some i) : 0 < svpd.bytes.length := by
  refine Nat.pos_of_ne_zero fun h0 => ?_
  rw [svpd.find_empty h0] at hi
  cases hi

theorem vpdGet_static {i : Item} (hi : svpd.find tag k = some i) : vpdGet svpd data tag k = .ok (i.answer svpd.bytes) := by
  have hpos := svpd.pos_of_some hi
  rw [vpdGet, if_pos hpos, svpd.hunkGet_of_some hpos hi]
  rfl

theorem vpdGet_dynamic (hi : svpd.find tag k = none) : vpdGet svpd data tag k = vpdGet.fromData data tag k := by
  by_cases hpos : 0 < svpd.bytes.length
  · rw [vpdGet, if_pos hpos, svpd.hunkGet_of_none hpos hi]
    exact if_neg (by simp)
  · rw [vpdGet, if_neg hpos]

theorem vpdSet_static {i : Item} (hi : svpd.find v.evvTag v.evvKeyword = some i) :
    vpdSet svpd v data = .err .EACCES data := by
  have hpos := svpd.pos_of_some hi
  refine bind_of_err (ensure_neg ?_)
  rw [svpd.hunkGet_of_some hpos hi]
  exact not_not.mpr ⟨hpos, rfl⟩

theorem vpdSet_dynamic (hi : svpd.find v.evvTag v.evvKeyword = none) : vpdSet svpd v data = hunkSet v data := by
  refine bind_of_ret (ensure_pos ?_)
  rintro ⟨hpos, hok⟩
  rw [svpd.hunkGet_of_none hpos hi] at hok
  cases hok

/-- An ID string is put where the static block has none. -/
theorem vpdReinit_eq (svpd : Svpd) : vpdReinit svpd data = hunkReinit (svpd.find (some EFX_VPD_ID) 0).isNone data := by
  have hwant : wantPid svpd = .ok (svpd.find (some EFX_VPD_ID) 0).isNone := by
    unfold wantPid
    by_cases h0 : svpd.bytes.length = 0
    · rw [if_pos h0, svpd.find_empty h0]
      rfl
    · rw [if_neg h0]
      have hpos := Nat.pos_of_ne_zero h0
      cases hi : svpd.find (some EFX_VPD_ID) 0 with
      | none =>
        rw [svpd.hunkGet_of_none hpos hi]
        rfl
      | some i =>
        rw [svpd.hunkGet_of_some hpos hi]
        rfl
  rw [vpdReinit, hwant]
  rfl

/-! ### The check of both -/

/-- A loop over the items of a block whose body never fails. -/
theorem eachNext_ok (hw : WellFormed data) {body : Found → Except Errno Unit}
    (hbody : ∀ i ∈ items data, ∀ f : Found, f.tag = i.tag → f.keyword = i.keyword → body f = .ok ()) (fuel cont : ℕ)
    (hcont : cont ≤ (items data).length) (hfuel : (items data).length < fuel + cont) :
    eachNext data body fuel cont = .ok () := by
  induction fuel generalizing cont with
  | zero => omega
  | succ fuel ih =>
    obtain ⟨payload, hnext⟩ := hunkNext_eq hw cont
    rcases Nat.lt_or_eq_of_le hcont with hlt | heq
    · rw [List.getElem?_eq_getElem hlt] at hnext
      rw [eachNext, hnext]
      dsimp only
      rw [if_neg (Nat.succ_ne_zero cont), hbody _ (List.getElem_mem hlt) _ rfl rfl]
      exact ih (cont + 1) hlt (by omega)
    · rw [List.getElem?_eq_none heq.ge] at hnext
      rw [eachNext, hnext]
      exact if_pos rfl

/-- Two blocks that have no keyword but RV in common -/
theorem vpdVerify_of_disjoint {c : Bool} (hv : hunkVerify data = .ok c)
    (hno : ∀ i ∈ items data, ¬ (i.tag = EFX_VPD_RO ∧ i.keyword = RV) → svpd.find (some i.tag) i.keyword = none) :
    vpdVerify svpd data = .ok () := by
  have hw := wellFormed_of_hunkVerify hv
  rw [vpdVerify, hv]
  dsimp only
  by_cases h0 : svpd.bytes.length = 0
  · exact if_pos h0
  have hws := svpd.wellFormed (Nat.pos_of_ne_zero h0)
  rw [if_neg h0]
  refine eachNext_ok hw (fun i hi f htag hkey => ?_) _ 0 (Nat.zero_le _) (by have := items_length_le hw; omega)
  unfold onlyHere
  by_cases hrv : f.tag = EFX_VPD_RO ∧ f.keyword = RV
  · exact if_pos hrv
  · rw [if_neg hrv]
    refine eachNext_ok hws (fun j hj g hgt hgk => ?_) _ 0 (Nat.zero_le _) (by have := items_length_le hws; omega)
    refine if_neg fun hsame => ?_
    have hnone := hno i hi (by rwa [← htag, ← hkey])
    have hj' := List.find?_eq_none.mp hnone j hj
    rw [htag, hkey, hgt, hgk] at hsame
    exact hj' (by simp [Item.matches, hsame.1, hsame.2])

/-! ### Runs -/

/-- A call of `siena_vpd_set` or `ef10_vpd_set` -/
def vpdStep (svpd : Svpd) (v : Value) (s : Held) : Option Held :=
  match vpdSet svpd v s.hunk with
  | .ret _ hunk => some (s.set v hunk)
  | .err _ hunk => some ⟨hunk, s.value⟩
  | _ => none

/-- The two blocks are one store: the block is accepted, a keyword of the static block is found there, and every other one
but the checksum with the value set last. -/
structure Unified (svpd : Svpd) (s : Held) : Prop where
  verified : vpdVerify svpd s.hunk = .ok ()
  static : ∀ tag keyword i, svpd.find tag keyword = some i → vpdGet svpd s.hunk tag keyword = .ok (i.answer svpd.bytes)
  dynamic : ∀ tag keyword, tag ≠ some EFX_VPD_RO ∨ keyword ≠ RV → svpd.find tag keyword = none →
    vpdGet svpd s.hunk tag keyword = if s.value tag keyword = [] then .error .ENOENT else .ok ⟨s.value tag keyword, true⟩

/-- A call that fails leaves the block alone, and one for a keyword of the static block fails. -/
structure Respects (svpd : Svpd) (v : Value) (s s' : Held) : Prop where
  clean : ∀ e hunk, vpdSet svpd v s.hunk = .err e hunk → s'.hunk = s.hunk
  readonly : ∀ i, svpd.find v.evvTag v.evvKeyword = some i → ∃ hunk, vpdSet svpd v s.hunk = .err .EACCES hunk

/-- A set that gets to the block puts what reads. -/
def LegibleOver (svpd : Svpd) (v : Value) (s : Held) : Prop := svpd.find v.evvTag v.evvKeyword = none → Legible v s

/-- The block that `siena_vpd_reinit` or `ef10_vpd_reinit` makes of `data` -/
def vpdStart (svpd : Svpd) (data : Bytes) : Held :=
  ⟨((vpdReinit svpd data).state?).getD [], (start (svpd.find (some EFX_VPD_ID) 0).isNone data).value⟩

/-- The block has no keyword of the static one. -/
def Apart (svpd : Svpd) (s : Held) : Prop :=
  ∀ tag keyword i, tag ≠ some EFX_VPD_RO ∨ keyword ≠ RV → svpd.find tag keyword = some i → s.value tag keyword = []

theorem vpdStart_eq (svpd : Svpd) (data : Bytes) :
    vpdStart svpd data = start (svpd.find (some EFX_VPD_ID) 0).isNone data := by
  rw [vpdStart, vpdReinit_eq]
  rfl

theorem apart_start (svpd : Svpd) (data : Bytes) : Apart svpd (vpdStart svpd data) := by
  intro tag k i hk hi
  rw [vpdStart_eq]
  by_cases hid : tag = some EFX_VPD_ID
  · subst hid
    rw [svpd.find_id k 0] at hi
    rw [hi]
    rfl
  · exact if_neg hid

theorem Apart.set {s : Held} (h : Apart svpd s) (hi : svpd.find v.evvTag v.evvKeyword = none) (hunk : Bytes) :
    Apart svpd (s.set v hunk) := by
  intro tag k i hk hfind
  by_cases hn : v.Names tag k
  · obtain ⟨rfl, hkk⟩ := hn
    rcases hkk with rfl | hid
    · rw [hi] at hfind
      cases hfind
    · rw [hid, svpd.find_id k v.evvKeyword, ← hid, hi] at hfind
      cases hfind
  · rw [Held.set_neg hn]
    exact h tag k i hk hfind

/-- What a lookup gives is copied out. -/
theorem Gives.fromData {value : Bytes} (h : Gives data tag k value) :
    vpdGet.fromData data tag k = if value = [] then .error .ENOENT else .ok ⟨value, true⟩ := by
  rcases h with ⟨hnil, hget⟩ | ⟨hne, payload, hget, hslice⟩
  · rw [if_pos hnil, vpdGet.fromData, hget]
  · rw [if_neg hne, vpdGet.fromData, hget]
    exact congrArg (fun b => Except.ok (Answer.mk b true)) hslice

theorem Gives.eq_of_fromData {x value : Bytes} (h : Gives data tag k x)
    (hdata : vpdGet.fromData data tag k = if value = [] then .error .ENOENT else .ok ⟨value, true⟩) : x = value := by
  have heq := h.fromData.symm.trans hdata
  split_ifs at heq with h1 h2 h2
  · rw [h1, h2]
  · simpa using heq

/-- An item of a block that serves has a value. -/
theorem Serves.value_ne {s : Held} (hs : Serves s) {i : Item} (hi : i ∈ items s.hunk)
    (hrv : ¬ (i.tag = EFX_VPD_RO ∧ i.keyword = RV)) : s.value (some i.tag) i.keyword ≠ [] := by
  have hw := wellFormed_of_hunkVerify hs.verified
  have hor : some i.tag ≠ some EFX_VPD_RO ∨ i.keyword ≠ RV := by
    by_cases htag : i.tag = EFX_VPD_RO
    · exact Or.inr fun hk => hrv ⟨htag, hk⟩
    · exact Or.inl fun heq => htag (Option.some.inj heq)
  rcases hs.gives _ _ hor with ⟨-, hget⟩ | ⟨hne, -⟩
  · have hsome : ((items s.hunk).find? (Item.matches (some i.tag) i.keyword)).isSome := by
      rw [List.find?_isSome]
      exact ⟨i, hi, by simp [Item.matches]⟩
    obtain ⟨j, hj⟩ := Option.isSome_iff_exists.mp hsome
    rw [hunkGet_eq hw, hj] at hget
    cases hget
  · exact hne

theorem Serves.unified {s : Held} (hs : Serves s) (ha : Apart svpd s) : Unified svpd s := by
  refine ⟨vpdVerify_of_disjoint hs.verified fun i hi hrv => ?_, fun tag k i hi => vpdGet_static hi,
    fun tag k hk hi => ?_⟩
  · have hne := hs.value_ne hi hrv
    cases hf : svpd.find (some i.tag) i.keyword with
    | none => rfl
    | some j =>
      have hor : some i.tag ≠ some EFX_VPD_RO ∨ i.keyword ≠ RV := by
        by_cases htag : i.tag = EFX_VPD_RO
        · exact Or.inr fun hk => hrv ⟨htag, hk⟩
        · exact Or.inl fun heq => htag (Option.some.inj heq)
      exact absurd (ha _ _ j hor hf) hne
  · rw [vpdGet_dynamic hi]
    exact (hs.gives tag k hk).fromData

theorem vpdStep_static {s : Held} {i : Item} (hi : svpd.find v.evvTag v.evvKeyword = some i) :
    vpdStep svpd v s = some s := by
  rw [vpdStep, vpdSet_static hi]

theorem vpdStep_dynamic {s : Held} (hi : svpd.find v.evvTag v.evvKeyword = none) : vpdStep svpd v s = setStep v s := by
  rw [vpdStep, vpdSet_dynamic hi]
  rfl

theorem Apart.step {s s' : Held} (h : Apart svpd s) (hi : svpd.find v.evvTag v.evvKeyword = none)
    (hs : setStep v s = some s') : Apart svpd s' := by
  unfold setStep at hs
  split at hs
  · obtain rfl := Option.some.inj hs
    exact h.set hi _
  · obtain rfl := Option.some.inj hs
    exact h
  · cases hs

/-- **A call.**  It is refused, or goes to the block. -/
theorem respects_of_clean {s s' : Held} (h : svpd.find v.evvTag v.evvKeyword = none → FailsClean v s s')
    (hsame : ∀ i, svpd.find v.evvTag v.evvKeyword = some i → s' = s) : Respects svpd v s s' := by
  refine ⟨fun e hunk he => ?_, fun i hi => ⟨s.hunk, vpdSet_static hi⟩⟩
  cases hi : svpd.find v.evvTag v.evvKeyword with
  | none => exact h hi e hunk (vpdSet_dynamic hi ▸ he)
  | some i => rw [hsame i hi]

theorem Respects.failsClean {s s' : Held} (h : Respects svpd v s s') (hi : svpd.find v.evvTag v.evvKeyword = none) :
    FailsClean v s s' := fun e hunk he => h.clean e hunk ((vpdSet_dynamic hi).trans he)

/-- What every call keeps. -/
structure KeptOver (svpd : Svpd) (size : ℕ) (s : Held) : Prop where
  kept : Kept size s
  apart : Apart svpd s

theorem KeptOver.unified {size : ℕ} {s : Held} (h : KeptOver svpd size s) : Unified svpd s := by
  obtain ⟨⟨id, es, hl⟩, -⟩ := h.kept
  exact hl.serves.unified h.apart

theorem KeptOver.step {size : ℕ} {s : Held} (h : KeptOver svpd size s) (hc : LegibleOver svpd v s) :
    ∃ s', vpdStep svpd v s = some s' ∧ Respects svpd v s s' ∧ KeptOver svpd size s' := by
  cases hi : svpd.find v.evvTag v.evvKeyword with
  | none =>
    obtain ⟨s', hs', hclean, hk⟩ := h.kept.step (hc hi)
    refine ⟨s', (vpdStep_dynamic hi).trans hs', respects_of_clean (fun _ => hclean) fun i hsome => ?_,
      hk, h.apart.step hi hs'⟩
    rw [hi] at hsome
    cases hsome
  | some i =>
    refine ⟨s, vpdStep_static hi, respects_of_clean (fun hnone => ?_) (fun _ _ => rfl), h⟩
    rw [hi] at hnone
    cases hnone

theorem KeptOver.legible {size : ℕ} {s s' : Held} (h : KeptOver svpd size s) (hsize : size < 0xff83)
    (hs : vpdStep svpd v s = some s') (hr : Respects svpd v s s') (hu : Unified svpd s') : LegibleOver svpd v s := by
  intro hi
  refine h.kept.legible hsize ((vpdStep_dynamic hi).symm.trans hs) (hr.failsClean hi) fun hv hrv x hx => ?_
  rw [hv] at hi
  exact hx.eq_of_fromData ((vpdGet_dynamic hi).symm.trans (hu.dynamic _ _ (Or.inr hrv) hi))

theorem keptOver_start (svpd : Svpd) (hlen : 0x100 ≤ data.length) : KeptOver svpd data.length (vpdStart svpd data) :=
  ⟨vpdStart_eq svpd data ▸ kept_start _ hlen, apart_start svpd data⟩

/-- **One store of two blocks.**  Over any static block that was accepted, or none: from the reinitialised block on, as
long as the values that get to the block read as they are put, both are one store after every call.  On a block shorter
than `0xff83` bytes the first call that does not meet the condition breaks this. -/
theorem overlay_unified (svpd : Svpd) (data : Bytes) (hlen : 0x100 ≤ data.length) (vs : List Value) :
    (GuardsAlong (vpdStep svpd) (LegibleOver svpd) vs (vpdStart svpd data) →
      GoesAlong (vpdStep svpd) (Unified svpd) (Respects svpd) vs (vpdStart svpd data)) ∧
    (data.length < 0xff83 →
      GoesAlong (vpdStep svpd) (Unified svpd) (Respects svpd) vs (vpdStart svpd data) →
      GuardsAlong (vpdStep svpd) (LegibleOver svpd) vs (vpdStart svpd data)) := by
  have hstart := keptOver_start svpd hlen
  have hunified : ∀ s, KeptOver svpd data.length s → Unified svpd s := fun s h => h.unified
  refine ⟨goesAlong_of_guards hunified (fun v s h hc => h.step hc) vs hstart, fun hsize => ?_⟩
  exact (goesAlong_iff hunified (fun v s h hc => h.step hc)
    (fun v s s' h hs hr hu => h.legible hsize hs hr hu) vs hstart).mp

/-- A static block with an ID string and a part number. -/
def staticBlock : Bytes :=
  [0x82, 1, 0, 0x32, 0x90, 8, 0, 0x50, 0x4e, 1, 0x41, 0x52, 0x56, 1, 0x2a, 0x78]

def staticPart : Svpd := ⟨staticBlock, fun _ => ⟨true, by decide +kernel⟩⟩

def partNumber : Value := ⟨some EFX_VPD_RO, 0x4e50, [0x42], by decide, by decide⟩

def changeLevel : Value := ⟨some EFX_VPD_RO, 0x4345, [0x43, 0x44], by decide, by decide⟩

theorem overlay_part_and_level : GoesAlong (vpdStep staticPart) (Unified staticPart) (Respects staticPart)
    [partNumber, changeLevel] (vpdStart staticPart blank) := by
  have hgoes := (overlay_unified staticPart blank length_blank.ge [partNumber, changeLevel]).1
  have hpart : staticPart.find partNumber.evvTag partNumber.evvKeyword = some ⟨EFX_VPD_RO, 0x4e50, 10, 1, true⟩ := by
    decide +kernel
  have hplace : place (vpdStart staticPart blank).hunk changeLevel = .ok (some ⟨⟨0, EFX_VPD_RO, 4, 3⟩, 0, 3, 8⟩) := by
    decide +kernel
  have hused : efxVpdHunkLength (vpdStart staticPart blank).hunk = .ok 8 := by decide +kernel
  generalize vpdStart staticPart blank = s at hgoes hplace hused
  have hlegible : Legible changeLevel s := (legible_iff hplace hused).mpr fun _ _ => ⟨by decide, by decide⟩
  refine hgoes ⟨fun hi => ?_, fun s' hs => ?_⟩
  · rw [hpart] at hi
    cases hi
  · obtain rfl := Option.some.inj ((vpdStep_static hpart).symm.trans hs)
    exact ⟨fun _ => hlegible, fun _ _ => trivial⟩

end Sfxge.Vpd
