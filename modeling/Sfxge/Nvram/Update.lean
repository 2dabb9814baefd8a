import Sfxge.Nvram.Rewrite
import Sfxge.Nvram.Segments

/-!
# Nvram.Update — the updates of the dynamic configuration sector with their commands

`siena_nvram_partn_set_version` and `siena_vpd_write` again, now with every NVRAM command and allocation they
make.  When none of them fails they do what Nvram.Dcfg says; the lock is what matters when one does.
-/

namespace Sfxge.Nvram

open Lib Lib.Prog Vpd

/-- The sector, the board, and the partitions of `enu_partn_mask`. -/
structure SienaFlash where
  sector : Sector
  board : Board
  hasPartn : ℕ → Bool

namespace SienaFlash

def setSector (c : SienaFlash) (s : Sector) : SienaFlash := { c with sector := s }

end SienaFlash

namespace Siena

/-- Rounds of a loop over `size` bytes in chunks of `SIENA_NVRAM_CHUNK`. -/
def rounds (size : ℕ) : ℕ := (size + 127) / 128

/-- `siena_nvram_partn_size` -/
def partnSize (partn : ℕ) : Cmd SienaFlash ℕ := do
  let c ← content
  ensure (c.hasPartn partn = true) .ENOTSUP
  command
  pure c.sector.size

/-- The commands of `siena_nvram_partn_read`. -/
def partnRead (size : ℕ) : Cmd SienaFlash Unit := forEach (fun _ => command) (List.range (rounds size))

/-- `siena_nvram_partn_erase` of the whole sector -/
def partnErase : Cmd SienaFlash Unit := do
  command
  setContent fun c => c.setSector (c.sector.rewrite [] 0)

/-- One round of `siena_nvram_partn_write`: the first `i + 1` chunks are written. -/
def writeChunk (dcfg : Bytes) (size i : ℕ) : Cmd SienaFlash Unit := do
  command
  setContent fun c => c.setSector (c.sector.rewrite dcfg (min size (128 * (i + 1))))

/-- `siena_nvram_partn_write` -/
def partnWrite (dcfg : Bytes) (size : ℕ) : Cmd SienaFlash Unit :=
  forEach (writeChunk dcfg size) (List.range (rounds size))

/-- The further commands of `siena_nvram_get_dynamic_cfg` on a sector with a well-formed header. -/
def remainingSize (vpd : Bool) (s : Sector) : ℕ :=
  if WellFormed s.size (s.readTo chunk) then Sector.region vpd (s.readTo chunk) - chunk else 0

/-- `siena_nvram_get_dynamic_cfg` -/
def getDynamicCfg (partn : ℕ) (vpd : Bool) : Cmd SienaFlash Bytes := do
  let _ ← partnSize partn
  kmemAlloc
  partnRead chunk
  let c ← content
  partnRead (remainingSize vpd c.sector)
  pure (c.sector.getDynamicCfg vpd)

/-- `siena_nvram_get_subtype` -/
def getSubtype (partn : ℕ) : Cmd SienaFlash UInt32 := do
  command
  let c ← content
  match Nvram.getSubtype c.board partn with
  | .error e => fail e
  | .ok subtype => pure subtype

/-- `siena_nvram_partn_set_version` between its lock and its unlock; `dcfgPartn` is the partition of the
sector. -/
def setVersionBody (dcfgPartn partn : ℕ) (version : Version) : Cmd SienaFlash Unit := do
  let dcfg ← getDynamicCfg dcfgPartn true
  ensure (¬ dynamicCfgSize (partn + 1) + vpdLength dcfg > dcfg.length) .ENOSPC
  let subtype ← getSubtype partn
  let dcfg := versionUpdate partn (version.item subtype) dcfg
  partnErase
  partnWrite dcfg (vpdOffset dcfg + vpdLength dcfg)

/-- `siena_nvram_partn_set_version`: the exits behind the lock lead past the unlock. -/
def partnSetVersion (dcfgPartn partn : ℕ) (version : Version) : Cmd SienaFlash Unit := do
  let _ ← partnSize dcfgPartn
  nvramUpdateStart dcfgPartn
  setVersionBody dcfgPartn partn version
  nvramUpdateFinish dcfgPartn

/-- `siena_vpd_write` between its lock and its unlock, for tags of `len` bytes -/
def vpdWriteBody (dcfgPartn : ℕ) (data : Bytes) (len : ℕ) : Cmd SienaFlash Unit := do
  let dcfg ← getDynamicCfg dcfgPartn false
  ensure (¬ hdrLength dcfg + len > dcfg.length) .ENOSPC
  let dcfg := vpdUpdate data len dcfg
  partnErase
  partnWrite dcfg (vpdOffset dcfg + vpdLength dcfg)

/-- `siena_vpd_write` -/
def vpdWrite (dcfgPartn : ℕ) (data : Bytes) : Cmd SienaFlash Unit :=
  match efxVpdHunkLength data with
  | .error e => fail e
  | .ok len => do
    let _ ← partnSize dcfgPartn
    underLock dcfgPartn (vpdWriteBody dcfgPartn data len)

/-! ### The locks are left alone -/

theorem frames_partnSize (partn : ℕ) : (partnSize partn).Frames Host.locks :=
  frames_bind frames_content fun _ => frames_bind (frames_ensure _ _) fun _ =>
    frames_bind frames_command fun _ => frames_pure _

theorem frames_partnRead (size : ℕ) : (partnRead size).Frames Host.locks :=
  frames_forEach _ fun _ => frames_command

theorem frames_partnErase : partnErase.Frames Host.locks :=
  frames_bind frames_command fun _ => frames_setContent _

theorem frames_partnWrite (dcfg : Bytes) (size : ℕ) : (partnWrite dcfg size).Frames Host.locks :=
  frames_forEach _ fun _ => frames_bind frames_command fun _ => frames_setContent _

theorem frames_getDynamicCfg (partn : ℕ) (vpd : Bool) : (getDynamicCfg partn vpd).Frames Host.locks :=
  frames_bind (frames_partnSize partn) fun _ => frames_bind frames_kmemAlloc fun _ =>
    frames_bind (frames_partnRead _) fun _ => frames_bind frames_content fun _ =>
      frames_bind (frames_partnRead _) fun _ => frames_pure _

theorem frames_getSubtype (partn : ℕ) : (getSubtype partn).Frames Host.locks := by
  refine frames_bind frames_command fun _ => frames_bind frames_content fun c => ?_
  cases Nvram.getSubtype c.board partn with
  | error e => exact frames_fail e
  | ok subtype => exact frames_pure subtype

theorem frames_setVersionBody (dcfgPartn partn : ℕ) (version : Version) :
    (setVersionBody dcfgPartn partn version).Frames Host.locks :=
  frames_bind (frames_getDynamicCfg _ _) fun _ => frames_bind (frames_ensure _ _) fun _ =>
    frames_bind (frames_getSubtype _) fun _ => frames_bind frames_partnErase fun _ => frames_partnWrite _ _

theorem frames_vpdWriteBody (dcfgPartn : ℕ) (data : Bytes) (len : ℕ) :
    (vpdWriteBody dcfgPartn data len).Frames Host.locks :=
  frames_bind (frames_getDynamicCfg _ _) fun _ => frames_bind (frames_ensure _ _) fun _ =>
    frames_bind frames_partnErase fun _ => frames_partnWrite _ _

/-- **`siena_vpd_write` is balanced.** -/
theorem balanced_vpdWrite (dcfgPartn : ℕ) (data : Bytes) (h : Host SienaFlash) :
    Balanced dcfgPartn (vpdWrite dcfgPartn data) h := by
  unfold vpdWrite
  cases efxVpdHunkLength data with
  | error e => exact balanced_of_frames (frames_fail e) dcfgPartn h
  | ok len =>
    exact balanced_bind (frames_partnSize dcfgPartn) fun _ h1 _ =>
      balanced_underLock (frames_vpdWriteBody dcfgPartn data len) h1

/-! ### When setting a version gets to its unlock -/

theorem takes_partnSize {partn : ℕ} {h : Host SienaFlash} (hp : h.content.hasPartn partn = true) :
    Takes (partnSize partn) 1 h h.content.sector.size h.content := by
  refine takes_content_bind (takes_ensure_bind hp ?_)
  refine takes_bind (m := 0) (takes_command h) fun h1 _ _ hc1 => ?_
  rw [← hc1]
  exact takes_pure _ h1

theorem takes_partnRead (size : ℕ) (h : Host SienaFlash) :
    Takes (partnRead size) (rounds size) h () h.content := by
  have hloop := takes_forEach (f := fun _ : ℕ => command) (g := fun _ c => c) (fun _ h => takes_command h)
    (List.range (rounds size)) h
  rwa [List.length_range, show ((List.range (rounds size)).foldl (fun c _ => c) h.content) = h.content from
    List.foldl_fixed ..] at hloop

/-- How many commands and allocations `siena_nvram_get_dynamic_cfg` makes. -/
def dynamicCfgCommands (vpd : Bool) (s : Sector) : ℕ := 2 + (rounds chunk + rounds (remainingSize vpd s))

theorem takes_getDynamicCfg {partn : ℕ} {h : Host SienaFlash} (hp : h.content.hasPartn partn = true) (vpd : Bool) :
    Takes (getDynamicCfg partn vpd) (dynamicCfgCommands vpd h.content.sector) h
      (h.content.sector.getDynamicCfg vpd) h.content := by
  unfold dynamicCfgCommands
  rw [show 2 + (rounds chunk + rounds (remainingSize vpd h.content.sector)) =
    1 + (1 + (rounds chunk + (rounds (remainingSize vpd h.content.sector) + 0))) by omega]
  refine takes_bind (takes_partnSize hp) fun h1 _ _ hc1 => ?_
  refine takes_bind (takes_kmemAlloc h1) fun h2 _ _ hc2 => ?_
  refine takes_bind (takes_partnRead _ h2) fun h3 _ _ hc3 => takes_content_bind ?_
  rw [hc3, hc2, hc1]
  refine takes_bind (takes_partnRead _ h3) fun h4 _ _ hc4 => ?_
  rw [← hc1, ← hc2, ← hc3, ← hc4]
  exact takes_pure _ h4

theorem rewrite_rewrite (s : Sector) (d d' : Bytes) (a b : ℕ) : (s.rewrite d a).rewrite d' b = s.rewrite d' b := by
  have hsize := size_rewrite s d a
  unfold Sector.rewrite at hsize ⊢
  simp only [hsize]

theorem rewrite_nil (s : Sector) (d : Bytes) : s.rewrite [] 0 = s.rewrite d 0 := by
  unfold Sector.rewrite
  simp only [List.take_zero, List.take_nil]

theorem takes_partnErase (h : Host SienaFlash) :
    Takes partnErase 1 h () (h.content.setSector (h.content.sector.rewrite [] 0)) := by
  refine takes_bind (m := 0) (takes_command h) fun h1 _ _ hc1 => ?_
  rw [← hc1]
  exact takes_setContent _ h1

/-- The chunks written one behind the other make up the whole. -/
theorem takes_partnWrite (dcfg : Bytes) (size : ℕ) {h : Host SienaFlash} {c : SienaFlash}
    (hc : h.content = c.setSector (c.sector.rewrite [] 0)) :
    Takes (partnWrite dcfg size) (rounds size) h () (c.setSector (c.sector.rewrite dcfg size)) := by
  have hround : ∀ (i : ℕ) (h : Host SienaFlash), Takes (writeChunk dcfg size i) 1 h ()
      (h.content.setSector (h.content.sector.rewrite dcfg (min size (128 * (i + 1))))) := by
    intro i h
    refine takes_bind (m := 0) (takes_command h) fun h1 _ _ hc1 => ?_
    rw [← hc1]
    exact takes_setContent _ h1
  have hfold : ∀ k, (List.range k).foldl
      (fun c i => c.setSector (c.sector.rewrite dcfg (min size (128 * (i + 1))))) h.content =
        c.setSector (c.sector.rewrite dcfg (min size (128 * k))) := by
    intro k
    induction k with
    | zero => rw [hc, rewrite_nil c.sector dcfg, Nat.mul_zero, Nat.min_zero]; rfl
    | succ k ih =>
      rw [List.range_succ, List.foldl_append, ih]
      simp only [List.foldl_cons, List.foldl_nil, SienaFlash.setSector, rewrite_rewrite]
  have hloop := takes_forEach (g := fun i c => c.setSector (c.sector.rewrite dcfg (min size (128 * (i + 1)))))
    hround (List.range (rounds size)) h
  rwa [List.length_range, hfold, min_eq_left (by unfold rounds; omega)] at hloop

theorem takes_getSubtype {partn : ℕ} {h : Host SienaFlash} (hp : partn < h.content.board.fwSubtypeList.length) :
    Takes (getSubtype partn) 1 h (h.content.board.fwSubtypeList.getD partn 0).toUInt32 h.content := by
  have hsub : Nvram.getSubtype h.content.board partn = .ok (h.content.board.fwSubtypeList.getD partn 0).toUInt32 := by
    rw [Nvram.getSubtype, List.getElem?_eq_getElem hp, List.getD_eq_getElem _ _ hp]
  refine takes_bind (m := 0) (takes_command h) fun h1 _ _ hc1 => takes_content_bind ?_
  rw [hc1, hsub, ← hc1]
  exact takes_pure _ h1

/-- There is room for the version and the VPD, and the board has a subtype for the partition. -/
def Fillable (partn : ℕ) (s : Sector) (board : Board) : Prop :=
  dynamicCfgSize (partn + 1) + vpdLength (s.getDynamicCfg true) ≤ s.size ∧ partn < board.fwSubtypeList.length

instance (partn : ℕ) (s : Sector) (board : Board) : Decidable (Fillable partn s board) :=
  inferInstanceAs (Decidable (_ ∧ _))

/-- What is written back. -/
def updated (partn : ℕ) (version : Version) (c : SienaFlash) : Bytes :=
  versionUpdate partn (version.item (c.board.fwSubtypeList.getD partn 0).toUInt32) (c.sector.getDynamicCfg true)

/-- How many commands and allocations are made between the start and the finish. -/
def bodyCommands (partn : ℕ) (version : Version) (c : SienaFlash) : ℕ :=
  dynamicCfgCommands true c.sector +
    (1 + (1 + rounds (vpdOffset (updated partn version c) + vpdLength (updated partn version c))))

/-- **When nothing fails** the version is set as in Nvram.Dcfg. -/
theorem takes_setVersionBody {dcfgPartn partn : ℕ} (version : Version) {h : Host SienaFlash}
    (hp : h.content.hasPartn dcfgPartn = true) (hfill : Fillable partn h.content.sector h.content.board) :
    Takes (setVersionBody dcfgPartn partn version) (bodyCommands partn version h.content) h ()
      (h.content.setSector (h.content.sector.rewritten (updated partn version h.content))) := by
  obtain ⟨hroom, hboard⟩ := hfill
  have hl := (plausible_getDynamicCfg h.content.sector true).length_eq
  refine takes_bind (takes_getDynamicCfg hp true) fun h1 _ _ hc1 => takes_ensure_bind (by omega) ?_
  rw [← hc1] at hboard
  refine takes_bind (takes_getSubtype hboard) fun h2 _ _ hc2 => ?_
  rw [hc1]
  refine takes_bind (takes_partnErase h2) fun h3 _ _ hc3 => ?_
  rw [hc2, hc1] at hc3
  exact takes_partnWrite _ _ hc3

theorem stops_setVersionBody {dcfgPartn partn : ℕ} (version : Version) {h : Host SienaFlash}
    (hp : h.content.hasPartn dcfgPartn = true) (hfill : ¬ Fillable partn h.content.sector h.content.board) :
    Stops (setVersionBody dcfgPartn partn version) h := by
  have hl := (plausible_getDynamicCfg h.content.sector true).length_eq
  refine stops_bind (takes_getDynamicCfg hp true) fun h1 hc1 => ?_
  rw [hl]
  by_cases hroom : dynamicCfgSize (partn + 1) + vpdLength (h.content.sector.getDynamicCfg true) ≤ h.content.sector.size
  · have hboard : h.content.board.fwSubtypeList[partn]? = none := by
      refine List.getElem?_eq_none_iff.mpr ?_
      by_contra hlt
      exact hfill ⟨hroom, by omega⟩
    have hstop : Stops (getSubtype partn) h1 := by
      refine stops_bind (takes_command h1) fun h2 hc2 => ⟨Errno.ENOENT, h2, ?_⟩
      rw [bind_of_ret (content_apply h2), hc2, hc1, Nvram.getSubtype, hboard]
      rfl
    obtain ⟨e, h2, hr⟩ := hstop
    refine ⟨e, h2, ?_⟩
    rw [bind_of_ret (ensure_pos (by omega)), bind_of_err hr]
  · exact stops_ensure_bind (by omega)

/-- The condition on `siena_nvram_partn_set_version` to give its lock back: it does not get it, or nothing can
make it leave before the unlock. -/
def Unhurt (dcfgPartn partn : ℕ) (version : Version) (h : Host SienaFlash) : Prop :=
  h.content.hasPartn dcfgPartn = true → h.fails h.count = none → h.fails (h.count + 1) = none →
    Fillable partn h.content.sector h.content.board ∧
      ∀ k < bodyCommands partn version h.content, h.fails (h.count + 2 + k) = none

instance (dcfgPartn partn : ℕ) (version : Version) (h : Host SienaFlash) :
    Decidable (Unhurt dcfgPartn partn version h) := inferInstanceAs (Decidable (_ → _ → _ → _))

/-- **`siena_nvram_partn_set_version` is balanced exactly when it is not hurt.** -/
theorem balanced_partnSetVersion_iff (dcfgPartn partn : ℕ) (version : Version) (h : Host SienaFlash) :
    Balanced dcfgPartn (partnSetVersion dcfgPartn partn version) h ↔ Unhurt dcfgPartn partn version h := by
  unfold partnSetVersion
  by_cases hp : h.content.hasPartn dcfgPartn = true
  swap
  · have hsize : partnSize dcfgPartn h = .err Errno.ENOTSUP h := by
      rw [partnSize, bind_of_ret (content_apply h), bind_of_err (ensure_neg hp)]
    refine ⟨fun _ hp' => absurd hp' hp, fun _ h' hr => ?_⟩
    rw [bind_of_err hsize] at hr
    cases hr
    exact Or.inl rfl
  have hsize := takes_partnSize hp
  have hframe := frames_partnSize dcfgPartn h
  by_cases h0 : h.fails h.count = none
  swap
  · obtain ⟨e, h1, hr1⟩ := hsize.err fun hc => h0 (clear_one.mp hc)
    refine ⟨fun _ _ h0' => absurd h0' h0, fun _ h' hr => ?_⟩
    rw [bind_of_err hr1] at hr
    cases hr
    exact Or.inl (hframe _ (by rw [hr1]; rfl))
  obtain ⟨h1, hr1, hcount1, hfails1, hc1⟩ := hsize.ret (clear_one.mpr h0)
  have hlocks1 : h1.locks = h.locks := hframe _ (by rw [hr1]; rfl)
  rcases nvramUpdateStart_cases dcfgPartn h1 with ⟨hs, hf1⟩ | ⟨e, hs, hf1⟩
  swap
  · rw [hfails1, hcount1] at hf1
    refine ⟨fun _ _ _ hf => ?_, fun _ h' hr => ?_⟩
    · rw [hf1] at hf
      cases hf
    · rw [bind_of_ret hr1, bind_of_err hs] at hr
      cases hr
      exact Or.inl hlocks1
  rw [hfails1, hcount1] at hf1
  obtain ⟨h2, hh2⟩ : ∃ h2, h2 = h1.tick.log (.start dcfgPartn) := ⟨_, rfl⟩
  rw [← hh2] at hs
  have hc2 : h2.content = h.content := by rw [hh2]; exact hc1
  have hcount2 : h2.count = h.count + 2 := by rw [hh2]; exact congrArg (· + 1) hcount1
  have hfails2 : h2.fails = h.fails := by rw [hh2]; exact hfails1
  have hlocks2 : h2.locks = h.locks ++ [.start dcfgPartn] := by rw [hh2, ← hlocks1]; rfl
  have hclear : h2.Clear (bodyCommands partn version h.content) ↔
      ∀ k < bodyCommands partn version h.content, h.fails (h.count + 2 + k) = none := by
    rw [Host.Clear, hfails2, hcount2]
  have hbody := frames_setVersionBody dcfgPartn partn version h2
  -- an exit behind the lock leaves it taken
  have hbad : ∀ {e h3}, setVersionBody dcfgPartn partn version h2 = .err e h3 →
      ¬ Balanced dcfgPartn (do
        let _ ← partnSize dcfgPartn
        nvramUpdateStart dcfgPartn
        setVersionBody dcfgPartn partn version
        nvramUpdateFinish dcfgPartn) h := by
    intro e h3 hr3 hb
    have hlocks3 : h3.locks = h.locks ++ [.start dcfgPartn] := (hbody _ (by rw [hr3]; rfl)).trans hlocks2
    have hb3 : h3.locks = h.locks ∨ h3.locks = h.locks ++ [.start dcfgPartn, .finish dcfgPartn] :=
      hb h3 (by rw [bind_of_ret hr1, bind_of_ret hs, bind_of_err hr3]; rfl)
    rw [hlocks3] at hb3
    rcases hb3 with hb3 | hb3
    · exact absurd (congrArg List.length hb3) (by simp)
    · exact absurd (congrArg List.length hb3) (by simp)
  by_cases hfill : Fillable partn h.content.sector h.content.board
  swap
  · obtain ⟨e, h3, hr3⟩ := stops_setVersionBody version (h := h2) (by rwa [hc2]) (by rwa [hc2])
    exact ⟨fun hb => absurd hb (hbad hr3), fun hu => absurd (hu hp h0 hf1).1 hfill⟩
  have htakes := takes_setVersionBody version (h := h2) (by rwa [hc2]) (by rwa [hc2])
  rw [hc2] at htakes
  by_cases hcl : h2.Clear (bodyCommands partn version h.content)
  · refine ⟨fun _ _ _ _ => ⟨hfill, hclear.mp hcl⟩, fun _ h' hr => ?_⟩
    obtain ⟨h3, hr3, -⟩ := htakes.ret hcl
    obtain ⟨h4, hr4, hlocks4⟩ := nvramUpdateFinish_ret dcfgPartn h3
    have hlocks3 : h3.locks = h.locks ++ [.start dcfgPartn] := (hbody _ (by rw [hr3]; rfl)).trans hlocks2
    rw [bind_of_ret hr1, bind_of_ret hs, bind_of_ret hr3, hr4] at hr
    cases hr
    exact Or.inr (by rw [hlocks4, hlocks3, List.append_assoc]; rfl)
  · obtain ⟨e, h3, hr3⟩ := htakes.err hcl
    exact ⟨fun hb => absurd hb (hbad hr3), fun hu => absurd (hclear.mpr (hu hp h0 hf1).2) hcl⟩

end Siena

/-! ### The four updates -/

end Sfxge.Nvram
