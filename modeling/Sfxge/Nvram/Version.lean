import Mathlib.Data.List.Lex
import Sfxge.Nvram.Examined

/-!
# Nvram.Version — the version of a partition

`siena_nvram_partn_get_version` looks for the highest version among the configurations of the ports that have access to
the partition.  It takes an item by comparing its number with the count of items, and versions as bytes in memory.
-/

namespace Sfxge.Nvram

open Lib

def MC_CMD_NVRAM_TYPE_DISABLED_CALLISTO : ℕ := 0x0
def MC_CMD_NVRAM_TYPE_MC_FW : ℕ := 0x1
def MC_CMD_NVRAM_TYPE_MC_FW_BACKUP : ℕ := 0x2
def MC_CMD_NVRAM_TYPE_DYNAMIC_CFG_PORT0 : ℕ := 0x5
def MC_CMD_NVRAM_TYPE_DYNAMIC_CFG_PORT1 : ℕ := 0x6
def MC_CMD_NVRAM_TYPE_EXP_ROM : ℕ := 0x7
def MC_CMD_NVRAM_TYPE_EXP_ROM_CFG_PORT0 : ℕ := 0x8
def MC_CMD_NVRAM_TYPE_EXP_ROM_CFG_PORT1 : ℕ := 0x9
def MC_CMD_NVRAM_TYPE_PHY_PORT0 : ℕ := 0xa
def MC_CMD_NVRAM_TYPE_PHY_PORT1 : ℕ := 0xb
def MC_CMD_NVRAM_TYPE_FPGA : ℕ := 0xd
def MC_CMD_NVRAM_TYPE_FPGA_BACKUP : ℕ := 0xe
def MC_CMD_NVRAM_TYPE_FC_FW : ℕ := 0xf
def MC_CMD_NVRAM_TYPE_CPLD : ℕ := 0x11
def MC_CMD_NVRAM_TYPE_LICENSE : ℕ := 0x12

/-- `siena_parttbl_entry_t` -/
structure SienaParttblEntry where
  partn : ℕ
  port : ℕ

/-- `siena_parttbl` -/
def sienaParttbl : List SienaParttblEntry := [
  ⟨MC_CMD_NVRAM_TYPE_DISABLED_CALLISTO, 1⟩, ⟨MC_CMD_NVRAM_TYPE_DISABLED_CALLISTO, 2⟩,
  ⟨MC_CMD_NVRAM_TYPE_MC_FW, 1⟩, ⟨MC_CMD_NVRAM_TYPE_MC_FW, 2⟩,
  ⟨MC_CMD_NVRAM_TYPE_MC_FW_BACKUP, 1⟩, ⟨MC_CMD_NVRAM_TYPE_MC_FW_BACKUP, 2⟩,
  ⟨MC_CMD_NVRAM_TYPE_EXP_ROM, 1⟩, ⟨MC_CMD_NVRAM_TYPE_EXP_ROM, 2⟩,
  ⟨MC_CMD_NVRAM_TYPE_EXP_ROM_CFG_PORT0, 1⟩, ⟨MC_CMD_NVRAM_TYPE_EXP_ROM_CFG_PORT1, 2⟩,
  ⟨MC_CMD_NVRAM_TYPE_PHY_PORT0, 1⟩, ⟨MC_CMD_NVRAM_TYPE_PHY_PORT1, 2⟩,
  ⟨MC_CMD_NVRAM_TYPE_FPGA, 1⟩, ⟨MC_CMD_NVRAM_TYPE_FPGA, 2⟩,
  ⟨MC_CMD_NVRAM_TYPE_FPGA_BACKUP, 1⟩, ⟨MC_CMD_NVRAM_TYPE_FPGA_BACKUP, 2⟩,
  ⟨MC_CMD_NVRAM_TYPE_FC_FW, 1⟩, ⟨MC_CMD_NVRAM_TYPE_FC_FW, 2⟩,
  ⟨MC_CMD_NVRAM_TYPE_CPLD, 1⟩, ⟨MC_CMD_NVRAM_TYPE_CPLD, 2⟩,
  ⟨MC_CMD_NVRAM_TYPE_LICENSE, 1⟩, ⟨MC_CMD_NVRAM_TYPE_LICENSE, 2⟩]

/-- The controller: its partitions, the subtypes of its board, the dynamic configuration of each port, and what the
commands that read that fail with. -/
structure SienaNic where
  enuPartnMask : BitVec 32
  board : Except Errno Board
  dcfg : ℕ → ConfigPartn
  fails : ℕ → Option Errno

/-! ### Versions -/

/-- The version in an item. -/
def FwVersion.version (v : FwVersion) : Version := ⟨v.versionW, v.versionX, v.versionY, v.versionZ⟩

/-- The item of a partition, whether or not it is one. -/
def fwVersionAt (dcfg : Bytes) (partn : ℕ) : Version :=
  (FwVersion.ofBytes (slice dcfg (dynamicCfgSize partn) 12)).version

namespace Version

def zero : Version := ⟨0, 0, 0, 0⟩

/-- The numbers of a version, as they are compared. -/
def words (v : Version) : List ℕ := [v.w.toNat, v.x.toNat, v.y.toNat, v.z.toNat]

/-- The bytes of the array, as `memcmp` compares them. -/
def memory (v : Version) : List ℕ := v.words.flatMap fun w => [w % 256, w / 256]

end Version

/-! ### The lookup -/

/-- What an entry of the table makes of the version so far: the item that is taken. -/
def itemTaken (dcfg : Bytes) (partn : ℕ) : Option Version :=
  if nversions dcfg < partn then none else some (fwVersionAt dcfg partn)

/-- `memcmp(version, temp) < 0` -/
def Version.later (version temp : Version) : Version := if version.memory < temp.memory then temp else version

variable (nic : SienaNic) (partn : ℕ)

/-- A missing configuration of port 2 is ignored. -/
def SienaNic.ignores (entry : SienaParttblEntry) : Bool :=
  let dcfgPartn := if entry.port = 1 then MC_CMD_NVRAM_TYPE_DYNAMIC_CFG_PORT0
    else MC_CMD_NVRAM_TYPE_DYNAMIC_CFG_PORT1
  !nic.enuPartnMask.getLsbD dcfgPartn && entry.port = 2

/-- A round of the loop. -/
def versionRound (version : Version) (entry : SienaParttblEntry) : Except Errno Version :=
  if entry.partn ≠ partn then .ok version
  else if nic.ignores entry then .ok version
  else match nic.fails entry.port with
    | some e => .error e
    | none => match itemTaken ((nic.dcfg entry.port).getDynamicCfg false) partn with
      | none => .ok version
      | some temp => .ok (version.later temp)

/-- `siena_nvram_partn_get_version` -/
def sienaNvramPartnGetVersion : Except Errno (UInt32 × Version) :=
  if !nic.enuPartnMask.getLsbD partn then .error .ENOTSUP
  else do
    let board ← nic.board
    let subtype ← getSubtype board partn
    let version ← sienaParttbl.foldlM (versionRound nic partn) Version.zero
    .ok (subtype, version)

/-! ### What it should be -/

/-- The entries of the ports that have access to the partition. -/
def accessible : List SienaParttblEntry := sienaParttbl.filter fun entry => entry.partn = partn && !nic.ignores entry

/-- The count of items in a valid configuration. -/
def ConfigPartn.nitems (p : ConfigPartn) : ℕ := if p.Accepts false then nversions p.flash else 0

/-- The versions recorded for the partition. -/
def recorded : List Version := ((accessible nic partn).filter fun entry => partn < (nic.dcfg entry.port).nitems).map
  fun entry => fwVersionAt (nic.dcfg entry.port).flash partn

/-- The version is the greatest of those recorded, and 0.0.0.0 if there is none; no item beyond the count is taken. -/
structure VersionRight (version : Version) : Prop where
  none : recorded nic partn = [] → version = Version.zero
  mem : recorded nic partn ≠ [] → version ∈ recorded nic partn
  greatest : ∀ v ∈ recorded nic partn, v.words ≤ version.words
  items : ∀ entry ∈ accessible nic partn, (itemTaken ((nic.dcfg entry.port).getDynamicCfg false) partn).isSome →
    partn < nversions ((nic.dcfg entry.port).getDynamicCfg false)

/-! ### The items -/

variable {nic partn} {p : ConfigPartn} {version temp u v : Version}

/-- Without the VPD, an accepted header is that of the flash. -/
theorem ConfigPartn.take_getDynamicCfg (h : p.Accepts false) :
    (p.getDynamicCfg false).take (hdrLength p.flash) = p.flash.take (hdrLength p.flash) := by
  have hread : hdrLength p.flash ≤ p.readTo false := le_max_right _ _
  obtain ⟨-, ⟨-, hbytes⟩, -⟩ := (ConfigPartn.dynamic_iff h).mpr ⟨nofun, fun i hi hlt => by omega⟩
  exact hbytes

/-- The items of an accepted header are inside it. -/
theorem ConfigPartn.items_le (h : p.Accepts false) : dynamicCfgSize (nversions p.flash) ≤ hdrLength p.flash := by
  have hwf := (ConfigPartn.accepts_iff.mp h).1.2.2
  omega

/-- Any other configuration is taken as one without items. -/
theorem ConfigPartn.nversions_rejected (h : ¬ p.Accepts false) : nversions (p.getDynamicCfg false) = 0 := by
  have h20 : 20 ≤ p.flash.length := le_trans (by decide) p.chunk_le
  have hnull : ∀ dcfg : Bytes, dcfg.length = p.flash.length → nversions (nullDcfg dcfg) = 0 :=
    fun dcfg hl => (nullDcfg_spec h20 hl).2.2.2.1
  unfold ConfigPartn.getDynamicCfg
  dsimp only
  by_cases hwf : WellFormed p.flash.length p.firstChunk
  · rw [if_neg (not_not.mpr hwf), if_pos fun hs => h ⟨hwf, hs⟩]
    refine hnull _ ?_
    rw [ConfigPartn.readRegion_region]
    exact length_readInto (ConfigPartn.readTo_le (ConfigPartn.wellFormed_firstChunk.mp hwf))
  · rw [if_pos hwf]
    exact hnull _ (length_readInto p.chunk_le)

theorem ConfigPartn.nversions_getDynamicCfg (p : ConfigPartn) : nversions (p.getDynamicCfg false) = p.nitems := by
  unfold ConfigPartn.nitems
  split_ifs with h
  · have hle := ConfigPartn.items_le h
    unfold dynamicCfgSize at hle
    exact u32_of_take (ConfigPartn.take_getDynamicCfg h) (by omega)
  · exact ConfigPartn.nversions_rejected h

/-- An item of a valid configuration is that in flash. -/
theorem ConfigPartn.fwVersionAt_getDynamicCfg (hlt : partn < p.nitems) :
    fwVersionAt (p.getDynamicCfg false) partn = fwVersionAt p.flash partn := by
  unfold ConfigPartn.nitems at hlt
  split_ifs at hlt with h
  · have hle := ConfigPartn.items_le h
    unfold dynamicCfgSize at hle
    rw [fwVersionAt, fwVersionAt, slice_of_take (ConfigPartn.take_getDynamicCfg h) (by unfold dynamicCfgSize; omega)]
  · omega

/-! ### Versions in their two orders -/

theorem Version.words_injective : Function.Injective Version.words := by
  rintro ⟨w, x, y, z⟩ ⟨w', x', y', z'⟩ h
  simpa [Version.words, UInt16.toNat_inj] using h

theorem Version.memory_injective : Function.Injective Version.memory := by
  intro u v h
  refine Version.words_injective ?_
  simp only [Version.memory, Version.words, List.flatMap_cons, List.flatMap_nil, List.cons_append, List.nil_append,
    List.cons.injEq, and_true] at h ⊢
  omega

/-- Nothing is before 0.0.0.0. -/
theorem Version.zero_memory_le (v : Version) : Version.zero.memory ≤ v.memory := by
  refine not_lt.mp fun h => ?_
  simp [Version.memory, Version.words, Version.zero, List.cons_lt_cons_iff] at h

theorem Version.later_zero (v : Version) : Version.zero.later v = v := by
  unfold Version.later
  split_ifs with h
  · rfl
  · exact Version.memory_injective (le_antisymm (Version.zero_memory_le v) (not_lt.mp h))

/-- The later of two versions is the greater one exactly if the two orders agree on them. -/
theorem Version.later_greatest_iff (u v : Version) :
    (u.words ≤ (u.later v).words ∧ v.words ≤ (u.later v).words) ↔
      (u.memory < v.memory ↔ u.words < v.words) := by
  unfold Version.later
  split_ifs with h
  · have hne : u.words ≠ v.words := fun he => h.ne (congrArg Version.memory (Version.words_injective he))
    simp only [le_refl, and_true, h, true_iff]
    exact ⟨fun hle => lt_of_le_of_ne hle hne, le_of_lt⟩
  · simp only [le_refl, true_and, h, false_iff, not_lt]

/-- Two orders that agree on two versions agree on them the other way round. -/
theorem Version.agree_symm (h : u.memory < v.memory ↔ u.words < v.words) :
    v.memory < u.memory ↔ v.words < u.words := by
  by_cases he : u = v
  · subst he
    exact h
  · have hm : u.memory ≠ v.memory := fun h => he (Version.memory_injective h)
    have hw : u.words ≠ v.words := fun h => he (Version.words_injective h)
    rw [← not_le, ← not_le, hm.le_iff_lt, hw.le_iff_lt, h]

/-! ### The loop -/

/-- The items that are taken. -/
def taken (nic : SienaNic) (partn : ℕ) (entries : List SienaParttblEntry) : List Version :=
  (entries.filter fun entry => entry.partn = partn && !nic.ignores entry).filterMap fun entry =>
    itemTaken ((nic.dcfg entry.port).getDynamicCfg false) partn

/-- The loop takes the latest of the items, unless a command fails. -/
theorem versionLoop (nic : SienaNic) (partn : ℕ) (entries : List SienaParttblEntry) (version : Version) :
    (∃ e, entries.foldlM (versionRound nic partn) version = .error e ∧
      ∃ entry ∈ entries.filter (fun entry => entry.partn = partn && !nic.ignores entry),
        nic.fails entry.port ≠ none) ∨
    (entries.foldlM (versionRound nic partn) version = .ok ((taken nic partn entries).foldl Version.later version) ∧
      ∀ entry ∈ entries.filter (fun entry => entry.partn = partn && !nic.ignores entry),
        nic.fails entry.port = none) := by
  induction entries generalizing version with
  | nil => exact .inr ⟨rfl, nofun⟩
  | cons entry entries ih =>
    have hround : ∀ version', versionRound nic partn version entry = .ok version' →
        (entry :: entries).foldlM (versionRound nic partn) version =
          entries.foldlM (versionRound nic partn) version' := by
      intro version' h
      rw [List.foldlM_cons, h]
      rfl
    by_cases hacc : (decide (entry.partn = partn) && !nic.ignores entry) = true
    swap
    · have hskip : versionRound nic partn version entry = .ok version := by
        unfold versionRound
        split_ifs with h1 h2
        · rfl
        · rfl
        · simp [not_not.mp h1, h2] at hacc
      have hfilter : (entry :: entries).filter (fun entry => entry.partn = partn && !nic.ignores entry) =
          entries.filter fun entry => entry.partn = partn && !nic.ignores entry := by simp [hacc]
      rw [hround version hskip, taken, hfilter]
      exact ih version
    · obtain ⟨hp, hi⟩ : entry.partn = partn ∧ nic.ignores entry = false := by simpa using hacc
      have hread : versionRound nic partn version entry = match nic.fails entry.port with
          | some e => .error e
          | none => match itemTaken ((nic.dcfg entry.port).getDynamicCfg false) partn with
            | none => .ok version
            | some temp => .ok (version.later temp) := by
        unfold versionRound
        rw [if_neg (not_not.mpr hp), hi, if_neg Bool.false_ne_true]
      have hfilter : (entry :: entries).filter (fun entry => entry.partn = partn && !nic.ignores entry) =
          entry :: entries.filter fun entry => entry.partn = partn && !nic.ignores entry := by simp [hp, hi]
      rw [taken, hfilter, List.filterMap_cons]
      cases hf : nic.fails entry.port with
      | some e =>
        refine .inl ⟨e, ?_, entry, List.mem_cons_self, by rw [hf]; exact nofun⟩
        rw [hf] at hread
        rw [List.foldlM_cons, hread]
        rfl
      | none =>
        rw [hf] at hread
        cases ht : itemTaken ((nic.dcfg entry.port).getDynamicCfg false) partn with
        | none =>
          rw [ht] at hread
          rw [hround version hread]
          refine (ih version).imp (fun ⟨e, he, x, hx, hxf⟩ => ⟨e, he, x, List.mem_cons_of_mem _ hx, hxf⟩) ?_
          exact fun ⟨he, hall⟩ => ⟨he, List.forall_mem_cons.mpr ⟨hf, hall⟩⟩
        | some temp =>
          rw [ht] at hread
          rw [hround _ hread]
          refine (ih _).imp (fun ⟨e, he, x, hx, hxf⟩ => ⟨e, he, x, List.mem_cons_of_mem _ hx, hxf⟩) ?_
          exact fun ⟨he, hall⟩ => ⟨he, List.forall_mem_cons.mpr ⟨hf, hall⟩⟩

/-- Every command succeeds. -/
structure Readable (nic : SienaNic) (partn : ℕ) : Prop where
  present : nic.enuPartnMask.getLsbD partn = true
  subtype : ∃ board subtype, nic.board = .ok board ∧ getSubtype board partn = .ok subtype
  dcfg : ∀ entry ∈ accessible nic partn, nic.fails entry.port = none

/-- What the lookup returns. -/
theorem getVersion_ok (hread : Readable nic partn) : ∃ subtype, sienaNvramPartnGetVersion nic partn =
    .ok (subtype, (taken nic partn sienaParttbl).foldl Version.later Version.zero) := by
  obtain ⟨hpresent, ⟨board, subtype, hboard, hsubtype⟩, hdcfg⟩ := hread
  refine ⟨subtype, ?_⟩
  unfold sienaNvramPartnGetVersion
  obtain ⟨e, he, entry, hmem, hfails⟩ | ⟨hok, -⟩ := versionLoop nic partn sienaParttbl Version.zero
  · exact absurd (hdcfg entry hmem) hfails
  · rw [hpresent, hboard, hok]
    show (getSubtype board partn >>= fun subtype => _) = _
    rw [hsubtype]
    rfl

/-- It returns nothing else. -/
theorem readable_of_ok {r : UInt32 × Version} (h : sienaNvramPartnGetVersion nic partn = .ok r) :
    Readable nic partn := by
  unfold sienaNvramPartnGetVersion at h
  cases hpresent : nic.enuPartnMask.getLsbD partn
  · rw [hpresent] at h
    cases h
  rw [hpresent] at h
  cases hboard : nic.board with
  | error e =>
    rw [hboard] at h
    cases h
  | ok board =>
    rw [hboard] at h
    cases hsubtype : getSubtype board partn with
    | error e =>
      replace h : (getSubtype board partn >>= fun subtype => _) = Except.ok r := h
      rw [hsubtype] at h
      cases h
    | ok subtype =>
      replace h : (getSubtype board partn >>= fun subtype => _) = Except.ok r := h
      rw [hsubtype] at h
      obtain ⟨e, he, -⟩ | ⟨-, hall⟩ := versionLoop nic partn sienaParttbl Version.zero
      · replace h : (sienaParttbl.foldlM (versionRound nic partn) Version.zero >>= fun version => _) = Except.ok r := h
        rw [he] at h
        cases h
      · exact ⟨hpresent, ⟨board, subtype, hboard, hsubtype⟩, hall⟩

/-! ### What the lookup gets right -/

/-- No count of items is the partition, and the versions of the ports compare in memory as they do in number. -/
structure VersionsPlain (nic : SienaNic) (partn : ℕ) : Prop where
  items : ∀ entry ∈ accessible nic partn, (nic.dcfg entry.port).nitems ≠ partn
  orders : ∀ u ∈ recorded nic partn, ∀ v ∈ recorded nic partn, u.memory < v.memory ↔ u.words < v.words

/-- An item is taken unless the count is below the partition. -/
theorem itemTaken_isSome_iff : (itemTaken (p.getDynamicCfg false) partn).isSome ↔ partn ≤ p.nitems := by
  unfold itemTaken
  rw [ConfigPartn.nversions_getDynamicCfg]
  split_ifs with h
  · simp [h]
  · simp [not_lt.mp h]

theorem itemTaken_eq (hne : p.nitems ≠ partn) :
    itemTaken (p.getDynamicCfg false) partn = if partn < p.nitems then some (fwVersionAt p.flash partn) else none := by
  unfold itemTaken
  rw [ConfigPartn.nversions_getDynamicCfg]
  split_ifs with h1 h2 h2
  · omega
  · rfl
  · rw [ConfigPartn.fwVersionAt_getDynamicCfg h2]
  · omega

/-- With no item taken at the count, those taken are those recorded. -/
theorem taken_eq_recorded (hitems : ∀ entry ∈ accessible nic partn, (nic.dcfg entry.port).nitems ≠ partn) :
    taken nic partn sienaParttbl = recorded nic partn := by
  unfold recorded
  rw [← List.filterMap_eq_map, List.filterMap_filter]
  refine List.filterMap_congr fun entry hmem => ?_
  rw [itemTaken_eq (hitems entry hmem)]
  simp only [decide_eq_true_eq, Function.comp_apply]

/-- A partition has an entry for each port at most. -/
theorem length_recorded_le (hpartn : partn < 32) : (recorded nic partn).length ≤ 2 := by
  have htable : ∀ partn < 32, (sienaParttbl.filter fun entry => entry.partn = partn).length ≤ 2 := by decide
  unfold recorded accessible
  rw [List.length_map]
  refine (List.Sublist.trans List.filter_sublist ?_).length_le.trans (htable partn hpartn)
  exact List.monotone_filter_right _ fun entry h => (Bool.and_eq_true_iff.mp h).1

/-- The latest of two versions at most is a right answer exactly if the orders agree on them. -/
theorem latest_greatest_iff (versions : List Version) (hle : versions.length ≤ 2) :
    (∀ v ∈ versions, v.words ≤ (versions.foldl Version.later Version.zero).words) ↔
      ∀ u ∈ versions, ∀ v ∈ versions, u.memory < v.memory ↔ u.words < v.words := by
  match versions, hle with
  | [], _ => exact ⟨fun _ => nofun, fun _ => nofun⟩
  | [u], _ =>
    simp only [List.foldl_cons, List.foldl_nil, Version.later_zero, List.mem_singleton, forall_eq, le_refl, lt_irrefl]
  | [u, v], _ =>
    simp only [List.foldl_cons, List.foldl_nil, Version.later_zero, List.forall_mem_cons, List.not_mem_nil,
      IsEmpty.forall_iff, implies_true, and_true]
    rw [Version.later_greatest_iff]
    exact ⟨fun h => ⟨⟨by simp only [lt_irrefl], h⟩, Version.agree_symm h, by simp only [lt_irrefl]⟩, fun h => h.1.2⟩

/-- It is one of them. -/
theorem latest_mem (versions : List Version) (hne : versions ≠ []) :
    versions.foldl Version.later Version.zero ∈ versions := by
  obtain ⟨v, rest, rfl⟩ := List.exists_cons_of_ne_nil hne
  rw [List.foldl_cons, Version.later_zero]
  clear hne
  induction rest generalizing v with
  | nil => exact List.mem_singleton_self v
  | cons temp rest ih =>
    rw [List.foldl_cons]
    obtain h | h := List.mem_cons.mp (ih (v.later temp))
    · rw [h]
      unfold Version.later
      split_ifs
      · exact List.mem_cons_of_mem _ List.mem_cons_self
      · exact List.mem_cons_self
    · exact List.mem_cons_of_mem _ (List.mem_cons_of_mem _ h)

/-- The answer is right exactly if the items and the orders are plain. -/
theorem versionRight_iff (hread : Readable nic partn) :
    VersionRight nic partn ((taken nic partn sienaParttbl).foldl Version.later Version.zero) ↔
      VersionsPlain nic partn := by
  have hpartn : partn < 32 := by
    by_contra hge
    exact absurd hread.present (by rw [BitVec.getLsbD_of_ge _ _ (not_lt.mp hge)]; exact Bool.false_ne_true)
  have hlatest := latest_greatest_iff (recorded nic partn) (length_recorded_le hpartn)
  constructor
  · rintro ⟨hnone, hmem, hgreatest, hitems⟩
    have hplain : ∀ entry ∈ accessible nic partn, (nic.dcfg entry.port).nitems ≠ partn := by
      intro entry he heq
      have h := hitems entry he (itemTaken_isSome_iff.mpr heq.ge)
      rw [ConfigPartn.nversions_getDynamicCfg, heq] at h
      exact lt_irrefl _ h
    rw [taken_eq_recorded hplain] at hgreatest
    exact ⟨hplain, hlatest.mp hgreatest⟩
  · rintro ⟨hplain, horders⟩
    rw [taken_eq_recorded hplain]
    refine ⟨fun hnil => by rw [hnil]; rfl, latest_mem _, hlatest.mpr horders, ?_⟩
    intro entry he htaken
    rw [ConfigPartn.nversions_getDynamicCfg]
    exact lt_of_le_of_ne (itemTaken_isSome_iff.mp htaken) (hplain entry he).symm

/-- A valid configuration with one item, of the version `0.0.0.z`. -/
def oneItem (zLow zHigh : UInt8) : ConfigPartn where
  flash := le 4 dcfgMagic ++ [32, 0, 0, 121 - zLow - zHigh] ++ le 4 32 ++ le 4 0 ++ le 4 1 ++ List.replicate 10 0 ++
    [zLow, zHigh] ++ List.replicate 224 0
  chunk_le := by
    simp only [List.length_append, length_le, List.length_replicate, List.length_cons, List.length_nil]
    decide
  lt := by
    simp only [List.length_append, length_le, List.length_replicate, List.length_cons, List.length_nil]
    decide

/-- A board with `0.0.0.255` on port 1, and `0.0.0.256` on port 2. -/
def twoPorts : SienaNic where
  enuPartnMask := 0xffffffff
  board := .ok ⟨[0, 0], by decide⟩
  dcfg port := if port = 1 then oneItem 255 0 else oneItem 0 1
  fails _ := none

end Sfxge.Nvram
