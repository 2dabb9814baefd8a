import Sfxge.Lib.Bits
import Sfxge.Lib.Tenancy
import Sfxge.Tx.Pio

/-!
# Tx.PioRuns — the blocks that the queues hold, over runs

Which queue holds which block is a tenancy; the maps of the buffers are its shadow, bit by bit.  A write is checked
against the size of the block by a sum that wraps around, so that one with an offset close to the end of the address
space is accepted and starts below the block.
-/

namespace Sfxge.Tx.Pio

open Lib Prog

variable {enp enp' : Nic} {encp : NicCfg} {edcp : DrvCfg} {s s' : Sys} {buf blk n i j : ℕ}

/-! ### The limits -/

/-- The driver configuration fits the board. -/
structure DrvCfg.Fits (encp : NicCfg) (edcp : DrvCfg) : Prop where
  count : edcp.edcMaxPiobufCount ≤ ef10MaxPiobufNbufs
  zero : edcp.edcPioAllocSize = 0 → edcp.edcMaxPiobufCount = 0
  blks : encp.encPiobufSize / edcp.edcPioAllocSize ≤ 32

/-- **Driver limits that are accepted** give a configuration that fits. -/
theorem fits_of_setDrvLimits {edlp : Option DrvLimits} (h : ef10NicSetDrvLimits encp edlp = .ok edcp) :
    edcp.Fits encp := by
  cases edlp with
  | none => cases h
  | some edlp =>
    unfold ef10NicSetDrvLimits at h
    dsimp only at h
    split at h
    · cases h
      exact ⟨Nat.zero_le _, fun _ => rfl, by simp⟩
    next hon =>
      cases h
      simp only [not_or, not_lt, gt_iff_lt] at hon
      obtain ⟨hsize, -, hmin, hle⟩ := hon
      have hmul := encp.size_eq
      have hlimit := encp.limit_le
      generalize hb : max edlp.edlMinPioAllocSize encp.encPiobufMinAllocSize = blkSize
      have hpos : 0 < blkSize := by omega
      have hblks : encp.encPiobufSize / blkSize ≤ 32 := by
        refine Nat.div_le_of_le_mul ?_
        have : encp.encPiobufMinAllocSize ≤ blkSize := by omega
        omega
      have hone : 1 ≤ encp.encPiobufSize / blkSize := by
        rw [Nat.one_le_div_iff hpos]
        omega
      refine ⟨?_, fun h0 => absurd h0 hpos.ne', hblks⟩
      refine le_trans ?_ hlimit
      dsimp only
      generalize encp.encPiobufSize / blkSize = blks at hone
      refine Nat.le_of_lt_succ ((Nat.div_lt_iff_lt_mul hone).mpr ?_)
      have hcount : (if edlp.edlMaxPioAllocCount > 0 ∧ edlp.edlMaxPioAllocCount < encp.encPiobufLimit * blks then
          edlp.edlMaxPioAllocCount else encp.encPiobufLimit * blks) ≤ encp.encPiobufLimit * blks := by
        split_ifs <;> omega
      rw [Nat.succ_mul]
      omega

/-! ### The initialisation -/

/-- The buffers are there, and no block of them is taken. -/
structure Nic.Fresh (enp : Nic) : Prop where
  fits : enp.edcp.Fits enp.encp
  count : enp.piobufCount ≤ enp.edcp.edcMaxPiobufCount
  map : ∀ buf < enp.piobufCount, enp.pioAllocMap buf = 0

theorem fresh_freePiobufs (h : enp.edcp.Fits enp.encp) : (ef10NicFreePiobufs enp).Fresh :=
  ⟨h, Nat.zero_le _, fun _ hbuf => absurd hbuf (Nat.not_lt_zero _)⟩

theorem fresh_allocPiobufsLoop {alloc : ℕ → Except Errno U32} (hfits : enp.edcp.Fits enp.encp)
    (hcount : enp.piobufCount + n = enp.edcp.edcMaxPiobufCount) (hmap : ∀ buf < enp.piobufCount, enp.pioAllocMap buf = 0) :
    (allocPiobufsLoop alloc enp.piobufCount n enp).Fresh := by
  induction n generalizing enp with
  | zero => exact ⟨hfits, hcount.le, hmap⟩
  | succ n ih =>
    rw [allocPiobufsLoop]
    cases alloc enp.piobufCount with
    | error e => exact fresh_freePiobufs hfits
    | ok handle =>
      refine @ih { enp with
        piobufHandle := Function.update enp.piobufHandle enp.piobufCount handle
        pioAllocMap := Function.update enp.pioAllocMap enp.piobufCount 0
        piobufCount := enp.piobufCount + 1 } hfits (by dsimp only; omega) fun buf hbuf => ?_
      dsimp only at hbuf ⊢
      by_cases hb : buf = enp.piobufCount
      · rw [hb, Function.update_self]
      · rw [Function.update_of_ne hb]
        exact hmap buf (by omega)

theorem fresh_saveMemMaps (h : enp.Fresh) (vis : Vis) :
    (saveMemMaps enp vis).Fresh ∧
      (saveMemMaps enp vis).wcMemMapSize = ER_DZ_TX_PIOBUF_STEP * (saveMemMaps enp vis).piobufCount := by
  unfold saveMemMaps
  dsimp only
  split_ifs <;> exact ⟨⟨h.fits, by first | exact h.count | exact Nat.zero_le _, by
    first | exact h.map | exact fun _ hbuf => absurd hbuf (Nat.not_lt_zero _)⟩, rfl⟩

/-- **An initialisation that succeeds** leaves all blocks free, with a mapping of a page for each buffer. -/
theorem fresh_of_init {out : InitOutcome} (hfits : edcp.Fits encp)
    (h : ef10NicInit out (.probed encp edcp) = (enp, none)) :
    enp.Fresh ∧ enp.wcMemMapSize = ER_DZ_TX_PIOBUF_STEP * enp.piobufCount := by
  unfold ef10NicInit at h
  have hfresh : (ef10NicAllocPiobufs out.allocPiobuf edcp.edcMaxPiobufCount (.probed encp edcp)).Fresh :=
    @fresh_allocPiobufsLoop { Nic.probed encp edcp with piobufCount := 0 } _ _ hfits (Nat.zero_add _)
      fun _ hbuf => absurd hbuf (Nat.not_lt_zero _)
  split at h
  · cases h
  dsimp only at h
  split at h
  · cases h
  split at h
  · cases h
  next vis _ =>
    split at h
    · cases h
    split at h
    · cases h
    · cases h
      exact fresh_saveMemMaps hfresh vis

/-! ### Looking for a block -/

variable {map : U32} {maps : ℕ → U32} {b : ℕ}

theorem findBlk_some (h : findBlk map blk n = some b) : b < blk + n ∧ map &&& (1 : U32) <<< b = 0 := by
  induction n generalizing blk with
  | zero => cases h
  | succ n ih =>
    rw [findBlk] at h
    split_ifs at h with hfree
    · cases h
      exact ⟨by omega, hfree⟩
    · obtain ⟨hlt, hb⟩ := ih h
      exact ⟨by omega, hb⟩

theorem findBlk_none (h : findBlk map blk n = none) (hle : blk ≤ b) (hlt : b < blk + n) :
    map &&& (1 : U32) <<< b ≠ 0 := by
  induction n generalizing blk with
  | zero => omega
  | succ n ih =>
    rw [findBlk] at h
    split_ifs at h with hfree
    by_cases hb : b = blk
    · rwa [hb]
    · exact ih h (by omega) (by omega)

/-- **The block found is free.** -/
theorem findBuf_some {blkPerBuf : ℕ} (h : findBuf maps blkPerBuf buf n = some (i, j)) :
    i < buf + n ∧ j < blkPerBuf ∧ maps i &&& (1 : U32) <<< j = 0 := by
  induction n generalizing buf with
  | zero => cases h
  | succ n ih =>
    rw [findBuf] at h
    split_ifs at h with hfull
    · obtain ⟨hi, hrest⟩ := ih h
      exact ⟨by omega, hrest⟩
    · split at h
      next blk hblk =>
        cases h
        obtain ⟨hlt, hfree⟩ := findBlk_some hblk
        exact ⟨by omega, by omega, hfree⟩
      · obtain ⟨hi, hrest⟩ := ih h
        exact ⟨by omega, hrest⟩

/-- **If none is found**, all are taken. -/
theorem findBuf_none {blkPerBuf : ℕ} (hblks : blkPerBuf ≤ 32) (h : findBuf maps blkPerBuf buf n = none)
    (hle : buf ≤ i) (hi : i < buf + n) (hj : j < blkPerBuf) : (maps i).getLsbD j = true := by
  have hj32 : j < 32 := by omega
  induction n generalizing buf with
  | zero => omega
  | succ n ih =>
    rw [findBuf] at h
    by_cases hib : i = buf
    · subst hib
      split_ifs at h with hfull
      · have hbit := congrArg (fun m : U32 => m.getLsbD j) hfull
        have hzero : (0 : U32).getLsbD j = false := BitVec.getLsbD_zero
        simpa [hzero, hj32] using hbit
      · split at h
        · cases h
        next hnone =>
          have htaken := findBlk_none hnone (Nat.zero_le j) (by omega)
          rw [ne_eq, and_one_shl_eq_zero_iff _ hj32, Bool.not_eq_false] at htaken
          exact htaken
    · split_ifs at h
      · exact ih h (by omega) (by omega)
      · split at h
        · cases h
        · exact ih h (by omega) (by omega)

/-! ### Allocating and freeing -/

/-- The NIC with other maps. -/
def Nic.withMap (enp : Nic) (maps : ℕ → U32) : Nic := { enp with pioAllocMap := maps }

/-- What the maps are part of. -/
structure Nic.Ok (enp : Nic) : Prop where
  fits : enp.edcp.Fits enp.encp
  count : enp.piobufCount ≤ enp.edcp.edcMaxPiobufCount
  wc : enp.wcMemMapSize = ER_DZ_TX_PIOBUF_STEP * enp.piobufCount

/-- Bit `blk` of the map of buffer `buf`. -/
def Nic.bit (enp : Nic) (buf blk : ℕ) : Bool := (enp.pioAllocMap buf).getLsbD blk

/-- **An allocation that succeeds** takes a block that is free. -/
structure Allocates (enp enp' : Nic) (b : PioBlock) : Prop where
  frame : ∃ maps, enp' = enp.withMap maps
  buf : b.bufnum < enp.piobufCount
  blk : b.blknum < enp.blkPerBuf
  free : enp.bit b.bufnum b.blknum = false
  taken : ∀ i j, j < 32 → (enp'.bit i j = true ↔ (i, j) = (b.bufnum, b.blknum) ∨ enp.bit i j = true)
  size : b.size = enp.edcp.edcPioAllocSize
  size_ne : b.size ≠ 0
  offset : b.offset = b.blknum * b.size

theorem pioAlloc_ok (hok : enp.Ok) {b : PioBlock} (h : ef10NicPioAlloc enp = .ok (enp', b)) : Allocates enp enp' b := by
  unfold ef10NicPioAlloc at h
  split_ifs at h with hoff
  obtain ⟨hsize, -⟩ := not_or.mp hoff
  split at h
  · cases h
  next buf blk hfind =>
    obtain ⟨hbuf, hblk, hfree⟩ := findBuf_some hfind
    rw [Nat.zero_add] at hbuf
    have hblks := hok.fits.blks
    have hblk32 : blk < 32 := lt_of_lt_of_le hblk hblks
    rw [and_one_shl_eq_zero_iff _ hblk32] at hfree
    cases h
    refine ⟨⟨_, rfl⟩, hbuf, hblk, hfree, fun i j _ => ?_, rfl, hsize, rfl⟩
    unfold Nic.bit
    dsimp only
    by_cases hi : i = buf
    · subst hi
      rw [Function.update_self, getLsbD_or_one_shl _ hblk32, Prod.mk.injEq, and_iff_right rfl]
    · rw [Function.update_of_ne hi, Prod.mk.injEq]
      exact ⟨Or.inr, fun h => h.resolve_left fun h => hi h.1⟩

/-- **An allocation that fails** finds all blocks taken. -/
theorem pioAlloc_error (hok : enp.Ok) {e : Errno} (h : ef10NicPioAlloc enp = .error e) :
    e = .ENOMEM ∧ ∀ buf < enp.piobufCount, ∀ blk < enp.blkPerBuf, enp.bit buf blk = true := by
  unfold ef10NicPioAlloc at h
  split_ifs at h with hoff
  · cases h
    refine ⟨rfl, fun buf hbuf blk _ => ?_⟩
    have hcount := hok.count
    rcases hoff with hsize | hzero
    · rw [hok.fits.zero hsize] at hcount
      omega
    · omega
  · split at h
    next hfind =>
      cases h
      exact ⟨rfl, fun buf hbuf blk hblk => findBuf_none hok.fits.blks hfind (Nat.zero_le buf) (by omega) hblk⟩
    · cases h

/-- **A block that is taken is freed**, and no other. -/
theorem pioFreed_spec (hbuf : buf < enp.piobufCount) (hblk : blk < 32) (htaken : enp.bit buf blk = true) :
    (∃ maps, pioFreed enp buf blk = enp.withMap maps) ∧
      ∀ i j, (pioFreed enp buf blk).bit i j = true ↔ (i, j) ≠ (buf, blk) ∧ enp.bit i j = true := by
  have hne : ¬ enp.pioAllocMap buf &&& (1 : U32) <<< blk = 0 := by
    rw [and_one_shl_eq_zero_iff _ hblk]
    exact fun hf => Bool.false_ne_true (hf.symm.trans htaken)
  have hfreed : pioFreed enp buf blk = enp.withMap
      (Function.update enp.pioAllocMap buf (enp.pioAllocMap buf &&& ~~~((1 : U32) <<< blk))) := by
    rw [pioFreed, ef10NicPioFree, if_neg (by omega), if_neg hne]
    rfl
  refine ⟨⟨_, hfreed⟩, fun i j => ?_⟩
  rw [hfreed]
  unfold Nic.bit Nic.withMap
  dsimp only
  by_cases hi : i = buf
  · subst hi
    rw [Function.update_self, getLsbD_andNot_one_shl, ne_eq, ne_eq, Prod.mk.injEq, and_iff_right rfl]
  · rw [Function.update_of_ne hi, ne_eq, Prod.mk.injEq]
    exact ⟨fun h => ⟨fun he => hi he.1, h⟩, And.right⟩

/-! ### The invariant -/

/-- The block that a queue holds. -/
def Txq.block (etp : Txq) : Option (ℕ × ℕ) := if etp.pioSize = 0 then none else some (etp.pioBufnum, etp.pioBlknum)

/-- What a queue says of the block that it holds. -/
structure Txq.Holds (enp : Nic) (etp : Txq) : Prop where
  buf : etp.pioBufnum < enp.piobufCount
  blk : etp.pioBlknum < enp.blkPerBuf
  size : etp.pioSize = enp.edcp.edcPioAllocSize
  offset : etp.pioOffset = etp.pioBlknum * etp.pioSize
  writeOffset : etp.pioWriteOffset = etp.pioBufnum * ER_DZ_TX_PIOBUF_STEP + ER_DZ_TX_PIOBUF_OFST + etp.pioOffset

/-- The queues hold their blocks as the tenancy has it, and the maps have the bits of the blocks that are taken. -/
structure Sys.Allotted (s : Sys) (t : Tenancy ℕ (ℕ × ℕ)) : Prop where
  ok : s.enp.Ok
  held : ∀ i, (s.txq i).block = t.held i
  holds : ∀ i, (s.txq i).pioSize ≠ 0 → (s.txq i).Holds s.enp
  bits : ∀ buf < s.enp.piobufCount, ∀ blk < 32, s.enp.bit buf blk = true ↔ (buf, blk) ∈ t.taken

variable {t : Tenancy ℕ (ℕ × ℕ)} {link : U32 → Option Errno} {index : ℕ}

theorem block_of_ne {etp : Txq} (h : etp.pioSize ≠ 0) : etp.block = some (etp.pioBufnum, etp.pioBlknum) := if_neg h

theorem block_of_eq {etp : Txq} (h : etp.pioSize = 0) : etp.block = none := if_pos h

theorem ok_withMap (h : enp.Ok) (maps : ℕ → U32) : (enp.withMap maps).Ok := ⟨h.fits, h.count, h.wc⟩

theorem holds_withMap {etp : Txq} (h : etp.Holds enp) (maps : ℕ → U32) : etp.Holds (enp.withMap maps) :=
  ⟨h.buf, h.blk, h.size, h.offset, h.writeOffset⟩

theorem allotted_start (h : enp.Fresh) (hwc : enp.wcMemMapSize = ER_DZ_TX_PIOBUF_STEP * enp.piobufCount) :
    (Sys.start enp).Allotted .empty := by
  refine ⟨⟨h.fits, h.count, hwc⟩, fun _ => rfl, fun _ hne => absurd rfl hne, fun buf hbuf blk _ => ?_⟩
  have hzero : (Sys.start enp).enp.bit buf blk = false := by
    unfold Nic.bit Sys.start
    dsimp only
    rw [h.map buf hbuf]
    exact BitVec.getLsbD_zero
  rw [hzero]
  exact iff_of_false Bool.false_ne_true (Tenancy.not_mem_taken_empty _)

/-- The tenancy goes by the queues and the maps alone. -/
theorem Sys.Allotted.congr (h : s.Allotted t) (henp : s'.enp = s.enp) (htxq : ∀ i, s'.txq i = s.txq i) :
    s'.Allotted t := by
  refine ⟨henp ▸ h.ok, fun i => by rw [htxq, h.held], fun i hne => ?_, ?_⟩
  · rw [htxq] at hne ⊢
    rw [henp]
    exact h.holds i hne
  · rw [henp]
    exact h.bits

/-- The block of an allocation is free. -/
theorem Sys.Allotted.not_taken (h : s.Allotted t) {b : PioBlock} (ha : Allocates s.enp enp' b) :
    (b.bufnum, b.blknum) ∉ t.taken := fun hb => by
  have hbit := (h.bits b.bufnum ha.buf b.blknum (lt_of_lt_of_le ha.blk h.ok.fits.blks)).mpr hb
  rw [ha.free] at hbit
  cases hbit

/-- **A queue is given a block.** -/
theorem Sys.Allotted.grant (h : s.Allotted t) {b : PioBlock} (ha : Allocates s.enp enp' b) (index : ℕ)
    (hsize : (s.txq index).pioSize = 0) (etp : Txq) (hblock : etp.block = some (b.bufnum, b.blknum))
    (hholds : etp.Holds s.enp) (written : List (ℕ × Qword)) (rc : Option Errno) :
    Sys.Allotted ⟨enp', Function.update s.txq index etp, written, rc⟩
      (t.grant index (b.bufnum, b.blknum) (h.not_taken ha)) := by
  obtain ⟨maps, rfl⟩ := ha.frame
  refine ⟨ok_withMap h.ok maps, fun i => ?_, fun i hne => ?_, fun buf hbuf blk hblk => ?_⟩
  · by_cases hi : i = index
    · subst hi
      simp [hblock]
    · simp [hi, h.held]
  · dsimp only at hne ⊢
    by_cases hi : i = index
    · subst hi
      rw [Function.update_self] at hne ⊢
      exact holds_withMap hholds maps
    · rw [Function.update_of_ne hi] at hne ⊢
      exact holds_withMap (h.holds i hne) maps
  · have hnone : t.held index = none := (h.held index).symm.trans (block_of_eq hsize)
    rw [Tenancy.mem_taken_grant _ hnone, ← h.bits buf hbuf blk hblk]
    exact ha.taken buf blk hblk

/-- **A queue gives back its block.** -/
theorem Sys.Allotted.release (h : s.Allotted t) (index : ℕ) (hsize : (s.txq index).pioSize ≠ 0) (etp : Txq)
    (hnone : etp.pioSize = 0)
    (written : List (ℕ × Qword)) (rc : Option Errno) :
    Sys.Allotted ⟨pioFreed s.enp (s.txq index).pioBufnum (s.txq index).pioBlknum, Function.update s.txq index etp,
      written, rc⟩ (t.release index) := by
  have hholds := h.holds index hsize
  have hheld : t.held index = some ((s.txq index).pioBufnum, (s.txq index).pioBlknum) :=
    (h.held index).symm.trans (block_of_ne hsize)
  have hblk : (s.txq index).pioBlknum < 32 := lt_of_lt_of_le hholds.blk h.ok.fits.blks
  have htaken := (h.bits _ hholds.buf _ hblk).mpr ⟨index, hheld⟩
  obtain ⟨⟨maps, hmaps⟩, hbits⟩ := pioFreed_spec hholds.buf hblk htaken
  have hcount : (pioFreed s.enp (s.txq index).pioBufnum (s.txq index).pioBlknum).piobufCount = s.enp.piobufCount := by
    rw [hmaps]
    rfl
  refine ⟨?_, fun i => ?_, fun i hne => ?_, fun buf hbuf blk hblk => ?_⟩
  · dsimp only
    rw [hmaps]
    exact ok_withMap h.ok maps
  · by_cases hi : i = index
    · subst hi
      simp [block_of_eq hnone]
    · simp [hi, h.held]
  · dsimp only at hne ⊢
    by_cases hi : i = index
    · subst hi
      rw [Function.update_self] at hne
      exact absurd hnone hne
    · rw [Function.update_of_ne hi] at hne ⊢
      rw [hmaps]
      exact holds_withMap (h.holds i hne) maps
  · dsimp only at hbuf ⊢
    rw [hcount] at hbuf
    rw [hbits, Tenancy.mem_taken_release hheld, h.bits buf hbuf blk hblk]

/-- **A call that enables.** -/
theorem allotted_enable (h : s.Allotted t) {etp : Txq} {rc : Option Errno}
    (hr : ef10TxQpioEnable link s.enp (s.txq index) = (enp', etp, rc)) :
    ∃ t', Sys.Allotted ⟨enp', Function.update s.txq index etp, [], rc⟩ t' := by
  unfold ef10TxQpioEnable at hr
  by_cases hsize : (s.txq index).pioSize ≠ 0
  · rw [if_pos hsize] at hr
    cases hr
    exact ⟨t, h.congr rfl fun i => by simp⟩
  rw [if_neg hsize] at hr
  rw [not_not] at hsize
  split at hr
  · cases hr
    exact ⟨t, h.congr rfl fun i => by simp⟩
  next enp1 b halloc =>
    have ha := pioAlloc_ok h.ok halloc
    dsimp only at hr
    split at hr
    next rc hlink =>
      cases hr
      -- the block is given to the queue, and taken back
      have hgrant := h.grant ha index hsize ⟨b.bufnum, b.blknum, b.bufnum * ER_DZ_TX_PIOBUF_STEP + ER_DZ_TX_PIOBUF_OFST +
        b.offset, b.offset, b.size⟩ (block_of_ne ha.size_ne) ⟨ha.buf, ha.blk, ha.size, ha.offset, rfl⟩ [] none
      have hfree := hgrant.release index (by simpa using ha.size_ne)
        ⟨b.bufnum, b.blknum, (s.txq index).pioWriteOffset, b.offset, 0⟩ rfl [] (some rc)
      refine ⟨_, hfree.congr (by simp) fun i => ?_⟩
      by_cases hi : i = index
      · subst hi
        simp
      · simp [hi]
    next hlink =>
      cases hr
      exact ⟨_, h.grant ha index hsize _ (block_of_ne ha.size_ne) ⟨ha.buf, ha.blk, ha.size, ha.offset, rfl⟩ [] none⟩

/-- **A call that disables.** -/
theorem allotted_disable (h : s.Allotted t) {etp : Txq} (hr : ef10TxQpioDisable s.enp (s.txq index) = (enp', etp)) :
    ∃ t', Sys.Allotted ⟨enp', Function.update s.txq index etp, [], none⟩ t' := by
  unfold ef10TxQpioDisable at hr
  split_ifs at hr with hsize
  · cases hr
    exact ⟨_, h.release index hsize _ rfl [] none⟩
  · cases hr
    exact ⟨t, h.congr rfl fun i => by simp⟩

/-- **A step.** -/
theorem allotted_step {o : Op} (h : s.Allotted t) (hs : step o s = some s') : ∃ t', s'.Allotted t' := by
  unfold step at hs
  cases o with
  | enable index link =>
    dsimp only at hs
    rcases hr : ef10TxQpioEnable link s.enp (s.txq index) with ⟨enp1, etp, rc⟩
    rw [hr] at hs
    cases hs
    exact allotted_enable h hr
  | disable index unlink =>
    dsimp only at hs
    rcases hr : ef10TxQpioDisable s.enp (s.txq index) with ⟨enp1, etp⟩
    rw [hr] at hs
    cases hs
    exact allotted_disable h hr
  | write index req =>
    dsimp only at hs
    split at hs <;> cases hs
    · exact ⟨t, h.congr rfl fun _ => rfl⟩
    · exact ⟨t, h.congr rfl fun _ => rfl⟩

/-! ### Writing -/

variable {etp : Txq} {req : WriteReq} {start limit : ℕ}

/-- What the loop has written between `start` and the limit, and where it stands. -/
structure Writing (start limit : ℕ) (b : ℕ × ℕ) (ws : List (ℕ × Qword)) : Prop where
  le : start ≤ b.2
  dvd : 8 ∣ limit - b.2
  inside : ∀ w ∈ ws, start ≤ w.1 ∧ w.1 + 8 ≤ limit
  first : b.2 = start ∨ ∃ w ∈ ws, w.1 = start

theorem writing_next {buffer : ℕ → Qword} {eqp wo : ℕ} {ws : List (ℕ × Qword)} (h : Writing start limit (eqp, wo) ws)
    (hlt : wo < limit) : Writing start limit (eqp + 1, wo + 8) (ws ++ [(wo, buffer eqp)]) := by
  obtain ⟨hle, hdvd, hinside, hfirst⟩ := h
  dsimp only at hle hdvd hfirst
  refine ⟨by dsimp only; omega, by dsimp only; omega, fun w hw => ?_, Or.inr ?_⟩
  · rcases List.mem_append.mp hw with hw | hw
    · exact hinside w hw
    · rw [List.mem_singleton.mp hw]
      exact ⟨hle, by omega⟩
  · rcases hfirst with rfl | ⟨w, hw, hstart⟩
    · exact ⟨_, List.mem_append_right ws (List.mem_singleton_self _), rfl⟩
    · exact ⟨w, List.mem_append_left _ hw, hstart⟩

/-- **The loop** writes from `start` up to the limit, and at `start` if that is below it. -/
theorem iterate_writeRound (buffer : ℕ → Qword) (hlimit : limit < 2 ^ 32) (hdvd : 8 ∣ limit - start) :
    ∃ ws, iterate (writeRound buffer limit) (2 ^ 32) (0, start) [] = .ret () ws ∧
      (∀ w ∈ ws, start ≤ w.1 ∧ w.1 + 8 ≤ limit) ∧ (start < limit → ∃ w ∈ ws, w.1 = start) := by
  have hrun : ∃ ws b, iterate (writeRound buffer limit) (2 ^ 32) (0, start) [] = .ret () ws ∧
      Writing start limit b ws ∧ ¬ b.2 < limit := by
    refine iterate_rule (Writing start limit) (fun b => limit - b.2)
      (fun r => ∃ ws b, r = .ret () ws ∧ Writing start limit b ws ∧ ¬ b.2 < limit) ?_ (2 ^ 32) (0, start) []
      ⟨le_rfl, hdvd, fun _ hw => absurd hw List.not_mem_nil, Or.inl rfl⟩ (by dsimp only; omega)
    rintro ⟨eqp, wo⟩ ws h
    by_cases hlt : wo < limit
    · have hnext := h.dvd
      dsimp only at hnext
      have hmod : (wo + 8) % 2 ^ 32 = wo + 8 := Nat.mod_eq_of_lt (by omega)
      refine Or.inl ⟨(eqp + 1, wo + 8), ws ++ [(wo, buffer eqp)], ?_, writing_next h hlt, by dsimp only; omega⟩
      rw [writeRound, if_pos hlt, hmod]
    · exact Or.inr (Or.inl ⟨(), ws, if_neg hlt, ws, (eqp, wo), rfl, h, hlt⟩)
  obtain ⟨ws, b, hret, hw, hend⟩ := hrun
  exact ⟨ws, hret, hw.inside, fun hs => hw.first.resolve_left fun h => hend (h ▸ hs)⟩

/-- A qword that is written is in the block of the queue. -/
def Txq.Own (etp : Txq) (w : ℕ × Qword) : Prop :=
  etp.pioWriteOffset ≤ w.1 ∧ w.1 + 8 ≤ etp.pioWriteOffset + etp.pioSize

/-- A request that is accepted does not start below the block: the 32-bit sum of the offsets does not wrap around. -/
def Txq.StaysUp (etp : Txq) (req : WriteReq) : Prop :=
  etp.pioSize ≠ 0 → (req.offset + req.length).toNat ≤ etp.pioSize →
    etp.pioWriteOffset + req.offset.toNat % 2 ^ 32 < 2 ^ 32

theorem qpioWrite_unheld (h : etp.pioSize = 0) : ef10TxQpioWrite etp req [] = .err .ENOENT [] := by
  unfold ef10TxQpioWrite
  exact bind_of_err (ensure_neg (not_not.mpr h))

theorem qpioWrite_long (h : etp.pioSize ≠ 0) (hlong : ¬ (req.offset + req.length).toNat ≤ etp.pioSize) :
    ef10TxQpioWrite etp req [] = .err .ENOSPC [] := by
  unfold ef10TxQpioWrite
  rw [bind_of_ret (ensure_pos h)]
  exact bind_of_err (ensure_neg (not_not.mpr (not_le.mp hlong)))

/-- **A request that is accepted** writes to the block of the queue, exactly if it does not start below. -/
theorem qpioWrite_fits (h : etp.pioSize ≠ 0) (hfit : (req.offset + req.length).toNat ≤ etp.pioSize)
    (hbase : etp.pioWriteOffset + etp.pioSize < 2 ^ 32) :
    ∃ ws, ef10TxQpioWrite etp req [] = .ret () ws ∧
      ((∀ w ∈ ws, etp.Own w) ↔ etp.pioWriteOffset + req.offset.toNat % 2 ^ 32 < 2 ^ 32) := by
  obtain ⟨k, hk⟩ := req.dvd
  have hoffset := req.offset.isLt
  have hlength := req.length.isLt
  rw [BitVec.toNat_add] at hfit
  generalize hwo : (etp.pioWriteOffset + req.offset.toNat) % 2 ^ 32 = wo
  generalize hlim : (wo + req.length.toNat) % 2 ^ 32 = limit
  have hdvd : 8 ∣ limit - wo := by omega
  obtain ⟨ws, hrun, hws, hfirst⟩ := iterate_writeRound req.buffer (by omega : limit < 2 ^ 32) hdvd
  refine ⟨ws, ?_, fun hown => ?_, fun hup w hw => ?_⟩
  · unfold ef10TxQpioWrite
    rw [bind_of_ret (ensure_pos h), bind_of_ret (ensure_pos (not_lt.mpr (BitVec.toNat_add _ _ ▸ hfit)))]
    subst hlim
    subst hwo
    exact hrun
  · by_contra hnot
    obtain ⟨w, hw, hstart⟩ := hfirst (by omega)
    have := (hown w hw).1
    omega
  · obtain ⟨hlo, hhi⟩ := hws w hw
    exact ⟨by omega, by omega⟩

/-! ### Runs -/

/-- Every block of every buffer is held by a queue. -/
def Sys.AllHeld (s : Sys) : Prop :=
  ∀ buf < s.enp.piobufCount, ∀ blk < s.enp.blkPerBuf, ∃ i, (s.txq i).block = some (buf, blk)

/-- The blocks that are held are disjoint and inside their buffers and the write-combined mapping, the maps have their
bits and no others, and there is no block to be had only if all are held. -/
structure Shared (s : Sys) : Prop where
  disjoint : ∀ i j, i ≠ j → (s.txq i).pioSize ≠ 0 → (s.txq j).pioSize ≠ 0 →
    (s.txq i).pioBufnum ≠ (s.txq j).pioBufnum ∨
      (s.txq i).pioOffset + (s.txq i).pioSize ≤ (s.txq j).pioOffset ∨
      (s.txq j).pioOffset + (s.txq j).pioSize ≤ (s.txq i).pioOffset
  inside : ∀ i, (s.txq i).pioSize ≠ 0 → (s.txq i).pioBufnum < s.enp.piobufCount ∧
    (s.txq i).pioOffset + (s.txq i).pioSize ≤ s.enp.encp.encPiobufSize
  mapped : ∀ i, (s.txq i).pioSize ≠ 0 →
    (s.txq i).pioWriteOffset =
        (s.txq i).pioBufnum * ER_DZ_TX_PIOBUF_STEP + ER_DZ_TX_PIOBUF_OFST + (s.txq i).pioOffset ∧
      (s.txq i).pioWriteOffset + (s.txq i).pioSize ≤ s.enp.wcMemMapSize
  bits : ∀ buf < s.enp.piobufCount, ∀ blk < 32,
    s.enp.bit buf blk = true ↔ ∃ i, (s.txq i).block = some (buf, blk)
  full : ∀ e, ef10NicPioAlloc s.enp = .error e → s.AllHeld

/-- What a call does: a write is to the block of its queue, and enabling fails for lack of space only if all blocks are
held. -/
def Keeps (o : Op) (s s' : Sys) : Prop :=
  match o with
  | .enable _ link => (∀ handle, link handle ≠ some .ENOMEM) → s'.rc = some .ENOMEM → s.AllHeld
  | .disable _ _ => True
  | .write index _ => ∀ w ∈ s'.written, (s.txq index).Own w

/-- A write that is accepted does not start below the block. -/
def WritesUp (o : Op) (s : Sys) : Prop :=
  match o with
  | .write index req => (s.txq index).StaysUp req
  | _ => True

theorem inside_of_holds {etp : Txq} (h : etp.Holds enp) : etp.pioOffset + etp.pioSize ≤ enp.encp.encPiobufSize := by
  have hmul : (etp.pioBlknum + 1) * enp.edcp.edcPioAllocSize ≤ enp.encp.encPiobufSize :=
    Nat.mul_le_of_le_div _ _ _ h.blk
  rw [h.offset, h.size]
  rw [Nat.succ_mul] at hmul
  exact hmul

theorem mapped_of_holds {etp : Txq} (hok : enp.Ok) (h : etp.Holds enp) :
    etp.pioWriteOffset + etp.pioSize ≤ enp.wcMemMapSize := by
  have hinside := inside_of_holds h
  have hsize := enp.encp.size_le
  have hbuf := h.buf
  rw [hok.wc, h.writeOffset]
  unfold ER_DZ_TX_PIOBUF_STEP ER_DZ_TX_PIOBUF_OFST at *
  omega

theorem wcMemMapSize_le (hok : enp.Ok) : enp.wcMemMapSize ≤ 2 ^ 17 := by
  have hcount := hok.count.trans hok.fits.count
  rw [hok.wc]
  unfold ER_DZ_TX_PIOBUF_STEP ef10MaxPiobufNbufs at *
  omega

theorem all_held (h : s.Allotted t)
    (hall : ∀ buf < s.enp.piobufCount, ∀ blk < s.enp.blkPerBuf, s.enp.bit buf blk = true) : s.AllHeld := by
  intro buf hbuf blk hblk
  obtain ⟨i, hi⟩ := (h.bits buf hbuf blk (lt_of_lt_of_le hblk h.ok.fits.blks)).mp (hall buf hbuf blk hblk)
  exact ⟨i, (h.held i).trans hi⟩

/-- **What the tenancy gives.** -/
theorem Sys.Allotted.shared (h : s.Allotted t) : Shared s := by
  refine ⟨fun i j hij hi hj => ?_, fun i hi => ⟨(h.holds i hi).buf, inside_of_holds (h.holds i hi)⟩,
    fun i hi => ⟨(h.holds i hi).writeOffset, mapped_of_holds h.ok (h.holds i hi)⟩, fun buf hbuf blk hblk => ?_,
    fun e he => all_held h (pioAlloc_error h.ok he).2⟩
  · by_cases hbuf : (s.txq i).pioBufnum = (s.txq j).pioBufnum
    · have hblk : (s.txq i).pioBlknum ≠ (s.txq j).pioBlknum := by
        intro hblk
        have hheld : (s.txq i).block = (s.txq j).block := by rw [block_of_ne hi, block_of_ne hj, hbuf, hblk]
        refine hij (t.unique i j _ ((h.held i).symm.trans (block_of_ne hi)) ?_)
        exact (h.held j).symm.trans (hheld.symm.trans (block_of_ne hi))
      refine Or.inr ?_
      rw [(h.holds i hi).offset, (h.holds j hj).offset, (h.holds i hi).size, (h.holds j hj).size, ← Nat.succ_mul,
        ← Nat.succ_mul]
      exact hblk.lt_or_gt.imp (Nat.mul_le_mul_right _) (Nat.mul_le_mul_right _)
    · exact Or.inl hbuf
  · rw [h.bits buf hbuf blk hblk, Tenancy.mem_taken]
    exact exists_congr fun i => by rw [h.held]

/-- **What a call does**, and when. -/
theorem keeps_iff {o : Op} (h : s.Allotted t) (hs : step o s = some s') : Keeps o s s' ↔ WritesUp o s := by
  unfold step at hs
  cases o with
  | enable index link =>
    refine iff_of_true (fun hlink hrc => ?_) trivial
    dsimp only at hs
    unfold ef10TxQpioEnable at hs
    split_ifs at hs with hsize
    · cases hs
      cases hrc
    · split at hs
      next e he => exact all_held h (pioAlloc_error h.ok he).2
      next enp1 b halloc =>
        dsimp only at hs
        split at hs
        next rc hrc' =>
          cases hs
          exact absurd (hrc'.trans hrc) (hlink b.handle)
        · cases hs
          cases hrc
  | disable index unlink => exact iff_of_true trivial trivial
  | write index req =>
    dsimp only at hs
    by_cases hsize : (s.txq index).pioSize = 0
    · rw [qpioWrite_unheld hsize] at hs
      cases hs
      exact iff_of_true (fun w hw => absurd hw List.not_mem_nil) fun hne => absurd hsize hne
    by_cases hfit : (req.offset + req.length).toNat ≤ (s.txq index).pioSize
    · have hbase := (mapped_of_holds h.ok (h.holds index hsize)).trans (wcMemMapSize_le h.ok)
      obtain ⟨ws, hrun, hown⟩ := qpioWrite_fits hsize hfit (by omega)
      rw [hrun] at hs
      cases hs
      exact hown.trans ⟨fun hup _ _ => hup, fun hup => hup hsize hfit⟩
    · rw [qpioWrite_long hsize hfit] at hs
      cases hs
      exact iff_of_true (fun w hw => absurd hw List.not_mem_nil) fun _ hle => absurd hle hfit

/-- Limits for one queue with blocks of 256 bytes, and commands that all succeed. -/
def oneQueue : DrvLimits := ⟨1, 1, 1, 1, 1, 1, 256, 0⟩

def allGranted : InitOutcome := ⟨none, fun _ => .ok 7, none, fun _ n => .ok ⟨0, n, 0⟩, none⟩

/-- The NIC that they give. -/
def hunt : Nic := (ef10NicInit allGranted (.probed huntBoardCfg ⟨1, 1, 16, 256⟩)).1

/-- A write of 8 bytes at an offset. -/
def writeAt (offset : U64) : WriteReq := ⟨fun _ => .ones, 8, offset, by decide⟩

end Sfxge.Tx.Pio
