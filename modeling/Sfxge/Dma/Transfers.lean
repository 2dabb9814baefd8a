import Sfxge.Dma.Rings
import Sfxge.Lib.Run

/-!
# Dma.Transfers — the device moves the buffers that were posted

A queue of either direction with the device at its other end.  The device reads descriptors when it likes, the caches are
written back when they like, and the driver learns of what is done later.
-/

namespace Sfxge.Dma

open Lib Errno
open Tx.Frag (EfxBuffer)

/-- The queues of the two families -/
inductive Kind where
  | ef10Tx
  | sienaTx
  | ef10Rx
  | sienaRx
  deriving Repr, DecidableEq

/-- A queue as it was created, with `2 ^ logSize` descriptors: from `EFX_TXQ_MINNDESCS` to `EFX_RXQ_MAXNDESCS`. -/
structure Config where
  kind : Kind
  logSize : ℕ
  hmin : 9 ≤ logSize
  hmax : logSize ≤ 12

namespace Config

variable (cfg : Config)

def mask : U32 := maskOf cfg.logSize

/-- `EFX_TXQ_LIMIT` and `EFX_RXQ_LIMIT`, as a number -/
def room : ℕ := 2 ^ cfg.logSize - 16

/-- The descriptor of a buffer -/
def desc : EfxBuffer → Qword := match cfg.kind with
  | .ef10Tx => ef10TxDesc
  | .sienaTx => sienaTxDesc
  | .ef10Rx => ef10RxDesc
  | .sienaRx => sienaRxDesc

/-- The device reads the buffer in the descriptor; one to receive into has no end of packet. -/
def Reads (q : Qword) (b : EfxBuffer) : Prop := match cfg.kind with
  | .ef10Tx => ef10TxReads q = some b
  | .sienaTx => sienaTxReads q = some b
  | .ef10Rx => ef10RxReads q = (b.ebAddr, b.ebSize)
  | .sienaRx => sienaRxReads q = (b.ebAddr, b.ebSize)

/-- The width of an address in a descriptor -/
def addrBits : ℕ := match cfg.kind with
  | .ef10Tx | .ef10Rx => 48
  | .sienaTx | .sienaRx => 46

theorem reads_iff (b : EfxBuffer) : cfg.Reads (cfg.desc b) b ↔ Fits cfg.addrBits b := by
  obtain ⟨kind, logSize, hmin, hmax⟩ := cfg
  cases kind with
  | ef10Tx => exact ef10TxReads_iff b
  | sienaTx => exact sienaTxReads_iff b
  | ef10Rx => exact ef10RxReads_iff b
  | sienaRx => exact sienaRxReads_iff b

end Config

/-- A descriptor that was posted, and the buffer that it is of. -/
structure Sent where
  desc : Qword
  buffer : Option EfxBuffer

/-- The ring, the counters of the driver, what was posted, in order, and the number of descriptors whose completion the
driver knows. -/
structure Queue where
  ring : DescRing Qword
  added : U32
  completed : U32
  pushed : U32
  posted : List Sent
  done : ℕ

/-- The queue behind `qcreate`.  The descriptor that `ef10_tx_qcreate` pushes counts as completed, read or not. -/
def created (cfg : Config) (cksumTcpudp cksumIpv4 : Bool) (mem seen : Mem) : Queue :=
  let ring : DescRing Qword := ⟨mem, seen, 0, 0, none, []⟩
  match cfg.kind with
  | .ef10Tx =>
    let desc := createDesc cksumTcpudp cksumIpv4
    ⟨ef10TxQpush cfg.mask 1 0 { ring with mem := Function.update mem 0 desc }, 1, 1, 1, [⟨desc, none⟩], 1⟩
  | _ => ⟨ring, 0, 0, 0, [], 0⟩

inductive Op where
  /-- `efx_tx_qpost` -/
  | txPost (eb : ℕ → EfxBuffer) (n : U32)
  /-- `efx_tx_qdesc_post` -/
  | descPost (ed : ℕ → Qword) (n : U32)
  /-- `efx_tx_qpio_post` -/
  | pioPost (etPioOffset etPioSize pktLength : U32)
  /-- `efx_rx_qpost` -/
  | rxPost (addrp : ℕ → ℕ) (size : ℕ) (n : U32)
  /-- `efx_tx_qpush` and `efx_rx_qpush` -/
  | push
  /-- The device reads a descriptor, in memory or the one it was handed. -/
  | fetch (handed : Bool)
  /-- The driver learns of descriptors that are done. -/
  | complete (count : ℕ)
  /-- A cache line is written back. -/
  | writeBack (slot : ℕ)

namespace Queue

/-- A post that came through. -/
def sent (sents : List Sent) (added : U32) (mem : Mem) (s : Queue) : Queue :=
  { s with ring := { s.ring with mem }, added, posted := s.posted ++ sents }

/-- What a transmit post returns. -/
def posts (sents : List Sent) (r : Except Errno (U32 × Mem)) (s : Queue) : Queue := match r with
  | .ok (added, mem) => s.sent sents added mem
  | .error _ => s

/-- The buffers of a post -/
def buffers (cfg : Config) (n : U32) (eb : ℕ → EfxBuffer) : List Sent := firstN n fun i => ⟨cfg.desc (eb i), some (eb i)⟩

def push (cfg : Config) (s : Queue) : Queue := match cfg.kind with
  | .ef10Tx => { s with ring := ef10TxQpush cfg.mask s.added s.pushed s.ring, pushed := s.added }
  | .sienaTx => { s with ring := sienaTxQpush cfg.mask s.added s.pushed s.ring, pushed := s.added }
  | .ef10Rx =>
    let (pushed, ring) := ef10RxQpush cfg.mask s.added s.pushed s.ring
    { s with ring, pushed }
  | .sienaRx =>
    let (pushed, ring) := sienaRxQpush cfg.mask s.added s.pushed s.ring
    { s with ring, pushed }

end Queue

def step (cfg : Config) (o : Op) (s : Queue) : Option Queue := match o, cfg.kind with
  | .txPost eb n, .ef10Tx =>
    some (s.posts (Queue.buffers cfg n eb) (ef10TxQpost cfg.mask eb n s.completed s.added s.ring.mem))
  | .txPost eb n, .sienaTx =>
    some (s.posts (Queue.buffers cfg n eb) (sienaTxQpost cfg.mask eb n s.completed s.added s.ring.mem))
  | .descPost ed n, .ef10Tx =>
    some (s.posts (firstN n fun i => ⟨ed i, none⟩) (ef10TxQdescPost cfg.mask ed n s.completed s.added s.ring.mem))
  | .descPost ed n, .sienaTx =>
    some (s.posts (firstN n fun i => ⟨ed i, none⟩) (sienaTxQdescPost cfg.mask ed n s.completed s.added s.ring.mem))
  | .pioPost etPioOffset etPioSize pktLength, .ef10Tx =>
    some (s.posts [⟨pioDesc etPioOffset pktLength, none⟩]
      (ef10TxQpioPost cfg.mask etPioOffset etPioSize pktLength s.completed s.added s.ring.mem))
  | .rxPost addrp size n, .ef10Rx =>
    some (s.sent (Queue.buffers cfg n fun i => ⟨addrp i, size, false⟩) (s.added + n)
      (ef10RxQpost cfg.mask addrp size n s.added s.ring.mem))
  | .rxPost addrp size n, .sienaRx =>
    some (s.sent (Queue.buffers cfg n fun i => ⟨addrp i, size, false⟩) (s.added + n)
      (sienaRxQpost cfg.mask addrp size n s.added s.ring.mem))
  | .push, _ => some (s.push cfg)
  | .fetch handed, _ => (s.ring.fetch (2 ^ cfg.logSize) handed).map fun ring => { s with ring }
  | .complete count, _ =>
    if s.done + count ≤ s.ring.fetched.length then
      some { s with completed := s.completed + BitVec.ofNat 32 count, done := s.done + count }
    else none
  | .writeBack slot, _ => some { s with ring := s.ring.writeBack slot }
  | _, _ => none

/-- The device reads what was posted, in order and each descriptor once; what it has not read when it is idle has not been
pushed; there is room for the descriptors in flight; and those of buffers say which. -/
structure Delivers (cfg : Config) (s : Queue) : Prop where
  inOrder : s.ring.fetched = (s.posted.map Sent.desc).take s.ring.fetched.length
  idle : s.ring.rptr = s.ring.wptr → s.posted.length = s.ring.fetched.length + (s.added - s.pushed).toNat
  room : s.posted.length ≤ s.done + cfg.room
  reads : ∀ x ∈ s.posted, ∀ b, x.buffer = some b → cfg.Reads x.desc b

/-- The check of a transmit post lets it through. -/
def Accepted (cfg : Config) (n : U32) (s : Queue) : Prop := ¬ s.added - s.completed + n > limit cfg.mask

/-- `added - completed + n` does not wrap when it is accepted, a receive queue is not overfilled, and the buffers fit. -/
def Proper (cfg : Config) (o : Op) (s : Queue) : Prop := match o with
  | .txPost eb n => Accepted cfg n s →
    (s.added - s.completed).toNat + n.toNat < 2 ^ 32 ∧ ∀ i, i < n.toNat → Fits cfg.addrBits (eb i)
  | .descPost _ n => Accepted cfg n s → (s.added - s.completed).toNat + n.toNat < 2 ^ 32
  | .rxPost addrp size n =>
    (s.added - s.completed).toNat + n.toNat ≤ cfg.room ∧ ∀ i, i < n.toNat → Fits cfg.addrBits ⟨addrp i, size, false⟩
  | _ => True

/-! ### The invariant -/

/-- The device has been told of `P` descriptors, and `C` of them are done; the driver may count the first one too soon. -/
structure Inv (cfg : Config) (P C : ℕ) (s : Queue) : Prop where
  ring : Carries (2 ^ cfg.logSize) (s.posted.map Sent.desc) P C s.ring
  added : s.added = BitVec.ofNat 32 s.posted.length
  completed : s.completed = BitVec.ofNat 32 s.done
  pushed : s.pushed = BitVec.ofNat 32 P
  known : C ≤ s.done
  early : s.done ≤ C + 1
  behind : s.done ≤ s.posted.length
  room : s.posted.length ≤ s.done + cfg.room
  aligned : cfg.kind = .ef10Rx → 8 ∣ P

section Inv

variable {cfg : Config} {P C : ℕ} {s s' : Queue} {n : U32}

/-- A counter is ahead of another by the difference of their numbers. -/
theorem toNat_ofNat_sub {j k : ℕ} (hjk : j ≤ k) (hk : k < j + 2 ^ 32) :
    (BitVec.ofNat 32 k - BitVec.ofNat 32 j).toNat = k - j := by
  have h := idx_sub (b := 0) hjk hk
  rwa [idx, idx, Nat.zero_add, Nat.zero_add] at h

theorem Config.size_le (cfg : Config) : 2 ^ 9 ≤ 2 ^ cfg.logSize ∧ 2 ^ cfg.logSize ≤ 2 ^ 12 :=
  ⟨Nat.pow_le_pow_right (by omega) cfg.hmin, Nat.pow_le_pow_right (by omega) cfg.hmax⟩

theorem Config.logSize_lt (cfg : Config) : cfg.logSize < 32 := by
  have := cfg.hmax
  omega

theorem Config.toNat_limit (cfg : Config) : (limit cfg.mask).toNat = cfg.room :=
  Dma.toNat_limit (by have := cfg.hmin; omega) cfg.logSize_lt

theorem length_firstN {β : Type} (n : U32) (array : ℕ → β) : (firstN n array).length = n.toNat := by
  rw [firstN, List.length_map, List.length_range]

theorem map_firstN {β γ : Type} (f : β → γ) (n : U32) (array : ℕ → β) :
    (firstN n array).map f = firstN n (f ∘ array) := by
  rw [firstN, firstN, List.map_map]

theorem Inv.inFlight (h : Inv cfg P C s) : (s.added - s.completed).toNat = s.posted.length - s.done := by
  have hroom := h.room
  obtain ⟨-, hsize⟩ := cfg.size_le
  rw [h.added, h.completed, toNat_ofNat_sub h.behind (by rw [Config.room] at hroom; omega)]

/-- A post that is let through has room exactly when the count in the check does not wrap. -/
theorem Inv.room_iff (h : Inv cfg P C s) (hacc : Accepted cfg n s) :
    (s.added - s.completed).toNat + n.toNat < 2 ^ 32 ↔ s.posted.length + n.toNat ≤ s.done + cfg.room := by
  have hbehind := h.behind
  rw [h.inFlight]
  constructor
  · intro hwrap
    have hle : s.added - s.completed + n ≤ limit cfg.mask := BitVec.not_lt.mp hacc
    rw [BitVec.le_def, BitVec.toNat_add, h.inFlight, Nat.mod_eq_of_lt hwrap, cfg.toNat_limit] at hle
    omega
  · intro hroom
    obtain ⟨-, hsize⟩ := cfg.size_le
    rw [Config.room] at hroom
    omega

/-- **Post.** -/
theorem Inv.sent (h : Inv cfg P C s) (sents : List Sent) (hroom : s.posted.length + sents.length ≤ s.done + cfg.room)
    {added : U32} (hadded : added = BitVec.ofNat 32 (s.posted.length + sents.length)) {mem : Mem}
    (hmem : mem = writeAll (2 ^ cfg.logSize) s.posted.length (sents.map Sent.desc) s.ring.mem) :
    Inv cfg P C (s.sent sents added mem) := by
  obtain ⟨hsize, -⟩ := cfg.size_le
  have hearly := h.early
  have hpost := h.ring.post (sents.map Sent.desc) (by
    rw [List.length_map, List.length_map]
    rw [Config.room] at hroom
    omega)
  rw [List.length_map, ← List.map_append, ← hmem] at hpost
  refine ⟨hpost, ?_, h.completed, h.pushed, h.known, hearly, ?_, ?_, h.aligned⟩
  · rw [hadded]
    exact congrArg (BitVec.ofNat 32) List.length_append.symm
  · exact h.behind.trans (List.length_append ▸ Nat.le_add_right _ _)
  · exact List.length_append ▸ hroom

theorem Inv.added_add (h : Inv cfg P C s) (n : U32) : s.added + n = BitVec.ofNat 32 (s.posted.length + n.toNat) := by
  rw [h.added, BitVec.ofNat_add, BitVec.ofNat_toNat, BitVec.setWidth_eq]

/-- A transmit post that is let through. -/
theorem Inv.txPost (h : Inv cfg P C s) {ed : ℕ → Qword} {sents : List Sent} (hsents : sents.map Sent.desc = firstN n ed)
    (hacc : Accepted cfg n s) : s.posts sents (Dma.txPost cfg.mask ed n s.completed s.added s.ring.mem) =
      s.sent sents (BitVec.ofNat 32 (s.posted.length + sents.length))
        (writeAll (2 ^ cfg.logSize) s.posted.length (sents.map Sent.desc) s.ring.mem) := by
  have hlen : sents.length = n.toNat := by
    rw [← List.length_map (f := Sent.desc), hsents, length_firstN]
  rw [Dma.txPost, if_neg hacc, hlen, ← h.added_add n, hsents, ← txWrite_eq cfg.logSize_lt.le, ← h.added]
  rfl

theorem posts_refused {sents : List Sent} {ed : ℕ → Qword} (hacc : ¬ Accepted cfg n s) :
    s.posts sents (Dma.txPost cfg.mask ed n s.completed s.added s.ring.mem) = s := by
  rw [Dma.txPost, if_pos (not_not.mp hacc)]
  rfl

/-- A receive post. -/
theorem Inv.rxPost (h : Inv cfg P C s) {desc : EfxBuffer → Qword} {addrp : ℕ → ℕ} {size : ℕ} {sents : List Sent}
    (hsents : sents.map Sent.desc = firstN n fun i => desc ⟨addrp i, size, false⟩) :
    s.sent sents (s.added + n) (Dma.rxPost desc cfg.mask addrp size n s.added s.ring.mem) =
      s.sent sents (BitVec.ofNat 32 (s.posted.length + sents.length))
        (writeAll (2 ^ cfg.logSize) s.posted.length (sents.map Sent.desc) s.ring.mem) := by
  have hlen : sents.length = n.toNat := by
    rw [← List.length_map (f := Sent.desc), hsents, length_firstN]
  rw [hlen, h.added_add n, hsents, ← rxWrite_eq cfg.logSize_lt.le, Dma.rxPost, ← h.added]
  rfl

/-- **Push.**  The descriptors up to `P'` are shown to the device. -/
theorem Inv.doorbell {P' : ℕ} (h : Inv cfg P C s) (hP : P ≤ P') (hP' : P' ≤ s.posted.length)
    (haligned : cfg.kind = .ef10Rx → 8 ∣ P') (pushed : Option Qword)
    (hpushed : ∀ d, pushed = some d → d = s.ring.mem (P % 2 ^ cfg.logSize)) :
    Inv cfg P' C { s with
      ring := (sync cfg.mask (BitVec.ofNat 32 P' &&& cfg.mask) (BitVec.ofNat 32 P &&& cfg.mask) s.ring).doorbell
        (P' % 2 ^ cfg.logSize) pushed
      pushed := BitVec.ofNat 32 P' } := by
  have hroom := h.ring.room
  have hknown := h.ring.known
  have htold := h.ring.told
  rw [List.length_map] at hroom
  obtain ⟨I, hshows, hI⟩ := sync_shows s.ring.mem s.ring.seen cfg.logSize_lt hP (by omega)
  refine ⟨?_, h.added, h.completed, rfl, h.known, h.early, h.behind, h.room, haligned⟩
  exact h.ring.doorbell hP (by rwa [List.length_map]) hshows hI fun d hd _ => hpushed d hd

/-- A push of everything that was posted. -/
theorem Inv.doorbell_all (h : Inv cfg P C s) (hkind : cfg.kind ≠ .ef10Rx) (pushed : Option Qword)
    (hpushed : ∀ d, pushed = some d → d = s.ring.mem (P % 2 ^ cfg.logSize)) :
    Inv cfg s.posted.length C { s with
      ring := (sync cfg.mask (BitVec.ofNat 32 s.posted.length &&& cfg.mask) (BitVec.ofNat 32 P &&& cfg.mask)
        s.ring).doorbell (s.posted.length % 2 ^ cfg.logSize) pushed
      pushed := BitVec.ofNat 32 s.posted.length } := by
  have hP := h.ring.pushed
  rw [List.length_map] at hP
  exact h.doorbell hP le_rfl (fun hrx => absurd hrx hkind) pushed hpushed

/-! ### What each push tells the device -/

theorem Config.slot_eq (cfg : Config) (j : ℕ) : (BitVec.ofNat 32 j &&& cfg.mask).toNat = j % 2 ^ cfg.logSize :=
  Dma.slot_eq cfg.logSize_lt.le j

theorem Config.slot_lt (cfg : Config) (j : ℕ) : (BitVec.ofNat 32 j &&& cfg.mask).toNat < 2 ^ 12 := by
  obtain ⟨-, hsize⟩ := cfg.size_le
  rw [cfg.slot_eq]
  exact (Nat.mod_lt _ (Nat.two_pow_pos _)).trans_le hsize

theorem ef10TxQpush_eq (cfg : Config) (L P : ℕ) (r : DescRing Qword) :
    ef10TxQpush cfg.mask (BitVec.ofNat 32 L) (BitVec.ofNat 32 P) r =
      (sync cfg.mask (BitVec.ofNat 32 L &&& cfg.mask) (BitVec.ofNat 32 P &&& cfg.mask) r).doorbell (L % 2 ^ cfg.logSize)
        (some (r.mem (P % 2 ^ cfg.logSize))) := by
  have hdesc : ∀ q : Qword, (⟨.ofNat 32 q.u0.toNat, .ofNat 32 q.u1.toNat⟩ : Qword) = q := by
    intro q
    rw [BitVec.ofNat_toNat, BitVec.ofNat_toNat, BitVec.setWidth_eq, BitVec.setWidth_eq]
  unfold ef10TxQpush
  simp only [ef10TxDoorbell_eq]
  rw [ERF_DZ_TX_DESC_WPTR, ERF_DZ_TX_DESC_LWORD, ERF_DZ_TX_DESC_HWORD, field_dword2 (cfg.slot_lt L),
    field_dword0 le_rfl (BitVec.isLt _), field_dword1, hdesc, cfg.slot_eq, cfg.slot_eq]

theorem sienaDoorbell_wptr (cfg : Config) (L : ℕ) :
    Oword.field { Oword.zero with u3 := sienaDoorbell ⟨96, 12⟩ (BitVec.ofNat 32 L &&& cfg.mask) } ⟨96, 12⟩ =
      L % 2 ^ cfg.logSize := by
  rw [sienaDoorbell_eq, field_dword3 (cfg.slot_lt L)]
  exact cfg.slot_eq L

theorem ef10RxDoorbell_wptr (cfg : Config) (L : ℕ) :
    Oword.field { Oword.zero with u0 := ef10RxDoorbell (BitVec.ofNat 32 L &&& cfg.mask) } ERF_DZ_RX_DESC_WPTR =
      L % 2 ^ cfg.logSize := by
  rw [ef10RxDoorbell_eq, ERF_DZ_RX_DESC_WPTR, field_dword0 (by omega) (cfg.slot_lt L)]
  exact cfg.slot_eq L

/-- The write pointer that `ef10_rx_qpush` makes of `added` -/
theorem aligned_eq (L : ℕ) : BitVec.ofNat 32 L &&& -EF10_RX_WPTR_ALIGN = BitVec.ofNat 32 (L / 8 * 8) := by
  refine BitVec.eq_of_toNat_eq ?_
  have h := Rx.Rxq.and_neg_eight (BitVec.ofNat 32 L)
  change (BitVec.ofNat 32 L &&& (-8 : U32)).toNat = _
  rw [h, BitVec.toNat_ofNat, BitVec.toNat_ofNat]
  omega

/-- **Push rule.** -/
theorem Inv.push (h : Inv cfg P C s) : ∃ P', Inv cfg P' C (s.push cfg) := by
  have hnone : ∀ d, (none : Option Qword) = some d → d = s.ring.mem (P % 2 ^ cfg.logSize) := by
    intro d hd
    cases hd
  unfold Queue.push
  cases hkind : cfg.kind with
  | ef10Tx =>
    have hdoor := h.doorbell_all (by simp [hkind]) (some (s.ring.mem (P % 2 ^ cfg.logSize)))
      fun d hd => (Option.some.inj hd).symm
    rw [← ef10TxQpush_eq, ← h.added, ← h.pushed] at hdoor
    exact ⟨_, hdoor⟩
  | sienaTx | sienaRx =>
    have hdoor := h.doorbell_all (by simp [hkind]) none hnone
    rw [← sienaDoorbell_wptr, ← h.added, ← h.pushed] at hdoor
    exact ⟨_, hdoor⟩
  | ef10Rx =>
    have halign := aligned_eq s.posted.length
    rw [← h.added] at halign
    unfold ef10RxQpush
    simp only [halign]
    split_ifs with hsame
    · exact ⟨P, h⟩
    · have h8 : P ≤ s.posted.length / 8 * 8 := by
        have hP := h.ring.pushed
        have := h.aligned hkind
        rw [List.length_map] at hP
        omega
      have hdoor := h.doorbell h8 (Nat.div_mul_le_self _ 8) (fun _ => Nat.dvd_mul_left 8 _) none hnone
      rw [← ef10RxDoorbell_wptr, ← h.pushed] at hdoor
      exact ⟨_, hdoor⟩

/-! ### Every step -/

theorem Inv.delivers (h : Inv cfg P C s) (hreads : ∀ x ∈ s.posted, ∀ b, x.buffer = some b → cfg.Reads x.desc b) :
    Delivers cfg s := by
  have hpushed := h.ring.pushed
  have hroom := h.ring.room
  have hknown := h.ring.known
  have htold := h.ring.told
  obtain ⟨-, hsize⟩ := cfg.size_le
  rw [List.length_map] at hpushed hroom
  refine ⟨h.ring.fetched, fun hidle => ?_, h.room, hreads⟩
  rw [h.ring.idle_iff.mp hidle, h.added, h.pushed, toNat_ofNat_sub hpushed (by omega)]
  omega

/-- What the queue is between steps. -/
def Sound (cfg : Config) (s : Queue) : Prop := ∃ P C, Inv cfg P C s

theorem firstN_buffers (n : U32) (eb : ℕ → EfxBuffer) :
    (Queue.buffers cfg n eb).map Sent.desc = firstN n (cfg.desc ∘ eb) := map_firstN ..

theorem length_buffers (cfg : Config) (n : U32) (eb : ℕ → EfxBuffer) : (Queue.buffers cfg n eb).length = n.toNat :=
  length_firstN ..

theorem mem_buffers {eb : ℕ → EfxBuffer} {x : Sent} :
    x ∈ Queue.buffers cfg n eb ↔ ∃ i, i < n.toNat ∧ ⟨cfg.desc (eb i), some (eb i)⟩ = x := by
  rw [Queue.buffers, firstN, List.mem_map]
  simp only [List.mem_range]

/-- A post of buffers to which there is room keeps everything exactly when they fit. -/
theorem Inv.buffers_iff (h : Inv cfg P C s) (hs : Delivers cfg s) (n : U32) (eb : ℕ → EfxBuffer) {added : U32}
    {mem : Mem} (hadded : added = BitVec.ofNat 32 (s.posted.length + (Queue.buffers cfg n eb).length))
    (hmem : mem = writeAll (2 ^ cfg.logSize) s.posted.length ((Queue.buffers cfg n eb).map Sent.desc) s.ring.mem) :
    Delivers cfg (s.sent (Queue.buffers cfg n eb) added mem) ↔
      s.posted.length + n.toNat ≤ s.done + cfg.room ∧ ∀ i, i < n.toNat → Fits cfg.addrBits (eb i) := by
  constructor
  · intro hd
    have hroom : (s.posted ++ Queue.buffers cfg n eb).length ≤ s.done + cfg.room := hd.room
    rw [List.length_append, length_buffers] at hroom
    refine ⟨hroom, fun i hi => (cfg.reads_iff _).mp ?_⟩
    exact hd.reads ⟨cfg.desc (eb i), some (eb i)⟩ (List.mem_append_right _ (mem_buffers.mpr ⟨i, hi, rfl⟩)) (eb i) rfl
  · rintro ⟨hroom, hfits⟩
    rw [← length_buffers cfg n eb] at hroom
    refine (h.sent _ hroom hadded hmem).delivers fun x hx b hb => ?_
    rcases List.mem_append.mp hx with hx | hx
    · exact hs.reads x hx b hb
    · obtain ⟨i, hi, rfl⟩ := mem_buffers.mp hx
      cases hb
      exact (cfg.reads_iff _).mpr (hfits i hi)

/-- What each operation does. -/
inductive Steps (cfg : Config) (s : Queue) : Op → Queue → Prop
  | txPost (eb : ℕ → EfxBuffer) (n : U32) : Steps cfg s (.txPost eb n)
      (s.posts (Queue.buffers cfg n eb) (Dma.txPost cfg.mask (cfg.desc ∘ eb) n s.completed s.added s.ring.mem))
  | descPost (ed : ℕ → Qword) (n : U32) : Steps cfg s (.descPost ed n)
      (s.posts (firstN n fun i => ⟨ed i, none⟩) (Dma.txPost cfg.mask ed n s.completed s.added s.ring.mem))
  | pioPost (etPioOffset etPioSize pktLength : U32) : Steps cfg s (.pioPost etPioOffset etPioSize pktLength)
      (s.posts [⟨pioDesc etPioOffset pktLength, none⟩]
        (ef10TxQpioPost cfg.mask etPioOffset etPioSize pktLength s.completed s.added s.ring.mem))
  | rxPost (addrp : ℕ → ℕ) (size : ℕ) (n : U32) : Steps cfg s (.rxPost addrp size n)
      (s.sent (Queue.buffers cfg n fun i => ⟨addrp i, size, false⟩) (s.added + n)
        (Dma.rxPost cfg.desc cfg.mask addrp size n s.added s.ring.mem))
  | push : Steps cfg s .push (s.push cfg)
  | fetch (handed : Bool) (ring : DescRing Qword) (h : s.ring.fetch (2 ^ cfg.logSize) handed = some ring) :
      Steps cfg s (.fetch handed) { s with ring }
  | complete (count : ℕ) (h : s.done + count ≤ s.ring.fetched.length) :
      Steps cfg s (.complete count) { s with completed := s.completed + BitVec.ofNat 32 count, done := s.done + count }
  | writeBack (slot : ℕ) : Steps cfg s (.writeBack slot) { s with ring := s.ring.writeBack slot }

theorem step_cases {o : Op} (hs : step cfg o s = some s') : Steps cfg s o s' := by
  cases o with
  | txPost eb n =>
    unfold step at hs
    have hpost : Steps cfg s (.txPost eb n) _ := .txPost eb n
    cases hkind : cfg.kind with
    | ef10Tx | sienaTx =>
      rw [hkind] at hs
      rw [show cfg.desc = _ by rw [Config.desc, hkind]] at hpost
      cases hs
      exact hpost
    | ef10Rx | sienaRx =>
      rw [hkind] at hs
      cases hs
  | descPost ed n =>
    unfold step at hs
    cases hkind : cfg.kind with
    | ef10Tx | sienaTx =>
      rw [hkind] at hs
      cases hs
      exact .descPost ed n
    | ef10Rx | sienaRx =>
      rw [hkind] at hs
      cases hs
  | pioPost etPioOffset etPioSize pktLength =>
    unfold step at hs
    cases hkind : cfg.kind with
    | ef10Tx =>
      rw [hkind] at hs
      cases hs
      exact .pioPost ..
    | sienaTx | ef10Rx | sienaRx =>
      rw [hkind] at hs
      cases hs
  | rxPost addrp size n =>
    unfold step at hs
    have hpost : Steps cfg s (.rxPost addrp size n) _ := .rxPost addrp size n
    cases hkind : cfg.kind with
    | ef10Rx | sienaRx =>
      rw [hkind] at hs
      rw [show cfg.desc = _ by rw [Config.desc, hkind]] at hpost
      cases hs
      exact hpost
    | ef10Tx | sienaTx =>
      rw [hkind] at hs
      cases hs
  | push =>
    cases hs
    exact .push
  | fetch handed =>
    obtain ⟨ring, hring, rfl⟩ := Option.map_eq_some_iff.mp hs
    exact .fetch handed ring hring
  | complete count =>
    change (if s.done + count ≤ s.ring.fetched.length then some _ else none) = some s' at hs
    split_ifs at hs with hcount
    cases hs
    exact .complete count hcount
  | writeBack slot =>
    cases hs
    exact .writeBack slot

/-- Descriptors that are not of a buffer -/
theorem Inv.raw (h : Inv cfg P C s) (hs : Delivers cfg s) {sents : List Sent} (hraw : ∀ x ∈ sents, x.buffer = none)
    (hroom : s.posted.length + sents.length ≤ s.done + cfg.room) {added : U32}
    (hadded : added = BitVec.ofNat 32 (s.posted.length + sents.length)) {mem : Mem}
    (hmem : mem = writeAll (2 ^ cfg.logSize) s.posted.length (sents.map Sent.desc) s.ring.mem) :
    Inv cfg P C (s.sent sents added mem) ∧ Delivers cfg (s.sent sents added mem) := by
  have hinv := h.sent sents hroom hadded hmem
  refine ⟨hinv, hinv.delivers fun x hx b hb => ?_⟩
  rcases List.mem_append.mp hx with hx | hx
  · exact hs.reads x hx b hb
  · rw [hraw x hx] at hb
    cases hb

theorem Inv.pio (h : Inv cfg P C s) (hs : Delivers cfg s) (etPioOffset etPioSize pktLength : U32) :
    let s' := s.posts [⟨pioDesc etPioOffset pktLength, none⟩]
      (ef10TxQpioPost cfg.mask etPioOffset etPioSize pktLength s.completed s.added s.ring.mem)
    Inv cfg P C s' ∧ Delivers cfg s' := by
  unfold ef10TxQpioPost
  split_ifs with hfull hnone
  · exact ⟨h, hs⟩
  · exact ⟨h, hs⟩
  · obtain ⟨-, hsize⟩ := cfg.size_le
    have hroom := h.room
    have hone : (1 : U32).toNat = 1 := rfl
    have hfits := (h.room_iff (n := 1) hfull).mp (by
      rw [h.inFlight, hone]
      rw [Config.room] at hroom
      omega)
    have hraw : ∀ x ∈ [(⟨pioDesc etPioOffset pktLength, none⟩ : Sent)], x.buffer = none := by
      intro x hx
      rw [List.mem_singleton.mp hx]
    refine h.raw hs hraw hfits (h.added_add 1) ?_
    rw [h.added, cfg.slot_eq]
    rfl

/-- **Step lemma.** -/
theorem Inv.step {o : Op} (h : Inv cfg P C s) (hs : Delivers cfg s) (hstep : Steps cfg s o s') :
    (Proper cfg o s → Sound cfg s') ∧ (Delivers cfg s' ↔ Proper cfg o s) := by
  cases hstep with
  | txPost eb n =>
    by_cases hacc : Accepted cfg n s
    · rw [h.txPost (firstN_buffers n eb) hacc]
      have hiff := h.buffers_iff hs n eb rfl rfl
      have hproper : Proper cfg (.txPost eb n) s ↔
          s.posted.length + n.toNat ≤ s.done + cfg.room ∧ ∀ i, i < n.toNat → Fits cfg.addrBits (eb i) :=
        (imp_iff_right hacc).trans (and_congr_left' (h.room_iff hacc))
      refine ⟨fun hp => ⟨P, C, h.sent _ ?_ rfl rfl⟩, hiff.trans hproper.symm⟩
      rw [length_buffers]
      exact (hproper.mp hp).1
    · rw [posts_refused hacc]
      exact ⟨fun _ => ⟨P, C, h⟩, iff_of_true hs fun hnot => absurd hnot hacc⟩
  | descPost ed n =>
    by_cases hacc : Accepted cfg n s
    · have hmap : (firstN n fun i => (⟨ed i, none⟩ : Sent)).map Sent.desc = firstN n ed := map_firstN ..
      have hlen : (firstN n fun i => (⟨ed i, none⟩ : Sent)).length = n.toNat := length_firstN ..
      rw [h.txPost hmap hacc]
      have hproper : Proper cfg (.descPost ed n) s ↔ s.posted.length + n.toNat ≤ s.done + cfg.room :=
        (imp_iff_right hacc).trans (h.room_iff hacc)
      have hraw : Proper cfg (.descPost ed n) s → _ := fun hp =>
        h.raw hs (fun x hx => by
          obtain ⟨i, -, rfl⟩ := List.mem_map.mp hx
          rfl) (hlen ▸ hproper.mp hp) rfl rfl
      refine ⟨fun hp => ⟨P, C, (hraw hp).1⟩, fun hd => hproper.mpr ?_, fun hp => (hraw hp).2⟩
      have hroom : (s.posted ++ firstN n fun i => (⟨ed i, none⟩ : Sent)).length ≤ s.done + cfg.room := hd.room
      rwa [List.length_append, hlen] at hroom
    · rw [posts_refused hacc]
      exact ⟨fun _ => ⟨P, C, h⟩, iff_of_true hs fun hnot => absurd hnot hacc⟩
  | pioPost etPioOffset etPioSize pktLength =>
    obtain ⟨hinv, hd⟩ := h.pio hs etPioOffset etPioSize pktLength
    exact ⟨fun _ => ⟨P, C, hinv⟩, iff_of_true hd trivial⟩
  | rxPost addrp size n =>
    rw [h.rxPost (firstN_buffers n fun i => ⟨addrp i, size, false⟩)]
    have hiff := h.buffers_iff hs n (fun i => ⟨addrp i, size, false⟩) rfl rfl
    have hproper : Proper cfg (.rxPost addrp size n) s ↔ s.posted.length + n.toNat ≤ s.done + cfg.room ∧
        ∀ i, i < n.toNat → Fits cfg.addrBits ⟨addrp i, size, false⟩ := by
      refine and_congr_left fun _ => ?_
      have := h.behind
      rw [h.inFlight]
      omega
    refine ⟨fun hp => ⟨P, C, h.sent _ ?_ rfl rfl⟩, hiff.trans hproper.symm⟩
    rw [length_buffers]
    exact (hproper.mp hp).1
  | push =>
    obtain ⟨P', hpush⟩ := h.push
    have hposted : (s.push cfg).posted = s.posted := by
      unfold Queue.push
      split <;> rfl
    exact ⟨fun _ => ⟨P', C, hpush⟩, iff_of_true (hpush.delivers (hposted ▸ hs.reads)) trivial⟩
  | fetch handed ring hring =>
    have hinv : Inv cfg P C { s with ring } := { h with ring := (h.ring.fetch hring).1 }
    exact ⟨fun _ => ⟨P, C, hinv⟩, iff_of_true (hinv.delivers hs.reads) trivial⟩
  | complete count hcount =>
    have hknown := h.known
    have htold := h.ring.told
    have hpushed := h.ring.pushed
    rw [List.length_map] at hpushed
    have hinv : Inv cfg P (s.done + count)
        { s with completed := s.completed + BitVec.ofNat 32 count, done := s.done + count } := by
      refine ⟨h.ring.complete (by omega) hcount, h.added, ?_, h.pushed, le_rfl, Nat.le_succ _, ?_, ?_, h.aligned⟩
      · change s.completed + BitVec.ofNat 32 count = _
        rw [h.completed, ← BitVec.ofNat_add]
      · exact hcount.trans (htold.trans hpushed)
      · have := h.room
        change s.posted.length ≤ s.done + count + cfg.room
        omega
    exact ⟨fun _ => ⟨P, _, hinv⟩, iff_of_true (hinv.delivers hs.reads) trivial⟩
  | writeBack slot =>
    have hinv : Inv cfg P C { s with ring := s.ring.writeBack slot } := { h with ring := h.ring.writeBack slot }
    exact ⟨fun _ => ⟨P, C, hinv⟩, iff_of_true (hinv.delivers hs.reads) trivial⟩

theorem inv_created (cfg : Config) (cksumTcpudp cksumIpv4 : Bool) (mem seen : Mem) :
    ∃ P, Inv cfg P 0 (created cfg cksumTcpudp cksumIpv4 mem seen) ∧
      ∀ x ∈ (created cfg cksumTcpudp cksumIpv4 mem seen).posted, x.buffer = none := by
  obtain ⟨hlow, -⟩ := cfg.size_le
  have hempty : ∀ mem : Mem, Inv cfg 0 0 ⟨⟨mem, seen, 0, 0, none, []⟩, 0, 0, 0, [], 0⟩ := fun mem =>
    ⟨carries_fresh (Nat.two_pow_pos _) mem seen, rfl, rfl, rfl, le_rfl, Nat.zero_le _, le_rfl, Nat.zero_le _,
      fun _ => dvd_zero 8⟩
  have hnone : ∀ x ∈ ([] : List Sent), x.buffer = none := fun x hx => absurd hx List.not_mem_nil
  unfold created
  cases hkind : cfg.kind with
  | sienaTx => exact ⟨0, hempty mem, hnone⟩
  | ef10Rx => exact ⟨0, hempty mem, hnone⟩
  | sienaRx => exact ⟨0, hempty mem, hnone⟩
  | ef10Tx =>
    have hpost := (hempty mem).sent [⟨createDesc cksumTcpudp cksumIpv4, none⟩]
      (by rw [Config.room]; change 0 + 1 ≤ 0 + (2 ^ cfg.logSize - 16); omega) rfl rfl
    have hzero : 0 % 2 ^ cfg.logSize = 0 := Nat.zero_mod _
    obtain ⟨P, hpush⟩ := hpost.push
    unfold Queue.push at hpush
    rw [hkind] at hpush
    refine ⟨P, ?_, fun x hx => by rw [List.mem_singleton.mp hx]⟩
    change Inv cfg P 0 ⟨ef10TxQpush cfg.mask 1 0 ⟨Function.update mem (0 % 2 ^ cfg.logSize) _, seen, 0, 0, none, []⟩, 1, 0,
      1, _, 0⟩ at hpush
    rw [hzero] at hpush
    exact { hpush with
      completed := rfl
      known := Nat.zero_le _
      early := le_rfl
      behind := le_rfl
      room := by change 1 ≤ 1 + _; omega }

end Inv

/-- **The buffers posted are the buffers moved.**  In a run of posts and pushes with the device reading and the caches
written back at any time, the device reads just the descriptors that were posted, in order, as long as no count wraps in
the check, no receive queue is overfilled and every buffer can be said in its descriptor, and no longer. -/
theorem rings_deliver_iff (cfg : Config) (cksumTcpudp cksumIpv4 : Bool) (mem seen : Mem) (ops : List Op) :
    AlwaysAlong (step cfg) (Delivers cfg) ops (created cfg cksumTcpudp cksumIpv4 mem seen) ↔
      StepsAlong (step cfg) (Proper cfg) ops (created cfg cksumTcpudp cksumIpv4 mem seen) := by
  obtain ⟨P, hinv, hraw⟩ := inv_created cfg cksumTcpudp cksumIpv4 mem seen
  refine alwaysAlong_iff_of_steps (I := Sound cfg) (fun o s s' hsound hd hp hs => ?_) (fun o s s' hsound hd hs => ?_) ops
    ⟨P, 0, hinv⟩ (hinv.delivers fun x hx b hb => ?_)
  · obtain ⟨P, C, h⟩ := hsound
    exact (h.step hd (step_cases hs)).1 hp
  · obtain ⟨P, C, h⟩ := hsound
    exact (h.step hd (step_cases hs)).2
  · rw [hraw x hx] at hb
    cases hb

end Sfxge.Dma
