import Mathlib.Logic.Function.Iterate
import Sfxge.Efx
import Sfxge.Oword

/-!
# Tx.Ring — the descriptor ring of a transmit queue

The counters of `sfxge_txq_t`, the completion information of its descriptors and the fragment list, as
`sfxge_tx.c` handles them.  `sfxge_tx_qlist_post` and the loop of `sfxge_tx_qcomplete` are cut at their
reads and writes of what the other lock protects, since the one runs under `st_lock` and the other under
the event queue's `se_lock`.
-/

namespace Sfxge.Tx

open Errno

def SFXGE_TX_NDESCS : ℕ := 1024
def EFX_TXQ_LIMIT (ndescs : ℕ) : ℕ := ndescs - 16
def SFXGE_TXQ_UNBLOCK_LEVEL1 : ℕ := EFX_TXQ_LIMIT SFXGE_TX_NDESCS / 4
def SFXGE_TXQ_UNBLOCK_LEVEL2 : ℕ := 0
def SFXGE_TX_BATCH : ℕ := 64

/-- `sfxge_txq_state_t` -/
inductive TxqState where
  | SFXGE_TXQ_UNINITIALIZED
  | SFXGE_TXQ_INITIALIZED
  | SFXGE_TXQ_STARTED
  | SFXGE_TXQ_FLUSH_PENDING
  | SFXGE_TXQ_FLUSH_DONE
  | SFXGE_TXQ_FLUSH_FAILED
  deriving Repr, DecidableEq

open TxqState

/-- A message of the network stack, named by the transmit request that brought it. -/
abbrev Mblk := ℕ

/-- `sfxge_tx_mapping_t`: a DMA mapping and the message block bound to it. -/
structure Mapping where
  addr : ℕ
  stmMp : Option Mblk
  deriving Repr, DecidableEq

/-- `sfxge_tx_msgb_unbind` -/
def msgbUnbind (stmp : Mapping) : Mapping := { stmp with stmMp := none }

/-- `_i & (SFXGE_TX_NDESCS - 1)` -/
def slot (i : U32) : Fin SFXGE_TX_NDESCS := ⟨i.toNat % SFXGE_TX_NDESCS, Nat.mod_lt _ (by decide)⟩

/-- The ring part of `sfxge_txq_t`.  `stUnblock` is `none` for `SFXGE_TXQ_NOT_BLOCKED`, `wptr` the
index that the hardware has been told, and `freed` the messages given to `freemsg`, in order. -/
structure Txq where
  stState : TxqState
  stN : ℕ
  stStmp : Fin SFXGE_TX_NDESCS → List Mapping
  stStbp : Fin SFXGE_TX_NDESCS → List ℕ
  stMp : Fin SFXGE_TX_NDESCS → Option Mblk
  stAdded : U32
  stReaped : U32
  stUnblock : Option ℕ
  stPending : U32
  stCompleted : U32
  wptr : U32
  freed : List Mblk

namespace Txq

/-- The completion information of a descriptor is set. -/
def setInfo (id : Fin SFXGE_TX_NDESCS) (stmp : List Mapping) (stbp : List ℕ) (mp : Option Mblk)
    (stp : Txq) : Txq :=
  { stp with
    stStmp := Function.update stp.stStmp id stmp
    stStbp := Function.update stp.stStbp id stbp
    stMp := Function.update stp.stMp id mp }

/-- `if (mp != NULL) freemsg(mp);` -/
def freemsg (mp : Option Mblk) (stp : Txq) : Txq := { stp with freed := stp.freed ++ mp.toList }

/-! ### Fragmentation -/

/-- What `sfxge_tx_qpacket_fragment` or `sfxge_tx_qlso_fragment` makes of a packet: the return code,
the number of fragments in `st_eb`, and the mappings and buffers it has taken. -/
structure Fragments where
  rc : Option Errno
  n : ℕ
  stmp : List Mapping
  stbp : List ℕ
  n_le : n ≤ EFX_TXQ_LIMIT SFXGE_TX_NDESCS

theorem one_le_limit : 1 ≤ EFX_TXQ_LIMIT SFXGE_TX_NDESCS := by decide

/-- The effect of fragmenting a packet. -/
def fragment (f : Fragments) (mp : Mblk) (stp : Txq) : Txq :=
  let id := slot stp.stAdded
  let stp := { stp.setInfo id (f.stmp ++ stp.stStmp id) (f.stbp ++ stp.stStbp id) (stp.stMp id) with
    stN := f.n }
  match f.rc with
  | some _ => stp
  -- if no part of the packet has been mapped for DMA then it is freed now
  | none => if stp.stStmp id = [] then stp.freemsg (some mp)
    else { stp with stMp := Function.update stp.stMp id (some mp) }

/-- `sfxge_tx_qlist_abort` -/
def qlistAbort (stp : Txq) : Txq :=
  let id := slot stp.stAdded
  { (stp.setInfo id [] [] none).freemsg (stp.stMp id) with stN := 0 }

/-- The `reject` label of `sfxge_tx_qdpl_drain`. -/
def reject (mp : Mblk) (stp : Txq) : Txq := stp.qlistAbort.freemsg (some mp)

/-- The body of the loop of `sfxge_tx_qdpl_drain` up to `sfxge_tx_qlist_post`: whether the packet is to
be posted.  `f copy` is the outcome of fragmenting it. -/
def fragmentPacket (f : Bool → Fragments) (mp : Mblk) (stp : Txq) : Txq × Bool :=
  if stp.stState ≠ SFXGE_TXQ_STARTED then (stp.reject mp, false)
  else match (f false).rc with
    | none => (stp.fragment (f false) mp, true)
    -- try copying the packet to flatten it
    | some ENOSPC => match (f true).rc with
      | none => ((stp.fragment (f false) mp).qlistAbort.fragment (f true) mp, true)
      | some _ => (((stp.fragment (f false) mp).qlistAbort.fragment (f true) mp).reject mp, false)
    | some _ => ((stp.fragment (f false) mp).reject mp, false)

/-! ### Reaping -/

/-- A round of the loop of `sfxge_tx_qreap`. -/
def reapOne (stp : Txq) : Txq :=
  let id := slot stp.stReaped
  { stp with
    stReaped := stp.stReaped + 1
    stStmp := Function.update stp.stStmp id []
    stStbp := Function.update stp.stStbp id [] }

/-- `sfxge_tx_qreap`: the mappings and buffers go back to their pools. -/
def qreap (stp : Txq) : Txq := reapOne^[(stp.stCompleted - stp.stReaped).toNat] stp

/-! ### Posting -/

/-- The space left when the descriptors from `tail` on are in use. -/
def available (stp : Txq) (tail : U32) : U32 :=
  BitVec.ofNat 32 (EFX_TXQ_LIMIT SFXGE_TX_NDESCS) - (stp.stAdded - tail)

/-- The check of `efx_tx_qpost`. -/
def efxTxQpost (n : ℕ) (completed added : U32) : Option U32 :=
  if (added - completed + BitVec.ofNat 32 n).toNat > EFX_TXQ_LIMIT SFXGE_TX_NDESCS then none
  else some (added + BitVec.ofNat 32 n)

/-- The completion information moves to the last descriptor of the list. -/
def moveInfo (id last : Fin SFXGE_TX_NDESCS) (stp : Txq) : Txq :=
  if last ≠ id then
    (stp.setInfo id [] [] none).setInfo last (stp.stStmp id) (stp.stStbp id) (stp.stMp id)
  else stp

/-- Where `sfxge_tx_qlist_post` is. -/
inductive PostPc where
  /-- at `again` -/
  | again
  /-- the list does not fit: would it fit after reaping? -/
  | space
  /-- is there enough to reap? -/
  | batch
  | reap
  /-- the unblock level is set -/
  | block
  /-- the race with the completion handling is checked -/
  | race
  | unrace
  deriving Repr, DecidableEq

/-- A step of `sfxge_tx_qlist_post`; it has returned at `none`. -/
def postStep (stp : Txq) : PostPc → Txq × Option PostPc
  | .again =>
    if (stp.available stp.stReaped).toNat < stp.stN then (stp, some .space)
    else match efxTxQpost stp.stN stp.stReaped stp.stAdded with
      | none => (stp, some .space)
      | some added =>
        ({ stp.moveInfo (slot stp.stAdded) (slot (added - 1)) with stAdded := added, stN := 0 }, none)
  | .space => (stp, if stp.stN ≤ (stp.available stp.stCompleted).toNat then some .batch else some .block)
  | .batch =>
    (stp, if SFXGE_TX_BATCH ≤ (stp.stCompleted - stp.stReaped).toNat then some .reap else some .block)
  | .reap => (stp.qreap, some .again)
  | .block =>
    ({ stp with stUnblock := some (match stp.stUnblock with
        | none => SFXGE_TXQ_UNBLOCK_LEVEL1
        | some _ => SFXGE_TXQ_UNBLOCK_LEVEL2) }, some .race)
  | .race => (stp, if stp.stPending = stp.stAdded then some .unrace else none)
  | .unrace => ({ stp.qreap with stUnblock := none }, some .again)

/-- `efx_tx_qpush` -/
def efxTxQpush (added : U32) (stp : Txq) : Txq := { stp with wptr := added }

/-! ### Completion -/

/-- How far `sfxge_ev_tx` moves `st_pending` on an event for the descriptor `id`. -/
def evTxDelta (id : U32) (stp : Txq) : ℕ :=
  let stop := (slot (id + 1)).val
  let id := (slot stp.stPending).val
  if stop ≥ id then stop - id else SFXGE_TX_NDESCS - id + stop

/-- `sfxge_ev_tx` up to its call of `sfxge_tx_qcomplete`. -/
def evTx (id : U32) (stp : Txq) : Txq :=
  if stp.stState ≠ SFXGE_TXQ_STARTED then stp
  else { stp with stPending := stp.stPending + BitVec.ofNat 32 (stp.evTxDelta id) }

/-- A round of the first loop of `sfxge_tx_qcomplete`, on the descriptor `completed`. -/
def completeOne (completed : U32) (stp : Txq) : Txq :=
  let id := slot completed
  if stp.stStmp id = [] then stp
  else { stp.freemsg (stp.stMp id) with
    stStmp := Function.update stp.stStmp id ((stp.stStmp id).map msgbUnbind)
    stMp := Function.update stp.stMp id none }

/-- The first loop of `sfxge_tx_qcomplete`, from `completed` on. -/
def completeAll (stp : Txq) : Txq :=
  let end' := (fun p : U32 × Txq => (p.1 + 1, p.2.completeOne p.1))^[
    (stp.stPending - stp.stCompleted).toNat] (stp.stCompleted, stp)
  { end'.2 with stCompleted := end'.1 }

/-- `level <= stp->st_unblock`, where the level not blocked is the largest number. -/
def belowUnblock (added : U32) (stp : Txq) : Prop :=
  ∀ level ∈ stp.stUnblock, (added - stp.stCompleted).toNat ≤ level

instance (added : U32) (stp : Txq) : Decidable (stp.belowUnblock added) :=
  inferInstanceAs (Decidable (∀ level ∈ stp.stUnblock, _))

/-! ### Start and stop -/

/-- The part of `sfxge_tx_qstart` that is about the ring. -/
def qstart (descIndex : U32) (stp : Txq) : Txq :=
  { stp with
    stAdded := descIndex
    stPending := descIndex
    stCompleted := descIndex
    stReaped := descIndex
    wptr := descIndex
    stState := SFXGE_TXQ_STARTED }

/-- The part of `sfxge_tx_qstop` that is about the ring. -/
def qstop (stp : Txq) : Txq :=
  let stp := { stp.qlistAbort with stUnblock := none, stPending := stp.stAdded }
  { stp.completeAll.qreap with
    stAdded := 0
    stPending := 0
    stCompleted := 0
    stReaped := 0
    stState := SFXGE_TXQ_INITIALIZED }

end Txq

/-! ### The ring in a run

A step of the functions above, with the call of `sfxge_tx_qlist_post` and the one of
`sfxge_tx_qcomplete` that are in progress. -/

structure RingState where
  stp : Txq
  posting : Option Txq.PostPc
  /-- The local `completed` of `sfxge_tx_qcomplete`. -/
  completing : Option U32

inductive RingOp where
  /-- `sfxge_tx_qdpl_drain` fragments a packet, and posts it if that succeeds -/
  | packet (mp : Mblk) (f : Bool → Txq.Fragments)
  /-- `sfxge_tx_qdpl_flush_locked` frees a packet -/
  | discard (mp : Mblk)
  | post
  /-- `sfxge_tx_qunblock` finds the queue below its unblock level -/
  | unblock
  | push
  | evTx (id : U32)
  | complete
  /-- the queue leaves the state `SFXGE_TXQ_STARTED`: `sfxge_tx_qflush`, `sfxge_tx_qflush_done` -/
  | flush (st : TxqState)
  | stop
  | start (descIndex : U32)

/-- The states that a started queue can leave to. -/
def TxqState.Flushing (st : TxqState) : Prop :=
  st = .SFXGE_TXQ_FLUSH_PENDING ∨ st = .SFXGE_TXQ_FLUSH_DONE ∨ st = .SFXGE_TXQ_FLUSH_FAILED

instance (st : TxqState) : Decidable st.Flushing := inferInstanceAs (Decidable (_ ∨ _ ∨ _))

/-- A step, `none` where the operation is not possible.  The packets of a blocked queue stay on its
list, and an event names a descriptor that has been posted. -/
def ringStep : RingOp → RingState → Option RingState
  | .packet mp f, s =>
    if s.posting = none ∧ s.stp.stUnblock = none then
      some { s with
        stp := (s.stp.fragmentPacket f mp).1
        posting := if (s.stp.fragmentPacket f mp).2 then some .again else none }
    else none
  | .discard mp, s => some { s with stp := s.stp.freemsg (some mp) }
  | .post, s => s.posting.map fun pc =>
    { s with stp := (s.stp.postStep pc).1, posting := (s.stp.postStep pc).2 }
  | .unblock, s =>
    if s.posting = none ∧ s.stp.stState = SFXGE_TXQ_STARTED ∧ s.stp.stUnblock ≠ none ∧
        s.stp.belowUnblock s.stp.stAdded then
      some { s with stp := { s.stp with stUnblock := none }, posting := some .again }
    else none
  | .push, s => some { s with stp := s.stp.efxTxQpush s.stp.stAdded }
  | .evTx id, s =>
    if s.completing = none ∧ s.stp.evTxDelta id ≤ (s.stp.stAdded - s.stp.stPending).toNat then
      some { s with stp := s.stp.evTx id }
    else none
  | .complete, s => match s.completing with
    | none => some { s with completing := some s.stp.stCompleted }
    | some completed =>
      if completed = s.stp.stPending then
        some { s with stp := { s.stp with stCompleted := completed }, completing := none }
      else some { s with stp := s.stp.completeOne completed, completing := some (completed + 1) }
  | .flush st, s =>
    if s.posting = none ∧ s.stp.stState = SFXGE_TXQ_STARTED ∧ st.Flushing then
      some { s with stp := { s.stp with stState := st } }
    else none
  | .stop, s =>
    if s.posting = none ∧ s.completing = none ∧ s.stp.stState.Flushing then
      some { s with stp := s.stp.qstop }
    else none
  | .start descIndex, s =>
    if s.posting = none ∧ s.completing = none ∧ s.stp.stState = SFXGE_TXQ_INITIALIZED then
      some { s with stp := s.stp.qstart descIndex }
    else none

/-- `sfxge_tx_qinit` -/
def RingState.init : RingState where
  stp :=
    { stState := SFXGE_TXQ_INITIALIZED
      stN := 0
      stStmp := fun _ => []
      stStbp := fun _ => []
      stMp := fun _ => none
      stAdded := 0
      stReaped := 0
      stUnblock := none
      stPending := 0
      stCompleted := 0
      wptr := 0
      freed := [] }
  posting := none
  completing := none

end Sfxge.Tx
