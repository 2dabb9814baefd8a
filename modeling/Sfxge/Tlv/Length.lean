import Sfxge.Tlv.Buffer

/-!
# Tlv.Length — the memory keeps its length

Whatever the programs on a buffer store, and however they end, the buffer is as long as it was.
-/

namespace Sfxge.Tlv

open Lib Lib.Prog Errno

variable {ε α : Type}

/-! ### Accesses -/

theorem frames_load (p : ℤ) (n : ℕ) : (load p n : Prog Bytes ε Bytes).Frames List.length := by
  intro m m' h
  unfold load at h
  split_ifs at h <;> cases h
  rfl

theorem frames_loadU32 (p : ℤ) : (loadU32 p : Prog Bytes ε ℕ).Frames List.length :=
  frames_bind (frames_load p 4) fun _ => frames_pure _

theorem length_of_inBlock {m bs : Bytes} {p : ℤ} (h : InBlock m p bs.length) :
    (splice m p.toNat bs).length = m.length := by
  rcases h with h | ⟨h0, h1⟩
  · rw [List.length_eq_zero_iff.mp h, splice_nil]
  · exact length_splice (by omega)

theorem frames_store (p : ℤ) (bs : Bytes) : (store p bs : Prog Bytes ε Unit).Frames List.length := by
  intro m m' h
  unfold store at h
  split_ifs at h with hin <;> cases h
  exact length_of_inBlock hin

theorem frames_memmove (dst src n : ℤ) : (memmove dst src n : Prog Bytes ε Unit).Frames List.length := by
  intro m m' h
  unfold memmove at h
  split_ifs at h with hn hin <;> cases h
  have hlen : (slice m src.toNat n.toNat).length ≤ n.toNat := by simp [slice]
  refine length_of_inBlock ?_
  rcases hin.2 with h0 | ⟨h0, h1⟩
  · exact Or.inl (by omega)
  · exact Or.inr ⟨h0, by omega⟩

theorem frames_memset (p : ℤ) (b : UInt8) (n : ℤ) : (memset p b n : Prog Bytes ε Unit).Frames List.length := by
  intro m m' h
  unfold memset at h
  split_ifs at h with hn
  · cases h
  · exact frames_store _ _ m m' h

theorem frames_sumU32 (p : ℤ) (n : ℕ) : (sumU32 p n : Prog Bytes ε ℕ).Frames List.length := by
  induction n with
  | zero => exact frames_pure 0
  | succ n ih => exact frames_bind ih fun _ => frames_bind (frames_loadU32 _) fun _ => frames_pure _

theorem frames_loopFuel : loopFuel.Frames List.length := by
  intro m m' h
  cases h
  rfl

/-! ### The cursor -/

variable (c : TlvCursor)

theorem frames_tlvTag : (tlvTag c).Frames List.length := frames_loadU32 _

theorem frames_tlvLength : (tlvLength c).Frames List.length :=
  frames_bind (frames_tlvTag c) fun _ => frames_ite (frames_pure 0) (frames_loadU32 _)

theorem frames_tlvNextItemPtr : (tlvNextItemPtr c).Frames List.length :=
  frames_bind (frames_tlvLength c) fun _ => frames_pure _

theorem frames_tlvValidateState : (tlvValidateState c).Frames List.length :=
  frames_bind (frames_ensure _ _) fun _ => frames_bind (frames_ensure _ _) fun _ =>
    frames_bind (frames_tlvTag c) fun _ => frames_ite
      (frames_bind (frames_ensure _ _) fun _ => frames_bind (frames_tlvNextItemPtr c) fun _ => frames_ensure _ _)
      (frames_pure ())

theorem frames_tlvAdvance : (tlvAdvance c).Frames List.length :=
  frames_bind (frames_tlvValidateState c) fun _ => frames_bind (frames_ensure _ _) fun _ =>
    frames_bind (frames_tlvNextItemPtr c) fun _ => frames_bind (frames_tlvValidateState _) fun _ => frames_pure _

theorem frames_tlvFind (tag : ℕ) : (tlvFind c tag).Frames List.length := by
  refine frames_bind (frames_bind (frames_tlvValidateState _) fun _ => frames_pure _) fun _ =>
    frames_bind frames_loopFuel fun _ => frames_iterate (fun c => ?_) _ _
  exact frames_bind (frames_tlvTag c) fun _ =>
    frames_ite (frames_pure _) (frames_bind (frames_tlvAdvance c) fun _ => frames_pure _)

theorem frames_tlvInitCursor (block : ℕ) (limit : ℤ) (current : ℕ) :
    (tlvInitCursor block limit current).Frames List.length :=
  frames_bind (frames_tlvValidateState _) fun _ => frames_pure _

theorem frames_tlvRequireEnd : (tlvRequireEnd c).Frames List.length := by
  unfold tlvRequireEnd
  split
  · exact frames_pure _
  · exact frames_bind (frames_tlvFind c _) fun _ => frames_pure _

theorem frames_tlvBlockLengthUsed : (tlvBlockLengthUsed c).Frames List.length := by
  refine frames_bind (frames_attempt (frames_tlvValidateState c)) fun r => ?_
  cases r with
  | error e => exact frames_pure _
  | ok _ =>
    refine frames_bind (frames_attempt (frames_tlvRequireEnd c)) fun r => ?_
    cases r <;> exact frames_pure _

theorem frames_tlvLastSegmentEnd : (tlvLastSegmentEnd c).Frames List.length := by
  refine frames_bind frames_loopFuel fun _ => frames_iterate (fun st => ?_) _ _
  refine frames_bind (frames_attempt (frames_tlvInitCursor _ _ _)) fun r => ?_
  cases r with
  | error e => exact frames_pure _
  | ok c =>
    refine frames_bind (frames_attempt (frames_tlvFind c _)) fun r => ?_
    cases r <;> exact frames_pure _

theorem frames_tlvWrite (tag : ℕ) (data : Bytes) : (tlvWrite c tag data).Frames List.length :=
  frames_bind (frames_store _ _) fun _ => frames_bind (frames_store _ _) fun _ =>
    frames_ite (frames_bind (frames_store _ _) fun _ => frames_store _ _) (frames_pure ())

theorem frames_tlvInsert (tag : ℕ) (data : Bytes) : (tlvInsert c tag data).Frames List.length :=
  frames_bind (frames_tlvValidateState c) fun _ => frames_bind (frames_tlvRequireEnd c) fun _ =>
    frames_bind (frames_ensure _ _) fun _ => frames_bind (frames_tlvLastSegmentEnd _) fun _ =>
      frames_bind (frames_ensure _ _) fun _ => frames_bind (frames_memmove _ _ _) fun _ =>
        frames_bind (frames_tlvWrite _ _ _) fun _ => frames_pure _

theorem frames_tlvModifySpace (oldNdwords newNdwords lastSegmentEnd : ℕ) :
    (tlvModifySpace c oldNdwords newNdwords lastSegmentEnd).Frames List.length :=
  frames_ite
    (frames_bind (frames_ensure _ _) fun _ => frames_bind (frames_memmove _ _ _) fun _ => frames_pure _)
    (frames_ite
      (frames_bind (frames_memmove _ _ _) fun _ => frames_bind (frames_memset _ _ _) fun _ => frames_pure _)
      (frames_pure c))

theorem frames_tlvModify (tag : ℕ) (data : Bytes) : (tlvModify c tag data).Frames List.length :=
  frames_bind (frames_tlvValidateState c) fun _ => frames_bind (frames_tlvTag c) fun _ =>
    frames_bind (frames_ensure _ _) fun _ => frames_bind (frames_tlvTag c) fun _ =>
      frames_bind (frames_ensure _ _) fun _ => frames_bind (frames_tlvLength c) fun _ =>
        frames_bind (frames_tlvRequireEnd c) fun _ => frames_bind (frames_tlvLastSegmentEnd _) fun _ =>
          frames_bind (frames_tlvModifySpace _ _ _ _) fun _ =>
            frames_bind (frames_tlvWrite _ _ _) fun _ => frames_pure _

/-! ### Segments -/

theorem frames_headerItem (base size : ℕ) : (headerItem base size).Frames List.length :=
  frames_bind (frames_orFail _ (frames_tlvInitCursor _ _ _)) fun _ => frames_bind (frames_tlvTag _) fun _ =>
    frames_bind (frames_ensure _ _) fun _ => frames_bind (frames_loadU32 _) fun _ =>
      frames_bind (frames_ensure _ _) fun _ => frames_pure _

theorem frames_trailerItem : (trailerItem c).Frames List.length :=
  frames_bind (frames_orFail _ (frames_tlvFind c _)) fun _ =>
    frames_bind (frames_orFail _ (frames_tlvAdvance _)) fun _ => frames_bind (frames_tlvTag _) fun _ =>
      frames_bind (frames_ensure _ _) fun _ => frames_pure _

theorem frames_checkGeneration (base trailer : ℕ) (e : Errno) : (checkGeneration base trailer e).Frames List.length :=
  frames_bind (frames_loadU32 _) fun _ => frames_bind (frames_loadU32 _) fun _ => frames_ensure _ _

theorem frames_checkSum (base length : ℕ) : (checkSum base length).Frames List.length :=
  frames_bind (frames_sumU32 _ _) fun _ => frames_ensure _ _

theorem frames_ef10NvramBufSegmentSize (base size : ℕ) : (ef10NvramBufSegmentSize base size).Frames List.length := by
  refine frames_bind (frames_headerItem base size) fun _ => frames_bind (frames_trailerItem _) fun _ =>
    frames_bind (frames_checkSum _ _) fun _ => frames_bind (frames_tlvBlockLengthUsed _) fun _ =>
      frames_bind (frames_ensure _ _) fun _ => frames_bind (frames_ensure _ _) fun _ =>
        frames_bind (frames_tlvAdvance _) fun _ => frames_bind frames_loopFuel fun _ =>
          frames_bind (frames_iterate (fun c => ?_) _ _) fun _ => frames_pure _
  exact frames_bind (frames_tlvTag c) fun _ => frames_ite (frames_pure _)
    (frames_bind (frames_ensure _ _) fun _ => frames_bind (frames_tlvAdvance c) fun _ => frames_pure _)

theorem frames_updateChain (tag : ℕ) (tagData : Bytes) : (updateChain c tag tagData).Frames List.length := by
  refine frames_bind (frames_attempt (frames_tlvFind c tag)) fun r => ?_
  cases r with
  | ok found => exact frames_tlvModify _ _ _
  | error e => exact frames_bind (frames_orFail _ (frames_tlvFind c _)) fun _ => frames_orFail _ (frames_tlvInsert _ _ _)

theorem frames_ef10NvramBufWriteTlv (base size tag : ℕ) (tagData : Bytes) :
    (ef10NvramBufWriteTlv base size tag tagData).Frames List.length :=
  frames_bind (frames_orFail _ (frames_tlvInitCursor _ _ _)) fun _ => frames_bind (frames_tlvTag _) fun _ =>
    frames_bind (frames_ensure _ _) fun _ => frames_bind (frames_updateChain _ _ _) fun _ =>
      frames_bind (frames_orFail _ (frames_tlvFind _ _)) fun _ => frames_bind (frames_tlvBlockLengthUsed _) fun _ =>
        frames_bind (frames_ensure _ _) fun _ => frames_bind (frames_loadU32 _) fun _ =>
          frames_bind (frames_store _ _) fun _ => frames_bind (frames_store _ _) fun _ =>
            frames_bind (frames_store _ _) fun _ => frames_bind (frames_store _ _) fun _ =>
              frames_bind (frames_sumU32 _ _) fun _ => frames_bind (frames_store _ _) fun _ => frames_pure _

end Sfxge.Tlv
