import Mathlib.Data.Set.Finite.Basic
import Mathlib.Order.Interval.Finset.Nat
import Sfxge.Lic.Editing

/-!
# Lic.Bounds — where the reported keys end

`efx_lic_v1v2_find_key` checks that a header fits behind the offset it is given, and not that the payload
does: the length of a last key that was cut off reaches behind the buffer.
-/

namespace Sfxge.Lic

open Lib Lib.Prog StateTransition

variable {b : Bytes} {o : ℕ}

/-- What is reported at `o` can be read, validated and deleted without leaving the buffer, up to an end that
lies in it. -/
def KeyInBounds (b : Bytes) (o : ℕ) : Prop :=
  (findKey b.length o).Safe b ∧
    ∀ start length, findKey b.length o b = .ret (some (start, length)) b →
      start + length ≤ b.length ∧ HEADER_LENGTH ≤ length ∧
      (∀ keyMaxSize, (readKey start length keyMaxSize).Safe b) ∧
      ∀ endp, start + length ≤ endp → endp ≤ b.length → endp < 4294967296 → (deleteKey start length endp).Safe b

/-- At `o` the header of a key fits in the buffer, and its payload does not. -/
def Truncated (b : Bytes) (o : ℕ) : Prop :=
  o + HEADER_LENGTH ≤ b.length ∧ u16 b (o + 2) ≤ PAYLOAD_LENGTH_MAX ∧
    ¬ (u16 b o = 0 ∧ u16 b (o + 2) = 0) ∧ b.length < o + HEADER_LENGTH + u16 b (o + 2)

instance (b : Bytes) (o : ℕ) : Decidable (Truncated b o) := by unfold Truncated; infer_instance

/-- The offset behind the key at `o`, as a `uint32_t` -/
def nextKey (b : Bytes) (o : ℕ) : Option ℕ :=
  match findKey b.length o b with
  | .ret (some (start, length)) _ => some ((start + length) % 4294967296)
  | _ => none

/-- The enumeration from `find_start` on stays in the buffer and comes to an end. -/
def Enumerates (b : Bytes) : Prop :=
  (∀ o, Reaches (nextKey b) 0 o → KeyInBounds b o) ∧ (eval (nextKey b) 0).Dom

theorem findKey_some (h : o + HEADER_LENGTH ≤ b.length) (hmax : u16 b (o + 2) ≤ PAYLOAD_LENGTH_MAX)
    (hne : ¬ (u16 b o = 0 ∧ u16 b (o + 2) = 0)) :
    findKey b.length o b = .ret (some (o, u16 b (o + 2) + HEADER_LENGTH)) b := by
  rw [findKey_of_le h, if_neg]
  rintro (hbig | hzero)
  · omega
  · exact hne hzero

theorem findKey_safe (h : o ≤ b.length) : (findKey b.length o).Safe b := by
  rcases Nat.lt_or_ge b.length (o + HEADER_LENGTH) with hlt | hge
  · exact safe_of_ret (findKey_of_gt h hlt)
  · rw [Safe, findKey_of_le hge]
    split_ifs <;> simp

theorem deleteKey_safe {start length endp : ℕ} (h : start + length ≤ endp) (hend : endp ≤ b.length)
    (h32 : endp < 4294967296) : (deleteKey start length endp).Safe b := by
  obtain ⟨n, rfl⟩ := Nat.exists_eq_add_of_le h
  have hstart : (start + length) % 4294967296 = start + length := Nat.mod_eq_of_lt (by omega)
  have hlen : (((start + length + n : ℕ) : ℤ) - ((start + length : ℕ) : ℤ)) % 4294967296 = (n : ℤ) := by
    rw [show ((start + length + n : ℕ) : ℤ) - ((start + length : ℕ) : ℤ) = (n : ℤ) by push_cast; ring]
    exact Int.emod_eq_of_lt (by omega) (by omega)
  have hmove : (memmove (start : ℤ) ((start + length : ℕ) : ℤ) (n : ℤ) : LicProg Unit) b = .ret () _ :=
    memmove_of_le (by omega) (by omega)
  have hdel : deleteKey start length (start + length + n) =
      (memmove (start : ℤ) ((start + length : ℕ) : ℤ) (n : ℤ) >>= fun _ => pure length) := by
    unfold deleteKey
    dsimp only
    rw [hstart, hlen]
  rw [hdel, Safe, bind_of_ret hmove]
  simp

/-- One call: the key that is reported lies in the buffer unless it is truncated. -/
theorem keyInBounds_iff (h : o ≤ b.length) : KeyInBounds b o ↔ ¬ Truncated b o := by
  constructor
  · rintro ⟨-, hkey⟩ ⟨hhead, hmax, hne, hlong⟩
    have hle := (hkey _ _ (findKey_some hhead hmax hne)).1
    omega
  · intro htrunc
    refine ⟨findKey_safe h, fun start length hfind => ?_⟩
    obtain ⟨rfl, rfl, hmax, hne⟩ := findKey_some_inv hfind
    have hhead : start + HEADER_LENGTH ≤ b.length := by
      by_contra hlt
      rw [findKey_of_gt h (by omega)] at hfind
      cases hfind
    have hle : start + (u16 b (start + 2) + HEADER_LENGTH) ≤ b.length := by
      by_contra hlong
      exact htrunc ⟨hhead, hmax, hne, by omega⟩
    refine ⟨hle, by omega, fun keyMaxSize => ?_, fun endp => deleteKey_safe⟩
    exact safe_ensure_bind fun _ => safe_of_ret (load_of_le hle)

/-! ### The enumeration -/

theorem nextKey_inv {o' : ℕ} (h : nextKey b o = some o') (ho : o ≤ b.length) (ht : ¬ Truncated b o) :
    ∃ length, HEADER_LENGTH ≤ length ∧ o + length ≤ b.length ∧ o' = (o + length) % 4294967296 := by
  unfold nextKey at h
  split at h
  · rename_i start length b' hfind
    cases h
    obtain ⟨hstart, hlength, hmax, hne⟩ := findKey_some_inv hfind
    subst hstart
    have hb : b' = b := by
      rcases Nat.lt_or_ge b.length (start + HEADER_LENGTH) with hlt | hge
      · rw [findKey_of_gt ho hlt] at hfind
        cases hfind
      · rw [findKey_some hge hmax hne] at hfind
        cases hfind
        rfl
    subst hb
    have hkey := ((keyInBounds_iff ho).mpr ht).2 start length hfind
    exact ⟨length, hkey.2.1, hkey.1, rfl⟩
  · cases h

/-- Without a truncated key on its way, the enumeration stays in the buffer. -/
theorem visited_le (h : ∀ o, Reaches (nextKey b) 0 o → ¬ Truncated b o) (hr : Reaches (nextKey b) 0 o) :
    o ≤ b.length := by
  induction hr with
  | refl => omega
  | tail hprev hstep ih =>
    obtain ⟨length, -, hle, rfl⟩ := nextKey_inv hstep ih (h _ hprev)
    exact le_trans (Nat.mod_le _ _) hle

/-- In a buffer of less than 4 GiB an offset does not come back. -/
theorem visited_lt (h : ∀ o, Reaches (nextKey b) 0 o → ¬ Truncated b o) (h32 : b.length < 4294967296)
    (hr : Reaches (nextKey b) 0 o) {o' : ℕ} (hn : Reaches₁ (nextKey b) o o') : o < o' := by
  have hstep : ∀ {u v}, Reaches (nextKey b) 0 u → nextKey b u = some v → u < v := by
    intro u v hu huv
    obtain ⟨length, hlen, hle, rfl⟩ := nextKey_inv huv (visited_le h hu) (h _ hu)
    have h4 : HEADER_LENGTH = 4 := rfl
    rw [Nat.mod_eq_of_lt (by omega)]
    omega
  induction hn with
  | single huv => exact hstep hr huv
  | tail hprev huv ih => exact lt_trans ih (hstep (hr.trans hprev.to_reflTransGen) huv)

/-- **Licence key bounds.**  At any offset in any buffer, what `find_key` reports stays in the buffer if and
only if the key there is not truncated; the enumeration from `find_start` on stays in the buffer and ends if
and only if it meets no truncated key and, in a buffer of 4 GiB or more, no offset comes back. -/
theorem find_key_bounds_iff {b : Bytes} {offset : ℕ} (h : offset ≤ b.length) :
    (KeyInBounds b offset ↔ ¬ Truncated b offset) ∧
    (Enumerates b ↔ (∀ o, Reaches (nextKey b) 0 o → ¬ Truncated b o) ∧
      (4294967296 ≤ b.length → ∀ o, Reaches (nextKey b) 0 o → ¬ Reaches₁ (nextKey b) o o)) := by
  refine ⟨keyInBounds_iff h, ?_, ?_⟩
  · rintro ⟨hkeys, hdom⟩
    refine ⟨fun o hr ⟨hhead, hmax, hne, hlong⟩ => ?_, fun _ o hr hback => ?_⟩
    · have hle := ((hkeys o hr).2 _ _ (findKey_some hhead hmax hne)).1
      omega
    · rw [dom_iff_of_reaches hr] at hdom
      exact not_dom_of_cycle hback hdom
  · rintro ⟨htrunc, hback⟩
    have hfinite : Finite {t // Reaches (nextKey b) 0 t} :=
      Set.Finite.subset (Set.finite_Iic b.length) fun t ht => visited_le htrunc ht
    refine ⟨fun o hr => (keyInBounds_iff (visited_le htrunc hr)).mpr (htrunc o hr),
      dom_of_no_cycle fun o hr hcycle => ?_⟩
    rcases Nat.lt_or_ge b.length 4294967296 with hlt | hge
    · exact absurd (visited_lt htrunc hlt hr hcycle) (lt_irrefl o)
    · exact hback hge o hr hcycle

/-- A key and a terminator, which ends the buffer -/
theorem find_key_bounds_one_key :
    (0 ≤ ([1, 0, 1, 0, 7, 0, 0, 0, 0] : Bytes).length) ∧ KeyInBounds [1, 0, 1, 0, 7, 0, 0, 0, 0] 0 :=
  ⟨by decide, (find_key_bounds_iff (by decide)).1.mpr (by decide)⟩

/-- The last key of a partition, cut off behind its header: its length reaches behind the buffer. -/
theorem find_key_truncated :
    findKey 4 0 [1, 0, 16, 0] = .ret (some (0, 20)) [1, 0, 16, 0] ∧ ¬ KeyInBounds [1, 0, 16, 0] 0 := by
  have hfind : findKey 4 0 [1, 0, 16, 0] = .ret (some (0, 20)) [1, 0, 16, 0] := by decide
  refine ⟨hfind, fun h => ?_⟩
  have hle := (h.2 _ _ hfind).1
  revert hle
  decide

end Sfxge.Lic
