import Sfxge.Lib.Bytes

/-!
# Bootcfg.Block — DHCP option blocks

The options of a boot configuration block: a list of entries, each a pad byte or an option
`tag, length, value`, then either nothing or the end byte and anything behind it.
`optionsOf` reads the options of a byte string back, whatever the string is.
-/

namespace Sfxge.Bootcfg

open Lib

def DHCP_END : UInt8 := 0xff
def DHCP_PAD : UInt8 := 0

/-- An option; its tag is neither pad nor end and its length fits in a byte. -/
structure DhcpOption where
  tag : UInt8
  value : Bytes
  tag_ne : tag ≠ DHCP_END ∧ tag ≠ DHCP_PAD
  value_lt : value.length < 256

inductive Entry where
  | pad
  | opt (o : DhcpOption)

def Entry.bytes : Entry → Bytes
  | .pad => [DHCP_PAD]
  | .opt o => o.tag :: UInt8.ofNat o.value.length :: o.value

/-- The bytes of a list of entries. -/
def encode (es : List Entry) : Bytes := es.flatMap Entry.bytes

/-- The tags and values of the options of a list of entries. -/
def options : List Entry → List (UInt8 × Bytes)
  | [] => []
  | .pad :: es => options es
  | .opt o :: es => (o.tag, o.value) :: options es

/-- Tags and values of the options in `bs`, up to the end byte or the end of `bs`. -/
def optionsOf : Bytes → List (UInt8 × Bytes)
  | [] => []
  | tag :: rest =>
    if tag = DHCP_END then []
    else if tag = DHCP_PAD then optionsOf rest
    else
      match rest with
      | [] => []
      | length :: rest =>
        (tag, rest.take length.toNat) :: optionsOf (rest.drop length.toNat)
termination_by bs => bs.length
decreasing_by all_goals simp; try omega

@[simp] theorem encode_nil : encode [] = [] := rfl

@[simp] theorem encode_pad (es : List Entry) : encode (.pad :: es) = DHCP_PAD :: encode es := rfl

@[simp] theorem encode_opt (o : DhcpOption) (es : List Entry) :
    encode (.opt o :: es) = o.tag :: UInt8.ofNat o.value.length :: (o.value ++ encode es) := rfl

theorem encode_append (es es' : List Entry) : encode (es ++ es') = encode es ++ encode es' := by
  simp [encode]

theorem encode_replicate_pad (n : ℕ) :
    encode (List.replicate n .pad) = List.replicate n DHCP_PAD := by
  induction n with
  | zero => rfl
  | succ n ih => rw [List.replicate_succ, encode_pad, ih, List.replicate_succ]

theorem length_le_encode (es : List Entry) : es.length ≤ (encode es).length := by
  induction es with
  | nil => rfl
  | cons e es ih => cases e <;> simp <;> omega

theorem options_append_pads (es : List Entry) (n : ℕ) :
    options (es ++ List.replicate n .pad) = options es := by
  induction es with
  | nil =>
    induction n with
    | zero => rfl
    | succ n ih => simpa [List.replicate_succ, options] using ih
  | cons e es ih => cases e <;> simpa [options] using ih

theorem toNat_length (o : DhcpOption) : (UInt8.ofNat o.value.length).toNat = o.value.length := by
  have h : (UInt8.ofNat o.value.length).toNat = o.value.length % 256 := UInt8.toNat_ofNat'
  rw [h, Nat.mod_eq_of_lt o.value_lt]

theorem optionsOf_end (junk : Bytes) : optionsOf (DHCP_END :: junk) = [] := by
  rw [optionsOf.eq_def]
  simp

theorem optionsOf_pad (rest : Bytes) : optionsOf (DHCP_PAD :: rest) = optionsOf rest := by
  rw [optionsOf.eq_def]
  simp [DHCP_PAD, DHCP_END]

theorem optionsOf_opt (o : DhcpOption) (rest : Bytes) :
    optionsOf (o.tag :: UInt8.ofNat o.value.length :: (o.value ++ rest)) =
      (o.tag, o.value) :: optionsOf rest := by
  rw [optionsOf.eq_def]
  simp only [if_neg o.tag_ne.1, if_neg o.tag_ne.2, toNat_length, List.take_left, List.drop_left]

/-- What may stand behind the entries: nothing, or the end byte and anything. -/
def IsTail (tail : Bytes) : Prop := tail = [] ∨ ∃ junk, tail = DHCP_END :: junk

theorem optionsOf_tail {tail : Bytes} (h : IsTail tail) : optionsOf tail = [] := by
  rcases h with rfl | ⟨junk, rfl⟩
  · rw [optionsOf]
  · exact optionsOf_end junk

/-- The options of a block are read back. -/
theorem optionsOf_encode (es : List Entry) {tail : Bytes} (h : IsTail tail) :
    optionsOf (encode es ++ tail) = options es := by
  induction es with
  | nil => simpa [options] using optionsOf_tail h
  | cons e es ih =>
    cases e with
    | pad => rw [encode_pad, List.cons_append, optionsOf_pad, ih, options]
    | opt o =>
      rw [encode_opt, List.cons_append, List.cons_append, List.append_assoc, optionsOf_opt, ih,
        options]

/-- Where the last option of `es` ends, when `es` starts at `offset`; `used` if it has none. -/
def lastEnd : (offset used : ℕ) → List Entry → ℕ
  | _, used, [] => used
  | offset, used, .pad :: es => lastEnd (offset + 1) used es
  | offset, _, .opt o :: es =>
    lastEnd (offset + 2 + o.value.length) (offset + 2 + o.value.length) es

theorem lastEnd_append_pads (es : List Entry) (offset used n : ℕ) :
    lastEnd offset used (es ++ List.replicate n .pad) = lastEnd offset used es := by
  induction es generalizing offset used with
  | nil =>
    induction n generalizing offset with
    | zero => rfl
    | succ n ih => simpa [List.replicate_succ, lastEnd] using ih (offset + 1)
  | cons e es ih => cases e <;> simpa [lastEnd] using ih ..

/-- The entries up to the last option, and the pads behind it. -/
theorem split_lastEnd (es : List Entry) (offset used : ℕ) :
    ∃ es' n, es = es' ++ List.replicate n .pad ∧
      (es' = [] ∨ lastEnd offset used es = offset + (encode es').length) := by
  induction es generalizing offset used with
  | nil => exact ⟨[], 0, rfl, Or.inl rfl⟩
  | cons e es ih =>
    cases e with
    | pad =>
      obtain ⟨es', n, rfl, h⟩ := ih (offset + 1) used
      rcases h with rfl | h
      · exact ⟨[], n + 1, by simp [List.replicate_succ], Or.inl rfl⟩
      · exact ⟨.pad :: es', n, rfl, Or.inr (by simp only [lastEnd, h]; simp; omega)⟩
    | opt o =>
      obtain ⟨es', n, rfl, h⟩ := ih (offset + 2 + o.value.length) (offset + 2 + o.value.length)
      refine ⟨.opt o :: es', n, rfl, Or.inr ?_⟩
      rcases h with rfl | h
      · have h0 := lastEnd_append_pads [] (offset + 2 + o.value.length)
          (offset + 2 + o.value.length) n
        simp only [lastEnd, h0]
        simp
        omega
      · simp only [lastEnd, h]
        simp
        omega

end Sfxge.Bootcfg
