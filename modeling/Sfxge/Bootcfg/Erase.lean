import Sfxge.Bootcfg.Terminated

/-!
# Bootcfg.Erase — what `efx_bootcfg_write` checks before it erases the sector

The writer's caller must end the block with a `DHCP_END`.  The writer infers it from the used length that the
verifier reports: a block without any option has none, and a last option whose value ends with the byte `0xff`
passes for an end.
-/

namespace Sfxge.Bootcfg

open Lib Lib.Prog Errno

/-- `efx_bootcfg_write` up to its call of `efx_nvram_erase`: the lengths of sector, used part and chunk -/
def writeChecks (alloc : Bool) (data : Bytes) : NvramProg (ℕ × ℕ × ℕ) := do
  let sectorLength := min (← efxNvramSize) BOOTCFG_MAX_SIZE
  let usedBytes ← efxBootcfgVerify data
  if usedBytes = 0 then
    stuck
  else
    ensure ((← byteAt data (usedBytes - 1)) = DHCP_END) ENOENT
    ensure (¬ usedBytes > min sectorLength BOOTCFG_MAX_SIZE) ENOSPC
    let chunkLength ← efxNvramRwStart
    ensure (alloc = true) ENOMEM
    pure (sectorLength, usedBytes, chunkLength)

/-- `efx_bootcfg_write` from its call of `efx_nvram_erase` on -/
def writeSector (data : Bytes) (lengths : ℕ × ℕ × ℕ) : NvramProg Unit := do
  let (sectorLength, usedBytes, chunkLength) := lengths
  efxNvramErase
  let checksum := efxBootcfgCsum (data.take usedBytes)
  iterate (writeStep data usedBytes sectorLength chunkLength checksum) (sectorLength + 1) 0

variable {alloc : Bool} {data : Bytes} {nv nv' : Nvram} {used : ℕ}

theorem efxBootcfgWrite_eq (alloc : Bool) (data : Bytes) :
    efxBootcfgWrite alloc data = writeChecks alloc data >>= writeSector data := by
  unfold efxBootcfgWrite writeChecks
  simp only [bind_assoc]
  refine bind_congr fun size => bind_congr fun used => ?_
  by_cases h0 : used = 0
  · rw [if_pos h0, if_pos h0]
    rfl
  · rw [if_neg h0, if_neg h0]
    simp only [bind_assoc, pure_bind]
    rfl

/-- The writer gets to erasing the sector. -/
def Erases (alloc : Bool) (data : Bytes) (nv : Nvram) : Prop :=
  ∃ lengths nv', writeChecks alloc data nv = .ret lengths nv'

/-- The writer's assertion on the used length holds, and the sector is erased only for a block whose options end with
a `DHCP_END`. -/
def Guarded (alloc : Bool) (data : Bytes) (nv : Nvram) (used : ℕ) : Prop :=
  2 ≤ used ∧ (Erases alloc data nv → (parse (data.drop 1)).isSome)

/-- Behind the last option there are pads only, and an option whose last byte is `0xff` stands in the way of the
call's other checks. -/
def Legacy (alloc : Bool) (data : Bytes) (nv : Nvram) : Prop :=
  ∃ c es o n, data = c :: (encode (es ++ [.opt o]) ++ List.replicate n DHCP_PAD) ∧
    (o.value.getLast? = some DHCP_END → alloc = true →
      min nv.sector.length BOOTCFG_MAX_SIZE < (encode (es ++ [.opt o])).length + 1)

/-- The checks behind the verifier's -/
theorem erases_iff (hv : efxBootcfgVerify data nv = .ret used nv) :
    Erases alloc data nv ↔ used ≠ 0 ∧ data[used - 1]? = some DHCP_END ∧
      used ≤ min nv.sector.length BOOTCFG_MAX_SIZE ∧ alloc = true := by
  have hsize : efxNvramSize nv = .ret nv.sector.length nv := rfl
  have hstart : efxNvramRwStart nv = .ret nv.chunkLength nv := rfl
  have hmin : min (min nv.sector.length BOOTCFG_MAX_SIZE) BOOTCFG_MAX_SIZE = min nv.sector.length BOOTCFG_MAX_SIZE := by
    omega
  unfold Erases
  rw [writeChecks, bind_of_ret hsize, bind_of_ret hv]
  constructor
  · rintro ⟨lengths, nv1, h⟩
    by_cases h0 : used = 0
    · rw [if_pos h0] at h
      cases h
    rw [if_neg h0] at h
    obtain ⟨b, hb, h⟩ := byteAt_bind_ret_inv h
    obtain ⟨hend, h⟩ := ensure_bind_ret_inv h
    obtain ⟨hfit, h⟩ := ensure_bind_ret_inv h
    rw [bind_of_ret hstart] at h
    obtain ⟨halloc, -⟩ := ensure_bind_ret_inv h
    exact ⟨h0, by rw [hb, hend], by rw [hmin] at hfit; omega, halloc⟩
  · rintro ⟨h0, hend, hfit, halloc⟩
    rw [if_neg h0, bind_of_ret (byteAt_of_getElem? hend), bind_of_ret (ensure_pos rfl),
      bind_of_ret (ensure_pos (by rw [hmin]; omega)), bind_of_ret hstart, bind_of_ret (ensure_pos halloc)]
    exact ⟨_, _, rfl⟩

/-! ### The shapes of an accepted block without an end -/

/-- The last byte of a block that ends with an option -/
theorem getLast?_encode_opt (es : List Entry) (o : DhcpOption) :
    (encode (es ++ [.opt o])).getLast? = some DHCP_END ↔ o.value.getLast? = some DHCP_END := by
  have hsplit : encode (es ++ [.opt o]) = encode es ++ o.tag :: UInt8.ofNat o.value.length :: o.value := by
    rw [encode_append, encode_opt, encode_nil, List.append_nil]
  rw [hsplit]
  rcases List.eq_nil_or_concat o.value with hnil | ⟨init, b, hb⟩
  · rw [hnil]
    simp [DHCP_END]
  · have hassoc : encode es ++ o.tag :: UInt8.ofNat o.value.length :: o.value =
        (encode es ++ o.tag :: UInt8.ofNat o.value.length :: init) ++ [b] := by
      conv_lhs => rw [hb]
      rw [hb]
      simp
    rw [hassoc, hb, List.concat_eq_append, List.getLast?_concat, List.getLast?_concat]

theorem lastEnd_concat (es : List Entry) (o : DhcpOption) (offset u : ℕ) :
    lastEnd offset u (es ++ [.opt o]) = offset + (encode (es ++ [.opt o])).length := by
  induction es generalizing offset u with
  | nil => simp [lastEnd]; omega
  | cons e es ih =>
    cases e with
    | pad => simp [lastEnd, ih]; omega
    | opt o' => simp [lastEnd, ih]; omega

/-- Entries are pads, or there is a last option with pads behind it. -/
theorem entries_cases (es : List Entry) :
    ∃ n, es = List.replicate n .pad ∨ ∃ es' o, es = es' ++ [.opt o] ++ List.replicate n .pad := by
  induction es using List.reverseRecOn with
  | nil => exact ⟨0, Or.inl rfl⟩
  | append_singleton es e ih =>
    cases e with
    | opt o => exact ⟨0, Or.inr ⟨es, o, by simp⟩⟩
    | pad =>
      obtain ⟨n, rfl | ⟨es', o, rfl⟩⟩ := ih
      · exact ⟨n + 1, Or.inl List.replicate_succ'.symm⟩
      · exact ⟨n + 1, Or.inr ⟨es', o, by rw [List.replicate_succ', List.append_assoc]⟩⟩

/-- The used part of a block that ends with an option and pads -/
theorem verify_legacy {c : UInt8} {es : List Entry} {o : DhcpOption} {n : ℕ}
    (hdata : data = c :: (encode (es ++ [.opt o]) ++ List.replicate n DHCP_PAD)) (hsum : efxBootcfgCsum data = 0) :
    efxBootcfgVerify data nv = .ret ((encode (es ++ [.opt o])).length + 1) nv := by
  have hdrop : data.drop 1 = encode (es ++ [.opt o] ++ List.replicate n .pad) ++ [] := by
    rw [hdata, encode_append (es ++ [Entry.opt o]), encode_replicate_pad, List.append_nil]
    rfl
  rw [verify_of_encode (Or.inl rfl) hdrop hsum, usedOf, lastEnd_append_pads, lastEnd_concat, Nat.add_comm]

/-- Where its last byte is: the value's, or the length of an option without a value -/
theorem getElem?_legacy {c : UInt8} {es : List Entry} {o : DhcpOption} {n : ℕ}
    (hdata : data = c :: (encode (es ++ [.opt o]) ++ List.replicate n DHCP_PAD)) :
    data[(encode (es ++ [.opt o])).length]? = some DHCP_END ↔ o.value.getLast? = some DHCP_END := by
  have hne : encode (es ++ [.opt o]) ≠ [] := by
    rw [encode_append, encode_opt]
    simp
  have hlast : (c :: encode (es ++ [.opt o]) ++ List.replicate n DHCP_PAD)[(encode (es ++ [.opt o])).length]? =
      (encode (es ++ [.opt o])).getLast? := getElem?_last hne
  rw [hdata, ← getLast?_encode_opt es o, ← hlast]
  rfl

/-- A block of pads has no option. -/
theorem not_legacy_pads {n : ℕ} (hdrop : data.drop 1 = encode (List.replicate n .pad)) : ¬ Legacy alloc data nv := by
  rintro ⟨c, es, o, k, rfl, -⟩
  rw [List.drop_one, List.tail_cons, ← encode_replicate_pad, ← encode_append] at hdrop
  have hopts := congrArg optionsOf hdrop
  have h1 := optionsOf_encode (es ++ [.opt o] ++ List.replicate k .pad) (Or.inl rfl)
  have h2 := optionsOf_encode ([] ++ List.replicate n .pad) (Or.inl rfl)
  rw [List.append_nil, options_append_pads] at h1 h2
  rw [h1, ← List.nil_append (List.replicate n Entry.pad), h2] at hopts
  have hmem : ∀ es : List Entry, options (es ++ [.opt o]) ≠ [] := by
    intro es
    induction es with
    | nil => simp [options]
    | cons e es ih => cases e <;> simp [options, ih]
  exact hmem es hopts

/-- **Blocks without an end.**  The writer keeps away from the sector for an accepted block if and only if its options
end with a `DHCP_END`, or it has an option and the last one does not pass for an end. -/
theorem write_guarded_iff (hv : efxBootcfgVerify data nv = .ret used nv') :
    Guarded alloc data nv used ↔ (parse (data.drop 1)).isSome ∨ Legacy alloc data nv := by
  obtain ⟨rfl, hsum, es, tail, hdrop, ht, hused⟩ := verify_inv hv
  rcases ht with rfl | ⟨junk, rfl⟩
  swap
  -- the options end with a `DHCP_END`
  · have hparse : (parse (data.drop 1)).isSome := by
      rw [hdrop, parse_encode_end]
      rfl
    rw [usedOf] at hused
    exact iff_of_true ⟨by omega, fun _ => hparse⟩ (Or.inl hparse)
  rw [List.append_nil] at hdrop
  have hnone : ¬ (parse (data.drop 1)).isSome := by
    rw [hdrop, parse_encode_nil]
    simp
  rw [or_iff_right hnone, Guarded, erases_iff hv]
  obtain ⟨n, rfl | ⟨es, o, rfl⟩⟩ := entries_cases es
  -- pads alone: nothing is used
  · have hzero : used = 0 := hused.trans (lastEnd_append_pads [] 1 0 n)
    exact iff_of_false (fun h => by have := h.1; omega) (not_legacy_pads hdrop)
  -- a last option, with pads behind it
  · have hlegacy : ∀ c es o n, data = c :: (encode (es ++ [.opt o]) ++ List.replicate n DHCP_PAD) →
        used = (encode (es ++ [.opt o])).length + 1 ∧
          (data[used - 1]? = some DHCP_END ↔ o.value.getLast? = some DHCP_END) := by
      intro c es o n hdata
      have hu : used = (encode (es ++ [.opt o])).length + 1 := by
        have h : efxBootcfgVerify data nv' = _ := verify_legacy hdata hsum
        rw [hv] at h
        exact (Res.ret.inj h).1
      refine ⟨hu, ?_⟩
      rw [hu, Nat.add_sub_cancel]
      exact getElem?_legacy hdata
    obtain ⟨c, hdata⟩ : ∃ c, data = c :: (encode (es ++ [.opt o]) ++ List.replicate n DHCP_PAD) := by
      rw [encode_append, encode_replicate_pad] at hdrop
      cases data with
      | nil =>
        have hlen := congrArg List.length hdrop
        rw [encode_append, encode_opt] at hlen
        simp at hlen
      | cons c data => exact ⟨c, by rw [← hdrop]; rfl⟩
    obtain ⟨hu, hend⟩ := hlegacy c es o n hdata
    have hlen : 2 ≤ (encode (es ++ [.opt o])).length := by
      rw [encode_append, encode_opt]
      simp
      omega
    constructor
    · rintro ⟨-, hsafe⟩
      refine ⟨c, es, o, n, hdata, fun hlast halloc => ?_⟩
      by_contra hfit
      exact hnone (hsafe ⟨by omega, hend.mpr hlast, by omega, halloc⟩)
    · rintro ⟨c', es', o', n', hdata', hsafe⟩
      obtain ⟨hu', hend'⟩ := hlegacy c' es' o' n' hdata'
      refine ⟨by omega, ?_⟩
      rintro ⟨-, hlast, hfit, halloc⟩
      have := hsafe (hend'.mp hlast) halloc
      omega

/-- An option with the value `0x41` is refused without an end. -/
theorem write_guarded_letter : Guarded true [178, 12, 1, 65, 0, 0, 0, 0] ⟨List.replicate 8 0, 3⟩ 4 := by
  have hv : efxBootcfgVerify [178, 12, 1, 65, 0, 0, 0, 0] ⟨List.replicate 8 0, 3⟩ = .ret 4 ⟨List.replicate 8 0, 3⟩ := by
    decide
  exact (write_guarded_iff hv).mpr (Or.inr ⟨178, [], ⟨12, [65], by decide, by decide⟩, 4, by decide, by decide⟩)

/-- An option with the value `0xff` passes for an end, and the sector is erased. -/
theorem write_erases_unterminated : ¬ ∀ (alloc : Bool) (data : Bytes) (nv nv' : Nvram) (used : ℕ),
    efxBootcfgVerify data nv = .ret used nv' → Guarded alloc data nv used := by
  intro h
  have hv : efxBootcfgVerify [244, 12, 1, 255, 0, 0, 0, 0] ⟨List.replicate 8 0, 3⟩ = .ret 4 ⟨List.replicate 8 0, 3⟩ := by
    decide
  obtain ⟨-, hsafe⟩ := h true _ _ _ _ hv
  have hend : (parse (List.drop 1 [244, 12, 1, 255, 0, 0, 0, 0])).isSome :=
    hsafe ((erases_iff hv).mpr ⟨by decide, by decide, by decide, rfl⟩)
  have hnone := parse_encode_nil ([.opt ⟨12, [255], by decide, by decide⟩] ++ List.replicate 4 .pad)
  have hbytes : List.drop 1 [244, 12, 1, 255, 0, 0, 0, 0] =
      encode ([.opt ⟨12, [255], by decide, by decide⟩] ++ List.replicate 4 .pad) := by decide
  rw [hbytes, hnone] at hend
  cases hend

end Sfxge.Bootcfg
