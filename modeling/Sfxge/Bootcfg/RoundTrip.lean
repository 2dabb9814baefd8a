import Sfxge.Bootcfg.Bootcfg

/-!
# Bootcfg.RoundTrip — what is written is read back

`efx_bootcfg_verify` accepts the blocks of `Bootcfg.Block` whose bytes sum to zero.  The writer
leaves the used bytes, a new checksum and zeros in the sector; the reader returns these, cut or
extended with zeros to the size of its buffer.
-/

namespace Sfxge.Bootcfg

open Lib Lib.Prog Errno

variable {data : Bytes} {nv nv' : Nvram} {offset used : ℕ}

/-! ### The tag loop -/

theorem byteAt_of_drop {b : UInt8} {rest : Bytes} {i : ℕ} (h : data.drop i = b :: rest) :
    byteAt data i nv = .ret b nv := by
  have h0 : data[i]? = some b := by
    have : (data.drop i)[0]? = data[i]? := by simp
    rw [← this, h]; rfl
  rw [byteAt, h0]; rfl

theorem length_of_drop {i : ℕ} {bs : Bytes} (h : data.drop i = bs) (hne : bs ≠ []) :
    data.length = i + bs.length := by
  have h1 := List.length_drop (i := i) (l := data)
  have h2 := List.length_pos_of_ne_nil hne
  rw [h] at h1
  omega

theorem verifyStep_nil (h : data.drop offset = []) :
    verifyStep data (offset, used) nv = .ret (.inl used) nv := by
  have hlen : ¬ offset < data.length := by
    have := List.drop_eq_nil_iff.mp h
    omega
  rw [verifyStep, if_neg hlen]; rfl

theorem verifyStep_end {junk : Bytes} (h : data.drop offset = DHCP_END :: junk) :
    verifyStep data (offset, used) nv = .ret (.inl (offset + 1)) nv := by
  have hlen := length_of_drop h (by simp)
  rw [List.length_cons] at hlen
  rw [verifyStep, if_pos (by omega), bind_of_ret (byteAt_of_drop h), if_pos rfl]; rfl

theorem verifyStep_pad {rest : Bytes} (h : data.drop offset = DHCP_PAD :: rest) :
    verifyStep data (offset, used) nv = .ret (.inr (offset + 1, used)) nv := by
  have hlen := length_of_drop h (by simp)
  rw [List.length_cons] at hlen
  rw [verifyStep, if_pos (by omega), bind_of_ret (byteAt_of_drop h), if_neg (by decide), if_pos rfl]
  rfl

theorem verifyStep_opt {o : DhcpOption} {rest : Bytes}
    (h : data.drop offset = o.tag :: UInt8.ofNat o.value.length :: (o.value ++ rest)) :
    verifyStep data (offset, used) nv =
      .ret (.inr (offset + 2 + o.value.length, offset + 2 + o.value.length)) nv := by
  have hlen := length_of_drop h (by simp)
  simp only [List.length_cons, List.length_append] at hlen
  have h1 : data.drop (offset + 1) = UInt8.ofNat o.value.length :: (o.value ++ rest) := by
    rw [← List.drop_drop, h]; rfl
  rw [verifyStep, if_pos (by omega), bind_of_ret (byteAt_of_drop h), if_neg o.tag_ne.1,
    if_neg o.tag_ne.2, bind_of_ret (ensure_pos (by omega)), bind_of_ret (byteAt_of_drop h1),
    toNat_length, bind_of_ret (ensure_pos (by omega))]
  rfl

/-- A tag that is neither end nor pad starts an option, or the round fails. -/
theorem verifyStep_opt_inv {tag : UInt8} {rest : Bytes} {r : ℕ ⊕ (ℕ × ℕ)}
    (h : data.drop offset = tag :: rest) (ht : tag ≠ DHCP_END ∧ tag ≠ DHCP_PAD)
    (hr : verifyStep data (offset, used) nv = .ret r nv') :
    ∃ o : DhcpOption, ∃ rest', data.drop offset =
      o.tag :: UInt8.ofNat o.value.length :: (o.value ++ rest') := by
  have hlen := length_of_drop h (by simp)
  rw [List.length_cons] at hlen
  rw [verifyStep, if_pos (by omega), bind_of_ret (byteAt_of_drop h), if_neg ht.1, if_neg ht.2] at hr
  obtain ⟨_, _, h1, hr2⟩ := bind_ret_inv hr
  obtain ⟨hc1, rfl⟩ := ensure_ret_inv h1
  cases rest with
  | nil => simp at hlen; omega
  | cons length rest =>
    have h2 : data.drop (offset + 1) = length :: rest := by rw [← List.drop_drop, h]; rfl
    rw [bind_of_ret (byteAt_of_drop h2)] at hr2
    obtain ⟨_, _, h3, -⟩ := bind_ret_inv hr2
    obtain ⟨hc2, -⟩ := ensure_ret_inv h3
    rw [List.length_cons] at hlen
    have hl : length.toNat < 256 := length.toNat_lt
    have hv : (rest.take length.toNat).length = length.toNat := by simp; omega
    refine ⟨⟨tag, rest.take length.toNat, ht, by omega⟩, rest.drop length.toNat, ?_⟩
    rw [h]
    simp only [hv, UInt8.ofNat_toNat, List.take_append_drop]

/-- What the tag loop returns for entries and what follows them. -/
def usedOf (offset used : ℕ) (es : List Entry) : Bytes → ℕ
  | [] => lastEnd offset used es
  | _ :: _ => offset + (encode es).length + 1

theorem usedOf_pad (es : List Entry) (tail : Bytes) :
    usedOf offset used (.pad :: es) tail = usedOf (offset + 1) used es tail := by
  cases tail
  · rfl
  · simp [usedOf]; omega

theorem usedOf_opt (o : DhcpOption) (es : List Entry) (tail : Bytes) :
    usedOf offset used (.opt o :: es) tail =
      usedOf (offset + 2 + o.value.length) (offset + 2 + o.value.length) es tail := by
  cases tail
  · rfl
  · simp [usedOf]; omega

theorem verifyLoop_of_encode {es : List Entry} {tail : Bytes} (ht : IsTail tail)
    (h : data.drop offset = encode es ++ tail) {fuel : ℕ} (hf : es.length < fuel) :
    iterate (verifyStep data) fuel (offset, used) nv = .ret (usedOf offset used es tail) nv := by
  induction es generalizing offset used fuel with
  | nil =>
    obtain ⟨fuel, rfl⟩ := Nat.exists_eq_succ_of_ne_zero (show fuel ≠ 0 by omega)
    rcases ht with rfl | ⟨junk, rfl⟩
    · exact iterate_inl fuel (verifyStep_nil (by simpa using h))
    · exact iterate_inl fuel (verifyStep_end (by simpa using h))
  | cons e es ih =>
    obtain ⟨fuel, rfl⟩ := Nat.exists_eq_succ_of_ne_zero (show fuel ≠ 0 by omega)
    have hf' : es.length < fuel := by simp at hf; omega
    cases e with
    | pad =>
      have h' : data.drop offset = DHCP_PAD :: (encode es ++ tail) := by simpa using h
      have h1 : data.drop (offset + 1) = encode es ++ tail := by rw [← List.drop_drop, h']; rfl
      rw [iterate_inr fuel (verifyStep_pad h'), ih h1 hf', usedOf_pad]
    | opt o =>
      have h' : data.drop offset =
          o.tag :: UInt8.ofNat o.value.length :: (o.value ++ (encode es ++ tail)) := by
        simpa using h
      have h1 : data.drop (offset + 2 + o.value.length) = encode es ++ tail := by
        rw [← List.drop_drop, ← List.drop_drop, h']
        simp
      rw [iterate_inr fuel (verifyStep_opt h'), ih h1 hf', usedOf_opt]

theorem verifyLoop_inv {fuel u : ℕ}
    (h : iterate (verifyStep data) fuel (offset, used) nv = .ret u nv') :
    nv' = nv ∧ ∃ es tail, data.drop offset = encode es ++ tail ∧ IsTail tail ∧
      u = usedOf offset used es tail := by
  induction fuel generalizing offset used with
  | zero => cases h
  | succ fuel ih =>
    rcases hd : data.drop offset with _ | ⟨tag, rest⟩
    · rw [iterate_inl fuel (verifyStep_nil hd)] at h
      cases h
      exact ⟨rfl, [], [], rfl, Or.inl rfl, rfl⟩
    by_cases hend : tag = DHCP_END
    · subst hend
      rw [iterate_inl fuel (verifyStep_end hd)] at h
      cases h
      exact ⟨rfl, [], DHCP_END :: rest, rfl, Or.inr ⟨rest, rfl⟩, rfl⟩
    by_cases hpad : tag = DHCP_PAD
    · subst hpad
      rw [iterate_inr fuel (verifyStep_pad hd)] at h
      obtain ⟨hnv, es, tail, h1, ht, hu⟩ := ih h
      refine ⟨hnv, .pad :: es, tail, ?_, ht, by rw [usedOf_pad]; exact hu⟩
      have : data.drop (offset + 1) = rest := by rw [← List.drop_drop, hd]; rfl
      rw [encode_pad, List.cons_append, ← h1, this]
    · obtain ⟨r, nv1, hstep, -⟩ := bind_ret_inv h
      obtain ⟨o, rest', ho⟩ := verifyStep_opt_inv hd ⟨hend, hpad⟩ hstep
      rw [iterate_inr fuel (verifyStep_opt ho)] at h
      obtain ⟨hnv, es, tail, h1, ht, hu⟩ := ih h
      refine ⟨hnv, .opt o :: es, tail, ?_, ht, by rw [usedOf_opt]; exact hu⟩
      have : data.drop (offset + 2 + o.value.length) = rest' := by
        rw [← List.drop_drop, ← List.drop_drop, ho]
        simp
      rw [← hd, ho, encode_opt, List.cons_append, List.cons_append, List.append_assoc, ← h1, this]

/-! ### The checksum -/

theorem foldl_csum (bs : Bytes) (a : UInt8) : bs.foldl (· + ·) a = a + efxBootcfgCsum bs := by
  induction bs generalizing a with
  | nil => simp [efxBootcfgCsum]
  | cons b bs ih =>
    have h : efxBootcfgCsum (b :: bs) = b + efxBootcfgCsum bs := by
      rw [← ih b, efxBootcfgCsum, List.foldl_cons, UInt8.zero_add]
    rw [List.foldl_cons, ih, h, UInt8.add_assoc]

theorem csum_cons (b : UInt8) (bs : Bytes) : efxBootcfgCsum (b :: bs) = b + efxBootcfgCsum bs := by
  rw [efxBootcfgCsum, List.foldl_cons, UInt8.zero_add, foldl_csum]

theorem csum_append (bs cs : Bytes) :
    efxBootcfgCsum (bs ++ cs) = efxBootcfgCsum bs + efxBootcfgCsum cs := by
  rw [efxBootcfgCsum, List.foldl_append, foldl_csum]
  rfl

theorem csum_zeros (n : ℕ) : efxBootcfgCsum (List.replicate n 0) = 0 := by
  induction n with
  | zero => rfl
  | succ n ih => rw [List.replicate_succ, csum_cons, ih]; rfl

/-! ### Blocks -/

/-- The used part of a block in a buffer of `size` bytes: a checksum byte, the used option bytes,
zeros. -/
def blockOf (size : ℕ) (c : UInt8) (body : Bytes) : Bytes :=
  c :: body ++ List.replicate (size - (body.length + 1)) 0

theorem length_blockOf {size : ℕ} {c : UInt8} {body : Bytes} (h : body.length + 1 ≤ size) :
    (blockOf size c body).length = size := by
  simp [blockOf]; omega

theorem slice_blockOf_zero (size r : ℕ) (c : UInt8) (body : Bytes) :
    slice (blockOf size c body) 0 (r + 1) =
      c :: (body ++ List.replicate (size - (body.length + 1)) 0).take r := rfl

theorem csum_blockOf (size : ℕ) (c : UInt8) (body : Bytes) :
    efxBootcfgCsum (blockOf size c body) = efxBootcfgCsum (c :: body) := by
  rw [blockOf, csum_append, csum_zeros, UInt8.add_zero]

theorem verify_of_encode {es : List Entry} {tail : Bytes} (ht : IsTail tail)
    (h : data.drop 1 = encode es ++ tail) (hs : efxBootcfgCsum data = 0) :
    efxBootcfgVerify data nv = .ret (usedOf 1 0 es tail) nv := by
  have hlen : es.length ≤ data.length := by
    have h1 := length_le_encode es
    have h2 := congrArg List.length h
    simp only [List.length_drop, List.length_append] at h2
    omega
  rw [efxBootcfgVerify, bind_of_ret (verifyLoop_of_encode ht h (by omega)),
    bind_of_ret (ensure_pos hs)]
  rfl

/-- **Accepted blocks.**  What the verifier accepts is a list of entries and a tail. -/
theorem verify_inv {u : ℕ} (h : efxBootcfgVerify data nv = .ret u nv') :
    nv' = nv ∧ efxBootcfgCsum data = 0 ∧ ∃ es tail, data.drop 1 = encode es ++ tail ∧ IsTail tail ∧
      u = usedOf 1 0 es tail := by
  obtain ⟨u1, nv1, h1, h2⟩ := bind_ret_inv h
  obtain ⟨_, nv2, h3, h4⟩ := bind_ret_inv h2
  obtain ⟨hs, rfl⟩ := ensure_ret_inv h3
  cases h4
  obtain ⟨hnv, h5⟩ := verifyLoop_inv h1
  exact ⟨hnv, hs, h5⟩

/-- The used option bytes of a block with the options `opts`: entries up to and including the end
byte, or entries up to the last option. -/
def IsBody (body : Bytes) (opts : List (UInt8 × Bytes)) : Prop :=
  ∃ es, options es = opts ∧
    (body = encode es ++ [DHCP_END] ∨ (body = encode es ∧ lastEnd 1 0 es = body.length + 1))

theorem IsBody.ne_nil {body : Bytes} {opts : List (UInt8 × Bytes)} (h : IsBody body opts) :
    body ≠ [] := by
  rintro rfl
  obtain ⟨es, -, h | ⟨h, hlast⟩⟩ := h
  · simp at h
  · have := length_le_encode es
    rw [← h] at this
    have hes : es = [] := List.length_eq_zero_iff.mp (by simpa using this)
    subst hes
    simp [lastEnd] at hlast

theorem getElem?_last {c : UInt8} {body rest : Bytes} (h : body ≠ []) :
    (c :: body ++ rest)[body.length]? = body.getLast? := by
  have hpos := List.length_pos_of_ne_nil h
  obtain ⟨n, hn⟩ := Nat.exists_eq_succ_of_ne_zero (show body.length ≠ 0 by omega)
  rw [List.getLast?_eq_getElem?, hn, List.cons_append, List.getElem?_cons_succ,
    List.getElem?_append_left (by omega)]
  rfl

theorem byteAt_bind_ret_inv {α : Type} {a : α} {i : ℕ} {f : UInt8 → NvramProg α}
    (h : (byteAt data i >>= f) nv = .ret a nv') : ∃ b, data[i]? = some b ∧ f b nv = .ret a nv' := by
  obtain ⟨b, nv1, h1, h2⟩ := bind_ret_inv h
  unfold byteAt at h1
  cases hi : data[i]? with
  | none => rw [hi] at h1; cases h1
  | some b' => rw [hi] at h1; cases h1; exact ⟨b, rfl, h2⟩

theorem byteAt_of_getElem? {i : ℕ} {b : UInt8} (h : data[i]? = some b) :
    byteAt data i nv = .ret b nv := by
  rw [byteAt, h]; rfl

/-- An accepted block with options or an end byte starts with its used part. -/
theorem verify_body {u : ℕ} (h : efxBootcfgVerify data nv = .ret u nv') (hu : u ≠ 0) :
    ∃ c body rest, data = c :: body ++ rest ∧ u = body.length + 1 ∧
      IsBody body (optionsOf (data.drop 1)) := by
  obtain ⟨-, -, es, tail, hdrop, ht, rfl⟩ := verify_inv h
  rw [hdrop, optionsOf_encode es ht]
  cases data with
  | nil =>
    have hnil : encode es ++ tail = [] := by rw [← hdrop]; rfl
    obtain ⟨h1, rfl⟩ := List.append_eq_nil_iff.mp hnil
    have := length_le_encode es
    rw [h1] at this
    have hes : es = [] := List.length_eq_zero_iff.mp (by simpa using this)
    subst hes
    exact absurd rfl hu
  | cons c data =>
    rw [List.drop_one, List.tail_cons] at hdrop
    rcases ht with rfl | ⟨junk, rfl⟩
    · obtain ⟨es', n, rfl, h1⟩ := split_lastEnd es 1 0
      have h0 := lastEnd_append_pads es' 1 0 n
      rcases h1 with rfl | h1
      · exact absurd h0 hu
      · refine ⟨c, encode es', List.replicate n DHCP_PAD, ?_, by rw [usedOf, h1, Nat.add_comm], es', ?_⟩
        · rw [hdrop, List.append_nil, encode_append, encode_replicate_pad]; rfl
        · exact ⟨(options_append_pads es' n).symm, Or.inr ⟨rfl, by omega⟩⟩
    · refine ⟨c, encode es ++ [DHCP_END], junk, by rw [hdrop]; simp, ?_, es, rfl, Or.inl rfl⟩
      rw [usedOf, List.length_append, List.length_singleton]
      omega

/-- Used bytes followed by zeros are accepted, with the same options. -/
theorem verify_blockOf (size : ℕ) (nv : Nvram) {c : UInt8} {body : Bytes} {opts : List (UInt8 × Bytes)}
    (hb : IsBody body opts) (hs : efxBootcfgCsum (c :: body) = 0) :
    efxBootcfgVerify (blockOf size c body) nv = .ret (body.length + 1) nv ∧
      optionsOf ((blockOf size c body).drop 1) = opts := by
  obtain ⟨es, rfl, hbody⟩ := hb
  have hsum := (csum_blockOf size c body).trans hs
  have hdrop : (blockOf size c body).drop 1 =
      body ++ List.replicate (size - (body.length + 1)) DHCP_PAD := rfl
  rcases hbody with hbody | ⟨hbody, hlast⟩
  · have hd : (blockOf size c body).drop 1 =
        encode es ++ DHCP_END :: List.replicate (size - (body.length + 1)) DHCP_PAD := by
      rw [hdrop, hbody]; simp
    have ht : IsTail (DHCP_END :: List.replicate (size - (body.length + 1)) DHCP_PAD) :=
      Or.inr ⟨_, rfl⟩
    rw [verify_of_encode ht hd hsum, hd, optionsOf_encode es ht]
    refine ⟨?_, rfl⟩
    rw [usedOf, hbody, List.length_append, List.length_singleton]
    congr 1
    omega
  · have hd : (blockOf size c body).drop 1 =
        encode (es ++ List.replicate (size - (body.length + 1)) .pad) ++ [] := by
      rw [hdrop, encode_append, encode_replicate_pad, ← hbody, List.append_nil]
    rw [verify_of_encode (Or.inl rfl) hd hsum, hd, optionsOf_encode _ (Or.inl rfl), usedOf,
      lastEnd_append_pads, options_append_pads, hlast]
    exact ⟨rfl, rfl⟩

/-! ### The writer -/

/-- A chunk of zeros with the block's bytes copied in is a part of the zero-extended block. -/
theorem fill_chunk {u S c r : ℕ} (hu : u ≤ data.length) (hr : r ≤ c) (hS : offset + r ≤ S)
    (huS : u ≤ S) :
    (if offset < u then
        splice (List.replicate c 0) 0 (slice data offset (min r (u - offset)))
      else List.replicate c 0).take r =
      slice (data.take u ++ List.replicate (S - u) 0) offset r := by
  split_ifs with ho
  · have hl : (slice data offset (min r (u - offset))).length = min r (u - offset) :=
      length_slice (by omega)
    have h1 : (data.take u ++ List.replicate (S - u) 0).drop offset =
        slice data offset (u - offset) ++ List.replicate (S - u) 0 := by
      rw [List.drop_append_of_le_length (by simp; omega), List.drop_take, slice]
    have hl2 : (slice data offset (u - offset)).length = u - offset := length_slice (by omega)
    have h2 : slice (data.take u ++ List.replicate (S - u) 0) offset r =
        (slice data offset (u - offset) ++ List.replicate (S - u) 0).take r := by rw [slice, h1]
    rw [h2, List.take_append, hl2, splice, List.take_zero, List.nil_append, List.take_append,
      hl, List.drop_replicate, List.take_replicate, List.take_replicate]
    congr 1
    · simp only [slice, List.take_take]
      congr 1
      omega
    · congr 1
      omega
  · have h1 : (data.take u ++ List.replicate (S - u) 0).drop offset =
        List.replicate (S - offset) 0 := by
      rw [List.drop_append, List.drop_eq_nil_of_le (by simp; omega), List.nil_append,
        List.drop_replicate]
      congr 1
      simp
      omega
    rw [slice, h1, List.take_replicate, List.take_replicate]
    congr 1
    omega

theorem setByte_cons (b b' : UInt8) (bs : Bytes) : setByte (b :: bs) 0 b' nv = .ret (b' :: bs) nv := by
  rw [setByte, if_pos (by simp)]; rfl

theorem byteAt_cons (b : UInt8) (bs : Bytes) : byteAt (b :: bs) 0 nv = .ret b nv := rfl

/-- Extending what has been written by one chunk. -/
theorem take_splice_slice {sector block : Bytes} {r : ℕ} (h : sector.take offset = block.take offset)
    (ho : offset ≤ sector.length) (hb : offset + r ≤ block.length) :
    (splice sector offset (slice block offset r)).take (offset + r) = block.take (offset + r) := by
  have hl : (slice block offset r).length = r := length_slice hb
  have h1 : (sector.take offset ++ slice block offset r).length = offset + r := by
    simp [hl, ho]
  rw [splice, ← h1, List.take_left, h1, h, slice, List.take_add]

/-- The chunk loop: the sector starts with the block as far as the offset has got. -/
theorem writeStep_ret {c : UInt8} {body rest : Bytes} {cs : UInt8} {S : ℕ}
    (hdata : data = c :: body ++ rest) (huS : body.length + 1 ≤ S) (hSN : S ≤ nv.sector.length)
    (hc : 0 < nv.chunkLength) (ho : offset < S)
    (hI : nv.sector.take offset = (blockOf S (c - cs) body).take offset) :
    ∃ nv1, writeStep data (body.length + 1) S nv.chunkLength cs offset nv =
        .ret (.inr (offset + min nv.chunkLength (S - offset))) nv1 ∧
      nv1.sector.length = nv.sector.length ∧ nv1.chunkLength = nv.chunkLength ∧
      nv1.sector.take (offset + min nv.chunkLength (S - offset)) =
        (blockOf S (c - cs) body).take (offset + min nv.chunkLength (S - offset)) := by
  have hblen := length_blockOf (c := c - cs) huS
  have hr : 0 < min nv.chunkLength (S - offset) := by omega
  have hrS : offset + min nv.chunkLength (S - offset) ≤ S := by omega
  have hrc : min nv.chunkLength (S - offset) ≤ nv.chunkLength := by omega
  generalize hrd : min nv.chunkLength (S - offset) = r at hr hrS hrc ⊢
  have hraw : data.take (body.length + 1) ++ List.replicate (S - (body.length + 1)) 0 =
      blockOf S c body := by
    rw [hdata, show body.length + 1 = (c :: body).length from rfl, List.take_left]; rfl
  have hfill := fill_chunk (show body.length + 1 ≤ data.length by simp [hdata]) hrc hrS huS
  rw [hraw] at hfill
  have hw : ∀ chunk : Bytes, chunk.take r = slice (blockOf S (c - cs) body) offset r →
      (efxNvramWriteChunk offset (chunk.take r) >>= fun _ =>
        (pure (.inr (offset + r)) : NvramProg (Unit ⊕ ℕ))) nv =
        .ret (.inr (offset + r))
          { nv with sector := splice nv.sector offset (slice (blockOf S (c - cs) body) offset r) } := by
    intro chunk hch
    rw [hch]; rfl
  refine ⟨{ nv with sector := splice nv.sector offset (slice (blockOf S (c - cs) body) offset r) },
    ?_, ?_, rfl, take_splice_slice hI (by omega) (by omega)⟩
  · rw [writeStep, if_pos ho]
    simp only [hrd]
    generalize (if offset < body.length + 1 then
        splice (List.replicate nv.chunkLength 0) 0 (slice data offset (min r (body.length + 1 - offset)))
      else List.replicate nv.chunkLength 0) = chunk at hfill ⊢
    by_cases h0 : offset = 0
    · subst h0
      obtain ⟨r, rfl⟩ := Nat.exists_eq_succ_of_ne_zero (show r ≠ 0 by omega)
      cases chunk with
      | nil =>
        have := congrArg List.length hfill
        rw [length_slice (by rw [length_blockOf huS]; omega)] at this
        simp at this
      | cons b chunk =>
        rw [Nat.succ_eq_add_one, slice_blockOf_zero, List.take_succ_cons] at hfill
        obtain ⟨rfl, h1⟩ := List.cons.inj hfill
        rw [if_pos rfl, bind_of_ret (byteAt_cons b chunk), bind_of_ret (setByte_cons ..)]
        refine hw _ ?_
        rw [Nat.succ_eq_add_one, slice_blockOf_zero, List.take_succ_cons, h1]
    · have h1 : slice (blockOf S c body) offset r = slice (blockOf S (c - cs) body) offset r := by
        obtain ⟨k, rfl⟩ := Nat.exists_eq_succ_of_ne_zero h0
        simp [slice, blockOf]
      rw [if_neg h0, bind_of_ret (Prog.pure_apply ..)]
      exact hw chunk (hfill.trans h1)
  · exact length_splice (by rw [length_slice (by omega)]; omega)

theorem writeLoop_ret (nv : Nvram) {c : UInt8} {body rest : Bytes} {cs : UInt8} {S : ℕ}
    (hdata : data = c :: body ++ rest) (huS : body.length + 1 ≤ S) (hSN : S ≤ nv.sector.length)
    (hc : 0 < nv.chunkLength) :
    ∃ nv1, iterate (writeStep data (body.length + 1) S nv.chunkLength cs) (S + 1) 0 nv =
        .ret () nv1 ∧
      nv1.sector.length = nv.sector.length ∧ nv1.sector.take S = blockOf S (c - cs) body := by
  have hblen := length_blockOf (c := c - cs) huS
  refine iterate_rule
    (fun offset nv1 => offset ≤ S ∧ nv1.sector.length = nv.sector.length ∧
      nv1.chunkLength = nv.chunkLength ∧
      nv1.sector.take offset = (blockOf S (c - cs) body).take offset)
    (fun offset => S - offset)
    (fun r => ∃ nv1, r = .ret () nv1 ∧ nv1.sector.length = nv.sector.length ∧
      nv1.sector.take S = blockOf S (c - cs) body)
    ?_ (S + 1) 0 nv ⟨by omega, rfl, rfl, rfl⟩ (by omega)
  rintro offset nv1 ⟨ho, hlen, hchunk, hI⟩
  rcases Nat.lt_or_ge offset S with hlt | hge
  · obtain ⟨nv2, h1, h2, h3, h4⟩ := writeStep_ret hdata huS (by omega)
      (by rw [hchunk]; exact hc) hlt hI
    rw [hchunk] at h1 h4
    exact Or.inl ⟨_, nv2, h1, ⟨by omega, by omega, by rw [h3, hchunk], h4⟩, by omega⟩
  · have heq : offset = S := by omega
    subst heq
    refine Or.inr (Or.inl ⟨(), nv1, ?_, nv1, rfl, hlen, ?_⟩)
    · rw [writeStep, if_neg (by omega)]; rfl
    · rw [hI, List.take_of_length_le (by omega)]

/-- **Writer.**  An accepted write leaves the used part of the block in the sector, with a checksum
byte that makes the sector sum to zero. -/
theorem write_inv {alloc : Bool} (hc : 0 < nv.chunkLength)
    (h : efxBootcfgWrite alloc data nv = .ret () nv') :
    ∃ c body rest used, efxBootcfgVerify data nv = .ret used nv ∧ data = c :: body ++ rest ∧
      used = body.length + 1 ∧ IsBody body (optionsOf (data.drop 1)) ∧
      body.getLast? = some DHCP_END ∧ used ≤ min nv'.sector.length BOOTCFG_MAX_SIZE ∧
      nv'.sector.take (min nv'.sector.length BOOTCFG_MAX_SIZE) =
        blockOf (min nv'.sector.length BOOTCFG_MAX_SIZE) (c - efxBootcfgCsum (c :: body)) body := by
  obtain ⟨N, _, h0, h1⟩ := bind_ret_inv h
  cases h0
  obtain ⟨used, nv1, hver, h2⟩ := bind_ret_inv h1
  obtain ⟨hnv, -⟩ := verify_inv hver
  rw [hnv] at hver h2
  by_cases hu : used = 0
  · rw [if_pos hu] at h2; cases h2
  rw [if_neg hu] at h2
  obtain ⟨c, body, rest, hdata, rfl, hbody⟩ := verify_body hver hu
  obtain ⟨b, hlast, h3⟩ := byteAt_bind_ret_inv h2
  obtain ⟨rfl, h4⟩ := ensure_bind_ret_inv h3
  obtain ⟨hfit, h5⟩ := ensure_bind_ret_inv h4
  obtain ⟨chunkLength, _, h6, h7⟩ := bind_ret_inv h5
  cases h6
  obtain ⟨-, h8⟩ := ensure_bind_ret_inv h7
  obtain ⟨_, _, h9, h10⟩ := bind_ret_inv h8
  cases h9
  have htake : data.take (body.length + 1) = c :: body := by
    rw [hdata, show body.length + 1 = (c :: body).length from rfl, List.take_left]
  obtain ⟨nv2, hloop, hlen, hsector⟩ := writeLoop_ret
    { nv with sector := List.replicate nv.sector.length 0xff } (S := min nv.sector.length BOOTCFG_MAX_SIZE)
    hdata (by omega) (by simp) hc
  have heq := hloop.symm.trans h10
  cases heq
  rw [List.length_replicate] at hlen
  rw [htake] at hsector
  rw [Nat.add_sub_cancel, hdata, getElem?_last hbody.ne_nil] at hlast
  exact ⟨c, body, rest, _, hver, hdata, rfl, hbody, hlast, by rw [hlen]; omega,
    by rw [hlen]; exact hsector⟩

/-! ### The reader -/

variable {S : ℕ} {c : UInt8} {body : Bytes} {opts : List (UInt8 × Bytes)}

theorem readBuffer_ret (buf : Bytes) (S : ℕ) :
    ∃ payload, readBuffer true buf S nv = .ret payload nv ∧ S ≤ payload.length ∧
      (S ≤ buf.length → payload = buf) := by
  unfold readBuffer
  split_ifs with h
  · exact ⟨List.replicate S 0, rfl, by simp, fun h' => by omega⟩
  · exact ⟨buf, rfl, by omega, fun _ => rfl⟩

theorem checkPayload_ret {rest : Bytes} (hbody : IsBody body opts)
    (hs : efxBootcfgCsum (c :: body) = 0) (hfit : body.length + 1 ≤ S) :
    checkPayload (blockOf S c body ++ rest) S nv =
      .ret (blockOf S c body ++ rest, body.length + 1) nv := by
  have htake : (blockOf S c body ++ rest).take S = blockOf S c body := by
    rw [List.take_append_of_le_length (by rw [length_blockOf hfit]),
      List.take_of_length_le (by rw [length_blockOf hfit])]
  have hver := (verify_blockOf S nv hbody hs).1
  rw [checkPayload, htake, bind_of_ret (attempt_of_ret hver)]
  simp

theorem terminatePayload_ret {rest : Bytes} (hbody : IsBody body opts)
    (hlast : body.getLast? = some DHCP_END) :
    terminatePayload (blockOf S c body ++ rest) (body.length + 1) S nv =
      .ret (blockOf S c body ++ rest, body.length + 1) nv := by
  have hget : (blockOf S c body ++ rest)[body.length]? = some DHCP_END := by
    rw [blockOf, List.append_assoc, getElem?_last hbody.ne_nil, hlast]
  rw [terminatePayload, Nat.add_sub_cancel, bind_of_ret (byteAt_of_getElem? hget)]
  simp

/-- **Reader.**  From a sector that holds a used part whose bytes sum to zero and end with the end
byte, the reader returns that part in the size of its buffer. -/
theorem read_ret {buf : Bytes} (hbody : IsBody body opts) (hs : efxBootcfgCsum (c :: body) = 0)
    (hlast : body.getLast? = some DHCP_END)
    (hfit : body.length + 1 ≤ min nv.sector.length BOOTCFG_MAX_SIZE)
    (hsector : nv.sector.take (min nv.sector.length BOOTCFG_MAX_SIZE) =
      blockOf (min nv.sector.length BOOTCFG_MAX_SIZE) c body)
    (hbuf : body.length + 1 ≤ buf.length) :
    efxBootcfgRead true buf nv = .ret (blockOf buf.length c body) nv := by
  have hsize : efxNvramSize nv = .ret nv.sector.length nv := rfl
  have hstart : efxNvramRwStart nv = .ret nv.chunkLength nv := rfl
  obtain ⟨S, hS⟩ : ∃ S, S = min nv.sector.length BOOTCFG_MAX_SIZE := ⟨_, rfl⟩
  rw [← hS] at hfit hsector
  have hread : efxNvramReadChunk 0 S nv = .ret (blockOf S c body) nv := by
    rw [← hsector]; rfl
  obtain ⟨payload, hbuffer, hlen, hsame⟩ := readBuffer_ret buf S
  have hpay : splice payload 0 (blockOf S c body) = blockOf S c body ++ payload.drop S := by
    rw [splice, length_blockOf hfit]; simp
  rw [efxBootcfgRead, bind_of_ret hsize]
  dsimp only
  rw [← hS, bind_of_ret hbuffer, bind_of_ret hstart, bind_of_ret hread, hpay,
    bind_of_ret (checkPayload_ret hbody hs hfit)]
  dsimp only
  rw [bind_of_ret (terminatePayload_ret hbody hlast)]
  dsimp only
  rw [bind_of_ret (ensure_pos (by omega))]
  -- in either buffer the used part comes first
  have hdata : ∀ data : Bytes, data = (if S > buf.length then
      splice buf 0 ((blockOf S c body ++ payload.drop S).take (body.length + 1))
        else blockOf S c body ++ payload.drop S) →
      splice data (body.length + 1) (List.replicate (buf.length - (body.length + 1)) 0) =
        blockOf buf.length c body := by
    intro data hd
    have htake : (blockOf S c body ++ payload.drop S).take (body.length + 1) = c :: body := by
      simp [blockOf]
    have h2 : data.length = buf.length ∧ data.take (body.length + 1) = c :: body := by
      rw [hd]
      split_ifs with h
      · rw [htake]
        exact ⟨length_splice (by simpa using hbuf), by simp [splice]⟩
      · rw [hsame (by omega)]
        exact ⟨by simp [length_blockOf hfit]; omega, by simp [blockOf]⟩
    rw [splice, h2.2, List.drop_eq_nil_of_le (by simp; omega)]
    simp [blockOf]
  rw [hdata _ rfl]
  have hsum := (csum_blockOf buf.length c body).trans hs
  have hget : byteAt (blockOf buf.length c body) 0 nv = .ret c nv := rfl
  rw [hsum, bind_of_ret hget, UInt8.sub_zero]
  exact setByte_cons ..

/-- **Round trip.**  Whatever `efx_bootcfg_write` accepts, `efx_bootcfg_read` into a buffer that has
room for the used bytes returns a block that sums to zero, verifies and has the same options. -/
theorem bootcfg_round_trip {alloc : Bool} {buf : Bytes} {used : ℕ} (hc : 0 < nv.chunkLength)
    (hw : efxBootcfgWrite alloc data nv = .ret () nv')
    (hu : efxBootcfgVerify data nv = .ret used nv) (hbuf : used ≤ buf.length) :
    ∃ out nv'', efxBootcfgRead true buf nv' = .ret out nv'' ∧ efxBootcfgCsum out = 0 ∧
      (∃ used', efxBootcfgVerify out nv'' = .ret used' nv'') ∧
      optionsOf (out.drop 1) = optionsOf (data.drop 1) := by
  obtain ⟨c, body, rest, used', hver, hdata, rfl, hbody, hlast, hfit, hsector⟩ := write_inv hc hw
  rw [hu] at hver
  cases hver
  have hs : efxBootcfgCsum ((c - efxBootcfgCsum (c :: body)) :: body) = 0 := by
    rw [csum_cons, csum_cons]
    grind
  have hout := verify_blockOf buf.length nv' hbody hs
  exact ⟨_, nv', read_ret hbody hs hlast hfit hsector hbuf, (csum_blockOf ..).trans hs,
    ⟨_, hout.1⟩, hout.2⟩

/-- One option in a sector of eight bytes, written in chunks of three and read into six bytes. -/
theorem bootcfg_round_trip_hostname :
    ∃ out nv'', efxBootcfgRead true (List.replicate 6 0) ⟨[179, 12, 1, 65, 255, 0, 0, 0], 3⟩ =
        .ret out nv'' ∧ efxBootcfgCsum out = 0 ∧
      (∃ used', efxBootcfgVerify out nv'' = .ret used' nv'') ∧
      optionsOf (out.drop 1) = optionsOf [12, 1, 65, 255] := by
  have hw : efxBootcfgWrite true [179, 12, 1, 65, 255] ⟨List.replicate 8 0xff, 3⟩ =
      .ret () ⟨[179, 12, 1, 65, 255, 0, 0, 0], 3⟩ := rfl
  have hu : efxBootcfgVerify [179, 12, 1, 65, 255] ⟨List.replicate 8 0xff, 3⟩ =
      .ret 5 ⟨List.replicate 8 0xff, 3⟩ := rfl
  exact bootcfg_round_trip (by decide) hw hu (by decide)

end Sfxge.Bootcfg
