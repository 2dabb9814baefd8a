import Sfxge.Bootcfg.RoundTrip

/-!
# Bootcfg.Terminated — what `efx_bootcfg_read` hands out

The reader's caller parses the returned options up to a `DHCP_END`.  Whether one has to be appended is
decided from the last used byte: in a legacy sector without `DHCP_END`, a last option whose value ends with
the byte `0xff` passes for one.
-/

namespace Sfxge.Bootcfg

open Lib Lib.Prog Errno

/-! ### Parsing up to the end byte -/

/-- The options up to a `DHCP_END` and the bytes behind it; `none` if there is no `DHCP_END`. -/
def parse : Bytes → Option (List (UInt8 × Bytes) × Bytes)
  | [] => none
  | tag :: rest =>
    if tag = DHCP_END then some ([], rest)
    else if tag = DHCP_PAD then parse rest
    else
      match rest with
      | [] => none
      | length :: rest =>
        if rest.length < length.toNat then none
        else (parse (rest.drop length.toNat)).map fun r => ((tag, rest.take length.toNat) :: r.1, r.2)
termination_by bs => bs.length
decreasing_by
  · exact Nat.lt_succ_self _
  · exact Nat.lt_succ_of_lt (Nat.lt_succ_of_le (by rw [List.length_drop]; exact Nat.sub_le _ _))

theorem parse_nil : parse [] = none := by rw [parse]

theorem parse_end (junk : Bytes) : parse (DHCP_END :: junk) = some ([], junk) := by
  rw [parse.eq_def]
  simp

theorem parse_pad (rest : Bytes) : parse (DHCP_PAD :: rest) = parse rest := by
  rw [parse.eq_def]
  simp [DHCP_PAD, DHCP_END]

theorem parse_opt (o : DhcpOption) (rest : Bytes) :
    parse (o.tag :: UInt8.ofNat o.value.length :: (o.value ++ rest)) =
      (parse rest).map fun r => ((o.tag, o.value) :: r.1, r.2) := by
  have hlen : ¬ (o.value ++ rest).length < o.value.length := by simp
  rw [parse.eq_def]
  simp only [if_neg o.tag_ne.1, if_neg o.tag_ne.2, toNat_length, if_neg hlen, List.take_left, List.drop_left]

/-- Entries in front of the rest of the block -/
theorem parse_encode (es : List Entry) (rest : Bytes) :
    parse (encode es ++ rest) = (parse rest).map fun r => (options es ++ r.1, r.2) := by
  induction es with
  | nil => simp [options]
  | cons e es ih =>
    cases e with
    | pad => rw [encode_pad, List.cons_append, parse_pad, ih, options]
    | opt o =>
      rw [encode_opt, List.cons_append, List.cons_append, List.append_assoc, parse_opt, ih, options]
      simp [Function.comp_def]

theorem parse_encode_end (es : List Entry) (junk : Bytes) :
    parse (encode es ++ DHCP_END :: junk) = some (options es, junk) := by
  rw [parse_encode, parse_end]
  simp

/-- Entries alone have no end byte. -/
theorem parse_encode_nil (es : List Entry) : parse (encode es) = none := by
  have h := parse_encode es []
  rw [parse_nil, List.append_nil] at h
  exact h

/-! ### The sector -/

/-- The part of the partition that the reader looks at -/
def sectorOf (nv : Nvram) : Bytes := nv.sector.take (min nv.sector.length BOOTCFG_MAX_SIZE)

/-- The used length, if `efx_bootcfg_verify` accepts the sector -/
def verified (sector : Bytes) : Option ℕ :=
  match efxBootcfgVerify sector ⟨[], 0⟩ with
  | .ret used _ => some used
  | _ => none

/-- The options of a valid sector in which there is room for the end byte; otherwise none -/
def handedOut (sector : Bytes) : List (UInt8 × Bytes) :=
  match verified sector with
  | none => []
  | some used =>
    if (parse (sector.drop 1)).isSome ∨ used < sector.length then optionsOf (sector.drop 1) else []

/-- A valid sector without `DHCP_END` whose last option ends with the byte `0xff` -/
def Unmarked (sector : Bytes) : Prop :=
  parse (sector.drop 1) = none ∧
    ∃ used, verified sector = some used ∧ 0 < used ∧ sector[used - 1]? = some DHCP_END

/-- The buffer holds the options `opts` and a `DHCP_END`, then zeros, and sums to zero. -/
def Terminated (size : ℕ) (opts : List (UInt8 × Bytes)) (out : Bytes) : Prop :=
  out.length = size ∧ efxBootcfgCsum out = 0 ∧
    ∃ n, parse (out.drop 1) = some (opts, List.replicate n 0)

/-- The used part of a valid sector: entries up to the end byte, or up to the last option. -/
inductive Used (sector : Bytes) : UInt8 → Bytes → Prop
  | marked (c : UInt8) (es : List Entry) (junk : Bytes)
      (hsector : sector = c :: (encode es ++ DHCP_END :: junk)) : Used sector c (encode es ++ [DHCP_END])
  | legacy (c : UInt8) (es : List Entry) (n : ℕ)
      (hsector : sector = c :: (encode es ++ List.replicate n DHCP_PAD))
      (hlast : lastEnd 1 0 es = (encode es).length + 1) : Used sector c (encode es)

theorem verify_state {data : Bytes} {nv nv1 : Nvram} {u : ℕ} (h : efxBootcfgVerify data nv = .ret u nv1)
    (nv' : Nvram) : efxBootcfgVerify data nv' = .ret u nv' := by
  obtain ⟨-, hs, es, tail, hdrop, ht, rfl⟩ := verify_inv h
  exact verify_of_encode ht hdrop hs

theorem verified_some {sector : Bytes} (nv : Nvram) {u : ℕ} :
    verified sector = some u ↔ efxBootcfgVerify sector nv = .ret u nv := by
  unfold verified
  constructor
  · intro h
    cases hv : efxBootcfgVerify sector ⟨[], 0⟩ with
    | ret u' nv1 =>
      rw [hv] at h
      cases h
      exact verify_state hv nv
    | err e nv1 => rw [hv] at h; cases h
    | fault => rw [hv] at h; cases h
    | spin => rw [hv] at h; cases h
  · intro h
    rw [verify_state h]

theorem used_of_verified {sector : Bytes} {u : ℕ} (h : verified sector = some u) (hu : u ≠ 0) :
    ∃ c body, Used sector c body ∧ u = body.length + 1 := by
  obtain ⟨-, -, es, tail, hdrop, ht, rfl⟩ := verify_inv ((verified_some ⟨[], 0⟩).mp h)
  cases sector with
  | nil =>
    have hnil : encode es ++ tail = [] := by rw [← hdrop]; rfl
    obtain ⟨h1, rfl⟩ := List.append_eq_nil_iff.mp hnil
    have hle := length_le_encode es
    rw [h1] at hle
    have hes : es = [] := List.length_eq_zero_iff.mp (by simpa using hle)
    subst hes
    exact absurd rfl hu
  | cons c data =>
    rw [List.drop_one, List.tail_cons] at hdrop
    rcases ht with rfl | ⟨junk, rfl⟩
    · obtain ⟨es', n, rfl, h1⟩ := split_lastEnd es 1 0
      have h0 := lastEnd_append_pads es' 1 0 n
      rcases h1 with rfl | h1
      · exact absurd h0 hu
      · refine ⟨c, encode es', .legacy c es' n ?_ (by omega), by rw [usedOf, h1, Nat.add_comm]⟩
        rw [hdrop, List.append_nil, encode_append, encode_replicate_pad]
    · refine ⟨c, encode es ++ [DHCP_END], .marked c es junk (by rw [hdrop]), ?_⟩
      rw [usedOf, List.length_append, List.length_singleton]
      omega

theorem options_of_verified_zero {sector : Bytes} (h : verified sector = some 0) : optionsOf (sector.drop 1) = [] := by
  obtain ⟨-, -, es, tail, hdrop, ht, hu⟩ := verify_inv ((verified_some ⟨[], 0⟩).mp h)
  rw [hdrop, optionsOf_encode es ht]
  rcases ht with rfl | ⟨junk, rfl⟩
  · obtain ⟨es', n, rfl, h1⟩ := split_lastEnd es 1 0
    rw [options_append_pads]
    rcases h1 with rfl | h1
    · rfl
    · rw [usedOf, h1] at hu
      omega
  · rw [usedOf] at hu
    omega

/-! ### Inside the reader -/

variable {alloc : Bool} {data out p0 p1 : Bytes} {nv nv' : Nvram} {S u1 : ℕ}

theorem setByte_ret {bs bs' : Bytes} {i : ℕ} {b : UInt8} (h : setByte bs i b nv = .ret bs' nv') :
    nv' = nv ∧ i < bs.length ∧ bs' = bs.set i b := by
  unfold setByte at h
  split_ifs at h with hi
  · cases h
    exact ⟨rfl, hi, rfl⟩
  · cases h

theorem reinitPayload_ret {p : Bytes × ℕ} (h : reinitPayload p0 nv = .ret p nv') :
    nv' = nv ∧ p.2 = 2 ∧ ∃ c rest, p.1 = c :: [DHCP_END] ++ rest ∧ p.1.length = p0.length := by
  obtain ⟨q, nv1, h1, h2⟩ := bind_ret_inv h
  obtain ⟨rfl, hi0, rfl⟩ := setByte_ret h1
  obtain ⟨r, nv2, h3, h4⟩ := bind_ret_inv h2
  obtain ⟨rfl, hi1, rfl⟩ := setByte_ret h3
  cases h4
  refine ⟨rfl, rfl, ?_⟩
  rw [List.length_set] at hi1
  obtain ⟨a, b, rest, rfl⟩ : ∃ a b rest, p0 = a :: b :: rest := by
    match p0, hi1 with
    | a :: b :: rest, _ => exact ⟨a, b, rest, rfl⟩
  exact ⟨~~~DHCP_END, rest, rfl, by simp⟩

theorem frames_byteAt (bs : Bytes) (i : ℕ) : (byteAt bs i).Frames id := by
  unfold byteAt
  cases bs[i]? with
  | none => exact fun s s' h => by cases h
  | some b => exact frames_pure b

theorem frames_verify (bs : Bytes) : (efxBootcfgVerify bs).Frames id := by
  refine frames_bind (frames_iterate (fun x => ?_) _ _) fun u =>
    frames_bind (frames_ensure _ _) fun _ => frames_pure u
  obtain ⟨offset, used⟩ := x
  refine frames_ite (frames_bind (frames_byteAt _ _) fun tag => frames_ite (frames_pure _) ?_) (frames_pure _)
  refine frames_ite (frames_pure _) ?_
  exact frames_bind (frames_ensure _ _) fun _ => frames_bind (frames_byteAt _ _) fun b =>
    frames_bind (frames_ensure _ _) fun _ => frames_pure _

/-- What is checked: a sector that is not valid or has no options is reinitialized. -/
theorem checkPayload_cases {p : Bytes × ℕ} (h : checkPayload p0 S nv = .ret p nv') :
    nv' = nv ∧
      ((verified (p0.take S) = none ∨ verified (p0.take S) = some 0) ∧ p.2 = 2 ∧
          (∃ c rest, p.1 = c :: [DHCP_END] ++ rest ∧ p.1.length = p0.length) ∨
        ∃ u, verified (p0.take S) = some u ∧ u ≠ 0 ∧ p = (p0, u)) := by
  obtain ⟨r, nv1, h1, h2⟩ := bind_ret_inv h
  obtain rfl : nv1 = nv := frames_attempt (frames_verify _) nv nv1 (by rw [h1]; rfl)
  unfold attempt at h1
  cases hv : efxBootcfgVerify (p0.take S) nv1 with
  | ret u nv2 =>
    rw [hv] at h1
    cases h1
    have hsome : verified (p0.take S) = some u := (verified_some nv1).mpr hv
    dsimp only at h2
    split_ifs at h2 with hu
    · subst hu
      obtain ⟨rfl, hp⟩ := reinitPayload_ret h2
      exact ⟨rfl, Or.inl ⟨Or.inr hsome, hp⟩⟩
    · cases h2
      exact ⟨rfl, Or.inr ⟨u, hsome, hu, rfl⟩⟩
  | err e nv2 =>
    rw [hv] at h1
    cases h1
    have hnone : verified (p0.take S) = none := by
      cases hsome : verified (p0.take S) with
      | none => rfl
      | some u =>
        rw [(verified_some nv1).mp hsome] at hv
        cases hv
    obtain ⟨rfl, hp⟩ := reinitPayload_ret h2
    exact ⟨rfl, Or.inl ⟨Or.inl hnone, hp⟩⟩
  | fault => rw [hv] at h1; cases h1
  | spin => rw [hv] at h1; cases h1

/-- What is appended: nothing behind a byte `0xff`, the end byte if there is room, else a new start. -/
theorem terminatePayload_cases {p : Bytes × ℕ} (h : terminatePayload p1 u1 S nv = .ret p nv') :
    nv' = nv ∧ ∃ b, p1[u1 - 1]? = some b ∧
      (b = DHCP_END ∧ p = (p1, u1) ∨
        b ≠ DHCP_END ∧ u1 + 1 > S ∧ p.2 = 2 ∧ (∃ c rest, p.1 = c :: [DHCP_END] ++ rest ∧ p.1.length = p1.length) ∨
        b ≠ DHCP_END ∧ u1 + 1 ≤ S ∧ u1 < p1.length ∧ p = (p1.set u1 DHCP_END, u1 + 1)) := by
  obtain ⟨b, hb, h⟩ := byteAt_bind_ret_inv h
  split_ifs at h with hend hroom
  · obtain ⟨q, nv1, h1, h2⟩ := bind_ret_inv h
    obtain ⟨rfl, hi0, rfl⟩ := setByte_ret h1
    obtain ⟨r, nv2, h3, h4⟩ := bind_ret_inv h2
    obtain ⟨rfl, hi1, rfl⟩ := setByte_ret h3
    cases h4
    rw [List.length_set] at hi1
    obtain ⟨x, y, rest, rfl⟩ : ∃ x y rest, p1 = x :: y :: rest := by
      match p1, hi1 with
      | x :: y :: rest, _ => exact ⟨x, y, rest, rfl⟩
    exact ⟨rfl, b, hb, Or.inr (Or.inl ⟨hend, hroom, rfl, 0, rest, rfl, by simp⟩)⟩
  · obtain ⟨q, nv1, h1, h2⟩ := bind_ret_inv h
    obtain ⟨rfl, hi, rfl⟩ := setByte_ret h1
    cases h2
    exact ⟨rfl, b, hb, Or.inr (Or.inr ⟨hend, by omega, hi, rfl⟩)⟩
  · cases h
    exact ⟨rfl, b, hb, Or.inl ⟨not_not.mp hend, rfl⟩⟩

/-- **The reader's steps.**  What it returns is the used part of the payload in the size of the buffer, with
zeros behind it and a new checksum. -/
theorem read_inv (h : efxBootcfgRead alloc data nv = .ret out nv') :
    ∃ p0 p1 p2 : Bytes, ∃ u1 u2 S, p0.take S = sectorOf nv ∧ S = (sectorOf nv).length ∧
      checkPayload p0 S nv = .ret (p1, u1) nv ∧ terminatePayload p1 u1 S nv = .ret (p2, u2) nv ∧
      (p1.length = p0.length → p2.length = p1.length → ∀ c body rest, p2 = c :: body ++ rest →
        u2 = body.length + 1 → out = blockOf data.length (c - efxBootcfgCsum (c :: body)) body ∧
          body.length + 1 ≤ data.length) := by
  have hsize : efxNvramSize nv = .ret nv.sector.length nv := rfl
  have hstart : efxNvramRwStart nv = .ret nv.chunkLength nv := rfl
  obtain ⟨S, hS⟩ : ∃ S, S = min nv.sector.length BOOTCFG_MAX_SIZE := ⟨_, rfl⟩
  have hread : efxNvramReadChunk 0 S nv = .ret (sectorOf nv) nv := by
    rw [hS]
    rfl
  have hlen : (sectorOf nv).length = S := by
    rw [sectorOf, List.length_take, ← hS, hS]
    omega
  rw [efxBootcfgRead, bind_of_ret hsize] at h
  dsimp only at h
  rw [← hS] at h
  obtain ⟨payload, nv1, hbuf, hk⟩ := bind_ret_inv h
  clear h
  obtain ⟨rfl, hpay, hsame⟩ : nv1 = nv ∧ S ≤ payload.length ∧ (S ≤ data.length → payload = data) := by
    unfold readBuffer at hbuf
    split_ifs at hbuf with hbig
    · obtain ⟨-, hbuf⟩ := ensure_bind_ret_inv hbuf
      cases hbuf
      exact ⟨rfl, by simp, fun h' => by omega⟩
    · cases hbuf
      exact ⟨rfl, by omega, fun _ => rfl⟩
  rw [bind_of_ret hstart, bind_of_ret hread] at hk
  obtain ⟨⟨p1, u1⟩, nv2, hcheck, hk2⟩ := bind_ret_inv hk
  obtain ⟨rfl, -⟩ := checkPayload_cases hcheck
  dsimp only at hk2
  obtain ⟨⟨p2, u2⟩, nv3, hterm, hk3⟩ := bind_ret_inv hk2
  obtain ⟨rfl, -⟩ := terminatePayload_cases hterm
  dsimp only at hk3
  obtain ⟨hfit, hk4⟩ := ensure_bind_ret_inv hk3
  have hp0 : (splice payload 0 (sectorOf nv3)).length = payload.length := length_splice (by omega)
  refine ⟨splice payload 0 (sectorOf nv3), p1, p2, u1, u2, S, ?_, hlen.symm, hcheck, hterm, ?_⟩
  · simp [splice, hlen]
  · rintro hl1 hl2 c body rest rfl rfl
    refine ⟨?_, by omega⟩
    -- in either buffer the used part comes first
    have hdata : ∀ bs : Bytes, bs = (if S > data.length then splice data 0 ((c :: body ++ rest).take (body.length + 1))
        else c :: body ++ rest) →
        splice bs (body.length + 1) (List.replicate (data.length - (body.length + 1)) 0) =
          blockOf data.length c body := by
      intro bs hbs
      have htake : (c :: body ++ rest).take (body.length + 1) = c :: body := by simp
      have h2 : bs.length = data.length ∧ bs.take (body.length + 1) = c :: body := by
        rw [hbs]
        split_ifs with hbig
        · rw [htake]
          exact ⟨length_splice (by simp; omega), by simp [splice]⟩
        · refine ⟨?_, htake⟩
          rw [hl2, hl1, hp0, hsame (by omega)]
      rw [splice, h2.2, List.drop_eq_nil_of_le (by simp; omega)]
      simp [blockOf]
    rw [hdata _ rfl] at hk4
    obtain ⟨b, hb, hset⟩ := byteAt_bind_ret_inv hk4
    cases hb
    obtain ⟨-, -, rfl⟩ := setByte_ret hset
    rw [csum_blockOf]
    rfl

/-! ### What the caller gets -/

theorem csum_checked (size : ℕ) (c : UInt8) (body : Bytes) :
    efxBootcfgCsum (blockOf size (c - efxBootcfgCsum (c :: body)) body) = 0 := by
  rw [csum_blockOf, csum_cons, csum_cons]
  grind

/-- Entries and the end byte, in the size of the buffer -/
theorem terminated_blockOf {size : ℕ} {c : UInt8} (es : List Entry)
    (h : (encode es ++ [DHCP_END]).length + 1 ≤ size) :
    Terminated size (options es)
      (blockOf size (c - efxBootcfgCsum (c :: (encode es ++ [DHCP_END]))) (encode es ++ [DHCP_END])) := by
  refine ⟨length_blockOf h, csum_checked _ _ _, size - ((encode es ++ [DHCP_END]).length + 1), ?_⟩
  have hdrop : ∀ c', (blockOf size c' (encode es ++ [DHCP_END])).drop 1 =
      encode es ++ DHCP_END :: List.replicate (size - ((encode es ++ [DHCP_END]).length + 1)) 0 := by
    intro c'
    simp [blockOf]
  rw [hdrop, parse_encode_end]

/-- Entries without an end byte, and zeros behind them -/
theorem not_terminated_blockOf (size : ℕ) (c : UInt8) (es : List Entry) (opts : List (UInt8 × Bytes)) :
    ¬ Terminated size opts (blockOf size c (encode es)) := by
  rintro ⟨-, -, n, hparse⟩
  have hdrop : (blockOf size c (encode es)).drop 1 =
      encode (es ++ List.replicate (size - ((encode es).length + 1)) .pad) := by
    rw [encode_append, encode_replicate_pad]
    rfl
  rw [hdrop, parse_encode_nil] at hparse
  cases hparse

theorem Used.parse_drop {sector body : Bytes} {c : UInt8} (h : Used sector c body) :
    ∃ es, optionsOf (sector.drop 1) = options es ∧
      ((parse (sector.drop 1)).isSome = true ∧ body = encode es ++ [DHCP_END] ∨
        parse (sector.drop 1) = none ∧ body = encode es) := by
  cases h with
  | marked es junk hsector =>
    subst hsector
    rw [List.drop_one, List.tail_cons, parse_encode_end]
    exact ⟨es, optionsOf_encode es (Or.inr ⟨junk, rfl⟩), Or.inl ⟨rfl, rfl⟩⟩
  | legacy es n hsector hlast =>
    subst hsector
    have hpads : encode es ++ List.replicate n DHCP_PAD = encode (es ++ List.replicate n .pad) := by
      rw [encode_append, encode_replicate_pad]
    have hopts := optionsOf_encode (es ++ List.replicate n .pad) (Or.inl rfl)
    rw [List.append_nil, options_append_pads] at hopts
    rw [List.drop_one, List.tail_cons, hpads, parse_encode_nil]
    exact ⟨es, hopts, Or.inr ⟨rfl, rfl⟩⟩

theorem Used.eq_append {sector body : Bytes} {c : UInt8} (h : Used sector c body) :
    ∃ rest, sector = c :: body ++ rest ∧ body ≠ [] := by
  cases h with
  | marked es junk hsector => exact ⟨junk, by rw [hsector]; simp, by simp⟩
  | legacy es n hsector hlast =>
    refine ⟨List.replicate n DHCP_PAD, hsector, fun hnil => ?_⟩
    have hle := length_le_encode es
    rw [hnil] at hle hlast
    have hes : es = [] := List.length_eq_zero_iff.mp (by simpa using hle)
    subst hes
    simp [lastEnd] at hlast

theorem not_unmarked_of_invalid {sector : Bytes} (h : verified sector = none ∨ verified sector = some 0) :
    handedOut sector = [] ∧ ¬ Unmarked sector := by
  unfold handedOut
  rcases h with h | h
  · refine ⟨by rw [h], ?_⟩
    rintro ⟨-, used, hused, -⟩
    rw [h] at hused
    cases hused
  · constructor
    · rw [h]
      dsimp only
      rw [options_of_verified_zero h, ite_self]
    · rintro ⟨-, used, hused, hpos, -⟩
      rw [h] at hused
      cases hused
      omega

/-- The last used byte decides. -/
theorem unmarked_iff {sector body rest : Bytes} {c b : UInt8} (hsector : sector = c :: body ++ rest) (hne : body ≠ [])
    (hver : verified sector = some (body.length + 1)) (hlast : body.getLast? = some b) :
    Unmarked sector ↔ parse (sector.drop 1) = none ∧ b = DHCP_END := by
  have hget : sector[body.length]? = some b := by rw [hsector, getElem?_last hne, hlast]
  constructor
  · rintro ⟨hnone, used, hused, -, hend⟩
    rw [hver] at hused
    cases hused
    rw [Nat.add_sub_cancel, hget] at hend
    exact ⟨hnone, Option.some.inj hend⟩
  · rintro ⟨hnone, rfl⟩
    exact ⟨hnone, _, hver, by omega, by rw [Nat.add_sub_cancel, hget]⟩

theorem handedOut_of_room {sector : Bytes} {u : ℕ} (hver : verified sector = some u)
    (h : (parse (sector.drop 1)).isSome = true ∨ u < sector.length) : handedOut sector = optionsOf (sector.drop 1) := by
  unfold handedOut
  rw [hver]
  dsimp only
  rw [if_pos h]

theorem handedOut_of_full {sector : Bytes} {u : ℕ} (hver : verified sector = some u)
    (hnone : parse (sector.drop 1) = none) (hu : sector.length ≤ u) : handedOut sector = [] := by
  unfold handedOut
  rw [hver]
  dsimp only
  rw [hnone, if_neg]
  rintro (h | h)
  · cases h
  · omega

/-- **What `efx_bootcfg_read` returns.**  Where it returns 0 the buffer holds the options of the sector and
a `DHCP_END`, then zeros, and sums to zero, if and only if the sector is not a valid one without `DHCP_END`
whose last option ends with the byte `0xff`. -/
theorem read_terminated_iff {alloc : Bool} {data out : Bytes} {nv nv' : Nvram}
    (h : efxBootcfgRead alloc data nv = .ret out nv') :
    Terminated data.length (handedOut (sectorOf nv)) out ↔ ¬ Unmarked (sectorOf nv) := by
  obtain ⟨p0, p1, p2, u1, u2, S, htake, hS, hcheck, hterm, hout⟩ := read_inv h
  obtain ⟨-, hcases⟩ := checkPayload_cases hcheck
  obtain ⟨-, b, hb, hends⟩ := terminatePayload_cases hterm
  rw [htake] at hcases
  -- a new start holds the end byte alone
  have hblank : ∀ {c rest}, p2 = c :: [DHCP_END] ++ rest → u2 = 2 → p1.length = p0.length →
      p2.length = p1.length → Terminated data.length [] out := by
    intro c rest hp2 hu2 hl1 hl2
    obtain ⟨rfl, hfit⟩ := hout hl1 hl2 c [DHCP_END] rest hp2 hu2
    exact terminated_blockOf [] hfit
  rcases hcases with ⟨hinvalid, hu1, c, rest, hp1, hl1⟩ | ⟨u, hver, hu, hp⟩
  · -- not valid, or without options
    dsimp only at hu1 hp1 hl1
    obtain ⟨hnone, hnot⟩ := not_unmarked_of_invalid hinvalid
    have hb' : b = DHCP_END := by
      rw [hp1, hu1] at hb
      simpa using hb.symm
    rw [hnone]
    refine iff_of_true ?_ hnot
    rcases hends with ⟨-, hp⟩ | ⟨hne, -⟩ | ⟨hne, -⟩
    · cases hp
      exact hblank hp1 hu1 hl1 rfl
    · exact absurd hb' hne
    · exact absurd hb' hne
  · -- valid, with a used part
    cases hp
    obtain ⟨c, body, hused, rfl⟩ := used_of_verified hver hu
    obtain ⟨es, hopts, hbody⟩ := hused.parse_drop
    obtain ⟨rest, hsector, hne⟩ := hused.eq_append
    have hp0 : p0 = c :: body ++ (rest ++ p0.drop S) := by
      rw [← List.append_assoc, ← hsector, ← htake, List.take_append_drop]
    have hblast : body.getLast? = some b := by
      rw [hp0, Nat.add_sub_cancel, getElem?_last hne] at hb
      exact hb
    rw [unmarked_iff hsector hne hver hblast]
    rcases hbody with ⟨hsome, hbody⟩ | ⟨hnone, hbody⟩
    · -- with its end byte
      have hb' : b = DHCP_END := by
        rw [hbody, List.getLast?_append] at hblast
        simpa using hblast.symm
      rw [handedOut_of_room hver (Or.inl hsome), hopts]
      refine iff_of_true ?_ fun hn => ?_
      · rcases hends with ⟨-, hp⟩ | ⟨hne, -⟩ | ⟨hne, -⟩
        · cases hp
          obtain ⟨rfl, hfit⟩ := hout rfl rfl c body _ hp0 rfl
          subst hbody
          exact terminated_blockOf es hfit
        · exact absurd hb' hne
        · exact absurd hb' hne
      · rw [hn.1] at hsome
        cases hsome
    · rcases hends with ⟨hb', hp⟩ | ⟨hne', hroom, hu2, c', rest', hp2, hl2⟩ | ⟨hne', hroom, hlt, hp⟩
      · -- the last option's `0xff` passes for the end byte
        cases hp
        obtain ⟨rfl, -⟩ := hout rfl rfl c body _ hp0 rfl
        subst hbody
        exact iff_of_false (fun ht => not_terminated_blockOf _ _ es _ ht) fun hn => hn ⟨hnone, hb'⟩
      · -- no room
        rw [handedOut_of_full hver hnone (by omega)]
        exact iff_of_true (hblank hp2 hu2 rfl hl2) fun hn => hne' hn.2
      · -- the end byte is appended
        cases hp
        obtain ⟨x, xs, hrest⟩ : ∃ x xs, rest ++ p0.drop S = x :: xs := by
          refine List.exists_cons_of_ne_nil fun hnil => ?_
          rw [hnil, List.append_nil] at hp0
          rw [hp0] at hlt
          simp at hlt
        have hset : p0.set (body.length + 1) DHCP_END = c :: (encode es ++ [DHCP_END]) ++ xs := by
          rw [hp0, hrest, hbody]
          simp
        obtain ⟨rfl, hfit⟩ := hout rfl (by simp) c (encode es ++ [DHCP_END]) xs hset (by rw [hbody]; simp)
        rw [handedOut_of_room hver (Or.inr (by omega)), hopts]
        exact iff_of_true (terminated_blockOf es hfit) fun hn => hne' hn.2

/-- A legacy sector with one option, read into a buffer of its size. -/
theorem read_terminated_legacy :
    ∃ out nv', efxBootcfgRead true (List.replicate 8 0) ⟨[178, 12, 1, 65, 0, 0, 0, 0], 3⟩ = .ret out nv' ∧
      Terminated 8 (handedOut (sectorOf ⟨[178, 12, 1, 65, 0, 0, 0, 0], 3⟩)) out := by
  have hread : efxBootcfgRead true (List.replicate 8 0) ⟨[178, 12, 1, 65, 0, 0, 0, 0], 3⟩ =
      .ret [179, 12, 1, 65, 255, 0, 0, 0] ⟨[178, 12, 1, 65, 0, 0, 0, 0], 3⟩ := by decide
  refine ⟨_, _, hread, (read_terminated_iff hread).mpr ?_⟩
  rintro ⟨-, used, hused, -, hlast⟩
  have hver : verified (sectorOf ⟨[178, 12, 1, 65, 0, 0, 0, 0], 3⟩) = some 4 := by decide
  rw [hver] at hused
  cases hused
  revert hlast
  decide

/-- A legacy sector whose only option has the value `0xff`: the reader hands it out without a `DHCP_END`. -/
theorem read_unterminated :
    efxBootcfgRead true (List.replicate 8 0) ⟨[244, 12, 1, 255, 0, 0, 0, 0], 3⟩ =
        .ret [244, 12, 1, 255, 0, 0, 0, 0] ⟨[244, 12, 1, 255, 0, 0, 0, 0], 3⟩ ∧
      ¬ ∃ opts, Terminated 8 opts [244, 12, 1, 255, 0, 0, 0, 0] := by
  refine ⟨by decide, fun ⟨opts, hterm⟩ => ?_⟩
  exact not_terminated_blockOf 8 244 [.opt ⟨12, [255], by decide, by decide⟩] opts hterm

end Sfxge.Bootcfg
