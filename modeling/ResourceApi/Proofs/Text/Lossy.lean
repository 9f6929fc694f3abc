import ResourceApi.Proofs.Text.Utf8

/-!
Lossy decoding described without a reader. Bytes that encode a character stand for it. Where no
encoding begins, the bytes that start one, as many as there are, or else a single byte, stand for
one replacement character.
-/

namespace ResourceApi.Text.Utf8

/-- A piece of bytes, with others behind it, that is given up as a whole. -/
structure IsBroken (piece rest : List UInt8) : Prop where
  noChar : ∀ c, ¬ String.utf8EncodeChar c <+: piece ++ rest
  starts : (∃ b, piece = [b]) ∨ ∃ c, piece <+: String.utf8EncodeChar c
  ne_nil : piece ≠ []
  ends : ∀ b ∈ rest.head?, ∀ c, ¬ piece ++ [b] <+: String.utf8EncodeChar c

inductive IsLossyTextOf : List Char → List UInt8 → Prop where
  | nil : IsLossyTextOf [] []
  | char (c : Char) {s : List Char} {bs : List UInt8} (h : IsLossyTextOf s bs) :
      IsLossyTextOf (c :: s) (String.utf8EncodeChar c ++ bs)
  | broken {s : List Char} {piece bs : List UInt8} (hp : IsBroken piece bs)
      (h : IsLossyTextOf s bs) : IsLossyTextOf (Char.ofNat 0xFFFD :: s) (piece ++ bs)

/-! ### Where reading stops -/

def IsTrailing (b : UInt8) : Prop := 0x80 ≤ b.toNat ∧ b.toNat ≤ 0xBF

theorem continuation_of_trailing {n bits : Nat} {b : UInt8} {bs : List UInt8}
    (hb : IsTrailing b) :
    continuation (n + 1) bits (b :: bs) = continuation n (bits * 64 + (b.toNat - 0x80)) bs :=
  if_pos hb

theorem continuation_of_not_trailing {n bits : Nat} {b : UInt8} {bs : List UInt8}
    (hb : ¬IsTrailing b) : continuation (n + 1) bits (b :: bs) = (none, b :: bs) :=
  if_neg hb

theorem continuation_eq_none {n bits : Nat} {bs rest : List UInt8}
    (h : continuation n bits bs = (none, rest)) :
    ∃ p, bs = p ++ rest ∧ p.length < n ∧ (∀ b ∈ p, IsTrailing b) ∧
      ∀ b ∈ rest.head?, ¬IsTrailing b := by
  induction n generalizing bits bs with
  | zero => cases h
  | succ n ih =>
    cases bs with
    | nil =>
      cases h
      exact ⟨[], rfl, Nat.succ_pos n, by simp, by simp⟩
    | cons b bs =>
      by_cases hb : IsTrailing b
      · rw [continuation_of_trailing hb] at h
        obtain ⟨p, rfl, hlength, hp, hrest⟩ := ih h
        exact ⟨b :: p, rfl, Nat.succ_lt_succ hlength, List.forall_mem_cons.2 ⟨hb, hp⟩, hrest⟩
      · rw [continuation_of_not_trailing hb] at h
        cases h
        refine ⟨[], rfl, Nat.succ_pos n, by simp, ?_⟩
        rintro _ ⟨⟩
        exact hb

theorem continuation_stops {n bits : Nat} {p rest : List UInt8} {b : UInt8} (hn : p.length < n)
    (hp : ∀ b ∈ p, IsTrailing b) (hb : ¬IsTrailing b) :
    (continuation n bits (p ++ b :: rest)).1 = none := by
  induction p generalizing n bits with
  | nil =>
    obtain ⟨n, rfl⟩ := Nat.exists_eq_succ_of_ne_zero (Nat.ne_of_gt hn)
    rw [List.nil_append, continuation_of_not_trailing hb]
  | cons a p ih =>
    obtain ⟨n, rfl⟩ := Nat.exists_eq_succ_of_ne_zero (Nat.ne_zero_of_lt hn)
    obtain ⟨ha, hp⟩ := List.forall_mem_cons.1 hp
    rw [List.cons_append, continuation_of_trailing ha]
    exact ih (Nat.lt_of_succ_lt_succ hn) hp

/-- Trailing bytes can be completed. -/
theorem exists_continuation_append {n : Nat} (bits : Nat) {p : List UInt8} (hn : p.length ≤ n)
    (hp : ∀ b ∈ p, IsTrailing b) : ∃ more v, continuation n bits (p ++ more) = (some v, []) := by
  induction n generalizing bits p with
  | zero =>
    obtain rfl : p = [] := List.length_eq_zero_iff.1 (Nat.le_zero.1 hn)
    exact ⟨[], bits, rfl⟩
  | succ n ih =>
    cases p with
    | nil =>
      obtain ⟨more, v, h⟩ := ih (p := []) (bits * 64) (Nat.zero_le n) nofun
      exact ⟨UInt8.ofNat 0x80 :: more, v, h⟩
    | cons a p =>
      obtain ⟨ha, hp⟩ := List.forall_mem_cons.1 hp
      obtain ⟨more, v, h⟩ := ih (bits * 64 + (a.toNat - 0x80)) (Nat.le_of_succ_le_succ hn) hp
      refine ⟨more, v, ?_⟩
      rw [List.cons_append, continuation_of_trailing ha]
      exact h

/-! ### Pieces -/

theorem unit_of_encodeChar {c : Char} {b : UInt8} {rest t : List UInt8}
    (h : String.utf8EncodeChar c ++ t = b :: rest) : (unit b rest).1 = some c := by
  have hunits := units_encodeChar c t
  rw [h, units] at hunits
  exact List.head_eq_of_cons_eq hunits

theorem encodeChar_ne_nil (c : Char) : String.utf8EncodeChar c ≠ [] := by
  intro h
  have hunits := units_encodeChar c []
  rw [h, List.nil_append, units] at hunits
  cases hunits

theorem encodeChar_append_inj {c c' : Char} {t t' : List UInt8}
    (h : String.utf8EncodeChar c ++ t = String.utf8EncodeChar c' ++ t') : c = c' ∧ t = t' := by
  obtain ⟨b, rest, hc⟩ := List.exists_cons_of_ne_nil (encodeChar_ne_nil c)
  have hunit := unit_of_encodeChar (c := c) (t := t) (by rw [hc, List.cons_append])
  have hunit' := unit_of_encodeChar (c := c') (t := t') (by rw [← h, hc, List.cons_append])
  obtain rfl := Option.some.inj (hunit.symm.trans hunit')
  exact ⟨rfl, List.append_cancel_left h⟩

theorem unit_of_prefix {c : Char} {b : UInt8} {p : List UInt8}
    (h : b :: p <+: String.utf8EncodeChar c) :
    ∃ t, (unit b (p ++ t)).1 = some c := by
  obtain ⟨t, ht⟩ := h
  exact ⟨t, unit_of_encodeChar (t := []) (by rw [List.append_nil, ← ht, List.cons_append])⟩

theorem not_prefix_of_unit {b : UInt8} {rest rest' : List UInt8}
    (h : unit b rest = (none, rest')) (c : Char) : ¬ String.utf8EncodeChar c <+: b :: rest := by
  rintro ⟨t, ht⟩
  have hunit := unit_of_encodeChar ht
  rw [h] at hunit
  cases hunit

theorem unit_of_lead {b second : UInt8} {tail : List UInt8} {l : Lead} (hb : ¬b.toNat < 0x80)
    (hlead : Lead.ofByte b.toNat = some l)
    (hsecond : l.low ≤ second.toNat ∧ second.toNat ≤ l.high) :
    unit b (second :: tail) =
      ((continuation l.more (l.bits * 64 + (second.toNat - 0x80)) tail).1.map Char.ofNat,
        (continuation l.more (l.bits * 64 + (second.toNat - 0x80)) tail).2) := by
  simp only [unit, hb, if_false, hlead, hsecond, and_self, if_true]

/-- A form that is cut off is a broken piece, because more bytes could complete it and the byte
behind it could not. -/
theorem isBroken_of_cut {b second : UInt8} {l : Lead} {p rest : List UInt8} (hb : ¬b.toNat < 0x80)
    (hlead : Lead.ofByte b.toNat = some l)
    (hsecond : l.low ≤ second.toNat ∧ second.toNat ≤ l.high) (hlength : p.length < l.more)
    (hp : ∀ b ∈ p, IsTrailing b) (hstop : ∀ b ∈ rest.head?, ¬IsTrailing b)
    (noChar : ∀ c, ¬ String.utf8EncodeChar c <+: b :: second :: (p ++ rest)) :
    IsBroken (b :: second :: p) rest where
  noChar := noChar
  starts := by
    obtain ⟨more, v, hmore⟩ := exists_continuation_append (l.bits * 64 + (second.toNat - 0x80))
      (Nat.le_of_lt hlength) hp
    have hunit : unit b (second :: (p ++ more)) = (some (Char.ofNat v), []) := by
      rw [unit_of_lead hb hlead hsecond, hmore, Option.map_some]
    refine .inr ⟨Char.ofNat v, more, ?_⟩
    have heq := eq_encodeChar_append_of_unit hunit
    rw [List.append_nil] at heq
    exact heq
  ne_nil := by simp
  ends := by
    intro next hnext c hc
    have hpiece : b :: second :: p ++ [next] = b :: second :: (p ++ [next]) := rfl
    obtain ⟨t, ht⟩ := unit_of_prefix (hpiece ▸ hc)
    have hnone : (continuation l.more (l.bits * 64 + (second.toNat - 0x80))
        (p ++ next :: t)).1 = none := continuation_stops hlength hp (hstop next hnext)
    rw [List.cons_append, unit_of_lead hb hlead hsecond] at ht
    simp [hnone] at ht

/-- A unit that is no character is a broken piece. -/
theorem isBroken_of_unit {b : UInt8} {rest rest' : List UInt8}
    (h : unit b rest = (none, rest')) :
    ∃ piece, b :: rest = piece ++ rest' ∧ IsBroken piece rest' := by
  have noChar := not_prefix_of_unit h
  unfold unit at h
  split at h
  · cases h
  rename_i hb
  split at h
  · rename_i hlead
    cases h
    refine ⟨[b], rfl, noChar, .inl ⟨b, rfl⟩, by simp, fun second _ c hc => ?_⟩
    obtain ⟨t, ht⟩ := unit_of_prefix hc
    simp [unit, hb, hlead] at ht
  · cases h
    exact ⟨[b], rfl, noChar, .inl ⟨b, rfl⟩, by simp, by simp⟩
  · rename_i l second tail hlead
    split at h
    · rename_i hsecond
      obtain ⟨hread, hrest⟩ := Prod.mk.inj h
      obtain ⟨p, rfl, hlength, hp, hstop⟩ :=
        continuation_eq_none (Prod.ext (Option.map_eq_none_iff.1 hread) hrest)
      exact ⟨_, rfl, isBroken_of_cut hb hlead hsecond hlength hp hstop noChar⟩
    · rename_i hsecond
      cases h
      refine ⟨[b], rfl, noChar, .inl ⟨b, rfl⟩, by simp, ?_⟩
      rintro _ ⟨⟩ c hc
      obtain ⟨t, ht⟩ := unit_of_prefix hc
      simp [unit, hb, hlead, hsecond] at ht

/-! ### Texts -/

theorem isLossyTextOf_decodeLossy (bs : List UInt8) : IsLossyTextOf (decodeLossy bs) bs := by
  unfold decodeLossy
  induction bs using units.induct with
  | case1 =>
    rw [units]
    exact .nil
  | case2 b rest ih =>
    rw [units, List.map_cons]
    cases hunit : (unit b rest).1 with
    | some c =>
      rw [eq_encodeChar_append_of_unit (Prod.ext hunit rfl)]
      exact .char c ih
    | none =>
      obtain ⟨piece, heq, hp⟩ := isBroken_of_unit (Prod.ext hunit rfl)
      rw [heq]
      exact .broken hp ih

/-- In front of the same bytes there is one broken piece at most. -/
theorem IsBroken.unique {piece piece' rest rest' : List UInt8} (h : IsBroken piece rest)
    (h' : IsBroken piece' rest') (heq : piece ++ rest = piece' ++ rest') : piece = piece' := by
  -- The shorter one could be continued, as the longer one starts an encoding.
  have hshorter {p p' r r' : List UInt8} (h : IsBroken p r) (h' : IsBroken p' r')
      (heq : p ++ r = p' ++ r') : ¬p.length < p'.length := by
    intro hlt
    obtain ⟨t, rfl⟩ : p <+: p' := List.prefix_of_prefix_length_le (List.prefix_append p r)
      (heq ▸ List.prefix_append p' r') (Nat.le_of_lt hlt)
    cases t with
    | nil => simp at hlt
    | cons b t =>
      rw [List.append_assoc, List.append_cancel_left_eq] at heq
      obtain ⟨c, hc⟩ : ∃ c, p ++ b :: t <+: String.utf8EncodeChar c := by
        obtain ⟨a, ha⟩ | hc := h'.starts
        · have hlength := congrArg List.length ha
          have hpos := List.length_pos_iff.2 h.ne_nil
          simp only [List.length_append, List.length_cons, List.length_nil] at hlength
          omega
        · exact hc
      refine h.ends b (by rw [heq]; rfl) c (List.IsPrefix.trans ⟨t, by simp⟩ hc)
  have hle := Nat.not_lt.1 (hshorter h h' heq)
  have hge := Nat.not_lt.1 (hshorter h' h heq.symm)
  exact (List.append_inj heq (Nat.le_antisymm hge hle)).1

theorem IsLossyTextOf.unique {s s' : List Char} {bs : List UInt8} (h : IsLossyTextOf s bs)
    (h' : IsLossyTextOf s' bs) : s = s' := by
  induction h generalizing s' with
  | nil =>
    generalize hbs : [] = bs at h'
    cases h' with
    | nil => rfl
    | char c _ => exact absurd (List.append_eq_nil_iff.1 hbs.symm).1 (encodeChar_ne_nil c)
    | broken hp _ => exact absurd (List.append_eq_nil_iff.1 hbs.symm).1 hp.ne_nil
  | @char c s bs _ ih =>
    generalize hbs : String.utf8EncodeChar c ++ bs = bs' at h'
    cases h' with
    | nil => exact absurd (List.append_eq_nil_iff.1 hbs).1 (encodeChar_ne_nil c)
    | char c' h' =>
      obtain ⟨rfl, rfl⟩ := encodeChar_append_inj hbs
      rw [ih h']
    | broken hp _ => exact absurd ⟨_, hbs⟩ (hp.noChar c)
  | @broken s piece bs hp _ ih =>
    generalize hbs : piece ++ bs = bs' at h'
    cases h' with
    | nil => exact absurd (List.append_eq_nil_iff.1 hbs).1 hp.ne_nil
    | char c _ => exact absurd ⟨_, hbs.symm⟩ (hp.noChar c)
    | broken hp' h' =>
      obtain rfl := hp.unique hp' hbs
      obtain rfl := List.append_cancel_left hbs
      rw [ih h']

/-- Lossy decoding gives the one lossy text of its bytes. -/
theorem isLossyTextOf_iff {s : List Char} {bs : List UInt8} :
    IsLossyTextOf s bs ↔ s = decodeLossy bs :=
  ⟨fun h => h.unique (isLossyTextOf_decodeLossy bs), fun h => h ▸ isLossyTextOf_decodeLossy bs⟩

end ResourceApi.Text.Utf8
