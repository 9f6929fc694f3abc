import ResourceApi.Proofs.Json.Grammar

/-!
String literals are read as the grammar has them. The reading has two steps: the literal is cut into
characters and code units, and then the units that are surrogates are paired.
-/

namespace ResourceApi.Json

/-! ### Hexadecimal digits -/

theorem toNat_lt_of_value? {c : Char} {n : Nat} (h : Text.Digit.value? c = some n) :
    c.toNat < 128 := by
  unfold Text.Digit.value? at h
  split at h
  · rename_i hdigit
    delta Char.isDigit at hdigit
    simp [UInt32.le_iff_toNat_le] at hdigit
    omega
  split at h
  · rename_i hletter
    have hle : c.toNat ≤ 70 := hletter.2
    omega
  split at h
  · rename_i hletter
    have hle : c.toNat ≤ 102 := hletter.2
    omega
  · cases h

theorem isHexDigit_iff {c : Char} {n : Nat} : IsHexDigit c n ↔ Text.Digit.value? c = some n := by
  have hsmall : ∀ p ∈ "0123456789abcdef".toList.zipIdx,
      Text.Digit.value? p.1 = some p.2 := by decide +kernel
  have hcapital : ∀ p ∈ "0123456789ABCDEF".toList.zipIdx,
      Text.Digit.value? p.1 = some p.2 := by decide +kernel
  have hvalue : ∀ k : Fin 128, ∀ m ∈ Text.Digit.value? (Char.ofNat k),
      "0123456789abcdef".toList[m]? = some (Char.ofNat k) ∨
        "0123456789ABCDEF".toList[m]? = some (Char.ofNat k) := by decide +kernel
  constructor
  · rintro (h | h)
    · exact hsmall (c, n) (List.mk_mem_zipIdx_iff_getElem?.2 h)
    · exact hcapital (c, n) (List.mk_mem_zipIdx_iff_getElem?.2 h)
  · intro h
    have hdigit := hvalue ⟨c.toNat, toNat_lt_of_value? h⟩ n
    simp only [Char.ofNat_toNat] at hdigit
    exact hdigit h

theorem lt_of_value? {c : Char} {n : Nat} (h : Text.Digit.value? c = some n) : n < 16 := by
  rcases isHexDigit_iff.2 h with h | h
  · exact (List.getElem?_eq_some_iff.1 h).1
  · exact (List.getElem?_eq_some_iff.1 h).1

/-- One more digit of a number in base sixteen. -/
theorem step_eq_some_iff {n m : Nat} {c : Char} :
    (match Text.Digit.value? c with
    | some d => if d < 16 then some (16 * n + d) else none
    | none => none) = some m ↔ ∃ d, IsHexDigit c d ∧ 16 * n + d = m := by
  cases hc : Text.Digit.value? c with
  | none => simp [isHexDigit_iff, hc]
  | some d => simp [isHexDigit_iff, hc, lt_of_value? hc]

theorem number?_eq_some_iff {a b c d : Char} {n : Nat} :
    Text.Digit.number? 16 [a, b, c, d] = some n ↔ SpellsUnit [a, b, c, d] n := by
  simp only [Text.Digit.number?, List.foldlM_cons, List.foldlM_nil, Option.bind_eq_bind,
    Option.bind_eq_some_iff, Option.pure_def, Option.some.injEq]
  constructor
  · rintro ⟨_, ha, _, hb, _, hc, _, hd, rfl⟩
    obtain ⟨i, hi, rfl⟩ := step_eq_some_iff.1 ha
    obtain ⟨j, hj, rfl⟩ := step_eq_some_iff.1 hb
    obtain ⟨k, hk, rfl⟩ := step_eq_some_iff.1 hc
    obtain ⟨l, hl, rfl⟩ := step_eq_some_iff.1 hd
    have hn : 16 * (16 * (16 * (16 * 0 + i) + j) + k) + l = ((i * 16 + j) * 16 + k) * 16 + l := by
      omega
    exact hn ▸ .intro hi hj hk hl
  · rintro ⟨hi, hj, hk, hl⟩
    exact ⟨_, step_eq_some_iff.2 ⟨_, hi, rfl⟩, _, step_eq_some_iff.2 ⟨_, hj, rfl⟩, _,
      step_eq_some_iff.2 ⟨_, hk, rfl⟩, _, step_eq_some_iff.2 ⟨_, hl, rfl⟩, by omega⟩

/-! ### Pieces -/

/-- A character of a literal or a code unit, as it stands there. -/
inductive SpellsPiece : List Char → Piece → Prop where
  | plain {c : Char} (hc : 0x20 ≤ c.toNat) (hquote : c ≠ '"') (hslash : c ≠ '\\') :
      SpellsPiece [c] (.char c)
  | escape {e c : Char} (h : (e, c) ∈ escapes) : SpellsPiece ['\\', e] (.char c)
  | unit {ds : List Char} {n : Nat} (h : SpellsUnit ds n) :
      SpellsPiece ('\\' :: 'u' :: ds) (.unit n)

inductive SpellsPieces : List Char → List Piece → Prop where
  | nil : SpellsPieces [] []
  | cons {t ts : List Char} {p : Piece} {ps : List Piece} (h : SpellsPiece t p)
      (hs : SpellsPieces ts ps) : SpellsPieces (t ++ ts) (p :: ps)

namespace Source

theorem unescape?_eq_some_iff {e c : Char} : unescape? e = some c ↔ (e, c) ∈ escapes := by
  constructor
  · intro h
    unfold unescape? at h
    split at h <;> simp_all [escapes, eq_comm]
  · intro h
    simp only [escapes, List.mem_cons, Prod.mk.injEq, List.not_mem_nil, or_false] at h
    rcases h with ⟨rfl, rfl⟩ | ⟨rfl, rfl⟩ | ⟨rfl, rfl⟩ | ⟨rfl, rfl⟩ | ⟨rfl, rfl⟩ | ⟨rfl, rfl⟩ |
      ⟨rfl, rfl⟩ | ⟨rfl, rfl⟩ <;> rfl

/-- A piece is read off the front, whatever follows. -/
theorem readPieces_append {t : List Char} {p : Piece} (h : SpellsPiece t p) (s : List Char) :
    readPieces (t ++ s) = (readPieces s).map fun r => (p :: r.1, r.2) := by
  cases h with
  | @plain c hc hquote hslash =>
    have hread : ¬(decide (c.toNat < 0x20) || decide (c = '\\')) = true := by
      simp [hslash, hc]
    rw [List.singleton_append, readPieces.eq_5 c s hquote (fun _ _ _ _ _ h _ => hslash h)
      (fun _ _ h _ => hslash h), if_neg hread]
    cases readPieces s <;> rfl
  | @escape e c h =>
    have hu : e ≠ 'u' := by
      rintro rfl
      simp [escapes] at h
    rw [List.cons_append, List.singleton_append,
      readPieces.eq_4 e s (fun _ _ _ _ _ h _ => hu h), unescape?_eq_some_iff.2 h]
    cases readPieces s <;> rfl
  | unit h =>
    cases h with
    | intro ha hb hc hd =>
      have hn := number?_eq_some_iff.2 (.intro ha hb hc hd)
      rw [List.cons_append, List.cons_append, List.cons_append, List.cons_append, List.cons_append,
        List.singleton_append, readPieces, hn]
      cases readPieces s <;> rfl

/-- A literal is read up to the quote that ends it. -/
theorem readPieces_of_spells {t : List Char} {ps : List Piece} (h : SpellsPieces t ps)
    (s : List Char) : readPieces (t ++ '"' :: s) = some (ps, s) := by
  induction h with
  | nil => rfl
  | cons hp _ ih => rw [List.append_assoc, readPieces_append hp, ih, Option.map_some]

/-- What is read as a literal is spelled, piece by piece. -/
theorem spells_of_readPieces {s rest : List Char} {ps : List Piece}
    (h : readPieces s = some (ps, rest)) : ∃ t, s = t ++ '"' :: rest ∧ SpellsPieces t ps := by
  induction s using readPieces.induct generalizing ps with
  | case1 => cases h
  | case2 s =>
    cases h
    exact ⟨[], rfl, .nil⟩
  | case3 a b c d s ih =>
    simp only [readPieces, Option.bind_eq_bind, Option.bind_eq_some_iff] at h
    obtain ⟨n, hn, r, hr, h⟩ := h
    cases h
    obtain ⟨t, rfl, ht⟩ := ih hr
    exact ⟨'\\' :: 'u' :: [a, b, c, d] ++ t, rfl, .cons (.unit (number?_eq_some_iff.1 hn)) ht⟩
  | case4 e s hu ih =>
    rw [readPieces.eq_4 e s hu] at h
    simp only [Option.bind_eq_bind, Option.bind_eq_some_iff] at h
    obtain ⟨c, hc, r, hr, h⟩ := h
    cases h
    obtain ⟨t, rfl, ht⟩ := ih hr
    exact ⟨['\\', e] ++ t, rfl, .cons (.escape (unescape?_eq_some_iff.1 hc)) ht⟩
  | case5 c s hquote hu he hbad =>
    rw [readPieces.eq_5 c s hquote hu he, if_pos hbad] at h
    cases h
  | case6 c s hquote hu he hgood ih =>
    rw [readPieces.eq_5 c s hquote hu he, if_neg hgood] at h
    simp only [Option.bind_eq_bind, Option.bind_eq_some_iff] at h
    obtain ⟨r, hr, h⟩ := h
    cases h
    obtain ⟨t, rfl, ht⟩ := ih hr
    obtain ⟨hlow, hslash⟩ : 0x20 ≤ c.toNat ∧ c ≠ '\\' := by simpa using hgood
    exact ⟨[c] ++ t, rfl, .cons (.plain hlow hquote hslash) ht⟩

end Source

/-! ### Pairs of surrogates -/

theorem isHighSurrogate_iff {n : Nat} : isHighSurrogate n = true ↔ 0xD800 ≤ n ∧ n < 0xDC00 := by
  simp [isHighSurrogate]

theorem isLowSurrogate_iff {n : Nat} : isLowSurrogate n = true ↔ 0xDC00 ≤ n ∧ n < 0xE000 := by
  simp [isLowSurrogate]

/-- A unit that is no surrogate is a character of its own. -/
theorem Piece.chars?_unit {n : Nat} (h : n < 0xD800 ∨ 0xE000 ≤ n) (ps : List Piece) :
    chars? (.unit n :: ps) = (chars? ps).map (Char.ofNat n :: ·) := by
  have hhigh : ¬isHighSurrogate n = true := by
    rw [isHighSurrogate_iff]
    omega
  have hlow : ¬isLowSurrogate n = true := by
    rw [isLowSurrogate_iff]
    omega
  cases ps with
  | nil => simp [chars?, hhigh, hlow]
  | cons p ps => cases p <;> simp [chars?, hhigh, hlow]

/-- A pair of surrogates stands for one character. -/
theorem Piece.chars?_pair {high low : Nat} (hhigh : 0xD800 ≤ high ∧ high < 0xDC00)
    (hlow : 0xDC00 ≤ low ∧ low < 0xE000) (ps : List Piece) :
    chars? (.unit high :: .unit low :: ps) = (chars? ps).map
      (Char.ofNat (0x10000 + (high - 0xD800) * 1024 + (low - 0xDC00)) :: ·) := by
  rw [chars?, if_pos (isHighSurrogate_iff.2 hhigh), if_pos (isLowSurrogate_iff.2 hlow)]

theorem exists_pieces {t cs : List Char} (h : SpellsChars t cs) :
    ∃ ps, SpellsPieces t ps ∧ Piece.chars? ps = some cs := by
  induction h with
  | nil => exact ⟨[], .nil, rfl⟩
  | @cons t ts cs c h _ ih =>
    obtain ⟨ps, hps, hcs⟩ := ih
    cases h with
    | plain hc hquote hslash =>
      exact ⟨.char c :: ps, .cons (.plain hc hquote hslash) hps, by simp [Piece.chars?, hcs]⟩
    | escape h => exact ⟨.char c :: ps, .cons (.escape h) hps, by simp [Piece.chars?, hcs]⟩
    | unit h hn =>
      exact ⟨_, .cons (.unit h) hps, by rw [Piece.chars?_unit hn, hcs, Option.map_some]⟩
    | pair h h' hhigh hlow =>
      rw [List.append_assoc]
      exact ⟨_, .cons (.unit h) (.cons (.unit h') hps),
        by rw [Piece.chars?_pair hhigh hlow, hcs, Option.map_some]⟩

/-- What is read as characters begins with a unit of its own or with a pair of surrogates, if it
begins with a unit. -/
theorem Piece.cases_chars?_unit {n : Nat} {ps : List Piece} {cs : List Char}
    (h : chars? (.unit n :: ps) = some cs) :
    (∃ cs', (n < 0xD800 ∨ 0xE000 ≤ n) ∧ chars? ps = some cs' ∧ cs = Char.ofNat n :: cs') ∨
      ∃ low ps' cs', (0xD800 ≤ n ∧ n < 0xDC00) ∧ (0xDC00 ≤ low ∧ low < 0xE000) ∧
        ps = .unit low :: ps' ∧ chars? ps' = some cs' ∧
        cs = Char.ofNat (0x10000 + (n - 0xD800) * 1024 + (low - 0xDC00)) :: cs' := by
  by_cases hn : n < 0xD800 ∨ 0xE000 ≤ n
  · rw [chars?_unit hn, Option.map_eq_some_iff] at h
    obtain ⟨cs', hcs', hcs⟩ := h
    exact .inl ⟨cs', hn, hcs', hcs.symm⟩
  have hlow : isHighSurrogate n = true ∨ isLowSurrogate n = true := by
    rw [isHighSurrogate_iff, isLowSurrogate_iff]
    omega
  by_cases hpair : ∃ low ps', ps = .unit low :: ps'
  · obtain ⟨low, ps', rfl⟩ := hpair
    rw [chars?] at h
    split at h
    · rename_i hhigh
      split at h
      · rename_i hlow
        obtain ⟨cs', hcs', hcs⟩ := Option.map_eq_some_iff.1 h
        exact .inr ⟨low, ps', cs', isHighSurrogate_iff.1 hhigh, isLowSurrogate_iff.1 hlow, rfl,
          hcs', hcs.symm⟩
      · cases h
    · rename_i hhigh
      rw [if_pos (hlow.resolve_left hhigh)] at h
      cases h
  · rw [chars?.eq_4 n ps fun low ps' hps => hpair ⟨low, ps', hps⟩,
      if_pos (Bool.or_eq_true_iff.2 hlow)] at h
    cases h

theorem spellsChars_of_pieces {t cs : List Char} {ps : List Piece} (hps : SpellsPieces t ps)
    (h : Piece.chars? ps = some cs) : SpellsChars t cs := by
  -- A pair takes two pieces, so the induction is on the number of pieces.
  induction hn : ps.length using Nat.strongRecOn generalizing ps t cs with
  | ind n ih =>
    cases hps with
    | nil =>
      cases h
      exact .nil
    | @cons t ts p ps hp hps =>
      have hlt : ps.length < n := by
        rw [← hn]
        exact Nat.lt_succ_self _
      have hchar : ∀ {c : Char}, SpellsChar t c → p = .char c → SpellsChars (t ++ ts) cs := by
        rintro c hc rfl
        obtain ⟨cs', hcs', rfl⟩ := Option.map_eq_some_iff.1 h
        exact .cons hc (ih _ hlt hps hcs' rfl)
      cases hp with
      | plain hc hquote hslash => exact hchar (.plain hc hquote hslash) rfl
      | escape he => exact hchar (.escape he) rfl
      | unit hu =>
        obtain ⟨cs', hunit, hcs', rfl⟩ | ⟨low, ps', cs', hhigh, hlow, rfl, hcs', rfl⟩ :=
          Piece.cases_chars?_unit h
        · exact .cons (.unit hu hunit) (ih _ hlt hps hcs' rfl)
        · cases hps with
          | cons hp' hps' =>
            cases hp' with
            | unit hu' =>
              have hrest := ih _ (Nat.lt_of_succ_lt hlt) hps' hcs' rfl
              have hpair := SpellsChars.cons (.pair hu hu' hhigh hlow) hrest
              rwa [List.append_assoc] at hpair

/-- A literal is what is read after its opening quote and has no surrogate outside a pair. -/
theorem readString_of_spells {t s : List Char} {key : String} (h : SpellsString t key) :
    ∃ u ps, t ++ s = '"' :: u ∧ Source.readPieces u = some (ps, s) ∧
      Piece.string? ps = some key := by
  cases h with
  | @intro t _ h =>
    obtain ⟨ps, hps, hcs⟩ := exists_pieces h
    exact ⟨t ++ '"' :: s, ps, by simp, Source.readPieces_of_spells hps s,
      by rw [Piece.string?, hcs, Option.map_some]⟩

/-- A literal that is read has characters that the grammar spells. -/
theorem spellsString_of_read {u s : List Char} {ps : List Piece} {key : String}
    (h : Source.readPieces u = some (ps, s)) (hkey : Piece.string? ps = some key) :
    ∃ t, '"' :: u = t ++ s ∧ SpellsString t key := by
  obtain ⟨t, rfl, ht⟩ := Source.spells_of_readPieces h
  obtain ⟨cs, hcs, rfl⟩ := Option.map_eq_some_iff.1 hkey
  exact ⟨'"' :: t ++ ['"'], by simp, .intro (spellsChars_of_pieces ht hcs)⟩

end ResourceApi.Json
