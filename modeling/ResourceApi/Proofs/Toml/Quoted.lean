import ResourceApi.Toml.Lexeme
import ResourceApi.Toml.Printer

/-!
Quoted text is read back. A reader of one of the four forms takes the written characters one by one,
each as it is or as its escape; only quotes at the end of a form with three of them need a look
ahead, and up to two of those may belong to the text.
-/

namespace ResourceApi.Toml

open Lexeme Printer

/-- A reader of the rest of a quoted text. -/
abbrev QuoteReader := List Char → Option (List Char × List Char)

/-- A piece of text that a reader takes for one character, whatever follows. -/
def Takes (f : QuoteReader) (c : Char) (e : List Char) : Prop :=
  ∀ rest, f (e ++ rest) = (f rest).bind fun p => some (c :: p.1, p.2)

/-! ### Escapes -/

theorem hexChar?_control {c : Char} (h : isControl c = true) :
    hexChar? (['0', '0'] ++ [c.toNat / 16, c.toNat % 16].map Text.Digit.capital) = some c := by
  have hlt : c.toNat < 128 := by
    simp only [isControl, Bool.or_eq_true, Bool.and_eq_true, decide_eq_true_eq] at h
    omega
  have hhigh := Text.Digit.value?_capital (n := c.toNat / 16) (by omega)
  have hlow := Text.Digit.value?_capital (n := c.toNat % 16) (by omega)
  have hzero : Text.Digit.value? '0' = some 0 := by decide
  have hnumber : Text.Digit.number? 16
      (['0', '0'] ++ [c.toNat / 16, c.toNat % 16].map Text.Digit.capital) = some c.toNat := by
    have h16 : c.toNat / 16 < 16 := by omega
    have hmod : c.toNat % 16 < 16 := by omega
    have hsum : 16 * (c.toNat / 16) + c.toNat % 16 = c.toNat := by omega
    simp [Text.Digit.number?, hhigh, hlow, hzero, h16, hmod, hsum]
  simp only [hexChar?, hnumber, Option.bind_eq_bind, Option.bind_some]
  rw [if_pos (by omega), Char.ofNat_toNat]

theorem isPlain_of_not_control {c : Char} (h : isControl c = false) (hline : c ≠ '\n') :
    isPlain c = true := by
  simp only [isControl, Bool.or_eq_false_iff, Bool.and_eq_false_iff, decide_eq_false_iff_not,
    bne_eq_false_iff_eq] at h
  obtain ⟨(hlow | htab) | hn, hdel⟩ := h
  · have hrange : 0x20 ≤ c.toNat ∧ c.toNat ≠ 0x7F := by omega
    simp [isPlain, hrange]
  · simp [isPlain, htab]
  · exact absurd hn hline

/-- An escape is a backslash with a letter, or with the code point. -/
theorem escape?_cases {multi : Bool} {c : Char} {e : List Char} (h : escape? multi c = some e) :
    (∃ d, unescape? d = some c ∧ e = ['\\', d]) ∨
      ∃ w x y z, hexChar? [w, x, y, z] = some c ∧ e = ['\\', 'u', w, x, y, z] := by
  unfold escape? at h
  split at h
  · exact .inl ⟨'b', rfl, (Option.some.inj h).symm⟩
  · exact .inl ⟨'t', rfl, (Option.some.inj h).symm⟩
  · cases multi with
    | true => exact absurd h (by simp)
    | false => exact .inl ⟨'n', rfl, (Option.some.inj h).symm⟩
  · exact .inl ⟨'f', rfl, (Option.some.inj h).symm⟩
  · exact .inl ⟨'r', rfl, (Option.some.inj h).symm⟩
  · exact .inl ⟨'\\', rfl, (Option.some.inj h).symm⟩
  · split at h
    · rename_i hc
      exact .inr ⟨_, _, _, _, hexChar?_control hc, (Option.some.inj h).symm⟩
    · exact absurd h (by simp)

/-- What has no escape stands as it is: plain characters, and line ends in forms over several
lines. -/
theorem escape?_eq_none {multi : Bool} {c : Char} (h : escape? multi c = none) :
    c ≠ '\\' ∧ c ≠ '\r' ∧ (isPlain c = true ∨ multi = true ∧ c = '\n') := by
  unfold escape? at h
  split at h
  · simp at h
  · simp at h
  · cases multi with
    | true => exact ⟨by decide, by decide, .inr ⟨rfl, rfl⟩⟩
    | false => simp at h
  · simp at h
  · simp at h
  · simp at h
  · rename_i htab hline hff hcr hback
    split at h
    · simp at h
    · rename_i hc
      exact ⟨hback, hcr, .inl (isPlain_of_not_control (by simpa using hc) hline)⟩

theorem ne_of_unescape? {c d : Char} (h : unescape? d = some c) :
    d ≠ 'u' ∧ d ≠ 'U' ∧ ∀ rest, endsLine (d :: rest) = false := by
  unfold unescape? at h
  split at h <;> simp_all [endsLine, skipBlanks, isBlank]

theorem takes_basic_letter {c d : Char} (h : unescape? d = some c) : Takes basic c ['\\', d] := by
  intro rest
  obtain ⟨hu, hU, -⟩ := ne_of_unescape? h
  simp [basic, hu, hU, h]

theorem takes_basic_point {w x y z c : Char} (h : hexChar? [w, x, y, z] = some c) :
    Takes basic c ['\\', 'u', w, x, y, z] := by
  intro rest
  simp [basic, h]

theorem takes_multiBasic_letter {c d : Char} (h : unescape? d = some c) :
    Takes (multiBasic false) c ['\\', d] := by
  intro rest
  obtain ⟨hu, hU, hline⟩ := ne_of_unescape? h
  simp [multiBasic, hu, hU, h, hline]

theorem takes_multiBasic_point {w x y z c : Char} (h : hexChar? [w, x, y, z] = some c) :
    Takes (multiBasic false) c ['\\', 'u', w, x, y, z] := by
  intro rest
  simp [multiBasic, h]

/-! ### Characters as they are -/

theorem takes_basic_plain {c : Char} (h : isPlain c = true) (hq : c ≠ '"') (hb : c ≠ '\\') :
    Takes basic c [c] := by
  intro rest
  simp [basic, h, hb]

theorem takes_multiBasic_plain {c : Char} (h : isPlain c = true ∨ c = '\n') (hq : c ≠ '"')
    (hb : c ≠ '\\') (hr : c ≠ '\r') : Takes (multiBasic false) c [c] := by
  intro rest
  simp [multiBasic, h, hq, hb, hr]

theorem takes_literal_plain {c : Char} (h : isPlain c = true) (hq : c ≠ '\'') :
    Takes literal c [c] := by
  intro rest
  simp [literal, h]

theorem takes_multiLiteral_plain {c : Char} (h : isPlain c = true ∨ c = '\n') (hq : c ≠ '\'')
    (hr : c ≠ '\r') : Takes multiLiteral c [c] := by
  intro rest
  simp [multiLiteral, h, hq, hr]

/-! ### Quotes at the end -/

/-- Content of a form with three quotes: text, and what is written for it. Quotes may stand as they
are, but no three of them in a row; the number is that of the quotes just in front. -/
inductive Content (f : QuoteReader) (q : Char) : Nat → List Char → List Char → Prop where
  | nil {n : Nat} : Content f q n [] []
  | quote {n : Nat} {s t : List Char} (hn : n < 2) (h : Content f q (n + 1) s t) :
      Content f q n (q :: s) (q :: t)
  | other {n : Nat} {c : Char} {e s t : List Char} (he : Takes f c e)
      (hq : ∃ d r, e = d :: r ∧ d ≠ q) (h : Content f q 0 s t) : Content f q n (c :: s) (e ++ t)

/-- A reader of a form with three quotes, at a quote. -/
structure ReadsTriple (f : QuoteReader) (q : Char) : Prop where
  single : ∀ t, ¬[q, q] <+: t → f (q :: t) = (f t).bind fun p => some (q :: p.1, p.2)
  none : ∀ rest, rest.head? ≠ some q → f (q :: q :: q :: rest) = some ([], rest)
  one : ∀ rest, rest.head? ≠ some q → f (q :: q :: q :: q :: rest) = some ([q], rest)
  two : ∀ rest, rest.head? ≠ some q → f (q :: q :: q :: q :: q :: rest) = some ([q, q], rest)

theorem ReadsTriple.content {f : QuoteReader} {q : Char} (hf : ReadsTriple f q) {n : Nat}
    {s t rest : List Char} (h : Content f q n s t) (hr : rest.head? ≠ some q) :
    f (t ++ q :: q :: q :: rest) = some (s, rest) := by
  induction h with
  | nil => exact hf.none rest hr
  | @other n c e s t he hq h ih =>
    rw [List.append_assoc, he, ih]
    rfl
  | @quote n s t hn h ih =>
    cases h with
    | nil => exact hf.one rest hr
    | other he hq h =>
      obtain ⟨d, r, rfl, hd⟩ := hq
      rw [List.cons_append, hf.single _ (by simp [Ne.symm hd]), ih]
      rfl
    | quote hn' h =>
      cases h with
      | nil => exact hf.two rest hr
      | quote hn'' h => omega
      | other he hq h =>
        obtain ⟨d, r, rfl, hd⟩ := hq
        rw [List.cons_append, hf.single _ (by simp [Ne.symm hd]), ih]
        rfl

theorem readsTriple_multiBasic : ReadsTriple (multiBasic false) '"' where
  single t h := by
    have hne : ∀ u, t ≠ '"' :: '"' :: u := by
      rintro u rfl
      exact h (by simp)
    simp [multiBasic, isPlain, hne]
  none rest hr := by
    cases rest with
    | nil => simp [multiBasic]
    | cons c rest =>
      have hc : c ≠ '"' := by simpa using hr
      simp [multiBasic, hc]
  one rest hr := by
    cases rest with
    | nil => simp [multiBasic]
    | cons c rest =>
      have hc : c ≠ '"' := by simpa using hr
      simp [multiBasic, hc]
  two rest hr := by simp [multiBasic]

theorem readsTriple_multiLiteral : ReadsTriple multiLiteral '\'' where
  single t h := by
    have hne : ∀ u, t ≠ '\'' :: '\'' :: u := by
      rintro u rfl
      exact h (by simp)
    simp [multiLiteral, isPlain, hne]
  none rest hr := by
    cases rest with
    | nil => simp [multiLiteral]
    | cons c rest =>
      have hc : c ≠ '\'' := by simpa using hr
      simp [multiLiteral, hc]
  one rest hr := by
    cases rest with
    | nil => simp [multiLiteral]
    | cons c rest =>
      have hc : c ≠ '\'' := by simpa using hr
      simp [multiLiteral, hc]
  two rest hr := by simp [multiLiteral]

/-! ### The four forms -/

theorem takes_basic_escape {multi : Bool} {c : Char} {e : List Char}
    (h : escape? multi c = some e) : Takes basic c e := by
  obtain ⟨d, hd, rfl⟩ | ⟨w, x, y, z, hx, rfl⟩ := escape?_cases h
  · exact takes_basic_letter hd
  · exact takes_basic_point hx

theorem takes_multiBasic_escape {multi : Bool} {c : Char} {e : List Char}
    (h : escape? multi c = some e) : Takes (multiBasic false) c e := by
  obtain ⟨d, hd, rfl⟩ | ⟨w, x, y, z, hx, rfl⟩ := escape?_cases h
  · exact takes_multiBasic_letter hd
  · exact takes_multiBasic_point hx

theorem escape?_start {multi : Bool} {c : Char} {e : List Char} (h : escape? multi c = some e) :
    ∃ r, e = '\\' :: r := by
  obtain ⟨d, -, rfl⟩ | ⟨w, x, y, z, -, rfl⟩ := escape?_cases h
  · exact ⟨_, rfl⟩
  · exact ⟨_, rfl⟩

theorem basic_escaped (s rest : List Char) (n : Nat) :
    basic (escaped false n s ++ '"' :: rest) = some (s, rest) := by
  induction s generalizing n with
  | nil => rfl
  | cons c s ih =>
    by_cases hc : c = '"'
    · subst hc
      have htake := takes_basic_letter (rfl : unescape? '"' = some '"')
        (escaped false 0 s ++ '"' :: rest)
      simpa [escaped, ih] using htake
    · cases he : escape? false c with
      | some e =>
        have htake := takes_basic_escape he (escaped false 0 s ++ '"' :: rest)
        simpa [escaped, hc, he, ih] using htake
      | none =>
        obtain ⟨hback, -, hplain | ⟨hmulti, -⟩⟩ := escape?_eq_none he
        · have htake := takes_basic_plain hplain hc hback (escaped false 0 s ++ '"' :: rest)
          simpa [escaped, hc, he, ih] using htake
        · exact absurd hmulti (by decide)

theorem literal_plain {s : List Char} (rest : List Char)
    (h : ∀ c ∈ s, isPlain c = true ∧ c ≠ '\'') : literal (s ++ '\'' :: rest) = some (s, rest) := by
  induction s with
  | nil => rfl
  | cons c s ih =>
    obtain ⟨⟨hc, hq⟩, hs⟩ := List.forall_mem_cons.1 h
    have htake := takes_literal_plain hc hq (s ++ '\'' :: rest)
    simpa [ih hs] using htake

theorem content_escaped (s : List Char) {n : Nat} (hn : n ≤ 2) :
    Content (multiBasic false) '"' n s (escaped true n s) := by
  induction s generalizing n with
  | nil => exact .nil
  | cons c s ih =>
    have hrest := ih (Nat.zero_le 2)
    by_cases hc : c = '"'
    · subst hc
      by_cases hlt : n < 2
      · simpa [escaped, hlt] using (ih (by omega : n + 1 ≤ 2)).quote hlt
      · have hquote : unescape? '"' = some '"' := rfl
        have h := hrest.other (n := n) (takes_multiBasic_letter hquote) ⟨'\\', _, rfl, by decide⟩
        simpa [escaped, hlt] using h
    · cases he : escape? true c with
      | some e =>
        obtain ⟨r, hr⟩ := escape?_start he
        have h := hrest.other (n := n) (takes_multiBasic_escape he) ⟨'\\', r, hr, by decide⟩
        simpa [escaped, hc, he] using h
      | none =>
        obtain ⟨hback, hcr, hplain⟩ := escape?_eq_none he
        have htake := takes_multiBasic_plain (hplain.imp_right And.right) hc hback hcr
        have h := hrest.other (n := n) htake ⟨c, [], rfl, hc⟩
        simpa [escaped, hc, he] using h

theorem le_longestRun (q : Char) (n : Nat) (s : List Char) : n ≤ longestRun q n s := by
  induction s generalizing n with
  | nil => exact Nat.le_refl n
  | cons c s ih =>
    rw [longestRun]
    split
    · have h := ih (n + 1)
      omega
    · omega

theorem content_multiLiteral {s : List Char} {n : Nat} (hctl : hasControl s = false)
    (h : longestRun '\'' n s ≤ 2) : Content multiLiteral '\'' n s s := by
  induction s generalizing n with
  | nil => exact .nil
  | cons c s ih =>
    obtain ⟨hc, hs⟩ : isControl c = false ∧ hasControl s = false := by
      simpa [hasControl] using hctl
    rw [longestRun] at h
    by_cases hq : c = '\''
    · subst hq
      rw [if_pos rfl] at h
      have hle := le_longestRun '\'' (n + 1) s
      exact (ih hs h).quote (by omega)
    · rw [if_neg hq] at h
      have hcr : c ≠ '\r' := by
        rintro rfl
        exact absurd hc (by decide)
      have hplain : isPlain c = true ∨ c = '\n' := by
        by_cases hline : c = '\n'
        · exact .inr hline
        · exact .inl (isPlain_of_not_control hc hline)
      exact (ih hs (by omega)).other (takes_multiLiteral_plain hplain hq hcr) ⟨c, [], rfl, hq⟩

/-! ### Written text -/

theorem dropFirstLineEnd_of_head {t : List Char} (h : ∀ c ∈ t.head?, c ≠ '\n' ∧ c ≠ '\r') :
    dropFirstLineEnd t = t := by
  cases t with
  | nil => rfl
  | cons c t =>
    obtain ⟨hline, hcr⟩ := h c rfl
    simp [dropFirstLineEnd, hline, hcr]

/-- Escaped text starts with a line end only where the text has one. -/
theorem head_escaped {s : List Char} {c : Char} (h : c ∈ (escaped true 0 s).head?) :
    c ≠ '\r' ∧ (c = '\n' → hasLineEnd s = true) := by
  cases s with
  | nil => simp [escaped] at h
  | cons d s =>
    by_cases hd : d = '"'
    · obtain rfl : '"' = c := by simpa [escaped, hd] using h
      exact ⟨by decide, fun hline => absurd hline (by decide)⟩
    · cases he : escape? true d with
      | some e =>
        obtain ⟨r, rfl⟩ := escape?_start he
        obtain rfl : '\\' = c := by simpa [escaped, hd, he] using h
        exact ⟨by decide, fun hline => absurd hline (by decide)⟩
      | none =>
        obtain ⟨-, hcr, -⟩ := escape?_eq_none he
        obtain rfl : d = c := by simpa [escaped, hd, he] using h
        exact ⟨hcr, by rintro rfl; simp [hasLineEnd]⟩

/-- The forms without escapes are only taken for text that they hold. -/
theorem holds_of_quoting {s : List Char} {q : Quoting} (h : quoting s = q)
    (hq : q = .literal ∨ q = .multiLiteral) : q.holds s = true := by
  rw [quoting] at h
  cases hfind : [Quoting.basic, .literal, .multiBasic, .multiLiteral].find? (·.holds s) with
  | some p =>
    obtain rfl : p = q := by simpa [hfind] using h
    simpa using List.find?_some hfind
  | none =>
    rw [hfind, Option.getD_none] at h
    split at h <;> subst h <;> simp at hq

/-- Text over several lines starts on a line of its own, and no other text starts with a line
end. -/
theorem dropFirstLineEnd_start {s t : List Char}
    (h : ∀ c ∈ t.head?, c ≠ '\r' ∧ (c = '\n' → hasLineEnd s = true)) :
    dropFirstLineEnd ((if hasLineEnd s then ['\n'] else []) ++ t) = t := by
  cases hline : hasLineEnd s with
  | true => rfl
  | false =>
    apply dropFirstLineEnd_of_head
    intro c hc
    obtain ⟨hcr, hn⟩ := h c (by simpa using hc)
    exact ⟨fun e => absurd (hn e) (by simp [hline]), hcr⟩

theorem head?_append_cons {α : Type} {a c : α} {s t : List α} (h : c ∈ (s ++ a :: t).head?) :
    c ∈ s.head? ∨ c = a := by
  cases s with
  | nil => exact .inr (by simpa [eq_comm] using h)
  | cons b s => exact .inl (by simpa using h)

theorem not_two_quotes {q : Char} {s rest : List Char} (hs : s.head? ≠ some q)
    (hr : rest.head? ≠ some q) : ¬[q, q] <+: s ++ q :: rest := by
  cases s with
  | nil =>
    cases rest with
    | nil => simp
    | cons c rest => simpa [eq_comm] using hr
  | cons c s =>
    have hc : q ≠ c := by simpa [eq_comm] using hs
    simp [hc]

theorem string_of_basic {t : List Char} (h : ¬['"', '"'] <+: t) :
    Lexeme.string ('"' :: t) = basic t := by
  have hne : ∀ u, t ≠ '"' :: '"' :: u := by
    rintro u rfl
    exact h (by simp)
  simp [Lexeme.string]

theorem string_of_literal {t : List Char} (h : ¬['\'', '\''] <+: t) :
    Lexeme.string ('\'' :: t) = literal t := by
  have hne : ∀ u, t ≠ '\'' :: '\'' :: u := by
    rintro u rfl
    exact h (by simp)
  simp [Lexeme.string]

theorem head_escaped_basic (s : List Char) : (escaped false 0 s).head? ≠ some '"' := by
  cases s with
  | nil => simp [escaped]
  | cons c s =>
    by_cases hc : c = '"'
    · simp [escaped, hc]
    · cases he : escape? false c with
      | some e =>
        obtain ⟨r, rfl⟩ := escape?_start he
        simp [escaped, hc, he]
      | none => simp [escaped, hc, he]

/-- Every text is read back from its quoted form. -/
theorem string_render (s : List Char) {rest : List Char}
    (hr : ∀ c ∈ rest.head?, c ≠ '"' ∧ c ≠ '\'') :
    Lexeme.string (render s ++ rest) = some (s, rest) := by
  have hdouble : rest.head? ≠ some '"' := fun h => (hr _ h).1 rfl
  have hsingle : rest.head? ≠ some '\'' := fun h => (hr _ h).2 rfl
  cases hq : quoting s with
  | basic =>
    have htext : render s ++ rest = '"' :: (escaped false 0 s ++ '"' :: rest) := by
      simp [render, hq, Quoting.isMulti, Quoting.delimiter, content]
    rw [htext, string_of_basic (not_two_quotes (head_escaped_basic s) hdouble), basic_escaped]
  | literal =>
    have htext : render s ++ rest = '\'' :: (s ++ '\'' :: rest) := by
      simp [render, hq, Quoting.isMulti, Quoting.delimiter, content]
    have hholds := holds_of_quoting hq (.inl rfl)
    simp only [Quoting.holds, Bool.and_eq_true, Bool.not_eq_true', hasControl, hasLineEnd,
      List.any_eq_false, List.contains_eq_mem, decide_eq_false_iff_not] at hholds
    obtain ⟨hctl, hquote, hline⟩ := hholds
    have hplain : ∀ c ∈ s, isPlain c = true ∧ c ≠ '\'' := by
      intro c hc
      refine ⟨isPlain_of_not_control (by simpa using hctl c hc) ?_, ?_⟩
      · rintro rfl
        exact hline hc
      · rintro rfl
        exact hquote hc
    have hhead : s.head? ≠ some '\'' := fun h => hquote (List.mem_of_head? h)
    rw [htext, string_of_literal (not_two_quotes hhead hsingle), literal_plain rest hplain]
  | multiBasic =>
    have htext : render s ++ rest = '"' :: '"' :: '"' :: ((if hasLineEnd s then ['\n'] else []) ++
        (escaped true 0 s ++ '"' :: '"' :: '"' :: rest)) := by
      simp [render, hq, Quoting.isMulti, Quoting.delimiter, content]
    have hdrop := dropFirstLineEnd_start (s := s)
      (t := escaped true 0 s ++ '"' :: '"' :: '"' :: rest) (by
        intro c hc
        rcases head?_append_cons hc with h | rfl
        · exact head_escaped h
        · exact ⟨by decide, fun h => absurd h (by decide)⟩)
    rw [htext, Lexeme.string, hdrop,
      readsTriple_multiBasic.content (content_escaped s (Nat.zero_le 2)) hdouble]
  | multiLiteral =>
    have htext : render s ++ rest = '\'' :: '\'' :: '\'' ::
        ((if hasLineEnd s then ['\n'] else []) ++ (s ++ '\'' :: '\'' :: '\'' :: rest)) := by
      simp [render, hq, Quoting.isMulti, Quoting.delimiter, content]
    have hholds := holds_of_quoting hq (.inr rfl)
    simp only [Quoting.holds, Bool.and_eq_true, Bool.not_eq_true', decide_eq_true_eq] at hholds
    obtain ⟨hctl, hrun⟩ := hholds
    have hdrop := dropFirstLineEnd_start (s := s) (t := s ++ '\'' :: '\'' :: '\'' :: rest) (by
      intro c hc
      rcases head?_append_cons hc with h | rfl
      · refine ⟨?_, ?_⟩
        · rintro rfl
          exact absurd (List.any_eq_false.1 hctl _ (List.mem_of_head? h)) (by decide)
        · rintro rfl
          simpa [hasLineEnd] using List.mem_of_head? h
      · exact ⟨by decide, fun h => absurd h (by decide)⟩)
    rw [htext, Lexeme.string, hdrop, readsTriple_multiLiteral.content
      (content_multiLiteral hctl hrun) hsingle]

end ResourceApi.Toml
