import ResourceApi.Filter.Compile

/-!
Literals in quotes, read off the front of a text. The reading knows only that two quotes stand for
one and that a quote which is not doubled is the last: it is exact for what is written, whatever
quotes the content holds at its ends, and it stops in front of whatever follows but one more quote.
-/

namespace ResourceApi.Filter

/-- Reads on inside a literal, up to the first quote that is not doubled: the content from there
on, and what follows the literal. -/
def readContent? : List Char → Option (List Char × List Char)
  | [] => none
  | '\'' :: '\'' :: rest => (readContent? rest).map fun read => ('\'' :: read.1, read.2)
  | '\'' :: rest => some ([], rest)
  | c :: rest => (readContent? rest).map fun read => (c :: read.1, read.2)

/-- Reads a literal in quotes off the front of a text. -/
def readQuoted? : List Char → Option (List Char × List Char)
  | '\'' :: rest => readContent? rest
  | _ => none

/-- The text `l` is the literal of a content: in front of what does not start with one more quote it
reads as the content, and nothing else does. -/
def IsLiteralOf (content l : List Char) : Prop :=
  ∀ text rest, readQuoted? text = some (content, rest) ↔
    text = l ++ rest ∧ rest.head? ≠ some '\''

@[simp] theorem readContent?_quotes (rest : List Char) :
    readContent? ('\'' :: '\'' :: rest) =
      (readContent? rest).map fun read => ('\'' :: read.1, read.2) := by
  rw [readContent?]

theorem readContent?_last {rest : List Char} (h : rest.head? ≠ some '\'') :
    readContent? ('\'' :: rest) = some ([], rest) := by
  rw [readContent?]
  rintro more rfl
  exact h rfl

theorem readContent?_char {c : Char} (hc : c ≠ '\'') (rest : List Char) :
    readContent? (c :: rest) = (readContent? rest).map fun read => (c :: read.1, read.2) := by
  rw [readContent?]
  · exact fun _ heq _ => hc heq
  · exact hc

@[simp] theorem readQuoted?_quote (rest : List Char) :
    readQuoted? ('\'' :: rest) = readContent? rest := rfl

/-- Quotes are taken in pairs, so that of a run of them the reading ends at the last one if and only
if their number is odd. -/
theorem readContent?_doubleQuotes (s : List Char) {rest : List Char}
    (h : rest.head? ≠ some '\'') :
    readContent? (doubleQuotes s ++ '\'' :: rest) = some (s, rest) := by
  induction s with
  | nil => exact readContent?_last h
  | cons c s ih =>
    by_cases hc : c = '\''
    · subst hc
      simp [doubleQuotes, ih]
    · simp [doubleQuotes, hc, readContent?_char hc, ih]

theorem exists_of_map_cons {read? : Option (List Char × List Char)} {c : Char}
    {s rest : List Char} (h : (read?.map fun read => (c :: read.1, read.2)) = some (s, rest)) :
    ∃ u, s = c :: u ∧ read? = some (u, rest) := by
  obtain ⟨⟨u, v⟩, hread, heq⟩ := Option.map_eq_some_iff.1 h
  obtain ⟨rfl, rfl⟩ := Prod.mk.inj heq
  exact ⟨u, rfl, hread⟩

theorem eq_of_readContent? {text s rest : List Char} (h : readContent? text = some (s, rest)) :
    text = doubleQuotes s ++ '\'' :: rest ∧ rest.head? ≠ some '\'' := by
  fun_induction readContent? text generalizing s with
  | case1 => cases h
  | case2 more ih =>
    obtain ⟨u, rfl, hread⟩ := exists_of_map_cons h
    obtain ⟨rfl, hrest⟩ := ih hread
    exact ⟨by simp [doubleQuotes], hrest⟩
  | case3 more hlast =>
    obtain ⟨rfl, rfl⟩ := Prod.mk.inj (Option.some.inj h)
    refine ⟨rfl, fun hhead => ?_⟩
    obtain ⟨tail, rfl⟩ := List.head?_eq_some_iff.1 hhead
    exact hlast tail rfl
  | case4 c more _ hc ih =>
    obtain ⟨u, rfl, hread⟩ := exists_of_map_cons h
    obtain ⟨rfl, hrest⟩ := ih hread
    have hne : c ≠ '\'' := hc
    exact ⟨by simp [doubleQuotes, hne], hrest⟩

theorem isLiteralOf_quoted (s : List Char) : IsLiteralOf s (Literal.quoted s).render := by
  intro text rest
  constructor
  · intro h
    cases text with
    | nil => cases h
    | cons c more =>
      by_cases hc : c = '\''
      · subst hc
        obtain ⟨rfl, hrest⟩ := eq_of_readContent? h
        exact ⟨by simp [Literal.render], hrest⟩
      · simp [readQuoted?, hc] at h
  · rintro ⟨rfl, hrest⟩
    have hread := readContent?_doubleQuotes s hrest
    simpa [Literal.render] using hread

/-- Literals of different contents differ, also in front of what follows them. -/
theorem IsLiteralOf.append_inj {s s' l l' rest rest' : List Char} (h : IsLiteralOf s l)
    (h' : IsLiteralOf s' l') (hrest : rest.head? ≠ some '\'') (hrest' : rest'.head? ≠ some '\'')
    (heq : l ++ rest = l' ++ rest') : s = s' ∧ rest = rest' := by
  have hread : readQuoted? (l ++ rest) = some (s, rest) := (h _ _).2 ⟨rfl, hrest⟩
  have hread' : readQuoted? (l ++ rest) = some (s', rest') := (h' _ _).2 ⟨heq, hrest'⟩
  exact Prod.mk.inj (Option.some.inj (hread.symm.trans hread'))

/-- The literals of strings and those of searches are read back from the front of every text that
does not go on with a quote, so none is taken for another or for part of one. -/
theorem string_literals_read_back :
    (∀ s : String, ∃ l, (Scalar.string s).literal? = some l ∧ IsLiteralOf s.toList l.render) ∧
      (∀ field value : String, ∃ l, IsLiteralOf (value.toList ++ ['*']) l ∧
        (wildcard field value).toList = Column.fold field.toList ++ " like ".toList ++ l) ∧
      ∀ s s' l l' : List Char, IsLiteralOf s l → IsLiteralOf s' l' → ∀ rest rest' : List Char,
        rest.head? ≠ some '\'' → rest'.head? ≠ some '\'' → l ++ rest = l' ++ rest' →
          s = s' ∧ rest = rest' := by
  refine ⟨fun s => ⟨.quoted s.toList, rfl, isLiteralOf_quoted s.toList⟩, fun field value => ?_, ?_⟩
  · refine ⟨_, isLiteralOf_quoted (value.toList ++ ['*']), ?_⟩
    simp [wildcard, Comparison.render, Operator.name]
  · intro s s' l l' h h' rest rest' hrest hrest'
    exact h.append_inj h' hrest hrest'

/-- Quotes at both ends of the content and next to the closing one. -/
example : readQuoted? "'''a''''') or 'b'".toList = some ("'a''".toList, ") or 'b'".toList) := by
  decide

end ResourceApi.Filter
