import ResourceApi.Proofs.Filter.Clause

/-!
The written form of filters, character by character: clauses joined by the word `and`, each of them
one comparison or at least two clauses in parentheses joined by the word `or`. One blank stands on
either side of a word, and a column is any word. Nothing here looks at how a filter is compiled, and
unlike the reader this form knows no other white space.
-/

namespace ResourceApi.Filter

open Text

/-- What may stand between the quotes of a literal: a quote only as one of two. -/
inductive IsQuotable : List Char → Prop where
  | nil : IsQuotable []
  | char {c : Char} {s : List Char} (hc : c ≠ '\'') (h : IsQuotable s) : IsQuotable (c :: s)
  | quotes {s : List Char} (h : IsQuotable s) : IsQuotable ('\'' :: '\'' :: s)

inductive IsLiteral : List Char → Prop where
  | quoted {s : List Char} (h : IsQuotable s) : IsLiteral ('\'' :: s ++ ['\''])
  | number {s : List Char} (h : Decimal.IsPositional s) : IsLiteral s
  | true : IsLiteral "true".toList
  | false : IsLiteral "false".toList

inductive Phrase where
  | clause | alternatives | filter
  deriving DecidableEq, Repr

/-- The texts that the grammar derives. -/
inductive Phrase.Spells : Phrase → List Char → Prop where
  | comparison {column literal : List Char} {op : Operator} (hc : IsWord column) (ho : op ≠ .in)
      (hl : IsLiteral literal) :
      Spells .clause (column ++ ' ' :: op.name.toList ++ ' ' :: literal)
  | group {s t : List Char} (h : Spells .clause s) (h' : Spells .alternatives t) :
      Spells .clause ('(' :: (s ++ orWord ++ t) ++ [')'])
  | last {s : List Char} (h : Spells .clause s) : Spells .alternatives s
  | or {s t : List Char} (h : Spells .clause s) (h' : Spells .alternatives t) :
      Spells .alternatives (s ++ orWord ++ t)
  | lone {s : List Char} (h : Spells .clause s) : Spells .filter s
  | and {s t : List Char} (h : Spells .clause s) (h' : Spells .filter t) :
      Spells .filter (s ++ andWord ++ t)

/-! ### Where words and literals end -/

/-- A stretch of characters of one kind, in front of a character of no such kind or of nothing. -/
theorem stretch_inj {p : Char → Bool} {s t u v : List Char} (hs : ∀ c ∈ s, p c = true)
    (ht : ∀ c ∈ t, p c = true) (hu : ∀ c ∈ u.head?, p c = false)
    (hv : ∀ c ∈ v.head?, p c = false) (h : s ++ u = t ++ v) : s = t ∧ u = v := by
  have hspan : ∀ {x y : List Char}, (∀ c ∈ x, p c = true) → (∀ c ∈ y.head?, p c = false) →
      (x ++ y).takeWhile p = x := by
    intro x y hx hy
    rw [List.takeWhile_append_of_pos hx]
    cases y with
    | nil => simp
    | cons c y => simp [hy c rfl]
  obtain rfl : s = t := by rw [← hspan hs hu, h, hspan ht hv]
  exact ⟨rfl, List.append_cancel_left h⟩

/-- The part of a text in front of its first blank. -/
theorem blank_inj {s t u v : List Char} (hs : ' ' ∉ s) (ht : ' ' ∉ t)
    (h : s ++ ' ' :: u = t ++ ' ' :: v) : s = t ∧ u = v := by
  have hmem : ∀ {x : List Char}, ' ' ∉ x → ∀ c ∈ x, (c != ' ') = true := by
    rintro x hx c hc
    have hne : c ≠ ' ' := fun e => hx (e ▸ hc)
    simpa using hne
  obtain ⟨hst, huv⟩ := stretch_inj (hmem hs) (hmem ht) (by simp) (by simp) h
  exact ⟨hst, (List.cons.inj huv).2⟩

theorem blank_notMem {s : List Char} (h : IsWord s) : ' ' ∉ s := fun hc =>
  absurd (h.2 ' ' hc) (by decide)

theorem isQuotable_doubleQuotes (s : List Char) : IsQuotable (doubleQuotes s) := by
  induction s with
  | nil => exact .nil
  | cons c s ih =>
    by_cases hc : c = '\''
    · simpa [doubleQuotes, hc] using ih.quotes
    · simpa [doubleQuotes, hc] using ih.char hc

/-- A text in quotes ends at the first quote that is not doubled. -/
theorem IsQuotable.append_inj {s t u v : List Char} (hs : IsQuotable s) (ht : IsQuotable t)
    (hu : u.head? ≠ some '\'') (hv : v.head? ≠ some '\'')
    (h : s ++ '\'' :: u = t ++ '\'' :: v) : s = t ∧ u = v := by
  induction hs generalizing t with
  | nil =>
    cases ht with
    | nil => exact ⟨rfl, by simpa using h⟩
    | char hc ht => exact absurd (List.cons.inj h).1.symm hc
    | quotes ht =>
      obtain rfl : u = '\'' :: (_ ++ '\'' :: v) := (List.cons.inj h).2
      simp at hu
  | char hc hs ih =>
    cases ht with
    | nil => exact absurd (List.cons.inj h).1 hc
    | char hd ht =>
      obtain ⟨rfl, htail⟩ := List.cons.inj h
      obtain ⟨rfl, rfl⟩ := ih ht htail
      exact ⟨rfl, rfl⟩
    | quotes ht => exact absurd (List.cons.inj h).1 hc
  | quotes hs ih =>
    cases ht with
    | nil =>
      obtain rfl : '\'' :: (_ ++ '\'' :: u) = v := (List.cons.inj h).2
      simp at hv
    | char hd ht => exact absurd (List.cons.inj h).1.symm hd
    | quotes ht =>
      obtain ⟨rfl, rfl⟩ := ih ht (by simpa using h)
      exact ⟨rfl, rfl⟩

/-- What follows a literal is no part of it. -/
def Stops (s : List Char) : Prop := ∀ c ∈ s.head?, isWordChar c = false ∧ c ≠ '\''

theorem IsLiteral.quoted_or_word {s : List Char} (h : IsLiteral s) :
    (∃ t, IsQuotable t ∧ s = '\'' :: t ++ ['\'']) ∨ IsWord s := by
  cases h with
  | quoted h => exact .inl ⟨_, h, rfl⟩
  | number h => exact .inr (isWord_of_isPositional h)
  | true => exact .inr (by decide)
  | false => exact .inr (by decide)

theorem IsWord.ne_quoted {s t u v : List Char} (h : IsWord s) : s ++ u ≠ '\'' :: t ++ v := by
  obtain ⟨hne, hw⟩ := h
  intro heq
  cases s with
  | nil => exact hne rfl
  | cons c s =>
    obtain ⟨rfl, -⟩ := List.cons.inj heq
    exact absurd (hw '\'' List.mem_cons_self) (by decide)

/-- A literal is found again in front of what stops it. -/
theorem IsLiteral.append_inj {s t u v : List Char} (hs : IsLiteral s) (ht : IsLiteral t)
    (hu : Stops u) (hv : Stops v) (h : s ++ u = t ++ v) : s = t ∧ u = v := by
  have hquote : ∀ {x : List Char}, Stops x → x.head? ≠ some '\'' := fun hx hq => (hx _ hq).2 rfl
  rcases hs.quoted_or_word with ⟨x, hx, rfl⟩ | hsw <;>
    rcases ht.quoted_or_word with ⟨y, hy, rfl⟩ | htw
  · have hxy : x ++ '\'' :: u = y ++ '\'' :: v := by simpa using h
    obtain ⟨rfl, rfl⟩ := hx.append_inj hy (hquote hu) (hquote hv) hxy
    exact ⟨rfl, rfl⟩
  · exact absurd h.symm (by simpa using htw.ne_quoted)
  · exact absurd h (by simpa using hsw.ne_quoted)
  · exact stretch_inj hsw.2 htw.2 (fun c hc => (hu c hc).1) (fun c hc => (hv c hc).1) h

/-! ### What is left of a derived text -/

/-- Places at which a filter can be cut. -/
inductive Place where
  | front | back
  deriving DecidableEq, Repr

/-- What may be left of a filter in front of a clause or behind one, with so many parentheses open.
The number of alternatives between two parentheses does not matter here. -/
inductive Remains : Place → Nat → List Char → Prop where
  | opening {n : Nat} {s : List Char} (h : Remains .front (n + 1) s) : Remains .front n ('(' :: s)
  | comparison {n : Nat} {column literal s : List Char} {op : Operator} (hc : IsWord column)
      (hl : IsLiteral literal) (h : Remains .back n s) :
      Remains .front n (column ++ ' ' :: op.name.toList ++ ' ' :: literal ++ s)
  | closing {n : Nat} {s : List Char} (h : Remains .back n s) : Remains .back (n + 1) (')' :: s)
  | or {n : Nat} {s : List Char} (h : Remains .front (n + 1) s) :
      Remains .back (n + 1) (orWord ++ s)
  | and {s : List Char} (h : Remains .front 0 s) : Remains .back 0 (andWord ++ s)
  | done : Remains .back 0 []

/-- What a derived text leaves to what follows it. -/
def Phrase.Leaves (s : List Char) : Phrase → Prop
  | .clause => ∀ n t, Remains .back n t → Remains .front n (s ++ t)
  | .alternatives => ∀ n t, Remains .back (n + 1) t → Remains .front (n + 1) (s ++ t)
  | .filter => Remains .front 0 s

theorem leaves_of_spells {p : Phrase} {s : List Char} (h : p.Spells s) : p.Leaves s := by
  induction h with
  | comparison hc ho hl =>
    intro n t ht
    exact .comparison hc hl ht
  | @group s u _ _ ih ih' =>
    intro n t ht
    have hinner := ih (n + 1) _ (.or (ih' n _ (.closing ht)))
    have heq : '(' :: (s ++ orWord ++ u) ++ [')'] ++ t =
        '(' :: (s ++ (orWord ++ (u ++ ')' :: t))) := by
      simp
    rw [heq]
    exact .opening hinner
  | last _ ih => exact fun n t ht => ih (n + 1) t ht
  | @or s u _ _ ih ih' =>
    intro n t ht
    have heq : s ++ orWord ++ u ++ t = s ++ (orWord ++ (u ++ t)) := by simp
    rw [heq]
    exact ih (n + 1) _ (.or (ih' n t ht))
  | @lone s _ ih =>
    have hend := ih 0 [] .done
    rwa [List.append_nil] at hend
  | @and s u _ _ ih ih' =>
    have heq : s ++ andWord ++ u = s ++ (andWord ++ u) := by simp
    rw [Phrase.Leaves, heq]
    exact ih 0 _ (.and ih')

theorem Remains.stops {n : Nat} {s : List Char} (h : Remains .back n s) : Stops s := by
  cases h with
  | closing | or | and =>
    intro c hc
    obtain rfl := Option.some.inj hc
    decide
  | done => simp [Stops]

theorem blank_notMem_name (op : Operator) : ' ' ∉ op.name.toList := by
  cases op <;> decide

/-- In front of a comparison every character of the column that belongs to no word opens a
parenthesis. -/
theorem Remains.behind {column literal s : List Char} {op : Operator} {n : Nat}
    (hcol : ' ' ∉ column) (hl : IsLiteral literal) (hs : Stops s)
    (h : Remains .front n (column ++ ' ' :: op.name.toList ++ ' ' :: literal ++ s)) :
    ∃ k, Remains .back (n + k) s ∧ (k = 0 → IsWord column) := by
  have hassoc : ∀ {column literal s : List Char} {op : Operator},
      column ++ ' ' :: op.name.toList ++ ' ' :: literal ++ s =
        column ++ ' ' :: (op.name.toList ++ ' ' :: (literal ++ s)) := by simp
  rw [hassoc] at h
  induction column generalizing n with
  | nil =>
    generalize htext : [] ++ ' ' :: (op.name.toList ++ ' ' :: (literal ++ s)) = text at h
    cases h with
    | opening h => exact absurd (List.cons.inj htext).1 (by decide)
    | comparison hc' hl' h =>
      rw [hassoc] at htext
      obtain ⟨hnil, -⟩ := blank_inj hcol (blank_notMem hc') htext
      exact absurd hnil.symm hc'.1
  | cons c column ih =>
    generalize htext : (c :: column) ++ ' ' :: (op.name.toList ++ ' ' :: (literal ++ s)) = text at h
    cases h with
    | opening h =>
      obtain ⟨rfl, rfl⟩ := List.cons.inj htext
      obtain ⟨k, hk, -⟩ := ih (fun hc => hcol (List.mem_cons_of_mem _ hc)) h
      exact ⟨k + 1, by rwa [← Nat.add_assoc, Nat.add_right_comm], by simp⟩
    | comparison hc' hl' h =>
      rw [hassoc] at htext
      obtain ⟨hc, hrest⟩ := blank_inj hcol (blank_notMem hc') htext
      obtain ⟨-, hrest⟩ := blank_inj (blank_notMem_name _) (blank_notMem_name _) hrest
      obtain ⟨-, rfl⟩ := hl.append_inj hl' hs h.stops hrest
      exact ⟨0, h, fun _ => hc ▸ hc'⟩

end ResourceApi.Filter
