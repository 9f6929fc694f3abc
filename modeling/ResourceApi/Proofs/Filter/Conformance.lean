import ResourceApi.Proofs.Filter.Column
import ResourceApi.Proofs.Filter.Grammar
import ResourceApi.Proofs.Filter.Meaning
import ResourceApi.Proofs.Filter.Origin

/-!
When the text of criteria has the written form of filters. Literals and operators are always as the
form wants them, so everything hangs on the columns: the text is a filter exactly if the name of
every field that asks for something leaves a word. A name without letters leaves a clause that has
no column, and a name may bring white space, quotes and parentheses of its own into the text.
-/

namespace ResourceApi.Filter

/-- Comparisons whose parts, apart from the column, are those of the written form. -/
structure Comparison.IsFormed (c : Comparison) : Prop where
  column : ' ' ∉ c.column
  operator : c.operator ≠ .in
  literal : IsLiteral c.literal.render

/-- Every literal that is written has one of the forms of the grammar. -/
theorem isLiteral_render {x : Scalar} {l : Literal} (h : x.literal? = some l) :
    IsLiteral l.render := by
  cases x with
  | null => simp [Scalar.literal?] at h
  | bool b =>
    obtain rfl := Option.some.inj h
    cases b with
    | false => exact .false
    | true => exact .true
  | int n =>
    obtain rfl := Option.some.inj h
    exact .number (Decimal.isPositional_int n)
  | float x =>
    rw [Scalar.literal?] at h
    split at h
    · rename_i hx
      obtain rfl := Option.some.inj h
      exact .number (Decimal.isPositional_plain hx)
    · simp at h
  | string s | date d | instant t =>
    obtain rfl := Option.some.inj h
    exact .quoted (isQuotable_doubleQuotes _)

theorem isFormed_of_mem_clauses {c : Criteria} {k : Clause} {y : Comparison} (hk : k ∈ clauses c)
    (hy : y ∈ k.alternatives) : y.IsFormed := by
  obtain ⟨field, v, -, hcol, hop, x, -, hl⟩ := of_mem_clauses hk hy
  exact ⟨hcol ▸ blank_notMem_fold field.toList, hop, isLiteral_render hl⟩

/-! ### With words as columns -/

theorem spells_comparison_render {c : Comparison} (h : c.IsFormed) (hc : IsWord c.column) :
    Phrase.clause.Spells c.render :=
  .comparison hc h.operator h.literal

theorem spells_alternatives_render {c : Comparison} {more : List Comparison}
    (h : ∀ d ∈ c :: more, d.IsFormed ∧ IsWord d.column) :
    Phrase.alternatives.Spells (orWord.intercalate ((c :: more).map Comparison.render)) := by
  obtain ⟨hc, hmore⟩ := List.forall_mem_cons.1 h
  have hclause := spells_comparison_render hc.1 hc.2
  induction more generalizing c with
  | nil => simpa using hclause.last
  | cons d more ih =>
    obtain ⟨hd, hrest⟩ := List.forall_mem_cons.1 hmore
    have hend := ih hmore hd hrest (spells_comparison_render hd.1 hd.2)
    simpa [List.intercalate_cons_cons] using hclause.or hend

theorem spells_clause_render {k : Clause} (h : ∀ d ∈ k.alternatives, d.IsFormed ∧ IsWord d.column) :
    Phrase.clause.Spells k.render := by
  cases k with
  | one c =>
    obtain ⟨hc, hword⟩ := h c List.mem_cons_self
    exact spells_comparison_render hc hword
  | anyOf c d more =>
    obtain ⟨hc, hmore⟩ := List.forall_mem_cons.1 h
    have hgroup := (spells_comparison_render hc.1 hc.2).group (spells_alternatives_render hmore)
    simpa [Clause.render, List.intercalate_cons_cons] using hgroup

/-- Formed clauses with words for columns are a filter of the grammar. -/
theorem spells_filter_render {k : Clause} {more : List Clause}
    (h : ∀ k' ∈ k :: more, ∀ d ∈ k'.alternatives, d.IsFormed ∧ IsWord d.column) :
    Phrase.filter.Spells (andWord.intercalate ((k :: more).map Clause.render)) := by
  obtain ⟨hk, hmore⟩ := List.forall_mem_cons.1 h
  have hclause := spells_clause_render hk
  induction more generalizing k with
  | nil => simpa using hclause.lone
  | cons k' more ih =>
    obtain ⟨hk', hrest⟩ := List.forall_mem_cons.1 hmore
    have hend := ih hmore hk' hrest (spells_clause_render hk')
    simpa [List.intercalate_cons_cons] using hclause.and hend

/-! ### Only with words as columns -/

/-- What may follow a clause of compiled criteria. -/
inductive Follows : List Char → Prop where
  | done : Follows []
  | and (s : List Char) : Follows (andWord ++ s)

theorem Follows.stops {s : List Char} (h : Follows s) : Stops s := by
  cases h with
  | done => simp [Stops]
  | and s =>
    intro c hc
    obtain rfl := Option.some.inj hc
    decide

/-- No parenthesis is open where a clause has ended. -/
theorem Follows.depth {n : Nat} {s : List Char} (h : Follows s) (hs : Remains .back n s) :
    n = 0 := by
  cases h with
  | done => cases hs with
    | done => rfl
  | and t =>
    generalize htext : andWord ++ t = text at hs
    cases hs with
    | closing => exact absurd (List.cons.inj htext).1 (by decide)
    | or => exact absurd (List.cons.inj (List.cons.inj htext).2).1 (by decide)
    | and | done => rfl

/-- Of the parentheses that are open in front of alternatives only one can be closed behind them, so
there is no other, and no column opens one. -/
theorem words_of_alternatives {c : Comparison} {more : List Comparison} {n : Nat} {s : List Char}
    (hf : ∀ d ∈ c :: more, d.IsFormed) (hs : Follows s)
    (h : Remains .front (n + 1)
      (orWord.intercalate ((c :: more).map Comparison.render) ++ ')' :: s)) :
    n = 0 ∧ (∀ d ∈ c :: more, IsWord d.column) ∧ Remains .back 0 s := by
  obtain ⟨hc, hmore⟩ := List.forall_mem_cons.1 hf
  induction more generalizing c n with
  | nil =>
    have hstop : Stops (')' :: s) := by
      intro d hd
      obtain rfl := Option.some.inj hd
      decide
    have htext : orWord.intercalate ([c].map Comparison.render) ++ ')' :: s =
        c.render ++ ')' :: s := by simp
    rw [htext] at h
    obtain ⟨k, hk, hword⟩ := h.behind hc.column hc.literal hstop
    rw [Nat.add_right_comm] at hk
    generalize hrest : ')' :: s = text at hk
    cases hk with
    | closing hk =>
      obtain rfl := (List.cons.inj hrest).2
      have hdepth := hs.depth hk
      have hn : n = 0 := by omega
      have hk0 : k = 0 := by omega
      subst hn hk0
      exact ⟨rfl, by simpa using hword rfl, hk⟩
    | or => exact absurd (List.cons.inj hrest).1 (by decide)
  | cons d more ih =>
    have htext : orWord.intercalate ((c :: d :: more).map Comparison.render) ++ ')' :: s =
        c.render ++ (orWord ++
          (orWord.intercalate ((d :: more).map Comparison.render) ++ ')' :: s)) := by
      simp [List.intercalate_cons_cons]
    have hstop : ∀ t, Stops (orWord ++ t) := by
      intro t e he
      obtain rfl := Option.some.inj he
      decide
    rw [htext] at h
    obtain ⟨k, hk, hword⟩ := h.behind hc.column hc.literal (hstop _)
    rw [Nat.add_right_comm] at hk
    generalize hrest : orWord ++ _ = text at hk
    cases hk with
    | closing => exact absurd (List.cons.inj hrest).1 (by decide)
    | or hk =>
      obtain rfl := List.append_cancel_left hrest
      obtain ⟨hd, hmore⟩ := List.forall_mem_cons.1 hmore
      obtain ⟨hdepth, hwords, hback⟩ := ih (List.forall_mem_cons.2 ⟨hd, hmore⟩) hk hd hmore
      have hn : n = 0 := by omega
      have hk0 : k = 0 := by omega
      exact ⟨hn, List.forall_mem_cons.2 ⟨hword hk0, hwords⟩, hback⟩

/-- In what remains of a filter in front of a clause, the columns of the clause are words. -/
theorem words_of_clause {k : Clause} {s : List Char} (hf : ∀ c ∈ k.alternatives, c.IsFormed)
    (hs : Follows s) (h : Remains .front 0 (k.render ++ s)) :
    (∀ c ∈ k.alternatives, IsWord c.column) ∧ Remains .back 0 s := by
  cases k with
  | one c =>
    have hc := hf c List.mem_cons_self
    obtain ⟨k, hk, hword⟩ := h.behind hc.column hc.literal hs.stops
    have hdepth := hs.depth hk
    have hk0 : k = 0 := by omega
    subst hk0
    exact ⟨by simpa [Clause.alternatives] using hword rfl, hk⟩
  | anyOf c d more =>
    have htext : (Clause.anyOf c d more).render ++ s =
        '(' :: (orWord.intercalate ((c :: d :: more).map Comparison.render) ++ ')' :: s) := by
      simp [Clause.render]
    rw [htext] at h
    generalize hopen : '(' :: _ = text at h
    cases h with
    | opening h =>
      obtain rfl := (List.cons.inj hopen).2
      obtain ⟨-, hwords, hback⟩ := words_of_alternatives hf hs h
      exact ⟨hwords, hback⟩
    | @comparison _ column _ _ _ hc =>
      obtain ⟨hne, hchars⟩ := hc
      cases column with
      | nil => exact absurd rfl hne
      | cons e column =>
        obtain rfl := (List.cons.inj hopen).1
        exact absurd (hchars '(' List.mem_cons_self) (by decide)

/-- A text that the grammar derives has only words for columns. -/
theorem words_of_filter {k : Clause} {more : List Clause}
    (hf : ∀ k' ∈ k :: more, ∀ c ∈ k'.alternatives, c.IsFormed)
    (h : Remains .front 0 (andWord.intercalate ((k :: more).map Clause.render))) :
    ∀ k' ∈ k :: more, ∀ c ∈ k'.alternatives, IsWord c.column := by
  obtain ⟨hk, hmore⟩ := List.forall_mem_cons.1 hf
  induction more generalizing k with
  | nil =>
    have htext : andWord.intercalate ([k].map Clause.render) = k.render ++ [] := by simp
    rw [htext] at h
    have hwords := (words_of_clause hk .done h).1
    simpa using hwords
  | cons k' more ih =>
    have htext : andWord.intercalate ((k :: k' :: more).map Clause.render) =
        k.render ++ (andWord ++ andWord.intercalate ((k' :: more).map Clause.render)) := by
      simp [List.intercalate_cons_cons]
    rw [htext] at h
    obtain ⟨hwords, hback⟩ := words_of_clause hk (.and _) h
    generalize hrest : andWord ++ _ = text at hback
    cases hback with
    | and hfront =>
      obtain rfl := List.append_cancel_left hrest
      obtain ⟨hk', hrest⟩ := List.forall_mem_cons.1 hmore
      exact List.forall_mem_cons.2 ⟨hwords, ih hmore hfront hk' hrest⟩
    | done => exact absurd hrest (by simp [andWord])

/-- The text of clauses is a filter exactly if all their columns are words. -/
theorem spells_clauses_iff {k : Clause} {more : List Clause}
    (hf : ∀ k' ∈ k :: more, ∀ c ∈ k'.alternatives, c.IsFormed) :
    Phrase.filter.Spells (andWord.intercalate ((k :: more).map Clause.render)) ↔
      ∀ k' ∈ k :: more, ∀ c ∈ k'.alternatives, IsWord c.column := by
  constructor
  · intro h
    exact words_of_filter hf (leaves_of_spells h)
  · intro h
    apply spells_filter_render
    intro k' hk' d hd
    exact ⟨hf k' hk' d hd, h k' hk' d hd⟩

/-! ### The names of fields -/

/-- Compiled criteria have the written form exactly if all columns are words. -/
theorem conforms_iff_words (c : Criteria) :
    (∀ text, compile c = some text → Phrase.filter.Spells text.toList) ↔
      ∀ k ∈ clauses c, ∀ y ∈ k.alternatives, IsWord y.column := by
  cases hk : clauses c with
  | nil => simp [(compile_eq_none_iff c).2 hk]
  | cons k more =>
    have hf : ∀ k' ∈ k :: more, ∀ y ∈ k'.alternatives, y.IsFormed := by
      rw [← hk]
      exact fun k' hk' y hy => isFormed_of_mem_clauses hk' hy
    rw [compile_of_clauses hk, ← spells_clauses_iff hf]
    simp

/-- A condition with at least one scalar that has a literal. -/
def Asks (v : Condition) : Prop := ∃ x ∈ v.scalars, x.literal? ≠ none

/-- Compiled criteria have the written form of filters exactly if every field that asks for
something has a name that leaves a column. -/
theorem compile_conforms_iff (c : Criteria) :
    (∀ text, compile c = some text → Phrase.filter.Spells text.toList) ↔
      ∀ field v, (field, some v) ∈ c.fields → Asks v → IsColumnName field.toList := by
  rw [conforms_iff_words]
  constructor
  · rintro hwords field v hf ⟨x, hx, hne⟩
    obtain ⟨l, hl⟩ := Option.ne_none_iff_exists'.1 hne
    obtain ⟨k, hk, y, hy, hcol⟩ := exists_mem_clauses hf hx hl
    rw [← isWord_fold_iff, ← hcol]
    exact hwords k hk y hy
  · intro hnames k hk y hy
    obtain ⟨field, v, hf, hcol, -, x, hx, hl⟩ := of_mem_clauses hk hy
    rw [hcol, isWord_fold_iff]
    exact hnames field v hf ⟨x, hx, by simp [hl]⟩

/-- A field with an empty name, and one with white space in its name. -/
example : ¬ IsColumnName "".toList ∧ ¬ IsColumnName "a\tb".toList := by decide

/-- A field whose name is empty gives a clause without a column. -/
theorem nameless_does_not_conform :
    compile ⟨[("", some (.scalar (.int 1)))]⟩ = some " eq 1" ∧
      ¬ Phrase.filter.Spells " eq 1".toList := by
  have htext : compile ⟨[("", some (.scalar (.int 1)))]⟩ = some " eq 1" := by decide +kernel
  refine ⟨htext, fun hspells => ?_⟩
  have hwords := (conforms_iff_words ⟨[("", some (.scalar (.int 1)))]⟩).1 (by
    rintro text h
    obtain rfl := Option.some.inj (htext.symm.trans h)
    exact hspells)
  have hword : IsWord [] := hwords _ List.mem_cons_self _ List.mem_cons_self
  exact hword.1 rfl

end ResourceApi.Filter
