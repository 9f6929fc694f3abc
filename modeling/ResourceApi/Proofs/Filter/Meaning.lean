import ResourceApi.Proofs.Filter.Clause
import ResourceApi.Proofs.Filter.Origin

/-!
Compiling keeps the meaning. Read by the grammar of filters, the text of criteria is the conjunction
of their demands, field by field, with every literal as it was given; where there is no text nothing
is asked for. Columns have to be words for that, and lists have to stand where alternatives are
meant: as the value of a field, or under equality or membership.
-/

namespace ResourceApi

open ResourceApi.Filter (Expression)

namespace Criteria

/-- Every field has a column that is one word, such as letters, digits and underscores make. -/
def HasWordColumns (c : Criteria) : Prop :=
  ∀ f ∈ c.fields, Filter.IsWord (Column.fold f.1.toList)

instance (c : Criteria) : Decidable c.HasWordColumns :=
  inferInstanceAs (Decidable (∀ f ∈ c.fields, Filter.IsWord (Column.fold f.1.toList)))

/-- Lists among comparisons stand under equality or membership only. -/
def ListsAreAlternatives (c : Criteria) : Prop :=
  ∀ field v, (field, some (.comparisons v)) ∈ c.fields →
    ∀ op items, v.operand op = some (.list items) → op = .eq ∨ op = .in

end Criteria

namespace Filter

def demandClause? (d : Demand) : Option Clause := Clause.ofAlternatives d.comparisons

theorem ofAlternatives_eq_none_iff (cs : List Comparison) :
    Clause.ofAlternatives cs = none ↔ cs = [] := by
  match cs with
  | [] => simp [Clause.ofAlternatives]
  | [_] => simp [Clause.ofAlternatives]
  | _ :: _ :: _ => simp [Clause.ofAlternatives]

theorem expression_demandClause? (d : Demand) :
    (demandClause? d).map Clause.expression = d.expression? := by
  rw [demandClause?, Demand.expression?]
  cases d.comparisons with
  | nil => rfl
  | cons x more => cases more <;> rfl

/-! ### Clauses are those of the demands -/

theorem operand?_eq {column : List Char} {op : Operator} {x : Operand}
    (h : ∀ items, x = .list items → op = .eq ∨ op = .in) :
    operand? column (op, x) = demandClause? ⟨column, op.comparator, x.scalars⟩ := by
  cases x with
  | list items => rcases h items rfl with rfl | rfl <;> rfl
  | scalar x =>
    cases hx : x.literal? <;> cases op <;>
      simp [operand?, comparison?, demandClause?, Demand.comparisons, Operand.scalars,
        Operator.comparator, Clause.ofAlternatives, hx]

theorem valueClauses_eq {column : List Char} {v : Condition}
    (h : ∀ c, v = .comparisons c →
      ∀ op items, c.operand op = some (.list items) → op = .eq ∨ op = .in) :
    valueClauses column v = (v.demands column).filterMap demandClause? := by
  cases v with
  | scalar x =>
    cases hx : x.literal? <;>
      simp [valueClauses, comparison?, Condition.demands, demandClause?, Demand.comparisons,
        Clause.ofAlternatives, hx]
  | list items =>
    have hk : anyOf? column items = demandClause? ⟨column, .eq, items⟩ := rfl
    rw [valueClauses, hk, Condition.demands]
    cases hd : demandClause? ⟨column, .eq, items⟩ <;> simp [hd]
  | comparisons c =>
    simp only [valueClauses, Condition.demands, Comparisons.toList, List.filterMap_filterMap]
    refine List.filterMap_congr fun op _ => ?_
    cases hx : c.operand op with
    | none => rfl
    | some x => exact operand?_eq fun items hi => h c rfl op items (hx.trans (congrArg some hi))

/-- Each demand with comparisons gives one clause, as long as lists are alternatives. -/
theorem clauses_eq {c : Criteria} (h : c.ListsAreAlternatives) :
    clauses c = c.demands.filterMap demandClause? := by
  rw [clauses, Criteria.demands, List.filterMap_flatMap]
  refine List.flatMap_congr fun f hf => ?_
  obtain ⟨field, v⟩ := f
  cases v with
  | none => rfl
  | some v =>
    refine valueClauses_eq ?_
    rintro c' rfl
    exact h field c' hf

/-! ### The text of all clauses -/

theorem isWritten_clauses {c : Criteria} (hcol : c.HasWordColumns) {k : Clause}
    (hk : k ∈ clauses c) : ∀ y ∈ k.alternatives, y.IsWritten := by
  intro y hy
  obtain ⟨field, v, hf, hcolumn, hop, x, -, hl⟩ := of_mem_clauses hk hy
  exact ⟨hcolumn ▸ hcol (field, some v) hf, hop, isWritten_literal? hl⟩

/-- There is no filter just if there are no clauses. -/
theorem compile_eq_none_iff (c : Criteria) : compile c = none ↔ clauses c = [] := by
  rw [compile, renderClauses]
  cases clauses c with
  | nil => simp
  | cons k more => simp [joinWith_of_ne_nil]

theorem compile_of_clauses {c : Criteria} {k : Clause} {more : List Clause}
    (h : clauses c = k :: more) :
    compile c = some (String.ofList (andWord.intercalate ((k :: more).map Clause.render))) := by
  have hne : (k :: more).map Clause.render ≠ [] := by simp
  rw [compile, renderClauses, h, joinWith_of_ne_nil hne, Option.map_some]

/-- What is compiled is always read, as the conjunction of its clauses. -/
theorem spells_compile {c : Criteria} (hcol : c.HasWordColumns) {text : String}
    (h : compile c = some text) : ∃ k more, clauses c = k :: more ∧
      Spells .conjunction text.toList (.allOf k.expression (more.map Clause.expression)) := by
  cases hk : clauses c with
  | nil =>
    rw [(compile_eq_none_iff c).2 hk] at h
    exact absurd h (by simp)
  | cons k more =>
    rw [compile_of_clauses hk] at h
    obtain rfl := Option.some.inj h
    refine ⟨k, more, rfl, ?_⟩
    rw [String.toList_ofList]
    exact spells_clauses fun k' hk' => isWritten_clauses hcol (hk ▸ hk')

theorem clauses_eq_nil_iff {c : Criteria} (h : c.ListsAreAlternatives) :
    clauses c = [] ↔ ∀ d ∈ c.demands, ∀ x ∈ d.scalars, x.literal? = none := by
  rw [clauses_eq h, List.filterMap_eq_nil_iff]
  simp only [demandClause?, ofAlternatives_eq_none_iff, Demand.comparisons_eq_nil_iff]

theorem expression?_of_clauses {c : Criteria} (h : c.ListsAreAlternatives) {k : Clause}
    {more : List Clause} (hk : clauses c = k :: more) :
    c.expression? = some (.allOf k.expression (more.map Clause.expression)) := by
  have hexp : c.demands.filterMap Demand.expression? = (k :: more).map Clause.expression := by
    rw [← hk, clauses_eq h, List.map_filterMap]
    exact List.filterMap_congr fun d _ => (expression_demandClause? d).symm
  rw [Criteria.expression?, hexp]
  rfl

/-- The text of criteria reads as the conjunction of what they demand, and there is none exactly if
they demand nothing. -/
theorem compile_keeps_meaning (c : Criteria) (hcol : c.HasWordColumns)
    (hlists : c.ListsAreAlternatives) :
    (compile c = none ↔ ∀ d ∈ c.demands, ∀ x ∈ d.scalars, x.literal? = none) ∧
      ∀ text, compile c = some text → ∃ e, read? text.toList = some e ∧ c.expression? = some e ∧
        (∀ d ∈ c.demands, ∀ s, .string s ∈ d.scalars →
          ⟨d.column, d.comparator, .quoted s.toList⟩ ∈ e.comparisons) ∧
        ∀ I, e.Holds I ↔ c.AreMet I := by
  refine ⟨(compile_eq_none_iff c).trans (clauses_eq_nil_iff hlists), fun text htext => ?_⟩
  obtain ⟨k, more, hk, hspells⟩ := spells_compile hcol htext
  have hexp := expression?_of_clauses hlists hk
  refine ⟨_, read?_eq_some_iff.2 hspells.lone, hexp, fun d hd s hs => ?_, fun I => ?_⟩
  · exact Criteria.mem_comparisons_expression hexp hd (Demand.mem_comparisons hs rfl)
  · exact Criteria.holds_expression hexp I

/-- Literals that hold a quote, parentheses and the words of the language, beside scalars without a
literal and a field without a value. -/
def guarded : Criteria :=
  ⟨[("ownerName", some (.scalar (.string "O'Neil) or (x"))), ("gone", none),
    ("tags", some (.list [.null, .string "a and 'b'", .int (-3)])),
    ("price", some (.comparisons ((Comparisons.empty.set .in (.list [.int 1, .bool true])).set .ne
      (.scalar (.string "")))))]⟩

theorem guarded_keeps_meaning :
    guarded.HasWordColumns ∧ guarded.ListsAreAlternatives ∧ ∃ text e,
      compile guarded = some text ∧ read? text.toList = some e ∧ guarded.expression? = some e ∧
        ∀ I, e.Holds I ↔ guarded.AreMet I := by
  have hcol : guarded.HasWordColumns := by decide
  have hlists : guarded.ListsAreAlternatives := by
    intro field v hv op items hop
    simp only [guarded, List.mem_cons, Prod.mk.injEq, reduceCtorEq, and_false, false_or,
      Option.some.injEq, List.not_mem_nil, or_false, Condition.comparisons.injEq] at hv
    obtain ⟨-, rfl⟩ := hv
    cases op <;> simp [Comparisons.set, Comparisons.empty] at hop ⊢
  have htext : compile guarded = some ("OWNER_NAME eq 'O''Neil) or (x' and " ++
      "(TAGS eq 'a and ''b''' or TAGS eq -3) and " ++
      "PRICE ne '' and (PRICE eq 1 or PRICE eq true)") := by
    decide +kernel
  obtain ⟨e, hread, hexp, -, hmet⟩ := (compile_keeps_meaning guarded hcol hlists).2 _ htext
  exact ⟨hcol, hlists, _, e, htext, hread, hexp, hmet⟩

end Filter

end ResourceApi
