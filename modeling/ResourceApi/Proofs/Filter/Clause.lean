import ResourceApi.Proofs.Decimal.Positional
import ResourceApi.Proofs.Filter.Reader

/-!
Clauses in text. A literal that a scalar has is one token, whatever characters the scalar holds, so
a comparison is three tokens and clauses read back as they were built.
-/

namespace ResourceApi.Filter

open Text

/-- Literals that are read as they are written. -/
def Literal.IsWritten : Literal → Prop
  | .quoted _ => True
  | .bare w => IsWord w ∧ Token.isBare w = true

/-- Comparisons that are read as they are written. -/
structure Comparison.IsWritten (c : Comparison) : Prop where
  column : IsWord c.column
  operator : c.operator ≠ .in
  literal : c.literal.IsWritten

def Clause.expression : Clause → Expression
  | .one c => .compare c
  | .anyOf c d more => .anyOf (.compare c) ((d :: more).map .compare)

/-! ### Literals -/

theorem isWordChar_of_isDigit {c : Char} (h : c.isDigit = true) : isWordChar c = true := by
  have all : ∀ n : Fin 10, isWordChar (Char.ofNat (48 + n)) = true := by decide
  have hrange : 48 ≤ c.toNat ∧ c.toNat ≤ 57 := by
    simpa [Char.isDigit, UInt32.le_iff_toNat_le] using h
  have hn : 48 + (c.toNat - 48) = c.toNat := by omega
  have hc := all ⟨c.toNat - 48, by omega⟩
  rwa [hn, Char.ofNat_toNat] at hc

theorem isWord_of_isPositional {s : List Char} (h : Decimal.IsPositional s) : IsWord s := by
  refine ⟨h.ne_nil, fun c hc => ?_⟩
  rcases h.mem hc with hd | rfl | rfl
  · exact isWordChar_of_isDigit hd
  · decide
  · decide

theorem isWritten_of_isPositional {s : List Char} (h : Decimal.IsPositional s) :
    (Literal.bare s).IsWritten :=
  ⟨isWord_of_isPositional h, by simp [Token.isBare, h.isNumeral]⟩

/-- Every literal that is written can be read. -/
theorem isWritten_literal? {x : Scalar} {l : Literal} (h : x.literal? = some l) :
    l.IsWritten := by
  cases x with
  | null => simp [Scalar.literal?] at h
  | bool b =>
    obtain rfl := Option.some.inj h
    cases b <;> exact ⟨by decide, by decide⟩
  | int n =>
    obtain rfl := Option.some.inj h
    exact isWritten_of_isPositional (Decimal.isPositional_int n)
  | float x =>
    rw [Scalar.literal?] at h
    split at h
    · rename_i hx
      obtain rfl := Option.some.inj h
      exact isWritten_of_isPositional (Decimal.isPositional_plain hx)
    · simp at h
  | string s | date d | instant t =>
    obtain rfl := Option.some.inj h
    trivial

/-- A literal is one token, which stands for it. -/
theorem tokens?_literal {l : Literal} (h : l.IsWritten) :
    ∃ t, tokens? l.render = some [t] ∧ t.literal? = some l := by
  cases l with
  | quoted s => exact ⟨.quoted s, tokens?_quoted s, rfl⟩
  | bare w => exact ⟨.word w, tokens?_word h.1, by simp [Token.literal?, h.2]⟩

/-! ### Comparisons and clauses -/

/-- Every operator of the language is read by its name. -/
theorem operator?_name {op : Operator} (h : op ≠ .in) :
    (Token.word op.name.toList).operator? = some op := by
  simp [Token.operator?, Operator.ofName?_name, h]

/-- A comparison is written as the grammar spells it. -/
theorem spells_comparison {c : Comparison} (h : c.IsWritten) :
    Spells .primary c.render (.compare c) := by
  obtain ⟨t, ht, hl⟩ := tokens?_literal h.literal
  have hname : IsWord c.operator.name.toList := by cases c.operator <;> decide
  have hassoc : c.render =
      c.column ++ (' ' :: c.operator.name.toList ++ [' ']) ++ c.literal.render := by
    simp [Comparison.render]
  refine ⟨_, ?_, .comparison (operator?_name h.operator) hl⟩
  rw [hassoc, tokens?_append_word (tokens?_word h.column) ht hname]
  rfl

theorem spells_alternatives {c : Comparison} {more : List Comparison}
    (h : ∀ d ∈ c :: more, d.IsWritten) :
    Spells .disjunction (orWord.intercalate ((c :: more).map Comparison.render))
      (.anyOf (.compare c) (more.map .compare)) := by
  induction more generalizing c with
  | nil => simpa [Expression.anyOf] using (spells_comparison (h c (by simp))).single.lone
  | cons d more ih =>
    have hc := (spells_comparison (h c (by simp))).single
    have hmore := ih fun x hx => h x (List.mem_cons_of_mem _ hx)
    simpa [Expression.anyOf, List.intercalate_cons_cons] using hc.or hmore

theorem spells_clause {k : Clause} (h : ∀ c ∈ k.alternatives, c.IsWritten) :
    Spells .primary k.render k.expression := by
  cases k with
  | one c => exact spells_comparison (h c (by simp [Clause.alternatives]))
  | anyOf c d more => exact (spells_alternatives h).group

/-- Clauses joined by `and` are spelled as the conjunction of what they say. -/
theorem spells_clauses {k : Clause} {more : List Clause}
    (h : ∀ k' ∈ k :: more, ∀ c ∈ k'.alternatives, c.IsWritten) :
    Spells .conjunction (andWord.intercalate ((k :: more).map Clause.render))
      (.allOf k.expression (more.map Clause.expression)) := by
  induction more generalizing k with
  | nil => simpa [Expression.allOf] using (spells_clause (h k (by simp))).single
  | cons k' more ih =>
    have hk := spells_clause (h k (by simp))
    have hmore := ih fun x hx => h x (List.mem_cons_of_mem _ hx)
    simpa [Expression.allOf, List.intercalate_cons_cons] using hk.and hmore

end ResourceApi.Filter
