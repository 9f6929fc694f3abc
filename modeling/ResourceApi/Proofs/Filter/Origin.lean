import Mathlib.Data.List.Basic
import ResourceApi.Filter.Compile
import ResourceApi.Proofs.Criteria.Demand

/-!
Where the comparisons of compiled criteria come from. Every one of them compares the column of a
field with a literal of a scalar that the field is compared with, by an operator that the language
has; and every such scalar with a literal is compared in some clause.
-/

namespace ResourceApi

/-- The scalars that a field is compared with. -/
def Condition.scalars : Condition → List Scalar
  | .scalar x => [x]
  | .list items => items
  | .comparisons c => c.toList.flatMap (·.2.scalars)

/-- The operator by which the scalars of an operand are compared. -/
def Operand.comparator (op : Operator) : Operand → Operator
  | .scalar _ => op.comparator
  | .list _ => .eq

theorem Operator.comparator_ne (op : Operator) : op.comparator ≠ .in := by
  cases op <;> decide

theorem Operand.comparator_ne (op : Operator) (x : Operand) : x.comparator op ≠ .in := by
  cases x with
  | scalar x => exact op.comparator_ne
  | list items => exact Operator.noConfusion

namespace Filter

def comparisonsOf (ks : List Clause) : List Comparison := ks.flatMap Clause.alternatives

theorem comparisonsOf_ofAlternatives (cs : List Comparison) :
    comparisonsOf (Clause.ofAlternatives cs).toList = cs := by
  match cs with
  | [] | [_] => rfl
  | c :: d :: more => exact List.append_nil (c :: d :: more)

theorem comparisonsOf_one (x : Option Comparison) :
    comparisonsOf (x.map Clause.one).toList = x.toList := by
  cases x <;> rfl

theorem comparisonsOf_anyOf? (column : List Char) (items : List Scalar) :
    comparisonsOf (anyOf? column items).toList = items.filterMap (comparison? column .eq) :=
  comparisonsOf_ofAlternatives _

theorem filterMap_singleton {α β : Type} (f : α → Option β) (x : α) :
    [x].filterMap f = (f x).toList := by
  cases h : f x <;> simp [h]

theorem comparisonsOf_operand? (column : List Char) (op : Operator) (x : Operand) :
    comparisonsOf (operand? column (op, x)).toList =
      x.scalars.filterMap (comparison? column (x.comparator op)) := by
  cases x with
  | list items => exact comparisonsOf_anyOf? column items
  | scalar x =>
    rw [Operand.scalars, filterMap_singleton]
    cases op <;> exact comparisonsOf_one _

/-- The comparisons of one field, one for each scalar with a literal. -/
def compared (column : List Char) : Condition → List Comparison
  | .scalar x => (comparison? column .eq x).toList
  | .list items => items.filterMap (comparison? column .eq)
  | .comparisons c => c.toList.flatMap fun p =>
    p.2.scalars.filterMap (comparison? column (p.2.comparator p.1))

theorem comparisonsOf_valueClauses (column : List Char) (v : Condition) :
    comparisonsOf (valueClauses column v) = compared column v := by
  cases v with
  | scalar x => exact comparisonsOf_one _
  | list items => exact comparisonsOf_anyOf? column items
  | comparisons c =>
    rw [valueClauses, compared, comparisonsOf, List.filterMap_eq_flatMap_toList, List.flatMap_assoc]
    refine List.flatMap_congr ?_
    intro p _
    exact comparisonsOf_operand? column p.1 p.2

theorem comparison?_eq_some_iff {column : List Char} {op : Operator} {x : Scalar}
    {y : Comparison} : comparison? column op x = some y ↔
      y.column = column ∧ y.operator = op ∧ x.literal? = some y.literal := by
  rw [comparison?, Option.map_eq_some_iff]
  constructor
  · rintro ⟨l, hl, rfl⟩
    exact ⟨rfl, rfl, hl⟩
  · rintro ⟨rfl, rfl, hl⟩
    exact ⟨y.literal, hl, rfl⟩

theorem of_mem_compared {column : List Char} {v : Condition} {y : Comparison}
    (h : y ∈ compared column v) : y.column = column ∧ y.operator ≠ .in ∧
      ∃ x ∈ v.scalars, x.literal? = some y.literal := by
  -- An operator that the language has, and a scalar of the field.
  have hmade : ∀ {op x}, op ≠ .in → x ∈ v.scalars → comparison? column op x = some y →
      y.column = column ∧ y.operator ≠ .in ∧ ∃ x ∈ v.scalars, x.literal? = some y.literal := by
    intro op x hop hx hy
    obtain ⟨hc, rfl, hl⟩ := comparison?_eq_some_iff.1 hy
    exact ⟨hc, hop, x, hx, hl⟩
  cases v with
  | scalar x =>
    exact hmade Operator.noConfusion List.mem_cons_self (Option.mem_toList.1 h)
  | list items =>
    obtain ⟨x, hx, hy⟩ := List.mem_filterMap.1 h
    exact hmade Operator.noConfusion hx hy
  | comparisons c =>
    obtain ⟨p, hp, hy⟩ := List.mem_flatMap.1 h
    obtain ⟨x, hx, hy⟩ := List.mem_filterMap.1 hy
    exact hmade (p.2.comparator_ne p.1) (List.mem_flatMap.2 ⟨p, hp, hx⟩) hy

theorem exists_mem_compared {column : List Char} {v : Condition} {x : Scalar} {l : Literal}
    (hx : x ∈ v.scalars) (hl : x.literal? = some l) :
    ∃ y ∈ compared column v, y.column = column := by
  have hmade : ∀ op, comparison? column op x = some ⟨column, op, l⟩ := by
    intro op
    exact comparison?_eq_some_iff.2 ⟨rfl, rfl, hl⟩
  cases v with
  | scalar y =>
    obtain rfl := List.mem_singleton.1 hx
    exact ⟨_, Option.mem_toList.2 (hmade .eq), rfl⟩
  | list items => exact ⟨_, List.mem_filterMap.2 ⟨x, hx, hmade .eq⟩, rfl⟩
  | comparisons c =>
    obtain ⟨p, hp, hx⟩ := List.mem_flatMap.1 hx
    exact ⟨_, List.mem_flatMap.2 ⟨p, hp, List.mem_filterMap.2 ⟨x, hx, hmade _⟩⟩, rfl⟩

/-! ### The clauses of all fields -/

/-- A comparison of compiled criteria belongs to a field. -/
theorem of_mem_clauses {c : Criteria} {k : Clause} {y : Comparison} (hk : k ∈ clauses c)
    (hy : y ∈ k.alternatives) : ∃ field v, (field, some v) ∈ c.fields ∧
      y.column = Column.fold field.toList ∧ y.operator ≠ .in ∧
      ∃ x ∈ v.scalars, x.literal? = some y.literal := by
  obtain ⟨⟨field, v⟩, hf, hk⟩ := List.mem_flatMap.1 hk
  cases v with
  | none => exact absurd hk List.not_mem_nil
  | some v =>
    have hmem : y ∈ comparisonsOf (valueClauses (Column.fold field.toList) v) :=
      List.mem_flatMap.2 ⟨k, hk, hy⟩
    rw [comparisonsOf_valueClauses] at hmem
    exact ⟨field, v, hf, of_mem_compared hmem⟩

/-- A field that is compared with a scalar that has a literal has its column in some clause. -/
theorem exists_mem_clauses {c : Criteria} {field : String} {v : Condition} {x : Scalar}
    {l : Literal} (hf : (field, some v) ∈ c.fields) (hx : x ∈ v.scalars)
    (hl : x.literal? = some l) :
    ∃ k ∈ clauses c, ∃ y ∈ k.alternatives, y.column = Column.fold field.toList := by
  obtain ⟨y, hy, hcol⟩ :
      ∃ y ∈ compared (Column.fold field.toList) v, y.column = Column.fold field.toList :=
    exists_mem_compared hx hl
  rw [← comparisonsOf_valueClauses] at hy
  obtain ⟨k, hk, hyk⟩ := List.mem_flatMap.1 hy
  exact ⟨k, List.mem_flatMap.2 ⟨_, hf, hk⟩, y, hyk, hcol⟩

end Filter

end ResourceApi
