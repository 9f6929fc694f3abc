import ResourceApi.Column
import ResourceApi.Proofs.Filter.Expression
import ResourceApi.Criteria.Basic

/-!
What criteria ask for, apart from any text. A demand names a column, a comparison and the scalars of
which one has to compare so; criteria are the conjunction of the demands of their fields, in order.
Scalars without a literal count for nothing, and neither does a demand that has no others.
-/

namespace ResourceApi

open ResourceApi.Filter (Comparison Expression)

/-- Membership is equality with one of several. -/
def Operator.comparator : Operator → Operator
  | .in => .eq
  | op => op

def Operand.scalars : Operand → List Scalar
  | .scalar x => [x]
  | .list items => items

structure Demand where
  column : List Char
  comparator : Operator
  scalars : List Scalar
  deriving DecidableEq, Repr

namespace Demand

def comparisons (d : Demand) : List Comparison :=
  d.scalars.filterMap fun x => x.literal?.map fun l => ⟨d.column, d.comparator, l⟩

def expression? (d : Demand) : Option Expression :=
  match d.comparisons with
  | [] => none
  | c :: more => some (.anyOf (.compare c) (more.map .compare))

/-- A demand without comparisons is met by everything. -/
def IsMet (I : Comparison → Prop) (d : Demand) : Prop :=
  d.comparisons ≠ [] → ∃ c ∈ d.comparisons, I c

end Demand

/-- A scalar is compared for equality, a list asks for equality with one of its items, and
comparisons ask for each operator in declared order. -/
def Condition.demands (column : List Char) : Condition → List Demand
  | .scalar x => [⟨column, .eq, [x]⟩]
  | .list items => [⟨column, .eq, items⟩]
  | .comparisons c => Operator.all.filterMap fun op =>
    (c.operand op).map fun x => ⟨column, op.comparator, x.scalars⟩

namespace Criteria

def fieldDemands : String × Option Condition → List Demand
  | (_, none) => []
  | (field, some v) => v.demands (Column.fold field.toList)

def demands (c : Criteria) : List Demand := c.fields.flatMap fieldDemands

def expression? (c : Criteria) : Option Expression :=
  match c.demands.filterMap Demand.expression? with
  | [] => none
  | e :: more => some (.allOf e more)

def AreMet (I : Comparison → Prop) (c : Criteria) : Prop := ∀ d ∈ c.demands, d.IsMet I

end Criteria

/-! ### Demands and their expressions -/

namespace Demand

/-- A demand has no comparisons just if none of its scalars has a literal. -/
theorem comparisons_eq_nil_iff (d : Demand) :
    d.comparisons = [] ↔ ∀ x ∈ d.scalars, x.literal? = none := by
  simp [comparisons]

theorem expression?_eq_none_iff (d : Demand) : d.expression? = none ↔ d.comparisons = [] := by
  rw [expression?]
  split <;> simp_all

/-- What a demand says holds if one of its comparisons does. -/
theorem holds_expression {d : Demand} {e : Expression} (h : d.expression? = some e)
    (I : Comparison → Prop) : e.Holds I ↔ ∃ c ∈ d.comparisons, I c := by
  rw [expression?] at h
  split at h
  · simp at h
  · rename_i c more hc
    obtain rfl := Option.some.inj h
    rw [Expression.holds_anyOf, ← List.map_cons, ← hc]
    constructor
    · rintro ⟨_, hf, hI⟩
      obtain ⟨x, hx, rfl⟩ := List.mem_map.1 hf
      exact ⟨x, hx, hI⟩
    · rintro ⟨x, hx, hI⟩
      exact ⟨.compare x, List.mem_map_of_mem hx, hI⟩

/-- A demand is met just if what it says holds, where it says anything. -/
theorem isMet_iff (I : Comparison → Prop) (d : Demand) :
    d.IsMet I ↔ ∀ e, d.expression? = some e → e.Holds I := by
  constructor
  · intro h e he
    refine (holds_expression he I).2 (h fun hnil => ?_)
    rw [(expression?_eq_none_iff d).2 hnil] at he
    simp at he
  · intro h hne
    cases he : d.expression? with
    | none => exact absurd ((expression?_eq_none_iff d).1 he) hne
    | some e => exact (holds_expression he I).1 (h e he)

/-- What a demand says has the comparisons of the demand, and no others. -/
theorem comparisons_expression {d : Demand} {e : Expression} (h : d.expression? = some e) :
    e.comparisons = d.comparisons := by
  rw [expression?] at h
  split at h
  · simp at h
  · rename_i c more hc
    obtain rfl := Option.some.inj h
    rw [hc, Expression.comparisons_anyOf]
    simp [Expression.comparisons, List.flatMap_map]

theorem mem_comparisons {d : Demand} {x : Scalar} {l : Filter.Literal} (hx : x ∈ d.scalars)
    (hl : x.literal? = some l) : ⟨d.column, d.comparator, l⟩ ∈ d.comparisons :=
  List.mem_filterMap.2 ⟨x, hx, by simp [hl]⟩

end Demand

namespace Criteria

/-- The expression of criteria is true exactly where they are met. -/
theorem holds_expression {c : Criteria} {e : Expression} (h : c.expression? = some e)
    (I : Comparison → Prop) : e.Holds I ↔ c.AreMet I := by
  rw [expression?] at h
  split at h
  · simp at h
  · rename_i f more hf
    obtain rfl := Option.some.inj h
    rw [Expression.holds_allOf, ← hf, AreMet]
    simp only [List.mem_filterMap, Demand.isMet_iff]
    constructor
    · exact fun hall d hd e he => hall e ⟨d, hd, he⟩
    · rintro hall e ⟨d, hd, he⟩
      exact hall d hd e he

/-- Each comparison of a demand occurs in what the criteria say. -/
theorem mem_comparisons_expression {c : Criteria} {e : Expression} (h : c.expression? = some e)
    {d : Demand} (hd : d ∈ c.demands) {x : Comparison} (hx : x ∈ d.comparisons) :
    x ∈ e.comparisons := by
  obtain ⟨f, hf⟩ : ∃ f, d.expression? = some f := by
    rw [← Option.isSome_iff_exists, ← Option.ne_none_iff_isSome, ne_eq,
      Demand.expression?_eq_none_iff]
    exact List.ne_nil_of_mem hx
  have hmem : f ∈ c.demands.filterMap Demand.expression? := List.mem_filterMap.2 ⟨d, hd, hf⟩
  rw [expression?] at h
  split at h
  · simp at h
  · rename_i g more hg
    obtain rfl := Option.some.inj h
    rw [Expression.comparisons_allOf, ← hg]
    exact List.mem_flatMap.2 ⟨f, hmem, by rwa [Demand.comparisons_expression hf]⟩

end Criteria

end ResourceApi
