import Mathlib.Data.List.Induction
import ResourceApi.Proofs.Filter.Origin

/-!
By which operator a field is compared. The comparisons that one of the operators of a field gives
use that operator if its operand is a scalar. A list is compared for equality whatever operator it
stands under, so under any but equality and membership the operator is lost.
-/

namespace ResourceApi

theorem Operator.ofName?_eq_some_iff {s : String} {op : Operator} :
    Operator.ofName? s = some op ↔ s = op.name := by
  constructor
  · intro h
    have hname := List.find?_some h
    exact (beq_iff_eq.1 hname).symm
  · rintro rfl
    exact op.ofName?_name

/-- An object gives to an operator what its last member of that name holds. -/
theorem Comparisons.operand_ofMembers (members : List (String × Json)) (op : Operator) :
    (ofMembers members).operand op =
      (members.filter (·.1 = op.name)).getLast?.map fun m => Operand.ofJson m.2 := by
  induction members using List.reverseRecOn with
  | nil => rfl
  | append_singleton members m ih =>
    rw [ofMembers] at ih ⊢
    rw [List.foldl_append, List.foldl_cons, List.foldl_nil, List.filter_append,
      List.getLast?_append]
    by_cases hm : m.1 = op.name
    · simp [hm, Operator.ofName?_name]
    · rw [List.filter_cons_of_neg (by simpa using hm), List.filter_nil, List.getLast?_nil,
        Option.none_or, ← ih]
      cases hname : Operator.ofName? m.1 with
      | none => rfl
      | some o =>
        have hne : op ≠ o := fun e => hm (e ▸ Operator.ofName?_eq_some_iff.1 hname)
        exact operand_set_of_ne _ _ hne

namespace Filter

/-- The comparisons that one operator of a field gives to the filter. -/
def contributed (column : List Char) (v : Comparisons) (op : Operator) : List Comparison :=
  comparisonsOf ((v.operand op).bind fun x => operand? column (op, x)).toList

variable {column : List Char} {v : Comparisons} {op : Operator} {x : Operand}

theorem contributed_eq (h : v.operand op = some x) :
    contributed column v op = x.scalars.filterMap (comparison? column (x.comparator op)) := by
  rw [contributed, h, Option.bind_some, comparisonsOf_operand?]

/-- What a field with operators is compared with are the contributions of its operators. -/
theorem comparisonsOf_comparisons (column : List Char) (v : Comparisons) :
    comparisonsOf (valueClauses column (.comparisons v)) =
      Operator.all.flatMap (contributed column v) := by
  rw [comparisonsOf, valueClauses, Comparisons.toList, List.filterMap_filterMap,
    List.filterMap_eq_flatMap_toList, List.flatMap_assoc]
  refine List.flatMap_congr fun op _ => ?_
  rw [contributed, comparisonsOf]
  cases v.operand op <;> rfl

/-- What an operator of a field gives to the filter is compared by its comparator. -/
theorem operator_of_mem_contributed (h : v.operand op = some x) {y : Comparison}
    (hy : y ∈ contributed column v op) : y.operator = x.comparator op := by
  rw [contributed_eq h] at hy
  obtain ⟨s, -, hs⟩ := List.mem_filterMap.1 hy
  exact (comparison?_eq_some_iff.1 hs).2.1

/-- An operator gives nothing just if nothing in its operand has a literal. -/
theorem contributed_eq_nil_iff (h : v.operand op = some x) :
    contributed column v op = [] ↔ ∀ s ∈ x.scalars, s.literal? = none := by
  rw [contributed_eq h, List.filterMap_eq_nil_iff]
  simp [comparison?]

theorem comparator_scalar (h : op ≠ .in) (s : Scalar) : (Operand.scalar s).comparator op = op := by
  cases op
  case «in» => exact absurd rfl h
  all_goals rfl

/-- An operator other than membership is kept in every comparison that it gives if and only if its
operand is no list with something to compare, or it is equality itself; a list gives the comparisons
that it gives under equality. -/
theorem contributed_keeps_operator_iff (column : List Char) (v : Comparisons) (op : Operator)
    (hop : op ≠ .in) (x : Operand) (hx : v.operand op = some x) :
    ((∀ y ∈ contributed column v op, y.operator = op) ↔
        op = .eq ∨ ∀ items, x = .list items → ∀ s ∈ items, s.literal? = none) ∧
      (∀ items, x = .list items →
        contributed column v op = items.filterMap (comparison? column .eq)) ∧
      comparisonsOf (valueClauses column (.comparisons v)) =
        Operator.all.flatMap (contributed column v) ∧
      ∀ members, v = .ofMembers members →
        (members.filter (·.1 = op.name)).getLast?.map (fun m => Operand.ofJson m.2) = some x := by
  refine ⟨⟨fun hkeeps => ?_, ?_⟩, ?_, comparisonsOf_comparisons column v, ?_⟩
  · by_cases heq : op = .eq
    · exact .inl heq
    refine .inr fun items hlist s hs => ?_
    by_contra hliteral
    obtain ⟨l, hl⟩ := Option.ne_none_iff_exists'.1 hliteral
    have hy : ⟨column, .eq, l⟩ ∈ contributed column v op := by
      rw [contributed_eq hx, hlist]
      exact List.mem_filterMap.2 ⟨s, hs, comparison?_eq_some_iff.2 ⟨rfl, rfl, hl⟩⟩
    exact heq (hkeeps _ hy).symm
  · rintro (rfl | hempty) y hy
    · rw [operator_of_mem_contributed hx hy]
      cases x <;> rfl
    · cases x with
      | scalar s => rw [operator_of_mem_contributed hx hy, comparator_scalar hop]
      | list items =>
        rw [(contributed_eq_nil_iff hx).2 (hempty items rfl)] at hy
        cases hy
  · rintro items rfl
    exact contributed_eq hx
  · rintro members rfl
    rw [← Comparisons.operand_ofMembers, hx]

/-- A scalar under inequality, and under another operator a list without anything to compare. -/
def selective : Comparisons :=
  .ofMembers [("gt", .array [.null]), ("ne", .int 0), ("near", .int 1)]

/-- A list without literals gives nothing, so nothing is compared in a wrong way. -/
theorem selective_keeps_operators :
    selective.operand .ne = some (.scalar (.int 0)) ∧ selective.operand .gt = some (.list [.null]) ∧
    (∀ y ∈ contributed ['A'] selective .ne, y.operator = .ne) ∧
    (∀ y ∈ contributed ['A'] selective .gt, y.operator = .gt) ∧
    comparisonsOf (valueClauses ['A'] (.comparisons selective)) = [⟨['A'], .ne, .bare ['0']⟩] := by
  have hne : selective.operand .ne = some (.scalar (.int 0)) := by rfl
  have hgt : selective.operand .gt = some (.list [.null]) := by rfl
  obtain ⟨hscalar, -⟩ := contributed_keeps_operator_iff ['A'] selective .ne (by decide) _ hne
  obtain ⟨hlist, -⟩ := contributed_keeps_operator_iff ['A'] selective .gt (by decide) _ hgt
  refine ⟨hne, hgt, hscalar.2 (.inr fun items h => ?_), hlist.2 (.inr ?_), by decide +kernel⟩
  · cases h
  · rintro items ⟨⟩ s hs
    rw [List.mem_singleton.1 hs]
    rfl

/-- A list of one under inequality selects just what it was meant to exclude. -/
theorem list_under_ne_asks_for_equality :
    (Comparisons.ofMembers [("ne", .array [.int 1])]).operand .ne = some (.list [.int 1]) ∧
    ¬(∀ y ∈ contributed ['A'] (.ofMembers [("ne", .array [.int 1])]) .ne, y.operator = .ne) ∧
    compile (.ofMembers [("a", .object [("ne", .array [.int 1])])]) = some "A eq 1" := by
  decide +kernel

end Filter

end ResourceApi
