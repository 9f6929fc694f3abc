import ResourceApi.Proofs.Decimal.Shortest
import ResourceApi.Proofs.Filter.Comparator

/-!
Whole numbers as operands. Wherever a whole number stands in the value of a field, the filter has a
comparison for it at the same place. The literal is the number itself as long as a signed word holds
it; beyond that the number becomes a double, and is written as the shortest number with that double.
-/

namespace ResourceApi

open Decimal Decimal.Binary64

/-- What is compared under an operator, with the operator of each comparison. -/
def Json.under (op : Operator) : Json → List (Operator × Json)
  | .array items => items.map (Operator.eq, ·)
  | v => [(op.comparator, v)]

/-- What the value of a field is compared with, in the order of the comparisons. Of several members
for one operator the last counts. -/
def Json.operands : Json → List (Operator × Json)
  | .object members => Operator.all.flatMap fun op =>
    ((members.filter (·.1 = op.name)).getLast?.map fun m => m.2.under op).getD []
  | v => v.under .eq

/-! ### The literal of a whole number -/

theorem ofInt_toNat {n : Int} (h : 0 ≤ n) : ofInt n = ofNat n.toNat := by
  obtain ⟨k, rfl⟩ := Int.eq_ofNat_of_zero_le h
  rfl

theorem toString_toNat {n : Int} (h : 0 ≤ n) : (toString n).toList = Nat.toDigits 10 n.toNat := by
  rw [Int.toString_eq_repr, Int.repr_eq_if, if_pos h]
  simp

theorem log2_toNat_of_large {n : Int} (hlow : 0x8000000000000000 ≤ n)
    (hhigh : n < 0x10000000000000000) : n.toNat.log2 = 63 := by
  rw [Nat.log2_eq_iff (by omega)]
  omega

/-- A signed word is written as it is. A greater number is written as it is if and only if it is the
shortest with its double. -/
theorem exists_literal?_int {n : Int} (hlow : -0x8000000000000000 ≤ n)
    (hhigh : n < 0x10000000000000000) :
    ∃ word, (Scalar.ofJson (.int n)).literal? = some (.bare word) ∧
      (word = (toString n).toList ↔ n < 0x8000000000000000 ∨ IsShortest n.toNat) := by
  by_cases hword : n < 0x8000000000000000
  · refine ⟨(toString n).toList, ?_, iff_of_true rfl (.inl hword)⟩
    rw [Scalar.ofJson, if_pos ⟨hlow, hword⟩]
    rfl
  · have hnonneg : 0 ≤ n := by omega
    have hlog := log2_toNat_of_large (by omega) hhigh
    obtain ⟨m, e, -, -, -, hdouble⟩ := exists_ofNat_eq (by omega) (by omega : n.toNat.log2 ≤ 1022)
    refine ⟨plain.write (ofNat n.toNat), ?_, ?_⟩
    · rw [Scalar.ofJson, if_neg (by omega), ofInt_toNat hnonneg, Scalar.literal?, hdouble]
      rfl
    · rw [toString_toNat hnonneg, write_ofNat_eq_iff (by omega) (by omega)]
      simp [hword]

namespace Filter

/-! ### Comparisons by operand -/

/-- The comparisons of a column for operands. -/
def comparedWith (column : List Char) (xs : List (Operator × Json)) : List Comparison :=
  xs.filterMap fun p => comparison? column p.1 (.ofJson p.2)

theorem comparedWith_under (column : List Char) (op : Operator) (v : Json) :
    (Operand.ofJson v).scalars.filterMap (comparison? column ((Operand.ofJson v).comparator op)) =
      comparedWith column (v.under op) := by
  cases v with
  | array items =>
    rw [comparedWith, Json.under, List.filterMap_map]
    exact List.filterMap_map
  | _ => rfl

theorem comparedWith_singleton (column : List Char) (op : Operator) (v : Json) :
    comparedWith column [(op, v)] = (comparison? column op (.ofJson v)).toList :=
  filterMap_singleton _ _

theorem contributed_ofMembers (column : List Char) (members : List (String × Json))
    (op : Operator) : contributed column (.ofMembers members) op = comparedWith column
      (((members.filter (·.1 = op.name)).getLast?.map fun m => m.2.under op).getD []) := by
  rw [contributed, Comparisons.operand_ofMembers]
  cases (members.filter (·.1 = op.name)).getLast? with
  | none => rfl
  | some m => exact (comparisonsOf_operand? ..).trans (comparedWith_under ..)

/-- A field has a comparison for each of its operands that has a literal. -/
theorem comparisonsOf_fieldClauses (field : String) (v : Json) :
    comparisonsOf (fieldClauses (field, Criteria.memberValue v)) =
      comparedWith (Column.fold field.toList) v.merged.operands := by
  cases v with
  | null =>
    simp only [Json.merged]
    rfl
  | object members =>
    simp only [Criteria.memberValue, Json.merged, Json.operands]
    rw [comparedWith, List.filterMap_flatMap]
    refine (comparisonsOf_comparisons _ _).trans (List.flatMap_congr fun op _ => ?_)
    exact contributed_ofMembers _ _ op
  | array items =>
    simp only [Criteria.memberValue, Json.merged, fieldClauses, comparisonsOf_valueClauses]
    exact comparedWith_under _ .eq (.array _)
  | _ =>
    simp only [Criteria.memberValue, Json.merged, fieldClauses, comparisonsOf_valueClauses]
    simp only [Json.operands, Json.under]
    rw [comparedWith_singleton]
    rfl

/-! ### The clauses of criteria -/

/-- The last member of a name is the value of that field. -/
theorem mem_fields_ofMembers (front : List (String × Json)) {back : List (String × Json)}
    {field : String} {v : Json} (hlast : ∀ m ∈ back, m.1 ≠ field) :
    (field, Criteria.memberValue v) ∈
      (Criteria.ofMembers (front ++ (field, v) :: back)).fields := by
  refine Ordered.mem_of_get? ?_
  induction back using List.reverseRecOn with
  | nil =>
    rw [Criteria.ofMembers, List.foldl_append]
    exact (Ordered.get?_put ..).trans (if_pos rfl)
  | append_singleton back m ih =>
    obtain ⟨hback, hm⟩ := List.forall_mem_append.1 hlast
    rw [Criteria.ofMembers, ← List.cons_append, ← List.append_assoc, List.foldl_append]
    refine (Ordered.get?_put ..).trans ?_
    rw [if_neg (hm m (List.mem_singleton.2 rfl))]
    exact ih hback

theorem compile_contains {c : Criteria} {y : Comparison} (hy : y ∈ comparisonsOf (clauses c)) :
    ∃ text, compile c = some text ∧ y.render <:+: text.toList := by
  obtain ⟨k, hk, hy⟩ := List.mem_flatMap.1 hy
  have hne : (clauses c).map Clause.render ≠ [] := List.ne_nil_of_mem (List.mem_map_of_mem hk)
  refine ⟨_, by rw [compile, renderClauses, joinWith_of_ne_nil hne]; rfl, ?_⟩
  rw [String.toList_ofList]
  exact (Clause.render_isInfix hy).trans (isInfix_intercalate (List.mem_map_of_mem hk))

/-- The comparison for a whole number stands at the place of the number among the operands. It holds
the number itself if and only if a signed word holds it, or it is the shortest with its double; and
beyond signed words only a multiple of 1000 is. -/
theorem whole_operand_is_exact_iff (front back : List (String × Json)) (field : String) {v : Json}
    (hlast : ∀ m ∈ back, m.1 ≠ field) {before after : List (Operator × Json)} {op : Operator}
    {n : Int} (hoperands : v.merged.operands = before ++ (op, .int n) :: after)
    (hlow : -0x8000000000000000 ≤ n) (hhigh : n < 0x10000000000000000) :
    ∃ word : List Char,
      (∃ first last, comparisonsOf (clauses (.ofMembers (front ++ (field, v) :: back))) = first ++
        (comparedWith (Column.fold field.toList) before ++
          ⟨Column.fold field.toList, op, .bare word⟩ ::
            comparedWith (Column.fold field.toList) after) ++ last) ∧
      (∃ text, compile (.ofMembers (front ++ (field, v) :: back)) = some text ∧
        (⟨Column.fold field.toList, op, .bare word⟩ : Comparison).render <:+: text.toList) ∧
      (word = (toString n).toList ↔ n < 0x8000000000000000 ∨ IsShortest n.toNat) ∧
      (0x8000000000000000 ≤ n → word = (toString n).toList → 1000 ∣ n) := by
  obtain ⟨word, hliteral, hexact⟩ := exists_literal?_int hlow hhigh
  have hcomparison : comparison? (Column.fold field.toList) op (Scalar.ofJson (.int n)) =
      some ⟨Column.fold field.toList, op, .bare word⟩ := by
    rw [comparison?, hliteral]
    rfl
  have hfield : comparisonsOf (fieldClauses (field, Criteria.memberValue v)) =
      comparedWith (Column.fold field.toList) before ++
        ⟨Column.fold field.toList, op, .bare word⟩ ::
          comparedWith (Column.fold field.toList) after := by
    rw [comparisonsOf_fieldClauses, hoperands, comparedWith, List.filterMap_append]
    exact congrArg _ (List.filterMap_cons_some hcomparison)
  obtain ⟨first, last, hsplit⟩ := List.append_of_mem (mem_fields_ofMembers front hlast)
  have hall : comparisonsOf (clauses (.ofMembers (front ++ (field, v) :: back))) =
      comparisonsOf (first.flatMap fieldClauses) ++
        (comparedWith (Column.fold field.toList) before ++
          ⟨Column.fold field.toList, op, .bare word⟩ ::
            comparedWith (Column.fold field.toList) after) ++
        comparisonsOf (last.flatMap fieldClauses) := by
    rw [← hfield, clauses, hsplit, List.flatMap_append, List.flatMap_cons]
    simp only [comparisonsOf, List.flatMap_append, List.append_assoc]
  refine ⟨word, ⟨_, _, hall⟩, compile_contains ?_, hexact, fun hlarge hword => ?_⟩
  · rw [hall]
    simp
  · have hshortest := (hexact.1 hword).resolve_left (by omega)
    have hlog := log2_toNat_of_large hlarge hhigh
    have hdvd := hshortest.thousand_dvd (by omega) (by omega)
    omega

/-- The greatest signed word in a list under an operator, behind another operand. -/
theorem greatest_word_is_exact : ∃ text, compile (.ofMembers [("size", .int (-1)),
    ("id", .object [("in", .array [.string "x", .int 0x7FFFFFFFFFFFFFFF])])]) = some text ∧
      "ID eq 9223372036854775807".toList <:+: text.toList := by
  have hoperands : (Json.object
      [("in", .array [.string "x", .int 0x7FFFFFFFFFFFFFFF])]).merged.operands =
      [(.eq, .string "x")] ++ (.eq, .int 0x7FFFFFFFFFFFFFFF) :: [] := by
    simp only [Json.merged, Json.mergedItems, Json.mergedMembers]
    rfl
  obtain ⟨word, -, hcontains, hexact, -⟩ := whole_operand_is_exact_iff
    [("size", .int (-1))] [] "id" (by simp) hoperands (by decide) (by decide)
  have hword := hexact.2 (.inl (by decide))
  rw [hword] at hcontains
  exact hcontains

/-- The number after the greatest signed word is rounded. -/
theorem number_behind_words_is_rounded :
    (Json.int 0x8000000000000000).operands = [(.eq, .int 0x8000000000000000)] ∧
      compile (.ofMembers [("id", .int 0x8000000000000000)]) = some "ID eq 9223372036854776000" ∧
      toString (0x8000000000000000 : Int) = "9223372036854775808" := by
  refine ⟨rfl, by decide +kernel, by decide +kernel⟩

end Filter

end ResourceApi
