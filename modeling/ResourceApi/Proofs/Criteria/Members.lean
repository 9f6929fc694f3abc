import ResourceApi.Proofs.Criteria.Edits
import ResourceApi.Proofs.Filter.Comparator
import ResourceApi.Proofs.Ordered

/-!
Criteria from the members of a JSON object, in which a name may stand several times. They are the
criteria that are built by setting one field after the other, so that a field stands where its name
stood first and has the value that its name had last. It makes no difference whether the object is
read as a map before, nor whether the objects inside it are.
-/

namespace ResourceApi

/-! ### Values inside -/

namespace Json

theorem mergedItems_eq_map (items : List Json) : mergedItems items = items.map merged := by
  induction items with
  | nil => rfl
  | cons v items ih => rw [mergedItems, ih, List.map_cons]

theorem mergedMembers_eq_map (members : List (String × Json)) :
    mergedMembers members = members.map fun m => (m.1, m.2.merged) := by
  induction members with
  | nil => rfl
  | cons m members ih => rw [mergedMembers, ih, List.map_cons]

/-- An object becomes a map of its members, each of them merged first. -/
theorem merged_object (members : List (String × Json)) :
    (object members).merged =
      .object (Ordered.ofPairs (members.map fun m => (m.1, m.2.merged))) := by
  rw [merged, mergedMembers_eq_map]

theorem merged_array (items : List Json) : (array items).merged = .array (items.map merged) := by
  rw [merged, mergedItems_eq_map]

end Json

theorem Scalar.ofJson_merged (v : Json) : Scalar.ofJson v.merged = Scalar.ofJson v := by
  cases v <;> simp only [Json.merged] <;> rfl

/-- Repeated keys inside an operand do not count, as objects have no scalar form. -/
theorem Operand.ofJson_merged (v : Json) : Operand.ofJson v.merged = Operand.ofJson v := by
  cases v with
  | array items =>
    rw [Json.merged_array, Operand.ofJson, Operand.ofJson, List.map_map]
    exact congrArg Operand.list (List.map_congr_left fun x _ => Scalar.ofJson_merged x)
  | object members => rfl
  | _ => simp only [Json.merged]

namespace Comparisons

theorem ext {c c' : Comparisons} (h : ∀ op, c.operand op = c'.operand op) : c = c' :=
  congrArg Comparisons.mk (funext h)

/-- An operator has the operand that stands behind its name last. -/
theorem operand_ofMembers_eq_last? (members : List (String × Json)) (op : Operator) :
    (ofMembers members).operand op = (Ordered.last? op.name members).map Operand.ofJson := by
  rw [operand_ofMembers, Ordered.last?, Option.map_map]
  rfl

/-- Members that give the same value to each operator last give the same comparisons. -/
theorem ofMembers_congr {members members' : List (String × Json)}
    (h : ∀ op : Operator, (Ordered.last? op.name members).map Operand.ofJson =
      (Ordered.last? op.name members').map Operand.ofJson) :
    ofMembers members = ofMembers members' := by
  refine ext fun op => ?_
  rw [operand_ofMembers_eq_last?, operand_ofMembers_eq_last?, h]

end Comparisons

/-- A value is compared with the same whether its objects are maps or repeat their keys. -/
theorem Condition.ofJson_merged (v : Json) : Condition.ofJson v.merged = Condition.ofJson v := by
  cases v with
  | object members =>
    rw [Json.merged_object, Condition.ofJson, Condition.ofJson]
    refine congrArg Condition.comparisons (Comparisons.ofMembers_congr fun op => ?_)
    rw [Ordered.last?_ofPairs, Ordered.last?_map_snd, Option.map_map]
    exact congrArg (Option.map · _) (funext Operand.ofJson_merged)
  | array items =>
    rw [Json.merged_array, Condition.ofJson, Condition.ofJson, List.map_map]
    exact congrArg Condition.list (List.map_congr_left fun x _ => Scalar.ofJson_merged x)
  | _ => simp only [Json.merged]

/-! ### Fields -/

namespace Criteria

/-- What one sets a field to for a JSON value: to nothing for null, else to what it stands for. -/
def given : Json → Option Condition
  | .null => none
  | v => some (.ofJson v)

def built (members : List (String × Json)) : Criteria :=
  members.foldl (fun c m => c.setOption m.1 (given m.2)) empty

theorem memberValue_eq_given (v : Json) : memberValue v = given v := by
  cases v <;> simp only [memberValue, given, Condition.ofJson_merged]

/-- Merging a value does not change what it stands for. -/
theorem given_merged (v : Json) : given v.merged = given v := by
  cases v with
  | object members =>
    have hvalue := Condition.ofJson_merged (.object members)
    rw [Json.merged_object] at hvalue ⊢
    exact congrArg some hvalue
  | array items =>
    have hvalue := Condition.ofJson_merged (.array items)
    rw [Json.merged_array] at hvalue ⊢
    exact congrArg some hvalue
  | _ => simp only [Json.merged]

/-- The members of an object are set in turn. -/
theorem ofMembers_eq_built (members : List (String × Json)) :
    ofMembers members = built members := by
  simp only [ofMembers, built, memberValue_eq_given]

/-- Each field keeps its first place and has the last of its values. -/
theorem fields_built (members : List (String × Json)) :
    (built members).fields = Ordered.ofPairs (members.map fun m => (m.1, given m.2)) := by
  induction members using List.reverseRecOn with
  | nil => rfl
  | append_singleton members m ih =>
    rw [List.map_append, List.map_singleton, Ordered.ofPairs_append, ← ih, built,
      List.foldl_append]
    rfl

/-- An object that is read as a map gives the same criteria. -/
theorem built_merged (members : List (String × Json)) :
    built (Ordered.ofPairs (members.map fun m => (m.1, m.2.merged))) = built members := by
  have hkeys := Ordered.nodup_keys_ofPairs (members.map fun m => (m.1, m.2.merged))
  have hfields : (built (Ordered.ofPairs (members.map fun m => (m.1, m.2.merged)))).fields =
      (built members).fields := by
    rw [fields_built, fields_built, Ordered.ofPairs_eq_self (by rwa [Ordered.keys_map_snd]),
      ← Ordered.ofPairs_map_snd, List.map_map]
    refine congrArg Ordered.ofPairs (List.map_congr_left fun m _ => ?_)
    rw [Function.comp, given_merged]
  exact congrArg Criteria.mk hfields

/-- Every name has its place and its value. -/
theorem fields_built_eq (members : List (String × Json)) :
    (built members).fields = (Ordered.keys members).eraseDups.filterMap fun n =>
      (Ordered.last? n members).map fun v => (n, given v) := by
  rw [fields_built, Ordered.ofPairs_eq_filterMap, Ordered.keys_map_snd]
  simp only [Ordered.last?_map_snd, Option.map_map]
  rfl

/-- Criteria are the same whether repeated keys are merged first or not. -/
theorem ofJson?_merged (v : Json) : ofJson? v.merged = ofJson? v := by
  cases v with
  | object members =>
    rw [Json.merged_object, ofJson?, ofJson?, ofMembers_eq_built, ofMembers_eq_built, built_merged]
  | array items =>
    rw [Json.merged_array]
    rfl
  | _ => simp only [Json.merged]

/-- The members of a JSON object make the same criteria, whether they are read one after the other,
read from a map, or set by hand; a field stands where its name stood first, and has the value that
its name had last, even if this is null. -/
theorem members_make_built (members : List (String × Json)) :
    ofJson? (.object members) = some (built members) ∧
      ofJson? (Json.object members).merged = some (built members) ∧
      (built members).fields = (Ordered.keys members).eraseDups.filterMap (fun n =>
        (Ordered.last? n members).map fun v => (n, given v)) ∧
      (Filter.compile (built members)).map String.toList = Filter.joinWith Filter.andWord
        ((Ordered.keys members).eraseDups.filterMap fun n => (Ordered.last? n members).bind fun v =>
          (Filter.compile ⟨[(n, given v)]⟩).map String.toList) ∧
      ∀ text, (Json.ofText? text).bind ofJson? = ofText? text := by
  have hread : ofJson? (.object members) = some (built members) := by
    rw [ofJson?, ofMembers_eq_built]
  refine ⟨hread, by rw [ofJson?_merged, hread], fields_built_eq members, ?_, fun text => ?_⟩
  · rw [toList_compile, fields_built_eq, List.filterMap_filterMap]
    refine congrArg _ (List.filterMap_congr fun n _ => ?_)
    rw [Option.bind_map]
    rfl
  · have hvalue : Json.ofText? text = (Json.ofTextRaw? text).map Json.merged := rfl
    rw [hvalue, Option.bind_map, ofText?]
    exact congrArg _ (funext ofJson?_merged)

/-- A field that ends up without a value, and one whose last value has an operator twice. -/
example : Filter.compile (built [("a", .int 1), ("b", .object [("gt", .int 2)]), ("a", .null),
    ("c", .array [.int 3, .string "x"]), ("b", .object [("lt", .int 5), ("gt", .int 1),
      ("lt", .int 7)])]) = some "B gt 1 and B lt 7 and (C eq 3 or C eq 'x')" := by
  decide +kernel

end Criteria

end ResourceApi
