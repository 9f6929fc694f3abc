import ResourceApi.Proofs.Criteria.Members

/-!
The order in which criteria are written down. The operators of a field have an order of their own,
so neither the order of its members nor members that are no operators show in the filter. The fields
have no order but that of their members: if these change places, their clauses do so with them, and
stay what they were.
-/

namespace ResourceApi

/-! ### Operators -/

def Operator.isName (s : String) : Bool := (Operator.ofName? s).isSome

theorem Operator.isName_name (op : Operator) : isName op.name = true := by
  rw [isName, ofName?_name]
  rfl

namespace Comparisons

/-- What is left of operators that were set in turn. -/
def ofSets (sets : List (Operator × Operand)) : Comparisons :=
  sets.foldl (fun c s => c.set s.1 s.2) empty

/-- Of the operands that were set for an operator the last one stays. -/
theorem operand_ofSets (sets : List (Operator × Operand)) (op : Operator) :
    (ofSets sets).operand op = Ordered.last? op sets := by
  induction sets using List.reverseRecOn with
  | nil => rfl
  | append_singleton sets s ih =>
    rw [Ordered.last?_append, ofSets, List.foldl_append, List.foldl_cons, List.foldl_nil, ← ofSets]
    by_cases hs : s.1 = op
    · rw [if_pos hs, ← hs, operand_set_self]
    · rw [if_neg hs, operand_set_of_ne _ _ (Ne.symm hs), ih]

/-- Comparisons agree if each operator was set to the same operand last. -/
theorem ofSets_congr {sets sets' : List (Operator × Operand)}
    (h : ∀ op, Ordered.last? op sets = Ordered.last? op sets') : ofSets sets = ofSets sets' :=
  ext fun op => by rw [operand_ofSets, operand_ofSets, h]

/-- Operators may change places, and names that are no operators may come and go. -/
theorem ofMembers_rearranged {members members' : List (String × Json)}
    (hnames : (Ordered.keys members).Nodup)
    (h : (members'.filter (Operator.isName ·.1)).Perm (members.filter (Operator.isName ·.1))) :
    ofMembers members' = ofMembers members := by
  refine ofMembers_congr fun op => congrArg _ ?_
  have hknown : (Ordered.keys (members.filter (Operator.isName ·.1))).Nodup :=
    hnames.sublist (List.filter_sublist.map _)
  have hname := op.isName_name
  rw [← Ordered.last?_filter hname members', ← Ordered.last?_filter hname members]
  exact (Ordered.last?_perm h.symm hknown op.name).symm

end Comparisons

/-! ### Fields -/

namespace Criteria

/-- A value can be replaced by another one that stands for the same condition. -/
theorem built_replace (front back : List (String × Json)) (field : String) {v v' : Json}
    (h : given v = given v') :
    built (front ++ (field, v) :: back) = built (front ++ (field, v') :: back) := by
  simp only [built, List.foldl_append, List.foldl_cons, h]

/-- Distinct names give their fields in their own order. -/
theorem fields_built_of_nodup {members : List (String × Json)}
    (hnames : (Ordered.keys members).Nodup) :
    (built members).fields = members.map fun m => (m.1, given m.2) := by
  rw [fields_built, Ordered.ofPairs_eq_self (by rwa [Ordered.keys_map_snd])]

def memberClauses (m : String × Json) : List Filter.Clause := Filter.fieldClauses (m.1, given m.2)

/-- Members with distinct names give their clauses one by one. -/
theorem map_fieldClauses_of_nodup {members : List (String × Json)}
    (hnames : (Ordered.keys members).Nodup) :
    (ofMembers members).fields.map Filter.fieldClauses = members.map memberClauses := by
  rw [ofMembers_eq_built, fields_built_of_nodup hnames, List.map_map]
  rfl

/-- The filter of members with distinct names joins what each of them gives. -/
theorem toList_compile_of_nodup {members : List (String × Json)}
    (hnames : (Ordered.keys members).Nodup) :
    (Filter.compile (ofMembers members)).map String.toList = Filter.joinWith Filter.andWord
      (members.filterMap fun m => Filter.renderClauses (memberClauses m)) := by
  have hone : ∀ m : String × Json, (Filter.compile ⟨[(m.1, given m.2)]⟩).map String.toList =
      Filter.renderClauses (memberClauses m) := by
    intro m
    have hclauses : Filter.clauses ⟨[(m.1, given m.2)]⟩ = memberClauses m := by
      simp [Filter.clauses, memberClauses]
    rw [Filter.compile, hclauses, Option.map_map]
    cases Filter.renderClauses (memberClauses m) <;> simp
  rw [toList_compile, ofMembers_eq_built, fields_built_of_nodup hnames, List.filterMap_map]
  exact congrArg _ (List.filterMap_congr fun m _ => hone m)

/-- The members of an operator object may change places, and members that are no operators may come
and go, without any trace in the filter; nor does the order show in which operators are set, if each
is set to the same last. Members of the criteria that change places, with distinct names, take their
clauses with them as they are. -/
theorem filter_of_rearranged :
    (∀ (front back : List (String × Json)) (field : String)
        (members members' : List (String × Json)), (Ordered.keys members).Nodup →
      (members'.filter (Operator.isName ·.1)).Perm (members.filter (Operator.isName ·.1)) →
        Filter.compile (ofMembers (front ++ (field, .object members') :: back)) =
          Filter.compile (ofMembers (front ++ (field, .object members) :: back))) ∧
      (∀ sets sets' : List (Operator × Operand),
        (∀ op, Ordered.last? op sets = Ordered.last? op sets') →
          (Comparisons.ofSets sets).toList = (Comparisons.ofSets sets').toList ∧
            ∀ column, Filter.valueClauses column (.comparisons (.ofSets sets)) =
              Filter.valueClauses column (.comparisons (.ofSets sets'))) ∧
      ∀ members members' : List (String × Json), (Ordered.keys members).Nodup →
        members'.Perm members →
          (ofMembers members).fields.map Filter.fieldClauses = members.map memberClauses ∧
            (ofMembers members').fields.map Filter.fieldClauses = members'.map memberClauses ∧
            (Filter.compile (ofMembers members')).map String.toList =
              Filter.joinWith Filter.andWord
                (members'.filterMap fun m => Filter.renderClauses (memberClauses m)) := by
  refine ⟨fun front back field members members' hnames hperm => ?_, fun sets sets' hlast => ?_,
    fun members members' hnames hperm => ?_⟩
  · have hvalue : given (.object members') = given (.object members) :=
      congrArg (fun c => some (Condition.comparisons c))
        (Comparisons.ofMembers_rearranged hnames hperm)
    rw [ofMembers_eq_built, ofMembers_eq_built, built_replace front back field hvalue]
  · rw [Comparisons.ofSets_congr hlast]
    exact ⟨rfl, fun _ => rfl⟩
  · have hnames' : (Ordered.keys members').Nodup := (hperm.map Prod.fst).nodup_iff.2 hnames
    exact ⟨map_fieldClauses_of_nodup hnames, map_fieldClauses_of_nodup hnames',
      toList_compile_of_nodup hnames'⟩

/-- Two bounds that change places around a name that is no operator, an operator that is set again,
and two fields that change places. -/
theorem rearranged_filters :
    Filter.compile
        (ofMembers [("price", .object [("lt", .int 5), ("near", .int 0), ("gt", .int 1)])]) =
      Filter.compile (ofMembers [("price", .object [("gt", .int 1), ("lt", .int 5)])]) ∧
    Filter.compile (ofMembers [("price", .object [("gt", .int 1), ("lt", .int 5)])]) =
      some "PRICE gt 1 and PRICE lt 5" ∧
    (Comparisons.ofSets [(.lt, .scalar (.int 9)), (.eq, .list []), (.lt, .scalar .null)]).toList =
      (Comparisons.ofSets [(.eq, .list []), (.lt, .scalar .null)]).toList ∧
    (Filter.compile (ofMembers [("b", .string "x"), ("a", .int 1)])).map String.toList =
      Filter.joinWith Filter.andWord ([("b", .string "x"), ("a", .int 1)].filterMap fun m =>
        Filter.renderClauses (memberClauses m)) := by
  obtain ⟨hoperators, hsets, hfields⟩ := filter_of_rearranged
  have hnames : (Ordered.keys [("gt", Json.int 1), ("lt", .int 5)]).Nodup := by decide
  have hperm : ([("lt", Json.int 5), ("near", .int 0), ("gt", .int 1)].filter
      (Operator.isName ·.1)).Perm
        ([("gt", Json.int 1), ("lt", .int 5)].filter (Operator.isName ·.1)) := .swap _ _ _
  have hlast : ∀ op, Ordered.last? op
      [(.lt, .scalar (.int 9)), (.eq, .list []), (.lt, .scalar .null)] =
        Ordered.last? op [(Operator.eq, Operand.list []), (.lt, .scalar .null)] := by
    intro op
    cases op <;> rfl
  have hdistinct : (Ordered.keys [("a", Json.int 1), ("b", .string "x")]).Nodup := by decide
  exact ⟨hoperators [] [] "price" _ _ hnames hperm, by decide +kernel, (hsets _ _ hlast).1,
    (hfields _ _ hdistinct (.swap _ _ _)).2.2⟩

end Criteria

end ResourceApi
