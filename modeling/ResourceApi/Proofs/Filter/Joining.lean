import ResourceApi.Proofs.Filter.Column
import ResourceApi.Proofs.Filter.Meaning

/-!
Filters joined as texts. A text that the client makes is never blank and holds no alternative at its
top, since every list stands in parentheses. So it does not matter whether clauses are joined at
once or in groups, and the conjuncts of a joined text are those of its fragments, one after the
other.
-/

namespace ResourceApi

namespace Criteria

/-- Criteria with the fields of others set behind their own. -/
def followedBy (c d : Criteria) : Criteria :=
  d.fields.foldl (fun c f => c.setOption f.1 f.2) c

theorem fields_followedBy {c d : Criteria} (hkeys : (Ordered.keys d.fields).Nodup)
    (hdisjoint : (Ordered.keys c.fields).Disjoint (Ordered.keys d.fields)) :
    (c.followedBy d).fields = c.fields ++ d.fields := by
  obtain ⟨fields⟩ := d
  rw [followedBy]
  induction fields generalizing c with
  | nil => simp
  | cons f fields ih =>
    obtain ⟨hf, hrest⟩ := List.nodup_cons.1 hkeys
    obtain ⟨hnew, hdisjoint⟩ := List.disjoint_cons_right.1 hdisjoint
    have hput : (c.setOption f.1 f.2).fields = c.fields ++ [f] := Ordered.put_of_notMem hnew f.2
    have hdisjoint' : (Ordered.keys (c.setOption f.1 f.2).fields).Disjoint
        (Ordered.keys fields) := by
      rw [hput, Ordered.keys, List.map_append]
      exact List.disjoint_append_left.2 ⟨hdisjoint, List.singleton_disjoint.2 hf⟩
    rw [List.foldl_cons, ih hrest hdisjoint', hput, List.append_assoc, List.singleton_append]

end Criteria

namespace Filter

open Text

/-! ### No text is blank -/

theorem not_blank_of_subset {s t : List Char} (h : s ⊆ t) (hs : s.all isBlank = false) :
    t.all isBlank = false := by
  obtain ⟨c, hc, hblank⟩ := List.all_eq_false.1 hs
  exact List.all_eq_false.2 ⟨c, h hc, hblank⟩

theorem not_blank_of_joinWith {word text : List Char} {parts : List (List Char)}
    (h : joinWith word parts = some text) (hparts : ∀ p ∈ parts, p.all isBlank = false) :
    text.all isBlank = false := by
  cases parts with
  | nil => cases h
  | cons p parts =>
    obtain rfl := Option.some.inj h
    have hpart : p <:+: word.intercalate (p :: parts) := isInfix_intercalate List.mem_cons_self
    exact not_blank_of_subset hpart.subset (hparts p List.mem_cons_self)

theorem Comparison.render_not_blank (c : Comparison) : c.render.all isBlank = false := by
  have hname : c.operator.name.toList.all isBlank = false := by cases c.operator <;> decide
  refine not_blank_of_subset (fun x hx => ?_) hname
  simp [Comparison.render, hx]

theorem Clause.render_not_blank (k : Clause) : k.render.all isBlank = false := by
  have hsome : ∃ y, y ∈ k.alternatives := by cases k <;> exact ⟨_, List.mem_cons_self⟩
  obtain ⟨y, hy⟩ := hsome
  exact not_blank_of_subset (Clause.render_isInfix hy).subset y.render_not_blank

/-! ### Joining in groups -/

/-- The fragments that are joined. -/
def kept (fragments : List String) : List (List Char) :=
  (fragments.map String.toList).filter fun f => !f.all isBlank

theorem join_eq (fragments : List String) :
    join fragments = (joinWith andWord (kept fragments)).map String.ofList := rfl

theorem mem_kept {fragments : List String} {f : List Char} (h : f ∈ kept fragments) :
    f.all isBlank = false := by
  simpa using (List.mem_filter.1 h).2

theorem kept_append (xs ys : List String) : kept (xs ++ ys) = kept xs ++ kept ys := by
  simp [kept]

theorem kept_map_ofList {texts : List (List Char)} (h : ∀ f ∈ texts, f.all isBlank = false) :
    kept (texts.map String.ofList) = texts := by
  have hmap : (texts.map String.ofList).map String.toList = texts := by simp
  rw [kept, hmap, List.filter_eq_self]
  intro f hf
  simp [h f hf]

/-- Texts that are joined from parts, some perhaps from none, join to the text of all parts. -/
theorem join_filterMap {α : Type} (as : List α) (parts : α → List (List Char))
    (hparts : ∀ a ∈ as, ∀ p ∈ parts a, p.all isBlank = false) :
    join (as.filterMap fun a => (joinWith andWord (parts a)).map String.ofList) =
      (joinWith andWord (as.flatMap parts)).map String.ofList := by
  have hkept : kept (as.filterMap fun a => (joinWith andWord (parts a)).map String.ofList) =
      (as.map parts).filterMap (joinWith andWord) := by
    rw [← List.map_filterMap, kept_map_ofList, List.filterMap_map]
    · rfl
    · intro f hf
      obtain ⟨a, ha, hfa⟩ := List.mem_filterMap.1 hf
      exact not_blank_of_joinWith hfa (hparts a ha)
  rw [join_eq, hkept, ← joinWith_flatten, List.flatMap]

/-- Fragments can be joined in two steps. -/
theorem join_append (xs ys : List String) :
    join (xs ++ ys) = join ((join xs).toList ++ (join ys).toList) := by
  have hgroups : (join xs).toList ++ (join ys).toList = [xs, ys].filterMap join := by
    cases hx : join xs <;> cases hy : join ys <;> simp [hx, hy]
  have hjoin := join_filterMap [xs, ys] kept fun _ _ _ => mem_kept
  have hall : [xs, ys].flatMap kept = kept (xs ++ ys) := by simp [kept_append]
  rw [hgroups]
  rw [hall] at hjoin
  exact hjoin.symm

/-! ### Fragments -/

/-- A filter text that the client makes: that of criteria, or a search for texts that begin with a
value. -/
inductive Fragment where
  | compiled (criteria : Criteria)
  | wildcard (field value : String)

namespace Fragment

def text? : Fragment → Option String
  | .compiled c => compile c
  | .wildcard field value => some (Filter.wildcard field value)

def clauses : Fragment → List Clause
  | .compiled c => Filter.clauses c
  | .wildcard field value =>
    [.one ⟨Column.fold field.toList, .like, .quoted (value.toList ++ ['*'])⟩]

def expressions (f : Fragment) : List Expression := f.clauses.map Clause.expression

def HasWordColumns : Fragment → Prop
  | .compiled c => c.HasWordColumns
  | .wildcard field _ => IsWord (Column.fold field.toList)

instance : DecidablePred HasWordColumns
  | .compiled c => inferInstanceAs (Decidable c.HasWordColumns)
  | .wildcard field _ => inferInstanceAs (Decidable (IsWord (Column.fold field.toList)))

theorem text?_eq (f : Fragment) : f.text? = (renderClauses f.clauses).map String.ofList := by
  cases f with
  | compiled c => rfl
  | wildcard field value =>
    simp [text?, Filter.wildcard, clauses, renderClauses, joinWith, Clause.render]

theorem text?_eq_none_iff (f : Fragment) : f.text? = none ↔ f.clauses = [] := by
  rw [text?_eq, Option.map_eq_none_iff, renderClauses, joinWith_eq_none_iff, List.map_eq_nil_iff]

theorem isWritten_clauses {f : Fragment} (hcol : f.HasWordColumns) {k : Clause}
    (hk : k ∈ f.clauses) : ∀ y ∈ k.alternatives, y.IsWritten := by
  cases f with
  | compiled c => exact Filter.isWritten_clauses hcol hk
  | wildcard field value =>
    obtain rfl := List.mem_singleton.1 hk
    intro y hy
    obtain rfl := List.mem_singleton.1 hy
    exact ⟨hcol, Operator.noConfusion, trivial⟩

end Fragment

def texts (fs : List Fragment) : List String := fs.filterMap Fragment.text?

/-- Fragments join to the text of all their clauses, whatever their columns are. -/
theorem join_texts (fs : List Fragment) :
    join (texts fs) = (renderClauses (fs.flatMap Fragment.clauses)).map String.ofList := by
  have hparts : ∀ f ∈ fs, ∀ p ∈ f.clauses.map Clause.render, p.all isBlank = false := by
    intro f _ p hp
    obtain ⟨k, -, rfl⟩ := List.mem_map.1 hp
    exact k.render_not_blank
  have htext : Fragment.text? = fun f => (joinWith andWord (f.clauses.map Clause.render)).map
      String.ofList := funext Fragment.text?_eq
  rw [texts, htext, join_filterMap fs _ hparts, renderClauses, List.map_flatMap]

theorem join_texts_eq_none_iff (fs : List Fragment) : join (texts fs) = none ↔ texts fs = [] := by
  rw [join_texts, Option.map_eq_none_iff, renderClauses, joinWith_eq_none_iff,
    List.map_eq_nil_iff, List.flatMap_eq_nil_iff, texts, List.filterMap_eq_nil_iff]
  simp only [Fragment.text?_eq_none_iff]

/-- Compiling criteria together or apart gives the same filter. -/
theorem compile_followedBy {c d : Criteria} (hkeys : (Ordered.keys d.fields).Nodup)
    (hdisjoint : (Ordered.keys c.fields).Disjoint (Ordered.keys d.fields)) :
    compile (c.followedBy d) = join ((compile c).toList ++ (compile d).toList) := by
  have htexts : (compile c).toList ++ (compile d).toList = texts [.compiled c, .compiled d] := by
    cases hc : compile c <;> cases hd : compile d <;> simp [texts, Fragment.text?, hc, hd]
  have hclauses : clauses (c.followedBy d) =
      [Fragment.compiled c, .compiled d].flatMap Fragment.clauses := by
    simp [clauses, Fragment.clauses, Criteria.fields_followedBy hkeys hdisjoint]
  rw [htexts, join_texts, compile, hclauses]

/-! ### Conjuncts -/

def conjuncts? (text : String) : Option (List Expression) :=
  (read? text.toList).map Expression.conjuncts

theorem conjuncts_expression (k : Clause) : k.expression.conjuncts = [k.expression] := by
  cases k <;> rfl

/-- Clauses are read back one by one: no alternative reaches beyond its own clause. -/
theorem conjuncts?_renderClauses {ks : List Clause}
    (h : ∀ k ∈ ks, ∀ c ∈ k.alternatives, c.IsWritten) {text : List Char}
    (htext : renderClauses ks = some text) :
    conjuncts? (String.ofList text) = some (ks.map Clause.expression) := by
  cases ks with
  | nil => cases htext
  | cons k more =>
    obtain rfl := Option.some.inj htext
    have hread := read?_eq_some_iff.2 (spells_clauses h).lone
    have hconjuncts : (Expression.allOf k.expression (more.map Clause.expression)).conjuncts =
        (k :: more).map Clause.expression := by
      rw [Expression.conjuncts_allOf, ← List.map_cons (f := Clause.expression), List.flatMap_map]
      simp only [conjuncts_expression]
      exact List.flatMap_pure_eq_map _ _
    rw [conjuncts?, String.toList_ofList, hread, Option.map_some, hconjuncts]

/-- A fragment with a text reads as its clauses; one without a text has none. -/
theorem mapM_conjuncts?_texts {fs : List Fragment} (hcol : ∀ f ∈ fs, f.HasWordColumns) :
    ∃ parts, (texts fs).mapM conjuncts? = some parts ∧
      parts.flatten = fs.flatMap Fragment.expressions := by
  induction fs with
  | nil => exact ⟨[], rfl, rfl⟩
  | cons f fs ih =>
    obtain ⟨parts, hparts, hflatten⟩ := ih fun g hg => hcol g (List.mem_cons_of_mem _ hg)
    rw [List.flatMap_cons, ← hflatten]
    cases htext : f.text? with
    | none =>
      have hnil : f.expressions = [] := by
        rw [Fragment.expressions, f.text?_eq_none_iff.1 htext, List.map_nil]
      refine ⟨parts, ?_, by rw [hnil, List.nil_append]⟩
      rwa [texts, List.filterMap_cons_none htext]
    | some text =>
      have hread : conjuncts? text = some f.expressions := by
        rw [f.text?_eq] at htext
        obtain ⟨s, hs, rfl⟩ := Option.map_eq_some_iff.1 htext
        have hf := hcol f List.mem_cons_self
        exact conjuncts?_renderClauses (fun _ => Fragment.isWritten_clauses hf) hs
      refine ⟨f.expressions :: parts, ?_, List.flatten_cons⟩
      rw [texts, List.filterMap_cons_some htext, List.mapM_cons, hread, ← texts, hparts]
      rfl

/-- Joined fragments say what each of them says, one after the other. -/
theorem conjuncts?_join {fs : List Fragment} (hcol : ∀ f ∈ fs, f.HasWordColumns) {text : String}
    (h : join (texts fs) = some text) :
    conjuncts? text = some (fs.flatMap Fragment.expressions) := by
  rw [join_texts] at h
  obtain ⟨s, hs, rfl⟩ := Option.map_eq_some_iff.1 h
  have hwritten : ∀ k ∈ fs.flatMap Fragment.clauses, ∀ y ∈ k.alternatives, y.IsWritten := by
    intro k hk
    obtain ⟨f, hf, hkf⟩ := List.mem_flatMap.1 hk
    exact Fragment.isWritten_clauses (hcol f hf) hkf
  rw [conjuncts?_renderClauses hwritten hs, List.map_flatMap]
  rfl

/-- Joining composes. Criteria behind others compile to the join of their texts, a join can be cut
anywhere, and what fragments join to is read as the conjunction of their own conjuncts, in order. -/
theorem join_composes (c d : Criteria) (hkeys : (Ordered.keys d.fields).Nodup)
    (hdisjoint : (Ordered.keys c.fields).Disjoint (Ordered.keys d.fields)) (xs ys : List String)
    (fs : List Fragment) (hcol : ∀ f ∈ fs, f.HasWordColumns) :
    (c.followedBy d).fields = c.fields ++ d.fields ∧
      compile (c.followedBy d) = join ((compile c).toList ++ (compile d).toList) ∧
      join (xs ++ ys) = join ((join xs).toList ++ (join ys).toList) ∧
      (join (texts fs) = none ↔ texts fs = []) ∧
      ∃ parts, (texts fs).mapM conjuncts? = some parts ∧
        parts.flatten = fs.flatMap Fragment.expressions ∧
        ∀ text, join (texts fs) = some text → ∃ e, read? text.toList = some e ∧
          e.conjuncts = parts.flatten ∧ ∀ I, e.Holds I ↔ ∀ es ∈ parts, ∀ x ∈ es, x.Holds I := by
  obtain ⟨parts, hparts, hflatten⟩ := mapM_conjuncts?_texts hcol
  refine ⟨Criteria.fields_followedBy hkeys hdisjoint, compile_followedBy hkeys hdisjoint,
    join_append xs ys, join_texts_eq_none_iff fs, parts, hparts, hflatten, fun text htext => ?_⟩
  have hjoined := conjuncts?_join hcol htext
  rw [← hflatten] at hjoined
  obtain ⟨e, hread, hconjuncts⟩ := Option.map_eq_some_iff.1 hjoined
  refine ⟨e, hread, hconjuncts, fun I => ?_⟩
  rw [Expression.holds_iff_conjuncts, hconjuncts, List.forall_mem_flatten]

/-- A list, a field without a value and comparisons. -/
def labelled : Criteria :=
  ⟨[("tags", some (.list [.string "a or b", .null, .int 2])), ("gone", none)]⟩

def priced : Criteria :=
  ⟨[("price", some (.comparisons ((Comparisons.empty.set .gte (.scalar (.int 1))).set .in
      (.list [.int 3, .int 4])))), ("open", some (.scalar (.bool true)))]⟩

/-- An alternative, criteria that ask for nothing, and a value that looks like the language. -/
def searched : List Fragment :=
  [.compiled labelled, .compiled ⟨[("gone", none)]⟩, .wildcard "ownerName" "O'Neil or (x"]

/-- Alternatives keep their parentheses, and a value that looks like the language stays a value. -/
theorem searched_composes :
    (Ordered.keys priced.fields).Nodup ∧
      (Ordered.keys labelled.fields).Disjoint (Ordered.keys priced.fields) ∧
      (∀ f ∈ searched, f.HasWordColumns) ∧
      compile (labelled.followedBy priced) = some ("(TAGS eq 'a or b' or TAGS eq 2) and " ++
        "PRICE gte 1 and (PRICE eq 3 or PRICE eq 4) and OPEN eq true") ∧
      join ["A eq 1 or B eq 2", " \t", "C eq 3"] = some "A eq 1 or B eq 2 and C eq 3" ∧
      ∃ e, read? ("(TAGS eq 'a or b' or TAGS eq 2) and " ++
          "OWNER_NAME like 'O''Neil or (x*'").toList = some e ∧
        e.conjuncts = searched.flatMap Fragment.expressions := by
  have hkeys : (Ordered.keys priced.fields).Nodup := by decide
  have hdisjoint : (Ordered.keys labelled.fields).Disjoint (Ordered.keys priced.fields) :=
    List.disjoint_left.2 (by decide)
  have hcol : ∀ f ∈ searched, f.HasWordColumns := by decide
  have htext : join (texts searched) = some ("(TAGS eq 'a or b' or TAGS eq 2) and " ++
      "OWNER_NAME like 'O''Neil or (x*'") := rfl
  obtain ⟨-, hcompile, hcut, -, parts, -, hflatten, hread⟩ := join_composes labelled priced hkeys
    hdisjoint ["A eq 1 or B eq 2"] [" \t", "C eq 3"] searched hcol
  obtain ⟨e, he, hconjuncts, -⟩ := hread _ htext
  exact ⟨hkeys, hdisjoint, hcol, hcompile.trans rfl, hcut.trans rfl, e, he,
    hconjuncts.trans hflatten⟩

end Filter

end ResourceApi
