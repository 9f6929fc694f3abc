import ResourceApi.Criteria.Operator
import ResourceApi.Filter.Literal

/-!
Filters: conjunctions of clauses, where a clause is one comparison or an alternative of at least
two in parentheses. A filter without clauses has no text at all.
-/

namespace ResourceApi.Filter

structure Comparison where
  column : List Char
  operator : Operator
  literal : Literal
  deriving DecidableEq, Repr

inductive Clause where
  | one (comparison : Comparison)
  | anyOf (first second : Comparison) (more : List Comparison)
  deriving DecidableEq, Repr

/-- One comparison stands alone; there is no clause of none. -/
def Clause.ofAlternatives : List Comparison → Option Clause
  | [] => none
  | [c] => some (.one c)
  | c :: d :: more => some (.anyOf c d more)

def Comparison.render (c : Comparison) : List Char :=
  c.column ++ ' ' :: c.operator.name.toList ++ ' ' :: c.literal.render

def Clause.alternatives : Clause → List Comparison
  | .one c => [c]
  | .anyOf c d more => c :: d :: more

def orWord : List Char := [' ', 'o', 'r', ' ']

def andWord : List Char := [' ', 'a', 'n', 'd', ' ']

def Clause.render : Clause → List Char
  | .one c => c.render
  | .anyOf c d more => '(' :: orWord.intercalate ((c :: d :: more).map Comparison.render) ++ [')']

/-- Joins texts with a word between them; of no texts there is no join. -/
def joinWith (word : List Char) : List (List Char) → Option (List Char)
  | [] => none
  | parts => some (word.intercalate parts)

@[simp] theorem joinWith_nil (word : List Char) : joinWith word [] = none := rfl

theorem joinWith_of_ne_nil {word : List Char} {parts : List (List Char)} (h : parts ≠ []) :
    joinWith word parts = some (word.intercalate parts) := by
  cases parts with
  | nil => exact absurd rfl h
  | cons _ _ => rfl

theorem joinWith_eq_none_iff {word : List Char} {parts : List (List Char)} :
    joinWith word parts = none ↔ parts = [] := by
  cases parts <;> simp [joinWith]

theorem intercalate_append {word : List Char} {as bs : List (List Char)} (ha : as ≠ [])
    (hb : bs ≠ []) :
    word.intercalate (as ++ bs) = word.intercalate as ++ word ++ word.intercalate bs := by
  induction as with
  | nil => exact absurd rfl ha
  | cons a as ih =>
    by_cases has : as = []
    · rw [has, List.singleton_append, List.intercalate_cons_of_ne_nil hb,
        List.intercalate_singleton]
    · have hne : as ++ bs ≠ [] := fun h => has (List.append_eq_nil_iff.1 h).1
      rw [List.cons_append, List.intercalate_cons_of_ne_nil hne, ih has,
        List.intercalate_cons_of_ne_nil has]
      simp only [List.append_assoc]

/-- Every one of the texts is part of what they are joined to. -/
theorem isInfix_intercalate {α : Type} {word x : List α} {parts : List (List α)} (h : x ∈ parts) :
    x <:+: word.intercalate parts := by
  induction parts with
  | nil => cases h
  | cons p parts ih =>
    by_cases hparts : parts = []
    · subst hparts
      obtain rfl := List.mem_singleton.1 h
      exact ⟨[], [], by simp⟩
    · rw [List.intercalate_cons_of_ne_nil hparts]
      rcases List.mem_cons.1 h with rfl | h
      · rw [List.append_assoc]
        exact (List.prefix_append _ _).isInfix
      · exact (ih h).trans (List.suffix_append _ _).isInfix

/-- Joining can be done in groups; a group of no texts counts for nothing. -/
theorem joinWith_flatten (word : List Char) (groups : List (List (List Char))) :
    joinWith word groups.flatten = joinWith word (groups.filterMap (joinWith word)) := by
  induction groups with
  | nil => rfl
  | cons g groups ih =>
    by_cases hg : g = []
    · rw [hg, List.flatten_cons, List.nil_append, ih, List.filterMap_cons_none (joinWith_nil word)]
    · rw [List.flatten_cons, List.filterMap_cons_some (joinWith_of_ne_nil hg)]
      by_cases hrest : groups.flatten = []
      · rw [hrest, joinWith_nil] at ih
        rw [joinWith_eq_none_iff.1 ih.symm, hrest, List.append_nil, joinWith_of_ne_nil hg,
          joinWith_of_ne_nil (List.cons_ne_nil _ []), List.intercalate_singleton]
      · rw [joinWith_of_ne_nil hrest] at ih
        have hparts : groups.filterMap (joinWith word) ≠ [] := by
          intro h
          rw [h] at ih
          cases ih
        rw [joinWith_of_ne_nil hparts] at ih
        have hne : g ++ groups.flatten ≠ [] := fun h => hg (List.append_eq_nil_iff.1 h).1
        rw [joinWith_of_ne_nil hne, joinWith_of_ne_nil (List.cons_ne_nil _ _),
          intercalate_append hg hrest, List.intercalate_cons_of_ne_nil hparts, Option.some.inj ih]

/-- Every comparison of a clause is written in it. -/
theorem Clause.render_isInfix {k : Clause} {y : Comparison} (hy : y ∈ k.alternatives) :
    y.render <:+: k.render := by
  cases k with
  | one c =>
    rw [List.mem_singleton.1 hy]
    exact List.infix_rfl
  | anyOf c d more =>
    have hparts : y.render <:+: orWord.intercalate ((c :: d :: more).map Comparison.render) :=
      isInfix_intercalate (List.mem_map_of_mem hy)
    exact hparts.trans ⟨['('], [')'], rfl⟩

def renderClauses (clauses : List Clause) : Option (List Char) :=
  joinWith andWord (clauses.map Clause.render)

end ResourceApi.Filter
