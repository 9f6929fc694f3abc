import ResourceApi.Column
import ResourceApi.Criteria.Basic
import ResourceApi.Filter.Clause
import ResourceApi.Text.Blank

/-!
From criteria to filters. Each field gives its clauses in turn: a scalar an equality, a list an
alternative of equalities, comparisons one clause for each operator. Values without a literal give
nothing, and compiling never fails.
-/

namespace ResourceApi.Filter

def comparison? (column : List Char) (op : Operator) (x : Scalar) : Option Comparison :=
  x.literal?.map fun l => ⟨column, op, l⟩

def anyOf? (column : List Char) (items : List Scalar) : Option Clause :=
  Clause.ofAlternatives (items.filterMap (comparison? column .eq))

/-- Membership in a single value is equality with it. -/
def operand? (column : List Char) : Operator × Operand → Option Clause
  | (_, .list items) => anyOf? column items
  | (.in, .scalar x) => (comparison? column .eq x).map .one
  | (op, .scalar x) => (comparison? column op x).map .one

def valueClauses (column : List Char) : Condition → List Clause
  | .scalar x => ((comparison? column .eq x).map .one).toList
  | .list items => (anyOf? column items).toList
  | .comparisons c => c.toList.filterMap (operand? column)

def fieldClauses : String × Option Condition → List Clause
  | (_, none) => []
  | (field, some v) => valueClauses (Column.fold field.toList) v

def clauses (c : Criteria) : List Clause := c.fields.flatMap fieldClauses

def compile (c : Criteria) : Option String := (renderClauses (clauses c)).map String.ofList

/-- Searches one field for texts that begin with a value. -/
def wildcard (field value : String) : String :=
  String.ofList <| Comparison.render
    ⟨Column.fold field.toList, .like, .quoted (value.toList ++ ['*'])⟩

/-- Joins filter texts as they are; blank ones are left out. -/
def join (fragments : List String) : Option String :=
  (joinWith andWord ((fragments.map String.toList).filter fun f => !f.all Text.isBlank)).map
    String.ofList

end ResourceApi.Filter
