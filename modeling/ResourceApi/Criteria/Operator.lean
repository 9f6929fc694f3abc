import ResourceApi.Criteria.Scalar

/-!
Comparison operators, and what one field is compared with: at most one operand for each operator.
Setting an operator again replaces its operand, and operators are listed in the order in which
they are declared, whatever the order in which they were set.
-/

namespace ResourceApi

inductive Operator where
  | eq | ne | like | gt | gte | lt | lte | in
  deriving DecidableEq, Repr

namespace Operator

def all : List Operator := [.eq, .ne, .like, .gt, .gte, .lt, .lte, .in]

def name : Operator → String
  | .eq => "eq"
  | .ne => "ne"
  | .like => "like"
  | .gt => "gt"
  | .gte => "gte"
  | .lt => "lt"
  | .lte => "lte"
  | .in => "in"

def ofName? (s : String) : Option Operator := all.find? (·.name == s)

@[simp] theorem mem_all (op : Operator) : op ∈ all := by cases op <;> decide

theorem ofName?_name (op : Operator) : ofName? op.name = some op := by cases op <;> decide

end Operator

inductive Operand where
  | scalar (value : Scalar)
  | list (items : List Scalar)
  deriving DecidableEq, Repr

/-- An array is a list of scalars and everything else is a scalar. -/
def Operand.ofJson : Json → Operand
  | .array items => .list (items.map Scalar.ofJson)
  | v => .scalar (.ofJson v)

structure Comparisons where
  operand : Operator → Option Operand

namespace Comparisons

def empty : Comparisons := ⟨fun _ => none⟩

def set (c : Comparisons) (op : Operator) (x : Operand) : Comparisons :=
  ⟨fun o => if o = op then some x else c.operand o⟩

/-- The operators that are set, in declared order, with their operands. -/
def toList (c : Comparisons) : List (Operator × Operand) :=
  Operator.all.filterMap fun op => (c.operand op).map (op, ·)

def isEmpty (c : Comparisons) : Bool := c.toList.isEmpty

/-- Reads the members of a JSON object; names that are no operators are passed over. -/
def ofMembers (members : List (String × Json)) : Comparisons :=
  members.foldl (fun c m => match Operator.ofName? m.1 with
    | some op => c.set op (.ofJson m.2)
    | none => c) empty

@[simp] theorem operand_empty (op : Operator) : empty.operand op = none := rfl

@[simp] theorem operand_set_self (c : Comparisons) (op : Operator) (x : Operand) :
    (c.set op x).operand op = some x := by simp [set]

theorem operand_set_of_ne (c : Comparisons) {o op : Operator} (x : Operand) (h : o ≠ op) :
    (c.set op x).operand o = c.operand o := by simp [set, h]

end Comparisons

end ResourceApi
