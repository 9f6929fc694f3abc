import ResourceApi.Criteria.Operator
import ResourceApi.Json.Reader

/-!
Search criteria: a map from field names to what the field is compared with, in the order in which
the names were first given. A field may be present without a value; it then counts as a field but
asks for nothing.
-/

namespace ResourceApi

inductive Condition where
  | scalar (value : Scalar)
  | comparisons (value : Comparisons)
  | list (items : List Scalar)

/-- An object holds comparisons, an array alternatives, and everything else is one scalar. -/
def Condition.ofJson : Json → Condition
  | .object members => .comparisons (.ofMembers members)
  | .array items => .list (items.map Scalar.ofJson)
  | v => .scalar (.ofJson v)

structure Criteria where
  fields : List (String × Option Condition)

namespace Criteria

def empty : Criteria := ⟨[]⟩

def setOption (c : Criteria) (field : String) (value : Option Condition) : Criteria :=
  ⟨Ordered.put field value c.fields⟩

def set (c : Criteria) (field : String) (value : Condition) : Criteria :=
  c.setOption field (some value)

/-- The value of a field; a field without a value has none. -/
def get? (c : Criteria) (field : String) : Option Condition :=
  (Ordered.get? field c.fields).join

def remove (c : Criteria) (field : String) : Criteria := ⟨Ordered.erase field c.fields⟩

/-- Removes a field and gives the value that it had. -/
def take (c : Criteria) (field : String) : Option Condition × Criteria :=
  (c.get? field, c.remove field)

def size (c : Criteria) : Nat := c.fields.length

def isEmpty (c : Criteria) : Bool := c.fields.isEmpty

def ofPairs (pairs : List (String × Condition)) : Criteria :=
  pairs.foldl (fun c p => c.set p.1 p.2) empty

/-- A null member is a field without a value. -/
def memberValue : Json → Option Condition
  | .null => none
  | v => some (.ofJson v.merged)

def ofMembers (members : List (String × Json)) : Criteria :=
  members.foldl (fun c m => c.setOption m.1 (memberValue m.2)) empty

/-- Only an object is criteria. -/
def ofJson? : Json → Option Criteria
  | .object members => some (ofMembers members)
  | _ => none

def ofText? (s : String) : Option Criteria := (Json.ofTextRaw? s).bind ofJson?

end Criteria

end ResourceApi
