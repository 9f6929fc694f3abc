import ResourceApi.Decimal.Binary64
import ResourceApi.Ordered

/-!
JSON values. Whole numbers stay apart from doubles, because both the text and the type of a number
matter to what reads it. An object is the list of its members in order; `merged` gives every object
inside a value the meaning of a map, in which a repeated key stands where it stood first, with the
value it had last.
-/

namespace ResourceApi

inductive Json where
  | null
  | bool (value : Bool)
  | int (value : Int)
  | double (value : Decimal.Binary64)
  | string (value : String)
  | array (items : List Json)
  | object (members : List (String × Json))
  deriving Repr

namespace Json

instance : Inhabited Json := ⟨.null⟩

mutual

def merged : Json → Json
  | .array items => .array (mergedItems items)
  | .object members => .object (Ordered.ofPairs (mergedMembers members))
  | v => v

def mergedItems : List Json → List Json
  | [] => []
  | v :: rest => merged v :: mergedItems rest

def mergedMembers : List (String × Json) → List (String × Json)
  | [] => []
  | (k, v) :: rest => (k, merged v) :: mergedMembers rest

end

def asString? : Json → Option String
  | .string s => some s
  | _ => none

/-- A member of an object; a value of another kind has none. -/
def get? (k : String) : Json → Option Json
  | .object members => Ordered.get? k members
  | _ => none

def asInt64? : Json → Option Int
  | .int n => if -0x8000000000000000 ≤ n ∧ n < 0x8000000000000000 then some n else none
  | _ => none

def asUInt64? : Json → Option Nat
  | .int n => if 0 ≤ n ∧ n < 0x10000000000000000 then some n.toNat else none
  | _ => none

def asBool? : Json → Option Bool
  | .bool b => some b
  | _ => none

end Json

end ResourceApi
