import ResourceApi.Calendar
import ResourceApi.Json.Basic

/-!
Scalars: the single values that a search can compare with.
-/

namespace ResourceApi

inductive Scalar where
  | null
  | bool (value : Bool)
  | int (value : Int)
  | float (value : Decimal.Binary64)
  | string (value : String)
  | date (value : Date)
  | instant (value : Instant)
  deriving DecidableEq, Repr

namespace Scalar

/-- Reads a JSON value. A whole number that no signed word holds becomes the nearest double; arrays
and objects have no scalar form and count as null. -/
def ofJson : Json → Scalar
  | .bool b => .bool b
  | .int n => if -0x8000000000000000 ≤ n ∧ n < 0x8000000000000000 then .int n else .float (.ofInt n)
  | .double x => .float x
  | .string s => .string s
  | .null | .array _ | .object _ => .null

end Scalar

end ResourceApi
