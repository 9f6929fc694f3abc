import ResourceApi.Client.Collection

/-!
The operations of a collection behind one interface: each is either a single call or the walk over
all pages, and each ends with a failure or with a JSON value, which for a deletion is null. The walk
is given the number of requests that it may send; it ends without an answer only if it would need
more.
-/

namespace ResourceApi

inductive Operation where
  | call (call : Call)
  | listAll (criteria : Option Criteria) (options : Option RequestOptions)

namespace Operation

variable {σ α : Type}

/-- An answer that does not depend on a number of requests. -/
def settled (r : Except Failure Json × σ) : Option (Except Failure Json) × σ := (some r.1, r.2)

/-- Runs an operation on the collection at a path, for records that are read and printed so. -/
def run (dispatch : Dispatcher σ) (read : Json → Option α) (print : α → Json) (resource : String)
    (requests : Nat) : Operation → σ → Option (Except Failure Json) × σ
  | .call (.list criteria options), s =>
    let (r, s) := Collection.list dispatch read resource criteria options s
    settled (r.map (Page.toJson print), s)
  | .call (.delete id), s =>
    let (r, s) := Collection.delete dispatch resource id s
    settled (r.map fun _ => .null, s)
  | .call c, s =>
    let (r, s) := Collection.record dispatch read resource c s
    settled (r.map print, s)
  | .listAll criteria options, s =>
    let (r, s) := Collection.listAll dispatch read resource criteria options requests s
    (r.map fun r => r.map fun items => .array (items.map print), s)

end Operation

end ResourceApi
