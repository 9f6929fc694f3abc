import ResourceApi.Client.Failure

/-!
The exchange that every operation comes down to: one request, and either a value or a failure. A
dispatcher answers one request and passes its own state on; it is asked once for each request.
-/

namespace ResourceApi

inductive Method where
  | get | post | put | patch | delete
  deriving DecidableEq, Repr

namespace Method

def all : List Method := [.get, .post, .put, .patch, .delete]

def name : Method → String
  | .get => "GET"
  | .post => "POST"
  | .put => "PUT"
  | .patch => "PATCH"
  | .delete => "DELETE"

def ofName? (s : String) : Option Method := all.find? (·.name == s)

end Method

structure Request where
  method : Method
  path : String
  body : Option Json
  deriving Repr

abbrev Reply := Except Failure Json

abbrev Dispatcher (σ : Type) := σ → Request → Reply × σ

/-- Replies given in turn, null when none is left, and the requests that took them. -/
structure Script where
  replies : List Reply
  requests : List Request

namespace Script

def start (replies : List Reply) : Script := ⟨replies, []⟩

def answer : Dispatcher Script := fun s r =>
  match s.replies with
  | [] => (.ok .null, ⟨[], s.requests ++ [r]⟩)
  | reply :: rest => (reply, ⟨rest, s.requests ++ [r]⟩)

end Script

end ResourceApi
