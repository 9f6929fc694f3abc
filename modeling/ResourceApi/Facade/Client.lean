import ResourceApi.Client.Operation
import ResourceApi.Manifest.Basic

/-!
What a generated client does. Its methods are those of the verbs that its resource supports, and
one for each action; each method is one operation on the collection at the path of the resource.
-/

namespace ResourceApi

/-- What a method is called with. Texts are given in the order of the method's parameters. -/
structure Arguments where
  texts : List String
  criteria : Option Criteria
  options : Option RequestOptions
  body : Option Json

namespace Resource

/-- The operation of an action; only a posted one that takes a body passes it on. -/
def actionOperation (a : Action) (args : Arguments) : Operation :=
  match a.method with
  | .get => .call (.actionGet a.segment args.texts args.options)
  | .post => .call (.actionPost a.segment args.texts (if a.takesBody then args.body else none))

/-- The operations of a verb under the names of their methods. A method that needs an argument is
none without it. -/
def verbOperation? (v : Verb) (method : String) (args : Arguments) : Option Operation :=
  match v, method, args.texts, args.body with
  | .list, "list", _, _ => some (.call (.list args.criteria args.options))
  | .list, "list_all", _, _ => some (.listAll args.criteria args.options)
  | .get, "get", id :: _, _ => some (.call (.get id args.options))
  | .create, "create", _, some body => some (.call (.create body))
  | .update, "update", id :: _, some body => some (.call (.update id body))
  | .patch, "patch", id :: _, some body => some (.call (.patch id body))
  | .delete, "delete", id :: _, _ => some (.call (.delete id))
  | _, _, _, _ => none

def operation? (r : Resource) (method : String) (args : Arguments) : Option Operation :=
  match r.verbs.findSome? (verbOperation? · method args) with
  | some o => some o
  | none => (r.actions.find? (·.name == method)).map (actionOperation · args)

end Resource

end ResourceApi
