import ResourceApi.Toml.Reader
import ResourceApi.Toml.Record

/-!
Manifests: the resources of an API, for each of which a client is generated. A resource has a path,
the verbs of its records that it supports, and actions of its own, which are reached below its
path. What a manifest leaves out has a default: all verbs, no actions, records without a type.
-/

namespace ResourceApi

inductive Verb where
  | list | get | create | update | patch | delete
  deriving DecidableEq, Repr

namespace Verb

def all : List Verb := [.list, .get, .create, .update, .patch, .delete]

def name : Verb → String
  | .list => "list"
  | .get => "get"
  | .create => "create"
  | .update => "update"
  | .patch => "patch"
  | .delete => "delete"

def ofName? (s : String) : Option Verb := all.find? (·.name == s)

@[simp] theorem mem_all (v : Verb) : v ∈ all := by cases v <;> decide

end Verb

inductive ActionKind where
  | get | post
  deriving DecidableEq, Repr

namespace ActionKind

def name : ActionKind → String
  | .get => "get"
  | .post => "post"

def ofName? (s : String) : Option ActionKind := [.get, .post].find? (·.name == s)

end ActionKind

structure Action where
  name : String
  method : ActionKind
  path : Option String
  params : List String
  takesBody : Bool
  returns : Option String
  deriving DecidableEq, Repr

structure Resource where
  name : String
  path : String
  model : Option String
  verbs : List Verb
  actions : List Action
  deriving DecidableEq, Repr

structure Manifest where
  resources : List Resource
  deriving DecidableEq, Repr

def anyType : String := "Value"

namespace Action

/-- The path segment of an action; its name, unless another one is given. -/
def segment (a : Action) : String := a.path.getD a.name

def returnType (a : Action) : String := a.returns.getD anyType

def members : List String := ["name", "method", "path", "params", "body", "returns"]

def ofToml? (t : Toml) : Option Action := do
  let present ← t.record? members
  let name ← Toml.member? Toml.string? "name" present
  let method ← Toml.member? (fun v => v.word?.bind ActionKind.ofName?) "method" present
  let path ← Toml.optionalMember? Toml.string? "path" present
  let params ← Toml.optionalMember? (Toml.list? Toml.string?) "params" present
  let body ← Toml.optionalMember? Toml.bool? "body" present
  let returns ← Toml.optionalMember? Toml.string? "returns" present
  some ⟨name, method, path, params.getD [], body.getD false, returns⟩

end Action

namespace Resource

def supports (r : Resource) (v : Verb) : Bool := r.verbs.contains v

def modelType (r : Resource) : String := r.model.getD anyType

def members : List String := ["name", "path", "model", "crud", "action"]

def ofToml? (t : Toml) : Option Resource := do
  let present ← t.record? members
  let name ← Toml.member? Toml.string? "name" present
  let path ← Toml.member? Toml.string? "path" present
  let model ← Toml.optionalMember? Toml.string? "model" present
  let verbs ← Toml.optionalMember? (Toml.list? fun v => v.word?.bind Verb.ofName?) "crud" present
  let actions ← Toml.optionalMember? (Toml.list? Action.ofToml?) "action" present
  some ⟨name, path, model, verbs.getD Verb.all, actions.getD []⟩

end Resource

namespace Manifest

def ofToml? (t : Toml) : Option Manifest := do
  let present ← t.record? ["resource"]
  let resources ← Toml.optionalMember? (Toml.list? Resource.ofToml?) "resource" present
  some ⟨resources.getD []⟩

/-- Reads a manifest; whether it keeps its rules is another question. -/
def ofText? (s : String) : Option Manifest := (Toml.ofText? s).bind ofToml?

def find? (m : Manifest) (name : String) : Option Resource :=
  m.resources.find? (·.name == name)

end Manifest

end ResourceApi
