import ResourceApi.Manifest.Rules

/-!
The methods of a generated client. A method is described by its name, its parameters, the type of
its result and the call that it makes on the inner client; its text follows from these. A line of
text is kept without its end.
-/

namespace ResourceApi.Facade

structure Parameter where
  name : String
  type : String
  deriving DecidableEq, Repr

namespace Parameter

def text (p : Parameter) : String := p.name ++ ": " ++ p.type

def criteria : Parameter := ⟨"criteria", "Option<&SearchCriteria>"⟩
def options : Parameter := ⟨"options", "Option<&QueryOptions>"⟩
def id : Parameter := ⟨"id", "&str"⟩
def body (type : String) : Parameter := ⟨"body", "&" ++ type⟩
def optionalBody : Parameter := ⟨"body", "Option<&" ++ anyType ++ ">"⟩

end Parameter

structure Method where
  /-- What stands in the comment above the method. -/
  remark : Option String
  name : String
  params : List Parameter
  /-- Whether each parameter has a line of its own. -/
  spread : Bool
  result : String
  /-- The call on the inner client. -/
  call : String
  deriving DecidableEq, Repr

namespace Method

def resultText (m : Method) : String := "Result<" ++ m.result ++ ", ApiError>"

def signature (m : Method) : List String :=
  if m.spread then
    ["    pub async fn " ++ m.name ++ "(", "        &self,"]
      ++ m.params.map (fun p => "        " ++ p.text ++ ",")
      ++ ["    ) -> " ++ m.resultText ++ " \x7b"]
  else
    ["    pub async fn " ++ m.name ++ "(&self" ++ String.join (m.params.map (", " ++ ·.text))
      ++ ") -> " ++ m.resultText ++ " \x7b"]

def lines (m : Method) : List String :=
  (m.remark.map ("    /// " ++ ·)).toList
    ++ m.signature
    ++ ["        self.inner." ++ m.call ++ ".await", "    \x7d"]

/-- The methods for one verb, on records of a type. -/
def ofVerb (model : String) : Verb → List Method
  | .list =>
    [⟨none, "list", [.criteria, .options], true, "ApiResponse<" ++ model ++ ">",
        "list(criteria, options)"⟩,
      ⟨none, "list_all", [.criteria, .options], true, "Vec<" ++ model ++ ">",
        "list_all(criteria, options)"⟩]
  | .get => [⟨none, "get", [.id, .options], false, model, "get(id, options)"⟩]
  | .create => [⟨none, "create", [.body model], false, model, "create(body)"⟩]
  | .update => [⟨none, "update", [.id, .body model], false, model, "update(id, body)"⟩]
  | .patch => [⟨none, "patch", [.id, .body anyType], false, model, "patch(id, body)"⟩]
  | .delete => [⟨none, "delete", [.id], false, "()", "delete(id)"⟩]

def verbWord : ActionKind → String
  | .get => "GET"
  | .post => "POST"

def route (a : Action) : String :=
  "\x7bpath\x7d/" ++ a.segment ++ String.join (a.params.map fun p => "/\x7b" ++ p ++ "\x7d")

def target (a : Action) : String :=
  "\"" ++ a.segment ++ "\", &[" ++ ", ".intercalate a.params ++ "]"

/-- What an action takes beside its own parameters. -/
def extraParams (a : Action) : List Parameter :=
  match a.method with
  | .get => [.options]
  | .post => if a.takesBody then [.optionalBody] else []

/-- The call that an action makes. A request without a body has to name the types involved. -/
def actionCall (a : Action) : String :=
  match a.method with
  | .get => "action_get(" ++ target a ++ ", options)"
  | .post =>
    if a.takesBody then "action_post(" ++ target a ++ ", body)"
    else "action_post::<" ++ a.returnType ++ ", " ++ anyType ++ ">(" ++ target a ++ ", None)"

def ofAction (a : Action) : Method :=
  ⟨some (tick (verbWord a.method ++ " " ++ route a)), a.name,
    a.params.map (fun p => ⟨p, "&str"⟩) ++ extraParams a, false, a.returnType, actionCall a⟩

/-- The methods of a client, apart from those that every client has. -/
def ofResource (r : Resource) : List Method :=
  (Verb.all.filter r.supports).flatMap (ofVerb r.modelType) ++ r.actions.map ofAction

end Method

end ResourceApi.Facade
