import ResourceApi.Manifest.Basic
import ResourceApi.Manifest.Name
import ResourceApi.Text.Quoted

/-!
The rules of a manifest. Checking goes through the resources in order, and in each through its
name, its type, its path, its verbs and its actions; it ends at the first rule that is broken, with
an error that names the resource and what is wrong with it.
-/

namespace ResourceApi

inductive BrokenRule where
  | duplicateResource (resource : String)
  | badResourceName (resource : String)
  | moduleClash (resource module : String)
  | badPath (resource path : String)
  | badType (resource type : String)
  | badIdentifier (resource name : String)
  | duplicateMethod (resource method : String)
  | bodyOnGet (resource action : String)
  deriving DecidableEq, Repr

def tick (s : String) : String := "`" ++ s ++ "`"

def BrokenRule.message : BrokenRule → String
  | .duplicateResource r => "duplicate resource " ++ tick r
  | .badResourceName r => "resource name " ++ tick r ++ " must be a PascalCase identifier"
  | .moduleClash r m =>
    "resource " ++ tick r ++ " maps to module " ++ tick m ++ ", already used by another resource"
  | .badPath r p =>
    "resource " ++ tick r ++ ": path " ++ Text.Quoted.quote p
      ++ " must be '/'-separated segments of [A-Za-z0-9-._~]"
  | .badType r t => "resource " ++ tick r ++ ": " ++ tick t ++ " is not a Rust type path"
  | .badIdentifier r n => "resource " ++ tick r ++ ": " ++ tick n ++ " is not a valid identifier"
  | .duplicateMethod r m => "resource " ++ tick r ++ ": method " ++ tick m ++ " is defined twice"
  | .bodyOnGet r a => "resource " ++ tick r ++ ": GET action " ++ tick a ++ " cannot take a body"

def Resource.module (r : Resource) : String := Name.snake r.name

def Verb.methods : Verb → List String
  | .list => ["list", "list_all"]
  | v => [v.name]

namespace Manifest

abbrev Check := Except BrokenRule

def require (condition : Bool) (e : BrokenRule) : Check Unit :=
  if condition then .ok () else .error e

/-- A name that must not be taken; it then is. -/
def reserve (r : Resource) (taken : List String) (method : String) : Check (List String) :=
  if taken.contains method then .error (.duplicateMethod r.name method) else .ok (method :: taken)

def reserveAll (r : Resource) (taken : List String) (methods : List String) : Check (List String) :=
  methods.foldlM (reserve r) taken

/-- Names of parameters that the signature of every action keeps for itself. -/
def reservedParams : List String := ["options", "body"]

def checkParam (r : Resource) (seen : List String) (p : String) : Check (List String) :=
  if !Name.isPlainName p || reservedParams.contains p || seen.contains p then
    .error (.badIdentifier r.name p)
  else .ok (p :: seen)

def checkAction (r : Resource) (taken : List String) (a : Action) : Check (List String) := do
  require (Name.isPlainName a.name) (.badIdentifier r.name a.name)
  let taken ← reserve r taken a.name
  require (a.returns.all Name.isTypeText) (.badType r.name a.returnType)
  require (Name.isPlainSegment a.segment) (.badPath r.name a.segment)
  let _ ← a.params.foldlM (checkParam r) []
  require (!(a.takesBody && a.method = .get)) (.bodyOnGet r.name a.name)
  .ok taken

def checkResource (m : Manifest) (before : List Resource) (r : Resource) : Check Unit := do
  require (Name.isCapitalised r.name && !Name.isKeyword r.module) (.badResourceName r.name)
  require (!(before.map Resource.module).contains r.module)
    (if (m.resources.filter (·.name == r.name)).length = 1 then .moduleClash r.name r.module
      else .duplicateResource r.name)
  require (r.model.all Name.isTypeText) (.badType r.name r.modelType)
  require (Name.isCollectionPath r.path) (.badPath r.name r.path)
  let taken ← reserveAll r [] (r.verbs.flatMap Verb.methods)
  let _ ← r.actions.foldlM (checkAction r) taken
  .ok ()

/-- Checks resources after those that were found in order. -/
def checkFrom (m : Manifest) : List Resource → List Resource → Check Unit
  | _, [] => .ok ()
  | before, r :: rest => do
    checkResource m before r
    checkFrom m (before ++ [r]) rest

def check (m : Manifest) : Check Unit := checkFrom m [] m.resources

end Manifest

end ResourceApi
