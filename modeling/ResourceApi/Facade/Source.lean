import ResourceApi.Facade.Method

/-!
The text of generated clients: one file for each resource, in the order of the manifest, and last
the file that declares them as modules and exports their clients. Nothing is generated from a
manifest that breaks a rule. A client file imports what it mentions and nothing else.
-/

namespace ResourceApi.Facade

def header : String := "// Auto-generated by erp-codegen. Do not edit."

def textOfLines (ls : List String) : String := String.join (ls.map (· ++ "\n"))

def clientName (r : Resource) : String := r.name ++ "Client"

def takesOptions (r : Resource) : Bool :=
  r.supports .list || r.supports .get || r.actions.any (·.method = .get)

/-- Whether the type of any value occurs, be it as a record, as a body or as a result. -/
def mentionsAnyType (r : Resource) : Bool :=
  r.model.isNone || r.supports .patch
    || r.actions.any fun a => a.returns.isNone || a.method = .post

def clientImports (r : Resource) : List String :=
  ["ApiError"] ++ (if r.supports .list then ["ApiResponse"] else []) ++ ["Client", "ResourceClient"]

def queryImport (r : Resource) : List String :=
  if r.supports .list then ["use erp_query::\x7bQueryOptions, SearchCriteria\x7d;"]
  else if takesOptions r then ["use erp_query::QueryOptions;"]
  else []

def imports (r : Resource) : List String :=
  ["use erp_client::\x7b" ++ ", ".intercalate (clientImports r) ++ "\x7d;"]
    ++ queryImport r
    ++ (if mentionsAnyType r then ["use serde_json::Value;"] else [])

def declaration (r : Resource) : List String :=
  ["/// Client for " ++ tick r.path ++ ".",
    "#[derive(Clone)]",
    "pub struct " ++ clientName r ++ " \x7b",
    "    inner: ResourceClient<" ++ r.modelType ++ ">,",
    "\x7d"]

/-- What every client has: its path, a way to make it, and the inner client. -/
def fixedItems (r : Resource) : List (List String) :=
  [["    pub const PATH: &'static str = \"" ++ r.path ++ "\";"],
    ["    pub fn new(client: &Client) -> Self \x7b",
      "        Self \x7b inner: client.resource(Self::PATH) \x7d",
      "    \x7d"],
    ["    pub fn inner(&self) -> &ResourceClient<" ++ r.modelType ++ "> \x7b",
      "        &self.inner",
      "    \x7d"]]

def spaced (groups : List (List String)) : List String := [""].intercalate groups

def implementation (r : Resource) : List String :=
  ["impl " ++ clientName r ++ " \x7b"]
    ++ spaced (fixedItems r ++ (Method.ofResource r).map Method.lines)
    ++ ["\x7d"]

def clientLines (r : Resource) : List String :=
  spaced [[header], imports r, declaration r, implementation r]

def moduleLines (m : Manifest) : List String :=
  spaced
    [[header],
      m.resources.map fun r => "pub mod " ++ r.module ++ ";",
      m.resources.map fun r => "pub use " ++ r.module ++ "::" ++ clientName r ++ ";"]

structure SourceFile where
  path : String
  content : String
  deriving DecidableEq, Repr

def extension : String := ".rs"

def moduleFile : String := "mod" ++ extension

def target : String := "rust-facade"

def files (m : Manifest) : List SourceFile :=
  (m.resources.map fun r => ⟨r.module ++ extension, textOfLines (clientLines r)⟩)
    ++ [⟨moduleFile, textOfLines (moduleLines m)⟩]

/-- The files for a manifest, or the first rule that it breaks. -/
def generate (m : Manifest) : Except BrokenRule (List SourceFile) := do
  m.check
  .ok (files m)

end ResourceApi.Facade
