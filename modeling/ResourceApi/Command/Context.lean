import ResourceApi.Client.Path
import ResourceApi.Client.Settings
import ResourceApi.Toml.Printer
import ResourceApi.Toml.Reader
import ResourceApi.Toml.Record

/-!
Contexts: named servers with their credentials, of which one is current. A store keeps them in the
order in which they were created, and is written as a TOML document that leaves out what is empty.
A context that was deleted is forgotten; setting it again starts anew.
-/

namespace ResourceApi.Command

structure Context where
  name : String
  server : String
  token : String
  timeoutSecs : Option Nat
  deriving DecidableEq, Repr

structure ContextStore where
  /-- The name of the current context, empty if there is none. -/
  current : String
  contexts : List Context
  deriving DecidableEq, Repr

/-- What can be set of a context; the rest stays as it is. -/
structure ContextChange where
  server : Option String
  token : Option String
  timeoutSecs : Option Nat
  deriving DecidableEq, Repr

namespace Context

def new (name : String) : Context := ⟨name, "", "", none⟩

/-- A server is kept without its final slashes. -/
def change (c : Context) (x : ContextChange) : Context :=
  { c with
    server := (x.server.map Path.trimmed).getD c.server
    token := x.token.getD c.token
    timeoutSecs := x.timeoutSecs <|> c.timeoutSecs }

/-- The settings of a connection; an empty token is no token. Without a server there are none. -/
def settings? (c : Context) : Option Settings :=
  if c.server.isEmpty then none
  else
    let s := Settings.ofBaseUrl c.server
    let s := if c.token.isEmpty then s else s.withToken c.token
    some (match c.timeoutSecs with
      | some n => s.withTimeoutMillis (1000 * n)
      | none => s)

def members : List String := ["name", "server", "token", "timeout_secs"]

def ofToml? (t : Toml) : Option Context := do
  let present ← t.record? members
  let name ← Toml.member? Toml.string? "name" present
  let server ← Toml.optionalMember? Toml.string? "server" present
  let token ← Toml.optionalMember? Toml.string? "token" present
  let timeoutSecs ← Toml.optionalMember? Toml.nat? "timeout_secs" present
  some ⟨name, server.getD "", token.getD "", timeoutSecs⟩

def entry (key value : String) : String := key ++ " = " ++ value ++ "\n"

def textEntry (key value : String) : String :=
  if value.isEmpty then "" else entry key (Toml.Printer.quote value)

def text (c : Context) : String :=
  "[[contexts]]\n" ++ entry "name" (Toml.Printer.quote c.name)
    ++ textEntry "server" c.server ++ textEntry "token" c.token
    ++ ((c.timeoutSecs.map fun n => entry "timeout_secs" (toString n)).getD "")

end Context

namespace ContextStore

def empty : ContextStore := ⟨"", []⟩

def find? (s : ContextStore) (name : String) : Option Context :=
  s.contexts.find? (·.name == name)

def has (s : ContextStore) (name : String) : Bool := (s.find? name).isSome

def current? (s : ContextStore) : Option Context := s.find? s.current

def changeFirst (p : Context → Bool) (change : Context → Context) : List Context → List Context
  | [] => []
  | c :: rest => if p c then change c :: rest else c :: changeFirst p change rest

/-- Changes a context, which is created if it is missing. The first context becomes the current
one. -/
def set (s : ContextStore) (name : String) (x : ContextChange) : ContextStore :=
  { current := if s.current.isEmpty then name else s.current
    contexts :=
      if s.has name then changeFirst (·.name == name) (·.change x) s.contexts
      else s.contexts ++ [(Context.new name).change x] }

/-- Makes a context the current one, if it is there. -/
def use? (s : ContextStore) (name : String) : Option ContextStore :=
  if s.has name then some { s with current := name } else none

/-- Deletes a context, if it is there; if it was the current one, none is. -/
def delete? (s : ContextStore) (name : String) : Option ContextStore :=
  if s.has name then
    some ⟨if s.current = name then "" else s.current, s.contexts.filter (·.name != name)⟩
  else none

def ofToml? (t : Toml) : Option ContextStore := do
  let present ← t.record? ["current-context", "contexts"]
  let current ← Toml.optionalMember? Toml.string? "current-context" present
  let contexts ← Toml.optionalMember? (Toml.list? Context.ofToml?) "contexts" present
  some ⟨current.getD "", contexts.getD []⟩

def ofText? (s : String) : Option ContextStore := (Toml.ofText? s).bind ofToml?

def text (s : ContextStore) : String :=
  Context.entry "current-context" (Toml.Printer.quote s.current) ++
    if s.contexts.isEmpty then Context.entry "contexts" "[]"
    else String.join (s.contexts.map fun c => "\n" ++ c.text)

def maxNumber : Nat := 0x7FFFFFFFFFFFFFFF

def isWritable (s : ContextStore) : Bool :=
  s.contexts.all fun c => c.timeoutSecs.all (· ≤ maxNumber)

def padded (width : Nat) (s : String) : String :=
  s ++ String.ofList (List.replicate (width - s.length) ' ')

def row (mark name server access : String) : String :=
  padded 2 mark ++ " " ++ padded 20 name ++ " " ++ padded 48 server ++ " " ++ padded 8 access
    ++ "\n"

def contextRow (s : ContextStore) (c : Context) : String :=
  row (if c.name = s.current then "*" else " ") c.name
    (if c.server.isEmpty then "-" else c.server) (if c.token.isEmpty then "none" else "token")

/-- The contexts as a table, with a star in front of the current one. -/
def table (s : ContextStore) : String :=
  if s.contexts.isEmpty then
    "No contexts configured.\nRun: erp context set <name> --server <url>\n"
  else row "" "NAME" "SERVER" "AUTH" ++ String.join (s.contexts.map (contextRow s))

end ContextStore

end ResourceApi.Command
