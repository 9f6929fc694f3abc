import ResourceApi.Command.Arguments
import ResourceApi.Command.Context

/-!
What the command line asks for. Every subcommand has a constructor with the arguments that it needs,
already of their types; a line that leaves out something that is required, or whose numbers are
none, asks for nothing at all.
-/

namespace ResourceApi.Command

/-- The flags that make up a query. Criteria and sort order are texts until the command runs. -/
structure QueryFlags where
  criteria : Option String
  fields : List String
  sort : Option String
  limit : Option Int
  offset : Option Int
  filter : Option String
  count : Bool
  expandLevel : Option String
  deriving DecidableEq, Repr

inductive ContextCommand where
  | set (name : String) (change : ContextChange)
  | list
  | delete (name : String)
  | use (name : String)
  deriving DecidableEq, Repr

inductive RecordCommand where
  | get (path : String) (id : Option String) (all : Bool) (flags : QueryFlags)
  | create (path : String) (body : Option String) (file : Option String)
  | update (path id body : String)
  | patch (path id body : String)
  | delete (path id : String) (confirmed : Bool)
  deriving DecidableEq, Repr

inductive Invocation where
  | context (command : ContextCommand)
  | record (command : RecordCommand)
  | query (path : Option String) (flags : QueryFlags)
  | version
  deriving DecidableEq, Repr

/-- A command line: what it asks for, and the file with the contexts if it names one. -/
structure CommandLine where
  contextFile : Option String
  invocation : Invocation
  deriving DecidableEq, Repr

def digits? (s : List Char) : Option Nat :=
  if s.isEmpty then none else Text.Digit.number? 10 s

/-- A signed word of 64 bits, with an optional sign. -/
def signed? (s : String) : Option Int := do
  let n ← match s.toList with
    | '-' :: ds => (digits? ds).map fun n => -(n : Int)
    | '+' :: ds => (digits? ds).map Int.ofNat
    | ds => (digits? ds).map Int.ofNat
  if -0x8000000000000000 ≤ n ∧ n < 0x8000000000000000 then some n else none

/-- A word of 64 bits, with an optional plus sign. -/
def unsigned? (s : String) : Option Nat := do
  let n ← match s.toList with
    | '+' :: ds => digits? ds
    | ds => digits? ds
  if n < 0x10000000000000000 then some n else none

def optional? {α : Type} (read : String → Option α) (r : Reading) (name : String) :
    Option (Option α) :=
  match r.value? name with
  | none => some none
  | some s => (read s).map some

namespace QueryFlags

def options : List OptionSpec :=
  [.value "where", (OptionSpec.value "fields").withRepetition, .value "sort", .number "limit",
    .number "offset", .value "q", .flag "count", .value "expand-level"]

def ofReading? (r : Reading) : Option QueryFlags := do
  let limit ← optional? signed? r "limit"
  let offset ← optional? signed? r "offset"
  some
    { criteria := r.value? "where"
      fields := (r.values "fields").flatMap (·.splitOn ",")
      sort := r.value? "sort"
      limit := limit
      offset := offset
      filter := r.value? "q"
      count := r.has "count"
      expandLevel := r.value? "expand-level" }

end QueryFlags

namespace Invocation

def contextFileOption : OptionSpec := .path "config"

def subcommands (names : List String) : CommandSpec := ⟨[contextFileOption], 0, names⟩

def leaf (positionals : Nat) (options : List OptionSpec) : CommandSpec :=
  ⟨contextFileOption :: options, positionals, []⟩

def spec : List String → CommandSpec
  | [] =>
    subcommands
      ["context", "use", "get", "create", "update", "patch", "delete", "query", "version"]
  | ["context"] => subcommands ["set", "list", "delete"]
  | ["context", "set"] => leaf 1 [.value "server", .value "token", .value "timeout"]
  | ["context", "delete"] => leaf 1 []
  | ["use"] => subcommands ["context"]
  | ["use", "context"] => leaf 1 []
  | ["get"] => leaf 2 (.flag "all" :: QueryFlags.options)
  | ["create"] => leaf 1 [.value "json", (OptionSpec.path "file").withLetter 'f']
  | ["update"] | ["patch"] => leaf 2 [.value "json"]
  | ["delete"] => leaf 2 [(OptionSpec.flag "yes").withLetter 'y']
  | ["query"] => leaf 0 (.value "path" :: QueryFlags.options)
  | _ => leaf 0 []

def ofReading? (names : List String) (r : Reading) : Option Invocation :=
  match names, r.positionals with
  | ["context", "set"], [name] => do
    let timeoutSecs ← optional? unsigned? r "timeout"
    some (.context (.set name ⟨r.value? "server", r.value? "token", timeoutSecs⟩))
  | ["context", "list"], [] => some (.context .list)
  | ["context", "delete"], [name] => some (.context (.delete name))
  | ["use", "context"], [name] => some (.context (.use name))
  | ["get"], path :: id => do
    let flags ← QueryFlags.ofReading? r
    some (.record (.get path id.head? (r.has "all") flags))
  | ["create"], [path] => some (.record (.create path (r.value? "json") (r.value? "file")))
  | ["update"], [path, id] => (r.value? "json").map fun body => .record (.update path id body)
  | ["patch"], [path, id] => (r.value? "json").map fun body => .record (.patch path id body)
  | ["delete"], [path, id] => some (.record (.delete path id (r.has "yes")))
  | ["query"], [] => do
    let flags ← QueryFlags.ofReading? r
    some (.query (r.value? "path") flags)
  | ["version"], [] => some .version
  | _, _ => none

end Invocation

namespace CommandLine

/-- Follows subcommands, at most so many. The file named last is the one that counts. -/
def follow : Nat → (names : List String) → (file : Option String) → List String →
    Option CommandLine
  | 0, _, _, _ => none
  | n + 1, names, file, args => do
    let r ← (Invocation.spec names).read args
    let file := r.value? "config" <|> file
    match r.subcommand with
    | some (name, rest) => follow n (names ++ [name]) file rest
    | none => (Invocation.ofReading? names r).map fun i => ⟨file, i⟩

/-- No subcommand has subcommands with subcommands of their own. -/
def depth : Nat := 3

def ofArguments? (args : List String) : Option CommandLine := follow depth [] none args

end CommandLine

end ResourceApi.Command
