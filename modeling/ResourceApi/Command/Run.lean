import ResourceApi.Client.Operation
import ResourceApi.Command.Invocation
import ResourceApi.Command.World
import ResourceApi.Http.Endpoint

/-!
What the commands do. Context commands read the store, change it and write it back. Record commands
check all that can be checked without the server first: the body, the context, the endpoint, the
options and the criteria, in this order; only then requests are sent, those of one operation on one
collection. A deletion has to be confirmed before anything else happens.
-/

namespace ResourceApi.Command

/-- What a command is given apart from its arguments. -/
structure Surroundings where
  /-- The folder with the settings of the user. -/
  home : String
  input : String
  deriving DecidableEq, Repr

def versionText : String := "erp cli v0.1.0\n"

def line (s : String) : String := s ++ "\n"

/-! ### Contexts -/

/-- Reads the store; without a file it is empty. -/
def loadContexts (file : Route) : Job ContextStore := do
  let files ← Job.files
  if files.holds file then
    let text ← Job.ofExcept .file (files.read file)
    Job.ofOption .unreadableContexts (ContextStore.ofText? text)
  else return .empty

/-- Writes the store, into a folder that is made if it is missing. -/
def saveContexts (file : Route) (s : ContextStore) : Job Unit := do
  Job.changeFiles .file (·.makeFolder file.dropLast)
  if s.isWritable then Job.changeFiles .file (·.write file s.text)
  else Job.fail .unwritableTimeout

/-- What a context command makes of the store, if it changes it, and what it says. -/
def ContextStore.apply (s : ContextStore) :
    ContextCommand → Except CommandError (Option ContextStore × String)
  | .list => .ok (none, s.table)
  | .set name x =>
    .ok (some (s.set name x),
      line ("Context " ++ quoted name ++ (if s.has name then " updated." else " created.")))
  | .use name => match s.use? name with
    | some s => .ok (some s, line ("Switched to context " ++ quoted name ++ "."))
    | none => .error (.unknownContext name)
  | .delete name => match s.delete? name with
    | some s => .ok (some s, line ("Context " ++ quoted name ++ " deleted."))
    | none => .error (.nothingToDelete name)

def runContext (file : Route) (c : ContextCommand) : Job String := do
  let (changed, output) ← Job.ofExcept id ((← loadContexts file).apply c)
  match changed with
  | some s => saveContexts file s
  | none => pure ()
  return output

/-! ### Queries -/

namespace QueryFlags

def toCriteria (f : QueryFlags) : Except CommandError (Option Criteria) :=
  match f.criteria with
  | none => .ok none
  | some s => match Criteria.ofText? s with
    | some c => .ok (some c)
    | none => .error .badCriteria

def toOptions (f : QueryFlags) : Except CommandError RequestOptions := do
  let sort ← match f.sort with
    | none => .ok none
    | some s => match SortOrder.ofText s with
      | .ok o => .ok (some o)
      | .error e => .error (.badSort e)
  .ok { RequestOptions.default with
    fields := f.fields
    sort := sort
    limit := f.limit
    offset := f.offset
    filter := f.filter
    count := f.count
    expandLevel := f.expandLevel }

def toQuery (f : QueryFlags) : Except CommandError String := do
  let criteria ← f.toCriteria
  let options ← f.toOptions
  .ok (Compose.merge criteria (some options)).query

end QueryFlags

def queryText (path : Option String) (f : QueryFlags) : Except CommandError String := do
  let query ← f.toQuery
  .ok (match path with
    | some p => Path.build p [] query
    | none => query)

/-! ### Records -/

/-- A collection path with a single slash in front and none at the end. -/
def collectionPath (path : String) : String :=
  String.ofList ('/' :: Path.trim path.toList)

structure Connection where
  endpoint : Http.Endpoint
  token : Option String

def connect (file : Route) : Job Connection := do
  let s ← loadContexts file
  let c ← Job.ofOption .noCurrentContext s.current?
  let settings ← Job.ofOption (.noServer c.name) c.settings?
  let endpoint ← Job.ofExcept .api (Http.Endpoint.ofBaseUrl settings.baseUrl)
  return ⟨endpoint, settings.token⟩

def perform (c : Connection) (path : String) (o : Operation) : Job Json := do
  let w ← get
  let session := Http.Endpoint.Session.start (.fixed c.token) w.network
  let (r, session) :=
    o.run c.endpoint.dispatch some id (collectionPath path) w.network.budget session
  set { w with network := session.network }
  match r with
  | some (.ok v) => return v
  | some (.error e) => Job.fail (.api e)
  | none => return .null

def getOperation (id : Option String) (all : Bool) (f : QueryFlags) :
    Except CommandError Operation := do
  let options ← f.toOptions
  match id with
  | some id =>
    if f.criteria.isSome then .error .criteriaWithId else .ok (.call (.get id (some options)))
  | none => do
    let criteria ← f.toCriteria
    .ok (if all then .listAll criteria (some options) else .call (.list criteria (some options)))

/-- A file goes before a body that is given as text. -/
def bodyText (body file : Option String) : Job String := do
  match file, body with
  | some path, _ => Job.ofExcept .file ((← Job.files).read (Route.ofText path))
  | none, some text => return text
  | none, none => Job.fail .noBody

def bodyOfText (text : String) : Job Json := Job.ofOption .badBody (Json.ofText? text)

def isConfirmed (input : String) : Bool :=
  let answer := Text.trim (input.toList.takeWhile (· != '\n'))
  answer.map Char.toLower = ['y']

def printed (v : Json) : String := line v.indented

def runRecord (file : Route) (input : String) : RecordCommand → Job String
  | .get path id all flags => do
    let c ← connect file
    let o ← Job.ofExcept (fun e => e) (getOperation id all flags)
    return printed (← perform c path o)
  | .create path body bodyFile => do
    let v ← bodyOfText (← bodyText body bodyFile)
    return printed (← perform (← connect file) path (.call (.create v)))
  | .update path id body => do
    let v ← bodyOfText body
    return printed (← perform (← connect file) path (.call (.update id v)))
  | .patch path id body => do
    let v ← bodyOfText body
    return printed (← perform (← connect file) path (.call (.patch id v)))
  | .delete path id confirmed => do
    if confirmed || isConfirmed input then
      let _ ← perform (← connect file) path (.call (.delete id))
      return line ("Deleted " ++ collectionPath path ++ "/" ++ id ++ ".")
    else return line "Cancelled."

/-! ### Command lines -/

def defaultContextFile (s : Surroundings) : String := s.home ++ "/.erp/config.toml"

def run (s : Surroundings) (l : CommandLine) : Job String :=
  let file := Route.ofText (l.contextFile.getD (defaultContextFile s))
  match l.invocation with
  | .context c => runContext file c
  | .record c => runRecord file s.input c
  | .query path flags => Job.ofExcept id ((queryText path flags).map line)
  | .version => return versionText

end ResourceApi.Command
