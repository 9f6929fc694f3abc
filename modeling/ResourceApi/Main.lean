import ResourceApi.Command.Generator
import ResourceApi.Command.Run

/-!
The two programs on the command line: the client, and the generator of clients. The files that a
command may read are loaded, the command runs on them, and what it changed is written. This program
has no connection to a network, so that commands that need a server report that none is reached.
-/

namespace ResourceApi.Program

open Command

def load (paths : List String) : IO Files :=
  paths.foldlM (fun files (path : String) => do
    try
      let text ← IO.FS.readFile path
      return { files with texts := Ordered.put (Route.ofText path) text files.texts }
    catch
      | .inappropriateType .. => return { files with made := Route.ofText path :: files.made }
      | _ => return files) .empty

def save (before now : Files) : IO Unit := do
  for folder in now.made do
    IO.FS.createDirAll (if folder = [] then "." else folder.text)
  for (route, text) in Files.changes before now do
    IO.FS.writeFile route.text text

def execute (paths : List String) (j : Job String) : IO UInt32 := do
  let before ← load paths
  let (ending, now) := j.runIn ⟨before, .isolated⟩
  save before now.files
  match ending with
  | .ok output =>
    IO.print output
    return 0
  | .error e =>
    IO.eprintln ("Error: " ++ e.message)
    return 1

def misused (name : String) : IO UInt32 := do
  IO.eprintln (name ++ ": the arguments were not understood")
  return 2

def home : IO String := do
  match ← IO.getEnv "HOME" with
  | some folder => return folder
  | none => return (← IO.getEnv "USERPROFILE").getD "."

/-- The first line of the input, if the command asks for one. -/
def confirmation (i : Invocation) : IO String := do
  match i with
  | .record (.delete path id false) =>
    IO.eprint ("Delete " ++ path ++ " " ++ id ++ "? [y/N]: ")
    (← IO.getStdin).getLine
  | _ => return ""

def bodyFiles : Invocation → List String
  | .record (.create _ _ (some file)) => [file]
  | _ => []

def client (args : List String) : IO UInt32 := do
  match CommandLine.ofArguments? args with
  | none => misused "erp"
  | some l =>
    let s : Surroundings := ⟨← home, ← confirmation l.invocation⟩
    execute (l.contextFile.getD (defaultContextFile s) :: bodyFiles l.invocation) (run s l)

def generator (args : List String) : IO UInt32 := do
  match Generation.ofArguments? args with
  | none => misused "erp-codegen"
  | some g => execute [g.input, g.output] g.run

end ResourceApi.Program

open ResourceApi.Program in
/-- The name under which the program is called chooses between the client and the generator. -/
def main (args : List String) : IO UInt32 := do
  let name := (← IO.appPath).fileName.getD ""
  if name.startsWith "erp-codegen" then generator args else client args
