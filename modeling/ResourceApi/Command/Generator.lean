import ResourceApi.Command.Arguments
import ResourceApi.Command.World
import ResourceApi.Facade.Source

/-!
The generator command: reads a manifest from one file and writes the clients for its resources into
a folder. Nothing is written unless the manifest reads and keeps its rules.
-/

namespace ResourceApi.Command

structure Generation where
  input : String
  output : String
  deriving DecidableEq, Repr

namespace Generation

def spec : CommandSpec :=
  ⟨[(OptionSpec.path "input").withLetter 'i', (OptionSpec.path "output").withLetter 'o'], 0, []⟩

def ofArguments? (args : List String) : Option Generation := do
  let r ← spec.read args
  let input ← r.value? "input"
  let output ← r.value? "output"
  some ⟨input, output⟩

def outputPath (g : Generation) (name : String) : String :=
  if g.output.toList.getLast?.all (· = '/') then g.output ++ name else g.output ++ "/" ++ name

def writeFile (g : Generation) (file : Facade.SourceFile) : Job Unit :=
  let path := g.outputPath file.path
  Job.changeFiles (fun _ => .fileAt "writing" path) (·.write (Route.ofText path) file.content)

def writeFiles (g : Generation) : List Facade.SourceFile → Job Unit
  | [] => pure ()
  | file :: rest => do
    g.writeFile file
    g.writeFiles rest

/-- Says nothing where it succeeds. -/
def run (g : Generation) : Job String := do
  let text ←
    Job.ofExcept (fun _ => .fileAt "reading" g.input) ((← Job.files).read (Route.ofText g.input))
  let m ← Job.ofOption .unreadableManifest (Manifest.ofText? text)
  let files ← Job.ofExcept .badManifest (Facade.generate m)
  Job.changeFiles (fun _ => .fileAt "creating" g.output) (·.makeFolder (Route.ofText g.output))
  g.writeFiles files
  return ""

end Generation

end ResourceApi.Command
