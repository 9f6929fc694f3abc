import ResourceApi.Client.Failure
import ResourceApi.Command.Files
import ResourceApi.Manifest.Rules
import ResourceApi.Options.Sort

/-!
Why a command fails, each cause with its message.
-/

namespace ResourceApi.Command

inductive CommandError where
  | unreadableContexts
  | unwritableTimeout
  | noCurrentContext
  | noServer (context : String)
  | unknownContext (name : String)
  | nothingToDelete (context : String)
  | noBody
  | badBody
  | badCriteria
  | criteriaWithId
  | badSort (cause : SortError)
  | api (cause : Failure)
  | file (cause : FileError)
  /-- What was done with a file when it failed. -/
  | fileAt (activity path : String)
  | unreadableManifest
  | badManifest (cause : BrokenRule)

def quoted (s : String) : String := "\"" ++ s ++ "\""

def CommandError.message : CommandError → String
  | .unreadableContexts => "TOML parse error"
  | .unwritableTimeout => "out-of-range value for u64 type"
  | .noCurrentContext => "No current context. Run " ++ tick "erp use context <name>" ++ "."
  | .noServer c =>
    "No server URL set for context " ++ quoted c ++ ". Run "
      ++ tick ("erp context set " ++ c ++ " --server <url>") ++ "."
  | .unknownContext c =>
    "Context " ++ quoted c ++ " not found. Run " ++ tick "erp context list"
      ++ " to see available contexts."
  | .nothingToDelete c => "Context " ++ quoted c ++ " not found."
  | .noBody => "Provide --json or -f <file>."
  | .badBody => "Invalid JSON body"
  | .badCriteria => "--where must be a JSON object"
  | .criteriaWithId => "--where cannot be combined with an id."
  | .badSort e => e.message
  | .api e => e.message
  | .file e => e.message
  | .fileAt activity path => activity ++ " " ++ path
  | .unreadableManifest => "manifest parse error"
  | .badManifest e => e.message

end ResourceApi.Command
