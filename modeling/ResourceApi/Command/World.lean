import ResourceApi.Command.Error
import ResourceApi.Http.Network

/-!
What commands act on: the files, and the network. A command is a job that changes them and
either ends with a text for the output or fails; what it did before it failed stays done.
-/

namespace ResourceApi.Command

structure World where
  files : Files
  network : Http.Network
  deriving DecidableEq, Repr

abbrev Job := ExceptT CommandError (StateM World)

namespace Job

def fail {α : Type} (e : CommandError) : Job α := throw e

/-- The value of a result, or the failure that its error stands for. -/
def ofExcept {ε α : Type} (cause : ε → CommandError) : Except ε α → Job α
  | .ok x => pure x
  | .error e => fail (cause e)

def ofOption {α : Type} (cause : CommandError) : Option α → Job α
  | some x => pure x
  | none => fail cause

def files : Job Files := do return (← get).files

def changeFiles {ε : Type} (cause : ε → CommandError) (change : Files → Except ε Files) :
    Job Unit := do
  let files ← ofExcept cause (change (← files))
  modify fun w => { w with files := files }

/-- The result of a job, and the world after it. -/
def runIn {α : Type} (j : Job α) (w : World) : Except CommandError α × World := j.run.run w

end Job

end ResourceApi.Command
