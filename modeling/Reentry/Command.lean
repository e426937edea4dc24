import Reentry.Code.Dump
import Reentry.Exploration.Search
import Reentry.Lowering.Program
import Reentry.Settings.Basic

/-!
What the commands do, apart from reading files and printing.
-/

namespace Reentry

inductive CommandError where
  | noFunction (name : String)
  | lowering (error : LowerError)
  /-- A lowering error, with what was being done. -/
  | loweringWhile (context : String) (error : LowerError)
  | exploring (error : ExploreError)

namespace CommandError

def message : CommandError → String
  | .noFunction name => "No function named `" ++ name ++ "`"
  | .lowering error => error.message
  | .loweringWhile context error => context ++ ": " ++ error.message
  | .exploring error => error.message

end CommandError

namespace Command

/-- Text of the code of one function or of the whole program. -/
def lower (program : Program) (settings : Settings) : Option String → Except CommandError String
  | some name => do
      let some id := program.functionNamed? name | throw (.noFunction name)
      let routine ← (program.lowerFunction id settings.lower).mapError
        (.loweringWhile ("Failed to lower `" ++ name ++ "`"))
      return routine.text
  | none => do
      let image ← (program.lower settings.lower).mapError (.loweringWhile "Failed to lower program")
      return image.text

/-- Lowers a program with all checks, whatever the settings say about them. -/
def check (program : Program) (settings : Settings) : Except CommandError Image :=
  (program.lower { settings.lower with verify := true }).mapError (.loweringWhile "Verification failed")

/-- Counts of what was lowered. -/
def summary (image : Image) : String :=
  Decimal.natText image.routines.length ++ " functions (" ++ Decimal.natText image.resumableCount
    ++ " resumable), " ++ Decimal.natText image.labelCount ++ " labels"

/-- Branches that a run may have if nothing else is said. -/
def defaultBranches : Nat := 256

/-- More executions, and more instructions, than any run finishes. -/
def patience : Nat := 1 <<< 62

/-- Runs a function of a machine under every sequence of choices. -/
def run (program : Program) (settings : Settings) (machine function : String) (maxBranches : Nat) :
    Except CommandError (List Outcome) := do
  let image ← (program.lower settings.lower).mapError .lowering
  (image.explore machine function maxBranches settings.runtime.maxCallDepth patience patience).mapError
    .exploring

end Command

end Reentry
