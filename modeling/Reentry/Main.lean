import Reentry.Command
import Reentry.Program.Reader
import Reentry.Settings.Reader

/-!
The command line: `lower`, `check` and `run` on a program file.
-/

namespace Reentry.Main

/-- Settings are read from this file if it exists and no other is named. -/
def defaultConfig : String := "reentry.toml"

def usage : String := "usage:
  reentry lower FILE [--config FILE] [--function NAME]
  reentry check FILE [--config FILE]
  reentry run FILE --machine NAME --function NAME [--config FILE] [--max-branches N]"

/-- Options by name, and everything else in order. -/
structure Arguments where
  options : List (String × String)
  positional : List String

/-- Long name of an option, if the argument is one. -/
def optionName? : String → Option String
  | "--config" | "-c" => some "config"
  | "--function" | "-f" => some "function"
  | "--machine" | "-m" => some "machine"
  | "--max-branches" => some "max-branches"
  | _ => none

def Arguments.read? : List String → Option Arguments
  | [] => some ⟨[], []⟩
  | [last] => if (optionName? last).isSome then none else some ⟨[], [last]⟩
  | first :: second :: rest =>
      match optionName? first with
      | some name => do
          let arguments ← read? rest
          some { arguments with options := (name, second) :: arguments.options }
      | none => do
          let arguments ← read? (second :: rest)
          some { arguments with positional := first :: arguments.positional }

def Arguments.option? (arguments : Arguments) (name : String) : Option String :=
  (arguments.options.find? (·.1 == name)).map (·.2)

def fail {α : Type} (message : String) : IO α := throw (IO.userError message)

def readProgram (path : String) : IO Program := do
  match Program.parse? (← IO.FS.readFile path) with
  | some program => return program
  | none => fail ("Failed to parse " ++ path)

def readSettings (path : String) : IO Settings := do
  match Settings.parse (← IO.FS.readFile path) with
  | .ok settings => return settings
  | .error error => fail ("Failed to load " ++ path ++ ": " ++ error.message)

/-- Whether a file can be read. -/
def canRead (path : String) : IO Bool := do
  try
    let _ ← IO.FS.readFile path
    return true
  catch _ => return false

def loadSettings (arguments : Arguments) : IO Settings := do
  match arguments.option? "config" with
  | some path => readSettings path
  | none => if ← canRead defaultConfig then readSettings defaultConfig else return {}

def require {α : Type} : Option α → IO α
  | some value => return value
  | none => fail usage

def ofResult {α : Type} : Except CommandError α → IO α
  | .ok value => return value
  | .error error => fail error.message

def execute (command path : String) (arguments : Arguments) : IO Unit := do
  let program ← readProgram path
  let settings ← loadSettings arguments
  match command with
  | "lower" => IO.print (← ofResult (Command.lower program settings (arguments.option? "function")))
  | "check" => IO.println (path ++ ": " ++ Command.summary (← ofResult (Command.check program settings)))
  | "run" =>
      let machine ← require (arguments.option? "machine")
      let function ← require (arguments.option? "function")
      let limit ← match arguments.option? "max-branches" with
        | some numeral => require (Decimal.readNat? numeral.toList)
        | none => pure Command.defaultBranches
      for outcome in ← ofResult (Command.run program settings machine function limit) do
        IO.println outcome.text
  | _ => fail usage

end Reentry.Main

def main (args : List String) : IO UInt32 := do
  try
    match Reentry.Main.Arguments.read? args with
    | some ⟨options, [command, path]⟩ => Reentry.Main.execute command path ⟨options, []⟩
    | _ => Reentry.Main.fail Reentry.Main.usage
    return 0
  catch error =>
    IO.eprintln error
    return 1
