import Reentry.Code.Instr
import Reentry.Lowering.Error
import Reentry.Lowering.Options
import Reentry.Program.Basic

/-!
What a node is lowered to, and the state of lowering one function: the labels and marks issued, and the
choices whose statement is not complete yet.
-/

namespace Reentry

/-- Whether an expression is lowered for its value or for its location. -/
inductive Access where
  | read
  | write
deriving DecidableEq, Repr

inductive Fragment where
  | value (operand : Operand)
  | place (place : Place)
  | code (body : List Instr)

def Fragment.kindName : Fragment → String
  | .value _ => "value"
  | .place _ => "place"
  | .code _ => "statement"

namespace Lowering

/-- The function being lowered, and the program around it. -/
structure Scope where
  program : Program
  function : FunctionInfo
  options : LowerOptions

structure Progress where
  supply : LabelSupply
  /-- Choices that expressions read and whose statement is still being lowered, oldest first. -/
  pending : List Nat
  nextChoice : Nat

def Progress.start : Progress := ⟨.full, [], 0⟩

end Lowering

abbrev Lower := ReaderT Lowering.Scope (StateT Lowering.Progress (Except LowerError))

namespace Lower

def unexpected {α : Type} (expected found : String) : Lower α := do
  throw (.unexpectedNode (← read).function.name expected found)

def nestedNew {α : Type} : Lower α := do
  throw (.nestedNew (← read).function.name)

def freshLabel : Lower LabelId :=
  modifyGet fun progress =>
    let (label, supply) := progress.supply.freshLabel
    (label, { progress with supply })

def freshMark : Lower MarkId :=
  modifyGet fun progress =>
    let (mark, supply) := progress.supply.freshMark
    (mark, { progress with supply })

/-- A choice that the statement being lowered has to ask for. -/
def freshChoice : Lower Nat :=
  modifyGet fun progress =>
    (progress.nextChoice,
      { progress with
        pending := progress.pending ++ [progress.nextChoice]
        nextChoice := progress.nextChoice + 1 })

/-- Takes the pending choices past the first `kept`. -/
def takeChoices (kept : Nat) : Lower (List Nat) :=
  modifyGet fun progress =>
    (progress.pending.drop kept, { progress with pending := progress.pending.take kept })

def expectValue : Fragment → Lower Operand
  | .value operand => pure operand
  | other => unexpected "value" other.kindName

def expectPlace : Fragment → Lower Place
  | .place place => pure place
  | other => unexpected "assignable place" other.kindName

def expectCode : Fragment → Lower (List Instr)
  | .code body => pure body
  | other => unexpected "statement" other.kindName

/-- An operand that names no location. -/
def readOnly (access : Access) (operand : Operand) : Lower Fragment :=
  match access with
  | .read => pure (.value operand)
  | .write => unexpected "assignable place" "computed value"

def typeOf (node : NodeId) : Lower Ty := do
  let function := (← read).function
  match function.typeOf? node with
  | some ty => pure ty
  | none => throw (.missingType function.name node.index.toNat)

/-- Kind of the container that a node of this type is. -/
def containerKind (node : NodeId) : Lower ContainerKind := do
  match ← typeOf node with
  | .seq _ => pure .seq
  | .map _ _ => pure .map
  | other => throw (.notAContainer (← read).function.name other.text)

/-- Position of a selected field; a name is looked up in the type of the tuple. -/
def fieldIndex (base : NodeId) : FieldSel → Lower Nat
  | .index position => pure position.toNat
  | .name name => do
      let ty ← typeOf base
      match ty.fieldIndex? name with
      | some position => pure position
      | none => throw (.unknownField (← read).function.name name ty.text)

def checkFunction (callee : FunctionId) : Lower Unit := do
  let scope ← read
  if (scope.program.function? callee).isNone then
    throw (.unknownFunction scope.function.name callee.index.toNat)

/-- A message, after its source position if the options ask for that. -/
def located (span : Span) (message : String) : Lower String := do
  let scope ← read
  if scope.options.sourceLocations then
    pure (scope.program.file ++ "(" ++ Decimal.natText span.line.toNat ++ ","
      ++ Decimal.natText span.column.toNat ++ "): " ++ message)
  else pure message

end Lower

end Reentry
