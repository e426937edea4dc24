import Reentry.Program.Node

/-!
Operands are trees that evaluate without suspending. Places are the locations that instructions read
and overwrite; a place that lies inside a container names the container's place and an index or key.
-/

namespace Reentry

inductive Constant where
  | null
  | bool (value : Bool)
  | int (value : Int64)
  | event (id : EventId)
  | halt
deriving DecidableEq, Repr

inductive ContainerKind where
  | seq
  | map
deriving DecidableEq, Repr

mutual

inductive Place where
  | slot (index : Nat)
  /-- Field of the running actor. -/
  | field (index : Nat)
  /-- Event the actor is handling. -/
  | trigger
  /-- Payload of that event. -/
  | payload
  /-- Field of the tuple stored at `base`. -/
  | part (base : Place) (index : Nat)
  /-- Element of the seq or map stored at `base`. -/
  | element (base : Place) (key : Operand) (container : ContainerKind)

inductive Operand where
  | const (constant : Constant)
  /-- Handle of the running actor. -/
  | this
  /-- The value at a place, not a copy of it. -/
  | load (place : Place)
  /-- A deep copy. -/
  | clone (inner : Operand)
  | unary (op : UnaryOp) (arg : Operand)
  | binary (op : BinaryOp) (lhs rhs : Operand)
  | lookup (base key : Operand) (container : ContainerKind)
  | part (base : Operand) (index : Nat)
  | tuple (items : List Operand)
  | named (fields : List (String × Operand))
  | default (ty : Ty)
  | cast (value : Operand) (ty : Ty)
  /-- A call that runs to its end. -/
  | call (callee : FunctionId) (args : List Argument)
  /-- Boolean recorded as choice `number` of the running statement. -/
  | choice (number : Nat)

inductive Argument where
  | mk (value : Operand) (qualifier : Qualifier)

end

namespace Argument

def value : Argument → Operand
  | .mk value _ => value

def qualifier : Argument → Qualifier
  | .mk _ qualifier => qualifier

end Argument

/-- Part of a container that an instruction overwrites. -/
inductive Selector where
  | part (index : Nat)
  | element (key : Operand) (container : ContainerKind)

namespace Operand

def null : Operand := .const .null

/-- Operand for a deep copy of the value. Copies do not stack, and what is never shared needs none. -/
def cloned : Operand → Operand
  | .clone inner => .clone inner
  | .const constant => .const constant
  | .this => .this
  | .choice number => .choice number
  | other => .clone other

/-- Operand for a value that is handed over under a qualifier. -/
def transferred (qualifier : Qualifier) (operand : Operand) : Operand :=
  match qualifier with
  | .move => operand
  | .none | .swap => operand.cloned

end Operand

end Reentry
