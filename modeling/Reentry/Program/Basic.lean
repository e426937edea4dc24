import Reentry.Program.Node
import Reentry.Program.TypeTable

/-!
A program as the front end hands it over: functions with their bodies, machine types and events.
-/

namespace Reentry

/-- A parameter, a local variable or a field of an actor. -/
structure VarDecl where
  name : String
  slot : UInt32
  ty : Ty
deriving Repr, Inhabited

structure FunctionInfo where
  name : String
  params : List VarDecl
  locals : List VarDecl
  returnType : Option Ty
  /-- Number of frame slots, temporaries included. -/
  slotCount : UInt32
  /-- Machine type the function belongs to; free functions have none. -/
  owner : Option MachineTypeId
  types : TypeTable
  body : Node

structure MachineDecl where
  name : String
  fields : List VarDecl
  states : List String
deriving Repr, Inhabited

structure EventDecl where
  name : String
deriving DecidableEq, Repr, Inhabited

structure Program where
  /-- Name of the source file, shown in located messages. -/
  file : String
  functions : List FunctionInfo
  machines : List MachineDecl
  events : List EventDecl

namespace FunctionInfo

def typeOf? (info : FunctionInfo) (node : NodeId) : Option Ty :=
  info.types.find? node

end FunctionInfo

namespace Program

def function? (program : Program) (id : FunctionId) : Option FunctionInfo :=
  program.functions[id.index.toNat]?

def machine? (program : Program) (id : MachineTypeId) : Option MachineDecl :=
  program.machines[id.index.toNat]?

/-- Name of an event for diagnostics, also when the program does not declare it. -/
def eventName (program : Program) (id : EventId) : String :=
  match program.events[id.index.toNat]? with
  | some event => event.name
  | none => "<unknown event>"

/-- The first function of that name. -/
def functionNamed? (program : Program) (name : String) : Option FunctionId :=
  (program.functions.findIdx? (·.name == name)).map (⟨.ofNat ·⟩)

/-- Identifiers of all functions, in order. -/
def functionIds (program : Program) : List FunctionId :=
  (List.range program.functions.length).map (⟨.ofNat ·⟩)

end Program

end Reentry
