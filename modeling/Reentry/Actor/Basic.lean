import Reentry.Actor.Frame

/-!
Actors: running instances of machine types.
-/

namespace Reentry

/-- What the scheduler answers to a call that waits for it. -/
structure ResumeInput where
  /-- Boolean chosen for the last nondeterministic choice. -/
  nondet : Option Bool
  /-- Instance created for the last `new`. -/
  created : Option MachineId
deriving DecidableEq, Repr, Inhabited

structure Actor where
  id : MachineId
  machine : MachineTypeId
  /-- Name of the machine type. -/
  name : String
  fields : List Value
  /-- Event being handled. -/
  trigger : Value
  /-- Payload of that event. -/
  payload : Value
  /-- State that the last goto went to. -/
  gotoTarget : Option StateId
  /-- Events that the pending receive accepts. -/
  receiveSet : List CaseEvent
  resume : ResumeInput
  /-- Saved frames, top first. -/
  stack : List Frame
deriving Repr

/-- Whether a receive case accepts an event. -/
def CaseEvent.accepts : CaseEvent → Value → Bool
  | .event id, .event arrived => id == arrived
  | .null, .null => true
  | .halt, .halt => true
  | _, _ => false

namespace Actor

/-- A new instance; each field starts with the initial value of its type. -/
def create (id : MachineId) (machine : MachineTypeId) (decl : MachineDecl) : Alloc Actor := do
  let fields ← decl.fields.mapM fun field => Value.initial field.ty
  pure ⟨id, machine, decl.name, fields, .null, .null, none, [], ⟨none, none⟩, []⟩

def push (actor : Actor) (frame : Frame) : Actor := { actor with stack := frame :: actor.stack }

/-- Pushes the frame of a new call. -/
def startCall (image : Image) (function : FunctionId) (args : List Value) (actor : Actor) : HeapOp Actor := do
  match image.routine? function with
  | none => throw (.internal actor.name (.unknownFunction function))
  | some routine => pure (actor.push (.atStart function (← routine.shape.createLocals args)))

def accepts (actor : Actor) (event : Value) : Bool := actor.receiveSet.any (·.accepts event)

/-- Hands over an event that a receive waits for. -/
def deliver (event payload : Value) (actor : Actor) : Actor := { actor with trigger := event, payload := payload }

/-- A copy of the whole instance, saved frames included, that shares no cell with it. Every field,
register and local is copied on its own. -/
def fork (actor : Actor) : Alloc Actor := do
  let fields ← deepCopies actor.fields
  let trigger ← actor.trigger.deepCopy
  let payload ← actor.payload.deepCopy
  let stack ← actor.stack.reverse.mapM Frame.deepCopy
  pure { actor with fields, trigger, payload, stack := stack.reverse }

end Actor

end Reentry
