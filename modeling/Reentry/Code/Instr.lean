import Reentry.Code.Label
import Reentry.Code.Operand

/-!
Instructions of a function body. A body is flat: control leaves it by a yield followed by an exit, and
a saved frame comes back at a label.
-/

namespace Reentry

/-- Where a receive continues for one of its events. -/
structure ReceiveArm where
  event : CaseEvent
  handler : FunctionId
  /-- Label in front of the handler's invocation. -/
  entry : LabelId
deriving DecidableEq, Repr

/-- What a yield asks the scheduler for. -/
inductive YieldRequest where
  | goto
  | raise
  | send (resume : LabelId)
  | receive (resume : LabelId)
  | new (machine : MachineTypeId) (payload : Operand) (resume : LabelId)
  | nondet (resume : LabelId)
  | pop
  | ret
  | retValue (value : Operand)

namespace YieldRequest

/-- Label at which the call resumes, for requests it resumes after. -/
def resume? : YieldRequest → Option LabelId
  | .send resume | .receive resume | .new _ _ resume | .nondet resume => some resume
  | .goto | .raise | .pop | .ret | .retValue _ => none

def name : YieldRequest → String
  | .goto => "goto"
  | .raise => "raise"
  | .send _ => "send"
  | .receive _ => "receive"
  | .new .. => "new"
  | .nondet _ => "nondet"
  | .pop => "pop"
  | .ret => "return"
  | .retValue _ => "return-value"

end YieldRequest

inductive Instr where
  | label (label : LabelId)
  | mark (mark : MarkId)
  | jump (target : Target)
  | jumpUnless (cond : Operand) (target : Target)
  | assign (dest : Place) (value : Operand)
  | swap (dest source : Place)
  /-- Overwrites part of the container at a place. -/
  | update (container : Place) (selector : Selector) (value : Operand)
  /-- Stores the value at `source` into part of a container, and the old part at `source`. -/
  | exchange (container : Place) (selector : Selector) (source : Place)
  | remove (container : Place) (kind : ContainerKind) (key : Operand)
  /-- Inserts a tuple of an index or key and a value. -/
  | insert (container : Place) (kind : ContainerKind) (entry : Operand)
  | assert (cond : Operand) (message : String)
  | print (format : String) (args : List Operand)
  | announce (event payload : Operand)
  | enqueue (target event payload : Operand)
  | setGotoTarget (state : StateId)
  /-- Adds an event to those the actor waits for. -/
  | registerReceive (event : CaseEvent)
  /-- Goes to the arm of the event that arrived. -/
  | dispatchReceive (arms : List ReceiveArm)
  | pushFrame (callee : FunctionId) (args : List Argument)
  /-- Runs the callee on the frame at the top of the stack. -/
  | invoke (callee : FunctionId)
  /-- If the callee suspended, saves this frame and leaves. -/
  | propagateSuspension (callee : FunctionId) (resume : LabelId)
  | collectReturn (dest : Place)
  /-- Copies a slot of the callee's final locals to a place. -/
  | writeBack (dest : Place) (slot : Nat)
  | readCreated (dest : Place)
  | recordChoice (number : Nat)
  | yield (request : YieldRequest)
  | exit

namespace Instr

/-- Whether control may leave the call here. -/
def leavesCall : Instr → Bool
  | .exit | .propagateSuspension .. => true
  | _ => false

def label? : Instr → Option LabelId
  | .label landing => some landing
  | _ => none

def mark? : Instr → Option MarkId
  | .mark position => some position
  | _ => none

/-- Everywhere the instruction may continue besides the next one. -/
def targets : Instr → List Target
  | .jump target | .jumpUnless _ target => [target]
  | .dispatchReceive arms => arms.map fun arm => .label arm.entry
  | .propagateSuspension _ resume => [.label resume]
  | .yield request => request.resume?.toList.map .label
  | _ => []

end Instr

end Reentry
