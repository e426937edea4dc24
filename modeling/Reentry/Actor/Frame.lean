import Reentry.Code.Routine
import Reentry.Execution.Failure
import Reentry.Value.Tree

/-!
Frames: what is kept of a call while it is not running.
-/

namespace Reentry

structure Frame where
  function : FunctionId
  locals : List Value
  /-- Where the call resumes; the start for a call that has not run yet. -/
  label : LabelId
  /-- Callee that was still in progress when the frame was saved. -/
  pendingCall : Option FunctionId
  /-- Choices recorded for the statement in progress. -/
  choices : List Bool
deriving DecidableEq, Repr

/-- Work on a heap that may fail as a whole; a failure leaves the heap as it was. -/
abbrev HeapOp := StateT Heap (Except RuntimeFailure)

/-- Copies of values, one by one: what two of them shared, their copies do not share. -/
def deepCopies (values : List Value) : Alloc (List Value) := values.mapM Value.deepCopy

namespace Frame

def atLabel (function : FunctionId) (label : LabelId) (locals : List Value) : Frame :=
  ⟨function, locals, label, none, []⟩

def atStart (function : FunctionId) (locals : List Value) : Frame :=
  atLabel function .start locals

def isResuming (frame : Frame) : Bool := !frame.label.isStart

def deepCopy (frame : Frame) : Alloc Frame := do
  pure { frame with locals := ← deepCopies frame.locals }

end Frame

namespace FrameShape

/-- Value that a slot starts with if it is no parameter. -/
def initialSlot (slot : Slot) : Alloc Value :=
  match slot.ty with
  | some ty => Value.initial ty
  | none => pure .null

/-- Locals of a new call: the arguments as given, then initial values. -/
def createLocals (shape : FrameShape) (args : List Value) : HeapOp (List Value) := do
  if args.length ≠ shape.paramCount then
    throw (.internal shape.name (.wrongArgumentCount shape.paramCount args.length))
  let rest : Alloc (List Value) := (shape.slots.drop shape.paramCount).mapM initialSlot
  pure (args ++ (← fun heap => .ok (rest.run heap)))

/-- Value of a named slot of a frame. -/
def get? (shape : FrameShape) (frame : Frame) (name : String) : Option Value :=
  (shape.slotOf? name).bind (frame.locals[·]?)

/-- Overwrites a named slot of a frame, if there is one. -/
def set? (shape : FrameShape) (frame : Frame) (name : String) (value : Value) : Option Frame := do
  let slot ← shape.slotOf? name
  if slot < frame.locals.length then some { frame with locals := frame.locals.set slot value } else none

end FrameShape

end Reentry
