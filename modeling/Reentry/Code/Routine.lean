import Reentry.Code.FrameShape
import Reentry.Code.Instr

/-!
A function as code that can be entered at its start or at any of its labels, and the image of a whole
program.
-/

namespace Reentry

structure Routine where
  function : FunctionId
  name : String
  /-- Machine type the function belongs to; free functions have none. -/
  owner : Option MachineTypeId
  shape : FrameShape
  /-- Number of labels issued. -/
  labelCount : Nat
  /-- Positions of the labels 1, 2, …; absent if there are none. -/
  dispatch : Option (List Nat)
  body : List Instr
  /-- Position of every mark. -/
  marks : List (MarkId × Nat)

namespace Routine

/-- Position at which a label is entered. The start of the function is no such label. -/
def landing? (routine : Routine) (label : LabelId) : Option Nat :=
  match label.number with
  | 0 => none
  | number + 1 => routine.dispatch.bind (·[number]?)

def position? (routine : Routine) : Target → Option Nat
  | .label label => routine.landing? label
  | .mark mark => (routine.marks.find? (·.1 == mark)).map (·.2)

/-- Whether the function can suspend. -/
def isResumable (routine : Routine) : Bool := 0 < routine.labelCount

def labelsInBody (routine : Routine) : List LabelId := routine.body.filterMap Instr.label?

/-- Positions at which control may leave the call. -/
def leavingPositions (routine : Routine) : List Nat :=
  routine.body.zipIdx.filterMap fun (instr, position) => if instr.leavesCall then some position else none

end Routine

/-- All routines of a program and the declarations needed to run them. -/
structure Image where
  file : String
  routines : List Routine
  machines : List MachineDecl
  events : List EventDecl

namespace Image

def routine? (image : Image) (function : FunctionId) : Option Routine :=
  image.routines[function.index.toNat]?

/-- The first routine of that name. -/
def routineNamed? (image : Image) (name : String) : Option Routine :=
  image.routines.find? (·.name == name)

def machine? (image : Image) (machine : MachineTypeId) : Option MachineDecl :=
  image.machines[machine.index.toNat]?

def labelCount (image : Image) : Nat := image.routines.foldl (· + ·.labelCount) 0

def resumableCount (image : Image) : Nat := (image.routines.filter (·.isResumable)).length

end Image

end Reentry
