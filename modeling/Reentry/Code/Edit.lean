import Reentry.Code.Routine

/-!
Edits of an image that ignore what lowering guarantees, to see how a run meets damaged code. Positions
of labels and marks are left as they are.
-/

namespace Reentry

inductive Edit where
  /-- Keeps only so many routines. -/
  | keepRoutines (count : Nat)
  /-- Keeps only so many instructions of a routine. -/
  | keepInstrs (function : FunctionId) (count : Nat)
  /-- Overwrites one instruction of a routine by a copy of another. -/
  | copyInstr (function : FunctionId) (source dest : Nat)
  /-- Forgets where the labels of a routine are. -/
  | dropDispatch (function : FunctionId)
deriving DecidableEq, Repr

namespace Image

/-- Changes one routine, if it exists and the change is possible. -/
def modifyRoutine? (image : Image) (function : FunctionId) (change : Routine → Option Routine) :
    Option Image := do
  let routine ← change (← image.routine? function)
  some { image with routines := image.routines.set function.index.toNat routine }

/-- Carries out an edit, unless it names a routine or an instruction that does not exist. -/
def edit? (image : Image) : Edit → Option Image
  | .keepRoutines count => some { image with routines := image.routines.take count }
  | .keepInstrs function count =>
      image.modifyRoutine? function fun routine => some { routine with body := routine.body.take count }
  | .copyInstr function source dest =>
      image.modifyRoutine? function fun routine => do
        let instr ← routine.body[source]?
        if dest < routine.body.length then some { routine with body := routine.body.set dest instr } else none
  | .dropDispatch function =>
      image.modifyRoutine? function fun routine => some { routine with dispatch := none }

end Image

end Reentry
