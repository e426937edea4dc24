import Reentry.Code.Routine

/-!
From a body to a routine: the implicit return, the positions of labels and marks, and the checks on the
result. The checks say that every target exists, that a yield which resumes is followed by an exit and
by its label, and that control cannot run off the end.
-/

namespace Reentry

namespace Routine

/-- Positions of labels and marks that have been met so far, last first. -/
structure Positions where
  labels : List (LabelId × Nat)
  marks : List (MarkId × Nat)

namespace Positions

def label? (positions : Positions) (label : LabelId) : Option Nat :=
  (positions.labels.find? (·.1 == label)).map (·.2)

def mark? (positions : Positions) (mark : MarkId) : Option Nat :=
  (positions.marks.find? (·.1 == mark)).map (·.2)

/-- Notes the labels and marks of a body whose first instruction is at `position`. -/
def collect (positions : Positions) (position : Nat) : List Instr → Except String Positions
  | [] => .ok positions
  | .label label :: rest =>
      if (positions.label? label).isSome then .error ("label " ++ label.text ++ " emitted twice")
      else { positions with labels := (label, position) :: positions.labels }.collect (position + 1) rest
  | .mark mark :: rest =>
      if (positions.mark? mark).isSome then .error ("mark " ++ mark.text ++ " emitted twice")
      else { positions with marks := (mark, position) :: positions.marks }.collect (position + 1) rest
  | _ :: rest => positions.collect (position + 1) rest

/-- Positions of the labels from 1 to `count`, in order. -/
def landings (positions : Positions) (count : Nat) : Except String (List Nat) :=
  (List.range count).mapM fun index =>
    match positions.label? ⟨index + 1⟩ with
    | some position => .ok position
    | none => .error ("label L" ++ Decimal.natText (index + 1) ++ " issued but never emitted")

end Positions

/-- Whether what follows a yield is an exit and the label at which the yield resumes. -/
def resumesNext (resume : LabelId) : List Instr → Bool
  | .exit :: .label label :: _ => label == resume
  | _ => false

/-- Checks the part of a body that starts at `position`. -/
def verifyFrom (routine : Routine) (position : Nat) : List Instr → Except String Unit
  | [] => .ok ()
  | instr :: rest => do
      for target in instr.targets do
        if (routine.position? target).isNone then
          throw ("instruction @" ++ Decimal.natText position ++ " targets a missing " ++ target.describe)
      if let .yield request := instr then
        if let some resume := request.resume? then
          if !resumesNext resume rest then
            throw ("yield @" ++ Decimal.natText position ++ " is not followed by exit and " ++ resume.text)
      verifyFrom routine (position + 1) rest

/-- Checks an assembled routine in which `emitted` labels occur. -/
def verify (routine : Routine) (emitted : Nat) : Except String Unit := do
  if emitted ≠ routine.labelCount then
    throw (Decimal.natText emitted ++ " labels emitted but " ++ Decimal.natText routine.labelCount ++ " issued")
  if routine.shape.slotCount < routine.shape.paramCount then
    throw "frame has fewer slots than parameters"
  verifyFrom routine 0 routine.body
  match routine.body.getLast? with
  | some last => if last.leavesCall then return () else throw "body does not end by leaving the call"
  | none => throw "body does not end by leaving the call"

/-- Running off the end of a body returns. -/
def implicitReturn : List Instr := [.yield .ret, .exit]

def assembleUnnamed (info : FunctionInfo) (shape : FrameShape) (body : List Instr) (labelCount : Nat)
    (verified : Bool) : Except String Routine := do
  let body := body ++ implicitReturn
  let positions ← Positions.collect ⟨[], []⟩ 0 body
  let dispatch ← if labelCount = 0 then pure none else some <$> positions.landings labelCount
  let routine : Routine := {
    function := shape.function
    name := info.name
    owner := info.owner
    shape
    labelCount
    dispatch
    body
    marks := positions.marks }
  if verified then routine.verify positions.labels.length
  return routine

/-- Assembles the routine of a function from its body and the number of labels issued for it. -/
def assemble (info : FunctionInfo) (shape : FrameShape) (body : List Instr) (labelCount : Nat)
    (verified : Bool) : Except LowerError Routine :=
  (assembleUnnamed info shape body labelCount verified).mapError (.verification info.name)

end Routine

end Reentry
