import Reentry.Text.Decimal

/-!
Positions in code. A label is a point at which a saved frame resumes, a mark only the target of jumps.
Both are issued per function and counted from 1; label 0 is the start of the function.
-/

namespace Reentry

structure LabelId where
  number : Nat
deriving DecidableEq, Repr, Inhabited

structure MarkId where
  number : Nat
deriving DecidableEq, Repr, Inhabited

namespace LabelId

def start : LabelId := ⟨0⟩

def isStart (label : LabelId) : Bool := label.number == 0

def text (label : LabelId) : String := "L" ++ Decimal.natText label.number

end LabelId

def MarkId.text (mark : MarkId) : String := "m" ++ Decimal.natText mark.number

/-- Destination of a jump. -/
inductive Target where
  | label (label : LabelId)
  | mark (mark : MarkId)
deriving DecidableEq, Repr

namespace Target

def text : Target → String
  | .label landing => landing.text
  | .mark position => position.text

/-- Form in diagnostics: kind and number. -/
def describe : Target → String
  | .label landing => "Label(LabelId(" ++ Decimal.natText landing.number ++ "))"
  | .mark position => "Mark(MarkId(" ++ Decimal.natText position.number ++ "))"

end Target

/-- How many labels and marks of a function have been issued. -/
structure LabelSupply where
  labels : Nat
  marks : Nat
deriving DecidableEq, Repr, Inhabited

namespace LabelSupply

def full : LabelSupply := ⟨0, 0⟩

def freshLabel (supply : LabelSupply) : LabelId × LabelSupply :=
  (⟨supply.labels + 1⟩, { supply with labels := supply.labels + 1 })

def freshMark (supply : LabelSupply) : MarkId × LabelSupply :=
  (⟨supply.marks + 1⟩, { supply with marks := supply.marks + 1 })

end LabelSupply

end Reentry
