import Reentry.Lowering.Error
import Reentry.Program.Basic

/-!
Shape of a function's frames: parameters first, then declared locals, then temporaries up to the slot
count that the front end fixed.
-/

namespace Reentry

inductive SlotKind where
  | param
  | declared
  | temp
deriving DecidableEq, Repr

structure Slot where
  name : String
  /-- Temporaries have no type. -/
  ty : Option Ty
  kind : SlotKind
deriving Repr

structure FrameShape where
  function : FunctionId
  /-- Name of the function, for diagnostics. -/
  name : String
  slots : List Slot
  /-- How many of the first slots are parameters. -/
  paramCount : Nat
deriving Repr

namespace FrameShape

def slotCount (shape : FrameShape) : Nat := shape.slots.length

/-- Slot of a parameter or local; of several with one name, the last. -/
def slotOf? (shape : FrameShape) (name : String) : Option Nat :=
  ((shape.slots.zipIdx.filter fun (slot, _) => slot.kind ≠ .temp && slot.name == name).getLast?).map (·.2)

/-- Checks that the variables are declared for the slots from `position` on. -/
def checkSlots (function : String) (position : Nat) : List VarDecl → Except LowerError Unit
  | [] => .ok ()
  | decl :: rest =>
      if decl.slot.toNat = position then checkSlots function (position + 1) rest
      else .error (.slotMismatch function decl.name decl.slot.toNat position)

def temporaries (count : Nat) : List Slot :=
  (List.range count).map fun number => ⟨"$t" ++ Decimal.natText number, none, .temp⟩

/-- Lays out the frame of a function. -/
def of (function : FunctionId) (info : FunctionInfo) : Except LowerError FrameShape := do
  let declared := info.params.length + info.locals.length
  if info.slotCount.toNat < declared then
    throw (.localsMismatch info.name declared info.slotCount.toNat)
  checkSlots info.name 0 (info.params ++ info.locals)
  let slots := info.params.map (fun decl => ⟨decl.name, some decl.ty, .param⟩)
    ++ info.locals.map (fun decl => ⟨decl.name, some decl.ty, .declared⟩)
    ++ temporaries (info.slotCount.toNat - declared)
  return ⟨function, info.name, slots, info.params.length⟩

end FrameShape

end Reentry
