import Reentry.Code.Assembly
import Reentry.Lowering.Body

/-!
Lowering of functions and of whole programs.
-/

namespace Reentry

/-- Lowers the body of a function; returns its code and the number of labels issued. -/
def Lowering.Scope.body (scope : Lowering.Scope) : Except LowerError (List Instr × Nat) := do
  let lowered : Lower (List Instr) := do Lower.expectCode (← scope.function.body.lower false .read)
  let (code, progress) ← (lowered.run scope).run .start
  return (code, progress.supply.labels)

namespace Program

def lowerFunction (program : Program) (id : FunctionId) (options : LowerOptions) : Except LowerError Routine := do
  match program.function? id with
  | none => throw (.unknownFunction "<program>" id.index.toNat)
  | some info =>
      let shape ← FrameShape.of id info
      let (code, labelCount) ← Lowering.Scope.body ⟨program, info, options⟩
      Routine.assemble info shape code labelCount options.verify

/-- Lowers every function, in order. -/
def lower (program : Program) (options : LowerOptions) : Except LowerError Image := do
  let routines ← program.functionIds.mapM fun id => program.lowerFunction id options
  return ⟨program.file, routines, program.machines, program.events⟩

end Program

end Reentry
