import Reentry.Code.Dump
import Reentry.Value.Error

/-!
Why a call stopped without a result. Failed assertions and failed operations on values are faults of the
program. A trap means that the code or the scheduler broke the rules about frames.
-/

namespace Reentry

/-- A broken rule about frames, code or the scheduler's answers. -/
inductive Trap where
  | unknownFunction (function : FunctionId)
  | emptyStack
  | wrongFrame (function : FunctionId)
  | wrongOwner (owner : MachineTypeId) (actor : String)
  | wrongSlotCount (found expected : Nat)
  /-- The frame of a call in progress is not below its caller's. -/
  | missingCallee (callee : FunctionId)
  | noLanding (label : LabelId)
  | pastEnd
  | missingTarget (target : Target)
  | exitWithoutYield
  | noInvocation
  | noCompletedCall
  | noReturnedSlot (slot : Nat)
  | noInstance
  | noChoice
  | choiceNotRecorded (number : Nat)
  | noCase (event : String)
  | severalCases (event : String)
  | unknownHandler (handler : FunctionId)
  | yieldedInExpression (callee : FunctionId) (reason : String)
  | wrongArgumentCount (expected found : Nat)
  | noSlot (slot : Nat)
  | noField (field : Nat)
  | noMailbox (machine : MachineId)
deriving DecidableEq, Repr

namespace Trap

def message : Trap → String
  | .unknownFunction function => "unknown function " ++ function.text
  | .emptyStack => "call stack is empty"
  | .wrongFrame function => "top frame belongs to " ++ function.text
  | .wrongOwner owner actor => "bound to " ++ owner.text ++ " but run on " ++ actor
  | .wrongSlotCount found expected =>
      "frame has " ++ Decimal.natText found ++ " slots, layout has " ++ Decimal.natText expected
  | .missingCallee callee => "suspended call to " ++ callee.text ++ " has no saved frame"
  | .noLanding label => "no landing point for " ++ label.text
  | .pastEnd => "ran past the end of the body"
  | .missingTarget target => "missing jump target " ++ target.describe
  | .exitWithoutYield => "exit without a pending yield"
  | .noInvocation => "no invocation to inspect"
  | .noCompletedCall => "no completed call to collect"
  | .noReturnedSlot slot => "no returned slot " ++ Decimal.natText slot
  | .noInstance => "resumed after new without an instance"
  | .noChoice => "resumed after nondet without a choice"
  | .choiceNotRecorded number => choiceText number ++ " was never recorded"
  | .noCase event => "no receive case matches " ++ event
  | .severalCases event => "several receive cases match " ++ event
  | .unknownHandler handler => "unknown handler " ++ handler.text
  | .yieldedInExpression callee reason => callee.text ++ " yielded " ++ reason ++ " inside an expression"
  | .wrongArgumentCount expected found =>
      "expected " ++ Decimal.natText expected ++ " arguments, got " ++ Decimal.natText found
  | .noSlot slot => "no slot " ++ Decimal.natText slot
  | .noField field => "no field " ++ Decimal.natText field
  | .noMailbox machine => "no mailbox for " ++ machine.text

end Trap

inductive RuntimeFailure where
  | assertionFailed (message : String)
  | value (error : ValueError)
  | internal (function : String) (trap : Trap)
  | callDepthExceeded (limit : Nat)
deriving DecidableEq, Repr

namespace RuntimeFailure

def message : RuntimeFailure → String
  | .assertionFailed message => message
  | .value error => error.message
  | .internal function trap => "internal error in " ++ function ++ ": " ++ trap.message
  | .callDepthExceeded limit => "call depth limit of " ++ Decimal.natText limit ++ " exceeded"

/-- Whether the program, and not the code or the scheduler, is at fault. -/
def isProgramError : RuntimeFailure → Bool
  | .assertionFailed _ | .value _ => true
  | .internal .. | .callDepthExceeded _ => false

end RuntimeFailure

end Reentry
