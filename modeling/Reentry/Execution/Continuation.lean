import Reentry.Value.Heap

/-!
What a call hands back to its caller or to the scheduler.
-/

namespace Reentry

/-- Why a call gave up control. -/
inductive YieldReason where
  | goto
  | raise
  /-- An event has been sent; nothing is awaited. -/
  | send
  | receive
  | new (machine : MachineTypeId) (payload : Value)
  | nondet
  | pop
deriving DecidableEq, Repr

namespace YieldReason

def name : YieldReason → String
  | .goto => "goto"
  | .raise => "raise"
  | .send => "send"
  | .receive => "receive"
  | .new .. => "new"
  | .nondet => "nondet"
  | .pop => "pop"

/-- Whether no frame was saved, so that the call never resumes. -/
def isTerminal : YieldReason → Bool
  | .goto | .raise | .pop => true
  | .send | .receive | .new .. | .nondet => false

end YieldReason

inductive Continuation where
  /-- The function returned, with these final locals. -/
  | completed (value : Option Value) (locals : List Value)
  | suspended (reason : YieldReason)
deriving DecidableEq, Repr

end Reentry
