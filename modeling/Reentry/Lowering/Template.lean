import Reentry.Code.Instr

/-!
Code of each statement form, given its operands, the code of its parts and the labels and marks issued
for it. An operation that hands control to the scheduler is split at a yield: what is done before it,
the yield and an exit, and, unless the operation is final, the label at which the saved frame resumes.
-/

namespace Reentry.Template

/-- Yields, leaves the call, and comes back at `resume`. -/
def suspend (request : YieldRequest) (resume : LabelId) : List Instr :=
  [.yield request, .exit, .label resume]

/-- Yields and leaves the call for good. -/
def terminate (request : YieldRequest) : List Instr :=
  [.yield request, .exit]

/-- Asks for a boolean and records it. -/
def choose (resume : LabelId) (choice : Nat) : List Instr :=
  suspend (.nondet resume) resume ++ [.recordChoice choice]

def nonNull (event : Operand) : Operand :=
  .binary .ne event .null

/-- Payload of an event: nothing is null, one value is itself, more form a tuple. -/
def payload : List Operand → Operand
  | [] => .null
  | [value] => value
  | values => .tuple values

def loop (start stop : MarkId) (cond : Operand) (body : List Instr) : List Instr :=
  [.mark start, .jumpUnless cond (.mark stop)] ++ body ++ [.jump (.mark start), .mark stop]

def branchElse (stop otherwise : MarkId) (cond : Operand) (onTrue onFalse : List Instr) : List Instr :=
  .jumpUnless cond (.mark otherwise) ::
    (onTrue ++ [.jump (.mark stop), .mark otherwise] ++ onFalse ++ [.mark stop])

def branch (stop : MarkId) (cond : Operand) (onTrue : List Instr) : List Instr :=
  .jumpUnless cond (.mark stop) :: (onTrue ++ [.mark stop])

def goto (state : StateId) (payload : Operand) : List Instr :=
  [.assign .trigger .null, .assign .payload payload, .setGotoTarget state] ++ terminate .goto

def raise (message : String) (event payload : Operand) : List Instr :=
  [.assert (nonNull event) message, .assign .trigger event, .assign .payload payload] ++ terminate .raise

/-- The event is in the mailbox before anyone else runs; the yield is only a checkpoint. -/
def send (message : String) (target event payload : Operand) (resume : LabelId) : List Instr :=
  [.assert (nonNull event) message, .enqueue target event payload] ++ suspend (.send resume) resume

/-- The label stands in front of the handler, so that a caller which resumes enters it again. -/
def receiveArm (done : LabelId) (arm : ReceiveArm) : List Instr :=
  [.label arm.entry, .invoke arm.handler, .propagateSuspension arm.handler arm.entry, .jump (.label done)]

def receive (after done : LabelId) (arms : List ReceiveArm) : List Instr :=
  arms.map (fun arm => .registerReceive arm.event) ++ suspend (.receive after) after
    ++ [.dispatchReceive arms] ++ arms.flatMap (receiveArm done) ++ [.label done]

def new (machine : MachineTypeId) (payload : Operand) (out : Option Place) (resume : LabelId) : List Instr :=
  suspend (.new machine payload resume) resume ++ out.toList.map .readCreated

/-- The frame of the callee is pushed once. The label stands in front of the invocation, so a caller
that resumes enters the callee's own saved frame, which is then on top of the stack. -/
def call (callee : FunctionId) (args : List Argument) (out : Option Place)
    (writeBacks : List (Place × Nat)) (landing : LabelId) : List Instr :=
  [.pushFrame callee args, .label landing, .invoke callee, .propagateSuspension callee landing]
    ++ out.toList.map .collectReturn
    ++ writeBacks.map fun (dest, slot) => .writeBack dest slot

def pop : List Instr :=
  [.assign .trigger .null, .assign .payload .null] ++ terminate .pop

def ret : Option Operand → List Instr
  | none => terminate .ret
  | some value => terminate (.retValue value.cloned)

/-- Puts the choices of a statement in front of its code. A loop asks again before each test of its
condition, so there they follow its first mark. -/
def withChoices (isLoop : Bool) (choices code : List Instr) : List Instr :=
  match isLoop, code with
  | true, first :: rest => first :: (choices ++ rest)
  | _, _ => choices ++ code

end Reentry.Template
