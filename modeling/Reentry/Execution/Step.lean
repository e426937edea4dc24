import Reentry.Execution.Operand
import Reentry.Text.Placeholder

/-!
One instruction of a running call.
-/

namespace Reentry

/-- How a call goes on after an instruction. -/
inductive Flow where
  | next (act : Activation)
  | leave (result : Continuation)

/-- Sets a recorded choice; choices that are skipped are false. -/
def recordChoice (choices : List Bool) (number : Nat) (chosen : Bool) : List Bool :=
  (choices ++ List.replicate (number + 1 - choices.length) false).set number chosen

namespace Env

variable {σ : Type} (env : Env σ)

/-- Moves the locals and choices of the call into a frame that resumes at the label. -/
def saveFrame (act : Activation) (resume : LabelId) (pendingCall : Option FunctionId) : Exec σ Activation := do
  Exec.modifyActor fun actor =>
    actor.push ⟨env.routine.shape.function, act.locals, resume, pendingCall, act.choices⟩
  pure { act with locals := [], choices := [] }

/-- Carries out a request and gives the continuation that the next exit hands back. -/
def request (act : Activation) : YieldRequest → Exec σ (Activation × Continuation)
  | .goto => pure (act, .suspended .goto)
  | .raise => pure (act, .suspended .raise)
  | .send resume => do pure (← env.saveFrame act resume none, .suspended .send)
  | .receive resume => do pure (← env.saveFrame act resume none, .suspended .receive)
  | .new machine payload resume => do
      let payload ← env.eval act payload
      pure (← env.saveFrame act resume none, .suspended (.new machine payload))
  | .nondet resume => do pure (← env.saveFrame act resume none, .suspended .nondet)
  | .pop => pure (act, .suspended .pop)
  | .ret => pure ({ act with locals := [] }, .completed none act.locals)
  | .retValue value => do
      let value ← env.eval act value
      pure ({ act with locals := [] }, .completed (some value) act.locals)

/-- Pushes the frame of the handler for the event that arrived and goes to its arm. -/
def dispatchReceive (arms : List ReceiveArm) : Exec σ Nat := do
  let actor ← Exec.actor
  match arms.filter (·.event.accepts actor.trigger) with
  | [] => env.trap (.noCase (actor.trigger.text (← get).heap))
  | [arm] =>
      Exec.modifyActor fun actor => { actor with receiveSet := [] }
      match env.image.routine? arm.handler with
      | none => env.trap (.unknownHandler arm.handler)
      | some handler =>
          if handler.shape.paramCount = 0 then env.startCall arm.handler []
          else env.startCall arm.handler [← Exec.ofAlloc actor.payload.deepCopy]
          env.position (.label arm.entry)
  | _ => env.trap (.severalCases (actor.trigger.text (← get).heap))

/-- Sends an event: the target has to be a machine and the event no null. -/
def enqueue (act : Activation) (target event payload : Operand) : Exec σ Unit := do
  let target ← env.eval act target
  let target ← Exec.ofValueOp (target.asMachine "send target")
  let event ← env.eval act event
  if event.isEvent then
    let payload ← env.eval act payload
    Exec.perform env.handler (.enqueue (← Exec.actor).id target event payload)
  else Exec.ofValueOp (Value.mismatch "send" "event" event)

def step (act : Activation) : Instr → Exec σ Flow
  | .label _ | .mark _ => pure (.next act)
  | .jump target => do pure (.next { act with position := ← env.position target })
  | .jumpUnless cond target => do
      let cond ← env.eval act cond
      if ← Exec.ofValueOp (cond.asBool "condition") then pure (.next act)
      else pure (.next { act with position := ← env.position target })
  | .assign dest value => do
      let value ← env.eval act value
      .next <$> env.store act dest value
  | .swap dest source => do
      let oldDest ← env.load act dest
      let oldSource ← env.load act source
      let act ← env.store act dest oldSource
      .next <$> env.store act source oldDest
  | .update container selector value => do
      let value ← env.eval act value
      let container ← env.load act container
      let _ ← env.replacePart act container selector value
      pure (.next act)
  | .exchange container selector source => do
      let incoming ← env.load act source
      let container ← env.load act container
      let old ← env.replacePart act container selector incoming
      .next <$> env.store act source old
  | .remove container kind key => do
      let key ← env.eval act key
      let container ← env.load act container
      expectKind kind container
      Exec.ofValueOp (container.remove key)
      pure (.next act)
  | .insert container kind entry => do
      let entry ← env.eval act entry
      let container ← env.load act container
      expectKind kind container
      let key ← Exec.ofValueOp (entry.field 0)
      let value ← Exec.ofValueOp (entry.field 1)
      Exec.ofValueOp (container.insert key value)
      pure (.next act)
  | .assert cond message => do
      let cond ← env.eval act cond
      if ← Exec.ofValueOp (cond.asBool "assert") then pure (.next act)
      else Exec.fail (.assertionFailed message)
  | .print format args => do
      let values ← env.evalAll act args
      let heap := (← get).heap
      Exec.perform env.handler
        (.print (← Exec.actor).id (formatMessage (·.text heap) format values))
      pure (.next act)
  | .announce event payload => do
      let event ← env.eval act event
      let payload ← env.eval act payload
      Exec.perform env.handler (.announce (← Exec.actor).id event payload)
      pure (.next act)
  | .enqueue target event payload => do
      env.enqueue act target event payload
      pure (.next act)
  | .setGotoTarget state => do
      Exec.modifyActor fun actor => { actor with gotoTarget := some state }
      pure (.next act)
  | .registerReceive event => do
      Exec.modifyActor fun actor =>
        if event ∈ actor.receiveSet then actor else { actor with receiveSet := actor.receiveSet ++ [event] }
      pure (.next act)
  | .dispatchReceive arms => do pure (.next { act with position := ← env.dispatchReceive arms })
  | .pushFrame callee args => do
      let values ← env.evalArguments act args
      env.startCall callee values
      pure (.next act)
  | .invoke callee => do pure (.next { act with lastCall := some (← env.invoke callee) })
  | .propagateSuspension callee resume => do
      match act.lastCall with
      | some (.suspended reason) =>
          let _ ← env.saveFrame act resume (some callee)
          pure (.leave (.suspended reason))
      | some (.completed _ _) => pure (.next act)
      | none => env.trap .noInvocation
  | .collectReturn dest => do
      match act.lastCall with
      | some (.completed value _) => .next <$> env.store act dest (value.getD .null)
      | _ => env.trap .noCompletedCall
  | .writeBack dest slot => do
      match act.lastCall with
      | some (.completed _ locals) =>
          match locals[slot]? with
          | some value => .next <$> env.store act dest value
          | none => env.trap (.noReturnedSlot slot)
      | _ => env.trap (.noReturnedSlot slot)
  | .readCreated dest => do
      match (← Exec.actor).resume.created with
      | some created =>
          Exec.modifyActor fun actor => { actor with resume := { actor.resume with created := none } }
          .next <$> env.store act dest (.machine created)
      | none => env.trap .noInstance
  | .recordChoice number => do
      match (← Exec.actor).resume.nondet with
      | some chosen =>
          Exec.modifyActor fun actor => { actor with resume := { actor.resume with nondet := none } }
          pure (.next { act with choices := recordChoice act.choices number chosen })
      | none => env.trap .noChoice
  | .yield request => do
      let (act, continuation) ← env.request act request
      pure (.next { act with pending := some continuation })
  | .exit =>
      match act.pending with
      | some continuation => pure (.leave continuation)
      | none => env.trap .exitWithoutYield

end Env

end Reentry
