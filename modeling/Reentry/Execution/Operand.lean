import Reentry.Code.Routine
import Reentry.Execution.Monad

/-!
Evaluation of operands and access to places. Loading a place gives the value stored there, not a copy,
and evaluates the index expressions on the way; so does storing, which therefore evaluates them again.
-/

namespace Reentry

/-- Surroundings of running code that it cannot change. -/
structure Env (σ : Type) where
  image : Image
  /-- The routine that runs. -/
  routine : Routine
  handler : Handler σ
  /-- Runs a function on the frame at the top of the stack. -/
  invoke : FunctionId → Exec σ Continuation

/-- A call while it runs. -/
structure Activation where
  locals : List Value
  choices : List Bool
  /-- Position of the next instruction. -/
  position : Nat
  /-- What the last invocation handed back. -/
  lastCall : Option Continuation
  /-- What the next exit hands back. -/
  pending : Option Continuation
deriving Repr

def Constant.value : Constant → Value
  | .null => .null
  | .bool value => .bool value
  | .int value => .int value
  | .event id => .event id
  | .halt => .halt

namespace Env

variable {σ : Type} (env : Env σ)

def trap {α : Type} (reason : Trap) : Exec σ α := Exec.trap env.routine.name reason

def position (target : Target) : Exec σ Nat :=
  match env.routine.position? target with
  | some position => pure position
  | none => env.trap (.missingTarget target)

def startCall (callee : FunctionId) (args : List Value) : Exec σ Unit := do
  let actor ← Exec.ofHeapOp (Actor.startCall env.image callee args (← Exec.actor))
  Exec.modifyActor fun _ => actor

/-- A call inside an expression: the callee has to return before anything else happens. -/
def callToEnd (callee : FunctionId) (args : List Value) : Exec σ Value := do
  env.startCall callee args
  match ← env.invoke callee with
  | .completed value _ => pure (value.getD .null)
  | .suspended reason => env.trap (.yieldedInExpression callee reason.name)

/-- Fails unless the value is a container of that kind. -/
def expectKind (kind : ContainerKind) (container : Value) : Exec σ Unit :=
  Exec.ofValueOp do
    match kind, (← get).cell? container with
    | .seq, some (_, .seq _) => pure ()
    | .map, some (_, .map _) => pure ()
    | .seq, _ => Value.mismatch "index" "seq" container
    | .map, _ => Value.mismatch "index" "map" container

mutual

/-- The value stored at a place. -/
def load (act : Activation) : Place → Exec σ Value
  | .slot index =>
      match act.locals[index]? with
      | some value => pure value
      | none => env.trap (.noSlot index)
  | .field index => do
      match (← Exec.actor).fields[index]? with
      | some value => pure value
      | none => env.trap (.noField index)
  | .trigger => do pure (← Exec.actor).trigger
  | .payload => do pure (← Exec.actor).payload
  | .part base index => do
      let tuple ← load act base
      Exec.ofValueOp (tuple.field index)
  | .element base key kind => do
      let container ← load act base
      expectKind kind container
      let key ← eval act key
      Exec.ofValueOp (container.lookup key)

def eval (act : Activation) : Operand → Exec σ Value
  | .const constant => pure constant.value
  | .this => do pure (.machine (← Exec.actor).id)
  | .load place => load act place
  | .clone inner => do
      let value ← eval act inner
      Exec.ofAlloc value.deepCopy
  | .unary op arg => do
      let arg ← eval act arg
      Exec.ofValueOp (op.apply arg)
  | .binary op lhs rhs => do
      let left ← eval act lhs
      match op with
      | .and => do
          if ← Exec.ofValueOp (left.asBool "&&") then
            let right ← eval act rhs
            pure (.bool (← Exec.ofValueOp (right.asBool "&&")))
          else pure (.bool false)
      | .or => do
          if ← Exec.ofValueOp (left.asBool "||") then pure (.bool true)
          else
            let right ← eval act rhs
            pure (.bool (← Exec.ofValueOp (right.asBool "||")))
      | op => do
          let right ← eval act rhs
          Exec.ofValueOp (op.apply left right)
  | .lookup base key kind => do
      let container ← eval act base
      expectKind kind container
      let key ← eval act key
      Exec.ofValueOp (container.lookup key)
  | .part base index => do
      let tuple ← eval act base
      Exec.ofValueOp (tuple.field index)
  | .tuple items => do
      let values ← evalAll act items
      Exec.ofAlloc (Cell.new (.tuple values))
  | .named fields => do
      let values ← evalFields act fields
      Exec.ofAlloc (Cell.new (.named values))
  | .default ty => Exec.ofAlloc (Value.initial ty)
  | .cast value ty => do
      let value ← eval act value
      Exec.ofValueOp (value.cast ty)
  | .call callee args => do
      let values ← evalArguments act args
      env.callToEnd callee values
  | .choice number =>
      match act.choices[number]? with
      | some chosen => pure (.bool chosen)
      | none => env.trap (.choiceNotRecorded number)

def evalAll (act : Activation) : List Operand → Exec σ (List Value)
  | [] => pure []
  | operand :: rest => do
      let value ← eval act operand
      pure (value :: (← evalAll act rest))

def evalFields (act : Activation) : List (String × Operand) → Exec σ (List (String × Value))
  | [] => pure []
  | (name, operand) :: rest => do
      let value ← eval act operand
      pure ((name, value) :: (← evalFields act rest))

def evalArguments (act : Activation) : List Argument → Exec σ (List Value)
  | [] => pure []
  | .mk operand _ :: rest => do
      let value ← eval act operand
      pure (value :: (← evalArguments act rest))

end

/-- Overwrites the value at a place. A container that the place lies in is changed where it is. -/
def store (act : Activation) (place : Place) (value : Value) : Exec σ Activation := do
  match place with
  | .slot index =>
      if index < act.locals.length then pure { act with locals := act.locals.set index value }
      else env.trap (.noSlot index)
  | .field index =>
      if index < (← Exec.actor).fields.length then
        Exec.modifyActor fun actor => { actor with fields := actor.fields.set index value }
        pure act
      else env.trap (.noField index)
  | .trigger =>
      Exec.modifyActor fun actor => { actor with trigger := value }
      pure act
  | .payload =>
      Exec.modifyActor fun actor => { actor with payload := value }
      pure act
  | .part base index =>
      let tuple ← env.load act base
      Exec.ofValueOp (tuple.updateField index value)
      pure act
  | .element base key kind =>
      let container ← env.load act base
      expectKind kind container
      let key ← env.eval act key
      Exec.ofValueOp (container.update key value)
      pure act

/-- Overwrites part of a container and gives the old part. -/
def replacePart (act : Activation) (container : Value) (selector : Selector) (value : Value) : Exec σ Value := do
  match selector with
  | .part index => Exec.ofValueOp (container.replaceField index value)
  | .element key kind =>
      expectKind kind container
      let key ← env.eval act key
      Exec.ofValueOp (container.replace key value)

end Env

end Reentry
