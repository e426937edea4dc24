import Mathlib.Logic.Function.Iterate
import Reentry.Execution.Run
import Reentry.Proofs.Structure.Outline

/-!
Two ways to run a call, step by step: along the outline of its body, where a question is answered in
place, and through its flat code, where the frame is saved at a question and the call is entered again
at the label. A conversation runs a call in either way and answers its questions.
-/

namespace Reentry

/-- What a step of a call comes to. -/
inductive Turn (X : Type) where
  | on (here : X)
  /-- A question to the scheduler, and where the call goes on after the answer. -/
  | ask (reason : YieldReason) (here : X)
  | ended (result : Continuation)

/-- Whether the instruction about to come hands back control. -/
def Activation.isLeaving (act : Activation) : Bool :=
  match act.pending, act.lastCall with
  | some _, _ => true
  | none, some (.suspended _) => true
  | none, _ => false

/-- What is left of an activation that has waited for an answer. -/
def Activation.resumed (act : Activation) : Activation := { act with lastCall := none, pending := none }

/-- A call that goes along an outline: what is still to be done, and its activation, in which the
position has no meaning. -/
structure Course where
  ahead : List Outline
  act : Activation

namespace Env

variable {σ : Type} (env : Env σ) {X : Type}

/-- Ends a call. What suspends for good leaves no frames. -/
def close (result : Continuation) : Exec σ (Turn X) := do
  match result with
  | .completed .. => pure (.ended result)
  | .suspended _ =>
      Exec.modifyActor fun actor => { actor with stack := [] }
      pure (.ended result)

/-- What the scheduler gets to know of a question. -/
def reason (act : Activation) : Question → Exec σ YieldReason
  | .send => pure .send
  | .receive => pure .receive
  | .new machine payload => do pure (.new machine (← env.eval act payload))
  | .nondet => pure .nondet

/-- Pushes the frame of a handler, which gets a copy of the payload if it takes a parameter. -/
def pushHandler (function : FunctionId) (payload : Value) : Exec σ Unit := do
  Exec.modifyActor fun actor => { actor with receiveSet := [] }
  match env.image.routine? function with
  | none => env.trap (.unknownHandler function)
  | some handler =>
      if handler.shape.paramCount = 0 then env.startCall function []
      else env.startCall function [← Exec.ofAlloc payload.deepCopy]

/-- Finds the handler for the event that arrived and pushes its frame. -/
def startHandler (cases : List ReceiveCase) : Exec σ FunctionId := do
  let actor ← Exec.actor
  match cases.filter (·.event.accepts actor.trigger) with
  | [] => env.trap (.noCase (actor.trigger.text (← get).heap))
  | [case] =>
      env.pushHandler case.handler actor.payload
      pure case.handler
  | _ => env.trap (.severalCases (actor.trigger.text (← get).heap))

/-- One step along an outline. A callee that waits for an answer is invoked again when it has come. -/
def follow (course : Course) : Exec σ (Turn Course) := do
  let act := course.act
  match course.ahead with
  | [] => close (← env.request act .ret).2
  | .act instr :: rest =>
      match ← env.step act instr with
      | .next act => pure (.on ⟨rest, act⟩)
      | .leave result => close result
  | .finish request :: _ => close (← env.request act request).2
  | .ask question :: rest => do pure (.ask (← env.reason act question) ⟨rest, act.resumed⟩)
  | .call callee :: rest =>
      match ← env.invoke callee with
      | .completed value locals => pure (.on ⟨rest, { act with lastCall := some (.completed value locals) }⟩)
      | .suspended reason =>
          if reason.isTerminal then close (.suspended reason)
          else pure (.ask reason ⟨.call callee :: rest, act.resumed⟩)
  | .dispatch cases :: rest => do pure (.on ⟨.call (← env.startHandler cases) :: rest, act⟩)
  | .branch cond onTrue onFalse :: rest =>
      let cond ← env.eval act cond
      if ← Exec.ofValueOp (cond.asBool "condition") then pure (.on ⟨onTrue ++ rest, act⟩)
      else pure (.on ⟨onFalse ++ rest, act⟩)
  | .loop choices cond body :: rest =>
      -- a round of the loop, and then the loop again
      let round := body ++ [.loop choices cond body]
      pure (.on ⟨Outline.chooseAll choices ++ .branch cond round [] :: rest, act⟩)

/-- Enters the call again at the label of the frame on top of the stack. -/
def reenter : Exec σ Activation := do
  match (← Exec.actor).stack with
  | [] => env.trap .emptyStack
  | frame :: below =>
      match env.routine.landing? frame.label with
      | none => env.trap (.noLanding frame.label)
      | some position =>
          Exec.modifyActor fun actor => { actor with stack := below }
          pure ⟨frame.locals, frame.choices, position, none, none⟩

/-- Hands control back to the scheduler, which has the call go on unless it is over. -/
def handOver : Continuation → Exec σ (Turn Activation)
  | .completed value locals => close (.completed value locals)
  | .suspended reason => do
      if reason.isTerminal then close (.suspended reason) else pure (.ask reason (← env.reenter))

/-- Carries out the instruction at the position of a call. -/
def move (act : Activation) : Exec σ Flow := do
  match env.routine.body[act.position]? with
  | none => env.trap .pastEnd
  | some instr => env.step { act with position := act.position + 1 } instr

/-- One step through flat code. The instruction that saves the frame and the one that leaves the call
make one step: in between the scheduler has no control yet. -/
def stride (act : Activation) : Exec σ (Turn Activation) := do
  match ← env.move act with
  | .leave result => env.handOver result
  | .next act =>
      if act.isLeaving then
        match ← env.move act with
        | .leave result => env.handOver result
        | .next act => pure (.on act)
      else pure (.on act)

theorem run_succ (steps : Nat) (act : Activation) :
    env.run (steps + 1) act = (do
      match ← env.move act with
      | .next act => env.run steps act
      | .leave result => pure result) := by
  funext state
  simp only [run, move]
  cases env.routine.body[act.position]? <;> rfl

end Env

/-- A question that was asked: its reason, the locals of the call and all else at that time. -/
structure Asked (σ : Type) where
  reason : YieldReason
  locals : List Value
  state : Running σ

/-- A call with the questions that it has asked so far, the last one first. -/
structure Conversation (σ X : Type) where
  here : X
  state : Running σ
  asked : List (Asked σ)
  /-- How the call ended, if it has. -/
  ending : Option (Except Stop Continuation)

namespace Conversation

variable {σ X : Type}

def start (here : X) (state : Running σ) : Conversation σ X := ⟨here, state, [], none⟩

/-- Carries out a step. The answer to a question may change everything outside the call. -/
def next (step : X → Exec σ (Turn X)) (act : X → Activation) (answers : Nat → Running σ → Running σ)
    (talk : Conversation σ X) : Conversation σ X :=
  match talk.ending with
  | some _ => talk
  | none =>
      match step talk.here talk.state with
      | .error stop state => { talk with state, ending := some (.error stop) }
      | .ok (.on here) state => { talk with here, state }
      | .ok (.ask reason here) state =>
          ⟨here, answers talk.asked.length state, ⟨reason, (act here).locals, state⟩ :: talk.asked, none⟩
      | .ok (.ended result) state => { talk with state, ending := some (.ok result) }

end Conversation

/-- What can be told of a conversation from outside. -/
structure Scene (σ : Type) where
  locals : List Value
  choices : List Bool
  state : Running σ
  asked : List (Asked σ)
  ending : Option (Except Stop Continuation)

def Conversation.scene {σ X : Type} (act : X → Activation) (talk : Conversation σ X) : Scene σ :=
  ⟨(act talk.here).locals, (act talk.here).choices, talk.state, talk.asked, talk.ending⟩

namespace Env

variable {σ : Type} (env : Env σ) (answers : Nat → Running σ → Running σ)

/-- The call after so many steps through its flat code, from the start. -/
def flatAfter (locals : List Value) (state : Running σ) (count : Nat) : Conversation σ Activation :=
  (Conversation.next env.stride id answers)^[count] (.start ⟨locals, [], 0, none, none⟩ state)

/-- The call after so many steps along an outline. -/
def courseAfter (outline : List Outline) (locals : List Value) (state : Running σ) (count : Nat) :
    Conversation σ Course :=
  (Conversation.next env.follow Course.act answers)^[count] (.start ⟨outline, ⟨locals, [], 0, none, none⟩⟩ state)

end Env

end Reentry
