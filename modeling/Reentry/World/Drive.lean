import Reentry.World.Basic

/-!
Running the actors of a world. Besides single executions there is a drive, which plays the scheduler for
one actor: it answers each yield and resumes the actor until it has nothing more to answer.
-/

namespace Reentry.World

variable (config : RunConfig Surroundings)

/-- Puts the frame of a new call on an actor's stack. -/
def startCall (number : Nat) (function : FunctionId) (args : List Value) : WorldOp Unit :=
  onActor number do
    let actor ← Exec.ofHeapOp (Actor.startCall config.image function args (← Exec.actor))
    Exec.modifyActor fun _ => actor

/-- Function of the frame at the top of an actor's stack. -/
def topFunction (number : Nat) : WorldOp FunctionId := do
  match (← onActor number Exec.actor).stack with
  | frame :: _ => pure frame.function
  | [] => throw .noFrame

def execute (number : Nat) (function : FunctionId) : WorldOp Continuation :=
  onActor number (config.execute function)

def executeTop (number : Nat) : WorldOp Continuation := do
  execute config number (← topFunction number)

/-- Starts a call and runs the frame at the top of the stack. -/
def invoke (number : Nat) (function : FunctionId) (args : List Value) : WorldOp Continuation := do
  startCall config number function args
  executeTop config number

def setChoice (number : Nat) (chosen : Bool) : WorldOp Unit :=
  onActor number (Exec.modifyActor fun actor =>
    { actor with resume := { actor.resume with nondet := some chosen } })

def setCreated (number : Nat) (created : MachineId) : WorldOp Unit :=
  onActor number (Exec.modifyActor fun actor =>
    { actor with resume := { actor.resume with created := some created } })

def clearStack (number : Nat) : WorldOp Unit :=
  onActor number (Exec.modifyActor fun actor => { actor with stack := [] })

/-- Answers what an execution handed back. Gives the choices that are left, or nothing if the actor is
not to be resumed: it has returned, waits for a message or a choice that is missing, or has given up its
frames. -/
def respond (number : Nat) (choices : List Bool) : Continuation → WorldOp (Option (List Bool))
  | .completed .. => pure none
  | .suspended .send => pure (some choices)
  | .suspended .nondet => do
      match choices with
      | [] => pure none
      | chosen :: rest =>
          setChoice number chosen
          pure (some rest)
  | .suspended (.new machine _) => do
      let created ← spawn config.image machine
      setCreated number ⟨.ofNat created⟩
      pure (some choices)
  | .suspended .receive => do
      if ← take number then pure (some choices) else pure none
  | .suspended .goto | .suspended .raise | .suspended .pop => do
      clearStack number
      pure none

/-- Executes and answers at most so many times; gives all that was handed back, in order. -/
def driveWithin (number : Nat) : Nat → List Bool → WorldOp (List Continuation)
  | 0, _ => pure []
  | rounds + 1, choices => do
      let continuation ← executeTop config number
      match ← respond config number choices continuation with
      | none => pure [continuation]
      | some choices => do pure (continuation :: (← driveWithin number rounds choices))

/-- How often a drive executes at most. -/
def driveLimit : Nat := 400

/-- Runs the frames of an actor with these choices. -/
def drive (number : Nat) (choices : List Bool) : WorldOp (List Continuation) :=
  driveWithin config number driveLimit choices

/-- Starts a call and drives it. -/
def run (number : Nat) (function : FunctionId) (args : List Value) (choices : List Bool) :
    WorldOp (List Continuation) := do
  startCall config number function args
  drive config number choices

def accepts (number : Nat) (event : Value) : WorldOp Bool := do
  pure ((← onActor number Exec.actor).accepts event)

def deliver (number : Nat) (message : Message) : WorldOp Unit :=
  onActor number (Exec.modifyActor (Actor.deliver message.event message.payload))

/-- Sets both answers that a resumed actor may read. -/
def setResume (number : Nat) (resume : ResumeInput) : WorldOp Unit :=
  onActor number (Exec.modifyActor ({ · with resume }))

def setGotoTarget (number : Nat) (target : Option StateId) : WorldOp Unit :=
  onActor number (Exec.modifyActor ({ · with gotoTarget := target }))

/-- Overwrites a field of an actor. -/
def setField (number field : Nat) (value : Value) : WorldOp Unit := do
  if field < (← onActor number Exec.actor).fields.length then
    onActor number (Exec.modifyActor fun actor => { actor with fields := actor.fields.set field value })
  else throw .noField

def pushFrame (number : Nat) (frame : Frame) : WorldOp Unit :=
  onActor number (Exec.modifyActor (·.push frame))

/-- Takes the top frame off an actor's stack. -/
def popFrame (number : Nat) : WorldOp (Option Frame) := do
  match (← onActor number Exec.actor).stack with
  | [] => pure none
  | frame :: below =>
      onActor number (Exec.modifyActor fun actor => { actor with stack := below })
      pure (some frame)

end Reentry.World
