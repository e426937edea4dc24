import Reentry.Execution.Step

/-!
Running a function on the frame at the top of an actor's stack. Two numbers bound a run: how many calls
may be active at once, which the program can notice, and how many instructions one call may take between
being entered and left, which only makes the run stop.
-/

namespace Reentry

/-- What stays the same during a run. -/
structure RunConfig (σ : Type) where
  image : Image
  handler : Handler σ
  /-- How many calls may be active at once. -/
  depthLimit : Nat
  /-- How many instructions a call may take before it leaves. -/
  steps : Nat

namespace Env

variable {σ : Type}

/-- Runs a call until it leaves. -/
def run (env : Env σ) : Nat → Activation → Exec σ Continuation
  | 0, _ => throw .outOfSteps
  | steps + 1, act => do
      match env.routine.body[act.position]? with
      | none => env.trap .pastEnd
      | some instr =>
          match ← env.step { act with position := act.position + 1 } instr with
          | .next act => env.run steps act
          | .leave result => pure result

end Env

namespace RunConfig

variable {σ : Type} (config : RunConfig σ)

/-- Takes the top frame off the stack. -/
def popFrame (routine : Routine) : Exec σ Frame := do
  match (← Exec.actor).stack with
  | [] => Exec.trap routine.name .emptyStack
  | frame :: below =>
      Exec.modifyActor fun actor => { actor with stack := below }
      pure frame

/-- Whether the callee of a frame that waits for one is the function of the frame below. -/
def calleeBelow (frame : Frame) (below : List Frame) : Bool :=
  match frame.pendingCall with
  | none => true
  | some callee => (below.head?.map (·.function)) == some callee

/-- Takes the top frame, checks that it belongs to the function, and finds where the call is entered. -/
def enter (function : FunctionId) : Exec σ (Routine × Activation) := do
  match config.image.routine? function with
  | none => Exec.trap (← Exec.actor).name (.unknownFunction function)
  | some routine =>
      let frame ← popFrame routine
      let actor ← Exec.actor
      if frame.function ≠ function then
        Exec.trap routine.name (.wrongFrame frame.function)
      else if let some owner := routine.owner.filter (· ≠ actor.machine) then
        Exec.trap routine.name (.wrongOwner owner actor.name)
      else if frame.locals.length ≠ routine.shape.slotCount then
        Exec.trap routine.name (.wrongSlotCount frame.locals.length routine.shape.slotCount)
      else if let some callee := frame.pendingCall.filter fun _ => !calleeBelow frame actor.stack then
        Exec.trap routine.name (.missingCallee callee)
      else
        let entry := if frame.label.isStart then some 0 else routine.landing? frame.label
        match entry with
        | none => Exec.trap routine.name (.noLanding frame.label)
        | some position => pure (routine, ⟨frame.locals, frame.choices, position, none, none⟩)

/-- Runs a function in which calls may be nested at most so many levels deep, itself included. -/
def executeWithin : Nat → FunctionId → Exec σ Continuation
  | 0, _ => throw .outOfSteps
  | levels + 1, function => do
      let (routine, act) ← config.enter function
      if config.depthLimit ≤ (← get).depth then Exec.fail (.callDepthExceeded config.depthLimit)
      else
        let env : Env σ := ⟨config.image, routine, config.handler, executeWithin levels⟩
        Exec.counted (env.run config.steps act)

/-- Runs a function on the frame at the top of the actor's stack, until it returns or gives up control.
The call that exceeds the depth limit is the deepest one that is tried. -/
def execute (function : FunctionId) : Exec σ Continuation :=
  config.executeWithin (config.depthLimit + 1) function

end RunConfig

end Reentry
