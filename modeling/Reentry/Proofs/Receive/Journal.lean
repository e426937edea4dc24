import Reentry.Proofs.Execution.Views

/-!
Runs that keep a journal of the handlers that receives choose and of the calls that begin. The journal lies
outside the actor, where neither the code nor the handler of effects can see it: without the journal such a
run is the run itself.
-/

namespace Reentry

/-- A call that goes on at the start of its function: its locals, and heap and actor at that time. -/
structure Start where
  function : FunctionId
  locals : List Value
  heap : Heap
  actor : Actor

inductive Note where
  /-- A receive of the function, with these arms, has chosen the handler for the event that arrived and
  pushed its frame. -/
  | dispatch (function : FunctionId) (arms : List ReceiveArm)
  | start (entry : Start)

/-- What lies outside, and a journal, its first note first. -/
abbrev Noted (σ : Type) := σ × List Note

variable {σ α β : Type}

/-- The handler of effects does not touch the journal. -/
def Handler.noted (handler : Handler σ) : Handler (Noted σ) := fun heap effect outside =>
  (handler heap effect outside.1).map (·, outside.2)

namespace Running

/-- The state with an empty journal. -/
def noted (state : Running σ) : Running (Noted σ) := ⟨state.heap, state.actor, (state.outside, []), state.depth⟩

abbrev journal (state : Running (Noted σ)) : List Note := state.outside.2

/-- The state without its journal. -/
def forget (state : Running (Noted σ)) : Running σ := ⟨state.heap, state.actor, state.outside.1, state.depth⟩

end Running

/-- Carries out the work of a receive, and notes it if it succeeds. -/
def Exec.noting (function : FunctionId) (arms : List ReceiveArm) (work : Exec (Noted σ) α) : Exec (Noted σ) α := fun state =>
  match work state with
  | .ok result after => .ok result { after with outside := (after.outside.1, after.journal ++ [.dispatch function arms]) }
  | .error stop after => .error stop after

/-- The state with a note that a call of the function begins, if it does. -/
def Running.noteStart (begins : Bool) (function : FunctionId) (act : Activation) (state : Running (Noted σ)) :
    Running (Noted σ) :=
  if begins then
    let entry : Start := ⟨function, act.locals, state.heap, state.actor⟩
    { state with outside := (state.outside.1, state.journal ++ [.start entry]) }
  else state

namespace Env

variable (env : Env (Noted σ))

/-- Carries out the instruction at the position of a call; if it chooses a handler, it is noted. -/
def moveNoting (act : Activation) : Exec (Noted σ) Flow :=
  match env.routine.body[act.position]? with
  | some (.dispatchReceive arms) => Exec.noting env.routine.shape.function arms (env.move act)
  | _ => env.move act

/-- Runs a call until it leaves. -/
def runNoting : Nat → Activation → Exec (Noted σ) Continuation
  | 0, _ => throw .outOfSteps
  | steps + 1, act => do
      match ← env.moveNoting act with
      | .next after => runNoting steps after
      | .leave result => pure result

end Env

namespace RunConfig

/-- Runs a function and keeps a journal. -/
def executeNotingWithin (config : RunConfig (Noted σ)) : Nat → FunctionId → Exec (Noted σ) Continuation
  | 0, _ => throw .outOfSteps
  | levels + 1, function => do
      let before ← get
      let (routine, act) ← config.enter function
      if config.depthLimit ≤ (← get).depth then Exec.fail (.callDepthExceeded config.depthLimit)
      else
        let env : Env (Noted σ) := ⟨config.image, routine, config.handler, executeNotingWithin config levels⟩
        modify (Running.noteStart (before.actor.stack.head?.any (·.label.isStart)) function act)
        Exec.counted (env.runNoting config.steps act)

variable (config : RunConfig σ)

def noted : RunConfig (Noted σ) := ⟨config.image, config.handler.noted, config.depthLimit, config.steps⟩

/-- Runs a function on the frame at the top of the actor's stack, with an empty journal at first. -/
def executeNoting (function : FunctionId) (state : Running σ) : EStateM.Result Stop (Running (Noted σ)) Continuation :=
  config.noted.executeNotingWithin (config.depthLimit + 1) function state.noted

end RunConfig

namespace Exec

/-- What comes of a run, without the journal. -/
def forgotten : EStateM.Result Stop (Running (Noted σ)) α → EStateM.Result Stop (Running σ) α
  | .ok result state => .ok result state.forget
  | .error stop state => .error stop state.forget

namespace Views

variable {noted : Exec (Noted σ) α} {plain : Exec σ α}

theorem noting {function : FunctionId} {arms : List ReceiveArm} (first : Views Prod.fst noted plain) :
    Views Prod.fst (noting function arms noted) plain := by
  intro state
  unfold Exec.noting
  rw [← first state]
  cases noted state <;> rfl

theorem noteStart {begins : Bool} {function : FunctionId} {act : Activation} (next : Views Prod.fst noted plain) :
    Views Prod.fst (modify (Running.noteStart begins function act) >>= fun _ => noted) plain := by
  intro state
  cases begins <;> exact next _

end Views

end Exec

open Exec

theorem RunConfig.noted_views (config : RunConfig σ) : config.noted.Views Prod.fst config where
  image := rfl
  handler heap effect outside := by
    change ((config.handler heap effect outside.1).map _).map _ = _
    cases config.handler heap effect outside.1 <;> rfl
  depthLimit := rfl
  steps := rfl

namespace Env

variable {env : Env (Noted σ)} {plain : Env σ}

section

variable (views : env.Views Prod.fst plain)
include views

theorem moveNoting_views (act : Activation) : Exec.Views Prod.fst (env.moveNoting act) (plain.move act) := by
  unfold moveNoting
  split
  · exact .noting (move_views views act)
  · exact move_views views act

theorem runNoting_views (steps : Nat) (act : Activation) : Exec.Views Prod.fst (env.runNoting steps act) (plain.run steps act) := by
  induction steps generalizing act with
  | zero => exact .throw
  | succ steps ih =>
      rw [run_succ]
      refine .bind (moveNoting_views views act) fun flow => ?_
      cases flow with
      | next after => exact ih after
      | leave result => exact .pure

end

end Env

namespace RunConfig

theorem executeNotingWithin_views (config : RunConfig σ) (levels : Nat) (function : FunctionId) :
    Exec.Views Prod.fst (config.noted.executeNotingWithin levels function) (config.executeWithin levels function) := by
  induction levels generalizing function with
  | zero => exact .throw
  | succ levels ih =>
      refine .look fun before => .bind (enter_views config.noted_views function) fun entered => .get fun state => ?_
      have same : config.noted.depthLimit = config.depthLimit := rfl
      have depth : (state.through Prod.fst).depth = state.depth := rfl
      rw [same, depth]
      split
      · exact .fail
      · have surroundings : Env.Views Prod.fst
            ⟨config.image, entered.1, config.noted.handler, config.noted.executeNotingWithin levels⟩
            ⟨config.image, entered.1, config.handler, config.executeWithin levels⟩ :=
          ⟨rfl, rfl, config.noted_views.handler, ih⟩
        exact .noteStart (.counted (Env.runNoting_views surroundings _ _))

/-- Keeping a journal does not change a run. -/
theorem executeNoting_forgotten (config : RunConfig σ) (function : FunctionId) (state : Running σ) :
    forgotten (config.executeNoting function state) = config.execute function state := by
  refine Eq.trans ?_ (executeNotingWithin_views config (config.depthLimit + 1) function state.noted)
  unfold executeNoting
  cases config.noted.executeNotingWithin (config.depthLimit + 1) function state.noted <;> rfl

end RunConfig

end Reentry
