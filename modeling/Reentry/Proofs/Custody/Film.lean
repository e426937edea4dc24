import Reentry.Proofs.Custody.Aim
import Reentry.Proofs.Execution.Views

/-!
Filmed runs. A film shows every moment at which a call is between two instructions, with the locals of all calls that
run, every change that an instruction makes to a cell, with the moment right before it, and every event that an
instruction makes the one that is handled. The film lies outside the actor, where neither the code nor the handler of
effects can see it: without the film such a run is the run itself.
-/

namespace Reentry

structure Moment (σ : Type) where
  heap : Heap
  actor : Actor
  outside : σ
  /-- Locals of the calls that run, those of the innermost call first. -/
  locals : List Value

structure Change (σ : Type) where
  before : Moment σ
  /-- The value that names the cell. -/
  container : Value
  /-- Whether parts behind the one that is changed may be changed, too. -/
  onward : Bool
  after : Heap

/-- Moments, changes and events, the first one first. -/
structure Film (σ : Type) where
  moments : List (Moment σ)
  changes : List (Change σ)
  raised : List Value

def Film.empty {σ : Type} : Film σ := ⟨[], [], []⟩

/-- What lies outside, and a film. -/
abbrev Filmed (σ : Type) := σ × Film σ

variable {σ α β : Type}

/-- The handler of effects does not touch the film. -/
def Handler.filmed (handler : Handler σ) : Handler (Filmed σ) := fun heap effect outside =>
  (handler heap effect outside.1).map (·, outside.2)

namespace Running

/-- The state with an empty film. -/
def filmed (state : Running σ) : Running (Filmed σ) := ⟨state.heap, state.actor, (state.outside, .empty), state.depth⟩

abbrev film (state : Running (Filmed σ)) : Film σ := state.outside.2

/-- What a film shows of the state, besides these locals. -/
def moment (locals : List Value) (state : Running (Filmed σ)) : Moment σ := ⟨state.heap, state.actor, state.outside.1, locals⟩

def withFilm (film : Film σ) (state : Running (Filmed σ)) : Running (Filmed σ) := { state with outside := (state.outside.1, film) }

end Running

namespace Exec

/-- Films the moment. -/
def shoot (locals : List Value) : Exec (Filmed σ) Unit :=
  modify fun state => state.withFilm { state.film with moments := state.film.moments ++ [state.moment locals] }

/-- Makes a change and films it. -/
def change (locals : List Value) (aimed : Aimed) : Exec (Filmed σ) Unit := do
  let before ← get
  Exec.ofValueOp aimed.write
  modify fun state => state.withFilm { state.film with
    changes := state.film.changes ++ [⟨before.moment locals, aimed.container, aimed.onward, state.heap⟩] }

/-- Makes a value the event that is handled, and films it. -/
def raise (event : Value) : Exec (Filmed σ) Unit := do
  Exec.modifyActor fun actor => { actor with trigger := event }
  modify fun state => state.withFilm { state.film with raised := state.film.raised ++ [event] }

end Exec

namespace Env

/-- Carries out an instruction, and films the change or the event if there is one. -/
def stepFilming (env : Env (Filmed σ)) (callers : List Value) (act : Activation) (instr : Instr) : Exec (Filmed σ) Flow :=
  match env.aim act instr with
  | some work => do
      let aimed ← work
      Exec.change (act.locals ++ callers) aimed
      pure (.next act)
  | none =>
      match instr.raised? with
      | some event => do
          Exec.raise (← env.eval act event)
          pure (.next act)
      | none => env.step act instr

/-- Runs a call until it leaves. The calls that it makes are run, and filmed, in surroundings that know its locals. -/
def runFilming (env : List Value → Env (Filmed σ)) (callers : List Value) : Nat → Activation → Exec (Filmed σ) Continuation
  | 0, _ => throw .outOfSteps
  | steps + 1, act => do
      let env' := env (act.locals ++ callers)
      Exec.shoot (act.locals ++ callers)
      match env'.routine.body[act.position]? with
      | none => env'.trap .pastEnd
      | some instr =>
          match ← env'.stepFilming callers { act with position := act.position + 1 } instr with
          | .next act => runFilming env callers steps act
          | .leave result => pure result

end Env

namespace RunConfig

/-- Runs a function and films it, with these locals of the calls that run already. -/
def executeFilmingWithin (config : RunConfig (Filmed σ)) : Nat → List Value → FunctionId → Exec (Filmed σ) Continuation
  | 0, _, _ => throw .outOfSteps
  | levels + 1, callers, function => do
      let (routine, act) ← config.enter function
      if config.depthLimit ≤ (← get).depth then Exec.fail (.callDepthExceeded config.depthLimit)
      else
        let env (locals : List Value) : Env (Filmed σ) := ⟨config.image, routine, config.handler, executeFilmingWithin config levels locals⟩
        Exec.counted (Env.runFilming env callers config.steps act)

variable (config : RunConfig σ)

def filmed : RunConfig (Filmed σ) := ⟨config.image, config.handler.filmed, config.depthLimit, config.steps⟩

/-- Runs a function on the frame at the top of the actor's stack, with an empty film at first. -/
def executeFilming (function : FunctionId) (state : Running σ) : EStateM.Result Stop (Running (Filmed σ)) Continuation :=
  config.filmed.executeFilmingWithin (config.depthLimit + 1) [] function state.filmed

end RunConfig

open Exec

theorem Exec.Views.shoot {filmed : Exec (Filmed σ) α} {plain : Exec σ α} {locals : List Value} (next : Views Prod.fst filmed plain) :
    Views Prod.fst (Exec.shoot locals >>= fun _ => filmed) plain := fun state => next (state.withFilm _)

/-- Filming a change does not change it. -/
theorem Exec.seen_change (locals : List Value) (aimed : Aimed) (rest : Unit → Exec (Filmed σ) α)
    (blind : ∀ film state, seen Prod.fst (rest () (Running.withFilm film state)) = seen Prod.fst (rest () state)) (state : Running (Filmed σ)) :
    seen Prod.fst ((Exec.change locals aimed >>= rest) state) = seen Prod.fst ((Exec.ofValueOp aimed.write >>= rest) state) := by
  have looked : (MonadState.get : Exec (Filmed σ) (Running (Filmed σ))) state = .ok state state := rfl
  rw [Exec.change, bind_assoc, bind_of_ok looked, bind_assoc, bind_apply, bind_apply, ofValueOp_apply]
  cases aimed.write.run state.heap with
  | error error => rfl
  | ok result => exact blind _ _

theorem RunConfig.filmed_views (config : RunConfig σ) : config.filmed.Views Prod.fst config where
  image := rfl
  handler heap effect outside := by
    change ((config.handler heap effect outside.1).map _).map _ = _
    cases config.handler heap effect outside.1 <;> rfl
  depthLimit := rfl
  steps := rfl

namespace Env

theorem stepFilming_views {env : Env (Filmed σ)} {plain : Env σ} (views : env.Views Prod.fst plain) (callers : List Value)
    (act : Activation) (instr : Instr) : Exec.Views Prod.fst (env.stepFilming callers act instr) (plain.step act instr) := by
  intro state
  rw [← step_views views instr state, stepFilming]
  cases aimed : env.aim act instr with
  | none =>
      cases raises : instr.raised? with
      | none => rfl
      | some event =>
          dsimp only
          rw [step_raised raises, bind_apply, bind_apply]
          cases env.eval act event state <;> rfl
  | some work =>
      dsimp only
      rw [step_aim aimed, bind_apply, bind_apply]
      cases work state with
      | error stop after => rfl
      | ok aimed after => exact Exec.seen_change _ aimed _ (fun _ _ => rfl) after

theorem runFilming_views {env : List Value → Env (Filmed σ)} {plain : Env σ} (views : ∀ locals, (env locals).Views Prod.fst plain)
    (callers : List Value) (steps : Nat) (act : Activation) : Exec.Views Prod.fst (runFilming env callers steps act) (plain.run steps act) := by
  induction steps generalizing act with
  | zero => exact .throw
  | succ steps ih =>
      refine .shoot ?_
      have same := (views (act.locals ++ callers)).routine
      rw [run, same]
      cases plain.routine.body[act.position]? with
      | none => exact trap_views (views _)
      | some instr =>
          refine .bind (stepFilming_views (views _) callers _ instr) fun flow => ?_
          cases flow with
          | next after => exact ih after
          | leave result => exact .pure

end Env

namespace RunConfig

theorem executeFilmingWithin_views (config : RunConfig σ) (levels : Nat) (callers : List Value) (function : FunctionId) :
    Exec.Views Prod.fst (config.filmed.executeFilmingWithin levels callers function) (config.executeWithin levels function) := by
  induction levels generalizing callers function with
  | zero => exact .throw
  | succ levels ih =>
      refine .bind (enter_views config.filmed_views function) fun entered => .get fun state => ?_
      have same : config.filmed.depthLimit = config.depthLimit := rfl
      have depth : (state.through Prod.fst).depth = state.depth := rfl
      rw [same, depth]
      split
      · exact .fail
      · exact .counted (Env.runFilming_views (fun locals => ⟨rfl, rfl, config.filmed_views.handler, ih locals⟩) callers _ _)

/-- Filming a run does not change it. -/
theorem executeFilming_seen (config : RunConfig σ) (function : FunctionId) (state : Running σ) :
    seen Prod.fst (config.executeFilming function state) = config.execute function state :=
  executeFilmingWithin_views config (config.depthLimit + 1) [] function state.filmed

end RunConfig

end Reentry
