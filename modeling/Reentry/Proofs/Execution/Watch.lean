import Reentry.Proofs.Structure.Control
import Reentry.Proofs.Structure.Course

/-!
Runs under observation. An observer is told of each instruction of a body before it is carried out. Some
instructions are carried out again only because a call was suspended: a caller that comes back to the
callee it waits for passes the label and the invocation in front of that callee once more, and each time
the callee waits, the caller looks at what it handed back. The observer is not told of these.
-/

namespace Reentry

/-- How a record outside changes with the instruction at a position of a function. -/
abbrev Observer (σ : Type) := FunctionId → Nat → σ → σ

namespace Env

variable {σ : Type} (env : Env σ)

/-- Whether nothing happens at the position of the call. -/
def isIdle (act : Activation) : Bool := env.routine.body[act.position]?.any Instr.isPosition

/-- Whether the call is about to find that its callee has been suspended. -/
def handsOn (act : Activation) : Bool :=
  match env.routine.body[act.position]?, act.lastCall with
  | some (.propagateSuspension _ _), some (.suspended _) => true
  | _, _ => false

/-- Tells the observer of the next instruction, unless it is carried out again. -/
def look (note : Observer σ) (again : Bool) (act : Activation) : Exec σ Unit :=
  if again || env.handsOn act then pure ()
  else modify fun state => { state with outside := note env.routine.shape.function act.position state.outside }

/-- Runs a call until it leaves. At first it may be on its way back to its callee. -/
def watch (note : Observer σ) : Nat → Bool → Activation → Exec σ Continuation
  | 0, _, _ => throw .outOfSteps
  | steps + 1, again, act => do
      env.look note again act
      match ← env.move act with
      | .next after => watch note steps (again && env.isIdle act) after
      | .leave result => pure result

end Env

/-- Whether the frame on top of the stack belongs to a caller that waits for its callee. -/
def Running.comesBack {σ : Type} (state : Running σ) : Bool :=
  state.actor.stack.head?.any (·.pendingCall.isSome)

namespace RunConfig

variable {σ : Type} (config : RunConfig σ) (note : Observer σ)

/-- Runs a function under observation. -/
def watchWithin : Nat → FunctionId → Exec σ Continuation
  | 0, _ => throw .outOfSteps
  | levels + 1, function => do
      let again := (← get).comesBack
      let (routine, act) ← config.enter function
      if config.depthLimit ≤ (← get).depth then Exec.fail (.callDepthExceeded config.depthLimit)
      else
        let env : Env σ := ⟨config.image, routine, config.handler, watchWithin levels⟩
        Exec.counted (env.watch note config.steps again act)

end RunConfig

namespace Env

variable {σ : Type} (env : Env σ)

/-- An observer that records nothing does not change a run. -/
theorem watch_nothing (steps : Nat) (again : Bool) (act : Activation) :
    env.watch (fun _ _ outside => outside) steps again act = env.run steps act := by
  induction steps generalizing again act with
  | zero => rfl
  | succ steps ih =>
      have looked : env.look (fun _ _ outside => outside) again act = pure () := by
        unfold look
        cases again || env.handsOn act <;> rfl
      simp only [watch, looked, pure_bind, run_succ]
      congr 1
      funext flow
      cases flow with
      | next after => exact ih _ after
      | leave result => rfl

end Env

theorem RunConfig.watchWithin_nothing {σ : Type} (config : RunConfig σ) (levels : Nat) :
    config.watchWithin (fun _ _ outside => outside) levels = config.executeWithin levels := by
  induction levels with
  | zero => rfl
  | succ levels ih =>
      funext function
      simp only [watchWithin, executeWithin, ih, Env.watch_nothing]
      rfl

end Reentry
