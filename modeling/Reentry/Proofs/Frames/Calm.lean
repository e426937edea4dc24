import Reentry.Execution.Step
import Reentry.Proofs.Execution.Monad

/-!
Runs that keep the rules about frames: if they fail, it is not because a rule about frames is broken, and
if they succeed, their result is as it should be. The handler of effects is no part of the code and may
fail in any way. Most of what an instruction does is calm, that is, it also leaves the saved frames as
they are.
-/

namespace Reentry

/-- Whether a trap says that a rule about frames or recorded choices is broken. -/
def Trap.breaksFrames : Trap → Bool
  | .unknownFunction _ | .emptyStack | .wrongFrame _ | .wrongSlotCount .. | .missingCallee _ | .noLanding _
  | .pastEnd | .missingTarget _ | .exitWithoutYield | .noInvocation | .noCompletedCall | .noReturnedSlot _
  | .choiceNotRecorded _ | .unknownHandler _ => true
  | _ => false

def RuntimeFailure.breaksFrames : RuntimeFailure → Bool
  | .internal _ trap => trap.breaksFrames
  | _ => false

def Stop.breaksFrames : Stop → Bool
  | .failed cause => cause.breaksFrames
  | .outOfSteps => false

/-- Whether the handler fails with this cause, in whatever surroundings. -/
def Handler.Raises {σ : Type} (handler : Handler σ) (cause : RuntimeFailure) : Prop :=
  ∃ heap effect outside, handler heap effect outside = .error cause

/-- No rule about frames is broken, unless it is the handler of effects that says so. -/
def Stop.Allowed {σ : Type} (handler : Handler σ) (stop : Stop) : Prop :=
  stop.breaksFrames = false ∨ ∃ cause, stop = .failed cause ∧ handler.Raises cause

/-- What is left of a state as it was: the saved frames, the machine type and the depth. -/
structure Running.Steady {σ : Type} (before after : Running σ) : Prop where
  stack : after.actor.stack = before.actor.stack
  machine : after.actor.machine = before.actor.machine
  depth : after.depth = before.depth

namespace Running.Steady

variable {σ : Type} {first second third : Running σ}

theorem refl (state : Running σ) : state.Steady state := ⟨rfl, rfl, rfl⟩

theorem trans (left : first.Steady second) (right : second.Steady third) : first.Steady third :=
  ⟨right.stack.trans left.stack, right.machine.trans left.machine, right.depth.trans left.depth⟩

end Running.Steady

namespace Exec

variable {σ α β : Type} {handler : Handler σ}

/-- The run ends well in such a state, or fails without breaking a rule about frames. -/
def Meets (handler : Handler σ) (work : Exec σ α) (state : Running σ) (post : α → Running σ → Prop) : Prop :=
  match work state with
  | .ok result after => post result after
  | .error stop _ => stop.Allowed handler

namespace Meets

variable {state : Running σ} {post : α → Running σ → Prop}

theorem ok {work : Exec σ α} {result : α} {after : Running σ} (meets : Meets handler work state post)
    (succeeds : work state = .ok result after) : post result after := by
  unfold Meets at meets
  rw [succeeds] at meets
  exact meets

theorem error {work : Exec σ α} {stop : Stop} {after : Running σ} (meets : Meets handler work state post)
    (fails : work state = .error stop after) : stop.Allowed handler := by
  unfold Meets at meets
  rw [fails] at meets
  exact meets

theorem pure {value : α} (holds : post value state) : Meets handler (pure value) state post := holds

theorem bind {later : β → Running σ → Prop} {work : Exec σ α} {rest : α → Exec σ β} (first : Meets handler work state post)
    (next : ∀ value after, post value after → Meets handler (rest value) after later) :
    Meets handler (work >>= rest) state later := by
  unfold Meets at first ⊢
  rw [bind_apply]
  cases done : work state with
  | ok value after =>
      rw [done] at first
      exact next value after first
  | error stop after =>
      rw [done] at first
      exact first

theorem after {later : β → Running σ → Prop} {work : Exec σ α} {rest : α → Exec σ β} {value : α} {middle : Running σ}
    (first : work state = .ok value middle) (next : Meets handler (rest value) middle later) :
    Meets handler (work >>= rest) state later := by
  unfold Meets at next ⊢
  rw [bind_of_ok first]
  exact next

theorem weaken {better : α → Running σ → Prop} {work : Exec σ α} (meets : Meets handler work state post)
    (imp : ∀ value after, post value after → better value after) : Meets handler work state better := by
  unfold Meets at meets ⊢
  cases done : work state with
  | ok value after =>
      rw [done] at meets
      exact imp value after meets
  | error stop after =>
      rw [done] at meets
      exact meets

theorem fail {cause : RuntimeFailure} (keeps : cause.breaksFrames = false) : Meets handler (fail cause) state post :=
  .inl keeps

theorem trap {name : String} {reason : Trap} (keeps : reason.breaksFrames = false) :
    Meets handler (trap name reason) state post := .inl keeps

theorem counted {better : α → Running σ → Prop} {call : Exec σ α}
    (meets : Meets handler call { state with depth := state.depth + 1 } post)
    (imp : ∀ result after, post result after → better result { after with depth := after.depth - 1 }) :
    Meets handler (counted call) state better := by
  unfold Meets Exec.counted at *
  cases done : call { state with depth := state.depth + 1 } with
  | ok result after =>
      rw [done] at meets
      exact imp result after meets
  | error stop after =>
      rw [done] at meets
      exact meets

end Meets

/-- Whatever the state, the run leaves the frames as they are, and its result is good. -/
def Calm (handler : Handler σ) (good : α → Prop) (work : Exec σ α) : Prop :=
  ∀ state, Meets handler work state fun result after => good result ∧ state.Steady after

namespace Calm

variable {good : α → Prop}

theorem pure {value : α} (holds : good value) : Calm handler good (Pure.pure value) :=
  fun state => ⟨holds, .refl state⟩

theorem bind {better : β → Prop} {work : Exec σ α} {rest : α → Exec σ β} (first : Calm handler good work)
    (next : ∀ value, good value → Calm handler better (rest value)) : Calm handler better (work >>= rest) :=
  fun state => (first state).bind fun value after holds => (next value holds.1 after).weaken fun _ _ holds' =>
    ⟨holds'.1, holds.2.trans holds'.2⟩

theorem map {better : β → Prop} {change : α → β} {work : Exec σ α} (calm : Calm handler good work)
    (imp : ∀ value, good value → better (change value)) : Calm handler better (change <$> work) :=
  bind calm fun value holds => pure (imp value holds)

theorem fail {cause : RuntimeFailure} (keeps : cause.breaksFrames = false) : Calm handler good (fail cause) :=
  fun _ => .fail keeps

theorem trap {name : String} {reason : Trap} (keeps : reason.breaksFrames = false) :
    Calm handler good (trap name reason) := fun _ => .trap keeps

theorem get : Calm handler (fun _ => True) get := fun state => ⟨trivial, .refl state⟩

theorem actor : Calm handler (fun _ => True) actor := fun state => ⟨trivial, .refl state⟩

theorem ofAlloc (work : Alloc α) : Calm handler (fun _ => True) (ofAlloc work) :=
  fun _ => ⟨trivial, rfl, rfl, rfl⟩

theorem ofValueOp (work : ValueOp α) : Calm handler (fun _ => True) (ofValueOp work) := by
  intro state
  have read : Meets handler MonadState.get state fun found after => found = state ∧ after = state := ⟨rfl, rfl⟩
  refine read.bind ?_
  rintro _ _ ⟨rfl, rfl⟩
  cases work.run _ with
  | ok pair => exact ⟨trivial, rfl, rfl, rfl⟩
  | error cause => exact .fail rfl

/-- A change of the actor that leaves frames and machine type alone. -/
theorem modifyActor {change : Actor → Actor} (stack : ∀ actor, (change actor).stack = actor.stack)
    (machine : ∀ actor, (change actor).machine = actor.machine) :
    Calm handler (fun _ => True) (modifyActor change) :=
  fun state => ⟨trivial, stack state.actor, machine state.actor, rfl⟩

theorem perform {effect : Effect} : Calm handler (fun _ => True) (perform handler effect) := by
  intro state
  have read : Meets handler MonadState.get state fun found after => found = state ∧ after = state := ⟨rfl, rfl⟩
  refine read.bind ?_
  rintro _ _ ⟨rfl, rfl⟩
  cases handled : handler _ effect _ with
  | ok outside => exact ⟨trivial, rfl, rfl, rfl⟩
  | error cause => exact .inr ⟨cause, rfl, _, _, _, handled⟩

end Calm

end Exec

end Reentry
