import Reentry.Proofs.Execution.Monad
import Reentry.Proofs.Execution.Watch
import Reentry.Proofs.Frames.Active

/-!
Running sound code on saved frames. Entering a frame finds everything in order, each instruction keeps
it so, and a callee is run in the same way one level further down.
-/

namespace Reentry

open Exec

/-- Whether a trap says that a call cannot be entered. -/
def Trap.barsEntry : Trap → Bool
  | .unknownFunction _ | .emptyStack | .wrongFrame _ | .wrongOwner .. | .wrongSlotCount .. | .missingCallee _ | .noLanding _ => true
  | _ => false

namespace Env

variable {σ : Type} {env : Env σ}

theorem look_calm (note : Observer σ) (again : Bool) (act : Activation) :
    Calm env.handler (fun _ => True) (env.look note again act) := by
  unfold look
  by_cases silent : again || env.handsOn act
  · simp only [silent, if_true]
    exact .pure trivial
  · simp only [silent]
    exact fun _ => ⟨trivial, rfl, rfl, rfl⟩

/-- A call that leaves within its steps hands back what it should. -/
theorem watch_meets (trusted : env.Trusted) (own : env.image.routine? env.routine.shape.function = some env.routine)
    (note : Observer σ) {base : List Frame} (steps : Nat) (again : Bool) {act : Activation} {state : Running σ}
    (active : env.Active base act state.actor.stack) :
    Meets env.handler (env.watch note steps again act) state fun result after =>
      env.image.Handed env.routine.shape.function base result after.actor.stack ∧
        after.actor.machine = state.actor.machine ∧ after.depth = state.depth := by
  induction steps generalizing again act state with
  | zero => exact .inl rfl
  | succ steps ih =>
      refine (look_calm note again act state).bind fun _ before ⟨_, steady⟩ => ?_
      rw [← steady.stack] at active
      refine (move_leads trusted own active).bind ?_
      rintro (after | result) middle ⟨came, machine, depth⟩
      · refine (ih _ came).weaken fun _ final ⟨handed, machine', depth'⟩ => ?_
        exact ⟨handed, machine'.trans (machine.trans steady.machine), depth'.trans (depth.trans steady.depth)⟩
      · exact .pure ⟨came, machine.trans steady.machine, depth.trans steady.depth⟩

end Env

namespace RunConfig

variable {σ : Type} {config : RunConfig σ}

theorem popFrame_apply {routine : Routine} {frame : Frame} {below : List Frame} {state : Running σ}
    (above : state.actor.stack = frame :: below) :
    popFrame routine state = .ok frame { state with actor := { state.actor with stack := below } } := by
  have found : Exec.actor state = .ok state.actor state := rfl
  rw [popFrame, bind_of_ok found]
  simp only [above]
  rfl

/-- What entering a call finds on top of the stack. -/
structure Finds (config : RunConfig σ) (function : FunctionId) (state : Running σ) (frame : Frame)
    (below : List Frame) (position : Nat) (entered : Routine × Activation) (after : Running σ) : Prop where
  above : state.actor.stack = frame :: below
  own : frame.function = function
  known : config.image.routine? frame.function = some entered.1
  entry : entered.1.entrance? frame.label = some position
  enters : entered.2 = ⟨frame.locals, frame.choices, position, none, none⟩
  left : after = { state with actor := { state.actor with stack := below } }

/-- A call is entered, or a rule about frames does not allow it; in either case nothing but a frame has been taken. -/
theorem enter_finds (function : FunctionId) (state : Running σ) : Ends (config.enter function) state
    (fun entered after => ∃ frame below position, config.Finds function state frame below position entered after)
    fun stop after => (∃ routine trap, stop = .failed (.internal routine trap) ∧ trap.barsEntry) ∧
      ∃ stack, after = { state with actor := { state.actor with stack } } := by
  have refused {reason : Trap} (bars : reason.barsEntry) (routine : String) (stack : List Frame) :
      Ends (Exec.trap routine reason : Exec σ (Routine × Activation)) { state with actor := { state.actor with stack } }
        (fun entered after => ∃ frame below position, config.Finds function state frame below position entered after)
        fun stop after => (∃ routine trap, stop = .failed (.internal routine trap) ∧ trap.barsEntry) ∧
          ∃ stack, after = { state with actor := { state.actor with stack } } :=
    ⟨⟨routine, reason, rfl, bars⟩, stack, rfl⟩
  cases found : config.image.routine? function with
  | none =>
      simp only [enter, found]
      exact refused rfl _ state.actor.stack
  | some routine =>
      simp only [enter, found]
      cases above : state.actor.stack with
      | nil =>
          have empty : popFrame routine state = .error (.failed (.internal routine.name .emptyStack)) state := by
            have read : Exec.actor state = .ok state.actor state := rfl
            rw [popFrame, bind_of_ok read]
            simp only [above]
            rfl
          unfold Ends
          rw [bind_of_error empty]
          exact refused rfl routine.name state.actor.stack
      | cons frame below =>
          have read : Exec.actor { state with actor := { state.actor with stack := below } }
              = .ok { state.actor with stack := below } { state with actor := { state.actor with stack := below } } := rfl
          refine .after (popFrame_apply above) (.after read ?_)
          split
          · exact refused rfl _ below
          next own =>
              have own : frame.function = function := not_not.mp own
              split
              · exact refused rfl _ below
              split
              · exact refused rfl _ below
              split
              · exact refused rfl _ below
              split
              · exact refused rfl _ below
              next position entry => exact ⟨frame, below, position, above, own, own ▸ found, entry, rfl, rfl⟩

/-- What entering a call gives: its routine and the call as it goes on, above the frames of others. -/
structure Entered (config : RunConfig σ) (function : FunctionId) (base : List Frame) (entered : Routine × Activation)
    (after : Running σ) : Prop where
  found : config.image.routine? function = some entered.1
  active : ∀ handler invoke, (⟨config.image, entered.1, handler, invoke⟩ : Env σ).Active base entered.2 after.actor.stack
  owned : entered.1.owner.filter (· ≠ after.actor.machine) = none
  pending : entered.2.pending = none
  lastCall : entered.2.lastCall = none

/-- Entering a frame that fits its routine. Only the machine may still be the wrong one. -/
theorem enter_apply {function : FunctionId} {routine : Routine} {frame : Frame} {below : List Frame} {position : Nat}
    {state : Running σ} (found : config.image.routine? function = some routine)
    (above : state.actor.stack = frame :: below) (own : frame.function = function)
    (slots : frame.locals.length = routine.shape.slotCount) (entry : routine.entrance? frame.label = some position)
    (callee : calleeBelow frame below) :
    config.enter function state = (match routine.owner.filter (· ≠ state.actor.machine) with
      | some owner => Exec.trap routine.name (.wrongOwner owner state.actor.name)
      | none => pure (routine, ⟨frame.locals, frame.choices, position, none, none⟩) : Exec σ _)
        { state with actor := { state.actor with stack := below } } := by
  have pending : frame.pendingCall.filter (fun _ => !calleeBelow frame below) = none := by
    simp [callee]
  have known : Exec.actor { state with actor := { state.actor with stack := below } }
      = .ok { state.actor with stack := below } { state with actor := { state.actor with stack := below } } := rfl
  have place : (if frame.label.isStart = true then some 0 else routine.landing? frame.label) = some position := entry
  simp only [enter, found]
  rw [bind_of_ok (popFrame_apply above), bind_of_ok known]
  simp only [own, ne_eq, not_true_eq_false, if_false, slots, pending, place]
  cases routine.owner.filter (· ≠ state.actor.machine) <;> rfl

/-- A frame that fits its routine is entered at its label, unless the machine is the wrong one. -/
theorem enter_frame {function : FunctionId} {routine : Routine} {frame : Frame} {below : List Frame} {position : Nat}
    {state : Running σ} (found : config.image.routine? function = some routine)
    (above : state.actor.stack = frame :: below) (own : frame.function = function)
    (slots : frame.locals.length = routine.shape.slotCount) (entry : routine.entrance? frame.label = some position)
    (callee : calleeBelow frame below) :
    Meets config.handler (config.enter function) state fun entered after =>
      entered = (routine, ⟨frame.locals, frame.choices, position, none, none⟩) ∧
        after = { state with actor := { state.actor with stack := below } } ∧
        routine.owner.filter (· ≠ state.actor.machine) = none := by
  unfold Meets
  rw [enter_apply found above own slots entry callee]
  cases routine.owner.filter (· ≠ state.actor.machine) with
  | some owner => exact .inl rfl
  | none => exact ⟨rfl, rfl, rfl⟩

/-- Entering the frames of a call that waits takes the one on top. Only the machine may still be the wrong one. -/
theorem enter_saved {function : FunctionId} {chain base : List Frame} {state : Running σ}
    (saved : config.image.Saved function chain) (above : state.actor.stack = chain ++ base) :
    ∃ (routine : Routine) (frame : Frame) (below : List Frame) (position : Nat), chain = frame :: below ∧
      config.enter function state = (match routine.owner.filter (· ≠ state.actor.machine) with
        | some owner => Exec.trap routine.name (.wrongOwner owner state.actor.name)
        | none => pure (routine, ⟨frame.locals, frame.choices, position, none, none⟩) : Exec σ _)
          { state with actor := { state.actor with stack := below ++ base } } := by
  cases saved with
  | @waits routine frame position waits =>
      obtain ⟨known, slots, entry, alone, _⟩ := waits
      exact ⟨routine, frame, [], position, rfl, enter_apply known above rfl slots entry (by simp [calleeBelow, alone])⟩
  | @calls routine frame callee place below calls inner =>
      obtain ⟨known, slots, pending, expects⟩ := calls
      obtain ⟨lower, rest, same, under⟩ := inner.head
      have entry : routine.entrance? frame.label = some place := Routine.entrance?_of_landing? expects.leads
      exact ⟨routine, frame, below, place, rfl,
        enter_apply known above rfl slots entry (by simp [calleeBelow, pending, same, under])⟩

/-- The frames of a call that waits can be entered, unless the machine is the wrong one. -/
theorem enter_meets {function : FunctionId} {chain base : List Frame} {state : Running σ}
    (saved : config.image.Saved function chain) (above : state.actor.stack = chain ++ base) :
    Meets config.handler (config.enter function) state fun entered after => config.Entered function base entered after ∧
      after.actor.machine = state.actor.machine ∧ after.depth = state.depth := by
  cases saved with
  | @waits routine frame position waits =>
      obtain ⟨known, slots, entry, alone, rank, recorded, outline, follows, sound, records⟩ := waits
      have callee : calleeBelow frame base := by simp [calleeBelow, alone]
      refine (enter_frame known above rfl slots entry callee).weaken ?_
      rintro _ _ ⟨rfl, rfl, owned⟩
      have noReturn (other : Activation) : other.Returned none := fun _ same => by cases same
      have active (handler : Handler σ) (invoke : FunctionId → Exec σ Continuation) :
          (⟨config.image, routine, handler, invoke⟩ : Env σ).Active base
            ⟨frame.locals, frame.choices, position, none, none⟩ base :=
        .going follows sound ⟨slots, records, rfl⟩ (noReturn _)
      exact ⟨⟨known, active, owned, rfl, rfl⟩, rfl, rfl⟩
  | @calls routine frame callee place below calls inner =>
      obtain ⟨known, slots, pending, expects⟩ := calls
      obtain ⟨_, leads, label, invoke, propagate, rank, recorded, count, outline, follows, sound, records, enough⟩ := expects
      obtain ⟨lower, rest, same, under⟩ := inner.head
      have callee : calleeBelow frame (below ++ base) := by simp [calleeBelow, pending, same, under]
      have entry : routine.entrance? frame.label = some place := Routine.entrance?_of_landing? leads
      refine (enter_frame known above rfl slots entry callee).weaken ?_
      rintro _ _ ⟨rfl, rfl, owned⟩
      have again : Follows routine 1 place (.call _ :: outline) := .pass label rfl (.invoke label invoke propagate follows)
      have active (handler : Handler σ) (invoke : FunctionId → Exec σ Continuation) :
          (⟨config.image, routine, handler, invoke⟩ : Env σ).Active base
            ⟨frame.locals, frame.choices, place, none, none⟩ (below ++ base) :=
        .calling again sound ⟨slots, records, rfl⟩ enough inner
      exact ⟨⟨known, active, owned, rfl, rfl⟩, rfl, rfl⟩

/-- A run on the frames of a call that waits hands back what it should. -/
theorem watchWithin_meets (sound : config.image.Sound) (note : Observer σ) (levels : Nat) {function : FunctionId}
    {chain base : List Frame} {state : Running σ} (saved : config.image.Saved function chain)
    (above : state.actor.stack = chain ++ base) :
    Meets config.handler (config.watchWithin note levels function) state fun result after =>
      config.image.Handed function base result after.actor.stack ∧
        after.actor.machine = state.actor.machine ∧ after.depth = state.depth := by
  induction levels generalizing function chain base state with
  | zero => exact .inl rfl
  | succ levels ih =>
      have looked : (get : Exec σ (Running σ)) state = .ok state state := rfl
      refine .after looked ((enter_meets saved above).bind ?_)
      rintro ⟨routine, act⟩ middle ⟨⟨found, active, _, _, _⟩, machine, depth⟩
      refine (Calm.get middle).bind fun before after ⟨_, steady⟩ => ?_
      by_cases tooDeep : config.depthLimit ≤ before.depth
      · simp only [tooDeep, if_true]
        exact .fail rfl
      · simp only [tooDeep, if_false]
        let env : Env σ := ⟨config.image, routine, config.handler, config.watchWithin note levels⟩
        have own : env.image.routine? env.routine.shape.function = some env.routine := by
          rw [(sound function routine found).own]
          exact found
        have trusted : env.Trusted := ⟨sound, fun _ _ _ _ saved above => ih saved above⟩
        have active : env.Active base act after.actor.stack := by
          rw [steady.stack]
          exact active config.handler (config.watchWithin note levels)
        refine .counted (env.watch_meets trusted own note config.steps _ active) ?_
        rintro result final ⟨handed, machine', depth'⟩
        rw [(sound function routine found).own] at handed
        refine ⟨handed, machine'.trans (steady.machine.trans machine), ?_⟩
        change final.depth - 1 = _
        rw [depth', ← depth, ← steady.depth]
        rfl

theorem execute_meets (sound : config.image.Sound) {function : FunctionId} {chain base : List Frame}
    {state : Running σ} (saved : config.image.Saved function chain) (above : state.actor.stack = chain ++ base) :
    Meets config.handler (config.execute function) state fun result after =>
      config.image.Handed function base result after.actor.stack ∧
        after.actor.machine = state.actor.machine ∧ after.depth = state.depth := by
  have watched := config.watchWithin_meets sound (fun _ _ outside => outside) (config.depthLimit + 1) saved above
  rwa [watchWithin_nothing] at watched

end RunConfig

end Reentry
