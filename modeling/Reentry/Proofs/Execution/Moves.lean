import Reentry.Proofs.Execution.Monad
import Reentry.Proofs.Execution.Parts
import Reentry.Proofs.Structure.Course

/-!
What an instruction does to a state whatever its operands are: it changes the heap, changes the actor but not
its stack, lets the handler of effects act, starts a call, or runs one. A relation between earlier and later
states that holds across each of these holds across every instruction; where it fails half-way, there may be
another relation. Saving the own frame, running the callee on the stack, sending, overwriting the trigger and taking
an answer of the scheduler are left to the one who asks: the first two take the whole run of a call, and not everything
stays as it is when something is sent, another event is being handled or an answer is used up.
-/

namespace Reentry

variable {σ α β : Type}

namespace Exec

/-- The work leads from any state to a later one, and where it fails, to a lost one. -/
def Moves (later lost : Running σ → Running σ → Prop) (work : Exec σ α) : Prop :=
  ∀ state, Ends work state (fun _ after => later state after) fun _ after => lost state after

end Exec

/-- Relations between earlier states and later or lost ones that hold across several parts of a run if they hold
across each of them. -/
structure Exec.Trace (later lost : Running σ → Running σ → Prop) : Prop where
  refl : ∀ state, later state state
  trans : ∀ first second third, later first second → later second third → later first third
  loses : ∀ state, lost state state
  trails : ∀ first second third, later first second → lost second third → lost first third

/-- Relations between earlier states and later or lost ones that hold across everything of which an instruction
is made, unless it sends, overwrites the trigger or takes an answer. -/
structure Exec.Drift (env : Env σ) (later lost : Running σ → Running σ → Prop) : Prop extends Exec.Trace later lost where
  heap : ∀ state heap, later state { state with heap }
  actor : ∀ state actor, actor.stack = state.actor.stack → actor.trigger = state.actor.trigger → actor.resume = state.actor.resume →
    later state { state with actor }
  handles : ∀ state effect outside, effect.isEnqueue = false → env.handler state.heap effect state.outside = .ok outside →
    later state { state with outside }
  starts : ∀ state callee args started heap,
    (Actor.startCall env.image callee args state.actor).run state.heap = .ok (started, heap) →
      later state { state with heap, actor := started }
  calls : ∀ callee args, Exec.Moves later lost (env.callToEnd callee args)

namespace Exec.Trace

variable {later lost : Running σ → Running σ → Prop} (trace : Trace later lost)
include trace

theorem pure {value : α} : Moves later lost (Pure.pure value) := trace.refl

theorem fail {cause : RuntimeFailure} : Moves later lost (Exec.fail cause : Exec σ α) := trace.loses

theorem bind {work : Exec σ α} {rest : α → Exec σ β} (first : Moves later lost work) (next : ∀ value, Moves later lost (rest value)) :
    Moves later lost (work >>= rest) := by
  intro state
  refine (first state).bind fun value middle reached => ?_
  exact (next value middle).weaken (fun _ _ => trace.trans _ _ _ reached) fun _ _ => trace.trails _ _ _ reached

theorem get : Moves later lost (MonadState.get : Exec σ (Running σ)) := trace.refl

theorem readActor : Moves later lost (Exec.actor : Exec σ Actor) := trace.refl

end Exec.Trace

namespace Exec.Drift

variable {env : Env σ} {later lost : Running σ → Running σ → Prop} (drift : Drift env later lost)
include drift

theorem ofAlloc (work : Alloc α) : Moves later lost (Exec.ofAlloc work : Exec σ α) := fun state => drift.heap state _

theorem ofValueOp (work : ValueOp α) : Moves later lost (Exec.ofValueOp work : Exec σ α) := by
  intro state
  unfold Ends
  rw [ofValueOp_apply]
  cases work.run state.heap with
  | ok pair => exact drift.heap state pair.2
  | error cause => exact drift.loses state

theorem modifyActor {change : Actor → Actor} (same : ∀ actor, (change actor).stack = actor.stack ∧
      (change actor).trigger = actor.trigger ∧ (change actor).resume = actor.resume) :
    Moves later lost (Exec.modifyActor change : Exec σ Unit) :=
  fun state => drift.actor state _ (same state.actor).1 (same state.actor).2.1 (same state.actor).2.2

theorem perform {effect : Effect} (keeps : effect.isEnqueue = false) : Moves later lost (Exec.perform env.handler effect) := by
  intro state
  unfold Ends
  rw [perform_apply]
  cases handled : env.handler state.heap effect state.outside with
  | ok outside => exact drift.handles state effect outside keeps handled
  | error cause => exact drift.loses state

end Exec.Drift

namespace Env

open Exec

variable {env : Env σ} {later lost : Running σ → Running σ → Prop} {act : Activation}

theorem startCall_moves (drift : Drift env later lost) (callee : FunctionId) (args : List Value) :
    Moves later lost (env.startCall callee args) := by
  intro state
  have called : env.startCall callee args state
      = (Exec.ofHeapOp (Actor.startCall env.image callee args state.actor) >>= fun actor =>
        Exec.modifyActor fun _ => actor) state := rfl
  unfold Ends
  rw [called, Exec.bind_apply, Exec.ofHeapOp_apply]
  cases starts : (Actor.startCall env.image callee args state.actor).run state.heap with
  | error cause => exact drift.loses state
  | ok started => exact drift.starts state callee args _ _ starts

theorem position_moves (drift : Drift env later lost) (target : Target) : Moves later lost (env.position target) := by
  unfold position
  split
  · exact drift.pure
  · exact drift.fail

end Env

/-- The relations hold across the parts of instructions. -/
theorem Exec.Drift.composes {env : Env σ} {later lost : Running σ → Running σ → Prop} (drift : Drift env later lost) :
    Composes env fun _ => Moves later lost where
  pure _ := drift.pure
  bind := drift.bind
  fail _ := drift.fail
  get := drift.get
  alloc := drift.ofAlloc
  values := drift.ofValueOp
  actor _ := drift.modifyActor
  perform _ := drift.perform
  start := Env.startCall_moves drift
  call := drift.calls

namespace Env

open Exec

variable {env : Env σ} {later lost : Running σ → Running σ → Prop} {act : Activation}

theorem eval_moves (drift : Drift env later lost) (operand : Operand) : Moves later lost (env.eval act operand) :=
  eval_composes drift.composes operand

theorem evalArguments_moves (drift : Drift env later lost) (args : List Argument) :
    Moves later lost (env.evalArguments act args) := evalArguments_composes drift.composes args

section

variable (drift : Drift env later lost)
include drift

theorem enqueue_moves (target event payload : Operand)
    (sends : ∀ sender target event payload, Moves later lost (Exec.perform env.handler (.enqueue sender target event payload))) :
    Moves later lost (env.enqueue act target event payload) := enqueue_composes drift.composes target event payload sends

/-- Every instruction leads to a later state, if saving the frame, running the callee, sending, overwriting the trigger and
taking an answer do. -/
theorem step_moves {instr : Instr}
    (parks : ∀ resume callee, instr.parking? = some (resume, callee) → Moves later lost (env.saveFrame act resume callee))
    (invokes : ∀ callee, instr = .invoke callee → Moves later lost (env.invoke callee))
    (sends : ∀ target event payload, instr = .enqueue target event payload →
      Moves later lost (env.enqueue act target event payload))
    (triggers : .trigger ∈ instr.stored → ∀ value,
      Moves later lost (Exec.modifyActor fun actor => { actor with trigger := value } : Exec σ Unit))
    (answers : instr.takesAnswer → ∀ change : ResumeInput → ResumeInput,
      Moves later lost (Exec.modifyActor fun actor => { actor with resume := change actor.resume } : Exec σ Unit)) :
    Moves later lost (env.step act instr) :=
  step_composes drift.composes (fun target _ => position_moves drift target) parks invokes sends triggers answers

end

end Env

end Reentry

/-!
What lies outside the actor, over whole runs. Code changes it through the handler of effects only; so a relation
between earlier and later outsides that holds across each effect holds across each run, however it ends.
-/

namespace Reentry

open Exec

variable {σ : Type}

/-- How what lies outside may change. -/
structure Exec.Tends (handler : Handler σ) (related : σ → σ → Prop) : Prop where
  refl : ∀ outside, related outside outside
  trans : ∀ first second third, related first second → related second third → related first third
  handles : ∀ heap effect outside after, handler heap effect outside = .ok after → related outside after

namespace RunConfig

variable {config : RunConfig σ} {function : FunctionId}

/-- A call that is entered goes on at the start of its routine or at one of its labels, and nothing has happened
outside or to the event that is handled. -/
structure Enters (config : RunConfig σ) (function : FunctionId) (state : Running σ) (entered : Routine × Activation)
    (after : Running σ) : Prop where
  found : config.image.routine? function = some entered.1
  place : entered.2.position = 0 ∨ ∃ label, entered.1.landing? label = some entered.2.position
  idle : entered.2.pending = none
  outside : after.outside = state.outside
  trigger : after.actor.trigger = state.actor.trigger

theorem enter_enters (function : FunctionId) (state : Running σ) :
    Ends (config.enter function) state (config.Enters function state) fun _ after => after.outside = state.outside := by
  have read (state : Running σ) : actor state = .ok state.actor state := rfl
  unfold enter
  cases found : config.image.routine? function with
  | none => exact .after (read state) (.fail rfl)
  | some routine =>
      have popped : Ends (popFrame routine) state
          (fun _ after => after.outside = state.outside ∧ after.actor.trigger = state.actor.trigger)
          fun _ after => after.outside = state.outside := by
        refine .after (read state) ?_
        cases state.actor.stack with
        | nil => exact .fail rfl
        | cons frame below => exact ⟨rfl, rfl⟩
      refine popped.bind fun frame middle ⟨same, trigger⟩ => .after (read middle) ?_
      dsimp only
      split
      · exact .fail same
      · split
        · exact .fail same
        · split
          · exact .fail same
          · split
            · exact .fail same
            · split
              · exact .fail same
              · rename_i position entry
                refine .pure ⟨found, ?_, rfl, same, trigger⟩
                by_cases start : frame.label.isStart
                · rw [if_pos start] at entry
                  exact .inl (Option.some.inj entry).symm
                · rw [if_neg start] at entry
                  exact .inr ⟨frame.label, entry⟩

end RunConfig

/-- From the one state to the other the outside changes as it may. -/
abbrev Running.Outward (related : σ → σ → Prop) (before after : Running σ) : Prop := related before.outside after.outside

namespace Env

variable {env : Env σ} {related : σ → σ → Prop}

theorem startCall_outside (callee : FunctionId) (args : List Value) (state : Running σ) :
    Ends (env.startCall callee args) state (fun _ after => after.outside = state.outside)
      fun _ after => after.outside = state.outside := by
  have called : env.startCall callee args state
      = (ofHeapOp (Actor.startCall env.image callee args state.actor) >>= fun actor =>
        modifyActor fun _ => actor) state := rfl
  unfold Ends
  rw [called, bind_apply, ofHeapOp_apply]
  cases (Actor.startCall env.image callee args state.actor).run state.heap <;> rfl

section

variable (tends : Tends env.handler related)
  (invokes : ∀ callee, Moves (Running.Outward related) (Running.Outward related) (env.invoke callee))
include tends invokes

theorem outward : Drift env (Running.Outward related) (Running.Outward related) where
  refl _ := tends.refl _
  trans _ _ _ := tends.trans _ _ _
  loses _ := tends.refl _
  trails _ _ _ := tends.trans _ _ _
  heap _ _ := tends.refl _
  actor _ _ _ _ _ := tends.refl _
  handles _ _ _ _ := tends.handles _ _ _ _
  starts _ _ _ _ _ _ := tends.refl _
  calls callee args state := by
    have still {before after : Running σ} (same : after.outside = before.outside) : Running.Outward related before after := by
      unfold Running.Outward
      rw [same]
      exact tends.refl _
    refine ((startCall_outside callee args state).weaken (fun _ _ => id) fun _ _ => still).bind fun _ middle same => ?_
    have rises (after : Running σ) (later : Running.Outward related middle after) : Running.Outward related state after :=
      tends.trans _ _ _ (still same) later
    refine ((invokes callee middle).weaken (fun _ => rises) fun _ => rises).bind fun result after risen => ?_
    cases result <;> exact risen

theorem run_outward (steps : Nat) (act : Activation) : Moves (Running.Outward related) (Running.Outward related) (env.run steps act) := by
  have drift := outward tends invokes
  have performs (effect : Effect) : Moves (Running.Outward related) (Running.Outward related) (perform env.handler effect) := by
    intro state
    unfold Ends
    rw [perform_apply]
    cases handled : env.handler state.heap effect state.outside with
    | ok outside => exact tends.handles _ _ _ _ handled
    | error cause => exact tends.refl _
  induction steps generalizing act with
  | zero => exact fun state => tends.refl state.outside
  | succ steps ih =>
      rw [run_succ]
      refine drift.bind ?_ fun flow => ?_
      · unfold move
        split
        · exact drift.fail
        · exact step_moves drift (fun _ _ _ state => tends.refl state.outside) (fun callee _ => invokes callee)
            (fun target event payload _ => enqueue_moves drift target event payload fun _ _ _ _ => performs _)
            (fun _ _ state => tends.refl state.outside) fun _ _ state => tends.refl state.outside
      · cases flow with
        | next after => exact ih after
        | leave result => exact drift.pure

end

end Env

namespace RunConfig

variable {config : RunConfig σ} {related : σ → σ → Prop}

/-- Over a whole run the outside changes as it may. -/
theorem executeWithin_outward (tends : Tends config.handler related) (levels : Nat) (function : FunctionId) :
    Moves (Running.Outward related) (Running.Outward related) (config.executeWithin levels function) := by
  induction levels generalizing function with
  | zero => exact fun state => tends.refl state.outside
  | succ levels ih =>
      intro state
      have still {after : Running σ} (same : after.outside = state.outside) : Running.Outward related state after := by
        unfold Running.Outward
        rw [same]
        exact tends.refl _
      refine ((enter_enters function state).weaken (fun _ _ => id) fun _ _ => still).bind fun entered before enters => ?_
      have reached := still enters.outside
      have read : (get : Exec σ (Running σ)) before = .ok before before := rfl
      refine .after read ?_
      split
      · exact reached
      · let env : Env σ := ⟨config.image, entered.1, config.handler, config.executeWithin levels⟩
        have runs := env.run_outward tends ih config.steps entered.2 { before with depth := before.depth + 1 }
        exact .counted runs (fun _ _ => tends.trans _ _ _ reached) fun _ _ => tends.trans _ _ _ reached

end RunConfig

end Reentry
