import Reentry.Proofs.Frames.Active
import Reentry.Proofs.Receive.Parked

/-!
A call between two of its instructions, and what its actor waits for. It goes on by itself and has
registered what its code says; or it comes to the dispatch of a receive; or the frames of a callee lie on
the stack and the code comes to its invocation; or the callee has handed something back; or the call is
about to leave. Only a dispatch starts a handler.
-/

namespace Reentry

open Exec

variable {σ : Type}

section

variable {image : Image} {receives : FunctionId → List ReceiveCase → Prop} {function : FunctionId} {routine : Routine}
  {args locals : List Value} {actor started : Actor} {heap after : Heap}

/-- The frame of a new call. -/
theorem Image.atStart_parks (sound : image.Sound) (listens : image.Listens receives)
    (found : image.routine? function = some routine)
    (made : (routine.shape.createLocals args).run heap = .ok (locals, after)) :
    image.Parks receives (.start (.atStart function locals)) [.atStart function locals] ∧
      image.Saved function [.atStart function locals] := by
  obtain ⟨_, _, ⟨rank, outline, follows, hears⟩, _⟩ := listens function routine found
  obtain ⟨own, slots, _, _, more, outline', follows', safe⟩ := sound function routine found
  rcases FrameShape.createLocals_run args heap slots with ⟨locals', _, made', _, filled⟩ | refused
  · cases made.symm.trans made'
    have waits : image.Waits routine (.atStart function locals) 0 :=
      ⟨found, filled, rfl, rfl, more, [], outline', follows', safe, by simp⟩
    exact ⟨.starts found rfl follows hears, .waits waits⟩
  · cases made.symm.trans refused

/-- A call that has been started goes on at the start of its function. -/
theorem Actor.startCall_parks (sound : image.Sound) (listens : image.Listens receives)
    (starts : (startCall image function args actor).run heap = .ok (started, after)) :
    ∃ frame, image.Parks receives (.start frame) [frame] ∧ image.Saved function [frame] ∧ started = actor.push frame := by
  obtain ⟨routine, locals, found, made, rfl⟩ := startCall_eq_ok starts
  obtain ⟨parks, saved⟩ := Image.atStart_parks sound listens found made
  exact ⟨_, parks, saved, rfl⟩

/-- If a call cannot be started, it is not because an event has no case. -/
theorem Actor.startCall_hits {cause : RuntimeFailure} (refused : (startCall image function args actor).run heap = .error cause) :
    cause.missesCase = false := by
  rcases startCall_eq_error refused with rfl | ⟨name, expected, rfl⟩ <;> rfl

end

/-- Surroundings of code that listens for the events of its receives. -/
structure Env.Minded (env : Env (Noted σ)) (receives : FunctionId → List ReceiveCase → Prop) : Prop where
  sound : env.image.Sound
  image : env.image.Listens receives
  raises : ∀ cause, env.handler.Raises cause → cause.missesCase = false
  keeps : ∀ heap effect outside after, env.handler heap effect outside = .ok after → after.2 = outside.2
  invokes : ∀ callee spot chain base state, env.image.Parks receives spot chain → state.actor.stack = chain ++ base →
    spot.Awaited state.actor.receiveSet → (spot.isTold → env.image.Saved callee chain) → (spot = .nowhere → base = []) →
      Ends (env.invoke callee) state (fun result after => env.image.Leaves receives base result after ∧
        spot.Notes env.image base state after) (spot.Fails env.image base state)

namespace Env

variable {env : Env (Noted σ)} {receives : FunctionId → List ReceiveCase → Prop}

theorem startCall_apply (callee : FunctionId) (args : List Value) (state : Running (Noted σ)) :
    env.startCall callee args state = match (Actor.startCall env.image callee args state.actor).run state.heap with
      | .ok (actor, heap) => .ok () { state with actor, heap }
      | .error cause => .error (.failed cause) state := by
  have called : env.startCall callee args state
      = (Exec.ofHeapOp (Actor.startCall env.image callee args state.actor) >>= fun actor =>
        Exec.modifyActor fun _ => actor) state := rfl
  rw [called, Exec.bind_apply, Exec.ofHeapOp_apply]
  cases (Actor.startCall env.image callee args state.actor).run state.heap <;> rfl

theorem startCall_ends (minded : env.Minded receives) (callee : FunctionId) (args : List Value)
    (state : Running (Noted σ)) : Ends (env.startCall callee args) state
      (fun _ after => (∃ frame, env.image.Parks receives (.start frame) [frame] ∧ env.image.Saved callee [frame] ∧
        after.actor = state.actor.push frame) ∧ state.Quiet after)
      fun stop after => stop.missesCase = false ∧ state.Quiet after := by
  unfold Ends
  rw [startCall_apply]
  cases starts : (Actor.startCall env.image callee args state.actor).run state.heap with
  | ok pair => exact ⟨Actor.startCall_parks minded.sound minded.image starts, .same rfl⟩
  | error cause => exact ⟨Actor.startCall_hits starts, .same rfl⟩

/-- A call in an expression has nothing to do with a receive. -/
theorem Minded.hushed (minded : env.Minded receives) : env.Hushed := by
  refine ⟨minded.raises, minded.keeps, fun callee args state deaf => ?_⟩
  refine (startCall_ends minded callee args state).bind fun _ started ⟨⟨frame, parks, saved, pushed⟩, quiet⟩ => ?_
  have above : started.actor.stack = [frame] ++ state.actor.stack := congrArg Actor.stack pushed
  have awaited : started.actor.receiveSet = [] := (congrArg Actor.receiveSet pushed).trans deaf
  have owes := @Spot.Owes.start _ env.image state.actor.stack _ _ frame quiet
  have invoked := minded.invokes callee (.start frame) [frame] state.actor.stack started parks above awaited (fun _ => saved) nofun
  refine (invoked.weaken (fun _ _ => id) owes.fails).bind fun result after ⟨leaves, notes⟩ => ?_
  have quiet : state.Quiet after := owes.notes after notes
  cases result with
  | completed value locals => exact ⟨trivial, leaves.1, leaves.2.trans deaf.symm, quiet⟩
  | suspended reason => exact ⟨rfl, quiet⟩

theorem handlerArguments_apply {handler : Routine} (payload : Value) (function : FunctionId) (state : Running (Noted σ)) :
    (if handler.shape.paramCount = 0 then env.startCall function []
      else do env.startCall function [← Exec.ofAlloc payload.deepCopy] : Exec (Noted σ) Unit) state
      = env.startCall function ((handler.shape.handlerArguments payload).run state.heap).1
        { state with heap := ((handler.shape.handlerArguments payload).run state.heap).2 } := by
  unfold FrameShape.handlerArguments
  by_cases none : handler.shape.paramCount = 0
  · simp only [none, if_true]
    rfl
  · simp only [none, if_false]
    rfl

/-- A receive that can answer the event pushes the frame of its handler; otherwise it may fail. -/
theorem startHandler_ends {cases : List ReceiveCase} (known : ∀ case ∈ cases, env.image.Knows case.handler)
    (state : Running (Noted σ)) : Ends (env.startHandler cases) state
      (fun handler after => ∃ locals, after.actor = { state.actor with receiveSet := [] }.push (.atStart handler locals) ∧
        env.image.Serves cases state.heap state.actor ⟨handler, locals, after.heap, { state.actor with receiveSet := [] }⟩ ∧
        after.journal = state.journal)
      fun _ after => after.journal = state.journal ∧ ¬ env.image.Answers cases state.actor.trigger := by
  have read : Exec.actor state = .ok state.actor state := rfl
  refine .after read ?_
  have unique := @Image.Answers.filter env.image cases state.actor.trigger
  have among (case : ReceiveCase) : case ∈ cases.filter (·.event.accepts state.actor.trigger) ↔
      case ∈ cases ∧ case.event.accepts state.actor.trigger := List.mem_filter
  generalize cases.filter (·.event.accepts state.actor.trigger) = picked at unique among ⊢
  rcases picked with _ | ⟨case, _ | ⟨other, more⟩⟩
  · exact ⟨rfl, fun answers => by obtain ⟨_, same⟩ := unique answers; cases same⟩
  · obtain ⟨member, accepts⟩ := (among case).mp (List.mem_singleton.mpr rfl)
    have only (other : ReceiveCase) (present : other ∈ cases) (accepts' : other.event.accepts state.actor.trigger) :
        other = case := List.mem_singleton.mp ((among other).mpr ⟨present, accepts'⟩)
    obtain ⟨handler, found⟩ := Option.isSome_iff_exists.mp (known case member)
    let args := (handler.shape.handlerArguments state.actor.payload).run state.heap
    have pushed : env.pushHandler case.handler state.actor.payload state
        = env.startCall case.handler args.1 { state with actor := { state.actor with receiveSet := [] }, heap := args.2 } := by
      unfold pushHandler
      rw [found]
      exact handlerArguments_apply state.actor.payload case.handler { state with actor := { state.actor with receiveSet := [] } }
    have pushing : Ends (env.pushHandler case.handler state.actor.payload) state
        (fun _ after => ∃ locals, after.actor = { state.actor with receiveSet := [] }.push (.atStart case.handler locals) ∧
          env.image.Serves cases state.heap state.actor ⟨case.handler, locals, after.heap, { state.actor with receiveSet := [] }⟩ ∧
          after.journal = state.journal)
        fun _ after => after.journal = state.journal ∧ ¬ env.image.Answers cases state.actor.trigger := by
      unfold Ends
      rw [pushed, startCall_apply, Actor.startCall_run found]
      cases made : (handler.shape.createLocals args.1).run args.2 with
      | ok pair => exact ⟨pair.1, rfl, ⟨⟨case, member, rfl, accepts, only⟩, rfl, handler, found, made⟩, rfl⟩
      | error cause =>
          refine ⟨rfl, fun answers => ?_⟩
          have few := answers.params case member handler found
          have fits : args.1.length = handler.shape.paramCount := by
            unfold args FrameShape.handlerArguments
            by_cases none : handler.shape.paramCount = 0
            · rw [if_pos none, none]
              rfl
            · rw [if_neg none]
              exact (show handler.shape.paramCount = 1 by omega).symm
          unfold FrameShape.createLocals at made
          simp only [fits, ne_eq, not_true_eq_false, if_false] at made
          cases made
    exact pushing.bind fun _ _ holds => holds
  · exact ⟨rfl, fun answers => by obtain ⟨_, same⟩ := unique answers; cases same⟩

end Env

namespace Env

/-- A call in progress above the frames that were there before it, and where it goes on. -/
inductive Attends (env : Env (Noted σ)) (receives : FunctionId → List ReceiveCase → Prop) (base : List Frame) :
    Spot → Activation → Running (Noted σ) → Prop
  | going {act state rank awaited ahead} (follows : Follows env.routine rank act.position ahead)
      (listens : Outline.Listens (receives env.routine.shape.function) awaited ahead)
      (registered : state.actor.receiveSet = awaited) (bare : state.actor.stack = base) : Attends env receives base .elsewhere act state
  | dispatching {act state rank cases ahead} (follows : Follows env.routine rank act.position (.dispatch cases :: ahead))
      (own : receives env.routine.shape.function cases) (awaits : Awaits cases state.actor.receiveSet)
      (listens : Outline.Listens (receives env.routine.shape.function) [] ahead) (bare : state.actor.stack = base) :
      Attends env receives base (.receive env.routine.shape.function cases) act state
  | calling {act state rank callee ahead chain spot} (follows : Follows env.routine rank act.position (.call callee :: ahead))
      (listens : Outline.Listens (receives env.routine.shape.function) [] ahead)
      (parks : env.image.Parks receives spot chain) (above : state.actor.stack = chain ++ base)
      (awaited : spot.Awaited state.actor.receiveSet) (saved : spot.isTold → env.image.Saved callee chain)
      (bottom : spot = .nowhere → base = []) : Attends env receives base spot act state
  | returning {act state rank callee landing place result ahead} (here : act.position = place + 2)
      (leads : env.routine.landing? landing = some place) (label : env.routine.body[place]? = some (.label landing))
      (invoke : env.routine.body[place + 1]? = some (.invoke callee))
      (propagate : env.routine.body[place + 2]? = some (.propagateSuspension callee landing))
      (follows : Follows env.routine rank (place + 3) ahead)
      (listens : Outline.Listens (receives env.routine.shape.function) [] ahead) (last : act.lastCall = some result)
      (left : env.image.Leaves receives base result state) : Attends env receives base .elsewhere act state
  | leaving {act state result} (here : env.routine.body[act.position]? = some .exit) (pending : act.pending = some result)
      (left : env.image.Leaves receives base result state) : Attends env receives base .elsewhere act state

section

variable (env : Env (Noted σ)) (receives : FunctionId → List ReceiveCase → Prop) (base : List Frame) (spot : Spot)
  (state : Running (Noted σ))

/-- Where an instruction leads, and what is still to be noted from there on. -/
def Arrives : Flow → Running (Noted σ) → Prop
  | .next act, after => ∃ other, env.Attends receives base other act after ∧ spot.Owes env.image base state other after
  | .leave result, after => env.image.Leaves receives base result after ∧ spot.Notes env.image base state after

/-- The instruction leads to a situation of a call, or fails as it may. -/
abbrev Heeds (work : Exec (Noted σ) Flow) : Prop :=
  Ends work state (env.Arrives receives base spot state) (spot.Fails env.image base state)

end

section

variable {env : Env (Noted σ)} {receives : FunctionId → List ReceiveCase → Prop} {base : List Frame} {spot : Spot}
  {state : Running (Noted σ)} {act : Activation} {rank : Nat} {ahead : List Outline}

theorem moveNoting_of_getElem? {instr : Instr} (here : env.routine.body[act.position]? = some instr)
    (other : ∀ arms, instr ≠ .dispatchReceive arms) :
    env.moveNoting act = env.step { act with position := act.position + 1 } instr := by
  unfold moveNoting
  rw [here]
  cases instr with
  | dispatchReceive arms => exact absurd rfl (other arms)
  | _ => exact move_of_getElem? here

/-- Labels, marks and jumps change nothing but the position. -/
theorem pass_heeds {instr : Instr} (here : env.routine.body[act.position]? = some instr) (idle : instr.isPosition)
    (next : env.Attends receives base spot { act with position := act.position + 1 } state) :
    env.Heeds receives base spot state (env.moveNoting act) := by
  have other (arms : List ReceiveArm) : instr ≠ .dispatchReceive arms := by
    rintro rfl
    cases idle
  rw [moveNoting_of_getElem? here other, step_position idle]
  exact ⟨spot, next, .refl⟩

theorem jump_heeds {target : Target} {place : Nat} (here : env.routine.body[act.position]? = some (.jump target))
    (leads : env.routine.position? target = some place)
    (next : env.Attends receives base spot { act with position := place } state) :
    env.Heeds receives base spot state (env.moveNoting act) := by
  rw [moveNoting_of_getElem? here nofun]
  simp only [step, position, leads]
  exact ⟨spot, next, .refl⟩

/-- Work that is mute, and what comes behind it. -/
theorem mute_heeds {α : Type} {good : α → Prop} {work : Exec (Noted σ) α} {rest : α → Exec (Noted σ) Flow} (mute : Mute good work)
    (deaf : state.actor.receiveSet = []) (next : ∀ value middle, work state = .ok value middle → good value →
      middle.actor.stack = state.actor.stack → middle.actor.receiveSet = [] →
        env.Heeds receives base .elsewhere middle (rest value)) :
    env.Heeds receives base .elsewhere state (work >>= rest) := by
  unfold Heeds Ends
  rw [bind_apply]
  cases done : work state with
  | error stop after => exact (mute state deaf).error done
  | ok value middle =>
      obtain ⟨holds, still⟩ := (mute state deaf).ok done
      have owes : Spot.Owes env.image base .elsewhere state .elsewhere middle := .quiet still.quiet
      refine (next value middle done holds still.stack (still.awaited.trans deaf)).weaken ?_ owes.fails
      intro flow after arrives
      cases flow with
      | leave result => exact ⟨arrives.1, owes.notes after arrives.2⟩
      | next act' =>
          obtain ⟨other, attends, owes'⟩ := arrives
          exact ⟨other, attends, fun last notes => owes.notes last (owes'.notes last notes),
            fun stop last fails => owes.fails stop last (owes'.fails stop last fails)⟩

theorem straight_heeds (minded : env.Minded receives) {instr : Instr} (here : env.routine.body[act.position]? = some instr)
    (straight : instr.isStraight) (deaf : instr.isReceiving = false) (noPush : instr.isPush = false)
    (next : Follows env.routine rank (act.position + 1) ahead)
    (listens : Outline.Listens (receives env.routine.shape.function) [] ahead) (silent : state.actor.receiveSet = [])
    (bare : state.actor.stack = base) : env.Heeds receives base .elsewhere state (env.moveNoting act) := by
  have other (arms : List ReceiveArm) : instr ≠ .dispatchReceive arms := by
    rintro rfl
    cases straight
  rw [moveNoting_of_getElem? here other, ← bind_pure (env.step _ instr)]
  refine mute_heeds (step_mute minded.hushed straight deaf noPush) silent fun flow middle stepped _ stack set => ?_
  obtain ⟨after, rfl⟩ := env.step_next straight stepped
  have same : after.position = act.position + 1 := by rw [← env.step_withData straight stepped]; rfl
  exact ⟨.elsewhere, .going (next.moved _ same.symm) listens set (stack.trans bare), .refl⟩

theorem register_heeds {event : CaseEvent} (here : env.routine.body[act.position]? = some (.registerReceive event))
    (next : Follows env.routine rank (act.position + 1) ahead)
    (listens : Outline.Listens (receives env.routine.shape.function) (event.addTo state.actor.receiveSet) ahead)
    (bare : state.actor.stack = base) : env.Heeds receives base .elsewhere state (env.moveNoting act) := by
  rw [moveNoting_of_getElem? here nofun]
  refine ⟨.elsewhere, .going next listens ?_ ?_, .quiet (.same rfl)⟩
  · dsimp only
    unfold CaseEvent.addTo
    split <;> rfl
  · dsimp only
    split <;> exact bare

theorem push_heeds (minded : env.Minded receives) {callee : FunctionId} {args : List Argument}
    (here : env.routine.body[act.position]? = some (.pushFrame callee args))
    (next : Follows env.routine rank (act.position + 1) (.call callee :: ahead))
    (listens : Outline.Listens (receives env.routine.shape.function) [] ahead) (silent : state.actor.receiveSet = [])
    (bare : state.actor.stack = base) : env.Heeds receives base .elsewhere state (env.moveNoting act) := by
  rw [moveNoting_of_getElem? here nofun]
  refine mute_heeds (evalArguments_mute minded.hushed args) silent fun values middle _ _ stack set => ?_
  refine (startCall_ends minded callee values middle).bind fun _ after ⟨⟨frame, parks, saved, pushed⟩, quiet⟩ => ?_
  have above : after.actor.stack = [frame] ++ base := by
    rw [pushed, ← bare, ← stack]
    rfl
  have awaited : after.actor.receiveSet = [] := (congrArg Actor.receiveSet pushed).trans set
  exact ⟨.start frame, .calling next listens parks above awaited (fun _ => saved) nofun, .start quiet⟩

theorem branch_heeds (minded : env.Minded receives) {cond : Operand} {target : Target} {place more : Nat}
    {onTrue onFalse : List Outline} (here : env.routine.body[act.position]? = some (.jumpUnless cond target))
    (leads : env.routine.position? target = some place)
    (whenTrue : Follows env.routine rank (act.position + 1) (onTrue ++ ahead))
    (whenFalse : Follows env.routine more place (onFalse ++ ahead))
    (listensTrue : Outline.Listens (receives env.routine.shape.function) [] (onTrue ++ ahead))
    (listensFalse : Outline.Listens (receives env.routine.shape.function) [] (onFalse ++ ahead))
    (silent : state.actor.receiveSet = []) (bare : state.actor.stack = base) :
    env.Heeds receives base .elsewhere state (env.moveNoting act) := by
  rw [moveNoting_of_getElem? here nofun]
  refine mute_heeds (eval_mute minded.hushed cond) silent fun value middle _ _ stack set => ?_
  refine mute_heeds (Mute.ofValueOp _) set fun holds final _ _ stack' set' => ?_
  have bare : final.actor.stack = base := stack'.trans (stack.trans bare)
  cases holds with
  | true => exact ⟨.elsewhere, .going whenTrue listensTrue set' bare, .refl⟩
  | false =>
      have jumped : env.position target final = .ok place final := by
        simp only [position, leads]
        rfl
      exact .after jumped ⟨.elsewhere, .going whenFalse listensFalse set' bare, .refl⟩

/-- At the end of a call nothing is waited for. -/
theorem finish_heeds (minded : env.Minded receives) {request : YieldRequest}
    (here : env.routine.body[act.position]? = some (.yield request))
    (behind : env.routine.body[act.position + 1]? = some .exit) (final : request.question? = none)
    (silent : state.actor.receiveSet = []) (bare : state.actor.stack = base) :
    env.Heeds receives base .elsewhere state (env.moveNoting act) := by
  rw [moveNoting_of_getElem? here nofun]
  cases request with
  | goto | raise | pop => exact ⟨.elsewhere, .leaving behind rfl ⟨.nowhere, [], .gone, bare, silent, rfl⟩, .refl⟩
  | ret => exact ⟨.elsewhere, .leaving behind rfl ⟨bare, silent⟩, .refl⟩
  | retValue value =>
      have unfolded : env.step { act with position := act.position + 1 } (.yield (.retValue value)) = (do
          let result ← env.eval { act with position := act.position + 1 } value
          pure (Flow.next ⟨[], act.choices, act.position + 1, act.lastCall, some (.completed (some result) act.locals)⟩)) := by
        simp only [step, request, bind_assoc, pure_bind]
      rw [unfolded]
      refine mute_heeds (eval_mute minded.hushed value) silent fun result middle _ _ stack set => ?_
      exact ⟨.elsewhere, .leaving behind rfl ⟨stack.trans bare, set⟩, .refl⟩
  | send _ | receive _ | new _ _ _ | nondet _ => cases final

theorem reason_mute (minded : env.Minded receives) {question : Question} (other : question ≠ .receive) :
    Mute (fun reason => reason.isTerminal = false ∧ reason ≠ .receive) (env.reason act question) := by
  cases question with
  | receive => exact absurd rfl other
  | send | nondet => exact .pure ⟨rfl, nofun⟩
  | new machine payload => exact .bind (eval_mute minded.hushed payload) fun _ _ => .pure ⟨rfl, nofun⟩

/-- At a question other than a receive nothing is waited for. -/
theorem ask_heeds (minded : env.Minded receives) (own : env.image.routine? env.routine.shape.function = some env.routine)
    {question : Question} {resume : LabelId} {place : Nat}
    (here : env.routine.body[act.position]? = some (.yield (question.request resume)))
    (behind : env.routine.body[act.position + 1]? = some .exit) (leads : env.routine.landing? resume = some place)
    (next : Follows env.routine rank place ahead) (other : question ≠ .receive)
    (listens : Outline.Listens (receives env.routine.shape.function) [] ahead) (silent : state.actor.receiveSet = [])
    (bare : state.actor.stack = base) : env.Heeds receives base .elsewhere state (env.moveNoting act) := by
  rw [moveNoting_of_getElem? here nofun, step, request_question, bind_assoc]
  refine mute_heeds (reason_mute minded other) silent fun reason middle _ waits stack set => ?_
  let frame : Frame := ⟨env.routine.shape.function, act.locals, resume, none, act.choices⟩
  have parks : env.image.Parks receives .elsewhere [frame] := .rests own (Routine.entrance?_of_landing? leads) next listens
  have above : (middle.push frame).actor.stack = [frame] ++ base := congrArg (frame :: ·) (stack.trans bare)
  exact ⟨.elsewhere, .leaving behind rfl ⟨.elsewhere, [frame], parks, above, set, waits⟩, .quiet (.same rfl)⟩

/-- The frame that a receive saves is parked at the receive, for whose events the actor waits. -/
theorem receive_heeds (own : env.image.routine? env.routine.shape.function = some env.routine) {resume : LabelId} {place : Nat}
    {cases : List ReceiveCase} (here : env.routine.body[act.position]? = some (.yield (Question.receive.request resume)))
    (behind : env.routine.body[act.position + 1]? = some .exit) (leads : env.routine.landing? resume = some place)
    (next : Follows env.routine rank place (.dispatch cases :: ahead)) (ours : receives env.routine.shape.function cases)
    (awaits : Awaits cases state.actor.receiveSet) (listens : Outline.Listens (receives env.routine.shape.function) [] ahead)
    (bare : state.actor.stack = base) : env.Heeds receives base .elsewhere state (env.moveNoting act) := by
  rw [moveNoting_of_getElem? here nofun]
  let frame : Frame := ⟨env.routine.shape.function, act.locals, resume, none, act.choices⟩
  have parks : env.image.Parks receives (.receive frame.function cases) [frame] := .waits own leads next ours listens
  have above : (state.push frame).actor.stack = [frame] ++ base := congrArg (frame :: ·) bare
  exact ⟨.elsewhere, .leaving behind rfl ⟨.receive _ cases, [frame], parks, above, awaits, rfl⟩, .quiet (.same rfl)⟩

/-- A dispatch starts the handler of the one case that accepts the event. -/
theorem dispatch_heeds (minded : env.Minded receives) (own : env.image.routine? env.routine.shape.function = some env.routine)
    {arms : List ReceiveArm} (here : env.routine.body[act.position]? = some (.dispatchReceive arms))
    (next : ∀ arm ∈ arms, ∃ place, env.routine.landing? arm.entry = some place ∧
      Follows env.routine rank place (.call arm.handler :: ahead))
    (ours : receives env.routine.shape.function (arms.map ReceiveArm.case))
    (listens : Outline.Listens (receives env.routine.shape.function) [] ahead) (bare : state.actor.stack = base) :
    env.Heeds receives base (.receive env.routine.shape.function (arms.map ReceiveArm.case)) state (env.moveNoting act) := by
  have known := (minded.image _ _ own).2.2.2 _ ours
  have started := startHandler_ends known state
  have moved : env.move act state = (do
      let place ← env.dispatchReceive arms
      pure (Flow.next { act with position := place })) state := by
    rw [move_of_getElem? here]
    rfl
  unfold Heeds Ends moveNoting
  rw [here]
  simp only [Exec.noting]
  rw [moved]
  rcases env.dispatchReceive_startHandler arms with
    ⟨stop, final, failed, dispatched⟩ | ⟨arm, member, final, succeeded, dispatched⟩
  · rw [Exec.bind_of_error dispatched]
    obtain ⟨journal, cannot⟩ := started.error failed
    exact .inl ⟨journal, fun answers => (cannot answers).elim⟩
  · obtain ⟨locals, pushed, serves, journal⟩ := started.ok succeeded
    obtain ⟨place, leads, follows⟩ := next arm member
    have arrived : env.dispatchReceive arms state = .ok place final := by
      rw [dispatched]
      simp only [position, Routine.position?, leads]
      rfl
    rw [Exec.bind_of_ok arrived]
    let frame : Frame := .atStart arm.handler locals
    have above : final.actor.stack = frame :: base := by
      rw [pushed, ← bare]
      rfl
    have awaited : final.actor.receiveSet = [] := congrArg Actor.receiveSet pushed
    obtain ⟨handler, found, made⟩ := serves.locals
    obtain ⟨parks, saved⟩ := Image.atStart_parks minded.sound minded.image found made
    refine ⟨.start frame, .calling follows listens parks above awaited (fun _ => saved) (by simp), ?_⟩
    refine .handler ?_ (congrArg (· ++ [_]) journal)
    have bare' : ({ state.actor with stack := base } : Actor) = state.actor := by rw [← bare]
    have opened : final.opening frame base
        = ⟨arm.handler, locals, final.heap, { state.actor with receiveSet := [] }⟩ := by
      rw [Running.opening, pushed, ← bare]
      rfl
    rw [bare']
    exact opened ▸ serves

/-- The callee goes on where its frames are parked. -/
theorem invoke_heeds (minded : env.Minded receives) {callee : FunctionId} {landing : LabelId} {place : Nat} {chain : List Frame}
    (here : env.routine.body[act.position]? = some (.invoke callee))
    (behind : env.routine.body[act.position + 1]? = some (.propagateSuspension callee landing))
    (leads : env.routine.landing? landing = some place) (close : act.position = place + 1)
    (label : env.routine.body[place]? = some (.label landing)) (next : Follows env.routine rank (act.position + 2) ahead)
    (listens : Outline.Listens (receives env.routine.shape.function) [] ahead)
    (parks : env.image.Parks receives spot chain) (above : state.actor.stack = chain ++ base)
    (awaited : spot.Awaited state.actor.receiveSet) (saved : spot.isTold → env.image.Saved callee chain)
    (bottom : spot = .nowhere → base = []) : env.Heeds receives base spot state (env.moveNoting act) := by
  rw [moveNoting_of_getElem? here nofun]
  refine (minded.invokes callee spot chain base state parks above awaited saved bottom).bind fun result after ⟨leaves, notes⟩ => ?_
  rw [close] at here behind next
  have arrived : act.position + 1 = place + 2 := congrArg (· + 1) close
  exact ⟨.elsewhere, .returning arrived leads label here behind next listens rfl leaves, notes.owes⟩

theorem propagate_heeds (own : env.image.routine? env.routine.shape.function = some env.routine) {callee : FunctionId}
    {landing : LabelId} {place : Nat} {result : Continuation} (here : act.position = place + 2)
    (leads : env.routine.landing? landing = some place) (label : env.routine.body[place]? = some (.label landing))
    (invoke : env.routine.body[place + 1]? = some (.invoke callee))
    (propagate : env.routine.body[place + 2]? = some (.propagateSuspension callee landing))
    (follows : Follows env.routine rank (place + 3) ahead)
    (listens : Outline.Listens (receives env.routine.shape.function) [] ahead) (last : act.lastCall = some result)
    (left : env.image.Leaves receives base result state) : env.Heeds receives base .elsewhere state (env.moveNoting act) := by
  have stands := propagate
  rw [← here] at stands
  rw [moveNoting_of_getElem? stands nofun]
  simp only [step, last]
  cases result with
  | completed value locals =>
      exact ⟨.elsewhere, .going (follows.moved _ (congrArg (· + 1) here).symm) listens left.2 left.1, .refl⟩
  | suspended reason =>
      obtain ⟨spot, chain, parks, above, awaited, goesOn⟩ := left
      let frame : Frame := ⟨env.routine.shape.function, act.locals, landing, some callee, act.choices⟩
      have calls : env.image.Parks receives spot (frame :: chain) := .calls own leads label invoke propagate follows listens parks
      exact ⟨⟨spot, frame :: chain, calls, congrArg (frame :: ·) above, awaited, goesOn⟩, .same rfl⟩

/-- One instruction of a call in progress. -/
theorem moveNoting_heeds (minded : env.Minded receives) (own : env.image.routine? env.routine.shape.function = some env.routine)
    (attends : env.Attends receives base spot act state) : env.Heeds receives base spot state (env.moveNoting act) := by
  have laid := (minded.image _ _ own).2.1
  cases attends with
  | going follows listens registered bare =>
      cases follows.stands laid with
      | pass here idle next _ => exact pass_heeds here idle (.going next listens registered bare)
      | jump here leads next _ => exact jump_heeds here leads (.going next listens registered bare)
      | stop here behind =>
          cases listens
          exact finish_heeds minded here behind rfl registered bare
      | finish here behind final =>
          cases listens
          exact finish_heeds minded here behind final registered bare
      | act here straight next =>
          cases listens with
          | act deaf noPush rest => exact straight_heeds minded here straight deaf noPush next rest registered bare
          | register rest => exact register_heeds here next (registered ▸ rest) bare
          | call rest => exact push_heeds minded here next rest registered bare
      | ask here behind leads _ next =>
          cases listens with
          | ask other rest => exact ask_heeds minded own here behind leads next other rest registered bare
          | receive awaits ours rest => exact receive_heeds own here behind leads next ours (registered ▸ awaits) rest bare
      | call => cases listens
      | dispatch => cases listens
      | branch here leads whenTrue whenFalse =>
          cases listens with
          | branch onTrue onFalse rest =>
              exact branch_heeds minded here leads whenTrue whenFalse (onTrue.append rest) (onFalse.append rest) registered bare
      | loop here next =>
          obtain ⟨rounds, rfl⟩ := listens.unroll
          exact pass_heeds here rfl (.going next rounds registered bare)
  | dispatching follows ours awaits listens bare =>
      cases follows.stands laid with
      | pass here idle next _ => exact pass_heeds here idle (.dispatching next ours awaits listens bare)
      | jump here leads next _ => exact jump_heeds here leads (.dispatching next ours awaits listens bare)
      | dispatch here next => exact dispatch_heeds minded own here next ours listens bare
  | calling follows listens parks above awaited saved bottom =>
      cases follows.stands laid with
      | pass here idle next _ => exact pass_heeds here idle (.calling next listens parks above awaited saved bottom)
      | jump here leads next _ => exact jump_heeds here leads (.calling next listens parks above awaited saved bottom)
      | call here behind leads close label _ next =>
          exact invoke_heeds minded here behind leads close label next listens parks above awaited saved bottom
  | returning here leads label invoke propagate follows listens last left =>
      exact propagate_heeds own here leads label invoke propagate follows listens last left
  | leaving here pending left =>
      rw [moveNoting_of_getElem? here nofun]
      simp only [step, pending]
      exact ⟨left, .same rfl⟩

end

end Env

end Reentry
