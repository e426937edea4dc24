import Reentry.Proofs.Frames.Run
import Reentry.World.Drive

/-!
A world of actors under a scheduler that keeps to the rules: it runs the frame on top of a stack, and an
actor that has failed or given up its frames only after its stack has been cleared. What it answers, and
when, does not matter. In such a world no execution breaks a rule about frames.
-/

namespace Reentry

namespace Continuation

/-- Whether the call has given up its frames. -/
def isTerminal : Continuation → Bool
  | .completed .. => false
  | .suspended reason => reason.isTerminal

end Continuation

/-- Whether a rule about frames is broken. -/
def WorldFailure.breaksFrames : WorldFailure → Bool
  | .runtime cause => cause.breaksFrames
  | _ => false

theorem WorldFailure.ofStop_breaksFrames (stop : Stop) : (WorldFailure.ofStop stop).breaksFrames = stop.breaksFrames := by
  cases stop <;> rfl

/-- A world, and the actors whose last execution failed or was suspended for good and whose stacks have
not been cleared since then. -/
structure Schedule where
  world : World
  spoilt : List Nat

namespace Schedule

def start : Schedule := ⟨.empty, []⟩

/-- What a scheduler may do. -/
inductive Action where
  | spawn (machine : MachineTypeId)
  | startCall (number : Nat) (function : FunctionId) (args : List Value)
  /-- Runs the frame on top of the stack. -/
  | execute (number : Nat)
  | deliver (number : Nat) (message : Message)
  | choose (number : Nat) (chosen : Bool)
  | create (number : Nat) (created : MachineId)
  | clear (number : Nat)

/-- What is left if something was done that does not touch frames. -/
def kept {α : Type} (here : Schedule) : EStateM.Result WorldFailure World α → Option Schedule
  | .ok _ world => some { here with world }
  | .error _ _ => none

/-- Does something, if it succeeds and is allowed. An execution may fail. -/
def act (config : RunConfig Surroundings) (here : Schedule) : Action → Option Schedule
  | .spawn machine => here.kept (World.spawn config.image machine here.world)
  | .startCall number function args => here.kept (World.startCall config number function args here.world)
  | .deliver number message => here.kept (World.deliver number message here.world)
  | .choose number chosen => here.kept (World.setChoice number chosen here.world)
  | .create number created => here.kept (World.setCreated number created here.world)
  | .clear number =>
      { here with spoilt := here.spoilt.filter (· ≠ number) }.kept (World.clearStack number here.world)
  | .execute number =>
      if number ∈ here.spoilt then none
      else
        match World.executeTop config number here.world with
        | .ok continuation world =>
            some ⟨world, if continuation.isTerminal then number :: here.spoilt else here.spoilt⟩
        | .error _ world => some ⟨world, number :: here.spoilt⟩

/-- Whether these actions, one after the other, lead from the empty world to this schedule. -/
def Reached (config : RunConfig Surroundings) (actions : List Action) (here : Schedule) : Prop :=
  actions.foldlM (act config) start = some here

/-- The stacks of actors that are not spoilt hold the frames of calls that wait. -/
def Framed (image : Image) (here : Schedule) : Prop :=
  ∀ number actor, here.world.actors[number]? = some actor → number ∉ here.spoilt → image.Stacked actor.stack

end Schedule

namespace World

variable {α : Type} {number : Nat} {work : Exec Surroundings α} {world after : World}

/-- The run of which work on an actor consists. -/
def running (world : World) (actor : Actor) : Running Surroundings := ⟨world.heap, actor, world.outside, world.depth⟩

theorem onActor_eq_ok {result : α} : onActor number work world = .ok result after ↔
    ∃ actor state, world.actors[number]? = some actor ∧ work (world.running actor) = .ok result state ∧
      after = world.leave number state := by
  unfold onActor running
  cases world.actors[number]? with
  | none => simp
  | some actor =>
      simp only [Option.some.injEq, exists_and_left, exists_eq_left']
      cases work ⟨world.heap, actor, world.outside, world.depth⟩ with
      | ok value state => grind
      | error stop state => simp

theorem onActor_eq_error {cause : WorldFailure} : onActor number work world = .error cause after ↔
    (world.actors[number]? = none ∧ cause = .noActor ∧ after = world) ∨
      ∃ actor stop state, world.actors[number]? = some actor ∧ work (world.running actor) = .error stop state ∧
        cause = .ofStop stop ∧ after = world.leave number state := by
  unfold onActor running
  cases world.actors[number]? with
  | none => grind
  | some actor =>
      simp only [reduceCtorEq, false_and, false_or, Option.some.injEq, exists_and_left, exists_eq_left']
      cases work ⟨world.heap, actor, world.outside, world.depth⟩ with
      | ok value state => simp
      | error stop state => grind

theorem leave_getElem? (world : World) (number : Nat) (state : Running Surroundings) (other : Nat) :
    (world.leave number state).actors[other]? =
      if number = other then world.actors[other]?.map fun _ => state.actor else world.actors[other]? := by
  simp only [leave, List.getElem?_set]
  by_cases same : number = other
  · subst same
    by_cases inside : number < world.actors.length
    · simp [inside]
    · simp [inside]
  · simp [same]

theorem leave_running {actor : Actor} (present : world.actors[number]? = some actor) :
    world.leave number (world.running actor) = world := by
  have same : world.actors.set number actor = world.actors := by
    apply List.ext_getElem?
    intro other
    rw [List.getElem?_set]
    obtain ⟨bound, here⟩ := List.getElem?_eq_some_iff.mp present
    by_cases same : number = other
    · subst same
      rw [if_pos rfl, if_pos bound, present]
    · rw [if_neg same]
  change ({ world with actors := world.actors.set number actor } : World) = world
  rw [same]

/-- A new instance has no frames. -/
theorem spawn_eq_ok {image : Image} {machine : MachineTypeId} (done : spawn image machine world = .ok number after) :
    ∃ actor, after.actors = world.actors ++ [actor] ∧ actor.stack = [] := by
  unfold spawn at done
  cases found : image.machine? machine with
  | none =>
      rw [found] at done
      cases done
  | some decl =>
      rw [found] at done
      cases done
      exact ⟨_, rfl, rfl⟩

theorem bind_of_ok {α β : Type} {work : WorldOp α} {rest : α → WorldOp β} {result : α} {middle : World}
    (first : work world = .ok result middle) : (work >>= rest) world = rest result middle := by
  change EStateM.bind work rest world = _
  unfold EStateM.bind
  rw [first]

theorem bind_of_error {α β : Type} {work : WorldOp α} {rest : α → WorldOp β} {cause : WorldFailure} {middle : World}
    (first : work world = .error cause middle) : (work >>= rest) world = .error cause middle := by
  change EStateM.bind work rest world = _
  unfold EStateM.bind
  rw [first]

/-- Executing the frame on top of a stack is executing its function. -/
theorem executeTop_cases (config : RunConfig Surroundings) (number : Nat) (world : World) :
    (∃ cause, executeTop config number world = .error cause world ∧ (cause = .noActor ∨ cause = .noFrame)) ∨
      ∃ actor frame below, world.actors[number]? = some actor ∧ actor.stack = frame :: below ∧
        executeTop config number world = onActor number (config.execute frame.function) world := by
  cases present : world.actors[number]? with
  | none =>
      have looked : onActor number Exec.actor world = .error .noActor world :=
        onActor_eq_error.mpr (.inl ⟨present, rfl, rfl⟩)
      have top : topFunction number world = .error .noActor world := bind_of_error looked
      exact .inl ⟨.noActor, bind_of_error top, .inl rfl⟩
  | some actor =>
      have looked : onActor number Exec.actor world = .ok actor world :=
        onActor_eq_ok.mpr ⟨actor, world.running actor, present, rfl, (leave_running present).symm⟩
      cases above : actor.stack with
      | nil =>
          have top : topFunction number world = .error .noFrame world := by
            rw [topFunction, bind_of_ok looked, above]
            rfl
          exact .inl ⟨.noFrame, bind_of_error top, .inr rfl⟩
      | cons frame below =>
          have top : topFunction number world = .ok frame.function world := by
            rw [topFunction, bind_of_ok looked, above]
            rfl
          exact .inr ⟨actor, frame, below, rfl, above, bind_of_ok top⟩

end World

theorem Schedule.kept_eq_some {α : Type} {here there : Schedule} {done : EStateM.Result WorldFailure World α} :
    here.kept done = some there ↔ ∃ result world, done = .ok result world ∧ { here with world } = there := by
  cases done with
  | ok result world => grind [kept]
  | error cause world => simp [kept]

namespace Schedule.Framed

open World

variable {image : Image} {config : RunConfig Surroundings} {world after : World} {spoilt : List Nat} {number : Nat}

/-- After work on one actor only that actor has to be looked at. -/
theorem leave {more : List Nat} {state : Running Surroundings} (framed : Framed image ⟨world, spoilt⟩)
    (kept : ∀ other, other ∈ spoilt → other ≠ number → other ∈ more)
    (stacked : number ∉ more → image.Stacked state.actor.stack) : Framed image ⟨world.leave number state, more⟩ := by
  intro other actor present whole
  rw [leave_getElem?] at present
  by_cases same : number = other
  · subst same
    simp only [if_true, Option.map_eq_some_iff] at present
    obtain ⟨_, _, rfl⟩ := present
    exact stacked whole
  · simp only [same, if_false] at present
    exact framed other actor present fun member => whole (kept other member (Ne.symm same))

theorem modify {change : Actor → Actor} (framed : Framed image ⟨world, spoilt⟩)
    (done : onActor number (Exec.modifyActor change) world = .ok () after)
    (same : ∀ actor, (change actor).stack = actor.stack) : Framed image ⟨after, spoilt⟩ := by
  obtain ⟨actor, state, present, ran, rfl⟩ := onActor_eq_ok.mp done
  cases ran
  refine framed.leave (fun _ member _ => member) fun whole => ?_
  change image.Stacked (change actor).stack
  rw [same]
  exact framed number actor present whole

theorem clear (framed : Framed image ⟨world, spoilt⟩) (done : clearStack number world = .ok () after) :
    Framed image ⟨after, spoilt.filter (· ≠ number)⟩ := by
  obtain ⟨actor, state, _, ran, rfl⟩ := onActor_eq_ok.mp done
  cases ran
  exact framed.leave (fun other member distinct => by simp [member, distinct]) fun _ => .nil

theorem spawn {machine : MachineTypeId} (framed : Framed image ⟨world, spoilt⟩)
    (done : World.spawn image machine world = .ok number after) : Framed image ⟨after, spoilt⟩ := by
  obtain ⟨actor, grown, fresh⟩ := spawn_eq_ok done
  intro other found present whole
  rw [grown, List.getElem?_append] at present
  by_cases old : other < world.actors.length
  · simp only [old, if_true] at present
    exact framed other found present whole
  · simp only [old, if_false] at present
    obtain rfl : found = actor := by
      have member := List.mem_of_getElem? present
      simpa using member
    rw [fresh]
    exact .nil

theorem startCall {function : FunctionId} {args : List Value} (sound : config.image.Sound)
    (framed : Framed config.image ⟨world, spoilt⟩)
    (done : World.startCall config number function args world = .ok () after) : Framed config.image ⟨after, spoilt⟩ := by
  obtain ⟨actor, state, present, ran, rfl⟩ := onActor_eq_ok.mp done
  have looked : Exec.actor (world.running actor) = .ok actor (world.running actor) := rfl
  rw [Exec.bind_of_ok looked, Exec.bind_eq_ok] at ran
  obtain ⟨started, middle, ran, pushed⟩ := ran
  cases pushed
  rw [Exec.ofHeapOp_apply] at ran
  cases starts : (Actor.startCall config.image function args actor).run (world.running actor).heap with
  | error cause =>
      rw [starts] at ran
      cases ran
  | ok made =>
      rw [starts] at ran
      cases ran
      obtain ⟨frame, saved, pushed⟩ := Actor.startCall_saved sound starts
      rw [pushed]
      exact framed.leave (fun _ member _ => member) fun whole => .call saved (framed number actor present whole)

theorem executes (sound : config.image.Sound) (framed : Framed config.image ⟨world, spoilt⟩) {actor : Actor}
    {frame : Frame} {below : List Frame} (whole : number ∉ spoilt) (present : world.actors[number]? = some actor)
    (above : actor.stack = frame :: below) :
    ∃ base, Exec.Meets config.handler (config.execute frame.function) (world.running actor) fun result after =>
      config.image.Handed frame.function base result after.actor.stack ∧ config.image.Stacked base := by
  have stacked := framed number actor present whole
  rw [above] at stacked
  generalize contents : frame :: below = stack at stacked
  cases stacked with
  | nil => cases contents
  | @call function chain base saved rest =>
      obtain ⟨top, others, rfl, own⟩ := saved.head
      cases contents
      subst own
      refine ⟨base, (RunConfig.execute_meets sound saved above).weaken ?_⟩
      exact fun result after ⟨handed, _⟩ => ⟨handed, rest⟩

theorem execute {continuation : Continuation} (sound : config.image.Sound) (framed : Framed config.image ⟨world, spoilt⟩)
    (whole : number ∉ spoilt) (done : executeTop config number world = .ok continuation after) :
    Framed config.image ⟨after, if continuation.isTerminal then number :: spoilt else spoilt⟩ := by
  rcases executeTop_cases config number world with ⟨_, refused, _⟩ | ⟨actor, frame, below, present, above, executed⟩
  · rw [refused] at done
    cases done
  · rw [executed] at done
    obtain ⟨other, state, same, ran, rfl⟩ := onActor_eq_ok.mp done
    cases present.symm.trans same
    obtain ⟨base, meets⟩ := framed.executes sound whole present above
    obtain ⟨handed, rest⟩ := meets.ok ran
    refine framed.leave (fun other member _ => ?_) fun still => ?_
    · cases continuation.isTerminal
      · exact member
      · exact List.mem_cons_of_mem _ member
    · cases continuation with
      | completed value locals => rw [handed.1]; exact rest
      | suspended reason =>
          cases waits : reason.isTerminal with
          | true => simp [Continuation.isTerminal, waits] at still
          | false =>
              obtain ⟨chain, saved, stack⟩ := handed.saved waits
              rw [stack]
              exact .call saved rest

theorem fail {cause : WorldFailure} (framed : Framed config.image ⟨world, spoilt⟩)
    (failed : executeTop config number world = .error cause after) : Framed config.image ⟨after, number :: spoilt⟩ := by
  rcases executeTop_cases config number world with ⟨_, refused, _⟩ | ⟨actor, frame, below, present, above, executed⟩
  · rw [refused] at failed
    cases failed
    exact fun other actor found whole => framed other actor found fun member => whole (List.mem_cons_of_mem _ member)
  · rw [executed] at failed
    rcases onActor_eq_error.mp failed with ⟨missing, _, _⟩ | ⟨_, stop, state, _, _, _, rfl⟩
    · rw [missing] at present
      cases present
    · exact framed.leave (fun other member _ => List.mem_cons_of_mem _ member) fun still => by simp at still

/-- Whatever the scheduler does, the stacks stay as they should be. -/
theorem act {here there : Schedule} {action : Action} (sound : config.image.Sound) (framed : Framed config.image here)
    (acted : here.act config action = some there) : Framed config.image there := by
  cases action with
  | spawn machine =>
      obtain ⟨_, world, done, rfl⟩ := kept_eq_some.mp acted
      exact framed.spawn done
  | startCall number function args =>
      obtain ⟨_, world, done, rfl⟩ := kept_eq_some.mp acted
      exact framed.startCall sound done
  | deliver number message =>
      obtain ⟨_, world, done, rfl⟩ := kept_eq_some.mp acted
      exact framed.modify done fun _ => rfl
  | choose number chosen =>
      obtain ⟨_, world, done, rfl⟩ := kept_eq_some.mp acted
      exact framed.modify done fun _ => rfl
  | create number created =>
      obtain ⟨_, world, done, rfl⟩ := kept_eq_some.mp acted
      exact framed.modify done fun _ => rfl
  | clear number =>
      obtain ⟨_, world, done, rfl⟩ := kept_eq_some.mp acted
      exact framed.clear done
  | execute number =>
      simp only [Schedule.act] at acted
      by_cases spoilt : number ∈ here.spoilt
      · simp only [spoilt, if_true] at acted
        cases acted
      · simp only [spoilt, if_false] at acted
        cases ran : executeTop config number here.world with
        | ok continuation world =>
            rw [ran] at acted
            cases acted
            exact framed.execute sound spoilt ran
        | error cause world =>
            rw [ran] at acted
            cases acted
            exact framed.fail ran

theorem of_reached {here : Schedule} {actions : List Action} (sound : config.image.Sound)
    (reached : Reached config actions here) : Framed config.image here := by
  have empty : Framed config.image start := fun number actor present => by cases present
  unfold Reached at reached
  generalize start = first at empty reached
  induction actions generalizing first with
  | nil =>
      cases reached
      exact empty
  | cons action rest ih =>
      obtain ⟨next, acted, reached⟩ := Option.bind_eq_some_iff.mp reached
      exact ih next (empty.act sound acted) reached

end Schedule.Framed

namespace Surroundings

theorem handle_keeps (cause : RuntimeFailure) (raised : handle.Raises cause) : cause.breaksFrames = false := by
  obtain ⟨heap, effect, outside, failed⟩ := raised
  cases effect with
  | enqueue sender target event payload =>
      simp only [handle] at failed
      cases posted : outside.post? target.index.toNat ⟨event, payload⟩ with
      | none =>
          rw [posted] at failed
          cases failed
          rfl
      | some after =>
          rw [posted] at failed
          cases failed
  | announce _ _ _ => cases failed
  | print _ _ => cases failed

end Surroundings

namespace Program

/-- Lowered code never breaks the rules about frames: whatever a scheduler has done before, executing the
frame on top of the stack of an actor that is not spoilt does not fail with a trap about frames, choices
or the code itself. The handler of effects, which is no part of the code, must not do so either. -/
theorem lowered_code_keeps_frames {program : Program} {options : LowerOptions} {config : RunConfig Surroundings}
    (accepted : program.lower options = .ok config.image)
    (handles : ∀ cause, config.handler.Raises cause → cause.breaksFrames = false)
    {actions : List Schedule.Action} {here : Schedule} (reached : Schedule.Reached config actions here) {number : Nat}
    (whole : number ∉ here.spoilt) :
    match World.executeTop config number here.world with
    | .ok _ _ => True
    | .error cause _ => cause.breaksFrames = false := by
  have sound := lower_sound accepted
  have framed := Schedule.Framed.of_reached sound reached
  cases ran : World.executeTop config number here.world with
  | ok continuation after => trivial
  | error cause after =>
      rcases World.executeTop_cases config number here.world with
        ⟨_, refused, kind⟩ | ⟨actor, frame, below, present, above, executed⟩
      · rw [refused] at ran
        cases ran
        rcases kind with rfl | rfl <;> rfl
      · rw [executed] at ran
        rcases World.onActor_eq_error.mp ran with ⟨_, rfl, _⟩ | ⟨_, stop, state, same, stopped, rfl, _⟩
        · rfl
        · cases present.symm.trans same
          obtain ⟨base, meets⟩ := framed.executes sound whole present above
          refine (WorldFailure.ofStop_breaksFrames stop).trans ?_
          rcases meets.error stopped with kept | ⟨cause, rfl, raised⟩
          · exact kept
          · exact handles cause raised

/-- The player of the sample game, after the environment has let it go on once. -/
theorem game_keeps_frames : ∃ config here, Sample.game.lower {} = .ok config.image ∧
    Schedule.Reached config [.spawn ⟨0⟩, .startCall 0 ⟨0⟩ [], .execute 0, .choose 0 true] here ∧ 0 ∉ here.spoilt ∧
    match World.executeTop config 0 here.world with
    | .ok _ _ => True
    | .error cause _ => cause.breaksFrames = false := by
  let config : RunConfig Surroundings := ⟨Sample.image, Surroundings.handle, 3, 100⟩
  let actions : List Schedule.Action := [.spawn ⟨0⟩, .startCall 0 ⟨0⟩ [], .execute 0, .choose 0 true]
  have accepted : Sample.game.lower {} = .ok config.image := rfl
  have possible : ((actions.foldlM (Schedule.act config) .start).map fun here => decide (0 ∉ here.spoilt)) = some true := by
    decide +kernel
  obtain ⟨here, reached, whole⟩ := Option.map_eq_some_iff.mp possible
  have whole := of_decide_eq_true whole
  exact ⟨config, here, accepted, reached, whole, lowered_code_keeps_frames accepted Surroundings.handle_keeps reached whole⟩

end Program

end Reentry
