import Reentry.Proofs.Frames.Discipline

/-!
Calls that give up for good. A goto, a raise and a pop end the call in which they stand without saving its frame, but every
caller on the way out saves its own as if it were to go on. These frames wait for a callee of which nothing is left; when
they are entered again they carry nothing out.
-/

namespace Reentry

open Exec

/-- Frames of callers, the outermost first: each waits for the function of the next, and the last one for a call of
`last` that has left no frame. -/
inductive Frame.Deserted (last : FunctionId) : FunctionId → List Frame → Prop
  | gone : Deserted last last []
  | caller {frame : Frame} {callee below} (waits : frame.pendingCall = some callee) (inner : Deserted last callee below) :
      Deserted last frame.function (frame :: below)

/-- The state with other frames on the actor's stack. -/
def Running.restack {σ : Type} (state : Running σ) (stack : List Frame) : Running σ :=
  { state with actor := { state.actor with stack } }

namespace Exec

variable {σ α β : Type}

/-- The run fails for such a reason, and takes nothing but frames off the stack before. -/
def Breaks (reason : Stop → Prop) (work : Exec σ α) (state : Running σ) : Prop :=
  ∃ stop stack, reason stop ∧ work state = .error stop (state.restack stack)

namespace Breaks

variable {reason : Stop → Prop} {state : Running σ}

theorem of_error {work : Exec σ α} {stop : Stop} (stack : List Frame) (holds : reason stop)
    (fails : work state = .error stop (state.restack stack)) : Breaks reason work state := ⟨stop, stack, holds, fails⟩

theorem bind {work : Exec σ α} {rest : α → Exec σ β} (breaks : Breaks reason work state) : Breaks reason (work >>= rest) state := by
  obtain ⟨stop, stack, holds, fails⟩ := breaks
  exact ⟨stop, stack, holds, bind_of_error fails⟩

/-- What has only changed the stack before does not matter. -/
theorem after {work : Exec σ α} {rest : α → Exec σ β} {value : α} (stack : List Frame)
    (first : work state = .ok value (state.restack stack)) (breaks : Breaks reason (rest value) (state.restack stack)) :
    Breaks reason (work >>= rest) state := by
  obtain ⟨stop, other, holds, fails⟩ := breaks
  exact ⟨stop, other, holds, (bind_of_ok first).trans fails⟩

theorem counted {call : Exec σ α} (breaks : Breaks reason call { state with depth := state.depth + 1 }) :
    Breaks reason (counted call) state := by
  obtain ⟨stop, stack, holds, fails⟩ := breaks
  refine ⟨stop, stack, holds, ?_⟩
  unfold Exec.counted
  rw [fails]
  rfl

theorem weaken {other : Stop → Prop} {work : Exec σ α} (breaks : Breaks reason work state) (imp : ∀ stop, reason stop → other stop) :
    Breaks other work state := by
  obtain ⟨stop, stack, holds, fails⟩ := breaks
  exact ⟨stop, stack, imp stop holds, fails⟩

end Breaks

end Exec

namespace RunConfig

variable {σ : Type}

/-- Why frames do not go on whose last callee is gone. -/
inductive Stuck (config : RunConfig σ) (last : FunctionId) : Stop → Prop
  | missingCallee {routine} : Stuck config last (.failed (.internal routine (.missingCallee last)))
  | wrongOwner {routine owner name} : Stuck config last (.failed (.internal routine (.wrongOwner owner name)))
  | tooDeep : Stuck config last (.failed (.callDepthExceeded config.depthLimit))
  | outOfSteps : Stuck config last .outOfSteps

/-- The run fails because of the callee that is gone, and takes nothing but frames off the stack before. -/
def Stalls {α : Type} (config : RunConfig σ) (last : FunctionId) (work : Exec σ α) (state : Running σ) : Prop :=
  ∃ stop stack, config.Stuck last stop ∧ work state = .error stop (state.restack stack)

end RunConfig

namespace Image

variable {image : Image} {function : FunctionId} {chain : List Frame} {reason : YieldReason}

/-- What a call leaves that gives up for good are the frames of the callers. -/
theorem Left.deserted (left : image.Left function reason chain) (final : reason.isTerminal = true) :
    ∃ last, Frame.Deserted last function chain := by
  induction left with
  | gone _ => exact ⟨_, .gone⟩
  | @asked routine frame place question reason _ _ _ gives =>
      cases question with
      | new machine payload =>
          obtain ⟨_, rfl⟩ := gives
          cases final
      | send | receive | nondet => cases gives ▸ final
  | calls calls _ ih =>
      obtain ⟨last, inner⟩ := ih final
      exact ⟨last, .caller calls.pending inner⟩

/-- A function that invokes none leaves nothing when it gives up for good. -/
theorem Left.alone (left : image.Left function reason chain) (final : reason.isTerminal = true) {routine : Routine}
    (found : image.routine? function = some routine) (none : ∀ callee, Instr.invoke callee ∉ routine.body) : chain = [] := by
  cases left with
  | gone _ => rfl
  | @asked _ _ _ question reason _ _ _ gives =>
      cases question with
      | new machine payload =>
          obtain ⟨_, rfl⟩ := gives
          cases final
      | send | receive | nondet => cases gives ▸ final
  | @calls _ _ callee _ _ _ calls _ =>
      cases found.symm.trans calls.known
      exact absurd (List.mem_iff_getElem?.mpr ⟨_, calls.expects.invoke⟩) (none callee)

end Image

namespace RunConfig

variable {σ : Type} {config : RunConfig σ} {function last : FunctionId} {left below : List Frame} {state : Running σ}

/-- A frame whose callee is not below it is not entered. -/
theorem enter_missing {routine : Routine} {frame : Frame} {callee : FunctionId} {place : Nat}
    (calls : config.image.Calls routine frame callee place) (above : state.actor.stack = frame :: below)
    (gone : below.head?.map (·.function) ≠ some callee) : Breaks (config.Stuck callee) (config.enter frame.function) state := by
  have known : Exec.actor (state.restack below) = .ok { state.actor with stack := below } (state.restack below) := rfl
  have missing : frame.pendingCall.filter (fun _ => !calleeBelow frame below) = some callee := by
    simp [calls.pending, calleeBelow, gone]
  simp only [enter, calls.known]
  refine .after below (popFrame_apply above) (.after below known ?_)
  simp only [ne_eq, not_true_eq_false, if_false, calls.slots, missing]
  cases routine.owner.filter (· ≠ state.actor.machine) with
  | some owner => exact .of_error below .wrongOwner rfl
  | none => exact .of_error below .missingCallee rfl

/-- A frame that waits for a callee does nothing but enter the frames of the callee. -/
theorem run_stalls (env : Env σ) {frame : Frame} {callee : FunctionId} {place : Nat}
    (expects : env.image.Expects env.routine callee frame.label frame.choices place) (steps : Nat)
    (inner : Breaks (config.Stuck last) (env.invoke callee) state) :
    Breaks (config.Stuck last) (env.run steps ⟨frame.locals, frame.choices, place, none, none⟩) state := by
  match steps with
  | 0 => exact .of_error state.actor.stack .outOfSteps rfl
  | 1 =>
      rw [Env.run_succ, Env.move_of_getElem? expects.label]
      exact .of_error state.actor.stack .outOfSteps rfl
  | steps + 2 =>
      rw [Env.run_succ, Env.move_of_getElem? expects.label]
      have next : (env.step ⟨frame.locals, frame.choices, place + 1, none, none⟩ (.label frame.label)) state =
          .ok (.next ⟨frame.locals, frame.choices, place + 1, none, none⟩) (state.restack state.actor.stack) := rfl
      refine .after _ next ?_
      change Breaks (config.Stuck last) (env.run (steps + 1) ⟨frame.locals, frame.choices, place + 1, none, none⟩) state
      rw [Env.run_succ, Env.move_of_getElem? expects.invoke]
      exact .bind (.bind inner)

/-- Frames whose last callee is gone are entered one after the other, up to the one that misses it. -/
theorem executeWithin_stalls (levels : Nat) (deserted : Frame.Deserted last function left)
    (nonempty : left ≠ []) (fit : ∀ frame ∈ left, config.image.Fits frame)
    (gone : below.head?.map (·.function) ≠ some last) (above : state.actor.stack = left ++ below) :
    Breaks (config.Stuck last) (config.executeWithin levels function) state := by
  induction levels generalizing function left state with
  | zero => exact .of_error state.actor.stack .outOfSteps rfl
  | succ levels ih =>
      cases deserted with
      | gone => exact absurd rfl nonempty
      | @caller frame callee rest waits inner =>
          obtain ⟨own, others⟩ := List.forall_mem_cons.mp fit
          cases own with
          | waits alone => cases waits.symm.trans alone.alone
          | @calls routine _ place calls =>
              cases waits.symm.trans calls.pending
              unfold executeWithin
              cases inner with
              | gone => exact .bind (enter_missing calls above gone)
              | @caller next other rest waits' inner =>
                  have entry : routine.entrance? frame.label = some place := Routine.entrance?_of_landing? calls.expects.leads
                  let lower : List Frame := (next :: rest) ++ below
                  have entered : config.enter frame.function state = _ :=
                    enter_apply calls.known above rfl calls.slots entry (by simp [calleeBelow, waits])
                  cases owner : routine.owner.filter (· ≠ state.actor.machine) with
                  | some owner =>
                      rw [owner] at entered
                      exact .bind (.of_error lower .wrongOwner entered)
                  | none =>
                      rw [owner] at entered
                      refine .after lower entered (.after lower rfl ?_)
                      dsimp only
                      split
                      · exact .of_error lower .tooDeep rfl
                      · let env : Env σ := ⟨config.image, routine, config.handler, config.executeWithin levels⟩
                        refine .counted (run_stalls env calls.expects config.steps ?_)
                        exact ih (.caller waits' inner) (by simp) others rfl

end RunConfig

namespace Program

variable {σ : Type}

/-- An execution that gives up for good leaves what was below its chain as it was, and above it the frames of its callers,
one for each: the call that gave up saves none, so a function that invokes no other leaves nothing. What is left goes no
further: unless a frame of the callee that is gone happens to lie below it, running it fails before anything is done. -/
theorem lowered_code_gives_up {program : Program} {options : LowerOptions} {config : RunConfig σ}
    (accepted : program.lower options = .ok config.image) {function : FunctionId} {chain base : List Frame}
    (chained : Frame.Chained function chain) (made : ∀ frame ∈ chain, config.Made frame) {state after : Running σ}
    (above : state.actor.stack = chain ++ base) {reason : YieldReason}
    (ends : config.execute function state = .ok (.suspended reason) after) (final : reason.isTerminal = true) :
    ∃ last left, after.actor.stack = left ++ base ∧ Frame.Deserted last function left ∧
      (∀ frame ∈ left, config.image.Tidy frame) ∧
      (∀ routine, config.image.routine? function = some routine → (∀ callee, Instr.invoke callee ∉ routine.body) → left = []) ∧
      ∀ (again : Running σ) (below : List Frame), left ≠ [] → again.actor.stack = left ++ below →
        below.head?.map (·.function) ≠ some last → config.Stalls last (config.execute function) again := by
  have sound := lower_sound accepted
  have saved := chained.saved fun frame member => (made frame member).fits sound
  have handed := (RunConfig.executeWithin_above sound (config.depthLimit + 1) saved above).ok ends
  obtain ⟨left, leaves, stack⟩ := handed
  obtain ⟨last, deserted⟩ := leaves.deserted final
  refine ⟨last, left, stack, deserted, fun frame member => (leaves.fits frame member).tidy sound,
    fun routine found none => leaves.alone final found none, fun again below nonempty stacked gone => ?_⟩
  exact RunConfig.executeWithin_stalls _ deserted nonempty leaves.fits gone stacked

end Program

/-! A trip that ends where it is not meant to: `outing` calls `leave`, which goes to another state for good. -/

namespace Sample

def leave : FunctionInfo where
  name := "leave"
  params := []
  locals := []
  returnType := none
  slotCount := 0
  owner := none
  types := .empty
  body := node (.goto ⟨0⟩ none)

def outing : FunctionInfo where
  name := "outing"
  params := []
  locals := []
  returnType := none
  slotCount := 0
  owner := none
  types := .empty
  body := node (.call ⟨0⟩ none none)

def trip : Program := ⟨"trip.p", [leave, outing], [⟨"Hiker", [], ["Home"]⟩], []⟩

/-- A hiker with these frames, on whom functions of the trip are run. -/
def hiker (stack : List Frame) : Running Unit :=
  ⟨.empty, ⟨⟨0⟩, ⟨0⟩, "Hiker", [], .null, .null, none, [], ⟨none, none⟩, stack⟩, (), 0⟩

def hiking : RunConfig Unit := ⟨(trip.lower {}).toOption.getD ⟨"", [], [], []⟩, fun _ _ _ => .ok (), 3, 100⟩

/-- The frame of `outing` that is left when `leave` is gone. -/
def forlorn : Frame := ⟨⟨1⟩, [], ⟨1⟩, some ⟨0⟩, []⟩

/-- The hiker where the trip has ended. -/
def lost : Running Unit := ⟨.empty, { (hiker [forlorn]).actor with gotoTarget := some ⟨0⟩ }, (), 0⟩

end Sample

namespace Program

open Sample

/-- A terminal suspension does leave a frame of the chain on the stack. -/
theorem outing_leaves_frame : trip.lower {} = .ok hiking.image ∧
    hiking.execute ⟨1⟩ (hiker [.atStart ⟨1⟩ []]) = .ok (.suspended .goto) lost ∧
    YieldReason.isTerminal .goto = true ∧ lost.actor.stack ≠ [] := by
  refine ⟨rfl, by with_unfolding_all rfl, rfl, ?_⟩
  simp [lost, hiker]

/-- The hiker ends up with a frame of `outing` that waits for what is gone, and that goes no further. -/
theorem outing_gives_up : trip.lower {} = .ok hiking.image ∧
    hiking.execute ⟨1⟩ (hiker [.atStart ⟨1⟩ []]) = .ok (.suspended .goto) lost ∧
    ∃ last left, left.length = 1 ∧ lost.actor.stack = left ++ [] ∧ Frame.Deserted last ⟨1⟩ left ∧
      hiking.Stalls last (hiking.execute ⟨1⟩) lost := by
  have accepted : trip.lower {} = .ok hiking.image := rfl
  have started : hiking.Made (.atStart ⟨1⟩ []) := .started
    (show (Actor.startCall hiking.image ⟨1⟩ [] (hiker []).actor).run .empty
      = .ok ((hiker []).actor.push (.atStart ⟨1⟩ []), .empty) from rfl)
  have chained : Frame.Chained (Frame.atStart ⟨1⟩ []).function [.atStart ⟨1⟩ []] := .innermost rfl
  have ends : hiking.execute ⟨1⟩ (hiker ([.atStart ⟨1⟩ []] ++ [])) = .ok (.suspended .goto) lost := by
    with_unfolding_all rfl
  obtain ⟨last, left, stack, deserted, _, _, stalls⟩ :=
    lowered_code_gives_up accepted chained (by simpa using started) rfl ends rfl
  obtain rfl : left = [forlorn] := by simpa [lost, hiker] using stack.symm
  exact ⟨accepted, ends, last, [forlorn], rfl, rfl, deserted, stalls lost [] (by simp) rfl (by simp)⟩

end Program

end Reentry
