import Reentry.Proofs.Execution.Moves
import Reentry.Proofs.Frames.Run

/-!
The frames below a call. However the call ends, they are still there as they were, and what lies above them
then are frames that fit their functions.
-/

namespace Reentry

namespace Image

/-- A frame that fits its function, whatever the frames below and above it are. -/
inductive Fits (image : Image) (frame : Frame) : Prop
  | waits {routine position} (waits : image.Waits routine frame position)
  | calls {routine callee place} (calls : image.Calls routine frame callee place)

/-- The stack is the old one with frames on top that fit their functions. -/
def Rises (image : Image) (base stack : List Frame) : Prop :=
  ∃ above, stack = above ++ base ∧ ∀ frame ∈ above, image.Fits frame

variable {image : Image} {function : FunctionId} {chain base stack : List Frame} {reason : YieldReason}

theorem Saved.fits (saved : image.Saved function chain) : ∀ frame ∈ chain, image.Fits frame := by
  induction saved with
  | waits waits =>
      intro frame member
      rw [List.mem_singleton.mp member]
      exact .waits waits
  | calls calls _ ih => exact List.forall_mem_cons.mpr ⟨.calls calls, ih⟩

theorem Left.fits (left : image.Left function reason chain) : ∀ frame ∈ chain, image.Fits frame := by
  induction left with
  | gone _ => simp
  | asked waits _ _ _ =>
      intro frame member
      rw [List.mem_singleton.mp member]
      exact .waits waits
  | calls calls _ ih => exact List.forall_mem_cons.mpr ⟨.calls calls, ih⟩

namespace Rises

theorem refl (stack : List Frame) : image.Rises stack stack := ⟨[], rfl, by simp⟩

theorem trans {middle : List Frame} (first : image.Rises base middle) (second : image.Rises middle stack) :
    image.Rises base stack := by
  obtain ⟨lower, rfl, fit⟩ := first
  obtain ⟨upper, rfl, fit'⟩ := second
  refine ⟨upper ++ lower, (List.append_assoc ..).symm, fun frame member => ?_⟩
  exact (List.mem_append.mp member).elim (fit' frame) (fit frame)

theorem saved (saved : image.Saved function chain) : image.Rises base (chain ++ base) := ⟨chain, rfl, saved.fits⟩

theorem push {frame : Frame} (fits : image.Fits frame) : image.Rises base (frame :: base) :=
  ⟨[frame], rfl, by simpa using fits⟩

end Rises

theorem Handed.rises {result : Continuation} (handed : image.Handed function base result stack) :
    image.Rises base stack := by
  cases result with
  | completed value locals => exact handed.1 ▸ .refl _
  | suspended reason =>
      obtain ⟨chain, left, rfl⟩ := handed
      exact ⟨chain, rfl, left.fits⟩

end Image

/-- A run that keeps the rules about frames ends in both ways at once. -/
theorem Exec.Ends.met {σ α : Type} {handler : Handler σ} {work : Exec σ α} {state : Running σ}
    {good post : α → Running σ → Prop} {bad : Stop → Running σ → Prop} (ends : Ends work state good bad)
    (meets : Meets handler work state post) :
    Ends work state (fun result after => post result after ∧ good result after) bad := by
  unfold Ends Meets at *
  cases ran : work state with
  | ok result after =>
      rw [ran] at ends meets
      exact ⟨meets, ends⟩
  | error stop after =>
      rw [ran] at ends
      exact ends

open Exec

namespace Instr

/-- Whether the instruction neither saves the frame of its call nor enters those of a callee. -/
def leavesStack (instr : Instr) : Prop := instr.parking? = none ∧ ∀ callee, instr ≠ .invoke callee

variable {instr : Instr}

theorem leavesStack_of_isPosition (idle : instr.isPosition) : instr.leavesStack := by
  cases instr <;> first | (cases idle; done) | exact ⟨rfl, by simp⟩

theorem leavesStack_of_isStraight (straight : instr.isStraight) : instr.leavesStack := by
  cases instr <;> first | (cases straight; done) | exact ⟨rfl, by simp⟩

theorem leavesStack_of_final {request : YieldRequest} (final : request.question? = none) :
    (Instr.yield request).leavesStack := by
  cases request <;> first | (cases final; done) | exact ⟨rfl, by simp⟩

end Instr

namespace Env

variable {σ : Type} {env : Env σ} {act : Activation} {base : List Frame} {state : Running σ}

/-- From the one state to the other the stack only rises. -/
abbrev Upward (env : Env σ) (before after : Running σ) : Prop := env.image.Rises before.actor.stack after.actor.stack

/-- The work leaves the frames of the base alone, even if it fails. -/
abbrev Above {α : Type} (env : Env σ) (base : List Frame) (work : Exec σ α) (state : Running σ) : Prop :=
  Ends work state (fun _ after => env.image.Rises base after.actor.stack) fun _ after => env.image.Rises base after.actor.stack

/-- Callees leave alone the frames that are not theirs. -/
def Spares (env : Env σ) : Prop :=
  ∀ callee chain base state, env.image.Saved callee chain → state.actor.stack = chain ++ base →
    env.Above base (env.invoke callee) state

theorem startCall_saves (sound : env.image.Sound) (callee : FunctionId) (args : List Value) (state : Running σ) :
    Ends (env.startCall callee args) state
      (fun _ after => ∃ frame, env.image.Saved callee [frame] ∧ after.actor.stack = frame :: state.actor.stack)
      fun _ after => after = state := by
  have called : env.startCall callee args state
      = (Exec.ofHeapOp (Actor.startCall env.image callee args state.actor) >>= fun actor =>
        Exec.modifyActor fun _ => actor) state := rfl
  unfold Ends
  rw [called, Exec.bind_apply, Exec.ofHeapOp_apply]
  cases starts : (Actor.startCall env.image callee args state.actor).run state.heap with
  | error cause => rfl
  | ok started =>
      obtain ⟨frame, saved, pushed⟩ := Actor.startCall_saved sound starts
      exact ⟨frame, saved, congrArg Actor.stack pushed⟩

theorem callToEnd_upward (sound : env.image.Sound) (spares : env.Spares) (callee : FunctionId) (args : List Value) :
    Moves env.Upward env.Upward (env.callToEnd callee args) := by
  intro state
  refine ((startCall_saves sound callee args state).weaken (fun _ _ => id) ?_).bind ?_
  · rintro _ _ rfl
    exact .refl _
  · rintro _ started ⟨frame, saved, pushed⟩
    refine (spares callee [frame] state.actor.stack started saved pushed).bind fun result after rises => ?_
    cases result <;> exact rises

theorem upward (sound : env.image.Sound) (spares : env.Spares) : Drift env env.Upward env.Upward where
  refl _ := .refl _
  trans _ _ _ := .trans
  loses _ := .refl _
  trails _ _ _ := .trans
  heap _ _ := .refl _
  actor _ _ same _ _ := by
    unfold Upward
    rw [same]
    exact .refl _
  handles _ _ _ _ _ := .refl _
  starts state callee args started heap starts := by
    obtain ⟨frame, saved, rfl⟩ := Actor.startCall_saved sound starts
    exact .push (saved.fits frame (List.mem_singleton.mpr rfl))
  calls := callToEnd_upward sound spares

/-- Sending leaves the stack alone. -/
theorem enqueue_upward (sound : env.image.Sound) (spares : env.Spares) (target event payload : Operand) :
    Moves env.Upward env.Upward (env.enqueue act target event payload) := by
  refine enqueue_moves (upward sound spares) target event payload fun sender target event payload state => ?_
  unfold Ends
  rw [Exec.perform_apply]
  cases env.handler state.heap (.enqueue sender target event payload) state.outside <;> exact .refl _

/-- Saving a frame that fits its function. -/
theorem saveFrame_upward {resume : LabelId} {callee : Option FunctionId}
    (fits : env.image.Fits ⟨env.routine.shape.function, act.locals, resume, callee, act.choices⟩) :
    Moves env.Upward env.Upward (env.saveFrame act resume callee) := fun _ => .push fits

/-- Above the frames that were there before a call in progress are frames that fit their functions. -/
theorem Active.rises {stack : List Frame} (active : env.Active base act stack) : env.image.Rises base stack := by
  cases active with
  | going _ _ _ _ => exact .refl _
  | calling _ _ _ _ saved => exact .saved saved
  | returning _ _ _ _ handed | leaving _ _ handed => exact handed.rises

/-- An instruction that neither saves the frame nor enters those of a callee leaves alone what is below. -/
theorem plain_above (sound : env.image.Sound) (spares : env.Spares) {instr : Instr}
    (here : env.routine.body[act.position]? = some instr) (leaves : instr.leavesStack)
    (rises : env.image.Rises base state.actor.stack) : env.Above base (env.move act) state := by
  obtain ⟨parks, other⟩ := leaves
  rw [move_of_getElem? here]
  have moves : Moves env.Upward env.Upward (env.step { act with position := act.position + 1 } instr) := step_moves (upward sound spares)
    (fun resume callee parked => absurd (parks.symm.trans parked) (by simp)) (fun callee same => absurd same (other callee))
    (fun target event payload _ => enqueue_upward sound spares target event payload) (fun _ _ _ => .refl _) fun _ _ _ => .refl _
  exact (moves state).weaken (fun _ _ => rises.trans) fun _ _ => rises.trans

/-- So does any instruction of a call in progress. -/
theorem move_above (trusted : env.Trusted) (spares : env.Spares)
    (own : env.image.routine? env.routine.shape.function = some env.routine)
    (active : env.Active base act state.actor.stack) : env.Above base (env.move act) state := by
  have sound := trusted.image
  have laid := (sound _ _ own).laid
  generalize above : state.actor.stack = stack at active
  cases active with
  | going follows safe filled _ =>
      have still : env.image.Rises state.actor.stack state.actor.stack := .refl _
      subst above
      cases follows.stands laid with
      | stop here _ => exact plain_above sound spares here ⟨rfl, by simp⟩ still
      | pass here idle _ _ => exact plain_above sound spares here (Instr.leavesStack_of_isPosition idle) still
      | jump here _ _ _ => exact plain_above sound spares here ⟨rfl, by simp⟩ still
      | act here straight _ => exact plain_above sound spares here (Instr.leavesStack_of_isStraight straight) still
      | finish here _ final => exact plain_above sound spares here (Instr.leavesStack_of_final final) still
      | @ask _ _ question resume _ _ here _ leads _ next =>
          have waits := saved_waits own leads next (by cases safe with | ask _ rest => exact rest) filled
          have parks (label : LabelId) (callee : Option FunctionId)
              (parked : (Instr.yield (question.request resume)).parking? = some (label, callee)) :
              Moves env.Upward env.Upward (env.saveFrame { act with position := act.position + 1 } label callee) := by
            obtain ⟨rfl, rfl⟩ : resume = label ∧ none = callee := by
              cases question <;> simpa [Instr.parking?, Question.request, YieldRequest.resume?] using parked
            exact saveFrame_upward (.waits waits)
          rw [move_of_getElem? here]
          exact step_moves (upward sound spares) parks (by simp) (by simp) (by simp [Instr.stored]) (by rintro ⟨⟩) state
      | call => cases safe
      | dispatch here _ => exact plain_above sound spares here ⟨rfl, by simp⟩ still
      | branch here _ _ _ => exact plain_above sound spares here ⟨rfl, by simp⟩ still
      | loop here _ => exact plain_above sound spares here ⟨rfl, by simp⟩ still
  | calling follows _ _ _ saved =>
      have risen : env.image.Rises base state.actor.stack := above ▸ .saved saved
      cases follows.stands laid with
      | pass here idle _ _ => exact plain_above sound spares here (Instr.leavesStack_of_isPosition idle) risen
      | jump here _ _ _ => exact plain_above sound spares here ⟨rfl, by simp⟩ risen
      | call here _ _ _ _ _ _ =>
          rw [move_of_getElem? here]
          exact (spares _ _ base state saved above).bind fun _ _ rises => .pure rises
  | @returning callee landing _ result _ here expects filled last handed =>
      have propagate := expects.propagate
      rw [← here] at propagate
      have calls : env.image.Calls env.routine ⟨env.routine.shape.function, act.locals, landing, some callee, act.choices⟩
          callee _ :=
        ⟨own, filled.slots, rfl, expects⟩
      have risen : env.image.Rises base state.actor.stack := above ▸ handed.rises
      rw [move_of_getElem? propagate]
      simp only [step, last]
      cases result with
      | completed value locals => exact .pure risen
      | suspended reason => exact risen.trans (.push (.calls calls))
  | leaving here pending handed =>
      rw [move_of_getElem? here]
      simp only [step, pending]
      exact .pure (above ▸ handed.rises)

/-- A call in progress leaves alone what is below, until it leaves or fails. -/
theorem run_above (trusted : env.Trusted) (spares : env.Spares)
    (own : env.image.routine? env.routine.shape.function = some env.routine) (steps : Nat)
    (active : env.Active base act state.actor.stack) (rises : env.image.Rises base state.actor.stack) :
    env.Above base (env.run steps act) state := by
  induction steps generalizing act state with
  | zero => exact rises
  | succ steps ih =>
      rw [run_succ]
      have moved := (move_above trusted spares own active).met (move_leads trusted own active)
      refine moved.bind fun flow after ⟨⟨came, _⟩, rises⟩ => ?_
      cases flow with
      | next act => exact ih came rises
      | leave result => exact rises

end Env

namespace RunConfig

variable {σ : Type} {config : RunConfig σ}

/-- Entering frames takes no more than the one on top, even if the machine is the wrong one. -/
theorem enter_above {function : FunctionId} {chain base : List Frame} {state : Running σ}
    (saved : config.image.Saved function chain) (above : state.actor.stack = chain ++ base) :
    Ends (config.enter function) state (fun _ _ => True) fun _ after => config.image.Rises base after.actor.stack := by
  obtain ⟨routine, frame, below, position, rfl, entered⟩ := enter_saved saved above
  have rises : config.image.Rises base (below ++ base) :=
    ⟨below, rfl, fun other member => saved.fits other (List.mem_cons_of_mem _ member)⟩
  unfold Ends
  rw [entered]
  cases routine.owner.filter (· ≠ state.actor.machine) with
  | some owner => exact rises
  | none => trivial

theorem executeWithin_meets (sound : config.image.Sound) (levels : Nat) {function : FunctionId} {chain base : List Frame}
    {state : Running σ} (saved : config.image.Saved function chain) (above : state.actor.stack = chain ++ base) :
    Meets config.handler (config.executeWithin levels function) state fun result after =>
      config.image.Handed function base result after.actor.stack ∧
        after.actor.machine = state.actor.machine ∧ after.depth = state.depth := by
  have watched := config.watchWithin_meets sound (fun _ _ outside => outside) levels saved above
  rwa [watchWithin_nothing] at watched

/-- A run on the frames of a call that waits leaves alone the frames below them. -/
theorem executeWithin_above (sound : config.image.Sound) (levels : Nat) {function : FunctionId} {chain base : List Frame}
    {state : Running σ} (saved : config.image.Saved function chain) (above : state.actor.stack = chain ++ base) :
    Ends (config.executeWithin levels function) state
      (fun result after => config.image.Handed function base result after.actor.stack)
      fun _ after => config.image.Rises base after.actor.stack := by
  have rises : config.image.Rises base state.actor.stack := above ▸ .saved saved
  suffices left : Ends (config.executeWithin levels function) state (fun _ _ => True)
      fun _ after => config.image.Rises base after.actor.stack from
    (left.met (executeWithin_meets sound levels saved above)).weaken (fun _ _ holds => holds.1.1) fun _ _ => id
  induction levels generalizing function chain base state with
  | zero => exact rises
  | succ levels ih =>
      refine ((enter_above saved above).met (enter_meets saved above)).bind ?_
      rintro ⟨routine, act⟩ middle ⟨⟨entered, _⟩, _⟩
      have read : (get : Exec σ (Running σ)) middle = .ok middle middle := rfl
      let env : Env σ := ⟨config.image, routine, config.handler, config.executeWithin levels⟩
      have active : env.Active base act middle.actor.stack := entered.active _ _
      refine .after read ?_
      split
      · exact active.rises
      · have own : env.image.routine? env.routine.shape.function = some env.routine := by
          rw [(sound function routine entered.found).own]
          exact entered.found
        have trusted : env.Trusted := ⟨sound, fun _ _ _ _ saved above => executeWithin_meets sound levels saved above⟩
        have spares : env.Spares := fun _ _ _ _ saved above =>
          ((ih saved above (above ▸ .saved saved)).met (executeWithin_meets sound levels saved above)).weaken
            (fun _ _ holds => holds.1.1.rises) fun _ _ => id
        exact .counted (env.run_above trusted spares own config.steps active active.rises) (fun _ _ _ => trivial)
          fun _ _ => id

end RunConfig

end Reentry
