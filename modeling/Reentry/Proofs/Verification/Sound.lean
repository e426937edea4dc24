import Reentry.Proofs.Frames.Stack
import Reentry.Proofs.Verification.Control

/-!
The checks are sound for arbitrary code. Whatever a body consists of, if it is assembled with checks, then a call
that is entered at its start or at one of its labels never runs past the end, jumps nowhere or has no landing
point; a frame that it saves can be resumed; and behind a yield that it resumes after, it leaves at the next
instruction and comes back at the one behind that.
-/

namespace Reentry

open Exec

variable {σ : Type}

/-- Where a routine is entered with a frame that is saved at a label, or with a new one. -/
def Routine.Entry (routine : Routine) (label : LabelId) (position : Nat) : Prop :=
  if label.isStart then position = 0 else routine.landing? label = some position

theorem YieldRequest.exists_question {request : YieldRequest} {resume : LabelId} (resumes : request.resume? = some resume) :
    ∃ question : Question, request = question.request resume := by
  cases request with
  | send label => exact ⟨.send, by cases resumes; rfl⟩
  | receive label => exact ⟨.receive, by cases resumes; rfl⟩
  | new machine payload label => exact ⟨.new machine payload, by cases resumes; rfl⟩
  | nondet label => exact ⟨.nondet, by cases resumes; rfl⟩
  | goto | raise | pop | ret | retValue _ => cases resumes

namespace Env

/-- What a call comes through while it runs. -/
inductive Passes (env : Env σ) (act : Activation) (state : Running σ) : Activation → Running σ → Prop
  | here : Passes env act state act state
  | next {middle after : Activation} {before final : Running σ} (passed : Passes env act state middle before)
      (moved : env.move middle before = .ok (.next after) final) : Passes env act state after final

/-- The frame that a call saves where it is, with these locals and choices. -/
def parked (env : Env σ) (act : Activation) (resume : LabelId) (pendingCall : Option FunctionId) : Frame :=
  ⟨env.routine.shape.function, act.locals, resume, pendingCall, act.choices⟩

/-- What becomes of a call that is about to save its frame: it leaves at the next instruction after a yield, and at
once if its callee was suspended; the frame is on top of the stack and can be resumed. -/
structure ParksSafely (env : Env σ) (act : Activation) (state : Running σ) : Prop where
  yields : ∀ request resume after final, env.routine.body[act.position]? = some (.yield request) →
    request.resume? = some resume → env.move act state = .ok (.next after) final →
    (∃ middle : Running σ, final = middle.push (env.parked act resume none)) ∧
      (∃ reason, env.move after final = .ok (.leave (.suspended reason)) final) ∧
      after.position = act.position + 1 ∧ env.routine.Entry resume (act.position + 2)
  propagates : ∀ callee resume result final, env.routine.body[act.position]? = some (.propagateSuspension callee resume) →
    env.move act state = .ok (.leave result) final →
    final = state.push (env.parked act resume (some callee)) ∧ ∃ place, env.routine.Entry resume place

variable {env : Env σ} {act : Activation} {state : Running σ}

section

variable (checked : env.routine.Checked)
include checked

theorem exit_of_last {instr : Instr} (here : env.routine.body[act.position]? = some instr)
    (last : act.position + 1 = env.routine.body.length) : instr = .exit := by
  obtain ⟨code, body⟩ := checked.ends
  rw [body] at here last
  have behind : act.position = code.length + 1 := by
    simp only [List.length_append, Routine.implicitReturn, List.length_cons, List.length_nil] at last
    omega
  rw [behind, List.getElem?_append_right (Nat.le_succ _), Nat.succ_sub (Nat.le_refl _), Nat.sub_self] at here
  exact (Option.some.inj here).symm

/-- A call never goes on behind the end of its body. -/
theorem move_inside {after : Activation} {final : Running σ} (inside : act.position < env.routine.body.length)
    (moved : env.move act state = .ok (.next after) final) : after.position < env.routine.body.length := by
  have here := List.getElem?_eq_getElem inside
  rw [move_of_getElem? here] at moved
  rcases step_target moved with behind | ⟨target, leads⟩
  · rw [behind]
    by_contra outside
    have last : act.position + 1 = env.routine.body.length := Nat.le_antisymm inside (Nat.le_of_not_lt outside)
    rw [exit_of_last checked here last] at moved
    rcases ends : act.pending with _ | result <;> simp only [step, ends] at moved <;> cases moved
  · exact checked.placed target _ leads

theorem passes_inside {here : Activation} {middle : Running σ} (inside : act.position < env.routine.body.length)
    (passes : env.Passes act state here middle) : here.position < env.routine.body.length := by
  induction passes with
  | here => exact inside
  | next _ moved ih => exact move_inside checked ih moved

theorem move_keepsControl (inside : act.position < env.routine.body.length) :
    Ends (env.move act) state (fun _ _ => True) fun stop _ => env.LostElsewhere stop := by
  have here := List.getElem?_eq_getElem inside
  have stepped := @step_keepsControl _ env { act with position := act.position + 1 } _
    (checked.targets _ (List.mem_of_getElem? here)) state
  unfold Ends at stepped ⊢
  rwa [move_of_getElem? here]

/-- A run loses control only if its callees or the handler of effects do. -/
theorem run_keepsControl (steps : Nat) (inside : act.position < env.routine.body.length) :
    Ends (env.run steps act) state (fun _ _ => True) fun stop _ => env.LostElsewhere stop := by
  induction steps generalizing act state with
  | zero => exact nofun
  | succ steps ih =>
      rw [run_succ]
      have first : Ends (env.move act) state (fun _ _ => True) fun stop _ => env.LostElsewhere stop :=
        move_keepsControl checked inside
      unfold Ends at first ⊢
      rw [bind_apply]
      cases moved : env.move act state with
      | error stop final =>
          rw [moved] at first
          exact first
      | ok flow final =>
          cases flow with
          | leave result => trivial
          | next after => exact ih (move_inside checked inside moved)

omit checked in
/-- Where a call goes on with a frame that is saved at one of its labels. -/
theorem entry_of_landing {label : LabelId} {place : Nat} (leads : env.routine.landing? label = some place) :
    env.routine.Entry label place := by
  unfold Routine.Entry
  rw [if_neg (by simp [Routine.isStart_of_landing? leads])]
  exact leads

theorem move_parks (state : Running σ) : env.ParksSafely act state := by
  refine ⟨fun request resume after final here resumes moved => ?_, fun callee resume result final here moved => ?_⟩
  · obtain ⟨exit, label⟩ := checked.resumable act.position request resume here resumes
    have known := checked.targets _ (List.mem_of_getElem? here) (.label resume) (by simp [Instr.targets, resumes])
    have leads := checked.stands (act.position + 2) resume label known
    rw [move_of_getElem? here] at moved
    obtain ⟨requested, middle, done, went⟩ := bind_eq_ok.mp moved
    cases went
    obtain ⟨question, rfl⟩ := YieldRequest.exists_question resumes
    rw [request_question] at done
    obtain ⟨reason, before, asked, saved⟩ := bind_eq_ok.mp done
    rw [bind_of_ok (saveFrame_apply resume none)] at saved
    cases saved
    refine ⟨⟨before, rfl⟩, ⟨reason, ?_⟩, rfl, entry_of_landing leads⟩
    rw [move_of_getElem? exit]
    rfl
  · have known := checked.targets _ (List.mem_of_getElem? here) (.label resume) (by simp [Instr.targets])
    obtain ⟨place, leads⟩ := Option.isSome_iff_exists.mp known
    refine ⟨?_, place, entry_of_landing leads⟩
    rw [move_of_getElem? here] at moved
    rcases last : act.lastCall with _ | result | reason <;> simp only [step, last] at moved
    · cases moved
    · cases moved
    · rw [bind_of_ok (saveFrame_apply resume (some callee))] at moved
      cases moved
      rfl

end

end Env

namespace RunConfig

variable {config : RunConfig σ} {state : Running σ} {routine : Routine} {frame : Frame} {below : List Frame}

/-- A frame at the start or at a label of its routine is not refused for want of a landing point, and it goes on
where it was saved. -/
theorem enter_entry (function : FunctionId) (found : config.image.routine? function = some routine)
    (above : state.actor.stack = frame :: below) (known : ∃ place, routine.Entry frame.label place) :
    Exec.Ends (config.enter function) state (fun entered _ => entered.1 = routine ∧ routine.Entry frame.label entered.2.position)
      fun stop _ => ∃ cause, stop = .failed cause ∧ cause.losesControl = false := by
  have read (state : Running σ) : actor state = .ok state.actor state := rfl
  have popped : popFrame routine state = .ok frame { state with actor := { state.actor with stack := below } } := by
    rw [popFrame, bind_of_ok (read state), above]
    rfl
  unfold enter
  rw [found]
  refine .after popped (.after (read _) ?_)
  dsimp only
  split
  · exact .fail ⟨_, rfl, rfl⟩
  · split
    · exact .fail ⟨_, rfl, rfl⟩
    · split
      · exact .fail ⟨_, rfl, rfl⟩
      · split
        · exact .fail ⟨_, rfl, rfl⟩
        · obtain ⟨place, entry⟩ := known
          unfold Routine.Entry at entry ⊢
          by_cases start : frame.label.isStart
          · simp only [start, if_true]
            exact .pure ⟨rfl, rfl⟩
          · simp only [start] at entry ⊢
            rw [entry]
            exact .pure ⟨rfl, rfl⟩

end RunConfig

namespace Sample

/-- Asks for a choice, and goes back for another one without asking if it is false. -/
def stubborn : List Instr :=
  [.yield (.nondet ⟨1⟩), .exit, .label ⟨1⟩, .recordChoice 0, .jumpUnless (.choice 0) (.label ⟨1⟩)]

/-- Surroundings in which the routine runs alone. -/
def alone (routine : Routine) : Env Unit :=
  ⟨⟨"", [routine], [], []⟩, routine, fun _ _ outside => .ok outside, fun _ => Exec.trap "nobody" .pastEnd⟩

/-- An actor without frames that has been given this choice. -/
def chosen (choice : Bool) : Running Unit :=
  ⟨.empty, ⟨⟨0⟩, ⟨0⟩, "Player", [], .null, .null, none, [], ⟨some choice, none⟩, []⟩, (), 0⟩

end Sample

end Reentry
