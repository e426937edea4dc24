import Reentry.Proofs.Frames.Run
import Reentry.Proofs.Suspension.Forget
import Reentry.Proofs.Suspension.Fuel

/-!
Calls in the code that are not about to be suspended, and what comes before a suspension: the call stands
in front of the invocation of a callee that waits, or at a question of its own.
-/

namespace Reentry

/-- Whether the call waits for the scheduler. -/
def Continuation.waits : Continuation → Bool
  | .completed _ _ => false
  | .suspended reason => !reason.isTerminal

/-- A call that neither hands on nor is about to hand back that it waits. -/
structure Activation.Settled (act : Activation) : Prop where
  pending : ∀ result, act.pending = some result → result.waits = false
  lastCall : ∀ result, act.lastCall = some result → result.waits = false

theorem Activation.Settled.of_none {act : Activation} (pending : act.pending = none) (lastCall : act.lastCall = none) :
    act.Settled := ⟨by simp [pending], by simp [lastCall]⟩

/-- What comes of an instruction of a call that stays settled. -/
def Flow.Settled : Flow → Prop
  | .next act => act.Settled
  | .leave result => result.waits = false

namespace Env

variable {σ : Type} {env : Env σ} {act : Activation} {state final : Running σ}

/-- The state after the observer has been told of the next instruction. -/
def noted (env : Env σ) (note : Observer σ) (again : Bool) (act : Activation) (state : Running σ) : Running σ :=
  if again || env.handsOn act then state
  else { state with outside := note env.routine.shape.function act.position state.outside }

theorem noted_exit (here : env.routine.body[act.position]? = some .exit) (note : Observer σ) (state : Running σ) :
    env.noted note false act state
      = { state with outside := note env.routine.shape.function act.position state.outside } := by
  have silent : env.handsOn act = false := by
    unfold handsOn
    rw [here]
  unfold noted
  rw [silent]
  rfl

theorem look_apply (note : Observer σ) (again : Bool) (act : Activation) (state : Running σ) :
    env.look note again act state = .ok () (env.noted note again act state) := by
  unfold look noted
  cases again || env.handsOn act <;> rfl

theorem noted_steady (note : Observer σ) (again : Bool) (act : Activation) (state : Running σ) :
    state.Steady (env.noted note again act state) := by
  unfold noted
  cases again || env.handsOn act <;> exact ⟨rfl, rfl, rfl⟩

theorem watch_succ (note : Observer σ) (steps : Nat) (again : Bool) :
    env.watch note (steps + 1) again act state = (match env.move act (env.noted note again act state) with
      | .ok (.next after) final => env.watch note steps (again && env.isIdle act) after final
      | .ok (.leave result) final => .ok result final
      | .error stop final => .error stop final) := by
  rw [watch, Exec.bind_of_ok (look_apply note again act state), Exec.bind_apply]
  cases env.move act (env.noted note again act state) with
  | ok flow final => cases flow <;> rfl
  | error stop final => rfl

theorem watch_done {note : Observer σ} {count : Nat} {again : Bool} {result : EStateM.Result Stop (Running σ) Continuation}
    (watched : env.watch note count again act state = result) (done : Done result) : ∃ more, count = more + 1 := by
  cases count with
  | zero =>
      subst watched
      exact absurd rfl (done state)
  | succ more => exact ⟨more, rfl⟩

/-- A caller whose callee waits saves its frame and leaves, and the observer is not told. -/
theorem watch_propagate {callee : FunctionId} {landing : LabelId} {reason : YieldReason}
    (here : env.routine.body[act.position]? = some (.propagateSuspension callee landing))
    (last : act.lastCall = some (.suspended reason)) (note : Observer σ) (count : Nat) (again : Bool) :
    env.watch note (count + 1) again act state = .ok (.suspended reason)
      (state.push ⟨env.routine.shape.function, act.locals, landing, some callee, act.choices⟩) := by
  have silent : env.noted note again act state = state := by
    have hands : env.handsOn act = true := by
      unfold handsOn
      rw [here, last]
    unfold noted
    rw [hands, Bool.or_true]
    rfl
  rw [watch_succ, silent, move_of_getElem? here]
  simp only [step, last]
  rfl

theorem watch_exit {result : Continuation} (here : env.routine.body[act.position]? = some .exit)
    (pending : act.pending = some result) (note : Observer σ) (count : Nat) (again : Bool) :
    env.watch note (count + 1) again act state = .ok result (env.noted note again act state) := by
  rw [watch_succ, move_of_getElem? here]
  simp only [step, pending]
  rfl

theorem direct_succ (note : Observer σ) (invoke : FunctionId → Talking σ Continuation) (steps : Nat) (again : Bool)
    (talk : Talk σ) : env.direct note invoke (steps + 1) again act talk =
      (match env.turn invoke act { talk with state := env.noted note again act talk.state } with
        | .ok (.next after) later => env.direct note invoke steps (again && env.isIdle act) after later
        | .ok (.leave result) later => .ok result later
        | .error stop later => .error stop later) := by
  rw [direct, Exec.bind_of_ok (Talking.lift_of_ok (look_apply note again act talk.state)), Exec.bind_apply]
  cases env.turn invoke act { talk with state := env.noted note again act talk.state } with
  | ok flow later => cases flow <;> rfl
  | error stop later => rfl

theorem move_invoke {callee : FunctionId} (here : env.routine.body[act.position]? = some (.invoke callee)) :
    env.move act state = (match env.invoke callee state with
      | .ok value final => .ok (.next { act with position := act.position + 1, lastCall := some value }) final
      | .error stop final => .error stop final) := by
  rw [move_of_getElem? here, step, Exec.bind_apply]
  cases env.invoke callee state <;> rfl

/-- A question saves the frame of the call in the code. -/
theorem move_question {question : Question} {resume : LabelId}
    (here : env.routine.body[act.position]? = some (.yield (question.request resume))) :
    env.move act state = (match env.reason { act with position := act.position + 1 } question state with
      | .ok reason final => .ok
          (.next ⟨[], [], act.position + 1, act.lastCall, some (.suspended reason)⟩)
          (final.push ⟨env.routine.shape.function, act.locals, resume, none, act.choices⟩)
      | .error stop final => .error stop final) := by
  rw [move_of_getElem? here, step, request_question, bind_assoc, Exec.bind_apply]
  cases env.reason { act with position := act.position + 1 } question state <;> rfl

/-- An instruction that has nothing to do with suspension leaves a settled call settled. -/
theorem move_settled (plain : env.crossing act = .plain) (settled : act.Settled) {flow : Flow}
    (moved : env.move act state = .ok flow final) : flow.Settled := by
  cases here : env.routine.body[act.position]? with
  | none =>
      unfold move at moved
      rw [here] at moved
      cases moved
  | some instr =>
      rw [move_of_getElem? here] at moved
      by_cases straight : instr.isStraight
      · obtain ⟨after, rfl⟩ := env.step_next straight moved
        have kept := env.step_withData straight moved
        change after.Settled
        rw [← kept]
        exact ⟨settled.pending, settled.lastCall⟩
      · cases instr with
        | label _ | mark _ =>
            cases moved
            exact ⟨settled.pending, settled.lastCall⟩
        | jump target =>
            obtain ⟨place, _, _, went⟩ := Exec.bind_eq_ok.mp moved
            cases went
            exact ⟨settled.pending, settled.lastCall⟩
        | jumpUnless cond target =>
            obtain ⟨_, _, _, tested⟩ := Exec.bind_eq_ok.mp moved
            obtain ⟨holds, _, _, went⟩ := Exec.bind_eq_ok.mp tested
            cases holds with
            | true =>
                cases went
                exact ⟨settled.pending, settled.lastCall⟩
            | false =>
                obtain ⟨place, _, _, went⟩ := Exec.bind_eq_ok.mp went
                cases went
                exact ⟨settled.pending, settled.lastCall⟩
        | dispatchReceive arms =>
            obtain ⟨place, _, _, went⟩ := Exec.bind_eq_ok.mp moved
            cases went
            exact ⟨settled.pending, settled.lastCall⟩
        | invoke callee =>
            rw [crossing_invoke here] at plain
            cases plain
        | propagateSuspension callee resume =>
            simp only [step] at moved
            rcases last : act.lastCall with _ | ⟨value, locals⟩ | reason <;> simp only [last] at moved
            · cases moved
            · cases moved
              exact ⟨settled.pending, by simpa only [last] using settled.lastCall⟩
            · cases moved
              exact settled.lastCall _ last
        | «yield» request =>
            have final : request.question? = none := by
              rw [crossing_yield here] at plain
              cases asked : request.question? with
              | none => rfl
              | some question => simp [asked] at plain
            obtain ⟨⟨after, result⟩, _, requested, went⟩ := Exec.bind_eq_ok.mp moved
            cases went
            refine ⟨fun other same => ?_, ?_⟩
            · cases same
              cases result with
              | completed value locals => rfl
              | suspended reason => simp [Continuation.waits, request_final final requested reason rfl]
            · have kept := requested
              rw [env.request_alike (Activation.Alike.refl _)] at kept
              obtain ⟨_, _, same⟩ := Exec.map_eq_ok.mp kept
              cases same
              exact settled.lastCall
        | exit =>
            simp only [step] at moved
            cases pending : act.pending with
            | none =>
                simp only [pending] at moved
                cases moved
            | some result =>
                simp only [pending] at moved
                cases moved
                exact settled.pending _ pending
        | _ => exact absurd rfl straight

namespace Active

variable {base stack : List Frame}

/-- A call in front of an invocation has the frames of the callee on the stack. -/
theorem at_invoke (laid : env.routine.Laid) (active : env.Active base act stack) {callee : FunctionId}
    (here : env.routine.body[act.position]? = some (.invoke callee)) :
    ∃ landing place chain, env.image.Expects env.routine callee landing act.choices place ∧ act.position = place + 1 ∧
      act.Filled env.routine [] ∧ env.image.Saved callee chain ∧ stack = chain ++ base := by
  cases active with
  | going follows sound filled called =>
      cases follows.stands laid with
      | act other straight next =>
          rw [here] at other
          cases other
          cases straight
      | pass other idle next _ =>
          rw [here] at other
          cases other
          cases idle
      | call => cases sound
      | stop other _ | jump other _ _ _ | finish other _ _ | ask other _ _ _ _ | dispatch other _ | branch other _ _ _
      | loop other _ =>
          rw [here] at other
          cases other
  | calling follows sound filled enough saved =>
      cases follows.stands laid with
      | pass other idle next _ =>
          rw [here] at other
          cases other
          cases idle
      | jump other _ _ _ =>
          rw [here] at other
          cases other
      | @call less more position _ landing place _ other behind leads close label again next =>
          rw [here] at other
          cases other
          rw [close] at here behind next
          exact ⟨landing, place, _, ⟨saved.known, leads, label, here, behind, _, _, _, _, next, sound, filled.records, enough⟩,
            close, ⟨filled.slots, by simp, filled.free⟩, saved, rfl⟩
  | returning position expects filled last handed =>
      rw [position, expects.propagate] at here
      cases here
  | leaving other _ _ =>
      rw [here] at other
      cases other

/-- A call at a question goes on behind it, and does not care what its last invocation handed back. -/
theorem at_question (laid : env.routine.Laid) (active : env.Active base act stack) {request : YieldRequest}
    {question : Question} (here : env.routine.body[act.position]? = some (.yield request))
    (asks : request.question? = some question) :
    ∃ resume rank recorded ahead, request = question.request resume ∧
      env.routine.body[act.position + 1]? = some .exit ∧ env.routine.landing? resume = some (act.position + 2) ∧
      Follows env.routine rank (act.position + 2) ahead ∧ Outline.Sound env.image.Knows recorded none ahead ∧
      act.Filled env.routine recorded ∧ ∀ other, (question.request other).Reads env.image.Knows recorded := by
  cases active with
  | going follows sound filled called =>
      cases follows.stands laid with
      | act other straight next =>
          rw [here] at other
          cases other
          cases straight
      | pass other idle next _ =>
          rw [here] at other
          cases other
          cases idle
      | call => cases sound
      | stop other _ =>
          rw [here] at other
          cases other
          cases asks
      | finish other _ final =>
          rw [here] at other
          cases other
          rw [asks] at final
          cases final
      | @ask less _ found resume place outline other behind leads close next =>
          rw [here] at other
          cases other
          obtain rfl : found = question := by
            cases found <;> exact Option.some.inj asks
          cases sound with
          | ask reads rest => exact ⟨resume, _, _, _, rfl, behind, close ▸ leads, close ▸ next, rest, filled, reads⟩
      | jump other _ _ _ | dispatch other _ | branch other _ _ _ | loop other _ =>
          rw [here] at other
          cases other
  | calling follows sound filled enough saved =>
      cases follows.stands laid with
      | pass other idle next _ =>
          rw [here] at other
          cases other
          cases idle
      | jump other _ _ _ | call other _ _ _ _ _ _ =>
          rw [here] at other
          cases other
  | returning position expects filled last handed =>
      rw [position, expects.propagate] at here
      cases here
  | leaving other _ _ =>
      rw [here] at other
      cases other

end Active

end Env

end Reentry
