import Reentry.Proofs.Frames.Active
import Reentry.Proofs.Suspension.Direct

/-!
What a call forgets. A frame keeps no record of what the last invocation handed back. Sound code reads it
only between the invocation and the next question, so a call in direct style, which never loses it, goes
on in the same way as one that has come back from a frame.
-/

namespace Reentry

/-- Whether the instruction depends on what the last invocation handed back. -/
def Instr.recalls : Instr → Bool
  | .collectReturn _ | .writeBack _ _ | .propagateSuspension _ _ => true
  | _ => false

theorem Instr.Fits.heedless {instr : Instr} (fits : instr.Fits none) (straight : instr.isStraight) : instr.recalls = false := by
  cases instr with
  | collectReturn _ => cases fits
  | writeBack _ _ =>
      obtain ⟨_, returned, _⟩ := fits
      cases returned
  | propagateSuspension _ _ => cases straight
  | _ => rfl

namespace Activation

/-- The activation with another memory of its last invocation. -/
abbrev recalling (act : Activation) (last : Option Continuation) : Activation := { act with lastCall := last }

end Activation

/-- What comes of an instruction in a call with another memory of its last invocation. -/
def Flow.recalling (last : Option Continuation) : Flow → Flow
  | .next act => .next (act.recalling last)
  | .leave result => .leave result

namespace Env

variable {σ : Type} {env : Env σ} {act : Activation} {last : Option Continuation}

theorem step_recalling {instr : Instr} (heedless : instr.recalls = false) (notInvoke : ∀ callee, instr ≠ .invoke callee) :
    env.step (act.recalling last) instr = Flow.recalling last <$> env.step act instr := by
  have alike : act.Alike (act.recalling last) := ⟨rfl, rfl⟩
  by_cases straight : instr.isStraight
  · have unread (other : Activation) : instr.readsReturn → other.lastCall = act.lastCall := by
      intro reads
      cases instr <;> simp [Instr.recalls, Instr.readsReturn] at heedless reads
    calc env.step (act.recalling last) instr
        = Flow.forAct (act.recalling last) <$> env.step act instr := env.step_alike alike straight (unread _)
      _ = (fun flow => (Flow.forAct act flow).recalling last) <$> env.step act instr := by
          congr 1
          funext flow
          cases flow <;> rfl
      _ = Flow.recalling last <$> Flow.forAct act <$> env.step act instr := (Functor.map_map ..).symm
      _ = Flow.recalling last <$> env.step act instr := by
          rw [← env.step_alike (Activation.Alike.refl act) straight (unread act)]
  · cases instr with
    | label _ | mark _ => rfl
    | jump _ | dispatchReceive _ =>
        simp only [step, map_bind, map_pure, Flow.recalling]
    | jumpUnless cond target =>
        simp only [step, env.eval_alike alike, map_bind]
        congr 1
        funext value
        congr 1
        funext holds
        cases holds <;> simp [Flow.recalling]
    | invoke callee => exact absurd rfl (notInvoke callee)
    | «yield» request =>
        simp only [step, env.request_alike alike, map_bind, bind_map_left, map_pure, Flow.recalling]
        rw [env.request_alike (Activation.Alike.refl act)]
        simp only [bind_map_left]
        rfl
    | exit =>
        simp only [step]
        cases act.pending <;> rfl
    | propagateSuspension _ _ => cases heedless
    | _ => exact absurd rfl straight

/-- A call that will not look at what its last invocation handed back. -/
inductive Heedless (env : Env σ) : Activation → Prop
  | going {act : Activation} {rank recorded ahead} (follows : Follows env.routine rank act.position ahead)
      (sound : Outline.Sound env.image.Knows recorded none ahead) (free : act.pending = none) : Heedless env act
  | calling {act : Activation} {rank callee ahead} (follows : Follows env.routine rank act.position (.call callee :: ahead))
      (free : act.pending = none) : Heedless env act
  | leaving {act : Activation} (here : env.routine.body[act.position]? = some .exit)
      (next : ∀ reason, act.pending = some (.suspended reason) → reason.isTerminal = false →
        ∃ rank recorded ahead, Follows env.routine rank (act.position + 1) ahead ∧
          Outline.Sound env.image.Knows recorded none ahead) : Heedless env act

section

variable {invoke : FunctionId → Talking σ Continuation} {talk later : Talk σ} {after : Activation}

/-- The next instruction of such a call does not look either, or is an invocation. -/
theorem Heedless.here (laid : env.routine.Laid) (heedless : env.Heedless act) :
    ∃ instr, env.routine.body[act.position]? = some instr ∧ instr.recalls = false := by
  have idle {instr : Instr} (idle : instr.isPosition) : instr.recalls = false := by
    cases instr <;> first | rfl | cases idle
  cases heedless with
  | going follows sound free =>
      cases follows.stands laid with
      | pass here nothing _ _ => exact ⟨_, here, idle nothing⟩
      | act here straight _ =>
          cases sound with
          | act straight reads fits _ => exact ⟨_, here, fits.heedless straight⟩
          | call _ _ _ => exact ⟨_, here, rfl⟩
      | call => cases sound
      | stop here _ | jump here _ _ _ | finish here _ _ | ask here _ _ _ _ | dispatch here _ | branch here _ _ _
      | loop here _ => exact ⟨_, here, rfl⟩
  | calling follows free =>
      cases follows.stands laid with
      | pass here nothing _ _ => exact ⟨_, here, idle nothing⟩
      | jump here _ _ _ | call here _ _ _ _ _ _ => exact ⟨_, here, rfl⟩
  | leaving here next => exact ⟨_, here, rfl⟩

theorem turn_recalling {instr : Instr} (here : env.routine.body[act.position]? = some instr)
    (heedless : instr.recalls = false) (notInvoke : ∀ callee, instr ≠ .invoke callee) :
    env.turn invoke (act.recalling last) = Flow.recalling last <$> env.turn invoke act := by
  have moved : env.move (act.recalling last) = Flow.recalling last <$> env.move act := by
    have here' : env.routine.body[(act.recalling last).position]? = some instr := here
    rw [move_of_getElem? here, move_of_getElem? here']
    have stepped : env.step ({ act with position := act.position + 1 }.recalling last) instr
      = Flow.recalling last <$> env.step { act with position := act.position + 1 } instr := step_recalling heedless notInvoke
    exact stepped
  have alike : Activation.Alike { act with position := act.position + 1 }
      ({ act with position := act.position + 1 }.recalling last) := ⟨rfl, rfl⟩
  have plain : Talking.lift (env.move (act.recalling last)) = Flow.recalling last <$> Talking.lift (env.move act) := by
    rw [moved, Talking.lift_map]
  have same : env.crossing (act.recalling last) = env.crossing act := rfl
  unfold turn
  rw [map_bind, same]
  refine congrArg (Talking.isAnswered >>= ·) (funext fun answered => ?_)
  cases crosses : env.crossing act with
  | call callee =>
      have invokes := crossing_eq_call crosses
      rw [here] at invokes
      exact absurd (Option.some.inj invokes) (notInvoke callee)
  | ask question =>
      cases answered with
      | false => exact plain
      | true =>
          have asked : env.reason ({ act with position := act.position + 1 }.recalling last) question
            = env.reason { act with position := act.position + 1 } question := reason_alike alike question
          simp only [map_bind, map_pure]
          exact congrArg (fun work => Talking.lift work >>= _) asked
  | wait reason =>
      cases answered with
      | false => exact plain
      | true =>
          simp only [map_bind, map_pure]
          rfl
  | plain => exact plain

theorem move_jumpUnless {cond : Operand} {target : Target} {place : Nat} {state final : Running σ}
    (here : env.routine.body[act.position]? = some (.jumpUnless cond target))
    (leads : env.routine.position? target = some place) (moved : env.move act state = .ok (.next after) final) :
    after = { act with position := act.position + 1 } ∨ after = { act with position := place } := by
  rw [move_of_getElem? here, step] at moved
  simp only [position, leads] at moved
  obtain ⟨_, _, _, moved⟩ := Exec.bind_eq_ok.mp moved
  obtain ⟨holds, _, _, moved⟩ := Exec.bind_eq_ok.mp moved
  cases holds with
  | true =>
      cases moved
      exact .inl rfl
  | false =>
      cases moved
      exact .inr rfl

theorem move_dispatch {arms : List ReceiveArm} {state final : Running σ}
    (here : env.routine.body[act.position]? = some (.dispatchReceive arms))
    (moved : env.move act state = .ok (.next after) final) :
    ∃ arm ∈ arms, ∃ place, env.routine.landing? arm.entry = some place ∧ after = { act with position := place } := by
  rw [move_of_getElem? here, step] at moved
  obtain ⟨place, middle, dispatched, moved⟩ := Exec.bind_eq_ok.mp moved
  cases moved
  rcases env.dispatchReceive_startHandler arms with ⟨stop, _, _, failed⟩ | ⟨arm, member, _, _, arrived⟩
  · rw [failed] at dispatched
    cases dispatched
  · rw [arrived] at dispatched
    refine ⟨arm, member, place, ?_, rfl⟩
    simp only [position, Routine.position?] at dispatched
    cases leads : env.routine.landing? arm.entry with
    | none =>
        rw [leads] at dispatched
        cases dispatched
    | some found =>
        rw [leads] at dispatched
        cases dispatched
        rfl

theorem move_yield {request : YieldRequest} {state final : Running σ}
    (here : env.routine.body[act.position]? = some (.yield request))
    (moved : env.move act state = .ok (.next after) final) : after.position = act.position + 1 ∧
      (request.question? = none → ∀ reason, after.pending = some (.suspended reason) → reason.isTerminal = true) := by
  rw [move_of_getElem? here, step] at moved
  obtain ⟨result, middle, requested, moved⟩ := Exec.bind_eq_ok.mp moved
  cases moved
  refine ⟨request_position requested, fun final reason suspended => ?_⟩
  cases suspended' : result.2 with
  | completed value locals => simp [suspended'] at suspended
  | suspended other =>
      obtain rfl : other = reason := by simpa [suspended'] using suspended
      exact request_final final requested other suspended'

theorem turn_plain_eq_ok {flow : Flow} (plain : env.crossing act = .plain)
    (turned : env.turn invoke act talk = .ok flow later) : ∃ state, env.move act talk.state = .ok flow state := by
  rw [turn_plain plain] at turned
  obtain ⟨state, moved, _⟩ := Talking.lift_eq_ok.mp turned
  exact ⟨state, moved⟩

theorem turn_pass {instr : Instr} (here : env.routine.body[act.position]? = some instr) (idle : instr.isPosition)
    (turned : env.turn invoke act talk = .ok (.next after) later) : after = { act with position := act.position + 1 } := by
  have plain : env.crossing act = .plain := crossing_plain here (by cases instr <;> first | rfl | cases idle)
  obtain ⟨state, moved⟩ := turn_plain_eq_ok plain turned
  rw [move_pass here idle] at moved
  cases moved
  rfl

theorem turn_jump {target : Target} {place : Nat} (here : env.routine.body[act.position]? = some (.jump target))
    (leads : env.routine.position? target = some place) (turned : env.turn invoke act talk = .ok (.next after) later) :
    after = { act with position := place } := by
  obtain ⟨state, moved⟩ := turn_plain_eq_ok (crossing_plain here rfl) turned
  rw [move_jump here leads] at moved
  cases moved
  rfl

/-- A final yield leads to an exit behind which nothing comes. -/
theorem turn_finish {request : YieldRequest} (here : env.routine.body[act.position]? = some (.yield request))
    (behind : env.routine.body[act.position + 1]? = some .exit) (final : request.question? = none)
    (turned : env.turn invoke act talk = .ok (.next after) later) : env.Heedless after := by
  have plain : env.crossing act = .plain := by rw [crossing_yield here, final]
  obtain ⟨state, moved⟩ := turn_plain_eq_ok plain turned
  obtain ⟨position, ended⟩ := move_yield here moved
  refine .leaving (by rw [position]; exact behind) fun reason suspended waits => ?_
  rw [ended final reason suspended] at waits
  cases waits

theorem turn_question {question : Question} {resume : LabelId}
    (here : env.routine.body[act.position]? = some (.yield (question.request resume)))
    (turned : env.turn invoke act talk = .ok (.next after) later) : after.position = act.position + 1 := by
  have asks : env.crossing act = .ask question := by
    rw [crossing_yield here]
    cases question <;> rfl
  by_cases answers : talk.answers = []
  · rw [turn_unanswered (fun callee => by rw [asks]; simp) answers] at turned
    obtain ⟨state, moved, _⟩ := Talking.lift_eq_ok.mp turned
    exact (move_yield here moved).1
  · rw [turn_ask asks answers] at turned
    obtain ⟨reason, _, _, went⟩ := Exec.bind_eq_ok.mp turned
    cases went
    rfl

/-- Unless it invokes a callee, such a call stays heedless. -/
theorem Heedless.turn (laid : env.routine.Laid) (heedless : env.Heedless act)
    (notInvoke : ∀ callee, env.routine.body[act.position]? ≠ some (.invoke callee))
    (turned : env.turn invoke act talk = .ok (.next after) later) : env.Heedless after := by
  cases heedless with
  | going follows sound free =>
      cases follows.stands laid with
      | stop here behind => exact turn_finish here behind rfl turned
      | finish here behind final => exact turn_finish here behind final turned
      | pass here nothing next _ =>
          obtain rfl := turn_pass here nothing turned
          exact .going next sound free
      | jump here leads next _ =>
          obtain rfl := turn_jump here leads turned
          exact .going next sound free
      | loop here next =>
          obtain rfl := turn_pass here rfl turned
          exact .going next sound.unroll free
      | act here straight next =>
          obtain ⟨state, moved⟩ := turn_plain_eq_ok (crossing_straight here straight) turned
          rw [move_of_getElem? here] at moved
          rw [← env.step_withData straight moved]
          cases sound with
          | act straight reads fits rest => exact .going next rest free
          | call known reads rest => exact .calling next free
      | ask here behind leads close next =>
          cases sound with
          | ask reads rest =>
              have arrived : after.position = act.position + 1 := turn_question here turned
              have goesOn := next.moved (after.position + 1) (by omega)
              exact .leaving (by rw [arrived]; exact behind) fun _ _ _ => ⟨_, _, _, goesOn, rest⟩
      | call => cases sound
      | dispatch here next =>
          obtain ⟨state, moved⟩ := turn_plain_eq_ok (crossing_plain here rfl) turned
          obtain ⟨arm, member, place, leads, rfl⟩ := move_dispatch here moved
          obtain ⟨found, same, follows⟩ := next arm member
          cases leads.symm.trans same
          exact .calling follows free
      | branch here leads whenTrue whenFalse =>
          obtain ⟨state, moved⟩ := turn_plain_eq_ok (crossing_plain here rfl) turned
          cases sound with
          | branch reads onTrue onFalse rest =>
              rcases move_jumpUnless here leads moved with rfl | rfl
              · exact .going whenTrue (onTrue.append rest) free
              · exact .going whenFalse (onFalse.append rest) free
  | calling follows free =>
      cases follows.stands laid with
      | pass here nothing next _ =>
          obtain rfl := turn_pass here nothing turned
          exact .calling next free
      | jump here leads next _ =>
          obtain rfl := turn_jump here leads turned
          exact .calling next free
      | call here => exact absurd here (notInvoke _)
  | leaving here next =>
      have leaves {flow : Flow} {state : Running σ} (moved : env.move act talk.state = .ok flow state) :
          ∃ result, flow = .leave result := by
        rw [move_of_getElem? here, step] at moved
        cases pending : act.pending with
        | none =>
            rw [pending] at moved
            cases moved
        | some result =>
            rw [pending] at moved
            cases moved
            exact ⟨result, rfl⟩
      have leaves' (turned : Talking.lift (env.move act) talk = .ok (.next after) later) : False := by
        obtain ⟨state, moved, _⟩ := Talking.lift_eq_ok.mp turned
        obtain ⟨_, left⟩ := leaves moved
        cases left
      cases crosses : env.crossing act with
      | call callee => exact absurd (crossing_eq_call crosses) (notInvoke callee)
      | ask question =>
          obtain ⟨request, yields, _⟩ := crossing_eq_ask crosses
          rw [here] at yields
          cases yields
      | plain =>
          rw [turn_plain crosses] at turned
          exact (leaves' turned).elim
      | wait reason =>
          cases answers : talk.answers with
          | nil =>
              rw [turn_unanswered (fun callee => by rw [crosses]; simp) answers] at turned
              exact (leaves' turned).elim
          | cons reply rest =>
              rw [turn_wait crosses answers] at turned
              cases turned
              obtain ⟨_, suspended, waits⟩ := crossing_eq_wait crosses
              obtain ⟨rank, recorded, ahead, follows, sound⟩ := next reason suspended waits
              exact .going follows sound rfl

theorem look_recalling {instr : Instr} (here : env.routine.body[act.position]? = some instr)
    (heedless : instr.recalls = false) (note : Observer σ) (again : Bool) :
    env.look note again (act.recalling last) = env.look note again act := by
  have quiet (act : Activation) (here : env.routine.body[act.position]? = some instr) : env.handsOn act = false := by
    unfold handsOn
    rw [here]
    cases instr <;> first | rfl | cases heedless
  unfold look
  rw [quiet act here, quiet (act.recalling last) here]

theorem turn_invoke_recalling {callee : FunctionId} (here : env.routine.body[act.position]? = some (.invoke callee)) :
    env.turn invoke (act.recalling last) = env.turn invoke act := by
  have calls : env.crossing act = .call callee := crossing_invoke here
  have calls' : env.crossing (act.recalling last) = .call callee := calls
  funext talk
  rw [turn_call calls, turn_call calls']

/-- A call in direct style goes on in the same way if it forgets what its last invocation handed back. -/
theorem direct_recalling (laid : env.routine.Laid) (note : Observer σ) (steps : Nat) (again : Bool)
    (heedless : env.Heedless act) :
    env.direct note invoke steps again (act.recalling last) = env.direct note invoke steps again act := by
  induction steps generalizing again act with
  | zero => rfl
  | succ steps ih =>
      obtain ⟨instr, here, quiet⟩ := heedless.here laid
      have idle : env.isIdle (act.recalling last) = env.isIdle act := rfl
      simp only [direct, look_recalling here quiet, idle]
      refine congrArg (Talking.lift (env.look note again act) >>= ·) (funext fun _ => ?_)
      by_cases invokes : ∃ callee, instr = .invoke callee
      · obtain ⟨callee, rfl⟩ := invokes
        rw [turn_invoke_recalling here]
      · have notInvoke : ∀ callee, instr ≠ .invoke callee := fun callee same => invokes ⟨callee, same⟩
        rw [turn_recalling here quiet notInvoke, bind_map_left]
        funext talk
        cases turned : env.turn invoke act talk with
        | error stop later => rw [Exec.bind_of_error turned, Exec.bind_of_error turned]
        | ok flow later =>
            rw [Exec.bind_of_ok turned, Exec.bind_of_ok turned]
            cases flow with
            | leave result => rfl
            | next after =>
                have still : ∀ callee, env.routine.body[act.position]? ≠ some (.invoke callee) := by
                  intro callee same
                  exact notInvoke callee (Option.some.inj (here.symm.trans same))
                exact congrFun (ih _ (heedless.turn laid still turned)) later

end

end Env

end Reentry
