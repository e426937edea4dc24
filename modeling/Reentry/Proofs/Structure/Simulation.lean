import Mathlib.Tactic.Choose
import Reentry.Proofs.Execution.Monad
import Reentry.Proofs.Execution.Reads
import Reentry.Proofs.Structure.Control
import Reentry.Proofs.Structure.Course

/-!
Lowering keeps the meaning of a body. A call that runs through the flat code of a lowered function does
what a call that goes along the outline of the function does, step by step; the code takes further
steps only at labels, marks and jumps, and behind a callee that has returned.
-/

namespace Reentry

/-- A clock starts at 0, ticks at most once at a time and never stops for good. -/
structure IsClock (clock : Nat → Nat) : Prop where
  start : clock 0 = 0
  ticks : ∀ count, clock (count + 1) = clock count ∨ clock (count + 1) = clock count + 1
  unbounded : ∀ time, ∃ count, clock count = time

/-- If each step of one system is matched by a step of another one or makes a rank fall, the second
system keeps up with the first by some clock. -/
theorem exists_clock {X Y : Type} {next : X → X} {next' : Y → Y} {related : Nat → X → Y → Prop}
    (step : ∀ {rank x y}, related rank x y →
      (∃ less, less < rank ∧ related less (next x) y) ∨ ∃ more, related more (next x) (next' y))
    {rank : Nat} {x : X} {y : Y} (start : related rank x y) :
    ∃ clock, IsClock clock ∧ ∀ count, ∃ rank, related rank (next^[count] x) (next'^[clock count] y) := by
  let Point (count : Nat) := { point : Nat × Nat // related point.2 (next^[count] x) (next'^[point.1] y) }
  have advance (count : Nat) (point : Point count) : ∃ later : Point (count + 1),
      (later.1.1 = point.1.1 ∧ later.1.2 < point.1.2) ∨ later.1.1 = point.1.1 + 1 := by
    obtain ⟨⟨time, rank⟩, holds⟩ := point
    rcases step holds with ⟨less, falls, holds⟩ | ⟨more, holds⟩
    · exact ⟨⟨(time, less), by rwa [Function.iterate_succ_apply']⟩, .inl ⟨rfl, falls⟩⟩
    · exact ⟨⟨(time + 1, more), by simpa only [Function.iterate_succ_apply'] using holds⟩, .inr rfl⟩
  choose follow follows using advance
  let points (count : Nat) : Point count := Nat.rec ⟨(0, rank), start⟩ follow count
  have tick (count : Nat) : ((points (count + 1)).1.1 = (points count).1.1 ∧
      (points (count + 1)).1.2 < (points count).1.2) ∨ (points (count + 1)).1.1 = (points count).1.1 + 1 :=
    follows count (points count)
  refine ⟨fun count => (points count).1.1, ⟨rfl, fun count => (tick count).imp_left And.left, ?_⟩,
    fun count => ⟨_, (points count).2⟩⟩
  -- between two ticks the rank falls
  have later (bound : Nat) : ∀ count, (points count).1.2 ≤ bound → ∃ after, (points after).1.1 = (points count).1.1 + 1 := by
    induction bound with
    | zero =>
        intro count low
        rcases tick count with ⟨_, falls⟩ | ticked
        · omega
        · exact ⟨count + 1, ticked⟩
    | succ bound ih =>
        intro count low
        rcases tick count with ⟨same, falls⟩ | ticked
        · obtain ⟨after, reached⟩ := ih (count + 1) (by omega)
          exact ⟨after, by omega⟩
        · exact ⟨count + 1, ticked⟩
  intro time
  induction time with
  | zero => exact ⟨0, rfl⟩
  | succ time ih =>
      obtain ⟨count, reached⟩ := ih
      obtain ⟨after, next⟩ := later _ count (Nat.le_refl _)
      exact ⟨after, by simp only [next, reached]⟩

/-- Turns of two systems that say the same and go on in a related way. -/
inductive Agree {σ X Y : Type} (related : X → Y → Prop) :
    EStateM.Result Stop (Running σ) (Turn X) → EStateM.Result Stop (Running σ) (Turn Y) → Prop
  | on {here here' state} (holds : related here here') : Agree related (.ok (.on here) state) (.ok (.on here') state)
  | ask {reason here here' state} (holds : related here here') :
      Agree related (.ok (.ask reason here) state) (.ok (.ask reason here') state)
  | ended {result state} : Agree related (.ok (.ended result) state) (.ok (.ended result) state)
  | error {stop state} : Agree related (.error stop state) (.error stop state)

/-- A call in flat code has come as far as a call along an outline. Behind an invocation the code still
has to find out that the callee has returned. -/
structure Keeps (routine : Routine) (rank : Nat) (flat : Activation) (course : Course) : Prop where
  alike : course.act.Alike flat
  called : flat.lastCall = course.act.lastCall
  staying : flat.isLeaving = false
  here : Follows routine rank flat.position course.ahead ∨
    ∃ less callee landing, less < rank ∧ flat.lastCall.isSome ∧
      routine.body[flat.position]? = some (.propagateSuspension callee landing) ∧
      Follows routine less (flat.position + 1) course.ahead

namespace Activation

variable {act : Activation}

theorem isLeaving_eq_false (staying : act.isLeaving = false) :
    act.pending = none ∧ ∀ reason, act.lastCall ≠ some (.suspended reason) := by
  unfold isLeaving at staying
  rcases pending : act.pending with _ | result
  · refine ⟨rfl, fun reason suspended => ?_⟩
    simp [pending, suspended] at staying
  · simp [pending] at staying

end Activation

namespace Env

variable {σ : Type} {env : Env σ} {act : Activation} {state : Running σ}

theorem move_of_getElem? {instr : Instr} (here : env.routine.body[act.position]? = some instr) :
    env.move act = env.step { act with position := act.position + 1 } instr := by
  simp only [move, here]

theorem step_position {instr : Instr} (idle : instr.isPosition) : env.step act instr = pure (.next act) := by
  cases instr <;> first | rfl | cases idle

theorem reason_alike {other : Activation} (alike : act.Alike other) (question : Question) :
    env.reason other question = env.reason act question := by
  cases question <;> simp only [reason, env.eval_alike alike]

theorem stride_of_next {after : Activation} {final : Running σ} (moved : env.move act state = .ok (.next after) final)
    (staying : after.isLeaving = false) : env.stride act state = .ok (.on after) final := by
  rw [stride, Exec.bind_of_ok moved]
  simp only [staying]
  rfl

theorem stride_jump {target : Target} {place : Nat} (staying : act.isLeaving = false)
    (here : env.routine.body[act.position]? = some (.jump target)) (leads : env.routine.position? target = some place) :
    env.stride act state = .ok (.on { act with position := place }) state := by
  refine stride_of_next ?_ staying
  rw [move_of_getElem? here]
  simp only [step, position, leads]
  rfl

theorem stride_of_leave {after : Activation} {result : Continuation} {middle final : Running σ}
    (moved : env.move act state = .ok (.next after) middle) (leaving : after.isLeaving = true)
    (left : env.move after middle = .ok (.leave result) final) :
    env.stride act state = env.handOver result final := by
  rw [stride, Exec.bind_of_ok moved]
  simp only [leaving, if_true]
  rw [Exec.bind_of_ok left]

theorem stride_of_error {stop : Stop} {final : Running σ} (moved : env.move act state = .error stop final) :
    env.stride act state = .error stop final := by
  rw [stride, Exec.bind_of_error moved]

theorem saveFrame_apply (resume : LabelId) (pendingCall : Option FunctionId) :
    env.saveFrame act resume pendingCall state = .ok { act with locals := [], choices := [] }
      (state.push ⟨env.routine.shape.function, act.locals, resume, pendingCall, act.choices⟩) := rfl

/-- A call goes on with the frame that it has saved. -/
theorem reenter_pushed {frame : Frame} {place : Nat} (leads : env.routine.landing? frame.label = some place) :
    env.reenter (state.push frame) = .ok ⟨frame.locals, frame.choices, place, none, none⟩ state := by
  have looked : Exec.actor (state.push frame) = .ok (state.push frame).actor (state.push frame) := rfl
  rw [reenter, Exec.bind_of_ok looked]
  have above : (state.push frame).actor.stack = frame :: state.actor.stack := rfl
  simp only [above, leads]
  rfl

theorem handOver_waiting {frame : Frame} {place : Nat} {reason : YieldReason}
    (leads : env.routine.landing? frame.label = some place) (waits : reason.isTerminal = false) :
    env.handOver (.suspended reason) (state.push frame)
      = .ok (.ask reason ⟨frame.locals, frame.choices, place, none, none⟩) state := by
  simp only [handOver, waits]
  exact Exec.bind_of_ok (reenter_pushed leads)

theorem handOver_final {result : Continuation}
    (final : ∀ reason, result = .suspended reason → reason.isTerminal = true) :
    env.handOver result state = close result state := by
  cases result with
  | completed value locals => rfl
  | suspended reason => simp only [handOver, final reason rfl, if_true]

theorem request_final {request : YieldRequest} {after : Activation × Continuation} {final : Running σ}
    (ends : request.question? = none) (succeeds : env.request act request state = .ok after final) :
    ∀ reason, after.2 = .suspended reason → reason.isTerminal = true := by
  intro reason suspended
  cases request with
  | goto | raise | pop =>
      cases succeeds
      cases suspended
      rfl
  | ret =>
      cases succeeds
      cases suspended
  | retValue value =>
      simp only [request] at succeeds
      obtain ⟨_, _, _, finished⟩ := Exec.bind_eq_ok.mp succeeds
      cases finished
      cases suspended
  | send _ | receive _ | new _ _ _ | nondet _ => cases ends

theorem request_question (question : Question) (resume : LabelId) :
    env.request act (question.request resume) = (do
      let reason ← env.reason act question
      let saved ← env.saveFrame act resume none
      pure (saved, .suspended reason)) := by
  cases question <;> simp only [Question.request, request, reason, pure_bind, bind_assoc]

theorem reason_waits {question : Question} {reason : YieldReason} {final : Running σ}
    (succeeds : env.reason act question state = .ok reason final) : reason.isTerminal = false := by
  cases question with
  | send | receive | nondet =>
      cases succeeds
      rfl
  | new machine payload =>
      simp only [Env.reason] at succeeds
      obtain ⟨_, _, _, finished⟩ := Exec.bind_eq_ok.mp succeeds
      cases finished
      rfl

theorem request_position {request : YieldRequest} {after : Activation × Continuation} {final : Running σ}
    (succeeds : env.request act request state = .ok after final) : after.1.position = act.position := by
  rw [env.request_alike (Activation.Alike.refl act)] at succeeds
  obtain ⟨_, _, rfl⟩ := Exec.map_eq_ok.mp succeeds
  rfl

/-- A yield and the exit behind it, taken together. -/
theorem stride_yield {request : YieldRequest} (here : env.routine.body[act.position]? = some (.yield request))
    (behind : env.routine.body[act.position + 1]? = some .exit) :
    env.stride act state = (do
      let after ← env.request { act with position := act.position + 1 } request
      env.handOver after.2) state := by
  have moved : env.move act state = (do
      let after ← env.request { act with position := act.position + 1 } request
      pure (Flow.next { after.1 with pending := some after.2 })) state := by
    rw [move_of_getElem? here]
    rfl
  cases requested : env.request { act with position := act.position + 1 } request state with
  | error stop final =>
      rw [Exec.bind_of_error requested] at moved ⊢
      exact stride_of_error moved
  | ok after final =>
      rw [Exec.bind_of_ok requested] at moved ⊢
      have exits : env.routine.body[({ after.1 with pending := some after.2 } : Activation).position]? = some .exit := by
        rw [← behind, request_position requested]
      refine stride_of_leave moved rfl ?_
      rw [move_of_getElem? exits]
      rfl

/-- An instruction behind which the call goes on, in a call that is alike. -/
theorem stride_straight {own : Activation} {instr : Instr} (alike : own.Alike act) (called : act.lastCall = own.lastCall)
    (here : env.routine.body[act.position]? = some instr) (straight : instr.isStraight)
    (staying : act.isLeaving = false) :
    (∃ stop final, env.step own instr state = .error stop final ∧ env.stride act state = .error stop final) ∨
      ∃ after final, env.step own instr state = .ok (.next after) final ∧ after.lastCall = own.lastCall ∧
        env.stride act state = .ok (.on ({ act with position := act.position + 1 }.withData after)) final := by
  have moved : env.move act state
      = (Flow.forAct { act with position := act.position + 1 } <$> env.step own instr) state := by
    have alike : own.Alike { act with position := act.position + 1 } := ⟨alike.locals, alike.choices⟩
    rw [move_of_getElem? here, env.step_alike alike straight fun _ => called]
  cases stepped : env.step own instr state with
  | error stop final => exact .inl ⟨stop, final, rfl, stride_of_error (moved.trans (Exec.map_eq_error.mpr stepped))⟩
  | ok flow final =>
      obtain ⟨after, rfl⟩ := env.step_next straight stepped
      refine .inr ⟨after, final, rfl, ?_, ?_⟩
      · have same := stepped
        rw [env.step_alike (Activation.Alike.refl own) straight fun _ => rfl] at same
        obtain ⟨_ | _, _, kept⟩ := Exec.map_eq_ok.mp same
        · cases kept
          rfl
        · cases kept
      · exact stride_of_next (moved.trans (Exec.map_eq_ok.mpr ⟨_, stepped, rfl⟩)) staying

theorem agree_close {X Y : Type} {related : X → Y → Prop} (result : Continuation) (state : Running σ) :
    Agree related (close result state) (close result state) := by
  cases result with
  | completed value locals => exact .ended
  | suspended reason => exact .ended

/-- A frame that is saved at a final suspension is dropped. -/
theorem close_pushed {X : Type} (reason : YieldReason) (frame : Frame) (state : Running σ) :
    (close (.suspended reason) (state.push frame) : EStateM.Result _ _ (Turn X)) = close (.suspended reason) state := rfl

section

variable {course : Course} {rank : Nat}

abbrev Along (env : Env σ) (flat : Activation) (course : Course) : Prop := ∃ rank, Keeps env.routine rank flat course

/-- The end of a call that a request gives up. -/
theorem stride_agrees_finish {request : YieldRequest} (alike : course.act.Alike act)
    (here : env.routine.body[act.position]? = some (.yield request))
    (behind : env.routine.body[act.position + 1]? = some .exit) (ends : request.question? = none) :
    Agree env.Along (env.stride act state) ((do close (← env.request course.act request).2) state) := by
  have alike : course.act.Alike { act with position := act.position + 1 } := ⟨alike.locals, alike.choices⟩
  rw [stride_yield here behind, env.request_alike alike]
  cases requested : env.request course.act request state with
  | error stop final =>
      rw [Exec.bind_of_error (Exec.map_eq_error.mpr requested), Exec.bind_of_error requested]
      exact .error
  | ok after final =>
      rw [Exec.bind_of_ok (Exec.map_eq_ok.mpr ⟨_, requested, rfl⟩), Exec.bind_of_ok requested,
        handOver_final (request_final ends requested)]
      exact agree_close _ _

/-- A question: the frame that is saved is the one with which the call goes on. -/
theorem stride_agrees_ask {own : Activation} {question : Question} {resume : LabelId} {place : Nat}
    {ahead : List Outline} (alike : own.Alike act)
    (here : env.routine.body[act.position]? = some (.yield (question.request resume)))
    (behind : env.routine.body[act.position + 1]? = some .exit) (leads : env.routine.landing? resume = some place)
    (next : Follows env.routine rank place ahead) :
    Agree env.Along (env.stride act state) (env.follow ⟨.ask question :: ahead, own⟩ state) := by
  have alike' : own.Alike { act with position := act.position + 1 } := ⟨alike.locals, alike.choices⟩
  rw [stride_yield here behind, request_question, reason_alike alike']
  simp only [follow, bind_assoc, pure_bind]
  cases asked : env.reason own question state with
  | error stop final =>
      rw [Exec.bind_of_error asked, Exec.bind_of_error asked]
      exact .error
  | ok reason final =>
      rw [Exec.bind_of_ok asked, Exec.bind_of_ok asked, Exec.bind_of_ok (saveFrame_apply resume none),
        handOver_waiting leads (reason_waits asked)]
      exact .ask ⟨rank, ⟨alike.locals, alike.choices⟩, rfl, rfl, .inl next⟩

/-- A callee that is invoked: the call goes on if it has returned, invokes it again if it waits for an
answer, and ends if it is suspended for good. -/
theorem stride_agrees_call {own : Activation} {callee : FunctionId} {landing : LabelId} {place : Nat} {more : Nat}
    {ahead : List Outline} (alike : own.Alike act) (staying : act.isLeaving = false)
    (here : env.routine.body[act.position]? = some (.invoke callee))
    (behind : env.routine.body[act.position + 1]? = some (.propagateSuspension callee landing))
    (leads : env.routine.landing? landing = some place)
    (again : Follows env.routine rank place (.call callee :: ahead))
    (next : Follows env.routine more (act.position + 2) ahead) :
    Agree env.Along (env.stride act state) (env.follow ⟨.call callee :: ahead, own⟩ state) := by
  obtain ⟨free, _⟩ := Activation.isLeaving_eq_false staying
  have moved : env.move act state = (do
      let result ← env.invoke callee
      pure (Flow.next { act with position := act.position + 1, lastCall := some result })) state := by
    rw [move_of_getElem? here]
    rfl
  simp only [follow]
  cases invoked : env.invoke callee state with
  | error stop final =>
      rw [Exec.bind_of_error invoked] at moved
      rw [Exec.bind_of_error invoked, stride_of_error moved]
      exact .error
  | ok result final =>
      rw [Exec.bind_of_ok invoked] at moved
      rw [Exec.bind_of_ok invoked]
      cases result with
      | completed value locals =>
          have stays : ({ act with position := act.position + 1, lastCall := some (.completed value locals) } :
              Activation).isLeaving = false := by
            simp only [Activation.isLeaving, free]
          rw [stride_of_next moved stays]
          have keeps : Keeps env.routine (more + 1)
              { act with position := act.position + 1, lastCall := some (.completed value locals) }
              ⟨ahead, { own with lastCall := some (.completed value locals) }⟩ :=
            ⟨⟨alike.locals, alike.choices⟩, rfl, stays,
              .inr ⟨more, callee, landing, Nat.lt_succ_self _, rfl, behind, next⟩⟩
          exact .on ⟨_, keeps⟩
      | suspended reason =>
          have leaves : ({ act with position := act.position + 1, lastCall := some (.suspended reason) } :
              Activation).isLeaving = true := by
            simp only [Activation.isLeaving, free]
          have left : env.move { act with position := act.position + 1, lastCall := some (.suspended reason) } final
              = .ok (.leave (.suspended reason)) (final.push
                ⟨env.routine.shape.function, act.locals, landing, some callee, act.choices⟩) := by
            rw [move_of_getElem? behind]
            rfl
          rw [stride_of_leave moved leaves left]
          cases waits : reason.isTerminal with
          | true =>
              simp only [handOver, waits, if_true, close_pushed]
              exact agree_close _ _
          | false =>
              rw [handOver_waiting leads waits]
              simp only [waits]
              have keeps : Keeps env.routine rank ⟨act.locals, act.choices, place, none, none⟩
                  ⟨.call callee :: ahead, own.resumed⟩ := ⟨⟨alike.locals, alike.choices⟩, rfl, rfl, .inl again⟩
              exact .ask ⟨rank, keeps⟩

theorem dispatchReceive_pushHandler (arms : List ReceiveArm) :
    env.dispatchReceive arms = (do
      let actor ← Exec.actor
      match arms.filter (·.event.accepts actor.trigger) with
      | [] => env.trap (.noCase (actor.trigger.text (← get).heap))
      | [arm] => do
          env.pushHandler arm.handler actor.payload
          env.position (.label arm.entry)
      | _ => env.trap (.severalCases (actor.trigger.text (← get).heap))) := by
  unfold dispatchReceive pushHandler
  congr 1
  funext actor
  generalize arms.filter (fun arm => arm.event.accepts actor.trigger) = picked
  rcases picked with _ | ⟨arm, _ | ⟨other, more⟩⟩
  · rfl
  · simp only [bind_assoc]
    congr 1
    funext _
    cases env.image.routine? arm.handler with
    | none => rfl
    | some handler => by_cases none : handler.shape.paramCount = 0 <;> simp only [none, if_true, if_false, bind_assoc]
  · rfl

/-- Going to an arm of a receive is starting the handler of its case. -/
theorem dispatchReceive_startHandler (arms : List ReceiveArm) :
    (∃ stop final, env.startHandler (arms.map ReceiveArm.case) state = .error stop final ∧
      env.dispatchReceive arms state = .error stop final) ∨
      ∃ arm ∈ arms, ∃ final, env.startHandler (arms.map ReceiveArm.case) state = .ok arm.handler final ∧
        env.dispatchReceive arms state = env.position (.label arm.entry) final := by
  have accepted : (arms.map ReceiveArm.case).filter (fun case => case.event.accepts state.actor.trigger)
      = (arms.filter (fun arm => arm.event.accepts state.actor.trigger)).map ReceiveArm.case := List.filter_map
  have found : Exec.actor state = .ok state.actor state := rfl
  rw [dispatchReceive_pushHandler, startHandler, Exec.bind_of_ok found, Exec.bind_of_ok found, accepted]
  have member (arm : ReceiveArm) (accepts : arm ∈ arms.filter (fun arm => arm.event.accepts state.actor.trigger)) :
      arm ∈ arms := (List.mem_filter.mp accepts).1
  generalize arms.filter (fun arm => arm.event.accepts state.actor.trigger) = picked at member ⊢
  rcases picked with _ | ⟨arm, _ | ⟨other, more⟩⟩
  · exact .inl ⟨_, _, rfl, rfl⟩
  · simp only [List.map_cons, List.map_nil]
    cases pushed : env.pushHandler arm.handler state.actor.payload state with
    | error stop final => exact .inl ⟨stop, final, Exec.bind_of_error pushed, Exec.bind_of_error pushed⟩
    | ok _ final =>
        exact .inr ⟨arm, member arm (List.mem_singleton.mpr rfl), final, Exec.bind_of_ok pushed, Exec.bind_of_ok pushed⟩
  · exact .inl ⟨_, _, rfl, rfl⟩

/-- A receive goes on where one of its arms begins. -/
theorem dispatchReceive_target {arms : List ReceiveArm} {final : Running σ} {place : Nat}
    (dispatched : env.dispatchReceive arms state = .ok place final) : ∃ target, env.routine.position? target = some place := by
  rcases @dispatchReceive_startHandler _ env state arms with ⟨stop, after, _, failed⟩ | ⟨arm, _, after, _, went⟩
  · rw [failed] at dispatched
    cases dispatched
  · rw [went] at dispatched
    cases found : env.routine.position? (.label arm.entry) with
    | some position =>
        simp only [Env.position, found] at dispatched
        obtain ⟨rfl, _⟩ := Exec.pure_eq_ok.mp dispatched
        exact ⟨_, found⟩
    | none =>
        simp only [Env.position, found] at dispatched
        exact (Exec.trap_ne_ok.mp dispatched).elim

theorem stride_agrees_dispatch {own : Activation} {arms : List ReceiveArm} {ahead : List Outline}
    (alike : own.Alike act) (called : act.lastCall = own.lastCall) (staying : act.isLeaving = false)
    (here : env.routine.body[act.position]? = some (.dispatchReceive arms))
    (next : ∀ arm ∈ arms, ∃ place, env.routine.landing? arm.entry = some place ∧
      Follows env.routine rank place (.call arm.handler :: ahead)) :
    Agree env.Along (env.stride act state)
      (env.follow ⟨.dispatch (arms.map ReceiveArm.case) :: ahead, own⟩ state) := by
  have moved : env.move act state = (do
      let place ← env.dispatchReceive arms
      pure (Flow.next { act with position := place })) state := by
    rw [move_of_getElem? here]
    rfl
  simp only [follow]
  rcases env.dispatchReceive_startHandler arms with
    ⟨stop, final, started, dispatched⟩ | ⟨arm, member, final, started, dispatched⟩
  · rw [Exec.bind_of_error dispatched] at moved
    rw [Exec.bind_of_error started, stride_of_error moved]
    exact .error
  · obtain ⟨place, leads, follows⟩ := next arm member
    have arrived : env.dispatchReceive arms state = .ok place final := by
      rw [dispatched]
      simp only [position, Routine.position?, leads]
      rfl
    rw [Exec.bind_of_ok arrived] at moved
    rw [Exec.bind_of_ok started, stride_of_next moved staying]
    exact .on ⟨rank, ⟨alike.locals, alike.choices⟩, called, staying, .inl follows⟩

theorem stride_agrees_branch {own : Activation} {cond : Operand} {target : Target} {place more : Nat}
    {onTrue onFalse ahead : List Outline} (alike : own.Alike act) (called : act.lastCall = own.lastCall)
    (staying : act.isLeaving = false) (here : env.routine.body[act.position]? = some (.jumpUnless cond target))
    (leads : env.routine.position? target = some place)
    (whenTrue : Follows env.routine rank (act.position + 1) (onTrue ++ ahead))
    (whenFalse : Follows env.routine more place (onFalse ++ ahead)) :
    Agree env.Along (env.stride act state) (env.follow ⟨.branch cond onTrue onFalse :: ahead, own⟩ state) := by
  have alike' : own.Alike { act with position := act.position + 1 } := ⟨alike.locals, alike.choices⟩
  have moved : env.move act state = (do
      let value ← env.eval own cond
      let holds ← Exec.ofValueOp (value.asBool "condition")
      if holds then pure (Flow.next { act with position := act.position + 1 })
      else do pure (Flow.next { act with position := ← env.position target })) state := by
    rw [move_of_getElem? here, step, env.eval_alike alike']
  simp only [follow]
  cases evaluated : env.eval own cond state with
  | error stop final =>
      rw [Exec.bind_of_error evaluated] at moved
      rw [Exec.bind_of_error evaluated, stride_of_error moved]
      exact .error
  | ok value middle =>
      rw [Exec.bind_of_ok evaluated] at moved
      rw [Exec.bind_of_ok evaluated]
      cases tested : Exec.ofValueOp (value.asBool "condition") middle with
      | error stop final =>
          rw [Exec.bind_of_error tested] at moved
          rw [Exec.bind_of_error tested, stride_of_error moved]
          exact .error
      | ok holds final =>
          rw [Exec.bind_of_ok tested] at moved
          rw [Exec.bind_of_ok tested]
          cases holds with
          | true =>
              rw [stride_of_next moved staying]
              exact .on ⟨rank, ⟨alike.locals, alike.choices⟩, called, staying, .inl whenTrue⟩
          | false =>
              have jumped : env.move act state = .ok (.next { act with position := place }) final := by
                rw [moved]
                simp only [position, leads]
                rfl
              rw [stride_of_next jumped staying]
              exact .on ⟨more, ⟨alike.locals, alike.choices⟩, called, staying, .inl whenFalse⟩

/-- One step of the code is one step along the outline, or only brings it closer to the next one. -/
theorem stride_agrees (laid : env.routine.Laid) (keeps : Keeps env.routine rank act course) :
    (∃ less after, less < rank ∧ env.stride act state = .ok (.on after) state ∧
      Keeps env.routine less after course) ∨
      Agree env.Along (env.stride act state) (env.follow course state) := by
  obtain ⟨alike, called, staying, here⟩ := keeps
  obtain ⟨ahead, own⟩ := course
  rcases here with follows | ⟨less, callee, landing, falls, returned, here, next⟩
  · cases follows.stands laid with
    | stop here behind => exact .inr (stride_agrees_finish alike here behind rfl)
    | finish here behind ends => exact .inr (stride_agrees_finish alike here behind ends)
    | ask here behind leads _ next => exact .inr (stride_agrees_ask alike here behind leads next)
    | call here behind leads _ _ again next =>
        exact .inr (stride_agrees_call alike staying here behind leads again next)
    | pass here idle next falls =>
        refine .inl ⟨_, { act with position := act.position + 1 }, falls, stride_of_next ?_ staying,
          ⟨⟨alike.locals, alike.choices⟩, called, staying, .inl next⟩⟩
        rw [move_of_getElem? here, step_position idle]
        rfl
    | jump here leads next falls =>
        exact .inl ⟨_, _, falls, stride_jump staying here leads,
          ⟨⟨alike.locals, alike.choices⟩, called, staying, .inl next⟩⟩
    | loop here next =>
        have moved : env.stride act state = .ok (.on { act with position := act.position + 1 }) state := by
          refine stride_of_next ?_ staying
          rw [move_of_getElem? here]
          rfl
        rw [moved]
        exact .inr (.on ⟨_, ⟨alike.locals, alike.choices⟩, called, staying, .inl next⟩)
    | act here straight next =>
        refine .inr ?_
        simp only [follow]
        rcases stride_straight alike called here straight staying with
          ⟨stop, final, stepped, strode⟩ | ⟨after, final, stepped, kept, strode⟩
        · rw [Exec.bind_of_error stepped, strode]
          exact .error
        · rw [Exec.bind_of_ok stepped, strode]
          exact .on ⟨_, ⟨rfl, rfl⟩, called.trans kept.symm, staying, .inl next⟩
    | dispatch here next => exact .inr (stride_agrees_dispatch alike called staying here next)
    | branch here leads whenTrue whenFalse =>
        exact .inr (stride_agrees_branch alike called staying here leads whenTrue whenFalse)
  · obtain ⟨_, noReason⟩ := Activation.isLeaving_eq_false staying
    rcases last : act.lastCall with _ | ⟨value, locals⟩ | reason
    · rw [last] at returned
      cases returned
    · refine .inl ⟨less, { act with position := act.position + 1 }, falls, stride_of_next ?_ staying,
        ⟨⟨alike.locals, alike.choices⟩, called, staying, .inl next⟩⟩
      rw [move_of_getElem? here]
      simp only [step, last]
      rfl
    · exact absurd last (noReason reason)

/-- Two conversations about the same, one of them in flat code and one along an outline. -/
structure Talks (env : Env σ) (rank : Nat) (flat : Conversation σ Activation) (course : Conversation σ Course) :
    Prop where
  state : flat.state = course.state
  asked : flat.asked = course.asked
  ending : flat.ending = course.ending
  alike : course.here.act.Alike flat.here
  keeps : course.ending = none → Keeps env.routine rank flat.here course.here

theorem Talks.scene {flat : Conversation σ Activation} {talk : Conversation σ Course} (talks : env.Talks rank flat talk) :
    flat.scene id = talk.scene Course.act := by
  simp only [Conversation.scene, id, talks.state, talks.asked, talks.ending, talks.alike.locals, talks.alike.choices]

theorem talks_next (laid : env.routine.Laid) (answers : Nat → Running σ → Running σ) {flat : Conversation σ Activation}
    {talk : Conversation σ Course} (talks : env.Talks rank flat talk) :
    (∃ less, less < rank ∧ env.Talks less (flat.next env.stride id answers) talk) ∨
      ∃ more, env.Talks more (flat.next env.stride id answers) (talk.next env.follow Course.act answers) := by
  obtain ⟨here, state, asked, ending⟩ := flat
  obtain ⟨here', state', asked', ending'⟩ := talk
  obtain ⟨rfl, rfl, rfl, alike, keeps⟩ := talks
  cases ending with
  | some result => exact .inr ⟨rank, rfl, rfl, rfl, alike, fun open' => by cases open'⟩
  | none =>
      simp only [Conversation.next]
      have step : (∃ less after, less < rank ∧ env.stride here state = .ok (.on after) state ∧
          Keeps env.routine less after here') ∨ Agree env.Along (env.stride here state) (env.follow here' state) :=
        stride_agrees laid (keeps rfl)
      rcases step with ⟨less, after, falls, strode, closer⟩ | agrees
      · rw [strode]
        exact .inl ⟨less, falls, rfl, rfl, rfl, closer.alike, fun _ => closer⟩
      · refine .inr ?_
        generalize env.stride here state = turn, env.follow here' state = turn' at agrees
        cases agrees with
        | on holds =>
            obtain ⟨rank, keeps⟩ := holds
            exact ⟨rank, rfl, rfl, rfl, keeps.alike, fun _ => keeps⟩
        | ask holds =>
            obtain ⟨rank, keeps⟩ := holds
            exact ⟨rank, rfl, by simp only [id, keeps.alike.locals], rfl, keeps.alike, fun _ => keeps⟩
        | ended => exact ⟨rank, rfl, rfl, rfl, alike, fun open' => by cases open'⟩
        | error => exact ⟨rank, rfl, rfl, rfl, alike, fun open' => by cases open'⟩

end

end Env

/-- The flat code of a routine does what an outline says. Whatever the surroundings and the callees do,
whatever the answers to the questions of the call are and after any number of steps, the call has the
same locals and choices, has changed all that lies outside it in the same way, has asked the same
questions and has ended in the same way as the call along the outline at some time. Time passes with the
steps of the code and never stops for good. -/
def Routine.Performs (routine : Routine) (outline : List Outline) : Prop :=
  ∀ {σ : Type} (env : Env σ), env.routine = routine →
    ∀ (answers : Nat → Running σ → Running σ) (locals : List Value) (state : Running σ),
      ∃ clock, IsClock clock ∧ ∀ count,
        (env.flatAfter answers locals state count).scene id =
          (env.courseAfter answers outline locals state (clock count)).scene Course.act

namespace Program

end Program

end Reentry
