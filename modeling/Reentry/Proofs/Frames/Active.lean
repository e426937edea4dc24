import Reentry.Proofs.Frames.Step
import Reentry.Proofs.Structure.Simulation

/-!
A call of a sound routine between two of its instructions is in one of four situations: it goes on by
itself; the frames of a callee lie on the stack and the code comes to its invocation; the callee has
handed something back and the code comes to the check behind the invocation; or the call is about to
leave. Each instruction leads from one of them to another one.
-/

namespace Reentry

/-- A call that has what its routine needs, these choices among it, and nothing to hand back yet. -/
structure Activation.Filled (act : Activation) (routine : Routine) (recorded : List Nat) : Prop where
  slots : act.locals.length = routine.shape.slotCount
  records : ∀ number ∈ recorded, number < act.choices.length
  free : act.pending = none

namespace Env

variable {σ : Type} {env : Env σ}

/-- A call in progress above the frames that were there before it. -/
inductive Active (env : Env σ) (base : List Frame) : Activation → List Frame → Prop
  | going {act rank recorded returned ahead} (follows : Follows env.routine rank act.position ahead)
      (sound : Outline.Sound env.image.Knows recorded returned ahead) (filled : act.Filled env.routine recorded)
      (called : act.Returned returned) : Active env base act base
  | calling {act rank recorded count callee ahead chain}
      (follows : Follows env.routine rank act.position (.call callee :: ahead))
      (sound : Outline.Sound env.image.Knows recorded (some count) ahead) (filled : act.Filled env.routine recorded)
      (enough : ∀ routine, env.image.routine? callee = some routine → count ≤ routine.shape.slotCount)
      (saved : env.image.Saved callee chain) : Active env base act (chain ++ base)
  | returning {act callee landing place result stack} (here : act.position = place + 2)
      (expects : env.image.Expects env.routine callee landing act.choices place) (filled : act.Filled env.routine [])
      (last : act.lastCall = some result) (handed : env.image.Handed callee base result stack) :
      Active env base act stack
  | leaving {act result stack} (here : env.routine.body[act.position]? = some .exit) (pending : act.pending = some result)
      (handed : env.image.Handed env.routine.shape.function base result stack) : Active env base act stack

/-- What an instruction may lead to. -/
def Came (env : Env σ) (base : List Frame) : Flow → List Frame → Prop
  | .next act, stack => env.Active base act stack
  | .leave result, stack => env.image.Handed env.routine.shape.function base result stack

/-- The run keeps the rules, leads to a situation of a call and leaves machine and depth as they are. -/
abbrev Leads (env : Env σ) (base : List Frame) (work : Exec σ Flow) (state : Running σ) : Prop :=
  Exec.Meets env.handler work state fun flow after => env.Came base flow after.actor.stack ∧
    after.actor.machine = state.actor.machine ∧ after.depth = state.depth

open Exec

section

variable {act : Activation} {base : List Frame} {state : Running σ} {rank : Nat} {recorded : List Nat}
  {returned : Option Nat} {ahead : List Outline}

theorem reason_calm (trusted : env.Trusted) (records : ∀ number ∈ recorded, number < act.choices.length)
    {question : Question} (reads : ∀ resume, (question.request resume).Reads env.image.Knows recorded) :
    Calm env.handler question.Gives (env.reason act question) := by
  cases question with
  | send | receive | nondet => exact .pure rfl
  | new machine payload =>
      have reads : payload.Reads env.image.Knows recorded := reads .start
      exact .bind (eval_calm trusted records payload reads) fun result _ => .pure ⟨result, rfl⟩

/-- At the end of a call its frame is complete, and nothing lies above the frames below it. -/
theorem finish_leads (trusted : env.Trusted) (own : env.image.routine? env.routine.shape.function = some env.routine)
    {request : YieldRequest} (here : env.routine.body[act.position]? = some (.yield request))
    (behind : env.routine.body[act.position + 1]? = some .exit) (final : request.question? = none)
    (reads : request.Reads env.image.Knows recorded) (filled : act.Filled env.routine recorded) :
    env.Leads state.actor.stack (env.move act) state := by
  have whole : ∀ routine, env.image.routine? env.routine.shape.function = some routine →
      act.locals.length = routine.shape.slotCount := by
    intro routine found
    rw [own] at found
    cases found
    exact filled.slots
  rw [move_of_getElem? here]
  cases request with
  | goto | raise | pop => exact ⟨.leaving behind rfl ⟨[], .gone rfl, rfl⟩, rfl, rfl⟩
  | ret => exact ⟨.leaving behind rfl ⟨rfl, whole⟩, rfl, rfl⟩
  | retValue value =>
      have records : ∀ number ∈ recorded, number < ({ act with position := act.position + 1 } : Activation).choices.length :=
        filled.records
      have evaluated := eval_calm trusted records value reads
      have requested : Calm env.handler (fun after => ∃ result, after = ({ act with position := act.position + 1, locals := [] },
            Continuation.completed (some result) act.locals))
          (env.request { act with position := act.position + 1 } (.retValue value)) :=
        .bind evaluated fun result _ => .pure ⟨result, rfl⟩
      refine (requested state).bind ?_
      rintro _ final ⟨⟨result, rfl⟩, steady⟩
      exact .pure ⟨.leaving behind rfl ⟨steady.stack, whole⟩, steady.machine, steady.depth⟩
  | send _ | receive _ | new _ _ _ | nondet _ => cases final

/-- The frame of a call that goes on behind a label, saved with that label. -/
theorem saved_waits (own : env.image.routine? env.routine.shape.function = some env.routine) {resume : LabelId} {place : Nat}
    (leads : env.routine.landing? resume = some place) (next : Follows env.routine rank place ahead)
    (sound : Outline.Sound env.image.Knows recorded none ahead) (filled : act.Filled env.routine recorded) :
    env.image.Waits env.routine ⟨env.routine.shape.function, act.locals, resume, none, act.choices⟩ place :=
  ⟨own, filled.slots, Routine.entrance?_of_landing? leads, rfl, rank, recorded, ahead, next, sound, filled.records⟩

/-- The frame that is saved at a question goes on behind the question. -/
theorem ask_leads (trusted : env.Trusted) (own : env.image.routine? env.routine.shape.function = some env.routine)
    {question : Question} {resume : LabelId} {place : Nat}
    (here : env.routine.body[act.position]? = some (.yield (question.request resume)))
    (behind : env.routine.body[act.position + 1]? = some .exit) (leads : env.routine.landing? resume = some place)
    (close : place = act.position + 2) (next : Follows env.routine rank place ahead)
    (reads : ∀ resume, (question.request resume).Reads env.image.Knows recorded)
    (sound : Outline.Sound env.image.Knows recorded none ahead) (filled : act.Filled env.routine recorded) :
    env.Leads state.actor.stack (env.move act) state := by
  rw [move_of_getElem? here, step, request_question]
  have records : ∀ number ∈ recorded, number < ({ act with position := act.position + 1 } : Activation).choices.length :=
    filled.records
  have asked := reason_calm trusted records reads
  let frame : Frame := ⟨env.routine.shape.function, act.locals, resume, none, act.choices⟩
  have waits : env.image.Waits env.routine frame place := saved_waits own leads next sound filled
  subst close
  rw [bind_assoc]
  refine (asked state).bind fun reason final given => ?_
  obtain ⟨gives, steady⟩ := given
  have left : env.image.Left env.routine.shape.function reason [frame] := .asked waits here leads gives
  have below : (final.push frame).actor.stack = [frame] ++ state.actor.stack := by
    rw [← steady.stack]
    rfl
  exact ⟨.leaving behind rfl ⟨[frame], left, below⟩, steady.machine, steady.depth⟩

/-- In front of an invocation the frames of the callee are entered. -/
theorem invoke_leads (trusted : env.Trusted) {callee : FunctionId} {landing : LabelId} {place count : Nat}
    {chain : List Frame} (here : env.routine.body[act.position]? = some (.invoke callee))
    (behind : env.routine.body[act.position + 1]? = some (.propagateSuspension callee landing))
    (leads : env.routine.landing? landing = some place) (close : act.position = place + 1)
    (label : env.routine.body[place]? = some (.label landing)) (next : Follows env.routine rank (act.position + 2) ahead)
    (sound : Outline.Sound env.image.Knows recorded (some count) ahead) (filled : act.Filled env.routine recorded)
    (enough : ∀ routine, env.image.routine? callee = some routine → count ≤ routine.shape.slotCount)
    (saved : env.image.Saved callee chain) (above : state.actor.stack = chain ++ base) :
    env.Leads base (env.move act) state := by
  have expects : env.image.Expects env.routine callee landing act.choices place := by
    rw [close] at here behind next
    exact ⟨saved.known, leads, label, here, behind, rank, recorded, count, ahead, next, sound, filled.records, enough⟩
  rw [move_of_getElem? here]
  refine (trusted.invokes callee chain base state saved above).bind fun result final ⟨handed, machine, depth⟩ => ?_
  have arrived : act.position + 1 = place + 2 := congrArg (· + 1) close
  exact .pure ⟨.returning arrived expects ⟨filled.slots, by simp, filled.free⟩ rfl handed, machine, depth⟩

/-- Behind an invocation the frame of the caller goes on top of those of a callee that waits. -/
theorem propagate_leads (own : env.image.routine? env.routine.shape.function = some env.routine)
    {callee : FunctionId} {landing : LabelId} {place : Nat} {result : Continuation} (here : act.position = place + 2)
    (expects : env.image.Expects env.routine callee landing act.choices place) (filled : act.Filled env.routine [])
    (last : act.lastCall = some result) (handed : env.image.Handed callee base result state.actor.stack) :
    env.Leads base (env.move act) state := by
  obtain ⟨known, leads, label, invoke, propagate, goesOn⟩ := id expects
  rw [← here] at propagate
  rw [move_of_getElem? propagate]
  simp only [step, last]
  cases result with
  | completed value locals =>
      obtain ⟨same, whole⟩ := handed
      obtain ⟨rank, recorded, count, ahead, next, sound, records, enough⟩ := goesOn
      obtain ⟨routine, found⟩ := Option.isSome_iff_exists.mp known
      have returned : Activation.Returned
          { act with position := act.position + 1, lastCall := some (.completed value locals) } (some count) := by
        intro many same
        cases same
        exact ⟨value, locals, rfl, by rw [whole routine found]; exact enough routine found⟩
      refine .pure ⟨?_, rfl, rfl⟩
      rw [same]
      exact .going (next.moved _ (congrArg (· + 1) here).symm) sound ⟨filled.slots, records, filled.free⟩ returned
  | suspended reason =>
      obtain ⟨chain, left, above⟩ := handed
      let frame : Frame := ⟨env.routine.shape.function, act.locals, landing, some callee, act.choices⟩
      have calls : env.image.Calls env.routine frame callee place := ⟨own, filled.slots, rfl, expects⟩
      exact ⟨⟨frame :: chain, .calls calls left, congrArg (frame :: ·) above⟩, rfl, rfl⟩

theorem straight_leads (trusted : env.Trusted) {instr : Instr} (here : env.routine.body[act.position]? = some instr)
    (straight : instr.isStraight) (reads : instr.Reads env.image.Knows recorded) (fits : instr.Fits returned)
    (next : Follows env.routine rank (act.position + 1) ahead)
    (sound : Outline.Sound env.image.Knows (instr.records ++ recorded) returned ahead)
    (filled : act.Filled env.routine recorded) (called : act.Returned returned) :
    env.Leads state.actor.stack (env.move act) state := by
  have records : ∀ number ∈ recorded, number < ({ act with position := act.position + 1 } : Activation).choices.length :=
    filled.records
  rw [move_of_getElem? here]
  refine (step_calm trusted records called straight reads fits state).weaken ?_
  rintro _ final ⟨⟨after, rfl, continues⟩, steady⟩
  refine ⟨?_, steady.machine, steady.depth⟩
  have slots : after.locals.length = env.routine.shape.slotCount := continues.locals.trans filled.slots
  have more : ∀ number ∈ instr.records ++ recorded, number < after.choices.length := by
    intro number member
    rcases List.mem_append.mp member with own | old
    · exact continues.recorded number own
    · exact Nat.lt_of_lt_of_le (records number old) continues.choices
  have still : after.Returned returned := by
    intro count same
    obtain ⟨value, locals, last, long⟩ := called count same
    exact ⟨value, locals, continues.lastCall.trans last, long⟩
  rw [Came, steady.stack]
  exact .going (next.moved _ continues.position.symm) sound ⟨slots, more, continues.pending.trans filled.free⟩ still

theorem pushFrame_leads (trusted : env.Trusted) {callee : FunctionId} {args : List Argument}
    (here : env.routine.body[act.position]? = some (.pushFrame callee args)) (known : env.image.Knows callee)
    (reads : Argument.ReadAll env.image.Knows recorded args)
    (next : Follows env.routine rank (act.position + 1) (.call callee :: ahead))
    (sound : Outline.Sound env.image.Knows recorded (some args.length) ahead)
    (filled : act.Filled env.routine recorded) : env.Leads state.actor.stack (env.move act) state := by
  have records : ∀ number ∈ recorded, number < ({ act with position := act.position + 1 } : Activation).choices.length :=
    filled.records
  rw [move_of_getElem? here]
  refine (evalArguments_calm trusted records args reads state).bind fun values middle ⟨count, steady⟩ => ?_
  refine (startCall_meets trusted.image known values middle).bind ?_
  rintro _ final ⟨⟨frame, saved, pushed⟩, enough, machine, depth⟩
  rw [steady.stack] at pushed
  have above : final.actor.stack = [frame] ++ state.actor.stack := pushed
  refine .pure ⟨?_, machine.trans steady.machine, depth.trans steady.depth⟩
  rw [Came, above]
  exact .calling next sound ⟨filled.slots, filled.records, filled.free⟩ (count ▸ enough) saved

theorem pushHandler_meets (trusted : env.Trusted) {function : FunctionId} (known : env.image.Knows function)
    (payload : Value) (state : Running σ) :
    Meets env.handler (env.pushHandler function payload) state fun _ after =>
      (∃ frame, env.image.Saved function [frame] ∧ after.actor.stack = frame :: state.actor.stack) ∧
        after.actor.machine = state.actor.machine ∧ after.depth = state.depth := by
  obtain ⟨handler, found⟩ := Option.isSome_iff_exists.mp known
  have cleared : Calm env.handler (fun _ => True) (Exec.modifyActor fun actor => { actor with receiveSet := [] }) :=
    .modifyActor (fun _ => rfl) fun _ => rfl
  refine (cleared state).bind fun _ middle ⟨_, steady⟩ => ?_
  have started (args : List Value) (ready : Running σ) (still : middle.Steady ready) :=
    (startCall_meets trusted.image known args ready).weaken fun _ after ⟨⟨frame, saved, pushed⟩, _, machine, depth⟩ =>
      have all := steady.trans still
      (⟨⟨frame, saved, pushed.trans (congrArg (frame :: ·) all.stack)⟩, machine.trans all.machine,
        depth.trans all.depth⟩ : (∃ frame, env.image.Saved function [frame] ∧
          after.actor.stack = frame :: state.actor.stack) ∧ after.actor.machine = state.actor.machine ∧
          after.depth = state.depth)
  simp only [found]
  by_cases none : handler.shape.paramCount = 0
  · simp only [none, if_true]
    exact started [] middle (.refl middle)
  · simp only [none, if_false]
    exact (Calm.ofAlloc payload.deepCopy middle).bind fun copy ready ⟨_, still⟩ => started [copy] ready still

/-- The handler of an event waits above the frames that were there. -/
theorem startHandler_meets (trusted : env.Trusted) {cases : List ReceiveCase}
    (known : ∀ case ∈ cases, env.image.Knows case.handler) (state : Running σ) :
    Meets env.handler (env.startHandler cases) state fun handler after =>
      (∃ frame, env.image.Saved handler [frame] ∧ after.actor.stack = frame :: state.actor.stack) ∧
        after.actor.machine = state.actor.machine ∧ after.depth = state.depth := by
  have found : Exec.actor state = .ok state.actor state := rfl
  refine .after found ?_
  have member (case : ReceiveCase) (accepts : case ∈ cases.filter (·.event.accepts state.actor.trigger)) :
      case ∈ cases := (List.mem_filter.mp accepts).1
  generalize cases.filter (·.event.accepts state.actor.trigger) = picked at member ⊢
  rcases picked with _ | ⟨case, _ | ⟨other, more⟩⟩
  · exact (Calm.get state).bind fun _ _ _ => .trap rfl
  · exact (pushHandler_meets trusted (known case (member case (List.mem_singleton.mpr rfl))) _ state).bind
      fun _ _ pushed => .pure pushed
  · exact (Calm.get state).bind fun _ _ _ => .trap rfl

theorem dispatch_leads (trusted : env.Trusted) {arms : List ReceiveArm}
    (here : env.routine.body[act.position]? = some (.dispatchReceive arms))
    (next : ∀ arm ∈ arms, ∃ place, env.routine.landing? arm.entry = some place ∧
      Follows env.routine rank place (.call arm.handler :: ahead))
    (known : ∀ case ∈ arms.map ReceiveArm.case, env.image.Knows case.handler)
    (sound : Outline.Sound env.image.Knows recorded none ahead) (filled : act.Filled env.routine recorded) :
    env.Leads state.actor.stack (env.move act) state := by
  have started := startHandler_meets trusted known state
  rw [move_of_getElem? here]
  rcases env.dispatchReceive_startHandler arms with
    ⟨stop, final, failed, dispatched⟩ | ⟨arm, member, final, picked, dispatched⟩
  · have harmless := started.error failed
    have moved : env.step { act with position := act.position + 1 } (.dispatchReceive arms) state = .error stop final :=
      Exec.bind_of_error dispatched
    unfold Leads Meets
    rw [moved]
    exact harmless
  · obtain ⟨⟨frame, saved, pushed⟩, machine, depth⟩ := started.ok picked
    obtain ⟨place, leads, follows⟩ := next arm member
    have arrived : env.dispatchReceive arms state = .ok place final := by
      rw [dispatched]
      simp only [position, Routine.position?, leads]
      rfl
    refine .after arrived (.pure ⟨?_, machine, depth⟩)
    have above : final.actor.stack = [frame] ++ state.actor.stack := pushed
    rw [Came, above]
    exact .calling follows (sound.mono (fun _ member => member) (.inl rfl)) ⟨filled.slots, filled.records, filled.free⟩
      (fun _ _ => Nat.zero_le _) saved

theorem branch_leads (trusted : env.Trusted) {cond : Operand} {target : Target} {place more : Nat}
    {onTrue onFalse : List Outline} (here : env.routine.body[act.position]? = some (.jumpUnless cond target))
    (leads : env.routine.position? target = some place)
    (whenTrue : Follows env.routine rank (act.position + 1) (onTrue ++ ahead))
    (whenFalse : Follows env.routine more place (onFalse ++ ahead)) (reads : cond.Reads env.image.Knows recorded)
    (soundTrue : Outline.Sound env.image.Knows recorded none (onTrue ++ ahead))
    (soundFalse : Outline.Sound env.image.Knows recorded none (onFalse ++ ahead))
    (filled : act.Filled env.routine recorded) : env.Leads state.actor.stack (env.move act) state := by
  have records : ∀ number ∈ recorded, number < ({ act with position := act.position + 1 } : Activation).choices.length :=
    filled.records
  have noReturn (other : Activation) : other.Returned none := fun _ same => by cases same
  rw [move_of_getElem? here]
  refine (eval_calm trusted records cond reads state).bind fun value middle ⟨_, steady⟩ => ?_
  refine (Calm.ofValueOp (value.asBool "condition") middle).bind fun holds final ⟨_, still⟩ => ?_
  have steady := steady.trans still
  cases holds with
  | true =>
      refine .pure ⟨?_, steady.machine, steady.depth⟩
      rw [Came, steady.stack]
      exact .going whenTrue soundTrue ⟨filled.slots, filled.records, filled.free⟩ (noReturn _)
  | false =>
      have jumped : env.position target final = .ok place final := by
        simp only [position, leads]
        rfl
      refine .after jumped (.pure ⟨?_, steady.machine, steady.depth⟩)
      rw [Came, steady.stack]
      exact .going whenFalse soundFalse ⟨filled.slots, filled.records, filled.free⟩ (noReturn _)

/-- Labels, marks and jumps bring a call in progress nowhere else. -/
theorem pass_leads {place : Nat} (moved : env.move act state = .ok (.next { act with position := place }) state)
    (active : env.Active base { act with position := place } state.actor.stack) :
    env.Leads base (env.move act) state := by
  unfold Leads Meets
  rw [moved]
  exact ⟨active, rfl, rfl⟩

theorem move_pass {instr : Instr} (here : env.routine.body[act.position]? = some instr) (idle : instr.isPosition) :
    env.move act state = .ok (.next { act with position := act.position + 1 }) state := by
  rw [move_of_getElem? here, step_position idle]
  rfl

theorem move_jump {target : Target} {place : Nat} (here : env.routine.body[act.position]? = some (.jump target))
    (leads : env.routine.position? target = some place) :
    env.move act state = .ok (.next { act with position := place }) state := by
  rw [move_of_getElem? here]
  simp only [step, position, leads]
  rfl

/-- One instruction leads a call in progress to a situation of a call. -/
theorem move_leads (trusted : env.Trusted) (own : env.image.routine? env.routine.shape.function = some env.routine)
    (active : env.Active base act state.actor.stack) : env.Leads base (env.move act) state := by
  have laid := (trusted.image _ _ own).laid
  generalize above : state.actor.stack = stack at active
  cases active with
  | going follows sound filled called =>
      subst above
      have filled' (place : Nat) : Activation.Filled { act with position := place } env.routine _ :=
        ⟨filled.slots, filled.records, filled.free⟩
      have noReturn : Activation.Returned { act with position := act.position + 1 } none := fun _ same => by cases same
      cases follows.stands laid with
      | stop here behind => exact finish_leads trusted own here behind rfl trivial filled
      | pass here idle next _ =>
          exact pass_leads (move_pass here idle) (.going next sound (filled' _) called)
      | jump here leads next _ =>
          exact pass_leads (move_jump here leads) (.going next sound (filled' _) called)
      | act here straight next =>
          cases sound with
          | act straight reads fits rest => exact straight_leads trusted here straight reads fits next rest filled called
          | call known reads rest => exact pushFrame_leads trusted here known reads next rest filled
      | finish here behind final =>
          cases sound with
          | finish reads _ => exact finish_leads trusted own here behind final reads filled
      | ask here behind leads close next =>
          cases sound with
          | ask reads rest => exact ask_leads trusted own here behind leads close next reads rest filled
      | call => cases sound
      | dispatch here next =>
          cases sound with
          | dispatch known rest => exact dispatch_leads trusted here next known rest filled
      | branch here leads whenTrue whenFalse =>
          cases sound with
          | branch reads onTrue onFalse rest =>
              exact branch_leads trusted here leads whenTrue whenFalse reads (onTrue.append rest) (onFalse.append rest)
                filled
      | loop here next =>
          exact pass_leads (move_pass here rfl) (.going next sound.unroll (filled' _) noReturn)
  | calling follows sound filled enough saved =>
      have filled' (place : Nat) : Activation.Filled { act with position := place } env.routine _ :=
        ⟨filled.slots, filled.records, filled.free⟩
      cases follows.stands laid with
      | pass here idle next _ =>
          exact pass_leads (move_pass here idle) (above ▸ .calling next sound (filled' _) enough saved)
      | jump here leads next _ =>
          exact pass_leads (move_jump here leads) (above ▸ .calling next sound (filled' _) enough saved)
      | call here behind leads close label _ next =>
          exact invoke_leads trusted here behind leads close label next sound filled enough saved above
  | returning here expects filled last handed =>
      subst above
      exact propagate_leads own here expects filled last handed
  | leaving here pending handed =>
      subst above
      rw [move_of_getElem? here]
      simp only [step, pending]
      exact .pure ⟨handed, rfl, rfl⟩

end

end Env

end Reentry
