import Reentry.Proofs.Execution.Reads
import Reentry.Proofs.Frames.Calm
import Reentry.Proofs.Frames.Stack
import Reentry.Proofs.Structure.Course

/-!
Operands and places are calm. The one thing that touches the frames is a call in an expression: it pushes
the frame of the callee, and when the callee has returned, that frame is gone.
-/

namespace Reentry

/-- Surroundings of sound code: the image is sound, and the callees keep the rules about frames. -/
structure Env.Trusted {σ : Type} (env : Env σ) : Prop where
  image : env.image.Sound
  invokes : ∀ callee chain base state, env.image.Saved callee chain → state.actor.stack = chain ++ base →
    Exec.Meets env.handler (env.invoke callee) state fun result after =>
      env.image.Handed callee base result after.actor.stack ∧ after.actor.machine = state.actor.machine ∧
        after.depth = state.depth

theorem Alloc.mapM_length {α β : Type} (work : α → Alloc β) (items : List α) (heap : Heap) :
    ((items.mapM work).run heap).1.length = items.length := by
  induction items generalizing heap with
  | nil => rfl
  | cons item rest ih =>
      rw [List.mapM_cons]
      exact congrArg (· + 1) (ih ((work item).run heap).2)

namespace FrameShape

/-- New locals are the arguments and values made for the other slots. -/
theorem createLocals_eq_ok {shape : FrameShape} {args locals : List Value} {heap after : Heap}
    (created : (shape.createLocals args).run heap = .ok (locals, after)) :
    ∃ made, ((shape.slots.drop shape.paramCount).mapM initialSlot).run heap = (made, after) ∧ locals = args ++ made := by
  unfold createLocals at created
  by_cases fits : args.length = shape.paramCount
  · simp only [fits, ne_eq, not_true_eq_false, if_false] at created
    cases created
    exact ⟨_, rfl, rfl⟩
  · simp only [fits, ne_eq, not_false_eq_true, if_true] at created
    cases created

/-- New locals fill the frame, unless the number of arguments is wrong. -/
theorem createLocals_run {shape : FrameShape} (args : List Value) (heap : Heap)
    (slots : shape.paramCount ≤ shape.slotCount) :
    (∃ locals after, (shape.createLocals args).run heap = .ok (locals, after) ∧ args.length = shape.paramCount ∧
      locals.length = shape.slotCount) ∨
      (shape.createLocals args).run heap
        = .error (.internal shape.name (.wrongArgumentCount shape.paramCount args.length)) := by
  by_cases fits : args.length = shape.paramCount
  · have created : (shape.createLocals args).run heap
        = .ok (args ++ (((shape.slots.drop shape.paramCount).mapM initialSlot).run heap).1,
          (((shape.slots.drop shape.paramCount).mapM initialSlot).run heap).2) := by
      unfold createLocals
      simp only [fits, ne_eq, not_true_eq_false, if_false]
      rfl
    refine .inl ⟨_, _, created, fits, ?_⟩
    rw [List.length_append, Alloc.mapM_length, List.length_drop, fits]
    exact Nat.add_sub_of_le slots
  · refine .inr ?_
    unfold createLocals
    simp only [ne_eq, fits, not_false_eq_true, if_true]
    rfl

end FrameShape

namespace Actor

variable {image : Image} {function : FunctionId}

/-- Starting a call is making its locals. -/
theorem startCall_run {routine : Routine} (found : image.routine? function = some routine) (args : List Value)
    (actor : Actor) (heap : Heap) : (startCall image function args actor).run heap
      = ((routine.shape.createLocals args).run heap).map fun made => (actor.push (.atStart function made.1), made.2) := by
  unfold startCall
  rw [found]
  change (routine.shape.createLocals args >>= fun locals => pure (actor.push (.atStart function locals))).run heap = _
  rw [StateT.run_bind]
  cases (routine.shape.createLocals args).run heap <;> rfl

/-- A call that has been started is one of a function that is known, with new locals. -/
theorem startCall_eq_ok {args : List Value} {actor started : Actor} {heap after : Heap}
    (starts : (startCall image function args actor).run heap = .ok (started, after)) :
    ∃ routine locals, image.routine? function = some routine ∧ (routine.shape.createLocals args).run heap = .ok (locals, after) ∧
      started = actor.push (.atStart function locals) := by
  cases found : image.routine? function with
  | none =>
      unfold startCall at starts
      rw [found] at starts
      cases starts
  | some routine =>
      rw [startCall_run found] at starts
      cases made : (routine.shape.createLocals args).run heap with
      | error cause =>
          rw [made] at starts
          cases starts
      | ok created =>
          rw [made] at starts
          cases starts
          exact ⟨routine, created.1, rfl, made, rfl⟩

/-- A call that has been started waits at the start of its function. -/
theorem startCall_cases (sound : image.Sound) {routine : Routine} (found : image.routine? function = some routine)
    (args : List Value) (actor : Actor) (heap : Heap) :
    (∃ frame after, (startCall image function args actor).run heap = .ok (actor.push frame, after) ∧
      image.Saved function [frame] ∧ args.length ≤ routine.shape.slotCount) ∨
      ∃ cause, (startCall image function args actor).run heap = .error cause ∧ cause.breaksFrames = false := by
  obtain ⟨own, slots, laid, _, rank, outline, follows, safe⟩ := sound function routine found
  rcases FrameShape.createLocals_run args heap slots with ⟨locals, after, made, count, filled⟩ | refused
  · have waits : image.Waits routine (.atStart function locals) 0 :=
      ⟨found, filled, rfl, rfl, rank, [], outline, follows, safe, by simp⟩
    refine .inl ⟨.atStart function locals, after, ?_, .waits waits, by omega⟩
    rw [startCall_run found, made]
    rfl
  · exact .inr ⟨.internal _ (.wrongArgumentCount _ _), by rw [startCall_run found, refused]; rfl, rfl⟩

/-- A call with the right number of arguments can be started. -/
theorem startCall_succeeds (sound : image.Sound) {routine : Routine} (found : image.routine? function = some routine)
    {args : List Value} (fits : args.length = routine.shape.paramCount) (actor : Actor) (heap : Heap) :
    ∃ started after, (startCall image function args actor).run heap = .ok (started, after) := by
  have slots := (sound function routine found).slots
  rw [startCall_run found]
  rcases FrameShape.createLocals_run args heap slots with ⟨locals, after, made, _, _⟩ | refused
  · rw [made]
    exact ⟨_, _, rfl⟩
  · unfold FrameShape.createLocals at refused
    simp only [fits, ne_eq, not_true_eq_false, if_false] at refused
    cases refused

theorem startCall_saved (sound : image.Sound) {args : List Value} {actor started : Actor} {heap after : Heap}
    (starts : (startCall image function args actor).run heap = .ok (started, after)) :
    ∃ frame, image.Saved function [frame] ∧ started = actor.push frame := by
  obtain ⟨_, _, found, _, _⟩ := startCall_eq_ok starts
  rcases startCall_cases sound found args actor heap with ⟨frame, _, done, saved, _⟩ | ⟨_, refused, _⟩
  · cases done.symm.trans starts
    exact ⟨frame, saved, rfl⟩
  · cases refused.symm.trans starts

end Actor

namespace Env

variable {σ : Type} {env : Env σ}

open Exec

/-- A started call lies on top of the frames there were. -/
theorem startCall_meets (sound : env.image.Sound) {callee : FunctionId} (known : env.image.Knows callee)
    (args : List Value) (state : Running σ) :
    Meets env.handler (env.startCall callee args) state fun _ after =>
      (∃ frame, env.image.Saved callee [frame] ∧ after.actor.stack = frame :: state.actor.stack) ∧
        (∀ routine, env.image.routine? callee = some routine → args.length ≤ routine.shape.slotCount) ∧
        after.actor.machine = state.actor.machine ∧ after.depth = state.depth := by
  obtain ⟨routine, found⟩ := Option.isSome_iff_exists.mp known
  have called : env.startCall callee args state
      = (Exec.ofHeapOp (Actor.startCall env.image callee args state.actor) >>= fun actor =>
        Exec.modifyActor fun _ => actor) state := rfl
  unfold Meets
  rw [called, Exec.bind_apply, Exec.ofHeapOp_apply]
  rcases Actor.startCall_cases sound found args state.actor state.heap with
    ⟨frame, after, done, saved, enough⟩ | ⟨cause, refused, keeps⟩
  · rw [done]
    refine ⟨⟨frame, saved, rfl⟩, ?_, rfl, rfl⟩
    intro other same
    cases found.symm.trans same
    exact enough
  · rw [refused]
    exact .inl keeps

theorem callToEnd_calm (trusted : env.Trusted) {callee : FunctionId} (known : env.image.Knows callee)
    (args : List Value) : Calm env.handler (fun _ => True) (env.callToEnd callee args) := by
  intro state
  refine (startCall_meets trusted.image known args state).bind fun _ started ⟨⟨frame, saved, pushed⟩, _, machine, depth⟩ => ?_
  refine (trusted.invokes callee [frame] state.actor.stack started saved pushed).bind fun result after holds => ?_
  obtain ⟨handed, machine', depth'⟩ := holds
  cases result with
  | completed value locals => exact ⟨trivial, handed.1, machine'.trans machine, depth'.trans depth⟩
  | suspended reason => exact .trap rfl

theorem expectKind_calm (kind : ContainerKind) (container : Value) : Calm env.handler (fun _ => True) (expectKind kind container) :=
  .ofValueOp _

variable {act : Activation} {recorded : List Nat}

mutual

theorem load_calm (trusted : env.Trusted) (records : ∀ number ∈ recorded, number < act.choices.length) :
    (place : Place) → place.Reads env.image.Knows recorded → Calm env.handler (fun _ => True) (env.load act place)
  | .slot index, _ => by
      unfold load
      split
      · exact .pure trivial
      · exact .trap rfl
  | .field index, _ => by
      refine .bind .actor fun actor _ => ?_
      split
      · exact .pure trivial
      · exact .trap rfl
  | .trigger, _ | .payload, _ => .bind .actor fun _ _ => .pure trivial
  | .part base index, reads => .bind (load_calm trusted records base reads) fun _ _ => .ofValueOp _
  | .element base key kind, reads =>
      .bind (load_calm trusted records base reads.1) fun _ _ => .bind (expectKind_calm _ _) fun _ _ =>
        .bind (eval_calm trusted records key reads.2) fun _ _ => .ofValueOp _

theorem eval_calm (trusted : env.Trusted) (records : ∀ number ∈ recorded, number < act.choices.length) :
    (operand : Operand) → operand.Reads env.image.Knows recorded → Calm env.handler (fun _ => True) (env.eval act operand)
  | .const _, _ => .pure trivial
  | .this, _ => .bind .actor fun _ _ => .pure trivial
  | .load place, reads => load_calm trusted records place reads
  | .clone inner, reads => .bind (eval_calm trusted records inner reads) fun _ _ => .ofAlloc _
  | .unary op arg, reads => .bind (eval_calm trusted records arg reads) fun _ _ => .ofValueOp _
  | .binary op lhs rhs, reads => by
      have right := eval_calm trusted records rhs reads.2
      cases op <;> refine .bind (eval_calm trusted records lhs reads.1) fun left _ => ?_
      case and | or =>
        refine .bind (.ofValueOp _) fun holds _ => ?_
        cases holds
        all_goals first | exact .pure trivial | exact .bind right fun _ _ => .bind (.ofValueOp _) fun _ _ => .pure trivial
      all_goals exact .bind right fun _ _ => .ofValueOp _
  | .lookup base key kind, reads =>
      .bind (eval_calm trusted records base reads.1) fun _ _ => .bind (expectKind_calm _ _) fun _ _ =>
        .bind (eval_calm trusted records key reads.2) fun _ _ => .ofValueOp _
  | .part base index, reads => .bind (eval_calm trusted records base reads) fun _ _ => .ofValueOp _
  | .tuple items, reads => .bind (evalAll_calm trusted records items reads) fun _ _ => .ofAlloc _
  | .named fields, reads => .bind (evalFields_calm trusted records fields reads) fun _ _ => .ofAlloc _
  | .default ty, _ => .ofAlloc _
  | .cast value ty, reads => .bind (eval_calm trusted records value reads) fun _ _ => .ofValueOp _
  | .call callee args, reads =>
      .bind (evalArguments_calm trusted records args reads.2) fun _ _ => callToEnd_calm trusted reads.1 _
  | .choice number, reads => by
      have bound : number < act.choices.length := records number reads
      have found : act.choices[number]? = some act.choices[number] := List.getElem?_eq_getElem bound
      unfold eval
      rw [found]
      exact .pure trivial

theorem evalAll_calm (trusted : env.Trusted) (records : ∀ number ∈ recorded, number < act.choices.length) :
    (operands : List Operand) → Operand.ReadAll env.image.Knows recorded operands →
      Calm env.handler (fun _ => True) (env.evalAll act operands)
  | [], _ => .pure trivial
  | operand :: rest, reads =>
      .bind (eval_calm trusted records operand reads.1) fun _ _ =>
        .bind (evalAll_calm trusted records rest reads.2) fun _ _ => .pure trivial

theorem evalFields_calm (trusted : env.Trusted) (records : ∀ number ∈ recorded, number < act.choices.length) :
    (fields : List (String × Operand)) → Operand.ReadFields env.image.Knows recorded fields →
      Calm env.handler (fun _ => True) (env.evalFields act fields)
  | [], _ => .pure trivial
  | (_, operand) :: rest, reads =>
      .bind (eval_calm trusted records operand reads.1) fun _ _ =>
        .bind (evalFields_calm trusted records rest reads.2) fun _ _ => .pure trivial

/-- As many values come of arguments as there are arguments. -/
theorem evalArguments_calm (trusted : env.Trusted) (records : ∀ number ∈ recorded, number < act.choices.length) :
    (args : List Argument) → Argument.ReadAll env.image.Knows recorded args →
      Calm env.handler (·.length = args.length) (env.evalArguments act args)
  | [], _ => .pure rfl
  | .mk operand _ :: rest, reads =>
      .bind (eval_calm trusted records operand reads.1) fun _ _ =>
        .bind (evalArguments_calm trusted records rest reads.2) fun _ count => .pure (congrArg (· + 1) count)

end

theorem store_calm (trusted : env.Trusted) (records : ∀ number ∈ recorded, number < act.choices.length)
    {place : Place} (reads : place.Reads env.image.Knows recorded) (value : Value) :
    Calm env.handler (fun after => after = { act with locals := after.locals } ∧ after.locals.length = act.locals.length)
      (env.store act place value) := by
  cases place with
  | slot index =>
      simp only [store]
      split
      · exact .pure ⟨rfl, by simp⟩
      · exact .trap rfl
  | field index =>
      refine .bind .actor fun actor _ => ?_
      split
      · exact .bind (.modifyActor (fun _ => rfl) (fun _ => rfl)) fun _ _ => .pure ⟨rfl, rfl⟩
      · exact .trap rfl
  | trigger | payload => exact .bind (.modifyActor (fun _ => rfl) (fun _ => rfl)) fun _ _ => .pure ⟨rfl, rfl⟩
  | part base index =>
      exact .bind (load_calm trusted records base reads) fun _ _ => .bind (.ofValueOp _) fun _ _ => .pure ⟨rfl, rfl⟩
  | element base key kind =>
      exact .bind (load_calm trusted records base reads.1) fun _ _ => .bind (expectKind_calm _ _) fun _ _ =>
        .bind (eval_calm trusted records key reads.2) fun _ _ => .bind (.ofValueOp _) fun _ _ => .pure ⟨rfl, rfl⟩

end Env

end Reentry

/-!
Instructions behind which a call always goes on. In a sound routine they keep the rules about frames:
they read recorded choices only, use only what the last call has returned, and leave the saved frames as
they are.
-/

namespace Reentry

namespace Activation

/-- The last call has returned with at least so many locals. -/
def Returned (act : Activation) (returned : Option Nat) : Prop :=
  ∀ count, returned = some count →
    ∃ value locals, act.lastCall = some (.completed value locals) ∧ count ≤ locals.length

/-- A later activation of the same call, in which more choices may have been recorded. -/
structure Continues (act : Activation) (records : List Nat) (after : Activation) : Prop where
  position : after.position = act.position
  pending : after.pending = act.pending
  lastCall : after.lastCall = act.lastCall
  locals : after.locals.length = act.locals.length
  choices : act.choices.length ≤ after.choices.length
  recorded : ∀ number ∈ records, number < after.choices.length

theorem Continues.refl (act : Activation) : act.Continues [] act := ⟨rfl, rfl, rfl, rfl, Nat.le_refl _, by simp⟩

theorem Continues.of_store {act after : Activation}
    (stored : after = { act with locals := after.locals } ∧ after.locals.length = act.locals.length) :
    act.Continues [] after := by
  obtain ⟨same, count⟩ := stored
  rw [same]
  exact ⟨rfl, rfl, rfl, count, Nat.le_refl _, by simp⟩

end Activation

theorem recordChoice_length (choices : List Bool) (number : Nat) (chosen : Bool) :
    choices.length ≤ (recordChoice choices number chosen).length ∧
      number < (recordChoice choices number chosen).length := by
  simp only [recordChoice, List.length_set, List.length_append, List.length_replicate]
  omega

namespace Env

variable {σ : Type} {env : Env σ}

open Exec

theorem replacePart_calm (trusted : env.Trusted) {act : Activation} {recorded : List Nat}
    (records : ∀ number ∈ recorded, number < act.choices.length) {selector : Selector}
    (reads : selector.Reads env.image.Knows recorded) (container value : Value) :
    Calm env.handler (fun _ => True) (env.replacePart act container selector value) := by
  cases selector with
  | part index => exact .ofValueOp _
  | element key kind =>
      exact .bind (expectKind_calm _ _) fun _ _ => .bind (eval_calm trusted records key reads) fun _ _ => .ofValueOp _

/-- An instruction behind which the call goes on leaves the frames as they are. -/
theorem step_calm (trusted : env.Trusted) {act : Activation} {recorded : List Nat} {returned : Option Nat}
    (records : ∀ number ∈ recorded, number < act.choices.length) (called : act.Returned returned) {instr : Instr}
    (straight : instr.isStraight) (reads : instr.Reads env.image.Knows recorded) (fits : instr.Fits returned) :
    Calm env.handler (fun flow => ∃ after, flow = .next after ∧ act.Continues instr.records after) (env.step act instr) := by
  have eval (operand : Operand) := eval_calm trusted records operand
  have load (place : Place) := load_calm trusted records place
  have stays : ∃ after, Flow.next act = .next after ∧ act.Continues [] after := ⟨act, rfl, .refl act⟩
  have stored {act after : Activation}
      (kept : after = { act with locals := after.locals } ∧ after.locals.length = act.locals.length) :
      ∃ other, Flow.next after = .next other ∧ act.Continues [] other := ⟨after, rfl, .of_store kept⟩
  cases instr with
  | label _ | mark _ | jump _ | jumpUnless _ _ | dispatchReceive _ | invoke _ | propagateSuspension _ _ | «yield» _
  | exit => cases straight
  | pushFrame _ _ => cases fits
  | assign dest value =>
      exact .bind (eval value reads.2) fun _ _ => .map (store_calm trusted records reads.1 _) fun _ kept => stored kept
  | swap dest source =>
      refine .bind (load dest reads.1) fun _ _ => .bind (load source reads.2) fun _ _ =>
        .bind (store_calm trusted records reads.1 _) fun after kept => ?_
      have kept := Activation.Continues.of_store kept
      have records : ∀ number ∈ recorded, number < after.choices.length :=
        fun number member => Nat.lt_of_lt_of_le (records number member) kept.choices
      refine .map (store_calm trusted records reads.2 _) fun last kept' => ⟨last, rfl, ?_⟩
      have kept' := Activation.Continues.of_store kept'
      exact ⟨kept'.position.trans kept.position, kept'.pending.trans kept.pending, kept'.lastCall.trans kept.lastCall,
        kept'.locals.trans kept.locals, Nat.le_trans kept.choices kept'.choices, by simp [Instr.records]⟩
  | update container selector value =>
      exact .bind (eval value reads.2.2) fun _ _ => .bind (load container reads.1) fun _ _ =>
        .bind (replacePart_calm trusted records reads.2.1 _ _) fun _ _ => .pure stays
  | exchange container selector source =>
      exact .bind (load source reads.2.2) fun _ _ => .bind (load container reads.1) fun _ _ =>
        .bind (replacePart_calm trusted records reads.2.1 _ _) fun _ _ =>
          .map (store_calm trusted records reads.2.2 _) fun _ kept => stored kept
  | remove container kind key =>
      exact .bind (eval key reads.2) fun _ _ => .bind (load container reads.1) fun _ _ =>
        .bind (expectKind_calm _ _) fun _ _ => .bind (.ofValueOp _) fun _ _ => .pure stays
  | insert container kind entry =>
      exact .bind (eval entry reads.2) fun _ _ => .bind (load container reads.1) fun _ _ =>
        .bind (expectKind_calm _ _) fun _ _ => .bind (.ofValueOp _) fun _ _ => .bind (.ofValueOp _) fun _ _ =>
          .bind (.ofValueOp _) fun _ _ => .pure stays
  | assert cond message =>
      refine .bind (eval cond reads) fun _ _ => .bind (.ofValueOp _) fun holds _ => ?_
      cases holds
      · exact .fail rfl
      · exact .pure stays
  | print format args =>
      exact .bind (evalAll_calm trusted records args reads) fun _ _ => .bind .get fun _ _ => .bind .actor fun _ _ =>
        .bind .perform fun _ _ => .pure stays
  | announce event payload =>
      exact .bind (eval event reads.1) fun _ _ => .bind (eval payload reads.2) fun _ _ => .bind .actor fun _ _ =>
        .bind .perform fun _ _ => .pure stays
  | enqueue target event payload =>
      refine .bind ?_ fun _ (_ : True) => .pure stays
      refine .bind (eval target reads.1) fun _ _ => .bind (.ofValueOp _) fun _ _ =>
        .bind (eval event reads.2.1) fun event' _ => ?_
      cases kind : event'.isEvent
      · simp only [Bool.false_eq_true, if_false]
        exact .ofValueOp _
      · exact .bind (eval payload reads.2.2) fun _ _ => .bind .actor fun _ _ =>
          .perform
  | setGotoTarget state => exact .bind (.modifyActor (fun _ => rfl) fun _ => rfl) fun _ _ => .pure stays
  | registerReceive event =>
      refine .bind (.modifyActor (fun actor => ?_) fun actor => ?_) fun _ _ => .pure stays
      all_goals by_cases member : event ∈ actor.receiveSet <;> simp only [member, if_true, if_false]
  | collectReturn dest =>
      obtain ⟨count, enough⟩ := Option.isSome_iff_exists.mp fits
      obtain ⟨value, locals, last, _⟩ := called count enough
      simp only [step, last]
      exact .map (store_calm trusted records reads _) fun _ kept => stored kept
  | writeBack dest slot =>
      obtain ⟨count, enough, bound⟩ := fits
      obtain ⟨value, locals, last, long⟩ := called count enough
      have found : locals[slot]? = some locals[slot] := List.getElem?_eq_getElem (Nat.lt_of_lt_of_le bound long)
      simp only [step, last, found]
      exact .map (store_calm trusted records reads _) fun _ kept => stored kept
  | readCreated dest =>
      refine .bind .actor fun actor _ => ?_
      cases actor.resume.created with
      | none => exact .trap rfl
      | some created =>
          exact .bind (.modifyActor (fun _ => rfl) fun _ => rfl) fun _ _ =>
            .map (store_calm trusted records reads _) fun _ kept => stored kept
  | recordChoice number =>
      refine .bind .actor fun actor _ => ?_
      cases actor.resume.nondet with
      | none => exact .trap rfl
      | some chosen =>
          obtain ⟨grows, own⟩ := recordChoice_length act.choices number chosen
          refine .bind (.modifyActor (fun _ => rfl) fun _ => rfl) fun _ _ => .pure ⟨_, rfl, rfl, rfl, rfl, rfl, grows, ?_⟩
          simpa [Instr.records] using own

end Env

end Reentry
