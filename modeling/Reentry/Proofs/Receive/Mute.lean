import Reentry.Proofs.Execution.Monad
import Reentry.Proofs.Frames.Calm
import Reentry.Proofs.Receive.Journal
import Reentry.Proofs.Receive.Listens

/-!
Work that has nothing to do with a receive. As long as the actor waits for nothing, it leaves the saved
frames and what the actor waits for as they are and chooses no handler, and if it fails, it is not because an
event has no case.
-/

namespace Reentry

/-- Whether a trap says that not exactly one case of a receive accepts the event that arrived. -/
def Trap.missesCase : Trap → Bool
  | .noCase _ | .severalCases _ => true
  | _ => false

def RuntimeFailure.missesCase : RuntimeFailure → Bool
  | .internal _ trap => trap.missesCase
  | _ => false

def Stop.missesCase : Stop → Bool
  | .failed cause => cause.missesCase
  | .outOfSteps => false

variable {σ α β : Type}

/-- In between calls may have begun, but no receive has chosen a handler. -/
def Running.Quiet (before after : Running (Noted σ)) : Prop :=
  ∃ starts : List Start, after.journal = before.journal ++ starts.map .start

namespace Running.Quiet

variable {first second third : Running (Noted σ)}

theorem same (journal : second.journal = first.journal) : first.Quiet second :=
  ⟨[], journal.trans (List.append_nil _).symm⟩

theorem trans (left : first.Quiet second) (right : second.Quiet third) : first.Quiet third := by
  obtain ⟨starts, grown⟩ := left
  obtain ⟨more, grown'⟩ := right
  exact ⟨starts ++ more, by rw [grown', grown, List.map_append, List.append_assoc]⟩

end Running.Quiet

/-- What is left of a state as it was: the saved frames and what the actor waits for. -/
structure Running.Still (before after : Running (Noted σ)) : Prop where
  stack : after.actor.stack = before.actor.stack
  awaited : after.actor.receiveSet = before.actor.receiveSet
  quiet : before.Quiet after

namespace Running.Still

variable {first second third : Running (Noted σ)}

theorem refl (state : Running (Noted σ)) : state.Still state := ⟨rfl, rfl, .same rfl⟩

theorem trans (left : first.Still second) (right : second.Still third) : first.Still third :=
  ⟨right.stack.trans left.stack, right.awaited.trans left.awaited, left.quiet.trans right.quiet⟩

end Running.Still

namespace Exec

/-- The work chooses no handler. If the actor waits for nothing, it does so afterwards, and the frames are as
they were. -/
def Mute (good : α → Prop) (work : Exec (Noted σ) α) : Prop :=
  ∀ state, state.actor.receiveSet = [] → Ends work state (fun result after => good result ∧ state.Still after)
    fun stop after => stop.missesCase = false ∧ state.Quiet after

namespace Mute

variable {good : α → Prop}

theorem pure {value : α} (holds : good value) : Mute good (Pure.pure value : Exec (Noted σ) α) :=
  fun state _ => ⟨holds, .refl state⟩

theorem bind {better : β → Prop} {work : Exec (Noted σ) α} {rest : α → Exec (Noted σ) β} (first : Mute good work)
    (next : ∀ value, good value → Mute better (rest value)) : Mute better (work >>= rest) := by
  intro state deaf
  refine (first state deaf).bind fun value middle ⟨holds, still⟩ => ?_
  refine (next value holds middle (still.awaited.trans deaf)).weaken (fun _ _ ⟨better, still'⟩ => ⟨better, still.trans still'⟩) ?_
  exact fun _ _ ⟨hits, quiet⟩ => ⟨hits, still.quiet.trans quiet⟩

theorem map {better : β → Prop} {change : α → β} {work : Exec (Noted σ) α} (mute : Mute good work)
    (imp : ∀ value, good value → better (change value)) : Mute better (change <$> work) :=
  bind mute fun value holds => pure (imp value holds)

theorem fail {cause : RuntimeFailure} (hits : cause.missesCase = false) : Mute good (fail cause : Exec (Noted σ) α) :=
  fun _ _ => ⟨hits, .same rfl⟩

theorem trap {name : String} {reason : Trap} (hits : reason.missesCase = false) :
    Mute good (trap name reason : Exec (Noted σ) α) := fun _ _ => ⟨hits, .same rfl⟩

theorem get : Mute (fun _ => True) (get : Exec (Noted σ) (Running (Noted σ))) := fun state _ => ⟨trivial, .refl state⟩

theorem actor : Mute (fun _ => True) (actor : Exec (Noted σ) Actor) := fun state _ => ⟨trivial, .refl state⟩

theorem ofAlloc (work : Alloc α) : Mute (fun _ => True) (ofAlloc work : Exec (Noted σ) α) :=
  fun _ _ => ⟨trivial, rfl, rfl, .same rfl⟩

theorem ofValueOp (work : ValueOp α) : Mute (fun _ => True) (ofValueOp work : Exec (Noted σ) α) := by
  intro state _
  unfold Ends
  rw [ofValueOp_apply]
  cases work.run state.heap with
  | ok pair => exact ⟨trivial, rfl, rfl, .same rfl⟩
  | error cause => exact ⟨rfl, .same rfl⟩

/-- A change of the actor that leaves frames and the events that are waited for alone. -/
theorem modifyActor {change : Actor → Actor} (stack : ∀ actor, (change actor).stack = actor.stack)
    (awaited : ∀ actor, (change actor).receiveSet = actor.receiveSet) :
    Mute (fun _ => True) (modifyActor change : Exec (Noted σ) Unit) :=
  fun state _ => ⟨trivial, stack state.actor, awaited state.actor, .same rfl⟩

end Mute

end Exec

/-- Surroundings in which effects and the calls inside expressions have nothing to do with a receive. -/
structure Env.Hushed (env : Env (Noted σ)) : Prop where
  raises : ∀ cause, env.handler.Raises cause → cause.missesCase = false
  keeps : ∀ heap effect outside after, env.handler heap effect outside = .ok after → after.2 = outside.2
  calls : ∀ callee args, Exec.Mute (fun _ => True) (env.callToEnd callee args)

namespace Env

open Exec

variable {env : Env (Noted σ)} {act : Activation}

theorem expectKind_mute (kind : ContainerKind) (container : Value) :
    Mute (fun _ => True) (expectKind kind container : Exec (Noted σ) Unit) := .ofValueOp _

theorem perform_mute (hushed : env.Hushed) (effect : Effect) : Mute (fun _ => True) (perform env.handler effect) := by
  intro state _
  unfold Ends
  rw [perform_apply]
  cases handled : env.handler state.heap effect state.outside with
  | ok outside => exact ⟨trivial, rfl, rfl, .same (hushed.keeps _ _ _ _ handled)⟩
  | error cause => exact ⟨hushed.raises cause ⟨_, _, _, handled⟩, .same rfl⟩

mutual

theorem load_mute (hushed : env.Hushed) : (place : Place) → Mute (fun _ => True) (env.load act place)
  | .slot index => by
      unfold load
      split
      · exact .pure trivial
      · exact .trap rfl
  | .field index => by
      refine .bind .actor fun actor _ => ?_
      split
      · exact .pure trivial
      · exact .trap rfl
  | .trigger | .payload => .bind .actor fun _ _ => .pure trivial
  | .part base index => .bind (load_mute hushed base) fun _ _ => .ofValueOp _
  | .element base key kind =>
      .bind (load_mute hushed base) fun _ _ => .bind (expectKind_mute _ _) fun _ _ =>
        .bind (eval_mute hushed key) fun _ _ => .ofValueOp _

theorem eval_mute (hushed : env.Hushed) : (operand : Operand) → Mute (fun _ => True) (env.eval act operand)
  | .const _ => .pure trivial
  | .this => .bind .actor fun _ _ => .pure trivial
  | .load place => load_mute hushed place
  | .clone inner => .bind (eval_mute hushed inner) fun _ _ => .ofAlloc _
  | .unary op arg => .bind (eval_mute hushed arg) fun _ _ => .ofValueOp _
  | .binary op lhs rhs => by
      have right := eval_mute hushed rhs
      cases op <;> refine .bind (eval_mute hushed lhs) fun left _ => ?_
      case and | or =>
        refine .bind (.ofValueOp _) fun holds _ => ?_
        cases holds
        all_goals first | exact .pure trivial | exact .bind right fun _ _ => .bind (.ofValueOp _) fun _ _ => .pure trivial
      all_goals exact .bind right fun _ _ => .ofValueOp _
  | .lookup base key kind =>
      .bind (eval_mute hushed base) fun _ _ => .bind (expectKind_mute _ _) fun _ _ =>
        .bind (eval_mute hushed key) fun _ _ => .ofValueOp _
  | .part base index => .bind (eval_mute hushed base) fun _ _ => .ofValueOp _
  | .tuple items => .bind (evalAll_mute hushed items) fun _ _ => .ofAlloc _
  | .named fields => .bind (evalFields_mute hushed fields) fun _ _ => .ofAlloc _
  | .default ty => .ofAlloc _
  | .cast value ty => .bind (eval_mute hushed value) fun _ _ => .ofValueOp _
  | .call callee args => .bind (evalArguments_mute hushed args) fun _ _ => hushed.calls callee _
  | .choice number => by
      unfold eval
      split
      · exact .pure trivial
      · exact .trap rfl

theorem evalAll_mute (hushed : env.Hushed) : (operands : List Operand) → Mute (fun _ => True) (env.evalAll act operands)
  | [] => .pure trivial
  | operand :: rest => .bind (eval_mute hushed operand) fun _ _ => .bind (evalAll_mute hushed rest) fun _ _ => .pure trivial

theorem evalFields_mute (hushed : env.Hushed) : (fields : List (String × Operand)) →
    Mute (fun _ => True) (env.evalFields act fields)
  | [] => .pure trivial
  | (_, operand) :: rest =>
      .bind (eval_mute hushed operand) fun _ _ => .bind (evalFields_mute hushed rest) fun _ _ => .pure trivial

theorem evalArguments_mute (hushed : env.Hushed) : (args : List Argument) → Mute (fun _ => True) (env.evalArguments act args)
  | [] => .pure trivial
  | .mk operand _ :: rest =>
      .bind (eval_mute hushed operand) fun _ _ => .bind (evalArguments_mute hushed rest) fun _ _ => .pure trivial

end

section

variable (hushed : env.Hushed)
include hushed

theorem store_mute (place : Place) (value : Value) : Mute (fun _ => True) (env.store act place value) := by
  cases place with
  | slot index =>
      unfold store
      dsimp only
      split
      · exact .pure trivial
      · exact .trap rfl
  | field index =>
      refine .bind .actor fun actor _ => ?_
      split
      · exact .bind (.modifyActor (fun _ => rfl) fun _ => rfl) fun _ _ => .pure trivial
      · exact .trap rfl
  | trigger | payload => exact .bind (.modifyActor (fun _ => rfl) fun _ => rfl) fun _ _ => .pure trivial
  | part base index => exact .bind (load_mute hushed base) fun _ _ => .bind (.ofValueOp _) fun _ _ => .pure trivial
  | element base key kind =>
      exact .bind (load_mute hushed base) fun _ _ => .bind (expectKind_mute _ _) fun _ _ =>
        .bind (eval_mute hushed key) fun _ _ => .bind (.ofValueOp _) fun _ _ => .pure trivial

theorem replacePart_mute (container : Value) (selector : Selector) (value : Value) :
    Mute (fun _ => True) (env.replacePart act container selector value) := by
  cases selector with
  | part index => exact .ofValueOp _
  | element key kind => exact .bind (expectKind_mute _ _) fun _ _ => .bind (eval_mute hushed key) fun _ _ => .ofValueOp _

/-- An instruction behind which the call goes on, unless it registers an event or pushes a frame. -/
theorem step_mute {instr : Instr} (straight : instr.isStraight) (deaf : instr.isReceiving = false)
    (noPush : instr.isPush = false) : Mute (fun _ => True) (env.step act instr) := by
  have stored {act : Activation} (place : Place) (value : Value) :
      Mute (fun _ => True) (Flow.next <$> env.store act place value) := .map (store_mute hushed place value) fun _ _ => trivial
  cases instr with
  | label _ | mark _ | jump _ | jumpUnless _ _ | dispatchReceive _ | invoke _ | propagateSuspension _ _ | «yield» _
  | exit => cases straight
  | registerReceive _ => cases deaf
  | pushFrame _ _ => cases noPush
  | assign dest value => exact .bind (eval_mute hushed value) fun _ _ => stored dest _
  | swap dest source =>
      exact .bind (load_mute hushed dest) fun _ _ => .bind (load_mute hushed source) fun _ _ =>
        .bind (store_mute hushed dest _) fun _ _ => stored source _
  | update container selector value =>
      exact .bind (eval_mute hushed value) fun _ _ => .bind (load_mute hushed container) fun _ _ =>
        .bind (replacePart_mute hushed _ selector _) fun _ _ => .pure trivial
  | exchange container selector source =>
      exact .bind (load_mute hushed source) fun _ _ => .bind (load_mute hushed container) fun _ _ =>
        .bind (replacePart_mute hushed _ selector _) fun _ _ => stored source _
  | remove container kind key =>
      exact .bind (eval_mute hushed key) fun _ _ => .bind (load_mute hushed container) fun _ _ =>
        .bind (expectKind_mute _ _) fun _ _ => .bind (.ofValueOp _) fun _ _ => .pure trivial
  | insert container kind entry =>
      exact .bind (eval_mute hushed entry) fun _ _ => .bind (load_mute hushed container) fun _ _ =>
        .bind (expectKind_mute _ _) fun _ _ => .bind (.ofValueOp _) fun _ _ => .bind (.ofValueOp _) fun _ _ =>
          .bind (.ofValueOp _) fun _ _ => .pure trivial
  | assert cond message =>
      refine .bind (eval_mute hushed cond) fun _ _ => .bind (.ofValueOp _) fun holds _ => ?_
      cases holds
      · exact .fail rfl
      · exact .pure trivial
  | print format args =>
      exact .bind (evalAll_mute hushed args) fun _ _ => .bind .get fun _ _ => .bind .actor fun _ _ =>
        .bind (perform_mute hushed _) fun _ _ => .pure trivial
  | announce event payload =>
      exact .bind (eval_mute hushed event) fun _ _ => .bind (eval_mute hushed payload) fun _ _ => .bind .actor fun _ _ =>
        .bind (perform_mute hushed _) fun _ _ => .pure trivial
  | enqueue target event payload =>
      refine .bind ?_ fun _ (_ : True) => .pure trivial
      refine .bind (eval_mute hushed target) fun _ _ => .bind (.ofValueOp _) fun _ _ => .bind (eval_mute hushed event) fun value _ => ?_
      split
      · exact .bind (eval_mute hushed payload) fun _ _ => .bind .actor fun _ _ => perform_mute hushed _
      · exact .ofValueOp _
  | setGotoTarget state => exact .bind (.modifyActor (fun _ => rfl) fun _ => rfl) fun _ _ => .pure trivial
  | collectReturn dest =>
      unfold step
      rcases act.lastCall with _ | ⟨value, locals⟩ | reason
      · exact .trap rfl
      · exact stored dest _
      · exact .trap rfl
  | writeBack dest slot =>
      unfold step
      rcases act.lastCall with _ | ⟨value, locals⟩ | reason
      · exact .trap rfl
      · dsimp only
        split
        · exact stored dest _
        · exact .trap rfl
      · exact .trap rfl
  | readCreated dest =>
      refine .bind .actor fun actor _ => ?_
      split
      · exact .bind (.modifyActor (fun _ => rfl) fun _ => rfl) fun _ _ => stored dest _
      · exact .trap rfl
  | recordChoice number =>
      refine .bind .actor fun actor _ => ?_
      split
      · exact .bind (.modifyActor (fun _ => rfl) fun _ => rfl) fun _ _ => .pure trivial
      · exact .trap rfl

end

end Env

end Reentry
