import Reentry.Execution.Run
import Reentry.Proofs.Execution.Monad

/-!
What instructions are made of. A property of work that the smallest parts have, and that two parts have one after
the other if each has it, is a property of whole operands, places and instructions. Where an instruction does more
than look at values, change the heap or start a call, the property is asked for: where it jumps, saves the frame,
runs the callee on the stack, sends, overwrites the trigger or takes an answer of the scheduler.
-/

namespace Reentry

variable {σ α β : Type}

/-- Whether a trap says that control is lost: there is no instruction to go on with. -/
def Trap.losesControl : Trap → Bool
  | .pastEnd | .missingTarget _ | .noLanding _ => true
  | _ => false

def RuntimeFailure.losesControl : RuntimeFailure → Bool
  | .internal _ trap => trap.losesControl
  | _ => false

/-- Whether an instruction that has somewhere to go may fail with this cause by itself. -/
def RuntimeFailure.isLocal : RuntimeFailure → Bool
  | .assertionFailed _ | .value _ => true
  | .internal _ trap => !trap.losesControl
  | .callDepthExceeded _ => false

theorem RuntimeFailure.losesControl_of_isLocal {cause : RuntimeFailure} (isLocal : cause.isLocal = true) :
    cause.losesControl = false := by
  cases cause <;>
    first | rfl | simpa [RuntimeFailure.isLocal, RuntimeFailure.losesControl] using isLocal

/-- The label and the awaited callee of the frame that the instruction saves, if it saves one. -/
def Instr.parking? : Instr → Option (LabelId × Option FunctionId)
  | .yield request => request.resume?.map fun resume => (resume, none)
  | .propagateSuspension callee resume => some (resume, some callee)
  | _ => none

def Effect.isEnqueue : Effect → Bool
  | .enqueue .. => true
  | _ => false

/-- Whether the instruction takes an answer of the scheduler out of its register. -/
def Instr.takesAnswer : Instr → Bool
  | .readCreated _ | .recordChoice _ => true
  | _ => false

/-- Variables and places that the instruction overwrites as a whole. -/
def Instr.stored : Instr → List Place
  | .assign dest _ | .collectReturn dest | .writeBack dest _ | .readCreated dest => [dest]
  | .swap dest source => [dest, source]
  | .exchange _ _ source => [source]
  | _ => []

namespace Exec

/-- A property of work, whatever it results in. -/
abbrev Trait (σ : Type) := (α : Type) → Exec σ α → Prop

/-- The property holds of everything of which an instruction is made, and of one part after another. Starting a
call and running it inside an expression count as parts. -/
structure Composes (env : Env σ) (holds : Trait σ) : Prop where
  pure : ∀ {α : Type} (value : α), holds α (Pure.pure value)
  bind : ∀ {α β : Type} {work : Exec σ α} {rest : α → Exec σ β}, holds α work → (∀ value, holds β (rest value)) →
    holds β (work >>= rest)
  fail : ∀ {α : Type} {cause : RuntimeFailure}, cause.isLocal = true → holds α (Exec.fail cause)
  get : holds (Running σ) MonadState.get
  alloc : ∀ {α : Type} (work : Alloc α), holds α (Exec.ofAlloc work)
  values : ∀ {α : Type} (work : ValueOp α), holds α (Exec.ofValueOp work)
  actor : ∀ change : Actor → Actor, (∀ actor, (change actor).stack = actor.stack ∧ (change actor).trigger = actor.trigger ∧
    (change actor).resume = actor.resume) → holds Unit (Exec.modifyActor change)
  perform : ∀ effect : Effect, effect.isEnqueue = false → holds Unit (Exec.perform env.handler effect)
  start : ∀ callee args, holds Unit (env.startCall callee args)
  call : ∀ callee args, holds Value (env.callToEnd callee args)

namespace Composes

variable {env : Env σ} {holds : Trait σ} (parts : Composes env holds)
include parts

theorem readActor : holds Actor Exec.actor := parts.bind parts.get fun _ => parts.pure _

theorem map {work : Exec σ α} {change : α → β} (first : holds α work) : holds β (change <$> work) := by
  rw [map_eq_pure_bind]
  exact parts.bind first fun _ => parts.pure _

theorem trap {reason : Trap} (stays : reason.losesControl = false) : holds α (env.trap reason) :=
  parts.fail (by simp [RuntimeFailure.isLocal, stays])

end Composes

end Exec

namespace Env

open Exec

/-- Starting a call touches nothing but the heap and the actor. -/
theorem startCall_fails_locally (env : Env σ) (callee : FunctionId) (args : List Value) (state : Running σ) :
    Ends (env.startCall callee args) state (fun _ after => after.outside = state.outside ∧ after.depth = state.depth)
      fun stop after => after = state ∧ ∃ cause : RuntimeFailure, stop = .failed cause ∧ cause.isLocal = true := by
  have called : env.startCall callee args state
      = (ofHeapOp (Actor.startCall env.image callee args state.actor) >>= fun actor =>
        modifyActor fun _ => actor) state := rfl
  unfold Ends
  rw [called, bind_apply, ofHeapOp_apply]
  cases starts : (Actor.startCall env.image callee args state.actor).run state.heap with
  | ok started => exact ⟨rfl, rfl⟩
  | error cause =>
      refine ⟨rfl, cause, rfl, ?_⟩
      rcases Actor.startCall_eq_error starts with rfl | ⟨name, expected, rfl⟩ <;> rfl

variable {env : Env σ} {holds : Trait σ} {act : Activation}

mutual

theorem load_composes (parts : Composes env holds) : (place : Place) → holds Value (env.load act place)
  | .slot index => by
      unfold load
      split
      · exact parts.pure _
      · exact parts.trap rfl
  | .field index => by
      refine parts.bind parts.readActor fun actor => ?_
      split
      · exact parts.pure _
      · exact parts.trap rfl
  | .trigger | .payload => parts.bind parts.readActor fun _ => parts.pure _
  | .part base index => parts.bind (load_composes parts base) fun _ => parts.values _
  | .element base key kind =>
      parts.bind (load_composes parts base) fun _ => parts.bind (parts.values _) fun _ =>
        parts.bind (eval_composes parts key) fun _ => parts.values _

theorem eval_composes (parts : Composes env holds) : (operand : Operand) → holds Value (env.eval act operand)
  | .const _ => parts.pure _
  | .this => parts.bind parts.readActor fun _ => parts.pure _
  | .load place => load_composes parts place
  | .clone inner => parts.bind (eval_composes parts inner) fun _ => parts.alloc _
  | .unary op arg => parts.bind (eval_composes parts arg) fun _ => parts.values _
  | .binary op lhs rhs => by
      have right := eval_composes parts rhs
      cases op <;> refine parts.bind (eval_composes parts lhs) fun left => ?_
      case and | or =>
        refine parts.bind (parts.values _) fun decided => ?_
        cases decided
        all_goals first | exact parts.pure _ | exact parts.bind right fun _ => parts.bind (parts.values _) fun _ => parts.pure _
      all_goals exact parts.bind right fun _ => parts.values _
  | .lookup base key kind =>
      parts.bind (eval_composes parts base) fun _ => parts.bind (parts.values _) fun _ =>
        parts.bind (eval_composes parts key) fun _ => parts.values _
  | .part base index => parts.bind (eval_composes parts base) fun _ => parts.values _
  | .tuple items => parts.bind (evalAll_composes parts items) fun _ => parts.alloc _
  | .named fields => parts.bind (evalFields_composes parts fields) fun _ => parts.alloc _
  | .default ty => parts.alloc _
  | .cast value ty => parts.bind (eval_composes parts value) fun _ => parts.values _
  | .call callee args => parts.bind (evalArguments_composes parts args) fun _ => parts.call callee _
  | .choice number => by
      unfold eval
      split
      · exact parts.pure _
      · exact parts.trap rfl

theorem evalAll_composes (parts : Composes env holds) : (operands : List Operand) → holds (List Value) (env.evalAll act operands)
  | [] => parts.pure _
  | operand :: rest =>
      parts.bind (eval_composes parts operand) fun _ => parts.bind (evalAll_composes parts rest) fun _ => parts.pure _

theorem evalFields_composes (parts : Composes env holds) : (fields : List (String × Operand)) →
    holds (List (String × Value)) (env.evalFields act fields)
  | [] => parts.pure _
  | (_, operand) :: rest =>
      parts.bind (eval_composes parts operand) fun _ => parts.bind (evalFields_composes parts rest) fun _ => parts.pure _

theorem evalArguments_composes (parts : Composes env holds) : (args : List Argument) →
    holds (List Value) (env.evalArguments act args)
  | [] => parts.pure _
  | .mk operand _ :: rest =>
      parts.bind (eval_composes parts operand) fun _ => parts.bind (evalArguments_composes parts rest) fun _ => parts.pure _

end

section

variable (parts : Composes env holds)
include parts

theorem store_composes (place : Place) (value : Value) (triggers : place = .trigger → ∀ value,
      holds Unit (Exec.modifyActor fun actor => { actor with trigger := value })) :
    holds Activation (env.store act place value) := by
  cases place with
  | slot index =>
      simp only [store]
      split
      · exact parts.pure _
      · exact parts.trap rfl
  | field index =>
      refine parts.bind parts.readActor fun actor => ?_
      split
      · exact parts.bind (parts.actor _ fun _ => ⟨rfl, rfl, rfl⟩) fun _ => parts.pure _
      · exact parts.trap rfl
  | trigger => exact parts.bind (triggers rfl value) fun _ => parts.pure _
  | payload => exact parts.bind (parts.actor _ fun _ => ⟨rfl, rfl, rfl⟩) fun _ => parts.pure _
  | part base index =>
      exact parts.bind (load_composes parts base) fun _ => parts.bind (parts.values _) fun _ => parts.pure _
  | element base key kind =>
      exact parts.bind (load_composes parts base) fun _ => parts.bind (parts.values _) fun _ =>
        parts.bind (eval_composes parts key) fun _ => parts.bind (parts.values _) fun _ => parts.pure _

theorem replacePart_composes (container : Value) (selector : Selector) (value : Value) :
    holds Value (env.replacePart act container selector value) := by
  cases selector with
  | part index => exact parts.values _
  | element key kind =>
      exact parts.bind (parts.values _) fun _ => parts.bind (eval_composes parts key) fun _ => parts.values _

theorem request_composes (request : YieldRequest)
    (parks : ∀ resume, request.resume? = some resume → holds Activation (env.saveFrame act resume none)) :
    holds (Activation × Continuation) (env.request act request) := by
  cases request with
  | goto | raise | pop | ret => exact parts.pure _
  | send resume | receive resume | nondet resume => exact parts.bind (parks resume rfl) fun _ => parts.pure _
  | new machine payload resume =>
      exact parts.bind (eval_composes parts payload) fun _ => parts.bind (parks resume rfl) fun _ => parts.pure _
  | retValue value => exact parts.bind (eval_composes parts value) fun _ => parts.pure _

theorem dispatchReceive_composes (arms : List ReceiveArm)
    (jumps : ∀ arm ∈ arms, holds Nat (env.position (.label arm.entry))) : holds Nat (env.dispatchReceive arms) := by
  refine parts.bind parts.readActor fun actor => ?_
  split
  · exact parts.bind parts.get fun _ => parts.trap rfl
  next arm chosen =>
      have arrives : holds Nat (env.position (.label arm.entry)) :=
        jumps arm (List.mem_filter.mp (chosen ▸ List.mem_singleton_self arm)).1
      refine parts.bind (parts.actor _ fun _ => ⟨rfl, rfl, rfl⟩) fun _ => ?_
      split
      · exact parts.trap rfl
      · split
        · exact parts.bind (parts.start _ _) fun _ => arrives
        · exact parts.bind (parts.alloc _) fun _ => parts.bind (parts.start _ _) fun _ => arrives
  · exact parts.bind parts.get fun _ => parts.trap rfl

theorem enqueue_composes (target event payload : Operand)
    (sends : ∀ sender target event payload, holds Unit (Exec.perform env.handler (.enqueue sender target event payload))) :
    holds Unit (env.enqueue act target event payload) := by
  refine parts.bind (eval_composes parts target) fun _ => parts.bind (parts.values _) fun _ =>
    parts.bind (eval_composes parts event) fun event' => ?_
  split
  · exact parts.bind (eval_composes parts payload) fun _ => parts.bind parts.readActor fun _ => sends _ _ _ _
  · exact parts.values _

/-- Every instruction has the property, if jumping, saving the frame, running the callee, sending, overwriting the trigger
and taking an answer have it. -/
theorem step_composes {instr : Instr}
    (jumps : ∀ target ∈ instr.targets, holds Nat (env.position target))
    (parks : ∀ resume callee, instr.parking? = some (resume, callee) → holds Activation (env.saveFrame act resume callee))
    (invokes : ∀ callee, instr = .invoke callee → holds Continuation (env.invoke callee))
    (sends : ∀ target event payload, instr = .enqueue target event payload → holds Unit (env.enqueue act target event payload))
    (triggers : .trigger ∈ instr.stored → ∀ value, holds Unit (Exec.modifyActor fun actor => { actor with trigger := value }))
    (answers : instr.takesAnswer → ∀ change : ResumeInput → ResumeInput,
      holds Unit (Exec.modifyActor fun actor => { actor with resume := change actor.resume })) :
    holds Flow (env.step act instr) := by
  have stored {act : Activation} (place : Place) (value : Value) (among : place ∈ instr.stored) :
      holds Flow (Flow.next <$> env.store act place value) :=
    parts.map (store_composes parts place value fun same => triggers (same ▸ among))
  cases instr with
  | invoke callee => exact parts.bind (invokes callee rfl) fun _ => parts.pure _
  | label _ | mark _ => exact parts.pure _
  | jump target => exact parts.bind (jumps target (List.mem_singleton_self _)) fun _ => parts.pure _
  | jumpUnless cond target =>
      refine parts.bind (eval_composes parts cond) fun _ => parts.bind (parts.values _) fun decided => ?_
      cases decided
      · exact parts.bind (jumps target (List.mem_singleton_self _)) fun _ => parts.pure _
      · exact parts.pure _
  | assign dest value => exact parts.bind (eval_composes parts value) fun _ => stored dest _ (by simp [Instr.stored])
  | swap dest source =>
      exact parts.bind (load_composes parts dest) fun _ => parts.bind (load_composes parts source) fun _ =>
        parts.bind (store_composes parts dest _ fun same => triggers (by simp [Instr.stored, same])) fun _ =>
          stored source _ (by simp [Instr.stored])
  | update container selector value =>
      exact parts.bind (eval_composes parts value) fun _ => parts.bind (load_composes parts container) fun _ =>
        parts.bind (replacePart_composes parts _ selector _) fun _ => parts.pure _
  | exchange container selector source =>
      exact parts.bind (load_composes parts source) fun _ => parts.bind (load_composes parts container) fun _ =>
        parts.bind (replacePart_composes parts _ selector _) fun _ => stored source _ (by simp [Instr.stored])
  | remove container kind key =>
      exact parts.bind (eval_composes parts key) fun _ => parts.bind (load_composes parts container) fun _ =>
        parts.bind (parts.values _) fun _ => parts.bind (parts.values _) fun _ => parts.pure _
  | insert container kind entry =>
      exact parts.bind (eval_composes parts entry) fun _ => parts.bind (load_composes parts container) fun _ =>
        parts.bind (parts.values _) fun _ => parts.bind (parts.values _) fun _ => parts.bind (parts.values _) fun _ =>
          parts.bind (parts.values _) fun _ => parts.pure _
  | assert cond message =>
      refine parts.bind (eval_composes parts cond) fun _ => parts.bind (parts.values _) fun decided => ?_
      cases decided
      · exact parts.fail rfl
      · exact parts.pure _
  | print format args =>
      exact parts.bind (evalAll_composes parts args) fun _ => parts.bind parts.get fun _ => parts.bind parts.readActor fun _ =>
        parts.bind (parts.perform _ rfl) fun _ => parts.pure _
  | announce event payload =>
      exact parts.bind (eval_composes parts event) fun _ => parts.bind (eval_composes parts payload) fun _ =>
        parts.bind parts.readActor fun _ => parts.bind (parts.perform _ rfl) fun _ => parts.pure _
  | enqueue target event payload => exact parts.bind (sends target event payload rfl) fun _ => parts.pure _
  | setGotoTarget state => exact parts.bind (parts.actor _ fun _ => ⟨rfl, rfl, rfl⟩) fun _ => parts.pure _
  | registerReceive event =>
      refine parts.bind (parts.actor _ fun actor => ?_) fun _ => parts.pure _
      by_cases member : event ∈ actor.receiveSet <;> simp only [member, if_true, if_false, and_self]
  | dispatchReceive arms =>
      exact parts.bind (dispatchReceive_composes parts arms fun arm among => jumps _ (List.mem_map_of_mem among)) fun _ =>
        parts.pure _
  | pushFrame callee args =>
      exact parts.bind (evalArguments_composes parts args) fun _ => parts.bind (parts.start callee _) fun _ => parts.pure _
  | propagateSuspension callee resume =>
      simp only [step]
      split
      · exact parts.bind (parks resume (some callee) rfl) fun _ => parts.pure _
      · exact parts.pure _
      · exact parts.trap rfl
  | collectReturn dest =>
      simp only [step]
      split
      · exact stored dest _ (by simp [Instr.stored])
      · exact parts.trap rfl
  | writeBack dest slot =>
      simp only [step]
      split
      · split
        · exact stored dest _ (by simp [Instr.stored])
        · exact parts.trap rfl
      · exact parts.trap rfl
  | readCreated dest =>
      refine parts.bind parts.readActor fun actor => ?_
      cases actor.resume.created with
      | none => exact parts.trap rfl
      | some created =>
          exact parts.bind (answers rfl fun resume => { resume with created := none }) fun _ =>
            stored dest _ (by simp [Instr.stored])
  | recordChoice number =>
      refine parts.bind parts.readActor fun actor => ?_
      cases actor.resume.nondet with
      | none => exact parts.trap rfl
      | some chosen => exact parts.bind (answers rfl fun resume => { resume with nondet := none }) fun _ => parts.pure _
  | «yield» request =>
      have saves (resume : LabelId) (resumes : request.resume? = some resume) : holds Activation (env.saveFrame act resume none) :=
        parks resume none (by rw [Instr.parking?, resumes]; rfl)
      exact parts.bind (request_composes parts request saves) fun _ => parts.pure _
  | exit =>
      simp only [step]
      split
      · exact parts.pure _
      · exact parts.trap rfl

end

end Env

end Reentry
