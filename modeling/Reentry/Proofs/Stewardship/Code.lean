import Reentry.Execution.Run
import Reentry.Proofs.Execution.Monad
import Reentry.Proofs.Execution.Parts
import Reentry.Proofs.Frames.Step
import Reentry.Proofs.Stewardship.Operation

/-!
What running code gets hold of. A value that it works with is one that its actor or its locals had before, or it is
the result of an operation on such values. So whatever operations on owned values keep, code keeps, if its callees and
the handler of effects do: only how it sends is left open.
-/

namespace Reentry

open Exec

variable {σ α β : Type}

def YieldReason.values : YieldReason → List Value
  | .new _ payload => [payload]
  | .goto | .raise | .send | .receive | .nondet | .pop => []

/-- Everything that a call hands back. -/
def Continuation.values : Continuation → List Value
  | .completed value locals => value.toList ++ locals
  | .suspended reason => reason.values

/-- Everything that a running call has hold of. -/
def Activation.values (act : Activation) : List Value :=
  act.locals ++ act.lastCall.toList.flatMap Continuation.values ++ act.pending.toList.flatMap Continuation.values

/-- Everything that a call has hold of after an instruction. -/
def Flow.values : Flow → List Value
  | .next act => act.values
  | .leave result => result.values

/-- What an effect shows to its handler. -/
def Effect.values : Effect → List Value
  | .enqueue _ _ event payload | .announce _ event payload => [event, payload]
  | .print _ _ => []

theorem Constant.value_scalar (constant : Constant) : ∀ address, constant.value ≠ .cell address := by
  cases constant <;> exact nofun

namespace Exec

/-- A property of work in a state, given the cells that may be used, and of the values in what the work results in. -/
abbrev Account (σ : Type) := (α : Type) → Region → Running σ → Exec σ α → (α → List Value) → Prop

/-- The property says that the cells used in the end own the results, and operations on owned values have it, as has
everything that does no more than pass values on. -/
structure Stewards (keeps : Account σ) : Prop where
  pure : ∀ {α : Type} {region state} {values : α → List Value} {result : α}, region.OwnsAll (values result) →
    keeps α region state (Pure.pure result) values
  stop : ∀ {α : Type} {region state} {values : α → List Value} (stop : Stop), keeps α region state (throw stop) values
  bind : ∀ {α β : Type} {region state} {values : α → List Value} {later : β → List Value} {work : Exec σ α}
    {rest : α → Exec σ β}, keeps α region state work values →
      (∀ result after more, work state = .ok result after → region.Inside more → more.OwnsAll (values result) →
        keeps β more after (rest result) later) → keeps β region state (work >>= rest) later
  get : ∀ {α : Type} {region state} {values : α → List Value} {rest : Running σ → Exec σ α},
    (region.OwnsAll state.actor.roots → keeps α region state (rest state) values) →
      keeps α region state (MonadState.get >>= rest) values
  modifyActor : ∀ {region state} {change : Actor → Actor},
    (region.OwnsAll state.actor.roots → region.OwnsAll (change state.actor).roots) →
      keeps Unit region state (modifyActor change) fun _ => []
  quiet : ∀ {α : Type} {region state} {work : ValueOp α}, work.Quiet → keeps α region state (ofValueOp work) fun _ => []
  operate : ∀ {region state} (op : Operation), region.OwnsAll op.operands →
    keeps Value region state (ofValueOp op.perform) fun result => [result]
  start : ∀ {region state} (image : Image) (function : FunctionId) (args : List Value), region.OwnsAll args →
    keeps Unit region state (do
      let actor ← ofHeapOp (Actor.startCall image function args (← actor))
      Exec.modifyActor fun _ => actor) fun _ => []
  counted : ∀ {α : Type} {region state} {values : α → List Value} {work : Exec σ α},
    (∀ state, keeps α region state work values) → keeps α region state (counted work) values

/-- The same without what overwrites cells, and without work that fails because a key holds its map. -/
structure Readers (keeps : Account σ) : Prop where
  pure : ∀ {α : Type} {region state} {values : α → List Value} {result : α}, region.OwnsAll (values result) →
    keeps α region state (Pure.pure result) values
  stop : ∀ {α : Type} {region state} {values : α → List Value} {stop : Stop}, stop ≠ .failed (.value .keyHoldsMap) →
    keeps α region state (throw stop) values
  bind : ∀ {α β : Type} {region state} {values : α → List Value} {later : β → List Value} {work : Exec σ α}
    {rest : α → Exec σ β}, keeps α region state work values →
      (∀ result after more, work state = .ok result after → region.Inside more → more.OwnsAll (values result) →
        keeps β more after (rest result) later) → keeps β region state (work >>= rest) later
  get : ∀ {α : Type} {region state} {values : α → List Value} {rest : Running σ → Exec σ α},
    (region.OwnsAll state.actor.roots → keeps α region state (rest state) values) →
      keeps α region state (MonadState.get >>= rest) values
  modifyActor : ∀ {region state} {change : Actor → Actor},
    (region.OwnsAll state.actor.roots → region.OwnsAll (change state.actor).roots) →
      keeps Unit region state (modifyActor change) fun _ => []
  quiet : ∀ {α : Type} {region state} {work : ValueOp α}, work.Quiet → work.Unhindered →
    keeps α region state (ofValueOp work) fun _ => []
  operate : ∀ {region state} (op : Operation), op.overwrites = false → region.OwnsAll op.operands →
    keeps Value region state (ofValueOp op.perform) fun result => [result]
  start : ∀ {region state} (image : Image) (function : FunctionId) (args : List Value), region.OwnsAll args →
    keeps Unit region state (do
      let actor ← ofHeapOp (Actor.startCall image function args (← actor))
      Exec.modifyActor fun _ => actor) fun _ => []
  counted : ∀ {α : Type} {region state} {values : α → List Value} {work : Exec σ α},
    (∀ state, keeps α region state work values) → keeps α region state (counted work) values

theorem Stewards.readers {keeps : Account σ} (stewards : Stewards keeps) : Readers keeps where
  pure := stewards.pure
  stop _ := stewards.stop _
  bind := stewards.bind
  get := stewards.get
  modifyActor := stewards.modifyActor
  quiet quiet _ := stewards.quiet quiet
  operate op _ := stewards.operate op
  start := stewards.start
  counted := stewards.counted

namespace Readers

variable {keeps : Account σ} {region : Region} {state : Running σ} {values : α → List Value} {later : β → List Value}

section

variable (readers : Readers keeps)
include readers

theorem trap (function : String) (reason : Trap) : keeps α region state (trap function reason) values := readers.stop nofun

theorem next {work : Exec σ α} {rest : α → Exec σ β} (first : keeps α region state work values)
    (next : ∀ result after more, region.Inside more → more.OwnsAll (values result) → keeps β more after (rest result) later) :
    keeps β region state (work >>= rest) later := readers.bind first fun result after more _ => next result after more

theorem actor {rest : Actor → Exec σ α}
    (next : region.OwnsAll state.actor.roots → keeps α region state (rest state.actor) values) :
    keeps α region state (Exec.actor >>= rest) values := readers.get next

theorem map {work : Exec σ α} {change : α → β} (first : keeps α region state work values)
    (same : ∀ result, later (change result) = values result) : keeps β region state (change <$> work) later := by
  rw [map_eq_pure_bind]
  exact readers.next first fun result _ _ _ owns => readers.pure (by rwa [same])

theorem scalar {value : Value} (scalar : ∀ address, value ≠ .cell address) :
    keeps Value region state (Pure.pure value) fun value => [value] :=
  readers.pure (by simpa using Region.owns_scalar scalar)

/-- What cannot fail is an operation like others. -/
theorem alloc {work : Alloc Value} (op : Operation) (calm : op.overwrites = false) (same : op.perform = work.toOp)
    (owns : region.OwnsAll op.operands) : keeps Value region state (ofAlloc work) fun result => [result] := by
  have did : ofAlloc work = (ofValueOp op.perform : Exec σ Value) := by
    rw [same]
    rfl
  rw [did]
  exact readers.operate op calm owns

/-- An operation of which the result is not looked at. -/
theorem discard {work : ValueOp Unit} (op : Operation) (same : work = (do let _ ← op.perform; Pure.pure ()))
    (operates : keeps Value region state (ofValueOp op.perform) fun result => [result]) :
    keeps Unit region state (ofValueOp work) fun _ => [] := by
  have did : ofValueOp work = (do let _ ← ofValueOp op.perform; Pure.pure () : Exec σ Unit) := by
    funext state
    rw [same, bind_apply, ofValueOp_apply, ofValueOp_apply, StateT.run_bind]
    cases op.perform.run state.heap <;> rfl
  rw [did]
  exact readers.next operates fun _ _ _ _ _ => readers.pure Region.ownsAll_nil

end

end Readers

/-- What only looks at the heap leaves the state as it is. -/
theorem quiet_eq_ok {work : ValueOp α} (quiet : work.Quiet) {state after : Running σ} {result : α}
    (ran : ofValueOp work state = .ok result after) : after = state ∧ work.run state.heap = .ok (result, state.heap) := by
  rw [ofValueOp_apply] at ran
  rcases quiet state.heap with ⟨given, done⟩ | ⟨error, done⟩
  · rw [done] at ran
    cases ran
    exact ⟨rfl, done⟩
  · rw [done] at ran
    cases ran

end Exec

namespace Env

/-- Surroundings of code that keep what it keeps. -/
structure Serves (env : Env σ) (keeps : Account σ) : Prop where
  invokes : ∀ callee region state, keeps Continuation region state (env.invoke callee) Continuation.values
  performs : ∀ effect region state, effect.isEnqueue = false → region.OwnsAll effect.values →
    keeps Unit region state (perform env.handler effect) fun _ => []

/-- The code keeps it also where it sends. -/
def Sends (env : Env σ) (keeps : Account σ) : Prop :=
  ∀ target event payload act region state, .enqueue target event payload ∈ env.routine.body →
    region.OwnsAll act.values → keeps Unit region state (env.enqueue act target event payload) fun _ => []

variable {keeps : Account σ} {env : Env σ} {region : Region} {state : Running σ} {act : Activation}

theorem expectKind_quiet (kind : ContainerKind) (container : Value) : ∃ work : ValueOp Unit, work.Quiet ∧ work.Unhindered ∧
    (expectKind kind container : Exec σ Unit) = ofValueOp work := by
  refine ⟨_, .bind .get fun heap => ?_, .bind .get fun heap => ?_, rfl⟩ <;> split
  all_goals first | exact .pure _ | exact .mismatch _ _ _

theorem expectKind_eq_ok {kind : ContainerKind} {container : Value} {after : Running σ}
    (ran : expectKind kind container state = .ok () after) : after = state := by
  obtain ⟨work, quiet, _, same⟩ := @expectKind_quiet σ kind container
  rw [same] at ran
  exact (quiet_eq_ok quiet ran).1

theorem expectKind_reads (readers : Readers keeps) (kind : ContainerKind) (container : Value) :
    keeps Unit region state (expectKind kind container) fun _ => [] := by
  obtain ⟨work, quiet, unhindered, same⟩ := @expectKind_quiet σ kind container
  rw [same]
  exact readers.quiet quiet unhindered

theorem callToEnd_reads (readers : Readers keeps) (serves : env.Serves keeps) {callee : FunctionId} {args : List Value}
    (owns : region.OwnsAll args) : keeps Value region state (env.callToEnd callee args) fun result => [result] := by
  refine readers.next (readers.start _ callee args owns) fun _ _ _ _ _ =>
    readers.next (serves.invokes _ _ _) fun result _ more _ returned => ?_
  cases result with
  | completed value locals =>
      refine readers.pure (Region.ownsAll_cons.mpr ⟨?_, Region.ownsAll_nil⟩)
      cases value with
      | none => exact Region.owns_null
      | some value => exact returned value (by simp [Continuation.values])
  | suspended reason => exact readers.trap _ _

mutual

theorem load_reads (readers : Readers keeps) (serves : env.Serves keeps) {region : Region} {state : Running σ}
    (locals : region.OwnsAll act.locals) : (place : Place) → keeps Value region state (env.load act place) fun value => [value]
  | .slot index => by
      unfold load
      split
      next value found => exact readers.pure (by simpa using locals.getElem? found)
      next => exact readers.trap _ _
  | .field index => by
      refine readers.actor fun roots => ?_
      split
      next value found => exact readers.pure (by simpa using roots value (by simp [Actor.roots, List.mem_of_getElem? found]))
      next => exact readers.trap _ _
  | .trigger => readers.actor fun roots => readers.pure (by simpa using roots _ (by simp [Actor.roots]))
  | .payload => readers.actor fun roots => readers.pure (by simpa using roots _ (by simp [Actor.roots]))
  | .part base index => readers.next (load_reads readers serves locals base) fun tuple _ _ _ own =>
      readers.operate (.field tuple index) rfl own
  | .element base key kind => readers.next (load_reads readers serves locals base) fun container _ _ grown own =>
      readers.next (expectKind_reads readers _ _) fun _ _ _ grown' _ =>
        readers.next (eval_reads readers serves ((locals.mono grown).mono grown') key) fun key _ _ grown'' named =>
          readers.operate (.lookup container key) rfl (Region.ownsAll_append.mpr ⟨(own.mono grown').mono grown'', named⟩)

theorem eval_reads (readers : Readers keeps) (serves : env.Serves keeps) {region : Region} {state : Running σ}
    (locals : region.OwnsAll act.locals) : (operand : Operand) → keeps Value region state (env.eval act operand) fun value => [value]
  | .const constant => readers.scalar constant.value_scalar
  | .this => readers.actor fun _ => readers.scalar nofun
  | .load place => load_reads readers serves locals place
  | .clone inner => readers.next (eval_reads readers serves locals inner) fun value _ _ _ own =>
      readers.alloc (.copy value) rfl rfl own
  | .unary op arg => readers.next (eval_reads readers serves locals arg) fun value _ _ _ own =>
      readers.operate (.unary op value) rfl own
  | .binary op lhs rhs => by
      have applied {region : Region} {state : Running σ} {left right : Value} (op : BinaryOp) (owns : region.OwnsAll [left, right]) :
          keeps Value region state (ofValueOp (op.apply left right)) fun value => [value] :=
        readers.operate (.binary op left right) rfl owns
      refine readers.next (eval_reads readers serves locals lhs) fun left after more grown owned => ?_
      cases op with
      | and | or =>
          refine readers.next (readers.quiet (.asBool _ _) (.asBool _ _)) fun holds _ _ inside _ => ?_
          cases holds
          all_goals first
            | exact readers.scalar nofun
            | exact readers.next (eval_reads readers serves ((locals.mono grown).mono inside) rhs) fun _ _ _ _ _ =>
                readers.next (readers.quiet (.asBool _ _) (.asBool _ _)) fun _ _ _ _ _ => readers.scalar nofun
      | _ => exact readers.next (eval_reads readers serves (locals.mono grown) rhs) fun right _ _ inside own =>
          applied _ (Region.ownsAll_append.mpr ⟨owned.mono inside, own⟩)
  | .lookup base key kind => readers.next (eval_reads readers serves locals base) fun container _ _ grown own =>
      readers.next (expectKind_reads readers _ _) fun _ _ _ grown' _ =>
        readers.next (eval_reads readers serves ((locals.mono grown).mono grown') key) fun key _ _ grown'' named =>
          readers.operate (.lookup container key) rfl (Region.ownsAll_append.mpr ⟨(own.mono grown').mono grown'', named⟩)
  | .part base index => readers.next (eval_reads readers serves locals base) fun tuple _ _ _ own =>
      readers.operate (.field tuple index) rfl own
  | .tuple items => readers.next (evalAll_reads readers serves locals items) fun values _ _ _ owned =>
      readers.alloc (.tuple values) rfl rfl owned
  | .named fields => readers.next (evalFields_reads readers serves locals fields) fun values _ _ _ owned =>
      readers.alloc (.named values) rfl rfl owned
  | .default ty => readers.alloc (.build ty.initial) rfl rfl Region.ownsAll_nil
  | .cast value ty => readers.next (eval_reads readers serves locals value) fun value _ _ _ own =>
      readers.operate (.cast value ty) rfl own
  | .call callee args => readers.next (evalArguments_reads readers serves locals args) fun _ _ _ _ owned =>
      callToEnd_reads readers serves owned
  | .choice number => by
      unfold eval
      split
      · exact readers.scalar nofun
      · exact readers.trap _ _

theorem evalAll_reads (readers : Readers keeps) (serves : env.Serves keeps) {region : Region} {state : Running σ}
    (locals : region.OwnsAll act.locals) : (operands : List Operand) → keeps (List Value) region state (env.evalAll act operands) id
  | [] => readers.pure Region.ownsAll_nil
  | operand :: rest => readers.next (eval_reads readers serves locals operand) fun _ _ _ grown owned =>
      readers.next (evalAll_reads readers serves (locals.mono grown) rest) fun _ _ _ grown' others =>
        readers.pure (Region.ownsAll_cons.mpr ⟨by simpa using owned.mono grown', others⟩)

theorem evalFields_reads (readers : Readers keeps) (serves : env.Serves keeps) {region : Region} {state : Running σ}
    (locals : region.OwnsAll act.locals) : (fields : List (String × Operand)) →
      keeps (List (String × Value)) region state (env.evalFields act fields) (List.map Prod.snd)
  | [] => readers.pure Region.ownsAll_nil
  | (name, operand) :: rest => readers.next (eval_reads readers serves locals operand) fun _ _ _ grown owned =>
      readers.next (evalFields_reads readers serves (locals.mono grown) rest) fun _ _ _ grown' others =>
        readers.pure (Region.ownsAll_cons.mpr ⟨by simpa using owned.mono grown', others⟩)

theorem evalArguments_reads (readers : Readers keeps) (serves : env.Serves keeps) {region : Region} {state : Running σ}
    (locals : region.OwnsAll act.locals) : (args : List Argument) →
      keeps (List Value) region state (env.evalArguments act args) id
  | [] => readers.pure Region.ownsAll_nil
  | .mk operand _ :: rest => readers.next (eval_reads readers serves locals operand) fun _ _ _ grown owned =>
      readers.next (evalArguments_reads readers serves (locals.mono grown) rest) fun _ _ _ grown' others =>
        readers.pure (Region.ownsAll_cons.mpr ⟨by simpa using owned.mono grown', others⟩)

end

section

variable (stewards : Stewards keeps) (serves : env.Serves keeps) (locals : region.OwnsAll act.locals)
include stewards serves locals

theorem load_keeps (place : Place) : keeps Value region state (env.load act place) fun value => [value] :=
  load_reads stewards.readers serves locals place

theorem eval_keeps (operand : Operand) : keeps Value region state (env.eval act operand) fun value => [value] :=
  eval_reads stewards.readers serves locals operand

theorem evalArguments_keeps (args : List Argument) : keeps (List Value) region state (env.evalArguments act args) id :=
  evalArguments_reads stewards.readers serves locals args

end

end Env

end Reentry
