import Reentry.Proofs.Execution.Monad
import Reentry.Proofs.Structure.Course

/-!
Runs that carry more outside than the program needs, such as a record of what has happened. If the handler of
effects does the same on what is seen through a view, whatever else it keeps, then so does a whole run: code
cannot tell what lies outside.
-/

namespace Reentry

variable {τ σ α β : Type}

/-- Through the view the one handler does what the other one does. -/
def Handler.Views (view : τ → σ) (rich : Handler τ) (plain : Handler σ) : Prop :=
  ∀ heap effect outside, (rich heap effect outside).map view = plain heap effect (view outside)

/-- The state with what is seen of its outside through the view. -/
def Running.through (view : τ → σ) (state : Running τ) : Running σ := ⟨state.heap, state.actor, view state.outside, state.depth⟩

namespace Exec

/-- What is seen through the view of what comes of a run. -/
def seen (view : τ → σ) : EStateM.Result Stop (Running τ) α → EStateM.Result Stop (Running σ) α
  | .ok result state => .ok result (state.through view)
  | .error stop state => .error stop (state.through view)

/-- Through the view the one run is the other. -/
def Views (view : τ → σ) (rich : Exec τ α) (plain : Exec σ α) : Prop :=
  ∀ state, seen view (rich state) = plain (state.through view)

namespace Views

variable {view : τ → σ} {rich : Exec τ α} {plain : Exec σ α}

theorem pure {value : α} : Views view (Pure.pure value : Exec τ α) (Pure.pure value) := fun _ => rfl

theorem throw {stop : Stop} : Views view (MonadExcept.throw stop : Exec τ α) (MonadExcept.throw stop) := fun _ => rfl

theorem fail {cause : RuntimeFailure} : Views view (fail cause : Exec τ α) (fail cause) := fun _ => rfl

theorem bind {rest : α → Exec τ β} {rest' : α → Exec σ β} (first : Views view rich plain)
    (next : ∀ value, Views view (rest value) (rest' value)) : Views view (rich >>= rest) (plain >>= rest') := by
  intro state
  rw [bind_apply, bind_apply, ← first state]
  cases rich state with
  | ok value after => exact next value after
  | error stop after => rfl

theorem map {change : α → β} (first : Views view rich plain) : Views view (change <$> rich) (change <$> plain) := by
  intro state
  rw [map_apply, map_apply, ← first state]
  cases rich state <;> rfl

theorem get {rest : Running τ → Exec τ β} {rest' : Running σ → Exec σ β}
    (next : ∀ state, Views view (rest state) (rest' (state.through view))) :
    Views view (MonadState.get >>= rest) (MonadState.get >>= rest') := fun state => next state state

theorem actor : Views view (actor : Exec τ Actor) actor := fun _ => rfl

theorem modifyActor {change : Actor → Actor} : Views view (modifyActor change : Exec τ Unit) (modifyActor change) :=
  fun _ => rfl

theorem ofAlloc {work : Alloc α} : Views view (ofAlloc work : Exec τ α) (ofAlloc work) := fun _ => rfl

theorem ofHeapOp {work : HeapOp α} : Views view (ofHeapOp work : Exec τ α) (ofHeapOp work) := by
  intro state
  rw [ofHeapOp_apply, ofHeapOp_apply]
  simp only [Running.through]
  cases work.run state.heap <;> rfl

theorem ofValueOp {work : ValueOp α} : Views view (ofValueOp work : Exec τ α) (ofValueOp work) := by
  intro state
  rw [ofValueOp_apply, ofValueOp_apply]
  simp only [Running.through]
  cases work.run state.heap <;> rfl

theorem perform {handler : Handler τ} {handler' : Handler σ} {effect : Effect} (views : handler.Views view handler') :
    Views view (perform handler effect) (perform handler' effect) := by
  intro state
  rw [perform_apply, perform_apply]
  simp only [Running.through]
  rw [← views]
  cases handler state.heap effect state.outside <;> rfl

theorem counted (first : Views view rich plain) : Views view (counted rich) (counted plain) := by
  intro state
  unfold Exec.counted
  have same := first { state with depth := state.depth + 1 }
  change _ = plain { state.through view with depth := (state.through view).depth + 1 } at same
  rw [← same]
  cases rich { state with depth := state.depth + 1 } <;> rfl

/-- Only the one run looks at the state. -/
theorem look {rest : Running τ → Exec τ α} (next : ∀ state, Views view (rest state) plain) :
    Views view (MonadState.get >>= rest) plain := fun state => next state state

end Views

end Exec

open Exec

/-- Surroundings in which everything is, through the view, as in the others. -/
structure Env.Views (view : τ → σ) (env : Env τ) (plain : Env σ) : Prop where
  image : env.image = plain.image
  routine : env.routine = plain.routine
  handler : env.handler.Views view plain.handler
  invokes : ∀ callee, Exec.Views view (env.invoke callee) (plain.invoke callee)

namespace Env

variable {view : τ → σ} {env : Env τ} {plain : Env σ} {act : Activation}

section

variable (views : env.Views view plain)
include views

theorem trap_views {reason : Trap} : Exec.Views view (env.trap reason : Exec τ α) (plain.trap reason) := by
  unfold trap
  rw [views.routine]
  exact .fail

theorem position_views (target : Target) : Exec.Views view (env.position target) (plain.position target) := by
  unfold position
  rw [views.routine]
  cases plain.routine.position? target with
  | some place => exact .pure
  | none => exact trap_views views

theorem startCall_views (callee : FunctionId) (args : List Value) :
    Exec.Views view (env.startCall callee args) (plain.startCall callee args) := by
  unfold startCall
  rw [views.image]
  exact .bind .actor fun _ => .bind .ofHeapOp fun _ => .modifyActor

theorem callToEnd_views (callee : FunctionId) (args : List Value) :
    Exec.Views view (env.callToEnd callee args) (plain.callToEnd callee args) := by
  refine .bind (startCall_views views callee args) fun _ => .bind (views.invokes callee) fun result => ?_
  cases result with
  | completed value locals => exact .pure
  | suspended reason => exact trap_views views

end

theorem expectKind_views (kind : ContainerKind) (container : Value) :
    Exec.Views view (expectKind kind container : Exec τ Unit) (expectKind kind container) := .ofValueOp

mutual

theorem load_views (views : env.Views view plain) : (place : Place) → Exec.Views view (env.load act place) (plain.load act place)
  | .slot index => by
      unfold load
      cases act.locals[index]? with
      | some value => exact .pure
      | none => exact trap_views views
  | .field index => by
      unfold load
      refine .bind .actor fun actor => ?_
      cases actor.fields[index]? with
      | some value => exact .pure
      | none => exact trap_views views
  | .trigger | .payload => .bind .actor fun _ => .pure
  | .part base index => .bind (load_views views base) fun _ => .ofValueOp
  | .element base key kind =>
      .bind (load_views views base) fun _ => .bind (expectKind_views _ _) fun _ =>
        .bind (eval_views views key) fun _ => .ofValueOp

theorem eval_views (views : env.Views view plain) :
    (operand : Operand) → Exec.Views view (env.eval act operand) (plain.eval act operand)
  | .const _ => .pure
  | .this => .bind .actor fun _ => .pure
  | .load place => load_views views place
  | .clone inner => .bind (eval_views views inner) fun _ => .ofAlloc
  | .unary op arg => .bind (eval_views views arg) fun _ => .ofValueOp
  | .binary op lhs rhs => by
      have right := eval_views views rhs
      cases op <;> refine .bind (eval_views views lhs) fun left => ?_
      case and | or =>
        refine .bind .ofValueOp fun holds => ?_
        cases holds
        all_goals first | exact .pure | exact .bind right fun _ => .bind .ofValueOp fun _ => .pure
      all_goals exact .bind right fun _ => .ofValueOp
  | .lookup base key kind =>
      .bind (eval_views views base) fun _ => .bind (expectKind_views _ _) fun _ =>
        .bind (eval_views views key) fun _ => .ofValueOp
  | .part base index => .bind (eval_views views base) fun _ => .ofValueOp
  | .tuple items => .bind (evalAll_views views items) fun _ => .ofAlloc
  | .named fields => .bind (evalFields_views views fields) fun _ => .ofAlloc
  | .default ty => .ofAlloc
  | .cast value ty => .bind (eval_views views value) fun _ => .ofValueOp
  | .call callee args => .bind (evalArguments_views views args) fun _ => callToEnd_views views callee _
  | .choice number => by
      unfold eval
      cases act.choices[number]? with
      | some chosen => exact .pure
      | none => exact trap_views views

theorem evalAll_views (views : env.Views view plain) :
    (operands : List Operand) → Exec.Views view (env.evalAll act operands) (plain.evalAll act operands)
  | [] => .pure
  | operand :: rest => .bind (eval_views views operand) fun _ => .bind (evalAll_views views rest) fun _ => .pure

theorem evalFields_views (views : env.Views view plain) :
    (fields : List (String × Operand)) → Exec.Views view (env.evalFields act fields) (plain.evalFields act fields)
  | [] => .pure
  | (_, operand) :: rest =>
      .bind (eval_views views operand) fun _ => .bind (evalFields_views views rest) fun _ => .pure

theorem evalArguments_views (views : env.Views view plain) :
    (args : List Argument) → Exec.Views view (env.evalArguments act args) (plain.evalArguments act args)
  | [] => .pure
  | .mk operand _ :: rest =>
      .bind (eval_views views operand) fun _ => .bind (evalArguments_views views rest) fun _ => .pure

end

section

variable (views : env.Views view plain)
include views

theorem store_views (place : Place) (value : Value) :
    Exec.Views view (env.store act place value) (plain.store act place value) := by
  cases place with
  | slot index =>
      unfold store
      dsimp only
      split
      · exact .pure
      · exact trap_views views
  | field index =>
      refine .bind .actor fun actor => ?_
      split
      · exact .bind .modifyActor fun _ => .pure
      · exact trap_views views
  | trigger | payload => exact .bind .modifyActor fun _ => .pure
  | part base index => exact .bind (load_views views base) fun _ => .bind .ofValueOp fun _ => .pure
  | element base key kind =>
      exact .bind (load_views views base) fun _ => .bind (expectKind_views _ _) fun _ =>
        .bind (eval_views views key) fun _ => .bind .ofValueOp fun _ => .pure

theorem replacePart_views (container : Value) (selector : Selector) (value : Value) :
    Exec.Views view (env.replacePart act container selector value) (plain.replacePart act container selector value) := by
  cases selector with
  | part index => exact .ofValueOp
  | element key kind =>
      exact .bind (expectKind_views _ _) fun _ => .bind (eval_views views key) fun _ => .ofValueOp

theorem saveFrame_views (resume : LabelId) (pendingCall : Option FunctionId) :
    Exec.Views view (env.saveFrame act resume pendingCall) (plain.saveFrame act resume pendingCall) := by
  unfold saveFrame
  rw [views.routine]
  exact .bind .modifyActor fun _ => .pure

theorem request_views (request : YieldRequest) : Exec.Views view (env.request act request) (plain.request act request) := by
  cases request with
  | goto | raise | pop | ret => exact .pure
  | send _ | receive _ | nondet _ => exact .bind (saveFrame_views views _ _) fun _ => .pure
  | new machine payload resume =>
      exact .bind (eval_views views payload) fun _ => .bind (saveFrame_views views _ _) fun _ => .pure
  | retValue value => exact .bind (eval_views views value) fun _ => .pure

theorem dispatchReceive_views (arms : List ReceiveArm) :
    Exec.Views view (env.dispatchReceive arms) (plain.dispatchReceive arms) := by
  unfold dispatchReceive
  refine .bind .actor fun actor => ?_
  split
  · exact .get fun _ => trap_views views
  · rw [views.image]
    refine .bind .modifyActor fun _ => ?_
    split
    · exact trap_views views
    · split
      · exact .bind (startCall_views views _ _) fun _ => position_views views _
      · exact .bind .ofAlloc fun _ => .bind (startCall_views views _ _) fun _ => position_views views _
  · exact .get fun _ => trap_views views

theorem enqueue_views (target event payload : Operand) :
    Exec.Views view (env.enqueue act target event payload) (plain.enqueue act target event payload) := by
  refine .bind (eval_views views target) fun _ => .bind .ofValueOp fun _ => .bind (eval_views views event) fun value => ?_
  split
  · exact .bind (eval_views views payload) fun _ => .bind .actor fun _ => .perform views.handler
  · exact .ofValueOp

theorem step_views (instr : Instr) : Exec.Views view (env.step act instr) (plain.step act instr) := by
  have stored {act : Activation} (place : Place) (value : Value) :
      Exec.Views view (Flow.next <$> env.store act place value) (Flow.next <$> plain.store act place value) :=
    .map (store_views views place value)
  cases instr with
  | label _ | mark _ => exact .pure
  | jump target => exact .bind (position_views views target) fun _ => .pure
  | jumpUnless cond target =>
      refine .bind (eval_views views cond) fun _ => .bind .ofValueOp fun holds => ?_
      cases holds
      · exact .bind (position_views views target) fun _ => .pure
      · exact .pure
  | assign dest value => exact .bind (eval_views views value) fun _ => stored dest _
  | swap dest source =>
      exact .bind (load_views views dest) fun _ => .bind (load_views views source) fun _ =>
        .bind (store_views views dest _) fun _ => stored source _
  | update container selector value =>
      exact .bind (eval_views views value) fun _ => .bind (load_views views container) fun _ =>
        .bind (replacePart_views views _ selector _) fun _ => .pure
  | exchange container selector source =>
      exact .bind (load_views views source) fun _ => .bind (load_views views container) fun _ =>
        .bind (replacePart_views views _ selector _) fun _ => stored source _
  | remove container kind key =>
      exact .bind (eval_views views key) fun _ => .bind (load_views views container) fun _ =>
        .bind (expectKind_views _ _) fun _ => .bind .ofValueOp fun _ => .pure
  | insert container kind entry =>
      exact .bind (eval_views views entry) fun _ => .bind (load_views views container) fun _ =>
        .bind (expectKind_views _ _) fun _ => .bind .ofValueOp fun _ => .bind .ofValueOp fun _ =>
          .bind .ofValueOp fun _ => .pure
  | assert cond message =>
      refine .bind (eval_views views cond) fun _ => .bind .ofValueOp fun holds => ?_
      cases holds
      · exact .fail
      · exact .pure
  | print format args =>
      exact .bind (evalAll_views views args) fun _ => .get fun _ => .bind .actor fun _ =>
        .bind (.perform views.handler) fun _ => .pure
  | announce event payload =>
      exact .bind (eval_views views event) fun _ => .bind (eval_views views payload) fun _ => .bind .actor fun _ =>
        .bind (.perform views.handler) fun _ => .pure
  | enqueue target event payload => exact .bind (enqueue_views views target event payload) fun _ => .pure
  | setGotoTarget _ | registerReceive _ => exact .bind .modifyActor fun _ => .pure
  | dispatchReceive arms => exact .bind (dispatchReceive_views views arms) fun _ => .pure
  | pushFrame callee args =>
      exact .bind (evalArguments_views views args) fun _ => .bind (startCall_views views callee _) fun _ => .pure
  | invoke callee => exact .bind (views.invokes callee) fun _ => .pure
  | propagateSuspension callee resume =>
      unfold step
      rcases act.lastCall with _ | ⟨value, locals⟩ | reason
      · exact trap_views views
      · exact .pure
      · exact .bind (saveFrame_views views _ _) fun _ => .pure
  | collectReturn dest =>
      unfold step
      rcases act.lastCall with _ | ⟨value, locals⟩ | reason
      · exact trap_views views
      · exact stored dest _
      · exact trap_views views
  | writeBack dest slot =>
      unfold step
      rcases act.lastCall with _ | ⟨value, locals⟩ | reason
      · exact trap_views views
      · dsimp only
        cases locals[slot]? with
        | none => exact trap_views views
        | some value => exact stored dest _
      · exact trap_views views
  | readCreated dest =>
      refine .bind .actor fun actor => ?_
      cases actor.resume.created with
      | none => exact trap_views views
      | some created => exact .bind .modifyActor fun _ => stored dest _
  | recordChoice number =>
      refine .bind .actor fun actor => ?_
      cases actor.resume.nondet with
      | none => exact trap_views views
      | some chosen => exact .bind .modifyActor fun _ => .pure
  | «yield» request => exact .bind (request_views views request) fun _ => .pure
  | exit =>
      unfold step
      cases act.pending with
      | none => exact trap_views views
      | some result => exact .pure

theorem move_views (act : Activation) : Exec.Views view (env.move act) (plain.move act) := by
  unfold move
  rw [views.routine]
  cases plain.routine.body[act.position]? with
  | none => exact trap_views views
  | some instr => exact step_views views instr

theorem run_views (steps : Nat) (act : Activation) : Exec.Views view (env.run steps act) (plain.run steps act) := by
  induction steps generalizing act with
  | zero => exact .throw
  | succ steps ih =>
      rw [run_succ, run_succ]
      refine .bind (move_views views act) fun flow => ?_
      cases flow with
      | next after => exact ih after
      | leave result => exact .pure

end

end Env

/-- Configurations that differ only in what their handlers keep besides what is seen through the view. -/
structure RunConfig.Views (view : τ → σ) (config : RunConfig τ) (plain : RunConfig σ) : Prop where
  image : config.image = plain.image
  handler : config.handler.Views view plain.handler
  depthLimit : config.depthLimit = plain.depthLimit
  steps : config.steps = plain.steps

namespace RunConfig

variable {view : τ → σ} {config : RunConfig τ} {plain : RunConfig σ}

theorem popFrame_views (routine : Routine) : Exec.Views view (popFrame routine : Exec τ Frame) (popFrame routine) := by
  refine .bind .actor fun actor => ?_
  cases actor.stack with
  | nil => exact .fail
  | cons frame below => exact .bind .modifyActor fun _ => .pure

theorem enter_views (views : config.Views view plain) (function : FunctionId) :
    Exec.Views view (config.enter function) (plain.enter function) := by
  unfold enter
  rw [views.image]
  cases plain.image.routine? function with
  | none => exact .bind .actor fun _ => .fail
  | some routine =>
      refine .bind (popFrame_views routine) fun frame => .bind .actor fun actor => ?_
      repeat' split
      all_goals first | exact .fail | dsimp only
      · exact .pure
      · split
        · exact .fail
        · exact .pure

theorem executeWithin_views (views : config.Views view plain) (levels : Nat) (function : FunctionId) :
    Exec.Views view (config.executeWithin levels function) (plain.executeWithin levels function) := by
  induction levels generalizing function with
  | zero => exact .throw
  | succ levels ih =>
      refine .bind (enter_views views function) fun entered => .get fun state => ?_
      have depth : (state.through view).depth = state.depth := rfl
      rw [views.depthLimit, depth, views.steps]
      split
      · exact .fail
      · have surroundings : Env.Views view ⟨config.image, entered.1, config.handler, config.executeWithin levels⟩
            ⟨plain.image, entered.1, plain.handler, plain.executeWithin levels⟩ := ⟨views.image, rfl, views.handler, ih⟩
        exact .counted (Env.run_views surroundings _ _)

/-- Through the view the one configuration executes a function as the other one does. -/
theorem execute_seen (views : config.Views view plain) (function : FunctionId) (state : Running τ) :
    seen view (config.execute function state) = plain.execute function (state.through view) := by
  unfold execute
  rw [views.depthLimit]
  exact executeWithin_views views (plain.depthLimit + 1) function state

end RunConfig

end Reentry
