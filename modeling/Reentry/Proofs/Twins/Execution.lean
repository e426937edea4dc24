import Reentry.Execution.Run
import Reentry.Proofs.Execution.Moves
import Reentry.Proofs.Ownership.Run
import Reentry.Proofs.Twins.Values

/-!
Code cannot tell twin states apart. If the handler of effects does not tell them apart either, a run of an actor in the
one state and a run of its twin in the other fail alike, or end with results that go together, in twin states again.
-/

namespace Reentry

/-! What running code works on, up to the names of cells. -/

section

variable (pairs : Pairing)

structure Frame.Twin (left right : Frame) : Prop where
  function : left.function = right.function
  locals : Twins pairs left.locals right.locals
  label : left.label = right.label
  pendingCall : left.pendingCall = right.pendingCall
  choices : left.choices = right.choices

structure Actor.Twin (left right : Actor) : Prop where
  id : left.id = right.id
  machine : left.machine = right.machine
  name : left.name = right.name
  fields : Twins pairs left.fields right.fields
  trigger : left.trigger.Twin pairs right.trigger
  payload : left.payload.Twin pairs right.payload
  gotoTarget : left.gotoTarget = right.gotoTarget
  receiveSet : left.receiveSet = right.receiveSet
  resume : left.resume = right.resume
  stack : List.Forall₂ (Frame.Twin pairs) left.stack right.stack

inductive YieldReason.Twin : YieldReason → YieldReason → Prop
  | same {reason : YieldReason} (plain : ∀ machine payload, reason ≠ .new machine payload) : Twin reason reason
  | new {machine : MachineTypeId} {left right : Value} (payload : left.Twin pairs right) : Twin (.new machine left) (.new machine right)

inductive Continuation.Twin : Continuation → Continuation → Prop
  | completed {left right : Option Value} {items others : List Value} (value : Option.Rel (Value.Twin pairs) left right)
      (locals : Twins pairs items others) : Twin (.completed left items) (.completed right others)
  | suspended {left right : YieldReason} (reason : YieldReason.Twin pairs left right) : Twin (.suspended left) (.suspended right)

structure Activation.Twin (left right : Activation) : Prop where
  locals : Twins pairs left.locals right.locals
  choices : left.choices = right.choices
  position : left.position = right.position
  lastCall : Option.Rel (Continuation.Twin pairs) left.lastCall right.lastCall
  pending : Option.Rel (Continuation.Twin pairs) left.pending right.pending

inductive Flow.Twin : Flow → Flow → Prop
  | next {left right : Activation} (act : Activation.Twin pairs left right) : Twin (.next left) (.next right)
  | leave {left right : Continuation} (result : Continuation.Twin pairs left right) : Twin (.leave left) (.leave right)

inductive Effect.Twin : Effect → Effect → Prop
  | enqueue {sender target : MachineId} {one two left right : Value} (event : one.Twin pairs two) (payload : left.Twin pairs right) :
      Twin (.enqueue sender target one left) (.enqueue sender target two right)
  | announce {sender : MachineId} {one two left right : Value} (event : one.Twin pairs two) (payload : left.Twin pairs right) :
      Twin (.announce sender one left) (.announce sender two right)
  | print {sender : MachineId} {message : String} : Twin (.print sender message) (.print sender message)

variable {σ : Type} (outer : Pairing → σ → σ → Prop)

structure Running.Twin (left right : Running σ) : Prop where
  heap : left.heap.Twin pairs right.heap
  actor : left.actor.Twin pairs right.actor
  outside : outer pairs left.outside right.outside
  depth : left.depth = right.depth

end

section

variable {pairs more : Pairing} (within : pairs.Within more)
include within

theorem Option.rel_mono {left right : Option Value} (twin : Option.Rel (Value.Twin pairs) left right) :
    Option.Rel (Value.Twin more) left right := by
  cases twin with
  | none => exact .none
  | some twin => exact .some (twin.mono within)

theorem Frame.Twin.mono {left right : Frame} (twin : left.Twin pairs right) : left.Twin more right :=
  { twin with locals := twin.locals.mono within }

theorem Actor.Twin.mono {left right : Actor} (twin : left.Twin pairs right) : left.Twin more right :=
  { twin with
    fields := twin.fields.mono within
    trigger := twin.trigger.mono within
    payload := twin.payload.mono within
    stack := twin.stack.imp fun _ _ frame => frame.mono within }

theorem YieldReason.Twin.mono {left right : YieldReason} (twin : left.Twin pairs right) : left.Twin more right := by
  cases twin with
  | same plain => exact .same plain
  | new payload => exact .new (payload.mono within)

theorem Continuation.Twin.mono {left right : Continuation} (twin : left.Twin pairs right) : left.Twin more right := by
  cases twin with
  | completed value locals => exact .completed (Option.rel_mono within value) (locals.mono within)
  | suspended reason => exact .suspended (reason.mono within)

theorem Activation.Twin.mono {left right : Activation} (twin : left.Twin pairs right) : left.Twin more right := by
  have grown {left right : Option Continuation} (twin : Option.Rel (Continuation.Twin pairs) left right) :
      Option.Rel (Continuation.Twin more) left right := by
    cases twin with
    | none => exact .none
    | some twin => exact .some (twin.mono within)
  exact { twin with locals := twin.locals.mono within, lastCall := grown twin.lastCall, pending := grown twin.pending }

end

/-- A handler that does not tell twin states apart. What lies outside is related by `outer`, whatever else goes together. -/
structure Handler.Blind {σ : Type} (outer : Pairing → σ → σ → Prop) (handler : Handler σ) : Prop where
  mono : ∀ {pairs more outside other}, pairs.Within more → outer pairs outside other → outer more outside other
  performs : ∀ {pairs heap heap' effect effect' outside outside'}, heap.Twin pairs heap' → Effect.Twin pairs effect effect' →
    outer pairs outside outside' →
    (∃ after after', handler heap effect outside = .ok after ∧ handler heap' effect' outside' = .ok after' ∧ outer pairs after after') ∨
      ∃ cause, handler heap effect outside = .error cause ∧ handler heap' effect' outside' = .error cause

namespace Exec

variable {σ α β γ δ : Type}

/-- Work stops alike, or its results go together; either way the states are twins again. -/
inductive Ended (outer : Pairing → σ → σ → Prop) (pairs : Pairing) (like : Pairing → α → β → Prop) :
    EStateM.Result Stop (Running σ) α → EStateM.Result Stop (Running σ) β → Prop
  | ok {more : Pairing} {left : α} {right : β} {state other : Running σ} (within : pairs.Within more)
      (states : state.Twin more outer other) (twin : like more left right) : Ended outer pairs like (.ok left state) (.ok right other)
  | error {more : Pairing} {stop : Stop} {state other : Running σ} (within : pairs.Within more)
      (states : state.Twin more outer other) : Ended outer pairs like (.error stop state) (.error stop other)

/-- Work that goes alike in twin states. -/
def Twin (outer : Pairing → σ → σ → Prop) (pairs : Pairing) (state other : Running σ) (work : Exec σ α) (work' : Exec σ β)
    (like : Pairing → α → β → Prop) : Prop :=
  state.Twin pairs outer other → Ended outer pairs like (work state) (work' other)

namespace Twin

variable {outer : Pairing → σ → σ → Prop} {pairs : Pairing} {state other : Running σ} {like : Pairing → α → β → Prop}
  {like' : Pairing → γ → δ → Prop}

theorem pure {left : α} {right : β} (twin : like pairs left right) : Twin outer pairs state other (Pure.pure left) (Pure.pure right) like :=
  fun states => .ok (.refl _) states twin

theorem throw {stop : Stop} : Twin outer pairs state other (MonadExcept.throw stop) (MonadExcept.throw stop) like :=
  fun states => .error (.refl _) states

theorem fail {cause : RuntimeFailure} : Twin outer pairs state other (fail cause) (fail cause) like := throw

theorem bind {work : Exec σ α} {work' : Exec σ β} {rest : α → Exec σ γ} {rest' : β → Exec σ δ}
    (first : Twin outer pairs state other work work' like)
    (next : ∀ more state other left right, pairs.Within more → like more left right →
      Twin outer more state other (rest left) (rest' right) like') :
    Twin outer pairs state other (work >>= rest) (work' >>= rest') like' := by
  intro states
  have did := first states
  rw [bind_apply, bind_apply]
  generalize work state = one, work' other = two at did ⊢
  cases did with
  | error within states => exact .error within states
  | ok within states twin =>
      have then_ := next _ _ _ _ _ within twin states
      dsimp only
      generalize rest _ _ = one, rest' _ _ = two at then_ ⊢
      cases then_ with
      | error within' states => exact .error (within.trans within') states
      | ok within' states twin => exact .ok (within.trans within') states twin

theorem map {work : Exec σ α} {work' : Exec σ β} {change : α → γ} {change' : β → δ} (first : Twin outer pairs state other work work' like)
    (next : ∀ more left right, like more left right → like' more (change left) (change' right)) :
    Twin outer pairs state other (change <$> work) (change' <$> work') like' := by
  rw [map_eq_pure_bind, map_eq_pure_bind]
  exact first.bind fun _ _ _ _ _ _ twin => pure (next _ _ _ twin)

theorem get {rest : Running σ → Exec σ α} {rest' : Running σ → Exec σ β}
    (next : state.Twin pairs outer other → Twin outer pairs state other (rest state) (rest' other) like) :
    Twin outer pairs state other (MonadState.get >>= rest) (MonadState.get >>= rest') like := fun states => next states states

theorem actor {rest : Actor → Exec σ α} {rest' : Actor → Exec σ β}
    (next : state.actor.Twin pairs other.actor → Twin outer pairs state other (rest state.actor) (rest' other.actor) like) :
    Twin outer pairs state other (Exec.actor >>= rest) (Exec.actor >>= rest') like := fun states => next states.actor states

theorem modifyActor {change change' : Actor → Actor}
    (twin : state.actor.Twin pairs other.actor → (change state.actor).Twin pairs (change' other.actor)) :
    Twin outer pairs state other (modifyActor change) (modifyActor change') Same :=
  fun states => .ok (.refl _) { states with actor := twin states.actor } rfl

section

variable {handler : Handler σ} (blind : handler.Blind outer)
include blind

theorem ofAlloc {work : Alloc α} {work' : Alloc β} (twin : Alloc.Twin pairs state.heap other.heap work work' like) :
    Twin outer pairs state other (ofAlloc work) (ofAlloc work') like := by
  intro states
  obtain ⟨more, within, heaps, results⟩ := twin states.heap
  exact .ok within ⟨heaps, states.actor.mono within, blind.mono within states.outside, states.depth⟩ results

theorem ofValueOp {work : ValueOp α} {work' : ValueOp β} (twin : ValueOp.Twin pairs state.heap other.heap work work' like) :
    Twin outer pairs state other (ofValueOp work) (ofValueOp work') like := by
  intro states
  have did := twin states.heap
  rw [ofValueOp_apply, ofValueOp_apply]
  generalize work.run state.heap = one, work'.run other.heap = two at did ⊢
  cases did with
  | error => exact .error (.refl _) states
  | ok within heaps results => exact .ok within ⟨heaps, states.actor.mono within, blind.mono within states.outside, states.depth⟩ results

theorem perform {effect effect' : Effect} (effects : effect.Twin pairs effect') :
    Twin outer pairs state other (perform handler effect) (perform handler effect') Same := by
  intro states
  rw [perform_apply, perform_apply]
  rcases blind.performs states.heap effects states.outside with ⟨after, after', ran, ran', outside⟩ | ⟨cause, ran, ran'⟩ <;> rw [ran, ran']
  · exact .ok (.refl _) { states with outside } rfl
  · exact .error (.refl _) states

end

theorem counted {work : Exec σ α} {work' : Exec σ β} (twin : ∀ state other, Twin outer pairs state other work work' like) :
    Twin outer pairs state other (counted work) (counted work') like := by
  intro states
  have did := twin { state with depth := state.depth + 1 } { other with depth := other.depth + 1 }
    { states with depth := congrArg (· + 1) states.depth }
  unfold Exec.counted
  generalize work _ = one, work' _ = two at did ⊢
  cases did with
  | ok within states twin => exact .ok within { states with depth := congrArg (· - 1) states.depth } twin
  | error within states => exact .error within { states with depth := congrArg (· - 1) states.depth }

end Twin

end Exec

open Exec

theorem Actor.Twin.push {pairs : Pairing} {left right : Actor} {frame frame' : Frame} (actors : left.Twin pairs right)
    (frames : frame.Twin pairs frame') : (left.push frame).Twin pairs (right.push frame') :=
  { actors with stack := .cons frames actors.stack }

/-- Surroundings in which neither the effects nor the calls tell twin states apart. -/
structure Env.Blind {σ : Type} (outer : Pairing → σ → σ → Prop) (env : Env σ) : Prop where
  handler : env.handler.Blind outer
  invokes : ∀ callee {pairs state other}, Exec.Twin outer pairs state other (env.invoke callee) (env.invoke callee) Continuation.Twin

/-- New locals are filled alike, or there is a wrong number of arguments. -/
theorem FrameShape.createLocals_twin (shape : FrameShape) {pairs : Pairing} {heap other : Heap} {args args' : List Value}
    (twins : Twins pairs args args') (heaps : heap.Twin pairs other) :
    (∃ more locals locals' after after', pairs.Within more ∧ (shape.createLocals args).run heap = .ok (locals, after) ∧
        (shape.createLocals args').run other = .ok (locals', after') ∧ after.Twin more after' ∧ Twins more locals locals') ∨
      ∃ cause, (shape.createLocals args).run heap = .error cause ∧ (shape.createLocals args').run other = .error cause := by
  have made (slots : List Slot) : Alloc.Twin pairs heap other (slots.mapM initialSlot) (slots.mapM initialSlot) Twins := by
    refine @Alloc.Twin.mapM _ _ _ _ _ _ _ (fun _ slot slot' => slot = slot') Value.Twin _ _ _ _ (fun same _ => same)
      (fun twin within => twin.mono within) (fun _ _ _ slot _ same => ?_) (List.forall₂_same.mpr fun _ _ => rfl)
    obtain rfl := same
    unfold initialSlot
    split
    · exact .initial _
    · exact .pure .null
  unfold createLocals
  rw [twins.length_eq]
  by_cases fits : args'.length = shape.paramCount
  · simp only [fits, ne_eq, not_true_eq_false, if_false]
    obtain ⟨more, within, heaps, new⟩ := made (shape.slots.drop shape.paramCount) heaps
    exact .inl ⟨more, _, _, _, _, within, rfl, rfl, heaps, append_twin (twins.mono within) new⟩
  · simp only [fits, ne_eq, not_false_eq_true, if_true]
    exact .inr ⟨_, rfl, rfl⟩

/-- Twin arguments fill in a message alike. -/
theorem formatMessage_twin {pairs : Pairing} {values values' : List Value} {text text' : Value → String}
    (twins : Twins pairs values values') (same : ∀ {value value' : Value}, value.Twin pairs value' → text value = text' value')
    (format : String) : formatMessage text format values = formatMessage text' format values' := by
  have filled (inside : Bool) (format : List Char) : Placeholder.fill text values inside format = Placeholder.fill text' values' inside format := by
    induction format generalizing inside with
    | nil => rfl
    | cons c rest ih =>
        simp only [Placeholder.fill, ih]
        have named : (Placeholder.argument? values rest).map text = (Placeholder.argument? values' rest).map text' := by
          unfold Placeholder.argument?
          split
          · cases Placeholder.readIndex? (rest.takeWhile (· ≠ '\x7d')) with
            | none => rfl
            | some index =>
                have found := getElem?_twin twins index
                simp only [Option.bind_eq_bind, Option.bind_some]
                generalize values[index]? = one, values'[index]? = two at found ⊢
                cases found with
                | none => rfl
                | some twin => exact congrArg some (same twin)
          · rfl
        generalize Placeholder.argument? values rest = one, Placeholder.argument? values' rest = two at named ⊢
        cases one <;> cases two <;> simp only [Option.map_none, Option.map_some, reduceCtorEq, Option.some.injEq] at named ⊢
        rw [named]
  exact congrArg String.ofList (filled false format.toList)

namespace Env

variable {σ : Type} {outer : Pairing → σ → σ → Prop} {env : Env σ} {pairs : Pairing} {state other : Running σ} {act act' : Activation}

theorem position_twin (target : Target) : Exec.Twin outer pairs state other (env.position target) (env.position target) Same := by
  unfold position
  split
  · exact .pure rfl
  · exact .fail

theorem saveFrame_twin (acts : act.Twin pairs act') (resume : LabelId) (pendingCall : Option FunctionId) :
    Exec.Twin outer pairs state other (env.saveFrame act resume pendingCall) (env.saveFrame act' resume pendingCall) Activation.Twin := by
  refine .bind (.modifyActor fun actors => actors.push ⟨rfl, acts.locals, rfl, rfl, acts.choices⟩) fun _ _ _ _ _ grown _ => .pure ?_
  exact { acts.mono grown with locals := .nil, choices := rfl }

section

variable (blind : env.Blind outer)
include blind

theorem startCall_twin (callee : FunctionId) {args args' : List Value} (twins : Twins pairs args args') :
    Exec.Twin outer pairs state other (env.startCall callee args) (env.startCall callee args') Same := by
  refine .actor fun actors => ?_
  have started : Exec.Twin outer pairs state other (Exec.ofHeapOp (Actor.startCall env.image callee args state.actor))
      (Exec.ofHeapOp (Actor.startCall env.image callee args' other.actor)) Actor.Twin := by
    intro states
    rw [ofHeapOp_apply, ofHeapOp_apply]
    cases known : env.image.routine? callee with
    | none =>
        simp only [Actor.startCall, known, actors.name]
        exact .error (.refl _) states
    | some routine =>
        rw [Actor.startCall_run known, Actor.startCall_run known]
        rcases routine.shape.createLocals_twin twins states.heap with
          ⟨more, _, _, _, _, within, made, made', heaps, locals⟩ | ⟨cause, failed, failed'⟩
        · rw [made, made']
          have actors := actors.mono within
          exact .ok within ⟨heaps, actors, blind.handler.mono within states.outside, states.depth⟩
            (actors.push ⟨rfl, locals, rfl, rfl, rfl⟩)
        · rw [failed, failed']
          exact .error (.refl _) states
  exact .bind started fun _ _ _ _ _ _ twin => .modifyActor fun _ => twin

theorem callToEnd_twin (callee : FunctionId) {args args' : List Value} (twins : Twins pairs args args') :
    Exec.Twin outer pairs state other (env.callToEnd callee args) (env.callToEnd callee args') Value.Twin := by
  refine .bind (startCall_twin blind callee twins) fun _ _ _ _ _ _ _ => .bind (blind.invokes callee) fun _ _ _ left right _ result => ?_
  cases result with
  | completed value locals => exact .pure (.getD value)
  | suspended reason =>
      cases reason with
      | same _ => exact .fail
      | new _ => exact .fail

theorem expectKind_twin (kind : ContainerKind) {container container' : Value} (twin : container.Twin pairs container') :
    Exec.Twin outer pairs state other (expectKind kind container) (expectKind kind container') Same := by
  refine .ofValueOp blind.handler (.get fun heaps => ?_)
  rcases heaps.cell? twin with ⟨left, right⟩ | ⟨_, _, cell, cell', left, right, _, cells⟩ <;> rw [left, right]
  · cases kind <;> exact .mismatch twin _ _
  · cases cells <;> cases kind <;> first | exact .pure rfl | exact .mismatch twin _ _

end

mutual

theorem load_twin (blind : env.Blind outer) {pairs : Pairing} {state other : Running σ} (acts : act.Twin pairs act') : (place : Place) →
    Exec.Twin outer pairs state other (env.load act place) (env.load act' place) Value.Twin
  | .slot index => by
      have found := getElem?_twin acts.locals index
      unfold load
      generalize act.locals[index]? = one, act'.locals[index]? = two at found ⊢
      cases found with
      | none => exact .fail
      | some twin => exact .pure twin
  | .field index => by
      refine .actor fun actors => ?_
      have found := getElem?_twin actors.fields index
      generalize state.actor.fields[index]? = one, other.actor.fields[index]? = two at found ⊢
      cases found with
      | none => exact .fail
      | some twin => exact .pure twin
  | .trigger => .actor fun actors => .pure actors.trigger
  | .payload => .actor fun actors => .pure actors.payload
  | .part base index => .bind (load_twin blind acts base) fun _ _ _ _ _ _ tuple => .ofValueOp blind.handler (Value.field_twin tuple index)
  | .element base key kind => .bind (load_twin blind acts base) fun _ _ _ _ _ grown container =>
      .bind (expectKind_twin blind kind container) fun _ _ _ _ _ grown' _ =>
        .bind (eval_twin blind ((acts.mono grown).mono grown') key) fun _ _ _ _ _ grown'' keys =>
          .ofValueOp blind.handler (Value.lookup_twin ((container.mono grown').mono grown'') keys)

theorem eval_twin (blind : env.Blind outer) {pairs : Pairing} {state other : Running σ} (acts : act.Twin pairs act') : (operand : Operand) →
    Exec.Twin outer pairs state other (env.eval act operand) (env.eval act' operand) Value.Twin
  | .const constant => .pure (.scalar constant.value_scalar)
  | .this => .actor fun actors => by
      rw [actors.id]
      exact .pure .machine
  | .load place => load_twin blind acts place
  | .clone inner => .bind (eval_twin blind acts inner) fun _ _ _ _ _ _ twin => .ofAlloc blind.handler (.deepCopy twin)
  | .unary op arg => .bind (eval_twin blind acts arg) fun _ _ _ _ _ _ twin => .ofValueOp blind.handler (op.apply_twin twin)
  | .binary op lhs rhs => by
      refine .bind (eval_twin blind acts lhs) fun _ _ _ left left' grown lefts => ?_
      cases op with
      | and | or =>
          refine .bind (.ofValueOp blind.handler (Value.asBool_twin _ lefts)) fun _ _ _ holds _ grown' same => ?_
          obtain rfl := same
          cases holds
          all_goals first
            | exact .pure .bool
            | refine .bind (eval_twin blind ((acts.mono grown).mono grown') rhs) fun _ _ _ _ _ _ rights => ?_
              refine .bind (.ofValueOp blind.handler (Value.asBool_twin _ rights)) fun _ _ _ _ _ _ same => ?_
              obtain rfl := same
              exact .pure .bool
      | _ => exact .bind (eval_twin blind (acts.mono grown) rhs) fun _ _ _ _ _ grown' rights =>
          .ofValueOp blind.handler (BinaryOp.apply_twin _ (lefts.mono grown') rights)
  | .lookup base key kind => .bind (eval_twin blind acts base) fun _ _ _ _ _ grown container =>
      .bind (expectKind_twin blind kind container) fun _ _ _ _ _ grown' _ =>
        .bind (eval_twin blind ((acts.mono grown).mono grown') key) fun _ _ _ _ _ grown'' keys =>
          .ofValueOp blind.handler (Value.lookup_twin ((container.mono grown').mono grown'') keys)
  | .part base index => .bind (eval_twin blind acts base) fun _ _ _ _ _ _ tuple => .ofValueOp blind.handler (Value.field_twin tuple index)
  | .tuple items => .bind (evalAll_twin blind acts items) fun _ _ _ _ _ _ twins => .ofAlloc blind.handler (.new (.tuple twins))
  | .named fields => .bind (evalFields_twin blind acts fields) fun _ _ _ _ _ _ twins => .ofAlloc blind.handler (.new (.named twins))
  | .default ty => .ofAlloc blind.handler (.initial ty)
  | .cast value ty => .bind (eval_twin blind acts value) fun _ _ _ _ _ _ twin => .ofValueOp blind.handler (Value.cast_twin twin ty)
  | .call callee args => .bind (evalArguments_twin blind acts args) fun _ _ _ _ _ _ twins => callToEnd_twin blind callee twins
  | .choice number => by
      unfold eval
      rw [acts.choices]
      split
      · exact .pure .bool
      · exact .fail

theorem evalAll_twin (blind : env.Blind outer) {pairs : Pairing} {state other : Running σ} (acts : act.Twin pairs act') :
    (operands : List Operand) → Exec.Twin outer pairs state other (env.evalAll act operands) (env.evalAll act' operands) Twins
  | [] => .pure .nil
  | operand :: rest => .bind (eval_twin blind acts operand) fun _ _ _ _ _ grown twin =>
      .bind (evalAll_twin blind (acts.mono grown) rest) fun _ _ _ _ _ grown' twins => .pure (.cons (twin.mono grown') twins)

theorem evalFields_twin (blind : env.Blind outer) {pairs : Pairing} {state other : Running σ} (acts : act.Twin pairs act') :
    (fields : List (String × Operand)) → Exec.Twin outer pairs state other (env.evalFields act fields) (env.evalFields act' fields)
      fun pairs => List.Forall₂ (FieldTwin pairs)
  | [] => .pure .nil
  | (_, operand) :: rest => .bind (eval_twin blind acts operand) fun _ _ _ _ _ grown twin =>
      .bind (evalFields_twin blind (acts.mono grown) rest) fun _ _ _ _ _ grown' twins => .pure (.cons ⟨rfl, twin.mono grown'⟩ twins)

theorem evalArguments_twin (blind : env.Blind outer) {pairs : Pairing} {state other : Running σ} (acts : act.Twin pairs act') :
    (args : List Argument) → Exec.Twin outer pairs state other (env.evalArguments act args) (env.evalArguments act' args) Twins
  | [] => .pure .nil
  | .mk operand _ :: rest => .bind (eval_twin blind acts operand) fun _ _ _ _ _ grown twin =>
      .bind (evalArguments_twin blind (acts.mono grown) rest) fun _ _ _ _ _ grown' twins => .pure (.cons (twin.mono grown') twins)

end

section

variable (blind : env.Blind outer)
include blind

theorem store_twin (acts : act.Twin pairs act') (place : Place) {value value' : Value} (values : value.Twin pairs value') :
    Exec.Twin outer pairs state other (env.store act place value) (env.store act' place value') Activation.Twin := by
  cases place with
  | slot index =>
      unfold store
      dsimp only
      rw [acts.locals.length_eq]
      split
      · exact .pure { acts with locals := set_twin acts.locals index values }
      · exact .fail
  | field index =>
      refine .actor fun actors => ?_
      rw [actors.fields.length_eq]
      split
      · exact .bind (.modifyActor fun actors => { actors with fields := set_twin actors.fields index values })
          fun _ _ _ _ _ grown _ => .pure (acts.mono grown)
      · exact .fail
  | trigger => exact .bind (.modifyActor fun actors => { actors with trigger := values }) fun _ _ _ _ _ grown _ => .pure (acts.mono grown)
  | payload => exact .bind (.modifyActor fun actors => { actors with payload := values }) fun _ _ _ _ _ grown _ => .pure (acts.mono grown)
  | part base index =>
      exact .bind (load_twin blind acts base) fun _ _ _ _ _ grown tuple =>
        .bind (.ofValueOp blind.handler (Value.updateField_twin tuple index (values.mono grown))) fun _ _ _ _ _ grown' _ =>
          .pure ((acts.mono grown).mono grown')
  | element base key kind =>
      refine .bind (load_twin blind acts base) fun _ _ _ _ _ grown container =>
        .bind (expectKind_twin blind kind container) fun _ _ _ _ _ grown' _ => ?_
      have acts := (acts.mono grown).mono grown'
      refine .bind (eval_twin blind acts key) fun _ _ _ _ _ grown'' keys => ?_
      exact .bind (.ofValueOp blind.handler
          (Value.update_twin ((container.mono grown').mono grown'') keys (((values.mono grown).mono grown').mono grown'')))
        fun _ _ _ _ _ last _ => .pure ((acts.mono grown'').mono last)

theorem replacePart_twin (acts : act.Twin pairs act') {container container' : Value} (containers : container.Twin pairs container')
    (selector : Selector) {value value' : Value} (values : value.Twin pairs value') :
    Exec.Twin outer pairs state other (env.replacePart act container selector value) (env.replacePart act' container' selector value')
      Value.Twin := by
  cases selector with
  | part index => exact .ofValueOp blind.handler (Value.replaceField_twin containers index values)
  | element key kind =>
      exact .bind (expectKind_twin blind kind containers) fun _ _ _ _ _ grown _ =>
        .bind (eval_twin blind (acts.mono grown) key) fun _ _ _ _ _ grown' keys =>
          .ofValueOp blind.handler (Value.replace_twin ((containers.mono grown).mono grown') keys ((values.mono grown).mono grown'))

theorem request_twin (acts : act.Twin pairs act') (request : YieldRequest) :
    Exec.Twin outer pairs state other (env.request act request) (env.request act' request)
      fun pairs left right => left.1.Twin pairs right.1 ∧ left.2.Twin pairs right.2 := by
  have saved {pairs : Pairing} {state other : Running σ} {reason reason' : YieldReason} (acts : act.Twin pairs act')
      (resume : LabelId) (reasons : reason.Twin pairs reason') :
      Exec.Twin outer pairs state other (do pure (← env.saveFrame act resume none, Continuation.suspended reason))
        (do pure (← env.saveFrame act' resume none, Continuation.suspended reason'))
        fun pairs left right => left.1.Twin pairs right.1 ∧ left.2.Twin pairs right.2 :=
    .bind (saveFrame_twin acts resume none) fun _ _ _ _ _ grown after => .pure ⟨after, .suspended (reasons.mono grown)⟩
  cases request with
  | goto | raise | pop => exact .pure ⟨acts, .suspended (.same nofun)⟩
  | send resume | receive resume | nondet resume => exact saved acts resume (.same nofun)
  | new machine payload resume =>
      exact .bind (eval_twin blind acts payload) fun _ _ _ _ _ grown twin => saved (acts.mono grown) resume (.new twin)
  | ret => exact .pure ⟨{ acts with locals := .nil }, .completed .none acts.locals⟩
  | retValue value =>
      refine .bind (eval_twin blind acts value) fun _ _ _ _ _ grown twin => ?_
      have acts := acts.mono grown
      exact .pure ⟨{ acts with locals := .nil }, .completed (.some twin) acts.locals⟩

omit blind in
/-- An event is accepted in twin states alike. -/
theorem accepts_twin {event event' : Value} (twin : event.Twin pairs event') (case : CaseEvent) : case.accepts event = case.accepts event' := by
  cases twin with
  | scalar _ => rfl
  | cell _ => cases case <;> rfl

theorem dispatchReceive_twin (arms : List ReceiveArm) :
    Exec.Twin outer pairs state other (env.dispatchReceive arms) (env.dispatchReceive arms) Same := by
  refine .actor fun actors => ?_
  have same : arms.filter (·.event.accepts state.actor.trigger) = arms.filter (·.event.accepts other.actor.trigger) :=
    List.filter_congr fun arm _ => accepts_twin actors.trigger arm.event
  rw [same]
  split
  · refine .get fun states => ?_
    rw [states.heap.text actors.trigger]
    exact .fail
  · refine .bind (.modifyActor fun actors => { actors with receiveSet := rfl }) fun _ _ _ _ _ grown _ => ?_
    split
    · exact .fail
    · split
      · exact .bind (startCall_twin blind _ .nil) fun _ _ _ _ _ _ _ => position_twin _
      · refine .bind (.ofAlloc blind.handler (.deepCopy (actors.payload.mono grown))) fun _ _ _ _ _ _ copies => ?_
        exact .bind (startCall_twin blind _ (.cons copies .nil)) fun _ _ _ _ _ _ _ => position_twin _
  · refine .get fun states => ?_
    rw [states.heap.text actors.trigger]
    exact .fail

theorem enqueue_twin (acts : act.Twin pairs act') (target event payload : Operand) :
    Exec.Twin outer pairs state other (env.enqueue act target event payload) (env.enqueue act' target event payload) Same := by
  refine .bind (eval_twin blind acts target) fun _ _ _ _ _ grown targets => ?_
  refine .bind (.ofValueOp blind.handler (Value.asMachine_twin _ targets)) fun _ _ _ machine _ grown' same => ?_
  obtain rfl := same
  have acts := (acts.mono grown).mono grown'
  refine .bind (eval_twin blind acts event) fun _ _ _ left right grown'' events => ?_
  have kinds : left.isEvent = right.isEvent := by
    cases events with
    | scalar _ | cell _ => rfl
  rw [kinds]
  split
  · refine .bind (eval_twin blind (acts.mono grown'') payload) fun _ _ _ _ _ last payloads => .actor fun actors => ?_
    rw [actors.id]
    exact .perform blind.handler (.enqueue (events.mono last) payloads)
  · exact .ofValueOp blind.handler (.mismatch events _ _)

/-- Every instruction goes alike in twin states. -/
theorem step_twin (acts : act.Twin pairs act') (instr : Instr) :
    Exec.Twin outer pairs state other (env.step act instr) (env.step act' instr) Flow.Twin := by
  have jumped {pairs : Pairing} {state other : Running σ} (acts : act.Twin pairs act') (target : Target) :
      Exec.Twin outer pairs state other (do pure (Flow.next { act with position := ← env.position target }))
        (do pure (Flow.next { act' with position := ← env.position target })) Flow.Twin :=
    .bind (position_twin target) fun _ _ _ _ _ grown same => .pure (.next { acts.mono grown with position := same })
  have stored {pairs : Pairing} {state other : Running σ} {act act' : Activation} {value value' : Value} (acts : act.Twin pairs act')
      (place : Place) (values : value.Twin pairs value') :
      Exec.Twin outer pairs state other (Flow.next <$> env.store act place value) (Flow.next <$> env.store act' place value') Flow.Twin :=
    .map (store_twin blind acts place values) fun _ _ _ twin => .next twin
  cases instr with
  | label _ | mark _ => exact .pure (.next acts)
  | jump target => exact jumped acts target
  | jumpUnless cond target =>
      refine .bind (eval_twin blind acts cond) fun _ _ _ _ _ grown conds => ?_
      refine .bind (.ofValueOp blind.handler (Value.asBool_twin _ conds)) fun _ _ _ holds _ grown' same => ?_
      obtain rfl := same
      cases holds
      · exact jumped ((acts.mono grown).mono grown') target
      · exact .pure (.next ((acts.mono grown).mono grown'))
  | assign dest value => exact .bind (eval_twin blind acts value) fun _ _ _ _ _ grown values => stored (acts.mono grown) dest values
  | swap dest source =>
      exact .bind (load_twin blind acts dest) fun _ _ _ _ _ grown olds =>
        .bind (load_twin blind (acts.mono grown) source) fun _ _ _ _ _ grown' news =>
          .bind (store_twin blind ((acts.mono grown).mono grown') dest news) fun _ _ _ _ _ grown'' acts =>
            stored acts source ((olds.mono grown').mono grown'')
  | update container selector value =>
      exact .bind (eval_twin blind acts value) fun _ _ _ _ _ grown values =>
        .bind (load_twin blind (acts.mono grown) container) fun _ _ _ _ _ grown' containers =>
          .bind (replacePart_twin blind ((acts.mono grown).mono grown') containers selector (values.mono grown')) fun _ _ _ _ _ grown'' _ =>
            .pure (.next (((acts.mono grown).mono grown').mono grown''))
  | exchange container selector source =>
      exact .bind (load_twin blind acts source) fun _ _ _ _ _ grown values =>
        .bind (load_twin blind (acts.mono grown) container) fun _ _ _ _ _ grown' containers =>
          .bind (replacePart_twin blind ((acts.mono grown).mono grown') containers selector (values.mono grown')) fun _ _ _ _ _ grown'' olds =>
            stored (((acts.mono grown).mono grown').mono grown'') source olds
  | remove container kind key =>
      exact .bind (eval_twin blind acts key) fun _ _ _ _ _ grown keys =>
        .bind (load_twin blind (acts.mono grown) container) fun _ _ _ _ _ grown' containers =>
          .bind (expectKind_twin blind kind containers) fun _ _ _ _ _ grown'' _ =>
            .bind (.ofValueOp blind.handler (Value.remove_twin (containers.mono grown'') ((keys.mono grown').mono grown'')))
              fun _ _ _ _ _ last _ => .pure (.next ((((acts.mono grown).mono grown').mono grown'').mono last))
  | insert container kind entry =>
      refine .bind (eval_twin blind acts entry) fun _ _ _ _ _ grown entries =>
        .bind (load_twin blind (acts.mono grown) container) fun _ _ _ _ _ grown' containers =>
          .bind (expectKind_twin blind kind containers) fun _ _ _ _ _ grown'' _ => ?_
      have acts := ((acts.mono grown).mono grown').mono grown''
      have entries := (entries.mono grown').mono grown''
      refine .bind (.ofValueOp blind.handler (Value.field_twin entries 0)) fun _ _ _ _ _ grown keys =>
        .bind (.ofValueOp blind.handler (Value.field_twin (entries.mono grown) 1)) fun _ _ _ _ _ grown' values => ?_
      have containers := ((containers.mono grown'').mono grown).mono grown'
      exact .bind (.ofValueOp blind.handler (Value.insert_twin containers (keys.mono grown') values)) fun _ _ _ _ _ last _ =>
        .pure (.next (((acts.mono grown).mono grown').mono last))
  | assert cond message =>
      refine .bind (eval_twin blind acts cond) fun _ _ _ _ _ grown conds => ?_
      refine .bind (.ofValueOp blind.handler (Value.asBool_twin _ conds)) fun _ _ _ holds _ grown' same => ?_
      obtain rfl := same
      cases holds
      · exact .fail
      · exact .pure (.next ((acts.mono grown).mono grown'))
  | print format args =>
      refine .bind (evalAll_twin blind acts args) fun _ _ _ _ _ grown twins => .get fun states => .actor fun actors => ?_
      rw [actors.id, formatMessage_twin twins fun twin => states.heap.text twin]
      exact .bind (.perform blind.handler .print) fun _ _ _ _ _ last _ => .pure (.next ((acts.mono grown).mono last))
  | announce event payload =>
      refine .bind (eval_twin blind acts event) fun _ _ _ _ _ grown events =>
        .bind (eval_twin blind (acts.mono grown) payload) fun _ _ _ _ _ grown' payloads => .actor fun actors => ?_
      rw [actors.id]
      exact .bind (.perform blind.handler (.announce (events.mono grown') payloads)) fun _ _ _ _ _ last _ =>
        .pure (.next (((acts.mono grown).mono grown').mono last))
  | enqueue target event payload =>
      exact .bind (enqueue_twin blind acts target event payload) fun _ _ _ _ _ grown _ => .pure (.next (acts.mono grown))
  | setGotoTarget state =>
      exact .bind (.modifyActor fun actors => { actors with gotoTarget := rfl }) fun _ _ _ _ _ grown _ => .pure (.next (acts.mono grown))
  | registerReceive event =>
      refine .bind (.modifyActor fun actors => ?_) fun _ _ _ _ _ grown _ => .pure (.next (acts.mono grown))
      rw [actors.receiveSet]
      split
      · exact actors
      · exact { actors with receiveSet := rfl }
  | dispatchReceive arms =>
      exact .bind (dispatchReceive_twin blind arms) fun _ _ _ _ _ grown same => .pure (.next { acts.mono grown with position := same })
  | pushFrame callee args =>
      exact .bind (evalArguments_twin blind acts args) fun _ _ _ _ _ grown twins =>
        .bind (startCall_twin blind callee twins) fun _ _ _ _ _ grown' _ => .pure (.next ((acts.mono grown).mono grown'))
  | invoke callee =>
      exact .bind (blind.invokes callee) fun _ _ _ _ _ grown results => .pure (.next { acts.mono grown with lastCall := .some results })
  | propagateSuspension callee resume =>
      have last := acts.lastCall
      unfold step
      generalize act.lastCall = one, act'.lastCall = two at last ⊢
      cases last with
      | none => exact .fail
      | some result =>
          cases result with
          | completed _ _ => exact .pure (.next acts)
          | suspended reasons =>
              exact .bind (saveFrame_twin acts resume _) fun _ _ _ _ _ grown _ => .pure (.leave (.suspended (reasons.mono grown)))
  | collectReturn dest =>
      have last := acts.lastCall
      unfold step
      generalize act.lastCall = one, act'.lastCall = two at last ⊢
      cases last with
      | none => exact .fail
      | some result =>
          cases result with
          | completed values _ => exact stored acts dest (.getD values)
          | suspended _ => exact .fail
  | writeBack dest slot =>
      have last := acts.lastCall
      unfold step
      generalize act.lastCall = one, act'.lastCall = two at last ⊢
      cases last with
      | none => exact .fail
      | some result =>
          cases result with
          | @completed _ _ items others _ locals =>
              have found := getElem?_twin locals slot
              dsimp only
              generalize items[slot]? = one, others[slot]? = two at found ⊢
              cases found with
              | none => exact .fail
              | some values => exact stored acts dest values
          | suspended _ => exact .fail
  | readCreated dest =>
      refine .actor fun actors => ?_
      rw [actors.resume]
      split
      · exact .bind (.modifyActor fun actors => { actors with resume := by rw [actors.resume] }) fun _ _ _ _ _ grown _ =>
          stored (acts.mono grown) dest .machine
      · exact .fail
  | recordChoice number =>
      refine .actor fun actors => ?_
      rw [actors.resume, acts.choices]
      split
      · exact .bind (.modifyActor fun actors => { actors with resume := by rw [actors.resume] }) fun _ _ _ _ _ grown _ =>
          .pure (.next { acts.mono grown with choices := rfl })
      · exact .fail
  | «yield» request =>
      exact .bind (request_twin blind acts request) fun _ _ _ _ _ _ twin => .pure (.next { twin.1 with pending := .some twin.2 })
  | exit =>
      have last := acts.pending
      unfold step
      generalize act.pending = one, act'.pending = two at last ⊢
      cases last with
      | none => exact .fail
      | some result => exact .pure (.leave result)

end

end Env

end Reentry
