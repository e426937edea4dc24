import Reentry.Proofs.Execution.Reads
import Reentry.Proofs.Lowering.CallFree
import Reentry.Proofs.Structure.Layout
import Reentry.Proofs.Structure.Simulation
import Reentry.Proofs.Twins.Execution

/-!
Operands that are evaluated twice. An operand that calls no function leaves everything as it is but for new cells; so
when it is evaluated again it gives what it gave before, up to the names of the cells that it makes anew.
-/

namespace Reentry

/-- Nothing has happened, but there may be new cells. -/
structure Running.Rests {σ : Type} (before after : Running σ) : Prop where
  heap : before.heap.Extends after.heap
  others : after = { before with heap := after.heap }

namespace Running

variable {σ : Type} {outer : Pairing → σ → σ → Prop} {pairs : Pairing} {first second third state other later : Running σ}

theorem Rests.refl (state : Running σ) : state.Rests state := ⟨.refl _, rfl⟩

theorem Rests.trans (left : first.Rests second) (right : second.Rests third) : first.Rests third := by
  refine ⟨left.heap.trans right.heap, ?_⟩
  rw [right.others, left.others]

theorem Twin.restLeft (twin : state.Twin pairs outer other) (rests : state.Rests later) : later.Twin pairs outer other := by
  rw [rests.others]
  exact { twin with heap := twin.heap.extendLeft rests.heap }

theorem Twin.restRight (twin : state.Twin pairs outer other) (rests : other.Rests later) : state.Twin pairs outer later := by
  rw [rests.others]
  exact { twin with heap := twin.heap.extendRight rests.heap }

end Running

namespace ValueOp

variable {α : Type} {region : Region} {heap after : Heap} {result : α}

/-- What stays within an empty region only adds cells. -/
theorem Stays.extends {work : ValueOp α} {values : α → List Value} (stays : Stays (fun _ => False) heap work values)
    (ran : work.run heap = .ok (result, after)) : heap.Extends after := by
  have did := stays (.empty heap)
  rw [ran] at did
  obtain ⟨more, grows, _⟩ := did
  exact ⟨grows.size, fun address old => grows.elsewhere address old id⟩

theorem Quiet.extends {work : ValueOp α} (quiet : Quiet work) (ran : work.run heap = .ok (result, after)) : heap.Extends after :=
  (Stays.of_quiet quiet fun _ => rfl : Stays _ heap work fun _ => []).extends ran

end ValueOp

/-- Operators on two values allocate nothing. -/
theorem BinaryOp.apply_quiet (op : BinaryOp) (lhs rhs : Value) : ValueOp.Quiet (op.apply lhs rhs) := by
  cases op with
  | add | sub | mul | lt | le | gt | ge => exact (ValueOp.Quiet.ints _ _ _).bind fun _ => .pure _
  | div =>
      refine (ValueOp.Quiet.ints _ _ _).bind fun pair => ?_
      dsimp only
      split
      · exact .throw _
      · exact .pure _
  | and | or =>
      refine (ValueOp.Quiet.asBool _ _).bind fun holds => ?_
      split
      all_goals first | exact .pure _ | exact (ValueOp.Quiet.asBool _ _).bind fun _ => .pure _
  | eq | ne => exact ValueOp.Quiet.get.bind fun _ => .pure _
  | index => exact .lookup _ _
  | mem => exact (ValueOp.Quiet.containsKey _ _).bind fun _ => .pure _

/-- Operators on one value only add cells. -/
theorem UnaryOp.apply_extends (op : UnaryOp) {arg result : Value} {heap after : Heap}
    (ran : (op.apply arg).run heap = .ok (result, after)) : heap.Extends after :=
  (UnaryOp.apply_stays op arg).extends ran

namespace Heap

theorem Fresh.extends {before after : Heap} {values : List Value} (fresh : Fresh before after values) : before.Extends after :=
  ⟨fresh.size, fresh.same⟩

end Heap

namespace Exec

variable {σ α β : Type}

/-- Work that does nothing but add cells, also where it fails. -/
def Resting (work : Exec σ α) : Prop := Moves Running.Rests Running.Rests work

namespace Resting

variable {work : Exec σ α} {rest : α → Exec σ β}

theorem trace : Trace (fun first second : Running σ => first.Rests second) Running.Rests where
  refl := .refl
  trans _ _ _ := .trans
  loses := .refl
  trails _ _ _ := .trans

theorem pure {value : α} : Resting (Pure.pure value : Exec σ α) := trace.pure

theorem fail {cause : RuntimeFailure} : Resting (Exec.fail cause : Exec σ α) := trace.fail

theorem bind (first : Resting work) (next : ∀ value, Resting (rest value)) : Resting (work >>= rest) := trace.bind first next

theorem actor : Resting (Exec.actor : Exec σ Actor) := trace.readActor

theorem ofAlloc {work : Alloc α} (grows : ∀ heap : Heap, heap.Extends (work.run heap).2) : Resting (Exec.ofAlloc work : Exec σ α) :=
  fun state => ⟨grows state.heap, rfl⟩

theorem new (cell : Cell) : Resting (Exec.ofAlloc cell.new : Exec σ Value) := .ofAlloc fun heap => .allocate heap cell

theorem ofValueOp {work : ValueOp α} (grows : ∀ {result heap after}, work.run heap = .ok (result, after) → heap.Extends after) :
    Resting (Exec.ofValueOp work : Exec σ α) := by
  intro state
  unfold Ends
  rw [ofValueOp_apply]
  cases ran : work.run state.heap with
  | ok pair => exact ⟨grows ran, rfl⟩
  | error cause => exact .refl state

theorem quiet {work : ValueOp α} (quiet : work.Quiet) : Resting (Exec.ofValueOp work : Exec σ α) := .ofValueOp quiet.extends

end Resting

end Exec

namespace Env

open Exec

variable {σ : Type} {env : Env σ} {act : Activation}

theorem expectKind_rests (kind : ContainerKind) (container : Value) : Resting (expectKind kind container : Exec σ Unit) := by
  refine .quiet (ValueOp.Quiet.get.bind fun heap => ?_)
  split
  all_goals first | exact .pure _ | exact .mismatch _ _ _

mutual

/-- Loading a place to which no call leads changes nothing. -/
theorem load_rests : (place : Place) → place.isCallFree → Resting (env.load act place)
  | .slot index, _ => by
      unfold load
      split
      · exact .pure
      · exact .fail
  | .field index, _ => by
      refine .bind .actor fun actor => ?_
      split
      · exact .pure
      · exact .fail
  | .trigger, _ | .payload, _ => .bind .actor fun _ => .pure
  | .part base index, free => .bind (load_rests base free) fun _ => .quiet (.field _ _)
  | .element base key kind, free =>
      have free : base.isCallFree ∧ key.isCallFree := Bool.and_eq_true_iff.mp free
      .bind (load_rests base free.1) fun _ => .bind (expectKind_rests kind _) fun _ =>
        .bind (eval_rests key free.2) fun _ => .quiet (.lookup _ _)

/-- Evaluating an operand that calls nothing changes nothing. -/
theorem eval_rests : (operand : Operand) → operand.isCallFree → Resting (env.eval act operand)
  | .const _, _ => .pure
  | .this, _ => .bind .actor fun _ => .pure
  | .load place, free => load_rests place free
  | .clone inner, free => .bind (eval_rests inner free) fun value =>
      .ofAlloc fun heap => (Alloc.Makes.deepCopy [] value).fresh.extends
  | .unary op arg, free => .bind (eval_rests arg free) fun _ => .ofValueOp op.apply_extends
  | .binary op lhs rhs, free => by
      obtain ⟨left, right⟩ := Bool.and_eq_true_iff.mp free
      have first := eval_rests lhs left
      have second := eval_rests rhs right
      cases op
      case and | or =>
        refine .bind first fun value => .bind (.quiet (.asBool _ _)) fun holds => ?_
        cases holds
        all_goals first | exact .pure | exact .bind second fun _ => .bind (.quiet (.asBool _ _)) fun _ => .pure
      all_goals exact .bind first fun _ => .bind second fun _ => .quiet (BinaryOp.apply_quiet _ _ _)
  | .lookup base key kind, free =>
      have free : base.isCallFree ∧ key.isCallFree := Bool.and_eq_true_iff.mp free
      .bind (eval_rests base free.1) fun _ => .bind (expectKind_rests kind _) fun _ =>
        .bind (eval_rests key free.2) fun _ => .quiet (.lookup _ _)
  | .part base index, free => .bind (eval_rests base free) fun _ => .quiet (.field _ _)
  | .tuple items, free => .bind (evalAll_rests items free) fun _ => .new _
  | .named fields, free => .bind (evalFields_rests fields free) fun _ => .new _
  | .default ty, _ => .ofAlloc fun heap => (Alloc.Makes.initial [] ty).fresh.extends
  | .cast value ty, free => .bind (eval_rests value free) fun _ => .quiet (.cast _ _)
  | .call _ _, free => nomatch free
  | .choice number, _ => by
      unfold eval
      split
      · exact .pure
      · exact .fail

theorem evalAll_rests : (operands : List Operand) → allCallFree operands → Resting (env.evalAll act operands)
  | [], _ => .pure
  | operand :: rest, free =>
      have free : operand.isCallFree ∧ allCallFree rest := Bool.and_eq_true_iff.mp free
      .bind (eval_rests operand free.1) fun _ => .bind (evalAll_rests rest free.2) fun _ => .pure

theorem evalFields_rests : (fields : List (String × Operand)) → fieldsCallFree fields → Resting (env.evalFields act fields)
  | [], _ => .pure
  | (_, operand) :: rest, free =>
      have free : operand.isCallFree ∧ fieldsCallFree rest := Bool.and_eq_true_iff.mp free
      .bind (eval_rests operand free.1) fun _ => .bind (evalFields_rests rest free.2) fun _ => .pure

end

end Env

end Reentry

/-!
Events that are checked and used. Raising and sending first make sure that the event is not null and then evaluate it
once more. That comes to the same as evaluating it once, if evaluating it has no effects.
-/

namespace Reentry

open Exec

theorem Heap.equal_null (heap : Heap) (value : Value) : heap.equal value .null = (value == .null) := by
  cases value <;> rfl

namespace Env

variable {σ : Type} {env : Env σ} {act : Activation}

/-- Raises an event: it becomes the trigger, and control is given up. -/
def raiseAs (env : Env σ) (act : Activation) (payload : Operand) (event : Value) : Exec σ Continuation := do
  Exec.modifyActor fun actor => { actor with trigger := event }
  let payload ← env.eval act payload
  Exec.modifyActor fun actor => { actor with payload := payload }
  pure (.suspended .raise)

/-- Sends an event to a machine, saves the frame and gives up control. -/
def sendAs (env : Env σ) (act : Activation) (machine : MachineId) (payload : Operand) (resume : LabelId) (event : Value) :
    Exec σ Continuation := do
  if event.isEvent then
    let payload ← env.eval act payload
    Exec.perform env.handler (.enqueue (← Exec.actor).id machine event payload)
    let _ ← env.saveFrame act resume none
    pure (.suspended .send)
  else Exec.ofValueOp (Value.mismatch "send" "event" event)

/-- The machine that an operand names. -/
def recipient (env : Env σ) (act : Activation) (target : Operand) : Exec σ MachineId := do
  let target ← env.eval act target
  Exec.ofValueOp (target.asMachine "send target")

/-- Evaluates an event and goes on with it unless it is null. -/
def withEvent {α : Type} (env : Env σ) (act : Activation) (message : String) (event : Operand) (rest : Value → Exec σ α) : Exec σ α := do
  let event ← env.eval act event
  if event = .null then Exec.fail (.assertionFailed message) else rest event

/-- Raises an event that is evaluated once: the value that has been checked is stored. -/
def raiseOnce (env : Env σ) (act : Activation) (message : String) (event payload : Operand) : Exec σ Continuation :=
  env.withEvent act message event (env.raiseAs act payload)

/-- Sends an event that is evaluated once: the value that has been checked is put into the mailbox. -/
def sendOnce (env : Env σ) (act : Activation) (message : String) (target event payload : Operand) (resume : LabelId) :
    Exec σ Continuation :=
  env.withEvent act message event fun event => do
    let machine ← env.recipient act target
    env.sendAs act machine payload resume event

/-! What the code does. -/

theorem eval_moved (position : Nat) (operand : Operand) : env.eval { act with position } operand = env.eval act operand :=
  have alike : act.Alike { act with position } := ⟨rfl, rfl⟩
  env.eval_alike alike operand

theorem withEvent_bind {α β : Type} (message : String) (event : Operand) (first : Value → Exec σ α) (rest : α → Exec σ β) :
    env.withEvent act message event first >>= rest = env.withEvent act message event fun value => first value >>= rest := by
  unfold withEvent
  rw [bind_assoc]
  refine bind_congr fun value => ?_
  split <;> rfl

/-- The check of an event lets every value pass but null. -/
theorem step_nonNull (event : Operand) (message : String) :
    env.step act (.assert (Template.nonNull event) message) = env.withEvent act message event fun _ => pure (.next act) := by
  funext state
  simp only [step, Template.nonNull, Operand.null, eval, Constant.value, withEvent, pure_bind, Exec.bind_apply]
  cases evaluated : env.eval act event state with
  | error stop after => rfl
  | ok value after =>
      have compared : (BinaryOp.ne.apply value .null).run after.heap = .ok (.bool (value != .null), after.heap) := by
        change Except.ok (Value.bool !after.heap.equal value .null, after.heap) = _
        rw [Heap.equal_null]
        rfl
      simp only [Exec.ofValueOp_apply, compared]
      cases value <;> rfl

theorem run_step {instr : Instr} (here : env.routine.body[act.position]? = some instr) (steps : Nat) :
    env.run (steps + 1) act = env.step { act with position := act.position + 1 } instr >>= fun flow =>
      match flow with
      | .next act => env.run steps act
      | .leave result => pure result := by
  refine (env.run_succ steps act).trans ?_
  exact congrArg (· >>= _) (move_of_getElem? here)

/-- The code of a raise checks the event and evaluates it once more to store it. -/
theorem run_raise {message : String} {event payload : Operand}
    (placed : CodeAt env.routine.body act.position (Template.raise message event payload)) (steps : Nat) :
    env.run (steps + 5) act = env.withEvent act message event fun _ => env.eval act event >>= env.raiseAs act payload := by
  rw [run_step placed.head, step_nonNull, withEvent_bind]
  unfold withEvent
  rw [eval_moved]
  refine bind_congr fun checked => ?_
  split
  · rfl
  simp only [pure_bind]
  rw [run_step placed.tail.head]
  simp only [step, eval_moved, bind_assoc, store, map_eq_pure_bind, pure_bind]
  refine bind_congr fun event => bind_congr fun _ => ?_
  rw [run_step placed.tail.tail.head]
  simp only [step, eval_moved, bind_assoc, store, map_eq_pure_bind, pure_bind]
  refine bind_congr fun payload => bind_congr fun _ => ?_
  rw [run_step placed.tail.tail.tail.head]
  simp only [step, request, pure_bind]
  rw [run_step placed.tail.tail.tail.tail.head]
  rfl

/-- The code of a send checks the event and evaluates it once more to put it into the mailbox. -/
theorem run_send {message : String} {target event payload : Operand} {resume : LabelId}
    (placed : CodeAt env.routine.body act.position (Template.send message target event payload resume)) (steps : Nat) :
    env.run (steps + 4) act = env.withEvent act message event (fun _ => do
      let machine ← env.recipient act target
      let event ← env.eval act event
      env.sendAs act machine payload resume event) := by
  rw [run_step placed.head, step_nonNull, withEvent_bind]
  unfold withEvent
  rw [eval_moved]
  refine bind_congr fun checked => ?_
  split
  · rfl
  simp only [pure_bind]
  rw [run_step placed.tail.head]
  simp only [step, enqueue, recipient, eval_moved, bind_assoc, pure_bind]
  refine bind_congr fun target => bind_congr fun machine => bind_congr fun event => ?_
  unfold sendAs
  split
  · simp only [bind_assoc]
    refine bind_congr fun payload => bind_congr fun sender => bind_congr fun _ => ?_
    rw [run_step placed.tail.tail.head]
    simp only [step, request, saveFrame, bind_assoc, pure_bind]
    refine bind_congr fun _ => ?_
    rw [run_step placed.tail.tail.tail.head]
    rfl
  · rfl

section

variable {outer : Pairing → σ → σ → Prop} {pairs : Pairing} {state other : Running σ} {act' : Activation} (blind : env.Blind outer)
include blind

theorem raiseAs_twin (acts : act.Twin pairs act') (payload : Operand) {event event' : Value} (events : event.Twin pairs event') :
    Exec.Twin outer pairs state other (env.raiseAs act payload event) (env.raiseAs act' payload event') Continuation.Twin :=
  .bind (.modifyActor fun actors => { actors with trigger := events }) fun _ _ _ _ _ grown _ =>
    .bind (eval_twin blind (acts.mono grown) payload) fun _ _ _ _ _ _ payloads =>
      .bind (.modifyActor fun actors => { actors with payload := payloads }) fun _ _ _ _ _ _ _ => .pure (.suspended (.same nofun))

theorem sendAs_twin (acts : act.Twin pairs act') (machine : MachineId) (payload : Operand) (resume : LabelId) {event event' : Value}
    (events : event.Twin pairs event') :
    Exec.Twin outer pairs state other (env.sendAs act machine payload resume event) (env.sendAs act' machine payload resume event')
      Continuation.Twin := by
  have kinds : event.isEvent = event'.isEvent := by
    cases events with
    | scalar _ | cell _ => rfl
  unfold sendAs
  rw [kinds]
  split
  · refine .bind (eval_twin blind acts payload) fun _ _ _ _ _ grown payloads => .actor fun actors => ?_
    rw [actors.id]
    exact .bind (.perform blind.handler (.enqueue (events.mono grown) payloads)) fun _ _ _ _ _ grown' _ =>
      .bind (saveFrame_twin ((acts.mono grown).mono grown') resume none) fun _ _ _ _ _ _ _ => .pure (.suspended (.same nofun))
  · exact .ofValueOp blind.handler (.mismatch events _ _)

theorem recipient_twin (acts : act.Twin pairs act') (target : Operand) :
    Exec.Twin outer pairs state other (env.recipient act target) (env.recipient act' target) Same :=
  .bind (eval_twin blind acts target) fun _ _ _ _ _ _ targets => .ofValueOp blind.handler (Value.asMachine_twin _ targets)

/-- Instead of the value that was checked, the event may be evaluated once more: if that has no effects, and neither has
what is done in between. -/
theorem withEvent_again {α β γ : Type} {like : Pairing → β → γ → Prop} {between between' : Exec σ α} {rest : α → Value → Exec σ β}
    {rest' : α → Value → Exec σ γ} (acts : act.Twin pairs act') (message : String) {event : Operand}
    (rests : Resting (env.eval act event)) (still : Resting between) (still' : Resting between')
    (betweens : ∀ {pairs state other}, act.Twin pairs act' → Exec.Twin outer pairs state other between between' Same)
    (next : ∀ {pairs state other} result {value value' : Value}, act.Twin pairs act' → value.Twin pairs value' →
      Exec.Twin outer pairs state other (rest result value) (rest' result value') like) :
    Exec.Twin outer pairs state other (env.withEvent act message event fun _ => between >>= fun result => env.eval act event >>= rest result)
      (env.withEvent act' message event fun value => between' >>= fun result => rest' result value) like := by
  intro states
  have evaluated := eval_twin blind acts event states
  unfold withEvent
  rw [Exec.bind_apply, Exec.bind_apply]
  generalize checks : env.eval act event state = one, checks' : env.eval act' event other = two at evaluated ⊢
  cases evaluated with
  | error within states => exact .error within states
  | @ok more value value' middle middle' within middles values =>
      have rested : state.Rests middle := (rests state).ok checks
      have nulls : value = .null ↔ value' = .null := by
        cases values with
        | scalar _ => rfl
        | cell _ => exact ⟨nofun, nofun⟩
      dsimp only
      by_cases null : value' = .null
      · rw [if_pos (nulls.mpr null), if_pos null]
        exact .error within middles
      rw [if_neg (mt nulls.mp null), if_neg null]
      have did := betweens (acts.mono within) middles
      rw [Exec.bind_apply, Exec.bind_apply]
      generalize does : between middle = one, does' : between' middle' = two at did ⊢
      cases did with
      | error within' states => exact .error (within.trans within') states
      | @ok _ result _ late late' within' _ same =>
          obtain rfl := same
          -- nothing has happened on the left that the event could tell, so it is evaluated as on the right before
          have again := eval_twin blind acts event (states.restLeft (rested.trans ((still middle).ok does)))
          rw [checks'] at again
          dsimp only
          rw [Exec.bind_apply]
          generalize env.eval act event late = one at again ⊢
          cases again with
          | ok within states values =>
              have ended := next result (acts.mono within) values (states.restRight ((still' middle').ok does'))
              dsimp only
              generalize rest _ _ _ = one, rest' _ _ _ = two at ended ⊢
              cases ended with
              | error within' states => exact .error (within.trans within') states
              | ok within' states twin => exact .ok (within.trans within') states twin

/-- Where evaluating the event has no effects, a raise goes as if the event were evaluated once. -/
theorem run_raise_once (acts : act.Twin pairs act') {message : String} {event payload : Operand} (rests : Resting (env.eval act event))
    (placed : CodeAt env.routine.body act.position (Template.raise message event payload)) (steps : Nat) :
    Exec.Twin outer pairs state other (env.run (steps + 5) act) (env.raiseOnce act' message event payload) Continuation.Twin := by
  have idle : Resting (pure () : Exec σ Unit) := .pure
  rw [run_raise placed]
  exact withEvent_again blind acts message rests idle idle (fun _ => .pure rfl) fun _ _ _ acts events =>
    raiseAs_twin blind acts payload events

/-- Where evaluating the event and the target has no effects, a send goes as if the event were evaluated once. -/
theorem run_send_once (acts : act.Twin pairs act') {message : String} {target event payload : Operand} {resume : LabelId}
    (rests : Resting (env.eval act event)) (aims : Resting (env.recipient act target)) (aims' : Resting (env.recipient act' target))
    (placed : CodeAt env.routine.body act.position (Template.send message target event payload resume)) (steps : Nat) :
    Exec.Twin outer pairs state other (env.run (steps + 4) act) (env.sendOnce act' message target event payload resume) Continuation.Twin := by
  rw [run_send placed]
  exact withEvent_again blind acts message rests aims aims' (fun acts => recipient_twin blind acts target) fun machine _ _ acts events =>
    sendAs_twin blind acts machine payload resume events

end

end Env

end Reentry
