import Reentry.Proofs.Structure.Course
import Reentry.Proofs.Execution.Reads

/-!
Choices that are settled. Once the booleans of a statement have been recorded, each operand of it means the same as the
operand in which they are written out; then the call need not know them any more.
-/

namespace Reentry

mutual

/-- The place with the choices that are known written out. -/
def Place.settle (known : Nat → Option Bool) : Place → Place
  | .slot index => .slot index
  | .field index => .field index
  | .trigger => .trigger
  | .payload => .payload
  | .part base index => .part (base.settle known) index
  | .element base key kind => .element (base.settle known) (key.settle known) kind

/-- The operand with the choices that are known written out. -/
def Operand.settle (known : Nat → Option Bool) : Operand → Operand
  | .const constant => .const constant
  | .this => .this
  | .load place => .load (place.settle known)
  | .clone inner => .clone (inner.settle known)
  | .unary op arg => .unary op (arg.settle known)
  | .binary op lhs rhs => .binary op (lhs.settle known) (rhs.settle known)
  | .lookup base key kind => .lookup (base.settle known) (key.settle known) kind
  | .part base index => .part (base.settle known) index
  | .tuple items => .tuple (Operand.settleAll known items)
  | .named fields => .named (Operand.settleFields known fields)
  | .default ty => .default ty
  | .cast value ty => .cast (value.settle known) ty
  | .call callee args => .call callee (Operand.settleArguments known args)
  | .choice number =>
      match known number with
      | some chosen => .const (.bool chosen)
      | none => .choice number

def Operand.settleAll (known : Nat → Option Bool) : List Operand → List Operand
  | [] => []
  | operand :: rest => operand.settle known :: Operand.settleAll known rest

def Operand.settleFields (known : Nat → Option Bool) : List (String × Operand) → List (String × Operand)
  | [] => []
  | (name, operand) :: rest => (name, operand.settle known) :: Operand.settleFields known rest

def Operand.settleArguments (known : Nat → Option Bool) : List Argument → List Argument
  | [] => []
  | .mk operand qualifier :: rest => .mk (operand.settle known) qualifier :: Operand.settleArguments known rest

end

namespace Operand

variable {known : Nat → Option Bool}

theorem settleAll_eq_map (operands : List Operand) : settleAll known operands = operands.map (settle known) := by
  induction operands with
  | nil => rfl
  | cons operand rest ih => rw [settleAll, ih, List.map_cons]

theorem settle_cloned (operand : Operand) : operand.cloned.settle known = (operand.settle known).cloned := by
  cases operand with
  | choice number =>
      simp only [cloned, settle]
      cases known number <;> rfl
  | _ => rfl

theorem settle_transferred (qualifier : Qualifier) (operand : Operand) :
    (operand.transferred qualifier).settle known = (operand.settle known).transferred qualifier := by
  cases qualifier with
  | move => rfl
  | none | swap => exact operand.settle_cloned

end Operand

def Selector.settle (known : Nat → Option Bool) : Selector → Selector
  | .part index => .part index
  | .element key kind => .element (key.settle known) kind

def YieldRequest.settle (known : Nat → Option Bool) : YieldRequest → YieldRequest
  | .new machine payload resume => .new machine (payload.settle known) resume
  | .retValue value => .retValue (value.settle known)
  | other => other

def Instr.settle (known : Nat → Option Bool) : Instr → Instr
  | .jumpUnless cond target => .jumpUnless (cond.settle known) target
  | .assign dest value => .assign (dest.settle known) (value.settle known)
  | .swap dest source => .swap (dest.settle known) (source.settle known)
  | .update container selector value => .update (container.settle known) (selector.settle known) (value.settle known)
  | .exchange container selector source =>
      .exchange (container.settle known) (selector.settle known) (source.settle known)
  | .remove container kind key => .remove (container.settle known) kind (key.settle known)
  | .insert container kind entry => .insert (container.settle known) kind (entry.settle known)
  | .assert cond message => .assert (cond.settle known) message
  | .print format args => .print format (Operand.settleAll known args)
  | .announce event payload => .announce (event.settle known) (payload.settle known)
  | .enqueue target event payload => .enqueue (target.settle known) (event.settle known) (payload.settle known)
  | .pushFrame callee args => .pushFrame callee (Operand.settleArguments known args)
  | .collectReturn dest => .collectReturn (dest.settle known)
  | .writeBack dest slot => .writeBack (dest.settle known) slot
  | .readCreated dest => .readCreated (dest.settle known)
  | .yield request => .yield (request.settle known)
  | other => other

/-- Whether the call goes on behind the instruction and has recorded no choice by then. -/
def Instr.isPlain : Instr → Bool
  | .recordChoice _ => false
  | instr => instr.isStraight

def Question.settle (known : Nat → Option Bool) : Question → Question
  | .new machine payload => .new machine (payload.settle known)
  | other => other

/-- The steps that a single statement is made of once its choices are known: no choice is asked for, none is recorded,
and there is nothing to decide about what comes next. -/
def Outline.isPlain : Outline → Bool
  | .act instr => instr.isPlain
  | .finish request => request.question?.isNone
  | .ask .nondet => false
  | .ask _ | .call _ | .dispatch _ => true
  | .branch .. | .loop .. => false

/-- A step along an outline, not looking into inner statements. -/
def Outline.settle (known : Nat → Option Bool) : Outline → Outline
  | .act instr => .act (instr.settle known)
  | .finish request => .finish (request.settle known)
  | .ask question => .ask (question.settle known)
  | other => other

/-- The activation without the choices that it has recorded. -/
def Activation.unasked (act : Activation) : Activation := { act with choices := [] }

theorem Activation.unasked_lastCall (act : Activation) : act.unasked.lastCall = act.lastCall := rfl

def Flow.unasked : Flow → Flow
  | .next act => .next act.unasked
  | .leave result => .leave result

/-- The choices that a call has recorded, by number. -/
def Activation.recorded (act : Activation) (number : Nat) : Option Bool := act.choices[number]?

/-- What remains of a call, with the choices that it has recorded written out. -/
def Course.settled (course : Course) : Course :=
  ⟨course.ahead.map (Outline.settle course.act.recorded), course.act.unasked⟩

namespace Turn

variable {X Y : Type}

def map (change : X → Y) : Turn X → Turn Y
  | .on here => .on (change here)
  | .ask reason here => .ask reason (change here)
  | .ended result => .ended result

/-- The call, if it goes on, does so in a good way. -/
def All (good : X → Prop) : Turn X → Prop
  | .on here | .ask _ here => good here
  | .ended _ => True

end Turn

namespace Env

variable {σ : Type} (env : Env σ) (act : Activation)

mutual

/-- Operands and places mean what they mean with the recorded choices written out. -/
theorem load_settle : (place : Place) → env.load act.unasked (place.settle act.recorded) = env.load act place
  | .slot _ | .field _ | .trigger | .payload => rfl
  | .part base index => by
      simp only [Place.settle, load, load_settle base]
  | .element base key kind => by
      simp only [Place.settle, load, load_settle base, eval_settle key]

theorem eval_settle : (operand : Operand) → env.eval act.unasked (operand.settle act.recorded) = env.eval act operand
  | .const _ | .this | .default _ => rfl
  | .choice number => by
      simp only [Operand.settle, Activation.recorded]
      cases recorded : act.choices[number]? with
      | none =>
          simp only [eval, recorded]
          rfl
      | some chosen =>
          simp only [eval, recorded]
          rfl
  | .load place => by
      simp only [Operand.settle, eval, load_settle place]
  | .clone inner => by
      simp only [Operand.settle, eval, eval_settle inner]
  | .unary op arg => by
      simp only [Operand.settle, eval, eval_settle arg]
  | .binary op lhs rhs => by
      cases op <;> simp only [Operand.settle, eval, eval_settle lhs, eval_settle rhs]
  | .lookup base key kind => by
      simp only [Operand.settle, eval, eval_settle base, eval_settle key]
  | .part base index => by
      simp only [Operand.settle, eval, eval_settle base]
  | .tuple items => by
      simp only [Operand.settle, eval, evalAll_settle items]
  | .named fields => by
      simp only [Operand.settle, eval, evalFields_settle fields]
  | .cast value ty => by
      simp only [Operand.settle, eval, eval_settle value]
  | .call callee args => by
      simp only [Operand.settle, eval, evalArguments_settle args]

theorem evalAll_settle : (operands : List Operand) →
    env.evalAll act.unasked (Operand.settleAll act.recorded operands) = env.evalAll act operands
  | [] => rfl
  | operand :: rest => by
      simp only [Operand.settleAll, evalAll, eval_settle operand, evalAll_settle rest]

theorem evalFields_settle : (fields : List (String × Operand)) →
    env.evalFields act.unasked (Operand.settleFields act.recorded fields) = env.evalFields act fields
  | [] => rfl
  | (name, operand) :: rest => by
      simp only [Operand.settleFields, evalFields, eval_settle operand, evalFields_settle rest]

theorem evalArguments_settle : (args : List Argument) →
    env.evalArguments act.unasked (Operand.settleArguments act.recorded args) = env.evalArguments act args
  | [] => rfl
  | .mk operand _ :: rest => by
      simp only [Operand.settleArguments, evalArguments, eval_settle operand, evalArguments_settle rest]

end

theorem replacePart_settle (container : Value) (selector : Selector) (value : Value) :
    env.replacePart act.unasked container (selector.settle act.recorded) value = env.replacePart act container selector value := by
  cases selector with
  | part index => rfl
  | element key kind => simp only [Selector.settle, replacePart, eval_settle]

theorem enqueue_settle (target event payload : Operand) :
    env.enqueue act.unasked (target.settle act.recorded) (event.settle act.recorded) (payload.settle act.recorded)
      = env.enqueue act target event payload := by
  simp only [enqueue, eval_settle]

theorem store_settle (place : Place) (value : Value) :
    env.store act.unasked (place.settle act.recorded) value = Activation.unasked <$> env.store act place value := by
  cases place with
  | slot index =>
      simp only [Place.settle, store, Activation.unasked]
      by_cases bound : index < act.locals.length
      · simp only [bound, if_true]
        rfl
      · simp only [bound, if_false]
        rfl
  | field index =>
      simp only [Place.settle, store, map_bind]
      congr 1
      funext actor
      by_cases bound : index < actor.fields.length
      · simp only [bound, if_true, map_bind, map_pure]
      · simp only [bound, if_false]
        rfl
  | trigger | payload => simp only [Place.settle, store, map_bind, map_pure]
  | part base index => simp only [Place.settle, store, load_settle, map_bind, map_pure]
  | element base key kind => simp only [Place.settle, store, load_settle, eval_settle, map_bind, map_pure]

/-- Storing records no choice. -/
theorem store_recorded (place : Place) (value : Value) :
    env.store act place value = (fun after => { after with choices := act.choices }) <$> env.store act place value := by
  cases place with
  | slot index =>
      simp only [store]
      by_cases bound : index < act.locals.length
      · simp only [bound, if_true]
        rfl
      · simp only [bound, if_false]
        rfl
  | field index =>
      simp only [store, map_bind]
      congr 1
      funext actor
      by_cases bound : index < actor.fields.length
      · simp only [bound, if_true, map_bind, map_pure]
      · simp only [bound, if_false]
        rfl
  | trigger | payload | part _ _ | element _ _ _ => simp only [store, map_bind, map_pure]

theorem step_settle {instr : Instr} (plain : instr.isPlain) :
    env.step act.unasked (instr.settle act.recorded) = Flow.unasked <$> env.step act instr := by
  cases instr with
  | label _ | mark _ | jump _ | jumpUnless _ _ | dispatchReceive _ | invoke _ | propagateSuspension _ _ | «yield» _
  | exit | recordChoice _ => cases plain
  | assign dest value =>
      simp only [Instr.settle, step, eval_settle, store_settle, map_bind, Functor.map_map, Flow.unasked]
  | swap dest source =>
      -- the second place is stored to in the call that the first one leaves
      have again (value other : Value) : (env.store act.unasked (dest.settle act.recorded) value >>= fun after =>
          Flow.next <$> env.store after (source.settle act.recorded) other)
          = env.store act dest value >>= fun after => Flow.unasked <$> (Flow.next <$> env.store after source other) := by
        rw [store_settle, store_recorded, Functor.map_map, bind_map_left, bind_map_left]
        congr 1
        funext after
        have stored := env.store_settle { after with choices := act.choices } source other
        simp only [Functor.map_map, Flow.unasked]
        exact (congrArg _ stored).trans (Functor.map_map _ _ _)
      simp only [Instr.settle, step, load_settle, again, map_bind]
  | update _ _ _ | exchange _ _ _ | remove _ _ _ | insert _ _ _ =>
      simp only [Instr.settle, step, load_settle, eval_settle, replacePart_settle, store_settle, map_bind, map_pure,
        Functor.map_map, Flow.unasked]
  | assert _ _ =>
      simp only [Instr.settle, step, eval_settle, map_bind]
      congr 1
      funext cond
      congr 1
      funext holds
      cases holds <;> rfl
  | print _ _ | announce _ _ | enqueue _ _ _ =>
      simp only [Instr.settle, step, enqueue_settle, eval_settle, evalAll_settle, map_bind, map_pure, Flow.unasked]
  | setGotoTarget _ | registerReceive _ | pushFrame _ _ =>
      simp only [Instr.settle, step, evalArguments_settle, map_bind, map_pure, Flow.unasked]
  | collectReturn dest =>
      simp only [Instr.settle, step, Activation.unasked_lastCall, store_settle]
      rcases act.lastCall with _ | ⟨value, locals⟩ | reason
      · rfl
      · simp only [Functor.map_map, Flow.unasked]
      · rfl
  | writeBack dest slot =>
      simp only [Instr.settle, step, Activation.unasked_lastCall, store_settle]
      rcases act.lastCall with _ | ⟨value, locals⟩ | reason
      · rfl
      · cases found : locals[slot]? with
        | none =>
            simp only [found]
            rfl
        | some value => simp only [found, Functor.map_map, Flow.unasked]
      · rfl
  | readCreated dest =>
      simp only [Instr.settle, step, store_settle, map_bind]
      congr 1
      funext actor
      cases actor.resume.created with
      | none => rfl
      | some created => simp only [map_bind, Functor.map_map, Flow.unasked]

variable {act}

theorem store_choices {place : Place} {value : Value} {state final : Running σ} {after : Activation}
    (stored : env.store act place value state = .ok after final) : after.choices = act.choices := by
  rw [store_recorded] at stored
  obtain ⟨_, _, rfl⟩ := Exec.map_eq_ok.mp stored
  rfl

/-- A plain instruction records no choice. -/
theorem step_choices {instr : Instr} {after : Activation} {state final : Running σ} (plain : instr.isPlain)
    (succeeds : env.step act instr state = .ok (.next after) final) : after.choices = act.choices := by
  cases instr with
  | label _ | mark _ | jump _ | jumpUnless _ _ | dispatchReceive _ | invoke _ | propagateSuspension _ _ | «yield» _
  | exit | recordChoice _ => cases plain
  | assign _ _ | update _ _ _ | exchange _ _ _ | remove _ _ _ | insert _ _ _ | print _ _ | announce _ _
  | enqueue _ _ _ | setGotoTarget _ | registerReceive _ | pushFrame _ _ =>
      simp only [step, Exec.bind_eq_ok, Exec.map_eq_ok, Exec.pure_eq_ok] at succeeds
      grind [store_choices]
  | swap dest source =>
      simp only [step, Exec.bind_eq_ok, Exec.map_eq_ok] at succeeds
      obtain ⟨_, _, _, _, _, _, between, _, first, _, second, same⟩ := succeeds
      cases same
      exact (env.store_choices second).trans (env.store_choices first)
  | assert cond message =>
      obtain ⟨_, _, _, holds, _, _, checked⟩ := by simpa only [step, Exec.bind_eq_ok] using succeeds
      cases holds with
      | true => grind [Exec.pure_eq_ok]
      | false => exact (Exec.fail_ne_ok.mp checked).elim
  | collectReturn dest =>
      rcases called : act.lastCall with _ | ⟨value, locals⟩ | reason <;> simp only [step, called] at succeeds
      · exact (Exec.trap_ne_ok.mp succeeds).elim
      · grind [Exec.map_eq_ok, store_choices]
      · exact (Exec.trap_ne_ok.mp succeeds).elim
  | writeBack dest slot =>
      rcases called : act.lastCall with _ | ⟨value, locals⟩ | reason <;> simp only [step, called] at succeeds
      · exact (Exec.trap_ne_ok.mp succeeds).elim
      · cases found : locals[slot]? with
        | none =>
            simp only [found] at succeeds
            exact (Exec.trap_ne_ok.mp succeeds).elim
        | some value =>
            simp only [found] at succeeds
            grind [Exec.map_eq_ok, store_choices]
      · exact (Exec.trap_ne_ok.mp succeeds).elim
  | readCreated dest =>
      obtain ⟨actor, _, _, read⟩ := Exec.bind_eq_ok.mp succeeds
      cases created : actor.resume.created with
      | none =>
          simp only [created] at read
          exact (Exec.trap_ne_ok.mp read).elim
      | some machine =>
          simp only [created] at read
          grind [Exec.bind_eq_ok, Exec.map_eq_ok, store_choices]

variable (act)

theorem close_map {X Y : Type} (change : X → Y) (result : Continuation) :
    (Turn.map change <$> close result : Exec σ (Turn Y)) = close result := by
  cases result <;> simp only [close, map_bind, map_pure, Turn.map]

/-- A request that ends a call hands the same back. -/
theorem request_settle {request : YieldRequest} (ends : request.question? = none) :
    Prod.snd <$> env.request act.unasked (request.settle act.recorded) = Prod.snd <$> env.request act request := by
  cases request with
  | goto | raise | pop | ret => rfl
  | retValue value =>
      simp only [YieldRequest.settle, request, eval_settle, map_bind, map_pure]
      rfl
  | send _ | receive _ | new _ _ _ | nondet _ => cases ends

theorem reason_settle (question : Question) : env.reason act.unasked (question.settle act.recorded) = env.reason act question := by
  cases question <;> simp only [Question.settle, reason, eval_settle]

theorem finish_settle {request : YieldRequest} (ends : request.question? = none) {X : Type} :
    (env.request act.unasked (request.settle act.recorded) >>= fun after => (close after.2 : Exec σ (Turn X)))
      = env.request act request >>= fun after => close after.2 := by
  have same := congrArg (· >>= (close : Continuation → Exec σ (Turn X))) (env.request_settle act ends)
  simpa only [bind_map_left] using same

/-- What is still to be done behind a step does not matter to it. -/
theorem follow_cons (outline : Outline) (rest : List Outline) :
    env.follow ⟨outline :: rest, act⟩
      = Turn.map (fun course => ⟨course.ahead ++ rest, course.act⟩) <$> env.follow ⟨[outline], act⟩ := by
  cases outline with
  | act instr =>
      simp only [follow, map_bind]
      congr 1
      funext flow
      cases flow with
      | next after => rfl
      | leave result => exact (close_map _ _).symm
  | finish request => simp only [follow, map_bind, close_map]
  | ask question => simp only [follow, map_bind, map_pure, Turn.map, List.nil_append]
  | call callee =>
      simp only [follow, map_bind]
      congr 1
      funext result
      cases result with
      | completed value locals => rfl
      | suspended reason =>
          cases final : reason.isTerminal <;> simp only [final, if_true, close_map]
          rfl
  | dispatch cases => simp only [follow, map_bind, map_pure, Turn.map, List.cons_append, List.nil_append]
  | branch cond onTrue onFalse =>
      simp only [follow, map_bind]
      congr 1
      funext value
      congr 1
      funext holds
      cases holds <;> simp [Turn.map]
  | loop choices cond body => simp [follow, Turn.map]

/-- A plain step of a call that has recorded choices is the step in which they are written out. -/
theorem follow_settled {outline : Outline} (plain : outline.isPlain) :
    env.follow ⟨[outline.settle act.recorded], act.unasked⟩ = Turn.map Course.settled <$> env.follow ⟨[outline], act⟩ := by
  cases outline with
  | act instr =>
      simp only [Outline.settle, follow, env.step_settle act plain, map_bind, bind_map_left]
      congr 1
      funext flow
      cases flow with
      | next after => rfl
      | leave result => exact (close_map _ _).symm
  | finish request =>
      simp only [Outline.settle, follow, map_bind, close_map]
      exact env.finish_settle act (by simpa [Outline.isPlain] using plain)
  | ask question =>
      simp only [Outline.settle, follow, env.reason_settle, map_bind, map_pure]
      rfl
  | call callee =>
      simp only [Outline.settle, follow, map_bind]
      congr 1
      funext result
      cases result with
      | completed value locals => rfl
      | suspended reason =>
          cases final : reason.isTerminal <;> simp only [final, if_true, close_map]
          rfl
  | dispatch cases =>
      simp only [Outline.settle, follow, map_bind, map_pure]
      rfl
  | branch _ _ _ | loop _ _ _ => cases plain

/-- What remains of a plain step is plain, and the recorded choices are the same. -/
theorem follow_plain {outline : Outline} {turn : Turn Course} {state final : Running σ} (plain : outline.isPlain)
    (succeeds : env.follow ⟨[outline], act⟩ state = .ok turn final) :
    turn.All fun course => course.act.choices = act.choices ∧ ∀ step ∈ course.ahead, step.isPlain := by
  have closed {result : Continuation} {state : Running σ} (closes : close result state = .ok turn final) :
      turn.All fun course => course.act.choices = act.choices ∧ ∀ step ∈ course.ahead, step.isPlain := by
    cases result <;> cases closes <;> trivial
  cases outline with
  | act instr =>
      obtain ⟨flow, middle, stepped, went⟩ := Exec.bind_eq_ok.mp succeeds
      cases flow with
      | next after =>
          obtain ⟨rfl, rfl⟩ := Exec.pure_eq_ok.mp went
          exact ⟨env.step_choices plain stepped, nofun⟩
      | leave result => exact closed went
  | finish request =>
      obtain ⟨after, middle, _, closes⟩ := Exec.bind_eq_ok.mp succeeds
      exact closed closes
  | ask question =>
      obtain ⟨reason, middle, _, went⟩ := Exec.bind_eq_ok.mp succeeds
      obtain ⟨rfl, rfl⟩ := Exec.pure_eq_ok.mp went
      exact ⟨rfl, nofun⟩
  | call callee =>
      obtain ⟨result, middle, _, went⟩ := Exec.bind_eq_ok.mp succeeds
      cases result with
      | completed value locals =>
          obtain ⟨rfl, rfl⟩ := Exec.pure_eq_ok.mp went
          exact ⟨rfl, nofun⟩
      | suspended reason =>
          simp only at went
          split at went
          · exact closed went
          · obtain ⟨rfl, rfl⟩ := Exec.pure_eq_ok.mp went
            exact ⟨rfl, by simp [Outline.isPlain]⟩
  | dispatch cases =>
      obtain ⟨handler, middle, _, went⟩ := Exec.bind_eq_ok.mp succeeds
      obtain ⟨rfl, rfl⟩ := Exec.pure_eq_ok.mp went
      exact ⟨rfl, by simp [Outline.isPlain]⟩
  | branch _ _ _ | loop _ _ _ => cases plain

end Env

end Reentry
