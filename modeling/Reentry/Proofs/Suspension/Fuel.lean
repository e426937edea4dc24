import Reentry.Proofs.Suspension.Direct

/-!
More steps never hurt: a run that does not run out of steps does the same when it is given more of them.
-/

namespace Reentry

section

variable {S α β : Type}

/-- The second run does what the first one does, unless the first one runs out of steps. -/
def Below (work more : EStateM Stop S α) : Prop :=
  ∀ state, work state = more state ∨ ∃ after, work state = .error .outOfSteps after

/-- A result that does not come from a lack of steps. -/
def Done (result : EStateM.Result Stop S α) : Prop := ∀ after, result ≠ .error .outOfSteps after

theorem done_ok {value : α} {after : S} : Done (.ok value after : EStateM.Result Stop S α) := fun _ same => by cases same

theorem done_error {stop : Stop} {after : S} :
    Done (.error stop after : EStateM.Result Stop S α) ↔ stop ≠ .outOfSteps := by
  constructor
  · rintro done rfl
    exact done after rfl
  · intro other _ same
    cases same
    exact other rfl

namespace Below

theorem refl (work : EStateM Stop S α) : Below work work := fun _ => .inl rfl

theorem outOfSteps (more : EStateM Stop S α) : Below (throw .outOfSteps) more := fun state => .inr ⟨state, rfl⟩

theorem bind {work more : EStateM Stop S α} {rest rest' : α → EStateM Stop S β} (first : Below work more)
    (next : ∀ value, Below (rest value) (rest' value)) : Below (work >>= rest) (more >>= rest') := by
  intro state
  change EStateM.bind work rest state = EStateM.bind more rest' state ∨ ∃ after, EStateM.bind work rest state = _
  unfold EStateM.bind
  rcases first state with same | ⟨after, stuck⟩
  · rw [← same]
    cases work state with
    | ok value middle => exact next value middle
    | error stop after => exact .inl rfl
  · rw [stuck]
    exact .inr ⟨after, rfl⟩

/-- What follows may take more steps. -/
theorem next {work : EStateM Stop S α} {rest rest' : α → EStateM Stop S β}
    (next : ∀ value, Below (rest value) (rest' value)) : Below (work >>= rest) (work >>= rest') :=
  (refl work).bind next

theorem map {work more : EStateM Stop S α} (change : α → β) (below : Below work more) :
    Below (change <$> work) (change <$> more) := by
  simpa only [bind_pure_comp] using below.bind fun value => refl (pure (change value))

theorem finished {work more : EStateM Stop S α} {state : S} {result : EStateM.Result Stop S α} (below : Below work more)
    (ends : work state = result) (done : Done result) : more state = result := by
  rcases below state with same | ⟨after, stuck⟩
  · exact same.symm.trans ends
  · exact absurd (ends.symm.trans stuck) (done after)

end Below

end

namespace Env

variable {σ : Type} {env : Env σ} {more : FunctionId → Exec σ Continuation} {act : Activation}

/-- The same surroundings with another way to run callees. -/
abbrev withInvoke (env : Env σ) (more : FunctionId → Exec σ Continuation) : Env σ := { env with invoke := more }

theorem callToEnd_below (below : ∀ function, Below (env.invoke function) (more function))
    (callee : FunctionId) (args : List Value) : Below (env.callToEnd callee args) ((env.withInvoke more).callToEnd callee args) :=
  .next fun _ => (below callee).bind fun _ => .refl _

mutual

theorem load_below (below : ∀ function, Below (env.invoke function) (more function)) :
    (place : Place) → Below (env.load act place) ((env.withInvoke more).load act place)
  | .slot _ | .field _ | .trigger | .payload => .refl _
  | .part base _ => (load_below below base).bind fun _ => .refl _
  | .element base key _ => (load_below below base).bind fun _ => .next fun _ => (eval_below below key).bind fun _ => .refl _

theorem eval_below (below : ∀ function, Below (env.invoke function) (more function)) :
    (operand : Operand) → Below (env.eval act operand) ((env.withInvoke more).eval act operand)
  | .const _ | .this | .default _ | .choice _ => .refl _
  | .load place => load_below below place
  | .clone inner => (eval_below below inner).bind fun _ => .refl _
  | .unary _ arg => (eval_below below arg).bind fun _ => .refl _
  | .binary op lhs rhs => by
      have right := eval_below below rhs
      cases op <;> refine (eval_below below lhs).bind fun left => ?_
      case and | or =>
        refine .next fun holds => ?_
        cases holds
        all_goals first | exact .refl _ | exact right.bind fun _ => .refl _
      all_goals exact right.bind fun _ => .refl _
  | .lookup base key _ =>
      (eval_below below base).bind fun _ => .next fun _ => (eval_below below key).bind fun _ => .refl _
  | .part base _ => (eval_below below base).bind fun _ => .refl _
  | .tuple items => (evalAll_below below items).bind fun _ => .refl _
  | .named fields => (evalFields_below below fields).bind fun _ => .refl _
  | .cast value _ => (eval_below below value).bind fun _ => .refl _
  | .call callee args => (evalArguments_below below args).bind fun _ => callToEnd_below below callee _

theorem evalAll_below (below : ∀ function, Below (env.invoke function) (more function)) :
    (operands : List Operand) → Below (env.evalAll act operands) ((env.withInvoke more).evalAll act operands)
  | [] => .refl _
  | operand :: rest => (eval_below below operand).bind fun _ => (evalAll_below below rest).bind fun _ => .refl _

theorem evalFields_below (below : ∀ function, Below (env.invoke function) (more function)) :
    (fields : List (String × Operand)) → Below (env.evalFields act fields) ((env.withInvoke more).evalFields act fields)
  | [] => .refl _
  | (_, operand) :: rest => (eval_below below operand).bind fun _ => (evalFields_below below rest).bind fun _ => .refl _

theorem evalArguments_below (below : ∀ function, Below (env.invoke function) (more function)) :
    (args : List Argument) → Below (env.evalArguments act args) ((env.withInvoke more).evalArguments act args)
  | [] => .refl _
  | .mk operand _ :: rest => (eval_below below operand).bind fun _ => (evalArguments_below below rest).bind fun _ => .refl _

end

theorem store_below (below : ∀ function, Below (env.invoke function) (more function))
    (place : Place) (value : Value) :
    Below (env.store act place value) ((env.withInvoke more).store act place value) := by
  cases place with
  | slot _ | field _ | trigger | payload => exact .refl _
  | part base _ => exact (load_below below base).bind fun _ => .refl _
  | element base key _ =>
      exact (load_below below base).bind fun _ => .next fun _ => (eval_below below key).bind fun _ => .refl _

theorem replacePart_below (below : ∀ function, Below (env.invoke function) (more function)) (container value : Value)
    (selector : Selector) :
    Below (env.replacePart act container selector value) ((env.withInvoke more).replacePart act container selector value) := by
  cases selector with
  | part _ => exact .refl _
  | element key _ => exact .next fun _ => (eval_below below key).bind fun _ => .refl _

theorem request_below (below : ∀ function, Below (env.invoke function) (more function)) (request : YieldRequest) :
    Below (env.request act request) ((env.withInvoke more).request act request) := by
  cases request with
  | new _ payload _ => exact (eval_below below payload).bind fun _ => .refl _
  | retValue value => exact (eval_below below value).bind fun _ => .refl _
  | _ => exact .refl _

theorem reason_below (below : ∀ function, Below (env.invoke function) (more function)) (question : Question) :
    Below (env.reason act question) ((env.withInvoke more).reason act question) := by
  cases question with
  | new _ payload => exact (eval_below below payload).bind fun _ => .refl _
  | send | receive | nondet => exact .refl _

theorem step_below (below : ∀ function, Below (env.invoke function) (more function)) (instr : Instr) :
    Below (env.step act instr) ((env.withInvoke more).step act instr) := by
  cases instr with
  | jumpUnless cond target => exact (eval_below below cond).bind fun _ => .refl _
  | assign dest value => exact (eval_below below value).bind fun _ => (store_below below dest _).map _
  | swap dest source =>
      exact (load_below below dest).bind fun _ => (load_below below source).bind fun _ =>
        (store_below below dest _).bind fun _ => (store_below below source _).map _
  | update container selector value =>
      exact (eval_below below value).bind fun _ => (load_below below container).bind fun _ =>
        (replacePart_below below _ _ selector).bind fun _ => .refl _
  | exchange container selector source =>
      exact (load_below below source).bind fun _ => (load_below below container).bind fun _ =>
        (replacePart_below below _ _ selector).bind fun _ => (store_below below source _).map _
  | remove container _ key =>
      exact (eval_below below key).bind fun _ => (load_below below container).bind fun _ => .refl _
  | insert container _ entry =>
      exact (eval_below below entry).bind fun _ => (load_below below container).bind fun _ => .refl _
  | assert cond _ => exact (eval_below below cond).bind fun _ => .refl _
  | print _ args => exact (evalAll_below below args).bind fun _ => .refl _
  | announce event payload => exact (eval_below below event).bind fun _ => (eval_below below payload).bind fun _ => .refl _
  | enqueue target event payload =>
      refine .bind ?_ fun _ => .refl _
      refine (eval_below below target).bind fun _ => .next fun _ => (eval_below below event).bind fun event' => ?_
      cases event'.isEvent
      · exact .refl _
      · exact (eval_below below payload).bind fun _ => .refl _
  | pushFrame callee args => exact (evalArguments_below below args).bind fun _ => .refl _
  | invoke callee => exact (below callee).bind fun _ => .refl _
  | collectReturn dest =>
      simp only [step]
      rcases act.lastCall with _ | ⟨value, locals⟩ | reason
      · exact .refl _
      · exact (store_below below dest _).map _
      · exact .refl _
  | writeBack dest slot =>
      simp only [step]
      rcases act.lastCall with _ | ⟨value, locals⟩ | reason
      · exact .refl _
      · cases found : locals[slot]? with
        | none =>
            simp only [found]
            exact .refl _
        | some value =>
            simp only [found]
            exact (store_below below dest _).map _
      · exact .refl _
  | readCreated dest =>
      refine .next fun actor => ?_
      cases actor.resume.created with
      | none => exact .refl _
      | some created => exact .next fun _ => (store_below below dest _).map _
  | «yield» request => exact (request_below below request).bind fun _ => .refl _
  | _ => exact .refl _

theorem move_below (below : ∀ function, Below (env.invoke function) (more function)) (act : Activation) :
    Below (env.move act) ((env.withInvoke more).move act) := by
  unfold move
  cases env.routine.body[act.position]? with
  | none => exact .refl _
  | some instr => exact step_below below instr

theorem watch_below (below : ∀ function, Below (env.invoke function) (more function)) (note : Observer σ)
    {steps bound : Nat} (le : steps ≤ bound) (again : Bool) (act : Activation) :
    Below (env.watch note steps again act) ((env.withInvoke more).watch note bound again act) := by
  induction steps generalizing bound again act with
  | zero => exact .outOfSteps _
  | succ steps ih =>
      cases bound with
      | zero => omega
      | succ bound =>
          refine .next fun _ => (move_below below act).bind fun flow => ?_
          cases flow with
          | next after => exact ih (by omega) _ after
          | leave result => exact .refl _

end Env

namespace Talking

variable {σ α : Type}

theorem lift_below {work more : Exec σ α} (below : Below work more) : Below (lift work) (lift more) := by
  intro talk
  unfold lift
  rcases below talk.state with same | ⟨after, stuck⟩
  · exact .inl (by rw [same])
  · exact .inr ⟨{ talk with state := after }, by rw [stuck]⟩

theorem counted_below {call more : Talking σ α} (below : Below call more) : Below (counted call) (counted more) := by
  intro talk
  unfold counted
  rcases below { talk with state := { talk.state with depth := talk.state.depth + 1 } } with same | ⟨after, stuck⟩
  · exact .inl (by rw [same])
  · exact .inr ⟨_, by rw [stuck]⟩

end Talking

theorem Exec.counted_below {σ α : Type} {call more : Exec σ α} (below : Below call more) :
    Below (counted call) (counted more) := by
  intro state
  unfold counted
  rcases below { state with depth := state.depth + 1 } with same | ⟨after, stuck⟩
  · exact .inl (by rw [same])
  · exact .inr ⟨_, by rw [stuck]⟩

namespace Env

variable {σ : Type} {env : Env σ} {more : FunctionId → Exec σ Continuation}
  {invoke invoke' : FunctionId → Talking σ Continuation}

theorem turn_below (below : ∀ function, Below (env.invoke function) (more function))
    (below' : ∀ function, Below (invoke function) (invoke' function)) (act : Activation) :
    Below (env.turn invoke act) ((env.withInvoke more).turn invoke' act) := by
  refine .next fun answered => ?_
  have same : (env.withInvoke more).crossing act = env.crossing act := rfl
  rw [same]
  have plain := Talking.lift_below (move_below below act)
  cases env.crossing act with
  | call callee => exact (below' callee).bind fun _ => .refl _
  | ask question =>
      cases answered
      · exact plain
      · exact (Talking.lift_below (reason_below below question)).bind fun _ => .refl _
  | wait reason =>
      cases answered
      · exact plain
      · exact .refl _
  | plain => exact plain

theorem direct_below (below : ∀ function, Below (env.invoke function) (more function))
    (below' : ∀ function, Below (invoke function) (invoke' function)) (note : Observer σ) {steps bound : Nat}
    (le : steps ≤ bound) (again : Bool) (act : Activation) :
    Below (env.direct note invoke steps again act) ((env.withInvoke more).direct note invoke' bound again act) := by
  induction steps generalizing bound again act with
  | zero => exact .outOfSteps _
  | succ steps ih =>
      cases bound with
      | zero => omega
      | succ bound =>
          refine .next fun _ => (turn_below below below' act).bind fun flow => ?_
          cases flow with
          | next after => exact ih (by omega) _ after
          | leave result => exact .refl _

end Env

namespace RunConfig

variable {σ : Type} {config : RunConfig σ} {note : Observer σ} {steps bound : Nat}

theorem watchWithin_below (le : steps ≤ bound) (levels : Nat) (function : FunctionId) :
    Below ((config.allowing steps).watchWithin note levels function)
      ((config.allowing bound).watchWithin note levels function) := by
  induction levels generalizing function with
  | zero => exact .refl _
  | succ levels ih =>
      refine .next fun before => .next fun entered => .next fun state => ?_
      by_cases tooDeep : config.depthLimit ≤ state.depth
      · simp only [allowing, tooDeep, if_true]
        exact .refl _
      · simp only [allowing, tooDeep, if_false]
        exact Exec.counted_below (Env.watch_below ih note le _ _)

theorem directWithin_below (le : steps ≤ bound) (levels : Nat) (function : FunctionId) :
    Below ((config.allowing steps).directWithin note levels function)
      ((config.allowing bound).directWithin note levels function) := by
  induction levels generalizing function with
  | zero => exact .refl _
  | succ levels ih =>
      refine .next fun before => .next fun entered => .next fun state => ?_
      by_cases tooDeep : config.depthLimit ≤ state.state.depth
      · simp only [allowing, tooDeep, if_true]
        exact .refl _
      · simp only [allowing, tooDeep, if_false]
        exact Talking.counted_below (Env.direct_below (watchWithin_below le levels) ih note le _ _)

theorem watchTop_below (le : steps ≤ bound) :
    Below ((config.allowing steps).watchTop note) ((config.allowing bound).watchTop note) := by
  refine .next fun actor => ?_
  cases actor.stack with
  | nil => exact .refl _
  | cons frame below => exact watchWithin_below le _ _

theorem bounce_below (le : steps ≤ bound) (rounds : Nat) :
    Below ((config.allowing steps).bounce note rounds) ((config.allowing bound).bounce note rounds) := by
  induction rounds with
  | zero => exact Talking.lift_below (watchTop_below le)
  | succ rounds ih =>
      refine (Talking.lift_below (watchTop_below le)).bind fun result => ?_
      cases result with
      | completed value locals => exact .refl _
      | suspended reason =>
          by_cases final : reason.isTerminal
          · simp only [final, if_true]
            exact .refl _
          · simp only [final]
            exact .next fun _ => ih

end RunConfig

end Reentry
