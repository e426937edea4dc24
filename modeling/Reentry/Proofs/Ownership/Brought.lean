import Reentry.Proofs.Calls.Returned
import Reentry.Proofs.Custody.Operand
import Reentry.Proofs.Forks.Isolation

/-!
What an operand makes. Whoever holds values while an operand is evaluated holds some more afterwards: a call may have stored
new ones in the actor. Apart from these there are the cells of the value that the operand gives, unless the operand finds its
value in a place. Nothing leads to them, and they lead to nothing else.
-/

namespace Reentry

open Exec

namespace Heap

variable {before between after : Heap} {region more made most : Region}

/-- Work on what has been made aside changes nothing for those who do not hold it. -/
theorem Grows.aside (grows : before.Grows region between more) (detached : before.Detached between more made)
    (work : between.Grows made after most) : before.Grows region after more := by
  have still (address : Address) (inside : more address) : after.read address = between.read address :=
    work.elsewhere address (grows.closed.allocated address inside) (detached.apart address inside)
  have closed : after.Closed more := grows.closed.kept work.size still
  refine ⟨Nat.le_trans grows.size work.size, fun address old outside => ?_, grows.inside, grows.fresh, closed⟩
  have unmade : ¬made address := fun inside => absurd old (Nat.not_lt.mpr (detached.fresh address inside))
  rw [work.elsewhere address (Nat.lt_of_lt_of_le old grows.size) unmade, grows.elsewhere address old outside]

/-- And what has been made stays aside. -/
theorem Detached.aside (detached : before.Detached between more made) (size : before.size ≤ between.size) (closed : between.Closed more)
    (work : between.Grows made after most) : before.Detached after more most := by
  refine ⟨work.closed, fun address inside => ?_, fun address inside made => ?_⟩
  · exact (work.fresh address inside).elim (detached.fresh address) (Nat.le_trans size)
  · apply (work.fresh address made).elim (detached.apart address inside)
    intro new
    exact absurd (closed.allocated address inside) (Nat.not_lt.mpr new)

end Heap

variable {σ α β γ : Type} {held : σ → List Value}

/-- All values at hand are made of one region before and of another one afterwards; apart from that there are new cells, to
which nothing at hand leads. -/
structure Brought (held : σ → List Value) (before : Running σ) (region : Region) (after : Running σ) (more made : Region) : Prop where
  grows : before.heap.Grows region after.heap more
  fits : selfContained.Fits held more after
  detached : before.heap.Detached after.heap more made

namespace Brought

variable {before between after : Running σ} {region more most made other : Region}

theorem none (grows : before.heap.Grows region after.heap more) (fits : selfContained.Fits held more after) :
    Brought held before region after more fun _ => False := ⟨grows, fits, .none _ _ _⟩

/-- Something else may have come first. -/
theorem later (brought : Brought held between more after most made) (grows : before.heap.Grows region between.heap more) :
    Brought held before region after most made :=
  ⟨grows.trans brought.grows, brought.fits, brought.detached.earlier grows.size⟩

theorem trans (first : Brought held before region between more made) (next : Brought held between more after most other) :
    Brought held before region after most (made.union other) :=
  ⟨first.grows.trans next.grows, next.fits, (first.detached.later next.grows).union (next.detached.earlier first.grows.size)⟩

/-- Something else may happen afterwards. -/
theorem goes (brought : Brought held before region between more made) (grows : between.heap.Grows more after.heap most)
    (fits : selfContained.Fits held most after) : Brought held before region after most made :=
  ⟨brought.grows.trans grows, fits, brought.detached.later grows⟩

/-- What has been made does not lead to what is at hand. -/
theorem away {value : Value} {address : Address} (brought : Brought held before region after more made) (own : made.Owns value)
    (there : more address) : ¬after.heap.Leads value address := by
  intro leads
  exact brought.detached.apart address there (leads.within brought.detached.closed own)

/-- What has been made may be worked with. -/
theorem work (brought : Brought held before region after more made) {heap : Heap} (grows : after.heap.Grows made heap most) :
    Brought held before region { after with heap } more most := by
  have apart := brought.grows.aside brought.detached grows
  exact ⟨apart, ⟨apart.closed, brought.fits.roots, brought.fits.outside⟩,
    brought.detached.aside brought.grows.size brought.grows.closed grows⟩

end Brought

namespace Exec

/-- Work whose results are made of new cells, apart from all that is at hand. -/
def Brings (held : σ → List Value) (region : Region) (state : Running σ) (work : Exec σ α) (values : α → List Value) : Prop :=
  selfContained.Fits held region state → ∀ result after, work state = .ok result after →
    ∃ more made, Brought held state region after more made ∧ made.OwnsAll (values result)

namespace Brings

variable {region : Region} {state : Running σ} {values : α → List Value} {later : β → List Value}

theorem scalar {value : Value} (scalar : ∀ address, value ≠ .cell address) : Brings held region state (pure value) fun value => [value] := by
  intro fits result after done
  obtain ⟨rfl, rfl⟩ := pure_eq_ok.mp done
  exact ⟨region, _, .none (.refl fits.holds) fits, by simpa using Region.owns_scalar scalar⟩

theorem trap (function : String) (reason : Trap) : Brings held region state (trap function reason) values := by
  intro _ result after done
  exact (trap_ne_ok.mp done).elim

/-- A new value, whatever it is made from. -/
theorem op {work : ValueOp α} (stays : work.Stays (fun _ => False) state.heap values) : Brings held region state (ofValueOp work) values := by
  intro fits result after done
  rw [ofValueOp_apply] at done
  have did := stays (.empty _)
  cases ran : work.run state.heap with
  | error error =>
      rw [ran] at done
      cases done
  | ok pair =>
      rw [ran] at done did
      obtain ⟨most, grows, owns⟩ := did
      cases done
      exact ⟨region, most, (Brought.none (.refl fits.holds) fits).work grows, owns⟩

theorem alloc {work : Alloc α} (makes : Alloc.Makes state.heap [] work values) : Brings held region state (ofAlloc work) values :=
  @op _ _ _ _ _ _ work.toOp (.makes makes)

/-- Something with values at hand may come first. -/
theorem after {work : Exec σ α} {rest : α → Exec σ β} (first : selfContained.Obeys held α region state work values)
    (next : ∀ result after more, region.Inside more → more.OwnsAll (values result) → Brings held more after (rest result) later) :
    Brings held region state (work >>= rest) later := by
  intro fits result final done
  obtain ⟨value, middle, ran, rested⟩ := bind_eq_ok.mp done
  obtain ⟨more, turns, onward, owns⟩ := (first fits).ok ran
  obtain ⟨most, made, brought, own⟩ := next value middle more turns.1 owns onward result final rested
  exact ⟨most, made, brought.later (turns.2 fits.holds), own⟩

theorem actor {rest : Actor → Exec σ α} (next : Brings held region state (rest state.actor) values) :
    Brings held region state (Exec.actor >>= rest) values := next

/-- What was given goes on into a result, and nothing else happens. -/
theorem given {work : Exec σ α} {rest : α → Exec σ β} (first : Brings held region state work values)
    (next : ∀ result middle value final, rest result middle = .ok value final →
      final = middle ∧ ∀ made : Region, made.OwnsAll (values result) → made.OwnsAll (later value)) :
    Brings held region state (work >>= rest) later := by
  intro fits result final done
  obtain ⟨value, middle, ran, rested⟩ := bind_eq_ok.mp done
  obtain ⟨more, made, brought, owns⟩ := first fits value middle ran
  obtain ⟨rfl, own⟩ := next value middle result final rested
  exact ⟨more, made, brought, own made owns⟩

/-- What was given is worked with. -/
theorem work {work : Exec σ α} {rest : α → ValueOp β} (first : Brings held region state work values)
    (stays : ∀ result heap (made : Region), made.OwnsAll (values result) → (rest result).Stays made heap later) :
    Brings held region state (do ofValueOp (rest (← work))) later := by
  intro fits result final done
  obtain ⟨value, middle, ran, rested⟩ := bind_eq_ok.mp done
  obtain ⟨more, made, brought, owns⟩ := first fits value middle ran
  rw [ofValueOp_apply] at rested
  have did := stays value middle.heap made owns brought.detached.closed
  cases ran' : (rest value).run middle.heap with
  | error error =>
      rw [ran'] at rested
      cases rested
  | ok pair =>
      rw [ran'] at rested did
      obtain ⟨most, grows, own⟩ := did
      cases rested
      exact ⟨more, most, brought.work grows, own⟩

/-- One value after another. -/
theorem both {first : Exec σ α} {second : Exec σ β} {join : α → β → γ} {all : γ → List Value} (brings : Brings held region state first values)
    (next : ∀ after more, region.Inside more → Brings held more after second later)
    (joins : ∀ left right, all (join left right) = values left ++ later right) :
    Brings held region state (do pure (join (← first) (← second))) all := by
  intro fits result final done
  obtain ⟨left, between, ran, rested⟩ := bind_eq_ok.mp done
  obtain ⟨right, _, ran', joined⟩ := bind_eq_ok.mp rested
  obtain ⟨rfl, rfl⟩ := pure_eq_ok.mp joined
  obtain ⟨more, made, brought, owns⟩ := brings fits left between ran
  obtain ⟨most, other, brought', owns'⟩ := next between more brought.grows.inside brought.fits right _ ran'
  refine ⟨most, _, brought.trans brought', ?_⟩
  rw [joins]
  exact Region.ownsAll_append.mpr ⟨owns.mono (Region.inside_union_left _ _), owns'.mono (Region.inside_union_right _ _)⟩

theorem counted {work : Exec σ α} (brings : ∀ state, Brings held region state work values) : Brings held region state (counted work) values := by
  intro fits result final done
  unfold Exec.counted at done
  cases ran : work { state with depth := state.depth + 1 } with
  | error stop after =>
      rw [ran] at done
      cases done
  | ok value after =>
      rw [ran] at done
      cases done
      obtain ⟨more, made, brought, owns⟩ := brings { state with depth := state.depth + 1 } ⟨fits.holds, fits.roots, fits.outside⟩ _ _ ran
      exact ⟨more, made, ⟨brought.grows, ⟨brought.fits.holds, brought.fits.roots, brought.fits.outside⟩, brought.detached⟩, owns⟩

end Brings

end Exec

/-- The value that a call returns. -/
def Continuation.returned : Continuation → List Value
  | .completed value _ => value.toList
  | .suspended _ => []

theorem Operand.isOwned_of_isCopy {operand : Operand} (copy : operand.isCopy) : operand.isOwned := by
  cases operand <;> first | rfl | cases copy

namespace Env

variable {env : Env σ} {act : Activation} {region : Region} {state : Running σ}

/-- Everything at hand while a call is running. -/
def atHand (held : σ → List Value) (act : Activation) (state : Running σ) (others : List Value) : List Value :=
  act.values ++ state.actor.roots ++ held state.outside ++ others

/-- If all that it leads to is there, it is made of one region. -/
theorem fits_of_allocated {others : List Value}
    (allocated : ∀ address, state.heap.reachOf (atHand held act state others) address → address.index < state.heap.size) :
    ∃ region, selfContained.Fits held region state ∧ region.OwnsAll act.values ∧ region.OwnsAll others := by
  have owns := state.heap.owns_reachOf (atHand held act state others)
  simp only [atHand, Region.ownsAll_append] at owns
  obtain ⟨⟨⟨values, roots⟩, outside⟩, beside⟩ := owns
  exact ⟨_, ⟨Heap.closed_reachOf allocated, roots, outside⟩, values, beside⟩

/-- Code that hands over what it has made, and works with nothing but values at hand. -/
structure Hands (env : Env σ) (held : σ → List Value) : Prop where
  serves : env.Serves (selfContained.Obeys held)
  returns : ∀ callee region state, Brings held region state (env.invoke callee) Continuation.returned

theorem callToEnd_brings (hands : env.Hands held) {callee : FunctionId} {args : List Value} (owns : region.OwnsAll args) :
    Brings held region state (env.callToEnd callee args) fun value => [value] := by
  apply Brings.after ((selfContained.stewards held).start env.image callee args owns)
  intro _ after more _ _
  apply (hands.returns callee more after).given
  intro result middle value final done
  cases result with
  | suspended reason => exact (trap_ne_ok.mp done).elim
  | completed value locals =>
      obtain ⟨rfl, rfl⟩ := pure_eq_ok.mp done
      refine ⟨rfl, fun made owns => ?_⟩
      cases value with
      | none => simp
      | some value => exact owns

mutual

/-- An operand that does not find its value in a place makes it. -/
theorem eval_brings (hands : env.Hands held) {region : Region} {state : Running σ} (locals : region.OwnsAll act.locals) :
    (operand : Operand) → operand.isOwned → Brings held region state (env.eval act operand) fun value => [value]
  | .const constant, _ => .scalar constant.value_scalar
  | .this, _ => .actor (.scalar nofun)
  | .load _, owned | .lookup _ _ _, owned | .part _ _, owned => nomatch owned
  | .clone inner, _ => .after (eval_keeps (selfContained.stewards held) hands.serves locals inner) fun value _ _ _ _ =>
      .alloc (.deepCopy [] value)
  | .unary op arg, _ => .after (eval_keeps (selfContained.stewards held) hands.serves locals arg) fun value _ _ _ _ => .op (op.apply_stays value)
  | .binary op lhs rhs, owned => by
      have stewards := selfContained.stewards held
      have right {region : Region} {state : Running σ} (locals : region.OwnsAll act.locals) :
          selfContained.Obeys held Value region state (env.eval act rhs) fun value => [value] := eval_keeps stewards hands.serves locals rhs
      apply Brings.after (eval_keeps stewards hands.serves locals lhs)
      intro left after more grown _
      have truth (name : String) (value : Value) {region : Region} {state : Running σ} :
          selfContained.Obeys held Bool region state (ofValueOp (value.asBool name)) fun _ => [] := stewards.quiet (.asBool name value)
      have other (plain : op ≠ .index) : Brings held more after (do ofValueOp (op.apply left (← env.eval act rhs))) fun value => [value] :=
        .after (right (locals.mono grown)) fun value _ _ _ _ => .op (BinaryOp.apply_stays op fun index => absurd index plain)
      cases op with
      | index => cases owned
      | and =>
          apply Brings.after (truth "&&" left)
          intro holds middle most grown' _
          cases holds
          · exact .scalar nofun
          · apply Brings.after (right ((locals.mono grown).mono grown'))
            intro value _ _ _ _
            exact .after (truth "&&" value) fun _ _ _ _ _ => .scalar nofun
      | or =>
          apply Brings.after (truth "||" left)
          intro holds middle most grown' _
          cases holds
          · apply Brings.after (right ((locals.mono grown).mono grown'))
            intro value _ _ _ _
            exact .after (truth "||" value) fun _ _ _ _ _ => .scalar nofun
          · exact .scalar nofun
      | _ => exact other nofun
  | .tuple items, owned => (evalAll_brings hands locals items owned).work fun items _ _ owns =>
      (Operation.tuple items).perform_stays owns
  | .named fields, owned => (evalFields_brings hands locals fields owned).work fun fields _ _ owns =>
      (Operation.named fields).perform_stays owns
  | .default ty, _ => .alloc (.initial [] ty)
  | .cast value ty, owned => (eval_brings hands locals value owned).work fun value _ _ owns =>
      (Operation.cast value ty).perform_stays owns
  | .call callee args, _ => .after (evalArguments_keeps (selfContained.stewards held) hands.serves locals args) fun _ _ _ _ owns =>
      callToEnd_brings hands owns
  | .choice number, _ => by
      unfold eval
      cases act.choices[number]? with
      | none => exact .trap _ _
      | some chosen => exact .scalar nofun

theorem evalAll_brings (hands : env.Hands held) {region : Region} {state : Running σ} (locals : region.OwnsAll act.locals) :
    (operands : List Operand) → allOwned operands → Brings held region state (env.evalAll act operands) id
  | [], _ => by
      intro fits values after done
      obtain ⟨rfl, rfl⟩ := pure_eq_ok.mp done
      exact ⟨region, _, .none (.refl fits.holds) fits, Region.ownsAll_nil⟩
  | operand :: rest, owned => by
      obtain ⟨first, others⟩ := Bool.and_eq_true_iff.mp owned
      exact (eval_brings hands locals operand first).both (fun _ _ grown => evalAll_brings hands (locals.mono grown) rest others) fun _ _ => rfl

theorem evalFields_brings (hands : env.Hands held) {region : Region} {state : Running σ} (locals : region.OwnsAll act.locals) :
    (fields : List (String × Operand)) → fieldsOwned fields →
      Brings held region state (env.evalFields act fields) fun fields => fields.map (·.2)
  | [], _ => by
      intro fits values after done
      obtain ⟨rfl, rfl⟩ := pure_eq_ok.mp done
      exact ⟨region, _, .none (.refl fits.holds) fits, Region.ownsAll_nil⟩
  | (name, operand) :: rest, owned => by
      obtain ⟨first, others⟩ := Bool.and_eq_true_iff.mp owned
      exact @Brings.both _ _ _ _ _ _ _ _ _ _ _ (fun value fields => (name, value) :: fields) _ (eval_brings hands locals operand first)
        (fun _ _ grown => evalFields_brings hands (locals.mono grown) rest others) fun _ _ => rfl

end

/-- What is made before a place is looked up has nothing to do with what is found there. -/
theorem eval_then_load (hands : env.Hands held) (locals : region.OwnsAll act.locals) (fits : selfContained.Fits held region state)
    {operand : Operand} {place : Place} {value found : Value} {between after : Running σ} (owned : operand.isOwned)
    (evaluated : env.eval act operand state = .ok value between) (loaded : env.load act place between = .ok found after) :
    ∃ more made, Brought held state region after more made ∧ made.Owns value ∧ more.Owns found := by
  obtain ⟨more, made, brought, own⟩ := eval_brings hands locals operand owned fits value between evaluated
  have locals := locals.mono brought.grows.inside
  obtain ⟨most, turns, onward, there⟩ := (load_keeps (selfContained.stewards held) hands.serves locals place brought.fits).ok loaded
  exact ⟨most, made, brought.goes (turns.2 brought.fits.holds) onward, own value (.head _), there found (.head _)⟩

/-- Nor has what is made afterwards. -/
theorem load_then_eval (hands : env.Hands held) (locals : region.OwnsAll act.locals) (fits : selfContained.Fits held region state)
    {operand : Operand} {place : Place} {value found : Value} {between after : Running σ} (owned : operand.isOwned)
    (loaded : env.load act place state = .ok found between) (evaluated : env.eval act operand between = .ok value after) :
    ∃ more made, Brought held state region after more made ∧ made.Owns value ∧ more.Owns found := by
  obtain ⟨more, turns, onward, there⟩ := (load_keeps (selfContained.stewards held) hands.serves locals place fits).ok loaded
  obtain ⟨most, made, brought, own⟩ := eval_brings hands (locals.mono turns.1) operand owned onward value after evaluated
  have inside := brought.grows.inside
  exact ⟨most, made, brought.later (turns.2 fits.holds), own value (.head _), (there found (.head _)).mono inside⟩

/-- A run hands over what it has made if its code returns copies. -/
theorem run_brings (hands : env.Hands held) (sends : env.Sends (selfContained.Obeys held)) (paired : Paired env.routine.body)
    (copies : ReturnsCopies env.routine.body) (steps : Nat) (idle : act.pending = none) (owns : region.OwnsAll act.values) :
    Brings held region state (env.run steps act) Continuation.returned := by
  have stewards := selfContained.stewards held
  intro fits result after ran
  have nothing (none : result.returned = []) : ∃ more made, Brought held state region after more made ∧ made.OwnsAll result.returned := by
    obtain ⟨more, turns, onward, _⟩ := (run_keeps stewards hands.serves sends steps owns fits).ok ran
    exact ⟨more, _, .none (turns.2 fits.holds) onward, none ▸ Region.ownsAll_nil⟩
  cases result with
  | suspended reason => exact nothing rfl
  | completed value locals =>
      cases value with
      | none => exact nothing rfl
      | some value =>
          let good : Activation → Running σ → Prop := fun act now =>
            ∃ between, state.heap.Grows region now.heap between ∧ selfContained.Fits held between now ∧ between.OwnsAll act.values
          have keeps (act : Activation) (now : Running σ) (instr : Instr) (next : Activation) (final : Running σ)
              (among : instr ∈ env.routine.body) (holds : good act now) (stepped : env.step act instr now = .ok (.next next) final) :
              good next final := by
            obtain ⟨between, grows, fits, owns⟩ := holds
            obtain ⟨more, turns, onward, own⟩ := (step_keeps stewards hands.serves sends owns among fits).ok stepped
            exact ⟨more, grows.trans (turns.2 fits.holds), onward, own⟩
          obtain ⟨last, before, operand, ⟨between, grows, fits, owns⟩, member, evaluated⟩ :=
            run_completed good (fun _ _ _ holds => holds) keeps paired steps idle ⟨region, .refl fits.holds, fits, owns⟩ ran
          have owned : operand.isOwned := Operand.isOwned_of_isCopy (copies operand member)
          obtain ⟨more, made, brought, own⟩ := eval_brings hands (Activation.ownsAll_locals owns) operand owned fits value after evaluated
          exact ⟨more, made, brought.later grows, own⟩

end Env

/-- Lowered programs hand over what they make. -/
theorem RunConfig.hands {config : RunConfig σ} {program : Program} {options : LowerOptions} (accepted : program.lower options = .ok config.image)
    (honest : config.handler.Holds held) (levels : Nat) (routine : Routine) :
    Env.Hands ⟨config.image, routine, config.handler, config.executeWithin levels⟩ held := by
  have paired := Program.lower_paired accepted
  have copies := Program.lower_returnsCopies accepted
  induction levels generalizing routine with
  | zero =>
      refine ⟨(selfContained.serves honest routine fun callee _ _ => selfContained.executeWithin_obeys honest 0 callee).1, ?_⟩
      intro callee region state fits result after ran
      cases ran
  | succ levels ih =>
      refine ⟨(selfContained.serves honest routine fun callee _ _ => selfContained.executeWithin_obeys honest (levels + 1) callee).1, ?_⟩
      intro callee region state fits result after ran
      obtain ⟨entered, middle, enters, goes⟩ := bind_eq_ok.mp ran
      obtain ⟨more, turns, onward, owns⟩ := (enter_keeps (selfContained.stewards held) callee fits).ok enters
      have entered_at := (enter_enters callee state).ok enters
      obtain ⟨_, _, read, goes⟩ := bind_eq_ok.mp goes
      cases read
      split at goes
      · exact (fail_ne_ok.mp goes).elim
      · have sends := (selfContained.serves honest entered.1 fun callee _ _ => selfContained.executeWithin_obeys honest levels callee).2
        have runs (state : Running σ) : Brings held more state
            (Env.run ⟨config.image, entered.1, config.handler, config.executeWithin levels⟩ config.steps entered.2) Continuation.returned :=
          Env.run_brings (ih entered.1) sends (paired callee _ entered_at.found).body (copies callee _ entered_at.found) config.steps
            entered_at.idle owns
        obtain ⟨most, made, brought, own⟩ := Brings.counted runs onward result after goes
        exact ⟨most, made, brought.later (turns.2 fits.holds), own⟩

end Reentry
