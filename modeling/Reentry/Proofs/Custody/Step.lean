import Reentry.Proofs.Custody.Aim
import Reentry.Proofs.Structure.Simulation

/-!
One instruction looks after the cells in hand. What a call has returned is taken up by the next instructions: until
then nothing else names it, and afterwards it is not to be taken up again.
-/

namespace Reentry

open Exec

/-- Whether the value at the place is no part of a cell. -/
def Place.isVariable : Place → Bool
  | .slot _ | .field _ | .trigger | .payload => true
  | .part _ _ | .element _ _ _ => false

namespace Instr

/-- Whether the instruction takes up what a call has returned. -/
def isAwaiting : Instr → Bool
  | .propagateSuspension _ _ | .collectReturn _ => true
  | _ => false

/-- Whether the next instruction may take up what a call has returned. -/
def isReturning : Instr → Bool
  | .invoke _ | .propagateSuspension _ _ => true
  | _ => false

/-- Whether what is found in a place is only packed, handed over or stored where it may be named once more, and never
stored into a cell. -/
def Fair (shares : Bool) : Instr → Prop
  | .jumpUnless cond _ | .assert cond _ => cond.Fair shares
  | .assign dest value => dest.Fair shares ∧ value.Fair shares ∧
      (value.isOwned = true ∨ dest.isVariable = true ∧ (shares = true ∨ dest = .trigger))
  | .swap dest source => shares = true ∧ dest.isVariable = true ∧ source.isVariable = true
  | .update container (.part _) value => container.Fair shares ∧ value.Fair shares ∧ value.isOwned = true
  | .update container (.element key _) value =>
      container.Fair shares ∧ key.Fair shares ∧ value.Fair shares ∧ value.isOwned = true
  | .exchange _ _ _ => False
  | .remove container _ key => container.Fair shares ∧ key.Fair shares
  | .insert container _ entry => container.Fair shares ∧ entry.Fair shares ∧ entry.isOwned = true
  | .print _ args => AllFair shares args
  | .announce event payload => event.Fair shares ∧ payload.Fair shares
  | .enqueue target event payload =>
      target.Fair shares ∧ event.Fair shares ∧ payload.Fair shares ∧ (shares = true ∨ payload.isOwned = true)
  | .pushFrame _ args => ArgumentsFair shares args ∧ (shares = true ∨ argumentsOwned args = true)
  | .collectReturn dest | .readCreated dest => dest.Fair shares
  | .writeBack dest _ => shares = true ∧ dest.isVariable = true
  | .yield (.new _ payload _) => payload.Fair shares ∧ (shares = true ∨ payload.isOwned = true)
  | .yield (.retValue value) => value.Fair shares ∧ value.isOwned = true
  | _ => True

end Instr

namespace Routine

/-- Whether the instruction at a position takes up what a call has returned. -/
def awaits (routine : Routine) (position : Nat) : Bool := routine.body[position]?.any Instr.isAwaiting

/-- What a call returns is taken up right behind the call. -/
structure Collected (routine : Routine) : Prop where
  start : routine.awaits 0 = false
  behind : ∀ position instr, routine.body[position]? = some instr → instr.isReturning = false → routine.awaits (position + 1) = false
  target : ∀ target place, routine.position? target = some place → routine.awaits place = false

end Routine

namespace Activation

/-- What the last call has returned. -/
def returned (act : Activation) : Stake := act.lastCall.elim .none Continuation.stake

/-- What the running call has in hand besides its locals. -/
def due (act : Activation) (awaits : Bool) : Stake :=
  ⟨if awaits then act.returned.own else [], act.returned.lent⟩ ++ act.pending.elim .none Continuation.stake

theorem due_less (act : Activation) (awaits : Bool) : (act.due false).Less (act.due awaits) := by
  refine Stake.Less.append ⟨.nil _, ?_⟩ (.refl _)
  exact .of_sublist (List.sublist_append_right _ _)

theorem due_most (act : Activation) (awaits : Bool) : (act.due awaits).Less (act.due true) := by
  cases awaits
  · exact act.due_less true
  · exact .refl _

/-- The value that a call has returned is taken up. -/
theorem due_completed {act : Activation} {value : Option Value} {locals : List Value}
    (last : act.lastCall = some (.completed value locals)) :
    (⟨[value.getD .null], []⟩ ++ act.due false : Stake).Less (act.due true) := by
  have taken : (⟨[value.getD .null], locals⟩ : Stake).Less ⟨value.toList, locals⟩ := by
    cases value with
    | none => exact .ofOwn (.scalar (by simp) [])
    | some value => exact .refl _
  have has : act.returned = ⟨value.toList, locals⟩ := by rw [returned, last]; rfl
  rw [due, due, has]
  exact taken.append (.refl (act.pending.elim .none Continuation.stake))

end Activation

namespace Flow

/-- The locals of the call, if it goes on. -/
def locals : Flow → List Value
  | .next act => act.locals
  | .leave _ => []

/-- What is in hand besides when the call goes on, or has left. -/
def due (routine : Routine) : Flow → Stake
  | .next act => act.due (routine.awaits act.position)
  | .leave result => result.stake

def stake (routine : Routine) (flow : Flow) : Stake := ⟨[], flow.locals⟩ ++ flow.due routine

end Flow

namespace Env

variable {σ : Type} {house : Household σ} {env : Env σ} {callers : List Value} {act : Activation}

section

variable {kept : Stake}

theorem aimAt_plants {base : List Value} (tended : env.Tended house base) (locals : ∀ value ∈ act.locals, value ∈ base) {place : Place}
    (fair : place.Fair house.shares) {aim : Value → Exec σ Aimed} (aims : env.aimAt act place = some aim) (value : Value) :
    Plants house base ⟨[value], []⟩ (aim value) fun aimed => ⟨aimed.spent, []⟩ := by
  cases place with
  | slot _ | field _ | trigger | payload => cases aims
  | part base index =>
      cases aims
      exact .aside (load_plants tended locals base fair) fun _ => .pure (.refl _)
  | element base key kind =>
      cases aims
      exact .aside (load_plants tended locals base fair.1) fun container => .aside (expectKind_plants kind container) fun _ =>
        .aside (eval_plants tended locals key fair.2) fun key => .pure (.refl _)

/-- What goes into the cell is in hand as something that nothing else names. -/
theorem aim_plants {base : List Value} (tended : env.Tended house base) (locals : ∀ value ∈ act.locals, value ∈ base) {instr : Instr}
    (fair : instr.Fair house.shares) {work : Exec σ Aimed} (aims : env.aim act instr = some work) :
    Plants house base (act.due instr.isAwaiting) work fun aimed => ⟨aimed.spent, []⟩ ++ act.due false := by
  cases instr with
  | assign dest value =>
      obtain ⟨aim, at_dest, rfl⟩ := Option.map_eq_some_iff.mp aims
      have owned : value.isOwned = true := by
        rcases fair.2.2 with owned | ⟨whole, _⟩
        · exact owned
        · cases dest <;> cases at_dest <;> cases whole
      have evaluated := eval_plants tended locals value fair.2.1
      rw [owned] at evaluated
      exact .bind evaluated fun value => (aimAt_plants tended locals fair.1 at_dest value).frame _
  | update container selector value =>
      cases selector with
      | part index =>
          cases aims
          have evaluated := eval_plants tended locals value fair.2.1
          rw [fair.2.2] at evaluated
          exact .bind evaluated fun value => .aside (load_plants tended locals container fair.1) fun _ => .pure (.refl _)
      | element key kind =>
          cases aims
          have evaluated := eval_plants tended locals value fair.2.2.1
          rw [fair.2.2.2] at evaluated
          exact .bind evaluated fun value => .aside (load_plants tended locals container fair.1) fun container =>
            .aside (expectKind_plants kind container) fun _ => .aside (eval_plants tended locals key fair.2.1) fun key => .pure (.refl _)
  | remove container kind key =>
      cases aims
      exact .aside (eval_plants tended locals key fair.2) fun key => .aside (load_plants tended locals container fair.1) fun container =>
        .aside (expectKind_plants kind container) fun _ => .pure (.refl _)
  | insert container kind entry =>
      cases aims
      have evaluated := eval_plants tended locals entry fair.2.1
      rw [fair.2.2] at evaluated
      exact .bind evaluated fun entry => .aside (load_plants tended locals container fair.1) fun container =>
        .aside (expectKind_plants kind container) fun _ => .aside (.quiet (.field entry 0)) fun key =>
          .next ((Plants.ofValueOp fun _ => Value.field_plants 1).frame _) fun value => .pure (.refl _)
  | collectReturn dest =>
      rcases last : act.lastCall with _ | ⟨value, locals'⟩ | reason <;> simp only [aim, last] at aims
      · cases aims
      · obtain ⟨aim, at_dest, rfl⟩ := Option.map_eq_some_iff.mp aims
        exact ((aimAt_plants tended locals fair at_dest (value.getD .null)).frame (act.due false)).weaken
          (Activation.due_completed last) fun _ => .refl _
      · cases aims
  | readCreated dest =>
      obtain ⟨aim, at_dest, rfl⟩ := Option.map_eq_some_iff.mp aims
      refine .actor fun actor => ?_
      cases actor.resume.created with
      | none => exact .fail
      | some created =>
          refine .aside (.modifyActor fun _ => .refl _) fun _ => ?_
          have scalar : (⟨[.machine created], []⟩ : Stake).Less .none := ⟨.scalar (by simp) [], .scalar (by simp) []⟩
          exact ((aimAt_plants tended locals fair at_dest (.machine created)).frame (act.due false)).weaken
            (scalar.append (.refl (act.due false))) fun _ => .refl _
  | _ => cases aims

/-- A stored value is named by the place instead of the one that was there. -/
theorem store_spends {place : Place} (whole : place.isVariable = true) (value : Value) (kept : Stake) :
    Spends house (act.locals ++ callers) (⟨[], [value]⟩ ++ kept) (env.store act place value)
      fun after => ⟨[], after.locals⟩ ++ (kept ++ ⟨[], callers⟩) := by
  have unchanged : (⟨[], act.locals⟩ ++ (kept ++ ⟨[], callers⟩) : Stake).Less (kept ++ ⟨[], act.locals ++ callers⟩) := by
    refine ⟨fun address => ?_, fun address => ?_⟩ <;>
      simp only [Stake.own_append, Stake.lent_append, List.count_append, List.count_nil] <;> omega
  have registered {change : Actor → Actor} (less : ∀ actor : Actor,
        Fewer (change actor).roots ([value] ++ actor.roots)) :
      Spends house (act.locals ++ callers) (⟨[], [value]⟩ ++ kept) (do Exec.modifyActor change; pure act)
        fun after => ⟨[], after.locals⟩ ++ (kept ++ ⟨[], callers⟩) :=
    .next ((Plants.modifyActor less).frame kept) fun _ => .pure unchanged
  cases place with
  | slot index =>
      simp only [store]
      split
      · refine .pure ⟨fun address => ?_, fun address => ?_⟩
        · simp only [Stake.own_append, List.count_append, List.count_nil]
          omega
        · have := Fewer.set act.locals index value address
          simp only [Stake.own_append, Stake.lent_append, List.count_append, List.count_nil, List.count_cons] at *
          omega
      · exact .fail
  | field index =>
      refine .actor fun actor => ?_
      split
      · refine registered fun actor address => ?_
        have := Fewer.set actor.fields index value address
        simp only [Actor.roots, List.count_append, List.count_cons, List.count_nil] at *
        omega
      · exact .fail
  | trigger | payload =>
      refine registered fun actor address => ?_
      simp only [Actor.roots, List.count_append, List.count_cons, List.count_nil]
      omega
  | part _ _ | element _ _ _ => cases whole

/-- Storing changes no more of the call than its locals. -/
theorem store_eq_ok {place : Place} {value : Value} {state final : Running σ} {after : Activation}
    (whole : place.isVariable = true) (stored : env.store act place value state = .ok after final) :
    after = { act with locals := after.locals } := by
  cases place with
  | slot index =>
      simp only [store] at stored
      split at stored
      · obtain ⟨rfl, _⟩ := pure_eq_ok.mp stored
        rfl
      · exact (trap_ne_ok.mp stored).elim
  | field index =>
      simp only [store] at stored
      obtain ⟨actor, _, _, stored⟩ := bind_eq_ok.mp stored
      split at stored
      · obtain ⟨_, _, _, stored⟩ := bind_eq_ok.mp stored
        obtain ⟨rfl, _⟩ := pure_eq_ok.mp stored
        rfl
      · exact (trap_ne_ok.mp stored).elim
  | trigger | payload =>
      obtain ⟨_, _, _, stored⟩ := bind_eq_ok.mp stored
      obtain ⟨rfl, _⟩ := pure_eq_ok.mp stored
      rfl
  | part _ _ | element _ _ _ => cases whole

/-- An instruction that takes up nothing is over. -/
theorem going_spends (calm : env.routine.awaits act.position = false) {spent : Stake} (less : (act.due false).Less spent) :
    Spends house (act.locals ++ callers) spent (pure (Flow.next act)) fun (flow : Flow) => flow.stake env.routine ++ ⟨[], callers⟩ := by
  refine .pure ?_
  have all := less.append (.refl ⟨[], act.locals ++ callers⟩)
  refine Stake.Less.trans ⟨fun address => ?_, fun address => ?_⟩ all <;>
    simp only [Flow.stake, Flow.locals, Flow.due, calm, Stake.own_append, Stake.lent_append, List.count_append, List.count_nil] <;> omega

theorem stored_spends (calm : env.routine.awaits act.position = false) {place : Place} (whole : place.isVariable = true)
    {value : Value} {spent : Stake} (less : (⟨[], [value]⟩ ++ act.due false).Less spent) :
    Spends house (act.locals ++ callers) spent (Flow.next <$> env.store act place value)
      fun (flow : Flow) => flow.stake env.routine ++ ⟨[], callers⟩ := by
  refine .weaken ?_ less fun _ => .refl _
  rw [← bind_pure_comp]
  refine @Spends.chain _ _ _ _ _ _ _ _ _ _ (fun after => after.locals ++ callers) (fun _ => act.due false)
    (store_spends whole value (act.due false)) (fun after => ?_) fun after before final stored => ?_
  · refine ⟨fun address => ?_, fun address => ?_⟩ <;>
      simp only [Stake.own_append, Stake.lent_append, List.count_append, List.count_nil] <;> omega
  · have same := store_eq_ok whole stored
    have due : act.due false = after.due false := by rw [same]; rfl
    have position : after.position = act.position := by rw [same]
    exact going_spends (by rw [position, calm]) (by rw [due]; exact .refl _)

/-- A frame takes over the locals of the call. -/
theorem push_spends {frame : Frame} (same : frame.locals = act.locals) (kept : Stake) :
    Spends house (act.locals ++ callers) kept (Exec.modifyActor fun actor => actor.push frame) fun _ => kept ++ ⟨[], callers⟩ := by
  intro state rest holds
  refine holds.stay rfl fun keeps => house.less keeps ⟨fun address => ?_, fun address => ?_⟩ <;>
    simp only [Household.within, Stake.own_append, Stake.lent_append, Actor.roots, Actor.push, List.flatMap_cons, same,
      List.count_append, List.count_nil] <;> omega

/-- The next exit hands something back. -/
theorem pending_spends {result : Continuation} (calm : env.routine.awaits act.position = false) {spent : Stake} {locals : List Value}
    (less : (result.stake ++ act.due false ++ ⟨[], locals⟩).Less (spent ++ ⟨[], act.locals⟩)) (choices : List Bool) :
    Spends house (act.locals ++ callers) spent (pure (Flow.next { act with locals, choices, pending := some result }))
      fun (flow : Flow) => flow.stake env.routine ++ ⟨[], callers⟩ := by
  have stake : Flow.stake env.routine (.next { act with locals, choices, pending := some result })
      = ⟨[], locals⟩ ++ (⟨[], act.returned.lent⟩ ++ result.stake) := by
    simp only [Flow.stake, Flow.locals, Flow.due, calm]
    rfl
  have all := less.append (.refl ⟨[], callers⟩)
  refine .pure (Stake.Less.trans ?_ (all.trans ?_))
  · rw [stake]
    refine ⟨fun address => ?_, fun address => ?_⟩ <;>
      simp only [Activation.due, Bool.false_eq_true, if_false, Stake.own_append, Stake.lent_append, List.count_append, List.count_nil] <;>
      omega
  · refine ⟨fun address => ?_, fun address => ?_⟩ <;>
      simp only [Stake.own_append, Stake.lent_append, List.count_append, List.count_nil] <;> omega

/-- A position that is gone to lies in front of no instruction that takes up what a call has returned. -/
theorem position_spends (collected : env.routine.Collected) {spent : Stake} (less : (act.due false).Less spent) (target : Target) :
    Spends house (act.locals ++ callers) spent (do pure (Flow.next { act with position := ← env.position target }))
      fun (flow : Flow) => flow.stake env.routine ++ ⟨[], callers⟩ := by
  unfold position
  cases found : env.routine.position? target with
  | none => exact .fail
  | some place =>
      exact @going_spends _ _ _ _ { act with position := place } (collected.target target place found) _ less

/-- The frame of the call is saved, and the next exit hands something back. -/
theorem saveFrame_spends (calm : env.routine.awaits act.position = false) {spent : Stake} (result : Continuation)
    (less : (result.stake ++ act.due false).Less spent) (label : LabelId) (callee : Option FunctionId) :
    Spends house (act.locals ++ callers) spent (do
        let after ← env.saveFrame act label callee
        pure (Flow.next { after with pending := some result }))
      fun (flow : Flow) => flow.stake env.routine ++ ⟨[], callers⟩ := by
  refine .weaken ?_ less fun _ => .refl _
  simp only [saveFrame, bind_assoc, pure_bind]
  refine @Spends.chain _ _ _ _ _ _ _ _ _ _ (fun _ => callers) (fun _ => result.stake ++ act.due false)
    (push_spends rfl (result.stake ++ act.due false)) (fun _ => .refl _) fun _ _ _ _ => ?_
  refine @pending_spends _ _ _ _ { act with locals := [], choices := [] } _ calm _ [] ?_ []
  exact .refl _

theorem yield_spends (tended : env.Tended house (act.locals ++ callers)) (calm : env.routine.awaits act.position = false)
    {request : YieldRequest} (fair : (Instr.yield request).Fair house.shares) :
    Spends house (act.locals ++ callers) (act.due false) (env.step act (.yield request))
      fun (flow : Flow) => flow.stake env.routine ++ ⟨[], callers⟩ := by
  have locals : ∀ value ∈ act.locals, value ∈ act.locals ++ callers := fun value member => List.mem_append_left _ member
  cases request with
  | goto => exact pending_spends calm (.refl (act.due false ++ ⟨[], act.locals⟩)) act.choices
  | raise => exact pending_spends calm (.refl (act.due false ++ ⟨[], act.locals⟩)) act.choices
  | pop => exact pending_spends calm (.refl (act.due false ++ ⟨[], act.locals⟩)) act.choices
  | send label =>
      simp only [step, Env.request, bind_assoc, pure_bind]
      exact saveFrame_spends calm (.suspended .send) (.refl _) label none
  | receive label =>
      simp only [step, Env.request, bind_assoc, pure_bind]
      exact saveFrame_spends calm (.suspended .receive) (.refl _) label none
  | nondet label =>
      simp only [step, Env.request, bind_assoc, pure_bind]
      exact saveFrame_spends calm (.suspended .nondet) (.refl _) label none
  | new machine payload label =>
      simp only [step, Env.request, bind_assoc, pure_bind]
      exact .bind (eval_plants tended locals payload fair.1) fun value =>
        saveFrame_spends calm (.suspended (.new machine value)) ((Stake.lent_less fair.2 [value]).append (.refl _)) label none
  | ret => exact pending_spends calm ⟨fun address => by simp [Continuation.stake], fun address => by
      simp [Continuation.stake]
      omega⟩ act.choices
  | retValue value =>
      simp only [step, Env.request, bind_assoc, pure_bind]
      have evaluated := eval_plants tended locals value fair.1
      rw [fair.2] at evaluated
      exact .bind evaluated fun value => pending_spends calm ⟨fun address => by simp [Continuation.stake], fun address => by
        simp [Continuation.stake, List.count_cons]
        omega⟩ act.choices

theorem dispatchReceive_plants {base : List Value} (arms : List ReceiveArm) :
    Plants house base .none (env.dispatchReceive arms) fun _ => .none := by
  have placed (target : Target) : Plants house base .none (env.position target) fun _ => .none := by
    unfold position
    split
    · exact .pure (.refl _)
    · exact .fail
  refine .actor fun actor => ?_
  split
  · exact .get fun _ => .fail
  · refine .next (.modifyActor fun _ => .refl _) fun _ => ?_
    split
    · exact .fail
    · split
      · exact .next (startCall_plants _ []) fun _ => placed _
      · exact .next (.ofAlloc (.deepCopy actor.payload)) fun copy =>
          .next ((startCall_plants _ [copy]).weaken (.lend [copy] [] []) fun _ => .refl _) fun _ => placed _
  · exact .get fun _ => .fail

theorem enqueue_plants {base : List Value} (tended : env.Tended house base) (locals : ∀ value ∈ act.locals, value ∈ base)
    {target event payload : Operand} (fair : (Instr.enqueue target event payload).Fair house.shares) :
    Plants house base .none (env.enqueue act target event payload) fun _ => .none := by
  refine .aside (eval_plants tended locals target fair.1) fun _ => .aside (.quiet (.asMachine _ _)) fun machine =>
    .aside (eval_plants tended locals event fair.2.1) fun event => ?_
  split
  next kind =>
      refine .next (eval_plants tended locals payload fair.2.2.1) fun payload => .actor fun actor => ?_
      have scalar : ∀ address, event ≠ .cell address := by
        rintro address rfl
        cases kind
      exact (Plants.perform tended.served _).weaken
        ((Stake.Less.ofLent (.scalar scalar [payload])).trans (Stake.lent_less fair.2.2.2 [payload])) fun _ => .refl _
  next => exact .quiet (.mismatch _ _ _)

theorem isVariable_of_aimAt {place : Place} (whole : env.aimAt act place = none) : place.isVariable = true := by
  cases place <;> first | rfl | cases whole

/-- What is only told of is handed over to nobody. -/
theorem tells_plants {base : List Value} (tended : env.Tended house base) {effect : Effect} (none : effect.handsOver = []) :
    Plants house base .none (Exec.perform env.handler effect) fun _ => .none := by
  have performed : Plants house base ⟨[], effect.handsOver⟩ (Exec.perform env.handler effect) fun _ => .none :=
    .perform tended.served effect
  rw [none] at performed
  exact performed

theorem assign_spends (tended : env.Tended house (act.locals ++ callers)) (calm : env.routine.awaits act.position = false)
    {dest : Place} {value : Operand} (fair : (Instr.assign dest value).Fair house.shares)
    (raises : (Instr.assign dest value).raised? = none) (whole : env.aimAt act dest = none) :
    Spends house (act.locals ++ callers) (act.due false) (env.step act (.assign dest value))
      fun (flow : Flow) => flow.stake env.routine ++ ⟨[], callers⟩ := by
  have locals : ∀ value ∈ act.locals, value ∈ act.locals ++ callers := fun value member => List.mem_append_left _ member
  have may : house.shares = true ∨ value.isOwned = true := by
    rcases fair.2.2 with owned | ⟨_, shared | rfl⟩
    · exact .inr owned
    · exact .inl shared
    · cases raises
  exact .bind (eval_plants tended locals value fair.2.1) fun value =>
    stored_spends calm (isVariable_of_aimAt whole) ((Stake.lent_less may [value]).append (.refl _))

/-- Two variables change places. -/
theorem swap_spends (tended : env.Tended house (act.locals ++ callers)) (calm : env.routine.awaits act.position = false)
    {dest source : Place} (fair : (Instr.swap dest source).Fair house.shares) :
    Spends house (act.locals ++ callers) (act.due false) (env.step act (.swap dest source))
      fun (flow : Flow) => flow.stake env.routine ++ ⟨[], callers⟩ := by
  have locals : ∀ value ∈ act.locals, value ∈ act.locals ++ callers := fun value member => List.mem_append_left _ member
  obtain ⟨shared, whole, whole'⟩ := fair
  have anywhere {place : Place} (whole : place.isVariable = true) : place.Fair house.shares := by
    cases place <;> trivial
  refine .bind (load_plants tended locals dest (anywhere whole)) fun old =>
    .bind (load_plants tended locals source (anywhere whole')) fun new => ?_
  rw [shared]
  refine @Spends.chain _ _ _ _ _ _ _ _ _ _ (fun after => after.locals ++ callers) (fun _ => ⟨[], [old]⟩ ++ act.due false)
    (store_spends whole new (⟨[], [old]⟩ ++ act.due false)) (fun after => ?_) fun after before final stored => ?_
  · refine ⟨fun address => ?_, fun address => ?_⟩ <;>
      simp only [Stake.own_append, Stake.lent_append, List.count_append, List.count_nil] <;> omega
  · have same := store_eq_ok whole stored
    have due : act.due false = after.due false := by rw [same]; rfl
    have position : after.position = act.position := by rw [same]
    exact stored_spends (by rw [position, calm]) whole' (by rw [due]; exact .refl _)

/-- A call that is suspended hands on what its callee has handed back. -/
theorem suspended_spends {reason : YieldReason} (last : act.lastCall = some (.suspended reason)) (label : LabelId) (callee : FunctionId) :
    Spends house (act.locals ++ callers) (act.due true) (do
        let _ ← env.saveFrame act label (some callee)
        pure (Flow.leave (.suspended reason)))
      fun (flow : Flow) => flow.stake env.routine ++ ⟨[], callers⟩ := by
  simp only [saveFrame, bind_assoc, pure_bind]
  refine @Spends.chain _ _ _ _ _ _ _ _ _ _ (fun _ => callers) (fun _ => act.due true)
    (push_spends rfl (act.due true)) (fun _ => .refl _) fun _ _ _ _ => .pure ?_
  refine ⟨fun address => ?_, fun address => ?_⟩ <;>
    simp only [Flow.stake, Flow.locals, Flow.due, Continuation.stake, Activation.due, Activation.returned, last, Option.elim_some, if_true, Stake.own_append,
      Stake.lent_append, List.count_append, List.count_nil] <;> omega

/-- What is in hand behind a call. -/
theorem invoked_less (result : Continuation) : (Flow.stake env.routine (.next { act with lastCall := some result }) ++ ⟨[], callers⟩).Less
    (result.stake ++ act.due false ++ ⟨[], act.locals ++ callers⟩) := by
  refine (Stake.Less.append (Stake.Less.append (.refl _) (Activation.due_most _ _)) (.refl _)).trans ⟨fun address => ?_, fun address => ?_⟩ <;>
    simp only [Flow.locals, Activation.due, Activation.returned, Option.elim_some, if_true, Bool.false_eq_true, if_false,
      Stake.own_append, Stake.lent_append, List.count_append, List.count_nil] <;> omega

theorem continued_less (awaits : Bool) : (⟨[], act.locals⟩ ++ act.due awaits ++ ⟨[], callers⟩).Less (act.due true ++ ⟨[], act.locals ++ callers⟩) := by
  refine (Stake.Less.append (Stake.Less.append (.refl _) (act.due_most awaits)) (.refl _)).trans ⟨fun address => ?_, fun address => ?_⟩ <;>
    simp only [Stake.own_append, Stake.lent_append, List.count_append, List.count_nil] <;> omega

theorem left_less {result : Continuation} (last : act.pending = some result) :
    (Flow.stake env.routine (.leave result) ++ ⟨[], callers⟩).Less (act.due false ++ ⟨[], act.locals ++ callers⟩) := by
  refine ⟨fun address => ?_, fun address => ?_⟩ <;>
    simp only [Flow.stake, Flow.locals, Flow.due, Activation.due, last, Option.elim_some, Stake.own_append, Stake.lent_append, List.count_append, List.count_nil] <;>
    omega

/-- Every instruction that changes no cell and no trigger looks after the cells in hand. -/
theorem step_spends (tended : env.Tended house (act.locals ++ callers)) (collected : env.routine.Collected) {instr : Instr}
    (fair : instr.Fair house.shares) (calm : instr.isReturning = false → env.routine.awaits act.position = false)
    (raises : instr.raised? = none) (aimed : env.aim act instr = none) :
    Spends house (act.locals ++ callers) (act.due instr.isAwaiting) (env.step act instr)
      fun (flow : Flow) => flow.stake env.routine ++ ⟨[], callers⟩ := by
  have locals : ∀ value ∈ act.locals, value ∈ act.locals ++ callers := fun value member => List.mem_append_left _ member
  cases instr with
  | label _ | mark _ => exact going_spends (calm rfl) (.refl _)
  | jump target => exact position_spends collected (.refl _) target
  | jumpUnless cond target =>
      refine .aside (eval_plants tended locals cond fair) fun _ => .aside (.quiet (.asBool _ _)) fun holds => ?_
      cases holds
      · exact position_spends collected (.refl _) target
      · exact going_spends (calm rfl) (.refl _)
  | assign dest value =>
      exact assign_spends tended (calm rfl) fair raises (Option.map_eq_none_iff.mp aimed)
  | swap dest source => exact swap_spends tended (calm rfl) fair
  | update _ selector _ => cases selector <;> cases aimed
  | exchange _ _ _ => exact fair.elim
  | remove _ _ _ | insert _ _ _ => cases aimed
  | assert cond message =>
      refine .aside (eval_plants tended locals cond fair) fun _ => .aside (.quiet (.asBool _ _)) fun holds => ?_
      cases holds
      · exact .fail
      · exact going_spends (calm rfl) (.refl _)
  | print format args =>
      exact .aside (evalAll_plants tended locals args fair) fun _ => .get fun _ => .actor fun _ =>
        .aside (tells_plants tended rfl) fun _ => going_spends (calm rfl) (.refl _)
  | announce event payload =>
      exact .aside (eval_plants tended locals event fair.1) fun _ => .aside (eval_plants tended locals payload fair.2) fun _ =>
        .actor fun _ => .aside (tells_plants tended rfl) fun _ => going_spends (calm rfl) (.refl _)
  | enqueue target event payload =>
      exact .aside (enqueue_plants tended locals fair) fun _ => going_spends (calm rfl) (.refl _)
  | setGotoTarget state => exact .aside (.modifyActor fun _ => .refl _) fun _ => going_spends (calm rfl) (.refl _)
  | registerReceive event =>
      refine .aside (.modifyActor fun actor => ?_) fun _ => going_spends (calm rfl) (.refl _)
      split <;> exact .refl _
  | dispatchReceive arms =>
      refine .ran ((dispatchReceive_plants arms).frame (act.due false)) fun place _ _ dispatched => ?_
      obtain ⟨target, found⟩ := dispatchReceive_target dispatched
      exact @going_spends _ _ _ _ { act with position := place } (collected.target target place found) _ (.refl _)
  | pushFrame callee args =>
      exact .bind (evalArguments_plants tended locals args fair.1) fun values =>
        .next (((startCall_plants callee values).weaken (Stake.lent_less fair.2 values) fun _ => .refl _).frame _) fun _ =>
          going_spends (calm rfl) (.refl _)
  | invoke callee =>
      exact .bind (tended.invokes callee) fun result => .pure (invoked_less result)
  | propagateSuspension callee label =>
      rcases last : act.lastCall with _ | ⟨value, locals'⟩ | reason <;> simp only [step, last]
      · exact .fail
      · exact .pure (continued_less (env.routine.awaits act.position))
      · exact suspended_spends last label callee
  | collectReturn dest =>
      rcases last : act.lastCall with _ | ⟨value, locals'⟩ | reason <;> simp only [step, last]
      · exact .fail
      · rw [aim, last] at aimed
        have whole := isVariable_of_aimAt (Option.map_eq_none_iff.mp aimed)
        exact stored_spends (calm rfl) whole
          (((Stake.Less.lend [value.getD .null] [] []).append (.refl _)).trans (Activation.due_completed last))
      · exact .fail
  | writeBack dest slot =>
      rcases last : act.lastCall with _ | ⟨value, locals'⟩ | reason <;> simp only [step, last]
      · exact .fail
      · split
        next value found =>
          refine .named fair.1 ?_ (stored_spends (calm rfl) fair.2 (.refl _))
          exact List.mem_append_left _ (by rw [Activation.returned, last]; exact List.mem_of_getElem? found)
        next => exact .fail
      · exact .fail
  | readCreated dest =>
      refine .actor fun actor => ?_
      cases actor.resume.created with
      | none => exact .fail
      | some created =>
          refine .aside (.modifyActor fun _ => .refl _) fun _ => ?_
          have whole := isVariable_of_aimAt (Option.map_eq_none_iff.mp aimed)
          exact stored_spends (calm rfl) whole (Stake.Less.append (.ofLent (.scalar (by simp) [])) (.refl (act.due false)) : (_ : Stake).Less (.none ++ act.due false))
  | recordChoice number =>
      refine .actor fun actor => ?_
      cases actor.resume.nondet with
      | none => exact .fail
      | some chosen =>
          exact .aside (.modifyActor fun _ => .refl _) fun _ =>
            @going_spends _ _ _ _ { act with choices := recordChoice act.choices number chosen } (calm rfl) _ (.refl _)
  | «yield» request => exact yield_spends tended (calm rfl) fair
  | exit =>
      rcases last : act.pending with _ | result <;> simp only [step, last]
      · exact .fail
      · exact .pure (left_less last)

end

end Env

end Reentry
