import Reentry.Proofs.Calls.Returned

/-!
The two ways to call a function. A statement pushes the frame of the callee, invokes it and stores what it returned; an
assignment evaluates the call as part of its operand and stores a copy of the result. As what is returned is a copy that
nothing else leads to, the two come to the same.
-/

namespace Reentry

open Exec

variable {σ : Type} {outer : Pairing → σ → σ → Prop} {pairs : Pairing}

/-- Whether the call goes on right behind the instruction, if it goes on. -/
def Instr.falls : Instr → Bool
  | .label _ | .invoke _ | .propagateSuspension .. => true
  | instr => instr.isStraight

namespace Env

/-- Carries out instructions in a row. -/
def carryOut (env : Env σ) : List Instr → Activation → Exec σ Flow
  | [], act => pure (.next act)
  | instr :: rest, act => do
      match ← env.step { act with position := act.position + 1 } instr with
      | .next act => env.carryOut rest act
      | .leave result => pure (.leave result)

/-- Calls a function and gives what it hands back. -/
def calls (env : Env σ) (act : Activation) (callee : FunctionId) (args : List Argument) : Exec σ Continuation := do
  let values ← env.evalArguments act args
  env.startCall callee values
  env.invoke callee

variable {env : Env σ} {act : Activation} {state : Running σ} {callee : FunctionId} {args : List Argument}

/-- What to do with a flow: a run goes on with so many steps, or has left. -/
def goOn (env : Env σ) (steps : Nat) : Flow → Exec σ Continuation
  | .next act => env.run steps act
  | .leave result => pure result

theorem step_falls {instr : Instr} (falls : instr.falls) {next : Activation} {after : Running σ}
    (ran : env.step act instr state = .ok (.next next) after) : next.position = act.position := by
  by_cases straight : instr.isStraight
  · rw [← env.step_withData straight ran]
    rfl
  · cases instr with
    | label _ => cases (pure_eq_ok.mp ran).1; rfl
    | invoke _ =>
        obtain ⟨_, _, _, done⟩ := bind_eq_ok.mp ran
        cases (pure_eq_ok.mp done).1
        rfl
    | propagateSuspension _ _ =>
        cases last : act.lastCall with
        | none =>
            simp only [step, last] at ran
            exact (trap_ne_ok.mp ran).elim
        | some result =>
            cases result with
            | completed _ _ =>
                simp only [step, last] at ran
                cases (pure_eq_ok.mp ran).1
                rfl
            | suspended reason =>
                simp only [step, last] at ran
                obtain ⟨_, _, _, done⟩ := bind_eq_ok.mp ran
                cases (pure_eq_ok.mp done).1
    | _ => first | exact absurd rfl straight | cases falls

/-- A run that comes to such instructions carries them out and goes on behind them. -/
theorem run_carryOut {code : List Instr} (falls : ∀ instr ∈ code, instr.falls) (placed : CodeAt env.routine.body act.position code) (steps : Nat) :
    env.run (code.length + steps) act = env.carryOut code act >>= env.goOn steps := by
  induction code generalizing act with
  | nil => rw [List.length_nil, Nat.zero_add]; rfl
  | cons instr rest ih =>
      obtain ⟨own, others⟩ := List.forall_mem_cons.mp falls
      rw [List.length_cons, Nat.add_right_comm, run_step placed.head]
      funext state
      simp only [carryOut, bind_assoc]
      rw [bind_apply, bind_apply]
      cases ran : env.step { act with position := act.position + 1 } instr state with
      | error stop after => rfl
      | ok flow after =>
          cases flow with
          | leave result => rfl
          | next next =>
              have place : next.position = act.position + 1 := step_falls own ran
              exact congrFun (ih others (place ▸ placed.tail)) after

/-- The call statement: the result is stored when it has come back. -/
theorem carryOut_call (callee : FunctionId) (args : List Argument) (dest : Place) (landing : LabelId) :
    env.carryOut (Template.call callee args (some dest) [] landing) act = (do
      match ← env.calls act callee args with
      | .completed value locals =>
          let stored ← env.store act dest (value.getD .null)
          let back : Activation := { act with position := act.position + 5, lastCall := some (.completed value locals) }
          pure (.next (back.withData stored))
      | .suspended reason =>
          let _ ← env.saveFrame act landing (some callee)
          pure (.leave (.suspended reason))) := by
  have moved (position : Nat) : env.evalArguments { act with position } args = env.evalArguments act args := by
    have alike : act.Alike { act with position } := ⟨rfl, rfl⟩
    exact env.evalArguments_alike alike args
  simp only [Template.call, carryOut, calls, step, moved, bind_assoc, pure_bind, List.map_nil, Option.toList_some, List.map_cons,
    List.cons_append, List.nil_append, List.append_nil]
  refine bind_congr fun values => bind_congr fun _ => bind_congr fun result => ?_
  cases result with
  | suspended reason => rfl
  | completed value locals =>
      let back : Activation := { act with position := act.position + 5, lastCall := some (.completed value locals) }
      have alike : act.Alike back := ⟨rfl, rfl⟩
      have stores : env.store back dest (value.getD .null) = back.withData <$> env.store act dest (value.getD .null) :=
        env.store_alike alike dest _
      simp only [pure_bind]
      change (Flow.next <$> env.store back dest (value.getD .null)) >>= _ = _
      rw [stores]
      simp only [map_eq_pure_bind, bind_assoc, pure_bind]
      rfl

theorem ofValueOp_discard {α β : Type} (work : ValueOp α) (next : Exec σ β) :
    (Exec.ofValueOp work >>= fun _ => next) = (Exec.ofValueOp (do let _ ← work; pure ()) >>= fun _ => next) := by
  funext state
  rw [bind_apply, bind_apply, ofValueOp_apply, ofValueOp_apply, StateT.run_bind]
  cases work.run state.heap <;> rfl

/-- An instruction that overwrites a place evaluates the operand and stores the value. -/
theorem step_assigning (dest : Place) (value : Operand) :
    env.step act (.assigning dest value) = env.eval act value >>= fun value => Flow.next <$> env.store act dest value := by
  cases dest with
  | slot _ | field _ | trigger | payload => rfl
  | part base index =>
      simp only [Instr.assigning, Place.selection?, step, replacePart, store, map_bind, map_pure, Value.updateField, ← ofValueOp_discard]
  | element base key kind =>
      simp only [Instr.assigning, Place.selection?, step, replacePart, store, map_bind, map_pure, bind_assoc, Value.update, ← ofValueOp_discard]

/-- The assignment: a copy of the result is stored. -/
theorem carryOut_assign (callee : FunctionId) (args : List Argument) (dest : Place) :
    env.carryOut [.assigning dest (.clone (.call callee args))] act = (do
      match ← env.calls act callee args with
      | .completed value _ =>
          let copy ← Exec.ofAlloc (value.getD .null).deepCopy
          let stored ← env.store act dest copy
          pure (.next ({ act with position := act.position + 1 }.withData stored))
      | .suspended reason => env.trap (.yieldedInExpression callee reason.name)) := by
  have alike : act.Alike { act with position := act.position + 1 } := ⟨rfl, rfl⟩
  simp only [carryOut, step_assigning, eval_moved, env.store_alike alike]
  simp only [eval, callToEnd, calls, bind_assoc, map_eq_pure_bind, pure_bind]
  refine bind_congr fun values => bind_congr fun _ => bind_congr fun result => ?_
  cases result with
  | suspended reason => rfl
  | completed value locals => simp only [pure_bind]

end Env

/-- Either both have failed for the same reason, or both go on with the same in all locals, fields, frames and messages up to the
names of cells, and so with equal values everywhere. -/
inductive SameEffect (outer : Pairing → σ → σ → Prop) : EStateM.Result Stop (Running σ) Flow → EStateM.Result Stop (Running σ) Flow → Prop
  | failed {pairs : Pairing} {stop : Stop} {state other : Running σ} (states : state.Twin pairs outer other) :
      SameEffect outer (.error stop state) (.error stop other)
  | goesOn {pairs : Pairing} {act act' : Activation} {state other : Running σ} (states : state.Twin pairs outer other)
      (locals : Twins pairs act.locals act'.locals) (choices : act.choices = act'.choices)
      (equal : act.locals.map state.heap.tree = act'.locals.map other.heap.tree ∧
        state.actor.fields.map state.heap.tree = other.actor.fields.map other.heap.tree) :
      SameEffect outer (.ok (.next act) state) (.ok (.next act') other)

/-- Callees hand over copies. -/
def Env.HandsOver (outer : Pairing → σ → σ → Prop) (env : Env σ) : Prop := ∀ callee {pairs state}, state.Twin pairs outer state →
  Ends (env.invoke callee) state (fun result after => result.HandsOver outer pairs after) fun _ _ => True

namespace Env

variable {env : Env σ} {act act' : Activation} {state other : Running σ} {callee : FunctionId} {args : List Argument}

section

variable (blind : env.Blind outer)
include blind

theorem calls_twin (acts : act.Twin pairs act') : Exec.Twin outer pairs state other (env.calls act callee args) (env.calls act' callee args)
    Continuation.Twin :=
  .bind (evalArguments_twin blind acts args) fun _ _ _ _ _ _ values =>
    .bind (startCall_twin blind callee values) fun _ _ _ _ _ _ _ => blind.invokes callee

theorem calls_hands_over (hands : env.HandsOver outer) (acts : act.Twin pairs act) (states : state.Twin pairs outer state) :
    Ends (env.calls act callee args) state (fun result after => result.HandsOver outer pairs after) fun _ _ => True := by
  refine Ends.ran.bind fun values middle evaluated => Ends.ran.bind fun _ started starts => ?_
  obtain ⟨more, within, states, values⟩ := (evalArguments_twin blind acts args).self states evaluated
  obtain ⟨most, within', states, _⟩ := (startCall_twin blind callee values).self states starts
  exact (hands callee states).weaken (fun _ _ hands => hands.of_within (within.trans within')) fun _ _ => id

/-- Values that go together are stored alike. -/
theorem store_sameEffect (acts : act.Twin pairs act) (states : state.Twin pairs outer other) (dest : Place) {value value' : Value}
    (values : value.Twin pairs value') (back back' : Activation) :
    SameEffect outer ((do pure (Flow.next (back.withData (← env.store act dest value)))) state)
      ((do pure (Flow.next (back'.withData (← env.store act dest value')))) other) := by
  have stored := store_twin blind acts dest values states
  rw [bind_apply, bind_apply]
  generalize env.store act dest value state = one, env.store act dest value' other = two at stored ⊢
  cases stored with
  | error _ states => exact .failed states
  | @ok _ left right _ _ _ states acts =>
      have equal {values values' : List Value} (twins : Twins _ values values') := map_twin twins fun twin => states.heap.tree twin
      exact @SameEffect.goesOn _ _ _ (back.withData left) (back'.withData right) _ _ states acts.locals acts.choices
        ⟨equal acts.locals, equal states.actor.fields⟩

/-- The two ways to call a function that returns have the same effect. -/
theorem calls_agree (hands : env.HandsOver outer) (acts : act.Twin pairs act) (states : state.Twin pairs outer state)
    (completes : ∀ reason after, env.calls act callee args state ≠ .ok (.suspended reason) after) (dest : Place) (landing : LabelId) :
    SameEffect outer (env.carryOut (Template.call callee args (some dest) [] landing) act state)
      (env.carryOut [.assigning dest (.clone (.call callee args))] act state) := by
  rw [carryOut_call, carryOut_assign, bind_apply, bind_apply]
  have called := @calls_twin _ _ _ _ _ _ state state callee args blind acts states
  have handed := @calls_hands_over _ _ _ _ _ state callee args blind hands acts states
  cases ran : env.calls act callee args state with
  | error stop after =>
      rw [ran] at called
      cases called with
      | error _ states => exact .failed states
  | ok result middle =>
      cases result with
      | suspended reason => exact absurd ran (completes reason middle)
      | completed value locals =>
          rw [ran] at called
          cases called with
          | @ok more _ _ _ _ within middles _ =>
              cases value with
              | none => exact store_sameEffect blind (acts.mono within) middles dest .null _ _
              | some value =>
                  obtain ⟨more, before, source, within, befores, copied⟩ := handed.ok ran
                  cases copied
                  obtain ⟨most, within', heaps, copies⟩ := befores.heap.recopy (rfl : source.deepCopy.run before.heap = (_, _))
                  have copied : Running.Twin most outer { before with heap := (source.deepCopy.run before.heap).2 }
                      { before with heap := ((source.deepCopy.run before.heap).1.deepCopy.run (source.deepCopy.run before.heap).2).2 } :=
                    ⟨heaps, befores.actor.mono within', blind.handler.mono within' befores.outside, rfl⟩
                  exact store_sameEffect blind ((acts.mono within).mono within') copied dest copies _ _

end

end Env

end Reentry

/-!
Call statements and assignments of calls in accepted programs. Where no argument is passed under `swap`, the two do the same,
whatever the destination, if the callee returns without being suspended. Under `swap` only the statement writes back what the
callee has made of its parameter.
-/

namespace Reentry

open Lower

variable {scope : Lowering.Scope} {start stop : Lowering.Progress} {inNew : Bool}

/-! Argument lists without `swap` are lowered alike in both forms. -/

mutual

theorem Node.lowerCell_plain : (cell : Node) → .swap ∉ cell.qualifiers → cell.lowerCell inNew true = cell.lowerCell inNew false
  | .mk _ _ kind, plain => by
      cases kind with
      | exprs qualifier head tail =>
          obtain ⟨other, plain⟩ := not_or.mp (mt List.mem_cons.mpr plain)
          have read : qualifier ≠ .swap := fun same => other same.symm
          simp only [Node.lowerCell, read, decide_false, Bool.and_false, Bool.false_eq_true, if_false, lowerItems_plain tail plain]
      | namedExprs name head tail =>
          obtain ⟨_, plain⟩ := not_or.mp (mt List.mem_cons.mpr plain)
          simp only [Node.lowerCell, lowerItems_plain tail plain]
      | _ => rfl

theorem lowerItems_plain : (list : Option Node) → .swap ∉ listQualifiers list → lowerItems inNew true list = lowerItems inNew false list
  | none, _ => rfl
  | some cell, plain => Node.lowerCell_plain cell plain

end

namespace Lower

/-- Items that are not swapped are passed as they are passed in an expression. -/
theorem passed_plain {items : List ListItem} {passed args : List Argument} (passes : List.Forall₂ ListItem.Passes items passed)
    (plain : .swap ∉ items.map (·.qualifier)) (succeeds : items.mapM ListItem.argument scope start = .ok (args, stop)) :
    args = passed ∧ start = stop ∧ ∀ slot, Argument.swapped slot passed = [] := by
  induction passes generalizing start args with
  | nil =>
      obtain ⟨rfl, rfl⟩ := pure_eq_ok.mp succeeds
      exact ⟨rfl, rfl, fun _ => rfl⟩
  | @cons item arg items passed own _ ih =>
      obtain ⟨other, plain⟩ := not_or.mp (mt List.mem_cons.mpr plain)
      simp only [List.mapM_cons, bind_eq_ok, pure_eq_ok] at succeeds
      obtain ⟨first, _, argued, others, _, later, rfl, rfl⟩ := succeeds
      obtain ⟨rfl, operand, value, rfl⟩ := argument_eq_ok argued
      obtain ⟨rfl, rfl, none⟩ := ih plain later
      have same : arg = .mk (operand.transferred item.qualifier) item.qualifier := by
        unfold ListItem.Passes at own
        split at own
        · next swapped => exact absurd swapped.symm other
        · obtain ⟨operand', value', rfl⟩ := own
          cases value.symm.trans value'
          rfl
      subst same
      refine ⟨rfl, rfl, fun slot => ?_⟩
      rw [Argument.swapped_cons, Argument.place?_of_ne (fun same => other same.symm), none]
      rfl

end Lower

/-- What a call in an expression is lowered to. -/
theorem Node.app_eq_ok {id : NodeId} {span : Span} {callee : FunctionId} {args : Option Node} {fragment : Fragment}
    (succeeds : (Node.mk id span (.app callee args)).lower inNew .read scope start = .ok (fragment, stop)) :
    ∃ items between passed, lowerItems inNew false args scope start = .ok (items, between) ∧
      items.mapM ListItem.argument scope between = .ok (passed, stop) ∧ fragment = .value (.call callee passed) := by
  simp only [Node.lower, NodeKind.isNew, Bool.false_and, Bool.false_eq_true, if_false, Bool.or_false, bind_eq_ok, get_eq_ok, NodeKind.lower,
    readOnly_eq_ok] at succeeds
  obtain ⟨_, _, ⟨rfl, rfl⟩, _, _, ⟨_, _, checked, items, between, listed, _, _, known, passed, _, argued, _, rfl, rfl⟩, kept⟩ := succeeds
  obtain rfl := checkList_same args checked
  obtain rfl := checkFunction_same known
  obtain ⟨rfl, rfl⟩ := pure_eq_ok.mp kept
  exact ⟨items, between, passed, listed, argued, rfl⟩

theorem Instr.assigning_falls (dest : Place) (value : Operand) : (Instr.assigning dest value).falls := by
  unfold Instr.assigning
  split <;> rfl

/-- A call statement without swapped arguments, and the assignment of the call to the same place. A run that comes to either of
them carries it out; and if the callee returns, both have the same effect. -/
structure Env.CallsAlike {σ : Type} (env : Env σ) (outer : Pairing → σ → σ → Prop) (callee : FunctionId) (args : List Argument) (dest : Place)
    (landing : LabelId) : Prop where
  statement : ∀ act steps, CodeAt env.routine.body act.position (Template.call callee args (some dest) [] landing) →
    env.run (5 + steps) act = env.carryOut (Template.call callee args (some dest) [] landing) act >>= env.goOn steps
  assignment : ∀ act steps, CodeAt env.routine.body act.position [.assigning dest (.clone (.call callee args))] →
    env.run (1 + steps) act = env.carryOut [.assigning dest (.clone (.call callee args))] act >>= env.goOn steps
  agree : ∀ pairs act state, state.Twin pairs outer state → act.Twin pairs act →
    (∀ reason after, env.calls act callee args state ≠ .ok (.suspended reason) after) →
    SameEffect outer (env.carryOut (Template.call callee args (some dest) [] landing) act state)
      (env.carryOut [.assigning dest (.clone (.call callee args))] act state)

theorem RunConfig.callsAlike {σ : Type} {outer : Pairing → σ → σ → Prop} {config : RunConfig σ} (paired : config.image.Paired)
    (copies : ∀ function routine, config.image.routine? function = some routine → ReturnsCopies routine.body)
    (blind : config.handler.Blind outer) (routine : Routine) (levels : Nat) (callee : FunctionId) (args : List Argument) (dest : Place)
    (landing : LabelId) :
    (Env.mk config.image routine config.handler (config.executeWithin levels)).CallsAlike outer callee args dest landing where
  statement _ steps placed := Env.run_carryOut (by simp [Template.call, Instr.falls, Instr.isStraight]) placed steps
  assignment _ steps placed := Env.run_carryOut (by simp [Instr.assigning_falls]) placed steps
  agree _ _ _ states acts completes :=
    have unseeing : Env.Blind outer ⟨config.image, routine, config.handler, config.executeWithin levels⟩ :=
      ⟨blind, fun callee => executeWithin_twin blind levels callee⟩
    Env.calls_agree unseeing (fun callee _ _ states => executeWithin_hands_over paired copies blind levels callee states) acts states completes
      dest landing

/-- In an accepted program, a call statement in which nothing is swapped and the assignment of the call to the same place have the
same effect, behind the choices that both of them read. -/
theorem lowered_calls_agree {program : Program} {options : LowerOptions} {image : Image} (accepted : program.lower options = .ok image)
    {stop' : Lowering.Progress} {access access' : Access} {id id' inner : NodeId} {span span' span'' : Span} {callee : FunctionId}
    {args : Option Node} {dest : Node} {code code' : List Instr} (plain : .swap ∉ listQualifiers args)
    (called : (Node.mk id span (.call callee args (some dest))).lower inNew access scope start = .ok (.code code, stop))
    (assigned : (Node.mk id' span' (.assign dest (.mk inner span'' (.app callee args)) .none)).lower inNew access' scope start
      = .ok (.code code', stop')) :
    ∃ choices asks asks' passed place landing, Spells (Outline.chooseAll choices) asks ∧ Spells (Outline.chooseAll choices) asks' ∧
      code = asks ++ Template.call callee passed (some place) [] landing ∧
      code' = asks' ++ [.assigning place (.clone (.call callee passed))] ∧
      ∀ {σ : Type} {outer : Pairing → σ → σ → Prop} (config : RunConfig σ) (routine : Routine) (levels : Nat),
        config.image = image → config.handler.Blind outer →
        (Env.mk config.image routine config.handler (config.executeWithin levels)).CallsAlike outer callee passed place landing := by
  obtain ⟨own, last, asks, first, spelled, rfl⟩ := Node.lower_statement_asks ⟨rfl, rfl⟩ called
  obtain ⟨own', last', asks', second, spelled', rfl⟩ := Node.lower_statement_asks ⟨rfl, rfl⟩ assigned
  obtain ⟨source, place, middle', evaluated, placed', value, rfl, rfl⟩ := NodeKind.assign_eq_ok second
  cases NodeKind.lower_written rfl first with
  | @call _ _ _ items passed out landing _ between middle _ listed placed passes fresh =>
      obtain ⟨_, rfl⟩ := freshLabel_eq_ok.mp fresh
      -- the arguments, and behind them the destination, are lowered alike on both sides
      obtain ⟨items', between', passed', listed', argued, same⟩ := Node.app_eq_ok evaluated
      cases same
      rw [lowerItems_plain args plain, listed'] at listed
      cases listed
      rw [← lowerItems_qualifiers args listed'] at plain
      obtain ⟨rfl, rfl, none⟩ := passed_plain passes plain argued
      simp only [lowerOptional, map_eq_ok, placed', Except.ok.injEq, Prod.mk.injEq] at placed
      obtain ⟨_, ⟨rfl, rfl⟩, same⟩ := placed
      obtain rfl : out = some place := by
        cases out <;> cases same
        rfl
      rw [none 0]
      refine ⟨_, asks, asks', passed', place, landing, spelled, spelled', rfl, rfl, fun config routine levels same blind => ?_⟩
      subst same
      exact RunConfig.callsAlike (Program.lower_paired accepted) (Program.lower_returnsCopies accepted) blind routine levels callee passed' place
        landing

namespace Sample

/-- Overwrites its parameter with 9 and returns 3. -/
def weigh : FunctionInfo where
  name := "weigh"
  params := [⟨"a", 0, .int⟩]
  locals := []
  returnType := some .int
  slotCount := 1
  owner := none
  types := .empty
  body := node (.block [
    node (.assign (node (.name (.slot 0))) (node (.lit (.int 9))) .none),
    node (.ret (some (node (.lit (.int 3)))))])

/-- Calls `weigh` in some way, its local `d` being the destination, and returns both its locals. -/
def weighing (name : String) (call : NodeKind) : FunctionInfo where
  name := name
  params := []
  locals := [⟨"x", 0, .int⟩, ⟨"d", 1, .int⟩]
  returnType := some (.tuple [.int, .int])
  slotCount := 2
  owner := none
  types := .empty
  body := node (.block [node call, node (.ret (some (pair (node (.name (.slot 0))) (node (.name (.slot 1))))))])

/-- The local `x` as the only argument. -/
def load (qualifier : Qualifier) : Option Node := some (node (.exprs qualifier (node (.name (.slot 0))) none))

def scales : Program :=
  let dest := node (.name (.slot 1))
  ⟨"scales.p", [weigh, weighing "put" (.call ⟨0⟩ (load .swap) (some dest)),
    weighing "take" (.assign dest (node (.app ⟨0⟩ (load .swap))) .none)], [⟨"Clerk", [], []⟩], []⟩

end Sample

/-- What `weigh` makes of its parameter is written back by the call statement and lost in the assignment of the call. -/
theorem swap_is_lost : Sample.scales.returned? ⟨1⟩ = some "(9, 3)" ∧ Sample.scales.returned? ⟨2⟩ = some "(0, 3)" := by
  decide +kernel

/-- Where `x` is not swapped, both ways leave 0 in `x` and 3 in `d`. -/
theorem plain_calls_agree : ∃ (image : Image) (scope : Lowering.Scope) (code code' : List Instr) (stop stop' : Lowering.Progress)
    (env : Env Surroundings) (act left : Activation) (state after : Running Surroundings) (passed : List Argument) (landing : LabelId),
    Sample.scales.lower {} = .ok image ∧
      (Sample.node (.call ⟨0⟩ (Sample.load .none) (some (Sample.node (.name (.slot 1)))))).lower false .read scope .start
        = .ok (.code code, stop) ∧
      (Sample.node (.assign (Sample.node (.name (.slot 1))) (Sample.node (.app ⟨0⟩ (Sample.load .none))) .none)).lower false .read scope .start
        = .ok (.code code', stop') ∧
      code = Template.call ⟨0⟩ passed (some (.slot 1)) [] landing ∧ code' = [.assigning (.slot 1) (.clone (.call ⟨0⟩ passed))] ∧
      env.carryOut code act state = .ok (.next left) after ∧ left.locals = [.int 0, .int 3] ∧
      SameEffect Surroundings.Twin (env.carryOut code act state) (env.carryOut code' act state) := by
  let image : Image := (Sample.scales.lower {}).toOption.getD ⟨"", [], [], []⟩
  have accepted : Sample.scales.lower {} = .ok image := rfl
  let scope : Lowering.Scope := ⟨Sample.scales, Sample.weighing "put" (.lit .null), {}⟩
  let args : List Argument := [.mk (.clone (.load (.slot 0))) .none]
  let code : List Instr := Template.call ⟨0⟩ args (some (.slot 1)) [] ⟨1⟩
  let code' : List Instr := [.assigning (.slot 1) (.clone (.call ⟨0⟩ args))]
  have called : ∃ stop, (Sample.node (.call ⟨0⟩ (Sample.load .none) (some (Sample.node (.name (.slot 1)))))).lower false .read scope .start
      = .ok (.code code, stop) := ⟨_, rfl⟩
  have assigned : ∃ stop, (Sample.node (.assign (Sample.node (.name (.slot 1))) (Sample.node (.app ⟨0⟩ (Sample.load .none))) .none)).lower
      false .read scope .start = .ok (.code code', stop) := ⟨_, rfl⟩
  obtain ⟨stop, called⟩ := called
  obtain ⟨stop', assigned⟩ := assigned
  have plain : .swap ∉ listQualifiers (Sample.load .none) := by decide
  obtain ⟨_, asks, _, passed, place, landing, _, _, same, _, alike⟩ := lowered_calls_agree accepted plain called assigned
  -- what the parts of the statement are lowered to
  obtain rfl : asks = [] := by
    have lengths := congrArg List.length same
    simp only [List.length_append] at lengths
    exact List.length_eq_zero_iff.mp (Nat.add_eq_right.mp lengths.symm)
  obtain rfl : passed = args := (Instr.pushFrame.inj (Option.some.inj (congrArg (·[0]?) same))).2.symm
  obtain rfl : landing = ⟨1⟩ := (Instr.label.inj (Option.some.inj (congrArg (·[1]?) same))).symm
  obtain rfl : place = .slot 1 := (Instr.collectReturn.inj (Option.some.inj (congrArg (·[4]?) same))).symm
  let config : RunConfig Surroundings := ⟨image, Surroundings.handle, 3, 100⟩
  let routine : Routine := ⟨⟨0⟩, "", none, ⟨⟨0⟩, "", [], 0⟩, 0, none, [], []⟩
  let env : Env Surroundings := ⟨image, routine, config.handler, config.executeWithin 3⟩
  let idle : Actor := ⟨⟨0⟩, ⟨0⟩, "", [], .null, .null, none, [], ⟨none, none⟩, []⟩
  let act : Activation := ⟨[.int 0, .int 0], [], 0, none, none⟩
  let state : Running Surroundings := ⟨.empty, idle, .empty, 0⟩
  have closed : Heap.empty.Closed fun _ => False := ⟨nofun, nofun⟩
  have states : state.Twin (.same fun _ => False) Surroundings.Twin state := .same closed (by simp [Actor.roots, state, idle]) nofun
  have acts : act.Twin (.same fun _ => False) act := ⟨.cons .int (.cons .int .nil), rfl, rfl, .none, .none⟩
  obtain ⟨result, middle, returns⟩ : ∃ locals after, env.calls act ⟨0⟩ args state = .ok (.completed (some (.int 3)) locals) after := ⟨_, _, rfl⟩
  have effect := (alike config routine 3 rfl Surroundings.handle_blind).agree _ act state states acts fun reason after suspended => by
    cases returns.symm.trans suspended
  obtain ⟨left, after, went, locals⟩ : ∃ left after, env.carryOut code act state = .ok (.next left) after ∧ left.locals = [.int 0, .int 3] :=
    ⟨_, _, rfl, rfl⟩
  exact ⟨image, scope, code, code', stop, stop', env, act, left, state, after, args, ⟨1⟩, accepted, called, assigned, rfl, rfl, went, locals, effect⟩

end Reentry
