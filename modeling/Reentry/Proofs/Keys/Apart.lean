import Reentry.Proofs.Custody.Plain
import Reentry.Proofs.Events.Once
import Reentry.Proofs.Locations.Swap
import Reentry.Proofs.Ownership.Brought

/-!
Keys apart from their maps. While an instruction changes a map, the key must not lead to that map. A key that is made for the
purpose does not, and a key without parts leads nowhere; a key that is found in a variable leads to the map only if the variable
did before. That can happen: a map may be a key of itself.
-/

namespace Reentry

theorem Heap.reaches_iff {heap : Heap} {value : Value} {goal : Address} : heap.reaches value goal = true ↔ heap.Leads value goal := by
  constructor
  · exact leads_of_reachesWithin
  · intro leads
    induction leads with
    | here =>
        have here : heap.reachesWithin goal 0 (.cell goal) = true := by simp [reachesWithin]
        rw [← reachesWithin_enough (Nat.le_succ heap.size)]
        simp [reachesWithin]
    | @inside owner part _ member _ ih =>
        rw [← reachesWithin_enough (Nat.le_succ heap.size)]
        simp only [reachesWithin, Bool.or_eq_true, List.any_eq_true]
        exact .inr ⟨part, member, ih⟩

/-- A variable, or a variable that is cast. -/
def Operand.isVariable : Operand → Bool
  | .load (.slot _) | .load (.field _) => true
  | .cast value _ => value.isVariable
  | _ => false

/-- Work that obeys leaves all that is at hand in one region. -/
theorem Regime.Obeys.ran {σ α : Type} {held : σ → List Value} {region : Region} {state after : Running σ} {work : Exec σ α} {values : α → List Value}
    {result : α} (obeys : selfContained.Obeys held α region state work values) (fits : selfContained.Fits held region state)
    (ran : work state = .ok result after) :
    ∃ more, state.heap.Grows region after.heap more ∧ selfContained.Fits held more after ∧ more.OwnsAll (values result) := by
  obtain ⟨more, turns, onward, owns⟩ := (obeys fits).ok ran
  exact ⟨more, turns.2 fits.holds, onward, owns⟩

namespace Env

open Exec

variable {σ : Type} {env : Env σ} {held : σ → List Value} {act act' : Activation} {state first between after : Running σ} {region : Region}
  {instr : Instr} {base : Place} {operand : Operand} {key container : Value} {map : Address}

/-- On the way there all that is at hand stays in one region. -/
theorem Overwrites.fits (hands : env.Hands held) (overwrites : env.Overwrites act state instr act' first base operand)
    (fits : selfContained.Fits held region state) (owns : region.OwnsAll act.values) :
    ∃ more, state.heap.Grows region first.heap more ∧ selfContained.Fits held more first ∧ more.OwnsAll act'.values := by
  have stewards := selfContained.stewards held
  have locals := Activation.ownsAll_locals owns
  cases overwrites with
  | assign evaluated | update evaluated =>
      obtain ⟨more, grows, onward, _⟩ := (eval_keeps stewards hands.serves locals _).ran fits evaluated
      exact ⟨more, grows, onward, owns.mono grows.inside⟩
  | exchange loaded =>
      obtain ⟨more, grows, onward, _⟩ := (load_keeps stewards hands.serves locals _).ran fits loaded
      exact ⟨more, grows, onward, owns.mono grows.inside⟩
  | exchanged loaded loaded' replaced =>
      obtain ⟨more, grows, onward, new⟩ := (load_keeps stewards hands.serves locals _).ran fits loaded
      obtain ⟨more', grows', onward', whole⟩ := (load_keeps stewards hands.serves (locals.mono grows.inside) _).ran onward loaded'
      have both := grows.trans grows'
      obtain ⟨most, last, final, _⟩ :=
        (replacePart_keeps stewards hands.serves (owns.mono both.inside) whole _ (new.mono grows'.inside)).ran onward' replaced
      exact ⟨most, both.trans last, final, owns.mono (both.trans last).inside⟩
  | swap loaded loaded' =>
      obtain ⟨more, grows, onward, _⟩ := (load_keeps stewards hands.serves locals _).ran fits loaded
      obtain ⟨more', grows', onward', _⟩ := (load_keeps stewards hands.serves (locals.mono grows.inside) _).ran onward loaded'
      exact ⟨more', grows.trans grows', onward', owns.mono (grows.trans grows').inside⟩
  | swapped loaded loaded' stored =>
      obtain ⟨more, grows, onward, _⟩ := (load_keeps stewards hands.serves locals _).ran fits loaded
      obtain ⟨more', grows', onward', new⟩ := (load_keeps stewards hands.serves (locals.mono grows.inside) _).ran onward loaded'
      have both := grows.trans grows'
      obtain ⟨most, last, final, own⟩ := (store_keeps stewards hands.serves (owns.mono both.inside) _ new).ran onward' stored
      exact ⟨most, both.trans last, final, own⟩
  | collectReturn | writeBack => exact ⟨region, .refl fits.holds, fits, owns⟩
  | readCreated => exact ⟨region, .refl fits.holds, ⟨fits.holds, fits.roots, fits.outside⟩, owns⟩

/-- A variable gives what it holds, and nothing happens. -/
theorem eval_variable : (operand : Operand) → operand.isVariable → ∀ key after, env.eval act operand state = .ok key after →
    after = state ∧ key ∈ act.locals ++ state.actor.roots
  | .load (.slot index), _, key, after, ran => by
      cases found : act.locals[index]? with
      | none =>
          simp only [eval, load, found] at ran
          exact (trap_ne_ok.mp ran).elim
      | some value =>
          simp only [eval, load, found] at ran
          obtain ⟨rfl, rfl⟩ := pure_eq_ok.mp ran
          exact ⟨rfl, List.mem_append_left _ (List.mem_of_getElem? found)⟩
  | .load (.field index), _, key, after, ran => by
      obtain ⟨actor, _, read, ran⟩ := bind_eq_ok.mp ran
      cases read
      cases found : state.actor.fields[index]? with
      | none =>
          simp only [found] at ran
          exact (trap_ne_ok.mp ran).elim
      | some value =>
          simp only [found] at ran
          obtain ⟨rfl, rfl⟩ := pure_eq_ok.mp ran
          exact ⟨rfl, List.mem_append_right _ (by simp [Actor.roots, List.mem_of_getElem? found])⟩
  | .cast inner ty, variable_, key, after, ran => by
      obtain ⟨value, between, evaluated, ran⟩ := bind_eq_ok.mp ran
      obtain ⟨rfl, cast⟩ := quiet_eq_ok (.cast _ ty) ran
      obtain ⟨rfl, among⟩ := eval_variable inner variable_ value _ evaluated
      obtain rfl : value = key := by
        simp only [Value.cast, StateT.run_bind, StateT.run_get, pure_bind] at cast
        split at cast <;> cases cast
        rfl
      exact ⟨rfl, among⟩

/-- What keeps a key from leading to the map that is changed under it: it is made for the purpose, it has no parts, or it is what a variable
holds, which did not lead to the map, and no call comes in between. -/
inductive Harmless (operand : Operand) (base : Place) (heap : Heap) (key : Value) (map : Address) : Prop
  | made (owned : operand.isOwned)
  | scalar (scalar : ∀ address, key ≠ .cell address)
  | found (variable_ : operand.isVariable) (free : base.isCallFree) (away : ¬heap.Leads key map)

/-- While there are only new cells, a value in use leads where it led before. -/
theorem leads_before (closed : first.heap.Closed region) (rests : first.Rests after) (own : region.Owns key) (leads : after.heap.Leads key map) :
    first.heap.Leads key map := by
  apply leads.before
  intro address reached
  exact rests.heap.same address (closed.allocated address (reached.within closed own))

/-- A harmless key leads elsewhere. -/
theorem Changes.apart (hands : env.Hands held) (changes : env.Changes act state instr operand base first (.cell map) key after)
    (fits : selfContained.Fits held region state) (owns : region.OwnsAll act.values) (harmless : Harmless operand base first.heap key map) :
    ¬after.heap.Leads key map := by
  have locals := Activation.ownsAll_locals owns
  cases harmless with
  | scalar scalar =>
      intro leads
      cases leads <;> exact scalar _ rfl
  | made owned =>
      cases changes with
      | element overwrites loaded named =>
          obtain ⟨more, _, onward, own⟩ := overwrites.fits hands fits owns
          obtain ⟨most, made, brought, own, there⟩ := load_then_eval hands (Activation.ownsAll_locals own) onward owned loaded named
          exact brought.away own (Region.owns_cell.mp there)
      | remove named loaded =>
          obtain ⟨more, made, brought, own, there⟩ := eval_then_load hands locals fits owned named loaded
          exact brought.away own (Region.owns_cell.mp there)
      | insert packed loaded named =>
          obtain ⟨more, made, brought, own, there⟩ := eval_then_load hands locals fits owned packed loaded
          have taken := Value.field_stays own 0 brought.detached.closed
          rw [named] at taken
          obtain ⟨most, grows, given⟩ := taken
          exact (brought.work grows).away (given key (.head _)) (Region.owns_cell.mp there)
  | found variable_ free away =>
      refine fun leads => away ?_
      cases changes with
      | element overwrites loaded named =>
          obtain ⟨more, _, onward, own⟩ := overwrites.fits hands fits owns
          have rests := (load_rests base free first).ok loaded
          obtain ⟨rfl, among⟩ := eval_variable operand variable_ _ _ named
          rw [rests.others] at among
          exact leads_before onward.holds rests (Region.ownsAll_append.mpr ⟨Activation.ownsAll_locals own, onward.roots⟩ key among) leads
      | remove named loaded =>
          obtain ⟨rfl, among⟩ := eval_variable operand variable_ _ _ named
          have rests := (load_rests base free _).ok loaded
          exact leads_before fits.holds rests (Region.ownsAll_append.mpr ⟨locals, fits.roots⟩ key among) leads
      | insert packed loaded named =>
          obtain ⟨rfl, among⟩ := eval_variable operand variable_ _ _ packed
          have rests := (load_rests base free _).ok loaded
          have own := Region.ownsAll_append.mpr ⟨locals, fits.roots⟩ _ among
          have closed := fits.holds.kept rests.heap.size fun address inside => rests.heap.same address (fits.holds.allocated address inside)
          have taken := Value.field_stays own 0 closed
          rw [named] at taken
          obtain ⟨more, grows, given⟩ := taken
          refine leads_before fits.holds rests (fun address same => ?_) leads
          have inside := given key (.head _) address same
          exact (grows.fresh address inside).resolve_right (Nat.not_le.mpr (grows.closed.allocated address inside))

end Env

section

open Lower

variable {scope : Lowering.Scope}

mutual

theorem Node.lower_variable {inNew : Bool} {start stop : Lowering.Progress} {operand : Operand} : (node : Node) → node.isBare →
    node.lower inNew .read scope start = .ok (.value operand, stop) → operand.isVariable
  | .mk _ span kind, bare, succeeds => by
      unfold Node.lower at succeeds
      split at succeeds
      · exact (throw_ne_ok.mp (bind_eq_ok.mp succeeds).choose_spec.choose_spec.2).elim
      · simp only [bind_eq_ok, get_eq_ok] at succeeds
        obtain ⟨_, _, ⟨rfl, rfl⟩, fragment, _, lowered, settled⟩ := succeeds
        cases fragment with
        | code _ => simp [map_eq_ok] at settled
        | place _ => cases (pure_eq_ok.mp settled).1
        | value _ =>
            cases (pure_eq_ok.mp settled).1
            exact NodeKind.lower_variable kind bare lowered

theorem NodeKind.lower_variable {inNew : Bool} {span : Span} {start stop : Lowering.Progress} {operand : Operand} : (kind : NodeKind) → kind.isBare →
    kind.lower inNew .read span scope start = .ok (.value operand, stop) → operand.isVariable
  | .name (.slot _), _, succeeds | .name (.field _), _, succeeds => by
      obtain ⟨same, _⟩ := pure_eq_ok.mp succeeds
      cases same
      rfl
  | .cast expr _, bare, succeeds => by
      simp only [NodeKind.lower, bind_eq_ok, expectValue_eq_ok] at succeeds
      obtain ⟨_, _, lowered, inner, _, ⟨rfl, rfl⟩, reads⟩ := succeeds
      obtain ⟨_, same, _⟩ := readOnly_eq_ok.mp reads
      cases same
      have found : inner.isVariable := Node.lower_variable expr bare lowered
      exact found

end

/-- An expression is lowered to an operand that makes its value, unless it is a variable, maybe cast, or hands one over by `move`; and in the
first of these cases it is lowered to a variable. -/
theorem Node.lower_key {node : Node} {inNew : Bool} {start stop : Lowering.Progress} {operand : Operand}
    (lowered : node.lower inNew .read scope start = .ok (.value operand, stop)) :
    (node.isOwned → operand.isOwned) ∧ (node.isBare → operand.isVariable) :=
  ⟨(Node.lower_gives node (.inl rfl) lowered : Operand.Gives true node.isOwned operand).2, fun bare => node.lower_variable bare lowered⟩

end

/-- Effects are never answered by the failure that a key holds its map. -/
def Handler.Unhindered {σ : Type} (handler : Handler σ) : Prop :=
  ∀ heap effect outside, handler heap effect outside ≠ .error (.value .keyHoldsMap)

/-- Where a run stumbles over a key that holds its map: there an instruction of one of its routines has come to change the map under the key,
and the key is not harmless. -/
inductive RunConfig.Stumbles {σ : Type} (config : RunConfig σ) (last : Running σ) : Prop
  | at {levels : Nat} {function : FunctionId} {routine : Routine} {act : Activation} {instr : Instr} {operand : Operand} {base : Place}
      {state first : Running σ} {key : Value} {map : Address} {depth : Nat} (found : config.image.routine? function = some routine)
      (among : instr ∈ routine.body) (leads : last.heap.Leads key map) (harmful : ¬Env.Harmless operand base first.heap key map)
      (changes : Env.Changes ⟨config.image, routine, config.handler, config.executeWithin levels⟩ act state instr operand base first (.cell map) key
        { last with depth })

namespace Exec

variable {σ α : Type} {config : RunConfig σ} {held : σ → List Value} {region : Region} {state last : Running σ}

/-- Work that obeys, and that fails because a key holds its map only where it stumbles. -/
def Spares (config : RunConfig σ) (held : σ → List Value) : Account σ := fun α region state work values =>
  selfContained.Obeys held α region state work values ∧
    (selfContained.Fits held region state → ∀ last, work state = .error (.failed (.value .keyHoldsMap)) last → config.Stumbles last)

/-- An operation that changes nothing under a key stumbles over none. -/
theorem Spares.unhindered (op : Operation) (plain : op.keyed? = none) (owns : region.OwnsAll op.operands) :
    Spares config held Value region state (ofValueOp op.perform) fun result => [result] :=
  ⟨(selfContained.stewards held).operate op owns, fun _ _ failed => absurd (ofValueOp_eq_error failed).1 (op.perform_unhindered plain state.heap)⟩

theorem Spares.readers (config : RunConfig σ) (held : σ → List Value) : Readers (Spares config held) := by
  have stewards := selfContained.stewards held
  constructor
  case pure => exact fun owns => ⟨stewards.pure owns, fun _ _ => nofun⟩
  case stop =>
    intro _ _ _ _ _ other
    refine ⟨stewards.stop _, fun _ last failed => ?_⟩
    cases failed
    exact (other rfl).elim
  case bind =>
    intro _ _ _ state _ _ work rest first next
    refine ⟨stewards.bind first.1 fun result after more ran inside owns => (next result after more ran inside owns).1, fun fits last failed => ?_⟩
    rw [bind_apply] at failed
    cases ran : work state with
    | error stop after =>
        rw [ran] at failed
        cases failed
        exact first.2 fits last ran
    | ok result after =>
        rw [ran] at failed
        obtain ⟨more, turns, onward, owns⟩ := (first.1 fits).ok ran
        exact (next result after more ran turns.1 owns).2 onward last failed
  case get => exact fun next => ⟨stewards.get fun owns => (next owns).1, fun fits => (next fits.roots).2 fits⟩
  case modifyActor => exact fun owns => ⟨stewards.modifyActor owns, fun _ _ => nofun⟩
  case quiet =>
    intro _ _ state _ quiet unhindered
    exact ⟨stewards.quiet quiet, fun _ _ failed => absurd (ofValueOp_eq_error failed).1 (unhindered state.heap)⟩
  case operate =>
    intro _ state op calm owns
    exact .unhindered op (Operation.keyed?_of_calm calm) owns
  case start =>
    intro _ state image function args owns
    refine ⟨stewards.start image function args owns, fun _ last failed => ?_⟩
    have read : (Exec.actor : Exec σ Actor) state = .ok state.actor state := rfl
    rw [bind_of_ok read, bind_apply, ofHeapOp_apply] at failed
    cases starts : (Actor.startCall image function args state.actor).run state.heap with
    | ok started =>
        rw [starts] at failed
        cases failed
    | error cause =>
        rw [starts] at failed
        cases failed
        rcases Actor.startCall_eq_error starts with other | ⟨_, _, other⟩ <;> cases other
  case counted =>
    intro _ _ state _ work spares
    refine ⟨stewards.counted fun state => (spares state).1, fun fits last failed => ?_⟩
    unfold counted at failed
    cases ran : work { state with depth := state.depth + 1 } with
    | ok result after =>
        rw [ran] at failed
        cases failed
    | error stop after =>
        rw [ran] at failed
        cases failed
        obtain ⟨found, among, leads, harmful, changes⟩ :=
          (spares { state with depth := state.depth + 1 }).2 ⟨fits.holds, fits.roots, fits.outside⟩ after ran
        exact .at found among leads harmful changes

end Exec

namespace RunConfig

open Exec

variable {σ : Type} {config : RunConfig σ} {held : σ → List Value} {region : Region} {state : Running σ} {program : Program} {options : LowerOptions}

/-- Whatever code of an accepted program is run, it stumbles over nothing but a key that is not harmless. -/
theorem executeWithin_spares (accepted : program.lower options = .ok config.image) (honest : config.handler.Holds held)
    (unhindered : config.handler.Unhindered) (levels : Nat) (function : FunctionId) :
    Spares config held Continuation region state (config.executeWithin levels function) Continuation.values := by
  have readers := Spares.readers config held
  have performs (effect : Effect) (region : Region) (state : Running σ) (owns : region.OwnsAll effect.values) :
      Spares config held Unit region state (perform config.handler effect) fun _ => [] := by
    refine ⟨selfContained.perform_obeys honest owns, fun _ last failed => ?_⟩
    rw [perform_apply] at failed
    cases ran : config.handler state.heap effect state.outside with
    | ok outside =>
        rw [ran] at failed
        cases failed
    | error cause =>
        rw [ran] at failed
        cases failed
        exact absurd ran (unhindered _ _ _)
  refine executeWithin_reads readers (fun levels callee routine act region state found invokes owns => ?_) levels function
  have serves : Env.Serves ⟨config.image, routine, config.handler, config.executeWithin levels⟩ (Spares config held) :=
    ⟨invokes, fun effect region state _ => performs effect region state⟩
  have sends : Env.Sends ⟨config.image, routine, config.handler, config.executeWithin levels⟩ (Spares config held) :=
    fun target event payload act region state _ owns => Env.enqueue_reads readers serves owns target event payload
      fun _ _ _ _ _ _ owns => performs _ _ _ owns
  refine Env.run_reads readers config.steps (fun {act region state instr} owns among => ?_) owns
  refine ⟨selfContained.step_obeys honest levels routine owns among, fun fits =>
    (Env.step_reads readers serves sends owns among (fun tuple index value => .unhindered (.replaceField tuple index value) rfl) ?_).2 fits⟩
  intro op operand base first container key after region changes keyed operands
  refine ⟨(selfContained.stewards held).operate op operands, fun _ last failed => ?_⟩
  obtain ⟨failed, rfl⟩ := ofValueOp_eq_error failed
  obtain ⟨map, rfl, reaches⟩ := op.perform_hindered keyed _ failed
  have leads := Heap.reaches_iff.mp reaches
  exact .at found among leads (fun harmless => changes.apart (hands accepted honest levels routine) fits owns harmless leads) changes

end RunConfig

namespace Sample

/-- Removes a map from itself. -/
def mirror : FunctionInfo where
  name := "mirror"
  params := []
  locals := [⟨"m", 0, .map .any .any⟩]
  returnType := none
  slotCount := 1
  owner := none
  types := .ofList [(⟨0⟩, .map .any .any)]
  body :=
    let m := node (.name (.slot 0))
    node (.block [node (.remove m m)])

def hall : Program := ⟨"hall.p", [mirror], [⟨"Guard", [], []⟩], []⟩

end Sample

/-- Keys that are harmless stay apart from their maps. Wherever an instruction of an accepted program removes, inserts, updates, exchanges
or stores an element of a container, in whatever state, the key does not lead to the container, and the check that it does not passes, if the key
is made for the purpose, which all keys are but variables, variables that are cast and tuples to which one is handed over with the qualifier `move`; or
if it has no parts; or if it was found in a variable that did not lead to the container when the instruction began to look for it. So a run fails because
a key holds its map only where an instruction has come to change a map under another key than these, and the key leads to the map. -/
theorem harmless_keys_stay_apart {σ : Type} {config : RunConfig σ} {program : Program} {options : LowerOptions} {held : σ → List Value}
    (accepted : program.lower options = .ok config.image) (honest : config.handler.Holds held) :
    (∀ (levels : Nat) (routine : Routine) (act : Activation) (state first after : Running σ) (instr : Instr) (operand : Operand) (base : Place)
        (map : Address) (key : Value),
      (∀ address, state.heap.reachOf (Env.atHand held act state []) address → address.index < state.heap.size) →
      Env.Changes ⟨config.image, routine, config.handler, config.executeWithin levels⟩ act state instr operand base first (.cell map) key after →
      Env.Harmless operand base first.heap key map →
        ¬after.heap.Leads key map ∧ (key.checkKey map).run after.heap = .ok ((), after.heap)) ∧
    (config.handler.Unhindered → ∀ (function : FunctionId) (state last : Running σ),
      (∀ address, state.heap.reachOf (state.actor.roots ++ held state.outside) address → address.index < state.heap.size) →
      config.execute function state = .error (.failed (.value .keyHoldsMap)) last → config.Stumbles last) := by
  constructor
  · intro levels routine act state first after instr operand base map key allocated changes harmless
    obtain ⟨region, fits, owns, _⟩ := Env.fits_of_allocated allocated
    have apart := changes.apart (RunConfig.hands accepted honest levels routine) fits owns harmless
    have unreached : after.heap.reaches key map = false := by
      apply Bool.eq_false_iff.mpr
      intro reaches
      exact apart (Heap.reaches_iff.mp reaches)
    refine ⟨apart, ?_⟩
    simp only [Value.checkKey, StateT.run_bind, StateT.run_get, pure_bind, unreached]
    rfl
  · intro unhindered function state last allocated failed
    obtain ⟨roots, outside⟩ := Region.ownsAll_append.mp (state.heap.owns_reachOf (state.actor.roots ++ held state.outside))
    exact (RunConfig.executeWithin_spares accepted honest unhindered (config.depthLimit + 1) function).2
      ⟨Heap.closed_reachOf allocated, roots, outside⟩ last failed

/-- A pair that holds a copy of a map is removed from that map; a map is not removed from itself. -/
theorem pair_stays_apart_from_its_map : ∃ (config : RunConfig Unit) (routine : Routine) (act : Activation) (idle actor : Actor) (heap : Heap)
      (state after last : Running Unit) (operand : Operand),
    Sample.hall.lower {} = .ok config.image ∧ operand.isOwned ∧ act.locals = [.cell ⟨0⟩] ∧ state.heap.read ⟨0⟩ = .map [] ∧
      Env.Changes ⟨config.image, routine, config.handler, config.executeWithin 3⟩ act state (.remove (.slot 0) .map operand) operand (.slot 0) state
        (.cell ⟨0⟩) (.cell ⟨2⟩) after ∧
      ¬after.heap.Leads (.cell ⟨2⟩) ⟨0⟩ ∧ ((Value.cell ⟨2⟩).checkKey ⟨0⟩).run after.heap = .ok ((), after.heap) ∧
      (Actor.startCall config.image ⟨0⟩ [] idle).run .empty = .ok (actor, heap) ∧
      config.execute ⟨0⟩ ⟨heap, actor, (), 0⟩ = .error (.failed (.value .keyHoldsMap)) last ∧ config.Stumbles last := by
  let image : Image := (Sample.hall.lower {}).toOption.getD ⟨"", [], [], []⟩
  let config : RunConfig Unit := ⟨image, fun _ _ _ => .ok (), 3, 100⟩
  let routine : Routine := ⟨⟨0⟩, "", none, ⟨⟨0⟩, "", [], 0⟩, 0, none, [], []⟩
  let idle : Actor := ⟨⟨0⟩, ⟨0⟩, "", [], .null, .null, none, [], ⟨none, none⟩, []⟩
  let act : Activation := ⟨[.cell ⟨0⟩], [], 0, none, none⟩
  let operand : Operand := .tuple [.clone (.load (.slot 0)), .const (.int 1)]
  let heap : Heap := ⟨#[.map []]⟩
  let state : Running Unit := ⟨heap, idle, (), 0⟩
  let after : Running Unit := ⟨⟨#[.map [], .map [], .tuple [.cell ⟨1⟩, .int 1]]⟩, idle, (), 0⟩
  let actor : Actor := idle.push (.atStart ⟨0⟩ [.cell ⟨0⟩])
  have changes : Env.Changes ⟨config.image, routine, config.handler, config.executeWithin 3⟩ act state (.remove (.slot 0) .map operand) operand
      (.slot 0) state (.cell ⟨0⟩) (.cell ⟨2⟩) after := .remove (by rfl) (by rfl)
  have closed : heap.Closed (Region.between 0 1) := .of_cells (by simp [heap, Cell.contents])
  have owns : (Region.between 0 1).OwnsAll (Env.atHand (fun _ => []) act state []) := by
    simp [Env.atHand, Activation.values, Actor.roots, act, state, idle, Region.between]
  have started : (Region.between 0 1).OwnsAll (actor.roots ++ []) := by
    simp [Actor.roots, Actor.push, Frame.atStart, Frame.atLabel, actor, idle, Region.between]
  have honest : config.handler.Holds fun _ => [] := fun _ _ _ _ _ _ among => absurd among List.not_mem_nil
  have accepted : Sample.hall.lower {} = .ok config.image := rfl
  obtain ⟨harmless, stumbles⟩ := harmless_keys_stay_apart accepted honest
  obtain ⟨apart, passes⟩ := harmless 3 routine act state state after _ operand (.slot 0) ⟨0⟩ (.cell ⟨2⟩) (closed.allocated_reachOf owns) changes
    (.made (by rfl))
  have stumbled := stumbles (fun _ _ _ => by simp) ⟨0⟩ ⟨heap, actor, (), 0⟩ _ (closed.allocated_reachOf started) (by rfl)
  exact ⟨config, routine, act, idle, actor, heap, state, after, _, operand, accepted, rfl, rfl, rfl, changes, apart, passes, rfl, rfl, stumbled⟩

/-- A variable may be used as a key of the map that it holds. In an accepted program the map's own cell then is the key, and the call of the
function fails. -/
theorem map_is_its_own_key : ∃ (config : RunConfig Unit) (routine : Routine) (act : Activation) (idle actor : Actor) (heap : Heap)
      (state after : Running Unit),
    Sample.hall.lower {} = .ok config.image ∧ config.image.routine? ⟨0⟩ = some routine ∧
      .remove (.slot 0) .map (.load (.slot 0)) ∈ routine.body ∧ state.heap.read ⟨0⟩ = .map [] ∧
      Env.Changes ⟨config.image, routine, config.handler, config.executeWithin 3⟩ act state (.remove (.slot 0) .map (.load (.slot 0)))
        (.load (.slot 0)) (.slot 0) state (.cell ⟨0⟩) (.cell ⟨0⟩) state ∧ state.heap.Leads (.cell ⟨0⟩) ⟨0⟩ ∧
      (Actor.startCall config.image ⟨0⟩ [] idle).run .empty = .ok (actor, heap) ∧
      config.execute ⟨0⟩ ⟨heap, actor, (), 0⟩ = .error (.failed (.value .keyHoldsMap)) after := by
  let image : Image := (Sample.hall.lower {}).toOption.getD ⟨"", [], [], []⟩
  let config : RunConfig Unit := ⟨image, fun _ _ _ => .ok (), 3, 100⟩
  let idle : Actor := ⟨⟨0⟩, ⟨0⟩, "", [], .null, .null, none, [], ⟨none, none⟩, []⟩
  let act : Activation := ⟨[.cell ⟨0⟩], [], 0, none, none⟩
  let state : Running Unit := ⟨⟨#[.map []]⟩, idle, (), 0⟩
  have accepted : Sample.hall.lower {} = .ok config.image := rfl
  let blank : Routine := ⟨⟨0⟩, "", none, ⟨⟨0⟩, "", [], 0⟩, 0, none, [], []⟩
  have first : ((config.image.routine? ⟨0⟩).getD blank).body[0]? = some (.remove (.slot 0) .map (.load (.slot 0))) := rfl
  exact ⟨config, _, act, idle, _, _, state, _, accepted, rfl, List.mem_of_getElem? first, rfl, .remove (by rfl) (by rfl), .here, rfl, rfl⟩

end Reentry
