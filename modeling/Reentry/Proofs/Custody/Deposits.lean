import Reentry.Proofs.Custody.Acyclic
import Reentry.Proofs.Custody.Run

/-!
Logged runs. A log shows every value that an instruction stores into a cell, with the heap right before and right after. It lies
outside the actor, where neither the code nor the handler of effects can see it: without the log such a run is the run itself. Copies
of keys are not shown, since they are made of new cells.
-/

namespace Reentry

/-- What lies outside, and what has been stored into containers, the first deposit first. -/
abbrev Logged (σ : Type) := σ × List Deposit

variable {σ α : Type}

/-- The handler of effects does not touch the log. -/
def Handler.logging (handler : Handler σ) : Handler (Logged σ) := fun heap effect outside =>
  (handler heap effect outside.1).map (·, outside.2)

/-- The state with an empty log. -/
def Running.logging (state : Running σ) : Running (Logged σ) := ⟨state.heap, state.actor, (state.outside, []), state.depth⟩

/-- Work by which the value is stored into the container; that it succeeds is logged. -/
def Exec.deposit (container value : Value) (work : ValueOp α) : Exec (Logged σ) α := do
  let before ← get
  let result ← Exec.ofValueOp work
  modify fun state => { state with outside := (state.outside.1, state.outside.2 ++ [⟨before.heap, container, value, state.heap⟩]) }
  pure result

namespace Env

variable (env : Env (Logged σ))

/-- Overwrites the value at a place, and logs what goes into a cell. -/
def storeLogging (act : Activation) (place : Place) (value : Value) : Exec (Logged σ) Activation :=
  match place with
  | .part base index => do
      let tuple ← env.load act base
      Exec.deposit tuple value (tuple.updateField index value)
      pure act
  | .element base key kind => do
      let container ← env.load act base
      expectKind kind container
      let key ← env.eval act key
      Exec.deposit container value (container.update key value)
      pure act
  | place => env.store act place value

/-- Overwrites part of a container, logs what goes into it and gives the old part. -/
def replacePartLogging (act : Activation) (container : Value) (selector : Selector) (value : Value) : Exec (Logged σ) Value :=
  match selector with
  | .part index => Exec.deposit container value (container.replaceField index value)
  | .element key kind => do
      expectKind kind container
      let key ← env.eval act key
      Exec.deposit container value (container.replace key value)

/-- Carries out an instruction, and logs what it stores into cells. -/
def stepLogging (act : Activation) : Instr → Exec (Logged σ) Flow
  | .assign dest value => do
      let value ← env.eval act value
      .next <$> env.storeLogging act dest value
  | .swap dest source => do
      let oldDest ← env.load act dest
      let oldSource ← env.load act source
      let act ← env.storeLogging act dest oldSource
      .next <$> env.storeLogging act source oldDest
  | .update container selector value => do
      let value ← env.eval act value
      let container ← env.load act container
      let _ ← env.replacePartLogging act container selector value
      pure (.next act)
  | .exchange container selector source => do
      let incoming ← env.load act source
      let container ← env.load act container
      let old ← env.replacePartLogging act container selector incoming
      .next <$> env.storeLogging act source old
  | .insert container kind entry => do
      let entry ← env.eval act entry
      let container ← env.load act container
      expectKind kind container
      let key ← Exec.ofValueOp (entry.field 0)
      let value ← Exec.ofValueOp (entry.field 1)
      Exec.deposit container value (container.insert key value)
      pure (.next act)
  | .collectReturn dest =>
      match act.lastCall with
      | some (.completed value _) => .next <$> env.storeLogging act dest (value.getD .null)
      | _ => env.trap .noCompletedCall
  | .writeBack dest slot =>
      match act.lastCall with
      | some (.completed _ locals) =>
          match locals[slot]? with
          | some value => .next <$> env.storeLogging act dest value
          | none => env.trap (.noReturnedSlot slot)
      | _ => env.trap (.noReturnedSlot slot)
  | .readCreated dest => do
      match (← Exec.actor).resume.created with
      | some created =>
          Exec.modifyActor fun actor => { actor with resume := { actor.resume with created := none } }
          .next <$> env.storeLogging act dest (.machine created)
      | none => env.trap .noInstance
  | instr => env.step act instr

/-- Runs a call until it leaves, with a log. -/
def runLogging (env : Env (Logged σ)) : Nat → Activation → Exec (Logged σ) Continuation
  | 0, _ => throw .outOfSteps
  | steps + 1, act => do
      match env.routine.body[act.position]? with
      | none => env.trap .pastEnd
      | some instr =>
          match ← env.stepLogging { act with position := act.position + 1 } instr with
          | .next act => runLogging env steps act
          | .leave result => pure result

end Env

namespace RunConfig

/-- Runs a function with a log. -/
def executeLoggingWithin (config : RunConfig (Logged σ)) : Nat → FunctionId → Exec (Logged σ) Continuation
  | 0, _ => throw .outOfSteps
  | levels + 1, function => do
      let (routine, act) ← config.enter function
      if config.depthLimit ≤ (← get).depth then Exec.fail (.callDepthExceeded config.depthLimit)
      else
        let env : Env (Logged σ) := ⟨config.image, routine, config.handler, executeLoggingWithin config levels⟩
        Exec.counted (env.runLogging config.steps act)

variable (config : RunConfig σ)

def logging : RunConfig (Logged σ) := ⟨config.image, config.handler.logging, config.depthLimit, config.steps⟩

/-- Runs a function on the frame at the top of the actor's stack, with an empty log at first. -/
def executeLogging (function : FunctionId) (state : Running σ) : EStateM.Result Stop (Running (Logged σ)) Continuation :=
  config.logging.executeLoggingWithin (config.depthLimit + 1) function state.logging

end RunConfig

open Exec

theorem Exec.deposit_apply (container value : Value) (work : ValueOp α) (state : Running (Logged σ)) :
    Exec.deposit container value work state = match work.run state.heap with
      | .ok (result, heap) =>
          .ok result { state with heap, outside := (state.outside.1, state.outside.2 ++ [⟨state.heap, container, value, heap⟩]) }
      | .error error => .error (.failed (.value error)) state := by
  have looked : (MonadState.get : Exec (Logged σ) (Running (Logged σ))) state = .ok state state := rfl
  rw [Exec.deposit, bind_of_ok looked, bind_apply, ofValueOp_apply]
  cases work.run state.heap <;> rfl

/-- Logging a deposit does not change it. -/
theorem Exec.Views.deposit (container value : Value) (work : ValueOp α) :
    Views Prod.fst (Exec.deposit container value work : Exec (Logged σ) α) (Exec.ofValueOp work) := by
  intro state
  rw [deposit_apply, ofValueOp_apply]
  simp only [Running.through]
  cases work.run state.heap <;> rfl

theorem RunConfig.logging_views (config : RunConfig σ) : config.logging.Views Prod.fst config where
  image := rfl
  handler heap effect outside := by
    change ((config.handler heap effect outside.1).map _).map _ = _
    cases config.handler heap effect outside.1 <;> rfl
  depthLimit := rfl
  steps := rfl

namespace Env

variable {env : Env (Logged σ)} {plain : Env σ} {act : Activation}

section

variable (views : env.Views Prod.fst plain)
include views

theorem storeLogging_views (place : Place) (value : Value) :
    Exec.Views Prod.fst (env.storeLogging act place value) (plain.store act place value) := by
  cases place with
  | part base index => exact .bind (load_views views base) fun _ => .bind (.deposit _ _ _) fun _ => .pure
  | element base key kind =>
      exact .bind (load_views views base) fun _ => .bind (expectKind_views _ _) fun _ =>
        .bind (eval_views views key) fun _ => .bind (.deposit _ _ _) fun _ => .pure
  | _ =>
      unfold storeLogging
      exact store_views views _ value

theorem replacePartLogging_views (container : Value) (selector : Selector) (value : Value) :
    Exec.Views Prod.fst (env.replacePartLogging act container selector value) (plain.replacePart act container selector value) := by
  cases selector with
  | part index => exact .deposit _ _ _
  | element key kind => exact .bind (expectKind_views _ _) fun _ => .bind (eval_views views key) fun _ => .deposit _ _ _

theorem stepLogging_views (instr : Instr) : Exec.Views Prod.fst (env.stepLogging act instr) (plain.step act instr) := by
  have stored {act : Activation} (place : Place) (value : Value) :
      Exec.Views Prod.fst (Flow.next <$> env.storeLogging act place value) (Flow.next <$> plain.store act place value) :=
    .map (storeLogging_views views place value)
  cases instr with
  | assign dest value => exact .bind (eval_views views value) fun _ => stored dest _
  | swap dest source =>
      exact .bind (load_views views dest) fun _ => .bind (load_views views source) fun _ =>
        .bind (storeLogging_views views dest _) fun _ => stored source _
  | update container selector value =>
      exact .bind (eval_views views value) fun _ => .bind (load_views views container) fun _ =>
        .bind (replacePartLogging_views views _ selector _) fun _ => .pure
  | exchange container selector source =>
      exact .bind (load_views views source) fun _ => .bind (load_views views container) fun _ =>
        .bind (replacePartLogging_views views _ selector _) fun _ => stored source _
  | insert container kind entry =>
      exact .bind (eval_views views entry) fun _ => .bind (load_views views container) fun _ =>
        .bind (expectKind_views _ _) fun _ => .bind .ofValueOp fun _ => .bind .ofValueOp fun _ =>
          .bind (.deposit _ _ _) fun _ => .pure
  | collectReturn dest =>
      rcases last : act.lastCall with _ | ⟨value, locals⟩ | reason <;> simp only [stepLogging, step, last]
      · exact trap_views views
      · exact stored dest _
      · exact trap_views views
  | writeBack dest slot =>
      rcases last : act.lastCall with _ | ⟨value, locals⟩ | reason <;> simp only [stepLogging, step, last]
      · exact trap_views views
      · cases locals[slot]? with
        | some value => exact stored dest value
        | none => exact trap_views views
      · exact trap_views views
  | readCreated dest =>
      refine .bind .actor fun actor => ?_
      cases actor.resume.created with
      | some created => exact .bind .modifyActor fun _ => stored dest _
      | none => exact trap_views views
  | _ =>
      unfold stepLogging
      exact step_views views _

theorem runLogging_views (steps : Nat) (act : Activation) : Exec.Views Prod.fst (env.runLogging steps act) (plain.run steps act) := by
  induction steps generalizing act with
  | zero => exact .throw
  | succ steps ih =>
      rw [runLogging, run, views.routine]
      cases plain.routine.body[act.position]? with
      | none => exact trap_views views
      | some instr =>
          refine .bind (stepLogging_views views instr) fun flow => ?_
          cases flow with
          | next after => exact ih after
          | leave result => exact .pure

end

end Env

namespace RunConfig

theorem executeLoggingWithin_views (config : RunConfig σ) (levels : Nat) (function : FunctionId) :
    Exec.Views Prod.fst (config.logging.executeLoggingWithin levels function) (config.executeWithin levels function) := by
  induction levels generalizing function with
  | zero => exact .throw
  | succ levels ih =>
      refine .bind (enter_views config.logging_views function) fun entered => .get fun state => ?_
      have same : config.logging.depthLimit = config.depthLimit := rfl
      have depth : (state.through Prod.fst).depth = state.depth := rfl
      rw [same, depth]
      split
      · exact .fail
      · exact .counted (Env.runLogging_views ⟨rfl, rfl, config.logging_views.handler, ih⟩ _ _)

/-- Logging a run does not change it. -/
theorem executeLogging_seen (config : RunConfig σ) (function : FunctionId) (state : Running σ) :
    seen Prod.fst (config.executeLogging function state) = config.execute function state :=
  executeLoggingWithin_views config (config.depthLimit + 1) function state.logging

end RunConfig

end Reentry

/-!
Logged runs and loops. As long as no value that is stored leads to its container, no cell at hand ever comes to be part of
itself.
-/

namespace Reentry

open Exec

variable {σ α : Type} {held : σ → List Value} {region more : Region} {state after : Running (Logged σ)} {values : List Value} {heap : Heap}

namespace Running

/-- All values at hand are made of cells of the region. Each value in the log that led to its container made this part of itself,
and unless there is such a value no cell is. -/
structure Clear (held : σ → List Value) (region : Region) (state : Running (Logged σ)) : Prop where
  closed : state.heap.Closed region
  roots : region.OwnsAll state.actor.roots
  outside : region.OwnsAll (held state.outside.1)
  loops : ∀ deposit ∈ state.outside.2, deposit.Closes → deposit.Loops
  straight : (∀ deposit ∈ state.outside.2, ¬deposit.Closes) → state.heap.Straight region

/-- So it is with more cells, of which the results are made. -/
def Cleared (held : σ → List Value) (region : Region) (values : List Value) (state : Running (Logged σ)) : Prop :=
  ∃ more, region.Inside more ∧ state.Clear held more ∧ more.OwnsAll values

namespace Clear

variable (clear : state.Clear held region)
include clear

theorem cleared (owns : region.OwnsAll values) : state.Cleared held region values := ⟨region, .refl region, clear, owns⟩

theorem deep (depth : Nat) : Clear held region { state with depth } := ⟨clear.closed, clear.roots, clear.outside, clear.loops, clear.straight⟩

/-- Work on the heap that closes no loop. -/
theorem moved (inside : region.Inside more) (closed : heap.Closed more) (straight : state.heap.Straight region → heap.Straight more) :
    Clear held more { state with heap } :=
  ⟨closed, clear.roots.mono inside, clear.outside.mono inside, clear.loops, fun opens => straight (clear.straight opens)⟩

/-- An operation, with what it stores in the log. -/
theorem operated (op : Operation) (owns : region.OwnsAll op.operands) {result : Value} (ran : op.perform.run state.heap = .ok (result, heap)) :
    Cleared held region [result]
      { state with heap, outside := (state.outside.1, state.outside.2 ++ (op.deposit? state.heap heap).toList) } := by
  obtain ⟨more, inside, closed, own, straight⟩ := op.perform_straight clear.closed owns ran
  refine ⟨more, inside, ⟨closed, clear.roots.mono inside, clear.outside.mono inside, fun deposit among => ?_, fun opens => ?_⟩, by simpa using own⟩
  · rcases List.mem_append.mp among with old | new
    · exact clear.loops deposit old
    · exact op.perform_closes (by simpa using new) clear.closed owns ran
  · refine straight (clear.straight fun deposit among => opens deposit (List.mem_append_left _ among)) fun deposit stored => ?_
    exact opens deposit (List.mem_append_right _ (by simp [stored]))

end Clear

end Running

open Running

theorem Operation.deposit?_of_calm {op : Operation} (calm : op.overwrites = false) (before after : Heap) : op.deposit? before after = none := by
  cases op with
  | replace | insert | remove | replaceField => cases calm
  | _ => rfl

/-- Initial values of slots close no loops. -/
theorem FrameShape.initialSlots_straight (slots : List Slot) (closed : heap.Closed region) :
    let made := (slots.mapM FrameShape.initialSlot : Alloc (List Value)).run heap
    ∃ more, region.Inside more ∧ made.2.Closed more ∧ more.OwnsAll made.1 ∧ (heap.Straight region → made.2.Straight more) := by
  induction slots generalizing heap region with
  | nil => exact ⟨region, .refl region, closed, Region.ownsAll_nil, id⟩
  | cons slot rest ih =>
      obtain ⟨more, inside, closed, own, straight⟩ : ∃ more, region.Inside more ∧ ((FrameShape.initialSlot slot).run heap).2.Closed more ∧
          more.Owns ((FrameShape.initialSlot slot).run heap).1 ∧ (heap.Straight region → ((FrameShape.initialSlot slot).run heap).2.Straight more) := by
        unfold FrameShape.initialSlot
        split
        next ty _ =>
          obtain ⟨more, inside, closed, own, straight⟩ := (Operation.build ty.initial).perform_straight closed Region.ownsAll_nil rfl
          exact ⟨more, inside, closed, own, fun before => straight before nofun⟩
        next => exact ⟨region, .refl region, closed, Region.owns_null, id⟩
      obtain ⟨most, inside', closed, owns, straight'⟩ := ih closed
      rw [List.mapM_cons]
      exact ⟨most, inside.trans inside', closed, Region.ownsAll_cons.mpr ⟨own.mono inside', owns⟩, fun before => straight' (straight before)⟩

/-- Work that stores nothing without logging it. -/
def Exec.Clears (held : σ → List Value) : Account (Logged σ) := fun _ region state work values =>
  state.Clear held region → Ends work state (fun result after => after.Cleared held region (values result)) fun _ after => after.Cleared held region []

namespace Exec.Clears

/-- What stores nothing need not be logged. -/
theorem operates {op : Operation} (stores : ∀ before after, op.deposit? before after = none) (owns : region.OwnsAll op.operands) :
    Clears held Value region state (ofValueOp op.perform) fun result => [result] := by
  intro clear
  unfold Ends
  rw [ofValueOp_apply]
  cases ran : op.perform.run state.heap with
  | error error => exact clear.cleared Region.ownsAll_nil
  | ok pair =>
      have operated := clear.operated op owns ran
      rw [stores, Option.toList_none, List.append_nil] at operated
      exact operated

section

variable {op : Operation} {container value : Value} (stores : ∀ before after, op.deposit? before after = some ⟨before, container, value, after⟩)
  (owns : region.OwnsAll op.operands)
include stores owns

/-- What an operation stores is logged. -/
theorem deposits {work : ValueOp α} {values : α → List Value} (pick : Value → α) (same : work = do pure (pick (← op.perform)))
    (picks : ∀ result, ∀ picked ∈ values (pick result), picked = result) :
    Clears held α region state (Exec.deposit container value work) values := by
  intro clear
  unfold Ends
  rw [deposit_apply, same, StateT.run_bind]
  cases ran : op.perform.run state.heap with
  | error error => exact clear.cleared Region.ownsAll_nil
  | ok pair =>
      obtain ⟨result, heap⟩ := pair
      obtain ⟨more, inside, clear, own⟩ := clear.operated op owns ran
      rw [stores, Option.toList_some] at clear
      refine ⟨more, inside, clear, fun picked member => ?_⟩
      rw [picks result picked member]
      exact own result (.head _)

theorem exchanged : Clears held Value region state (Exec.deposit container value op.perform) fun old => [old] :=
  deposits stores owns id (bind_pure _).symm (by simp)

theorem stored {work : ValueOp Unit} (same : work = do let _ ← op.perform; pure ()) :
    Clears held Unit region state (Exec.deposit container value work) fun _ => [] :=
  deposits stores owns (fun _ => ()) same (by simp)

end

/-- Where nothing is overwritten nothing need be logged. -/
theorem readers (held : σ → List Value) : Readers (Clears held) where
  pure owns clear := clear.cleared owns
  stop _ clear := clear.cleared Region.ownsAll_nil
  bind {_ _ region state _ _ work rest} first next clear := by
    refine Ends.bindRan (first clear) ?_
    rintro result after ran ⟨more, inside, clear, owns⟩
    refine (next result after more ran inside owns clear).weaken ?_ ?_
    · rintro value final ⟨most, inside', done⟩
      exact ⟨most, inside.trans inside', done⟩
    · rintro stop final ⟨most, inside', done⟩
      exact ⟨most, inside.trans inside', done⟩
  get next clear := next clear.roots clear
  modifyActor owns clear := Clear.cleared ⟨clear.closed, owns clear.roots, clear.outside, clear.loops, clear.straight⟩ Region.ownsAll_nil
  quiet {_ region state work} quiet _ clear := by
    unfold Ends
    rw [ofValueOp_apply]
    rcases quiet state.heap with ⟨result, ran⟩ | ⟨error, ran⟩ <;> rw [ran] <;> exact clear.cleared Region.ownsAll_nil
  operate op calm owns := operates (op.deposit?_of_calm calm) owns
  start {region state} image function args owns clear := by
    unfold Ends
    have read : (Exec.actor : Exec (Logged σ) Actor) state = .ok state.actor state := rfl
    rw [bind_of_ok read, bind_apply, ofHeapOp_apply]
    cases ran : (Actor.startCall image function args state.actor).run state.heap with
    | error cause => exact clear.cleared Region.ownsAll_nil
    | ok pair =>
        obtain ⟨started, heap⟩ := pair
        obtain ⟨routine, values, _, created, rfl⟩ := Actor.startCall_eq_ok ran
        obtain ⟨made, run, rfl⟩ := FrameShape.createLocals_eq_ok created
        obtain ⟨more, inside, closed, own, straight⟩ := FrameShape.initialSlots_straight (routine.shape.slots.drop routine.shape.paramCount) clear.closed
        rw [run] at closed own straight
        obtain ⟨closed, roots, outside, loops, straight⟩ := clear.moved inside closed straight
        refine ⟨more, inside, ⟨closed, ?_, outside, loops, straight⟩, Region.ownsAll_nil⟩
        exact Actor.ownsAll_push.mpr ⟨Region.ownsAll_append.mpr ⟨owns.mono inside, own⟩, roots⟩
  counted keeps clear := by
    refine .counted (keeps _ (clear.deep _)) ?_ ?_
    · rintro result after ⟨more, inside, clear, owns⟩
      exact ⟨more, inside, clear.deep _, owns⟩
    · rintro stop after ⟨more, inside, clear, owns⟩
      exact ⟨more, inside, clear.deep _, owns⟩

end Exec.Clears

namespace Env

variable {env : Env (Logged σ)} {act : Activation}

section

variable (serves : env.Serves (Clears held)) (owns : region.OwnsAll act.values)
include serves owns

theorem storeLogging_clears (place : Place) {value : Value} (own : region.OwnsAll [value]) :
    Clears held Activation region state (env.storeLogging act place value) Activation.values := by
  have readers := Clears.readers held
  have locals := Activation.ownsAll_locals owns
  cases place with
  | part base index =>
      refine readers.next (load_reads readers serves locals base) fun tuple _ _ grown whole => ?_
      have operands := Region.ownsAll_append.mpr ⟨whole, own.mono grown⟩
      exact readers.next (@Clears.stored _ _ _ _ (.replaceField tuple index value) _ _ (fun _ _ => rfl) operands _ rfl)
        fun _ _ _ grown' _ => readers.pure ((owns.mono grown).mono grown')
  | element base key kind =>
      refine readers.next (load_reads readers serves locals base) fun container _ _ grown whole =>
        readers.next (expectKind_reads readers _ _) fun _ _ _ grown₁ _ =>
          readers.next (eval_reads readers serves ((locals.mono grown).mono grown₁) key) fun key _ _ grown₂ named => ?_
      have operands : Region.OwnsAll _ (Operation.replace container key value).operands := Region.ownsAll_append.mpr
        ⟨(whole.mono grown₁).mono grown₂, Region.ownsAll_append.mpr ⟨named, ((own.mono grown).mono grown₁).mono grown₂⟩⟩
      exact readers.next (Clears.stored (fun _ _ => rfl) operands rfl)
        fun _ _ _ grown₃ _ => readers.pure ((((owns.mono grown).mono grown₁).mono grown₂).mono grown₃)
  | slot _ | field _ | trigger | payload =>
      unfold storeLogging
      exact store_variable_reads readers owns rfl own

theorem replacePartLogging_clears {container : Value} (whole : region.OwnsAll [container]) (selector : Selector) {value : Value}
    (own : region.OwnsAll [value]) :
    Clears held Value region state (env.replacePartLogging act container selector value) fun old => [old] := by
  have readers := Clears.readers held
  have locals := Activation.ownsAll_locals owns
  cases selector with
  | part index =>
      exact @Clears.exchanged _ _ _ _ (.replaceField container index value) _ _ (fun _ _ => rfl) (Region.ownsAll_append.mpr ⟨whole, own⟩)
  | element key kind =>
      refine readers.next (expectKind_reads readers _ _) fun _ _ _ grown _ =>
        readers.next (eval_reads readers serves (locals.mono grown) key) fun key _ _ grown' named => ?_
      have operands : Region.OwnsAll _ (Operation.replace container key value).operands := Region.ownsAll_append.mpr
        ⟨(whole.mono grown).mono grown', Region.ownsAll_append.mpr ⟨named, (own.mono grown).mono grown'⟩⟩
      exact Clears.exchanged (fun _ _ => rfl) operands

end

/-- Each instruction logs what it stores. -/
theorem stepLogging_clears (serves : env.Serves (Clears held)) (sends : env.Sends (Clears held)) (owns : region.OwnsAll act.values)
    {instr : Instr} (among : instr ∈ env.routine.body) : Clears held Flow region state (env.stepLogging act instr) Flow.values := by
  have readers := Clears.readers held
  have locals := Activation.ownsAll_locals owns
  have stored {act : Activation} {region : Region} {first : Running (Logged σ)} (owns : region.OwnsAll act.values) (place : Place) {value : Value}
      (own : region.OwnsAll [value]) : Clears held Flow region first (.next <$> env.storeLogging act place value) Flow.values :=
    readers.map (storeLogging_clears serves owns place own) fun _ => rfl
  have called (result : Continuation) (last : act.lastCall = some result) := (Activation.ownsAll_values.mp owns).2.1 result last
  cases instr with
  | assign dest value =>
      exact readers.next (eval_reads readers serves locals value) fun _ _ _ grown own => stored (owns.mono grown) dest own
  | swap dest source =>
      exact readers.next (load_reads readers serves locals dest) fun _ _ _ grown old =>
        readers.next (load_reads readers serves (locals.mono grown) source) fun _ _ _ grown₁ new =>
          readers.next (storeLogging_clears serves ((owns.mono grown).mono grown₁) dest new) fun _ _ _ grown₂ owns =>
            stored owns source ((old.mono grown₁).mono grown₂)
  | update container selector value =>
      exact readers.next (eval_reads readers serves locals value) fun _ _ _ grown own =>
        readers.next (load_reads readers serves (locals.mono grown) container) fun _ _ _ grown₁ whole =>
          readers.next (replacePartLogging_clears serves ((owns.mono grown).mono grown₁) whole selector (own.mono grown₁))
            fun _ _ _ grown₂ _ => readers.pure (((owns.mono grown).mono grown₁).mono grown₂)
  | exchange container selector source =>
      exact readers.next (load_reads readers serves locals source) fun _ _ _ grown own =>
        readers.next (load_reads readers serves (locals.mono grown) container) fun _ _ _ grown₁ whole =>
          readers.next (replacePartLogging_clears serves ((owns.mono grown).mono grown₁) whole selector (own.mono grown₁))
            fun _ _ _ grown₂ old => stored (((owns.mono grown).mono grown₁).mono grown₂) source old
  | remove container kind key =>
      refine readers.next (eval_reads readers serves locals key) fun key _ _ grown named =>
        readers.next (load_reads readers serves (locals.mono grown) container) fun container _ _ grown₁ whole =>
          readers.next (expectKind_reads readers _ _) fun _ _ _ grown₂ _ => ?_
      have operands := Region.ownsAll_append.mpr ⟨whole.mono grown₂, (named.mono grown₁).mono grown₂⟩
      exact readers.next (readers.discard (.remove container key) (by simp [Operation.perform]) (.operates (fun _ _ => rfl) operands))
        fun _ _ _ last _ => readers.pure ((((owns.mono grown).mono grown₁).mono grown₂).mono last)
  | insert container kind entry =>
      refine readers.next (eval_reads readers serves locals entry) fun entry _ _ grown tuple =>
        readers.next (load_reads readers serves (locals.mono grown) container) fun container _ _ grown₁ whole =>
          readers.next (expectKind_reads readers _ _) fun _ _ _ grown₂ _ => ?_
      have tuple := (tuple.mono grown₁).mono grown₂
      refine readers.next (readers.operate (.field entry 0) rfl tuple) fun key _ _ grown₃ named =>
        readers.next (readers.operate (.field entry 1) rfl (tuple.mono grown₃)) fun value _ _ grown₄ own => ?_
      have operands : Region.OwnsAll _ (Operation.insert container key value).operands := Region.ownsAll_append.mpr
        ⟨((whole.mono grown₂).mono grown₃).mono grown₄, Region.ownsAll_append.mpr ⟨named.mono grown₄, own⟩⟩
      exact readers.next (Clears.stored (fun _ _ => rfl) operands (by simp [Operation.perform]))
        fun _ _ _ grown₅ _ => readers.pure ((((((owns.mono grown).mono grown₁).mono grown₂).mono grown₃).mono grown₄).mono grown₅)
  | collectReturn dest =>
      rcases last : act.lastCall with _ | ⟨value, locals⟩ | reason <;> simp only [stepLogging, last]
      · exact readers.trap _ _
      · refine stored owns dest (Region.ownsAll_cons.mpr ⟨?_, Region.ownsAll_nil⟩)
        cases value with
        | none => exact Region.owns_null
        | some value => exact called _ last value (by simp [Continuation.values])
      · exact readers.trap _ _
  | writeBack dest slot =>
      rcases last : act.lastCall with _ | ⟨value, locals⟩ | reason <;> simp only [stepLogging, last]
      · exact readers.trap _ _
      · split
        next value found =>
            have own : region.Owns value := called _ last _ (by simp [Continuation.values, List.mem_of_getElem? found])
            exact stored owns dest (by simpa using own)
        next => exact readers.trap _ _
      · exact readers.trap _ _
  | readCreated dest =>
      refine readers.actor fun _ => ?_
      split
      · exact readers.next (readers.modifyActor id) fun _ _ _ grown _ => stored (owns.mono grown) dest (by simp)
      · exact readers.trap _ _
  | _ => exact step_calm_reads readers serves sends owns rfl among

theorem runLogging_clears (serves : env.Serves (Clears held)) (sends : env.Sends (Clears held)) (steps : Nat) (owns : region.OwnsAll act.values) :
    Clears held Continuation region state (env.runLogging steps act) Continuation.values := by
  have readers := Clears.readers held
  induction steps generalizing region state act with
  | zero => exact readers.stop nofun
  | succ steps ih =>
      unfold runLogging
      cases here : env.routine.body[act.position]? with
      | none => exact readers.trap _ _
      | some instr =>
          have owned : region.OwnsAll (Activation.values { act with position := act.position + 1 }) := owns
          refine readers.next (stepLogging_clears serves sends owned (List.mem_of_getElem? here)) fun flow _ _ _ own => ?_
          cases flow with
          | next act => exact ih own
          | leave result => exact readers.pure own

end Env

theorem Effect.handsOver_subset (effect : Effect) : effect.handsOver ⊆ effect.values := by
  cases effect with
  | enqueue _ _ _ _ => exact List.Subset.refl _
  | announce _ _ _ | print _ _ => exact List.nil_subset _

namespace RunConfig

variable {config : RunConfig σ}

theorem perform_clears (serves : Custody.Serves held config.handler) {effect : Effect} (owns : region.OwnsAll effect.values) :
    Clears held Unit region state (perform config.logging.handler effect) fun _ => [] := by
  intro clear
  unfold Exec.Ends
  rw [perform_apply]
  have same : config.logging.handler state.heap effect state.outside
      = (config.handler state.heap effect state.outside.1).map (·, state.outside.2) := rfl
  rw [same]
  cases handled : config.handler state.heap effect state.outside.1 with
  | error cause => exact clear.cleared Region.ownsAll_nil
  | ok outside =>
      have less := serves _ _ _ _ handled
      refine Clear.cleared ⟨clear.closed, clear.roots, ?_, clear.loops, clear.straight⟩ Region.ownsAll_nil
      rintro _ member address rfl
      have kept : .cell address ∈ effect.handsOver ++ held state.outside.1 :=
        List.count_pos_iff.mp (Nat.lt_of_lt_of_le (List.count_pos_iff.mpr member) (less address))
      rcases List.mem_append.mp kept with handed | old
      · exact owns _ (effect.handsOver_subset handed) address rfl
      · exact clear.outside _ old address rfl

theorem executeLoggingWithin_clears (served : Custody.Serves held config.handler) (levels : Nat) (function : FunctionId) :
    Clears held Continuation region state (config.logging.executeLoggingWithin levels function) Continuation.values := by
  have readers := Clears.readers held
  induction levels generalizing region state function with
  | zero => exact readers.stop nofun
  | succ levels ih =>
      refine readers.next (enter_reads readers function) fun entered _ _ _ owns => readers.get fun _ => ?_
      split
      · exact readers.stop nofun
      · refine readers.counted fun state => ?_
        have serves : Env.Serves ⟨config.logging.image, entered.1, config.logging.handler, config.logging.executeLoggingWithin levels⟩ (Clears held) :=
          ⟨fun callee _ _ => ih callee, fun _ _ _ _ owns => perform_clears served owns⟩
        exact Env.runLogging_clears serves (fun target event payload act region state _ owns => Env.enqueue_reads readers serves owns
          target event payload fun _ _ _ _ _ _ owns => perform_clears served owns) _ owns

/-- What a run of a function on the top frame stores into containers. -/
def deposits (config : RunConfig σ) (function : FunctionId) (state : Running σ) : List Deposit :=
  match config.executeLogging function state with
  | .ok _ after | .error _ after => after.outside.2

/-- From a state without loops one comes to states without loops, unless a value is stored that leads to its container; and this
closes one. -/
theorem executeLogging_founded (serves : Custody.Serves held config.handler) (function : FunctionId) {state : Running σ}
    (founded : ∀ root ∈ state.actor.roots ++ held state.outside, state.heap.Founded root) :
    Exec.Ends (config.logging.executeLoggingWithin (config.depthLimit + 1) function) state.logging
      (fun result after => (∀ deposit ∈ after.outside.2, deposit.Closes → deposit.Loops) ∧ ((∀ deposit ∈ after.outside.2, ¬deposit.Closes) →
        ∀ root ∈ result.values ++ (after.actor.roots ++ held after.outside.1), after.heap.Founded root))
      fun _ after => (∀ deposit ∈ after.outside.2, deposit.Closes → deposit.Loops) ∧ ((∀ deposit ∈ after.outside.2, ¬deposit.Closes) →
        ∀ root ∈ after.actor.roots ++ held after.outside.1, after.heap.Founded root) := by
  obtain ⟨roots, outside⟩ := Region.ownsAll_append.mp (state.heap.owns_reachOf (state.actor.roots ++ held state.outside))
  have clear : state.logging.Clear held (state.heap.reachOf (state.actor.roots ++ held state.outside)) := by
    refine ⟨Heap.closed_reachOf ?_, roots, outside, nofun, fun _ => ?_⟩
    · rintro address ⟨root, member, leads⟩
      exact (founded root member).allocated address leads
    · rintro address ⟨root, member, leads⟩
      exact (founded root member).of_leads leads
  refine (executeLoggingWithin_clears serves _ function clear).weaken ?_ ?_
  · rintro result after ⟨more, _, clear, owns⟩
    refine ⟨clear.loops, fun opens root member => ?_⟩
    have owned := Region.ownsAll_append.mpr ⟨owns, Region.ownsAll_append.mpr ⟨clear.roots, clear.outside⟩⟩
    exact (clear.straight opens).owned (owned root member)
  · rintro stop after ⟨more, _, clear, _⟩
    refine ⟨clear.loops, fun opens root member => ?_⟩
    have owned := Region.ownsAll_append.mpr ⟨clear.roots, clear.outside⟩
    exact (clear.straight opens).owned (owned root member)

end RunConfig

end Reentry
