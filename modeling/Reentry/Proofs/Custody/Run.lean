import Reentry.Proofs.Custody.Film
import Reentry.Proofs.Custody.Step
import Reentry.Proofs.Execution.Moves

/-!
Whole runs look after the cells in hand: at each moment, and right before each change of a cell, all is well with what
the actor, the calls that run and the surroundings hold.
-/

namespace Reentry

variable {σ : Type}

/-- What there is to come by at a moment. -/
def Moment.roots (kept : σ → List Value) (moment : Moment σ) : List Value :=
  moment.locals ++ (moment.actor.roots ++ kept moment.outside)

namespace Custody

variable (custody : Custody) (kept : σ → List Value)

/-- All is well with what there is to come by at the moment. -/
def Minds (moment : Moment σ) : Prop := custody.keeps moment.heap ⟨[], moment.roots kept⟩

/-- At each moment of the film all is well, and a change is one of a single cell. -/
structure Shows (film : Film σ) : Prop where
  moments : ∀ moment ∈ film.moments, custody.Minds kept moment
  changes : ∀ change ∈ film.changes, custody.Minds kept change.before ∧
    ∃ address first, change.container = .cell address ∧
      change.before.heap.Alters address (Heap.Touches change.onward first) change.after

theorem Shows.empty : custody.Shows kept .empty := ⟨by simp [Film.empty], by simp [Film.empty]⟩

/-- What is named may be named once more, or else no event is a cell. -/
def Calls (film : Film σ) : Prop := custody.shares = true ∨ ∀ event ∈ film.raised, ∀ address, event ≠ .cell address

/-- Runs under custody that are filmed. -/
def household : Household (Filmed σ) where
  toCustody := custody
  kept outside := kept outside.1
  supposes outside := custody.Calls outside.2
  sound outside := custody.Shows kept outside.2

/-- Effects add to the surroundings at most what they hand over. -/
def Serves (handler : Handler σ) : Prop :=
  ∀ heap effect outside after, handler heap effect outside = .ok after → Fewer (kept after) (effect.handsOver ++ kept outside)

theorem Serves.filmed {custody : Custody} {kept : σ → List Value} {handler : Handler σ} (serves : Serves kept handler) :
    (custody.household kept).Served handler.filmed := by
  intro heap effect outside after handled
  unfold Handler.filmed at handled
  cases ran : handler heap effect outside.1 with
  | error cause =>
      rw [ran] at handled
      cases handled
  | ok plain =>
      rw [ran] at handled
      cases handled
      exact ⟨id, id, serves heap effect outside.1 plain ran⟩

end Custody

open Exec

variable {custody : Custody} {kept : σ → List Value} {base : List Value} {spent : Stake} {state : Running (Filmed σ)} {rest : Stake}

theorem Household.Holds.minds (holds : (custody.household kept).Holds (spent ++ (⟨[], base⟩ ++ rest)) state)
    (supposed : custody.Calls state.film) : custody.Minds kept (state.moment base) := by
  refine custody.less (holds supposed).1 ⟨.nil _, fun address => ?_⟩
  simp only [Moment.roots, Running.moment, Custody.household, Household.within, Stake.own_append, Stake.lent_append,
    List.count_append, List.count_nil]
  omega

namespace Exec.Plants

theorem shoot : Plants (custody.household kept) base spent (Exec.shoot base) fun _ => spent := by
  intro state rest holds supposed
  have fine := holds.minds supposed
  obtain ⟨keeps, shows⟩ := holds supposed
  refine ⟨keeps, ⟨fun moment member => ?_, shows.changes⟩⟩
  rcases List.mem_append.mp member with old | new
  · exact shows.moments moment old
  · rwa [List.mem_singleton.mp new]

/-- Only values in hand that nothing else names go into a cell. -/
theorem change (aimed : Aimed) : Plants (custody.household kept) base ⟨aimed.spent, []⟩ (Exec.change base aimed) fun _ => .none := by
  intro state rest holds
  have looked : (MonadState.get : Exec (Filmed σ) (Running (Filmed σ))) state = .ok state state := rfl
  refine Ends.after looked ?_
  have writes : Plants (custody.household kept) base ⟨aimed.spent, []⟩ (Exec.ofValueOp aimed.write) fun _ => .none :=
    ofValueOp aimed.plants
  have written := writes state rest holds
  unfold Ends at written ⊢
  rw [ofValueOp_apply] at written
  rw [bind_apply, ofValueOp_apply]
  cases ran : aimed.write.run state.heap with
  | error error =>
      rw [ran] at written
      exact written
  | ok pair =>
      rw [ran] at written
      intro supposed
      obtain ⟨keeps, _⟩ := written supposed
      have shows := (holds supposed).2
      refine ⟨keeps, shows.moments, fun other member => ?_⟩
      rcases List.mem_append.mp member with old | new
      · exact shows.changes other old
      · rw [List.mem_singleton.mp new]
        exact ⟨holds.minds supposed, aimed.alters state.heap _ _ ran⟩

/-- The event takes the place of the one before, and is no cell unless it may be named once more. -/
theorem raise (owned : Bool) (event : Value) :
    Plants (custody.household kept) base (.of custody.shares owned [event]) (Exec.raise event) fun _ => .none := by
  intro state rest holds supposed
  have before : custody.Calls state.film := supposed.imp id fun scalar other member => scalar other (List.mem_append_left _ member)
  obtain ⟨keeps, shows⟩ := holds before
  refine ⟨custody.less keeps ?_, shows.moments, shows.changes⟩
  have less : (⟨[], [event]⟩ : Stake).Less (.of custody.shares owned [event]) := by
    rcases supposed with shared | scalar
    · exact Stake.lent_less (.inl shared) _
    · exact .trans (.ofLent (.scalar (scalar event (List.mem_append_right _ (List.mem_singleton.mpr rfl))) [])) (.none _)
  refine ⟨fun address => ?_, fun address => ?_⟩
  · have own := less.own address
    simp only [Household.within, Stake.own_append, Stake.own_none, List.count_append, List.count_nil] at own ⊢
    omega
  · have all := less.all address
    simp only [Household.within, Custody.household, Running.withFilm, Actor.roots, Stake.own_append, Stake.lent_append, Stake.own_none, Stake.lent_none,
      List.count_append, List.count_cons, List.count_nil] at all ⊢
    omega

end Exec.Plants

namespace Env

variable {env : Env (Filmed σ)} {callers : List Value} {act : Activation}

theorem stepFilming_spends (tended : env.Tended (custody.household kept) (act.locals ++ callers)) (collected : env.routine.Collected)
    {instr : Instr} (fair : instr.Fair custody.shares) (calm : instr.isReturning = false → env.routine.awaits act.position = false) :
    Spends (custody.household kept) (act.locals ++ callers) (act.due instr.isAwaiting) (env.stepFilming callers act instr)
      fun (flow : Flow) => flow.stake env.routine ++ ⟨[], callers⟩ := by
  unfold stepFilming
  split
  next work aimed =>
    have quiet : env.routine.awaits act.position = false := calm (by cases instr <;> first | rfl | cases aimed)
    exact .next (aim_plants tended (fun _ member => List.mem_append_left _ member) fair aimed) fun aimed =>
      .next ((Plants.change aimed).frame _) fun _ => going_spends quiet (.refl _)
  next aimed =>
    split
    next event raises =>
      obtain rfl : instr = .assign .trigger event := by
        cases instr <;> try cases raises
        next dest _ => cases dest <;> cases raises; rfl
      exact .bind (eval_plants tended (fun _ member => List.mem_append_left _ member) event fair.2.1) fun value =>
        .next ((Plants.raise event.isOwned value).frame _) fun _ => going_spends (calm rfl) (.refl _)
    next raises => exact step_spends tended collected fair calm raises aimed

/-- A call looks after the cells in hand until it leaves. -/
theorem runFilming_spends {env : List Value → Env (Filmed σ)} {routine : Routine} (same : ∀ locals, (env locals).routine = routine)
    (tended : ∀ locals, (env locals).Tended (custody.household kept) locals) (collected : routine.Collected)
    (fair : ∀ instr ∈ routine.body, instr.Fair custody.shares) (steps : Nat) :
    Spends (custody.household kept) (act.locals ++ callers) (act.due (routine.awaits act.position)) (runFilming env callers steps act)
      fun result => result.stake ++ ⟨[], callers⟩ := by
  induction steps generalizing act with
  | zero => exact fun state rest holds => holds.rest.rest
  | succ steps ih =>
      refine .next .shoot fun _ => ?_
      rw [same]
      split
      next => exact .fail
      next instr here =>
        have awaits : routine.awaits act.position = instr.isAwaiting := by rw [Routine.awaits, here]; rfl
        rw [awaits]
        have calm := collected.behind act.position instr here
        rw [← same (act.locals ++ callers)] at collected calm
        have stepped := @stepFilming_spends _ _ _ (env (act.locals ++ callers)) callers { act with position := act.position + 1 }
          (tended (act.locals ++ callers)) collected instr (fair instr (List.mem_of_getElem? here)) calm
        refine @Spends.chain _ _ _ _ _ _ _ _ _ _
          (fun flow => flow.locals ++ callers) (fun flow => flow.due routine) stepped (fun flow => ?_) fun flow _ _ _ => ?_
        · rw [same]
          refine ⟨fun address => ?_, fun address => ?_⟩ <;>
            simp only [Flow.stake, Stake.own_append, Stake.lent_append, List.count_append, List.count_nil] <;> omega
        · cases flow with
          | next after => exact ih
          | leave result => exact .pure (.refl _)

end Env

/-- What is found in a place is only packed, handed over or stored where it may be named once more, and what calls return is
taken up right behind them. -/
def Image.Fair (shares : Bool) (image : Image) : Prop :=
  ∀ function routine, image.routine? function = some routine → routine.Collected ∧ ∀ instr ∈ routine.body, instr.Fair shares

namespace RunConfig

/-- The locals of the frame that is entered were held by the actor. -/
theorem enter_plants {house : Household σ} {config : RunConfig σ} (function : FunctionId) :
    Plants house base .none (config.enter function) fun entered => ⟨[], entered.2.locals⟩ ++ entered.2.due true := by
  unfold enter
  cases config.image.routine? function with
  | none => exact .actor fun _ => .fail
  | some routine =>
      have popped : Plants house base .none (popFrame routine) fun frame => ⟨[], frame.locals⟩ := by
        intro state rest holds
        refine Exec.Ends.after (show Exec.actor state = .ok state.actor state from rfl) ?_
        cases above : state.actor.stack with
        | nil => exact .fail holds.rest.rest
        | cons frame below =>
            refine holds.stay rfl fun keeps => house.less keeps ⟨.refl _, fun address => ?_⟩
            simp only [Household.within, Actor.roots, above, Stake.none_append, Stake.own_append, Stake.lent_append,
              List.flatMap_cons, List.count_append, List.count_nil]
            omega
      refine .next popped fun frame => .actor fun actor => ?_
      split
      · exact .fail
      split
      · exact .fail
      split
      · exact .fail
      split
      · exact .fail
      dsimp only
      split
      · exact .fail
      · exact .pure ⟨.refl _, fun address => by simp [Activation.due, Activation.returned]⟩

variable {config : RunConfig σ}

theorem executeFilmingWithin_plants (serves : Custody.Serves kept config.handler) (fair : config.image.Fair custody.shares)
    (levels : Nat) (callers : List Value) (function : FunctionId) :
    Plants (custody.household kept) callers .none (config.filmed.executeFilmingWithin levels callers function) Continuation.stake := by
  induction levels generalizing callers function with
  | zero => exact .throw
  | succ levels ih =>
      intro state rest holds
      have planted := @enter_plants _ _ _ config.filmed function state rest holds
      have enters := config.filmed.enter_enters function state
      rw [executeFilmingWithin]
      unfold Exec.Ends at planted ⊢
      rw [bind_apply]
      cases entering : config.filmed.enter function state with
      | error stop after =>
          rw [entering] at planted
          exact planted
      | ok entered after =>
          rw [entering] at planted
          obtain ⟨routine, act⟩ := entered
          obtain ⟨collected, fair⟩ := fair function routine (enters.ok entering).found
          change Exec.Ends (if config.depthLimit ≤ after.depth then _ else _) after _ _
          split
          · exact .fail planted.rest.rest
          · have runs := @Env.runFilming_spends _ custody kept callers act
              (fun locals => ⟨config.image, routine, config.filmed.handler, config.filmed.executeFilmingWithin levels locals⟩)
              routine (fun _ => rfl) (fun locals => ⟨serves.filmed, ih locals⟩) collected fair config.steps
            have held : (custody.household kept).Holds (act.due (routine.awaits act.position) ++ (⟨[], act.locals ++ callers⟩ ++ rest))
                { after with depth := after.depth + 1 } := by
              have entered : (custody.household kept).Holds (⟨[], act.locals⟩ ++ act.due true ++ (⟨[], callers⟩ ++ rest)) after := planted
              refine Household.Holds.less entered ?_
              refine (Stake.Less.append (act.due_most _) (.refl _)).trans ⟨fun address => ?_, fun address => ?_⟩ <;>
                simp only [Stake.own_append, Stake.lent_append, List.count_append, List.count_nil] <;> omega
            refine (runs _ rest held).counted (fun result after holds => ?_) fun _ _ holds => holds
            have left : (custody.household kept).Holds (result.stake ++ ⟨[], callers⟩ ++ rest) after := holds
            refine left.less ⟨fun address => ?_, fun address => ?_⟩ <;>
              simp only [Stake.own_append, Stake.lent_append, List.count_append, List.count_nil] <;> omega

/-- A filmed run: at each moment all is well, and afterwards it still is. -/
theorem executeFilming_ends (serves : Custody.Serves kept config.handler) (fair : config.image.Fair custody.shares)
    (function : FunctionId) {state : Running σ} {rest : Stake}
    (keeps : custody.keeps state.heap ⟨rest.own, rest.lent ++ (state.actor.roots ++ kept state.outside)⟩) :
    Exec.Ends (config.filmed.executeFilmingWithin (config.depthLimit + 1) [] function) state.filmed
      (fun result after => (custody.household kept).Holds (result.stake ++ rest) after) fun _ after => (custody.household kept).Holds rest after :=
  executeFilmingWithin_plants serves fair (config.depthLimit + 1) [] function state.filmed rest fun _ => ⟨keeps, .empty custody kept⟩

end RunConfig

end Reentry
