import Reentry.Proofs.Frames.Deserted
import Reentry.Proofs.Inputs.Awaited
import Reentry.Proofs.Inputs.Spent

/-!
Executions that find no input. If the frames on the stack wait for an input that has not been supplied, entering them
leads to the instruction that misses it and nowhere else.
-/

namespace Reentry

open Exec

variable {σ : Type}

/-- Why a run fails that finds no input. Frames may be too many to be entered at all, and an execution may have fewer steps
than it takes to get to the instruction. -/
inductive RunConfig.Starves (config : RunConfig σ) (state : Running σ) : Stop → Prop
  | internal {routine trap} : Starves config state (.failed (.internal routine trap))
  | tooDeep (deep : config.depthLimit < state.depth + state.actor.stack.length) :
      Starves config state (.failed (.callDepthExceeded config.depthLimit))
  | outOfSteps (few : config.steps < 2) : Starves config state .outOfSteps

namespace Env

variable {env : Env σ} {act : Activation} {state : Running σ}

/-- An instruction that finds no input fails, and changes nothing. -/
theorem step_starves {instr : Instr} {input : Input} (takes : instr.input? = some input) (missing : input.find? state.actor = none) :
    ∃ routine trap, env.step act instr state = .error (.failed (.internal routine trap)) state := by
  have read : actor state = .ok state.actor state := rfl
  have looked : (get : Exec σ _) state = .ok state state := rfl
  cases instr with
  | recordChoice number =>
      obtain rfl := Option.some.inj takes
      have empty : state.actor.resume.nondet = none := Option.map_eq_none_iff.mp missing
      refine ⟨env.routine.name, .noChoice, ?_⟩
      simp only [step]
      rw [bind_of_ok read, empty]
      rfl
  | readCreated dest =>
      obtain rfl := Option.some.inj takes
      have empty : state.actor.resume.created = none := Option.map_eq_none_iff.mp missing
      refine ⟨env.routine.name, .noInstance, ?_⟩
      simp only [step]
      rw [bind_of_ok read, empty]
      rfl
  | dispatchReceive arms =>
      obtain rfl := Option.some.inj takes
      rw [Input.find?_event] at missing
      have refused : ∃ trap, env.dispatchReceive arms state = .error (.failed (.internal env.routine.name trap)) state := by
        unfold dispatchReceive
        rw [bind_of_ok read]
        generalize arms.filter (·.event.accepts state.actor.trigger) = picked at missing
        rcases picked with _ | ⟨arm, _ | ⟨other, more⟩⟩
        · exact ⟨_, bind_of_ok looked⟩
        · cases missing
        · exact ⟨_, bind_of_ok looked⟩
      obtain ⟨trap, refused⟩ := refused
      exact ⟨env.routine.name, trap, bind_of_error refused⟩
  | _ => cases takes

end Env

namespace RunConfig

variable {config : RunConfig σ}

/-- A frame that finds no input does nothing but go past its label, and perhaps enter the frames below. -/
theorem run_starves (env : Env σ) {reason : Stop → Prop} {act : Activation} {landing : LabelId} {state : Running σ}
    (label : env.routine.body[act.position]? = some (.label landing)) {instr : Instr}
    (behind : env.routine.body[act.position + 1]? = some instr) (few : config.steps < 2 → reason .outOfSteps)
    (fails : ∀ act, Breaks reason (env.step act instr) state) : Breaks reason (env.run config.steps act) state := by
  match steps : config.steps with
  | 0 => exact .of_error state.actor.stack (few (by omega)) rfl
  | 1 =>
      rw [Env.run_succ, Env.move_of_getElem? label]
      exact .of_error state.actor.stack (few (by omega)) rfl
  | count + 2 =>
      rw [Env.run_succ, Env.move_of_getElem? label]
      have next : env.step { act with position := act.position + 1 } (.label landing) state =
          .ok (.next { act with position := act.position + 1 }) (state.restack state.actor.stack) := rfl
      refine .after _ next ?_
      change Breaks reason (env.run (count + 1) { act with position := act.position + 1 }) state
      rw [Env.run_succ, Env.move_of_getElem? behind]
      exact .bind (fails _)

/-- An execution that finds no input carries nothing out. -/
theorem executeWithin_starves (prompt : config.image.IsPrompt) {levels : Nat} (positive : 0 < levels) {function : FunctionId}
    {state : Running σ} {input : Input} (deep : config.depthLimit < levels + state.depth)
    (awaits : config.image.awaits state.actor.stack = some input) (missing : input.find? state.actor = none) :
    Breaks (config.Starves state) (config.executeWithin levels function) state := by
  induction levels generalizing function state with
  | zero => cases positive
  | succ levels ih =>
      have entering := @enter_finds _ config function state
      unfold Ends at entering
      cases entered : config.enter function state with
      | error stop after =>
          rw [entered] at entering
          obtain ⟨⟨routine, trap, rfl, _⟩, stack, rfl⟩ := entering
          exact .bind (.of_error stack .internal entered)
      | ok found middle =>
          rw [entered] at entering
          obtain ⟨frame, below, position, above, rfl, known, entry, enters, rfl⟩ := entering
          obtain ⟨routine, act⟩ := found
          obtain rfl : act = _ := enters
          rw [above] at awaits
          obtain ⟨place, instr, leads, behind, takes⟩ := Image.awaits_eq_some known awaits
          obtain rfl := Option.some.inj (entry.symm.trans (Routine.entrance?_of_landing? leads))
          have label := (prompt frame.function routine known).2.labels _ _ leads
          have taller : state.actor.stack.length = below.length + 1 := by rw [above]; rfl
          refine .after below entered (.after below rfl ?_)
          dsimp only
          split
          next tooDeep =>
            have reached : config.depthLimit ≤ state.depth := tooDeep
            exact .of_error below (.tooDeep (by omega)) rfl
          next shallow =>
            have fits : ¬ config.depthLimit ≤ state.depth := shallow
            let env : Env σ := ⟨config.image, routine, config.handler, config.executeWithin levels⟩
            let entered : Running σ := ⟨state.heap, { state.actor with stack := below }, state.outside, state.depth + 1⟩
            have missing' : input.find? entered.actor = none := (input.find?_restack _ _).trans missing
            refine .counted (config.run_starves env label behind .outOfSteps fun act => ?_)
            change Breaks (config.Starves state) (env.step act instr) entered
            rcases takes with takes | ⟨callee, rfl, awaits⟩
            · obtain ⟨_, _, fails⟩ := env.step_starves takes missing'
              exact .of_error below .internal fails
            · have inner := @ih (by omega) callee entered (by change config.depthLimit < levels + (state.depth + 1); omega) awaits missing'
              refine .bind (inner.weaken ?_)
              rintro stop (_ | deep | few)
              · exact .internal
              · exact .tooDeep (by change config.depthLimit < state.depth + 1 + below.length at deep; omega)
              · exact .outOfSteps few

end RunConfig

end Reentry

/-!
Inputs are taken once. The answers of the scheduler lie in registers of the actor, which the scheduler may fill at any time
and an execution empties when it takes what is in them; so whatever is taken from a register has been put there after
anything was last taken from it. The event that arrived lies in registers too, but is not used up: a receive dispatches on
the event that is being handled.
-/

namespace Reentry

open Exec

variable {σ : Type}

/-- What happens to the answers of an actor: the scheduler sets a register, or an execution takes an input. -/
inductive Happening where
  | choose (choice : Option Bool)
  | create (created : Option MachineId)
  | took (taken : Taken)

namespace Happening

/-- Whether the register of the choice is set, or emptied by taking the choice. -/
def concernsChoice : Happening → Bool
  | .choose _ | .took (.choice _) => true
  | _ => false

/-- Whether the register of the instance is set, or emptied by taking the instance. -/
def concernsMachine : Happening → Bool
  | .create _ | .took (.machine _) => true
  | _ => false

end Happening

/-- In the course of what has happened an answer has been supplied, and since then its register has not been set again,
nor has anything been taken from it. Events are no answers. -/
def Taken.Supplied : Taken → List Happening → Prop
  | .choice chosen, past => ∃ earlier later, past = earlier ++ .choose (some chosen) :: later ∧
      ∀ happening ∈ later, happening.concernsChoice = false
  | .machine created, past => ∃ earlier later, past = earlier ++ .create (some created) :: later ∧
      ∀ happening ∈ later, happening.concernsMachine = false
  | .event _ _, _ => True

namespace Taken.Supplied

variable {chosen : Bool} {created : MachineId} {past : List Happening} {happening : Happening}

theorem choice_append (supplied : (Taken.choice chosen).Supplied past) (other : happening.concernsChoice = false) :
    (Taken.choice chosen).Supplied (past ++ [happening]) := by
  obtain ⟨earlier, later, rfl, quiet⟩ := supplied
  refine ⟨earlier, later ++ [happening], by simp, fun each member => ?_⟩
  rcases List.mem_append.mp member with old | new
  · exact quiet each old
  · rw [List.mem_singleton.mp new]
    exact other

theorem machine_append (supplied : (Taken.machine created).Supplied past) (other : happening.concernsMachine = false) :
    (Taken.machine created).Supplied (past ++ [happening]) := by
  obtain ⟨earlier, later, rfl, quiet⟩ := supplied
  refine ⟨earlier, later ++ [happening], by simp, fun each member => ?_⟩
  rcases List.mem_append.mp member with old | new
  · exact quiet each old
  · rw [List.mem_singleton.mp new]
    exact other

end Taken.Supplied

/-- What has been taken, and what lies in the registers, has been supplied. -/
structure Accounted (past : List Happening) (resume : ResumeInput) : Prop where
  took : ∀ before taken after, past = before ++ .took taken :: after → taken.Supplied before
  choice : ∀ chosen, resume.nondet = some chosen → (Taken.choice chosen).Supplied past
  machine : ∀ created, resume.created = some created → (Taken.machine created).Supplied past

namespace RunConfig

variable (config : RunConfig σ)

/-- An actor may come to this state while this has happened to its answers. What else happens to it or outside does not
matter, and executions may fail. -/
inductive Reaches : List Happening → Running σ → Prop
  | fresh {state} (empty : state.actor.resume = ⟨none, none⟩) : Reaches [] state
  | choose {past state} (reached : Reaches past state) (choice : Option Bool) : Reaches (past ++ [.choose choice])
      { state with actor := { state.actor with resume := { state.actor.resume with nondet := choice } } }
  | create {past state} (reached : Reaches past state) (created : Option MachineId) : Reaches (past ++ [.create created])
      { state with actor := { state.actor with resume := { state.actor.resume with created } } }
  | other {past state after} (reached : Reaches past state) (same : after.actor.resume = state.actor.resume) : Reaches past after
  | execute {past state function result after} (reached : Reaches past state)
      (ran : config.executeBooking function state = .ok result after) : Reaches (past ++ after.ledger.map .took) (after.through Prod.fst)
  | fail {past state function stop after} (reached : Reaches past state)
      (ran : config.executeBooking function state = .error stop after) : Reaches (past ++ after.ledger.map .took) (after.through Prod.fst)

end RunConfig

namespace Accounted

variable {past : List Happening} {resume : ResumeInput}

theorem of_append {happening : Happening} {changed : ResumeInput} (accounted : Accounted past resume)
    (took : ∀ taken, happening = .took taken → taken.Supplied past)
    (choice : ∀ chosen, changed.nondet = some chosen → (Taken.choice chosen).Supplied (past ++ [happening]))
    (machine : ∀ created, changed.created = some created → (Taken.machine created).Supplied (past ++ [happening])) :
    Accounted (past ++ [happening]) changed := by
  refine ⟨fun before taken after same => ?_, choice, machine⟩
  rcases List.eq_nil_or_concat after with rfl | ⟨others, last, rfl⟩
  · obtain ⟨rfl, last⟩ := List.append_inj' same rfl
    exact took taken (List.cons.inj last).1
  · have split : past ++ [happening] = (before ++ .took taken :: others) ++ [last] := by simpa using same
    exact accounted.took before taken others (List.append_inj' split rfl).1

theorem nil : Accounted [] ⟨none, none⟩ := ⟨by simp, nofun, nofun⟩

theorem choose (accounted : Accounted past resume) (choice : Option Bool) :
    Accounted (past ++ [.choose choice]) { resume with nondet := choice } := by
  refine accounted.of_append nofun ?_ fun created held => (accounted.machine created held).machine_append rfl
  rintro chosen rfl
  exact ⟨past, [], rfl, nofun⟩

theorem create (accounted : Accounted past resume) (created : Option MachineId) :
    Accounted (past ++ [.create created]) { resume with created } := by
  refine accounted.of_append nofun (fun chosen held => (accounted.choice chosen held).choice_append rfl) ?_
  rintro machine rfl
  exact ⟨past, [], rfl, nofun⟩

/-- What is found has been supplied, and is gone when it has been taken. -/
theorem take {actor : Actor} {input : Input} {taken : Taken} (accounted : Accounted past actor.resume)
    (found : input.find? actor = some taken) : Accounted (past ++ [.took taken]) (taken.spend actor.resume) := by
  have kept (other : (Happening.took taken).concernsChoice = false) (chosen : Bool) (held : actor.resume.nondet = some chosen) :
      (Taken.choice chosen).Supplied (past ++ [.took taken]) := (accounted.choice chosen held).choice_append other
  have kept' (other : (Happening.took taken).concernsMachine = false) (created : MachineId)
      (held : actor.resume.created = some created) : (Taken.machine created).Supplied (past ++ [.took taken]) :=
    (accounted.machine created held).machine_append other
  cases input with
  | choice =>
      obtain ⟨chosen, held, rfl⟩ := Option.map_eq_some_iff.mp found
      refine accounted.of_append ?_ nofun (kept' rfl)
      rintro _ ⟨⟩
      exact accounted.choice chosen held
  | machine =>
      obtain ⟨created, held, rfl⟩ := Option.map_eq_some_iff.mp found
      refine accounted.of_append ?_ (kept rfl) nofun
      rintro _ ⟨⟩
      exact accounted.machine created held
  | event events =>
      unfold Input.find? at found
      dsimp only at found
      split at found
      · cases found
        refine accounted.of_append ?_ (kept rfl) (kept' rfl)
        rintro _ ⟨⟩
        trivial
      · cases found

end Accounted

namespace Running

/-- What an execution does to the inputs whose frames wait for this one: it takes it, as it was found at first, and leaves
the rest of the answers as they were. One that waits for none takes none, and puts none in the place of another. -/
def Uses : Option Input → Running σ → Running (Booked σ) → Prop
  | some input, before, after => ∃ taken, input.find? before.actor = some taken ∧
      after.actor.resume = taken.spend before.actor.resume ∧ after.ledger = [taken]
  | none, before, after => after.ledger = [] ∧ after.actor.resume.nondet = before.actor.resume.nondet ∧
      (after.actor.resume.created = before.actor.resume.created ∨ after.actor.resume.created = none)

variable {input : Option Input} {before : Running σ} {after : Running (Booked σ)}

theorem Spends.uses (spends : before.booked.Spends input after) : before.Uses input after := by
  cases input with
  | none =>
      obtain ⟨resume, ledger⟩ := spends
      exact ⟨ledger, by rw [resume]; rfl, .inl (by rw [resume]; rfl)⟩
  | some input => exact spends

theorem SpendsAtMost.uses (spends : before.booked.SpendsAtMost input after) : before.Uses none after ∨ before.Uses input after :=
  spends.imp (@Spends.uses _ none _ _) Spends.uses

theorem Spends.accounted {past : List Happening} (accounted : Accounted past before.actor.resume)
    (spends : before.booked.Spends input after) : Accounted (past ++ after.ledger.map .took) after.actor.resume := by
  cases input with
  | none =>
      obtain ⟨resume, ledger⟩ := spends
      rw [resume, ledger]
      change Accounted (past ++ []) before.actor.resume
      rw [List.append_nil]
      exact accounted
  | some input =>
      obtain ⟨taken, found, resume, ledger⟩ := spends
      rw [resume, ledger]
      exact accounted.take found

theorem SpendsAtMost.accounted {past : List Happening} (accounted : Accounted past before.actor.resume)
    (spends : before.booked.SpendsAtMost input after) : Accounted (past ++ after.ledger.map .took) after.actor.resume :=
  spends.elim (@Spends.accounted _ none _ _ _ accounted) (Spends.accounted accounted)

end Running

namespace RunConfig

variable {config : RunConfig σ} {past : List Happening} {state : Running σ}

/-- Whatever happens to an actor, its answers are accounted for. -/
theorem Reaches.accounted (prompt : config.image.IsPrompt) (reached : config.Reaches past state) : Accounted past state.actor.resume := by
  induction reached with
  | fresh empty => exact empty ▸ .nil
  | choose _ choice ih => exact ih.choose choice
  | create _ created ih => exact ih.create created
  | other _ same ih => exact same ▸ ih
  | @execute past state function result after _ ran ih =>
      exact (((executeBookingWithin_spends prompt _ function state.booked).ok ran).1).accounted ih
  | @fail past state function stop after _ ran ih =>
      exact ((executeBookingWithin_spends prompt _ function state.booked).error ran).accounted ih

/-- What an execution has taken can be told, though it does not keep a ledger. -/
theorem Reaches.executed {function : FunctionId} {result : Continuation} {after : Running σ} (reached : config.Reaches past state)
    (ran : config.execute function state = .ok result after) : ∃ taken : List Taken, config.Reaches (past ++ taken.map .took) after := by
  rw [← config.executeBooking_seen] at ran
  cases booking : config.executeBooking function state with
  | error stop booked =>
      rw [booking] at ran
      cases ran
  | ok other booked =>
      rw [booking] at ran
      cases ran
      exact ⟨booked.ledger, .execute reached booking⟩

end RunConfig

/-- Whatever an execution takes has been supplied since anything was last taken from its register. An execution takes the
input for which the frames wait that it enters: what a choice or an instance waits for is gone then, and what a receive waits
for is the event that is being handled. No other input is taken, and a suspended call waits for the input that it has asked
for. If that is missing when the frames are entered again, the execution fails there and does nothing. -/
theorem Program.inputs_are_taken_once {program : Program} {options : LowerOptions} {config : RunConfig σ}
    (accepted : program.lower options = .ok config.image) {past : List Happening} {state : Running σ}
    (reached : config.Reaches past state) (function : FunctionId) :
    Accounted past state.actor.resume ∧
      seen Prod.fst (config.executeBooking function state) = config.execute function state ∧
      (∀ result after, config.executeBooking function state = .ok result after →
        state.Uses (config.image.awaits state.actor.stack) after ∧ config.image.Promises result after.actor.stack) ∧
      (∀ stop after, config.executeBooking function state = .error stop after →
        state.Uses none after ∨ state.Uses (config.image.awaits state.actor.stack) after) ∧
      ∀ input, config.image.awaits state.actor.stack = some input → input.find? state.actor = none →
        Breaks (config.Starves state) (config.execute function) state := by
  have prompt := lower_prompt accepted
  have spends := config.executeBookingWithin_spends prompt (config.depthLimit + 1) function state.booked
  refine ⟨reached.accounted prompt, config.executeBooking_seen function state, fun result after ran => ?_, fun stop after ran => ?_,
    fun input awaits missing => ?_⟩
  · obtain ⟨spent, promises⟩ := spends.ok ran
    exact ⟨spent.uses, promises⟩
  · exact (spends.error ran).uses
  · exact RunConfig.executeWithin_starves prompt (Nat.succ_pos _) (by omega) awaits missing

/-! A doorman who answers two knocks, decides whether to open, and lets somebody in. -/

namespace Sample

def greet : FunctionInfo where
  name := "greet"
  params := []
  locals := []
  returnType := none
  slotCount := 0
  owner := none
  types := .empty
  body := node (.block [])

def attend : FunctionInfo where
  name := "attend"
  params := []
  locals := [⟨"open", 0, .bool⟩, ⟨"guest", 1, .machine⟩]
  returnType := none
  slotCount := 2
  owner := none
  types := .empty
  body := node (.block [
    node (.receive [⟨.event ⟨0⟩, ⟨0⟩⟩]),
    node (.receive [⟨.event ⟨0⟩, ⟨0⟩⟩]),
    node (.assign (node (.name (.slot 0))) (node (.nondet false)) .none),
    node (.new ⟨0⟩ none (some (node (.name (.slot 1)))))])

def door : Program := ⟨"door.p", [greet, attend], [⟨"Doorman", [], []⟩], [⟨"knock"⟩]⟩

def doorkeeping : RunConfig Unit := ⟨(door.lower {}).toOption.getD ⟨"", [], [], []⟩, fun _ _ _ => .ok (), 3, 100⟩

/-- A doorman who is about to attend, with these answers in his registers. There has been a knock. -/
def doorman (resume : ResumeInput) : Running Unit :=
  ⟨.empty, ⟨⟨0⟩, ⟨0⟩, "Doorman", [], .event ⟨0⟩, .null, none, [], resume, [.atStart ⟨1⟩ [.bool false, .null]]⟩, (), 0⟩

end Sample

theorem Sample.door_accepted : Sample.door.lower {} = .ok Sample.doorkeeping.image := by
  have accepts : (Sample.door.lower {}).toOption.isSome := by decide +kernel
  unfold doorkeeping
  cases lowered : Sample.door.lower {} with
  | error cause =>
      rw [lowered] at accepts
      cases accepts
  | ok image => rfl

open Sample in
/-- The doorman goes on whenever he is executed, though nothing is supplied after he has been suspended: there was one knock
at first, and the registers were filled then. -/
theorem doorman_goes_on : door.lower {} = .ok doorkeeping.image ∧ ∃ first second third fourth last,
    doorkeeping.execute ⟨1⟩ (doorman ⟨some true, some ⟨7⟩⟩) = .ok (.suspended .receive) first ∧
    doorkeeping.execute ⟨1⟩ first = .ok (.suspended .receive) second ∧
    doorkeeping.execute ⟨1⟩ second = .ok (.suspended .nondet) third ∧
    doorkeeping.execute ⟨1⟩ third = .ok (.suspended (.new ⟨0⟩ .null)) fourth ∧
    doorkeeping.execute ⟨1⟩ fourth = .ok (.completed none [.bool true, .machine ⟨7⟩]) last := by
  let again : Exec Unit Continuation := doorkeeping.execute ⟨1⟩
  let start : Running Unit := doorman ⟨some true, some ⟨7⟩⟩
  have runs : (match (again >>= fun a => again >>= fun b => again >>= fun c => again >>= fun d => again >>= fun e =>
      pure [a, b, c, d, e]) start with
    | .ok results _ => results
    | .error _ _ => []) = [.suspended .receive, .suspended .receive, .suspended .nondet, .suspended (.new ⟨0⟩ .null),
      .completed none [.bool true, .machine ⟨7⟩]] := by decide +kernel
  split at runs
  next results last ran =>
    obtain ⟨a, first, ranFirst, ran⟩ := bind_eq_ok.mp ran
    obtain ⟨b, second, ranSecond, ran⟩ := bind_eq_ok.mp ran
    obtain ⟨c, third, ranThird, ran⟩ := bind_eq_ok.mp ran
    obtain ⟨d, fourth, ranFourth, ran⟩ := bind_eq_ok.mp ran
    obtain ⟨e, final, ranFinal, ran⟩ := bind_eq_ok.mp ran
    obtain ⟨same, rfl⟩ := pure_eq_ok.mp ran
    obtain ⟨rfl, rfl, rfl, rfl, rfl⟩ : a = .suspended .receive ∧ b = .suspended .receive ∧ c = .suspended .nondet ∧
        d = .suspended (.new ⟨0⟩ .null) ∧ e = .completed none [.bool true, .machine ⟨7⟩] := by simpa [← same] using runs
    exact ⟨door_accepted, first, second, third, fourth, final, ranFirst, ranSecond, ranThird, ranFourth, ranFinal⟩
  · cases runs

open Sample in
/-- At the third time the doorman is about to take the choice that was supplied at first. -/
theorem doorman_takes_once : door.lower {} = .ok doorkeeping.image ∧ ∃ past state, doorkeeping.Reaches past state ∧
    doorkeeping.image.awaits state.actor.stack = some .choice ∧ Accounted past state.actor.resume ∧
    ∀ result after, doorkeeping.executeBooking ⟨1⟩ state = .ok result after →
      after.ledger = [.choice true] ∧ after.actor.resume = ⟨none, some ⟨7⟩⟩ := by
  let again : Exec Unit Continuation := doorkeeping.execute ⟨1⟩
  let start : Running Unit := doorman ⟨some true, some ⟨7⟩⟩
  have facts : (match (again >>= fun _ => again >>= fun _ => again) start with
    | .ok _ state => decide (doorkeeping.image.awaits state.actor.stack = some .choice ∧ state.actor.resume = ⟨some true, some ⟨7⟩⟩)
    | .error _ _ => false) = true := by decide +kernel
  split at facts
  next _ state ran =>
    obtain ⟨awaits, resume⟩ := of_decide_eq_true facts
    obtain ⟨_, _, ranFirst, ran⟩ := bind_eq_ok.mp ran
    obtain ⟨_, _, ranSecond, ranThird⟩ := bind_eq_ok.mp ran
    have unsupplied : doorkeeping.Reaches [] (doorman ⟨none, none⟩) := .fresh rfl
    have supplied : doorkeeping.Reaches [.choose (some true), .create (some ⟨7⟩)] start :=
      (unsupplied.choose (some true)).create (some ⟨7⟩)
    obtain ⟨_, reached⟩ := supplied.executed ranFirst
    obtain ⟨_, reached⟩ := reached.executed ranSecond
    obtain ⟨_, reached⟩ := reached.executed ranThird
    obtain ⟨accounted, _, takes, _, _⟩ := Program.inputs_are_taken_once door_accepted reached ⟨1⟩
    refine ⟨door_accepted, _, state, reached, awaits, accounted, fun result after ran => ?_⟩
    obtain ⟨used, _⟩ := takes result after ran
    rw [awaits] at used
    obtain ⟨taken, found, left, ledger⟩ := used
    rw [Input.find?, resume] at found
    obtain rfl := Option.some.inj found
    exact ⟨ledger, by rw [left, resume]; rfl⟩
  · cases facts

end Reentry
