import Reentry.Proofs.Execution.Views
import Reentry.Proofs.Frames.Run
import Reentry.Proofs.Inputs.Landing

/-!
Runs of which a ledger is kept: what each instruction takes that takes an input of the scheduler, at the time it is
taken. The ledger lies outside the actor, where neither the code nor the handler of effects can see it: without the
ledger such a run is the run itself.
-/

namespace Reentry

/-- An input that has been taken. -/
inductive Taken where
  | choice (chosen : Bool)
  | machine (created : MachineId)
  | event (trigger payload : Value)
deriving DecidableEq, Repr

/-- What an instruction finds that takes this input, if it finds any. A receive finds the event that is being handled, with
its payload, if exactly one of its cases accepts the event. -/
def Input.find? : Input → Actor → Option Taken
  | .choice, actor => actor.resume.nondet.map .choice
  | .machine, actor => actor.resume.created.map .machine
  | .event events, actor =>
      match events.filter (·.accepts actor.trigger) with
      | [_] => some (.event actor.trigger actor.payload)
      | _ => none

theorem Input.find?_event (arms : List ReceiveArm) (actor : Actor) :
    (Input.event (arms.map ReceiveArm.event)).find? actor =
      match arms.filter (·.event.accepts actor.trigger) with
      | [_] => some (.event actor.trigger actor.payload)
      | _ => none := by
  have same : (arms.map ReceiveArm.event).filter (·.accepts actor.trigger)
      = (arms.filter (·.event.accepts actor.trigger)).map ReceiveArm.event := List.filter_map
  simp only [find?, same]
  generalize arms.filter (·.event.accepts actor.trigger) = picked
  rcases picked with _ | ⟨arm, _ | ⟨other, more⟩⟩ <;> rfl

/-- What is found does not depend on the saved frames. -/
theorem Input.find?_restack (input : Input) (actor : Actor) (stack : List Frame) :
    input.find? { actor with stack } = input.find? actor := by
  cases input <;> rfl

/-- The answers that are left when this has been taken. An event is no answer, and stays. -/
def Taken.spend : Taken → ResumeInput → ResumeInput
  | .choice _, resume => { resume with nondet := none }
  | .machine _, resume => { resume with created := none }
  | .event _ _, resume => resume

/-- What lies outside, and what has been taken so far, the first of it first. -/
abbrev Booked (σ : Type) := σ × List Taken

variable {σ α : Type}

/-- The handler of effects does not touch the ledger. -/
def Handler.booked (handler : Handler σ) : Handler (Booked σ) := fun heap effect outside =>
  (handler heap effect outside.1).map (·, outside.2)

theorem Handler.booked_same {handler : Handler σ} {heap : Heap} {effect : Effect} {outside after : Booked σ}
    (handled : handler.booked heap effect outside = .ok after) : after.2 = outside.2 := by
  unfold booked at handled
  cases plain : handler heap effect outside.1 with
  | ok result =>
      rw [plain] at handled
      cases handled
      rfl
  | error cause =>
      rw [plain] at handled
      cases handled

namespace Running

/-- The state with an empty ledger. -/
def booked (state : Running σ) : Running (Booked σ) := ⟨state.heap, state.actor, (state.outside, []), state.depth⟩

abbrev ledger (state : Running (Booked σ)) : List Taken := state.outside.2

/-- The state with an entry for what is found of this input, if it is. -/
def book (input : Option Input) (state : Running (Booked σ)) : Running (Booked σ) :=
  match input.bind (·.find? state.actor) with
  | some taken => { state with outside := (state.outside.1, state.ledger ++ [taken]) }
  | none => state

theorem book_of_missing {input : Input} {state : Running (Booked σ)} (missing : input.find? state.actor = none) :
    state.book (some input) = state := by
  simp only [book, Option.bind_some, missing]

theorem book_of_found {input : Input} {state : Running (Booked σ)} {taken : Taken} (found : input.find? state.actor = some taken) :
    state.book (some input) = { state with outside := (state.outside.1, state.ledger ++ [taken]) } := by
  simp only [book, Option.bind_some, found]

end Running

namespace Env

variable (env : Env (Booked σ))

/-- Carries out the instruction at the position of a call, with an entry for what it takes. -/
def moveBooking (act : Activation) : Exec (Booked σ) Flow := do
  modify (Running.book (env.routine.body[act.position]?.bind Instr.input?))
  env.move act

/-- Runs a call until it leaves. -/
def runBooking : Nat → Activation → Exec (Booked σ) Continuation
  | 0, _ => throw .outOfSteps
  | steps + 1, act => do
      match ← env.moveBooking act with
      | .next after => runBooking steps after
      | .leave result => pure result

end Env

namespace RunConfig

/-- Runs a function and keeps a ledger. -/
def executeBookingWithin (config : RunConfig (Booked σ)) : Nat → FunctionId → Exec (Booked σ) Continuation
  | 0, _ => throw .outOfSteps
  | levels + 1, function => do
      let (routine, act) ← config.enter function
      if config.depthLimit ≤ (← get).depth then Exec.fail (.callDepthExceeded config.depthLimit)
      else
        let env : Env (Booked σ) := ⟨config.image, routine, config.handler, executeBookingWithin config levels⟩
        Exec.counted (env.runBooking config.steps act)

variable (config : RunConfig σ)

def booked : RunConfig (Booked σ) := ⟨config.image, config.handler.booked, config.depthLimit, config.steps⟩

/-- Runs a function on the frame at the top of the actor's stack, with an empty ledger at first. -/
def executeBooking (function : FunctionId) (state : Running σ) : EStateM.Result Stop (Running (Booked σ)) Continuation :=
  config.booked.executeBookingWithin (config.depthLimit + 1) function state.booked

end RunConfig

open Exec

theorem Exec.Views.book {input : Option Input} {booked : Exec (Booked σ) α} {plain : Exec σ α} (next : Views Prod.fst booked plain) :
    Views Prod.fst (modify (Running.book input) >>= fun _ => booked) plain := by
  intro state
  have same : (state.book input).through Prod.fst = state.through Prod.fst := by
    unfold Running.book
    split <;> rfl
  exact (next (state.book input)).trans (congrArg plain same)

theorem RunConfig.booked_views (config : RunConfig σ) : config.booked.Views Prod.fst config where
  image := rfl
  handler heap effect outside := by
    change ((config.handler heap effect outside.1).map _).map _ = _
    cases config.handler heap effect outside.1 <;> rfl
  depthLimit := rfl
  steps := rfl

theorem Env.runBooking_views {env : Env (Booked σ)} {plain : Env σ} (views : env.Views Prod.fst plain) (steps : Nat)
    (act : Activation) : Exec.Views Prod.fst (env.runBooking steps act) (plain.run steps act) := by
  induction steps generalizing act with
  | zero => exact .throw
  | succ steps ih =>
      rw [run_succ]
      refine .bind (.book (move_views views act)) fun flow => ?_
      cases flow with
      | next after => exact ih after
      | leave result => exact .pure

namespace RunConfig

theorem executeBookingWithin_views (config : RunConfig σ) (levels : Nat) (function : FunctionId) :
    Exec.Views Prod.fst (config.booked.executeBookingWithin levels function) (config.executeWithin levels function) := by
  induction levels generalizing function with
  | zero => exact .throw
  | succ levels ih =>
      refine .bind (enter_views config.booked_views function) fun entered => .get fun state => ?_
      have same : config.booked.depthLimit = config.depthLimit := rfl
      have depth : (state.through Prod.fst).depth = state.depth := rfl
      rw [same, depth]
      split
      · exact .fail
      · have surroundings : Env.Views Prod.fst
            ⟨config.image, entered.1, config.booked.handler, config.booked.executeBookingWithin levels⟩
            ⟨config.image, entered.1, config.handler, config.executeWithin levels⟩ := ⟨rfl, rfl, config.booked_views.handler, ih⟩
        exact .counted (Env.runBooking_views surroundings _ _)

/-- Keeping a ledger does not change a run. -/
theorem executeBooking_seen (config : RunConfig σ) (function : FunctionId) (state : Running σ) :
    seen Prod.fst (config.executeBooking function state) = config.execute function state :=
  executeBookingWithin_views config (config.depthLimit + 1) function state.booked

end RunConfig

end Reentry

/-!
What saved frames wait for, and what it means that an execution takes it: one entry of the ledger, and nothing but that
entry is gone from the answers of the scheduler.
-/

namespace Reentry

open Exec

/-- The input that is taken first when the frames are entered. A frame that waits for a callee has the frames below
entered; a call that has not begun takes nothing. -/
def Image.awaits (image : Image) : List Frame → Option Input
  | [] => none
  | frame :: below => do
      let routine ← image.routine? frame.function
      let place ← routine.landing? frame.label
      match ← routine.body[place + 1]? with
      | .invoke _ => image.awaits below
      | instr => instr.input?

/-- The frames that a suspended call leaves wait for what has been asked. -/
def Image.Promises (image : Image) : Continuation → List Frame → Prop
  | .completed _ _, _ => True
  | .suspended reason, stack => reason.isTerminal = false → reason.Wants (image.awaits stack)

/-- The instruction at the head of such code takes the input of the code, and is no invocation. -/
theorem Prompt.head {input : Option Input} {code : List Instr} (prompt : Prompt input code) :
    (code = [] ∧ input = none) ∨ ∃ instr rest, code = instr :: rest ∧ instr.input? = input ∧ ∀ callee, instr ≠ .invoke callee := by
  cases prompt with
  | nil => exact .inl ⟨rfl, rfl⟩
  | @inner instr rest inner _ =>
      exact .inr ⟨instr, rest, rfl, Instr.input?_of_isInner inner, fun callee same => by subst same; cases inner⟩
  | leave _ _ | ask _ _ | call _ | dispatch _ => exact .inr ⟨_, _, rfl, rfl, nofun⟩
  | @take instr rest takes _ => exact .inr ⟨instr, rest, rfl, rfl, fun callee same => by subst same; cases takes⟩

namespace Image

variable {image : Image} {frame : Frame} {below : List Frame} {routine : Routine} {place : Nat} {input : Option Input}

theorem awaits_start (start : frame.label.isStart) : image.awaits (frame :: below) = none := by
  have none (routine : Routine) : routine.landing? frame.label = none := by
    cases leads : routine.landing? frame.label with
    | none => rfl
    | some place =>
        rw [Routine.isStart_of_landing? leads] at start
        cases start
  simp only [awaits, none, Option.bind_eq_bind, Option.bind_none, Option.bind_fun_none]

theorem awaits_goesOn (known : image.routine? frame.function = some routine) (leads : routine.landing? frame.label = some place)
    (rest : Prompt input (routine.body.drop (place + 1))) : image.awaits (frame :: below) = input := by
  simp only [awaits, known, leads, Option.bind_eq_bind, Option.bind_some]
  rcases rest.head with ⟨empty, rfl⟩ | ⟨instr, code, here, rfl, other⟩
  · rw [List.getElem?_eq_none (List.drop_eq_nil_iff.mp empty)]
    rfl
  · rw [(Env.drop_cons here).1]
    cases instr <;> first | rfl | exact absurd rfl (other _)

theorem awaits_calls {callee : FunctionId} (known : image.routine? frame.function = some routine)
    (leads : routine.landing? frame.label = some place) (invoke : routine.body[place + 1]? = some (.invoke callee)) :
    image.awaits (frame :: below) = image.awaits below := by
  simp only [awaits, known, leads, invoke, Option.bind_eq_bind, Option.bind_some]

theorem awaits_eq_some {input : Input} (known : image.routine? frame.function = some routine)
    (awaits : image.awaits (frame :: below) = some input) : ∃ place instr, routine.landing? frame.label = some place ∧
      routine.body[place + 1]? = some instr ∧
        (instr.input? = some input ∨ ∃ callee, instr = .invoke callee ∧ image.awaits below = some input) := by
  simp only [Image.awaits, known, Option.bind_eq_bind, Option.bind_some, Option.bind_eq_some_iff] at awaits
  obtain ⟨place, leads, instr, here, takes⟩ := awaits
  refine ⟨place, instr, leads, here, ?_⟩
  cases instr with
  | invoke callee => exact .inr ⟨callee, rfl, takes⟩
  | _ => exact .inl takes

end Image

namespace Running

variable {σ : Type} {input : Option Input} {before middle after : Running (Booked σ)}

/-- From the one state to the other nothing has been taken. -/
structure Unspent (before after : Running (Booked σ)) : Prop where
  resume : after.actor.resume = before.actor.resume
  ledger : after.ledger = before.ledger

/-- From the one state to the other exactly this input has been taken, as it was found at first. -/
def Spends : Option Input → Running (Booked σ) → Running (Booked σ) → Prop
  | none, before, after => before.Unspent after
  | some input, before, after => ∃ taken, input.find? before.actor = some taken ∧
      after.actor.resume = taken.spend before.actor.resume ∧ after.ledger = before.ledger ++ [taken]

/-- From the one state to the other this input has been taken or nothing. -/
def SpendsAtMost (input : Option Input) (before after : Running (Booked σ)) : Prop := before.Unspent after ∨ before.Spends input after

/-- From the one state to the other nothing has happened to the actor but to its frames, and nothing outside. -/
structure Restacked (before after : Running (Booked σ)) : Prop where
  actor : after.actor = { before.actor with stack := after.actor.stack }
  outside : after.outside = before.outside

theorem Unspent.refl (state : Running (Booked σ)) : state.Unspent state := ⟨rfl, rfl⟩

theorem Unspent.trans (first : before.Unspent middle) (second : middle.Unspent after) : before.Unspent after :=
  ⟨second.resume.trans first.resume, second.ledger.trans first.ledger⟩

theorem Restacked.unspent (restacked : before.Restacked after) : before.Unspent after :=
  ⟨by rw [restacked.actor], congrArg Prod.snd restacked.outside⟩

theorem Restacked.find? (restacked : before.Restacked after) (input : Input) : input.find? after.actor = input.find? before.actor := by
  rw [restacked.actor]
  exact input.find?_restack _ _

theorem Spends.then (spends : before.Spends input middle) (rest : middle.Unspent after) : before.Spends input after := by
  cases input with
  | none => exact Unspent.trans spends rest
  | some input =>
      obtain ⟨taken, found, resume, ledger⟩ := spends
      exact ⟨taken, found, rest.resume.trans resume, rest.ledger.trans ledger⟩

theorem Spends.behind (restacked : before.Restacked middle) (spends : middle.Spends input after) : before.Spends input after := by
  cases input with
  | none => exact Unspent.trans restacked.unspent spends
  | some input =>
      obtain ⟨taken, found, resume, ledger⟩ := spends
      have same := restacked.unspent
      exact ⟨taken, (restacked.find? input).symm.trans found, by rw [resume, same.resume], by rw [ledger, same.ledger]⟩

theorem SpendsAtMost.behind (restacked : before.Restacked middle) (spends : middle.SpendsAtMost input after) :
    before.SpendsAtMost input after := spends.imp restacked.unspent.trans (Spends.behind restacked)

theorem SpendsAtMost.unspent (spends : before.SpendsAtMost none after) : before.Unspent after := spends.elim id id

end Running

namespace Env

variable {σ : Type} {env : Env (Booked σ)}

/-- Callees take what the frames wait for that are on the stack, and leave frames that wait for what is asked. -/
def SpendsAwaited (env : Env (Booked σ)) : Prop := ∀ callee state, Ends (env.invoke callee) state
  (fun result after => state.Spends (env.image.awaits state.actor.stack) after ∧ env.image.Promises result after.actor.stack)
  fun _ after => state.SpendsAtMost (env.image.awaits state.actor.stack) after

/-- A call that is started puts a frame on the stack that waits for nothing. -/
theorem startCall_unspent (callee : FunctionId) (args : List Value) (state : Running (Booked σ)) :
    Ends (env.startCall callee args) state
      (fun _ after => state.Unspent after ∧ env.image.awaits after.actor.stack = none) fun _ after => state.Unspent after := by
  have called : env.startCall callee args state
      = (ofHeapOp (Actor.startCall env.image callee args state.actor) >>= fun actor => modifyActor fun _ => actor) state := rfl
  unfold Ends
  rw [called, bind_apply, ofHeapOp_apply]
  cases starts : (Actor.startCall env.image callee args state.actor).run state.heap with
  | error cause => exact .refl state
  | ok started =>
      obtain ⟨started, heap⟩ := started
      obtain ⟨_, _, _, _, rfl⟩ := Actor.startCall_eq_ok starts
      exact ⟨⟨rfl, rfl⟩, Image.awaits_start rfl⟩

section

variable {handler : Handler σ} (books : env.handler = handler.booked) (spends : env.SpendsAwaited)
include books spends

/-- Nothing of which an instruction is made takes an input, apart from taking it itself. -/
theorem unspent : Drift env Running.Unspent Running.Unspent where
  refl := .refl
  trans _ _ _ := .trans
  loses := .refl
  trails _ _ _ := .trans
  heap _ _ := ⟨rfl, rfl⟩
  actor _ _ _ _ same := ⟨same, rfl⟩
  handles _ _ _ _ handled := ⟨rfl, Handler.booked_same (books ▸ handled)⟩
  starts _ _ _ _ _ starts := by
    obtain ⟨_, _, _, _, rfl⟩ := Actor.startCall_eq_ok starts
    exact ⟨rfl, rfl⟩
  calls callee args state := by
    refine ((startCall_unspent callee args state).weaken (fun _ _ => id) fun _ _ => id).bind fun _ middle ⟨same, idle⟩ => ?_
    have invoked := spends callee middle
    rw [idle] at invoked
    refine (invoked.weaken (fun _ _ ⟨later, _⟩ => same.trans later) fun _ _ later => same.trans later.unspent).bind ?_
    intro result after later
    cases result <;> exact later

end

end Env

end Reentry

/-!
The instructions that take inputs. Each takes what it finds, once, and fails if it finds nothing.
-/

namespace Reentry

open Exec

variable {σ : Type}

namespace Env

variable {env : Env (Booked σ)} {act : Activation} {state : Running (Booked σ)}

/-- A choice that has been supplied is recorded and used up. -/
theorem recordChoice_spends (number : Nat) : Ends (env.step act (.recordChoice number)) (state.book (some .choice))
    (fun flow after => state.Spends (some .choice) after ∧
      ∃ chosen, state.actor.resume.nondet = some chosen ∧ flow = .next { act with choices := recordChoice act.choices number chosen })
    fun _ after => state.SpendsAtMost (some .choice) after := by
  have read (state : Running (Booked σ)) : actor state = .ok state.actor state := rfl
  cases supplied : state.actor.resume.nondet with
  | none =>
      have missing : Input.choice.find? state.actor = none := by rw [Input.find?, supplied]; rfl
      rw [Running.book_of_missing missing]
      refine .after (read state) ?_
      rw [supplied]
      exact .fail (.inl (.refl state))
  | some chosen =>
      have found : Input.choice.find? state.actor = some (.choice chosen) := by rw [Input.find?, supplied]; rfl
      rw [Running.book_of_found found]
      refine .after (read _) ?_
      dsimp only
      rw [supplied]
      exact ⟨⟨_, found, rfl, rfl⟩, chosen, rfl, rfl⟩

/-- An instance that has been supplied is stored and used up. -/
theorem readCreated_spends {handler : Handler σ} (books : env.handler = handler.booked) (spends : env.SpendsAwaited) (dest : Place) :
    Ends (env.step act (.readCreated dest)) (state.book (some .machine))
    (fun _ after => state.Spends (some .machine) after) fun _ after => state.SpendsAtMost (some .machine) after := by
  have read (state : Running (Booked σ)) : actor state = .ok state.actor state := rfl
  cases supplied : state.actor.resume.created with
  | none =>
      have missing : Input.machine.find? state.actor = none := by rw [Input.find?, supplied]; rfl
      rw [Running.book_of_missing missing]
      refine .after (read state) ?_
      rw [supplied]
      exact .fail (.inl (.refl state))
  | some created =>
      have found : Input.machine.find? state.actor = some (.machine created) := by rw [Input.find?, supplied]; rfl
      rw [Running.book_of_found found]
      refine .after (read _) ?_
      dsimp only
      rw [supplied]
      -- the register is emptied before the instance is stored
      let emptied : Running (Booked σ) := ⟨state.heap, { state.actor with resume := { state.actor.resume with created := none } },
        (state.outside.1, state.ledger ++ [.machine created]), state.depth⟩
      have taken : state.Spends (some .machine) emptied := ⟨_, found, rfl, rfl⟩
      have stores : Moves Running.Unspent Running.Unspent (Flow.next <$> env.store act dest (.machine created)) :=
        (unspent books spends).composes.map
          (store_composes (unspent books spends).composes dest (.machine created) fun _ _ _ => ⟨rfl, rfl⟩)
      exact (stores emptied).weaken (fun _ _ => taken.then) fun _ _ later => .inr (taken.then later)

/-- The frame of the handler that has been pushed waits for nothing. -/
theorem pushHandler_unspent (function : FunctionId) (payload : Value) (state : Running (Booked σ)) :
    Ends (env.pushHandler function payload) state
      (fun _ after => state.Unspent after ∧ env.image.awaits after.actor.stack = none) fun _ after => state.Unspent after := by
  have cleared : (modifyActor fun actor => { actor with receiveSet := [] } : Exec (Booked σ) Unit) state
      = .ok () { state with actor := { state.actor with receiveSet := [] } } := rfl
  have starts (args : List Value) (heap : Heap) :
      Ends (env.startCall function args) ⟨heap, { state.actor with receiveSet := [] }, state.outside, state.depth⟩
        (fun _ after => state.Unspent after ∧ env.image.awaits after.actor.stack = none) fun _ after => state.Unspent after :=
    (startCall_unspent function args _).weaken (fun _ _ ⟨same, idle⟩ => ⟨⟨same.resume, same.ledger⟩, idle⟩)
      fun _ _ same => ⟨same.resume, same.ledger⟩
  refine .after cleared ?_
  split
  · exact .fail ⟨rfl, rfl⟩
  · split
    · exact starts [] state.heap
    · exact .after rfl (starts _ _)

/-- A receive starts the handler of the one case that accepts the event that arrived. -/
theorem dispatchReceive_spends (arms : List ReceiveArm) :
    Ends (env.dispatchReceive arms) (state.book (some (.event (arms.map ReceiveArm.event))))
      (fun place after => state.Spends (some (.event (arms.map ReceiveArm.event))) after ∧
        env.image.awaits after.actor.stack = none ∧ ∃ arm ∈ arms, env.routine.landing? arm.entry = some place)
      fun _ after => state.SpendsAtMost (some (.event (arms.map ReceiveArm.event))) after := by
  have read (state : Running (Booked σ)) : actor state = .ok state.actor state := rfl
  have looked (state : Running (Booked σ)) : (get : Exec (Booked σ) _) state = .ok state state := rfl
  have decides := Input.find?_event arms state.actor
  have member (arm : ReceiveArm) (accepts : arm ∈ arms.filter (·.event.accepts state.actor.trigger)) : arm ∈ arms :=
    (List.mem_filter.mp accepts).1
  rw [dispatchReceive_pushHandler]
  generalize same : arms.filter (·.event.accepts state.actor.trigger) = picked at decides member
  rcases picked with _ | ⟨arm, _ | ⟨other, more⟩⟩
  · rw [Running.book_of_missing decides]
    refine .after (read state) ?_
    rw [same]
    exact .after (looked state) (.fail (.inl (.refl state)))
  · rw [Running.book_of_found decides]
    refine .after (read _) ?_
    dsimp only
    rw [same]
    let booked : Running (Booked σ) :=
      { state with outside := (state.outside.1, state.ledger ++ [.event state.actor.trigger state.actor.payload]) }
    have taken : state.Spends (some (.event (arms.map ReceiveArm.event))) booked := ⟨_, decides, rfl, rfl⟩
    refine ((pushHandler_unspent arm.handler state.actor.payload booked).weaken (fun _ _ => id)
      fun _ _ later => .inr (taken.then later)).bind fun _ after ⟨later, idle⟩ => ?_
    unfold Env.position
    cases leads : env.routine.position? (.label arm.entry) with
    | none => exact .fail (.inr (taken.then later))
    | some place => exact .pure ⟨taken.then later, idle, arm, member arm (List.mem_singleton.mpr rfl), leads⟩
  · rw [Running.book_of_missing decides]
    refine .after (read state) ?_
    rw [same]
    exact .after (looked state) (.fail (.inl (.refl state)))

end Env

end Reentry
