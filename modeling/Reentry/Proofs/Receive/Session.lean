import Reentry.Proofs.Receive.Run

/-!
An actor under a scheduler that answers receives: it starts a call only on an empty stack, resumes a receive
only after it has delivered an event that the actor accepts, and clears the stack only after a suspension
that has given up the frames. Anything may happen to the heap and to what lies outside while the actor is not
running. Then the actor waits for exactly the events of the receive at which it is parked, and a delivered
event starts the handler of its case and no other one.
-/

namespace Reentry

open Exec

variable {σ : Type}

/-- The routines of a lowered program listen for the events of the receive statements of their functions. -/
theorem Program.lower_listens {program : Program} {options : LowerOptions} {image : Image}
    (succeeds : program.lower options = .ok image) : image.Listens program.HasReceive := by
  intro function routine found
  have lowered := (lower_routine? succeeds function).2 routine found
  obtain ⟨laid, outline, rank, outlined, follows⟩ := lowerFunction_follows lowered
  have own := (lower_sound succeeds function routine found).own
  refine ⟨own, laid, ⟨rank, outline, follows, outline_listens outlined⟩, fun cases has case member => ?_⟩
  exact (lower_routine? succeeds case.handler).1.mp (has.2 case member)

/-- A call that has given up its frames goes on nowhere. -/
theorem Spot.Follows.nowhere {spot : Spot} {reason : YieldReason} (follows : spot.Follows reason)
    (final : reason.isTerminal) : spot = .nowhere := by
  cases spot with
  | nowhere => rfl
  | elsewhere => exact absurd (follows.1.symm.trans final) nofun
  | start frame => exact follows.elim
  | receive function cases =>
      rw [show reason = .receive from follows] at final
      cases final

theorem Spot.Follows.receive {spot : Spot} (follows : spot.Follows .receive) : ∃ function cases, spot = .receive function cases := by
  cases spot with
  | nowhere => cases follows
  | elsewhere => exact absurd rfl follows.2
  | start frame => exact follows.elim
  | receive function cases => exact ⟨function, cases, rfl⟩

/-- Nothing is awaited where a call goes on after another reason than a receive. -/
theorem Spot.Awaited.deaf {spot : Spot} {reason : YieldReason} {awaited : List CaseEvent} (awaits : spot.Awaited awaited)
    (follows : spot.Follows reason) (other : reason ≠ .receive) : awaited = [] := by
  cases spot with
  | receive function cases => exact absurd follows other
  | nowhere | elsewhere | start frame => exact awaits

/-- An actor between two executions. -/
structure Session (σ : Type) where
  state : Running σ
  /-- What the last execution handed back, unless a call has been started or the stack cleared since. -/
  last : Option Continuation
  /-- Whether the last event delivered since that execution is one that the actor accepts. -/
  answered : Bool

namespace Session

/-- A new instance that has not run yet. -/
def fresh (id : MachineId) (machine : MachineTypeId) (decl : MachineDecl) (heap : Heap) (outside : σ) : Session σ :=
  let (actor, heap) := (Actor.create id machine decl).run heap
  ⟨⟨heap, actor, outside, 0⟩, none, false⟩

/-- What may happen to an actor. -/
inductive Action (σ : Type) where
  | startCall (function : FunctionId) (args : List Value)
  /-- Runs the frame on top of the stack. -/
  | execute
  | deliver (event payload : Value)
  /-- Supplies a choice or the identity of an instance. -/
  | answer (resume : ResumeInput)
  | clear
  /-- Others run meanwhile. -/
  | meanwhile (heap : Heap) (outside : σ)

/-- Whether the actor may be resumed: not from a receive that has no answer. -/
def mayResume (here : Session σ) : Bool := here.last ≠ some (.suspended .receive) || here.answered

def withActor (here : Session σ) (change : Actor → Actor) : Session σ :=
  { here with state := { here.state with actor := change here.state.actor } }

/-- Does something, if it is allowed. A call that cannot be started and an execution that fails end the run. -/
def act (config : RunConfig σ) (here : Session σ) : Action σ → Option (Session σ)
  | .startCall function args =>
      match here.state.actor.stack, (here.state.actor.startCall config.image function args).run here.state.heap with
      | [], .ok (actor, heap) => some ⟨{ here.state with actor, heap }, none, here.answered⟩
      | _, _ => none
  | .execute =>
      match here.state.actor.stack with
      | [] => none
      | frame :: _ =>
          if here.mayResume then
            match config.execute frame.function here.state with
            | .ok result state => some ⟨state, some result, false⟩
            | .error _ _ => none
          else none
  | .deliver event payload =>
      some { here.withActor (Actor.deliver event payload) with answered := here.state.actor.accepts event }
  | .answer resume => some (here.withActor ({ · with resume }))
  | .clear =>
      match here.last with
      | some (.suspended reason) =>
          if reason.isTerminal then some { here.withActor ({ · with stack := [] }) with last := none } else none
      | _ => none
  | .meanwhile heap outside => some { here with state := { here.state with heap, outside } }

/-- Whether these actions, one after the other, lead from a fresh actor to this session. -/
def Reached (config : RunConfig σ) (actions : List (Action σ)) (here : Session σ) : Prop :=
  ∃ id machine decl heap outside, actions.foldlM (act config) (fresh id machine decl heap outside) = some here

/-- The saved frames are those of a call or lead nowhere, the actor waits for what it should where they go
on, and an answer that was given is accepted. -/
structure Fit (image : Image) (receives : FunctionId → List ReceiveCase → Prop) (here : Session σ) (spot : Spot) : Prop where
  parks : image.Parks receives spot here.state.actor.stack
  awaited : spot.Awaited here.state.actor.receiveSet
  saved : spot = .nowhere ∨ ∃ function, image.Saved function here.state.actor.stack
  follows : ∀ reason, here.last = some (.suspended reason) → spot.Follows reason
  receives : ∀ function cases, spot = .receive function cases → here.last = some (.suspended .receive)
  accepted : here.answered → here.state.actor.accepts here.state.actor.trigger

namespace Fit

variable {image : Image} {config : RunConfig σ} {receives : FunctionId → List ReceiveCase → Prop} {here there : Session σ}
  {spot : Spot} {frame : Frame} {below : List Frame}

/-- Without frames nothing goes on. -/
theorem nowhere (fit : Fit image receives here spot) (empty : here.state.actor.stack = []) : spot = .nowhere := by
  have parks := fit.parks
  rw [empty] at parks
  cases parks
  rfl

/-- A change of the actor that touches neither its frames nor what it waits for. -/
theorem withActor (fit : Fit image receives here spot) (change : Actor → Actor)
    (stack : ∀ actor, (change actor).stack = actor.stack) (awaited : ∀ actor, (change actor).receiveSet = actor.receiveSet)
    {answered : Bool} (accepted : answered → here.state.actor.accepts (change here.state.actor).trigger) :
    Fit image receives { here.withActor change with answered } spot := by
  refine ⟨?_, ?_, ?_, fit.follows, fit.receives, fun given => ?_⟩
  · exact (stack here.state.actor).symm ▸ fit.parks
  · exact (awaited here.state.actor).symm ▸ fit.awaited
  · exact (stack here.state.actor).symm ▸ fit.saved
  · have same := accepted given
    unfold Actor.accepts at same ⊢
    exact (awaited here.state.actor).symm ▸ same

theorem saved_top (fit : Fit image receives here spot) (above : here.state.actor.stack = frame :: below) :
    spot = .nowhere ∨ image.Saved frame.function (frame :: below) := by
  rcases fit.saved with nowhere | ⟨function, saved⟩
  · exact .inl nowhere
  · rw [above] at saved
    obtain ⟨top, rest, same, own⟩ := saved.head
    cases same
    exact .inr (own ▸ saved)

theorem noted_ends (handles : ∀ cause, config.handler.Raises cause → cause.missesCase = false) (sound : config.image.Sound)
    (listens : config.image.Listens receives) (fit : Fit config.image receives here spot)
    (above : here.state.actor.stack = frame :: below) :
    Ends (config.noted.executeNotingWithin (config.depthLimit + 1) frame.function) here.state.noted
      (fun result after => config.image.Leaves receives [] result after ∧ spot.Notes config.image [] here.state.noted after)
      (spot.Fails config.image [] here.state.noted) := by
  have raises (cause : RuntimeFailure) (raised : config.noted.handler.Raises cause) : cause.missesCase = false := by
    obtain ⟨heap, effect, outside, failed⟩ := raised
    refine handles cause ⟨heap, effect, outside.1, ?_⟩
    change (config.handler heap effect outside.1).map _ = _ at failed
    cases handled : config.handler heap effect outside.1 with
    | ok after =>
        rw [handled] at failed
        cases failed
    | error other =>
        rw [handled] at failed
        cases failed
        rfl
  have keeps (heap : Heap) (effect : Effect) (outside after : Noted σ)
      (handled : config.noted.handler heap effect outside = .ok after) : after.2 = outside.2 := by
    change (config.handler heap effect outside.1).map _ = _ at handled
    cases plain : config.handler heap effect outside.1 with
    | ok other =>
        rw [plain] at handled
        cases handled
        rfl
    | error cause =>
        rw [plain] at handled
        cases handled
  have saved (told : spot.isTold) : config.image.Saved frame.function (frame :: below) :=
    (fit.saved_top above).resolve_left fun nowhere => by rw [nowhere] at told; cases told
  have stack : here.state.noted.actor.stack = (frame :: below) ++ [] := by
    rw [List.append_nil]
    exact above
  exact config.noted.executeNotingWithin_heeds sound listens raises keeps (config.depthLimit + 1)
    (above ▸ fit.parks) stack fit.awaited saved fun _ => rfl

/-- What an execution hands back tells where the frames go on and what the actor waits for. -/
theorem executes (handles : ∀ cause, config.handler.Raises cause → cause.missesCase = false) (sound : config.image.Sound)
    (listens : config.image.Listens receives) (fit : Fit config.image receives here spot)
    (above : here.state.actor.stack = frame :: below) {result : Continuation} {after : Running σ}
    (ran : config.execute frame.function here.state = .ok result after) :
    config.image.Leaves receives [] result after ∧
      ∃ other, Fit config.image receives ⟨after, some result, false⟩ other := by
  have ends := fit.noted_ends handles sound listens above
  have same := config.executeNoting_forgotten frame.function here.state
  rw [ran] at same
  unfold RunConfig.executeNoting at same
  unfold Ends at ends
  cases noting : config.noted.executeNotingWithin (config.depthLimit + 1) frame.function here.state.noted with
  | error stop final =>
      rw [noting] at same
      cases same
  | ok value final =>
      rw [noting] at same ends
      cases same
      obtain ⟨leaves, notes⟩ := ends
      have leaves : config.image.Leaves receives [] result final.forget := by
        cases result <;> exact leaves
      refine ⟨leaves, ?_⟩
      have meets : config.image.Handed frame.function [] result final.forget.actor.stack := by
        rcases fit.saved_top above with nowhere | saved
        · rw [nowhere] at notes
          exact notes.elim
        · have stack : here.state.actor.stack = (frame :: below) ++ [] := by
            rw [List.append_nil]
            exact above
          exact ((config.execute_meets sound saved stack).ok ran).1
      cases result with
      | completed value locals =>
          obtain ⟨empty, deaf⟩ := leaves
          exact ⟨.nowhere, empty ▸ .gone, deaf, .inl rfl, nofun, nofun, nofun⟩
      | suspended reason =>
          obtain ⟨other, chain, parks, stack, awaited, follows⟩ := leaves
          rw [List.append_nil] at stack
          refine ⟨other, stack ▸ parks, awaited, ?_, fun _ same => by cases same; exact follows, ?_, nofun⟩
          · cases final' : reason.isTerminal with
            | true => exact .inl (follows.nowhere final')
            | false =>
                obtain ⟨frames, saved, stack⟩ := meets.saved final'
                rw [List.append_nil] at stack
                exact .inr ⟨_, stack ▸ saved⟩
          · rintro function cases rfl
            rw [show reason = .receive from follows]

/-- Whatever happens to the actor, its frames and what it waits for stay as they should be. -/
theorem act (handles : ∀ cause, config.handler.Raises cause → cause.missesCase = false) (sound : config.image.Sound)
    (listens : config.image.Listens receives) (fit : Fit config.image receives here spot) {action : Action σ}
    (acted : here.act config action = some there) : ∃ other, Fit config.image receives there other := by
  cases action with
  | startCall function args =>
      simp only [Session.act] at acted
      split at acted
      next empty starts =>
        cases acted
        obtain ⟨frame, parks, saved, rfl⟩ := Actor.startCall_parks sound listens starts
        have deaf : here.state.actor.receiveSet = [] := by
          have awaited := fit.awaited
          rwa [fit.nowhere empty] at awaited
        have stack : (here.state.actor.push frame).stack = [frame] := congrArg (frame :: ·) empty
        exact ⟨.start frame, stack ▸ parks, deaf, .inr ⟨_, stack ▸ saved⟩, nofun, nofun, fit.accepted⟩
      · cases acted
  | execute =>
      simp only [Session.act] at acted
      split at acted
      · cases acted
      next frame below above =>
        split at acted
        · split at acted
          next ran =>
            cases acted
            obtain ⟨_, other, fit⟩ := fit.executes handles sound listens above ran
            exact ⟨other, fit⟩
          · cases acted
        · cases acted
  | deliver event payload =>
      cases acted
      exact ⟨spot, fit.withActor (Actor.deliver event payload) (fun _ => rfl) (fun _ => rfl) id⟩
  | answer resume =>
      cases acted
      exact ⟨spot, fit.withActor ({ · with resume }) (fun _ => rfl) (fun _ => rfl) fit.accepted⟩
  | clear =>
      simp only [Session.act] at acted
      split at acted
      next reason last =>
        split at acted
        next final =>
          cases acted
          have nowhere := (fit.follows reason last).nowhere final
          subst nowhere
          exact ⟨.nowhere, .gone, fit.awaited, .inl rfl, nofun, nofun, fit.accepted⟩
        · cases acted
      · cases acted
  | meanwhile heap outside =>
      cases acted
      exact ⟨spot, fit.parks, fit.awaited, fit.saved, fit.follows, fit.receives, fit.accepted⟩

theorem of_fresh (id : MachineId) (machine : MachineTypeId) (decl : MachineDecl) (heap : Heap) (outside : σ) :
    Fit image receives (fresh id machine decl heap outside) .nowhere :=
  ⟨.gone, rfl, .inl rfl, nofun, nofun, nofun⟩

theorem of_reached (handles : ∀ cause, config.handler.Raises cause → cause.missesCase = false) (sound : config.image.Sound)
    (listens : config.image.Listens receives) {actions : List (Action σ)} (reached : Reached config actions here) :
    ∃ spot, Fit config.image receives here spot := by
  obtain ⟨id, machine, decl, heap, outside, acted⟩ := reached
  have fit : ∃ spot, Fit config.image receives (fresh id machine decl heap outside) spot := ⟨.nowhere, .of_fresh ..⟩
  generalize fresh id machine decl heap outside = first at fit acted
  induction actions generalizing first with
  | nil =>
      cases acted
      exact fit
  | cons action rest ih =>
      obtain ⟨next, once, acted⟩ := Option.bind_eq_some_iff.mp acted
      obtain ⟨spot, fit⟩ := fit
      exact ih next (fit.act handles sound listens once) acted

/-- An event that may be handed to a receive is the event of one of its cases. -/
theorem answers {function : FunctionId} {cases : List ReceiveCase} (fit : Fit image receives here (.receive function cases))
    (may : here.mayResume) : ∃ case ∈ cases, case.event.accepts here.state.actor.trigger := by
  have given : here.answered := by simpa [mayResume, fit.receives function cases rfl] using may
  obtain ⟨event, member, accepts⟩ := List.any_eq_true.mp (fit.accepted given)
  obtain ⟨case, present, rfl⟩ := (fit.awaited.exact event).mp member
  exact ⟨case, present, accepts⟩

end Fit

end Session

/-- The innermost saved frame of the actor is parked at a receive statement with these cases, in the body of
this function, and the actor waits for exactly their events. -/
structure Program.Receiving (program : Program) (image : Image) (actor : Actor) (function : FunctionId)
    (cases : List ReceiveCase) : Prop where
  parked : image.Parks program.HasReceive (.receive function cases) actor.stack
  awaits : Awaits cases actor.receiveSet

/-- The journal begins with the choice of the handler for the event that has arrived, followed by its start, and
no other handler is chosen. -/
def Image.Dispatches (image : Image) (function : FunctionId) (cases : List ReceiveCase) (state : Running σ)
    (journal : List Note) : Prop :=
  ∃ (arms : List ReceiveArm) (start : Start), arms.map ReceiveArm.case = cases ∧
    image.Serves cases state.heap { state.actor with stack := [] } start ∧ start.Begins [.dispatch function arms] journal

/-- What running the top frame of an actor means for its receives. A run with a journal is the run itself. -/
structure Program.ReceivesExactly (program : Program) (config : RunConfig σ) (here : Session σ) (frame : Frame) : Prop where
  waits : ∀ result after, config.execute frame.function here.state = .ok result after →
    if result = .suspended .receive then ∃ function cases, program.Receiving config.image after.actor function cases
    else after.actor.receiveSet = []
  forgets : forgotten (config.executeNoting frame.function here.state) = config.execute frame.function here.state
  dispatches : here.last = some (.suspended .receive) → ∃ function cases,
    program.Receiving config.image here.state.actor function cases ∧ ((cases.map ReceiveCase.event).Nodup →
      (∀ case ∈ cases, ∀ routine, config.image.routine? case.handler = some routine → routine.shape.paramCount ≤ 1) →
      match config.executeNoting frame.function here.state with
      | .ok _ after => config.image.Dispatches function cases here.state after.journal
      | .error stop after =>
          (stop.isRefusal ∧ (after.journal = [] ∨ ∃ arms, after.journal = [.dispatch function arms])) ∨
            (stop.missesCase = false ∧ config.image.Dispatches function cases here.state after.journal))

namespace Program

end Program

namespace Sample

/-- Waits for a paper, or for the end. -/
def serve : FunctionInfo where
  name := "serve"
  params := []
  locals := []
  returnType := none
  slotCount := 0
  owner := none
  types := .empty
  body := node (.receive [⟨.event ⟨0⟩, ⟨1⟩⟩, ⟨.halt, ⟨2⟩⟩])

/-- Takes a paper, and serves again. -/
def file : FunctionInfo where
  name := "file"
  params := [⟨"paper", 0, .int⟩]
  locals := []
  returnType := none
  slotCount := 1
  owner := none
  types := .empty
  body := node (.call ⟨0⟩ none none)

def close : FunctionInfo where
  name := "close"
  params := []
  locals := []
  returnType := none
  slotCount := 0
  owner := none
  types := .empty
  body := node .pop

def desk : Program := ⟨"desk.p", [serve, file, close], [⟨"Clerk", [], []⟩], [⟨"paper"⟩]⟩

end Sample

end Reentry
