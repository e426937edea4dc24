import Reentry.Proofs.Events.Guarded
import Reentry.Proofs.Events.Once
import Reentry.Proofs.Mail.Single
import Reentry.Proofs.Suspension.Fuel
import Reentry.Proofs.Twins.Run

/-!
The trigger when an execution ends. An execution that returns leaves the event that is being handled as it was. One that
raises an event has stored an event and not null, if no raised event calls anything.
-/

namespace Reentry

open Exec

variable {σ : Type} {outer : Pairing → σ → σ → Prop}

/-- What the result of an execution says about the trigger. That the event that is raised is not null is said only if `sound`. -/
def Continuation.Tells (sound : Prop) (before after : Running σ) : Continuation → Prop
  | .completed _ _ => after.actor.trigger = before.actor.trigger
  | .suspended .raise => sound → after.actor.trigger ≠ .null
  | .suspended _ => True

/-- Nothing leads to a cell that has not been allocated. -/
def Running.Intact (outer : Pairing → σ → σ → Prop) (state : Running σ) : Prop := ∃ pairs, state.Twin pairs outer state

/-- Neither does anything in a call. -/
def Activation.Intact (outer : Pairing → σ → σ → Prop) (act : Activation) (state : Running σ) : Prop :=
  ∃ pairs, state.Twin pairs outer state ∧ act.Twin pairs act

namespace Exec

theorem Ends.any {α : Type} {work : Exec σ α} {state : Running σ} : Ends work state (fun _ _ => True) fun _ _ => True := by
  unfold Ends
  split <;> trivial

theorem Ends.ran {α : Type} {work : Exec σ α} {state : Running σ} :
    Ends work state (fun result after => work state = .ok result after) fun _ _ => True := by
  unfold Ends
  split
  · assumption
  · trivial

/-- Nothing but a lack of steps can keep a run from ending as one with more steps. -/
theorem Ends.below {α : Type} {work more : Exec σ α} {state : Running σ} {good : α → Running σ → Prop} (below : Below work more)
    (ends : Ends more state good fun _ _ => True) : Ends work state good fun _ _ => True := by
  unfold Ends at ends ⊢
  rcases below state with same | ⟨after, stuck⟩
  · rw [same]
    exact ends
  · rw [stuck]
    trivial

/-- What goes alike in a state and in the state itself leaves it its own twin. -/
theorem Twin.self {α : Type} {like : Pairing → α → α → Prop} {pairs : Pairing} {work : Exec σ α} {state after : Running σ} {result : α}
    (twin : Exec.Twin outer pairs state state work work like) (states : state.Twin pairs outer state) (ran : work state = .ok result after) :
    ∃ more, pairs.Within more ∧ after.Twin more outer after ∧ like more result result := by
  have ended := twin states
  rw [ran] at ended
  cases ended with
  | ok within states alike => exact ⟨_, within, states, alike⟩

end Exec

theorem Actor.startCall_trigger {image : Image} {callee : FunctionId} {args : List Value} {actor started : Actor} {heap after : Heap}
    (starts : (startCall image callee args actor).run heap = .ok (started, after)) : started.trigger = actor.trigger := by
  obtain ⟨_, _, _, _, rfl⟩ := startCall_eq_ok starts
  rfl

theorem CodeAt.of_drop {body code rest : List Instr} {position : Nat} (ahead : body.drop position = code ++ rest) :
    CodeAt body position code := by
  intro offset instr found
  have inside := (List.getElem?_eq_some_iff.mp found).1
  rw [← List.getElem?_drop, ahead, List.getElem?_append_left inside]
  exact found

namespace Env

variable {env : Env σ} {act : Activation} {state before : Running σ}

theorem run_below {steps more : Nat} (le : steps ≤ more) : Below (env.run steps act) (env.run more act) := by
  induction steps generalizing act more with
  | zero => exact .outOfSteps _
  | succ steps ih =>
      obtain ⟨more, rfl⟩ := Nat.exists_eq_add_of_le' le
      rw [← Nat.add_assoc, run_succ, run_succ]
      refine .next fun flow => ?_
      cases flow with
      | next act => exact ih (Nat.le_add_left steps more)
      | leave result => exact .refl _

/-- Raising an event that is evaluated once never leaves null behind. -/
theorem raiseOnce_ends (steady : ∀ operand, Moves (fun before after => after.actor.trigger = before.actor.trigger) (fun _ _ => True) (env.eval act operand))
    (message : String) (event payload : Operand) :
    Ends (env.raiseOnce act message event payload) state (fun _ after => after.actor.trigger ≠ .null) fun _ _ => True := by
  refine Ends.any.bind fun value after _ => ?_
  split
  · exact .fail trivial
  next some =>
      refine .after rfl ?_
      refine (steady payload _).bind fun _ last same => .after rfl ?_
      exact fun null => some (same.symm.trans null)

theorem run_goto {target : StateId} {payload : Operand} (placed : CodeAt env.routine.body act.position (Template.goto target payload)) (steps : Nat) :
    Ends (env.run (steps + 5) act) state (fun result _ => result = .suspended .goto) fun _ _ => True := by
  rw [run_step placed.head]
  simp only [step, Operand.null, eval, Constant.value, store, bind_assoc, map_eq_pure_bind, pure_bind]
  refine Ends.any.bind fun _ _ _ => ?_
  rw [run_step placed.tail.head]
  simp only [step, store, bind_assoc, map_eq_pure_bind, pure_bind]
  refine Ends.any.bind fun _ _ _ => Ends.any.bind fun _ _ _ => ?_
  rw [run_step placed.tail.tail.head]
  simp only [step, bind_assoc, pure_bind]
  refine Ends.any.bind fun _ _ _ => ?_
  rw [run_step placed.tail.tail.tail.head]
  simp only [step, request, pure_bind]
  rw [run_step placed.tail.tail.tail.tail.head]
  exact .pure rfl

theorem run_pop (placed : CodeAt env.routine.body act.position Template.pop) (steps : Nat) :
    Ends (env.run (steps + 4) act) state (fun result _ => result = .suspended .pop) fun _ _ => True := by
  rw [run_step placed.head]
  simp only [step, Operand.null, eval, Constant.value, store, bind_assoc, map_eq_pure_bind, pure_bind]
  refine Ends.any.bind fun _ _ _ => ?_
  rw [run_step placed.tail.head]
  simp only [step, Operand.null, eval, Constant.value, store, bind_assoc, map_eq_pure_bind, pure_bind]
  refine Ends.any.bind fun _ _ _ => ?_
  rw [run_step placed.tail.tail.head]
  simp only [step, request, pure_bind]
  rw [run_step placed.tail.tail.tail.head]
  exact .pure rfl

theorem startCall_trigger (callee : FunctionId) (args : List Value) (state : Running σ) :
    Ends (env.startCall callee args) state (fun _ after => after.actor.trigger = state.actor.trigger) fun _ _ => True := by
  have called : env.startCall callee args state
      = (ofHeapOp (Actor.startCall env.image callee args state.actor) >>= fun actor => modifyActor fun _ => actor) state := rfl
  unfold Ends
  rw [called, bind_apply, ofHeapOp_apply]
  cases starts : (Actor.startCall env.image callee args state.actor).run state.heap with
  | error cause => trivial
  | ok started => exact Actor.startCall_trigger starts

/-- Callees that return leave the trigger as it was, and if they raise an event, it is not null. -/
def Tells (outer : Pairing → σ → σ → Prop) (env : Env σ) : Prop := ∀ callee state,
  Ends (env.invoke callee) state (fun result after => result.Tells (state.Intact outer) state after) fun _ _ => True

section

variable (tells : env.Tells outer)
include tells

/-- Nothing of which an instruction is made changes the trigger, but for overwriting it. -/
theorem steady : Drift env (fun before after => after.actor.trigger = before.actor.trigger) fun _ _ => True where
  refl _ := rfl
  trans _ _ _ first second := second.trans first
  loses _ := trivial
  trails _ _ _ _ _ := trivial
  heap _ _ := rfl
  actor _ _ _ same _ := same
  handles _ _ _ _ _ := rfl
  starts _ _ _ _ _ ran := Actor.startCall_trigger ran
  calls callee args state := by
    refine (startCall_trigger callee args state).bind fun _ middle same => ?_
    refine (tells callee middle).bind fun result after told => ?_
    cases result with
    | completed value locals => exact .pure (told.trans same)
    | suspended reason => exact .fail trivial

theorem enqueue_steady (target event payload : Operand) :
    Moves (fun before after => after.actor.trigger = before.actor.trigger) (fun _ _ => True) (env.enqueue act target event payload) := by
  refine enqueue_moves (steady tells) target event payload fun sender machine value parcel state => ?_
  unfold Ends
  rw [perform_apply]
  cases env.handler state.heap (.enqueue sender machine value parcel) state.outside <;> trivial

end

/-- Any request but a raise. -/
theorem request_tells (tells : env.Tells outer) {request : YieldRequest} (other : request ≠ .raise) (sound : Prop)
    (same : state.actor.trigger = before.actor.trigger) :
    Ends (env.request act request) state (fun result after => result.2.Tells sound before after) fun _ _ => True := by
  cases request with
  | raise => exact absurd rfl other
  | goto | pop => exact .pure trivial
  | send _ | receive _ | nondet _ => exact Ends.any.bind fun _ _ _ => .pure trivial
  | new _ _ _ => exact Ends.any.bind fun _ _ _ => Ends.any.bind fun _ _ _ => .pure trivial
  | ret => exact .pure same
  | retValue value => exact (eval_moves (steady tells) value state).bind fun _ _ kept => .pure (kept.trans same)

section

variable (blind : env.Blind outer) (tells : env.Tells outer) (routine : env.routine.Guarded)
include blind tells

/-- A raise of an event that calls nothing. -/
theorem run_raise_tells {message : String} {event payload : Operand} (free : event.isCallFree)
    (placed : CodeAt env.routine.body act.position (Template.raise message event payload)) (steps : Nat) (sound : Prop)
    (intact : sound → act.Intact outer state) :
    Ends (env.run (steps + 5) act) state (fun result after => result.Tells sound before after) fun _ _ => True := by
  have raises : Ends (env.run (steps + 5) act) state (fun result _ => result = .suspended .raise) fun _ _ => True := by
    rw [run_raise placed]
    refine Ends.any.bind fun _ _ _ => ?_
    split
    · exact .fail trivial
    · exact Ends.any.bind fun _ _ _ => .after rfl (Ends.any.bind fun _ _ _ => .after rfl rfl)
  unfold Ends at raises ⊢
  cases ran : env.run (steps + 5) act state with
  | error stop after => trivial
  | ok result after =>
      rw [ran] at raises
      obtain rfl := raises
      intro given
      obtain ⟨pairs, states, acts⟩ := intact given
      -- the run in which the event is evaluated once stores the event that is checked, and this one stores its twin
      have ended := run_raise_once blind acts (eval_rests event free) placed steps states
      have stored := @raiseOnce_ends _ env act state (fun operand => eval_moves (steady tells) operand) message event payload
      unfold Ends at stored
      rw [ran] at ended
      generalize env.raiseOnce act message event payload state = once at ended stored
      cases ended with
      | @ok _ _ _ _ other _ states _ =>
          intro null
          have twin := states.actor.trigger
          rw [null] at twin
          have stored : other.actor.trigger ≠ .null := stored
          generalize other.actor.trigger = trigger at twin stored
          cases twin with
          | scalar _ => exact stored rfl

omit tells in
theorem step_intact {instr : Instr} {next : Activation} {after : Running σ} (intact : act.Intact outer state) (position : Nat)
    (ran : env.step { act with position } instr state = .ok (.next next) after) : next.Intact outer after := by
  obtain ⟨pairs, states, acts⟩ := intact
  have moved : Activation.Twin pairs { act with position } { act with position } := { acts with position := rfl }
  obtain ⟨more, _, states, flows⟩ := (step_twin blind moved instr).self states ran
  cases flows with
  | next acts => exact ⟨more, states, acts⟩

include routine

/-- How a call ends whose code is guarded, as long as the trigger is as it was before. -/
theorem run_tells (sound : Prop) (steps : Nat) (guarded : Guarded (env.routine.body.drop act.position))
    (same : state.actor.trigger = before.actor.trigger) (intact : sound → act.Intact outer state) :
    Ends (env.run steps act) state (fun result after => result.Tells sound before after) fun _ _ => True := by
  induction steps using Nat.strong_induction_on generalizing act state with
  | h steps ih =>
      generalize ahead : env.routine.body.drop act.position = code at guarded
      cases guarded with
      | nil =>
          have past : env.routine.body[act.position]? = none := by
            rw [← Nat.add_zero act.position, ← List.getElem?_drop, ahead]
            rfl
          cases steps with
          | zero => trivial
          | succ steps =>
              rw [run_succ]
              unfold move
              rw [past]
              exact .fail trivial
      | @loose instr rest loose keeps guarded =>
          obtain ⟨here, behind⟩ := drop_cons ahead
          cases steps with
          | zero => trivial
          | succ steps =>
              rw [run_step here]
              refine Ends.ran.bind fun flow after ran => ?_
              obtain ⟨next, rfl, _, place⟩ := step_goes (Instr.keepsControl_of_isLoose loose) ran
              have kept := (step_moves (steady tells) (fun _ _ _ _ => rfl) (fun callee same => by subst same; cases loose)
                (fun _ _ _ same => by subst same; cases loose) (fun member => absurd member keeps) (fun _ _ _ => rfl) state).ok ran
              refine ih steps (Nat.lt_succ_self steps) ?_ (kept.trans same) fun given => step_intact blind (intact given) _ ran
              rcases place with place | ⟨target, _, leads⟩
              · rw [place, behind]
                exact guarded
              · exact routine.leads target _ leads
      | @enqueue target event payload rest guarded =>
          obtain ⟨here, behind⟩ := drop_cons ahead
          cases steps with
          | zero => trivial
          | succ steps =>
              rw [run_step here]
              refine Ends.ran.bind fun flow after ran => ?_
              obtain ⟨_, middle, sent, done⟩ := bind_eq_ok.mp ran
              obtain ⟨rfl, rfl⟩ := pure_eq_ok.mp done
              have kept := (enqueue_steady tells target event payload state).ok sent
              refine ih steps (Nat.lt_succ_self steps) ?_ (kept.trans same) fun given => step_intact blind (intact given) _ ran
              rw [behind]
              exact guarded
      | @raise message event payload rest free guarded =>
          exact .below (run_below (Nat.le_add_right steps 5)) (run_raise_tells blind tells free (.of_drop ahead) steps sound intact)
      | @goto target payload rest guarded =>
          exact .below (run_below (Nat.le_add_right steps 5))
            ((run_goto (.of_drop ahead) steps).weaken (by rintro _ _ rfl; trivial) fun _ _ => id)
      | @pop rest guarded =>
          exact .below (run_below (Nat.le_add_right steps 4))
            ((run_pop (.of_drop ahead) steps).weaken (by rintro _ _ rfl; trivial) fun _ _ => id)
      | @leave request rest other guarded =>
          obtain ⟨here, behind⟩ := drop_cons ahead
          refine .below (run_below (Nat.le_add_right steps 2)) ?_
          rw [run_step here]
          simp only [step, bind_assoc, pure_bind]
          refine Ends.ran.bind fun result after ran => ?_
          have told := (request_tells tells other sound same).ok ran
          have exits : env.routine.body[result.1.position]? = some .exit := by
            rw [request_position ran]
            exact (drop_cons behind).1
          rw [@run_step _ _ { result.1 with pending := some result.2 } _ exits]
          exact .pure told
      | @call callee resume rest guarded =>
          obtain ⟨here, behind⟩ := drop_cons ahead
          obtain ⟨check, behind'⟩ := drop_cons behind
          cases steps with
          | zero => trivial
          | succ steps =>
              rw [run_step here]
              simp only [step, bind_assoc, pure_bind]
              cases steps with
              | zero => exact Ends.any.bind fun _ _ _ => trivial
              | succ steps =>
                  refine Ends.ran.bind fun result after ran => ?_
                  have told := (tells callee state).ok ran
                  rw [run_step check]
                  cases result with
                  | suspended reason =>
                      refine .after rfl ?_
                      cases reason with
                      | raise =>
                          intro given
                          obtain ⟨pairs, states, _⟩ := intact given
                          exact told ⟨pairs, states⟩
                      | _ => trivial
                  | completed value locals =>
                      refine ih steps (by omega) ?_ (Eq.trans told same) fun given => ?_
                      · rw [behind']
                        exact guarded
                      · obtain ⟨pairs, states, acts⟩ := intact given
                        obtain ⟨more, within, states, results⟩ := (blind.invokes callee).self states ran
                        exact ⟨more, states, { acts.mono within with position := rfl, lastCall := .some results }⟩

end

end Env

namespace RunConfig

variable {config : RunConfig σ}

/-- What an execution says about the trigger if the code is guarded. -/
theorem executeWithin_tells (guarded : config.image.Guarded) (blind : config.handler.Blind outer) (levels : Nat) (function : FunctionId)
    (state : Running σ) : Exec.Ends (config.executeWithin levels function) state
      (fun result after => result.Tells (state.Intact outer) state after) fun _ _ => True := by
  induction levels generalizing function state with
  | zero => trivial
  | succ levels ih =>
      refine Exec.Ends.ran.bind fun entered middle ran => ?_
      have enters := (enter_enters function state).ok ran
      have read : (get : Exec σ (Running σ)) middle = .ok middle middle := rfl
      refine .after read ?_
      split
      · exact .fail trivial
      · let env : Env σ := ⟨config.image, entered.1, config.handler, config.executeWithin levels⟩
        have unseeing : env.Blind outer := ⟨blind, fun callee => executeWithin_twin blind levels callee⟩
        have routine : entered.1.Guarded := guarded function _ enters.found
        have ahead : Guarded (entered.1.body.drop entered.2.position) := by
          rcases enters.place with start | ⟨label, leads⟩
          · rw [start]
            exact routine.body
          · exact routine.leads (.label label) _ leads
        let begun : Running σ := { middle with depth := middle.depth + 1 }
        have intact : state.Intact outer → entered.2.Intact outer begun := by
          rintro ⟨pairs, states⟩
          obtain ⟨more, _, states, _, acts⟩ := (enter_twin function).self states ran
          exact ⟨more, { states with depth := rfl }, acts⟩
        have trigger : begun.actor.trigger = state.actor.trigger := enters.trigger
        have runs := env.run_tells unseeing ih routine (state.Intact outer) config.steps ahead trigger intact
        exact .counted runs (fun result _ told => by cases result <;> exact told) fun _ _ => id

/-- Where raised events call nothing, what has been raised is not null. -/
theorem execute_raises (guarded : config.image.Guarded) (blind : config.handler.Blind outer) {function : FunctionId}
    {state after : Running σ} (intact : state.Intact outer) (raised : config.execute function state = .ok (.suspended .raise) after) :
    after.actor.trigger ≠ .null :=
  (executeWithin_tells guarded blind _ function state).ok raised intact

end RunConfig

end Reentry
