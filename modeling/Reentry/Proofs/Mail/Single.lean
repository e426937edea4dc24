import Reentry.Proofs.Execution.Moves
import Reentry.Proofs.Execution.Views
import Reentry.Proofs.Mail.Paired
import Reentry.Proofs.Structure.Simulation

/-!
Runs of which the effects are recorded. The record lies outside the actor, where neither the code nor the handler
of effects can see it, so without the record such a run is the run itself.
-/

namespace Reentry

/-- What lies outside, and the effects that have been carried out so far, the first one first. -/
abbrev Recorded (σ : Type) := σ × List Effect

variable {σ : Type}

/-- The handler of effects does not touch the record. -/
def Handler.recording (handler : Handler σ) : Handler (Recorded σ) := fun heap effect outside =>
  (handler heap effect outside.1).map (·, outside.2 ++ [effect])

def RunConfig.recording (config : RunConfig σ) : RunConfig (Recorded σ) :=
  ⟨config.image, config.handler.recording, config.depthLimit, config.steps⟩

namespace Running

/-- The state with an empty record. -/
def recording (state : Running σ) : Running (Recorded σ) := ⟨state.heap, state.actor, (state.outside, []), state.depth⟩

abbrev record (state : Running (Recorded σ)) : List Effect := state.outside.2

/-- The state without its record. -/
def unrecorded (state : Running (Recorded σ)) : Running σ := state.through Prod.fst

end Running

open Exec

theorem Handler.recording_eq_ok {handler : Handler σ} {heap : Heap} {effect : Effect} {outside after : Recorded σ} :
    handler.recording heap effect outside = .ok after ↔
      handler heap effect outside.1 = .ok after.1 ∧ after.2 = outside.2 ++ [effect] := by
  unfold recording
  obtain ⟨rest, record⟩ := after
  cases handler heap effect outside.1 with
  | ok result => simp [Except.map, eq_comm]
  | error cause => simp [Except.map]

namespace RunConfig

variable {config : RunConfig σ} {function : FunctionId} {state : Running σ}

theorem recording_views (config : RunConfig σ) : config.recording.Views Prod.fst config where
  image := rfl
  handler heap effect outside := by
    change ((config.handler heap effect outside.1).map _).map _ = _
    cases config.handler heap effect outside.1 <;> rfl
  depthLimit := rfl
  steps := rfl

/-- Recording a run does not change it. -/
theorem execute_unrecorded (config : RunConfig σ) (function : FunctionId) (state : Running σ) :
    seen Prod.fst (config.recording.execute function state.recording) = config.execute function state :=
  execute_seen config.recording_views function state.recording

theorem recorded_of_execute {result : Continuation} {final : Running σ} (ran : config.execute function state = .ok result final) :
    ∃ after, config.recording.execute function state.recording = .ok result after ∧ after.unrecorded = final := by
  rw [← config.execute_unrecorded] at ran
  cases recorded : config.recording.execute function state.recording with
  | error stop after =>
      rw [recorded] at ran
      cases ran
  | ok other after =>
      rw [recorded] at ran
      cases ran
      exact ⟨after, rfl, rfl⟩

theorem recorded_of_failed {cause : RuntimeFailure} {final : Running σ}
    (ran : config.execute function state = .error (.failed cause) final) :
    ∃ after, config.recording.execute function state.recording = .error (.failed cause) after ∧ after.unrecorded = final := by
  rw [← config.execute_unrecorded] at ran
  cases recorded : config.recording.execute function state.recording with
  | error stop after =>
      rw [recorded] at ran
      cases ran
      exact ⟨after, rfl, rfl⟩
  | ok other after =>
      rw [recorded] at ran
      cases ran

end RunConfig

end Reentry

/-!
An execution of paired code sends at most once. Whatever sends gives up control right away, through all its
callers, and says that it has sent; only a call inside an expression cannot give up control, and then the
execution fails.
-/

namespace Reentry

open Exec

variable {σ : Type}

namespace Running

/-- What has been put into mailboxes. -/
def sent (state : Running (Recorded σ)) : List Effect := state.record.filter (·.isEnqueue)

/-- From the one state to the other so many events are sent. -/
def Sends (count : Nat) (before after : Running (Recorded σ)) : Prop :=
  ∃ effects, after.sent = before.sent ++ effects ∧ effects.length = count

/-- From the one state to the other at most one event is sent. -/
def SendsOnce (before after : Running (Recorded σ)) : Prop := ∃ count, before.Sends count after ∧ count ≤ 1

variable {first second third : Running (Recorded σ)} {count : Nat}

theorem Sends.same (record : second.record = first.record) : first.Sends 0 second :=
  ⟨[], by simp [sent, record], rfl⟩

theorem Sends.trans (none : first.Sends 0 second) (some : second.Sends count third) : first.Sends count third := by
  obtain ⟨effects, grown, rfl⟩ := some
  obtain ⟨_, still, empty⟩ := none
  obtain rfl := List.eq_nil_of_length_eq_zero empty
  exact ⟨effects, by rw [grown, still, List.append_nil], rfl⟩

theorem Sends.once (none : first.Sends 0 second) (some : second.SendsOnce third) : first.SendsOnce third := by
  obtain ⟨count, sends, le⟩ := some
  exact ⟨count, none.trans sends, le⟩

theorem Sends.none (sends : first.Sends 0 second) : first.SendsOnce second := ⟨0, sends, Nat.zero_le 1⟩

end Running

/-- How many events an execution has sent that hands this back. -/
def Continuation.sends : Continuation → Nat
  | .suspended .send => 1
  | _ => 0

theorem Continuation.sends_eq_zero {result : Continuation} (other : result ≠ .suspended .send) : result.sends = 0 := by
  unfold sends
  split
  · exact absurd rfl other
  · rfl

theorem Continuation.sends_le (result : Continuation) : result.sends ≤ 1 := by
  unfold sends
  split <;> omega

namespace Exec

variable {α β : Type}

/-- The work sends as often as its result says, and if it fails, at most once. -/
def Posts (count : α → Nat) (work : Exec (Recorded σ) α) : Prop := ∀ state,
  Ends work state (fun result after => state.Sends (count result) after) fun _ after => state.SendsOnce after

namespace Posts

variable {count : α → Nat} {more : β → Nat} {work : Exec (Recorded σ) α} {rest : α → Exec (Recorded σ) β}

/-- Before something is sent there may be work that sends nothing. -/
theorem bind (first : Posts (fun _ => 0) work) (next : ∀ value, Posts more (rest value)) : Posts more (work >>= rest) := by
  intro state
  refine (first state).bind fun value middle none => ?_
  exact (next value middle).weaken (fun _ _ => none.trans) fun _ _ => none.once

end Posts

end Exec

namespace Env

variable {env : Env (Recorded σ)} {act : Activation}

/-- Callees send once if they say so, and not at all if they hand back anything else. -/
def Single (env : Env (Recorded σ)) : Prop := ∀ callee, Posts Continuation.sends (env.invoke callee)

section

variable {handler : Handler σ} (records : env.handler = handler.recording) (single : env.Single)
include records single

/-- Nothing of which an instruction is made sends, apart from sending itself and from calls that fail. -/
theorem silent : Drift env (Running.Sends 0) Running.SendsOnce where
  refl _ := .same rfl
  trans _ _ _ := .trans
  loses _ := Running.Sends.none (.same rfl)
  trails _ _ _ none once := Running.Sends.once none once
  heap _ _ := .same rfl
  actor _ _ _ _ _ := .same rfl
  handles state effect outside keeps handled := by
    rw [records] at handled
    obtain ⟨_, record⟩ := Handler.recording_eq_ok.mp handled
    exact ⟨[], by simp [Running.sent, Running.record, record, keeps], rfl⟩
  starts _ _ _ _ _ _ := .same rfl
  calls callee args state := by
    have still {after : Running (Recorded σ)} (same : after.outside = state.outside) : state.Sends 0 after :=
      .same (congrArg Prod.snd same)
    refine ((startCall_outside callee args state).weaken (fun _ _ => still) fun _ _ same => (still same).none).bind fun _ middle none => ?_
    refine ((single callee middle).weaken (fun _ _ => none.trans) fun _ _ => none.once).bind fun result after sends => ?_
    cases result with
    | completed value locals => exact sends
    | suspended reason => exact ⟨_, sends, Continuation.sends_le _⟩

/-- An event that is sent is recorded. -/
theorem enqueue_posts (target event payload : Operand) : Posts (fun _ => 1) (env.enqueue act target event payload) := by
  have quiet := silent records single
  refine .bind (eval_moves quiet target) fun _ => .bind (quiet.ofValueOp _) fun machine =>
    .bind (eval_moves quiet event) fun value => ?_
  split
  · refine .bind (eval_moves quiet payload) fun parcel => .bind quiet.readActor fun sender state => ?_
    unfold Ends
    rw [perform_apply, records]
    cases handled : handler.recording state.heap (.enqueue sender.id machine value parcel) state.outside with
    | error cause => exact Running.Sends.none (.same rfl)
    | ok outside =>
        obtain ⟨_, record⟩ := Handler.recording_eq_ok.mp handled
        exact ⟨[.enqueue sender.id machine value parcel], by simp [Running.sent, Running.record, record, Effect.isEnqueue], rfl⟩
  · exact fun state => Running.Sends.none (.same rfl)

end

/-- Where an instruction leads that keeps control: behind it or to a target of the routine, and to no exit. -/
theorem step_goes {τ : Type} {env : Env τ} {instr : Instr} {flow : Flow} {state final : Running τ} (keeps : instr.keepsControl)
    (stepped : env.step act instr state = .ok flow final) : ∃ next, flow = .next next ∧ next.pending = act.pending ∧
      (next.position = act.position ∨ ∃ target ∈ instr.targets, env.routine.position? target = some next.position) := by
  have arrives {target : Target} {place : Nat} {middle : Running τ}
      (arrived : env.position target middle = .ok place final) : env.routine.position? target = some place := by
    unfold position at arrived
    cases leads : env.routine.position? target with
    | none =>
        rw [leads] at arrived
        exact (trap_ne_ok.mp arrived).elim
    | some found =>
        rw [leads] at arrived
        rw [(pure_eq_ok.mp arrived).1]
  by_cases straight : instr.isStraight
  · obtain ⟨next, rfl⟩ := env.step_next straight stepped
    have same := env.step_withData straight stepped
    exact ⟨next, rfl, by rw [← same]; rfl, .inl (by rw [← same]; rfl)⟩
  · cases instr with
    | label _ | mark _ => exact ⟨act, (pure_eq_ok.mp stepped).1.symm, rfl, .inl rfl⟩
    | jump target =>
        obtain ⟨place, _, arrived, went⟩ := bind_eq_ok.mp stepped
        obtain ⟨rfl, rfl⟩ := pure_eq_ok.mp went
        exact ⟨_, rfl, rfl, .inr ⟨target, List.mem_singleton.mpr rfl, arrives arrived⟩⟩
    | jumpUnless cond target =>
        obtain ⟨_, _, _, tested⟩ := bind_eq_ok.mp stepped
        obtain ⟨holds, _, _, went⟩ := bind_eq_ok.mp tested
        cases holds with
        | true =>
            obtain ⟨rfl, rfl⟩ := pure_eq_ok.mp went
            exact ⟨act, rfl, rfl, .inl rfl⟩
        | false =>
            obtain ⟨place, _, arrived, went⟩ := bind_eq_ok.mp went
            obtain ⟨rfl, rfl⟩ := pure_eq_ok.mp went
            exact ⟨_, rfl, rfl, .inr ⟨target, List.mem_singleton.mpr rfl, arrives arrived⟩⟩
    | dispatchReceive arms =>
        obtain ⟨place, _, dispatched, went⟩ := bind_eq_ok.mp stepped
        obtain ⟨rfl, rfl⟩ := pure_eq_ok.mp went
        rcases env.dispatchReceive_startHandler arms with ⟨stop, _, _, failed⟩ | ⟨arm, member, _, _, arrived⟩
        · cases dispatched.symm.trans failed
        · exact ⟨_, rfl, rfl, .inr ⟨.label arm.entry, List.mem_map.mpr ⟨arm, member, rfl⟩, arrives (arrived.symm.trans dispatched)⟩⟩
    | «yield» _ | exit | invoke _ | propagateSuspension _ _ => cases keeps
    | _ => exact absurd rfl straight

theorem request_sends {request : YieldRequest} {result : Activation × Continuation} {state final : Running (Recorded σ)}
    (other : request.isSend = false) (requested : env.request act request state = .ok result final) : result.2.sends = 0 := by
  cases request with
  | send _ => cases other
  | goto | raise | pop | ret | receive _ | nondet _ =>
      cases requested
      rfl
  | new _ _ _ =>
      obtain ⟨_, _, _, saved⟩ := bind_eq_ok.mp requested
      cases saved
      rfl
  | retValue _ =>
      obtain ⟨_, _, _, ended⟩ := bind_eq_ok.mp requested
      cases ended
      rfl

theorem drop_cons {body rest : List Instr} {position : Nat} {instr : Instr} (here : body.drop position = instr :: rest) :
    body[position]? = some instr ∧ body.drop (position + 1) = rest := by
  constructor
  · have first : (body.drop position)[0]? = some instr := by rw [here]; rfl
    rwa [List.getElem?_drop] at first
  · rw [← List.drop_drop, here]
    rfl

/-- A call that has sent nothing yet, or that has sent and is about to say so. -/
inductive Sending (env : Env (Recorded σ)) (before : Running (Recorded σ)) : Activation → Running (Recorded σ) → Prop
  | going {act state} (paired : Paired (env.routine.body.drop act.position)) (none : before.Sends 0 state) :
      Sending env before act state
  | sent {act state resume rest} (here : env.routine.body.drop act.position = .yield (.send resume) :: .exit :: rest)
      (once : before.Sends 1 state) : Sending env before act state
  | leaving {act state result rest} (here : env.routine.body.drop act.position = .exit :: rest)
      (pending : act.pending = some result) (sends : before.Sends result.sends state) : Sending env before act state
  | returned {act state callee resume result rest}
      (here : env.routine.body.drop act.position = .propagateSuspension callee resume :: rest) (paired : Paired rest)
      (last : act.lastCall = some result) (sends : before.Sends result.sends state) : Sending env before act state

/-- What an instruction of such a call may lead to. -/
def Sent (env : Env (Recorded σ)) (before : Running (Recorded σ)) : Flow → Running (Recorded σ) → Prop
  | .next act, state => env.Sending before act state
  | .leave result, state => before.Sends result.sends state

variable {before state : Running (Recorded σ)}

theorem move_sending {handler : Handler σ} (records : env.handler = handler.recording) (single : env.Single)
    (routine : env.routine.Paired) (sending : env.Sending before act state) :
    Ends (env.move act) state (env.Sent before) fun _ after => before.SendsOnce after := by
  have quiet := silent records single
  cases sending with
  | going paired none =>
      generalize ahead : env.routine.body.drop act.position = code at paired
      cases paired with
      | nil =>
          have past : env.routine.body[act.position]? = Option.none := by
            rw [← Nat.add_zero act.position, ← List.getElem?_drop, ahead]
            rfl
          unfold move
          rw [past]
          exact .fail none.none
      | @loose instr rest loose paired =>
          obtain ⟨here, behind⟩ := drop_cons ahead
          have moves : Posts (fun _ => 0) (env.step { act with position := act.position + 1 } instr) :=
            step_moves quiet (fun _ _ _ _ => .same rfl)
              (fun callee same => by subst same; cases loose) (fun _ _ _ same => by subst same; cases loose)
              (fun _ _ _ => .same rfl) fun _ _ _ => .same rfl
          have ends := moves state
          rw [move_of_getElem? here]
          unfold Ends at ends ⊢
          cases stepped : env.step { act with position := act.position + 1 } instr state with
          | error stop after =>
              rw [stepped] at ends
              exact none.once ends
          | ok flow after =>
              rw [stepped] at ends
              obtain ⟨next, rfl, _, same | ⟨target, _, leads⟩⟩ := step_goes (Instr.keepsControl_of_isLoose loose) stepped
              · exact .going (by rw [same, behind]; exact paired) (none.trans ends)
              · exact .going (routine.leads target _ leads) (none.trans ends)
      | @send target event payload resume rest paired =>
          obtain ⟨here, behind⟩ := drop_cons ahead
          rw [move_of_getElem? here]
          refine ((enqueue_posts records single target event payload state).weaken (fun _ _ => none.trans) fun _ _ => none.once).bind ?_
          exact fun _ after once => .pure (.sent behind once)
      | @leave request rest other paired =>
          obtain ⟨here, behind⟩ := drop_cons ahead
          have requests : Posts (fun _ => 0) (env.request { act with position := act.position + 1 } request) :=
            request_composes quiet.composes request fun _ _ _ => .same rfl
          have ends := requests state
          rw [move_of_getElem? here]
          unfold Ends at ends ⊢
          cases requested : env.request { act with position := act.position + 1 } request state with
          | error stop after =>
              rw [requested] at ends
              rw [step, bind_of_error requested]
              exact none.once ends
          | ok result after =>
              rw [requested] at ends
              rw [step, bind_of_ok requested]
              have exits : env.routine.body.drop result.1.position = .exit :: rest := by
                rw [request_position requested]
                exact behind
              refine Sending.leaving exits rfl ?_
              rw [request_sends other requested]
              exact none.trans ends
      | @call callee resume rest paired =>
          obtain ⟨here, behind⟩ := drop_cons ahead
          rw [move_of_getElem? here]
          refine ((single callee state).weaken (fun _ _ => none.trans) fun _ _ => none.once).bind fun result after sends => ?_
          exact .pure (.returned behind paired rfl sends)
  | sent ahead once =>
      obtain ⟨here, behind⟩ := drop_cons ahead
      rw [move_of_getElem? here]
      exact Sending.leaving behind rfl once
  | leaving ahead pending sends =>
      obtain ⟨here, _⟩ := drop_cons ahead
      rw [move_of_getElem? here]
      simp only [step, pending]
      exact .pure sends
  | @returned callee resume result rest ahead paired last sends =>
      obtain ⟨here, behind⟩ := drop_cons ahead
      rw [move_of_getElem? here]
      simp only [step, last]
      cases result with
      | completed value locals => exact .pure (.going (by rw [behind]; exact paired) sends)
      | suspended reason => exact sends

theorem run_sending {handler : Handler σ} (records : env.handler = handler.recording) (single : env.Single)
    (routine : env.routine.Paired) (steps : Nat) (sending : env.Sending before act state) :
    Ends (env.run steps act) state (fun result after => before.Sends result.sends after) fun _ after => before.SendsOnce after := by
  induction steps generalizing act state with
  | zero =>
      cases sending with
      | going _ none => exact none.none
      | sent _ once => exact ⟨1, once, Nat.le_refl 1⟩
      | leaving _ _ sends | returned _ _ _ sends => exact ⟨_, sends, Continuation.sends_le _⟩
  | succ steps ih =>
      rw [run_succ]
      refine (move_sending records single routine sending).bind fun flow after sent => ?_
      cases flow with
      | next act => exact ih sent
      | leave result => exact .pure sent

end Env

namespace RunConfig

variable {config : RunConfig σ}

/-- An execution sends once if it hands back that it has sent, and if it hands back anything else, not at all. -/
theorem executeWithin_posts (paired : config.image.Paired) (levels : Nat) (function : FunctionId) :
    Posts Continuation.sends (config.recording.executeWithin levels function) := by
  induction levels generalizing function with
  | zero => exact fun state => Running.Sends.none (.same rfl)
  | succ levels ih =>
      intro state
      have still {after : Running (Recorded σ)} (same : after.outside = state.outside) : state.Sends 0 after :=
        .same (congrArg Prod.snd same)
      refine ((enter_enters function state).weaken (fun _ _ => id) fun _ _ same => (still same).none).bind ?_
      rintro ⟨routine, act⟩ before ⟨found, place, _, outside⟩
      have none := still outside
      have read : (get : Exec (Recorded σ) _) before = .ok before before := rfl
      refine .after read ?_
      split
      · exact none.none
      · let env : Env (Recorded σ) := ⟨config.image, routine, config.recording.handler, config.recording.executeWithin levels⟩
        have routinePaired : routine.Paired := paired function routine found
        have ahead : Paired (routine.body.drop act.position) := by
          rcases place with start | ⟨label, leads⟩
          · rw [start]
            exact routinePaired.body
          · exact routinePaired.leads (.label label) _ leads
        have sending : env.Sending state act { before with depth := before.depth + 1 } := .going ahead none
        have runs := env.run_sending rfl ih routinePaired config.steps sending
        exact .counted runs (fun _ _ sends => sends) fun _ _ once => once

end RunConfig

end Reentry
