import Reentry.Proofs.Execution.Monad
import Reentry.Proofs.Execution.Parts
import Reentry.Proofs.Execution.Views
import Reentry.Proofs.Frames.Calm

/-!
Runs that keep a record of their calls: each is noted when it has passed the checks of its frame and becomes
active, and when it is over or has given up control; and it is noted if it has passed the checks but is refused
because too many calls are active. The record lies outside the actor, where neither the code nor the handler of
effects can see it: without it, such a run is the run itself.
-/

namespace Reentry

/-- What happens to the calls of a run. -/
inductive CallEvent where
  | entered (function : FunctionId)
  /-- The frame of the call was in order, but too many calls were active. -/
  | refused (function : FunctionId)
  /-- The call that was entered last and is still active has left. -/
  | left
deriving DecidableEq, Repr

/-- Functions of the calls that are active after these events, the innermost first, if these were active before. -/
def CallEvent.active? : List FunctionId → List CallEvent → Option (List FunctionId)
  | calls, [] => some calls
  | calls, .entered function :: rest => active? (function :: calls) rest
  | calls, .refused _ :: rest => active? calls rest
  | _ :: calls, .left :: rest => active? calls rest
  | [], .left :: _ => none

/-- What lies outside, and a record of calls, its first event first. -/
abbrev Traced (σ : Type) := σ × List CallEvent

variable {σ α : Type}

/-- The handler of effects does not touch the record. -/
def Handler.traced (handler : Handler σ) : Handler (Traced σ) := fun heap effect outside =>
  (handler heap effect outside.1).map (·, outside.2)

namespace Running

/-- The state with an empty record. -/
def traced (state : Running σ) : Running (Traced σ) := ⟨state.heap, state.actor, (state.outside, []), state.depth⟩

abbrev events (state : Running (Traced σ)) : List CallEvent := state.outside.2

def tell (state : Running (Traced σ)) (event : CallEvent) : Running (Traced σ) :=
  { state with outside := (state.outside.1, state.events ++ [event]) }

end Running

namespace Exec

/-- Carries out a call, and notes that it is entered and that it leaves, however it ends. -/
def tracing (function : FunctionId) (call : Exec (Traced σ) α) : Exec (Traced σ) α := fun state =>
  match call (state.tell (.entered function)) with
  | .ok result after => .ok result (after.tell .left)
  | .error stop after => .error stop (after.tell .left)

end Exec

namespace RunConfig

/-- Runs a function and keeps a record of calls. -/
def traceWithin (config : RunConfig (Traced σ)) : Nat → FunctionId → Exec (Traced σ) Continuation
  | 0, _ => throw .outOfSteps
  | levels + 1, function => do
      let (routine, act) ← config.enter function
      if config.depthLimit ≤ (← get).depth then
        modify (·.tell (.refused function))
        Exec.fail (.callDepthExceeded config.depthLimit)
      else
        let env : Env (Traced σ) := ⟨config.image, routine, config.handler, traceWithin config levels⟩
        Exec.tracing function (Exec.counted (env.run config.steps act))

variable (config : RunConfig σ)

def traced : RunConfig (Traced σ) := ⟨config.image, config.handler.traced, config.depthLimit, config.steps⟩

/-- Runs a function on the frame at the top of the actor's stack, with an empty record at first. -/
def trace (levels : Nat) (function : FunctionId) (state : Running σ) : EStateM.Result Stop (Running (Traced σ)) Continuation :=
  config.traced.traceWithin levels function state.traced

end RunConfig

open Exec

theorem RunConfig.traced_views (config : RunConfig σ) : config.traced.Views Prod.fst config where
  image := rfl
  handler heap effect outside := by
    change ((config.handler heap effect outside.1).map _).map _ = _
    cases config.handler heap effect outside.1 <;> rfl
  depthLimit := rfl
  steps := rfl

theorem Exec.Views.tracing {function : FunctionId} {call : Exec (Traced σ) α} {plain : Exec σ α}
    (views : Views Prod.fst call plain) : Views Prod.fst (tracing function call) plain := by
  intro state
  unfold Exec.tracing
  have same : (state.tell (.entered function)).through Prod.fst = state.through Prod.fst := rfl
  rw [← same, ← views (state.tell (.entered function))]
  cases call (state.tell (.entered function)) <;> rfl

namespace RunConfig

theorem traceWithin_views (config : RunConfig σ) (levels : Nat) (function : FunctionId) :
    Exec.Views Prod.fst (config.traced.traceWithin levels function) (config.executeWithin levels function) := by
  induction levels generalizing function with
  | zero => exact .throw
  | succ levels ih =>
      refine .bind (enter_views config.traced_views function) fun entered => .get fun state => ?_
      have same : config.traced.depthLimit = config.depthLimit := rfl
      have depth : (state.through Prod.fst).depth = state.depth := rfl
      rw [same, depth]
      split
      · exact fun _ => rfl
      · have surroundings : Env.Views Prod.fst
            ⟨config.image, entered.1, config.traced.handler, config.traced.traceWithin levels⟩
            ⟨config.image, entered.1, config.handler, config.executeWithin levels⟩ :=
          ⟨rfl, rfl, config.traced_views.handler, ih⟩
        exact .tracing (.counted (Env.run_views surroundings _ _))

/-- Keeping a record of calls does not change a run. -/
theorem trace_seen (config : RunConfig σ) (levels : Nat) (function : FunctionId) (state : Running σ) :
    seen Prod.fst (config.trace levels function state) = config.executeWithin levels function state :=
  traceWithin_views config levels function state.traced

end RunConfig

end Reentry

/-!
How many calls are active. A run leaves as many calls active as it has found, however it ends; a call is entered
only below the limit and refused only at the limit; and a run fails for want of room just if a call is refused.
-/

namespace Reentry

open Exec

namespace CallEvent

variable {limit : Nat} {calls now : List FunctionId} {first second events : List CallEvent} {function : FunctionId}

/-- Whether calls are entered only below the limit, and refused only at the limit. -/
def Obey (limit : Nat) : List FunctionId → List CallEvent → Prop
  | _, [] => True
  | calls, .entered function :: rest => calls.length < limit ∧ Obey limit (function :: calls) rest
  | calls, .refused _ :: rest => limit ≤ calls.length ∧ Obey limit calls rest
  | _ :: calls, .left :: rest => Obey limit calls rest
  | [], .left :: _ => False

theorem active?_append : active? calls (first ++ second) = (active? calls first).bind (active? · second) := by
  induction calls, first using active?.induct with
  | case1 => rfl
  | case2 _ _ _ ih | case3 _ _ _ ih | case4 _ _ _ ih => exact ih
  | case5 => rfl

theorem obey_append (ends : active? calls first = some now) :
    Obey limit calls (first ++ second) ↔ Obey limit calls first ∧ Obey limit now second := by
  induction calls, first using active?.induct with
  | case1 =>
      cases ends
      exact ⟨fun obeys => ⟨trivial, obeys⟩, And.right⟩
  | case2 _ _ _ ih | case3 _ _ _ ih => exact (and_congr_right fun _ => ih ends).trans and_assoc.symm
  | case4 _ _ _ ih => exact ih ends
  | case5 => cases ends

/-- What is known of every moment of a record that keeps to the limit. -/
theorem Obey.counts {future : List CallEvent} (obeys : Obey limit calls (first ++ future)) (room : calls.length ≤ limit) :
    ∃ now, active? calls first = some now ∧ now.length ≤ limit ∧
      (∀ function rest, future = .entered function :: rest → now.length < limit) ∧
      ∀ function rest, future = .refused function :: rest → now.length = limit := by
  induction calls, first using active?.induct with
  | case1 calls =>
      refine ⟨calls, rfl, room, ?_, ?_⟩
      · rintro function rest rfl
        exact obeys.1
      · rintro function rest rfl
        exact Nat.le_antisymm room obeys.1
  | case2 calls function rest ih => exact ih obeys.2 obeys.1
  | case3 calls function rest ih => exact ih obeys.2 room
  | case4 function calls rest ih => exact ih obeys (Nat.le_of_succ_le room)
  | case5 => exact obeys.elim

/-- Every call that is entered leaves, the one that was entered last before the others, and the limit is kept. -/
structure Bracketed (limit : Nat) (calls : List FunctionId) (events : List CallEvent) : Prop where
  closed : active? calls events = some calls
  obeys : Obey limit calls events

namespace Bracketed

theorem nil : Bracketed limit calls [] := ⟨rfl, trivial⟩

theorem append (before : Bracketed limit calls first) (behind : Bracketed limit calls second) :
    Bracketed limit calls (first ++ second) :=
  ⟨by rw [active?_append, before.closed]; exact behind.closed, (obey_append before.closed).mpr ⟨before.obeys, behind.obeys⟩⟩

theorem refused (full : limit ≤ calls.length) : Bracketed limit calls [.refused function] := ⟨rfl, full, trivial⟩

/-- A call that is entered and leaves. -/
theorem call (room : calls.length < limit) (inside : Bracketed limit (function :: calls) events) :
    Bracketed limit calls (.entered function :: (events ++ [.left])) := by
  refine ⟨?_, room, (obey_append inside.closed).mpr ⟨inside.obeys, trivial⟩⟩
  change active? (function :: calls) (events ++ [.left]) = _
  rw [active?_append, inside.closed]
  rfl

end Bracketed

end CallEvent

open CallEvent

variable {σ : Type} {limit : Nat} {env : Env (Traced σ)} {plain : Handler σ} {act : Activation}

/-- What is added to a record while the number of active calls comes back to what it was. -/
structure Running.Logs (limit : Nat) (state : Running (Traced σ)) (news : List CallEvent) (after : Running (Traced σ)) : Prop where
  depth : after.depth = state.depth
  events : after.events = state.events ++ news
  bracketed : ∀ calls : List FunctionId, calls.length = state.depth → Bracketed limit calls news

namespace Running.Logs

variable {state middle after : Running (Traced σ)} {news more : List CallEvent}

theorem quiet (depth : after.depth = state.depth) (outside : after.outside = state.outside) : Logs limit state [] after :=
  ⟨depth, by rw [List.append_nil, Running.events, outside], fun _ _ => .nil⟩

theorem trans (before : Logs limit state news middle) (behind : Logs limit middle more after) :
    Logs limit state (news ++ more) after where
  depth := behind.depth.trans before.depth
  events := by rw [behind.events, before.events, List.append_assoc]
  bracketed calls same := (before.bracketed calls same).append (behind.bracketed calls (same.trans before.depth.symm))

end Running.Logs

/-- Whether a run that stops so, with this record of its calls, stops for want of room just if a call was refused,
unless the handler of effects fails in this way. -/
structure Handler.Explains (plain : Handler σ) (limit : Nat) (news : List CallEvent) (stop : Stop) : Prop where
  refused : ∀ function, .refused function ∈ news → stop = .failed (.callDepthExceeded limit)
  exceeded : ∀ bound, stop = .failed (.callDepthExceeded bound) →
    (bound = limit ∧ ∃ function, .refused function ∈ news) ∨ plain.Raises (.callDepthExceeded bound)

/-- The work leaves as many calls active as it has found, keeps the limit, and stops for want of room just if it refuses
a call. -/
abbrev Handler.Counts (plain : Handler σ) (limit : Nat) : Exec.Trait (Traced σ) := fun _ work => ∀ state, Ends work state
  (fun _ after => ∃ news, state.Logs limit news after ∧ ∀ function, .refused function ∉ news)
  fun stop after => ∃ news, state.Logs limit news after ∧ plain.Explains limit news stop

namespace Handler.Explains

variable {news : List CallEvent} {stop : Stop}

theorem quiet (other : ∀ bound, stop ≠ .failed (.callDepthExceeded bound)) : plain.Explains limit [] stop :=
  ⟨nofun, fun bound same => absurd same (other bound)⟩

end Handler.Explains

namespace Handler.Counts

variable {α β : Type} {work : Exec (Traced σ) α} {rest : α → Exec (Traced σ) β}

theorem pure (value : α) : plain.Counts limit α (Pure.pure value) := fun _ => ⟨[], .quiet rfl rfl, nofun⟩

theorem bind (first : plain.Counts limit α work) (next : ∀ value, plain.Counts limit β (rest value)) :
    plain.Counts limit β (work >>= rest) := by
  refine fun state => (first state).bind ?_
  rintro value middle ⟨news, logged, granted⟩
  refine (next value middle).weaken ?_ ?_
  · rintro result after ⟨more, logged', granted'⟩
    refine ⟨news ++ more, logged.trans logged', fun function among => ?_⟩
    exact (List.mem_append.mp among).elim (granted function) (granted' function)
  · rintro stop after ⟨more, logged', explains⟩
    refine ⟨news ++ more, logged.trans logged', fun function among => ?_, fun bound same => ?_⟩
    · exact (List.mem_append.mp among).elim (fun among => absurd among (granted function)) (explains.refused function)
    · exact (explains.exceeded bound same).imp_left fun ⟨same, function, among⟩ =>
        ⟨same, function, List.mem_append_right _ among⟩

theorem fail {cause : RuntimeFailure} (other : ∀ bound, cause ≠ .callDepthExceeded bound) :
    plain.Counts limit α (Exec.fail cause) := fun _ =>
  ⟨[], .quiet rfl rfl, .quiet fun bound same => other bound (Stop.failed.inj same)⟩

theorem trap {function : String} {reason : Trap} : plain.Counts limit α (Exec.trap function reason) := fail nofun

theorem modifyActor (change : Actor → Actor) : plain.Counts limit Unit (Exec.modifyActor change) :=
  fun _ => ⟨[], .quiet rfl rfl, nofun⟩

theorem get : plain.Counts limit (Running (Traced σ)) MonadState.get := fun _ => ⟨[], .quiet rfl rfl, nofun⟩

theorem actor : plain.Counts limit Actor Exec.actor := fun _ => ⟨[], .quiet rfl rfl, nofun⟩

theorem perform (effect : Effect) : plain.Counts limit Unit (Exec.perform plain.traced effect) := by
  intro state
  unfold Ends
  rw [perform_apply, Handler.traced]
  cases raised : plain state.heap effect state.outside.1 with
  | ok outside => exact ⟨[], ⟨rfl, (List.append_nil _).symm, fun _ _ => .nil⟩, nofun⟩
  | error cause => exact ⟨[], .quiet rfl rfl, nofun, fun bound same => .inr ⟨_, _, _, raised.trans (by rw [Stop.failed.inj same])⟩⟩

theorem startCall (callee : FunctionId) (args : List Value) : plain.Counts limit Unit (env.startCall callee args) := by
  refine fun state => (env.startCall_fails_locally callee args state).weaken (fun _ after same => ?_) ?_
  · exact ⟨[], .quiet same.2 same.1, nofun⟩
  · rintro _ _ ⟨rfl, cause, rfl, isLocal⟩
    refine ⟨[], .quiet rfl rfl, .quiet fun bound same => ?_⟩
    cases Stop.failed.inj same
    cases isLocal

/-- A call that is entered while there is room. -/
theorem tracing {function : FunctionId} {call : Exec (Traced σ) α} {state : Running (Traced σ)}
    (counts : plain.Counts limit α call) (room : state.depth < limit) :
    Ends (Exec.tracing function (Exec.counted call)) state
      (fun _ after => ∃ news, state.Logs limit news after ∧ ∀ function, .refused function ∉ news)
      fun stop after => ∃ news, state.Logs limit news after ∧ plain.Explains limit news stop := by
  have around {news : List CallEvent} {after : Running (Traced σ)}
      (logged : Running.Logs limit { state.tell (.entered function) with depth := state.depth + 1 } news after) :
      state.Logs limit (.entered function :: (news ++ [.left])) (Running.tell { after with depth := after.depth - 1 } .left) := by
    refine ⟨congrArg (· - 1) logged.depth, ?_, fun calls same => ?_⟩
    · change after.events ++ [.left] = _
      rw [logged.events]
      simp [Running.events, Running.tell]
    · exact .call (same ▸ room) (logged.bracketed (function :: calls) (congrArg (· + 1) same))
  have among {news : List CallEvent} {callee : FunctionId} :
      .refused callee ∈ .entered function :: (news ++ [.left]) ↔ .refused callee ∈ news := by simp
  have called : Ends (Exec.counted call) (state.tell (.entered function))
      (fun _ after => ∃ news, state.Logs limit news (after.tell .left) ∧ ∀ function, .refused function ∉ news)
      fun stop after => ∃ news, state.Logs limit news (after.tell .left) ∧ plain.Explains limit news stop := by
    refine .counted (counts _) ?_ ?_
    · rintro result after ⟨news, logged, granted⟩
      exact ⟨_, around logged, fun callee mem => granted callee (among.mp mem)⟩
    · rintro stop after ⟨news, logged, explains⟩
      refine ⟨_, around logged, fun callee mem => explains.refused callee (among.mp mem), fun bound same => ?_⟩
      exact (explains.exceeded bound same).imp_left fun ⟨same, callee, mem⟩ => ⟨same, callee, among.mpr mem⟩
  unfold Ends Exec.tracing at *
  cases ended : Exec.counted call (state.tell (.entered function)) with
  | ok result after | error stop after =>
      rw [ended] at called
      exact called

/-- Nothing of which an instruction is made leaks a call, if callees do not. -/
theorem composes (env : Env (Traced σ)) (handler : env.handler = plain.traced)
    (invokes : ∀ callee, plain.Counts limit Continuation (env.invoke callee)) : Composes env (plain.Counts limit) where
  pure := pure
  bind := bind
  fail isLocal := fail (by rintro bound rfl; cases isLocal)
  get := get
  alloc _ _ := ⟨[], .quiet rfl rfl, nofun⟩
  values work state := by
    unfold Ends
    rw [ofValueOp_apply]
    cases work.run state.heap with
    | ok pair => exact ⟨[], .quiet rfl rfl, nofun⟩
    | error error => exact ⟨[], .quiet rfl rfl, .quiet nofun⟩
  actor change _ := modifyActor change
  perform effect _ := handler ▸ perform effect
  start := startCall
  call callee args := bind (startCall callee args) fun _ => bind (invokes callee) fun result => by
    cases result with
    | completed value locals => exact pure _
    | suspended reason => exact trap

end Handler.Counts

namespace Env

variable (handler : env.handler = plain.traced) (invokes : ∀ callee, plain.Counts limit Continuation (env.invoke callee))
include handler invokes

theorem step_counts (act : Activation) (instr : Instr) : plain.Counts limit Flow (env.step act instr) := by
  have parts := Handler.Counts.composes env handler invokes
  have sets (change : Actor → Actor) := @Handler.Counts.modifyActor _ limit plain change
  refine step_composes parts (fun target _ => ?_) (fun _ _ _ => .bind (sets _) fun _ => .pure _) (fun callee _ => invokes callee)
    (fun target event payload _ => ?_) (fun _ _ => sets _) fun _ _ => sets _
  · unfold position
    split
    · exact .pure _
    · exact .trap
  · exact enqueue_composes parts target event payload fun _ _ _ _ => handler ▸ .perform _

theorem run_counts (steps : Nat) (act : Activation) : plain.Counts limit Continuation (env.run steps act) := by
  induction steps generalizing act with
  | zero => exact fun _ => ⟨[], .quiet rfl rfl, .quiet nofun⟩
  | succ steps ih =>
      rw [run_succ]
      refine .bind ?_ fun flow => ?_
      · unfold move
        split
        · exact .trap
        · exact step_counts handler invokes _ _
      · cases flow with
        | next after => exact ih after
        | leave result => exact .pure result

end Env

namespace RunConfig

theorem enter_counts (config : RunConfig (Traced σ)) (function : FunctionId) :
    plain.Counts limit (Routine × Activation) (config.enter function) := by
  unfold enter
  split
  · exact .bind .actor fun _ => .trap
  · refine .bind (.bind .actor fun actor => ?_) fun frame => .bind .actor fun actor => ?_
    · split
      · exact .trap
      · exact .bind (.modifyActor _) fun _ => .pure _
    · dsimp only
      split
      · exact .trap
      · split
        · exact .trap
        · split
          · exact .trap
          · split
            · exact .trap
            · split
              · exact .trap
              · exact .pure _

theorem traceWithin_counts (config : RunConfig σ) (levels : Nat) (function : FunctionId) :
    config.handler.Counts config.depthLimit Continuation (config.traced.traceWithin levels function) := by
  induction levels generalizing function with
  | zero => exact fun _ => ⟨[], .quiet rfl rfl, .quiet nofun⟩
  | succ levels ih =>
      refine .bind (enter_counts config.traced function) fun ⟨routine, act⟩ state => ?_
      have read : (MonadState.get : Exec (Traced σ) _) state = .ok state state := rfl
      refine .after read ?_
      dsimp only
      split
      next full =>
        refine ⟨[.refused function], ⟨rfl, rfl, fun calls counted => .refused (counted ▸ full)⟩, fun _ _ => rfl, ?_⟩
        intro bound stopped
        cases stopped
        exact .inl ⟨rfl, function, List.mem_singleton_self _⟩
      next room => exact Handler.Counts.tracing (Env.run_counts rfl ih config.steps act) (Nat.lt_of_not_le room)

/-- Numbers of active calls that one interpreter may count to after a number of executes, whatever they are run on and
however they end. -/
inductive Counter (config : RunConfig σ) : Nat → Prop
  | fresh : Counter config 0
  | executed {depth : Nat} (counter : Counter config depth) (function : FunctionId) (heap : Heap) (actor : Actor) (outside : σ) :
      Counter config (final (config.execute function ⟨heap, actor, outside, depth⟩)).depth

variable (config : RunConfig σ)

theorem logged (levels : Nat) (function : FunctionId) (state : Running σ) :
    Ends (config.traced.traceWithin levels function) state.traced
      (fun _ after => state.traced.Logs config.depthLimit after.events after ∧ ∀ callee, .refused callee ∉ after.events)
      fun stop after => state.traced.Logs config.depthLimit after.events after ∧
        config.handler.Explains config.depthLimit after.events stop := by
  refine (config.traceWithin_counts levels function state.traced).weaken ?_ ?_
  all_goals
    rintro _ after ⟨news, logged, rest⟩
    have same : after.events = news := logged.events
    exact ⟨same ▸ logged, same ▸ rest⟩

theorem trace_logs (levels : Nat) (function : FunctionId) (state : Running σ) :
    state.traced.Logs config.depthLimit (final (config.trace levels function state)).events
      (final (config.trace levels function state)) := by
  have logged := config.logged levels function state
  unfold Ends at logged
  unfold trace final
  split at logged
  all_goals
    next ended =>
      rw [ended]
      exact logged.1

/-- A run leaves as many calls active as it has found, however it ends. -/
theorem executeWithin_depth (levels : Nat) (function : FunctionId) (state : Running σ) :
    (final (config.executeWithin levels function state)).depth = state.depth := by
  have depth := (config.trace_logs levels function state).depth
  rw [← config.trace_seen levels function state]
  unfold seen final at *
  cases ended : config.trace levels function state with
  | ok _ after | error _ after =>
      rw [ended] at depth
      exact depth

theorem Counter.eq_zero {config : RunConfig σ} {depth : Nat} (counter : config.Counter depth) : depth = 0 := by
  induction counter with
  | fresh => rfl
  | executed _ function heap actor outside ih => exact (config.executeWithin_depth _ function _).trans ih

/-- The number of active calls never leaks: every execute leaves it as it was, so an interpreter that has been used
works as a fresh one. Never are more calls active than the limit allows, and a run fails for want of room just if a
call whose frame is in order is refused because as many calls are active. -/
theorem active_calls_are_counted :
    (∀ levels function state, (final (config.executeWithin levels function state)).depth = state.depth) ∧
    (∀ depth, config.Counter depth → ∀ function heap actor outside,
      config.execute function ⟨heap, actor, outside, depth⟩ = config.execute function ⟨heap, actor, outside, 0⟩) ∧
    ∀ levels function state, state.depth = 0 →
      let log := (final (config.trace levels function state)).events
      seen Prod.fst (config.trace levels function state) = config.executeWithin levels function state ∧
      active? [] log = some [] ∧
      (∀ past future, log = past ++ future → ∃ now, active? [] past = some now ∧ now.length ≤ config.depthLimit ∧
        (∀ callee rest, future = .entered callee :: rest → now.length < config.depthLimit) ∧
        ∀ callee rest, future = .refused callee :: rest → now.length = config.depthLimit) ∧
      (∀ callee, .refused callee ∈ log →
        ∃ after, config.executeWithin levels function state = .error (.failed (.callDepthExceeded config.depthLimit)) after) ∧
      ∀ bound after, config.executeWithin levels function state = .error (.failed (.callDepthExceeded bound)) after →
        (bound = config.depthLimit ∧ ∃ callee, .refused callee ∈ log) ∨ config.handler.Raises (.callDepthExceeded bound) := by
  refine ⟨config.executeWithin_depth, fun depth counter function heap actor outside => by rw [counter.eq_zero], ?_⟩
  intro levels function state none
  have logged := config.logged levels function state
  obtain ⟨closed, obeys⟩ := (config.trace_logs levels function state).bracketed [] none.symm
  refine ⟨config.trace_seen levels function state, closed, fun past future same => ?_, ?_⟩
  · rw [same] at obeys
    exact obeys.counts (Nat.zero_le _)
  · rw [← config.trace_seen levels function state]
    unfold Ends at logged
    unfold trace final seen
    split at logged
    next result after ended =>
      rw [ended]
      refine ⟨fun callee mem => absurd mem (logged.2 callee), fun bound final same => ?_⟩
      cases same
    next stop after ended =>
      rw [ended]
      refine ⟨fun callee mem => ⟨_, by rw [logged.2.refused callee mem]⟩, fun bound final same => ?_⟩
      cases same
      exact logged.2.exceeded bound rfl

end RunConfig

namespace Sample

/-- Calls itself over and over. -/
def endless : Routine :=
  ⟨⟨0⟩, "endless", none, ⟨⟨0⟩, "endless", [], 0⟩, 0, none, [.pushFrame ⟨0⟩ [], .invoke ⟨0⟩, .exit], []⟩

/-- Two calls may be active at once. -/
def shallow : RunConfig Unit := ⟨⟨"", [endless], [], []⟩, fun _ _ outside => .ok outside, 2, 9⟩

def ready : Running Unit :=
  ⟨.empty, ⟨⟨0⟩, ⟨0⟩, "Player", [], .null, .null, none, [], ⟨none, none⟩, [⟨⟨0⟩, [], .start, none, []⟩]⟩, (), 0⟩

end Sample

theorem endless_calls_are_counted :
    (final (Sample.shallow.trace 3 ⟨0⟩ Sample.ready)).events = [.entered ⟨0⟩, .entered ⟨0⟩, .refused ⟨0⟩, .left, .left] ∧
      (∃ after, Sample.shallow.executeWithin 3 ⟨0⟩ Sample.ready =
        .error (.failed (.callDepthExceeded Sample.shallow.depthLimit)) after) ∧ Sample.shallow.Counter 0 := by
  have events : (final (Sample.shallow.trace 3 ⟨0⟩ Sample.ready)).events =
      [.entered ⟨0⟩, .entered ⟨0⟩, .refused ⟨0⟩, .left, .left] := by rfl
  obtain ⟨_, _, counted⟩ := RunConfig.active_calls_are_counted Sample.shallow
  obtain ⟨_, _, _, refused, _⟩ := counted 3 ⟨0⟩ Sample.ready rfl
  have exceeded := refused ⟨0⟩ (by rw [events]; decide)
  exact ⟨events, exceeded, .fresh⟩

end Reentry
