import Reentry.Proofs.Events.Raised
import Reentry.Proofs.Locations.Swap

/-!
Raise and send statements of accepted programs. Their code evaluates the event once to check it and once more to use it.
Where no function is called on the way, that cannot be told from evaluating it once; where a function is called, it is
called twice.
-/

namespace Reentry

namespace Env

variable {σ : Type}

/-- A raise goes as if its event were evaluated once: it fails alike, or the trigger, the payload and everything else are
the same afterwards up to the names of cells. -/
def RaisesOnce (env : Env σ) (message : String) (event payload : Operand) : Prop :=
  ∀ (outer : Pairing → σ → σ → Prop) (pairs : Pairing) (state other : Running σ) (act act' : Activation) (steps : Nat),
    env.Blind outer → act.Twin pairs act' → CodeAt env.routine.body act.position (Template.raise message event payload) →
    Exec.Twin outer pairs state other (env.run (steps + 5) act) (env.raiseOnce act' message event payload) Continuation.Twin

/-- A send goes as if its event were evaluated once: it fails alike, or what has been put into the mailbox and everything
else are the same afterwards up to the names of cells. -/
def SendsOnce (env : Env σ) (message : String) (target event payload : Operand) (resume : LabelId) : Prop :=
  ∀ (outer : Pairing → σ → σ → Prop) (pairs : Pairing) (state other : Running σ) (act act' : Activation) (steps : Nat),
    env.Blind outer → act.Twin pairs act' → CodeAt env.routine.body act.position (Template.send message target event payload resume) →
    Exec.Twin outer pairs state other (env.run (steps + 4) act) (env.sendOnce act' message target event payload resume) Continuation.Twin

theorem raisesOnce (env : Env σ) (message : String) {event : Operand} (free : event.isCallFree) (payload : Operand) :
    env.RaisesOnce message event payload := fun _ _ _ _ _ _ steps blind acts placed =>
  run_raise_once blind acts (eval_rests event free) placed steps

theorem recipient_rests {env : Env σ} {act : Activation} {target : Operand} (free : target.isCallFree) : (env.recipient act target).Resting :=
  .bind (eval_rests target free) fun _ => .quiet (.asMachine _ _)

theorem sendsOnce (env : Env σ) (message : String) {target event : Operand} (free : target.isCallFree) (free' : event.isCallFree)
    (payload : Operand) (resume : LabelId) : env.SendsOnce message target event payload resume := fun _ _ _ _ _ _ steps blind acts placed =>
  run_send_once blind acts (eval_rests event free') (recipient_rests free) (recipient_rests free) placed steps

end Env

open Lower

section

variable {scope : Lowering.Scope} {start stop : Lowering.Progress} {inNew : Bool} {access : Access} {span : Span} {code : List Instr}

/-- What a raise is lowered to. -/
theorem NodeKind.raise_eq_ok {event : Node} {args : Option Node}
    (succeeds : (NodeKind.raise event args).lower inNew access span scope start = .ok (.code code, stop)) :
    ∃ message operand payload between middle, event.lower inNew .read scope between = .ok (.value operand, middle) ∧
      code = Template.raise message operand payload := by
  simp only [NodeKind.lower, Lower.raise, bind_eq_ok, map_eq_ok, expectValue_eq_ok, pure_eq_ok, Fragment.code.injEq] at succeeds
  obtain ⟨_, between, _, _, middle, lowered, _, _, _, _, ⟨operand, _, ⟨rfl, _⟩, payload, _, _, message, _, _, rfl, rfl⟩, rfl⟩ := succeeds
  exact ⟨message, operand, payload, between, middle, lowered, rfl⟩

/-- What a send is lowered to. -/
theorem NodeKind.send_eq_ok {target event : Node} {args : Option Node}
    (succeeds : (NodeKind.send target event args).lower inNew access span scope start = .ok (.code code, stop)) :
    ∃ message aim operand payload resume between middle last, target.lower inNew .read scope between = .ok (.value aim, middle) ∧
      event.lower inNew .read scope middle = .ok (.value operand, last) ∧ code = Template.send message aim operand payload resume := by
  simp only [NodeKind.lower, Lower.send, bind_eq_ok, map_eq_ok, expectValue_eq_ok, pure_eq_ok, Fragment.code.injEq] at succeeds
  obtain ⟨_, between, _, _, middle, first, _, last, second, _, _, _, _,
    ⟨aim, _, ⟨rfl, _⟩, operand, _, ⟨rfl, _⟩, payload, _, _, message, _, _, resume, _, _, rfl, rfl⟩, rfl⟩ := succeeds
  exact ⟨message, aim, operand, payload, resume, between, middle, last, first, second, rfl⟩

end

/-- In an accepted program, a raise and a send without calls go as if the event were evaluated once, so that the value
that is stored or sent is the one that has been checked; and if no raised event calls anything, then what an execution has
raised is not null. -/
theorem lowered_events_are_used_once {program : Program} {options : LowerOptions} {image : Image}
    (accepted : program.lower options = .ok image) :
    (∀ {scope start stop inNew access id span event args code},
      (Node.mk id span (.raise event args)).lower inNew access scope start = .ok (.code code, stop) →
      ∃ choices asks message operand payload between middle, Spells (Outline.chooseAll choices) asks ∧
        code = asks ++ Template.raise message operand payload ∧ event.lower inNew .read scope between = .ok (.value operand, middle) ∧
        (event.isCallFree → ∀ {σ : Type} (env : Env σ), env.RaisesOnce message operand payload)) ∧
    (∀ {scope start stop inNew access id span target event args code},
      (Node.mk id span (.send target event args)).lower inNew access scope start = .ok (.code code, stop) →
      ∃ choices asks message aim operand payload resume between middle last, Spells (Outline.chooseAll choices) asks ∧
        code = asks ++ Template.send message aim operand payload resume ∧
        target.lower inNew .read scope between = .ok (.value aim, middle) ∧ event.lower inNew .read scope middle = .ok (.value operand, last) ∧
        (target.isCallFree → event.isCallFree → ∀ {σ : Type} (env : Env σ), env.SendsOnce message aim operand payload resume)) ∧
    ((∀ info ∈ program.functions, info.body.Every NodeKind.RaisesPlainly fun _ => True) →
      ∀ {σ : Type} {outer : Pairing → σ → σ → Prop} (config : RunConfig σ) function state after, config.image = image →
        config.handler.Blind outer → state.Intact outer → config.execute function state = .ok (.suspended .raise) after →
        after.actor.trigger ≠ .null) := by
  refine ⟨fun given => ?_, fun given => ?_, fun plainly σ outer config function state after same blind intact raised => ?_⟩
  · obtain ⟨own, _, choices, asks, lowered, asked, rfl⟩ := Node.lower_statement_eq_ok ⟨rfl, rfl⟩ given
    obtain ⟨message, operand, payload, between, middle, first, rfl⟩ := NodeKind.raise_eq_ok lowered
    exact ⟨choices, asks, message, operand, payload, between, middle, asked, rfl, first,
      fun free _ env => env.raisesOnce message (Node.lower_callFree _ free first) payload⟩
  · obtain ⟨own, _, choices, asks, lowered, asked, rfl⟩ := Node.lower_statement_eq_ok ⟨rfl, rfl⟩ given
    obtain ⟨message, aim, operand, payload, resume, between, middle, last, first, second, rfl⟩ := NodeKind.send_eq_ok lowered
    exact ⟨choices, asks, message, aim, operand, payload, resume, between, middle, last, asked, rfl, first, second,
      fun free free' _ env => env.sendsOnce message (Node.lower_callFree _ free first) (Node.lower_callFree _ free' second) payload resume⟩
  · subst same
    exact RunConfig.execute_raises (Program.lower_guarded accepted plainly) blind intact raised

namespace Sample

/-- Prints, counts its calls in the field of its machine, and gives an event at the first call and null later on. -/
def pick : FunctionInfo where
  name := "pick"
  params := []
  locals := []
  returnType := some .event
  slotCount := 0
  owner := none
  types := .empty
  body :=
    let count := node (.name (.field 0))
    let one := node (.lit (.int 1))
    node (.block [
      node (.print "picked" none),
      node (.assign count (node (.binary .add count one)) .none),
      node (.branch (node (.binary .eq count one)) (node (.ret (some (node (.name (.event ⟨0⟩)))))) none),
      node (.ret (some (node (.lit .null))))])

/-- Raises what `pick` gives. -/
def ring : FunctionInfo where
  name := "ring"
  params := []
  locals := []
  returnType := none
  slotCount := 0
  owner := none
  types := .empty
  body := node (.raise (node (.app ⟨0⟩ none)) none)

/-- Keeps an event in a variable and raises it. -/
def alarm : FunctionInfo where
  name := "alarm"
  params := []
  locals := [⟨"e", 0, .event⟩]
  returnType := none
  slotCount := 1
  owner := none
  types := .empty
  body := node (.block [
    node (.assign (node (.name (.slot 0))) (node (.name (.event ⟨0⟩))) .none),
    node (.raise (node (.name (.slot 0))) none)])

def chapel : Program := ⟨"chapel.p", [pick, ring], [⟨"Bell", [⟨"n", 0, .int⟩], []⟩], [⟨"toll"⟩]⟩

def station : Program := ⟨"station.p", [alarm], [⟨"Bell", [], []⟩], [⟨"toll"⟩]⟩

end Sample

/-- What is printed when a function raises an event, and what it leaves behind as trigger, on an actor with one field that is 0. -/
def Program.raises? (program : Program) (function : FunctionId) : Option (Value × List String) := do
  let image ← (program.lower {}).toOption
  let actor : Actor := ⟨⟨0⟩, ⟨0⟩, "", [.int 0], .null, .null, none, [], ⟨none, none⟩, [.atStart function []]⟩
  match (⟨image, Surroundings.handle, 3, 100⟩ : RunConfig Surroundings).execute function ⟨.empty, actor, .empty, 0⟩ with
  | .ok (.suspended .raise) after => some (after.actor.trigger, after.outside.printed.map (·.2))
  | _ => none

/-- The event is picked twice: the first one passes the check, and the second one, which is null, is raised. -/
theorem raise_evaluates_twice : Sample.chapel.raises? ⟨1⟩ = some (.null, ["picked", "picked"]) := by
  decide +kernel

/-- The event of `alarm` is raised as if it were evaluated once, and is not null. -/
theorem alarm_is_raised : ∃ (image : Image) (state after : Running Surroundings) (code : List Instr) (stop : Lowering.Progress),
    Sample.station.lower {} = .ok image ∧
      (⟨image, Surroundings.handle, 3, 100⟩ : RunConfig Surroundings).execute ⟨0⟩ state = .ok (.suspended .raise) after ∧
      after.actor.trigger ≠ .null ∧
      (Sample.node (.raise (Sample.node (.name (.slot 0))) none)).lower false .read ⟨Sample.station, Sample.alarm, {}⟩ .start
        = .ok (.code code, stop) ∧
      ∃ asks message event payload, code = asks ++ Template.raise message event payload ∧
        ∀ env : Env Surroundings, env.RaisesOnce message event payload := by
  let actor : Actor := ⟨⟨0⟩, ⟨0⟩, "", [], .null, .null, none, [], ⟨none, none⟩, [.atStart ⟨0⟩ [.null]]⟩
  let state : Running Surroundings := ⟨.empty, actor, .empty, 0⟩
  let image : Image := (Sample.station.lower {}).toOption.getD ⟨"", [], [], []⟩
  let config : RunConfig Surroundings := ⟨image, Surroundings.handle, 3, 100⟩
  have accepted : Sample.station.lower {} = .ok image := rfl
  obtain ⟨after, ran⟩ : ∃ after, config.execute ⟨0⟩ state = .ok (.suspended .raise) after := ⟨_, rfl⟩
  have raise : ∃ code stop, (Sample.node (.raise (Sample.node (.name (.slot 0))) none)).lower false .read
      ⟨Sample.station, Sample.alarm, {}⟩ .start = .ok (.code code, stop) := ⟨_, _, rfl⟩
  obtain ⟨code, stop, lowered⟩ := raise
  obtain ⟨raises, _, ends⟩ := lowered_events_are_used_once accepted
  have closed : Heap.empty.Closed fun _ => False := ⟨nofun, nofun⟩
  have plainly : ∀ info ∈ Sample.station.functions, info.body.Every NodeKind.RaisesPlainly fun _ => True := by
    intro info member
    obtain rfl := List.mem_singleton.mp member
    exact ⟨trivial, rfl, trivial⟩
  have intact : state.Intact Surroundings.Twin := ⟨_, .same closed (by simp [Actor.roots, state, actor, Frame.atStart, Frame.atLabel]) nofun⟩
  have trigger := ends plainly config ⟨0⟩ state after rfl Surroundings.handle_blind intact ran
  obtain ⟨_, asks, message, event, payload, _, _, _, same, _, once⟩ := raises lowered
  exact ⟨image, state, after, code, stop, accepted, ran, trigger, lowered, asks, message, event, payload, same, fun env => once rfl env⟩

end Reentry
