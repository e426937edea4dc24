import Reentry.Proofs.Ownership.Region
import Reentry.Proofs.Twins.Execution

/-!
Whole runs in twin states, and states that are their own twins because nothing in them leads to a cell that has not been
allocated. After a run such a state is its own twin again.
-/

namespace Reentry

open Exec

namespace Env

variable {σ : Type} {outer : Pairing → σ → σ → Prop} {env : Env σ} {pairs : Pairing} {state other : Running σ} {act act' : Activation}

theorem run_twin (blind : env.Blind outer) (steps : Nat) (acts : act.Twin pairs act') :
    Exec.Twin outer pairs state other (env.run steps act) (env.run steps act') Continuation.Twin := by
  induction steps generalizing pairs state other act act' with
  | zero => exact .throw
  | succ steps ih =>
      unfold run
      rw [acts.position]
      split
      · exact .fail
      next instr _ =>
          have started (position : Nat) : Activation.Twin pairs { act with position } { act' with position } := { acts with position := rfl }
          refine .bind (step_twin blind (started _) instr) fun _ _ _ _ _ _ flows => ?_
          cases flows with
          | next acts => exact ih acts
          | leave results => exact .pure results

end Env

namespace RunConfig

variable {σ : Type} {outer : Pairing → σ → σ → Prop} {config : RunConfig σ} {pairs : Pairing} {state other : Running σ}

theorem popFrame_twin (routine : Routine) : Exec.Twin outer pairs state other (popFrame routine) (popFrame routine) Frame.Twin := by
  refine .actor fun actors => ?_
  have saved := actors.stack
  generalize state.actor.stack = one, other.actor.stack = two at saved ⊢
  cases saved with
  | nil => exact .fail
  | cons frames below => exact .bind (.modifyActor fun actors => { actors with stack := below }) fun _ _ _ _ _ grown _ => .pure (frames.mono grown)

theorem enter_twin (function : FunctionId) : Exec.Twin outer pairs state other (config.enter function) (config.enter function)
    fun pairs left right => left.1 = right.1 ∧ left.2.Twin pairs right.2 := by
  unfold enter
  split
  · refine .actor fun actors => ?_
    rw [actors.name]
    exact .fail
  next routine _ =>
      refine .bind (popFrame_twin routine) fun _ state other frame frame' _ frames => .actor fun actors => ?_
      have below : calleeBelow frame state.actor.stack = calleeBelow frame' other.actor.stack := by
        have saved := actors.stack
        unfold calleeBelow
        rw [frames.pendingCall]
        generalize state.actor.stack = one, other.actor.stack = two at saved ⊢
        cases saved with
        | nil => rfl
        | cons first _ => simp only [List.head?_cons, Option.map_some, first.function]
      rw [frames.function, frames.locals.length_eq, frames.pendingCall, frames.label, actors.machine, actors.name, below]
      repeat' split
      all_goals first | exact .fail | dsimp only
      · exact .pure ⟨rfl, frames.locals, frames.choices, rfl, .none, .none⟩
      · split
        · exact .fail
        · exact .pure ⟨rfl, frames.locals, frames.choices, rfl, .none, .none⟩

/-- A run of an actor goes alike in twin states. -/
theorem executeWithin_twin (blind : config.handler.Blind outer) (levels : Nat) (function : FunctionId) :
    Exec.Twin outer pairs state other (config.executeWithin levels function) (config.executeWithin levels function) Continuation.Twin := by
  induction levels generalizing pairs state other function with
  | zero => exact .throw
  | succ levels ih =>
      refine .bind (enter_twin function) fun _ _ _ left right _ entered => .get fun states => ?_
      obtain ⟨same, acts⟩ := entered
      rw [states.depth, same]
      split
      · exact .fail
      · have unseeing : Env.Blind outer ⟨config.image, right.1, config.handler, config.executeWithin levels⟩ := ⟨blind, fun callee => ih callee⟩
        exact .counted fun _ _ => Env.run_twin unseeing config.steps acts

end RunConfig

/-! States in which nothing leads out of a region. -/

/-- Each cell of the region goes together with itself. -/
def Pairing.same (region : Region) : Pairing := fun left right => left = right ∧ region left

section

variable {region : Region} {heap : Heap}

theorem Value.Twin.same {value : Value} (owns : region.Owns value) : value.Twin (.same region) value := by
  cases value with
  | cell address => exact .cell ⟨rfl, Region.owns_cell.mp owns⟩
  | _ => exact .scalar (by simp)

theorem Twins.same {values : List Value} (owns : region.OwnsAll values) : Twins (.same region) values values :=
  List.forall₂_same.mpr fun value member => .same (owns value member)

theorem Cell.Twin.same {cell : Cell} (owns : region.OwnsAll cell.contents) : cell.Twin (.same region) cell := by
  cases cell with
  | tuple items => exact .tuple (.same owns)
  | seq items => exact .seq (.same owns)
  | named fields =>
      exact .named (List.forall₂_same.mpr fun field member => ⟨rfl, .same (owns field.2 (List.mem_map_of_mem member))⟩)
  | map entries =>
      have held {entry : Entry} (member : entry ∈ entries) : region.OwnsAll [entry.key, entry.value] :=
        owns.subset fun value inside => List.mem_flatMap.mpr ⟨entry, member, inside⟩
      exact .map (List.forall₂_same.mpr fun entry member =>
        ⟨.same (held member _ (by simp)), rfl, .same (held member _ (by simp))⟩)

theorem Heap.Twin.same (closed : heap.Closed region) : heap.Twin (.same region) heap where
  forth left right := left.1.symm.trans right.1
  back left right := left.1.trans right.1.symm
  allocated := by
    rintro cell _ ⟨rfl, inside⟩
    exact ⟨closed.allocated cell inside, closed.allocated cell inside⟩
  cells := by
    rintro cell _ ⟨rfl, inside⟩
    exact .same (closed.contents cell inside)

theorem Actor.Twin.same {actor : Actor} (owns : region.OwnsAll actor.roots) : actor.Twin (.same region) actor where
  id := rfl
  machine := rfl
  name := rfl
  fields := .same (Actor.ownsAll_fields owns)
  trigger := .same (Actor.owns_trigger owns)
  payload := .same (Actor.owns_payload owns)
  gotoTarget := rfl
  receiveSet := rfl
  resume := rfl
  stack := List.forall₂_same.mpr fun frame member => ⟨rfl, .same (owns.subset fun value inside => by
    simp only [Actor.roots, List.mem_append, List.mem_flatMap]
    exact .inr ⟨frame, member, inside⟩), rfl, rfl, rfl⟩

end

/-! Surroundings that are twins: the same has been printed and announced, and the messages go together. -/

structure Message.Twin (pairs : Pairing) (left right : Message) : Prop where
  event : left.event.Twin pairs right.event
  payload : left.payload.Twin pairs right.payload

namespace Surroundings

structure Twin (pairs : Pairing) (left right : Surroundings) : Prop where
  mailboxes : List.Forall₂ (List.Forall₂ (Message.Twin pairs)) left.mailboxes right.mailboxes
  printed : left.printed = right.printed
  announced : left.announced = right.announced

/-- Twins stay twins whatever effects take place in both of them. -/
theorem handle_blind : Handler.Blind Twin handle where
  mono within twin :=
    { twin with mailboxes := twin.mailboxes.imp fun _ _ mailbox => mailbox.imp fun _ _ message =>
        ⟨message.event.mono within, message.payload.mono within⟩ }
  performs := by
    intro pairs heap heap' effect effect' outside outside' heaps effects twin
    cases effects with
    | @enqueue sender target one two left right event payload =>
        have message : Message.Twin pairs ⟨one, left⟩ ⟨two, right⟩ := ⟨event, payload⟩
        by_cases known : target.index.toNat < outside'.mailboxes.length
        · have arrived := modify_twin twin.mailboxes target.index.toNat fun mailbox => append_twin mailbox (.cons message .nil)
          simp only [handle, post?, twin.mailboxes.length_eq, known, if_true]
          exact .inl ⟨_, _, rfl, rfl, { twin with mailboxes := arrived }⟩
        · simp only [handle, post?, twin.mailboxes.length_eq, known, if_false]
          exact .inr ⟨_, rfl, rfl⟩
    | announce event payload =>
        refine .inl ⟨_, _, rfl, rfl, { twin with announced := ?_ }⟩
        rw [twin.announced, heaps.tree event, heaps.tree payload]
    | print => exact .inl ⟨_, _, rfl, rfl, { twin with printed := by rw [twin.printed] }⟩

theorem Twin.same {region : Region} {outside : Surroundings}
    (owns : ∀ mailbox ∈ outside.mailboxes, ∀ message ∈ mailbox, region.OwnsAll [message.event, message.payload]) :
    outside.Twin (.same region) outside where
  mailboxes := List.forall₂_same.mpr fun mailbox member => List.forall₂_same.mpr fun message among =>
    have held := owns mailbox member message among
    ⟨.same (held _ (by simp)), .same (held _ (by simp))⟩
  printed := rfl
  announced := rfl

end Surroundings

/-- A state from which nothing leads out of a region is its own twin. -/
theorem Running.Twin.same {region : Region} {state : Running Surroundings} (closed : state.heap.Closed region)
    (roots : region.OwnsAll state.actor.roots)
    (mail : ∀ mailbox ∈ state.outside.mailboxes, ∀ message ∈ mailbox, region.OwnsAll [message.event, message.payload]) :
    state.Twin (.same region) Surroundings.Twin state where
  heap := .same closed
  actor := .same roots
  outside := .same mail
  depth := rfl

end Reentry
