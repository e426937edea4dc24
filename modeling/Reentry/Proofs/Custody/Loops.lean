import Reentry.Proofs.Custody.Deposits
import Reentry.Proofs.Custody.Forest
import Reentry.Proofs.Keys.Apart
import Reentry.Proofs.Locations.Swap

/-!
Values that are not part of themselves. A value comes to contain itself only where it is stored into a container that it leads to. As
long as nothing that has another name is stored into a container this never happens, however values are moved and swapped otherwise.
Where it has not happened whatever looks into a value to the end gets there.
-/

namespace Reentry

namespace Heap

/-- What there is to come by from values: these, and what is in the cells that they lead to. -/
def Offers (heap : Heap) (roots : List Value) (value : Value) : Prop :=
  value ∈ roots ∨ ∃ address, heap.reachOf roots address ∧ value ∈ (heap.read address).contents

/-- No cell that the values lead to is part of itself, and all that is to come by can be looked through to the end: it has
a tree, of which copies and texts are made, it has marks, and a comparison with it has an answer. -/
structure Loopless (heap : Heap) (roots : List Value) : Prop where
  no_return : ∀ address, heap.reachOf roots address → ∀ part ∈ (heap.read address).contents, ¬heap.Leads part address
  tree : ∀ value, heap.Offers roots value → (heap.treeWithin? (heap.size + 1) value).isSome
  marks : ∀ value, heap.Offers roots value → (heap.marksWithin? (heap.size + 1) value).isSome
  equal : ∀ value other, heap.Offers roots value → (heap.equal? value other).isSome

variable {heap : Heap} {roots : List Value} {value : Value}

theorem Grounded.equal (grounded : heap.Grounded value) (other : Value) : (heap.equal? value other).isSome := by
  obtain ⟨tree, shows⟩ := grounded
  obtain ⟨same, compared⟩ := Option.isSome_iff_exists.mp (equalWithin?_isSome shows.enough other)
  have enough := equalWithin?_mono compared (Nat.succ_le_succ (Nat.le_mul_self heap.size))
  exact Option.isSome_iff_exists.mpr ⟨same, enough⟩

theorem Loopless.of_grounded (grounded : ∀ root ∈ roots, heap.Grounded root) : heap.Loopless roots := by
  have offered (value : Value) (offers : heap.Offers roots value) : heap.Grounded value := by
    rcases offers with root | ⟨address, ⟨root, member, leads⟩, inside⟩
    · exact grounded value root
    · obtain ⟨tree, shows⟩ := grounded root member
      obtain ⟨whole, shows, _⟩ := leads.weight shows
      exact Grounded.part ⟨whole, shows⟩ inside
  refine ⟨fun address reached part member => ?_, fun value offers => ?_, fun value offers => ?_, fun value other offers => (offered value offers).equal other⟩
  · obtain ⟨root, among, leads⟩ := reached
    exact (grounded root among).no_return leads member
  · obtain ⟨tree, shows⟩ := offered value offers
    exact Option.isSome_iff_exists.mpr ⟨tree, shows.enough⟩
  · obtain ⟨tree, shows⟩ := offered value offers
    exact Option.isSome_iff_exists.mpr ⟨tree.marks, marksWithin?_eq shows.enough⟩

end Heap

namespace Custody

theorem loopless {heap : Heap} {own lent : List Value} (keeps : acyclic.keeps heap ⟨own, lent⟩) : heap.Loopless (own ++ lent) := by
  obtain ⟨live, acyclic⟩ := keeps
  refine .of_grounded fun root member => ?_
  rcases List.mem_append.mp member with own | lent
  · exact acyclic.tended.grounded own
  · exact acyclic.grounded root lent

/-- New values that have an end may be brought in. -/
theorem Accepts.ofGrounded {α : Type} {values : α → List Value} {supply : Anew α values}
    (grounded : ∀ heap, ∀ value ∈ values (supply.make.run heap).1, (supply.make.run heap).2.Grounded value) : acyclic.Accepts supply := by
  rintro heap lent ⟨live, old⟩
  have fresh := supply.fresh heap
  have same {address : Address} (reached : heap.reachOf lent address) := fresh.same address (old.allocated address reached)
  refine ⟨∅, .ofLent (List.forall_mem_append.mpr ⟨grounded heap, fun value member => ?_⟩) ?_⟩
  · exact (old.grounded value member).same fun address leads => same ⟨value, member, leads⟩
  · rintro address ⟨root, member, leads⟩
    rcases List.mem_append.mp member with new | lent
    · exact (leads.within fresh.closed (fresh.owns root new)).2
    · have before := leads.before fun goal leads => same ⟨root, lent, leads⟩
      exact Nat.lt_of_lt_of_le (old.allocated address ⟨root, lent, before⟩) fresh.size

end Custody

namespace World

/-- What the action brings into the world, if anything, has an end. -/
def Action.BringsGrounded : Action → Prop
  | .startCall _ _ args => ∀ heap, ∀ value ∈ (args.make.run heap).1, (args.make.run heap).2.Grounded value
  | .deliver _ message | .mail _ message => ∀ heap, ∀ value ∈ (message.make.run heap).1.values, (message.make.run heap).2.Grounded value
  | .spawn _ | .fork _ | .execute _ _ | .take _ _ | .answer _ _ | .clear _ => True

theorem Action.BringsGrounded.accepted {action : Action} (brings : action.BringsGrounded) : Custody.acyclic.AcceptsAction action := by
  cases action with
  | startCall number function args => exact .ofGrounded brings
  | deliver number message | mail number message => exact .ofGrounded brings
  | spawn _ | fork _ | execute _ _ | take _ _ | answer _ _ | clear _ => trivial

/-- Trees have an end. -/
theorem Action.BringsTrees.grounded {action : Action} (brings : action.BringsTrees) : action.BringsGrounded := by
  have posted {message : Alloc Message} {event payload : Tree} (built : message = do
      let event ← event.build
      pure ⟨event, ← payload.build⟩) (heap : Heap) : ∀ value ∈ (message.run heap).1.values, (message.run heap).2.Grounded value := by
    have puts : Alloc.Puts heap message fun after made => ∀ value ∈ made.values, after.Grounded value := by
      rw [built]
      refine (event.build_puts heap).bind fun first after _ made => (payload.build_puts after).bind fun second final grows made' => .pure ?_
      exact List.forall_mem_cons.mpr ⟨(made.extends grows).solid.shows, List.forall_mem_singleton.mpr made'.solid.shows⟩
    exact puts.2
  cases action with
  | startCall number function args =>
      obtain ⟨trees, built⟩ := brings
      intro heap value member
      rw [built] at member ⊢
      have puts := @Alloc.Puts.mapM _ _ Tree.build (fun _ _ => True) (fun after tree value => after.Depicts value tree) trees
        (fun _ _ => trivial) (fun depicts grows => depicts.extends grows) (fun heap tree _ => tree.build_puts heap) heap fun _ _ => trivial
      exact (exists_of_forall₂ puts.2.flip member).choose_spec.2.solid.shows
  | deliver number message | mail number message =>
      obtain ⟨event, payload, built⟩ := brings
      exact posted built
  | spawn _ | fork _ | execute _ _ | take _ _ | answer _ _ | clear _ => trivial

end World

theorem Deposit.closes_iff {heap after : Heap} {container value : Value} :
    Deposit.Closes ⟨heap, container, value, after⟩ ↔ ∃ address, container = .cell address ∧ heap.reaches value address = true := by
  simp only [Deposit.Closes, Heap.reaches_iff]

instance (deposit : Deposit) : Decidable deposit.Closes :=
  match deposit with
  | ⟨heap, .cell address, value, _⟩ => decidable_of_iff (heap.reaches value address = true) (by simp [Deposit.closes_iff])
  | ⟨_, .null, _, _⟩ | ⟨_, .bool _, _, _⟩ | ⟨_, .int _, _, _⟩ | ⟨_, .event _, _, _⟩ | ⟨_, .halt, _, _⟩ | ⟨_, .machine _, _, _⟩ =>
      isFalse (by simp [Deposit.closes_iff])

namespace World

variable {world : World} {config : RunConfig Surroundings}

/-- Nothing that is held in the world is part of itself. -/
def Founded (world : World) : Prop := ∀ root ∈ world.roots, world.heap.Founded root

theorem guards_iff : Custody.acyclic.Guards world ↔ world.Founded := by
  constructor
  · rintro ⟨live, acyclic⟩ root member
    exact .of_grounded (fun address leads => acyclic.allocated address ⟨root, member, leads⟩) (acyclic.grounded root member)
  · intro founded
    refine ⟨∅, .ofLent (fun root member => (founded root member).grounded) ?_⟩
    rintro address ⟨root, member, leads⟩
    exact (founded root member).allocated address leads

/-- What an action stores into containers: all that an execution does, and of anything else nothing. -/
def Action.deposits (config : RunConfig Surroundings) (world : World) : Action → List Deposit
  | .execute number function =>
      match world.actors[number]? with
      | some actor => config.deposits function (world.running actor)
      | none => []
  | _ => []

/-- What is stored into containers by one action after the other. -/
def deposits (config : RunConfig Surroundings) : World → List Action → List Deposit
  | _, [] => []
  | world, action :: rest => action.deposits config world ++ deposits config (action.after config world) rest

/-- What an execution stores closes a loop if it leads to its container. Unless it does, neither what is held in the world nor what
comes back is part of itself. -/
theorem Founded.execute (founded : world.Founded) (handler : config.handler = Surroundings.handle) (number : Nat) (function : FunctionId) :
    let deposits := (Action.execute number function).deposits config world
    (∀ deposit ∈ deposits, deposit.Closes → deposit.Loops) ∧ ((∀ deposit ∈ deposits, ¬deposit.Closes) →
      (World.left (World.execute config number function world)).Founded ∧
      ∀ result after, World.execute config number function world = .ok result after →
        ∀ value ∈ result.values ++ after.roots, after.heap.Founded value) := by
  cases present : world.actors[number]? with
  | none =>
      have refused : World.execute config number function world = .error .noActor world :=
        World.onActor_eq_error.mpr (.inl ⟨present, rfl, rfl⟩)
      simp only [Action.deposits, present]
      rw [refused]
      exact ⟨nofun, fun _ => ⟨founded, nofun⟩⟩
  | some actor =>
      simp only [Action.deposits, present, RunConfig.deposits]
      have ends := @RunConfig.executeLogging_founded _ _ config (handler ▸ Surroundings.serves_handle (world.others number)) function
        (world.running actor) fun root member => founded root ((World.roots_perm present).mem_iff.mpr member)
      have seen := config.executeLogging_seen function (world.running actor)
      have held (state : Running (Logged Surroundings)) (value : Value) (member : value ∈ (world.leave number (state.through Prod.fst)).roots) :
          value ∈ state.actor.roots ++ (world.others number ++ state.outside.1.letters) :=
        (World.roots_leave present (state.through Prod.fst)).mem_iff.mp member
      cases ran : config.executeLogging function (world.running actor) with
      | ok result state =>
          rw [ran] at seen
          have done : World.execute config number function world = .ok result (world.leave number (state.through Prod.fst)) :=
            World.onActor_eq_ok.mpr ⟨actor, _, present, seen.symm, rfl⟩
          obtain ⟨loops, kept⟩ := ends.ok ran
          refine ⟨loops, fun opens => ?_⟩
          rw [done]
          refine ⟨fun root member => kept opens root (List.mem_append_right _ (held state root member)), ?_⟩
          intro result after same value member
          cases same
          rcases List.mem_append.mp member with handed | root
          · exact kept opens value (List.mem_append_left _ handed)
          · exact kept opens value (List.mem_append_right _ (held state value root))
      | error stop state =>
          rw [ran] at seen
          have done : World.execute config number function world = .error (.ofStop stop) (world.leave number (state.through Prod.fst)) :=
            World.onActor_eq_error.mpr (.inr ⟨actor, stop, _, present, seen.symm, rfl, rfl⟩)
          obtain ⟨loops, kept⟩ := ends.error ran
          refine ⟨loops, fun opens => ?_⟩
          rw [done]
          exact ⟨fun root member => kept opens root (held state root member), nofun⟩

theorem Founded.act (founded : world.Founded) (handler : config.handler = Surroundings.handle) {action : Action} (brings : action.BringsGrounded)
    (opens : ∀ deposit ∈ action.deposits config world, ¬deposit.Closes) : (action.after config world).Founded := by
  cases action with
  | execute number function => exact ((founded.execute handler number function).2 opens).1
  | spawn _ | fork _ | startCall _ _ _ | deliver _ _ | mail _ _ | take _ _ | answer _ _ | clear _ =>
      exact guards_iff.mp ((guards_iff.mpr founded).arrange config brings.accepted nofun)

/-- However many actions there are, nothing comes to be part of itself unless a value is stored that leads to its container. -/
theorem Founded.run (founded : world.Founded) (handler : config.handler = Surroundings.handle) (actions : List Action)
    (brings : ∀ action ∈ actions, action.BringsGrounded) (opens : ∀ deposit ∈ deposits config world actions, ¬deposit.Closes) :
    (actions.foldl (fun world action => action.after config world) world).Founded := by
  induction actions generalizing world with
  | nil => exact founded
  | cons action rest ih =>
      obtain ⟨own, others⟩ := List.forall_mem_cons.mp brings
      obtain ⟨now, later⟩ := List.forall_mem_append.mp opens
      exact ih (founded.act handler own now) others later

end World

/-- Whether nothing that has another name is stored into a container: what is inserted and what overwrites elements and
fields is copied or computed, and only variables are swapped. -/
def Program.StoresOwned (program : Program) : Prop := ∀ info ∈ program.functions, info.body.Every (fun kind => kind.storesOwned) fun _ => True

namespace Program

variable {program : Program} {options : LowerOptions} {config : RunConfig Surroundings}

/-- As long as nothing that has another name is stored into a container, no value ever comes to contain itself, neither what
actors, messages and the calls that run hold nor what a call returns, however values are moved and swapped otherwise. -/
theorem no_value_contains_itself (accepted : program.lower options = .ok config.image) (stores : program.StoresOwned)
    (handler : config.handler = Surroundings.handle) (actions : List World.Action) (brings : ∀ action ∈ actions, action.BringsGrounded) :
    (World.play config actions).heap.Loopless (World.play config actions).roots ∧
      (∀ footage ∈ World.reel config .empty actions, ∀ moment ∈ footage.film.moments, moment.heap.Loopless (footage.roots moment)) ∧
      ∀ number function result after, World.execute config number function (World.play config actions) = .ok result after →
        after.heap.Loopless (result.values ++ after.roots) := by
  have fair : config.image.Fair true := lower_fair accepted fun info member =>
    (stores info member).imp (fun _ stores => ⟨stores, .inl rfl⟩) fun _ _ => .inl rfl
  have start : Custody.acyclic.Guards World.empty := ⟨∅, .ofLent nofun fun _ ⟨_, member, _⟩ => nomatch member⟩
  obtain ⟨guards, shows⟩ := start.run handler fair actions (fun action member => (brings action member).accepted)
    fun footage member => .inl rfl
  have guards' : Custody.acyclic.Guards (World.play config actions) := guards
  refine ⟨@Custody.loopless _ [] _ guards, fun footage member moment shown => @Custody.loopless _ [] _ ((shows footage member).moments moment shown),
    fun number function result after ran => ?_⟩
  have keeps := guards'.returned handler fair rfl ran
  have same : result.values ++ after.roots = result.stake.own ++ (result.stake.lent ++ after.roots) := by
    rw [← List.append_assoc]
    cases result with
    | completed value locals => rfl
    | suspended reason => cases reason <;> rfl
  rw [same]
  exact Custody.loopless keeps

/-- No value comes to contain itself as long as none is stored into a container that it leads to, whatever is moved and swapped: neither
what actors and messages hold nor what a call returns. And it takes no more than such a store. Where nothing that has another name is
stored into a container no value contains itself at any moment. -/
theorem no_value_comes_to_contain_itself (accepted : program.lower options = .ok config.image) (handler : config.handler = Surroundings.handle)
    (actions : List World.Action) (brings : ∀ action ∈ actions, action.BringsGrounded) :
    ((∀ deposit ∈ World.deposits config .empty actions, ¬deposit.Closes) →
      (World.play config actions).heap.Loopless (World.play config actions).roots ∧
      ∀ number function, let deposits := (World.Action.execute number function).deposits config (World.play config actions)
        (∀ deposit ∈ deposits, deposit.Closes → deposit.Loops) ∧
        ∀ result after, World.execute config number function (World.play config actions) = .ok result after →
          (∀ deposit ∈ deposits, ¬deposit.Closes) → after.heap.Loopless (result.values ++ after.roots)) ∧
    (program.StoresOwned →
      (World.play config actions).heap.Loopless (World.play config actions).roots ∧
      (∀ footage ∈ World.reel config .empty actions, ∀ moment ∈ footage.film.moments, moment.heap.Loopless (footage.roots moment)) ∧
      ∀ number function result after, World.execute config number function (World.play config actions) = .ok result after →
        after.heap.Loopless (result.values ++ after.roots)) := by
  refine ⟨fun opens => ?_, fun stores => no_value_contains_itself accepted stores handler actions brings⟩
  have start : World.empty.Founded := nofun
  have founded : (World.play config actions).Founded := start.run handler actions brings opens
  refine ⟨.of_grounded fun root member => (founded root member).grounded, fun number function => ?_⟩
  obtain ⟨loops, straight⟩ := founded.execute handler number function
  refine ⟨loops, fun result after ran opens => .of_grounded fun value member => ?_⟩
  exact ((straight opens).2 result after ran value member).grounded

end Program

namespace Sample

/-- Swaps a row with an empty one, lets both ends name it, and puts a copy of it into the table. -/
def turn : FunctionInfo where
  name := "turn"
  params := [⟨"row", 0, .seq .int⟩]
  locals := [⟨"other", 1, .seq .int⟩]
  returnType := some (.seq .int)
  slotCount := 2
  owner := none
  types := .ofList [(⟨0⟩, .seq .int)]
  body :=
    let row := node (.name (.slot 0))
    let other := node (.name (.slot 1))
    node (.block [
      node (.assign row other .swap),
      node (.assign (node (.name (.field 0))) other .move),
      node (.assign (node (.name (.field 1))) other .move),
      node (.insert (node (.name (.field 2))) (pair (node (.lit (.int 0))) other)),
      node (.ret (some other))])

/-- Moves a row into the table and hands it back, so that it has two names. -/
def stow : FunctionInfo where
  name := "stow"
  params := [⟨"row", 0, .seq .int⟩]
  locals := []
  returnType := some (.seq .int)
  slotCount := 1
  owner := none
  types := .ofList [(⟨0⟩, .seq .int)]
  body :=
    let row := node (.name (.slot 0))
    node (.block [
      node (.insert (node (.name (.field 0))) (node (.tuple (node (.exprs .none (node (.lit (.int 0))) (some (node (.exprs .move row none)))))))),
      node (.ret (some row))])

def racks : Program := ⟨"racks.p", [stow], [⟨"Racks", [⟨"rows", 0, .seq (.seq .int)⟩], []⟩], []⟩

def turntable : Program :=
  ⟨"turntable.p", [turn], [⟨"Table", [⟨"front", 0, .seq .int⟩, ⟨"back", 1, .seq .int⟩, ⟨"table", 2, .seq (.seq .int)⟩], []⟩], []⟩

/-- Moves the box into itself. -/
def fold : FunctionInfo where
  name := "fold"
  params := []
  locals := []
  returnType := none
  slotCount := 0
  owner := none
  types := .ofList [(⟨0⟩, .seq .any)]
  body :=
    let box := node (.name (.field 0))
    node (.insert box (node (.tuple (node (.exprs .none (node (.lit (.int 0))) (some (node (.exprs .move box none))))))))

def boxes : Program := ⟨"boxes.p", [fold], [⟨"Shelf", [⟨"box", 0, .seq .any⟩], []⟩], []⟩

end Sample

namespace Program

/-- A row that is moved onto a rack does not lead to it, and onto the turntable only copies are put; so neither rows nor tables
contain themselves. -/
theorem rows_do_not_contain_themselves :
    (∃ config : RunConfig Surroundings, ∃ actions, Sample.racks.lower {} = .ok config.image ∧ config.handler = Surroundings.handle ∧
      (∀ action ∈ actions, action.BringsGrounded) ∧ (World.deposits config .empty actions).length = 1 ∧
      (∀ deposit ∈ World.deposits config .empty actions, ¬deposit.Closes) ∧
      (World.play config actions).heap.Loopless (World.play config actions).roots) ∧
    ∃ config : RunConfig Surroundings, ∃ actions, Sample.turntable.lower {} = .ok config.image ∧ Sample.turntable.StoresOwned ∧
      config.handler = Surroundings.handle ∧ (∀ action ∈ actions, action.BringsGrounded) ∧
      ((World.play config actions).roots.filter (· = .cell ⟨3⟩)).length = 2 ∧
      (World.play config actions).heap.Loopless (World.play config actions).roots := by
  let actions : List World.Action := [.spawn ⟨0⟩, .startCall 0 ⟨0⟩ (.ofTrees [.seq [.int 1, .int 2]]), .execute 0 ⟨0⟩]
  have brings : ∀ action ∈ actions, action.BringsGrounded := by
    simp only [actions, List.forall_mem_cons, List.not_mem_nil, false_imp_iff, implies_true, and_true]
    exact ⟨trivial, World.Action.BringsTrees.grounded ⟨_, rfl⟩, trivial⟩
  constructor
  · let image : Image := (Sample.racks.lower {}).toOption.getD ⟨"", [], [], []⟩
    let config : RunConfig Surroundings := ⟨image, Surroundings.handle, 3, 100⟩
    have accepted : Sample.racks.lower {} = .ok config.image := rfl
    have opens : ∀ deposit ∈ World.deposits config .empty actions, ¬deposit.Closes := by decide +kernel
    exact ⟨config, actions, accepted, rfl, brings, by decide +kernel, opens,
      ((no_value_comes_to_contain_itself accepted rfl actions brings).1 opens).1⟩
  · let image : Image := (Sample.turntable.lower {}).toOption.getD ⟨"", [], [], []⟩
    let config : RunConfig Surroundings := ⟨image, Surroundings.handle, 3, 100⟩
    have accepted : Sample.turntable.lower {} = .ok config.image := rfl
    have stores : Sample.turntable.StoresOwned := by
      intro info member
      obtain rfl := List.mem_singleton.mp member
      exact ⟨rfl, rfl, rfl, rfl, rfl, trivial⟩
    exact ⟨config, actions, accepted, stores, rfl, brings, by decide +kernel,
      ((no_value_comes_to_contain_itself accepted rfl actions brings).2 stores).1⟩

/-- What is moved into a container keeps its other name, which may be that of the container. -/
theorem box_contains_itself : ∃ config : RunConfig Surroundings, ∃ actions,
    Sample.boxes.lower {} = .ok config.image ∧ config.handler = Surroundings.handle ∧ (∀ action ∈ actions, action.BringsGrounded) ∧
    ∃ address, (World.play config actions).heap.reachOf (World.play config actions).roots address ∧
      .cell address ∈ ((World.play config actions).heap.read address).contents := by
  let image : Image := (Sample.boxes.lower {}).toOption.getD ⟨"", [], [], []⟩
  let config : RunConfig Surroundings := ⟨image, Surroundings.handle, 3, 100⟩
  let actions : List World.Action := [.spawn ⟨0⟩, .startCall 0 ⟨0⟩ (.ofTrees []), .execute 0 ⟨0⟩]
  have held : .cell ⟨0⟩ ∈ (World.play config actions).roots := by decide +kernel
  refine ⟨config, actions, rfl, rfl, ?_, ⟨0⟩, ⟨_, held, .here⟩, by decide +kernel⟩
  simp only [actions, List.forall_mem_cons, List.not_mem_nil, false_imp_iff, implies_true, and_true]
  exact ⟨trivial, World.Action.BringsTrees.grounded ⟨_, rfl⟩, trivial⟩

end Program

end Reentry
