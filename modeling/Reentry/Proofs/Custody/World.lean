import Mathlib.Data.List.Perm.Basic
import Reentry.Proofs.Custody.Run
import Reentry.Proofs.Ownership.World

/-!
Worlds under custody. What all actors and all queued messages hold is looked after together, from one action to the
next; while an actor runs, the others hold what they held before.
-/

namespace Reentry

theorem List.flatMap_set_perm {α β : Type} {items : List α} {index : Nat} (bound : index < items.length) (item : α) (parts : α → List β) :
    ((items.set index item).flatMap parts).Perm (parts item ++ (items.eraseIdx index).flatMap parts) :=
  (List.set_perm_cons_eraseIdx bound item).flatMap_right parts

theorem List.flatMap_perm_eraseIdx {α β : Type} {items : List α} {index : Nat} {item : α} (here : items[index]? = some item)
    (parts : α → List β) : (items.flatMap parts).Perm (parts item ++ (items.eraseIdx index).flatMap parts) := by
  obtain ⟨bound, rfl⟩ := List.getElem?_eq_some_iff.mp here
  exact (List.getElem_cons_eraseIdx_perm bound).symm.flatMap_right parts

/-- The values of all messages that are queued. -/
def Surroundings.letters (outside : Surroundings) : List Value := outside.mailboxes.flatMap (·.flatMap Message.values)

namespace Surroundings

theorem modify_letters (mailboxes : List (List Message)) (number : Nat) (message : Message) :
    Fewer ((mailboxes.modify number (· ++ [message])).flatMap (·.flatMap Message.values))
      (message.values ++ mailboxes.flatMap (·.flatMap Message.values)) := by
  refine .flatMap_modify number fun queue => .of_perm ?_
  rw [List.flatMap_append, List.flatMap_singleton]
  exact List.perm_append_comm

/-- Effects add to the queues at most what they hand over. -/
theorem handle_letters {heap : Heap} {effect : Effect} {outside after : Surroundings} (handled : handle heap effect outside = .ok after) :
    Fewer after.letters (effect.handsOver ++ outside.letters) := by
  cases effect with
  | enqueue _ target event payload =>
      simp only [handle, post?] at handled
      split at handled
      next posted =>
        cases handled
        split at posted
        · cases posted
          exact modify_letters outside.mailboxes target.index.toNat ⟨event, payload⟩
        · cases posted
      next => cases handled
  | announce _ _ _ | print _ _ =>
      cases handled
      exact .refl _

/-- While one actor runs, the others hold what they held. -/
theorem serves_handle (others : List Value) : Custody.Serves (fun outside => others ++ outside.letters) handle := by
  intro heap effect outside after handled address
  have less := handle_letters handled address
  simp only [List.count_append] at less ⊢
  omega

end Surroundings

namespace World

/-- What all actors and queued messages hold. -/
def roots (world : World) : List Value := world.actors.flatMap Actor.roots ++ world.outside.letters

/-- What all other actors hold. -/
def others (world : World) (number : Nat) : List Value := (world.actors.eraseIdx number).flatMap Actor.roots

variable {world : World} {number : Nat} {actor : Actor}

theorem roots_perm (present : world.actors[number]? = some actor) :
    world.roots.Perm (actor.roots ++ (world.others number ++ world.outside.letters)) := by
  rw [← List.append_assoc]
  exact (List.flatMap_perm_eraseIdx present Actor.roots).append_right _

theorem roots_leave (present : world.actors[number]? = some actor) (state : Running Surroundings) :
    (world.leave number state).roots.Perm (state.actor.roots ++ (world.others number ++ state.outside.letters)) := by
  obtain ⟨bound, _⟩ := List.getElem?_eq_some_iff.mp present
  rw [← List.append_assoc]
  exact (List.flatMap_set_perm bound state.actor Actor.roots).append_right _

end World

/-- What a run of a function on the top frame shows. -/
def RunConfig.film {σ : Type} (config : RunConfig σ) (function : FunctionId) (state : Running σ) : Film σ :=
  match config.executeFilming function state with
  | .ok _ after | .error _ after => after.film

/-- What is filmed of an action, and what all other actors hold meanwhile. -/
structure Footage where
  others : List Value
  film : Film Surroundings

namespace Footage

def empty : Footage := ⟨[], .empty⟩

/-- What there is to come by in the world at a moment. -/
def roots (footage : Footage) (moment : Moment Surroundings) : List Value :=
  moment.roots fun outside => footage.others ++ outside.letters

end Footage

namespace World

/-- What is filmed of an action: all that an execution does, and of anything else nothing. -/
def Action.footage (config : RunConfig Surroundings) (world : World) : Action → Footage
  | .execute number function =>
      match world.actors[number]? with
      | some actor => ⟨world.others number, config.film function (world.running actor)⟩
      | none => .empty
  | _ => .empty

/-- What is filmed of one action after the other. -/
def reel (config : RunConfig Surroundings) : World → List Action → List Footage
  | _, [] => []
  | world, action :: rest => action.footage config world :: reel config (action.after config world) rest

end World

namespace Custody

variable (custody : Custody)

/-- All is well with what actors and queued messages hold. -/
def Guards (world : World) : Prop := custody.keeps world.heap ⟨[], world.roots⟩

/-- All is well with what is supplied, whatever is there already. -/
def Accepts {α : Type} {values : α → List Value} (supply : Anew α values) : Prop :=
  ∀ heap lent, custody.keeps heap ⟨[], lent⟩ →
    custody.keeps (supply.make.run heap).2 ⟨[], values (supply.make.run heap).1 ++ lent⟩

/-- So it is for all that an action brings into the world. -/
def AcceptsAction : World.Action → Prop
  | .startCall _ _ args => custody.Accepts args
  | .deliver _ message | .mail _ message => custody.Accepts message
  | .spawn _ | .fork _ | .execute _ _ | .take _ _ | .answer _ _ | .clear _ => True

/-- Work of one actor in a world where the others hold these values. -/
def beside (others : List Value) : Household Surroundings where
  toCustody := custody
  kept outside := others ++ outside.letters
  supposes _ := True
  sound _ := True

variable {custody} {world : World} {number : Nat} {heap : Heap}

theorem Accepts.ofPlants {α : Type} {values : α → List Value} {supply : Anew α values} (plants : Alloc.Plants [] supply.make values) :
    custody.Accepts supply := by
  intro heap lent keeps
  have planted := plants (custody.tends lent) heap [] keeps
  rw [List.append_nil] at planted
  have lends := Stake.Less.lend (values (supply.make.run heap).1) [] lent
  rw [List.append_nil] at lends
  exact custody.less planted lends

/-- New values come to be held by somebody. -/
theorem planted {α : Type} {values : α → List Value} {work : Alloc α} (plants : Alloc.Plants [] work values) {lent : List Value}
    (keeps : custody.keeps heap ⟨[], lent⟩) : custody.keeps (work.run heap).2 ⟨[], values (work.run heap).1 ++ lent⟩ := by
  have planted := plants (custody.tends lent) heap [] keeps
  rw [List.append_nil] at planted
  have lends := Stake.Less.lend (values (work.run heap).1) [] lent
  rw [List.append_nil] at lends
  exact custody.less planted lends

theorem keeps_perm {values more : List Value} (keeps : custody.keeps heap ⟨[], values⟩) (perm : more.Perm values) :
    custody.keeps heap ⟨[], more⟩ := custody.less keeps (.ofLent (.of_perm perm))

namespace Guards

/-- An actor uses values that have been supplied. -/
theorem onActor {α : Type} {values : List Value} {gained : α → Stake} {work : Exec Surroundings α}
    (plants : ∀ others, Exec.Plants (custody.beside others) [] ⟨[], values⟩ work gained)
    (keeps : custody.keeps world.heap ⟨[], values ++ world.roots⟩) : custody.Guards (World.left (World.onActor number work world)) := by
  cases present : world.actors[number]? with
  | none =>
      have refused : World.onActor number work world = .error .noActor world := World.onActor_eq_error.mpr (.inl ⟨present, rfl, rfl⟩)
      rw [refused]
      exact custody.less keeps (.ofLent (.of_sublist (List.sublist_append_right values _)))
  | some actor =>
      have holds : (custody.beside (world.others number)).Holds (⟨[], values⟩ ++ (⟨[], []⟩ ++ .none)) (world.running actor) := by
        refine fun _ => ⟨?_, trivial⟩
        have parted := keeps_perm keeps (((World.roots_perm present).symm).append_left values)
        simpa only [Household.within, beside, World.running, Stake.own_append, Stake.lent_append, Stake.own_none, Stake.lent_none,
          List.append_nil, List.nil_append] using parted
      obtain ⟨state, leaves, kept⟩ : ∃ state, World.left (World.onActor number work world) = world.leave number state ∧
          (custody.beside (world.others number)).Holds .none state := by
        have ends := plants (world.others number) (world.running actor) .none holds
        cases ran : work (world.running actor) with
        | ok result state =>
            have done : World.onActor number work world = .ok result (world.leave number state) :=
              World.onActor_eq_ok.mpr ⟨actor, state, present, ran, rfl⟩
            exact ⟨state, by rw [done]; rfl, (ends.ok ran).less (Stake.Less.none _)⟩
        | error stop state =>
            have done : World.onActor number work world = .error (.ofStop stop) (world.leave number state) :=
              World.onActor_eq_error.mpr (.inr ⟨actor, stop, state, present, ran, rfl, rfl⟩)
            exact ⟨state, by rw [done]; rfl, ends.error ran⟩
      rw [leaves]
      exact keeps_perm (kept trivial).1 (World.roots_leave present state)

/-- An actor is added, with an empty mailbox. -/
theorem add {actor : Actor} (keeps : custody.keeps heap ⟨[], actor.roots ++ world.roots⟩) :
    custody.Guards (World.left (World.add actor { world with heap })) := by
  refine keeps_perm keeps ?_
  have actors : (world.actors ++ [actor]).flatMap Actor.roots = world.actors.flatMap Actor.roots ++ actor.roots := by simp
  have letters : Surroundings.letters { world.outside with mailboxes := world.outside.mailboxes ++ [[]] } = world.outside.letters := by
    simp [Surroundings.letters]
  change ((world.actors ++ [actor]).flatMap Actor.roots
    ++ Surroundings.letters { world.outside with mailboxes := world.outside.mailboxes ++ [[]] }).Perm _
  rw [actors, letters, World.roots, ← List.append_assoc]
  exact List.perm_append_comm.append_right _

theorem spawn (guards : custody.Guards world) (image : Image) (machine : MachineTypeId) :
    custody.Guards (World.left (World.spawn image machine world)) := by
  cases found : image.machine? machine with
  | none =>
      have refused : World.spawn image machine world = .error .noMachine world := by
        unfold World.spawn
        rw [found]
        rfl
      rw [refused]
      exact guards
  | some decl =>
      let made := (Actor.create ⟨.ofNat world.actors.length⟩ machine decl).run world.heap
      have added : World.spawn image machine world = World.add made.1 { world with heap := made.2 } := by
        unfold World.spawn
        rw [found]
        rfl
      rw [added]
      exact add (planted (.create _ _ _) guards)

theorem fork (guards : custody.Guards world) (number : Nat) : custody.Guards (World.left (World.fork number world)) := by
  have forked : World.fork number world = (match World.onActor number Exec.actor world with
      | .ok actor world => World.add (actor.fork.run world.heap).1 { world with heap := (actor.fork.run world.heap).2 }
      | .error cause world => .error cause world) := by
    change EStateM.bind (World.onActor number Exec.actor) _ world = _
    unfold EStateM.bind
    cases World.onActor number Exec.actor world <;> rfl
  rw [forked]
  cases present : world.actors[number]? with
  | none =>
      rw [World.onActor_eq_error.mpr (.inl ⟨present, rfl, rfl⟩)]
      exact guards
  | some actor =>
      have looked : World.onActor number Exec.actor world = .ok actor world :=
        World.onActor_eq_ok.mpr ⟨actor, world.running actor, present, rfl, (World.leave_running present).symm⟩
      rw [looked]
      exact add (planted (.fork actor) guards)

theorem mail {message : Message} (keeps : custody.keeps heap ⟨[], message.values ++ world.roots⟩) :
    custody.Guards (World.left (World.mail number message { world with heap })) := by
  have looked : (get : WorldOp World) { world with heap } = .ok { world with heap } { world with heap } := rfl
  rw [World.mail, World.bind_of_ok looked]
  dsimp only
  unfold Surroundings.post?
  split
  · refine custody.less keeps (.ofLent fun address => ?_)
    have arrived := Surroundings.modify_letters world.outside.mailboxes number message address
    change List.count _ (world.actors.flatMap Actor.roots
      ++ (world.outside.mailboxes.modify number (· ++ [message])).flatMap (·.flatMap Message.values)) ≤ _
    simp only [World.roots, Surroundings.letters, List.count_append] at arrived ⊢
    omega
  · exact custody.less keeps (.ofLent (.of_sublist (List.sublist_append_right _ _)))

/-- The actor holds what the message that it takes has held. -/
theorem takeAt (guards : custody.Guards world) (number position : Nat) : custody.Guards (World.left (World.takeAt number position world)) := by
  refine @onActor _ _ _ _ [] (fun _ => .none) _ (fun others state rest holds => ?_) guards
  refine Exec.Ends.after (show (get : Exec Surroundings (Running Surroundings)) state = .ok state state from rfl) ?_
  dsimp only
  cases found : (state.outside.mailboxes[number]?.getD [])[position]? with
  | none => exact .pure holds
  | some message =>
      obtain ⟨queue, here⟩ : ∃ queue, state.outside.mailboxes[number]? = some queue := by
        cases here : state.outside.mailboxes[number]? with
        | none => simp [here] at found
        | some queue => exact ⟨queue, rfl⟩
      simp only [here, Option.getD_some] at found
      simp only [here, Option.getD_some]
      refine fun _ => ⟨custody.less (holds trivial).1 ⟨.refl _, fun address => ?_⟩, trivial⟩
      have bound := (List.getElem?_eq_some_iff.mp here).1
      have before := (List.flatMap_perm_eraseIdx here fun queue => queue.flatMap Message.values).count_eq (.cell address)
      have taken := (List.flatMap_perm_eraseIdx found Message.values).count_eq (.cell address)
      have after := (List.flatMap_set_perm bound (queue.eraseIdx position) fun queue => queue.flatMap Message.values).count_eq (.cell address)
      simp only [List.count_append] at before taken after
      simp only [Household.within, beside, Surroundings.letters, Actor.roots, Actor.deliver, Stake.own_append, Stake.lent_append,
        Stake.own_none, Stake.lent_none, List.count_append, after, before, taken, Message.values, List.count_cons, List.count_nil]
      omega

/-- A filmed run of an actor: what it hands back is in hand afterwards. -/
theorem filmed {config : RunConfig Surroundings} {actor : Actor} (handler : config.handler = Surroundings.handle)
    (fair : config.image.Fair custody.shares) (guards : custody.Guards world) (present : world.actors[number]? = some actor)
    (function : FunctionId) :
    Exec.Ends (config.filmed.executeFilmingWithin (config.depthLimit + 1) [] function) (world.running actor).filmed
      (fun result after => (custody.household fun outside => world.others number ++ outside.letters).Holds (result.stake ++ .none) after)
      fun _ after => (custody.household fun outside => world.others number ++ outside.letters).Holds .none after := by
  let kept (outside : Surroundings) : List Value := world.others number ++ outside.letters
  have keeps : custody.keeps (world.running actor).heap ⟨Stake.none.own, Stake.none.lent ++ (actor.roots ++ kept world.outside)⟩ :=
    keeps_perm guards (World.roots_perm present).symm
  exact RunConfig.executeFilming_ends (handler ▸ Surroundings.serves_handle (world.others number)) fair function keeps

/-- An execution: all is well at each moment that is filmed, and afterwards. -/
theorem execute {config : RunConfig Surroundings} (handler : config.handler = Surroundings.handle) (fair : config.image.Fair custody.shares)
    (guards : custody.Guards world) (number : Nat) (function : FunctionId)
    (supposed : custody.Calls ((World.Action.execute number function).footage config world).film) :
    let footage := (World.Action.execute number function).footage config world
    custody.Guards (World.left (World.execute config number function world)) ∧
      custody.Shows (fun outside => footage.others ++ outside.letters) footage.film := by
  cases present : world.actors[number]? with
  | none =>
      have refused : World.execute config number function world = .error .noActor world :=
        World.onActor_eq_error.mpr (.inl ⟨present, rfl, rfl⟩)
      simp only [World.Action.footage, present]
      rw [refused]
      exact ⟨guards, .empty custody _⟩
  | some actor =>
      have ends := guards.filmed handler fair present function
      have seen := config.executeFilming_seen function (world.running actor)
      simp only [World.Action.footage, present] at supposed ⊢
      obtain ⟨state, holds, films, leaves⟩ : ∃ state : Running (Filmed Surroundings),
          (custody.household fun outside => world.others number ++ outside.letters).Holds .none state ∧
          state.film = config.film function (world.running actor) ∧
          World.left (World.execute config number function world) = world.leave number (state.through Prod.fst) := by
        unfold RunConfig.film
        cases ran : config.executeFilming function (world.running actor) with
        | ok result state =>
            rw [ran] at seen
            have done : World.execute config number function world = .ok result (world.leave number (state.through Prod.fst)) :=
              World.onActor_eq_ok.mpr ⟨actor, _, present, seen.symm, rfl⟩
            exact ⟨state, (ends.ok ran).less (Stake.Less.none _), rfl, by rw [done]; rfl⟩
        | error stop state =>
            rw [ran] at seen
            have done : World.execute config number function world
                = .error (.ofStop stop) (world.leave number (state.through Prod.fst)) :=
              World.onActor_eq_error.mpr (.inr ⟨actor, stop, _, present, seen.symm, rfl, rfl⟩)
            exact ⟨state, ends.error ran, rfl, by rw [done]; rfl⟩
      rw [← films] at supposed ⊢
      obtain ⟨keeps, shows⟩ := holds supposed
      rw [leaves]
      exact ⟨keeps_perm keeps (World.roots_leave present _), shows⟩

/-- What an execution hands back is in hand as well, where what has a name may be named once more. -/
theorem returned {config : RunConfig Surroundings} {function : FunctionId} {result : Continuation} {after : World}
    (handler : config.handler = Surroundings.handle) (fair : config.image.Fair custody.shares) (guards : custody.Guards world)
    (shared : custody.shares = true) (ran : World.execute config number function world = .ok result after) :
    custody.keeps after.heap ⟨result.stake.own, result.stake.lent ++ after.roots⟩ := by
  obtain ⟨actor, state, present, done, rfl⟩ := World.onActor_eq_ok.mp ran
  have ends := guards.filmed handler fair present function
  have seen := config.executeFilming_seen function (world.running actor)
  rw [done] at seen
  cases filmed : config.executeFilming function (world.running actor) with
  | error stop last =>
      rw [filmed] at seen
      cases seen
  | ok result' last =>
      rw [filmed] at seen
      cases seen
      have keeps := (ends.ok filmed (.inl shared)).1
      refine custody.less keeps ⟨fun address => ?_, fun address => ?_⟩
      all_goals
        have same := (World.roots_leave present (last.through Prod.fst)).count_eq (.cell address)
        simp only [household, Household.within, Running.through, Stake.own_append, Stake.lent_append, Stake.own_none, Stake.lent_none,
          List.count_append, List.count_nil] at same ⊢
        omega

/-- What is not an execution keeps the world under custody, whatever the code. -/
theorem arrange (config : RunConfig Surroundings) (guards : custody.Guards world) {action : World.Action} (accepts : custody.AcceptsAction action)
    (still : ∀ number function, action ≠ .execute number function) : custody.Guards (action.after config world) := by
  cases action with
  | spawn machine => exact guards.spawn config.image machine
  | fork number => exact guards.fork number
  | startCall number function args => exact onActor (fun _ => .startCall config.image function _) (accepts world.heap world.roots guards)
  | execute number function => exact absurd rfl (still number function)
  | deliver number message =>
      refine @onActor _ _ _ _ _ (fun _ => .none) _ (fun _ => .modifyActor fun actor address => ?_) (accepts world.heap world.roots guards)
      simp only [Actor.roots, Actor.deliver, Message.values, List.count_append, List.count_cons, List.count_nil]
      omega
  | mail number message => exact mail (accepts world.heap world.roots guards)
  | take number position => exact guards.takeAt number position
  | answer number resume => exact @onActor _ _ _ _ [] (fun _ => .none) _ (fun _ => .modifyActor fun actor => .refl _) guards
  | clear number =>
      refine @onActor _ _ _ _ [] (fun _ => .none) _ (fun _ => .modifyActor fun actor address => ?_) guards
      simp only [Actor.roots, List.flatMap_nil, List.count_append, List.count_nil]
      omega

/-- Every action keeps the world under custody, and at each moment that is filmed of it all is well. -/
theorem act {config : RunConfig Surroundings} (handler : config.handler = Surroundings.handle) (fair : config.image.Fair custody.shares)
    (guards : custody.Guards world) (action : World.Action) (accepts : custody.AcceptsAction action)
    (supposed : custody.Calls (action.footage config world).film) :
    custody.Guards (action.after config world) ∧
      custody.Shows (fun outside => (action.footage config world).others ++ outside.letters) (action.footage config world).film := by
  cases action with
  | execute number function => exact guards.execute handler fair number function supposed
  | spawn _ | fork _ | startCall _ _ _ | deliver _ _ | mail _ _ | take _ _ | answer _ _ | clear _ =>
      exact ⟨guards.arrange config accepts nofun, .empty custody _⟩

end Guards

/-- However many actions there are, the world is under custody afterwards, and all is well at each moment that is filmed. -/
theorem Guards.run {config : RunConfig Surroundings} (handler : config.handler = Surroundings.handle)
    (fair : config.image.Fair custody.shares) (guards : custody.Guards world) (actions : List World.Action)
    (accepts : ∀ action ∈ actions, custody.AcceptsAction action)
    (supposed : ∀ footage ∈ World.reel config world actions, custody.Calls footage.film) :
    custody.Guards (actions.foldl (fun world action => action.after config world) world) ∧
      ∀ footage ∈ World.reel config world actions,
        custody.Shows (fun outside => footage.others ++ outside.letters) footage.film := by
  induction actions generalizing world with
  | nil => exact ⟨guards, nofun⟩
  | cons action rest ih =>
      obtain ⟨own, others⟩ := List.forall_mem_cons.mp accepts
      obtain ⟨called, later⟩ := List.forall_mem_cons.mp supposed
      obtain ⟨next, shows⟩ := guards.act handler fair action own called
      obtain ⟨last, each⟩ := ih next others later
      exact ⟨last, List.forall_mem_cons.mpr ⟨shows, each⟩⟩

end Custody

end Reentry
