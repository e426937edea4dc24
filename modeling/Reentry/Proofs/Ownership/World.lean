import Reentry.Proofs.Ownership.Sends
import Reentry.Proofs.Ownership.Separate

/-!
Actors that share nothing. If no send of a program moves an argument, no cell can ever be reached from two
actors, from an actor and a queued message, or from two messages, whatever is done in which order; so what
one actor does is seen by others only through the messages it sends.
-/

namespace Reentry

/-- A supply of something made of new cells. -/
structure Anew (α : Type) (values : α → List Value) where
  make : Alloc α
  fresh : ∀ heap, Heap.Fresh heap (make.run heap).2 (values (make.run heap).1)

/-- Values that look like these trees. -/
def Anew.ofTrees (trees : List Tree) : Anew (List Value) id where
  make := trees.mapM Tree.build
  fresh heap := by
    have makes := @Alloc.Makes.each _ heap _ (fun held tree => Tree.build_makes held tree) [] trees
    simpa only [List.append_nil, id_eq] using makes.fresh

namespace World

/-- Takes the message at a position out of the actor's own mailbox and delivers it. -/
def takeAt (number position : Nat) : WorldOp Unit := onActor number do
  let state ← get
  let mailbox := state.outside.mailboxes[number]?.getD []
  match mailbox[position]? with
  | none => pure ()
  | some message =>
      set { state with
        actor := state.actor.deliver message.event message.payload
        outside := { state.outside with mailboxes := state.outside.mailboxes.set number (mailbox.eraseIdx position) } }

/-- Something that may be done in a world, at any time. -/
inductive Action where
  | spawn (machine : MachineTypeId)
  | fork (number : Nat)
  | startCall (number : Nat) (function : FunctionId) (args : Anew (List Value) id)
  | execute (number : Nat) (function : FunctionId)
  | deliver (number : Nat) (message : Anew Message Message.values)
  | mail (number : Nat) (message : Anew Message Message.values)
  | take (number position : Nat)
  /-- Sets what a resumed actor reads. -/
  | answer (number : Nat) (resume : ResumeInput)
  | clear (number : Nat)

namespace Action

/-- The actor that an action changes, if it is a single one that was there before. -/
def doer : Action → Option Nat
  | .spawn _ | .fork _ | .mail _ _ => none
  | .startCall number _ _ | .execute number _ | .deliver number _ | .take number _ | .answer number _ | .clear number =>
      some number

/-- The world that an action leaves, also if it fails. -/
def after (config : RunConfig Surroundings) (world : World) : Action → World
  | .spawn machine => left (World.spawn config.image machine world)
  | .fork number => left (World.fork number world)
  | .startCall number function args =>
      let made := args.make.run world.heap
      left (World.startCall config number function made.1 { world with heap := made.2 })
  | .execute number function => left (World.execute config number function world)
  | .deliver number message =>
      let made := message.make.run world.heap
      left (World.deliver number made.1 { world with heap := made.2 })
  | .mail number message =>
      let made := message.make.run world.heap
      left (World.mail number made.1 { world with heap := made.2 })
  | .take number position => left (World.takeAt number position world)
  | .answer number resume => left (World.setResume number resume world)
  | .clear number => left (World.clearStack number world)

end Action

/-- The world after these actions, beginning without any actor. -/
def play (config : RunConfig Surroundings) (actions : List Action) : World :=
  actions.foldl (fun world action => action.after config world) .empty

/-- What an action leaves as it was: all other actors, whatever they and the messages lead to, and the messages
themselves but for one that is taken. Else it only adds to mailboxes and records. -/
structure Untouched (before : World) (action : Action) (after : World) : Prop where
  actors : ∀ other, other < before.actors.length → action.doer ≠ some other → after.actors[other]? = before.actors[other]?
  cells : ∀ holder, (∀ number, action.doer = some number → holder ≠ .actor number) → ∀ address,
    before.Holds holder address → after.heap.read address = before.heap.read address
  mailboxes : ∀ (number : Nat) (queue : List Message), before.outside.mailboxes[number]? = some queue →
    ∃ kept more : List Message, after.outside.mailboxes[number]? = some (kept ++ more) ∧
      (kept = queue ∨ ∃ position, action = .take number position ∧ kept = queue.eraseIdx position)
  printed : before.outside.printed <+: after.outside.printed
  announced : before.outside.announced <+: after.outside.announced

theorem Spares.untouched {before after : World} {regions : Holder → Region} {action : Action} (parted : before.Parted regions)
    (spares : before.Spares regions action.doer after) : before.Untouched action after := by
  refine ⟨spares.actors, fun holder other address holds => spares.cells holder other address (parted.holds holds),
    fun number queue here => ?_, spares.printed, spares.announced⟩
  obtain ⟨more, found⟩ := spares.mailboxes number queue here
  exact ⟨queue, more, found, .inl rfl⟩

namespace Untouched

variable {before after : World} {action : Action}

/-- What others have looks as before. -/
theorem looks (untouched : before.Untouched action after) {holder : Holder}
    (other : ∀ number, action.doer = some number → holder ≠ .actor number) {value : Value} (member : value ∈ before.held holder)
    (levels : Nat) : after.heap.treeWithin? levels value = before.heap.treeWithin? levels value :=
  Heap.treeWithin?_same levels fun address leads => untouched.cells holder other address ⟨value, member, leads⟩

end Untouched

namespace Parted

variable {world : World} {regions : Holder → Region} {heap : Heap} {values : List Value}

/-- New cells are given to one holder. -/
theorem stock (parted : world.Parted regions) (fresh : Heap.Fresh world.heap heap values) (holder : Holder) :
    Parted { world with heap } (Function.update regions holder
      ((regions holder).union (Region.between world.heap.size heap.size))) := by
  have joins := fresh.joins (parted.closed holder)
  exact parted.change { world with heap } holder joins ((parted.owns holder).mono joins.inside) fun _ _ => rfl

/-- An actor made of new cells is added, with an empty mailbox. -/
theorem add (parted : world.Parted regions) {actor : Actor} (fresh : Heap.Fresh world.heap heap actor.roots) :
    (∃ more, (left (World.add actor { world with heap })).Parted more) ∧
      world.Spares regions none (left (World.add actor { world with heap })) := by
  let after : World := left (World.add actor { world with heap })
  have actors : after.actors = world.actors ++ [actor] := rfl
  have mailboxes : after.outside.mailboxes = world.outside.mailboxes ++ [[]] := rfl
  have joins := fresh.joins (parted.closed (.actor world.actors.length))
  constructor
  · refine ⟨_, parted.change after (.actor world.actors.length) joins ?_ fun other distinct => ?_⟩
    · simp only [held, actors, List.getElem?_concat_length, Option.toList_some, List.flatMap_cons, List.flatMap_nil, List.append_nil]
      exact fresh.owns.mono (Region.inside_union_right _ _)
    · cases other with
      | actor other =>
          have different : other ≠ world.actors.length := fun same => distinct (by rw [same])
          simp only [held, actors, List.getElem?_append]
          grind
      | message mailbox position =>
          simp only [held, queued?, mailboxes, List.getElem?_append]
          grind
  · refine ⟨fun other bound _ => ?_, fun holder _ address inside => ?_, fun number queue here => ⟨[], ?_⟩, List.prefix_rfl,
      List.prefix_rfl⟩
    · rw [actors, List.getElem?_append_left bound]
    · exact fresh.same address ((parted.closed holder).allocated address inside)
    · have bound : number < world.outside.mailboxes.length := (List.getElem?_eq_some_iff.mp here).1
      rw [mailboxes, List.getElem?_append_left bound, here, List.append_nil]

theorem mail (parted : world.Parted regions) (number : Nat) {message : Message}
    (fresh : Heap.Fresh world.heap heap message.values) :
    (∃ more, (left (World.mail number message { world with heap })).Parted more) ∧
      world.Spares regions none (left (World.mail number message { world with heap })) := by
  have grows := fresh.leaves (parted.closed (.actor number))
  have stocked := parted.change { world with heap } (.actor number) grows (parted.owns _) fun _ _ => rfl
  rw [Function.update_eq_self] at stocked
  have spared : world.Spares regions none { world with heap } := .afterFresh parted fresh (.refl _ regions none) fun _ _ => rfl
  have looked : (get : WorldOp World) { world with heap } = .ok { world with heap } { world with heap } := rfl
  rw [World.mail, bind_of_ok looked]
  dsimp only
  unfold Surroundings.post?
  by_cases bound : number < world.outside.mailboxes.length
  · rw [if_pos bound]
    have apart (holder : Holder) : (regions holder).Apart (Region.between world.heap.size heap.size) := fun address inside new =>
      absurd ((parted.closed holder).allocated address inside) (Nat.not_lt.mpr new.1)
    obtain ⟨place, posted⟩ := stocked.post { world with heap, outside := { world.outside with
      mailboxes := world.outside.mailboxes.modify number (· ++ [message]) } } ⟨number, message, _⟩ fresh.closed fresh.owns apart
      rfl rfl rfl
    refine ⟨⟨_, posted⟩, spared.actors, spared.cells, fun other queue here => ?_, List.prefix_rfl, List.prefix_rfl⟩
    exact deliverAll_getElem? [⟨number, message, Region.between world.heap.size heap.size⟩] _ here
  · rw [if_neg bound]
    exact ⟨⟨_, stocked⟩, spared⟩

/-- The actor takes over the cells of the message that it takes; the messages behind it move up. -/
theorem taken (parted : world.Parted regions) {number position : Nat} {actor : Actor} {queue : List Message} {message : Message}
    (present : world.actors[number]? = some actor) (here : world.outside.mailboxes[number]? = some queue)
    (found : queue[position]? = some message) {state : Running Surroundings} (heap : state.heap = world.heap)
    (delivered : state.actor = actor.deliver message.event message.payload)
    (mailboxes : state.outside.mailboxes = world.outside.mailboxes.set number (queue.eraseIdx position)) :
    ∃ more, (world.leave number state).Parted more := by
  refine ⟨_, parted.passOn heap (Holder.afterTaking number position) fun holder value member => ?_⟩
  cases holder with
  | actor other =>
      by_cases own : number = other
      · subst own
        simp only [held, leave_getElem?, if_true, present, Option.map_some, Option.toList_some, List.flatMap_cons,
          List.flatMap_nil, List.append_nil, delivered, Actor.roots, Actor.deliver, List.mem_append, List.mem_cons,
          List.not_mem_nil, or_false] at member
        rcases member with (field | arrived) | frame
        · exact ⟨.actor number, rfl, by simp [held, present, Actor.roots, field]⟩
        · refine ⟨.message number position, by simp [Holder.afterTaking], ?_⟩
          simpa [held, queued?, here, found, Message.values] using arrived
        · exact ⟨.actor number, rfl, by simp [held, present, Actor.roots, frame]⟩
      · simp only [held, leave_getElem?, own, if_false] at member
        exact ⟨.actor other, rfl, member⟩
  | message mailbox place =>
      have bound : number < world.outside.mailboxes.length := (List.getElem?_eq_some_iff.mp here).1
      simp only [held, queued?, leave, mailboxes, List.getElem?_set] at member
      by_cases own : number = mailbox
      · subst own
        simp only [if_true, bound, Option.bind_some, List.getElem?_eraseIdx] at member
        by_cases early : place < position
        · refine ⟨.message number place, by simp only [Holder.afterTaking]; grind, ?_⟩
          simpa [held, queued?, here, early] using member
        · refine ⟨.message number (place + 1), by simp only [Holder.afterTaking]; grind, ?_⟩
          simpa [held, queued?, here, early] using member
      · simp only [own, if_false] at member
        have other : mailbox ≠ number := Ne.symm own
        exact ⟨.message mailbox place, by simp [Holder.afterTaking, other], member⟩

theorem takeAt (parted : world.Parted regions) (number position : Nat) :
    (∃ more, (left (World.takeAt number position world)).Parted more) ∧
      world.Untouched (.take number position) (left (World.takeAt number position world)) := by
  have same : (∃ more, world.Parted more) ∧ world.Untouched (.take number position) world :=
    ⟨⟨regions, parted⟩, Spares.untouched parted (.refl world regions _)⟩
  cases present : world.actors[number]? with
  | none =>
      have refused : World.takeAt number position world = .error .noActor world := onActor_eq_error.mpr (.inl ⟨present, rfl, rfl⟩)
      rw [refused]
      exact same
  | some actor =>
      have read : (get : Exec Surroundings (Running Surroundings)) (world.running actor)
          = .ok (world.running actor) (world.running actor) := rfl
      cases found : (world.outside.mailboxes[number]?.getD [])[position]? with
      | none =>
          have nothing : World.takeAt number position world = .ok () world := by
            refine onActor_eq_ok.mpr ⟨actor, world.running actor, present, ?_, (leave_running present).symm⟩
            rw [Exec.bind_of_ok read]
            simp only [running, found]
            rfl
          rw [nothing]
          exact same
      | some message =>
          obtain ⟨queue, here⟩ : ∃ queue, world.outside.mailboxes[number]? = some queue := by
            cases here : world.outside.mailboxes[number]? with
            | none => simp [here] at found
            | some queue => exact ⟨queue, rfl⟩
          simp only [here, Option.getD_some] at found
          let state : Running Surroundings := { world.running actor with
            actor := actor.deliver message.event message.payload
            outside := { world.outside with mailboxes := world.outside.mailboxes.set number (queue.eraseIdx position) } }
          have done : World.takeAt number position world = .ok () (world.leave number state) := by
            refine onActor_eq_ok.mpr ⟨actor, state, present, ?_, rfl⟩
            rw [Exec.bind_of_ok read]
            simp only [running, here, Option.getD_some, found]
            rfl
          rw [done]
          refine ⟨parted.taken present here found rfl rfl rfl, fun other _ different => ?_, fun _ _ _ _ => rfl, fun other waiting there => ?_,
            List.prefix_rfl, List.prefix_rfl⟩
          · exact (leave_getElem? _ _ _ _).trans (if_neg fun same => different (by rw [same]; rfl))
          · change ∃ kept more : List Message, (world.outside.mailboxes.set number (queue.eraseIdx position))[other]? = _ ∧ _
            rw [List.getElem?_set]
            by_cases own : number = other
            · subst own
              cases here.symm.trans there
              have bound : number < world.outside.mailboxes.length := (List.getElem?_eq_some_iff.mp here).1
              exact ⟨queue.eraseIdx position, [], by simp [bound], .inr ⟨position, rfl, rfl⟩⟩
            · exact ⟨waiting, [], by simp [own, there], .inl rfl⟩

/-- New cells are made for the actor, and then it works with them. -/
theorem onSupplied {α β : Type} {make : α → List Value} {values : β → List Value} (parted : world.Parted regions) (number : Nat)
    (supply : Anew α make) (work : α → Exec Surroundings β)
    (within : ∀ (region : Region) state given, region.OwnsAll (make given) → Exec.Within region state (work given) values) :
    let made := supply.make.run world.heap
    (∃ more, (left (World.onActor number (work made.1) { world with heap := made.2 })).Parted more) ∧
      world.Spares regions (some number) (left (World.onActor number (work made.1) { world with heap := made.2 })) := by
  have fresh := supply.fresh world.heap
  generalize supply.make.run world.heap = made at fresh
  have stocked := parted.stock fresh (.actor number)
  have own := fresh.owns.mono (Region.inside_union_right (regions (.actor number)) _)
  obtain ⟨whole, spares⟩ := @onActor _ _ _ number (work made.1) values stocked fun actor _ => by
    rw [Function.update_self]
    exact within _ _ _ own
  refine ⟨whole, spares.afterFresh parted fresh fun holder other => ?_⟩
  exact Function.update_of_ne (other number rfl) _ _

theorem spawn (parted : world.Parted regions) (image : Image) (machine : MachineTypeId) :
    (∃ more, (left (World.spawn image machine world)).Parted more) ∧
      world.Spares regions none (left (World.spawn image machine world)) := by
  cases found : image.machine? machine with
  | none =>
      have refused : World.spawn image machine world = .error .noMachine world := by
        unfold World.spawn
        rw [found]
        rfl
      rw [refused]
      exact ⟨⟨regions, parted⟩, .refl _ _ _⟩
  | some decl =>
      let made := (Actor.create ⟨.ofNat world.actors.length⟩ machine decl).run world.heap
      have added : World.spawn image machine world = World.add made.1 { world with heap := made.2 } := by
        unfold World.spawn
        rw [found]
        rfl
      rw [added]
      exact parted.add (Alloc.Makes.create _ _ _).fresh

theorem fork (parted : world.Parted regions) (number : Nat) :
    (∃ more, (left (World.fork number world)).Parted more) ∧ world.Spares regions none (left (World.fork number world)) := by
  have forked : World.fork number world = (match World.onActor number Exec.actor world with
      | .ok actor world => World.add (actor.fork.run world.heap).1 { world with heap := (actor.fork.run world.heap).2 }
      | .error cause world => .error cause world) := by
    change EStateM.bind (World.onActor number Exec.actor) _ world = _
    unfold EStateM.bind
    cases World.onActor number Exec.actor world <;> rfl
  rw [forked]
  cases present : world.actors[number]? with
  | none =>
      rw [onActor_eq_error.mpr (.inl ⟨present, rfl, rfl⟩)]
      exact ⟨⟨regions, parted⟩, .refl _ _ _⟩
  | some actor =>
      have looked : World.onActor number Exec.actor world = .ok actor world :=
        onActor_eq_ok.mpr ⟨actor, world.running actor, present, rfl, (leave_running present).symm⟩
      rw [looked]
      exact parted.add (Alloc.Makes.fork actor).fresh

/-- Every action keeps the world parted and leaves others as they are. -/
theorem act {config : RunConfig Surroundings} (handler : config.handler = Surroundings.handle) (sends : config.image.SendsParcels)
    (parted : world.Parted regions) (action : Action) :
    (∃ more, (action.after config world).Parted more) ∧ world.Untouched action (action.after config world) := by
  have spares {after : World} (did : (∃ more, after.Parted more) ∧ world.Spares regions action.doer after) :
      (∃ more, after.Parted more) ∧ world.Untouched action after := ⟨did.1, Spares.untouched parted did.2⟩
  cases action with
  | spawn machine => exact spares (parted.spawn config.image machine)
  | fork number => exact spares (parted.fork number)
  | startCall number function args =>
      let start (values : List Value) : Exec Surroundings Unit := do
        let actor ← Exec.ofHeapOp (Actor.startCall config.image function values (← Exec.actor))
        Exec.modifyActor fun _ => actor
      refine spares (@onSupplied _ _ _ _ _ (fun _ => []) parted number args start fun region state given owns => ?_)
      exact .actor fun _ => .bind (.ofHeapOp fun closed roots _ _ => Actor.startCall_grows closed roots owns)
        fun _ _ _ _ started => .modifyActor fun _ => started
  | execute number function =>
      exact spares (parted.onActor fun _ _ => RunConfig.executeWithin_within handler sends _ _)
  | deliver number message =>
      let hand (message : Message) : Exec Surroundings Unit := Exec.modifyActor (Actor.deliver message.event message.payload)
      refine spares (@onSupplied _ _ _ _ _ (fun _ => []) parted number message hand fun region state given owns => .modifyActor fun roots => ?_)
      simp only [Message.values, Region.ownsAll_cons] at owns
      simp only [Actor.roots, Actor.deliver, Region.ownsAll_append, Region.ownsAll_cons] at roots ⊢
      exact ⟨⟨roots.1.1, owns⟩, roots.2⟩
  | mail number message => exact spares (parted.mail number (message.fresh world.heap))
  | take number position => exact parted.takeAt number position
  | answer number resume => exact spares (@onActor _ _ _ number _ (fun _ => []) parted fun _ _ => .modifyActor id)
  | clear number =>
      refine spares (@onActor _ _ _ number _ (fun _ => []) parted fun _ _ => .modifyActor fun roots => ?_)
      simp only [Actor.roots, Region.ownsAll_append] at roots ⊢
      exact ⟨roots.1, Region.ownsAll_nil⟩

end Parted

/-- Taking the oldest message that the actor waits for is taking one from its place. -/
theorem left_take (world : World) (number : Nat) : ∃ position, left (take number world) = left (takeAt number position world) := by
  let mailbox := world.outside.mailboxes[number]?.getD []
  cases present : world.actors[number]? with
  | none =>
      have refused : take number world = .error .noActor world := onActor_eq_error.mpr (.inl ⟨present, rfl, rfl⟩)
      have refused' : takeAt number 0 world = .error .noActor world := onActor_eq_error.mpr (.inl ⟨present, rfl, rfl⟩)
      exact ⟨0, by rw [refused, refused']; rfl⟩
  | some actor =>
      have looked {α : Type} {rest : Running Surroundings → Exec Surroundings α} :
          onActor number (MonadState.get >>= rest) world = onActor number (rest (world.running actor)) world := by
        unfold onActor
        rw [present]
        rfl
      rw [take, looked]
      simp only [takeAt, looked]
      cases index : mailbox.findIdx? (actor.accepts ·.event) with
      | none =>
          have found : mailbox.find? (actor.accepts ·.event) = none := by
            rw [List.find?_eq_bind_findIdx?_getElem?, index]
            rfl
          have past : mailbox[mailbox.length]? = none := List.getElem?_eq_none (Nat.le_refl _)
          refine ⟨mailbox.length, ?_⟩
          simp only [running, mailbox] at found past ⊢
          simp only [found, past]
          unfold onActor
          rw [present]
          rfl
      | some place =>
          obtain ⟨bound, _⟩ := List.findIdx?_eq_some_iff_getElem.mp index
          have there : mailbox[place]? = some mailbox[place] := List.getElem?_eq_getElem bound
          have found : mailbox.find? (actor.accepts ·.event) = some mailbox[place] := by
            rw [List.find?_eq_bind_findIdx?_getElem?, index]
            exact there
          have erased : mailbox.eraseP (actor.accepts ·.event) = mailbox.eraseIdx place := by
            rw [List.eraseP_eq_eraseIdx, index]
          refine ⟨place, ?_⟩
          simp only [running, mailbox] at found there erased ⊢
          simp only [found, there, erased]
          unfold onActor
          rw [present]
          rfl

/-- Worlds stay parted whatever is done. -/
theorem play_parted {config : RunConfig Surroundings} (handler : config.handler = Surroundings.handle)
    (sends : config.image.SendsParcels) (actions : List Action) : ∃ regions, (play config actions).Parted regions := by
  have parted (world : World) (regions : Holder → Region) (whole : world.Parted regions) :
      ∃ more, (actions.foldl (fun world action => action.after config world) world).Parted more := by
    induction actions generalizing world regions with
    | nil => exact ⟨regions, whole⟩
    | cons action rest ih =>
        obtain ⟨more, next⟩ := (whole.act handler sends action).1
        exact ih _ more next
  exact parted .empty _ .empty

end World

namespace Program

/-- Actors share no storage unless a send moves it there: as long as no send of the program moves an argument, no
cell can be reached from two actors or queued messages, whatever has been done, and whatever is done next changes
nothing of any other actor or queued message and only adds to mailboxes and records. -/
theorem actors_share_nothing {program : Program} {options : LowerOptions} {config : RunConfig Surroundings}
    (accepted : program.lower options = .ok config.image) (copies : program.sendsCopies)
    (handler : config.handler = Surroundings.handle) (actions : List World.Action) :
    (World.play config actions).Separated ∧ ∀ action : World.Action,
      (World.play config actions).Untouched action (action.after config (World.play config actions)) ∧
      ∀ holder, (∀ number, action.doer = some number → holder ≠ .actor number) →
        ∀ value ∈ (World.play config actions).held holder, ∀ levels,
          (action.after config (World.play config actions)).heap.treeWithin? levels value =
            (World.play config actions).heap.treeWithin? levels value := by
  have sends := lower_sendsParcels accepted copies
  obtain ⟨regions, parted⟩ := World.play_parted handler sends actions
  refine ⟨parted.separated, fun action => ?_⟩
  have untouched := (parted.act handler sends action).2
  exact ⟨untouched, fun holder other value member levels => untouched.looks other member levels⟩

end Program

namespace Sample

/-- Sends what it has written so far to another machine. -/
def post : FunctionInfo where
  name := "post"
  params := [⟨"to", 0, .machine⟩]
  locals := [⟨"lines", 1, .seq .int⟩]
  returnType := none
  slotCount := 2
  owner := none
  types := .empty
  body := node (.send (node (.name (.slot 0))) (node (.name (.event ⟨0⟩)))
    (some (node (.exprs .none (node (.name (.slot 1))) none))))

def letters : Program := ⟨"letters.p", [post], [⟨"Writer", [], []⟩], [⟨"letter"⟩]⟩

end Sample

/-- One writer has written to another. -/
theorem Program.letters_share_nothing : ∃ config : RunConfig Surroundings, ∃ actions,
    Sample.letters.lower {} = .ok config.image ∧ Sample.letters.sendsCopies ∧ config.handler = Surroundings.handle ∧
    (World.queued? (World.play config actions).outside.mailboxes 1 0).isSome ∧
    (World.play config actions).Separated ∧ ∀ action : World.Action,
      (World.play config actions).Untouched action (action.after config (World.play config actions)) ∧
      ∀ holder, (∀ number, action.doer = some number → holder ≠ .actor number) →
        ∀ value ∈ (World.play config actions).held holder, ∀ levels,
          (action.after config (World.play config actions)).heap.treeWithin? levels value =
            (World.play config actions).heap.treeWithin? levels value := by
  let image : Image := (Sample.letters.lower {}).toOption.getD ⟨"", [], [], []⟩
  let config : RunConfig Surroundings := ⟨image, Surroundings.handle, 3, 100⟩
  let actions : List World.Action :=
    [.spawn ⟨0⟩, .spawn ⟨0⟩, .startCall 0 ⟨0⟩ (.ofTrees [.machine ⟨1⟩]), .execute 0 ⟨0⟩]
  have accepted : Sample.letters.lower {} = .ok config.image := rfl
  have copies : Sample.letters.sendsCopies := rfl
  have sent : (World.queued? (World.play config actions).outside.mailboxes 1 0).isSome := by decide +kernel
  exact ⟨config, actions, accepted, copies, rfl, sent, actors_share_nothing accepted copies rfl actions⟩

end Reentry
