import Mathlib.Logic.Function.Basic
import Reentry.Proofs.Frames.World
import Reentry.Proofs.Ownership.Kept

/-!
Worlds in which nobody shares a cell. Actors and queued messages are the holders of cells; a world is parted
if every holder has a region of its own that nothing leads out of. Work of one actor keeps a world parted and
leaves the regions of all other holders as they are.
-/

namespace Reentry

/-- Following what cells contain, the value leads to the cell. -/
inductive Heap.Leads (heap : Heap) : Value → Address → Prop
  | here {address} : Leads heap (.cell address) address
  | inside {address part goal} (member : part ∈ (heap.read address).contents) (leads : Leads heap part goal) :
      Leads heap (.cell address) goal

namespace Heap

variable {heap after : Heap} {region : Region} {value : Value} {goal : Address}

/-- Nothing leads out of a closed region. -/
theorem Leads.within (leads : heap.Leads value goal) (closed : heap.Closed region) (owns : region.Owns value) : region goal := by
  induction leads with
  | here => exact Region.owns_cell.mp owns
  | inside member _ ih => exact ih (closed.contents _ (Region.owns_cell.mp owns) _ member)

theorem mapM_same {α β : Type} {items : List α} {read other : α → Option β} (same : ∀ item ∈ items, read item = other item) :
    items.mapM read = items.mapM other := by
  induction items with
  | nil => rfl
  | cons item rest ih => rw [List.mapM_cons, List.mapM_cons, same item (by simp), ih fun other member => same other (by simp [member])]

/-- A value looks the same if the cells that it leads to are the same. -/
theorem treeWithin?_same (levels : Nat) (same : ∀ address, heap.Leads value address → after.read address = heap.read address) :
    after.treeWithin? levels value = heap.treeWithin? levels value := by
  induction levels generalizing value with
  | zero => cases value <;> rfl
  | succ levels ih =>
      cases value with
      | cell address =>
          have inner (part : Value) (member : part ∈ (heap.read address).contents) :
              after.treeWithin? levels part = heap.treeWithin? levels part :=
            ih fun goal leads => same goal (.inside member leads)
          simp only [treeWithin?, same address .here]
          cases cell : heap.read address with
          | tuple items =>
              rw [cell] at inner
              exact congrArg (Option.map Tree.tuple) (mapM_same inner)
          | seq items =>
              rw [cell] at inner
              exact congrArg (Option.map Tree.seq) (mapM_same inner)
          | named fields =>
              rw [cell] at inner
              refine congrArg (Option.map Tree.named) (mapM_same fun field member => ?_)
              rw [inner field.2 (List.mem_map_of_mem member)]
          | map entries =>
              rw [cell] at inner
              refine congrArg (Option.map Tree.map) (mapM_same fun entry member => ?_)
              rw [inner entry.key (List.mem_flatMap.mpr ⟨entry, member, by simp⟩),
                inner entry.value (List.mem_flatMap.mpr ⟨entry, member, by simp⟩)]
      | _ => rfl

end Heap

namespace World

/-- Who may hold cells. -/
inductive Holder where
  | actor (number : Nat)
  /-- The message at that position of a mailbox. -/
  | message (mailbox position : Nat)
deriving DecidableEq

/-- Who holds it after an actor has taken the message at that position of its mailbox. -/
def Holder.afterTaking (number position : Nat) : Holder → Holder
  | .actor other => .actor other
  | .message mailbox place =>
      if mailbox = number ∧ place = position then .actor number
      else if mailbox = number ∧ position < place then .message mailbox (place - 1)
      else .message mailbox place

/-- The message at a position of a mailbox. -/
def queued? (mailboxes : List (List Message)) (mailbox position : Nat) : Option Message :=
  mailboxes[mailbox]?.bind (·[position]?)

/-- Elsewhere the queues are as before. -/
theorem queued?_modify {mailboxes : List (List Message)} {target mailbox position : Nat} {message : Message}
    (elsewhere : mailbox = target → position ≠ (mailboxes[target]?.getD []).length) :
    queued? (mailboxes.modify target (· ++ [message])) mailbox position = queued? mailboxes mailbox position := by
  unfold queued?
  rw [List.getElem?_modify]
  by_cases same : target = mailbox
  · subst same
    cases queue : mailboxes[target]? with
    | none => rfl
    | some queue =>
        have other := elsewhere rfl
        simp only [queue, Option.getD_some] at other
        simp only [Option.map_eq_map, Option.map_some, Option.bind_some, if_true, List.getElem?_append]
        grind
  · simp [same]

theorem queued?_arrived (mailboxes : List (List Message)) (target : Nat) (message : Message) :
    ∀ value ∈ (queued? (mailboxes.modify target (· ++ [message])) target (mailboxes[target]?.getD []).length).toList.flatMap
      Message.values, value ∈ message.values := by
  unfold queued?
  rw [List.getElem?_modify]
  cases queue : mailboxes[target]? <;> simp

/-- The values that a holder has. -/
def held (world : World) : Holder → List Value
  | .actor number => world.actors[number]?.toList.flatMap Actor.roots
  | .message mailbox position => (queued? world.outside.mailboxes mailbox position).toList.flatMap Message.values

/-- Whether a holder can reach a cell. -/
def Holds (world : World) (holder : Holder) (address : Address) : Prop :=
  ∃ value ∈ world.held holder, world.heap.Leads value address

/-- No cell can be reached by two holders. -/
def Separated (world : World) : Prop :=
  ∀ holder other, holder ≠ other → ∀ address, world.Holds holder address → ¬world.Holds other address

/-- Each holder has a region of its own. -/
structure Parted (world : World) (regions : Holder → Region) : Prop where
  closed : ∀ holder, world.heap.Closed (regions holder)
  owns : ∀ holder, (regions holder).OwnsAll (world.held holder)
  apart : ∀ holder other, holder ≠ other → (regions holder).Apart (regions other)

/-- What work of one actor, or of none, leaves alone. -/
structure Spares (before : World) (regions : Holder → Region) (doer : Option Nat) (after : World) : Prop where
  actors : ∀ other, other < before.actors.length → doer ≠ some other → after.actors[other]? = before.actors[other]?
  cells : ∀ holder, (∀ number, doer = some number → holder ≠ .actor number) → ∀ address, regions holder address →
    after.heap.read address = before.heap.read address
  mailboxes : ∀ (number : Nat) (queue : List Message), before.outside.mailboxes[number]? = some queue →
    ∃ more : List Message, after.outside.mailboxes[number]? = some (queue ++ more)
  printed : before.outside.printed <+: after.outside.printed
  announced : before.outside.announced <+: after.outside.announced

namespace Parted

variable {world after : World} {regions : Holder → Region}

theorem holds (parted : world.Parted regions) {holder : Holder} {address : Address} (holds : world.Holds holder address) :
    regions holder address := by
  obtain ⟨value, member, leads⟩ := holds
  exact leads.within (parted.closed holder) (parted.owns holder value member)

theorem separated (parted : world.Parted regions) : world.Separated := fun holder other distinct address left right =>
  parted.apart holder other distinct address (parted.holds left) (parted.holds right)

theorem empty : World.empty.Parted fun _ _ => False :=
  ⟨fun _ => .empty _, fun holder => by cases holder <;> exact Region.ownsAll_nil, nofun⟩

/-- One holder has worked on the heap within its region. -/
theorem change (parted : world.Parted regions) (after : World) (holder : Holder) {more : Region}
    (grows : world.heap.Grows (regions holder) after.heap more) (owns : more.OwnsAll (after.held holder))
    (same : ∀ other, other ≠ holder → after.held other = world.held other) :
    after.Parted (Function.update regions holder more) := by
  have beside (other : Holder) (distinct : other ≠ holder) : more.Apart (regions other) := fun address inside member => by
    rcases grows.fresh address inside with old | new
    · exact parted.apart holder other (Ne.symm distinct) address old member
    · exact absurd ((parted.closed other).allocated address member) (Nat.not_lt.mpr new)
  refine ⟨fun other => ?_, fun other => ?_, fun left right distinct => ?_⟩
  · by_cases own : other = holder
    · subst own
      simpa using grows.closed
    · rw [Function.update_of_ne own]
      exact (parted.closed other).kept grows.size fun address inside =>
        grows.elsewhere address ((parted.closed other).allocated address inside) fun member =>
          parted.apart other holder own address inside member
  · by_cases own : other = holder
    · subst own
      simpa using owns
    · rw [Function.update_of_ne own, same other own]
      exact parted.owns other
  · by_cases own : left = holder
    · subst own
      rw [Function.update_self, Function.update_of_ne (Ne.symm distinct)]
      exact beside right (Ne.symm distinct)
    · by_cases own' : right = holder
      · subst own'
        rw [Function.update_self, Function.update_of_ne own]
        exact (beside left own).symm
      · rw [Function.update_of_ne own, Function.update_of_ne own']
        exact parted.apart left right distinct

/-- Holders may pass on what they have, each to one other holder. -/
theorem passOn (parted : world.Parted regions) (heap : after.heap = world.heap) (receiver : Holder → Holder)
    (had : ∀ holder, ∀ value ∈ after.held holder, ∃ giver, receiver giver = holder ∧ value ∈ world.held giver) :
    after.Parted fun holder address => ∃ giver, receiver giver = holder ∧ regions giver address := by
  refine ⟨fun holder => ⟨?_, ?_⟩, fun holder value member address same => ?_, fun left right distinct address => ?_⟩
  · rintro address ⟨giver, _, inside⟩
    rw [heap]
    exact (parted.closed giver).allocated address inside
  · rintro address ⟨giver, given, inside⟩
    rw [heap]
    exact ((parted.closed giver).contents address inside).mono fun other member => ⟨giver, given, member⟩
  · obtain ⟨giver, given, among⟩ := had holder value member
    exact ⟨giver, given, parted.owns giver value among address same⟩
  · rintro ⟨giver, rfl, inside⟩ ⟨other, rfl, inside'⟩
    exact parted.apart giver other (fun same => distinct (by rw [same])) address inside inside'

/-- A message of cells that nobody holds arrives. -/
theorem post (parted : world.Parted regions) (after : World) (posted : Posted) (closed : world.heap.Closed posted.region)
    (owns : posted.region.OwnsAll posted.message.values) (apart : ∀ holder, (regions holder).Apart posted.region)
    (heap : after.heap = world.heap) (actors : after.actors = world.actors)
    (mailboxes : after.outside.mailboxes = world.outside.mailboxes.modify posted.mailbox (· ++ [posted.message])) :
    ∃ holder, after.Parted (Function.update regions holder posted.region) := by
  let place : Holder := .message posted.mailbox (world.outside.mailboxes[posted.mailbox]?.getD []).length
  have same (holder : Holder) (distinct : holder ≠ place) : after.held holder = world.held holder := by
    cases holder with
    | actor number => simp only [held, actors]
    | message mailbox position =>
        simp only [held, mailboxes]
        rw [queued?_modify fun own own' => distinct (by rw [own, own'])]
  have arrived : posted.region.OwnsAll (after.held place) := by
    simp only [held, mailboxes, place]
    exact owns.subset (queued?_arrived _ _ _)
  refine ⟨place, fun holder => ?_, fun holder => ?_, fun left right distinct => ?_⟩
  · rw [heap]
    by_cases own : holder = place
    · subst own
      simpa using closed
    · rw [Function.update_of_ne own]
      exact parted.closed holder
  · by_cases own : holder = place
    · rw [own, Function.update_self]
      exact arrived
    · rw [Function.update_of_ne own, same holder own]
      exact parted.owns holder
  · by_cases own : left = place
    · rw [own, Function.update_self, Function.update_of_ne fun same => distinct (own.trans same.symm)]
      exact (apart right).symm
    · by_cases own' : right = place
      · rw [own', Function.update_self, Function.update_of_ne own]
        exact apart left
      · rw [Function.update_of_ne own, Function.update_of_ne own']
        exact parted.apart left right distinct

/-- Messages of cells that nobody holds arrive one after the other. -/
theorem posts {sent : List Posted} (parted : world.Parted regions) (after : World)
    (each : ∀ posted ∈ sent, world.heap.Closed posted.region ∧ posted.region.OwnsAll posted.message.values ∧
      ∀ holder, (regions holder).Apart posted.region)
    (distinct : sent.Pairwise fun posted other => posted.region.Apart other.region) (heap : after.heap = world.heap)
    (actors : after.actors = world.actors)
    (mailboxes : after.outside.mailboxes = Surroundings.deliverAll world.outside.mailboxes sent) :
    ∃ more, after.Parted more := by
  induction sent generalizing world regions with
  | nil =>
      have same (holder : Holder) : after.held holder = world.held holder := by
        cases holder with
        | actor number => simp only [held, actors]
        | message mailbox position => simp only [held, mailboxes, Surroundings.deliverAll, List.foldl_nil]
      exact ⟨_, parted.passOn heap id fun holder value member => ⟨holder, rfl, by rwa [same] at member⟩⟩
  | cons posted rest ih =>
      obtain ⟨apart, distinct⟩ := List.pairwise_cons.mp distinct
      obtain ⟨closed, owns, free⟩ := each posted (by simp)
      let middle : World := { world with outside := { world.outside with
        mailboxes := world.outside.mailboxes.modify posted.mailbox (· ++ [posted.message]) } }
      obtain ⟨place, arrived⟩ := parted.post middle posted closed owns free rfl rfl rfl
      refine ih arrived (fun other member => ?_) distinct heap actors mailboxes
      obtain ⟨closed', owns', free'⟩ := each other (by simp [member])
      refine ⟨closed', owns', fun holder => ?_⟩
      by_cases own : holder = place
      · rw [own, Function.update_self]
        exact apart other member
      · rw [Function.update_of_ne own]
        exact free' holder

end Parted

/-- The state that something left, whether it succeeded or not. -/
def left {α : Type} : EStateM.Result WorldFailure World α → World
  | .ok _ world => world
  | .error _ world => world

namespace Spares

variable {before after : World} {regions : Holder → Region} {doer : Option Nat}

theorem refl (world : World) (regions : Holder → Region) (doer : Option Nat) : world.Spares regions doer world :=
  ⟨fun _ _ _ => rfl, fun _ _ _ _ => rfl, fun _ queue here => ⟨[], by simpa using here⟩, List.prefix_rfl, List.prefix_rfl⟩

/-- New cells may have been made first. -/
theorem afterFresh {heap : Heap} {values : List Value} {more : Holder → Region} (parted : before.Parted regions)
    (fresh : Heap.Fresh before.heap heap values) (spares : Spares { before with heap } more doer after)
    (same : ∀ holder, (∀ number, doer = some number → holder ≠ .actor number) → more holder = regions holder) :
    before.Spares regions doer after := by
  refine ⟨spares.actors, fun holder other address inside => ?_, spares.mailboxes, spares.printed, spares.announced⟩
  have kept := spares.cells holder other address (by rw [same holder other]; exact inside)
  exact kept.trans (fresh.same address ((parted.closed holder).allocated address inside))

end Spares

/-- Messages that arrive stand behind those that were there. -/
theorem deliverAll_getElem? (sent : List Posted) (mailboxes : List (List Message)) {number : Nat} {queue : List Message}
    (here : mailboxes[number]? = some queue) :
    ∃ more, (Surroundings.deliverAll mailboxes sent)[number]? = some (queue ++ more) := by
  induction sent generalizing mailboxes queue with
  | nil => exact ⟨[], by rw [List.append_nil]; exact here⟩
  | cons posted rest ih =>
      by_cases own : posted.mailbox = number
      · have grown : (mailboxes.modify posted.mailbox (· ++ [posted.message]))[number]? = some (queue ++ [posted.message]) := by
          rw [List.getElem?_modify, here]
          simp [own]
        obtain ⟨more, found⟩ := ih _ grown
        exact ⟨posted.message :: more, by rw [List.append_cons]; exact found⟩
      · have same : (mailboxes.modify posted.mailbox (· ++ [posted.message]))[number]? = some queue := by
          rw [List.getElem?_modify, here]
          simp [own]
        exact ih _ same

/-- Work of an actor within its region keeps the world parted and spares everybody else. -/
theorem Parted.onActor {world : World} {regions : Holder → Region} {α : Type} {number : Nat} {work : Exec Surroundings α}
    {values : α → List Value} (parted : world.Parted regions) (within : ∀ actor, world.actors[number]? = some actor →
      Exec.Within (regions (.actor number)) (world.running actor) work values) :
    (∃ more, (left (World.onActor number work world)).Parted more) ∧
      world.Spares regions (some number) (left (World.onActor number work world)) := by
  cases present : world.actors[number]? with
  | none =>
      have refused : World.onActor number work world = .error .noActor world := onActor_eq_error.mpr (.inl ⟨present, rfl, rfl⟩)
      rw [refused]
      exact ⟨⟨regions, parted⟩, .refl _ _ _⟩
  | some actor =>
      have roots : (regions (.actor number)).OwnsAll actor.roots := by
        have own := parted.owns (.actor number)
        simpa [held, present] using own
      obtain ⟨state, more, leaves, kept, owns⟩ : ∃ state more, left (World.onActor number work world) = world.leave number state ∧
          Kept (world.running actor) (regions (.actor number)) state more (fun _ => False) ∧ more.OwnsAll state.actor.roots := by
        have did := within actor present (parted.closed _) roots
        cases ran : work (world.running actor) with
        | ok result state =>
            rw [ran] at did
            obtain ⟨more, kept, owns, _⟩ := did
            have done : World.onActor number work world = .ok result (world.leave number state) :=
              onActor_eq_ok.mpr ⟨actor, state, present, ran, rfl⟩
            exact ⟨state, more, by rw [done]; rfl, kept, owns⟩
        | error stop state =>
            rw [ran] at did
            obtain ⟨more, kept, owns⟩ := did
            have done : World.onActor number work world = .error (.ofStop stop) (world.leave number state) :=
              onActor_eq_error.mpr (.inr ⟨actor, stop, state, present, ran, rfl, rfl⟩)
            exact ⟨state, more, by rw [done]; rfl, kept, owns⟩
      rw [leaves]
      obtain ⟨grows, _, sent, ⟨mailboxes, printed, announced⟩, apart, _, distinct⟩ := kept
      let middle : World := { world.leave number state with outside := world.outside }
      have changed : middle.Parted (Function.update regions (.actor number) more) := by
        refine parted.change middle (.actor number) grows ?_ fun other distinct => ?_
        · simp only [held, middle, leave_getElem?, present, if_true, Option.map_some, Option.toList_some, List.flatMap_cons,
            List.flatMap_nil, List.append_nil]
          exact owns
        · cases other with
          | actor other =>
              have different : number ≠ other := fun same => distinct (by rw [same])
              simp only [held, middle, leave_getElem?, different, if_false]
          | message mailbox position => rfl
      have elsewhere (holder : Holder) (other : holder ≠ .actor number) (posted : Posted) (member : posted ∈ sent) :
          (regions holder).Apart posted.region := fun address inside new =>
        absurd ((parted.closed holder).allocated address inside) (Nat.not_lt.mpr ((apart posted member).detached.fresh address new))
      constructor
      · refine changed.posts (world.leave number state) (fun posted member => ?_) distinct rfl rfl mailboxes
        refine ⟨(apart posted member).detached.closed, (apart posted member).owns, fun holder => ?_⟩
        by_cases own : holder = .actor number
        · rw [own, Function.update_self]
          exact (apart posted member).detached.apart
        · rw [Function.update_of_ne own]
          exact elsewhere holder own posted member
      · refine ⟨fun other _ different => ?_, fun holder other address inside => ?_, fun mailbox queue here => ?_, printed, announced⟩
        · rw [leave_getElem?, if_neg fun same => different (by rw [same])]
        · exact grows.elsewhere address ((parted.closed holder).allocated address inside)
            (parted.apart holder _ (other number rfl) address inside)
        · obtain ⟨more, found⟩ := deliverAll_getElem? sent world.outside.mailboxes here
          exact ⟨more, (congrArg (·[mailbox]?) mailboxes).trans found⟩

end World

end Reentry
