import Reentry.Actor.Basic
import Reentry.Proofs.Equality.Copies
import Reentry.Proofs.Keys.Stage

/-!
What a fork is like. Every field, register and local of a fork looks as the original did and is equal to it; everything
else of an actor and its frames is taken over as it is. That the original shares cells among its values makes no
difference.
-/

namespace Reentry

namespace Heap

variable {before heap after : Heap} {value copy : Value} {tree : Tree}

/-- A value that has not changed looks the same, also if it contains itself. -/
theorem tree_same (same : ∀ address, before.Leads value address → after.read address = before.read address) : after.tree value = before.tree value := by
  by_cases shows : ∃ tree, before.Shows value tree
  · obtain ⟨tree, shows⟩ := shows
    rw [shows.tree_eq, (shows.same same).tree_eq]
  · have never (levels : Nat) : before.treeWithin? levels value = none :=
      Option.eq_none_iff_forall_ne_some.mpr fun tree found => shows ⟨tree, levels, found⟩
    rw [Heap.tree, Heap.tree, treeWithin?_same _ same, never, never]

/-- A value that does not lead to missing cells, with fair maps only. It may contain itself. -/
structure Ready (heap : Heap) (value : Value) : Prop where
  sound : heap.Sound value
  allocated : ∀ address, heap.Leads value address → address.index < heap.size

theorem Ready.neat (ready : heap.Ready value) : (heap.tree value).Neat := by
  unfold Heap.tree
  cases found : heap.treeWithin? (heap.size + 1) value with
  | none => simp only [Option.getD_none, Tree.Neat]
  | some tree => exact ready.sound.neat found

/-- A copy looks as the original did, and is equal to it. There is no end to comparing a value that contains itself, nor
to copying it. -/
structure Likens (before after : Heap) (value copy : Value) : Prop where
  looks : after.tree copy = before.tree value
  equal : ∀ tree, before.Shows value tree → after.equal value copy = true

/-- A copy, in the heap as it is now, that shows what the original showed. -/
structure Renders (before : Heap) (value : Value) (heap : Heap) (copy : Value) : Prop where
  original : before.Ready value
  solid : heap.Solid copy
  shows : heap.Shows copy (before.tree value)

theorem Renders.extends (renders : before.Renders value heap copy) (grows : heap.Extends after) : before.Renders value after copy :=
  ⟨renders.original, renders.solid.extends grows, renders.shows.same fun address leads => grows.same address (renders.solid.allocated address leads)⟩

theorem Renders.likens (renders : before.Renders value after copy) (grows : before.Extends after) : before.Likens after value copy := by
  have same (address : Address) (leads : before.Leads value address) : after.read address = before.read address :=
    grows.same address (renders.original.allocated address leads)
  refine ⟨renders.shows.tree_eq, fun tree shows => ?_⟩
  refine (equal_iff_alike (renders.original.sound.same same) renders.solid.sound renders.shows).mpr ?_
  exact ⟨tree, before.tree value, shows.same same, renders.shows, shows.tree_eq ▸ tree.same_refl⟩

end Heap

/-- A copy of a frame, with locals that are alike. -/
structure Frame.Resembles (alike : Value → Value → Prop) (frame copy : Frame) : Prop where
  function : copy.function = frame.function
  label : copy.label = frame.label
  pendingCall : copy.pendingCall = frame.pendingCall
  choices : copy.choices = frame.choices
  locals : List.Forall₂ alike frame.locals copy.locals

/-- A copy of an actor, with values that are alike. -/
structure Actor.Resembles (alike : Value → Value → Prop) (actor copy : Actor) : Prop where
  id : copy.id = actor.id
  machine : copy.machine = actor.machine
  name : copy.name = actor.name
  fields : List.Forall₂ alike actor.fields copy.fields
  trigger : alike actor.trigger copy.trigger
  payload : alike actor.payload copy.payload
  gotoTarget : copy.gotoTarget = actor.gotoTarget
  receiveSet : copy.receiveSet = actor.receiveSet
  resume : copy.resume = actor.resume
  stack : List.Forall₂ (Frame.Resembles alike) actor.stack copy.stack

open Heap Alloc

variable {before heap after : Heap} {value : Value} {frame : Frame} {actor : Actor}

/-- Copies are made one after the other, each in the heap that the ones before have left. -/
theorem Heap.Ready.deepCopy (ready : before.Ready value) (grows : before.Extends heap) : Puts heap value.deepCopy (before.Renders value) := by
  have same : heap.tree value = before.tree value := tree_same fun address leads => grows.same address (ready.allocated address leads)
  exact (heap.deepCopy_puts value).weaken fun _ _ _ depicts => ⟨ready, depicts.solid, same ▸ depicts.shows (same ▸ ready.neat)⟩

theorem deepCopies_renders {values : List Value} (ready : ∀ value ∈ values, before.Ready value) (grows : before.Extends heap) :
    Puts heap (deepCopies values) fun after => List.Forall₂ (before.Renders · after) values :=
  @Puts.mapM _ _ _ (fun heap value => before.Ready value ∧ before.Extends heap) (fun heap value => before.Renders value heap) values
    (fun ready grows => ⟨ready.1, ready.2.trans grows⟩) Renders.extends (fun _ _ ready => ready.1.deepCopy ready.2) heap
    fun value among => ⟨ready value among, grows⟩

theorem Frame.Resembles.imp {alike more : Value → Value → Prop} {copy : Frame} (resembles : frame.Resembles alike copy)
    (imp : ∀ value copy, alike value copy → more value copy) : frame.Resembles more copy :=
  { resembles with locals := resembles.locals.imp imp }

theorem Frame.deepCopy_renders (ready : ∀ value ∈ frame.locals, before.Ready value) (grows : before.Extends heap) :
    Puts heap frame.deepCopy fun after => frame.Resembles (before.Renders · after) :=
  (deepCopies_renders ready grows).bind fun _ _ _ locals => .pure ⟨rfl, rfl, rfl, rfl, locals⟩

theorem deepCopy_frames_renders {frames : List Frame} (ready : ∀ frame ∈ frames, ∀ value ∈ frame.locals, before.Ready value)
    (grows : before.Extends heap) : Puts heap (frames.mapM Frame.deepCopy) fun after => List.Forall₂ (Frame.Resembles (before.Renders · after)) frames :=
  @Puts.mapM _ _ _ (fun heap frame => (∀ value ∈ frame.locals, before.Ready value) ∧ before.Extends heap)
    (fun heap frame => frame.Resembles (before.Renders · heap)) frames (fun ready grows => ⟨ready.1, ready.2.trans grows⟩)
    (fun resembles grows => resembles.imp fun _ _ renders => renders.extends grows) (fun _ _ ready => Frame.deepCopy_renders ready.1 ready.2) heap
    fun frame among => ⟨ready frame among, grows⟩

/-- What a fork holds shows what the original showed. -/
theorem Actor.fork_renders (ready : ∀ value ∈ actor.roots, before.Ready value) :
    Puts before actor.fork fun after => actor.Resembles (before.Renders · after) := by
  have fields (value : Value) (among : value ∈ actor.fields) : before.Ready value := ready value (by simp [roots, among])
  have frames (frame : Frame) (among : frame ∈ actor.stack.reverse) (value : Value) (member : value ∈ frame.locals) : before.Ready value :=
    ready value (List.mem_append_right _ (List.mem_flatMap.mpr ⟨frame, List.mem_reverse.mp among, member⟩))
  refine (deepCopies_renders fields (.refl before)).bind fun _ heap₁ grows₁ fields => ?_
  refine ((ready actor.trigger (by simp [roots])).deepCopy grows₁).bind fun _ heap₂ grows₂ trigger => ?_
  refine ((ready actor.payload (by simp [roots])).deepCopy (grows₁.trans grows₂)).bind fun _ heap₃ grows₃ payload => ?_
  refine (deepCopy_frames_renders frames ((grows₁.trans grows₂).trans grows₃)).bind fun stack heap₄ grows₄ copies => .pure ?_
  refine ⟨rfl, rfl, rfl, fields.imp fun _ _ renders => renders.extends (grows₂.trans (grows₃.trans grows₄)), trigger.extends (grows₃.trans grows₄),
    payload.extends grows₄, rfl, rfl, rfl, ?_⟩
  simpa using List.forall₂_reverse_iff.mpr copies

theorem Actor.Resembles.imp {alike more : Value → Value → Prop} {copy : Actor} (resembles : actor.Resembles alike copy)
    (imp : ∀ value copy, alike value copy → more value copy) : actor.Resembles more copy :=
  { resembles with
    fields := resembles.fields.imp imp
    trigger := imp _ _ resembles.trigger
    payload := imp _ _ resembles.payload
    stack := resembles.stack.imp fun _ _ resembles => resembles.imp imp }

/-- A fork looks as the original did, in all its values, and is equal to it; and nothing else has changed. -/
theorem Actor.fork_resembles (ready : ∀ value ∈ actor.roots, before.Ready value) :
    before.Extends (actor.fork.run before).2 ∧ actor.Resembles (before.Likens (actor.fork.run before).2) (actor.fork.run before).1 := by
  obtain ⟨grows, renders⟩ := fork_renders ready
  exact ⟨grows, renders.imp fun _ _ renders => renders.likens grows⟩

end Reentry

/-!
Forks are isolated. A fork is made of new cells. Whatever is done with values and actors happens to the cells that these
lead to, and to new ones; so nothing that is done on the side of the fork is seen on the other side, nor the other way
around, however both go on.
-/

namespace Reentry

open Heap

/-- Cells in use lead to cells in use, and others are left alone. -/
def selfContained : Regime where
  holds := Heap.Closed
  turns before region after more := region.Inside more ∧ (before.Closed region → before.Grows region after more)
  refl _ _ := ⟨.refl _, .refl⟩
  trans first next := ⟨first.1.trans next.1, fun closed => (first.2 closed).trans (next.2 (first.2 closed).closed)⟩
  inside turns := turns.1
  operate op closed owns done := by
    have stays := op.perform_stays owns closed
    rw [done] at stays
    obtain ⟨more, grows, own⟩ := stays
    exact ⟨more, ⟨grows.inside, fun _ => grows⟩, grows.closed, own _ (.head _)⟩

/-- Everything at hand, and everything that it leads to, is as it was. -/
structure Stage.Untouched (stage : Stage) (heap : Heap) : Prop where
  cells : ∀ address, stage.heap.reachOf stage.values address → heap.read address = stage.heap.read address
  looks : ∀ value ∈ stage.values, heap.tree value = stage.heap.tree value

/-- What may happen on two sides of one heap: something is done on either of them, with what is at hand there. -/
inductive Beside : Stage × Stage → Stage × Stage → Prop
  | left {one other next : Stage} (deed : Deed one next) : Beside (one, other) (next, { other with heap := next.heap })
  | right {one other next : Stage} (deed : Deed other next) : Beside (one, other) ({ one with heap := next.heap }, next)

namespace Stage

variable {stage one other next : Stage} {heap : Heap} {region more : Region}

theorem Untouched.of_cells (cells : ∀ address, stage.heap.reachOf stage.values address → heap.read address = stage.heap.read address) :
    stage.Untouched heap :=
  ⟨cells, fun value member => tree_same fun address leads => cells address ⟨value, member, leads⟩⟩

/-- What a closed region holds leads nowhere else. -/
theorem Under.reach (under : stage.Under selfContained region) : (stage.heap.reachOf stage.values).Inside region := by
  rintro address ⟨value, member, leads⟩
  exact leads.within under.holds (under.owns value member)

/-- Two sides that share a heap, but no cell. -/
structure Severed (one other : Stage) : Prop where
  heap : other.heap = one.heap
  regions : ∃ region more, one.Under selfContained region ∧ other.Under selfContained more ∧ region.Apart more

namespace Severed

theorem symm (severed : Severed one other) : Severed other one := by
  obtain ⟨region, more, under, under', apart⟩ := severed.regions
  exact ⟨severed.heap.symm, more, region, under', under, apart.symm⟩

theorem apart (severed : Severed one other) : (one.heap.reachOf one.values).Apart (other.heap.reachOf other.values) := by
  obtain ⟨region, more, under, under', apart⟩ := severed.regions
  exact fun address reached reached' => apart address (under.reach address reached) (under'.reach address reached')

/-- Whatever is done on one side, the other side is not touched, and they still share no cell. -/
theorem later (severed : Severed one other) (later : one.Later next) :
    other.Untouched next.heap ∧ Severed next { other with heap := next.heap } := by
  obtain ⟨region, more, under, under', apart⟩ := severed.regions
  obtain ⟨grown, ⟨_, grows⟩, onward⟩ := later.obeys under
  have grows := grows under.holds
  have allocated (address : Address) (inside : more address) : address.index < one.heap.size := severed.heap ▸ under'.holds.allocated address inside
  have same (address : Address) (inside : more address) : next.heap.read address = other.heap.read address := by
    rw [severed.heap]
    exact grows.elsewhere address (allocated address inside) fun old => apart address old inside
  refine ⟨.of_cells fun address reached => same address (under'.reach address reached), rfl, grown, more, onward, ⟨?_, under'.owns⟩, ?_⟩
  · exact under'.holds.kept (severed.heap ▸ grows.size) same
  · intro address inside inside'
    rcases grows.fresh address inside with old | new
    · exact apart address old inside'
    · exact absurd (allocated address inside') (Nat.not_lt.mpr new)

theorem beside {sides : Stage × Stage} (severed : Severed one other) (along : Relation.ReflTransGen Beside (one, other) sides) :
    Severed sides.1 sides.2 := by
  induction along with
  | refl => exact severed
  | tail _ step ih =>
      cases step with
      | left deed => exact (ih.later (.single deed)).2
      | right deed => exact (ih.symm.later (.single deed)).2.symm

end Severed

/-- New values on one side, and what was there before on the other. -/
theorem severed_of_fresh {actor : Actor} (allocated : ∀ address, stage.heap.reachOf stage.values address → address.index < stage.heap.size)
    (fresh : stage.heap.Fresh heap actor.roots) : Severed { stage with heap } ⟨heap, [actor], []⟩ := by
  have closed := closed_reachOf allocated
  refine ⟨rfl, stage.heap.reachOf stage.values, Region.between stage.heap.size heap.size, ⟨?_, stage.heap.owns_reachOf stage.values⟩,
    ⟨fresh.closed, by simpa [values] using fresh.owns⟩, fun address reached inside => ?_⟩
  · exact closed.kept fresh.size fun address reached => fresh.same address (allocated address reached)
  · exact absurd (allocated address reached) (Nat.not_lt.mpr inside.1)

end Stage

namespace Sample

/-- An actor that has the same seq in a field and in the frame of a call that waits. -/
def keeper : Actor where
  id := ⟨0⟩
  machine := ⟨0⟩
  name := "Keeper"
  fields := [.cell ⟨0⟩]
  trigger := .null
  payload := .null
  gotoTarget := none
  receiveSet := []
  resume := ⟨none, none⟩
  stack := [⟨⟨0⟩, [.cell ⟨0⟩], ⟨2⟩, none, [true]⟩]

def shelf : Stage := ⟨⟨#[.seq [.int 1]]⟩, [keeper], []⟩

/-- The same when the actor has been forked. -/
def shelves : Stage := ⟨⟨#[.seq [.int 1], .seq [.int 1], .seq [.int 1]]⟩, [keeper], []⟩

end Sample

end Reentry
