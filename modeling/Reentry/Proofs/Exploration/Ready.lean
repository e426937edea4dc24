import Reentry.Exploration.Search
import Reentry.Proofs.Exploration.Tree
import Reentry.Proofs.Frames.Run

/-!
Branches of an exploration that can go on: the stack of the actor holds the frames of the one call that it
runs. The first branch is such a branch, turns and forks keep it so, and therefore no branch ends because
nothing is left to run.
-/

namespace Reentry

theorem Alloc.mapM_forall₂ {α β : Type} {rel : α → β → Prop} {work : α → Alloc β}
    (holds : ∀ item heap, rel item ((work item).run heap).1) (items : List α) (heap : Heap) :
    List.Forall₂ rel items ((items.mapM work).run heap).1 := by
  induction items generalizing heap with
  | nil => exact .nil
  | cons item rest ih =>
      rw [List.mapM_cons]
      exact .cons (holds item heap) (ih ((work item).run heap).2)

/-- Frames that differ in the values of their locals only. -/
structure Frame.Alike (frame other : Frame) : Prop where
  function : other.function = frame.function
  slots : other.locals.length = frame.locals.length
  label : other.label = frame.label
  pendingCall : other.pendingCall = frame.pendingCall
  choices : other.choices = frame.choices

theorem Frame.deepCopy_alike (frame : Frame) (heap : Heap) : frame.Alike ((frame.deepCopy).run heap).1 :=
  ⟨rfl, Alloc.mapM_length _ _ _, rfl, rfl, rfl⟩

/-- Whether frames are the saved frames of a call does not depend on the values of their locals. -/
theorem Image.Saved.alike {image : Image} {function : FunctionId} {chain others : List Frame}
    (saved : image.Saved function chain) (alike : List.Forall₂ Frame.Alike chain others) : image.Saved function others := by
  induction saved generalizing others with
  | @waits routine frame position waits =>
      cases alike with
      | @cons _ other _ _ same rest =>
          cases rest
          rw [← same.function]
          refine @Saved.waits image routine other position ⟨?_, ?_, ?_, ?_, ?_⟩
          · rw [same.function]
            exact waits.known
          · rw [same.slots]
            exact waits.slots
          · rw [same.label]
            exact waits.entry
          · rw [same.pendingCall]
            exact waits.alone
          · rw [same.choices]
            exact waits.goesOn
  | @calls routine frame callee place below calls inner ih =>
      cases alike with
      | @cons _ other _ rest same others =>
          rw [← same.function]
          refine @Saved.calls image routine _ callee place _ ⟨?_, ?_, ?_, ?_⟩ (ih others)
          · rw [same.function]
            exact calls.known
          · rw [same.slots]
            exact calls.slots
          · rw [same.pendingCall]
            exact calls.pending
          · rw [same.label, same.choices]
            exact calls.expects

/-- A fork has the same frames, with copies of what they hold. -/
theorem Actor.fork_alike (actor : Actor) (heap : Heap) :
    List.Forall₂ Frame.Alike actor.stack ((actor.fork).run heap).1.stack := by
  have copied (heap : Heap) : List.Forall₂ Frame.Alike actor.stack.reverse
      ((actor.stack.reverse.mapM Frame.deepCopy).run heap).1 :=
    Alloc.mapM_forall₂ Frame.deepCopy_alike _ heap
  have reversed (heap : Heap) := List.forall₂_reverse_iff.mpr (copied heap)
  simp only [List.reverse_reverse] at reversed
  exact reversed _

namespace Branch

variable (image : Image)

/-- The frames of the actor are those of one call. -/
def Ready (branch : Branch) : Prop := ∃ function, image.Saved function branch.state.actor.stack

/-- A halt that does not come from a lack of frames. -/
def Halt.Proper : Halt → Prop
  | .ended ending _ => ending ≠ .nothingLeft
  | .choosing next => next.Ready image

/-- What a turn may come to. -/
def Goes : Halt ⊕ Branch → Prop
  | .inl halt => halt.Proper image
  | .inr next => next.Ready image

variable {image} {config : RunConfig SelfMail} {branch next : Branch} {halt : Halt}

theorem respond_goes {continuation : Continuation} {function : FunctionId}
    (handed : image.Handed function [] continuation branch.state.actor.stack) : Goes image (branch.respond continuation) := by
  cases continuation with
  | completed value locals => rintro ⟨⟩
  | suspended reason =>
      have ready (waits : reason.isTerminal = false) : branch.Ready image := by
        obtain ⟨chain, saved, stack⟩ := handed.saved waits
        rw [List.append_nil] at stack
        exact ⟨function, stack ▸ saved⟩
      cases reason with
      | goto | raise | pop => rintro ⟨⟩
      | send | nondet | new _ _ => exact ready rfl
      | receive =>
          simp only [respond]
          cases delivered : branch.deliver? with
          | none => rintro ⟨⟩
          | some next =>
              obtain ⟨function, saved⟩ := ready rfl
              exact ⟨function, (deliver?_eq_some delivered).2 ▸ saved⟩

/-- A branch that can go on does so, or it halts with something to tell. -/
theorem turns_goes (sound : config.image.Sound) {result : Halt ⊕ Branch} (ready : branch.Ready config.image)
    (turns : Turns config branch result) : Goes config.image result := by
  obtain ⟨function, saved⟩ := ready
  rcases turns_cases turns with
    ⟨none, _⟩ | ⟨frame, below, steps, stack, ⟨_, _, _, rfl⟩ | ⟨continuation, state, ran, rfl⟩⟩
  · obtain ⟨top, rest, some, _⟩ := saved.head
    rw [none] at some
    cases some
  · rintro ⟨⟩
  · obtain ⟨top, rest, same, own⟩ := saved.head
    rw [stack] at same
    cases same
    subst own
    have meets := @RunConfig.execute_meets _ (config.allowing steps) sound _ _ [] branch.state saved
      (by rw [List.append_nil])
    exact respond_goes (meets.ok ran).1

theorem arrives_proper (sound : config.image.Sound) (ready : branch.Ready config.image) (arrives : Arrives config branch halt) :
    halt.Proper config.image := by
  refine arrives_induction (motive := fun branch halt => branch.Ready config.image → halt.Proper config.image) ?_ ?_ arrives ready
  · exact fun branch halt turns ready => turns_goes sound ready turns
  · exact fun branch next halt turns later ready => later (turns_goes sound ready turns)

theorem choose_ready (ready : branch.Ready image) (chosen : Bool) : (branch.choose chosen).Ready image := ready

theorem fork_ready (ready : branch.Ready image) : branch.fork.Ready image := by
  obtain ⟨function, saved⟩ := ready
  rw [fork_eq]
  exact ⟨function, saved.alike (Actor.fork_alike branch.state.actor branch.state.heap)⟩

end Branch

/-- No leaf of the tree of a branch that can go on tells that nothing was left to run. -/
theorem Unfolds.proper {config : RunConfig SelfMail} {branch : Branch} {tree : ChoiceTree} (sound : config.image.Sound)
    (unfolds : Unfolds (Branch.Arrives config) branch tree) (ready : branch.Ready config.image) :
    ∀ outcome ∈ tree.leaves, outcome.ending ≠ .nothingLeft := by
  induction unfolds with
  | leaf ended =>
      intro outcome member
      obtain rfl := List.mem_singleton.mp member
      exact Branch.arrives_proper sound ready ended
  | node chooses _ _ left right =>
      have ready := Branch.arrives_proper sound ready chooses
      intro outcome member
      rcases List.mem_append.mp member with member | member
      · exact left (Branch.choose_ready ready false) outcome member
      · exact right (Branch.choose_ready (Branch.fork_ready ready) true) outcome member

namespace Program

variable {program : Program} {options : LowerOptions} {image : Image}

/-- A routine of a lowered program is found under the identifier that it has. -/
theorem lower_routine_own (accepted : program.lower options = .ok image) {routine : Routine}
    (member : routine ∈ image.routines) : image.routine? routine.function = some routine := by
  obtain ⟨index, found⟩ := List.mem_iff_getElem?.mp member
  obtain ⟨present, absent⟩ := mapM_getElem? (lower_eq_ok accepted) index
  cases listed : program.functionIds[index]? with
  | none =>
      rw [absent listed] at found
      cases found
  | some id =>
      obtain ⟨result, lowered, same⟩ := present id listed
      cases found.symm.trans same
      obtain ⟨info, shape, code, labelCount, known, shaped, _, assembled⟩ := lowerFunction_eq_ok lowered
      have own : routine.function = id :=
        (Routine.assemble_eq_ok assembled).1.trans (FrameShape.of_eq_ok shaped).1
      obtain ⟨knows, only⟩ := lower_routine? accepted id
      obtain ⟨other, there⟩ := Option.isSome_iff_exists.mp (knows.mp (by rw [Program.Knows, known]; rfl))
      cases (only other there).symm.trans lowered
      rw [own]
      exact there

/-- If the machine and the function exist, their exploration starts with a branch that can go on and for
which nothing has been chosen. -/
theorem firstBranch_ready (accepted : program.lower options = .ok image) {machine function : String}
    (machineKnown : ∃ decl ∈ image.machines, decl.name = machine)
    (functionKnown : ∃ routine ∈ image.routines, routine.name = function) :
    ∃ first, image.firstBranch machine function = .ok first ∧ first.Ready image ∧ first.choices = [] := by
  have sound := lower_sound accepted
  have machineFound : ∃ found, image.machineNamed? machine = some found := by
    obtain ⟨decl, member, named⟩ := machineKnown
    have some : (image.machines.findIdx? (·.name == machine)).isSome := by
      rw [List.findIdx?_isSome, List.any_eq_true]
      exact ⟨decl, member, by simp [named]⟩
    obtain ⟨index, found⟩ := Option.isSome_iff_exists.mp some
    have inside := (List.findIdx?_eq_some_iff_getElem.mp found).1
    exact ⟨_, by rw [Image.machineNamed?, found]; simp [inside]; rfl⟩
  obtain ⟨⟨machineType, decl⟩, machineFound⟩ := machineFound
  have routineFound : ∃ routine, image.routineNamed? function = some routine := by
    obtain ⟨routine, member, named⟩ := functionKnown
    exact Option.isSome_iff_exists.mp (List.find?_isSome.mpr ⟨routine, member, by simp [named]⟩)
  obtain ⟨routine, routineFound⟩ := routineFound
  have own := lower_routine_own accepted (List.mem_of_find?_eq_some routineFound)
  have slots := (sound routine.function routine own).slots
  obtain ⟨args, heap, prepared⟩ : ∃ args heap, (Image.defaultArguments routine).run .empty = (args, heap) := ⟨_, _, rfl⟩
  obtain ⟨actor, later, created⟩ : ∃ actor later, (Actor.create ⟨0⟩ machineType decl).run heap = (actor, later) := ⟨_, _, rfl⟩
  have fits : args.length = routine.shape.paramCount := by
    have counted := Alloc.mapM_length FrameShape.initialSlot (routine.shape.slots.take routine.shape.paramCount) .empty
    change ((Image.defaultArguments routine).run .empty).1.length = _ at counted
    rw [prepared, List.length_take] at counted
    exact counted.trans (Nat.min_eq_left slots)
  have fresh : actor.stack = [] := by
    obtain rfl : ((Actor.create ⟨0⟩ machineType decl).run heap).1 = actor := congrArg Prod.fst created
    rfl
  obtain ⟨started, after, starts⟩ := Actor.startCall_succeeds sound own fits actor later
  obtain ⟨frame, saved, pushed⟩ := Actor.startCall_saved sound starts
  refine ⟨⟨⟨after, started, .empty, 0⟩, [], 0⟩, ?_, ⟨routine.function, ?_⟩, rfl⟩
  · unfold Image.firstBranch
    rw [machineFound, routineFound]
    dsimp only
    rw [prepared]
    dsimp only
    rw [created]
    dsimp only
    rw [starts]
    rfl
  · rw [pushed]
    change image.Saved routine.function (frame :: actor.stack)
    rw [fresh]
    exact saved

end Program

end Reentry
