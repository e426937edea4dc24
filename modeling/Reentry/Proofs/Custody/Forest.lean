import Reentry.Proofs.Custody.Lowered
import Reentry.Proofs.Custody.World

/-!
Plain programs treat values as values. Where every qualifier is none, no cell can be come by in two ways: not from two
variables, actors or messages, and not along two paths. So a change through one variable is seen through no other.
-/

namespace Reentry

namespace World

/-- What the action brings into the world, if anything, is built of trees, which share nothing. -/
def Action.BringsTrees : Action → Prop
  | .startCall _ _ args => ∃ trees : List Tree, args.make = trees.mapM Tree.build
  | .deliver _ message | .mail _ message => ∃ event payload : Tree, message.make = do
      let event ← event.build
      pure ⟨event, ← payload.build⟩
  | .spawn _ | .fork _ | .execute _ _ | .take _ _ | .answer _ _ | .clear _ => True

theorem Action.BringsTrees.accepted {action : Action} (brings : action.BringsTrees) (custody : Custody) : custody.AcceptsAction action := by
  have posted {message : Anew Message Message.values} {event payload : Tree} (built : message.make = do
      let event ← event.build
      pure ⟨event, ← payload.build⟩) : custody.Accepts message := by
    refine .ofPlants ?_
    rw [built]
    exact event.build_plants.next fun value => payload.build_plants.bind fun other => .pure (.of_perm (.swap other value []))
  cases action with
  | startCall number function args =>
      obtain ⟨trees, built⟩ := brings
      refine .ofPlants ?_
      rw [built]
      exact .each Tree.build_plants trees
  | deliver number message | mail number message =>
      obtain ⟨event, payload, built⟩ := brings
      exact posted built
  | spawn _ | fork _ | execute _ _ | take _ _ | answer _ _ | clear _ => trivial

end World

/-- Whatever is done in a world whose code is fair, no cell is named twice. -/
theorem Custody.grove_play {config : RunConfig Surroundings} (handler : config.handler = Surroundings.handle) (fair : config.image.Fair false)
    (actions : List World.Action) (brings : ∀ action ∈ actions, action.BringsTrees)
    (scalar : ∀ footage ∈ World.reel config .empty actions, ∀ event ∈ footage.film.raised, ∀ address, event ≠ .cell address) :
    grove.Guards (World.play config actions) ∧ ∀ footage ∈ World.reel config .empty actions,
      grove.Shows (fun outside => footage.others ++ outside.letters) footage.film := by
  have start : grove.Guards World.empty := Heap.Grove.nil _
  exact start.run handler fair actions (fun action member => (brings action member).accepted grove)
    fun footage member => .inr (scalar footage member)

namespace Program

/-- In a plain program values are trees that share nothing. As long as no event is raised that is a cell, at any time no
cell can be come by in two ways from all that actors, messages and the calls that run hold; and a change of an element, a
field or some part of those is seen nowhere but on the way to it, in it and behind it. What is filmed is the run itself. -/
theorem plain_values_share_nothing {program : Program} {options : LowerOptions} {config : RunConfig Surroundings}
    (accepted : program.lower options = .ok config.image) (plain : program.isPlain) (handler : config.handler = Surroundings.handle)
    (actions : List World.Action) (brings : ∀ action ∈ actions, action.BringsTrees)
    (scalar : ∀ footage ∈ World.reel config .empty actions, ∀ event ∈ footage.film.raised, ∀ address, event ≠ .cell address) :
    (World.play config actions).heap.Forest (World.play config actions).roots ∧
      (∀ footage ∈ World.reel config .empty actions,
        (∀ moment ∈ footage.film.moments, moment.heap.Forest (footage.roots moment)) ∧
        ∀ change ∈ footage.film.changes, change.before.heap.Forest (footage.roots change.before) ∧
          (∃ address first, change.container = .cell address ∧
            change.before.heap.Spares (footage.roots change.before) address (Heap.Touches change.onward first) change.after)) ∧
      ∀ function state, Exec.seen Prod.fst (config.executeFilming function state) = config.execute function state := by
  obtain ⟨guards, shows⟩ := Custody.grove_play handler (lower_plain accepted plain false) actions brings scalar
  have forest {heap : Heap} {roots : List Value} (keeps : Custody.grove.keeps heap ⟨[], roots⟩) : heap.Forest roots := Heap.Grove.forest keeps
  refine ⟨forest guards, fun footage member => ⟨fun moment shown => forest ((shows footage member).moments moment shown), fun change made => ?_⟩,
    config.executeFilming_seen⟩
  obtain ⟨minded, address, first, named, alters⟩ := (shows footage member).changes change made
  exact ⟨forest minded, address, first, named, alters.spares fun place other here => Heap.Grove.allocated minded here⟩

end Program

namespace Sample

/-- Puts a copy of a row into the table, changes the copy, takes a copy of it, and raises an event with that. -/
def enter : FunctionInfo where
  name := "enter"
  params := [⟨"row", 0, .seq .int⟩]
  locals := []
  returnType := none
  slotCount := 1
  owner := none
  types := .ofList [(⟨0⟩, .seq (.seq .int))]
  body :=
    let table := node (.name (.field 0))
    let row := node (.name (.slot 0))
    let first := node (.binary .index table (node (.lit (.int 0))))
    node (.block [
      node (.insert table (node (.tuple (node (.exprs .none (node (.lit (.int 0))) (some (node (.exprs .none row none)))))))),
      node (.assign (node (.binary .index first (node (.lit (.int 0))))) (node (.lit (.int 5))) .none),
      node (.assign row first .none),
      node (.raise (node (.name (.event ⟨0⟩))) (some (node (.exprs .none row none))))])

def tables : Program := ⟨"tables.p", [enter], [⟨"Clerk", [⟨"table", 0, .seq (.seq .int)⟩], []⟩], [⟨"entered"⟩]⟩

end Sample

/-- A clerk has entered a row in its table: two cells have changed, and nothing shares anything. -/
theorem Program.tables_share_nothing : ∃ config : RunConfig Surroundings, ∃ actions,
    Sample.tables.lower {} = .ok config.image ∧ Sample.tables.isPlain ∧ config.handler = Surroundings.handle ∧
    (World.reel config .empty actions).flatMap (·.film.raised) = [.event ⟨0⟩] ∧
    ((World.reel config .empty actions).flatMap (·.film.changes)).length = 2 ∧
    (World.play config actions).heap.Forest (World.play config actions).roots := by
  let image : Image := (Sample.tables.lower {}).toOption.getD ⟨"", [], [], []⟩
  let config : RunConfig Surroundings := ⟨image, Surroundings.handle, 3, 100⟩
  let actions : List World.Action := [.spawn ⟨0⟩, .startCall 0 ⟨0⟩ (.ofTrees [.seq [.int 1, .int 2]]), .execute 0 ⟨0⟩]
  have accepted : Sample.tables.lower {} = .ok config.image := rfl
  have plain : Sample.tables.isPlain := rfl
  have raised : (World.reel config .empty actions).flatMap (·.film.raised) = [.event ⟨0⟩] := by decide +kernel
  have changed : ((World.reel config .empty actions).flatMap (·.film.changes)).length = 2 := by decide +kernel
  have brings : ∀ action ∈ actions, action.BringsTrees := by
    simp only [actions, List.forall_mem_cons, List.not_mem_nil, false_imp_iff, implies_true, and_true]
    exact ⟨trivial, ⟨_, rfl⟩, trivial⟩
  have scalar : ∀ footage ∈ World.reel config .empty actions, ∀ event ∈ footage.film.raised, ∀ address, event ≠ .cell address := by
    rintro footage member event among address rfl
    have all : Value.cell address ∈ (World.reel config .empty actions).flatMap (·.film.raised) := List.mem_flatMap.mpr ⟨footage, member, among⟩
    rw [raised] at all
    simp at all
  exact ⟨config, actions, accepted, plain, rfl, raised, changed,
    (plain_values_share_nothing accepted plain rfl actions brings scalar).1⟩

end Reentry
