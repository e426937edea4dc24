import Mathlib.Algebra.BigOperators.Group.List.Basic
import Mathlib.Data.List.Flatten
import Reentry.Proofs.Forest.Grove
import Reentry.Proofs.Ownership.Copies

/-!
Copies in a grove. Building a tree plants it: each of its cells is named once, and nothing else leads there. So
copies, initial values and new actors may be taken in hand whatever is in hand already.
-/

namespace Reentry

namespace Fewer

variable {α : Type} {items : List α} {parts : α → List Value}

/-- Dropping elements drops what belongs to them. -/
theorem flatMap_sublist {fewer : List α} (sublist : List.Sublist fewer items) : Fewer (fewer.flatMap parts) (items.flatMap parts) :=
  .of_sublist (sublist.flatMap parts)

/-- An element that is changed may only take up something more. -/
theorem flatMap_modify {change : α → α} {more : List Value} (index : Nat)
    (changed : ∀ item, Fewer (parts (change item)) (more ++ parts item)) :
    Fewer ((items.modify index change).flatMap parts) (more ++ items.flatMap parts) := by
  induction items generalizing index with
  | nil =>
      rw [List.modify_nil]
      exact of_sublist (List.sublist_append_right _ _)
  | cons item rest ih =>
      intro address
      cases index with
      | zero =>
          have own := changed item address
          simp only [List.modify_zero_cons, List.flatMap_cons, List.count_append] at own ⊢
          omega
      | succ index =>
          have others := ih index address
          simp only [List.modify_succ_cons, List.flatMap_cons, List.count_append] at others ⊢
          omega

end Fewer

namespace Heap

/-- Binding puts the key and the value into a map, at most once. -/
theorem bind_fewer (heap : Heap) (key value : Value) (entries : List Entry) :
    Fewer (Cell.map (heap.bind key value entries).1).contents ([key, value] ++ (Cell.map entries).contents) := by
  unfold bind
  cases heap.boundIndex? key entries with
  | none =>
      refine .of_perm ?_
      simp only [Cell.contents, List.flatMap_append, List.flatMap_cons, List.flatMap_nil, List.append_nil]
      exact List.perm_append_comm
  | some index =>
      refine .flatMap_modify index fun entry address => ?_
      simp only [List.count_append, List.count_cons]
      omega

/-- Bindings that are made one after the other put each key and each value into the map at most once. -/
theorem bindings_fewer (heap : Heap) (bindings : List (Value × Value)) (entries : List Entry) :
    Fewer (Cell.map (bindings.foldl (fun entries binding => (heap.bind binding.1 binding.2 entries).1) entries)).contents
      ((bindings.flatMap fun binding => [binding.1, binding.2]) ++ (Cell.map entries).contents) := by
  induction bindings generalizing entries with
  | nil => exact .refl _
  | cons binding others ih =>
      refine (ih (heap.bind binding.1 binding.2 entries).1).trans ?_
      refine (Fewer.append (.refl _) (heap.bind_fewer binding.1 binding.2 entries)).trans (.of_perm ?_)
      rw [List.flatMap_cons, ← List.append_assoc]
      exact List.Perm.append_right _ List.perm_append_comm

/-- What may be asked of a heap and the values in hand without hindering trees from being built: values may be dropped,
packed into new cells, and bound in new maps. -/
structure Sows (keeps : Heap → List Value → Prop) : Prop where
  mono {heap : Heap} {held fewer : List Value} (kept : keeps heap held) (less : Fewer fewer held) : keeps heap fewer
  new {heap : Heap} {held : List Value} {cell : Cell} (kept : keeps heap (cell.contents ++ held)) (plain : ∀ entries, cell ≠ .map entries) :
    keeps (heap.allocate cell) (.cell heap.next :: held)
  newMap {heap : Heap} {held : List Value} {bindings : List (Value × Value)}
    (kept : keeps heap ((bindings.flatMap fun binding => [binding.1, binding.2]) ++ held)) :
    keeps (heap.allocate (.map (bindings.foldl (fun entries binding => (heap.bind binding.1 binding.2 entries).1) [])))
      (.cell heap.next :: held)

theorem Tends.sows {keeps : Heap → List Value → Prop} (tends : Tends keeps) : Sows keeps where
  mono := tends.mono
  new kept _ := tends.allocate kept
  newMap {heap held bindings} kept := by
    have less := heap.bindings_fewer bindings []
    rw [show (Cell.map []).contents = [] from rfl, List.append_nil] at less
    exact tends.allocate (tends.mono kept (less.append (.refl held)))

end Heap

namespace Alloc

variable {α β : Type}

/-- Whatever else is in hand, the work uses up some values and leaves others in hand. -/
def Sown (keeps : Heap → List Value → Prop) (spent : List Value) (work : Alloc α) (gained : α → List Value) : Prop :=
  ∀ heap rest, keeps heap (spent ++ rest) → keeps (work.run heap).2 (gained (work.run heap).1 ++ rest)

/-- So it is for all that may be asked of a grove. -/
def Plants (spent : List Value) (work : Alloc α) (gained : α → List Value) : Prop :=
  ∀ ⦃keeps⦄, Heap.Tends keeps → Sown keeps spent work gained

namespace Sown

variable {keeps : Heap → List Value → Prop} {spent kept : List Value} {work : Alloc α} {gained : α → List Value} {later : β → List Value}

theorem pure (sows : Heap.Sows keeps) {result : α} (less : Fewer (gained result) spent) : Sown keeps spent (Pure.pure result) gained :=
  fun _ _ kept => sows.mono kept (less.append (.refl _))

/-- What is in hand already is kept meanwhile. -/
theorem bind {rest : α → Alloc β} (first : Sown keeps [] work gained) (next : ∀ result, Sown keeps (gained result ++ kept) (rest result) later) :
    Sown keeps kept (work >>= rest) later := by
  intro heap others holds
  have planted := first heap (kept ++ others) holds
  rw [← List.append_assoc] at planted
  exact next _ _ others planted

/-- Nothing else is in hand. -/
theorem next {rest : α → Alloc β} (first : Sown keeps spent work gained) (next : ∀ result, Sown keeps (gained result) (rest result) later) :
    Sown keeps spent (work >>= rest) later  :=
  fun heap others kept => next _ _ others (first heap others kept)

end Sown

namespace Plants

variable {spent kept : List Value} {work : Alloc α} {gained : α → List Value} {later : β → List Value}

theorem pure {result : α} (less : Fewer (gained result) spent) : Plants spent (Pure.pure result) gained :=
  fun _ tends => .pure tends.sows less

theorem bind {rest : α → Alloc β} (first : Plants [] work gained) (next : ∀ result, Plants (gained result ++ kept) (rest result) later) :
    Plants kept (work >>= rest) later := fun _ tends => (first tends).bind fun result => next result tends

theorem next {rest : α → Alloc β} (first : Plants spent work gained) (next : ∀ result, Plants (gained result) (rest result) later) :
    Plants spent (work >>= rest) later  := fun _ tends => (first tends).next fun result => next result tends

theorem scalar {value : Value} (scalar : ∀ address, value ≠ .cell address) : Plants [] (Pure.pure value) fun value => [value] :=
  pure (.scalar scalar [])

/-- A new cell around values in hand. -/
theorem new (cell : Cell) : Plants cell.contents (Cell.new cell) fun value => [value] :=
  fun _ tends _ _ kept => tends.allocate kept

/-- Work at each item. -/
theorem mapM {step : α → Alloc β} {gained : β → List Value} (each : ∀ item, Plants [] (step item) gained) (items : List α) :
    Plants [] (items.mapM step) fun results => results.flatMap gained := by
  induction items with
  | nil => exact pure (.refl _)
  | cons item rest ih =>
      rw [List.mapM_cons]
      refine (each item).next fun result => bind ih fun results => pure (.of_perm ?_)
      rw [List.flatMap_cons]
      exact List.perm_append_comm

end Plants

end Alloc

open Alloc

namespace Tree

variable {keeps : Heap → List Value → Prop}

mutual

/-- Building a tree keeps whatever does not hinder it. -/
theorem build_sown (sows : Heap.Sows keeps) : (tree : Tree) → Sown keeps [] tree.build fun value => [value]
  | .null | .bool _ | .int _ | .event _ | .halt | .machine _ => .pure sows (.scalar (by simp) [])
  | .tuple items => (buildItems_sown sows items).next fun _ _ _ kept => sows.new kept (by simp)
  | .seq items => (buildItems_sown sows items).next fun _ _ _ kept => sows.new kept (by simp)
  | .named fields => (buildFields_sown sows fields).next fun _ _ _ kept => sows.new kept (by simp)
  | .map entries => (buildEntries_sown sows entries).next fun _ _ _ kept => sows.newMap kept

theorem buildItems_sown (sows : Heap.Sows keeps) : (items : List Tree) → Sown keeps [] (buildItems items) fun values => values
  | [] => .pure sows (.refl _)
  | item :: rest => (build_sown sows item).next fun value => (buildItems_sown sows rest).bind fun values =>
      .pure sows (.of_perm (List.perm_append_singleton value values).symm)

theorem buildFields_sown (sows : Heap.Sows keeps) : (fields : List (String × Tree)) →
    Sown keeps [] (buildFields fields) fun values => values.map (·.2)
  | [] => .pure sows (.refl _)
  | (_, item) :: rest => (build_sown sows item).next fun value => (buildFields_sown sows rest).bind fun _ =>
      .pure sows (.of_perm (List.perm_append_singleton value _).symm)

theorem buildEntries_sown (sows : Heap.Sows keeps) : (entries : List (Tree × Tree)) →
    Sown keeps [] (buildEntries entries) fun values => values.flatMap fun binding => [binding.1, binding.2]
  | [] => .pure sows (.refl _)
  | (key, item) :: rest => (build_sown sows key).next fun first => (build_sown sows item).bind fun second =>
      (buildEntries_sown sows rest).bind fun values => .pure sows fun address => by
        simp only [List.flatMap_cons, List.count_append, List.count_cons]
        omega

end

theorem build_plants (tree : Tree) : Plants [] tree.build fun value => [value] := fun _ tends => build_sown tends.sows tree

end Tree

namespace Alloc.Plants

theorem deepCopy (value : Value) : Plants [] value.deepCopy fun copy => [copy] :=
  fun _ tends heap rest kept => Tree.build_plants (heap.tree value) tends heap rest kept

theorem initial (ty : Ty) : Plants [] (Value.initial ty) fun value => [value] := Tree.build_plants ty.initial

theorem each {α : Type} {work : α → Alloc Value} (each : ∀ item, Plants [] (work item) fun value => [value]) (items : List α) :
    Plants [] (items.mapM work) fun values => values := by
  have planted := mapM each items
  simpa only [List.flatMap_singleton'] using planted

theorem deepCopies (values : List Value) : Plants [] (deepCopies values) fun values => values := each deepCopy values

theorem frame (frame : Frame) : Plants [] frame.deepCopy Frame.locals := (deepCopies frame.locals).next fun _ => .pure (.refl _)

theorem fork (actor : Actor) : Plants [] actor.fork Actor.roots := by
  refine (deepCopies actor.fields).next fun fields => ?_
  refine (deepCopy actor.trigger).bind fun trigger => ?_
  refine (deepCopy actor.payload).bind fun payload => ?_
  refine (mapM frame actor.stack.reverse).bind fun stack => .pure fun address => ?_
  simp only [Actor.roots, List.count_append, List.count_cons, List.count_nil]
  have same : (stack.reverse.flatMap Frame.locals).count (.cell address) = (stack.flatMap Frame.locals).count (.cell address) := by
    rw [List.count_flatMap, List.count_flatMap, List.map_reverse, List.sum_reverse]
  omega

theorem create (id : MachineId) (machine : MachineTypeId) (decl : MachineDecl) :
    Plants [] (Actor.create id machine decl) Actor.roots := by
  refine (each (fun (field : VarDecl) => initial field.ty) decl.fields).next fun fields => .pure ?_
  intro address
  simp [Actor.roots]

end Alloc.Plants

end Reentry
