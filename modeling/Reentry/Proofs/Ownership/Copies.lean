import Reentry.Actor.Basic
import Reentry.Proofs.Ownership.Region

/-!
Copies are made of new cells. What a deep copy, an initial value or a fork consists of has been allocated
for it, and leads nowhere else.
-/

namespace Reentry

namespace Heap

/-- Binding puts nothing into a map but the key and the value. -/
theorem bind_contents (heap : Heap) (key value : Value) (entries : List Entry) :
    ∀ part ∈ (Cell.map (heap.bind key value entries).1).contents,
      part = key ∨ part = value ∨ part ∈ (Cell.map entries).contents := by
  unfold bind
  intro part member
  cases place : heap.boundIndex? key entries with
  | none =>
      simp only [place, Cell.contents, List.mem_flatMap, List.mem_cons, List.not_mem_nil, or_false] at member ⊢
      obtain ⟨entry, present, same⟩ := member
      rcases List.mem_append.mp present with old | new
      · exact .inr (.inr ⟨entry, old, same⟩)
      · obtain rfl := List.mem_singleton.mp new
        rcases same with rfl | rfl
        · exact .inl rfl
        · exact .inr (.inl rfl)
  | some index =>
      simp only [place, Cell.contents, List.mem_flatMap, List.mem_cons, List.not_mem_nil, or_false] at member ⊢
      obtain ⟨entry, present, same⟩ := member
      obtain ⟨position, found⟩ := List.mem_iff_getElem?.mp present
      simp only [List.getElem?_modify, Option.map_eq_map, Option.map_eq_some_iff] at found
      obtain ⟨old, there, rfl⟩ := found
      have among := List.mem_of_getElem? there
      by_cases replaced : index = position
      · simp only [replaced, if_true] at same
        rcases same with rfl | rfl
        · exact .inr (.inr ⟨old, among, .inl rfl⟩)
        · exact .inr (.inl rfl)
      · simp only [replaced, if_false] at same
        exact .inr (.inr ⟨old, among, same⟩)

/-- Binding puts the value into the map. -/
theorem bind_stores (heap : Heap) (key value : Value) (entries : List Entry) :
    value ∈ (Cell.map (heap.bind key value entries).1).contents := by
  unfold bind
  cases bound : heap.boundIndex? key entries with
  | none => exact List.mem_flatMap.mpr ⟨⟨key, heap.fingerprint key, value⟩, by simp, by simp⟩
  | some index =>
      obtain ⟨inside, _⟩ := List.findIdx?_eq_some_iff_getElem.mp bound
      refine List.mem_flatMap.mpr ⟨{ entries[index] with value }, List.mem_iff_getElem?.mpr ⟨index, ?_⟩, by simp⟩
      simp [inside]

/-- What binding replaces was in the map. -/
theorem bind_old {heap : Heap} {key value old : Value} {entries : List Entry}
    (replaced : (heap.bind key value entries).2 = some old) : old ∈ (Cell.map entries).contents := by
  unfold bind at replaced
  cases place : heap.boundIndex? key entries with
  | none =>
      rw [place] at replaced
      cases replaced
  | some index =>
      rw [place] at replaced
      obtain ⟨entry, found, rfl⟩ := Option.map_eq_some_iff.mp replaced
      simp only [Cell.contents, List.mem_flatMap, List.mem_cons, List.not_mem_nil, or_false]
      exact ⟨entry, List.mem_of_getElem? found, .inr rfl⟩

end Heap

namespace Alloc

variable {α β : Type}

/-- Work that makes the values it gives out of the values held and of new cells. -/
def Makes (origin : Heap) (held : List Value) (work : Alloc α) (values : α → List Value) : Prop :=
  ∀ heap, Heap.Fresh origin heap held → Heap.Fresh origin (work.run heap).2 (values (work.run heap).1)

namespace Makes

variable {origin : Heap} {held : List Value} {values : α → List Value} {more : β → List Value}

theorem pure {result : α} (among : ∀ value ∈ values result, value ∈ held) : Makes origin held (Pure.pure result) values :=
  fun _ fresh => fresh.holding (fresh.owns.subset among)

/-- Null may always be among the values. -/
theorem pureOrNull {result : α} (among : ∀ value ∈ values result, value ∈ held ∨ value = .null) :
    Makes origin held (Pure.pure result) values := by
  intro _ fresh
  refine fresh.holding fun value member => ?_
  rcases among value member with old | rfl
  · exact fresh.owns value old
  · exact Region.owns_null

theorem bind {work : Alloc α} {rest : α → Alloc β} (first : Makes origin held work values)
    (later : ∀ result, Makes origin (values result) (rest result) more) : Makes origin held (work >>= rest) more :=
  fun heap fresh => later (work.run heap).1 (work.run heap).2 (first heap fresh)

theorem scalar {value : Value} (scalar : ∀ address, value ≠ .cell address) :
    Makes origin held (Pure.pure value) fun value => value :: held :=
  fun _ fresh => fresh.holding (by simpa using ⟨Region.owns_scalar scalar, fresh.owns⟩)

/-- A new cell around values that are held. -/
theorem new {cell : Cell} (among : ∀ value ∈ cell.contents, value ∈ held) {others : List Value}
    (others_among : ∀ value ∈ others, value ∈ held) : Makes origin held (Cell.new cell) fun value => value :: others := by
  intro heap fresh
  have made := @Heap.Fresh.allocate _ _ _ fresh cell (fresh.owns.subset among)
  refine made.holding ?_
  have size := fresh.size
  have within : (Region.between origin.size heap.size).Inside (Region.between origin.size (heap.allocate cell).size) :=
    Heap.Fresh.between_inside_left (by rw [Heap.size_allocate]; omega)
  exact Region.ownsAll_cons.mpr ⟨(Region.ownsAll_cons.mp made.owns).1, (fresh.owns.subset others_among).mono within⟩

theorem newMap {bindings : List (Value × Value)} (among : ∀ binding ∈ bindings, binding.1 ∈ held ∧ binding.2 ∈ held)
    {others : List Value} (others_among : ∀ value ∈ others, value ∈ held) :
    Makes origin held (Cell.newMap bindings) fun value => value :: others := by
  intro heap fresh
  have folded (entries : List Entry) (inside : ∀ value ∈ (Cell.map entries).contents, value ∈ held) :
      ∀ value ∈ (Cell.map (bindings.foldl (fun entries binding => (heap.bind binding.1 binding.2 entries).1) entries)).contents,
        value ∈ held := by
    induction bindings generalizing entries with
    | nil => exact inside
    | cons binding rest ih =>
        refine ih (fun other member => among other (by simp [member])) _ fun value member => ?_
        rcases heap.bind_contents binding.1 binding.2 entries value member with rfl | rfl | old
        · exact (among binding (by simp)).1
        · exact (among binding (by simp)).2
        · exact inside value old
  exact new (folded [] (by simp [Cell.contents])) others_among heap fresh

end Makes

end Alloc

open Alloc

namespace Tree

variable {origin : Heap}

mutual

theorem build_makes (held : List Value) : (tree : Tree) → Makes origin held tree.build fun value => value :: held
  | .null | .bool _ | .int _ | .event _ | .halt | .machine _ => .scalar nofun
  | .tuple items | .seq items =>
      (buildItems_makes held items).bind fun values => .new (by simp [Cell.contents]; grind) (by simp; grind)
  | .named fields => (buildFields_makes held fields).bind fun values => .new (by simp [Cell.contents]; grind) (by simp; grind)
  | .map entries => (buildEntries_makes held entries).bind fun values => .newMap (by simp; grind) (by simp; grind)

theorem buildItems_makes (held : List Value) : (items : List Tree) →
    Makes origin held (buildItems items) fun values => values ++ held
  | [] => .pure (by simp)
  | item :: rest => (build_makes held item).bind fun value => (buildItems_makes (value :: held) rest).bind fun values =>
      .pure (by simp; grind)

theorem buildFields_makes (held : List Value) : (fields : List (String × Tree)) →
    Makes origin held (buildFields fields) fun values => values.map (·.2) ++ held
  | [] => .pure (by simp)
  | (name, item) :: rest => (build_makes held item).bind fun value => (buildFields_makes (value :: held) rest).bind fun values =>
      .pure (by simp; grind)

theorem buildEntries_makes (held : List Value) : (entries : List (Tree × Tree)) →
    Makes origin held (buildEntries entries) fun values => values.map (·.1) ++ values.map (·.2) ++ held
  | [] => .pure (by simp)
  | (key, item) :: rest => (build_makes held key).bind fun first => (build_makes (first :: held) item).bind fun second =>
      (buildEntries_makes (second :: first :: held) rest).bind fun values => .pure (by simp; grind)

end

end Tree

/-- Values that an actor holds between two executions. -/
def Actor.roots (actor : Actor) : List Value :=
  actor.fields ++ [actor.trigger, actor.payload] ++ actor.stack.flatMap Frame.locals

namespace Alloc

variable {α β : Type} {origin : Heap}

theorem Makes.deepCopy (held : List Value) (value : Value) : Makes origin held value.deepCopy fun copy => copy :: held :=
  fun heap fresh => Tree.build_makes held (heap.tree value) heap fresh

theorem Makes.initial (held : List Value) (ty : Ty) : Makes origin held (Value.initial ty) fun value => value :: held :=
  Tree.build_makes held ty.initial

theorem Makes.mapM {work : α → Alloc β} {values : β → List Value}
    (each : ∀ held item, Makes origin held (work item) fun result => values result ++ held) (held : List Value)
    (items : List α) : Makes origin held (items.mapM work) fun results => results.flatMap values ++ held := by
  induction items generalizing held with
  | nil => exact .pure (by simp)
  | cons item rest ih =>
      rw [List.mapM_cons]
      exact (each held item).bind fun result => (ih (values result ++ held)).bind fun results => .pure (by simp; grind)

/-- Work at each item that makes one value of it. -/
theorem Makes.each {work : α → Alloc Value} (each : ∀ held item, Makes origin held (work item) fun value => value :: held)
    (held : List Value) (items : List α) : Makes origin held (items.mapM work) fun values => values ++ held := by
  have made := @mapM _ _ _ _ (fun value => [value]) each held items
  simpa only [List.flatMap_singleton'] using made

theorem Makes.deepCopies (held : List Value) (values : List Value) :
    Makes origin held (deepCopies values) fun copies => copies ++ held :=
  Makes.each (fun held value => deepCopy held value) held values

theorem Makes.frame (held : List Value) (frame : Frame) :
    Makes origin held frame.deepCopy fun copy => copy.locals ++ held :=
  (deepCopies held frame.locals).bind fun _ => .pure fun _ member => member

theorem Makes.fork (actor : Actor) : Makes origin [] actor.fork Actor.roots := by
  apply (deepCopies [] actor.fields).bind
  intro fields
  apply (deepCopy _ actor.trigger).bind
  intro trigger
  apply (deepCopy _ actor.payload).bind
  intro payload
  apply (mapM frame _ actor.stack.reverse).bind
  intro stack
  apply pure
  simp only [Actor.roots, List.mem_append, List.mem_cons, List.mem_flatMap, List.mem_reverse, List.not_mem_nil, or_false]
  grind

theorem Makes.create (id : MachineId) (machine : MachineTypeId) (decl : MachineDecl) :
    Makes origin [] (Actor.create id machine decl) Actor.roots := by
  have fields := @Makes.each _ origin _ (fun held (field : VarDecl) => initial held field.ty) [] decl.fields
  refine fields.bind fun fields => .pureOrNull ?_
  simp only [Actor.roots, List.append_nil, List.mem_append, List.mem_cons, List.not_mem_nil, List.flatMap_nil, or_false]
  grind

/-- What is made of nothing is new. -/
theorem Makes.fresh {work : Alloc α} {values : α → List Value} {heap : Heap} (makes : Makes heap [] work values) :
    Heap.Fresh heap (work.run heap).2 (values (work.run heap).1) := makes heap (.refl heap)

end Alloc

end Reentry
