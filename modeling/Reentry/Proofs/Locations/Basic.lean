import Mathlib.Data.List.Basic
import Reentry.Proofs.Ownership.Copies
import Reentry.Proofs.Execution.Monad
import Reentry.Proofs.Execution.Reads

/-!
Locations: what a call can name and overwrite. A location is a variable, or a part of a cell, which stays what it
is whatever the variables and the other cells come to hold. A storage keeps what it has but for some locations if
nothing else has changed; cells may have been added.
-/

namespace Reentry

namespace Cell

/-- The values in a cell that can be overwritten, of a map those that its keys are bound to. -/
def parts : Cell → List Value
  | .tuple items | .seq items => items
  | .named fields => fields.map (·.2)
  | .map entries => entries.map (·.value)

def setPart (index : Nat) (value : Value) : Cell → Cell
  | .tuple items => .tuple (items.set index value)
  | .seq items => .seq (items.set index value)
  | .named fields => .named (fields.modify index fun field => (field.1, value))
  | .map entries => .map (entries.modify index ({ · with value }))

/-- The cell without what is in its parts. -/
def husk : Cell → Cell
  | .tuple items => .tuple (items.map fun _ => .null)
  | .seq items => .seq (items.map fun _ => .null)
  | .named fields => .named (fields.map fun field => (field.1, .null))
  | .map entries => .map (entries.map ({ · with value := .null }))

/-- Whether it is a tuple, named or not. -/
def isTuple : Cell → Bool
  | .tuple _ | .named _ => true
  | _ => false

variable {cell other : Cell}

theorem husk_setPart (cell : Cell) (index : Nat) (value : Value) : (cell.setPart index value).husk = cell.husk := by
  cases cell with
  | tuple items | seq items =>
      simp only [setPart, husk, List.map_set]
      congr 1
      exact List.ext_getElem? fun position => by grind
  | named fields =>
      simp only [setPart, husk]
      congr 1
      exact List.ext_getElem? fun position => by grind
  | map entries =>
      simp only [setPart, husk]
      congr 1
      exact List.ext_getElem? fun position => by grind

theorem parts_setPart (cell : Cell) (index : Nat) (value : Value) : (cell.setPart index value).parts = cell.parts.set index value := by
  cases cell with
  | tuple items | seq items => rfl
  | named fields =>
      simp only [setPart, parts]
      exact List.ext_getElem? fun position => by grind
  | map entries =>
      simp only [setPart, parts]
      exact List.ext_getElem? fun position => by grind

theorem parts_inside (cell : Cell) : ∀ value ∈ cell.parts, value ∈ cell.contents := by
  cases cell with
  | tuple items | seq items | named fields => exact fun _ => id
  | map entries =>
      simp only [parts, contents, List.mem_map, List.mem_flatMap]
      rintro _ ⟨entry, member, rfl⟩
      exact ⟨entry, member, by simp⟩

/-- Lists are equal if two views of them are equal that together tell the items apart. -/
theorem eq_of_views {α β γ : Type} {view : α → β} {view' : α → γ} {items others : List α}
    (tell : ∀ item other, view item = view other → view' item = view' other → item = other)
    (left : items.map view = others.map view) (right : items.map view' = others.map view') : items = others := by
  have injective : Function.Injective fun item => (view item, view' item) :=
    fun item other same => tell item other (Prod.mk.inj same).1 (Prod.mk.inj same).2
  refine List.map_injective_iff.mpr injective ?_
  rw [← List.zip_map', ← List.zip_map', left, right]

/-- A cell is its husk with what is in its parts. -/
theorem eq_of_parts (husks : cell.husk = other.husk) (parts : cell.parts = other.parts) : cell = other := by
  cases cell <;> cases other <;> simp only [husk, Cell.parts, reduceCtorEq, Cell.tuple.injEq, Cell.seq.injEq, Cell.named.injEq,
    Cell.map.injEq] at husks parts ⊢
  · exact parts
  · exact eq_of_views (fun left right first second => Prod.ext (Prod.mk.inj first).1 second) husks parts
  · exact parts
  · refine eq_of_views (fun left right first second => ?_) husks parts
    cases left
    cases right
    simp_all

theorem husk_isTuple (cell : Cell) : cell.husk.isTuple = cell.isTuple := by
  cases cell <;> rfl

theorem isTuple_of_husk (husks : cell.husk = other.husk) : cell.isTuple = other.isTuple := by
  rw [← husk_isTuple, husks, husk_isTuple]

theorem length_of_husk (husks : cell.husk = other.husk) : cell.parts.length = other.parts.length := by
  cases cell <;> cases other <;> simp only [husk, Cell.tuple.injEq, Cell.seq.injEq, Cell.named.injEq, Cell.map.injEq, reduceCtorEq] at husks
  all_goals
    have lengths := congrArg List.length husks
    simpa [parts] using lengths

end Cell

inductive Location where
  | slot (index : Nat)
  | field (index : Nat)
  | trigger
  | payload
  | part (cell : Address) (index : Nat)
deriving DecidableEq

/-- All that the places of a call can lead to: its locals, and the state that it works on. -/
structure Storage (σ : Type) where
  locals : List Value
  state : Running σ

/-- The actor without what is in its variables. -/
def Actor.bare (actor : Actor) : Actor := { actor with fields := [], trigger := .null, payload := .null }

namespace Storage

variable {σ : Type}

/-- The value at a location, if there is such a location. -/
def read? (storage : Storage σ) : Location → Option Value
  | .slot index => storage.locals[index]?
  | .field index => storage.state.actor.fields[index]?
  | .trigger => some storage.state.actor.trigger
  | .payload => some storage.state.actor.payload
  | .part cell index => (storage.state.heap.read cell).parts[index]?

def write (storage : Storage σ) (location : Location) (value : Value) : Storage σ :=
  let state := storage.state
  match location with
  | .slot index => { storage with locals := storage.locals.set index value }
  | .field index => { storage with state := { state with actor := { state.actor with fields := state.actor.fields.set index value } } }
  | .trigger => { storage with state := { state with actor := { state.actor with trigger := value } } }
  | .payload => { storage with state := { state with actor := { state.actor with payload := value } } }
  | .part cell index => { storage with state := { state with heap := state.heap.write cell ((state.heap.read cell).setPart index value) } }

/-- Nothing has changed but what is at some of the locations; there may be new cells. -/
structure Keeps (spots : Location → Prop) (before after : Storage σ) : Prop where
  slots : after.locals.length = before.locals.length
  fields : after.state.actor.fields.length = before.state.actor.fields.length
  actor : after.state.actor.bare = before.state.actor.bare
  outside : after.state.outside = before.state.outside
  depth : after.state.depth = before.state.depth
  size : before.state.heap.size ≤ after.state.heap.size
  husks : ∀ address, address.index < before.state.heap.size →
    (after.state.heap.read address).husk = (before.state.heap.read address).husk
  contents : ∀ location value, before.read? location = some value → ¬spots location → after.read? location = some value

/-- Nothing has changed, but there may be new cells. -/
abbrev Stays (before after : Storage σ) : Prop := Keeps (fun _ => False) before after

variable {spots more : Location → Prop} {storage before between after : Storage σ} {location : Location} {value : Value}

/-- Only allocated cells have parts. -/
theorem allocated_of_read? {cell : Address} {index : Nat} (found : storage.read? (.part cell index) = some value) :
    cell.index < storage.state.heap.size := by
  refine Nat.lt_of_not_le fun outside => ?_
  rw [read?, Heap.read_of_size_le outside] at found
  cases found

namespace Keeps

theorem refl (spots : Location → Prop) (storage : Storage σ) : Keeps spots storage storage :=
  ⟨rfl, rfl, rfl, rfl, rfl, Nat.le_refl _, fun _ _ => rfl, fun _ _ found _ => found⟩

theorem mono (keeps : Keeps spots before after) (within : ∀ location, spots location → more location) : Keeps more before after :=
  { keeps with contents := fun location value found clear => keeps.contents location value found fun inside => clear (within location inside) }

theorem trans (first : Keeps spots before between) (second : Keeps spots between after) : Keeps spots before after where
  slots := second.slots.trans first.slots
  fields := second.fields.trans first.fields
  actor := second.actor.trans first.actor
  outside := second.outside.trans first.outside
  depth := second.depth.trans first.depth
  size := Nat.le_trans first.size second.size
  husks address old := (second.husks address (Nat.lt_of_lt_of_le old first.size)).trans (first.husks address old)
  contents location value found clear := second.contents location value (first.contents location value found clear) clear

theorem stays (keeps : Stays before after) : Keeps spots before after := keeps.mono fun _ => False.elim

/-- What is at other locations is read as before, whether there is anything or not. -/
theorem read? (keeps : Keeps spots before after) (clear : ¬spots location)
    (old : ∀ cell index, location = .part cell index → cell.index < before.state.heap.size) :
    after.read? location = before.read? location := by
  cases found : before.read? location with
  | some value => exact keeps.contents location value found clear
  | none =>
      cases location with
      | slot index =>
          simp only [Storage.read?, List.getElem?_eq_none_iff, keeps.slots] at found ⊢
          exact found
      | field index =>
          simp only [Storage.read?, List.getElem?_eq_none_iff, keeps.fields] at found ⊢
          exact found
      | trigger | payload => cases found
      | part cell index =>
          have lengths := Cell.length_of_husk (keeps.husks cell (old cell index rfl))
          simp only [Storage.read?, List.getElem?_eq_none_iff, lengths] at found ⊢
          exact found

/-- What is found at another location now was there before, if there was anything. -/
theorem was {old : Value} (keeps : Keeps spots before after) (clear : ¬spots location) (there : before.read? location = some old)
    (found : after.read? location = some value) : before.read? location = some value := by
  rw [there, ← keeps.contents location old there clear, found]

/-- There is something at every location at which there was something. -/
theorem exists_read? (keeps : Keeps spots before after) (found : before.read? location = some value) :
    ∃ now, after.read? location = some now := by
  cases location with
  | slot index =>
      simp only [Storage.read?, List.getElem?_eq_some_iff, keeps.slots] at found ⊢
      exact ⟨_, found.1, rfl⟩
  | field index =>
      simp only [Storage.read?, List.getElem?_eq_some_iff, keeps.fields] at found ⊢
      exact ⟨_, found.1, rfl⟩
  | trigger | payload => exact ⟨_, rfl⟩
  | part cell index =>
      have lengths := Cell.length_of_husk (keeps.husks cell (allocated_of_read? found))
      simp only [Storage.read?, List.getElem?_eq_some_iff, lengths] at found ⊢
      exact ⟨_, found.1, rfl⟩

/-- Where there are only new cells besides, the old ones are as they were. -/
theorem cell (keeps : Stays before after) {address : Address} (old : address.index < before.state.heap.size) :
    after.state.heap.read address = before.state.heap.read address := by
  refine Cell.eq_of_parts (keeps.husks address old) (List.ext_getElem? fun index => ?_)
  have read : after.read? (.part address index) = before.read? (.part address index) :=
    keeps.read? id fun cell _ same => by cases same; exact old
  exact read

/-- New cells change nothing. -/
theorem ofHeap {heap : Heap} (size : storage.state.heap.size ≤ heap.size)
    (same : ∀ address, address.index < storage.state.heap.size → heap.read address = storage.state.heap.read address) :
    Stays storage ⟨storage.locals, { storage.state with heap }⟩ where
  slots := rfl
  fields := rfl
  actor := rfl
  outside := rfl
  depth := rfl
  size := size
  husks address old := congrArg Cell.husk (same address old)
  contents location value found _ := by
    cases location with
    | slot _ | field _ | trigger | payload => exact found
    | part cell index =>
        change (heap.read cell).parts[index]? = _
        rw [same cell (allocated_of_read? found)]
        exact found

end Keeps

/-- Writing to a location at which there is something puts the value there and changes nothing else. -/
theorem write_keeps (found : storage.read? location = some value) (new : Value) :
    Keeps (· = location) storage (storage.write location new) ∧ (storage.write location new).read? location = some new := by
  cases location with
  | slot index =>
      obtain ⟨bound, _⟩ := List.getElem?_eq_some_iff.mp found
      refine ⟨⟨List.length_set, rfl, rfl, rfl, rfl, Nat.le_refl _, fun _ _ => rfl, fun other old there clear => ?_⟩, ?_⟩
      · cases other with
        | slot position =>
            have different : index ≠ position := fun same => clear (same ▸ rfl)
            simpa [read?, write, List.getElem?_set_ne different] using there
        | field _ | trigger | payload | part _ _ => exact there
      · simp [read?, write, bound]
  | field index =>
      obtain ⟨bound, _⟩ := List.getElem?_eq_some_iff.mp found
      refine ⟨⟨rfl, List.length_set, rfl, rfl, rfl, Nat.le_refl _, fun _ _ => rfl, fun other old there clear => ?_⟩, ?_⟩
      · cases other with
        | field position =>
            have different : index ≠ position := fun same => clear (same ▸ rfl)
            simpa [read?, write, List.getElem?_set_ne different] using there
        | slot _ | trigger | payload | part _ _ => exact there
      · simp [read?, write, bound]
  | trigger =>
      refine ⟨⟨rfl, rfl, rfl, rfl, rfl, Nat.le_refl _, fun _ _ => rfl, fun other old there clear => ?_⟩, rfl⟩
      cases other with
      | trigger => exact absurd rfl clear
      | slot _ | field _ | payload | part _ _ => exact there
  | payload =>
      refine ⟨⟨rfl, rfl, rfl, rfl, rfl, Nat.le_refl _, fun _ _ => rfl, fun other old there clear => ?_⟩, rfl⟩
      cases other with
      | payload => exact absurd rfl clear
      | slot _ | field _ | trigger | part _ _ => exact there
  | part cell index =>
      have allocated := allocated_of_read? found
      have own : ((storage.write (.part cell index) new).state.heap.read cell)
          = (storage.state.heap.read cell).setPart index new := Heap.read_write_self allocated _
      have elsewhere (address : Address) (different : address ≠ cell) :
          (storage.write (.part cell index) new).state.heap.read address = storage.state.heap.read address :=
        Heap.read_write_of_ne _ different _
      refine ⟨⟨rfl, rfl, rfl, rfl, rfl, Nat.le_of_eq (Heap.size_write _ _ _).symm, fun address _ => ?_,
        fun other old there clear => ?_⟩, ?_⟩
      · by_cases same : address = cell
        · subst same
          rw [own, Cell.husk_setPart]
        · rw [elsewhere address same]
      · cases other with
        | slot _ | field _ | trigger | payload => exact there
        | part address position =>
            by_cases same : address = cell
            · subst same
              have different : index ≠ position := fun same => clear (same ▸ rfl)
              change (Heap.read _ _).parts[position]? = _
              rw [own, Cell.parts_setPart, List.getElem?_set_ne different]
              exact there
            · change (Heap.read _ _).parts[position]? = _
              rw [elsewhere address same]
              exact there
      · obtain ⟨bound, _⟩ := List.getElem?_eq_some_iff.mp found
        change (Heap.read _ _).parts[index]? = _
        rw [own, Cell.parts_setPart, List.getElem?_set_self bound]

end Storage

end Reentry
