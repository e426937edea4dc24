import Reentry.Proofs.Locations.Basic
import Reentry.Proofs.Ownership.Separate

/-!
Places and the locations that they denote. A place denotes a location for as long as certain spots may change if each
index or key on the way to it selects the same part whatever is at these spots, and evaluating it does nothing else.
As long as only those spots change, and none of them holds a value in which the location lies, the place may be
evaluated over and over again: what is read and overwritten is always what is at the location.
-/

namespace Reentry

namespace Cell

def kind? : Cell → Option ContainerKind
  | .seq _ => some .seq
  | .map _ => some .map
  | _ => none

end Cell

namespace Heap

/-- The key selects the part with that number of the container at the address, for reading and for overwriting: where
it is looked up and where a copy of it is bound. -/
inductive Selects (heap : Heap) (address : Address) : ContainerKind → Value → Nat → Prop
  | item {items : List Value} {number : Int64} (seq : heap.read address = .seq items)
      (inside : 0 ≤ number ∧ number.toInt.toNat < items.length) : Selects heap address .seq (.int number) number.toInt.toNat
  | entry {entries : List Entry} {key : Value} {index : Nat} (map : heap.read address = .map entries)
      (found : heap.entryIndex? key entries = some index) (free : heap.reaches key address = false)
      (bound : (key.deepCopy.run heap).2.boundIndex? (key.deepCopy.run heap).1 entries = some index) :
      Selects heap address .map key index

variable {heap : Heap} {address : Address} {container : ContainerKind} {key value : Value} {index : Nat}

theorem seqIndex_run {number : Int64} {length : Nat} (inside : 0 ≤ number ∧ number.toInt.toNat < length) (heap : Heap) :
    ((Value.int number).seqIndex length false).run heap = .ok (number.toInt.toNat, heap) := by
  have bound : 0 ≤ number ∧ number.toInt.toNat < (if false = true then length + 1 else length) := inside
  simp only [Value.seqIndex, Value.asInt, pure_bind]
  rw [if_pos bound]
  rfl

theorem Selects.kind (selects : heap.Selects address container key index) : (heap.read address).kind? = some container := by
  cases selects with
  | item seq _ => rw [seq]; rfl
  | entry map _ _ _ => rw [map]; rfl

theorem Selects.lookup (selects : heap.Selects address container key index)
    (found : (heap.read address).parts[index]? = some value) : ((Value.cell address).lookup key).run heap = .ok (value, heap) := by
  cases selects with
  | item seq inside =>
      rw [seq, Cell.parts] at found
      simp only [Value.lookup, StateT.run_bind, StateT.run_get, pure_bind, Heap.cell?, seq]
      rw [seqIndex_run inside]
      change Except.ok ((_ : Option Value).getD .null, heap) = _
      rw [found]
      rfl
  | entry map there free bound =>
      rw [map, Cell.parts, List.getElem?_map] at found
      obtain ⟨entry, present, rfl⟩ := Option.map_eq_some_iff.mp found
      simp only [Value.lookup, StateT.run_bind, StateT.run_get, pure_bind, Heap.cell?, map, there, Option.bind_some, present]
      rfl

theorem bindCopy_run (map : Address) (key value : Value) (entries : List Entry) (heap : Heap) :
    (Value.bindCopy map key value entries).run heap =
      let copied := key.deepCopy.run heap
      let bound := copied.2.bind copied.1 value entries
      .ok (bound.2.getD .null, copied.2.write map (.map bound.1)) := rfl

/-- Overwriting the selected part may leave a copy of the key besides. -/
theorem Selects.replace (selects : heap.Selects address container key index) (found : (heap.read address).parts[index]? = some value)
    (new : Value) : ∃ copied, heap.Fresh copied [] ∧ ((Value.cell address).replace key new).run heap
      = .ok (value, copied.write address ((heap.read address).setPart index new)) := by
  cases selects with
  | item seq inside =>
      rw [seq, Cell.parts] at found
      refine ⟨heap, .refl heap, ?_⟩
      simp only [Value.replace, StateT.run_bind, StateT.run_get, pure_bind, Heap.cell?, seq]
      rw [seqIndex_run inside]
      change Except.ok ((_ : Option Value).getD .null, _) = _
      rw [found]
      rfl
  | @entry entries key index map there free bound =>
      rw [map, Cell.parts, List.getElem?_map] at found
      obtain ⟨entry, present, rfl⟩ := Option.map_eq_some_iff.mp found
      refine ⟨(key.deepCopy.run heap).2, (Alloc.Makes.deepCopy [] key).fresh.holding (by simp), ?_⟩
      have binds : (key.deepCopy.run heap).2.bind (key.deepCopy.run heap).1 new entries
          = ((entries.modify index ({ · with value := new })), some entry.value) := by
        simp only [Heap.bind, bound, present]
        rfl
      have run := bindCopy_run address key new entries heap
      simp only [binds] at run
      simp only [Value.replace, Value.checkKey, StateT.run_bind, StateT.run_get, pure_bind, Heap.cell?, map, free]
      exact run

theorem field_run (tuple : (heap.read address).isTuple) (found : (heap.read address).parts[index]? = some value) :
    ((Value.cell address).field index).run heap = .ok (value, heap) := by
  cases cell : heap.read address with
  | tuple items =>
      rw [cell, Cell.parts] at found
      simp only [Value.field, StateT.run_bind, StateT.run_get, pure_bind, Heap.cell?, cell, found]
      rfl
  | named fields =>
      rw [cell, Cell.parts, List.getElem?_map] at found
      obtain ⟨field, present, rfl⟩ := Option.map_eq_some_iff.mp found
      simp only [Value.field, StateT.run_bind, StateT.run_get, pure_bind, Heap.cell?, cell, present]
      rfl
  | seq _ | map _ =>
      rw [cell] at tuple
      cases tuple

theorem replaceField_run (tuple : (heap.read address).isTuple) (found : (heap.read address).parts[index]? = some value) (new : Value) :
    ((Value.cell address).replaceField index new).run heap
      = .ok (value, heap.write address ((heap.read address).setPart index new)) := by
  cases cell : heap.read address with
  | tuple items =>
      rw [cell, Cell.parts] at found
      simp only [Value.replaceField, StateT.run_bind, StateT.run_get, pure_bind, Heap.cell?, cell, found]
      rfl
  | named fields =>
      rw [cell, Cell.parts, List.getElem?_map] at found
      obtain ⟨field, present, rfl⟩ := Option.map_eq_some_iff.mp found
      simp only [Value.replaceField, StateT.run_bind, StateT.run_get, pure_bind, Heap.cell?, cell, present]
      rfl
  | seq _ | map _ =>
      rw [cell] at tuple
      cases tuple

/-- What a part leads to can be reached through its cell. -/
theorem Leads.step {part : Value} {goal : Address} (leads : heap.Leads value address) (member : part ∈ (heap.read address).contents)
    (further : heap.Leads part goal) : heap.Leads value goal := by
  induction leads with
  | here => exact .inside member further
  | inside among _ ih => exact .inside among (ih member)

end Heap

/-- The call with other locals. -/
def Activation.on (act : Activation) (locals : List Value) : Activation := { act with locals }

namespace Storage

variable {σ : Type}

/-- The location lies in the value. -/
def Inside (storage : Storage σ) (location : Location) (value : Value) : Prop :=
  ∃ cell index, location = .part cell index ∧ storage.state.heap.Leads value cell

/-- The location lies in no value that is at one of the spots. -/
def Clear (storage : Storage σ) (spots : Location → Prop) (location : Location) : Prop :=
  ∀ spot value, spots spot → storage.read? spot = some value → ¬storage.Inside location value

variable {storage : Storage σ} {spots : Location → Prop} {here : Location} {cell : Address} {index : Nat}

/-- If a location in a cell is clear of the spots, then so is the location at which the cell is, and it is no spot itself. -/
theorem Clear.base (clear : storage.Clear spots (.part cell index)) (holds : storage.read? here = some (.cell cell)) :
    ¬spots here ∧ storage.Clear spots here := by
  refine ⟨fun inside => clear here _ inside holds ⟨cell, index, rfl, .here⟩, ?_⟩
  rintro spot value inside found ⟨outer, position, rfl, leads⟩
  have member := Cell.parts_inside _ _ (List.mem_of_getElem? holds)
  exact clear spot value inside found ⟨cell, index, rfl, leads.step member .here⟩

end Storage

namespace Env

open Storage Exec

variable {σ : Type} (env : Env σ) (act : Activation)

/-- As long as only the spots change, the operand evaluates to a good value and nothing else happens. -/
def Steady (spots : Location → Prop) (storage : Storage σ) (operand : Operand) (good : Heap → Value → Prop) : Prop :=
  ∀ later, storage.Keeps spots later → ∃ value after, env.eval (act.on later.locals) operand later.state = .ok value after ∧
    later.Stays ⟨later.locals, after⟩ ∧ good after.heap value

/-- The place denotes the location, also after the spots have changed. -/
inductive Denotes (spots : Location → Prop) (storage : Storage σ) : Place → Location → Prop
  | slot {index : Nat} (inside : index < storage.locals.length) : Denotes spots storage (.slot index) (.slot index)
  | field {index : Nat} (inside : index < storage.state.actor.fields.length) : Denotes spots storage (.field index) (.field index)
  | trigger : Denotes spots storage .trigger .trigger
  | payload : Denotes spots storage .payload .payload
  | part {base : Place} {here : Location} {cell : Address} {index : Nat} {value : Value} (denotes : Denotes spots storage base here)
      (holds : storage.read? here = some (.cell cell)) (tuple : (storage.state.heap.read cell).isTuple)
      (found : storage.read? (.part cell index) = some value) : Denotes spots storage (.part base index) (.part cell index)
  | element {base : Place} {key : Operand} {container : ContainerKind} {here : Location} {cell : Address} {index : Nat}
      (denotes : Denotes spots storage base here) (holds : storage.read? here = some (.cell cell))
      (steady : env.Steady act spots storage key fun heap value => heap.Selects cell container value index) {value : Value}
      (found : storage.read? (.part cell index) = some value) : Denotes spots storage (.element base key container) (.part cell index)

variable {env act} {spots more : Location → Prop} {storage later : Storage σ} {place : Place} {here : Location} {operand : Operand}
  {good : Heap → Value → Prop}

theorem expectKind_apply {container : ContainerKind} {cell : Address} {state : Running σ}
    (kind : (state.heap.read cell).kind? = some container) : expectKind container (.cell cell) state = .ok () state := by
  unfold expectKind
  rw [ofValueOp_apply]
  cases container <;> cases found : state.heap.read cell <;>
    first
    | (rw [found] at kind; cases kind; done)
    | simp only [StateT.run_bind, StateT.run_get, pure_bind, Heap.cell?, found]; rfl

/-- The container of an element is of its kind. -/
theorem Steady.kind {container : ContainerKind} {cell : Address} {index : Nat}
    (steady : env.Steady act spots storage operand fun heap value => heap.Selects cell container value index)
    (keeps : storage.Keeps spots later) (old : cell.index < later.state.heap.size) :
    (later.state.heap.read cell).kind? = some container := by
  obtain ⟨value, after, _, stays, selects⟩ := steady later keeps
  rw [← selects.kind, stays.cell old]

/-- There is something at a location that is denoted. -/
theorem Denotes.found (denotes : env.Denotes act spots storage place here) : ∃ value, storage.read? here = some value := by
  cases denotes with
  | slot inside | field inside => exact ⟨_, List.getElem?_eq_getElem inside⟩
  | trigger | payload => exact ⟨_, rfl⟩
  | part _ _ _ found | element _ _ _ found => exact ⟨_, found⟩

section

variable {value : Value}

/-- What a part of a value holds can be read from its cell. -/
theorem field_apply (later : Storage σ) {cell : Address} {index : Nat} (tuple : (later.state.heap.read cell).isTuple)
    (found : later.read? (.part cell index) = some value) :
    Exec.ofValueOp ((Value.cell cell).field index) later.state = .ok value later.state := by
  rw [ofValueOp_apply, Heap.field_run tuple found]

theorem lookup_apply (later : Storage σ) {cell : Address} {index : Nat} {container : ContainerKind} {key : Value}
    (selects : later.state.heap.Selects cell container key index) (found : later.read? (.part cell index) = some value) :
    Exec.ofValueOp ((Value.cell cell).lookup key) later.state = .ok value later.state := by
  rw [ofValueOp_apply, selects.lookup found]

/-- Overwriting a field of a tuple is writing to its location. -/
theorem replaceField_apply (later : Storage σ) {cell : Address} {index : Nat} (tuple : (later.state.heap.read cell).isTuple)
    (found : later.read? (.part cell index) = some value) (new : Value) :
    Exec.ofValueOp ((Value.cell cell).replaceField index new) later.state
      = .ok value (later.write (.part cell index) new).state := by
  rw [ofValueOp_apply, Heap.replaceField_run tuple found]
  rfl

/-- Only the state that the work leaves is of interest. -/
theorem ofValueOp_dropped {α : Type} {work : ValueOp α} {state after : Running σ} {result : α}
    (done : Exec.ofValueOp work state = .ok result after) :
    Exec.ofValueOp (do let _ ← work; pure ()) state = .ok () after := by
  rw [ofValueOp_apply] at done ⊢
  rw [StateT.run_bind]
  cases run : work.run state.heap with
  | error cause =>
      rw [run] at done
      cases done
  | ok pair =>
      rw [run] at done
      obtain ⟨_, rfl⟩ := EStateM.Result.ok.inj done
      rfl

/-- So is overwriting an element, which may leave a copy of the key besides. -/
theorem replace_apply (later : Storage σ) {cell : Address} {index : Nat} {container : ContainerKind} {key : Value}
    (selects : later.state.heap.Selects cell container key index) (found : later.read? (.part cell index) = some value) (new : Value) :
    ∃ middle, later.Stays middle ∧ Exec.ofValueOp ((Value.cell cell).replace key new) later.state
      = .ok value (middle.write (.part cell index) new).state ∧ middle.locals = later.locals := by
  obtain ⟨copied, fresh, run⟩ := selects.replace found new
  refine ⟨⟨later.locals, { later.state with heap := copied }⟩, .ofHeap fresh.size fresh.same, ?_, rfl⟩
  rw [ofValueOp_apply, run]
  have same : copied.read cell = later.state.heap.read cell := fresh.same cell (allocated_of_read? found)
  simp only [Storage.write, same]

end

/-- As long as only the spots change, a place gives what is at its location, and nothing else happens. -/
theorem Denotes.load (denotes : env.Denotes act spots storage place here) (clear : storage.Clear spots here)
    (keeps : storage.Keeps spots later) : ∃ value after, env.load (act.on later.locals) place later.state = .ok value after ∧
      later.Stays ⟨later.locals, after⟩ ∧ later.read? here = some value := by
  induction denotes generalizing later with
  | slot inside =>
      rw [← keeps.slots] at inside
      refine ⟨_, later.state, ?_, .refl _ _, List.getElem?_eq_getElem inside⟩
      simp only [Env.load, Activation.on, List.getElem?_eq_getElem inside]
      rfl
  | @field index inside =>
      rw [← keeps.fields] at inside
      refine ⟨_, later.state, ?_, .refl _ _, List.getElem?_eq_getElem inside⟩
      have known : Exec.actor later.state = .ok later.state.actor later.state := rfl
      simp only [Env.load]
      rw [bind_of_ok known, List.getElem?_eq_getElem inside]
      rfl
  | trigger | payload => exact ⟨_, later.state, rfl, .refl _ _, rfl⟩
  | @part base outer cell index value _ holds tuple found ih =>
      obtain ⟨free, clear'⟩ := clear.base holds
      obtain ⟨value, after, loaded, stays, there⟩ := ih clear' keeps
      obtain rfl : Value.cell cell = value := by simpa [keeps.contents _ _ holds free] using there
      obtain ⟨part, now⟩ := keeps.exists_read? found
      have old := allocated_of_read? now
      refine ⟨part, after, ?_, stays, now⟩
      simp only [Env.load]
      rw [bind_of_ok loaded]
      refine field_apply ⟨later.locals, after⟩ ?_ (stays.contents _ _ now id)
      rw [stays.cell old, Cell.isTuple_of_husk (keeps.husks cell (allocated_of_read? found))]
      exact tuple
  | @element base key container outer cell index _ holds steady value found ih =>
      obtain ⟨free, clear'⟩ := clear.base holds
      obtain ⟨value, after, loaded, stays, there⟩ := ih clear' keeps
      obtain rfl : Value.cell cell = value := by simpa [keeps.contents _ _ holds free] using there
      obtain ⟨part, now⟩ := keeps.exists_read? found
      have reached : storage.Keeps spots ⟨later.locals, after⟩ := keeps.trans stays.stays
      obtain ⟨selected, after', evaluated, stays', selects⟩ := steady _ reached
      have evaluated : env.eval (act.on later.locals) key after = .ok selected after' := evaluated
      have both := stays.trans stays'
      refine ⟨part, after', ?_, both, now⟩
      simp only [Env.load]
      rw [bind_of_ok loaded, bind_of_ok (expectKind_apply (steady.kind reached (allocated_of_read? (stays.contents _ _ now id)))),
        bind_of_ok evaluated]
      exact lookup_apply ⟨later.locals, after'⟩ selects (both.contents _ _ now id)

/-- As long as only the spots change, storing to a place overwrites what is at its location, and nothing else happens. -/
theorem Denotes.store (denotes : env.Denotes act spots storage place here) (clear : storage.Clear spots here)
    (keeps : storage.Keeps spots later) (new : Value) :
    ∃ after, env.store (act.on later.locals) place new later.state = .ok (act.on after.locals) after.state ∧
      later.Keeps (· = here) after ∧ after.read? here = some new := by
  obtain ⟨now, there⟩ := keeps.exists_read? denotes.found.choose_spec
  cases denotes with
  | @slot index inside =>
      have written := write_keeps there new
      rw [← keeps.slots] at inside
      refine ⟨_, ?_, written⟩
      have bound : index < (act.on later.locals).locals.length := inside
      simp only [Env.store, if_pos bound]
      rfl
  | @field index inside =>
      have written := write_keeps there new
      rw [← keeps.fields] at inside
      refine ⟨_, ?_, written⟩
      have known : Exec.actor later.state = .ok later.state.actor later.state := rfl
      simp only [Env.store]
      rw [bind_of_ok known, if_pos inside]
      rfl
  | trigger | payload => exact ⟨_, rfl, write_keeps there new⟩
  | @part base outer cell index value denotes holds tuple found =>
      obtain ⟨free, clear'⟩ := clear.base holds
      obtain ⟨value, after, loaded, stays, held⟩ := denotes.load clear' keeps
      obtain rfl : Value.cell cell = value := by simpa [keeps.contents _ _ holds free] using held
      have there' := stays.contents _ _ there id
      obtain ⟨kept, final⟩ := write_keeps there' new
      refine ⟨_, ?_, stays.stays.trans kept, final⟩
      simp only [Env.store]
      rw [bind_of_ok loaded]
      have tuple' : (after.heap.read cell).isTuple := by
        rw [stays.cell (allocated_of_read? there), Cell.isTuple_of_husk (keeps.husks cell (allocated_of_read? found))]
        exact tuple
      have updated : Exec.ofValueOp ((Value.cell cell).updateField index new) after = .ok () _ :=
        ofValueOp_dropped (replaceField_apply ⟨later.locals, after⟩ tuple' there' new)
      rw [bind_of_ok updated]
      rfl
  | @element base key container outer cell index denotes holds steady value found =>
      obtain ⟨free, clear'⟩ := clear.base holds
      obtain ⟨value, after, loaded, stays, held⟩ := denotes.load clear' keeps
      obtain rfl : Value.cell cell = value := by simpa [keeps.contents _ _ holds free] using held
      have reached : storage.Keeps spots ⟨later.locals, after⟩ := keeps.trans stays.stays
      obtain ⟨selected, after', evaluated, stays', selects⟩ := steady _ reached
      have evaluated : env.eval (act.on later.locals) key after = .ok selected after' := evaluated
      have both := stays.trans stays'
      have there' := both.contents _ _ there id
      obtain ⟨middle, aside, replaced, locals⟩ := replace_apply ⟨later.locals, after'⟩ selects there' new
      have updated : Exec.ofValueOp ((Value.cell cell).update selected new) after' = .ok () _ := ofValueOp_dropped replaced
      obtain ⟨kept, final⟩ := write_keeps (aside.contents _ _ there' id) new
      refine ⟨_, ?_, (both.trans aside).stays.trans kept, final⟩
      simp only [Env.store]
      rw [bind_of_ok loaded, bind_of_ok (expectKind_apply (steady.kind reached (allocated_of_read? (stays.contents _ _ there id)))),
        bind_of_ok evaluated, bind_of_ok updated]
      change EStateM.Result.ok (act.on later.locals) _ = EStateM.Result.ok (act.on middle.locals) _
      rw [locals]

/-- A constant is steady. -/
theorem Steady.const (constant : Constant) : env.Steady act spots storage (.const constant) fun _ value => value = constant.value :=
  fun later _ => ⟨_, later.state, rfl, .refl _ _, rfl⟩

/-- So is a variable or a part that is no spot and can be named without looking at one. -/
theorem Steady.load {value : Value} (denotes : env.Denotes act spots storage place here) (clear : storage.Clear spots here)
    (free : ¬spots here) (holds : storage.read? here = some value) :
    env.Steady act spots storage (.load place) fun _ loaded => loaded = value := by
  intro later keeps
  obtain ⟨loaded, after, loads, stays, found⟩ := denotes.load clear keeps
  refine ⟨loaded, after, loads, stays, ?_⟩
  simpa [keeps.contents _ _ holds free] using found.symm

/-- A steady index selects the same element of a sequence all the time. -/
theorem Steady.item {number : Int64} {cell : Address} {items : List Value}
    (steady : env.Steady act spots storage operand fun _ value => value = .int number) (seq : storage.state.heap.read cell = .seq items)
    (inside : 0 ≤ number ∧ number.toInt.toNat < items.length) :
    env.Steady act spots storage operand fun heap value => heap.Selects cell .seq value number.toInt.toNat := by
  intro later keeps
  obtain ⟨_, after, evaluates, stays, rfl⟩ := steady later keeps
  refine ⟨_, after, evaluates, stays, ?_⟩
  have old : cell.index < storage.state.heap.size := Heap.allocated_of_read seq nofun
  have husks := (keeps.trans stays.stays).husks cell old
  rw [seq] at husks
  cases now : after.heap.read cell with
  | seq others =>
      have lengths := Cell.length_of_husk husks
      simp only [now, Cell.parts] at lengths
      exact .item now (by rw [lengths]; exact inside)
  | tuple _ | named _ | map _ =>
      simp only [now] at husks
      cases husks

end Env

end Reentry
