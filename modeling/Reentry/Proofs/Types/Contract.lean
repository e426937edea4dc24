import Reentry.Proofs.Locations.Swap
import Reentry.Proofs.Stewardship.Code
import Reentry.Proofs.Types.Fitting

/-!
Containers of a type. An operation on a value of a type, with operands of the types that it asks for, leaves the value in
its type and hands back a value of the type that one expects. The one exception is a key that a map lacks: binding it hands
back null, whatever the type of the elements. So a variable and a part of a container may be exchanged, if there is such a part.
-/

namespace Reentry

namespace Ty

/-- Type of the indices or keys of a container. -/
def key? : Ty → Option Ty
  | .seq _ => some .int
  | .map key _ => some key
  | .any => some .any
  | _ => none

/-- Type of the elements of a container. -/
def element? : Ty → Option Ty
  | .seq element => some element
  | .map _ value => some value
  | .any => some .any
  | _ => none

/-- Type of a field or an element. -/
def part? (index : Nat) : Ty → Option Ty
  | .tuple items => items[index]?
  | .named fields => (fields[index]?).map (·.2)
  | ty => ty.element?

end Ty

namespace Cell

variable {cell : Cell} {index : Nat} {value part : Value}

theorem keys_setPart (cell : Cell) (index : Nat) (value : Value) : (cell.setPart index value).keys = cell.keys := by
  cases cell with
  | map entries =>
      simp only [setPart, keys]
      exact List.ext_getElem? fun position => by grind
  | _ => rfl

/-- After one part has been overwritten there is nothing in a cell but the new value and what was there. -/
theorem mem_contents_setPart (member : part ∈ (cell.setPart index value).contents) : part = value ∨ part ∈ cell.contents := by
  rcases mem_contents.mp member with inside | key
  · rw [parts_setPart] at inside
    rcases List.mem_or_eq_of_mem_set inside with old | same
    · exact .inr (parts_inside _ _ old)
    · exact .inl same
  · rw [keys_setPart] at key
    exact .inr (mem_contents.mpr (.inr key))

end Cell

namespace Heap

variable {heap after : Heap} {container value : Value} {address goal : Address} {ty : Ty} {cell : Cell}

/-- An operand of some type that does not lead to the container. -/
structure Serving (heap : Heap) (container : Value) (ty : Ty) (operand : Value) : Prop where
  admitted : ty.admits heap operand = true
  founded : heap.Founded operand
  free : ∀ address, container = .cell address → ¬heap.Leads operand address

/-- A stored value that does not lead to the cell. -/
def Avoids (heap : Heap) (value : Value) (address : Address) : Prop := ∀ goal, heap.Leads value goal → goal.index < heap.size ∧ goal ≠ address

theorem Serving.avoids (serving : heap.Serving (.cell address) ty value) : heap.Avoids value address := by
  intro goal leads
  refine ⟨serving.founded.allocated goal leads, ?_⟩
  rintro rfl
  exact serving.free goal rfl leads

/-- The parts of a cell without loops do not lead to it. -/
theorem Founded.avoids (founded : heap.Founded (.cell address)) (member : value ∈ (heap.read address).contents) : heap.Avoids value address := by
  intro goal leads
  refine ⟨founded.allocated goal (.inside member leads), ?_⟩
  rintro rfl
  exact founded.acyclic goal .here value member leads

theorem Avoids.extends (avoids : heap.Avoids value address) (grows : heap.Extends after) : after.Avoids value address := by
  intro goal leads
  have before := leads.before fun goal leads => grows.same goal (avoids goal leads).1
  exact ⟨Nat.lt_of_lt_of_le (avoids goal before).1 grows.size, (avoids goal before).2⟩

/-- Adding cells changes the type of no stored value. -/
theorem Avoids.admits_extends (avoids : heap.Avoids value address) (grows : heap.Extends after) (ty : Ty) :
    ty.admits after value = ty.admits heap value :=
  Ty.admits_same (fun goal leads => (avoids goal leads).1) grows.size (fun goal leads => grows.same goal (avoids goal leads).1) ty

/-- Overwriting a cell changes the type of no value that does not lead to it. -/
theorem Avoids.admits_write (avoids : heap.Avoids value address) (cell : Cell) (ty : Ty) :
    ty.admits (heap.write address cell) value = ty.admits heap value :=
  Ty.admits_same (fun goal leads => (avoids goal leads).1) (Nat.le_of_eq (size_write heap address cell).symm)
    (fun goal leads => read_write_of_ne heap (avoids goal leads).2 cell) ty

/-- A cell that is overwritten with something that fits the type is of the type. -/
theorem admits_written (allocated : address.index < heap.size) (fits : ty.Fits heap cell)
    (avoid : ∀ part ∈ cell.contents, heap.Avoids part address) : ty.admits (heap.write address cell) (.cell address) = true := by
  rw [Ty.admits_cell_iff, read_write_self allocated]
  exact fits.same (fun part member goal leads => (avoid part member goal leads).1) (Nat.le_of_eq (size_write heap address cell).symm)
    fun part member goal leads => read_write_of_ne heap (avoid part member goal leads).2 cell

/-- A copy has cells of its own. -/
theorem Founded.copied (founded : heap.Founded value) : Alloc.Puts heap value.deepCopy fun after copy =>
    (∀ ty : Ty, ty.admits heap value = true → ty.admits after copy = true) ∧ ∀ address, address.index < heap.size → after.Avoids copy address := by
  obtain ⟨grows, stores⟩ := founded.copy_stores
  refine ⟨grows, fun ty admitted => (stores ty admitted).admitted, fun address old goal leads => ⟨(stores .any rfl).allocated goal leads, ?_⟩⟩
  have fresh : heap.Fresh (value.deepCopy.run heap).2 [(value.deepCopy.run heap).1] := (Alloc.Makes.deepCopy [] value).fresh
  rintro rfl
  exact Nat.lt_irrefl _ (Nat.lt_of_lt_of_le old (leads.within fresh.closed (Region.ownsAll_cons.mp fresh.owns).1).1)

end Heap

namespace Ty.Fits

variable {heap : Heap} {ty part : Ty} {cell : Cell} {value : Value} {index : Nat} {items : List Value} {entries : List Entry}

theorem admits_part (fits : ty.Fits heap cell) (parts : ty.part? index = some part) (found : cell.parts[index]? = some value) :
    part.admits heap value = true := by
  cases fits with
  | any =>
      cases parts
      rfl
  | tuple each =>
      obtain ⟨bound, rfl⟩ := List.getElem?_eq_some_iff.mp parts
      obtain ⟨bound', rfl⟩ := List.getElem?_eq_some_iff.mp found
      exact (List.forall₂_iff_get.mp each).2 index bound bound'
  | named each =>
      obtain ⟨field, there, rfl⟩ := Option.map_eq_some_iff.mp parts
      simp only [Cell.parts, List.getElem?_map, Option.map_eq_some_iff] at found
      obtain ⟨entry, there', rfl⟩ := found
      obtain ⟨bound, rfl⟩ := List.getElem?_eq_some_iff.mp there
      obtain ⟨bound', rfl⟩ := List.getElem?_eq_some_iff.mp there'
      exact ((List.forall₂_iff_get.mp each).2 index bound bound').2
  | seq each =>
      cases parts
      exact each value (List.mem_of_getElem? found)
  | map each =>
      cases parts
      simp only [Cell.parts, List.getElem?_map, Option.map_eq_some_iff] at found
      obtain ⟨entry, there, rfl⟩ := found
      exact (each entry (List.mem_of_getElem? there)).2

theorem setPart (fits : ty.Fits heap cell) (parts : ty.part? index = some part) (admitted : part.admits heap value = true) :
    ty.Fits heap (cell.setPart index value) := by
  cases fits with
  | any => exact .any _
  | tuple each =>
      refine .tuple (List.forall₂_iff_get.mpr ⟨each.length_eq.trans (List.length_set ..).symm, fun position bound bound' => ?_⟩)
      rw [List.get_eq_getElem, List.get_eq_getElem, List.getElem_set]
      split
      · next same =>
          subst same
          obtain ⟨_, rfl⟩ := List.getElem?_eq_some_iff.mp parts
          exact admitted
      · exact (List.forall₂_iff_get.mp each).2 position bound (each.length_eq ▸ bound)
  | named each =>
      refine .named (List.forall₂_iff_get.mpr ⟨each.length_eq.trans (List.length_modify ..).symm, fun position bound bound' => ?_⟩)
      obtain ⟨name, old⟩ := (List.forall₂_iff_get.mp each).2 position bound (each.length_eq ▸ bound)
      rw [List.get_eq_getElem, List.get_eq_getElem, List.getElem_modify]
      split
      · next same =>
          subst same
          obtain ⟨field, there, rfl⟩ := Option.map_eq_some_iff.mp parts
          obtain ⟨_, rfl⟩ := List.getElem?_eq_some_iff.mp there
          exact ⟨name, admitted⟩
      · exact ⟨name, old⟩
  | seq each =>
      cases parts
      refine .seq fun item member => ?_
      rcases List.mem_or_eq_of_mem_set member with old | rfl
      · exact each item old
      · exact admitted
  | @map keyTy valueTy entries each =>
      cases parts
      refine .map fun entry member => ?_
      obtain ⟨position, there⟩ := List.mem_iff_getElem?.mp member
      rw [List.getElem?_modify] at there
      obtain ⟨before, found, rfl⟩ := Option.map_eq_some_iff.mp there
      have old := each before (List.mem_of_getElem? found)
      split
      · exact ⟨old.1, admitted⟩
      · exact old

/-- Whatever has but the old items, and one more of the type of the elements, fits as well. -/
theorem of_items {others : List Value} {element : Ty} (fits : ty.Fits heap (.seq items)) (elements : ty.element? = some element)
    (each : ∀ item ∈ others, item ∈ items ∨ element.admits heap item = true) : ty.Fits heap (.seq others) := by
  cases fits with
  | any => exact .any _
  | seq all =>
      cases elements
      exact .seq fun item member => (each item member).elim (all item) id

theorem of_entries {others : List Entry} {key element : Ty} (fits : ty.Fits heap (.map entries)) (keys : ty.key? = some key)
    (elements : ty.element? = some element)
    (each : ∀ entry ∈ others, entry ∈ entries ∨ key.admits heap entry.key = true ∧ element.admits heap entry.value = true) :
    ty.Fits heap (.map others) := by
  cases fits with
  | any => exact .any _
  | map all =>
      cases keys
      cases elements
      exact .map fun entry member => (each entry member).elim (all entry) id

theorem each_key {key : Ty} (fits : ty.Fits heap (.map entries)) (keys : ty.key? = some key) : ∀ entry ∈ entries, key.admits heap entry.key = true := by
  cases fits with
  | any =>
      cases keys
      exact fun _ _ => rfl
  | map each =>
      cases keys
      exact fun entry member => (each entry member).1

theorem each_value {element : Ty} (fits : ty.Fits heap (.map entries)) (elements : ty.element? = some element) :
    ∀ entry ∈ entries, element.admits heap entry.value = true := by
  cases fits with
  | any =>
      cases elements
      exact fun _ _ => rfl
  | map each =>
      cases elements
      exact fun entry member => (each entry member).2

end Ty.Fits

/-- An element is a part. -/
theorem Ty.part?_of_element? {ty element : Ty} (elements : ty.element? = some element) (index : Nat) : ty.part? index = some element := by
  cases ty <;> first | exact elements | cases elements

namespace Operation

open ValueOp

/-- The operation works on the container, with operands of the types that a container of this type asks for, and is to give
something of the other type. -/
inductive On (heap : Heap) (ty : Ty) (container : Value) : Operation → Ty → Prop
  | copy : On heap ty container (.copy container) ty
  | cast (other : Ty) : On heap ty container (.cast container other) other
  | size : On heap ty container (.unary .sizeof container) .int
  | keys {key : Ty} (keys : ty.key? = some key) : On heap ty container (.unary .keys container) (.seq key)
  | values {element : Ty} (elements : ty.element? = some element) : On heap ty container (.unary .values container) (.seq element)
  | contains (key : Value) : On heap ty container (.binary .mem key container) .bool
  | lookup {element : Ty} (key : Value) (elements : ty.element? = some element) : On heap ty container (.lookup container key) element
  | replace {keyTy element : Ty} {key value : Value} (keys : ty.key? = some keyTy) (elements : ty.element? = some element)
      (key_serves : heap.Serving container keyTy key) (serves : heap.Serving container element value) :
      On heap ty container (.replace container key value) element
  | insert {keyTy element : Ty} {key value : Value} (keys : ty.key? = some keyTy) (elements : ty.element? = some element)
      (key_serves : heap.Serving container keyTy key) (serves : heap.Serving container element value) :
      On heap ty container (.insert container key value) .null
  | remove {keyTy element : Ty} (key : Value) (keys : ty.key? = some keyTy) (elements : ty.element? = some element) :
      On heap ty container (.remove container key) .null
  | field {part : Ty} {index : Nat} (parts : ty.part? index = some part) : On heap ty container (.field container index) part
  | replaceField {part : Ty} {index : Nat} {value : Value} (parts : ty.part? index = some part) (serves : heap.Serving container part value) :
      On heap ty container (.replaceField container index value) part

/-- An element has been bound to a key that the map lacked. -/
def Binds (op : Operation) (container : Value) (before after : Heap) : Prop :=
  ∃ key value address entries entry, op = .replace container key value ∧ container = .cell address ∧ before.read address = .map entries ∧
    after.read address = .map (entries ++ [entry])

variable {heap : Heap} {ty part element keyTy : Ty} {container key value : Value} {index : Nat}

/-- The container keeps its type, and the result is of the other type. -/
abbrev Typed (ty : Ty) (container : Value) (part : Ty) (after : Heap) (result : Value) : Prop :=
  ty.admits after container = true ∧ part.admits after result = true

section

variable (admitted : ty.admits heap container = true) (founded : heap.Founded container)
include admitted

theorem fits_of_cell? {address : Address} {cell : Cell} (found : heap.cell? container = some (address, cell)) :
    container = .cell address ∧ heap.read address = cell ∧ ty.Fits heap cell := by
  obtain ⟨rfl, holds⟩ := Value.contents_of_cell? found
  exact ⟨rfl, holds, holds ▸ Ty.admits_cell_iff.mp admitted⟩

theorem size_typed : Gives heap container.size fun after _ => ty.admits after container = true := by
  refine .get ?_
  split
  · exact .pure admitted
  · exact .pure admitted
  · exact .mismatch _ _ _

theorem containsKey_typed : Gives heap (container.containsKey key) fun after _ => ty.admits after container = true := by
  refine .get ?_
  split
  · exact .pure admitted
  · exact .mismatch _ _ _

theorem lookup_typed (elements : ty.element? = some element) : Gives heap (container.lookup key) (Typed ty container element) := by
  refine .get ?_
  split
  next address items found =>
    obtain ⟨-, -, fits⟩ := fits_of_cell? admitted found
    refine .bind (.seqIndex key _ false) fun index after inside => ?_
    obtain ⟨rfl, bound⟩ := inside
    refine .pure ⟨admitted, fits.admits_part (Ty.part?_of_element? elements index) ?_⟩
    have bound : index < items.length := bound
    simp only [Cell.parts, List.getElem?_eq_getElem bound, Option.getD_some]
  next address entries found =>
    obtain ⟨-, -, fits⟩ := fits_of_cell? admitted found
    refine .get ?_
    split
    next entry there =>
      obtain ⟨index, _, there⟩ := Option.bind_eq_some_iff.mp there
      exact .pure ⟨admitted, fits.each_value elements entry (List.mem_of_getElem? there)⟩
    next => exact .throw _
  next => exact .mismatch _ _ _

theorem field_typed (parts : ty.part? index = some part) : Gives heap (container.field index) (Typed ty container part) := by
  refine .get ?_
  split
  next address items found =>
    obtain ⟨-, -, fits⟩ := fits_of_cell? admitted found
    split
    next value there => exact .pure ⟨admitted, fits.admits_part parts there⟩
    next => exact .throw _
  next address fields found =>
    obtain ⟨-, -, fits⟩ := fits_of_cell? admitted found
    split
    next name value there => exact .pure ⟨admitted, fits.admits_part parts (by rw [Cell.parts, List.getElem?_map, there]; rfl)⟩
    next => exact .throw _
  next => exact .mismatch _ _ _

omit admitted in
/-- A sequence of copies of some of the parts. -/
theorem copies_typed {items : List Entry} (pick : Entry → Value) (typed : ∀ item ∈ items, part.admits heap (pick item) = true)
    (stored : ∀ item ∈ items, heap.Founded (pick item)) :
    Alloc.Puts heap (do Cell.new (.seq (← items.mapM fun item => (pick item).deepCopy))) fun after made => (Ty.seq part).admits after made = true := by
  have copies := @Alloc.Puts.mapM Entry Value (fun item => (pick item).deepCopy) (fun heap item => heap.Founded (pick item) ∧ heap.Stores part (pick item))
    (fun heap _ copy => heap.Stores part copy) items
    (fun ready grows => ⟨ready.1.same grows.size fun address leads => grows.same address (ready.1.allocated address leads), ready.2.extends grows⟩)
    (fun stores grows => stores.extends grows)
    (fun heap item ready => ready.1.copy_stores.weaken fun after copy _ stores => stores part ready.2.admitted)
    heap fun item member => ⟨stored item member, (stored item member).allocated, typed item member⟩
  refine copies.bind fun values after _ each => .new _ (Heap.admits_new (fun value member => ?_) (.seq fun value member => ?_))
  · obtain ⟨_, _, stores⟩ := exists_of_forall₂ each.flip member
    exact stores.allocated
  · obtain ⟨_, _, stores⟩ := exists_of_forall₂ each.flip member
    exact stores.admitted

include founded

/-- Adding cells leaves the container in its type. -/
theorem container_extends {after : Heap} (grows : heap.Extends after) : ty.admits after container = true := by
  have stores : heap.Stores ty container := ⟨founded.allocated, admitted⟩
  exact (stores.extends grows).admitted

theorem keys_typed (keys : ty.key? = some keyTy) : Gives heap container.keys (Typed ty container (.seq keyTy)) := by
  refine .get ?_
  split
  next address entries found =>
    obtain ⟨rfl, holds, fits⟩ := fits_of_cell? admitted found
    have made := copies_typed (·.key) (fits.each_key keys) fun entry member =>
      founded.part (by rw [holds]; exact List.mem_flatMap.mpr ⟨entry, member, by simp⟩)
    intro result after ran
    obtain ⟨grows, typed⟩ := Gives.toOp made result after ran
    exact ⟨container_extends admitted founded grows, typed⟩
  next => exact .mismatch _ _ _

theorem values_typed (elements : ty.element? = some element) : Gives heap container.values (Typed ty container (.seq element)) := by
  refine .get ?_
  split
  next address entries found =>
    obtain ⟨rfl, holds, fits⟩ := fits_of_cell? admitted found
    have made := copies_typed (·.value) (fits.each_value elements) fun entry member =>
      founded.part (by rw [holds]; exact List.mem_flatMap.mpr ⟨entry, member, by simp⟩)
    intro result after ran
    obtain ⟨grows, typed⟩ := Gives.toOp made result after ran
    exact ⟨container_extends admitted founded grows, typed⟩
  next => exact .mismatch _ _ _

theorem replaceField_typed (parts : ty.part? index = some part) (serves : heap.Serving container part value) :
    Gives heap (container.replaceField index value) (Typed ty container part) := by
  have overwritten {address : Address} {cell : Cell} {old : Value} (found : heap.cell? container = some (address, cell))
      (there : cell.parts[index]? = some old) : Typed ty container part (heap.write address (cell.setPart index value)) old := by
    obtain ⟨rfl, rfl, fits⟩ := fits_of_cell? admitted found
    refine ⟨Heap.admits_written (founded.allocated address .here) (fits.setPart parts serves.admitted) fun other member => ?_, ?_⟩
    · rcases Cell.mem_contents_setPart member with rfl | old
      · exact serves.avoids
      · exact founded.avoids old
    · have avoids : heap.Avoids old address := founded.avoids (Cell.parts_inside _ _ (List.mem_of_getElem? there))
      exact (avoids.admits_write _ part).trans (fits.admits_part parts there)
  refine .get ?_
  split
  next address items found =>
    split
    next old there => exact .write (overwritten found there)
    next => exact .throw _
  next address fields found =>
    split
    next name old there => exact .write (overwritten found (by rw [Cell.parts, List.getElem?_map, there]; rfl))
    next => exact .throw _
  next => exact .mismatch _ _ _

/-- Binding an operand to a copy of another one. -/
theorem bindCopy_typed {address : Address} {entries : List Entry} (found : heap.cell? container = some (address, .map entries))
    (keys : ty.key? = some keyTy) (elements : ty.element? = some element) (key_serves : heap.Serving container keyTy key)
    (serves : heap.Serving container element value) : Gives heap (Value.bindCopy address key value entries) fun after result =>
      ty.admits after container = true ∧
        (element.admits after result = true ∨ result = .null ∧ ∃ entry, after.read address = .map (entries ++ [entry])) := by
  obtain ⟨rfl, holds, fits⟩ := fits_of_cell? admitted found
  have allocated := founded.allocated address .here
  have avoids {part : Value} (member : part ∈ (Cell.map entries).contents) : heap.Avoids part address := founded.avoids (by rw [holds]; exact member)
  have within {entry : Entry} (member : entry ∈ entries) :
      entry.key ∈ (Cell.map entries).contents ∧ entry.value ∈ (Cell.map entries).contents :=
    ⟨List.mem_flatMap.mpr ⟨entry, member, by simp⟩, List.mem_flatMap.mpr ⟨entry, member, by simp⟩⟩
  refine .bind (.toOp key_serves.founded.copied) fun copy middle made => ?_
  obtain ⟨grows, typed, apart⟩ := made
  have fits' : ty.Fits middle (.map entries) := fits.same (fun part member goal leads => (avoids member goal leads).1) grows.size
    fun part member goal leads => grows.same goal (avoids member goal leads).1
  have avoids' {part : Value} (member : part ∈ (Cell.map entries).contents) : middle.Avoids part address := (avoids member).extends grows
  -- all keys and values that the map has then are of their types, and none of them leads to the map
  have each := @Heap.bind_each middle value (fun key => keyTy.admits middle key = true ∧ middle.Avoids key address)
    (fun value => element.admits middle value = true ∧ middle.Avoids value address) entries copy
    (fun entry member => ⟨⟨fits'.each_key keys entry member, avoids' (within member).1⟩, fits'.each_value elements entry member, avoids' (within member).2⟩)
    ⟨typed keyTy key_serves.admitted, apart address allocated⟩
    ⟨(serves.avoids.admits_extends grows element).trans serves.admitted, serves.avoids.extends grows⟩
  have written : ty.admits (middle.write address (.map (middle.bind copy value entries).1)) (.cell address) = true := by
    refine Heap.admits_written (Nat.lt_of_lt_of_le allocated grows.size)
      (fits'.of_entries keys elements fun entry member => .inr ⟨(each entry member).1.1, (each entry member).2.1⟩) fun part member => ?_
    obtain ⟨entry, among, same⟩ := List.mem_flatMap.mp member
    simp only [List.mem_cons, List.not_mem_nil, or_false] at same
    rcases same with rfl | rfl
    · exact (each entry among).1.2
    · exact (each entry among).2.2
  refine .get (.write ⟨written, ?_⟩)
  cases place : middle.boundIndex? copy entries with
  | none =>
      refine .inr ⟨rfl, _, Heap.read_write_self (Nat.lt_of_lt_of_le allocated grows.size) _⟩
  | some index =>
      obtain ⟨bound, _⟩ := List.findIdx?_eq_some_iff_getElem.mp place
      have member := List.getElem_mem bound
      simp only [List.getElem?_eq_getElem bound, Option.map_some, Option.getD_some]
      exact .inl (((avoids' (within member).2).admits_write _ element).trans (fits'.each_value elements _ member))

theorem replace_typed (keys : ty.key? = some keyTy) (elements : ty.element? = some element) (key_serves : heap.Serving container keyTy key)
    (serves : heap.Serving container element value) : Gives heap (container.replace key value) fun after result =>
      ty.admits after container = true ∧
        (element.admits after result = true ∨ result = .null ∧ (Operation.replace container key value).Binds container heap after) := by
  refine .get ?_
  split
  next address items found =>
    obtain ⟨rfl, holds, fits⟩ := fits_of_cell? admitted found
    refine .bind (.seqIndex key _ false) fun index after inside => ?_
    obtain ⟨rfl, bound⟩ := inside
    have bound : index < items.length := bound
    have avoids {item : Value} (member : item ∈ items) : after.Avoids item address := founded.avoids (by rw [holds]; exact member)
    refine .write ⟨Heap.admits_written (founded.allocated address .here) (fits.of_items elements fun item member => ?_) fun item member => ?_, .inl ?_⟩
    · rcases List.mem_or_eq_of_mem_set member with old | rfl
      · exact .inl old
      · exact .inr serves.admitted
    · rcases List.mem_or_eq_of_mem_set member with old | rfl
      · exact avoids old
      · exact serves.avoids
    · simp only [List.getElem?_eq_getElem bound, Option.getD_some]
      refine ((avoids (List.getElem_mem bound)).admits_write _ element).trans (fits.admits_part (Ty.part?_of_element? elements index) ?_)
      exact List.getElem?_eq_getElem bound
  next address entries found =>
    obtain ⟨-, holds, -⟩ := fits_of_cell? admitted found
    refine .bind (.checkKey key address) fun _ after same => ?_
    subst same
    intro result final ran
    obtain ⟨typed, given⟩ := bindCopy_typed admitted founded found keys elements key_serves serves result final ran
    refine ⟨typed, given.imp_right fun bound => ⟨bound.1, ?_⟩⟩
    obtain ⟨entry, now⟩ := bound.2
    exact ⟨key, value, address, entries, entry, rfl, (fits_of_cell? admitted found).1, holds, now⟩
  next => exact .mismatch _ _ _

theorem insert_typed (keys : ty.key? = some keyTy) (elements : ty.element? = some element) (key_serves : heap.Serving container keyTy key)
    (serves : heap.Serving container element value) : Gives heap (container.insert key value) fun after _ => ty.admits after container = true := by
  refine .get ?_
  split
  next address items found =>
    obtain ⟨rfl, holds, fits⟩ := fits_of_cell? admitted found
    refine .bind (.seqIndex key _ true) fun index after inside => ?_
    obtain ⟨rfl, -⟩ := inside
    refine .write (Heap.admits_written (founded.allocated address .here) (fits.of_items elements fun item member => ?_) fun item member => ?_)
    · rcases List.eq_or_mem_of_mem_insertIdx member with rfl | old
      · exact .inr serves.admitted
      · exact .inl old
    · rcases List.eq_or_mem_of_mem_insertIdx member with rfl | old
      · exact serves.avoids
      · exact founded.avoids (by rw [holds]; exact old)
  next address entries found =>
    refine .bind (.checkKey key address) fun _ after same => ?_
    subst same
    refine .get ?_
    split
    · exact .get (.throw _)
    · refine .bind (bindCopy_typed admitted founded found keys elements key_serves serves) fun _ _ bound => .pure bound.1
  next => exact .mismatch _ _ _

theorem remove_typed (keys : ty.key? = some keyTy) (elements : ty.element? = some element) :
    Gives heap (container.remove key) fun after _ => ty.admits after container = true := by
  refine .get ?_
  split
  next address items found =>
    obtain ⟨rfl, holds, fits⟩ := fits_of_cell? admitted found
    refine .bind (.seqIndex key _ false) fun index after inside => ?_
    obtain ⟨rfl, -⟩ := inside
    refine .write (Heap.admits_written (founded.allocated address .here) (fits.of_items elements fun item member => ?_) fun item member => ?_)
    · exact .inl (List.mem_of_mem_eraseIdx member)
    · exact founded.avoids (by rw [holds]; exact List.mem_of_mem_eraseIdx member)
  next address entries found =>
    obtain ⟨rfl, holds, fits⟩ := fits_of_cell? admitted found
    refine .bind (.checkKey key address) fun _ after same => ?_
    subst same
    refine .get ?_
    split
    · next index _ =>
        refine .write (Heap.admits_written (founded.allocated address .here) (fits.of_entries keys elements fun entry member => ?_) fun part member => ?_)
        · exact .inl (List.mem_of_mem_eraseIdx member)
        · obtain ⟨entry, among, same⟩ := List.mem_flatMap.mp member
          exact founded.avoids (by rw [holds]; exact List.mem_flatMap.mpr ⟨entry, List.mem_of_mem_eraseIdx among, same⟩)
    · exact .get (.throw _)
  next => exact .mismatch _ _ _

theorem On.typed {op : Operation} {result : Value} {after : Heap} (on : op.On heap ty container part)
    (done : op.perform.run heap = .ok (result, after)) :
    ty.admits after container = true ∧ (part.admits after result = true ∨ result = .null ∧ op.Binds container heap after) := by
  have sure {gives : ValueOp Value} (typed : Gives heap gives (Typed ty container part)) (done : gives.run heap = .ok (result, after)) :
      ty.admits after container = true ∧ (part.admits after result = true ∨ result = .null ∧ op.Binds container heap after) :=
    ⟨(typed result after done).1, .inl (typed result after done).2⟩
  cases on with
  | copy =>
      obtain ⟨grows, stores⟩ := Gives.toOp founded.copy_stores result after done
      exact ⟨container_extends admitted founded grows, .inl (stores _ admitted).admitted⟩
  | cast other =>
      refine sure (.get ?_) done
      split
      · next holds => exact .pure ⟨admitted, holds⟩
      · exact .throw _
  | size => exact sure (.bind (size_typed admitted) fun _ _ typed => .pure ⟨typed, rfl⟩) done
  | keys keys => exact sure (keys_typed admitted founded keys) done
  | values elements => exact sure (values_typed admitted founded elements) done
  | contains key => exact sure (.bind (containsKey_typed admitted) fun _ _ typed => .pure ⟨typed, rfl⟩) done
  | lookup key elements => exact sure (lookup_typed admitted elements) done
  | replace keys elements key_serves serves => exact replace_typed admitted founded keys elements key_serves serves result after done
  | insert keys elements key_serves serves =>
      exact sure (.bind (insert_typed admitted founded keys elements key_serves serves) fun _ _ typed => .pure ⟨typed, rfl⟩) done
  | remove key keys elements => exact sure (.bind (remove_typed admitted founded keys elements) fun _ _ typed => .pure ⟨typed, rfl⟩) done
  | field parts => exact sure (field_typed admitted parts) done
  | replaceField parts serves => exact sure (replaceField_typed admitted founded parts serves) done

end

end Operation

namespace Storage

variable {σ : Type} {before after : Storage σ} {cell address : Address} {index : Nat} {spot : Location} {old new : Value}

/-- Only the one cell is another one after an exchange with a variable. -/
theorem Exchanged.read_other (exchanged : before.Exchanged (.part cell index) spot after) (var : ∀ cell index, spot ≠ .part cell index)
    (stored : address.index < before.state.heap.size) (other : address ≠ cell) :
    after.state.heap.read address = before.state.heap.read address := by
  refine Cell.eq_of_parts (exchanged.keeps.husks address stored) (List.ext_getElem? fun position => ?_)
  have clear : ¬(Location.part address position = .part cell index ∨ .part address position = spot) := by
    rintro (same | same)
    · exact other (Location.part.inj same).1
    · exact var _ _ same.symm
  exact exchanged.keeps.read? clear fun _ _ same => (Location.part.inj same).1 ▸ stored

/-- And that one has got the value of the variable. -/
theorem Exchanged.read_own (exchanged : before.Exchanged (.part cell index) spot after) (var : ∀ cell index, spot ≠ .part cell index)
    (there : before.read? (.part cell index) = some old) (held : before.read? spot = some new) :
    after.state.heap.read cell = (before.state.heap.read cell).setPart index new := by
  have stored := allocated_of_read? there
  refine Cell.eq_of_parts ((exchanged.keeps.husks cell stored).trans (Cell.husk_setPart _ _ _).symm) ?_
  rw [Cell.parts_setPart]
  refine List.ext_getElem? fun position => ?_
  by_cases same : position = index
  · subst same
    obtain ⟨bound, _⟩ := List.getElem?_eq_some_iff.mp there
    rw [List.getElem?_set_self bound]
    exact exchanged.forth.trans held
  · rw [List.getElem?_set_ne (Ne.symm same)]
    have clear : ¬(Location.part cell position = .part cell index ∨ .part cell position = spot) := by
      rintro (here | here)
      · exact same (Location.part.inj here).2
      · exact var _ _ here.symm
    exact exchanged.keeps.read? clear fun _ _ here => (Location.part.inj here).1 ▸ stored

/-- A variable and a part of a container have been exchanged, and both are of their types. -/
theorem Exchanged.typed {ty part : Ty} (exchanged : before.Exchanged (.part cell index) spot after) (var : ∀ cell index, spot ≠ .part cell index)
    (there : before.read? (.part cell index) = some old) (held : before.read? spot = some new)
    (admitted : ty.admits before.state.heap (.cell cell) = true) (founded : before.state.heap.Founded (.cell cell)) (parts : ty.part? index = some part)
    (serves : before.state.heap.Serving (.cell cell) part new) :
    ty.admits after.state.heap (.cell cell) = true ∧ after.read? spot = some old ∧ part.admits after.state.heap old = true := by
  have fits := Ty.admits_cell_iff.mp admitted
  have same {value : Value} (avoids : before.state.heap.Avoids value cell) (address : Address) (leads : before.state.heap.Leads value address) :
      after.state.heap.read address = before.state.heap.read address :=
    exchanged.read_other var (avoids address leads).1 (avoids address leads).2
  have avoids : before.state.heap.Avoids old cell := founded.avoids (Cell.parts_inside _ _ (List.mem_of_getElem? there))
  have inside {value : Value} (member : value ∈ ((before.state.heap.read cell).setPart index new).contents) : before.state.heap.Avoids value cell := by
    rcases Cell.mem_contents_setPart member with rfl | old
    · exact serves.avoids
    · exact founded.avoids old
  refine ⟨?_, exchanged.back.trans there, ?_⟩
  · rw [Ty.admits_cell_iff, exchanged.read_own var there held]
    exact (fits.setPart parts serves.admitted).same (fun value member address leads => (inside member address leads).1) exchanged.keeps.size
      fun value member => same (inside member)
  · exact (Ty.admits_same (fun address leads => (avoids address leads).1) exchanged.keeps.size (same avoids) part).trans (fits.admits_part parts there)

end Storage

/-- What one may rely on for the values of a type: variables start with such a value, operations on one leave it in the type
and give what one expects, except that binding a key that a map lacks gives null; and where a part of one is exchanged with a
variable of the type of the part, in whatever order they are named, both stay in their types. -/
structure Ty.Contract (ty : Ty) : Prop where
  initial : ∀ heap, ty.admits ((Value.initial ty).run heap).2 ((Value.initial ty).run heap).1 = true
  operation : ∀ (heap after : Heap) (container result : Value) (op : Operation) (part : Ty), ty.admits heap container = true → heap.Founded container →
    op.On heap ty container part → op.perform.run heap = .ok (result, after) →
    ty.admits after container = true ∧ (part.admits after result = true ∨ result = .null ∧ op.Binds container heap after)
  exchange : ∀ {σ : Type} (env : Env σ) (act : Activation) (state : Running σ) (dest source : Place) (here there spot : Location) (cell : Address)
    (index : Nat) (new : Value) (part : Ty), env.Denotes act (· = there) ⟨act.locals, state⟩ dest here →
    env.Denotes act (· = here) ⟨act.locals, state⟩ source there →
    here = .part cell index ∧ there = spot ∨ here = spot ∧ there = .part cell index → (∀ cell index, spot ≠ .part cell index) →
    ty.admits state.heap (.cell cell) = true → state.heap.Founded (.cell cell) → ty.part? index = some part →
    (⟨act.locals, state⟩ : Storage σ).read? spot = some new → state.heap.Serving (.cell cell) part new →
    ∃ (after : Storage σ) (old : Value), env.step act (.exchanging dest source) state = .ok (.next (act.on after.locals)) after.state ∧
      ty.admits after.state.heap (.cell cell) = true ∧ after.read? spot = some old ∧ part.admits after.state.heap old = true

theorem values_keep_their_types (ty : Ty) : ty.Contract where
  initial heap := (Tree.build_suits heap ty.initial).2.admits ty ty.initial_liked
  operation _ _ _ _ _ _ admitted founded on done := on.typed admitted founded done
  exchange {σ} env act state dest source here there spot cell index new part denotes denotes' names var admitted founded parts held serves := by
    have apart (spots : Location → Prop) : (⟨act.locals, state⟩ : Storage σ).Clear spots spot := by
      rintro _ _ _ _ ⟨cell, index, same, _⟩
      exact var cell index same
    have clear : (⟨act.locals, state⟩ : Storage σ).Clear (· = spot) (.part cell index) := by
      rintro _ value rfl found ⟨_, _, same, leads⟩
      cases same
      obtain rfl : new = value := Option.some.inj (held.symm.trans found)
      exact serves.free cell rfl leads
    rcases names with ⟨rfl, rfl⟩ | ⟨rfl, rfl⟩
    · obtain ⟨after, steps, exchanged⟩ := Env.exchanging_exchanges denotes denotes' clear (apart _)
      obtain ⟨old, there⟩ := denotes.found
      exact ⟨after, old, steps, exchanged.typed var there held admitted founded parts serves⟩
    · obtain ⟨after, steps, exchanged⟩ := Env.exchanging_exchanges denotes denotes' (apart _) clear
      obtain ⟨old, there⟩ := denotes'.found
      exact ⟨after, old, steps, exchanged.symm.typed var there held admitted founded parts serves⟩

namespace Sample

/-- A sequence with the sequence of 7 in it, and an empty sequence. -/
def nest : Heap := ⟨#[.seq [.int 7], .seq [.cell ⟨0⟩], .seq []]⟩

theorem nest_founded : nest.Founded (.cell ⟨1⟩) := by
  have closed : nest.Closed fun address => address.index < 2 := by
    refine ⟨fun address inside => Nat.lt_of_lt_of_le inside (by decide), ?_⟩
    rintro ⟨_ | _ | index⟩ inside part member goal rfl
    · cases member with | tail _ rest => cases rest
    · cases member with
      | head => exact Nat.zero_lt_two
      | tail _ rest => cases rest
    · exact absurd inside (by simp)
  refine .of_grounded (fun address leads => ?_) ⟨_, 2, rfl⟩
  exact Nat.lt_of_lt_of_le (leads.within closed (Region.owns_cell.mpr Nat.one_lt_two)) (by decide)

/-- Nothing is in the empty sequence. -/
theorem leads_nest {address : Address} (leads : nest.Leads (.cell ⟨2⟩) address) : address = ⟨2⟩ := by
  cases leads with
  | here => rfl
  | inside member _ => cases member

end Sample

/-- The element of a sequence of sequences is exchanged with a variable, and then the sequence is copied. -/
theorem nested_element_keeps_type : ∃ (env : Env Unit) (act : Activation) (before after : Storage Unit) (old copy : Value) (copied : Heap),
    before.state.heap = Sample.nest ∧
      env.step act (.exchanging (.element (.slot 0) (.const (.int 0)) .seq) (.slot 1)) before.state
        = .ok (.next (act.on after.locals)) after.state ∧
      (Ty.seq (.seq .int)).admits after.state.heap (.cell ⟨1⟩) = true ∧
      after.read? (.slot 1) = some old ∧ (Ty.seq .int).admits after.state.heap old = true ∧
      (Operation.copy (.cell ⟨1⟩)).perform.run Sample.nest = .ok (copy, copied) ∧ (Ty.seq (.seq .int)).admits copied copy = true := by
  let idle : Actor := ⟨⟨0⟩, ⟨0⟩, "", [], .null, .null, none, [], ⟨none, none⟩, []⟩
  let act : Activation := ⟨[.cell ⟨1⟩, .cell ⟨2⟩], [], 0, none, none⟩
  let before : Storage Unit := ⟨act.locals, ⟨Sample.nest, idle, (), 0⟩⟩
  let routine : Routine := ⟨⟨0⟩, "", none, ⟨⟨0⟩, "", [], 0⟩, 0, none, [], []⟩
  let env : Env Unit := ⟨⟨"", [], [], []⟩, routine, fun _ _ _ => .ok (), fun _ => throw .outOfSteps⟩
  have contract := values_keep_their_types (.seq (.seq .int))
  have serves : Sample.nest.Serving (.cell ⟨1⟩) (.seq .int) (.cell ⟨2⟩) := by
    refine ⟨rfl, .of_grounded (fun address leads => ?_) ⟨_, 1, rfl⟩, fun address same leads => ?_⟩
    · rw [Sample.leads_nest leads]
      decide
    · rw [Sample.leads_nest leads] at same
      cases same
  have denotes : env.Denotes act (· = .slot 1) before (.element (.slot 0) (.const (.int 0)) .seq) (.part ⟨1⟩ 0) :=
    .element (.slot (by decide)) rfl ((Env.Steady.const (.int 0)).item rfl (by decide)) rfl
  have denotes' : env.Denotes act (· = .part ⟨1⟩ 0) before (.slot 1) (.slot 1) := .slot (by decide)
  obtain ⟨after, old, steps, typed, held, typed'⟩ := contract.exchange env act before.state _ _ _ _ (.slot 1) ⟨1⟩ 0 (.cell ⟨2⟩) (.seq .int)
    denotes denotes' (.inl ⟨rfl, rfl⟩) (by simp) rfl Sample.nest_founded rfl rfl serves
  obtain ⟨_, admitted | ⟨null, _⟩⟩ := contract.operation _ _ _ _ _ _ rfl Sample.nest_founded .copy rfl
  · exact ⟨env, act, before, after, old, _, _, rfl, steps, typed, held, typed', rfl, admitted⟩
  · cases null

/-- Binding a key that a map of numbers lacks gives null, which is no number; looking it up would have failed. -/
theorem missing_key_gives_null : ∃ after,
    (Ty.map .int .int).admits ⟨#[.map []]⟩ (.cell ⟨0⟩) = true ∧ (Operation.replace (.cell ⟨0⟩) (.int 3) (.int 5)).On ⟨#[.map []]⟩ (.map .int .int) (.cell ⟨0⟩) .int ∧
      (Operation.replace (.cell ⟨0⟩) (.int 3) (.int 5)).perform.run ⟨#[.map []]⟩ = .ok (.null, after) ∧ Ty.int.admits after .null = false ∧
      (Operation.lookup (.cell ⟨0⟩) (.int 3)).perform.run ⟨#[.map []]⟩ = .error (.keyNotFound "3") := by
  have serves (number : Int64) : Heap.Serving ⟨#[.map []]⟩ (.cell ⟨0⟩) .int (.int number) := by
    refine ⟨rfl, .scalar _ (by simp), fun address _ leads => ?_⟩
    cases leads
  exact ⟨_, rfl, .replace rfl rfl (serves 3) (serves 5), rfl, rfl, rfl⟩

end Reentry
