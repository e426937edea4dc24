import Reentry.Value.Container

/-!
Regions of a heap. A region owns its cells if nothing in them leads out of it. Work that stays within a
region changes no cell outside of it, and at most takes new cells into it. New cells may also be left in a
region of their own.
-/

namespace Reentry

/-- A set of cells. -/
abbrev Region := Address → Prop

namespace Region

/-- The value is no cell outside the region. -/
def Owns (region : Region) (value : Value) : Prop := ∀ address, value = .cell address → region address

/-- No value of the list is a cell outside the region. -/
def OwnsAll (region : Region) (values : List Value) : Prop := ∀ value ∈ values, region.Owns value

/-- Every cell of the region is one of the other. -/
def Inside (region more : Region) : Prop := ∀ address, region address → more address

/-- The cells allocated between two sizes of the heap. -/
def between (low high : Nat) : Region := fun address => low ≤ address.index ∧ address.index < high

def union (region more : Region) : Region := fun address => region address ∨ more address

/-- No cell is in both regions. -/
def Apart (region other : Region) : Prop := ∀ address, region address → ¬other address

variable {region more other : Region} {values items : List Value} {value : Value}

theorem Inside.refl (region : Region) : region.Inside region := fun _ inside => inside

theorem Inside.trans (left : region.Inside more) (right : more.Inside other) : region.Inside other :=
  fun address inside => right address (left address inside)

theorem inside_union_left (region more : Region) : region.Inside (region.union more) := fun _ inside => .inl inside

theorem inside_union_right (region more : Region) : more.Inside (region.union more) := fun _ inside => .inr inside

theorem Owns.mono (owns : region.Owns value) (inside : region.Inside more) : more.Owns value :=
  fun address same => inside address (owns address same)

theorem OwnsAll.mono (owns : region.OwnsAll values) (inside : region.Inside more) : more.OwnsAll values :=
  fun value member => (owns value member).mono inside

theorem Apart.symm (apart : region.Apart other) : other.Apart region := fun address left right => apart address right left

/-- Values without parts are in every region. -/
theorem owns_scalar (scalar : ∀ address, value ≠ .cell address) : region.Owns value :=
  fun address same => absurd same (scalar address)

@[simp] theorem owns_null : region.Owns .null := owns_scalar nofun
@[simp] theorem owns_bool {chosen : Bool} : region.Owns (.bool chosen) := owns_scalar nofun
@[simp] theorem owns_int {number : Int64} : region.Owns (.int number) := owns_scalar nofun
@[simp] theorem owns_event {id : EventId} : region.Owns (.event id) := owns_scalar nofun
@[simp] theorem owns_halt : region.Owns .halt := owns_scalar nofun
@[simp] theorem owns_machine {id : MachineId} : region.Owns (.machine id) := owns_scalar nofun

@[simp] theorem owns_cell {address : Address} : region.Owns (.cell address) ↔ region address :=
  ⟨fun owns => owns address rfl, fun inside _ same => by cases same; exact inside⟩

@[simp] theorem ownsAll_nil : region.OwnsAll [] := nofun

@[simp] theorem ownsAll_cons : region.OwnsAll (value :: values) ↔ region.Owns value ∧ region.OwnsAll values := by
  simp [OwnsAll]

@[simp] theorem ownsAll_append : region.OwnsAll (values ++ items) ↔ region.OwnsAll values ∧ region.OwnsAll items := by
  simp only [OwnsAll, List.mem_append]
  constructor
  · exact fun owns => ⟨fun value member => owns value (.inl member), fun value member => owns value (.inr member)⟩
  · rintro ⟨left, right⟩ value (member | member)
    · exact left value member
    · exact right value member

theorem OwnsAll.getElem? {index : Nat} (owns : region.OwnsAll values) (found : values[index]? = some value) :
    region.Owns value := owns value (List.mem_of_getElem? found)

theorem OwnsAll.getD {index : Nat} (owns : region.OwnsAll values) : region.Owns (values[index]?.getD .null) := by
  cases found : values[index]? with
  | none => exact owns_null
  | some value => exact owns.getElem? found

theorem OwnsAll.set {index : Nat} (owns : region.OwnsAll values) (own : region.Owns value) :
    region.OwnsAll (values.set index value) := by
  intro other member
  rcases List.mem_or_eq_of_mem_set member with old | rfl
  · exact owns other old
  · exact own

theorem OwnsAll.insertIdx {index : Nat} (owns : region.OwnsAll values) (own : region.Owns value) :
    region.OwnsAll (values.insertIdx index value) := by
  intro other member
  by_cases bound : index ≤ values.length
  · rcases (List.mem_insertIdx bound).mp member with rfl | old
    · exact own
    · exact owns other old
  · rw [List.insertIdx_of_length_lt (Nat.lt_of_not_le bound)] at member
    exact owns other member

theorem OwnsAll.subset (owns : region.OwnsAll values) (subset : ∀ value ∈ items, value ∈ values) : region.OwnsAll items :=
  fun value member => owns value (subset value member)

end Region

namespace Heap

/-- A region of allocated cells that nothing leads out of. -/
structure Closed (heap : Heap) (region : Region) : Prop where
  allocated : ∀ address, region address → address.index < heap.size
  contents : ∀ address, region address → region.OwnsAll (heap.read address).contents

/-- What work within a region may do to the heap, and the region that it ends with. -/
structure Grows (region : Region) (before after : Heap) (more : Region) : Prop where
  size : before.size ≤ after.size
  elsewhere : ∀ address, address.index < before.size → ¬region address → after.read address = before.read address
  inside : region.Inside more
  fresh : ∀ address, more address → region address ∨ before.size ≤ address.index
  closed : after.Closed more

/-- New cells were allocated, and nothing else has changed; neither they nor the values lead to old cells. -/
structure Fresh (before after : Heap) (values : List Value) : Prop where
  size : before.size ≤ after.size
  same : ∀ address, address.index < before.size → after.read address = before.read address
  closed : after.Closed (Region.between before.size after.size)
  owns : (Region.between before.size after.size).OwnsAll values

variable {heap before between after : Heap} {region more most : Region} {values items : List Value}

theorem read_of_size_le {address : Address} (outside : heap.size ≤ address.index) : heap.read address = .tuple [] := by
  have none : heap.cells[address.index]? = none := Array.getElem?_eq_none outside
  simp [read, none]

/-- Where something is held, there is a cell. -/
theorem allocated_of_read {address : Address} {cell : Cell} (here : heap.read address = cell) (holds : cell ≠ .tuple []) :
    address.index < heap.size := by
  apply Nat.lt_of_not_le
  intro outside
  exact holds (here.symm.trans (read_of_size_le outside))

namespace Closed

/-- A region that is left alone stays as it was. -/
theorem kept (closed : before.Closed region) (size : before.size ≤ after.size)
    (same : ∀ address, region address → after.read address = before.read address) : after.Closed region := by
  refine ⟨fun address inside => Nat.lt_of_lt_of_le (closed.allocated address inside) size, fun address inside => ?_⟩
  rw [same address inside]
  exact closed.contents address inside

theorem union (left : heap.Closed region) (right : heap.Closed more) : heap.Closed (region.union more) := by
  refine ⟨fun address inside => inside.elim (left.allocated address) (right.allocated address), fun address inside => ?_⟩
  rcases inside with inside | inside
  · exact (left.contents address inside).mono (Region.inside_union_left _ _)
  · exact (right.contents address inside).mono (Region.inside_union_right _ _)

theorem empty (heap : Heap) : heap.Closed fun _ => False := ⟨nofun, nofun⟩

end Closed

namespace Grows

theorem refl (closed : heap.Closed region) : heap.Grows region heap region :=
  ⟨Nat.le_refl _, fun _ _ _ => rfl, .refl _, fun _ inside => .inl inside, closed⟩

theorem trans (first : Grows region before between more) (second : Grows more between after most) :
    Grows region before after most := by
  refine ⟨Nat.le_trans first.size second.size, fun address old outside => ?_, first.inside.trans second.inside,
    fun address inside => ?_, second.closed⟩
  · have still : ¬more address := fun inside => (first.fresh address inside).elim outside fun new => by omega
    rw [second.elsewhere address (Nat.lt_of_lt_of_le old first.size) still, first.elsewhere address old outside]
  · rcases second.fresh address inside with earlier | new
    · exact first.fresh address earlier
    · exact .inr (Nat.le_trans first.size new)

/-- A cell of the region may be overwritten with what the region owns. -/
theorem write (closed : heap.Closed region) {address : Address} (inside : region address) {cell : Cell}
    (owns : region.OwnsAll cell.contents) : heap.Grows region (heap.write address cell) region := by
  have allocated := closed.allocated address inside
  refine ⟨Nat.le_of_eq (size_write heap address cell).symm, fun other _ outside => ?_, .refl _, fun _ inside => .inl inside, ?_, ?_⟩
  · exact read_write_of_ne heap (fun same => outside (by rw [same]; exact inside)) cell
  · intro other member
    rw [size_write]
    exact closed.allocated other member
  · intro other member
    by_cases same : other = address
    · subst same
      rw [read_write_self allocated]
      exact owns
    · rw [read_write_of_ne heap same]
      exact closed.contents other member

/-- A new cell with what the region owns joins the region. -/
theorem allocate (closed : heap.Closed region) {cell : Cell} (owns : region.OwnsAll cell.contents) :
    heap.Grows region (heap.allocate cell) (region.union (Region.between heap.size (heap.size + 1))) := by
  have next {address : Address} (inside : Region.between heap.size (heap.size + 1) address) : address = heap.next := by
    obtain ⟨index⟩ := address
    have same : index = heap.size := Nat.le_antisymm (Nat.le_of_lt_succ inside.2) inside.1
    rw [same]
    rfl
  refine ⟨by rw [size_allocate]; omega, fun address old _ => read_allocate_of_lt old cell, Region.inside_union_left _ _,
    fun address inside => inside.imp id And.left, ?_, ?_⟩
  · rintro address (inside | inside) <;> rw [size_allocate]
    · exact Nat.lt_succ_of_lt (closed.allocated address inside)
    · exact inside.2
  · rintro address (inside | inside)
    · rw [read_allocate_of_lt (closed.allocated address inside)]
      exact (closed.contents address inside).mono (Region.inside_union_left _ _)
    · rw [next inside, read_allocate_next]
      exact owns.mono (Region.inside_union_left _ _)

/-- A new cell that the region does not take. -/
theorem allocateAside (closed : heap.Closed region) (cell : Cell) : heap.Grows region (heap.allocate cell) region := by
  have size : heap.size ≤ (heap.allocate cell).size := by rw [size_allocate]; omega
  exact ⟨size, fun address old _ => read_allocate_of_lt old cell, .refl _, fun _ inside => .inl inside,
    closed.kept size fun address inside => read_allocate_of_lt (closed.allocated address inside) cell⟩

end Grows

namespace Fresh

theorem refl (heap : Heap) : Fresh heap heap [] :=
  ⟨Nat.le_refl _, fun _ _ => rfl, ⟨fun _ inside => inside.2, fun _ inside => absurd inside.2 (Nat.not_lt.mpr inside.1)⟩,
    nofun⟩

/-- Other values made of the same new cells. -/
theorem holding (fresh : Fresh before after values) (owns : (Region.between before.size after.size).OwnsAll items) :
    Fresh before after items := ⟨fresh.size, fresh.same, fresh.closed, owns⟩

theorem between_inside_left (size : between.size ≤ after.size) :
    (Region.between before.size between.size).Inside (Region.between before.size after.size) :=
  fun _ inside => ⟨inside.1, Nat.lt_of_lt_of_le inside.2 size⟩

/-- New cells that belong to nobody yet. -/
theorem leaves (fresh : Fresh before after values) (closed : before.Closed region) : before.Grows region after region :=
  ⟨fresh.size, fun address old _ => fresh.same address old, .refl _, fun _ inside => .inl inside,
    closed.kept fresh.size fun address inside => fresh.same address (closed.allocated address inside)⟩

/-- New cells that the region takes. -/
theorem joins (fresh : Fresh before after values) (closed : before.Closed region) :
    before.Grows region after (region.union (Region.between before.size after.size)) :=
  ⟨fresh.size, fun address old _ => fresh.same address old, Region.inside_union_left _ _, fun _ inside => inside.imp id And.left,
    (fresh.leaves closed).closed.union fresh.closed⟩

/-- A new cell around new values. -/
theorem allocate (fresh : Fresh before after values) {cell : Cell}
    (owns : (Region.between before.size after.size).OwnsAll cell.contents) :
    Fresh before (after.allocate cell) [.cell after.next] := by
  have grows := Grows.allocate fresh.closed owns
  have same : (Region.between before.size after.size).union (Region.between after.size (after.size + 1)) =
      Region.between before.size (after.allocate cell).size := by
    funext address
    have size := fresh.size
    rw [size_allocate]
    simp only [Region.union, Region.between, eq_iff_iff]
    omega
  rw [same] at grows
  refine ⟨Nat.le_trans fresh.size grows.size, fun address old => ?_, grows.closed, ?_⟩
  · rw [read_allocate_of_lt (Nat.lt_of_lt_of_le old fresh.size), fresh.same address old]
  · rw [size_allocate]
    simpa [Region.between, next] using fresh.size

end Fresh

end Heap

end Reentry
