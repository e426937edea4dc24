import Reentry.Proofs.Equality.Copies

/-!
Keys that nothing else leads into. The cells of a key are sealed if each cell that names one of them is itself a cell of
the key, or the map at the slot of that key. Then whatever way leads to such a cell goes through the slot. In a value
that has just been built all keys are sealed, since each of its cells is named once.
-/

namespace Reentry

namespace Cell

/-- The keys of a map, in the order of its entries. -/
def keys : Cell → List Value
  | .map entries => entries.map (·.key)
  | _ => []

variable {cell : Cell} {value : Value}

theorem mem_contents : value ∈ cell.contents ↔ value ∈ cell.parts ∨ value ∈ cell.keys := by
  cases cell with
  | map entries =>
      simp only [contents, parts, keys, List.mem_flatMap, List.mem_map, List.mem_cons, List.not_mem_nil, or_false]
      grind
  | _ => simp [contents, parts, keys]

/-- In a map keys and what they are bound to take turns. -/
theorem contents_slot (entries : List Entry) (index : Nat) :
    (Cell.map entries).contents[2 * index]? = entries[index]?.map (·.key) ∧
      (Cell.map entries).contents[2 * index + 1]? = entries[index]?.map (·.value) := by
  have half : (2 * index + 1) / 2 = index := by omega
  have odd : (2 * index + 1) % 2 = 1 := by omega
  simp [map_contents_getElem?, half, odd]

theorem part_slot (part : value ∈ cell.parts) :
    ∃ slot, cell.contents[slot]? = some value ∧ ∀ entries, cell = .map entries → ∀ index, slot ≠ 2 * index := by
  cases cell with
  | map entries =>
      obtain ⟨entry, among, rfl⟩ := List.mem_map.mp part
      obtain ⟨index, there⟩ := List.mem_iff_getElem?.mp among
      refine ⟨2 * index + 1, ?_, fun _ _ other => by omega⟩
      rw [(contents_slot entries index).2, there]
      rfl
  | _ =>
      obtain ⟨slot, there⟩ := List.mem_iff_getElem?.mp part
      exact ⟨slot, there, nofun⟩

/-- What is named in a cell is a part of it or the key of an entry. -/
theorem named_slot {slot : Nat} (found : cell.contents[slot]? = some value) :
    (value ∈ cell.parts ∧ ∀ entries, cell = .map entries → ∀ index, slot ≠ 2 * index) ∨
      ∃ entries index entry, cell = .map entries ∧ slot = 2 * index ∧ entries[index]? = some entry ∧ entry.key = value := by
  cases cell with
  | map entries =>
      obtain ⟨key, bound⟩ := contents_slot entries (slot / 2)
      rcases Nat.mod_two_eq_zero_or_one slot with even | odd
      · have same : slot = 2 * (slot / 2) := by omega
        rw [← same, found] at key
        obtain ⟨entry, there, made⟩ := Option.map_eq_some_iff.mp key.symm
        exact .inr ⟨entries, slot / 2, entry, rfl, same, there, made⟩
      · have same : slot = 2 * (slot / 2) + 1 := by omega
        rw [← same, found] at bound
        obtain ⟨entry, there, made⟩ := Option.map_eq_some_iff.mp bound.symm
        refine .inl ⟨List.mem_map.mpr ⟨entry, List.mem_of_getElem? there, made⟩, fun _ _ index => by omega⟩
  | _ => exact .inl ⟨List.mem_of_getElem? found, nofun⟩

end Cell

namespace Heap

variable {heap : Heap} {value : Value} {goal address : Address} {roots held : List Value} {live : Finset Address} {place path : List Nat}

/-- Each cell of a key is named only in the key and at the key's slot, as far as one can get. -/
def Sealed (heap : Heap) (reach : Region) : Prop :=
  ∀ map entries index entry address owner slot, reach map → heap.read map = .map entries → entries[index]? = some entry →
    heap.Leads entry.key address → reach owner → (heap.read owner).contents[slot]? = some (.cell address) →
      heap.Leads entry.key owner ∨ owner = map ∧ slot = 2 * index

/-- All that some values lead to. -/
def reachOf (heap : Heap) (roots : List Value) : Region := fun address => ∃ root ∈ roots, heap.Leads root address

/-- On every way to the cell one comes to that slot of the map. -/
def OnlyThrough (heap : Heap) (roots : List Value) (map : Address) (slot : Nat) (goal : Address) : Prop :=
  ∀ place, heap.at? roots place = some (.cell goal) → ∃ own rest, place = own ++ slot :: rest ∧ heap.at? roots own = some (.cell map)

theorem reachOf_step (reached : heap.reachOf roots address) (member : value ∈ (heap.read address).contents) (leads : heap.Leads value goal) :
    heap.reachOf roots goal := by
  obtain ⟨root, among, leads'⟩ := reached
  exact ⟨root, among, leads'.step member leads⟩

/-- What leads on from there is among it. -/
theorem reachOf_of_owns (owns : (heap.reachOf roots).Owns value) (leads : heap.Leads value address) : heap.reachOf roots address := by
  cases leads with
  | here => exact owns _ rfl
  | inside member leads => exact reachOf_step (owns _ rfl) member leads

theorem closed_reachOf (allocated : ∀ address, heap.reachOf roots address → address.index < heap.size) : heap.Closed (heap.reachOf roots) :=
  ⟨allocated, fun _ reached _ member _ same => reachOf_step reached (same ▸ member) .here⟩

theorem owns_reachOf (heap : Heap) (roots : List Value) : (heap.reachOf roots).OwnsAll roots :=
  fun root among _ same => ⟨root, among, same ▸ .here⟩

/-- What leads on from a region of allocated cells is allocated. -/
theorem Closed.allocated_reachOf {region : Region} (closed : heap.Closed region) (owns : region.OwnsAll roots) (address : Address)
    (reached : heap.reachOf roots address) : address.index < heap.size := by
  obtain ⟨root, member, leads⟩ := reached
  exact closed.allocated address (leads.within closed (owns root member))

/-- A heap in which all cells name allocated cells only. -/
theorem Closed.of_cells (inside : ∀ cell ∈ heap.cells, (Region.between 0 heap.size).OwnsAll cell.contents) :
    heap.Closed (Region.between 0 heap.size) := by
  refine ⟨fun _ allocated => allocated.2, fun address allocated => ?_⟩
  have bound : address.index < heap.cells.size := allocated.2
  have here : heap.read address = heap.cells[address.index] := by simp [read, bound]
  rw [here]
  exact inside _ (Array.getElem_mem bound)

/-- The last step of a way that is none or more. -/
theorem Leads.last (leads : heap.Leads value goal) :
    value = .cell goal ∨ ∃ owner, heap.Leads value owner ∧ .cell goal ∈ (heap.read owner).contents := by
  induction leads with
  | here => exact .inl rfl
  | inside member _ ih =>
      rcases ih with rfl | ⟨owner, leads, named⟩
      · exact .inr ⟨_, .here, member⟩
      · exact .inr ⟨owner, .inside member leads, named⟩

/-- On the way into a region one enters it somewhere. -/
theorem Leads.entering {region : Region} (leads : heap.Leads value goal) (inside : region goal) (outside : ¬region.Owns value) :
    ∃ owner address, heap.Leads value owner ∧ ¬region owner ∧ .cell address ∈ (heap.read owner).contents ∧ region address := by
  induction leads with
  | here => exact absurd (Region.owns_cell.mpr inside) outside
  | @inside owner part _ member leads ih =>
      by_cases entered : region.Owns part
      · obtain ⟨address, rfl⟩ : ∃ address, part = .cell address := by cases leads <;> exact ⟨_, rfl⟩
        exact ⟨owner, address, .here, fun inside => outside (Region.owns_cell.mpr inside), member, Region.owns_cell.mp entered⟩
      · obtain ⟨other, address, leads, rest⟩ := ih inside entered
        exact ⟨other, address, .inside member leads, rest⟩

/-- What lies behind a place is what the value there leads to. -/
theorem leads_of_at?_append (here : heap.at? roots place = some value) (there : heap.at? roots (place ++ path) = some (.cell goal)) :
    heap.Leads value goal := by
  induction path using List.reverseRecOn generalizing goal with
  | nil =>
      rw [List.append_nil, here] at there
      cases there
      exact .here
  | append_singleton path step ih =>
      have somewhere : place ++ path ≠ [] := fun nowhere => by
        rw [(List.append_eq_nil_iff.mp nowhere).1] at here
        cases here
      rw [← List.append_assoc, at?_concat somewhere] at there
      obtain ⟨parent, above, found⟩ := Option.bind_eq_some_iff.mp there
      obtain ⟨owner, rfl, named⟩ := part?_eq_some.mp found
      exact (ih above).step (List.mem_of_getElem? named) .here

theorem reachOf_iff : heap.reachOf roots goal ↔ ∃ place, heap.at? roots place = some (.cell goal) := by
  constructor
  · rintro ⟨root, among, leads⟩
    obtain ⟨index, there⟩ := List.mem_iff_getElem?.mp among
    obtain ⟨path, there⟩ := leads.at?_append ((heap.at?_singleton roots index).trans there)
    exact ⟨_, there⟩
  · rintro ⟨place, there⟩
    cases place with
    | nil => cases there
    | cons index path =>
        cases found : roots[index]? with
        | none => simp [at?, found] at there
        | some root => exact ⟨root, List.mem_of_getElem? found, leads_of_at?_append ((heap.at?_singleton roots index).trans found) there⟩

section

variable {map : Address} {entries : List Entry} {index : Nat} {entry : Entry}

/-- Sealed cells are reached only through the slot of their key, if no root is among them. -/
theorem Sealed.onlyThrough (sealed_ : heap.Sealed (heap.reachOf roots)) (reached : heap.reachOf roots map) (holds : heap.read map = .map entries)
    (there : entries[index]? = some entry) (free : ∀ address, .cell address ∈ roots → ¬heap.Leads entry.key address)
    (leads : heap.Leads entry.key goal) : heap.OnlyThrough roots map (2 * index) goal := by
  intro place
  induction place using List.reverseRecOn generalizing goal with
  | nil => exact nofun
  | append_singleton place step ih =>
      intro here
      by_cases somewhere : place = []
      · subst somewhere
        rw [List.nil_append, at?_singleton] at here
        exact absurd leads (free goal (List.mem_of_getElem? here))
      · rw [at?_concat somewhere] at here
        obtain ⟨parent, above, found⟩ := Option.bind_eq_some_iff.mp here
        obtain ⟨owner, rfl, named⟩ := part?_eq_some.mp found
        rcases sealed_ map entries index entry goal owner step reached holds there leads (reachOf_iff.mpr ⟨place, above⟩) named with further | ⟨rfl, rfl⟩
        · obtain ⟨own, rest, rfl, at_map⟩ := ih further above
          exact ⟨own, rest ++ [step], by simp, at_map⟩
        · exact ⟨place, [], rfl, above⟩

/-- The key is at its slot. -/
theorem at?_key (holds : heap.read map = .map entries) (there : entries[index]? = some entry) (above : heap.at? roots place = some (.cell map)) :
    heap.at? roots (place ++ [2 * index]) = some entry.key := by
  have somewhere : place ≠ [] := fun nowhere => by
    rw [nowhere] at above
    cases above
  rw [at?_concat somewhere, above]
  exact part?_eq_some.mpr ⟨map, rfl, by rw [holds, (Cell.contents_slot entries index).1, there]; rfl⟩

/-- Cells that are reached only through the slots of their keys are sealed. -/
theorem sealed_of_onlyThrough (only : ∀ map entries index entry address, heap.reachOf roots map → heap.read map = .map entries →
    entries[index]? = some entry → heap.Leads entry.key address → heap.OnlyThrough roots map (2 * index) address) : heap.Sealed (heap.reachOf roots) := by
  intro map entries index entry address owner slot reached holds there leads reached' named
  obtain ⟨place, at_owner⟩ := reachOf_iff.mp reached'
  have somewhere : place ≠ [] := fun nowhere => by
    rw [nowhere] at at_owner
    cases at_owner
  have here : heap.at? roots (place ++ [slot]) = some (.cell address) := by
    rw [at?_concat somewhere, at_owner]
    exact part?_eq_some.mpr ⟨owner, rfl, named⟩
  obtain ⟨own, rest, same, at_map⟩ := only map entries index entry address reached holds there leads _ here
  obtain rfl | ⟨rest, last, rfl⟩ := List.eq_nil_or_concat' rest
  · obtain ⟨rfl, slots⟩ := List.append_inj' same rfl
    rw [at_map] at at_owner
    cases at_owner
    exact .inr ⟨rfl, (List.cons.inj slots).1⟩
  · rw [← List.cons_append, ← List.append_assoc] at same
    obtain ⟨rfl, _⟩ := List.append_inj' same rfl
    have behind : heap.at? roots (own ++ [2 * index] ++ rest) = some (.cell owner) := by
      rw [List.append_assoc]
      exact at_owner
    exact .inl (leads_of_at?_append (at?_key holds there at_map) behind)

theorem OnlyThrough.not_root (only : heap.OnlyThrough roots map (2 * index) goal) : .cell goal ∉ roots := by
  intro among
  obtain ⟨root, there⟩ := List.mem_iff_getElem?.mp among
  obtain ⟨own, rest, same, at_map⟩ := only [root] ((heap.at?_singleton roots root).trans there)
  cases own with
  | nil => cases at_map
  | cons first own => simp at same

end

namespace Tended

theorem mem_of_reachOf (tended : heap.Tended live held) (reached : heap.reachOf held goal) : goal ∈ live := by
  obtain ⟨place, there⟩ := reachOf_iff.mp reached
  exact tended.mem_of_at? there

/-- Where each cell is named once, all keys are sealed. -/
theorem sealed_ (tended : heap.Tended live held) : heap.Sealed (heap.reachOf held) := by
  intro map entries index entry address owner slot reached holds there leads reached' named
  have at_slot : (heap.read map).contents[2 * index]? = some entry.key := by
    rw [holds, (Cell.contents_slot entries index).1, there]
    rfl
  have only {other : Address} (inside : other ∈ live) (named' : .cell address ∈ (heap.read other).contents) : owner = other :=
    (tended.once_inside inside named').2.2 owner (tended.mem_of_reachOf reached') (List.mem_of_getElem? named)
  rcases leads.last with key | ⟨other, leads, named'⟩
  · rw [key] at at_slot
    obtain rfl := only (tended.mem_of_reachOf reached) (List.mem_of_getElem? at_slot)
    have once := (tended.once_inside (tended.mem_of_reachOf reached) (List.mem_of_getElem? named)).2.1
    exact .inr ⟨rfl, position_eq (Nat.le_of_eq once) named at_slot⟩
  · obtain rfl := only (tended.mem_of_reachOf (reachOf_step reached (List.mem_of_getElem? at_slot) leads)) named'
    exact .inl leads

/-- And no value in hand is part of a key. -/
theorem not_in_key {map : Address} {entries : List Entry} {entry : Entry} (tended : heap.Tended live held) (reached : heap.reachOf held map)
    (holds : heap.read map = .map entries) (among : entry ∈ entries) (root : .cell goal ∈ held) : ¬heap.Leads entry.key goal := by
  intro leads
  have member : entry.key ∈ (heap.read map).contents := by
    rw [holds]
    exact List.mem_flatMap.mpr ⟨entry, among, by simp⟩
  obtain ⟨owner, inside, named⟩ : ∃ owner ∈ live, .cell goal ∈ (heap.read owner).contents := by
    rcases leads.last with key | ⟨owner, leads, named⟩
    · exact ⟨map, tended.mem_of_reachOf reached, key ▸ member⟩
    · exact ⟨owner, tended.mem_of_reachOf (reachOf_step reached member leads), named⟩
  have unnamed := (tended.once_inside inside named).1
  have positive : 0 < held.count (.cell goal) := List.count_pos_iff.mpr root
  omega

end Tended

end Heap

end Reentry
