import Reentry.Proofs.Forest.Copies
import Reentry.Proofs.Twins.Run

/-!
Copies of copies. A deep copy consists of new cells of which each is named once and whose maps are as if their bindings
had just been made. A copy of it is built of the same cells once more, so the two are twins.
-/

namespace Reentry

section

variable {α β : Type} {find : α → Option β} {items : List α}

theorem mapM_eq_some {results : List β} (found : items.mapM find = some results) :
    List.Forall₂ (fun item result => find item = some result) items results := by
  induction items generalizing results with
  | nil =>
      cases found
      exact .nil
  | cons item rest ih =>
      simp only [List.mapM_cons, Option.bind_eq_bind, Option.bind_eq_some_iff] at found
      obtain ⟨first, found, others, found', made⟩ := found
      cases made
      exact .cons found (ih found')

theorem exists_mapM (each : ∀ item ∈ items, ∃ result, find item = some result) : ∃ results, items.mapM find = some results := by
  induction items with
  | nil => exact ⟨[], rfl⟩
  | cons item rest ih =>
      obtain ⟨first, others⟩ := List.forall_mem_cons.mp each
      obtain ⟨result, found⟩ := first
      obtain ⟨results, found'⟩ := ih others
      exact ⟨result :: results, by simp [found, found']⟩

end

namespace Heap

/-- Entries as they are when their bindings have been made one after the other and no key has changed since. -/
def Tidy (heap : Heap) (entries : List Entry) : Prop :=
  ∀ index entry, entries[index]? = some entry →
    entry.imprint = heap.fingerprint entry.key ∧ heap.boundIndex? entry.key (entries.take index) = none

namespace Tidy

variable {pairs : Pairing} {heap other later : Heap} {entries others : List Entry}

theorem nil (heap : Heap) : heap.Tidy [] := nofun

/-- Only the keys and their fingerprints matter. -/
theorem alike (tidy : heap.Tidy entries)
    (same : List.Forall₂ (fun (left right : Entry) => left.key = right.key ∧ left.imprint = right.imprint) entries others) :
    heap.Tidy others := by
  intro index entry found
  have items := getElem?_twin same index
  rw [found] at items
  generalize here : entries[index]? = one at items
  cases items with
  | @some first _ alike =>
      obtain ⟨imprint, bound⟩ := tidy index first here
      rw [alike.1, alike.2] at imprint
      refine ⟨imprint, ?_⟩
      rw [← bound, alike.1]
      exact (findIdx?_twin (List.forall₂_take index same) fun entry => by rw [entry.1, entry.2]).symm

/-- One more binding. -/
theorem bind (tidy : heap.Tidy entries) (key value : Value) : heap.Tidy (heap.bind key value entries).1 := by
  unfold Heap.bind
  cases place : heap.boundIndex? key entries with
  | some index =>
      refine tidy.alike ?_
      have same := @modify_twin Entry Entry (fun left right => left.key = right.key ∧ left.imprint = right.imprint) entries entries
        id ({ · with value }) (List.forall₂_same.mpr fun _ _ => ⟨rfl, rfl⟩) index id
      rwa [List.modify_id] at same
  | none =>
      intro index entry found
      rcases Nat.lt_or_ge index entries.length with old | new
      · rw [List.getElem?_append_left old] at found
        rw [List.take_append_of_le_length (Nat.le_of_lt old)]
        exact tidy index entry found
      · have bound := (List.getElem?_eq_some_iff.mp found).1
        rw [List.length_append, List.length_singleton] at bound
        obtain rfl : index = entries.length := by omega
        rw [List.getElem?_concat_length] at found
        cases found
        rw [List.take_left]
        exact ⟨rfl, place⟩

/-- The entries of a new map. -/
theorem bindings (bindings : List (Value × Value)) (tidy : heap.Tidy entries) :
    heap.Tidy (bindings.foldl (fun entries binding => (heap.bind binding.1 binding.2 entries).1) entries) := by
  induction bindings generalizing entries with
  | nil => exact tidy
  | cons binding rest ih => exact ih (tidy.bind binding.1 binding.2)

theorem twin (tidy : heap.Tidy entries) (heaps : heap.Twin pairs other) (twins : List.Forall₂ (Entry.Twin pairs) entries others) :
    other.Tidy others := by
  intro index entry found
  have items := getElem?_twin twins index
  rw [found] at items
  generalize here : entries[index]? = one at items
  cases items with
  | @some first _ alike =>
      obtain ⟨imprint, bound⟩ := tidy index first here
      rw [alike.imprint, heaps.fingerprint alike.key] at imprint
      rw [heaps.boundIndex? alike.key (List.forall₂_take index twins)] at bound
      exact ⟨imprint, bound⟩

/-- New cells change nothing about it. -/
theorem grown (tidy : heap.Tidy entries) {region : Region} (closed : heap.Closed region) (owns : region.OwnsAll (Cell.map entries).contents)
    (grows : heap.Extends later) : later.Tidy entries := by
  cases Cell.Twin.same owns with
  | map twins => exact tidy.twin ((Heap.Twin.same closed).extendRight grows) twins

/-- When tidy entries are bound once more, they come out as they were. -/
theorem rebind (tidy : heap.Tidy entries) (heaps : heap.Twin pairs other) {bindings : List (Value × Value)}
    (twins : List.Forall₂ (fun entry binding => entry.key.Twin pairs binding.1 ∧ entry.value.Twin pairs binding.2) entries bindings) :
    List.Forall₂ (Entry.Twin pairs) entries
      (bindings.foldl (fun entries binding => (other.bind binding.1 binding.2 entries).1) []) := by
  -- the entries that are bound already are twins of the first ones, so that the next key is new on either side
  have step (done todo : List Entry) (bindings : List (Value × Value)) (bound : List Entry) (whole : entries = done ++ todo)
      (dones : List.Forall₂ (Entry.Twin pairs) done bound)
      (twins : List.Forall₂ (fun entry binding => entry.key.Twin pairs binding.1 ∧ entry.value.Twin pairs binding.2) todo bindings) :
      List.Forall₂ (Entry.Twin pairs) entries
        (bindings.foldl (fun entries binding => (other.bind binding.1 binding.2 entries).1) bound) := by
    induction twins generalizing done bound with
    | nil =>
        rw [whole, List.append_nil]
        exact dones
    | @cons entry binding todo bindings first _ ih =>
        have here : entries[done.length]? = some entry := by
          rw [whole, List.getElem?_append_right (Nat.le_refl _), Nat.sub_self]
          rfl
        obtain ⟨imprint, new⟩ := tidy done.length entry here
        rw [whole, List.take_left, heaps.boundIndex? first.1 dones] at new
        refine ih (done ++ [entry]) _ (by rw [whole, List.append_assoc]; rfl) ?_
        simp only [Heap.bind, new]
        refine append_twin dones (.cons ⟨first.1, ?_, first.2⟩ .nil)
        rw [imprint, heaps.fingerprint first.1]
  exact step [] entries bindings [] rfl .nil twins

end Tidy

/-- All maps among the cells are tidy. -/
def Neat (heap : Heap) (live : Finset Address) : Prop :=
  ∀ address ∈ live, ∀ entries, heap.read address = .map entries → heap.Tidy entries

variable {heap other later : Heap} {live : Finset Address} {held : List Value} {value : Value}

theorem Tended.closed (tended : heap.Tended live held) : heap.Closed (· ∈ live) :=
  ⟨tended.allocated, fun _ inside _ member _ same => tended.mem_of_inside inside (same ▸ member)⟩

theorem Tended.owns (tended : heap.Tended live held) : Region.OwnsAll (· ∈ live) held :=
  fun _ member _ same => tended.mem_of_mem (same ▸ member)

theorem Neat.grown (neat : heap.Neat live) (tended : heap.Tended live held) (grows : heap.Extends later) : later.Neat live := by
  intro address inside entries found
  rw [grows.same address (tended.allocated address inside)] at found
  have owns := tended.closed.contents address inside
  rw [found] at owns
  exact (neat address inside entries found).grown tended.closed owns grows

/-- The values in hand lead to cells that were made in due order, none of them before the first one. -/
def Nursery (first : Nat) (heap : Heap) (held : List Value) : Prop :=
  first ≤ heap.size ∧ ∃ live, heap.Tended live held ∧ heap.Neat live ∧ ∀ address ∈ live, first ≤ address.index

theorem Nursery.nil (heap : Heap) : Nursery heap.size heap [] :=
  ⟨Nat.le_refl _, ∅, ⟨nofun, by simp [named]⟩, nofun, nofun⟩

theorem Nursery.allocate {first : Nat} {cell : Cell} (nursery : Nursery first heap (cell.contents ++ held))
    (tidy : ∀ entries, cell = .map entries → heap.Tidy entries) : Nursery first (heap.allocate cell) (.cell heap.next :: held) := by
  obtain ⟨size, live, tended, neat, new⟩ := nursery
  refine ⟨?_, _, tended.allocate, fun address inside entries found => ?_, fun address inside => ?_⟩
  · rw [size_allocate]
    exact Nat.le_succ_of_le size
  · rcases Finset.mem_insert.mp inside with rfl | old
    · rw [read_allocate_next] at found
      subst found
      exact (tidy entries rfl).grown tended.closed (Region.ownsAll_append.mp tended.owns).1 (.allocate heap _)
    · exact neat.grown tended (.allocate heap cell) address old entries found
  · rcases Finset.mem_insert.mp inside with rfl | old
    · exact size
    · exact new address old

theorem Nursery.sows (first : Nat) : Sows (Nursery first) where
  mono := by
    rintro heap held fewer ⟨size, live, tended, neat, new⟩ less
    exact ⟨size, live, tended.mono less, neat, new⟩
  new kept plain := kept.allocate fun entries same => absurd same (plain entries)
  newMap {heap held bindings} kept := by
    obtain ⟨size, live, tended, neat, new⟩ := kept
    have less := heap.bindings_fewer bindings []
    rw [show (Cell.map []).contents = [] from rfl, List.append_nil] at less
    refine Nursery.allocate ⟨size, live, tended.mono (less.append (.refl held)), neat, new⟩ fun entries same => ?_
    cases same
    exact (Tidy.nil heap).bindings bindings

/-- If all that a cell holds has a tree, so has the cell. -/
theorem exists_treeWithin?_cell {levels : Nat} {address : Address}
    (parts : ∀ part ∈ (heap.read address).contents, ∃ tree, heap.treeWithin? levels part = some tree) :
    ∃ tree, heap.treeWithin? (levels + 1) (.cell address) = some tree := by
  unfold treeWithin?
  cases cell : heap.read address with
  | tuple items | seq items =>
      rw [cell] at parts
      obtain ⟨trees, found⟩ := exists_mapM parts
      exact ⟨_, congrArg (Option.map _) found⟩
  | named fields =>
      rw [cell] at parts
      obtain ⟨trees, found⟩ := @exists_mapM _ _ (fun field => (heap.treeWithin? levels field.2).map (field.1, ·)) fields
        fun field member => by
          obtain ⟨tree, found⟩ := parts field.2 (List.mem_map_of_mem member)
          exact ⟨(field.1, tree), congrArg (Option.map _) found⟩
      exact ⟨_, congrArg (Option.map _) found⟩
  | map entries =>
      rw [cell] at parts
      obtain ⟨trees, found⟩ := @exists_mapM _ _
        (fun (entry : Entry) => do pure (← heap.treeWithin? levels entry.key, ← heap.treeWithin? levels entry.value)) entries
        fun entry member => by
          obtain ⟨key, found⟩ := parts entry.key (List.mem_flatMap.mpr ⟨entry, member, by simp⟩)
          obtain ⟨value, found'⟩ := parts entry.value (List.mem_flatMap.mpr ⟨entry, member, by simp⟩)
          exact ⟨(key, value), by simp [found, found']⟩
      exact ⟨_, congrArg (Option.map _) found⟩

/-- Trees of the values that a value in hand is made of have an end. -/
theorem Tended.tree {levels : Nat} (tended : heap.Tended live (value :: held)) (deep : live.card ≤ levels) :
    ∃ tree, heap.treeWithin? levels value = some tree := by
  induction levels generalizing live held value with
  | zero =>
      cases value with
      | cell address => exact absurd (tended.mem_of_mem List.mem_cons_self) (by simp [Finset.card_eq_zero.mp (Nat.le_zero.mp deep)])
      | _ => exact ⟨_, rfl⟩
  | succ levels ih =>
      cases value with
      | cell address =>
          have inside := tended.mem_of_mem List.mem_cons_self
          refine exists_treeWithin?_cell fun part member => ?_
          have alone : heap.Tended (live.erase address) (part :: held) :=
            tended.unpack.mono (.append (.of_sublist (List.singleton_sublist.mpr member)) (.refl held))
          exact ih alone (by rw [Finset.card_erase_of_mem inside]; omega)
      | _ => exact ⟨_, rfl⟩

/-- A heap and another one that is to hold the same once more: what the values in hand lead to is not paired yet. -/
structure Mirrored (heap other : Heap) (pairs : Pairing) (live : Finset Address) (held : List Value) : Prop where
  twin : heap.Twin pairs other
  tended : heap.Tended live held
  neat : heap.Neat live
  alone : ∀ address ∈ live, ∀ partner, ¬pairs address partner

end Heap

/-- Work on the other heap that makes twins of some of the values in hand, and pairs the cells that they lead to. -/
def Alloc.Mirrors {α : Type} (heap : Heap) (spent : List Value) (work : Alloc α) (like : Pairing → α → Prop) : Prop :=
  ∀ pairs live rest other, heap.Mirrored other pairs live (spent ++ rest) → ∃ more left, pairs.Within more ∧ left ⊆ live ∧
    (∀ address partner, more address partner → pairs address partner ∨ address ∈ live) ∧
    heap.Mirrored (work.run other).2 more left rest ∧ like more (work.run other).1

namespace Alloc.Mirrors

variable {α β : Type} {heap : Heap} {spent kept : List Value} {work : Alloc α} {like : Pairing → α → Prop} {later : Pairing → β → Prop}

theorem pure {result : α} (twin : ∀ pairs, like pairs result) : Mirrors heap spent (Pure.pure result) like :=
  fun pairs live rest _ mirrored => ⟨pairs, live, .refl _, Finset.Subset.refl _, fun _ _ => .inl,
    { mirrored with tended := mirrored.tended.mono (.append (.nil spent) (.refl rest)) }, twin pairs⟩

theorem bind {rest : α → Alloc β} (first : Mirrors heap spent work like)
    (mono : ∀ {pairs more result}, like pairs result → pairs.Within more → like more result)
    (next : ∀ result, Mirrors heap kept (rest result) fun pairs final => like pairs result → later pairs final) :
    Mirrors heap (spent ++ kept) (work >>= rest) later := by
  intro pairs live others other mirrored
  rw [List.append_assoc] at mirrored
  obtain ⟨more, left, within, fewer, source, mirrored, twin⟩ := first pairs live _ other mirrored
  obtain ⟨most, last, within', fewer', source', mirrored, made⟩ := next _ more left others _ mirrored
  refine ⟨most, last, within.trans within', fewer'.trans fewer, fun address partner paired => ?_, mirrored, made (mono twin within')⟩
  rcases source' address partner paired with paired | inside
  · exact source address partner paired
  · exact .inr (fewer inside)

theorem map {change : α → β} (first : Mirrors heap spent work like)
    (next : ∀ {pairs result}, like pairs result → later pairs (change result)) :
    Mirrors heap spent (do Pure.pure (change (← work))) later := by
  intro pairs live others other mirrored
  obtain ⟨more, left, within, fewer, source, mirrored, twin⟩ := first pairs live others other mirrored
  exact ⟨more, left, within, fewer, source, mirrored, next twin⟩

/-- A cell in hand is taken apart, and when the twins of its contents are made, a new cell is made around them. -/
theorem cell {address : Address} {own : Cell} {make : α → Alloc Value} (holds : heap.read address = own)
    (inside : Mirrors heap own.contents work like)
    (makes : ∀ {pairs other result}, heap.Twin pairs other → (∀ entries, own = .map entries → heap.Tidy entries) → like pairs result →
      ∃ cell, own.Twin pairs cell ∧ (make result).run other = (.cell other.next, other.allocate cell)) :
    Mirrors heap [.cell address] (work >>= make) fun pairs value => (Value.cell address).Twin pairs value := by
  subst holds
  intro pairs live others other mirrored
  have own : address ∈ live := mirrored.tended.mem_of_mem List.mem_cons_self
  obtain ⟨more, left, within, fewer, source, after, twin⟩ := inside pairs (live.erase address) others other
    ⟨mirrored.twin, mirrored.tended.unpack, fun owner member => mirrored.neat owner (Finset.mem_of_mem_erase member),
      fun owner member => mirrored.alone owner (Finset.mem_of_mem_erase member)⟩
  obtain ⟨cell, cells, made⟩ := makes after.twin (mirrored.neat address own) twin
  have alone (partner : Address) : ¬more address partner := fun paired =>
    (source address partner paired).elim (mirrored.alone address own partner) (Finset.notMem_erase address live)
  rw [StateT.run_bind]
  change ∃ more left, _ ∧ _ ∧ _ ∧ heap.Mirrored ((make (work.run other).1).run (work.run other).2).2 _ _ _ ∧
    (Value.cell address).Twin _ ((make (work.run other).1).run (work.run other).2).1
  rw [made]
  refine ⟨_, left, within.trans (more.within_insert address _), fewer.trans (Finset.erase_subset address live), ?_, ?_,
    .cell (.inr ⟨rfl, rfl⟩)⟩
  · rintro owner partner (paired | ⟨rfl, _⟩)
    · exact (source owner partner paired).imp_right Finset.mem_of_mem_erase
    · exact .inr own
  · refine ⟨after.twin.adopt (mirrored.tended.allocated address own) alone cells, after.tended, after.neat, fun owner member partner => ?_⟩
    rintro (paired | ⟨rfl, _⟩)
    · exact after.alone owner member partner paired
    · exact Finset.notMem_erase owner live (fewer member)

theorem items {items : List Value} {trees : List Tree}
    (each : List.Forall₂ (fun item tree => Mirrors heap [item] tree.build fun pairs => item.Twin pairs) items trees) :
    Mirrors heap items (Tree.buildItems trees) fun pairs => Twins pairs items := by
  induction each with
  | nil => exact pure fun _ => .nil
  | cons first _ ih => exact first.bind .mono fun _ => ih.map fun others twin => .cons twin others

theorem fields {fields : List (String × Value)} {trees : List (String × Tree)}
    (each : List.Forall₂ (fun field tree => field.1 = tree.1 ∧ Mirrors heap [field.2] tree.2.build fun pairs => field.2.Twin pairs) fields trees) :
    Mirrors heap (fields.map (·.2)) (Tree.buildFields trees) fun pairs => List.Forall₂ (FieldTwin pairs) fields := by
  induction each with
  | nil => exact pure fun _ => .nil
  | cons first _ ih => exact first.2.bind .mono fun _ => ih.map fun others twin => .cons ⟨first.1, twin⟩ others

theorem entries {entries : List Entry} {trees : List (Tree × Tree)}
    (each : List.Forall₂ (fun (entry : Entry) tree => (Mirrors heap [entry.key] tree.1.build fun pairs => entry.key.Twin pairs) ∧
      Mirrors heap [entry.value] tree.2.build fun pairs => entry.value.Twin pairs) entries trees) :
    Mirrors heap (entries.flatMap fun entry => [entry.key, entry.value]) (Tree.buildEntries trees) fun pairs =>
      List.Forall₂ (fun entry binding => entry.key.Twin pairs binding.1 ∧ entry.value.Twin pairs binding.2) entries := by
  induction each with
  | nil => exact pure fun _ => .nil
  | cons first _ ih =>
      exact first.1.bind .mono fun _ => first.2.bind .mono fun _ => ih.map fun others value key => .cons ⟨key, value⟩ others

/-- Building the tree of a value makes a twin of it. -/
theorem build : ∀ {levels : Nat} {value : Value} {tree : Tree}, heap.treeWithin? levels value = some tree →
    Mirrors heap [value] tree.build fun pairs => value.Twin pairs
  | levels, .null, tree, found | levels, .bool _, tree, found | levels, .int _, tree, found | levels, .event _, tree, found
  | levels, .halt, tree, found | levels, .machine _, tree, found => by
      cases levels <;> cases found <;> exact pure fun _ => .scalar (by simp)
  | levels + 1, .cell address, tree, found => by
      simp only [Heap.treeWithin?] at found
      cases holds : heap.read address with
      | tuple values | seq values =>
          simp only [holds, Option.map_eq_some_iff] at found
          obtain ⟨trees, found, rfl⟩ := found
          have inside := items ((mapM_eq_some found).imp fun _ _ found => build found)
          exact cell holds inside fun _ _ twins => ⟨_, by first | exact .tuple twins | exact .seq twins, rfl⟩
      | named values =>
          simp only [holds, Option.map_eq_some_iff] at found
          obtain ⟨trees, found, rfl⟩ := found
          have inside := fields ((mapM_eq_some found).imp fun field tree found => by
            obtain ⟨_, read, rfl⟩ := Option.map_eq_some_iff.mp found
            exact ⟨rfl, build read⟩)
          exact cell holds inside fun _ _ twins => ⟨_, .named twins, rfl⟩
      | map values =>
          simp only [holds, Option.map_eq_some_iff] at found
          obtain ⟨trees, found, rfl⟩ := found
          have inside := entries ((mapM_eq_some found).imp fun entry tree found => by
            simp only [Option.bind_eq_bind, Option.bind_eq_some_iff] at found
            obtain ⟨key, read, value, read', made⟩ := found
            cases made
            exact ⟨build read, build read'⟩)
          exact cell holds inside fun heaps tidy twins => ⟨_, .map ((tidy values rfl).rebind heaps twins), rfl⟩

end Alloc.Mirrors

/-- A copy that has just been made and a copy of it are twins, and so are the heaps with either of them. What was paired
before stays paired. -/
theorem Heap.Twin.recopy {pairs : Pairing} {heap after : Heap} {source copy : Value} (twin : heap.Twin pairs heap)
    (made : source.deepCopy.run heap = (copy, after)) :
    ∃ more, pairs.Within more ∧ after.Twin more (copy.deepCopy.run after).2 ∧ copy.Twin more (copy.deepCopy.run after).1 := by
  have grows : heap.Extends after := by
    have fresh : heap.Fresh (source.deepCopy.run heap).2 _ := (Alloc.Makes.deepCopy [] source).fresh
    rw [made] at fresh
    exact ⟨fresh.size, fresh.same⟩
  have grown : Heap.Nursery heap.size after [copy] := by
    have built := Tree.build_sown (Heap.Nursery.sows heap.size) (heap.tree source) heap [] (Heap.Nursery.nil heap)
    have run : (heap.tree source).build.run heap = (copy, after) := made
    rw [run] at built
    exact built
  obtain ⟨_, live, tended, neat, new⟩ := grown
  obtain ⟨tree, found⟩ := tended.tree (Nat.le_max_left live.card (after.size + 1))
  have whole : after.tree copy = tree := by
    rw [Heap.treeWithin?_enough (Nat.lt_of_succ_le (Nat.le_max_right live.card (after.size + 1)))] at found
    rw [Heap.tree, found]
    rfl
  have twins : after.Twin pairs after := (twin.extendLeft grows).extendRight grows
  have alone : ∀ address ∈ live, ∀ partner, ¬pairs address partner := fun address inside partner paired =>
    absurd (twin.allocated paired).1 (Nat.not_lt.mpr (new address inside))
  obtain ⟨more, _, within, _, _, mirrored, copied⟩ := Alloc.Mirrors.build found pairs live [] after ⟨twins, tended, neat, alone⟩
  have again : copy.deepCopy.run after = tree.build.run after := by
    rw [← whole]
    rfl
  rw [again]
  exact ⟨more, within, mirrored.twin, copied⟩

end Reentry
