import Mathlib.Data.List.InsertIdx
import Reentry.Proofs.Keys.Turns
import Reentry.Proofs.Stewardship.Stage

/-!
Operations on values leave keys frozen. What they hand out is a shown value or one that has just been built; what they
store goes into shown cells; and the key of a new entry is a copy that nobody else gets.
-/

namespace Reentry

namespace Alloc

variable {α β : Type} {heap : Heap} {work : Alloc α} {values : α → List Value}

/-- The work only adds cells. The values that it gives are made of these, and their keys are guarded. -/
def Sprouts (work : Alloc α) (values : α → List Value) : Prop :=
  ∀ heap, heap.Extends (work.run heap).2 ∧ (work.run heap).2.Guarded (values (work.run heap).1) ∧
    ∀ address, (work.run heap).2.reachOf (values (work.run heap).1) address → heap.size ≤ address.index

/-- It is enough that each cell is named once, that all are new, and that the values are solid. -/
theorem Sprouts.of (plants : Plants [] work values) (makes : ∀ heap, Makes heap [] work values)
    (puts : ∀ heap, Puts heap work fun after result => ∀ value ∈ values result, after.Solid value) : Sprouts work values := by
  intro heap
  have fresh := (makes heap).fresh
  obtain ⟨grows, solid⟩ := puts heap
  have grove := plants Heap.tends_grove heap [] (.nil heap)
  rw [List.append_nil] at grove
  obtain ⟨live, tended⟩ := grove
  have inner {map : Address} {entries : List Entry} {entry : Entry} (reached : (work.run heap).2.reachOf (values (work.run heap).1) map)
      (holds : (work.run heap).2.read map = .map entries) (among : entry ∈ entries) : (work.run heap).2.Solid entry.key := by
    obtain ⟨root, member, leads⟩ := reached
    exact (solid root member).inner leads (by rw [holds]; exact List.mem_flatMap.mpr ⟨entry, among, by simp⟩)
  refine ⟨grows, ⟨?_, tended.sealed_, ?_, fun map entries entry reached holds among => inner reached holds among, ?_⟩, ?_⟩
  · rintro address ⟨root, member, leads⟩
    exact (solid root member).allocated address leads
  · exact fun map entries entry address reached holds among root => tended.not_in_key reached holds among root
  · rintro map entries ⟨root, member, leads⟩ holds
    exact (solid root member).sound map leads entries holds
  · rintro address ⟨root, member, leads⟩
    exact (leads.within fresh.closed (fresh.owns root member)).1

theorem Sprouts.build (tree : Tree) : Sprouts tree.build fun value => [value] :=
  .of tree.build_plants (fun _ => Tree.build_makes [] tree) fun heap => (tree.build_puts heap).weaken fun _ _ _ depicts => by
    simpa using depicts.solid

theorem Sprouts.deepCopy (value : Value) : Sprouts value.deepCopy fun copy => [copy] :=
  .of (.deepCopy value) (fun _ => .deepCopy [] value) fun heap => (heap.deepCopy_puts value).weaken fun _ _ _ depicts => by
    simpa using depicts.solid

/-- A new seq of copies. -/
theorem Sprouts.copies (parts : List β) (part : β → Value) :
    Sprouts (do Cell.new (.seq (← parts.mapM fun item => (part item).deepCopy))) fun value => [value] := by
  refine .of ?_ (fun heap => ?_) fun heap => ?_
  · exact (Plants.each (fun item => .deepCopy (part item)) parts).next fun _ => .new (.seq _)
  · exact (Makes.each (fun held item => .deepCopy held (part item)) [] parts).bind fun _ => .new (by simp [Cell.contents]) (by simp)
  · have copied : Puts heap (parts.mapM fun item => (part item).deepCopy) fun after => List.Forall₂ (fun _ copy => after.Solid copy) parts :=
      @Puts.mapM _ _ _ (fun _ _ => True) (fun heap _ copy => heap.Solid copy) parts (fun _ _ => trivial) Heap.Solid.extends
        (fun heap item _ => (heap.deepCopy_puts (part item)).weaken fun _ _ _ depicts => depicts.solid) heap fun _ _ => trivial
    refine copied.bind fun values after _ solid => .new _ ?_
    simp only [List.mem_singleton, forall_eq]
    refine .cell (after.next_lt_size _) (fun value member => ?_) fun entries found => ?_
    · rw [Heap.read_allocate_next] at member
      obtain ⟨_, _, solid⟩ := exists_of_forall₂ solid.flip member
      exact solid.extends (.allocate after _)
    · rw [Heap.read_allocate_next] at found
      cases found

end Alloc

open Heap

variable {heap : Heap} {shown : Region}

namespace Heap.Frozen

/-- What is made of new cells becomes shown. -/
theorem sprout {α : Type} {work : Alloc α} {values : α → List Value} (frozen : heap.Frozen shown) (sprouts : Alloc.Sprouts work values) :
    ∃ more, heap.Turns shown (work.run heap).2 more ∧ (work.run heap).2.Frozen more ∧ more.OwnsAll (values (work.run heap).1) := by
  obtain ⟨grows, guarded, new⟩ := sprouts heap
  obtain ⟨turns, kept⟩ := frozen.join grows guarded new
  exact ⟨_, turns, kept, fun value member address same => .inr (.root (same ▸ member))⟩

/-- A new cell around shown values. -/
theorem allocate (frozen : heap.Frozen shown) {cell : Cell} (plain : ∀ entries, cell ≠ .map entries) (owns : shown.OwnsAll cell.parts) :
    ∃ more, heap.Turns shown (heap.allocate cell) more ∧ (heap.allocate cell).Frozen more ∧ more.Owns (.cell heap.next) := by
  have inside : shown.Inside fun address => shown address ∨ address = heap.next := fun _ => .inl
  have same (address : Address) (old : shown address) : (heap.allocate cell).read address = heap.read address :=
    read_allocate_of_lt (frozen.allocated address old) cell
  have new : (heap.allocate cell).read heap.next = cell := heap.read_allocate_next cell
  have keys : cell.keys = [] := by
    cases cell with
    | map entries => exact absurd rfl (plain entries)
    | _ => rfl
  have turns : heap.Turns shown (heap.allocate cell) fun address => shown address ∨ address = heap.next := by
    refine ⟨by rw [size_allocate]; exact Nat.le_succ _, fun address old _ => read_allocate_of_lt old cell, inside, ?_, fun address old => ?_⟩
    · rintro address (old | rfl)
      · exact .inl old
      · exact .inr (Nat.le_refl _)
    · rw [same address old]
      exact .refl _
  refine ⟨_, turns, frozen.turn turns ?_ ?_ ?_ ?_ ?_, Region.owns_cell.mpr (.inr rfl)⟩
  · rintro address (old | rfl)
    · exact Nat.lt_of_lt_of_le (frozen.allocated address old) turns.size
    · exact heap.next_lt_size cell
  · rintro address (old | rfl)
    · rw [same address old]
      exact (frozen.parts address old).mono inside
    · rw [new]
      exact owns.mono inside
  · rintro owner (old | rfl) key member
    · exact .inl ⟨old, same owner old ▸ member⟩
    · rw [new, keys] at member
      cases member
  · rintro address entries (old | rfl) holds
    · exact frozen.fair_same turns old (same address old ▸ holds)
    · exact absurd (new.symm.trans holds) (plain entries)
  · rintro owner other key key' address (old | rfl) _ member _ added _ leads
    · rw [same owner old] at member
      exact absurd leads (frozen.not_new (frozen.unchanged turns old member) old member added)
    · rw [new, keys] at member
      cases member

/-- A shown cell gets other parts, and at most loses keys. -/
theorem overwrite (frozen : heap.Frozen shown) {address : Address} (inside : shown address) {cell : Cell} (parts : shown.OwnsAll cell.parts)
    (fair : ∀ entries, cell = .map entries → heap.Fair entries) (kind : cell.kind? = (heap.read address).kind?)
    (order : cell.keys = (heap.read address).keys ∨ ∃ index, cell.keys = (heap.read address).keys.eraseIdx index) :
    heap.Turns shown (heap.write address cell) shown ∧ (heap.write address cell).Frozen shown := by
  refine frozen.write (.refl heap) inside parts .null (fun key member => .inl ?_) fair ⟨kind, ?_⟩
  · rcases order with same | ⟨index, same⟩
    · exact same ▸ member
    · exact List.mem_of_mem_eraseIdx (same ▸ member)
  · rcases order with same | ⟨index, same⟩
    · rw [same]
    · rw [same]
      exact .single (.erase _ index)

end Heap.Frozen

namespace Heap

variable {key value : Value} {entries : List Entry}

/-- Binding changes no key, or it adds one at the end. -/
theorem bind_keys (heap : Heap) (key value : Value) (entries : List Entry) :
    (Cell.map (heap.bind key value entries).1).keys = (Cell.map entries).keys ∨
      (Cell.map (heap.bind key value entries).1).keys = (Cell.map entries).keys ++ [key] := by
  unfold Heap.bind
  cases heap.boundIndex? key entries with
  | none => exact .inr (by simp [Cell.keys])
  | some index =>
      refine .inl (List.ext_getElem? fun position => ?_)
      simp only [Cell.keys, List.getElem?_map, List.getElem?_modify]
      cases entries[position]? with
      | none => rfl
      | some entry => by_cases own : index = position <;> simp [own]

theorem bind_parts (heap : Heap) (key value : Value) (entries : List Entry) :
    ∀ part ∈ (Cell.map (heap.bind key value entries).1).parts, part = value ∨ part ∈ (Cell.map entries).parts := by
  unfold Heap.bind
  cases heap.boundIndex? key entries with
  | none =>
      simp only [Cell.parts, List.map_append, List.map_cons, List.map_nil, List.mem_append, List.mem_singleton]
      exact fun part => Or.symm
  | some index =>
      have parts := Cell.parts_setPart (.map entries) index value
      simp only [Cell.setPart] at parts
      simp only [parts]
      exact fun part member => (List.mem_or_eq_of_mem_set member).symm

theorem bind_old_part {old : Value} (replaced : (heap.bind key value entries).2 = some old) : old ∈ (Cell.map entries).parts := by
  unfold Heap.bind at replaced
  cases place : heap.boundIndex? key entries with
  | none =>
      rw [place] at replaced
      cases replaced
  | some index =>
      rw [place] at replaced
      obtain ⟨entry, found, rfl⟩ := Option.map_eq_some_iff.mp replaced
      exact List.mem_map_of_mem (List.mem_of_getElem? found)

/-- A key is bound as a copy of its own. -/
theorem Frozen.bindCopy (frozen : heap.Frozen shown) {map : Address} (inside : shown map) (holds : heap.read map = .map entries) (own : shown.Owns value)
    (key : Value) : let bound := (key.deepCopy.run heap).2.bind (key.deepCopy.run heap).1 value entries
    heap.Turns shown ((key.deepCopy.run heap).2.write map (.map bound.1)) shown ∧
      ((key.deepCopy.run heap).2.write map (.map bound.1)).Frozen shown ∧ shown.Owns (bound.2.getD .null) := by
  intro bound
  obtain ⟨grows, guarded, new⟩ := Alloc.Sprouts.deepCopy key heap
  have solid : (key.deepCopy.run heap).2.Solid (key.deepCopy.run heap).1 := (heap.deepCopy_puts key).2.solid
  have owned : shown.OwnsAll (Cell.map entries).parts := holds ▸ frozen.parts map inside
  have reached {address : Address} (leads : (key.deepCopy.run heap).2.Leads (key.deepCopy.run heap).1 address) :
      (key.deepCopy.run heap).2.reachOf [(key.deepCopy.run heap).1] address := ⟨_, List.mem_singleton.mpr rfl, leads⟩
  have added : NewKey heap (key.deepCopy.run heap).2 shown (key.deepCopy.run heap).1 :=
    ⟨solid, guarded.sealed_.mono fun _ => reached, fun address leads =>
      ⟨new address (reached leads), fun shown_ => Nat.not_lt.mpr (new address (reached leads)) (frozen.allocated address shown_)⟩⟩
  have keys (entry : Entry) (among : entry ∈ entries) : entry.key ∈ (heap.read map).keys := by
    rw [holds]
    exact List.mem_map_of_mem among
  have unchanged (entry : Entry) (among : entry ∈ entries) (address : Address) (leads : heap.Leads entry.key address) :
      (key.deepCopy.run heap).2.read address = heap.read address :=
    grows.same address ((frozen.solid map inside _ (keys entry among)).allocated address leads)
  have fair : (key.deepCopy.run heap).2.Fair bound.1 := by
    obtain ⟨tree, shows⟩ := solid.shows
    exact ((frozen.fair map entries inside holds).same unchanged).bind
      (fun entry among => (frozen.solid map inside _ (keys entry among)).sound.same (unchanged entry among)) solid.sound shows value
  obtain ⟨turns, kept⟩ := @Frozen.write heap (key.deepCopy.run heap).2 shown frozen grows map inside (.map bound.1)
    (fun part member => by
      rcases bind_parts _ _ value entries part member with rfl | old
      · exact own
      · exact owned part old)
    (key.deepCopy.run heap).1
    (fun part member => by
      rcases bind_keys (key.deepCopy.run heap).2 (key.deepCopy.run heap).1 value entries with same | same
      · exact .inl (holds ▸ same ▸ member)
      · rcases List.mem_append.mp (same ▸ member : part ∈ _ ++ _) with old | single
        · exact .inl (holds ▸ old)
        · exact .inr ⟨List.mem_singleton.mp single, added⟩)
    (fun _ same => by
      cases same
      exact fair)
    (by
      rw [holds]
      refine ⟨rfl, ?_⟩
      rcases bind_keys (key.deepCopy.run heap).2 (key.deepCopy.run heap).1 value entries with same | same
      · rw [same]
      · rw [same]
        exact .single (.add _ _))
  refine ⟨turns, kept, ?_⟩
  cases replaced : bound.2 with
  | none => exact Region.owns_null
  | some old => exact owned old (bind_old_part replaced)

end Heap

namespace ValueOp

/-- Work on shown values that keeps keys frozen, and whose results are shown. -/
def Freezes {α : Type} (shown : Region) (heap : Heap) (work : ValueOp α) (values : α → List Value) : Prop :=
  heap.Frozen shown → match work.run heap with
    | .ok (result, after) => ∃ more, heap.Turns shown after more ∧ after.Frozen more ∧ more.OwnsAll (values result)
    | .error _ => True

namespace Freezes

variable {α β : Type} {values : α → List Value} {later : β → List Value}

theorem pure {result : α} (owns : shown.OwnsAll (values result)) : Freezes shown heap (Pure.pure result) values :=
  fun frozen => ⟨shown, .refl heap shown, frozen, owns⟩

theorem throw (error : ValueError) : Freezes shown heap (throw error) values := fun _ => trivial

theorem get {rest : Heap → ValueOp α} (freezes : Freezes shown heap (rest heap) values) : Freezes shown heap (MonadState.get >>= rest) values := freezes

theorem quiet {work : ValueOp α} {rest : α → ValueOp β} (quiet : Quiet work) (next : ∀ result, Freezes shown heap (rest result) later) :
    Freezes shown heap (work >>= rest) later := by
  intro frozen
  rw [StateT.run_bind]
  rcases quiet heap with ⟨result, ran⟩ | ⟨error, ran⟩ <;> rw [ran]
  · exact next result frozen
  · exact trivial

theorem mismatch (op expected : String) (found : Value) : Freezes shown heap (Value.mismatch op expected found) values := get (throw _)

/-- New values may be made. -/
theorem sprouts {work : Alloc α} (sprouts : Alloc.Sprouts work values) : Freezes shown heap work.toOp values :=
  fun frozen => frozen.sprout sprouts

theorem new (cell : Cell) (plain : ∀ entries, cell ≠ .map entries) (owns : shown.OwnsAll cell.parts) :
    Freezes shown heap (Cell.new cell).toOp fun value => [value] := by
  intro frozen
  obtain ⟨more, turns, kept, own⟩ := frozen.allocate plain owns
  exact ⟨more, turns, kept, Region.ownsAll_cons.mpr ⟨own, Region.ownsAll_nil⟩⟩

/-- Of the result something else may be told, or nothing. -/
theorem map {work : ValueOp α} {change : α → β} (first : Freezes shown heap work values) (fewer : ∀ result, ∀ value ∈ later (change result), value ∈ values result ∨ value = .null) :
    Freezes shown heap (do Pure.pure (change (← work))) later := by
  intro frozen
  have did := first frozen
  rw [StateT.run_bind]
  cases ran : work.run heap with
  | error error => exact trivial
  | ok pair =>
      rw [ran] at did
      obtain ⟨more, turns, kept, owns⟩ := did
      refine ⟨more, turns, kept, fun value member => ?_⟩
      rcases fewer pair.1 value member with old | rfl
      · exact owns value old
      · exact Region.owns_null

/-- A shown cell is overwritten, and something shown is given. -/
theorem overwrite {address : Address} {cell : Cell} {result : α} (inside : shown address) (parts : shown.OwnsAll cell.parts)
    (fair : ∀ entries, cell = .map entries → heap.Frozen shown → heap.Fair entries) (kind : cell.kind? = (heap.read address).kind?)
    (order : cell.keys = (heap.read address).keys ∨ ∃ index, cell.keys = (heap.read address).keys.eraseIdx index) (owns : shown.OwnsAll (values result)) :
    Freezes shown heap (do modify fun heap => heap.write address cell; Pure.pure result) values := fun frozen =>
  ⟨shown, (frozen.overwrite inside parts (fun entries same => fair entries same frozen) kind order).1,
    (frozen.overwrite inside parts (fun entries same => fair entries same frozen) kind order).2, owns⟩

end Freezes

end ValueOp

/-- A shown container has shown parts. -/
theorem Heap.Frozen.cell? {container : Value} {address : Address} {cell : Cell} (frozen : heap.Frozen shown) (owns : shown.Owns container)
    (found : heap.cell? container = some (address, cell)) : shown address ∧ heap.read address = cell ∧ shown.OwnsAll cell.parts := by
  cases container <;> cases found
  have inside := Region.owns_cell.mp owns
  exact ⟨inside, rfl, frozen.parts address inside⟩

namespace Value

open ValueOp

variable {container key value : Value}

theorem lookup_freezes (owns : shown.Owns container) : Freezes shown heap (container.lookup key) fun result => [result] := by
  intro frozen
  refine Freezes.get ?_ frozen
  split
  next address items found =>
      have parts : shown.OwnsAll items := (frozen.cell? owns found).2.2
      exact .quiet (.seqIndex _ _ _) fun index => .pure (by simpa using parts.getD)
  next address entries found =>
      obtain ⟨_, _, parts⟩ := frozen.cell? owns found
      refine .get ?_
      split
      next entry bound =>
          obtain ⟨index, _, there⟩ := Option.bind_eq_some_iff.mp bound
          exact .pure (by simpa using parts _ (List.mem_map_of_mem (List.mem_of_getElem? there)))
      next => exact .throw _
  next => exact .mismatch _ _ _

theorem field_freezes (owns : shown.Owns container) (index : Nat) : Freezes shown heap (container.field index) fun result => [result] := by
  intro frozen
  refine Freezes.get ?_ frozen
  split
  next address items found =>
      obtain ⟨_, _, parts⟩ := frozen.cell? owns found
      split
      next value there => exact .pure (by simpa using Region.OwnsAll.getElem? parts there)
      next => exact .throw _
  next address fields found =>
      obtain ⟨_, _, parts⟩ := frozen.cell? owns found
      split
      next name value there => exact .pure (by simpa using parts value (List.mem_map_of_mem (f := Prod.snd) (List.mem_of_getElem? there)))
      next => exact .throw _
  next => exact .mismatch _ _ _

theorem remove_freezes (owns : shown.Owns container) : Freezes shown heap (container.remove key) fun _ => [] := by
  intro frozen
  refine Freezes.get ?_ frozen
  split
  next address items found =>
      obtain ⟨inside, holds, parts⟩ := frozen.cell? owns found
      refine .quiet (.seqIndex _ _ _) fun index => ?_
      exact .overwrite inside (parts.subset fun value member => List.mem_of_mem_eraseIdx member) (by simp) (by rw [holds]; rfl) (.inl (by rw [holds]; rfl)) Region.ownsAll_nil
  next address entries found =>
      obtain ⟨inside, holds, parts⟩ := frozen.cell? owns found
      refine .quiet (.checkKey _ _) fun _ => .get ?_
      split
      next index there =>
          refine .overwrite inside (parts.subset ?_) ?_ (by rw [holds]; rfl) (.inr ⟨index, ?_⟩) Region.ownsAll_nil
          · simp only [Cell.parts, ← List.eraseIdx_map]
            exact fun value member => List.mem_of_mem_eraseIdx member
          · rintro _ same frozen
            cases same
            exact (frozen.fair address entries inside holds).sublist (List.eraseIdx_sublist _ _)
          · rw [holds]
            simp only [Cell.keys, ← List.eraseIdx_map]
      next => exact .get (.throw _)
  next => exact .mismatch _ _ _

theorem bindCopy_freezes {map : Address} {entries : List Entry} (inside : shown map) (holds : heap.read map = .map entries) (own : shown.Owns value) :
    Freezes shown heap (bindCopy map key value entries) fun old => [old] := by
  intro frozen
  rw [bindCopy_run]
  obtain ⟨turns, kept, old⟩ := frozen.bindCopy inside holds own key
  exact ⟨shown, turns, kept, by simpa using old⟩

theorem replace_freezes (owns : shown.Owns container) (own : shown.Owns value) : Freezes shown heap (container.replace key value) fun old => [old] := by
  intro frozen
  refine Freezes.get ?_ frozen
  split
  next address items found =>
      obtain ⟨inside, holds, parts⟩ := frozen.cell? owns found
      have parts : shown.OwnsAll items := parts
      refine .quiet (.seqIndex _ _ _) fun index => ?_
      exact .overwrite inside (parts.set own) (by simp) (by rw [holds]; rfl) (.inl (by rw [holds]; rfl)) (by simpa using parts.getD)
  next address entries found =>
      obtain ⟨inside, holds, _⟩ := frozen.cell? owns found
      exact .quiet (.checkKey _ _) fun _ => bindCopy_freezes inside holds own
  next => exact .mismatch _ _ _

theorem insert_freezes (owns : shown.Owns container) (own : shown.Owns value) : Freezes shown heap (container.insert key value) fun _ => [] := by
  intro frozen
  refine Freezes.get ?_ frozen
  split
  next address items found =>
      obtain ⟨inside, holds, parts⟩ := frozen.cell? owns found
      refine .quiet (.seqIndex _ _ _) fun index => ?_
      exact .overwrite inside (Region.OwnsAll.insertIdx parts own) (by simp) (by rw [holds]; rfl) (.inl (by rw [holds]; rfl)) Region.ownsAll_nil
  next address entries found =>
      obtain ⟨inside, holds, _⟩ := frozen.cell? owns found
      refine .quiet (.checkKey _ _) fun _ => .get ?_
      split
      next => exact .get (.throw _)
      next => exact (bindCopy_freezes inside holds own).map nofun
  next => exact .mismatch _ _ _

theorem replaceField_freezes (owns : shown.Owns container) (own : shown.Owns value) (index : Nat) :
    Freezes shown heap (container.replaceField index value) fun old => [old] := by
  intro frozen
  refine Freezes.get ?_ frozen
  split
  next address items found =>
      obtain ⟨inside, holds, parts⟩ := frozen.cell? owns found
      split
      next old there =>
          exact .overwrite inside (Region.OwnsAll.set parts own) (by simp) (by rw [holds]; rfl) (.inl (by rw [holds]; rfl)) (by simpa using Region.OwnsAll.getElem? parts there)
      next => exact .throw _
  next address fields found =>
      obtain ⟨inside, holds, parts⟩ := frozen.cell? owns found
      split
      next name old there =>
          refine .overwrite inside ?_ (by simp) (by rw [holds]; rfl) (.inl (by rw [holds]; rfl)) ?_
          · have same := Cell.parts_setPart (.named fields) index value
            simp only [Cell.setPart] at same
            rw [same]
            exact parts.set own
          · simpa using parts old (List.mem_map_of_mem (f := Prod.snd) (List.mem_of_getElem? there))
      next => exact .throw _
  next => exact .mismatch _ _ _

theorem keys_freezes : Freezes shown heap container.keys fun result => [result] := by
  refine .get ?_
  split
  next address entries _ => exact .sprouts (.copies entries (·.key))
  next => exact .mismatch _ _ _

theorem values_freezes : Freezes shown heap container.values fun result => [result] := by
  refine .get ?_
  split
  next address entries _ => exact .sprouts (.copies entries (·.value))
  next => exact .mismatch _ _ _

theorem cast_freezes (owns : shown.Owns value) (ty : Ty) : Freezes shown heap (value.cast ty) fun result => [result] := by
  refine .get ?_
  split
  · exact .pure (by simpa using owns)
  · exact .throw _

end Value

open ValueOp

theorem UnaryOp.apply_freezes (op : UnaryOp) (arg : Value) : Freezes shown heap (op.apply arg) fun result => [result] := by
  cases op with
  | not => exact .quiet (.asBool _ _) fun _ => .pure (by simp)
  | neg =>
      refine .quiet (.asInt _ _) fun number => ?_
      split
      · exact .throw _
      · exact .pure (by simp)
  | keys => exact Value.keys_freezes
  | values => exact Value.values_freezes
  | sizeof => exact .quiet (.size _) fun _ => .pure (by simp)

theorem BinaryOp.apply_freezes (op : BinaryOp) {lhs : Value} (owns : shown.Owns lhs) (rhs : Value) :
    Freezes shown heap (op.apply lhs rhs) fun result => [result] := by
  cases op with
  | add | sub | mul | lt | le | gt | ge => exact .quiet (.ints _ _ _) fun _ => .pure (by simp)
  | div =>
      refine .quiet (.ints _ _ _) fun pair => ?_
      dsimp only
      split
      · exact .throw _
      · exact .pure (by simp)
  | and | or =>
      refine .quiet (.asBool _ _) fun holds => ?_
      split
      all_goals first | exact .pure (by simp) | exact .quiet (.asBool _ _) fun _ => .pure (by simp)
  | eq | ne => exact .get (.pure (by simp))
  | index => exact Value.lookup_freezes owns
  | mem => exact .quiet (.containsKey _ _) fun _ => .pure (by simp)

/-- Whoever works on shown values gets shown values, and all keys stay frozen. -/
theorem Operation.perform_freezes (op : Operation) (owns : shown.OwnsAll op.operands) : Freezes shown heap op.perform fun result => [result] := by
  cases op with
  | build tree => exact .sprouts (.build tree)
  | copy value => exact .sprouts (.deepCopy value)
  | tuple items => exact .new (.tuple items) (by simp) owns
  | named fields => exact .new (.named fields) (by simp) owns
  | seq items => exact .new (.seq items) (by simp) owns
  | cast value ty => exact Value.cast_freezes (by simpa [operands] using owns) ty
  | unary op arg => exact op.apply_freezes arg
  | binary op lhs rhs => exact BinaryOp.apply_freezes op (by simp [operands] at owns; exact owns.1) rhs
  | lookup container key => exact Value.lookup_freezes (by simp [operands] at owns; exact owns.1)
  | replace container key value =>
      simp only [operands, Region.ownsAll_cons] at owns
      exact Value.replace_freezes owns.1 owns.2.2.1
  | insert container key value =>
      simp only [operands, Region.ownsAll_cons] at owns
      exact (Value.insert_freezes owns.1 owns.2.2.1).map fun _ => by simp
  | remove container key =>
      simp only [operands, Region.ownsAll_cons] at owns
      exact (Value.remove_freezes owns.1).map fun _ => by simp
  | field tuple index => exact Value.field_freezes (by simpa [operands] using owns) index
  | replaceField tuple index value =>
      simp only [operands, Region.ownsAll_cons] at owns
      exact Value.replaceField_freezes owns.1 owns.2.1 index

/-- Frozen keys are kept by all that is made of operations. -/
def frozenKeys : Regime where
  holds := Heap.Frozen
  turns := Heap.Turns
  refl := Turns.refl
  trans := Turns.trans
  inside := Turns.inside
  operate {heap after region result} op frozen owns ran := by
    have did := op.perform_freezes owns frozen
    rw [ran] at did
    obtain ⟨more, turns, kept, own⟩ := did
    exact ⟨more, turns, kept, own result (by simp)⟩

end Reentry
