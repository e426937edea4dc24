import Reentry.Proofs.Ownership.Copies
import Reentry.Value.Operator

/-!
Operations on values stay within the region that owns their operands: what they give and what they store
is owned by it, or new.
-/

namespace Reentry

namespace ValueOp

variable {α β : Type} {region more : Region} {heap : Heap} {values : α → List Value} {later : β → List Value}

theorem run_bind_eq_ok {work : ValueOp α} {rest : α → ValueOp β} {heap after : Heap} {result : β} :
    (work >>= rest).run heap = .ok (result, after) ↔
      ∃ value middle, work.run heap = .ok (value, middle) ∧ (rest value).run middle = .ok (result, after) := by
  rw [StateT.run_bind]
  cases work.run heap with
  | error error => simp [Bind.bind, Except.bind]
  | ok pair =>
      constructor
      · intro ran
        exact ⟨pair.1, pair.2, rfl, ran⟩
      · rintro ⟨_, _, same, ran⟩
        cases same
        exact ran

/-- Work that leaves the heap as it is. -/
def Quiet (work : ValueOp α) : Prop :=
  ∀ heap, (∃ result, work.run heap = .ok (result, heap)) ∨ ∃ error, work.run heap = .error error

/-- Work that stays within a region, and whose results the region owns in the end. -/
def Stays (region : Region) (heap : Heap) (work : ValueOp α) (values : α → List Value) : Prop :=
  heap.Closed region → match work.run heap with
    | .ok (result, after) => ∃ more, heap.Grows region after more ∧ more.OwnsAll (values result)
    | .error _ => True

namespace Quiet

theorem pure (result : α) : Quiet (Pure.pure result) := fun _ => .inl ⟨result, rfl⟩

theorem throw (error : ValueError) : Quiet (throw error : ValueOp α) := fun _ => .inr ⟨error, rfl⟩

theorem get : Quiet (get : ValueOp Heap) := fun heap => .inl ⟨heap, rfl⟩

theorem bind {work : ValueOp α} {rest : α → ValueOp β} (first : Quiet work) (later : ∀ result, Quiet (rest result)) :
    Quiet (work >>= rest) := by
  intro heap
  rw [StateT.run_bind]
  rcases first heap with ⟨result, ran⟩ | ⟨error, ran⟩ <;> rw [ran]
  · exact later result heap
  · exact .inr ⟨error, rfl⟩

theorem mismatch (op expected : String) (found : Value) : Quiet (Value.mismatch op expected found : ValueOp α) :=
  get.bind fun _ => throw _

theorem asBool (op : String) (value : Value) : Quiet (value.asBool op) := by
  cases value <;> first | exact pure _ | exact mismatch _ _ _

theorem asInt (op : String) (value : Value) : Quiet (value.asInt op) := by
  cases value <;> first | exact pure _ | exact mismatch _ _ _

theorem asMachine (op : String) (value : Value) : Quiet (value.asMachine op) := by
  cases value <;> first | exact pure _ | exact mismatch _ _ _

theorem seqIndex (key : Value) (length : Nat) (inclusive : Bool) : Quiet (key.seqIndex length inclusive) := by
  refine (asInt _ _).bind fun index => ?_
  generalize (if inclusive then length + 1 else length) = bound
  dsimp only
  split
  · exact pure _
  · exact throw _

theorem checkKey (key : Value) (map : Address) : Quiet (key.checkKey map) := by
  refine get.bind fun heap => ?_
  split
  · exact throw _
  · exact pure _

theorem size (container : Value) : Quiet container.size := by
  refine get.bind fun heap => ?_
  split
  · exact pure _
  · exact pure _
  · exact mismatch _ _ _

theorem containsKey (map key : Value) : Quiet (map.containsKey key) := by
  refine get.bind fun heap => ?_
  split
  · exact get.bind fun heap => pure _
  · exact mismatch _ _ _

theorem ints (op : String) (lhs rhs : Value) : Quiet (BinaryOp.ints op lhs rhs) :=
  (asInt _ _).bind fun _ => (asInt _ _).bind fun _ => pure _

theorem lookup (container key : Value) : Quiet (container.lookup key) := by
  refine get.bind fun heap => ?_
  split
  · exact (seqIndex _ _ _).bind fun _ => pure _
  · refine get.bind fun heap => ?_
    split
    · exact pure _
    · exact throw _
  · exact mismatch _ _ _

theorem field (tuple : Value) (index : Nat) : Quiet (tuple.field index) := by
  refine get.bind fun heap => ?_
  split
  · split
    · exact pure _
    · exact throw _
  · split
    · exact pure _
    · exact throw _
  · exact mismatch _ _ _

theorem cast (value : Value) (ty : Ty) : Quiet (value.cast ty) := by
  refine get.bind fun heap => ?_
  split
  · exact pure _
  · exact throw _

end Quiet

namespace Stays

theorem pure {result : α} (owns : region.OwnsAll (values result)) : Stays region heap (Pure.pure result) values :=
  fun closed => ⟨region, .refl closed, owns⟩

theorem throw (error : ValueError) : Stays region heap (throw error) values := fun _ => trivial

theorem get {rest : Heap → ValueOp α} (stays : Stays region heap (rest heap) values) :
    Stays region heap (MonadState.get >>= rest) values := stays

theorem bind {work : ValueOp α} {rest : α → ValueOp β} (first : Stays region heap work values)
    (next : ∀ result after more, heap.Grows region after more → more.OwnsAll (values result) →
      Stays more after (rest result) later) : Stays region heap (work >>= rest) later := by
  intro closed
  rw [StateT.run_bind]
  have did := first closed
  cases ran : work.run heap with
  | error error => exact trivial
  | ok pair =>
      rw [ran] at did
      obtain ⟨more, grows, owns⟩ := did
      have then_ := next pair.1 pair.2 more grows owns grows.closed
      change match (rest pair.1).run pair.2 with
        | .ok (result, after) => ∃ more, heap.Grows region after more ∧ more.OwnsAll (later result)
        | .error _ => True
      cases ran' : (rest pair.1).run pair.2 with
      | error error => exact trivial
      | ok result =>
          rw [ran'] at then_
          obtain ⟨most, grows', owns'⟩ := then_
          exact ⟨most, grows.trans grows', owns'⟩

/-- Quiet work in front changes nothing. -/
theorem quiet {work : ValueOp α} {rest : α → ValueOp β} (quiet : Quiet work)
    (next : ∀ result, Stays region heap (rest result) later) : Stays region heap (work >>= rest) later := by
  intro closed
  rw [StateT.run_bind]
  rcases quiet heap with ⟨result, ran⟩ | ⟨error, ran⟩ <;> rw [ran]
  · exact next result closed
  · exact trivial

/-- Quiet work whose results are no cells. -/
theorem of_quiet {work : ValueOp α} (quiet : Quiet work) (none : ∀ result, values result = []) :
    Stays region heap work values := by
  intro closed
  rcases quiet heap with ⟨result, ran⟩ | ⟨error, ran⟩ <;> rw [ran]
  · exact ⟨region, .refl closed, by simp [none]⟩
  · exact trivial

theorem mismatch (op expected : String) (found : Value) : Stays region heap (Value.mismatch op expected found) values :=
  get (throw _)

/-- New cells may be made. -/
theorem makes {work : Alloc α} (makes : Alloc.Makes heap [] work values) : Stays region heap work.toOp values :=
  fun closed => ⟨_, makes.fresh.joins closed, makes.fresh.owns.mono (Region.inside_union_right _ _)⟩

/-- A cell of the region is overwritten. -/
theorem write {address : Address} {cell : Cell} (inside : region address) (owns : region.OwnsAll cell.contents) :
    Stays region heap (modify fun heap => heap.write address cell) fun _ => [] :=
  fun closed => ⟨region, .write closed inside owns, Region.ownsAll_nil⟩

/-- A cell of the region is overwritten, and then something of it is given. -/
theorem writeThen {address : Address} {cell : Cell} {result : α} (inside : region address)
    (owns : region.OwnsAll cell.contents) (given : region.OwnsAll (values result)) :
    Stays region heap (do modify fun heap => heap.write address cell; Pure.pure result) values :=
  (write inside owns).bind fun _ _ _ grows _ => pure (given.mono grows.inside)

end Stays

end ValueOp

/-- A region that owns a container owns its parts. -/
theorem Heap.cell?_eq_some {heap : Heap} {region : Region} {container : Value} {address : Address} {cell : Cell}
    (found : heap.cell? container = some (address, cell)) (owns : region.Owns container) :
    region address ∧ (heap.Closed region → region.OwnsAll cell.contents) := by
  cases container <;> cases found
  have inside := Region.owns_cell.mp owns
  exact ⟨inside, fun closed => closed.contents address inside⟩

namespace Value

open ValueOp

variable {region : Region} {heap : Heap} {container key value : Value}

/-- What a container names is what its cell contains. -/
theorem contents_of_cell? {address : Address} {cell : Cell} (found : heap.cell? container = some (address, cell)) :
    container = .cell address ∧ heap.read address = cell := by
  cases container <;> cases found
  exact ⟨rfl, rfl⟩

theorem keys_stays : Stays region heap container.keys fun result => [result] := by
  refine .get ?_
  split
  · refine .makes ?_
    exact (Alloc.Makes.each (fun held entry => .deepCopy held entry.key) [] _).bind fun _ =>
      .new (by simp [Cell.contents]) (by simp)
  · exact .mismatch _ _ _

theorem values_stays : Stays region heap container.values fun result => [result] := by
  refine .get ?_
  split
  · refine .makes ?_
    exact (Alloc.Makes.each (fun held entry => .deepCopy held entry.value) [] _).bind fun _ =>
      .new (by simp [Cell.contents]) (by simp)
  · exact .mismatch _ _ _

variable (owns : region.Owns container)
include owns

theorem lookup_stays : Stays region heap (container.lookup key) fun result => [result] := by
  intro closed
  refine Stays.get ?_ closed
  split
  next address items found =>
      have parts : region.OwnsAll items := (Heap.cell?_eq_some found owns).2 closed
      exact .quiet (.seqIndex _ _ _) fun index => .pure (by simpa using parts.getD)
  next address entries found =>
      have parts := (Heap.cell?_eq_some found owns).2 closed
      refine .get ?_
      split
      next entry bound =>
          obtain ⟨index, _, there⟩ := Option.bind_eq_some_iff.mp bound
          have among : entry.value ∈ (Cell.map entries).contents :=
            List.mem_flatMap.mpr ⟨entry, List.mem_of_getElem? there, by simp⟩
          exact .pure (by simpa using parts _ among)
      next => exact .throw _
  next => exact .mismatch _ _ _

theorem field_stays (index : Nat) : Stays region heap (container.field index) fun result => [result] := by
  intro closed
  refine Stays.get ?_ closed
  split
  next address items found =>
      have parts := (Heap.cell?_eq_some found owns).2 closed
      split
      next value there => exact .pure (by simpa using parts.getElem? there)
      next => exact .throw _
  next address fields found =>
      have parts := (Heap.cell?_eq_some found owns).2 closed
      split
      next name value there =>
          exact .pure (by simpa using parts value (List.mem_map_of_mem (f := Prod.snd) (List.mem_of_getElem? there)))
      next => exact .throw _
  next => exact .mismatch _ _ _

theorem remove_stays : Stays region heap (container.remove key) fun _ => [] := by
  intro closed
  refine Stays.get ?_ closed
  split
  next address items found =>
      obtain ⟨inside, parts⟩ := Heap.cell?_eq_some found owns
      exact .quiet (.seqIndex _ _ _) fun index =>
        .write inside ((parts closed).subset fun value member => List.mem_of_mem_eraseIdx member)
  next address entries found =>
      obtain ⟨inside, parts⟩ := Heap.cell?_eq_some found owns
      refine .quiet (.checkKey _ _) fun _ => .get ?_
      split
      next index there =>
          refine .write inside ((parts closed).subset fun value member => ?_)
          obtain ⟨entry, among, same⟩ := List.mem_flatMap.mp member
          exact List.mem_flatMap.mpr ⟨entry, List.mem_of_mem_eraseIdx among, same⟩
      next => exact .get (.throw _)
  next => exact .mismatch _ _ _

theorem cast_stays (ty : Ty) : Stays region heap (container.cast ty) fun result => [result] := by
  refine .get ?_
  split
  · exact .pure (by simpa using owns)
  · exact .throw _

omit owns
variable (own : region.Owns value)
include own

theorem bindCopy_stays {map : Address} {entries : List Entry} (inside : region map)
    (parts : region.OwnsAll (Cell.map entries).contents) :
    Stays region heap (bindCopy map key value entries) fun old => [old] := by
  refine @Stays.bind _ _ _ _ (fun copy => [copy]) _ _ _ (.makes (.deepCopy [] key)) fun copy after more grows copied => .get ?_
  have owned := parts.mono grows.inside
  refine .writeThen (grows.inside map inside) (fun part member => ?_) ?_
  · rcases after.bind_contents copy value entries part member with rfl | rfl | old
    · exact copied part (by simp)
    · exact own.mono grows.inside
    · exact owned part old
  · refine Region.ownsAll_cons.mpr ⟨?_, Region.ownsAll_nil⟩
    change more.Owns ((after.bind copy value entries).2.getD .null)
    cases replaced : (after.bind copy value entries).2 with
    | none => exact Region.owns_null
    | some old => exact owned old (Heap.bind_old replaced)

include owns

theorem replace_stays : Stays region heap (container.replace key value) fun old => [old] := by
  intro closed
  refine Stays.get ?_ closed
  split
  next address items found =>
      have inside := (Heap.cell?_eq_some found owns).1
      have parts : region.OwnsAll items := (Heap.cell?_eq_some found owns).2 closed
      exact .quiet (.seqIndex _ _ _) fun index => .writeThen inside (parts.set own) (by simpa using parts.getD)
  next address entries found =>
      obtain ⟨inside, parts⟩ := Heap.cell?_eq_some found owns
      exact .quiet (.checkKey _ _) fun _ => bindCopy_stays own inside (parts closed)
  next => exact .mismatch _ _ _

theorem insert_stays : Stays region heap (container.insert key value) fun _ => [] := by
  intro closed
  refine Stays.get ?_ closed
  split
  next address items found =>
      obtain ⟨inside, parts⟩ := Heap.cell?_eq_some found owns
      exact .quiet (.seqIndex _ _ _) fun index => .write inside ((parts closed).insertIdx own)
  next address entries found =>
      obtain ⟨inside, parts⟩ := Heap.cell?_eq_some found owns
      refine .quiet (.checkKey _ _) fun _ => .get ?_
      split
      next => exact .get (.throw _)
      next => exact (bindCopy_stays own inside (parts closed)).bind fun _ _ _ _ _ => .pure (by simp)
  next => exact .mismatch _ _ _

theorem replaceField_stays (index : Nat) : Stays region heap (container.replaceField index value) fun old => [old] := by
  intro closed
  refine Stays.get ?_ closed
  split
  next address items found =>
      obtain ⟨inside, parts⟩ := Heap.cell?_eq_some found owns
      split
      next old there => exact .writeThen inside ((parts closed).set own) (by simpa using (parts closed).getElem? there)
      next => exact .throw _
  next address fields found =>
      obtain ⟨inside, parts⟩ := Heap.cell?_eq_some found owns
      split
      next name old there =>
          refine .writeThen inside (fun part member => ?_) ?_
          · obtain ⟨field, among, rfl⟩ := List.mem_map.mp member
            obtain ⟨position, found⟩ := List.mem_iff_getElem?.mp among
            simp only [List.getElem?_modify, Option.map_eq_map, Option.map_eq_some_iff] at found
            obtain ⟨before, there, rfl⟩ := found
            by_cases here : index = position
            · simpa [here] using own
            · simpa [here] using parts closed _ (List.mem_map_of_mem (f := Prod.snd) (List.mem_of_getElem? there))
          · simpa using parts closed old (List.mem_map_of_mem (f := Prod.snd) (List.mem_of_getElem? there))
      next => exact .throw _
  next => exact .mismatch _ _ _

end Value

open ValueOp

variable {region : Region} {heap : Heap} {lhs rhs : Value}

theorem UnaryOp.apply_stays (op : UnaryOp) (arg : Value) : Stays region heap (op.apply arg) fun result => [result] := by
  cases op with
  | not => exact .quiet (.asBool _ _) fun _ => .pure (by simp)
  | neg =>
      refine .quiet (.asInt _ _) fun number => ?_
      split
      · exact .throw _
      · exact .pure (by simp)
  | keys => exact Value.keys_stays
  | values => exact Value.values_stays
  | sizeof => exact .quiet (.size _) fun _ => .pure (by simp)

/-- Only an index gives a part of an operand. -/
theorem BinaryOp.apply_stays (op : BinaryOp) (owns : op = .index → region.Owns lhs) :
    Stays region heap (op.apply lhs rhs) fun result => [result] := by
  cases op with
  | add | sub | mul | lt | le | gt | ge => exact .quiet (.ints _ _ _) fun _ => .pure (by simp)
  | div =>
      refine .quiet (.ints _ _ _) fun pair => ?_
      dsimp only
      split
      · exact .throw _
      · exact .pure (by simp)
  | and | or =>
      refine .quiet (.asBool _ _) fun holds => ?_
      split
      all_goals first | exact .pure (by simp) | exact .quiet (.asBool _ _) fun _ => .pure (by simp)
  | eq | ne => exact .get (.pure (by simp))
  | index => exact Value.lookup_stays (owns rfl)
  | mem => exact .quiet (.containsKey _ _) fun _ => .pure (by simp)

end Reentry
