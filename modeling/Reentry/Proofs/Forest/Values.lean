import Reentry.Proofs.Forest.Copies
import Reentry.Proofs.Ownership.Values

/-!
Operations on values in a grove. What looks at values leaves the grove as it is, what makes values plants them, and
what stores a value into a container uses it up.
-/

namespace Reentry

namespace ValueOp

variable {α β : Type}

/-- The work may be done whatever else is in hand; it uses up some values and leaves others in hand. A failure leaves
the heap as it was. -/
def Plants (heap : Heap) (spent : List Value) (work : ValueOp α) (gained : α → List Value) : Prop :=
  ∀ ⦃keeps⦄, Heap.Tends keeps → ∀ rest result after, keeps heap (spent ++ rest) → work.run heap = .ok (result, after) →
    keeps after (gained result ++ rest)

/-- The work gives something that is in the container, if not null, and leaves the heap as it is. -/
def Lends (heap : Heap) (container : Value) (work : ValueOp Value) : Prop :=
  ∀ part after, work.run heap = .ok (part, after) →
    after = heap ∧ (part ≠ .null → ∃ address, container = .cell address ∧ part ∈ (heap.read address).contents)

namespace Lends

variable {heap : Heap} {container : Value}

theorem pure {part : Value} (inside : part ≠ .null → ∃ address, container = .cell address ∧ part ∈ (heap.read address).contents) :
    Lends heap container (Pure.pure part) := by
  intro _ _ ran
  cases ran
  exact ⟨rfl, inside⟩

theorem throw (error : ValueError) : Lends heap container (throw error) := by
  intro _ _ ran
  cases ran

theorem get {rest : Heap → ValueOp Value} (lends : Lends heap container (rest heap)) :
    Lends heap container (MonadState.get >>= rest) := lends

theorem quiet {work : ValueOp α} {rest : α → ValueOp Value} (quiet : Quiet work) (next : ∀ result, Lends heap container (rest result)) :
    Lends heap container (work >>= rest) := by
  intro part after ran
  obtain ⟨value, middle, ran, ran'⟩ := run_bind_eq_ok.mp ran
  rcases quiet heap with ⟨result, done⟩ | ⟨error, done⟩ <;> rw [done] at ran <;> cases ran
  exact next value part after ran'

theorem mismatch (op expected : String) (found : Value) : Lends heap container (Value.mismatch op expected found) := get (throw _)

end Lends

/-- The work changes the cell that the container names, in one part or also in those behind it, and no other cell. -/
def Alters (heap : Heap) (container : Value) (onward : Bool) (work : ValueOp α) : Prop :=
  ∀ result after, work.run heap = .ok (result, after) →
    ∃ address first, container = .cell address ∧ heap.Alters address (Heap.Touches onward first) after

namespace Alters

variable {heap : Heap} {container : Value} {onward : Bool} {work : ValueOp α}

theorem throw (error : ValueError) : Alters heap container onward (throw error : ValueOp α) := by
  intro _ _ ran
  cases ran

theorem get {rest : Heap → ValueOp α} (alters : Alters heap container onward (rest heap)) :
    Alters heap container onward (MonadState.get >>= rest) := alters

theorem mismatch (op expected : String) (found : Value) :
    Alters heap container onward (Value.mismatch op expected found : ValueOp α) := get (throw _)

theorem quiet {work : ValueOp α} {rest : α → ValueOp β} (quiet : Quiet work)
    (next : ∀ result, Alters heap container onward (rest result)) : Alters heap container onward (work >>= rest) := by
  intro part after ran
  obtain ⟨value, middle, ran, ran'⟩ := run_bind_eq_ok.mp ran
  rcases quiet heap with ⟨result, done⟩ | ⟨error, done⟩ <;> rw [done] at ran <;> cases ran
  exact next value part after ran'

theorem andQuiet {rest : α → ValueOp β} (first : Alters heap container onward work) (quiet : ∀ result, Quiet (rest result)) :
    Alters heap container onward (work >>= rest) := by
  intro result after ran
  obtain ⟨value, middle, ran, ran'⟩ := run_bind_eq_ok.mp ran
  rcases quiet value middle with ⟨last, done⟩ | ⟨error, done⟩ <;> rw [done] at ran' <;> cases ran'
  exact first value _ ran

/-- A cell is overwritten with one that differs from it in these parts only. -/
theorem write {address : Address} {cell : Cell} (first : Nat)
    (same : ∀ step part, (heap.read address).contents[step]? = some part → ¬Heap.Touches onward first step →
      cell.contents[step]? = some part) :
    Alters heap (.cell address) onward (modify fun heap => heap.write address cell) := by
  intro _ _ ran
  cases ran
  refine ⟨address, first, rfl, Nat.le_of_eq (Heap.size_write heap address cell).symm,
    fun other different _ => Heap.read_write_of_ne heap different cell, fun step part here apart => ?_⟩
  have allocated : address.index < heap.size := by
    apply Heap.allocated_of_read rfl
    intro empty
    rw [empty] at here
    cases here
  rw [Heap.read_write_self allocated]
  exact same step part here apart

theorem anyOnward (alters : Alters heap container false work) : Alters heap container onward work := by
  intro result after ran
  obtain ⟨address, first, rfl, size, elsewhere, parts⟩ := alters result after ran
  refine ⟨address, first, rfl, size, elsewhere, fun step part here apart => parts step part here fun same => apart ?_⟩
  cases onward
  · exact same
  · exact Nat.le_of_eq (show step = first from same).symm

end Alters

namespace Plants

variable {heap : Heap} {spent kept : List Value} {work : ValueOp α} {gained : α → List Value} {later : β → List Value}

theorem pure {result : α} (less : Fewer (gained result) spent) : Plants heap spent (Pure.pure result) gained := by
  intro _ tends rest _ _ kept ran
  cases ran
  exact tends.mono kept (less.append (.refl _))

theorem throw (error : ValueError) : Plants heap spent (throw error) gained := by
  intro _ _ rest _ _ _ ran
  cases ran

theorem get {rest : Heap → ValueOp α} (next : Plants heap spent (rest heap) gained) :
    Plants heap spent (MonadState.get >>= rest) gained := next

theorem next {rest : α → ValueOp β} (first : Plants heap spent work gained)
    (next : ∀ result after, Plants after (gained result) (rest result) later) : Plants heap spent (work >>= rest) later := by
  intro _ tends others _ _ holds ran
  obtain ⟨value, middle, ran, ran'⟩ := run_bind_eq_ok.mp ran
  exact next value middle tends others _ _ (first tends others value middle holds ran) ran'

/-- Work that only looks at the heap may come first. -/
theorem quiet {rest : α → ValueOp β} (quiet : Quiet work) (next : ∀ result, Plants heap kept (rest result) later) :
    Plants heap kept (work >>= rest) later := by
  intro _ tends others _ _ holds ran
  obtain ⟨value, middle, ran, ran'⟩ := run_bind_eq_ok.mp ran
  rcases quiet heap with ⟨result, done⟩ | ⟨error, done⟩ <;> rw [done] at ran <;> cases ran
  exact next value tends others _ _ holds ran'

theorem mismatch (op expected : String) (found : Value) : Plants heap spent (Value.mismatch op expected found) gained := get (throw _)

theorem toOp {work : Alloc α} (plants : Alloc.Plants spent work gained) : Plants heap spent work.toOp gained := by
  intro _ tends rest _ _ kept ran
  obtain ⟨rfl, rfl⟩ := Prod.mk.inj (Except.ok.inj ran)
  exact plants tends heap rest kept

/-- A cell is overwritten with what it had and with values in hand. -/
theorem write {address : Address} {cell : Cell} (made : Fewer cell.contents (spent ++ (heap.read address).contents)) :
    Plants heap spent (modify fun heap => heap.write address cell) fun _ => [] := by
  intro _ tends rest _ _ kept ran
  cases ran
  exact tends.write kept made

end Plants

end ValueOp

open ValueOp

namespace Value

variable {heap : Heap} {container key value : Value}

theorem cast_eq_ok {ty : Ty} {result : Value} {after : Heap} (ran : (value.cast ty).run heap = .ok (result, after)) :
    result = value ∧ after = heap := by
  change (if ty.admits heap value then pure value else throw (.castFailed (value.text heap) ty.text) : ValueOp Value).run heap = _ at ran
  split at ran <;> cases ran
  exact ⟨rfl, rfl⟩

theorem keys_plants : Plants heap [] container.keys fun result => [result] := by
  refine .get ?_
  split
  · refine .toOp (.next (.each (fun (entry : Entry) => .deepCopy entry.key) _) fun values => ?_)
    exact .new (.seq values)
  · exact .mismatch _ _ _

theorem values_plants : Plants heap [] container.values fun result => [result] := by
  refine .get ?_
  split
  · refine .toOp (.next (.each (fun (entry : Entry) => .deepCopy entry.value) _) fun values => ?_)
    exact .new (.seq values)
  · exact .mismatch _ _ _

theorem lookup_lends : Lends heap container (container.lookup key) := by
  refine .get ?_
  split
  next address items found =>
    obtain ⟨rfl, here⟩ := contents_of_cell? found
    refine .quiet (.seqIndex _ _ _) fun index => .pure fun some => ⟨address, rfl, ?_⟩
    rw [here]
    cases there : items[index]? with
    | none => simp [there] at some
    | some part => exact List.mem_of_getElem? there
  next address entries found =>
    obtain ⟨rfl, here⟩ := contents_of_cell? found
    refine .get ?_
    split
    next entry there =>
      refine .pure fun _ => ⟨address, rfl, ?_⟩
      obtain ⟨index, _, there⟩ := Option.bind_eq_some_iff.mp there
      rw [here]
      exact List.mem_flatMap.mpr ⟨entry, List.mem_of_getElem? there, by simp⟩
    next => exact .throw _
  next => exact .mismatch _ _ _

theorem field_lends (index : Nat) : Lends heap container (container.field index) := by
  refine .get ?_
  split
  next address items found =>
    obtain ⟨rfl, here⟩ := contents_of_cell? found
    split
    next part there => exact .pure fun _ => ⟨address, rfl, by rw [here]; exact List.mem_of_getElem? there⟩
    next => exact .throw _
  next address fields found =>
    obtain ⟨rfl, here⟩ := contents_of_cell? found
    split
    next name part there => exact .pure fun _ => ⟨address, rfl, by rw [here]; exact List.mem_map_of_mem (List.mem_of_getElem? there)⟩
    next => exact .throw _
  next => exact .mismatch _ _ _

/-- A field of a tuple in hand, which is taken apart for it. -/
theorem field_plants (index : Nat) : Plants heap [container] (container.field index) fun result => [result] := by
  have taken {address : Address} {part : Value} {cell : Cell} (found : heap.cell? container = some (address, cell))
      (among : part ∈ cell.contents) : Plants heap [container] (pure part) fun result => [result] := by
    obtain ⟨rfl, rfl⟩ := contents_of_cell? found
    intro _ tends rest _ _ kept ran
    cases ran
    exact tends.mono (tends.unpack kept) (.append (.of_sublist (List.singleton_sublist.mpr among)) (.refl rest))
  refine .get ?_
  split
  next address items found =>
    split
    next part there => exact taken found (List.mem_of_getElem? there)
    next => exact .throw _
  next address fields found =>
    split
    next name part there => exact taken found (List.mem_map_of_mem (f := Prod.snd) (List.mem_of_getElem? there))
    next => exact .throw _
  next => exact .mismatch _ _ _

theorem map_named_modify (fields : List (String × Value)) (index : Nat) (value : Value) :
    (fields.modify index fun entry => (entry.1, value)).map (·.2) = (fields.map (·.2)).set index value := by
  refine List.ext_getElem? fun position => ?_
  rw [List.getElem?_map, List.getElem?_modify, List.getElem?_set, List.length_map, List.getElem?_map]
  by_cases same : index = position
  · subst same
    by_cases bound : index < fields.length
    · simp [bound]
    · simp [bound]
  · simp [same]

/-- The entries stay where they are while the key is copied. -/
theorem bindCopy_plants {map : Address} {entries : List Entry} (here : heap.read map = .map entries) :
    Plants heap [value] (bindCopy map key value entries) fun _ => [] := by
  have allocated : map.index < heap.size := Heap.allocated_of_read here nofun
  have bound (copy : Value) {middle : Heap} (still : middle.read map = .map entries) : Plants middle [copy, value] (do
      let bound := (← get).bind copy value entries
      modify fun heap => heap.write map (.map bound.1)
      pure (bound.2.getD .null)) fun _ => [] := by
    refine .get (.next (.write ?_) fun _ _ => .pure (.nil _))
    rw [still]
    exact middle.bind_fewer copy value entries
  intro _ tends rest _ _ kept ran
  obtain ⟨copy, middle, copied, ran⟩ := run_bind_eq_ok.mp ran
  obtain ⟨rfl, rfl⟩ := Prod.mk.inj (Except.ok.inj copied)
  have still := (Alloc.Makes.deepCopy [] key).fresh.same map allocated
  exact bound _ (still.trans here) tends rest _ _ (Alloc.Plants.deepCopy key tends heap _ kept) ran

/-- Binding touches the value of one entry, or none that was there. -/
theorem bind_touches (heap : Heap) (key value : Value) (entries : List Entry) : ∃ first, ∀ step part,
    (Cell.map entries).contents[step]? = some part → ¬Heap.Touches false first step →
      (Cell.map (heap.bind key value entries).1).contents[step]? = some part := by
  unfold Heap.bind
  cases heap.boundIndex? key entries with
  | none =>
      refine ⟨0, fun step part here _ => ?_⟩
      have bound := (List.getElem?_eq_some_iff.mp here).1
      simp only [Cell.contents, List.flatMap_append] at here bound ⊢
      rwa [List.getElem?_append_left bound]
  | some index =>
      refine ⟨2 * index + 1, fun step part here apart => ?_⟩
      have apart : step ≠ 2 * index + 1 := apart
      rw [Cell.map_contents_getElem?] at here ⊢
      rw [List.getElem?_modify]
      obtain ⟨entry, there, same⟩ := Option.map_eq_some_iff.mp here
      by_cases own : index = step / 2
      · have even : step % 2 = 0 := by omega
        simp only [even, if_true] at same
        simp [there, own, even, same]
      · simp [there, own, same]

theorem bindCopy_alters {onward : Bool} {map : Address} {entries : List Entry} (here : heap.read map = .map entries) :
    Alters heap (.cell map) onward (bindCopy map key value entries) := by
  refine .anyOnward fun result after ran => ?_
  obtain ⟨copy, middle, copied, ran⟩ := run_bind_eq_ok.mp ran
  obtain ⟨rfl, rfl⟩ := Prod.mk.inj (Except.ok.inj copied)
  have fresh := (@Alloc.Makes.deepCopy heap [] key).fresh
  obtain ⟨first, same⟩ := bind_touches (key.deepCopy.run heap).2 (key.deepCopy.run heap).1 value entries
  cases ran
  have allocated : map.index < heap.size := Heap.allocated_of_read here nofun
  refine ⟨map, first, rfl, ?_, fun other different allocated => ?_, fun step part there apart => ?_⟩
  · rw [Heap.size_write]
    exact fresh.size
  · rw [Heap.read_write_of_ne _ different]
    exact fresh.same other allocated
  · rw [here] at there
    have wrote := Heap.read_write_self (Nat.lt_of_lt_of_le allocated fresh.size)
      (.map ((key.deepCopy.run heap).2.bind (key.deepCopy.run heap).1 value entries).1)
    exact (congrArg (·.contents[step]?) wrote).trans (same step part there apart)

theorem replace_plants : Plants heap [value] (container.replace key value) fun _ => [] := by
  refine .get ?_
  split
  next address items found =>
    obtain ⟨rfl, here⟩ := contents_of_cell? found
    refine .quiet (.seqIndex _ _ _) fun index => .next (.write ?_) fun _ _ => .pure (.nil _)
    rw [here]
    exact .set items index value
  next address entries found =>
    obtain ⟨rfl, here⟩ := contents_of_cell? found
    exact .quiet (.checkKey _ _) fun _ => bindCopy_plants here
  next => exact .mismatch _ _ _

theorem replace_alters : Alters heap container false (container.replace key value) := by
  refine .get ?_
  split
  next address items found =>
    obtain ⟨rfl, here⟩ := contents_of_cell? found
    refine .quiet (.seqIndex _ _ _) fun index => .andQuiet (.write index fun step part there apart => ?_) fun _ => .pure _
    rw [here] at there
    exact (List.getElem?_set_ne (Ne.symm apart)).trans there
  next address entries found =>
    obtain ⟨rfl, here⟩ := contents_of_cell? found
    exact .quiet (.checkKey _ _) fun _ => bindCopy_alters here
  next => exact .mismatch _ _ _

theorem update_alters : Alters heap container false (container.update key value) := replace_alters.andQuiet fun _ => .pure _

theorem update_plants : Plants heap [value] (container.update key value) fun _ => [] :=
  replace_plants.next fun _ _ => .pure (.refl _)

theorem insert_plants : Plants heap [value] (container.insert key value) fun _ => [] := by
  refine .get ?_
  split
  next address items found =>
    obtain ⟨rfl, here⟩ := contents_of_cell? found
    refine .quiet (.seqIndex _ _ _) fun index => .write ?_
    rw [here]
    exact .insertIdx items index value
  next address entries found =>
    obtain ⟨rfl, here⟩ := contents_of_cell? found
    refine .quiet (.checkKey _ _) fun _ => .get ?_
    split
    next => exact .get (.throw _)
    next => exact (bindCopy_plants here).next fun _ _ => .pure (.refl _)
  next => exact .mismatch _ _ _

theorem insert_alters : Alters heap container true (container.insert key value) := by
  refine .get ?_
  split
  next address items found =>
    obtain ⟨rfl, here⟩ := contents_of_cell? found
    refine .quiet (.seqIndex _ _ _) fun index => .write index fun step part there apart => ?_
    rw [here] at there
    exact (List.getElem?_insertIdx_of_lt (Nat.lt_of_not_le apart)).trans there
  next address entries found =>
    obtain ⟨rfl, here⟩ := contents_of_cell? found
    refine .quiet (.checkKey _ _) fun _ => .get ?_
    split
    next => exact .get (.throw _)
    next => exact (bindCopy_alters here).andQuiet fun _ => .pure _
  next => exact .mismatch _ _ _

theorem remove_plants : Plants heap [] (container.remove key) fun _ => [] := by
  refine .get ?_
  split
  next address items found =>
    obtain ⟨rfl, here⟩ := contents_of_cell? found
    refine .quiet (.seqIndex _ _ _) fun index => .write ?_
    rw [here]
    exact .of_sublist (List.eraseIdx_sublist items index)
  next address entries found =>
    obtain ⟨rfl, here⟩ := contents_of_cell? found
    refine .quiet (.checkKey _ _) fun _ => .get ?_
    split
    next index there =>
      refine .write ?_
      rw [here]
      exact .flatMap_sublist (List.eraseIdx_sublist entries index)
    next => exact .get (.throw _)
  next => exact .mismatch _ _ _

theorem remove_alters : Alters heap container true (container.remove key) := by
  refine .get ?_
  split
  next address items found =>
    obtain ⟨rfl, here⟩ := contents_of_cell? found
    refine .quiet (.seqIndex _ _ _) fun index => .write index fun step part there apart => ?_
    rw [here] at there
    exact (List.getElem?_eraseIdx_of_lt (Nat.lt_of_not_le apart)).trans there
  next address entries found =>
    obtain ⟨rfl, here⟩ := contents_of_cell? found
    refine .quiet (.checkKey _ _) fun _ => .get ?_
    split
    next index _ =>
      refine .write (2 * index) fun step part there apart => ?_
      have early : step / 2 < index := by
        have : ¬2 * index ≤ step := apart
        omega
      rw [here, Cell.map_contents_getElem?] at there
      rw [Cell.map_contents_getElem?, List.getElem?_eraseIdx_of_lt early]
      exact there
    next => exact .get (.throw _)
  next => exact .mismatch _ _ _

theorem replaceField_plants (index : Nat) : Plants heap [value] (container.replaceField index value) fun _ => [] := by
  refine .get ?_
  split
  next address items found =>
    obtain ⟨rfl, here⟩ := contents_of_cell? found
    split
    next old there =>
      refine .next (.write ?_) fun _ _ => .pure (.nil _)
      rw [here]
      exact .set items index value
    next => exact .throw _
  next address fields found =>
    obtain ⟨rfl, here⟩ := contents_of_cell? found
    split
    next name old there =>
      refine .next (.write ?_) fun _ _ => .pure (.nil _)
      rw [here, Cell.contents, Cell.contents, map_named_modify]
      exact .set (fields.map (·.2)) index value
    next => exact .throw _
  next => exact .mismatch _ _ _

theorem updateField_alters (index : Nat) : Alters heap container false (container.updateField index value) := by
  refine .andQuiet (.get ?_) fun _ => .pure _
  split
  next address items found =>
    obtain ⟨rfl, here⟩ := contents_of_cell? found
    split
    next =>
      refine .andQuiet (.write index fun step part there apart => ?_) fun _ => .pure _
      rw [here] at there
      exact (List.getElem?_set_ne (Ne.symm apart)).trans there
    next => exact .throw _
  next address fields found =>
    obtain ⟨rfl, here⟩ := contents_of_cell? found
    split
    next =>
      refine .andQuiet (.write index fun step part there apart => ?_) fun _ => .pure _
      rw [here, Cell.contents] at there
      rw [Cell.contents, map_named_modify]
      exact (List.getElem?_set_ne (Ne.symm apart)).trans there
    next => exact .throw _
  next => exact .mismatch _ _ _

theorem updateField_plants (index : Nat) : Plants heap [value] (container.updateField index value) fun _ => [] :=
  (replaceField_plants index).next fun _ _ => .pure (.refl _)

end Value

theorem UnaryOp.apply_plants {heap : Heap} (op : UnaryOp) (arg : Value) : Plants heap [] (op.apply arg) fun result => [result] := by
  cases op with
  | not => exact .quiet (.asBool _ _) fun _ => .pure (.scalar (by simp) [])
  | neg =>
      refine .quiet (.asInt _ _) fun number => ?_
      split
      · exact .throw _
      · exact .pure (.scalar (by simp) [])
  | keys => exact Value.keys_plants
  | values => exact Value.values_plants
  | sizeof => exact .quiet (.size _) fun _ => .pure (.scalar (by simp) [])

theorem BinaryOp.apply_plants {heap : Heap} {op : BinaryOp} (computes : op ≠ .index) (lhs rhs : Value) :
    Plants heap [] (op.apply lhs rhs) fun result => [result] := by
  cases op with
  | add | sub | mul | lt | le | gt | ge => exact .quiet (.ints _ _ _) fun _ => .pure (.scalar (by simp) [])
  | div =>
      refine .quiet (.ints _ _ _) fun pair => ?_
      dsimp only
      split
      · exact .throw _
      · exact .pure (.scalar (by simp) [])
  | and | or =>
      refine .quiet (.asBool _ _) fun holds => ?_
      split
      all_goals first | exact .pure (.scalar (by simp) []) | exact .quiet (.asBool _ _) fun _ => .pure (.scalar (by simp) [])
  | eq | ne => exact .get (.pure (.scalar (by simp) []))
  | index => exact absurd rfl computes
  | mem => exact .quiet (.containsKey _ _) fun _ => .pure (.scalar (by simp) [])

end Reentry
