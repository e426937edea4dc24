import Reentry.Proofs.Twins.Cells
import Reentry.Value.Operator

/-!
Operations on twin values in twin heaps: they fail alike, or their results are twins in heaps that are twins again. What
was paired stays paired, and new cells are paired with the new cells that take their part.
-/

namespace Reentry

/-- The pairing with one more pair. -/
def Pairing.insert (pairs : Pairing) (left right : Address) : Pairing := fun one other => pairs one other ∨ one = left ∧ other = right

theorem Pairing.within_insert (pairs : Pairing) (left right : Address) : pairs.Within (pairs.insert left right) := fun _ _ => .inl

/-- Cells may have been added, and nothing else has changed. -/
structure Heap.Extends (before after : Heap) : Prop where
  size : before.size ≤ after.size
  same : ∀ address, address.index < before.size → after.read address = before.read address

namespace Heap.Extends

variable {first second third : Heap}

theorem refl (heap : Heap) : heap.Extends heap := ⟨Nat.le_refl _, fun _ _ => rfl⟩

theorem trans (left : first.Extends second) (right : second.Extends third) : first.Extends third :=
  ⟨Nat.le_trans left.size right.size, fun address old =>
    (right.same address (Nat.lt_of_lt_of_le old left.size)).trans (left.same address old)⟩

theorem allocate (heap : Heap) (cell : Cell) : heap.Extends (heap.allocate cell) :=
  ⟨by rw [size_allocate]; exact Nat.le_succ _, fun _ old => read_allocate_of_lt old cell⟩

end Heap.Extends

namespace Heap.Twin

variable {pairs : Pairing} {heap other later : Heap} {cell cell' : Cell}

/-- Cells that are added to the one heap are paired with none. -/
theorem extendLeft (twin : heap.Twin pairs other) (extends_ : heap.Extends later) : later.Twin pairs other where
  forth := twin.forth
  back := twin.back
  allocated paired := ⟨Nat.lt_of_lt_of_le (twin.allocated paired).1 extends_.size, (twin.allocated paired).2⟩
  cells paired := by
    rw [extends_.same _ (twin.allocated paired).1]
    exact twin.cells paired

theorem extendRight (twin : heap.Twin pairs other) (extends_ : other.Extends later) : heap.Twin pairs later where
  forth := twin.forth
  back := twin.back
  allocated paired := ⟨(twin.allocated paired).1, Nat.lt_of_lt_of_le (twin.allocated paired).2 extends_.size⟩
  cells paired := by
    rw [extends_.same _ (twin.allocated paired).2]
    exact twin.cells paired

/-- A cell that is paired with none is paired with a new cell that holds the same. -/
theorem adopt (twin : heap.Twin pairs other) {address : Address} (inside : address.index < heap.size)
    (alone : ∀ partner, ¬pairs address partner) (cells : (heap.read address).Twin pairs cell') :
    heap.Twin (pairs.insert address other.next) (other.allocate cell') where
  forth := by
    rintro one two three (old | ⟨rfl, rfl⟩) (old' | ⟨new, rfl⟩)
    · exact twin.forth old old'
    · exact absurd (new ▸ old) (alone _)
    · exact absurd old' (alone _)
    · rfl
  back := by
    rintro one two three (old | ⟨rfl, rfl⟩) (old' | ⟨rfl, new⟩)
    · exact twin.back old old'
    · exact absurd (twin.allocated old).2 (by simp [new, next])
    · exact absurd (twin.allocated old').2 (by simp [next])
    · rfl
  allocated := by
    rw [size_allocate]
    rintro one two (old | ⟨rfl, rfl⟩)
    · exact ⟨(twin.allocated old).1, Nat.lt_succ_of_lt (twin.allocated old).2⟩
    · exact ⟨inside, Nat.lt_succ_self _⟩
  cells := by
    rintro one two (old | ⟨rfl, rfl⟩)
    · rw [read_allocate_of_lt (twin.allocated old).2]
      exact (twin.cells old).mono (pairs.within_insert _ _)
    · rw [read_allocate_next]
      exact cells.mono (pairs.within_insert _ _)

/-- Twin cells may be allocated. -/
theorem allocate (twin : heap.Twin pairs other) (cells : cell.Twin pairs cell') :
    (heap.allocate cell).Twin (pairs.insert heap.next other.next) (other.allocate cell') := by
  refine (twin.extendLeft (.allocate heap cell)).adopt ?_ (fun partner paired => ?_) ?_
  · rw [size_allocate]
    exact Nat.lt_succ_self _
  · exact absurd (twin.allocated paired).1 (Nat.lt_irrefl _)
  · rw [read_allocate_next]
    exact cells

/-- Paired cells may be overwritten with twin cells. -/
theorem write (twin : heap.Twin pairs other) {address address' : Address} (paired : pairs address address')
    (cells : cell.Twin pairs cell') : (heap.write address cell).Twin pairs (other.write address' cell') where
  forth := twin.forth
  back := twin.back
  allocated := by
    simp only [size_write]
    exact twin.allocated
  cells := by
    intro one two paired'
    by_cases same : one = address
    · subst same
      obtain rfl := twin.forth paired paired'
      rw [read_write_self (twin.allocated paired).1, read_write_self (twin.allocated paired).2]
      exact cells
    · have different : two ≠ address' := fun same' => same (twin.back paired' (same' ▸ paired))
      rw [read_write_of_ne _ same, read_write_of_ne _ different]
      exact twin.cells paired'

/-- Twin values name twin cells, or none. -/
theorem cell? (twin : heap.Twin pairs other) {value value' : Value} (twin' : value.Twin pairs value') :
    (heap.cell? value = none ∧ other.cell? value' = none) ∨ ∃ address address' cell cell', heap.cell? value = some (address, cell) ∧
      other.cell? value' = some (address', cell') ∧ pairs address address' ∧ cell.Twin pairs cell' := by
  cases twin' with
  | scalar scalar =>
      refine .inl ?_
      cases value <;> first | exact ⟨rfl, rfl⟩ | exact absurd rfl (scalar _)
  | cell paired => exact .inr ⟨_, _, _, _, rfl, rfl, paired, twin.cells paired⟩

end Heap.Twin

/-- Results that are the same, whatever cells go together. -/
abbrev Same {α : Type} (_ : Pairing) (left right : α) : Prop := left = right

section

variable {α β γ δ : Type} {pairs : Pairing} {heap other : Heap} {like : Pairing → α → β → Prop} {like' : Pairing → γ → δ → Prop}

/-- Work on twin heaps that gives results that go together and twin heaps again. -/
def Alloc.Twin (pairs : Pairing) (heap other : Heap) (work : Alloc α) (work' : Alloc β) (like : Pairing → α → β → Prop) : Prop :=
  heap.Twin pairs other → ∃ more, pairs.Within more ∧ (work.run heap).2.Twin more (work'.run other).2 ∧
    like more (work.run heap).1 (work'.run other).1

namespace Alloc.Twin

theorem pure {left : α} {right : β} (twin : like pairs left right) :
    Alloc.Twin pairs heap other (Pure.pure left) (Pure.pure right) like := fun heaps => ⟨pairs, .refl _, heaps, twin⟩

theorem bind {work : Alloc α} {work' : Alloc β} {rest : α → Alloc γ} {rest' : β → Alloc δ}
    (first : Alloc.Twin pairs heap other work work' like)
    (next : ∀ more heap other left right, pairs.Within more → like more left right →
      Alloc.Twin more heap other (rest left) (rest' right) like') : Alloc.Twin pairs heap other (work >>= rest) (work' >>= rest') like' := by
  intro heaps
  obtain ⟨more, within, heaps, twin⟩ := first heaps
  obtain ⟨most, within', heaps, twin⟩ := next more _ _ _ _ within twin heaps
  exact ⟨most, within.trans within', heaps, twin⟩

theorem new {cell cell' : Cell} (cells : cell.Twin pairs cell') :
    Alloc.Twin pairs heap other (Cell.new cell) (Cell.new cell') Value.Twin :=
  fun heaps => ⟨_, pairs.within_insert _ _, heaps.allocate cells, .cell (.inr ⟨rfl, rfl⟩)⟩

theorem newMap {bindings bindings' : List (Value × Value)}
    (twins : List.Forall₂ (fun left right => left.1.Twin pairs right.1 ∧ left.2.Twin pairs right.2) bindings bindings') :
    Alloc.Twin pairs heap other (Cell.newMap bindings) (Cell.newMap bindings') Value.Twin := by
  intro heaps
  have folded (entries entries' : List Entry) (same : List.Forall₂ (Entry.Twin pairs) entries entries') :
      List.Forall₂ (Entry.Twin pairs)
        (bindings.foldl (fun entries binding => (heap.bind binding.1 binding.2 entries).1) entries)
        (bindings'.foldl (fun entries binding => (other.bind binding.1 binding.2 entries).1) entries') := by
    induction twins generalizing entries entries' with
    | nil => exact same
    | cons binding _ ih => exact ih _ _ (heaps.bind binding.1 binding.2 same).1
  exact new (.map (folded [] [] .nil)) heaps

/-- Work on each item of lists whose items go together. -/
theorem mapM {work : α → Alloc γ} {work' : β → Alloc δ} {items : List α} {others : List β}
    (mono : ∀ {pairs more left right}, like pairs left right → pairs.Within more → like more left right)
    (mono' : ∀ {pairs more left right}, like' pairs left right → pairs.Within more → like' more left right)
    (each : ∀ pairs heap other left right, like pairs left right → Alloc.Twin pairs heap other (work left) (work' right) like')
    (twins : List.Forall₂ (like pairs) items others) :
    Alloc.Twin pairs heap other (items.mapM work) (others.mapM work') fun pairs => List.Forall₂ (like' pairs) := by
  induction items generalizing pairs heap other others with
  | nil =>
      cases twins
      exact pure .nil
  | cons item rest ih =>
      obtain _ | ⟨twin, twins⟩ := twins
      rw [List.mapM_cons, List.mapM_cons]
      refine (each _ _ _ _ _ twin).bind fun _ _ _ _ _ within result => ?_
      refine (ih (twins.imp fun _ _ twin => mono twin within)).bind fun _ _ _ _ _ within' results => ?_
      exact pure (.cons (mono' result within') results)

mutual

/-- A tree is stored in twin cells. -/
theorem build : (tree : Tree) → ∀ {pairs : Pairing} {heap other : Heap}, Alloc.Twin pairs heap other tree.build tree.build Value.Twin
  | .null, _, _, _ | .bool _, _, _, _ | .int _, _, _, _ | .event _, _, _, _ | .halt, _, _, _ | .machine _, _, _, _ => pure (.scalar nofun)
  | .tuple items, _, _, _ => (buildItems items).bind fun _ _ _ _ _ _ twins => new (.tuple twins)
  | .named fields, _, _, _ => (buildFields fields).bind fun _ _ _ _ _ _ twins => new (.named twins)
  | .seq items, _, _, _ => (buildItems items).bind fun _ _ _ _ _ _ twins => new (.seq twins)
  | .map entries, _, _, _ => (buildEntries entries).bind fun _ _ _ _ _ _ twins => newMap twins

theorem buildItems : (items : List Tree) → ∀ {pairs : Pairing} {heap other : Heap},
    Alloc.Twin pairs heap other (Tree.buildItems items) (Tree.buildItems items) Twins
  | [], _, _, _ => pure .nil
  | item :: rest, _, _, _ => (build item).bind fun _ _ _ _ _ _ first => (buildItems rest).bind fun _ _ _ _ _ within others =>
      pure (.cons (first.mono within) others)

theorem buildFields : (fields : List (String × Tree)) → ∀ {pairs : Pairing} {heap other : Heap},
    Alloc.Twin pairs heap other (Tree.buildFields fields) (Tree.buildFields fields) fun pairs => List.Forall₂ (FieldTwin pairs)
  | [], _, _, _ => pure .nil
  | (_, item) :: rest, _, _, _ => (build item).bind fun _ _ _ _ _ _ first => (buildFields rest).bind fun _ _ _ _ _ within others =>
      pure (.cons ⟨rfl, first.mono within⟩ others)

theorem buildEntries : (entries : List (Tree × Tree)) → ∀ {pairs : Pairing} {heap other : Heap},
    Alloc.Twin pairs heap other (Tree.buildEntries entries) (Tree.buildEntries entries) fun pairs =>
      List.Forall₂ fun left right => left.1.Twin pairs right.1 ∧ left.2.Twin pairs right.2
  | [], _, _, _ => pure .nil
  | (key, item) :: rest, _, _, _ => (build key).bind fun _ _ _ _ _ _ key => (build item).bind fun _ _ _ _ _ within value =>
      (buildEntries rest).bind fun _ _ _ _ _ within' others =>
        pure (.cons ⟨(key.mono within).mono within', value.mono within'⟩ others)

end

/-- Twin values have twin copies. -/
theorem deepCopy {value value' : Value} (twin : value.Twin pairs value') :
    Alloc.Twin pairs heap other value.deepCopy value'.deepCopy Value.Twin := by
  intro heaps
  have same := heaps.tree twin
  have built := build (heap.tree value) heaps
  simp only [Value.deepCopy, StateT.run_bind, StateT.run_get, pure_bind]
  rw [← same]
  exact built

theorem initial (ty : Ty) : Alloc.Twin pairs heap other (Value.initial ty) (Value.initial ty) Value.Twin := build ty.initial

theorem copies {view : α → Value} {view' : β → Value} {items : List α} {others : List β}
    (twins : List.Forall₂ (fun item other => (view item).Twin pairs (view' other)) items others) :
    Alloc.Twin pairs heap other (items.mapM fun item => (view item).deepCopy) (others.mapM fun item => (view' item).deepCopy) Twins :=
  @mapM _ _ _ _ _ _ _ (fun pairs item other => (view item).Twin pairs (view' other)) Value.Twin _ _ _ _
    (fun twin within => twin.mono within) (fun twin within => twin.mono within) (fun _ _ _ _ _ twin => deepCopy twin) twins

end Alloc.Twin

/-- Work fails alike, or its results go together in heaps that are twins again. -/
inductive ValueOp.Ended (pairs : Pairing) (like : Pairing → α → β → Prop) :
    Except ValueError (α × Heap) → Except ValueError (β × Heap) → Prop
  | ok {more : Pairing} {left : α} {right : β} {heap other : Heap} (within : pairs.Within more) (heaps : heap.Twin more other)
      (twin : like more left right) : Ended pairs like (.ok (left, heap)) (.ok (right, other))
  | error {error : ValueError} : Ended pairs like (.error error) (.error error)

def ValueOp.Twin (pairs : Pairing) (heap other : Heap) (work : ValueOp α) (work' : ValueOp β) (like : Pairing → α → β → Prop) : Prop :=
  heap.Twin pairs other → ValueOp.Ended pairs like (work.run heap) (work'.run other)

namespace ValueOp.Twin

theorem pure {left : α} {right : β} (twin : like pairs left right) :
    ValueOp.Twin pairs heap other (Pure.pure left) (Pure.pure right) like := fun heaps => .ok (.refl _) heaps twin

theorem throw {error : ValueError} : ValueOp.Twin pairs heap other (throw error : ValueOp α) (throw error : ValueOp β) like :=
  fun _ => .error

theorem bind {work : ValueOp α} {work' : ValueOp β} {rest : α → ValueOp γ} {rest' : β → ValueOp δ}
    (first : ValueOp.Twin pairs heap other work work' like)
    (next : ∀ more heap other left right, pairs.Within more → like more left right →
      ValueOp.Twin more heap other (rest left) (rest' right) like') :
    ValueOp.Twin pairs heap other (work >>= rest) (work' >>= rest') like' := by
  intro heaps
  have did := first heaps
  rw [StateT.run_bind, StateT.run_bind]
  generalize work.run heap = one, work'.run other = two at did ⊢
  cases did with
  | error => exact .error
  | ok within heaps twin =>
      have then_ := next _ _ _ _ _ within twin heaps
      change ValueOp.Ended pairs like' ((rest _).run _) ((rest' _).run _)
      generalize (rest _).run _ = one, (rest' _).run _ = two at then_ ⊢
      cases then_ with
      | error => exact .error
      | ok within' heaps twin => exact .ok (within.trans within') heaps twin

/-- A look at the heap. -/
theorem get {rest : Heap → ValueOp α} {rest' : Heap → ValueOp β}
    (next : heap.Twin pairs other → ValueOp.Twin pairs heap other (rest heap) (rest' other) like) :
    ValueOp.Twin pairs heap other (MonadState.get >>= rest) (MonadState.get >>= rest') like := fun heaps => next heaps heaps

theorem toOp {work : Alloc α} {work' : Alloc β} (twin : Alloc.Twin pairs heap other work work' like) :
    ValueOp.Twin pairs heap other work.toOp work'.toOp like := by
  intro heaps
  obtain ⟨more, within, heaps, results⟩ := twin heaps
  exact .ok within heaps results

theorem write {address address' : Address} {cell cell' : Cell} (paired : pairs address address') (cells : cell.Twin pairs cell') :
    ValueOp.Twin pairs heap other (modify (·.write address cell)) (modify (·.write address' cell')) Same :=
  fun heaps => .ok (.refl _) (heaps.write paired cells) rfl

theorem mismatch {value value' : Value} (twin : value.Twin pairs value') (op expected : String) :
    ValueOp.Twin pairs heap other (Value.mismatch op expected value : ValueOp α) (Value.mismatch op expected value' : ValueOp β) like :=
  .get fun heaps => by
    rw [heaps.kindName twin]
    exact throw

end ValueOp.Twin

end

namespace Value

open ValueOp.Twin

variable {pairs : Pairing} {heap other : Heap} {value value' key key' container container' : Value}

theorem asBool_twin (op : String) (twin : value.Twin pairs value') : ValueOp.Twin pairs heap other (value.asBool op) (value'.asBool op) Same := by
  cases twin with
  | scalar scalar => cases value <;> first | exact .pure rfl | exact .mismatch (.scalar scalar) _ _
  | cell paired => exact .mismatch (.cell paired) _ _

theorem asInt_twin (op : String) (twin : value.Twin pairs value') : ValueOp.Twin pairs heap other (value.asInt op) (value'.asInt op) Same := by
  cases twin with
  | scalar scalar => cases value <;> first | exact .pure rfl | exact .mismatch (.scalar scalar) _ _
  | cell paired => exact .mismatch (.cell paired) _ _

theorem asMachine_twin (op : String) (twin : value.Twin pairs value') :
    ValueOp.Twin pairs heap other (value.asMachine op) (value'.asMachine op) Same := by
  cases twin with
  | scalar scalar => cases value <;> first | exact .pure rfl | exact .mismatch (.scalar scalar) _ _
  | cell paired => exact .mismatch (.cell paired) _ _

theorem seqIndex_twin (twin : key.Twin pairs key') (length : Nat) (inclusive : Bool) :
    ValueOp.Twin pairs heap other (key.seqIndex length inclusive) (key'.seqIndex length inclusive) Same := by
  refine (asInt_twin _ twin).bind fun _ _ _ index _ _ same => ?_
  obtain rfl := same
  by_cases inside : 0 ≤ index ∧ index.toInt.toNat < (if inclusive = true then length + 1 else length)
  · rw [if_pos inside]
    exact .pure rfl
  · rw [if_neg inside]
    exact .throw

theorem checkKey_twin (twin : key.Twin pairs key') {map map' : Address} (paired : pairs map map') :
    ValueOp.Twin pairs heap other (key.checkKey map) (key'.checkKey map') Same :=
  .get fun heaps => by
    rw [heaps.reaches paired twin]
    split
    · exact .throw
    · exact .pure rfl

theorem size_twin (twin : container.Twin pairs container') : ValueOp.Twin pairs heap other container.size container'.size Same := by
  refine .get fun heaps => ?_
  rcases heaps.cell? twin with ⟨left, right⟩ | ⟨_, _, cell, cell', left, right, _, cells⟩ <;> rw [left, right]
  · exact .mismatch twin _ _
  · cases cells with
    | seq items => exact .pure (congrArg Int64.ofNat items.length_eq)
    | map entries => exact .pure (congrArg Int64.ofNat entries.length_eq)
    | tuple _ | named _ => exact .mismatch twin _ _

theorem keys_twin (twin : container.Twin pairs container') : ValueOp.Twin pairs heap other container.keys container'.keys Value.Twin := by
  refine .get fun heaps => ?_
  rcases heaps.cell? twin with ⟨left, right⟩ | ⟨_, _, cell, cell', left, right, _, cells⟩ <;> rw [left, right]
  · exact .mismatch twin _ _
  · cases cells with
    | map entries =>
        exact .toOp ((Alloc.Twin.copies (entries.imp fun _ _ entry => entry.key)).bind fun _ _ _ _ _ _ twins => .new (.seq twins))
    | seq _ | tuple _ | named _ => exact .mismatch twin _ _

theorem values_twin (twin : container.Twin pairs container') :
    ValueOp.Twin pairs heap other container.values container'.values Value.Twin := by
  refine .get fun heaps => ?_
  rcases heaps.cell? twin with ⟨left, right⟩ | ⟨_, _, cell, cell', left, right, _, cells⟩ <;> rw [left, right]
  · exact .mismatch twin _ _
  · cases cells with
    | map entries =>
        exact .toOp ((Alloc.Twin.copies (entries.imp fun _ _ entry => entry.value)).bind fun _ _ _ _ _ _ twins => .new (.seq twins))
    | seq _ | tuple _ | named _ => exact .mismatch twin _ _

theorem containsKey_twin (twin : container.Twin pairs container') (keys : key.Twin pairs key') :
    ValueOp.Twin pairs heap other (container.containsKey key) (container'.containsKey key') Same := by
  refine .get fun heaps => ?_
  rcases heaps.cell? twin with ⟨left, right⟩ | ⟨_, _, cell, cell', left, right, _, cells⟩ <;> rw [left, right]
  · exact .mismatch twin _ _
  · cases cells with
    | map entries =>
        refine .get fun heaps => .pure ?_
        rw [heaps.entryIndex? keys entries]
    | seq _ | tuple _ | named _ => exact .mismatch twin _ _

theorem lookup_twin (twin : container.Twin pairs container') (keys : key.Twin pairs key') :
    ValueOp.Twin pairs heap other (container.lookup key) (container'.lookup key') Value.Twin := by
  refine .get fun heaps => ?_
  rcases heaps.cell? twin with ⟨left, right⟩ | ⟨_, _, cell, cell', left, right, _, cells⟩ <;> rw [left, right]
  · exact .mismatch twin _ _
  · cases cells with
    | seq items =>
        dsimp only
        rw [items.length_eq]
        refine (seqIndex_twin keys _ false).bind fun _ _ _ index _ within same => ?_
        obtain rfl := same
        exact .pure (Value.Twin.getD (getElem?_twin (items.mono within) index))
    | @map entries entries' same =>
        refine .get fun heaps => ?_
        rw [heaps.entryIndex? keys same]
        cases other.entryIndex? key' entries' with
        | none =>
            dsimp only [Option.bind_none]
            rw [heaps.text keys]
            exact .throw
        | some index =>
            have found := getElem?_twin same index
            dsimp only [Option.bind_some]
            generalize entries[index]? = one, entries'[index]? = two at found ⊢
            cases found with
            | none =>
                dsimp only
                rw [heaps.text keys]
                exact .throw
            | some entry => exact .pure entry.value
    | tuple _ | named _ => exact .mismatch twin _ _

theorem bindCopy_twin {map map' : Address} (paired : pairs map map') (keys : key.Twin pairs key') (twin : value.Twin pairs value')
    {entries entries' : List Entry} (same : List.Forall₂ (Entry.Twin pairs) entries entries') :
    ValueOp.Twin pairs heap other (Value.bindCopy map key value entries) (Value.bindCopy map' key' value' entries') Value.Twin := by
  refine (toOp (Alloc.Twin.deepCopy keys)).bind fun _ _ _ _ _ within copy => .get fun heaps => ?_
  have bound := heaps.bind copy (twin.mono within) (same.imp fun _ _ entry => entry.mono within)
  exact (ValueOp.Twin.write (within _ _ paired) (.map bound.1)).bind fun _ _ _ _ _ within' _ => .pure ((Value.Twin.getD bound.2).mono within')

theorem replace_twin (twin : container.Twin pairs container') (keys : key.Twin pairs key') (new : value.Twin pairs value') :
    ValueOp.Twin pairs heap other (container.replace key value) (container'.replace key' value') Value.Twin := by
  refine .get fun heaps => ?_
  rcases heaps.cell? twin with ⟨left, right⟩ | ⟨_, _, cell, cell', left, right, paired, cells⟩ <;> rw [left, right]
  · exact .mismatch twin _ _
  · cases cells with
    | seq items =>
        dsimp only
        rw [items.length_eq]
        refine (seqIndex_twin keys _ false).bind fun _ _ _ index _ within same => ?_
        obtain rfl := same
        have items := items.mono within
        refine (ValueOp.Twin.write (within _ _ paired) (.seq (set_twin items index (new.mono within)))).bind fun _ _ _ _ _ within' _ => ?_
        exact .pure ((Value.Twin.getD (getElem?_twin items index)).mono within')
    | map entries =>
        exact (checkKey_twin keys paired).bind fun _ _ _ _ _ within _ =>
          bindCopy_twin (within _ _ paired) (keys.mono within) (new.mono within) (entries.imp fun _ _ entry => entry.mono within)
    | tuple _ | named _ => exact .mismatch twin _ _

theorem update_twin (twin : container.Twin pairs container') (keys : key.Twin pairs key') (new : value.Twin pairs value') :
    ValueOp.Twin pairs heap other (container.update key value) (container'.update key' value') Same :=
  (replace_twin twin keys new).bind fun _ _ _ _ _ _ _ => .pure rfl

theorem remove_twin (twin : container.Twin pairs container') (keys : key.Twin pairs key') :
    ValueOp.Twin pairs heap other (container.remove key) (container'.remove key') Same := by
  refine .get fun heaps => ?_
  rcases heaps.cell? twin with ⟨left, right⟩ | ⟨_, _, cell, cell', left, right, paired, cells⟩ <;> rw [left, right]
  · exact .mismatch twin _ _
  · cases cells with
    | seq items =>
        dsimp only
        rw [items.length_eq]
        refine (seqIndex_twin keys _ false).bind fun _ _ _ index _ within same => ?_
        obtain rfl := same
        exact ValueOp.Twin.write (within _ _ paired) (.seq (eraseIdx_twin (items.mono within) index))
    | map entries =>
        refine (checkKey_twin keys paired).bind fun _ _ _ _ _ within _ => .get fun heaps => ?_
        have entries := entries.imp fun _ _ (entry : Entry.Twin pairs _ _) => entry.mono within
        rw [heaps.entryIndex? (keys.mono within) entries]
        split
        · exact ValueOp.Twin.write (within _ _ paired) (.map (eraseIdx_twin entries _))
        · refine .get fun heaps => ?_
          rw [heaps.text (keys.mono within)]
          exact .throw
    | tuple _ | named _ => exact .mismatch twin _ _

theorem insert_twin (twin : container.Twin pairs container') (keys : key.Twin pairs key') (new : value.Twin pairs value') :
    ValueOp.Twin pairs heap other (container.insert key value) (container'.insert key' value') Same := by
  refine .get fun heaps => ?_
  rcases heaps.cell? twin with ⟨left, right⟩ | ⟨_, _, cell, cell', left, right, paired, cells⟩ <;> rw [left, right]
  · exact .mismatch twin _ _
  · cases cells with
    | seq items =>
        dsimp only
        rw [items.length_eq]
        refine (seqIndex_twin keys _ true).bind fun _ _ _ index _ within same => ?_
        obtain rfl := same
        exact ValueOp.Twin.write (within _ _ paired) (.seq (insertIdx_twin (items.mono within) index (new.mono within)))
    | map entries =>
        refine (checkKey_twin keys paired).bind fun _ _ _ _ _ within _ => .get fun heaps => ?_
        have entries := entries.imp fun _ _ (entry : Entry.Twin pairs _ _) => entry.mono within
        rw [heaps.entryIndex? (keys.mono within) entries]
        split
        · refine .get fun heaps => ?_
          rw [heaps.text (keys.mono within)]
          exact .throw
        · exact (bindCopy_twin (within _ _ paired) (keys.mono within) (new.mono within) entries).bind fun _ _ _ _ _ _ _ => .pure rfl
    | tuple _ | named _ => exact .mismatch twin _ _

theorem field_twin (twin : container.Twin pairs container') (index : Nat) :
    ValueOp.Twin pairs heap other (container.field index) (container'.field index) Value.Twin := by
  refine .get fun heaps => ?_
  rcases heaps.cell? twin with ⟨left, right⟩ | ⟨_, _, cell, cell', left, right, _, cells⟩ <;> rw [left, right]
  · exact .mismatch twin _ _
  · cases cells with
    | @tuple items items' same =>
        have found := getElem?_twin same index
        dsimp only
        rw [same.length_eq]
        generalize items[index]? = one, items'[index]? = two at found ⊢
        cases found with
        | none => exact .throw
        | some item => exact .pure item
    | @named fields fields' same =>
        have found := getElem?_twin same index
        dsimp only
        rw [same.length_eq]
        generalize fields[index]? = one, fields'[index]? = two at found ⊢
        cases found with
        | none => exact .throw
        | some field => exact .pure field.value
    | seq _ | map _ => exact .mismatch twin _ _

theorem replaceField_twin (twin : container.Twin pairs container') (index : Nat) (new : value.Twin pairs value') :
    ValueOp.Twin pairs heap other (container.replaceField index value) (container'.replaceField index value') Value.Twin := by
  refine .get fun heaps => ?_
  rcases heaps.cell? twin with ⟨left, right⟩ | ⟨_, _, cell, cell', left, right, paired, cells⟩ <;> rw [left, right]
  · exact .mismatch twin _ _
  · cases cells with
    | @tuple items items' same =>
        have found := getElem?_twin same index
        dsimp only
        rw [same.length_eq]
        generalize items[index]? = one, items'[index]? = two at found ⊢
        cases found with
        | none => exact .throw
        | some item =>
            exact (ValueOp.Twin.write paired (.tuple (set_twin same index new))).bind fun _ _ _ _ _ within _ => .pure (item.mono within)
    | @named fields fields' same =>
        have found := getElem?_twin same index
        dsimp only
        rw [same.length_eq]
        generalize fields[index]? = one, fields'[index]? = two at found ⊢
        cases found with
        | none => exact .throw
        | some field =>
            have changed := modify_twin same index fun {one two : String × Value} (field : FieldTwin pairs one two) =>
              (⟨field.name, new⟩ : FieldTwin pairs (one.1, value) (two.1, value'))
            exact (ValueOp.Twin.write paired (.named changed)).bind fun _ _ _ _ _ within _ => .pure (field.value.mono within)
    | seq _ | map _ => exact .mismatch twin _ _

theorem updateField_twin (twin : container.Twin pairs container') (index : Nat) (new : value.Twin pairs value') :
    ValueOp.Twin pairs heap other (container.updateField index value) (container'.updateField index value') Same :=
  (replaceField_twin twin index new).bind fun _ _ _ _ _ _ _ => .pure rfl

theorem cast_twin (twin : value.Twin pairs value') (ty : Ty) :
    ValueOp.Twin pairs heap other (value.cast ty) (value'.cast ty) Value.Twin :=
  .get fun heaps => by
    rw [heaps.admits ty twin, heaps.text twin]
    split
    · exact .pure twin
    · exact .throw

end Value

section

variable {pairs : Pairing} {heap other : Heap} {left left' right right' : Value}

open ValueOp.Twin

theorem UnaryOp.apply_twin (op : UnaryOp) (twin : left.Twin pairs left') :
    ValueOp.Twin pairs heap other (op.apply left) (op.apply left') Value.Twin := by
  cases op with
  | not =>
      refine (Value.asBool_twin _ twin).bind fun _ _ _ _ _ _ same => ?_
      obtain rfl := same
      exact .pure .bool
  | neg =>
      refine (Value.asInt_twin _ twin).bind fun _ _ _ number _ _ same => ?_
      obtain rfl := same
      by_cases least : number = Int64.minValue
      · rw [if_pos least]
        exact .throw
      · rw [if_neg least]
        exact .pure .int
  | keys => exact Value.keys_twin twin
  | values => exact Value.values_twin twin
  | sizeof =>
      refine (Value.size_twin twin).bind fun _ _ _ _ _ _ same => ?_
      obtain rfl := same
      exact .pure .int

namespace BinaryOp

theorem ints_twin (op : String) (twin : left.Twin pairs left') (twin' : right.Twin pairs right') :
    ValueOp.Twin pairs heap other (ints op left right) (ints op left' right') Same := by
  refine (Value.asInt_twin op twin).bind fun _ _ _ _ _ within same => ?_
  obtain rfl := same
  refine (Value.asInt_twin op (twin'.mono within)).bind fun _ _ _ _ _ _ same => ?_
  obtain rfl := same
  exact .pure rfl

theorem apply_twin (op : BinaryOp) (twin : left.Twin pairs left') (twin' : right.Twin pairs right') :
    ValueOp.Twin pairs heap other (op.apply left right) (op.apply left' right') Value.Twin := by
  cases op with
  | add | sub | mul =>
      refine (ints_twin _ twin twin').bind fun _ _ _ _ _ _ same => ?_
      obtain rfl := same
      exact .pure .int
  | lt | le | gt | ge =>
      refine (ints_twin _ twin twin').bind fun _ _ _ _ _ _ same => ?_
      obtain rfl := same
      exact .pure .bool
  | div =>
      refine (ints_twin _ twin twin').bind fun _ _ _ numbers _ _ same => ?_
      obtain rfl := same
      by_cases zero : numbers.2 = 0
      · simp only [zero, if_true]
        exact .throw
      · simp only [zero, if_false]
        exact .pure .int
  | and | or =>
      refine (Value.asBool_twin _ twin).bind fun _ _ _ holds _ within same => ?_
      obtain rfl := same
      cases holds
      all_goals first
        | exact .pure .bool
        | refine (Value.asBool_twin _ (twin'.mono within)).bind fun _ _ _ _ _ _ same => ?_
          obtain rfl := same
          exact .pure .bool
  | eq | ne =>
      refine .get fun heaps => ?_
      rw [heaps.equal twin twin']
      exact .pure .bool
  | index => exact Value.lookup_twin twin twin'
  | mem =>
      refine (Value.containsKey_twin twin' twin).bind fun _ _ _ _ _ _ same => ?_
      obtain rfl := same
      exact .pure .bool

end BinaryOp

end

end Reentry
