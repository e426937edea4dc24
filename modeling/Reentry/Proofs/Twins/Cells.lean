import Mathlib.Data.List.Forall2
import Reentry.Proofs.Twins.Depth
import Reentry.Value.Container

/-!
Twin heaps: cells of the one are paired with cells of the other, one to one, so that paired cells hold the same in the
same places, where a cell inside counts as the same as the cell that it is paired with. There may be other cells that are
paired with none. Whatever looks at twin values sees the same, also where it compares names of cells.
-/

namespace Reentry

/-- Which cells of two heaps go together. -/
abbrev Pairing := Address → Address → Prop

/-- What goes together in the first pairing goes together in the second one. -/
def Pairing.Within (pairs more : Pairing) : Prop := ∀ left right, pairs left right → more left right

theorem Pairing.Within.refl (pairs : Pairing) : pairs.Within pairs := fun _ _ => id

theorem Pairing.Within.trans {pairs more most : Pairing} (first : pairs.Within more) (second : more.Within most) : pairs.Within most :=
  fun left right paired => second left right (first left right paired)

inductive Value.Twin (pairs : Pairing) : Value → Value → Prop
  | scalar {value : Value} (scalar : ∀ address, value ≠ .cell address) : Twin pairs value value
  | cell {left right : Address} (paired : pairs left right) : Twin pairs (.cell left) (.cell right)

/-- Values that go together, one by one. -/
abbrev Twins (pairs : Pairing) : List Value → List Value → Prop := List.Forall₂ (Value.Twin pairs)

structure Entry.Twin (pairs : Pairing) (left right : Entry) : Prop where
  key : left.key.Twin pairs right.key
  imprint : left.imprint = right.imprint
  value : left.value.Twin pairs right.value

/-- Named values that go together. -/
structure FieldTwin (pairs : Pairing) (left right : String × Value) : Prop where
  name : left.1 = right.1
  value : left.2.Twin pairs right.2

inductive Cell.Twin (pairs : Pairing) : Cell → Cell → Prop
  | tuple {left right : List Value} (items : Twins pairs left right) : Twin pairs (.tuple left) (.tuple right)
  | named {left right : List (String × Value)} (fields : List.Forall₂ (FieldTwin pairs) left right) : Twin pairs (.named left) (.named right)
  | seq {left right : List Value} (items : Twins pairs left right) : Twin pairs (.seq left) (.seq right)
  | map {left right : List Entry} (entries : List.Forall₂ (Entry.Twin pairs) left right) : Twin pairs (.map left) (.map right)

structure Heap.Twin (pairs : Pairing) (left right : Heap) : Prop where
  forth : ∀ {cell one other}, pairs cell one → pairs cell other → one = other
  back : ∀ {cell one other}, pairs one cell → pairs other cell → one = other
  allocated : ∀ {cell other}, pairs cell other → cell.index < left.size ∧ other.index < right.size
  cells : ∀ {cell other}, pairs cell other → (left.read cell).Twin pairs (right.read other)

section

variable {pairs more : Pairing}

namespace Value.Twin

variable {left right : Value}

theorem mono (twin : left.Twin pairs right) (within : pairs.Within more) : left.Twin more right := by
  cases twin with
  | scalar scalar => exact .scalar scalar
  | cell paired => exact .cell (within _ _ paired)

theorem null : Value.null.Twin pairs .null := .scalar (by simp)
theorem bool {chosen : Bool} : (Value.bool chosen).Twin pairs (.bool chosen) := .scalar (by simp)
theorem int {number : Int64} : (Value.int number).Twin pairs (.int number) := .scalar (by simp)
theorem machine {id : MachineId} : (Value.machine id).Twin pairs (.machine id) := .scalar (by simp)

theorem getD {one other : Option Value} (twin : Option.Rel (Value.Twin pairs) one other) :
    (one.getD .null).Twin pairs (other.getD .null) := by
  cases twin with
  | none => exact null
  | some twin => exact twin

end Value.Twin

namespace Twins

variable {left right : List Value}

theorem mono (twins : Twins pairs left right) (within : pairs.Within more) : Twins more left right :=
  twins.imp fun _ _ twin => twin.mono within

end Twins

theorem Entry.Twin.mono {left right : Entry} (twin : left.Twin pairs right) (within : pairs.Within more) : left.Twin more right :=
  ⟨twin.key.mono within, twin.imprint, twin.value.mono within⟩

theorem Cell.Twin.mono {left right : Cell} (twin : left.Twin pairs right) (within : pairs.Within more) : left.Twin more right := by
  cases twin with
  | tuple items => exact .tuple (items.imp fun _ _ twin => twin.mono within)
  | named fields => exact .named (fields.imp fun _ _ twin => ⟨twin.name, twin.value.mono within⟩)
  | seq items => exact .seq (items.imp fun _ _ twin => twin.mono within)
  | map entries => exact .map (entries.imp fun _ _ twin => twin.mono within)

/-- What twin cells hold goes together. -/
theorem Cell.Twin.contents {left right : Cell} (twin : left.Twin pairs right) : Twins pairs left.contents right.contents := by
  cases twin with
  | tuple items | seq items => exact items
  | named fields =>
      exact List.forall₂_map_left_iff.mpr (List.forall₂_map_right_iff.mpr (fields.imp fun _ _ twin => twin.value))
  | map entries =>
      simp only [Cell.contents]
      induction entries with
      | nil => exact .nil
      | cons entry _ ih => exact .cons entry.key (.cons entry.value ih)

end

/-! Passes over lists of items that go together. -/

section

variable {α β γ : Type} {like : α → β → Prop} {items : List α} {others : List β}

theorem mapM_twin {work : α → Option γ} {work' : β → Option γ} (twins : List.Forall₂ like items others)
    (same : ∀ {item other}, like item other → work item = work' other) : items.mapM work = others.mapM work' := by
  induction twins with
  | nil => rfl
  | cons twin _ ih => rw [List.mapM_cons, List.mapM_cons, same twin, ih]

theorem map_twin {view : α → γ} {view' : β → γ} (twins : List.Forall₂ like items others)
    (same : ∀ {item other}, like item other → view item = view' other) : items.map view = others.map view' := by
  induction twins with
  | nil => rfl
  | cons twin _ ih => rw [List.map_cons, List.map_cons, same twin, ih]

theorem every?_twin {test : α → Option Bool} {test' : β → Option Bool} (twins : List.Forall₂ like items others)
    (same : ∀ {item other}, like item other → test item = test' other) : every? test items = every? test' others := by
  induction twins with
  | nil => rfl
  | cons twin _ ih => rw [every?, every?, same twin, ih]

theorem all_twin {test : α → Bool} {test' : β → Bool} (twins : List.Forall₂ like items others)
    (same : ∀ {item other}, like item other → test item = test' other) : items.all test = others.all test' := by
  induction twins with
  | nil => rfl
  | cons twin _ ih => rw [List.all_cons, List.all_cons, same twin, ih]

theorem any_twin {test : α → Bool} {test' : β → Bool} (twins : List.Forall₂ like items others)
    (same : ∀ {item other}, like item other → test item = test' other) : items.any test = others.any test' := by
  induction twins with
  | nil => rfl
  | cons twin _ ih => rw [List.any_cons, List.any_cons, same twin, ih]

theorem firstWhere?_twin {test : α → Option Bool} {test' : β → Option Bool} (twins : List.Forall₂ like items others)
    (same : ∀ {item other}, like item other → test item = test' other) : firstWhere? test items = firstWhere? test' others := by
  induction twins with
  | nil => rfl
  | cons twin _ ih => rw [firstWhere?, firstWhere?, same twin, ih]

theorem findIdx?_twin {test : α → Bool} {test' : β → Bool} (twins : List.Forall₂ like items others)
    (same : ∀ {item other}, like item other → test item = test' other) : items.findIdx? test = others.findIdx? test' := by
  induction twins with
  | nil => rfl
  | cons twin _ ih => rw [List.findIdx?_cons, List.findIdx?_cons, same twin, ih]

theorem everyPair?_twin {α' β' : Type} {like' : α' → β' → Prop} {items' : List α'} {others' : List β'} {test : α → α' → Option Bool}
    {test' : β → β' → Option Bool} (twins : List.Forall₂ like items others) (twins' : List.Forall₂ like' items' others')
    (same : ∀ {item other item' other'}, like item other → like' item' other' → test item item' = test' other other') :
    everyPair? test items items' = everyPair? test' others others' := by
  induction twins generalizing items' others' with
  | nil => cases twins' <;> rfl
  | cons twin _ ih =>
      cases twins' with
      | nil => rfl
      | cons twin' twins' => rw [everyPair?, everyPair?, same twin twin', ih twins']

/-- At every index there are items that go together, or none. -/
theorem getElem?_twin (twins : List.Forall₂ like items others) (index : Nat) : Option.Rel like items[index]? others[index]? := by
  induction twins generalizing index with
  | nil => exact .none
  | cons twin _ ih =>
      cases index with
      | zero => exact .some twin
      | succ index => exact ih index

theorem modify_twin {change : α → α} {change' : β → β} (twins : List.Forall₂ like items others) (index : Nat)
    (same : ∀ {item other}, like item other → like (change item) (change' other)) :
    List.Forall₂ like (items.modify index change) (others.modify index change') := by
  induction twins generalizing index with
  | nil => simp
  | cons twin rest ih =>
      cases index with
      | zero => exact .cons (same twin) rest
      | succ index => exact .cons twin (ih index)

theorem set_twin {item : α} {other : β} (twins : List.Forall₂ like items others) (index : Nat) (twin : like item other) :
    List.Forall₂ like (items.set index item) (others.set index other) := by
  induction twins generalizing index with
  | nil => exact .nil
  | cons first rest ih =>
      cases index with
      | zero => exact .cons twin rest
      | succ index => exact .cons first (ih index)

theorem eraseIdx_twin (twins : List.Forall₂ like items others) (index : Nat) :
    List.Forall₂ like (items.eraseIdx index) (others.eraseIdx index) := by
  induction twins generalizing index with
  | nil => exact .nil
  | cons first rest ih =>
      cases index with
      | zero => exact rest
      | succ index => exact .cons first (ih index)

theorem insertIdx_twin {item : α} {other : β} (twins : List.Forall₂ like items others) (index : Nat) (twin : like item other) :
    List.Forall₂ like (items.insertIdx index item) (others.insertIdx index other) := by
  induction twins generalizing index with
  | nil =>
      cases index with
      | zero => exact .cons twin .nil
      | succ index => exact .nil
  | cons first rest ih =>
      cases index with
      | zero => exact .cons twin (.cons first rest)
      | succ index => exact .cons first (ih index)

theorem append_twin {items' : List α} {others' : List β} (twins : List.Forall₂ like items others)
    (twins' : List.Forall₂ like items' others') : List.Forall₂ like (items ++ items') (others ++ others') := List.rel_append twins twins'

end

namespace Heap.Twin

variable {pairs : Pairing} {heap other : Heap} {value value' : Value}

/-- Cells are the same if the cells that they are paired with are. -/
theorem same_iff (twin : heap.Twin pairs other) {left right left' right' : Address} (paired : pairs left left')
    (paired' : pairs right right') : left = right ↔ left' = right' := by
  constructor
  · rintro rfl
    exact twin.forth paired paired'
  · rintro rfl
    exact twin.back paired paired'

theorem treeWithin? (twin : heap.Twin pairs other) : ∀ {levels : Nat} {value value' : Value}, value.Twin pairs value' →
    heap.treeWithin? levels value = other.treeWithin? levels value'
  | 0, value, value', twin' => by
      cases twin' with
      | scalar _ => cases value <;> rfl
      | cell _ => rfl
  | levels + 1, value, value', twin' => by
      cases twin' with
      | scalar scalar => cases value <;> first | rfl | exact absurd rfl (scalar _)
      | @cell left right paired =>
          have cells := twin.cells paired
          simp only [Heap.treeWithin?]
          generalize heap.read left = cell, other.read right = cell' at cells ⊢
          cases cells with
          | tuple items | seq items => exact congrArg (Option.map _) (mapM_twin items fun item => treeWithin? twin item)
          | named fields =>
              exact congrArg (Option.map _) (mapM_twin fields fun field => by rw [treeWithin? twin field.value, field.name])
          | map entries =>
              exact congrArg (Option.map _) (mapM_twin entries fun entry => by
                rw [treeWithin? twin entry.key, treeWithin? twin entry.value])

/-- Twin values have one tree. -/
theorem tree (twin : heap.Twin pairs other) (twin' : value.Twin pairs value') : heap.tree value = other.tree value' := by
  let deep := max (heap.size + 1) (other.size + 1)
  have left := Heap.treeWithin?_enough (Nat.lt_of_succ_le (Nat.le_max_left (heap.size + 1) (other.size + 1))) value
  have right := Heap.treeWithin?_enough (Nat.lt_of_succ_le (Nat.le_max_right (heap.size + 1) (other.size + 1))) value'
  rw [Heap.tree, Heap.tree, ← left, ← right, treeWithin? twin twin']

theorem text (twin : heap.Twin pairs other) (twin' : value.Twin pairs value') : value.text heap = value'.text other := by
  rw [Value.text, Value.text, twin.tree twin']

theorem kindName (twin : heap.Twin pairs other) (twin' : value.Twin pairs value') : value.kindName heap = value'.kindName other := by
  cases twin' with
  | scalar scalar => cases value <;> first | rfl | exact absurd rfl (scalar _)
  | @cell left right paired =>
      have cells := twin.cells paired
      simp only [Value.kindName]
      generalize heap.read left = cell, other.read right = cell' at cells ⊢
      cases cells <;> rfl

theorem marksWithin? (twin : heap.Twin pairs other) : ∀ {levels : Nat} {value value' : Value}, value.Twin pairs value' →
    heap.marksWithin? levels value = other.marksWithin? levels value'
  | 0, value, value', twin' => by
      cases twin' with
      | scalar _ => cases value <;> rfl
      | cell _ => rfl
  | levels + 1, value, value', twin' => by
      cases twin' with
      | scalar scalar => cases value <;> first | rfl | exact absurd rfl (scalar _)
      | @cell left right paired =>
          have cells := twin.cells paired
          simp only [Heap.marksWithin?]
          generalize heap.read left = cell, other.read right = cell' at cells ⊢
          cases cells with
          | @tuple left right items | @seq left right items =>
              have passes : left.mapM (heap.marksWithin? levels) = right.mapM (other.marksWithin? levels) :=
                mapM_twin items fun item => marksWithin? twin item
              simp only [passes, items.length_eq]
          | @named left right fields =>
              have passes : left.mapM (fun field => heap.marksWithin? levels field.2)
                  = right.mapM (fun field => other.marksWithin? levels field.2) :=
                mapM_twin fields fun field => marksWithin? twin field.value
              simp only [passes, map_twin fields fun field => field.name]
          | map entries => simp only [entries.length_eq]

theorem fingerprint (twin : heap.Twin pairs other) (twin' : value.Twin pairs value') : heap.fingerprint value = other.fingerprint value' := by
  have left := Heap.marksWithin?_enough (Nat.lt_of_succ_le (Nat.le_max_left (heap.size + 1) (other.size + 1))) value
  have right := Heap.marksWithin?_enough (Nat.lt_of_succ_le (Nat.le_max_right (heap.size + 1) (other.size + 1))) value'
  rw [Heap.fingerprint, Heap.fingerprint, ← left, ← right, marksWithin? twin twin']

theorem find? {equal equal' : Value → Value → Option Bool} (twin : heap.Twin pairs other)
    (same : ∀ {left left' right right' : Value}, left.Twin pairs left' → right.Twin pairs right' → equal left right = equal' left' right')
    {key key' : Value} (twin' : key.Twin pairs key') {entries others : List Entry} (twins : List.Forall₂ (Entry.Twin pairs) entries others) :
    Entry.find? heap.fingerprint equal key entries = Entry.find? other.fingerprint equal' key' others := by
  cases twins with
  | nil => rfl
  | cons first rest =>
      cases rest with
      | nil => exact firstWhere?_twin (.cons first .nil) fun entry => same twin' entry.key
      | cons second rest =>
          simp only [Entry.find?, twin.fingerprint twin']
          refine firstWhere?_twin (.cons first (.cons second rest)) fun entry => ?_
          rw [entry.imprint, same twin' entry.key]

theorem equalWithin? (twin : heap.Twin pairs other) : ∀ {levels : Nat} {left left' right right' : Value}, left.Twin pairs left' →
    right.Twin pairs right' → heap.equalWithin? levels left right = other.equalWithin? levels left' right'
  | 0, left, left', right, right', twin', twin'' => by
      cases twin' with
      | cell _ =>
          cases twin'' with
          | cell _ => rfl
          | scalar _ => cases right <;> rfl
      | scalar scalar =>
          cases twin'' with
          | cell _ => cases left <;> rfl
          | scalar _ => cases left <;> first | rfl | exact absurd rfl (scalar _)
  | levels + 1, left, left', right, right', twin', twin'' => by
      cases twin' with
      | scalar scalar =>
          cases twin'' with
          | cell _ => cases left <;> first | rfl | exact absurd rfl (scalar _)
          | scalar _ => cases left <;> first | rfl | exact absurd rfl (scalar _)
      | @cell left left' paired =>
          cases twin'' with
          | scalar scalar => cases right <;> first | rfl | exact absurd rfl (scalar _)
          | @cell right right' paired' =>
              have cells := twin.cells paired
              have cells' := twin.cells paired'
              simp only [Heap.equalWithin?, twin.same_iff paired paired']
              congr 1
              generalize heap.read left = cell, other.read left' = cell', heap.read right = item, other.read right' = item'
                at cells cells' ⊢
              cases cells with
              | tuple items | seq items =>
                  cases cells' with
                  | tuple items' | seq items' =>
                      simp only [items.length_eq, items'.length_eq, everyPair?_twin items items' (equalWithin? twin)]
                  | named _ | map _ => rfl
              | named fields =>
                  cases cells' with
                  | named fields' =>
                      simp only [map_twin fields fun field => field.name, map_twin fields' fun field => field.name,
                        everyPair?_twin fields fields' fun field field' => equalWithin? twin field.value field'.value]
                  | tuple _ | seq _ | map _ => rfl
              | map entries =>
                  cases cells' with
                  | @map others others' entries' =>
                      simp only [entries.length_eq, entries'.length_eq]
                      congr 1
                      refine every?_twin entries fun entry => ?_
                      rw [twin.find? (equalWithin? twin) entry.key entries']
                      congr 1
                      funext place
                      cases place with
                      | none => rfl
                      | some index =>
                          simp only [Option.bind_some]
                          have items := getElem?_twin entries' index
                          generalize others[index]? = one, others'[index]? = two at items ⊢
                          cases items with
                          | none => rfl
                          | some entry' => exact equalWithin? twin entry.value entry'.value
                  | tuple _ | seq _ | named _ => rfl

theorem equal? (twin : heap.Twin pairs other) {left left' right right' : Value} (twin' : left.Twin pairs left')
    (twin'' : right.Twin pairs right') : heap.equal? left right = other.equal? left' right' := by
  let deep := max (heap.size * heap.size + 1) (other.size * other.size + 1)
  have one := Heap.equalWithin?_enough (Nat.lt_of_succ_le (Nat.le_max_left _ _) : heap.size * heap.size < deep) left right
  have two := Heap.equalWithin?_enough (Nat.lt_of_succ_le (Nat.le_max_right _ _) : other.size * other.size < deep) left' right'
  rw [← one, ← two, equalWithin? twin twin' twin'']

theorem equal (twin : heap.Twin pairs other) {left left' right right' : Value} (twin' : left.Twin pairs left')
    (twin'' : right.Twin pairs right') : heap.equal left right = other.equal left' right' := by
  rw [Heap.equal, Heap.equal, twin.equal? twin' twin'']

theorem entryIndex? (twin : heap.Twin pairs other) (twin' : value.Twin pairs value') {entries others : List Entry}
    (twins : List.Forall₂ (Entry.Twin pairs) entries others) : heap.entryIndex? value entries = other.entryIndex? value' others := by
  rw [Heap.entryIndex?, Heap.entryIndex?, twin.find? twin.equal? twin' twins]

theorem boundIndex? (twin : heap.Twin pairs other) (twin' : value.Twin pairs value') {entries others : List Entry}
    (twins : List.Forall₂ (Entry.Twin pairs) entries others) : heap.boundIndex? value entries = other.boundIndex? value' others := by
  simp only [Heap.boundIndex?, twin.fingerprint twin']
  exact findIdx?_twin twins fun entry => by rw [entry.imprint, twin.equal twin' entry.key]

/-- Bindings of twin keys to twin values. -/
theorem bind (twin : heap.Twin pairs other) {key key' : Value} (keys : key.Twin pairs key') (twin' : value.Twin pairs value')
    {entries others : List Entry} (twins : List.Forall₂ (Entry.Twin pairs) entries others) :
    List.Forall₂ (Entry.Twin pairs) (heap.bind key value entries).1 (other.bind key' value' others).1 ∧
      Option.Rel (Value.Twin pairs) (heap.bind key value entries).2 (other.bind key' value' others).2 := by
  unfold Heap.bind
  rw [twin.boundIndex? keys twins]
  cases other.boundIndex? key' others with
  | none => exact ⟨append_twin twins (.cons ⟨keys, twin.fingerprint keys, twin'⟩ .nil), .none⟩
  | some index =>
      refine ⟨modify_twin twins index fun entry => ⟨entry.key, entry.imprint, twin'⟩, ?_⟩
      have items := getElem?_twin twins index
      dsimp only
      generalize entries[index]? = one, others[index]? = two at items ⊢
      cases items with
      | none => exact .none
      | some entry => exact .some entry.value

theorem reachesWithin (twin : heap.Twin pairs other) {goal goal' : Address} (goals : pairs goal goal') :
    ∀ {levels : Nat} {value value' : Value}, value.Twin pairs value' →
      heap.reachesWithin goal levels value = other.reachesWithin goal' levels value'
  | 0, value, value', twin' => by
      cases twin' with
      | scalar scalar => cases value <;> first | rfl | exact absurd rfl (scalar _)
      | cell paired =>
          simp only [Heap.reachesWithin]
          exact Bool.eq_iff_iff.mpr (by simpa using twin.same_iff paired goals)
  | levels + 1, value, value', twin' => by
      cases twin' with
      | scalar scalar => cases value <;> first | rfl | exact absurd rfl (scalar _)
      | @cell left right paired =>
          have names : (left == goal) = (right == goal') := Bool.eq_iff_iff.mpr (by simpa using twin.same_iff paired goals)
          simp only [Heap.reachesWithin, names, any_twin (twin.cells paired).contents (reachesWithin twin goals)]

theorem reaches (twin : heap.Twin pairs other) {goal goal' : Address} (goals : pairs goal goal') (twin' : value.Twin pairs value') :
    heap.reaches value goal = other.reaches value' goal' := by
  rw [← Heap.reachesWithin_enough (Nat.le_max_left heap.size other.size) value,
    ← Heap.reachesWithin_enough (Nat.le_max_right heap.size other.size) value', twin.reachesWithin goals twin']

mutual

theorem admits (twin : heap.Twin pairs other) : (ty : Ty) → ∀ {value value' : Value}, value.Twin pairs value' →
    ty.admits heap value = ty.admits other value'
  | .tuple types, value, value', twin' => by
      cases twin' with
      | scalar scalar => cases value <;> first | rfl | exact absurd rfl (scalar _)
      | @cell left right paired =>
          have cells := twin.cells paired
          simp only [Ty.admits]
          generalize heap.read left = cell, other.read right = cell' at cells ⊢
          cases cells with
          | tuple items => simp only [items.length_eq, admitItems twin types items]
          | _ => rfl
  | .named types, value, value', twin' => by
      cases twin' with
      | scalar scalar => cases value <;> first | rfl | exact absurd rfl (scalar _)
      | @cell left right paired =>
          have cells := twin.cells paired
          simp only [Ty.admits]
          generalize heap.read left = cell, other.read right = cell' at cells ⊢
          cases cells with
          | named fields => simp only [fields.length_eq, admitFields twin types fields]
          | _ => rfl
  | .seq element, value, value', twin' => by
      cases twin' with
      | scalar scalar => cases value <;> first | rfl | exact absurd rfl (scalar _)
      | @cell left right paired =>
          have cells := twin.cells paired
          simp only [Ty.admits]
          generalize heap.read left = cell, other.read right = cell' at cells ⊢
          cases cells with
          | seq items => exact all_twin items fun item => admits twin element item
          | _ => rfl
  | .map key item, value, value', twin' => by
      cases twin' with
      | scalar scalar => cases value <;> first | rfl | exact absurd rfl (scalar _)
      | @cell left right paired =>
          have cells := twin.cells paired
          simp only [Ty.admits]
          generalize heap.read left = cell, other.read right = cell' at cells ⊢
          cases cells with
          | map entries => exact all_twin entries fun entry => by rw [admits twin key entry.key, admits twin item entry.value]
          | _ => rfl
  | .any, _, _, _ => rfl
  | .null, value, _, twin' | .bool, value, _, twin' | .int, value, _, twin' | .event, value, _, twin' | .machine, value, _, twin' => by
      cases twin' with
      | scalar _ => cases value <;> rfl
      | cell _ => rfl

theorem admitItems (twin : heap.Twin pairs other) : (types : List Ty) → ∀ {items others : List Value}, Twins pairs items others →
    Ty.admitItems heap types items = Ty.admitItems other types others
  | [], _, _, twins => by cases twins <;> rfl
  | ty :: types, _, _, twins => by
      cases twins with
      | nil => rfl
      | cons item items => rw [Ty.admitItems, Ty.admitItems, admits twin ty item, admitItems twin types items]

theorem admitFields (twin : heap.Twin pairs other) : (types : List (String × Ty)) → ∀ {fields others : List (String × Value)},
    List.Forall₂ (FieldTwin pairs) fields others → Ty.admitFields heap types fields = Ty.admitFields other types others
  | [], _, _, twins => by cases twins <;> rfl
  | (name, ty) :: types, _, _, twins => by
      cases twins with
      | nil => rfl
      | @cons field field' fields fields' item items =>
          obtain ⟨_, _⟩ := field
          obtain ⟨_, _⟩ := field'
          obtain ⟨rfl, value⟩ := item
          rw [Ty.admitFields, Ty.admitFields, admits twin ty value, admitFields twin types items]

end

end Heap.Twin

end Reentry
