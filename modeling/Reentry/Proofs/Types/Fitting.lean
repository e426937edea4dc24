import Reentry.Proofs.Custody.Acyclic
import Reentry.Proofs.Twins.Run

/-!
Values of a type. Whether a type admits a cell is a matter of what the cell holds, and does not change as long as nothing
does that the value leads to. The tree of a value says it as well; and whatever is built from a tree that a type likes is
of that type. So the values that variables start with are of their types, and copies are of the types of their originals.
-/

namespace Reentry

namespace Ty

variable {heap after : Heap} {ty : Ty} {value : Value} {address : Address} {cell : Cell}

/-- What the type asks of the contents of a cell. -/
inductive Fits (heap : Heap) : Ty → Cell → Prop
  | any (cell : Cell) : Fits heap .any cell
  | tuple {types : List Ty} {items : List Value} (each : List.Forall₂ (fun ty item => ty.admits heap item = true) types items) :
      Fits heap (.tuple types) (.tuple items)
  | named {types : List (String × Ty)} {fields : List (String × Value)}
      (each : List.Forall₂ (fun field entry => entry.1 = field.1 ∧ field.2.admits heap entry.2 = true) types fields) :
      Fits heap (.named types) (.named fields)
  | seq {element : Ty} {items : List Value} (each : ∀ item ∈ items, element.admits heap item = true) : Fits heap (.seq element) (.seq items)
  | map {key value : Ty} {entries : List Entry}
      (each : ∀ entry ∈ entries, key.admits heap entry.key = true ∧ value.admits heap entry.value = true) : Fits heap (.map key value) (.map entries)

theorem admitItems_iff {types : List Ty} {items : List Value} :
    admitItems heap types items = true ↔ List.Forall₂ (fun ty item => ty.admits heap item = true) types items := by
  induction types generalizing items with
  | nil => cases items <;> simp [admitItems]
  | cons ty types ih => cases items <;> simp [admitItems, ih]

theorem admitFields_iff {types : List (String × Ty)} {fields : List (String × Value)} :
    admitFields heap types fields = true ↔
      List.Forall₂ (fun field entry => entry.1 = field.1 ∧ field.2.admits heap entry.2 = true) types fields := by
  induction types generalizing fields with
  | nil => cases fields <;> simp [admitFields]
  | cons field types ih =>
      obtain ⟨name, ty⟩ := field
      rcases fields with _ | ⟨⟨name', value⟩, fields⟩ <;> simp [admitFields, ih]

theorem admits_cell_iff : ty.admits heap (.cell address) = true ↔ ty.Fits heap (heap.read address) := by
  cases ty with
  | any => exact ⟨fun _ => .any _, fun _ => rfl⟩
  | tuple types =>
      simp only [admits]
      cases heap.read address with
      | tuple items =>
          simp only [Bool.and_eq_true, beq_iff_eq, admitItems_iff]
          refine ⟨fun admitted => .tuple admitted.2, fun fits => ?_⟩
          cases fits with
          | tuple each => exact ⟨each.length_eq.symm, each⟩
      | _ => constructor <;> rintro ⟨⟩
  | named types =>
      simp only [admits]
      cases heap.read address with
      | named fields =>
          simp only [Bool.and_eq_true, beq_iff_eq, admitFields_iff]
          refine ⟨fun admitted => .named admitted.2, fun fits => ?_⟩
          cases fits with
          | named each => exact ⟨each.length_eq.symm, each⟩
      | _ => constructor <;> rintro ⟨⟩
  | seq element =>
      simp only [admits]
      cases heap.read address with
      | seq items =>
          simp only [List.all_eq_true]
          refine ⟨.seq, fun fits => ?_⟩
          cases fits with
          | seq each => exact each
      | _ => constructor <;> rintro ⟨⟩
  | map key value =>
      simp only [admits]
      cases heap.read address with
      | map entries =>
          simp only [List.all_eq_true, Bool.and_eq_true]
          refine ⟨.map, fun fits => ?_⟩
          cases fits with
          | map each => exact each
      | _ => constructor <;> rintro ⟨⟩
  | _ => constructor <;> rintro ⟨⟩

/-- What a value leads to decides whether it is of a type. -/
theorem admits_same (allocated : ∀ address, heap.Leads value address → address.index < heap.size) (size : heap.size ≤ after.size)
    (same : ∀ address, heap.Leads value address → after.read address = heap.read address) (ty : Ty) : ty.admits after value = ty.admits heap value := by
  have closed : heap.Closed (heap.Leads value) := by
    refine ⟨allocated, fun address leads part member goal same => ?_⟩
    subst same
    exact leads.step member .here
  have twin := Heap.Twin.same closed
  have moved : heap.Twin (.same (heap.Leads value)) after := by
    refine { twin with allocated := fun paired => ?_, cells := fun paired => ?_ }
    · exact ⟨(twin.allocated paired).1, Nat.lt_of_lt_of_le (twin.allocated paired).2 size⟩
    · obtain ⟨rfl, leads⟩ := paired
      rw [same _ leads]
      exact twin.cells ⟨rfl, leads⟩
  refine (moved.admits ty (.same fun address same => ?_)).symm
  subst same
  exact .here

/-- So it is with what a cell holds. -/
theorem Fits.same (fits : ty.Fits heap cell) (allocated : ∀ part ∈ cell.contents, ∀ address, heap.Leads part address → address.index < heap.size)
    (size : heap.size ≤ after.size) (same : ∀ part ∈ cell.contents, ∀ address, heap.Leads part address → after.read address = heap.read address) :
    ty.Fits after cell := by
  have kept (part : Value) (member : part ∈ cell.contents) (ty : Ty) (admitted : ty.admits heap part = true) : ty.admits after part = true :=
    (admits_same (allocated part member) size (same part member) ty).trans admitted
  cases fits with
  | any => exact .any _
  | tuple each =>
      refine .tuple (List.forall₂_iff_get.mpr ⟨each.length_eq, fun index bound bound' => ?_⟩)
      exact kept _ (List.get_mem _ _) _ ((List.forall₂_iff_get.mp each).2 index bound bound')
  | named each =>
      refine .named (List.forall₂_iff_get.mpr ⟨each.length_eq, fun index bound bound' => ?_⟩)
      obtain ⟨name, admitted⟩ := (List.forall₂_iff_get.mp each).2 index bound bound'
      exact ⟨name, kept _ (List.mem_map_of_mem (List.get_mem _ _)) _ admitted⟩
  | seq each => exact .seq fun item member => kept item member _ (each item member)
  | map each =>
      refine .map fun entry member => ?_
      exact ⟨kept _ (List.mem_flatMap.mpr ⟨entry, member, by simp⟩) _ (each entry member).1,
        kept _ (List.mem_flatMap.mpr ⟨entry, member, by simp⟩) _ (each entry member).2⟩

mutual

/-- Trees of the values of a type. -/
def Likes : Ty → Tree → Prop
  | .any, _ => True
  | .null, .null | .bool, .bool _ | .int, .int _ => True
  | .event, .null | .event, .event _ | .event, .halt => True
  | .machine, .null | .machine, .machine _ => True
  | .tuple types, .tuple items => LikesItems types items
  | .named types, .named fields => LikesFields types fields
  | .seq element, .seq items => ∀ item ∈ items, element.Likes item
  | .map key value, .map entries => ∀ entry ∈ entries, key.Likes entry.1 ∧ value.Likes entry.2
  | _, _ => False

def LikesItems : List Ty → List Tree → Prop
  | [], [] => True
  | ty :: types, item :: items => ty.Likes item ∧ LikesItems types items
  | _, _ => False

def LikesFields : List (String × Ty) → List (String × Tree) → Prop
  | [], [] => True
  | (name, ty) :: types, (name', item) :: fields => name' = name ∧ ty.Likes item ∧ LikesFields types fields
  | _, _ => False

end

mutual

theorem initial_liked : (ty : Ty) → ty.Likes ty.initial
  | .null | .bool | .int | .event | .machine | .any => by simp only [initial, Likes]
  | .tuple types => by simpa only [initial, Likes] using initialItems_liked types
  | .named types => by simpa only [initial, Likes] using initialFields_liked types
  | .seq _ | .map _ _ => by simp [initial, Likes]

theorem initialItems_liked : (types : List Ty) → LikesItems types (initialItems types)
  | [] => by simp only [initialItems, LikesItems]
  | ty :: types => by simpa only [initialItems, LikesItems] using ⟨initial_liked ty, initialItems_liked types⟩

theorem initialFields_liked : (types : List (String × Ty)) → LikesFields types (initialFields types)
  | [] => by simp only [initialFields, LikesFields]
  | (name, ty) :: types => by
      simpa only [initialFields, LikesFields, true_and] using ⟨initial_liked ty, initialFields_liked types⟩

end

theorem likesItems_iff {types : List Ty} {items : List Tree} : LikesItems types items ↔ List.Forall₂ Likes types items := by
  induction types generalizing items with
  | nil => cases items <;> simp [LikesItems]
  | cons ty types ih => cases items <;> simp [LikesItems, ih]

theorem likesFields_iff {types : List (String × Ty)} {fields : List (String × Tree)} :
    LikesFields types fields ↔ List.Forall₂ (fun field entry => entry.1 = field.1 ∧ field.2.Likes entry.2) types fields := by
  induction types generalizing fields with
  | nil => cases fields <;> simp [LikesFields]
  | cons field types ih =>
      obtain ⟨name, ty⟩ := field
      rcases fields with _ | ⟨⟨name', item⟩, fields⟩ <;> simp [LikesFields, ih, and_assoc]

/-- The tree of a value that is of a type is one that the type likes. -/
theorem likes_of_admits {levels : Nat} {tree : Tree} (found : heap.treeWithin? levels value = some tree) (admitted : ty.admits heap value = true) :
    ty.Likes tree := by
  induction levels generalizing value tree ty with
  | zero => cases value <;> cases found <;> cases ty <;> simp [admits] at admitted <;> simp only [Likes]
  | succ levels ih =>
      cases value with
      | cell address =>
          have fits := admits_cell_iff.mp admitted
          simp only [Heap.treeWithin?] at found
          generalize heap.read address = cell at fits found
          cases fits with
          | any => simp only [Likes]
          | @tuple types items each =>
              simp only [Option.map_eq_some_iff] at found
              obtain ⟨trees, found, rfl⟩ := found
              simp only [Likes, likesItems_iff]
              have looks := mapM_eq_some found
              refine List.forall₂_iff_get.mpr ⟨each.length_eq.trans looks.length_eq, fun index bound bound' => ?_⟩
              have inside : index < items.length := looks.length_eq ▸ bound'
              exact ih ((List.forall₂_iff_get.mp looks).2 index inside bound') ((List.forall₂_iff_get.mp each).2 index bound inside)
          | @named types fields each =>
              simp only [Option.map_eq_some_iff] at found
              obtain ⟨trees, found, rfl⟩ := found
              simp only [Likes, likesFields_iff]
              have looks := Heap.fields_look found
              refine List.forall₂_iff_get.mpr ⟨each.length_eq.trans looks.length_eq, fun index bound bound' => ?_⟩
              have inside : index < fields.length := looks.length_eq ▸ bound'
              obtain ⟨name, look⟩ := (List.forall₂_iff_get.mp looks).2 index inside bound'
              obtain ⟨name', admitted⟩ := (List.forall₂_iff_get.mp each).2 index bound inside
              exact ⟨name.symm.trans name', ih look admitted⟩
          | seq each =>
              simp only [Option.map_eq_some_iff] at found
              obtain ⟨trees, found, rfl⟩ := found
              simp only [Likes]
              intro tree among
              obtain ⟨item, member, look⟩ := exists_of_forall₂ (mapM_eq_some found).flip among
              exact ih look (each item member)
          | map each =>
              simp only [Option.map_eq_some_iff] at found
              obtain ⟨trees, found, rfl⟩ := found
              simp only [Likes]
              intro pair among
              obtain ⟨entry, member, look, look'⟩ := exists_of_forall₂ (Heap.entries_look found).flip among
              exact ⟨ih look (each entry member).1, ih look' (each entry member).2⟩
      | _ =>
          cases found
          cases ty <;> simp [admits] at admitted <;> simp only [Likes]

end Ty

namespace Heap

open Alloc

variable {heap after : Heap} {value : Value} {tree : Tree}

/-- A stored value of the type. -/
structure Stores (heap : Heap) (ty : Ty) (value : Value) : Prop where
  allocated : ∀ address, heap.Leads value address → address.index < heap.size
  admitted : ty.admits heap value = true

theorem Stores.extends {ty : Ty} (stores : heap.Stores ty value) (grows : heap.Extends after) : after.Stores ty value := by
  have same (address : Address) (leads : heap.Leads value address) : after.read address = heap.read address :=
    grows.same address (stores.allocated address leads)
  exact ⟨fun address leads => Nat.lt_of_lt_of_le (stores.allocated address (leads.before same)) grows.size,
    (Ty.admits_same stores.allocated grows.size same ty).trans stores.admitted⟩

/-- A stored value that is of every type that likes the tree. -/
structure Suits (heap : Heap) (value : Value) (tree : Tree) : Prop where
  allocated : ∀ address, heap.Leads value address → address.index < heap.size
  admits : ∀ ty : Ty, ty.Likes tree → ty.admits heap value = true

theorem Suits.extends (suits : heap.Suits value tree) (grows : heap.Extends after) : after.Suits value tree := by
  have any : heap.Stores .any value := ⟨suits.allocated, rfl⟩
  refine ⟨(any.extends grows).allocated, fun ty liked => ?_⟩
  have stores : heap.Stores ty value := ⟨suits.allocated, suits.admits ty liked⟩
  exact (stores.extends grows).admitted

theorem Suits.scalar (scalar : ∀ address, value ≠ .cell address) (admits : ∀ ty : Ty, ty.Likes tree → ty.admits heap value = true) :
    heap.Suits value tree :=
  ⟨(Founded.scalar heap scalar).allocated, admits⟩

/-- A new cell of stored values. -/
theorem allocated_new {cell : Cell} {address : Address} (allocated : ∀ part ∈ cell.contents, ∀ address, heap.Leads part address → address.index < heap.size)
    (leads : (heap.allocate cell).Leads (.cell heap.next) address) : address.index < (heap.allocate cell).size := by
  cases leads with
  | here => exact heap.next_lt_size cell
  | inside member leads =>
      rw [read_allocate_next] at member
      have before := leads.before fun goal leads => read_allocate_of_lt (allocated _ member goal leads) cell
      rw [size_allocate]
      exact Nat.lt_succ_of_lt (allocated _ member address before)

theorem admits_new {cell : Cell} {ty : Ty} (allocated : ∀ part ∈ cell.contents, ∀ address, heap.Leads part address → address.index < heap.size)
    (fits : ty.Fits heap cell) : ty.admits (heap.allocate cell) (.cell heap.next) = true := by
  rw [Ty.admits_cell_iff, read_allocate_next]
  refine fits.same allocated ?_ fun part member address leads => read_allocate_of_lt (allocated part member address leads) cell
  rw [size_allocate]
  exact Nat.le_succ _

theorem Suits.new {cell : Cell} (allocated : ∀ part ∈ cell.contents, ∀ address, heap.Leads part address → address.index < heap.size)
    (fits : ∀ ty : Ty, ty.Likes tree → ty.Fits heap cell) : Puts heap (Cell.new cell) fun after made => after.Suits made tree := by
  exact .new cell ⟨fun _ leads => allocated_new allocated leads, fun ty liked => admits_new allocated (fits ty liked)⟩

/-- Entries have the keys and values that were bound. -/
theorem bind_each {good : Value → Prop} {good' : Value → Prop} {entries : List Entry} {key : Value}
    (each : ∀ entry ∈ entries, good entry.key ∧ good' entry.value) (own : good key) (own' : good' value) :
    ∀ entry ∈ (heap.bind key value entries).1, good entry.key ∧ good' entry.value := by
  unfold Heap.bind
  cases heap.boundIndex? key entries with
  | none =>
      intro entry member
      rcases List.mem_append.mp member with old | new
      · exact each entry old
      · obtain rfl := List.mem_singleton.mp new
        exact ⟨own, own'⟩
  | some index =>
      intro entry member
      obtain ⟨position, there⟩ := List.mem_iff_getElem?.mp member
      rw [List.getElem?_modify] at there
      obtain ⟨before, found, rfl⟩ := Option.map_eq_some_iff.mp there
      have old := each before (List.mem_of_getElem? found)
      split
      · exact ⟨old.1, own'⟩
      · exact old

theorem bindings_each {good : Value → Prop} {good' : Value → Prop} {bindings : List (Value × Value)} {entries : List Entry}
    (each : ∀ entry ∈ entries, good entry.key ∧ good' entry.value) (bound : ∀ binding ∈ bindings, good binding.1 ∧ good' binding.2) :
    ∀ entry ∈ bindings.foldl (fun entries binding => (heap.bind binding.1 binding.2 entries).1) entries, good entry.key ∧ good' entry.value := by
  induction bindings generalizing entries with
  | nil => exact each
  | cons binding rest ih =>
      obtain ⟨first, later⟩ := List.forall_mem_cons.mp bound
      exact ih (bind_each each first.1 first.2) later

theorem newMap_suits {bindings : List (Value × Value)} {pairs : List (Tree × Tree)}
    (each : List.Forall₂ (fun binding pair => heap.Suits binding.1 pair.1 ∧ heap.Suits binding.2 pair.2) bindings pairs) :
    Puts heap (Cell.newMap bindings) fun after made => after.Suits made (.map pairs) := by
  have stored := @bindings_each heap (fun key => ∀ address, heap.Leads key address → address.index < heap.size)
    (fun value => ∀ address, heap.Leads value address → address.index < heap.size) bindings [] nofun fun binding member => by
      obtain ⟨pair, _, key, value⟩ := exists_of_forall₂ each member
      exact ⟨key.allocated, value.allocated⟩
  refine Suits.new (fun part member => ?_) fun ty liked => ?_
  · obtain ⟨entry, among, same⟩ := List.mem_flatMap.mp member
    simp only [List.mem_cons, List.not_mem_nil, or_false] at same
    rcases same with rfl | rfl
    · exact (stored entry among).1
    · exact (stored entry among).2
  · cases ty with
    | any => exact .any _
    | map keyTy valueTy =>
        simp only [Ty.Likes] at liked
        refine .map (@bindings_each heap (fun key => keyTy.admits heap key = true) (fun value => valueTy.admits heap value = true) bindings [] nofun
          fun binding member => ?_)
        obtain ⟨pair, among, key, value⟩ := exists_of_forall₂ each member
        exact ⟨key.admits keyTy (liked pair among).1, value.admits valueTy (liked pair among).2⟩
    | _ => simp only [Ty.Likes] at liked

end Heap

namespace Tree

open Heap Alloc

mutual

/-- What is built from a tree is of every type that likes the tree. -/
theorem build_suits (heap : Heap) : (tree : Tree) → Puts heap tree.build fun after value => after.Suits value tree
  | .null | .bool _ | .int _ | .event _ | .halt | .machine _ => .pure (.scalar nofun fun ty liked => by
      cases ty <;> first | rfl | simp only [Ty.Likes] at liked)
  | .tuple items => (buildItems_suits heap items).bind fun values after _ each => Suits.new
      (fun part member => (exists_of_forall₂ each member).choose_spec.2.allocated) fun ty liked => by
        cases ty with
        | any => exact .any _
        | tuple types =>
            simp only [Ty.Likes, Ty.likesItems_iff] at liked
            refine .tuple (List.forall₂_iff_get.mpr ⟨liked.length_eq.trans each.length_eq.symm, fun index bound bound' => ?_⟩)
            exact ((List.forall₂_iff_get.mp each).2 index bound' (each.length_eq ▸ bound')).admits _ ((List.forall₂_iff_get.mp liked).2 index bound _)
        | _ => simp only [Ty.Likes] at liked
  | .named fields => (buildFields_suits heap fields).bind fun values after _ each => Suits.new
      (fun part member => by
        obtain ⟨field, among, rfl⟩ := List.mem_map.mp member
        exact (exists_of_forall₂ each among).choose_spec.2.2.allocated) fun ty liked => by
        cases ty with
        | any => exact .any _
        | named types =>
            simp only [Ty.Likes, Ty.likesFields_iff] at liked
            refine .named (List.forall₂_iff_get.mpr ⟨liked.length_eq.trans each.length_eq.symm, fun index bound bound' => ?_⟩)
            obtain ⟨name, suits⟩ := (List.forall₂_iff_get.mp each).2 index bound' (each.length_eq ▸ bound')
            obtain ⟨name', likes⟩ := (List.forall₂_iff_get.mp liked).2 index bound (each.length_eq ▸ bound')
            exact ⟨name.trans name', suits.admits _ likes⟩
        | _ => simp only [Ty.Likes] at liked
  | .seq items => (buildItems_suits heap items).bind fun values after _ each => Suits.new
      (fun part member => (exists_of_forall₂ each member).choose_spec.2.allocated) fun ty liked => by
        cases ty with
        | any => exact .any _
        | seq element =>
            simp only [Ty.Likes] at liked
            refine .seq fun item member => ?_
            obtain ⟨tree, among, suits⟩ := exists_of_forall₂ each member
            exact suits.admits element (liked tree among)
        | _ => simp only [Ty.Likes] at liked
  | .map entries => (buildEntries_suits heap entries).bind fun bindings after _ each => newMap_suits each

theorem buildItems_suits (heap : Heap) : (items : List Tree) →
    Puts heap (buildItems items) fun after values => List.Forall₂ after.Suits values items
  | [] => .pure .nil
  | item :: rest => (build_suits heap item).bind fun _ after _ first => (buildItems_suits after rest).bind fun _ _ grows each =>
      .pure (.cons (first.extends grows) each)

theorem buildFields_suits (heap : Heap) : (fields : List (String × Tree)) → Puts heap (buildFields fields) fun after values =>
    List.Forall₂ (fun field tree => field.1 = tree.1 ∧ after.Suits field.2 tree.2) values fields
  | [] => .pure .nil
  | (_, item) :: rest => (build_suits heap item).bind fun _ after _ first => (buildFields_suits after rest).bind fun _ _ grows each =>
      .pure (.cons ⟨rfl, first.extends grows⟩ each)

theorem buildEntries_suits (heap : Heap) : (entries : List (Tree × Tree)) → Puts heap (buildEntries entries) fun after bindings =>
    List.Forall₂ (fun binding pair => after.Suits binding.1 pair.1 ∧ after.Suits binding.2 pair.2) bindings entries
  | [] => .pure .nil
  | (key, item) :: rest => (build_suits heap key).bind fun _ _ _ first => (build_suits _ item).bind fun _ _ grows second =>
      (buildEntries_suits _ rest).bind fun _ _ grows' each =>
        .pure (.cons ⟨first.extends (grows.trans grows'), second.extends grows'⟩ each)

end

end Tree

/-- A copy of a value that has an end is of the types of the value. -/
theorem Heap.Founded.copy_stores {heap : Heap} {value : Value} (founded : heap.Founded value) :
    Alloc.Puts heap value.deepCopy fun after copy => ∀ ty : Ty, ty.admits heap value = true → after.Stores ty copy := by
  obtain ⟨tree, shows⟩ := founded.grounded
  have built : Alloc.Puts heap value.deepCopy fun after copy => after.Suits copy (heap.tree value) := Tree.build_suits heap (heap.tree value)
  refine built.weaken fun after copy _ suits ty admitted => ⟨suits.allocated, suits.admits ty ?_⟩
  rw [shows.tree_eq]
  exact Ty.likes_of_admits shows.enough admitted

end Reentry
