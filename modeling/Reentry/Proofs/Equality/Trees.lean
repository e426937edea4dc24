import Mathlib.Algebra.BigOperators.Group.List.Basic
import Mathlib.Algebra.GroupWithZero.Nat
import Mathlib.Data.List.Perm.Basic
import Reentry.Value.Tree

/-!
Equality of what values look like. Two trees are the same if they are alike part by part, where it does not matter in
which order the entries of maps stand. That is an equivalence; same trees have the same marks and are equally large.
-/

namespace Reentry

namespace Tree

mutual

def Same : Tree → Tree → Prop
  | .null, .null | .halt, .halt => True
  | .bool left, .bool right => left = right
  | .int left, .int right => left = right
  | .event left, .event right => left = right
  | .machine left, .machine right => left = right
  | .tuple left, .tuple right | .seq left, .seq right => SameItems left right
  | .named left, .named right => SameFields left right
  | .map left, .map right => ∃ order, order.Perm right ∧ SameEntries left order
  | _, _ => False

def SameItems : List Tree → List Tree → Prop
  | [], [] => True
  | item :: items, other :: others => Same item other ∧ SameItems items others
  | _, _ => False

def SameFields : List (String × Tree) → List (String × Tree) → Prop
  | [], [] => True
  | (name, item) :: items, (name', other) :: others => name = name' ∧ Same item other ∧ SameFields items others
  | _, _ => False

def SameEntries : List (Tree × Tree) → List (Tree × Tree) → Prop
  | [], [] => True
  | (key, item) :: items, (key', other) :: others => Same key key' ∧ Same item other ∧ SameEntries items others
  | _, _ => False

end

/-- Keys are the same, and so is what they are bound to. -/
def SameEntry (left right : Tree × Tree) : Prop := Same left.1 right.1 ∧ Same left.2 right.2

theorem sameItems_iff {left right : List Tree} : SameItems left right ↔ List.Forall₂ Same left right := by
  induction left generalizing right with
  | nil => cases right <;> simp [SameItems]
  | cons item items ih => cases right <;> simp [SameItems, ih]

theorem sameFields_iff {left right : List (String × Tree)} :
    SameFields left right ↔ List.Forall₂ (fun one other => one.1 = other.1 ∧ Same one.2 other.2) left right := by
  induction left generalizing right with
  | nil => cases right <;> simp [SameFields]
  | cons item items ih =>
      obtain ⟨name, item⟩ := item
      rcases right with _ | ⟨⟨name', other⟩, others⟩ <;> simp [SameFields, ih, and_assoc]

theorem sameEntries_iff {left right : List (Tree × Tree)} : SameEntries left right ↔ List.Forall₂ SameEntry left right := by
  induction left generalizing right with
  | nil => cases right <;> simp [SameEntries]
  | cons item items ih =>
      obtain ⟨key, item⟩ := item
      rcases right with _ | ⟨⟨key', other⟩, others⟩ <;> simp [SameEntries, SameEntry, ih, and_assoc]

mutual

@[refl] theorem same_refl : (tree : Tree) → tree.Same tree
  | .null | .halt | .bool _ | .int _ | .event _ | .machine _ => by simp only [Same]
  | .tuple items | .seq items => by simpa only [Same] using sameItems_refl items
  | .named fields => by simpa only [Same] using sameFields_refl fields
  | .map entries => by
      simp only [Same]
      exact ⟨entries, .refl _, sameEntries_refl entries⟩

theorem sameItems_refl : (items : List Tree) → SameItems items items
  | [] => by simp only [SameItems]
  | item :: items => by simpa only [SameItems] using ⟨same_refl item, sameItems_refl items⟩

theorem sameFields_refl : (fields : List (String × Tree)) → SameFields fields fields
  | [] => by simp only [SameFields]
  | (_, item) :: fields => by simpa only [SameFields, true_and] using ⟨same_refl item, sameFields_refl fields⟩

theorem sameEntries_refl : (entries : List (Tree × Tree)) → SameEntries entries entries
  | [] => by simp only [SameEntries]
  | (key, item) :: entries => by
      simpa only [SameEntries] using ⟨same_refl key, same_refl item, sameEntries_refl entries⟩

end

mutual

theorem Same.symm : {left right : Tree} → left.Same right → right.Same left
  | .null, right, same | .halt, right, same | .bool _, right, same | .int _, right, same | .event _, right, same
  | .machine _, right, same => by
      cases right <;> simp only [Same] at same ⊢
      all_goals exact same.symm
  | .tuple items, right, same | .seq items, right, same => by
      cases right <;> simp only [Same] at same ⊢
      exact sameItems_symm same
  | .named fields, right, same => by
      cases right <;> simp only [Same] at same ⊢
      exact sameFields_symm same
  | .map entries, right, same => by
      cases right <;> simp only [Same] at same ⊢
      obtain ⟨order, perm, alike⟩ := same
      obtain ⟨turned, alike', perm'⟩ := List.perm_comp_forall₂ perm.symm (sameEntries_iff.mp (sameEntries_symm alike))
      exact ⟨turned, perm', sameEntries_iff.mpr alike'⟩

theorem sameItems_symm : {left right : List Tree} → SameItems left right → SameItems right left
  | [], right, same => by cases right <;> simp only [SameItems] at same ⊢
  | _ :: _, right, same => by
      cases right <;> simp only [SameItems] at same ⊢
      exact ⟨same.1.symm, sameItems_symm same.2⟩

theorem sameFields_symm : {left right : List (String × Tree)} → SameFields left right → SameFields right left
  | [], right, same => by cases right <;> simp only [SameFields] at same ⊢
  | (_, _) :: _, right, same => by
      rcases right with _ | ⟨⟨_, _⟩, _⟩ <;> simp only [SameFields] at same ⊢
      exact ⟨same.1.symm, same.2.1.symm, sameFields_symm same.2.2⟩

theorem sameEntries_symm : {left right : List (Tree × Tree)} → SameEntries left right → SameEntries right left
  | [], right, same => by cases right <;> simp only [SameEntries] at same ⊢
  | (_, _) :: _, right, same => by
      rcases right with _ | ⟨⟨_, _⟩, _⟩ <;> simp only [SameEntries] at same ⊢
      exact ⟨same.1.symm, same.2.1.symm, sameEntries_symm same.2.2⟩

end

mutual

theorem Same.trans : {left middle right : Tree} → left.Same middle → middle.Same right → left.Same right
  | .null, middle, right, first, second | .halt, middle, right, first, second | .bool _, middle, right, first, second
  | .int _, middle, right, first, second | .event _, middle, right, first, second | .machine _, middle, right, first, second => by
      cases middle <;> simp only [Same] at first
      all_goals cases right <;> simp only [Same] at second ⊢
      all_goals exact first.trans second
  | .tuple items, middle, right, first, second | .seq items, middle, right, first, second => by
      cases middle <;> simp only [Same] at first
      cases right <;> simp only [Same] at second ⊢
      exact sameItems_trans first second
  | .named fields, middle, right, first, second => by
      cases middle <;> simp only [Same] at first
      cases right <;> simp only [Same] at second ⊢
      exact sameFields_trans first second
  | .map entries, middle, right, first, second => by
      cases middle <;> simp only [Same] at first
      cases right <;> simp only [Same] at second ⊢
      obtain ⟨order, perm, alike⟩ := first
      obtain ⟨order', perm', alike'⟩ := second
      obtain ⟨turned, alike', perm⟩ := List.perm_comp_forall₂ perm (sameEntries_iff.mp alike')
      exact ⟨turned, perm.trans perm', sameEntries_trans alike (sameEntries_iff.mpr alike')⟩

theorem sameItems_trans : {left middle right : List Tree} → SameItems left middle → SameItems middle right → SameItems left right
  | [], middle, right, first, second => by
      cases middle <;> simp only [SameItems] at first
      exact second
  | _ :: _, middle, right, first, second => by
      cases middle <;> simp only [SameItems] at first
      cases right <;> simp only [SameItems] at second ⊢
      exact ⟨first.1.trans second.1, sameItems_trans first.2 second.2⟩

theorem sameFields_trans : {left middle right : List (String × Tree)} → SameFields left middle → SameFields middle right →
    SameFields left right
  | [], middle, right, first, second => by
      cases middle <;> simp only [SameFields] at first
      exact second
  | (_, _) :: _, middle, right, first, second => by
      rcases middle with _ | ⟨⟨_, _⟩, _⟩ <;> simp only [SameFields] at first
      rcases right with _ | ⟨⟨_, _⟩, _⟩ <;> simp only [SameFields] at second ⊢
      exact ⟨first.1.trans second.1, first.2.1.trans second.2.1, sameFields_trans first.2.2 second.2.2⟩

theorem sameEntries_trans : {left middle right : List (Tree × Tree)} → SameEntries left middle → SameEntries middle right →
    SameEntries left right
  | [], middle, right, first, second => by
      cases middle <;> simp only [SameEntries] at first
      exact second
  | (_, _) :: _, middle, right, first, second => by
      rcases middle with _ | ⟨⟨_, _⟩, _⟩ <;> simp only [SameEntries] at first
      rcases right with _ | ⟨⟨_, _⟩, _⟩ <;> simp only [SameEntries] at second ⊢
      exact ⟨first.1.trans second.1, first.2.1.trans second.2.1, sameEntries_trans first.2.2 second.2.2⟩

end

mutual

/-- Marks of a value that looks like this. -/
def marks : Tree → Fingerprint
  | .null => [.null]
  | .bool value => [.bool value]
  | .int value => [.int value]
  | .event id => [.event id]
  | .halt => [.halt]
  | .machine id => [.machine id]
  | .tuple items => .tuple items.length :: itemMarks items
  | .named fields => .named (fields.map (·.1)) :: fieldMarks fields
  | .seq items => .seq items.length :: itemMarks items
  | .map entries => [.map entries.length]

def itemMarks : List Tree → Fingerprint
  | [] => []
  | item :: items => item.marks ++ itemMarks items

def fieldMarks : List (String × Tree) → Fingerprint
  | [] => []
  | (_, item) :: fields => item.marks ++ fieldMarks fields

end

mutual

/-- How many parts there are, the tree itself included. -/
def weight : Tree → Nat
  | .null | .bool _ | .int _ | .event _ | .halt | .machine _ => 1
  | .tuple items | .seq items => itemsWeight items + 1
  | .named fields => fieldsWeight fields + 1
  | .map entries => entriesWeight entries + 1

def itemsWeight : List Tree → Nat
  | [] => 0
  | item :: items => item.weight + itemsWeight items

def fieldsWeight : List (String × Tree) → Nat
  | [] => 0
  | (_, item) :: fields => item.weight + fieldsWeight fields

def entriesWeight : List (Tree × Tree) → Nat
  | [] => 0
  | (key, item) :: entries => key.weight + item.weight + entriesWeight entries

end

theorem itemsWeight_eq (items : List Tree) : itemsWeight items = (items.map weight).sum := by
  induction items with
  | nil => rfl
  | cons item items ih => simp only [itemsWeight, ih, List.map_cons, List.sum_cons]

theorem fieldsWeight_eq (fields : List (String × Tree)) : fieldsWeight fields = (fields.map fun field => field.2.weight).sum := by
  induction fields with
  | nil => rfl
  | cons field fields ih => simp only [fieldsWeight, ih, List.map_cons, List.sum_cons]

theorem entriesWeight_eq (entries : List (Tree × Tree)) :
    entriesWeight entries = (entries.map fun entry => entry.1.weight + entry.2.weight).sum := by
  induction entries with
  | nil => rfl
  | cons entry entries ih => simp only [entriesWeight, ih, List.map_cons, List.sum_cons]

mutual

/-- Same trees have the same marks: of a map only the size is marked, and that does not depend on the order. -/
theorem Same.marks : {left right : Tree} → left.Same right → left.marks = right.marks
  | .null, right, same | .halt, right, same | .bool _, right, same | .int _, right, same | .event _, right, same
  | .machine _, right, same => by
      cases right <;> simp only [Same] at same
      all_goals simp only [Tree.marks, same]
  | .tuple items, right, same | .seq items, right, same => by
      cases right <;> simp only [Same] at same
      simp only [Tree.marks, same_itemMarks same, (sameItems_iff.mp same).length_eq]
  | .named fields, right, same => by
      cases right <;> simp only [Same] at same
      simp only [Tree.marks, (same_fieldMarks same).1, (same_fieldMarks same).2]
  | .map entries, right, same => by
      cases right <;> simp only [Same] at same
      obtain ⟨order, perm, alike⟩ := same
      simp only [Tree.marks, (sameEntries_iff.mp alike).length_eq, perm.length_eq]

theorem same_itemMarks : {left right : List Tree} → SameItems left right → itemMarks left = itemMarks right
  | [], right, same => by cases right <;> simp only [SameItems] at same ⊢
  | _ :: _, right, same => by
      cases right <;> simp only [SameItems] at same
      simp only [itemMarks, same.1.marks, same_itemMarks same.2]

theorem same_fieldMarks : {left right : List (String × Tree)} → SameFields left right →
    left.map (·.1) = right.map (·.1) ∧ fieldMarks left = fieldMarks right
  | [], right, same => by cases right <;> simp [SameFields] at same ⊢
  | (_, _) :: _, right, same => by
      rcases right with _ | ⟨⟨_, _⟩, _⟩ <;> simp only [SameFields] at same
      obtain ⟨names, marks⟩ := same_fieldMarks same.2.2
      simp only [fieldMarks, List.map_cons, same.1, same.2.1.marks, names, marks, and_self]

end

mutual

theorem Same.weight : {left right : Tree} → left.Same right → left.weight = right.weight
  | .null, right, same | .halt, right, same | .bool _, right, same | .int _, right, same | .event _, right, same
  | .machine _, right, same => by
      cases right <;> simp only [Same] at same
      all_goals simp only [Tree.weight]
  | .tuple items, right, same | .seq items, right, same => by
      cases right <;> simp only [Same] at same
      simp only [Tree.weight, same_itemsWeight same]
  | .named fields, right, same => by
      cases right <;> simp only [Same] at same
      simp only [Tree.weight, same_fieldsWeight same]
  | .map entries, right, same => by
      cases right with
      | map others =>
          simp only [Same] at same
          obtain ⟨order, perm, alike⟩ := same
          have turned : entriesWeight order = entriesWeight others := by
            rw [entriesWeight_eq, entriesWeight_eq]
            exact (perm.map _).sum_eq
          simp only [Tree.weight, same_entriesWeight alike, turned]
      | _ => simp only [Same] at same

theorem same_itemsWeight : {left right : List Tree} → SameItems left right → itemsWeight left = itemsWeight right
  | [], right, same => by cases right <;> simp only [SameItems] at same ⊢
  | _ :: _, right, same => by
      cases right <;> simp only [SameItems] at same
      simp only [itemsWeight, same.1.weight, same_itemsWeight same.2]

theorem same_fieldsWeight : {left right : List (String × Tree)} → SameFields left right → fieldsWeight left = fieldsWeight right
  | [], right, same => by cases right <;> simp only [SameFields] at same ⊢
  | (_, _) :: _, right, same => by
      rcases right with _ | ⟨⟨_, _⟩, _⟩ <;> simp only [SameFields] at same
      simp only [fieldsWeight, same.2.1.weight, same_fieldsWeight same.2.2]

theorem same_entriesWeight : {left right : List (Tree × Tree)} → SameEntries left right → entriesWeight left = entriesWeight right
  | [], right, same => by cases right <;> simp only [SameEntries] at same ⊢
  | (_, _) :: _, right, same => by
      rcases right with _ | ⟨⟨_, _⟩, _⟩ <;> simp only [SameEntries] at same
      simp only [entriesWeight, same.1.weight, same.2.1.weight, same_entriesWeight same.2.2]

end

theorem weight_pos (tree : Tree) : 0 < tree.weight := by
  cases tree <;> simp only [weight, Nat.zero_lt_succ]

/-- No two of these entries have the same key. -/
def Distinct (entries : List (Tree × Tree)) : Prop := entries.Pairwise fun first second => ¬first.1.Same second.1

/-- If as many entries with distinct keys are all found among others, the others are a permutation of them. -/
theorem Distinct.matches {left right : List (Tree × Tree)} (distinct : Distinct left) (length : left.length = right.length)
    (found : ∀ entry ∈ left, ∃ other ∈ right, SameEntry entry other) :
    ∃ order, order.Perm right ∧ List.Forall₂ SameEntry left order := by
  induction left generalizing right with
  | nil =>
      obtain rfl := List.length_eq_zero_iff.mp length.symm
      exact ⟨[], .refl _, .nil⟩
  | cons entry rest ih =>
      obtain ⟨apart, distinct⟩ := List.pairwise_cons.mp distinct
      obtain ⟨⟨other, among, alike⟩, others⟩ := List.forall_mem_cons.mp found
      obtain ⟨before, after, rfl⟩ := List.append_of_mem among
      have moved : (other :: (before ++ after)).Perm (before ++ other :: after) := List.perm_middle.symm
      obtain ⟨order, perm, matched⟩ := @ih (before ++ after) distinct (by simp at length ⊢; omega) fun entry member => by
        obtain ⟨match_, among, alike'⟩ := others entry member
        rcases List.mem_cons.mp (moved.mem_iff.mpr among) with rfl | among
        · exact absurd (alike.1.trans alike'.1.symm) (apart entry member)
        · exact ⟨match_, among, alike'⟩
      exact ⟨other :: order, (perm.cons other).trans moved, .cons alike matched⟩

mutual

/-- In no map there are two keys that are the same. -/
def Neat : Tree → Prop
  | .null | .bool _ | .int _ | .event _ | .halt | .machine _ => True
  | .tuple items | .seq items => ItemsNeat items
  | .named fields => FieldsNeat fields
  | .map entries => Distinct entries ∧ EntriesNeat entries

def ItemsNeat : List Tree → Prop
  | [] => True
  | item :: items => item.Neat ∧ ItemsNeat items

def FieldsNeat : List (String × Tree) → Prop
  | [] => True
  | (_, item) :: fields => item.Neat ∧ FieldsNeat fields

def EntriesNeat : List (Tree × Tree) → Prop
  | [] => True
  | (key, item) :: entries => key.Neat ∧ item.Neat ∧ EntriesNeat entries

end

theorem itemsNeat_iff {items : List Tree} : ItemsNeat items ↔ ∀ item ∈ items, item.Neat := by
  induction items with
  | nil => simp [ItemsNeat]
  | cons item items ih => simp [ItemsNeat, ih]

theorem fieldsNeat_iff {fields : List (String × Tree)} : FieldsNeat fields ↔ ∀ field ∈ fields, field.2.Neat := by
  induction fields with
  | nil => simp [FieldsNeat]
  | cons field fields ih => simp only [FieldsNeat, ih, List.forall_mem_cons]

theorem entriesNeat_iff {entries : List (Tree × Tree)} : EntriesNeat entries ↔ ∀ entry ∈ entries, entry.1.Neat ∧ entry.2.Neat := by
  induction entries with
  | nil => simp [EntriesNeat]
  | cons entry entries ih => simp only [EntriesNeat, ih, List.forall_mem_cons, and_assoc]

end Tree

end Reentry
