import Mathlib.Algebra.BigOperators.Group.Finset.Basic
import Mathlib.Algebra.Order.BigOperators.Group.Finset
import Mathlib.Data.Finset.Insert
import Mathlib.Data.List.Induction
import Mathlib.Data.List.NodupEquivFin
import Reentry.Proofs.Ownership.Separate

/-!
Places and what is read there. A place is a root and a path from it, which tells at each cell which of its contents
comes next. A heap is a forest as seen from its roots if no cell lies at two places. Changing parts of a cell is noticed
only at the places on the way to it and in and behind these parts.
-/

namespace Reentry

namespace Heap

/-- Part of a value: of the cell that it names, the content at that position. -/
def part? (heap : Heap) (value : Value) (step : Nat) : Option Value :=
  match value with
  | .cell address => (heap.read address).contents[step]?
  | _ => none

/-- The value at a place: the first number tells the root, the others the path from there. -/
def at? (heap : Heap) (roots : List Value) : List Nat → Option Value
  | [] => none
  | root :: path => roots[root]?.bind (path.foldlM heap.part?)

/-- No cell lies at two places. -/
def Forest (heap : Heap) (roots : List Value) : Prop :=
  ∀ place other address, heap.at? roots place = some (.cell address) → heap.at? roots other = some (.cell address) → place = other

/-- The parts that a change touches: one of them, or also those behind it. -/
def Touches (onward : Bool) (first step : Nat) : Prop := if onward then first ≤ step else step = first

/-- Apart from these parts of that one cell everything stays as it is. -/
structure Alters (before : Heap) (address : Address) (touched : Nat → Prop) (after : Heap) : Prop where
  size : before.size ≤ after.size
  elsewhere : ∀ other, other ≠ address → other.index < before.size → after.read other = before.read other
  parts : ∀ step part, (before.read address).contents[step]? = some part → ¬touched step →
    (after.read address).contents[step]? = some part

/-- What is read at a place that lies neither on the way to the cell nor in or behind these parts of it stays as it is. -/
def Spares (before : Heap) (roots : List Value) (address : Address) (touched : Nat → Prop) (after : Heap) : Prop :=
  ∀ place value, before.at? roots place = some value →
    (∀ own, before.at? roots own = some (.cell address) → ¬place <+: own ∧ ∀ step, touched step → ¬own ++ [step] <+: place) →
      after.at? roots place = some value ∧ ∀ levels, after.treeWithin? levels value = before.treeWithin? levels value

variable {heap before after : Heap} {roots : List Value} {value : Value} {address : Address} {place : List Nat} {step : Nat}

theorem part?_eq_some {part : Value} : heap.part? value step = some part ↔
    ∃ address, value = .cell address ∧ (heap.read address).contents[step]? = some part := by
  cases value <;> simp [part?]

theorem at?_singleton (heap : Heap) (roots : List Value) (root : Nat) : heap.at? roots [root] = roots[root]? := by
  simp [at?]

/-- One step further. -/
theorem at?_concat (somewhere : place ≠ []) : heap.at? roots (place ++ [step]) = (heap.at? roots place).bind (heap.part? · step) := by
  cases place with
  | nil => exact absurd rfl somewhere
  | cons root path => simp [at?, List.foldlM_append, Option.bind_assoc]

/-- What a value leads to lies behind it. -/
theorem Leads.at?_append (leads : heap.Leads value address) (here : heap.at? roots place = some value) :
    ∃ path, heap.at? roots (place ++ path) = some (.cell address) := by
  induction leads generalizing place with
  | here => exact ⟨[], by rwa [List.append_nil]⟩
  | inside member _ ih =>
      have somewhere : place ≠ [] := fun nowhere => by simp [nowhere, at?] at here
      obtain ⟨step, found⟩ := List.mem_iff_getElem?.mp member
      obtain ⟨path, there⟩ := @ih (place ++ [step]) (by rw [at?_concat somewhere, here]; exact found)
      exact ⟨step :: path, by rwa [List.append_assoc] at there⟩

/-- Changing parts of a cell is noticed only on the way to it and in and behind these parts. -/
theorem Alters.spares {touched : Nat → Prop} (alters : before.Alters address touched after)
    (allocated : ∀ place other, before.at? roots place = some (.cell other) → other.index < before.size) :
    before.Spares roots address touched after := by
  have reads (place : List Nat) (value : Value) (here : before.at? roots place = some value)
      (apart : ∀ own, before.at? roots own = some (.cell address) → ∀ step, touched step → ¬own ++ [step] <+: place) :
      after.at? roots place = some value := by
    induction place using List.reverseRecOn generalizing value with
    | nil => cases here
    | append_singleton place step ih =>
        by_cases somewhere : place = []
        · subst somewhere
          rwa [List.nil_append, at?_singleton] at here ⊢
        · rw [at?_concat somewhere] at here ⊢
          obtain ⟨parent, above, found⟩ := Option.bind_eq_some_iff.mp here
          rw [ih parent above fun own inside step among before => apart own inside step among (before.trans (List.prefix_append _ _))]
          obtain ⟨other, rfl, part⟩ := part?_eq_some.mp found
          refine part?_eq_some.mpr ⟨other, rfl, ?_⟩
          by_cases own : other = address
          · subst own
            exact alters.parts step value part fun among => apart place above step among List.prefix_rfl
          · rwa [alters.elsewhere other own (allocated place other above)]
  intro place value here apart
  refine ⟨reads place value here fun own inside => (apart own inside).2, fun levels => treeWithin?_same levels fun other leads => ?_⟩
  obtain ⟨path, there⟩ := leads.at?_append here
  refine alters.elsewhere other (fun same => ?_) (allocated _ other there)
  exact (apart (place ++ path) (same ▸ there)).1 (List.prefix_append _ _)

end Heap

end Reentry

/-!
Groves. The values in hand lead to cells of which each is named once, either among those values or in one of these
cells; so as seen from the values in hand the heap is a forest. Cells may be made around values in hand, overwritten
with values in hand and with what they had, and taken apart.
-/

namespace Reentry

/-- Every cell is named among the first values at most as often as among the others. -/
def Fewer (values others : List Value) : Prop := ∀ address, values.count (.cell address) ≤ others.count (.cell address)

namespace Fewer

variable {first second third fourth : List Value} {value : Value}

@[simp] theorem refl (values : List Value) : Fewer values values := fun _ => Nat.le_refl _

theorem trans (left : Fewer first second) (right : Fewer second third) : Fewer first third :=
  fun address => Nat.le_trans (left address) (right address)

@[simp] theorem nil (values : List Value) : Fewer [] values := fun _ => Nat.zero_le _

theorem append (left : Fewer first second) (right : Fewer third fourth) : Fewer (first ++ third) (second ++ fourth) := by
  intro address
  rw [List.count_append, List.count_append]
  exact Nat.add_le_add (left address) (right address)

theorem of_subperm (subperm : List.Subperm first second) : Fewer first second := fun _ => subperm.count_le _

theorem of_sublist (sublist : List.Sublist first second) : Fewer first second := of_subperm sublist.subperm

theorem of_perm (perm : List.Perm first second) : Fewer first second := of_subperm perm.subperm

/-- Values without parts name no cell. -/
theorem scalar (scalar : ∀ address, value ≠ .cell address) (values : List Value) : Fewer (value :: values) values := by
  intro address
  rw [List.count_cons_of_ne (scalar address)]

/-- Overwriting an element drops it. -/
theorem set (values : List Value) (index : Nat) (value : Value) : Fewer (values.set index value) (value :: values) := by
  intro address
  induction values generalizing index with
  | nil => simp
  | cons head rest ih =>
      cases index with
      | zero => simp only [List.set_cons_zero, List.count_cons]; omega
      | succ index =>
          have later := ih index
          simp only [List.set_cons_succ, List.count_cons] at later ⊢
          omega

theorem insertIdx (values : List Value) (index : Nat) (value : Value) : Fewer (values.insertIdx index value) (value :: values) := by
  by_cases bound : index ≤ values.length
  · exact of_perm (List.perm_insertIdx value values bound)
  · rw [List.insertIdx_of_length_lt (Nat.lt_of_not_le bound)]
    exact of_sublist (List.sublist_cons_self value values)

end Fewer

namespace Heap

/-- How often a cell is named among the values and in cells of the set. -/
def named (heap : Heap) (live : Finset Address) (held : List Value) (address : Address) : Nat :=
  held.count (.cell address) + ∑ owner ∈ live, (heap.read owner).contents.count (.cell address)

/-- Cells of which each is named at most once, among them all that the values lead to. -/
structure Tended (heap : Heap) (live : Finset Address) (held : List Value) : Prop where
  allocated : ∀ address ∈ live, address.index < heap.size
  once : ∀ address, heap.named live held address ≤ if address ∈ live then 1 else 0

/-- The values in hand lead to cells of which each is named once. -/
def Grove (heap : Heap) (held : List Value) : Prop := ∃ live, heap.Tended live held

variable {heap after : Heap} {live : Finset Address} {held values fewer : List Value} {value : Value} {address : Address}

/-- A value that is named once stands at one position. -/
theorem position_eq {first second : Nat} (once : values.count value ≤ 1) (here : values[first]? = some value)
    (there : values[second]? = some value) : first = second := by
  by_contra different
  have twice : 2 ≤ values.count value := by
    rw [← List.duplicate_iff_two_le_count, List.duplicate_iff_exists_distinct_get]
    obtain ⟨bound, at_first⟩ := List.getElem?_eq_some_iff.mp here
    obtain ⟨bound', at_second⟩ := List.getElem?_eq_some_iff.mp there
    rcases Nat.lt_or_gt_of_ne different with before | before
    · exact ⟨⟨first, bound⟩, ⟨second, bound'⟩, before, at_first.symm, at_second.symm⟩
    · exact ⟨⟨second, bound'⟩, ⟨first, bound⟩, before, at_second.symm, at_first.symm⟩
  omega

theorem named_append (first second : List Value) (address : Address) :
    heap.named live (first ++ second) address = first.count (.cell address) + heap.named live second address := by
  unfold named
  rw [List.count_append]
  omega

namespace Tended

theorem mem_of_mem (tended : heap.Tended live held) (member : .cell address ∈ held) : address ∈ live := by
  have positive : 0 < held.count (.cell address) := List.count_pos_iff.mpr member
  have once := tended.once address
  unfold named at once
  by_contra outside
  rw [if_neg outside] at once
  omega

theorem mem_of_inside (tended : heap.Tended live held) {owner : Address} (inside : owner ∈ live)
    (member : .cell address ∈ (heap.read owner).contents) : address ∈ live := by
  have positive : 0 < (heap.read owner).contents.count (.cell address) := List.count_pos_iff.mpr member
  have part := Finset.single_le_sum (f := fun owner => (heap.read owner).contents.count (.cell address))
    (fun _ _ => Nat.zero_le _) inside
  have once := tended.once address
  unfold named at once
  by_contra outside
  rw [if_neg outside] at once
  omega

/-- Values in hand may be dropped. -/
theorem mono (tended : heap.Tended live held) (less : Fewer fewer held) : heap.Tended live fewer :=
  ⟨tended.allocated, fun address => Nat.le_trans (Nat.add_le_add_right (less address) _) (tended.once address)⟩

/-- Elsewhere the heap may change. -/
theorem kept (tended : heap.Tended live held) (size : heap.size ≤ after.size)
    (same : ∀ address ∈ live, after.read address = heap.read address) : after.Tended live held := by
  refine ⟨fun address inside => Nat.lt_of_lt_of_le (tended.allocated address inside) size, fun address => ?_⟩
  have cells : ∑ owner ∈ live, (after.read owner).contents.count (.cell address)
      = ∑ owner ∈ live, (heap.read owner).contents.count (.cell address) :=
    Finset.sum_congr rfl fun owner inside => by rw [same owner inside]
  unfold named
  rw [cells]
  exact tended.once address

theorem next_not_mem (tended : heap.Tended live held) : heap.next ∉ live := fun inside =>
  absurd (tended.allocated heap.next inside) (Nat.lt_irrefl _)

/-- A new cell holds what was in hand, and is in hand itself. -/
theorem allocate {cell : Cell} (tended : heap.Tended live (cell.contents ++ held)) :
    (heap.allocate cell).Tended (insert heap.next live) (.cell heap.next :: held) := by
  have new := tended.next_not_mem
  have same (owner : Address) (inside : owner ∈ live) : (heap.allocate cell).read owner = heap.read owner :=
    read_allocate_of_lt (tended.allocated owner inside) cell
  refine ⟨fun address inside => ?_, fun address => ?_⟩
  · rw [size_allocate]
    rcases Finset.mem_insert.mp inside with rfl | old
    · exact Nat.lt_succ_self _
    · exact Nat.lt_succ_of_lt (tended.allocated address old)
  · have once := tended.once address
    rw [named_append] at once
    have cells : ∑ owner ∈ insert heap.next live, ((heap.allocate cell).read owner).contents.count (.cell address)
        = cell.contents.count (.cell address) + ∑ owner ∈ live, (heap.read owner).contents.count (.cell address) := by
      rw [Finset.sum_insert new, read_allocate_next, Finset.sum_congr rfl fun owner inside => by rw [same owner inside]]
    unfold named at once ⊢
    rw [cells, List.count_cons]
    by_cases own : address = heap.next
    · subst own
      rw [if_neg new] at once
      simp only [beq_self_eq_true, if_true, Finset.mem_insert_self]
      omega
    · have other : (Value.cell heap.next == Value.cell address) = false := by simpa using fun same => own same.symm
      simp only [other, Bool.false_eq_true, if_false, Finset.mem_insert, own, false_or]
      omega

/-- A cell of the set is overwritten with values in hand and with what it had. -/
theorem write {cell : Cell} (tended : heap.Tended live (values ++ held)) (inside : address ∈ live)
    (made : Fewer cell.contents (values ++ (heap.read address).contents)) : (heap.write address cell).Tended live held := by
  refine ⟨fun owner member => by rw [size_write]; exact tended.allocated owner member, fun goal => ?_⟩
  have once := tended.once goal
  rw [named_append] at once
  have less := made goal
  rw [List.count_append] at less
  unfold named at once ⊢
  rw [← Finset.add_sum_erase _ _ inside] at once ⊢
  have others : ∑ owner ∈ live.erase address, ((heap.write address cell).read owner).contents.count (.cell goal)
      = ∑ owner ∈ live.erase address, (heap.read owner).contents.count (.cell goal) :=
    Finset.sum_congr rfl fun owner member => by rw [read_write_of_ne heap (Finset.ne_of_mem_erase member)]
  rw [others, read_write_self (tended.allocated address inside)]
  omega

/-- A cell in hand is taken apart. -/
theorem unpack (tended : heap.Tended live (.cell address :: held)) :
    heap.Tended (live.erase address) ((heap.read address).contents ++ held) := by
  have inside : address ∈ live := tended.mem_of_mem (by simp)
  refine ⟨fun owner member => tended.allocated owner (Finset.mem_of_mem_erase member), fun goal => ?_⟩
  have once := tended.once goal
  rw [named_append]
  unfold named at once ⊢
  rw [← Finset.add_sum_erase _ _ inside, List.count_cons] at once
  by_cases own : goal = address
  · subst own
    simp only [beq_self_eq_true, if_true, inside] at once
    simp only [Finset.mem_erase, ne_eq, not_true_eq_false, false_and, if_false]
    omega
  · have other : (Value.cell address == Value.cell goal) = false := by simpa using fun same => own same.symm
    simp only [other, Bool.false_eq_true, if_false] at once
    simp only [Finset.mem_erase, ne_eq, own, not_false_eq_true, true_and]
    omega

/-! As seen from the values in hand, the cells of the set form a forest. -/

section

variable {place other : List Nat} {step : Nat}

theorem mem_of_at? (tended : heap.Tended live held) (here : heap.at? held place = some (.cell address)) : address ∈ live := by
  induction place using List.reverseRecOn generalizing address with
  | nil => simp [at?] at here
  | append_singleton place step ih =>
      by_cases somewhere : place = []
      · subst somewhere
        rw [List.nil_append, at?_singleton] at here
        exact tended.mem_of_mem (List.mem_of_getElem? here)
      · rw [at?_concat somewhere] at here
        obtain ⟨parent, above, found⟩ := Option.bind_eq_some_iff.mp here
        obtain ⟨owner, rfl, inside⟩ := part?_eq_some.mp found
        exact tended.mem_of_inside (ih above) (List.mem_of_getElem? inside)

/-- What is named in a cell of the set is named nowhere else. -/
theorem once_inside (tended : heap.Tended live held) {owner : Address} (inside : owner ∈ live)
    (member : .cell address ∈ (heap.read owner).contents) :
    held.count (.cell address) = 0 ∧ (heap.read owner).contents.count (.cell address) = 1 ∧
      ∀ another ∈ live, .cell address ∈ (heap.read another).contents → another = owner := by
  have once := tended.once address
  rw [if_pos (tended.mem_of_inside inside member)] at once
  unfold named at once
  rw [← Finset.add_sum_erase _ _ inside] at once
  have own : 0 < (heap.read owner).contents.count (.cell address) := List.count_pos_iff.mpr member
  refine ⟨by omega, by omega, fun another among named => ?_⟩
  by_contra different
  have part := Finset.single_le_sum (f := fun owner => (heap.read owner).contents.count (.cell address))
    (fun _ _ => Nat.zero_le _) (Finset.mem_erase.mpr ⟨different, among⟩)
  have positive : 0 < (heap.read another).contents.count (.cell address) := List.count_pos_iff.mpr named
  omega

/-- A cell that is a root lies at no other place. -/
theorem root_only (tended : heap.Tended live held) {root : Nat} (somewhere : place ≠ [])
    (here : heap.at? held [root] = some (.cell address)) : heap.at? held (place ++ [step]) ≠ some (.cell address) := by
  intro there
  rw [at?_singleton] at here
  rw [at?_concat somewhere] at there
  obtain ⟨parent, above, found⟩ := Option.bind_eq_some_iff.mp there
  obtain ⟨owner, rfl, inside⟩ := part?_eq_some.mp found
  have named : 0 < held.count (.cell address) := List.count_pos_iff.mpr (List.mem_of_getElem? here)
  have unnamed := (tended.once_inside (tended.mem_of_at? above) (List.mem_of_getElem? inside)).1
  omega

theorem forest (tended : heap.Tended live held) : heap.Forest held := by
  intro place
  induction place using List.reverseRecOn with
  | nil => simp [at?]
  | append_singleton place step ih =>
      intro other address here there
      obtain rfl | ⟨other, last, rfl⟩ := List.eq_nil_or_concat' other
      · simp [at?] at there
      · by_cases root : place = [] <;> by_cases root' : other = []
        · subst root root'
          rw [List.nil_append, at?_singleton] at here there
          have once := tended.once address
          unfold named at once
          have one : held.count (.cell address) ≤ 1 := by split at once <;> omega
          rw [position_eq one here there]
        · subst root
          exact absurd there (tended.root_only root' here)
        · subst root'
          exact absurd here (tended.root_only root there)
        · rw [at?_concat root] at here
          rw [at?_concat root'] at there
          obtain ⟨parent, above, found⟩ := Option.bind_eq_some_iff.mp here
          obtain ⟨parent', above', found'⟩ := Option.bind_eq_some_iff.mp there
          obtain ⟨owner, rfl, inside⟩ := part?_eq_some.mp found
          obtain ⟨owner', rfl, inside'⟩ := part?_eq_some.mp found'
          obtain ⟨_, one, only⟩ := tended.once_inside (tended.mem_of_at? above) (List.mem_of_getElem? inside)
          obtain rfl := only owner' (tended.mem_of_at? above') (List.mem_of_getElem? inside')
          rw [ih other owner' above above', position_eq (Nat.le_of_eq one) inside inside']

end

end Tended

namespace Grove

theorem nil (heap : Heap) : heap.Grove [] := ⟨∅, by simp, by simp [named]⟩

theorem mono (grove : heap.Grove held) (less : Fewer fewer held) : heap.Grove fewer := by
  obtain ⟨live, tended⟩ := grove
  exact ⟨live, tended.mono less⟩

theorem allocate {cell : Cell} (grove : heap.Grove (cell.contents ++ held)) :
    (heap.allocate cell).Grove (.cell heap.next :: held) := by
  obtain ⟨live, tended⟩ := grove
  exact ⟨_, tended.allocate⟩

/-- Any cell may be overwritten so; if nothing in hand leads to it, nothing is known of it either. -/
theorem write {cell : Cell} (grove : heap.Grove (values ++ held))
    (made : Fewer cell.contents (values ++ (heap.read address).contents)) : (heap.write address cell).Grove held := by
  obtain ⟨live, tended⟩ := grove
  refine ⟨live, ?_⟩
  by_cases inside : address ∈ live
  · exact tended.write inside made
  · have less : Fewer held (values ++ held) := .of_sublist (List.sublist_append_right values held)
    refine (tended.mono less).kept (Nat.le_of_eq (size_write heap address cell).symm) fun owner member => ?_
    exact read_write_of_ne heap (fun same => inside (by rwa [← same])) cell

theorem unpack (grove : heap.Grove (.cell address :: held)) : heap.Grove ((heap.read address).contents ++ held) := by
  obtain ⟨live, tended⟩ := grove
  exact ⟨_, tended.unpack⟩

theorem forest (grove : heap.Grove held) : heap.Forest held := by
  obtain ⟨live, tended⟩ := grove
  exact tended.forest

/-- Only allocated cells lie at places. -/
theorem allocated {place : List Nat} (grove : heap.Grove held) (here : heap.at? held place = some (.cell address)) :
    address.index < heap.size := by
  obtain ⟨live, tended⟩ := grove
  exact tended.allocated address (tended.mem_of_at? here)

end Grove

/-- What may be asked of a heap and the values in hand without hindering work: values may be dropped, packed into new
cells, stored into any cell, and taken apart. -/
structure Tends (keeps : Heap → List Value → Prop) : Prop where
  mono {heap : Heap} {held fewer : List Value} (kept : keeps heap held) (less : Fewer fewer held) : keeps heap fewer
  allocate {heap : Heap} {held : List Value} {cell : Cell} (kept : keeps heap (cell.contents ++ held)) : keeps (heap.allocate cell) (.cell heap.next :: held)
  write {heap : Heap} {values held : List Value} {address : Address} {cell : Cell} (kept : keeps heap (values ++ held))
    (made : Fewer cell.contents (values ++ (heap.read address).contents)) : keeps (heap.write address cell) held
  unpack {heap : Heap} {held : List Value} {address : Address} (kept : keeps heap (.cell address :: held)) :
    keeps heap ((heap.read address).contents ++ held)

theorem tends_grove : Tends Grove := ⟨.mono, .allocate, .write, .unpack⟩

end Heap

end Reentry
