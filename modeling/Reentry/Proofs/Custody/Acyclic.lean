import Mathlib.Data.List.InsertIdx
import Reentry.Proofs.Custody.Stake
import Reentry.Proofs.Events.Once
import Reentry.Proofs.Keys.Sealed
import Reentry.Proofs.Stewardship.Operation

/-!
Cells that do not contain themselves. Values that nothing else names may be stored anywhere, since the cell they go into
cannot be part of them. What has several names may be packed into new cells, but is never stored into an old one; so all
values have an end.
-/

namespace Reentry

open scoped Classical

namespace Heap

variable {heap after : Heap} {live : Finset Address} {held rest own lent values gone : List Value} {value : Value} {address goal : Address}

/-- Followed into its parts, the value has an end. -/
def Grounded (heap : Heap) (value : Value) : Prop := ∃ tree, heap.Shows value tree

namespace Grounded

theorem scalar (heap : Heap) (scalar : ∀ address, value ≠ .cell address) : heap.Grounded value := by
  cases value with
  | cell address => exact absurd rfl (scalar address)
  | _ => exact ⟨_, 0, rfl⟩

/-- A cell has an end if all its parts have one. -/
theorem cell (parts : ∀ part ∈ (heap.read address).contents, heap.Grounded part) : heap.Grounded (.cell address) := by
  obtain ⟨tree, found⟩ := @exists_treeWithin?_cell heap (heap.size + 1) address fun part member => by
    obtain ⟨tree, shows⟩ := parts part member
    exact ⟨tree, shows.enough⟩
  exact ⟨tree, _, found⟩

theorem part (grounded : heap.Grounded (.cell address)) (member : value ∈ (heap.read address).contents) : heap.Grounded value := by
  obtain ⟨tree, shows⟩ := grounded
  obtain ⟨part, shows, _⟩ := shows.part member
  exact ⟨part, shows⟩

theorem same (grounded : heap.Grounded value) (same : ∀ address, heap.Leads value address → after.read address = heap.read address) :
    after.Grounded value := by
  obtain ⟨tree, shows⟩ := grounded
  exact ⟨tree, shows.same same⟩

/-- No cell that the value leads to leads back to itself. -/
theorem no_return (grounded : heap.Grounded value) (leads : heap.Leads value address) {part : Value}
    (member : part ∈ (heap.read address).contents) : ¬heap.Leads part address := by
  intro back
  obtain ⟨tree, shows⟩ := grounded
  obtain ⟨whole, shows, _⟩ := leads.weight shows
  obtain ⟨inner, shows', light⟩ := shows.part member
  obtain ⟨again, shows'', light'⟩ := back.weight shows'
  rw [shows''.unique shows] at light'
  exact Nat.lt_irrefl _ (Nat.lt_of_le_of_lt light' light)

end Grounded

/-- A value that is stored and has no loops: what it leads to is in the heap, and no cell of it leads back to itself. -/
structure Founded (heap : Heap) (value : Value) : Prop where
  allocated : ∀ address, heap.Leads value address → address.index < heap.size
  acyclic : ∀ address, heap.Leads value address → ∀ part ∈ (heap.read address).contents, ¬heap.Leads part address

namespace Founded

theorem scalar (heap : Heap) (scalar : ∀ address, value ≠ .cell address) : heap.Founded value := by
  constructor <;> intro address leads <;> cases leads <;> exact absurd rfl (scalar _)

theorem part (founded : heap.Founded (.cell address)) (member : value ∈ (heap.read address).contents) : heap.Founded value :=
  ⟨fun goal leads => founded.allocated goal (.inside member leads), fun goal leads => founded.acyclic goal (.inside member leads)⟩

/-- A value without loops has an end: what its parts lead to is less than what it leads to itself. -/
theorem grounded (founded : heap.Founded value) : heap.Grounded value := by
  induction size : ((Finset.range heap.size).filter fun index => heap.Leads value ⟨index⟩).card using Nat.strong_induction_on generalizing value with
  | _ size ih =>
      subst size
      by_cases scalar : ∀ address, value ≠ .cell address
      · exact .scalar heap scalar
      · obtain ⟨owner, rfl⟩ := by simpa using scalar
        refine .cell fun part member => ih _ (Finset.card_lt_card ?_) (founded.part member) rfl
        refine Finset.ssubset_iff_subset_ne.mpr ⟨fun index inside => ?_, fun same => ?_⟩
        · obtain ⟨bound, leads⟩ := Finset.mem_filter.mp inside
          exact Finset.mem_filter.mpr ⟨bound, .inside member leads⟩
        · have own : owner.index ∈ (Finset.range heap.size).filter fun index => heap.Leads (.cell owner) ⟨index⟩ :=
            Finset.mem_filter.mpr ⟨Finset.mem_range.mpr (founded.allocated owner .here), .here⟩
          rw [← same] at own
          exact founded.acyclic owner .here part member (Finset.mem_filter.mp own).2

/-- A stored value that has an end has no loops. -/
theorem of_grounded (allocated : ∀ address, heap.Leads value address → address.index < heap.size) (grounded : heap.Grounded value) :
    heap.Founded value :=
  ⟨allocated, fun _ leads _ member => grounded.no_return leads member⟩

theorem same (founded : heap.Founded value) (size : heap.size ≤ after.size)
    (same : ∀ address, heap.Leads value address → after.read address = heap.read address) : after.Founded value :=
  .of_grounded (fun address leads => Nat.lt_of_lt_of_le (founded.allocated address (leads.before same)) size) (founded.grounded.same same)

theorem grown (founded : heap.Founded value) (grows : heap.Extends after) : after.Founded value :=
  founded.same grows.size fun address leads => grows.same address (founded.allocated address leads)

theorem of_leads (founded : heap.Founded value) (leads : heap.Leads value address) : heap.Founded (.cell address) := by
  induction leads with
  | here => exact founded
  | inside member _ ih => exact ih (founded.part member)

theorem of_solid (solid : heap.Solid value) : heap.Founded value := .of_grounded solid.allocated solid.shows

/-- An allocated cell has no loops if its parts have none. -/
theorem cell (allocated : address.index < heap.size) (parts : ∀ part ∈ (heap.read address).contents, heap.Founded part) :
    heap.Founded (.cell address) := by
  refine .of_grounded (fun goal leads => ?_) (.cell fun part member => (parts part member).grounded)
  cases leads with
  | here => exact allocated
  | inside member leads => exact (parts _ member).allocated goal leads

/-- A new cell around values without loops. -/
theorem new {cell : Cell} (parts : ∀ part ∈ cell.contents, heap.Founded part) : (heap.allocate cell).Founded (.cell heap.next) := by
  apply Founded.cell (heap.next_lt_size cell)
  rw [read_allocate_next]
  exact fun part member => (parts part member).grown (.allocate heap cell)

/-- A cell may be overwritten with values that do not lead to it. -/
theorem write {cell : Cell} (founded : heap.Founded value) (parts : ∀ part ∈ cell.contents, heap.Founded part ∧ ¬heap.Leads part address) :
    (heap.write address cell).Founded value := by
  have same (part : Value) (apart : ¬heap.Leads part address) (goal : Address) (leads : heap.Leads part goal) :
      (heap.write address cell).read goal = heap.read goal := by
    apply read_write_of_ne
    rintro rfl
    exact apart leads
  obtain ⟨tree, shows⟩ := founded.grounded
  -- on the weight of the tree that the value had: parts of other cells are lighter, and those of the cell have not changed
  induction weight : tree.weight using Nat.strong_induction_on generalizing value tree with
  | _ weight ih =>
      by_cases scalar : ∀ address, value ≠ .cell address
      · exact .scalar _ scalar
      · obtain ⟨owner, rfl⟩ := by simpa using scalar
        have allocated := founded.allocated owner .here
        apply Founded.cell (by rwa [size_write])
        intro part member
        by_cases own : owner = address
        · subst own
          rw [read_write_self allocated] at member
          obtain ⟨founded, apart⟩ := parts part member
          exact founded.same (Nat.le_of_eq (size_write heap owner cell).symm) (same part apart)
        · rw [read_write_of_ne heap own] at member
          obtain ⟨other, shows, light⟩ := shows.part member
          exact ih _ (weight ▸ light) (founded.part member) other shows rfl

end Founded

namespace Tended

/-- What values in hand lead to is looked after. -/
theorem mem_of_leads (tended : heap.Tended live held) (member : value ∈ held) (leads : heap.Leads value address) : address ∈ live := by
  obtain ⟨root, found⟩ := List.mem_iff_getElem?.mp member
  have here : heap.at? held [root] = some value := by rwa [at?_singleton]
  obtain ⟨path, there⟩ := leads.at?_append here
  exact tended.mem_of_at? there

theorem grounded (tended : heap.Tended live held) (member : value ∈ held) : heap.Grounded value := by
  obtain ⟨tree, found⟩ := (tended.mono (.of_sublist (List.singleton_sublist.mpr member))).tree (Nat.le_refl _)
  exact ⟨tree, _, found⟩

theorem founded (tended : heap.Tended live held) (member : value ∈ held) : heap.Founded value :=
  .of_grounded (fun address leads => tended.allocated address (tended.mem_of_leads member leads)) (tended.grounded member)

/-- Values in hand are given away, with all that they lead to. -/
theorem give (tended : heap.Tended live held) (less : Fewer rest held)
    (gives : ∀ value ∈ gone, (∀ address, heap.Leads value address → address ∉ live) ∨ value ∈ held ∧ value ∉ rest) :
    heap.Tended (live.filter fun address => ¬heap.reachOf gone address) rest := by
  refine ⟨fun address member => tended.allocated address (Finset.mem_filter.mp member).1, fun address => ?_⟩
  by_cases lost : address ∈ live ∧ heap.reachOf gone address
  · -- what names the cell is a value that is given away, or a cell that such a value leads to
    obtain ⟨inside, value, member, leads⟩ := lost
    obtain ⟨holds, drops⟩ := (gives value member).resolve_left fun apart => apart address leads inside
    have unnamed : rest.count (.cell address) = 0 ∧
        ∀ owner ∈ live.filter fun address => ¬heap.reachOf gone address, .cell address ∉ (heap.read owner).contents := by
      rcases leads.last with rfl | ⟨owner, leads', named⟩
      · refine ⟨List.count_eq_zero.mpr drops, fun owner among named => ?_⟩
        have none := (tended.once_inside (Finset.mem_filter.mp among).1 named).1
        exact absurd holds (List.count_eq_zero.mp none)
      · obtain ⟨none, _, only⟩ := tended.once_inside (tended.mem_of_leads holds leads') named
        refine ⟨Nat.le_zero.mp (none ▸ less address), fun other among named' => ?_⟩
        obtain ⟨within, kept⟩ := Finset.mem_filter.mp among
        exact kept (only other within named' ▸ ⟨value, member, leads'⟩)
    have none : heap.named (live.filter fun address => ¬heap.reachOf gone address) rest address = 0 := by
      rw [named, unnamed.1, Nat.zero_add]
      exact Finset.sum_eq_zero fun owner among => List.count_eq_zero.mpr (unnamed.2 owner among)
    rw [none]
    exact Nat.zero_le _
  · have fewer : heap.named (live.filter fun address => ¬heap.reachOf gone address) rest address ≤ heap.named live held address :=
      Nat.add_le_add (less address) (Finset.sum_le_sum_of_subset (Finset.filter_subset _ live))
    have same : address ∈ live.filter (fun address => ¬heap.reachOf gone address) ↔ address ∈ live := by
      rw [Finset.mem_filter]
      exact ⟨And.left, fun inside => ⟨inside, fun given => lost ⟨inside, given⟩⟩⟩
    simp only [same]
    exact Nat.le_trans fewer (tended.once address)

end Tended

/-- Values of which some are named by nothing else, and the others have an end and share no cell with those. -/
structure Acyclic (heap : Heap) (own lent : List Value) (live : Finset Address) : Prop where
  tended : heap.Tended live own
  grounded : ∀ value ∈ lent, heap.Grounded value
  allocated : ∀ address, heap.reachOf lent address → address.index < heap.size
  apart : ∀ address, heap.reachOf lent address → address ∉ live

namespace Acyclic

variable {fewer more : Stake} {cell : Cell}

/-- Nothing is one's own. -/
theorem ofLent (grounded : ∀ value ∈ lent, heap.Grounded value) (allocated : ∀ address, heap.reachOf lent address → address.index < heap.size) :
    heap.Acyclic [] lent ∅ := ⟨⟨by simp, by simp [named]⟩, grounded, allocated, by simp⟩

/-- What is not one's own leads only to cells that have not changed. -/
theorem kept {live' : Finset Address} {own' : List Value} (acyclic : heap.Acyclic own lent live) (size : heap.size ≤ after.size)
    (same : ∀ address, heap.reachOf lent address → after.read address = heap.read address) (tended : after.Tended live' own')
    (apart : ∀ address, heap.reachOf lent address → address ∉ live') : after.Acyclic own' lent live' := by
  have before {address : Address} (reached : after.reachOf lent address) : heap.reachOf lent address := by
    obtain ⟨root, member, leads⟩ := reached
    exact ⟨root, member, leads.before fun goal leads => same goal ⟨root, member, leads⟩⟩
  refine ⟨tended, fun value member => ?_, fun address reached => ?_, fun address reached => apart address (before reached)⟩
  · exact (acyclic.grounded value member).same fun address leads => same address ⟨value, member, leads⟩
  · exact Nat.lt_of_lt_of_le (acyclic.allocated address (before reached)) size

/-- One more value may have other names. -/
theorem widen (acyclic : heap.Acyclic own lent live) (grounded : heap.Grounded value)
    (reach : ∀ address, heap.Leads value address → address.index < heap.size ∧ address ∉ live) : heap.Acyclic own (value :: lent) live := by
  have cases {address : Address} (reached : heap.reachOf (value :: lent) address) : address.index < heap.size ∧ address ∉ live := by
    obtain ⟨root, member, leads⟩ := reached
    rcases List.mem_cons.mp member with rfl | old
    · exact reach address leads
    · exact ⟨acyclic.allocated address ⟨root, old, leads⟩, acyclic.apart address ⟨root, old, leads⟩⟩
  exact ⟨acyclic.tended, List.forall_mem_cons.mpr ⟨grounded, acyclic.grounded⟩, fun _ reached => (cases reached).1, fun _ reached => (cases reached).2⟩

/-- Values are dropped, or given to others, and with them all that they lead to. -/
theorem less (acyclic : heap.Acyclic more.own more.lent live) (less : fewer.Less more) : ∃ live', heap.Acyclic fewer.own fewer.lent live' := by
  have before (address : Address) (member : .cell address ∈ fewer.lent) :
      .cell address ∈ more.lent ∨ .cell address ∈ more.own ∧ .cell address ∉ fewer.own := by
    refine or_iff_not_imp_left.mpr fun other => ?_
    have given : 0 < fewer.lent.count (.cell address) := List.count_pos_iff.mpr member
    have none : more.lent.count (.cell address) = 0 := List.count_eq_zero.mpr other
    have all := less.all address
    have once := acyclic.tended.once address
    unfold named at once
    rw [List.count_append, List.count_append] at all
    have one : more.own.count (.cell address) ≤ 1 := by split at once <;> omega
    exact ⟨List.count_pos_iff.mp (by omega), List.count_eq_zero.mp (by omega)⟩
  refine ⟨_, acyclic.tended.give less.own fun value member => ?_, fun value member => ?_, fun address reached => ?_,
    fun address reached inside => (Finset.mem_filter.mp inside).2 reached⟩
  · by_cases scalar : ∀ address, value ≠ .cell address
    · exact .inl fun address leads => by cases leads <;> exact absurd rfl (scalar _)
    · obtain ⟨address, rfl⟩ := by simpa using scalar
      exact (before address member).imp (fun lent goal leads => acyclic.apart goal ⟨_, lent, leads⟩) id
  · by_cases scalar : ∀ address, value ≠ .cell address
    · exact .scalar heap scalar
    · obtain ⟨address, rfl⟩ := by simpa using scalar
      exact (before address member).elim (acyclic.grounded _) fun own => acyclic.tended.grounded own.1
  · obtain ⟨root, member, leads⟩ := reached
    obtain ⟨first, rfl⟩ : ∃ first, root = .cell first := by cases leads <;> exact ⟨_, rfl⟩
    rcases before first member with lent | ⟨own, _⟩
    · exact acyclic.allocated address ⟨_, lent, leads⟩
    · exact acyclic.tended.allocated address (acyclic.tended.mem_of_leads own leads)

theorem allocate (acyclic : heap.Acyclic (cell.contents ++ own) lent live) :
    (heap.allocate cell).Acyclic (.cell heap.next :: own) lent (insert heap.next live) := by
  refine acyclic.kept (Nat.le_of_lt (by rw [size_allocate]; exact Nat.lt_succ_self _))
    (fun address reached => read_allocate_of_lt (acyclic.allocated address reached) cell) acyclic.tended.allocate fun address reached inside => ?_
  rcases Finset.mem_insert.mp inside with rfl | old
  · exact Nat.lt_irrefl _ (acyclic.allocated _ reached)
  · exact acyclic.apart address reached old

section

variable (made : Fewer cell.contents (values ++ (heap.read address).contents))
include made

/-- What is in a cell after one has been overwritten with other values and with what it had. -/
theorem contents_write {owner : Address} (member : .cell goal ∈ ((heap.write address cell).read owner).contents) :
    .cell goal ∈ (heap.read owner).contents ∨ owner = address ∧ .cell goal ∈ values := by
  by_cases same : owner = address
  · subst same
    by_cases allocated : owner.index < heap.size
    · rw [read_write_self allocated] at member
      have named : 0 < cell.contents.count (.cell goal) := List.count_pos_iff.mpr member
      have among := List.count_pos_iff.mp (Nat.lt_of_lt_of_le named (made goal))
      exact (List.mem_append.mp among).symm.imp id fun value => ⟨rfl, value⟩
    · rw [read_of_size_le (by rw [size_write]; exact Nat.le_of_not_lt allocated)] at member
      cases member
  · rw [read_write_of_ne heap same] at member
    exact .inl member

theorem leads_write (leads : (heap.write address cell).Leads value goal) : heap.Leads value goal ∨ heap.reachOf values goal := by
  induction leads with
  | here => exact .inl .here
  | @inside owner part goal member later ih =>
      obtain ⟨first, rfl⟩ : ∃ first, part = .cell first := by cases later <;> exact ⟨_, rfl⟩
      refine ih.elim (fun leads => ?_) .inr
      rcases contents_write made member with old | ⟨_, new⟩
      · exact .inl (.inside old leads)
      · exact .inr ⟨_, new, leads⟩

/-- Values that do not lead to the cell may be stored there. -/
theorem grounded_write (acyclic : heap.Acyclic (values ++ own) lent live) (outside : address ∉ live) (grounded : heap.Grounded value) :
    (heap.write address cell).Grounded value := by
  obtain ⟨tree, shows⟩ := grounded
  induction weight : tree.weight using Nat.strong_induction_on generalizing value tree with
  | _ weight ih =>
      by_cases scalar : ∀ address, value ≠ .cell address
      · exact .scalar _ scalar
      · obtain ⟨owner, rfl⟩ := by simpa using scalar
        refine .cell fun part member => ?_
        by_cases scalar : ∀ address, part ≠ .cell address
        · exact .scalar _ scalar
        · obtain ⟨goal, rfl⟩ := by simpa using scalar
          rcases contents_write made member with old | ⟨_, new⟩
          · obtain ⟨other, shows, light⟩ := shows.part old
            exact ih _ (weight ▸ light) other shows rfl
          · have own : .cell goal ∈ values ++ own := List.mem_append_left own new
            refine (acyclic.tended.grounded own).same fun other leads => read_write_of_ne heap (fun same => outside ?_) cell
            exact same ▸ acyclic.tended.mem_of_leads own leads

/-- Values that nothing else names may be stored in any cell. -/
theorem write (acyclic : heap.Acyclic (values ++ own) lent live) : ∃ live', (heap.write address cell).Acyclic own lent live' := by
  by_cases inside : address ∈ live
  · have different {other : Address} (reached : heap.reachOf lent other) : other ≠ address := by
      rintro rfl
      exact acyclic.apart other reached inside
    exact ⟨live, acyclic.kept (Nat.le_of_eq (size_write heap address cell).symm)
      (fun _ reached => read_write_of_ne heap (different reached) cell) (acyclic.tended.write inside made) acyclic.apart⟩
  · -- what the stored values lead to is from now on what the cell leads to
    have given : heap.Tended (live.filter fun address => ¬heap.reachOf values address) own := by
      refine acyclic.tended.give (.of_sublist (List.sublist_append_right values own)) fun value member => ?_
      by_cases scalar : ∀ address, value ≠ .cell address
      · exact .inl fun address leads => by cases leads <;> exact absurd rfl (scalar _)
      · obtain ⟨goal, rfl⟩ := by simpa using scalar
        have once := acyclic.tended.once goal
        have here : 0 < values.count (.cell goal) := List.count_pos_iff.mpr member
        rw [named_append] at once
        unfold named at once
        exact .inr ⟨List.mem_append_left own member, List.count_eq_zero.mp (by split at once <;> omega)⟩
    have before {goal : Address} (reached : (heap.write address cell).reachOf lent goal) : heap.reachOf lent goal ∨ heap.reachOf values goal := by
      obtain ⟨root, member, leads⟩ := reached
      exact (leads_write made leads).imp_left fun leads => ⟨root, member, leads⟩
    refine ⟨_, given.kept (Nat.le_of_eq (size_write heap address cell).symm) fun owner among => read_write_of_ne heap (fun same => ?_) cell,
      fun value member => grounded_write made acyclic inside (acyclic.grounded value member), fun goal reached => ?_, fun goal reached among => ?_⟩
    · exact inside (same ▸ (Finset.mem_filter.mp among).1)
    · rw [size_write]
      rcases before reached with old | ⟨root, member, leads⟩
      · exact acyclic.allocated goal old
      · exact acyclic.tended.allocated goal (acyclic.tended.mem_of_leads (List.mem_append_left own member) leads)
    · obtain ⟨within, kept⟩ := Finset.mem_filter.mp among
      exact (before reached).elim (fun old => acyclic.apart goal old within) kept

end

theorem unpack (acyclic : heap.Acyclic (.cell address :: own) lent live) :
    heap.Acyclic ((heap.read address).contents ++ own) lent (live.erase address) :=
  acyclic.kept (Nat.le_refl _) (fun _ _ => rfl) acyclic.tended.unpack fun goal reached inside => acyclic.apart goal reached (Finset.mem_of_mem_erase inside)

theorem share (acyclic : heap.Acyclic own lent live) (member : value ∈ lent) : heap.Acyclic own (value :: lent) live :=
  acyclic.widen (acyclic.grounded value member) fun address leads =>
    ⟨acyclic.allocated address ⟨value, member, leads⟩, acyclic.apart address ⟨value, member, leads⟩⟩

theorem part (acyclic : heap.Acyclic own lent live) (member : .cell address ∈ lent) (inside : value ∈ (heap.read address).contents) :
    heap.Acyclic own (value :: lent) live :=
  acyclic.widen ((acyclic.grounded _ member).part inside) fun goal leads =>
    ⟨acyclic.allocated goal ⟨_, member, .inside inside leads⟩, acyclic.apart goal ⟨_, member, .inside inside leads⟩⟩

theorem around (acyclic : heap.Acyclic own lent live) (members : ∀ value ∈ cell.contents, value ∈ lent) :
    (heap.allocate cell).Acyclic own (.cell heap.next :: lent) live := by
  have same (address : Address) (reached : heap.reachOf lent address) : (heap.allocate cell).read address = heap.read address :=
    read_allocate_of_lt (acyclic.allocated address reached) cell
  have tended : (heap.allocate cell).Tended live own := acyclic.tended.kept (by rw [size_allocate]; exact Nat.le_succ _)
    fun address inside => read_allocate_of_lt (acyclic.tended.allocated address inside) cell
  have after := acyclic.kept (by rw [size_allocate]; exact Nat.le_succ _) same tended acyclic.apart
  refine after.widen (.cell fun part member => ?_) fun address leads => ?_
  · rw [read_allocate_next] at member
    exact after.grounded part (members part member)
  · cases leads with
    | here => exact ⟨by rw [size_allocate]; exact Nat.lt_succ_self _, acyclic.tended.next_not_mem⟩
    | inside member leads =>
        rw [read_allocate_next] at member
        exact ⟨after.allocated address ⟨_, members _ member, leads⟩, after.apart address ⟨_, members _ member, leads⟩⟩

end Acyclic

end Heap

/-- Nothing is part of itself. -/
def Custody.acyclic : Custody where
  shares := true
  keeps heap stake := ∃ live, heap.Acyclic stake.own stake.lent live
  less := fun ⟨_, acyclic⟩ less => acyclic.less less
  allocate := fun ⟨_, acyclic⟩ => ⟨_, acyclic.allocate⟩
  write := fun ⟨_, acyclic⟩ made => acyclic.write made
  unpack := fun ⟨_, acyclic⟩ => ⟨_, acyclic.unpack⟩
  share := fun _ ⟨_, acyclic⟩ member => ⟨_, acyclic.share member⟩
  part := fun _ ⟨_, acyclic⟩ member inside => ⟨_, acyclic.part member inside⟩
  around := fun _ ⟨_, acyclic⟩ members => ⟨_, acyclic.around members⟩

/-!
Operations and loops. What an operation stores into a container may lead to this container, and then a loop is closed. In
no other way can a cell come to be part of itself, whatever names values have: other operations at most add cells around
values that are there already.
-/

/-- A value that is stored into a container, and the heap right before and right after. -/
structure Deposit where
  before : Heap
  container : Value
  value : Value
  after : Heap

/-- The value leads to the container. -/
def Deposit.Closes (deposit : Deposit) : Prop :=
  ∃ address, deposit.container = .cell address ∧ deposit.before.Leads deposit.value address

/-- The container has become part of itself. -/
def Deposit.Loops (deposit : Deposit) : Prop :=
  ∃ address, deposit.container = .cell address ∧ ∃ part ∈ (deposit.after.read address).contents, deposit.after.Leads part address

/-- What the operation stores. Copies of keys are made of new cells and are not meant. -/
def Operation.deposit? (before after : Heap) : Operation → Option Deposit
  | .replace container _ value | .insert container _ value | .replaceField container _ value => some ⟨before, container, value, after⟩
  | _ => none

namespace Heap

variable {heap before after : Heap} {region : Region} {container key value result : Value} {cell : Cell} {address : Address}

/-- No cell of the region is part of itself. -/
def Straight (heap : Heap) (region : Region) : Prop := ∀ address, region address → heap.Founded (.cell address)

theorem Straight.owned (straight : heap.Straight region) (owns : region.Owns value) : heap.Founded value := by
  by_cases scalar : ∀ address, value ≠ .cell address
  · exact .scalar heap scalar
  · obtain ⟨address, rfl⟩ := by simpa using scalar
    exact straight address (Region.owns_cell.mp owns)

/-- The container has been overwritten with the value, what it held, and new values without loops. What this has given, it held. -/
def Fills (before : Heap) (container value : Value) (after : Heap) (result : Value) : Prop :=
  ∃ address between cell, container = .cell address ∧ before.Extends between ∧ after = between.write address cell ∧
    (value = .null ∨ value ∈ cell.contents) ∧ (result = .null ∨ result ∈ (before.read address).contents) ∧
    ∀ part ∈ cell.contents, part = value ∨ part ∈ (before.read address).contents ∨
      (between.Founded part ∧ ∀ goal, between.Leads part goal → before.size ≤ goal.index)

/-- Nothing has been made for it. -/
theorem Fills.simply (found : before.cell? container = some (address, cell)) {other : Cell} (stored : value = .null ∨ value ∈ other.contents)
    (old : result = .null ∨ result ∈ cell.contents) (parts : ∀ part ∈ other.contents, part = value ∨ part ∈ cell.contents) :
    before.Fills container value (before.write address other) result := by
  obtain ⟨rfl, rfl⟩ := Value.contents_of_cell? found
  exact ⟨address, before, other, rfl, .refl before, rfl, stored, old, fun part member => (parts part member).imp_right .inl⟩

/-- What was held may be dropped. -/
theorem Fills.silent (fills : before.Fills container value after result) : before.Fills container value after .null := by
  obtain ⟨address, between, cell, same, grows, wrote, stored, _, parts⟩ := fills
  exact ⟨address, between, cell, same, grows, wrote, stored, .inl rfl, parts⟩

/-- If the value does not lead to the container, no loop is closed. -/
theorem Fills.straight (fills : before.Fills container value after result) (closed : before.Closed region) (owns : region.OwnsAll [container, value])
    (straight : before.Straight region) (opens : ¬Deposit.Closes ⟨before, container, value, after⟩) :
    (∀ value, region.Owns value → after.Founded value) ∧ after.Founded result := by
  obtain ⟨address, between, cell, rfl, grows, rfl, _, old, parts⟩ := fills
  obtain ⟨inside, own⟩ := Region.ownsAll_cons.mp owns
  have inside := Region.owns_cell.mp inside
  have own := (Region.ownsAll_cons.mp own).1
  have unmoved {part : Value} (own : region.Owns part) (goal : Address) (leads : between.Leads part goal) : before.Leads part goal :=
    leads.before fun goal leads => grows.same goal (closed.allocated goal (leads.within closed own))
  have stored (part : Value) (member : part ∈ cell.contents) : between.Founded part ∧ ¬between.Leads part address := by
    rcases parts part member with rfl | held | ⟨founded, new⟩
    · exact ⟨(straight.owned own).grown grows, fun leads => opens ⟨address, rfl, unmoved own address leads⟩⟩
    · have founded := straight address inside
      refine ⟨(founded.part held).grown grows, fun leads => ?_⟩
      exact founded.acyclic address .here part held (unmoved (closed.contents address inside part held) address leads)
    · exact ⟨founded, fun leads => Nat.not_lt.mpr (new address leads) (closed.allocated address inside)⟩
  have kept (value : Value) (own : region.Owns value) : (between.write address cell).Founded value :=
    ((straight.owned own).grown grows).write stored
  refine ⟨kept, kept result ?_⟩
  rcases old with rfl | held
  · exact Region.owns_null
  · exact closed.contents address inside result held

/-- A way to a cell is still one when the cell is overwritten: up to there it leads through other cells, which have not changed. -/
theorem Leads.written {between : Heap} (leads : before.Leads value address) (grows : before.Extends between) (cell : Cell) :
    (between.write address cell).Leads value address := by
  induction leads with
  | here => exact .here
  | @inside owner part goal member _ ih =>
      by_cases own : owner = goal
      · subst own
        exact .here
      · have allocated : owner.index < before.size := by
          apply Nat.lt_of_not_le
          intro outside
          rw [read_of_size_le outside] at member
          cases member
        refine .inside ?_ ih
        rwa [read_write_of_ne between own, grows.same owner allocated]

/-- If the value leads to the container, this is part of itself from now on. -/
theorem Fills.closes (fills : before.Fills container value after result) (closed : before.Closed region) (owns : region.OwnsAll [container, value])
    (closes : Deposit.Closes ⟨before, container, value, after⟩) : Deposit.Loops ⟨before, container, value, after⟩ := by
  obtain ⟨address, between, cell, rfl, grows, rfl, stored, _, _⟩ := fills
  obtain ⟨_, same, leads⟩ := closes
  cases same
  have allocated := closed.allocated address (Region.owns_cell.mp (Region.ownsAll_cons.mp owns).1)
  refine ⟨address, rfl, value, ?_, leads.written grows cell⟩
  rw [read_write_self (Nat.lt_of_lt_of_le allocated grows.size)]
  apply stored.resolve_left
  rintro rfl
  cases leads

end Heap

open ValueOp

namespace Value

variable {heap : Heap} {container key value : Value}

theorem getD_mem (items : List Value) (index : Nat) : items[index]?.getD .null = .null ∨ items[index]?.getD .null ∈ items := by
  cases found : items[index]? with
  | none => exact .inl rfl
  | some item => exact .inr (List.mem_of_getElem? found)

theorem bindCopy_fills {map : Address} {entries : List Entry} (found : heap.cell? container = some (map, .map entries)) :
    Gives heap (bindCopy map key value entries) (heap.Fills container value) := by
  intro result after ran
  obtain ⟨rfl, holds⟩ := contents_of_cell? found
  rw [Heap.bindCopy_run] at ran
  cases ran
  obtain ⟨grows, depicts⟩ := heap.deepCopy_puts key
  have fresh := @Alloc.Makes.fresh _ _ _ heap (.deepCopy [] key)
  refine ⟨map, _, _, rfl, grows, rfl, .inr (Heap.bind_stores _ _ value entries), ?_, fun part member => ?_⟩
  · rw [holds]
    cases replaced : ((key.deepCopy.run heap).2.bind (key.deepCopy.run heap).1 value entries).2 with
    | none => exact .inl rfl
    | some old => exact .inr (Heap.bind_old replaced)
  · rcases Heap.bind_contents _ _ value entries part member with rfl | rfl | old
    · exact .inr (.inr ⟨.of_solid depicts.solid, fun goal leads => (leads.within fresh.closed (fresh.owns _ (by simp))).1⟩)
    · exact .inl rfl
    · exact .inr (.inl (holds ▸ old))

theorem replace_fills : Gives heap (container.replace key value) (heap.Fills container value) := by
  refine .get ?_
  split
  next found =>
      refine .bind (.seqIndex _ _ _) ?_
      rintro index _ ⟨rfl, bound⟩
      exact .write (.simply found (.inr (List.mem_set bound value)) (getD_mem _ index) fun part member => (List.mem_or_eq_of_mem_set member).symm)
  next found => exact .quiet (.checkKey _ _) fun _ => bindCopy_fills found
  next => exact .mismatch _ _ _

theorem insert_fills : Gives heap (do container.insert key value; pure .null) (heap.Fills container value) := by
  have inserts : Gives heap (container.insert key value) fun after _ => heap.Fills container value after .null := by
    refine .get ?_
    split
    next found =>
        refine .bind (.seqIndex _ _ _) ?_
        rintro index _ ⟨rfl, bound⟩
        have stored := (List.mem_insertIdx (Nat.le_of_lt_succ bound)).mpr (.inl (rfl : value = value))
        exact .modify (.simply found (.inr stored) (.inl rfl) fun part member => List.eq_or_mem_of_mem_insertIdx member)
    next found =>
        refine .quiet (.checkKey _ _) fun _ => .get ?_
        split
        next => exact .get (.throw _)
        next => exact (bindCopy_fills found).bind fun _ _ fills => .pure fills.silent
    next => exact .mismatch _ _ _
  exact inserts.bind fun _ _ fills => .pure fills

theorem remove_fills : Gives heap (do container.remove key; pure .null) (heap.Fills container .null) := by
  have removes : Gives heap (container.remove key) fun after _ => heap.Fills container .null after .null := by
    refine .get ?_
    split
    next found =>
        refine .quiet (.seqIndex _ _ _) fun index => ?_
        exact .modify (.simply found (.inl rfl) (.inl rfl) fun part member => .inr (List.mem_of_mem_eraseIdx member))
    next found =>
        refine .quiet (.checkKey _ _) fun _ => .get ?_
        split
        next index _ =>
            refine .modify (.simply found (.inl rfl) (.inl rfl) fun part member => .inr ?_)
            obtain ⟨entry, among, same⟩ := List.mem_flatMap.mp member
            exact List.mem_flatMap.mpr ⟨entry, List.mem_of_mem_eraseIdx among, same⟩
        next => exact .get (.throw _)
    next => exact .mismatch _ _ _
  exact removes.bind fun _ _ fills => .pure fills

theorem replaceField_fills (index : Nat) : Gives heap (container.replaceField index value) (heap.Fills container value) := by
  refine .get ?_
  split
  next found =>
      split
      next old there =>
          have bound := (List.getElem?_eq_some_iff.mp there).1
          exact .write (.simply found (.inr (List.mem_set bound value)) (.inr (List.mem_of_getElem? there))
            fun part member => (List.mem_or_eq_of_mem_set member).symm)
      next => exact .throw _
  next fields found =>
      split
      next name old there =>
          have bound : index < (fields.map (·.2)).length := by
            rw [List.length_map]
            exact (List.getElem?_eq_some_iff.mp there).1
          refine .write (.simply found (.inr ?_) (.inr (List.mem_map_of_mem (f := Prod.snd) (List.mem_of_getElem? there))) fun part member => ?_)
          · rw [Cell.contents, map_named_modify]
            exact List.mem_set bound value
          · rw [Cell.contents, map_named_modify] at member
            exact (List.mem_or_eq_of_mem_set member).symm
      next => exact .throw _
  next => exact .mismatch _ _ _

end Value

namespace Operation

variable {heap after : Heap} {region : Region} {result : Value}

/-- What overwrites nothing at most adds cells, and what it gives has no loops if its operands have none. -/
theorem perform_calm {op : Operation} (calm : op.overwrites = false) (founded : ∀ operand ∈ op.operands, heap.Founded operand)
    (ran : op.perform.run heap = .ok (result, after)) : heap.Extends after ∧ after.Founded result := by
  have new (cell : Cell) (parts : ∀ part ∈ cell.contents, heap.Founded part) (ran : (Cell.new cell).toOp.run heap = .ok (result, after)) :
      heap.Extends after ∧ after.Founded result := by
    cases ran
    exact ⟨.allocate heap cell, .new parts⟩
  have lent {container : Value} {work : ValueOp Value} (lends : Lends heap container work) (whole : heap.Founded container)
      (ran : work.run heap = .ok (result, after)) : heap.Extends after ∧ after.Founded result := by
    obtain ⟨rfl, inside⟩ := lends result after ran
    refine ⟨.refl after, ?_⟩
    by_cases null : result = .null
    · exact .scalar after (by simp [null])
    · obtain ⟨address, rfl, among⟩ := inside null
      exact whole.part among
  have planted {work : ValueOp Value} (plants : Plants heap [] work fun result => [result]) (ran : work.run heap = .ok (result, after)) :
      after.Founded result := by
    obtain ⟨live, tended⟩ := plants Heap.tends_grove [] result after (.nil heap) ran
    exact tended.founded (.head _)
  cases op with
  | build tree =>
      obtain ⟨grows, depicts⟩ := Gives.toOp (tree.build_puts heap) result after ran
      exact ⟨grows, .of_solid depicts.solid⟩
  | copy value =>
      obtain ⟨grows, depicts⟩ := Gives.toOp (heap.deepCopy_puts value) result after ran
      exact ⟨grows, .of_solid depicts.solid⟩
  | tuple items => exact new (.tuple items) founded ran
  | named fields => exact new (.named fields) founded ran
  | seq items => exact new (.seq items) founded ran
  | cast value ty =>
      obtain ⟨rfl, rfl⟩ := Value.cast_eq_ok ran
      exact ⟨.refl after, founded result (.head _)⟩
  | unary op arg => exact ⟨op.apply_extends ran, planted (op.apply_plants arg) ran⟩
  | binary op lhs rhs =>
      by_cases index : op = .index
      · subst index
        exact lent Value.lookup_lends (founded lhs (.head _)) ran
      · exact ⟨(op.apply_quiet lhs rhs).extends ran, planted (BinaryOp.apply_plants index lhs rhs) ran⟩
  | lookup container key => exact lent Value.lookup_lends (founded container (.head _)) ran
  | field container index => exact lent (Value.field_lends index) (founded container (.head _)) ran
  | replace | insert | remove | replaceField => cases calm

/-- What overwrites something fills a container of its operands, with one of them or with nothing. -/
theorem perform_fills {op : Operation} (overwrites : op.overwrites = true) (owns : region.OwnsAll op.operands)
    (ran : op.perform.run heap = .ok (result, after)) :
    ∃ container value, region.OwnsAll [container, value] ∧ heap.Fills container value after result ∧
      (op.deposit? heap after = some ⟨heap, container, value, after⟩ ∨ op.deposit? heap after = none ∧ value = .null) := by
  cases op with
  | replace container key value =>
      exact ⟨container, value, owns.subset (by simp [operands]), Value.replace_fills result after ran, .inl rfl⟩
  | insert container key value =>
      exact ⟨container, value, owns.subset (by simp [operands]), Value.insert_fills result after ran, .inl rfl⟩
  | remove container key =>
      have own := owns container (.head _)
      exact ⟨container, .null, by simpa using own, Value.remove_fills result after ran, .inr ⟨rfl, rfl⟩⟩
  | replaceField container index value =>
      exact ⟨container, value, owns, Value.replaceField_fills index result after ran, .inl rfl⟩
  | _ => cases overwrites

/-- What is stored into a container that it leads to makes it part of itself. -/
theorem perform_closes {op : Operation} {deposit : Deposit} (stores : op.deposit? heap after = some deposit) (closed : heap.Closed region)
    (owns : region.OwnsAll op.operands) (ran : op.perform.run heap = .ok (result, after)) (closes : deposit.Closes) : deposit.Loops := by
  have overwrites : op.overwrites = true := by
    cases op with
    | replace | insert | replaceField => rfl
    | _ => cases stores
  obtain ⟨container, value, owned, fills, same⟩ := perform_fills overwrites owns ran
  rw [stores] at same
  rcases same with same | ⟨none, _⟩
  · cases same
    exact fills.closes closed owned closes
  · cases none

/-- Whoever owns the operands owns what is given and all that is made, and unless a loop has been closed there is none. -/
theorem perform_straight (op : Operation) (closed : heap.Closed region) (owns : region.OwnsAll op.operands)
    (ran : op.perform.run heap = .ok (result, after)) : ∃ more, region.Inside more ∧ after.Closed more ∧ more.Owns result ∧
      (heap.Straight region → (∀ deposit, op.deposit? heap after = some deposit → ¬deposit.Closes) → after.Straight more) := by
  obtain ⟨most, grows, owned⟩ : ∃ most, heap.Grows region after most ∧ most.Owns result := by
    have did := op.perform_stays owns closed
    rw [ran] at did
    obtain ⟨most, grows, owned⟩ := did
    exact ⟨most, grows, owned result (.head _)⟩
  have within {root : Value} {address : Address} (among : region.Owns root ∨ root = result) (leads : after.Leads root address) : most address := by
    rcases among with own | rfl
    · exact leads.within grows.closed (own.mono grows.inside)
    · exact leads.within grows.closed owned
  -- only what is led to from there is claimed: key copies and the like may have left other cells behind
  refine ⟨fun address => ∃ root, (region.Owns root ∨ root = result) ∧ after.Leads root address, fun address inside => ?_, ⟨?_, ?_⟩, ?_, fun straight opens => ?_⟩
  · exact ⟨_, .inl (Region.owns_cell.mpr inside), .here⟩
  · rintro address ⟨root, among, leads⟩
    exact grows.closed.allocated address (within among leads)
  · rintro address ⟨root, among, leads⟩ part member goal rfl
    exact ⟨root, among, leads.step member .here⟩
  · rintro address rfl
    exact ⟨_, .inr rfl, .here⟩
  · have kept : (∀ root, region.Owns root → after.Founded root) ∧ after.Founded result := by
      cases overwrites : op.overwrites with
      | false =>
          obtain ⟨extended, founded⟩ := perform_calm overwrites (fun operand member => straight.owned (owns operand member)) ran
          exact ⟨fun root own => (straight.owned own).grown extended, founded⟩
      | true =>
          obtain ⟨container, value, owned, fills, deposits⟩ := perform_fills overwrites owns ran
          refine fills.straight closed owned straight ?_
          rcases deposits with deposits | ⟨_, rfl⟩
          · exact opens _ deposits
          · rintro ⟨_, _, leads⟩
            cases leads
    rintro address ⟨root, among, leads⟩
    rcases among with own | rfl
    · exact (kept.1 root own).of_leads leads
    · exact kept.2.of_leads leads

end Operation

end Reentry
