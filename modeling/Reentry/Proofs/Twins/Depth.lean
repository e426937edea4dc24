import Mathlib.Data.Finset.Card
import Mathlib.Data.Finset.Prod
import Reentry.Proofs.Ownership.Region
import Reentry.Value.Tree

/-!
How deep a value has to be looked into. A search with a bound on its depth finds no less with a larger bound, and what
it finds with the next bound is made of what it finds with this one. So once a larger bound finds nothing new, no bound
does; and something new can be found only as often as there are cells, or pairs of cells.
-/

namespace Reentry

/-- A search with a bound on its depth. Outside of a finite part of its domain the bound does not matter. -/
structure Deepens {α β : Type} (find : Nat → α → Option β) (part : Finset α) : Prop where
  grows : ∀ {levels item result}, find levels item = some result → find (levels + 1) item = some result
  settles : ∀ {levels}, find (levels + 1) = find levels → find (levels + 2) = find (levels + 1)
  elsewhere : ∀ {levels item}, item ∉ part → find (levels + 1) item = find levels item

namespace Deepens

variable {α β : Type} {find : Nat → α → Option β} {part : Finset α}

theorem settled (deepens : Deepens find part) {levels : Nat} (same : find (levels + 1) = find levels) {more : Nat}
    (deeper : levels ≤ more) : find more = find levels := by
  have step : ∀ more ≥ levels, find (more + 1) = find more := by
    intro more deeper
    induction more, deeper using Nat.le_induction with
    | base => exact same
    | succ more _ ih => exact deepens.settles ih
  induction more, deeper using Nat.le_induction with
  | base => rfl
  | succ more deeper ih => rw [step more deeper, ih]

/-- What is found grows with the bound, unless it has settled. -/
theorem counted (deepens : Deepens find part) (levels : Nat) :
    (∃ early < levels, find (early + 1) = find early) ∨ levels ≤ (part.filter fun item => (find levels item).isSome).card := by
  induction levels with
  | zero => exact .inr (Nat.zero_le _)
  | succ levels ih =>
      by_cases same : find (levels + 1) = find levels
      · exact .inl ⟨levels, Nat.lt_succ_self _, same⟩
      · rcases ih with ⟨early, before, settled⟩ | count
        · exact .inl ⟨early, Nat.lt_succ_of_lt before, settled⟩
        · refine .inr (Nat.lt_of_le_of_lt count (Finset.card_lt_card (Finset.ssubset_iff_exists_cons_subset.mpr ?_)))
          obtain ⟨item, new⟩ := Function.ne_iff.mp same
          have missing : find levels item = none := by
            refine Option.eq_none_iff_forall_ne_some.mpr fun result found => new ?_
            rw [deepens.grows found, found]
          have inside : item ∈ part := not_not.mp fun outside => new (deepens.elsewhere outside)
          refine ⟨item, by simp [missing], fun other member => ?_⟩
          rcases Finset.mem_cons.mp member with rfl | old
          · rw [missing] at new
            exact Finset.mem_filter.mpr ⟨inside, Option.isSome_iff_ne_none.mpr new⟩
          · obtain ⟨inside, found⟩ := Finset.mem_filter.mp old
            obtain ⟨result, found⟩ := Option.isSome_iff_exists.mp found
            exact Finset.mem_filter.mpr ⟨inside, by rw [deepens.grows found]; rfl⟩

/-- Any two bounds that exceed the size of the part find the same. -/
theorem enough (deepens : Deepens find part) {levels more : Nat} (covers : part.card ≤ levels) (covers' : part.card ≤ more) :
    find levels = find more := by
  rcases deepens.counted (part.card + 1) with ⟨early, before, same⟩ | count
  · have low : early ≤ part.card := Nat.le_of_lt_succ before
    rw [deepens.settled same (Nat.le_trans low covers), deepens.settled same (Nat.le_trans low covers')]
  · have most := Finset.card_filter_le part fun item => (find (part.card + 1) item).isSome
    omega

end Deepens

section

variable {α β : Type} {items : List α}

/-- Whatever the first search finds, the second one finds. -/
def Covers (find more : α → Option β) : Prop := ∀ {item result}, find item = some result → more item = some result

theorem Covers.mapM {find more : α → Option β} {results : List β} (covers : Covers find more) (found : items.mapM find = some results) :
    items.mapM more = some results := by
  induction items generalizing results with
  | nil => exact found
  | cons item rest ih =>
      simp only [List.mapM_cons, Option.bind_eq_bind, Option.bind_eq_some_iff] at found ⊢
      obtain ⟨result, first, others, later, made⟩ := found
      exact ⟨result, covers first, others, ih later, made⟩

theorem Covers.every? {test more : α → Option Bool} {result : Bool} (covers : Covers test more)
    (found : Reentry.every? test items = some result) : Reentry.every? more items = some result := by
  induction items with
  | nil => exact found
  | cons item rest ih =>
      simp only [Reentry.every?, Option.bind_eq_bind, Option.bind_eq_some_iff] at found ⊢
      obtain ⟨holds, first, later⟩ := found
      refine ⟨holds, covers first, ?_⟩
      cases holds with
      | true => exact ih later
      | false => exact later

theorem Covers.everyPair? {test more : α → β → Option Bool} {others : List β} {result : Bool}
    (covers : ∀ {left right result}, test left right = some result → more left right = some result)
    (found : Reentry.everyPair? test items others = some result) : Reentry.everyPair? more items others = some result := by
  induction items generalizing others with
  | nil => cases others <;> exact found
  | cons item rest ih =>
      cases others with
      | nil => exact found
      | cons other others =>
          simp only [Reentry.everyPair?, Option.bind_eq_bind, Option.bind_eq_some_iff] at found ⊢
          obtain ⟨holds, first, later⟩ := found
          refine ⟨holds, covers first, ?_⟩
          cases holds with
          | true => exact ih later
          | false => exact later

theorem Covers.firstWhere? {test more : α → Option Bool} {result : Option Nat} (covers : Covers test more)
    (found : Reentry.firstWhere? test items = some result) : Reentry.firstWhere? more items = some result := by
  induction items generalizing result with
  | nil => exact found
  | cons item rest ih =>
      simp only [Reentry.firstWhere?, Option.bind_eq_bind, Option.bind_eq_some_iff] at found ⊢
      obtain ⟨holds, first, later⟩ := found
      refine ⟨holds, covers first, ?_⟩
      cases holds with
      | true => exact later
      | false =>
          simp only [Bool.false_eq_true, if_false, Option.bind_eq_some_iff] at later ⊢
          obtain ⟨place, later, made⟩ := later
          exact ⟨place, ih later, made⟩

theorem Covers.find? {marks : Value → Fingerprint} {equal more : Value → Value → Option Bool} {key : Value} {entries : List Entry}
    {result : Option Nat} (covers : ∀ {left right result}, equal left right = some result → more left right = some result)
    (found : Entry.find? marks equal key entries = some result) : Entry.find? marks more key entries = some result := by
  match entries with
  | [] => exact found
  | [entry] => exact firstWhere? (fun test => covers test) found
  | first :: second :: rest =>
      simp only [Entry.find?] at found ⊢
      refine firstWhere? (fun {entry _} test => ?_) found
      by_cases look : (marks key == entry.imprint) = true
      · simp only [look, if_true] at test ⊢
        exact covers test
      · simp only [look] at test ⊢
        exact test

end

namespace Heap

variable {heap : Heap} {levels : Nat}

/-- The cells that have been allocated. -/
def cellsOf (heap : Heap) : Finset Value := (Finset.range heap.size).image fun index => .cell ⟨index⟩

theorem card_cellsOf_le (heap : Heap) : heap.cellsOf.card ≤ heap.size :=
  Nat.le_trans Finset.card_image_le (Nat.le_of_eq (Finset.card_range _))

theorem read_of_not_mem_cellsOf {address : Address} (outside : Value.cell address ∉ heap.cellsOf) : heap.read address = .tuple [] := by
  refine read_of_size_le (Nat.le_of_not_lt fun inside => outside ?_)
  exact Finset.mem_image.mpr ⟨address.index, Finset.mem_range.mpr inside, rfl⟩

theorem treeWithin?_grows : ∀ {levels : Nat}, Covers (heap.treeWithin? levels) (heap.treeWithin? (levels + 1))
  | 0, value, _, found => by cases value <;> first | exact found | cases found
  | levels + 1, value, tree, found => by
      cases value with
      | cell address =>
          simp only [treeWithin?] at found ⊢
          cases cell : heap.read address with
          | tuple items | seq items =>
              simp only [cell, Option.map_eq_some_iff] at found ⊢
              obtain ⟨trees, found, rfl⟩ := found
              exact ⟨trees, treeWithin?_grows.mapM found, rfl⟩
          | named fields =>
              simp only [cell, Option.map_eq_some_iff] at found ⊢
              obtain ⟨trees, found, rfl⟩ := found
              refine ⟨trees, Covers.mapM (fun {field result} found => ?_) found, rfl⟩
              obtain ⟨tree, read, rfl⟩ := Option.map_eq_some_iff.mp found
              exact Option.map_eq_some_iff.mpr ⟨tree, treeWithin?_grows read, rfl⟩
          | map entries =>
              simp only [cell, Option.map_eq_some_iff] at found ⊢
              obtain ⟨trees, found, rfl⟩ := found
              refine ⟨trees, Covers.mapM (fun {entry result} found => ?_) found, rfl⟩
              simp only [Option.bind_eq_bind, Option.bind_eq_some_iff] at found ⊢
              obtain ⟨key, found, value, found', made⟩ := found
              exact ⟨key, treeWithin?_grows found, value, treeWithin?_grows found', made⟩
      | _ => exact found

theorem tree_deepens (heap : Heap) : Deepens (fun levels => heap.treeWithin? (levels + 1)) heap.cellsOf where
  grows found := treeWithin?_grows found
  settles {levels} same := by
    have same : heap.treeWithin? (levels + 2) = heap.treeWithin? (levels + 1) := same
    funext value
    cases value with
    | cell address => simp only [treeWithin?, same]
    | _ => rfl
  elsewhere {levels value} outside := by
    cases value with
    | cell address => simp only [treeWithin?, read_of_not_mem_cellsOf outside, List.mapM_nil]
    | _ => rfl

/-- The tree of a value is what is found at any depth beyond the size of the heap. -/
theorem treeWithin?_enough (deep : heap.size < levels) (value : Value) : heap.treeWithin? levels value = heap.treeWithin? (heap.size + 1) value := by
  obtain ⟨more, rfl⟩ := Nat.exists_eq_add_of_lt deep
  have size := heap.card_cellsOf_le
  exact congrFun (heap.tree_deepens.enough (Nat.le_trans size (Nat.le_add_right _ more)) size) value

theorem marksWithin?_grows : ∀ {levels : Nat}, Covers (heap.marksWithin? levels) (heap.marksWithin? (levels + 1))
  | 0, value, _, found => by cases value <;> first | exact found | cases found
  | levels + 1, value, tree, found => by
      cases value with
      | cell address =>
          simp only [marksWithin?] at found ⊢
          cases cell : heap.read address with
          | tuple items | seq items =>
              simp only [cell, Option.map_eq_some_iff] at found ⊢
              obtain ⟨marks, found, rfl⟩ := found
              exact ⟨marks, marksWithin?_grows.mapM found, rfl⟩
          | named fields =>
              simp only [cell, Option.map_eq_some_iff] at found ⊢
              obtain ⟨marks, found, rfl⟩ := found
              exact ⟨marks, Covers.mapM (fun found => marksWithin?_grows found) found, rfl⟩
          | map entries =>
              simp only [cell] at found ⊢
              exact found
      | _ => exact found

theorem marks_deepen (heap : Heap) : Deepens (fun levels => heap.marksWithin? (levels + 1)) heap.cellsOf where
  grows found := marksWithin?_grows found
  settles {levels} same := by
    have same : heap.marksWithin? (levels + 2) = heap.marksWithin? (levels + 1) := same
    funext value
    cases value with
    | cell address => simp only [marksWithin?, same]
    | _ => rfl
  elsewhere {levels value} outside := by
    cases value with
    | cell address => simp only [marksWithin?, read_of_not_mem_cellsOf outside, List.mapM_nil]
    | _ => rfl

theorem marksWithin?_enough (deep : heap.size < levels) (value : Value) :
    heap.marksWithin? levels value = heap.marksWithin? (heap.size + 1) value := by
  obtain ⟨more, rfl⟩ := Nat.exists_eq_add_of_lt deep
  have size := heap.card_cellsOf_le
  exact congrFun (heap.marks_deepen.enough (Nat.le_trans size (Nat.le_add_right _ more)) size) value

theorem equalWithin?_grows : ∀ {levels : Nat} {left right : Value} {result : Bool},
    heap.equalWithin? levels left right = some result → heap.equalWithin? (levels + 1) left right = some result
  | 0, left, right, _, found => by cases left <;> cases right <;> first | exact found | cases found
  | levels + 1, left, right, result, found => by
      cases left with
      | cell left =>
          cases right with
          | cell right =>
              simp only [equalWithin?] at found ⊢
              by_cases same : left = right
              · simpa only [same, if_true] using found
              · simp only [same, if_false] at found ⊢
                cases here : heap.read left <;> cases there : heap.read right <;> simp only [here, there] at found ⊢ <;>
                  first | exact found | skip
                case tuple items others | seq items others =>
                  by_cases lengths : items.length = others.length
                  · simp only [lengths, if_true] at found ⊢
                    exact Covers.everyPair? equalWithin?_grows found
                  · simp only [lengths, if_false] at found ⊢
                    exact found
                case named items others =>
                  by_cases names : items.map (·.1) = others.map (·.1)
                  · simp only [names, if_true] at found ⊢
                    exact Covers.everyPair? (fun found => equalWithin?_grows found) found
                  · simp only [names, if_false] at found ⊢
                    exact found
                case map items others =>
                  by_cases lengths : items.length = others.length
                  · simp only [lengths, if_true] at found ⊢
                    refine Covers.every? (fun {entry result} found => ?_) found
                    simp only [Option.bind_eq_bind, Option.bind_eq_some_iff] at found ⊢
                    obtain ⟨place, found, compared⟩ := found
                    refine ⟨place, Covers.find? equalWithin?_grows found, ?_⟩
                    cases there : place.bind (others[·]?) with
                    | none =>
                        rw [there] at compared
                        exact compared
                    | some other =>
                        rw [there] at compared
                        exact equalWithin?_grows compared
                  · simp only [lengths, if_false] at found ⊢
                    exact found
          | _ => exact found
      | _ => cases right <;> exact found

/-- The pairs of cells that have been allocated. -/
def pairsOf (heap : Heap) : Finset (Value × Value) := heap.cellsOf ×ˢ heap.cellsOf

theorem card_pairsOf_le (heap : Heap) : heap.pairsOf.card ≤ heap.size * heap.size := by
  rw [pairsOf, Finset.card_product]
  exact Nat.mul_le_mul heap.card_cellsOf_le heap.card_cellsOf_le

theorem equal_deepens (heap : Heap) : Deepens (fun levels (pair : Value × Value) => heap.equalWithin? (levels + 1) pair.1 pair.2) heap.pairsOf where
  grows found := equalWithin?_grows found
  settles {levels} same := by
    have same : heap.equalWithin? (levels + 2) = heap.equalWithin? (levels + 1) := funext fun left => funext fun right => congrFun same (left, right)
    funext ⟨left, right⟩
    cases left <;> cases right <;> first | rfl | simp only [equalWithin?, same]
  elsewhere {levels pair} outside := by
    obtain ⟨left, right⟩ := pair
    cases left with
    | cell left =>
        cases right with
        | cell right =>
            simp only [equalWithin?]
            by_cases same : left = right
            · simp only [same, if_true]
            · simp only [same, if_false]
              by_cases inside : Value.cell left ∈ heap.cellsOf
              · have outside : Value.cell right ∉ heap.cellsOf := fun inside' => outside (Finset.mk_mem_product inside inside')
                rw [read_of_not_mem_cellsOf outside]
                cases heap.read left with
                | tuple items => cases items <;> rfl
                | _ => rfl
              · rw [read_of_not_mem_cellsOf inside]
                cases heap.read right with
                | tuple items => cases items <;> rfl
                | _ => rfl
        | _ => rfl
    | _ => cases right <;> rfl

theorem equalWithin?_enough (deep : heap.size * heap.size < levels) (left right : Value) :
    heap.equalWithin? levels left right = heap.equal? left right := by
  obtain ⟨more, rfl⟩ := Nat.exists_eq_add_of_lt deep
  have size := heap.card_pairsOf_le
  exact congrFun (heap.equal_deepens.enough (Nat.le_trans size (Nat.le_add_right _ more)) size) (left, right)

variable {goal : Address}

theorem reachesWithin_grows : ∀ {levels : Nat} {value : Value}, heap.reachesWithin goal levels value = true →
    heap.reachesWithin goal (levels + 1) value = true
  | 0, value, found => by
      cases value with
      | cell address => exact Bool.or_eq_true_iff.mpr (.inl found)
      | _ => exact found
  | levels + 1, value, found => by
      cases value with
      | cell address =>
          simp only [reachesWithin, Bool.or_eq_true, List.any_eq_true] at found ⊢
          exact found.imp_right fun ⟨part, member, further⟩ => ⟨part, member, reachesWithin_grows further⟩
      | _ => exact found

theorem reaches_deepens (heap : Heap) (goal : Address) :
    Deepens (fun levels value => if heap.reachesWithin goal levels value then some () else none) heap.cellsOf where
  grows {levels value _} found := by
    cases reached : heap.reachesWithin goal levels value with
    | false => simp [reached] at found
    | true => simp [reachesWithin_grows reached]
  settles {levels} same := by
    have same : heap.reachesWithin goal (levels + 1) = heap.reachesWithin goal levels := by
      funext value
      have here := congrFun same value
      cases reached : heap.reachesWithin goal (levels + 1) value <;> cases reached' : heap.reachesWithin goal levels value <;>
        simp [reached, reached'] at here ⊢
    funext value
    cases value with
    | cell address =>
        simp only [reachesWithin, same]
        rfl
    | _ => rfl
  elsewhere {levels value} outside := by
    cases value with
    | cell address =>
        cases levels <;> simp [reachesWithin, read_of_not_mem_cellsOf outside, Cell.contents]
    | _ => simp [reachesWithin]

theorem reachesWithin_enough (deep : heap.size ≤ levels) (value : Value) : heap.reachesWithin goal levels value = heap.reaches value goal := by
  have same := congrFun ((heap.reaches_deepens goal).enough (Nat.le_trans heap.card_cellsOf_le deep) heap.card_cellsOf_le) value
  unfold reaches
  cases reached : heap.reachesWithin goal levels value <;> cases reached' : heap.reachesWithin goal heap.size value <;>
    simp [reached, reached'] at same ⊢

end Heap

end Reentry
