import Reentry.Proofs.Equality.Trees
import Reentry.Proofs.Twins.Mirror

/-!
Equality of values. A comparison of values that have trees comes to an end, and says whether these are the same, if in
each map inside the keys are distinct and have the fingerprints with which they were entered. So among such entries a
search for a key finds the one whose key is the same, if there is one.
-/

namespace Reentry

open scoped Classical

section

variable {α β γ : Type} {items : List α} {others : List β}

/-- Tests that all have an answer have one together. -/
theorem every?_eq {test : α → Option Bool} {answer : α → Bool} (answers : ∀ item ∈ items, test item = some (answer item)) :
    every? test items = some (items.all answer) := by
  induction items with
  | nil => rfl
  | cons item rest ih =>
      obtain ⟨first, later⟩ := List.forall_mem_cons.mp answers
      cases here : answer item <;> simp [every?, first, here, ih later]

theorem everyPair?_eq {test : α → β → Option Bool} {like : α → β → Prop} (length : items.length = others.length)
    (answers : ∀ item ∈ items, ∀ other ∈ others, test item other = some (decide (like item other))) :
    everyPair? test items others = some (decide (List.Forall₂ like items others)) := by
  induction items generalizing others with
  | nil =>
      obtain rfl := List.length_eq_zero_iff.mp length.symm
      simp [everyPair?]
  | cons item rest ih =>
      rcases others with _ | ⟨other, others⟩
      · cases length
      · have later := ih (Nat.succ.inj length) fun item member other among =>
          answers item (List.mem_cons_of_mem _ member) other (List.mem_cons_of_mem _ among)
        by_cases here : like item other <;>
          simp [everyPair?, answers item List.mem_cons_self other List.mem_cons_self, here, later]

theorem firstWhere?_eq {test : α → Option Bool} {answer : α → Bool} (answers : ∀ item ∈ items, test item = some (answer item)) :
    firstWhere? test items = some (items.findIdx? answer) := by
  induction items with
  | nil => rfl
  | cons item rest ih =>
      obtain ⟨first, later⟩ := List.forall_mem_cons.mp answers
      cases here : answer item <;> simp [firstWhere?, first, here, ih later, List.findIdx?_cons]

/-- If every find can be turned into another one, so can all together. -/
theorem mapM_eq_some_map {find : α → Option β} {more : α → Option γ} {change : β → γ} {results : List β}
    (each : ∀ item ∈ items, ∀ result, find item = some result → more item = some (change result)) (found : items.mapM find = some results) :
    items.mapM more = some (results.map change) := by
  induction items generalizing results with
  | nil =>
      cases found
      rfl
  | cons item rest ih =>
      obtain ⟨first, later⟩ := List.forall_mem_cons.mp each
      simp only [List.mapM_cons, Option.bind_eq_bind, Option.bind_eq_some_iff] at found ⊢
      obtain ⟨result, here, results, there, made⟩ := found
      cases made
      exact ⟨_, first result here, _, ih later there, rfl⟩

end

theorem exists_of_forall₂ {α β : Type} {like : α → β → Prop} {items : List α} {others : List β} {item : α} (each : List.Forall₂ like items others)
    (member : item ∈ items) : ∃ other ∈ others, like item other := by
  induction each with
  | nil => cases member
  | cons first _ ih =>
      rcases List.mem_cons.mp member with rfl | later
      · exact ⟨_, List.mem_cons_self, first⟩
      · obtain ⟨other, among, alike⟩ := ih later
        exact ⟨other, List.mem_cons_of_mem _ among, alike⟩

theorem pairwise_of_forall₂ {α β : Type} {like : α → β → Prop} {before : α → α → Prop} {after : β → β → Prop} {items : List α} {others : List β}
    (each : List.Forall₂ like items others) (pairs : items.Pairwise before)
    (turns : ∀ {first first' second second'}, like first first' → like second second' → before first second → after first' second') :
    others.Pairwise after := by
  induction each with
  | nil => exact .nil
  | cons first rest ih =>
      obtain ⟨here, later⟩ := List.pairwise_cons.mp pairs
      refine List.pairwise_cons.mpr ⟨fun other among => ?_, ih later⟩
      obtain ⟨item, among, alike⟩ := exists_of_forall₂ rest.flip among
      exact turns first alike (here item among)

theorem Tree.itemMarks_eq (items : List Tree) : itemMarks items = (items.map marks).flatten := by
  induction items with
  | nil => rfl
  | cons item items ih => simp only [itemMarks, ih, List.map_cons, List.flatten_cons]

theorem Tree.fieldMarks_eq (fields : List (String × Tree)) : fieldMarks fields = (fields.map fun field => field.2.marks).flatten := by
  induction fields with
  | nil => rfl
  | cons field fields ih => simp only [fieldMarks, ih, List.map_cons, List.flatten_cons]

namespace Heap

variable {heap after : Heap} {value left right key : Value} {tree other : Tree} {levels more : Nat} {entries others : List Entry}

/-- What the entries of a map look like, one by one. -/
theorem entries_look {trees : List (Tree × Tree)} (found : (entries.mapM fun (entry : Entry) => do
      pure (← heap.treeWithin? levels entry.key, ← heap.treeWithin? levels entry.value)) = some trees) :
    List.Forall₂ (fun (entry : Entry) (pair : Tree × Tree) => heap.treeWithin? levels entry.key = some pair.1 ∧
      heap.treeWithin? levels entry.value = some pair.2) entries trees :=
  (mapM_eq_some found).imp fun entry pair look => by
    simp only [Option.bind_eq_bind, Option.bind_eq_some_iff] at look
    obtain ⟨key, look, value, look', made⟩ := look
    cases made
    exact ⟨look, look'⟩

/-- What the fields of a tuple look like, one by one. -/
theorem fields_look {fields : List (String × Value)} {trees : List (String × Tree)}
    (found : (fields.mapM fun field => (heap.treeWithin? levels field.2).map (field.1, ·)) = some trees) :
    List.Forall₂ (fun field (tree : String × Tree) => field.1 = tree.1 ∧ heap.treeWithin? levels field.2 = some tree.2) fields trees :=
  (mapM_eq_some found).imp fun field tree look => by
    obtain ⟨_, shows, rfl⟩ := Option.map_eq_some_iff.mp look
    exact ⟨rfl, shows⟩

/-- What a cell holds has smaller trees, which are one level less deep. -/
theorem treeWithin?_part {address : Address} {part : Value} (found : heap.treeWithin? (levels + 1) (.cell address) = some tree)
    (member : part ∈ (heap.read address).contents) : ∃ other, heap.treeWithin? levels part = some other ∧ other.weight < tree.weight := by
  simp only [treeWithin?] at found
  cases cell : heap.read address with
  | tuple items | seq items =>
      simp only [cell, Option.map_eq_some_iff] at found
      obtain ⟨trees, found, rfl⟩ := found
      rw [cell] at member
      obtain ⟨tree, here, shows⟩ := exists_of_forall₂ (mapM_eq_some found) member
      refine ⟨tree, shows, ?_⟩
      simp only [Tree.weight, Tree.itemsWeight_eq]
      exact Nat.lt_succ_of_le (List.single_le_sum (fun _ _ => Nat.zero_le _) _ (List.mem_map_of_mem here))
  | named fields =>
      simp only [cell, Option.map_eq_some_iff] at found
      obtain ⟨trees, found, rfl⟩ := found
      rw [cell] at member
      obtain ⟨field, among, rfl⟩ := List.mem_map.mp (show part ∈ fields.map (·.2) from member)
      obtain ⟨tree, here, _, shows⟩ := exists_of_forall₂ (fields_look found) among
      refine ⟨tree.2, shows, ?_⟩
      simp only [Tree.weight, Tree.fieldsWeight_eq]
      exact Nat.lt_succ_of_le (List.single_le_sum (fun _ _ => Nat.zero_le _) _ (List.mem_map_of_mem here))
  | map entries =>
      simp only [cell, Option.map_eq_some_iff] at found
      obtain ⟨trees, found, rfl⟩ := found
      rw [cell] at member
      obtain ⟨entry, among, same⟩ := List.mem_flatMap.mp member
      obtain ⟨⟨first, second⟩, here, shows, shows'⟩ := exists_of_forall₂ (entries_look found) among
      have light : first.weight + second.weight ≤ (trees.map fun entry => entry.1.weight + entry.2.weight).sum :=
        List.single_le_sum (fun _ _ => Nat.zero_le _) _ (List.mem_map_of_mem here)
      have first_pos := first.weight_pos
      have second_pos := second.weight_pos
      simp only [Tree.weight, Tree.entriesWeight_eq]
      simp only [List.mem_cons, List.not_mem_nil, or_false] at same
      rcases same with rfl | rfl
      · exact ⟨first, shows, by omega⟩
      · exact ⟨second, shows', by omega⟩

theorem treeWithin?_mono (found : heap.treeWithin? levels value = some tree) (deeper : levels ≤ more) :
    heap.treeWithin? more value = some tree := by
  induction more, deeper using Nat.le_induction with
  | base => exact found
  | succ more _ ih => exact treeWithin?_grows ih

theorem equalWithin?_mono {same : Bool} (found : heap.equalWithin? levels left right = some same) (deeper : levels ≤ more) :
    heap.equalWithin? more left right = some same := by
  induction more, deeper using Nat.le_induction with
  | base => exact found
  | succ more _ ih => exact equalWithin?_grows ih

/-- Looked at deep enough, the value looks like this. A value that is part of itself looks like nothing. -/
def Shows (heap : Heap) (value : Value) (tree : Tree) : Prop := ∃ levels, heap.treeWithin? levels value = some tree

/-- Two values look the same. -/
def Alike (heap : Heap) (left right : Value) : Prop := ∃ tree other, heap.Shows left tree ∧ heap.Shows right other ∧ tree.Same other

namespace Shows

theorem enough (shows : heap.Shows value tree) : heap.treeWithin? (heap.size + 1) value = some tree := by
  obtain ⟨levels, found⟩ := shows
  rw [← treeWithin?_enough (Nat.lt_of_succ_le (Nat.le_max_right levels (heap.size + 1)))]
  exact treeWithin?_mono found (Nat.le_max_left _ _)

theorem unique (shows : heap.Shows value tree) (shows' : heap.Shows value other) : tree = other :=
  Option.some.inj (shows.enough.symm.trans shows'.enough)

theorem tree_eq (shows : heap.Shows value tree) : heap.tree value = tree := by
  rw [Heap.tree, shows.enough]
  rfl

/-- It is enough that the cells that the value leads to are the same. -/
theorem same (shows : heap.Shows value tree) (same : ∀ address, heap.Leads value address → after.read address = heap.read address) :
    after.Shows value tree := by
  obtain ⟨levels, found⟩ := shows
  exact ⟨levels, (treeWithin?_same levels same).trans found⟩

theorem alike_iff (shows : heap.Shows left tree) (shows' : heap.Shows right other) : heap.Alike left right ↔ tree.Same other := by
  refine ⟨?_, fun same => ⟨tree, other, shows, shows', same⟩⟩
  rintro ⟨_, _, first, second, same⟩
  rwa [shows.unique first, shows'.unique second]

theorem alike (shows : heap.Shows value tree) : heap.Alike value value := ⟨tree, tree, shows, shows, tree.same_refl⟩

section

variable {address : Address} {items : List Value} {fields : List (String × Value)}

theorem tuple {trees : List Tree} (holds : heap.read address = .tuple items) (found : items.mapM (heap.treeWithin? levels) = some trees) :
    heap.Shows (.cell address) (.tuple trees) := ⟨levels + 1, by rw [treeWithin?, holds]; exact congrArg (Option.map _) found⟩

theorem seq {trees : List Tree} (holds : heap.read address = .seq items) (found : items.mapM (heap.treeWithin? levels) = some trees) :
    heap.Shows (.cell address) (.seq trees) := ⟨levels + 1, by rw [treeWithin?, holds]; exact congrArg (Option.map _) found⟩

theorem named {trees : List (String × Tree)} (holds : heap.read address = .named fields)
    (found : (fields.mapM fun field => (heap.treeWithin? levels field.2).map (field.1, ·)) = some trees) :
    heap.Shows (.cell address) (.named trees) := ⟨levels + 1, by rw [treeWithin?, holds]; exact congrArg (Option.map _) found⟩

theorem map {trees : List (Tree × Tree)} (holds : heap.read address = .map entries) (found : (entries.mapM fun (entry : Entry) => do
      pure (← heap.treeWithin? levels entry.key, ← heap.treeWithin? levels entry.value)) = some trees) :
    heap.Shows (.cell address) (.map trees) := ⟨levels + 1, by rw [treeWithin?, holds]; exact congrArg (Option.map _) found⟩

end

/-- A value that has a tree consists of values that have one. -/
theorem part {address : Address} {part : Value} (shows : heap.Shows (.cell address) tree) (member : part ∈ (heap.read address).contents) :
    ∃ other, heap.Shows part other ∧ other.weight < tree.weight := by
  obtain ⟨_ | levels, found⟩ := shows
  · cases found
  · obtain ⟨other, found, light⟩ := treeWithin?_part found member
    exact ⟨other, ⟨levels, found⟩, light⟩

end Shows

namespace Alike

theorem symm (alike : heap.Alike left right) : heap.Alike right left := by
  obtain ⟨tree, other, shows, shows', same⟩ := alike
  exact ⟨other, tree, shows', shows, same.symm⟩

theorem trans (first : heap.Alike left key) (second : heap.Alike key right) : heap.Alike left right := by
  obtain ⟨tree, other, shows, shows', same⟩ := first
  exact ⟨tree, _, shows, second.choose_spec.choose_spec.2.1, same.trans ((shows'.alike_iff second.choose_spec.choose_spec.2.1).mp second)⟩

end Alike

theorem marksWithin?_eq (found : heap.treeWithin? levels value = some tree) : heap.marksWithin? levels value = some tree.marks := by
  induction levels generalizing value tree with
  | zero => cases value <;> cases found <;> rfl
  | succ levels ih =>
      cases value with
      | cell address =>
          simp only [treeWithin?] at found
          simp only [marksWithin?]
          cases cell : heap.read address with
          | tuple items | seq items =>
              simp only [cell, Option.map_eq_some_iff] at found ⊢
              obtain ⟨trees, found, rfl⟩ := found
              refine ⟨_, mapM_eq_some_map (fun _ _ _ => ih) found, ?_⟩
              rw [Tree.marks, Tree.itemMarks_eq, (mapM_eq_some found).length_eq]
          | named fields =>
              simp only [cell, Option.map_eq_some_iff] at found ⊢
              obtain ⟨trees, found, rfl⟩ := found
              refine ⟨trees.map fun field => field.2.marks, mapM_eq_some_map (fun field _ result read => ?_) found, ?_⟩
              · obtain ⟨tree, shows, rfl⟩ := Option.map_eq_some_iff.mp read
                exact ih shows
              · have names : fields.map (·.1) = trees.map (·.1) := by
                  rw [← List.forall₂_eq_eq_eq, List.forall₂_map_left_iff, List.forall₂_map_right_iff]
                  exact (fields_look found).imp fun _ _ look => look.1
                rw [Tree.marks, Tree.fieldMarks_eq, names]
          | map entries =>
              simp only [cell, Option.map_eq_some_iff] at found ⊢
              obtain ⟨trees, found, rfl⟩ := found
              rw [Tree.marks, (mapM_eq_some found).length_eq]
      | _ =>
          cases found
          rfl

/-- The fingerprint of a value tells the marks of its tree. -/
theorem Shows.fingerprint (shows : heap.Shows value tree) : heap.fingerprint value = tree.marks := by
  rw [Heap.fingerprint, marksWithin?_eq shows.enough]
  rfl

/-- Values that look the same have the same fingerprint. -/
theorem Alike.fingerprint (alike : heap.Alike left right) : heap.fingerprint left = heap.fingerprint right := by
  obtain ⟨tree, other, shows, shows', same⟩ := alike
  rw [shows.fingerprint, shows'.fingerprint, same.marks]

/-- Entries of a map with distinct keys that have not changed. -/
structure Fair (heap : Heap) (entries : List Entry) : Prop where
  shows : ∀ entry ∈ entries, ∃ tree, heap.Shows entry.key tree ∧ entry.imprint = tree.marks
  apart : entries.Pairwise fun first second => ¬heap.Alike first.key second.key

/-- All maps in the value are fair. -/
def Sound (heap : Heap) (value : Value) : Prop :=
  ∀ address, heap.Leads value address → ∀ entries, heap.read address = .map entries → heap.Fair entries

theorem Sound.part {address : Address} {part : Value} (sound : heap.Sound (.cell address)) (member : part ∈ (heap.read address).contents) :
    heap.Sound part := fun goal leads => sound goal (.inside member leads)

/-- Of two entries of a fair map, only one has a key that looks like this. -/
theorem Fair.unique (fair : heap.Fair entries) {first second : Nat} {entry entry' : Entry} (here : entries[first]? = some entry)
    (there : entries[second]? = some entry') (alike : heap.Alike key entry.key) (alike' : heap.Alike key entry'.key) : first = second := by
  obtain ⟨bound, rfl⟩ := List.getElem?_eq_some_iff.mp here
  obtain ⟨bound', rfl⟩ := List.getElem?_eq_some_iff.mp there
  rcases Nat.lt_trichotomy first second with before | same | after
  · exact absurd (alike.symm.trans alike') (List.pairwise_iff_getElem.mp fair.apart _ _ bound bound' before)
  · exact same
  · exact absurd (alike'.symm.trans alike) (List.pairwise_iff_getElem.mp fair.apart _ _ bound' bound after)

/-- If keys can be compared, a search finds the first key that looks like the one searched for. The fingerprints spare
comparisons, but no entry is missed. -/
theorem find?_eq {equal : Value → Value → Option Bool} (shows : ∀ entry ∈ entries, ∃ tree, heap.Shows entry.key tree ∧ entry.imprint = tree.marks)
    (answers : ∀ entry ∈ entries, equal key entry.key = some (decide (heap.Alike key entry.key))) :
    Entry.find? heap.fingerprint equal key entries = some (entries.findIdx? fun entry => decide (heap.Alike key entry.key)) := by
  match entries with
  | [] => rfl
  | [entry] => exact firstWhere?_eq answers
  | first :: second :: rest =>
      refine firstWhere?_eq fun entry among => ?_
      obtain ⟨tree, shows, imprint⟩ := shows entry among
      by_cases look : (heap.fingerprint key == entry.imprint) = true
      · simp only [look, if_true, answers entry among]
      · have different : ¬heap.Alike key entry.key := fun alike => look (by
          rw [imprint, ← shows.fingerprint, alike.fingerprint]
          exact beq_self_eq_true _)
        simp only [look, Bool.false_eq_true, if_false, different, decide_false]

/-- Maps with distinct keys look the same if they are equally large and each entry of the one is one of the other. -/
theorem map_alike_iff {address address' : Address} {first second : Tree} (map : heap.read address = .map entries)
    (map' : heap.read address' = .map others) (shows : heap.treeWithin? (levels + 1) (.cell address) = some first)
    (shows' : heap.treeWithin? (levels + 1) (.cell address') = some second) (fair : heap.Fair entries) (length : entries.length = others.length) :
    heap.Alike (.cell address) (.cell address') ↔
      ∀ entry ∈ entries, ∃ other ∈ others, heap.Alike entry.key other.key ∧ heap.Alike entry.value other.value := by
  rw [Shows.alike_iff ⟨_, shows⟩ ⟨_, shows'⟩]
  simp only [treeWithin?, map, map', Option.map_eq_some_iff] at shows shows'
  obtain ⟨trees, found, rfl⟩ := shows
  obtain ⟨trees', found', rfl⟩ := shows'
  have looks := (entries_look found).imp fun _ _ look => show heap.Shows _ _ ∧ heap.Shows _ _ from ⟨⟨_, look.1⟩, ⟨_, look.2⟩⟩
  have looks' := (entries_look found').imp fun _ _ look => show heap.Shows _ _ ∧ heap.Shows _ _ from ⟨⟨_, look.1⟩, ⟨_, look.2⟩⟩
  simp only [Tree.Same, Tree.sameEntries_iff]
  constructor
  · rintro ⟨order, perm, alike⟩ entry among
    obtain ⟨pair, among, shows⟩ := exists_of_forall₂ looks among
    obtain ⟨pair', among, same⟩ := exists_of_forall₂ alike among
    obtain ⟨other, among, shows'⟩ := exists_of_forall₂ looks'.flip (perm.mem_iff.mp among)
    exact ⟨other, among, ⟨_, _, shows.1, shows'.1, same.1⟩, ⟨_, _, shows.2, shows'.2, same.2⟩⟩
  · intro matched
    refine Tree.Distinct.matches ?_ (by rw [← looks.length_eq, ← looks'.length_eq, length]) fun pair among => ?_
    · exact pairwise_of_forall₂ looks fair.apart fun shows shows' apart same => apart ((shows.1.alike_iff shows'.1).mpr same)
    · obtain ⟨entry, among, shows⟩ := exists_of_forall₂ looks.flip among
      obtain ⟨other, among, key, value⟩ := matched entry among
      obtain ⟨pair', among, shows'⟩ := exists_of_forall₂ looks' among
      exact ⟨pair', among, (shows.1.alike_iff shows'.1).mp key, (shows.2.alike_iff shows'.2).mp value⟩

theorem fields_alike_iff {fields fields' : List (String × Value)} {trees trees' : List (String × Tree)}
    (looks : List.Forall₂ (fun field (tree : String × Tree) => field.1 = tree.1 ∧ heap.Shows field.2 tree.2) fields trees)
    (looks' : List.Forall₂ (fun field (tree : String × Tree) => field.1 = tree.1 ∧ heap.Shows field.2 tree.2) fields' trees') :
    (fields.map (·.1) = fields'.map (·.1) ∧ List.Forall₂ (fun field other => heap.Alike field.2 other.2) fields fields') ↔
      List.Forall₂ (fun one other => one.1 = other.1 ∧ Tree.Same one.2 other.2) trees trees' := by
  induction looks generalizing fields' trees' with
  | nil => cases looks' <;> simp
  | @cons field tree fields trees look _ ih =>
      cases looks' with
      | nil => simp
      | cons look' looks' =>
          have later := ih looks'
          simp only [List.map_cons, List.cons.injEq, List.forall₂_cons, look.1, look'.1, look.2.alike_iff look'.2, ← later]
          tauto

theorem items_alike_iff {items items' : List Value} {trees trees' : List Tree} (looks : List.Forall₂ heap.Shows items trees)
    (looks' : List.Forall₂ heap.Shows items' trees') : List.Forall₂ heap.Alike items items' ↔ List.Forall₂ Tree.Same trees trees' := by
  induction looks generalizing items' trees' with
  | nil => cases looks' <;> simp
  | cons look _ ih =>
      cases looks' with
      | nil => simp
      | cons look' looks' => simp only [List.forall₂_cons, look.alike_iff look', ih looks']

/-- A value without parts looks like no cell. -/
theorem not_alike_cell {address : Address} (scalar : ∀ address, value ≠ .cell address) : ¬heap.Alike value (.cell address) := by
  rintro ⟨tree, other, ⟨first, found⟩, ⟨second, found'⟩, same⟩
  have plain : tree.marks ≠ other.marks := by
    cases second with
    | zero => cases found'
    | succ second =>
        simp only [treeWithin?] at found'
        cases value <;> first | exact absurd rfl (scalar _) | skip
        all_goals
          cases first <;> cases found <;> cases cell : heap.read address <;> simp only [cell, Option.map_eq_some_iff] at found' <;>
            obtain ⟨_, _, rfl⟩ := found' <;> simp [Tree.marks]
  exact plain same.marks

/-- Comparing the entries of a fair map with those of another one, entry by entry. -/
theorem every?_entries {equal : Value → Value → Option Bool} (fair : heap.Fair others)
    (keys : ∀ entry ∈ entries, ∀ other ∈ others, equal entry.key other.key = some (decide (heap.Alike entry.key other.key)))
    (values : ∀ entry ∈ entries, ∀ other ∈ others, equal entry.value other.value = some (decide (heap.Alike entry.value other.value))) :
    (every? (fun entry => do
      match (← Entry.find? heap.fingerprint equal entry.key others).bind (others[·]?) with
      | some other => equal entry.value other.value
      | none => some false) entries) =
    some (decide (∀ entry ∈ entries, ∃ other ∈ others, heap.Alike entry.key other.key ∧ heap.Alike entry.value other.value)) := by
  have each (entry : Entry) (among : entry ∈ entries) : (do
      match (← Entry.find? heap.fingerprint equal entry.key others).bind (others[·]?) with
      | some other => equal entry.value other.value
      | none => some false) =
      some (decide (∃ other ∈ others, heap.Alike entry.key other.key ∧ heap.Alike entry.value other.value)) := by
    rw [find?_eq fair.shows (keys entry among)]
    simp only [Option.bind_eq_bind, Option.bind_some]
    cases found : others.findIdx? fun other => decide (heap.Alike entry.key other.key) with
    | none =>
        have missing := List.findIdx?_eq_none_iff.mp found
        simp only [Option.bind_none]
        rw [decide_eq_false]
        rintro ⟨other, among, alike, _⟩
        simpa [alike] using missing other among
    | some index =>
        obtain ⟨bound, alike, _⟩ := List.findIdx?_eq_some_iff_getElem.mp found
        have alike : heap.Alike entry.key others[index].key := of_decide_eq_true alike
        simp only [Option.bind_some, List.getElem?_eq_getElem bound]
        rw [values entry among _ (List.getElem_mem bound)]
        refine congrArg some (decide_eq_decide.mpr ⟨fun same => ⟨_, List.getElem_mem bound, alike, same⟩, ?_⟩)
        rintro ⟨other, among, alike', same⟩
        obtain ⟨place, there⟩ := List.mem_iff_getElem?.mp among
        obtain rfl := fair.unique (List.getElem?_eq_getElem bound) there alike alike'
        rw [List.getElem?_eq_getElem bound] at there
        cases there
        exact same
  refine (every?_eq each).trans (congrArg some ?_)
  rw [Bool.eq_iff_iff]
  simp

/-- Comparison of what two cells hold, by a comparison of values. -/
def compareCells? (heap : Heap) (equal : Value → Value → Option Bool) : Cell → Cell → Option Bool
  | .tuple left, .tuple right | .seq left, .seq right =>
      if left.length = right.length then everyPair? equal left right else some false
  | .named left, .named right =>
      if left.map (·.1) = right.map (·.1) then everyPair? (fun field other => equal field.2 other.2) left right else some false
  | .map left, .map right =>
      if left.length = right.length then
        every? (fun entry => do
          match (← Entry.find? heap.fingerprint equal entry.key right).bind (right[·]?) with
          | some other => equal entry.value other.value
          | none => some false) left
      else some false
  | _, _ => some false

theorem equalWithin?_cells (heap : Heap) (levels : Nat) (address address' : Address) :
    heap.equalWithin? (levels + 1) (.cell address) (.cell address') =
      if address = address' then some true else heap.compareCells? (heap.equalWithin? levels) (heap.read address) (heap.read address') := by
  simp only [equalWithin?]
  cases heap.read address <;> cases heap.read address' <;> rfl

/-- If the parts of two sound cells are told apart by how they look, so are the cells. -/
theorem compareCells?_eq {address address' : Address} {equal : Value → Value → Option Bool} (sound : heap.Sound (.cell address))
    (sound' : heap.Sound (.cell address')) (found : heap.treeWithin? (levels + 1) (.cell address) = some tree)
    (found' : heap.treeWithin? (levels + 1) (.cell address') = some other)
    (parts : ∀ part ∈ (heap.read address).contents, ∀ part' ∈ (heap.read address').contents, equal part part' = some (decide (heap.Alike part part'))) :
    heap.compareCells? equal (heap.read address) (heap.read address') = some (decide (heap.Alike (.cell address) (.cell address'))) := by
  have alike_iff := Shows.alike_iff ⟨_, found⟩ ⟨_, found'⟩
  have whole := found
  have whole' := found'
  simp only [treeWithin?] at found found'
  cases here : heap.read address <;> cases there : heap.read address' <;>
    simp only [here, there, Option.map_eq_some_iff, Cell.contents] at found found' parts <;>
    obtain ⟨trees, read, rfl⟩ := found <;> obtain ⟨trees', read', rfl⟩ := found' <;> simp only [compareCells?]
  case tuple.tuple items items' | seq.seq items items' =>
    have lists := items_alike_iff ((mapM_eq_some read).imp fun _ _ look => ⟨_, look⟩) ((mapM_eq_some read').imp fun _ _ look => ⟨_, look⟩)
    simp only [Tree.Same, Tree.sameItems_iff, ← lists] at alike_iff
    by_cases length : items.length = items'.length
    · simp only [length, if_true, everyPair?_eq length parts, alike_iff]
    · have different : ¬heap.Alike (.cell address) (.cell address') := fun alike => length (alike_iff.mp alike).length_eq
      rw [if_neg length, decide_eq_false different]
  case named.named fields fields' =>
    have lists := fields_alike_iff ((fields_look read).imp fun _ _ look => ⟨look.1, _, look.2⟩) ((fields_look read').imp fun _ _ look => ⟨look.1, _, look.2⟩)
    simp only [Tree.Same, Tree.sameFields_iff, ← lists] at alike_iff
    by_cases names : fields.map (·.1) = fields'.map (·.1)
    · have compared : everyPair? (fun field other => equal field.2 other.2) fields fields'
          = some (decide (List.Forall₂ (fun field other => heap.Alike field.2 other.2) fields fields')) :=
        everyPair?_eq (by simpa using congrArg List.length names) fun field member other member' =>
          parts _ (List.mem_map_of_mem member) _ (List.mem_map_of_mem member')
      simp only [names, if_true, compared, alike_iff, true_and]
    · have different : ¬heap.Alike (.cell address) (.cell address') := fun alike => names (alike_iff.mp alike).1
      rw [if_neg names, decide_eq_false different]
  case map.map entries entries' =>
    by_cases length : entries.length = entries'.length
    · have within {entries : List Entry} {entry : Entry} (member : entry ∈ entries) :
          entry.key ∈ (Cell.map entries).contents ∧ entry.value ∈ (Cell.map entries).contents :=
        ⟨List.mem_flatMap.mpr ⟨entry, member, by simp⟩, List.mem_flatMap.mpr ⟨entry, member, by simp⟩⟩
      rw [if_pos length]
      exact (every?_entries (sound' address' .here entries' there)
        (fun entry member other member' => parts _ (within member).1 _ (within member').1)
        (fun entry member other member' => parts _ (within member).2 _ (within member').2)).trans
        (congrArg some (decide_eq_decide.mpr (map_alike_iff here there whole whole' (sound address .here entries here) length).symm))
    · have different : ¬heap.Alike (.cell address) (.cell address') := fun alike => length (by
        simp only [Tree.Same, Tree.sameEntries_iff] at alike_iff
        obtain ⟨order, perm, alike⟩ := alike_iff.mp alike
        rw [(mapM_eq_some read).length_eq, (mapM_eq_some read').length_eq, alike.length_eq, perm.length_eq])
      rw [if_neg length, decide_eq_false different]
  all_goals simp only [alike_iff, Tree.Same, decide_false]

/-- A comparison that goes as deep as the trees of two sound values tells whether they look the same. -/
theorem equalWithin?_eq (sound : heap.Sound left) (sound' : heap.Sound right) (found : heap.treeWithin? levels left = some tree)
    (found' : heap.treeWithin? levels right = some other) :
    heap.equalWithin? levels left right = some (decide (heap.Alike left right)) := by
  induction levels generalizing left right tree other with
  | zero =>
      rw [Shows.alike_iff ⟨_, found⟩ ⟨_, found'⟩]
      cases left <;> cases found <;> cases right <;> cases found' <;> simp [equalWithin?, Tree.Same, beq_eq_decide]
  | succ levels ih =>
      cases left with
      | cell address =>
          cases right with
          | cell address' =>
              rw [equalWithin?_cells]
              by_cases same : address = address'
              · subst same
                simp [Shows.alike ⟨_, found⟩]
              · rw [if_neg same]
                refine compareCells?_eq sound sound' found found' fun part member part' member' => ?_
                obtain ⟨_, read, _⟩ := treeWithin?_part found member
                obtain ⟨_, read', _⟩ := treeWithin?_part found' member'
                exact ih (sound.part member) (sound'.part member') read read'
          | _ =>
              rw [decide_eq_false fun alike => not_alike_cell (by simp) alike.symm]
              rfl
      | _ =>
          cases right with
          | cell address =>
              rw [decide_eq_false (not_alike_cell (by simp))]
              rfl
          | _ =>
              rw [Shows.alike_iff ⟨_, found⟩ ⟨_, found'⟩]
              cases found
              cases found'
              simp [equalWithin?, Tree.Same, beq_eq_decide]

end Heap

end Reentry
