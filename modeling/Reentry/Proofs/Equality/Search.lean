import Reentry.Proofs.Equality.Values

/-!
Looking for keys. Whatever is equal to a value that has a tree has one too, so a key that is equal to one of a map
is found at that entry and nowhere else, both by a look-up and where a new binding would go. Such a key does not hold the
map: it is exactly as large as a part of the map.
-/

namespace Reentry

open scoped Classical

section

variable {α β : Type} {items : List α} {others : List β}

theorem every?_eq_true {test : α → Option Bool} (holds : every? test items = some true) : ∀ item ∈ items, test item = some true := by
  induction items with
  | nil => exact nofun
  | cons item rest ih =>
      simp only [every?, Option.bind_eq_bind, Option.bind_eq_some_iff] at holds
      obtain ⟨first, here, later⟩ := holds
      cases first with
      | true => exact List.forall_mem_cons.mpr ⟨here, ih later⟩
      | false => cases later

theorem everyPair?_eq_true {test : α → β → Option Bool} (holds : everyPair? test items others = some true) :
    List.Forall₂ (fun item other => test item other = some true) items others := by
  induction items generalizing others with
  | nil =>
      cases others with
      | nil => exact .nil
      | cons other others => cases holds
  | cons item rest ih =>
      cases others with
      | nil => cases holds
      | cons other others =>
          simp only [everyPair?, Option.bind_eq_bind, Option.bind_eq_some_iff] at holds
          obtain ⟨first, here, later⟩ := holds
          cases first with
          | true => exact .cons here (ih later)
          | false => cases later

theorem firstWhere?_eq_some {test : α → Option Bool} {index : Nat} (found : firstWhere? test items = some (some index)) :
    ∃ item, items[index]? = some item ∧ test item = some true := by
  induction items generalizing index with
  | nil => cases found
  | cons item rest ih =>
      simp only [firstWhere?, Option.bind_eq_bind, Option.bind_eq_some_iff] at found
      obtain ⟨first, here, later⟩ := found
      cases first with
      | true =>
          cases later
          exact ⟨item, rfl, here⟩
      | false =>
          simp only [Bool.false_eq_true, if_false, Option.bind_eq_some_iff, Option.some.injEq, Option.map_eq_some_iff] at later
          obtain ⟨_, later, place, rfl, rfl⟩ := later
          exact ih later

theorem every?_isSome {test : α → Option Bool} (each : ∀ item ∈ items, (test item).isSome) : (every? test items).isSome := by
  induction items with
  | nil => rfl
  | cons item rest ih =>
      obtain ⟨own, others⟩ := List.forall_mem_cons.mp each
      obtain ⟨first, here⟩ := Option.isSome_iff_exists.mp own
      cases first
      · simp [every?, here]
      · simpa [every?, here] using ih others

theorem everyPair?_isSome {test : α → β → Option Bool} (each : ∀ item ∈ items, ∀ other, (test item other).isSome) :
    (everyPair? test items others).isSome := by
  induction items generalizing others with
  | nil => cases others <;> rfl
  | cons item rest ih =>
      cases others with
      | nil => rfl
      | cons other others =>
          obtain ⟨own, later⟩ := List.forall_mem_cons.mp each
          obtain ⟨first, here⟩ := Option.isSome_iff_exists.mp (own other)
          cases first
          · simp [everyPair?, here]
          · simpa [everyPair?, here] using ih later

theorem firstWhere?_isSome {test : α → Option Bool} (each : ∀ item ∈ items, (test item).isSome) : (firstWhere? test items).isSome := by
  induction items with
  | nil => rfl
  | cons item rest ih =>
      obtain ⟨own, others⟩ := List.forall_mem_cons.mp each
      obtain ⟨first, here⟩ := Option.isSome_iff_exists.mp own
      obtain ⟨place, later⟩ := Option.isSome_iff_exists.mp (ih others)
      cases first <;> simp [firstWhere?, here, later]

theorem Entry.find?_isSome {marks : Value → Fingerprint} {equal : Value → Value → Option Bool} {key : Value} {entries : List Entry}
    (each : ∀ entry ∈ entries, (equal key entry.key).isSome) : (Entry.find? marks equal key entries).isSome := by
  match entries with
  | [] => rfl
  | [entry] => exact firstWhere?_isSome each
  | first :: second :: rest =>
      refine firstWhere?_isSome fun entry member => ?_
      split
      · exact each entry member
      · rfl

theorem Entry.find?_eq_some {marks : Value → Fingerprint} {equal : Value → Value → Option Bool} {key : Value} {entries : List Entry}
    {index : Nat} (found : Entry.find? marks equal key entries = some (some index)) :
    ∃ entry, entries[index]? = some entry ∧ equal key entry.key = some true := by
  match entries with
  | [] => cases found
  | [entry] => exact firstWhere?_eq_some found
  | first :: second :: rest =>
      obtain ⟨entry, there, tested⟩ := firstWhere?_eq_some found
      split at tested
      · exact ⟨entry, there, tested⟩
      · cases tested

end

namespace Heap

variable {heap : Heap} {value left right key : Value} {tree other : Tree} {levels more : Nat} {entries : List Entry}

/-- What is equal to a value that has a tree has one that is no deeper. -/
theorem exists_treeWithin?_of_equal (same : heap.equalWithin? levels left right = some true)
    (found : heap.treeWithin? more right = some other) : ∃ tree, heap.treeWithin? more left = some tree := by
  induction levels generalizing left right more other with
  | zero =>
      cases left <;> cases right <;> simp only [equalWithin?, Option.some.injEq, beq_iff_eq, reduceCtorEq] at same <;>
        first | exact ⟨_, found⟩ | exact ⟨_, same ▸ found⟩
  | succ levels ih =>
      cases left with
      | cell address =>
          cases right with
          | cell address' =>
              simp only [equalWithin?] at same
              by_cases one : address = address'
              · exact ⟨other, one ▸ found⟩
              · rw [if_neg one] at same
                cases more with
                | zero => cases found
                | succ more =>
                    simp only [treeWithin?] at found ⊢
                    cases here : heap.read address <;> cases there : heap.read address' <;> simp only [here, there] at same found ⊢ <;>
                      first | cases same | skip
                    case tuple.tuple items items' | seq.seq items items' =>
                      split at same
                      · obtain ⟨trees, read, _⟩ := Option.map_eq_some_iff.mp found
                        obtain ⟨trees, read⟩ := @exists_mapM _ _ (heap.treeWithin? more) items fun item member => by
                          obtain ⟨item', among, compared⟩ := exists_of_forall₂ (everyPair?_eq_true same) member
                          obtain ⟨_, _, look⟩ := exists_of_forall₂ (mapM_eq_some read) among
                          exact ih compared look
                        exact ⟨_, congrArg (Option.map _) read⟩
                      · cases same
                    case named.named fields fields' =>
                      split at same
                      · obtain ⟨trees, read, _⟩ := Option.map_eq_some_iff.mp found
                        obtain ⟨trees, read⟩ := @exists_mapM _ _ (fun field => (heap.treeWithin? more field.2).map (field.1, ·)) fields
                          fun field member => by
                            obtain ⟨field', among, compared⟩ := exists_of_forall₂ (everyPair?_eq_true same) member
                            obtain ⟨_, _, _, look⟩ := exists_of_forall₂ (fields_look read) among
                            obtain ⟨tree, look⟩ := ih compared look
                            exact ⟨(field.1, tree), congrArg (Option.map _) look⟩
                        exact ⟨_, congrArg (Option.map _) read⟩
                      · cases same
                    case map.map entries entries' =>
                      split at same
                      · obtain ⟨trees, read, _⟩ := Option.map_eq_some_iff.mp found
                        obtain ⟨trees, read⟩ := @exists_mapM _ _
                          (fun (entry : Entry) => do pure (← heap.treeWithin? more entry.key, ← heap.treeWithin? more entry.value)) entries
                          fun entry member => by
                            have compared := every?_eq_true same entry member
                            simp only [Option.bind_eq_bind, Option.bind_eq_some_iff] at compared
                            obtain ⟨place, searched, compared⟩ := compared
                            cases place with
                            | none => cases compared
                            | some index =>
                                obtain ⟨entry', there, keys⟩ := Entry.find?_eq_some searched
                                simp only [Option.bind_some, there] at compared
                                obtain ⟨_, _, look, look'⟩ := exists_of_forall₂ (entries_look read) (List.mem_of_getElem? there)
                                obtain ⟨key, look⟩ := ih keys look
                                obtain ⟨value, look'⟩ := ih compared look'
                                exact ⟨(key, value), by simp [look, look']⟩
                        exact ⟨_, congrArg (Option.map _) read⟩
                      · cases same
          | _ => cases same
      | _ =>
          cases right <;> simp only [equalWithin?, Option.some.injEq, beq_iff_eq, reduceCtorEq] at same
          all_goals first | exact ⟨_, found⟩ | exact ⟨_, same ▸ found⟩

/-- The comparison of a value that has a tree with any other has an end. -/
theorem equalWithin?_isSome (found : heap.treeWithin? levels left = some tree) (right : Value) : (heap.equalWithin? levels left right).isSome := by
  induction levels generalizing left right tree with
  | zero => cases left <;> cases right <;> first | rfl | cases found
  | succ levels ih =>
      cases left with
      | cell address =>
          cases right with
          | cell address' =>
              simp only [equalWithin?]
              split
              · rfl
              · simp only [treeWithin?] at found
                cases here : heap.read address <;> cases there : heap.read address' <;> simp only [here] at found ⊢ <;> first | rfl | skip
                case tuple.tuple items items' | seq.seq items items' =>
                  split
                  · obtain ⟨trees, read, _⟩ := Option.map_eq_some_iff.mp found
                    refine everyPair?_isSome fun item member other => ?_
                    obtain ⟨_, _, look⟩ := exists_of_forall₂ (mapM_eq_some read) member
                    exact ih look other
                  · rfl
                case named.named fields fields' =>
                  split
                  · obtain ⟨trees, read, _⟩ := Option.map_eq_some_iff.mp found
                    refine everyPair?_isSome fun field member other => ?_
                    obtain ⟨_, _, _, look⟩ := exists_of_forall₂ (fields_look read) member
                    exact ih look other.2
                  · rfl
                case map.map entries entries' =>
                  split
                  · obtain ⟨trees, read, _⟩ := Option.map_eq_some_iff.mp found
                    refine every?_isSome fun entry member => ?_
                    obtain ⟨_, _, key, value⟩ := exists_of_forall₂ (entries_look read) member
                    obtain ⟨place, searched⟩ := Option.isSome_iff_exists.mp
                      (@Entry.find?_isSome heap.fingerprint (heap.equalWithin? levels) entry.key entries' fun other _ => ih key other.key)
                    simp only [searched, Option.bind_eq_bind, Option.bind_some]
                    cases place.bind (entries'[·]?) with
                    | none => rfl
                    | some other => exact ih value other.value
                  · rfl
          | _ => rfl
      | _ => cases right <;> rfl

/-- The comparison of sound values that have trees tells whether they look the same. -/
theorem equal?_eq (sound : heap.Sound left) (sound' : heap.Sound right) (shows : heap.Shows left tree) (shows' : heap.Shows right other) :
    heap.equal? left right = some (decide (heap.Alike left right)) := by
  have deep := Nat.le_max_left (heap.size + 1) (heap.size * heap.size + 1)
  rw [← equalWithin?_enough (Nat.lt_of_succ_le (Nat.le_max_right (heap.size + 1) (heap.size * heap.size + 1)))]
  exact equalWithin?_eq sound sound' (treeWithin?_mono shows.enough deep) (treeWithin?_mono shows'.enough deep)

theorem equal_eq (sound : heap.Sound left) (sound' : heap.Sound right) (shows : heap.Shows left tree) (shows' : heap.Shows right other) :
    heap.equal left right = decide (heap.Alike left right) := by
  rw [equal, equal?_eq sound sound' shows shows']
  rfl

theorem equal?_of_equal (same : heap.equal left right = true) : heap.equal? left right = some true := by
  unfold Heap.equal at same
  cases compared : heap.equal? left right with
  | none =>
      rw [compared] at same
      cases same
  | some answer =>
      rw [compared] at same
      exact congrArg some same

/-- Sound values are equal if and only if they look the same, provided that one of them looks like anything. -/
theorem equal_iff_alike (sound : heap.Sound left) (sound' : heap.Sound right) (shows : heap.Shows right other) :
    heap.equal left right = true ↔ heap.Alike left right := by
  constructor
  · intro equal
    obtain ⟨tree, found⟩ := exists_treeWithin?_of_equal (equal?_of_equal equal) shows.enough
    rw [equal_eq sound sound' ⟨_, found⟩ shows] at equal
    exact of_decide_eq_true equal
  · rintro ⟨tree, other, shows, shows', same⟩
    rw [equal_eq sound sound' shows shows', decide_eq_true ⟨tree, other, shows, shows', same⟩]

/-- All maps in the keys of the entries are fair. -/
def SoundKeys (heap : Heap) (entries : List Entry) : Prop := ∀ entry ∈ entries, heap.Sound entry.key

variable (sound : heap.Sound key) (shows : heap.Shows key tree) (sounds : heap.SoundKeys entries) (fair : heap.Fair entries)
include sound shows sounds fair

theorem entryIndex?_eq : heap.entryIndex? key entries = entries.findIdx? fun entry => decide (heap.Alike key entry.key) := by
  rw [entryIndex?, find?_eq fair.shows fun entry among => ?_]
  · rfl
  · obtain ⟨_, shows', _⟩ := fair.shows entry among
    exact equal?_eq sound (sounds entry among) shows shows'

theorem boundIndex?_eq : heap.boundIndex? key entries = entries.findIdx? fun entry => decide (heap.Alike key entry.key) := by
  unfold boundIndex?
  dsimp only
  have each : List.Forall₂ (fun entry other => entry = other ∧ entry ∈ entries) entries entries :=
    List.forall₂_same.mpr fun entry among => ⟨rfl, among⟩
  refine findIdx?_twin each ?_
  rintro entry _ ⟨rfl, among⟩
  obtain ⟨_, shows', imprint⟩ := fair.shows entry among
  rw [equal_eq sound (sounds entry among) shows shows', imprint, ← shows'.fingerprint]
  by_cases alike : heap.Alike key entry.key
  · simp [alike, alike.fingerprint]
  · simp [alike]

omit sound shows sounds fair

theorem Fair.findIdx?_eq {index : Nat} {entry : Entry} (fair : heap.Fair entries) (there : entries[index]? = some entry)
    (alike : heap.Alike key entry.key) : (entries.findIdx? fun entry => decide (heap.Alike key entry.key)) = some index := by
  obtain ⟨bound, rfl⟩ := List.getElem?_eq_some_iff.mp there
  refine List.findIdx?_eq_some_iff_getElem.mpr ⟨bound, decide_eq_true alike, fun earlier before => ?_⟩
  intro alike'
  have there' := List.getElem?_eq_getElem (Nat.lt_trans before bound)
  exact absurd (fair.unique there there' alike (of_decide_eq_true alike')) (Nat.ne_of_gt before)

/-- What a value leads to is no larger than the value. -/
theorem Leads.weight {goal : Address} (leads : heap.Leads value goal) (shows : heap.Shows value tree) :
    ∃ other, heap.Shows (.cell goal) other ∧ other.weight ≤ tree.weight := by
  induction leads generalizing tree with
  | here => exact ⟨tree, shows, Nat.le_refl _⟩
  | inside member _ ih =>
      obtain ⟨part, shows, light⟩ := shows.part member
      obtain ⟨other, shows, light'⟩ := ih shows
      exact ⟨other, shows, Nat.le_trans light' (Nat.le_of_lt light)⟩

theorem leads_of_reachesWithin {goal : Address} (reached : heap.reachesWithin goal levels value = true) : heap.Leads value goal := by
  induction levels generalizing value with
  | zero =>
      cases value with
      | cell address =>
          obtain rfl := eq_of_beq reached
          exact .here
      | _ => cases reached
  | succ levels ih =>
      cases value with
      | cell address =>
          simp only [reachesWithin, Bool.or_eq_true, List.any_eq_true] at reached
          rcases reached with own | ⟨part, member, reached⟩
          · obtain rfl := eq_of_beq own
            exact .here
          · exact .inside member (ih reached)
      | _ => cases reached

/-- A value that looks like a part of a cell is too small to hold it. -/
theorem Alike.not_reaches {address : Address} {part : Value} (alike : heap.Alike key part) (member : part ∈ (heap.read address).contents) :
    heap.reaches key address = false := by
  obtain ⟨tree, other, shows, shows', same⟩ := alike
  refine Bool.eq_false_iff.mpr fun reached => ?_
  obtain ⟨whole, shows, light⟩ := (leads_of_reachesWithin reached).weight shows
  obtain ⟨inner, shows'', light'⟩ := shows.part member
  rw [same.weight, shows'.unique shows''] at light
  omega

theorem Fair.nil (heap : Heap) : heap.Fair [] := ⟨nofun, .nil⟩

/-- Only the keys and their fingerprints matter. -/
theorem Fair.alike {others : List Entry} (fair : heap.Fair entries)
    (same : List.Forall₂ (fun (left right : Entry) => left.key = right.key ∧ left.imprint = right.imprint) entries others) : heap.Fair others := by
  refine ⟨fun other among => ?_, pairwise_of_forall₂ same fair.apart fun first second apart => by rwa [← first.1, ← second.1]⟩
  obtain ⟨entry, among, look⟩ := exists_of_forall₂ same.flip among
  obtain ⟨tree, shows, imprint⟩ := fair.shows entry among
  exact ⟨tree, look.1 ▸ shows, look.2 ▸ imprint⟩

/-- Some entries of a fair map. -/
theorem Fair.sublist {others : List Entry} (fair : heap.Fair entries) (fewer : List.Sublist others entries) : heap.Fair others :=
  ⟨fun entry among => fair.shows entry (fewer.subset among), fair.apart.sublist fewer⟩

/-- Binding a key keeps the entries fair: it is added only if no entry has one that looks the same. -/
theorem Fair.bind (fair : heap.Fair entries) (sounds : heap.SoundKeys entries) (sound : heap.Sound key) (shows : heap.Shows key tree) (value : Value) :
    heap.Fair (heap.bind key value entries).1 := by
  unfold Heap.bind
  cases place : heap.boundIndex? key entries with
  | some index =>
      refine fair.alike ?_
      have same := @modify_twin Entry Entry (fun left right => left.key = right.key ∧ left.imprint = right.imprint) entries entries
        id ({ · with value }) (List.forall₂_same.mpr fun _ _ => ⟨rfl, rfl⟩) index id
      rwa [List.modify_id] at same
  | none =>
      rw [boundIndex?_eq sound shows sounds fair] at place
      have new := List.findIdx?_eq_none_iff.mp place
      refine ⟨fun entry among => ?_, List.pairwise_append.mpr ⟨fair.apart, List.pairwise_singleton _ _, fun entry among other single => ?_⟩⟩
      · rcases List.mem_append.mp among with old | single
        · exact fair.shows entry old
        · obtain rfl := List.mem_singleton.mp single
          exact ⟨tree, shows, shows.fingerprint⟩
      · obtain rfl := List.mem_singleton.mp single
        exact fun alike => of_decide_eq_false (new entry among) alike.symm

end Heap

end Reentry
