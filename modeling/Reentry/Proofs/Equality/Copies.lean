import Reentry.Proofs.Equality.Search
import Reentry.Proofs.Locations.Access

/-!
Values that are built. Building a tree makes a value in which all maps are fair, since their entries are bound one by
one. If no two keys of a map were the same in the tree, the value looks exactly like the tree. The trees of sound values
are of that kind, so a copy of a sound value looks like the original.
-/

namespace Reentry

open scoped Classical

namespace Heap

variable {heap after : Heap} {value key : Value} {tree other : Tree} {entries : List Entry}

theorem Leads.same {goal : Address} (leads : heap.Leads value goal)
    (same : ∀ address, heap.Leads value address → after.read address = heap.read address) : after.Leads value goal := by
  induction leads with
  | here => exact .here
  | inside member _ ih =>
      refine .inside ?_ (ih fun address leads => same address (.inside member leads))
      rwa [same _ .here]

/-- A value that has not changed leads nowhere else. -/
theorem Leads.before {goal : Address} (leads : after.Leads value goal)
    (same : ∀ address, heap.Leads value address → after.read address = heap.read address) : heap.Leads value goal := by
  induction leads with
  | here => exact .here
  | inside member _ ih =>
      rw [same _ .here] at member
      exact .inside member (ih fun address leads => same address (.inside member leads))

/-- It is enough that nothing has changed in the keys. -/
theorem Fair.same (fair : heap.Fair entries)
    (same : ∀ entry ∈ entries, ∀ address, heap.Leads entry.key address → after.read address = heap.read address) : after.Fair entries := by
  refine ⟨fun entry among => ?_, fair.apart.imp_of_mem fun {first second} among among' apart alike => apart ?_⟩
  · obtain ⟨tree, shows, imprint⟩ := fair.shows entry among
    exact ⟨tree, shows.same (same entry among), imprint⟩
  · obtain ⟨_, shows, _⟩ := fair.shows first among
    obtain ⟨_, shows', _⟩ := fair.shows second among'
    exact (shows.alike_iff shows').mpr (((shows.same (same first among)).alike_iff (shows'.same (same second among'))).mp alike)

theorem Sound.same (sound : heap.Sound value) (same : ∀ address, heap.Leads value address → after.read address = heap.read address) :
    after.Sound value := by
  intro address leads entries found
  have leads := leads.before same
  rw [same address leads] at found
  refine (sound address leads entries found).same fun entry among goal further => same goal (leads.step ?_ further)
  rw [found]
  exact List.mem_flatMap.mpr ⟨entry, among, by simp⟩

theorem Sound.scalar (scalar : ∀ address, value ≠ .cell address) : heap.Sound value := by
  intro address leads
  cases leads <;> exact absurd rfl (scalar _)

/-- A cell that is no map, or a fair one, is sound if its parts are. -/
theorem Sound.cell {address : Address} (parts : ∀ part ∈ (heap.read address).contents, heap.Sound part)
    (fair : ∀ entries, heap.read address = .map entries → heap.Fair entries) : heap.Sound (.cell address) := by
  intro goal leads
  cases leads with
  | here => exact fair
  | inside member leads => exact parts _ member goal leads

/-- A value that has a tree, with fair maps only. -/
structure Solid (heap : Heap) (value : Value) : Prop where
  allocated : ∀ address, heap.Leads value address → address.index < heap.size
  sound : heap.Sound value
  shows : ∃ tree, heap.Shows value tree

theorem Solid.same (solid : heap.Solid value) (size : heap.size ≤ after.size)
    (same : ∀ address, heap.Leads value address → after.read address = heap.read address) : after.Solid value := by
  obtain ⟨tree, shows⟩ := solid.shows
  exact ⟨fun address leads => Nat.lt_of_lt_of_le (solid.allocated address (leads.before same)) size, solid.sound.same same,
    tree, shows.same same⟩

theorem Solid.extends (solid : heap.Solid value) (grows : heap.Extends after) : after.Solid value :=
  solid.same grows.size fun address leads => grows.same address (solid.allocated address leads)

theorem Solid.scalar (scalar : ∀ address, value ≠ .cell address) : heap.Solid value := by
  refine ⟨fun address leads => ?_, .scalar scalar, ?_⟩
  · cases leads <;> exact absurd rfl (scalar _)
  · cases value <;> first | exact absurd rfl (scalar _) | exact ⟨_, 0, rfl⟩

/-- A solid value that looks like the tree, provided that in no map of the tree two keys are the same. -/
structure Depicts (heap : Heap) (value : Value) (tree : Tree) : Prop where
  solid : heap.Solid value
  shows : tree.Neat → heap.Shows value tree

theorem Depicts.extends (depicts : heap.Depicts value tree) (grows : heap.Extends after) : after.Depicts value tree :=
  ⟨depicts.solid.extends grows, fun neat => (depicts.shows neat).same fun address leads => grows.same address (depicts.solid.allocated address leads)⟩

theorem Depicts.scalar (scalar : ∀ address, value ≠ .cell address) (shows : heap.Shows value tree) : heap.Depicts value tree :=
  ⟨.scalar scalar, fun _ => shows⟩

/-- A cell of solid parts. -/
theorem Solid.cell {address : Address} (inside : address.index < heap.size) (parts : ∀ part ∈ (heap.read address).contents, heap.Solid part)
    (fair : ∀ entries, heap.read address = .map entries → heap.Fair entries) : heap.Solid (.cell address) := by
  refine ⟨fun goal leads => ?_, .cell (fun part member => (parts part member).sound) fair, ?_⟩
  · cases leads with
    | here => exact inside
    | inside member leads => exact (parts _ member).allocated goal leads
  · obtain ⟨tree, found⟩ := exists_treeWithin?_cell fun part member => by
      obtain ⟨tree, shows⟩ := (parts part member).shows
      exact ⟨tree, shows.enough⟩
    exact ⟨tree, _, found⟩

end Heap

/-- Work that only adds cells, and what holds of its result then. -/
def Alloc.Puts {α : Type} (heap : Heap) (work : Alloc α) (good : Heap → α → Prop) : Prop :=
  heap.Extends (work.run heap).2 ∧ good (work.run heap).2 (work.run heap).1

namespace Alloc.Puts

variable {α β : Type} {heap : Heap} {work : Alloc α} {good : Heap → α → Prop} {later : Heap → β → Prop}

theorem pure {result : α} (holds : good heap result) : Puts heap (Pure.pure result) good := ⟨.refl heap, holds⟩

theorem bind {rest : α → Alloc β} (first : Puts heap work good)
    (next : ∀ result after, heap.Extends after → good after result → Puts after (rest result) later) : Puts heap (work >>= rest) later := by
  obtain ⟨grows, holds⟩ := first
  obtain ⟨grows', holds'⟩ := next _ _ grows holds
  exact ⟨grows.trans grows', holds'⟩

theorem weaken {more : Heap → α → Prop} (puts : Puts heap work good) (weaker : ∀ after result, heap.Extends after → good after result → more after result) :
    Puts heap work more := ⟨puts.1, weaker _ _ puts.1 puts.2⟩

/-- Work at each item. What is needed for it, and what it brings about, outlasts the addition of cells. -/
theorem mapM {step : α → Alloc β} {ready : Heap → α → Prop} {like : Heap → α → β → Prop} (items : List α)
    (lasts : ∀ {heap after item}, ready heap item → heap.Extends after → ready after item)
    (stays : ∀ {heap after item result}, like heap item result → heap.Extends after → like after item result)
    (each : ∀ heap item, ready heap item → Puts heap (step item) fun after => like after item) (heap : Heap) (all : ∀ item ∈ items, ready heap item) :
    Puts heap (items.mapM step) fun after => List.Forall₂ (like after) items := by
  induction items generalizing heap with
  | nil => exact .pure .nil
  | cons item rest ih =>
      obtain ⟨first, others⟩ := List.forall_mem_cons.mp all
      rw [List.mapM_cons]
      refine (each heap item first).bind fun _ after grows made => ?_
      refine (ih after fun item among => lasts (others item among) grows).bind fun _ final grows' made' => .pure ?_
      exact .cons (stays made grows') made'

/-- A new cell. -/
theorem new (cell : Cell) {good : Heap → Value → Prop} (holds : good (heap.allocate cell) (.cell heap.next)) : Puts heap (Cell.new cell) good :=
  ⟨.allocate heap cell, holds⟩

end Alloc.Puts

/-- What holds of the heap and the result whenever the work succeeds. -/
def ValueOp.Gives {α : Type} (heap : Heap) (work : ValueOp α) (good : Heap → α → Prop) : Prop :=
  ∀ result after, work.run heap = .ok (result, after) → good after result

namespace ValueOp.Gives

variable {α β : Type} {heap : Heap} {good : Heap → α → Prop} {later : Heap → β → Prop}

theorem pure {result : α} (holds : good heap result) : Gives heap (Pure.pure result) good := by
  intro _ _ ran
  cases ran
  exact holds

theorem throw (error : ValueError) : Gives heap (throw error) good := by
  intro _ _ ran
  cases ran

theorem get {rest : Heap → ValueOp α} (gives : Gives heap (rest heap) good) : Gives heap (MonadState.get >>= rest) good := gives

theorem mismatch (op expected : String) (found : Value) : Gives heap (Value.mismatch op expected found) good := get (throw _)

theorem bind {work : ValueOp α} {rest : α → ValueOp β} (first : Gives heap work good)
    (next : ∀ result after, good after result → Gives after (rest result) later) : Gives heap (work >>= rest) later := by
  intro result after ran
  obtain ⟨value, middle, ran, ran'⟩ := run_bind_eq_ok.mp ran
  exact next value middle (first value middle ran) result after ran'

theorem toOp {work : Alloc α} (puts : Alloc.Puts heap work good) : Gives heap work.toOp fun after result => heap.Extends after ∧ good after result := by
  intro result after ran
  have made : work.run heap = (result, after) := Except.ok.inj ran
  have holds : heap.Extends (work.run heap).2 ∧ good (work.run heap).2 (work.run heap).1 := puts
  rwa [made] at holds

/-- A cell is overwritten and something is given. -/
theorem write {address : Address} {cell : Cell} {result : α} (holds : good (heap.write address cell) result) :
    Gives heap (do modify fun heap => heap.write address cell; Pure.pure result) good := by
  intro _ _ ran
  cases ran
  exact holds

/-- A cell is overwritten, and nothing is given. -/
theorem modify {address : Address} {cell : Cell} {good : Heap → Unit → Prop} (holds : good (heap.write address cell) ()) :
    Gives heap (modify fun heap => heap.write address cell) good := by
  intro _ _ ran
  cases ran
  exact holds

/-- What only looks at the heap may come first. -/
theorem quiet {work : ValueOp α} {rest : α → ValueOp β} (quiet : Quiet work) (next : ∀ result, Gives heap (rest result) later) :
    Gives heap (work >>= rest) later := by
  intro result after ran
  obtain ⟨value, middle, ran, ran'⟩ := run_bind_eq_ok.mp ran
  rcases quiet heap with ⟨found, done⟩ | ⟨error, done⟩ <;> rw [done] at ran <;> cases ran
  exact next value result after ran'

/-- An index lies in its bounds. -/
theorem seqIndex (key : Value) (length : Nat) (inclusive : Bool) :
    Gives heap (key.seqIndex length inclusive) fun after index => after = heap ∧ index < if inclusive then length + 1 else length := by
  intro index after ran
  cases key with
  | int number =>
      simp only [Value.seqIndex, Value.asInt, pure_bind] at ran
      by_cases inside : 0 ≤ number ∧ number.toInt.toNat < if inclusive then length + 1 else length
      · rw [if_pos inside] at ran
        cases ran
        exact ⟨rfl, inside.2⟩
      · rw [if_neg inside] at ran
        cases ran
  | _ => cases ran

/-- A check of the key changes nothing. -/
theorem checkKey (key : Value) (map : Address) : Gives heap (key.checkKey map) fun after _ => after = heap := by
  intro _ _ ran
  simp only [Value.checkKey, StateT.run_bind, StateT.run_get, pure_bind] at ran
  split at ran <;> cases ran
  rfl

end ValueOp.Gives

namespace Heap

open Alloc

variable {heap after : Heap} {tree : Tree}

theorem next_lt_size (heap : Heap) (cell : Cell) : heap.next.index < (heap.allocate cell).size := by
  rw [size_allocate]
  exact Nat.lt_succ_self _

/-- A new cell around values that look like trees. -/
theorem Depicts.new {cell : Cell} (parts : ∀ part ∈ cell.contents, heap.Solid part) (fair : ∀ entries, cell = .map entries → heap.Fair entries)
    (shows : tree.Neat → (heap.allocate cell).Shows (.cell heap.next) tree) : (heap.allocate cell).Depicts (.cell heap.next) tree := by
  refine ⟨.cell (heap.next_lt_size cell) (fun part member => ?_) fun entries found => ?_, shows⟩
  · rw [read_allocate_next] at member
    exact (parts part member).extends (.allocate heap cell)
  · rw [read_allocate_next] at found
    subst found
    refine (fair entries rfl).same fun entry among address leads => ?_
    exact read_allocate_of_lt ((parts entry.key (List.mem_flatMap.mpr ⟨entry, among, by simp⟩)).allocated address leads) _

theorem items_shown {values : List Value} {trees : List Tree} (each : List.Forall₂ heap.Depicts values trees) (neat : Tree.ItemsNeat trees) :
    values.mapM (heap.treeWithin? (heap.size + 1)) = some trees := by
  induction each with
  | nil => rfl
  | cons first _ ih => simp [(first.shows neat.1).enough, ih neat.2]

theorem fields_shown {fields : List (String × Value)} {trees : List (String × Tree)}
    (each : List.Forall₂ (fun field tree => field.1 = tree.1 ∧ heap.Depicts field.2 tree.2) fields trees) (neat : Tree.FieldsNeat trees) :
    (fields.mapM fun field => (heap.treeWithin? (heap.size + 1) field.2).map (field.1, ·)) = some trees := by
  induction each with
  | nil => rfl
  | @cons field tree _ _ first _ ih =>
      obtain ⟨name, tree⟩ := tree
      obtain ⟨rfl, depicts⟩ := first
      simp [(depicts.shows neat.1).enough, ih neat.2]

/-- Bindings that look like pairs of trees. -/
abbrev Bound (heap : Heap) (binding : Value × Value) (pair : Tree × Tree) : Prop := heap.Depicts binding.1 pair.1 ∧ heap.Depicts binding.2 pair.2

/-- Entries of solid values with distinct keys. -/
structure Tabled (heap : Heap) (entries : List Entry) : Prop where
  fair : heap.Fair entries
  solid : ∀ part ∈ (Cell.map entries).contents, heap.Solid part

theorem Tabled.sounds {entries : List Entry} (tabled : heap.Tabled entries) : heap.SoundKeys entries := fun entry among =>
  (tabled.solid entry.key (List.mem_flatMap.mpr ⟨entry, among, by simp⟩)).sound

theorem Tabled.bind {entries : List Entry} {key value : Value} (tabled : heap.Tabled entries) (solid : heap.Solid key) (solid' : heap.Solid value) :
    heap.Tabled (heap.bind key value entries).1 := by
  obtain ⟨tree, shows⟩ := solid.shows
  refine ⟨tabled.fair.bind tabled.sounds solid.sound shows value, fun part member => ?_⟩
  rcases heap.bind_contents key value entries part member with rfl | rfl | old
  · exact solid
  · exact solid'
  · exact tabled.solid part old

theorem Tabled.bindings {bindings : List (Value × Value)} {pairs : List (Tree × Tree)} {entries : List Entry} (tabled : heap.Tabled entries)
    (each : List.Forall₂ heap.Bound bindings pairs) :
    heap.Tabled (bindings.foldl (fun entries binding => (heap.bind binding.1 binding.2 entries).1) entries) := by
  induction each generalizing entries with
  | nil => exact tabled
  | cons first _ ih => exact ih (tabled.bind first.1.solid first.2.solid)

/-- If no two keys look the same, all bindings come out as entries, in this order. -/
theorem bindings_eq {bindings : List (Value × Value)} {pairs : List (Tree × Tree)} {entries : List Entry} {done : List (Tree × Tree)}
    (tabled : heap.Tabled entries) (bound : List.Forall₂ (fun (entry : Entry) pair => heap.Shows entry.key pair.1) entries done)
    (each : List.Forall₂ heap.Bound bindings pairs) (distinct : Tree.Distinct (done ++ pairs)) (neat : Tree.EntriesNeat pairs) :
    bindings.foldl (fun entries binding => (heap.bind binding.1 binding.2 entries).1) entries
      = entries ++ bindings.map fun binding => ⟨binding.1, heap.fingerprint binding.1, binding.2⟩ := by
  induction each generalizing entries done with
  | nil => simp
  | @cons binding pair bindings pairs first _ ih =>
      have shows := first.1.shows neat.1
      have new : heap.bind binding.1 binding.2 entries = (entries ++ [⟨binding.1, heap.fingerprint binding.1, binding.2⟩], none) := by
        unfold Heap.bind
        rw [boundIndex?_eq first.1.solid.sound shows tabled.sounds tabled.fair]
        rw [List.findIdx?_eq_none_iff.mpr fun entry among => ?_]
        obtain ⟨earlier, among, shows'⟩ := exists_of_forall₂ bound among
        have apart : ¬earlier.1.Same pair.1 := (List.pairwise_append.mp distinct).2.2 earlier among pair List.mem_cons_self
        exact decide_eq_false fun alike => apart (((shows.alike_iff shows').mp alike).symm)
      have tabled' := tabled.bind first.1.solid first.2.solid
      rw [new] at tabled'
      rw [List.foldl_cons, new]
      rw [@ih _ (done ++ [pair]) tabled' (List.rel_append bound (.cons shows .nil)) (by rwa [List.append_assoc]) neat.2.2, List.map_cons,
        List.append_assoc]
      rfl

theorem bindings_shown {bindings : List (Value × Value)} {pairs : List (Tree × Tree)} {imprint : Value → Fingerprint}
    (each : List.Forall₂ heap.Bound bindings pairs) (neat : Tree.EntriesNeat pairs) :
    ((bindings.map fun binding => Entry.mk binding.1 (imprint binding.1) binding.2).mapM fun (entry : Entry) => do
      pure (← heap.treeWithin? (heap.size + 1) entry.key, ← heap.treeWithin? (heap.size + 1) entry.value)) = some pairs := by
  induction each with
  | nil => rfl
  | cons first _ ih =>
      rw [List.map_cons, List.mapM_cons, ih neat.2.2]
      dsimp only
      rw [(first.1.shows neat.1).enough, (first.2.shows neat.2.1).enough]
      rfl

theorem newMap_puts {bindings : List (Value × Value)} {pairs : List (Tree × Tree)} (each : List.Forall₂ heap.Bound bindings pairs) :
    Puts heap (Cell.newMap bindings) fun after value => after.Depicts value (.map pairs) := by
  have tabled : heap.Tabled [] := ⟨.nil heap, by simp [Cell.contents]⟩
  have whole := tabled.bindings each
  refine ⟨.allocate heap _, Depicts.new whole.solid (fun entries same => ?_) fun neat => ?_⟩
  · cases same
    exact whole.fair
  · obtain ⟨distinct, neat⟩ := neat
    have made := bindings_eq tabled .nil each distinct neat
    have holds := (heap.read_allocate_next _).trans (congrArg Cell.map made)
    exact .map holds (bindings_shown (each.imp fun _ _ bound => ⟨bound.1.extends (.allocate heap _), bound.2.extends (.allocate heap _)⟩) neat)

end Heap

namespace Tree

open Heap Alloc

mutual

theorem build_puts (heap : Heap) : (tree : Tree) → Puts heap tree.build fun after value => after.Depicts value tree
  | .null | .bool _ | .int _ | .event _ | .halt | .machine _ => .pure (.scalar nofun ⟨0, rfl⟩)
  | .tuple items => (buildItems_puts heap items).bind fun values after _ each => .new _ <| by
      refine Depicts.new (fun part member => (exists_of_forall₂ each member).choose_spec.2.solid) nofun fun neat => ?_
      exact .tuple (after.read_allocate_next _) (items_shown (each.imp fun _ _ depicts => depicts.extends (.allocate after _)) neat)
  | .seq items => (buildItems_puts heap items).bind fun values after _ each => .new _ <| by
      refine Depicts.new (fun part member => (exists_of_forall₂ each member).choose_spec.2.solid) nofun fun neat => ?_
      exact .seq (after.read_allocate_next _) (items_shown (each.imp fun _ _ depicts => depicts.extends (.allocate after _)) neat)
  | .named fields => (buildFields_puts heap fields).bind fun values after _ each => .new _ <| by
      refine Depicts.new (fun part member => ?_) nofun fun neat => ?_
      · obtain ⟨field, among, rfl⟩ := List.mem_map.mp member
        exact (exists_of_forall₂ each among).choose_spec.2.2.solid
      · exact .named (after.read_allocate_next _) (fields_shown (each.imp fun _ _ depicts => ⟨depicts.1, depicts.2.extends (.allocate after _)⟩) neat)
  | .map entries => (buildEntries_puts heap entries).bind fun bindings after _ each => newMap_puts each

theorem buildItems_puts (heap : Heap) : (items : List Tree) →
    Puts heap (buildItems items) fun after values => List.Forall₂ after.Depicts values items
  | [] => .pure .nil
  | item :: rest => (build_puts heap item).bind fun _ after _ first => (buildItems_puts after rest).bind fun _ _ grows each =>
      .pure (.cons (first.extends grows) each)

theorem buildFields_puts (heap : Heap) : (fields : List (String × Tree)) → Puts heap (buildFields fields) fun after values =>
    List.Forall₂ (fun field tree => field.1 = tree.1 ∧ after.Depicts field.2 tree.2) values fields
  | [] => .pure .nil
  | (_, item) :: rest => (build_puts heap item).bind fun _ after _ first => (buildFields_puts after rest).bind fun _ _ grows each =>
      .pure (.cons ⟨rfl, first.extends grows⟩ each)

theorem buildEntries_puts (heap : Heap) : (entries : List (Tree × Tree)) →
    Puts heap (buildEntries entries) fun after bindings => List.Forall₂ after.Bound bindings entries
  | [] => .pure .nil
  | (key, item) :: rest => (build_puts heap key).bind fun _ _ _ first => (build_puts _ item).bind fun _ _ grows second =>
      (buildEntries_puts _ rest).bind fun _ _ grows' each =>
        .pure (.cons ⟨first.extends (grows.trans grows'), second.extends grows'⟩ each)

end

end Tree

namespace Heap

variable {heap after : Heap} {value : Value} {tree : Tree} {levels : Nat}

/-- In the tree of a sound value no two keys of a map are the same. -/
theorem Sound.neat (sound : heap.Sound value) (found : heap.treeWithin? levels value = some tree) : tree.Neat := by
  induction levels generalizing value tree with
  | zero => cases value <;> cases found <;> simp only [Tree.Neat]
  | succ levels ih =>
      cases value with
      | cell address =>
          simp only [treeWithin?] at found
          have parts {part : Value} {tree : Tree} (member : part ∈ (heap.read address).contents)
              (look : heap.treeWithin? levels part = some tree) : tree.Neat := ih (sound.part member) look
          cases cell : heap.read address with
          | tuple items | seq items =>
              simp only [cell, Option.map_eq_some_iff, Cell.contents] at found parts
              obtain ⟨trees, found, rfl⟩ := found
              refine Tree.itemsNeat_iff.mpr fun tree among => ?_
              obtain ⟨item, member, look⟩ := exists_of_forall₂ (mapM_eq_some found).flip among
              exact parts member look
          | named fields =>
              simp only [cell, Option.map_eq_some_iff, Cell.contents] at found parts
              obtain ⟨trees, found, rfl⟩ := found
              refine Tree.fieldsNeat_iff.mpr fun tree among => ?_
              obtain ⟨field, member, _, look⟩ := exists_of_forall₂ (fields_look found).flip among
              exact parts (List.mem_map_of_mem member) look
          | map entries =>
              simp only [cell, Option.map_eq_some_iff] at found parts
              obtain ⟨trees, found, rfl⟩ := found
              have looks := entries_look found
              refine ⟨?_, Tree.entriesNeat_iff.mpr fun pair among => ?_⟩
              · exact pairwise_of_forall₂ looks (sound address .here entries cell).apart fun look look' apart same =>
                  apart ((Shows.alike_iff ⟨_, look.1⟩ ⟨_, look'.1⟩).mpr same)
              · obtain ⟨entry, member, look⟩ := exists_of_forall₂ looks.flip among
                exact ⟨parts (List.mem_flatMap.mpr ⟨entry, member, by simp⟩) look.1,
                  parts (List.mem_flatMap.mpr ⟨entry, member, by simp⟩) look.2⟩
      | _ =>
          cases found
          simp only [Tree.Neat]

open Alloc

/-- A copy is made of the tree of the original, and it is solid whatever the original is. -/
theorem deepCopy_puts (heap : Heap) (value : Value) : Puts heap value.deepCopy fun after copy => after.Depicts copy (heap.tree value) :=
  Tree.build_puts heap (heap.tree value)

/-- A copy of a sound value that has a tree has the same one. -/
theorem Sound.copied (sound : heap.Sound value) (shows : heap.Shows value tree) :
    Puts heap value.deepCopy fun after copy => after.Solid copy ∧ after.Shows copy tree :=
  (heap.deepCopy_puts value).weaken fun _ _ _ depicts =>
    ⟨depicts.solid, shows.tree_eq ▸ depicts.shows (shows.tree_eq ▸ sound.neat shows.enough)⟩

end Heap

end Reentry
