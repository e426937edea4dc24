import Mathlib.Tactic.IntervalCases
import Reentry.Proofs.Custody.Acyclic
import Reentry.Proofs.Keys.Stage

/-!
Laws of equality. Among values without loops, whose maps have distinct keys that are as they were when they were entered,
equality is an equivalence that agrees with the fingerprints; it does not depend on where it stops looking because both
sides are one cell; maps are equal if the one has what the other has; and a copy is equal to its original. All follows
from the one fact that such values are equal if and only if their trees are the same.
-/

namespace Reentry

open scoped Classical

namespace Heap

variable {heap : Heap} {value left right : Value} {tree other : Tree} {levels : Nat}

/-- A value without loops that has no map with two equal keys. -/
structure Plain (heap : Heap) (value : Value) : Prop extends heap.Founded value where
  distinct : ∀ address entries, heap.Leads value address → heap.read address = .map entries →
    entries.Pairwise fun first second => heap.equal first.key second.key = false

/-- In each map inside, the keys look as they did when they were entered. -/
def Unchanged (heap : Heap) (value : Value) : Prop :=
  ∀ address entries, heap.Leads value address → heap.read address = .map entries → ∀ entry ∈ entries, entry.imprint = heap.fingerprint entry.key

/-- A plain value with unchanged keys. -/
structure Regular (heap : Heap) (value : Value) : Prop extends heap.Plain value where
  unchanged : heap.Unchanged value

namespace Regular

theorem part {address : Address} (regular : heap.Regular (.cell address)) (member : value ∈ (heap.read address).contents) : heap.Regular value :=
  ⟨⟨regular.toFounded.part member, fun goal entries leads => regular.distinct goal entries (.inside member leads)⟩,
    fun goal entries leads => regular.unchanged goal entries (.inside member leads)⟩

/-- All maps inside are fair, the larger ones because the smaller ones are. -/
theorem sound (regular : heap.Regular value) : heap.Sound value := by
  obtain ⟨tree, shows⟩ := regular.toFounded.grounded
  induction weight : tree.weight using Nat.strong_induction_on generalizing value tree with
  | _ weight ih =>
      subst weight
      by_cases scalar : ∀ address, value ≠ .cell address
      · exact .scalar scalar
      · obtain ⟨owner, rfl⟩ := by simpa using scalar
        have parts (part : Value) (member : part ∈ (heap.read owner).contents) : heap.Sound part := by
          obtain ⟨other, shows', light⟩ := shows.part member
          exact ih _ light (regular.part member) other shows' rfl
        refine .cell parts fun entries holds => ?_
        have member {entry : Entry} (among : entry ∈ entries) : entry.key ∈ (heap.read owner).contents := by
          rw [holds]
          exact List.mem_flatMap.mpr ⟨entry, among, by simp⟩
        refine ⟨fun entry among => ?_, (regular.distinct owner entries .here holds).imp_of_mem fun {first second} among among' apart alike => ?_⟩
        · obtain ⟨other, shows', _⟩ := shows.part (member among)
          exact ⟨other, shows', (regular.unchanged owner entries .here holds entry among).trans shows'.fingerprint⟩
        · obtain ⟨other, shows', _⟩ := shows.part (member among')
          have equal := (equal_iff_alike (parts _ (member among)) (parts _ (member among')) shows').mpr alike
          rw [apart] at equal
          cases equal

theorem solid (regular : heap.Regular value) : heap.Solid value :=
  ⟨regular.allocated, regular.sound, regular.toFounded.grounded⟩

end Regular

/-- Conversely, values with an end and fair maps are regular. -/
theorem Solid.regular (solid : heap.Solid value) : heap.Regular value := by
  have keys {address : Address} {entries : List Entry} {entry : Entry} (leads : heap.Leads value address) (holds : heap.read address = .map entries)
      (among : entry ∈ entries) : heap.Solid entry.key :=
    solid.inner leads (by rw [holds]; exact List.mem_flatMap.mpr ⟨entry, among, by simp⟩)
  refine ⟨⟨.of_grounded solid.allocated solid.shows, fun address entries leads holds => ?_⟩, fun address entries leads holds entry among => ?_⟩
  · refine (solid.sound address leads entries holds).apart.imp_of_mem fun {first second} among among' apart => ?_
    obtain ⟨_, shows⟩ := (keys leads holds among).shows
    obtain ⟨_, shows'⟩ := (keys leads holds among').shows
    rw [equal_eq (keys leads holds among).sound (keys leads holds among').sound shows shows']
    exact decide_eq_false apart
  · obtain ⟨_, shows, imprint⟩ := (solid.sound address leads entries holds).shows entry among
    rw [imprint, shows.fingerprint]

/-- Comparison that looks into cells also where both sides are one. -/
def compareWithin? (heap : Heap) : Nat → Value → Value → Option Bool
  | 0, .cell _, .cell _ => none
  | levels + 1, .cell address, .cell address' => heap.compareCells? (heap.compareWithin? levels) (heap.read address) (heap.read address')
  | _, left, right => some (left == right)

/-- It has the same answer if it goes as deep as the trees of two sound values. -/
theorem compareWithin?_eq (sound : heap.Sound left) (sound' : heap.Sound right) (found : heap.treeWithin? levels left = some tree)
    (found' : heap.treeWithin? levels right = some other) : heap.compareWithin? levels left right = some (decide (heap.Alike left right)) := by
  have answers := equalWithin?_eq sound sound' found found'
  induction levels generalizing left right tree other with
  | zero => cases left <;> cases right <;> exact answers
  | succ levels ih =>
      cases left with
      | cell address =>
          cases right with
          | cell address' =>
              refine compareCells?_eq sound sound' found found' fun part member part' member' => ?_
              obtain ⟨_, read, _⟩ := treeWithin?_part found member
              obtain ⟨_, read', _⟩ := treeWithin?_part found' member'
              exact ih (sound.part member) (sound'.part member') read read' (equalWithin?_eq (sound.part member) (sound'.part member') read read')
          | _ => exact answers
      | _ => cases right <;> exact answers

/-- Whatever two values are, as long as they are equal they have the same marks at any depth. -/
theorem marksWithin?_of_equal (same : heap.equalWithin? levels left right = some true) (more : Nat) :
    heap.marksWithin? more left = heap.marksWithin? more right := by
  have all {α : Type} {items items' : List α} {marks : α → Option Fingerprint} (each : List.Forall₂ (fun item item' => marks item = marks item') items items') :
      items.mapM marks = items'.mapM marks := by
    induction each with
    | nil => rfl
    | cons first _ ih => rw [List.mapM_cons, List.mapM_cons, first, ih]
  induction levels generalizing left right more with
  | zero =>
      cases left <;> cases right <;> simp only [equalWithin?, Option.some.injEq, beq_iff_eq, reduceCtorEq] at same <;>
        first | rfl | rw [same]
  | succ levels ih =>
      cases left with
      | cell address =>
          cases right with
          | cell address' =>
              rw [equalWithin?_cells] at same
              split at same
              · next one => rw [one]
              · cases more with
                | zero => rfl
                | succ more =>
                    simp only [marksWithin?]
                    cases here : heap.read address <;> cases there : heap.read address'
                    all_goals simp only [here, there, compareCells?] at same ⊢
                    all_goals first | cases same | split at same
                    case tuple.tuple.isTrue length | seq.seq.isTrue length =>
                      rw [all ((everyPair?_eq_true same).imp fun _ _ compared => ih compared more), length]
                    case named.named.isTrue names =>
                      rw [all ((everyPair?_eq_true same).imp fun _ _ compared => ih compared more), names]
                    case map.map.isTrue length => rw [length]
                    all_goals cases same
          | _ => cases same
      | _ =>
          cases right <;> simp only [equalWithin?, Option.some.injEq, beq_iff_eq, reduceCtorEq] at same
          all_goals first | rfl | rw [same]

/-- The laws of equality, on some of the values of a heap. -/
structure Lawful (heap : Heap) (good : Value → Prop) : Prop where
  refl : ∀ value, heap.equal value value = true
  symm : ∀ left right, good left → good right → heap.equal left right = true → heap.equal right left = true
  trans : ∀ left middle right, good left → good middle → good right →
    heap.equal left middle = true → heap.equal middle right = true → heap.equal left right = true
  /-- It makes no difference whether a comparison looks into a cell that is on both sides. -/
  outright : ∀ left right levels, good left → good right → heap.size < levels →
    heap.compareWithin? levels left right = some (heap.equal left right)
  /-- Equal maps are equally large, and what is bound in the one is bound in the other. -/
  maps : ∀ address address' entries entries', good (.cell address) → good (.cell address') →
    heap.read address = .map entries → heap.read address' = .map entries' →
    (heap.equal (.cell address) (.cell address') = true ↔ entries.length = entries'.length ∧ ∀ entry ∈ entries, ∃ value,
      ((Value.cell address').lookup entry.key).run heap = .ok (value, heap) ∧ heap.equal entry.value value = true)
  fingerprints : ∀ left right, heap.equal left right = true → heap.fingerprint left = heap.fingerprint right
  copies : ∀ value, good value → (value.deepCopy.run heap).2.equal (value.deepCopy.run heap).1 value = true

/-- What a look-up in a map finds is the value of the entry whose key looks the same. -/
theorem lookup_iff {address : Address} {entries : List Entry} {key : Value} (solid : heap.Solid (.cell address)) (solid' : heap.Solid key)
    (holds : heap.read address = .map entries) :
    ((Value.cell address).lookup key).run heap = .ok (value, heap) ↔ ∃ entry ∈ entries, heap.Alike key entry.key ∧ entry.value = value := by
  obtain ⟨tree, shows⟩ := solid'.shows
  have fair := solid.sound address .here entries holds
  have sounds : heap.SoundKeys entries := fun entry among =>
    solid.sound.part (by rw [holds]; exact List.mem_flatMap.mpr ⟨entry, among, by simp⟩)
  have searched := entryIndex?_eq solid'.sound shows sounds fair
  have run : ((Value.cell address).lookup key).run heap = ((heap.entryIndex? key entries).bind (entries[·]?)).elim
      (.error (.keyNotFound (key.text heap))) fun entry => .ok (entry.value, heap) := by
    simp only [Value.lookup, StateT.run_bind, StateT.run_get, pure_bind, Heap.cell?, holds]
    cases (heap.entryIndex? key entries).bind (entries[·]?) <;> rfl
  rw [run]
  constructor
  · intro found
    cases place : heap.entryIndex? key entries with
    | none =>
        rw [place] at found
        cases found
    | some index =>
        obtain ⟨bound, alike, _⟩ := List.findIdx?_eq_some_iff_getElem.mp (searched.symm.trans place)
        simp only [place, Option.bind_some, List.getElem?_eq_getElem bound, Option.elim_some] at found
        cases found
        exact ⟨entries[index], List.getElem_mem bound, of_decide_eq_true alike, rfl⟩
  · rintro ⟨entry, among, alike, rfl⟩
    obtain ⟨index, there⟩ := List.mem_iff_getElem?.mp among
    rw [searched, fair.findIdx?_eq there alike]
    simp only [Option.bind_some, there, Option.elim_some]

/-- Equality is lawful on regular values. -/
theorem equal_lawful (heap : Heap) : heap.Lawful heap.Regular := by
  have alike_iff {left right : Value} (regular : heap.Regular left) (regular' : heap.Regular right) :
      heap.equal left right = true ↔ heap.Alike left right :=
    equal_iff_alike regular.sound regular'.sound regular'.solid.shows.choose_spec
  refine ⟨fun value => ?_, fun left right regular regular' equal => ?_, fun left middle right regular regular' regular'' first second => ?_,
    fun left right levels regular regular' deep => ?_, fun address address' entries entries' regular regular' holds holds' => ?_,
    fun left right same => ?_, fun value regular => ?_⟩
  · cases value <;> simp [equal, equal?, equalWithin?]
  · exact (alike_iff regular' regular).mpr ((alike_iff regular regular').mp equal).symm
  · exact (alike_iff regular regular'').mpr (((alike_iff regular regular').mp first).trans ((alike_iff regular' regular'').mp second))
  · obtain ⟨tree, shows⟩ := regular.solid.shows
    obtain ⟨other, shows'⟩ := regular'.solid.shows
    rw [compareWithin?_eq regular.sound regular'.sound (treeWithin?_mono shows.enough deep) (treeWithin?_mono shows'.enough deep),
      equal_eq regular.sound regular'.sound shows shows']
  · obtain ⟨tree, shows⟩ := regular.solid.shows
    obtain ⟨other, shows'⟩ := regular'.solid.shows
    have within {address : Address} {entries : List Entry} {entry : Entry} (holds : heap.read address = .map entries) (among : entry ∈ entries) :
        entry.key ∈ (heap.read address).contents ∧ entry.value ∈ (heap.read address).contents := by
      rw [holds]
      exact ⟨List.mem_flatMap.mpr ⟨entry, among, by simp⟩, List.mem_flatMap.mpr ⟨entry, among, by simp⟩⟩
    -- an entry of the one map is one of the other if a look-up there gives an equal value
    have found_iff (entry : Entry) (among : entry ∈ entries) :
        (∃ value, ((Value.cell address').lookup entry.key).run heap = .ok (value, heap) ∧ heap.equal entry.value value = true) ↔
          ∃ other ∈ entries', heap.Alike entry.key other.key ∧ heap.Alike entry.value other.value := by
      have key := regular.part (within holds among).1
      have own := regular.part (within holds among).2
      simp only [lookup_iff regular'.solid key.solid holds']
      constructor
      · rintro ⟨_, ⟨other, among', alike, rfl⟩, equal⟩
        exact ⟨other, among', alike, (alike_iff own (regular'.part (within holds' among').2)).mp equal⟩
      · rintro ⟨other, among', alike, values⟩
        exact ⟨other.value, ⟨other, among', alike, rfl⟩, (alike_iff own (regular'.part (within holds' among').2)).mpr values⟩
    rw [alike_iff regular regular']
    constructor
    · intro alike
      have length : entries.length = entries'.length := by
        have marks := alike.fingerprint
        simpa [fingerprint, marksWithin?, holds, holds'] using marks
      have each := (map_alike_iff holds holds' shows.enough shows'.enough (regular.sound address .here entries holds) length).mp alike
      exact ⟨length, fun entry among => (found_iff entry among).mpr (each entry among)⟩
    · rintro ⟨length, each⟩
      exact (map_alike_iff holds holds' shows.enough shows'.enough (regular.sound address .here entries holds) length).mpr
        fun entry among => (found_iff entry among).mp (each entry among)
  · exact congrArg (Option.getD · []) (marksWithin?_of_equal (equal?_of_equal same) (heap.size + 1))
  · obtain ⟨_, copied⟩ := regular.solid.copied
    exact (equal_iff_alike copied.solid.sound copied.original.sound copied.original.shows.choose_spec).mpr copied.alike.symm

end Heap

namespace Sample

/-- Two maps with the same entries, entered in different orders. -/
def crossed : Alloc (Value × Value) := do
  let first ← (Tree.map [(.seq [.int 1], .bool true), (.null, .seq [])]).build
  let second ← (Tree.map [(.null, .seq []), (.seq [.int 1], .bool true)]).build
  pure (first, second)

/-- A map under keys that are changed later on, and a copy of that map. -/
def rekeyed : ValueOp (Value × Value) := do
  let first ← Alloc.toOp (Cell.new (.seq [.int 1]))
  let second ← Alloc.toOp (Cell.new (.seq [.int 2]))
  let map ← Alloc.toOp (Cell.newMap [(first, .bool false), (second, .bool true)])
  first.update (.int 0) (.int 5)
  second.update (.int 0) (.int 6)
  pure (map, ← Alloc.toOp map.deepCopy)

/-- The keys, their map, and the copies of all three. -/
def rekeyedCells : Heap := ⟨#[
  .seq [.int 5],
  .seq [.int 6],
  .map [⟨.cell ⟨0⟩, [.seq 1, .int 1], .bool false⟩, ⟨.cell ⟨1⟩, [.seq 1, .int 2], .bool true⟩],
  .seq [.int 5],
  .seq [.int 6],
  .map [⟨.cell ⟨3⟩, [.seq 1, .int 5], .bool false⟩, ⟨.cell ⟨4⟩, [.seq 1, .int 6], .bool true⟩]]⟩

end Sample

namespace Heap

theorem crossed_maps_are_equal : ∃ first second heap, Sample.crossed.run .empty = ((first, second), heap) ∧ heap.Regular first ∧ heap.Regular second ∧
    heap.equal second first = true ∧ heap.fingerprint first = heap.fingerprint second := by
  have made := Tree.build_puts .empty (.map [(.seq [.int 1], .bool true), (.null, .seq [])])
  have made' := Tree.build_puts ((Tree.map [(.seq [.int 1], .bool true), (.null, .seq [])]).build.run .empty).2
    (.map [(.null, .seq []), (.seq [.int 1], .bool true)])
  have regular := (made.2.solid.extends made'.1).regular
  have regular' := made'.2.solid.regular
  refine ⟨_, _, _, rfl, regular, regular', ?_, ?_⟩
  · exact (equal_lawful _).symm _ _ regular regular' (by decide)
  · exact (equal_lawful _).fingerprints _ _ (by decide)

/-- Keys that are changed in their map are found there no longer, so the map lacks what an equal map has. -/
theorem changed_keys_break_symmetry : Sample.rekeyed.run .empty = .ok ((.cell ⟨2⟩, .cell ⟨5⟩), Sample.rekeyedCells) ∧
    Sample.rekeyedCells.Plain (.cell ⟨2⟩) ∧ Sample.rekeyedCells.Plain (.cell ⟨5⟩) ∧
    Sample.rekeyedCells.equal (.cell ⟨2⟩) (.cell ⟨5⟩) = true ∧ Sample.rekeyedCells.equal (.cell ⟨5⟩) (.cell ⟨2⟩) = false ∧
    ¬Sample.rekeyedCells.Lawful Sample.rekeyedCells.Plain := by
  have closed : Sample.rekeyedCells.Closed fun address => address.index < 6 := by
    refine ⟨fun _ inside => inside, fun address inside part member goal same => ?_⟩
    obtain ⟨index⟩ := address
    subst same
    interval_cases index <;> simp [Sample.rekeyedCells, read, Cell.contents] at member ⊢ <;> grind
  have plain (index : Nat) (bound : index < 6) : Sample.rekeyedCells.Plain (.cell ⟨index⟩) := by
    have shows : (Sample.rekeyedCells.treeWithin? 2 (.cell ⟨index⟩)).isSome := by
      revert index
      decide
    obtain ⟨tree, found⟩ := Option.isSome_iff_exists.mp shows
    have inside {address : Address} (leads : Sample.rekeyedCells.Leads (.cell ⟨index⟩) address) : address.index < 6 :=
      leads.within closed (Region.owns_cell.mpr bound)
    refine ⟨.of_grounded (fun address leads => inside leads) ⟨tree, 2, found⟩, fun address entries leads holds => ?_⟩
    have bound := inside leads
    obtain ⟨index⟩ := address
    interval_cases index <;> cases holds <;> decide
  have there : Sample.rekeyedCells.equal (.cell ⟨2⟩) (.cell ⟨5⟩) = true := by decide
  have back : Sample.rekeyedCells.equal (.cell ⟨5⟩) (.cell ⟨2⟩) = false := by decide
  refine ⟨rfl, plain 2 (by decide), plain 5 (by decide), there, back, fun lawful => ?_⟩
  have turned := lawful.symm _ _ (plain 2 (by decide)) (plain 5 (by decide)) there
  rw [back] at turned
  cases turned

end Heap

end Reentry
