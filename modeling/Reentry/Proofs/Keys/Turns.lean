import Reentry.Proofs.Forest.Copies
import Reentry.Proofs.Keys.Sealed

/-!
Frozen keys. Cells that can be had by looking into values, but not into keys, are shown; all that work on values can
ever get hold of is shown. The keys of shown maps are made of cells that are not shown, each key of cells of its own. Work
that changes shown cells only, takes keys away, and adds keys made of new cells leaves it so.
-/

namespace Reentry

namespace Heap

variable {heap before after : Heap} {key value : Value} {goal address : Address} {roots : List Value} {shown more : Region}

/-- Maps in what the values lead to have solid, distinct and sealed keys, and none of the values is part of a key. -/
structure Guarded (heap : Heap) (roots : List Value) : Prop where
  allocated : ∀ address, heap.reachOf roots address → address.index < heap.size
  sealed_ : heap.Sealed (heap.reachOf roots)
  free : ∀ map entries entry address, heap.reachOf roots map → heap.read map = .map entries → entry ∈ entries → .cell address ∈ roots →
    ¬heap.Leads entry.key address
  solid : ∀ map entries entry, heap.reachOf roots map → heap.read map = .map entries → entry ∈ entries → heap.Solid entry.key
  fair : ∀ map entries, heap.reachOf roots map → heap.read map = .map entries → heap.Fair entries

/-- The shown cells have only shown parts, and keys that are made of other cells. -/
structure Frozen (heap : Heap) (shown : Region) : Prop where
  allocated : ∀ address, shown address → address.index < heap.size
  parts : ∀ address, shown address → shown.OwnsAll (heap.read address).parts
  solid : ∀ owner, shown owner → ∀ key ∈ (heap.read owner).keys, heap.Solid key
  sealed_ : ∀ owner, shown owner → ∀ key ∈ (heap.read owner).keys, heap.Sealed (heap.Leads key)
  fair : ∀ address entries, shown address → heap.read address = .map entries → heap.Fair entries
  hidden : ∀ owner, shown owner → ∀ key ∈ (heap.read owner).keys, ∀ address, heap.Leads key address → ¬shown address
  apart : ∀ owner other key key' address, shown owner → shown other → key ∈ (heap.read owner).keys → key' ∈ (heap.read other).keys →
    heap.Leads key address → heap.Leads key' address → owner = other ∧ key = key'

/-- All that can be had by looking into values, but not into keys. -/
inductive Opens (heap : Heap) (roots : List Value) : Region
  | root {address : Address} (among : .cell address ∈ roots) : Opens heap roots address
  | part {owner address : Address} (opens : Opens heap roots owner) (member : .cell address ∈ (heap.read owner).parts) : Opens heap roots address

theorem Opens.reach (opens : heap.Opens roots address) : heap.reachOf roots address := by
  induction opens with
  | root among => exact ⟨_, among, .here⟩
  | part _ member ih => exact reachOf_step ih (Cell.mem_contents.mpr (.inl member)) .here

theorem mem_keys (member : key ∈ (heap.read address).keys) : ∃ (entries : List Entry) (index : Nat) (entry : Entry), heap.read address = .map entries ∧
    entries[index]? = some entry ∧ entry.key = key := by
  cases cell : heap.read address with
  | map entries =>
      rw [cell] at member
      obtain ⟨entry, among, same⟩ := List.mem_map.mp member
      obtain ⟨index, there⟩ := List.mem_iff_getElem?.mp among
      exact ⟨entries, index, entry, rfl, there, same⟩
  | _ =>
      rw [cell] at member
      cases member

theorem mem_keys_slot {entries : List Entry} {index : Nat} {entry : Entry} (holds : heap.read address = .map entries)
    (there : entries[index]? = some entry) : (heap.read address).contents[2 * index]? = some entry.key := by
  rw [holds, (Cell.contents_slot entries index).1, there]
  rfl

theorem Sealed.mono {reach less : Region} (sealed_ : heap.Sealed reach) (inside : less.Inside reach) : heap.Sealed less :=
  fun map entries index entry address owner slot reached holds there leads reached' named =>
    sealed_ map entries index entry address owner slot (inside map reached) holds there leads (inside owner reached') named

/-- If none of the values is part of a key, no key can be had without looking into keys; and what is open is frozen. -/
theorem Guarded.frozen (guarded : heap.Guarded roots) : heap.Frozen (heap.Opens roots) := by
  have hidden (owner : Address) (opens : heap.Opens roots owner) (key : Value) (member : key ∈ (heap.read owner).keys) (address : Address)
      (leads : heap.Leads key address) : ¬heap.Opens roots address := by
    intro opened
    obtain ⟨entries, index, entry, holds, there, rfl⟩ := mem_keys member
    induction opened with
    | root among => exact guarded.free owner entries entry _ opens.reach holds (List.mem_of_getElem? there) among leads
    | @part other address opened part ih =>
        obtain ⟨slot, named, odd⟩ := Cell.part_slot part
        rcases guarded.sealed_ owner entries index entry address other slot opens.reach holds there leads opened.reach named with further | ⟨rfl, rfl⟩
        · exact ih further
        · exact odd entries holds index rfl
  refine ⟨fun address opens => guarded.allocated address opens.reach, fun address opens part member goal same => .part opens (same ▸ member),
    fun owner opens key member => ?_, fun owner opens key member => ?_, fun address entries opens => guarded.fair address entries opens.reach,
    hidden, fun owner other key key' address opens opens' member member' leads leads' => ?_⟩
  · obtain ⟨entries, _, entry, holds, there, rfl⟩ := mem_keys member
    exact guarded.solid owner entries entry opens.reach holds (List.mem_of_getElem? there)
  · exact guarded.sealed_.mono fun address leads => reachOf_step opens.reach (Cell.mem_contents.mpr (.inr member)) leads
  · obtain ⟨entries, index, entry, holds, there, rfl⟩ := mem_keys member
    have sealed_ {address other : Address} {slot : Nat} (leads : heap.Leads entry.key address) (reached : heap.reachOf roots other)
        (named : (heap.read other).contents[slot]? = some (.cell address)) : heap.Leads entry.key other ∨ other = owner ∧ slot = 2 * index :=
      guarded.sealed_ owner entries index entry address other slot opens.reach holds there leads reached named
    by_cases within : Region.Owns (heap.Leads entry.key) key'
    · -- the other key begins inside this one, so its map names a cell of this one at the slot of a key
      obtain ⟨address, rfl⟩ : ∃ address, key' = .cell address := by cases leads' <;> exact ⟨_, rfl⟩
      obtain ⟨entries', index', entry', holds', there', same⟩ := mem_keys member'
      have named := mem_keys_slot holds' there'
      rw [same] at named
      rcases sealed_ (Region.owns_cell.mp within) opens'.reach named with leads | ⟨rfl, slots⟩
      · exact absurd opens' (hidden owner opens entry.key member other leads)
      · rw [holds] at holds'
        cases holds'
        obtain rfl : index' = index := by omega
        rw [there] at there'
        cases there'
        exact ⟨rfl, same⟩
    · -- the way through the other key enters this one, which is possible from its map only
      obtain ⟨other', address, leads', outside, named, inside⟩ := leads'.entering leads within
      obtain ⟨slot, named⟩ := List.mem_iff_getElem?.mp named
      rcases sealed_ inside (reachOf_step opens'.reach (Cell.mem_contents.mpr (.inr member')) leads') named with leads | ⟨rfl, _⟩
      · exact absurd leads outside
      · exact absurd opens (hidden other opens' key' member' _ leads')

theorem Solid.inner (solid : heap.Solid value) (leads : heap.Leads value address) {part : Value} (member : part ∈ (heap.read address).contents) :
    heap.Solid part := by
  refine ⟨fun goal further => solid.allocated goal (leads.step member further), fun goal further => solid.sound goal (leads.step member further), ?_⟩
  obtain ⟨tree, shows⟩ := solid.shows
  obtain ⟨tree, shows, _⟩ := leads.weight shows
  obtain ⟨tree, shows, _⟩ := shows.part member
  exact ⟨tree, shows⟩

/-- A value that has a tree is not part of itself. -/
theorem Solid.not_inside (solid : heap.Solid value) {part : Value} (leads : heap.Leads value address) (member : part ∈ (heap.read address).contents)
    (further : heap.Leads part goal) : value ≠ .cell goal := by
  rintro rfl
  obtain ⟨tree, shows⟩ := solid.shows
  obtain ⟨outer, shows', light⟩ := leads.weight shows
  obtain ⟨inner, shows', light'⟩ := shows'.part member
  obtain ⟨again, shows', light''⟩ := further.weight shows'
  rw [shows.unique shows'] at light
  omega

/-- The shown cells and what their keys are made of. -/
def InUse (heap : Heap) (shown : Region) : Region := fun address =>
  shown address ∨ ∃ owner key, shown owner ∧ key ∈ (heap.read owner).keys ∧ heap.Leads key address

namespace Frozen

variable (frozen : heap.Frozen shown)
include frozen

theorem inUse_closed : heap.Closed (heap.InUse shown) := by
  constructor
  · rintro address (inside | ⟨owner, key, inside, member, leads⟩)
    · exact frozen.allocated address inside
    · exact (frozen.solid owner inside key member).allocated address leads
  · rintro address (inside | ⟨owner, key, inside, member, leads⟩) part among goal rfl
    · rcases Cell.mem_contents.mp among with open_ | key
      · exact .inl (frozen.parts address inside _ open_ goal rfl)
      · exact .inr ⟨address, _, inside, key, .here⟩
    · exact .inr ⟨owner, key, inside, member, leads.step among .here⟩

theorem inUse (owns : shown.OwnsAll roots) (reached : heap.reachOf roots address) : heap.InUse shown address := by
  obtain ⟨root, among, leads⟩ := reached
  exact leads.within frozen.inUse_closed fun goal same => .inl (owns root among goal same)

/-- A cell in use that names a cell of a key belongs to that key, or it is the map and names the key. -/
theorem owner_of_named {owner other : Address} (inside : shown owner) (member : key ∈ (heap.read owner).keys) (leads : heap.Leads key address)
    (used : heap.InUse shown other) (named : .cell address ∈ (heap.read other).contents) :
    heap.Leads key other ∨ other = owner ∧ key = .cell address := by
  rcases used with inside' | ⟨owner', key', inside', member', leads'⟩
  · rcases Cell.mem_contents.mp named with part | own
    · exact absurd (frozen.parts other inside' _ part address rfl) (frozen.hidden owner inside key member address leads)
    · obtain ⟨rfl, rfl⟩ := frozen.apart owner other key (.cell address) address inside inside' member own leads .here
      exact .inr ⟨rfl, rfl⟩
  · obtain ⟨rfl, rfl⟩ := frozen.apart owner owner' key key' address inside inside' member member' leads (leads'.step named .here)
    exact .inl leads'

/-- Keys are guarded in all that can be had from shown values. -/
theorem guarded (owns : shown.OwnsAll roots) : heap.Guarded roots := by
  have mem_keys_of {entries : List Entry} {entry : Entry} {map : Address} (holds : heap.read map = .map entries) (among : entry ∈ entries) :
      entry.key ∈ (heap.read map).keys := by
    rw [holds]
    exact List.mem_map_of_mem among
  refine ⟨fun address reached => frozen.inUse_closed.allocated address (frozen.inUse owns reached), ?_, ?_, ?_, ?_⟩
  · intro map entries index entry address other slot reached holds there leads reached' named
    have among := List.mem_of_getElem? there
    have inside := List.mem_of_getElem? named
    rcases frozen.inUse owns reached with shown_ | ⟨owner, key, shown_, member, leads'⟩
    · rcases frozen.owner_of_named shown_ (mem_keys_of holds among) leads (frozen.inUse owns reached') inside with further | ⟨rfl, same⟩
      · exact .inl further
      · -- the map names this cell once only: as a part it would be shown, and as another key it would be the same one
        refine .inr ⟨rfl, ?_⟩
        rcases Cell.named_slot named with ⟨part, _⟩ | ⟨entries', index', entry', holds', slots, there', same'⟩
        · exact absurd (frozen.parts _ shown_ _ part address rfl) (frozen.hidden _ shown_ _ (mem_keys_of holds among) address leads)
        · rw [holds] at holds'
          cases holds'
          have fair := frozen.fair _ entries shown_ holds
          obtain ⟨tree, shows, _⟩ := fair.shows entry among
          have alike := shows.alike
          rw [slots, fair.unique there there' alike (by rw [same', ← same]; exact alike)]
    · have solid := frozen.solid owner shown_ key member
      have within : entry.key ∈ (heap.read map).contents := Cell.mem_contents.mpr (.inr (mem_keys_of holds among))
      rcases frozen.owner_of_named shown_ member (leads'.step within leads) (frozen.inUse owns reached') inside with further | ⟨rfl, same⟩
      · exact frozen.sealed_ owner shown_ key member map entries index entry address other slot leads' holds there leads further named
      · exact absurd same (solid.not_inside leads' within leads)
  · intro map entries entry address reached holds among root leads
    have open_ := owns _ root address rfl
    rcases frozen.inUse owns reached with shown_ | ⟨owner, key, shown_, member, leads'⟩
    · exact frozen.hidden map shown_ _ (mem_keys_of holds among) address leads open_
    · exact frozen.hidden owner shown_ key member address (leads'.step (Cell.mem_contents.mpr (.inr (mem_keys_of holds among))) leads) open_
  · intro map entries entry reached holds among
    rcases frozen.inUse owns reached with shown_ | ⟨owner, key, shown_, member, leads'⟩
    · exact frozen.solid map shown_ _ (mem_keys_of holds among)
    · exact (frozen.solid owner shown_ key member).inner leads' (Cell.mem_contents.mpr (.inr (mem_keys_of holds among)))
  · intro map entries reached holds
    rcases frozen.inUse owns reached with shown_ | ⟨owner, key, shown_, member, leads'⟩
    · exact frozen.fair map entries shown_ holds
    · exact (frozen.solid owner shown_ key member).sound map leads' entries holds

end Frozen

end Heap

end Reentry

/-!
What keeps keys frozen. Shown cells may be overwritten with shown values, entries may be taken out of a map, a new value
may become shown, and an entry may be added whose key has just been built. Cells that are not shown stay as they are, and
the keys of a map keep their order: keys are only taken away, and added at the end.
-/

namespace Reentry

/-- A key is taken away, wherever it stands, or one is added at the end. -/
inductive KeyStep : List Value → List Value → Prop
  | erase (keys : List Value) (index : Nat) : KeyStep keys (keys.eraseIdx index)
  | add (keys : List Value) (key : Value) : KeyStep keys (keys ++ [key])

/-- A container of the same kind, with keys taken away and added at the end, one by one. -/
structure Cell.Rekeyed (cell other : Cell) : Prop where
  kind : other.kind? = cell.kind?
  keys : Relation.ReflTransGen KeyStep cell.keys other.keys

theorem Cell.Rekeyed.refl (cell : Cell) : cell.Rekeyed cell := ⟨rfl, .refl⟩

theorem Cell.Rekeyed.trans {first second third : Cell} (left : first.Rekeyed second) (right : second.Rekeyed third) : first.Rekeyed third :=
  ⟨right.kind.trans left.kind, left.keys.trans right.keys⟩

namespace Heap

variable {heap before between after : Heap} {key value : Value} {goal address : Address} {roots : List Value} {shown more most : Region}

/-- What may become of the shown cells, and which cells are shown then. -/
structure Turns (before : Heap) (shown : Region) (after : Heap) (more : Region) : Prop where
  size : before.size ≤ after.size
  elsewhere : ∀ address, address.index < before.size → ¬shown address → after.read address = before.read address
  inside : shown.Inside more
  fresh : ∀ address, more address → shown address ∨ before.size ≤ address.index
  keys : ∀ address, shown address → (before.read address).Rekeyed (after.read address)

namespace Turns

theorem refl (heap : Heap) (shown : Region) : heap.Turns shown heap shown :=
  ⟨Nat.le_refl _, fun _ _ _ => rfl, .refl _, fun _ => .inl, fun _ _ => .refl _⟩

theorem trans (first : before.Turns shown between more) (second : between.Turns more after most) : before.Turns shown after most := by
  refine ⟨Nat.le_trans first.size second.size, fun address old outside => ?_, first.inside.trans second.inside, fun address inside => ?_,
    fun address inside => (first.keys address inside).trans (second.keys address (first.inside address inside))⟩
  · have still : ¬more address := fun inside => (first.fresh address inside).elim outside fun new => by omega
    rw [second.elsewhere address (Nat.lt_of_lt_of_le old first.size) still, first.elsewhere address old outside]
  · rcases second.fresh address inside with earlier | new
    · exact first.fresh address earlier
    · exact .inr (Nat.le_trans first.size new)

end Turns

theorem Sealed.same (sealed_ : heap.Sealed (heap.Leads value)) (same : ∀ address, heap.Leads value address → after.read address = heap.read address) :
    after.Sealed (after.Leads value) := by
  intro map entries index entry address owner slot reached holds there leads reached' named
  have reached := reached.before same
  have reached' := reached'.before same
  rw [same map reached] at holds
  rw [same owner reached'] at named
  have inside (goal : Address) (leads : heap.Leads entry.key goal) : after.read goal = heap.read goal :=
    same goal (reached.step (List.mem_of_getElem? (mem_keys_slot holds there)) leads)
  exact (sealed_ map entries index entry address owner slot reached holds there (leads.before inside) reached' named).imp_left
    fun leads => leads.same inside

/-- A key made of new cells that are not shown. -/
structure NewKey (before after : Heap) (more : Region) (key : Value) : Prop where
  solid : after.Solid key
  sealed_ : after.Sealed (after.Leads key)
  new : ∀ address, after.Leads key address → before.size ≤ address.index ∧ ¬more address

namespace Frozen

variable (frozen : before.Frozen shown) (turns : before.Turns shown after more)
include frozen turns

/-- Nothing has changed in keys. -/
theorem unchanged {owner : Address} (inside : shown owner) (member : key ∈ (before.read owner).keys) (address : Address) (leads : before.Leads key address) :
    after.read address = before.read address :=
  turns.elsewhere address ((frozen.solid owner inside key member).allocated address leads) (frozen.hidden owner inside key member address leads)

/-- Keys stay frozen if all that is added to maps are keys made of new cells. -/
theorem turn (allocated : ∀ address, more address → address.index < after.size) (parts : ∀ address, more address → more.OwnsAll (after.read address).parts)
    (keys : ∀ owner, more owner → ∀ key ∈ (after.read owner).keys, (shown owner ∧ key ∈ (before.read owner).keys) ∨ NewKey before after more key)
    (fair : ∀ address entries, more address → after.read address = .map entries → after.Fair entries)
    (apart : ∀ owner other key key' address, more owner → more other → key ∈ (after.read owner).keys → key' ∈ (after.read other).keys →
      NewKey before after more key → NewKey before after more key' → after.Leads key address → after.Leads key' address → owner = other ∧ key = key') :
    after.Frozen more := by
  have old {owner address : Address} {key : Value} (inside : shown owner) (member : key ∈ (before.read owner).keys) (leads : after.Leads key address) : before.Leads key address :=
    leads.before (frozen.unchanged turns inside member)
  have early {owner address : Address} {key : Value} (inside : shown owner) (member : key ∈ (before.read owner).keys) (leads : after.Leads key address) :
      address.index < before.size := (frozen.solid owner inside key member).allocated address (old inside member leads)
  refine ⟨allocated, parts, fun owner inside key member => ?_, fun owner inside key member => ?_, fair, fun owner inside key member address leads => ?_,
    fun owner other key key' address inside inside' member member' leads leads' => ?_⟩
  · rcases keys owner inside key member with ⟨inside, member⟩ | new
    · exact (frozen.solid owner inside key member).same turns.size (frozen.unchanged turns inside member)
    · exact new.solid
  · rcases keys owner inside key member with ⟨inside, member⟩ | new
    · exact (frozen.sealed_ owner inside key member).same (frozen.unchanged turns inside member)
    · exact new.sealed_
  · rcases keys owner inside key member with ⟨inside, member⟩ | new
    · intro shown_
      rcases turns.fresh address shown_ with shown_ | late
      · exact frozen.hidden owner inside key member address (old inside member leads) shown_
      · exact absurd (early inside member leads) (Nat.not_lt.mpr late)
    · exact (new.new address leads).2
  · rcases keys owner inside key member with ⟨earlier, there⟩ | new <;> rcases keys other inside' key' member' with ⟨earlier', there'⟩ | new'
    · exact frozen.apart owner other key key' address earlier earlier' there there' (old earlier there leads) (old earlier' there' leads')
    · exact absurd (early earlier there leads) (Nat.not_lt.mpr (new'.new address leads').1)
    · exact absurd (early earlier' there' leads') (Nat.not_lt.mpr (new.new address leads).1)
    · exact apart owner other key key' address inside inside' member member' new new' leads leads'

/-- Entries whose keys have not changed stay fair. -/
theorem fair_same {owner : Address} {entries : List Entry} (inside : shown owner) (holds : before.read owner = .map entries) : after.Fair entries := by
  refine (frozen.fair owner entries inside holds).same fun entry among => frozen.unchanged turns inside ?_
  rw [holds]
  exact List.mem_map_of_mem among

omit turns

/-- Old keys are made of old cells, so what is new is no old key. -/
theorem not_new (same : ∀ address, before.Leads key address → after.read address = before.read address)
    {owner : Address} (inside : shown owner) (member : key ∈ (before.read owner).keys) (new : NewKey before after more key) :
    ¬after.Leads key address := fun leads =>
  Nat.not_lt.mpr (new.new address leads).1 ((frozen.solid owner inside key member).allocated address (leads.before same))

/-- New values may become shown as far as they are open. -/
theorem join (grows : before.Extends after) (guarded : after.Guarded roots) (new : ∀ address, after.reachOf roots address → before.size ≤ address.index) :
    before.Turns shown after (shown.union (after.Opens roots)) ∧ after.Frozen (shown.union (after.Opens roots)) := by
  have other := guarded.frozen
  have same (address : Address) (inside : shown address) : after.read address = before.read address := grows.same address (frozen.allocated address inside)
  have turns : before.Turns shown after (shown.union (after.Opens roots)) := by
    refine ⟨grows.size, fun address old _ => grows.same address old, Region.inside_union_left _ _, fun address => ?_, fun address inside => ?_⟩
    · exact Or.imp_right fun opens => new address opens.reach
    · rw [same address inside]
      exact .refl _
  refine ⟨turns, frozen.turn turns ?_ ?_ ?_ ?_ ?_⟩
  · rintro address (inside | opens)
    · exact Nat.lt_of_lt_of_le (frozen.allocated address inside) grows.size
    · exact other.allocated address opens
  · rintro address (inside | opens)
    · rw [same address inside]
      exact (frozen.parts address inside).mono (Region.inside_union_left _ _)
    · exact (other.parts address opens).mono (Region.inside_union_right _ _)
  · rintro owner (inside | opens) key member
    · exact .inl ⟨inside, same owner inside ▸ member⟩
    · refine .inr ⟨other.solid owner opens key member, other.sealed_ owner opens key member, fun address leads => ?_⟩
      have late := new address (reachOf_step opens.reach (Cell.mem_contents.mpr (.inr member)) leads)
      refine ⟨late, ?_⟩
      rintro (inside | opens')
      · exact absurd (frozen.allocated address inside) (Nat.not_lt.mpr late)
      · exact other.hidden owner opens key member address leads opens'
  · rintro address entries (inside | opens) holds
    · exact frozen.fair_same turns inside (same address inside ▸ holds)
    · exact other.fair address entries opens holds
  · have old {owner address : Address} {key : Value} (inside : shown owner) (member : key ∈ (after.read owner).keys)
        (added : NewKey before after (shown.union (after.Opens roots)) key) : ¬after.Leads key address := by
      rw [same owner inside] at member
      exact frozen.not_new (frozen.unchanged turns inside member) inside member added
    rintro owner other' key key' address (inside | opens) (inside' | opens') member member' added added' leads leads'
    · exact absurd leads (old inside member added)
    · exact absurd leads (old inside member added)
    · exact absurd leads' (old inside' member' added')
    · exact other.apart owner other' key key' address opens opens' member member' leads leads'

/-- A shown cell may be overwritten with shown parts. If it is a map, it may get a key besides that is made of cells that
have just been added. -/
theorem write (grows : before.Extends between) {map : Address} (inside : shown map) {cell : Cell} (parts : shown.OwnsAll cell.parts) (added : Value)
    (keys : ∀ key ∈ cell.keys, key ∈ (before.read map).keys ∨ key = added ∧ NewKey before between shown added)
    (fair : ∀ entries, cell = .map entries → between.Fair entries) (order : (before.read map).Rekeyed cell) :
    before.Turns shown (between.write map cell) shown ∧ (between.write map cell).Frozen shown := by
  have size : before.size ≤ (between.write map cell).size := by
    rw [size_write]
    exact grows.size
  have written : (between.write map cell).read map = cell :=
    read_write_self (Nat.lt_of_lt_of_le (frozen.allocated map inside) grows.size) cell
  have others {address : Address} (different : address ≠ map) : (between.write map cell).read address = between.read address :=
    read_write_of_ne between different cell
  have same {address : Address} (shown_ : shown address) (different : address ≠ map) : (between.write map cell).read address = before.read address := by
    rw [others different, grows.same address (frozen.allocated address shown_)]
  have turns : before.Turns shown (between.write map cell) shown := by
    refine ⟨size, fun address old outside => ?_, .refl _, fun _ => .inl, fun address shown_ => ?_⟩
    · have different : address ≠ map := fun own => outside (own ▸ inside)
      rw [others different, grows.same address old]
    · by_cases own : address = map
      · subst own
        rwa [written]
      · rw [same shown_ own]
        exact .refl _
  -- writing to a shown cell changes nothing in the key that is added
  have apart (new : NewKey before between shown added) (address : Address) (leads : between.Leads added address) :
      (between.write map cell).read address = between.read address := others fun own => (new.new address leads).2 (own ▸ inside)
  have still (new : NewKey before between shown added) : NewKey before (between.write map cell) shown added :=
    ⟨new.solid.same (Nat.le_of_eq (size_write between map cell).symm) (apart new), new.sealed_.same (apart new),
      fun address leads => new.new address (leads.before (apart new))⟩
  have old {owner address : Address} {key : Value} (shown_ : shown owner) (member : key ∈ (before.read owner).keys)
      (new : NewKey before (between.write map cell) shown key) : ¬(between.write map cell).Leads key address :=
    frozen.not_new (frozen.unchanged turns shown_ member) shown_ member new
  have only {owner address : Address} {key : Value} (shown_ : shown owner) (member : key ∈ ((between.write map cell).read owner).keys)
      (new : NewKey before (between.write map cell) shown key) (leads : (between.write map cell).Leads key address) : owner = map ∧ key = added := by
    by_cases own : owner = map
    · subst own
      rw [written] at member
      rcases keys key member with earlier | ⟨rfl, _⟩
      · exact absurd leads (old shown_ earlier new)
      · exact ⟨rfl, rfl⟩
    · rw [same shown_ own] at member
      exact absurd leads (old shown_ member new)
  refine ⟨turns, frozen.turn turns (fun address shown_ => Nat.lt_of_lt_of_le (frozen.allocated address shown_) size) (fun address shown_ => ?_)
    (fun owner shown_ key member => ?_) (fun address entries shown_ holds => ?_) ?_⟩
  · by_cases own : address = map
    · subst own
      rwa [written]
    · rw [same shown_ own]
      exact frozen.parts address shown_
  · by_cases own : owner = map
    · subst own
      rw [written] at member
      rcases keys key member with earlier | ⟨rfl, new⟩
      · exact .inl ⟨inside, earlier⟩
      · exact .inr (still new)
    · rw [same shown_ own] at member
      exact .inl ⟨shown_, member⟩
  · by_cases own : address = map
    · subst own
      rw [written] at holds
      refine (fair entries holds).same fun entry among address leads => ?_
      rcases keys entry.key (by rw [holds]; exact List.mem_map_of_mem among) with earlier | ⟨equal, new⟩
      · have unchanged (address : Address) (leads : before.Leads entry.key address) : between.read address = before.read address :=
          grows.same address ((frozen.solid _ inside _ earlier).allocated address leads)
        exact others fun own => frozen.hidden _ inside _ earlier address (leads.before unchanged) (own ▸ inside)
      · exact apart new address (equal ▸ leads)
    · rw [same shown_ own] at holds
      exact frozen.fair_same turns shown_ holds
  · intro owner other key key' address shown_ shown_' member member' new new' leads leads'
    obtain ⟨rfl, rfl⟩ := only shown_ member new leads
    obtain ⟨rfl, rfl⟩ := only shown_' member' new' leads'
    exact ⟨rfl, rfl⟩

end Frozen

end Heap

end Reentry
