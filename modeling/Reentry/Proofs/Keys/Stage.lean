import Reentry.Proofs.Keys.Operation
import Reentry.Proofs.Stewardship.Stage

/-!
What operations find in a map whose keys are distinct and have not changed. A key that is equal to one of them is found at
its entry and nowhere else, whatever the operation; overwriting leaves the entry in its place. A key that is equal to none
comes last when it is inserted; and the keys are listed in the order of the entries.
-/

namespace Reentry

open scoped Classical

namespace Heap

variable {heap after : Heap} {roots : List Value} {map : Address} {entries : List Entry} {entry : Entry} {index : Nat} {key value : Value} {tree : Tree}

/-- All operations on the map take the key for that of this entry. -/
structure Finds (heap : Heap) (map : Address) (entries : List Entry) (key : Value) (index : Nat) (entry : Entry) : Prop where
  contains : ((Value.cell map).containsKey key).run heap = .ok (true, heap)
  lookup : ((Value.cell map).lookup key).run heap = .ok (entry.value, heap)
  replace : ∀ value, ∃ copied, heap.Fresh copied [] ∧ ((Value.cell map).replace key value).run heap
    = .ok (entry.value, copied.write map (.map (entries.modify index ({ · with value }))))
  insert : ∀ value, ((Value.cell map).insert key value).run heap = .error (.duplicateKey (key.text heap))
  remove : ((Value.cell map).remove key).run heap = .ok ((), heap.write map (.map (entries.eraseIdx index)))

/-- The key is missing, and an entry that is made for it, with a copy of it, comes last. -/
structure Lacks (heap : Heap) (map : Address) (entries : List Entry) (key : Value) : Prop where
  contains : ((Value.cell map).containsKey key).run heap = .ok (false, heap)
  lookup : ((Value.cell map).lookup key).run heap = .error (.keyNotFound (key.text heap))
  remove : ((Value.cell map).remove key).run heap = .error (.keyNotFound (key.text heap))
  copied : ∃ copied copy, heap.Extends copied ∧ copied.equal copy key = true ∧ ∀ value,
    let added := copied.write map (.map (entries ++ [⟨copy, heap.fingerprint key, value⟩]))
    ((Value.cell map).insert key value).run heap = .ok ((), added) ∧ ((Value.cell map).replace key value).run heap = .ok (.null, added)

/-- Copies of the keys are listed in the order of the entries. -/
def Lists (heap : Heap) (map : Address) (entries : List Entry) : Prop :=
  ∃ copied items, heap.Extends copied ∧ (Value.cell map).keys.run heap = .ok (.cell copied.next, copied.allocate (.seq items)) ∧
    List.Forall₂ (fun (entry : Entry) item => (copied.allocate (.seq items)).equal entry.key item = true) entries items

/-- What maps are for: an entry is found under every key that is equal to its own, and the entries keep their order. -/
structure Serves (heap : Heap) (values : List Value) (map : Address) (entries : List Entry) : Prop where
  found : ∀ index entry key, entries[index]? = some entry → (heap.reachOf values).Owns key → heap.equal key entry.key = true →
    heap.Finds map entries key index entry
  missing : ∀ key tree, (heap.reachOf values).Owns key → heap.Shows key tree → (∀ entry ∈ entries, heap.equal key entry.key = false) →
    heap.reaches key map = false → heap.Lacks map entries key
  listed : heap.Lists map entries

theorem checkKey_run (free : heap.reaches key map = false) : (key.checkKey map).run heap = pure ((), heap) := by
  simp only [Value.checkKey, StateT.run_bind, StateT.run_get, pure_bind, free]
  rfl

section

variable (holds : heap.read map = .map entries)
include holds

theorem Finds.of_selects (there : entries[index]? = some entry) (found : heap.entryIndex? key entries = some index)
    (free : heap.reaches key map = false)
    (bound : (key.deepCopy.run heap).2.boundIndex? (key.deepCopy.run heap).1 entries = some index) : heap.Finds map entries key index entry := by
  have selects : heap.Selects map .map key index := .entry holds found free bound
  have part : (heap.read map).parts[index]? = some entry.value := by
    rw [holds, Cell.parts, List.getElem?_map, there]
    rfl
  refine ⟨?_, selects.lookup part, fun value => ?_, fun value => ?_, ?_⟩
  · simp only [Value.containsKey, StateT.run_bind, StateT.run_get, pure_bind, Heap.cell?, holds, found]
    rfl
  · have replaced := selects.replace part value
    rw [holds] at replaced
    exact replaced
  · simp only [Value.insert, StateT.run_bind, StateT.run_get, pure_bind, Heap.cell?, holds, checkKey_run free, found]
    rfl
  · simp only [Value.remove, StateT.run_bind, StateT.run_get, pure_bind, Heap.cell?, holds, checkKey_run free, found]
    rfl

theorem Lacks.of_none (none : heap.entryIndex? key entries = none) (free : heap.reaches key map = false) (grows : heap.Extends (key.deepCopy.run heap).2)
    (equal : (key.deepCopy.run heap).2.equal (key.deepCopy.run heap).1 key = true)
    (looks : (key.deepCopy.run heap).2.fingerprint (key.deepCopy.run heap).1 = heap.fingerprint key)
    (unbound : (key.deepCopy.run heap).2.boundIndex? (key.deepCopy.run heap).1 entries = Option.none) : heap.Lacks map entries key := by
  have bound (value : Value) : (Value.bindCopy map key value entries).run heap = pure (.null,
      (key.deepCopy.run heap).2.write map (.map (entries ++ [⟨(key.deepCopy.run heap).1, heap.fingerprint key, value⟩]))) := by
    rw [bindCopy_run]
    simp only [Heap.bind, unbound, looks]
    rfl
  refine ⟨?_, ?_, ?_, _, _, grows, equal, fun value => ⟨?_, ?_⟩⟩
  · simp only [Value.containsKey, StateT.run_bind, StateT.run_get, pure_bind, Heap.cell?, holds, none]
    rfl
  · simp only [Value.lookup, StateT.run_bind, StateT.run_get, pure_bind, Heap.cell?, holds, none, Option.bind_none]
    rfl
  · simp only [Value.remove, StateT.run_bind, StateT.run_get, pure_bind, Heap.cell?, holds, checkKey_run free, none]
    rfl
  · simp only [Value.insert, StateT.run_bind, StateT.run_get, pure_bind, Heap.cell?, holds, checkKey_run free, none, bound value]
    rfl
  · simp only [Value.replace, StateT.run_bind, StateT.run_get, pure_bind, Heap.cell?, holds, checkKey_run free, bound value]
    rfl

end

/-- A solid value that looks like another one. -/
structure CopyOf (heap : Heap) (copy value : Value) : Prop where
  original : heap.Solid value
  solid : heap.Solid copy
  alike : heap.Alike value copy

theorem CopyOf.extends {copy : Value} (copied : heap.CopyOf copy value) (grows : heap.Extends after) : after.CopyOf copy value := by
  obtain ⟨tree, other, shows, shows', same⟩ := copied.alike
  exact ⟨copied.original.extends grows, copied.solid.extends grows, tree, other,
    shows.same fun address leads => grows.same address (copied.original.allocated address leads),
    shows'.same fun address leads => grows.same address (copied.solid.allocated address leads), same⟩

theorem Solid.copied (solid : heap.Solid value) : Alloc.Puts heap value.deepCopy fun after copy => after.CopyOf copy value := by
  obtain ⟨tree, shows⟩ := solid.shows
  refine (solid.sound.copied shows).weaken fun after copy grows copied => ⟨solid.extends grows, copied.1, tree, tree, ?_, copied.2, tree.same_refl⟩
  exact shows.same fun address leads => grows.same address (solid.allocated address leads)

/-- Whatever can be had from values with guarded keys is sound. -/
theorem Guarded.sound (guarded : heap.Guarded roots) (owns : (heap.reachOf roots).Owns value) : heap.Sound value := by
  intro address leads entries holds
  refine guarded.fair address entries (leads.within (closed_reachOf guarded.allocated) owns) holds

variable (guarded : heap.Guarded roots) (reached : heap.reachOf roots map) (holds : heap.read map = .map entries)
include guarded reached holds

omit guarded in
theorem owns_key (among : entry ∈ entries) : (heap.reachOf roots).Owns entry.key := by
  rintro address same
  have member : entry.key ∈ (heap.read map).contents := by
    rw [holds]
    exact List.mem_flatMap.mpr ⟨entry, among, .head _⟩
  rw [same] at member
  exact reachOf_step reached member .here

theorem Guarded.sounds : heap.SoundKeys entries := fun _ among => guarded.sound (owns_key reached holds among)

/-- Copying a value changes nothing about the entries. -/
theorem Guarded.copied (grows : heap.Extends after) : after.SoundKeys entries ∧ after.Fair entries ∧
    ∀ entry ∈ entries, ∀ tree, heap.Shows entry.key tree → after.Shows entry.key tree := by
  have same (entry : Entry) (among : entry ∈ entries) (address : Address) (leads : heap.Leads entry.key address) :
      after.read address = heap.read address :=
    grows.same address ((guarded.solid map entries entry reached holds among).allocated address leads)
  exact ⟨fun entry among => (guarded.sounds reached holds entry among).same (same entry among),
    (guarded.fair map entries reached holds).same same, fun entry among _ shows => shows.same (same entry among)⟩

theorem Guarded.finds (there : entries[index]? = some entry) (owns : (heap.reachOf roots).Owns key) (equal : heap.equal key entry.key = true) :
    heap.Finds map entries key index entry := by
  have among := List.mem_of_getElem? there
  have fair := guarded.fair map entries reached holds
  have sound := guarded.sound owns
  have sounds := guarded.sounds reached holds
  obtain ⟨other, shows', _⟩ := fair.shows entry among
  have alike := (equal_iff_alike sound (sounds entry among) shows').mp equal
  obtain ⟨tree, _, shows, _⟩ := id alike
  obtain ⟨grows, solid, copy_shows⟩ := sound.copied shows
  obtain ⟨sounds', fair', still⟩ := guarded.copied reached holds grows
  refine .of_selects holds there ?_ (alike.not_reaches (Cell.mem_contents.mpr (.inr ?_))) ?_
  · rw [entryIndex?_eq sound shows sounds fair, fair.findIdx?_eq there alike]
  · rw [holds]
    exact List.mem_map_of_mem among
  · rw [boundIndex?_eq solid.sound copy_shows sounds' fair', fair'.findIdx?_eq there]
    exact (copy_shows.alike_iff (still entry among other shows')).mpr ((shows.alike_iff shows').mp alike)

theorem Guarded.misses (owns : (heap.reachOf roots).Owns key) (shows : heap.Shows key tree) (unequal : ∀ entry ∈ entries, heap.equal key entry.key = false)
    (free : heap.reaches key map = false) : heap.Lacks map entries key := by
  have fair := guarded.fair map entries reached holds
  have sound := guarded.sound owns
  have sounds := guarded.sounds reached holds
  have apart (entry : Entry) (among : entry ∈ entries) : ¬heap.Alike key entry.key := fun alike => by
    obtain ⟨_, shows', _⟩ := fair.shows entry among
    have equal := (equal_iff_alike sound (sounds entry among) shows').mpr alike
    rw [unequal entry among] at equal
    cases equal
  obtain ⟨grows, solid, copy_shows⟩ := sound.copied shows
  obtain ⟨sounds', fair', still⟩ := guarded.copied reached holds grows
  have same (address : Address) (leads : heap.Leads key address) : (key.deepCopy.run heap).2.read address = heap.read address :=
    grows.same address (guarded.allocated address (reachOf_of_owns owns leads))
  refine .of_none holds ?_ free grows ?_ ?_ ?_
  · rw [entryIndex?_eq sound shows sounds fair]
    exact List.findIdx?_eq_none_iff.mpr fun entry among => decide_eq_false (apart entry among)
  · exact (equal_iff_alike solid.sound (sound.same same) (shows.same same)).mpr ⟨tree, tree, copy_shows, shows.same same, tree.same_refl⟩
  · rw [copy_shows.fingerprint, shows.fingerprint]
  · rw [boundIndex?_eq solid.sound copy_shows sounds' fair']
    refine List.findIdx?_eq_none_iff.mpr fun entry among => decide_eq_false fun alike => ?_
    obtain ⟨_, shows', _⟩ := fair.shows entry among
    exact apart entry among ((shows.alike_iff shows').mpr ((copy_shows.alike_iff (still entry among _ shows')).mp alike))

theorem Guarded.lists : heap.Lists map entries := by
  have solid (entry : Entry) (among : entry ∈ entries) : heap.Solid entry.key := guarded.solid map entries entry reached holds among
  obtain ⟨grows, copies⟩ : Alloc.Puts heap (entries.mapM fun entry => entry.key.deepCopy) fun after =>
      List.Forall₂ (fun entry copy => after.CopyOf copy entry.key) entries :=
    @Alloc.Puts.mapM _ _ _ (fun heap entry => heap.Solid entry.key) (fun heap entry copy => heap.CopyOf copy entry.key) entries
      Solid.extends CopyOf.extends (fun _ _ solid => solid.copied) heap solid
  refine ⟨_, _, grows, ?_, copies.imp fun entry copy made => ?_⟩
  · simp only [Value.keys, StateT.run_bind, StateT.run_get, pure_bind, Heap.cell?, holds]
    rfl
  · obtain ⟨original, copied, alike⟩ := made.extends (.allocate _ _)
    obtain ⟨_, _, _, shows, _⟩ := id alike
    exact (equal_iff_alike original.sound copied.sound shows).mpr alike

/-- Maps with guarded keys do what maps are for. -/
theorem Guarded.serves : heap.Serves roots map entries :=
  ⟨fun _ _ _ there => guarded.finds reached holds there, fun _ _ => guarded.misses reached holds, guarded.lists reached holds⟩

end Heap

end Reentry

/-!
Map keys are frozen. In maps that start out with distinct keys of their own, nothing that is done with values and actors
ever changes a key, makes two keys equal, or lets anybody get hold of a key in use. So an entry is found under its key for
as long as it is there.
-/

namespace Reentry

namespace Heap

variable {heap : Heap} {values : List Value} {value : Value} {tree : Tree} {entries : List Entry}

/-- In all maps that the values lead to, the cells of a key are reached only through that key, no two keys are equal, and
each key has a tree and the fingerprint with which it was entered. The values lead to no cells that do not exist yet. -/
structure KeysFrozen (heap : Heap) (values : List Value) : Prop where
  allocated : ∀ address, heap.reachOf values address → address.index < heap.size
  hidden : ∀ map entries index entry address, heap.reachOf values map → heap.read map = .map entries → entries[index]? = some entry →
    heap.Leads entry.key address → heap.OnlyThrough values map (2 * index) address
  distinct : ∀ map entries, heap.reachOf values map → heap.read map = .map entries →
    entries.Pairwise fun first second => heap.equal first.key second.key = false
  kept : ∀ map entries entry, heap.reachOf values map → heap.read map = .map entries → entry ∈ entries →
    (∃ tree, heap.Shows entry.key tree) ∧ entry.imprint = heap.fingerprint entry.key

namespace KeysFrozen

variable (frozen : heap.KeysFrozen values)
include frozen

theorem fair {map : Address} (reached : heap.reachOf values map) (holds : heap.read map = .map entries) (sounds : heap.SoundKeys entries) :
    heap.Fair entries := by
  refine ⟨fun entry among => ?_, (frozen.distinct map entries reached holds).imp_of_mem fun {first second} among among' unequal alike => ?_⟩
  · obtain ⟨⟨tree, shows⟩, imprint⟩ := frozen.kept map entries entry reached holds among
    exact ⟨tree, shows, imprint.trans shows.fingerprint⟩
  · obtain ⟨⟨_, shows⟩, _⟩ := frozen.kept map entries second reached holds among'
    have equal := (equal_iff_alike (sounds first among) (sounds second among') shows).mpr alike
    rw [unequal] at equal
    cases equal

/-- By induction on the tree: the keys in a value are smaller than the value, so that they can be compared. -/
theorem sound (owns : (heap.reachOf values).Owns value) (shows : heap.Shows value tree) : heap.Sound value := by
  obtain ⟨bound, light⟩ : ∃ bound, tree.weight ≤ bound := ⟨_, Nat.le_refl _⟩
  induction bound generalizing value tree with
  | zero => exact absurd tree.weight_pos (Nat.not_lt.mpr light)
  | succ bound ih =>
      cases value with
      | cell address =>
          have reached := Region.owns_cell.mp owns
          have parts (part : Value) (member : part ∈ (heap.read address).contents) : heap.Sound part := by
            obtain ⟨_, shows, lighter⟩ := shows.part member
            exact ih (fun _ same => reachOf_step reached member (same ▸ .here)) shows (by omega)
          refine .cell parts fun entries holds => frozen.fair reached holds fun entry among => parts entry.key ?_
          rw [holds]
          exact List.mem_flatMap.mpr ⟨entry, among, .head _⟩
      | _ => exact .scalar (by simp)

theorem sounds {map : Address} (reached : heap.reachOf values map) (holds : heap.read map = .map entries) : heap.SoundKeys entries := by
  intro entry among
  obtain ⟨⟨_, shows⟩, _⟩ := frozen.kept map entries entry reached holds among
  exact frozen.sound (owns_key reached holds among) shows

theorem guarded : heap.Guarded values where
  allocated := frozen.allocated
  sealed_ := sealed_of_onlyThrough frozen.hidden
  free map entries entry address reached holds among root leads := by
    obtain ⟨index, there⟩ := List.mem_iff_getElem?.mp among
    exact (frozen.hidden map entries index entry address reached holds there leads).not_root root
  solid map entries entry reached holds among := by
    have owns := owns_key reached holds among
    obtain ⟨shows, _⟩ := frozen.kept map entries entry reached holds among
    exact ⟨fun address leads => frozen.allocated address (reachOf_of_owns owns leads),
      frozen.sounds reached holds entry among, shows⟩
  fair map entries reached holds := frozen.fair reached holds (frozen.sounds reached holds)

end KeysFrozen

/-- Where there is nothing, no keys can change. -/
theorem KeysFrozen.empty {heap : Heap} : heap.KeysFrozen [] := by
  have nothing (address : Address) : ¬heap.reachOf [] address := fun reached => by simp [reachOf] at reached
  exact ⟨fun _ reached => absurd reached (nothing _), fun _ _ _ _ _ reached => absurd reached (nothing _),
    fun _ _ reached => absurd reached (nothing _), fun _ _ _ reached => absurd reached (nothing _)⟩

theorem Guarded.keysFrozen (guarded : heap.Guarded values) : heap.KeysFrozen values where
  allocated := guarded.allocated
  hidden map entries index entry address reached holds there leads := guarded.sealed_.onlyThrough reached holds there
    (fun _ => guarded.free map entries entry _ reached holds (List.mem_of_getElem? there)) leads
  distinct map entries reached holds := by
    have fair := guarded.fair map entries reached holds
    refine fair.apart.imp_of_mem fun {first second} among among' apart => ?_
    obtain ⟨_, shows, _⟩ := fair.shows second among'
    have sounds := guarded.sounds reached holds
    exact Bool.eq_false_iff.mpr fun equal => apart ((equal_iff_alike (sounds first among) (sounds second among') shows).mp equal)
  kept map entries entry reached holds among := by
    obtain ⟨tree, shows, imprint⟩ := (guarded.fair map entries reached holds).shows entry among
    exact ⟨⟨tree, shows⟩, imprint.trans shows.fingerprint.symm⟩

end Heap

namespace Stage

open Heap

variable {start now later : Stage}

/-- From one moment to a later one nothing has changed in any key, and of each map keys have only been taken away, or added
at the end. -/
structure KeepsKeys (now later : Stage) : Prop where
  contents : ∀ map entries entry address, now.heap.reachOf now.values map → now.heap.read map = .map entries → entry ∈ entries →
    now.heap.Leads entry.key address → later.heap.read address = now.heap.read address
  order : ∀ map entries, now.heap.reachOf now.values map → now.heap.read map = .map entries →
    ∃ entries', later.heap.read map = .map entries' ∧ Relation.ReflTransGen KeyStep (entries.map (·.key)) (entries'.map (·.key))

theorem map_of_rekeyed {cell : Cell} {entries : List Entry} (rekeyed : (Cell.map entries).Rekeyed cell) :
    ∃ entries', cell = .map entries' ∧ Relation.ReflTransGen KeyStep (entries.map (·.key)) (entries'.map (·.key)) := by
  cases cell with
  | map entries' => exact ⟨entries', rfl, rekeyed.keys⟩
  | _ => cases rekeyed.kind

/-- Shown cells may have turned, but keys are not shown. -/
theorem keepsKeys {region more : Region} (under : now.Under frozenKeys region) (turns : now.heap.Turns region later.heap more) :
    now.KeepsKeys later := by
  have frozen : now.heap.Frozen region := under.holds
  have untouched {owner address : Address} {key : Value} (inside : region owner) (member : key ∈ (now.heap.read owner).keys)
      (leads : now.heap.Leads key address) : later.heap.read address = now.heap.read address := frozen.unchanged turns inside member address leads
  constructor
  · intro map entries entry address reached holds among leads
    have key : entry.key ∈ (now.heap.read map).keys := by
      rw [holds]
      exact List.mem_map_of_mem among
    rcases frozen.inUse under.owns reached with inside | ⟨owner, outer, inside, member, leads'⟩
    · exact untouched inside key leads
    · exact untouched inside member (leads'.step (Cell.mem_contents.mpr (.inr key)) leads)
  · intro map entries reached holds
    rcases frozen.inUse under.owns reached with inside | ⟨owner, outer, inside, member, leads'⟩
    · exact map_of_rekeyed (holds ▸ turns.keys map inside)
    · exact ⟨entries, (untouched inside member leads').trans holds, .refl⟩

/-- Everything in the stage can be had without looking into keys. -/
theorem under_opens (frozen : start.heap.KeysFrozen start.values) : start.Under frozenKeys (start.heap.Opens start.values) :=
  ⟨frozen.guarded.frozen, fun _ member _ same => .root (same ▸ member)⟩

theorem Under.guarded {region : Region} (under : now.Under frozenKeys region) : now.heap.Guarded now.values := Frozen.guarded under.holds under.owns

theorem Later.guarded (later : start.Later now) (frozen : start.heap.KeysFrozen start.values) : now.heap.Guarded now.values := by
  obtain ⟨_, _, under⟩ := later.obeys (under_opens frozen)
  exact under.guarded

/-- Map keys are frozen. Start with maps whose keys are distinct and reached in no other way, and do whatever can be done:
carry out operations on values, run code of whatever kind, look at it from instruction to instruction, and put values here
and there. Then at every moment the keys are distinct and reached in no other way, they have not changed since any moment
before, and the keys of a map are in the order in which they were added. Each entry is found under every key that is equal
to its own, by all operations; overwriting leaves it in its place, and a key that is new comes last. -/
theorem Later.map_keys_stay (first : start.Later now) (next : now.Later later) (frozen : start.heap.KeysFrozen start.values) :
    now.heap.KeysFrozen now.values ∧ now.KeepsKeys later ∧
      ∀ map entries, now.heap.reachOf now.values map → now.heap.read map = .map entries → now.heap.Serves now.values map entries := by
  obtain ⟨region, _, under⟩ := first.obeys (under_opens frozen)
  obtain ⟨more, turns, _⟩ := next.obeys under
  exact ⟨under.guarded.keysFrozen, keepsKeys under turns, fun map entries reached holds => under.guarded.serves reached holds⟩

end Stage

namespace Sample

/-- A map with one entry, and besides it a key that is equal to the key of the entry. -/
def stock : Stage where
  heap := ⟨#[.tuple [.int 1], .map [⟨.cell ⟨0⟩, [.tuple 1, .int 1], .int 5⟩], .tuple [.int 1]]⟩
  actors := []
  hand := [.cell ⟨2⟩, .cell ⟨1⟩]

/-- The same, with a new value under the key. -/
def restocked : Stage where
  heap := ⟨#[.tuple [.int 1], .map [⟨.cell ⟨0⟩, [.tuple 1, .int 1], .int 6⟩], .tuple [.int 1], .tuple [.int 1]]⟩
  actors := []
  hand := [.int 5, .cell ⟨2⟩, .cell ⟨1⟩]

end Sample

open Sample in
/-- The map is made and changed by operations. Its key stays, and the entry is still found under the other key. -/
theorem restocking_keeps_keys : stock.KeepsKeys restocked ∧
    restocked.heap.Finds ⟨1⟩ [⟨.cell ⟨0⟩, [.tuple 1, .int 1], .int 6⟩] (.cell ⟨2⟩) 0 ⟨.cell ⟨0⟩, [.tuple 1, .int 1], .int 6⟩ := by
  have stored : Stage.Later ⟨.empty, [], []⟩ ⟨⟨#[.tuple [.int 1], .map [⟨.cell ⟨0⟩, [.tuple 1, .int 1], .int 5⟩]]⟩, [], [.cell ⟨1⟩]⟩ :=
    .single (.operate (.build (.map [(.tuple [.int 1], .int 5)])) nofun rfl)
  have stocking : Stage.Later ⟨.empty, [], []⟩ stock := stored.tail (.operate (.build (.tuple [.int 1])) nofun rfl)
  have restocking : stock.Later restocked := by
    refine .single (.operate (.replace (.cell ⟨1⟩) (.cell ⟨2⟩) (.int 6)) (fun address member => ?_) rfl)
    simpa [Operation.operands, Stage.values, stock, or_comm] using member
  obtain ⟨_, keeps, _⟩ := Stage.Later.map_keys_stay stocking restocking .empty
  obtain ⟨_, _, serves⟩ := Stage.Later.map_keys_stay (stocking.trans restocking) .refl .empty
  have reached {value : Value} (member : value ∈ restocked.values) : (restocked.heap.reachOf restocked.values).Owns value :=
    fun _ same => ⟨value, member, same ▸ .here⟩
  have map : restocked.heap.reachOf restocked.values ⟨1⟩ := reached (by simp [Stage.values, restocked]) _ rfl
  exact ⟨keeps, (serves _ _ map rfl).found 0 _ _ rfl (reached (by simp [Stage.values, restocked])) (by decide)⟩

end Reentry
