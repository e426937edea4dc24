import Mathlib.Data.List.InsertIdx
import Reentry.Proofs.Custody.Plain
import Reentry.Proofs.Locations.Swap
import Reentry.Proofs.Ownership.Brought

/-!
Elements of one's own. What an insertion stores is made for it, unless the entry is a variable: so the container's slot is
the only way to it, and whatever becomes of the element is not seen elsewhere, nor the other way around.
-/

namespace Reentry

namespace Heap

variable {heap before middle after : Heap} {container address goal : Address} {slot : Nat} {value key : Value} {region made : Region}
  {entries : List Entry} {roots : List Value}

/-- A container has taken up a value at a slot. What else it holds, it held before or is new, and no other cell has changed. -/
structure TakesUp (before after : Heap) (container : Address) (slot : Nat) (value : Value) : Prop where
  size : before.size ≤ after.size
  elsewhere : ∀ address, address.index < before.size → address ≠ container → after.read address = before.read address
  stored : (after.read container).contents[slot]? = some value
  others : ∀ other part, other ≠ slot → (after.read container).contents[other]? = some part →
    part ∈ (before.read container).contents ∨ (Region.between before.size after.size).Owns part
  fresh : after.Closed (Region.between before.size after.size)

/-- A cell is overwritten with what it held, something new, and the value. -/
theorem TakesUp.write (fresh : before.Fresh middle []) (allocated : container.index < before.size) {cell : Cell}
    (stored : cell.contents[slot]? = some value) (others : ∀ other part, other ≠ slot → cell.contents[other]? = some part →
      part ∈ (before.read container).contents ∨ (Region.between before.size middle.size).Owns part) :
    before.TakesUp (middle.write container cell) container slot value := by
  have wrote : (middle.write container cell).read container = cell := read_write_self (Nat.lt_of_lt_of_le allocated fresh.size) cell
  have size : (middle.write container cell).size = middle.size := size_write middle container cell
  refine ⟨size ▸ fresh.size, fun address old different => ?_, ?_, ?_, ?_⟩
  · rw [read_write_of_ne middle different, fresh.same address old]
  · rw [wrote]
    exact stored
  · rw [wrote, size]
    exact others
  · rw [size]
    apply fresh.closed.kept (Nat.le_of_eq size.symm)
    intro address inside
    apply read_write_of_ne
    intro same
    rw [same] at inside
    exact absurd allocated (Nat.not_lt.mpr inside.1)

/-- Where a binding puts its value. -/
theorem bind_slot (heap : Heap) (key value : Value) (entries : List Entry) :
    ∃ slot : Nat, (Cell.map (heap.bind key value entries).1).contents[slot]? = some value ∧
      ∀ (other : Nat) (part : Value), other ≠ slot → (Cell.map (heap.bind key value entries).1).contents[other]? = some part →
        part ∈ (Cell.map entries).contents ∨ part = key := by
  have old (index : Nat) (entry : Entry) (there : entries[index]? = some entry) :
      entry.key ∈ (Cell.map entries).contents ∧ entry.value ∈ (Cell.map entries).contents :=
    ⟨List.mem_flatMap.mpr ⟨entry, List.mem_of_getElem? there, by simp⟩, List.mem_flatMap.mpr ⟨entry, List.mem_of_getElem? there, by simp⟩⟩
  unfold Heap.bind
  cases bound : heap.boundIndex? key entries with
  | none =>
      refine ⟨2 * entries.length + 1, ?_, fun other part different found => ?_⟩
      · have half : (2 * entries.length + 1) / 2 = entries.length := by omega
        simp [Cell.map_contents_getElem?, half]
      · rw [Cell.map_contents_getElem?] at found
        obtain ⟨entry, there, same⟩ := Option.map_eq_some_iff.mp found
        by_cases early : other / 2 < entries.length
        · rw [List.getElem?_append_left early] at there
          have among := old _ entry there
          split at same
          · exact .inl (same ▸ among.1)
          · exact .inl (same ▸ among.2)
        · rw [List.getElem?_append_right (Nat.le_of_not_lt early)] at there
          have bound := (List.getElem?_eq_some_iff.mp there).1
          simp only [List.length_singleton] at bound
          have even : other % 2 = 0 := by omega
          have last : other / 2 - entries.length = 0 := by omega
          rw [last] at there
          cases there
          rw [if_pos even] at same
          exact .inr same.symm
  | some index =>
      obtain ⟨inside, _⟩ := List.findIdx?_eq_some_iff_getElem.mp bound
      refine ⟨2 * index + 1, ?_, fun other part different found => ?_⟩
      · have half : (2 * index + 1) / 2 = index := by omega
        simp [Cell.map_contents_getElem?, half, inside]
      · rw [Cell.map_contents_getElem?] at found
        obtain ⟨entry, there, same⟩ := Option.map_eq_some_iff.mp found
        rw [List.getElem?_modify] at there
        obtain ⟨entry, present, rfl⟩ := Option.map_eq_some_iff.mp there
        have among := old _ entry present
        by_cases own : index = other / 2
        · have even : other % 2 = 0 := by omega
          rw [if_pos even] at same
          simp only [own, if_true] at same
          exact .inl (same ▸ among.1)
        · simp only [own, if_false] at same
          split at same
          · exact .inl (same ▸ among.1)
          · exact .inl (same ▸ among.2)

/-- Cells `made` are led to from a region at one slot only. -/
structure Entered (heap : Heap) (region made : Region) (container : Address) (slot : Nat) : Prop where
  closed : heap.Closed (region.union made)
  inner : heap.Closed made
  only : ∀ owner goal step, region owner → made goal → (heap.read owner).contents[step]? = some (.cell goal) → owner = container ∧ step = slot

/-- A container that takes up a value of its own is the only way to it. -/
theorem TakesUp.entered (takes : before.TakesUp after container slot value) (closed : before.Closed region) (inner : before.Closed made)
    (apart : region.Apart made) (inside : region container) (own : made.Owns value) :
    after.Entered (region.union (Region.between before.size after.size)) made container slot := by
  have outside : ¬made container := apart container inside
  have still (address : Address) (among : made address) : after.read address = before.read address := by
    apply takes.elsewhere address (inner.allocated address among)
    intro same
    exact outside (same ▸ among)
  have inner' : after.Closed made := inner.kept takes.size still
  have unmade {goal : Address} (among : made goal) : ¬(region goal ∨ Region.between before.size after.size goal) := by
    rintro (old | new)
    · exact apart goal old among
    · exact absurd (inner.allocated goal among) (Nat.not_lt.mpr new.1)
  have held (owner : Address) (step : Nat) (part : Value) (among : region owner) (there : (after.read owner).contents[step]? = some part) :
      (owner = container ∧ step = slot) ∨ (region.union (Region.between before.size after.size)).Owns part := by
    by_cases own : owner = container
    · subst own
      by_cases here : step = slot
      · exact .inl ⟨rfl, here⟩
      · rcases takes.others step part here there with old | new
        · exact .inr ((closed.contents owner among part old).mono (Region.inside_union_left _ _))
        · exact .inr (new.mono (Region.inside_union_right _ _))
    · rw [takes.elsewhere owner (closed.allocated owner among) own] at there
      exact .inr ((closed.contents owner among part (List.mem_of_getElem? there)).mono (Region.inside_union_left _ _))
  refine ⟨⟨?_, ?_⟩, inner', ?_⟩
  · rintro address ((old | new) | among)
    · exact Nat.lt_of_lt_of_le (closed.allocated address old) takes.size
    · exact new.2
    · exact inner'.allocated address among
  · rintro address ((old | new) | among) part member
    · obtain ⟨step, there⟩ := List.mem_iff_getElem?.mp member
      rcases held address step part old there with ⟨rfl, rfl⟩ | owns
      · rw [takes.stored] at there
        cases there
        exact own.mono (Region.inside_union_right _ _)
      · exact owns.mono (Region.inside_union_left _ _)
    · exact ((takes.fresh.contents address new part member).mono (Region.inside_union_right _ _)).mono (Region.inside_union_left _ _)
    · exact (inner'.contents address among part member).mono (Region.inside_union_right _ _)
  · rintro owner goal step (old | new) among there
    · rcases held owner step (.cell goal) old there with same | owns
      · exact same
      · exact absurd (Region.owns_cell.mp owns) (unmade among)
    · exact absurd (.inr (Region.owns_cell.mp (takes.fresh.contents owner new _ (List.mem_of_getElem? there)))) (unmade among)

namespace Entered

variable (entered : heap.Entered region made container slot) (owns : region.OwnsAll roots)
include entered

/-- What the region leads to is in it or has been made. -/
theorem around (own : region.Owns value) (leads : heap.Leads value address) : region address ∨ made address :=
  leads.within entered.closed (own.mono (Region.inside_union_left _ _))

/-- Whatever does not lead to the container leads to none of these cells. -/
theorem avoids (apart : region.Apart made) (own : region.Owns value) (away : ¬heap.Leads value container) (leads : heap.Leads value address) :
    ¬made address := by
  intro among
  have outside : ¬made.Owns value ∨ made.Owns value := (em _).symm
  rcases outside with outside | inside
  · obtain ⟨owner, goal, leads, unmade, named, within⟩ := leads.entering among outside
    obtain ⟨step, there⟩ := List.mem_iff_getElem?.mp named
    have here : region owner := (entered.around own leads).resolve_right unmade
    exact away ((entered.only owner goal step here within there).1 ▸ leads)
  · obtain ⟨first, rfl⟩ : ∃ first, value = .cell first := by cases leads <;> exact ⟨_, rfl⟩
    exact apart first (Region.owns_cell.mp own) (Region.owns_cell.mp inside)

include owns

/-- Every way to these cells goes through the slot. -/
theorem onlyThrough (apart : region.Apart made) (among : made goal) : heap.OnlyThrough roots container slot goal := by
  intro place
  induction place using List.reverseRecOn generalizing goal with
  | nil => exact nofun
  | append_singleton place step ih =>
      intro here
      by_cases somewhere : place = []
      · subst somewhere
        rw [List.nil_append, at?_singleton] at here
        exact absurd among (apart goal (Region.owns_cell.mp (owns _ (List.mem_of_getElem? here))))
      · rw [at?_concat somewhere] at here
        obtain ⟨parent, above, found⟩ := Option.bind_eq_some_iff.mp here
        obtain ⟨owner, rfl, named⟩ := part?_eq_some.mp found
        obtain ⟨root, member, leads⟩ := reachOf_iff.mpr ⟨place, above⟩
        rcases entered.around (owns root member) leads with outer | inner
        · obtain ⟨rfl, rfl⟩ := entered.only owner goal step outer among named
          exact ⟨place, [], rfl, above⟩
        · obtain ⟨own, rest, rfl, there⟩ := ih inner above
          exact ⟨own, rest ++ [step], by simp, there⟩

end Entered

end Heap

namespace Value

open Heap ValueOp

variable {heap : Heap} {container key value : Value}

theorem bindCopy_takesUp {address : Address} {entries : List Entry} (here : heap.read address = .map entries)
    (allocated : address.index < heap.size) :
    ValueOp.Gives heap (bindCopy address key value entries) fun after _ => ∃ slot, heap.TakesUp after address slot value := by
  intro result after ran
  rw [bindCopy_run] at ran
  cases ran
  obtain ⟨slot, stored, others⟩ := bind_slot (key.deepCopy.run heap).2 (key.deepCopy.run heap).1 value entries
  have fresh := (@Alloc.Makes.deepCopy heap [] key).fresh
  refine ⟨slot, .write (fresh.holding nofun) allocated stored fun other part different found => ?_⟩
  rw [here]
  rcases others other part different found with old | rfl
  · exact .inl old
  · exact .inr (fresh.owns _ (.head _))

/-- An insertion puts the value into the container. -/
theorem insert_takesUp : ValueOp.Gives heap (container.insert key value) fun after _ =>
    ∃ address slot, container = .cell address ∧ heap.TakesUp after address slot value := by
  refine .get ?_
  split
  next address items found =>
      obtain ⟨rfl, here⟩ := contents_of_cell? found
      refine .bind (.seqIndex key _ true) fun index _ ⟨same, inside⟩ => ?_
      rw [same]
      simp only [if_true, Nat.lt_succ_iff] at inside
      refine .write ⟨address, index, rfl, .write (.refl heap) (allocated_of_read here nofun) ?_ fun other part different there => ?_⟩
      · exact List.getElem?_insertIdx_self.trans (if_pos inside)
      · have there : (items.insertIdx index value)[other]? = some part := there
        rw [List.getElem?_insertIdx, if_neg different] at there
        rw [here]
        split at there <;> exact .inl (List.mem_of_getElem? there)
  next address entries found =>
      obtain ⟨rfl, here⟩ := contents_of_cell? found
      refine .bind (.checkKey key address) fun _ _ same => ?_
      subst same
      refine .get ?_
      split
      · exact .get (.throw _)
      · exact .bind (bindCopy_takesUp here (allocated_of_read here nofun)) fun _ _ ⟨slot, takes⟩ => .pure ⟨address, slot, rfl, takes⟩
  next => exact .mismatch _ _ _

end Value

namespace Stage

/-- Whatever is done on either side, in whatever turns, the two sides share no cell, and neither is touched by what is done
on the other. -/
def Isolated (one other : Stage) : Prop := ∀ one' other', Relation.ReflTransGen Beside (one, other) (one', other') →
  (one'.heap.reachOf one'.values).Apart (other'.heap.reachOf other'.values) ∧
    (∀ next, one'.Later next → other'.Untouched next.heap) ∧ ∀ next, other'.Later next → one'.Untouched next.heap

theorem Severed.isolated {one other : Stage} (severed : Severed one other) : one.Isolated other := by
  intro one' other' along
  have severed := severed.beside along
  exact ⟨severed.apart, fun next later => (severed.later later).1, fun next later => (severed.symm.later later).1⟩

end Stage

/-- The slot of the container is the only way to what lies there, and whatever at hand does not lead to the container is
isolated from it. -/
structure Heap.Houses (heap : Heap) (atHand : List Value) (container : Address) (slot : Nat) (element : Value) : Prop where
  there : (heap.read container).contents[slot]? = some element
  only : ∀ goal, heap.Leads element goal → heap.OnlyThrough atHand container slot goal
  isolated : ∀ values : List Value, (∀ value ∈ values, value ∈ atHand ∧ ¬heap.Leads value container) →
    Stage.Isolated ⟨heap, [], values⟩ ⟨heap, [], [element]⟩

theorem Heap.Entered.houses {heap : Heap} {region made : Region} {container : Address} {slot : Nat} {element : Value} {atHand : List Value}
    (entered : heap.Entered region made container slot) (apart : region.Apart made) (owns : region.OwnsAll atHand) (own : made.Owns element)
    (there : (heap.read container).contents[slot]? = some element) : heap.Houses atHand container slot element := by
  refine ⟨there, fun goal leads => entered.onlyThrough owns apart (leads.within entered.inner own), fun values away => ?_⟩
  have allocated := entered.closed.allocated_reachOf fun value member => (owns value (away value member).1).mono (Region.inside_union_left _ _)
  apply Stage.Severed.isolated
  refine ⟨rfl, heap.reachOf values, made, ⟨closed_reachOf allocated, heap.owns_reachOf values⟩, ⟨entered.inner, by simpa [Stage.values] using own⟩, ?_⟩
  rintro address ⟨value, member, leads⟩
  exact entered.avoids apart (owns value (away value member).1) (away value member).2 leads

namespace Env

open Exec

variable {σ : Type} {env : Env σ} {held : σ → List Value} {act : Activation} {state after : Running σ} {place : Place}
  {kind : ContainerKind} {entry : Operand} {others : List Value}

/-- An insertion has stored the second field of the entry at a slot of the container that the place names, and it is an element of
its own, made of new cells. -/
structure StoresOwn (env : Env σ) (held : σ → List Value) (act : Activation) (state : Running σ) (place : Place) (entry : Operand)
    (others : List Value) (after : Running σ) (container : Address) (slot : Nat) (element : Value) : Prop where
  inserts : ∃ pair between before, env.eval act entry state = .ok pair between ∧ env.load act place between = .ok (.cell container) before ∧
    (pair.field 1).run before.heap = .ok (element, before.heap) ∧ before.heap.TakesUp after.heap container slot element ∧
      after = { before with heap := after.heap }
  fresh : ∀ goal, after.heap.Leads element goal → state.heap.size ≤ goal.index
  houses : after.heap.Houses (atHand held act after others) container slot element

/-- An insertion whose entry does not find its value in a place stores an element of its own. -/
theorem insert_storesOwn (hands : env.Hands held) (owned : entry.isOwned)
    (allocated : ∀ address, state.heap.reachOf (atHand held act state others) address → address.index < state.heap.size) {flow : Flow}
    (ran : env.step act (.insert place kind entry) state = .ok flow after) :
    flow = .next act ∧ ∃ container slot element, env.StoresOwn held act state place entry others after container slot element := by
  obtain ⟨region, fits, values, beside⟩ := fits_of_allocated allocated
  obtain ⟨pair, between, evaluated, ran₁⟩ := bind_eq_ok.mp ran
  obtain ⟨whole, _, loaded, ran₂⟩ := bind_eq_ok.mp ran₁
  obtain ⟨_, _, expected, ran₃⟩ := bind_eq_ok.mp ran₂
  obtain rfl := expectKind_eq_ok expected
  obtain ⟨key, _, selected, ran₄⟩ := bind_eq_ok.mp ran₃
  obtain ⟨rfl, _⟩ := quiet_eq_ok (.field pair 0) selected
  obtain ⟨element, before, selected', ran₅⟩ := bind_eq_ok.mp ran₄
  obtain ⟨rfl, second⟩ := quiet_eq_ok (.field pair 1) selected'
  obtain ⟨_, final, inserted, done⟩ := bind_eq_ok.mp ran₅
  obtain ⟨rfl, rfl⟩ := pure_eq_ok.mp done
  refine ⟨rfl, ?_⟩
  obtain ⟨more, made, brought, own, there⟩ :=
    eval_then_load hands (Activation.ownsAll_locals values) fits owned evaluated loaded
  -- Taking the entry apart stays among what has been made.
  obtain ⟨made, brought, own⟩ : ∃ most, Brought held state region before more most ∧ most.Owns element := by
    have did := Value.field_stays own 1 brought.detached.closed
    rw [second] at did
    obtain ⟨most, grows, owns⟩ := did
    exact ⟨most, brought.work grows, owns element (.head _)⟩
  rw [ofValueOp_apply] at inserted
  cases stored : (whole.insert key element).run before.heap with
  | error error =>
      rw [stored] at inserted
      cases inserted
  | ok result =>
      rw [stored] at inserted
      cases inserted
      obtain ⟨container, slot, rfl, takes⟩ := Value.insert_takesUp _ _ stored
      have inside : more container := Region.owns_cell.mp there
      have entered := takes.entered brought.grows.closed brought.detached.closed brought.detached.apart inside own
      have apart : (more.union (Region.between before.heap.size result.2.size)).Apart made := by
        rintro address (old | new) among
        · exact brought.detached.apart address old among
        · exact absurd (brought.detached.closed.allocated address among) (Nat.not_lt.mpr new.1)
      have known : more.OwnsAll (atHand held act before others) := by
        simp only [atHand, Region.ownsAll_append]
        have inside := brought.grows.inside
        exact ⟨⟨⟨values.mono inside, brought.fits.roots⟩, brought.fits.outside⟩, beside.mono inside⟩
      refine ⟨container, slot, element, ⟨pair, between, before, evaluated, loaded, second, takes, rfl⟩, fun goal leads => ?_,
        entered.houses apart (known.mono (Region.inside_union_left _ _)) own takes.stored⟩
      exact brought.detached.fresh goal (leads.within entered.inner own)

end Env

open Lower in
/-- An accepted insertion whose entry is neither a variable, nor a variable that is cast, nor hands one over with the qualifier
`move`: whatever the entry is otherwise, it is lowered to one instruction behind the choices that its parts ask for. Whenever that
succeeds, in whatever state, the element at the slot of the container that has taken it up is made of new cells. The slot is the
only way to it from the locals, from the actor, from messages and from whatever else is at hand; and a variable that does not lead to
the container is isolated from the element, whatever becomes of either. -/
theorem lowered_insert_stores_own {scope : Lowering.Scope} {start stop : Lowering.Progress} {inNew : Bool} {access : Access} {id : NodeId}
    {span : Span} {target entry : Node} {code : List Instr} (owned : entry.isOwned)
    (accepted : (Node.mk id span (.insert target entry)).lower inNew access scope start = .ok (.code code, stop)) :
    ∃ choices asks place kind operand between middle, Spells (Outline.chooseAll choices) asks ∧ code = asks ++ [.insert place kind operand] ∧
      entry.lower inNew .read scope start = .ok (.value operand, between) ∧
      target.lower inNew .write scope between = .ok (.place place, middle) ∧
      ∀ {σ : Type} (config : RunConfig σ) (held : σ → List Value) (options : LowerOptions) (levels : Nat) (routine : Routine) (act : Activation)
        (state after : Running σ) (flow : Flow) (others : List Value),
        scope.program.lower options = .ok config.image → config.handler.Holds held →
        (∀ address, state.heap.reachOf (Env.atHand held act state others) address → address.index < state.heap.size) →
        Env.step ⟨config.image, routine, config.handler, config.executeWithin levels⟩ act (.insert place kind operand) state = .ok flow after →
          flow = .next act ∧ ∃ container slot element, Env.StoresOwn ⟨config.image, routine, config.handler, config.executeWithin levels⟩
            held act state place operand others after container slot element := by
  obtain ⟨own, middle, choices, asks, lowered, asked, rfl⟩ := Node.lower_statement_eq_ok ⟨rfl, rfl⟩ accepted
  simp only [NodeKind.lower, bind_eq_ok, expectValue_eq_ok, expectPlace_eq_ok, pure_eq_ok, Fragment.code.injEq] at lowered
  obtain ⟨_, between, first, _, last, second, operand, _, ⟨rfl, rfl⟩, place, _, ⟨rfl, rfl⟩, kind, _, _, rfl, rfl⟩ := lowered
  have made : operand.isOwned := (Node.lower_gives entry (.inl rfl) first : Operand.Gives true entry.isOwned operand).2 owned
  refine ⟨choices, asks, place, kind, operand, between, last, asked, rfl, first, second, ?_⟩
  intro σ config held options levels routine act state after flow others accepts honest allocated ran
  exact Env.insert_storesOwn (RunConfig.hands accepts honest levels routine) made allocated ran

/-- A sequence that is inserted in a pair of its own has been copied: whatever is done with the variable, the element stays the same. -/
theorem inserted_copy_is_own : ∃ (scope : Lowering.Scope) (entry : Node) (operand : Operand) (config : RunConfig Unit) (routine : Routine)
    (act : Activation) (state after : Running Unit), entry.isOwned ∧ scope.program.lower {} = .ok config.image ∧
      (Node.mk ⟨0⟩ ⟨1, 1⟩ (.insert (Sample.node (.name (.slot 1))) entry)).lower false .read scope .start
        = .ok (.code [.insert (.slot 1) .seq operand], .start) ∧
      Env.step ⟨config.image, routine, config.handler, config.executeWithin 3⟩ act (.insert (.slot 1) .seq operand) state = .ok (.next act) after ∧
      act.locals = [.cell ⟨0⟩, .cell ⟨1⟩] ∧ after.heap.read ⟨1⟩ = .seq [.cell ⟨2⟩] ∧
      ∀ next, Stage.Later ⟨after.heap, [], [.cell ⟨0⟩]⟩ next → next.heap.tree (.cell ⟨2⟩) = .seq [.int 1] := by
  let scope : Lowering.Scope := ⟨Sample.market, Sample.stray, {}⟩
  let entry : Node := Sample.pair (Sample.node (.lit (.int 0))) (Sample.node (.name (.slot 0)))
  let operand : Operand := .tuple [.const (.int 0), .clone (.load (.slot 0))]
  let image : Image := (Sample.market.lower {}).toOption.getD ⟨"", [], [], []⟩
  let config : RunConfig Unit := ⟨image, fun _ _ _ => .ok (), 3, 100⟩
  let routine : Routine := ⟨⟨0⟩, "", none, ⟨⟨0⟩, "", [], 0⟩, 0, none, [], []⟩
  let idle : Actor := ⟨⟨0⟩, ⟨0⟩, "", [], .null, .null, none, [], ⟨none, none⟩, []⟩
  let act : Activation := ⟨[.cell ⟨0⟩, .cell ⟨1⟩], [], 0, none, none⟩
  let heap : Heap := ⟨#[.seq [.int 1], .seq [.cell ⟨2⟩], .seq [.int 1], .tuple [.int 0, .cell ⟨2⟩]]⟩
  let state : Running Unit := ⟨⟨#[.seq [.int 1], .seq []]⟩, idle, (), 0⟩
  have accepted : (Node.mk ⟨0⟩ ⟨1, 1⟩ (.insert (Sample.node (.name (.slot 1))) entry)).lower false .read scope .start
      = .ok (.code [.insert (.slot 1) .seq operand], .start) := rfl
  obtain ⟨_, asks, place, kind, operand', _, _, _, same, _, _, stores⟩ := lowered_insert_stores_own (by rfl) accepted
  cases (List.append_inj' (show [] ++ [.insert (.slot 1) .seq operand] = asks ++ [.insert place kind operand'] from same) rfl).2
  have closed : state.heap.Closed (Region.between 0 2) := .of_cells (by simp [state, Cell.contents])
  have owns : (Region.between 0 2).OwnsAll (Env.atHand (fun _ => []) act state []) := by
    simp [Env.atHand, Activation.values, Actor.roots, act, state, idle, Region.between]
  obtain ⟨_, container, slot, element, own⟩ := stores config (fun _ => []) {} 3 routine act state ⟨heap, idle, (), 0⟩ (.next act) [] rfl
    (fun _ _ _ _ _ _ among => absurd among List.not_mem_nil) (closed.allocated_reachOf owns) rfl
  obtain ⟨pair, between, before, evaluated, loaded, selected, _⟩ := own.inserts
  cases evaluated
  cases loaded
  cases selected
  refine ⟨scope, entry, operand, config, routine, act, state, ⟨heap, idle, (), 0⟩, rfl, rfl, accepted, rfl, rfl, rfl, fun next later => ?_⟩
  have away (value : Value) (member : value ∈ [Value.cell ⟨0⟩]) :
      value ∈ Env.atHand (fun _ => []) act ⟨heap, idle, (), 0⟩ [] ∧ ¬heap.Leads value ⟨1⟩ := by
    obtain rfl := List.mem_singleton.mp member
    refine ⟨.head _, fun leads => ?_⟩
    cases leads with
    | inside member leads =>
        obtain rfl := List.mem_singleton.mp member
        cases leads
  obtain ⟨_, untouched, _⟩ := own.houses.isolated [.cell ⟨0⟩] away _ _ .refl
  exact (untouched next later).looks (.cell ⟨2⟩) (.head _)

namespace Sample

/-- Inserts a pair of 0 and a sequence, then an element of its own through the pair, and returns the container. -/
def shelve : FunctionInfo where
  name := "shelve"
  params := []
  locals := [⟨"t", 0, .tuple [.int, .seq .int]⟩, ⟨"xs", 1, .seq (.seq .int)⟩]
  returnType := some (.seq (.seq .int))
  slotCount := 2
  owner := none
  types := .ofList [(⟨0⟩, .seq .any)]
  body :=
    let t := node (.name (.slot 0))
    let xs := node (.name (.slot 1))
    node (.block [
      node (.insert xs t),
      node (.insert (node (.field t (.index 1))) (pair (node (.lit (.int 0))) (node (.lit (.int 5))))),
      node (.ret (some xs))])

def archive : Program := ⟨"archive.p", [shelve], [⟨"Clerk", [], []⟩], []⟩

end Sample

/-- An entry that is a variable is not copied: the sequence that has been inserted is still the one in the variable, and what is
put into it there is found in the container. -/
theorem inserted_variable_is_shared : Sample.archive.returned? ⟨0⟩ = some "[[5]]" := by
  decide +kernel

end Reentry
