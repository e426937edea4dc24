import Reentry.Proofs.Locations.Access
import Reentry.Proofs.Lowering.Statements

/-!
Exchange of two places. An assignment with the qualifier `swap` exchanges what is at the locations of its two places,
in either direction, and changes nothing else, if no index or key on the way to one of the locations depends on what
is at the other one. Where it does depend on it the exchange goes astray: the source is named once more after the
destination has been overwritten.
-/

namespace Reentry

/-- The key selects no part of the container at the address. -/
inductive Heap.Misses (heap : Heap) (address : Address) : ContainerKind → Value → Prop
  | item {items : List Value} {number : Int64} (seq : heap.read address = .seq items)
      (outside : ¬(0 ≤ number ∧ number.toInt.toNat < items.length)) : Misses heap address .seq (.int number)
  | entry {entries : List Entry} {key : Value} (map : heap.read address = .map entries)
      (none : heap.entryIndex? key entries = none) : Misses heap address .map key

namespace Storage

variable {σ : Type}

/-- The contents of two locations have been exchanged, and nothing else has changed. -/
structure Exchanged (before : Storage σ) (here there : Location) (after : Storage σ) : Prop where
  keeps : Keeps (fun location => location = here ∨ location = there) before after
  forth : after.read? here = before.read? there
  back : after.read? there = before.read? here

/-- Contents that are written one after the other are exchanged. -/
theorem Exchanged.of_writes {before middle after : Storage σ} {here there : Location} {old new : Value}
    (first : before.read? here = some old) (second : before.read? there = some new)
    (writes : before.Keeps (· = here) middle) (written : middle.read? here = some new)
    (writes' : middle.Keeps (· = there) after) (written' : after.read? there = some old) : before.Exchanged here there after := by
  refine ⟨(writes.mono fun _ => .inl).trans (writes'.mono fun _ => .inr), ?_, written'.trans first.symm⟩
  by_cases same : here = there
  · subst same
    rw [written', second, ← first, second]
  · rw [writes'.contents here new written same, second]

theorem Exchanged.symm {before after : Storage σ} {here there : Location} (exchanged : before.Exchanged here there after) :
    before.Exchanged there here after :=
  ⟨exchanged.keeps.mono fun _ => Or.symm, exchanged.back, exchanged.forth⟩

end Storage

namespace Env

open Storage Exec

variable {σ : Type} {env : Env σ} {act : Activation} {spots : Location → Prop} {storage later : Storage σ} {place base : Place}
  {selector : Selector} {here : Location}

/-- Overwriting a selected part of a container gives what was at its location. -/
theorem Denotes.replace (denotes : env.Denotes act spots storage place here) (selected : place.selection? = some (base, selector))
    (clear : storage.Clear spots here) (keeps : storage.Keeps spots later) (new : Value) :
    ∃ old after, (do env.replacePart (act.on later.locals) (← env.load (act.on later.locals) base) selector new) later.state
        = .ok old after ∧ later.Keeps (· = here) ⟨later.locals, after⟩ ∧ later.read? here = some old ∧
      (⟨later.locals, after⟩ : Storage σ).read? here = some new := by
  obtain ⟨now, there⟩ := keeps.exists_read? denotes.found.choose_spec
  cases denotes with
  | slot _ | field _ | trigger | payload => cases selected
  | @part base outer cell index value denotes holds tuple found =>
      cases selected
      obtain ⟨free, clear'⟩ := clear.base holds
      obtain ⟨value, after, loaded, stays, held⟩ := denotes.load clear' keeps
      obtain rfl : Value.cell cell = value := by simpa [keeps.contents _ _ holds free] using held
      have there' := stays.contents _ _ there id
      obtain ⟨kept, final⟩ := write_keeps there' new
      refine ⟨now, _, ?_, stays.stays.trans kept, there, final⟩
      have tuple' : (after.heap.read cell).isTuple := by
        rw [stays.cell (allocated_of_read? there), Cell.isTuple_of_husk (keeps.husks cell (allocated_of_read? found))]
        exact tuple
      rw [bind_of_ok loaded]
      exact replaceField_apply ⟨later.locals, after⟩ tuple' there' new
  | @element base key container outer cell index denotes holds steady value found =>
      cases selected
      obtain ⟨free, clear'⟩ := clear.base holds
      obtain ⟨value, after, loaded, stays, held⟩ := denotes.load clear' keeps
      obtain rfl : Value.cell cell = value := by simpa [keeps.contents _ _ holds free] using held
      have reached : storage.Keeps spots ⟨later.locals, after⟩ := keeps.trans stays.stays
      obtain ⟨key', after', evaluated, stays', selects⟩ := steady _ reached
      have evaluated : env.eval (act.on later.locals) key after = .ok key' after' := evaluated
      have both := stays.trans stays'
      have there' := both.contents _ _ there id
      obtain ⟨middle, aside, replaced, locals⟩ := replace_apply ⟨later.locals, after'⟩ selects there' new
      obtain ⟨kept, final⟩ := write_keeps (aside.contents _ _ there' id) new
      refine ⟨now, (middle.write (.part cell index) new).state, ?_, ?_, there, final⟩
      · simp only [replacePart]
        rw [bind_of_ok loaded, bind_of_ok (expectKind_apply (steady.kind reached (allocated_of_read? (stays.contents _ _ there id)))),
          bind_of_ok evaluated]
        exact replaced
      · have keeps' := (both.trans aside).stays.trans kept
        have same : middle.write (.part cell index) new = ⟨later.locals, (middle.write (.part cell index) new).state⟩ := by
          rw [← locals]
          rfl
        rwa [same] at keeps'

/-- An exchange replaces the part of the container in between. -/
theorem step_exchange (act : Activation) (base : Place) (selector : Selector) (source : Place) :
    env.step act (.exchange base selector source) = (do
      let incoming ← env.load act source
      let old ← (do env.replacePart act (← env.load act base) selector incoming)
      .next <$> env.store act source old) := by
  simp only [step, bind_assoc]

/-- What is at two locations is exchanged, unless one lies in the value at the other. -/
theorem exchanging_exchanges {state : Running σ} {dest source : Place} {here there : Location}
    (dest_denotes : env.Denotes act (· = there) ⟨act.locals, state⟩ dest here)
    (source_denotes : env.Denotes act (· = here) ⟨act.locals, state⟩ source there)
    (clear : (⟨act.locals, state⟩ : Storage σ).Clear (· = there) here)
    (clear' : (⟨act.locals, state⟩ : Storage σ).Clear (· = here) there) :
    ∃ after, env.step act (.exchanging dest source) state = .ok (.next (act.on after.locals)) after.state ∧
      (⟨act.locals, state⟩ : Storage σ).Exchanged here there after := by
  unfold Instr.exchanging
  have first_found := dest_denotes.found.choose_spec
  have second_found := source_denotes.found.choose_spec
  cases selected : dest.selection? with
  | none =>
      obtain ⟨old, loaded, loads, stays, first⟩ := dest_denotes.load clear (.refl _ _)
      obtain ⟨new, loaded', loads', stays', second⟩ := source_denotes.load clear' stays.stays
      have second := stays.was id second_found second
      have both := stays.trans stays'
      obtain ⟨middle, stores, writes, written⟩ := dest_denotes.store clear both.stays new
      have writes := both.stays.trans writes
      obtain ⟨after, stores', writes', written'⟩ := source_denotes.store clear' writes old
      refine ⟨after, ?_, .of_writes first second writes written writes' written'⟩
      have loads : env.load act dest state = .ok old loaded := loads
      have loads' : env.load act source loaded = .ok new loaded' := loads'
      have stores : env.store act dest new loaded' = .ok (act.on middle.locals) middle.state := stores
      simp only [step]
      rw [bind_of_ok loads, bind_of_ok loads', bind_of_ok stores, map_apply, stores']
  | some selection =>
      obtain ⟨base, selector⟩ := selection
      obtain ⟨new, loaded, loads, stays, second⟩ := source_denotes.load clear' (.refl _ _)
      obtain ⟨old, replaced, replaces, writes, first, written⟩ := dest_denotes.replace selected clear stays.stays new
      have first := stays.was id first_found first
      have writes := stays.stays.trans writes
      obtain ⟨after, stores', writes', written'⟩ := source_denotes.store clear' writes old
      refine ⟨after, ?_, .of_writes first second writes written writes' written'⟩
      have loads : env.load act source state = .ok new loaded := loads
      have replaces : (do env.replacePart act (← env.load act base) selector new) loaded = .ok old replaced := replaces
      have stores' : env.store act source old replaced = .ok (act.on after.locals) after.state := stores'
      rw [step_exchange, bind_of_ok loads, bind_of_ok replaces, map_apply, stores']

/-- The place cannot be read: on the way to it, or at its end, an index is out of range or a key is not bound. -/
inductive Lacks (env : Env σ) (act : Activation) (storage : Storage σ) : Place → Prop
  | inPart {base : Place} {index : Nat} (lacks : Lacks env act storage base) : Lacks env act storage (.part base index)
  | inElement {base : Place} {key : Operand} {container : ContainerKind} (lacks : Lacks env act storage base) :
      Lacks env act storage (.element base key container)
  | element {base : Place} {key : Operand} {container : ContainerKind} {here : Location} {cell : Address}
      (denotes : env.Denotes act (fun _ => False) storage base here) (holds : storage.read? here = some (.cell cell))
      (kind : (storage.state.heap.read cell).kind? = some container)
      (steady : env.Steady act (fun _ => False) storage key fun heap value => heap.Misses cell container value) :
      Lacks env act storage (.element base key container)

/-- The place can neither be read nor be overwritten. A key of a map that is not bound can be overwritten. -/
def Refuses (env : Env σ) (act : Activation) (storage : Storage σ) : Place → Prop
  | .part base _ => env.Lacks act storage base
  | .element base _ .map => env.Lacks act storage base
  | .element base key .seq => env.Lacks act storage (.element base key .seq)
  | _ => False

/-- The instruction fails, and nothing has changed. -/
def FailsCleanly (env : Env σ) (act : Activation) (instr : Instr) (state : Running σ) : Prop :=
  ∃ error after, env.step act instr state = .error (.failed (.value error)) after ∧
    (⟨act.locals, state⟩ : Storage σ).Stays ⟨act.locals, after⟩

theorem clear_of_none (storage : Storage σ) (here : Location) : storage.Clear (fun _ => False) here := fun _ _ => False.elim

theorem Refuses.lacks {place : Place} (refuses : env.Refuses act storage place) : env.Lacks act storage place := by
  cases place with
  | part base index => exact .inPart refuses
  | element base key container =>
      cases container with
      | seq => exact refuses
      | map => exact .inElement refuses
  | slot _ | field _ | trigger | payload => exact refuses.elim

theorem seqIndex_missing {number : Int64} {length : Nat} (outside : ¬(0 ≤ number ∧ number.toInt.toNat < length)) (heap : Heap) :
    ((Value.int number).seqIndex length false).run heap = .error (.indexOutOfRange number length) := by
  have missing : ¬(0 ≤ number ∧ number.toInt.toNat < (if false = true then length + 1 else length)) := outside
  simp only [Value.seqIndex, Value.asInt, pure_bind]
  rw [if_neg missing]
  rfl

theorem lookup_missing {cell : Address} {container : ContainerKind} {key : Value} {state : Running σ}
    (misses : state.heap.Misses cell container key) :
    ∃ error, Exec.ofValueOp ((Value.cell cell).lookup key) state = .error (.failed (.value error)) state := by
  rw [ofValueOp_apply]
  cases misses with
  | item seq outside =>
      simp only [Value.lookup, StateT.run_bind, StateT.run_get, pure_bind, Heap.cell?, seq, seqIndex_missing outside]
      exact ⟨_, rfl⟩
  | entry map none =>
      simp only [Value.lookup, StateT.run_bind, StateT.run_get, pure_bind, Heap.cell?, map, none]
      exact ⟨_, rfl⟩

theorem replace_missing {cell : Address} {key : Value} {state : Running σ} (new : Value) (misses : state.heap.Misses cell .seq key) :
    ∃ error, Exec.ofValueOp ((Value.cell cell).replace key new) state = .error (.failed (.value error)) state := by
  rw [ofValueOp_apply]
  cases misses with
  | item seq outside =>
      simp only [Value.replace, StateT.run_bind, StateT.run_get, pure_bind, Heap.cell?, seq, seqIndex_missing outside]
      exact ⟨_, rfl⟩

/-- What comes before the look-up of a missing element succeeds and changes nothing. -/
theorem missing_key {base : Place} {key : Operand} {container : ContainerKind} {cell : Address}
    (denotes : env.Denotes act (fun _ => False) storage base here) (holds : storage.read? here = some (.cell cell))
    (kind : (storage.state.heap.read cell).kind? = some container)
    (steady : env.Steady act (fun _ => False) storage key fun heap value => heap.Misses cell container value)
    (keeps : storage.Stays later) : ∃ loaded value after, env.load (act.on later.locals) base later.state = .ok (.cell cell) loaded ∧
      expectKind container (.cell cell) loaded = .ok () loaded ∧ env.eval (act.on later.locals) key loaded = .ok value after ∧
      after.heap.Misses cell container value ∧ later.Stays ⟨later.locals, after⟩ := by
  obtain ⟨value, loaded, loads, stays, held⟩ := denotes.load (clear_of_none _ _) keeps
  obtain rfl : Value.cell cell = value := by simpa [keeps.contents _ _ holds id] using held
  have reached := keeps.trans stays
  obtain ⟨missed, after, evaluated, stays', misses⟩ := steady _ reached
  have old : cell.index < storage.state.heap.size := by
    refine Nat.lt_of_not_le fun outside => ?_
    rw [Heap.read_of_size_le outside] at kind
    cases kind
  have kind' : (loaded.heap.read cell).kind? = some container := by rw [reached.cell old, kind]
  exact ⟨loaded, missed, after, loads, expectKind_apply kind', evaluated, misses, stays.trans stays'⟩

/-- What is missing cannot be loaded, and trying changes nothing. -/
theorem Lacks.load (lacks : env.Lacks act storage place) (keeps : storage.Stays later) : ∃ error after,
    env.load (act.on later.locals) place later.state = .error (.failed (.value error)) after ∧ later.Stays ⟨later.locals, after⟩ := by
  induction lacks with
  | inPart _ ih | inElement _ ih =>
      obtain ⟨error, after, fails, stays⟩ := ih
      refine ⟨error, after, ?_, stays⟩
      simp only [Env.load]
      rw [bind_of_error fails]
  | element denotes holds kind steady =>
      obtain ⟨loaded, value, after, loads, fits, evaluated, misses, stays⟩ := missing_key denotes holds kind steady keeps
      obtain ⟨error, fails⟩ := lookup_missing misses
      refine ⟨error, after, ?_, stays⟩
      simp only [Env.load]
      rw [bind_of_ok loads, bind_of_ok fits, bind_of_ok evaluated, fails]

/-- What refuses cannot be overwritten, and trying changes nothing. -/
theorem Refuses.replace (refuses : env.Refuses act storage place) (selected : place.selection? = some (base, selector))
    (keeps : storage.Stays later) (new : Value) : ∃ error after,
      (do env.replacePart (act.on later.locals) (← env.load (act.on later.locals) base) selector new) later.state
        = .error (.failed (.value error)) after ∧ later.Stays ⟨later.locals, after⟩ := by
  have early (lacks : env.Lacks act storage base) : ∃ error after,
      (do env.replacePart (act.on later.locals) (← env.load (act.on later.locals) base) selector new) later.state
        = .error (.failed (.value error)) after ∧ later.Stays ⟨later.locals, after⟩ := by
    obtain ⟨error, after, fails, stays⟩ := lacks.load keeps
    exact ⟨error, after, bind_of_error fails, stays⟩
  cases place with
  | slot _ | field _ | trigger | payload => exact refuses.elim
  | part outer index =>
      cases selected
      exact early refuses
  | element outer key container =>
      cases selected
      cases container with
      | map => exact early refuses
      | seq =>
          cases refuses with
          | inElement lacks => exact early lacks
          | element denotes holds kind steady =>
              obtain ⟨loaded, value, after, loads, fits, evaluated, misses, stays⟩ := missing_key denotes holds kind steady keeps
              obtain ⟨error, fails⟩ := replace_missing new misses
              refine ⟨error, after, ?_, stays⟩
              simp only [replacePart]
              rw [bind_of_ok loads, bind_of_ok fits, bind_of_ok evaluated, fails]

/-- There is a location that the place denotes as long as nothing changes, or the place cannot be read. -/
def Settles (env : Env σ) (act : Activation) (storage : Storage σ) (place : Place) : Prop :=
  (∃ here, env.Denotes act (fun _ => False) storage place here) ∨ env.Lacks act storage place

section

variable {state : Running σ} {dest source : Place}

/-- An exchange with a source that is missing fails. -/
theorem exchanging_lacks (settles : env.Settles act ⟨act.locals, state⟩ dest) (lacks : env.Lacks act ⟨act.locals, state⟩ source) :
    env.FailsCleanly act (.exchanging dest source) state := by
  unfold Instr.exchanging
  cases selected : dest.selection? with
  | none =>
      rcases settles with ⟨here, denotes⟩ | lacks'
      · obtain ⟨old, loaded, loads, stays, _⟩ := denotes.load (clear_of_none _ _) (.refl _ _)
        obtain ⟨error, after, fails, stays'⟩ := lacks.load stays
        have loads : env.load act dest state = .ok old loaded := loads
        have fails : env.load act source loaded = .error (.failed (.value error)) after := fails
        refine ⟨error, after, ?_, stays.trans stays'⟩
        simp only [step]
        rw [bind_of_ok loads, bind_of_error fails]
      · obtain ⟨error, after, fails, stays⟩ := lacks'.load (.refl _ _)
        have fails : env.load act dest state = .error (.failed (.value error)) after := fails
        refine ⟨error, after, ?_, stays⟩
        simp only [step]
        rw [bind_of_error fails]
  | some selection =>
      obtain ⟨error, after, fails, stays⟩ := lacks.load (.refl _ _)
      have fails : env.load act source state = .error (.failed (.value error)) after := fails
      refine ⟨error, after, ?_, stays⟩
      simp only [step]
      rw [bind_of_error fails]

/-- So does an exchange with a destination that cannot be overwritten. -/
theorem exchanging_refuses (refuses : env.Refuses act ⟨act.locals, state⟩ dest) (settles : env.Settles act ⟨act.locals, state⟩ source) :
    env.FailsCleanly act (.exchanging dest source) state := by
  rcases settles with ⟨there, denotes⟩ | lacks
  · obtain ⟨new, loaded, loads, stays, _⟩ := denotes.load (clear_of_none _ _) (.refl _ _)
    unfold Instr.exchanging
    cases selected : dest.selection? with
    | none => cases dest <;> first | exact refuses.elim | cases selected
    | some selection =>
        obtain ⟨base, selector⟩ := selection
        obtain ⟨error, after, fails, stays'⟩ := refuses.replace selected stays new
        have loads : env.load act source state = .ok new loaded := loads
        have fails : (do env.replacePart act (← env.load act base) selector new) loaded = .error (.failed (.value error)) after := fails
        refine ⟨error, after, ?_, stays.trans stays'⟩
        rw [step_exchange, bind_of_ok loads, bind_of_error fails]
  · exact exchanging_lacks (.inr refuses.lacks) lacks

end

/-- Exchanging the two places works the same in either direction: if both denote locations, and neither lies in the
value at the other, their contents are exchanged and nothing else changes; and if one of them is missing, the exchange
fails and nothing has changed. Only a key that is not bound is missed by the source alone. -/
structure ExchangesEitherWay (env : Env σ) (dest source : Place) : Prop where
  exchanges : ∀ act state here there, env.Denotes act (· = there) ⟨act.locals, state⟩ dest here →
    env.Denotes act (· = here) ⟨act.locals, state⟩ source there →
    (⟨act.locals, state⟩ : Storage σ).Clear (· = there) here → (⟨act.locals, state⟩ : Storage σ).Clear (· = here) there →
    ∃ after after', env.step act (.exchanging dest source) state = .ok (.next (act.on after.locals)) after.state ∧
      env.step act (.exchanging source dest) state = .ok (.next (act.on after'.locals)) after'.state ∧
      (⟨act.locals, state⟩ : Storage σ).Exchanged here there after ∧ (⟨act.locals, state⟩ : Storage σ).Exchanged here there after'
  fails : ∀ act state, env.Settles act ⟨act.locals, state⟩ dest → env.Settles act ⟨act.locals, state⟩ source →
    env.Refuses act ⟨act.locals, state⟩ dest ∨ env.Refuses act ⟨act.locals, state⟩ source →
    env.FailsCleanly act (.exchanging dest source) state ∧ env.FailsCleanly act (.exchanging source dest) state
  misses : ∀ act state, env.Settles act ⟨act.locals, state⟩ dest → env.Lacks act ⟨act.locals, state⟩ source →
    env.FailsCleanly act (.exchanging dest source) state

theorem exchangesEitherWay (env : Env σ) (dest source : Place) : env.ExchangesEitherWay dest source where
  exchanges act state here there denotes denotes' clear clear' := by
    obtain ⟨after, steps, exchanged⟩ := exchanging_exchanges denotes denotes' clear clear'
    obtain ⟨after', steps', exchanged'⟩ := exchanging_exchanges denotes' denotes clear' clear
    exact ⟨after, after', steps, steps', exchanged, exchanged'.symm⟩
  fails act state settles settles' := by
    rintro (refuses | refuses)
    · exact ⟨exchanging_refuses refuses settles', exchanging_lacks settles' refuses.lacks⟩
    · exact ⟨exchanging_lacks settles refuses.lacks, exchanging_refuses refuses settles⟩
  misses _ _ settles lacks := exchanging_lacks settles lacks

end Env

open Lower in
/-- An accepted assignment with the qualifier `swap` is one exchange of the places that its sides are lowered to, behind
the choices that its indices and keys ask for; and it works the same in either direction. -/
theorem lowered_swap_exchanges {scope : Lowering.Scope} {start stop : Lowering.Progress} {inNew : Bool} {access : Access}
    {id : NodeId} {span : Span} {left right : Node} {code : List Instr}
    (accepted : (Node.mk id span (.assign left right .swap)).lower inNew access scope start = .ok (.code code, stop)) :
    ∃ choices asks dest source between middle, Spells (Outline.chooseAll choices) asks ∧ code = asks ++ [.exchanging dest source] ∧
      right.lower inNew .write scope start = .ok (.place source, between) ∧
      left.lower inNew .write scope between = .ok (.place dest, middle) ∧
      ∀ {σ : Type} (env : Env σ), env.ExchangesEitherWay dest source := by
  obtain ⟨own, middle, choices, asks, lowered, asked, rfl⟩ := Node.lower_statement_eq_ok ⟨rfl, rfl⟩ accepted
  obtain ⟨fragment, dest, between, first, second, place, rfl, rfl⟩ := NodeKind.assign_eq_ok lowered
  exact ⟨choices, asks, dest, place, between, middle, asked, rfl, first, second, fun env => env.exchangesEitherWay dest place⟩

namespace Sample

def pair (left right : Node) : Node :=
  node (.tuple (node (.exprs .none left (some (node (.exprs .none right none))))))

/-- Puts 1 and 5 into a sequence and exchanges `i`, which is 0, with its element at `i`. -/
def stray : FunctionInfo where
  name := "stray"
  params := []
  locals := [⟨"i", 0, .int⟩, ⟨"xs", 1, .seq .int⟩]
  returnType := some (.tuple [.int, .seq .int])
  slotCount := 2
  owner := none
  types := .ofList [(⟨0⟩, .seq .int)]
  body :=
    let i := node (.name (.slot 0))
    let xs := node (.name (.slot 1))
    node (.block [
      node (.insert xs (pair (node (.lit (.int 0))) (node (.lit (.int 1))))),
      node (.insert xs (pair (node (.lit (.int 1))) (node (.lit (.int 5))))),
      node (.assign i (node (.binary .index xs i)) .swap),
      node (.ret (some (pair i xs)))])

/-- Exchanges the element of an empty map at 3 with `i`, which is 0. -/
def hatch : FunctionInfo where
  name := "hatch"
  params := []
  locals := [⟨"i", 0, .int⟩, ⟨"m", 1, .map .int .int⟩]
  returnType := some (.tuple [.int, .map .int .int])
  slotCount := 2
  owner := none
  types := .ofList [(⟨0⟩, .map .int .int)]
  body :=
    let i := node (.name (.slot 0))
    let m := node (.name (.slot 1))
    node (.block [
      node (.assign (node (.binary .index m (node (.lit (.int 3))))) i .swap),
      node (.ret (some (pair i m)))])

def market : Program := ⟨"market.p", [stray, hatch], [⟨"Trader", [], []⟩], []⟩

end Sample

/-- Text of what a call of a function returns that takes no arguments, on a fresh actor. -/
def Program.returned? (program : Program) (function : FunctionId) : Option String := do
  let image ← (program.lower {}).toOption
  let idle : Actor := ⟨⟨0⟩, ⟨0⟩, "", [], .null, .null, none, [], ⟨none, none⟩, []⟩
  let (actor, heap) ← ((Actor.startCall image function [] idle).run .empty).toOption
  match (⟨image, fun _ _ _ => .ok (), 3, 100⟩ : RunConfig Unit).execute function ⟨heap, actor, (), 0⟩ with
  | .ok (.completed (some value) _) after => some (value.text after.heap)
  | _ => none

/-- The exchange of `i` and `xs[i]` overwrites `i` first and then another element: the 1 is in both variables, and the
0 has taken the place of the 5, although `xs[0]` was to get it. The exchange of an element that is missing with `i`
succeeds, where the one of `i` with that element would fail. -/
theorem swap_goes_astray : Sample.market.returned? ⟨0⟩ = some "(1, [1, 0])" ∧
    Sample.market.returned? ⟨1⟩ = some "(null, (3 -> 0))" := by
  decide +kernel

/-- The second element of a sequence and the field of a tuple are exchanged. -/
theorem element_and_field_exchange : ∃ (scope : Lowering.Scope) (left right : Node) (code : List Instr) (stop : Lowering.Progress)
    (dest source : Place) (env : Env Unit) (act : Activation) (before after : Storage Unit),
    (Node.mk ⟨0⟩ ⟨1, 1⟩ (.assign left right .swap)).lower false .read scope .start = .ok (.code code, stop) ∧
      code = [.exchanging dest source] ∧
      env.step act (.exchanging dest source) before.state = .ok (.next (act.on after.locals)) after.state ∧
      before.read? (.part ⟨0⟩ 1) = some (.int 5) ∧ before.read? (.part ⟨1⟩ 0) = some (.int 7) ∧
      before.Exchanged (.part ⟨0⟩ 1) (.part ⟨1⟩ 0) after := by
  let scope : Lowering.Scope := ⟨Sample.market, Sample.stray, {}⟩
  let left : Node := Sample.node (.binary .index (Sample.node (.name (.slot 0))) (Sample.node (.lit (.int 1))))
  let right : Node := Sample.node (.field (Sample.node (.name (.slot 1))) (.index 0))
  let heap : Heap := ⟨#[.seq [.int 1, .int 5], .tuple [.int 7]]⟩
  let idle : Actor := ⟨⟨0⟩, ⟨0⟩, "", [], .null, .null, none, [], ⟨none, none⟩, []⟩
  let act : Activation := ⟨[.cell ⟨0⟩, .cell ⟨1⟩], [], 0, none, none⟩
  let before : Storage Unit := ⟨act.locals, ⟨heap, idle, (), 0⟩⟩
  let routine : Routine := ⟨⟨0⟩, "", none, ⟨⟨0⟩, "", [], 0⟩, 0, none, [], []⟩
  let env : Env Unit := ⟨⟨"", [], [], []⟩, routine, fun _ _ _ => .ok (), fun _ => throw .outOfSteps⟩
  let dest : Place := .element (.slot 0) (.const (.int 1)) .seq
  let source : Place := .part (.slot 1) 0
  have accepted : (Node.mk ⟨0⟩ ⟨1, 1⟩ (.assign left right .swap)).lower false .read scope .start
      = .ok (.code [.exchanging dest source], .start) := rfl
  obtain ⟨_, _, dest', source', between, _, _, _, first, second, works⟩ := lowered_swap_exchanges accepted
  obtain ⟨same, rfl⟩ : source' = source ∧ between = .start := by
    cases first
    exact ⟨rfl, rfl⟩
  obtain rfl : dest' = dest := by
    cases second
    rfl
  subst same
  have numbers (spot other : Location) (number : Int64) (holds : before.read? spot = some (.int number)) :
      before.Clear (· = spot) other := by
    rintro _ value rfl found ⟨cell, index, _, leads⟩
    obtain rfl : Value.int number = value := by simpa [holds] using found
    cases leads
  have denotes : env.Denotes act (· = .part ⟨1⟩ 0) before dest (.part ⟨0⟩ 1) :=
    .element (.slot (by decide)) rfl ((Env.Steady.const (.int 1)).item rfl (by decide)) rfl
  have denotes' : env.Denotes act (· = .part ⟨0⟩ 1) before source (.part ⟨1⟩ 0) := .part (.slot (by decide)) rfl rfl rfl
  obtain ⟨after, _, steps, _, exchanged, _⟩ :=
    (works env).exchanges act before.state _ _ denotes denotes' (numbers _ _ 7 rfl) (numbers _ _ 5 rfl)
  exact ⟨scope, left, right, _, _, dest, source, env, act, before, after, accepted, rfl, steps, rfl, rfl, exchanged⟩

end Reentry
