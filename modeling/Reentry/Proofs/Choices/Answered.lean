import Reentry.Proofs.Choices.Settled
import Reentry.Proofs.Grammar.Accepted

/-!
Statements with their choices answered. The choices of a statement are numbered in the order in which its operands are
lowered; putting a boolean in the place of each one gives a statement that has nothing to ask, and lowering it gives the
same code as before with the choices written out.
-/

namespace Reentry

mutual

/-- How many choices a node has of its own, not counting those of statements inside it. -/
def Node.questions : Node → Nat
  | .mk _ _ kind => kind.questions

def NodeKind.questions : NodeKind → Nat
  | .nondet _ => 1
  | .unary _ arg => arg.questions
  | .binary _ lhs rhs => lhs.questions + rhs.questions
  | .field base _ => base.questions
  | .tuple list | .namedTuple list => list.questions
  | .cast expr _ => expr.questions
  | .app _ args => questionsOf args
  | .exprs _ head tail | .namedExprs _ head tail => head.questions + questionsOf tail
  | .new _ args out | .call _ args out => questionsOf args + questionsOf out
  | .goto _ args | .print _ args => questionsOf args
  | .raise event args | .announce event args => event.questions + questionsOf args
  | .send target event args => target.questions + (event.questions + questionsOf args)
  | .assert cond _ => cond.questions
  | .assign lhs rhs _ => rhs.questions + lhs.questions
  | .remove target key => key.questions + target.questions
  | .insert target entry => entry.questions + target.questions
  | .ret value => questionsOf value
  | .loop cond _ | .branch cond _ _ => cond.questions
  | .name _ | .lit _ | .default _ | .receive _ | .pop | .seq _ _ | .block _ => 0

def questionsOf : Option Node → Nat
  | none => 0
  | some node => node.questions

end

mutual

/-- The node with its own choices answered, in the order in which they are lowered. -/
def Node.answered (bits : List Bool) : Node → Node
  | .mk id span kind => .mk id span (kind.answered bits)

def NodeKind.answered (bits : List Bool) : NodeKind → NodeKind
  | .nondet _ => .lit (.bool (bits.getD 0 false))
  | .unary op arg => .unary op (arg.answered bits)
  | .binary op lhs rhs => .binary op (lhs.answered bits) (rhs.answered (bits.drop lhs.questions))
  | .field base sel => .field (base.answered bits) sel
  | .tuple list => .tuple (list.answered bits)
  | .namedTuple list => .namedTuple (list.answered bits)
  | .cast expr ty => .cast (expr.answered bits) ty
  | .app callee args => .app callee (answeredIn bits args)
  | .exprs qualifier head tail => .exprs qualifier (head.answered bits) (answeredIn (bits.drop head.questions) tail)
  | .namedExprs name head tail => .namedExprs name (head.answered bits) (answeredIn (bits.drop head.questions) tail)
  | .new machine args out => .new machine (answeredIn bits args) (answeredIn (bits.drop (questionsOf args)) out)
  | .call callee args out => .call callee (answeredIn bits args) (answeredIn (bits.drop (questionsOf args)) out)
  | .goto state args => .goto state (answeredIn bits args)
  | .raise event args => .raise (event.answered bits) (answeredIn (bits.drop event.questions) args)
  | .send target event args =>
      .send (target.answered bits) (event.answered (bits.drop target.questions))
        (answeredIn ((bits.drop target.questions).drop event.questions) args)
  | .announce event args => .announce (event.answered bits) (answeredIn (bits.drop event.questions) args)
  | .assert cond message => .assert (cond.answered bits) message
  | .print format args => .print format (answeredIn bits args)
  | .assign lhs rhs qualifier => .assign (lhs.answered (bits.drop rhs.questions)) (rhs.answered bits) qualifier
  | .remove target key => .remove (target.answered (bits.drop key.questions)) (key.answered bits)
  | .insert target entry => .insert (target.answered (bits.drop entry.questions)) (entry.answered bits)
  | .ret value => .ret (answeredIn bits value)
  | .loop cond body => .loop (cond.answered bits) body
  | .branch cond onTrue onFalse => .branch (cond.answered bits) onTrue onFalse
  | .name ref => .name ref
  | .lit value => .lit value
  | .default ty => .default ty
  | .receive cases => .receive cases
  | .pop => .pop
  | .seq first rest => .seq first rest
  | .block statements => .block statements

def answeredIn (bits : List Bool) : Option Node → Option Node
  | none => none
  | some node => some (node.answered bits)

end

theorem Node.answered_id (node : Node) (bits : List Bool) : (node.answered bits).id = node.id := by
  cases node
  rfl

namespace Operand

variable {known : Nat → Option Bool}

theorem settleFields_eq_map (fields : List (String × Operand)) :
    settleFields known fields = fields.map fun field => (field.1, field.2.settle known) := by
  induction fields with
  | nil => rfl
  | cons field rest ih => rw [settleFields, ih, List.map_cons]

theorem settleArguments_eq_map (args : List Argument) :
    settleArguments known args = args.map fun arg => .mk (arg.value.settle known) arg.qualifier := by
  induction args with
  | nil => rfl
  | cons arg rest ih =>
      cases arg
      rw [settleArguments, ih, List.map_cons]
      rfl

theorem payload_settle (operands : List Operand) :
    Template.payload (operands.map (settle known)) = (Template.payload operands).settle known := by
  rcases operands with _ | ⟨operand, _ | ⟨other, rest⟩⟩
  · rfl
  · rfl
  · exact congrArg Operand.tuple (settleAll_eq_map (operand :: other :: rest)).symm

end Operand

/-- The fragment with the choices that are known written out; of code it is said elsewhere what becomes. -/
def Fragment.settle (known : Nat → Option Bool) : Fragment → Fragment
  | .value operand => .value (operand.settle known)
  | .place target => .place (target.settle known)
  | .code body => .code body

/-- A value, and the value with the choices that are known written out. -/
abbrev Fragment.ValueEcho (known : Nat → Option Bool) (fragment echoed : Fragment) : Prop :=
  fragment.IsValue ∧ echoed = fragment.settle known

abbrev Fragment.PlaceEcho (known : Nat → Option Bool) (fragment echoed : Fragment) : Prop :=
  fragment.IsPlace ∧ echoed = fragment.settle known

def ListItem.settle (known : Nat → Option Bool) (item : ListItem) : ListItem :=
  { item with fragment := item.fragment.settle known }

def Destination.settle (known : Nat → Option Bool) : Destination → Destination
  | .element base container key => .element base (container.settle known) (key.settle known)
  | .part base sel container => .part base sel (container.settle known)
  | .whole dest => .whole (dest.settle known)

namespace Lower

/-- Where the booleans for so many choices are known, work that takes these choices is echoed by work that takes none,
with a result that is alike. -/
def Echoes {α β : Type} (scope : Lowering.Scope) (known : Nat → Option Bool) (count : Nat) (bits : List Bool)
    (alike : α → β → Prop) (work : Lower α) (echo : Lower β) : Prop :=
  ∀ start result stop, (∀ offset < count, known (start.nextChoice + offset) = some (bits.getD offset false)) →
    work scope start = .ok (result, stop) →
    stop.pending = start.pending ++ List.range' start.nextChoice count ∧ stop.nextChoice = start.nextChoice + count ∧
      ∀ other, ∃ echoed last, echo scope other = .ok (echoed, last) ∧ last.pending = other.pending ∧ alike result echoed

namespace Echoes

variable {α β γ δ : Type} {scope : Lowering.Scope} {known : Nat → Option Bool} {count more : Nat} {bits : List Bool}
  {alike : α → β → Prop} {alike' : γ → δ → Prop}

theorem pure {value : α} {echoed : β} (holds : alike value echoed) :
    Echoes scope known 0 bits alike (pure value) (pure echoed) := by
  intro start result stop _ succeeds
  obtain ⟨rfl, rfl⟩ := pure_eq_ok.mp succeeds
  exact ⟨(List.append_nil _).symm, rfl, fun other => ⟨echoed, other, rfl, rfl, holds⟩⟩

theorem bind {work : Lower α} {echo : Lower β} {rest : α → Lower γ} {rest' : β → Lower δ}
    (first : Echoes scope known count bits alike work echo)
    (later : ∀ value echoed, alike value echoed →
      Echoes scope known more (bits.drop count) alike' (rest value) (rest' echoed)) :
    Echoes scope known (count + more) bits alike' (work >>= rest) (echo >>= rest') := by
  intro start result stop agreed succeeds
  obtain ⟨value, between, done, continued⟩ := bind_eq_ok.mp succeeds
  obtain ⟨pending, next, echoes⟩ := first _ _ _ (fun offset bound => agreed offset (by omega)) done
  have agreed' (offset : Nat) (bound : offset < more) :
      known (between.nextChoice + offset) = some ((bits.drop count).getD offset false) := by
    rw [next, Nat.add_assoc, agreed (count + offset) (by omega)]
    simp only [List.getD_eq_getElem?_getD, List.getElem?_drop]
  obtain ⟨anyEcho, _, _, _, holds⟩ := echoes start
  obtain ⟨pending', next', _⟩ := later value anyEcho holds _ _ _ agreed' continued
  refine ⟨?_, by omega, fun other => ?_⟩
  · rw [pending', pending, next, List.append_assoc, List.range'_append_1]
  · obtain ⟨echoed, middle, made, same, holds⟩ := echoes other
    obtain ⟨_, _, continues⟩ := later value echoed holds _ _ _ agreed' continued
    obtain ⟨final, last, finished, same', holds'⟩ := continues middle
    exact ⟨final, last, bind_eq_ok.mpr ⟨echoed, middle, made, finished⟩, same'.trans same, holds'⟩

/-- Work that ends without taking further choices. -/
theorem last {work : Lower α} {echo : Lower β} {rest : α → Lower γ} {rest' : β → Lower δ}
    (first : Echoes scope known count bits alike work echo)
    (later : ∀ value echoed, alike value echoed → Echoes scope known 0 (bits.drop count) alike' (rest value) (rest' echoed)) :
    Echoes scope known count bits alike' (work >>= rest) (echo >>= rest') :=
  bind first later

/-- Work that starts without taking choices. -/
theorem next {work : Lower α} {echo : Lower β} {rest : α → Lower γ} {rest' : β → Lower δ}
    (first : Echoes scope known 0 bits alike work echo)
    (later : ∀ value echoed, alike value echoed → Echoes scope known count bits alike' (rest value) (rest' echoed)) :
    Echoes scope known count bits alike' (work >>= rest) (echo >>= rest') := by
  have both := bind first later
  rwa [Nat.zero_add] at both

theorem weaken {other : α → β → Prop} {work : Lower α} {echo : Lower β}
    (echoes : Echoes scope known count bits alike work echo) (imp : ∀ value echoed, alike value echoed → other value echoed) :
    Echoes scope known count bits other work echo := by
  intro start result stop agreed succeeds
  obtain ⟨pending, next, echoes⟩ := echoes _ _ _ agreed succeeds
  refine ⟨pending, next, fun progress => ?_⟩
  obtain ⟨echoed, last, made, same, holds⟩ := echoes progress
  exact ⟨echoed, last, made, same, imp _ _ holds⟩

theorem map {work : Lower α} {echo : Lower β} {change : α → γ} {change' : β → δ}
    (echoes : Echoes scope known count bits alike work echo)
    (imp : ∀ value echoed, alike value echoed → alike' (change value) (change' echoed)) :
    Echoes scope known count bits alike' (change <$> work) (change' <$> echo) :=
  last echoes fun _ _ holds => pure (imp _ _ holds)

theorem throw {cause : LowerError} {echo : Lower β} : Echoes scope known count bits alike (throw cause) echo := by
  intro start result stop _ succeeds
  exact (throw_ne_ok.mp succeeds).elim

theorem unexpected {expected found : String} {echo : Lower β} :
    Echoes scope known count bits alike (unexpected expected found) echo := by
  intro start result stop _ succeeds
  exact (unexpected_ne_ok.mp succeeds).elim

theorem read : Echoes scope known 0 bits (fun own other => scope = own ∧ scope = other) read read := by
  intro start result stop _ succeeds
  obtain ⟨rfl, rfl⟩ := read_eq_ok.mp succeeds
  exact ⟨(List.append_nil _).symm, rfl, fun other => ⟨scope, other, rfl, rfl, rfl, rfl⟩⟩

theorem freshLabel : Echoes scope known 0 bits (fun _ _ => True) freshLabel freshLabel := by
  intro start result stop _ succeeds
  obtain ⟨_, rfl⟩ := freshLabel_eq_ok.mp succeeds
  exact ⟨(List.append_nil _).symm, rfl, fun other => ⟨_, _, rfl, rfl, trivial⟩⟩

/-- A choice is echoed by the boolean that answers it. -/
theorem choice : Echoes scope known 1 bits (Fragment.ValueEcho known)
    (do Pure.pure (.value (.choice (← freshChoice)))) (Lower.readOnly .read (.const (.bool (bits.getD 0 false)))) := by
  intro start result stop agreed succeeds
  obtain ⟨number, middle, fresh, done⟩ := bind_eq_ok.mp succeeds
  obtain ⟨rfl, rfl⟩ := freshChoice_eq_ok.mp fresh
  obtain ⟨rfl, rfl⟩ := pure_eq_ok.mp done
  refine ⟨rfl, rfl, fun other => ⟨_, other, rfl, rfl, ⟨_, rfl⟩, ?_⟩⟩
  have answered : known start.nextChoice = some (bits.getD 0 false) := agreed 0 Nat.one_pos
  simp only [Fragment.settle, Operand.settle, answered]

theorem mapM {ι κ : Type} {change : α → β} {prepare : ι → κ} {work : ι → Lower α} {echo : κ → Lower β}
    (each : ∀ item, Echoes scope known 0 bits (fun value echoed => echoed = change value) (work item) (echo (prepare item)))
    (items : List ι) :
    Echoes scope known 0 bits (fun values echoed => echoed = values.map change) (items.mapM work) ((items.map prepare).mapM echo) := by
  induction items with
  | nil => exact pure rfl
  | cons item rest ih =>
      rw [List.map_cons, List.mapM_cons, List.mapM_cons]
      refine next (each item) ?_
      rintro first _ rfl
      refine next ih ?_
      rintro others _ rfl
      exact pure rfl

/-- The same steps on both sides, which take no choices. -/
theorem forM {ι : Type} {work : ι → Lower PUnit} (each : ∀ item, Echoes scope known 0 bits (fun _ _ => True) (work item) (work item))
    (items : List ι) : Echoes scope known 0 bits (fun _ _ => True) (items.forM work) (items.forM work) := by
  induction items with
  | nil => exact pure trivial
  | cons item rest ih => exact next (each item) fun _ _ _ => ih

theorem expectValue (fragment : Fragment) :
    Echoes scope known 0 bits (fun operand echoed => echoed = operand.settle known) (expectValue fragment)
      (expectValue (fragment.settle known)) := by
  cases fragment with
  | value operand => exact pure rfl
  | place _ | code _ => exact unexpected

theorem expectPlace (fragment : Fragment) :
    Echoes scope known 0 bits (fun place echoed => echoed = place.settle known) (expectPlace fragment)
      (expectPlace (fragment.settle known)) := by
  cases fragment with
  | place place => exact pure rfl
  | value _ | code _ => exact unexpected

theorem located (span : Span) (message : String) :
    Echoes scope known 0 bits (fun own other => own = other) (located span message) (located span message) := by
  refine next read ?_
  rintro _ _ ⟨rfl, rfl⟩
  split <;> exact pure rfl

theorem typeOf (node : NodeId) : Echoes scope known 0 bits (fun own other => own = other) (typeOf node) (typeOf node) := by
  refine next read ?_
  rintro _ _ ⟨rfl, rfl⟩
  dsimp only
  cases scope.function.typeOf? node with
  | some ty => exact pure rfl
  | none => exact throw

theorem containerKind (node : NodeId) :
    Echoes scope known 0 bits (fun own other => own = other) (containerKind node) (containerKind node) := by
  refine next (typeOf node) ?_
  rintro ty _ rfl
  cases ty <;> first | exact pure rfl | exact next read fun _ _ _ => throw

theorem fieldIndex (base : NodeId) (sel : FieldSel) :
    Echoes scope known 0 bits (fun own other => own = other) (fieldIndex base sel) (fieldIndex base sel) := by
  cases sel with
  | index position => exact pure rfl
  | name name =>
      refine next (typeOf base) ?_
      rintro ty _ rfl
      split
      · exact pure rfl
      · exact next read fun _ _ _ => throw

theorem checkFunction (callee : FunctionId) :
    Echoes scope known 0 bits (fun _ _ => True) (checkFunction callee) (checkFunction callee) := by
  refine next read ?_
  rintro _ _ ⟨rfl, rfl⟩
  split
  · exact throw
  · exact pure trivial

theorem readOnly (operand : Operand) :
    Echoes scope known 0 bits (Fragment.ValueEcho known) (readOnly .read operand)
      (readOnly .read (operand.settle known)) :=
  pure ⟨⟨operand, rfl⟩, rfl⟩

theorem indexValue (base : NodeId) (container key : Fragment) :
    Echoes scope known 0 bits (Fragment.ValueEcho known)
      (index .read base container key) (index .read base (container.settle known) (key.settle known)) := by
  refine next (containerKind base) ?_
  rintro kind _ rfl
  refine next (expectValue container) ?_
  rintro container _ rfl
  refine next (expectValue key) ?_
  rintro key _ rfl
  exact pure ⟨⟨_, rfl⟩, rfl⟩

theorem indexPlace (base : NodeId) (container key : Fragment) :
    Echoes scope known 0 bits (Fragment.PlaceEcho known)
      (index .write base container key) (index .write base (container.settle known) (key.settle known)) := by
  refine next (containerKind base) ?_
  rintro kind _ rfl
  refine next (expectPlace container) ?_
  rintro container _ rfl
  refine next (expectValue key) ?_
  rintro key _ rfl
  exact pure ⟨⟨_, rfl⟩, rfl⟩

theorem fieldValue (base : NodeId) (sel : FieldSel) (container : Fragment) :
    Echoes scope known 0 bits (Fragment.ValueEcho known)
      (field .read base sel container) (field .read base sel (container.settle known)) := by
  refine next (fieldIndex base sel) ?_
  rintro position _ rfl
  refine next (expectValue container) ?_
  rintro container _ rfl
  exact pure ⟨⟨_, rfl⟩, rfl⟩

theorem fieldPlace (base : NodeId) (sel : FieldSel) (container : Fragment) :
    Echoes scope known 0 bits (Fragment.PlaceEcho known)
      (field .write base sel container) (field .write base sel (container.settle known)) := by
  refine next (fieldIndex base sel) ?_
  rintro position _ rfl
  refine next (expectPlace container) ?_
  rintro container _ rfl
  exact pure ⟨⟨_, rfl⟩, rfl⟩

theorem transferred (item : ListItem) :
    Echoes scope known 0 bits (fun operand echoed => echoed = operand.settle known) item.transferred
      (item.settle known).transferred := by
  refine next (expectValue item.fragment) ?_
  rintro operand _ rfl
  exact pure (operand.settle_transferred item.qualifier).symm

theorem namedField (item : ListItem) :
    Echoes scope known 0 bits (fun field echoed => echoed = (field.1, field.2.settle known)) item.namedField
      (item.settle known).namedField := by
  obtain ⟨name, qualifier, fragment⟩ := item
  cases name with
  | none => exact unexpected
  | some name =>
      refine next (transferred ⟨some name, qualifier, fragment⟩) ?_
      rintro operand _ rfl
      exact pure rfl

theorem argument (item : ListItem) :
    Echoes scope known 0 bits (fun arg echoed => echoed = .mk (arg.value.settle known) arg.qualifier) item.argument
      (item.settle known).argument := by
  refine next (transferred item) ?_
  rintro operand _ rfl
  exact pure rfl

theorem payload (items : List ListItem) :
    Echoes scope known 0 bits (fun operand echoed => echoed = operand.settle known) (payload items)
      (payload (items.map (ListItem.settle known))) := by
  refine next (mapM transferred items) ?_
  rintro operands _ rfl
  exact pure (Operand.payload_settle operands)

theorem callArguments (slot : Nat) (items : List ListItem) :
    Echoes scope known 0 bits (fun result echoed => echoed =
        (Operand.settleArguments known result.1, result.2.map fun pair => (pair.1.settle known, pair.2)))
      (callArguments slot items) (callArguments slot (items.map (ListItem.settle known))) := by
  induction items generalizing slot with
  | nil => exact pure rfl
  | cons item rest ih =>
      obtain ⟨name, qualifier, fragment⟩ := item
      cases qualifier with
      | swap =>
          refine next (expectPlace fragment) ?_
          rintro place _ rfl
          refine next (ih (slot + 1)) ?_
          rintro ⟨args, backs⟩ _ rfl
          exact pure rfl
      | none | move =>
          refine next (argument _) ?_
          rintro ⟨operand, qualifier⟩ _ rfl
          refine next (ih (slot + 1)) ?_
          rintro ⟨args, backs⟩ _ rfl
          exact pure rfl

theorem assignValue (value : Operand) (dest : Destination) :
    Echoes scope known 0 bits (fun code echoed => (∀ instr ∈ code, instr.isPlain) ∧ echoed = code.map (Instr.settle known)) (assignValue value dest)
      (assignValue (value.settle known) (dest.settle known)) := by
  cases dest with
  | element base container key =>
      refine next (expectPlace container) ?_
      rintro container _ rfl
      refine next (expectValue key) ?_
      rintro key _ rfl
      refine next (containerKind base) ?_
      rintro kind _ rfl
      exact pure ⟨List.forall_mem_singleton.mpr rfl, rfl⟩
  | part base sel container =>
      refine next (expectPlace container) ?_
      rintro container _ rfl
      refine next (fieldIndex base sel) ?_
      rintro position _ rfl
      exact pure ⟨List.forall_mem_singleton.mpr rfl, rfl⟩
  | whole dest =>
      refine next (expectPlace dest) ?_
      rintro place _ rfl
      exact pure ⟨List.forall_mem_singleton.mpr rfl, rfl⟩

theorem assignSwap (source : Place) (dest : Destination) :
    Echoes scope known 0 bits (fun code echoed => (∀ instr ∈ code, instr.isPlain) ∧ echoed = code.map (Instr.settle known)) (assignSwap source dest)
      (assignSwap (source.settle known) (dest.settle known)) := by
  cases dest with
  | element base container key =>
      refine next (expectPlace container) ?_
      rintro container _ rfl
      refine next (expectValue key) ?_
      rintro key _ rfl
      refine next (containerKind base) ?_
      rintro kind _ rfl
      exact pure ⟨List.forall_mem_singleton.mpr rfl, rfl⟩
  | part base sel container =>
      refine next (expectPlace container) ?_
      rintro container _ rfl
      refine next (fieldIndex base sel) ?_
      rintro position _ rfl
      exact pure ⟨List.forall_mem_singleton.mpr rfl, rfl⟩
  | whole dest =>
      refine next (expectPlace dest) ?_
      rintro place _ rfl
      exact pure ⟨List.forall_mem_singleton.mpr rfl, rfl⟩

theorem assign (qualifier : Qualifier) (source : Fragment) (dest : Destination) :
    Echoes scope known 0 bits (fun code echoed => (∀ instr ∈ code, instr.isPlain) ∧ echoed = code.map (Instr.settle known)) (assign qualifier source dest)
      (assign qualifier (source.settle known) (dest.settle known)) := by
  cases qualifier with
  | swap =>
      refine next (expectPlace source) ?_
      rintro place _ rfl
      exact assignSwap place dest
  | none | move =>
      refine next (expectValue source) ?_
      rintro operand _ rfl
      rw [← Operand.settle_transferred]
      exact assignValue _ dest

end Echoes

end Lower

end Reentry
