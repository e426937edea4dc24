import Reentry.Proofs.Grammar.Accepted

/-!
What can be lowered is in the grammar. What comes out of a step of lowering tells what went in: a node of which a value was
made is an expression that is read, one of which a place was made names a place, and one of which code was made is a
statement.
-/

namespace Reentry

namespace Lower

/-- If the work comes to a result, then to a good one. -/
def Ensures {α : Type} (scope : Lowering.Scope) (good : α → Prop) (work : Lower α) : Prop :=
  ∀ start result stop, work scope start = .ok (result, stop) → good result

namespace Ensures

variable {α β : Type} {scope : Lowering.Scope} {good : α → Prop} {better : β → Prop}

theorem pure {value : α} (holds : good value) : Ensures scope good (pure value) := fun _ _ _ succeeds =>
  (pure_eq_ok.mp succeeds).1 ▸ holds

theorem bind {work : Lower α} {rest : α → Lower β} (first : Ensures scope good work)
    (later : ∀ value, good value → Ensures scope better (rest value)) : Ensures scope better (work >>= rest) := by
  intro start result stop succeeds
  obtain ⟨value, between, done, finished⟩ := bind_eq_ok.mp succeeds
  exact later value (first _ _ _ done) _ _ _ finished

theorem map {work : Lower α} {change : α → β} (first : Ensures scope good work)
    (fits : ∀ value, good value → better (change value)) : Ensures scope better (change <$> work) := by
  intro start result stop succeeds
  obtain ⟨value, done, rfl⟩ := map_eq_ok.mp succeeds
  exact fits value (first _ _ _ done)

theorem weaken {other : α → Prop} {work : Lower α} (ensured : Ensures scope good work)
    (fits : ∀ value, good value → other value) : Ensures scope other work := fun _ _ _ succeeds =>
  fits _ (ensured _ _ _ succeeds)

/-- Of work about which nothing has to be known. -/
theorem any {work : Lower α} : Ensures scope (fun _ => True) work := fun _ _ _ _ => trivial

theorem throw {cause : LowerError} : Ensures scope good (throw cause) := fun _ _ _ succeeds =>
  (throw_ne_ok.mp succeeds).elim

theorem unexpected {expected found : String} : Ensures scope good (unexpected expected found) := fun _ _ _ succeeds =>
  (unexpected_ne_ok.mp succeeds).elim

theorem read : Ensures scope (scope = ·) read := fun _ _ _ succeeds => (read_eq_ok.mp succeeds).1

theorem mapM {fits : β → Prop} {work : β → Lower α} {items : List β} (each : ∀ item, Ensures scope (fun _ => fits item) (work item)) :
    Ensures scope (fun _ => ∀ item ∈ items, fits item) (items.mapM work) := by
  induction items with
  | nil => exact pure (by simp)
  | cons item rest ih =>
      rw [List.mapM_cons]
      exact bind (each item) fun _ first => bind ih fun _ others => pure (List.forall_mem_cons.mpr ⟨first, others⟩)

theorem forM {fits : β → Prop} {work : β → Lower PUnit} {items : List β} (each : ∀ item, Ensures scope (fun _ => fits item) (work item)) :
    Ensures scope (fun _ => ∀ item ∈ items, fits item) (items.forM work) := by
  induction items with
  | nil => exact pure (by simp)
  | cons item rest ih => exact bind (each item) fun _ first => ih.weaken fun _ others => List.forall_mem_cons.mpr ⟨first, others⟩

theorem optionMapM {fits : β → Prop} {work : β → Lower α} {item : Option β} (each : ∀ item, Ensures scope (fun _ => fits item) (work item)) :
    Ensures scope (fun _ => ∀ part ∈ item, fits part) (item.mapM work) := by
  cases item with
  | none => exact pure nofun
  | some part => exact map (each part) fun _ fits other same => Option.some.inj same ▸ fits

theorem expectValue {fragment : Fragment} : Ensures scope (fun _ => fragment.IsValue) (expectValue fragment) :=
  fun _ operand _ succeeds => ⟨operand, (expectValue_eq_ok.mp succeeds).1⟩

theorem expectPlace {fragment : Fragment} : Ensures scope (fun _ => fragment.IsPlace) (expectPlace fragment) :=
  fun _ place _ succeeds => ⟨place, (expectPlace_eq_ok.mp succeeds).1⟩

theorem expectCode {fragment : Fragment} : Ensures scope (fun _ => fragment.IsCode) (expectCode fragment) :=
  fun _ code _ succeeds => ⟨code, (expectCode_eq_ok.mp succeeds).1⟩

theorem readOnly {access : Access} {operand : Operand} : Ensures scope Fragment.IsValue (readOnly access operand) :=
  fun _ _ _ succeeds => ⟨operand, (readOnly_eq_ok.mp succeeds).2.1.symm⟩

theorem checkFunction {callee : FunctionId} :
    Ensures scope (fun _ => Grammar.Known scope.program callee) (checkFunction callee) := by
  refine bind read fun _ same => ?_
  subst same
  split
  · exact throw
  · rename_i present
    exact pure (by simpa [Grammar.Known, Option.isSome_iff_ne_none] using present)

theorem typeOf {node : NodeId} : Ensures scope (scope.function.typeOf? node = some ·) (typeOf node) := by
  refine bind read fun _ same => ?_
  subst same
  dsimp only
  split
  · rename_i annotated
    exact pure annotated
  · exact throw

theorem containerKind {node : NodeId} : Ensures scope (fun _ => scope.function.Indexes node) (containerKind node) := by
  refine bind typeOf fun ty annotated => ?_
  cases ty with
  | seq _ | map _ _ => exact pure ⟨_, annotated, by simp [Ty.isSeq, Ty.isMap]⟩
  | _ => exact bind read fun _ _ => throw

theorem fieldIndex {base : NodeId} {sel : FieldSel} :
    Ensures scope (fun _ => scope.function.Selects base sel) (fieldIndex base sel) := by
  cases sel with
  | index position => exact pure trivial
  | name name =>
      refine bind typeOf fun ty annotated => ?_
      split
      · rename_i position found
        refine pure ?_
        cases ty with
        | named fields =>
            refine ⟨fields, annotated, ?_⟩
            have present := @List.findIdx?_isSome _ fields (·.1 == name)
            simp only [Ty.fieldIndex?] at found
            rw [found] at present
            obtain ⟨field, member, same⟩ := List.any_eq_true.mp present.symm
            exact List.mem_map.mpr ⟨field, member, by simpa using same⟩
        | _ => cases found
      · exact bind read fun _ _ => throw

section Items

variable {item : ListItem} {items : List ListItem}

theorem transferred : Ensures scope (fun _ => item.fragment.IsValue) item.transferred :=
  bind expectValue fun _ value => pure value

theorem argument : Ensures scope (fun _ => item.fragment.IsValue) item.argument :=
  bind transferred fun _ value => pure value

theorem namedField : Ensures scope (fun _ => item.fragment.IsValue ∧ item.name.isSome) item.namedField := by
  unfold ListItem.namedField
  split
  · rename_i name named
    exact bind transferred fun _ value => pure ⟨value, by simp [named]⟩
  · exact unexpected

theorem payload : Ensures scope (fun _ => ∀ item ∈ items, item.fragment.IsValue) (payload items) :=
  bind (mapM fun _ => transferred) fun _ values => pure values

theorem callArguments {slot : Nat} : Ensures scope (fun _ => ∀ item ∈ items, item.Fits) (callArguments slot items) := by
  induction items generalizing slot with
  | nil => exact pure (by simp)
  | cons item rest ih =>
      unfold Lower.callArguments
      split
      · rename_i swapped
        refine bind expectPlace fun _ first => bind ih fun _ others => pure (List.forall_mem_cons.mpr ⟨?_, others⟩)
        rw [ListItem.Fits, if_pos swapped]
        exact first
      · rename_i handed
        refine bind argument fun _ first => bind ih fun _ others => pure (List.forall_mem_cons.mpr ⟨?_, others⟩)
        rw [ListItem.Fits, if_neg handed]
        exact first

end Items

theorem assignValue {value : Operand} {dest : Destination} :
    Ensures scope (fun _ => Makes.Overwrites scope dest) (assignValue value dest) := by
  cases dest with
  | element base container key =>
      exact bind expectPlace fun _ place => bind expectValue fun _ key => bind containerKind fun _ indexes =>
        pure ⟨indexes, place, key⟩
  | part base sel container => exact bind expectPlace fun _ place => bind fieldIndex fun _ selects => pure ⟨selects, place⟩
  | whole dest => exact bind expectPlace fun _ place => pure place

theorem assignSwap {source : Place} {dest : Destination} :
    Ensures scope (fun _ => Makes.Overwrites scope dest) (assignSwap source dest) := by
  cases dest with
  | element base container key =>
      exact bind expectPlace fun _ place => bind expectValue fun _ key => bind containerKind fun _ indexes =>
        pure ⟨indexes, place, key⟩
  | part base sel container => exact bind expectPlace fun _ place => bind fieldIndex fun _ selects => pure ⟨selects, place⟩
  | whole dest => exact bind expectPlace fun _ place => pure place

theorem new {machine : MachineTypeId} {items : List ListItem} {dest : Option Fragment} :
    Ensures scope (fun _ => (∀ item ∈ items, item.fragment.IsValue) ∧ ∀ part ∈ dest, part.IsPlace) (new machine items dest) :=
  bind payload fun _ values => bind (optionMapM fun _ => expectPlace) fun _ placed => bind any fun _ (_ : True) =>
    pure ⟨values, placed⟩

theorem call {callee : FunctionId} {items : List ListItem} {dest : Option Fragment} :
    Ensures scope (fun _ => Grammar.Known scope.program callee ∧ (∀ item ∈ items, item.Fits) ∧ ∀ part ∈ dest, part.IsPlace)
      (call callee items dest) :=
  bind checkFunction fun _ known => bind callArguments fun _ fits => bind (optionMapM fun _ => expectPlace) fun _ placed =>
    bind any fun _ (_ : True) => pure ⟨known, fits, placed⟩

theorem raise {span : Span} {event : Fragment} {items : List ListItem} :
    Ensures scope (fun _ => event.IsValue ∧ ∀ item ∈ items, item.fragment.IsValue) (raise span event items) :=
  bind expectValue fun _ value => bind payload fun _ values => bind any fun _ (_ : True) => pure ⟨value, values⟩

theorem send {span : Span} {target event : Fragment} {items : List ListItem} :
    Ensures scope (fun _ => target.IsValue ∧ event.IsValue ∧ ∀ item ∈ items, item.fragment.IsValue)
      (send span target event items) :=
  bind expectValue fun _ receiver => bind expectValue fun _ value => bind payload fun _ values =>
    bind any fun _ (_ : True) => bind any fun _ (_ : True) => pure ⟨receiver, value, values⟩

theorem receive {cases : List ReceiveCase} :
    Ensures scope (fun _ => ∀ case ∈ cases, Grammar.Known scope.program case.handler) (receive cases) :=
  bind (forM fun _ => checkFunction) fun _ handled => bind any fun _ (_ : True) => bind any fun _ (_ : True) =>
    bind any fun _ (_ : True) => pure handled

theorem loop {cond body : Fragment} : Ensures scope (fun _ => cond.IsValue ∧ body.IsCode) (loop cond body) :=
  bind expectValue fun _ value => bind expectCode fun _ coded => bind any fun _ (_ : True) => bind any fun _ (_ : True) =>
    pure ⟨value, coded⟩

theorem branch {cond onTrue : Fragment} {onFalse : Option Fragment} :
    Ensures scope (fun _ => cond.IsValue ∧ onTrue.IsCode ∧ ∀ part ∈ onFalse, part.IsCode) (branch cond onTrue onFalse) := by
  refine bind expectValue fun _ value => bind expectCode fun _ coded => bind any fun _ (_ : True) => ?_
  cases onFalse with
  | none => exact pure ⟨value, coded, nofun⟩
  | some part =>
      exact bind expectCode fun _ otherwise => bind any fun _ (_ : True) =>
        pure ⟨value, coded, fun _ same => Option.some.inj same ▸ otherwise⟩

end Ensures

end Lower

namespace Grammar

open Lower (Ensures)

variable {scope : Lowering.Scope} {node : Node} {fragment : Fragment} {list : Option Node} {elements : List ListItem}

/-- The node may stand where that stands to which it was lowered. -/
def Admits (scope : Lowering.Scope) (node : Node) : Fragment → Prop
  | .value _ => Reads scope.program scope.function node
  | .place _ => Places scope.program scope.function node
  | .code _ => Statement scope.program scope.function node

namespace Admits

theorem reads (admits : Admits scope node fragment) (value : fragment.IsValue) : Reads scope.program scope.function node := by
  obtain ⟨_, rfl⟩ := value
  exact admits

theorem places (admits : Admits scope node fragment) (place : fragment.IsPlace) : Places scope.program scope.function node := by
  obtain ⟨_, rfl⟩ := place
  exact admits

theorem statement (admits : Admits scope node fragment) (coded : fragment.IsCode) :
    Statement scope.program scope.function node := by
  obtain ⟨_, rfl⟩ := coded
  exact admits

theorem of_value (reads : Reads scope.program scope.function node) (value : fragment.IsValue) : Admits scope node fragment := by
  obtain ⟨_, rfl⟩ := value
  exact reads

end Admits

/-- A possible part, if there is one, beside what it was lowered to. -/
def Part (scope : Lowering.Scope) (node : Option Node) (fragment : Option Fragment) : Prop :=
  ∀ part ∈ node, ∃ lowered ∈ fragment, Admits scope part lowered

namespace Part

variable {part : Option Node} {lowered : Option Fragment}

theorem reads (admits : Part scope part lowered) (values : ∀ fragment ∈ lowered, fragment.IsValue) :
    ∀ node ∈ part, Reads scope.program scope.function node := fun node member =>
  let ⟨fragment, there, fits⟩ := admits node member
  fits.reads (values fragment there)

theorem places (admits : Part scope part lowered) (placed : ∀ fragment ∈ lowered, fragment.IsPlace) :
    ∀ node ∈ part, Places scope.program scope.function node := fun node member =>
  let ⟨fragment, there, fits⟩ := admits node member
  fits.places (placed fragment there)

theorem statements (admits : Part scope part lowered) (coded : ∀ fragment ∈ lowered, fragment.IsCode) :
    ∀ node ∈ part, Statement scope.program scope.function node := fun node member =>
  let ⟨fragment, there, fits⟩ := admits node member
  fits.statement (coded fragment there)

end Part

/-- The cells of a list beside what their elements were lowered to. -/
inductive Cells (scope : Lowering.Scope) : Option Node → List ListItem → Prop
  | nil : Cells scope none []
  | positional {id span qualifier head tail fragment items} (first : Admits scope head fragment)
      (rest : Cells scope tail items) :
      Cells scope (some (.mk id span (.exprs qualifier head tail))) (⟨none, qualifier, fragment⟩ :: items)
  | named {id span name head tail fragment items} (first : Admits scope head fragment) (rest : Cells scope tail items) :
      Cells scope (some (.mk id span (.namedExprs name head tail))) (⟨some name, .none, fragment⟩ :: items)

namespace Cells

theorem items (cells : Cells scope list elements) (values : ∀ item ∈ elements, item.fragment.IsValue) :
    Items scope.program scope.function list := by
  induction cells with
  | nil => exact .nil
  | positional first _ ih =>
      obtain ⟨value, others⟩ := List.forall_mem_cons.mp values
      exact .positional (first.reads value) (ih others)
  | named first _ ih =>
      obtain ⟨value, others⟩ := List.forall_mem_cons.mp values
      exact .named (first.reads value) (ih others)

theorem fields (cells : Cells scope list elements) (values : ∀ item ∈ elements, item.fragment.IsValue ∧ item.name.isSome) :
    Fields scope.program scope.function list := by
  induction cells with
  | nil => exact .nil
  | positional _ _ _ => exact absurd (List.forall_mem_cons.mp values).1.2 (by simp)
  | named first _ ih =>
      obtain ⟨⟨value, _⟩, others⟩ := List.forall_mem_cons.mp values
      exact .named (first.reads value) (ih others)

theorem arguments (cells : Cells scope list elements) (fits : ∀ item ∈ elements, item.Fits) :
    Arguments scope.program scope.function list := by
  induction cells with
  | nil => exact .nil
  | @positional _ _ qualifier _ _ _ _ first _ ih =>
      obtain ⟨there, others⟩ := List.forall_mem_cons.mp fits
      by_cases swapped : qualifier = .swap
      · subst swapped
        exact .swapped (first.places there) (ih others)
      · rw [ListItem.Fits, if_neg swapped] at there
        exact .positional swapped (first.reads there) (ih others)
  | named first _ ih =>
      obtain ⟨value, others⟩ := List.forall_mem_cons.mp fits
      exact .named (first.reads value) (ih others)

end Cells

/-- What an assignment takes from its sides makes it a statement. -/
theorem assigned {id : NodeId} {span : Span} {left right : Node} {qualifier : Qualifier} {dest : Destination}
    (source : Admits scope right fragment)
    (places : Lower.Makes.Overwrites scope dest → Places scope.program scope.function left) :
    Ensures scope (fun _ => Statement scope.program scope.function (.mk id span (.assign left right qualifier)))
      (Lower.assign qualifier fragment dest) := by
  cases qualifier with
  | swap =>
      exact .bind .expectPlace fun _ place => .weaken .assignSwap fun _ there => .exchange (places there) (source.places place)
  | none | move =>
      exact .bind .expectValue fun _ value => .weaken .assignValue fun _ there =>
        .assign nofun (places there) (source.reads value)

mutual

theorem node_admits (inNew : Bool) (access : Access) : (node : Node) → Ensures scope (Admits scope node) (node.lower inNew access)
  | .mk id span kind => by
      unfold Node.lower
      split
      · exact .bind .read fun _ _ => .throw
      · refine .bind .any fun _ (_ : True) => .bind (kind_admits _ access id span kind) fun fragment admits => ?_
        cases fragment with
        | code body => exact .map .any fun _ (_ : True) => admits
        | value _ | place _ => exact .pure admits

theorem kind_admits (inNew : Bool) (access : Access) (id : NodeId) (span : Span) :
    (kind : NodeKind) → Ensures scope (Admits scope (.mk id span kind)) (kind.lower inNew access span)
  | .name ref => by
      cases ref with
      | slot index =>
          cases access with
          | read => exact .pure .name
          | write => exact .pure .slot
      | field index =>
          cases access with
          | read => exact .pure .name
          | write => exact .pure .actorField
      | event _ | enumConst _ => exact .weaken .readOnly fun _ => .of_value .name
  | .lit _ => .weaken .readOnly fun _ => .of_value .literal
  | .nondet _ => by
      cases access with
      | read => exact .bind .any fun _ (_ : True) => .pure .nondet
      | write => exact .unexpected
  | .unary _ arg =>
      .bind (node_admits inNew .read arg) fun _ operand => .bind .expectValue fun _ value =>
        .weaken .readOnly fun _ => .of_value (.unary (operand.reads value))
  | .binary op lhs rhs => by
      unfold NodeKind.lower
      split
      · rename_i same
        subst same
        refine .bind (node_admits inNew access lhs) fun _ container => .bind (node_admits inNew .read rhs) fun _ key =>
          .bind .containerKind fun _ indexes => ?_
        cases access with
        | read =>
            exact .bind .expectValue fun _ value => .bind .expectValue fun _ position =>
              .pure (.index (container.reads value) indexes (key.reads position))
        | write =>
            exact .bind .expectPlace fun _ place => .bind .expectValue fun _ position =>
              .pure (.index (container.places place) indexes (key.reads position))
      · rename_i computed
        exact .bind (node_admits inNew .read lhs) fun _ first => .bind (node_admits inNew .read rhs) fun _ second =>
          .bind .expectValue fun _ left => .bind .expectValue fun _ right =>
            .weaken .readOnly fun _ => .of_value (.binary computed (first.reads left) (second.reads right))
  | .field base sel => by
      refine .bind (node_admits inNew access base) fun _ container => .bind .fieldIndex fun _ selects => ?_
      cases access with
      | read => exact .bind .expectValue fun _ value => .pure (.field (container.reads value) selects)
      | write => exact .bind .expectPlace fun _ place => .pure (.field (container.places place) selects)
  | .tuple list =>
      .bind .any fun _ (_ : True) => .bind (cell_admits inNew false list) fun _ cells =>
        .bind (.mapM fun _ => .transferred) fun _ values => .weaken .readOnly fun _ => .of_value (.tuple (cells.items values))
  | .namedTuple list =>
      .bind .any fun _ (_ : True) => .bind (cell_admits inNew false list) fun _ cells =>
        .bind (.mapM fun _ => .namedField) fun _ named =>
          .weaken .readOnly fun _ => .of_value (.namedTuple (cells.fields named))
  | .default _ => .weaken .readOnly fun _ => .of_value .default
  | .cast expr _ =>
      .bind (node_admits inNew .read expr) fun _ operand => .bind .expectValue fun _ value =>
        .weaken .readOnly fun _ => .of_value (.cast (operand.reads value))
  | .app _ args =>
      .bind .any fun _ (_ : True) => .bind (items_admitted inNew false args) fun _ cells => .bind .checkFunction fun _ known =>
        .bind (.mapM fun _ => .argument) fun _ values =>
          .weaken .readOnly fun _ => .of_value (.app known (cells.items values))
  | .exprs _ _ _ => .unexpected
  | .namedExprs _ _ _ => .unexpected
  | .new _ args out =>
      .bind .any fun _ (_ : True) => .bind (items_admitted inNew false args) fun _ cells =>
        .bind (optional_admits inNew .write out) fun _ part => .map .new fun _ fits =>
          Statement.new (cells.items fits.1) (part.places fits.2)
  | .call _ args out =>
      .bind .any fun _ (_ : True) => .bind (items_admitted inNew true args) fun _ cells =>
        .bind (optional_admits inNew .write out) fun _ part => .map .call fun _ fits =>
          Statement.call fits.1 (cells.arguments fits.2.1) (part.places fits.2.2)
  | .goto _ args =>
      .bind .any fun _ (_ : True) => .bind (items_admitted inNew false args) fun _ cells => .bind .payload fun _ values =>
        .pure (.goto (cells.items values))
  | .raise event args =>
      .bind .any fun _ (_ : True) => .bind (node_admits inNew .read event) fun _ alarm =>
        .bind (items_admitted inNew false args) fun _ cells => .map .raise fun _ fits =>
          Statement.raise (alarm.reads fits.1) (cells.items fits.2)
  | .send target event args =>
      .bind .any fun _ (_ : True) => .bind (node_admits inNew .read target) fun _ receiver =>
        .bind (node_admits inNew .read event) fun _ letter => .bind (items_admitted inNew false args) fun _ cells =>
          .map .send fun _ fits => Statement.send (receiver.reads fits.1) (letter.reads fits.2.1) (cells.items fits.2.2)
  | .announce event args =>
      .bind .any fun _ (_ : True) => .bind (node_admits inNew .read event) fun _ letter =>
        .bind (items_admitted inNew false args) fun _ cells => .bind .expectValue fun _ value => .bind .payload fun _ values =>
          .pure (.announce (letter.reads value) (cells.items values))
  | .receive _ => .map .receive fun _ handled => Statement.receive handled
  | .assert cond _ =>
      .bind (node_admits inNew .read cond) fun _ test => .bind .expectValue fun _ value => .bind .any fun _ (_ : True) =>
        .pure (.assert (test.reads value))
  | .print _ args =>
      .bind .any fun _ (_ : True) => .bind (items_admitted inNew false args) fun _ cells =>
        .bind (.mapM fun _ => .expectValue) fun _ values => .pure (.print (cells.items values))
  | .assign lhs rhs qualifier =>
      .bind (node_admits inNew _ rhs) fun source admits => .bind (selection_admits inNew lhs) fun selection places => by
        cases selection with
        | some dest => exact .map (assigned admits (places dest rfl)) fun _ statement => statement
        | none => exact .bind (node_admits inNew .write lhs) fun dest placed => .map (assigned admits placed.places) fun _ statement => statement
  | .remove target key =>
      .bind (node_admits inNew .read key) fun _ position => .bind (node_admits inNew .write target) fun _ container =>
        .bind .expectValue fun _ value => .bind .expectPlace fun _ place => .bind .containerKind fun _ indexes =>
          .pure (.remove (container.places place) indexes (position.reads value))
  | .insert target entry =>
      .bind (node_admits inNew .read entry) fun _ added => .bind (node_admits inNew .write target) fun _ container =>
        .bind .expectValue fun _ value => .bind .expectPlace fun _ place => .bind .containerKind fun _ indexes =>
          .pure (.insert (container.places place) indexes (added.reads value))
  | .pop => .pure .pop
  | .ret value =>
      .bind (optional_admits inNew .read value) fun _ part => .bind (.optionMapM fun _ => .expectValue) fun _ values =>
        .pure (.ret (part.reads values))
  | .loop cond body =>
      .bind (node_admits inNew .read cond) fun _ test => .bind (node_admits inNew .read body) fun _ inner =>
        .map .loop fun _ fits => Statement.loop (test.reads fits.1) (inner.statement fits.2)
  | .branch cond onTrue onFalse =>
      .bind (node_admits inNew .read cond) fun _ test => .bind (node_admits inNew .read onTrue) fun _ whenTrue =>
        .bind (optional_admits inNew .read onFalse) fun _ part => .map .branch fun _ fits =>
          Statement.branch (test.reads fits.1) (whenTrue.statement fits.2.1) (part.statements fits.2.2)
  | .seq first rest =>
      .bind (node_admits inNew .read first) fun _ before => .bind (node_admits inNew .read rest) fun _ after =>
        .bind .expectCode fun _ coded => .bind .expectCode fun _ others =>
          .pure (.seq (before.statement coded) (after.statement others))
  | .block statements =>
      .bind (all_admitted inNew statements) fun _ each => .bind (.mapM fun _ => .expectCode) fun _ codes =>
        .pure (.block (each codes))

theorem selection_admits (inNew : Bool) : (node : Node) → Ensures scope (fun selection => ∀ dest ∈ selection,
    Lower.Makes.Overwrites scope dest → Places scope.program scope.function node) (node.lowerSelection inNew)
  | .mk id span kind => by
      cases kind with
      | binary op base key =>
          cases op with
          | index =>
              refine .bind (node_admits inNew .write base) fun _ container =>
                .bind (node_admits inNew .read key) fun _ position => .pure ?_
              rintro _ ⟨⟩ ⟨indexes, place, value⟩
              exact .index (container.places place) indexes (position.reads value)
          | _ => exact .pure nofun
      | field base sel =>
          refine .bind (node_admits inNew .write base) fun _ container => .pure ?_
          rintro _ ⟨⟩ ⟨selects, place⟩
          exact .field (container.places place) selects
      | _ => exact .pure nofun

theorem cell_admits (inNew swapsWrite : Bool) : (cell : Node) → Ensures scope (Cells scope (some cell)) (cell.lowerCell inNew swapsWrite)
  | .mk id span kind => by
      cases kind with
      | exprs qualifier head tail =>
          exact .bind (node_admits inNew _ head) fun _ first => .bind (items_admitted inNew swapsWrite tail) fun _ rest =>
            .pure (.positional first rest)
      | namedExprs name head tail =>
          exact .bind (node_admits inNew .read head) fun _ first => .bind (items_admitted inNew swapsWrite tail) fun _ rest =>
            .pure (.named first rest)
      | _ => exact .unexpected

theorem items_admitted (inNew swapsWrite : Bool) : (list : Option Node) → Ensures scope (Cells scope list) (lowerItems inNew swapsWrite list)
  | none => .pure .nil
  | some cell => cell_admits inNew swapsWrite cell

theorem optional_admits (inNew : Bool) (access : Access) : (node : Option Node) →
    Ensures scope (Part scope node) (lowerOptional inNew access node)
  | none => .pure nofun
  | some node => .map (node_admits inNew access node) fun fragment admits _ same =>
      ⟨fragment, rfl, Option.some.inj same ▸ admits⟩

theorem all_admitted (inNew : Bool) : (nodes : List Node) → Ensures scope (fun parts => (∀ part ∈ parts, part.IsCode) →
    ∀ node ∈ nodes, Statement scope.program scope.function node) (lowerAll inNew nodes)
  | [] => .pure fun _ => nofun
  | node :: rest => .bind (node_admits inNew .read node) fun _ first => .bind (all_admitted inNew rest) fun _ others =>
      .pure fun codes =>
        have each := List.forall_mem_cons.mp codes
        List.forall_mem_cons.mpr ⟨first.statement each.1, others each.2⟩

end

end Grammar

end Reentry
