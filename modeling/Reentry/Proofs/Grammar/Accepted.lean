import Reentry.Proofs.Grammar.Forms
import Reentry.Proofs.Lowering.Monad

/-!
What is in the grammar can be lowered. A step of lowering that comes to a result from every progress made so far lets the
steps after it do so; so of every form it is enough that its parts can be lowered and that what they are lowered to fits.
-/

namespace Reentry

namespace Fragment

def IsValue (fragment : Fragment) : Prop := ∃ operand, fragment = .value operand

def IsPlace (fragment : Fragment) : Prop := ∃ place, fragment = .place place

def IsCode (fragment : Fragment) : Prop := ∃ body, fragment = .code body

end Fragment

/-- The element of an argument list is there as what is done with it: swapped as a place, handed over as a value. -/
def ListItem.Fits (item : ListItem) : Prop :=
  if item.qualifier = .swap then item.fragment.IsPlace else item.fragment.IsValue

namespace Lower

/-- From every progress the work comes to a result, and a good one. -/
def Makes {α : Type} (scope : Lowering.Scope) (good : α → Prop) (work : Lower α) : Prop :=
  ∀ start, ∃ result stop, work scope start = .ok (result, stop) ∧ good result

/-- From every progress the work comes to a result. -/
abbrev Succeeds {α : Type} (scope : Lowering.Scope) (work : Lower α) : Prop :=
  Makes scope (fun _ => True) work

namespace Makes

variable {α β : Type} {scope : Lowering.Scope} {good : α → Prop} {better : β → Prop}

theorem pure {value : α} (holds : good value) : Makes scope good (pure value) := fun start =>
  ⟨value, start, rfl, holds⟩

theorem bind {work : Lower α} {rest : α → Lower β} (first : Makes scope good work)
    (later : ∀ value, good value → Makes scope better (rest value)) : Makes scope better (work >>= rest) := by
  intro start
  obtain ⟨value, between, made, holds⟩ := first start
  obtain ⟨result, stop, finished, fits⟩ := later value holds between
  exact ⟨result, stop, bind_eq_ok.mpr ⟨value, between, made, finished⟩, fits⟩

theorem map {work : Lower α} {change : α → β} (first : Makes scope good work)
    (fits : ∀ value, good value → better (change value)) : Makes scope better (change <$> work) := by
  intro start
  obtain ⟨value, stop, made, holds⟩ := first start
  exact ⟨change value, stop, map_eq_ok.mpr ⟨value, made, rfl⟩, fits value holds⟩

theorem mapM {work : β → Lower α} {items : List β} (each : ∀ item ∈ items, Succeeds scope (work item)) :
    Succeeds scope (items.mapM work) := by
  induction items with
  | nil => exact pure trivial
  | cons item rest ih =>
      rw [List.mapM_cons]
      refine bind (each item (by simp)) fun _ _ => bind (ih fun other member => each other (by simp [member])) ?_
      exact fun _ _ => pure trivial

theorem forM {work : β → Lower PUnit} {items : List β} (each : ∀ item ∈ items, Succeeds scope (work item)) :
    Succeeds scope (items.forM work) := by
  induction items with
  | nil => exact pure trivial
  | cons item rest ih =>
      exact bind (each item (by simp)) fun _ _ => ih fun other member => each other (by simp [member])

theorem optionMapM {work : β → Lower α} {item : Option β} (each : ∀ part ∈ item, Succeeds scope (work part)) :
    Succeeds scope (item.mapM work) := by
  cases item with
  | none => exact pure trivial
  | some part => exact map (each part rfl) fun _ _ => trivial

theorem read : Makes scope (scope = ·) read := fun start => ⟨scope, start, rfl, rfl⟩

theorem freshLabel : Succeeds scope freshLabel := fun _ => ⟨_, _, rfl, trivial⟩

theorem freshMark : Succeeds scope freshMark := fun _ => ⟨_, _, rfl, trivial⟩

theorem freshChoice : Succeeds scope freshChoice := fun _ => ⟨_, _, rfl, trivial⟩

theorem expectValue {fragment : Fragment} (value : fragment.IsValue) : Succeeds scope (expectValue fragment) := by
  obtain ⟨operand, rfl⟩ := value
  exact pure trivial

theorem expectPlace {fragment : Fragment} (placed : fragment.IsPlace) : Succeeds scope (expectPlace fragment) := by
  obtain ⟨place, rfl⟩ := placed
  exact pure trivial

theorem expectCode {fragment : Fragment} (coded : fragment.IsCode) : Succeeds scope (expectCode fragment) := by
  obtain ⟨body, rfl⟩ := coded
  exact pure trivial

theorem readOnly (operand : Operand) : Makes scope Fragment.IsValue (readOnly .read operand) :=
  pure ⟨operand, rfl⟩

theorem located (span : Span) (message : String) : Succeeds scope (located span message) := by
  refine bind read fun _ _ => ?_
  split <;> exact pure trivial

theorem checkFunction {callee : FunctionId} (known : Grammar.Known scope.program callee) :
    Succeeds scope (checkFunction callee) := by
  refine bind read fun _ same => ?_
  subst same
  have found : (scope.program.function? callee).isNone = false := by simpa [Grammar.Known] using known
  rw [if_neg (by simp [found])]
  exact pure trivial

theorem typeOf {node : NodeId} {ty : Ty} (annotated : scope.function.typeOf? node = some ty) :
    Makes scope (ty = ·) (typeOf node) := by
  refine bind read fun _ same => ?_
  subst same
  simp only [annotated]
  exact pure rfl

theorem containerKind {node : NodeId} (indexes : scope.function.Indexes node) : Succeeds scope (containerKind node) := by
  obtain ⟨ty, annotated, kind⟩ := indexes
  refine bind (typeOf annotated) fun _ same => ?_
  subst same
  cases ty <;> first | exact pure trivial | simp [Ty.isSeq, Ty.isMap] at kind

theorem fieldIndex {base : NodeId} {sel : FieldSel} (selects : scope.function.Selects base sel) :
    Succeeds scope (fieldIndex base sel) := by
  cases sel with
  | index position => exact pure trivial
  | name name =>
      obtain ⟨fields, annotated, member⟩ := selects
      refine bind (typeOf annotated) fun _ same => ?_
      subst same
      have found : ((Ty.named fields).fieldIndex? name).isSome := by
        obtain ⟨field, among, rfl⟩ := List.mem_map.mp member
        simp only [Ty.fieldIndex?, List.findIdx?_isSome, List.any_eq_true]
        exact ⟨field, among, by simp⟩
      obtain ⟨position, found⟩ := Option.isSome_iff_exists.mp found
      simp only [found]
      exact pure trivial

theorem index {base : NodeId} {container key : Fragment} (indexes : scope.function.Indexes base)
    (value : container.IsValue) (position : key.IsValue) : Makes scope Fragment.IsValue (index .read base container key) :=
  bind (containerKind indexes) fun _ _ => bind (expectValue value) fun _ _ => bind (expectValue position) fun _ _ =>
    pure ⟨_, rfl⟩

theorem indexPlace {base : NodeId} {container key : Fragment} (indexes : scope.function.Indexes base)
    (placed : container.IsPlace) (position : key.IsValue) : Makes scope Fragment.IsPlace (Lower.index .write base container key) :=
  bind (containerKind indexes) fun _ _ => bind (expectPlace placed) fun _ _ => bind (expectValue position) fun _ _ =>
    pure ⟨_, rfl⟩

theorem field {base : NodeId} {sel : FieldSel} {container : Fragment} (selects : scope.function.Selects base sel)
    (value : container.IsValue) : Makes scope Fragment.IsValue (field .read base sel container) :=
  bind (fieldIndex selects) fun _ _ => bind (expectValue value) fun _ _ => pure ⟨_, rfl⟩

theorem fieldPlace {base : NodeId} {sel : FieldSel} {container : Fragment} (selects : scope.function.Selects base sel)
    (placed : container.IsPlace) : Makes scope Fragment.IsPlace (Lower.field .write base sel container) :=
  bind (fieldIndex selects) fun _ _ => bind (expectPlace placed) fun _ _ => pure ⟨_, rfl⟩

section Items

variable {items : List ListItem}

theorem transferred {item : ListItem} (value : item.fragment.IsValue) : Succeeds scope item.transferred :=
  bind (expectValue value) fun _ _ => pure trivial

theorem argument {item : ListItem} (value : item.fragment.IsValue) : Succeeds scope item.argument :=
  bind (transferred value) fun _ _ => pure trivial

theorem namedField {item : ListItem} (value : item.fragment.IsValue) (named : item.name.isSome) :
    Succeeds scope item.namedField := by
  obtain ⟨name, known⟩ := Option.isSome_iff_exists.mp named
  simp only [ListItem.namedField, known]
  exact bind (transferred value) fun _ _ => pure trivial

theorem payload (values : ∀ item ∈ items, item.fragment.IsValue) : Succeeds scope (payload items) :=
  bind (mapM fun item member => transferred (values item member)) fun _ _ => pure trivial

theorem callArguments {slot : Nat} (fits : ∀ item ∈ items, item.Fits) : Succeeds scope (callArguments slot items) := by
  induction items generalizing slot with
  | nil => exact pure trivial
  | cons item rest ih =>
      have first : item.Fits := fits item (by simp)
      have later : Succeeds scope (Lower.callArguments (slot + 1) rest) :=
        ih fun other member => fits other (by simp [member])
      unfold Lower.callArguments
      split
      · rename_i swapped
        rw [ListItem.Fits, if_pos swapped] at first
        exact bind (expectPlace first) fun _ _ => bind later fun _ _ => pure trivial
      · rename_i handed
        rw [ListItem.Fits, if_neg handed] at first
        exact bind (argument first) fun _ _ => bind later fun _ _ => pure trivial

end Items

/-- What an assignment overwrites is there: a container as a place, a key as a value, and the node tells how to select. -/
def Overwrites (scope : Lowering.Scope) : Destination → Prop
  | .element base container key => scope.function.Indexes base ∧ container.IsPlace ∧ key.IsValue
  | .part base sel container => scope.function.Selects base sel ∧ container.IsPlace
  | .whole dest => dest.IsPlace

theorem assignValue {dest : Destination} (there : Overwrites scope dest) (value : Operand) :
    Succeeds scope (assignValue value dest) := by
  cases dest with
  | element base container key =>
      exact bind (expectPlace there.2.1) fun _ _ => bind (expectValue there.2.2) fun _ _ =>
        bind (containerKind there.1) fun _ _ => pure trivial
  | part base sel container =>
      exact bind (expectPlace there.2) fun _ _ => bind (fieldIndex there.1) fun _ _ => pure trivial
  | whole dest => exact bind (expectPlace there) fun _ _ => pure trivial

theorem assignSwap {dest : Destination} (there : Overwrites scope dest) (source : Place) :
    Succeeds scope (assignSwap source dest) := by
  cases dest with
  | element base container key =>
      exact bind (expectPlace there.2.1) fun _ _ => bind (expectValue there.2.2) fun _ _ =>
        bind (containerKind there.1) fun _ _ => pure trivial
  | part base sel container =>
      exact bind (expectPlace there.2) fun _ _ => bind (fieldIndex there.1) fun _ _ => pure trivial
  | whole dest => exact bind (expectPlace there) fun _ _ => pure trivial

theorem assign {qualifier : Qualifier} {source : Fragment} {dest : Destination} (handed : qualifier ≠ .swap)
    (value : source.IsValue) (there : Overwrites scope dest) : Succeeds scope (assign qualifier source dest) := by
  cases qualifier with
  | swap => exact absurd rfl handed
  | none | move => exact bind (expectValue value) fun _ _ => assignValue there _

theorem exchange {source : Fragment} {dest : Destination} (placed : source.IsPlace) (there : Overwrites scope dest) :
    Succeeds scope (Lower.assign .swap source dest) :=
  bind (expectPlace placed) fun _ _ => assignSwap there _

theorem out {fragment : Option Fragment} (placed : ∀ part ∈ fragment, part.IsPlace) :
    Succeeds scope (fragment.mapM Lower.expectPlace) :=
  optionMapM fun part member => expectPlace (placed part member)

theorem new {machine : MachineTypeId} {items : List ListItem} {dest : Option Fragment}
    (values : ∀ item ∈ items, item.fragment.IsValue) (placed : ∀ part ∈ dest, part.IsPlace) :
    Succeeds scope (new machine items dest) :=
  bind (payload values) fun _ _ => bind (out placed) fun _ _ => bind freshLabel fun _ _ => pure trivial

theorem call {callee : FunctionId} {items : List ListItem} {dest : Option Fragment}
    (known : Grammar.Known scope.program callee) (fits : ∀ item ∈ items, item.Fits) (placed : ∀ part ∈ dest, part.IsPlace) :
    Succeeds scope (call callee items dest) :=
  bind (checkFunction known) fun _ _ => bind (callArguments fits) fun _ _ => bind (out placed) fun _ _ =>
    bind freshLabel fun _ _ => pure trivial

theorem raise {span : Span} {event : Fragment} {items : List ListItem} (value : event.IsValue)
    (values : ∀ item ∈ items, item.fragment.IsValue) : Succeeds scope (raise span event items) :=
  bind (expectValue value) fun _ _ => bind (payload values) fun _ _ => bind (located _ _) fun _ _ => pure trivial

theorem send {span : Span} {target event : Fragment} {items : List ListItem} (receiver : target.IsValue)
    (value : event.IsValue) (values : ∀ item ∈ items, item.fragment.IsValue) : Succeeds scope (send span target event items) :=
  bind (expectValue receiver) fun _ _ => bind (expectValue value) fun _ _ => bind (payload values) fun _ _ =>
    bind (located _ _) fun _ _ => bind freshLabel fun _ _ => pure trivial

theorem receive {cases : List ReceiveCase} (handled : ∀ case ∈ cases, Grammar.Known scope.program case.handler) :
    Succeeds scope (receive cases) :=
  bind (forM fun case member => checkFunction (handled case member)) fun _ _ => bind freshLabel fun _ _ =>
    bind freshLabel fun _ _ => bind (mapM fun _ _ => bind freshLabel fun _ _ => pure trivial) fun _ _ => pure trivial

theorem loop {cond body : Fragment} (value : cond.IsValue) (coded : body.IsCode) : Succeeds scope (loop cond body) :=
  bind (expectValue value) fun _ _ => bind (expectCode coded) fun _ _ => bind freshMark fun _ _ =>
    bind freshMark fun _ _ => pure trivial

theorem branch {cond onTrue : Fragment} {onFalse : Option Fragment} (value : cond.IsValue) (coded : onTrue.IsCode)
    (otherwise : ∀ part ∈ onFalse, part.IsCode) : Succeeds scope (branch cond onTrue onFalse) := by
  refine bind (expectValue value) fun _ _ => bind (expectCode coded) fun _ _ => bind freshMark fun _ _ => ?_
  cases onFalse with
  | none => exact pure trivial
  | some part => exact bind (expectCode (otherwise part rfl)) fun _ _ => bind freshMark fun _ _ => pure trivial

theorem settleChoices (isLoop : Bool) (kept : Nat) (code : List Instr) : Succeeds scope (settleChoices isLoop kept code) :=
  bind (fun _ => ⟨_, _, rfl, trivial⟩) fun _ (_ : True) =>
    bind (mapM fun _ _ => bind freshLabel fun _ _ => pure trivial) fun _ _ => pure trivial

variable {id : NodeId} {span : Span} {kind : NodeKind} {inNew : Bool} {access : Access}

/-- A node that is not lowered to code is lowered as its form is. -/
theorem expression {good : Fragment → Prop} (plain : kind.isNew = false) (bare : ∀ code, ¬good (.code code))
    (made : Makes scope good (kind.lower inNew access span)) : Makes scope good ((Node.mk id span kind).lower inNew access) := by
  unfold Node.lower
  simp only [plain, Bool.false_and, Bool.false_eq_true, if_false, Bool.or_false]
  refine bind (fun start => ⟨start, start, rfl, trivial⟩) fun _ (_ : True) => bind made fun fragment fits => ?_
  cases fragment with
  | code code => exact absurd fits (bare code)
  | value _ | place _ => exact pure fits

theorem value (plain : kind.isNew = false) (made : Makes scope Fragment.IsValue (kind.lower inNew access span)) :
    Makes scope Fragment.IsValue ((Node.mk id span kind).lower inNew access) :=
  expression plain (fun _ ⟨_, same⟩ => nomatch same) made

theorem place (plain : kind.isNew = false) (made : Makes scope Fragment.IsPlace (kind.lower inNew access span)) :
    Makes scope Fragment.IsPlace ((Node.mk id span kind).lower inNew access) :=
  expression plain (fun _ ⟨_, same⟩ => nomatch same) made

theorem code (made : Makes scope Fragment.IsCode (kind.lower kind.isNew access span)) :
    Makes scope Fragment.IsCode ((Node.mk id span kind).lower false access) := by
  unfold Node.lower
  simp only [Bool.and_false, Bool.false_eq_true, if_false, Bool.false_or]
  refine bind (fun start => ⟨start, start, rfl, trivial⟩) fun _ (_ : True) => bind made fun fragment fits => ?_
  obtain ⟨body, rfl⟩ := fits
  exact map (settleChoices _ _ body) fun code _ => ⟨code, rfl⟩

theorem coded {work : Lower (List Instr)} (made : Succeeds scope work) : Makes scope Fragment.IsCode (.code <$> work) :=
  map made fun body _ => ⟨body, rfl⟩

end Makes

end Lower

namespace Grammar

open Lower

variable {scope : Lowering.Scope}

mutual

/-- What is read is lowered to a value. -/
theorem Reads.lowered {node : Node} (inNew : Bool) : Reads scope.program scope.function node →
    Makes scope Fragment.IsValue (node.lower inNew .read)
  | .name => .value rfl (by cases ‹VarRef› <;> exact .pure ⟨_, rfl⟩)
  | .literal => .value rfl (.readOnly _)
  | .nondet => .value rfl (.bind .freshChoice fun _ _ => .pure ⟨_, rfl⟩)
  | .default => .value rfl (.readOnly _)
  | .unary operand => .value rfl (.bind (operand.lowered inNew) fun _ value => .bind (.expectValue value) fun _ _ => .readOnly _)
  | .binary computed first second => .value rfl <| by
      rw [NodeKind.lower, if_neg computed]
      exact .bind (first.lowered inNew) fun _ left => .bind (second.lowered inNew) fun _ right =>
        .bind (.expectValue left) fun _ _ => .bind (.expectValue right) fun _ _ => .readOnly _
  | .index container indexes position => .value rfl <| by
      rw [NodeKind.lower, if_pos rfl]
      exact .bind (container.lowered inNew) fun _ value => .bind (position.lowered inNew) fun _ key =>
        .index indexes value key
  | .field container selects => .value rfl (.bind (container.lowered inNew) fun _ value => .field selects value)
  | .cast operand => .value rfl (.bind (operand.lowered inNew) fun _ value => .bind (.expectValue value) fun _ _ => .readOnly _)
  | .tuple items => .value rfl <|
      .bind items.checked fun _ _ => .bind (items.lowered inNew) fun _ values =>
        .bind (.mapM fun item member => .transferred (values item member)) fun _ _ => .readOnly _
  | .namedTuple fields => .value rfl <|
      .bind fields.checked fun _ _ => .bind (fields.lowered inNew) fun _ values =>
        .bind (.mapM fun item member => .namedField (values item member).1 (values item member).2) fun _ _ => .readOnly _
  | .app known items => .value rfl <|
      .bind items.checked fun _ _ => .bind (items.lowered inNew) fun _ values => .bind (.checkFunction known) fun _ _ =>
        .bind (.mapM fun item member => .argument (values item member)) fun _ _ => .readOnly _

theorem Items.lowered {list : Option Node} (inNew : Bool) : Items scope.program scope.function list →
    Makes scope (fun items => ∀ item ∈ items, item.fragment.IsValue) (lowerItems inNew false list)
  | .nil => .pure nofun
  | .positional first rest => .bind (first.lowered inNew) fun _ value => .bind (rest.lowered inNew) fun _ values =>
      .pure (List.forall_mem_cons.mpr ⟨value, values⟩)
  | .named first rest => .bind (first.lowered inNew) fun _ value => .bind (rest.lowered inNew) fun _ values =>
      .pure (List.forall_mem_cons.mpr ⟨value, values⟩)

theorem Items.checked {list : Option Node} : Items scope.program scope.function list → Succeeds scope (checkList list)
  | .nil => .pure trivial
  | .positional _ rest => rest.checked
  | .named _ rest => rest.checked

theorem Fields.lowered {list : Option Node} (inNew : Bool) : Fields scope.program scope.function list →
    Makes scope (fun items => ∀ item ∈ items, item.fragment.IsValue ∧ item.name.isSome) (lowerItems inNew false list)
  | .nil => .pure nofun
  | .named first rest => .bind (first.lowered inNew) fun _ value => .bind (rest.lowered inNew) fun _ values =>
      .pure (List.forall_mem_cons.mpr ⟨⟨value, rfl⟩, values⟩)

theorem Fields.checked {list : Option Node} : Fields scope.program scope.function list → Succeeds scope (checkList list)
  | .nil => .pure trivial
  | .named _ rest => rest.checked

end

/-- What names a place is lowered to one. -/
theorem Places.lowered {node : Node} (inNew : Bool) (placed : Places scope.program scope.function node) :
    Makes scope Fragment.IsPlace (node.lower inNew .write) := by
  induction placed with
  | slot => exact .place rfl (.pure ⟨_, rfl⟩)
  | actorField => exact .place rfl (.pure ⟨_, rfl⟩)
  | index _ indexes position container =>
      refine .place rfl ?_
      rw [NodeKind.lower, if_pos rfl]
      exact .bind container fun _ place => .bind (position.lowered inNew) fun _ key => .indexPlace indexes place key
  | field _ selects container => exact .place rfl (.bind container fun _ place => .fieldPlace selects place)

namespace Arguments

variable {list : Option Node}

theorem lowered (inNew : Bool) (arguments : Arguments scope.program scope.function list) :
    Makes scope (fun items => ∀ item ∈ items, item.Fits) (lowerItems inNew true list) := by
  induction arguments with
  | nil => exact .pure nofun
  | swapped first _ rest =>
      exact .bind (first.lowered inNew) fun _ placed => .bind rest fun _ fits =>
        .pure (List.forall_mem_cons.mpr ⟨placed, fits⟩)
  | @positional _ _ qualifier _ _ handed first _ rest =>
      have read : (if true && qualifier = .swap then Access.write else .read) = .read := by simp [handed]
      unfold lowerItems Node.lowerCell
      rw [read]
      refine .bind (first.lowered inNew) fun _ value => .bind rest fun _ fits =>
        .pure (List.forall_mem_cons.mpr ⟨?_, fits⟩)
      rw [ListItem.Fits, if_neg handed]
      exact value
  | named first _ rest =>
      exact .bind (first.lowered inNew) fun _ value => .bind rest fun _ fits =>
        .pure (List.forall_mem_cons.mpr ⟨value, fits⟩)

theorem checked (arguments : Arguments scope.program scope.function list) : Succeeds scope (checkList list) := by
  induction arguments with
  | nil => exact .pure trivial
  | swapped _ _ rest | positional _ _ _ rest | named _ _ rest => exact rest

end Arguments

/-- A list of possible parts, each of which can be lowered, is lowered. -/
theorem optional_lowered {inNew : Bool} {access : Access} {good : Fragment → Prop} {node : Option Node}
    (each : ∀ part ∈ node, Makes scope good (part.lower inNew access)) :
    Makes scope (fun fragment => ∀ part ∈ fragment, good part) (lowerOptional inNew access node) := by
  cases node with
  | none => exact .pure nofun
  | some part => exact .map (each part rfl) fun fragment fits => by simpa using fits

theorem out_lowered {inNew : Bool} {out : Option Node} (placed : ∀ node ∈ out, Places scope.program scope.function node) :
    Makes scope (fun fragment => ∀ part ∈ fragment, part.IsPlace) (lowerOptional inNew .write out) :=
  optional_lowered fun part member => (placed part member).lowered inNew

theorem all_lowered {statements : List Node}
    (each : ∀ node ∈ statements, Makes scope Fragment.IsCode (node.lower false .read)) :
    Makes scope (fun parts => ∀ part ∈ parts, part.IsCode) (lowerAll false statements) := by
  induction statements with
  | nil => exact .pure nofun
  | cons node rest ih =>
      exact .bind (each node (by simp)) fun _ coded => .bind (ih fun other member => each other (by simp [member])) fun _ codes =>
        .pure (List.forall_mem_cons.mpr ⟨coded, codes⟩)

/-- An index and a field are taken apart from their container before they are overwritten. -/
theorem Places.selected {node : Node} (inNew : Bool) (placed : Places scope.program scope.function node) :
    Makes scope (fun selection => ∀ dest ∈ selection, Makes.Overwrites scope dest) (node.lowerSelection inNew) := by
  cases placed with
  | index container indexes position =>
      exact .bind (container.lowered inNew) fun _ place => .bind (position.lowered inNew) fun _ key =>
        .pure fun dest same => Option.some.inj same ▸ ⟨indexes, place, key⟩
  | field container selects =>
      exact .bind (container.lowered inNew) fun _ place => .pure fun dest same => Option.some.inj same ▸ ⟨selects, place⟩
  | slot | actorField => exact .pure nofun

/-- The source of an assignment is lowered before what it overwrites. -/
theorem assignment_lowered {left right : Node} {qualifier : Qualifier} {span : Span} {source : Fragment → Prop}
    (placed : Places scope.program scope.function left)
    (read : Makes scope source (right.lower false (if qualifier = .swap then .write else .read)))
    (assigned : ∀ fragment dest, source fragment → Makes.Overwrites scope dest →
      Succeeds scope (Lower.assign qualifier fragment dest)) :
    Makes scope Fragment.IsCode ((NodeKind.assign left right qualifier).lower false .read span) := by
  refine .bind read fun fragment fits => .bind (placed.selected false) fun selection there => ?_
  cases selection with
  | some dest => exact .coded (assigned fragment dest fits (there dest rfl))
  | none =>
      exact .bind (placed.lowered false) fun dest whole => .coded (assigned fragment (.whole dest) fits whole)

/-- Statements are lowered to code. -/
theorem Statement.lowered {node : Node} : Statement scope.program scope.function node →
    Makes scope Fragment.IsCode (node.lower false .read)
  | .new items dest => .code <|
      .bind items.checked fun _ _ => .bind (items.lowered true) fun _ values => .bind (out_lowered dest) fun _ placed =>
        .coded (.new values placed)
  | .call known items dest => .code <|
      .bind items.checked fun _ _ => .bind (items.lowered false) fun _ fits => .bind (out_lowered dest) fun _ placed =>
        .coded (.call known fits placed)
  | .goto items => .code <|
      .bind items.checked fun _ _ => .bind (items.lowered false) fun _ values => .bind (.payload values) fun _ _ => .pure ⟨_, rfl⟩
  | .raise alarm items => .code <|
      .bind items.checked fun _ _ => .bind (alarm.lowered false) fun _ event => .bind (items.lowered false) fun _ values =>
        .coded (.raise event values)
  | .send receiver letter items => .code <|
      .bind items.checked fun _ _ => .bind (receiver.lowered false) fun _ target => .bind (letter.lowered false) fun _ event =>
        .bind (items.lowered false) fun _ values => .coded (.send target event values)
  | .announce letter items => .code <|
      .bind items.checked fun _ _ => .bind (letter.lowered false) fun _ event => .bind (items.lowered false) fun _ values =>
        .bind (.expectValue event) fun _ _ => .bind (.payload values) fun _ _ => .pure ⟨_, rfl⟩
  | .receive handled => .code (.coded (.receive handled))
  | .assert test => .code <|
      .bind (test.lowered false) fun _ cond => .bind (.expectValue cond) fun _ _ => .bind (.located _ _) fun _ _ => .pure ⟨_, rfl⟩
  | .print items => .code <|
      .bind items.checked fun _ _ => .bind (items.lowered false) fun _ values =>
        .bind (.mapM fun item member => .expectValue (values item member)) fun _ _ => .pure ⟨_, rfl⟩
  | .assign handed dest source => .code <|
      assignment_lowered dest (if_neg handed ▸ source.lowered false) fun _ _ value there => .assign handed value there
  | .exchange dest source => .code <|
      assignment_lowered dest (source.lowered false) fun _ _ placed there => .exchange placed there
  | .remove container indexes position => .code <|
      .bind (position.lowered false) fun _ key => .bind (container.lowered false) fun _ placed =>
        .bind (.expectValue key) fun _ _ => .bind (.expectPlace placed) fun _ _ => .bind (.containerKind indexes) fun _ _ =>
          .pure ⟨_, rfl⟩
  | .insert container indexes value => .code <|
      .bind (value.lowered false) fun _ entry => .bind (container.lowered false) fun _ placed =>
        .bind (.expectValue entry) fun _ _ => .bind (.expectPlace placed) fun _ _ => .bind (.containerKind indexes) fun _ _ =>
          .pure ⟨_, rfl⟩
  | .pop => .code (.pure ⟨_, rfl⟩)
  | .ret result => .code <|
      .bind (optional_lowered fun node member => (result node member).lowered false) fun _ values =>
        .bind (.optionMapM fun part member => .expectValue (values part member)) fun _ _ => .pure ⟨_, rfl⟩
  | .loop test inner => .code <|
      .bind (test.lowered false) fun _ cond => .bind inner.lowered fun _ body => .coded (.loop cond body)
  | .branch test whenTrue whenFalse => .code <|
      .bind (test.lowered false) fun _ cond => .bind whenTrue.lowered fun _ yes =>
        .bind (optional_lowered fun node member => (whenFalse node member).lowered) fun _ no => .coded (.branch cond yes no)
  | .seq before after => .code <|
      .bind before.lowered fun _ first => .bind after.lowered fun _ rest => .bind (.expectCode first) fun _ _ =>
        .bind (.expectCode rest) fun _ _ => .pure ⟨_, rfl⟩
  | .block each => .code <|
      .bind (all_lowered fun node member => (each node member).lowered) fun _ codes =>
        .bind (.mapM fun part member => .expectCode (codes part member)) fun _ _ => .pure ⟨_, rfl⟩

end Grammar

end Reentry
