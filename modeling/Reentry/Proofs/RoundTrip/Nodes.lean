import Reentry.Program.Reader
import Reentry.Proofs.RoundTrip.Records

/-!
Types and nodes are read back as they were written. A node is read level by level: if a reader reads back the parts of a
node, one level more reads back the node. The parts of a node are written less deep than the node, so as many levels as
the JSON value is deep suffice.
-/

namespace Reentry

open Json

namespace Ty

theorem itemsToJson_eq (items : List Ty) : itemsToJson items = items.map toJson := by
  induction items with
  | nil => rfl
  | cons item items ih => rw [itemsToJson, ih, List.map_cons]

theorem fieldsToJson_eq (fields : List (String × Ty)) : fieldsToJson fields = fields.map fun field => .arr [.str field.1, field.2.toJson] := by
  induction fields with
  | nil => rfl
  | cons field fields ih => rw [fieldsToJson, ih, List.map_cons]

theorem readWithin?_toJson {levels : Nat} {ty : Ty} (deep : ty.toJson.depth < levels) : readWithin? levels ty.toJson = some ty := by
  induction levels generalizing ty with
  | zero => omega
  | succ levels ih =>
      cases ty with
      | null | bool | int | event | machine | any => rfl
      | tuple items =>
          have inner := depth_lt_tagged "Tuple" (.arr (itemsToJson items))
          refine read_bind rfl (read_map ?_)
          rw [toJson, itemsToJson_eq] at *
          refine readList?_map fun item member => ih ?_
          have := depth_lt_arr (List.mem_map_of_mem (f := toJson) member)
          omega
      | named fields =>
          have inner := depth_lt_tagged "NamedTuple" (.arr (fieldsToJson fields))
          rw [toJson, fieldsToJson_eq] at *
          refine read_bind rfl (read_map (readList?_map fun field member => ?_))
          have outer := depth_lt_arr (List.mem_map_of_mem (f := fun field : String × Ty => Json.arr [.str field.1, field.2.toJson]) member)
          have here : field.2.toJson.depth < (Json.arr [.str field.1, field.2.toJson]).depth := depth_lt_arr (by simp)
          exact read_bind rfl (read_bind (ih (by omega)) rfl)
      | seq element =>
          have inner := depth_lt_tagged "Seq" element.toJson
          exact read_bind rfl (read_map (ih (by rw [toJson] at deep; omega)))
      | map key value =>
          have inner := depth_lt_tagged "Map" (.arr [key.toJson, value.toJson])
          have first : key.toJson.depth < (Json.arr [key.toJson, value.toJson]).depth := depth_lt_arr (by simp)
          have second : value.toJson.depth < (Json.arr [key.toJson, value.toJson]).depth := depth_lt_arr (by simp)
          rw [toJson] at deep
          exact read_bind rfl (read_bind (ih (by omega)) (read_bind (ih (by omega)) rfl))

theorem read?_toJson (ty : Ty) : read? ty.toJson = some ty := readWithin?_toJson (Nat.lt_succ_self _)

mutual

theorem whole_toJson : ∀ ty : Ty, ty.toJson.IsWhole
  | .null | .bool | .int | .event | .machine | .any => trivial
  | .tuple items => ⟨rfl, whole_items items, trivial⟩
  | .named fields => ⟨rfl, whole_fields fields, trivial⟩
  | .seq element => ⟨rfl, whole_toJson element, trivial⟩
  | .map key value => ⟨rfl, ⟨whole_toJson key, whole_toJson value, trivial⟩, trivial⟩

theorem whole_items : ∀ items : List Ty, ItemsWhole (itemsToJson items)
  | [] => trivial
  | item :: items => ⟨whole_toJson item, whole_items items⟩

theorem whole_fields : ∀ fields : List (String × Ty), ItemsWhole (fieldsToJson fields)
  | [] => trivial
  | (_, ty) :: fields => ⟨⟨trivial, whole_toJson ty, trivial⟩, whole_fields fields⟩

end

end Ty

section Atoms

theorem Span.read?_toJson (span : Span) : read? span.toJson = some span :=
  read_bind (record?_record [.ofUInt32 span.line, .ofUInt32 span.column] (by decide) rfl)
    (read_bind (readUInt32?_ofUInt32 _) (read_bind (readUInt32?_ofUInt32 _) rfl))

theorem readQualifier?_toJson (qualifier : Qualifier) : readQualifier? qualifier.toJson = some qualifier := by
  cases qualifier <;> rfl

theorem VarRef.read?_toJson (ref : VarRef) : read? ref.toJson = some ref := by
  cases ref with
  | slot index | field index => exact read_bind rfl (read_map (readUInt32?_ofUInt32 index))
  | event id => exact read_bind rfl (read_map (read_word EventId.mk id.index))
  | enumConst value => exact read_bind rfl (read_map (readInt64?_toInt value))

theorem Literal.read?_toJson (literal : Literal) : read? literal.toJson = some literal := by
  cases literal with
  | int value => exact read_bind rfl (read_map (readInt64?_toInt value))
  | bool value => exact read_bind rfl (read_map rfl)
  | null | halt | this => rfl

theorem UnaryOp.read?_toJson (op : UnaryOp) : read? op.toJson = some op := by
  cases op <;> rfl

theorem BinaryOp.read?_toJson (op : BinaryOp) : read? op.toJson = some op := by
  cases op <;> rfl

theorem FieldSel.read?_toJson (sel : FieldSel) : read? sel.toJson = some sel := by
  cases sel with
  | index position => exact read_bind rfl (read_map (readUInt32?_ofUInt32 position))
  | name fieldName => exact read_bind rfl (read_map rfl)

theorem CaseEvent.read?_toJson (event : CaseEvent) : read? event.toJson = some event := by
  cases event with
  | event id => exact read_bind rfl (read_map (read_word EventId.mk id.index))
  | null | halt => rfl

theorem ReceiveCase.read?_toJson (case : ReceiveCase) : read? case.toJson = some case :=
  read_bind (record?_record [case.event.toJson, case.handler.toJson] (by decide) rfl)
    (read_bind case.event.read?_toJson (read_bind (read_word FunctionId.mk case.handler.index) rfl))

theorem Qualifier.whole_toJson (qualifier : Qualifier) : qualifier.toJson.IsWhole := by
  cases qualifier <;> trivial

theorem UnaryOp.whole_toJson (op : UnaryOp) : op.toJson.IsWhole := by
  cases op <;> trivial

theorem BinaryOp.whole_toJson (op : BinaryOp) : op.toJson.IsWhole := by
  cases op <;> trivial

theorem VarRef.whole_toJson (ref : VarRef) : ref.toJson.IsWhole := by
  cases ref <;> exact ⟨rfl, trivial, trivial⟩

theorem Literal.whole_toJson (literal : Literal) : literal.toJson.IsWhole := by
  cases literal with
  | int | bool => exact ⟨rfl, trivial, trivial⟩
  | null | halt | this => trivial

theorem FieldSel.whole_toJson (sel : FieldSel) : sel.toJson.IsWhole := by
  cases sel <;> exact ⟨rfl, trivial, trivial⟩

theorem CaseEvent.whole_toJson (event : CaseEvent) : event.toJson.IsWhole := by
  cases event with
  | event => exact ⟨rfl, trivial, trivial⟩
  | null | halt => trivial

theorem ReceiveCase.whole_toJson (case : ReceiveCase) : case.toJson.IsWhole :=
  ⟨rfl, case.event.whole_toJson, rfl, trivial, trivial⟩

end Atoms

/-- Nodes directly below a node. -/
def NodeKind.parts : NodeKind → List Node
  | .name _ | .lit _ | .nondet _ | .default _ | .receive _ | .pop => []
  | .unary _ part | .field part _ | .tuple part | .namedTuple part | .cast part _ | .assert part _ => [part]
  | .binary _ first second | .assign first second _ | .remove first second | .insert first second | .loop first second
  | .seq first second => [first, second]
  | .app _ other | .goto _ other | .print _ other | .ret other => other.toList
  | .exprs _ first other | .namedExprs _ first other | .raise first other | .announce first other => first :: other.toList
  | .new _ one other | .call _ one other => one.toList ++ other.toList
  | .send first second other | .branch first second other => first :: second :: other.toList
  | .block statements => statements

theorem nodesToJson_eq (nodes : List Node) : nodesToJson nodes = nodes.map Node.toJson := by
  induction nodes with
  | nil => rfl
  | cons node nodes ih => rw [nodesToJson, ih, List.map_cons]

theorem optionalNodeToJson_eq (node : Option Node) : optionalNodeToJson node = ofOption Node.toJson node := by
  cases node <;> rfl

namespace NodeKind

variable {kind : NodeKind}

section Read

variable {node : Json → Option Node}

theorem readOptional?_part {part : Option Node} (reads : ∀ part ∈ kind.parts, node part.toJson = some part) (within : part.toList ⊆ kind.parts) :
    readOptional? node (some (optionalNodeToJson part)) = some part := by
  rw [optionalNodeToJson_eq]
  refine readOptional?_ofOption fun inner member => ⟨?_, reads inner (within (Option.mem_toList.mpr member))⟩
  cases inner
  rintro ⟨⟩

/-- A node is read back if its parts are: the name of its form selects how it is read, and then its fields are read in order. -/
theorem readUsing?_toJson (reads : ∀ part ∈ kind.parts, node part.toJson = some part) : readUsing? node kind.toJson = some kind := by
  cases kind with
  | name ref => exact read_bind rfl (read_map ref.read?_toJson)
  | lit literal => exact read_bind rfl (read_map literal.read?_toJson)
  | nondet fair => exact read_bind rfl (read_bind (record?_record [.bool fair] (by decide) rfl) (read_map rfl))
  | unary op arg =>
      refine read_bind rfl (read_bind (record?_record [op.toJson, arg.toJson] (by decide) rfl) ?_)
      exact read_bind op.read?_toJson (read_bind (reads arg (by simp [parts])) rfl)
  | binary op lhs rhs =>
      refine read_bind rfl (read_bind (record?_record [op.toJson, lhs.toJson, rhs.toJson] (by decide) rfl) ?_)
      exact read_bind op.read?_toJson (read_bind (reads lhs (by simp [parts])) (read_bind (reads rhs (by simp [parts])) rfl))
  | field base sel =>
      refine read_bind rfl (read_bind (record?_record [base.toJson, sel.toJson] (by decide) rfl) ?_)
      exact read_bind (reads base (by simp [parts])) (read_bind sel.read?_toJson rfl)
  | tuple list | namedTuple list => exact read_bind rfl (read_map (reads list (by simp [parts])))
  | default ty => exact read_bind rfl (read_map ty.read?_toJson)
  | cast expr ty =>
      refine read_bind rfl (read_bind (record?_record [expr.toJson, ty.toJson] (by decide) rfl) ?_)
      exact read_bind (reads expr (by simp [parts])) (read_bind ty.read?_toJson rfl)
  | app callee args =>
      refine read_bind rfl (read_bind (record?_record [callee.toJson, optionalNodeToJson args] (by decide) rfl) ?_)
      exact read_bind (read_word FunctionId.mk callee.index) (read_bind (readOptional?_part reads (by simp [parts])) rfl)
  | exprs qualifier head tail =>
      refine read_bind rfl (read_bind (record?_record [qualifier.toJson, head.toJson, optionalNodeToJson tail] (by decide) rfl) ?_)
      exact read_bind (readQualifier?_toJson qualifier) (read_bind (reads head (by simp [parts])) (read_bind (readOptional?_part reads (by simp [parts])) rfl))
  | namedExprs name head tail =>
      refine read_bind rfl (read_bind (record?_record [.str name, head.toJson, optionalNodeToJson tail] (by decide) rfl) ?_)
      exact read_bind rfl (read_bind (reads head (by simp [parts])) (read_bind (readOptional?_part reads (by simp [parts])) rfl))
  | new machine args out =>
      refine read_bind rfl (read_bind (record?_record [machine.toJson, optionalNodeToJson args, optionalNodeToJson out] (by decide) rfl) ?_)
      refine read_bind (read_word MachineTypeId.mk machine.index) ?_
      exact read_bind (readOptional?_part reads (by simp [parts])) (read_bind (readOptional?_part reads (by simp [parts])) rfl)
  | call callee args out =>
      refine read_bind rfl (read_bind (record?_record [callee.toJson, optionalNodeToJson args, optionalNodeToJson out] (by decide) rfl) ?_)
      refine read_bind (read_word FunctionId.mk callee.index) ?_
      exact read_bind (readOptional?_part reads (by simp [parts])) (read_bind (readOptional?_part reads (by simp [parts])) rfl)
  | goto state args =>
      refine read_bind rfl (read_bind (record?_record [state.toJson, optionalNodeToJson args] (by decide) rfl) ?_)
      exact read_bind (read_word StateId.mk state.index) (read_bind (readOptional?_part reads (by simp [parts])) rfl)
  | raise event args | announce event args =>
      refine read_bind rfl (read_bind (record?_record [event.toJson, optionalNodeToJson args] (by decide) rfl) ?_)
      exact read_bind (reads event (by simp [parts])) (read_bind (readOptional?_part reads (by simp [parts])) rfl)
  | send target event args =>
      refine read_bind rfl (read_bind (record?_record [target.toJson, event.toJson, optionalNodeToJson args] (by decide) rfl) ?_)
      exact read_bind (reads target (by simp [parts])) (read_bind (reads event (by simp [parts])) (read_bind (readOptional?_part reads (by simp [parts])) rfl))
  | receive cases => exact read_bind rfl (read_map (readList?_map fun case _ => case.read?_toJson))
  | assert cond message =>
      refine read_bind rfl (read_bind (record?_record [cond.toJson, .ofOption .str message] (by decide) rfl) ?_)
      exact read_bind (reads cond (by simp [parts])) (read_bind (readOptional?_ofOption fun _ _ => ⟨by simp, rfl⟩) rfl)
  | print format args =>
      refine read_bind rfl (read_bind (record?_record [.str format, optionalNodeToJson args] (by decide) rfl) ?_)
      exact read_bind rfl (read_bind (readOptional?_part reads (by simp [parts])) rfl)
  | assign lhs rhs qualifier =>
      refine read_bind rfl (read_bind (record?_record [lhs.toJson, rhs.toJson, qualifier.toJson] (by decide) rfl) ?_)
      exact read_bind (reads lhs (by simp [parts])) (read_bind (reads rhs (by simp [parts])) (read_bind (readQualifier?_toJson qualifier) rfl))
  | remove target other | insert target other =>
      refine read_bind rfl (read_bind (record?_record [target.toJson, other.toJson] (by decide) rfl) ?_)
      exact read_bind (reads target (by simp [parts])) (read_bind (reads other (by simp [parts])) rfl)
  | pop => rfl
  | ret value => exact read_bind rfl (read_map (readOptional?_part reads (by simp [parts])))
  | loop cond body =>
      refine read_bind rfl (read_bind (record?_record [cond.toJson, body.toJson] (by decide) rfl) ?_)
      exact read_bind (reads cond (by simp [parts])) (read_bind (reads body (by simp [parts])) rfl)
  | branch cond onTrue onFalse =>
      refine read_bind rfl (read_bind (record?_record [cond.toJson, onTrue.toJson, optionalNodeToJson onFalse] (by decide) rfl) ?_)
      exact read_bind (reads cond (by simp [parts])) (read_bind (reads onTrue (by simp [parts])) (read_bind (readOptional?_part reads (by simp [parts])) rfl))
  | seq first rest =>
      refine read_bind rfl (read_bind (record?_record [first.toJson, rest.toJson] (by decide) rfl) ?_)
      exact read_bind (reads first (by simp [parts])) (read_bind (reads rest (by simp [parts])) rfl)
  | block statements => exact read_bind rfl (read_map (by rw [nodesToJson_eq]; exact readList?_map reads))

end Read

section Shape

theorem depth_le_optional {part : Option Node} {inner : Node} (member : inner ∈ part.toList) :
    inner.toJson.depth ≤ (optionalNodeToJson part).depth := by
  obtain rfl := Option.mem_toList.mp member
  exact Nat.le_refl _

/-- A part is written less deep than the node. -/
theorem depth_lt {part : Node} (member : part ∈ kind.parts) : part.toJson.depth < kind.toJson.depth := by
  cases kind with
  | name | lit | nondet | default | receive | pop => cases member
  | unary | field | cast | assert | tuple | namedTuple =>
      obtain rfl := List.mem_singleton.mp member
      simp only [toJson, tagged, depth, membersDepth]
      omega
  | binary | assign | remove | insert | loop | seq =>
      simp only [parts, List.mem_cons, List.not_mem_nil, or_false] at member
      rcases member with rfl | rfl <;> simp only [toJson, tagged, depth, membersDepth] <;> omega
  | app | goto | print | ret =>
      have within := depth_le_optional member
      simp only [toJson, tagged, depth, membersDepth]
      omega
  | exprs | namedExprs | raise | announce =>
      simp only [toJson, tagged, depth, membersDepth]
      rcases List.mem_cons.mp member with rfl | member
      · omega
      · have within := depth_le_optional member
        omega
  | new | call =>
      simp only [toJson, tagged, depth, membersDepth]
      rcases List.mem_append.mp member with member | member <;>
        · have within := depth_le_optional member
          omega
  | send | branch =>
      simp only [parts, List.mem_cons] at member
      simp only [toJson, tagged, depth, membersDepth]
      rcases member with rfl | rfl | member
      · omega
      · omega
      · have within := depth_le_optional member
        omega
  | block statements =>
      have inner := depth_lt_arr (List.mem_map_of_mem (f := Node.toJson) member)
      rw [toJson, nodesToJson_eq]
      exact inner.trans (depth_lt_tagged ..)

theorem whole_part {part : Option Node} (whole : ∀ part ∈ kind.parts, part.toJson.IsWhole) (within : part.toList ⊆ kind.parts) :
    (optionalNodeToJson part).IsWhole := by
  cases part with
  | none => trivial
  | some inner => exact whole inner (within List.mem_cons_self)

theorem whole_toJson (whole : ∀ part ∈ kind.parts, part.toJson.IsWhole) : kind.toJson.IsWhole := by
  cases kind with
  | name ref => exact ⟨rfl, ref.whole_toJson, trivial⟩
  | lit literal => exact ⟨rfl, literal.whole_toJson, trivial⟩
  | nondet fair => exact ⟨rfl, ⟨rfl, trivial, trivial⟩, trivial⟩
  | unary op arg => exact ⟨rfl, ⟨rfl, op.whole_toJson, rfl, whole arg (by simp [parts]), trivial⟩, trivial⟩
  | binary op lhs rhs =>
      exact ⟨rfl, ⟨rfl, op.whole_toJson, rfl, whole lhs (by simp [parts]), rfl, whole rhs (by simp [parts]), trivial⟩, trivial⟩
  | field base sel => exact ⟨rfl, ⟨rfl, whole base (by simp [parts]), rfl, sel.whole_toJson, trivial⟩, trivial⟩
  | tuple list | namedTuple list => exact ⟨rfl, whole list (by simp [parts]), trivial⟩
  | default ty => exact ⟨rfl, ty.whole_toJson, trivial⟩
  | cast expr ty => exact ⟨rfl, ⟨rfl, whole expr (by simp [parts]), rfl, ty.whole_toJson, trivial⟩, trivial⟩
  | app _ args | goto _ args | print _ args => exact ⟨rfl, ⟨rfl, trivial, rfl, whole_part whole (by simp [parts]), trivial⟩, trivial⟩
  | exprs qualifier head tail =>
      exact ⟨rfl, ⟨rfl, qualifier.whole_toJson, rfl, whole head (by simp [parts]), rfl, whole_part whole (by simp [parts]), trivial⟩, trivial⟩
  | namedExprs name head tail =>
      exact ⟨rfl, ⟨rfl, trivial, rfl, whole head (by simp [parts]), rfl, whole_part whole (by simp [parts]), trivial⟩, trivial⟩
  | new _ args out | call _ args out =>
      exact ⟨rfl, ⟨rfl, trivial, rfl, whole_part whole (by simp [parts]), rfl, whole_part whole (by simp [parts]), trivial⟩, trivial⟩
  | raise event args | announce event args =>
      exact ⟨rfl, ⟨rfl, whole event (by simp [parts]), rfl, whole_part whole (by simp [parts]), trivial⟩, trivial⟩
  | send first second args | branch first second args =>
      exact ⟨rfl, ⟨rfl, whole first (by simp [parts]), rfl, whole second (by simp [parts]), rfl, whole_part whole (by simp [parts]), trivial⟩, trivial⟩
  | receive cases => exact ⟨rfl, whole_arr (List.forall_mem_map.mpr fun case _ => case.whole_toJson), trivial⟩
  | assert cond message =>
      refine ⟨rfl, ⟨rfl, whole cond (by simp [parts]), rfl, ?_, trivial⟩, trivial⟩
      cases message <;> trivial
  | assign lhs rhs qualifier =>
      exact ⟨rfl, ⟨rfl, whole lhs (by simp [parts]), rfl, whole rhs (by simp [parts]), rfl, qualifier.whole_toJson, trivial⟩, trivial⟩
  | remove first second | insert first second | loop first second | seq first second =>
      exact ⟨rfl, ⟨rfl, whole first (by simp [parts]), rfl, whole second (by simp [parts]), trivial⟩, trivial⟩
  | pop => trivial
  | ret value => exact ⟨rfl, whole_part whole (by simp [parts]), trivial⟩
  | block statements =>
      rw [toJson, nodesToJson_eq]
      exact ⟨rfl, whole_arr (List.forall_mem_map.mpr whole), trivial⟩

end Shape

end NodeKind

namespace Node

theorem depth_lt_of_part {id : NodeId} {span : Span} {kind : NodeKind} {part : Node} (member : part ∈ kind.parts) :
    part.toJson.depth < (mk id span kind).toJson.depth := by
  have inner := NodeKind.depth_lt member
  simp only [toJson, depth, membersDepth]
  omega

theorem readWithin?_toJson {levels : Nat} {node : Node} (deep : node.toJson.depth < levels) : readWithin? levels node.toJson = some node := by
  induction levels generalizing node with
  | zero => omega
  | succ levels ih =>
      obtain ⟨id, span, kind⟩ := node
      have parts : NodeKind.readUsing? (readWithin? levels) kind.toJson = some kind := NodeKind.readUsing?_toJson fun part member => by
        have := @depth_lt_of_part id span kind part member
        exact ih (by omega)
      refine read_bind (record?_record [id.toJson, span.toJson, kind.toJson] (by decide) rfl) ?_
      exact read_bind (read_word NodeId.mk id.index) (read_bind span.read?_toJson (read_bind parts rfl))

theorem read?_toJson (node : Node) : read? node.toJson = some node := readWithin?_toJson (Nat.lt_succ_self _)

theorem whole_toJson (node : Node) : node.toJson.IsWhole := by
  induction bound : node.toJson.depth using Nat.strongRecOn generalizing node with
  | _ depth ih =>
      obtain ⟨id, span, kind⟩ := node
      subst bound
      have parts := NodeKind.whole_toJson fun part member => ih _ (depth_lt_of_part member) part rfl
      exact ⟨rfl, trivial, rfl, ⟨rfl, trivial, rfl, trivial, trivial⟩, rfl, parts, trivial⟩

end Node

end Reentry
