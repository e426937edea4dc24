import Reentry.Proofs.Choices.Answered
import Reentry.Proofs.Structure.Spelling

/-!
Lowering a statement whose choices are answered. It goes through the same steps as lowering the statement itself, and what
comes of the two differs in labels and in the choices that have been written out.
-/

namespace Reentry

theorem Instr.isStraight_of_isPlain {instr : Instr} (plain : instr.isPlain) : instr.isStraight := by
  cases instr <;> first | exact plain | cases plain

theorem Instr.settle_isPlain {known : Nat → Option Bool} (instr : Instr) : (instr.settle known).isPlain = instr.isPlain := by
  cases instr <;> rfl

theorem YieldRequest.settle_question {known : Nat → Option Bool} (request : YieldRequest) :
    (request.settle known).question? = request.question?.map (Question.settle known) := by
  cases request <;> rfl

theorem Outline.settle_isPlain {known : Nat → Option Bool} (outline : Outline) :
    (outline.settle known).isPlain = outline.isPlain := by
  cases outline with
  | act instr => exact instr.settle_isPlain
  | finish request =>
      simp only [Outline.settle, isPlain, request.settle_question]
      cases request.question? <;> rfl
  | ask question => cases question <;> rfl
  | call _ | dispatch _ | branch _ _ _ | loop _ _ _ => rfl

/-- The code of a single statement, and what it becomes with the choices that are known written out. -/
structure CodeEcho (known : Nat → Option Bool) (code echoed : List Instr) : Prop where
  settled : Outline.ofCode echoed = (Outline.ofCode code).map (Outline.settle known)
  plain : ∀ outline ∈ Outline.ofCode code, outline.isPlain

namespace CodeEcho

variable {known : Nat → Option Bool}

theorem append {first first' rest rest' : List Instr} (left : CodeEcho known first first') (right : CodeEcho known rest rest') :
    CodeEcho known (first ++ rest) (first' ++ rest') where
  settled := by rw [Outline.ofCode_append, Outline.ofCode_append, left.settled, right.settled, List.map_append]
  plain outline member := by
    rw [Outline.ofCode_append] at member
    exact (List.mem_append.mp member).elim (left.plain outline) (right.plain outline)

variable (known)

theorem straight (code : List Instr) (plain : ∀ instr ∈ code, instr.isPlain) :
    CodeEcho known code (code.map (Instr.settle known)) where
  settled := by
    have goesOn : ∀ instr ∈ code.map (Instr.settle known), instr.isStraight := by
      intro instr member
      obtain ⟨own, among, rfl⟩ := List.mem_map.mp member
      exact Instr.isStraight_of_isPlain (by rw [own.settle_isPlain, plain own among])
    rw [Outline.ofCode_straight goesOn, Outline.ofCode_straight fun instr member => Instr.isStraight_of_isPlain (plain instr member),
      List.map_map, List.map_map]
    rfl
  plain outline member := by
    rw [Outline.ofCode_straight fun instr member => Instr.isStraight_of_isPlain (plain instr member)] at member
    obtain ⟨instr, among, rfl⟩ := List.mem_map.mp member
    exact plain instr among

theorem terminate (request : YieldRequest) (final : request.question? = none) :
    CodeEcho known (Template.terminate request) (Template.terminate (request.settle known)) := by
  have reading : Outline.ofCode (Template.terminate request) = [.finish request] := by
    simp [Outline.ofCode, Template.terminate, Instr.outline?, final]
  have reading' : Outline.ofCode (Template.terminate (request.settle known)) = [.finish (request.settle known)] := by
    simp [Outline.ofCode, Template.terminate, Instr.outline?, request.settle_question, final]
  constructor
  · rw [reading, reading']
    rfl
  · rw [reading]
    simp [Outline.isPlain, final]

theorem suspend (question : Question) (told : question ≠ .nondet) (resume resume' : LabelId) :
    CodeEcho known (Template.suspend (question.request resume) resume)
      (Template.suspend ((question.settle known).request resume') resume') := by
  cases question with
  | nondet => exact absurd rfl told
  | send | receive | new _ _ => exact ⟨rfl, List.forall_mem_singleton.mpr rfl⟩

theorem invocation (callee : FunctionId) (args : List Argument) (landing landing' : LabelId) :
    CodeEcho known [.pushFrame callee args, .label landing, .invoke callee, .propagateSuspension callee landing]
      [.pushFrame callee (Operand.settleArguments known args), .label landing', .invoke callee,
        .propagateSuspension callee landing'] :=
  ⟨rfl, by simp [Outline.ofCode, Instr.outline?, Outline.isPlain, Instr.isPlain, Instr.isStraight]⟩

end CodeEcho

namespace Lower.Echoes

variable {scope : Lowering.Scope} {known : Nat → Option Bool} {count : Nat} {bits : List Bool}

/-- Statements are echoed by the code with the choices written out. -/
abbrev Coded (known : Nat → Option Bool) (fragment echoed : Fragment) : Prop :=
  ∃ code code', fragment = .code code ∧ echoed = .code code' ∧ CodeEcho known code code'

theorem coded {work echo : Lower (List Instr)} (echoes : Echoes scope known count bits (CodeEcho known) work echo) :
    Echoes scope known count bits (Coded known) (.code <$> work) (.code <$> echo) :=
  map echoes fun code code' alike => ⟨code, code', rfl, rfl, alike⟩

theorem single {instr : Instr} (plain : instr.isPlain) :
    Echoes scope known 0 bits (Coded known) (Pure.pure (.code [instr])) (Pure.pure (.code [instr.settle known])) :=
  pure ⟨_, _, rfl, rfl, .straight known [instr] (by simpa using plain)⟩

theorem out (fragment : Option Fragment) :
    Echoes scope known 0 bits (fun place echoed => echoed = place.map (Place.settle known)) (fragment.mapM Lower.expectPlace)
      ((fragment.map (Fragment.settle known)).mapM Lower.expectPlace) := by
  cases fragment with
  | none => exact pure rfl
  | some part =>
      refine map (expectPlace part) ?_
      rintro place _ rfl
      rfl

theorem returned (fragment : Option Fragment) :
    Echoes scope known 0 bits (fun value echoed => echoed = value.map (Operand.settle known)) (fragment.mapM Lower.expectValue)
      ((fragment.map (Fragment.settle known)).mapM Lower.expectValue) := by
  cases fragment with
  | none => exact pure rfl
  | some part =>
      refine map (expectValue part) ?_
      rintro value _ rfl
      rfl

theorem printed (items : List ListItem) :
    Echoes scope known 0 bits (fun operands echoed => echoed = operands.map (Operand.settle known))
      (items.mapM fun item => Lower.expectValue item.fragment)
      ((items.map (ListItem.settle known)).mapM fun item => Lower.expectValue item.fragment) := by
  have each (item : ListItem) : Echoes scope known 0 bits (fun operand echoed => echoed = operand.settle known)
      (Lower.expectValue item.fragment) (Lower.expectValue (item.settle known).fragment) := expectValue item.fragment
  exact @mapM _ _ scope known bits _ _ _ _ _ (fun item : ListItem => Lower.expectValue item.fragment) each items

theorem new (machine : MachineTypeId) (items : List ListItem) (dest : Option Fragment) :
    Echoes scope known 0 bits (CodeEcho known) (new machine items dest)
      (new machine (items.map (ListItem.settle known)) (dest.map (Fragment.settle known))) := by
  refine next (payload items) ?_
  rintro payload _ rfl
  refine next (out dest) ?_
  rintro place _ rfl
  refine next freshLabel fun resume resume' _ => pure ?_
  have asked := CodeEcho.suspend known (.new machine payload) nofun resume resume'
  have read : CodeEcho known (place.toList.map .readCreated) ((place.map (Place.settle known)).toList.map .readCreated) := by
    cases place with
    | none => exact .straight known [] nofun
    | some place => exact .straight known [.readCreated place] (List.forall_mem_singleton.mpr rfl)
  exact asked.append read

theorem call (callee : FunctionId) (items : List ListItem) (dest : Option Fragment) :
    Echoes scope known 0 bits (CodeEcho known) (call callee items dest)
      (call callee (items.map (ListItem.settle known)) (dest.map (Fragment.settle known))) := by
  refine next (checkFunction callee) fun _ _ _ => next (callArguments 0 items) ?_
  rintro ⟨args, backs⟩ _ rfl
  refine next (out dest) ?_
  rintro place _ rfl
  refine next freshLabel fun landing landing' _ => pure ?_
  have invoked := CodeEcho.invocation known callee args landing landing'
  have collected : CodeEcho known (place.toList.map .collectReturn)
      ((place.map (Place.settle known)).toList.map .collectReturn) := by
    cases place with
    | none => exact .straight known [] nofun
    | some place => exact .straight known [.collectReturn place] (List.forall_mem_singleton.mpr rfl)
  have written : CodeEcho known (backs.map fun pair => .writeBack pair.1 pair.2)
      ((backs.map fun pair => (pair.1.settle known, pair.2)).map fun pair => .writeBack pair.1 pair.2) := by
    have plain : ∀ instr ∈ backs.map fun pair => Instr.writeBack pair.1 pair.2, instr.isPlain := by
      intro instr member
      obtain ⟨_, _, rfl⟩ := List.mem_map.mp member
      rfl
    have settled := CodeEcho.straight known _ plain
    rw [List.map_map] at settled ⊢
    exact settled
  exact (invoked.append collected).append written

theorem raise (span : Span) (event : Fragment) (items : List ListItem) :
    Echoes scope known 0 bits (CodeEcho known) (raise span event items)
      (raise span (event.settle known) (items.map (ListItem.settle known))) := by
  refine next (expectValue event) ?_
  rintro event _ rfl
  refine next (payload items) ?_
  rintro payload _ rfl
  refine next (located _ _) ?_
  rintro message _ rfl
  refine pure ?_
  have stored := CodeEcho.straight known
    [.assert (Template.nonNull event) message, .assign .trigger event, .assign .payload payload]
    (by simp [Instr.isPlain, Instr.isStraight])
  exact stored.append (.terminate known .raise rfl)

theorem send (span : Span) (target event : Fragment) (items : List ListItem) :
    Echoes scope known 0 bits (CodeEcho known) (send span target event items)
      (send span (target.settle known) (event.settle known) (items.map (ListItem.settle known))) := by
  refine next (expectValue target) ?_
  rintro target _ rfl
  refine next (expectValue event) ?_
  rintro event _ rfl
  refine next (payload items) ?_
  rintro payload _ rfl
  refine next (located _ _) ?_
  rintro message _ rfl
  refine next freshLabel fun resume resume' _ => pure ?_
  have sent := CodeEcho.straight known [.assert (Template.nonNull event) message, .enqueue target event payload]
    (by simp [Instr.isPlain, Instr.isStraight])
  exact sent.append (.suspend known .send (by simp) resume resume')

theorem goto (state : StateId) (payload : Operand) :
    CodeEcho known (Template.goto state payload) (Template.goto state (payload.settle known)) := by
  have stored := CodeEcho.straight known [.assign .trigger .null, .assign .payload payload, .setGotoTarget state]
    (by simp [Instr.isPlain, Instr.isStraight])
  exact stored.append (.terminate known .goto rfl)

theorem pop : CodeEcho known Template.pop Template.pop := by
  have stored := CodeEcho.straight known [.assign .trigger .null, .assign .payload .null]
    (by simp [Instr.isPlain, Instr.isStraight])
  exact stored.append (.terminate known .pop rfl)

theorem ret (value : Option Operand) : CodeEcho known (Template.ret value) (Template.ret (value.map (Operand.settle known))) := by
  cases value with
  | none => exact .terminate known .ret rfl
  | some operand =>
      have left := CodeEcho.terminate known (.retValue operand.cloned) rfl
      rw [YieldRequest.settle, operand.settle_cloned] at left
      exact left

theorem assigned (qualifier : Qualifier) (source : Fragment) (dest : Destination) :
    Echoes scope known 0 bits (CodeEcho known) (Lower.assign qualifier source dest)
      (Lower.assign qualifier (source.settle known) (dest.settle known)) := by
  refine weaken (assign qualifier source dest) ?_
  rintro code _ ⟨plain, rfl⟩
  exact .straight known code plain

theorem received (cases : List ReceiveCase) : Echoes scope known 0 bits (fun _ _ => True) (receive cases) (receive cases) := by
  have arms : Echoes scope known 0 bits (fun _ _ => True)
      (cases.mapM fun case => do Pure.pure (⟨case.event, case.handler, ← Lower.freshLabel⟩ : ReceiveArm))
      (cases.mapM fun case => do Pure.pure (⟨case.event, case.handler, ← Lower.freshLabel⟩ : ReceiveArm)) := by
    induction cases with
    | nil => exact pure trivial
    | cons case rest ih =>
        rw [List.mapM_cons]
        refine next (next freshLabel fun _ _ _ => pure trivial) fun _ _ (_ : True) => next ih fun _ _ _ => pure trivial
  exact next (forM (fun case => checkFunction case.handler) cases) fun _ _ _ => next freshLabel fun _ _ _ =>
    next freshLabel fun _ _ _ => next arms fun _ _ _ => pure trivial

theorem get : Echoes scope known 0 bits (fun _ _ => True) (MonadState.get : Lower Lowering.Progress) MonadState.get := by
  intro start result stop _ succeeds
  obtain ⟨_, rfl⟩ := get_eq_ok.mp succeeds
  exact ⟨(List.append_nil _).symm, rfl, fun other => ⟨other, other, rfl, rfl, trivial⟩⟩

section Nodes

variable {id : NodeId} {span : Span} {kind kind' : NodeKind} {inNew : Bool} {access : Access}

theorem value (old : kind.isNew = false) (same : kind'.isNew = false)
    (made : Echoes scope known count bits (Fragment.ValueEcho known)
      (kind.lower inNew access span) (kind'.lower inNew access span)) :
    Echoes scope known count bits (Fragment.ValueEcho known)
      ((Node.mk id span kind).lower inNew access) ((Node.mk id span kind').lower inNew access) := by
  unfold Node.lower
  simp only [old, same, Bool.false_and, Bool.false_eq_true, if_false, Bool.or_false]
  refine next get fun _ _ _ => last made ?_
  rintro _ _ ⟨⟨operand, rfl⟩, rfl⟩
  exact pure ⟨⟨operand, rfl⟩, rfl⟩

theorem place (old : kind.isNew = false) (same : kind'.isNew = false)
    (made : Echoes scope known count bits (Fragment.PlaceEcho known)
      (kind.lower inNew access span) (kind'.lower inNew access span)) :
    Echoes scope known count bits (Fragment.PlaceEcho known)
      ((Node.mk id span kind).lower inNew access) ((Node.mk id span kind').lower inNew access) := by
  unfold Node.lower
  simp only [old, same, Bool.false_and, Bool.false_eq_true, if_false, Bool.or_false]
  refine next get fun _ _ _ => last made ?_
  rintro _ _ ⟨⟨place, rfl⟩, rfl⟩
  exact pure ⟨⟨place, rfl⟩, rfl⟩

end Nodes

end Lower.Echoes

namespace Grammar

open Lower

variable {scope : Lowering.Scope} {known : Nat → Option Bool}

mutual

/-- What is read is echoed by the operand with the choices written out. -/
theorem Reads.echoed {node : Node} {inNew : Bool} (bits : List Bool) : Reads scope.program scope.function node →
    Echoes scope known node.questions bits (Fragment.ValueEcho known)
      (node.lower inNew .read) ((node.answered bits).lower inNew .read)
  | .name => .value rfl rfl (by cases ‹VarRef› <;> exact .pure ⟨⟨_, rfl⟩, rfl⟩)
  | .literal => .value rfl rfl (by cases ‹Literal› <;> exact .readOnly _)
  | .nondet => .value rfl rfl .choice
  | .default => .value rfl rfl (.readOnly _)
  | .unary operand => .value rfl rfl <| by
      refine .last (operand.echoed bits) ?_
      rintro arg _ ⟨_, rfl⟩
      refine .next (.expectValue arg) ?_
      rintro arg _ rfl
      exact .readOnly _
  | .binary computed first second => .value rfl rfl <| by
      simp only [NodeKind.answered, NodeKind.lower, if_neg computed]
      refine .bind (first.echoed bits) ?_
      rintro left _ ⟨_, rfl⟩
      refine .last (second.echoed _) ?_
      rintro right _ ⟨_, rfl⟩
      refine .next (.expectValue left) ?_
      rintro left _ rfl
      refine .next (.expectValue right) ?_
      rintro right _ rfl
      exact .readOnly _
  | @Reads.index _ _ _ _ base key container indexes position => .value rfl rfl <| by
      simp only [NodeKind.answered, NodeKind.lower, if_true, base.answered_id]
      refine .bind (container.echoed bits) ?_
      rintro value _ ⟨_, rfl⟩
      refine .last (position.echoed _) ?_
      rintro key _ ⟨_, rfl⟩
      exact .indexValue _ value key
  | @Reads.field _ _ _ _ base sel container selects => .value rfl rfl <| by
      simp only [NodeKind.answered, NodeKind.lower, base.answered_id]
      refine .last (container.echoed bits) ?_
      rintro value _ ⟨_, rfl⟩
      exact .fieldValue _ _ value
  | .cast operand => .value rfl rfl <| by
      refine .last (operand.echoed bits) ?_
      rintro value _ ⟨_, rfl⟩
      refine .next (.expectValue value) ?_
      rintro value _ rfl
      exact .readOnly _
  | .tuple items => .value rfl rfl <| by
      refine .next (items.unchecked bits) fun _ _ _ => .last (items.echoed bits) ?_
      rintro items _ rfl
      refine .next (.mapM .transferred items) ?_
      rintro operands _ rfl
      rw [← Operand.settleAll_eq_map]
      exact .readOnly (.tuple operands)
  | .namedTuple fields => .value rfl rfl <| by
      refine .next (fields.unchecked bits) fun _ _ _ => .last (fields.echoed bits) ?_
      rintro items _ rfl
      refine .next (.mapM .namedField items) ?_
      rintro fields _ rfl
      rw [← Operand.settleFields_eq_map]
      exact .readOnly (.named fields)
  | .app _ items => .value rfl rfl <| by
      refine .next (items.unchecked bits) fun _ _ _ => .last (items.echoed bits) ?_
      rintro items _ rfl
      refine .next (.checkFunction _) fun _ _ _ => .next (.mapM .argument items) ?_
      rintro args _ rfl
      rw [← Operand.settleArguments_eq_map]
      exact .readOnly (.call _ args)

theorem Items.echoed {list : Option Node} {inNew : Bool} (bits : List Bool) : Items scope.program scope.function list →
    Echoes scope known (questionsOf list) bits (fun items echoed => echoed = items.map (ListItem.settle known))
      (lowerItems inNew false list) (lowerItems inNew false (answeredIn bits list))
  | .nil => .pure rfl
  | .positional first rest => by
      refine .bind (first.echoed bits) ?_
      rintro fragment _ ⟨_, rfl⟩
      refine .last (rest.echoed _) ?_
      rintro others _ rfl
      exact .pure rfl
  | .named first rest => by
      refine .bind (first.echoed bits) ?_
      rintro fragment _ ⟨_, rfl⟩
      refine .last (rest.echoed _) ?_
      rintro others _ rfl
      exact .pure rfl

theorem Items.unchecked {list : Option Node} {own : List Bool} (bits : List Bool) : Items scope.program scope.function list →
    Echoes scope known 0 own (fun _ _ => True) (checkList list) (checkList (answeredIn bits list))
  | .nil => .pure trivial
  | @Items.positional _ _ _ _ _ head _ _ rest => rest.unchecked (bits.drop head.questions)
  | @Items.named _ _ _ _ _ head _ _ rest => rest.unchecked (bits.drop head.questions)

theorem Fields.echoed {list : Option Node} {inNew : Bool} (bits : List Bool) : Fields scope.program scope.function list →
    Echoes scope known (questionsOf list) bits (fun items echoed => echoed = items.map (ListItem.settle known))
      (lowerItems inNew false list) (lowerItems inNew false (answeredIn bits list))
  | .nil => .pure rfl
  | .named first rest => by
      refine .bind (first.echoed bits) ?_
      rintro fragment _ ⟨_, rfl⟩
      refine .last (rest.echoed _) ?_
      rintro others _ rfl
      exact .pure rfl

theorem Fields.unchecked {list : Option Node} {own : List Bool} (bits : List Bool) : Fields scope.program scope.function list →
    Echoes scope known 0 own (fun _ _ => True) (checkList list) (checkList (answeredIn bits list))
  | .nil => .pure trivial
  | @Fields.named _ _ _ _ _ head _ _ rest => rest.unchecked (bits.drop head.questions)

end

/-- What names a place is echoed by the place with the choices written out. -/
theorem Places.echoed {node : Node} {inNew : Bool} (bits : List Bool) (placed : Places scope.program scope.function node) :
    Echoes scope known node.questions bits (Fragment.PlaceEcho known) (node.lower inNew .write)
      ((node.answered bits).lower inNew .write) := by
  induction placed generalizing bits with
  | slot | actorField => exact .place rfl rfl (.pure ⟨⟨_, rfl⟩, rfl⟩)
  | @index _ _ base key _ _ position container =>
      refine .place rfl rfl ?_
      simp only [NodeKind.answered, NodeKind.lower, if_true, base.answered_id]
      refine .bind (container bits) ?_
      rintro place _ ⟨_, rfl⟩
      refine .last (position.echoed _) ?_
      rintro key _ ⟨_, rfl⟩
      exact .indexPlace _ place key
  | @field _ _ base sel _ _ container =>
      refine .place rfl rfl ?_
      simp only [NodeKind.answered, NodeKind.lower, base.answered_id]
      refine .last (container bits) ?_
      rintro place _ ⟨_, rfl⟩
      exact .fieldPlace _ _ place

namespace Arguments

variable {list : Option Node}

theorem echoed {inNew : Bool} (bits : List Bool) (arguments : Arguments scope.program scope.function list) :
    Echoes scope known (questionsOf list) bits (fun items echoed => echoed = items.map (ListItem.settle known))
      (lowerItems inNew true list) (lowerItems inNew true (answeredIn bits list)) := by
  induction arguments generalizing bits with
  | nil => exact .pure rfl
  | swapped first _ rest =>
      refine .bind (first.echoed bits) ?_
      rintro fragment _ ⟨_, rfl⟩
      refine .last (rest _) ?_
      rintro others _ rfl
      exact .pure rfl
  | @positional _ _ qualifier head tail handed first _ rest =>
      have read : (if true && qualifier = .swap then Access.write else .read) = .read := by simp [handed]
      unfold lowerItems
      simp only [answeredIn, Node.answered, NodeKind.answered, Node.lowerCell, read]
      refine .bind (first.echoed bits) ?_
      rintro fragment _ ⟨_, rfl⟩
      refine .last (rest _) ?_
      rintro others _ rfl
      exact .pure rfl
  | named first _ rest =>
      refine .bind (first.echoed bits) ?_
      rintro fragment _ ⟨_, rfl⟩
      refine .last (rest _) ?_
      rintro others _ rfl
      exact .pure rfl

theorem unchecked {own : List Bool} (bits : List Bool) (arguments : Arguments scope.program scope.function list) :
    Echoes scope known 0 own (fun _ _ => True) (checkList list) (checkList (answeredIn bits list)) := by
  induction arguments generalizing bits with
  | nil => exact .pure trivial
  | @swapped _ _ head _ _ _ rest | @positional _ _ _ head _ _ _ _ rest | @named _ _ _ head _ _ _ rest =>
      exact rest (bits.drop head.questions)

end Arguments

theorem optional_echoed {inNew : Bool} {access : Access} {fits : Fragment → Prop} {node : Option Node} (bits : List Bool)
    (each : ∀ part ∈ node, Echoes scope known part.questions bits (fun fragment echoed => fits fragment ∧ echoed = fragment.settle known)
      (part.lower inNew access) ((part.answered bits).lower inNew access)) :
    Echoes scope known (questionsOf node) bits (fun fragment echoed => echoed = fragment.map (Fragment.settle known))
      (lowerOptional inNew access node) (lowerOptional inNew access (answeredIn bits node)) := by
  cases node with
  | none => exact .pure rfl
  | some part =>
      refine .map (each part rfl) ?_
      rintro fragment _ ⟨_, rfl⟩
      rfl

/-- What is assigned to is lowered behind the source of the assignment. -/
theorem Places.assigned {left : Node} {inNew : Bool} {qualifier : Qualifier} (bits : List Bool) (source : Fragment)
    (placed : Places scope.program scope.function left) :
    Echoes scope known left.questions bits (Echoes.Coded known)
      (do match ← left.lowerSelection inNew with
          | some selection => .code <$> assign qualifier source selection
          | none => do
              let dest ← left.lower inNew .write
              .code <$> assign qualifier source (.whole dest))
      (do match ← (left.answered bits).lowerSelection inNew with
          | some selection => .code <$> assign qualifier (source.settle known) selection
          | none => do
              let dest ← (left.answered bits).lower inNew .write
              .code <$> assign qualifier (source.settle known) (.whole dest)) := by
  cases placed with
  | slot | actorField => exact .coded (.assigned qualifier source (.whole (.place _)))
  | @index _ _ base key container _ position =>
      have selected : Echoes scope known (base.questions + key.questions) bits
          (fun selection echoed => ∃ dest, selection = some dest ∧ echoed = some (dest.settle known))
          ((Node.mk ‹_› ‹_› (.binary .index base key)).lowerSelection inNew)
          (((Node.mk ‹_› ‹_› (.binary .index base key)).answered bits).lowerSelection inNew) := by
        simp only [Node.answered, NodeKind.answered, Node.lowerSelection, base.answered_id]
        refine .bind (container.echoed bits) ?_
        rintro place _ ⟨_, rfl⟩
        refine .last (position.echoed _) ?_
        rintro key _ ⟨_, rfl⟩
        exact .pure ⟨_, rfl, rfl⟩
      refine .last selected ?_
      rintro _ _ ⟨dest, rfl, rfl⟩
      exact .coded (.assigned qualifier source dest)
  | @field _ _ base sel container _ =>
      have selected : Echoes scope known base.questions bits
          (fun selection echoed => ∃ dest, selection = some dest ∧ echoed = some (dest.settle known))
          ((Node.mk ‹_› ‹_› (.field base sel)).lowerSelection inNew)
          (((Node.mk ‹_› ‹_› (.field base sel)).answered bits).lowerSelection inNew) := by
        simp only [Node.answered, NodeKind.answered, Node.lowerSelection, base.answered_id]
        refine .last (container.echoed bits) ?_
        rintro place _ ⟨_, rfl⟩
        exact .pure ⟨_, rfl, rfl⟩
      refine .last selected ?_
      rintro _ _ ⟨dest, rfl, rfl⟩
      exact .coded (.assigned qualifier source dest)

/-- Code of a single statement is echoed by the code of the statement whose choices are answered. -/
theorem Statement.echoed {id : NodeId} {span : Span} {kind : NodeKind} (bits : List Bool) (single : kind.isStructured = false)
    (statement : Statement scope.program scope.function (.mk id span kind)) :
    Echoes scope known kind.questions bits (Echoes.Coded known) (kind.lower kind.isNew .read span)
      ((kind.answered bits).lower (kind.answered bits).isNew .read span) := by
  cases statement with
  | receive _ | loop _ _ | branch _ _ _ | seq _ _ | block _ => cases single
  | new items dest =>
      refine .next (items.unchecked bits) fun _ _ _ => .bind (items.echoed bits) ?_
      rintro items _ rfl
      refine .last (optional_echoed _ fun part member => (dest part member).echoed _) ?_
      rintro dest _ rfl
      exact .coded (.new _ items dest)
  | call _ items dest =>
      refine .next (items.unchecked bits) fun _ _ _ => .bind (items.echoed bits) ?_
      rintro items _ rfl
      refine .last (optional_echoed _ fun part member => (dest part member).echoed _) ?_
      rintro dest _ rfl
      exact .coded (.call _ items dest)
  | goto items =>
      refine .next (items.unchecked bits) fun _ _ _ => .last (items.echoed bits) ?_
      rintro items _ rfl
      refine .next (.payload items) ?_
      rintro payload _ rfl
      exact .pure ⟨_, _, rfl, rfl, Echoes.goto _ payload⟩
  | raise alarm items =>
      refine .next (items.unchecked _) fun _ _ _ => .bind (alarm.echoed bits) ?_
      rintro event _ ⟨_, rfl⟩
      refine .last (items.echoed _) ?_
      rintro items _ rfl
      exact .coded (.raise _ event items)
  | send receiver letter items =>
      refine .next (items.unchecked _) fun _ _ _ => .bind (receiver.echoed bits) ?_
      rintro target _ ⟨_, rfl⟩
      refine .bind (letter.echoed _) ?_
      rintro event _ ⟨_, rfl⟩
      refine .last (items.echoed _) ?_
      rintro items _ rfl
      exact .coded (.send _ target event items)
  | announce letter items =>
      refine .next (items.unchecked _) fun _ _ _ => .bind (letter.echoed bits) ?_
      rintro event _ ⟨_, rfl⟩
      refine .last (items.echoed _) ?_
      rintro items _ rfl
      refine .next (.expectValue event) ?_
      rintro event _ rfl
      refine .next (.payload items) ?_
      rintro payload _ rfl
      exact .single rfl
  | assert test =>
      refine .last (test.echoed bits) ?_
      rintro cond _ ⟨_, rfl⟩
      refine .next (.expectValue cond) ?_
      rintro cond _ rfl
      refine .next (.located _ _) ?_
      rintro message _ rfl
      exact .single rfl
  | print items =>
      refine .next (items.unchecked bits) fun _ _ _ => .last (items.echoed bits) ?_
      rintro items _ rfl
      refine .next (.printed items) ?_
      rintro operands _ rfl
      rw [← Operand.settleAll_eq_map]
      exact .single rfl
  | assign handed dest source =>
      simp only [NodeKind.answered, NodeKind.lower, if_neg handed]
      refine .bind (source.echoed bits) ?_
      rintro source _ ⟨_, rfl⟩
      exact dest.assigned _ source
  | exchange dest source =>
      simp only [NodeKind.answered, NodeKind.lower, if_true]
      refine .bind (source.echoed bits) ?_
      rintro source _ ⟨_, rfl⟩
      exact dest.assigned _ source
  | @remove _ _ target _ container _ position =>
      simp only [NodeKind.answered, NodeKind.lower, target.answered_id]
      refine .bind (position.echoed bits) ?_
      rintro key _ ⟨_, rfl⟩
      refine .last (container.echoed _) ?_
      rintro place _ ⟨_, rfl⟩
      refine .next (.expectValue key) ?_
      rintro key _ rfl
      refine .next (.expectPlace place) ?_
      rintro place _ rfl
      refine .next (.containerKind _) ?_
      rintro kind _ rfl
      exact .single rfl
  | @insert _ _ target _ container _ value =>
      simp only [NodeKind.answered, NodeKind.lower, target.answered_id]
      refine .bind (value.echoed bits) ?_
      rintro entry _ ⟨_, rfl⟩
      refine .last (container.echoed _) ?_
      rintro place _ ⟨_, rfl⟩
      refine .next (.expectValue entry) ?_
      rintro entry _ rfl
      refine .next (.expectPlace place) ?_
      rintro place _ rfl
      refine .next (.containerKind _) ?_
      rintro kind _ rfl
      exact .single rfl
  | pop => exact .pure ⟨_, _, rfl, rfl, Echoes.pop⟩
  | ret result =>
      refine .last (optional_echoed bits fun part member => (result part member).echoed bits) ?_
      rintro value _ rfl
      refine .next (.returned value) ?_
      rintro value _ rfl
      exact .pure ⟨_, _, rfl, rfl, Echoes.ret value⟩

end Grammar

end Reentry
