import Reentry.Proofs.Labels.Account

/-!
The accounts of lowering a body: each form of statement or expression issues the labels and marks that
stand in its own code, and promises as many labels as its tree needs.
-/

namespace Reentry.Lower.Books

variable {target : Target}

theorem expectValue (fragment : Fragment) :
    Idle target (expectValue fragment) fun _ => fragment.occurrences target = 0 := by
  cases fragment with
  | value operand => exact pure ⟨rfl, rfl, rfl⟩
  | place _ | code _ => exact unexpected _ _

theorem expectPlace (fragment : Fragment) :
    Idle target (expectPlace fragment) fun _ => fragment.occurrences target = 0 := by
  cases fragment with
  | place place => exact pure ⟨rfl, rfl, rfl⟩
  | value _ | code _ => exact unexpected _ _

theorem expectCode (fragment : Fragment) :
    Idle target (expectCode fragment) fun body => fragment.occurrences target = occurrences target body := by
  cases fragment with
  | code body => exact pure ⟨rfl, rfl, rfl⟩
  | value _ | place _ => exact unexpected _ _

theorem readOnly {access : Access} {operand : Operand} {good : Fragment → Nat → Nat → Prop}
    (holds : good (.value operand) 0 0) : Books target (readOnly access operand) good := by
  cases access with
  | read => exact pure holds
  | write => exact unexpected _ _

theorem typeOf (node : NodeId) : Idle target (typeOf node) fun _ => True := by
  refine bind read fun scope => ?_
  dsimp only
  cases scope.function.typeOf? node with
  | some ty => exact pure (by grind)
  | none => exact throw _

theorem containerKind (node : NodeId) : Idle target (containerKind node) fun _ => True := by
  refine bind (typeOf node) fun ty => ?_
  cases ty <;> first | exact pure (by grind) | exact bind read fun _ => throw _

theorem fieldIndex (base : NodeId) (sel : FieldSel) : Idle target (fieldIndex base sel) fun _ => True := by
  cases sel with
  | index position => exact pure ⟨rfl, rfl, trivial⟩
  | name name =>
      refine bind (typeOf base) fun ty => ?_
      split
      · exact pure (by grind)
      · exact bind read fun _ => throw _

theorem checkFunction (callee : FunctionId) : Idle target (checkFunction callee) fun _ => True := by
  refine bind read fun scope => ?_
  split
  · exact throw _
  · exact pure (by grind)

theorem located (span : Span) (message : String) : Idle target (located span message) fun _ => True := by
  refine bind read fun scope => ?_
  split <;> exact pure (by grind)

theorem name (access : Access) (ref : VarRef) :
    Idle target (name access ref) fun fragment => fragment.occurrences target = 0 := by
  cases ref with
  | slot _ | field _ => cases access <;> exact pure ⟨rfl, rfl, rfl⟩
  | event _ | enumConst _ => exact readOnly ⟨rfl, rfl, rfl⟩

theorem index (access : Access) (base : NodeId) (container key : Fragment) :
    Idle target (index access base container key) fun fragment =>
      fragment.occurrences target = 0 ∧ container.occurrences target = 0 ∧ key.occurrences target = 0 := by
  refine bind (containerKind base) fun kind => ?_
  cases access with
  | read => exact bind (expectValue _) fun _ => bind (expectValue _) fun _ => pure (by grind)
  | write => exact bind (expectPlace _) fun _ => bind (expectValue _) fun _ => pure (by grind)

theorem field (access : Access) (base : NodeId) (sel : FieldSel) (container : Fragment) :
    Idle target (field access base sel container) fun fragment =>
      fragment.occurrences target = 0 ∧ container.occurrences target = 0 := by
  refine bind (fieldIndex base sel) fun position => ?_
  cases access with
  | read => exact bind (expectValue _) fun _ => pure (by grind)
  | write => exact bind (expectPlace _) fun _ => pure (by grind)

theorem transferred (item : ListItem) :
    Idle target item.transferred fun _ => item.fragment.occurrences target = 0 :=
  bind (expectValue _) fun _ => pure (by grind)

theorem namedField (item : ListItem) :
    Idle target item.namedField fun _ => item.fragment.occurrences target = 0 := by
  unfold ListItem.namedField
  split
  · exact bind (transferred item) fun _ => pure (by grind)
  · exact unexpected _ _

theorem argument (item : ListItem) :
    Idle target item.argument fun _ => item.fragment.occurrences target = 0 :=
  bind (transferred item) fun _ => pure (by grind)

/-- Steps on the items of a list that find a value or a place in each. -/
theorem items {β : Type} {work : ListItem → Lower β}
    (idle : ∀ item, Idle target (work item) fun _ => item.fragment.occurrences target = 0) (items : List ListItem) :
    Idle target (items.mapM work) fun _ => ListItem.occurrences target items = 0 :=
  mapM_idle idle items

theorem optional {β : Type} {work : Fragment → Lower β}
    (idle : ∀ fragment, Idle target (work fragment) fun _ => fragment.occurrences target = 0)
    (fragment : Option Fragment) :
    Idle target (fragment.mapM work) fun _ => Fragment.total target fragment.toList = 0 := by
  cases fragment with
  | none => exact pure ⟨rfl, rfl, rfl⟩
  | some fragment => exact map (idle fragment) (by grind)

theorem payload (list : List ListItem) :
    Idle target (payload list) fun _ => ListItem.occurrences target list = 0 :=
  bind (items transferred list) fun _ => pure (by grind)

theorem callArguments (slot : Nat) (list : List ListItem) :
    Idle target (callArguments slot list) fun _ => ListItem.occurrences target list = 0 := by
  induction list generalizing slot with
  | nil => exact pure ⟨rfl, rfl, rfl⟩
  | cons item rest ih =>
      unfold Lower.callArguments
      split
      · exact bind (expectPlace _) fun _ => bind (ih _) fun _ => pure (by grind)
      · exact bind (argument item) fun _ => bind (ih _) fun _ => pure (by grind)

theorem assign (qualifier : Qualifier) (source : Fragment) (dest : Destination) :
    Idle target (assign qualifier source dest) fun code =>
      occurrences target code = 0 ∧ source.occurrences target = 0 ∧ dest.occurrences target = 0 := by
  have value (operand : Operand) : Idle target (assignValue operand dest) fun code =>
      occurrences target code = 0 ∧ dest.occurrences target = 0 := by
    cases dest with
    | element base container key =>
        exact bind (expectPlace _) fun _ => bind (expectValue _) fun _ => bind (containerKind _) fun _ =>
          pure (by grind [occurrences_cons, occurrences_nil, Instr.target?])
    | part base sel container =>
        exact bind (expectPlace _) fun _ => bind (fieldIndex _ _) fun _ =>
          pure (by grind [occurrences_cons, occurrences_nil, Instr.target?])
    | whole dest =>
        exact bind (expectPlace _) fun _ =>
          pure (by grind [occurrences_cons, occurrences_nil, Instr.target?])
  have swap (place : Place) : Idle target (assignSwap place dest) fun code =>
      occurrences target code = 0 ∧ dest.occurrences target = 0 := by
    cases dest with
    | element base container key =>
        exact bind (expectPlace _) fun _ => bind (expectValue _) fun _ => bind (containerKind _) fun _ =>
          pure (by grind [occurrences_cons, occurrences_nil, Instr.target?])
    | part base sel container =>
        exact bind (expectPlace _) fun _ => bind (fieldIndex _ _) fun _ =>
          pure (by grind [occurrences_cons, occurrences_nil, Instr.target?])
    | whole dest =>
        exact bind (expectPlace _) fun _ =>
          pure (by grind [occurrences_cons, occurrences_nil, Instr.target?])
  cases qualifier with
  | swap => exact bind (expectPlace _) fun _ => (swap _).weaken (by grind)
  | none | move => exact bind (expectValue _) fun _ => (value _).weaken (by grind)

/-- Code parts that are put one behind the other. -/
theorem codes (fragments : List Fragment) : Idle target (fragments.mapM Lower.expectCode) fun parts =>
    Fragment.total target fragments = occurrences target parts.flatten := by
  induction fragments with
  | nil => exact pure ⟨rfl, rfl, rfl⟩
  | cons fragment rest ih =>
      rw [List.mapM_cons]
      refine bind (expectCode fragment) fun first => bind ih fun others => pure ?_
      simp only [List.flatten_cons, occurrences_append]
      grind

theorem loop (cond body : Fragment) : Books target (loop cond body) fun code issued promised =>
    promised = 0 ∧ cond.occurrences target = 0 ∧ occurrences target code = body.occurrences target + issued := by
  refine bind (expectValue _) fun _ => bind (expectCode _) fun _ => bind freshMark fun _ => bind freshMark fun _ =>
    pure ?_
  simp only [Template.loop, occurrences_append, occurrences_cons, occurrences_nil, Instr.target?, Option.some.injEq]
  grind

theorem branch (cond onTrue : Fragment) (onFalse : Option Fragment) :
    Books target (branch cond onTrue onFalse) fun code issued promised =>
      promised = 0 ∧ cond.occurrences target = 0 ∧
        occurrences target code = onTrue.occurrences target + Fragment.total target onFalse.toList + issued := by
  refine bind (expectValue _) fun _ => bind (expectCode _) fun _ => bind freshMark fun _ => ?_
  cases onFalse with
  | none =>
      refine pure ?_
      simp only [Template.branch, occurrences_append, occurrences_cons, occurrences_nil, Instr.target?,
        Option.some.injEq, Option.toList_none]
      grind
  | some onFalse =>
      refine bind (expectCode _) fun _ => bind freshMark fun _ => pure ?_
      simp only [Template.branchElse, occurrences_append, occurrences_cons, occurrences_nil, Instr.target?,
        Option.some.injEq, Option.toList_some]
      grind

/-- The arms of a receive have a label each, in front of the handler. -/
theorem receive (cases : List ReceiveCase) : Books target (receive cases) fun code issued promised =>
    issued = occurrences target code ∧ promised = 2 + cases.length := by
  have arm (case : ReceiveCase) : Books target
      (do Pure.pure (⟨case.event, case.handler, ← Lower.freshLabel⟩ : ReceiveArm)) fun arm issued promised =>
        issued = (if .label arm.entry = target then 1 else 0) ∧ promised = 1 :=
    bind freshLabel fun _ => pure (by grind)
  have placed (done : LabelId) (arms : List ReceiveArm) : occurrences target (arms.flatMap (Template.receiveArm done))
      = (arms.map fun arm => if Target.label arm.entry = target then 1 else 0).sum := by
    rw [List.flatMap_def, occurrences_flatten, List.map_map]
    congr 1
    refine List.map_congr_left fun arm _ => ?_
    simp [Template.receiveArm, occurrences_cons, Instr.target?]
  have registered (arms : List ReceiveArm) :
      occurrences target (arms.map fun arm => .registerReceive arm.event) = 0 :=
    occurrences_plain target (by simp [Instr.target?])
  refine bind (forM_idle (fun _ => checkFunction _) cases) fun _ => bind freshLabel fun after =>
    bind freshLabel fun done => bind (mapM_sum arm cases) fun arms => pure ?_
  simp only [Template.receive, Template.suspend, occurrences_append, occurrences_cons, occurrences_nil, placed,
    registered, Instr.target?, Option.some.injEq]
  grind

theorem new (machine : MachineTypeId) (args : List ListItem) (out : Option Fragment) :
    Books target (new machine args out) fun code issued promised => issued = occurrences target code ∧ promised = 1 ∧
      ListItem.occurrences target args = 0 ∧ Fragment.total target out.toList = 0 := by
  refine bind (payload args) fun _ => bind (optional expectPlace out) fun out => bind freshLabel fun _ => pure ?_
  have read : occurrences target (out.toList.map Instr.readCreated) = 0 :=
    occurrences_plain target (by simp [Instr.target?])
  simp only [Template.new, Template.suspend, occurrences_append, occurrences_cons, occurrences_nil, read, Instr.target?,
    Option.some.injEq]
  grind

theorem call (callee : FunctionId) (args : List ListItem) (out : Option Fragment) :
    Books target (call callee args out) fun code issued promised => issued = occurrences target code ∧ promised = 1 ∧
      ListItem.occurrences target args = 0 ∧ Fragment.total target out.toList = 0 := by
  refine bind (checkFunction callee) fun _ => bind (callArguments 0 args) fun lowered =>
    bind (optional expectPlace out) fun out => bind freshLabel fun _ => pure ?_
  have collected : occurrences target (out.toList.map Instr.collectReturn) = 0 :=
    occurrences_plain target (by simp [Instr.target?])
  have written : occurrences target (lowered.2.map fun pair => Instr.writeBack pair.1 pair.2) = 0 :=
    occurrences_plain target (by simp only [List.mem_map]; rintro _ ⟨_, _, rfl⟩; rfl)
  simp only [Template.call, occurrences_append, occurrences_cons, occurrences_nil, collected, written, Instr.target?,
    Option.some.injEq]
  grind

theorem raise (span : Span) (event : Fragment) (args : List ListItem) :
    Idle target (raise span event args) fun code => occurrences target code = 0 ∧
      event.occurrences target = 0 ∧ ListItem.occurrences target args = 0 :=
  bind (expectValue _) fun _ => bind (payload args) fun _ => bind (located span _) fun _ => pure (by
    have plain : ∀ message event payload, occurrences target (Template.raise message event payload) = 0 :=
      fun _ _ _ => occurrences_plain target (by simp [Template.raise, Template.terminate, Instr.target?])
    grind)

theorem send (span : Span) (dest event : Fragment) (args : List ListItem) :
    Books target (send span dest event args) fun code issued promised =>
      issued = occurrences target code ∧ promised = 1 ∧ dest.occurrences target = 0 ∧ event.occurrences target = 0 ∧
        ListItem.occurrences target args = 0 := by
  refine bind (expectValue _) fun _ => bind (expectValue _) fun _ => bind (payload args) fun _ =>
    bind (located span _) fun _ => bind freshLabel fun _ => pure ?_
  simp only [Template.send, Template.suspend, occurrences_append, occurrences_cons, occurrences_nil, Instr.target?,
    Option.some.injEq]
  grind

/-- The choices of a statement get the labels that were promised when they became pending. -/
theorem settleChoices (isLoop : Bool) (kept : Nat) (code : List Instr) :
    Books target (settleChoices isLoop kept code) fun result issued promised =>
      promised = 0 ∧ occurrences target result = occurrences target code + issued := by
  have ask (choice : Nat) : Books target (do Pure.pure (Template.choose (← Lower.freshLabel) choice))
      fun asked issued promised => issued = occurrences target asked ∧ promised = 1 :=
    bind freshLabel fun _ => pure (by
      simp only [Template.choose, Template.suspend, occurrences_append, occurrences_cons, occurrences_nil,
        Instr.target?, Option.some.injEq]
      grind)
  intro scope start result stop succeeds
  obtain ⟨choices, between, taken, asking⟩ := bind_eq_ok.mp succeeds
  obtain ⟨rfl, rfl⟩ := takeChoices_eq_ok.mp taken
  obtain ⟨asks, after, asked, settled⟩ := bind_eq_ok.mp asking
  obtain ⟨rfl, rfl⟩ := pure_eq_ok.mp settled
  obtain ⟨issued, promised, supplied, due, occur, each⟩ := mapM_sum ask _ _ _ _ _ asked
  refine ⟨issued, 0, supplied, ?_, rfl, ?_⟩
  · simp only [Lowering.Progress.promised, List.length_take] at due ⊢
    rw [List.length_drop] at each
    omega
  · rw [occurrences_withChoices, occurrences_flatten]
    omega

mutual

theorem checkCell : (cell : Node) → Idle target (checkCell cell) fun _ => True
  | .mk _ _ kind => by
      cases kind with
      | exprs _ _ tail => exact checkList tail
      | namedExprs _ _ tail => exact checkList tail
      | _ => exact unexpected _ _
termination_by structural cell => cell

theorem checkList : (list : Option Node) → Idle target (checkList list) fun _ => True
  | none => pure ⟨rfl, rfl, trivial⟩
  | some cell => checkCell cell
termination_by structural list => list

end

/-- What is issued for a node stands in its fragment, and its tree tells how much is promised. -/
abbrev Fits (target : Target) (labels : Nat) (work : Lower Fragment) : Prop :=
  Books target work fun fragment issued promised => issued = fragment.occurrences target ∧ promised = labels

theorem node {inNew : Bool} {access : Access} {id : NodeId} {span : Span} {kind : NodeKind}
    (fits : Fits target kind.labels (kind.lower (inNew || kind.isNew) access span)) :
    Fits target (Node.mk id span kind).labels ((Node.mk id span kind).lower inNew access) := by
  unfold Node.lower
  split
  · exact bind read fun _ => throw _
  · have got : Idle target (MonadState.get : Lower Lowering.Progress) fun _ => True := by
      intro scope start result stop succeeds
      obtain ⟨_, rfl⟩ := get_eq_ok.mp succeeds
      exact ⟨0, 0, rfl, rfl, rfl, rfl, trivial⟩
    refine bind got fun progress => bind fits fun fragment => ?_
    cases fragment with
    | code body =>
        refine map (settleChoices _ _ body) fun _ _ _ settled => ?_
        grind
    | value _ | place _ => exact pure (by grind)

mutual

theorem nodeLower (inNew : Bool) (access : Access) : (node : Node) → Fits target node.labels (node.lower inNew access)
  | .mk _ span kind => node (kindLower _ access span kind)

theorem kindLower (inNew : Bool) (access : Access) (span : Span) :
    (kind : NodeKind) → Fits target kind.labels (kind.lower inNew access span)
  | .name ref => (name access ref).weaken (by grind)
  | .lit value => readOnly ⟨rfl, rfl⟩
  | .nondet _ => by
      cases access with
      | read => exact bind freshChoice fun _ => pure (by grind)
      | write => exact unexpected _ _
  | .unary op arg =>
      bind (nodeLower inNew .read arg) fun _ => bind (expectValue _) fun _ =>
        readOnly (by grind)
  | .binary op lhs rhs => by
      unfold NodeKind.lower
      split
      · exact bind (nodeLower inNew access lhs) fun _ => bind (nodeLower inNew .read rhs) fun _ =>
          (index _ _ _ _).weaken (by grind)
      · exact bind (nodeLower inNew .read lhs) fun _ => bind (nodeLower inNew .read rhs) fun _ =>
          bind (expectValue _) fun _ => bind (expectValue _) fun _ => readOnly (by
            grind)
  | .field base sel => bind (nodeLower inNew access base) fun _ => (field _ _ _ _).weaken (by grind)
  | .tuple list =>
      bind (checkCell list) fun _ => bind (cellLower inNew false list) fun _ =>
        bind (items transferred _) fun _ => readOnly (by grind)
  | .namedTuple list =>
      bind (checkCell list) fun _ => bind (cellLower inNew false list) fun _ =>
        bind (items namedField _) fun _ => readOnly (by grind)
  | .default ty => readOnly ⟨rfl, rfl⟩
  | .cast expr ty =>
      bind (nodeLower inNew .read expr) fun _ => bind (expectValue _) fun _ => readOnly (by grind)
  | .app callee args =>
      bind (checkList args) fun _ => bind (itemsLower inNew false args) fun _ => bind (checkFunction callee) fun _ =>
        bind (items argument _) fun _ => readOnly (by grind)
  | .exprs _ _ _ => unexpected _ _
  | .namedExprs _ _ _ => unexpected _ _
  | .new machine args out =>
      bind (checkList args) fun _ => bind (itemsLower inNew false args) fun _ =>
        bind (optionalLower inNew .write out) fun _ => map (new machine _ _) (by grind)
  | .call callee args out =>
      bind (checkList args) fun _ => bind (itemsLower inNew true args) fun _ =>
        bind (optionalLower inNew .write out) fun _ => map (call callee _ _) (by grind)
  | .goto state args =>
      bind (checkList args) fun _ => bind (itemsLower inNew false args) fun _ => bind (payload _) fun _ => pure (by
        have plain : ∀ payload, occurrences target (Template.goto state payload) = 0 :=
          fun _ => occurrences_plain target (by simp [Template.goto, Template.terminate, Instr.target?])
        grind)
  | .raise event args =>
      bind (checkList args) fun _ => bind (nodeLower inNew .read event) fun _ =>
        bind (itemsLower inNew false args) fun _ => map (raise span _ _) (by grind)
  | .send dest event args =>
      bind (checkList args) fun _ => bind (nodeLower inNew .read dest) fun _ =>
        bind (nodeLower inNew .read event) fun _ => bind (itemsLower inNew false args) fun _ =>
          map (send span _ _ _) (by grind)
  | .announce event args =>
      bind (checkList args) fun _ => bind (nodeLower inNew .read event) fun _ =>
        bind (itemsLower inNew false args) fun _ => bind (expectValue _) fun _ => bind (payload _) fun _ =>
          pure (by grind [occurrences_cons, occurrences_nil, Instr.target?])
  | .receive cases => map (receive cases) (by grind)
  | .assert cond message =>
      bind (nodeLower inNew .read cond) fun _ => bind (expectValue _) fun _ => bind (located span _) fun _ =>
        pure (by grind [occurrences_cons, occurrences_nil, Instr.target?])
  | .print format args =>
      bind (checkList args) fun _ => bind (itemsLower inNew false args) fun _ =>
        bind (items (fun _ => expectValue _) _) fun _ => pure (by grind [occurrences_cons, occurrences_nil, Instr.target?])
  | .assign lhs rhs qualifier =>
      bind (nodeLower inNew _ rhs) fun source => bind (selectionLower inNew lhs) fun selection => by
        cases selection with
        | some selection => exact map (assign qualifier source selection) (by grind)
        | none =>
            exact bind (nodeLower inNew .write lhs) fun _ => map (assign qualifier source _) (by grind)
  | .remove container key =>
      bind (nodeLower inNew .read key) fun _ => bind (nodeLower inNew .write container) fun _ =>
        bind (expectValue _) fun _ => bind (expectPlace _) fun _ => bind (containerKind _) fun _ =>
          pure (by grind [occurrences_cons, occurrences_nil, Instr.target?])
  | .insert container entry =>
      bind (nodeLower inNew .read entry) fun _ => bind (nodeLower inNew .write container) fun _ =>
        bind (expectValue _) fun _ => bind (expectPlace _) fun _ => bind (containerKind _) fun _ =>
          pure (by grind [occurrences_cons, occurrences_nil, Instr.target?])
  | .pop => pure ⟨(occurrences_plain target (by simp [Template.pop, Template.terminate, Instr.target?])).symm, rfl⟩
  | .ret value =>
      bind (optionalLower inNew .read value) fun _ => bind (optional expectValue _) fun value => pure (by
        have plain : occurrences target (Template.ret value) = 0 := by
          cases value <;> exact occurrences_plain target (by simp [Template.ret, Template.terminate, Instr.target?])
        grind)
  | .loop cond body =>
      bind (nodeLower inNew .read cond) fun _ => bind (nodeLower inNew .read body) fun _ => map (loop _ _) (by grind)
  | .branch cond onTrue onFalse =>
      bind (nodeLower inNew .read cond) fun _ => bind (nodeLower inNew .read onTrue) fun _ =>
        bind (optionalLower inNew .read onFalse) fun _ => map (branch _ _ _) (by grind)
  | .seq first rest =>
      bind (nodeLower inNew .read first) fun _ => bind (nodeLower inNew .read rest) fun _ =>
        bind (expectCode _) fun _ => bind (expectCode _) fun _ => pure (by grind [occurrences_append])
  | .block statements =>
      bind (allLower inNew statements) fun _ => bind (codes _) fun _ => pure (by grind)

/-- An element or a field that is overwritten is taken apart once; anything else is left alone. -/
theorem selectionLower (inNew : Bool) : (node : Node) → Books target (node.lowerSelection inNew) fun selection issued promised =>
    match selection with
    | some dest => issued = dest.occurrences target ∧ promised = node.labels
    | none => issued = 0 ∧ promised = 0
  | .mk id span kind => by
      cases kind with
      | binary op base key =>
          cases op with
          | index =>
              exact bind (nodeLower inNew .write base) fun _ => bind (nodeLower inNew .read key) fun _ => pure (by grind)
          | _ => exact pure ⟨rfl, rfl⟩
      | field base sel => exact bind (nodeLower inNew .write base) fun _ => pure (by grind)
      | _ => exact pure ⟨rfl, rfl⟩

theorem cellLower (inNew swapsWrite : Bool) : (cell : Node) → Books target (cell.lowerCell inNew swapsWrite)
    fun list issued promised => issued = ListItem.occurrences target list ∧ promised = cell.labels
  | .mk id span kind => by
      cases kind with
      | exprs qualifier head tail =>
          exact bind (nodeLower inNew _ head) fun _ => bind (itemsLower inNew swapsWrite tail) fun _ => pure (by grind)
      | namedExprs name head tail =>
          exact bind (nodeLower inNew _ head) fun _ => bind (itemsLower inNew swapsWrite tail) fun _ => pure (by grind)
      | _ => exact unexpected _ _

theorem itemsLower (inNew swapsWrite : Bool) : (list : Option Node) → Books target (lowerItems inNew swapsWrite list)
    fun list' issued promised => issued = ListItem.occurrences target list' ∧ promised = optionalLabels list
  | none => pure ⟨rfl, rfl⟩
  | some cell => cellLower inNew swapsWrite cell

theorem optionalLower (inNew : Bool) (access : Access) : (node : Option Node) →
    Books target (lowerOptional inNew access node) fun fragment issued promised =>
      issued = Fragment.total target fragment.toList ∧ promised = optionalLabels node
  | none => pure ⟨rfl, rfl⟩
  | some node => map (nodeLower inNew access node) (by grind)

theorem allLower (inNew : Bool) : (nodes : List Node) → Books target (lowerAll inNew nodes)
    fun fragments issued promised => issued = Fragment.total target fragments ∧ promised = allLabels nodes
  | [] => pure ⟨rfl, rfl⟩
  | node :: rest =>
      bind (nodeLower inNew .read node) fun _ => bind (allLower inNew rest) fun _ => pure (by grind)

end

end Reentry.Lower.Books
