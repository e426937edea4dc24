import Reentry.Proofs.Lowering.Monad

/-!
Properties of all steps of lowering. Lowering is put together from few steps: it issues labels and marks,
notes choices and takes them back, fails, and looks at its scope, of whose options it sees all but whether
the result will be checked. What holds of these steps and is kept when one follows another holds of the
lowering of every node.
-/

namespace Reentry

/-- The same scope, with the result checked or not. -/
def Lowering.Scope.withVerify (scope : Lowering.Scope) (verify : Bool) : Lowering.Scope :=
  { scope with options := { scope.options with verify } }

namespace Lower

/-- A property of steps of lowering that is kept when they are put together. -/
class Regular (P : (α : Type) → Lower α → Prop) : Prop where
  pure {α : Type} (value : α) : P α (Pure.pure value)
  bind {α β : Type} {work : Lower α} {rest : α → Lower β} (first : P α work) (later : ∀ value, P β (rest value)) :
    P β (work >>= rest)
  /-- No step fails as a check of the result does. -/
  throw {α : Type} (cause : LowerError) (genuine : ∀ function message, cause ≠ .verification function message) :
    P α (MonadExcept.throw cause)
  /-- A step may depend on the scope, but not on whether the result will be checked. -/
  consult {α : Type} {rest : Lowering.Scope → Lower α} (later : ∀ scope, P α (rest scope))
    (blind : ∀ scope verify, rest (scope.withVerify verify) = rest scope) : P α (read >>= rest)
  get : P Lowering.Progress MonadState.get
  freshLabel : P LabelId freshLabel
  freshMark : P MarkId freshMark
  freshChoice : P Nat freshChoice
  takeChoices (kept : Nat) : P (List Nat) (takeChoices kept)

namespace Regular

variable {α β : Type} {P : (α : Type) → Lower α → Prop} [Regular P]

theorem map {work : Lower α} (change : α → β) (holds : P α work) : P β (change <$> work) := by
  rw [map_eq_pure_bind]
  exact bind holds fun value => pure (change value)

theorem unexpected (expected found : String) : P α (unexpected expected found) :=
  consult (fun _ => throw _ nofun) fun _ _ => rfl

theorem mapM {work : α → Lower β} (holds : ∀ item, P _ (work item)) (items : List α) :
    P _ (items.mapM work) := by
  induction items with
  | nil => exact pure []
  | cons item rest ih =>
      rw [List.mapM_cons]
      exact bind (holds item) fun _ => bind ih fun _ => pure _

theorem forM {work : α → Lower PUnit} (holds : ∀ item, P _ (work item)) (items : List α) :
    P _ (items.forM work) := by
  induction items with
  | nil => exact pure _
  | cons item rest ih => exact bind (holds item) fun _ => ih

theorem optionMapM {work : α → Lower β} (holds : ∀ item, P _ (work item)) (item : Option α) :
    P _ (item.mapM work) := by
  cases item with
  | none => exact pure _
  | some item => exact map _ (holds item)

theorem expectValue (fragment : Fragment) : P _ (expectValue fragment) := by
  cases fragment with
  | value operand => exact pure operand
  | place _ | code _ => exact unexpected _ _

theorem expectPlace (fragment : Fragment) : P _ (expectPlace fragment) := by
  cases fragment with
  | place place => exact pure place
  | value _ | code _ => exact unexpected _ _

theorem expectCode (fragment : Fragment) : P _ (expectCode fragment) := by
  cases fragment with
  | code body => exact pure body
  | value _ | place _ => exact unexpected _ _

theorem readOnly (access : Access) (operand : Operand) : P _ (readOnly access operand) := by
  cases access with
  | read => exact pure _
  | write => exact unexpected _ _

theorem typeOf (node : NodeId) : P _ (typeOf node) := by
  refine consult (fun scope => ?_) fun _ _ => rfl
  dsimp only
  cases scope.function.typeOf? node with
  | some ty => exact pure ty
  | none => exact throw _ nofun

theorem containerKind (node : NodeId) : P _ (containerKind node) := by
  refine bind (typeOf node) fun ty => ?_
  cases ty <;> first | exact pure _ | exact consult (fun _ => throw _ nofun) fun _ _ => rfl

theorem fieldIndex (base : NodeId) (sel : FieldSel) : P _ (fieldIndex base sel) := by
  cases sel with
  | index position => exact pure _
  | name name =>
      refine bind (typeOf base) fun ty => ?_
      split
      · exact pure _
      · exact consult (fun _ => throw _ nofun) fun _ _ => rfl

theorem checkFunction (callee : FunctionId) : P _ (checkFunction callee) := by
  refine consult (fun scope => ?_) fun _ _ => rfl
  split
  · exact throw _ nofun
  · exact pure _

theorem located (span : Span) (message : String) : P _ (located span message) := by
  refine consult (fun scope => ?_) fun _ _ => rfl
  split <;> exact pure _

theorem name (access : Access) (ref : VarRef) : P _ (name access ref) := by
  cases ref with
  | slot _ | field _ => exact pure _
  | event _ | enumConst _ => exact readOnly _ _

theorem index (access : Access) (base : NodeId) (container key : Fragment) :
    P _ (index access base container key) := by
  refine bind (containerKind base) fun kind => ?_
  cases access with
  | read => exact bind (expectValue _) fun _ => bind (expectValue _) fun _ => pure _
  | write => exact bind (expectPlace _) fun _ => bind (expectValue _) fun _ => pure _

theorem field (access : Access) (base : NodeId) (sel : FieldSel) (container : Fragment) :
    P _ (field access base sel container) := by
  refine bind (fieldIndex base sel) fun position => ?_
  cases access with
  | read => exact bind (expectValue _) fun _ => pure _
  | write => exact bind (expectPlace _) fun _ => pure _

theorem transferred (item : ListItem) : P _ item.transferred :=
  bind (expectValue _) fun _ => pure _

theorem namedField (item : ListItem) : P _ item.namedField := by
  unfold ListItem.namedField
  split
  · exact bind (transferred item) fun _ => pure _
  · exact unexpected _ _

theorem argument (item : ListItem) : P _ item.argument :=
  bind (transferred item) fun _ => pure _

theorem payload (items : List ListItem) : P _ (payload items) :=
  bind (mapM transferred items) fun _ => pure _

theorem callArguments (slot : Nat) (items : List ListItem) : P _ (callArguments slot items) := by
  induction items generalizing slot with
  | nil => exact pure _
  | cons item rest ih =>
      unfold Lower.callArguments
      split
      · exact bind (expectPlace _) fun _ => bind (ih _) fun _ => pure _
      · exact bind (argument item) fun _ => bind (ih _) fun _ => pure _

theorem assign (qualifier : Qualifier) (source : Fragment) (dest : Destination) :
    P _ (assign qualifier source dest) := by
  have value (operand : Operand) : P _ (assignValue operand dest) := by
    cases dest with
    | element base container key =>
        exact bind (expectPlace _) fun _ => bind (expectValue _) fun _ => bind (containerKind _) fun _ => pure _
    | part base sel container => exact bind (expectPlace _) fun _ => bind (fieldIndex _ _) fun _ => pure _
    | whole dest => exact bind (expectPlace _) fun _ => pure _
  have swap (place : Place) : P _ (assignSwap place dest) := by
    cases dest with
    | element base container key =>
        exact bind (expectPlace _) fun _ => bind (expectValue _) fun _ => bind (containerKind _) fun _ => pure _
    | part base sel container => exact bind (expectPlace _) fun _ => bind (fieldIndex _ _) fun _ => pure _
    | whole dest => exact bind (expectPlace _) fun _ => pure _
  cases qualifier with
  | swap => exact bind (expectPlace _) swap
  | none | move => exact bind (expectValue _) fun _ => value _

theorem loop (cond body : Fragment) : P _ (loop cond body) :=
  bind (expectValue _) fun _ => bind (expectCode _) fun _ => bind freshMark fun _ => bind freshMark fun _ => pure _

theorem branch (cond onTrue : Fragment) (onFalse : Option Fragment) : P _ (branch cond onTrue onFalse) := by
  refine bind (expectValue _) fun _ => bind (expectCode _) fun _ => bind freshMark fun _ => ?_
  cases onFalse with
  | none => exact pure _
  | some onFalse => exact bind (expectCode _) fun _ => bind freshMark fun _ => pure _

theorem receive (cases : List ReceiveCase) : P _ (receive cases) :=
  bind (forM (fun _ => checkFunction _) cases) fun _ => bind freshLabel fun _ => bind freshLabel fun _ =>
    bind (mapM (fun _ => bind freshLabel fun _ => pure _) cases) fun _ => pure _

theorem new (machine : MachineTypeId) (args : List ListItem) (out : Option Fragment) :
    P _ (new machine args out) :=
  bind (payload args) fun _ => bind (optionMapM expectPlace out) fun _ => bind freshLabel fun _ => pure _

theorem call (callee : FunctionId) (args : List ListItem) (out : Option Fragment) : P _ (call callee args out) :=
  bind (checkFunction callee) fun _ => bind (callArguments 0 args) fun _ =>
    bind (optionMapM expectPlace out) fun _ => bind freshLabel fun _ => pure _

theorem raise (span : Span) (event : Fragment) (args : List ListItem) : P _ (raise span event args) :=
  bind (expectValue _) fun _ => bind (payload args) fun _ => bind (located span _) fun _ => pure _

theorem send (span : Span) (target event : Fragment) (args : List ListItem) : P _ (send span target event args) :=
  bind (expectValue _) fun _ => bind (expectValue _) fun _ => bind (payload args) fun _ =>
    bind (located span _) fun _ => bind freshLabel fun _ => pure _

theorem settleChoices (isLoop : Bool) (kept : Nat) (code : List Instr) : P _ (settleChoices isLoop kept code) :=
  bind (takeChoices kept) fun choices =>
    bind (mapM (fun _ => bind freshLabel fun _ => pure _) choices) fun _ => pure _

mutual

theorem checkCell : (cell : Node) → P _ (checkCell cell)
  | .mk _ _ kind => by
      cases kind with
      | exprs _ _ tail => exact checkList tail
      | namedExprs _ _ tail => exact checkList tail
      | _ => exact unexpected _ _
termination_by structural cell => cell

theorem checkList : (list : Option Node) → P _ (checkList list)
  | none => pure _
  | some cell => checkCell cell
termination_by structural list => list

end

mutual

theorem nodeLower (inNew : Bool) (access : Access) : (node : Node) → P _ (node.lower inNew access)
  | .mk id span kind => by
      unfold Node.lower
      split
      · exact consult (fun _ => throw _ nofun) fun _ _ => rfl
      · refine bind get fun _ => bind (kindLower _ access span kind) fun fragment => ?_
        cases fragment with
        | code body => exact map _ (settleChoices _ _ body)
        | value _ | place _ => exact pure _

theorem kindLower (inNew : Bool) (access : Access) (span : Span) :
    (kind : NodeKind) → P _ (kind.lower inNew access span)
  | .name ref => name access ref
  | .lit value => readOnly access _
  | .nondet _ => by
      cases access with
      | read => exact bind freshChoice fun _ => pure _
      | write => exact unexpected _ _
  | .unary op arg =>
      bind (nodeLower inNew .read arg) fun _ => bind (expectValue _) fun _ => readOnly access _
  | .binary op lhs rhs => by
      unfold NodeKind.lower
      split
      · exact bind (nodeLower inNew access lhs) fun _ => bind (nodeLower inNew .read rhs) fun _ => index _ _ _ _
      · exact bind (nodeLower inNew .read lhs) fun _ => bind (nodeLower inNew .read rhs) fun _ =>
          bind (expectValue _) fun _ => bind (expectValue _) fun _ => readOnly access _
  | .field base sel => bind (nodeLower inNew access base) fun _ => field _ _ _ _
  | .tuple list =>
      bind (checkCell list) fun _ => bind (cellLower inNew false list) fun _ =>
        bind (mapM transferred _) fun _ => readOnly access _
  | .namedTuple list =>
      bind (checkCell list) fun _ => bind (cellLower inNew false list) fun _ =>
        bind (mapM namedField _) fun _ => readOnly access _
  | .default ty => readOnly access _
  | .cast expr ty => bind (nodeLower inNew .read expr) fun _ => bind (expectValue _) fun _ => readOnly access _
  | .app callee args =>
      bind (checkList args) fun _ => bind (itemsLower inNew false args) fun _ =>
        bind (checkFunction callee) fun _ => bind (mapM argument _) fun _ => readOnly access _
  | .exprs _ _ _ => unexpected _ _
  | .namedExprs _ _ _ => unexpected _ _
  | .new machine args out =>
      bind (checkList args) fun _ => bind (itemsLower inNew false args) fun _ =>
        bind (optionalLower inNew .write out) fun _ => map _ (new machine _ _)
  | .call callee args out =>
      bind (checkList args) fun _ => bind (itemsLower inNew true args) fun _ =>
        bind (optionalLower inNew .write out) fun _ => map _ (call callee _ _)
  | .goto state args =>
      bind (checkList args) fun _ => bind (itemsLower inNew false args) fun _ => bind (payload _) fun _ => pure _
  | .raise event args =>
      bind (checkList args) fun _ => bind (nodeLower inNew .read event) fun _ =>
        bind (itemsLower inNew false args) fun _ => map _ (raise span _ _)
  | .send target event args =>
      bind (checkList args) fun _ => bind (nodeLower inNew .read target) fun _ =>
        bind (nodeLower inNew .read event) fun _ => bind (itemsLower inNew false args) fun _ =>
          map _ (send span _ _ _)
  | .announce event args =>
      bind (checkList args) fun _ => bind (nodeLower inNew .read event) fun _ =>
        bind (itemsLower inNew false args) fun _ => bind (expectValue _) fun _ => bind (payload _) fun _ => pure _
  | .receive cases => map _ (receive cases)
  | .assert cond message =>
      bind (nodeLower inNew .read cond) fun _ => bind (expectValue _) fun _ => bind (located span _) fun _ => pure _
  | .print format args =>
      bind (checkList args) fun _ => bind (itemsLower inNew false args) fun _ =>
        bind (mapM (fun _ => expectValue _) _) fun _ => pure _
  | .assign lhs rhs qualifier =>
      bind (nodeLower inNew _ rhs) fun source => bind (selectionLower inNew lhs) fun selection => by
        cases selection with
        | some selection => exact map _ (assign qualifier source selection)
        | none => exact bind (nodeLower inNew .write lhs) fun _ => map _ (assign qualifier source _)
  | .remove target key =>
      bind (nodeLower inNew .read key) fun _ => bind (nodeLower inNew .write target) fun _ =>
        bind (expectValue _) fun _ => bind (expectPlace _) fun _ => bind (containerKind _) fun _ => pure _
  | .insert target entry =>
      bind (nodeLower inNew .read entry) fun _ => bind (nodeLower inNew .write target) fun _ =>
        bind (expectValue _) fun _ => bind (expectPlace _) fun _ => bind (containerKind _) fun _ => pure _
  | .pop => pure _
  | .ret value =>
      bind (optionalLower inNew .read value) fun _ => bind (optionMapM expectValue _) fun _ => pure _
  | .loop cond body =>
      bind (nodeLower inNew .read cond) fun _ => bind (nodeLower inNew .read body) fun _ => map _ (loop _ _)
  | .branch cond onTrue onFalse =>
      bind (nodeLower inNew .read cond) fun _ => bind (nodeLower inNew .read onTrue) fun _ =>
        bind (optionalLower inNew .read onFalse) fun _ => map _ (branch _ _ _)
  | .seq first rest =>
      bind (nodeLower inNew .read first) fun _ => bind (nodeLower inNew .read rest) fun _ =>
        bind (expectCode _) fun _ => bind (expectCode _) fun _ => pure _
  | .block statements =>
      bind (allLower inNew statements) fun _ => bind (mapM expectCode _) fun _ => pure _

theorem selectionLower (inNew : Bool) : (node : Node) → P _ (node.lowerSelection inNew)
  | .mk id span kind => by
      cases kind with
      | binary op base key =>
          cases op with
          | index => exact bind (nodeLower inNew .write base) fun _ => bind (nodeLower inNew .read key) fun _ => pure _
          | _ => exact pure _
      | field base sel => exact bind (nodeLower inNew .write base) fun _ => pure _
      | _ => exact pure _

theorem cellLower (inNew swapsWrite : Bool) : (cell : Node) → P _ (cell.lowerCell inNew swapsWrite)
  | .mk id span kind => by
      cases kind with
      | exprs qualifier head tail =>
          exact bind (nodeLower inNew _ head) fun _ => bind (itemsLower inNew swapsWrite tail) fun _ => pure _
      | namedExprs name head tail =>
          exact bind (nodeLower inNew _ head) fun _ => bind (itemsLower inNew swapsWrite tail) fun _ => pure _
      | _ => exact unexpected _ _

theorem itemsLower (inNew swapsWrite : Bool) : (list : Option Node) → P _ (lowerItems inNew swapsWrite list)
  | none => pure _
  | some cell => cellLower inNew swapsWrite cell

theorem optionalLower (inNew : Bool) (access : Access) :
    (node : Option Node) → P _ (lowerOptional inNew access node)
  | none => pure _
  | some node => map _ (nodeLower inNew access node)

theorem allLower (inNew : Bool) : (nodes : List Node) → P _ (lowerAll inNew nodes)
  | [] => pure _
  | node :: rest => bind (nodeLower inNew .read node) fun _ => bind (allLower inNew rest) fun _ => pure _

end

end Regular

end Lower

end Reentry

/-!
The supply of labels while a body is lowered: labels are only ever issued, never taken back. What is
lowered does not depend on whether the result will be checked, and lowering itself never fails as such a
check does.
-/

namespace Reentry.Lower

/-- Steps of lowering after which no fewer labels are issued than before. -/
def Grows {α : Type} (work : Lower α) : Prop :=
  ∀ scope start result stop, work scope start = .ok (result, stop) → start.supply.labels ≤ stop.supply.labels

instance : Regular @Grows where
  pure value := by
    intro scope start result stop succeeds
    obtain ⟨_, rfl⟩ := pure_eq_ok.mp succeeds
    exact Nat.le_refl _
  bind first later := by
    intro scope start result stop succeeds
    obtain ⟨value, between, done, continued⟩ := bind_eq_ok.mp succeeds
    exact Nat.le_trans (first _ _ _ _ done) (later value _ _ _ _ continued)
  throw cause _ := by
    intro scope start result stop succeeds
    exact (throw_ne_ok.mp succeeds).elim
  consult later _ := by
    intro scope start result stop succeeds
    obtain ⟨_, _, looked, continued⟩ := bind_eq_ok.mp succeeds
    obtain ⟨_, rfl⟩ := read_eq_ok.mp looked
    exact later _ _ _ _ _ continued
  get := by
    intro scope start result stop succeeds
    obtain ⟨_, rfl⟩ := get_eq_ok.mp succeeds
    exact Nat.le_refl _
  freshLabel := by
    intro scope start result stop succeeds
    obtain ⟨_, rfl⟩ := freshLabel_eq_ok.mp succeeds
    exact Nat.le_succ _
  freshMark := by
    intro scope start result stop succeeds
    obtain ⟨_, rfl⟩ := freshMark_eq_ok.mp succeeds
    exact Nat.le_refl _
  freshChoice := by
    intro scope start result stop succeeds
    obtain ⟨_, rfl⟩ := freshChoice_eq_ok.mp succeeds
    exact Nat.le_refl _
  takeChoices kept := by
    intro scope start result stop succeeds
    obtain ⟨_, rfl⟩ := takeChoices_eq_ok.mp succeeds
    exact Nat.le_refl _

/-- Steps of lowering that are the same whether or not the result will be checked. -/
def Blind {α : Type} (work : Lower α) : Prop :=
  ∀ scope start verify, work (Lowering.Scope.withVerify scope verify) start = work scope start

instance : Regular @Blind where
  pure _ := fun _ _ _ => rfl
  bind {_ _ work rest} first later := by
    intro scope start verify
    change (work _ start >>= fun pair => rest pair.1 _ pair.2) = (work _ start >>= fun pair => rest pair.1 _ pair.2)
    rw [first]
    congr 1
    funext pair
    exact later pair.1 scope pair.2 verify
  throw _ _ := fun _ _ _ => rfl
  consult {_ rest} later blind := by
    intro scope start verify
    change rest (scope.withVerify verify) (scope.withVerify verify) start = rest scope scope start
    rw [blind]
    exact later scope scope start verify
  get := fun _ _ _ => rfl
  freshLabel := fun _ _ _ => rfl
  freshMark := fun _ _ _ => rfl
  freshChoice := fun _ _ _ => rfl
  takeChoices _ := fun _ _ _ => rfl

/-- Steps of lowering that never fail as a check of the result does. -/
def Unverified {α : Type} (work : Lower α) : Prop :=
  ∀ scope start function message, work scope start ≠ .error (.verification function message)

instance : Regular @Unverified where
  pure _ := nofun
  bind {_ _ work rest} first later := by
    intro scope start function message
    change (work scope start >>= fun pair => rest pair.1 scope pair.2) ≠ _
    cases done : work scope start with
    | error cause =>
        intro failed
        cases failed
        exact first _ _ _ _ done
    | ok pair => exact later pair.1 scope pair.2 function message
  throw cause genuine := by
    intro scope start function message failed
    cases failed
    exact genuine function message rfl
  consult later _ := fun scope => later scope scope
  get := nofun
  freshLabel := nofun
  freshMark := nofun
  freshChoice := nofun
  takeChoices _ := nofun

end Reentry.Lower
