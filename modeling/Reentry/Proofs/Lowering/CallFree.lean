import Reentry.Proofs.Lowering.Statements

/-!
Expressions that call nothing. If no function is applied in an expression, the operand or the place that it is lowered to
calls none.
-/

namespace Reentry

mutual

/-- Whether no function is called on the way to the place. -/
def Place.isCallFree : Place → Bool
  | .slot _ | .field _ | .trigger | .payload => true
  | .part base _ => base.isCallFree
  | .element base key _ => base.isCallFree && key.isCallFree

/-- Whether no function is called when the operand is evaluated. -/
def Operand.isCallFree : Operand → Bool
  | .const _ | .this | .default _ | .choice _ => true
  | .load place => place.isCallFree
  | .clone inner => inner.isCallFree
  | .unary _ arg => arg.isCallFree
  | .binary _ lhs rhs => lhs.isCallFree && rhs.isCallFree
  | .lookup base key _ => base.isCallFree && key.isCallFree
  | .part base _ => base.isCallFree
  | .tuple items => allCallFree items
  | .named fields => fieldsCallFree fields
  | .cast value _ => value.isCallFree
  | .call _ _ => false

def allCallFree : List Operand → Bool
  | [] => true
  | operand :: rest => operand.isCallFree && allCallFree rest

def fieldsCallFree : List (String × Operand) → Bool
  | [] => true
  | (_, operand) :: rest => operand.isCallFree && fieldsCallFree rest

end

mutual

/-- Whether no function is applied in the expression. -/
def Node.isCallFree : Node → Bool
  | .mk _ _ kind => kind.isCallFree

def NodeKind.isCallFree : NodeKind → Bool
  | .name _ | .lit _ | .nondet _ | .default _ => true
  | .unary _ arg => arg.isCallFree
  | .binary _ lhs rhs => lhs.isCallFree && rhs.isCallFree
  | .field base _ => base.isCallFree
  | .tuple list | .namedTuple list => list.isCallFree
  | .cast expr _ => expr.isCallFree
  | .exprs _ head tail | .namedExprs _ head tail => head.isCallFree && optionalCallFree tail
  | _ => false

def optionalCallFree : Option Node → Bool
  | none => true
  | some node => node.isCallFree

end

/-- Whether nothing is called by what an expression is lowered to. -/
def Fragment.isCallFree : Fragment → Bool
  | .value operand => operand.isCallFree
  | .place there => there.isCallFree
  | .code _ => false

theorem Operand.isCallFree_cloned (operand : Operand) : operand.cloned.isCallFree = operand.isCallFree := by
  cases operand <;> rfl

theorem Operand.isCallFree_transferred (qualifier : Qualifier) (operand : Operand) :
    (operand.transferred qualifier).isCallFree = operand.isCallFree := by
  cases qualifier <;> first | rfl | exact operand.isCallFree_cloned

open Lower

variable {scope : Lowering.Scope} {start stop : Lowering.Progress} {access : Access}

namespace ListItem

theorem transferred_callFree {item : ListItem} {operand : Operand} (free : item.fragment.isCallFree)
    (succeeds : item.transferred scope start = .ok (operand, stop)) : operand.isCallFree := by
  simp only [transferred, bind_eq_ok, expectValue_eq_ok, pure_eq_ok] at succeeds
  obtain ⟨inner, _, ⟨value, rfl⟩, rfl, rfl⟩ := succeeds
  rw [value] at free
  rw [inner.isCallFree_transferred]
  exact free

theorem items_callFree {items : List ListItem} {operands : List Operand} (free : ∀ item ∈ items, item.fragment.isCallFree)
    (succeeds : items.mapM transferred scope start = .ok (operands, stop)) : allCallFree operands := by
  induction items generalizing start operands with
  | nil =>
      simp only [List.mapM_nil, pure_eq_ok] at succeeds
      obtain ⟨rfl, _⟩ := succeeds
      rfl
  | cons item rest ih =>
      simp only [List.mapM_cons, bind_eq_ok, pure_eq_ok] at succeeds
      obtain ⟨operand, _, first, operands, _, others, rfl, rfl⟩ := succeeds
      obtain ⟨own, later⟩ := List.forall_mem_cons.mp free
      exact Bool.and_eq_true_iff.mpr ⟨transferred_callFree own first, ih later others⟩

theorem fields_callFree {items : List ListItem} {fields : List (String × Operand)} (free : ∀ item ∈ items, item.fragment.isCallFree)
    (succeeds : items.mapM namedField scope start = .ok (fields, stop)) : fieldsCallFree fields := by
  induction items generalizing start fields with
  | nil =>
      simp only [List.mapM_nil, pure_eq_ok] at succeeds
      obtain ⟨rfl, _⟩ := succeeds
      rfl
  | cons item rest ih =>
      simp only [List.mapM_cons, bind_eq_ok, pure_eq_ok] at succeeds
      obtain ⟨field, _, first, fields, _, others, rfl, rfl⟩ := succeeds
      obtain ⟨own, later⟩ := List.forall_mem_cons.mp free
      have named : field.2.isCallFree := by
        cases name : item.name with
        | none => simp [namedField, name, unexpected_ne_ok] at first
        | some _ =>
            simp only [namedField, name, bind_eq_ok, pure_eq_ok] at first
            obtain ⟨operand, _, transferred, rfl, rfl⟩ := first
            exact transferred_callFree own transferred
      exact Bool.and_eq_true_iff.mpr ⟨named, ih later others⟩

end ListItem

namespace Lower

theorem readOnly_callFree {operand : Operand} {fragment : Fragment}
    (succeeds : readOnly access operand scope start = .ok (fragment, stop)) (free : operand.isCallFree) : fragment.isCallFree := by
  obtain ⟨_, rfl, _⟩ := readOnly_eq_ok.mp succeeds
  exact free

theorem name_callFree {ref : VarRef} {fragment : Fragment} (succeeds : name access ref scope start = .ok (fragment, stop)) :
    fragment.isCallFree := by
  cases ref with
  | slot _ | field _ =>
      obtain ⟨rfl, _⟩ := pure_eq_ok.mp succeeds
      simp only [name.atPlace]
      cases access <;> rfl
  | event _ | enumConst _ => exact readOnly_callFree succeeds rfl

theorem index_callFree {base : NodeId} {container key fragment : Fragment} (free : container.isCallFree) (keyFree : key.isCallFree)
    (succeeds : index access base container key scope start = .ok (fragment, stop)) : fragment.isCallFree := by
  cases access <;> simp only [index, bind_eq_ok, expectValue_eq_ok, expectPlace_eq_ok, pure_eq_ok] at succeeds <;>
    obtain ⟨_, _, _, _, _, ⟨rfl, _⟩, _, _, ⟨rfl, _⟩, rfl, _⟩ := succeeds <;> exact Bool.and_eq_true_iff.mpr ⟨free, keyFree⟩

theorem field_callFree {base : NodeId} {sel : FieldSel} {container fragment : Fragment} (free : container.isCallFree)
    (succeeds : field access base sel container scope start = .ok (fragment, stop)) : fragment.isCallFree := by
  cases access <;> simp only [field, bind_eq_ok, expectValue_eq_ok, expectPlace_eq_ok, pure_eq_ok] at succeeds <;>
    obtain ⟨_, _, _, _, _, ⟨rfl, _⟩, rfl, _⟩ := succeeds <;> exact free

end Lower

mutual

/-- An expression without calls is lowered to an operand or a place without calls. -/
theorem Node.lower_callFree {inNew : Bool} {access : Access} {start stop : Lowering.Progress} {fragment : Fragment} :
    (node : Node) → node.isCallFree → node.lower inNew access scope start = .ok (fragment, stop) → fragment.isCallFree
  | .mk _ span kind, free, succeeds => by
      unfold Node.lower at succeeds
      split at succeeds
      · exact (throw_ne_ok.mp (bind_eq_ok.mp succeeds).choose_spec.choose_spec.2).elim
      · simp only [bind_eq_ok, get_eq_ok] at succeeds
        obtain ⟨_, _, ⟨rfl, rfl⟩, fragment, _, lowered, settled⟩ := succeeds
        have inner := NodeKind.lower_callFree kind free lowered
        cases fragment with
        | code _ => cases inner
        | value _ | place _ =>
            obtain ⟨rfl, _⟩ := pure_eq_ok.mp settled
            exact inner

theorem NodeKind.lower_callFree {inNew : Bool} {access : Access} {span : Span} {start stop : Lowering.Progress} {fragment : Fragment} :
    (kind : NodeKind) → kind.isCallFree → kind.lower inNew access span scope start = .ok (fragment, stop) → fragment.isCallFree
  | .name _, _, succeeds => name_callFree succeeds
  | .lit value, _, succeeds => readOnly_callFree succeeds (by cases value <;> rfl)
  | .nondet _, _, succeeds => by
      cases access with
      | read =>
          simp only [NodeKind.lower, bind_eq_ok, pure_eq_ok] at succeeds
          obtain ⟨_, _, _, rfl, _⟩ := succeeds
          rfl
      | write => exact (unexpected_ne_ok.mp succeeds).elim
  | .default _, _, succeeds => readOnly_callFree succeeds rfl
  | .unary _ arg, free, succeeds => by
      simp only [NodeKind.lower, bind_eq_ok, expectValue_eq_ok] at succeeds
      obtain ⟨_, _, lowered, _, _, ⟨rfl, rfl⟩, reads⟩ := succeeds
      exact readOnly_callFree reads (Node.lower_callFree arg free lowered)
  | .binary op lhs rhs, free, succeeds => by
      obtain ⟨left, right⟩ := Bool.and_eq_true_iff.mp free
      by_cases isIndex : op = .index
      · simp only [NodeKind.lower, isIndex, if_true, bind_eq_ok] at succeeds
        obtain ⟨_, _, based, _, _, keyed, indexed⟩ := succeeds
        exact index_callFree (Node.lower_callFree lhs left based) (Node.lower_callFree rhs right keyed) indexed
      · simp only [NodeKind.lower, isIndex, if_false, bind_eq_ok, expectValue_eq_ok] at succeeds
        obtain ⟨_, _, lowered, _, _, lowered', _, _, ⟨rfl, rfl⟩, _, _, ⟨rfl, rfl⟩, reads⟩ := succeeds
        exact readOnly_callFree reads
          (Bool.and_eq_true_iff.mpr ⟨Node.lower_callFree lhs left lowered, Node.lower_callFree rhs right lowered'⟩)
  | .field base sel, free, succeeds => by
      simp only [NodeKind.lower, bind_eq_ok] at succeeds
      obtain ⟨_, _, based, selected⟩ := succeeds
      exact field_callFree (Node.lower_callFree base free based) selected
  | .tuple list, free, succeeds => by
      simp only [NodeKind.lower, bind_eq_ok] at succeeds
      obtain ⟨_, _, _, _, _, listed, _, _, transferred, reads⟩ := succeeds
      exact readOnly_callFree reads (ListItem.items_callFree (Node.lowerCell_callFree list free listed) transferred)
  | .namedTuple list, free, succeeds => by
      simp only [NodeKind.lower, bind_eq_ok] at succeeds
      obtain ⟨_, _, _, _, _, listed, _, _, transferred, reads⟩ := succeeds
      exact readOnly_callFree reads (ListItem.fields_callFree (Node.lowerCell_callFree list free listed) transferred)
  | .cast expr _, free, succeeds => by
      simp only [NodeKind.lower, bind_eq_ok, expectValue_eq_ok] at succeeds
      obtain ⟨_, _, lowered, _, _, ⟨rfl, rfl⟩, reads⟩ := succeeds
      exact readOnly_callFree reads (Node.lower_callFree expr free lowered)
  | .exprs _ _ _, _, succeeds | .namedExprs _ _ _, _, succeeds => (unexpected_ne_ok.mp succeeds).elim

theorem Node.lowerCell_callFree {inNew swapsWrite : Bool} {start stop : Lowering.Progress} {items : List ListItem} :
    (cell : Node) → cell.isCallFree → cell.lowerCell inNew swapsWrite scope start = .ok (items, stop) →
      ∀ item ∈ items, item.fragment.isCallFree
  | .mk _ _ kind, free, succeeds => by
      cases kind with
      | exprs _ head tail | namedExprs _ head tail =>
          obtain ⟨own, others⟩ := Bool.and_eq_true_iff.mp free
          simp only [Node.lowerCell, bind_eq_ok, pure_eq_ok] at succeeds
          obtain ⟨_, _, lowered, _, _, listed, rfl, rfl⟩ := succeeds
          exact List.forall_mem_cons.mpr ⟨Node.lower_callFree head own lowered, lowerItems_callFree tail others listed⟩
      | _ => exact (unexpected_ne_ok.mp succeeds).elim

theorem lowerItems_callFree {inNew swapsWrite : Bool} {start stop : Lowering.Progress} {items : List ListItem} :
    (list : Option Node) → optionalCallFree list → lowerItems inNew swapsWrite list scope start = .ok (items, stop) →
      ∀ item ∈ items, item.fragment.isCallFree
  | none, _, succeeds => by
      obtain ⟨rfl, _⟩ := pure_eq_ok.mp succeeds
      exact nofun
  | some cell, free, succeeds => Node.lowerCell_callFree cell free succeeds

end

end Reentry
