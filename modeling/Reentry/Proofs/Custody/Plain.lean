import Reentry.Proofs.Custody.Run
import Reentry.Proofs.Events.Guarded

/-!
Programs whose code looks after cells. What an expression is lowered to is found in a place only if the expression is a
variable, maybe cast, or hands such a thing on. So code is fair if nothing but computed values and copies is stored into
cells; where nothing is moved or swapped, no value is named twice.
-/

namespace Reentry

mutual

/-- Whether the expression is a variable, or a variable that is cast. -/
def Node.isBare : Node → Bool
  | .mk _ _ kind => kind.isBare

def NodeKind.isBare : NodeKind → Bool
  | .name (.slot _) | .name (.field _) => true
  | .cast expr _ => expr.isBare
  | _ => false

end

mutual

/-- Whether every qualifier in the node is none, and no bare variable is inserted. -/
def Node.isPlain : Node → Bool
  | .mk _ _ kind => kind.isPlain

def NodeKind.isPlain : NodeKind → Bool
  | .name _ | .lit _ | .nondet _ | .default _ | .receive _ | .pop => true
  | .unary _ inner | .field inner _ | .tuple inner | .namedTuple inner | .cast inner _ | .assert inner _ => inner.isPlain
  | .binary _ first rest | .remove first rest | .loop first rest | .seq first rest => first.isPlain && rest.isPlain
  | .app _ args | .goto _ args | .print _ args | .ret args => optionalPlain args
  | .exprs qualifier head tail => qualifier == .none && head.isPlain && optionalPlain tail
  | .namedExprs _ head tail => head.isPlain && optionalPlain tail
  | .new _ args out | .call _ args out => optionalPlain args && optionalPlain out
  | .raise event args | .announce event args => event.isPlain && optionalPlain args
  | .send target event args => target.isPlain && event.isPlain && optionalPlain args
  | .assign lhs rhs qualifier => qualifier == .none && lhs.isPlain && rhs.isPlain
  | .insert target entry => !entry.isBare && target.isPlain && entry.isPlain
  | .branch cond onTrue onFalse => cond.isPlain && onTrue.isPlain && optionalPlain onFalse
  | .block statements => allPlain statements

def optionalPlain : Option Node → Bool
  | none => true
  | some node => node.isPlain

def allPlain : List Node → Bool
  | [] => true
  | node :: rest => node.isPlain && allPlain rest

end

/-- Whether every qualifier in the program is none, and no bare variable is inserted. -/
def Program.isPlain (program : Program) : Bool := program.functions.all (·.body.isPlain)

mutual

/-- Whether nothing else names the value of the expression. -/
def Node.isOwned : Node → Bool
  | .mk _ _ kind => kind.isOwned

def NodeKind.isOwned : NodeKind → Bool
  | .name (.slot _) | .name (.field _) => false
  | .cast expr _ => expr.isOwned
  | .tuple list | .namedTuple list => list.handsOwned
  | _ => true

/-- Whether nothing else names the values that the cells of a list hand over. -/
def Node.handsOwned : Node → Bool
  | .mk _ _ (.exprs qualifier head tail) => (qualifier != .move || head.isOwned) && listHandsOwned tail
  | .mk _ _ (.namedExprs _ _ tail) => listHandsOwned tail
  | _ => true

def listHandsOwned : Option Node → Bool
  | none => true
  | some cell => cell.handsOwned

end

mutual

/-- Where every qualifier is none, only bare variables have other names. -/
theorem Node.isOwned_of_isPlain : (node : Node) → node.isPlain → node.isBare = false → node.isOwned
  | .mk _ _ kind, plain, bare => kind.isOwned_of_isPlain plain bare

theorem NodeKind.isOwned_of_isPlain (kind : NodeKind) (plain : kind.isPlain) (bare : kind.isBare = false) : kind.isOwned := by
  cases kind with
  | name ref => cases ref <;> first | rfl | cases bare
  | cast expr _ => exact expr.isOwned_of_isPlain plain bare
  | tuple list | namedTuple list => exact list.handsOwned_of_isPlain plain
  | _ => rfl

theorem Node.handsOwned_of_isPlain : (cell : Node) → cell.isPlain → cell.handsOwned
  | .mk _ _ kind, plain => by
      cases kind with
      | exprs qualifier head tail =>
          obtain ⟨own, others⟩ := Bool.and_eq_true_iff.mp plain
          obtain rfl : qualifier = .none := by simpa using (Bool.and_eq_true_iff.mp own).1
          exact listHandsOwned_of_isPlain tail others
      | namedExprs _ head tail => exact listHandsOwned_of_isPlain tail (Bool.and_eq_true_iff.mp plain).2
      | _ => rfl

theorem listHandsOwned_of_isPlain : (list : Option Node) → optionalPlain list → listHandsOwned list
  | none, _ => rfl
  | some cell, plain => cell.handsOwned_of_isPlain plain

end

namespace Operand

theorem isOwned_cloned (operand : Operand) : operand.cloned.isOwned := by
  cases operand <;> rfl

theorem Fair.cloned {shares : Bool} {operand : Operand} (fair : operand.Fair shares) : operand.cloned.Fair shares := by
  cases operand <;> exact fair

end Operand

theorem allFair_iff {shares : Bool} {operands : List Operand} : AllFair shares operands ↔ ∀ operand ∈ operands, operand.Fair shares := by
  induction operands with
  | nil => simp [AllFair]
  | cons operand rest ih => rw [AllFair, ih, List.forall_mem_cons]

theorem allOwned_iff {operands : List Operand} : allOwned operands ↔ ∀ operand ∈ operands, operand.isOwned := by
  induction operands with
  | nil => simp [allOwned]
  | cons operand rest ih => rw [allOwned, Bool.and_eq_true, ih, List.forall_mem_cons]

theorem fieldsFair_iff {shares : Bool} {fields : List (String × Operand)} :
    FieldsFair shares fields ↔ ∀ field ∈ fields, field.2.Fair shares := by
  induction fields with
  | nil => simp [FieldsFair]
  | cons field rest ih => rw [FieldsFair, ih, List.forall_mem_cons]

theorem fieldsOwned_iff {fields : List (String × Operand)} : fieldsOwned fields ↔ ∀ field ∈ fields, field.2.isOwned := by
  induction fields with
  | nil => simp [fieldsOwned]
  | cons field rest ih => rw [fieldsOwned, Bool.and_eq_true, ih, List.forall_mem_cons]

theorem argumentsFair_iff {shares : Bool} {args : List Argument} : ArgumentsFair shares args ↔ ∀ arg ∈ args, arg.value.Fair shares := by
  induction args with
  | nil => simp [ArgumentsFair]
  | cons arg rest ih =>
      obtain ⟨operand, _⟩ := arg
      rw [ArgumentsFair, ih, List.forall_mem_cons]
      rfl

theorem argumentsOwned_iff {args : List Argument} : argumentsOwned args ↔ ∀ arg ∈ args, arg.value.isOwned := by
  induction args with
  | nil => simp [argumentsOwned]
  | cons arg rest ih =>
      obtain ⟨operand, _⟩ := arg
      rw [argumentsOwned, Bool.and_eq_true, ih, List.forall_mem_cons]
      rfl

/-- An operand is fair, and nothing else names its value, if that is asked for. -/
def Operand.Gives (shares owned : Bool) (operand : Operand) : Prop := operand.Fair shares ∧ (owned → operand.isOwned)

/-- The same of what an expression is lowered to, and of elements of a list, as they are handed over. -/
def Fragment.Gives (shares owned : Bool) : Fragment → Prop
  | .value operand => operand.Gives shares owned
  | .place there => there.Fair shares
  | .code _ => True

def ListItem.Gives (shares owned : Bool) (item : ListItem) : Prop := item.fragment.Gives shares (owned && item.qualifier == .move)

namespace Operand.Gives

variable {shares owned other : Bool} {operand : Operand}

theorem weaken (gives : operand.Gives shares owned) (less : other → owned) : operand.Gives shares other :=
  ⟨gives.1, fun asked => gives.2 (less asked)⟩

theorem cloned (fair : operand.Fair shares) (owned : Bool) : operand.cloned.Gives shares owned := ⟨fair.cloned, fun _ => operand.isOwned_cloned⟩

theorem transferred {qualifier : Qualifier} (gives : operand.Gives shares (owned && qualifier == .move)) :
    (operand.transferred qualifier).Gives shares owned := by
  cases qualifier with
  | move => exact gives.weaken fun asked => by rw [asked]; rfl
  | none | swap => exact .cloned gives.1 owned

end Operand.Gives

theorem Fragment.Gives.weaken {shares owned other : Bool} {fragment : Fragment} (gives : fragment.Gives shares owned) (less : other → owned) :
    fragment.Gives shares other := by
  cases fragment with
  | value operand => exact Operand.Gives.weaken gives less
  | place _ | code _ => exact gives

open Lower

variable {shares owned : Bool} {scope : Lowering.Scope} {start stop : Lowering.Progress} {access : Access}

namespace Lower

/-- What holds of each result that work may have holds of all results. -/
theorem mapM_all {α β : Type} {work : α → Lower β} {good : β → Prop} {items : List α} {results : List β}
    (each : ∀ item ∈ items, ∀ start result stop, work item scope start = .ok (result, stop) → good result)
    (succeeds : items.mapM work scope start = .ok (results, stop)) : ∀ result ∈ results, good result := by
  induction items generalizing start results with
  | nil =>
      rw [List.mapM_nil, pure_eq_ok] at succeeds
      obtain ⟨rfl, _⟩ := succeeds
      exact nofun
  | cons item rest ih =>
      simp only [List.mapM_cons, bind_eq_ok, pure_eq_ok] at succeeds
      obtain ⟨_, _, first, _, _, others, rfl, rfl⟩ := succeeds
      obtain ⟨own, later⟩ := List.forall_mem_cons.mp each
      exact List.forall_mem_cons.mpr ⟨own _ _ _ first, ih later others⟩

end Lower

namespace ListItem

variable {item : ListItem} {items : List ListItem}

theorem transferred_gives {operand : Operand} (gives : item.Gives shares owned)
    (succeeds : item.transferred scope start = .ok (operand, stop)) : operand.Gives shares owned := by
  simp only [transferred, bind_eq_ok, expectValue_eq_ok, pure_eq_ok] at succeeds
  obtain ⟨inner, _, ⟨value, rfl⟩, rfl, rfl⟩ := succeeds
  rw [Gives, value] at gives
  exact Operand.Gives.transferred gives

theorem items_give {operands : List Operand} (give : ∀ item ∈ items, item.Gives shares owned)
    (succeeds : items.mapM transferred scope start = .ok (operands, stop)) : AllFair shares operands ∧ (owned → allOwned operands) := by
  have each := mapM_all (fun item member _ _ _ => transferred_gives (give item member)) succeeds
  exact ⟨allFair_iff.mpr fun operand member => (each operand member).1,
    fun asked => allOwned_iff.mpr fun operand member => (each operand member).2 asked⟩

theorem fields_give {fields : List (String × Operand)} (give : ∀ item ∈ items, item.Gives shares owned)
    (succeeds : items.mapM namedField scope start = .ok (fields, stop)) : FieldsFair shares fields ∧ (owned → fieldsOwned fields) := by
  have each : ∀ field ∈ fields, field.2.Gives shares owned := by
    refine mapM_all (fun item member _ field _ named => ?_) succeeds
    cases name : item.name with
    | none => simp [namedField, name, unexpected_ne_ok] at named
    | some _ =>
        simp only [namedField, name, bind_eq_ok, pure_eq_ok] at named
        obtain ⟨_, _, transferred, rfl, rfl⟩ := named
        exact transferred_gives (give item member) transferred
  exact ⟨fieldsFair_iff.mpr fun field member => (each field member).1,
    fun asked => fieldsOwned_iff.mpr fun field member => (each field member).2 asked⟩

theorem arguments_give {args : List Argument} (give : ∀ item ∈ items, item.Gives shares owned)
    (succeeds : items.mapM argument scope start = .ok (args, stop)) : ArgumentsFair shares args ∧ (owned → argumentsOwned args) := by
  have each : ∀ arg ∈ args, arg.value.Gives shares owned := by
    refine mapM_all (fun item member _ arg _ passed => ?_) succeeds
    simp only [argument, bind_eq_ok, pure_eq_ok] at passed
    obtain ⟨_, _, transferred, rfl, rfl⟩ := passed
    exact transferred_gives (give item member) transferred
  exact ⟨argumentsFair_iff.mpr fun arg member => (each arg member).1,
    fun asked => argumentsOwned_iff.mpr fun arg member => (each arg member).2 asked⟩

theorem payload_gives {operand : Operand} (give : ∀ item ∈ items, item.Gives shares owned) (may : shares = true ∨ owned = true)
    (succeeds : Lower.payload items scope start = .ok (operand, stop)) : operand.Gives shares owned := by
  simp only [Lower.payload, bind_eq_ok, pure_eq_ok] at succeeds
  obtain ⟨operands, _, transferred, rfl, rfl⟩ := succeeds
  obtain ⟨fair, own⟩ := items_give give transferred
  rcases operands with _ | ⟨operand, _ | ⟨_, _⟩⟩
  · exact ⟨trivial, fun _ => rfl⟩
  · exact ⟨fair.1, fun asked => (Bool.and_eq_true_iff.mp (own asked)).1⟩
  · exact ⟨⟨fair, may.imp id own⟩, own⟩

end ListItem

namespace Lower

theorem readOnly_gives {operand : Operand} {fragment : Fragment} (succeeds : readOnly access operand scope start = .ok (fragment, stop))
    (gives : operand.Gives shares owned) : fragment.Gives shares owned := by
  obtain ⟨_, rfl, _⟩ := readOnly_eq_ok.mp succeeds
  exact gives

theorem name_gives {ref : VarRef} {fragment : Fragment} (succeeds : name access ref scope start = .ok (fragment, stop)) :
    fragment.Gives shares (NodeKind.name ref).isOwned := by
  cases ref with
  | slot _ | field _ =>
      obtain ⟨rfl, _⟩ := pure_eq_ok.mp succeeds
      simp only [name.atPlace]
      cases access
      · exact ⟨trivial, by rintro ⟨⟩⟩
      · trivial
  | event _ | enumConst _ => exact readOnly_gives succeeds ⟨trivial, fun _ => rfl⟩

theorem index_gives {other : Bool} {base : NodeId} {container key fragment : Fragment} (found : container.Gives shares owned)
    (found' : key.Gives shares other) (succeeds : index access base container key scope start = .ok (fragment, stop)) :
    fragment.Gives shares true := by
  cases access <;> simp only [index, bind_eq_ok, expectValue_eq_ok, expectPlace_eq_ok, pure_eq_ok] at succeeds <;>
    obtain ⟨_, _, _, _, _, ⟨rfl, _⟩, _, _, ⟨rfl, _⟩, rfl, _⟩ := succeeds
  · exact ⟨⟨found.1, found'.1⟩, fun _ => rfl⟩
  · exact ⟨found, found'.1⟩

theorem field_gives {base : NodeId} {sel : FieldSel} {container fragment : Fragment} (found : container.Gives shares owned)
    (succeeds : field access base sel container scope start = .ok (fragment, stop)) : fragment.Gives shares true := by
  cases access <;> simp only [field, bind_eq_ok, expectValue_eq_ok, expectPlace_eq_ok, pure_eq_ok] at succeeds <;>
    obtain ⟨_, _, _, _, _, ⟨rfl, _⟩, rfl, _⟩ := succeeds
  · exact ⟨found.1, fun _ => rfl⟩
  · exact found

end Lower

mutual

/-- What an expression is lowered to is fair where values may be named once more, or every qualifier in it is none; and if
nothing else is to name its value, nothing else does. -/
theorem Node.lower_gives {inNew : Bool} {access : Access} {start stop : Lowering.Progress} {fragment : Fragment} :
    (node : Node) → shares = true ∨ node.isPlain → node.lower inNew access scope start = .ok (fragment, stop) →
      fragment.Gives shares node.isOwned
  | .mk _ span kind, may, succeeds => by
      unfold Node.lower at succeeds
      split at succeeds
      · exact (throw_ne_ok.mp (bind_eq_ok.mp succeeds).choose_spec.choose_spec.2).elim
      · simp only [bind_eq_ok, get_eq_ok] at succeeds
        obtain ⟨_, _, ⟨rfl, rfl⟩, fragment, _, lowered, settled⟩ := succeeds
        cases fragment with
        | code _ =>
            simp only [map_eq_ok] at settled
            obtain ⟨_, _, rfl⟩ := settled
            trivial
        | value _ | place _ =>
            obtain ⟨rfl, _⟩ := pure_eq_ok.mp settled
            exact NodeKind.lower_gives kind may lowered

theorem NodeKind.lower_gives {inNew : Bool} {access : Access} {span : Span} {start stop : Lowering.Progress} {fragment : Fragment} :
    (kind : NodeKind) → shares = true ∨ kind.isPlain → kind.lower inNew access span scope start = .ok (fragment, stop) →
      fragment.Gives shares kind.isOwned
  | .name _, _, succeeds => name_gives succeeds
  | .lit value, _, succeeds => readOnly_gives succeeds (by cases value <;> exact ⟨trivial, fun _ => rfl⟩)
  | .nondet _, _, succeeds => by
      cases access with
      | read =>
          simp only [NodeKind.lower, bind_eq_ok, pure_eq_ok] at succeeds
          obtain ⟨_, _, _, rfl, _⟩ := succeeds
          exact ⟨trivial, fun _ => rfl⟩
      | write => exact (unexpected_ne_ok.mp succeeds).elim
  | .default _, _, succeeds => readOnly_gives succeeds ⟨trivial, fun _ => rfl⟩
  | .unary _ arg, may, succeeds => by
      simp only [NodeKind.lower, bind_eq_ok, expectValue_eq_ok] at succeeds
      obtain ⟨_, _, lowered, _, _, ⟨rfl, rfl⟩, reads⟩ := succeeds
      exact readOnly_gives reads ⟨(Node.lower_gives arg may lowered).1, fun _ => rfl⟩
  | .binary op lhs rhs, may, succeeds => by
      have left : shares = true ∨ lhs.isPlain := may.imp id fun plain => (Bool.and_eq_true_iff.mp plain).1
      have right : shares = true ∨ rhs.isPlain := may.imp id fun plain => (Bool.and_eq_true_iff.mp plain).2
      by_cases isIndex : op = .index
      · simp only [NodeKind.lower, isIndex, if_true, bind_eq_ok] at succeeds
        obtain ⟨_, _, based, _, _, keyed, indexed⟩ := succeeds
        exact index_gives (Node.lower_gives lhs left based) (Node.lower_gives rhs right keyed) indexed
      · simp only [NodeKind.lower, isIndex, if_false, bind_eq_ok, expectValue_eq_ok] at succeeds
        obtain ⟨_, _, lowered, _, _, lowered', _, _, ⟨rfl, rfl⟩, _, _, ⟨rfl, rfl⟩, reads⟩ := succeeds
        refine readOnly_gives reads ⟨⟨(Node.lower_gives lhs left lowered).1, (Node.lower_gives rhs right lowered').1⟩, fun _ => ?_⟩
        simpa [Operand.isOwned] using isIndex
  | .field base sel, may, succeeds => by
      simp only [NodeKind.lower, bind_eq_ok] at succeeds
      obtain ⟨_, _, based, selected⟩ := succeeds
      exact field_gives (Node.lower_gives base may based) selected
  | .tuple list, may, succeeds => by
      simp only [NodeKind.lower, bind_eq_ok] at succeeds
      obtain ⟨_, _, _, _, _, listed, _, _, transferred, reads⟩ := succeeds
      obtain ⟨fair, own⟩ := ListItem.items_give (Node.lowerCell_gives list may listed) transferred
      exact readOnly_gives reads ⟨⟨fair, may.imp id fun plain => own (list.handsOwned_of_isPlain plain)⟩, own⟩
  | .namedTuple list, may, succeeds => by
      simp only [NodeKind.lower, bind_eq_ok] at succeeds
      obtain ⟨_, _, _, _, _, listed, _, _, transferred, reads⟩ := succeeds
      obtain ⟨fair, own⟩ := ListItem.fields_give (Node.lowerCell_gives list may listed) transferred
      exact readOnly_gives reads ⟨⟨fair, may.imp id fun plain => own (list.handsOwned_of_isPlain plain)⟩, own⟩
  | .cast expr _, may, succeeds => by
      simp only [NodeKind.lower, bind_eq_ok, expectValue_eq_ok] at succeeds
      obtain ⟨_, _, lowered, _, _, ⟨rfl, rfl⟩, reads⟩ := succeeds
      exact readOnly_gives reads (Node.lower_gives expr may lowered)
  | .app _ args, may, succeeds => by
      simp only [NodeKind.lower, bind_eq_ok] at succeeds
      obtain ⟨_, _, _, _, _, listed, _, _, _, _, _, passed, reads⟩ := succeeds
      obtain ⟨fair, own⟩ := ListItem.arguments_give (lowerItems_gives args may listed) passed
      exact readOnly_gives reads ⟨⟨fair, may.imp id fun plain => own (listHandsOwned_of_isPlain args plain)⟩, fun _ => rfl⟩
  | .exprs _ _ _, _, succeeds | .namedExprs _ _ _, _, succeeds => (unexpected_ne_ok.mp succeeds).elim
  | .new _ _ _, _, succeeds | .call _ _ _, _, succeeds | .goto _ _, _, succeeds | .raise _ _, _, succeeds | .send _ _ _, _, succeeds
  | .announce _ _, _, succeeds | .receive _, _, succeeds | .assert _ _, _, succeeds | .print _ _, _, succeeds
  | .remove _ _, _, succeeds | .insert _ _, _, succeeds | .pop, _, succeeds | .ret _, _, succeeds
  | .loop _ _, _, succeeds | .branch _ _ _, _, succeeds | .seq _ _, _, succeeds | .block _, _, succeeds => by
      cases fragment with
      | code _ => trivial
      | value _ | place _ => simp [NodeKind.lower, bind_eq_ok, map_eq_ok, pure_eq_ok] at succeeds
  | .assign _ _ _, _, succeeds => by
      cases fragment with
      | code _ => trivial
      | value _ | place _ =>
          simp only [NodeKind.lower, bind_eq_ok] at succeeds
          obtain ⟨_, _, _, selection, _, _, lowered⟩ := succeeds
          cases selection <;> simp [bind_eq_ok, map_eq_ok] at lowered

theorem Node.lowerCell_gives {inNew swapsWrite : Bool} {start stop : Lowering.Progress} {items : List ListItem} :
    (cell : Node) → shares = true ∨ cell.isPlain → cell.lowerCell inNew swapsWrite scope start = .ok (items, stop) →
      ∀ item ∈ items, item.Gives shares cell.handsOwned
  | .mk _ _ kind, may, succeeds => by
      cases kind with
      | exprs qualifier head tail =>
          simp only [Node.lowerCell, bind_eq_ok, pure_eq_ok] at succeeds
          obtain ⟨_, _, lowered, _, _, listed, rfl, rfl⟩ := succeeds
          have own := Node.lower_gives head (may.imp id fun plain => (Bool.and_eq_true_iff.mp (Bool.and_eq_true_iff.mp plain).1).2) lowered
          have others := lowerItems_gives tail (may.imp id fun plain => (Bool.and_eq_true_iff.mp plain).2) listed
          refine List.forall_mem_cons.mpr ⟨own.weaken fun asked => ?_, fun item member => (others item member).weaken fun asked => ?_⟩
          · simp only [Node.handsOwned, Bool.and_eq_true, Bool.or_eq_true, bne_iff_ne, beq_iff_eq] at asked
            exact asked.1.1.resolve_left fun other => other asked.2
          · simp only [Node.handsOwned, Bool.and_eq_true] at asked ⊢
            exact ⟨asked.1.2, asked.2⟩
      | namedExprs name head tail =>
          simp only [Node.lowerCell, bind_eq_ok, pure_eq_ok] at succeeds
          obtain ⟨_, _, lowered, _, _, listed, rfl, rfl⟩ := succeeds
          have own := Node.lower_gives head (may.imp id fun plain => (Bool.and_eq_true_iff.mp plain).1) lowered
          have others := lowerItems_gives tail (may.imp id fun plain => (Bool.and_eq_true_iff.mp plain).2) listed
          refine List.forall_mem_cons.mpr ⟨own.weaken fun asked => ?_, others⟩
          simp at asked
      | _ => exact (unexpected_ne_ok.mp succeeds).elim

theorem lowerItems_gives {inNew swapsWrite : Bool} {start stop : Lowering.Progress} {items : List ListItem} :
    (list : Option Node) → shares = true ∨ optionalPlain list → lowerItems inNew swapsWrite list scope start = .ok (items, stop) →
      ∀ item ∈ items, item.Gives shares (listHandsOwned list)
  | none, _, succeeds => by
      obtain ⟨rfl, _⟩ := pure_eq_ok.mp succeeds
      exact nofun
  | some cell, may, succeeds => Node.lowerCell_gives cell may succeeds

end

end Reentry
