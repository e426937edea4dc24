import Mathlib.Data.List.Forall2
import Reentry.Proofs.Lowering.Monad

/-!
What single statements are lowered to, said in terms of the places and operands that their nodes are lowered to.
-/

namespace Reentry

/-- Whether a place is part of a container, and then of which one. -/
def Place.selection? : Place → Option (Place × Selector)
  | .part base index => some (base, .part index)
  | .element base key container => some (base, .element key container)
  | _ => none

namespace Instr

/-- The instruction that exchanges two places. -/
def exchanging (dest source : Place) : Instr :=
  match dest.selection? with
  | some (base, selector) => .exchange base selector source
  | none => .swap dest source

/-- The instruction that overwrites a place. -/
def assigning (dest : Place) (value : Operand) : Instr :=
  match dest.selection? with
  | some (base, selector) => .update base selector value
  | none => .assign dest value

end Instr

namespace Argument

/-- The place of which a copy is passed and that is written back after the call. -/
def place? : Argument → Option Place
  | .mk (.clone (.load place)) .swap => some place
  | _ => none

theorem place?_of_ne {value : Operand} {qualifier : Qualifier} (other : qualifier ≠ .swap) : (mk value qualifier).place? = none := by
  cases value with
  | clone inner => cases inner <;> cases qualifier <;> first | rfl | exact absurd rfl other
  | _ => rfl

theorem place?_eq_some {value : Operand} {qualifier : Qualifier} {place : Place} (named : (mk value qualifier).place? = some place) :
    value = .clone (.load place) := by
  cases value with
  | clone inner =>
      cases inner <;> cases qualifier <;> cases named
      rfl
  | _ => cases named

/-- The places that are written back, each with the slot of its parameter; parameters count from `slot` on. -/
def swapped (slot : Nat) (args : List Argument) : List (Place × Nat) :=
  (args.zipIdx slot).filterMap fun (arg, slot) => arg.place?.map (·, slot)

theorem swapped_cons (slot : Nat) (arg : Argument) (args : List Argument) :
    swapped slot (arg :: args) = (arg.place?.map (·, slot)).toList ++ swapped (slot + 1) args := by
  unfold swapped
  rw [List.zipIdx_cons, List.filterMap_cons]
  cases named : arg.place? <;> simp only [named, Option.map_none, Option.map_some, Option.toList_none, Option.toList_some] <;> rfl

theorem mem_swapped {args : List Argument} {place : Place} {slot : Nat} :
    (place, slot) ∈ swapped 0 args ↔ ∃ arg, args[slot]? = some arg ∧ arg.place? = some place := by
  simp only [swapped, List.mem_filterMap, Prod.exists, List.mk_mem_zipIdx_iff_getElem?, Option.map_eq_some_iff, Prod.mk.injEq]
  constructor
  · rintro ⟨arg, _, found, _, named, rfl, rfl⟩
    exact ⟨arg, found, named⟩
  · rintro ⟨arg, found, named⟩
    exact ⟨arg, slot, found, place, named, rfl, rfl⟩

end Argument

/-- What an element of the argument list of a call statement is passed as. -/
def ListItem.Passes (item : ListItem) (arg : Argument) : Prop :=
  match item.qualifier with
  | .swap => ∃ place, item.fragment = .place place ∧ arg = .mk (.clone (.load place)) .swap
  | qualifier => ∃ operand, item.fragment = .value operand ∧ arg = .mk (operand.transferred qualifier) qualifier

open Lower

variable {scope : Lowering.Scope} {start stop : Lowering.Progress} {inNew : Bool}

/-- Outside of `new`, what a node that is no statement is lowered to is left as it is. -/
theorem Node.lower_eq_ok_of {access : Access} {id : NodeId} {span : Span} {kind : NodeKind} {fragment : Fragment}
    (plain : kind.isNew = false) (bare : ∀ code, fragment ≠ .code code)
    (succeeds : kind.lower inNew access span scope start = .ok (fragment, stop)) :
    (Node.mk id span kind).lower inNew access scope start = .ok (fragment, stop) := by
  simp only [Node.lower, plain, Bool.false_and, Bool.false_eq_true, if_false, Bool.or_false, bind_eq_ok, get_eq_ok]
  refine ⟨_, _, ⟨rfl, rfl⟩, fragment, stop, succeeds, ?_⟩
  cases fragment with
  | code code => exact absurd rfl (bare code)
  | value _ | place _ => exact pure_eq_ok.mpr ⟨rfl, rfl⟩

namespace Lower

theorem typeOf_same {node : NodeId} {ty : Ty} (succeeds : typeOf node scope start = .ok (ty, stop)) : start = stop := by
  simp only [typeOf, bind_eq_ok, read_eq_ok] at succeeds
  obtain ⟨_, _, ⟨rfl, rfl⟩, found⟩ := succeeds
  cases known : scope.function.typeOf? node with
  | none => simp [known, throw_ne_ok] at found
  | some ty' =>
      simp only [known, pure_eq_ok] at found
      exact found.2

theorem containerKind_same {node : NodeId} {kind : ContainerKind} (succeeds : containerKind node scope start = .ok (kind, stop)) :
    start = stop := by
  simp only [containerKind, bind_eq_ok] at succeeds
  obtain ⟨ty, middle, typed, found⟩ := succeeds
  obtain rfl := typeOf_same typed
  cases ty <;> simp [pure_eq_ok, bind_eq_ok, throw_ne_ok] at found
  · exact found.2
  · exact found.2

theorem fieldIndex_same {node : NodeId} {sel : FieldSel} {position : Nat}
    (succeeds : fieldIndex node sel scope start = .ok (position, stop)) : start = stop := by
  cases sel with
  | index place => exact (pure_eq_ok.mp succeeds).2
  | name name =>
      simp only [fieldIndex, bind_eq_ok] at succeeds
      obtain ⟨ty, middle, typed, found⟩ := succeeds
      obtain rfl := typeOf_same typed
      cases position : ty.fieldIndex? name with
      | none => simp [position, bind_eq_ok, throw_ne_ok] at found
      | some place =>
          simp only [position, pure_eq_ok] at found
          exact found.2

/-- The code of an assignment to a place. -/
def Assigns (qualifier : Qualifier) (source : Fragment) (dest : Place) (code : List Instr) : Prop :=
  match qualifier with
  | .swap => ∃ place, source = .place place ∧ code = [.exchanging dest place]
  | qualifier => ∃ value, source = .value value ∧ code = [.assigning dest (value.transferred qualifier)]

/-- An assignment is one instruction of these four. -/
@[elab_as_elim] theorem Assigns.elim {motive : List Instr → Prop} {qualifier : Qualifier} {source : Fragment} {dest : Place} {code : List Instr}
    (assigns : Assigns qualifier source dest code) (exchange : ∀ base selector place, motive [.exchange base selector place])
    (swap : ∀ dest place, motive [.swap dest place]) (update : ∀ base selector value, motive [.update base selector value])
    (assign : ∀ dest value, motive [.assign dest value]) : motive code := by
  unfold Assigns at assigns
  split at assigns <;> obtain ⟨_, _, rfl⟩ := assigns
  · unfold Instr.exchanging
    split
    · exact exchange _ _ _
    · exact swap _ _
  · unfold Instr.assigning
    split
    · exact update _ _ _
    · exact assign _ _

/-- What is put together from a container and a key is the same as from the place of the element. -/
theorem assign_element_eq_ok {qualifier : Qualifier} {source container key : Fragment} {base : NodeId} {code : List Instr}
    (succeeds : assign qualifier source (.element base container key) scope start = .ok (code, stop)) :
    ∃ dest, index .write base container key scope start = .ok (.place dest, stop) ∧ Assigns qualifier source dest code := by
  cases qualifier <;>
    simp only [assign, assignSwap, assignValue, bind_eq_ok, expectPlace_eq_ok, expectValue_eq_ok, pure_eq_ok] at succeeds <;>
    obtain ⟨value, _, ⟨rfl, rfl⟩, place, _, ⟨rfl, rfl⟩, operand, _, ⟨rfl, rfl⟩, kind, _, known, rfl, rfl⟩ := succeeds <;>
    obtain rfl := containerKind_same known <;>
    refine ⟨.element place operand kind, ?_, value, rfl, rfl⟩ <;>
    simp only [index, bind_eq_ok, expectPlace_eq_ok, expectValue_eq_ok, pure_eq_ok] <;>
    exact ⟨kind, _, known, place, _, ⟨rfl, rfl⟩, operand, _, ⟨rfl, rfl⟩, rfl, rfl⟩

theorem assign_part_eq_ok {qualifier : Qualifier} {source container : Fragment} {base : NodeId} {sel : FieldSel} {code : List Instr}
    (succeeds : assign qualifier source (.part base sel container) scope start = .ok (code, stop)) :
    ∃ dest, field .write base sel container scope start = .ok (.place dest, stop) ∧ Assigns qualifier source dest code := by
  cases qualifier <;>
    simp only [assign, assignSwap, assignValue, bind_eq_ok, expectPlace_eq_ok, expectValue_eq_ok, pure_eq_ok] at succeeds <;>
    obtain ⟨value, _, ⟨rfl, rfl⟩, place, _, ⟨rfl, rfl⟩, position, _, known, rfl, rfl⟩ := succeeds <;>
    obtain rfl := fieldIndex_same known <;>
    refine ⟨.part place position, ?_, value, rfl, rfl⟩ <;>
    simp only [field, bind_eq_ok, expectPlace_eq_ok, pure_eq_ok] <;>
    exact ⟨position, _, known, place, _, ⟨rfl, rfl⟩, rfl, rfl⟩

theorem assign_whole_eq_ok {qualifier : Qualifier} {source whole : Fragment} {code : List Instr}
    (succeeds : assign qualifier source (.whole whole) scope start = .ok (code, stop)) :
    start = stop ∧ ∃ dest, whole = .place dest ∧ (dest.selection? = none → Assigns qualifier source dest code) := by
  cases qualifier <;>
    simp only [assign, assignSwap, assignValue, bind_eq_ok, expectPlace_eq_ok, expectValue_eq_ok, pure_eq_ok] at succeeds <;>
    obtain ⟨value, _, ⟨rfl, rfl⟩, place, _, ⟨rfl, rfl⟩, rfl, rfl⟩ := succeeds <;>
    refine ⟨rfl, place, rfl, fun simple => ⟨value, rfl, ?_⟩⟩ <;>
    simp only [Instr.exchanging, Instr.assigning, simple]

theorem lower_place_eq_ok {access : Access} {id : NodeId} {span : Span} {kind : NodeKind} {place : Place}
    (succeeds : (Node.mk id span kind).lower inNew access scope start = .ok (.place place, stop)) :
    (kind.isNew && inNew) = false ∧ kind.lower (inNew || kind.isNew) access span scope start = .ok (.place place, stop) := by
  simp only [Node.lower] at succeeds
  cases nested : kind.isNew && inNew with
  | true =>
      simp only [nested, if_true, nestedNew, bind_eq_ok, throw_ne_ok] at succeeds
      obtain ⟨_, _, _, impossible⟩ := succeeds
      exact impossible.elim
  | false =>
      simp only [nested, Bool.false_eq_true, if_false, bind_eq_ok, get_eq_ok] at succeeds
      obtain ⟨_, _, ⟨rfl, rfl⟩, fragment, _, lowered, kept⟩ := succeeds
      refine ⟨rfl, ?_⟩
      cases fragment with
      | code code => simp [map_eq_ok] at kept
      | value _ | place _ =>
          obtain ⟨same, rfl⟩ := pure_eq_ok.mp kept
          rw [← same]
          exact lowered

/-- A node that is neither an index nor a field is lowered to a variable, if to a place at all. -/
theorem lower_variable {id : NodeId} {span : Span} {kind : NodeKind} {place : Place}
    (noIndex : ∀ base key, kind ≠ .binary .index base key) (noField : ∀ base sel, kind ≠ .field base sel)
    (succeeds : (Node.mk id span kind).lower inNew .write scope start = .ok (.place place, stop)) : place.selection? = none := by
  obtain ⟨noNested, succeeds⟩ := lower_place_eq_ok succeeds
  cases kind with
  | name ref =>
      cases ref <;> simp [NodeKind.lower, name, name.atPlace, pure_eq_ok, readOnly_eq_ok] at succeeds
      all_goals
        obtain ⟨rfl, _⟩ := succeeds
        rfl
  | binary op base key =>
      have other : op ≠ .index := fun same => noIndex base key (same ▸ rfl)
      simp [NodeKind.lower, other, bind_eq_ok, readOnly_eq_ok] at succeeds
  | field base sel => exact absurd rfl (noField base sel)
  | assign _ _ _ =>
      simp only [NodeKind.lower, bind_eq_ok] at succeeds
      obtain ⟨_, _, _, selection, _, _, lowered⟩ := succeeds
      cases selection <;> simp [bind_eq_ok, map_eq_ok] at lowered
  | _ => simp [NodeKind.lower, bind_eq_ok, map_eq_ok, pure_eq_ok, readOnly_eq_ok, unexpected_ne_ok] at succeeds

end Lower

/-- What an assignment is lowered to. -/
theorem NodeKind.assign_eq_ok {access : Access} {span : Span} {left right : Node} {qualifier : Qualifier} {code : List Instr}
    (succeeds : (NodeKind.assign left right qualifier).lower inNew access span scope start = .ok (.code code, stop)) :
    ∃ source dest middle, right.lower inNew (if qualifier = .swap then .write else .read) scope start = .ok (source, middle) ∧
      left.lower inNew .write scope middle = .ok (.place dest, stop) ∧ Assigns qualifier source dest code := by
  simp only [NodeKind.lower, bind_eq_ok] at succeeds
  obtain ⟨source, middle, lowered, selected, between, selects, assigns⟩ := succeeds
  obtain ⟨id, span', kind⟩ := left
  -- an index and a field are taken apart, anything else is lowered as a whole
  by_cases isIndex : ∃ base key, kind = .binary .index base key
  · obtain ⟨base, key, rfl⟩ := isIndex
    simp only [Node.lowerSelection, bind_eq_ok, pure_eq_ok] at selects
    obtain ⟨container, _, based, key', _, keyed, rfl, rfl⟩ := selects
    simp only [map_eq_ok, Fragment.code.injEq] at assigns
    obtain ⟨_, assigns, rfl⟩ := assigns
    obtain ⟨dest, indexed, shape⟩ := assign_element_eq_ok assigns
    refine ⟨source, dest, middle, lowered, Node.lower_eq_ok_of rfl (by simp) ?_, shape⟩
    simp only [NodeKind.lower, if_true, bind_eq_ok]
    exact ⟨container, _, based, key', _, keyed, indexed⟩
  · by_cases isField : ∃ base sel, kind = .field base sel
    · obtain ⟨base, sel, rfl⟩ := isField
      simp only [Node.lowerSelection, bind_eq_ok, pure_eq_ok] at selects
      obtain ⟨container, _, based, rfl, rfl⟩ := selects
      simp only [map_eq_ok, Fragment.code.injEq] at assigns
      obtain ⟨_, assigns, rfl⟩ := assigns
      obtain ⟨dest, selected, shape⟩ := assign_part_eq_ok assigns
      refine ⟨source, dest, middle, lowered, Node.lower_eq_ok_of rfl (by simp) ?_, shape⟩
      simp only [NodeKind.lower, bind_eq_ok]
      exact ⟨container, _, based, selected⟩
    · have whole : (Node.mk id span' kind).lowerSelection inNew = pure none := by
        cases kind with
        | binary op base key =>
            cases op <;> first | rfl | exact absurd ⟨base, key, rfl⟩ isIndex
        | field base sel => exact absurd ⟨base, sel, rfl⟩ isField
        | _ => rfl
      rw [whole, pure_eq_ok] at selects
      obtain ⟨rfl, rfl⟩ := selects
      simp only [bind_eq_ok, map_eq_ok, Fragment.code.injEq] at assigns
      obtain ⟨fragment, _, placed, _, assigns, rfl⟩ := assigns
      obtain ⟨rfl, dest, rfl, shape⟩ := assign_whole_eq_ok assigns
      refine ⟨source, dest, middle, lowered, placed, shape (lower_variable ?_ ?_ placed)⟩
      · exact fun base key same => isIndex ⟨base, key, same⟩
      · exact fun base sel same => isField ⟨base, sel, same⟩

namespace Lower

mutual

theorem checkCell_same {start stop : Lowering.Progress} :
    (cell : Node) → checkCell cell scope start = .ok ((), stop) → start = stop
  | .mk _ _ kind => fun succeeds => by
      cases kind with
      | exprs _ _ tail | namedExprs _ _ tail => exact checkList_same tail succeeds
      | _ => simp [checkCell, unexpected_ne_ok] at succeeds

theorem checkList_same {start stop : Lowering.Progress} :
    (list : Option Node) → checkList list scope start = .ok ((), stop) → start = stop
  | none => fun succeeds => (pure_eq_ok.mp succeeds).2
  | some cell => fun succeeds => checkCell_same cell succeeds

end

theorem checkFunction_same {callee : FunctionId} (succeeds : checkFunction callee scope start = .ok ((), stop)) : start = stop := by
  simp only [checkFunction, bind_eq_ok, read_eq_ok] at succeeds
  obtain ⟨_, _, ⟨rfl, rfl⟩, known⟩ := succeeds
  cases missing : (scope.program.function? callee).isNone with
  | true => simp [missing, throw_ne_ok] at known
  | false =>
      simp only [missing, Bool.false_eq_true, if_false, pure_eq_ok] at known
      exact known.2

theorem argument_eq_ok {item : ListItem} {arg : Argument} (succeeds : item.argument scope start = .ok (arg, stop)) :
    start = stop ∧ ∃ operand, item.fragment = .value operand ∧ arg = .mk (operand.transferred item.qualifier) item.qualifier := by
  simp only [ListItem.argument, ListItem.transferred, bind_eq_ok, expectValue_eq_ok, pure_eq_ok] at succeeds
  obtain ⟨_, _, ⟨operand, _, ⟨value, rfl⟩, rfl, rfl⟩, rfl, rfl⟩ := succeeds
  exact ⟨rfl, operand, value, rfl⟩

/-- Each item is passed as an argument, and what is written back are the places of those that are swapped. -/
theorem callArguments_eq_ok {slot : Nat} {items : List ListItem} {args : List Argument} {writeBacks : List (Place × Nat)}
    (succeeds : callArguments slot items scope start = .ok ((args, writeBacks), stop)) :
    start = stop ∧ List.Forall₂ ListItem.Passes items args ∧ writeBacks = Argument.swapped slot args := by
  induction items generalizing slot args writeBacks with
  | nil =>
      simp only [callArguments, pure_eq_ok, Prod.mk.injEq] at succeeds
      obtain ⟨⟨rfl, rfl⟩, rfl⟩ := succeeds
      exact ⟨rfl, .nil, rfl⟩
  | cons item rest ih =>
      rw [callArguments] at succeeds
      cases qualifier : item.qualifier with
      | swap =>
          simp only [qualifier, bind_eq_ok, expectPlace_eq_ok, pure_eq_ok, Prod.mk.injEq, Prod.exists] at succeeds
          obtain ⟨place, _, ⟨named, rfl⟩, others, backs, _, later, ⟨rfl, rfl⟩, rfl⟩ := succeeds
          obtain ⟨rfl, passed, rfl⟩ := ih later
          refine ⟨rfl, .cons ?_ passed, ?_⟩
          · simp only [ListItem.Passes, qualifier]
            exact ⟨place, named, rfl⟩
          · rw [Argument.swapped_cons]
            rfl
      | none | move =>
          simp only [qualifier, bind_eq_ok, pure_eq_ok, Prod.mk.injEq, Prod.exists] at succeeds
          obtain ⟨arg, _, first, others, backs, _, later, ⟨rfl, rfl⟩, rfl⟩ := succeeds
          obtain ⟨rfl, operand, named, rfl⟩ := argument_eq_ok first
          obtain ⟨rfl, passed, rfl⟩ := ih later
          refine ⟨rfl, .cons ?_ passed, ?_⟩
          · simp only [ListItem.Passes, qualifier]
            exact ⟨operand, named, rfl⟩
          · rw [Argument.swapped_cons, qualifier, Argument.place?_of_ne (by decide)]
            rfl

/-- An output place is lowered to a place. -/
theorem out_eq_ok {out : Option Fragment} {dest : Option Place} (succeeds : out.mapM expectPlace scope start = .ok (dest, stop)) :
    start = stop ∧ out = dest.map .place := by
  cases out with
  | none =>
      obtain ⟨rfl, rfl⟩ := pure_eq_ok.mp succeeds
      exact ⟨rfl, rfl⟩
  | some fragment =>
      simp only [Option.mapM_some, map_eq_ok, expectPlace_eq_ok] at succeeds
      obtain ⟨place, ⟨rfl, rfl⟩, rfl⟩ := succeeds
      exact ⟨rfl, rfl⟩

/-- What is returned is lowered to a value. -/
theorem value_eq_ok {returned : Option Fragment} {value : Option Operand} (succeeds : returned.mapM expectValue scope start = .ok (value, stop)) :
    start = stop ∧ returned = value.map .value := by
  cases returned with
  | none =>
      obtain ⟨rfl, rfl⟩ := pure_eq_ok.mp succeeds
      exact ⟨rfl, rfl⟩
  | some fragment =>
      simp only [Option.mapM_some, map_eq_ok, expectValue_eq_ok] at succeeds
      obtain ⟨operand, ⟨rfl, rfl⟩, rfl⟩ := succeeds
      exact ⟨rfl, rfl⟩

theorem name_ne_code {access : Access} {ref : VarRef} {code : List Instr} :
    name access ref scope start ≠ .ok (.code code, stop) := by
  intro succeeds
  cases ref <;> cases access <;>
    simp [name, name.atPlace, readOnly_eq_ok, pure_eq_ok] at succeeds

theorem index_ne_code {access : Access} {base : NodeId} {container key : Fragment} {code : List Instr} :
    index access base container key scope start ≠ .ok (.code code, stop) := by
  intro succeeds
  cases access <;> simp [index, bind_eq_ok, map_eq_ok] at succeeds

theorem field_ne_code {access : Access} {base : NodeId} {sel : FieldSel} {container : Fragment}
    {code : List Instr} : field access base sel container scope start ≠ .ok (.code code, stop) := by
  intro succeeds
  cases access <;> simp [field, bind_eq_ok, map_eq_ok] at succeeds

theorem located_same {span : Span} {text message : String} (succeeds : located span text scope start = .ok (message, stop)) : start = stop := by
  simp only [located, bind_eq_ok, read_eq_ok] at succeeds
  obtain ⟨_, _, ⟨rfl, rfl⟩, told⟩ := succeeds
  split at told <;> exact (pure_eq_ok.mp told).2

end Lower

namespace NodeKind

/-- Statements that have statements inside, and the receive, whose arms are code of their own. -/
def isStructured : NodeKind → Bool
  | .receive _ | .loop .. | .branch .. | .seq .. | .block _ => true
  | _ => false

/-- What a statement without inner statements is lowered to, form by form, after its parts, one after the other. -/
inductive Written (scope : Lowering.Scope) (inNew : Bool) : NodeKind → Lowering.Progress → List Instr → Lowering.Progress → Prop
  | new {machine : MachineTypeId} {args out : Option Node} {items : List ListItem} {dest : Option Place} {payload : Operand} {resume : LabelId}
      {start first second third stop : Lowering.Progress} (listed : lowerItems inNew false args scope start = .ok (items, first))
      (placed : lowerOptional inNew .write out scope first = .ok (dest.map .place, second))
      (paid : Lower.payload items scope second = .ok (payload, third)) (fresh : freshLabel scope third = .ok (resume, stop)) :
      Written scope inNew (.new machine args out) start (Template.new machine payload dest resume) stop
  | call {callee : FunctionId} {args out : Option Node} {items : List ListItem} {passed : List Argument} {dest : Option Place} {landing : LabelId}
      {start first second stop : Lowering.Progress} (listed : lowerItems inNew true args scope start = .ok (items, first))
      (placed : lowerOptional inNew .write out scope first = .ok (dest.map .place, second)) (passes : List.Forall₂ ListItem.Passes items passed)
      (fresh : freshLabel scope second = .ok (landing, stop)) :
      Written scope inNew (.call callee args out) start (Template.call callee passed dest (Argument.swapped 0 passed) landing) stop
  | goto {state : StateId} {args : Option Node} {items : List ListItem} {payload : Operand} {start first stop : Lowering.Progress}
      (listed : lowerItems inNew false args scope start = .ok (items, first)) (paid : Lower.payload items scope first = .ok (payload, stop)) :
      Written scope inNew (.goto state args) start (Template.goto state payload) stop
  | raise {event : Node} {args : Option Node} {operand payload : Operand} {items : List ListItem} {message : String}
      {start first second stop : Lowering.Progress} (named : event.lower inNew .read scope start = .ok (.value operand, first))
      (listed : lowerItems inNew false args scope first = .ok (items, second)) (paid : Lower.payload items scope second = .ok (payload, stop)) :
      Written scope inNew (.raise event args) start (Template.raise message operand payload) stop
  | send {target event : Node} {args : Option Node} {receiver operand payload : Operand} {items : List ListItem} {message : String}
      {resume : LabelId} {start first second third fourth stop : Lowering.Progress}
      (aimed : target.lower inNew .read scope start = .ok (.value receiver, first))
      (named : event.lower inNew .read scope first = .ok (.value operand, second))
      (listed : lowerItems inNew false args scope second = .ok (items, third)) (paid : Lower.payload items scope third = .ok (payload, fourth))
      (fresh : freshLabel scope fourth = .ok (resume, stop)) :
      Written scope inNew (.send target event args) start (Template.send message receiver operand payload resume) stop
  | announce {event : Node} {args : Option Node} {operand payload : Operand} {items : List ListItem} {start first second stop : Lowering.Progress}
      (named : event.lower inNew .read scope start = .ok (.value operand, first))
      (listed : lowerItems inNew false args scope first = .ok (items, second)) (paid : Lower.payload items scope second = .ok (payload, stop)) :
      Written scope inNew (.announce event args) start [.announce operand payload] stop
  | assert {cond : Node} {text : Option String} {operand : Operand} {message : String} {start stop : Lowering.Progress}
      (tested : cond.lower inNew .read scope start = .ok (.value operand, stop)) :
      Written scope inNew (.assert cond text) start [.assert operand message] stop
  | print {format : String} {args : Option Node} {items : List ListItem} {operands : List Operand} {start first stop : Lowering.Progress}
      (listed : lowerItems inNew false args scope start = .ok (items, first))
      (valued : (items.mapM fun item => expectValue item.fragment) scope first = .ok (operands, stop)) :
      Written scope inNew (.print format args) start [.print format operands] stop
  | assign {left right : Node} {qualifier : Qualifier} {source : Fragment} {dest : Place} {code : List Instr}
      {start first stop : Lowering.Progress}
      (valued : right.lower inNew (if qualifier = .swap then .write else .read) scope start = .ok (source, first))
      (placed : left.lower inNew .write scope first = .ok (.place dest, stop)) (assigns : Assigns qualifier source dest code) :
      Written scope inNew (.assign left right qualifier) start code stop
  | remove {target key : Node} {operand : Operand} {place : Place} {container : ContainerKind} {start first stop : Lowering.Progress}
      (named : key.lower inNew .read scope start = .ok (.value operand, first))
      (placed : target.lower inNew .write scope first = .ok (.place place, stop)) :
      Written scope inNew (.remove target key) start [.remove place container operand] stop
  | insert {target entry : Node} {operand : Operand} {place : Place} {container : ContainerKind} {start first stop : Lowering.Progress}
      (packed : entry.lower inNew .read scope start = .ok (.value operand, first))
      (placed : target.lower inNew .write scope first = .ok (.place place, stop)) :
      Written scope inNew (.insert target entry) start [.insert place container operand] stop
  | pop {start : Lowering.Progress} : Written scope inNew .pop start Template.pop start
  | ret {value : Option Node} {operand : Option Operand} {start stop : Lowering.Progress}
      (valued : lowerOptional inNew .read value scope start = .ok (operand.map .value, stop)) :
      Written scope inNew (.ret value) start (Template.ret operand) stop

/-- Nothing but statements is lowered to code. -/
theorem lower_written {access : Access} {span : Span} {kind : NodeKind} {code : List Instr} (single : kind.isStructured = false)
    (succeeds : kind.lower inNew access span scope start = .ok (.code code, stop)) : kind.Written scope inNew start code stop := by
  cases kind with
  | receive _ | loop _ _ | branch _ _ _ | seq _ _ | block _ => simp [isStructured] at single
  | name ref => exact absurd succeeds name_ne_code
  | lit _ | default _ | unary _ _ | cast _ _ | tuple _ | namedTuple _ | app _ _ | exprs _ _ _ | namedExprs _ _ _ =>
      simp [NodeKind.lower, bind_eq_ok, readOnly_eq_ok, unexpected_ne_ok] at succeeds
  | nondet _ => cases access <;> simp [NodeKind.lower, map_eq_ok, unexpected_ne_ok] at succeeds
  | binary op _ _ =>
      by_cases isIndex : op = .index
      · simp only [NodeKind.lower, isIndex, if_true, bind_eq_ok] at succeeds
        obtain ⟨_, _, _, _, _, _, indexed⟩ := succeeds
        exact absurd indexed index_ne_code
      · simp [NodeKind.lower, isIndex, bind_eq_ok, readOnly_eq_ok] at succeeds
  | field base sel =>
      simp only [NodeKind.lower, bind_eq_ok] at succeeds
      obtain ⟨_, _, _, selected⟩ := succeeds
      exact absurd selected field_ne_code
  | new _ args _ =>
      simp only [NodeKind.lower, Lower.new, bind_eq_ok, map_eq_ok, pure_eq_ok, Fragment.code.injEq] at succeeds
      obtain ⟨_, _, checked, items, _, listed, _, _, placed, _, ⟨payload, _, paid, dest, _, named, resume, _, fresh, rfl, rfl⟩, rfl⟩ := succeeds
      obtain rfl := checkList_same args checked
      obtain ⟨rfl, rfl⟩ := out_eq_ok named
      exact .new listed placed paid fresh
  | call _ args _ =>
      simp only [NodeKind.lower, Lower.call, bind_eq_ok, map_eq_ok, pure_eq_ok, Prod.exists, Fragment.code.injEq] at succeeds
      obtain ⟨_, _, checked, items, _, listed, _, _, placed, _,
        ⟨_, _, known, passed, _, _, arguments, dest, _, named, landing, _, fresh, rfl, rfl⟩, rfl⟩ := succeeds
      obtain rfl := checkList_same args checked
      obtain rfl := checkFunction_same known
      obtain ⟨rfl, passes, rfl⟩ := callArguments_eq_ok arguments
      obtain ⟨rfl, rfl⟩ := out_eq_ok named
      exact .call listed placed passes fresh
  | goto _ args =>
      simp only [NodeKind.lower, bind_eq_ok, pure_eq_ok, Fragment.code.injEq] at succeeds
      obtain ⟨_, _, checked, items, _, listed, payload, _, paid, rfl, rfl⟩ := succeeds
      obtain rfl := checkList_same args checked
      exact .goto listed paid
  | raise _ args =>
      simp only [NodeKind.lower, Lower.raise, bind_eq_ok, map_eq_ok, pure_eq_ok, expectValue_eq_ok, Fragment.code.injEq] at succeeds
      obtain ⟨_, _, checked, _, _, named, items, _, listed, _, ⟨event, _, ⟨rfl, rfl⟩, payload, _, paid, message, _, told, rfl, rfl⟩, rfl⟩ := succeeds
      obtain rfl := checkList_same args checked
      obtain rfl := located_same told
      exact .raise named listed paid
  | send _ _ args =>
      simp only [NodeKind.lower, Lower.send, bind_eq_ok, map_eq_ok, pure_eq_ok, expectValue_eq_ok, Fragment.code.injEq] at succeeds
      obtain ⟨_, _, checked, _, _, aimed, _, _, named, items, _, listed, _,
        ⟨target, _, ⟨rfl, rfl⟩, event, _, ⟨rfl, rfl⟩, payload, _, paid, message, _, told, resume, _, fresh, rfl, rfl⟩, rfl⟩ := succeeds
      obtain rfl := checkList_same args checked
      obtain rfl := located_same told
      exact .send aimed named listed paid fresh
  | announce _ args =>
      simp only [NodeKind.lower, bind_eq_ok, pure_eq_ok, expectValue_eq_ok, Fragment.code.injEq] at succeeds
      obtain ⟨_, _, checked, _, _, named, items, _, listed, event, _, ⟨rfl, rfl⟩, payload, _, paid, rfl, rfl⟩ := succeeds
      obtain rfl := checkList_same args checked
      exact .announce named listed paid
  | assert _ _ =>
      simp only [NodeKind.lower, bind_eq_ok, pure_eq_ok, expectValue_eq_ok, Fragment.code.injEq] at succeeds
      obtain ⟨_, _, tested, operand, _, ⟨rfl, rfl⟩, message, _, told, rfl, rfl⟩ := succeeds
      obtain rfl := located_same told
      exact .assert tested
  | print _ args =>
      simp only [NodeKind.lower, bind_eq_ok, pure_eq_ok, Fragment.code.injEq] at succeeds
      obtain ⟨_, _, checked, items, _, listed, operands, _, valued, rfl, rfl⟩ := succeeds
      obtain rfl := checkList_same args checked
      exact .print listed valued
  | assign _ _ _ =>
      obtain ⟨source, dest, _, valued, placed, assigns⟩ := NodeKind.assign_eq_ok succeeds
      exact .assign valued placed assigns
  | remove _ _ =>
      simp only [NodeKind.lower, bind_eq_ok, pure_eq_ok, expectValue_eq_ok, expectPlace_eq_ok, Fragment.code.injEq] at succeeds
      obtain ⟨_, _, named, _, _, placed, operand, _, ⟨rfl, rfl⟩, place, _, ⟨rfl, rfl⟩, container, _, known, rfl, rfl⟩ := succeeds
      obtain rfl := containerKind_same known
      exact .remove named placed
  | insert _ _ =>
      simp only [NodeKind.lower, bind_eq_ok, pure_eq_ok, expectValue_eq_ok, expectPlace_eq_ok, Fragment.code.injEq] at succeeds
      obtain ⟨_, _, packed, _, _, placed, operand, _, ⟨rfl, rfl⟩, place, _, ⟨rfl, rfl⟩, container, _, known, rfl, rfl⟩ := succeeds
      obtain rfl := containerKind_same known
      exact .insert packed placed
  | pop =>
      obtain ⟨same, rfl⟩ := pure_eq_ok.mp succeeds
      cases same
      exact .pop
  | ret _ =>
      simp only [NodeKind.lower, bind_eq_ok, pure_eq_ok, Fragment.code.injEq] at succeeds
      obtain ⟨fragment, _, lowered, operand, _, valued, rfl, rfl⟩ := succeeds
      obtain ⟨rfl, rfl⟩ := value_eq_ok valued
      exact .ret lowered

end NodeKind

end Reentry
