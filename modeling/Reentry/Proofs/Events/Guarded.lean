import Reentry.Proofs.Execution.Moves
import Reentry.Proofs.Lowering.CallFree
import Reentry.Proofs.Mail.Paired
import Reentry.Proofs.Structure.Statements

/-!
Code that guards the trigger. The event that an actor is handling is overwritten only right before control is given up for
good: when an event is raised, when the actor goes to another state, and when it pops one.
-/

namespace Reentry

/-- Code in which the trigger is overwritten only where control is given up for good right behind it, by a raise with an
event that calls nothing among others. -/
inductive Guarded : List Instr → Prop
  | nil : Guarded []
  | loose {instr code} (loose : instr.isLoose) (keeps : .trigger ∉ instr.stored) (rest : Guarded code) : Guarded (instr :: code)
  | enqueue {target event payload code} (rest : Guarded code) : Guarded (.enqueue target event payload :: code)
  | raise {message event payload code} (free : event.isCallFree) (rest : Guarded code) :
      Guarded (Template.raise message event payload ++ code)
  | goto {state payload code} (rest : Guarded code) : Guarded (Template.goto state payload ++ code)
  | pop {code} (rest : Guarded code) : Guarded (Template.pop ++ code)
  | leave {request code} (other : request ≠ .raise) (rest : Guarded code) : Guarded (.yield request :: .exit :: code)
  | call {callee resume code} (rest : Guarded code) : Guarded (.invoke callee :: .propagateSuspension callee resume :: code)

namespace Guarded

variable {first rest code : List Instr} {instr : Instr}

theorem append (left : Guarded first) (right : Guarded rest) : Guarded (first ++ rest) := by
  induction left with
  | nil => exact right
  | loose loose keeps _ ih => exact .loose loose keeps ih
  | enqueue _ ih => exact .enqueue ih
  | raise free _ ih =>
      rw [List.append_assoc]
      exact .raise free ih
  | goto _ ih =>
      rw [List.append_assoc]
      exact .goto ih
  | pop _ ih =>
      rw [List.append_assoc]
      exact .pop ih
  | leave other _ ih => exact .leave other ih
  | call _ ih => exact .call ih

theorem map {α : Type} {items : List α} {instr : α → Instr} (loose : ∀ item ∈ items, (instr item).isLoose)
    (keeps : ∀ item ∈ items, .trigger ∉ (instr item).stored) : Guarded (items.map instr) := by
  induction items with
  | nil => exact .nil
  | cons item rest ih =>
      obtain ⟨own, others⟩ := List.forall_mem_cons.mp loose
      obtain ⟨own', others'⟩ := List.forall_mem_cons.mp keeps
      exact .loose own own' (ih others others')

/-- Behind instructions among which there is no label and no mark, labels and marks are further on. -/
theorem drop_block (block : List Instr) {position : Nat} (none : ∀ other ∈ block, other.isPosition = false) (idle : instr.isPosition)
    (here : (block ++ code)[position]? = some instr)
    (later : ∀ {position}, code[position]? = some instr → Guarded (code.drop position)) : Guarded ((block ++ code).drop position) := by
  by_cases inside : position < block.length
  · rw [List.getElem?_append_left inside] at here
    have other := none instr (List.mem_of_getElem? here)
    rw [idle] at other
    cases other
  · have behind := Nat.le_of_not_lt inside
    rw [List.getElem?_append_right behind] at here
    rw [List.drop_append, List.drop_eq_nil_of_le behind, List.nil_append]
    exact later here

/-- From a label or a mark on, the code is guarded. -/
theorem drop {position : Nat} (guarded : Guarded code) (here : code[position]? = some instr) (idle : instr.isPosition) :
    Guarded (code.drop position) := by
  induction guarded generalizing position with
  | nil => cases here
  | loose loose keeps rest ih =>
      cases position with
      | zero => exact .loose loose keeps rest
      | succ position => exact ih here
  | @enqueue target event payload code rest ih => exact drop_block [.enqueue target event payload] (by simp [Instr.isPosition]) idle here ih
  | raise _ _ ih => exact drop_block _ (by simp [Template.raise, Template.terminate, Instr.isPosition]) idle here ih
  | goto _ ih => exact drop_block _ (by simp [Template.goto, Template.terminate, Instr.isPosition]) idle here ih
  | pop _ ih => exact drop_block _ (by simp [Template.pop, Template.terminate, Instr.isPosition]) idle here ih
  | @leave request code _ _ ih => exact drop_block [.yield request, .exit] (by simp [Instr.isPosition]) idle here ih
  | @call callee resume code _ ih =>
      exact drop_block [.invoke callee, .propagateSuspension callee resume] (by simp [Instr.isPosition]) idle here ih

theorem idle (loose : instr.isLoose) (none : instr.stored = []) (rest : Guarded code) : Guarded (instr :: code) :=
  .loose loose (by simp [none]) rest

theorem suspend {request : YieldRequest} (resume : LabelId) (other : request ≠ .raise) : Guarded (Template.suspend request resume) :=
  .leave other (.idle rfl rfl .nil)

theorem receive (after done : LabelId) (arms : List ReceiveArm) : Guarded (Template.receive after done arms) := by
  have waits (arms : List ReceiveArm) : Guarded (arms.map fun arm => Instr.registerReceive arm.event) :=
    .map (fun _ _ => rfl) fun _ _ => by simp [Instr.stored]
  have each : Guarded (arms.flatMap (Template.receiveArm done)) := by
    induction arms with
    | nil => exact .nil
    | cons arm rest ih =>
        have own : Guarded (Template.receiveArm done arm) := .idle rfl rfl (.call (.idle rfl rfl .nil))
        exact own.append ih
  have asks : Guarded (Template.suspend (.receive after) after) := suspend after (by simp)
  exact ((((waits arms).append asks).append (.idle rfl rfl .nil)).append each).append (.idle rfl rfl .nil)

theorem composes : Composes Guarded where
  nil := .nil
  append := .append
  waypoint {instr} waypoint := by
    cases instr with
    | mark _ | jump _ => exact .idle rfl rfl .nil
    | _ => cases waypoint
  choose resume choice :=
    have asks : Guarded (Template.suspend (.nondet resume) resume) := suspend resume nofun
    asks.append (.idle rfl rfl .nil)
  receive := receive

end Guarded

/-- Whether the statement raises an event that calls nothing, if it raises one. -/
def NodeKind.RaisesPlainly : NodeKind → Prop
  | .raise event _ => event.isCallFree
  | _ => True

open Lower

variable {scope : Lowering.Scope} {start stop : Lowering.Progress} {inNew swapsWrite : Bool}

namespace Lower

/-- No node names the trigger. -/
theorem lower_ne_trigger {access : Access} {node : Node} {place : Place}
    (succeeds : node.lower inNew access scope start = .ok (.place place, stop)) : place ≠ .trigger := by
  rintro rfl
  obtain ⟨id, span, kind⟩ := node
  obtain ⟨_, succeeds⟩ := lower_place_eq_ok succeeds
  cases kind with
  | name ref => cases ref <;> cases access <;> simp [NodeKind.lower, name, name.atPlace, pure_eq_ok, readOnly_eq_ok] at succeeds
  | binary op base key =>
      by_cases isIndex : op = .index
      · cases access <;> simp [NodeKind.lower, isIndex, index, bind_eq_ok, map_eq_ok] at succeeds
      · simp [NodeKind.lower, isIndex, bind_eq_ok, readOnly_eq_ok] at succeeds
  | field base sel => cases access <;> simp [NodeKind.lower, field, bind_eq_ok, map_eq_ok] at succeeds
  | nondet _ => cases access <;> simp [NodeKind.lower, map_eq_ok, unexpected_ne_ok] at succeeds
  | assign _ _ _ =>
      simp only [NodeKind.lower, bind_eq_ok] at succeeds
      obtain ⟨_, _, _, selection, _, _, lowered⟩ := succeeds
      cases selection <;> simp [bind_eq_ok, map_eq_ok] at lowered
  | _ => simp [NodeKind.lower, bind_eq_ok, map_eq_ok, pure_eq_ok, readOnly_eq_ok, unexpected_ne_ok] at succeeds

theorem lowerOptional_ne_trigger {access : Access} {node : Option Node} {dest : Option Place}
    (succeeds : lowerOptional inNew access node scope start = .ok (dest.map .place, stop)) : ∀ place ∈ dest, place ≠ .trigger := by
  rintro place rfl
  cases node with
  | none => simp [lowerOptional, pure_eq_ok] at succeeds
  | some node =>
      simp only [lowerOptional, map_eq_ok, Option.map_some, Option.some.injEq] at succeeds
      obtain ⟨_, lowered, rfl⟩ := succeeds
      exact lower_ne_trigger lowered

mutual

theorem lowerCell_ne_trigger {start stop : Lowering.Progress} {items : List ListItem} :
    (cell : Node) → cell.lowerCell inNew swapsWrite scope start = .ok (items, stop) →
      ∀ item ∈ items, ∀ place, item.fragment = .place place → place ≠ .trigger
  | .mk _ _ kind, succeeds => by
      cases kind with
      | exprs _ head tail | namedExprs _ head tail =>
          simp only [Node.lowerCell, bind_eq_ok, pure_eq_ok] at succeeds
          obtain ⟨_, _, lowered, _, _, listed, rfl, rfl⟩ := succeeds
          refine List.forall_mem_cons.mpr ⟨?_, lowerItems_ne_trigger tail listed⟩
          rintro place rfl
          exact lower_ne_trigger lowered
      | _ => exact (unexpected_ne_ok.mp succeeds).elim

theorem lowerItems_ne_trigger {start stop : Lowering.Progress} {items : List ListItem} :
    (list : Option Node) → lowerItems inNew swapsWrite list scope start = .ok (items, stop) →
      ∀ item ∈ items, ∀ place, item.fragment = .place place → place ≠ .trigger
  | none, succeeds => by
      obtain ⟨rfl, _⟩ := pure_eq_ok.mp succeeds
      exact nofun
  | some cell, succeeds => lowerCell_ne_trigger cell succeeds

end

end Lower

theorem Guarded.exchanging {dest source : Place} (keeps : dest ≠ .trigger) (keeps' : source ≠ .trigger) :
    Guarded [.exchanging dest source] := by
  unfold Instr.exchanging
  split <;> exact .loose rfl (by simp [Instr.stored, keeps.symm, keeps'.symm]) .nil

theorem Guarded.assigning {dest : Place} (keeps : dest ≠ .trigger) (value : Operand) : Guarded [.assigning dest value] := by
  unfold Instr.assigning
  split <;> exact .loose rfl (by simp [Instr.stored, keeps.symm]) .nil

/-- What is written back after a call are the places that are swapped. -/
theorem swapped_places {good : Place → Prop} {items : List ListItem} {passed : List Argument} (passes : List.Forall₂ ListItem.Passes items passed)
    (keeps : ∀ item ∈ items, item.qualifier = .swap → ∀ place, item.fragment = .place place → good place) (slot : Nat) :
    ∀ back ∈ Argument.swapped slot passed, good back.1 := by
  induction passes generalizing slot with
  | nil => exact nofun
  | @cons item arg items passed own _ ih =>
      obtain ⟨first, others⟩ := List.forall_mem_cons.mp keeps
      rw [Argument.swapped_cons]
      intro back member
      rcases List.mem_append.mp member with member | member
      · obtain ⟨place, named, rfl⟩ := Option.map_eq_some_iff.mp (Option.mem_toList.mp member)
        unfold ListItem.Passes at own
        split at own
        next swaps =>
          obtain ⟨there, fragment, rfl⟩ := own
          exact first swaps place (by rw [fragment, Option.some.inj named])
        next other =>
          obtain ⟨_, _, rfl⟩ := own
          rw [Argument.place?_of_ne other] at named
          cases named
      · exact ih others (slot + 1) back member

/-- The code of a statement without inner statements. -/
theorem NodeKind.single_guarded {access : Access} {span : Span} {kind : NodeKind} {code : List Instr} (single : kind.isStructured = false)
    (plainly : kind.RaisesPlainly) (succeeds : kind.lower inNew access span scope start = .ok (.code code, stop)) : Guarded code := by
  cases lower_written single succeeds with
  | @send _ _ _ _ _ _ _ _ resume =>
      have sends : Guarded (Template.suspend (.send resume) resume) := .suspend resume (by simp)
      exact .idle rfl rfl (.enqueue sends)
  | @new machine _ _ _ _ payload resume _ _ _ _ _ _ placed =>
      have asks : Guarded (Template.suspend (.new machine payload resume) resume) := .suspend resume (by simp)
      refine asks.append (.map (fun _ _ => rfl) fun place member => ?_)
      simpa [Instr.stored, eq_comm] using lowerOptional_ne_trigger placed place (Option.mem_toList.mp member)
  | @call callee args _ _ passed _ landing _ _ _ _ listed placed passes =>
      have pushes : Guarded [.pushFrame callee passed, .label landing, .invoke callee, .propagateSuspension callee landing] :=
        .idle rfl rfl (.idle rfl rfl (.call .nil))
      refine (pushes.append (.map (fun _ _ => rfl) fun place member => ?_)).append (.map (fun _ _ => rfl) fun back member => ?_)
      · simpa [Instr.stored, eq_comm] using lowerOptional_ne_trigger placed place (Option.mem_toList.mp member)
      · have keeps := swapped_places passes (fun item among _ => lowerItems_ne_trigger args listed item among) 0 back member
        simpa [Instr.stored, eq_comm] using keeps
  | @goto state _ _ payload => simpa using @Guarded.goto state payload [] .nil
  | raise named => exact .raise (Node.lower_callFree _ plainly named) .nil
  | pop => exact Guarded.pop .nil
  | @ret _ operand => cases operand <;> exact .leave (by simp) .nil
  | announce | assert | print | remove | insert => grind [Guarded, Instr.isLoose, Instr.stored, Guarded.idle]
  | @assign _ _ qualifier _ _ _ _ _ _ valued placed assigns =>
      have keeps := lower_ne_trigger placed
      cases qualifier with
      | swap =>
          obtain ⟨place, rfl, rfl⟩ := assigns
          exact .exchanging keeps (lower_ne_trigger valued)
      | none | move =>
          obtain ⟨value, rfl, rfl⟩ := assigns
          exact .assigning keeps _

/-- The code of a body in which raised events call nothing is guarded. -/
theorem Guarded.covers (scope : Lowering.Scope) : Composes.Covers Guarded scope NodeKind.RaisesPlainly fun _ => True where
  toComposes := composes
  single := NodeKind.single_guarded
  test _ _ _ := .idle rfl rfl .nil

/-- A routine whose code is guarded and in which control is led to labels and marks only. -/
structure Routine.Guarded (routine : Routine) : Prop where
  body : Reentry.Guarded routine.body
  leads : ∀ target place, routine.position? target = some place → Reentry.Guarded (routine.body.drop place)

def Image.Guarded (image : Image) : Prop := ∀ function routine, image.routine? function = some routine → routine.Guarded

/-- The routines of a lowered program whose raised events call nothing are guarded. -/
theorem Program.lower_guarded {program : Program} {options : LowerOptions} {image : Image} (succeeds : program.lower options = .ok image)
    (plainly : ∀ info ∈ program.functions, info.body.Every NodeKind.RaisesPlainly fun _ => True) : image.Guarded := by
  intro function routine found
  have body := lower_composes succeeds (Guarded.leave nofun .nil) plainly (fun _ _ => Guarded.covers _) function routine found
  obtain ⟨_, _, _, _, _, _, _, assembled⟩ := lowerFunction_eq_ok ((lower_routine? succeeds function).2 routine found)
  refine ⟨body, fun target place leads => ?_⟩
  rcases Routine.assemble_position?_eq assembled leads with ⟨label, here⟩ | ⟨mark, here⟩
  · exact body.drop here rfl
  · exact body.drop here rfl

end Reentry
