import Reentry.Proofs.Frames.Stack

/-!
Instructions that come in pairs. A yield stands in front of an exit, an invocation in front of the check
whether the callee has suspended, and an event is put into a mailbox right in front of the yield that tells
the scheduler so. Nothing leads between the two instructions of a pair but the first of them.
-/

namespace Reentry

def YieldRequest.isSend : YieldRequest → Bool
  | .send _ => true
  | _ => false

/-- Whether the instruction belongs to no pair. -/
def Instr.isLoose : Instr → Bool
  | .enqueue .. | .yield _ | .exit | .invoke _ | .propagateSuspension .. => false
  | _ => true

/-- Whether control stays with the call: it asks for nothing, runs no callee and is not left. -/
def Instr.keepsControl : Instr → Bool
  | .yield _ | .exit | .invoke _ | .propagateSuspension .. => false
  | _ => true

theorem Instr.keepsControl_of_isLoose {instr : Instr} (loose : instr.isLoose) : instr.keepsControl := by
  cases instr <;> first | rfl | cases loose

/-- Code in which the instructions that belong together stand together. -/
inductive Paired : List Instr → Prop
  | nil : Paired []
  | loose {instr code} (loose : instr.isLoose) (rest : Paired code) : Paired (instr :: code)
  | send {target event payload resume code} (rest : Paired code) :
      Paired (.enqueue target event payload :: .yield (.send resume) :: .exit :: code)
  | leave {request code} (other : request.isSend = false) (rest : Paired code) : Paired (.yield request :: .exit :: code)
  | call {callee resume code} (rest : Paired code) : Paired (.invoke callee :: .propagateSuspension callee resume :: code)

attribute [simp] Paired.nil

namespace Paired

variable {first rest code : List Instr} {instr : Instr}

@[simp] theorem cons_loose (loose : instr.isLoose) : Paired (instr :: code) ↔ Paired code := by
  refine ⟨fun paired => ?_, .loose loose⟩
  cases paired with
  | loose _ rest => exact rest
  | send _ | leave _ _ | call _ => cases loose

theorem append (left : Paired first) (right : Paired rest) : Paired (first ++ rest) := by
  induction left with
  | nil => exact right
  | loose loose _ ih => exact .loose loose ih
  | send _ ih => exact .send ih
  | leave other _ ih => exact .leave other ih
  | call _ ih => exact .call ih

theorem map {α : Type} {items : List α} {instr : α → Instr} (each : ∀ item, (instr item).isLoose) : Paired (items.map instr) := by
  induction items with
  | nil => exact .nil
  | cons item rest ih => exact .loose (each item) ih

theorem terminate {request : YieldRequest} (other : request.isSend = false) : Paired (Template.terminate request) :=
  .leave other .nil

theorem suspend {request : YieldRequest} (other : request.isSend = false) (resume : LabelId) :
    Paired (Template.suspend request resume) := .leave other (.loose rfl .nil)

theorem receive (after done : LabelId) (arms : List ReceiveArm) : Paired (Template.receive after done arms) := by
  have waits : Paired (arms.map fun arm => Instr.registerReceive arm.event) := .map fun _ => rfl
  have each : Paired (arms.flatMap (Template.receiveArm done)) := by
    induction arms with
    | nil => exact .nil
    | cons arm rest ih =>
        have own : Paired (Template.receiveArm done arm) := .loose rfl (.call (.loose rfl .nil))
        exact own.append (ih (.map fun _ => rfl))
  exact (((waits.append (.suspend rfl after)).append (.loose rfl .nil)).append each).append (.loose rfl .nil)

theorem choices (asked : List (Nat × LabelId)) : Paired (asked.map fun pair => Template.choose pair.2 pair.1).flatten := by
  induction asked with
  | nil => exact .nil
  | cons pair rest ih =>
      have own : Paired (Template.choose pair.2 pair.1) := (suspend rfl pair.2).append (.loose rfl .nil)
      exact own.append ih

/-- Choices go in front of the code, or of a loop behind its first mark. -/
theorem withChoices {isLoop : Bool} (asks : Paired first) (paired : Paired code)
    (head : isLoop → ∃ start rest, code = .mark start :: rest) : Paired (Template.withChoices isLoop first code) := by
  cases isLoop with
  | false => exact asks.append paired
  | true =>
      obtain ⟨start, rest, rfl⟩ := head rfl
      exact .loose rfl (asks.append ((cons_loose rfl).mp paired))

/-- From an instruction that belongs to no pair on, the code is paired. -/
theorem drop {position : Nat} (paired : Paired code) (here : code[position]? = some instr) (loose : instr.isLoose) :
    Paired (code.drop position) := by
  induction paired generalizing position with
  | nil => simp at here
  | loose own rest ih =>
      cases position with
      | zero => exact .loose own rest
      | succ position => exact ih (by simpa using here)
  | send rest ih =>
      match position with
      | 0 | 1 | 2 =>
          simp only [List.getElem?_cons_zero, List.getElem?_cons_succ, Option.some.injEq] at here
          subst here
          cases loose
      | position + 3 => exact ih (by simpa using here)
  | leave other rest ih | call rest ih =>
      match position with
      | 0 | 1 =>
          simp only [List.getElem?_cons_zero, List.getElem?_cons_succ, Option.some.injEq] at here
          subst here
          cases loose
      | position + 2 => exact ih (by simpa using here)

end Paired

open Lower

variable {scope : Lowering.Scope} {start stop : Lowering.Progress} {code : List Instr}

namespace Lower

theorem settleChoices_paired {isLoop : Bool} {kept : Nat} {result : List Instr} (paired : Paired code)
    (head : isLoop → ∃ start rest, code = .mark start :: rest)
    (succeeds : settleChoices isLoop kept code scope start = .ok (result, stop)) : Paired result := by
  simp only [settleChoices, bind_eq_ok, pure_eq_ok] at succeeds
  obtain ⟨choices, _, _, asks, _, issue, rfl, rfl⟩ := succeeds
  obtain ⟨pairs, rfl, rfl, _⟩ := mapM_freshLabel_eq_ok issue
  exact .withChoices (.choices pairs) paired head

end Lower

/-- The code of a statement without inner statements. -/
theorem NodeKind.single_paired {inNew : Bool} {access : Access} {span : Span} {kind : NodeKind}
    (single : kind.isStructured = false) (succeeds : kind.lower inNew access span scope start = .ok (.code code, stop)) :
    Paired code := by
  cases lower_written single succeeds with
  | send => exact .loose rfl (.send (.loose rfl .nil))
  | @new _ _ _ _ _ _ resume => exact (Paired.suspend rfl resume).append (.map fun _ => rfl)
  | @call callee _ _ _ passed _ landing =>
      have pushes : Paired [.pushFrame callee passed, .label landing, .invoke callee, .propagateSuspension callee landing] :=
        .loose rfl (.loose rfl (.call .nil))
      exact (pushes.append (.map fun _ => rfl)).append (.map fun _ => rfl)
  | goto | raise => exact .loose rfl (.loose rfl (.loose rfl (.terminate rfl)))
  | pop => exact .loose rfl (.loose rfl (.terminate rfl))
  | @ret _ operand => cases operand <;> exact .terminate rfl
  | announce | assert | print | remove | insert => exact .loose rfl .nil
  | assign _ _ assigns =>
      exact assigns.elim (fun _ _ _ => .loose rfl .nil) (fun _ _ => .loose rfl .nil) (fun _ _ _ => .loose rfl .nil)
        fun _ _ => .loose rfl .nil

mutual

/-- Lowering gives paired code. -/
theorem Node.lower_paired {inNew : Bool} {access : Access} {start stop : Lowering.Progress} {code : List Instr} :
    (node : Node) → node.lower inNew access scope start = .ok (.code code, stop) → Paired code
  | .mk _ span kind, succeeds => by
      unfold Node.lower at succeeds
      split at succeeds
      · exact (throw_ne_ok.mp (bind_eq_ok.mp succeeds).choose_spec.choose_spec.2).elim
      · simp only [bind_eq_ok, get_eq_ok] at succeeds
        obtain ⟨_, _, ⟨rfl, rfl⟩, fragment, _, lowered, settled⟩ := succeeds
        cases fragment with
        | value _ | place _ => simp [pure_eq_ok] at settled
        | code body =>
            simp only [map_eq_ok, Fragment.code.injEq] at settled
            obtain ⟨_, settled, rfl⟩ := settled
            obtain ⟨paired, head⟩ := NodeKind.lower_paired kind lowered
            exact settleChoices_paired paired head settled

/-- The code of a loop begins with a mark. -/
theorem NodeKind.lower_paired {inNew : Bool} {access : Access} {span : Span} {start stop : Lowering.Progress} {code : List Instr} :
    (kind : NodeKind) → kind.lower inNew access span scope start = .ok (.code code, stop) →
      Paired code ∧ (kind.isLoop → ∃ start rest, code = .mark start :: rest)
  | .receive cases, succeeds => by
      simp only [NodeKind.lower, Lower.receive, map_eq_ok, bind_eq_ok, pure_eq_ok, Fragment.code.injEq] at succeeds
      obtain ⟨_, ⟨_, _, _, after, _, _, done, _, _, arms, _, _, rfl, rfl⟩, rfl⟩ := succeeds
      exact ⟨.receive after done arms, by simp [NodeKind.isLoop]⟩
  | .loop cond body, succeeds => by
      simp only [NodeKind.lower, Lower.loop, bind_eq_ok, map_eq_ok, expectValue_eq_ok, expectCode_eq_ok, pure_eq_ok,
        Fragment.code.injEq] at succeeds
      obtain ⟨_, _, _, _, _, lowered, _, ⟨_, _, ⟨rfl, rfl⟩, inner, _, ⟨rfl, rfl⟩, _, _, _, _, _, _, rfl, rfl⟩, rfl⟩ := succeeds
      have inside := Node.lower_paired body lowered
      refine ⟨.loose rfl (.loose rfl (inside.append (.loose rfl (.loose rfl .nil)))), fun _ => ⟨_, _, rfl⟩⟩
  | .branch cond onTrue onFalse, succeeds => by
      simp only [NodeKind.lower, Lower.branch, bind_eq_ok, map_eq_ok, expectValue_eq_ok, expectCode_eq_ok,
        Fragment.code.injEq] at succeeds
      obtain ⟨_, _, _, _, _, lowered, other, _, otherwise, _,
        ⟨_, _, ⟨rfl, rfl⟩, inner, _, ⟨rfl, rfl⟩, _, _, _, joined⟩, rfl⟩ := succeeds
      have inside := Node.lower_paired onTrue lowered
      refine ⟨?_, by simp [NodeKind.isLoop]⟩
      cases other with
      | none =>
          simp only [pure_eq_ok] at joined
          obtain ⟨rfl, rfl⟩ := joined
          exact .loose rfl (inside.append (.loose rfl .nil))
      | some fragment =>
          simp only [bind_eq_ok, expectCode_eq_ok, pure_eq_ok] at joined
          obtain ⟨other, _, ⟨rfl, rfl⟩, _, _, _, rfl, rfl⟩ := joined
          have inside' := lowerOptional_paired onFalse otherwise
          exact .loose rfl (((inside.append (.loose rfl (.loose rfl .nil))).append inside').append (.loose rfl .nil))
  | .seq first rest, succeeds => by
      simp only [NodeKind.lower, bind_eq_ok, expectCode_eq_ok, pure_eq_ok, Fragment.code.injEq] at succeeds
      obtain ⟨_, _, lowered, _, _, lowered', _, _, ⟨rfl, rfl⟩, _, _, ⟨rfl, rfl⟩, rfl, rfl⟩ := succeeds
      exact ⟨(Node.lower_paired first lowered).append (Node.lower_paired rest lowered'), by simp [NodeKind.isLoop]⟩
  | .block statements, succeeds => by
      simp only [NodeKind.lower, bind_eq_ok, pure_eq_ok, Fragment.code.injEq] at succeeds
      obtain ⟨fragments, _, lowered, codes, _, expected, rfl, rfl⟩ := succeeds
      exact ⟨lowerAll_paired statements lowered expected, by simp [NodeKind.isLoop]⟩
  | .name _, succeeds | .lit _, succeeds | .nondet _, succeeds | .unary _ _, succeeds | .binary _ _ _, succeeds
  | .field _ _, succeeds | .tuple _, succeeds | .namedTuple _, succeeds | .default _, succeeds | .cast _ _, succeeds
  | .app _ _, succeeds | .exprs _ _ _, succeeds | .namedExprs _ _ _, succeeds | .new _ _ _, succeeds
  | .call _ _ _, succeeds | .goto _ _, succeeds | .raise _ _, succeeds | .send _ _ _, succeeds
  | .announce _ _, succeeds | .assert _ _, succeeds | .print _ _, succeeds | .assign _ _ _, succeeds
  | .remove _ _, succeeds | .insert _ _, succeeds | .pop, succeeds | .ret _, succeeds =>
      ⟨NodeKind.single_paired rfl succeeds, by simp [NodeKind.isLoop]⟩

theorem lowerOptional_paired {inNew : Bool} {access : Access} {start stop : Lowering.Progress} {code : List Instr} :
    (node : Option Node) → lowerOptional inNew access node scope start = .ok (some (.code code), stop) → Paired code
  | none, succeeds => by simp [lowerOptional, pure_eq_ok] at succeeds
  | some node, succeeds => by
      simp only [lowerOptional, map_eq_ok, Option.some.injEq] at succeeds
      obtain ⟨_, lowered, rfl⟩ := succeeds
      exact Node.lower_paired node lowered

theorem lowerAll_paired {inNew : Bool} {start between stop : Lowering.Progress} {fragments : List Fragment}
    {codes : List (List Instr)} : (nodes : List Node) → lowerAll inNew nodes scope start = .ok (fragments, between) →
      fragments.mapM expectCode scope between = .ok (codes, stop) → Paired codes.flatten
  | [], lowered, expected => by
      simp only [lowerAll, pure_eq_ok] at lowered
      obtain ⟨rfl, rfl⟩ := lowered
      simp only [List.mapM_nil, pure_eq_ok] at expected
      obtain ⟨rfl, rfl⟩ := expected
      exact .nil
  | node :: rest, lowered, expected => by
      simp only [lowerAll, bind_eq_ok, pure_eq_ok] at lowered
      obtain ⟨_, _, first, others, _, later, rfl, rfl⟩ := lowered
      simp only [List.mapM_cons, bind_eq_ok, expectCode_eq_ok, pure_eq_ok] at expected
      obtain ⟨_, _, ⟨rfl, rfl⟩, codes, _, expected, rfl, rfl⟩ := expected
      exact (Node.lower_paired node first).append (lowerAll_paired rest later expected)

end

/-- A routine whose code is paired and in which control is led to labels and marks only. -/
structure Routine.Paired (routine : Routine) : Prop where
  body : Reentry.Paired routine.body
  leads : ∀ target place, routine.position? target = some place → Reentry.Paired (routine.body.drop place)

def Image.Paired (image : Image) : Prop := ∀ function routine, image.routine? function = some routine → routine.Paired

namespace Program

variable {program : Program} {options : LowerOptions} {image : Image}

/-- The routines of a lowered program are paired. -/
theorem lower_paired (succeeds : program.lower options = .ok image) : image.Paired := by
  intro function routine found
  obtain ⟨info, shape, code, labelCount, _, _, lowered, assembled⟩ :=
    lowerFunction_eq_ok ((lower_routine? succeeds function).2 routine found)
  obtain ⟨_, _, _, _, same, _⟩ := Routine.assemble_eq_ok assembled
  obtain ⟨_, ran, _⟩ := Lowering.Scope.body_lowered lowered
  have paired : Paired routine.body := by
    rw [same]
    exact (Node.lower_paired info.body ran).append (.leave rfl .nil)
  refine ⟨paired, fun target place leads => ?_⟩
  rcases Routine.assemble_position?_eq assembled leads with ⟨label, here⟩ | ⟨mark, here⟩
  · exact paired.drop here rfl
  · exact paired.drop here rfl

end Program

end Reentry
