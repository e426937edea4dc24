import Reentry.Proofs.Frames.Scoped

/-!
What a receive waits for. Lowered bodies register events only in front of a receive, and then exactly the
events of its cases; when anything else is done, no event is registered.
-/

namespace Reentry

/-- The events that an actor waits for, with one more. -/
def CaseEvent.addTo (event : CaseEvent) (awaited : List CaseEvent) : List CaseEvent :=
  if event ∈ awaited then awaited else awaited ++ [event]

/-- The events are those of these cases, each of them once. -/
structure Awaits (cases : List ReceiveCase) (awaited : List CaseEvent) : Prop where
  nodup : awaited.Nodup
  exact : ∀ event, event ∈ awaited ↔ ∃ case ∈ cases, case.event = event

namespace Awaits

theorem nil : Awaits [] [] := ⟨List.nodup_nil, by simp⟩

theorem snoc {cases : List ReceiveCase} {awaited : List CaseEvent} (awaits : Awaits cases awaited) (case : ReceiveCase) :
    Awaits (cases ++ [case]) (case.event.addTo awaited) := by
  unfold CaseEvent.addTo
  by_cases present : case.event ∈ awaited
  · rw [if_pos present]
    refine ⟨awaits.nodup, fun event => ?_⟩
    rw [awaits.exact]
    obtain ⟨other, member, same⟩ := (awaits.exact _).mp present
    grind
  · rw [if_neg present]
    refine ⟨by simpa [List.nodup_append] using ⟨awaits.nodup, fun event member same => present (same ▸ member)⟩, fun event => ?_⟩
    rw [List.mem_append, awaits.exact]
    grind

end Awaits

/-- Whether the instruction belongs to a receive. -/
def Instr.isReceiving : Instr → Bool
  | .registerReceive _ | .dispatchReceive _ | .yield (.receive _) => true
  | _ => false

/-- Whether the instruction pushes the frame of a callee. -/
def Instr.isPush : Instr → Bool
  | .pushFrame .. => true
  | _ => false

namespace Outline

/-- Whether the step is a single one and belongs to no receive. -/
def isDeaf : Outline → Bool
  | .act instr => !instr.isReceiving
  | .ask .receive | .dispatch _ | .branch .. | .loop .. => false
  | .ask _ | .finish _ | .call _ => true

theorem isDeaf_ofCode {code : List Instr} (deaf : ∀ instr ∈ code, instr.isReceiving = false) :
    ∀ step ∈ ofCode code, step.isDeaf := by
  intro step member
  obtain ⟨instr, present, made⟩ := List.mem_filterMap.mp member
  have silent := deaf instr present
  cases instr with
  | «yield» request =>
      cases request <;> first | (cases made; rfl) | cases silent
  | registerReceive _ | dispatchReceive _ => cases silent
  | label _ | exit | propagateSuspension _ _ => cases made
  | _ =>
      cases made
      rfl

/-- An outline that registers events only in front of a receive, and exactly those of its cases. When it
begins, these events have been registered. -/
inductive Listens (receives : List ReceiveCase → Prop) : List CaseEvent → List Outline → Prop
  | nil : Listens receives [] []
  | act {instr rest} (deaf : instr.isReceiving = false) (noPush : instr.isPush = false)
      (next : Listens receives [] rest) : Listens receives [] (.act instr :: rest)
  | register {awaited event rest} (next : Listens receives (event.addTo awaited) rest) :
      Listens receives awaited (.act (.registerReceive event) :: rest)
  | finish {request rest} (next : Listens receives [] rest) : Listens receives [] (.finish request :: rest)
  | ask {question rest} (other : question ≠ .receive) (next : Listens receives [] rest) :
      Listens receives [] (.ask question :: rest)
  | receive {awaited cases rest} (awaits : Awaits cases awaited) (own : receives cases)
      (next : Listens receives [] rest) : Listens receives awaited (.ask .receive :: .dispatch cases :: rest)
  | call {callee args rest} (next : Listens receives [] rest) :
      Listens receives [] (.act (.pushFrame callee args) :: .call callee :: rest)
  | branch {cond onTrue onFalse rest} (whenTrue : Listens receives [] onTrue)
      (whenFalse : Listens receives [] onFalse) (next : Listens receives [] rest) :
      Listens receives [] (.branch cond onTrue onFalse :: rest)
  | loop {choices cond body rest} (round : Listens receives [] body) (next : Listens receives [] rest) :
      Listens receives [] (.loop choices cond body :: rest)

namespace Listens

variable {receives : List ReceiveCase → Prop} {awaited : List CaseEvent} {first rest : List Outline}

theorem append (listens : Listens receives awaited first) (after : Listens receives [] rest) :
    Listens receives awaited (first ++ rest) := by
  induction listens with
  | nil => exact after
  | act deaf noPush next ih => exact .act deaf noPush ih
  | register next ih => exact .register ih
  | finish next ih => exact .finish ih
  | ask other next ih => exact .ask other ih
  | receive awaits own next ih => exact .receive awaits own ih
  | call next ih => exact .call ih
  | branch whenTrue whenFalse next _ _ ih => exact .branch whenTrue whenFalse ih
  | loop round next _ ih => exact .loop round ih

theorem chooseAll (choices : List Nat) (after : Listens receives [] rest) :
    Listens receives [] (Outline.chooseAll choices ++ rest) := by
  induction choices with
  | nil => exact after
  | cons choice others ih => exact .ask nofun (.act rfl rfl ih)

/-- A loop listens as one round of it and then the loop again. -/
theorem unroll {choices : List Nat} {cond : Operand} {body : List Outline}
    (listens : Listens receives awaited (.loop choices cond body :: rest)) :
    Listens receives [] (Outline.chooseAll choices ++ .branch cond (body ++ [.loop choices cond body]) [] :: rest) ∧
      awaited = [] := by
  cases listens with
  | loop round next => exact ⟨.chooseAll _ (.branch (round.append (.loop round .nil)) .nil next), rfl⟩

/-- A receive statement registers its cases one after the other. -/
theorem registers {done left : List ReceiveCase} (awaits : Awaits done awaited) (own : receives (done ++ left))
    (after : Listens receives [] rest) : Listens receives awaited
      ((left.map fun case => .act (.registerReceive case.event)) ++ .ask .receive :: .dispatch (done ++ left) :: rest) := by
  induction left generalizing done awaited with
  | nil =>
      rw [List.append_nil] at own ⊢
      exact .receive awaits own after
  | cons case others ih =>
      have same : done ++ case :: others = done ++ [case] ++ others := List.append_cons ..
      rw [same] at own ⊢
      exact .register (ih (awaits.snoc case) own)

/-- A sound outline of a single statement that is no receive. -/
theorem ofSound {knows : FunctionId → Prop} {recorded : List Nat} {returned : Option Nat}
    (sound : Sound knows recorded returned first) (deaf : ∀ step ∈ first, step.isDeaf) : Listens receives [] first := by
  induction sound with
  | nil => exact .nil
  | @act _ _ instr _ _ _ fits _ ih =>
      refine .act ?_ ?_ (ih fun step member => deaf step (List.mem_cons_of_mem _ member))
      · simpa [isDeaf] using deaf _ List.mem_cons_self
      · cases instr <;> first | rfl | cases fits
  | finish _ _ ih => exact .finish (ih fun step member => deaf step (List.mem_cons_of_mem _ member))
  | ask _ _ ih =>
      refine .ask ?_ (ih fun step member => deaf step (List.mem_cons_of_mem _ member))
      rintro rfl
      cases deaf _ List.mem_cons_self
  | call _ _ _ ih =>
      exact .call (ih fun step member => deaf step (List.mem_cons_of_mem _ (List.mem_cons_of_mem _ member)))
  | dispatch | branch | loop => cases deaf _ List.mem_cons_self

end Listens

end Outline

mutual

/-- Case lists of the receive statements in a body. -/
def Node.receives : Node → List (List ReceiveCase)
  | .mk _ _ kind => kind.receives

def NodeKind.receives : NodeKind → List (List ReceiveCase)
  | .receive cases => [cases]
  | .loop _ body => body.receives
  | .branch _ onTrue onFalse => onTrue.receives ++ receivesOptional onFalse
  | .seq first rest => first.receives ++ rest.receives
  | .block statements => receivesAll statements
  | _ => []

def receivesOptional : Option Node → List (List ReceiveCase)
  | none => []
  | some node => node.receives

def receivesAll : List Node → List (List ReceiveCase)
  | [] => []
  | node :: rest => node.receives ++ receivesAll rest

end

namespace NodeKind

variable {scope : Lowering.Scope} {start stop : Lowering.Progress}

open Lower in
/-- Only a receive statement has instructions of a receive. -/
theorem single_deaf {inNew : Bool} {access : Access} {span : Span} {kind : NodeKind} {code : List Instr}
    (single : kind.isStructured = false) (succeeds : kind.lower inNew access span scope start = .ok (.code code, stop)) :
    ∀ instr ∈ code, instr.isReceiving = false := by
  cases lower_written single succeeds with
  | new | send | call | raise | goto | pop | announce | assert | print | remove | insert =>
      intro instr member
      grind [Instr.isReceiving, Template.new, Template.send, Template.call, Template.raise, Template.goto, Template.pop, Template.suspend,
        Template.terminate]
  | @ret _ operand => cases operand <;> simp [Template.ret, Template.terminate, Instr.isReceiving]
  | assign _ _ assigns =>
      exact assigns.elim (by simp [Instr.isReceiving]) (by simp [Instr.isReceiving]) (by simp [Instr.isReceiving]) (by simp [Instr.isReceiving])

end NodeKind

open Outline (Listens)

open Lower in
/-- A statement without inner statements, behind the choices that it reads. -/
theorem NodeKind.single_listens {scope : Lowering.Scope} {start stop : Lowering.Progress} {span : Span} {kind : NodeKind}
    {settle : List Nat → List Outline} (single : kind.isStructured = false)
    (succeeds : kind.outline span scope start = .ok (settle, stop)) (receives : List ReceiveCase → Prop)
    (choices : List Nat) : Listens receives [] (settle choices) := by
  rw [outline_single single] at succeeds
  obtain ⟨fragment, between, lowered, made⟩ := bind_eq_ok.mp succeeds
  cases fragment with
  | value _ | place _ => exact (unexpected_ne_ok.mp made).elim
  | code body =>
      obtain ⟨rfl, rfl⟩ := pure_eq_ok.mp made
      obtain ⟨added, grown, usable⟩ := @Collects.kindLower _ between.pending _ .read span kind _ _ _ _ rfl lowered
      have sound := usable (fun number member => by rw [grown]; exact List.mem_append_right _ member) single
      exact .chooseAll choices (.ofSound sound (Outline.isDeaf_ofCode (NodeKind.single_deaf single lowered)))

open Lower in
mutual

/-- The outline of a statement listens for the events of the receives in it. -/
theorem Node.outline_listens {scope : Lowering.Scope} {start stop : Lowering.Progress} {outline : List Outline}
    {receives : List ReceiveCase → Prop} : (node : Node) → (∀ cases ∈ node.receives, (∀ case ∈ cases, scope.program.Knows case.handler) → receives cases) →
      node.outline scope start = .ok (outline, stop) → Listens receives [] outline
  | .mk _ span kind, own, succeeds => by
      simp only [Node.outline, bind_eq_ok, get_eq_ok, pure_eq_ok] at succeeds
      obtain ⟨_, _, ⟨rfl, rfl⟩, settle, _, outlined, choices, _, _, rfl, rfl⟩ := succeeds
      exact kind.outline_listens own outlined choices

theorem NodeKind.outline_listens {scope : Lowering.Scope} {start stop : Lowering.Progress} {span : Span}
    {settle : List Nat → List Outline} {receives : List ReceiveCase → Prop} : (kind : NodeKind) →
      (∀ cases ∈ kind.receives, (∀ case ∈ cases, scope.program.Knows case.handler) → receives cases) → kind.outline span scope start = .ok (settle, stop) →
        ∀ choices, Listens receives [] (settle choices)
  | .receive cases, own, succeeds, choices => by
      simp only [NodeKind.outline, bind_eq_ok, pure_eq_ok] at succeeds
      obtain ⟨_, between, lowered, rfl, _⟩ := succeeds
      obtain ⟨added, grown, known⟩ := @Collects.receive _ between.pending cases _ _ _ _ rfl lowered
      have handlers := known fun number member => grown ▸ List.mem_append_right _ member
      dsimp only
      rw [List.append_assoc]
      exact .chooseAll choices (.registers .nil (own cases (by simp [NodeKind.receives]) handlers) .nil)
  | .loop cond body, own, succeeds, choices => by
      simp only [NodeKind.outline, bind_eq_ok, pure_eq_ok] at succeeds
      obtain ⟨_, _, _, inner, _, outlined, _, _, _, _, _, _, _, _, _, rfl, _⟩ := succeeds
      exact .loop (body.outline_listens own outlined) .nil
  | .branch cond onTrue onFalse, own, succeeds, choices => by
      simp only [NodeKind.outline, bind_eq_ok] at succeeds
      obtain ⟨_, _, _, inner, _, outlined, other, _, outlined', _, _, _, _, _, _, joined⟩ := succeeds
      have first := onTrue.outline_listens (fun cases member => own cases (List.mem_append_left _ member)) outlined
      have second := outlineOptional_listens onFalse (fun cases member => own cases (List.mem_append_right _ member)) outlined'
      cases other with
      | none =>
          obtain ⟨rfl, _⟩ := pure_eq_ok.mp joined
          exact .chooseAll choices (.branch first .nil .nil)
      | some other =>
          simp only [bind_eq_ok, pure_eq_ok] at joined
          obtain ⟨_, _, _, rfl, _⟩ := joined
          exact .chooseAll choices (.branch first (second other rfl) .nil)
  | .seq first rest, own, succeeds, choices => by
      simp only [NodeKind.outline, bind_eq_ok, pure_eq_ok] at succeeds
      obtain ⟨_, _, outlined, _, _, outlined', rfl, _⟩ := succeeds
      have before := first.outline_listens (fun cases member => own cases (List.mem_append_left _ member)) outlined
      have after := rest.outline_listens (fun cases member => own cases (List.mem_append_right _ member)) outlined'
      exact .chooseAll choices (before.append after)
  | .block statements, own, succeeds, choices => by
      simp only [NodeKind.outline, bind_eq_ok, pure_eq_ok] at succeeds
      obtain ⟨_, _, outlined, rfl, _⟩ := succeeds
      exact .chooseAll choices (outlineAll_listens statements own outlined)
  | .name _, _, succeeds, choices | .lit _, _, succeeds, choices | .nondet _, _, succeeds, choices
  | .unary _ _, _, succeeds, choices | .binary _ _ _, _, succeeds, choices | .field _ _, _, succeeds, choices
  | .tuple _, _, succeeds, choices | .namedTuple _, _, succeeds, choices | .default _, _, succeeds, choices
  | .cast _ _, _, succeeds, choices | .app _ _, _, succeeds, choices | .exprs _ _ _, _, succeeds, choices
  | .namedExprs _ _ _, _, succeeds, choices | .new _ _ _, _, succeeds, choices | .call _ _ _, _, succeeds, choices
  | .goto _ _, _, succeeds, choices | .raise _ _, _, succeeds, choices | .send _ _ _, _, succeeds, choices
  | .announce _ _, _, succeeds, choices | .assert _ _, _, succeeds, choices | .print _ _, _, succeeds, choices
  | .assign _ _ _, _, succeeds, choices | .remove _ _, _, succeeds, choices | .insert _ _, _, succeeds, choices
  | .pop, _, succeeds, choices | .ret _, _, succeeds, choices => NodeKind.single_listens rfl succeeds receives choices

theorem outlineOptional_listens {scope : Lowering.Scope} {start stop : Lowering.Progress} {outline : Option (List Outline)}
    {receives : List ReceiveCase → Prop} : (node : Option Node) → (∀ cases ∈ receivesOptional node, (∀ case ∈ cases, scope.program.Knows case.handler) → receives cases) →
      outlineOptional node scope start = .ok (outline, stop) → ∀ present ∈ outline, Listens receives [] present
  | none, _, succeeds => by
      obtain ⟨rfl, _⟩ := pure_eq_ok.mp succeeds
      nofun
  | some node, own, succeeds => by
      obtain ⟨inner, outlined, rfl⟩ := map_eq_ok.mp succeeds
      intro present member
      obtain rfl := Option.mem_some.mp member
      exact node.outline_listens own outlined

theorem outlineAll_listens {scope : Lowering.Scope} {start stop : Lowering.Progress} {outlines : List (List Outline)}
    {receives : List ReceiveCase → Prop} : (nodes : List Node) → (∀ cases ∈ receivesAll nodes, (∀ case ∈ cases, scope.program.Knows case.handler) → receives cases) →
      outlineAll nodes scope start = .ok (outlines, stop) → Listens receives [] outlines.flatten
  | [], _, succeeds => by
      obtain ⟨rfl, _⟩ := pure_eq_ok.mp succeeds
      exact .nil
  | node :: rest, own, succeeds => by
      simp only [outlineAll, bind_eq_ok, pure_eq_ok] at succeeds
      obtain ⟨_, _, outlined, _, _, outlined', rfl, _⟩ := succeeds
      have first := node.outline_listens (fun cases member => own cases (List.mem_append_left _ member)) outlined
      exact first.append (outlineAll_listens rest (fun cases member => own cases (List.mem_append_right _ member)) outlined')

end

namespace Program

/-- Whether the body of the function has a receive statement with these cases, of which the program knows
the handlers. -/
def HasReceive (program : Program) (function : FunctionId) (cases : List ReceiveCase) : Prop :=
  (∃ info, program.function? function = some info ∧ cases ∈ info.body.receives) ∧ ∀ case ∈ cases, program.Knows case.handler

/-- The outline of every function listens for the events of its own receives. -/
theorem outline_listens {program : Program} {function : FunctionId} {options : LowerOptions} {outline : List Outline}
    (succeeds : program.outline function options = .ok outline) : Listens (program.HasReceive function) [] outline := by
  obtain ⟨info, progress, known, outlined⟩ := outline_eq_ok succeeds
  exact info.body.outline_listens (fun cases member handlers => ⟨⟨info, known, member⟩, handlers⟩) outlined

end Program

end Reentry
