import Reentry.Proofs.Lowering.Regular
import Reentry.Proofs.Structure.Spelling

/-!
Labels in lowered code: every label that occurs was issued while the body was lowered.
-/

namespace Reentry

/-- All labels in the code are among the first `count` issued. -/
def Issued (count : Nat) (code : List Instr) : Prop :=
  ∀ label, .label label ∈ code → 0 < label.number ∧ label.number ≤ count

namespace Issued

theorem mono {count more : Nat} {code : List Instr} (issued : Issued count code) (le : count ≤ more) :
    Issued more code :=
  fun label member => ⟨(issued label member).1, Nat.le_trans (issued label member).2 le⟩

theorem append {count : Nat} {first rest : List Instr} (left : Issued count first) (right : Issued count rest) :
    Issued count (first ++ rest) := by
  intro label member
  rcases List.mem_append.mp member with early | late
  · exact left label early
  · exact right label late

theorem of_no_label {count : Nat} {code : List Instr} (none : ∀ instr ∈ code, instr.label? = none) :
    Issued count code := by
  intro label member
  cases none _ member

theorem single {count : Nat} {label : LabelId} (positive : 0 < label.number) (le : label.number ≤ count) :
    Issued count [.label label] := by
  intro other member
  simp only [List.mem_singleton, Instr.label.injEq] at member
  subst member
  exact ⟨positive, le⟩

theorem suspend {count : Nat} (request : YieldRequest) {resume : LabelId} (positive : 0 < resume.number)
    (le : resume.number ≤ count) : Issued count (Template.suspend request resume) := by
  have before : Issued count [.yield request, .exit] := of_no_label (by simp [Instr.label?])
  exact before.append (single positive le)

theorem withChoices {count : Nat} {isLoop : Bool} {asks code : List Instr} (head : Issued count asks)
    (body : Issued count code) : Issued count (Template.withChoices isLoop asks code) := by
  unfold Template.withChoices
  split
  · rename_i first rest
    have start : Issued count [first] := fun label member => body label (by simp_all)
    have tail : Issued count rest := fun label member => body label (by simp_all)
    exact append start (append head tail)
  · exact append head body

theorem loop {count : Nat} {start stop : MarkId} {cond : Operand} {body : List Instr} (inner : Issued count body) :
    Issued count (Template.loop start stop cond body) :=
  append (append (of_no_label (by simp [Instr.label?])) inner) (of_no_label (by simp [Instr.label?]))

theorem branch {count : Nat} {stop : MarkId} {cond : Operand} {body : List Instr} (inner : Issued count body) :
    Issued count (Template.branch stop cond body) := by
  have test : Issued count [.jumpUnless cond (.mark stop)] := of_no_label (by simp [Instr.label?])
  exact test.append (inner.append (of_no_label (by simp [Instr.label?])))

theorem branchElse {count : Nat} {stop otherwise : MarkId} {cond : Operand} {body other : List Instr}
    (left : Issued count body) (right : Issued count other) :
    Issued count (Template.branchElse stop otherwise cond body other) := by
  have test : Issued count [.jumpUnless cond (.mark otherwise)] := of_no_label (by simp [Instr.label?])
  exact test.append (append (append (left.append (of_no_label (by simp [Instr.label?]))) right)
    (of_no_label (by simp [Instr.label?])))

end Issued

namespace Lower

variable {scope : Lowering.Scope} {start stop : Lowering.Progress}

theorem asks_issued {choices : List Nat} {asks : List (List Instr)}
    (succeeds : (choices.mapM fun choice => do pure (Template.choose (← freshLabel) choice)) scope start
      = .ok (asks, stop)) : Issued stop.supply.labels asks.flatten := by
  induction choices generalizing start asks with
  | nil =>
      rw [List.mapM_nil, pure_eq_ok] at succeeds
      obtain ⟨rfl, _⟩ := succeeds
      exact .of_no_label (by simp)
  | cons choice rest ih =>
      simp only [List.mapM_cons, bind_eq_ok, pure_eq_ok] at succeeds
      obtain ⟨_, _, ⟨label, _, fresh, rfl, rfl⟩, others, _, later, rfl, rfl⟩ := succeeds
      have grows := Regular.mapM (P := @Grows) (fun _ => Regular.bind Regular.freshLabel fun _ => Regular.pure _) rest _ _ _ _ later
      obtain ⟨positive, le⟩ := freshLabel_issued fresh
      have resume := Issued.suspend (.nondet label) positive (Nat.le_trans le grows)
      exact (resume.append (.of_no_label (by simp [Instr.label?]))).append (ih later)

theorem settleChoices_issued {isLoop : Bool} {kept : Nat} {code result : List Instr}
    (succeeds : settleChoices isLoop kept code scope start = .ok (result, stop))
    (issued : Issued start.supply.labels code) : Issued stop.supply.labels result := by
  have grows := Regular.settleChoices (P := @Grows) isLoop kept code _ _ _ _ succeeds
  simp only [settleChoices, bind_eq_ok, pure_eq_ok] at succeeds
  obtain ⟨choices, _, _, asks, _, issue, rfl, rfl⟩ := succeeds
  exact .withChoices (asks_issued issue) (issued.mono grows)

theorem arms_issued {cases : List ReceiveCase} {arms : List ReceiveArm}
    (succeeds : (cases.mapM fun (case : ReceiveCase) => do
      pure (⟨case.event, case.handler, ← freshLabel⟩ : ReceiveArm)) scope start = .ok (arms, stop)) :
    ∀ arm ∈ arms, 0 < arm.entry.number ∧ arm.entry.number ≤ stop.supply.labels := by
  induction cases generalizing start arms with
  | nil =>
      rw [List.mapM_nil, pure_eq_ok] at succeeds
      obtain ⟨rfl, _⟩ := succeeds
      simp
  | cons case rest ih =>
      simp only [List.mapM_cons, bind_eq_ok, pure_eq_ok] at succeeds
      obtain ⟨_, _, ⟨label, _, fresh, rfl, rfl⟩, others, _, later, rfl, rfl⟩ := succeeds
      have grows := Regular.mapM (P := @Grows) (fun _ => Regular.bind Regular.freshLabel fun _ => Regular.pure _) rest _ _ _ _ later
      obtain ⟨positive, le⟩ := freshLabel_issued fresh
      intro arm member
      rcases List.mem_cons.mp member with rfl | inside
      · exact ⟨positive, Nat.le_trans le grows⟩
      · exact ih later arm inside

theorem receive_issued {cases : List ReceiveCase} {code : List Instr}
    (succeeds : receive cases scope start = .ok (code, stop)) : Issued stop.supply.labels code := by
  simp only [receive, bind_eq_ok, pure_eq_ok] at succeeds
  obtain ⟨_, _, _, after, _, freshAfter, done, _, freshDone, arms, _, issue, rfl, rfl⟩ := succeeds
  have grows := Regular.mapM (P := @Grows) (fun _ => Regular.bind Regular.freshLabel fun _ => Regular.pure _) cases _ _ _ _ issue
  have growsDone := Regular.freshLabel (P := @Grows) _ _ _ _ freshDone
  obtain ⟨afterPositive, afterLe⟩ := freshLabel_issued freshAfter
  obtain ⟨donePositive, doneLe⟩ := freshLabel_issued freshDone
  have armsIssued := arms_issued issue
  refine .append (.append (.append (.append (.of_no_label ?_) ?_) (.of_no_label ?_)) ?_) ?_
  · simp [Instr.label?]
  · exact .suspend _ afterPositive (by omega)
  · simp [Instr.label?]
  · intro label member
    obtain ⟨arm, present, inside⟩ := List.mem_flatMap.mp member
    simp only [Template.receiveArm, List.mem_cons, Instr.label.injEq, reduceCtorEq, List.not_mem_nil,
      or_false] at inside
    exact inside ▸ armsIssued arm present
  · exact .single donePositive (by omega)

end Lower

theorem SingleCode.issued {count : Nat} {code : List Instr} (single : SingleCode count code) :
    Issued count code := by
  have unlabelled {code : List Instr} (straight : ∀ instr ∈ code, instr.isStraight) : Issued count code :=
    .of_no_label fun instr member => by
      have straight := straight instr member
      cases instr <;> first | rfl | simp [Instr.isStraight] at straight
  cases single with
  | goesOn straight => exact unlabelled straight
  | leaves _ straight _ => exact .append (unlabelled straight) (.of_no_label (by simp [Template.terminate, Instr.label?]))
  | suspends _ _ _ straight issued straight' =>
      exact .append (.append (unlabelled straight) (.suspend _ issued.1 issued.2)) (unlabelled straight')
  | @calls callee args _ _ issued straight =>
      have pushed : Issued count [.pushFrame callee args] := .of_no_label (by simp [Instr.label?])
      have landing := Issued.single issued.1 issued.2
      exact .append (pushed.append (landing.append (.of_no_label (by simp [Instr.label?])))) (unlabelled straight)

open Lower

mutual

/-- The labels in the code of a statement have been issued when it is lowered. -/
theorem Node.lower_issued {scope : Lowering.Scope} {start stop : Lowering.Progress} {inNew : Bool}
    {code : List Instr} :
    (node : Node) → node.lower inNew .read scope start = .ok (.code code, stop) → Issued stop.supply.labels code
  | .mk _ span kind, succeeds => by
      unfold Node.lower at succeeds
      split at succeeds
      · exact (throw_ne_ok.mp (bind_eq_ok.mp succeeds).choose_spec.choose_spec.2).elim
      · simp only [bind_eq_ok, get_eq_ok] at succeeds
        obtain ⟨_, _, ⟨rfl, rfl⟩, fragment, _, lowered, settled⟩ := succeeds
        cases fragment with
        | value _ | place _ => simp [pure_eq_ok] at settled
        | code body =>
            simp only [map_eq_ok, Fragment.code.injEq] at settled
            obtain ⟨_, settled, rfl⟩ := settled
            exact settleChoices_issued settled (NodeKind.lower_issued kind lowered)

theorem NodeKind.lower_issued {scope : Lowering.Scope} {span : Span} {start stop : Lowering.Progress}
    {inNew : Bool} {code : List Instr} :
    (kind : NodeKind) → kind.lower inNew .read span scope start = .ok (.code code, stop) →
      Issued stop.supply.labels code
  | .receive cases, succeeds => by
      simp only [NodeKind.lower, map_eq_ok, Fragment.code.injEq] at succeeds
      obtain ⟨_, received, rfl⟩ := succeeds
      exact receive_issued received
  | .loop cond body, succeeds => by
      simp only [NodeKind.lower, bind_eq_ok, map_eq_ok, Fragment.code.injEq] at succeeds
      obtain ⟨_, _, _, fragment, _, lowered, _, joined, rfl⟩ := succeeds
      have grows := Regular.loop (P := @Grows) _ _ _ _ _ _ joined
      simp only [Lower.loop, bind_eq_ok, expectCode_eq_ok, pure_eq_ok] at joined
      obtain ⟨_, _, _, inner, _, ⟨rfl, _⟩, _, _, _, _, _, _, rfl, _⟩ := joined
      exact .loop ((Node.lower_issued body lowered).mono grows)
  | .branch cond onTrue onFalse, succeeds => by
      simp only [NodeKind.lower, bind_eq_ok, map_eq_ok, Fragment.code.injEq] at succeeds
      obtain ⟨_, _, _, fragment, _, lowered, other, _, lowered', _, joined, rfl⟩ := succeeds
      have grows := Regular.branch (P := @Grows) _ _ _ _ _ _ _ joined
      have grows' := Regular.optionalLower (P := @Grows) _ _ _ _ _ _ _ lowered'
      simp only [Lower.branch, bind_eq_ok, expectCode_eq_ok] at joined
      obtain ⟨_, _, _, inner, _, ⟨rfl, _⟩, _, _, _, joined⟩ := joined
      have first := (Node.lower_issued onTrue lowered).mono (Nat.le_trans grows' grows)
      cases other with
      | none =>
          obtain ⟨rfl, _⟩ := pure_eq_ok.mp joined
          exact .branch first
      | some fragment =>
          simp only [bind_eq_ok, expectCode_eq_ok, pure_eq_ok] at joined
          obtain ⟨other, _, ⟨rfl, _⟩, _, _, _, rfl, _⟩ := joined
          exact .branchElse first ((optionalLower_issued onFalse lowered').mono grows)
  | .seq first rest, succeeds => by
      simp only [NodeKind.lower, bind_eq_ok, expectCode_eq_ok, pure_eq_ok, Fragment.code.injEq] at succeeds
      obtain ⟨_, _, lowered, _, _, lowered', _, _, ⟨rfl, rfl⟩, _, _, ⟨rfl, rfl⟩, rfl, rfl⟩ := succeeds
      have grows := Regular.nodeLower (P := @Grows) _ _ _ _ _ _ _ lowered'
      exact .append ((Node.lower_issued first lowered).mono grows) (Node.lower_issued rest lowered')
  | .block statements, succeeds => by
      simp only [NodeKind.lower, bind_eq_ok, pure_eq_ok, Fragment.code.injEq] at succeeds
      obtain ⟨fragments, _, lowered, codes, _, expected, rfl, rfl⟩ := succeeds
      exact allLower_issued statements lowered expected
  | .name _, succeeds | .lit _, succeeds | .nondet _, succeeds | .unary _ _, succeeds | .binary _ _ _, succeeds
  | .field _ _, succeeds | .tuple _, succeeds | .namedTuple _, succeeds | .default _, succeeds
  | .cast _ _, succeeds | .app _ _, succeeds | .exprs _ _ _, succeeds | .namedExprs _ _ _, succeeds
  | .new _ _ _, succeeds | .call _ _ _, succeeds | .goto _ _, succeeds | .raise _ _, succeeds
  | .send _ _ _, succeeds | .announce _ _, succeeds | .assert _ _, succeeds | .print _ _, succeeds
  | .assign _ _ _, succeeds | .remove _ _, succeeds | .insert _ _, succeeds | .pop, succeeds
  | .ret _, succeeds => (NodeKind.single_code rfl succeeds).issued

theorem optionalLower_issued {scope : Lowering.Scope} {start stop : Lowering.Progress} {inNew : Bool}
    {code : List Instr} :
    (node : Option Node) → lowerOptional inNew .read node scope start = .ok (some (.code code), stop) →
      Issued stop.supply.labels code
  | none, succeeds => by simp [lowerOptional, pure_eq_ok] at succeeds
  | some node, succeeds => by
      simp only [lowerOptional, map_eq_ok, Option.some.injEq] at succeeds
      obtain ⟨_, lowered, rfl⟩ := succeeds
      exact Node.lower_issued node lowered

theorem allLower_issued {scope : Lowering.Scope} {start between stop : Lowering.Progress} {inNew : Bool}
    {fragments : List Fragment} {codes : List (List Instr)} :
    (nodes : List Node) → lowerAll inNew nodes scope start = .ok (fragments, between) →
      fragments.mapM expectCode scope between = .ok (codes, stop) → Issued stop.supply.labels codes.flatten
  | [], lowered, expected => by
      obtain ⟨rfl, rfl⟩ := pure_eq_ok.mp lowered
      obtain ⟨rfl, rfl⟩ := pure_eq_ok.mp expected
      exact .of_no_label (by simp)
  | node :: rest, lowered, expected => by
      simp only [lowerAll, bind_eq_ok, pure_eq_ok] at lowered
      obtain ⟨_, _, first, others, _, later, rfl, rfl⟩ := lowered
      simp only [List.mapM_cons, bind_eq_ok, expectCode_eq_ok, pure_eq_ok] at expected
      obtain ⟨_, _, ⟨rfl, rfl⟩, codes, _, expected, rfl, rfl⟩ := expected
      have grows := Regular.allLower (P := @Grows) _ _ _ _ _ _ later
      have grows' := Regular.mapM (P := @Grows) Regular.expectCode _ _ _ _ _ expected
      exact .append ((Node.lower_issued node first).mono (Nat.le_trans grows grows'))
        (allLower_issued rest later expected)

end

end Reentry
