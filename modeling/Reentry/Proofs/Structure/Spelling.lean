import Reentry.Proofs.Lowering.Statements
import Reentry.Proofs.Structure.Outline

/-!
How flat code spells an outline: which labels, marks and jumps it needs for each statement. Lowering a
body gives code that spells the outline of the body.
-/

namespace Reentry

/-- Whether the call always goes on behind the instruction. -/
def Instr.isStraight : Instr → Bool
  | .label _ | .mark _ | .jump _ | .jumpUnless .. | .dispatchReceive _ | .invoke _
  | .propagateSuspension .. | .yield _ | .exit => false
  | _ => true

/-- The case of a receive that an arm belongs to. -/
def ReceiveArm.case (arm : ReceiveArm) : ReceiveCase := ⟨arm.event, arm.handler⟩

/-- Code that does what an outline says. -/
inductive Spells : List Outline → List Instr → Prop
  | nil : Spells [] []
  | act {instr rest code} (straight : instr.isStraight) (tail : Spells rest code) :
      Spells (.act instr :: rest) (instr :: code)
  | finish {request rest code} (final : request.question? = none) (tail : Spells rest code) :
      Spells (.finish request :: rest) (.yield request :: .exit :: code)
  | ask {question rest code} (resume : LabelId) (tail : Spells rest code) :
      Spells (.ask question :: rest) (.yield (question.request resume) :: .exit :: .label resume :: code)
  | call {callee rest code} (landing : LabelId) (tail : Spells rest code) :
      Spells (.call callee :: rest)
        (.label landing :: .invoke callee :: .propagateSuspension callee landing :: code)
  | dispatch {rest code} (arms : List ReceiveArm) (done : LabelId) (tail : Spells rest code) :
      Spells (.dispatch (arms.map ReceiveArm.case) :: rest)
        (.dispatchReceive arms :: (arms.flatMap (Template.receiveArm done) ++ .label done :: code))
  | branch {cond onTrue inner rest code} (stop : MarkId) (body : Spells onTrue inner) (tail : Spells rest code) :
      Spells (.branch cond onTrue [] :: rest) (Template.branch stop cond inner ++ code)
  | branchElse {cond onTrue onFalse inner other rest code} (stop otherwise : MarkId)
      (left : Spells onTrue inner) (right : Spells onFalse other) (tail : Spells rest code) :
      Spells (.branch cond onTrue onFalse :: rest)
        (Template.branchElse stop otherwise cond inner other ++ code)
  | loop {choices asks cond body inner rest code} (start stop : MarkId)
      (head : Spells (Outline.chooseAll choices) asks) (round : Spells body inner) (tail : Spells rest code) :
      Spells (.loop choices cond body :: rest)
        (Template.withChoices true asks (Template.loop start stop cond inner) ++ code)

namespace Spells

theorem append {first rest : List Outline} {code more : List Instr}
    (spelled : Spells first code) (tail : Spells rest more) : Spells (first ++ rest) (code ++ more) := by
  induction spelled with
  | nil => exact tail
  | act straight _ ih => exact .act straight ih
  | finish final _ ih => exact .finish final ih
  | ask resume _ ih => exact .ask resume ih
  | call landing _ ih => exact .call landing ih
  | dispatch arms done _ ih =>
      simpa only [List.cons_append, List.append_assoc] using Spells.dispatch arms done ih
  | branch stop body _ _ ih =>
      simpa only [List.cons_append, List.append_assoc] using Spells.branch stop body ih
  | branchElse stop otherwise left right _ _ _ ih =>
      simpa only [List.cons_append, List.append_assoc] using Spells.branchElse stop otherwise left right ih
  | loop start stop head round _ _ _ ih =>
      simpa only [List.cons_append, List.append_assoc] using Spells.loop start stop head round ih

theorem acts {code : List Instr} (straight : ∀ instr ∈ code, instr.isStraight) :
    Spells (code.map .act) code := by
  induction code with
  | nil => exact .nil
  | cons instr rest ih =>
      have first : instr.isStraight := straight instr (by simp)
      exact .act first (ih fun other member => straight other (by simp [member]))

theorem terminate {request : YieldRequest} (final : request.question? = none) :
    Spells [.finish request] (Template.terminate request) :=
  .finish final .nil

theorem suspend (question : Question) (resume : LabelId) :
    Spells [.ask question] (Template.suspend (question.request resume) resume) :=
  .ask resume .nil

/-- The choices in front of a statement, whatever labels they get. -/
theorem choices (asked : List (Nat × LabelId)) :
    Spells (Outline.chooseAll (asked.map (·.1)))
      (asked.map fun pair => Template.choose pair.2 pair.1).flatten := by
  induction asked with
  | nil => exact .nil
  | cons pair rest ih =>
      have first : Spells (Outline.choose pair.1) (Template.choose pair.2 pair.1) :=
        .ask pair.2 (.act rfl .nil)
      exact first.append ih

end Spells

namespace Instr

theorem outline?_of_isStraight {instr : Instr} (straight : instr.isStraight) :
    instr.outline? = some (.act instr) := by
  cases instr <;> simp_all [isStraight, outline?]

end Instr

namespace Outline

theorem ofCode_append (first rest : List Instr) : ofCode (first ++ rest) = ofCode first ++ ofCode rest :=
  List.filterMap_append

theorem ofCode_straight {code : List Instr} (straight : ∀ instr ∈ code, instr.isStraight) :
    ofCode code = code.map .act := by
  induction code with
  | nil => rfl
  | cons instr rest ih =>
      have first := Instr.outline?_of_isStraight (straight instr (by simp))
      have others := ih fun other member => straight other (by simp [member])
      simp only [ofCode, List.filterMap_cons, first, List.map_cons]
      exact congrArg _ others

end Outline

/-- Code of a single statement, which spells what can be read off it. -/
def Readable (code : List Instr) : Prop := Spells (Outline.ofCode code) code

namespace Readable

theorem append {first rest : List Instr} (left : Readable first) (right : Readable rest) :
    Readable (first ++ rest) := by
  rw [Readable, Outline.ofCode_append]
  exact Spells.append left right

theorem straight {code : List Instr} (straight : ∀ instr ∈ code, instr.isStraight) : Readable code := by
  rw [Readable, Outline.ofCode_straight straight]
  exact .acts straight

theorem terminate {request : YieldRequest} (final : request.question? = none) :
    Readable (Template.terminate request) := by
  have reading : Outline.ofCode (Template.terminate request) = [.finish request] := by
    simp [Outline.ofCode, Template.terminate, Instr.outline?, final]
  rw [Readable, reading]
  exact .terminate final

theorem suspend (question : Question) (resume : LabelId) :
    Readable (Template.suspend (question.request resume) resume) := by
  have reading : Outline.ofCode (Template.suspend (question.request resume) resume) = [.ask question] := by
    cases question <;> rfl
  rw [Readable, reading]
  exact .suspend question resume

theorem invocation (callee : FunctionId) (args : List Argument) (landing : LabelId) :
    Readable [.pushFrame callee args, .label landing, .invoke callee, .propagateSuspension callee landing] :=
  .act rfl (.call landing .nil)

end Readable

/-- Code of a statement without inner statements, when `count` labels have been issued: it goes straight
on, leaves for good, suspends once, or calls. -/
inductive SingleCode (count : Nat) : List Instr → Prop
  | goesOn {code} (straight : ∀ instr ∈ code, instr.isStraight) : SingleCode count code
  | leaves {request} (code : List Instr) (straight : ∀ instr ∈ code, instr.isStraight)
      (final : request.question? = none) : SingleCode count (code ++ Template.terminate request)
  | suspends {resume : LabelId} (before after : List Instr) (question : Question)
      (straight : ∀ instr ∈ before, instr.isStraight) (issued : 0 < resume.number ∧ resume.number ≤ count)
      (straight' : ∀ instr ∈ after, instr.isStraight) :
      SingleCode count (before ++ Template.suspend (question.request resume) resume ++ after)
  | calls {callee args after} {landing : LabelId} (issued : 0 < landing.number ∧ landing.number ≤ count)
      (straight : ∀ instr ∈ after, instr.isStraight) :
      SingleCode count
        ([.pushFrame callee args, .label landing, .invoke callee, .propagateSuspension callee landing] ++ after)

namespace SingleCode

theorem readable {count : Nat} {code : List Instr} (single : SingleCode count code) : Readable code := by
  cases single with
  | goesOn straight => exact .straight straight
  | leaves _ straight final => exact (Readable.straight straight).append (.terminate final)
  | suspends _ _ _ straight _ straight' =>
      exact ((Readable.straight straight).append (.suspend _ _)).append (.straight straight')
  | calls _ straight => exact (Readable.invocation _ _ _).append (.straight straight)

end SingleCode

namespace Lower

variable {scope : Lowering.Scope} {start stop : Lowering.Progress}

theorem freshLabel_issued {label : LabelId} (succeeds : freshLabel scope start = .ok (label, stop)) :
    0 < label.number ∧ label.number ≤ stop.supply.labels := by
  obtain ⟨rfl, rfl⟩ := freshLabel_eq_ok.mp succeeds
  exact ⟨Nat.succ_pos _, Nat.le_refl _⟩

theorem mapM_freshLabel_eq_ok {choices : List Nat} {asked : List (List Instr)}
    (succeeds : (choices.mapM fun choice => do pure (Template.choose (← freshLabel) choice)) scope start
      = .ok (asked, stop)) :
    ∃ pairs : List (Nat × LabelId), choices = pairs.map (·.1) ∧
      asked = pairs.map (fun pair => Template.choose pair.2 pair.1) ∧
      (choices.mapM fun _ => freshLabel) scope start = .ok (pairs.map (·.2), stop) := by
  induction choices generalizing start asked with
  | nil =>
      rw [List.mapM_nil, pure_eq_ok] at succeeds
      obtain ⟨rfl, rfl⟩ := succeeds
      exact ⟨[], rfl, rfl, rfl⟩
  | cons choice rest ih =>
      simp only [List.mapM_cons, bind_eq_ok, pure_eq_ok] at succeeds
      obtain ⟨_, middle, ⟨label, _, issued, rfl, rfl⟩, others, _, later, rfl, rfl⟩ := succeeds
      obtain ⟨pairs, rfl, rfl, labels⟩ := ih later
      refine ⟨(choice, label) :: pairs, rfl, rfl, ?_⟩
      simp only [List.mapM_cons, bind_eq_ok, pure_eq_ok]
      exact ⟨label, _, issued, _, _, labels, rfl, rfl⟩

/-- The choices of a statement get their code in the order in which they are asked. -/
theorem settleChoices_eq_ok {isLoop : Bool} {kept : Nat} {code result : List Instr}
    (succeeds : settleChoices isLoop kept code scope start = .ok (result, stop)) :
    ∃ choices asks, asked kept scope start = .ok (choices, stop) ∧
      Spells (Outline.chooseAll choices) asks ∧ result = Template.withChoices isLoop asks code := by
  simp only [settleChoices, bind_eq_ok, pure_eq_ok] at succeeds
  obtain ⟨choices, taken, take, asks, _, issue, rfl, rfl⟩ := succeeds
  obtain ⟨pairs, rfl, rfl, labels⟩ := mapM_freshLabel_eq_ok issue
  refine ⟨_, _, ?_, Spells.choices pairs, rfl⟩
  simp only [asked, bind_eq_ok, pure_eq_ok]
  exact ⟨_, taken, take, _, _, labels, rfl, rfl⟩

end Lower

namespace Instr

theorem exchanging_straight (dest source : Place) : (exchanging dest source).isStraight := by
  unfold exchanging
  split <;> rfl

theorem assigning_straight (dest : Place) (value : Operand) : (assigning dest value).isStraight := by
  unfold assigning
  split <;> rfl

end Instr

open Lower

variable {scope : Lowering.Scope} {start stop : Lowering.Progress} {inNew : Bool}

theorem NodeKind.single_code {access : Access} {span : Span} {kind : NodeKind} {code : List Instr} (single : kind.isStructured = false)
    (succeeds : kind.lower inNew access span scope start = .ok (.code code, stop)) : SingleCode stop.supply.labels code := by
  cases lower_written single succeeds with
  | @new machine _ _ _ dest payload resume _ _ _ _ _ _ _ _ fresh =>
      exact .suspends [] _ (.new machine payload) (by simp) (freshLabel_issued fresh) (by cases dest <;> simp [Instr.isStraight])
  | @send _ _ _ receiver operand payload _ message resume _ _ _ _ _ _ _ _ _ _ fresh =>
      have suspended := SingleCode.suspends [.assert (Template.nonNull operand) message, .enqueue receiver operand payload] [] .send
        (by simp [Instr.isStraight]) (freshLabel_issued fresh) (by simp)
      rw [List.append_nil] at suspended
      exact suspended
  | @call callee _ _ _ passed dest _ _ _ _ _ _ _ _ fresh =>
      unfold Template.call
      rw [List.append_assoc]
      refine .calls (freshLabel_issued fresh) fun instr member => ?_
      rcases List.mem_append.mp member with collected | written
      · cases dest <;> simp_all [Instr.isStraight]
      · obtain ⟨pair, _, rfl⟩ := List.mem_map.mp written
        rfl
  | goto | raise | pop => exact .leaves _ (by simp [Instr.isStraight]) rfl
  | @ret _ operand => cases operand <;> exact .leaves [] (by simp) rfl
  | announce | assert | print | remove | insert => exact .goesOn (by simp [Instr.isStraight])
  | @assign _ _ qualifier _ _ _ _ _ _ _ _ assigns =>
      refine .goesOn fun instr member => ?_
      cases qualifier with
      | swap =>
          obtain ⟨place, _, rfl⟩ := assigns
          rw [List.mem_singleton.mp member]
          exact Instr.exchanging_straight _ _
      | none | move =>
          obtain ⟨value, _, rfl⟩ := assigns
          rw [List.mem_singleton.mp member]
          exact Instr.assigning_straight _ _

/-- A statement that creates nothing and is no loop is its own code behind the choices that it reads, which are those that
have been issued since. -/
theorem Node.lower_statement_asks {access : Access} {id : NodeId} {span : Span} {kind : NodeKind} {code : List Instr}
    (plain : kind.isNew = false ∧ kind.isLoop = false)
    (succeeds : (Node.mk id span kind).lower inNew access scope start = .ok (.code code, stop)) :
    ∃ own middle asks, kind.lower inNew access span scope start = .ok (.code own, middle) ∧
      Spells (Outline.chooseAll (middle.pending.drop start.pending.length)) asks ∧ code = asks ++ own := by
  simp only [Node.lower, plain.1, Bool.false_and, Bool.false_eq_true, if_false, Bool.or_false, bind_eq_ok, get_eq_ok] at succeeds
  obtain ⟨_, _, ⟨rfl, rfl⟩, fragment, middle, lowered, settled⟩ := succeeds
  cases fragment with
  | value _ | place _ => simp [pure_eq_ok] at settled
  | code own =>
      simp only [map_eq_ok, Fragment.code.injEq] at settled
      obtain ⟨_, settled, rfl⟩ := settled
      obtain ⟨choices, asks, asking, spelled, rfl⟩ := settleChoices_eq_ok settled
      simp only [asked, bind_eq_ok, pure_eq_ok] at asking
      obtain ⟨_, _, taken, _, _, _, rfl, _⟩ := asking
      rw [(takeChoices_eq_ok.mp taken).1] at spelled
      rw [plain.2]
      exact ⟨own, middle, asks, lowered, spelled, rfl⟩

theorem Node.lower_statement_eq_ok {access : Access} {id : NodeId} {span : Span} {kind : NodeKind} {code : List Instr}
    (plain : kind.isNew = false ∧ kind.isLoop = false)
    (succeeds : (Node.mk id span kind).lower inNew access scope start = .ok (.code code, stop)) :
    ∃ own middle choices asks, kind.lower inNew access span scope start = .ok (.code own, middle) ∧
      Spells (Outline.chooseAll choices) asks ∧ code = asks ++ own := by
  obtain ⟨own, middle, asks, lowered, spelled, same⟩ := lower_statement_asks plain succeeds
  exact ⟨own, middle, _, asks, lowered, spelled, same⟩

/-- A statement with its choices in front, unless it is a loop. -/
theorem Spells.settled {outline : List Outline} {code : List Instr} (spelled : Spells outline code)
    {choices : List Nat} {asks : List Instr} (asking : Spells (Outline.chooseAll choices) asks) :
    Spells (Outline.chooseAll choices ++ outline) (Template.withChoices false asks code) :=
  asking.append spelled

theorem Spells.waits (cases : List ReceiveCase) {code : List Instr} {outline : List Outline}
    (spelled : Spells outline code) :
    Spells ((cases.map fun case => Outline.act (.registerReceive case.event)) ++ outline)
      ((cases.map fun case => Instr.registerReceive case.event) ++ code) := by
  induction cases with
  | nil => exact spelled
  | cons case rest ih => exact .act rfl ih

open Lower in
/-- The arms of a receive have the events and the handlers of its cases, in order. -/
theorem Lower.mapM_arms_eq_ok {scope : Lowering.Scope} {start stop : Lowering.Progress}
    {cases : List ReceiveCase} {arms : List ReceiveArm}
    (succeeds : (cases.mapM fun (case : ReceiveCase) => do
      pure (⟨case.event, case.handler, ← freshLabel⟩ : ReceiveArm)) scope start = .ok (arms, stop)) : arms.map ReceiveArm.case = cases := by
  induction cases generalizing start arms with
  | nil =>
      rw [List.mapM_nil, pure_eq_ok] at succeeds
      obtain ⟨rfl, rfl⟩ := succeeds
      rfl
  | cons case rest ih =>
      simp only [List.mapM_cons, bind_eq_ok, pure_eq_ok] at succeeds
      obtain ⟨_, _, ⟨_, _, _, rfl, rfl⟩, others, _, later, rfl, rfl⟩ := succeeds
      rw [List.map_cons, ih later]
      rfl

open Lower in
/-- A receive spells its cases: first they are registered, then the scheduler is asked, then the event
that arrived is dispatched. -/
theorem Lower.receive_spells {scope : Lowering.Scope} {start stop : Lowering.Progress}
    {cases : List ReceiveCase} {code : List Instr}
    (succeeds : receive cases scope start = .ok (code, stop)) :
    Spells ((cases.map fun case => Outline.act (.registerReceive case.event)) ++ [.ask .receive, .dispatch cases])
      code := by
  simp only [receive, bind_eq_ok, pure_eq_ok] at succeeds
  obtain ⟨_, _, _, after, _, _, done, _, _, arms, _, issued, rfl, rfl⟩ := succeeds
  obtain rfl : arms.map ReceiveArm.case = cases := mapM_arms_eq_ok issued
  have tail : Spells [.ask .receive, .dispatch (arms.map ReceiveArm.case)]
      (Template.suspend (.receive after) after ++
        (.dispatchReceive arms :: (arms.flatMap (Template.receiveArm done) ++ [.label done]))) :=
    .ask after (.dispatch arms done .nil)
  have waits : (arms.map ReceiveArm.case).map (fun case => Instr.registerReceive case.event)
      = arms.map fun arm => .registerReceive arm.event := by
    rw [List.map_map]
    rfl
  have spelled := Spells.waits (arms.map ReceiveArm.case) tail
  rw [waits] at spelled
  simpa only [Template.receive, List.append_assoc, List.cons_append, List.nil_append] using spelled

open Lower

/-- The outline of a statement without inner statements is made of its code. -/
theorem NodeKind.outline_single {span : Span} {kind : NodeKind} (single : kind.isStructured = false) :
    kind.outline span = kind.lower kind.isNew .read span >>= fun fragment =>
      match fragment with
      | .code body => pure fun choices => Outline.chooseAll choices ++ Outline.ofCode body
      | other => unexpected "statement" other.kindName := by
  cases kind <;> first | rfl | simp [isStructured] at single

theorem NodeKind.single_spells {scope : Lowering.Scope} {span : Span} {start stop : Lowering.Progress}
    {kind : NodeKind} {code : List Instr} (single : kind.isStructured = false)
    (succeeds : kind.lower kind.isNew .read span scope start = .ok (.code code, stop)) :
    ∃ settle, kind.outline span scope start = .ok (settle, stop) ∧
      ∀ choices asks, Spells (Outline.chooseAll choices) asks →
        Spells (settle choices) (Template.withChoices kind.isLoop asks code) := by
  have readable : Readable code := (single_code single succeeds).readable
  have noLoop : kind.isLoop = false := by
    cases kind <;> first | rfl | simp [isStructured] at single
  refine ⟨fun choices => Outline.chooseAll choices ++ Outline.ofCode code, ?_, fun choices asks asking => ?_⟩
  · rw [outline_single single, bind_eq_ok]
    exact ⟨.code code, stop, succeeds, rfl⟩
  · rw [noLoop]
    exact Spells.settled readable asking

theorem outlineOptional_none {scope : Lowering.Scope} {start stop : Lowering.Progress} {node : Option Node}
    (succeeds : lowerOptional false .read node scope start = .ok (none, stop)) :
    outlineOptional node scope start = .ok (none, stop) := by
  cases node with
  | none => simpa [outlineOptional, lowerOptional, pure_eq_ok] using succeeds
  | some node => simp [lowerOptional, map_eq_ok] at succeeds

mutual

/-- Lowering a statement gives code that spells its outline, and outlining keeps step with it. -/
theorem Node.lower_spells {scope : Lowering.Scope} {start stop : Lowering.Progress} {code : List Instr} :
    (node : Node) → node.lower false .read scope start = .ok (.code code, stop) →
      ∃ outline, node.outline scope start = .ok (outline, stop) ∧ Spells outline code
  | .mk _ span kind, succeeds => by
      simp only [Node.lower, Bool.and_false, Bool.false_eq_true, if_false, Bool.false_or, bind_eq_ok,
        get_eq_ok] at succeeds
      obtain ⟨_, _, ⟨rfl, rfl⟩, fragment, _, lowered, settled⟩ := succeeds
      cases fragment with
      | value _ | place _ => simp [pure_eq_ok] at settled
      | code body =>
          simp only [map_eq_ok, Fragment.code.injEq] at settled
          obtain ⟨_, settled, rfl⟩ := settled
          obtain ⟨choices, asks, asking, spelled, rfl⟩ := settleChoices_eq_ok settled
          obtain ⟨settle, outlined, fits⟩ := NodeKind.lower_spells kind lowered
          refine ⟨settle choices, ?_, fits choices asks spelled⟩
          simp only [Node.outline, bind_eq_ok, get_eq_ok, pure_eq_ok]
          exact ⟨_, _, ⟨rfl, rfl⟩, settle, _, outlined, choices, _, asking, rfl, rfl⟩

theorem NodeKind.lower_spells {scope : Lowering.Scope} {span : Span} {start stop : Lowering.Progress}
    {code : List Instr} :
    (kind : NodeKind) → kind.lower kind.isNew .read span scope start = .ok (.code code, stop) →
      ∃ settle, kind.outline span scope start = .ok (settle, stop) ∧
        ∀ choices asks, Spells (Outline.chooseAll choices) asks →
          Spells (settle choices) (Template.withChoices kind.isLoop asks code)
  | .receive cases, succeeds => by
      simp only [NodeKind.lower, map_eq_ok, Fragment.code.injEq] at succeeds
      obtain ⟨_, received, rfl⟩ := succeeds
      simp only [NodeKind.outline, bind_eq_ok, pure_eq_ok]
      refine ⟨_, ⟨_, _, received, rfl, rfl⟩, fun choices asks asking => ?_⟩
      rw [List.append_assoc]
      exact (receive_spells received).settled asking
  | .loop cond body, succeeds => by
      simp only [NodeKind.lower, Lower.loop, NodeKind.isNew, bind_eq_ok, map_eq_ok, expectValue_eq_ok, expectCode_eq_ok,
        pure_eq_ok, Fragment.code.injEq] at succeeds
      obtain ⟨_, _, tested, _, _, lowered, _,
        ⟨cond, _, ⟨rfl, rfl⟩, inner, _, ⟨rfl, rfl⟩, start, _, fresh, stop, _, fresh', rfl, rfl⟩, rfl⟩ := succeeds
      obtain ⟨outline, outlined, spelled⟩ := Node.lower_spells body lowered
      simp only [NodeKind.outline, bind_eq_ok, expectValue_eq_ok, pure_eq_ok]
      refine ⟨_, ⟨_, _, tested, outline, _, outlined, cond, _, ⟨rfl, rfl⟩, _, _, fresh, _, _, fresh', rfl, rfl⟩,
        fun choices asks asking => ?_⟩
      simpa only [List.append_nil, NodeKind.isLoop] using Spells.loop start stop asking spelled .nil
  | .branch cond onTrue onFalse, succeeds => by
      simp only [NodeKind.lower, Lower.branch, NodeKind.isNew, bind_eq_ok, map_eq_ok, expectValue_eq_ok, expectCode_eq_ok,
        Fragment.code.injEq] at succeeds
      obtain ⟨_, _, tested, _, _, lowered, other, _, otherwise, _,
        ⟨cond, _, ⟨rfl, rfl⟩, inner, _, ⟨rfl, rfl⟩, stop, _, fresh, joined⟩, rfl⟩ := succeeds
      obtain ⟨outline, outlined, spelled⟩ := Node.lower_spells onTrue lowered
      simp only [NodeKind.outline, bind_eq_ok, expectValue_eq_ok]
      cases other with
      | none =>
          simp only [pure_eq_ok] at joined
          obtain ⟨rfl, rfl⟩ := joined
          have noOther := outlineOptional_none otherwise
          refine ⟨fun choices => Outline.chooseAll choices ++ [.branch cond outline []],
            ⟨_, _, tested, outline, _, outlined, none, _, noOther, cond, _, ⟨rfl, rfl⟩, _, _, fresh, ?_⟩,
            fun choices asks asking => Spells.settled ?_ asking⟩
          · exact pure_eq_ok.mpr ⟨rfl, rfl⟩
          · simpa only [List.append_nil] using Spells.branch stop spelled .nil
      | some fragment =>
          simp only [bind_eq_ok, expectCode_eq_ok, pure_eq_ok] at joined
          obtain ⟨other, _, ⟨rfl, rfl⟩, elsewhere, _, fresh', rfl, rfl⟩ := joined
          obtain ⟨second, outlined', spelled'⟩ := outlineOptional_spells onFalse otherwise
          refine ⟨fun choices => Outline.chooseAll choices ++ [.branch cond outline second],
            ⟨_, _, tested, outline, _, outlined, some second, _, outlined', cond, _, ⟨rfl, rfl⟩, _, _, fresh, ?_⟩,
            fun choices asks asking => Spells.settled ?_ asking⟩
          · exact bind_eq_ok.mpr ⟨_, _, fresh', pure_eq_ok.mpr ⟨rfl, rfl⟩⟩
          · simpa only [List.append_nil] using Spells.branchElse stop elsewhere spelled spelled' .nil
  | .seq first rest, succeeds => by
      simp only [NodeKind.lower, NodeKind.isNew, bind_eq_ok, expectCode_eq_ok, pure_eq_ok, Fragment.code.injEq] at succeeds
      obtain ⟨_, _, lowered, _, _, lowered', _, _, ⟨rfl, rfl⟩, _, _, ⟨rfl, rfl⟩, rfl, rfl⟩ := succeeds
      obtain ⟨outline, outlined, spelled⟩ := Node.lower_spells first lowered
      obtain ⟨outline', outlined', spelled'⟩ := Node.lower_spells rest lowered'
      simp only [NodeKind.outline, bind_eq_ok, pure_eq_ok]
      exact ⟨_, ⟨outline, _, outlined, outline', _, outlined', rfl, rfl⟩,
        fun choices asks asking => (spelled.append spelled').settled asking⟩
  | .block statements, succeeds => by
      simp only [NodeKind.lower, NodeKind.isNew, bind_eq_ok, pure_eq_ok, Fragment.code.injEq] at succeeds
      obtain ⟨fragments, _, lowered, codes, _, expected, rfl, rfl⟩ := succeeds
      obtain ⟨outlines, outlined, spelled⟩ := outlineAll_spells statements lowered expected
      simp only [NodeKind.outline, bind_eq_ok, pure_eq_ok]
      exact ⟨_, ⟨outlines, _, outlined, rfl, rfl⟩,
        fun choices asks asking => spelled.settled asking⟩
  | .name _, succeeds | .lit _, succeeds | .nondet _, succeeds | .unary _ _, succeeds | .binary _ _ _, succeeds
  | .field _ _, succeeds | .tuple _, succeeds | .namedTuple _, succeeds | .default _, succeeds
  | .cast _ _, succeeds | .app _ _, succeeds | .exprs _ _ _, succeeds | .namedExprs _ _ _, succeeds
  | .new _ _ _, succeeds | .call _ _ _, succeeds | .goto _ _, succeeds | .raise _ _, succeeds
  | .send _ _ _, succeeds | .announce _ _, succeeds | .assert _ _, succeeds | .print _ _, succeeds
  | .assign _ _ _, succeeds | .remove _ _, succeeds | .insert _ _, succeeds | .pop, succeeds
  | .ret _, succeeds => NodeKind.single_spells rfl succeeds

theorem outlineOptional_spells {scope : Lowering.Scope} {start stop : Lowering.Progress} {code : List Instr} :
    (node : Option Node) → lowerOptional false .read node scope start = .ok (some (.code code), stop) →
      ∃ outline, outlineOptional node scope start = .ok (some outline, stop) ∧ Spells outline code
  | none, succeeds => by simp [lowerOptional, pure_eq_ok] at succeeds
  | some node, succeeds => by
      simp only [lowerOptional, map_eq_ok, Option.some.injEq] at succeeds
      obtain ⟨_, lowered, rfl⟩ := succeeds
      obtain ⟨outline, outlined, spelled⟩ := Node.lower_spells node lowered
      simp only [outlineOptional, map_eq_ok, Option.some.injEq]
      exact ⟨outline, ⟨outline, outlined, rfl⟩, spelled⟩

theorem outlineAll_spells {scope : Lowering.Scope} {start between stop : Lowering.Progress}
    {fragments : List Fragment} {codes : List (List Instr)} :
    (nodes : List Node) → lowerAll false nodes scope start = .ok (fragments, between) →
      fragments.mapM expectCode scope between = .ok (codes, stop) →
        ∃ outlines, outlineAll nodes scope start = .ok (outlines, stop) ∧ Spells outlines.flatten codes.flatten
  | [], lowered, expected => by
      simp only [lowerAll, pure_eq_ok] at lowered
      obtain ⟨rfl, rfl⟩ := lowered
      simp only [List.mapM_nil, pure_eq_ok] at expected
      obtain ⟨rfl, rfl⟩ := expected
      exact ⟨[], rfl, .nil⟩
  | node :: rest, lowered, expected => by
      simp only [lowerAll, bind_eq_ok, pure_eq_ok] at lowered
      obtain ⟨_, _, first, others, _, later, rfl, rfl⟩ := lowered
      simp only [List.mapM_cons, bind_eq_ok, expectCode_eq_ok, pure_eq_ok] at expected
      obtain ⟨_, _, ⟨rfl, rfl⟩, codes, _, expected, rfl, rfl⟩ := expected
      obtain ⟨outline, outlined, spelled⟩ := Node.lower_spells node first
      obtain ⟨outlines, outlined', spelled'⟩ := outlineAll_spells rest later expected
      simp only [outlineAll, bind_eq_ok, pure_eq_ok]
      refine ⟨outline :: outlines, ⟨outline, _, outlined, outlines, _, outlined', rfl, rfl⟩, ?_⟩
      simpa only [List.flatten_cons] using spelled.append spelled'

end

end Reentry
