import Reentry.Proofs.Frames.Stack

/-!
Properties of lowered code that are put together from its pieces. The code of a body is made of the code of its
single statements, of the choices in front of them, of receives, and of the marks and jumps of loops and branches.
What holds of all these and is kept when pieces are joined holds of the whole body.
-/

namespace Reentry

/-- Whether the instruction is a mark or leads to one. -/
def Instr.isWaypoint : Instr → Bool
  | .mark _ | .jump (.mark _) => true
  | _ => false

/-- A property of code that joined pieces have if each of them has it. -/
structure Composes (good : List Instr → Prop) : Prop where
  nil : good []
  append {first rest : List Instr} (left : good first) (right : good rest) : good (first ++ rest)
  waypoint {instr : Instr} (waypoint : instr.isWaypoint) : good [instr]
  choose (resume : LabelId) (choice : Nat) : good (Template.choose resume choice)
  receive (after done : LabelId) (arms : List ReceiveArm) : good (Template.receive after done arms)

namespace Composes

variable {good : List Instr → Prop} {first rest code : List Instr} {instr : Instr}

theorem cons (composes : Composes good) (own : good [instr]) (others : good code) : good (instr :: code) :=
  composes.append own others

theorem choices (composes : Composes good) (asked : List (Nat × LabelId)) :
    good (asked.map fun pair => Template.choose pair.2 pair.1).flatten := by
  induction asked with
  | nil => exact composes.nil
  | cons pair rest ih => exact composes.append (composes.choose pair.2 pair.1) ih

end Composes

mutual

/-- Whether all statements among a node's statements that have no statements inside are of such a kind, and all tests
of loops and branches are such nodes. -/
def Node.Every (allowed : NodeKind → Prop) (tested : Node → Prop) : Node → Prop
  | .mk _ _ kind => kind.Every allowed tested

def NodeKind.Every (allowed : NodeKind → Prop) (tested : Node → Prop) : NodeKind → Prop
  | .loop cond body => tested cond ∧ body.Every allowed tested
  | .branch cond onTrue onFalse => tested cond ∧ onTrue.Every allowed tested ∧ optionalEvery allowed tested onFalse
  | .seq first rest => first.Every allowed tested ∧ rest.Every allowed tested
  | .block statements => allEvery allowed tested statements
  | other => allowed other

def optionalEvery (allowed : NodeKind → Prop) (tested : Node → Prop) : Option Node → Prop
  | none => True
  | some node => node.Every allowed tested

def allEvery (allowed : NodeKind → Prop) (tested : Node → Prop) : List Node → Prop
  | [] => True
  | node :: rest => node.Every allowed tested ∧ allEvery allowed tested rest

end

mutual

/-- Where everything is allowed, there is nothing to check. -/
theorem Node.every_trivial : (node : Node) → node.Every (fun _ => True) fun _ => True
  | .mk _ _ kind => kind.every_trivial

theorem NodeKind.every_trivial (kind : NodeKind) : kind.Every (fun _ => True) fun _ => True := by
  cases kind with
  | loop _ body => exact ⟨trivial, body.every_trivial⟩
  | branch _ onTrue onFalse => exact ⟨trivial, onTrue.every_trivial, optionalEvery_trivial onFalse⟩
  | seq first rest => exact ⟨first.every_trivial, rest.every_trivial⟩
  | block statements => exact allEvery_trivial statements
  | _ => trivial

theorem optionalEvery_trivial : (node : Option Node) → optionalEvery (fun _ => True) (fun _ => True) node
  | none => trivial
  | some node => node.every_trivial

theorem allEvery_trivial : (nodes : List Node) → allEvery (fun _ => True) (fun _ => True) nodes
  | [] => trivial
  | node :: rest => ⟨node.every_trivial, allEvery_trivial rest⟩

end

section

variable {allowed more : NodeKind → Prop} {tested often : Node → Prop}

mutual

/-- More may be allowed. -/
theorem Node.Every.imp (less : ∀ kind, allowed kind → more kind) (less' : ∀ node, tested node → often node) :
    (node : Node) → node.Every allowed tested → node.Every more often
  | .mk _ _ kind, every => NodeKind.Every.imp less less' kind every

theorem NodeKind.Every.imp (less : ∀ kind, allowed kind → more kind) (less' : ∀ node, tested node → often node)
    (kind : NodeKind) (every : kind.Every allowed tested) : kind.Every more often := by
  cases kind with
  | loop cond body => exact ⟨less' cond every.1, Node.Every.imp less less' body every.2⟩
  | branch cond onTrue onFalse =>
      exact ⟨less' cond every.1, Node.Every.imp less less' onTrue every.2.1, optionalEvery_imp less less' onFalse every.2.2⟩
  | seq first rest => exact ⟨Node.Every.imp less less' first every.1, Node.Every.imp less less' rest every.2⟩
  | block statements => exact allEvery_imp less less' statements every
  | _ => exact less _ every

theorem optionalEvery_imp (less : ∀ kind, allowed kind → more kind) (less' : ∀ node, tested node → often node) :
    (node : Option Node) → optionalEvery allowed tested node → optionalEvery more often node
  | none, _ => trivial
  | some node, every => Node.Every.imp less less' node every

theorem allEvery_imp (less : ∀ kind, allowed kind → more kind) (less' : ∀ node, tested node → often node) :
    (nodes : List Node) → allEvery allowed tested nodes → allEvery more often nodes
  | [], _ => trivial
  | node :: rest, every => ⟨Node.Every.imp less less' node every.1, allEvery_imp less less' rest every.2⟩

end

end

open Lower

/-- A property of code that the code of allowed statements has, and tests that read allowed conditions. -/
structure Composes.Covers (good : List Instr → Prop) (scope : Lowering.Scope) (allowed : NodeKind → Prop) (tested : Node → Prop) : Prop
    extends Composes good where
  single : ∀ {inNew access span kind start code stop}, kind.isStructured = false → allowed kind →
    kind.lower inNew access span scope start = .ok (.code code, stop) → good code
  test : ∀ {inNew node start operand stop}, tested node → node.lower inNew .read scope start = .ok (.value operand, stop) →
    ∀ mark, good [.jumpUnless operand (.mark mark)]

variable {scope : Lowering.Scope} {good : List Instr → Prop} {allowed : NodeKind → Prop} {tested : Node → Prop}

namespace Composes

/-- Choices go in front of the code, or of a loop behind its first mark. -/
theorem settleChoices (composes : Composes good) {isLoop : Bool} {kept : Nat} {code result : List Instr} {start stop : Lowering.Progress}
    (own : good code) (head : isLoop → ∃ mark rest, code = .mark mark :: rest ∧ good rest)
    (succeeds : Lower.settleChoices isLoop kept code scope start = .ok (result, stop)) : good result := by
  simp only [Lower.settleChoices, bind_eq_ok, pure_eq_ok] at succeeds
  obtain ⟨choices, _, _, asks, _, issue, rfl, rfl⟩ := succeeds
  obtain ⟨pairs, rfl, rfl, _⟩ := mapM_freshLabel_eq_ok issue
  have asked := composes.choices pairs
  cases isLoop with
  | false => exact composes.append asked own
  | true =>
      obtain ⟨mark, rest, rfl, others⟩ := head rfl
      exact composes.cons (composes.waypoint rfl) (composes.append asked others)

end Composes

namespace Composes.Covers

mutual

theorem nodeLower (covers : Covers good scope allowed tested) {inNew : Bool} {access : Access}
    {start stop : Lowering.Progress} {code : List Instr} :
    (node : Node) → node.Every allowed tested → node.lower inNew access scope start = .ok (.code code, stop) → good code
  | .mk _ span kind, every, succeeds => by
      unfold Node.lower at succeeds
      split at succeeds
      · exact (throw_ne_ok.mp (bind_eq_ok.mp succeeds).choose_spec.choose_spec.2).elim
      · simp only [bind_eq_ok, get_eq_ok] at succeeds
        obtain ⟨_, _, ⟨rfl, rfl⟩, fragment, _, lowered, settled⟩ := succeeds
        cases fragment with
        | value _ | place _ => simp [pure_eq_ok] at settled
        | code body =>
            simp only [map_eq_ok, Fragment.code.injEq] at settled
            obtain ⟨_, settled, rfl⟩ := settled
            obtain ⟨own, head⟩ := covers.kindLower kind every lowered
            exact covers.settleChoices own head settled

/-- The code of a loop begins with a mark. -/
theorem kindLower (covers : Covers good scope allowed tested) {inNew : Bool} {access : Access}
    {span : Span} {start stop : Lowering.Progress} {code : List Instr} :
    (kind : NodeKind) → kind.Every allowed tested → kind.lower inNew access span scope start = .ok (.code code, stop) →
      good code ∧ (kind.isLoop → ∃ mark rest, code = .mark mark :: rest ∧ good rest)
  | .receive cases, _, succeeds => by
      simp only [NodeKind.lower, Lower.receive, map_eq_ok, bind_eq_ok, pure_eq_ok, Fragment.code.injEq] at succeeds
      obtain ⟨_, ⟨_, _, _, after, _, _, done, _, _, arms, _, _, rfl, rfl⟩, rfl⟩ := succeeds
      exact ⟨covers.receive after done arms, by simp [NodeKind.isLoop]⟩
  | .loop cond body, every, succeeds => by
      simp only [NodeKind.lower, Lower.loop, bind_eq_ok, map_eq_ok, expectValue_eq_ok, expectCode_eq_ok, pure_eq_ok,
        Fragment.code.injEq] at succeeds
      obtain ⟨_, _, tests, _, _, lowered, _, ⟨_, _, ⟨rfl, rfl⟩, inner, _, ⟨rfl, rfl⟩, head, _, _, foot, _, _, rfl, rfl⟩, rfl⟩ := succeeds
      have inside := covers.nodeLower body every.2 lowered
      have round : good (.jumpUnless _ (.mark foot) :: (inner ++ [.jump (.mark head), .mark foot])) :=
        covers.cons (covers.test every.1 tests _)
          (covers.append inside (covers.cons (covers.waypoint rfl) (covers.waypoint rfl)))
      have shape (operand : Operand) : Template.loop head foot operand inner
          = .mark head :: .jumpUnless operand (.mark foot) :: (inner ++ [.jump (.mark head), .mark foot]) := by
        simp [Template.loop]
      rw [shape]
      exact ⟨covers.cons (covers.waypoint rfl) round, fun _ => ⟨_, _, rfl, round⟩⟩
  | .branch cond onTrue onFalse, every, succeeds => by
      simp only [NodeKind.lower, Lower.branch, bind_eq_ok, map_eq_ok, expectValue_eq_ok, expectCode_eq_ok,
        Fragment.code.injEq] at succeeds
      obtain ⟨_, _, tests, _, _, lowered, other, _, otherwise, _,
        ⟨_, _, ⟨rfl, rfl⟩, inner, _, ⟨rfl, rfl⟩, _, _, _, joined⟩, rfl⟩ := succeeds
      obtain ⟨test, left, right⟩ := every
      have inside := covers.nodeLower onTrue left lowered
      refine ⟨?_, by simp [NodeKind.isLoop]⟩
      cases other with
      | none =>
          simp only [pure_eq_ok] at joined
          obtain ⟨rfl, rfl⟩ := joined
          exact covers.append (covers.append (covers.test test tests _) inside) (covers.waypoint rfl)
      | some fragment =>
          simp only [bind_eq_ok, expectCode_eq_ok, pure_eq_ok] at joined
          obtain ⟨other, _, ⟨rfl, rfl⟩, _, _, _, rfl, rfl⟩ := joined
          have inside' := covers.optionalLower onFalse right otherwise
          refine covers.cons (covers.test test tests _) (covers.append (covers.append (covers.append inside ?_) inside') (covers.waypoint rfl))
          exact covers.cons (covers.waypoint rfl) (covers.waypoint rfl)
  | .seq first rest, every, succeeds => by
      simp only [NodeKind.lower, bind_eq_ok, expectCode_eq_ok, pure_eq_ok, Fragment.code.injEq] at succeeds
      obtain ⟨_, _, lowered, _, _, lowered', _, _, ⟨rfl, rfl⟩, _, _, ⟨rfl, rfl⟩, rfl, rfl⟩ := succeeds
      exact ⟨covers.append (covers.nodeLower first every.1 lowered) (covers.nodeLower rest every.2 lowered'), by simp [NodeKind.isLoop]⟩
  | .block statements, every, succeeds => by
      simp only [NodeKind.lower, bind_eq_ok, pure_eq_ok, Fragment.code.injEq] at succeeds
      obtain ⟨fragments, _, lowered, codes, _, expected, rfl, rfl⟩ := succeeds
      exact ⟨covers.allLower statements every lowered expected, by simp [NodeKind.isLoop]⟩
  | .name _, every, succeeds | .lit _, every, succeeds | .nondet _, every, succeeds | .unary _ _, every, succeeds
  | .binary _ _ _, every, succeeds | .field _ _, every, succeeds | .tuple _, every, succeeds | .namedTuple _, every, succeeds
  | .default _, every, succeeds | .cast _ _, every, succeeds | .app _ _, every, succeeds | .exprs _ _ _, every, succeeds
  | .namedExprs _ _ _, every, succeeds | .new _ _ _, every, succeeds | .call _ _ _, every, succeeds | .goto _ _, every, succeeds
  | .raise _ _, every, succeeds | .send _ _ _, every, succeeds | .announce _ _, every, succeeds | .assert _ _, every, succeeds
  | .print _ _, every, succeeds | .assign _ _ _, every, succeeds | .remove _ _, every, succeeds | .insert _ _, every, succeeds
  | .pop, every, succeeds | .ret _, every, succeeds => ⟨covers.single rfl every succeeds, by simp [NodeKind.isLoop]⟩

theorem optionalLower (covers : Covers good scope allowed tested) {inNew : Bool} {access : Access}
    {start stop : Lowering.Progress} {code : List Instr} :
    (node : Option Node) → optionalEvery allowed tested node →
      lowerOptional inNew access node scope start = .ok (some (.code code), stop) → good code
  | none, _, succeeds => by simp [lowerOptional, pure_eq_ok] at succeeds
  | some node, every, succeeds => by
      simp only [lowerOptional, map_eq_ok, Option.some.injEq] at succeeds
      obtain ⟨_, lowered, rfl⟩ := succeeds
      exact covers.nodeLower node every lowered

theorem allLower (covers : Covers good scope allowed tested) {inNew : Bool} {start between stop : Lowering.Progress} {fragments : List Fragment}
    {codes : List (List Instr)} : (nodes : List Node) → allEvery allowed tested nodes →
      lowerAll inNew nodes scope start = .ok (fragments, between) →
      fragments.mapM expectCode scope between = .ok (codes, stop) → good codes.flatten
  | [], _, lowered, expected => by
      simp only [lowerAll, pure_eq_ok] at lowered
      obtain ⟨rfl, rfl⟩ := lowered
      simp only [List.mapM_nil, pure_eq_ok] at expected
      obtain ⟨rfl, rfl⟩ := expected
      exact covers.nil
  | node :: rest, every, lowered, expected => by
      simp only [lowerAll, bind_eq_ok, pure_eq_ok] at lowered
      obtain ⟨_, _, first, others, _, later, rfl, rfl⟩ := lowered
      simp only [List.mapM_cons, bind_eq_ok, expectCode_eq_ok, pure_eq_ok] at expected
      obtain ⟨_, _, ⟨rfl, rfl⟩, codes, _, expected, rfl, rfl⟩ := expected
      exact covers.append (covers.nodeLower node every.1 first) (covers.allLower rest every.2 later expected)

end

end Composes.Covers

namespace Program

variable {program : Program} {options : LowerOptions} {image : Image}

/-- The routines of a lowered program have the property, if it holds of a final return as well; and what a label or a mark
stands in front of is known. -/
theorem lower_composes (succeeds : program.lower options = .ok image) (implicitReturn : good Routine.implicitReturn)
    (every : ∀ info ∈ program.functions, info.body.Every allowed tested)
    (covers : ∀ info ∈ program.functions, Composes.Covers good ⟨program, info, options⟩ allowed tested) :
    ∀ function routine, image.routine? function = some routine → good routine.body := by
  intro function routine found
  obtain ⟨info, shape, code, labelCount, known, _, lowered, assembled⟩ :=
    lowerFunction_eq_ok ((lower_routine? succeeds function).2 routine found)
  obtain ⟨_, _, _, _, same, _⟩ := Routine.assemble_eq_ok assembled
  obtain ⟨_, ran, _⟩ := Lowering.Scope.body_lowered lowered
  have member : info ∈ program.functions := List.mem_of_getElem? known
  rw [same]
  exact (covers info member).append ((covers info member).nodeLower info.body (every info member) ran) implicitReturn

end Program

end Reentry
