import Reentry.Lowering.Program

/-!
The outline of a function body is the body itself with its expressions lowered: statements that follow
one another, branches and loops, and between them what is done and what the scheduler is asked for.
There are no labels, marks or jumps in it, so what an outline means can be said by following its
structure. It is made from the tree of the body; of the flat code it only takes over what single
statements consist of.
-/

namespace Reentry

/-- What an operation that is continued asks the scheduler for. -/
inductive Question where
  | send
  | receive
  | new (machine : MachineTypeId) (payload : Operand)
  | nondet

namespace Question

/-- The request that asks the question and comes back at a label. -/
def request (resume : LabelId) : Question → YieldRequest
  | .send => .send resume
  | .receive => .receive resume
  | .new machine payload => .new machine payload resume
  | .nondet => .nondet resume

end Question

/-- The question of a request, unless it ends the call. -/
def YieldRequest.question? : YieldRequest → Option Question
  | .send _ => some .send
  | .receive _ => some .receive
  | .new machine payload _ => some (.new machine payload)
  | .nondet _ => some .nondet
  | .goto | .raise | .pop | .ret | .retValue _ => none

inductive Outline where
  /-- Carries out one instruction. -/
  | act (instr : Instr)
  /-- Leaves the call for good. -/
  | finish (request : YieldRequest)
  /-- Asks the scheduler and goes on with its answer. -/
  | ask (question : Question)
  /-- Runs the callee whose frame has been pushed until it returns. -/
  | call (callee : FunctionId)
  /-- Pushes the frame of the handler for the event that arrived, and runs it. -/
  | dispatch (cases : List ReceiveCase)
  | branch (cond : Operand) (onTrue onFalse : List Outline)
  /-- Asks for the choices before each test of the condition. -/
  | loop (choices : List Nat) (cond : Operand) (body : List Outline)

namespace Outline

/-- Asks for a boolean and records it. -/
def choose (choice : Nat) : List Outline := [.ask .nondet, .act (.recordChoice choice)]

def chooseAll (choices : List Nat) : List Outline := choices.flatMap choose

end Outline

/-- What an instruction of a statement without inner statements stands for. Labels, exits and the
passing on of suspensions only serve to leave a call and to come back to it. -/
def Instr.outline? : Instr → Option Outline
  | .yield request =>
      match request.question? with
      | some question => some (.ask question)
      | none => some (.finish request)
  | .invoke callee => some (.call callee)
  | .label _ | .exit | .propagateSuspension .. => none
  | instr => some (.act instr)

/-- Outline of a statement without inner statements, from its own code. -/
def Outline.ofCode (code : List Instr) : List Outline := code.filterMap Instr.outline?

open Lower

/-- The choices of a statement. Labels are issued for them as lowering does, so that lowering and
outlining a body keep step. -/
def Lower.asked (kept : Nat) : Lower (List Nat) := do
  let choices ← takeChoices kept
  let _ ← choices.mapM fun _ => freshLabel
  pure choices

mutual

def Node.outline : Node → Lower (List Outline)
  | .mk _ span kind => do
      let kept := (← get).pending.length
      let settle ← kind.outline span
      pure (settle (← asked kept))

/-- Outline of a statement, given the choices that its own expressions read. -/
def NodeKind.outline (span : Span) : NodeKind → Lower (List Nat → List Outline)
  | .receive cases => do
      let _ ← receive cases
      let waits := cases.map fun case => Outline.act (.registerReceive case.event)
      pure fun choices => Outline.chooseAll choices ++ waits ++ [.ask .receive, .dispatch cases]
  | .loop cond body => do
      let cond ← cond.lower false .read
      let body ← body.outline
      let cond ← expectValue cond
      let _ ← freshMark
      let _ ← freshMark
      pure fun choices => [.loop choices cond body]
  | .branch cond onTrue onFalse => do
      let cond ← cond.lower false .read
      let onTrue ← onTrue.outline
      let onFalse ← outlineOptional onFalse
      let cond ← expectValue cond
      let _ ← freshMark
      match onFalse with
      | none => pure fun choices => Outline.chooseAll choices ++ [.branch cond onTrue []]
      | some onFalse =>
          let _ ← freshMark
          pure fun choices => Outline.chooseAll choices ++ [.branch cond onTrue onFalse]
  | .seq first rest => do
      let first ← first.outline
      let rest ← rest.outline
      pure fun choices => Outline.chooseAll choices ++ (first ++ rest)
  | .block statements => do
      let parts ← outlineAll statements
      pure fun choices => Outline.chooseAll choices ++ parts.flatten
  | kind => do
      match ← kind.lower kind.isNew .read span with
      | .code body => pure fun choices => Outline.chooseAll choices ++ Outline.ofCode body
      | other => unexpected "statement" other.kindName

def outlineOptional : Option Node → Lower (Option (List Outline))
  | none => pure none
  | some node => some <$> node.outline

def outlineAll : List Node → Lower (List (List Outline))
  | [] => pure []
  | node :: rest => do
      let outline ← node.outline
      pure (outline :: (← outlineAll rest))

end

namespace Program

/-- Outline of the body of a function. -/
def outline (program : Program) (id : FunctionId) (options : LowerOptions) : Except LowerError (List Outline) := do
  match program.function? id with
  | none => throw (.unknownFunction "<program>" id.index.toNat)
  | some info =>
      let (outline, _) ← (info.body.outline.run ⟨program, info, options⟩).run .start
      return outline

/-- The outline of a function is that of its body, from the start. -/
theorem outline_eq_ok {program : Program} {id : FunctionId} {options : LowerOptions} {outline : List Outline}
    (succeeds : program.outline id options = .ok outline) : ∃ info progress, program.function? id = some info ∧
      info.body.outline ⟨program, info, options⟩ .start = .ok (outline, progress) := by
  unfold Program.outline at succeeds
  cases known : program.function? id with
  | none =>
      rw [known] at succeeds
      cases succeeds
  | some info =>
      rw [known] at succeeds
      change (info.body.outline ⟨program, info, options⟩ .start >>= fun pair => pure pair.1) = _ at succeeds
      cases outlined : info.body.outline ⟨program, info, options⟩ .start with
      | error cause =>
          rw [outlined] at succeeds
          cases succeeds
      | ok pair =>
          rw [outlined] at succeeds
          cases succeeds
          exact ⟨info, pair.2, rfl, outlined⟩

end Program

/-! A small program to look at: a player who tosses a coin as often as the environment likes. -/

namespace Sample

def node (kind : NodeKind) : Node := .mk ⟨0⟩ ⟨1, 1⟩ kind

/-- Returns a boolean that the environment chooses. -/
def toss : FunctionInfo where
  name := "toss"
  params := []
  locals := []
  returnType := some .bool
  slotCount := 0
  owner := none
  types := .empty
  body := node (.ret (some (node (.nondet false))))

/-- As long as the environment chooses, tosses and keeps the result. -/
def play : FunctionInfo where
  name := "play"
  params := []
  locals := [⟨"last", 0, .bool⟩]
  returnType := none
  slotCount := 1
  owner := none
  types := .empty
  body := node (.loop (node (.nondet false)) (node (.call ⟨1⟩ none (some (node (.name (.slot 0)))))))

def game : Program := ⟨"game.p", [play, toss], [⟨"Player", [], []⟩], []⟩

/-- The image that the game is lowered to. -/
def image : Image := (game.lower {}).toOption.getD ⟨"", [], [], []⟩

example : game.outline ⟨0⟩ {} = .ok
    [.loop [0] (.choice 0) [.act (.pushFrame ⟨1⟩ []), .call ⟨1⟩, .act (.collectReturn (.slot 0))]] := rfl

end Sample

end Reentry
