import Reentry.Code.Routine
import Reentry.Text.Quoted

/-!
Text of code, for people and for tools that compare dumps. The same code always has the same text.
-/

namespace Reentry

def commaSeparated (texts : List String) : String := ", ".intercalate texts

namespace Constant

def text : Constant → String
  | .null => "null"
  | .bool value => if value then "true" else "false"
  | .int value => Decimal.intText value.toInt
  | .event id => "event#" ++ Decimal.natText id.index.toNat
  | .halt => "halt"

end Constant

/-- Text in front of the operand. -/
def UnaryOp.text : UnaryOp → String
  | .not => "!"
  | .neg => "-"
  | .keys => "keys "
  | .values => "values "
  | .sizeof => "sizeof "

/-- Text between the operands. -/
def BinaryOp.text : BinaryOp → String
  | .add => "+"
  | .sub => "-"
  | .mul => "*"
  | .div => "/"
  | .and => "&&"
  | .or => "||"
  | .eq => "=="
  | .ne => "!="
  | .lt => "<"
  | .le => "<="
  | .gt => ">"
  | .ge => ">="
  | .index => "index"
  | .mem => "in"

def FunctionId.text (id : FunctionId) : String := "fn#" ++ Decimal.natText id.index.toNat

def MachineTypeId.text (id : MachineTypeId) : String := "machine#" ++ Decimal.natText id.index.toNat

def MachineId.text (id : MachineId) : String := "machine#" ++ Decimal.natText id.index.toNat

def EventId.text (id : EventId) : String := "event#" ++ Decimal.natText id.index.toNat

/-- Word after an argument that is not copied. -/
def Qualifier.suffixText : Qualifier → String
  | .none => ""
  | .move => " move"
  | .swap => " swap"

def choiceText (number : Nat) : String := "choice#" ++ Decimal.natText number

/-- A tuple of one item keeps its comma, so that it is no parenthesis. -/
def tupleText : List String → String
  | [item] => "(" ++ item ++ ",)"
  | items => "(" ++ commaSeparated items ++ ")"

mutual

def Place.text : Place → String
  | .slot index => "%" ++ Decimal.natText index
  | .field index => "self." ++ Decimal.natText index
  | .trigger => "trigger"
  | .payload => "payload"
  | .part base index => base.text ++ "." ++ Decimal.natText index
  | .element base key _ => base.text ++ "[" ++ key.text ++ "]"

def Operand.text : Operand → String
  | .const constant => constant.text
  | .this => "this"
  | .load place => place.text
  | .clone inner => "clone(" ++ inner.text ++ ")"
  | .unary op arg => op.text ++ arg.text
  | .binary op lhs rhs => "(" ++ lhs.text ++ " " ++ op.text ++ " " ++ rhs.text ++ ")"
  | .lookup base key _ => base.text ++ "[" ++ key.text ++ "]"
  | .part base index => base.text ++ "." ++ Decimal.natText index
  | .tuple items => tupleText (operandTexts items)
  | .named fields => "(" ++ commaSeparated (namedOperandTexts fields) ++ ")"
  | .default ty => "default(" ++ ty.text ++ ")"
  | .cast value ty => "(" ++ value.text ++ " as " ++ ty.text ++ ")"
  | .call callee args => "call " ++ callee.text ++ "(" ++ commaSeparated (argumentTexts args) ++ ")"
  | .choice number => choiceText number

def operandTexts : List Operand → List String
  | [] => []
  | operand :: rest => operand.text :: operandTexts rest

def namedOperandTexts : List (String × Operand) → List String
  | [] => []
  | (name, operand) :: rest => (name ++ " = " ++ operand.text) :: namedOperandTexts rest

def argumentTexts : List Argument → List String
  | [] => []
  | .mk value qualifier :: rest => (value.text ++ qualifier.suffixText) :: argumentTexts rest

end

def ContainerKind.text : ContainerKind → String
  | .seq => "seq"
  | .map => "map"

def CaseEvent.text : CaseEvent → String
  | .event id => id.text
  | .null => "null"
  | .halt => "halt"

def ReceiveArm.text (arm : ReceiveArm) : String :=
  arm.event.text ++ " => " ++ arm.handler.text ++ " at " ++ arm.entry.text

def Selector.text : Selector → String
  | .part index => "." ++ Decimal.natText index
  | .element key _ => "[" ++ key.text ++ "]"

def YieldRequest.text (request : YieldRequest) : String :=
  let resuming := match request.resume? with
    | some resume => " resume " ++ resume.text
    | none => ""
  match request with
  | .new machine payload _ => "yield new " ++ machine.text ++ "(" ++ payload.text ++ ")" ++ resuming
  | .retValue value => "yield return-value " ++ value.text
  | other => "yield " ++ other.name ++ resuming

def Instr.text : Instr → String
  | .label landing => landing.text
  | .mark position => position.text
  | .jump target => "jump " ++ target.text
  | .jumpUnless cond target => "jump " ++ target.text ++ " unless " ++ cond.text
  | .assign dest value => dest.text ++ " = " ++ value.text
  | .swap dest source => "swap " ++ dest.text ++ ", " ++ source.text
  | .update container selector value => container.text ++ selector.text ++ " = " ++ value.text
  | .exchange container selector source =>
      source.text ++ " = " ++ container.text ++ selector.text ++ ".update_and_return_old(" ++ source.text ++ ")"
  | .remove container kind key => container.text ++ ".remove(" ++ key.text ++ ") ; " ++ kind.text
  | .insert container kind entry => container.text ++ ".insert(" ++ entry.text ++ ") ; " ++ kind.text
  | .assert cond message => "assert " ++ cond.text ++ ", " ++ Quoted.text message
  | .print format args =>
      "print " ++ Quoted.text format ++ String.join ((operandTexts args).map (", " ++ ·))
  | .announce event payload => "announce " ++ event.text ++ ", " ++ payload.text
  | .enqueue target event payload =>
      "enqueue " ++ target.text ++ " <- " ++ event.text ++ ", " ++ payload.text
  | .setGotoTarget state => "goto_target = state#" ++ Decimal.natText state.index.toNat
  | .registerReceive event => "wait_for " ++ event.text
  | .dispatchReceive arms => "dispatch trigger \x7b " ++ commaSeparated (arms.map ReceiveArm.text) ++ " \x7d"
  | .pushFrame callee args =>
      "push_frame " ++ callee.text ++ "(" ++ commaSeparated (argumentTexts args) ++ ")"
  | .invoke callee => "invoke " ++ callee.text
  | .propagateSuspension callee resume => "propagate_suspension " ++ callee.text ++ " resume " ++ resume.text
  | .collectReturn dest => dest.text ++ " = return_value"
  | .writeBack dest slot => dest.text ++ " = returned_locals[" ++ Decimal.natText slot ++ "]"
  | .readCreated dest => dest.text ++ " = created_instance"
  | .recordChoice number => choiceText number ++ " = nondet_choice"
  | .yield request => request.text
  | .exit => "exit"

/-- Text padded with blanks on the right to a least width. -/
def padded (width : Nat) (text : String) : String :=
  text ++ String.ofList (List.replicate (width - text.length) ' ')

/-- Line of the instruction at a position. Labels and marks stand at the left margin. -/
def Instr.line (instr : Instr) (position : Nat) : String :=
  match instr with
  | .label _ | .mark _ => instr.text ++ ":\n"
  | _ => "  @" ++ padded 3 (Decimal.natText position) ++ " " ++ instr.text ++ "\n"

def FrameShape.text (shape : FrameShape) : String :=
  commaSeparated (shape.slots.zipIdx.map fun (slot, index) =>
    "%" ++ Decimal.natText index ++ "=" ++ slot.name)

def Routine.text (routine : Routine) : String :=
  let owner := match routine.owner with
    | some owner => " " ++ owner.text
    | none => ""
  let frame := if routine.shape.slots.isEmpty then "" else "  ; frame: " ++ routine.shape.text ++ "\n"
  let entries := match routine.dispatch with
    | some positions =>
        "  switch label \x7b " ++ commaSeparated (positions.zipIdx.map fun (position, index) =>
          "L" ++ Decimal.natText (index + 1) ++ " => @" ++ Decimal.natText position) ++ " \x7d\n"
    | none => ""
  "fn " ++ routine.name ++ owner ++ " [slots " ++ Decimal.natText routine.shape.slotCount ++ ", labels "
    ++ Decimal.natText routine.labelCount ++ "] \x7b\n" ++ frame ++ entries
    ++ String.join (routine.body.zipIdx.map fun (instr, position) => instr.line position) ++ "\x7d\n"

def MachineDecl.text (machine : MachineDecl) : String :=
  "; machine " ++ machine.name ++ "\n"
    ++ String.join (machine.fields.map fun field => ";   field " ++ field.name ++ ": " ++ field.ty.text ++ "\n")

def Image.text (image : Image) : String :=
  "; program " ++ image.file ++ "\n\n"
    ++ String.join (image.machines.map fun machine => machine.text ++ "\n")
    ++ String.join (image.routines.map fun routine => routine.text ++ "\n")

end Reentry
