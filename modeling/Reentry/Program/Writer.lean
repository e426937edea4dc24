import Reentry.Json.Printer
import Reentry.Program.Basic

/-!
Writing programs as JSON. Every field is written, also where the reader could do without it.
-/

namespace Reentry

def Json.ofUInt32 (word : UInt32) : Json := .int word.toNat

def FunctionId.toJson (id : FunctionId) : Json := .ofUInt32 id.index
def MachineTypeId.toJson (id : MachineTypeId) : Json := .ofUInt32 id.index
def EventId.toJson (id : EventId) : Json := .ofUInt32 id.index
def StateId.toJson (id : StateId) : Json := .ofUInt32 id.index
def NodeId.toJson (id : NodeId) : Json := .ofUInt32 id.index

/-- A variant with contents. -/
def Json.tagged (name : String) (contents : Json) : Json := .obj [(name, contents)]

def Json.ofOption {α : Type} (write : α → Json) : Option α → Json
  | some value => write value
  | none => .null

namespace Ty

mutual

def toJson : Ty → Json
  | .null => .str "Null"
  | .bool => .str "Bool"
  | .int => .str "Int"
  | .event => .str "Event"
  | .machine => .str "Machine"
  | .any => .str "Any"
  | .tuple items => .tagged "Tuple" (.arr (itemsToJson items))
  | .named fields => .tagged "NamedTuple" (.arr (fieldsToJson fields))
  | .seq element => .tagged "Seq" element.toJson
  | .map key value => .tagged "Map" (.arr [key.toJson, value.toJson])

def itemsToJson : List Ty → List Json
  | [] => []
  | item :: rest => item.toJson :: itemsToJson rest

def fieldsToJson : List (String × Ty) → List Json
  | [] => []
  | (name, ty) :: rest => .arr [.str name, ty.toJson] :: fieldsToJson rest

end

end Ty

def Span.toJson (span : Span) : Json :=
  .obj [("line", .ofUInt32 span.line), ("column", .ofUInt32 span.column)]

def Qualifier.toJson : Qualifier → Json
  | .none => .str "none"
  | .move => .str "move"
  | .swap => .str "swap"

def VarRef.toJson : VarRef → Json
  | .slot index => .tagged "Local" (.ofUInt32 index)
  | .field index => .tagged "Field" (.ofUInt32 index)
  | .event id => .tagged "Event" id.toJson
  | .enumConst value => .tagged "EnumConst" (.int value.toInt)

def Literal.toJson : Literal → Json
  | .int value => .tagged "Int" (.int value.toInt)
  | .bool value => .tagged "Bool" (.bool value)
  | .null => .str "Null"
  | .halt => .str "Halt"
  | .this => .str "This"

def UnaryOp.toJson : UnaryOp → Json
  | .not => .str "Not"
  | .neg => .str "Neg"
  | .keys => .str "Keys"
  | .values => .str "Values"
  | .sizeof => .str "Sizeof"

def BinaryOp.toJson : BinaryOp → Json
  | .add => .str "Add"
  | .sub => .str "Sub"
  | .mul => .str "Mul"
  | .div => .str "IntDiv"
  | .and => .str "And"
  | .or => .str "Or"
  | .eq => .str "Eq"
  | .ne => .str "Ne"
  | .lt => .str "Lt"
  | .le => .str "Le"
  | .gt => .str "Gt"
  | .ge => .str "Ge"
  | .index => .str "Index"
  | .mem => .str "In"

def FieldSel.toJson : FieldSel → Json
  | .index position => .tagged "Index" (.ofUInt32 position)
  | .name fieldName => .tagged "Name" (.str fieldName)

def CaseEvent.toJson : CaseEvent → Json
  | .event id => .tagged "Event" id.toJson
  | .null => .str "Null"
  | .halt => .str "Halt"

def ReceiveCase.toJson (case : ReceiveCase) : Json :=
  .obj [("event", case.event.toJson), ("handler", case.handler.toJson)]

mutual

def Node.toJson : Node → Json
  | .mk id span kind => .obj [("id", id.toJson), ("span", span.toJson), ("kind", kind.toJson)]

def NodeKind.toJson : NodeKind → Json
  | .name ref => .tagged "Name" ref.toJson
  | .lit literal => .tagged "Lit" literal.toJson
  | .nondet fair => .tagged "Nondet" (.obj [("fair", .bool fair)])
  | .unary op arg => .tagged "Unary" (.obj [("op", op.toJson), ("arg", arg.toJson)])
  | .binary op lhs rhs =>
      .tagged "Binary" (.obj [("op", op.toJson), ("lhs", lhs.toJson), ("rhs", rhs.toJson)])
  | .field base sel => .tagged "Field" (.obj [("base", base.toJson), ("field", sel.toJson)])
  | .tuple list => .tagged "Tuple" list.toJson
  | .namedTuple list => .tagged "NamedTuple" list.toJson
  | .default ty => .tagged "Default" ty.toJson
  | .cast expr ty => .tagged "Cast" (.obj [("expr", expr.toJson), ("ty", ty.toJson)])
  | .app callee args => .tagged "App" (.obj [("callee", callee.toJson), ("args", optionalNodeToJson args)])
  | .exprs qualifier head tail =>
      .tagged "Exprs" (.obj [("qualifier", qualifier.toJson), ("head", head.toJson),
        ("tail", optionalNodeToJson tail)])
  | .namedExprs name head tail =>
      .tagged "NamedExprs" (.obj [("name", .str name), ("head", head.toJson),
        ("tail", optionalNodeToJson tail)])
  | .new machine args out =>
      .tagged "New" (.obj [("machine", machine.toJson), ("args", optionalNodeToJson args),
        ("out", optionalNodeToJson out)])
  | .call callee args out =>
      .tagged "Call" (.obj [("callee", callee.toJson), ("args", optionalNodeToJson args),
        ("out", optionalNodeToJson out)])
  | .goto state args => .tagged "Goto" (.obj [("state", state.toJson), ("args", optionalNodeToJson args)])
  | .raise event args => .tagged "Raise" (.obj [("event", event.toJson), ("args", optionalNodeToJson args)])
  | .send target event args =>
      .tagged "Send" (.obj [("target", target.toJson), ("event", event.toJson),
        ("args", optionalNodeToJson args)])
  | .announce event args =>
      .tagged "Announce" (.obj [("event", event.toJson), ("args", optionalNodeToJson args)])
  | .receive cases => .tagged "Receive" (.arr (cases.map ReceiveCase.toJson))
  | .assert cond message =>
      .tagged "Assert" (.obj [("cond", cond.toJson), ("message", .ofOption .str message)])
  | .print format args => .tagged "Print" (.obj [("format", .str format), ("args", optionalNodeToJson args)])
  | .assign lhs rhs qualifier =>
      .tagged "Assign" (.obj [("lhs", lhs.toJson), ("rhs", rhs.toJson), ("qualifier", qualifier.toJson)])
  | .remove target key => .tagged "Remove" (.obj [("target", target.toJson), ("key", key.toJson)])
  | .insert target entry => .tagged "Insert" (.obj [("target", target.toJson), ("entry", entry.toJson)])
  | .pop => .str "Pop"
  | .ret value => .tagged "Return" (optionalNodeToJson value)
  | .loop cond body => .tagged "While" (.obj [("cond", cond.toJson), ("body", body.toJson)])
  | .branch cond onTrue onFalse =>
      .tagged "If" (.obj [("cond", cond.toJson), ("then_branch", onTrue.toJson),
        ("else_branch", optionalNodeToJson onFalse)])
  | .seq first rest => .tagged "Seq" (.obj [("first", first.toJson), ("rest", rest.toJson)])
  | .block statements => .tagged "Block" (.arr (nodesToJson statements))

def optionalNodeToJson : Option Node → Json
  | none => .null
  | some node => node.toJson

def nodesToJson : List Node → List Json
  | [] => []
  | node :: rest => node.toJson :: nodesToJson rest

end

def VarDecl.toJson (decl : VarDecl) : Json :=
  .obj [("name", .str decl.name), ("slot", .ofUInt32 decl.slot), ("ty", decl.ty.toJson)]

def TypeTable.toJson (table : TypeTable) : Json :=
  .obj (table.entries.map fun (node, ty) => ((Decimal.natText node.index.toNat : Json.Key), ty.toJson))

def FunctionInfo.toJson (info : FunctionInfo) : Json :=
  .obj [("name", .str info.name), ("params", .arr (info.params.map VarDecl.toJson)),
    ("locals", .arr (info.locals.map VarDecl.toJson)), ("return_type", .ofOption Ty.toJson info.returnType),
    ("max_num_locals", .ofUInt32 info.slotCount), ("owner", .ofOption MachineTypeId.toJson info.owner),
    ("types", info.types.toJson), ("body", info.body.toJson)]

def MachineDecl.toJson (decl : MachineDecl) : Json :=
  .obj [("name", .str decl.name), ("fields", .arr (decl.fields.map VarDecl.toJson)),
    ("states", .arr (decl.states.map .str))]

def EventDecl.toJson (decl : EventDecl) : Json := .obj [("name", .str decl.name)]

namespace Program

def toJson (program : Program) : Json :=
  .obj [("file", .str program.file), ("functions", .arr (program.functions.map FunctionInfo.toJson)),
    ("machines", .arr (program.machines.map MachineDecl.toJson)),
    ("events", .arr (program.events.map EventDecl.toJson))]

def text (program : Program) : String := program.toJson.text

end Program

end Reentry
