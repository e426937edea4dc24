import Reentry.Json.Parser
import Reentry.Json.Record
import Reentry.Program.Basic

/-!
Reading programs from JSON. Types and nodes are trees of any depth; their readers take the number of
levels they may descend and refuse what is deeper, and the depth of the JSON value always suffices.
-/

namespace Reentry

open Json

def FunctionId.read? (json : Json) : Option FunctionId := (readUInt32? json).map .mk
def MachineTypeId.read? (json : Json) : Option MachineTypeId := (readUInt32? json).map .mk
def EventId.read? (json : Json) : Option EventId := (readUInt32? json).map .mk
def StateId.read? (json : Json) : Option StateId := (readUInt32? json).map .mk
def NodeId.read? (json : Json) : Option NodeId := (readUInt32? json).map .mk

/-- A name and what it stands for, written as an array of two. -/
def readBinding? {α : Type} (read : Json → Option α) : Json → Option (String × α)
  | .arr [name, item] => do some (← readString? name, ← read item)
  | _ => none

namespace Ty

def readWithin? : Nat → Json → Option Ty
  | 0, _ => none
  | levels + 1, json => do
      match ← variant? json with
      | ("Null", contents) => if isBare contents then some .null else none
      | ("Bool", contents) => if isBare contents then some .bool else none
      | ("Int", contents) => if isBare contents then some .int else none
      | ("Event", contents) => if isBare contents then some .event else none
      | ("Machine", contents) => if isBare contents then some .machine else none
      | ("Any", contents) => if isBare contents then some .any else none
      | ("Tuple", some items) => .tuple <$> readList? (readWithin? levels) items
      | ("NamedTuple", some fields) => .named <$> readList? (readBinding? (readWithin? levels)) fields
      | ("Seq", some element) => .seq <$> readWithin? levels element
      | ("Map", some (.arr [key, value])) =>
          some (.map (← readWithin? levels key) (← readWithin? levels value))
      | _ => none

def read? (json : Json) : Option Ty := readWithin? (json.depth + 1) json

end Ty

def Span.read? (json : Json) : Option Span := do
  match ← json.record? [required "line", required "column"] with
  | [some line, some column] => some ⟨← readUInt32? line, ← readUInt32? column⟩
  | _ => none

def readQualifier? (json : Json) : Option Qualifier := do
  match ← variant? json with
  | ("none", contents) => if isBare contents then some .none else none
  | ("move", contents) => if isBare contents then some .move else none
  | ("swap", contents) => if isBare contents then some .swap else none
  | _ => none

def VarRef.read? (json : Json) : Option VarRef := do
  match ← variant? json with
  | ("Local", some index) => .slot <$> readUInt32? index
  | ("Field", some index) => .field <$> readUInt32? index
  | ("Event", some id) => .event <$> EventId.read? id
  | ("EnumConst", some value) => .enumConst <$> readInt64? value
  | _ => none

def Literal.read? (json : Json) : Option Literal := do
  match ← variant? json with
  | ("Int", some value) => .int <$> readInt64? value
  | ("Bool", some value) => .bool <$> readBool? value
  | ("Null", contents) => if isBare contents then some .null else none
  | ("Halt", contents) => if isBare contents then some .halt else none
  | ("This", contents) => if isBare contents then some .this else none
  | _ => none

def UnaryOp.ofName? : String → Option UnaryOp
  | "Not" => some .not
  | "Neg" => some .neg
  | "Keys" => some .keys
  | "Values" => some .values
  | "Sizeof" => some .sizeof
  | _ => none

def UnaryOp.read? (json : Json) : Option UnaryOp := do
  let (name, contents) ← variant? json
  if isBare contents then UnaryOp.ofName? name else none

def BinaryOp.ofName? : String → Option BinaryOp
  | "Add" => some .add
  | "Sub" => some .sub
  | "Mul" => some .mul
  | "IntDiv" => some .div
  | "And" => some .and
  | "Or" => some .or
  | "Eq" => some .eq
  | "Ne" => some .ne
  | "Lt" => some .lt
  | "Le" => some .le
  | "Gt" => some .gt
  | "Ge" => some .ge
  | "Index" => some .index
  | "In" => some .mem
  | _ => none

def BinaryOp.read? (json : Json) : Option BinaryOp := do
  let (name, contents) ← variant? json
  if isBare contents then BinaryOp.ofName? name else none

def FieldSel.read? (json : Json) : Option FieldSel := do
  match ← variant? json with
  | ("Index", some position) => .index <$> readUInt32? position
  | ("Name", some fieldName) => .name <$> readString? fieldName
  | _ => none

def CaseEvent.read? (json : Json) : Option CaseEvent := do
  match ← variant? json with
  | ("Event", some id) => .event <$> EventId.read? id
  | ("Null", contents) => if isBare contents then some .null else none
  | ("Halt", contents) => if isBare contents then some .halt else none
  | _ => none

def ReceiveCase.read? (json : Json) : Option ReceiveCase := do
  match ← json.record? [required "event", required "handler"] with
  | [some event, some handler] => some ⟨← CaseEvent.read? event, ← FunctionId.read? handler⟩
  | _ => none

namespace NodeKind

/-- Reads one level of a node; `node` reads the parts. -/
def readUsing? (node : Json → Option Node) (json : Json) : Option NodeKind := do
  match ← variant? json with
  | ("Name", some ref) => .name <$> VarRef.read? ref
  | ("Lit", some literal) => .lit <$> Literal.read? literal
  | ("Nondet", some parts) =>
      match ← parts.record? [required "fair"] with
      | [some fair] => .nondet <$> readBool? fair
      | _ => none
  | ("Unary", some parts) =>
      match ← parts.record? [required "op", required "arg"] with
      | [some op, some arg] => some (.unary (← UnaryOp.read? op) (← node arg))
      | _ => none
  | ("Binary", some parts) =>
      match ← parts.record? [required "op", required "lhs", required "rhs"] with
      | [some op, some lhs, some rhs] =>
          some (.binary (← BinaryOp.read? op) (← node lhs) (← node rhs))
      | _ => none
  | ("Field", some parts) =>
      match ← parts.record? [required "base", required "field"] with
      | [some base, some sel] => some (.field (← node base) (← FieldSel.read? sel))
      | _ => none
  | ("Tuple", some list) => .tuple <$> node list
  | ("NamedTuple", some list) => .namedTuple <$> node list
  | ("Default", some ty) => .default <$> Ty.read? ty
  | ("Cast", some parts) =>
      match ← parts.record? [required "expr", required "ty"] with
      | [some expr, some ty] => some (.cast (← node expr) (← Ty.read? ty))
      | _ => none
  | ("App", some parts) =>
      match ← parts.record? [required "callee", optional "args"] with
      | [some callee, args] => some (.app (← FunctionId.read? callee) (← readOptional? node args))
      | _ => none
  | ("Exprs", some parts) =>
      match ← parts.record? [required "qualifier", required "head", optional "tail"] with
      | [some qualifier, some head, tail] =>
          some (.exprs (← readQualifier? qualifier) (← node head) (← readOptional? node tail))
      | _ => none
  | ("NamedExprs", some parts) =>
      match ← parts.record? [required "name", required "head", optional "tail"] with
      | [some fieldName, some head, tail] =>
          some (.namedExprs (← readString? fieldName) (← node head) (← readOptional? node tail))
      | _ => none
  | ("New", some parts) =>
      match ← parts.record? [required "machine", optional "args", optional "out"] with
      | [some machine, args, out] =>
          some (.new (← MachineTypeId.read? machine) (← readOptional? node args) (← readOptional? node out))
      | _ => none
  | ("Call", some parts) =>
      match ← parts.record? [required "callee", optional "args", optional "out"] with
      | [some callee, args, out] =>
          some (.call (← FunctionId.read? callee) (← readOptional? node args) (← readOptional? node out))
      | _ => none
  | ("Goto", some parts) =>
      match ← parts.record? [required "state", optional "args"] with
      | [some state, args] => some (.goto (← StateId.read? state) (← readOptional? node args))
      | _ => none
  | ("Raise", some parts) =>
      match ← parts.record? [required "event", optional "args"] with
      | [some event, args] => some (.raise (← node event) (← readOptional? node args))
      | _ => none
  | ("Send", some parts) =>
      match ← parts.record? [required "target", required "event", optional "args"] with
      | [some target, some event, args] =>
          some (.send (← node target) (← node event) (← readOptional? node args))
      | _ => none
  | ("Announce", some parts) =>
      match ← parts.record? [required "event", optional "args"] with
      | [some event, args] => some (.announce (← node event) (← readOptional? node args))
      | _ => none
  | ("Receive", some cases) => .receive <$> readList? ReceiveCase.read? cases
  | ("Assert", some parts) =>
      match ← parts.record? [required "cond", optional "message"] with
      | [some cond, message] => some (.assert (← node cond) (← readOptional? readString? message))
      | _ => none
  | ("Print", some parts) =>
      match ← parts.record? [required "format", optional "args"] with
      | [some format, args] => some (.print (← readString? format) (← readOptional? node args))
      | _ => none
  | ("Assign", some parts) =>
      match ← parts.record? [required "lhs", required "rhs", required "qualifier"] with
      | [some lhs, some rhs, some qualifier] =>
          some (.assign (← node lhs) (← node rhs) (← readQualifier? qualifier))
      | _ => none
  | ("Remove", some parts) =>
      match ← parts.record? [required "target", required "key"] with
      | [some target, some key] => some (.remove (← node target) (← node key))
      | _ => none
  | ("Insert", some parts) =>
      match ← parts.record? [required "target", required "entry"] with
      | [some target, some entry] => some (.insert (← node target) (← node entry))
      | _ => none
  | ("Pop", contents) => if isBare contents then some .pop else none
  | ("Return", some value) => .ret <$> readOptional? node (some value)
  | ("While", some parts) =>
      match ← parts.record? [required "cond", required "body"] with
      | [some cond, some body] => some (.loop (← node cond) (← node body))
      | _ => none
  | ("If", some parts) =>
      match ← parts.record? [required "cond", required "then_branch", optional "else_branch"] with
      | [some cond, some onTrue, onFalse] =>
          some (.branch (← node cond) (← node onTrue) (← readOptional? node onFalse))
      | _ => none
  | ("Seq", some parts) =>
      match ← parts.record? [required "first", required "rest"] with
      | [some first, some rest] => some (.seq (← node first) (← node rest))
      | _ => none
  | ("Block", some statements) => .block <$> readList? node statements
  | _ => none

end NodeKind

namespace Node

def readWithin? : Nat → Json → Option Node
  | 0, _ => none
  | levels + 1, json => do
      match ← json.record? [required "id", defaulted "span", required "kind"] with
      | [some id, span, some kind] =>
          some (.mk (← NodeId.read? id) (← readDefault? ⟨0, 0⟩ Span.read? span)
            (← NodeKind.readUsing? (readWithin? levels) kind))
      | _ => none

def read? (json : Json) : Option Node := readWithin? (json.depth + 1) json

end Node

def VarDecl.read? (json : Json) : Option VarDecl := do
  match ← json.record? [required "name", required "slot", required "ty"] with
  | [some name, some slot, some ty] =>
      some ⟨← readString? name, ← readUInt32? slot, ← Ty.read? ty⟩
  | _ => none

/-- The keys of a type table are numerals; of several equal ones the last counts. -/
def TypeTable.read? : Json → Option TypeTable
  | .obj members => do
      let entries ← members.mapM fun (key, ty) => do
        some ((⟨← keyNumber? key⟩ : NodeId), ← Ty.read? ty)
      some (TypeTable.ofList entries)
  | _ => none

def FunctionInfo.read? (json : Json) : Option FunctionInfo := do
  match ← json.record? [required "name", required "params", defaulted "locals", defaulted "return_type",
      required "max_num_locals", defaulted "owner", defaulted "types", required "body"] with
  | [some name, some params, locals, returnType, some slotCount, owner, types, some body] =>
      some {
        name := ← readString? name
        params := ← readList? VarDecl.read? params
        locals := ← readDefault? [] (readList? VarDecl.read?) locals
        returnType := ← readOptional? Ty.read? returnType
        slotCount := ← readUInt32? slotCount
        owner := ← readOptional? MachineTypeId.read? owner
        types := ← readDefault? TypeTable.empty TypeTable.read? types
        body := ← Node.read? body }
  | _ => none

def MachineDecl.read? (json : Json) : Option MachineDecl := do
  match ← json.record? [required "name", defaulted "fields", defaulted "states"] with
  | [some name, fields, states] =>
      some {
        name := ← readString? name
        fields := ← readDefault? [] (readList? VarDecl.read?) fields
        states := ← readDefault? [] (readList? readString?) states }
  | _ => none

def EventDecl.read? (json : Json) : Option EventDecl := do
  match ← json.record? [required "name"] with
  | [some name] => some ⟨← readString? name⟩
  | _ => none

namespace Program

def read? (json : Json) : Option Program := do
  match ← json.record? [defaulted "file", required "functions", defaulted "machines", defaulted "events"] with
  | [file, some functions, machines, events] =>
      some {
        file := ← readDefault? "" readString? file
        functions := ← readList? FunctionInfo.read? functions
        machines := ← readDefault? [] (readList? MachineDecl.read?) machines
        events := ← readDefault? [] (readList? EventDecl.read?) events }
  | _ => none

/-- Containers that may be open at once where a program text is read. -/
def nestingLimit : Nat := 127

def parse? (text : String) : Option Program := do
  read? (← Json.parseWithin? nestingLimit text)

end Program

end Reentry
