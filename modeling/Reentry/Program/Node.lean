import Reentry.Program.Name
import Reentry.Program.Ty

/-!
The body of a function: a tree of statements and expressions in which every reference is already
resolved to a slot, a field or an identifier.
-/

namespace Reentry

/-- Source position, counted from line 1 and column 1. -/
structure Span where
  line : UInt32
  column : UInt32
deriving DecidableEq, Repr, Inhabited

/-- How a value is handed over. -/
inductive Qualifier where
  /-- The receiver gets a deep copy. -/
  | none
  /-- The receiver gets the value itself. -/
  | move
  /-- Sender and receiver exchange contents. -/
  | swap
deriving DecidableEq, Repr, Inhabited

inductive VarRef where
  /-- Slot of the current frame. -/
  | slot (index : UInt32)
  /-- Field of the running actor. -/
  | field (index : UInt32)
  | event (id : EventId)
  /-- Constant of an enumeration, by its number. -/
  | enumConst (value : Int64)
deriving DecidableEq, Repr

inductive Literal where
  | int (value : Int64)
  | bool (value : Bool)
  | null
  | halt
  /-- The running actor. -/
  | this
deriving DecidableEq, Repr

inductive UnaryOp where
  | not
  | neg
  | keys
  | values
  | sizeof
deriving DecidableEq, Repr

inductive BinaryOp where
  | add
  | sub
  | mul
  | div
  | and
  | or
  | eq
  | ne
  | lt
  | le
  | gt
  | ge
  /-- Element of a container: `a[b]`. -/
  | index
  /-- Key membership in a map. -/
  | mem
deriving DecidableEq, Repr

/-- Tuple field as written: by position, or by a name that the type of the tuple resolves. -/
inductive FieldSel where
  | index (position : UInt32)
  | name (name : String)
deriving DecidableEq, Repr

/-- Event accepted by one case of a receive. -/
inductive CaseEvent where
  | event (id : EventId)
  | null
  | halt
deriving DecidableEq, Repr

structure ReceiveCase where
  event : CaseEvent
  handler : FunctionId
deriving DecidableEq, Repr

mutual

inductive Node where
  | mk (id : NodeId) (span : Span) (kind : NodeKind)

/-- Expressions come first, then the two list cells, then statements. Argument lists are chains of
`exprs` or `namedExprs` cells. -/
inductive NodeKind where
  | name (ref : VarRef)
  | lit (literal : Literal)
  /-- A boolean chosen by the environment. -/
  | nondet (fair : Bool)
  | unary (op : UnaryOp) (arg : Node)
  | binary (op : BinaryOp) (lhs rhs : Node)
  | field (base : Node) (sel : FieldSel)
  | tuple (list : Node)
  | namedTuple (list : Node)
  | default (ty : Ty)
  | cast (expr : Node) (ty : Ty)
  /-- A call inside an expression; the callee runs to its end. -/
  | app (callee : FunctionId) (args : Option Node)
  | exprs (qualifier : Qualifier) (head : Node) (tail : Option Node)
  | namedExprs (name : String) (head : Node) (tail : Option Node)
  /-- Creates an instance of a machine type. -/
  | new (machine : MachineTypeId) (args out : Option Node)
  | call (callee : FunctionId) (args out : Option Node)
  | goto (state : StateId) (args : Option Node)
  | raise (event : Node) (args : Option Node)
  | send (target event : Node) (args : Option Node)
  | announce (event : Node) (args : Option Node)
  | receive (cases : List ReceiveCase)
  | assert (cond : Node) (message : Option String)
  | print (format : String) (args : Option Node)
  | assign (lhs rhs : Node) (qualifier : Qualifier)
  | remove (target key : Node)
  | insert (target entry : Node)
  | pop
  | ret (value : Option Node)
  | loop (cond body : Node)
  | branch (cond onTrue : Node) (onFalse : Option Node)
  | seq (first rest : Node)
  | block (statements : List Node)

end

namespace Node

def id : Node → NodeId
  | .mk id _ _ => id

def span : Node → Span
  | .mk _ span _ => span

def kind : Node → NodeKind
  | .mk _ _ kind => kind

end Node

namespace NodeKind

def isNew : NodeKind → Bool
  | .new .. => true
  | _ => false

/-- Name of the form in diagnostics. -/
def formName : NodeKind → String
  | .name .. => "name"
  | .lit .. => "literal"
  | .nondet .. => "nondet"
  | .unary .. => "unary"
  | .binary .. => "binary"
  | .field .. => "field"
  | .tuple .. => "tuple"
  | .namedTuple .. => "named tuple"
  | .default .. => "default"
  | .cast .. => "cast"
  | .app .. => "application"
  | .exprs .. => "exprs"
  | .namedExprs .. => "named exprs"
  | .new .. => "new"
  | .call .. => "call"
  | .goto .. => "goto"
  | .raise .. => "raise"
  | .send .. => "send"
  | .announce .. => "announce"
  | .receive .. => "receive"
  | .assert .. => "assert"
  | .print .. => "print"
  | .assign .. => "assign"
  | .remove .. => "remove"
  | .insert .. => "insert"
  | .pop => "pop"
  | .ret .. => "return"
  | .loop .. => "while"
  | .branch .. => "if"
  | .seq .. => "seq"
  | .block .. => "block"

end NodeKind

end Reentry
