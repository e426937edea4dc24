import Reentry.Program.Basic

/-!
The grammar of function bodies. The type of trees lets any form stand anywhere; here it is said which form has a
meaning where: what is read for its value, what names a place, what is a list of arguments and what is a statement.
A form may depend on what is known around it: which functions the program has, and how the function annotates a node.
-/

namespace Reentry

namespace FunctionInfo

/-- The node is annotated as a seq or a map. -/
def Indexes (info : FunctionInfo) (node : NodeId) : Prop :=
  ∃ ty, info.typeOf? node = some ty ∧ (ty.isSeq ∨ ty.isMap)

/-- A position can be selected from any node, a name only from one that is annotated with a named tuple that has it. -/
def Selects (info : FunctionInfo) (base : NodeId) : FieldSel → Prop
  | .index _ => True
  | .name name => ∃ fields, info.typeOf? base = some (.named fields) ∧ name ∈ fields.map (·.1)

/-- Parameters and locals fit into the frame, each declared for the slot at which it is laid out. -/
structure LaidOut (info : FunctionInfo) : Prop where
  fits : info.params.length + info.locals.length ≤ info.slotCount.toNat
  placed : ∀ position (bound : position < (info.params ++ info.locals).length),
    (info.params ++ info.locals)[position].slot.toNat = position

end FunctionInfo

namespace Grammar

variable (program : Program) (info : FunctionInfo)

/-- The program has such a function. -/
def Known (callee : FunctionId) : Prop := (program.function? callee).isSome

mutual

/-- Expressions that are read. -/
inductive Reads : Node → Prop
  | name {id span ref} : Reads (.mk id span (.name ref))
  | literal {id span value} : Reads (.mk id span (.lit value))
  | nondet {id span fair} : Reads (.mk id span (.nondet fair))
  | default {id span ty} : Reads (.mk id span (.default ty))
  | unary {id span op arg} (operand : Reads arg) : Reads (.mk id span (.unary op arg))
  | binary {id span op left right} (computed : op ≠ .index) (first : Reads left) (second : Reads right) :
      Reads (.mk id span (.binary op left right))
  | index {id span base key} (container : Reads base) (indexes : info.Indexes base.id) (position : Reads key) :
      Reads (.mk id span (.binary .index base key))
  | field {id span base sel} (container : Reads base) (selects : info.Selects base.id sel) :
      Reads (.mk id span (.field base sel))
  | cast {id span expr ty} (operand : Reads expr) : Reads (.mk id span (.cast expr ty))
  | tuple {id span list} (items : Items (some list)) : Reads (.mk id span (.tuple list))
  | namedTuple {id span list} (fields : Fields (some list)) : Reads (.mk id span (.namedTuple list))
  | app {id span callee args} (known : Known program callee) (items : Items args) :
      Reads (.mk id span (.app callee args))

/-- Chains of list cells all of whose elements are read. -/
inductive Items : Option Node → Prop
  | nil : Items none
  | positional {id span qualifier head tail} (first : Reads head) (rest : Items tail) :
      Items (some (.mk id span (.exprs qualifier head tail)))
  | named {id span name head tail} (first : Reads head) (rest : Items tail) :
      Items (some (.mk id span (.namedExprs name head tail)))

/-- Chains of named cells only. -/
inductive Fields : Option Node → Prop
  | nil : Fields none
  | named {id span name head tail} (first : Reads head) (rest : Fields tail) :
      Fields (some (.mk id span (.namedExprs name head tail)))

end

/-- Expressions that name a place. -/
inductive Places : Node → Prop
  | slot {id span index} : Places (.mk id span (.name (.slot index)))
  | actorField {id span index} : Places (.mk id span (.name (.field index)))
  | index {id span base key} (container : Places base) (indexes : info.Indexes base.id) (position : Reads program info key) :
      Places (.mk id span (.binary .index base key))
  | field {id span base sel} (container : Places base) (selects : info.Selects base.id sel) :
      Places (.mk id span (.field base sel))

/-- Argument lists of call statements: what is swapped is a place. -/
inductive Arguments : Option Node → Prop
  | nil : Arguments none
  | swapped {id span head tail} (first : Places program info head) (rest : Arguments tail) :
      Arguments (some (.mk id span (.exprs .swap head tail)))
  | positional {id span qualifier head tail} (handed : qualifier ≠ .swap) (first : Reads program info head)
      (rest : Arguments tail) : Arguments (some (.mk id span (.exprs qualifier head tail)))
  | named {id span name head tail} (first : Reads program info head) (rest : Arguments tail) :
      Arguments (some (.mk id span (.namedExprs name head tail)))

inductive Statement : Node → Prop
  | new {id span machine args out} (items : Items program info args) (dest : ∀ node ∈ out, Places program info node) :
      Statement (.mk id span (.new machine args out))
  | call {id span callee args out} (known : Known program callee) (items : Arguments program info args)
      (dest : ∀ node ∈ out, Places program info node) : Statement (.mk id span (.call callee args out))
  | goto {id span state args} (items : Items program info args) : Statement (.mk id span (.goto state args))
  | raise {id span event args} (alarm : Reads program info event) (items : Items program info args) :
      Statement (.mk id span (.raise event args))
  | send {id span target event args} (receiver : Reads program info target) (letter : Reads program info event)
      (items : Items program info args) : Statement (.mk id span (.send target event args))
  | announce {id span event args} (letter : Reads program info event) (items : Items program info args) :
      Statement (.mk id span (.announce event args))
  | receive {id span cases} (handled : ∀ case ∈ cases, Known program case.handler) :
      Statement (.mk id span (.receive cases))
  | assert {id span cond message} (test : Reads program info cond) : Statement (.mk id span (.assert cond message))
  | print {id span format args} (items : Items program info args) : Statement (.mk id span (.print format args))
  | assign {id span left right qualifier} (handed : qualifier ≠ .swap) (dest : Places program info left)
      (source : Reads program info right) : Statement (.mk id span (.assign left right qualifier))
  | exchange {id span left right} (dest : Places program info left) (source : Places program info right) :
      Statement (.mk id span (.assign left right .swap))
  | remove {id span target key} (container : Places program info target) (indexes : info.Indexes target.id)
      (position : Reads program info key) : Statement (.mk id span (.remove target key))
  | insert {id span target entry} (container : Places program info target) (indexes : info.Indexes target.id)
      (value : Reads program info entry) : Statement (.mk id span (.insert target entry))
  | pop {id span} : Statement (.mk id span .pop)
  | ret {id span value} (result : ∀ node ∈ value, Reads program info node) : Statement (.mk id span (.ret value))
  | loop {id span cond body} (test : Reads program info cond) (inner : Statement body) :
      Statement (.mk id span (.loop cond body))
  | branch {id span cond onTrue onFalse} (test : Reads program info cond) (whenTrue : Statement onTrue)
      (whenFalse : ∀ node ∈ onFalse, Statement node) : Statement (.mk id span (.branch cond onTrue onFalse))
  | seq {id span first rest} (before : Statement first) (after : Statement rest) :
      Statement (.mk id span (.seq first rest))
  | block {id span statements} (each : ∀ node ∈ statements, Statement node) :
      Statement (.mk id span (.block statements))

end Grammar

end Reentry
