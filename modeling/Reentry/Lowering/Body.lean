import Reentry.Lowering.Fragment
import Reentry.Lowering.Template

/-!
Lowering of a function body. Of every node the parts are lowered first, in the order in which they are
evaluated, and only then are they put together; so an error inside a part comes before an error about
how the parts fit.
-/

namespace Reentry

/-- An element of a lowered argument list. -/
structure ListItem where
  name : Option String
  qualifier : Qualifier
  fragment : Fragment

/-- What an assignment overwrites: part of a container, whose node types the selection, or a place. -/
inductive Destination where
  | element (base : NodeId) (container key : Fragment)
  | part (base : NodeId) (sel : FieldSel) (container : Fragment)
  | whole (dest : Fragment)

namespace ListItem

/-- The value handed over by an item. -/
def transferred (item : ListItem) : Lower Operand := do
  pure ((← Lower.expectValue item.fragment).transferred item.qualifier)

def namedField (item : ListItem) : Lower (String × Operand) := do
  match item.name with
  | some name => pure (name, ← item.transferred)
  | none => Lower.unexpected "named field" "positional field"

def argument (item : ListItem) : Lower Argument := do
  pure (.mk (← item.transferred) item.qualifier)

end ListItem

namespace Lower

/-- Arguments of a call from parameter `slot` on. A swapped place is read as a copy and, with its slot,
kept for the write-back. -/
def callArguments (slot : Nat) : List ListItem → Lower (List Argument × List (Place × Nat))
  | [] => pure ([], [])
  | item :: rest => do
      match item.qualifier with
      | .swap =>
          let place ← expectPlace item.fragment
          let (args, writeBacks) ← callArguments (slot + 1) rest
          pure (.mk (.clone (.load place)) .swap :: args, (place, slot) :: writeBacks)
      | _ =>
          let arg ← item.argument
          let (args, writeBacks) ← callArguments (slot + 1) rest
          pure (arg :: args, writeBacks)

def payload (items : List ListItem) : Lower Operand := do
  pure (Template.payload (← items.mapM ListItem.transferred))

def name (access : Access) : VarRef → Lower Fragment
  | .slot index => pure (atPlace access (.slot index.toNat))
  | .field index => pure (atPlace access (.field index.toNat))
  | .event id => readOnly access (.const (.event id))
  | .enumConst value => readOnly access (.const (.int value))
where
  atPlace (access : Access) (place : Place) : Fragment :=
    match access with
    | .read => .value (.load place)
    | .write => .place place

def literal : Literal → Operand
  | .int value => .const (.int value)
  | .bool value => .const (.bool value)
  | .null => .null
  | .halt => .const .halt
  | .this => .this

/-- `base[key]`: a copy of the element when read, its location when written. -/
def index (access : Access) (base : NodeId) (container key : Fragment) : Lower Fragment := do
  let kind ← containerKind base
  match access with
  | .read =>
      let container ← expectValue container
      let key ← expectValue key
      pure (.value (.clone (.lookup container key kind)))
  | .write =>
      let container ← expectPlace container
      let key ← expectValue key
      pure (.place (.element container key kind))

def field (access : Access) (base : NodeId) (sel : FieldSel) (container : Fragment) : Lower Fragment := do
  let position ← fieldIndex base sel
  match access with
  | .read => pure (.value (.clone (.part (← expectValue container) position)))
  | .write => pure (.place (.part (← expectPlace container) position))

/-- Assignment of a value: it is copied unless it is moved. -/
def assignValue (value : Operand) : Destination → Lower (List Instr)
  | .element base container key => do
      let container ← expectPlace container
      let key ← expectValue key
      pure [.update container (.element key (← containerKind base)) value]
  | .part base sel container => do
      let container ← expectPlace container
      pure [.update container (.part (← fieldIndex base sel)) value]
  | .whole dest => do pure [.assign (← expectPlace dest) value]

/-- Exchange of two locations. -/
def assignSwap (source : Place) : Destination → Lower (List Instr)
  | .element base container key => do
      let container ← expectPlace container
      let key ← expectValue key
      pure [.exchange container (.element key (← containerKind base)) source]
  | .part base sel container => do
      let container ← expectPlace container
      pure [.exchange container (.part (← fieldIndex base sel)) source]
  | .whole dest => do pure [.swap (← expectPlace dest) source]

def assign (qualifier : Qualifier) (source : Fragment) (dest : Destination) : Lower (List Instr) := do
  match qualifier with
  | .swap => assignSwap (← expectPlace source) dest
  | _ => assignValue ((← expectValue source).transferred qualifier) dest

def loop (cond body : Fragment) : Lower (List Instr) := do
  let cond ← expectValue cond
  let body ← expectCode body
  let start ← freshMark
  let stop ← freshMark
  pure (Template.loop start stop cond body)

def branch (cond onTrue : Fragment) (onFalse : Option Fragment) : Lower (List Instr) := do
  let cond ← expectValue cond
  let onTrue ← expectCode onTrue
  let stop ← freshMark
  match onFalse with
  | none => pure (Template.branch stop cond onTrue)
  | some onFalse =>
      let onFalse ← expectCode onFalse
      let otherwise ← freshMark
      pure (Template.branchElse stop otherwise cond onTrue onFalse)

def receive (cases : List ReceiveCase) : Lower (List Instr) := do
  cases.forM fun case => checkFunction case.handler
  let after ← freshLabel
  let done ← freshLabel
  let arms ← cases.mapM fun case => do pure (⟨case.event, case.handler, ← freshLabel⟩ : ReceiveArm)
  pure (Template.receive after done arms)

def new (machine : MachineTypeId) (args : List ListItem) (out : Option Fragment) : Lower (List Instr) := do
  let payload ← payload args
  let out ← out.mapM expectPlace
  pure (Template.new machine payload out (← freshLabel))

def call (callee : FunctionId) (args : List ListItem) (out : Option Fragment) : Lower (List Instr) := do
  checkFunction callee
  let (args, writeBacks) ← callArguments 0 args
  let out ← out.mapM expectPlace
  pure (Template.call callee args out writeBacks (← freshLabel))

def raise (span : Span) (event : Fragment) (args : List ListItem) : Lower (List Instr) := do
  let event ← expectValue event
  let payload ← payload args
  pure (Template.raise (← located span "Raised event must be non-null") event payload)

def send (span : Span) (target event : Fragment) (args : List ListItem) : Lower (List Instr) := do
  let target ← expectValue target
  let event ← expectValue event
  let payload ← payload args
  let message ← located span "Sent event must be non-null"
  pure (Template.send message target event payload (← freshLabel))

/-- Puts the choices that a statement reads, past the first `kept` pending ones, in front of its code. -/
def settleChoices (isLoop : Bool) (kept : Nat) (code : List Instr) : Lower (List Instr) := do
  let choices ← takeChoices kept
  let asked ← choices.mapM fun choice => do pure (Template.choose (← freshLabel) choice)
  pure (Template.withChoices isLoop asked.flatten code)

mutual

/-- Refuses anything but a cell of a list, with only such cells behind it. -/
def checkCell : Node → Lower Unit
  | .mk _ _ (.exprs _ _ tail) => checkList tail
  | .mk _ _ (.namedExprs _ _ tail) => checkList tail
  | .mk _ _ other => unexpected "argument list" other.formName
termination_by structural cell => cell

def checkList : Option Node → Lower Unit
  | none => pure ()
  | some cell => checkCell cell
termination_by structural list => list

end

end Lower

def NodeKind.isLoop : NodeKind → Bool
  | .loop .. => true
  | _ => false

open Lower

mutual

/-- Lowers a node; `inNew` tells whether it is part of a `new`. -/
def Node.lower (inNew : Bool) (access : Access) : Node → Lower Fragment
  | .mk _ span kind =>
      if kind.isNew && inNew then nestedNew
      else do
        let kept := (← get).pending.length
        match ← kind.lower (inNew || kind.isNew) access span with
        | .code body => .code <$> settleChoices kind.isLoop kept body
        | other => pure other

def NodeKind.lower (inNew : Bool) (access : Access) (span : Span) : NodeKind → Lower Fragment
  | .name ref => name access ref
  | .lit value => readOnly access (literal value)
  | .nondet _ =>
      match access with
      | .read => do pure (.value (.choice (← freshChoice)))
      | .write => unexpected "assignable place" "nondeterministic choice"
  | .unary op arg => do
      let arg ← arg.lower inNew .read
      readOnly access (.unary op (← expectValue arg))
  | .binary op lhs rhs => do
      if op = .index then
        let container ← lhs.lower inNew access
        let key ← rhs.lower inNew .read
        index access lhs.id container key
      else
        let left ← lhs.lower inNew .read
        let right ← rhs.lower inNew .read
        let left ← expectValue left
        readOnly access (.binary op left (← expectValue right))
  | .field base sel => do
      let container ← base.lower inNew access
      field access base.id sel container
  | .tuple list => do
      checkCell list
      let items ← list.lowerCell inNew false
      readOnly access (.tuple (← items.mapM ListItem.transferred))
  | .namedTuple list => do
      checkCell list
      let items ← list.lowerCell inNew false
      readOnly access (.named (← items.mapM ListItem.namedField))
  | .default ty => readOnly access (.default ty)
  | .cast expr ty => do
      let value ← expr.lower inNew .read
      readOnly access (.cast (← expectValue value) ty)
  | .app callee args => do
      checkList args
      let items ← lowerItems inNew false args
      checkFunction callee
      readOnly access (.call callee (← items.mapM ListItem.argument))
  | .exprs _ _ _ => unexpected "expression or statement" "bare argument list"
  | .namedExprs _ _ _ => unexpected "expression or statement" "bare argument list"
  | .new machine args out => do
      checkList args
      let items ← lowerItems inNew false args
      let out ← lowerOptional inNew .write out
      .code <$> new machine items out
  | .call callee args out => do
      checkList args
      let items ← lowerItems inNew true args
      let out ← lowerOptional inNew .write out
      .code <$> call callee items out
  | .goto state args => do
      checkList args
      let items ← lowerItems inNew false args
      pure (.code (Template.goto state (← payload items)))
  | .raise event args => do
      checkList args
      let event ← event.lower inNew .read
      let items ← lowerItems inNew false args
      .code <$> raise span event items
  | .send target event args => do
      checkList args
      let target ← target.lower inNew .read
      let event ← event.lower inNew .read
      let items ← lowerItems inNew false args
      .code <$> send span target event items
  | .announce event args => do
      checkList args
      let event ← event.lower inNew .read
      let items ← lowerItems inNew false args
      let event ← expectValue event
      pure (.code [.announce event (← payload items)])
  | .receive cases => .code <$> receive cases
  | .assert cond message => do
      let cond ← cond.lower inNew .read
      let cond ← expectValue cond
      pure (.code [.assert cond (← located span (message.getD "Assert failed"))])
  | .print format args => do
      checkList args
      let items ← lowerItems inNew false args
      pure (.code [.print format (← items.mapM fun item => expectValue item.fragment)])
  | .assign lhs rhs qualifier => do
      let source ← rhs.lower inNew (if qualifier = .swap then .write else .read)
      match ← lhs.lowerSelection inNew with
      | some selection => .code <$> assign qualifier source selection
      | none => do
          let dest ← lhs.lower inNew .write
          .code <$> assign qualifier source (.whole dest)
  | .remove target key => do
      let key ← key.lower inNew .read
      let container ← target.lower inNew .write
      let key ← expectValue key
      let container ← expectPlace container
      pure (.code [.remove container (← containerKind target.id) key])
  | .insert target entry => do
      let entry ← entry.lower inNew .read
      let container ← target.lower inNew .write
      let entry ← expectValue entry
      let container ← expectPlace container
      pure (.code [.insert container (← containerKind target.id) entry])
  | .pop => pure (.code Template.pop)
  | .ret value => do
      let value ← lowerOptional inNew .read value
      pure (.code (Template.ret (← value.mapM expectValue)))
  | .loop cond body => do
      let cond ← cond.lower inNew .read
      let body ← body.lower inNew .read
      .code <$> loop cond body
  | .branch cond onTrue onFalse => do
      let cond ← cond.lower inNew .read
      let onTrue ← onTrue.lower inNew .read
      let onFalse ← lowerOptional inNew .read onFalse
      .code <$> branch cond onTrue onFalse
  | .seq first rest => do
      let first ← first.lower inNew .read
      let rest ← rest.lower inNew .read
      let first ← expectCode first
      pure (.code (first ++ (← expectCode rest)))
  | .block statements => do
      let parts ← lowerAll inNew statements
      pure (.code (← parts.mapM expectCode).flatten)

/-- Lowers an element or a field that is overwritten, taken apart from its container; anything else is
nothing of the kind. -/
def Node.lowerSelection (inNew : Bool) : Node → Lower (Option Destination)
  | .mk _ _ (.binary .index base key) => do
      let container ← base.lower inNew .write
      let key ← key.lower inNew .read
      pure (some (.element base.id container key))
  | .mk _ _ (.field base sel) => do
      let container ← base.lower inNew .write
      pure (some (.part base.id sel container))
  | _ => pure none

/-- Lowers the cells of a chain from this one on. With `swapsWrite`, swapped items are locations. -/
def Node.lowerCell (inNew swapsWrite : Bool) : Node → Lower (List ListItem)
  | .mk _ _ (.exprs qualifier head tail) => do
      let fragment ← head.lower inNew (if swapsWrite && qualifier = .swap then .write else .read)
      pure (⟨none, qualifier, fragment⟩ :: (← lowerItems inNew swapsWrite tail))
  | .mk _ _ (.namedExprs name head tail) => do
      let fragment ← head.lower inNew .read
      pure (⟨some name, .none, fragment⟩ :: (← lowerItems inNew swapsWrite tail))
  | .mk _ _ other => unexpected "argument list" other.formName

def lowerItems (inNew swapsWrite : Bool) : Option Node → Lower (List ListItem)
  | none => pure []
  | some cell => cell.lowerCell inNew swapsWrite

def lowerOptional (inNew : Bool) (access : Access) : Option Node → Lower (Option Fragment)
  | none => pure none
  | some node => some <$> node.lower inNew access

def lowerAll (inNew : Bool) : List Node → Lower (List Fragment)
  | [] => pure []
  | node :: rest => do
      let fragment ← node.lower inNew .read
      pure (fragment :: (← lowerAll inNew rest))

end

end Reentry
