import Reentry.Program.Ty
import Reentry.Text.Decimal
import Reentry.Value.Equality

/-!
Values without storage. The tree of a value is all that reading shows of it, in the order in which it
shows; the text of a value is a function of its tree. Building a tree allocates cells that nothing else
shares, so a deep copy is the building of a value's tree.
-/

namespace Reentry

inductive Tree where
  | null
  | bool (value : Bool)
  | int (value : Int64)
  | event (id : EventId)
  | halt
  | machine (id : MachineId)
  | tuple (items : List Tree)
  | named (fields : List (String × Tree))
  | seq (items : List Tree)
  | map (entries : List (Tree × Tree))
deriving Repr, Inhabited

namespace Tree

mutual

def text : Tree → String
  | .null => "null"
  | .bool value => if value then "true" else "false"
  | .int value => Decimal.intText value.toInt
  | .event id => "event#" ++ Decimal.natText id.index.toNat
  | .halt => "halt"
  | .machine id => "machine#" ++ Decimal.natText id.index.toNat
  | .tuple items => "(" ++ ", ".intercalate (itemTexts items) ++ ")"
  | .named fields => "(" ++ ", ".intercalate (fieldTexts fields) ++ ")"
  | .seq items => "[" ++ ", ".intercalate (itemTexts items) ++ "]"
  | .map entries => "(" ++ ", ".intercalate (entryTexts entries) ++ ")"

def itemTexts : List Tree → List String
  | [] => []
  | item :: rest => item.text :: itemTexts rest

def fieldTexts : List (String × Tree) → List String
  | [] => []
  | (name, item) :: rest => (name ++ " = " ++ item.text) :: fieldTexts rest

def entryTexts : List (Tree × Tree) → List String
  | [] => []
  | (key, item) :: rest => (key.text ++ " -> " ++ item.text) :: entryTexts rest

end

mutual

/-- Stores a tree in cells of its own. The entries of a map are bound one by one, so of entries with
equal keys the first place and the last value remain. -/
def build : Tree → Alloc Value
  | .null => pure .null
  | .bool value => pure (.bool value)
  | .int value => pure (.int value)
  | .event id => pure (.event id)
  | .halt => pure .halt
  | .machine id => pure (.machine id)
  | .tuple items => do Cell.new (.tuple (← buildItems items))
  | .named fields => do Cell.new (.named (← buildFields fields))
  | .seq items => do Cell.new (.seq (← buildItems items))
  | .map entries => do Cell.newMap (← buildEntries entries)

def buildItems : List Tree → Alloc (List Value)
  | [] => pure []
  | item :: rest => do
      let value ← item.build
      pure (value :: (← buildItems rest))

def buildFields : List (String × Tree) → Alloc (List (String × Value))
  | [] => pure []
  | (name, item) :: rest => do
      let value ← item.build
      pure ((name, value) :: (← buildFields rest))

def buildEntries : List (Tree × Tree) → Alloc (List (Value × Value))
  | [] => pure []
  | (key, item) :: rest => do
      let key ← key.build
      let value ← item.build
      pure ((key, value) :: (← buildEntries rest))

end

end Tree

namespace Heap

/-- Tree of a value, unless it is more than `levels` cells deep. -/
def treeWithin? (heap : Heap) : Nat → Value → Option Tree
  | _, .null => some .null
  | _, .bool value => some (.bool value)
  | _, .int value => some (.int value)
  | _, .event id => some (.event id)
  | _, .halt => some .halt
  | _, .machine id => some (.machine id)
  | 0, .cell _ => none
  | levels + 1, .cell address =>
      match heap.read address with
      | .tuple items => (items.mapM (heap.treeWithin? levels)).map .tuple
      | .named fields =>
          (fields.mapM fun field => (heap.treeWithin? levels field.2).map (field.1, ·)).map .named
      | .seq items => (items.mapM (heap.treeWithin? levels)).map .seq
      | .map entries =>
          (entries.mapM fun (entry : Entry) => do
            pure (← heap.treeWithin? levels entry.key, ← heap.treeWithin? levels entry.value)).map .map

/-- Tree of a value. No path that avoids repetition passes more cells than the heap has, so only a value
that contains itself has none; it counts as null. -/
def tree (heap : Heap) (value : Value) : Tree := (heap.treeWithin? (heap.size + 1) value).getD .null

/-- Whether a cell can be reached from a value in at most `levels` steps. -/
def reachesWithin (heap : Heap) (goal : Address) : Nat → Value → Bool
  | _, .null | _, .bool _ | _, .int _ | _, .event _ | _, .halt | _, .machine _ => false
  | 0, .cell address => address == goal
  | levels + 1, .cell address =>
      address == goal || (heap.read address).contents.any (heap.reachesWithin goal levels)

/-- Whether a cell is part of a value. -/
def reaches (heap : Heap) (value : Value) (goal : Address) : Bool :=
  heap.reachesWithin goal heap.size value

end Heap

namespace Value

/-- A copy that shares no cell with anything. -/
def deepCopy (value : Value) : Alloc Value := do
  ((← get).tree value).build

def text (heap : Heap) (value : Value) : String := (heap.tree value).text

end Value

namespace Ty

mutual

/-- Tree of the value that a variable of this type starts with. -/
def initial : Ty → Tree
  | .null | .event | .machine | .any => .null
  | .bool => .bool false
  | .int => .int 0
  | .tuple items => .tuple (initialItems items)
  | .named fields => .named (initialFields fields)
  | .seq _ => .seq []
  | .map _ _ => .map []

def initialItems : List Ty → List Tree
  | [] => []
  | item :: rest => item.initial :: initialItems rest

def initialFields : List (String × Ty) → List (String × Tree)
  | [] => []
  | (name, item) :: rest => (name, item.initial) :: initialFields rest

end

end Ty

/-- A fresh value of the kind that variables of the type start with. -/
def Value.initial (ty : Ty) : Alloc Value := ty.initial.build

end Reentry
