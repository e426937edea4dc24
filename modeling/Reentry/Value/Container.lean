import Reentry.Value.Error
import Reentry.Value.Membership
import Reentry.Value.Tree

/-!
Operations on containers and tuples. Elements are handed out as they are stored, not as copies. A key is
copied when it enters a map, and the keys and values of a map are handed out as copies, so through these
operations nobody gets hold of a key that is in use. An operation that fails changes nothing.
-/

namespace Reentry

/-- Work on a heap that may fail; a failure leaves the heap as it was. -/
abbrev ValueOp := StateT Heap (Except ValueError)

/-- Lets work that cannot fail be part of work that can. -/
def Alloc.toOp {α : Type} (work : Alloc α) : ValueOp α := fun heap => .ok (work.run heap)

/-- The cell that a value names, and where it is. -/
def Heap.cell? (heap : Heap) : Value → Option (Address × Cell)
  | .cell address => some (address, heap.read address)
  | _ => none

namespace Value

def mismatch {α : Type} (op expected : String) (found : Value) : ValueOp α := do
  throw (.typeMismatch op expected (found.kindName (← get)))

def asBool (op : String) : Value → ValueOp Bool
  | .bool value => pure value
  | other => mismatch op "bool" other

def asInt (op : String) : Value → ValueOp Int64
  | .int value => pure value
  | other => mismatch op "int" other

def asMachine (op : String) : Value → ValueOp MachineId
  | .machine id => pure id
  | other => mismatch op "machine" other

/-- Position in a sequence of that length; with `inclusive` also the one behind its end. -/
def seqIndex (key : Value) (length : Nat) (inclusive : Bool) : ValueOp Nat := do
  let index ← key.asInt "seq index"
  let bound := if inclusive then length + 1 else length
  if 0 ≤ index ∧ index.toInt.toNat < bound then pure index.toInt.toNat
  else throw (.indexOutOfRange index length)

/-- A map cannot be changed under a key that it is part of. -/
def checkKey (key : Value) (map : Address) : ValueOp Unit := do
  if (← get).reaches key map then throw .keyHoldsMap

def size (container : Value) : ValueOp Int64 := do
  match (← get).cell? container with
  | some (_, .seq items) => pure (.ofNat items.length)
  | some (_, .map entries) => pure (.ofNat entries.length)
  | _ => mismatch "sizeof" "seq or map" container

/-- Fresh sequence of the copied keys of a map. -/
def keys (map : Value) : ValueOp Value := do
  match (← get).cell? map with
  | some (_, .map entries) => Alloc.toOp do
      Cell.new (.seq (← entries.mapM fun entry => entry.key.deepCopy))
  | _ => mismatch "keys" "map" map

/-- Fresh sequence of the copied values of a map. -/
def values (map : Value) : ValueOp Value := do
  match (← get).cell? map with
  | some (_, .map entries) => Alloc.toOp do
      Cell.new (.seq (← entries.mapM fun entry => entry.value.deepCopy))
  | _ => mismatch "values" "map" map

def containsKey (map key : Value) : ValueOp Bool := do
  match (← get).cell? map with
  | some (_, .map entries) => pure ((← get).entryIndex? key entries).isSome
  | _ => mismatch "in" "map" map

/-- The element at an index or key. -/
def lookup (container key : Value) : ValueOp Value := do
  match (← get).cell? container with
  | some (_, .seq items) =>
      let index ← key.seqIndex items.length false
      pure (items[index]?.getD .null)
  | some (_, .map entries) =>
      let heap ← get
      match (heap.entryIndex? key entries).bind (entries[·]?) with
      | some entry => pure entry.value
      | none => throw (.keyNotFound (key.text heap))
  | _ => mismatch "index" "seq or map" container

/-- Binds a copy of the key and gives the value that it was bound to, which is null for a new key. -/
def bindCopy (map : Address) (key value : Value) (entries : List Entry) : ValueOp Value := do
  let key ← Alloc.toOp key.deepCopy
  let (entries, old) := (← get).bind key value entries
  modify fun heap => heap.write map (.map entries)
  pure (old.getD .null)

/-- Overwrites the element at an index or key and gives the old one. A key that the map lacks is added;
what it had was null. -/
def replace (container key value : Value) : ValueOp Value := do
  match (← get).cell? container with
  | some (address, .seq items) =>
      let index ← key.seqIndex items.length false
      modify fun heap => heap.write address (.seq (items.set index value))
      pure (items[index]?.getD .null)
  | some (address, .map entries) =>
      checkKey key address
      bindCopy address key value entries
  | _ => mismatch "update" "seq or map" container

def update (container key value : Value) : ValueOp Unit := do
  let _ ← replace container key value

/-- Removes the element at an index or key; those behind it move up. -/
def remove (container key : Value) : ValueOp Unit := do
  match (← get).cell? container with
  | some (address, .seq items) =>
      let index ← key.seqIndex items.length false
      modify fun heap => heap.write address (.seq (items.eraseIdx index))
  | some (address, .map entries) =>
      checkKey key address
      match (← get).entryIndex? key entries with
      | some index => modify fun heap => heap.write address (.map (entries.eraseIdx index))
      | none => throw (.keyNotFound (key.text (← get)))
  | _ => mismatch "remove" "seq or map" container

/-- Inserts at an index of a seq, moving what follows, or under a key that the map lacks. -/
def insert (container key value : Value) : ValueOp Unit := do
  match (← get).cell? container with
  | some (address, .seq items) =>
      let index ← key.seqIndex items.length true
      modify fun heap => heap.write address (.seq (items.insertIdx index value))
  | some (address, .map entries) =>
      checkKey key address
      match (← get).entryIndex? key entries with
      | some _ => throw (.duplicateKey (key.text (← get)))
      | none => let _ ← bindCopy address key value entries
  | _ => mismatch "insert" "seq or map" container

/-- A field of a tuple, named or not. -/
def field (tuple : Value) (index : Nat) : ValueOp Value := do
  match (← get).cell? tuple with
  | some (_, .tuple items) =>
      match items[index]? with
      | some value => pure value
      | none => throw (.fieldOutOfRange index items.length)
  | some (_, .named fields) =>
      match fields[index]? with
      | some (_, value) => pure value
      | none => throw (.fieldOutOfRange index fields.length)
  | _ => mismatch "field access" "tuple" tuple

/-- Overwrites a field of a tuple and gives the old value. -/
def replaceField (tuple : Value) (index : Nat) (value : Value) : ValueOp Value := do
  match (← get).cell? tuple with
  | some (address, .tuple items) =>
      match items[index]? with
      | some old =>
          modify fun heap => heap.write address (.tuple (items.set index value))
          pure old
      | none => throw (.fieldOutOfRange index items.length)
  | some (address, .named fields) =>
      match fields[index]? with
      | some (_, old) =>
          modify fun heap => heap.write address
            (.named (fields.modify index fun entry => (entry.1, value)))
          pure old
      | none => throw (.fieldOutOfRange index fields.length)
  | _ => mismatch "field update" "tuple" tuple

def updateField (tuple : Value) (index : Nat) (value : Value) : ValueOp Unit := do
  let _ ← replaceField tuple index value

/-- The value itself, if it belongs to the type. -/
def cast (value : Value) (ty : Ty) : ValueOp Value := do
  let heap ← get
  if ty.admits heap value then pure value
  else throw (.castFailed (value.text heap) ty.text)

end Value

end Reentry
