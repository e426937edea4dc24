import Reentry.Program.Reader
import Reentry.Value.Container

/-!
Reading values from JSON, in the form in which they are written. A value that is read gets cells of its
own, except that `{"r": n}` stands for a value at hand, which is then shared.
-/

namespace Reentry

open Json

/-- Reading that stores what it reads. -/
abbrev ReadValue := StateT Heap Option

def ReadValue.ofAlloc {α : Type} (work : Alloc α) : ReadValue α := fun heap => some (work.run heap)

def MachineId.read? (json : Json) : Option MachineId := (readUInt32? json).map .mk

namespace Value

/-- Reads a pair written as an array of two. -/
def readPair {α β : Type} (first : Json → ReadValue α) (second : Json → ReadValue β) : Json → ReadValue (α × β)
  | .arr [left, right] => do
      let left ← first left
      pure (left, ← second right)
  | _ => failure

def readItems {α : Type} (item : Json → ReadValue α) : Json → ReadValue (List α)
  | .arr items => items.mapM item
  | _ => failure

def readWithin (known : List Value) : Nat → Json → ReadValue Value
  | 0, _ => failure
  | levels + 1, json =>
      let inner := readWithin known levels
      match json with
      | .null => pure .null
      | .bool value => pure (.bool value)
      | .int _ => do pure (.int (← readInt64? json))
      | .str "halt" => pure .halt
      | .arr items => do
          let items ← items.mapM inner
          ReadValue.ofAlloc (Cell.new (.seq items))
      | .obj [(⟨tag, _⟩, contents)] =>
          match tag with
          | "r" => do
              let place ← readNat? known.length contents
              known[place]?
          | "event" => do pure (.event (← EventId.read? contents))
          | "machine" => do pure (.machine (← MachineId.read? contents))
          | "tuple" => do
              let items ← readItems inner contents
              ReadValue.ofAlloc (Cell.new (.tuple items))
          | "named" => do
              let fields ← readItems (readPair (fun name => readString? name) inner) contents
              ReadValue.ofAlloc (Cell.new (.named fields))
          | "map" => do
              let entries ← readItems (readPair inner inner) contents
              ReadValue.ofAlloc (Cell.newMap entries)
          | _ => failure
      | _ => failure

/-- Reads a value; the values at hand are numbered from 0. -/
def read (known : List Value) (json : Json) : ReadValue Value := readWithin known (json.depth + 1) json

end Value

end Reentry
