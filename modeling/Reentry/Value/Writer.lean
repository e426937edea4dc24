import Reentry.Json.Basic
import Reentry.Program.Writer
import Reentry.Value.Tree

/-!
Writing values as JSON. A tuple, a named tuple and a map are objects whose only key tells the kind; a seq
is an array.
-/

namespace Reentry

def MachineId.toJson (id : MachineId) : Json := .ofUInt32 id.index

namespace Tree

mutual

def toJson : Tree → Json
  | .null => .null
  | .bool value => .bool value
  | .int value => .int value.toInt
  | .event id => .tagged "event" id.toJson
  | .halt => .str "halt"
  | .machine id => .tagged "machine" id.toJson
  | .tuple items => .tagged "tuple" (.arr (itemsToJson items))
  | .named fields => .tagged "named" (.arr (fieldsToJson fields))
  | .seq items => .arr (itemsToJson items)
  | .map entries => .tagged "map" (.arr (entriesToJson entries))

def itemsToJson : List Tree → List Json
  | [] => []
  | item :: rest => item.toJson :: itemsToJson rest

def fieldsToJson : List (String × Tree) → List Json
  | [] => []
  | (name, item) :: rest => .arr [.str name, item.toJson] :: fieldsToJson rest

def entriesToJson : List (Tree × Tree) → List Json
  | [] => []
  | (key, item) :: rest => .arr [key.toJson, item.toJson] :: entriesToJson rest

end

end Tree

def Value.toJson (heap : Heap) (value : Value) : Json := (heap.tree value).toJson

end Reentry
