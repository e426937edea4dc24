import Reentry.Program.Ty
import Reentry.Value.Heap

/-!
Which values belong to a type. A value is looked at only as far as the type goes.
-/

namespace Reentry.Ty

mutual

/-- Whether a value belongs to the type. Null belongs to the events and the machines. -/
def admits (heap : Heap) : Ty → Value → Bool
  | .any, _ => true
  | .null, .null => true
  | .bool, .bool _ => true
  | .int, .int _ => true
  | .event, .null | .event, .event _ | .event, .halt => true
  | .machine, .null | .machine, .machine _ => true
  | .tuple types, .cell address =>
      match heap.read address with
      | .tuple items => items.length == types.length && admitItems heap types items
      | _ => false
  | .named types, .cell address =>
      match heap.read address with
      | .named fields => fields.length == types.length && admitFields heap types fields
      | _ => false
  | .seq element, .cell address =>
      match heap.read address with
      | .seq items => items.all (element.admits heap)
      | _ => false
  | .map key value, .cell address =>
      match heap.read address with
      | .map entries => entries.all fun entry => key.admits heap entry.key && value.admits heap entry.value
      | _ => false
  | _, _ => false

def admitItems (heap : Heap) : List Ty → List Value → Bool
  | [], [] => true
  | ty :: types, item :: items => ty.admits heap item && admitItems heap types items
  | _, _ => false

def admitFields (heap : Heap) : List (String × Ty) → List (String × Value) → Bool
  | [], [] => true
  | (name, ty) :: types, (fieldName, item) :: fields =>
      fieldName == name && ty.admits heap item && admitFields heap types fields
  | _, _ => false

end

end Reentry.Ty
