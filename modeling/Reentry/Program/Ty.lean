/-!
Type descriptors that the checker attaches to variables and subexpressions, and their written form.
-/

namespace Reentry

inductive Ty where
  | null
  | bool
  | int
  | event
  | machine
  | any
  | tuple (items : List Ty)
  | named (fields : List (String × Ty))
  | seq (element : Ty)
  | map (key value : Ty)
deriving Repr, Inhabited

namespace Ty

/-- Position of the first field of that name, if this is a named tuple that has one. -/
def fieldIndex? (name : String) : Ty → Option Nat
  | .named fields => fields.findIdx? (·.1 == name)
  | _ => none

def fieldNames? : Ty → Option (List String)
  | .named fields => some (fields.map (·.1))
  | _ => none

def isMap : Ty → Bool
  | .map _ _ => true
  | _ => false

def isSeq : Ty → Bool
  | .seq _ => true
  | _ => false

mutual

/-- Written form, as diagnostics and code dumps show it. -/
def text : Ty → String
  | .null => "null"
  | .bool => "bool"
  | .int => "int"
  | .event => "event"
  | .machine => "machine"
  | .any => "any"
  | .tuple items => "(" ++ ", ".intercalate (itemTexts items) ++ ")"
  | .named fields => "(" ++ ", ".intercalate (fieldTexts fields) ++ ")"
  | .seq element => "seq[" ++ element.text ++ "]"
  | .map key value => "map[" ++ key.text ++ ", " ++ value.text ++ "]"

def itemTexts : List Ty → List String
  | [] => []
  | item :: rest => item.text :: itemTexts rest

def fieldTexts : List (String × Ty) → List String
  | [] => []
  | (name, ty) :: rest => (name ++ ": " ++ ty.text) :: fieldTexts rest

end

end Ty

end Reentry
