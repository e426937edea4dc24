/-!
JSON values as they stand in a text: members keep their order and may repeat, and an integer is told
apart from a number with a fraction or an exponent.
-/

namespace Reentry

/-- Key of a member. -/
structure Json.Key where
  text : String
  /-- Whether some character of it is written as an escape. -/
  isEscaped : Bool := false
deriving DecidableEq, Repr

instance : Coe String Json.Key := ⟨fun text => ⟨text, false⟩⟩

inductive Json where
  | null
  | bool (value : Bool)
  | int (value : Int)
  /-- A number written with a fraction, an exponent or as `-0`. -/
  | real (numeral : String)
  | str (text : String)
  /-- Well formed, but nothing that can be read: a string with an unpaired surrogate escape, an object
  with such a key, or a container too deep inside others. -/
  | unreadable
  | arr (items : List Json)
  | obj (members : List (Json.Key × Json))
deriving Repr, Inhabited

namespace Json

mutual

/-- Number of containers on the longest path into the value. -/
def depth : Json → Nat
  | .arr items => itemsDepth items + 1
  | .obj members => membersDepth members + 1
  | _ => 0

def itemsDepth : List Json → Nat
  | [] => 0
  | item :: rest => max item.depth (itemsDepth rest)

def membersDepth : List (Key × Json) → Nat
  | [] => 0
  | (_, item) :: rest => max item.depth (membersDepth rest)

end

/-- Replaces the value of a key where it stands, or adds the member at the end. -/
def putMember (key : Key) (value : Json) : List (Key × Json) → List (Key × Json)
  | [] => [(key, value)]
  | member :: rest =>
      if member.1.text = key.text then (key, value) :: rest else member :: putMember key value rest

mutual

/-- Keeps, in every object, the last of the members with one key, and forgets how keys were written. -/
def mergeRepeated : Json → Json
  | .arr items => .arr (mergeItems items)
  | .obj members => .obj (mergeMembers [] members)
  | other => other

def mergeItems : List Json → List Json
  | [] => []
  | item :: rest => item.mergeRepeated :: mergeItems rest

def mergeMembers (merged : List (Key × Json)) : List (Key × Json) → List (Key × Json)
  | [] => merged
  | (key, item) :: rest => mergeMembers (putMember key.text item.mergeRepeated merged) rest

end

/-- The only member with that key: none if it is missing, an error if it is repeated. -/
def member? (key : String) (members : List (Key × Json)) : Option (Option Json) :=
  match members.filter (·.1.text == key) with
  | [] => some none
  | [(_, value)] => some (some value)
  | _ => none

end Json

end Reentry
