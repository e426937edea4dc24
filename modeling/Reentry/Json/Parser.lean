import Reentry.Json.Basic
import Reentry.Json.Token

/-!
From tokens to a JSON value. The parser is a fold over the tokens whose state lists the containers that
are still open, innermost first. A limit bounds how many may be open around and at a container that is to
be read; a deeper one has to be well formed, but counts as unreadable.
-/

namespace Reentry.Json

/-- Where the value being read belongs: what stands before it in the enclosing container, last first. -/
inductive Position where
  | item (before : List Json)
  | member (before : List (Option Key × Json)) (key : Option Key)

inductive Parser where
  /-- A value must follow. -/
  | expectValue (above : List Position)
  /-- An array has just been opened. -/
  | firstItem (above : List Position)
  /-- After an item: a comma or the end of the array. -/
  | items (above : List Position) (read : List Json)
  /-- An object has just been opened. -/
  | firstKey (above : List Position)
  /-- After a comma in an object. A key that is no text is kept as none. -/
  | expectKey (above : List Position) (read : List (Option Key × Json))
  | expectColon (above : List Position) (read : List (Option Key × Json)) (key : Option Key)
  /-- After a member: a comma or the end of the object. -/
  | members (above : List Position) (read : List (Option Key × Json))
  | done (result : Json)

namespace Parser

/-- Puts a finished value into its place. -/
def deliver (value : Json) : List Position → Parser
  | [] => .done value
  | .item before :: above => .items above (value :: before)
  | .member before key :: above => .members above ((key, value) :: before)

/-- The array of these items, last first. -/
def closeArr (limit : Nat) (above : List Position) (read : List Json) : Parser :=
  deliver (if above.length < limit then .arr read.reverse else .unreadable) above

/-- The object of these members, last first. -/
def closeObj (limit : Nat) (above : List Position) (read : List (Option Key × Json)) : Parser :=
  let members : Option (List (Key × Json)) := read.reverse.mapM fun (key, value) => key.map (·, value)
  deliver (if above.length < limit then (members.map .obj).getD .unreadable else .unreadable) above

/-- Reads the first token of a value. -/
def beginValue (above : List Position) (token : Token) : Option Parser :=
  match token with
  | .openArr => some (.firstItem above)
  | .openObj => some (.firstKey above)
  | .null => some (deliver .null above)
  | .bool value => some (deliver (.bool value) above)
  | .int value => some (deliver (.int value) above)
  | .real numeral => some (deliver (.real numeral) above)
  | .str text _ => some (deliver (.str text) above)
  | .garbled => some (deliver .unreadable above)
  | _ => none

/-- Reads a key. -/
def beginMember (above : List Position) (read : List (Option Key × Json)) (token : Token) : Option Parser :=
  match token with
  | .str text isEscaped => some (.expectColon above read (some ⟨text, isEscaped⟩))
  | .garbled => some (.expectColon above read none)
  | _ => none

def advance (limit : Nat) (parser : Parser) (token : Token) : Option Parser :=
  match parser with
  | .expectValue above => beginValue above token
  | .firstItem above =>
      if token = .closeArr then some (closeArr limit above [])
      else beginValue (.item [] :: above) token
  | .items above read =>
      match token with
      | .comma => some (.expectValue (.item read :: above))
      | .closeArr => some (closeArr limit above read)
      | _ => none
  | .firstKey above =>
      if token = .closeObj then some (closeObj limit above []) else beginMember above [] token
  | .expectKey above read => beginMember above read token
  | .expectColon above read key =>
      match token with
      | .colon => some (.expectValue (.member read key :: above))
      | _ => none
  | .members above read =>
      match token with
      | .comma => some (.expectKey above read)
      | .closeObj => some (closeObj limit above read)
      | _ => none
  | .done _ => none

def result? : Parser → Option Json
  | .done result => some result
  | _ => none

end Parser

/-- The value of a token list; containers inside `limit` others are unreadable. -/
def ofTokens? (limit : Nat) (tokens : List Token) : Option Json := do
  (← tokens.foldlM (Parser.advance limit) (.expectValue [])).result?

/-- The value that a text denotes; containers inside `limit` others are unreadable. -/
def parseWithin? (limit : Nat) (text : String) : Option Json := do
  ofTokens? limit (← tokens? text.toList)

/-- The value a text denotes, whatever its depth. -/
def parse? (text : String) : Option Json :=
  parseWithin? text.length text

end Reentry.Json
