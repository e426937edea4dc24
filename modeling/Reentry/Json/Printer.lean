import Reentry.Json.Basic
import Reentry.Text.Decimal

/-!
Compact JSON text of a value. Each printer puts its text in front of what follows.
-/

namespace Reentry.Json

/-- Quotes, backslashes and control characters are escaped; all else stands for itself. -/
def escapedChar (c : Char) : List Char :=
  if c = '"' then ['\\', '"']
  else if c = '\\' then ['\\', '\\']
  else if c = '\n' then ['\\', 'n']
  else if c = '\r' then ['\\', 'r']
  else if c = '\t' then ['\\', 't']
  else if c = '\x08' then ['\\', 'b']
  else if c = '\x0c' then ['\\', 'f']
  else if c.toNat < 0x20 then
    ['\\', 'u', '0', '0', Nat.digitChar (c.toNat / 16), Nat.digitChar (c.toNat % 16)]
  else [c]

def printText (text : String) (rest : List Char) : List Char :=
  '"' :: text.toList.foldr (fun c printed => escapedChar c ++ printed) ('"' :: rest)

mutual

def print (json : Json) (rest : List Char) : List Char :=
  match json with
  | .null => 'n' :: 'u' :: 'l' :: 'l' :: rest
  | .bool true => 't' :: 'r' :: 'u' :: 'e' :: rest
  | .bool false => 'f' :: 'a' :: 'l' :: 's' :: 'e' :: rest
  | .int value => Decimal.intDigits value ++ rest
  | .real numeral => numeral.toList ++ rest
  | .str text => printText text rest
  | .unreadable => '"' :: '\\' :: 'u' :: 'd' :: '8' :: '0' :: '0' :: '"' :: rest
  | .arr [] => '[' :: ']' :: rest
  | .arr (item :: items) => '[' :: print item (printItems items (']' :: rest))
  | .obj [] => '\x7b' :: '\x7d' :: rest
  | .obj ((key, value) :: members) =>
      '\x7b' :: printText key.text (':' :: print value (printMembers members ('\x7d' :: rest)))

def printItems (items : List Json) (rest : List Char) : List Char :=
  match items with
  | [] => rest
  | item :: items => ',' :: print item (printItems items rest)

def printMembers (members : List (Key × Json)) (rest : List Char) : List Char :=
  match members with
  | [] => rest
  | (key, value) :: members => ',' :: printText key.text (':' :: print value (printMembers members rest))

end

def text (json : Json) : String := String.ofList (print json [])

end Reentry.Json
