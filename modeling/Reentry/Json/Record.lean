import Reentry.Json.Token
import Reentry.Json.Basic

/-!
How typed data is written in JSON. A record is an object, or the array of its fields in order. A choice
between variants is an object with the variant's name as its only key; a variant without contents may
also be its name alone, or carry null. Unknown members are skipped, repeated ones are refused.
-/

namespace Reentry.Json

/-- When a field of a record may be left out. -/
inductive Absence where
  | never
  /-- In the object form only. -/
  | inObject
  /-- In the object form, and at the end of the array form. -/
  | always
deriving DecidableEq, Repr

structure Field where
  name : String
  absence : Absence

def required (name : String) : Field := ⟨name, .never⟩
def optional (name : String) : Field := ⟨name, .inObject⟩
def defaulted (name : String) : Field := ⟨name, .always⟩

def positionalFields? : List Field → List Json → Option (List (Option Json))
  | [], [] => some []
  | [], _ :: _ => none
  | field :: fields, [] =>
      if field.absence = .always then (none :: ·) <$> positionalFields? fields [] else none
  | _ :: fields, item :: items => (some item :: ·) <$> positionalFields? fields items

def namedFields? (members : List (Key × Json)) : List Field → Option (List (Option Json))
  | [] => some []
  | field :: fields => do
      let value ← member? field.name members
      if value.isNone && field.absence == .never then none
      else (value :: ·) <$> namedFields? members fields

/-- Contents of a record's fields, in their order; a field that is left out has none. -/
def record? (fields : List Field) : Json → Option (List (Option Json))
  | .obj members => namedFields? members fields
  | .arr items => positionalFields? fields items
  | _ => none

/-- Name and contents of a variant. -/
def variant? : Json → Option (String × Option Json)
  | .str name => some (name, none)
  | .obj [(name, contents)] => some (name.text, some contents)
  | _ => none

/-- Whether the contents are those of a variant that has none. -/
def isBare : Option Json → Bool
  | none => true
  | some .null => true
  | some _ => false

def readBool? : Json → Option Bool
  | .bool value => some value
  | _ => none

def readString? : Json → Option String
  | .str text => some text
  | _ => none

def readNat? (bound : Nat) : Json → Option Nat
  | .int (.ofNat n) => if n < bound then some n else none
  | _ => none

def readUInt32? (json : Json) : Option UInt32 :=
  (readNat? UInt32.size json).map .ofNat

def readInt64? : Json → Option Int64
  | .int i => if Int64.minValue.toInt ≤ i ∧ i ≤ Int64.maxValue.toInt then some (.ofInt i) else none
  | _ => none

def readList? {α : Type} (read : Json → Option α) : Json → Option (List α)
  | .arr items => items.mapM read
  | _ => none

/-- Null, or a field that is left out, reads as nothing. -/
def readOptional? {α : Type} (read : Json → Option α) : Option Json → Option (Option α)
  | none => some none
  | some .null => some none
  | some json => some <$> read json

def readDefault? {α : Type} (default : α) (read : Json → Option α) : Option Json → Option α
  | none => some default
  | some json => read json

/-- Number that an object key spells as a JSON integer, without escapes. -/
def keyNumber? (key : Key) : Option UInt32 :=
  match Lexer.numberToken? key.text.toList with
  | some (.int value) => if key.isEscaped then none else readUInt32? (.int value)
  | _ => none

end Reentry.Json
