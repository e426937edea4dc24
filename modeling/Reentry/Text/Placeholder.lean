import Reentry.Text.Decimal

/-!
Messages with numbered placeholders such as `{0}`. A placeholder whose number has no argument is left as
it is written, and the text of an argument is never searched for placeholders.
-/

namespace Reentry.Placeholder

/-- Number of a placeholder: digits, maybe after a plus sign. -/
def readIndex? : List Char → Option Nat
  | '+' :: digits => Decimal.readNat? digits
  | digits => Decimal.readNat? digits

variable {α : Type}

/-- Argument that a placeholder names, given what follows its opening brace. -/
def argument? (args : List α) (after : List Char) : Option α := do
  if after.contains '\x7d' then
    args[← readIndex? (after.takeWhile (· ≠ '\x7d'))]?
  else none

/-- Fills in the placeholders; with `inside` set, what is left of the last one is skipped first. -/
def fill (text : α → String) (args : List α) (inside : Bool) : List Char → List Char
  | [] => []
  | c :: rest =>
      if inside then fill text args (c ≠ '\x7d') rest
      else if c = '\x7b' then
        match argument? args rest with
        | some arg => (text arg).toList ++ fill text args true rest
        | none => c :: fill text args false rest
      else c :: fill text args false rest

end Reentry.Placeholder

namespace Reentry

/-- The message with its placeholders filled in; an argument that none names is not turned into text. -/
def formatMessage {α : Type} (text : α → String) (format : String) (args : List α) : String :=
  String.ofList (Placeholder.fill text args false format.toList)

end Reentry
