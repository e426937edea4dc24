import Reentry.Text.Decimal

/-!
Why an operation on values has no result.
-/

namespace Reentry

inductive ValueError where
  /-- An operand is not of the kind the operation works on. -/
  | typeMismatch (op expected found : String)
  | indexOutOfRange (index : Int64) (length : Nat)
  | fieldOutOfRange (index arity : Nat)
  | keyNotFound (key : String)
  | duplicateKey (key : String)
  | divisionByZero
  | castFailed (value ty : String)
  /-- The map to be changed is part of the key. -/
  | keyHoldsMap
deriving DecidableEq, Repr

namespace ValueError

def message : ValueError → String
  | .typeMismatch op expected found => op ++ " expects " ++ expected ++ ", found " ++ found
  | .indexOutOfRange index length =>
      "index " ++ Decimal.intText index.toInt ++ " out of range for sequence of length "
        ++ Decimal.natText length
  | .fieldOutOfRange index arity =>
      "field " ++ Decimal.natText index ++ " out of range for tuple of arity " ++ Decimal.natText arity
  | .keyNotFound key => "key " ++ key ++ " not found in map"
  | .duplicateKey key => "key " ++ key ++ " already present in map"
  | .divisionByZero => "division by zero"
  | .castFailed value ty => "cannot cast " ++ value ++ " to " ++ ty
  | .keyHoldsMap => "key contains the map that it is used in"

end ValueError

end Reentry
