import Reentry.Text.Decimal

/-!
Why a function cannot be lowered. Lowering trusts checked input, so each of these means that the front
end let something through; the first one ends the work.
-/

namespace Reentry

inductive LowerError where
  /-- A form stands where it has no meaning. -/
  | unexpectedNode (function expected found : String)
  /-- A `new` among the parts of another `new`. -/
  | nestedNew (function : String)
  /-- More parameters and locals than the frame has slots. -/
  | localsMismatch (function : String) (declared : Nat) (max : Nat)
  /-- A variable declared for another slot than the one it is laid out at. -/
  | slotMismatch (function name : String) (slot expected : Nat)
  /-- A node whose type is needed has none. -/
  | missingType (function : String) (node : Nat)
  | unknownField (function field ty : String)
  /-- An index into a value that is neither a seq nor a map. -/
  | notAContainer (function ty : String)
  | unknownFunction (function : String) (callee : Nat)
  /-- The assembled code failed its checks. -/
  | verification (function message : String)
deriving DecidableEq, Repr

namespace LowerError

def message : LowerError → String
  | .unexpectedNode function expected found =>
      function ++ ": unexpected " ++ found ++ " where " ++ expected ++ " was expected"
  | .nestedNew function => function ++ ": `new` nested inside another `new`"
  | .localsMismatch function declared max =>
      function ++ ": " ++ Decimal.natText declared ++ " declared slots exceed max_num_locals "
        ++ Decimal.natText max
  | .slotMismatch function name slot expected =>
      function ++ ": `" ++ name ++ "` has slot " ++ Decimal.natText slot ++ " but is laid out at "
        ++ Decimal.natText expected
  | .missingType function node =>
      function ++ ": node " ++ Decimal.natText node ++ " has no type annotation"
  | .unknownField function field ty => function ++ ": no field `" ++ field ++ "` in " ++ ty
  | .notAContainer function ty => function ++ ": cannot index into " ++ ty
  | .unknownFunction function callee => function ++ ": unknown function id " ++ Decimal.natText callee
  | .verification function message => function ++ ": verification failed: " ++ message

end LowerError

end Reentry
