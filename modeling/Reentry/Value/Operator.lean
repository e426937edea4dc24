import Reentry.Program.Node
import Reentry.Value.Container

/-!
Operators on values. Integers are signed 64-bit words: sums, differences and products wrap around, a
quotient is rounded toward zero.
-/

namespace Reentry

def UnaryOp.apply (op : UnaryOp) (arg : Value) : ValueOp Value := do
  match op with
  | .not => pure (.bool (!(← arg.asBool "!")))
  | .neg =>
      let value ← arg.asInt "unary -"
      if value = Int64.minValue then throw (.typeMismatch "unary -" "negatable int" "int")
      else pure (.int (-value))
  | .keys => arg.keys
  | .values => arg.values
  | .sizeof => pure (.int (← arg.size))

namespace BinaryOp

def ints (op : String) (lhs rhs : Value) : ValueOp (Int64 × Int64) := do
  let left ← lhs.asInt op
  pure (left, ← rhs.asInt op)

/-- Applies an operator to two values that have both been computed. -/
def apply (op : BinaryOp) (lhs rhs : Value) : ValueOp Value := do
  match op with
  | .add => let (left, right) ← ints "+" lhs rhs; pure (.int (left + right))
  | .sub => let (left, right) ← ints "-" lhs rhs; pure (.int (left - right))
  | .mul => let (left, right) ← ints "*" lhs rhs; pure (.int (left * right))
  | .div =>
      let (left, right) ← ints "/" lhs rhs
      if right = 0 then throw .divisionByZero else pure (.int (left / right))
  | .and => if ← lhs.asBool "&&" then pure (.bool (← rhs.asBool "&&")) else pure (.bool false)
  | .or => if ← lhs.asBool "||" then pure (.bool true) else pure (.bool (← rhs.asBool "||"))
  | .eq => pure (.bool ((← get).equal lhs rhs))
  | .ne => pure (.bool (!(← get).equal lhs rhs))
  | .lt => let (left, right) ← ints "<" lhs rhs; pure (.bool (left < right))
  | .le => let (left, right) ← ints "<=" lhs rhs; pure (.bool (left ≤ right))
  | .gt => let (left, right) ← ints ">" lhs rhs; pure (.bool (right < left))
  | .ge => let (left, right) ← ints ">=" lhs rhs; pure (.bool (right ≤ left))
  | .index => lhs.lookup rhs
  | .mem => pure (.bool (← rhs.containsKey lhs))

end BinaryOp

end Reentry
