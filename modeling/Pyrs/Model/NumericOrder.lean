import Pyrs.Library.Binary64Order
import Pyrs.Model.BigIntFloats
import Pyrs.Model.IntegerKernels

/-!
# The order of numbers

`compare_order` of `vm/ops.rs` on integers and floats.
-/

namespace Pyrs

/-- The numbers among the values. -/
inductive NumericOperand
  | int (value : IntValue)
  | float (value : Binary64)

/-- The integer of an `i64` or a float. -/
inductive NumericValue
  | int (value : Int64)
  | float (value : Binary64)

def numericValue : NumericOperand → NumericValue
  | .int (.int value) => .int value
  | .int (.bool value) => .int (if value then 1 else 0)
  | .int (.bigInt value _) =>
    match value.toI64 with
    | some number => .int number
    | none => .float value.toF64
  | .float value => .float value

def numericAsF64 : NumericValue → Binary64
  | .int value => Binary64.ofInt value.toInt
  | .float value => value

/-- The order of two numbers. -/
def compareNumericValues : NumericValue → NumericValue → Ordering
  | .int left, .int right => compare left.toInt right.toInt
  | left, right => (numericAsF64 left).totalCmp (numericAsF64 right)

def compareOrder (left right : NumericOperand) : Ordering :=
  match left, right with
  | .int left, .int right =>
    match IntValue.integerI64Pair left right with
    | some (left, right) => compare left.toInt right.toInt
    | none => left.intLikeToBigint.cmpTotal right.intLikeToBigint
  | .int (.bigInt left _), .float right => left.toF64.totalCmp right
  | .float left, .int (.bigInt right _) => left.totalCmp right.toF64
  | left, right => compareNumericValues (numericValue left) (numericValue right)

end Pyrs
