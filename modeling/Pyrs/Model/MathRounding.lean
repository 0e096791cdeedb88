import Pyrs.Library.Binary64Rounding
import Pyrs.Model.NumericOrder

/-!
# Rounding to integers

`math.floor`, `math.ceil` and `math.trunc` of `vm/builtins_numeric_time.rs` on numbers.  The first
two go through floats; the last one keeps integers as they are.
-/

namespace Pyrs

def valueToF64 : NumericOperand → Binary64
  | .float value => value
  | .int (.int value) => Binary64.ofInt value.toInt
  | .int (.bigInt value _) => value.toF64
  | .int (.bool value) => Binary64.ofInt (if value then 1 else 0)

/-- `i64::MIN as f64` -/
def minI64AsF64 : Binary64 := Binary64.ofInt (-2 ^ 63)

/-- `i64::MAX as f64` -/
def maxI64AsF64 : Binary64 := Binary64.ofInt (2 ^ 63 - 1)

/-- The check and the cast at the end of `floor` and `ceil`. -/
def roundedToInt (value : Binary64) : KernelResult IntValue :=
  if value.lt minI64AsF64 || maxI64AsF64.lt value then .error (.overflowError "integer overflow")
  else .ok (.int value.asI64)

/-- The arguments of a function with one argument, without keywords. -/
def oneArgument (args : List NumericOperand) (kwargs : List (String × NumericOperand))
    (message : String) : KernelResult NumericOperand :=
  match args with
  | [value] => if kwargs.isEmpty then .ok value else .error (.new message)
  | _ => .error (.new message)

def builtinMathFloor (args : List NumericOperand) (kwargs : List (String × NumericOperand)) :
    KernelResult IntValue := do
  let value ← oneArgument args kwargs "floor() expects one argument"
  roundedToInt (valueToF64 value).floor

def builtinMathCeil (args : List NumericOperand) (kwargs : List (String × NumericOperand)) :
    KernelResult IntValue := do
  let value ← oneArgument args kwargs "ceil() expects one argument"
  roundedToInt (valueToF64 value).ceil

def builtinMathTrunc (args : List NumericOperand) (kwargs : List (String × NumericOperand)) :
    KernelResult IntValue := do
  match ← oneArgument args kwargs "trunc() expects one argument" with
  | .int (.int value) => .ok (.int value)
  | .int (.bigInt value large) => .ok (.bigInt value large)
  | other =>
    match BigInt.fromF64Integral (valueToF64 other).trunc with
    | some bigint => .ok (IntValue.bigintToValue bigint)
    | none => .error (.new "cannot convert float to int")

end Pyrs
