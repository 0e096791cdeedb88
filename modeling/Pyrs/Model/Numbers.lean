import Pyrs.Library.Binary64

/-!
# Numeric keys

The numbers that can be the key of a dict or the member of a set, and the equality that the
containers use of them.  A `BigInt` is the integer it stands for.
-/

namespace Pyrs

/-- The numbers that are keys. -/
inductive Number
  | bool (value : Bool)
  | int (value : Int64)
  | bigInt (value : ℤ)
  | float (value : Binary64)
deriving DecidableEq

/-- A magnitude with its sign. -/
def signed (negative : Bool) (magnitude : ℕ) : ℤ := if negative then -magnitude else magnitude

/-- The mantissa of a float, moved by its exponent; a bit that would be lost makes it no integer. -/
def shiftMantissa (mantissa exponent : ℕ) : Option ℕ :=
  if 1075 ≤ exponent then some (mantissa <<< (exponent - 1075))
  else if mantissa % 2 ^ (1075 - exponent) ≠ 0 then none
  else some (mantissa >>> (1075 - exponent))

/-- The integer that a float stands for, where it is one. -/
def fromF64Integral (value : Binary64) : Option ℤ :=
  if !value.isFinite then none
  else if value.isZero then some 0
  else if !value.isIntegral then none
  else if value.exponent = 0 then some 0
  else (shiftMantissa (2 ^ 52 + value.fraction) value.exponent).map (signed value.sign)

namespace Number

/-- The integer of a boolean. -/
def boolToInt (value : Bool) : ℤ := if value then 1 else 0

/-- The conversion of an `i64` to an `f64`. -/
def int64ToF64 (value : Int64) : Binary64 := Binary64.ofInt value.toInt

/-- The float of a boolean. -/
def boolToF64 (value : Bool) : Binary64 := Binary64.ofInt (boolToInt value)

/-- The equality of values. -/
def eq : Number → Number → Bool
  | .bool a, .bool b => a == b
  | .bool a, .int b => boolToInt a == b.toInt
  | .bool a, .bigInt b => boolToInt a == b
  | .bool a, .float b => (boolToF64 a).eq b
  | .int a, .int b => a == b
  | .int a, .bool b => a.toInt == boolToInt b
  | .int a, .bigInt b => a.toInt == b
  | .int a, .float b => (int64ToF64 a).eq b
  | .bigInt a, .bigInt b => a == b
  | .bigInt a, .bool b => a == boolToInt b
  | .bigInt a, .int b => a == b.toInt
  | .bigInt a, .float b => (fromF64Integral b).any fun converted => converted == a
  | .float a, .float b => a.eq b
  | .float a, .int b => a.eq (int64ToF64 b)
  | .float a, .bigInt b => (fromF64Integral a).any fun converted => converted == b
  | .float a, .bool b => a.eq (boolToF64 b)

end Number

/-- Equal floats; a NaN equals the one with its bits. -/
def floatKeyEqual (left right : Binary64) : Bool :=
  left.eq right || (left.isNaN && right.isNaN && left.bits == right.bits)

/-- `value_key_equal` of numbers. -/
def Number.keyEqual (left right : Number) : Bool :=
  left.eq right || match left, right with
    | .float left, .float right => floatKeyEqual left right
    | _, _ => false

end Pyrs
