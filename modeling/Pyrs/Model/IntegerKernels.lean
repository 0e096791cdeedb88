import Pyrs.Model.BigInts

/-!
# Integer operators

The operator kernels of `vm/ops.rs` on the integers among the values.  Most have a fast path for two
`i64` and fall back to big integers.  The branches for other operands are left out.
-/

namespace Pyrs

/-- The integers among the values; a `BigInt` is one that no `Int` holds. -/
inductive IntValue
  | bool (flag : Bool)
  | int (number : Int64)
  | bigInt (number : BigInt) (large : number.toI64 = none)
deriving DecidableEq

/-- The errors of a kernel by their kind, with their message.  A machine integer that overflows
without a check is a panic. -/
inductive KernelError
  | zeroDivisionError (message : String)
  | overflowError (message : String)
  | valueError (message : String)
  | new (message : String)
  | panicked
deriving DecidableEq

/-- A value or an exception. -/
abbrev KernelResult := Except KernelError

/-- What a big integer operation gives. -/
def unchecked {α : Type} : Option α → KernelResult α
  | some value => .ok value
  | none => .error .panicked

namespace IntValue

/-! ## Machine integers -/

/-- The `checked_` operations of `i64`, on their exact value. -/
def checkedInt64 (value : ℤ) : Option Int64 :=
  if -2 ^ 63 ≤ value ∧ value < 2 ^ 63 then some (Int64.ofInt value) else none

/-- The quotient and the remainder are those of `i128`, which round towards zero. -/
def pythonFloorDiv (left right : Int64) : KernelResult Int64 :=
  if right = 0 then .error (.new "integer division by zero")
  else
    let a := left.toInt
    let b := right.toInt
    let div := if a.tmod b ≠ 0 ∧ (decide (a < 0) ^^ decide (b < 0)) = true then a.tdiv b - 1
      else a.tdiv b
    match checkedInt64 div with
    | some div => .ok div
    | none => .error (.overflowError "integer overflow")

def pythonMod (left right : Int64) : KernelResult Int64 :=
  if right = 0 then .error (.zeroDivisionError "modulo by zero")
  else do
    let div ← pythonFloorDiv left right
    match checkedInt64 (left.toInt - right.toInt * div.toInt) with
    | some value => .ok value
    | none => .error (.overflowError "integer overflow")

/-! ## Operands and results -/

/-- The integer of a value. -/
def intLikeToBigint : IntValue → BigInt
  | bool flag => BigInt.fromI64 (if flag then 1 else 0)
  | int number => BigInt.fromI64 number
  | bigInt number _ => number

/-- The integer of a value, where it fits. -/
def intLikeToI64 : IntValue → Option Int64
  | bool flag => some (if flag then 1 else 0)
  | int number => some number
  | bigInt _ _ => none

/-- Both integers, where both fit. -/
def integerI64Pair (left right : IntValue) : Option (Int64 × Int64) :=
  match left.intLikeToI64, right.intLikeToI64 with
  | some left, some right => some (left, right)
  | _, _ => none

/-- `bigint_to_value`: a small integer where it fits. -/
def bigintToValue (value : BigInt) : IntValue :=
  match h : value.toI64 with
  | some number => int number
  | none => bigInt value h

/-- A fast path on two `i64` that gives nothing when it overflows, and the operation of big integers
that takes its place. -/
def arithmeticValues (fast : ℤ → ℤ → ℤ) (slow : BigInt → BigInt → Option BigInt)
    (left right : IntValue) : KernelResult IntValue :=
  match integerI64Pair left right with
  | some (left, right) =>
    match checkedInt64 (fast left.toInt right.toInt) with
    | some result => .ok (int result)
    | none => return bigintToValue (← unchecked (slow (BigInt.fromI64 left) (BigInt.fromI64 right)))
  | none => return bigintToValue (← unchecked (slow left.intLikeToBigint right.intLikeToBigint))

/-! ## Arithmetic -/

def addValues : IntValue → IntValue → KernelResult IntValue :=
  arithmeticValues (· + ·) BigInt.add

def subValues : IntValue → IntValue → KernelResult IntValue :=
  arithmeticValues (· - ·) BigInt.sub

def mulValues : IntValue → IntValue → KernelResult IntValue :=
  arithmeticValues (· * ·) BigInt.mul

def floorDivValues (left right : IntValue) : KernelResult IntValue :=
  match integerI64Pair left right with
  | some (left, right) => return int (← pythonFloorDiv left right)
  | none => do
    match ← unchecked (left.intLikeToBigint.divModFloor right.intLikeToBigint) with
    | some (quotient, _) => return bigintToValue quotient
    | none => .error (.zeroDivisionError "division by zero")

def modValues (left right : IntValue) : KernelResult IntValue :=
  match integerI64Pair left right with
  | some (left, right) => return int (← pythonMod left right)
  | none => do
    match ← unchecked (left.intLikeToBigint.divModFloor right.intLikeToBigint) with
    | some (_, remainder) => return bigintToValue remainder
    | none => .error (.zeroDivisionError "modulo by zero")

/-- The number of bits to shift by. -/
def shiftCount (right : BigInt) : KernelResult ℕ :=
  if right.isNegative then .error (.valueError "negative shift count")
  else
    match right.toI64 with
    | none => .error (.overflowError "shift count too large")
    | some shift =>
      if shift.toInt < 0 then .error (.overflowError "shift count too large")
      else .ok shift.toInt.toNat

def lshiftValues (left right : IntValue) : KernelResult IntValue := do
  let shift ← shiftCount right.intLikeToBigint
  return bigintToValue (left.intLikeToBigint.shlBits shift)

def rshiftValues (left right : IntValue) : KernelResult IntValue := do
  let shift ← shiftCount right.intLikeToBigint
  return bigintToValue (← unchecked (left.intLikeToBigint.shrBitsArithmetic shift))

/-! ## Bits -/

/-- Two flags stay a flag. -/
def bitwiseValues (flags : Bool → Bool → Bool) (bits : BigInt → BigInt → Option BigInt) :
    IntValue → IntValue → KernelResult IntValue
  | bool left, bool right => .ok (bool (flags left right))
  | left, right => return bigintToValue (← unchecked (bits left.intLikeToBigint right.intLikeToBigint))

def andValues : IntValue → IntValue → KernelResult IntValue :=
  bitwiseValues (· && ·) BigInt.bitand

def orValues : IntValue → IntValue → KernelResult IntValue :=
  bitwiseValues (· || ·) BigInt.bitor

def xorValues : IntValue → IntValue → KernelResult IntValue :=
  bitwiseValues (· ^^ ·) BigInt.bitxor

/-! ## Unary operators -/

def negValue : IntValue → KernelResult IntValue
  | int number =>
    match checkedInt64 (-number.toInt) with
    | some number => .ok (int number)
    | none => .error (.overflowError "integer overflow")
  | bigInt number _ => .ok (bigintToValue number.negated)
  | bool flag => .ok (int (if flag then -1 else 0))

def posValue : IntValue → KernelResult IntValue
  | int number => .ok (int number)
  | bigInt number _ => .ok (bigintToValue number)
  | bool flag => .ok (int (if flag then 1 else 0))

def invertValue (value : IntValue) : KernelResult IntValue := do
  return bigintToValue (← unchecked value.intLikeToBigint.bitnot)

/-! ## Order -/

def compareOrder (left right : IntValue) : Ordering :=
  match integerI64Pair left right with
  | some (left, right) => compare left.toInt right.toInt
  | none => left.intLikeToBigint.cmpTotal right.intLikeToBigint

end IntValue

end Pyrs
