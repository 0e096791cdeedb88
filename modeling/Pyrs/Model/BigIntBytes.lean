import Pyrs.Library.Decoding
import Pyrs.Model.BigInts

/-!
# The bytes of big integers

`vm_extensions/cpython_bigint_runtime.rs`: the two's complement of a big integer in a number of bytes,
the lowest first, and back.  As in the other operations, there is no result where a machine integer
overflows.
-/

namespace Pyrs

namespace BigInt

/-- `to_abs_le_bytes` -/
def toAbsLeBytes (a : BigInt) : List UInt8 :=
  if a.isZero then [0]
  else
    let out := (a.limbs.flatMap fun limb => Decoding.leBytes 4 limb.toNat).rdropWhile (· == 0)
    if out = [] then [0] else out

end BigInt

def cpythonBigintIsPowerOfTwo (value : BigInt) : Option Bool := do
  if value.isZero || value.isNegative then return false
  else
    let minusOne ← value.sub BigInt.one
    return (← value.bitand minusOne).isZero

def cpythonBigintToUnsignedLeBytes (value : BigInt) : List UInt8 := value.abs.toAbsLeBytes

/-- As many bytes as fit, copied to the front of a buffer of zeros. -/
def copyFromSlice (nBytes : ℕ) (raw : List UInt8) : List UInt8 :=
  raw.take nBytes ++ List.replicate (nBytes - raw.length) 0

/-- The loop adds a carry, and stops where there is none. -/
def addCarry : List UInt8 → ℕ → List UInt8
  | [], _ => []
  | byte :: bytes, carry =>
    let sum := byte.toNat + carry
    UInt8.ofNat sum :: if sum >>> 8 = 0 then bytes else addCarry bytes (sum >>> 8)

/-- All bits are turned over, and one is added. -/
def negateBytes (bytes : List UInt8) : List UInt8 := addCarry (bytes.map fun byte => ~~~byte) 1

def cpythonBigintToTwosComplementLe (value : BigInt) (nBytes : ℕ) : List UInt8 :=
  let out := copyFromSlice nBytes (cpythonBigintToUnsignedLeBytes value)
  if nBytes = 0 then [] else if !value.isNegative then out else negateBytes out

def cpythonBigintFromUnsignedLeBytes (bytes : List UInt8) : Option BigInt :=
  bytes.reverse.foldlM (fun out byte => do
    let out ← out.mulSmall 256
    out.addSmall byte.toUInt32) BigInt.zero

def cpythonBigintFromTwosComplementLe (bytes : List UInt8) (signed : Bool) : Option BigInt :=
  match bytes.getLast? with
  | none => some BigInt.zero
  | some last =>
    if !signed then cpythonBigintFromUnsignedLeBytes bytes
    else if last &&& 0x80 = 0 then cpythonBigintFromUnsignedLeBytes bytes
    else (cpythonBigintFromUnsignedLeBytes (negateBytes bytes)).map BigInt.negated

def divCeil (bits width : ℕ) : ℕ := (bits + width - 1) / width

def cpythonRequiredSignedBytesForBigint (value : BigInt) : Option ℕ := do
  if value.isZero then return 1
  else if !value.isNegative then return max (divCeil (value.bitLength + 1) 8) 1
  else
    let bits := value.abs.bitLength
    if ← cpythonBigintIsPowerOfTwo value.abs then return max (divCeil bits 8) 1
    else return max (divCeil (bits + 1) 8) 1

end Pyrs
