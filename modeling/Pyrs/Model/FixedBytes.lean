import Pyrs.Model.BigIntBytes

/-!
# Big integers in a fixed number of bytes

`bigint_from_bytes` and `bigint_to_fixed_bytes` of `vm/mod.rs`, behind `int.from_bytes` and
`int.to_bytes`.  There is no result where a machine integer overflows; the error of a conversion is
its text.
-/

namespace Pyrs

/-- The value with one byte more at its low end. -/
def pushByte (value : BigInt) (byte : UInt8) : Option BigInt := do
  let value ← value.mulSmall 256
  value.addSmall byte.toUInt32

def bigintFromBytes (bytes : List UInt8) (littleEndian signed : Bool) : Option BigInt :=
  if bytes.isEmpty then some BigInt.zero
  else do
    let value ← (if littleEndian then bytes.reverse else bytes).foldlM pushByte BigInt.zero
    let signBitSet :=
      (if littleEndian then bytes.getLast? else bytes.head?).any fun byte => byte &&& 0x80 != 0
    if signed && signBitSet then
      let bits ← checkedU64 (bytes.length * 8)
      value.sub (BigInt.one.shlBits bits)
    else return value

/-- `Vec::resize` with zeros. -/
def resize (length : ℕ) (bytes : List UInt8) : List UInt8 :=
  bytes.take length ++ List.replicate (length - bytes.length) 0

/-- The value that the bytes stand for without a sign, when it is in range. -/
def unsignedValue (value : BigInt) (bits : ℕ) (signed : Bool) : Option (Except String BigInt) :=
  if signed then do
    let signedLimit := BigInt.one.shlBits (bits - 1)
    let signedMin := signedLimit.negated
    let signedMax ← signedLimit.sub BigInt.one
    if value.cmpTotal signedMin = .lt ∨ value.cmpTotal signedMax = .gt then
      return .error "int too big to convert"
    else if value.isNegative then
      return .ok (← (BigInt.one.shlBits bits).add value)
    else return .ok value
  else if value.isNegative then some (.error "can't convert negative int to unsigned")
  else some (.ok value)

def bigintToFixedBytes (value : BigInt) (length : ℕ) (littleEndian signed : Bool) :
    Option (Except String (List UInt8)) :=
  if length = 0 then
    if value.isZero then some (.ok []) else some (.error "int too big to convert")
  else match checkedU64 (length * 8) with
    | none => some (.error "int too big to convert")
    | some bits => (unsignedValue value bits signed).map fun result => do
      let bytes := (← result).toAbsLeBytes
      if bytes.length > length then .error "int too big to convert"
      else
        let bytes := resize length bytes
        return if littleEndian then bytes else bytes.reverse

end Pyrs
