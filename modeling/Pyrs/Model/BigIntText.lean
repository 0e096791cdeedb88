import Pyrs.Model.BigInts

/-!
# The digits of big integers

`runtime/bigint.rs`: the text of a big integer in a base, the decimal one of `Display`, which is
made of chunks of nine digits, and the integer of a text.
-/

namespace Pyrs

/-- `char::from_digit` -/
def fromDigit (digit radix : ℕ) : Option Char :=
  if digit < radix then
    some (if digit < 10 then Char.ofNat ('0'.toNat + digit) else Char.ofNat ('a'.toNat + (digit - 10)))
  else none

/-- `char::to_digit`: the digits are ASCII, and the case of a letter does not matter. -/
def toDigit (ch : Char) (radix : ℕ) : Option ℕ :=
  Option.filter (· < radix)
    (if '0' ≤ ch ∧ ch ≤ '9' then some (ch.toNat - '0'.toNat)
    else if 'a' ≤ ch ∧ ch ≤ 'z' then some (ch.toNat - 'a'.toNat + 10)
    else if 'A' ≤ ch ∧ ch ≤ 'Z' then some (ch.toNat - 'A'.toNat + 10)
    else none)

namespace BigInt

variable (a : BigInt)

/-- The loop of `div_mod_small_positive`, which begins at the last limb. -/
def divModSmallLoop (divisor : UInt32) : List UInt32 → List UInt32 × ℕ
  | [] => ([], 0)
  | limb :: limbs =>
    let (quotient, rem) := divModSmallLoop divisor limbs
    let value := rem <<< 32 % 2 ^ 64 ||| limb.toNat
    (asU32 (value / divisor.toNat) :: quotient, value % divisor.toNat)

def divModSmallPositive (divisor : UInt32) : BigInt × UInt32 :=
  if a.isZero then (zero, 0)
  else
    let (quotient, rem) := divModSmallLoop divisor a.limbs
    (fromParts 1 quotient, asU32 rem)

/-- The remainders of a loop that divides until nothing is left, the first one in front; nothing
comes of a loop that takes more rounds than it may. -/
def remainders (divisor : UInt32) : ℕ → BigInt → Option (List UInt32)
  | 0, _ => none
  | rounds + 1, value =>
    if value.isZero then some []
    else
      let (quotient, rem) := value.divModSmallPositive divisor
      (remainders divisor rounds quotient).map (rem :: ·)

/-- The inner `none` is that of the source, for a base that has no digits.  A value has no more
digits than bits. -/
def toStrRadix (radix : UInt32) : Option (Option String) :=
  if ¬(2 ≤ radix ∧ radix ≤ 36) then some none
  else if a.isZero then some (some "0")
  else do
    let digits ← remainders radix (a.bitLength + 1) a.abs
    return do
      let chars ← digits.mapM fun rem => fromDigit rem.toNat radix.toNat
      return String.ofList (if a.sign = -1 then chars ++ ['-'] else chars).reverse

/-- The format `09`. -/
def chunkDigits (chunk : UInt32) : List Char :=
  let digits := Nat.toDigits 10 chunk.toNat
  List.replicate (9 - digits.length) '0' ++ digits

/-- The chunks are written from the last one on. -/
def joinChunks : List UInt32 → List Char
  | [] => []
  | last :: chunks => Nat.toDigits 10 last.toNat ++ chunks.flatMap chunkDigits

/-- `Display` -/
def display : Option String :=
  if a.isZero then some "0"
  else do
    let chunks ← remainders 1000000000 (a.bitLength + 1) a.abs
    let digits := joinChunks chunks.reverse
    return String.ofList (if a.sign = -1 then '-' :: digits else digits)

/-- The loop of `from_str_radix`.  The inner `none` is that of the source, for a character that is
no digit. -/
def fromStrRadixLoop (radix : UInt32) : List Char → BigInt → Option (Option BigInt)
  | [], out => some (some out)
  | ch :: rest, out =>
    match toDigit ch radix.toNat with
    | none => some none
    | some digit => do
      let out ← out.mulSmall radix
      let out ← out.addSmall (asU32 digit)
      fromStrRadixLoop radix rest out

def fromStrRadix (text : String) (radix : UInt32) : Option (Option BigInt) :=
  if ¬(2 ≤ radix ∧ radix ≤ 36) then some none
  else if text = "" then some none
  else fromStrRadixLoop radix text.toList zero

end BigInt

end Pyrs
