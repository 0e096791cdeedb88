import Mathlib.Data.List.DropRight
import Mathlib.Data.Nat.Size
import Mathlib.Data.Sign.Basic

/-!
# Big integers

`runtime/bigint.rs`: a sign and the limbs of the magnitude, the lowest first.  The last limb is not
zero, and the sign is zero where there are no limbs; both are fields, so that every `BigInt` is
canonical.  The `u64` and the `i64` of the loops are numbers whose operations give nothing when they
overflow.
-/

namespace Pyrs

/-! ## Machine integers -/

/-- An addition or a multiplication of `u64`, which overflows. -/
def checkedU64 (value : ℕ) : Option ℕ := if value < 2 ^ 64 then some value else none

/-- A computation in `i64`, which overflows. -/
def checkedI64 (value : ℤ) : Option ℤ :=
  if -2 ^ 63 ≤ value ∧ value < 2 ^ 63 then some value else none

/-- `as u32` -/
def asU32 (value : ℕ) : UInt32 := UInt32.ofNat value

/-- A sign and limbs from the lowest one, without zeros in front. -/
structure BigInt where
  sign : SignType
  limbs : List UInt32
  trimmed : ∀ h : limbs ≠ [], limbs.getLast h ≠ 0
  sign_eq_zero_iff : sign = 0 ↔ limbs = []
deriving DecidableEq

namespace BigInt

/-! ## Constructors -/

def zero : BigInt := ⟨0, [], fun h => absurd rfl h, by simp⟩

/-- Leading zeros are dropped. -/
def trim (limbs : List UInt32) : List UInt32 := limbs.rdropWhile (· == 0)

lemma trim_getLast (limbs : List UInt32) (h : trim limbs ≠ []) : (trim limbs).getLast h ≠ 0 := by
  have := List.rdropWhile_last_not (· == (0 : UInt32)) limbs h
  simpa [trim] using this

/-- The sign and the limbs, trimmed. -/
def fromParts (sign : SignType) (limbs : List UInt32) : BigInt :=
  if h : trim limbs = [] then zero
  else ⟨if sign = -1 then -1 else 1, trim limbs, trim_getLast limbs, by
    split <;> simp [h]⟩

/-- The limbs of a magnitude. -/
def magnitudeLimbs (magnitude : ℕ) : List UInt32 :=
  if magnitude = 0 then []
  else asU32 magnitude :: magnitudeLimbs (magnitude >>> 32)
termination_by magnitude
decreasing_by
  rw [Nat.shiftRight_eq_div_pow]
  omega

lemma magnitudeLimbs_getLast (magnitude : ℕ) (h : magnitudeLimbs magnitude ≠ []) :
    (magnitudeLimbs magnitude).getLast h ≠ 0 := by
  induction magnitude using magnitudeLimbs.induct with
  | case1 => simp [magnitudeLimbs] at h
  | case2 magnitude hne ih =>
    have hlimbs : magnitudeLimbs magnitude =
        asU32 magnitude :: magnitudeLimbs (magnitude >>> 32) := by
      rw [magnitudeLimbs, if_neg hne]
    by_cases hrest : magnitudeLimbs (magnitude >>> 32) = []
    · have hsmall : magnitude >>> 32 = 0 := by
        by_contra hlarge
        rw [magnitudeLimbs, if_neg hlarge] at hrest
        cases hrest
      rw [Nat.shiftRight_eq_div_pow] at hsmall
      simp only [hlimbs, hrest, List.getLast_singleton, asU32]
      intro hzero
      have := congrArg UInt32.toNat hzero
      rw [UInt32.toNat_ofNat'] at this
      have hzero : (0 : UInt32).toNat = 0 := rfl
      omega
    · simp only [hlimbs, List.getLast_cons hrest]
      exact ih hrest

lemma magnitudeLimbs_eq_nil {magnitude : ℕ} : magnitudeLimbs magnitude = [] ↔ magnitude = 0 := by
  constructor
  · intro h
    by_contra hne
    rw [magnitudeLimbs, if_neg hne] at h
    cases h
  · rintro rfl
    rw [magnitudeLimbs, if_pos rfl]

def fromU64 (value : UInt64) : BigInt :=
  if h : value.toNat = 0 then zero
  else ⟨1, magnitudeLimbs value.toNat, magnitudeLimbs_getLast _, by simp [magnitudeLimbs_eq_nil, h]⟩

def fromI64 (value : Int64) : BigInt :=
  if h : value.toInt = 0 then zero
  else ⟨if value.toInt < 0 then -1 else 1, magnitudeLimbs value.toInt.natAbs,
    magnitudeLimbs_getLast _, by split <;> simp [magnitudeLimbs_eq_nil, h]⟩

def one : BigInt := fromI64 1

/-! ## Parts -/

variable (a b : BigInt)

def isZero : Bool := a.sign == 0

def isNegative : Bool := a.sign == -1

def negated : BigInt := if a.isZero then a else ⟨-a.sign, a.limbs, a.trimmed, by
  rw [← a.sign_eq_zero_iff]
  cases a.sign <;> decide⟩

def abs : BigInt := if a.isNegative then a.negated else a

/-- The bits of a limb without leading zeros. -/
def limbBits (limb : UInt32) : ℕ := limb.toNat.size

/-- `bit_length` of the magnitude. -/
def bitLength : ℕ :=
  match a.limbs.getLast? with
  | some last => (a.limbs.length - 1) * 32 + limbBits last
  | none => 0

/-- `to_i64`, where it fits. -/
def toI64 : Option Int64 :=
  if a.isZero then some 0
  else if 2 < a.limbs.length then none
  else
    let low := ((a.limbs[0]?).getD 0).toNat
    let high := ((a.limbs[1]?).getD 0).toNat
    let magnitude := low ||| high <<< 32
    if a.sign = 1 then
      if magnitude ≤ 2 ^ 63 - 1 then some (Int64.ofNat magnitude) else none
    else if magnitude = 2 ^ 63 then some Int64.minValue
    else if magnitude < 2 ^ 63 then some (-Int64.ofNat magnitude)
    else none

/-! ## Magnitudes -/

/-- The loop of `abs_add`, with the rounds that are left. -/
def absAddLoop : ℕ → List UInt32 → List UInt32 → ℕ → Option (List UInt32)
  | 0, _, _, carry => some (if carry ≠ 0 then [asU32 carry] else [])
  | rounds + 1, left, right, carry => do
    let sum ← checkedU64 ((left.head?.getD 0).toNat + (right.head?.getD 0).toNat)
    let sum ← checkedU64 (sum + carry)
    return asU32 sum :: (← absAddLoop rounds left.tail right.tail (sum >>> 32))

def absAdd (left right : List UInt32) : Option (List UInt32) :=
  absAddLoop (max left.length right.length) left right 0

/-- The loop of `abs_sub`. -/
def absSubLoop : List UInt32 → List UInt32 → ℤ → Option (List UInt32)
  | [], _, _ => some []
  | lhs :: left, right, borrow => do
    let diff ← checkedI64 (lhs.toNat - (right.head?.getD 0).toNat)
    let diff ← checkedI64 (diff - borrow)
    if diff < 0 then
      let diff ← checkedI64 (diff + 2 ^ 32)
      return asU32 diff.toNat :: (← absSubLoop left right.tail 1)
    else return asU32 diff.toNat :: (← absSubLoop left right.tail 0)

/-- `abs_sub`, for a left side that is not smaller. -/
def absSub (left right : List UInt32) : Option (List UInt32) := absSubLoop left right 0

/-- The limbs are compared from the last one on. -/
def absCmpLimbs (left right : List UInt32) : Ordering :=
  if left.length ≠ right.length then compare left.length right.length
  else
    match (left.reverse.zip right.reverse).find? fun pair => pair.1 != pair.2 with
    | some pair => compare pair.1.toNat pair.2.toNat
    | none => .eq

/-! ## Sums and products -/

/-- `sub`: by the signs, with the larger magnitude on the left. -/
def sub : Option BigInt :=
  match a.sign, b.sign with
  | _, .zero => some a
  | .zero, _ => some b.negated
  | .pos, .neg => (absAdd a.limbs b.limbs).map (fromParts 1)
  | .neg, .pos => (absAdd a.limbs b.limbs).map (fromParts (-1))
  | .pos, .pos =>
    match absCmpLimbs a.limbs b.limbs with
    | .gt => (absSub a.limbs b.limbs).map (fromParts 1)
    | .lt => (absSub b.limbs a.limbs).map (fromParts (-1))
    | .eq => some zero
  | .neg, .neg =>
    match absCmpLimbs a.limbs b.limbs with
    | .gt => (absSub a.limbs b.limbs).map (fromParts (-1))
    | .lt => (absSub b.limbs a.limbs).map (fromParts 1)
    | .eq => some zero

/-- `add`: by the signs, with the larger magnitude on the left. -/
def add : Option BigInt :=
  match a.sign, b.sign with
  | .zero, _ => some b
  | _, .zero => some a
  | .pos, .pos => (absAdd a.limbs b.limbs).map (fromParts 1)
  | .neg, .neg => (absAdd a.limbs b.limbs).map (fromParts (-1))
  | .pos, .neg => a.sub b.negated
  | .neg, .pos => b.sub a.negated

/-- The inner loop of `mul`, on the limbs of the product from the row on. -/
def mulRow (left : UInt32) : List UInt32 → List UInt32 → ℕ → Option (List UInt32)
  | [], out, carry =>
    if carry ≠ 0 then
      match out with
      | [] => none
      | _ :: out => some (asU32 carry :: out)
    else some out
  | _ :: _, [], _ => none
  | right :: rights, cell :: out, carry => do
    let product ← checkedU64 (left.toNat * right.toNat)
    let sum ← checkedU64 (cell.toNat + product)
    let sum ← checkedU64 (sum + carry)
    return asU32 sum :: (← mulRow left rights out (sum >>> 32))

/-- The outer loop of `mul`; behind a row its first limb is done. -/
def mulRows : List UInt32 → List UInt32 → List UInt32 → Option (List UInt32)
  | [], _, out => some out
  | left :: lefts, rights, out => do
    match ← mulRow left rights out 0 with
    | [] => none
    | cell :: out => return cell :: (← mulRows lefts rights out)

/-- `mul`: each limb of one factor times the other. -/
def mul : Option BigInt :=
  if a.isZero || b.isZero then some zero
  else
    (mulRows a.limbs b.limbs (List.replicate (a.limbs.length + b.limbs.length) 0)).map
      (fromParts (if a.sign = b.sign then 1 else -1))

/-- The loop of `pow_u64`. -/
def powLoop (base out : BigInt) (exponent : ℕ) : Option BigInt :=
  if exponent = 0 then some out
  else do
    let out ← (if exponent % 2 = 1 then out.mul base else some out)
    let base ← (if exponent >>> 1 ≠ 0 then base.mul base else some base)
    powLoop base out (exponent >>> 1)
termination_by exponent
decreasing_by
  rw [Nat.shiftRight_eq_div_pow]
  omega

/-- `pow_u64`, by squaring. -/
def powU64 (exponent : ℕ) : Option BigInt := powLoop a one exponent

/-- The loop of `mul_small`. -/
def mulSmallLoop (small : UInt32) : List UInt32 → ℕ → Option (List UInt32)
  | [], carry => some (if carry ≠ 0 then [asU32 carry] else [])
  | limb :: limbs, carry => do
    let value ← checkedU64 (limb.toNat * small.toNat)
    let value ← checkedU64 (value + carry)
    return asU32 value :: (← mulSmallLoop small limbs (value >>> 32))

def mulSmall (small : UInt32) : Option BigInt :=
  if a.isZero || small == 0 then some zero
  else if small = 1 then some a
  else (mulSmallLoop small a.limbs 0).map (fromParts a.sign)

/-- The loop of `add_small`. -/
def addSmallLoop : List UInt32 → ℕ → Option (List UInt32)
  | [], carry => some (if carry ≠ 0 then [asU32 carry] else [])
  | limb :: limbs, carry =>
    if carry = 0 then some (limb :: limbs)
    else do
      let sum ← checkedU64 (limb.toNat + carry)
      return asU32 sum :: (← addSmallLoop limbs (sum >>> 32))

def addSmall (small : UInt32) : Option BigInt :=
  if small = 0 then some a
  else if a.isZero then some (fromU64 small.toUInt64)
  else if a.isNegative then a.add (fromU64 small.toUInt64)
  else (addSmallLoop a.limbs small.toNat).map (fromParts 1)

/-- `cmp_total`: the signs first, then the magnitudes. -/
def cmpTotal : Ordering :=
  if a.sign < b.sign then .lt
  else if b.sign < a.sign then .gt
  else
    match a.sign, b.sign with
    | .zero, .zero => .eq
    | .pos, .pos => absCmpLimbs a.limbs b.limbs
    | .neg, .neg => absCmpLimbs b.limbs a.limbs
    | _, _ => .eq

/-! ## Shifts -/

/-- The loop of `shl_bits`; the limb behind the last one takes the carry. -/
def shlLoop (bitShift : ℕ) : List UInt32 → ℕ → List UInt32
  | [], carry => [asU32 carry]
  | limb :: limbs, carry =>
    let shifted := (limb.toNat <<< bitShift) % 2 ^ 64 ||| carry
    asU32 shifted :: shlLoop bitShift limbs (shifted >>> 32)

def shlBits (bits : ℕ) : BigInt :=
  if a.isZero then zero
  else if bits = 0 then a
  else fromParts a.sign (List.replicate (bits / 32) 0 ++ shlLoop (bits % 32) a.limbs 0)

/-- The loop of `abs_shr_bits`, from the last limb down. -/
def shrLoop (bitShift : ℕ) : List UInt32 → UInt32 → List UInt32
  | [], _ => []
  | limb :: limbs, carry =>
    (limb >>> UInt32.ofNat bitShift ||| carry <<< UInt32.ofNat (32 - bitShift)) ::
      shrLoop bitShift limbs limb

def absShrBits (bits : ℕ) : BigInt :=
  if a.isZero then zero
  else if a.limbs.length ≤ bits / 32 then zero
  else
    let limbs := a.limbs.drop (bits / 32)
    fromParts 1 (if bits % 32 = 0 then limbs else (shrLoop (bits % 32) limbs.reverse 0).reverse)

/-- Whether a shift drops a bit that is set. -/
def absHasLowBits (bits : ℕ) : Bool :=
  if bits = 0 then false
  else if (a.limbs.take (bits / 32)).any (· != 0) then true
  else
    match a.limbs[bits / 32]? with
    | some limb =>
      bits % 32 != 0 && limb &&& ((1 : UInt32) <<< UInt32.ofNat (bits % 32) - 1) != 0
    | none => false

/-- `shr_bits_arithmetic`: rounded down, also below zero. -/
def shrBitsArithmetic (bits : ℕ) : Option BigInt :=
  if a.isZero then some zero
  else if bits = 0 then some a
  else if a.sign = 1 then some (a.absShrBits bits)
  else
    let quotient := a.abs.absShrBits bits
    if a.abs.absHasLowBits bits then (quotient.add one).map negated else some quotient.negated

/-! ## Bits -/

/-- Add one, with a carry that stops the loop. -/
def incrementLoop : List UInt32 → ℕ → Option (List UInt32)
  | [], _ => some []
  | value :: values, carry =>
    if carry = 0 then some (value :: values)
    else do
      let sum ← checkedU64 (value.toNat + carry)
      return asU32 sum :: (← incrementLoop values (sum >>> 32))

/-- The two's complement in a number of words. -/
def twosComplementWords (words : ℕ) : Option (List UInt32) :=
  let out := a.limbs.take words ++ List.replicate (words - a.limbs.length) 0
  if a.sign ≠ -1 then some out else incrementLoop (out.map fun value => ~~~value) 1

/-- Subtract one, with a borrow that stops the loop. -/
def decrementLoop : List UInt32 → ℕ → List UInt32
  | [], _ => []
  | value :: values, borrow =>
    if borrow = 0 then value :: values
    else if borrow ≤ value.toNat then asU32 (value.toNat - borrow) :: decrementLoop values 0
    else asU32 (2 ^ 32 + value.toNat - borrow) :: decrementLoop values 1

/-- The integer of a two's complement. -/
def fromTwosComplementWords (words : List UInt32) : BigInt :=
  match words.getLast? with
  | none => zero
  | some last =>
    if last &&& 0x80000000 ≠ 0 then
      fromParts (-1) ((decrementLoop words 1).map fun value => ~~~value)
    else fromParts 1 words

/-- `bitwise_op`, on words that hold both numbers with their sign. -/
def bitwiseOp (op : UInt32 → UInt32 → UInt32) : Option BigInt := do
  let words := (max a.bitLength b.bitLength + 2 + 31) / 32
  let left ← a.twosComplementWords words
  let right ← b.twosComplementWords words
  return fromTwosComplementWords (List.zipWith op left right)

def bitand : Option BigInt := a.bitwiseOp b (· &&& ·)

def bitor : Option BigInt := a.bitwiseOp b (· ||| ·)

def bitxor : Option BigInt := a.bitwiseOp b (· ^^^ ·)

/-- `bitnot`: `-a - 1`. -/
def bitnot : Option BigInt := a.negated.sub one

/-! ## Division -/

/-- The loop of `abs_div_mod_positive`, with the rounds that it may take; nothing comes of a loop
that takes more. -/
def divLoop (divisor : BigInt) : ℕ → BigInt → BigInt → Option (BigInt × BigInt)
  | 0, _, _ => none
  | rounds + 1, remainder, quotient =>
    if remainder.cmpTotal divisor = .lt then some (quotient, remainder)
    else
      let shift := remainder.bitLength - divisor.bitLength
      let shifted := divisor.shlBits shift
      if shifted.cmpTotal remainder = .gt then
        if shift = 0 then some (quotient, remainder)
        else do
          let remainder ← remainder.sub (divisor.shlBits (shift - 1))
          let quotient ← quotient.add (one.shlBits (shift - 1))
          divLoop divisor rounds remainder quotient
      else do
        let remainder ← remainder.sub shifted
        let quotient ← quotient.add (one.shlBits shift)
        divLoop divisor rounds remainder quotient

/-- `abs_div_mod_positive`, with a round for every bit and one more. -/
def absDivModPositive (divisor : BigInt) : Option (BigInt × BigInt) :=
  if a.isZero then some (zero, zero)
  else if a.abs.cmpTotal divisor.abs = .lt then some (zero, a.abs)
  else divLoop divisor.abs (a.bitLength + 1) a.abs zero

/-- The inner `none` is that of the source, for a divisor that is zero. -/
def divModFloor (divisor : BigInt) : Option (Option (BigInt × BigInt)) :=
  if divisor.isZero then some none
  else if a.isZero then some (some (zero, zero))
  else do
    let (absQuotient, absRemainder) ← a.absDivModPositive divisor.abs
    let quotient := if a.sign = divisor.sign then absQuotient else absQuotient.negated
    let remainder := if a.isNegative then absRemainder.negated else absRemainder
    if !remainder.isZero && a.sign != divisor.sign then
      return some (← quotient.sub one, ← remainder.add divisor)
    else return some (quotient, remainder)

end BigInt

end Pyrs
