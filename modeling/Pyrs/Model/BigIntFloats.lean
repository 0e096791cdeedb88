import Pyrs.Library.Binary64
import Pyrs.Model.BigInts

/-!
# Big integers and floats

`runtime/bigint.rs`: a big integer is converted limb by limb, and every step rounds.
-/

namespace Pyrs.BigInt

/-- `to_f64` -/
def toF64 (a : BigInt) : Binary64 :=
  if a.isZero then Binary64.ofNat false 0
  else
    Binary64.withSign (a.sign == -1)
      (a.limbs.foldr (fun limb value => (value.scaleNat (2 ^ 32)).addNat limb.toNat)
        (Binary64.ofNat false 0))

/-- `from_f64_integral` -/
def fromF64Integral (value : Binary64) : Option BigInt :=
  if !value.isFinite then none
  else if value.isZero then some zero
  else if !value.isIntegral then none
  else if value.exponent = 0 then some zero
  else
    let out := fromU64 (UInt64.ofNat (2 ^ 52 ||| value.fraction))
    let negate := fun out : BigInt => if value.sign then out.negated else out
    if 1075 ≤ value.exponent then some (negate (out.shlBits (value.exponent - 1075)))
    else if out.absHasLowBits (1075 - value.exponent) then none
    else some (negate (out.absShrBits (1075 - value.exponent)))

end Pyrs.BigInt
