import Pyrs.Model.NumericOrder
import Pyrs.Properties.IntegerOperators

/-!
# The order of an integer and a float

Both are compared as floats.  The conversion of the integer is faithful, for an `i64` as for the
limbs of a big integer, so that the order is wrong only where the integer is converted to the float
without being equal to it, and for zeros.
-/

namespace Pyrs

open Binary64

/-! ## Conversions -/

lemma foldr_faithful (limbs : List UInt32) :
    ∃ r, FaithfulNat (BigInt.magnitude limbs) r ∧
      limbs.foldr (fun limb value => (value.scaleNat (2 ^ 32)).addNat limb.toNat)
        (ofNat false 0) = ofNat false r := by
  induction limbs with
  | nil => exact ⟨0, ⟨⟨0, 0, by decide, rfl⟩, fun y _ => ⟨id, id⟩⟩, rfl⟩
  | cons limb limbs ih =>
    obtain ⟨r, hr, hfold⟩ := ih
    obtain ⟨r', hr', hstep⟩ := hr.step limb.toNat_lt
    refine ⟨r', ?_, by rw [List.foldr_cons, hfold, hstep]⟩
    rwa [BigInt.magnitude_cons, Nat.add_comm, Nat.mul_comm]

lemma withSign_pack (negative : Bool) {field : ℕ} (h : field < 2 ^ 63) :
    withSign negative (pack false field) = pack negative field := by
  cases negative with
  | false => rfl
  | true => exact neg_pack h

lemma BigInt.toF64_spec (a : BigInt) :
    ∃ r, FaithfulNat a.toInt.natAbs r ∧ a.toF64 = ofNat (decide (a.toInt < 0)) r := by
  rw [BigInt.toF64]
  split
  · next hzero =>
    rw [BigInt.isZero_iff.1 hzero]
    exact ⟨0, roundNat_faithful 0, rfl⟩
  · obtain ⟨r, hr, hfold⟩ := foldr_faithful a.limbs
    have hsign : (a.sign == -1) = decide (a.toInt < 0) := by
      rw [Bool.eq_iff_iff, beq_iff_eq, ← BigInt.sign_toInt, sign_eq_neg_one_iff, decide_eq_true_eq]
    refine ⟨r, by rwa [BigInt.natAbs_toInt], ?_⟩
    rw [hfold, ofNat_eq_pack, withSign_pack _ (hr.faithful.1.trans_lt (by decide)), hsign,
      ← ofNat_eq_pack]

/-- The float that an integer is compared as. -/
def IntValue.converted : IntValue → Binary64
  | .bigInt value _ => value.toF64
  | value => numericAsF64 (numericValue (.int value))

lemma ofInt_spec (n : ℤ) :
    ∃ r, FaithfulNat n.natAbs r ∧ ofInt n = ofNat (decide (n < 0)) r :=
  ⟨_, roundNat_faithful _, by rw [ofInt, ofNat_eq_pack, ofNat_eq_pack, natField_roundNat]⟩

lemma IntValue.converted_spec (value : IntValue) :
    ∃ r, FaithfulNat value.toInt.natAbs r ∧
      value.converted = ofNat (decide (value.toInt < 0)) r := by
  cases value with
  | bool flag =>
    have hconverted : (IntValue.bool flag).converted = ofInt (IntValue.bool flag).toInt := by
      cases flag <;> rfl
    rw [hconverted]
    exact ofInt_spec _
  | int number => exact ofInt_spec number.toInt
  | bigInt number large => exact number.toF64_spec

lemma compareOrder_int_float (value : IntValue) (x : Binary64) :
    compareOrder (.int value) (.float x) = value.converted.totalCmp x := by
  cases value <;> rfl

lemma compareOrder_float_int (value : IntValue) (x : Binary64) :
    compareOrder (.float x) (.int value) = x.totalCmp value.converted := by
  cases value <;> rfl

/-! ## The order -/

/-- **An integer and a float are ordered as numbers, but where the integer is converted to the
float without being equal to it, and for a zero and the negative zero.** -/
theorem compareOrder_int_float_iff (value : IntValue) {x : Binary64} (hx : x.isNaN = false) :
    (compareOrder (.int value) (.float x) = compareInt value.toInt x ∧
        compareOrder (.float x) (.int value) = (compareInt value.toInt x).swap) ↔
      (value.converted = x → compareInt value.toInt x = .eq) ∧
        ¬(value.toInt = 0 ∧ x = pack true 0) := by
  obtain ⟨r, hfaithful, hconverted⟩ := value.converted_spec
  have hiff := totalCmp_eq_iff hfaithful.faithful hx
  rw [← ofNat_eq_pack, ← hconverted] at hiff
  rw [compareOrder_int_float, compareOrder_float_int, totalCmp_swap x, Ordering.swap_inj, and_self,
    hiff]

theorem compareOrder_int_float_iff_half :
    compareOrder (.int (.int 1)) (.float ⟨0x3FE0000000000000⟩) =
        compareInt 1 ⟨0x3FE0000000000000⟩ ∧
      compareOrder (.float ⟨0x3FE0000000000000⟩) (.int (.int 1)) =
        (compareInt 1 ⟨0x3FE0000000000000⟩).swap :=
  (compareOrder_int_float_iff (.int 1) (by decide)).2
    ⟨fun h => absurd h (by decide +kernel), fun h => absurd h.1 (by decide)⟩

/-- The float is `2 ^ 53`; the integer is one more. -/
theorem compareOrder_roundedInteger :
    compareOrder (.int (.int 9007199254740993)) (.float ⟨0x4340000000000000⟩) = .eq ∧
      compareInt 9007199254740993 ⟨0x4340000000000000⟩ = .gt := by
  constructor <;> decide +kernel

end Pyrs
