import Pyrs.Library.Results
import Pyrs.Model.MathRounding
import Pyrs.Properties.NumericOrder

/-!
# Rounding to integers

Integers and the integral parts of floats against what `math.floor`, `math.ceil` and `math.trunc`
give.  The first two cast a float to an `i64`; the last one is exact.
-/

namespace Pyrs

open Binary64

/-! ## The cast -/

lemma exact_of_le {n : ℕ} (h : Representable n) (hle : n ≤ 2 ^ 63) : Exact n := by
  refine ⟨h, ?_⟩
  rcases Nat.eq_zero_or_pos n with rfl | hpos
  · rw [Nat.log2_zero]
    omega
  · have hlog := (Nat.log2_lt hpos.ne').2 (hle.trans_lt (by decide : 2 ^ 63 < 2 ^ 64))
    omega

lemma representable_limit : Representable (2 ^ 63) := ⟨1, 63, by decide, by decide⟩

/-- The greatest `i64` is converted to the least number beyond. -/
lemma maxI64AsF64_eq : maxI64AsF64 = ofNat false (2 ^ 63) := rfl

lemma roundedToInt_ofNat {k : ℕ} (hk : Exact k) (sign : Bool) (n : ℤ) :
    IntValue.Gives (roundedToInt (ofNat sign k)) n ↔
      (-2 ^ 63 ≤ Binary64.signed sign k ∧ Binary64.signed sign k ≤ 2 ^ 63) ∧
        n = min (Binary64.signed sign k) (2 ^ 63 - 1) := by
  have hlimit := exact_of_le representable_limit le_rfl
  have hmin : minI64AsF64 = ofNat true (2 ^ 63) := rfl
  have hlow : Binary64.signed true (2 ^ 63) = -2 ^ 63 := by decide
  have hhigh : Binary64.signed false (2 ^ 63) = 2 ^ 63 := by decide
  rw [roundedToInt, hmin, maxI64AsF64_eq, lt_ofNat hk hlimit, lt_ofNat hlimit hk, hlow, hhigh,
    ← Bool.decide_or, asI64_ofNat hk]
  simp only [decide_eq_true_eq]
  split
  · next hout =>
    constructor
    · rintro ⟨v, hv, -⟩
      cases hv
    · rintro ⟨hin, -⟩
      omega
  · next hin =>
    have hbounds : -2 ^ 63 ≤ Binary64.signed sign k ∧ Binary64.signed sign k ≤ 2 ^ 63 := by omega
    have hvalue : (Int64.ofInt (max (-2 ^ 63) (min (Binary64.signed sign k) (2 ^ 63 - 1)))).toInt =
        min (Binary64.signed sign k) (2 ^ 63 - 1) := by
      rw [Int64.toInt_ofInt_of_le (by omega) (by omega)]
      omega
    rw [and_iff_right hbounds]
    constructor
    · rintro ⟨v, hv, hholds⟩
      obtain rfl := Except.ok.inj hv
      rw [IntValue.Holds, hvalue] at hholds
      exact hholds.symm
    · rintro rfl
      exact ⟨_, rfl, hvalue⟩

lemma roundedToInt_infinity (sign : Bool) :
    roundedToInt (pack sign infinityField) = .error (.overflowError "integer overflow") := by
  cases sign <;> decide +kernel

/-! ## Integral floats -/

lemma isFinite_ofNat {k : ℕ} (hk : Exact k) (sign : Bool) : (ofNat sign k).isFinite = true :=
  (ofNat_exact hk.1 hk.2 sign).1

lemma floor_ceil_ofNat {k : ℕ} (hk : Exact k) (sign : Bool) :
    (ofNat sign k).floorNat = k ∧ (ofNat sign k).ceilNat = k := by
  have hmagnitude := (ofNat_exact hk.1 hk.2 sign).2
  have hunit := Nat.two_pow_pos unitExponent
  refine ⟨integerValue_ofNat hk.1 hk.2 sign, Nat.le_antisymm (ceilNat_le_iff.2 hmagnitude.le) ?_⟩
  have hle := ceilNat_le_iff.1 (le_refl (ofNat sign k).ceilNat)
  rw [hmagnitude] at hle
  exact Nat.le_of_mul_le_mul_right hle hunit

lemma floor_ofNat {k : ℕ} (hk : Exact k) (sign : Bool) :
    (ofNat sign k).floor = ofNat sign k ∧ (ofNat sign k).ceil = ofNat sign k ∧
      (ofNat sign k).trunc = ofNat sign k := by
  obtain ⟨hfloor, hceil⟩ := floor_ceil_ofNat hk sign
  rw [floor, ceil, trunc, isFinite_ofNat hk, if_pos rfl, if_pos rfl, if_pos rfl, hfloor, hceil,
    sign_ofNat, ite_self]
  exact ⟨rfl, rfl, rfl⟩

lemma not_isFinite_infinity (sign : Bool) : (pack sign infinityField).isFinite = false := by
  cases sign <;> rfl

/-- An integral float is the big integer that it stands for. -/
lemma fromF64Integral_ofNat {k : ℕ} (hk : Exact k) (sign : Bool) :
    ∃ b, BigInt.fromF64Integral (ofNat sign k) = some b ∧ b.toInt = Binary64.signed sign k := by
  obtain ⟨hfinite, hmagnitude⟩ := ofNat_exact hk.1 hk.2 sign
  have hsign := sign_ofNat sign k
  set x := ofNat sign k
  have hfraction := x.fraction_lt
  have hpos := Nat.two_pow_pos unitExponent
  rw [BigInt.fromF64Integral, hfinite, if_neg (by decide)]
  rcases Nat.eq_zero_or_pos k with rfl | hkpos
  · have hzero : x.isZero = true := by
      have hfield : x.field = 0 := magnitude_eq_zero_iff.1 (by rw [hmagnitude, Nat.zero_mul])
      rw [Binary64.field] at hfield
      rw [isZero, Bool.and_eq_true, beq_iff_eq, beq_iff_eq]
      omega
    rw [if_pos hzero]
    refine ⟨BigInt.zero, rfl, ?_⟩
    rw [BigInt.zero_toInt, Binary64.signed]
    cases sign <;> rfl
  · have hlarge : 2 ^ unitExponent ≤ x.magnitude := by
      rw [hmagnitude]
      exact Nat.le_mul_of_pos_left _ hkpos
    have hexponent : x.exponent ≠ 0 := by
      intro hzero
      have hsmall : x.magnitude < 2 ^ 52 := by
        rw [magnitude, if_pos hzero]
        exact hfraction
      exact absurd (hlarge.trans_lt hsmall)
        (not_lt.2 (Nat.pow_le_pow_right (by decide) (by decide)))
    have hzero : x.isZero = false := by
      rw [isZero, beq_eq_false_iff_ne.2 hexponent, Bool.false_and]
    have hintegral : x.isIntegral = true := by
      rw [isIntegral, hmagnitude, Nat.mul_mod_left]
      rfl
    rw [hzero, hintegral, if_neg Bool.false_ne_true, if_neg (by decide), if_neg hexponent, hsign]
    rw [magnitude, if_neg hexponent] at hmagnitude
    have hword : 2 ^ 52 ||| x.fraction = 2 ^ 52 + x.fraction :=
      (Nat.two_pow_add_eq_or_of_lt hfraction 1).symm
    have hout : (UInt64.ofNat (2 ^ 52 ||| x.fraction)).toNat = 2 ^ 52 + x.fraction := by
      rw [hword, UInt64.toNat_ofNat_of_lt']
      exact lt_trans (b := 2 ^ 53) (by omega) (by decide)
    have houtInt := BigInt.fromU64_toInt (UInt64.ofNat (2 ^ 52 ||| x.fraction))
    rw [hout] at houtInt
    set out := BigInt.fromU64 (UInt64.ofNat (2 ^ 52 ||| x.fraction))
    set m := 2 ^ 52 + x.fraction
    have houtMagnitude : BigInt.magnitude out.limbs = m := by
      rw [← BigInt.natAbs_toInt, houtInt, Int.natAbs_natCast]
    have hnegate : ∀ b : BigInt, b.toInt = k →
        (if sign then b.negated else b).toInt = Binary64.signed sign k := by
      intro b hb
      rw [Binary64.signed]
      cases sign with
      | false => exact hb
      | true => rw [if_pos rfl, if_pos rfl, BigInt.negated_toInt, hb]
    by_cases hshift : 1075 ≤ x.exponent
    · rw [if_pos hshift]
      refine ⟨_, rfl, hnegate _ ?_⟩
      have hpow : 2 ^ (x.exponent - 1) = 2 ^ (x.exponent - 1075) * 2 ^ unitExponent := by
        rw [← pow_add]
        congr 1
        rw [unitExponent]
        omega
      rw [hpow, ← Nat.mul_assoc] at hmagnitude
      have hvalue := Nat.eq_of_mul_eq_mul_right hpos hmagnitude
      rw [BigInt.shlBits_toInt, houtInt]
      exact_mod_cast hvalue
    · rw [if_neg hshift]
      have hpow : 2 ^ unitExponent = 2 ^ (1075 - x.exponent) * 2 ^ (x.exponent - 1) := by
        rw [← pow_add]
        congr 1
        rw [unitExponent]
        omega
      rw [hpow, ← Nat.mul_assoc] at hmagnitude
      have hvalue : m = k * 2 ^ (1075 - x.exponent) :=
        Nat.eq_of_mul_eq_mul_right (Nat.two_pow_pos _) hmagnitude
      have hlow : out.absHasLowBits (1075 - x.exponent) = false := by
        rw [← Bool.not_eq_true, BigInt.absHasLowBits_iff, houtMagnitude, hvalue, Nat.mul_mod_left]
        exact fun h => h rfl
      rw [hlow, if_neg Bool.false_ne_true]
      refine ⟨_, rfl, hnegate _ ?_⟩
      rw [BigInt.absShrBits_toInt, houtMagnitude, hvalue,
        Nat.mul_div_cancel _ (Nat.two_pow_pos _)]

/-! ## Integers -/

def InI64 (n : ℤ) : Prop := -2 ^ 63 ≤ n ∧ n < 2 ^ 63

/-- The greatest `i64` is rounded up, and the cast takes it back. -/
lemma roundedToInt_max {value : IntValue} (h : value.toInt = 2 ^ 63 - 1) :
    IntValue.Gives (roundedToInt value.converted) value.toInt := by
  cases value with
  | bool flag => cases flag <;> cases h
  | int number =>
    have hconverted : (IntValue.int number).converted = maxI64AsF64 := congrArg ofInt h
    rw [hconverted, maxI64AsF64_eq, h]
    exact (roundedToInt_ofNat (exact_of_le representable_limit le_rfl) false _).2 (by decide)
  | bigInt number large =>
    have hout := (BigInt.toI64_spec number).2 large
    exact absurd (show -2 ^ 63 ≤ number.toInt ∧ number.toInt < 2 ^ 63 by
      change number.toInt = _ at h
      omega) hout

lemma roundedToInt_converted (value : IntValue) :
    IntValue.Gives (roundedToInt value.converted) value.toInt ↔
      InI64 value.toInt ∧ (Representable value.toInt.natAbs ∨ value.toInt = 2 ^ 63 - 1) := by
  obtain ⟨r, hr, hconverted⟩ := value.converted_spec
  have hsigned : ∀ k, Binary64.signed (decide (value.toInt < 0)) k =
      if value.toInt < 0 then -(k : ℤ) else k := fun k => by
    rw [Binary64.signed]
    simp only [decide_eq_true_eq]
  have hlimit : InI64 value.toInt → r ≤ 2 ^ 63 := fun hin =>
    (hr.2 _ representable_limit).2 (by rw [InI64] at hin; omega)
  rcases Nat.lt_or_ge r.log2 1024 with hlt | hge
  · rw [hconverted, roundedToInt_ofNat ⟨hr.1, hlt⟩, hsigned]
    constructor
    · rintro ⟨hbounds, hvalue⟩
      rw [InI64]
      split at hvalue
      · have habs : value.toInt.natAbs = r := by omega
        exact ⟨by omega, .inl (by rw [habs]; exact hr.1)⟩
      · rcases Nat.lt_or_ge r (2 ^ 63) with hsmall | hlarge
        · have habs : value.toInt.natAbs = r := by omega
          exact ⟨by omega, .inl (by rw [habs]; exact hr.1)⟩
        · exact ⟨by omega, .inr (by omega)⟩
    · rintro ⟨hin, hexact | hmax⟩
      · have heq := hr.eq hexact
        rw [InI64] at hin
        split <;> omega
      · have hgives := roundedToInt_max hmax
        rwa [hconverted, roundedToInt_ofNat ⟨hr.1, hlt⟩, hsigned] at hgives
  · rw [hconverted, ofNat_of_large hge, roundedToInt_infinity]
    constructor
    · rintro ⟨v, hv, -⟩
      cases hv
    · rintro ⟨hin, -⟩
      exact absurd (exact_of_le hr.1 (hlimit hin)).2 (not_lt.2 hge)

lemma floor_converted (value : IntValue) :
    value.converted.floor = value.converted ∧ value.converted.ceil = value.converted := by
  obtain ⟨r, hr, hconverted⟩ := value.converted_spec
  rw [hconverted]
  rcases Nat.lt_or_ge r.log2 1024 with hlt | hge
  · have hfloor := floor_ofNat ⟨hr.1, hlt⟩ (decide (value.toInt < 0))
    exact ⟨hfloor.1, hfloor.2.1⟩
  · have hfinite := not_isFinite_infinity (decide (value.toInt < 0))
    rw [ofNat_of_large hge, floor, ceil, hfinite, if_neg Bool.false_ne_true,
      if_neg Bool.false_ne_true]
    exact ⟨rfl, rfl⟩

lemma valueToF64_int (value : IntValue) : valueToF64 (.int value) = value.converted := by
  cases value with
  | bool flag => cases flag <;> rfl
  | int number => rfl
  | bigInt number large => rfl

/-! ## Floats -/

lemma roundedToInt_notFinite {x : Binary64} (hfinite : x.isFinite = false) :
    (∃ error, roundedToInt x = .error error) ↔ x.isNaN = false := by
  cases hnan : x.isNaN with
  | true =>
    rw [roundedToInt, lt, lt, hnan]
    simp
  | false =>
    have hx : pack x.sign infinityField = x := by
      rw [← field_of_not_isFinite hnan hfinite, pack_sign_field]
    rw [← hx, roundedToInt_infinity]
    exact ⟨fun _ => rfl, fun _ => ⟨_, rfl⟩⟩

/-! ## The functions -/

/-- The result is an integer in its canonical form, or an error where there is none. -/
def Rounds (result : KernelResult IntValue) : Option ℤ → Prop
  | some value => IntValue.Gives result value
  | none => ∃ error, result = .error error

/-- Integers stay as they are, and infinities and NaNs have no integer. -/
def exactRounding (round : Binary64 → ℤ) : NumericOperand → Option ℤ
  | .int value => some value.toInt
  | .float x => if x.isFinite then some (round x) else none

/-- An integer that is a float and an `i64`, or the greatest `i64`; a float that is rounded to an
`i64`, or an infinity. -/
def RoundsThroughFloat (round : Binary64 → ℤ) : NumericOperand → Prop
  | .int value =>
    InI64 value.toInt ∧ (Representable value.toInt.natAbs ∨ value.toInt = 2 ^ 63 - 1)
  | .float x => if x.isFinite then InI64 (round x) else x.isNaN = false

lemma oneArgument_singleton (value : NumericOperand) (message : String) :
    oneArgument [value] [] message = .ok value := rfl

/-- A float that is rounded to an integral one. -/
lemma roundedToInt_float {x rounded : Binary64} {round : Binary64 → ℤ} {k : ℕ}
    (hfinite : x.isFinite = true →
      Exact k ∧ rounded = ofNat x.sign k ∧ round x = Binary64.signed x.sign k)
    (hother : x.isFinite = false → rounded = x) :
    Rounds (roundedToInt rounded) (exactRounding round (.float x)) ↔
      RoundsThroughFloat round (.float x) := by
  rw [exactRounding, RoundsThroughFloat]
  cases h : x.isFinite with
  | true =>
    obtain ⟨hk, hrounded, hround⟩ := hfinite h
    rw [if_pos rfl, if_pos rfl, Rounds, hrounded, hround, roundedToInt_ofNat hk, InI64]
    omega
  | false =>
    rw [if_neg Bool.false_ne_true, if_neg Bool.false_ne_true, Rounds, hother h]
    exact roundedToInt_notFinite h

lemma builtinMathTrunc_rounds (value : NumericOperand) :
    Rounds (builtinMathTrunc [value] []) (exactRounding truncInt value) := by
  have hintegral : ∀ {k : ℕ}, Exact k → ∀ sign, ∃ b,
      BigInt.fromF64Integral (ofNat sign k) = some b ∧
        (IntValue.bigintToValue b).Holds (Binary64.signed sign k) := by
    intro k hk sign
    obtain ⟨b, hb, hvalue⟩ := fromF64Integral_ofNat hk sign
    have hholds := IntValue.bigintToValue_holds b
    rw [hvalue] at hholds
    exact ⟨b, hb, hholds⟩
  rw [builtinMathTrunc, oneArgument_singleton, Results.ok_bind]
  cases value with
  | int value =>
    cases value with
    | bool flag =>
      have hbool : ∃ k : ℕ, Exact k ∧ valueToF64 (.int (.bool flag)) = ofNat false k ∧
          (IntValue.bool flag).toInt = Binary64.signed false k := by
        cases flag with
        | false => exact ⟨0, exact_of_le (representable_of_le (by decide)) (by decide), rfl, rfl⟩
        | true => exact ⟨1, exact_of_le (representable_of_le (by decide)) (by decide), rfl, rfl⟩
      obtain ⟨k, hk, hconverted, hvalue⟩ := hbool
      obtain ⟨b, hb, hholds⟩ := hintegral hk false
      refine ⟨IntValue.bigintToValue b, ?_, by rwa [hvalue]⟩
      dsimp only
      rw [hconverted, (floor_ofNat hk false).2.2, hb]
    | int number => exact ⟨_, rfl, rfl⟩
    | bigInt number large => exact ⟨_, rfl, rfl, (BigInt.toI64_spec number).2 large⟩
  | float x =>
    rw [exactRounding]
    dsimp only [valueToF64]
    cases hfinite : x.isFinite with
    | true =>
      obtain ⟨b, hb, hholds⟩ := hintegral (exact_floor_ceil hfinite).1 x.sign
      rw [if_pos rfl, trunc, hfinite, if_pos rfl, hb, truncInt_eq]
      exact ⟨_, rfl, hholds⟩
    | false =>
      have hnone : BigInt.fromF64Integral x = none := by
        rw [BigInt.fromF64Integral, hfinite]
        rfl
      rw [if_neg Bool.false_ne_true, trunc, hfinite, if_neg Bool.false_ne_true, hnone]
      exact ⟨_, rfl⟩

/-- **`floor` and `ceil` are right on what goes through an `f64` and an `i64`; `trunc` is always
right.** -/
theorem math_rounding_iff (value : NumericOperand) :
    (Rounds (builtinMathFloor [value] []) (exactRounding floorInt value) ↔
        RoundsThroughFloat floorInt value) ∧
      (Rounds (builtinMathCeil [value] []) (exactRounding ceilInt value) ↔
        RoundsThroughFloat ceilInt value) ∧
      Rounds (builtinMathTrunc [value] []) (exactRounding truncInt value) := by
  refine ⟨?_, ?_, builtinMathTrunc_rounds value⟩
  · rw [builtinMathFloor, oneArgument_singleton, Results.ok_bind]
    cases value with
    | int value =>
      rw [valueToF64_int, (floor_converted value).1]
      exact roundedToInt_converted value
    | float x =>
      refine roundedToInt_float (fun hfinite => ⟨?_, if_pos hfinite, floorInt_eq x⟩)
        fun hfinite => if_neg (by rw [valueToF64, hfinite]; exact Bool.false_ne_true)
      split
      · exact (exact_floor_ceil hfinite).2
      · exact (exact_floor_ceil hfinite).1
  · rw [builtinMathCeil, oneArgument_singleton, Results.ok_bind]
    cases value with
    | int value =>
      rw [valueToF64_int, (floor_converted value).2]
      exact roundedToInt_converted value
    | float x =>
      refine roundedToInt_float (fun hfinite => ⟨?_, if_pos hfinite, ceilInt_eq x⟩)
        fun hfinite => if_neg (by rw [valueToF64, hfinite]; exact Bool.false_ne_true)
      split
      · exact (exact_floor_ceil hfinite).1
      · exact (exact_floor_ceil hfinite).2

/-- `2 ^ 53 + 1` loses its last bit. -/
theorem math_floor_roundedInteger :
    builtinMathFloor [.int (.int 9007199254740993)] [] = .ok (.int 9007199254740992) := by
  decide +kernel

end Pyrs
