import Pyrs.Model.IntegerKernels
import Pyrs.Properties.BigIntDivision

/-!
# The integer operators

The kernels give the integer that Python's operator gives, an `Int` where it fits and a `BigInt`
where it does not.  Two of them leave the `i64` without a big integer to fall back to: the negation
of `-2 ^ 63`, and its division by `-1`.
-/

namespace Pyrs

/-! ## Conversions -/

namespace BigInt

lemma isNegative_iff {a : BigInt} : a.isNegative = true ↔ a.toInt < 0 := by
  rw [isNegative, beq_iff_eq]
  cases hsign : a.sign with
  | zero =>
    rw [toInt_of_zero hsign]
    decide
  | pos =>
    rw [toInt_of_pos hsign]
    exact iff_of_false (by decide) (not_lt.2 (Int.natCast_nonneg _))
  | neg =>
    have hpos := magnitude_pos (a := a) (by rw [hsign]; decide)
    rw [toInt_of_neg hsign]
    exact iff_of_true rfl (by omega)

/-- The two low limbs, put together. -/
lemma magnitude_two {limbs : List UInt32} (h : limbs.length ≤ 2) :
    ((limbs[0]?).getD 0).toNat ||| ((limbs[1]?).getD 0).toNat <<< 32 = magnitude limbs := by
  have hor : ∀ low high : UInt32,
      low.toNat ||| high.toNat <<< 32 = low.toNat + 2 ^ 32 * high.toNat := by
    intro low high
    rw [Nat.or_comm, ← Nat.shiftLeft_add_eq_or_of_lt low.toNat_lt, Nat.shiftLeft_eq]
    ring
  rw [hor]
  match limbs, h with
  | [], _ => rfl
  | [low], _ => simp
  | [low, high], _ => simp

lemma toI64_spec (a : BigInt) :
    (∀ number, a.toI64 = some number → number.toInt = a.toInt) ∧
      (a.toI64 = none → ¬(-2 ^ 63 ≤ a.toInt ∧ a.toInt < 2 ^ 63)) := by
  rw [toI64]
  split
  · next hzero =>
    rw [isZero_iff.1 hzero]
    refine ⟨fun number h => ?_, fun h => by cases h⟩
    obtain rfl := Option.some.inj h
    rfl
  · next hne =>
    have habs := natAbs_toInt a
    split
    · next hlength =>
      refine ⟨fun number h => (by cases h), fun _ => ?_⟩
      have hlimbs : a.limbs ≠ [] := by
        intro hnil
        rw [hnil] at hlength
        exact absurd hlength (by decide)
      have hlow := le_magnitude hlimbs (a.trimmed hlimbs)
      have hpow : 2 ^ 64 ≤ 2 ^ (32 * (a.limbs.length - 1)) :=
        Nat.pow_le_pow_right (by norm_num) (by omega)
      omega
    · next hlength =>
      simp only [magnitude_two (not_lt.1 hlength)]
      set m := magnitude a.limbs
      split
      · next hsign =>
        rw [toInt_of_pos hsign]
        split
        · next hsmall =>
          refine ⟨fun number h => ?_, fun h => by cases h⟩
          obtain rfl := Option.some.inj h
          exact Int64.toInt_ofNat_of_lt (by omega)
        · exact ⟨fun number h => (by cases h), fun _ => by omega⟩
      · next hsign =>
        have hsign : a.sign = .neg := by
          cases hcase : a.sign with
          | zero => exact absurd (by rw [isZero, hcase]; rfl) hne
          | pos => exact absurd hcase hsign
          | neg => rfl
        rw [toInt_of_neg hsign]
        split
        · next hmin =>
          refine ⟨fun number h => ?_, fun h => by cases h⟩
          obtain rfl := Option.some.inj h
          rw [Int64.toInt_minValue]
          omega
        · split
          · next hsmall =>
            refine ⟨fun number h => ?_, fun h => by cases h⟩
            obtain rfl := Option.some.inj h
            exact Int64.toInt_neg_ofNat_of_le (by omega)
          · exact ⟨fun number h => (by cases h), fun _ => by omega⟩

lemma toI64_eq_some {a : BigInt} (hlow : -2 ^ 63 ≤ a.toInt) (hhigh : a.toInt < 2 ^ 63) :
    ∃ number, a.toI64 = some number ∧ number.toInt = a.toInt := by
  obtain ⟨hsome, hnone⟩ := toI64_spec a
  cases h : a.toI64 with
  | none => exact absurd ⟨hlow, hhigh⟩ (hnone h)
  | some number => exact ⟨number, rfl, hsome number h⟩

end BigInt

namespace IntValue

def toInt : IntValue → ℤ
  | bool flag => if flag then 1 else 0
  | int number => number.toInt
  | bigInt number _ => number.toInt

/-- The value that stands for an integer: an `Int` iff it fits. -/
def Holds (value : ℤ) : IntValue → Prop
  | bool _ => False
  | int number => number.toInt = value
  | bigInt number _ => number.toInt = value ∧ ¬(-2 ^ 63 ≤ value ∧ value < 2 ^ 63)

/-- A kernel returns the value of an integer. -/
def Gives (result : KernelResult IntValue) (value : ℤ) : Prop :=
  ∃ v, result = .ok v ∧ v.Holds value

lemma intLikeToBigint_toInt (v : IntValue) : v.intLikeToBigint.toInt = v.toInt := by
  cases v with
  | bool flag =>
    rw [intLikeToBigint, BigInt.fromI64_toInt]
    cases flag <;> rfl
  | int number => exact BigInt.fromI64_toInt number
  | bigInt number large => rfl

lemma bigintToValue_holds (value : BigInt) : (bigintToValue value).Holds value.toInt := by
  rw [bigintToValue]
  split
  · next number h => exact (BigInt.toI64_spec value).1 number h
  · next h => exact ⟨rfl, (BigInt.toI64_spec value).2 h⟩

lemma gives_bigint {result : Option BigInt} {value : ℤ}
    (h : ∃ c, result = some c ∧ c.toInt = value) :
    Gives (do return bigintToValue (← unchecked result)) value := by
  obtain ⟨c, rfl, rfl⟩ := h
  exact ⟨bigintToValue c, rfl, bigintToValue_holds c⟩

/-- The operands of a fast path. -/
lemma integerI64Pair_eq_some {left right : IntValue} {x y : Int64}
    (h : integerI64Pair left right = some (x, y)) :
      x.toInt = left.toInt ∧ y.toInt = right.toInt := by
  have htoInt : ∀ {v : IntValue} {number : Int64}, v.intLikeToI64 = some number →
      number.toInt = v.toInt := by
    intro v number h
    cases v with
    | bool flag =>
      obtain rfl := Option.some.inj h
      cases flag <;> rfl
    | int stored =>
      obtain rfl := Option.some.inj h
      rfl
    | bigInt _ _ => cases h
  rw [integerI64Pair] at h
  split at h
  · next hleft hright =>
    cases h
    exact ⟨htoInt hleft, htoInt hright⟩
  · cases h

/-- An operand without a fast path is outside the `i64`. -/
lemma integerI64Pair_eq_none {left right : IntValue} (h : integerI64Pair left right = none) :
    ¬(-2 ^ 63 ≤ left.toInt ∧ left.toInt < 2 ^ 63) ∨
      ¬(-2 ^ 63 ≤ right.toInt ∧ right.toInt < 2 ^ 63) := by
  cases left with
  | bigInt number large => exact .inl ((BigInt.toI64_spec number).2 large)
  | bool _ =>
    cases right with
    | bigInt number large => exact .inr ((BigInt.toI64_spec number).2 large)
    | bool _ => cases h
    | int _ => cases h
  | int _ =>
    cases right with
    | bigInt number large => exact .inr ((BigInt.toI64_spec number).2 large)
    | bool _ => cases h
    | int _ => cases h

lemma checkedInt64_eq_some {value : ℤ} (hlow : -2 ^ 63 ≤ value) (hhigh : value < 2 ^ 63) :
    ∃ number, checkedInt64 value = some number ∧ number.toInt = value :=
  ⟨Int64.ofInt value, if_pos ⟨hlow, hhigh⟩, Int64.toInt_ofInt_of_le hlow hhigh⟩

lemma checkedInt64_eq_none {value : ℤ} (h : ¬(-2 ^ 63 ≤ value ∧ value < 2 ^ 63)) :
    checkedInt64 value = none := if_neg h

/-! ## Arithmetic -/

lemma arithmeticValues_gives {fast : ℤ → ℤ → ℤ} {slow : BigInt → BigInt → Option BigInt}
    (hslow : ∀ a b, ∃ c, slow a b = some c ∧ c.toInt = fast a.toInt b.toInt)
    (left right : IntValue) :
    Gives (arithmeticValues fast slow left right) (fast left.toInt right.toInt) := by
  rw [arithmeticValues]
  split
  · next x y hpair =>
    obtain ⟨hx, hy⟩ := integerI64Pair_eq_some hpair
    rw [← hx, ← hy]
    by_cases hfits : -2 ^ 63 ≤ fast x.toInt y.toInt ∧ fast x.toInt y.toInt < 2 ^ 63
    · obtain ⟨number, hnumber, hvalue⟩ := checkedInt64_eq_some hfits.1 hfits.2
      rw [hnumber]
      exact ⟨int number, rfl, hvalue⟩
    · rw [checkedInt64_eq_none hfits]
      obtain ⟨c, hc, hvalue⟩ := hslow (BigInt.fromI64 x) (BigInt.fromI64 y)
      rw [BigInt.fromI64_toInt, BigInt.fromI64_toInt] at hvalue
      exact gives_bigint ⟨c, hc, hvalue⟩
  · obtain ⟨c, hc, hvalue⟩ := hslow left.intLikeToBigint right.intLikeToBigint
    rw [intLikeToBigint_toInt, intLikeToBigint_toInt] at hvalue
    exact gives_bigint ⟨c, hc, hvalue⟩

/-! ## Division -/

/-- A truncated quotient, one less where the signs differ and something remains. -/
lemma tdiv_correction (a : ℤ) {b : ℤ} (hne : b ≠ 0) :
    (if a.tmod b ≠ 0 ∧ (decide (a < 0) ^^ decide (b < 0)) = true then a.tdiv b - 1
      else a.tdiv b) = a.fdiv b := by
  rw [Int.fdiv_eq_tdiv]
  by_cases hdvd : b ∣ a
  · have hmod : a.tmod b = 0 := Int.tmod_eq_zero_of_dvd hdvd
    rw [if_neg (fun h => h.1 hmod), if_pos hdvd, sub_zero]
  · have hmod : a.tmod b ≠ 0 := hdvd ∘ Int.dvd_of_tmod_eq_zero
    rw [if_neg hdvd]
    rcases lt_or_ge a 0 with ha | ha
    · rcases lt_or_ge b 0 with hb | hb
      · rw [if_neg (by simp [ha, hb]), if_neg (not_le.2 ha), if_neg (not_le.2 hb),
          Int.sign_eq_neg_one_of_neg hb]
        ring
      · have hpos : 0 < b := lt_of_le_of_ne hb hne.symm
        rw [if_pos ⟨hmod, by simp [ha, not_lt.2 hb]⟩, if_neg (not_le.2 ha), if_pos hb,
          Int.sign_eq_one_of_pos hpos]
    · rcases lt_or_ge b 0 with hb | hb
      · rw [if_pos ⟨hmod, by simp [hb, not_lt.2 ha]⟩, if_pos ha, if_neg (not_le.2 hb)]
      · rw [if_neg (by simp [not_lt.2 ha, not_lt.2 hb]), if_pos ha, if_pos hb, sub_zero]

/-- Only the smallest number divided by minus one leaves the range. -/
lemma fdiv_bounds {a b : ℤ} (halow : -2 ^ 63 ≤ a) (hahigh : a < 2 ^ 63) (hb : b ≠ 0)
    (h : ¬(a = -2 ^ 63 ∧ b = -1)) : -2 ^ 63 ≤ a.fdiv b ∧ a.fdiv b < 2 ^ 63 := by
  set q := a.fdiv b with hq
  set r := a.fmod b with hr
  rcases lt_or_gt_of_ne hb with hneg | hpos
  · obtain ⟨hparts, hlow, hhigh⟩ := (Int.fdiv_fmod_unique' hneg).1 ⟨hq.symm, hr.symm⟩
    constructor
    · by_contra hsmall
      nlinarith
    · by_contra hlarge
      apply h
      have hone : b = -1 := by nlinarith
      exact ⟨by nlinarith, hone⟩
  · obtain ⟨hparts, hlow, hhigh⟩ := (Int.fdiv_fmod_unique hpos).1 ⟨hq.symm, hr.symm⟩
    constructor
    · by_contra hsmall
      nlinarith
    · by_contra hlarge
      nlinarith

lemma pythonFloorDiv_eq {x y : Int64} (hy : y.toInt ≠ 0) :
    pythonFloorDiv x y = match checkedInt64 (x.toInt.fdiv y.toInt) with
      | some div => .ok div
      | none => .error (.overflowError "integer overflow") := by
  have hne : y ≠ 0 := by
    rintro rfl
    exact hy rfl
  rw [← tdiv_correction _ hy]
  exact if_neg hne

/-- The quotient of two `i64` fits unless it is `2 ^ 63`. -/
lemma pythonFloorDiv_spec {x y : Int64} (hy : y.toInt ≠ 0) :
    if x.toInt = -2 ^ 63 ∧ y.toInt = -1 then
      pythonFloorDiv x y = .error (.overflowError "integer overflow")
    else ∃ div, pythonFloorDiv x y = .ok div ∧ div.toInt = x.toInt.fdiv y.toInt := by
  rw [pythonFloorDiv_eq hy]
  split
  · next hoverflow =>
    rw [hoverflow.1, hoverflow.2]
    rfl
  · next h =>
    obtain ⟨hlow, hhigh⟩ := fdiv_bounds x.le_toInt x.toInt_lt hy h
    obtain ⟨div, hdiv, hvalue⟩ := checkedInt64_eq_some hlow hhigh
    rw [hdiv]
    exact ⟨div, rfl, hvalue⟩

lemma fmod_bounds {a b : ℤ} (hblow : -2 ^ 63 ≤ b) (hbhigh : b < 2 ^ 63) (hb : b ≠ 0) :
    -2 ^ 63 ≤ a.fmod b ∧ a.fmod b < 2 ^ 63 := by
  rcases lt_or_gt_of_ne hb with hneg | hpos
  · obtain ⟨-, hlow, hhigh⟩ := (Int.fdiv_fmod_unique' (a := a) hneg).1 ⟨rfl, rfl⟩
    omega
  · obtain ⟨-, hlow, hhigh⟩ := (Int.fdiv_fmod_unique (a := a) hpos).1 ⟨rfl, rfl⟩
    omega

lemma pythonMod_spec {x y : Int64} (hy : y.toInt ≠ 0) :
    if x.toInt = -2 ^ 63 ∧ y.toInt = -1 then
      pythonMod x y = .error (.overflowError "integer overflow")
    else ∃ value, pythonMod x y = .ok value ∧ value.toInt = x.toInt.fmod y.toInt := by
  have hne : y ≠ 0 := by
    rintro rfl
    exact hy rfl
  have hdiv := pythonFloorDiv_spec (x := x) hy
  rw [pythonMod, if_neg hne]
  split
  · next hoverflow =>
    rw [if_pos hoverflow] at hdiv
    rw [hdiv]
    rfl
  · next h =>
    rw [if_neg h] at hdiv
    obtain ⟨div, hdiv, hquotient⟩ := hdiv
    have hmod : x.toInt - y.toInt * div.toInt = x.toInt.fmod y.toInt := by
      rw [hquotient, Int.fmod_def]
    obtain ⟨hlow, hhigh⟩ := fmod_bounds (a := x.toInt) y.le_toInt y.toInt_lt hy
    obtain ⟨value, hvalue, hvalueInt⟩ := checkedInt64_eq_some hlow hhigh
    refine ⟨value, ?_, hvalueInt⟩
    rw [hdiv]
    show (match checkedInt64 (x.toInt - y.toInt * div.toInt) with
      | some value => Except.ok value
      | none => Except.error (KernelError.overflowError "integer overflow")) = _
    rw [hmod, hvalue]

/-- The big integers divide as Python does. -/
lemma divModFloor_fdiv (a : BigInt) {b : BigInt} (hb : b.toInt ≠ 0) :
    ∃ q r, a.divModFloor b = some (some (q, r)) ∧ q.toInt = a.toInt.fdiv b.toInt ∧
      r.toInt = a.toInt.fmod b.toInt := by
  obtain ⟨q, r, hparts, hvalue, hbounds⟩ := BigInt.divModFloor_parts a hb
  have hvalue : r.toInt + b.toInt * q.toInt = a.toInt := by
    rw [hvalue]
    ring
  refine ⟨q, r, hparts, ?_⟩
  rcases hbounds with ⟨hlow, hhigh⟩ | ⟨hlow, hhigh⟩
  · obtain ⟨hq, hr⟩ := (Int.fdiv_fmod_unique (by omega)).2 ⟨hvalue, hlow, hhigh⟩
    exact ⟨hq.symm, hr.symm⟩
  · obtain ⟨hq, hr⟩ := (Int.fdiv_fmod_unique' (by omega)).2 ⟨hvalue, hlow, hhigh⟩
    exact ⟨hq.symm, hr.symm⟩

lemma not_gives_error {error : KernelError} {value : ℤ} : ¬Gives (.error error) value := by
  rintro ⟨v, hv, -⟩
  cases hv

lemma floorDivValues_gives_iff (left : IntValue) {right : IntValue} (hright : right.toInt ≠ 0) :
    Gives (floorDivValues left right) (left.toInt.fdiv right.toInt) ↔
      ¬(left.toInt = -2 ^ 63 ∧ right.toInt = -1) := by
  rw [floorDivValues]
  split
  · next x y hpair =>
    obtain ⟨hx, hy⟩ := integerI64Pair_eq_some hpair
    rw [← hx, ← hy]
    rw [← hy] at hright
    have hspec := pythonFloorDiv_spec (x := x) hright
    split at hspec
    · next hoverflow =>
      rw [hspec]
      exact iff_of_false not_gives_error (not_not.2 hoverflow)
    · next h =>
      obtain ⟨div, hdiv, hvalue⟩ := hspec
      rw [hdiv]
      exact iff_of_true ⟨int div, rfl, hvalue⟩ h
  · next hpair =>
    have hlarge := integerI64Pair_eq_none hpair
    refine iff_of_true ?_ (by omega)
    have hb : right.intLikeToBigint.toInt ≠ 0 := by rwa [intLikeToBigint_toInt]
    obtain ⟨q, r, hparts, hq, -⟩ := divModFloor_fdiv left.intLikeToBigint hb
    rw [intLikeToBigint_toInt, intLikeToBigint_toInt] at hq
    rw [hparts, ← hq]
    exact ⟨bigintToValue q, rfl, bigintToValue_holds q⟩

lemma modValues_gives_iff (left : IntValue) {right : IntValue} (hright : right.toInt ≠ 0) :
    Gives (modValues left right) (left.toInt.fmod right.toInt) ↔
      ¬(left.toInt = -2 ^ 63 ∧ right.toInt = -1) := by
  rw [modValues]
  split
  · next x y hpair =>
    obtain ⟨hx, hy⟩ := integerI64Pair_eq_some hpair
    rw [← hx, ← hy]
    rw [← hy] at hright
    have hspec := pythonMod_spec (x := x) hright
    split at hspec
    · next hoverflow =>
      rw [hspec]
      exact iff_of_false not_gives_error (not_not.2 hoverflow)
    · next h =>
      obtain ⟨value, hmod, hvalue⟩ := hspec
      rw [hmod]
      exact iff_of_true ⟨int value, rfl, hvalue⟩ h
  · next hpair =>
    have hlarge := integerI64Pair_eq_none hpair
    refine iff_of_true ?_ (by omega)
    have hb : right.intLikeToBigint.toInt ≠ 0 := by rwa [intLikeToBigint_toInt]
    obtain ⟨q, r, hparts, -, hr⟩ := divModFloor_fdiv left.intLikeToBigint hb
    rw [intLikeToBigint_toInt, intLikeToBigint_toInt] at hr
    rw [hparts, ← hr]
    exact ⟨bigintToValue r, rfl, bigintToValue_holds r⟩

/-! ## Shifts -/

lemma shiftCount_eq {right : IntValue} (hlow : 0 ≤ right.toInt) (hhigh : right.toInt < 2 ^ 63) :
    shiftCount right.intLikeToBigint = .ok right.toInt.toNat := by
  have hvalue := intLikeToBigint_toInt right
  have hneg : ¬right.intLikeToBigint.isNegative = true := by
    rw [BigInt.isNegative_iff, hvalue]
    exact not_lt.2 hlow
  obtain ⟨number, hnumber, hnumberValue⟩ :=
    BigInt.toI64_eq_some (a := right.intLikeToBigint) (by omega) (by omega)
  rw [shiftCount, if_neg hneg, hnumber]
  simp only
  rw [if_neg (by omega), hnumberValue, hvalue]

lemma lshiftValues_gives (left : IntValue) {right : IntValue} (hlow : 0 ≤ right.toInt)
    (hhigh : right.toInt < 2 ^ 63) :
    Gives (lshiftValues left right) (left.toInt * 2 ^ right.toInt.toNat) := by
  rw [lshiftValues, shiftCount_eq hlow hhigh, ← intLikeToBigint_toInt left, ← BigInt.shlBits_toInt]
  exact ⟨_, rfl, bigintToValue_holds _⟩

lemma rshiftValues_gives (left : IntValue) {right : IntValue} (hlow : 0 ≤ right.toInt)
    (hhigh : right.toInt < 2 ^ 63) :
    Gives (rshiftValues left right) (left.toInt / 2 ^ right.toInt.toNat) := by
  rw [rshiftValues, shiftCount_eq hlow hhigh, ← intLikeToBigint_toInt left]
  exact gives_bigint (BigInt.shrBitsArithmetic_spec _ _)

/-! ## Bits -/

/-- The bitwise operators: a flag of two flags, and the integer of other operands. -/
def BitsExact (flags : Bool → Bool → Bool) (bits : ℤ → ℤ → ℤ) (result : KernelResult IntValue) :
    IntValue → IntValue → Prop
  | bool left, bool right => result = .ok (bool (flags left right))
  | left, right => Gives result (bits left.toInt right.toInt)

lemma bitwiseValues_exact {flags : Bool → Bool → Bool} {bits : BigInt → BigInt → Option BigInt}
    {exact : ℤ → ℤ → ℤ} (hbits : ∀ a b, ∃ c, bits a b = some c ∧
      ∀ i, c.toInt.testBit i = (exact a.toInt b.toInt).testBit i) (left right : IntValue) :
    BitsExact flags exact (bitwiseValues flags bits left right) left right := by
  have hgives : Gives (do
      return bigintToValue (← unchecked (bits left.intLikeToBigint right.intLikeToBigint)))
      (exact left.toInt right.toInt) := by
    obtain ⟨c, hc, hvalue⟩ := hbits left.intLikeToBigint right.intLikeToBigint
    rw [intLikeToBigint_toInt, intLikeToBigint_toInt] at hvalue
    exact gives_bigint ⟨c, hc, TwosComplement.eq_of_testBit_eq hvalue⟩
  cases left with
  | bool left =>
    cases right with
    | bool right => rfl
    | int right => exact hgives
    | bigInt right large => exact hgives
  | int left => exact hgives
  | bigInt left large => exact hgives

/-! ## All operators -/

/-- The operators; a unary one does not read its right operand. -/
inductive Operator
  | add | sub | mul | floorDiv | mod | lshift | rshift | and | or | xor | neg | pos | invert
deriving DecidableEq

/-- An operator gives the exact integer, in its value, where Python defines it. -/
def Operator.Exact (left right : IntValue) : Operator → Prop
  | .add => Gives (addValues left right) (left.toInt + right.toInt)
  | .sub => Gives (subValues left right) (left.toInt - right.toInt)
  | .mul => Gives (mulValues left right) (left.toInt * right.toInt)
  | .floorDiv =>
    right.toInt ≠ 0 → Gives (floorDivValues left right) (left.toInt.fdiv right.toInt)
  | .mod => right.toInt ≠ 0 → Gives (modValues left right) (left.toInt.fmod right.toInt)
  | .lshift => 0 ≤ right.toInt → right.toInt < 2 ^ 63 →
      Gives (lshiftValues left right) (left.toInt * 2 ^ right.toInt.toNat)
  | .rshift => 0 ≤ right.toInt → right.toInt < 2 ^ 63 →
      Gives (rshiftValues left right) (left.toInt / 2 ^ right.toInt.toNat)
  | .and => BitsExact (· && ·) Int.land (andValues left right) left right
  | .or => BitsExact (· || ·) Int.lor (orValues left right) left right
  | .xor => BitsExact (· ^^ ·) Int.xor (xorValues left right) left right
  | .neg => Gives (negValue left) (-left.toInt)
  | .pos => Gives (posValue left) left.toInt
  | .invert => Gives (invertValue left) (-left.toInt - 1)

/-- The operands whose exact result is refused: `-2 ^ 63`, negated or divided by `-1`. -/
def Operator.Overflows (left right : ℤ) : Operator → Prop
  | .floorDiv | .mod => left = -2 ^ 63 ∧ right = -1
  | .neg => left = -2 ^ 63
  | _ => False

lemma negValue_gives_iff (value : IntValue) :
    Gives (negValue value) (-value.toInt) ↔ ¬value.toInt = -2 ^ 63 := by
  cases value with
  | bool flag =>
    refine iff_of_true ⟨_, rfl, ?_⟩ ?_
    · cases flag <;> rfl
    · cases flag <;> decide
  | int number =>
    rw [negValue]
    have hlow := number.le_toInt
    have hhigh := number.toInt_lt
    show Gives _ (-number.toInt) ↔ ¬number.toInt = -2 ^ 63
    by_cases hmin : number.toInt = -2 ^ 63
    · rw [checkedInt64_eq_none (by omega)]
      exact iff_of_false not_gives_error (not_not.2 hmin)
    · obtain ⟨negated, hnegated, hvalue⟩ :=
        @checkedInt64_eq_some (-number.toInt) (by omega) (by omega)
      rw [hnegated]
      exact iff_of_true ⟨int negated, rfl, hvalue⟩ hmin
  | bigInt number large =>
    have hlarge := (BigInt.toI64_spec number).2 large
    refine iff_of_true ⟨_, rfl, ?_⟩ ?_
    · have hholds := bigintToValue_holds number.negated
      rwa [BigInt.negated_toInt] at hholds
    · show ¬number.toInt = -2 ^ 63
      omega

lemma posValue_gives (value : IntValue) : Gives (posValue value) value.toInt := by
  cases value with
  | bool flag => exact ⟨_, rfl, by cases flag <;> rfl⟩
  | int number => exact ⟨_, rfl, rfl⟩
  | bigInt number large => exact ⟨_, rfl, bigintToValue_holds number⟩

lemma invertValue_gives (value : IntValue) : Gives (invertValue value) (-value.toInt - 1) := by
  rw [invertValue, ← intLikeToBigint_toInt]
  exact gives_bigint (BigInt.bitnot_spec _)

lemma compareOrder_eq (left right : IntValue) :
    compareOrder left right = compare left.toInt right.toInt := by
  rw [compareOrder]
  split
  · next hpair =>
    obtain ⟨hx, hy⟩ := integerI64Pair_eq_some hpair
    rw [hx, hy]
  · rw [BigInt.cmpTotal_eq, intLikeToBigint_toInt, intLikeToBigint_toInt]

/-- **The operators are exact except at the edge of the `i64`.**  The order of the integers is
exact, too. -/
theorem operators_exact_iff (left right : IntValue) :
    (∀ operator : Operator,
      operator.Exact left right ↔ ¬operator.Overflows left.toInt right.toInt) ∧
      compareOrder left right = compare left.toInt right.toInt := by
  refine ⟨fun operator => ?_, compareOrder_eq left right⟩
  cases operator with
  | add => exact iff_of_true (arithmeticValues_gives BigInt.add_spec left right) id
  | sub => exact iff_of_true (arithmeticValues_gives BigInt.sub_spec left right) id
  | mul => exact iff_of_true (arithmeticValues_gives BigInt.mul_spec left right) id
  | floorDiv =>
    by_cases hright : right.toInt = 0
    · exact iff_of_true (fun h => absurd hright h) fun h => by
        rw [hright] at h
        exact absurd h.2 (by decide)
    · exact ⟨fun h => (floorDivValues_gives_iff left hright).1 (h hright),
        fun h _ => (floorDivValues_gives_iff left hright).2 h⟩
  | mod =>
    by_cases hright : right.toInt = 0
    · exact iff_of_true (fun h => absurd hright h) fun h => by
        rw [hright] at h
        exact absurd h.2 (by decide)
    · exact ⟨fun h => (modValues_gives_iff left hright).1 (h hright),
        fun h _ => (modValues_gives_iff left hright).2 h⟩
  | lshift => exact iff_of_true (lshiftValues_gives left) id
  | rshift => exact iff_of_true (rshiftValues_gives left) id
  | and =>
    refine iff_of_true (bitwiseValues_exact (fun a b => ?_) left right) id
    obtain ⟨c, hc, hvalue⟩ := BigInt.bitand_spec a b
    exact ⟨c, hc, fun i => by rw [hvalue, Int.testBit_land]⟩
  | or =>
    refine iff_of_true (bitwiseValues_exact (fun a b => ?_) left right) id
    obtain ⟨c, hc, hvalue⟩ := BigInt.bitor_spec a b
    exact ⟨c, hc, fun i => by rw [hvalue, Int.testBit_lor]⟩
  | xor =>
    refine iff_of_true (bitwiseValues_exact (fun a b => ?_) left right) id
    obtain ⟨c, hc, hvalue⟩ := BigInt.bitxor_spec a b
    exact ⟨c, hc, fun i => by rw [hvalue, Int.testBit_lxor]⟩
  | neg => exact negValue_gives_iff left
  | pos => exact iff_of_true (posValue_gives left) id
  | invert => exact iff_of_true (invertValue_gives left) id

/-- `-(-2 ** 63)` and `-2 ** 63 // -1` are errors. -/
theorem minValue_overflows :
    negValue (int Int64.minValue) = .error (.overflowError "integer overflow") ∧
      floorDivValues (int Int64.minValue) (int (-1)) =
        .error (.overflowError "integer overflow") ∧
      ¬∀ (left right : IntValue) (operator : Operator), operator.Exact left right := by
  have hneg : negValue (int Int64.minValue) = .error (.overflowError "integer overflow") := by
    decide
  refine ⟨hneg, by decide, fun h => ?_⟩
  obtain ⟨v, hv, -⟩ := h (int Int64.minValue) (int 1) .neg
  rw [hneg] at hv
  cases hv

end IntValue

end Pyrs
