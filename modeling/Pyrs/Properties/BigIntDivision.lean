import Pyrs.Properties.BigIntBits

/-!
# The division of big integers

`abs_div_mod_positive` subtracts the divisor, shifted as far as it goes.  Every round takes a bit
off the remainder, so that there are no more rounds than bits, and the quotient times the divisor
and the remainder always make up the dividend.
-/

namespace Pyrs.BigInt

/-! ## Lengths -/

lemma lt_two_pow_bitLength (a : BigInt) : a.toInt < 2 ^ a.bitLength := (toInt_bounds a le_rfl).2

lemma two_pow_le_toInt {a : BigInt} (h : 0 < a.toInt) :
    0 < a.bitLength ∧ 2 ^ (a.bitLength - 1) ≤ a.toInt := by
  have habs : magnitude a.limbs = a.toInt := by
    rw [← natAbs_toInt, Int.natAbs_of_nonneg h.le]
  have hpos : 0 < magnitude a.limbs := by omega
  have hsize : 0 < (magnitude a.limbs).size := Nat.size_pos.2 hpos
  have hlow : 2 ^ ((magnitude a.limbs).size - 1) ≤ magnitude a.limbs := Nat.lt_size.1 (by omega)
  rw [bitLength_eq, ← habs]
  exact ⟨hsize, by exact_mod_cast hlow⟩

lemma bitLength_le_of_lt {a : BigInt} {n : ℕ} (h : 0 ≤ a.toInt) (hlt : a.toInt < 2 ^ n) :
    a.bitLength ≤ n := by
  have habs : magnitude a.limbs = a.toInt := by
    rw [← natAbs_toInt, Int.natAbs_of_nonneg h]
  rw [← habs] at hlt
  rw [bitLength_eq, Nat.size_le]
  exact_mod_cast hlt

lemma cmpTotal_lt_iff {a b : BigInt} : a.cmpTotal b = .lt ↔ a.toInt < b.toInt := by
  rw [cmpTotal_eq, compare_lt_iff_lt]

lemma cmpTotal_gt_iff {a b : BigInt} : a.cmpTotal b = .gt ↔ b.toInt < a.toInt := by
  rw [cmpTotal_eq, compare_gt_iff_gt]

/-! ## The loop -/

/-- What a round subtracts: the shifted divisor, which fits the remainder and has its highest bit,
or one shift less where it does not fit. -/
lemma shifted_bounds {divisor remainder : BigInt} (hdivisor : 0 < divisor.toInt)
    (hle : divisor.toInt ≤ remainder.toInt) :
    let shift := remainder.bitLength - divisor.bitLength
    let chosen := if remainder.toInt < divisor.toInt * 2 ^ shift then shift - 1 else shift
    divisor.toInt * 2 ^ chosen ≤ remainder.toInt ∧
      remainder.toInt - divisor.toInt * 2 ^ chosen < 2 ^ (remainder.bitLength - 1) ∧
      (remainder.toInt < divisor.toInt * 2 ^ shift → shift ≠ 0) := by
  intro shift chosen
  obtain ⟨hdpos, hdlow⟩ := two_pow_le_toInt hdivisor
  obtain ⟨hrpos, hrlow⟩ := two_pow_le_toInt (hdivisor.trans_le hle)
  have hdhigh := lt_two_pow_bitLength divisor
  have hrhigh := lt_two_pow_bitLength remainder
  have hlengths : divisor.bitLength ≤ remainder.bitLength :=
    bitLength_le_of_lt hdivisor.le (hle.trans_lt hrhigh)
  have hsplit : ∀ k, divisor.bitLength + k = remainder.bitLength →
      (2 : ℤ) ^ (remainder.bitLength - 1) = 2 ^ (divisor.bitLength - 1) * 2 ^ k := by
    intro k hk
    rw [← pow_add]
    congr 1
    omega
  have hdouble : (2 : ℤ) ^ remainder.bitLength = 2 * 2 ^ (remainder.bitLength - 1) := by
    rw [← pow_succ']
    congr 1
    omega
  have htop := hsplit shift (Nat.add_sub_cancel' hlengths)
  have hfits : (2 : ℤ) ^ (remainder.bitLength - 1) ≤ divisor.toInt * 2 ^ shift := by
    rw [htop]
    exact mul_le_mul_of_nonneg_right hdlow (by positivity)
  by_cases hlarge : remainder.toInt < divisor.toInt * 2 ^ shift
  · have hshift : shift ≠ 0 := by
      intro hzero
      rw [hzero, pow_zero, mul_one] at hlarge
      omega
    have hchosen : chosen = shift - 1 := if_pos hlarge
    have hhalf : (2 : ℤ) ^ shift = 2 * 2 ^ chosen := by
      rw [← pow_succ', hchosen]
      congr 1
      omega
    -- The shifted divisor has as many bits as the remainder, so that half of it fits.
    have hbound : divisor.toInt * 2 ^ shift < 2 ^ remainder.bitLength := by
      calc divisor.toInt * 2 ^ shift < 2 ^ divisor.bitLength * 2 ^ shift :=
            mul_lt_mul_of_pos_right hdhigh (by positivity)
        _ = 2 ^ remainder.bitLength := by rw [← pow_add, Nat.add_sub_cancel' hlengths]
    rw [hhalf] at hlarge hbound
    refine ⟨?_, ?_, fun _ => hshift⟩
    · nlinarith
    · nlinarith
  · have hchosen : chosen = shift := if_neg hlarge
    rw [hchosen]
    exact ⟨not_lt.1 hlarge, by linarith, fun h => absurd h hlarge⟩

/-- The loop ends within a round for every bit of the remainder and one more. -/
lemma divLoop_spec {divisor : BigInt} (hdivisor : 0 < divisor.toInt) {rounds : ℕ}
    {remainder : BigInt} (quotient : BigInt) (hremainder : 0 ≤ remainder.toInt)
    (hrounds : remainder.bitLength < rounds) :
    ∃ q r, divLoop divisor rounds remainder quotient = some (q, r) ∧
      q.toInt * divisor.toInt + r.toInt = quotient.toInt * divisor.toInt + remainder.toInt ∧
      0 ≤ r.toInt ∧ r.toInt < divisor.toInt := by
  induction rounds generalizing remainder quotient with
  | zero => exact absurd hrounds (Nat.not_lt_zero _)
  | succ rounds ih =>
    rw [divLoop]
    split
    · next hlt => exact ⟨quotient, remainder, rfl, rfl, hremainder, cmpTotal_lt_iff.1 hlt⟩
    · next hge =>
      have hge : divisor.toInt ≤ remainder.toInt := not_lt.1 (hge ∘ cmpTotal_lt_iff.2)
      obtain ⟨hfits, hshorter, hshift⟩ := shifted_bounds hdivisor hge
      obtain ⟨hlength, -⟩ := two_pow_le_toInt (hdivisor.trans_le hge)
      set shift := remainder.bitLength - divisor.bitLength
      -- Both branches subtract a shifted divisor that fits and takes a bit off the remainder.
      have hround : ∀ k, divisor.toInt * 2 ^ k ≤ remainder.toInt →
          remainder.toInt - divisor.toInt * 2 ^ k < 2 ^ (remainder.bitLength - 1) →
          ∃ q r, (do
              let remainder ← remainder.sub (divisor.shlBits k)
              let quotient ← quotient.add (one.shlBits k)
              divLoop divisor rounds remainder quotient) = some (q, r) ∧
            q.toInt * divisor.toInt + r.toInt =
              quotient.toInt * divisor.toInt + remainder.toInt ∧
            0 ≤ r.toInt ∧ r.toInt < divisor.toInt := by
        intro k hfits hshorter
        obtain ⟨next, hnext, hnextValue⟩ := sub_spec remainder (divisor.shlBits k)
        obtain ⟨sum, hsum, hsumValue⟩ := add_spec quotient (one.shlBits k)
        rw [shlBits_toInt] at hnextValue hsumValue
        rw [one_toInt, one_mul] at hsumValue
        have hnonneg : 0 ≤ next.toInt := by omega
        have hbits := bitLength_le_of_lt hnonneg (by rw [hnextValue]; exact hshorter)
        obtain ⟨q, r, hloop, hvalue, hbounds⟩ := ih sum hnonneg (by omega)
        refine ⟨q, r, ?_, ?_, hbounds⟩
        · rw [hnext, Option.bind_eq_bind, Option.bind_some, hsum, Option.bind_some, hloop]
        · rw [hvalue, hsumValue, hnextValue]
          ring
      simp only
      have hgreater : (divisor.shlBits shift).cmpTotal remainder = .gt ↔
          remainder.toInt < divisor.toInt * 2 ^ shift := by
        rw [cmpTotal_gt_iff, shlBits_toInt]
      by_cases hlarge : remainder.toInt < divisor.toInt * 2 ^ shift
      · rw [if_pos hlarge] at hfits hshorter
        rw [if_pos (hgreater.2 hlarge), if_neg (hshift hlarge)]
        exact hround (shift - 1) hfits hshorter
      · rw [if_neg hlarge] at hfits hshorter
        rw [if_neg (hlarge ∘ hgreater.1)]
        exact hround shift hfits hshorter

/-! ## Floor division -/

lemma abs_toInt (a : BigInt) : a.abs.toInt = |a.toInt| := by
  rw [abs]
  split
  · next hneg =>
    have hsign : a.sign = .neg := eq_of_beq hneg
    rw [negated_toInt, toInt_of_neg hsign, abs_neg, neg_neg, Nat.abs_cast]
  · next hnonneg =>
    cases hsign : a.sign with
    | zero => rw [toInt_of_zero hsign, abs_zero]
    | pos => rw [toInt_of_pos hsign, Nat.abs_cast]
    | neg => exact absurd (by rw [isNegative, hsign]; rfl) hnonneg

lemma bitLength_abs (a : BigInt) : a.abs.bitLength = a.bitLength := by
  rw [bitLength_eq, bitLength_eq, ← natAbs_toInt, ← natAbs_toInt, abs_toInt, Int.natAbs_abs]

lemma absDivModPositive_spec (a : BigInt) {divisor : BigInt} (hdivisor : 0 < divisor.toInt) :
    ∃ q r, a.absDivModPositive divisor = some (q, r) ∧
      q.toInt * divisor.toInt + r.toInt = |a.toInt| ∧ 0 ≤ r.toInt ∧ r.toInt < divisor.toInt := by
  have hdivisorAbs : divisor.abs.toInt = divisor.toInt := by
    rw [abs_toInt, abs_of_pos hdivisor]
  rw [absDivModPositive]
  split
  · next hzero =>
    refine ⟨zero, zero, rfl, ?_, ?_, ?_⟩
    · rw [isZero_iff.1 hzero, zero_toInt, zero_mul, abs_zero, add_zero]
    · rw [zero_toInt]
    · rwa [zero_toInt]
  · split
    · next hsmall =>
      rw [cmpTotal_lt_iff, hdivisorAbs] at hsmall
      refine ⟨zero, a.abs, rfl, ?_, ?_, hsmall⟩
      · rw [zero_toInt, zero_mul, zero_add, abs_toInt]
      · rw [abs_toInt]
        exact abs_nonneg _
    · have hnonneg : 0 ≤ a.abs.toInt := by
        rw [abs_toInt]
        exact abs_nonneg _
      have hrounds : a.abs.bitLength < a.bitLength + 1 := by
        rw [bitLength_abs]
        exact Nat.lt_succ_self _
      rw [← hdivisorAbs] at hdivisor
      obtain ⟨q, r, hloop, hvalue, hlow, hhigh⟩ := divLoop_spec hdivisor zero hnonneg hrounds
      rw [hdivisorAbs] at hvalue hhigh
      refine ⟨q, r, hloop, ?_, hlow, hhigh⟩
      rw [hvalue, zero_toInt, zero_mul, zero_add, abs_toInt]

lemma isZero_eq_false {a : BigInt} (h : a.toInt ≠ 0) : a.isZero = false := by
  cases hzero : a.isZero with
  | false => rfl
  | true => exact absurd (isZero_iff.1 hzero) h

/-- The remainder of a floor division lies between zero and the divisor. -/
lemma floor_remainder {r d : ℤ} (h : 0 ≤ r ∧ r < d ∨ d < r ∧ r ≤ 0) :
    r = 0 ∨ r.sign = d.sign ∧ |r| < |d| := by
  rcases eq_or_ne r 0 with hzero | hne
  · exact .inl hzero
  · rcases h with ⟨hlow, hhigh⟩ | ⟨hlow, hhigh⟩
    · have hpos : 0 < r := by omega
      rw [Int.sign_eq_one_of_pos hpos, Int.sign_eq_one_of_pos (hpos.trans hhigh), abs_of_pos hpos,
        abs_of_pos (hpos.trans hhigh)]
      exact .inr ⟨rfl, hhigh⟩
    · have hneg : r < 0 := by omega
      rw [Int.sign_eq_neg_one_of_neg hneg, Int.sign_eq_neg_one_of_neg (hlow.trans hneg),
        abs_of_neg hneg, abs_of_neg (hlow.trans hneg)]
      exact .inr ⟨rfl, by omega⟩

/-- Where the signs differ, a remainder takes one off the quotient. -/
lemma correction_spec (quotient remainder divisor : BigInt) :
    ∃ q r, (if !remainder.isZero then do
          return some (← quotient.sub one, ← remainder.add divisor)
        else some (some (quotient, remainder))) = some (some (q, r)) ∧
      q.toInt * divisor.toInt + r.toInt = quotient.toInt * divisor.toInt + remainder.toInt ∧
      r.toInt = if remainder.toInt = 0 then 0 else remainder.toInt + divisor.toInt := by
  by_cases hzero : remainder.toInt = 0
  · rw [isZero_iff.2 hzero]
    exact ⟨quotient, remainder, rfl, rfl, by rw [if_pos hzero, hzero]⟩
  · obtain ⟨q, hq, hqValue⟩ := sub_spec quotient one
    obtain ⟨r, hr, hrValue⟩ := add_spec remainder divisor
    rw [isZero_eq_false hzero, hq, hr]
    refine ⟨q, r, rfl, ?_, by rw [if_neg hzero, hrValue]⟩
    rw [hqValue, hrValue, one_toInt]
    ring

lemma divModFloor_parts (a : BigInt) {divisor : BigInt} (hdivisor : divisor.toInt ≠ 0) :
    ∃ q r, a.divModFloor divisor = some (some (q, r)) ∧
      a.toInt = q.toInt * divisor.toInt + r.toInt ∧
      (0 ≤ r.toInt ∧ r.toInt < divisor.toInt ∨ divisor.toInt < r.toInt ∧ r.toInt ≤ 0) := by
  have hdivisorPos : 0 < divisor.abs.toInt := by
    rw [abs_toInt]
    exact abs_pos.2 hdivisor
  obtain ⟨absQuotient, absRemainder, hloop, hvalue, hlow, hhigh⟩ :=
    absDivModPositive_spec a hdivisorPos
  rw [abs_toInt] at hvalue hhigh
  rw [divModFloor, isZero_eq_false hdivisor, if_neg (by decide)]
  by_cases hzero : a.toInt = 0
  · rw [isZero_iff.2 hzero, if_pos rfl]
    refine ⟨zero, zero, rfl, by rw [hzero, zero_toInt, zero_mul, add_zero], ?_⟩
    rw [zero_toInt]
    omega
  · rw [isZero_eq_false hzero, if_neg (by decide), hloop, Option.bind_eq_bind, Option.bind_some]
    simp only
    cases hsign : a.sign with
    | zero => exact absurd (toInt_of_zero hsign) hzero
    | pos =>
      rw [abs_of_nonneg (toInt_nonneg_of_pos hsign)] at hvalue
      rw [show a.isNegative = false by rw [isNegative, hsign]; rfl]
      cases hsignD : divisor.sign with
      | zero => exact absurd (toInt_of_zero hsignD) hdivisor
      | pos =>
        rw [abs_of_nonneg (toInt_nonneg_of_pos hsignD)] at hvalue hhigh
        refine ⟨absQuotient, absRemainder, ?_, hvalue.symm, .inl ⟨hlow, hhigh⟩⟩
        rw [bne_self_eq_false, Bool.and_false]
        rfl
      | neg =>
        rw [abs_of_nonpos (toInt_nonpos_of_neg hsignD)] at hvalue hhigh
        obtain ⟨q, r, hcorrection, hsum, hr⟩ :=
          correction_spec absQuotient.negated absRemainder divisor
        refine ⟨q, r, ?_, ?_, .inr ?_⟩
        · rw [show (SignType.pos != SignType.neg) = true from rfl, Bool.and_true]
          exact hcorrection
        · rw [hsum, negated_toInt]
          linarith
        · rw [hr]
          split <;> omega
    | neg =>
      rw [abs_of_nonpos (toInt_nonpos_of_neg hsign)] at hvalue
      rw [show a.isNegative = true by rw [isNegative, hsign]; rfl]
      cases hsignD : divisor.sign with
      | zero => exact absurd (toInt_of_zero hsignD) hdivisor
      | pos =>
        rw [abs_of_nonneg (toInt_nonneg_of_pos hsignD)] at hvalue hhigh
        obtain ⟨q, r, hcorrection, hsum, hr⟩ :=
          correction_spec absQuotient.negated absRemainder.negated divisor
        rw [negated_toInt absRemainder] at hr hsum
        refine ⟨q, r, ?_, ?_, .inl ?_⟩
        · rw [show (SignType.neg != SignType.pos) = true from rfl, Bool.and_true]
          exact hcorrection
        · rw [hsum, negated_toInt]
          linarith
        · rw [hr]
          split <;> omega
      | neg =>
        rw [abs_of_nonpos (toInt_nonpos_of_neg hsignD)] at hvalue hhigh
        refine ⟨absQuotient, absRemainder.negated, ?_, ?_, .inr ?_⟩
        · rw [bne_self_eq_false, Bool.and_false]
          rfl
        · rw [negated_toInt]
          linarith
        · rw [negated_toInt]
          omega

/-- **Division rounds towards minus infinity.**  It ends with a quotient and a remainder that make
up the dividend, and the remainder has the sign of the divisor and is smaller. -/
theorem divModFloor_spec (a divisor : BigInt) (hdivisor : divisor.toInt ≠ 0) :
    ∃ q r, a.divModFloor divisor = some (some (q, r)) ∧
      a.toInt = q.toInt * divisor.toInt + r.toInt ∧
      (r.toInt = 0 ∨ r.toInt.sign = divisor.toInt.sign ∧ |r.toInt| < |divisor.toInt|) := by
  obtain ⟨q, r, hparts, hvalue, hbounds⟩ := divModFloor_parts a hdivisor
  exact ⟨q, r, hparts, hvalue, floor_remainder hbounds⟩

/-- `-7` divided by `2`. -/
theorem divModFloor_spec_neg_seven :
    ∃ q r, (fromI64 (-7)).divModFloor (fromI64 2) = some (some (q, r)) ∧
      (fromI64 (-7)).toInt = q.toInt * (fromI64 2).toInt + r.toInt ∧
      (r.toInt = 0 ∨ r.toInt.sign = (fromI64 2).toInt.sign ∧ |r.toInt| < |(fromI64 2).toInt|) :=
  divModFloor_spec (fromI64 (-7)) (fromI64 2) (by rw [fromI64_toInt]; decide)

end Pyrs.BigInt
