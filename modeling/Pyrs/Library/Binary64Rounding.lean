import Mathlib.Tactic.Linarith
import Pyrs.Library.Binary64Order

/-!
# Rounding to integers

The greatest integer up to a number, the least one from it on and its integral part are numbers
again, and exact.  The cast to `i64` saturates.
-/

namespace Binary64

/-! ## Operations -/

/-- `f64::floor` -/
def floor (x : Binary64) : Binary64 :=
  if x.isFinite then ofNat x.sign (if x.sign then x.ceilNat else x.floorNat) else x

/-- `f64::ceil` -/
def ceil (x : Binary64) : Binary64 :=
  if x.isFinite then ofNat x.sign (if x.sign then x.floorNat else x.ceilNat) else x

/-- `f64::trunc` -/
def trunc (x : Binary64) : Binary64 := if x.isFinite then ofNat x.sign x.floorNat else x

/-- The order of numbers; a NaN has none. -/
def lt (x y : Binary64) : Bool :=
  !x.isNaN && !y.isNaN && decide (x.signedMagnitude < y.signedMagnitude)

/-- The cast to `i64`. -/
def asI64 (x : Binary64) : Int64 :=
  if x.isNaN then 0
  else Int64.ofInt (max (-2 ^ 63) (min (x.signedMagnitude.tdiv (2 ^ unitExponent)) (2 ^ 63 - 1)))

/-! ## Integral numbers -/

def signed (sign : Bool) (n : ℕ) : ℤ := if sign then -n else n

lemma isNaN_pack (sign : Bool) {field : ℕ} (h : field ≤ infinityField) :
    (pack sign field).isNaN = false := by
  have hfield : (pack sign field).field = field := field_pack sign (h.trans_lt (by decide))
  have hfraction := (pack sign field).fraction_lt
  rw [← hfield, Binary64.field, infinityField] at h
  rw [isNaN, Bool.and_eq_false_imp]
  intro hexponent
  have hexponent : (pack sign field).exponent = 2047 := eq_of_beq hexponent
  rw [bne_eq_false_iff_eq]
  omega

lemma isNaN_ofNat (sign : Bool) (n : ℕ) : (ofNat sign n).isNaN = false := by
  rw [ofNat_eq_pack]
  exact isNaN_pack sign (natField_faithful n).1

lemma sign_ofNat (sign : Bool) (n : ℕ) : (ofNat sign n).sign = sign := by
  rw [ofNat_eq_pack]
  exact sign_pack sign ((natField_faithful n).1.trans_lt (by decide))

/-- An integer that is a finite number. -/
def Exact (n : ℕ) : Prop := Representable n ∧ n.log2 < 1024

lemma signedMagnitude_ofNat {n : ℕ} (h : Exact n) (sign : Bool) :
    (ofNat sign n).signedMagnitude = signed sign n * 2 ^ unitExponent := by
  rw [signedMagnitude, sign_ofNat, (ofNat_exact h.1 h.2 sign).2, signed]
  split
  · push_cast
    rw [neg_mul]
  · push_cast
    rfl

lemma lt_ofNat {m n : ℕ} (hm : Exact m) (hn : Exact n) (s t : Bool) :
    (ofNat s m).lt (ofNat t n) = decide (signed s m < signed t n) := by
  have hunit : (0 : ℤ) < 2 ^ unitExponent := pow_pos (by decide) _
  rw [lt, isNaN_ofNat, isNaN_ofNat, signedMagnitude_ofNat hm, signedMagnitude_ofNat hn,
    Bool.not_false, Bool.true_and, Bool.true_and, decide_eq_decide]
  exact Int.mul_lt_mul_right hunit

lemma asI64_ofNat {n : ℕ} (h : Exact n) (sign : Bool) :
    (ofNat sign n).asI64 = Int64.ofInt (max (-2 ^ 63) (min (signed sign n) (2 ^ 63 - 1))) := by
  have hunit : (2 : ℤ) ^ unitExponent ≠ 0 := pow_ne_zero _ (by decide)
  rw [asI64, isNaN_ofNat, if_neg Bool.false_ne_true, signedMagnitude_ofNat h,
    Int.mul_tdiv_cancel _ hunit]

/-- A magnitude beyond the finite numbers. -/
lemma ofNat_of_large {n : ℕ} (h : 1024 ≤ n.log2) (sign : Bool) :
    ofNat sign n = pack sign infinityField := by
  rw [ofNat_eq_pack, natField_of_large h]

/-! ## Exactness -/

lemma exact_floor_ceil {x : Binary64} (h : x.isFinite = true) :
    Exact x.floorNat ∧ Exact x.ceilNat := by
  obtain ⟨hfloor, hceil⟩ := x.representable_floor_ceil
  have hexponent := x.exponent_lt
  have hfraction := x.fraction_lt
  have hfinite : x.exponent ≠ 2047 := by simpa [isFinite] using h
  have hmax : ∀ top, x.exponent ≤ top + 1 → x.magnitude ≤ (2 ^ 53 - 1) * 2 ^ top := by
    intro top htop
    have hpos := Nat.two_pow_pos top
    rw [magnitude]
    split
    · have hone := Nat.mul_le_mul_left (2 ^ 53 - 1) hpos
      omega
    · exact Nat.mul_le_mul (by omega) (Nat.pow_le_pow_right (by decide) (by omega))
  obtain ⟨shift, hshift⟩ : ∃ shift, shift = 971 := ⟨_, rfl⟩
  have hmagnitude := hmax (shift + unitExponent) (by rw [unitExponent]; omega)
  rw [pow_add, ← Nat.mul_assoc] at hmagnitude
  have hlarge : (2 ^ 53 - 1) * 2 ^ shift < 2 ^ (53 + shift) := by
    rw [pow_add]
    exact Nat.mul_lt_mul_of_pos_right (by decide) (Nat.two_pow_pos shift)
  have hlog : ∀ n, n ≤ (2 ^ 53 - 1) * 2 ^ shift → n.log2 < 1024 := by
    intro n hn
    rcases Nat.eq_zero_or_pos n with rfl | hpos
    · rw [Nat.log2_zero]
      omega
    · have := (Nat.log2_lt hpos.ne').2 (hn.trans_lt hlarge)
      omega
  refine ⟨⟨hfloor, hlog _ ?_⟩, hceil, hlog _ (ceilNat_le_iff.2 hmagnitude)⟩
  exact Nat.le_of_mul_le_mul_right ((le_floorNat_iff.1 le_rfl).trans hmagnitude)
    (Nat.two_pow_pos _)

/-- The greatest integer up to a finite number. -/
def floorInt (x : Binary64) : ℤ := x.signedMagnitude / 2 ^ unitExponent

/-- The least integer from a finite number on. -/
def ceilInt (x : Binary64) : ℤ := -(-x.signedMagnitude / 2 ^ unitExponent)

/-- A finite number, rounded towards zero. -/
def truncInt (x : Binary64) : ℤ := x.signedMagnitude.tdiv (2 ^ unitExponent)

lemma magnitude_ediv (x : Binary64) : (x.magnitude : ℤ) / 2 ^ unitExponent = x.floorNat := by
  rw [floorNat]
  push_cast
  rfl

lemma neg_magnitude_ediv (x : Binary64) :
    (-x.magnitude : ℤ) / 2 ^ unitExponent = -x.ceilNat := by
  have hunit : (0 : ℤ) < 2 ^ unitExponent := pow_pos (by decide) _
  refine le_antisymm (Int.lt_add_one_iff.1 ?_) ?_
  · have hbelow : ¬x.magnitude ≤ (x.ceilNat - 1) * 2 ^ unitExponent ∨ x.ceilNat = 0 := by
      rw [← ceilNat_le_iff]
      omega
    rw [Int.ediv_lt_iff_lt_mul hunit]
    rcases hbelow with hbelow | hzero
    · have hpos : 0 < x.ceilNat := by
        by_contra hzero
        have hzero : x.ceilNat = 0 := by omega
        exact hbelow ((ceilNat_le_iff.1 hzero.le).trans (by rw [Nat.zero_mul]; exact Nat.zero_le _))
      have hcast : ((x.ceilNat - 1 : ℕ) : ℤ) * 2 ^ unitExponent < x.magnitude := by
        exact_mod_cast not_le.1 hbelow
      rw [Nat.cast_sub hpos] at hcast
      push_cast at hcast
      linarith
    · rw [hzero]
      push_cast
      linarith
  · rw [Int.le_ediv_iff_mul_le hunit, neg_mul, neg_le_neg_iff]
    exact_mod_cast ceilNat_le_iff.1 (le_refl x.ceilNat)

lemma floorInt_eq (x : Binary64) :
    x.floorInt = signed x.sign (if x.sign then x.ceilNat else x.floorNat) := by
  rw [floorInt, signedMagnitude, signed]
  split
  · exact x.neg_magnitude_ediv
  · exact x.magnitude_ediv

lemma ceilInt_eq (x : Binary64) :
    x.ceilInt = signed x.sign (if x.sign then x.floorNat else x.ceilNat) := by
  rw [ceilInt, signedMagnitude, signed]
  split
  · rw [neg_neg, magnitude_ediv]
  · rw [neg_magnitude_ediv, neg_neg]

lemma truncInt_eq (x : Binary64) : x.truncInt = signed x.sign x.floorNat := by
  have hnonneg : (x.magnitude : ℤ).tdiv (2 ^ unitExponent) = x.floorNat := by
    rw [Int.tdiv_eq_ediv_of_nonneg (Int.natCast_nonneg _), magnitude_ediv]
  rw [truncInt, signedMagnitude, signed]
  split
  · rw [Int.neg_tdiv, hnonneg]
  · exact hnonneg

end Binary64
