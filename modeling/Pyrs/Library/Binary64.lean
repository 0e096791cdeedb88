import Mathlib.Data.UInt
import Mathlib.Tactic.Ring

/-!
# Binary64 numbers

A binary64 number is its bit pattern: a sign, eleven bits of exponent and fifty-two of fraction.
Two of them are equal as numbers when neither is a NaN and their bits are the same, or both are
zeros.  The conversion of an integer rounds to the nearest number, ties to the even one; an integer
that a number stands for exactly is converted to that number.
-/

structure Binary64 where
  bits : UInt64
deriving DecidableEq, Repr

namespace Binary64

/-! ## Fields -/

def sign (x : Binary64) : Bool := decide (2 ^ 63 ≤ x.bits.toNat)

def exponent (x : Binary64) : ℕ := x.bits.toNat / 2 ^ 52 % 2 ^ 11

def fraction (x : Binary64) : ℕ := x.bits.toNat % 2 ^ 52

/-- The number with a sign, and the exponent and the fraction side by side. -/
def pack (sign : Bool) (field : ℕ) : Binary64 :=
  ⟨UInt64.ofNat ((if sign then 2 ^ 63 else 0) + field)⟩

def isNaN (x : Binary64) : Bool := x.exponent == 2047 && x.fraction != 0

def isFinite (x : Binary64) : Bool := x.exponent != 2047

def isZero (x : Binary64) : Bool := x.exponent == 0 && x.fraction == 0

/-- Equality of numbers: a NaN equals nothing, and the zeros are equal. -/
def eq (x y : Binary64) : Bool :=
  !x.isNaN && !y.isNaN && (x == y || (x.isZero && y.isZero))

/-- The least positive number is `2 ^ (-1074)`. -/
def unitExponent : ℕ := 1074

/-- The magnitude of a finite number, in units of the least positive one. -/
def magnitude (x : Binary64) : ℕ :=
  if x.exponent = 0 then x.fraction else (2 ^ 52 + x.fraction) * 2 ^ (x.exponent - 1)

/-- The part of a finite number after the point is zero. -/
def isIntegral (x : Binary64) : Bool := x.magnitude % 2 ^ unitExponent == 0

lemma exponent_lt (x : Binary64) : x.exponent < 2 ^ 11 := Nat.mod_lt _ (by decide)

lemma fraction_lt (x : Binary64) : x.fraction < 2 ^ 52 := Nat.mod_lt _ (by decide)

lemma toNat_pack (sign : Bool) {field : ℕ} (h : field < 2 ^ 63) :
    (pack sign field).bits.toNat = (if sign then 2 ^ 63 else 0) + field := by
  rw [pack, UInt64.toNat_ofNat_of_lt']
  have hsize : UInt64.size = 2 ^ 64 := rfl
  split <;> omega

lemma pack_fields (x : Binary64) : pack x.sign (x.exponent * 2 ^ 52 + x.fraction) = x := by
  have hlt := x.bits.toNat_lt
  have hexponent := x.exponent_lt
  have hfraction := x.fraction_lt
  have hbits : (pack x.sign (x.exponent * 2 ^ 52 + x.fraction)).bits.toNat = x.bits.toNat := by
    rw [toNat_pack _ (by omega)]
    by_cases hsign : 2 ^ 63 ≤ x.bits.toNat
    · rw [sign, decide_eq_true hsign, if_pos rfl, exponent, fraction]
      omega
    · rw [sign, decide_eq_false hsign, if_neg Bool.false_ne_true, exponent, fraction]
      omega
  cases x
  exact congrArg Binary64.mk (UInt64.toNat_inj.1 hbits)

/-! ## Equality -/

lemma eq_iff {x y : Binary64} :
    x.eq y = true ↔ x.isNaN = false ∧ y.isNaN = false ∧ (x = y ∨ (x.isZero ∧ y.isZero)) := by
  simp [eq, and_assoc]

lemma eq_self {x : Binary64} (h : x.isNaN = false) : x.eq x = true :=
  eq_iff.2 ⟨h, h, .inl rfl⟩

lemma eq_symm {x y : Binary64} (h : x.eq y = true) : y.eq x = true := by
  obtain ⟨hx, hy, hsame⟩ := eq_iff.1 h
  exact eq_iff.2 ⟨hy, hx, hsame.imp Eq.symm And.symm⟩

lemma eq_comm (x y : Binary64) : x.eq y = y.eq x :=
  Bool.eq_iff_iff.2 ⟨eq_symm, eq_symm⟩

lemma eq_trans {x y z : Binary64} (hxy : x.eq y = true) (hyz : y.eq z = true) :
    x.eq z = true := by
  obtain ⟨hx, -, hxy⟩ := eq_iff.1 hxy
  obtain ⟨-, hz, hyz⟩ := eq_iff.1 hyz
  refine eq_iff.2 ⟨hx, hz, ?_⟩
  obtain rfl | ⟨hxzero, hyzero⟩ := hxy
  · exact hyz
  · obtain rfl | ⟨-, hzzero⟩ := hyz
    · exact .inr ⟨hxzero, hyzero⟩
    · exact .inr ⟨hxzero, hzzero⟩

/-! ## Conversion of integers -/

/-- A natural number without its low bits, rounded to the nearest, ties to the even one. -/
def roundShift (n shift : ℕ) : ℕ :=
  if 2 ^ shift < 2 * (n % 2 ^ shift) ∨ (2 * (n % 2 ^ shift) = 2 ^ shift ∧ n / 2 ^ shift % 2 = 1) then
    n / 2 ^ shift + 1
  else n / 2 ^ shift

/-- The fifty-three leading bits of a natural number, rounded. -/
def significand (n : ℕ) : ℕ :=
  if n.log2 ≤ 52 then n * 2 ^ (52 - n.log2) else roundShift n (n.log2 - 52)

/-- A significand that rounds up to `2 ^ 53` carries into the exponent, and from there to the
infinity. -/
def ofNat (sign : Bool) (n : ℕ) : Binary64 :=
  if n = 0 then pack sign 0
  else pack sign (min ((n.log2 + 1022) * 2 ^ 52 + significand n) (2047 * 2 ^ 52))

def ofInt (n : ℤ) : Binary64 := ofNat (decide (n < 0)) n.natAbs

/-! ## Arithmetic of integers -/

def neg (x : Binary64) : Binary64 := pack (!x.sign) (x.exponent * 2 ^ 52 + x.fraction)

def withSign (negative : Bool) (x : Binary64) : Binary64 := if negative then x.neg else x

/-- The integer that an integral number, without its sign, stands for. -/
def integerValue (x : Binary64) : ℕ := x.magnitude / 2 ^ unitExponent

/-- The product of a nonnegative integral number and a natural one. -/
def scaleNat (x : Binary64) (factor : ℕ) : Binary64 :=
  if x.isFinite then ofNat false (x.integerValue * factor) else x

/-- The sum of a nonnegative integral number and a natural one. -/
def addNat (x : Binary64) (n : ℕ) : Binary64 :=
  if x.isFinite then ofNat false (x.integerValue + n) else x

/-! ## Exact conversions -/

lemma roundShift_mul (n shift : ℕ) : roundShift (n * 2 ^ shift) shift = n := by
  have hpos : 0 < 2 ^ shift := Nat.two_pow_pos shift
  rw [roundShift, Nat.mul_mod_left, Nat.mul_div_cancel _ hpos, if_neg]
  rintro (hlt | ⟨heq, -⟩)
  · exact absurd hlt (Nat.not_lt_zero _)
  · rw [Nat.mul_zero] at heq
    exact absurd heq.symm hpos.ne'

section Significand

variable {m : ℕ} (hm : 2 ^ 52 ≤ m) (hm' : m < 2 ^ 53) (k : ℕ)

include hm hm'

lemma log2_mul_two_pow : (m * 2 ^ k).log2 = 52 + k := by
  have hpos : 0 < 2 ^ k := Nat.two_pow_pos k
  have hne : m * 2 ^ k ≠ 0 := (Nat.mul_pos (by omega) hpos).ne'
  rw [Nat.log2_eq_iff hne, Nat.pow_add, show 52 + k + 1 = 53 + k by omega, Nat.pow_add]
  exact ⟨Nat.mul_le_mul_right _ hm, Nat.mul_lt_mul_of_pos_right hm' hpos⟩

/-- The significand of a number with fifty-three bits that is moved to the left. -/
lemma significand_mul_two_pow : significand (m * 2 ^ k) = m := by
  have hlog := log2_mul_two_pow hm hm' k
  rw [significand, hlog]
  by_cases hk : k = 0
  · subst hk
    rw [if_pos le_rfl, Nat.add_zero, Nat.sub_self, pow_zero, Nat.mul_one, Nat.mul_one]
  · rw [if_neg (by omega), Nat.add_sub_cancel_left, roundShift_mul]

/-- The logarithm and the significand of a number that has fifty-three bits once it is moved to
the left. -/
lemma significand_of_mul_two_pow {n : ℕ} (h : n * 2 ^ k = m) :
    n.log2 + k = 52 ∧ significand n = m := by
  have hpos : 0 < 2 ^ k := Nat.two_pow_pos k
  have hne : n ≠ 0 := by
    rintro rfl
    omega
  have hlog : n.log2 + k = 52 := by
    have hmul : (n * 2 ^ k).log2 = n.log2 + k := by
      rw [Nat.log2_eq_iff (Nat.mul_ne_zero hne hpos.ne'), Nat.pow_add,
        show n.log2 + k + 1 = n.log2 + 1 + k by omega, Nat.pow_add]
      exact ⟨Nat.mul_le_mul_right _ (Nat.log2_self_le hne),
        Nat.mul_lt_mul_of_pos_right Nat.lt_log2_self hpos⟩
    rw [← hmul, h, Nat.log2_eq_iff (by omega)]
    exact ⟨hm, hm'⟩
  refine ⟨hlog, ?_⟩
  rw [significand, if_pos (by omega), show 52 - n.log2 = k by omega, h]

end Significand

/-- An integer that a finite number stands for exactly is converted to it. -/
lemma ofNat_of_magnitude {x : Binary64} (hfinite : x.isFinite = true) {n : ℕ} (hn : n ≠ 0)
    (h : n * 2 ^ unitExponent = x.magnitude) : ofNat x.sign n = x := by
  have hexponent := x.exponent_lt
  have hfraction := x.fraction_lt
  have hmax : x.exponent ≠ 2047 := by simpa [isFinite] using hfinite
  have hne : x.exponent ≠ 0 := by
    intro hzero
    rw [magnitude, if_pos hzero] at h
    have hle : 2 ^ unitExponent ≤ n * 2 ^ unitExponent :=
      Nat.le_mul_of_pos_left _ (Nat.pos_of_ne_zero hn)
    have hlt : 2 ^ 52 < 2 ^ unitExponent := Nat.pow_lt_pow_right (by decide) (by decide)
    rw [h] at hle
    exact absurd (hfraction.trans hlt) (Nat.not_lt.2 hle)
  rw [magnitude, if_neg hne] at h
  set m := 2 ^ 52 + x.fraction with hm
  have hsignificand : n.log2 + 1022 + 1 = x.exponent ∧ significand n = m := by
    obtain ⟨k, hk⟩ | ⟨k, hk⟩ : (∃ k, x.exponent = 1075 + k) ∨ ∃ k, x.exponent + k = 1075 := by
      obtain hle | hle := Nat.le_total 1075 x.exponent
      · exact .inl ⟨x.exponent - 1075, by omega⟩
      · exact .inr ⟨1075 - x.exponent, by omega⟩
    · have heq : n = m * 2 ^ k := by
        have hshift : x.exponent - 1 = k + unitExponent := by
          rw [hk, unitExponent]
          omega
        rw [hshift, Nat.pow_add, ← Nat.mul_assoc] at h
        exact Nat.eq_of_mul_eq_mul_right (Nat.two_pow_pos unitExponent) h
      have hlog := log2_mul_two_pow (m := m) (by omega) (by omega) k
      have hsig := significand_mul_two_pow (m := m) (by omega) (by omega) k
      rw [heq]
      exact ⟨by omega, hsig⟩
    · have heq : n * 2 ^ k = m := by
        have hpow : 2 ^ unitExponent = 2 ^ k * 2 ^ (x.exponent - 1) := by
          have hexponent : k + (x.exponent - 1) = unitExponent := by
            rw [unitExponent]
            omega
          rw [← Nat.pow_add, hexponent]
        rw [hpow, ← Nat.mul_assoc] at h
        exact Nat.eq_of_mul_eq_mul_right (Nat.two_pow_pos (x.exponent - 1)) h
      obtain ⟨hlog, hsig⟩ := significand_of_mul_two_pow (m := m) (by omega) (by omega) k heq
      exact ⟨by omega, hsig⟩
  obtain ⟨hlog, hsig⟩ := hsignificand
  rw [ofNat, if_neg hn, hsig, hm]
  have hfield : min ((n.log2 + 1022) * 2 ^ 52 + (2 ^ 52 + x.fraction)) (2047 * 2 ^ 52) =
      x.exponent * 2 ^ 52 + x.fraction := by
    rw [← hlog]
    omega
  rw [hfield, pack_fields]

/-! ## Representable integers -/

/-- Fifty-three bits, moved to the left. -/
def Representable (n : ℕ) : Prop := ∃ m k, m < 2 ^ 53 ∧ n = m * 2 ^ k

lemma Representable.div {n : ℕ} (h : Representable n) (shift : ℕ) :
    Representable (n / 2 ^ shift) := by
  obtain ⟨m, k, hm, rfl⟩ := h
  obtain hle | hle := Nat.le_total shift k
  · refine ⟨m, k - shift, hm, ?_⟩
    obtain ⟨d, rfl⟩ := Nat.exists_eq_add_of_le hle
    rw [Nat.add_sub_cancel_left, Nat.pow_add, Nat.mul_left_comm,
      Nat.mul_div_cancel_left _ (Nat.two_pow_pos shift)]
  · refine ⟨m / 2 ^ (shift - k), 0, (Nat.div_le_self _ _).trans_lt hm, ?_⟩
    obtain ⟨d, rfl⟩ := Nat.exists_eq_add_of_le hle
    rw [Nat.add_sub_cancel_left, Nat.pow_add, pow_zero, Nat.mul_one, Nat.mul_comm m,
      Nat.mul_div_mul_left _ _ (Nat.two_pow_pos k)]

lemma Representable.mul {n : ℕ} (h : Representable n) (shift : ℕ) :
    Representable (n * 2 ^ shift) := by
  obtain ⟨m, k, hm, rfl⟩ := h
  exact ⟨m, k + shift, hm, by rw [Nat.pow_add, Nat.mul_assoc]⟩

/-- The significand of a representable number is the number, moved to fifty-three bits. -/
lemma significand_spec {n : ℕ} (h : Representable n) (hn : n ≠ 0) :
    2 ^ 52 ≤ significand n ∧ significand n < 2 ^ 53 ∧
      significand n * 2 ^ n.log2 = n * 2 ^ 52 := by
  have hlow := Nat.log2_self_le hn
  have hhigh : n < 2 ^ (n.log2 + 1) := Nat.lt_log2_self
  by_cases hlog : n.log2 ≤ 52
  · obtain ⟨d, hd⟩ := Nat.exists_eq_add_of_le hlog
    have hsig : significand n = n * 2 ^ d := by
      rw [significand, if_pos hlog, show 52 - n.log2 = d by omega]
    have hpos := Nat.two_pow_pos d
    rw [hsig]
    refine ⟨?_, ?_, ?_⟩
    · rw [hd, Nat.pow_add]
      exact Nat.mul_le_mul_right _ hlow
    · rw [show 53 = n.log2 + 1 + d by omega, Nat.pow_add]
      exact Nat.mul_lt_mul_of_pos_right hhigh hpos
    · rw [Nat.mul_assoc, ← Nat.pow_add, show d + n.log2 = 52 by omega]
  · obtain ⟨m, k, hm, hmk⟩ := h
    obtain ⟨d, hd⟩ : ∃ d, n.log2 = 52 + d := Nat.exists_eq_add_of_le (by omega)
    have hdk : d ≤ k := by
      by_contra hlt
      have hle : n < 2 ^ (53 + k) := by
        rw [hmk, Nat.pow_add]
        exact Nat.mul_lt_mul_of_pos_right hm (Nat.two_pow_pos k)
      have hlog2 : n.log2 < 53 + k := (Nat.log2_lt hn).2 hle
      omega
    obtain ⟨e, rfl⟩ := Nat.exists_eq_add_of_le hdk
    have hn' : n = m * 2 ^ e * 2 ^ d := by
      rw [hmk, Nat.add_comm d e, Nat.pow_add, Nat.mul_assoc]
    have hsig : significand n = m * 2 ^ e := by
      rw [significand, if_neg hlog, hd, Nat.add_sub_cancel_left]
      conv_lhs => rw [hn']
      exact roundShift_mul _ _
    have hpos := Nat.two_pow_pos d
    rw [hsig]
    refine ⟨?_, ?_, ?_⟩
    · rw [hd, Nat.pow_add, hn'] at hlow
      exact Nat.le_of_mul_le_mul_right hlow hpos
    · rw [hd, show 52 + d + 1 = 53 + d by omega, Nat.pow_add, hn'] at hhigh
      exact Nat.lt_of_mul_lt_mul_right hhigh
    · rw [hd, Nat.add_comm 52 d, Nat.pow_add, ← Nat.mul_assoc, ← hn']

/-- The conversion of a representable number is exact. -/
lemma ofNat_exact {n : ℕ} (h : Representable n) (hlog : n.log2 < 1024) (sign : Bool) :
    (ofNat sign n).isFinite = true ∧ (ofNat sign n).magnitude = n * 2 ^ unitExponent := by
  by_cases hn : n = 0
  · subst hn
    rw [Nat.zero_mul]
    cases sign <;> exact ⟨rfl, rfl⟩
  obtain ⟨hlow, hhigh, hvalue⟩ := significand_spec h hn
  have hfield : min ((n.log2 + 1022) * 2 ^ 52 + significand n) (2047 * 2 ^ 52) =
      (n.log2 + 1022) * 2 ^ 52 + significand n := by omega
  have hlt : (n.log2 + 1022) * 2 ^ 52 + significand n < 2 ^ 63 := by omega
  have hbits : (ofNat sign n).bits.toNat =
      (if sign then 2 ^ 63 else 0) + ((n.log2 + 1022) * 2 ^ 52 + significand n) := by
    rw [ofNat, if_neg hn, hfield, toNat_pack _ hlt]
  have hexponent : (ofNat sign n).exponent = n.log2 + 1023 := by
    rw [exponent, hbits]
    split <;> omega
  have hfraction : (ofNat sign n).fraction = significand n - 2 ^ 52 := by
    rw [fraction, hbits]
    split <;> omega
  refine ⟨?_, ?_⟩
  · have hne : n.log2 + 1023 ≠ 2047 := by omega
    rw [isFinite, hexponent]
    exact bne_iff_ne.2 hne
  · have hshift : n.log2 + 1023 - 1 + 52 = n.log2 + unitExponent := by
      rw [unitExponent]
      omega
    rw [magnitude, if_neg (by omega), hexponent, hfraction, Nat.add_sub_cancel' hlow]
    refine Nat.eq_of_mul_eq_mul_right (Nat.two_pow_pos 52) ?_
    rw [Nat.mul_assoc, ← Nat.pow_add, hshift, Nat.pow_add, ← Nat.mul_assoc, hvalue]
    ring

lemma integerValue_ofNat {n : ℕ} (h : Representable n) (hlog : n.log2 < 1024) (sign : Bool) :
    (ofNat sign n).integerValue = n := by
  rw [integerValue, (ofNat_exact h hlog sign).2, Nat.mul_div_cancel _ (Nat.two_pow_pos _)]

/-- The sum of a limb and a shifted representable number is rounded once. -/
lemma addNat_scaleNat {n limb shift : ℕ} (h : Representable n)
    (hlog : (n * 2 ^ shift).log2 < 1024) :
    ((ofNat false n).scaleNat (2 ^ shift)).addNat limb = ofNat false (n * 2 ^ shift + limb) := by
  have hle : n.log2 ≤ (n * 2 ^ shift).log2 := by
    by_cases hn : n = 0
    · simp [hn]
    · refine (Nat.le_log2 (Nat.mul_ne_zero hn (Nat.two_pow_pos shift).ne')).2 ?_
      exact (Nat.log2_self_le hn).trans (Nat.le_mul_of_pos_right _ (Nat.two_pow_pos shift))
  have hfirst := ofNat_exact h (hle.trans_lt hlog) false
  have hsecond := ofNat_exact (h.mul shift) hlog false
  rw [scaleNat, if_pos hfirst.1, integerValue_ofNat h (hle.trans_lt hlog), addNat,
    if_pos hsecond.1, integerValue_ofNat (h.mul shift) hlog]

lemma neg_pack {field : ℕ} (h : field < 2 ^ 63) : (pack false field).neg = pack true field := by
  have hbits : (pack false field).bits.toNat = field := by
    rw [toNat_pack _ h, if_neg Bool.false_ne_true, Nat.zero_add]
  have hsign : (pack false field).sign = false := by
    rw [sign, hbits]
    exact decide_eq_false (Nat.not_le.2 h)
  have hparts : (pack false field).exponent * 2 ^ 52 + (pack false field).fraction = field := by
    rw [exponent, fraction, hbits]
    omega
  rw [neg, hsign, hparts, Bool.not_false]

/-- The number with a sign. -/
lemma withSign_ofNat (negative : Bool) {n : ℕ} (hn : n ≠ 0) :
    withSign negative (ofNat false n) = ofNat negative n := by
  cases negative with
  | false => rw [withSign, if_neg Bool.false_ne_true]
  | true =>
    have hlt : min ((n.log2 + 1022) * 2 ^ 52 + significand n) (2047 * 2 ^ 52) < 2 ^ 63 := by omega
    rw [withSign, if_pos rfl, ofNat, if_neg hn, neg_pack hlt, ofNat, if_neg hn]

end Binary64
