import Pyrs.Library.Binary64Rounding

/-!
# Sums and products of floats

Both are rounded once, from the exact value in units of a power of two.
-/

namespace Binary64

/-! ## Operations -/

/-- The field of a natural number over a power of two.  Below the normal numbers the unit of the
rounding is fixed. -/
def scaledField (n shift : ℕ) : ℕ :=
  if n = 0 then 0
  else if n.log2 + 1022 < shift then roundShift n (shift - unitExponent)
  else min ((n.log2 + 1022 - shift) * 2 ^ 52 + significand n) infinityField

def ofScaled (sign : Bool) (n shift : ℕ) : Binary64 := pack sign (scaledField n shift)

def nan : Binary64 := pack false (infinityField + 2 ^ 51)

def add (x y : Binary64) : Binary64 :=
  if x.isNaN || y.isNaN then nan
  else if !x.isFinite then
    if !y.isFinite && x.sign != y.sign then nan else x
  else if !y.isFinite then y
  else
    let sum := x.signedMagnitude + y.signedMagnitude
    if sum = 0 then pack (x.sign && y.sign) 0 else ofScaled (decide (sum < 0)) sum.natAbs unitExponent

def mul (x y : Binary64) : Binary64 :=
  if x.isNaN || y.isNaN then nan
  else if !x.isFinite || !y.isFinite then
    if x.isZero || y.isZero then nan else pack (x.sign != y.sign) infinityField
  else ofScaled (x.sign != y.sign) (x.magnitude * y.magnitude) (unitExponent + unitExponent)

/-- The quotient by a power of two. -/
def divTwoPow (x : Binary64) (exponent : ℕ) : Binary64 :=
  if x.isFinite then ofScaled x.sign x.magnitude (unitExponent + exponent) else x

/-- The order of numbers, and equality; a NaN has none. -/
def le (x y : Binary64) : Bool :=
  !x.isNaN && !y.isNaN && decide (x.signedMagnitude ≤ y.signedMagnitude)

/-! ## Rounding -/

/-- Below the normal numbers a field is not above the first normal one. -/
lemma roundShift_subnormal {n shift : ℕ} (h : n.log2 + 1022 < shift) :
    roundShift n (shift - unitExponent) ≤ 2 ^ 52 := by
  refine roundShift_le ?_
  rw [← Nat.pow_add]
  calc n ≤ 2 ^ (n.log2 + 1) := Nat.lt_log2_self.le
    _ ≤ 2 ^ (52 + (shift - unitExponent)) :=
      Nat.pow_le_pow_right (by decide) (by rw [unitExponent]; omega)

lemma scaledField_le (n shift : ℕ) : scaledField n shift ≤ infinityField := by
  rw [scaledField]
  split_ifs with hn hlow
  · exact Nat.zero_le _
  · exact (roundShift_subnormal hlow).trans (by decide)
  · exact min_le_right _ _

/-- What is less than halfway above a number is not rounded beyond it. -/
lemma roundShift_le_of_lt {n shift q : ℕ} (h : 2 * n < (2 * q + 1) * 2 ^ shift) :
    roundShift n shift ≤ q := by
  have hparts := Nat.div_add_mod' n (2 ^ shift)
  rw [roundShift]
  generalize 2 ^ shift = unit at *
  generalize n / unit = d at *
  generalize n % unit = r at *
  have hdouble : (2 * q + 1) * unit = 2 * (q * unit) + unit := by ring
  split_ifs with hup
  · have hlt : d * unit < q * unit := by omega
    exact Nat.lt_of_mul_lt_mul_right hlt
  · have hlt : 2 * d * unit < (2 * q + 1) * unit := by
      rw [Nat.mul_assoc]
      omega
    have := Nat.lt_of_mul_lt_mul_right hlt
    omega

lemma log2_mul_pow {n : ℕ} (hn : n ≠ 0) (k : ℕ) : (n * 2 ^ k).log2 = n.log2 + k := by
  rw [Nat.log2_eq_iff (Nat.mul_ne_zero hn (Nat.two_pow_pos k).ne'), Nat.pow_add,
    show n.log2 + k + 1 = n.log2 + 1 + k by omega, Nat.pow_add]
  exact ⟨Nat.mul_le_mul_right _ (Nat.log2_self_le hn),
    Nat.mul_lt_mul_of_pos_right Nat.lt_log2_self (Nat.two_pow_pos k)⟩

lemma significand_mul_pow {n : ℕ} (h : Representable n) (hn : n ≠ 0) (k : ℕ) :
    significand (n * 2 ^ k) = significand n := by
  have hscaled := (significand_spec (h.mul k) (Nat.mul_ne_zero hn (Nat.two_pow_pos k).ne')).2.2
  rw [log2_mul_pow hn, Nat.pow_add, ← Nat.mul_assoc, Nat.mul_right_comm n] at hscaled
  have hvalue := (significand_spec h hn).2.2
  have hcancel := Nat.eq_of_mul_eq_mul_right (Nat.two_pow_pos k) hscaled
  exact Nat.eq_of_mul_eq_mul_right (Nat.two_pow_pos n.log2) (hcancel.trans hvalue.symm)

/-- An integer in units of a power of two. -/
lemma ofScaled_mul_pow {n : ℕ} (h : Representable n) (sign : Bool) (k : ℕ) :
    ofScaled sign (n * 2 ^ k) k = ofNat sign n := by
  rw [ofNat_eq_pack, ofScaled]
  congr 1
  rw [scaledField, natField]
  by_cases hn : n = 0
  · subst hn
    rw [Nat.zero_mul, if_pos rfl, if_pos rfl]
  · have hlog := log2_mul_pow hn k
    rw [if_neg (Nat.mul_ne_zero hn (Nat.two_pow_pos k).ne'), if_neg (by omega), if_neg hn, hlog,
      significand_mul_pow h hn, show n.log2 + k + 1022 - k = n.log2 + 1022 by omega]

lemma exact_of_lt {n : ℕ} (h : n < 2 ^ 53) : Exact n := by
  refine ⟨representable_of_le h.le, ?_⟩
  by_cases hn : n = 0
  · subst hn
    decide
  · exact ((Nat.log2_lt hn).2 h).trans (by decide)

lemma isFinite_ofNat {n : ℕ} (h : Exact n) (sign : Bool) : (ofNat sign n).isFinite = true :=
  (ofNat_exact h.1 h.2 sign).1

/-- Integers whose sum is below `2 ^ 53` are added exactly. -/
lemma add_ofNat {m n : ℕ} (h : m + n < 2 ^ 53) :
    (ofNat false m).add (ofNat false n) = ofNat false (m + n) := by
  have hm : Exact m := exact_of_lt (by omega)
  have hn : Exact n := exact_of_lt (by omega)
  have hsum : (m : ℤ) * 2 ^ unitExponent + n * 2 ^ unitExponent =
      ((m + n) * 2 ^ unitExponent : ℕ) := by
    push_cast
    ring
  rw [add, isNaN_ofNat, isNaN_ofNat, isFinite_ofNat hm, isFinite_ofNat hn, signedMagnitude_ofNat hm,
    signedMagnitude_ofNat hn, sign_ofNat, sign_ofNat, signed, signed, if_neg Bool.false_ne_true,
    if_neg Bool.false_ne_true, hsum]
  simp only [Bool.or_self, Bool.false_eq_true, if_false, Bool.not_true, Bool.and_self,
    Int.natAbs_natCast, Nat.cast_eq_zero]
  by_cases hzero : m + n = 0
  · rw [hzero, Nat.zero_mul, if_pos rfl]
    rfl
  · have hsign : decide ((((m + n) * 2 ^ unitExponent : ℕ) : ℤ) < 0) = false :=
      decide_eq_false (Int.not_lt.2 (Int.natCast_nonneg _))
    rw [if_neg (Nat.mul_ne_zero hzero (Nat.two_pow_pos _).ne'), hsign,
      ofScaled_mul_pow (representable_of_le h.le)]

/-! ## Products below an integer -/

lemma natField_eq {n : ℕ} (hn : n ≠ 0) (hlt : n < 2 ^ 53) :
    natField n = (n.log2 + 1022) * 2 ^ 52 + significand n := by
  have hsignificand := (significand_bounds hn).2
  have hlog : n.log2 < 53 := (Nat.log2_lt hn).2 hlt
  have hexponent : (n.log2 + 1022) * 2 ^ 52 ≤ 1074 * 2 ^ 52 := Nat.mul_le_mul_right _ (by omega)
  rw [natField, if_neg hn]
  refine min_eq_left ((Nat.add_le_add hexponent hsignificand).trans ?_)
  decide

/-- What is below an integer by a share of `2 ^ -53` is not rounded to it. -/
lemma scaledField_lt {n shift bound : ℕ} (hpos : 0 < bound) (hbound : bound < 2 ^ 53)
    (hshift : unitExponent < shift)
    (h : n * 2 ^ 53 + bound * 2 ^ shift ≤ bound * 2 ^ 53 * 2 ^ shift) :
    scaledField n shift < natField bound := by
  obtain ⟨hsig, hsig', hvalue⟩ := significand_spec (representable_of_le hbound.le) hpos.ne'
  have hboundlog := Nat.log2_self_le hpos.ne'
  have hfield := natField_eq hpos.ne' hbound
  rw [scaledField, hfield]
  split_ifs with hn hsubnormal
  · omega
  · have := roundShift_subnormal hsubnormal
    omega
  refine (min_le_left _ _).trans_lt ?_
  have hunit := Nat.two_pow_pos shift
  have hnlog := Nat.log2_self_le hn
  have hsmall : n < bound * 2 ^ shift := by
    refine Nat.lt_of_mul_lt_mul_right (a := 2 ^ 53) ?_
    rw [Nat.mul_right_comm]
    have := Nat.mul_pos hpos hunit
    omega
  have hle : n.log2 < bound.log2 + 1 + shift := by
    refine (Nat.pow_lt_pow_iff_right (a := 2) (by decide)).1 ?_
    rw [Nat.pow_add]
    exact hnlog.trans_lt (hsmall.trans
      (Nat.mul_lt_mul_of_pos_right Nat.lt_log2_self hunit))
  have hround := (significand_bounds hn).2
  rcases Nat.lt_or_ge (n.log2 + 1) (bound.log2 + shift) with hfar | hnear
  · omega
  rcases Nat.lt_or_ge n.log2 (bound.log2 + shift) with hbelow | hsame
  · -- The rounding reaches the next power of two only if the integer is above it.
    have hlog : n.log2 = bound.log2 + shift - 1 := by omega
    have hpow : 2 * 2 ^ n.log2 = 2 ^ bound.log2 * 2 ^ shift := by
      rw [← Nat.pow_succ', ← Nat.pow_add]
      congr 1
      omega
    have hsignificand : significand n < 2 ^ 52 + significand bound := by
      rcases hsig.lt_or_eq with hlt | heq
      · omega
      have hexact : bound = 2 ^ bound.log2 := by
        rw [← heq] at hvalue
        omega
      rw [← hexact] at hpow
      rw [Nat.mul_right_comm, ← hpow] at h
      have hle : significand n ≤ 2 ^ 53 - 1 := by
        refine significand_le ?_
        generalize 2 ^ n.log2 = top at h ⊢
        norm_num at h ⊢
        linarith
      omega
    omega
  · have hlog : n.log2 = bound.log2 + shift := by omega
    have hpow : 2 ^ n.log2 = 2 ^ bound.log2 * 2 ^ shift := by rw [hlog, Nat.pow_add]
    have hlarge : ¬n.log2 ≤ 52 := by
      rw [unitExponent] at hshift
      omega
    have hstrict : 2 ^ bound.log2 < bound := by
      refine lt_of_le_of_ne hboundlog fun heq => ?_
      rw [heq] at hpow
      omega
    have hsignificand : significand n ≤ significand bound - 1 := by
      rw [significand, if_neg hlarge]
      refine roundShift_le_of_lt (Nat.lt_of_mul_lt_mul_right (a := 2 ^ 52) ?_)
      have hscaled : significand bound * 2 ^ n.log2 = bound * 2 ^ 52 * 2 ^ shift := by
        rw [hpow, ← Nat.mul_assoc, hvalue]
      have hgap : 2 ^ n.log2 < bound * 2 ^ shift := by
        rw [hpow]
        exact Nat.mul_lt_mul_of_pos_right hstrict hunit
      rw [Nat.mul_assoc _ (2 ^ (n.log2 - 52)), ← two_pow_log2_sub hlarge]
      have hodd : 2 * (significand bound - 1) + 1 = 2 * significand bound - 1 := by omega
      rw [hodd, Nat.sub_mul, Nat.mul_assoc 2 (significand bound), hscaled, Nat.one_mul]
      have hdouble : bound * 2 ^ 53 * 2 ^ shift = 2 * (bound * 2 ^ 52 * 2 ^ shift) := by ring
      omega
    omega

lemma lt_of_magnitude {x y : Binary64} (hx : x.isNaN = false) (hy : y.isNaN = false)
    (hxsign : x.sign = false) (hysign : y.sign = false) (h : x.magnitude < y.magnitude) :
    x.lt y = true := by
  rw [lt, hx, hy, signedMagnitude, signedMagnitude, hxsign, hysign, if_neg Bool.false_ne_true,
    if_neg Bool.false_ne_true]
  exact decide_eq_true (Int.ofNat_lt.2 h)

lemma lt_zero_of_sign {x : Binary64} (h : x.sign = false) : x.lt (ofNat false 0) = false := by
  have hzero : (ofNat false 0).signedMagnitude = 0 := rfl
  rw [lt, signedMagnitude, h, hzero, if_neg Bool.false_ne_true,
    decide_eq_false (Int.not_lt.2 (Int.natCast_nonneg _)), Bool.and_false]

/-- The product of a share of at most `1 - 2 ^ -53` and an integer is below the integer. -/
lemma mul_lt {x : Binary64} {bound : ℕ} (hfinite : x.isFinite = true) (hsign : x.sign = false)
    (hx : x.magnitude * 2 ^ 53 + 2 ^ unitExponent ≤ 2 ^ 53 * 2 ^ unitExponent)
    (hpos : 0 < bound) (hbound : bound < 2 ^ 53) :
    (x.mul (ofNat false bound)).sign = false ∧
      (x.mul (ofNat false bound)).lt (ofNat false bound) = true := by
  have hbounded := exact_of_lt hbound
  obtain ⟨hexact, hmagnitude⟩ := ofNat_exact hbounded.1 hbounded.2 false
  have hnan : x.isNaN = false := by
    rw [isFinite, bne_iff_ne] at hfinite
    simp [isNaN, hfinite]
  have hmul : x.mul (ofNat false bound) =
      pack false (scaledField (x.magnitude * (bound * 2 ^ unitExponent))
        (unitExponent + unitExponent)) := by
    rw [mul, hnan, isNaN_ofNat, hfinite, hexact, hsign, sign_ofNat, hmagnitude]
    rfl
  have hgap : x.magnitude * (bound * 2 ^ unitExponent) * 2 ^ 53 +
      bound * 2 ^ (unitExponent + unitExponent) ≤
        bound * 2 ^ 53 * 2 ^ (unitExponent + unitExponent) := by
    have hscaled := Nat.mul_le_mul_left (bound * 2 ^ unitExponent) hx
    rw [Nat.pow_add]
    generalize 2 ^ unitExponent = unit at hscaled ⊢
    linarith
  have hfield := scaledField_lt hpos hbound (by decide) hgap
  set product :=
    scaledField (x.magnitude * (bound * 2 ^ unitExponent)) (unitExponent + unitExponent)
  have hinfinity := natField_faithful bound
  have hlt : product < 2 ^ 63 := (hfield.trans_le hinfinity.1).trans (by decide)
  have hbelow : (pack false product).magnitude < bound * 2 ^ unitExponent := by
    by_contra hge
    have hfinite : (pack false product).isFinite = true := by
      rw [isFinite_iff, field_pack false hlt]
      exact hfield.trans_le hinfinity.1
    have hle := (hinfinity.2 _ hfinite).2 (not_lt.1 hge)
    rw [field_pack false hlt] at hle
    omega
  rw [hmul]
  exact ⟨sign_pack false hlt, lt_of_magnitude (isNaN_pack false (scaledField_le _ _))
    (isNaN_ofNat _ _) (sign_pack false hlt) (sign_ofNat _ _) (hbelow.trans_eq hmagnitude.symm)⟩

/-- A number over a power of two, exactly. -/
lemma ofScaled_exact {n shift : ℕ} (h : Representable n) (hn : n ≠ 0)
    (hlow : shift ≤ n.log2 + 1022) (hhigh : n.log2 < shift + 1024) (sign : Bool) :
    (ofScaled sign n shift).isFinite = true ∧
      (ofScaled sign n shift).magnitude * 2 ^ shift = n * 2 ^ unitExponent := by
  obtain ⟨hsig, hsig', hvalue⟩ := significand_spec h hn
  have hscaled : scaledField n shift = (n.log2 + 1022 - shift) * 2 ^ 52 + significand n := by
    rw [scaledField, if_neg hn, if_neg (by omega), infinityField]
    omega
  have hlt : scaledField n shift < 2 ^ 63 := (scaledField_le n shift).trans_lt (by decide)
  have hfield : (ofScaled sign n shift).field = _ := field_pack sign hlt
  have hfraction := (ofScaled sign n shift).fraction_lt
  rw [hscaled, field] at hfield
  have hexponent : (ofScaled sign n shift).exponent = n.log2 + 1022 - shift + 1 := by omega
  have hrest : 2 ^ 52 + (ofScaled sign n shift).fraction = significand n := by omega
  constructor
  · rw [isFinite, bne_iff_ne]
    omega
  · have hunit : n.log2 + 1022 - shift + shift + 52 = n.log2 + unitExponent := by
      rw [unitExponent]
      omega
    rw [magnitude, if_neg (by omega), hrest, hexponent, Nat.add_sub_cancel, Nat.mul_assoc,
      ← Nat.pow_add]
    refine Nat.eq_of_mul_eq_mul_right (Nat.two_pow_pos 52) ?_
    rw [Nat.mul_assoc, ← Nat.pow_add, hunit, Nat.pow_add, ← Nat.mul_assoc, hvalue,
      Nat.mul_right_comm]

/-- The share that a number below `2 ^ 53` is of it. -/
lemma divTwoPow_spec {n : ℕ} (h : n < 2 ^ 53) :
    ((ofNat false n).divTwoPow 53).isFinite = true ∧ ((ofNat false n).divTwoPow 53).sign = false ∧
      ((ofNat false n).divTwoPow 53).magnitude * 2 ^ 53 = n * 2 ^ unitExponent := by
  have hexact := exact_of_lt h
  have hlog := hexact.2
  obtain ⟨hfinite, hmagnitude⟩ := ofNat_exact hexact.1 hlog false
  rw [divTwoPow, if_pos hfinite, sign_ofNat, hmagnitude]
  have hsign : (ofScaled false (n * 2 ^ unitExponent) (unitExponent + 53)).sign = false :=
    sign_pack false ((scaledField_le _ _).trans_lt (by decide))
  by_cases hn : n = 0
  · subst hn
    rw [Nat.zero_mul]
    exact ⟨rfl, rfl, rfl⟩
  · have hne : n * 2 ^ unitExponent ≠ 0 := Nat.mul_ne_zero hn (Nat.two_pow_pos _).ne'
    have hscaled : (n * 2 ^ unitExponent).log2 = n.log2 + unitExponent := log2_mul_pow hn _
    have hlow : unitExponent + 53 ≤ (n * 2 ^ unitExponent).log2 + 1022 := by omega
    have hhigh : (n * 2 ^ unitExponent).log2 < unitExponent + 53 + 1024 := by omega
    obtain ⟨hfinite, hvalue⟩ :=
      ofScaled_exact (hexact.1.mul unitExponent) hne hlow hhigh false
    refine ⟨hfinite, hsign, ?_⟩
    rw [Nat.pow_add, ← Nat.mul_assoc, Nat.mul_right_comm] at hvalue
    exact Nat.eq_of_mul_eq_mul_right (Nat.two_pow_pos unitExponent) hvalue

/-! ## Sums of nonnegative numbers -/

/-- No NaN, and no sign. -/
structure Nonneg (x : Binary64) : Prop where
  isNaN : x.isNaN = false
  sign : x.sign = false

lemma nonneg_ofNat (n : ℕ) : (ofNat false n).Nonneg := ⟨isNaN_ofNat false n, sign_ofNat false n⟩

lemma Nonneg.signedMagnitude {x : Binary64} (h : x.Nonneg) : x.signedMagnitude = x.magnitude := by
  rw [Binary64.signedMagnitude, h.sign, if_neg Bool.false_ne_true]

lemma Nonneg.le_zero_iff {x : Binary64} (h : x.Nonneg) :
    x.le (ofNat false 0) = false ↔ x.magnitude ≠ 0 := by
  have hzero : (ofNat false 0).signedMagnitude = 0 := rfl
  rw [le, h.isNaN, isNaN_ofNat, h.signedMagnitude, hzero]
  simp

lemma scaledField_pos {n shift : ℕ} (hn : n ≠ 0) (hshift : shift ≤ unitExponent) :
    scaledField n shift ≠ 0 := by
  rw [scaledField, if_neg hn]
  split
  · rw [Nat.sub_eq_zero_of_le hshift, roundShift, Nat.pow_zero, Nat.mod_one, Nat.div_one]
    split <;> omega
  · have hsignificand := (significand_bounds hn).1
    have hinfinity : 0 < infinityField := by decide
    omega

/-- A sum is not smaller than nothing, and not nothing unless both numbers are. -/
lemma Nonneg.add {x y : Binary64} (hx : x.Nonneg) (hy : y.Nonneg) (hfinite : y.isFinite = true) :
    (x.add y).Nonneg ∧ (x.magnitude ≠ 0 ∨ y.magnitude ≠ 0 → (x.add y).magnitude ≠ 0) := by
  rw [Binary64.add, hx.isNaN, hy.isNaN, hx.sign, hfinite, hx.signedMagnitude, hy.signedMagnitude]
  simp only [Bool.or_self, Bool.false_eq_true, if_false, Bool.not_true, Bool.false_and]
  by_cases hx' : x.isFinite = true
  · rw [if_neg (by simp [hx'])]
    by_cases hsum : (x.magnitude : ℤ) + y.magnitude = 0
    · rw [if_pos hsum]
      exact ⟨⟨rfl, rfl⟩, fun hne => by omega⟩
    · rw [if_neg hsum, decide_eq_false (by omega), ofScaled]
      have hle := scaledField_le ((x.magnitude : ℤ) + y.magnitude).natAbs unitExponent
      have hlt := hle.trans_lt (show infinityField < 2 ^ 63 by decide)
      refine ⟨⟨isNaN_pack false hle, sign_pack false hlt⟩, fun _ => ?_⟩
      rw [Ne, magnitude_eq_zero_iff, field_pack false hlt]
      exact scaledField_pos (by omega) le_rfl
  · rw [if_pos (by simp [hx'])]
    refine ⟨hx, fun _ => ?_⟩
    rw [Ne, magnitude_eq_zero_iff, field_of_not_isFinite hx.isNaN (by simpa using hx')]
    decide

end Binary64
