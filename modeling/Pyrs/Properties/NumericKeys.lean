import Pyrs.Model.Numbers

/-!
# The equality of numeric keys

The equality of numeric keys is reflexive and symmetric.  It is transitive but for the rounding of
an `i64` that is compared with a float: two integers may equal one float, and an integer may equal a
float that the big integer of its value does not.
-/

namespace Pyrs

open Binary64

/-! ## Floats and integers -/

lemma shiftMantissa_mul {mantissa exponent magnitude : ℕ} (hexponent : exponent ≠ 0)
    (h : shiftMantissa mantissa exponent = some magnitude) :
    magnitude * 2 ^ unitExponent = mantissa * 2 ^ (exponent - 1) := by
  rw [shiftMantissa] at h
  split at h
  · obtain rfl := Option.some.inj h
    have hshift : exponent - 1 = exponent - 1075 + unitExponent := by
      rw [unitExponent]
      omega
    rw [Nat.shiftLeft_eq, hshift, Nat.pow_add, ← Nat.mul_assoc]
  · split at h
    · cases h
    · rename_i hlt hlow
      obtain rfl := Option.some.inj h
      have hpow : 2 ^ unitExponent = 2 ^ (1075 - exponent) * 2 ^ (exponent - 1) := by
        have hshift : 1075 - exponent + (exponent - 1) = unitExponent := by
          rw [unitExponent]
          omega
        rw [← Nat.pow_add, hshift]
      have hdvd := Nat.dvd_of_mod_eq_zero (not_not.1 hlow)
      rw [Nat.shiftRight_eq_div_pow, hpow, ← Nat.mul_assoc, Nat.div_mul_cancel hdvd]

/-- A number with no exponent and a fraction is less than one. -/
lemma isIntegral_of_exponent_zero {x : Binary64} (hexponent : x.exponent = 0)
    (hintegral : x.isIntegral = true) : x.isZero = true := by
  have hmagnitude : x.magnitude = x.fraction := if_pos hexponent
  have hmod : x.fraction % 2 ^ unitExponent = 0 := by
    simpa [isIntegral, hmagnitude] using hintegral
  have hlt : x.fraction < 2 ^ unitExponent :=
    x.fraction_lt.trans (Nat.pow_lt_pow_right (by decide) (by decide))
  rw [Nat.mod_eq_of_lt hlt] at hmod
  rw [isZero, hexponent, hmod]
  rfl

lemma ofInt_signed (sign : Bool) {magnitude : ℕ} (h : magnitude ≠ 0) :
    ofInt (signed sign magnitude) = ofNat sign magnitude := by
  rw [ofInt, signed]
  cases sign with
  | false =>
    have hpos : ¬(magnitude : ℤ) < 0 := by omega
    rw [if_neg Bool.false_ne_true, decide_eq_false hpos, Int.natAbs_natCast]
  | true =>
    have hneg : -(magnitude : ℤ) < 0 := by omega
    rw [if_pos rfl, decide_eq_true hneg, Int.natAbs_neg, Int.natAbs_natCast]

/-- A float that stands for an integer is the conversion of it. -/
lemma ofInt_of_fromF64Integral {x : Binary64} {n : ℤ} (h : fromF64Integral x = some n) :
    (ofInt n).eq x = true := by
  rw [fromF64Integral] at h
  split at h
  · cases h
  rename_i hinfinite
  have hfinite : x.isFinite = true := by simpa using hinfinite
  have hnan : x.isNaN = false := by
    have hmax : x.exponent ≠ 2047 := by simpa [isFinite] using hfinite
    simp [isNaN, hmax]
  split at h
  · rename_i hzero
    obtain rfl := Option.some.inj h
    exact eq_iff.2 ⟨by decide, hnan, .inr ⟨by decide, hzero⟩⟩
  rename_i hnonzero
  split at h
  · cases h
  rename_i hintegral
  split at h
  · rename_i hexponent
    exact absurd (isIntegral_of_exponent_zero hexponent (by simpa using hintegral)) hnonzero
  rename_i hexponent
  obtain ⟨magnitude, hshift, rfl⟩ := Option.map_eq_some_iff.1 h
  have hmul := shiftMantissa_mul hexponent hshift
  have hne : magnitude ≠ 0 := by
    rintro rfl
    rw [Nat.zero_mul] at hmul
    exact absurd hmul.symm (Nat.mul_pos (by omega) (Nat.two_pow_pos _)).ne'
  have hmagnitude : magnitude * 2 ^ unitExponent = x.magnitude := hmul.trans (if_neg hexponent).symm
  rw [ofInt_signed x.sign hne, ofNat_of_magnitude hfinite hne hmagnitude]
  exact eq_self hnan

/-- Equal floats stand for the same integer. -/
lemma fromF64Integral_congr {x y : Binary64} (h : x.eq y = true) :
    fromF64Integral x = fromF64Integral y := by
  obtain ⟨-, -, rfl | ⟨hx, hy⟩⟩ := eq_iff.1 h
  · rfl
  · have hfinite : ∀ z : Binary64, z.isZero = true → fromF64Integral z = some 0 := by
      intro z hz
      have hexponent : z.exponent = 0 := by
        have hboth : z.exponent = 0 ∧ z.fraction = 0 := by simpa [isZero] using hz
        exact hboth.1
      rw [fromF64Integral, isFinite, hexponent, hz]
      rfl
    rw [hfinite x hx, hfinite y hy]

/-! ## Keys -/

namespace Number

/-- The integer of a key that is no float. -/
def exact : Number → Option ℤ
  | .bool value => some (boolToInt value)
  | .int value => some value.toInt
  | .bigInt value => some value
  | .float _ => none

/-- A key that is no float equals a float: a big integer that the float stands for, and another one
whose conversion equals it. -/
def ConvertsTo (x : Binary64) : Number → Prop
  | .bool value => (boolToF64 value).eq x = true
  | .int value => (int64ToF64 value).eq x = true
  | .bigInt value => fromF64Integral x = some value
  | .float _ => False

/-- The triples at which the equality is not transitive. -/
inductive Clash (a b c : Number) : Prop
  /-- Two keys with different integers convert to one float. -/
  | float (x : Binary64) (m n : ℤ) (hb : b = .float x) (ha : a.exact = some m)
      (hc : c.exact = some n) (hne : m ≠ n) (hleft : a.ConvertsTo x) (hright : c.ConvertsTo x)
  /-- An integer converts to a float that does not stand for it. -/
  | left (x : Binary64) (n : Int64) (ha : a = .float x) (hb : b = .int n)
      (hc : c = .bigInt n.toInt) (hround : (int64ToF64 n).eq x = true)
      (hne : fromF64Integral x ≠ some n.toInt)
  | right (x : Binary64) (n : Int64) (ha : a = .bigInt n.toInt) (hb : b = .int n)
      (hc : c = .float x) (hround : (int64ToF64 n).eq x = true)
      (hne : fromF64Integral x ≠ some n.toInt)

attribute [local simp] keyEqual eq

lemma keyEqual_exact {a b : Number} {m n : ℤ} (ha : a.exact = some m) (hb : b.exact = some n) :
    a.keyEqual b = true ↔ m = n := by
  cases a <;> cases ha <;> cases b <;> cases hb <;> simp [Int64.toInt_inj]
  rename_i a b
  cases a <;> cases b <;> decide

lemma any_eq_iff (converted : Option ℤ) (n : ℤ) :
    (converted.any fun other => other == n) = true ↔ converted = some n := by
  cases converted <;> simp

lemma keyEqual_float_right {a : Number} {m : ℤ} (ha : a.exact = some m) (x : Binary64) :
    a.keyEqual (.float x) = true ↔ a.ConvertsTo x := by
  cases a <;> cases ha <;> simp [ConvertsTo, any_eq_iff]

lemma keyEqual_float_left {a : Number} {m : ℤ} (ha : a.exact = some m) (x : Binary64) :
    keyEqual (.float x) a = true ↔ a.ConvertsTo x := by
  cases a <;> cases ha <;> simp [ConvertsTo, any_eq_iff, Binary64.eq_comm x]

lemma keyEqual_floats (x y : Binary64) :
    keyEqual (.float x) (.float y) = true ↔ x.eq y = true ∨ (x.isNaN = true ∧ x = y) := by
  have hsame : x.bits = y.bits ↔ x = y := by
    cases x
    cases y
    simp
  have hnan : (x.isNaN = true ∧ y.isNaN = true) ∧ x = y ↔ x.isNaN = true ∧ x = y :=
    ⟨fun h => ⟨h.1.1, h.2⟩, fun h => ⟨⟨h.1, h.2 ▸ h.1⟩, h.2⟩⟩
  simp [floatKeyEqual, hsame, hnan]

lemma exact_cases (a : Number) : (∃ m, a.exact = some m) ∨ ∃ x, a = .float x := by
  cases a with
  | float x => exact .inr ⟨x, rfl⟩
  | bool value => exact .inl ⟨_, rfl⟩
  | int value => exact .inl ⟨_, rfl⟩
  | bigInt value => exact .inl ⟨_, rfl⟩

lemma keyEqual_refl (a : Number) : a.keyEqual a = true := by
  obtain ⟨m, hm⟩ | ⟨x, rfl⟩ := a.exact_cases
  · exact (keyEqual_exact hm hm).2 rfl
  · rw [keyEqual_floats]
    cases hnan : x.isNaN with
    | true => exact .inr ⟨rfl, rfl⟩
    | false => exact .inl (eq_self hnan)

lemma keyEqual_symm {a b : Number} (h : a.keyEqual b = true) : b.keyEqual a = true := by
  obtain ⟨m, hm⟩ | ⟨x, rfl⟩ := a.exact_cases
  · obtain ⟨n, hn⟩ | ⟨y, rfl⟩ := b.exact_cases
    · exact (keyEqual_exact hn hm).2 ((keyEqual_exact hm hn).1 h).symm
    · exact (keyEqual_float_left hm y).2 ((keyEqual_float_right hm y).1 h)
  · obtain ⟨n, hn⟩ | ⟨y, rfl⟩ := b.exact_cases
    · exact (keyEqual_float_right hn x).2 ((keyEqual_float_left hn x).1 h)
    · rw [keyEqual_floats] at h ⊢
      obtain h | ⟨hnan, rfl⟩ := h
      · exact .inl (eq_symm h)
      · exact .inr ⟨hnan, rfl⟩

/-! ## Conversions -/

/-- A float that a key converts to is a number, and any equal float will do. -/
lemma ConvertsTo.congr {a : Number} {x y : Binary64} (h : a.ConvertsTo x)
    (hxy : keyEqual (.float x) (.float y) = true) : a.ConvertsTo y := by
  have hconverted : (∃ z : Binary64, z.eq x = true) := by
    cases a with
    | bool value => exact ⟨_, h⟩
    | int value => exact ⟨_, h⟩
    | bigInt value => exact ⟨_, ofInt_of_fromF64Integral h⟩
    | float value => exact h.elim
  obtain ⟨z, hz⟩ := hconverted
  have heq : x.eq y = true := by
    obtain heq | ⟨hnan, -⟩ := (keyEqual_floats x y).1 hxy
    · exact heq
    · rw [(eq_iff.1 hz).2.1] at hnan
      cases hnan
  cases a with
  | bool value => exact eq_trans h heq
  | int value => exact eq_trans h heq
  | bigInt value => exact (fromF64Integral_congr heq).symm.trans h
  | float value => exact h.elim

/-- The floats that a key converts to are equal. -/
lemma ConvertsTo.unique {a : Number} {x y : Binary64} (hx : a.ConvertsTo x)
    (hy : a.ConvertsTo y) : x.eq y = true := by
  cases a with
  | bool value => exact eq_trans (eq_symm hx) hy
  | int value => exact eq_trans (eq_symm hx) hy
  | bigInt value =>
    exact eq_trans (eq_symm (ofInt_of_fromF64Integral hx)) (ofInt_of_fromF64Integral hy)
  | float value => exact hx.elim

/-- Every key of an integer that a float stands for converts to the float. -/
lemma convertsTo_of_exact {a : Number} {m : ℤ} (ha : a.exact = some m) {x : Binary64}
    (h : fromF64Integral x = some m) : a.ConvertsTo x := by
  cases a with
  | bool value =>
    obtain rfl := Option.some.inj ha
    exact ofInt_of_fromF64Integral h
  | int value =>
    obtain rfl := Option.some.inj ha
    exact ofInt_of_fromF64Integral h
  | bigInt value =>
    obtain rfl := Option.some.inj ha
    exact h
  | float value => cases ha

lemma fromF64Integral_bool {value : Bool} {x : Binary64} (h : (boolToF64 value).eq x = true) :
    fromF64Integral x = some (boolToInt value) := by
  rw [← fromF64Integral_congr h]
  cases value
  · rfl
  · decide +kernel

/-- A key converts to a float as another key of the same integer does, unless the one is a big
integer, the other no boolean, and the float another integer. -/
lemma ConvertsTo.transfer {a b : Number} {m : ℤ} (ha : a.exact = some m) (hb : b.exact = some m)
    {x : Binary64} (h : a.ConvertsTo x)
    (hround : ∀ n : Int64, a = .int n → b = .bigInt n.toInt → fromF64Integral x = some n.toInt) :
    b.ConvertsTo x := by
  cases a with
  | bool value =>
    obtain rfl := Option.some.inj ha
    exact convertsTo_of_exact hb (fromF64Integral_bool h)
  | bigInt value =>
    obtain rfl := Option.some.inj ha
    exact convertsTo_of_exact hb h
  | int value =>
    obtain rfl := Option.some.inj ha
    cases b with
    | bool other =>
      have hsame : boolToInt other = value.toInt := Option.some.inj hb
      change (ofInt (boolToInt other)).eq x = true
      rw [hsame]
      exact h
    | int other =>
      have hsame : other.toInt = value.toInt := Option.some.inj hb
      rw [Int64.toInt_inj.1 hsame]
      exact h
    | bigInt other =>
      obtain rfl := Option.some.inj hb
      exact hround value rfl rfl
    | float other => cases hb
  | float value => cases ha

/-! ## Transitivity -/

lemma keyEqual_trans {a b c : Number} (hclash : ¬Clash a b c) (hab : a.keyEqual b = true)
    (hbc : b.keyEqual c = true) : a.keyEqual c = true := by
  obtain ⟨m, hm⟩ | ⟨x, rfl⟩ := b.exact_cases
  · obtain ⟨l, hl⟩ | ⟨y, rfl⟩ := a.exact_cases
    · obtain rfl := (keyEqual_exact hl hm).1 hab
      obtain ⟨n, hn⟩ | ⟨z, rfl⟩ := c.exact_cases
      · exact (keyEqual_exact hl hn).2 ((keyEqual_exact hm hn).1 hbc)
      · have hz := (keyEqual_float_right hm z).1 hbc
        refine (keyEqual_float_right hl z).2 (hz.transfer hm hl fun n hb ha => ?_)
        by_contra hne
        rw [hb] at hz
        exact hclash (.right z n ha hb rfl hz hne)
    · have hy := (keyEqual_float_left hm y).1 hab
      obtain ⟨n, hn⟩ | ⟨z, rfl⟩ := c.exact_cases
      · obtain rfl := (keyEqual_exact hm hn).1 hbc
        refine (keyEqual_float_left hn y).2 (hy.transfer hm hn fun n hb hc => ?_)
        by_contra hne
        rw [hb] at hy
        exact hclash (.left y n rfl hb hc hy hne)
      · exact (keyEqual_floats y z).2 (.inl (hy.unique ((keyEqual_float_right hm z).1 hbc)))
  · obtain ⟨l, hl⟩ | ⟨y, rfl⟩ := a.exact_cases
    · have hx := (keyEqual_float_right hl x).1 hab
      obtain ⟨n, hn⟩ | ⟨z, rfl⟩ := c.exact_cases
      · refine (keyEqual_exact hl hn).2 ?_
        by_contra hne
        exact hclash (.float x l n rfl hl hn hne hx ((keyEqual_float_left hn x).1 hbc))
      · exact (keyEqual_float_right hl z).2 (hx.congr hbc)
    · obtain ⟨n, hn⟩ | ⟨z, rfl⟩ := c.exact_cases
      · have hx := (keyEqual_float_left hn x).1 hbc
        exact (keyEqual_float_left hn y).2 (hx.congr (keyEqual_symm hab))
      · rw [keyEqual_floats] at hab hbc ⊢
        obtain hab | ⟨hnan, rfl⟩ := hab
        · obtain hbc | ⟨hnan, rfl⟩ := hbc
          · exact .inl (eq_trans hab hbc)
          · exact .inl hab
        · exact hbc

/-- At a clash the outer keys are not equal, though the middle one equals both. -/
lemma Clash.not_trans {a b c : Number} (h : Clash a b c) :
    a.keyEqual b = true ∧ b.keyEqual c = true ∧ ¬a.keyEqual c = true := by
  cases h with
  | float x m n hb ha hc hne hleft hright =>
    subst hb
    exact ⟨(keyEqual_float_right ha x).2 hleft, (keyEqual_float_left hc x).2 hright,
      fun hac => hne ((keyEqual_exact ha hc).1 hac)⟩
  | left x n ha hb hc hround hne =>
    subst ha hb hc
    exact ⟨(keyEqual_float_left rfl x).2 hround, (keyEqual_exact rfl rfl).2 rfl,
      fun hac => hne ((keyEqual_float_left rfl x).1 hac)⟩
  | right x n ha hb hc hround hne =>
    subst ha hb hc
    exact ⟨(keyEqual_exact rfl rfl).2 rfl, (keyEqual_float_right rfl x).2 hround,
      fun hac => hne ((keyEqual_float_right rfl x).1 hac)⟩

/-- The equality of numeric keys is an equivalence at three keys exactly where they do not clash. -/
theorem keyEqual_equivalence_iff (a b c : Number) :
    (a.keyEqual a = true ∧ (a.keyEqual b = true → b.keyEqual a = true) ∧
      (a.keyEqual b = true → b.keyEqual c = true → a.keyEqual c = true)) ↔ ¬Clash a b c := by
  constructor
  · rintro ⟨-, -, htrans⟩ hclash
    obtain ⟨hab, hbc, hac⟩ := hclash.not_trans
    exact hac (htrans hab hbc)
  · exact fun hclash => ⟨a.keyEqual_refl, keyEqual_symm, keyEqual_trans hclash⟩

/-- The float 2 ^ 53 equals both it and the next integer. -/
theorem keyEqual_not_transitive :
    keyEqual (.int 9007199254740993) (.float ⟨0x4340000000000000⟩) = true ∧
      keyEqual (.float ⟨0x4340000000000000⟩) (.int 9007199254740992) = true ∧
      keyEqual (.int 9007199254740993) (.int 9007199254740992) = false := by
  decide +kernel

end Number

end Pyrs
