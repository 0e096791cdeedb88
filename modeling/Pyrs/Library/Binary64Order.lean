import Mathlib.Tactic.Positivity
import Pyrs.Library.Binary64

/-!
# The order of binary64 numbers

The exponent and the fraction side by side order the magnitudes, and the total order compares them
with the sign in front.  A conversion of integers is faithful when it never passes a number: what is
below the integer is not above its conversion, and the other way round.
-/

namespace Binary64

/-! ## Fields -/

/-- The exponent and the fraction side by side. -/
def field (x : Binary64) : ℕ := x.exponent * 2 ^ 52 + x.fraction

/-- The field of the infinities. -/
def infinityField : ℕ := 2047 * 2 ^ 52

@[simp] lemma field_pack (sign : Bool) {field : ℕ} (h : field < 2 ^ 63) :
    (pack sign field).field = field := by
  rw [Binary64.field, exponent, fraction, toNat_pack sign h]
  split <;> omega

@[simp] lemma sign_pack (sign : Bool) {field : ℕ} (h : field < 2 ^ 63) :
    (pack sign field).sign = sign := by
  rw [Binary64.sign, toNat_pack sign h]
  cases sign with
  | false =>
    rw [if_neg Bool.false_ne_true]
    exact decide_eq_false (by omega)
  | true =>
    rw [if_pos rfl]
    exact decide_eq_true (Nat.le_add_right _ _)

lemma pack_sign_field (x : Binary64) : pack x.sign x.field = x := pack_fields x

lemma pack_eq_iff {sign : Bool} {field : ℕ} (h : field < 2 ^ 63) {x : Binary64} :
    pack sign field = x ↔ sign = x.sign ∧ field = x.field := by
  constructor
  · rintro rfl
    rw [sign_pack sign h, field_pack sign h]
    exact ⟨rfl, rfl⟩
  · rintro ⟨rfl, rfl⟩
    exact pack_sign_field x

lemma isFinite_iff {x : Binary64} : x.isFinite = true ↔ x.field < infinityField := by
  have hexponent := x.exponent_lt
  have hfraction := x.fraction_lt
  rw [isFinite, bne_iff_ne, field, infinityField]
  omega

lemma field_le_infinityField {x : Binary64} (h : x.isNaN = false) : x.field ≤ infinityField := by
  have hexponent := x.exponent_lt
  have hfraction := x.fraction_lt
  have hnan : ¬(x.exponent = 2047 ∧ x.fraction ≠ 0) := by simpa [isNaN] using h
  rw [field, infinityField]
  omega

lemma field_of_not_isFinite {x : Binary64} (hnan : x.isNaN = false) (h : x.isFinite = false) :
    x.field = infinityField := by
  have hle := field_le_infinityField hnan
  have hge : ¬x.field < infinityField := fun hlt => by
    rw [isFinite_iff.2 hlt] at h
    cases h
  omega

lemma magnitude_eq_zero_iff {x : Binary64} : x.magnitude = 0 ↔ x.field = 0 := by
  have hpos := Nat.two_pow_pos (x.exponent - 1)
  rw [magnitude, field]
  split
  · next hzero => rw [hzero, Nat.zero_mul, Nat.zero_add]
  · next hne =>
    have : (2 ^ 52 + x.fraction) * 2 ^ (x.exponent - 1) ≠ 0 :=
      Nat.mul_ne_zero (by omega) hpos.ne'
    omega

/-! ## The total order -/

/-- The bits as a signed integer, with all but the sign turned over in a negative one. -/
def totalKey (x : Binary64) : ℤ := if x.sign then -1 - x.field else x.field

/-- `total_cmp` -/
def totalCmp (x y : Binary64) : Ordering := compare x.totalKey y.totalKey

lemma totalCmp_swap (x y : Binary64) : x.totalCmp y = (y.totalCmp x).swap :=
  Std.OrientedOrd.eq_swap

/-! ## Integers -/

/-- A finite number, in units of the least positive one. -/
def signedMagnitude (x : Binary64) : ℤ := if x.sign then -x.magnitude else x.magnitude

/-- The order of an integer and a number that is no NaN. -/
def compareInt (n : ℤ) (x : Binary64) : Ordering :=
  if x.isFinite then compare (n * 2 ^ unitExponent) x.signedMagnitude
  else if x.sign then .gt else .lt

/-- The field is not above that of any number from the integer on, and not below that of any number
up to it. -/
def Faithful (n field : ℕ) : Prop :=
  field ≤ infinityField ∧ ∀ x : Binary64, x.isFinite = true →
    (x.magnitude ≤ n * 2 ^ unitExponent → x.field ≤ field) ∧
      (n * 2 ^ unitExponent ≤ x.magnitude → field ≤ x.field)

/-- The order of a natural number and a number that is not negative. -/
lemma compare_field_iff {n field : ℕ} (h : Faithful n field) {x : Binary64}
    (hx : x.isNaN = false) :
    let exact := if x.isFinite then compare (n * 2 ^ unitExponent) x.magnitude else .lt
    compare field x.field = exact ↔ (field = x.field → exact = .eq) := by
  intro exact
  have hcompare : ∀ {o : Ordering}, exact = o → o ≠ .eq →
      (compare field x.field = o ↔ field ≠ x.field) →
      (compare field x.field = exact ↔ (field = x.field → exact = .eq)) := by
    intro o ho hne hiff
    rw [ho, hiff]
    exact ⟨fun h heq => absurd heq h, fun h heq => hne (h heq)⟩
  cases hfinite : x.isFinite with
  | true =>
    have hexact : exact = compare (n * 2 ^ unitExponent) x.magnitude := if_pos hfinite
    obtain ⟨hlow, hhigh⟩ := h.2 x hfinite
    rcases lt_trichotomy (n * 2 ^ unitExponent) x.magnitude with hlt | heq | hgt
    · refine hcompare (hexact.trans (compare_lt_iff_lt.2 hlt)) (by decide) ?_
      rw [compare_lt_iff_lt]
      have := hhigh hlt.le
      omega
    · have hfield : field = x.field := Nat.le_antisymm (hhigh heq.le) (hlow heq.ge)
      have heqExact : exact = .eq := hexact.trans (compare_eq_iff_eq.2 heq)
      rw [heqExact, compare_eq_iff_eq]
      exact ⟨fun _ _ => rfl, fun _ => hfield⟩
    · refine hcompare (hexact.trans (compare_gt_iff_gt.2 hgt)) (by decide) ?_
      rw [compare_gt_iff_gt]
      have := hlow hgt.le
      omega
  | false =>
    have hexact : exact = .lt := if_neg (by rw [hfinite]; exact Bool.false_ne_true)
    refine hcompare hexact (by decide) ?_
    have hle := h.1
    rw [compare_lt_iff_lt, field_of_not_isFinite hx hfinite]
    omega

lemma compare_reversed {a b : ℤ} {c d : ℕ} (hlt : a < b ↔ d < c) (hgt : b < a ↔ c < d) :
    compare a b = (compare c d).swap := by
  rcases lt_trichotomy c d with h | h | h
  · rw [compare_lt_iff_lt.2 h, compare_gt_iff_gt.2 (hgt.2 h)]
    rfl
  · have heq : a = b := by omega
    rw [compare_eq_iff_eq.2 h, compare_eq_iff_eq.2 heq]
    rfl
  · rw [compare_gt_iff_gt.2 h, compare_lt_iff_lt.2 (hlt.2 h)]
    rfl

lemma compare_natCast (c d : ℕ) : compare (c : ℤ) d = compare c d := by
  rcases lt_trichotomy c d with h | h | h
  · rw [compare_lt_iff_lt.2 h, compare_lt_iff_lt.2 (Int.ofNat_lt.2 h)]
  · rw [h, compare_eq_iff_eq.2 rfl, compare_eq_iff_eq.2 rfl]
  · rw [compare_gt_iff_gt.2 h, compare_gt_iff_gt.2 (Int.ofNat_lt.2 h)]

/-- **The total order of a conversion is that of the integer, but for a number that the integer is
converted to without being equal to it, and for the negative zero.** -/
theorem totalCmp_eq_iff {n : ℤ} {field : ℕ} (h : Faithful n.natAbs field) {x : Binary64}
    (hx : x.isNaN = false) :
    (pack (decide (n < 0)) field).totalCmp x = compareInt n x ↔
      (pack (decide (n < 0)) field = x → compareInt n x = .eq) ∧ ¬(n = 0 ∧ x = pack true 0) := by
  have hfield : field < 2 ^ 63 := h.1.trans_lt (by decide)
  have hnat := compare_field_iff h hx
  dsimp only at hnat
  have hunit : (0 : ℤ) < 2 ^ unitExponent := by positivity
  rw [pack_eq_iff hfield, totalCmp, totalKey, sign_pack _ hfield, field_pack _ hfield, totalKey]
  by_cases hneg : n < 0
  · have hne : ¬(n = 0 ∧ x = pack true 0) := fun h => by omega
    have habs : n = -n.natAbs := by omega
    have hproduct : n * 2 ^ unitExponent < 0 := mul_neg_of_neg_of_pos hneg hunit
    rw [decide_eq_true hneg, if_pos rfl, and_iff_left hne]
    cases hsign : x.sign with
    | true =>
      -- Both orders are turned round.
      have hkeys : compare (-1 - (field : ℤ)) (-1 - (x.field : ℤ)) =
          (compare field x.field).swap := compare_reversed (by omega) (by omega)
      have hexact : compareInt n x = Ordering.swap
          (if x.isFinite then compare (n.natAbs * 2 ^ unitExponent) x.magnitude else .lt) := by
        rw [compareInt, signedMagnitude, hsign]
        split
        · have hcast : n * 2 ^ unitExponent = -((n.natAbs * 2 ^ unitExponent : ℕ) : ℤ) := by
            rw [habs]
            push_cast
            simp
          rw [if_pos rfl, hcast]
          exact compare_reversed (by omega) (by omega)
        · rfl
      rw [if_pos rfl, hkeys, hexact, Ordering.swap_inj, hnat, Ordering.swap_eq_eq]
      exact ⟨fun h heq => h heq.2, fun h heq => h ⟨rfl, heq⟩⟩
    | false =>
      have hexact : compareInt n x = .lt := by
        rw [compareInt, signedMagnitude, hsign]
        split
        · rw [if_neg Bool.false_ne_true, compare_lt_iff_lt]
          omega
        · rfl
      rw [if_neg Bool.false_ne_true, hexact, compare_lt_iff_lt]
      exact ⟨fun _ h => absurd h.1 (by decide), fun _ => by omega⟩
  · have habs : n = n.natAbs := by omega
    have hcast : n * 2 ^ unitExponent = ((n.natAbs * 2 ^ unitExponent : ℕ) : ℤ) := by
      rw [habs]
      push_cast
      simp
    rw [decide_eq_false hneg, if_neg Bool.false_ne_true]
    cases hsign : x.sign with
    | true =>
      -- The integer is above all, but for a zero that has a sign.
      rw [if_pos rfl]
      have hzero : x = pack true 0 ↔ x.field = 0 := by
        rw [Eq.comm, pack_eq_iff (by decide), hsign]
        exact ⟨fun h => h.2.symm, fun h => ⟨rfl, h.symm⟩⟩
      have hexact : compareInt n x = .gt ↔ ¬(n = 0 ∧ x = pack true 0) := by
        rw [compareInt, signedMagnitude, hsign, if_pos rfl, if_pos rfl, hzero,
          ← magnitude_eq_zero_iff]
        cases hfinite : x.isFinite with
        | true =>
          rw [if_pos rfl, compare_gt_iff_gt, hcast]
          have hproduct : n.natAbs * 2 ^ unitExponent = 0 ↔ n.natAbs = 0 := by
            rw [Nat.mul_eq_zero]
            exact or_iff_left (Nat.two_pow_pos _).ne'
          omega
        | false =>
          have hfield := field_of_not_isFinite hx hfinite
          have hne : x.field ≠ 0 := by
            rw [hfield]
            decide
          rw [if_neg Bool.false_ne_true, magnitude_eq_zero_iff]
          exact ⟨fun _ h => hne h.2, fun _ => rfl⟩
      have hgt : compare (field : ℤ) (-1 - (x.field : ℤ)) = .gt := compare_gt_iff_gt.2 (by omega)
      rw [hgt]
      refine (Eq.comm.trans hexact).trans ?_
      exact ⟨fun h => ⟨fun hsame => absurd hsame.1 (by decide), h⟩, fun h => h.2⟩
    | false =>
      have hne : ¬(n = 0 ∧ x = pack true 0) := by
        rintro ⟨-, rfl⟩
        rw [sign_pack _ (by decide)] at hsign
        cases hsign
      have hexact : compareInt n x =
          if x.isFinite then compare (n.natAbs * 2 ^ unitExponent) x.magnitude else .lt := by
        rw [compareInt, signedMagnitude, hsign]
        split
        · rw [if_neg Bool.false_ne_true, hcast, compare_natCast]
        · rfl
      rw [if_neg Bool.false_ne_true, compare_natCast, hexact, and_iff_left hne, hnat]
      exact ⟨fun h heq => h heq.2, fun h heq => h ⟨rfl, heq⟩⟩

/-! ## Conversions -/

/-- The field of the conversion of a natural number. -/
def natField (n : ℕ) : ℕ :=
  if n = 0 then 0 else min ((n.log2 + 1022) * 2 ^ 52 + significand n) infinityField

lemma ofNat_eq_pack (sign : Bool) (n : ℕ) : ofNat sign n = pack sign (natField n) := by
  rw [ofNat, natField, infinityField]
  split <;> rfl

lemma roundShift_le {n shift q : ℕ} (h : n ≤ q * 2 ^ shift) : roundShift n shift ≤ q := by
  have hpos : 0 < 2 ^ shift := Nat.two_pow_pos shift
  have hparts := Nat.div_add_mod n (2 ^ shift)
  rw [roundShift]
  split
  · next hup =>
    have hlt : n / 2 ^ shift * 2 ^ shift < q * 2 ^ shift := by
      rw [Nat.mul_comm] at hparts
      omega
    exact Nat.lt_of_mul_lt_mul_right hlt
  · exact (Nat.div_le_iff_le_mul_add_pred hpos).2 (by rw [Nat.mul_comm] at h; omega)

lemma le_roundShift {n shift q : ℕ} (h : q * 2 ^ shift ≤ n) : q ≤ roundShift n shift := by
  have hle : q ≤ n / 2 ^ shift := (Nat.le_div_iff_mul_le (Nat.two_pow_pos shift)).2 h
  rw [roundShift]
  split
  · exact hle.trans (Nat.le_succ _)
  · exact hle

lemma two_pow_sub_log2 {n : ℕ} (h : n.log2 ≤ 52) : 2 ^ 52 = 2 ^ (52 - n.log2) * 2 ^ n.log2 := by
  rw [← pow_add, Nat.sub_add_cancel h]

lemma two_pow_log2_sub {n : ℕ} (h : ¬n.log2 ≤ 52) : 2 ^ n.log2 = 2 ^ (n.log2 - 52) * 2 ^ 52 := by
  rw [← pow_add, Nat.sub_add_cancel (by omega)]

lemma significand_le {n m : ℕ} (h : n * 2 ^ 52 ≤ m * 2 ^ n.log2) : significand n ≤ m := by
  rw [significand]
  split
  · next hsmall =>
    rw [two_pow_sub_log2 hsmall, ← Nat.mul_assoc] at h
    exact Nat.le_of_mul_le_mul_right h (Nat.two_pow_pos _)
  · next hlarge =>
    rw [two_pow_log2_sub hlarge, ← Nat.mul_assoc] at h
    exact roundShift_le (Nat.le_of_mul_le_mul_right h (Nat.two_pow_pos _))

lemma le_significand {n m : ℕ} (h : m * 2 ^ n.log2 ≤ n * 2 ^ 52) : m ≤ significand n := by
  rw [significand]
  split
  · next hsmall =>
    rw [two_pow_sub_log2 hsmall, ← Nat.mul_assoc] at h
    exact Nat.le_of_mul_le_mul_right h (Nat.two_pow_pos _)
  · next hlarge =>
    rw [two_pow_log2_sub hlarge, ← Nat.mul_assoc] at h
    exact le_roundShift (Nat.le_of_mul_le_mul_right h (Nat.two_pow_pos _))

lemma significand_bounds {n : ℕ} (hn : n ≠ 0) :
    2 ^ 52 ≤ significand n ∧ significand n ≤ 2 ^ 53 := by
  have hlow := Nat.log2_self_le hn
  have hhigh : n < 2 ^ (n.log2 + 1) := Nat.lt_log2_self
  constructor
  · refine le_significand ?_
    rw [Nat.mul_comm]
    exact Nat.mul_le_mul_right _ hlow
  · refine significand_le ?_
    rw [pow_succ] at hhigh
    omega

lemma magnitude_lt (x : Binary64) : x.magnitude < 2 ^ (52 + x.exponent) := by
  have hfraction := x.fraction_lt
  rw [magnitude]
  split
  · next hzero => rwa [hzero]
  · next hne =>
    have hpow : 2 ^ (52 + x.exponent) = 2 ^ 53 * 2 ^ (x.exponent - 1) := by
      rw [← pow_add]
      congr 1
      omega
    rw [hpow]
    exact Nat.mul_lt_mul_of_pos_right (by omega) (Nat.two_pow_pos _)

lemma le_magnitude {x : Binary64} (hne : x.exponent ≠ 0) : 2 ^ (51 + x.exponent) ≤ x.magnitude := by
  have hpow : 2 ^ (51 + x.exponent) = 2 ^ 52 * 2 ^ (x.exponent - 1) := by
    rw [← pow_add]
    congr 1
    omega
  rw [magnitude, if_neg hne, hpow]
  exact Nat.mul_le_mul_right _ (Nat.le_add_right _ _)

/-- **The rounding conversion is faithful.** -/
lemma natField_faithful (n : ℕ) : Faithful n (natField n) := by
  have hinfinity : natField n ≤ infinityField := by
    rw [natField]
    split
    · exact Nat.zero_le _
    · exact min_le_right _ _
  refine ⟨hinfinity, fun x hx => ?_⟩
  have hfinite := isFinite_iff.1 hx
  have hfraction := x.fraction_lt
  by_cases hn : n = 0
  · subst hn
    rw [natField, if_pos rfl, Nat.zero_mul, Nat.le_zero, magnitude_eq_zero_iff]
    exact ⟨fun h => h.le, fun _ => Nat.zero_le _⟩
  · rw [natField, if_neg hn]
    obtain ⟨hlow, hhigh⟩ := significand_bounds hn
    have hlog := Nat.log2_self_le hn
    have hlog' : n < 2 ^ (n.log2 + 1) := Nat.lt_log2_self
    rcases lt_trichotomy x.exponent (n.log2 + 1023) with hlt | heq | hgt
    · -- The number has a lower exponent: it is below the integer.
      have hbelow : x.magnitude < n * 2 ^ unitExponent := by
        calc x.magnitude < 2 ^ (52 + x.exponent) := magnitude_lt x
          _ ≤ 2 ^ (n.log2 + unitExponent) :=
            Nat.pow_le_pow_right (by decide) (by rw [unitExponent]; omega)
          _ = 2 ^ n.log2 * 2 ^ unitExponent := pow_add 2 _ _
          _ ≤ n * 2 ^ unitExponent := Nat.mul_le_mul_right _ hlog
      have hfield : x.field ≤ (n.log2 + 1022) * 2 ^ 52 + significand n := by
        rw [field]
        omega
      exact ⟨fun _ => le_min hfield hfinite.le, fun h => absurd h (not_le.2 hbelow)⟩
    · have hfield : x.field = (n.log2 + 1022) * 2 ^ 52 + (2 ^ 52 + x.fraction) := by
        rw [field, heq]
        ring
      obtain ⟨unit, hunit, hshift, hpos⟩ : ∃ unit, 2 ^ unitExponent = 2 ^ 52 * unit ∧
          2 ^ (n.log2 + 1022) = 2 ^ n.log2 * unit ∧ 0 < unit :=
        ⟨2 ^ (unitExponent - 52), pow_add 2 52 (unitExponent - 52),
          pow_add 2 n.log2 (unitExponent - 52), Nat.two_pow_pos _⟩
      have hexponent : n.log2 + 1023 - 1 = n.log2 + 1022 := by omega
      rw [hfield] at hfinite ⊢
      rw [magnitude, if_neg (by omega), heq, hexponent, hshift, hunit, ← Nat.mul_assoc,
        ← Nat.mul_assoc]
      constructor
      · intro h
        have hle := le_significand (Nat.le_of_mul_le_mul_right h hpos)
        exact le_min (Nat.add_le_add_left hle _) hfinite.le
      · intro h
        have hle := significand_le (Nat.le_of_mul_le_mul_right h hpos)
        exact (min_le_left _ _).trans (Nat.add_le_add_left hle _)
    · have habove : n * 2 ^ unitExponent < x.magnitude := by
        calc n * 2 ^ unitExponent < 2 ^ (n.log2 + 1) * 2 ^ unitExponent :=
            Nat.mul_lt_mul_of_pos_right hlog' (Nat.two_pow_pos _)
          _ = 2 ^ (n.log2 + 1 + unitExponent) := (pow_add 2 _ _).symm
          _ ≤ 2 ^ (51 + x.exponent) :=
            Nat.pow_le_pow_right (by decide) (by rw [unitExponent]; omega)
          _ ≤ x.magnitude := le_magnitude (by omega)
      have hfield : (n.log2 + 1022) * 2 ^ 52 + significand n ≤ x.field := by
        rw [field]
        omega
      exact ⟨fun h => absurd h (not_le.2 habove), fun _ => (min_le_left _ _).trans hfield⟩

/-! ## Representable numbers -/

lemma representable_of_le {n : ℕ} (h : n ≤ 2 ^ 53) : Representable n := by
  rcases h.lt_or_eq with hlt | rfl
  · exact ⟨n, 0, hlt, by rw [pow_zero, Nat.mul_one]⟩
  · exact ⟨1, 53, by decide, by rw [Nat.one_mul]⟩

/-- From fifty-three bits on a representable number ends in zeros. -/
lemma Representable.ends {n : ℕ} (h : Representable n) (shift : ℕ) :
    n < 2 ^ 52 * 2 ^ shift ∨ ∃ c, n = c * 2 ^ shift := by
  obtain ⟨m, k, hm, rfl⟩ := h
  rcases Nat.lt_or_ge k shift with hlt | hge
  · left
    have hpow : 2 ^ 53 * 2 ^ k ≤ 2 ^ 52 * 2 ^ shift := by
      rw [← pow_add, ← pow_add]
      exact Nat.pow_le_pow_right (by decide) (by omega)
    exact (Nat.mul_lt_mul_of_pos_right hm (Nat.two_pow_pos k)).trans_le hpow
  · right
    refine ⟨m * 2 ^ (k - shift), ?_⟩
    rw [Nat.mul_assoc, ← pow_add, Nat.sub_add_cancel hge]

/-- The rounded natural number, with no bound. -/
def roundNat (n : ℕ) : ℕ :=
  if n.log2 ≤ 52 then n else roundShift n (n.log2 - 52) * 2 ^ (n.log2 - 52)

/-- No representable number is between a number and its conversion. -/
def FaithfulNat (n r : ℕ) : Prop :=
  Representable r ∧ ∀ y, Representable y → (y ≤ n → y ≤ r) ∧ (n ≤ y → r ≤ y)

lemma FaithfulNat.eq {n r : ℕ} (h : FaithfulNat n r) (hn : Representable n) : r = n :=
  Nat.le_antisymm ((h.2 n hn).2 le_rfl) ((h.2 n hn).1 le_rfl)

lemma roundShift_bounds {n : ℕ} (hlarge : ¬n.log2 ≤ 52) :
    2 ^ 52 ≤ roundShift n (n.log2 - 52) ∧ roundShift n (n.log2 - 52) ≤ 2 ^ 53 := by
  have hn : n ≠ 0 := by
    rintro rfl
    exact hlarge (by decide)
  have hbounds := significand_bounds hn
  rwa [significand, if_neg hlarge] at hbounds

lemma roundNat_faithful (n : ℕ) : FaithfulNat n (roundNat n) := by
  rw [roundNat]
  split
  · next hsmall =>
    refine ⟨representable_of_le ?_, fun y _ => ⟨id, id⟩⟩
    exact (Nat.lt_log2_self.trans_le (Nat.pow_le_pow_right (by decide) (by omega))).le
  · next hlarge =>
    obtain ⟨hlow, hhigh⟩ := roundShift_bounds hlarge
    have hlog : 2 ^ n.log2 ≤ n := Nat.log2_self_le (by rintro rfl; exact hlarge (by decide))
    rw [two_pow_log2_sub hlarge, Nat.mul_comm] at hlog
    set shift := n.log2 - 52
    set q := roundShift n shift with hq
    have hpos := Nat.two_pow_pos shift
    have hfloor : 2 ^ 52 * 2 ^ shift ≤ q * 2 ^ shift := Nat.mul_le_mul_right _ hlow
    refine ⟨(representable_of_le hhigh).mul shift, fun y hy => ?_⟩
    rcases hy.ends shift with hlt | ⟨c, rfl⟩
    · exact ⟨fun _ => hlt.le.trans hfloor, fun h => absurd (hlt.trans_le hlog) (not_lt.2 h)⟩
    · exact ⟨fun h => Nat.mul_le_mul_right _ (le_roundShift h),
        fun h => Nat.mul_le_mul_right _ (roundShift_le h)⟩

lemma natField_roundNat (n : ℕ) : natField (roundNat n) = natField n := by
  rw [roundNat]
  split
  · rfl
  · next hlarge =>
    obtain ⟨hlow, hhigh⟩ := roundShift_bounds hlarge
    have hn : n ≠ 0 := by
      rintro rfl
      exact hlarge (by decide)
    have hsig : significand n = roundShift n (n.log2 - 52) := by rw [significand, if_neg hlarge]
    set q := roundShift n (n.log2 - 52)
    have hne : q * 2 ^ (n.log2 - 52) ≠ 0 := Nat.mul_ne_zero (by omega) (Nat.two_pow_pos _).ne'
    rw [natField, natField, if_neg hn, if_neg hne, hsig]
    rcases hhigh.lt_or_eq with hlt | heq
    · rw [log2_mul_two_pow hlow hlt, significand_mul_two_pow hlow hlt]
      congr 3
      omega
    · -- The carry makes the exponent higher by one.
      have hcarry : q * 2 ^ (n.log2 - 52) = 2 ^ 52 * 2 ^ (n.log2 - 52 + 1) := by
        rw [heq, pow_succ 2 (n.log2 - 52)]
        ring
      rw [hcarry, log2_mul_two_pow (by decide) (by decide),
        significand_mul_two_pow (by decide) (by decide), heq]
      have hfield : (52 + (n.log2 - 52 + 1) + 1022) * 2 ^ 52 + 2 ^ 52 =
          (n.log2 + 1022) * 2 ^ 52 + 2 ^ 53 := by omega
      rw [hfield]

/-! ## Limbs -/

lemma natField_of_large {n : ℕ} (h : 1024 ≤ n.log2) : natField n = infinityField := by
  have hn : n ≠ 0 := by
    rintro rfl
    rw [Nat.log2_zero] at h
    omega
  have hlow := (significand_bounds hn).1
  have hexponent : 2046 * 2 ^ 52 ≤ (n.log2 + 1022) * 2 ^ 52 := Nat.mul_le_mul_right _ (by omega)
  have hinfinity : infinityField = 2046 * 2 ^ 52 + 2 ^ 52 := rfl
  rw [natField, if_neg hn, hinfinity]
  exact min_eq_right (Nat.add_le_add hexponent hlow)

lemma isFinite_infinity : (pack false infinityField).isFinite = false := rfl

/-- What stands behind fifty-three bits is less than half of the last of them. -/
lemma roundNat_add {r limb : ℕ} (hr : Representable r) (hlarge : 2 ^ 53 ≤ r)
    (hlimb : limb < 2 ^ 32) :
    roundNat (r * 2 ^ 32 + limb) = r * 2 ^ 32 := by
  have hne : r * 2 ^ 32 ≠ 0 := by omega
  have hlog : 85 ≤ (r * 2 ^ 32).log2 := (Nat.le_log2 hne).2 (by omega)
  obtain ⟨hlow, hhigh, hvalue⟩ := significand_spec (hr.mul 32) hne
  set q := significand (r * 2 ^ 32)
  obtain ⟨shift, hshift⟩ : ∃ shift, (r * 2 ^ 32).log2 = 33 + shift + 52 :=
    ⟨(r * 2 ^ 32).log2 - 85, by omega⟩
  rw [hshift, pow_add, ← Nat.mul_assoc] at hvalue
  have hvalue : r * 2 ^ 32 = q * 2 ^ (33 + shift) :=
    (Nat.eq_of_mul_eq_mul_right (Nat.two_pow_pos 52) hvalue).symm
  have hunit : 2 * limb < 2 ^ (33 + shift) := by
    have := Nat.two_pow_pos shift
    rw [pow_add]
    omega
  rw [hvalue]
  set unit := 2 ^ (33 + shift) with hunitDef
  have hsum : (q * unit + limb).log2 = 33 + shift + 52 := by
    have hfloor := Nat.mul_le_mul_right unit hlow
    have hceil := Nat.mul_le_mul_right unit (Nat.succ_le_of_lt hhigh)
    rw [Nat.log2_eq_iff (by omega), pow_succ 2 (33 + shift + 52), pow_add 2 (33 + shift) 52,
      ← hunitDef]
    rw [Nat.succ_mul] at hceil
    omega
  rw [roundNat, hsum, if_neg (by omega), Nat.add_sub_cancel, ← hunitDef, roundShift, ← hunitDef,
    Nat.mul_comm q, Nat.mul_add_mod, Nat.mod_eq_of_lt (by omega), Nat.mul_add_div (by omega),
    Nat.div_eq_of_lt (by omega), if_neg (by omega), Nat.add_zero, Nat.mul_comm]

/-- **A limb is added to a faithful conversion.** -/
lemma FaithfulNat.step {n r limb : ℕ} (h : FaithfulNat n r) (hlimb : limb < 2 ^ 32) :
    ∃ r', FaithfulNat (n * 2 ^ 32 + limb) r' ∧
      ((ofNat false r).scaleNat (2 ^ 32)).addNat limb = ofNat false r' := by
  rcases Nat.lt_or_ge n (2 ^ 53) with hsmall | hlarge
  · -- The number so far is exact, so that the sum is rounded once.
    obtain rfl := h.eq (representable_of_le hsmall.le)
    have hlog : (r * 2 ^ 32).log2 < 1024 := by
      rcases Nat.eq_zero_or_pos r with rfl | hpos
      · rw [Nat.zero_mul, Nat.log2_zero]
        omega
      · exact ((Nat.log2_lt (by omega)).2 (by omega : r * 2 ^ 32 < 2 ^ 85)).trans (by omega)
    refine ⟨_, roundNat_faithful _, ?_⟩
    rw [addNat_scaleNat h.1 hlog, ofNat_eq_pack, ofNat_eq_pack, natField_roundNat]
  · have hr : 2 ^ 53 ≤ r := (h.2 _ (representable_of_le le_rfl)).1 hlarge
    refine ⟨r * 2 ^ 32, ⟨h.1.mul 32, fun y hy => ?_⟩, ?_⟩
    · rcases hy.ends 32 with hlt | ⟨c, rfl⟩
      · omega
      · have hbelow : c * 2 ^ 32 ≤ n * 2 ^ 32 + limb ↔ c ≤ n := by omega
        have habove : n * 2 ^ 32 + limb ≤ c * 2 ^ 32 → n ≤ c := by omega
        have hc := h.2 c (by simpa using hy.div 32)
        rw [hbelow]
        exact ⟨fun hle => Nat.mul_le_mul_right _ (hc.1 hle),
          fun hle => Nat.mul_le_mul_right _ (hc.2 (habove hle))⟩
    · by_cases hlog : (r * 2 ^ 32).log2 < 1024
      · rw [addNat_scaleNat h.1 hlog, ofNat_eq_pack, ofNat_eq_pack, ← natField_roundNat,
          roundNat_add h.1 hr hlimb]
      · have hlog : 1024 ≤ (r * 2 ^ 32).log2 := not_lt.1 hlog
        have hinfinity : ofNat false (r * 2 ^ 32) = pack false infinityField := by
          rw [ofNat_eq_pack, natField_of_large hlog]
        have hfinite : ¬(pack false infinityField).isFinite = true := by
          rw [isFinite_infinity]
          exact Bool.false_ne_true
        have hscaled : (ofNat false r).scaleNat (2 ^ 32) = pack false infinityField := by
          by_cases hrlog : r.log2 < 1024
          · rw [scaleNat, if_pos (ofNat_exact h.1 hrlog false).1, integerValue_ofNat h.1 hrlog,
              hinfinity]
          · rw [ofNat_eq_pack, natField_of_large (not_lt.1 hrlog), scaleNat, if_neg hfinite]
        rw [hscaled, addNat, if_neg hfinite, hinfinity]

/-! ## Integral parts -/

/-- The magnitude without its part after the point. -/
def floorNat (x : Binary64) : ℕ := x.magnitude / 2 ^ unitExponent

/-- The least natural number from the magnitude on. -/
def ceilNat (x : Binary64) : ℕ := (x.magnitude + (2 ^ unitExponent - 1)) / 2 ^ unitExponent

lemma le_floorNat_iff {x : Binary64} {n : ℕ} :
    n ≤ x.floorNat ↔ n * 2 ^ unitExponent ≤ x.magnitude :=
  Nat.le_div_iff_mul_le (Nat.two_pow_pos _)

lemma ceilNat_le_iff {x : Binary64} {n : ℕ} :
    x.ceilNat ≤ n ↔ x.magnitude ≤ n * 2 ^ unitExponent := by
  have hpos := Nat.two_pow_pos unitExponent
  rw [ceilNat, Nat.div_le_iff_le_mul_add_pred hpos, Nat.mul_comm n]
  generalize 2 ^ unitExponent = unit at hpos ⊢
  omega

/-- The integers next to a number can be represented. -/
lemma representable_floor_ceil (x : Binary64) :
    Representable x.floorNat ∧ Representable x.ceilNat := by
  rcases Nat.lt_or_ge x.exponent 1075 with hlow | hhigh
  · have hlt : x.magnitude < 2 ^ 52 * 2 ^ unitExponent := by
      refine (magnitude_lt x).trans_le ?_
      rw [← pow_add]
      exact Nat.pow_le_pow_right (by decide) (by rw [unitExponent]; omega)
    have hceil : x.ceilNat ≤ 2 ^ 52 := ceilNat_le_iff.2 hlt.le
    have hfloor : x.floorNat < 2 ^ 52 :=
      not_le.1 fun h => absurd (le_floorNat_iff.1 h) (not_le.2 hlt)
    exact ⟨representable_of_le (by omega), representable_of_le (by omega)⟩
  · obtain ⟨shift, hshift⟩ : ∃ shift, x.exponent - 1 = shift + unitExponent :=
      ⟨x.exponent - 1075, by rw [unitExponent]; omega⟩
    have hmagnitude : x.magnitude = 2 ^ unitExponent * ((2 ^ 52 + x.fraction) * 2 ^ shift) := by
      rw [magnitude, if_neg (by omega), hshift, pow_add, ← Nat.mul_assoc, Nat.mul_comm]
    have hfraction := x.fraction_lt
    have hpos := Nat.two_pow_pos unitExponent
    have hrep : Representable ((2 ^ 52 + x.fraction) * 2 ^ shift) := ⟨_, shift, by omega, rfl⟩
    have hfloor : x.floorNat = (2 ^ 52 + x.fraction) * 2 ^ shift := by
      rw [floorNat, hmagnitude, Nat.mul_div_cancel_left _ hpos]
    have hceil : x.ceilNat = (2 ^ 52 + x.fraction) * 2 ^ shift := by
      rw [ceilNat, hmagnitude, Nat.mul_add_div hpos, Nat.div_eq_of_lt (Nat.sub_lt hpos one_pos),
        Nat.add_zero]
    rw [hfloor, hceil]
    exact ⟨hrep, hrep⟩

/-- Faithful among the representable integers is faithful among all numbers. -/
lemma FaithfulNat.faithful {n r : ℕ} (h : FaithfulNat n r) : Faithful n (natField r) := by
  refine ⟨(natField_faithful r).1, fun x hx => ?_⟩
  obtain ⟨hfloor, hceil⟩ := x.representable_floor_ceil
  obtain ⟨hlow, hhigh⟩ := (natField_faithful r).2 x hx
  rw [← ceilNat_le_iff] at hlow ⊢
  rw [← le_floorNat_iff] at hhigh ⊢
  exact ⟨fun hle => hlow ((h.2 _ hceil).1 hle), fun hle => hhigh ((h.2 _ hfloor).2 hle)⟩

end Binary64
