import Mathlib.Data.Int.ConditionallyCompleteOrder
import Mathlib.Data.Nat.Digits.Lemmas
import Mathlib.Tactic.LinearCombination
import Pyrs.Model.BigInts

/-!
# The ring operations of big integers

A `BigInt` stands for an integer, its sign times its magnitude to the base `2 ^ 32`.  The loops over
the limbs keep the sum of what they have written, what they have not read and the carry, and no
carry is too large for the machine integers.
-/

namespace Pyrs

/-! ## Machine integers -/

lemma checkedU64_eq {value : ℕ} (h : value < 2 ^ 64) : checkedU64 value = some value := if_pos h

lemma checkedI64_eq {value : ℤ} (hlow : -2 ^ 63 ≤ value) (hhigh : value < 2 ^ 63) :
    checkedI64 value = some value := if_pos ⟨hlow, hhigh⟩

lemma asU32_toNat (value : ℕ) : (asU32 value).toNat = value % 2 ^ 32 := UInt32.toNat_ofNat'

lemma asU32_toNat_of_lt {value : ℕ} (h : value < 2 ^ 32) : (asU32 value).toNat = value := by
  rw [asU32_toNat, Nat.mod_eq_of_lt h]

/-- The low limb and the carry make up a sum. -/
lemma asU32_add_shiftRight (value : ℕ) :
    (asU32 value).toNat + 2 ^ 32 * (value >>> 32) = value := by
  rw [asU32_toNat, Nat.shiftRight_eq_div_pow, Nat.mod_add_div]

namespace BigInt

/-! ## Magnitudes -/

def magnitude (limbs : List UInt32) : ℕ := Nat.ofDigits (2 ^ 32) (limbs.map UInt32.toNat)

@[simp] lemma magnitude_nil : magnitude [] = 0 := rfl

@[simp] lemma magnitude_cons (limb : UInt32) (limbs : List UInt32) :
    magnitude (limb :: limbs) = limb.toNat + 2 ^ 32 * magnitude limbs := by
  rw [magnitude, List.map_cons, Nat.ofDigits_cons]
  rfl

lemma magnitude_append (left right : List UInt32) :
    magnitude (left ++ right) = magnitude left + 2 ^ (32 * left.length) * magnitude right := by
  rw [magnitude, List.map_append, Nat.ofDigits_append, List.length_map, pow_mul]
  rfl

lemma magnitude_head_tail (limbs : List UInt32) :
    magnitude limbs = (limbs.head?.getD 0).toNat + 2 ^ 32 * magnitude limbs.tail := by
  cases limbs with
  | nil => rfl
  | cons limb limbs => exact magnitude_cons limb limbs

lemma magnitude_lt (limbs : List UInt32) : magnitude limbs < 2 ^ (32 * limbs.length) := by
  have := Nat.ofDigits_lt_base_pow_length (b := 2 ^ 32) (l := limbs.map UInt32.toNat) (by norm_num)
    fun digit hdigit => by
      obtain ⟨limb, -, rfl⟩ := List.mem_map.1 hdigit
      exact limb.toNat_lt
  rwa [List.length_map, ← pow_mul] at this

/-- A carry that is left over is one more limb. -/
lemma magnitude_carry {carry : ℕ} (h : carry < 2 ^ 32) :
    magnitude (if carry ≠ 0 then [asU32 carry] else []) = carry := by
  split
  · rw [magnitude_cons, asU32_toNat_of_lt h, magnitude_nil, Nat.mul_zero, Nat.add_zero]
  · next hzero => rw [not_not.1 hzero, magnitude_nil]

/-- A last limb that is not zero bounds the magnitude from below. -/
lemma le_magnitude {limbs : List UInt32} (hne : limbs ≠ []) (hlast : limbs.getLast hne ≠ 0) :
    2 ^ (32 * (limbs.length - 1)) ≤ magnitude limbs := by
  rw [← List.dropLast_append_getLast hne, magnitude_append, List.length_append,
    List.length_singleton, Nat.add_sub_cancel, magnitude_cons, magnitude_nil, Nat.mul_zero,
    Nat.add_zero]
  have hpos : 0 < (limbs.getLast hne).toNat := by
    rw [Nat.pos_iff_ne_zero]
    exact fun h => hlast (UInt32.toNat_inj.1 h)
  calc 2 ^ (32 * limbs.dropLast.length)
      ≤ 2 ^ (32 * limbs.dropLast.length) * (limbs.getLast hne).toNat :=
        Nat.le_mul_of_pos_right _ hpos
    _ ≤ _ := Nat.le_add_left _ _

lemma magnitude_replicate_append (n : ℕ) (limbs : List UInt32) :
    magnitude (List.replicate n 0 ++ limbs) = 2 ^ (32 * n) * magnitude limbs := by
  induction n with
  | zero => simp
  | succ n ih =>
    rw [List.replicate_succ, List.cons_append, magnitude_cons, ih, UInt32.toNat_zero]
    ring

lemma magnitude_replicate (n : ℕ) : magnitude (List.replicate n 0) = 0 := by
  rw [← List.append_nil (List.replicate n 0), magnitude_replicate_append, magnitude_nil,
    Nat.mul_zero]

lemma magnitude_trim (limbs : List UInt32) : magnitude (trim limbs) = magnitude limbs := by
  induction limbs using List.reverseRecOn with
  | nil => rfl
  | append_singleton limbs limb ih =>
    rw [trim, List.rdropWhile_concat]
    split
    · next hzero =>
      rw [eq_of_beq hzero, magnitude_append]
      simpa [trim] using ih
    · rfl

/-! ## The integer of a `BigInt` -/

def toInt (a : BigInt) : ℤ := a.sign * magnitude a.limbs

lemma toInt_of_zero {a : BigInt} (h : a.sign = .zero) : a.toInt = 0 := by
  rw [toInt, h]
  exact zero_mul _

lemma toInt_of_pos {a : BigInt} (h : a.sign = .pos) : a.toInt = magnitude a.limbs := by
  rw [toInt, h]
  exact one_mul _

lemma toInt_of_neg {a : BigInt} (h : a.sign = .neg) : a.toInt = -magnitude a.limbs := by
  rw [toInt, h]
  exact neg_one_mul _

lemma toInt_nonneg_of_pos {a : BigInt} (h : a.sign = .pos) : 0 ≤ a.toInt := by
  rw [toInt_of_pos h]
  exact Int.natCast_nonneg _

lemma toInt_nonpos_of_neg {a : BigInt} (h : a.sign = .neg) : a.toInt ≤ 0 := by
  rw [toInt_of_neg h]
  omega

lemma magnitude_pos {a : BigInt} (h : a.sign ≠ 0) : 0 < magnitude a.limbs := by
  have hne : a.limbs ≠ [] := fun hnil => h (a.sign_eq_zero_iff.2 hnil)
  exact lt_of_lt_of_le (by positivity) (le_magnitude hne (a.trimmed hne))

lemma zero_toInt : zero.toInt = 0 := toInt_of_zero rfl

lemma fromParts_toInt (sign : SignType) (limbs : List UInt32) :
    (fromParts sign limbs).toInt = (if sign = -1 then -1 else 1) * magnitude limbs := by
  rw [fromParts]
  split
  · next hnil => rw [zero_toInt, ← magnitude_trim, hnil, magnitude_nil, Nat.cast_zero, mul_zero]
  · next hne =>
    rw [toInt]
    simp only [magnitude_trim]
    split <;> rfl

lemma magnitude_magnitudeLimbs (value : ℕ) : magnitude (magnitudeLimbs value) = value := by
  induction value using magnitudeLimbs.induct with
  | case1 => rw [magnitudeLimbs, if_pos rfl, magnitude_nil]
  | case2 value hne ih =>
    rw [magnitudeLimbs, if_neg hne, magnitude_cons, ih, asU32_add_shiftRight]

lemma signed_magnitudeLimbs (value : ℤ) :
    ((if value < 0 then -1 else 1 : SignType) : ℤ) * magnitude (magnitudeLimbs value.natAbs) =
      value := by
  rw [magnitude_magnitudeLimbs]
  split
  · next hneg =>
    rw [show ((-1 : SignType) : ℤ) = -1 from rfl]
    omega
  · next hpos =>
    rw [show ((1 : SignType) : ℤ) = 1 from rfl]
    omega

lemma fromU64_toInt (value : UInt64) : (fromU64 value).toInt = value.toNat := by
  rw [fromU64]
  split
  · next hzero => rw [zero_toInt, hzero, Nat.cast_zero]
  · rw [toInt_of_pos rfl, magnitude_magnitudeLimbs]

lemma fromI64_toInt (value : Int64) : (fromI64 value).toInt = value.toInt := by
  rw [fromI64]
  split
  · next hzero => rw [zero_toInt, hzero]
  · rw [toInt]
    exact signed_magnitudeLimbs value.toInt

lemma one_toInt : one.toInt = 1 := fromI64_toInt 1

lemma isZero_iff {a : BigInt} : a.isZero = true ↔ a.toInt = 0 := by
  rw [isZero, beq_iff_eq]
  constructor
  · exact toInt_of_zero
  · intro h
    by_contra hne
    have hpos := magnitude_pos hne
    cases hsign : a.sign with
    | zero => exact hne hsign
    | pos =>
      rw [toInt_of_pos hsign] at h
      omega
    | neg =>
      rw [toInt_of_neg hsign] at h
      omega

lemma negated_toInt (a : BigInt) : a.negated.toInt = -a.toInt := by
  rw [negated]
  split
  · next hzero => rw [isZero_iff.1 hzero, neg_zero]
  · rw [toInt, toInt]
    simp only [SignType.coe_neg, neg_mul]

/-! ## Sums -/

lemma absAddLoop_spec {rounds : ℕ} {left right : List UInt32} {carry : ℕ}
    (hleft : left.length ≤ rounds) (hright : right.length ≤ rounds) (hcarry : carry < 2 ^ 32) :
    ∃ out, absAddLoop rounds left right carry = some out ∧
      magnitude out = magnitude left + magnitude right + carry := by
  induction rounds generalizing left right carry with
  | zero =>
    obtain rfl := List.eq_nil_of_length_eq_zero (Nat.le_zero.1 hleft)
    obtain rfl := List.eq_nil_of_length_eq_zero (Nat.le_zero.1 hright)
    refine ⟨_, rfl, ?_⟩
    rw [magnitude_carry hcarry, magnitude_nil]
    omega
  | succ rounds ih =>
    set lhs := (left.head?.getD 0).toNat with hlhs
    set rhs := (right.head?.getD 0).toNat with hrhs
    have hlt : lhs < 2 ^ 32 := UInt32.toNat_lt _
    have hrt : rhs < 2 ^ 32 := UInt32.toNat_lt _
    have hnext : (lhs + rhs + carry) >>> 32 < 2 ^ 32 := by
      rw [Nat.shiftRight_eq_div_pow]
      omega
    have hleft : left.tail.length ≤ rounds := by
      rw [List.length_tail]
      omega
    have hright : right.tail.length ≤ rounds := by
      rw [List.length_tail]
      omega
    obtain ⟨out, hout, hvalue⟩ := ih hleft hright hnext
    refine ⟨asU32 (lhs + rhs + carry) :: out, ?_, ?_⟩
    · rw [absAddLoop, ← hlhs, ← hrhs, checkedU64_eq (by omega), Option.bind_eq_bind,
        Option.bind_some, checkedU64_eq (by omega), Option.bind_eq_bind, Option.bind_some, hout]
      rfl
    · have hsum := asU32_add_shiftRight (lhs + rhs + carry)
      rw [magnitude_cons, hvalue, magnitude_head_tail left, magnitude_head_tail right, ← hlhs,
        ← hrhs]
      linarith

lemma absAdd_spec (left right : List UInt32) :
    ∃ out, absAdd left right = some out ∧ magnitude out = magnitude left + magnitude right :=
  absAddLoop_spec (le_max_left _ _) (le_max_right _ _) (by norm_num)

/-! ## Differences -/

/-- What a round of `abs_sub` leaves of its borrow. -/
lemma absSubLoop_spec {left right : List UInt32} {borrow : ℤ} (hlen : right.length ≤ left.length)
    (hborrow : borrow = 0 ∨ borrow = 1) :
    ∃ out, absSubLoop left right borrow = some out ∧ out.length = left.length ∧
      ∃ last : ℤ, (last = 0 ∨ last = 1) ∧
        (magnitude out : ℤ) =
          magnitude left - magnitude right - borrow + last * 2 ^ (32 * left.length) := by
  induction left generalizing right borrow with
  | nil =>
    obtain rfl := List.eq_nil_of_length_eq_zero (Nat.le_zero.1 hlen)
    refine ⟨[], rfl, rfl, borrow, hborrow, ?_⟩
    simp
  | cons lhs left ih =>
    set rhs := (right.head?.getD 0).toNat with hrhs
    have hlt : lhs.toNat < 2 ^ 32 := UInt32.toNat_lt _
    have hrt : rhs < 2 ^ 32 := UInt32.toNat_lt _
    have htail : right.tail.length ≤ left.length := by
      rw [List.length_tail]
      simp only [List.length_cons] at hlen
      omega
    have hright := magnitude_head_tail right
    rw [← hrhs] at hright
    rw [absSubLoop, ← hrhs, checkedI64_eq (by omega) (by omega), Option.bind_eq_bind,
      Option.bind_some, checkedI64_eq (by omega) (by omega), Option.bind_eq_bind,
      Option.bind_some]
    by_cases hneg : (lhs.toNat : ℤ) - rhs - borrow < 0
    · obtain ⟨out, hout, hlength, last, hlast, hvalue⟩ := ih htail (.inr rfl)
      refine ⟨asU32 ((lhs.toNat : ℤ) - rhs - borrow + 2 ^ 32).toNat :: out, ?_, ?_, last, hlast, ?_⟩
      · rw [if_pos hneg, checkedI64_eq (by omega) (by omega), Option.bind_some, hout]
        rfl
      · rw [List.length_cons, List.length_cons, hlength]
      · rw [magnitude_cons, asU32_toNat_of_lt (by omega), magnitude_cons, hright]
        push_cast
        rw [hvalue, Int.toNat_of_nonneg (by omega), List.length_cons, Nat.mul_succ, pow_add]
        ring
    · obtain ⟨out, hout, hlength, last, hlast, hvalue⟩ := ih htail (.inl rfl)
      refine ⟨asU32 ((lhs.toNat : ℤ) - rhs - borrow).toNat :: out, ?_, ?_, last, hlast, ?_⟩
      · rw [if_neg hneg, hout]
        rfl
      · rw [List.length_cons, List.length_cons, hlength]
      · rw [magnitude_cons, asU32_toNat_of_lt (by omega), magnitude_cons, hright]
        push_cast
        rw [hvalue, Int.toNat_of_nonneg (by omega), List.length_cons, Nat.mul_succ, pow_add]
        ring

/-- Nothing is borrowed in the end when the subtrahend is the smaller one. -/
lemma absSub_spec {left right : List UInt32} (hlen : right.length ≤ left.length)
    (hle : magnitude right ≤ magnitude left) :
    ∃ out, absSub left right = some out ∧
      (magnitude out : ℤ) = magnitude left - magnitude right := by
  obtain ⟨out, hout, hlength, last, hlast, hvalue⟩ :=
    absSubLoop_spec hlen (.inl (rfl : (0 : ℤ) = 0))
  refine ⟨out, hout, ?_⟩
  have hlt := magnitude_lt out
  rw [hlength] at hlt
  rcases hlast with rfl | rfl
  · rw [hvalue]
    ring
  · have hlt : (magnitude out : ℤ) < 2 ^ (32 * left.length) := by exact_mod_cast hlt
    rw [hvalue] at hlt
    omega

/-! ## Comparison -/

/-- The lower limbs decide between numbers whose upper parts are equal. -/
lemma compare_limb {low low' : ℕ} (h : low < 2 ^ 32) (h' : low' < 2 ^ 32) (high high' : ℕ) :
    compare (low + 2 ^ 32 * high) (low' + 2 ^ 32 * high') =
      (compare high high').then (compare low low') := by
  rcases lt_trichotomy high high' with hlt | rfl | hgt
  · rw [compare_lt_iff_lt.2 hlt]
    exact compare_lt_iff_lt.2 (by omega)
  · rw [compare_eq_iff_eq.2 (rfl : high = high)]
    show compare (low + 2 ^ 32 * high) (low' + 2 ^ 32 * high) = compare low low'
    rcases lt_trichotomy low low' with hlt | rfl | hgt
    · rw [compare_lt_iff_lt.2 hlt, compare_lt_iff_lt]
      omega
    · rw [compare_eq_iff_eq.2 rfl, compare_eq_iff_eq.2 rfl]
    · rw [compare_gt_iff_gt.2 hgt, compare_gt_iff_gt]
      omega
  · rw [compare_gt_iff_gt.2 hgt]
    exact compare_gt_iff_gt.2 (by omega)

/-- Limbs of equal number are compared from the last one on. -/
lemma compare_magnitude_of_length_eq {left right : List UInt32}
    (hlen : left.length = right.length) :
    (match (left.reverse.zip right.reverse).find? fun pair => pair.1 != pair.2 with
      | some pair => compare pair.1.toNat pair.2.toNat
      | none => .eq) = compare (magnitude left) (magnitude right) := by
  induction left generalizing right with
  | nil =>
    obtain rfl := List.eq_nil_of_length_eq_zero hlen.symm
    rfl
  | cons lhs left ih =>
    cases right with
    | nil => cases hlen
    | cons rhs right =>
      have hlen : left.length = right.length := Nat.succ.inj hlen
      rw [magnitude_cons, magnitude_cons, compare_limb lhs.toNat_lt rhs.toNat_lt, ← ih hlen,
        List.reverse_cons, List.reverse_cons, List.zip_append (by simpa using hlen),
        List.find?_append]
      cases hfind : (left.reverse.zip right.reverse).find? fun pair => pair.1 != pair.2 with
      | some pair =>
        have hne : pair.1 ≠ pair.2 := by simpa using List.find?_some hfind
        have hne : pair.1.toNat ≠ pair.2.toNat := fun h => hne (UInt32.toNat_inj.1 h)
        rw [Option.some_or]
        rcases Nat.lt_or_gt_of_ne hne with hlt | hgt
        · simp only [compare_lt_iff_lt.2 hlt, Ordering.then]
        · simp only [compare_gt_iff_gt.2 hgt, Ordering.then]
      | none =>
        by_cases heq : lhs = rhs
        · subst heq
          simp [Ordering.then]
        · simp [heq, Ordering.then]

lemma absCmpLimbs_eq {left right : List UInt32} (hleft : ∀ h : left ≠ [], left.getLast h ≠ 0)
    (hright : ∀ h : right ≠ [], right.getLast h ≠ 0) :
    absCmpLimbs left right = compare (magnitude left) (magnitude right) := by
  -- The longer list stands for the larger number.
  have hshort : ∀ {l r : List UInt32}, (∀ h : r ≠ [], r.getLast h ≠ 0) → l.length < r.length →
      magnitude l < magnitude r := by
    intro l r hr hlt
    have hne : r ≠ [] := by
      rintro rfl
      cases hlt
    calc magnitude l < 2 ^ (32 * l.length) := magnitude_lt l
      _ ≤ 2 ^ (32 * (r.length - 1)) := Nat.pow_le_pow_right (by norm_num) (by omega)
      _ ≤ magnitude r := le_magnitude hne (hr hne)
  rw [absCmpLimbs]
  split
  · next hne =>
    rcases Nat.lt_or_gt_of_ne hne with hlt | hgt
    · rw [compare_lt_iff_lt.2 hlt, compare_lt_iff_lt.2 (hshort hright hlt)]
    · rw [compare_gt_iff_gt.2 hgt, compare_gt_iff_gt.2 (hshort hleft hgt)]
  · next heq => exact compare_magnitude_of_length_eq (not_not.1 heq)

/-- Canonical limbs that compare as the larger ones are at least as many. -/
lemma length_le_of_magnitude_lt {left right : List UInt32}
    (hright : ∀ h : right ≠ [], right.getLast h ≠ 0) (h : magnitude right < magnitude left) :
    right.length ≤ left.length := by
  by_contra hlt
  have hne : right ≠ [] := by
    rintro rfl
    exact hlt (Nat.zero_le _)
  have hle := le_magnitude hne (hright hne)
  have hup := magnitude_lt left
  have hpow : 2 ^ (32 * left.length) ≤ 2 ^ (32 * (right.length - 1)) :=
    Nat.pow_le_pow_right (by norm_num) (by omega)
  omega

/-! ## The operations -/

section Operations

variable (a b : BigInt)

/-- The difference of magnitudes, whichever is the larger one. -/
lemma sub_magnitudes (sign : SignType) :
    ∃ c, (match absCmpLimbs a.limbs b.limbs with
      | .gt => (absSub a.limbs b.limbs).map (fromParts sign)
      | .lt => (absSub b.limbs a.limbs).map (fromParts (-sign))
      | .eq => some zero) = some c ∧
      (sign ≠ 0 → c.toInt = sign * (magnitude a.limbs - magnitude b.limbs)) := by
  rw [absCmpLimbs_eq a.trimmed b.trimmed]
  rcases lt_trichotomy (magnitude a.limbs) (magnitude b.limbs) with hlt | heq | hgt
  · obtain ⟨out, hout, hvalue⟩ :=
      absSub_spec (length_le_of_magnitude_lt a.trimmed hlt) hlt.le
    rw [compare_lt_iff_lt.2 hlt, hout]
    refine ⟨_, rfl, fun hsign => ?_⟩
    rw [fromParts_toInt, hvalue]
    cases sign with
    | zero => exact absurd rfl hsign
    | pos =>
      rw [if_pos (by decide), show ((SignType.pos : SignType) : ℤ) = 1 from rfl]
      ring
    | neg =>
      rw [if_neg (by decide), show ((SignType.neg : SignType) : ℤ) = -1 from rfl]
      ring
  · rw [compare_eq_iff_eq.2 heq]
    refine ⟨zero, rfl, fun _ => ?_⟩
    rw [zero_toInt, heq, sub_self, mul_zero]
  · obtain ⟨out, hout, hvalue⟩ :=
      absSub_spec (length_le_of_magnitude_lt b.trimmed hgt) hgt.le
    rw [compare_gt_iff_gt.2 hgt, hout]
    refine ⟨_, rfl, fun hsign => ?_⟩
    rw [fromParts_toInt, hvalue]
    cases sign with
    | zero => exact absurd rfl hsign
    | pos => rw [if_neg (by decide), show ((SignType.pos : SignType) : ℤ) = 1 from rfl]
    | neg => rw [if_pos (by decide), show ((SignType.neg : SignType) : ℤ) = -1 from rfl]

lemma add_magnitudes (sign : SignType) :
    ∃ c, (absAdd a.limbs b.limbs).map (fromParts sign) = some c ∧
      c.toInt = (if sign = -1 then -1 else 1) * (magnitude a.limbs + magnitude b.limbs) := by
  obtain ⟨out, hout, hvalue⟩ := absAdd_spec a.limbs b.limbs
  refine ⟨fromParts sign out, by rw [hout]; rfl, ?_⟩
  rw [fromParts_toInt, hvalue, Nat.cast_add]

lemma sub_spec : ∃ c, a.sub b = some c ∧ c.toInt = a.toInt - b.toInt := by
  cases hb : b.sign with
  | zero =>
    rw [toInt_of_zero hb]
    refine ⟨a, ?_, (sub_zero _).symm⟩
    rw [sub, hb]
  | pos =>
    rw [toInt_of_pos hb]
    cases ha : a.sign with
    | zero =>
      refine ⟨b.negated, by rw [sub, ha, hb], ?_⟩
      rw [negated_toInt, toInt_of_zero ha, toInt_of_pos hb, zero_sub]
    | pos =>
      obtain ⟨c, hc, hvalue⟩ := sub_magnitudes a b 1
      refine ⟨c, by rw [sub, ha, hb]; exact hc, ?_⟩
      rw [hvalue (by decide), toInt_of_pos ha]
      exact one_mul _
    | neg =>
      obtain ⟨c, hc, hvalue⟩ := add_magnitudes a b (-1)
      refine ⟨c, by rw [sub, ha, hb]; exact hc, ?_⟩
      rw [hvalue, toInt_of_neg ha, if_pos rfl]
      ring
  | neg =>
    rw [toInt_of_neg hb]
    cases ha : a.sign with
    | zero =>
      refine ⟨b.negated, by rw [sub, ha, hb], ?_⟩
      rw [negated_toInt, toInt_of_zero ha, toInt_of_neg hb, zero_sub]
    | pos =>
      obtain ⟨c, hc, hvalue⟩ := add_magnitudes a b 1
      refine ⟨c, by rw [sub, ha, hb]; exact hc, ?_⟩
      rw [hvalue, toInt_of_pos ha, if_neg (by decide)]
      ring
    | neg =>
      obtain ⟨c, hc, hvalue⟩ := sub_magnitudes a b (-1)
      refine ⟨c, by rw [sub, ha, hb]; exact hc, ?_⟩
      rw [hvalue (by decide), toInt_of_neg ha]
      rw [show ((-1 : SignType) : ℤ) = -1 from rfl]
      ring

lemma add_spec : ∃ c, a.add b = some c ∧ c.toInt = a.toInt + b.toInt := by
  cases ha : a.sign with
  | zero =>
    rw [toInt_of_zero ha]
    exact ⟨b, by rw [add, ha], (zero_add _).symm⟩
  | pos =>
    cases hb : b.sign with
    | zero =>
      rw [toInt_of_zero hb]
      exact ⟨a, by rw [add, ha, hb], (add_zero _).symm⟩
    | pos =>
      obtain ⟨c, hc, hvalue⟩ := add_magnitudes a b 1
      refine ⟨c, by rw [add, ha, hb]; exact hc, ?_⟩
      rw [hvalue, toInt_of_pos ha, toInt_of_pos hb, if_neg (by decide)]
      ring
    | neg =>
      obtain ⟨c, hc, hvalue⟩ := sub_spec a b.negated
      refine ⟨c, by rw [add, ha, hb]; exact hc, ?_⟩
      rw [hvalue, negated_toInt, sub_neg_eq_add]
  | neg =>
    cases hb : b.sign with
    | zero =>
      rw [toInt_of_zero hb]
      exact ⟨a, by rw [add, ha, hb], (add_zero _).symm⟩
    | pos =>
      obtain ⟨c, hc, hvalue⟩ := sub_spec b a.negated
      refine ⟨c, by rw [add, ha, hb]; exact hc, ?_⟩
      rw [hvalue, negated_toInt, sub_neg_eq_add, add_comm]
    | neg =>
      obtain ⟨c, hc, hvalue⟩ := add_magnitudes a b (-1)
      refine ⟨c, by rw [add, ha, hb]; exact hc, ?_⟩
      rw [hvalue, toInt_of_neg ha, toInt_of_neg hb, if_pos rfl]
      ring

lemma cmpTotal_eq : a.cmpTotal b = compare a.toInt b.toInt := by
  have hpos : ∀ {c : BigInt}, c.sign = .pos → 0 < c.toInt := fun {c} hc => by
    have := magnitude_pos (a := c) (by rw [hc]; decide)
    rw [toInt_of_pos hc]
    omega
  have hneg : ∀ {c : BigInt}, c.sign = .neg → c.toInt < 0 := fun {c} hc => by
    have := magnitude_pos (a := c) (by rw [hc]; decide)
    rw [toInt_of_neg hc]
    omega
  rw [cmpTotal]
  cases ha : a.sign with
  | zero =>
    cases hb : b.sign with
    | zero => rw [toInt_of_zero ha, toInt_of_zero hb]; rfl
    | pos => rw [toInt_of_zero ha, compare_lt_iff_lt.2 (hpos hb)]; rfl
    | neg => rw [toInt_of_zero ha, compare_gt_iff_gt.2 (hneg hb)]; rfl
  | pos =>
    cases hb : b.sign with
    | zero => rw [toInt_of_zero hb, compare_gt_iff_gt.2 (hpos ha)]; rfl
    | pos =>
      rw [toInt_of_pos ha, toInt_of_pos hb, if_neg (by decide), if_neg (by decide)]
      simp only [absCmpLimbs_eq a.trimmed b.trimmed]
      rcases lt_trichotomy (magnitude a.limbs) (magnitude b.limbs) with h | h | h
      · rw [compare_lt_iff_lt.2 h, compare_lt_iff_lt.2 (by exact_mod_cast h)]
      · rw [compare_eq_iff_eq.2 h, compare_eq_iff_eq.2 (by exact_mod_cast h)]
      · rw [compare_gt_iff_gt.2 h, compare_gt_iff_gt.2 (by exact_mod_cast h)]
    | neg => rw [compare_gt_iff_gt.2 ((hneg hb).trans (hpos ha))]; rfl
  | neg =>
    cases hb : b.sign with
    | zero => rw [toInt_of_zero hb, compare_lt_iff_lt.2 (hneg ha)]; rfl
    | pos => rw [compare_lt_iff_lt.2 ((hneg ha).trans (hpos hb))]; rfl
    | neg =>
      rw [toInt_of_neg ha, toInt_of_neg hb, if_neg (by decide), if_neg (by decide)]
      simp only [absCmpLimbs_eq b.trimmed a.trimmed]
      rcases lt_trichotomy (magnitude b.limbs) (magnitude a.limbs) with h | h | h
      · rw [compare_lt_iff_lt.2 h, compare_lt_iff_lt.2 (by omega)]
      · rw [compare_eq_iff_eq.2 h, compare_eq_iff_eq.2 (by omega)]
      · rw [compare_gt_iff_gt.2 h, compare_gt_iff_gt.2 (by omega)]

end Operations

/-! ## Products -/

/-- A row adds its product; the cell behind it is zero before the carry is written. -/
lemma mulRow_spec (left : UInt32) {rights out rest : List UInt32} {carry : ℕ}
    (hout : out.drop rights.length = 0 :: rest) (hcarry : carry < 2 ^ 32) :
    ∃ res, mulRow left rights out carry = some res ∧ res ≠ [] ∧
      res.drop (rights.length + 1) = rest ∧
      magnitude res = magnitude out + left.toNat * magnitude rights + carry := by
  induction rights generalizing out carry with
  | nil =>
    obtain rfl : out = 0 :: rest := hout
    rw [mulRow]
    by_cases hzero : carry = 0
    · refine ⟨0 :: rest, by rw [if_neg (not_not.2 hzero)], List.cons_ne_nil _ _, rfl, ?_⟩
      simp [hzero]
    · refine ⟨asU32 carry :: rest, by rw [if_pos hzero], List.cons_ne_nil _ _, rfl, ?_⟩
      rw [magnitude_cons, magnitude_cons, asU32_toNat_of_lt hcarry, UInt32.toNat_zero,
        magnitude_nil]
      ring
  | cons right rights ih =>
    cases out with
    | nil => cases hout
    | cons cell out =>
      have hl := left.toNat_lt
      have hr := right.toNat_lt
      have hc := cell.toNat_lt
      -- The largest sum is `2 ^ 64 - 1`.
      have hproduct : left.toNat * right.toNat ≤ (2 ^ 32 - 1) * (2 ^ 32 - 1) :=
        Nat.mul_le_mul (by omega) (by omega)
      set sum := cell.toNat + left.toNat * right.toNat + carry with hsum
      have hsumlt : sum < 2 ^ 64 := by omega
      have hnext : sum >>> 32 < 2 ^ 32 := by
        rw [Nat.shiftRight_eq_div_pow]
        omega
      have hout : out.drop rights.length = 0 :: rest := hout
      obtain ⟨res, hres, -, hdrop, hvalue⟩ := ih hout hnext
      refine ⟨asU32 sum :: res, ?_, List.cons_ne_nil _ _, hdrop, ?_⟩
      · rw [mulRow, checkedU64_eq (by omega), Option.bind_eq_bind, Option.bind_some,
          checkedU64_eq (by omega), Option.bind_eq_bind, Option.bind_some,
          checkedU64_eq hsumlt, Option.bind_some, hres]
        rfl
      · have hparts := asU32_add_shiftRight sum
        rw [magnitude_cons, hvalue, magnitude_cons, magnitude_cons]
        linear_combination hparts + hsum

lemma mulRows_spec {lefts rights out : List UInt32}
    (hout : out.drop rights.length = List.replicate lefts.length 0) :
    ∃ res, mulRows lefts rights out = some res ∧
      magnitude res = magnitude out + magnitude lefts * magnitude rights := by
  induction lefts generalizing out with
  | nil => exact ⟨out, rfl, by simp⟩
  | cons left lefts ih =>
    have hcarry : 0 < 2 ^ 32 := by norm_num
    obtain ⟨res, hres, hne, hdrop, hvalue⟩ := mulRow_spec left hout hcarry
    cases res with
    | nil => exact absurd rfl hne
    | cons cell res =>
      have hdrop : res.drop rights.length = List.replicate lefts.length 0 := hdrop
      obtain ⟨rest, hrest, hproduct⟩ := ih hdrop
      refine ⟨cell :: rest, ?_, ?_⟩
      · rw [mulRows, hres, Option.bind_eq_bind, Option.bind_some]
        simp only [hrest]
        rfl
      · rw [magnitude_cons] at hvalue
        rw [magnitude_cons, hproduct, magnitude_cons]
        linear_combination hvalue

lemma mul_spec (a b : BigInt) : ∃ c, a.mul b = some c ∧ c.toInt = a.toInt * b.toInt := by
  rw [mul]
  split
  · next hzero =>
    refine ⟨zero, rfl, ?_⟩
    rcases Bool.or_eq_true_iff.1 hzero with hzero | hzero
    · rw [isZero_iff.1 hzero, zero_mul, zero_toInt]
    · rw [isZero_iff.1 hzero, mul_zero, zero_toInt]
  · next hne =>
    rw [Bool.or_eq_true, not_or] at hne
    have hout : (List.replicate (a.limbs.length + b.limbs.length) (0 : UInt32)).drop
        b.limbs.length = List.replicate a.limbs.length 0 := by
      rw [List.drop_replicate, Nat.add_sub_cancel]
    obtain ⟨res, hres, hvalue⟩ := mulRows_spec hout
    rw [magnitude_replicate, zero_add] at hvalue
    refine ⟨_, by rw [hres]; rfl, ?_⟩
    rw [fromParts_toInt, hvalue, toInt, toInt]
    have ha : a.sign ≠ 0 := fun h => hne.1 (by rw [isZero, h]; rfl)
    have hb : b.sign ≠ 0 := fun h => hne.2 (by rw [isZero, h]; rfl)
    push_cast
    cases hsa : a.sign with
    | zero => exact absurd hsa ha
    | pos =>
      cases hsb : b.sign with
      | zero => exact absurd hsb hb
      | pos =>
        rw [if_neg (by decide), show ((SignType.pos : SignType) : ℤ) = 1 from rfl]
        ring
      | neg =>
        rw [if_pos (by decide), show ((SignType.pos : SignType) : ℤ) = 1 from rfl,
          show ((SignType.neg : SignType) : ℤ) = -1 from rfl]
        ring
    | neg =>
      cases hsb : b.sign with
      | zero => exact absurd hsb hb
      | pos =>
        rw [if_pos (by decide), show ((SignType.pos : SignType) : ℤ) = 1 from rfl,
          show ((SignType.neg : SignType) : ℤ) = -1 from rfl]
        ring
      | neg =>
        rw [if_neg (by decide), show ((SignType.neg : SignType) : ℤ) = -1 from rfl]
        ring

/-- A round of `pow_u64` keeps the product of what is done and what is left. -/
lemma powLoop_spec (base out : BigInt) (exponent : ℕ) :
    ∃ c, powLoop base out exponent = some c ∧ c.toInt = out.toInt * base.toInt ^ exponent := by
  induction exponent using Nat.strong_induction_on generalizing base out with
  | _ exponent ih =>
    rw [powLoop]
    split
    · next hzero => exact ⟨out, rfl, by rw [hzero, pow_zero, mul_one]⟩
    · next hne =>
      have hhalf : exponent >>> 1 = exponent / 2 := by rw [Nat.shiftRight_eq_div_pow, pow_one]
      obtain ⟨next, hnext, hnextValue⟩ : ∃ next,
          (if exponent % 2 = 1 then out.mul base else some out) = some next ∧
            next.toInt = out.toInt * base.toInt ^ (exponent % 2) := by
        rcases Nat.mod_two_eq_zero_or_one exponent with hmod | hmod
        · exact ⟨out, by rw [hmod]; rfl, by rw [hmod, pow_zero, mul_one]⟩
        · obtain ⟨c, hc, hvalue⟩ := mul_spec out base
          exact ⟨c, by rw [if_pos hmod, hc], by rw [hvalue, hmod, pow_one]⟩
      obtain ⟨square, hsquare, hsquareValue⟩ : ∃ square,
          (if exponent >>> 1 ≠ 0 then base.mul base else some base) = some square ∧
            square.toInt ^ (exponent / 2) = (base.toInt * base.toInt) ^ (exponent / 2) := by
        by_cases hlast : exponent >>> 1 = 0
        · refine ⟨base, by rw [if_neg (not_not.2 hlast)], ?_⟩
          rw [← hhalf, hlast, pow_zero, pow_zero]
        · obtain ⟨c, hc, hvalue⟩ := mul_spec base base
          exact ⟨c, by rw [if_pos hlast, hc], by rw [hvalue]⟩
      obtain ⟨c, hc, hvalue⟩ := ih (exponent >>> 1) (by rw [hhalf]; omega) square next
      refine ⟨c, ?_, ?_⟩
      · rw [hnext, Option.bind_eq_bind, Option.bind_some, hsquare, Option.bind_some, hc]
      · rw [hvalue, hhalf, hsquareValue, hnextValue, ← pow_two, ← pow_mul, mul_assoc, ← pow_add,
          Nat.mod_add_div]

lemma powU64_spec (a : BigInt) (exponent : ℕ) :
    ∃ c, a.powU64 exponent = some c ∧ c.toInt = a.toInt ^ exponent := by
  obtain ⟨c, hc, hvalue⟩ := powLoop_spec a one exponent
  exact ⟨c, hc, by rw [hvalue, one_toInt, one_mul]⟩

/-! ## Small operands -/

lemma mulSmallLoop_spec (small : UInt32) (limbs : List UInt32) {carry : ℕ}
    (hcarry : carry < 2 ^ 32) :
    ∃ out, mulSmallLoop small limbs carry = some out ∧
      magnitude out = magnitude limbs * small.toNat + carry := by
  induction limbs generalizing carry with
  | nil =>
    refine ⟨_, rfl, ?_⟩
    rw [magnitude_carry hcarry, magnitude_nil]
    omega
  | cons limb limbs ih =>
    have hl := limb.toNat_lt
    have hs := small.toNat_lt
    have hproduct : limb.toNat * small.toNat ≤ (2 ^ 32 - 1) * (2 ^ 32 - 1) :=
      Nat.mul_le_mul (by omega) (by omega)
    set value := limb.toNat * small.toNat + carry with hvalue
    have hnext : value >>> 32 < 2 ^ 32 := by
      rw [Nat.shiftRight_eq_div_pow]
      omega
    obtain ⟨out, hout, hmagnitude⟩ := ih hnext
    refine ⟨asU32 value :: out, ?_, ?_⟩
    · rw [mulSmallLoop, checkedU64_eq (by omega), Option.bind_eq_bind, Option.bind_some,
        checkedU64_eq (by omega), Option.bind_eq_bind, Option.bind_some, hout]
      rfl
    · have hparts := asU32_add_shiftRight value
      rw [magnitude_cons, hmagnitude, magnitude_cons]
      linear_combination hparts + hvalue

lemma mulSmall_spec (a : BigInt) (small : UInt32) :
    ∃ c, a.mulSmall small = some c ∧ c.toInt = a.toInt * small.toNat := by
  rw [mulSmall]
  split
  · next hzero =>
    refine ⟨zero, rfl, ?_⟩
    rcases Bool.or_eq_true_iff.1 hzero with hzero | hzero
    · rw [isZero_iff.1 hzero, zero_mul, zero_toInt]
    · rw [eq_of_beq hzero, zero_toInt]
      simp
  · next hne =>
    rw [Bool.or_eq_true, not_or] at hne
    split
    · next hone => exact ⟨a, rfl, by rw [hone]; simp⟩
    · have hcarry : 0 < 2 ^ 32 := by norm_num
      obtain ⟨out, hout, hvalue⟩ := mulSmallLoop_spec small a.limbs hcarry
      refine ⟨_, by rw [hout]; rfl, ?_⟩
      rw [fromParts_toInt, hvalue, toInt]
      have ha : a.sign ≠ 0 := fun h => hne.1 (by rw [isZero, h]; rfl)
      push_cast
      cases hsign : a.sign with
      | zero => exact absurd hsign ha
      | pos =>
        rw [if_neg (by decide), show ((SignType.pos : SignType) : ℤ) = 1 from rfl]
        ring
      | neg =>
        rw [if_pos (by decide), show ((SignType.neg : SignType) : ℤ) = -1 from rfl]
        ring

lemma addSmallLoop_spec (limbs : List UInt32) {carry : ℕ} (hcarry : carry < 2 ^ 32) :
    ∃ out, addSmallLoop limbs carry = some out ∧ magnitude out = magnitude limbs + carry := by
  induction limbs generalizing carry with
  | nil =>
    refine ⟨_, rfl, ?_⟩
    rw [magnitude_carry hcarry, magnitude_nil]
    omega
  | cons limb limbs ih =>
    rw [addSmallLoop]
    split
    · next hzero => exact ⟨_, rfl, by rw [hzero, add_zero]⟩
    · have hl := limb.toNat_lt
      have hnext : (limb.toNat + carry) >>> 32 < 2 ^ 32 := by
        rw [Nat.shiftRight_eq_div_pow]
        omega
      obtain ⟨out, hout, hmagnitude⟩ := ih hnext
      refine ⟨asU32 (limb.toNat + carry) :: out, ?_, ?_⟩
      · rw [checkedU64_eq (by omega), Option.bind_eq_bind, Option.bind_some, hout]
        rfl
      · have hparts := asU32_add_shiftRight (limb.toNat + carry)
        rw [magnitude_cons, hmagnitude, magnitude_cons]
        linear_combination hparts

lemma addSmall_spec (a : BigInt) (small : UInt32) :
    ∃ c, a.addSmall small = some c ∧ c.toInt = a.toInt + small.toNat := by
  have hsmall : (fromU64 small.toUInt64).toInt = small.toNat := by
    rw [fromU64_toInt, UInt32.toNat_toUInt64]
  rw [addSmall]
  split
  · next hzero => exact ⟨a, rfl, by rw [hzero]; simp⟩
  · split
    · next hzero => exact ⟨_, rfl, by rw [hsmall, isZero_iff.1 hzero, zero_add]⟩
    · next hne =>
      split
      · obtain ⟨c, hc, hvalue⟩ := add_spec a (fromU64 small.toUInt64)
        exact ⟨c, hc, by rw [hvalue, hsmall]⟩
      · next hpositive =>
        obtain ⟨out, hout, hvalue⟩ := addSmallLoop_spec a.limbs small.toNat_lt
        refine ⟨_, by rw [hout]; rfl, ?_⟩
        have hsign : a.sign = .pos := by
          cases hsign : a.sign with
          | zero => exact absurd (by rw [isZero, hsign]; rfl) hne
          | pos => rfl
          | neg => exact absurd (by rw [isNegative, hsign]; rfl) hpositive
        rw [fromParts_toInt, hvalue, toInt_of_pos hsign, if_neg (by decide)]
        push_cast
        ring

/-! ## All operations -/

lemma sign_toInt (a : BigInt) : SignType.sign a.toInt = a.sign := by
  cases hsign : a.sign with
  | zero =>
    rw [toInt_of_zero hsign, sign_zero]
    rfl
  | pos =>
    have hpos := magnitude_pos (a := a) (by rw [hsign]; decide)
    rw [toInt_of_pos hsign]
    exact sign_pos (by exact_mod_cast hpos)
  | neg =>
    have hpos := magnitude_pos (a := a) (by rw [hsign]; decide)
    rw [toInt_of_neg hsign]
    exact sign_neg (by omega)

lemma natAbs_toInt (a : BigInt) : a.toInt.natAbs = magnitude a.limbs := by
  cases hsign : a.sign with
  | zero =>
    rw [toInt_of_zero hsign, a.sign_eq_zero_iff.1 hsign]
    rfl
  | pos => rw [toInt_of_pos hsign, Int.natAbs_natCast]
  | neg => rw [toInt_of_neg hsign, Int.natAbs_neg, Int.natAbs_natCast]

/-- Limbs without leading zeros are the digits of their magnitude. -/
lemma digits_magnitude {limbs : List UInt32} (htrimmed : ∀ h : limbs ≠ [], limbs.getLast h ≠ 0) :
    Nat.digits (2 ^ 32) (magnitude limbs) = limbs.map UInt32.toNat := by
  refine Nat.digits_ofDigits (2 ^ 32) (by norm_num) _ ?_ ?_
  · intro digit hdigit
    obtain ⟨limb, -, rfl⟩ := List.mem_map.1 hdigit
    exact limb.toNat_lt
  · intro hne hzero
    have hlimbs : limbs ≠ [] := fun hnil => hne (by rw [hnil]; rfl)
    rw [List.getLast_map] at hzero
    exact htrimmed hlimbs (UInt32.toNat_inj.1 hzero)

lemma magnitude_injective {left right : List UInt32}
    (hleft : ∀ h : left ≠ [], left.getLast h ≠ 0) (hright : ∀ h : right ≠ [], right.getLast h ≠ 0)
    (h : magnitude left = magnitude right) : left = right := by
  have hdigits : left.map UInt32.toNat = right.map UInt32.toNat := by
    rw [← digits_magnitude hleft, h, digits_magnitude hright]
  exact List.map_injective_iff.2 (fun _ _ h => UInt32.toNat_inj.1 h) hdigits

/-- A `BigInt` is the only one of its integer. -/
lemma toInt_injective : Function.Injective toInt := by
  intro a b h
  have hsigns : a.sign = b.sign := by rw [← sign_toInt, h, sign_toInt]
  have hmagnitudes : magnitude a.limbs = magnitude b.limbs := by
    rw [← natAbs_toInt, h, natAbs_toInt]
  have hlimbs := magnitude_injective a.trimmed b.trimmed hmagnitudes
  cases a
  cases b
  simp only [mk.injEq]
  exact ⟨hsigns, hlimbs⟩

/-- **The ring operations are exact.**  They give the integers that they stand for, and no machine
integer overflows on the way. -/
theorem ring_operations_exact (a b : BigInt) (small : UInt32) (exponent : ℕ) :
    (∃ c, a.add b = some c ∧ c.toInt = a.toInt + b.toInt) ∧
      (∃ c, a.sub b = some c ∧ c.toInt = a.toInt - b.toInt) ∧
      (∃ c, a.mul b = some c ∧ c.toInt = a.toInt * b.toInt) ∧
      a.negated.toInt = -a.toInt ∧
      (∃ c, a.mulSmall small = some c ∧ c.toInt = a.toInt * small.toNat) ∧
      (∃ c, a.addSmall small = some c ∧ c.toInt = a.toInt + small.toNat) ∧
      (∃ c, a.powU64 exponent = some c ∧ c.toInt = a.toInt ^ exponent) ∧
      a.cmpTotal b = compare a.toInt b.toInt :=
  ⟨add_spec a b, sub_spec a b, mul_spec a b, negated_toInt a, mulSmall_spec a small,
    addSmall_spec a small, powU64_spec a exponent, cmpTotal_eq a b⟩

end BigInt

end Pyrs
