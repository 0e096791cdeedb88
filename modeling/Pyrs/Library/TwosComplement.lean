import Mathlib.Data.Int.Bitwise
import Mathlib.Tactic.Linarith
import Mathlib.Tactic.Ring

/-!
# Two's complement

`Int.testBit` reads the infinite two's complement of an integer.  A word of `width` bits holds the
integer modulo `2 ^ width`; `Int.bmod` reads the word back, with its highest bit for the sign.
-/

namespace TwosComplement

lemma testBit_natCast (value index : ℕ) : (value : ℤ).testBit index = value.testBit index := rfl

lemma testBit_negSucc (value index : ℕ) :
    (Int.negSucc value).testBit index = !value.testBit index := rfl

/-! ## Words -/

/-- A word has the low bits of its integer. -/
lemma testBit_emod (x : ℤ) {width index : ℕ} (h : index < width) :
    (x % 2 ^ width).testBit index = x.testBit index := by
  cases x with
  | ofNat value =>
    have hcast : (Int.ofNat value % 2 ^ width : ℤ) = (value % 2 ^ width : ℕ) := by
      push_cast
      rfl
    rw [hcast, testBit_natCast, Nat.testBit_mod_two_pow, decide_eq_true h, Bool.true_and]
    rfl
  | negSucc value =>
    have hlt : value % 2 ^ width < 2 ^ width := Nat.mod_lt _ (by positivity)
    have hcast : (Int.negSucc value % 2 ^ width : ℤ) =
        (2 ^ width - (value % 2 ^ width + 1) : ℕ) := by
      rw [Int.negSucc_emod value (by positivity), Nat.cast_sub hlt]
      push_cast
      ring
    rw [hcast, testBit_natCast, Nat.testBit_two_pow_sub_succ hlt, decide_eq_true h, Bool.true_and,
      Nat.testBit_mod_two_pow, decide_eq_true h, Bool.true_and, testBit_negSucc]

/-- From the width of an integer on, all its bits are its sign. -/
lemma testBit_eq_sign {x : ℤ} {width index : ℕ} (hlow : -2 ^ width ≤ x) (hhigh : x < 2 ^ width)
    (h : width ≤ index) : x.testBit index = decide (x < 0) := by
  have hpow : (2 : ℕ) ^ width ≤ 2 ^ index := Nat.pow_le_pow_right (by norm_num) h
  cases x with
  | ofNat value =>
    have hvalue : value < 2 ^ width := by
      have : (value : ℤ) < 2 ^ width := hhigh
      exact_mod_cast this
    have hsign : ¬Int.ofNat value < 0 := not_lt.2 (Int.natCast_nonneg value)
    rw [decide_eq_false hsign]
    exact Nat.testBit_lt_two_pow (hvalue.trans_le hpow)
  | negSucc value =>
    have hvalue : value < 2 ^ width := by
      have : (value : ℤ) < 2 ^ width := by
        rw [Int.negSucc_eq] at hlow
        linarith
      exact_mod_cast this
    rw [decide_eq_true (Int.negSucc_lt_zero value), testBit_negSucc,
      Nat.testBit_lt_two_pow (hvalue.trans_le hpow)]
    rfl

/-- An integer is known by its bits. -/
lemma eq_of_testBit_eq {x y : ℤ} (h : ∀ index, x.testBit index = y.testBit index) : x = y := by
  -- Behind all their ones and zeros the bits are the signs.
  have hsigns : ∀ m n : ℕ, ¬∀ index, (m : ℤ).testBit index = (Int.negSucc n).testBit index := by
    intro m n h
    have hbit := h (m + n)
    have hm : m < 2 ^ (m + n) := (Nat.le_add_right m n).trans_lt Nat.lt_two_pow_self
    have hn : n < 2 ^ (m + n) := (Nat.le_add_left n m).trans_lt Nat.lt_two_pow_self
    rw [testBit_natCast, testBit_negSucc, Nat.testBit_lt_two_pow hm, Nat.testBit_lt_two_pow hn]
      at hbit
    cases hbit
  cases x with
  | ofNat m =>
    cases y with
    | ofNat n => exact congrArg Int.ofNat (Nat.eq_of_testBit_eq h)
    | negSucc n => exact absurd h (hsigns m n)
  | negSucc m =>
    cases y with
    | ofNat n => exact absurd (fun index => (h index).symm) (hsigns n m)
    | negSucc n =>
      refine congrArg Int.negSucc (Nat.eq_of_testBit_eq fun index => ?_)
      have hbit := h index
      rwa [testBit_negSucc, testBit_negSucc, Bool.not_inj_iff] at hbit

/-! ## The signed reading -/

lemma bmod_bounds (x : ℤ) (width : ℕ) :
    -2 ^ width ≤ x.bmod (2 ^ (width + 1)) ∧ x.bmod (2 ^ (width + 1)) < 2 ^ width := by
  have hpow : (2 : ℕ) ^ (width + 1) = 2 * 2 ^ width := by ring
  have hpos : 0 < (2 : ℕ) ^ (width + 1) := by positivity
  have hlow := Int.le_bmod (x := x) hpos
  have hhigh := Int.bmod_lt (x := x) hpos
  rw [hpow] at hlow hhigh ⊢
  push_cast at hlow hhigh ⊢
  omega

/-- The signed reading of a word has its bits. -/
lemma testBit_bmod (x : ℤ) {width index : ℕ} (h : index < width) :
    (x.bmod (2 ^ width)).testBit index = x.testBit index := by
  rw [← testBit_emod _ h, ← testBit_emod x h]
  have hmod := Int.bmod_emod (x := x) (m := 2 ^ width)
  push_cast at hmod
  rw [hmod]

/-- **A bitwise operation may be done on words.**  They are to be wide enough for their integers and
a sign. -/
theorem testBit_wordwise {f : Bool → Bool → Bool} {x y : ℤ} {word width : ℕ}
    (hxlow : -2 ^ width ≤ x) (hxhigh : x < 2 ^ width) (hylow : -2 ^ width ≤ y)
    (hyhigh : y < 2 ^ width)
    (hword : ∀ index < width + 1, word.testBit index = f (x.testBit index) (y.testBit index))
    (index : ℕ) :
    ((word : ℤ).bmod (2 ^ (width + 1))).testBit index = f (x.testBit index) (y.testBit index) := by
  have hlow : ∀ index < width + 1,
      ((word : ℤ).bmod (2 ^ (width + 1))).testBit index =
        f (x.testBit index) (y.testBit index) := by
    intro index h
    rw [testBit_bmod _ h, testBit_natCast, hword index h]
  by_cases h : index < width + 1
  · exact hlow index h
  · -- All bits up from the sign are equal to it.
    have h : width ≤ index := by omega
    have hsign := hlow width (Nat.lt_succ_self width)
    obtain ⟨hbelow, habove⟩ := bmod_bounds word width
    rw [testBit_eq_sign hbelow habove h, testBit_eq_sign hxlow hxhigh h,
      testBit_eq_sign hylow hyhigh h]
    rwa [testBit_eq_sign hbelow habove le_rfl, testBit_eq_sign hxlow hxhigh le_rfl,
      testBit_eq_sign hylow hyhigh le_rfl] at hsign

end TwosComplement
