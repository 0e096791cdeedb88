import Pyrs.Properties.BigIntText

/-!
# Reading big integers

A text of digits is read as its positional value, so what is written of a natural number in a base
is read as that number.
-/

namespace Pyrs

/-! ## Digits of characters -/

lemma toDigit_eq_some_iff {ch : Char} {radix digit : ℕ} (hradix : radix ≤ 36) :
    toDigit ch radix = some digit ↔ toDigit ch 36 = some digit ∧ digit < radix := by
  simp only [toDigit, Option.filter_eq_some_iff, decide_eq_true_eq]
  exact ⟨fun h => ⟨⟨h.1, h.2.trans_le hradix⟩, h.2⟩, fun h => ⟨h.1.1, h.2⟩⟩

lemma toDigit_lt {ch : Char} {radix digit : ℕ} (h : toDigit ch radix = some digit) :
    digit < radix := by
  rw [toDigit, Option.filter_eq_some_iff, decide_eq_true_eq] at h
  exact h.2

lemma toDigit_radixDigit {radix digit : ℕ} (hlt : digit < radix) (hradix : radix ≤ 36) :
    toDigit (radixDigit digit) radix = some digit := by
  have hall : ∀ digit : Fin 36, toDigit (radixDigit digit) 36 = some (digit : ℕ) := by decide
  exact (toDigit_eq_some_iff hradix).2 ⟨hall ⟨digit, hlt.trans_le hradix⟩, hlt⟩

lemma mapM_toDigit {radix : ℕ} (hradix : radix ≤ 36) {digits : List ℕ}
    (h : ∀ digit ∈ digits, digit < radix) :
    (digits.map radixDigit).mapM (toDigit · radix) = some digits := by
  rw [List.mapM_map]
  refine (Results.mapM_eq_pure (g := id) fun digit hdigit => ?_).trans (by rw [List.map_id]; rfl)
  exact toDigit_radixDigit (h digit hdigit) hradix

lemma radixText_ne_nil (radix n : ℕ) : radixText radix n ≠ [] := by
  rw [radixText]
  split
  · exact List.cons_ne_nil _ _
  · next hne =>
    rw [Ne, List.map_eq_nil_iff, List.reverse_eq_nil_iff, Nat.digits_eq_nil_iff_eq_zero]
    exact hne

/-- The characters of a number are digits with its value. -/
lemma mapM_radixText {radix : ℕ} (hlow : 1 < radix) (hhigh : radix ≤ 36) (n : ℕ) :
    ∃ digits, (radixText radix n).mapM (toDigit · radix) = some digits ∧
      Nat.ofDigits radix digits.reverse = n := by
  rw [radixText]
  split
  · next hzero =>
    have hdigit : ∀ digit ∈ [0], digit < radix := List.forall_mem_singleton.2 (by omega)
    have hdigits := mapM_toDigit hhigh hdigit
    exact ⟨[0], hdigits, by rw [hzero, List.reverse_singleton, Nat.ofDigits_singleton]⟩
  · refine ⟨(Nat.digits radix n).reverse, mapM_toDigit hhigh fun digit hdigit => ?_, ?_⟩
    · exact Nat.digits_lt_base hlow (List.mem_reverse.1 hdigit)
    · rw [List.reverse_reverse, Nat.ofDigits_digits]

namespace BigInt

/-! ## The loop -/

/-- The loop never overflows.  Behind what is read it appends the digits of the text, unless a
character is none. -/
lemma fromStrRadixLoop_spec (radix : UInt32) (chars : List Char) (out : BigInt) :
    ∃ result, fromStrRadixLoop radix chars out = some result ∧
      result.map toInt = (chars.mapM (toDigit · radix.toNat)).map fun digits =>
        out.toInt * radix.toNat ^ digits.length +
          (Nat.ofDigits radix.toNat digits.reverse : ℕ) := by
  induction chars generalizing out with
  | nil => exact ⟨some out, rfl, by simp⟩
  | cons ch chars ih =>
    cases hch : toDigit ch radix.toNat with
    | none =>
      refine ⟨none, by rw [fromStrRadixLoop, hch], ?_⟩
      rw [List.mapM_cons, hch]
      rfl
    | some digit =>
      have hdigit := (toDigit_lt hch).trans radix.toNat_lt
      obtain ⟨scaled, hscaled, hscaledValue⟩ := out.mulSmall_spec radix
      obtain ⟨sum, hsum, hsumValue⟩ := scaled.addSmall_spec (asU32 digit)
      rw [asU32_toNat_of_lt hdigit, hscaledValue] at hsumValue
      obtain ⟨result, hresult, hvalue⟩ := ih sum
      refine ⟨result, ?_, ?_⟩
      · simp only [fromStrRadixLoop, hch, hscaled, hsum, Option.bind_eq_bind, Option.bind_some,
          hresult]
      · rw [hvalue, List.mapM_cons, hch]
        cases chars.mapM (toDigit · radix.toNat) with
        | none => rfl
        | some digits =>
          simp only [Option.bind_eq_bind, Option.bind_some, Option.pure_def, Option.map_some,
            hsumValue, List.reverse_cons, List.length_cons, Nat.ofDigits_append,
            Nat.ofDigits_singleton, List.length_reverse]
          refine congrArg some ?_
          push_cast
          ring

/-- The text of a big integer is read where it has a character and all of them are digits. -/
lemma fromStrRadix_spec {text : String} (hne : text ≠ "") {radix : UInt32} (hlow : 2 ≤ radix)
    (hhigh : radix ≤ 36) :
    ∃ result, fromStrRadix text radix = some result ∧
      result.map toInt = (text.toList.mapM (toDigit · radix.toNat)).map fun digits =>
        ((Nat.ofDigits radix.toNat digits.reverse : ℕ) : ℤ) := by
  obtain ⟨result, hresult, hvalue⟩ := fromStrRadixLoop_spec radix text.toList zero
  simp only [zero_toInt, zero_mul, zero_add] at hvalue
  refine ⟨result, ?_, hvalue⟩
  rw [fromStrRadix, if_neg (not_not.2 ⟨hlow, hhigh⟩), if_neg hne, hresult]

lemma fromStrRadix_of_digits {text : String} (hne : text ≠ "") {radix : UInt32} (hlow : 2 ≤ radix)
    (hhigh : radix ≤ 36) {digits : List ℕ}
    (hdigits : text.toList.mapM (toDigit · radix.toNat) = some digits) :
    ∃ value, fromStrRadix text radix = some (some value) ∧
      value.toInt = (Nat.ofDigits radix.toNat digits.reverse : ℕ) := by
  obtain ⟨result, hresult, hvalue⟩ := fromStrRadix_spec hne hlow hhigh
  rw [hdigits, Option.map_some, Option.map_eq_some_iff] at hvalue
  obtain ⟨value, rfl, hvalue⟩ := hvalue
  exact ⟨value, hresult, hvalue⟩

/-! ## Writing and reading -/

/-- What is written of a natural number is read as it. -/
lemma fromStrRadix_toStrRadix {value : BigInt} (hvalue : 0 ≤ value.toInt) {radix : UInt32}
    (hlow : 2 ≤ radix) (hhigh : radix ≤ 36) :
    ∃ text, value.toStrRadix radix = some (some text) ∧
      fromStrRadix text radix = some (some value) := by
  have hlow' : 1 < radix.toNat := UInt32.le_iff_toNat_le.1 hlow
  have hhigh' : radix.toNat ≤ 36 := UInt32.le_iff_toNat_le.1 hhigh
  refine ⟨_, toStrRadix_text value hlow hhigh, ?_⟩
  rw [signText, if_neg (not_lt.2 hvalue), List.nil_append]
  obtain ⟨digits, hdigits, hsum⟩ := mapM_radixText hlow' hhigh' value.toInt.natAbs
  obtain ⟨read, hread, hreadValue⟩ := fromStrRadix_of_digits
    (mt String.ofList_eq_empty_iff.1 (radixText_ne_nil _ _)) hlow hhigh
    (by rw [String.toList_ofList]; exact hdigits)
  rw [hread, toInt_injective (hreadValue.trans _)]
  rw [hsum, Int.natAbs_of_nonneg hvalue]

lemma display_eq_toStrRadix (value : BigInt) :
    ∃ text, value.display = some text ∧ value.toStrRadix 10 = some (some text) :=
  ⟨_, display_spec value, toStrRadix_spec value (by decide) (by decide)⟩

/-- **Big integers and their texts.**  What is written of a natural number in a base is read as it,
`Display` writes the text in base ten, and digits are read as their positional value. -/
theorem strRadix_sound (radix : UInt32) (hlow : 2 ≤ radix) (hhigh : radix ≤ 36) :
    (∀ value : BigInt, 0 ≤ value.toInt → ∃ text, value.toStrRadix radix = some (some text) ∧
      fromStrRadix text radix = some (some value)) ∧
    (∀ value : BigInt, ∃ text, value.display = some text ∧
      value.toStrRadix 10 = some (some text)) ∧
    ∀ (text : String) (digits : List ℕ), text ≠ "" →
      text.toList.mapM (toDigit · radix.toNat) = some digits →
        ∃ value, fromStrRadix text radix = some (some value) ∧
          value.toInt = (Nat.ofDigits radix.toNat digits.reverse : ℕ) :=
  ⟨fun _ hvalue => fromStrRadix_toStrRadix hvalue hlow hhigh, display_eq_toStrRadix,
    fun _ _ hne hdigits => fromStrRadix_of_digits hne hlow hhigh hdigits⟩

/-- `1678355` in base 36, and `"0zz0z"`. -/
theorem strRadix_sound_base36 :
    (∃ text, (fromI64 1678355).toStrRadix 36 = some (some text) ∧
      fromStrRadix text 36 = some (some (fromI64 1678355))) ∧
    ∃ value, fromStrRadix "0zz0z" 36 = some (some value) ∧ value.toInt = 1678355 :=
  have h := strRadix_sound 36 (by decide) (by decide)
  ⟨h.1 (fromI64 1678355) (by rw [fromI64_toInt]; decide),
    h.2.2 "0zz0z" [0, 35, 35, 0, 35] (by decide) (by decide)⟩

end BigInt

end Pyrs
