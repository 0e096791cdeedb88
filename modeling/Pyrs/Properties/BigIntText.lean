import Pyrs.Library.Results
import Pyrs.Model.BigIntText
import Pyrs.Properties.BigIntDivision

/-!
# The text of big integers

The remainders of the repeated division are the digits of the magnitude, and those of chunks are
decimal digits as well.
-/

namespace Pyrs

/-! ## Digits -/

lemma toDigits_eq_digits {base n : ℕ} (hbase : 1 < base) (hpos : 0 < n) :
    Nat.toDigits base n = (Nat.digits base n).reverse.map Nat.digitChar := by
  induction n using Nat.strong_induction_on with
  | h n ih =>
    rw [Nat.toDigits_eq_if hbase, Nat.digits_def' hbase hpos]
    split
    · next hlt =>
      rw [Nat.div_eq_of_lt hlt, Nat.mod_eq_of_lt hlt, Nat.digits_zero]
      rfl
    · next hge =>
      have hdiv : 0 < n / base := Nat.div_pos (not_lt.1 hge) (by omega)
      rw [ih _ (Nat.div_lt_self hpos hbase) hdiv, List.reverse_cons, List.map_append]
      rfl

/-- A digit as it is written: from ten on they are letters. -/
def radixDigit (digit : ℕ) : Char :=
  if digit < 10 then Char.ofNat ('0'.toNat + digit) else Char.ofNat ('a'.toNat + (digit - 10))

/-- A number in a base, its last digit at the end. -/
def radixText (radix n : ℕ) : List Char :=
  if n = 0 then ['0'] else (Nat.digits radix n).reverse.map radixDigit

lemma fromDigit_eq {digit radix : ℕ} (hlt : digit < radix) :
    fromDigit digit radix = some (radixDigit digit) := if_pos hlt

lemma radixDigit_eq_digitChar {digit : ℕ} (hlt : digit < 16) :
    radixDigit digit = Nat.digitChar digit := by
  have hall : ∀ digit : Fin 16, radixDigit digit = Nat.digitChar digit := by decide
  exact hall ⟨digit, hlt⟩

lemma radixText_eq_toDigits {radix : ℕ} (hlow : 1 < radix) (hhigh : radix ≤ 16) (n : ℕ) :
    radixText radix n = Nat.toDigits radix n := by
  rcases Nat.eq_zero_or_pos n with rfl | hpos
  · rw [Nat.toDigits_zero]
    rfl
  rw [radixText, if_neg hpos.ne', toDigits_eq_digits hlow hpos]
  refine List.map_congr_left fun digit hdigit => radixDigit_eq_digitChar ?_
  exact (Nat.digits_lt_base hlow (List.mem_reverse.1 hdigit)).trans_le hhigh

/-- A number of so many decimal digits, with zeros in front. -/
def fixedDigits : ℕ → ℕ → List Char
  | 0, _ => []
  | width + 1, n => fixedDigits width (n / 10) ++ [Nat.digitChar (n % 10)]

lemma fixedDigits_eq {width n : ℕ} (hlt : n < 10 ^ (width + 1)) :
    List.replicate (width + 1 - (Nat.toDigits 10 n).length) '0' ++ Nat.toDigits 10 n =
      fixedDigits (width + 1) n := by
  induction width generalizing n with
  | zero =>
    rw [zero_add, pow_one] at hlt
    rw [Nat.toDigits_of_lt_base hlt, fixedDigits, Nat.mod_eq_of_lt hlt]
    rfl
  | succ width ih =>
    have hdiv : n / 10 < 10 ^ (width + 1) := by
      rw [Nat.div_lt_iff_lt_mul (by decide), ← pow_succ]
      exact hlt
    rw [fixedDigits, ← ih hdiv, Nat.toDigits_eq_if (by decide)]
    split
    · next hsmall =>
      have hzero : List.replicate (width + 1) '0' = List.replicate width '0' ++ ['0'] :=
        List.replicate_succ'
      rw [Nat.div_eq_of_lt hsmall, Nat.toDigits_zero, Nat.mod_eq_of_lt hsmall,
        List.length_singleton, List.length_singleton, Nat.add_sub_cancel, Nat.add_sub_cancel, hzero]
    · rw [List.length_append, List.length_singleton, Nat.add_sub_add_right, List.append_assoc]

lemma toDigits_append_fixedDigits {n width : ℕ} (hle : 10 ^ width ≤ n) :
    Nat.toDigits 10 n = Nat.toDigits 10 (n / 10 ^ width) ++ fixedDigits width (n % 10 ^ width) := by
  induction width generalizing n with
  | zero => rw [pow_zero, Nat.div_one, fixedDigits, List.append_nil]
  | succ width ih =>
    have hpow : 0 < 10 ^ width := by positivity
    have hten : 10 ≤ n := by
      rw [pow_succ] at hle
      omega
    have hdiv : 10 ^ width ≤ n / 10 := by
      rw [Nat.le_div_iff_mul_le (by decide), ← pow_succ]
      exact hle
    rw [Nat.toDigits_of_base_le (by decide) hten, ih hdiv, fixedDigits, pow_succ,
      Nat.mul_comm (10 ^ width) 10, ← Nat.div_div_eq_div_mul, Nat.mod_mul_right_div_self,
      Nat.mod_mul_right_mod, List.append_assoc]

namespace BigInt

lemma chunkDigits_eq {chunk : UInt32} (h : chunk.toNat < 10 ^ 9) :
    chunkDigits chunk = fixedDigits 9 chunk.toNat := fixedDigits_eq h

/-! ## Division by a limb -/

lemma divModSmallLoop_spec {divisor : UInt32} (hpos : 0 < divisor.toNat) (limbs : List UInt32) :
    (divModSmallLoop divisor limbs).2 < divisor.toNat ∧
      magnitude (divModSmallLoop divisor limbs).1 * divisor.toNat +
        (divModSmallLoop divisor limbs).2 = magnitude limbs := by
  induction limbs with
  | nil => exact ⟨hpos, by simp [divModSmallLoop]⟩
  | cons limb limbs ih =>
    obtain ⟨hlt, hvalue⟩ := ih
    rw [divModSmallLoop]
    generalize divModSmallLoop divisor limbs = parts at hlt hvalue ⊢
    obtain ⟨quotient, rem⟩ := parts
    dsimp only at hlt hvalue ⊢
    have hdivisor := divisor.toNat_lt
    have hlimb := limb.toNat_lt
    have hword : rem <<< 32 % 2 ^ 64 ||| limb.toNat = rem * 2 ^ 32 + limb.toNat := by
      have hshift : rem <<< 32 = rem * 2 ^ 32 := Nat.shiftLeft_eq rem 32
      rw [Nat.mod_eq_of_lt (by omega), ← Nat.shiftLeft_add_eq_or_of_lt hlimb, hshift]
    rw [hword]
    set value := rem * 2 ^ 32 + limb.toNat with hvalueDef
    have hquotient : value / divisor.toNat < 2 ^ 32 := by
      rw [Nat.div_lt_iff_lt_mul hpos]
      have := Nat.mul_le_mul_right (2 ^ 32) (Nat.succ_le_of_lt hlt)
      rw [Nat.succ_mul] at this
      omega
    have hparts := Nat.div_add_mod value divisor.toNat
    refine ⟨Nat.mod_lt _ hpos, ?_⟩
    rw [magnitude_cons, magnitude_cons, asU32_toNat_of_lt hquotient, ← hvalue]
    linear_combination hparts + hvalueDef

lemma divModSmallPositive_spec (a : BigInt) {divisor : UInt32} (hpos : 0 < divisor.toNat) :
    (a.divModSmallPositive divisor).1.toInt = (a.toInt.natAbs / divisor.toNat : ℕ) ∧
      (a.divModSmallPositive divisor).2.toNat = a.toInt.natAbs % divisor.toNat := by
  obtain ⟨hlt, hvalue⟩ := divModSmallLoop_spec hpos a.limbs
  have hdivisor := divisor.toNat_lt
  rw [divModSmallPositive]
  split
  · next hzero =>
    rw [isZero_iff.1 hzero, Int.natAbs_zero, Nat.zero_div, Nat.zero_mod, zero_toInt]
    exact ⟨rfl, rfl⟩
  · rw [natAbs_toInt, ← hvalue]
    generalize divModSmallLoop divisor a.limbs = parts at hlt
    obtain ⟨quotient, rem⟩ := parts
    dsimp only at hlt ⊢
    rw [fromParts_toInt, if_neg (by decide), one_mul, asU32_toNat_of_lt (by omega),
      Nat.mul_comm, Nat.mul_add_div hpos, Nat.mul_add_mod, Nat.div_eq_of_lt hlt,
      Nat.mod_eq_of_lt hlt, Nat.add_zero]
    exact ⟨rfl, rfl⟩

lemma remainders_spec {divisor : UInt32} (hdivisor : 1 < divisor.toNat) {rounds : ℕ}
    (value : BigInt) (hlt : value.toInt.natAbs < 2 ^ rounds) :
    ∃ digits, remainders divisor (rounds + 1) value = some digits ∧
      digits.map UInt32.toNat = Nat.digits divisor.toNat value.toInt.natAbs := by
  induction rounds generalizing value with
  | zero =>
    have hzero : value.toInt = 0 := by omega
    exact ⟨[], by rw [remainders, isZero_iff.2 hzero]; rfl, by rw [hzero]; simp⟩
  | succ rounds ih =>
    rw [remainders]
    split
    · next hzero => exact ⟨[], rfl, by rw [isZero_iff.1 hzero]; simp⟩
    · next hne =>
      have hpos : 0 < value.toInt.natAbs := Int.natAbs_pos.2 fun hzero => hne (isZero_iff.2 hzero)
      obtain ⟨hquotient, hrem⟩ := value.divModSmallPositive_spec (by omega : 0 < divisor.toNat)
      generalize value.divModSmallPositive divisor = parts at hquotient hrem
      obtain ⟨quotient, rem⟩ := parts
      dsimp only at hquotient hrem ⊢
      have habs : quotient.toInt.natAbs = value.toInt.natAbs / divisor.toNat := by
        rw [hquotient, Int.natAbs_natCast]
      have hless : quotient.toInt.natAbs < 2 ^ rounds := by
        have hhalf : value.toInt.natAbs / divisor.toNat ≤ value.toInt.natAbs / 2 :=
          Nat.div_le_div_left hdivisor (by decide)
        rw [pow_succ] at hlt
        omega
      obtain ⟨digits, hdigits, hmap⟩ := ih quotient hless
      refine ⟨rem :: digits, by rw [hdigits]; rfl, ?_⟩
      rw [List.map_cons, hmap, hrem, habs, ← Nat.digits_def' hdivisor hpos]

/-! ## Text -/

def signText (value : ℤ) : List Char := if value < 0 then ['-'] else []

lemma sign_eq_neg_iff {a : BigInt} : a.sign = -1 ↔ a.toInt < 0 := by
  rw [← sign_toInt, sign_eq_neg_one_iff]

lemma absRemainders (a : BigInt) {divisor : UInt32} (hdivisor : 1 < divisor.toNat) :
    ∃ digits, remainders divisor (a.bitLength + 1) a.abs = some digits ∧
      digits.map UInt32.toNat = Nat.digits divisor.toNat a.toInt.natAbs := by
  have hlt : a.abs.toInt.natAbs < 2 ^ a.bitLength := by
    rw [abs_toInt, Int.natAbs_abs, natAbs_toInt]
    exact magnitude_lt_bitLength a
  have hspec := remainders_spec hdivisor a.abs hlt
  rwa [abs_toInt, Int.natAbs_abs] at hspec

/-- A big integer in a base is its sign and the digits of its magnitude. -/
lemma toStrRadix_text (a : BigInt) {radix : UInt32} (hlow : 2 ≤ radix) (hhigh : radix ≤ 36) :
    a.toStrRadix radix =
      some (some (String.ofList (signText a.toInt ++ radixText radix.toNat a.toInt.natAbs))) := by
  have hlow' : 1 < radix.toNat := UInt32.le_iff_toNat_le.1 hlow
  rw [toStrRadix, if_neg (not_not.2 ⟨hlow, hhigh⟩)]
  split
  · next hzero =>
    rw [isZero_iff.1 hzero]
    rfl
  · next hne =>
    have hpos : a.toInt.natAbs ≠ 0 := Int.natAbs_ne_zero.2 fun hzero => hne (isZero_iff.2 hzero)
    obtain ⟨digits, hdigits, hmap⟩ := a.absRemainders hlow'
    have hchars : digits.mapM (fun rem => fromDigit rem.toNat radix.toNat) =
        some (digits.map (radixDigit ∘ UInt32.toNat)) := by
      refine Results.mapM_eq_pure fun rem hrem => fromDigit_eq ?_
      refine Nat.digits_lt_base hlow' (m := a.toInt.natAbs) ?_
      rw [← hmap]
      exact List.mem_map_of_mem hrem
    rw [hdigits, radixText, if_neg hpos, signText, ← hmap, ← List.map_reverse, List.map_map]
    simp only [Option.bind_eq_bind, Option.bind_some, hchars, Option.pure_def, sign_eq_neg_iff]
    split <;> simp

lemma toStrRadix_spec (a : BigInt) {radix : UInt32} (hlow : 2 ≤ radix) (hhigh : radix ≤ 16) :
    a.toStrRadix radix =
      some (some (String.ofList
        (signText a.toInt ++ Nat.toDigits radix.toNat a.toInt.natAbs))) := by
  have hhigh' : radix.toNat ≤ 16 := UInt32.le_iff_toNat_le.1 hhigh
  rw [toStrRadix_text a hlow (UInt32.le_iff_toNat_le.2 (hhigh'.trans (by decide))),
    radixText_eq_toDigits (UInt32.le_iff_toNat_le.1 hlow) hhigh']

lemma join_chunks {n : ℕ} (hpos : 0 < n) (chunks : List UInt32)
    (h : chunks.map UInt32.toNat = Nat.digits (10 ^ 9) n) :
    joinChunks chunks.reverse = Nat.toDigits 10 n := by
  induction chunks generalizing n with
  | nil =>
    rw [Nat.digits_def' (by decide) hpos] at h
    cases h
  | cons chunk chunks ih =>
    rw [List.map_cons, Nat.digits_def' (by decide) hpos, List.cons.injEq] at h
    obtain ⟨hchunk, hrest⟩ := h
    have hchunkLt : chunk.toNat < 10 ^ 9 := by
      rw [hchunk]
      exact Nat.mod_lt _ (by decide)
    rcases Nat.eq_zero_or_pos (n / 10 ^ 9) with hzero | hdiv
    · rw [hzero, Nat.digits_zero, List.map_eq_nil_iff] at hrest
      have hlt : n < 10 ^ 9 := (Nat.div_eq_zero_iff_lt (by decide)).1 hzero
      rw [hrest, Nat.mod_eq_of_lt hlt] at *
      rw [List.reverse_singleton, joinChunks, hchunk, List.flatMap_nil, List.append_nil]
    · have hle : 10 ^ 9 ≤ n := by
        by_contra hlt
        rw [Nat.div_eq_of_lt (not_le.1 hlt)] at hdiv
        exact hdiv.false
      have ih := ih hdiv hrest
      rw [toDigits_append_fixedDigits hle, ← hchunk, ← chunkDigits_eq hchunkLt, ← ih,
        List.reverse_cons]
      cases hreverse : chunks.reverse with
      | nil =>
        rw [hreverse] at ih
        exact absurd ih.symm Nat.toDigits_ne_nil
      | cons last chunks =>
        rw [List.cons_append, joinChunks, joinChunks, List.flatMap_append, List.flatMap_singleton,
          List.append_assoc]

lemma display_spec (a : BigInt) :
    a.display = some (String.ofList (signText a.toInt ++ Nat.toDigits 10 a.toInt.natAbs)) := by
  rw [display]
  split
  · next hzero =>
    rw [isZero_iff.1 hzero, Int.natAbs_zero, Nat.toDigits_zero]
    rfl
  · next hne =>
    have hpos : 0 < a.toInt.natAbs := Int.natAbs_pos.2 fun hzero => hne (isZero_iff.2 hzero)
    obtain ⟨chunks, hchunks, hmap⟩ := a.absRemainders (by decide : 1 < (1000000000 : UInt32).toNat)
    rw [hchunks, Option.bind_eq_bind, Option.bind_some]
    simp only [join_chunks hpos chunks hmap, sign_eq_neg_iff, signText, Option.pure_def]
    split <;> simp

end BigInt

end Pyrs
