import Pyrs.Properties.BigIntText
import Pyrs.Properties.IntegerOperators
import Pyrs.Properties.PercentArguments

/-!
# Integers in percent formats

One conversion of an integer against its reference text: the sign, the prefix of the base, the
digits up to the precision, and the padding to the width behind the sign and the prefix or on a
side.  The format knows no precision of integers, and it pads with zeros in front of the prefix.
-/

namespace Pyrs.PercentFormat

/-! ## The template and its text -/

def widthText (width : ℕ) : List Char := if width = 0 then [] else Nat.toDigits 10 width

def precisionText : Option ℕ → List Char
  | some precision => '.' :: Nat.toDigits 10 precision
  | none => []

/-- The template of one conversion; a width of zero is none. -/
def percentTemplate (flags : List Char) (width : ℕ) (precision : Option ℕ) (conversion : Char) :
    List Char :=
  '%' :: (flags ++ (widthText width ++ (precisionText precision ++ [conversion])))

def integerConversions : List Char := ['d', 'i', 'u', 'x', 'X', 'o']

def integerSign (flags : List Char) (value : ℤ) : List Char :=
  if value < 0 then ['-'] else if '+' ∈ flags then ['+'] else if ' ' ∈ flags then [' '] else []

def basePrefix (flags : List Char) (conversion : Char) : List Char :=
  if '#' ∈ flags then
    match conversion with
    | 'x' => ['0', 'x']
    | 'X' => ['0', 'X']
    | 'o' => ['0', 'o']
    | _ => []
  else []

def integerDigits (conversion : Char) (value : ℤ) : List Char :=
  match conversion with
  | 'x' => Nat.toDigits 16 value.natAbs
  | 'X' => (Nat.toDigits 16 value.natAbs).map Char.toUpper
  | 'o' => Nat.toDigits 8 value.natAbs
  | _ => Nat.toDigits 10 value.natAbs

/-- The zeros that the precision asks for. -/
def precisionZeros (precision : Option ℕ) (digits : List Char) : ℕ :=
  precision.getD 0 - digits.length

/-- What there is of the text besides zeros and padding. -/
def plainText (flags : List Char) (conversion : Char) (value : ℤ) : List Char :=
  integerSign flags value ++ (basePrefix flags conversion ++ integerDigits conversion value)

/-- The reference text of a conversion. -/
def referenceText (flags : List Char) (width : ℕ) (precision : Option ℕ) (conversion : Char)
    (value : ℤ) : List Char :=
  let sign := integerSign flags value
  let base := basePrefix flags conversion
  let digits := integerDigits conversion value
  let body := List.replicate (precisionZeros precision digits) '0' ++ digits
  let padding := width - (sign ++ (base ++ body)).length
  if '-' ∈ flags then sign ++ (base ++ body) ++ List.replicate padding ' '
  else if '0' ∈ flags then sign ++ (base ++ (List.replicate padding '0' ++ body))
  else List.replicate padding ' ' ++ (sign ++ (base ++ body))

/-! ## The parts of a template -/

lemma takeFlags_append {given : List Char} (hgiven : ∀ c ∈ given, c ∈ flagChars)
    {rest : List Char} (hrest : ∀ c, rest.head? = some c → c ∉ flagChars) (flags : Flags) :
    takeFlags flags (given ++ rest) =
      (⟨flags.leftAlign || decide ('-' ∈ given), flags.zeroPad || decide ('0' ∈ given),
        flags.forceSign || decide ('+' ∈ given), flags.spaceSign || decide (' ' ∈ given),
        flags.alternate || decide ('#' ∈ given)⟩, rest) := by
  induction given generalizing flags with
  | nil =>
    cases rest with
    | nil => simp [takeFlags]
    | cons c rest => simp [takeFlags, hrest c rfl]
  | cons c given ih =>
    have hc := hgiven c List.mem_cons_self
    have ih := ih fun d hd => hgiven d (List.mem_cons_of_mem _ hd)
    rw [List.cons_append, takeFlags, if_pos hc, ih]
    simp only [flagChars, List.mem_cons, List.not_mem_nil, or_false] at hc
    rcases hc with rfl | rfl | rfl | rfl | rfl <;> simp [Flags.set]

lemma isDigit_toDigits {n : ℕ} : ∀ c ∈ Nat.toDigits 10 n, c.isDigit = true :=
  fun _ hc => Nat.isDigit_of_mem_toDigits (by decide) (by decide) hc

/-- No number begins with a zero, but for zero. -/
lemma head_toDigits {base n : ℕ} (hlow : 1 < base) (hhigh : base ≤ 16) (hpos : 0 < n) :
    (Nat.toDigits base n).head? ≠ some '0' := by
  have hdigit : ∀ digit : Fin 16, 0 < (digit : ℕ) → Nat.digitChar digit ≠ '0' := by decide
  induction n using Nat.strong_induction_on with
  | h n ih =>
    rw [Nat.toDigits_eq_if hlow]
    split
    · next hlt =>
      rw [List.head?_cons, Ne, Option.some_inj]
      exact hdigit ⟨n, hlt.trans_le hhigh⟩ hpos
    · next hge =>
      have hdiv : 0 < n / base := Nat.div_pos (not_lt.1 hge) (by omega)
      rw [List.head?_append_of_ne_nil _ Nat.toDigits_ne_nil]
      exact ih _ (Nat.div_lt_self hpos hlow) hdiv

lemma span_digits {digits rest : List Char} (hdigits : ∀ c ∈ digits, c.isDigit = true)
    (hrest : ∀ c, rest.head? = some c → c.isDigit = false) :
    (digits ++ rest).takeWhile Char.isDigit = digits ∧
      (digits ++ rest).dropWhile Char.isDigit = rest := by
  have hempty : rest.takeWhile Char.isDigit = [] ∧ rest.dropWhile Char.isDigit = rest := by
    cases rest with
    | nil => exact ⟨rfl, rfl⟩
    | cons c rest =>
      rw [List.takeWhile_cons, List.dropWhile_cons, hrest c rfl]
      exact ⟨rfl, rfl⟩
  rw [List.takeWhile_append_of_pos hdigits, List.dropWhile_append_of_pos hdigits, hempty.1,
    hempty.2, List.append_nil]
  exact ⟨rfl, rfl⟩

lemma parseUsize_toDigits (n : ℕ) (message : String) :
    parseUsize (Nat.toDigits 10 n) message =
      if n < 2 ^ 64 then .ok n else .error (.valueError message) := by
  rw [parseUsize, Nat.ofDigitChars_ten_toDigits, checkedU64]
  by_cases h : n < 2 ^ 64
  · rw [if_pos h, if_pos h]
  · rw [if_neg h, if_neg h]

lemma takeWidth_eq (width : ℕ) {rest : List Char}
    (hrest : ∀ c, rest.head? = some c → c.isDigit = false ∧ c ≠ '*') (args : List PercentValue) :
    takeWidth none (widthText width ++ rest) args =
      if width < 2 ^ 64 then .ok ⟨(if width = 0 then none else some width, false), rest, args⟩
      else .error (.valueError "invalid width in format string") := by
  have hstar : (widthText width ++ rest).head? ≠ some '*' := by
    rw [widthText]
    split
    · intro hhead
      exact (hrest '*' hhead).2 rfl
    · rw [List.head?_append_of_ne_nil _ Nat.toDigits_ne_nil]
      intro hhead
      have := isDigit_toDigits '*' (List.mem_of_mem_head? hhead)
      cases this
  have hdigits : ∀ c ∈ widthText width, c.isDigit = true := by
    rw [widthText]
    split
    · exact fun c hc => absurd hc List.not_mem_nil
    · exact isDigit_toDigits
  obtain ⟨htake, hdrop⟩ := span_digits hdigits fun c hc => (hrest c hc).1
  rw [takeWidth.eq_2 _ _ _ fun chars heq => hstar (by rw [heq]; rfl), htake, hdrop, widthText]
  by_cases hzero : width = 0
  · rw [if_pos hzero, if_pos rfl, if_pos hzero, hzero]
    rfl
  · rw [if_neg hzero, if_neg Nat.toDigits_ne_nil, if_neg hzero, parseUsize_toDigits]
    by_cases hlt : width < 2 ^ 64
    · rw [if_pos hlt, if_pos hlt]
      rfl
    · rw [if_neg hlt, if_neg hlt]
      rfl

lemma takePrecision_eq (precision : Option ℕ) {rest : List Char}
    (hrest : ∀ c, rest.head? = some c → c.isDigit = false ∧ c ≠ '.' ∧ c ≠ '*')
    (args : List PercentValue) :
    takePrecision none (precisionText precision ++ rest) args =
      if precision.getD 0 < 2 ^ 64 then .ok ⟨precision, rest, args⟩
      else .error (.valueError "invalid precision in format string") := by
  cases precision with
  | none =>
    have hdot : rest.head? ≠ some '.' := fun hhead => (hrest '.' hhead).2.1 rfl
    rw [precisionText, List.nil_append, takePrecision.eq_3]
    · rfl
    · rintro chars rfl
      exact hdot rfl
    · rintro chars rfl
      exact hdot rfl
  | some precision =>
    obtain ⟨htake, hdrop⟩ := span_digits (isDigit_toDigits (n := precision))
      fun c hc => (hrest c hc).1
    rw [precisionText, List.cons_append, takePrecision.eq_2, htake, hdrop,
      if_neg Nat.toDigits_ne_nil, parseUsize_toDigits, Option.getD_some]
    · by_cases hlt : precision < 2 ^ 64
      · rw [if_pos hlt, if_pos hlt]
        rfl
      · rw [if_neg hlt, if_neg hlt]
        rfl
    · intro chars heq
      have hhead : (Nat.toDigits 10 precision ++ rest).head? = some '*' := by rw [heq]; rfl
      rw [List.head?_append_of_ne_nil _ Nat.toDigits_ne_nil] at hhead
      have := isDigit_toDigits '*' (List.mem_of_mem_head? hhead)
      cases this

def givenFlags (flags : List Char) : Flags :=
  ⟨decide ('-' ∈ flags), decide ('0' ∈ flags), decide ('+' ∈ flags), decide (' ' ∈ flags),
    decide ('#' ∈ flags)⟩

lemma conversion_facts {conversion : Char} (h : conversion ∈ integerConversions) :
    conversion ∉ flagChars ∧ conversion.isDigit = false ∧ conversion ≠ '.' ∧ conversion ≠ '*' ∧
      conversion ≠ '%' ∧ conversion ≠ '(' ∧
      (conversion = 'h' || conversion = 'l' || conversion = 'L') = false ∧
      isNumericPercentConversion conversion = true := by
  rw [integerConversions] at h
  simp only [List.mem_cons, List.not_mem_nil, or_false] at h
  rcases h with rfl | rfl | rfl | rfl | rfl | rfl <;> decide

/-- What stands behind the flags is no flag. -/
lemma head_behind_flags (width : ℕ) (precision : Option ℕ) {conversion : Char}
    (hconversion : conversion ∈ integerConversions) :
    ∀ c, (widthText width ++ (precisionText precision ++ [conversion])).head? = some c →
      c ∉ flagChars ∧ c ≠ '%' ∧ c ≠ '(' := by
  intro c hc
  obtain ⟨hflag, -, -, -, hpercent, hparen, -, -⟩ := conversion_facts hconversion
  rw [widthText] at hc
  split at hc
  · cases precision with
    | none =>
      obtain rfl : conversion = c := Option.some.inj hc
      exact ⟨hflag, hpercent, hparen⟩
    | some precision =>
      obtain rfl : '.' = c := Option.some.inj hc
      decide
  · next hzero =>
    have hfirst := head_toDigits (by decide : 1 < 10) (by decide) (Nat.pos_of_ne_zero hzero)
    rw [List.head?_append_of_ne_nil _ Nat.toDigits_ne_nil] at hc
    have hdigit : c.isDigit = true := isDigit_toDigits c (List.mem_of_mem_head? hc)
    have hne : ∀ d : Char, d.isDigit = false → c ≠ d := by
      rintro d hd rfl
      rw [hd] at hdigit
      cases hdigit
    refine ⟨?_, hne _ (by decide), hne _ (by decide)⟩
    simp only [flagChars, List.mem_cons, List.not_mem_nil, or_false, not_or]
    refine ⟨hne _ (by decide), ?_, hne _ (by decide), hne _ (by decide), hne _ (by decide)⟩
    rintro rfl
    exact hfirst hc

lemma takeSpec_eq {flags : List Char} (hflags : ∀ c ∈ flags, c ∈ flagChars) (width : ℕ)
    (precision : Option ℕ) {conversion : Char} (hconversion : conversion ∈ integerConversions)
    (args : List PercentValue) :
    takeSpec none (flags ++ (widthText width ++ (precisionText precision ++ [conversion]))) args =
      if width < 2 ^ 64 then
        if precision.getD 0 < 2 ^ 64 then
          .ok ⟨⟨givenFlags flags, if width = 0 then none else some width, precision, conversion⟩,
            [], args⟩
        else .error (.valueError "invalid precision in format string")
      else .error (.valueError "invalid width in format string") := by
  obtain ⟨hflag, hdigit, hdot, hstar, -, -, hlength, -⟩ := conversion_facts hconversion
  have hbehind : ∀ c, (precisionText precision ++ [conversion]).head? = some c →
      c.isDigit = false ∧ c ≠ '*' := by
    intro c hc
    cases precision with
    | none =>
      obtain rfl : conversion = c := Option.some.inj hc
      exact ⟨hdigit, hstar⟩
    | some precision =>
      obtain rfl : '.' = c := Option.some.inj hc
      decide
  have hlast : ∀ c, [conversion].head? = some c → c.isDigit = false ∧ c ≠ '.' ∧ c ≠ '*' := by
    intro c hc
    obtain rfl : conversion = c := Option.some.inj hc
    exact ⟨hdigit, hdot, hstar⟩
  have htaken := takeFlags_append hflags
    (fun c hc => (head_behind_flags width precision hconversion c hc).1) {}
  simp only [Bool.false_or] at htaken
  rw [takeSpec, htaken]
  dsimp only
  rw [takeWidth_eq width hbehind]
  by_cases hwidth : width < 2 ^ 64
  · rw [if_pos hwidth, if_pos hwidth, Results.ok_bind]
    dsimp only
    rw [takePrecision_eq precision hlast]
    by_cases hprecision : precision.getD 0 < 2 ^ 64
    · rw [if_pos hprecision, if_pos hprecision, Results.ok_bind]
      dsimp only
      rw [List.dropWhile_cons, hlength, if_neg Bool.false_ne_true, Bool.or_false]
      rfl
    · rw [if_neg hprecision, if_neg hprecision]
      rfl
  · rw [if_neg hwidth, if_neg hwidth]
    rfl

/-! ## The text of an integer -/

lemma head_toDigits_ne_minus {n : ℕ} : (Nat.toDigits 10 n).head? ≠ some '-' := by
  intro hhead
  have := isDigit_toDigits '-' (List.mem_of_mem_head? hhead)
  cases this

lemma signChars_eq (flags : List Char) (value : ℤ) :
    signChars (decide (value < 0)) (decide ('+' ∈ flags)) (decide (' ' ∈ flags)) =
      integerSign flags value := by
  simp only [signChars, integerSign, decide_eq_true_eq]

lemma formatRadix_eq (value : IntValue) {radix : UInt32} (hlow : 2 ≤ radix) (hhigh : radix ≤ 16)
    (digits : List Char → List Char) (unsupported : String) (base flags : List Char) :
    formatRadix (.int value) radix digits unsupported base (decide ('+' ∈ flags))
        (decide (' ' ∈ flags)) (decide ('#' ∈ flags)) =
      .ok (String.ofList (integerSign flags value.toInt ++
        (if '#' ∈ flags then base else []) ++
          digits (Nat.toDigits radix.toNat value.toInt.natAbs))) := by
  have hinteger : intLikeToBigint (.int value) = .ok value.intLikeToBigint := rfl
  have hvalue := value.intLikeToBigint_toInt
  have hsign : value.intLikeToBigint.isNegative = decide (value.toInt < 0) := by
    rw [Bool.eq_iff_iff, BigInt.isNegative_iff, hvalue, decide_eq_true_eq]
  have htext := value.intLikeToBigint.abs.toStrRadix_spec hlow hhigh
  rw [BigInt.abs_toInt, Int.natAbs_abs, hvalue, BigInt.signText, if_neg (not_lt.2 (abs_nonneg _)),
    List.nil_append] at htext
  rw [formatRadix, hinteger, Results.ok_bind, htext, bigint, Results.ok_bind, hsign, signChars_eq]
  simp only [decide_eq_true_eq, String.toList_ofList]
  rfl

lemma formatPercentValue_eq (texts : PercentTexts) (value : IntValue) {conversion : Char}
    (hconversion : conversion ∈ integerConversions) (precision : Option ℕ) (flags : List Char) :
    formatPercentValue texts (.int value) conversion precision (givenFlags flags).forceSign
        (givenFlags flags).spaceSign (givenFlags flags).alternate =
      .ok (String.ofList (plainText flags conversion value.toInt)) := by
  have hdecimal : (do
      let integer ← intLikeToBigint (.int value)
      let text := (← bigint integer.display).toList
      return String.ofList (if text.head? = some '-' then text
        else signChars false (givenFlags flags).forceSign (givenFlags flags).spaceSign ++ text) :
        PercentResult String) =
      .ok (String.ofList (integerSign flags value.toInt ++
        Nat.toDigits 10 value.toInt.natAbs)) := by
    have hinteger : intLikeToBigint (.int value) = .ok value.intLikeToBigint := rfl
    rw [hinteger, Results.ok_bind, BigInt.display_spec, value.intLikeToBigint_toInt, bigint,
      Results.ok_bind, String.toList_ofList, BigInt.signText, integerSign, givenFlags]
    by_cases hneg : value.toInt < 0
    · rw [if_pos hneg, if_pos hneg]
      rfl
    · rw [if_neg hneg, if_neg hneg, List.nil_append]
      dsimp only
      rw [if_neg head_toDigits_ne_minus]
      simp only [signChars, Bool.false_eq_true, if_false, decide_eq_true_eq]
      rfl
  have hhex : (16 : UInt32).toNat = 16 := rfl
  have hoct : (8 : UInt32).toNat = 8 := rfl
  simp only [integerConversions, List.mem_cons, List.not_mem_nil, or_false] at hconversion
  rcases hconversion with rfl | rfl | rfl | rfl | rfl | rfl
  · exact hdecimal.trans (by simp [plainText, basePrefix, integerDigits])
  · exact hdecimal.trans (by simp [plainText, basePrefix, integerDigits])
  · exact hdecimal.trans (by simp [plainText, basePrefix, integerDigits])
  · refine (formatRadix_eq value (by decide) (by decide) _ _ _ _).trans ?_
    rw [plainText, basePrefix, integerDigits, List.append_assoc, hhex]
    rfl
  · refine (formatRadix_eq value (by decide) (by decide) _ _ _ _).trans ?_
    rw [plainText, basePrefix, integerDigits, List.append_assoc, hhex]
  · refine (formatRadix_eq value (by decide) (by decide) _ _ _ _).trans ?_
    rw [plainText, basePrefix, integerDigits, List.append_assoc, hoct]
    rfl

/-! ## Padding -/

lemma basePrefix_cases (flags : List Char) {conversion : Char}
    (hconversion : conversion ∈ integerConversions) :
    basePrefix flags conversion = [] ∨
      ∃ letter, letter ≠ '0' ∧ basePrefix flags conversion = ['0', letter] := by
  by_cases halternate : '#' ∈ flags
  · simp only [integerConversions, List.mem_cons, List.not_mem_nil, or_false] at hconversion
    rcases hconversion with rfl | rfl | rfl | rfl | rfl | rfl
    · exact .inl (if_pos halternate)
    · exact .inl (if_pos halternate)
    · exact .inl (if_pos halternate)
    · exact .inr ⟨'x', by decide, if_pos halternate⟩
    · exact .inr ⟨'X', by decide, if_pos halternate⟩
    · exact .inr ⟨'o', by decide, if_pos halternate⟩
  · exact .inl (if_neg halternate)

lemma integerSign_cases (flags : List Char) (value : ℤ) :
    integerSign flags value = [] ∨
      ∃ sign, integerSign flags value = [sign] ∧ (sign = '-' ∨ sign = '+' ∨ sign = ' ') := by
  rw [integerSign]
  split
  · exact .inr ⟨_, rfl, by decide⟩
  · split
    · exact .inr ⟨_, rfl, by decide⟩
    · split
      · exact .inr ⟨_, rfl, by decide⟩
      · exact .inl rfl

/-- The digits are no sign. -/
lemma head_integerDigits (conversion : Char) (value : ℤ) :
    ∃ digit digits, integerDigits conversion value = digit :: digits ∧
      ¬(digit = '-' ∨ digit = '+' ∨ digit = ' ') := by
  have hdigit : ∀ digit : Fin 16, ¬(Nat.digitChar digit = '-' ∨ Nat.digitChar digit = '+' ∨
      Nat.digitChar digit = ' ') := by decide
  have hupper : ∀ digit : Fin 16, ¬((Nat.digitChar digit).toUpper = '-' ∨
      (Nat.digitChar digit).toUpper = '+' ∨ (Nat.digitChar digit).toUpper = ' ') := by decide
  have hhead : ∀ {base : ℕ}, 1 < base → base ≤ 16 → ∀ n, ∃ digit : Fin 16, ∃ digits,
      Nat.toDigits base n = Nat.digitChar digit :: digits := by
    intro base hlow hhigh n
    induction n using Nat.strong_induction_on with
    | h n ih =>
      rw [Nat.toDigits_eq_if hlow]
      split
      · next hlt => exact ⟨⟨n, hlt.trans_le hhigh⟩, [], rfl⟩
      · next hge =>
        obtain ⟨digit, digits, heq⟩ := ih _ (Nat.div_lt_self (by omega) hlow)
        exact ⟨digit, _, by rw [heq, List.cons_append]⟩
  obtain ⟨decimal, decimals, hdecimal⟩ :=
    hhead (by decide : 1 < 10) (by decide) value.natAbs
  obtain ⟨hex, hexes, hhex⟩ := hhead (by decide : 1 < 16) (by decide) value.natAbs
  obtain ⟨octal, octals, hoctal⟩ := hhead (by decide : 1 < 8) (by decide) value.natAbs
  rw [integerDigits.eq_def]
  split
  · exact ⟨_, _, hhex, hdigit hex⟩
  · exact ⟨_, _, by rw [hhex, List.map_cons], hupper hex⟩
  · exact ⟨_, _, hoctal, hdigit octal⟩
  · exact ⟨_, _, hdecimal, hdigit decimal⟩

/-- The zeros of the format stand behind the sign alone. -/
lemma applyPercentWidth_eq (flags : List Char) (width : ℕ) {conversion : Char}
    (hconversion : conversion ∈ integerConversions) (value : ℤ) :
    let text := plainText flags conversion value
    applyPercentWidth text (if width = 0 then none else some width) (givenFlags flags).leftAlign
        ((givenFlags flags).zeroPad && !(givenFlags flags).leftAlign) conversion =
      if '-' ∈ flags then text ++ List.replicate (width - text.length) ' '
      else if '0' ∈ flags then
        integerSign flags value ++ (List.replicate (width - text.length) '0' ++
          (basePrefix flags conversion ++ integerDigits conversion value))
      else List.replicate (width - text.length) ' ' ++ text := by
  intro text
  have hnumeric : isNumericPercentConversion conversion = true :=
    (conversion_facts hconversion).2.2.2.2.2.2.2
  have hshort : width ≤ text.length →
      applyPercentWidth text (if width = 0 then none else some width)
        (givenFlags flags).leftAlign ((givenFlags flags).zeroPad && !(givenFlags flags).leftAlign)
        conversion = text := by
    intro hle
    split
    · rfl
    · rw [applyPercentWidth, if_pos hle]
  have htext : integerSign flags value ++
      (basePrefix flags conversion ++ integerDigits conversion value) = text := rfl
  by_cases hle : width ≤ text.length
  · rw [hshort hle, Nat.sub_eq_zero_of_le hle]
    simp only [List.replicate_zero, List.append_nil, List.nil_append, htext, ite_self]
  · have hwidth : width ≠ 0 := by omega
    obtain ⟨first, rest, hbody, hfirst⟩ : ∃ first rest,
        basePrefix flags conversion ++ integerDigits conversion value = first :: rest ∧
          ¬(first = '-' ∨ first = '+' ∨ first = ' ') := by
      obtain hbase | ⟨letter, -, hbase⟩ := basePrefix_cases flags hconversion
      · rw [hbase]
        exact head_integerDigits conversion value
      · exact ⟨_, _, by rw [hbase]; rfl, by decide⟩
    rw [if_neg hwidth, applyPercentWidth, if_neg hle, hnumeric]
    simp only [givenFlags, Bool.and_true, decide_eq_true_eq]
    by_cases hleft : '-' ∈ flags
    · rw [if_pos hleft, if_pos hleft]
    · rw [if_neg hleft, if_neg hleft]
      by_cases hzero : '0' ∈ flags
      · have hpad : (if (true && !false) = true then '0' else ' ') = '0' := rfl
        rw [decide_eq_true hzero, decide_eq_false hleft, if_pos hzero, hpad]
        obtain hsign | ⟨sign, hsign, hkind⟩ := integerSign_cases flags value
        · rw [hsign, List.nil_append, hbody] at htext
          rw [hsign, hbody, ← htext]
          dsimp only
          rw [if_neg fun h => hfirst h.2]
          rfl
        · rw [hsign] at htext
          rw [hsign, ← htext]
          dsimp only [List.cons_append, List.nil_append]
          rw [if_pos ⟨rfl, hkind⟩]
      · rw [decide_eq_false hzero, if_neg hzero, Bool.false_and, if_neg Bool.false_ne_true]
        clear_value text
        cases text with
        | nil => rw [List.append_nil]
        | cons sign rest =>
          dsimp only
          rw [if_neg fun h => absurd h.1 (by decide)]

/-- The format has the text where the precision asks for no zeros; zeros in front of it are in the
right place where there is no prefix, and make up for those of the precision. -/
lemma padded_eq_iff (flags : List Char) (width : ℕ) (precision : Option ℕ) {conversion : Char}
    (hconversion : conversion ∈ integerConversions) (value : ℤ) :
    applyPercentWidth (plainText flags conversion value) (if width = 0 then none else some width)
        (givenFlags flags).leftAlign
        ((givenFlags flags).zeroPad && !(givenFlags flags).leftAlign) conversion =
        referenceText flags width precision conversion value ↔
      if '0' ∈ flags ∧ '-' ∉ flags ∧ (plainText flags conversion value).length < width then
        basePrefix flags conversion = [] ∧ (plainText flags conversion value).length +
          precisionZeros precision (integerDigits conversion value) ≤ width
      else precisionZeros precision (integerDigits conversion value) = 0 := by
  rw [applyPercentWidth_eq flags width hconversion value, referenceText]
  have hbase := basePrefix_cases flags hconversion
  set sign := integerSign flags value with hsignDef
  set base := basePrefix flags conversion with hbaseDef
  set digits := integerDigits conversion value with hdigitsDef
  set zeros := precisionZeros precision digits with hzeros
  have htext : plainText flags conversion value = sign ++ (base ++ digits) := rfl
  have hlength : (sign ++ (base ++ (List.replicate zeros '0' ++ digits))).length =
      (plainText flags conversion value).length + zeros := by
    simp only [htext, List.length_append, List.length_replicate]
    omega
  rw [hlength, htext]
  set length := (sign ++ (base ++ digits)).length with hlengthDef
  have hcount : ∀ {left right : List Char}, left = right → left.count '0' = right.count '0' :=
    fun h => congrArg _ h
  by_cases hleft : '-' ∈ flags
  · rw [if_pos hleft, if_pos hleft, if_neg fun h => h.2.1 hleft]
    constructor
    · intro h
      have := hcount h
      simp [List.count_append, List.count_replicate] at this
      omega
    · intro h
      rw [h, List.replicate_zero, List.nil_append, Nat.add_zero]
  · rw [if_neg hleft, if_neg hleft]
    by_cases hzero : '0' ∈ flags
    · rw [if_pos hzero, if_pos hzero]
      by_cases hwidth : length < width
      · rw [if_pos ⟨hzero, hleft, hwidth⟩]
        constructor
        · intro h
          have hlengths := congrArg List.length h
          simp only [List.length_append, List.length_replicate] at hlengths hlengthDef
          refine ⟨?_, by omega⟩
          obtain hnone | ⟨letter, hletter, hsome⟩ := hbase
          · exact hnone
          · -- Behind the sign stand a zero and the letter, or two zeros.
            have hbehind := List.append_cancel_left h
            obtain ⟨count, hcountEq⟩ : ∃ count, width - length = count + 1 :=
              ⟨width - length - 1, by omega⟩
            rw [hcountEq, hsome] at hbehind
            have hsecond := congrArg List.head? (List.cons.inj hbehind).2
            cases count with
            | zero => exact absurd (Option.some.inj hsecond).symm hletter
            | succ count => exact absurd (Option.some.inj hsecond).symm hletter
        · rintro ⟨hnone, hle⟩
          rw [hnone, List.nil_append, List.nil_append, ← List.append_assoc (List.replicate _ _),
            ← List.replicate_add]
          congr 4
          omega
      · rw [if_neg fun h => hwidth h.2.2, Nat.sub_eq_zero_of_le (not_lt.1 hwidth),
          Nat.sub_eq_zero_of_le ((not_lt.1 hwidth).trans (Nat.le_add_right _ _)),
          List.replicate_zero, List.nil_append, List.nil_append]
        constructor
        · intro h
          have := hcount h
          simp [List.count_append] at this
          omega
        · intro h
          rw [h, List.replicate_zero, List.nil_append]
    · rw [if_neg hzero, if_neg hzero, if_neg fun h => hzero h.1]
      constructor
      · intro h
        have := hcount h
        simp [List.count_append, List.count_replicate] at this
        omega
      · intro h
        rw [h, List.replicate_zero, List.nil_append, Nat.add_zero]

/-! ## One conversion -/

lemma takeKey_eq {chars : List Char} (hhead : chars.head? ≠ some '(') :
    takeKey chars = .ok (none, chars) := by
  rw [takeKey.eq_2]
  rintro rest rfl
  exact hhead rfl

lemma stringPercentFormat_eq (texts : PercentTexts) (value : IntValue) {flags : List Char}
    (hflags : ∀ c ∈ flags, c ∈ flagChars) (width : ℕ) (precision : Option ℕ) {conversion : Char}
    (hconversion : conversion ∈ integerConversions) :
    stringPercentFormat texts (String.ofList (percentTemplate flags width precision conversion))
        (.int value) =
      if width < 2 ^ 64 then
        if precision.getD 0 < 2 ^ 64 then
          .ok (String.ofList (applyPercentWidth (plainText flags conversion value.toInt)
            (if width = 0 then none else some width) (givenFlags flags).leftAlign
            ((givenFlags flags).zeroPad && !(givenFlags flags).leftAlign) conversion))
        else .error (.valueError "invalid precision in format string")
      else .error (.valueError "invalid width in format string") := by
  have hspec := takeSpec_eq hflags width precision hconversion [.int value]
  have hformatted := formatPercentValue_eq texts value hconversion precision flags
  have hbehind := head_behind_flags width precision hconversion
  set chars := flags ++ (widthText width ++ (precisionText precision ++ [conversion])) with hchars
  have hhead : ∀ c, chars.head? = some c → c ≠ '%' ∧ c ≠ '(' := by
    intro c hc
    cases hcases : flags with
    | nil =>
      rw [hchars, hcases] at hc
      exact (hbehind c hc).2
    | cons flag flags' =>
      rw [hchars, hcases] at hc
      obtain rfl : flag = c := Option.some.inj hc
      have hall : flagChars.all (fun flag => flag != '%' && flag != '(') = true := by decide
      have hflag :=
        List.all_eq_true.1 hall flag (hflags flag (by rw [hcases]; exact List.mem_cons_self))
      simpa using hflag
  have hne : chars ≠ [] := by simp [hchars]
  have htemplate : percentTemplate flags width precision conversion = '%' :: chars := rfl
  rw [stringPercentFormat, percentFormat, String.toList_ofList, htemplate, List.length_cons,
    formatLoop_field texts false ⟨hne, fun h => (hhead '%' h).1 rfl⟩, formatConversion,
    takeKey_eq fun h => (hhead '(' h).2 rfl, Results.ok_bind]
  dsimp only [percentFormatPositionalArgs]
  rw [hspec]
  by_cases hwidth : width < 2 ^ 64
  · rw [if_pos hwidth, if_pos hwidth]
    by_cases hprecision : precision.getD 0 < 2 ^ 64
    · rw [if_pos hprecision, if_pos hprecision]
      have hdone : ∀ rounds, formatLoop texts false (mappingOf (.int value)) rounds [] [] false =
          .ok [] := fun rounds => by cases rounds <;> rfl
      simp only [Results.ok_bind, conversionValue, nextArg, hformatted, Option.isSome_none,
        Bool.or_false, hdone, pure, Except.pure, List.append_nil, String.toList_ofList]
    · rw [if_neg hprecision, if_neg hprecision]
      rfl
  · rw [if_neg hwidth, if_neg hwidth]
    rfl

/-- **An integer is formatted as in the reference where its precision asks for no zeros, or where
zeros that pad it make up for them.**  Zeros pad it in the right place where it has no prefix. -/
theorem stringPercentFormat_integer_iff (texts : PercentTexts) (value : IntValue)
    {flags : List Char} (hflags : ∀ c ∈ flags, c ∈ flagChars) (width : ℕ) (precision : Option ℕ)
    {conversion : Char} (hconversion : conversion ∈ integerConversions) :
    stringPercentFormat texts (String.ofList (percentTemplate flags width precision conversion))
        (.int value) =
        .ok (String.ofList (referenceText flags width precision conversion value.toInt)) ↔
      (width < 2 ^ 64 ∧ precision.getD 0 < 2 ^ 64) ∧
        if '0' ∈ flags ∧ '-' ∉ flags ∧ (plainText flags conversion value.toInt).length < width then
          basePrefix flags conversion = [] ∧ (plainText flags conversion value.toInt).length +
            precisionZeros precision (integerDigits conversion value.toInt) ≤ width
        else precisionZeros precision (integerDigits conversion value.toInt) = 0 := by
  rw [stringPercentFormat_eq texts value hflags width precision hconversion,
    ← padded_eq_iff flags width precision hconversion value.toInt]
  by_cases hwidth : width < 2 ^ 64
  · by_cases hprecision : precision.getD 0 < 2 ^ 64
    · rw [if_pos hwidth, if_pos hprecision, Except.ok.injEq, String.ofList_inj]
      exact ⟨fun h => ⟨⟨hwidth, hprecision⟩, h⟩, fun h => h.2⟩
    · rw [if_pos hwidth, if_neg hprecision]
      exact ⟨fun h => (nomatch h), fun h => absurd h.1.2 hprecision⟩
  · rw [if_neg hwidth]
    exact ⟨fun h => (nomatch h), fun h => absurd h.1.1 hwidth⟩

theorem stringPercentFormat_integer_iff_hex :
    stringPercentFormat ⟨fun _ => "", fun _ => "", fun _ _ => .ok ""⟩ "%#8x" (.int (.int 255)) =
      .ok "    0xff" :=
  (stringPercentFormat_integer_iff ⟨fun _ => "", fun _ => "", fun _ _ => .ok ""⟩ (.int 255)
    (List.forall_mem_singleton.2 (show '#' ∈ flagChars by decide)) 8 none
    (show 'x' ∈ integerConversions by decide)).2 ⟨by decide, by decide +kernel⟩

/-- The zeros stand in front of the prefix. -/
theorem stringPercentFormat_padsPrefix :
    stringPercentFormat ⟨fun _ => "", fun _ => "", fun _ _ => .ok ""⟩ "%#08x" (.int (.int 255)) =
        .ok "00000xff" ∧
      referenceText ['#', '0'] 8 none 'x' 255 = "0x0000ff".toList := by
  constructor <;> decide +kernel

end Pyrs.PercentFormat
