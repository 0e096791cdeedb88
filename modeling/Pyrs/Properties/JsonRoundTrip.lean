import Mathlib.Data.List.Chain
import Pyrs.Model.JsonDumps
import Pyrs.Model.Marshal
import Pyrs.Properties.JsonParsing

/-!
# JSON round trip

The text that the serializer makes of a value is a text of the grammar, and it denotes the value;
so the parser returns the value.
-/

namespace Pyrs

open JsonGrammar JsonParser

namespace JsonRoundTrip

/-! ## Bytes of texts -/

lemma stringBytes_eq (text : String) : stringBytes text = Utf8.encode text.toList := by
  have hbytes : text.toByteArray = (Utf8.encode text.toList).toByteArray := by
    rw [Utf8.toByteArray_encode, String.utf8Encode_toList]
  rw [stringBytes, String.toUTF8_eq_toByteArray, hbytes, List.data_toByteArray, List.toList_toArray]

lemma stringBytes_append (first second : String) :
    stringBytes (first ++ second) = stringBytes first ++ stringBytes second := by
  simp only [stringBytes_eq, String.toList_append, Utf8.encode, List.flatMap_append]

lemma stringBytes_singleton (ch : Char) :
    stringBytes (String.singleton ch) = String.utf8EncodeChar ch := by
  rw [stringBytes_eq, String.toList_singleton, Utf8.encode, List.flatMap_singleton]

lemma stringBytes_join (texts : List String) :
    stringBytes (String.join texts) = texts.flatMap stringBytes := by
  induction texts with
  | nil => rfl
  | cons text texts ih => rw [String.join_cons, stringBytes_append, ih, List.flatMap_cons]

/-- A text of ASCII characters. -/
lemma stringBytes_ascii {chars : List Char} (h : ∀ ch ∈ chars, ch.toNat < 0x80) :
    stringBytes (String.ofList chars) = chars.map ascii := by
  rw [stringBytes_eq, String.toList_ofList]
  induction chars with
  | nil => rfl
  | cons ch chars ih =>
    rw [Utf8.encode, List.flatMap_cons, Utf8.utf8EncodeChar_ascii (h ch List.mem_cons_self),
      List.map_cons, ← ih fun ch hmem => h ch (List.mem_cons_of_mem _ hmem)]
    rfl

/-! ## Escapes -/

lemma hexDigit_digitChar {digit : ℕ} (h : digit < 16) :
    hexDigit (ascii (Nat.digitChar digit)) = some digit := by
  have hall : ∀ digit : Fin 16, hexDigit (ascii (Nat.digitChar digit)) = some digit.val := by decide
  exact hall ⟨digit, h⟩

lemma digitChar_toNat_lt {digit : ℕ} (h : digit < 16) : (Nat.digitChar digit).toNat < 0x80 := by
  have hall : ∀ digit : Fin 16, (Nat.digitChar digit).toNat < 0x80 := by decide
  exact hall ⟨digit, h⟩

/-- The bytes of four hexadecimal digits. -/
def hexBytes (unit : ℕ) : List UInt8 :=
  [ascii (Nat.digitChar (unit / 4096 % 16)), ascii (Nat.digitChar (unit / 256 % 16)),
    ascii (Nat.digitChar (unit / 16 % 16)), ascii (Nat.digitChar (unit % 16))]

lemma stringBytes_hexUnit (unit : ℕ) : stringBytes (hexUnit unit) = hexBytes unit := by
  rw [hexUnit, stringBytes_ascii]
  · rfl
  · intro ch hch
    simp only [List.mem_cons, List.not_mem_nil, or_false] at hch
    rcases hch with rfl | rfl | rfl | rfl <;> exact digitChar_toNat_lt (Nat.mod_lt _ (by decide))

lemma stringBytes_escapeUnit (unit : ℕ) :
    stringBytes (escapeUnit unit) = unicodeEscape (hexBytes unit) := by
  rw [escapeUnit, stringBytes_append, stringBytes_hexUnit]
  rfl

lemma hex_hexBytes {unit : ℕ} (h : unit < 0x10000) (rest : List UInt8) :
    Hex (hexBytes unit ++ rest) unit rest := by
  have hdigits : ∀ n, hexDigit (ascii (Nat.digitChar (n % 16))) = some (n % 16) :=
    fun n => hexDigit_digitChar (Nat.mod_lt _ (by decide))
  have hvalue : (((0 * 16 + unit / 4096 % 16) * 16 + unit / 256 % 16) * 16 + unit / 16 % 16) * 16 +
      unit % 16 = unit := by omega
  have hnil : HexDigits 0 unit rest unit rest := .nil
  rw [Hex]
  refine .cons (hdigits _) (.cons (hdigits _) (.cons (hdigits _) (.cons (hdigits _) ?_)))
  rw [hvalue]
  exact hnil

/-- How the serializer writes a character. -/
inductive Written (ch : Char) : List UInt8 → Prop
  | letter (letter : UInt8) (h : simpleEscape letter = some ch) : Written ch [ascii '\\', letter]
  | raw (hcontrol : 0x20 ≤ ch.toNat) (hquote : ch ≠ '"') (hbackslash : ch ≠ '\\') :
      Written ch (String.utf8EncodeChar ch)
  | surrogate {unit : ℕ} (h : surrogateCodeUnitFromInternalChar ch = some unit) :
      Written ch (unicodeEscape (hexBytes unit))
  | unit (h : ch.toNat < 0x10000) : Written ch (unicodeEscape (hexBytes ch.toNat))
  | pair (h : 0x10000 ≤ ch.toNat) : Written ch
      (unicodeEscape (hexBytes (0xD800 + (ch.toNat - 0x10000) / 0x400)) ++
        unicodeEscape (hexBytes (0xDC00 + (ch.toNat - 0x10000) % 0x400)))

lemma written_jsonEscapeChar (ensureAscii : Bool) (ch : Char) :
    Written ch (stringBytes (jsonEscapeChar ensureAscii ch)) := by
  rw [jsonEscapeChar]
  split
  · next unit hunit =>
    split
    · rw [stringBytes_escapeUnit]
      exact .surrogate hunit
    · rw [stringBytes_singleton]
      have hlarge : internalSurrogateBase ≤ ch.toNat := by
        rw [surrogateCodeUnitFromInternalChar] at hunit
        split at hunit
        · next hrange => exact hrange.1
        · cases hunit
      rw [internalSurrogateBase] at hlarge
      refine .raw (by omega) ?_ ?_
      · rintro rfl
        exact absurd hlarge (by decide)
      · rintro rfl
        exact absurd hlarge (by decide)
  · split
    · next h => subst h; exact .letter (ascii '"') rfl
    · next hquote =>
      split
      · next h => subst h; exact .letter (ascii '\\') rfl
      · next hbackslash =>
        split
        · next h => subst h; exact .letter (ascii 'b') rfl
        split
        · next h => subst h; exact .letter (ascii 'f') rfl
        split
        · next h => subst h; exact .letter (ascii 'n') rfl
        split
        · next h => subst h; exact .letter (ascii 'r') rfl
        split
        · next h => subst h; exact .letter (ascii 't') rfl
        split
        · next hcontrol =>
          rw [stringBytes_escapeUnit]
          exact .unit (by omega)
        · next hcontrol =>
          split
          · rw [stringBytes_join, encodeUtf16]
            split
            · next hsmall =>
              rw [List.map_singleton, List.flatMap_singleton, stringBytes_escapeUnit]
              exact .unit hsmall
            · next hlarge =>
              rw [List.map_cons, List.map_singleton, List.flatMap_cons, List.flatMap_singleton,
                stringBytes_escapeUnit, stringBytes_escapeUnit]
              exact .pair (not_lt.1 hlarge)
          · rw [stringBytes_singleton]
            exact .raw (by omega) hquote hbackslash

/-! ## Surrogates -/

def IsInternalHigh (ch : Char) : Prop :=
  ∃ unit, surrogateCodeUnitFromInternalChar ch = some unit ∧ isHighSurrogate unit = true

def IsInternalLow (ch : Char) : Prop :=
  ∃ unit, surrogateCodeUnitFromInternalChar ch = some unit ∧ isLowSurrogate unit = true

/-- No internal high surrogate stands in front of an internal low one. -/
def NoSurrogatePair (text : String) : Prop :=
  text.toList.IsChain fun first second => ¬(IsInternalHigh first ∧ IsInternalLow second)

lemma surrogateCodeUnit_eq_some {ch : Char} {unit : ℕ}
    (h : surrogateCodeUnitFromInternalChar ch = some unit) :
    0xD800 ≤ unit ∧ unit ≤ 0xDFFF ∧ internalSurrogateBase + (unit - 0xD800) = ch.toNat := by
  rw [surrogateCodeUnitFromInternalChar] at h
  split at h
  · next hrange =>
    obtain rfl := Option.some.inj h
    obtain ⟨hlow, hhigh⟩ := hrange
    omega
  · cases h

lemma char_not_surrogate (ch : Char) :
    isHighSurrogate ch.toNat = false ∧ isLowSurrogate ch.toNat = false := by
  have hvalid : ch.toNat < 0xD800 ∨ 0xDFFF < ch.toNat ∧ ch.toNat < 0x110000 := ch.valid
  constructor
  · rw [isHighSurrogate, decide_eq_false_iff_not]
    omega
  · rw [isLowSurrogate, decide_eq_false_iff_not]
    omega

lemma char_toNat_lt (ch : Char) : ch.toNat < 0x110000 := by
  have hvalid : ch.toNat < 0xD800 ∨ 0xDFFF < ch.toNat ∧ ch.toNat < 0x110000 := ch.valid
  omega

/-- What is written for a character is a text of it, unless the character is a high surrogate and
the escape of a low one follows. -/
lemma charText_of_written {ch : Char} {bytes next : List UInt8} (h : Written ch bytes)
    (hnext : IsInternalHigh ch → ∀ text low rest, next = unicodeEscape text → Hex text low rest →
      isLowSurrogate low = false) : CharText (bytes ++ next) ch next := by
  cases h with
  | letter letter hletter => exact .escape hletter
  | raw hcontrol hquote hbackslash => exact .unescaped hcontrol hquote hbackslash
  | @surrogate unit hunit =>
    obtain ⟨hlow, hhigh, hch⟩ := surrogateCodeUnit_eq_some hunit
    have hcode : isHighSurrogate unit = true ∨ isLowSurrogate unit = true := by
      rw [isHighSurrogate_iff, isLowSurrogate_iff]
      omega
    have hlone := CharText.lone (hex_hexBytes (by omega) next) hcode
      fun hishigh => hnext ⟨unit, hunit, hishigh⟩
    rwa [hch, Char.ofNat_toNat] at hlone
  | unit hsmall =>
    obtain ⟨hhigh, hlow⟩ := char_not_surrogate ch
    have hunicode := CharText.unicode (hex_hexBytes hsmall next) hhigh hlow
    rwa [Char.ofNat_toNat] at hunicode
  | pair hlarge =>
    have hlt := char_toNat_lt ch
    have hisHigh : isHighSurrogate (0xD800 + (ch.toNat - 0x10000) / 0x400) = true := by
      rw [isHighSurrogate_iff]
      omega
    have hisLow : isLowSurrogate (0xDC00 + (ch.toNat - 0x10000) % 0x400) = true := by
      rw [isLowSurrogate_iff]
      omega
    have hpair := CharText.pair
      (hex_hexBytes (by omega)
        (unicodeEscape (hexBytes (0xDC00 + (ch.toNat - 0x10000) % 0x400) ++ next)))
      hisHigh (hex_hexBytes (by omega) next) hisLow
    have hvalue : 0x10000 + (0xD800 + (ch.toNat - 0x10000) / 0x400 - 0xD800) * 0x400 +
        (0xDC00 + (ch.toNat - 0x10000) % 0x400 - 0xDC00) = ch.toNat := by omega
    rw [hvalue, Char.ofNat_toNat] at hpair
    rw [List.append_assoc]
    exact hpair

/-- Only an internal low surrogate is written as the escape of a low surrogate. -/
lemma low_of_written {ch : Char} {bytes tail text rest : List UInt8} {low : ℕ}
    (h : Written ch bytes) (htext : bytes ++ tail = unicodeEscape text) (hlow : Hex text low rest)
    (hisLow : isLowSurrogate low = true) : IsInternalLow ch := by
  have hcode : ∀ {unit : ℕ} {tail : List UInt8}, unit < 0x10000 →
      unicodeEscape (hexBytes unit) ++ tail = unicodeEscape text → low = unit := by
    intro unit tail hlt heq
    have hhex := hex_hexBytes hlt tail
    have htail : hexBytes unit ++ tail = text := (List.cons.inj (List.cons.inj heq).2).2
    rw [htail] at hhex
    exact (HexDigits.unique hlow hhex).1
  cases h with
  | letter letter hletter =>
    rw [(List.cons.inj (List.cons.inj htext).2).1] at hletter
    cases hletter
  | raw _ _ hbackslash =>
    obtain ⟨hbyte, hsmall⟩ := utf8EncodeChar_head htext (by decide)
    exact absurd (char_eq_of_ascii (by decide) hsmall hbyte) hbackslash
  | surrogate hunit =>
    obtain ⟨-, hhigh, -⟩ := surrogateCodeUnit_eq_some hunit
    rw [hcode (by omega) htext] at hisLow
    exact ⟨_, hunit, hisLow⟩
  | unit hsmall =>
    rw [hcode hsmall htext, (char_not_surrogate ch).2] at hisLow
    cases hisLow
  | pair hlarge =>
    have hlt := char_toNat_lt ch
    rw [List.append_assoc] at htext
    rw [hcode (by omega) htext, isLowSurrogate_iff] at hisLow
    omega

lemma stringText_escape (ensureAscii : Bool) {chars : List Char}
    (h : chars.IsChain fun first second => ¬(IsInternalHigh first ∧ IsInternalLow second))
    (rest : List UInt8) :
    StringText (chars.flatMap (fun ch => stringBytes (jsonEscapeChar ensureAscii ch)) ++
      ascii '"' :: rest) chars rest := by
  induction chars with
  | nil => exact .quote
  | cons ch chars ih =>
    rw [List.flatMap_cons, List.append_assoc]
    refine .char (charText_of_written (written_jsonEscapeChar ensureAscii ch) ?_) (ih h.tail)
    intro hhigh text low rest' htext hlow
    by_contra hisLow
    rw [Bool.not_eq_false] at hisLow
    cases chars with
    | nil => exact absurd (List.cons.inj htext).1 (by decide)
    | cons second chars =>
      rw [List.flatMap_cons, List.append_assoc] at htext
      have hsecond := low_of_written (written_jsonEscapeChar ensureAscii second) htext hlow hisLow
      exact (List.isChain_cons_cons.1 h).1 ⟨hhigh, hsecond⟩

lemma stringText_jsonEscapeString (ensureAscii : Bool) {text : String} (h : NoSurrogatePair text) :
    ∃ body, stringBytes (jsonEscapeString text ensureAscii) = ascii '"' :: body ∧
      ∀ rest, StringText (body ++ rest) text.toList rest := by
  refine ⟨text.toList.flatMap (fun ch => stringBytes (jsonEscapeChar ensureAscii ch)) ++
    [ascii '"'], ?_, ?_⟩
  · rw [jsonEscapeString, stringBytes_append, stringBytes_append, stringBytes_join,
      List.flatMap_map]
    rfl
  · intro rest
    rw [List.append_assoc]
    exact stringText_escape ensureAscii h rest

/-! ## Integers -/

lemma isDigit_digitChar {digit : ℕ} (h : digit < 10) :
    isDigit (ascii (Nat.digitChar digit)) = true ∧
      (ascii (Nat.digitChar digit)).toNat - 48 = digit ∧
        (ascii (Nat.digitChar digit) = ascii '0' → digit = 0) := by
  have hall : ∀ digit : Fin 10, isDigit (ascii (Nat.digitChar digit)) = true ∧
      (ascii (Nat.digitChar digit)).toNat - 48 = digit.val ∧
        (ascii (Nat.digitChar digit) = ascii '0' → digit.val = 0) := by decide
  exact hall ⟨digit, h⟩

/-- The decimal digits of a natural number are an integer of the grammar. -/
lemma intText_toDigits (n : ℕ) :
    IntText ((Nat.toDigits 10 n).map ascii) ∧ digitsValue ((Nat.toDigits 10 n).map ascii) = n := by
  induction n using Nat.strong_induction_on with
  | _ n ih =>
    rcases lt_or_ge n 10 with hsmall | hlarge
    · obtain ⟨hdigit, hvalue, hzero⟩ := isDigit_digitChar hsmall
      rw [Nat.toDigits_of_lt_base hsmall, List.map_singleton]
      refine ⟨⟨⟨List.cons_ne_nil _ _, ?_⟩, ?_⟩, ?_⟩
      · intro byte hbyte
        rw [List.mem_singleton.1 hbyte]
        exact hdigit
      · by_cases hn : n = 0
        · subst hn
          exact .inl rfl
        · exact .inr fun hhead => hn (hzero (Option.some.inj hhead))
      · rw [digitsValue, List.foldl_cons, List.foldl_nil, hvalue, Nat.zero_mul, Nat.zero_add]
    · obtain ⟨⟨⟨hne, hdigits⟩, hhead⟩, hvalue⟩ := ih (n / 10) (by omega)
      obtain ⟨hdigit, hlast, -⟩ := isDigit_digitChar (Nat.mod_lt n (by decide : 10 > 0))
      rw [Nat.toDigits_of_base_le (by decide) hlarge, List.map_append, List.map_singleton]
      refine ⟨⟨⟨List.append_ne_nil_of_left_ne_nil hne _, ?_⟩, .inr ?_⟩, ?_⟩
      · intro byte hbyte
        rcases List.mem_append.1 hbyte with hbyte | hbyte
        · exact hdigits byte hbyte
        · rw [List.mem_singleton.1 hbyte]
          exact hdigit
      · rw [List.head?_append_of_ne_nil _ hne]
        rcases hhead with hzero | hhead
        · -- the digits in front are those of a positive number
          rw [hzero] at hvalue
          have hvalue : 0 = n / 10 := hvalue
          omega
        · exact hhead
      · rw [digitsValue, List.foldl_append, List.foldl_cons, List.foldl_nil, hlast]
        rw [digitsValue] at hvalue
        rw [hvalue]
        omega

lemma toDigits_ascii (n : ℕ) : ∀ ch ∈ Nat.toDigits 10 n, ch.toNat < 0x80 := by
  induction n using Nat.strong_induction_on with
  | _ n ih =>
    rcases lt_or_ge n 10 with hsmall | hlarge
    · rw [Nat.toDigits_of_lt_base hsmall]
      intro ch hch
      rw [List.mem_singleton.1 hch]
      exact digitChar_toNat_lt (by omega)
    · rw [Nat.toDigits_of_base_le (by decide) hlarge]
      intro ch hch
      rcases List.mem_append.1 hch with hch | hch
      · exact ih (n / 10) (by omega) ch hch
      · rw [List.mem_singleton.1 hch]
        exact digitChar_toNat_lt (by omega)

lemma decimalText_bytes (value : ℤ) :
    ∃ minus, (minus = [] ∨ minus = [ascii '-']) ∧
      stringBytes (decimalText value) = minus ++ (Nat.toDigits 10 value.natAbs).map ascii ∧
        integerValue minus ((Nat.toDigits 10 value.natAbs).map ascii) = value := by
  have hbytes := stringBytes_ascii (toDigits_ascii value.natAbs)
  rcases lt_or_ge value 0 with hneg | hpos
  · refine ⟨[ascii '-'], .inr rfl, ?_, ?_⟩
    · rw [decimalText, if_pos hneg, stringBytes_append, hbytes]
      rfl
    · rw [integerValue, if_neg (List.cons_ne_nil _ _), (intText_toDigits _).2]
      omega
  · refine ⟨[], .inl rfl, ?_, ?_⟩
    · rw [decimalText, if_neg (not_lt.2 hpos), hbytes]
      rfl
    · rw [integerValue, if_pos rfl, (intText_toDigits _).2]
      omega

/-- An integer of `i64`, or one with so many digits. -/
def WithinDigits (value : ℤ) : Prop :=
  (parseI64 value).isSome ∨ ((Nat.toDigits 10 value.natAbs).length : ℤ) ≤ defaultIntMaxStrDigits

section

variable {floatValue : List UInt8 → Binary64}

lemma valueText_decimalText {value : ℤ} (h : WithinDigits value) (rest : List UInt8) :
    ValueText floatValue defaultIntMaxStrDigits (stringBytes (decimalText value) ++ rest)
      (integerNode value) rest := by
  obtain ⟨minus, hminus, hbytes, hvalue⟩ := decimalText_bytes value
  have hlimit : WithinLimit defaultIntMaxStrDigits minus
      ((Nat.toDigits 10 value.natAbs).map ascii) := by
    rw [WithinLimit, hvalue]
    rcases h with hsome | hdigits
    · exact .inl hsome
    · refine .inr ?_
      rw [jsonValidateIntDigitsLimit, Bool.not_eq_true', decide_eq_false_iff_not, List.length_map]
      omega
  have hnumber : NumberText floatValue defaultIntMaxStrDigits _ _ :=
    .integer hminus (intText_toDigits value.natAbs).1 hlimit
  rw [hvalue, ← hbytes] at hnumber
  exact .number hnumber

end

/-! ## Arrays and objects -/

/-- A text whose bytes are those of a node, whatever follows. -/
def Writes (floatValue : List UInt8 → Binary64) (text : String) (node : JsonNode) : Prop :=
  ∀ rest, ValueText floatValue defaultIntMaxStrDigits (stringBytes text ++ rest) node rest

def WritesMember (floatValue : List UInt8 → Binary64) (text : String) (member : String × JsonNode) :
    Prop :=
  ∀ rest, MemberText floatValue defaultIntMaxStrDigits (stringBytes text ++ rest) member rest

lemma ws_append {spaces : List UInt8} (h : ∀ byte ∈ spaces, isWs byte = true) (rest : List UInt8) :
    Ws (spaces ++ rest) rest := ⟨spaces, h, rfl⟩

/-- The white space in front of a part in a line of its own. -/
def lineBytes (indent : Option String) (depth : ℕ) : List UInt8 :=
  match indent with
  | some unit => ascii '\n' :: stringBytes (repeatText unit depth)
  | none => []

lemma lineBytes_ws {indent : Option String} (h : ∀ unit ∈ indent, ∀ ch ∈ unit.toList, ch = ' ')
    (depth : ℕ) : ∀ byte ∈ lineBytes indent depth, isWs byte = true := by
  intro byte hbyte
  cases indent with
  | none => cases hbyte
  | some unit =>
    rw [lineBytes, List.mem_cons] at hbyte
    rcases hbyte with rfl | hbyte
    · decide
    · rw [repeatText, stringBytes_join] at hbyte
      obtain ⟨text, htext, hbyte⟩ := List.mem_flatMap.1 hbyte
      rw [List.eq_of_mem_replicate htext, stringBytes_eq] at hbyte
      obtain ⟨ch, hch, hbyte⟩ := List.mem_flatMap.1 hbyte
      rw [h unit rfl ch hch, Utf8.utf8EncodeChar_ascii (by decide), List.mem_singleton] at hbyte
      rw [hbyte]
      decide

/-- The bytes of parts, each behind a separator. -/
lemma stringBytes_joinJsonParts (options : JsonDumpsOptions) (opening closing : String) (depth : ℕ)
    (part : String) (parts : List String) :
    stringBytes (joinJsonParts options opening closing depth (part :: parts)) =
      stringBytes opening ++ (lineBytes options.indent (depth + 1) ++ (stringBytes part ++
        (parts.flatMap (fun part => stringBytes options.itemSeparator ++
            (lineBytes options.indent (depth + 1) ++ stringBytes part)) ++
          (lineBytes options.indent depth ++ stringBytes closing)))) := by
  rw [joinJsonParts]
  cases options.indent with
  | some unit =>
    have hline : stringBytes "\n" = [ascii '\n'] := rfl
    simp only [stringBytes_append, stringBytes_join, List.flatMap_map, hline, lineBytes,
      List.append_assoc, List.cons_append, List.nil_append]
  | none =>
    simp only [stringBytes_append, stringBytes_join, List.flatMap_map, lineBytes,
      List.append_assoc, List.nil_append]

section

variable {floatValue : List UInt8 → Binary64} {between after : List UInt8}

lemma elementsText_parts (hbetween : ∀ byte ∈ between, isWs byte = true)
    (hafter : ∀ byte ∈ after, isWs byte = true) {before : List UInt8}
    (hbefore : ∀ byte ∈ before, isWs byte = true) {part : String} {parts : List String}
    {node : JsonNode} {nodes : List JsonNode} (hpart : Writes floatValue part node)
    (hparts : List.Forall₂ (Writes floatValue) parts nodes) (rest : List UInt8) :
    ElementsText floatValue defaultIntMaxStrDigits (before ++ (stringBytes part ++
      (parts.flatMap (fun part => ascii ',' :: (between ++ stringBytes part)) ++
        (after ++ ascii ']' :: rest)))) (node :: nodes) rest := by
  induction hparts generalizing before part node with
  | nil => exact .last (ws_append hbefore _) (hpart _) (ws_append hafter _)
  | cons hsecond hparts ih =>
    rw [List.flatMap_cons, List.append_assoc, List.cons_append, List.append_assoc]
    exact .more (ws_append hbefore _) (hpart _) (ws_refl _) (ih hbetween hsecond)

lemma membersText_parts (hbetween : ∀ byte ∈ between, isWs byte = true)
    (hafter : ∀ byte ∈ after, isWs byte = true) {before : List UInt8}
    (hbefore : ∀ byte ∈ before, isWs byte = true) {part : String} {parts : List String}
    {member : String × JsonNode} {members : List (String × JsonNode)}
    (hpart : WritesMember floatValue part member)
    (hparts : List.Forall₂ (WritesMember floatValue) parts members) (rest : List UInt8) :
    MembersText floatValue defaultIntMaxStrDigits (before ++ (stringBytes part ++
      (parts.flatMap (fun part => ascii ',' :: (between ++ stringBytes part)) ++
        (after ++ ascii '}' :: rest)))) (member :: members) rest := by
  induction hparts generalizing before part member with
  | nil => exact .last (memberText_ws (ws_append hbefore _) (hpart _)) (ws_append hafter _)
  | cons hsecond hparts ih =>
    rw [List.flatMap_cons, List.append_assoc, List.cons_append, List.append_assoc]
    exact .more (memberText_ws (ws_append hbefore _) (hpart _)) (ws_refl _) (ih hbetween hsecond)

variable {indent : Option String}

lemma space_ws : ∀ byte ∈ [ascii ' '], isWs byte = true := by
  intro byte hbyte
  rw [List.mem_singleton.1 hbyte]
  rfl

/-- The separator of items by default is a comma and white space. -/
lemma itemSeparator_default (ensureAscii : Bool) (indent : Option String) :
    ∃ spaces, (∀ byte ∈ spaces, isWs byte = true) ∧
      stringBytes (JsonDumpsOptions.default ensureAscii indent).itemSeparator =
        ascii ',' :: spaces := by
  cases indent with
  | none => exact ⟨[ascii ' '], space_ws, rfl⟩
  | some unit => exact ⟨[], List.forall_mem_nil _, rfl⟩

/-- The white space of the parts and between them. -/
lemma joinJsonParts_default (hindent : ∀ unit ∈ indent, ∀ ch ∈ unit.toList, ch = ' ')
    (ensureAscii : Bool) (opening closing : String) (depth : ℕ) (part : String)
    (parts : List String) :
    ∃ before between after : List UInt8, (∀ byte ∈ before, isWs byte = true) ∧
      (∀ byte ∈ between, isWs byte = true) ∧ (∀ byte ∈ after, isWs byte = true) ∧
        stringBytes (joinJsonParts (.default ensureAscii indent) opening closing depth
          (part :: parts)) = stringBytes opening ++ (before ++ (stringBytes part ++
            (parts.flatMap (fun part => ascii ',' :: (between ++ stringBytes part)) ++
              (after ++ stringBytes closing)))) := by
  obtain ⟨spaces, hspaces, hseparator⟩ := itemSeparator_default ensureAscii indent
  refine ⟨lineBytes indent (depth + 1), spaces ++ lineBytes indent (depth + 1),
    lineBytes indent depth, lineBytes_ws hindent _, ?_, lineBytes_ws hindent _, ?_⟩
  · intro byte hbyte
    rcases List.mem_append.1 hbyte with hbyte | hbyte
    · exact hspaces byte hbyte
    · exact lineBytes_ws hindent _ byte hbyte
  · rw [stringBytes_joinJsonParts, hseparator]
    simp only [List.cons_append, List.append_assoc]
    rfl

lemma writes_array (hindent : ∀ unit ∈ indent, ∀ ch ∈ unit.toList, ch = ' ') (ensureAscii : Bool)
    (depth : ℕ) {parts : List String} {nodes : List JsonNode}
    (h : List.Forall₂ (Writes floatValue) parts nodes) :
    Writes floatValue (joinJsonParts (.default ensureAscii indent) "[" "]" depth parts)
      (.array nodes) := by
  intro rest
  cases h with
  | nil => exact .emptyArray (ws_refl _)
  | @cons part node parts nodes hpart hparts =>
    obtain ⟨before, between, after, hbefore, hbetween, hafter, hbytes⟩ :=
      joinJsonParts_default hindent ensureAscii "[" "]" depth part parts
    have helements := elementsText_parts hbetween hafter hbefore hpart hparts rest
    rw [hbytes]
    simp only [List.append_assoc]
    exact .array helements

lemma writes_object (hindent : ∀ unit ∈ indent, ∀ ch ∈ unit.toList, ch = ' ') (ensureAscii : Bool)
    (depth : ℕ) {parts : List String} {members : List (String × JsonNode)}
    (h : List.Forall₂ (WritesMember floatValue) parts members) :
    Writes floatValue (joinJsonParts (.default ensureAscii indent) "\x7b" "\x7d" depth parts)
      (.object members) := by
  intro rest
  cases h with
  | nil => exact .emptyObject (ws_refl _)
  | @cons part member parts members hpart hparts =>
    obtain ⟨before, between, after, hbefore, hbetween, hafter, hbytes⟩ :=
      joinJsonParts_default hindent ensureAscii "\x7b" "\x7d" depth part parts
    have hmembers := membersText_parts hbetween hafter hbefore hpart hparts rest
    rw [hbytes]
    simp only [List.append_assoc]
    exact .object hmembers

lemma writesMember_pair (ensureAscii : Bool) {key text : String} {node : JsonNode}
    (hkey : NoSurrogatePair key) (h : Writes floatValue text node) :
    WritesMember floatValue (jsonEscapeString key ensureAscii ++ ": " ++ text) (key, node) := by
  intro rest
  obtain ⟨body, hbytes, hbody⟩ := stringText_jsonEscapeString ensureAscii hkey
  have hspace : Ws (ascii ' ' :: (stringBytes text ++ rest)) (stringBytes text ++ rest) :=
    ws_append space_ws _
  have hmember : MemberText floatValue defaultIntMaxStrDigits _ _ rest :=
    .member (ws_refl _) (hbody (ascii ':' :: ascii ' ' :: (stringBytes text ++ rest))) (ws_refl _)
      hspace (h rest)
  rw [String.ofList_toList] at hmember
  rw [stringBytes_append, stringBytes_append, hbytes]
  simp only [List.append_assoc]
  exact hmember

end

/-! ## Values -/

mutual

/-- The node of a value.  The keys of a dict are texts, and no two are equal. -/
inductive Denotes (heap : DumpsHeap) : DumpsValue → JsonNode → Prop
  | none : Denotes heap .none .null
  | bool {value : Bool} : Denotes heap (.bool value) (.bool value)
  | int {value : Int64} : Denotes heap (.int value) (.int value)
  | bigInt {value : ℤ} (hlarge : parseI64 value = none)
      (hdigits : ((Nat.toDigits 10 value.natAbs).length : ℤ) ≤ defaultIntMaxStrDigits) :
      Denotes heap (.bigInt value) (.bigInt value)
  | str {text : String} (h : NoSurrogatePair text) : Denotes heap (.str text) (.string text)
  | list {id : ℕ} {values : List DumpsValue} {nodes : List JsonNode}
      (hobject : heap id = some (.list values)) (h : DenotesItems heap values nodes) :
      Denotes heap (.list id) (.array nodes)
  | dict {id : ℕ} {entries : List (DumpsValue × DumpsValue)} {members : List (String × JsonNode)}
      (hobject : heap id = some (.dict entries)) (hdistinct : (members.map Prod.fst).Nodup)
      (h : DenotesEntries heap entries members) : Denotes heap (.dict id) (.object members)

inductive DenotesItems (heap : DumpsHeap) : List DumpsValue → List JsonNode → Prop
  | nil : DenotesItems heap [] []
  | cons {value : DumpsValue} {values : List DumpsValue} {node : JsonNode} {nodes : List JsonNode}
      (hvalue : Denotes heap value node) (h : DenotesItems heap values nodes) :
      DenotesItems heap (value :: values) (node :: nodes)

inductive DenotesEntries (heap : DumpsHeap) :
    List (DumpsValue × DumpsValue) → List (String × JsonNode) → Prop
  | nil : DenotesEntries heap [] []
  | cons {key : String} {value : DumpsValue} {entries : List (DumpsValue × DumpsValue)}
      {node : JsonNode} {members : List (String × JsonNode)} (hkey : NoSurrogatePair key)
      (hvalue : Denotes heap value node) (h : DenotesEntries heap entries members) :
      DenotesEntries heap ((.str key, value) :: entries) ((key, node) :: members)

end

/-- An object that is a list or a dict. -/
def DenotesObject (heap : DumpsHeap) (id : ℕ) (node : JsonNode) : Prop :=
  Denotes heap (.list id) node ∨ Denotes heap (.dict id) node

section

variable {heap : DumpsHeap}

/-- The values up to a nesting have one node each. -/
def UniqueBelow (heap : DumpsHeap) (bound : ℕ) : Prop :=
  ∀ {value : DumpsValue} {node node' : JsonNode}, Denotes heap value node →
    Denotes heap value node' → node.nesting < bound → node = node'

lemma denotesItems_unique {bound : ℕ} (hunique : UniqueBelow heap bound) {values : List DumpsValue}
    {nodes nodes' : List JsonNode} (h : DenotesItems heap values nodes)
    (h' : DenotesItems heap values nodes') (hbound : nestingOfValues nodes < bound) :
    nodes = nodes' := by
  induction values generalizing nodes nodes' with
  | nil =>
    cases h
    cases h'
    rfl
  | cons value values ih =>
    cases h with
    | cons hvalue hvalues =>
      cases h' with
      | cons hvalue' hvalues' =>
        have hnode := hunique hvalue hvalue' (lt_of_le_of_lt (le_max_left _ _) hbound)
        have hnodes := ih hvalues hvalues' (lt_of_le_of_lt (le_max_right _ _) hbound)
        rw [hnode, hnodes]

lemma denotesEntries_unique {bound : ℕ} (hunique : UniqueBelow heap bound)
    {entries : List (DumpsValue × DumpsValue)} {members members' : List (String × JsonNode)}
    (h : DenotesEntries heap entries members) (h' : DenotesEntries heap entries members')
    (hbound : nestingOfMembers members < bound) : members = members' := by
  induction entries generalizing members members' with
  | nil =>
    cases h
    cases h'
    rfl
  | cons entry entries ih =>
    cases h with
    | cons hkey hvalue hentries =>
      cases h' with
      | cons hkey' hvalue' hentries' =>
        have hnode := hunique hvalue hvalue' (lt_of_le_of_lt (le_max_left _ _) hbound)
        have hmembers := ih hentries hentries' (lt_of_le_of_lt (le_max_right _ _) hbound)
        rw [hnode, hmembers]

lemma uniqueBelow (bound : ℕ) : UniqueBelow heap bound := by
  induction bound with
  | zero =>
    intro value node node' _ _ hbound
    exact absurd hbound (Nat.not_lt_zero _)
  | succ bound ih =>
    intro value node node' h h' hbound
    cases h with
    | none => cases h'; rfl
    | bool => cases h'; rfl
    | int => cases h'; rfl
    | bigInt => cases h'; rfl
    | str => cases h'; rfl
    | list hobject hitems =>
      cases h' with
      | list hobject' hitems' =>
        cases hobject.symm.trans hobject'
        rw [denotesItems_unique ih hitems hitems' (Nat.lt_of_succ_lt_succ hbound)]
    | dict hobject _ hentries =>
      cases h' with
      | dict hobject' _ hentries' =>
        cases hobject.symm.trans hobject'
        rw [denotesEntries_unique ih hentries hentries' (Nat.lt_of_succ_lt_succ hbound)]

lemma DenotesObject.unique {id : ℕ} {node node' : JsonNode} (h : DenotesObject heap id node)
    (h' : DenotesObject heap id node') : node = node' := by
  rcases h with h | h
  · rcases h' with h' | h'
    · exact uniqueBelow _ h h' (Nat.lt_succ_self _)
    · cases h with
      | list hobject =>
        cases h' with
        | dict hobject' => cases hobject.symm.trans hobject'
  · rcases h' with h' | h'
    · cases h with
      | dict hobject =>
        cases h' with
        | list hobject' => cases hobject.symm.trans hobject'
    · exact uniqueBelow _ h h' (Nat.lt_succ_self _)

/-! ## Markers -/

/-- The objects that are being written have nodes of larger nesting. -/
def Above (heap : DumpsHeap) (markers : List ℕ) (bound : ℕ) : Prop :=
  ∀ id ∈ markers, ∀ node, DenotesObject heap id node → bound < node.nesting

lemma Above.mono {markers : List ℕ} {bound bound' : ℕ} (h : Above heap markers bound)
    (hle : bound' ≤ bound) : Above heap markers bound' :=
  fun id hid node hnode => lt_of_le_of_lt hle (h id hid node hnode)

/-- An object of a node can be entered, and its parts are below it. -/
lemma Above.enter {markers : List ℕ} {id bound : ℕ} {node : JsonNode}
    (h : Above heap markers node.nesting) (hnode : DenotesObject heap id node)
    (hbound : bound < node.nesting) :
    enterMarker markers id = .ok (id :: markers) ∧ Above heap (id :: markers) bound := by
  have hnew : id ∉ markers := fun hid => lt_irrefl _ (h id hid node hnode)
  refine ⟨if_neg hnew, ?_⟩
  intro other hother node' hnode'
  rcases List.mem_cons.1 hother with rfl | hother
  · rwa [← hnode.unique hnode']
  · exact hbound.trans (h other hother node' hnode')

/-! ## The serializer -/

variable {floatValue : List UInt8 → Binary64}

/-- A serializer writes the values up to a nesting. -/
def Serializes (heap : DumpsHeap) (floatValue : List UInt8 → Binary64)
    (serialize : DumpsValue → Except DumpsError String) (bound : ℕ) : Prop :=
  ∀ {value : DumpsValue} {node : JsonNode}, Denotes heap value node → node.nesting ≤ bound →
    ∃ text, serialize value = .ok text ∧ Writes floatValue text node

variable {serialize : DumpsValue → Except DumpsError String} {bound : ℕ}

lemma serializeItems_ok (hserialize : Serializes heap floatValue serialize bound) (kind : String)
    {values : List DumpsValue} {nodes : List JsonNode} (h : DenotesItems heap values nodes)
    (hbound : nestingOfValues nodes ≤ bound) (index : ℕ) :
    ∃ parts, serializeItems serialize kind index values = .ok parts ∧
      List.Forall₂ (Writes floatValue) parts nodes := by
  induction values generalizing nodes index with
  | nil =>
    cases h
    exact ⟨[], rfl, .nil⟩
  | cons value values ih =>
    cases h with
    | cons hvalue hvalues =>
      obtain ⟨part, hpart, hwrites⟩ := hserialize hvalue (le_trans (le_max_left _ _) hbound)
      obtain ⟨parts, hparts, hall⟩ := ih hvalues (le_trans (le_max_right _ _) hbound) (index + 1)
      refine ⟨part :: parts, ?_, .cons hwrites hall⟩
      rw [serializeItems, hpart, hparts]
      rfl

lemma serializeEntries_ok (hserialize : Serializes heap floatValue serialize bound)
    (formatFloat : Binary64 → String) (formatRepr : String → String) (ensureAscii : Bool)
    (indent : Option String) {entries : List (DumpsValue × DumpsValue)}
    {members : List (String × JsonNode)} (h : DenotesEntries heap entries members)
    (hbound : nestingOfMembers members ≤ bound) :
    ∃ mapped parts, encodeEntries formatFloat (.default ensureAscii indent) entries = .ok mapped ∧
      serializeEntries formatRepr (.default ensureAscii indent) serialize mapped = .ok parts ∧
        List.Forall₂ (WritesMember floatValue) parts members := by
  induction entries generalizing members with
  | nil =>
    cases h
    exact ⟨[], [], rfl, rfl, .nil⟩
  | cons entry entries ih =>
    cases h with
    | @cons key value _ node members hkey hvalue hentries =>
      obtain ⟨part, hpart, hwrites⟩ := hserialize hvalue (le_trans (le_max_left _ _) hbound)
      obtain ⟨mapped, parts, hmapped, hparts, hall⟩ :=
        ih hentries (le_trans (le_max_right _ _) hbound)
      refine ⟨(key, value) :: mapped, _ :: parts, ?_, ?_,
        .cons (writesMember_pair ensureAscii hkey hwrites) hall⟩
      · rw [encodeEntries, hmapped]
        rfl
      · rw [serializeEntries, hpart, hparts]
        rfl

/-- A value of a node is written, at every level above its nesting. -/
lemma jsonSerializeValueAtDepth_ok (formatFloat : Binary64 → String) (formatRepr : String → String)
    (ensureAscii : Bool) {indent : Option String}
    (hindent : ∀ unit ∈ indent, ∀ ch ∈ unit.toList, ch = ' ') (levels : ℕ) :
    ∀ {depth : ℕ} {markers : List ℕ} {value : DumpsValue} {node : JsonNode},
      Denotes heap value node → node.nesting < levels → Above heap markers node.nesting →
        ∃ text, jsonSerializeValueAtDepth formatFloat formatRepr (.default ensureAscii indent) heap
            levels depth markers value = .ok text ∧ Writes floatValue text node := by
  induction levels with
  | zero =>
    intro depth markers value node _ hnesting
    exact absurd hnesting (Nat.not_lt_zero _)
  | succ levels ih =>
    intro depth markers value node h hnesting habove
    have hparts : ∀ {markers : List ℕ} {bound : ℕ}, bound < levels → Above heap markers bound →
        Serializes heap floatValue (jsonSerializeValueAtDepth formatFloat formatRepr
          (.default ensureAscii indent) heap levels (depth + 1) markers) bound :=
      fun hlt habove _ _ hvalue hle => ih hvalue (lt_of_le_of_lt hle hlt) (habove.mono hle)
    cases h with
    | none =>
      have hliteral : (stringBytes "null", JsonNode.null) ∈ literals := .head _
      exact ⟨_, rfl, fun rest => .literal hliteral⟩
    | @bool flag =>
      have htrue : (stringBytes "true", JsonNode.bool true) ∈ literals := .tail _ (.head _)
      have hfalse : (stringBytes "false", JsonNode.bool false) ∈ literals :=
        .tail _ (.tail _ (.head _))
      cases flag with
      | true => exact ⟨_, rfl, fun rest => .literal htrue⟩
      | false => exact ⟨_, rfl, fun rest => .literal hfalse⟩
    | @int number =>
      have hrange : -2 ^ 63 ≤ number.toInt ∧ number.toInt < 2 ^ 63 :=
        ⟨number.le_toInt, number.toInt_lt⟩
      have hparse : parseI64 number.toInt = some number := by
        rw [parseI64, if_pos hrange, Int64.ofInt_toInt]
      have hnode : integerNode number.toInt = .int number := by
        rw [integerNode, hparse]
      refine ⟨_, rfl, fun rest => ?_⟩
      rw [← hnode]
      exact valueText_decimalText (.inl (by rw [hparse]; rfl)) rest
    | @bigInt number hlarge hdigits =>
      have hnode : integerNode number = .bigInt number := by
        rw [integerNode, hlarge]
      refine ⟨_, rfl, fun rest => ?_⟩
      rw [← hnode]
      exact valueText_decimalText (.inr hdigits) rest
    | @str text hpair =>
      obtain ⟨body, hbytes, hbody⟩ := stringText_jsonEscapeString ensureAscii hpair
      refine ⟨_, rfl, fun rest => ?_⟩
      have hstring : ValueText floatValue defaultIntMaxStrDigits _ _ rest := .string (hbody rest)
      rw [String.ofList_toList] at hstring
      show ValueText _ _ (stringBytes (jsonEscapeString text ensureAscii) ++ rest) _ _
      rw [hbytes]
      exact hstring
    | @list id values nodes hobject hitems =>
      obtain ⟨hmarker, hinner⟩ := habove.enter (.inl (.list hobject hitems)) (Nat.lt_succ_self _)
      obtain ⟨parts, hserialized, hwrites⟩ := serializeItems_ok
        (hparts (Nat.lt_of_succ_lt_succ hnesting) hinner) "list" hitems le_rfl 0
      refine ⟨_, ?_, writes_array hindent ensureAscii depth hwrites⟩
      rw [jsonSerializeValueAtDepth, hmarker]
      simp only [bind, Except.bind, hobject, hserialized, pure, Except.pure]
    | @dict id entries members hobject hdistinct hentries =>
      obtain ⟨hmarker, hinner⟩ :=
        habove.enter (.inr (.dict hobject hdistinct hentries)) (Nat.lt_succ_self _)
      obtain ⟨mapped, parts, hmapped, hserialized, hwrites⟩ := serializeEntries_ok
        (hparts (Nat.lt_of_succ_lt_succ hnesting) hinner) formatFloat formatRepr ensureAscii indent
          hentries le_rfl
      refine ⟨_, ?_, writes_object hindent ensureAscii depth hwrites⟩
      rw [jsonSerializeValueAtDepth, hmarker]
      simp only [bind, Except.bind, hobject, hmapped, hserialized, pure, Except.pure]

/-- The parser reads what the serializer writes of a value, and returns the node of the value. -/
theorem parse_jsonSerializeValue (formatFloat : Binary64 → String) (formatRepr : String → String)
    {parseF64 : List UInt8 → Option Binary64} (hparse : ParsesFloats floatValue parseF64)
    (ensureAscii : Bool) {indent : Option String}
    (hindent : ∀ unit ∈ indent, ∀ ch ∈ unit.toList, ch = ' ') {value : DumpsValue}
    {node : JsonNode} (h : Denotes heap value node) {recursionLimit depthLimit : ℕ}
    (hserialized : node.nesting < recursionLimit) (hparsed : node.nesting < depthLimit) :
    ∃ text, jsonSerializeValue formatFloat formatRepr (.default ensureAscii indent) heap
        recursionLimit value = .ok text ∧
      parse (stringBytes text) parseF64 defaultIntMaxStrDigits depthLimit = .ok node := by
  have hempty : Above heap [] node.nesting := fun id hid => absurd hid List.not_mem_nil
  obtain ⟨text, htext, hwrites⟩ :=
    jsonSerializeValueAtDepth_ok formatFloat formatRepr ensureAscii hindent recursionLimit h
      hserialized hempty
  have hvalue := hwrites []
  rw [List.append_nil] at hvalue
  exact ⟨text, htext, parse_complete hparse ⟨_, _, ws_refl _, hvalue, ws_refl _⟩ hparsed⟩

end

/-- A list of a text, a large integer and an empty dict, each in a line of its own. -/
theorem parse_jsonSerializeValue_list :
    ∃ text, jsonSerializeValue (fun _ => "") id
        (.default true (some (String.ofList [' ', ' '])))
        (fun id => if id = 0 then some (.list [.str (String.ofList ['é']), .bigInt (2 ^ 63), .dict 1])
          else some (.dict [])) 3 (.list 0) = .ok text ∧
      parse (stringBytes text) (fun _ => some nan) defaultIntMaxStrDigits 3 =
        .ok (.array [.string (String.ofList ['é']), .bigInt (2 ^ 63), .object []]) := by
  have hparse : ParsesFloats (fun _ => nan) fun _ => some nan := fun _ _ => rfl
  have hindent : ∀ unit ∈ some (String.ofList [' ', ' ']), ∀ ch ∈ unit.toList, ch = ' ' := by
    intro unit hunit ch hch
    rw [← Option.some.inj hunit, String.toList_ofList] at hch
    simpa using hch
  have htext : NoSurrogatePair (String.ofList ['é']) := by
    rw [NoSurrogatePair, String.toList_ofList]
    exact List.isChain_singleton _
  have hlarge : parseI64 (2 ^ 63) = none := by
    rw [parseI64, if_neg (by norm_num)]
  refine parse_jsonSerializeValue _ _ hparse true hindent (.list rfl (.cons (.str htext)
    (.cons (.bigInt hlarge (by decide +kernel)) (.cons (.dict rfl (by simp) .nil) .nil)))) ?_ ?_
  · simp [JsonNode.nesting, nestingOfValues, nestingOfMembers]
  · simp [JsonNode.nesting, nestingOfValues, nestingOfMembers]

end JsonRoundTrip

end Pyrs
