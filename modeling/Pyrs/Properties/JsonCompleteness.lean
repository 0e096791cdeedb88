import Pyrs.Properties.JsonSoundness

/-!
# Completeness of the JSON parser

What the grammar derives is accepted, with the node that it denotes, wherever the levels are more
than the nesting of the node.
-/

namespace Pyrs

open JsonGrammar

namespace JsonParser

variable {source : List UInt8} {pos next : ℕ}

/-- A function of the parser returns a value in front of the rest of the text. -/
def Reads {α : Type} (source : List UInt8) (result : Except JsonFault (α × ℕ)) (value : α)
    (rest : List UInt8) : Prop := ∃ next, result = .ok (value, next) ∧ source.drop next = rest

lemma Reads.bind {α β : Type} {x : Except JsonFault (α × ℕ)} {a : α} {middle rest : List UInt8}
    {f : α × ℕ → Except JsonFault (β × ℕ)} {b : β} (h : Reads source x a middle)
    (hf : ∀ next, source.drop next = middle → Reads source (f (a, next)) b rest) :
    Reads source (x >>= f) b rest := by
  obtain ⟨next, rfl, hdrop⟩ := h
  exact hf next hdrop

lemma Reads.map {α β : Type} {x : Except JsonFault (α × ℕ)} {a : α} {rest : List UInt8} (f : α → β)
    (h : Reads source x a rest) :
    Reads source (x >>= fun result => Except.ok (f result.1, result.2)) (f a) rest :=
  h.bind fun next hdrop => ⟨next, rfl, hdrop⟩

/-! ## White space -/

/-- A text that starts with something else. -/
def HeadNot (p : UInt8 → Bool) (text : List UInt8) : Prop :=
  ∀ byte, text.head? = some byte → p byte = false

lemma headNot_cons {p : UInt8 → Bool} {byte : UInt8} {rest : List UInt8} (h : p byte = false) :
    HeadNot p (byte :: rest) := by
  intro found hfound
  rw [← Option.some.inj hfound]
  exact h

lemma headNot_nil (p : UInt8 → Bool) : HeadNot p [] := by
  intro byte h
  cases h

lemma drop_skipWs_of_ws {text rest : List UInt8} (hdrop : source.drop pos = text)
    (hws : Ws text rest) (hrest : HeadNot isWs rest) : source.drop (skipWs source pos) = rest := by
  obtain ⟨spaces, hspaces, rfl⟩ := hws
  rw [drop_skipWs, hdrop, List.dropWhile_append_of_pos hspaces]
  cases rest with
  | nil => rfl
  | cons byte rest => rw [List.dropWhile_cons_of_neg (by rw [hrest byte rfl]; simp)]

/-! ## Strings -/

lemma hexDigit_lt {byte : UInt8} {digit : ℕ} (h : hexDigit byte = some digit) : digit < 16 := by
  rw [hexDigit] at h
  split at h
  · next hdigit =>
    have hle := UInt8.le_iff_toNat_le.1 hdigit.2
    have hnine : (ascii '9').toNat = 57 := rfl
    have := Option.some.inj h
    omega
  · split at h
    · next hdigit =>
      have hle := UInt8.le_iff_toNat_le.1 hdigit.2
      have hf : (ascii 'f').toNat = 102 := rfl
      have := Option.some.inj h
      omega
    · split at h
      · next hdigit =>
        have hle := UInt8.le_iff_toNat_le.1 hdigit.2
        have hf : (ascii 'F').toNat = 70 := rfl
        have := Option.some.inj h
        omega
      · cases h

lemma HexDigits.lt {count value code : ℕ} {text rest : List UInt8}
    (h : HexDigits count value text code rest) : code < (value + 1) * 16 ^ count := by
  induction h with
  | nil => omega
  | @cons count value digit code byte text rest hdigit _ ih =>
    have hlt := hexDigit_lt hdigit
    calc code < (value * 16 + digit + 1) * 16 ^ count := ih
      _ ≤ ((value + 1) * 16) * 16 ^ count := Nat.mul_le_mul_right _ (by omega)
      _ = (value + 1) * 16 ^ (count + 1) := by rw [pow_succ, Nat.mul_assoc, Nat.mul_comm 16]

lemma hex_lt {text rest : List UInt8} {code : ℕ} (h : Hex text code rest) : code < 0x10000 := by
  have := HexDigits.lt h
  omega

lemma HexDigits.length_eq {count value code : ℕ} {text rest : List UInt8}
    (h : HexDigits count value text code rest) : text.length = count + rest.length := by
  induction h with
  | nil => omega
  | cons _ _ ih => rw [List.length_cons, ih]; omega

lemma parseHexDigits_complete {count value code : ℕ} {text rest : List UInt8}
    (h : HexDigits count value text code rest) (hdrop : source.drop pos = text) :
    Reads source (parseHexDigits source count value pos) code rest := by
  induction h generalizing pos with
  | nil => exact ⟨pos, rfl, hdrop⟩
  | cons hdigit _ ih =>
    obtain ⟨hpeek, hdrop⟩ := peek_of_drop hdrop
    rw [parseHexDigits, hpeek]
    simp only [hdigit]
    exact ih hdrop

/-- The code of a character that is no surrogate. -/
lemma valid_of_not_surrogate {code : ℕ} (hlt : code < 0x10000)
    (hhigh : isHighSurrogate code = false) (hlow : isLowSurrogate code = false) :
    code.isValidChar := by
  have hhigh := mt isHighSurrogate_iff.2 (Bool.eq_false_iff.1 hhigh)
  have hlow := mt isLowSurrogate_iff.2 (Bool.eq_false_iff.1 hlow)
  rw [Nat.isValidChar]
  omega

lemma validChar_some {code : ℕ} (h : code.isValidChar) :
    validChar (charFromU32 code) pos = .ok (Char.ofNat code, pos) := by
  rw [charFromU32_of_valid h, validChar]

lemma validChar_surrogate {code : ℕ}
    (h : isHighSurrogate code = true ∨ isLowSurrogate code = true) :
    validChar (internalCharFromCodepoint code) pos =
      .ok (Char.ofNat (internalSurrogateBase + (code - 0xD800)), pos) := by
  rw [internalChar_of_surrogate h]
  refine validChar_some ?_
  rw [isHighSurrogate_iff, isLowSurrogate_iff] at h
  rw [Nat.isValidChar, internalSurrogateBase]
  omega

lemma parseUnicodeEscape_unicode {text rest : List UInt8} {code : ℕ} (h : Hex text code rest)
    (hhigh : isHighSurrogate code = false) (hlow : isLowSurrogate code = false)
    (hdrop : source.drop pos = text) :
    Reads source (parseUnicodeEscape source pos) (Char.ofNat code) rest := by
  rw [parseUnicodeEscape]
  refine (parseHexDigits_complete h hdrop).bind fun next hnext => ?_
  dsimp only
  rw [hhigh, hlow, if_neg Bool.false_ne_true, if_neg Bool.false_ne_true,
    validChar_some (valid_of_not_surrogate (hex_lt h) hhigh hlow)]
  exact ⟨next, rfl, hnext⟩

lemma parseUnicodeEscape_pair {text behind rest : List UInt8} {high low : ℕ}
    (hhigh : Hex text high (unicodeEscape behind)) (hisHigh : isHighSurrogate high = true)
    (hlow : Hex behind low rest) (hisLow : isLowSurrogate low = true)
    (hdrop : source.drop pos = text) :
    Reads source (parseUnicodeEscape source pos)
      (Char.ofNat (0x10000 + (high - 0xD800) * 0x400 + (low - 0xDC00))) rest := by
  rw [parseUnicodeEscape]
  refine (parseHexDigits_complete hhigh hdrop).bind fun next hnext => ?_
  obtain ⟨hfirst, hnext⟩ := peek_of_drop hnext
  obtain ⟨hsecond, hnext⟩ := peek_of_drop hnext
  dsimp only
  rw [hisHigh, if_pos rfl, if_pos ⟨hfirst, hsecond⟩]
  refine (parseHexDigits_complete hlow hnext).bind fun last hlast => ?_
  dsimp only
  rw [hisLow, if_pos rfl, surrogatePairScalar_eq hisLow]
  rw [isHighSurrogate_iff] at hisHigh
  rw [isLowSurrogate_iff] at hisLow
  rw [validChar_some (by rw [Nat.isValidChar]; omega)]
  exact ⟨last, rfl, hlast⟩

/-- A lone surrogate; behind a high one there is no escape, or a whole one that is not low. -/
lemma parseUnicodeEscape_lone {text rest : List UInt8} {code : ℕ} (h : Hex text code rest)
    (hcode : isHighSurrogate code = true ∨ isLowSurrogate code = true)
    (hnext : isHighSurrogate code = true → ∀ behind low rest', rest = unicodeEscape behind →
      Hex behind low rest' → isLowSurrogate low = false)
    (hescape : ∀ behind, rest = unicodeEscape behind → ∃ low rest', Hex behind low rest')
    (hdrop : source.drop pos = text) :
    Reads source (parseUnicodeEscape source pos)
      (Char.ofNat (internalSurrogateBase + (code - 0xD800))) rest := by
  rw [parseUnicodeEscape]
  refine (parseHexDigits_complete h hdrop).bind fun next hdropNext => ?_
  have halone : Reads source (validChar (internalCharFromCodepoint code) next)
      (Char.ofNat (internalSurrogateBase + (code - 0xD800))) rest := by
    rw [validChar_surrogate hcode]
    exact ⟨next, rfl, hdropNext⟩
  dsimp only
  split
  · next hhigh =>
    split
    · next hpeek =>
      have hrest : rest = unicodeEscape (source.drop (next + 2)) := by
        rw [← hdropNext, drop_of_peek hpeek.1, drop_of_peek hpeek.2]
        rfl
      obtain ⟨low, rest', hlow⟩ := hescape _ hrest
      obtain ⟨last, hlast, -⟩ := parseHexDigits_complete hlow (Eq.refl (source.drop (next + 2)))
      rw [parseHexU16, hlast]
      show Reads source (if isLowSurrogate low = true then _ else _) _ _
      rw [hnext hhigh _ _ _ hrest hlow, if_neg Bool.false_ne_true]
      exact halone
    · exact halone
  · next hhigh =>
    rw [if_pos (hcode.resolve_left hhigh)]
    exact halone

lemma parseContinuation_complete {bytes rest : List UInt8}
    (hbytes : ∀ byte ∈ bytes, Utf8.isContinuation byte) (hdrop : source.drop pos = bytes ++ rest) :
    Reads source (parseContinuation source bytes.length pos) bytes rest := by
  induction bytes generalizing pos with
  | nil => exact ⟨pos, rfl, hdrop⟩
  | cons byte bytes ih =>
    obtain ⟨hpeek, hdrop⟩ := peek_of_drop hdrop
    rw [List.length_cons, parseContinuation, hpeek]
    dsimp only
    have hbyte : byte &&& 0b11000000 = 0b10000000 := hbytes byte List.mem_cons_self
    rw [if_pos hbyte]
    refine (ih (fun byte hmem => hbytes byte (List.mem_cons_of_mem _ hmem)) hdrop).bind
      fun next hnext => ?_
    exact ⟨next, rfl, hnext⟩

lemma pushUtf8Char_complete {ch : Char} {first : UInt8} {bytes rest : List UInt8}
    (hch : String.utf8EncodeChar ch = first :: bytes) (hleads : Utf8.Leads first bytes.length)
    (hbytes : ∀ byte ∈ bytes, Utf8.isContinuation byte) (hdrop : source.drop pos = bytes ++ rest) :
    Reads source (pushUtf8Char source first pos) ch rest := by
  rw [pushUtf8Char, utf8Width_eq_some.2 ⟨_, hleads, rfl⟩]
  dsimp only
  refine (parseContinuation_complete hbytes hdrop).bind fun next hnext => ?_
  have htext : String.fromUTF8? (first :: bytes).toByteArray = some (String.ofList [ch]) := by
    rw [← Utf8.fromUTF8_encode, Utf8.encode, List.flatMap_singleton, hch]
  dsimp only
  rw [htext]
  refine ⟨next, ?_, hnext⟩
  simp only [Option.bind_some, String.toList_ofList, List.head?_cons]
  rfl

/-- The first byte of an unescaped character. -/
lemma utf8EncodeChar_head {ch : Char} {byte : UInt8} {text rest : List UInt8}
    (h : String.utf8EncodeChar ch ++ rest = byte :: text) (hbyte : byte < 0x80) :
    byte = UInt8.ofNat ch.toNat ∧ ch.toNat < 0x80 := by
  have hsmall : ch.toNat < 0x80 := by
    by_contra hlarge
    obtain ⟨first, others, hch, hleads, -⟩ := Utf8.utf8EncodeChar_leads (not_lt.1 hlarge)
    rw [hch, List.cons_append] at h
    rw [← (List.cons.inj h).1] at hbyte
    exact absurd hbyte (UInt8.not_lt.2 hleads.le)
  rw [Utf8.utf8EncodeChar_ascii hsmall, List.singleton_append] at h
  exact ⟨(List.cons.inj h).1.symm, hsmall⟩

lemma char_eq_of_ascii {ch found : Char} (hfound : found.toNat < 0x80) (hch : ch.toNat < 0x80)
    (h : ascii found = UInt8.ofNat ch.toNat) : ch = found := by
  have htoNat := congrArg UInt8.toNat h
  rw [ascii, UInt8.toNat_ofNat', UInt8.toNat_ofNat', Nat.mod_eq_of_lt (by omega),
    Nat.mod_eq_of_lt (by omega)] at htoNat
  exact Char.toNat_inj.1 htoNat.symm

/-- An escape with a code that starts a text of a string has its digits. -/
lemma hex_of_stringText {text rest : List UInt8} {chars : List Char}
    (h : StringText (unicodeEscape text) chars rest) : ∃ code rest', Hex text code rest' := by
  generalize hescape : unicodeEscape text = escape at h
  cases h with
  | quote => exact absurd (List.cons.inj hescape).1 (by decide)
  | char hch _ =>
    cases hch with
    | unescaped _ _ hbackslash =>
      obtain ⟨hbyte, hsmall⟩ := utf8EncodeChar_head hescape.symm (by decide)
      exact absurd (char_eq_of_ascii (by decide) hsmall hbyte) hbackslash
    | escape hletter =>
      rw [← (List.cons.inj (List.cons.inj hescape).2).1] at hletter
      cases hletter
    | unicode hcode =>
      rw [(List.cons.inj (List.cons.inj hescape).2).2]
      exact ⟨_, _, hcode⟩
    | pair hhigh =>
      rw [(List.cons.inj (List.cons.inj hescape).2).2]
      exact ⟨_, _, hhigh⟩
    | lone hcode =>
      rw [(List.cons.inj (List.cons.inj hescape).2).2]
      exact ⟨_, _, hcode⟩

lemma charText_length {text rest : List UInt8} {ch : Char} (h : CharText text ch rest) :
    rest.length < text.length := by
  have hhex : ∀ {text code rest}, Hex text code rest →
      rest.length < (unicodeEscape text).length := by
    intro text code rest h
    have := HexDigits.length_eq h
    simp only [unicodeEscape, List.length_cons]
    omega
  cases h with
  | unescaped =>
    have hpos := Char.utf8Size_pos ch
    rw [List.length_append, String.length_utf8EncodeChar]
    omega
  | escape => simp only [List.length_cons]; omega
  | unicode h => exact hhex h
  | pair hhigh _ hlow =>
    have hlt := hhex hlow
    exact hlt.trans (hhex hhigh)
  | lone h => exact hhex h

/-- An escape, where the text behind it is one of a string. -/
lemma parseEscape_complete {text behind rest : List UInt8} {ch : Char} {chars : List Char}
    (h : CharText (ascii '\\' :: text) ch behind) (hrest : StringText behind chars rest)
    (hdrop : source.drop pos = text) : Reads source (parseEscape source pos) ch behind := by
  have hunicode : ∀ {escape : List UInt8}, ascii '\\' :: text = unicodeEscape escape →
      (∀ {pos}, source.drop pos = escape → Reads source (parseUnicodeEscape source pos) ch behind) →
      Reads source (parseEscape source pos) ch behind := by
    intro escape hescape hread
    rw [(List.cons.inj hescape).2] at hdrop
    obtain ⟨hpeek, hdrop⟩ := peek_of_drop hdrop
    rw [parseEscape, hpeek]
    exact hread hdrop
  generalize hwhole : ascii '\\' :: text = whole at h
  cases h with
  | unescaped _ _ hbackslash =>
    obtain ⟨hbyte, hsmall⟩ := utf8EncodeChar_head hwhole.symm (by decide)
    exact absurd (char_eq_of_ascii (by decide) hsmall hbyte) hbackslash
  | escape hletter =>
    rw [(List.cons.inj hwhole).2] at hdrop
    obtain ⟨hpeek, hdrop⟩ := peek_of_drop hdrop
    rw [parseEscape, hpeek]
    simp only [hletter]
    exact ⟨pos + 1, rfl, hdrop⟩
  | unicode hcode hhigh hlow =>
    exact hunicode hwhole fun hdrop => parseUnicodeEscape_unicode hcode hhigh hlow hdrop
  | pair hhigh hisHigh hlow hisLow =>
    exact hunicode hwhole fun hdrop => parseUnicodeEscape_pair hhigh hisHigh hlow hisLow hdrop
  | lone hcode hsurrogate hnext =>
    refine hunicode hwhole fun hdrop => parseUnicodeEscape_lone hcode hsurrogate hnext ?_ hdrop
    intro escape hescape
    rw [hescape] at hrest
    exact hex_of_stringText hrest

/-- A text of a string that starts with an unescaped character. -/
lemma parseStringFrom_unescaped {start fuel : ℕ} {out : String} {ch : Char} {rest : List UInt8}
    (hcontrol : 0x20 ≤ ch.toNat) (hquote : ch ≠ '"') (hbackslash : ch ≠ '\\')
    (hdrop : source.drop pos = String.utf8EncodeChar ch ++ rest) :
    ∃ next, source.drop next = rest ∧ parseStringFrom source start (fuel + 1) out pos =
      parseStringFrom source start fuel (out.push ch) next := by
  by_cases hsmall : ch.toNat < 0x80
  · rw [Utf8.utf8EncodeChar_ascii hsmall, List.singleton_append] at hdrop
    obtain ⟨hpeek, hdrop⟩ := peek_of_drop hdrop
    have htoNat : (UInt8.ofNat ch.toNat).toNat = ch.toNat := by
      rw [UInt8.toNat_ofNat', Nat.mod_eq_of_lt (by omega)]
    have hcontrol : ¬UInt8.ofNat ch.toNat < 0x20 := by
      rw [UInt8.lt_iff_toNat_lt, htoNat]
      exact not_lt.2 hcontrol
    have hascii : UInt8.ofNat ch.toNat < 0x80 := by
      rw [UInt8.lt_iff_toNat_lt, htoNat]
      exact hsmall
    refine ⟨pos + 1, hdrop, ?_⟩
    rw [parseStringFrom, hpeek]
    dsimp only
    rw [if_neg fun h => hquote (char_eq_of_ascii (by decide) hsmall h.symm),
      if_neg fun h => hbackslash (char_eq_of_ascii (by decide) hsmall h.symm), if_neg hcontrol,
      if_pos hascii, htoNat, Char.ofNat_toNat]
  · obtain ⟨first, bytes, hch, hleads, hbytes⟩ := Utf8.utf8EncodeChar_leads (not_lt.1 hsmall)
    rw [hch, List.cons_append] at hdrop
    obtain ⟨hpeek, hdrop⟩ := peek_of_drop hdrop
    have hle := hleads.le
    obtain ⟨next, hread, hnext⟩ := pushUtf8Char_complete hch hleads hbytes hdrop
    refine ⟨next, hnext, ?_⟩
    have hne : ∀ {found : UInt8}, found < 0x80 → first ≠ found := by
      rintro found hfound rfl
      exact absurd hfound (UInt8.not_lt.2 hle)
    rw [parseStringFrom, hpeek]
    dsimp only
    rw [if_neg (hne (by decide)), if_neg (hne (by decide)),
      if_neg fun h => absurd (UInt8.lt_trans h (by decide)) (UInt8.not_lt.2 hle),
      if_neg (UInt8.not_lt.2 hle), hread]
    rfl

lemma parseStringFrom_complete {start fuel : ℕ} {out : String} {text rest : List UInt8}
    {chars : List Char} (h : StringText text chars rest) (hdrop : source.drop pos = text)
    (hfuel : text.length < fuel) :
    Reads source (parseStringFrom source start fuel out pos) (out ++ String.ofList chars) rest := by
  induction h generalizing pos fuel out with
  | quote =>
    obtain ⟨fuel, rfl⟩ := Nat.exists_eq_add_of_lt hfuel
    obtain ⟨hpeek, hdrop⟩ := peek_of_drop hdrop
    refine ⟨pos + 1, ?_, hdrop⟩
    rw [parseStringFrom, hpeek]
    simp
  | @char text behind rest ch chars hch hrest ih =>
    obtain ⟨fuel, rfl⟩ : ∃ count, fuel = count + 1 := ⟨fuel - 1, by omega⟩
    have hlength := charText_length hch
    have hround : ∀ {next}, source.drop next = behind →
        Reads source (parseStringFrom source start fuel (out.push ch) next)
          (out ++ String.ofList (ch :: chars)) rest := by
      intro next hnext
      have hread : Reads source (parseStringFrom source start fuel (out.push ch) next)
          (out.push ch ++ String.ofList chars) rest := ih hnext (by omega)
      rwa [show out.push ch ++ String.ofList chars = out ++ String.ofList (ch :: chars) by
        apply String.toList_inj.1
        simp] at hread
    have hescaped : ∀ {escape : List UInt8}, text = ascii '\\' :: escape →
        Reads source (parseStringFrom source start (fuel + 1) out pos)
          (out ++ String.ofList (ch :: chars)) rest := by
      intro escape htext
      rw [htext] at hdrop hch
      obtain ⟨hpeek, hdrop⟩ := peek_of_drop hdrop
      rw [parseStringFrom, hpeek]
      dsimp only
      rw [if_neg (by decide), if_pos rfl]
      exact (parseEscape_complete hch hrest hdrop).bind fun next hnext => hround hnext
    cases hch with
    | unescaped hcontrol hquote hbackslash =>
      obtain ⟨next, hnext, hread⟩ :=
        @parseStringFrom_unescaped source pos start fuel out ch _ hcontrol hquote hbackslash hdrop
      rw [hread]
      exact hround hnext
    | escape => exact hescaped rfl
    | unicode => exact hescaped rfl
    | pair => exact hescaped rfl
    | lone => exact hescaped rfl

lemma parseString_complete {text rest : List UInt8} {chars : List Char}
    (h : StringText text chars rest) (hdrop : source.drop pos = ascii '"' :: text) :
    Reads source (parseString source pos) (String.ofList chars) rest := by
  have hlength : text.length < source.length + 1 := by
    have hle := congrArg List.length hdrop
    rw [List.length_drop, List.length_cons] at hle
    omega
  obtain ⟨hpeek, hdrop⟩ := peek_of_drop hdrop
  have hread : Reads source (parseStringFrom source pos (source.length + 1) "" (pos + 1))
      ("" ++ String.ofList chars) rest := parseStringFrom_complete h hdrop hlength
  rw [String.empty_append] at hread
  rw [parseString, expect, if_pos hpeek]
  exact hread

/-! ## Numbers -/

/-- What would be read as a part of the number in front of it. -/
def continuesNumber (byte : UInt8) : Bool :=
  isDigit byte || byte = ascii '.' || byte = ascii 'e' || byte = ascii 'E'

lemma continuesNumber_eq_false {byte : UInt8} (h : continuesNumber byte = false) :
    isDigit byte = false ∧ byte ≠ ascii '.' ∧ byte ≠ ascii 'e' ∧ byte ≠ ascii 'E' := by
  simpa [continuesNumber, and_assoc] using h

lemma drop_add {text rest : List UInt8} (hdrop : source.drop pos = text ++ rest) :
    source.drop (pos + text.length) = rest := by
  rw [← List.drop_drop, hdrop, List.drop_left]

lemma peekDigit_of_drop {text : List UInt8} (hdrop : source.drop pos = text) :
    peekDigit source pos = text.head?.any isDigit := by
  rw [peekDigit, peek_eq, hdrop]

lemma not_peekDigit {text : List UInt8} (hdrop : source.drop pos = text)
    (h : HeadNot isDigit text) :
    ¬peekDigit source pos = true := by
  rw [peekDigit_of_drop hdrop, Option.any_eq_true]
  rintro ⟨byte, hbyte, hdigit⟩
  rw [h byte hbyte] at hdigit
  cases hdigit

lemma skipDigits_eq {digits tail : List UInt8} (hdigits : ∀ byte ∈ digits, isDigit byte = true)
    (htail : HeadNot isDigit tail) (hdrop : source.drop pos = digits ++ tail) :
    skipDigits source pos = pos + digits.length := by
  rw [skipDigits, hdrop, List.takeWhile_append_of_pos hdigits]
  cases tail with
  | nil => simp
  | cons byte tail =>
    rw [List.takeWhile_cons_of_neg (by rw [htail byte rfl]; simp), List.append_nil]

lemma parseDigits_complete {digits tail : List UInt8} (hdigits : Digits digits)
    (htail : HeadNot isDigit tail) (hdrop : source.drop pos = digits ++ tail) :
    parseDigits source pos = .ok (pos + digits.length) := by
  cases digits with
  | nil => exact absurd rfl hdigits.1
  | cons byte digits =>
    have hdigit : peekDigit source pos = true := by
      rw [peekDigit_of_drop hdrop]
      exact hdigits.2 byte List.mem_cons_self
    rw [parseDigits, if_pos hdigit, skipDigits_eq hdigits.2 htail hdrop]

lemma parseMinus_complete {minus tail : List UInt8} (hminus : minus = [] ∨ minus = [ascii '-'])
    (htail : tail.head? ≠ some (ascii '-')) (hdrop : source.drop pos = minus ++ tail) :
    parseMinus source pos = pos + minus.length := by
  rw [parseMinus, peek_eq, hdrop]
  rcases hminus with rfl | rfl
  · exact if_neg htail
  · exact if_pos rfl

lemma parseIntPart_complete {digits tail : List UInt8} (hdigits : IntText digits)
    (htail : HeadNot isDigit tail) (hdrop : source.drop pos = digits ++ tail) :
    parseIntPart source pos = .ok (pos + digits.length) := by
  obtain ⟨hdigits, hzero⟩ := hdigits
  by_cases hzeroText : digits = [ascii '0']
  · subst hzeroText
    obtain ⟨hpeek, hdrop⟩ := peek_of_drop hdrop
    rw [parseIntPart, if_pos hpeek, if_neg (not_peekDigit hdrop htail)]
    rfl
  · have hhead := hzero.resolve_left hzeroText
    cases digits with
    | nil => exact absurd rfl hdigits.1
    | cons byte digits =>
      obtain ⟨hpeek, hdrop⟩ := peek_of_drop hdrop
      have hdigit : peekDigit source pos = true := by
        rw [peekDigit, hpeek]
        exact hdigits.2 byte List.mem_cons_self
      have hothers : ∀ byte ∈ digits, isDigit byte = true :=
        fun byte hmem => hdigits.2 byte (List.mem_cons_of_mem _ hmem)
      rw [parseIntPart, if_neg (hpeek.trans_ne hhead), if_pos hdigit,
        skipDigits_eq hothers htail hdrop, List.length_cons, Nat.add_assoc, Nat.add_comm 1]

lemma parseFraction_complete {fraction tail : List UInt8}
    (hfraction : fraction = [] ∨ FractionText fraction) (htail : HeadNot isDigit tail)
    (hmark : fraction = [] → tail.head? ≠ some (ascii '.'))
    (hdrop : source.drop pos = fraction ++ tail) :
    parseFraction source pos = .ok (pos + fraction.length) := by
  rcases hfraction with rfl | ⟨digits, hdigits, rfl⟩
  · rw [parseFraction, peek_eq, hdrop, List.nil_append, if_neg (hmark rfl)]
    rfl
  · obtain ⟨hpeek, hdrop⟩ := peek_of_drop hdrop
    rw [parseFraction, if_pos hpeek, parseDigits_complete hdigits htail hdrop, List.length_cons,
      Nat.add_assoc, Nat.add_comm 1]

lemma parseExponent_complete {exponent tail : List UInt8}
    (hexponent : exponent = [] ∨ ExponentText exponent) (htail : HeadNot isDigit tail)
    (hmark : exponent = [] →
      tail.head? ≠ some (ascii 'e') ∧ tail.head? ≠ some (ascii 'E'))
    (hdrop : source.drop pos = exponent ++ tail) :
    parseExponent source pos = .ok (pos + exponent.length) := by
  rcases hexponent with rfl | ⟨letter, sign, digits, hletter, hsign, hdigits, rfl⟩
  · obtain ⟨hlower, hupper⟩ := hmark rfl
    rw [parseExponent, peek_eq, hdrop, List.nil_append, if_neg (not_or.2 ⟨hlower, hupper⟩)]
    rfl
  · obtain ⟨hpeek, hdrop⟩ := peek_of_drop hdrop
    have hletter : peek source pos = some (ascii 'e') ∨ peek source pos = some (ascii 'E') := by
      rw [hpeek]
      rcases hletter with rfl | rfl
      · exact .inl rfl
      · exact .inr rfl
    rw [List.append_eq, List.append_assoc] at hdrop
    rw [parseExponent, if_pos hletter, peek_eq, hdrop, List.length_cons]
    rcases hsign with rfl | rfl | rfl
    · cases digits with
      | nil => exact absurd rfl hdigits.1
      | cons byte digits =>
        have hdigit := hdigits.2 byte List.mem_cons_self
        have hne : ∀ {sign : UInt8}, isDigit sign = false →
            ([] ++ (byte :: digits ++ tail)).head? ≠ some sign := by
          rintro sign hsign hhead
          rw [← Option.some.inj hhead, hdigit] at hsign
          cases hsign
        rw [if_neg (not_or.2 ⟨hne (by decide), hne (by decide)⟩),
          parseDigits_complete hdigits htail hdrop, List.nil_append, Nat.add_assoc, Nat.add_comm 1]
    · rw [if_pos (.inl rfl), parseDigits_complete hdigits htail (peek_of_drop hdrop).2,
        List.length_append, List.length_singleton]
      congr 1
      omega
    · rw [if_pos (.inr rfl), parseDigits_complete hdigits htail (peek_of_drop hdrop).2,
        List.length_append, List.length_singleton]
      congr 1
      omega

section

variable {parseF64 : List UInt8 → Option Binary64} {floatValue : List UInt8 → Binary64} {limit : ℤ}

/-- The parts of a number are read up to something that does not continue it. -/
lemma parseNumber_parts {minus digits fraction exponent rest : List UInt8}
    (hminus : minus = [] ∨ minus = [ascii '-']) (hdigits : IntText digits)
    (hfraction : fraction = [] ∨ FractionText fraction)
    (hexponent : exponent = [] ∨ ExponentText exponent) (hrest : HeadNot continuesNumber rest)
    (hdrop : source.drop pos = minus ++ digits ++ fraction ++ exponent ++ rest) :
    parseNumber source parseF64 limit pos =
      numberNode parseF64 limit (minus ++ digits ++ fraction ++ exponent)
        (pos + (minus ++ digits ++ fraction ++ exponent).length) := by
  -- what stands behind the exponent, the fraction and the digits
  have hrestDigit : HeadNot isDigit rest :=
    fun byte hbyte => (continuesNumber_eq_false (hrest byte hbyte)).1
  have hexponentTail : HeadNot isDigit (exponent ++ rest) ∧
      (exponent ++ rest).head? ≠ some (ascii '.') := by
    rcases hexponent with rfl | ⟨letter, sign, others, hletter, -, -, rfl⟩
    · exact ⟨hrestDigit, fun hhead => (continuesNumber_eq_false (hrest _ hhead)).2.1 rfl⟩
    · rcases hletter with rfl | rfl
      · exact ⟨headNot_cons (by decide), by simp [ascii]⟩
      · exact ⟨headNot_cons (by decide), by simp [ascii]⟩
  have hfractionTail : HeadNot isDigit (fraction ++ (exponent ++ rest)) := by
    rcases hfraction with rfl | ⟨others, -, rfl⟩
    · exact hexponentTail.1
    · exact headNot_cons (by decide)
  have hdigitsHead : (digits ++ (fraction ++ (exponent ++ rest))).head? ≠ some (ascii '-') := by
    cases digits with
    | nil => exact absurd rfl hdigits.1.1
    | cons byte digits =>
      intro hhead
      have hdigit := hdigits.1.2 byte List.mem_cons_self
      rw [Option.some.inj hhead] at hdigit
      exact absurd hdigit (by decide)
  simp only [List.append_assoc] at hdrop
  have hmark : exponent = [] → rest.head? ≠ some (ascii 'e') ∧ rest.head? ≠ some (ascii 'E') :=
    fun _ => ⟨fun hhead => (continuesNumber_eq_false (hrest _ hhead)).2.2.1 rfl,
      fun hhead => (continuesNumber_eq_false (hrest _ hhead)).2.2.2 rfl⟩
  have hint := drop_add hdrop
  have hfrac := drop_add hint
  have hexp := drop_add hfrac
  rw [parseNumber, parseMinus_complete hminus hdigitsHead hdrop,
    parseIntPart_complete hdigits hfractionTail hint]
  show (parseFraction source _ >>= _) = _
  rw [parseFraction_complete hfraction hexponentTail.1 (fun _ => hexponentTail.2) hfrac]
  show (parseExponent source _ >>= _) = _
  rw [parseExponent_complete hexponent hrestDigit hmark hexp]
  show numberNode parseF64 limit _ _ = _
  have hlength : pos + minus.length + digits.length + fraction.length + exponent.length =
      pos + (minus ++ digits ++ fraction ++ exponent).length := by
    simp only [List.length_append]
    omega
  rw [hlength, Nat.add_sub_cancel_left, hdrop]
  congr 1
  simp only [← List.append_assoc]
  exact List.take_left

lemma parseNumber_complete (hparse : ParsesFloats floatValue parseF64) {text rest : List UInt8}
    {node : JsonNode}
    (h : NumberText floatValue limit text node) (hrest : HeadNot continuesNumber rest)
    (hdrop : source.drop pos = text ++ rest) :
    Reads source (parseNumber source parseF64 limit pos) node rest := by
  refine ⟨pos + text.length, ?_, drop_add hdrop⟩
  cases h with
  | @integer minus digits hminus hdigits hlimit =>
    have hparts := @parseNumber_parts source pos parseF64 limit minus digits [] [] rest hminus
      hdigits (.inl rfl) (.inl rfl) hrest
    simp only [List.append_nil] at hparts
    rw [hparts hdrop, numberNode_integer hminus hdigits.1, integerNode]
    rcases hlimit with hsome | hlimit
    · obtain ⟨value, hvalue⟩ := Option.isSome_iff_exists.1 hsome
      rw [hvalue]
    · rw [hlimit]
      cases parseI64 (integerValue minus digits) with
      | some value => rfl
      | none => rfl
  | float hfloat =>
    have hvalue := hparse text hfloat
    obtain ⟨minus, digits, fraction, exponent, hminus, hdigits, hfraction, hexponent, hne, rfl⟩ :=
      hfloat
    rw [parseNumber_parts hminus hdigits hfraction hexponent hrest hdrop,
      numberNode_float ((mark_iff hminus hdigits.1 hfraction hexponent).2 hne), hvalue]

/-! ## Values -/

lemma ws_refl (text : List UInt8) : Ws text text := by
  refine ⟨[], ?_, rfl⟩
  intro byte hbyte
  cases hbyte

/-- White space does not continue a number. -/
lemma continuesNumber_ws {byte : UInt8} (h : isWs byte = true) : continuesNumber byte = false := by
  simp only [isWs, decide_eq_true_eq] at h
  rcases h with rfl | rfl | rfl | rfl <;> decide

lemma headNot_of_ws {text rest : List UInt8} (h : Ws text rest)
    (hrest : HeadNot continuesNumber rest) : HeadNot continuesNumber text := by
  obtain ⟨spaces, hspaces, rfl⟩ := h
  cases spaces with
  | nil => exact hrest
  | cons byte spaces => exact headNot_cons (continuesNumber_ws (hspaces byte List.mem_cons_self))

/-- A value starts with a byte of its own. -/
def StartsValue (text : List UInt8) : Prop :=
  ∃ byte rest, text = byte :: rest ∧ isWs byte = false ∧ byte ≠ ascii ']' ∧ byte ≠ ascii '}'

lemma digit_starts {byte : UInt8} (h : isDigit byte = true) :
    isWs byte = false ∧ byte ≠ ascii ']' ∧ byte ≠ ascii '}' := by
  refine ⟨?_, ?_, ?_⟩
  · by_contra hws
    rw [Bool.not_eq_false, isWs, decide_eq_true_eq] at hws
    rcases hws with rfl | rfl | rfl | rfl <;> exact absurd h (by decide)
  · rintro rfl
    exact absurd h (by decide)
  · rintro rfl
    exact absurd h (by decide)

/-- A number starts with a digit, or with a sign and a digit. -/
def StartsNumber (text : List UInt8) : Prop :=
  ∃ byte others, text = byte :: others ∧
    (isDigit byte = true ∨ byte = ascii '-' ∧ ∃ digit, others.head? = some digit ∧
      isDigit digit = true)

lemma startsNumber_parts {minus digits tail : List UInt8}
    (hminus : minus = [] ∨ minus = [ascii '-']) (hdigits : IntText digits) :
    StartsNumber (minus ++ digits ++ tail) := by
  cases digits with
  | nil => exact absurd rfl hdigits.1.1
  | cons digit digits =>
    have hdigit := hdigits.1.2 digit List.mem_cons_self
    rcases hminus with rfl | rfl
    · exact ⟨digit, _, rfl, .inl hdigit⟩
    · exact ⟨ascii '-', _, rfl, .inr ⟨rfl, digit, rfl, hdigit⟩⟩

lemma numberText_starts {text : List UInt8} {node : JsonNode}
    (h : NumberText floatValue limit text node) : StartsNumber text := by
  cases h with
  | integer hminus hdigits =>
    have hstarts := @startsNumber_parts _ _ [] hminus hdigits
    rwa [List.append_nil] at hstarts
  | float hfloat =>
    obtain ⟨minus, digits, fraction, exponent, hminus, hdigits, -, -, -, rfl⟩ := hfloat
    have hstarts := @startsNumber_parts _ _ (fraction ++ exponent) hminus hdigits
    rwa [← List.append_assoc] at hstarts

lemma valueText_starts {text rest : List UInt8} {node : JsonNode}
    (h : ValueText floatValue limit text node rest) : StartsValue text := by
  cases h with
  | literal h =>
    simp only [literals, List.mem_cons, Prod.mk.injEq, List.not_mem_nil, or_false] at h
    rcases h with ⟨rfl, -⟩ | ⟨rfl, -⟩ | ⟨rfl, -⟩ | ⟨rfl, -⟩ | ⟨rfl, -⟩ | ⟨rfl, -⟩
    iterate 6 exact ⟨_, _, rfl, by decide, by decide, by decide⟩
  | string => exact ⟨_, _, rfl, by decide, by decide, by decide⟩
  | number h =>
    obtain ⟨byte, others, rfl, hdigit | ⟨rfl, -⟩⟩ := numberText_starts h
    · exact ⟨byte, _, rfl, digit_starts hdigit⟩
    · exact ⟨_, _, rfl, by decide, by decide, by decide⟩
  | emptyArray => exact ⟨_, _, rfl, by decide, by decide, by decide⟩
  | array => exact ⟨_, _, rfl, by decide, by decide, by decide⟩
  | emptyObject => exact ⟨_, _, rfl, by decide, by decide, by decide⟩
  | object => exact ⟨_, _, rfl, by decide, by decide, by decide⟩

lemma StartsValue.noWs {text : List UInt8} (h : StartsValue text) : HeadNot isWs text := by
  obtain ⟨byte, rest, rfl, hws, -⟩ := h
  exact headNot_cons hws

/-- A parser of values reads every value whose nesting is below its levels. -/
def ReadsValues (floatValue : List UInt8 → Binary64) (limit : ℤ) (source : List UInt8)
    (value : ℕ → Except JsonFault (JsonNode × ℕ)) (levels : ℕ) : Prop :=
  ∀ {pos : ℕ} {text first rest : List UInt8} {node : JsonNode}, source.drop pos = text →
    Ws text first → ValueText floatValue limit first node rest → node.nesting < levels →
    HeadNot continuesNumber rest → Reads source (value pos) node rest

variable {value : ℕ → Except JsonFault (JsonNode × ℕ)} {levels : ℕ}

/-- White space in front of a byte is skipped. -/
lemma peek_skipWs {text rest : List UInt8} {byte : UInt8} (hdrop : source.drop pos = text)
    (hws : Ws text (byte :: rest)) (hbyte : isWs byte = false) :
    peek source (skipWs source pos) = some byte ∧ source.drop (skipWs source pos + 1) = rest :=
  peek_of_drop (drop_skipWs_of_ws hdrop hws (headNot_cons hbyte))

/-- The first byte of a value. -/
lemma peek_value {text first rest : List UInt8} {node : JsonNode} (hdrop : source.drop pos = text)
    (hws : Ws text first) (hvalue : ValueText floatValue limit first node rest) :
    ∃ byte, peek source (skipWs source pos) = some byte ∧ byte ≠ ascii ']' := by
  have hstarts := valueText_starts hvalue
  have hfirst := drop_skipWs_of_ws hdrop hws hstarts.noWs
  obtain ⟨byte, tail, rfl, -, hbracket, -⟩ := hstarts
  exact ⟨byte, (peek_of_drop hfirst).1, hbracket⟩

lemma peek_elements {text rest : List UInt8} {nodes : List JsonNode}
    (hdrop : source.drop pos = text) (h : ElementsText floatValue limit text nodes rest) :
    ∃ byte, peek source (skipWs source pos) = some byte ∧ byte ≠ ascii ']' := by
  cases h with
  | last hws hvalue => exact peek_value hdrop hws hvalue
  | more hws hvalue => exact peek_value hdrop hws hvalue

/-- One round of the loop of an array: the value, and then the rest of the round at the byte behind
it. -/
lemma parseElements_round (hreads : ReadsValues floatValue limit source value levels)
    (haccepts : AcceptsValues floatValue limit source value) {trailing : Option ℕ}
    {values : List JsonNode} {node : JsonNode} {text first behind others : List UInt8}
    {byte : UInt8} (hdrop : source.drop pos = text) (hws : Ws text first)
    (hvalue : ValueText floatValue limit first node behind) (hnode : node.nesting < levels)
    (hbehind : Ws behind (byte :: others)) (hbyte : isWs byte = false)
    (hcontinues : continuesNumber byte = false) (fuel : ℕ) :
    ∃ comma, skipWs source pos ≤ comma ∧ peek source comma = some byte ∧
      source.drop (comma + 1) = others ∧
      parseElements source value (fuel + 1) trailing values (skipWs source pos) =
        if byte = ascii ',' then
          let next := skipWs source (comma + 1)
          if peek source next = none then jsonError "Expecting value" next
          else parseElements source value fuel (some comma) (values ++ [node]) next
        else if byte = ascii ']' then .ok (values ++ [node], comma + 1)
        else jsonError "Expecting ',' delimiter" comma := by
  have hfirst := drop_skipWs_of_ws hdrop hws (valueText_starts hvalue).noWs
  obtain ⟨next, hread, hnext⟩ := hreads hfirst (ws_refl _) hvalue hnode
    (headNot_of_ws hbehind (headNot_cons hcontinues))
  obtain ⟨hpeek, hothers⟩ := peek_skipWs hnext hbehind hbyte
  obtain ⟨-, -, -, hmoves⟩ := haccepts hread
  refine ⟨skipWs source next, hmoves.le.trans moves_skipWs.le, hpeek, hothers, ?_⟩
  have hend : ¬peek source (skipWs source pos) = some (ascii ']') := by
    obtain ⟨start, hstart, hbracket⟩ := peek_value hdrop hws hvalue
    rw [hstart]
    exact fun heq => hbracket (Option.some.inj heq)
  rw [parseElements_succ, separatedRound_of_item hend hread hpeek]

lemma parseElements_complete (hreads : ReadsValues floatValue limit source value levels)
    (haccepts : AcceptsValues floatValue limit source value) {fuel : ℕ} {trailing : Option ℕ}
    {values nodes : List JsonNode} {text rest : List UInt8}
    (h : ElementsText floatValue limit text nodes rest) (hnesting : nestingOfValues nodes < levels)
    (hdrop : source.drop pos = text) (hfuel : source.length - pos < fuel) :
    Reads source (parseElements source value fuel trailing values (skipWs source pos))
      (values ++ nodes) rest := by
  induction nodes generalizing pos fuel trailing values text with
  | nil => cases h
  | cons node nodes ih =>
    obtain ⟨fuel, rfl⟩ : ∃ count, fuel = count + 1 := ⟨fuel - 1, by omega⟩
    have hnode : node.nesting < levels := lt_of_le_of_lt (le_max_left _ _) hnesting
    have hnodes : nestingOfValues nodes < levels := lt_of_le_of_lt (le_max_right _ _) hnesting
    cases h with
    | last hws hvalue hend =>
      obtain ⟨comma, -, -, hothers, hstep⟩ := parseElements_round hreads haccepts hdrop hws hvalue
        hnode hend (by decide) (by decide) fuel
      rw [hstep, if_neg (by decide), if_pos rfl]
      exact ⟨comma + 1, rfl, hothers⟩
    | more hws hvalue hcomma h =>
      obtain ⟨comma, hle, hpeek, hothers, hstep⟩ := parseElements_round hreads haccepts hdrop hws
        hvalue hnode hcomma (by decide) (by decide) fuel
      have hlt := (List.getElem?_eq_some_iff.1 hpeek).1
      have hpos : pos ≤ comma := le_trans moves_skipWs.le hle
      have hsome : ¬peek source (skipWs source (comma + 1)) = none := by
        obtain ⟨byte, hbyte, -⟩ := peek_elements hothers h
        rw [hbyte]
        exact Option.some_ne_none _
      rw [hstep, if_pos rfl]
      dsimp only
      rw [if_neg hsome]
      have hread : Reads source (parseElements source value fuel (some comma) (values ++ [node])
          (skipWs source (comma + 1))) (values ++ [node] ++ nodes) rest :=
        ih h hnodes hothers (by omega)
      rwa [List.append_assoc, List.singleton_append] at hread

lemma memberText_starts {text rest : List UInt8} {member : String × JsonNode}
    (h : MemberText floatValue limit text member rest) :
    ∃ key, Ws text (ascii '"' :: key) := by
  cases h with
  | member hws => exact ⟨_, hws⟩

lemma parseMember_complete (hreads : ReadsValues floatValue limit source value levels)
    {member : String × JsonNode} {text rest : List UInt8}
    (h : MemberText floatValue limit text member rest) (hnesting : member.2.nesting < levels)
    (hrest : HeadNot continuesNumber rest) (hdrop : source.drop pos = text) :
    Reads source (parseMember source value (skipWs source pos)) member rest := by
  cases h with
  | member hws hkey hcolon hspace hvalue =>
    have hquote := drop_skipWs_of_ws hdrop hws (headNot_cons (by decide))
    obtain ⟨next, hread, hnext⟩ := parseString_complete hkey hquote
    obtain ⟨hpeek, hbehind⟩ := peek_skipWs hnext hcolon (by decide)
    have hfirst := drop_skipWs_of_ws hbehind hspace (valueText_starts hvalue).noWs
    have hsome : ¬peek source (skipWs source (skipWs source next + 1)) = none := by
      obtain ⟨byte, hbyte, -⟩ := peek_value hbehind hspace hvalue
      rw [hbyte]
      exact Option.some_ne_none _
    rw [parseMember, if_neg (not_not.2 (peek_of_drop hquote).1), hread]
    show Reads source (expect source (ascii ':') _ (skipWs source next) >>= _) _ _
    rw [expect, if_pos hpeek]
    show Reads source (if peek source (skipWs source (skipWs source next + 1)) = none then _
      else _) _ _
    rw [if_neg hsome]
    exact (hreads hfirst (ws_refl _) hvalue hnesting hrest).bind fun last hlast =>
      ⟨last, rfl, hlast⟩

lemma peek_members {text rest : List UInt8} {members : List (String × JsonNode)}
    (hdrop : source.drop pos = text) (h : MembersText floatValue limit text members rest) :
    peek source (skipWs source pos) = some (ascii '"') := by
  obtain ⟨key, hws⟩ : ∃ key, Ws text (ascii '"' :: key) := by
    cases h with
    | last hmember => exact memberText_starts hmember
    | more hmember => exact memberText_starts hmember
  exact (peek_skipWs hdrop hws (by decide)).1

/-- One round of the loop of an object: the member, and then the rest of the round at the byte
behind it. -/
lemma parseMembers_round (hreads : ReadsValues floatValue limit source value levels)
    (haccepts : AcceptsValues floatValue limit source value) {trailing : Option ℕ}
    {members : List (String × JsonNode)} {member : String × JsonNode}
    {text behind others : List UInt8} {byte : UInt8} (hdrop : source.drop pos = text)
    (htext : MemberText floatValue limit text member behind) (hmember : member.2.nesting < levels)
    (hbehind : Ws behind (byte :: others)) (hbyte : isWs byte = false)
    (hcontinues : continuesNumber byte = false) (fuel : ℕ) :
    ∃ comma, skipWs source pos ≤ comma ∧ peek source comma = some byte ∧
      source.drop (comma + 1) = others ∧
      parseMembers source value (fuel + 1) trailing members (skipWs source pos) =
        if byte = ascii ',' then
          let next := skipWs source (comma + 1)
          if peek source next = none then
            jsonError "Expecting property name enclosed in double quotes" next
          else parseMembers source value fuel (some comma) (members ++ [member]) next
        else if byte = ascii '}' then .ok (members ++ [member], comma + 1)
        else jsonError "Expecting ',' delimiter" comma := by
  obtain ⟨next, hread, hnext⟩ := parseMember_complete hreads htext hmember
    (headNot_of_ws hbehind (headNot_cons hcontinues)) hdrop
  obtain ⟨hpeek, hothers⟩ := peek_skipWs hnext hbehind hbyte
  have hmoves := (parseMember_sound haccepts hread).2
  refine ⟨skipWs source next, hmoves.le.trans moves_skipWs.le, hpeek, hothers, ?_⟩
  have hend : ¬peek source (skipWs source pos) = some (ascii '}') := by
    obtain ⟨key, hws⟩ := memberText_starts htext
    rw [(peek_skipWs hdrop hws (by decide)).1]
    decide
  rw [parseMembers_succ, separatedRound_of_item hend hread hpeek]

lemma parseMembers_complete (hreads : ReadsValues floatValue limit source value levels)
    (haccepts : AcceptsValues floatValue limit source value) {fuel : ℕ} {trailing : Option ℕ}
    {values members : List (String × JsonNode)} {text rest : List UInt8}
    (h : MembersText floatValue limit text members rest)
    (hnesting : nestingOfMembers members < levels)
    (hdrop : source.drop pos = text) (hfuel : source.length - pos < fuel) :
    Reads source (parseMembers source value fuel trailing values (skipWs source pos))
      (values ++ members) rest := by
  induction members generalizing pos fuel trailing values text with
  | nil => cases h
  | cons member members ih =>
    obtain ⟨fuel, rfl⟩ : ∃ count, fuel = count + 1 := ⟨fuel - 1, by omega⟩
    have hmember : member.2.nesting < levels := lt_of_le_of_lt (le_max_left _ _) hnesting
    have hmembers : nestingOfMembers members < levels := lt_of_le_of_lt (le_max_right _ _) hnesting
    cases h with
    | last htext hend =>
      obtain ⟨comma, -, -, hothers, hstep⟩ := parseMembers_round hreads haccepts hdrop htext hmember
        hend (by decide) (by decide) fuel
      rw [hstep, if_neg (by decide), if_pos rfl]
      exact ⟨comma + 1, rfl, hothers⟩
    | more htext hcomma h =>
      obtain ⟨comma, hle, hpeek, hothers, hstep⟩ := parseMembers_round hreads haccepts hdrop htext
        hmember hcomma (by decide) (by decide) fuel
      have hlt := (List.getElem?_eq_some_iff.1 hpeek).1
      have hpos : pos ≤ comma := le_trans moves_skipWs.le hle
      have hsome : ¬peek source (skipWs source (comma + 1)) = none := by
        rw [peek_members hothers h]
        exact Option.some_ne_none _
      rw [hstep, if_pos rfl]
      dsimp only
      rw [if_neg hsome]
      have hread : Reads source (parseMembers source value fuel (some comma) (values ++ [member])
          (skipWs source (comma + 1))) (values ++ [member] ++ members) rest :=
        ih h hmembers hothers (by omega)
      rwa [List.append_assoc, List.singleton_append] at hread

lemma parseArray_complete (hreads : ReadsValues floatValue limit source value levels)
    (haccepts : AcceptsValues floatValue limit source value) {text rest : List UInt8}
    {nodes : List JsonNode} (h : ElementsText floatValue limit text nodes rest)
    (hnesting : nestingOfValues nodes < levels) (hdrop : source.drop pos = ascii '[' :: text) :
    Reads source (parseArray source value pos) (.array nodes) rest := by
  obtain ⟨hpeek, hdrop⟩ := peek_of_drop hdrop
  have hend : ¬peek source (skipWs source (pos + 1)) = some (ascii ']') := by
    obtain ⟨byte, hbyte, hbracket⟩ := peek_elements hdrop h
    rw [hbyte]
    exact fun heq => hbracket (Option.some.inj heq)
  rw [parseArray, expect, if_pos hpeek]
  show Reads source (if peek source (skipWs source (pos + 1)) = some (ascii ']') then _ else _) _ _
  rw [if_neg hend]
  have hread : Reads source (parseElements source value (source.length + 1) none []
      (skipWs source (pos + 1))) ([] ++ nodes) rest :=
    parseElements_complete hreads haccepts h hnesting hdrop (by omega)
  exact hread.map JsonNode.array

lemma parseObject_complete (hreads : ReadsValues floatValue limit source value levels)
    (haccepts : AcceptsValues floatValue limit source value) {text rest : List UInt8}
    {members : List (String × JsonNode)} (h : MembersText floatValue limit text members rest)
    (hnesting : nestingOfMembers members < levels) (hdrop : source.drop pos = ascii '{' :: text) :
    Reads source (parseObject source value pos) (.object members) rest := by
  obtain ⟨hpeek, hdrop⟩ := peek_of_drop hdrop
  have hend : ¬peek source (skipWs source (pos + 1)) = some (ascii '}') := by
    rw [peek_members hdrop h]
    decide
  rw [parseObject, expect, if_pos hpeek]
  show Reads source (if peek source (skipWs source (pos + 1)) = some (ascii '}') then _ else _) _ _
  rw [if_neg hend]
  have hread : Reads source (parseMembers source value (source.length + 1) none []
      (skipWs source (pos + 1))) ([] ++ members) rest :=
    parseMembers_complete hreads haccepts h hnesting hdrop (by omega)
  exact hread.map JsonNode.object

lemma parseLiteral_complete {text rest : List UInt8} {node : JsonNode}
    (hdrop : source.drop pos = text ++ rest) :
    Reads source (parseLiteral source text node pos) node rest := by
  refine ⟨pos + text.length, ?_, drop_add hdrop⟩
  rw [parseLiteral, if_pos]
  rw [startsWith_iff, drop_add hdrop]
  exact hdrop

/-- Only the literal itself starts like `-Infinity`. -/
lemma not_startsWith {text : List UInt8} (hdrop : source.drop pos = text)
    (h : ∀ tail, text ≠ ascii '-' :: ascii 'I' :: tail) :
    ¬startsWith source (asciiBytes "-Infinity") pos = true := by
  intro hstarts
  rw [startsWith_iff, hdrop] at hstarts
  exact h _ hstarts

/-- What starts like a number is read as one. -/
lemma parseValue_number {text rest : List UInt8} (h : StartsNumber text)
    (hdrop : source.drop (skipWs source pos) = text ++ rest) :
    parseValue source parseF64 limit (levels + 1) pos =
      parseNumber source parseF64 limit (skipWs source pos) := by
  obtain ⟨byte, others, rfl, hdigit⟩ := h
  have hne : ∀ tail, byte :: others ++ rest ≠ ascii '-' :: ascii 'I' :: tail := by
    intro tail heq
    rcases hdigit with hdigit | ⟨-, digit, hhead, hdigit⟩
    · rw [(List.cons.inj heq).1] at hdigit
      exact absurd hdigit (by decide)
    · cases others with
      | nil => cases hhead
      | cons second others =>
        obtain rfl := Option.some.inj hhead
        rw [(List.cons.inj (List.cons.inj heq).2).1] at hdigit
        exact absurd hdigit (by decide)
  have hother : ∀ {other : UInt8}, isDigit other = false → other ≠ ascii '-' → byte ≠ other := by
    rintro other hother hminus rfl
    rcases hdigit with hdigit | ⟨rfl, -⟩
    · rw [hdigit] at hother
      cases hother
    · exact hminus rfl
  rw [parseValue]
  dsimp only
  rw [if_neg (not_startsWith hdrop hne), (peek_of_drop hdrop).1]
  dsimp only
  rw [if_neg (hother (by decide) (by decide)), if_neg (hother (by decide) (by decide)),
    if_neg (hother (by decide) (by decide)), if_neg (hother (by decide) (by decide)),
    if_neg (hother (by decide) (by decide)), if_neg (hother (by decide) (by decide)),
    if_neg (hother (by decide) (by decide)), if_neg (hother (by decide) (by decide)), if_pos]
  rcases hdigit with hdigit | ⟨hminus, -⟩
  · exact .inr hdigit
  · exact .inl hminus

/-- What the grammar derives as a value is read, at every level above its nesting. -/
lemma parseValue_complete (hparse : ParsesFloats floatValue parseF64) (levels : ℕ) :
    ReadsValues floatValue limit source (parseValue source parseF64 limit levels) levels := by
  induction levels with
  | zero =>
    intro pos text first rest node _ _ _ hnesting
    exact absurd hnesting (Nat.not_lt_zero _)
  | succ levels ih =>
    intro pos text first rest node hdrop hws hvalue hnesting hrest
    have haccepts :
        AcceptsValues floatValue limit source (parseValue source parseF64 limit levels) :=
      parseValue_sound hparse levels
    have hfirst := drop_skipWs_of_ws hdrop hws (valueText_starts hvalue).noWs
    by_cases hnumber : ∃ text, NumberText floatValue limit text node ∧ first = text ++ rest
    · obtain ⟨text, hnumber, rfl⟩ := hnumber
      rw [parseValue_number (numberText_starts hnumber) hfirst]
      exact parseNumber_complete hparse hnumber hrest hfirst
    rw [parseValue]
    generalize skipWs source pos = pos at hfirst ⊢
    dsimp only
    -- the value is not `-Infinity`, and the branch is that of its first byte
    have hbranch : ∀ (byte : UInt8) {tail : List UInt8}, first = byte :: tail →
        (∀ tail, first ≠ ascii '-' :: ascii 'I' :: tail) →
        peek source pos = some byte ∧ source.drop (pos + 1) = tail ∧
          ¬startsWith source (asciiBytes "-Infinity") pos = true := by
      intro byte tail hbyte hne
      have hstarts := not_startsWith hfirst hne
      rw [hbyte] at hfirst
      obtain ⟨hpeek, htail⟩ := peek_of_drop hfirst
      exact ⟨hpeek, htail, hstarts⟩
    have hplain : ∀ {byte : UInt8} {tail : List UInt8}, byte ≠ ascii '-' →
        ∀ tail', byte :: tail ≠ ascii '-' :: ascii 'I' :: tail' :=
      fun hne _ heq => hne (List.cons.inj heq).1
    cases hvalue with
    | literal h =>
      simp only [literals, List.mem_cons, Prod.mk.injEq, List.not_mem_nil, or_false] at h
      rcases h with ⟨rfl, rfl⟩ | ⟨rfl, rfl⟩ | ⟨rfl, rfl⟩ | ⟨rfl, rfl⟩ | ⟨rfl, rfl⟩ | ⟨rfl, rfl⟩
      · obtain ⟨hpeek, -, hstarts⟩ := hbranch (ascii 'n') rfl (hplain (by decide))
        rw [if_neg hstarts, hpeek]
        exact parseLiteral_complete hfirst
      · obtain ⟨hpeek, -, hstarts⟩ := hbranch (ascii 't') rfl (hplain (by decide))
        rw [if_neg hstarts, hpeek]
        exact parseLiteral_complete hfirst
      · obtain ⟨hpeek, -, hstarts⟩ := hbranch (ascii 'f') rfl (hplain (by decide))
        rw [if_neg hstarts, hpeek]
        exact parseLiteral_complete hfirst
      · obtain ⟨hpeek, -, hstarts⟩ := hbranch (ascii 'N') rfl (hplain (by decide))
        rw [if_neg hstarts, hpeek]
        exact parseLiteral_complete hfirst
      · obtain ⟨hpeek, -, hstarts⟩ := hbranch (ascii 'I') rfl (hplain (by decide))
        rw [if_neg hstarts, hpeek]
        exact parseLiteral_complete hfirst
      · rw [if_pos]
        · exact ⟨pos + 9, rfl, drop_add hfirst⟩
        · rw [startsWith_iff, drop_add hfirst]
          exact hfirst
    | string hstring =>
      obtain ⟨hpeek, -, hstarts⟩ := hbranch (ascii '"') rfl (hplain (by decide))
      rw [if_neg hstarts, hpeek]
      exact (parseString_complete hstring hfirst).map JsonNode.string
    | number h => exact absurd ⟨_, h, rfl⟩ hnumber
    | emptyArray h =>
      obtain ⟨hpeek, htail, hstarts⟩ := hbranch (ascii '[') rfl (hplain (by decide))
      obtain ⟨hend, hbehind⟩ := peek_skipWs htail h (by decide)
      rw [if_neg hstarts, hpeek]
      show Reads source (parseArray source _ pos) _ _
      rw [parseArray, expect, if_pos hpeek]
      show Reads source (if peek source (skipWs source (pos + 1)) = some (ascii ']') then _
        else _) _ _
      rw [if_pos hend]
      exact ⟨_, rfl, hbehind⟩
    | array h =>
      obtain ⟨hpeek, -, hstarts⟩ := hbranch (ascii '[') rfl (hplain (by decide))
      rw [if_neg hstarts, hpeek]
      exact parseArray_complete ih haccepts h (Nat.lt_of_succ_lt_succ hnesting) hfirst
    | emptyObject h =>
      obtain ⟨hpeek, htail, hstarts⟩ := hbranch (ascii '{') rfl (hplain (by decide))
      obtain ⟨hend, hbehind⟩ := peek_skipWs htail h (by decide)
      rw [if_neg hstarts, hpeek]
      show Reads source (parseObject source _ pos) _ _
      rw [parseObject, expect, if_pos hpeek]
      show Reads source (if peek source (skipWs source (pos + 1)) = some (ascii '}') then _
        else _) _ _
      rw [if_pos hend]
      exact ⟨_, rfl, hbehind⟩
    | object h =>
      obtain ⟨hpeek, -, hstarts⟩ := hbranch (ascii '{') rfl (hplain (by decide))
      rw [if_neg hstarts, hpeek]
      exact parseObject_complete ih haccepts h (Nat.lt_of_succ_lt_succ hnesting) hfirst

/-- A derivable text is accepted, where the limit is above its nesting. -/
lemma parse_complete (hparse : ParsesFloats floatValue parseF64) {depthLimit : ℕ} {node : JsonNode}
    (h : TextOf floatValue limit source node) (hnesting : node.nesting < depthLimit) :
    parse source parseF64 limit depthLimit = .ok node := by
  obtain ⟨first, behind, hws, hvalue, hend⟩ := h
  have hfirst := drop_skipWs_of_ws (rfl : source.drop 0 = source) hws (valueText_starts hvalue).noWs
  obtain ⟨next, hread, hnext⟩ :=
    parseValue_complete hparse (max depthLimit 1) hfirst (ws_refl _) hvalue
    (lt_of_lt_of_le hnesting (le_max_left _ _)) (headNot_of_ws hend (headNot_nil _))
  obtain ⟨-, -, -, hmoves⟩ := parseValue_sound hparse _ hread
  have hlast := drop_skipWs_of_ws hnext hend (headNot_nil _)
  have hle := moves_skipWs.next_le (hmoves.next_le (moves_skipWs.next_le (Nat.zero_le _)))
  have hlength : skipWs source next = source.length :=
    le_antisymm hle (List.drop_eq_nil_iff.1 hlast)
  rw [parse, hread]
  show (if skipWs source next ≠ source.length then _ else _) = _
  rw [if_neg (not_not.2 hlength)]
  rfl

end

end JsonParser

end Pyrs
