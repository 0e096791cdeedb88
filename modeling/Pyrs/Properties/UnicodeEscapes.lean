import Pyrs.Model.UnicodeEscapes
import Pyrs.Properties.JsonRoundTrip
import Pyrs.Properties.TextCodecs

/-!
# Unicode escapes as Python reads them

The bytes are cut into pieces, of which the codec and Python give each a text or reject it.  The two
results are the same where every piece is kept, and where each of the two rejects a piece.  Encoding
is undone by decoding in any case.
-/

namespace Pyrs

namespace UnicodeEscape

open JsonParser (hexDigit_lt)
open TextCodec (CodecFault ErrorHandler codecError canonicalCodepointForInternalChar)

/-! ## Pieces -/

def unicodeWidth (long : Bool) : ℕ := if long then 8 else 4

inductive Piece where
  | plain (byte : UInt8)
  /-- A backslash at the end. -/
  | trailing
  /-- An escape of one letter, by what it stands for. -/
  | letter (byte : UInt8)
  | hex (digits : List UInt8) (hdigits : digits.length ≤ 2)
  /-- An escape with a code point, of four or of eight digits. -/
  | unicode (long : Bool) (digits : List UInt8) (hdigits : digits.length ≤ unicodeWidth long)
  | octal (digits : List UInt8)
  /-- The beginning of a character by its name in braces. -/
  | named
  | unknown (byte : UInt8) (hbyte : byte ≠ ascii '\\')

/-- A name in braces, which is not empty. -/
def opensName (bytes : List UInt8) : Bool :=
  bytes.head? = some (ascii '\x7b') ∧ bytes[1]? ≠ some (ascii '\x7d') ∧ ascii '\x7d' ∈ bytes

/-- The piece of an escape, and how many of the bytes behind it belong to it. -/
def escapePiece (esc : UInt8) (bytes : List UInt8) : Piece × ℕ :=
  if hesc : esc = ascii '\\' then (.letter esc, 0)
  else
    match letterEscape esc with
    | some byte => (.letter byte, 0)
    | none =>
      if esc = ascii 'x' then (.hex (bytes.take 2) (List.length_take_le _ _), 2)
      else if esc = ascii 'u' then (.unicode false (bytes.take 4) (List.length_take_le 4 bytes), 4)
      else if esc = ascii 'U' then (.unicode true (bytes.take 8) (List.length_take_le 8 bytes), 8)
      else if isOctal esc then
        let digits := (bytes.take 2).takeWhile isOctal
        (.octal (esc :: digits), digits.length)
      else if esc = ascii 'N' ∧ opensName bytes then (.named, 0)
      else (.unknown esc hesc, 0)

def pieces : List UInt8 → List Piece
  | [] => []
  | [byte] => [if byte = ascii '\\' then .trailing else .plain byte]
  | byte :: esc :: bytes =>
    if byte ≠ ascii '\\' then .plain byte :: pieces (esc :: bytes)
    else (escapePiece esc bytes).1 :: pieces (bytes.drop (escapePiece esc bytes).2)
termination_by bytes => bytes.length
decreasing_by
  · exact Nat.lt_succ_self _
  · simp only [List.length_drop, List.length_cons]
    omega

def octalNumber (digits : List UInt8) : ℕ :=
  digits.foldl (fun value byte => value * 8 + (byte.toNat - 48)) 0

/-- The code points that Python gives for a piece, unless it rejects it. -/
def Piece.pythonText : Piece → Option (List ℕ)
  | plain byte | letter byte => some [byte.toNat]
  | trailing | named => none
  | hex digits _ => if digits.length = 2 then (hexNumber digits).map ([·]) else none
  | unicode long digits _ =>
    if digits.length = unicodeWidth long then
      ((hexNumber digits).filter (· < 0x110000)).map ([·])
    else none
  | octal digits => some [octalNumber digits]
  | unknown byte _ =>
    if byte = ascii 'N' then none
    else if byte = ascii '\n' then some []
    else some [0x5C, byte.toNat]

/-- The text that the codec gives for a piece, unless it rejects it. -/
def Piece.codeText : Piece → Option (List Char)
  | plain byte | letter byte | unknown byte _ => some [byteChar byte]
  | trailing => some ['\\']
  | hex digits _ => (hexEscape digits).map ([·])
  | unicode long digits _ => (unicodeEscape (unicodeWidth long) digits).map ([·])
  | octal digits => some [byteChar (UInt8.ofNat (octalNumber digits &&& 0xFF))]
  | named => some [byteChar (ascii 'N')]

/-- The text of pieces, unless one of them is rejected. -/
def textOf {α : Type} (text : Piece → Option (List α)) : List Piece → Option (List α)
  | [] => some []
  | piece :: later => do return (← text piece) ++ (← textOf text later)

/-! ## The codec reads pieces -/

def strictResult {α : Type} : Option α → Except CodecFault α
  | some value => .ok value
  | none => codecError "unicode escape decode failed"

lemma octalDigit_spec {byte : UInt8} (h : isOctal byte = true) :
    (byte - ascii '0').toNat = byte.toNat - 48 ∧ byte.toNat - 48 < 8 := by
  obtain ⟨hlow, hhigh⟩ := of_decide_eq_true h
  have hzero : (ascii '0').toNat = 48 := rfl
  have hseven : (ascii '7').toNat = 55 := rfl
  rw [UInt8.toNat_sub_of_le _ _ hlow, hzero]
  rw [UInt8.le_iff_toNat_le] at hhigh
  omega

lemma octalLoop_eq (width value : ℕ) (bytes : List UInt8) :
    octalLoop width value bytes =
      (((bytes.take width).takeWhile isOctal).foldl
        (fun value byte => value * 8 + (byte.toNat - 48)) value,
        ((bytes.take width).takeWhile isOctal).length) := by
  induction width generalizing value bytes with
  | zero => rfl
  | succ width ih =>
    cases bytes with
    | nil => rfl
    | cons next bytes =>
      rw [octalLoop, List.take_succ_cons]
      by_cases hoctal : isOctal next = true
      · have hdigit : value <<< 3 ||| (next - ascii '0').toNat = value * 8 + (next.toNat - 48) := by
          obtain ⟨hvalue, hlt⟩ := octalDigit_spec hoctal
          rw [hvalue, ← Nat.shiftLeft_add_eq_or_of_lt hlt, Nat.shiftLeft_eq]
        rw [if_pos hoctal, ih, List.takeWhile_cons_of_pos hoctal, hdigit]
        rfl
      · rw [if_neg hoctal, List.takeWhile_cons_of_neg hoctal]
        rfl

lemma hexEscape_take (bytes : List UInt8) : hexEscape (bytes.take 2) = hexEscape bytes := by
  match bytes with
  | [] | [_] | _ :: _ :: _ => rfl

lemma unicodeEscape_take (width : ℕ) (bytes : List UInt8) :
    unicodeEscape width (bytes.take width) = unicodeEscape width bytes := by
  rw [unicodeEscape, unicodeEscape, List.length_take, List.take_take, Nat.min_self]
  exact if_congr (by omega) rfl rfl

lemma fixedEscape_strict (width : ℕ) (char : Option Char) :
    fixedEscape .strict width char = strictResult (char.map fun char => ([char], width)) := by
  cases char <;> rfl

lemma escapeText_strict (esc : UInt8) (bytes : List UInt8) :
    escapeText .strict esc bytes = strictResult
      ((escapePiece esc bytes).1.codeText.map (·, (escapePiece esc bytes).2)) := by
  unfold escapeText escapePiece
  by_cases hesc : esc = ascii '\\'
  · rw [dif_pos hesc, hesc]
    rfl
  rw [dif_neg hesc]
  cases letterEscape esc with
  | some byte => rfl
  | none =>
    dsimp only
    split_ifs with hx hu hlong hoctal hnamed
    · rw [fixedEscape_strict, Piece.codeText, hexEscape_take]
      cases hexEscape bytes <;> rfl
    · have htake : unicodeEscape (unicodeWidth false) (bytes.take 4) = unicodeEscape 4 bytes :=
        unicodeEscape_take 4 bytes
      dsimp only [Piece.codeText]
      rw [fixedEscape_strict, htake]
      cases unicodeEscape 4 bytes <;> rfl
    · have htake : unicodeEscape (unicodeWidth true) (bytes.take 8) = unicodeEscape 8 bytes :=
        unicodeEscape_take 8 bytes
      dsimp only [Piece.codeText]
      rw [fixedEscape_strict, htake]
      cases unicodeEscape 8 bytes <;> rfl
    · rw [octalLoop_eq, (octalDigit_spec hoctal).1]
      dsimp only
      rw [Piece.codeText, octalNumber, List.foldl_cons, Nat.zero_mul, Nat.zero_add]
      rfl
    · rw [hnamed.1]
      rfl
    · rfl

theorem decode_strict (bytes : List UInt8) :
    decodeUnicodeEscape .strict bytes = strictResult (textOf Piece.codeText (pieces bytes)) := by
  induction bytes using pieces.induct with
  | case1 =>
    rw [decodeUnicodeEscape, pieces]
    rfl
  | case2 byte =>
    rw [decodeUnicodeEscape, pieces]
    split
    · next hbyte =>
      rw [hbyte]
      rfl
    · rfl
  | case3 byte esc bytes hbyte ih =>
    rw [decodeUnicodeEscape, if_pos hbyte, pieces, if_pos hbyte, ih, textOf]
    cases textOf Piece.codeText (pieces (esc :: bytes)) <;> rfl
  | case4 byte esc bytes hbyte ih =>
    rw [decodeUnicodeEscape, if_neg hbyte, pieces, if_neg hbyte, escapeText_strict, textOf]
    cases (escapePiece esc bytes).1.codeText with
    | none => rfl
    | some text =>
      rw [Option.map_some, strictResult, Results.ok_bind]
      dsimp only
      rw [ih]
      cases textOf Piece.codeText (pieces (bytes.drop (escapePiece esc bytes).2)) <;> rfl

/-! ## Comparing texts of pieces -/

section Texts

variable {α : Type} {text text' : Piece → Option (List α)}

lemma textOf_eq_none {ps : List Piece} : textOf text ps = none ↔ ∃ p ∈ ps, text p = none := by
  induction ps with
  | nil => simp [textOf]
  | cons p ps ih =>
    rw [List.exists_mem_cons_iff, ← ih, textOf]
    cases text p with
    | none => simp
    | some first => cases textOf text ps <;> simp

lemma textOf_congr {ps : List Piece} (h : ∀ p ∈ ps, text p = text' p) :
    textOf text ps = textOf text' ps := by
  induction ps with
  | nil => rfl
  | cons p ps ih =>
    obtain ⟨hp, hps⟩ := List.forall_mem_cons.1 h
    rw [textOf, textOf, hp, ih hps]

lemma textOf_map {β : Type} (f : α → β) (ps : List Piece) :
    (textOf text ps).map (List.map f) = textOf (fun p => (text p).map (List.map f)) ps := by
  induction ps with
  | nil => rfl
  | cons p ps ih =>
    rw [textOf, textOf, ← ih]
    cases text p with
    | none => rfl
    | some first => cases textOf text ps <;> simp

lemma textOf_cons_eq_some {p : Piece} {ps : List Piece} {whole : List α} :
    textOf text (p :: ps) = some whole ↔ ∃ first later,
      text p = some first ∧ textOf text ps = some later ∧ whole = first ++ later := by
  rw [textOf]
  cases text p with
  | none => simp
  | some first => cases textOf text ps <;> simp [eq_comm]

end Texts

/-- What a piece is for the codec, as code points. -/
def Piece.codePoints (piece : Piece) : Option (List ℕ) :=
  piece.codeText.map (List.map canonicalCodepointForInternalChar)

/-- A piece that both accept has one code point for the codec.  Python gives the same one, or none
for a line feed, or begins with another one that is no line feed. -/
inductive Compared : List ℕ → List ℕ → Prop
  | same (code : ℕ) : Compared [code] [code]
  | continuation : Compared [10] []
  | differs {code other : ℕ} (more : List ℕ) (hother : other ≠ code) (hline : other ≠ 10) :
      Compared [code] (other :: more)

lemma canonical_of_lt {ch : Char} (h : ch.toNat < internalSurrogateBase) :
    canonicalCodepointForInternalChar ch = ch.toNat := by
  rw [canonicalCodepointForInternalChar,
    TextCodec.surrogateCodepoint_of_not (Nat.not_le.2 h)]
  rfl

lemma toNat_byteChar (byte : UInt8) : (byteChar byte).toNat = byte.toNat := by
  have hlt := byte.toNat_lt
  exact Utf8.toNat_ofNat (.inl (by omega))

lemma canonical_byteChar (byte : UInt8) :
    canonicalCodepointForInternalChar (byteChar byte) = byte.toNat := by
  have hlt := byte.toNat_lt
  rw [canonical_of_lt, toNat_byteChar]
  rw [toNat_byteChar, internalSurrogateBase]
  omega

/-- Where both accept the later pieces, line feeds that only the codec has are never made up for. -/
lemma textOf_ne_of_ahead {ps : List Piece} {code python : List ℕ}
    (hcompared : ∀ p ∈ ps, ∀ a b, p.codePoints = some a → p.pythonText = some b → Compared a b)
    (hcode : textOf Piece.codePoints ps = some code)
    (hpython : textOf Piece.pythonText ps = some python) (ahead : ℕ) :
    List.replicate (ahead + 1) 10 ++ code ≠ python := by
  induction ps generalizing code python ahead with
  | nil =>
    cases hcode
    cases hpython
    simp
  | cons p ps ih =>
    obtain ⟨first, later, hfirst, hlater, rfl⟩ := textOf_cons_eq_some.1 hcode
    obtain ⟨first', later', hfirst', hlater', rfl⟩ := textOf_cons_eq_some.1 hpython
    obtain ⟨hp, hps⟩ := List.forall_mem_cons.1 hcompared
    cases hp _ _ hfirst hfirst' with
    | same code =>
      intro heq
      obtain ⟨rfl, heq⟩ := List.cons.inj heq
      refine ih hps hlater hlater' ahead ?_
      rw [List.replicate_succ', List.append_assoc]
      exact heq
    | continuation =>
      intro heq
      refine ih hps hlater hlater' (ahead + 1) ?_
      rw [List.replicate_succ', List.append_assoc]
      exact heq
    | differs more hother hline =>
      intro heq
      exact hline (List.cons.inj heq).1.symm

/-- Where both accept all pieces, the texts are the same only if those of every piece are. -/
lemma codePoints_eq_of_textOf {ps : List Piece} {code : List ℕ}
    (hcompared : ∀ p ∈ ps, ∀ a b, p.codePoints = some a → p.pythonText = some b → Compared a b)
    (hcode : textOf Piece.codePoints ps = some code)
    (hpython : textOf Piece.pythonText ps = some code) :
    ∀ p ∈ ps, p.codePoints = p.pythonText := by
  induction ps generalizing code with
  | nil => simp
  | cons p ps ih =>
    obtain ⟨first, later, hfirst, hlater, rfl⟩ := textOf_cons_eq_some.1 hcode
    obtain ⟨first', later', hfirst', hlater', heq⟩ := textOf_cons_eq_some.1 hpython
    obtain ⟨hp, hps⟩ := List.forall_mem_cons.1 hcompared
    cases hp _ _ hfirst hfirst' with
    | same code =>
      obtain rfl := (List.cons.inj heq).2
      exact List.forall_mem_cons.2 ⟨hfirst.trans hfirst'.symm, ih hps hlater hlater'⟩
    | continuation => exact absurd heq (textOf_ne_of_ahead hps hlater hlater' 0)
    | differs more hother hline => exact absurd (List.cons.inj heq).1.symm hother

/-! ## Numbers -/

lemma hexNumber_lt {digits : List UInt8} {value : ℕ} (h : hexNumber digits = some value) :
    value < 16 ^ digits.length := by
  have hall : ∀ (digits : List UInt8) (first value : ℕ),
      digits.foldlM (fun value byte => (hexDigit byte).map (value * 16 + ·)) first = some value →
        value < (first + 1) * 16 ^ digits.length := by
    intro digits
    induction digits with
    | nil =>
      intro first value h
      cases h
      simp
    | cons byte digits ih =>
      intro first value h
      rw [List.foldlM_cons] at h
      cases hdigit : hexDigit byte with
      | none =>
        rw [hdigit] at h
        cases h
      | some digit =>
        rw [hdigit] at h
        have hlt := hexDigit_lt hdigit
        have hnext := ih (first * 16 + digit) value h
        refine hnext.trans_le ?_
        rw [List.length_cons, Nat.pow_succ', ← Nat.mul_assoc]
        exact Nat.mul_le_mul_right _ (by omega)
  simpa using hall digits 0 value h

lemma fromStrRadix_of_hexNumber {digits : List UInt8} {value : ℕ} (hne : digits ≠ [])
    (h : hexNumber digits = some value) : fromStrRadix digits = some value := by
  cases digits with
  | nil => exact absurd rfl hne
  | cons byte digits =>
    rw [fromStrRadix]
    by_cases hplus : byte = ascii '+'
    · have hnone : hexDigit (ascii '+') = none := rfl
      rw [hexNumber, List.foldlM_cons, hplus, hnone] at h
      cases h
    · rw [if_neg hplus, h]

lemma hexEscape_eq {digits : List UInt8} (h : digits.length ≤ 2) :
    hexEscape digits = if digits.length = 2 then
      (hexNumber digits).map fun value => byteChar (UInt8.ofNat value) else none := by
  match digits with
  | [] | [_] => rfl
  | [high, low] =>
    rw [if_pos (by rfl), hexEscape, hexNumber]
    simp only [List.foldlM_cons, List.foldlM_nil]
    cases hhigh : hexDigit high with
    | none => rfl
    | some first =>
      cases hlow : hexDigit low with
      | none => rfl
      | some second =>
        have hor : first <<< 4 ||| second = first * 16 + second := by
          have hlt := hexDigit_lt hlow
          rw [← Nat.shiftLeft_add_eq_or_of_lt hlt, Nat.shiftLeft_eq]
        change some (byteChar (UInt8.ofNat (first <<< 4 ||| second))) =
          some (byteChar (UInt8.ofNat ((0 * 16 + first) * 16 + second)))
        rw [hor, Nat.zero_mul, Nat.zero_add]
  | _ :: _ :: _ :: _ => simp at h

lemma charFromU32_spec {code : ℕ} {ch : Char} (h : charFromU32 code = some ch) :
    code.isValidChar ∧ ch.toNat = code := by
  by_cases hvalid : code.isValidChar
  · rw [charFromU32, dif_pos hvalid] at h
    cases h
    exact ⟨hvalid, rfl⟩
  · rw [charFromU32, dif_neg hvalid] at h
    cases h

/-! ## The codec beside Python -/

lemma codePoints_hex {digits : List UInt8} (hdigits : digits.length ≤ 2) :
    (Piece.hex digits hdigits).codePoints = (Piece.hex digits hdigits).pythonText := by
  rw [Piece.codePoints, Piece.codeText, Piece.pythonText, hexEscape_eq hdigits]
  split_ifs with h
  · cases hnumber : hexNumber digits with
    | none => rfl
    | some value =>
      have hlt := hexNumber_lt hnumber
      rw [h] at hlt
      rw [Option.map_some, Option.map_some, Option.map_some, Option.map_some, List.map_singleton,
        canonical_byteChar, UInt8.toNat_ofNat_of_lt' hlt]
  · rfl

lemma codePoints_octal (digits : List UInt8) :
    (Piece.octal digits).codePoints = some [octalNumber digits % 256] := by
  rw [Piece.codePoints, Piece.codeText, Option.map_some, List.map_singleton, canonical_byteChar,
    Nat.and_two_pow_sub_one_eq_mod _ 8, UInt8.toNat_ofNat', Nat.mod_mod]

/-- The code point of a character of the codec, by its number. -/
lemma canonical_eq (ch : Char) : canonicalCodepointForInternalChar ch =
    if internalSurrogateBase ≤ ch.toNat then 0xD800 + (ch.toNat - internalSurrogateBase)
    else ch.toNat := by
  have hlt : ch.toNat < internalSurrogateBase + 0x800 := by
    have hvalid : ch.toNat.isValidChar := ch.valid
    rw [Nat.isValidChar] at hvalid
    rw [internalSurrogateBase]
    omega
  rw [canonicalCodepointForInternalChar, TextCodec.surrogateCodepointFromInternalChar]
  by_cases h : internalSurrogateBase ≤ ch.toNat
  · rw [if_pos ⟨h, hlt⟩, if_pos h, Option.getD_some]
  · rw [if_neg fun hle => h hle.1, if_neg h, Option.getD_none]

section Unicode

variable {long : Bool} {digits : List UInt8} (hdigits : digits.length ≤ unicodeWidth long)

lemma unicode_of_length_ne (h : digits.length ≠ unicodeWidth long) :
    (Piece.unicode long digits hdigits).codePoints = none ∧
      (Piece.unicode long digits hdigits).pythonText = none := by
  constructor
  · dsimp only [Piece.codePoints, Piece.codeText]
    rw [unicodeEscape, if_neg (by omega)]
    rfl
  · exact if_neg h

lemma codePoints_unicode (h : digits.length = unicodeWidth long) :
    (Piece.unicode long digits hdigits).codePoints =
      ((fromStrRadix digits).bind charFromU32).map
        fun ch => [canonicalCodepointForInternalChar ch] := by
  dsimp only [Piece.codePoints, Piece.codeText]
  rw [unicodeEscape, if_pos h.ge, ← h, List.take_length, Option.map_map]
  cases (fromStrRadix digits).bind charFromU32 <;> rfl

lemma pythonText_unicode (h : digits.length = unicodeWidth long) {value : ℕ}
    (hnumber : hexNumber digits = some value) :
    (Piece.unicode long digits hdigits).pythonText =
      if value < 0x110000 then some [value] else none := by
  rw [Piece.pythonText, if_pos h, hnumber, Option.filter_some]
  split_ifs <;> simp_all

lemma digits_ne_nil (h : digits.length = unicodeWidth long) : digits ≠ [] := by
  rintro rfl
  cases long <;> cases h

end Unicode

/-! ## The codec beside Python -/

lemma compared (p : Piece) (a b : List ℕ) (ha : p.codePoints = some a)
    (hb : p.pythonText = some b) : Compared a b := by
  cases p with
  | plain byte | letter byte =>
    cases ha
    cases hb
    rw [List.map_cons, canonical_byteChar]
    exact .same _
  | trailing | named => cases hb
  | hex digits hdigits =>
    rw [codePoints_hex hdigits, hb] at ha
    obtain rfl := Option.some.inj ha
    rw [Piece.pythonText] at hb
    split_ifs at hb
    obtain ⟨value, -, rfl⟩ := Option.map_eq_some_iff.1 hb
    exact .same _
  | unicode long digits hdigits =>
    by_cases hlength : digits.length = unicodeWidth long
    · cases hnumber : hexNumber digits with
      | none =>
        rw [Piece.pythonText, if_pos hlength, hnumber] at hb
        cases hb
      | some value =>
        have hradix := fromStrRadix_of_hexNumber (digits_ne_nil hlength) hnumber
        rw [codePoints_unicode hdigits hlength, hradix, Option.bind_some] at ha
        rw [pythonText_unicode hdigits hlength hnumber] at hb
        split_ifs at hb with hlt
        cases hb
        cases hchar : charFromU32 value with
        | none =>
          rw [hchar] at ha
          cases ha
        | some ch =>
          obtain ⟨-, hvalue⟩ := charFromU32_spec hchar
          rw [hchar] at ha
          obtain rfl := Option.some.inj ha
          dsimp only
          rw [canonical_eq, hvalue]
          have hbase : internalSurrogateBase = 0x10F800 := rfl
          split_ifs with hle
          · exact .differs _ (by omega) (by omega)
          · exact .same _
    · rw [(unicode_of_length_ne hdigits hlength).1] at ha
      cases ha
  | octal digits =>
    rw [codePoints_octal] at ha
    cases ha
    cases hb
    by_cases hlt : octalNumber digits < 256
    · rw [Nat.mod_eq_of_lt hlt]
      exact .same _
    · have hmod := Nat.mod_lt (octalNumber digits) (show 256 > 0 by decide)
      exact .differs _ (by omega) (by omega)
  | unknown byte hbyte =>
    cases ha
    rw [List.map_cons, canonical_byteChar]
    rw [Piece.pythonText] at hb
    split_ifs at hb with hname hline
    · cases hb
      rw [hline]
      exact .continuation
    · cases hb
      refine .differs _ (fun h => hbyte ?_) (by decide)
      exact UInt8.toNat_inj.1 h.symm

/-- Whether the codec gives for a piece what Python does. -/
def Piece.Kept : Piece → Prop
  | plain _ | letter _ | hex _ _ => True
  | trailing | named | unknown _ _ => False
  | unicode long digits _ => digits.length = unicodeWidth long →
    match hexNumber digits with
    | some value => value < 0xD800 ∨ 0xDFFF < value ∧ value < internalSurrogateBase ∨
      0x10FFFF < value
    | none => (fromStrRadix digits).bind charFromU32 = none
  | octal digits => octalNumber digits < 256

lemma kept_iff (p : Piece) : p.Kept ↔ p.codePoints = p.pythonText := by
  cases p with
  | plain byte | letter byte =>
    refine iff_of_true trivial ?_
    dsimp only [Piece.codePoints, Piece.codeText, Piece.pythonText]
    rw [Option.map_some, List.map_singleton, canonical_byteChar]
  | trailing | named => exact iff_of_false id fun h => by cases h
  | hex digits hdigits => exact iff_of_true trivial (codePoints_hex hdigits)
  | octal digits =>
    rw [codePoints_octal]
    dsimp only [Piece.Kept, Piece.pythonText]
    rw [Option.some.injEq, List.cons.injEq, and_iff_left rfl]
    omega
  | unicode long digits hdigits =>
    dsimp only [Piece.Kept]
    by_cases hlength : digits.length = unicodeWidth long
    · rw [forall_prop_of_true hlength, codePoints_unicode hdigits hlength]
      cases hnumber : hexNumber digits with
      | none =>
        rw [Piece.pythonText, if_pos hlength, hnumber]
        exact Option.map_eq_none_iff.symm
      | some value =>
        have hradix := fromStrRadix_of_hexNumber (digits_ne_nil hlength) hnumber
        have hbase : internalSurrogateBase = 0x10F800 := rfl
        rw [pythonText_unicode hdigits hlength hnumber, hradix, Option.bind_some]
        dsimp only
        cases hchar : charFromU32 value with
        | none =>
          have hinvalid : ¬ value.isValidChar := fun hvalid => by
            rw [charFromU32, dif_pos hvalid] at hchar
            cases hchar
          rw [Nat.isValidChar] at hinvalid
          rw [Option.map_none]
          split_ifs with hlt
          · exact iff_of_false (by omega) fun h => by cases h
          · exact iff_of_true (by omega) rfl
        | some ch =>
          obtain ⟨hvalid, hvalue⟩ := charFromU32_spec hchar
          rw [Nat.isValidChar] at hvalid
          rw [Option.map_some, if_pos (by omega), canonical_eq, hvalue, Option.some.injEq,
            List.cons.injEq, and_iff_left rfl]
          split_ifs with hle <;> omega
    · obtain ⟨hcode, hpython⟩ := unicode_of_length_ne hdigits hlength
      exact iff_of_true (fun h => absurd h hlength) (hcode.trans hpython.symm)
  | unknown byte hbyte =>
    refine iff_of_false id ?_
    dsimp only [Piece.codePoints, Piece.codeText, Piece.pythonText]
    rw [Option.map_some, List.map_singleton, canonical_byteChar]
    split_ifs <;> simp

/-- An escape that the codec rejects: too few digits, or digits of no character. -/
def Piece.Rejected : Piece → Prop
  | hex digits _ => digits.length < 2 ∨ hexNumber digits = none
  | unicode long digits _ =>
    digits.length < unicodeWidth long ∨ (fromStrRadix digits).bind charFromU32 = none
  | _ => False

/-- An escape that Python rejects. -/
def Piece.PythonRejected : Piece → Prop
  | trailing | named => True
  | unknown byte _ => byte = ascii 'N'
  | hex digits _ => digits.length < 2 ∨ hexNumber digits = none
  | unicode long digits _ =>
    digits.length < unicodeWidth long ∨ (hexNumber digits).filter (· < 0x110000) = none
  | _ => False

lemma rejected_iff (p : Piece) : p.Rejected ↔ p.codeText = none := by
  cases p with
  | hex digits hdigits =>
    dsimp only [Piece.Rejected, Piece.codeText]
    rw [Option.map_eq_none_iff, hexEscape_eq hdigits]
    split_ifs with h
    · rw [Option.map_eq_none_iff, or_iff_right (by omega)]
    · exact iff_of_true (.inl (by omega)) rfl
  | unicode long digits hdigits =>
    dsimp only [Piece.Rejected, Piece.codeText]
    rw [Option.map_eq_none_iff, unicodeEscape]
    split_ifs with h
    · rw [or_iff_right (Nat.not_lt.2 h), List.take_of_length_le hdigits]
    · exact iff_of_true (.inl (Nat.not_le.1 h)) rfl
  | _ => exact iff_of_false id nofun

lemma pythonRejected_iff (p : Piece) : p.PythonRejected ↔ p.pythonText = none := by
  cases p with
  | plain byte | letter byte | octal digits => exact iff_of_false id nofun
  | trailing | named => exact iff_of_true trivial rfl
  | hex digits hdigits =>
    dsimp only [Piece.PythonRejected, Piece.pythonText]
    split_ifs with h
    · rw [Option.map_eq_none_iff, or_iff_right (by omega)]
    · exact iff_of_true (.inl (by omega)) rfl
  | unicode long digits hdigits =>
    dsimp only [Piece.PythonRejected, Piece.pythonText]
    split_ifs with h
    · rw [Option.map_eq_none_iff, or_iff_right (by omega)]
    · exact iff_of_true (.inl (by omega)) rfl
  | unknown byte hbyte =>
    dsimp only [Piece.PythonRejected, Piece.pythonText]
    split_ifs with hname hline
    · exact iff_of_true hname rfl
    · exact iff_of_false hname nofun
    · exact iff_of_false hname nofun

/-- What Python decodes, unless it rejects the bytes; they hold no name of a character. -/
def pythonDecode (bytes : List UInt8) : Option (List ℕ) := textOf Piece.pythonText (pieces bytes)

/-- The codec has the text of Python, by its code points, or both reject the bytes. -/
def DecodesAsPython (bytes : List UInt8) : Prop :=
  Piece.named ∉ pieces bytes →
    (decodeUnicodeEscape .strict bytes).toOption.map
      (List.map canonicalCodepointForInternalChar) = pythonDecode bytes

lemma decodesAsPython_iff (bytes : List UInt8) : DecodesAsPython bytes ↔
    Piece.named ∈ pieces bytes ∨ (∀ p ∈ pieces bytes, p.Kept) ∨
      (∃ p ∈ pieces bytes, p.Rejected) ∧ ∃ p ∈ pieces bytes, p.PythonRejected := by
  have hcode : (decodeUnicodeEscape .strict bytes).toOption.map
      (List.map canonicalCodepointForInternalChar) = textOf Piece.codePoints (pieces bytes) := by
    rw [decode_strict, ← show _ = textOf Piece.codePoints (pieces bytes) from textOf_map _ _]
    cases textOf Piece.codeText (pieces bytes) <;> rfl
  rw [DecodesAsPython, hcode, pythonDecode]
  by_cases hnamed : Piece.named ∈ pieces bytes
  · exact iff_of_true (fun h => absurd hnamed h) (.inl hnamed)
  rw [forall_prop_of_true hnamed, or_iff_right hnamed]
  have hrejected : ∀ p : Piece, p.Rejected ↔ p.codePoints = none := fun p => by
    rw [rejected_iff, Piece.codePoints, Option.map_eq_none_iff]
  simp only [kept_iff, hrejected, pythonRejected_iff, ← textOf_eq_none]
  constructor
  · intro heq
    cases hpython : textOf Piece.pythonText (pieces bytes) with
    | none => exact .inr ⟨heq.trans hpython, rfl⟩
    | some python =>
      exact .inl (codePoints_eq_of_textOf (fun p _ => compared p) (heq.trans hpython) hpython)
  · rintro (hall | ⟨hcodeNone, hpythonNone⟩)
    · exact textOf_congr hall
    · rw [hcodeNone, hpythonNone]

/-! ## Encoding -/

lemma pieces_plain {byte : UInt8} (h : byte ≠ ascii '\\') (bytes : List UInt8) :
    pieces (byte :: bytes) = .plain byte :: pieces bytes := by
  cases bytes with
  | nil =>
    have hnil : pieces [] = [] := by rw [pieces]
    rw [hnil, pieces, if_neg h]
  | cons esc bytes => rw [pieces, if_pos h]

lemma pieces_escape (esc : UInt8) (bytes : List UInt8) :
    pieces (ascii '\\' :: esc :: bytes) =
      (escapePiece esc bytes).1 :: pieces (bytes.drop (escapePiece esc bytes).2) := by
  rw [pieces, if_neg (not_not.2 rfl)]

lemma length_hexBytes (width value : ℕ) : (hexBytes width value).length = width := by
  induction width generalizing value with
  | zero => rfl
  | succ width ih => rw [hexBytes, List.length_append, ih, List.length_singleton]

lemma hexNumber_hexBytes {width value : ℕ} (h : value < 16 ^ width) :
    hexNumber (hexBytes width value) = some value := by
  induction width generalizing value with
  | zero =>
    obtain rfl := Nat.lt_one_iff.1 h
    rfl
  | succ width ih =>
    have hlt : value / 16 < 16 ^ width := by
      rw [Nat.pow_succ] at h
      exact Nat.div_lt_of_lt_mul (by omega)
    have hdigit := JsonRoundTrip.hexDigit_digitChar (Nat.mod_lt value (show 16 > 0 by decide))
    have hvalue : value / 16 * 16 + value % 16 = value := by omega
    rw [hexNumber, hexBytes, List.foldlM_append, ← hexNumber, ih hlt]
    simp only [Option.bind_eq_bind, Option.bind_some, List.foldlM_cons, List.foldlM_nil, hdigit,
      Option.map_some, hvalue]
    rfl

/-- A number of all its digits is read as the character that it was written for. -/
lemma codeText_hexBytes {long : Bool} {ch : Char} (h : ch.toNat < 16 ^ unicodeWidth long)
    {digits : List UInt8} (hdigits : digits.length ≤ unicodeWidth long)
    (heq : digits = hexBytes (unicodeWidth long) ch.toNat) :
    (Piece.unicode long digits hdigits).codeText = some [ch] := by
  have hlength : digits.length = unicodeWidth long := by rw [heq, length_hexBytes]
  have hnumber : hexNumber digits = some ch.toNat := by rw [heq, hexNumber_hexBytes h]
  have hchar : charFromU32 ch.toNat = some ch := by
    have hvalid : ch.toNat.isValidChar := ch.valid
    rw [charFromU32, dif_pos hvalid]
    rfl
  dsimp only [Piece.codeText]
  rw [unicodeEscape, if_pos hlength.ge, ← hlength, List.take_length,
    fromStrRadix_of_hexNumber (digits_ne_nil hlength) hnumber, Option.bind_some, hchar]
  rfl

lemma escapePiece_encodedLetter {ch : Char} {letter : UInt8} (h : encodedLetter ch = some letter)
    (bytes : List UInt8) :
    ∃ byte, escapePiece letter bytes = (.letter byte, 0) ∧ byteChar byte = ch := by
  have hchar : ∀ byte : UInt8, byte.toNat = ch.toNat → byteChar byte = ch := fun byte heq => by
    rw [byteChar, heq, Char.ofNat_toNat]
  rw [encodedLetter] at h
  split_ifs at h with hslash <;> obtain rfl := Option.some.inj h
  · exact ⟨_, rfl, by rw [hslash]; rfl⟩
  all_goals exact ⟨_, rfl, hchar _ (by symm; assumption)⟩

lemma pieces_hexBytes (long : Bool) {ch : Char} (h : ch.toNat < 16 ^ unicodeWidth long)
    (bytes : List UInt8) :
    ∃ p, pieces (ascii '\\' :: ascii (if long then 'U' else 'u') ::
        (hexBytes (unicodeWidth long) ch.toNat ++ bytes)) = p :: pieces bytes ∧
      p.codeText = some [ch] := by
  have hpiece : ∀ bytes, escapePiece (ascii (if long then 'U' else 'u')) bytes =
      (.unicode long (bytes.take (unicodeWidth long)) (List.length_take_le _ _),
        unicodeWidth long) := by
    intro bytes
    cases long <;> rfl
  have hlength := length_hexBytes (unicodeWidth long) ch.toNat
  rw [pieces_escape, hpiece]
  exact ⟨_, by rw [List.drop_left' hlength], codeText_hexBytes h _ (List.take_left' hlength)⟩

lemma pieces_encodeChar (ch : Char) (bytes : List UInt8) :
    ∃ p, pieces (encodeChar ch ++ bytes) = p :: pieces bytes ∧ p.codeText = some [ch] := by
  rw [encodeChar]
  cases hletter : encodedLetter ch with
  | some letter =>
    obtain ⟨byte, hpiece, hbyte⟩ := escapePiece_encodedLetter hletter bytes
    refine ⟨.letter byte, ?_, by rw [← hbyte]; rfl⟩
    dsimp only
    rw [List.cons_append, List.singleton_append, pieces_escape, hpiece]
    rfl
  | none =>
    dsimp only
    split_ifs with hprinted hshort
    · have hbyte : (UInt8.ofNat ch.toNat).toNat = ch.toNat :=
        UInt8.toNat_ofNat_of_lt' (by rw [UInt8.size]; omega)
      have hne : UInt8.ofNat ch.toNat ≠ ascii '\\' := by
        intro hslash
        have hcode : ch.toNat = 92 := hbyte.symm.trans (congrArg UInt8.toNat hslash)
        have hchar : ch = '\\' := by rw [← Char.ofNat_toNat ch, hcode]
        rw [hchar] at hletter
        cases hletter
      refine ⟨_, pieces_plain hne bytes, ?_⟩
      rw [Piece.codeText, byteChar, hbyte, Char.ofNat_toNat]
    · exact pieces_hexBytes false (Nat.lt_of_le_of_lt hshort (by decide)) bytes
    · have hlt : ch.toNat < 0x110000 := by
        have hvalid : ch.toNat.isValidChar := ch.valid
        rw [Nat.isValidChar] at hvalid
        omega
      exact pieces_hexBytes true (hlt.trans (by decide)) bytes

theorem decode_encode (text : List Char) :
    decodeUnicodeEscape .strict (encodeUnicodeEscape text) = .ok text := by
  rw [decode_strict]
  have htext : textOf Piece.codeText (pieces (encodeUnicodeEscape text)) = some text := by
    induction text with
    | nil =>
      rw [encodeUnicodeEscape, List.flatMap_nil, pieces]
      rfl
    | cons ch text ih =>
      obtain ⟨p, hpieces, hp⟩ := pieces_encodeChar ch (encodeUnicodeEscape text)
      rw [encodeUnicodeEscape, List.flatMap_cons, ← encodeUnicodeEscape, hpieces]
      exact textOf_cons_eq_some.2 ⟨_, _, hp, ih, rfl⟩
  rw [htext]
  rfl

/-- **The codec of unicode escapes beside Python.**  Bytes without the name of a character are
decoded as Python does exactly when every piece of them is kept, or each of the two rejects some
piece.  Every text is decoded from what it is encoded as. -/
theorem unicodeEscape_iff (bytes : List UInt8) :
    (DecodesAsPython bytes ↔
      Piece.named ∈ pieces bytes ∨ (∀ p ∈ pieces bytes, p.Kept) ∨
        (∃ p ∈ pieces bytes, p.Rejected) ∧ ∃ p ∈ pieces bytes, p.PythonRejected) ∧
      ∀ text, decodeUnicodeEscape .strict (encodeUnicodeEscape text) = .ok text :=
  ⟨decodesAsPython_iff bytes, decode_encode⟩

/-- A backslash at the end is kept; Python rejects it. -/
theorem decode_trailing : decodeUnicodeEscape .strict [ascii '\\'] = .ok ['\\'] ∧
    pythonDecode [ascii '\\'] = none ∧ Piece.named ∉ pieces [ascii '\\'] := by
  rw [decodeUnicodeEscape, pythonDecode, pieces]
  exact ⟨rfl, rfl, by simp⟩

end UnicodeEscape

end Pyrs
