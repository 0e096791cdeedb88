import Pyrs.Model.TextCodecs

/-!
# The codec of unicode escapes

`decode_unicode_escape` and `encode_unicode_escape` of `vm/mod.rs`.  An escape is read from the
bytes behind its backslash and says how many of them it takes; an escape that is wrong takes none,
and the handler of errors decides what stands for it.
-/

namespace Pyrs

namespace UnicodeEscape

open TextCodec (CodecFault ErrorHandler codecError replacementChar unknownCodecErrorHandler)

/-! ## Decoding -/

/-- `byte as char` -/
def byteChar (byte : UInt8) : Char := Char.ofNat byte.toNat

/-- The escapes of one letter, by the byte that they stand for. -/
def letterEscape (letter : UInt8) : Option UInt8 :=
  if letter = ascii '\\' then some (ascii '\\')
  else if letter = ascii '\'' then some (ascii '\'')
  else if letter = ascii '"' then some (ascii '"')
  else if letter = ascii 'a' then some 0x07
  else if letter = ascii 'b' then some 0x08
  else if letter = ascii 'f' then some 0x0C
  else if letter = ascii 'n' then some 0x0A
  else if letter = ascii 'r' then some 0x0D
  else if letter = ascii 't' then some 0x09
  else if letter = ascii 'v' then some 0x0B
  else none

/-- The number that hexadecimal digits stand for. -/
def hexNumber (digits : List UInt8) : Option ℕ :=
  digits.foldlM (fun value byte => (hexDigit byte).map (value * 16 + ·)) 0

/-- `u32::from_str_radix` of at most eight bytes, if they are UTF-8: it allows a plus sign in front
of the digits. -/
def fromStrRadix (text : List UInt8) : Option ℕ :=
  match text with
  | [] => none
  | byte :: digits =>
    if byte = ascii '+' then if digits.isEmpty then none else hexNumber digits
    else hexNumber (byte :: digits)

/-- The character of an escape of two digits. -/
def hexEscape : List UInt8 → Option Char
  | high :: low :: _ => do
    let high ← hexDigit high
    let low ← hexDigit low
    return byteChar (UInt8.ofNat (high <<< 4 ||| low))
  | _ => none

/-- The character of an escape with a code point. -/
def unicodeEscape (width : ℕ) (bytes : List UInt8) : Option Char :=
  if width ≤ bytes.length then (fromStrRadix (bytes.take width)).bind charFromU32 else none

/-- A digit of base 8. -/
def isOctal (byte : UInt8) : Bool := ascii '0' ≤ byte ∧ byte ≤ ascii '7'

/-- The value of at most so many octal digits behind the first ones, and how many there were. -/
def octalLoop : ℕ → ℕ → List UInt8 → ℕ × ℕ
  | width + 1, value, next :: bytes =>
    if isOctal next then
      let (value, consumed) := octalLoop width (value <<< 3 ||| (next - ascii '0').toNat) bytes
      (value, consumed + 1)
    else (value, 0)
  | _, value, _ => (value, 0)

/-- What a handler puts in the place of an escape that is wrong. -/
def pushError : ErrorHandler → Except CodecFault (List Char)
  | .strict | .surrogatepass => codecError "unicode escape decode failed"
  | .ignore => .ok []
  | .replace | .surrogateescape => .ok [replacementChar]
  | .other name => unknownCodecErrorHandler name

/-- The text of an escape of a fixed width, or what stands for it. -/
def fixedEscape (errors : ErrorHandler) (width : ℕ) (char : Option Char) :
    Except CodecFault (List Char × ℕ) :=
  match char with
  | some char => .ok ([char], width)
  | none => do return (← pushError errors, 0)

/-- The text of an escape, and how many of the bytes behind it belong to it. -/
def escapeText (errors : ErrorHandler) (esc : UInt8) (bytes : List UInt8) :
    Except CodecFault (List Char × ℕ) :=
  match letterEscape esc with
  | some byte => .ok ([byteChar byte], 0)
  | none =>
    if esc = ascii 'x' then fixedEscape errors 2 (hexEscape bytes)
    else if esc = ascii 'u' then fixedEscape errors 4 (unicodeEscape 4 bytes)
    else if esc = ascii 'U' then fixedEscape errors 8 (unicodeEscape 8 bytes)
    else if isOctal esc then
      let (value, consumed) := octalLoop 2 (esc - ascii '0').toNat bytes
      .ok ([byteChar (UInt8.ofNat (value &&& 0xFF))], consumed)
    else .ok ([byteChar esc], 0)

def decodeUnicodeEscape (errors : ErrorHandler) : List UInt8 → Except CodecFault (List Char)
  | [] => .ok []
  | [byte] => .ok [byteChar byte]
  | byte :: esc :: bytes =>
    if byte ≠ ascii '\\' then do
      return byteChar byte :: (← decodeUnicodeEscape errors (esc :: bytes))
    else do
      let (text, consumed) ← escapeText errors esc bytes
      return text ++ (← decodeUnicodeEscape errors (bytes.drop consumed))
termination_by bytes => bytes.length
decreasing_by
  · exact Nat.lt_succ_self _
  · simp only [List.length_drop, List.length_cons]
    omega

/-! ## Encoding -/

/-- A number of at most so many hexadecimal digits, with all of them. -/
def hexBytes : ℕ → ℕ → List UInt8
  | 0, _ => []
  | width + 1, value => hexBytes width (value / 16) ++ [ascii (Nat.digitChar (value % 16))]

/-- The characters that are written as an escape of one letter. -/
def encodedLetter (ch : Char) : Option UInt8 :=
  if ch = '\\' then some (ascii '\\')
  else if ch.toNat = 0x07 then some (ascii 'a')
  else if ch.toNat = 0x08 then some (ascii 'b')
  else if ch.toNat = 0x09 then some (ascii 't')
  else if ch.toNat = 0x0A then some (ascii 'n')
  else if ch.toNat = 0x0B then some (ascii 'v')
  else if ch.toNat = 0x0C then some (ascii 'f')
  else if ch.toNat = 0x0D then some (ascii 'r')
  else none

/-- The bytes of one character. -/
def encodeChar (ch : Char) : List UInt8 :=
  match encodedLetter ch with
  | some letter => [ascii '\\', letter]
  | none =>
    let code := ch.toNat
    if 0x20 ≤ code ∧ code ≤ 0x7E then [UInt8.ofNat code]
    else if code ≤ 0xFFFF then ascii '\\' :: ascii 'u' :: hexBytes 4 code
    else ascii '\\' :: ascii 'U' :: hexBytes 8 code

def encodeUnicodeEscape (text : List Char) : List UInt8 := text.flatMap encodeChar

end UnicodeEscape

end Pyrs
