import Pyrs.Model.Json
import Pyrs.Library.Utf8Decoding

/-!
# Text codecs

`encode_text_bytes` and `decode_text_bytes` for UTF-8, UTF-16, UTF-32, ASCII and Latin-1.  A text is
its list of characters, in which a surrogate is a character of the internal range.
-/

namespace Pyrs

namespace TextCodec

/-- An exception, or a panic. -/
inductive CodecFault
  | error (message : String)
  | outOfFuel
deriving DecidableEq, Repr

/-- The codecs. -/
inductive Encoding
  | utf8
  | utf8Sig
  | utf16
  | utf16Le
  | utf16Be
  | utf32
  | utf32Le
  | utf32Be
  | ascii
  | latin1
deriving DecidableEq, Repr

/-- The handlers that the codecs know, and any other name. -/
inductive ErrorHandler
  | strict
  | ignore
  | replace
  | surrogateescape
  | surrogatepass
  | other (name : String)
deriving DecidableEq, Repr

/-- Fails with a message. -/
def codecError {α : Type} (message : String) : Except CodecFault α := .error (.error message)

/-- The error for a handler that is not known. -/
def unknownCodecErrorHandler {α : Type} (handler : String) : Except CodecFault α :=
  codecError ("unknown error handler name '" ++ handler ++ "'")

/-- `U+FFFD`. -/
def replacementChar : Char := Char.ofNat 0xFFFD

/-- The surrogate that an internal character stands for. -/
def surrogateCodepointFromInternalChar (ch : Char) : Option ℕ :=
  if internalSurrogateBase ≤ ch.toNat ∧ ch.toNat < internalSurrogateBase + 0x800 then
    some (0xD800 + (ch.toNat - internalSurrogateBase))
  else none

/-- The code point that a character of a text stands for. -/
def canonicalCodepointForInternalChar (ch : Char) : ℕ :=
  (surrogateCodepointFromInternalChar ch).getD ch.toNat

/-! ## Encoding -/

/-- A code point in UTF-8, also a surrogate. -/
def pushUtf8CodepointAllowSurrogate (codepoint : ℕ) : List UInt8 :=
  if codepoint ≤ 0x7F then [UInt8.ofNat codepoint]
  else if codepoint ≤ 0x7FF then
    [UInt8.ofNat (0xC0 ||| (codepoint >>> 6 &&& 0x1F)), UInt8.ofNat (0x80 ||| (codepoint &&& 0x3F))]
  else if codepoint ≤ 0xFFFF then
    [UInt8.ofNat (0xE0 ||| (codepoint >>> 12 &&& 0x0F)),
      UInt8.ofNat (0x80 ||| (codepoint >>> 6 &&& 0x3F)), UInt8.ofNat (0x80 ||| (codepoint &&& 0x3F))]
  else
    [UInt8.ofNat (0xF0 ||| (codepoint >>> 18 &&& 0x07)),
      UInt8.ofNat (0x80 ||| (codepoint >>> 12 &&& 0x3F)),
      UInt8.ofNat (0x80 ||| (codepoint >>> 6 &&& 0x3F)), UInt8.ofNat (0x80 ||| (codepoint &&& 0x3F))]

/-- A loop over the characters that pushes the bytes of each. -/
def encodeChars (encodeChar : Char → Except CodecFault (List UInt8)) :
    List Char → Except CodecFault (List UInt8)
  | [] => .ok []
  | ch :: text => do
    let bytes ← encodeChar ch
    let rest ← encodeChars encodeChar text
    return bytes ++ rest

/-- One character in UTF-8, by the handler where it is a surrogate. -/
def encodeUtf8Char (errors : ErrorHandler) (ch : Char) : Except CodecFault (List UInt8) :=
  match surrogateCodepointFromInternalChar ch with
  | none => .ok (String.utf8EncodeChar ch)
  | some surrogate =>
    match errors with
    | .strict => codecError "utf-8 codec can't encode character"
    | .ignore => .ok []
    | .replace => .ok [Pyrs.ascii '?']
    | .surrogateescape =>
      if 0xDC80 ≤ surrogate ∧ surrogate ≤ 0xDCFF then .ok [UInt8.ofNat (surrogate - 0xDC00)]
      else codecError "utf-8 codec can't encode character"
    | .surrogatepass => .ok (pushUtf8CodepointAllowSurrogate surrogate)
    | .other name => unknownCodecErrorHandler name

/-- A text in UTF-8. -/
def encodeUtf8Text (text : List Char) (errors : ErrorHandler) : Except CodecFault (List UInt8) :=
  encodeChars (encodeUtf8Char errors) text

/-- `char::encode_utf16`. -/
def encodeUtf16 (ch : Char) : List ℕ :=
  if ch.toNat < 0x10000 then [ch.toNat]
  else [0xD800 ||| (ch.toNat - 0x10000) >>> 10, 0xDC00 ||| ((ch.toNat - 0x10000) &&& 0x3FF)]

/-- `u16::to_le_bytes`. -/
def u16ToLeBytes (unit : ℕ) : List UInt8 := [UInt8.ofNat unit, UInt8.ofNat (unit / 256)]

/-- `u16::to_be_bytes`. -/
def u16ToBeBytes (unit : ℕ) : List UInt8 := [UInt8.ofNat (unit / 256), UInt8.ofNat unit]

/-- `u32::to_le_bytes`. -/
def u32ToLeBytes (code : ℕ) : List UInt8 :=
  [UInt8.ofNat code, UInt8.ofNat (code / 256), UInt8.ofNat (code / 65536),
    UInt8.ofNat (code / 16777216)]

/-- `u32::to_be_bytes`. -/
def u32ToBeBytes (code : ℕ) : List UInt8 :=
  [UInt8.ofNat (code / 16777216), UInt8.ofNat (code / 65536), UInt8.ofNat (code / 256),
    UInt8.ofNat code]

/-- The characters up to a last code, with its message. -/
def encodeUpTo (last : ℕ) (message : String) (errors : ErrorHandler) (ch : Char) :
    Except CodecFault (List UInt8) :=
  if ch.toNat ≤ last then .ok [UInt8.ofNat ch.toNat]
  else
    match errors with
    | .strict | .surrogatepass => codecError message
    | .ignore => .ok []
    | .replace | .surrogateescape => .ok [Pyrs.ascii '?']
    | .other name => unknownCodecErrorHandler name

/-- The mark in front of a text in `utf-8-sig`. -/
def utf8Signature : List UInt8 := [0xEF, 0xBB, 0xBF]

def encodeTextBytes (text : List Char) (encoding : Encoding) (errors : ErrorHandler) :
    Except CodecFault (List UInt8) :=
  match encoding with
  | .utf8 => encodeUtf8Text text errors
  | .utf8Sig => do
    let payload ← encodeUtf8Text text errors
    return utf8Signature ++ payload
  | .utf16 => .ok ([0xFF, 0xFE] ++ (text.flatMap encodeUtf16).flatMap u16ToLeBytes)
  | .utf16Le => .ok ((text.flatMap encodeUtf16).flatMap u16ToLeBytes)
  | .utf16Be => .ok ((text.flatMap encodeUtf16).flatMap u16ToBeBytes)
  | .utf32 => .ok ([0xFF, 0xFE, 0x00, 0x00] ++ text.flatMap fun ch => u32ToLeBytes ch.toNat)
  | .utf32Le => .ok (text.flatMap fun ch => u32ToLeBytes ch.toNat)
  | .utf32Be => .ok (text.flatMap fun ch => u32ToBeBytes ch.toNat)
  | .ascii => encodeChars (encodeUpTo 0x7F "ascii codec can't encode character" errors) text
  | .latin1 => encodeChars (encodeUpTo 0xFF "latin-1 codec can't encode character" errors) text

/-! ## Decoding -/

/-- A loop over what has been decoded, with the places where nothing could be. -/
def decodeItems (message : String) (errors : ErrorHandler) :
    List (Option Char) → Except CodecFault (List Char)
  | [] => .ok []
  | some ch :: items => do
    let out ← decodeItems message errors items
    return ch :: out
  | none :: items =>
    match errors with
    | .strict | .surrogatepass => codecError message
    | .ignore => decodeItems message errors items
    | .replace | .surrogateescape => do
      let out ← decodeItems message errors items
      return replacementChar :: out
    | .other name => unknownCodecErrorHandler name

/-- Bytes that do not fill the last unit. -/
def decodeRest (message : String) (errors : ErrorHandler) (rest : List UInt8) :
    Except CodecFault (List (Option Char)) :=
  if rest = [] then .ok []
  else
    match errors with
    | .strict | .surrogatepass => codecError message
    | .ignore => .ok []
    | .replace | .surrogateescape => .ok [some replacementChar]
    | .other name => unknownCodecErrorHandler name

/-- The units of pairs of bytes, and a byte behind them. -/
def u16Units (bigEndian : Bool) : List UInt8 → List ℕ × List UInt8
  | first :: second :: bytes =>
    let (units, rest) := u16Units bigEndian bytes
    ((if bigEndian then first.toNat * 256 + second.toNat else second.toNat * 256 + first.toNat) ::
      units, rest)
  | rest => ([], rest)

/-- The units of four bytes, and what is left. -/
def u32Units (bigEndian : Bool) : List UInt8 → List ℕ × List UInt8
  | first :: second :: third :: fourth :: bytes =>
    let (units, rest) := u32Units bigEndian bytes
    ((if bigEndian then
        ((first.toNat * 256 + second.toNat) * 256 + third.toNat) * 256 + fourth.toNat
      else ((fourth.toNat * 256 + third.toNat) * 256 + second.toNat) * 256 + first.toNat) ::
      units, rest)
  | rest => ([], rest)

/-- `char::decode_utf16`. -/
def decodeUtf16 : List ℕ → List (Option Char)
  | [] => []
  | [unit] => [if unit < 0xD800 ∨ 0xDFFF < unit then some (Char.ofNat unit) else none]
  | unit :: low :: units =>
    if unit < 0xD800 ∨ 0xDFFF < unit then some (Char.ofNat unit) :: decodeUtf16 (low :: units)
    else if isHighSurrogate unit ∧ isLowSurrogate low then
      some (Char.ofNat (surrogatePairScalar unit low)) :: decodeUtf16 units
    else none :: decodeUtf16 (low :: units)

/-- A byte left over is the unit `U+FFFD` for the handlers that replace. -/
def decodeUtf16Bytes (bytes : List UInt8) (errors : ErrorHandler) (bigEndian : Bool) :
    Except CodecFault (List Char) := do
  let (units, rest) := u16Units bigEndian bytes
  let last ← decodeRest "utf-16 codec can't decode bytes" errors rest
  decodeItems "utf-16 codec can't decode bytes" errors
    (decodeUtf16 (units ++ last.map fun _ => 0xFFFD))

/-- A text from UTF-32. -/
def decodeUtf32Bytes (bytes : List UInt8) (errors : ErrorHandler) (bigEndian : Bool) :
    Except CodecFault (List Char) := do
  let (units, rest) := u32Units bigEndian bytes
  let out ← decodeItems "utf-32 codec can't decode bytes" errors (units.map charFromU32)
  let last ← decodeRest "utf-32 codec can't decode bytes" errors rest
  return out ++ last.reduceOption

/-- A surrogate in three bytes. -/
def decodeUtf8SurrogatepassUnit : List UInt8 → Option (Char × ℕ)
  | b0 :: b1 :: b2 :: _ =>
    if b0 ≠ 0xED ∨ b1 < 0xA0 ∨ 0xBF < b1 ∨ b2 < 0x80 ∨ 0xBF < b2 then none
    else
      (internalCharFromCodepoint ((b0.toNat &&& 0x0F) <<< 12 ||| (b1.toNat &&& 0x3F) <<< 6 |||
        (b2.toNat &&& 0x3F))).map (·, 3)
  | _ => none

/-- The escapes of bytes. -/
def escapeBytes : List UInt8 → Except CodecFault (List Char)
  | [] => .ok []
  | byte :: bytes =>
    match internalCharFromCodepoint (0xDC00 + byte.toNat) with
    | none => codecError "utf-8 codec can't decode bytes"
    | some ch => do
      let out ← escapeBytes bytes
      return ch :: out

/-- The loop over the bytes that are left, with what it has pushed. -/
def decodeUtf8Rounds (errors : ErrorHandler) : ℕ → List UInt8 → List Char →
    Except CodecFault (List Char)
  | 0, _, _ => .error .outOfFuel
  | fuel + 1, bytes, out =>
    if bytes = [] then .ok out
    else
      match Utf8.fromUtf8 bytes with
      | .ok rest => .ok (out ++ rest)
      | .error err => do
        let fragment ←
          match Utf8.fromUtf8 (bytes.take err.validUpTo) with
          | .ok fragment => .ok fragment
          | .error _ => codecError "utf-8 codec can't decode bytes"
        let out := out ++ fragment
        let bytes := bytes.drop err.validUpTo
        match errors with
        | .ignore =>
          match err.errorLen with
          | some len => decodeUtf8Rounds errors fuel (bytes.drop len) out
          | none => return out
        | .surrogatepass =>
          match decodeUtf8SurrogatepassUnit bytes with
          | some (ch, consumed) => decodeUtf8Rounds errors fuel (bytes.drop consumed) (out ++ [ch])
          | none => codecError "utf-8 codec can't decode bytes"
        | .replace =>
          match err.errorLen with
          | some len => decodeUtf8Rounds errors fuel (bytes.drop len) (out ++ [replacementChar])
          | none => return out ++ [replacementChar]
        | .surrogateescape =>
          let consumed := err.errorLen.getD bytes.length
          let escaped ← escapeBytes (bytes.take consumed)
          match err.errorLen with
          | some len => decodeUtf8Rounds errors fuel (bytes.drop len) (out ++ escaped)
          | none => return out ++ escaped
        | .strict => unknownCodecErrorHandler "strict"
        | .other name => unknownCodecErrorHandler name

/-- A text from UTF-8. -/
def decodeUtf8Bytes (bytes : List UInt8) (errors : ErrorHandler) : Except CodecFault (List Char) :=
  if errors = .strict then
    match Utf8.fromUtf8 bytes with
    | .ok value => .ok value
    | .error _ => codecError "utf-8 codec can't decode bytes"
  else decodeUtf8Rounds errors (bytes.length + 1) bytes []

/-- The bytes up to a last one are characters. -/
def decodeUpTo (last : UInt8) (byte : UInt8) : Option Char :=
  if byte ≤ last then some (Char.ofNat byte.toNat) else none

def decodeTextBytes (bytes : List UInt8) (encoding : Encoding) (errors : ErrorHandler) :
    Except CodecFault (List Char) :=
  match encoding with
  | .utf8 => decodeUtf8Bytes bytes errors
  | .utf8Sig =>
    decodeUtf8Bytes (if utf8Signature <+: bytes then bytes.drop 3 else bytes) errors
  | .utf16 =>
    if [0xFE, 0xFF] <+: bytes then decodeUtf16Bytes (bytes.drop 2) errors true
    else if [0xFF, 0xFE] <+: bytes then decodeUtf16Bytes (bytes.drop 2) errors false
    else decodeUtf16Bytes bytes errors false
  | .utf16Le => decodeUtf16Bytes bytes errors false
  | .utf16Be => decodeUtf16Bytes bytes errors true
  | .utf32 =>
    if [0x00, 0x00, 0xFE, 0xFF] <+: bytes then decodeUtf32Bytes (bytes.drop 4) errors true
    else if [0xFF, 0xFE, 0x00, 0x00] <+: bytes then decodeUtf32Bytes (bytes.drop 4) errors false
    else decodeUtf32Bytes bytes errors false
  | .utf32Le => decodeUtf32Bytes bytes errors false
  | .utf32Be => decodeUtf32Bytes bytes errors true
  | .ascii =>
    decodeItems "ascii codec can't decode byte" errors (bytes.map (decodeUpTo 0x7F))
  | .latin1 => .ok (bytes.map fun byte => Char.ofNat byte.toNat)

end TextCodec

end Pyrs
