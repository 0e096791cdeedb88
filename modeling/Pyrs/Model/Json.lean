import Pyrs.Library.Binary64

/-!
# JSON

The nodes of a JSON text and `JsonParser`, over the bytes of the text and a position in them.  A
function takes the position that it starts from and returns the one behind what it has read.  The
levels that are left of the depth limit take the place of the depth; the rounds of a loop are
counted, and a loop has as many as there are bytes.
-/

namespace Pyrs

/-- The values of `json.rs`. -/
inductive JsonNode
  | null
  | bool (value : Bool)
  | int (value : Int64)
  | bigInt (value : ℤ)
  | float (value : Binary64)
  | string (value : String)
  | array (values : List JsonNode)
  | object (values : List (String × JsonNode))

mutual

/-- How deep the arrays and objects of a node are. -/
def JsonNode.nesting : JsonNode → ℕ
  | .array values => nestingOfValues values + 1
  | .object members => nestingOfMembers members + 1
  | _ => 0

/-- The deepest nesting among values. -/
def nestingOfValues : List JsonNode → ℕ
  | [] => 0
  | node :: nodes => max node.nesting (nestingOfValues nodes)

/-- The deepest nesting among the values of an object. -/
def nestingOfMembers : List (String × JsonNode) → ℕ
  | [] => 0
  | (_, node) :: members => max node.nesting (nestingOfMembers members)

end

/-- A message, with the position it is about. -/
structure JsonParseError where
  message : String
  pos : ℕ
deriving DecidableEq, Repr

/-- An error of the parser, or the end of the rounds of a loop. -/
inductive JsonFault
  | error (error : JsonParseError)
  | outOfFuel
deriving DecidableEq, Repr

/-- Fails with a message at a position. -/
def jsonError {α : Type} (message : String) (pos : ℕ) : Except JsonFault α :=
  .error (.error ⟨message, pos⟩)

/-- `b'c'`. -/
def ascii (ch : Char) : UInt8 := UInt8.ofNat ch.toNat

/-- The bytes of a text of ASCII. -/
def asciiBytes (text : String) : List UInt8 := text.toList.map ascii

/-! ## Characters -/

/-- `char::from_u32`. -/
def charFromU32 (code : ℕ) : Option Char :=
  if h : code.isValidChar then some (Char.ofNatAux code h) else none

/-- Where the internal characters of the surrogates begin. -/
def internalSurrogateBase : ℕ := 0x10F800

/-- A surrogate is kept as a character of a range of its own. -/
def internalCharFromCodepoint (codepoint : ℕ) : Option Char :=
  if 0xD800 ≤ codepoint ∧ codepoint ≤ 0xDFFF then
    charFromU32 (internalSurrogateBase + (codepoint - 0xD800))
  else charFromU32 codepoint

/-- The first half of a pair. -/
def isHighSurrogate (code : ℕ) : Bool := 0xD800 ≤ code ∧ code ≤ 0xDBFF

/-- The second half of a pair. -/
def isLowSurrogate (code : ℕ) : Bool := 0xDC00 ≤ code ∧ code ≤ 0xDFFF

/-- The character that a pair of surrogates stands for. -/
def surrogatePairScalar (high low : ℕ) : ℕ := 0x10000 + ((high - 0xD800) <<< 10 ||| (low - 0xDC00))

/-- The value of a hexadecimal digit. -/
def hexDigit (byte : UInt8) : Option ℕ :=
  if ascii '0' ≤ byte ∧ byte ≤ ascii '9' then some (byte.toNat - 48)
  else if ascii 'a' ≤ byte ∧ byte ≤ ascii 'f' then some (byte.toNat - 97 + 10)
  else if ascii 'A' ≤ byte ∧ byte ≤ ascii 'F' then some (byte.toNat - 65 + 10)
  else none

/-- The escapes of one letter. -/
def simpleEscape (letter : UInt8) : Option Char :=
  if letter = ascii '"' then some '"'
  else if letter = ascii '\\' then some '\\'
  else if letter = ascii '/' then some '/'
  else if letter = ascii 'b' then some (Char.ofNat 0x08)
  else if letter = ascii 'f' then some (Char.ofNat 0x0C)
  else if letter = ascii 'n' then some '\n'
  else if letter = ascii 'r' then some '\r'
  else if letter = ascii 't' then some '\t'
  else none

/-! ## Numbers -/

/-- `is_ascii_digit`. -/
def isDigit (byte : UInt8) : Bool := ascii '0' ≤ byte ∧ byte ≤ ascii '9'

/-- The number that decimal digits write. -/
def digitsValue (digits : List UInt8) : ℕ :=
  digits.foldl (fun value digit => value * 10 + (digit.toNat - 48)) 0

/-- `text.parse::<i64>()` of a number. -/
def parseI64 (value : ℤ) : Option Int64 :=
  if -2 ^ 63 ≤ value ∧ value < 2 ^ 63 then some (Int64.ofInt value) else none

/-- The limit where `sys.set_int_max_str_digits` was not called. -/
def defaultIntMaxStrDigits : ℤ := 4300

/-- `json_validate_int_digits_limit`: a limit that is not positive is none. -/
def jsonValidateIntDigitsLimit (limit : ℤ) (digits : List UInt8) : Bool :=
  !decide (0 < limit ∧ limit < digits.length)

/-- The message for an integer with too many digits. -/
def limitMessage (limit : ℤ) (digits : List UInt8) : String :=
  "Exceeds the limit (" ++ toString limit ++
    " digits) for integer string conversion: value has " ++ toString digits.length ++
    " digits; use sys.set_int_max_str_digits() to increase the limit"

/-! ## The parser -/

/-- The whitespace of JSON. -/
def isWs (byte : UInt8) : Bool :=
  byte = ascii ' ' ∨ byte = ascii '\n' ∨ byte = ascii '\r' ∨ byte = ascii '\t'

namespace JsonParser

variable (source : List UInt8)

/-- The byte at a position. -/
def peek (pos : ℕ) : Option UInt8 := source[pos]?

def skipWs (pos : ℕ) : ℕ := pos + ((source.drop pos).takeWhile isWs).length

/-- The position behind the digits. -/
def skipDigits (pos : ℕ) : ℕ := pos + ((source.drop pos).takeWhile isDigit).length

/-- `expect`: one byte, or the message. -/
def expect (byte : UInt8) (message : String) (pos : ℕ) : Except JsonFault ℕ :=
  if peek source pos = some byte then .ok (pos + 1) else jsonError message pos

/-- The text stands at the position. -/
def startsWith (text : List UInt8) (pos : ℕ) : Bool := (source.drop pos).take text.length = text

/-- `null`, `true` or `false`. -/
def parseLiteral (text : List UInt8) (node : JsonNode) (pos : ℕ) : Except JsonFault (JsonNode × ℕ) :=
  if startsWith source text pos then .ok (node, pos + text.length)
  else jsonError "Expecting value" pos

/-! ### Strings -/

/-- The digits of a `\u` escape, one after the other. -/
def parseHexDigits : ℕ → ℕ → ℕ → Except JsonFault (ℕ × ℕ)
  | 0, value, pos => .ok (value, pos)
  | count + 1, value, pos =>
    match peek source pos with
    | none => jsonError "invalid unicode escape" pos
    | some byte =>
      match hexDigit byte with
      | some digit => parseHexDigits count (value * 16 + digit) (pos + 1)
      | none => jsonError "invalid unicode escape" (pos + 1)

/-- `parse_hex_u16`: four digits. -/
def parseHexU16 (pos : ℕ) : Except JsonFault (ℕ × ℕ) := parseHexDigits source 4 0 pos

/-- A character, or the error for an escape of none. -/
def validChar (ch : Option Char) (pos : ℕ) : Except JsonFault (Char × ℕ) :=
  match ch with
  | some ch => .ok (ch, pos)
  | none => jsonError "invalid unicode escape" pos

/-- The character of an escape with a code.  A high surrogate looks at the escape behind it, and
leaves one that is not a low surrogate for the next round. -/
def parseUnicodeEscape (pos : ℕ) : Except JsonFault (Char × ℕ) := do
  let (code, pos) ← parseHexU16 source pos
  if isHighSurrogate code then
    if peek source pos = some (ascii '\\') ∧ peek source (pos + 1) = some (ascii 'u') then
      let (low, next) ← parseHexU16 source (pos + 2)
      if isLowSurrogate low then validChar (charFromU32 (surrogatePairScalar code low)) next
      else validChar (internalCharFromCodepoint code) pos
    else validChar (internalCharFromCodepoint code) pos
  else if isLowSurrogate code then validChar (internalCharFromCodepoint code) pos
  else validChar (charFromU32 code) pos

/-- What stands behind a backslash. -/
def parseEscape (pos : ℕ) : Except JsonFault (Char × ℕ) :=
  match peek source pos with
  | none => jsonError "invalid JSON escape" pos
  | some letter =>
    match simpleEscape letter with
    | some ch => .ok (ch, pos + 1)
    | none =>
      if letter = ascii 'u' then parseUnicodeEscape source (pos + 1)
      else jsonError "invalid JSON escape" (pos + 1)

/-- How many bytes the character with this first byte takes. -/
def utf8Width (first : UInt8) : Option ℕ :=
  if first >>> 5 = 0b110 then some 2
  else if first >>> 4 = 0b1110 then some 3
  else if first >>> 3 = 0b11110 then some 4
  else none

/-- The bytes of a character behind the first one. -/
def parseContinuation : ℕ → ℕ → Except JsonFault (List UInt8 × ℕ)
  | 0, pos => .ok ([], pos)
  | count + 1, pos =>
    match peek source pos with
    | none => jsonError "invalid UTF-8 in JSON string" pos
    | some byte =>
      if byte &&& 0b11000000 = 0b10000000 then do
        let (bytes, pos) ← parseContinuation count (pos + 1)
        return (byte :: bytes, pos)
      else jsonError "invalid UTF-8 in JSON string" (pos + 1)

/-- The character whose first byte is in front of the position. -/
def pushUtf8Char (first : UInt8) (pos : ℕ) : Except JsonFault (Char × ℕ) :=
  match utf8Width first with
  | none => jsonError "invalid UTF-8 in JSON string" pos
  | some width => do
    let (bytes, pos) ← parseContinuation source (width - 1) pos
    match (String.fromUTF8? (first :: bytes).toByteArray).bind fun text => text.toList.head? with
    | some ch => return (ch, pos)
    | none => jsonError "invalid UTF-8 in JSON string" pos

/-- The loop over the characters of a string. -/
def parseStringFrom (startQuotePos : ℕ) : ℕ → String → ℕ → Except JsonFault (String × ℕ)
  | 0, _, _ => .error .outOfFuel
  | fuel + 1, out, pos =>
    match peek source pos with
    | none => jsonError "Unterminated string starting at" startQuotePos
    | some byte =>
      if byte = ascii '"' then .ok (out, pos + 1)
      else if byte = ascii '\\' then do
        let (ch, pos) ← parseEscape source (pos + 1)
        parseStringFrom startQuotePos fuel (out.push ch) pos
      else if byte < 0x20 then jsonError "invalid control character in JSON string" pos
      else if byte < 0x80 then
        parseStringFrom startQuotePos fuel (out.push (Char.ofNat byte.toNat)) (pos + 1)
      else do
        let (ch, pos) ← pushUtf8Char source byte (pos + 1)
        parseStringFrom startQuotePos fuel (out.push ch) pos

def parseString (pos : ℕ) : Except JsonFault (String × ℕ) := do
  let next ← expect source (ascii '"') "Expecting value" pos
  parseStringFrom source pos (source.length + 1) "" next

/-! ### Numbers -/

section Numbers

variable (parseF64 : List UInt8 → Option Binary64) (limit : ℤ)

/-- Whether a digit stands at a position. -/
def peekDigit (pos : ℕ) : Bool := (peek source pos).any isDigit

/-- The position behind a sign. -/
def parseMinus (pos : ℕ) : ℕ := if peek source pos = some (ascii '-') then pos + 1 else pos

/-- A zero, or digits that do not begin with one. -/
def parseIntPart (pos : ℕ) : Except JsonFault ℕ :=
  if peek source pos = some (ascii '0') then
    if peekDigit source (pos + 1) then jsonError "invalid JSON number" (pos + 1) else .ok (pos + 1)
  else if peekDigit source pos then .ok (skipDigits source (pos + 1))
  else jsonError "invalid JSON number" pos

/-- One digit at least. -/
def parseDigits (pos : ℕ) : Except JsonFault ℕ :=
  if peekDigit source pos then .ok (skipDigits source pos) else jsonError "invalid JSON number" pos

/-- The digits behind a point. -/
def parseFraction (pos : ℕ) : Except JsonFault ℕ :=
  if peek source pos = some (ascii '.') then parseDigits source (pos + 1) else .ok pos

/-- The digits of an exponent, with their sign. -/
def parseExponent (pos : ℕ) : Except JsonFault ℕ :=
  if peek source pos = some (ascii 'e') ∨ peek source pos = some (ascii 'E') then
    parseDigits source
      (if peek source (pos + 1) = some (ascii '+') ∨ peek source (pos + 1) = some (ascii '-') then
        pos + 2
      else pos + 1)
  else .ok pos

/-- The node of the text of a number. -/
def numberNode (text : List UInt8) (pos : ℕ) : Except JsonFault (JsonNode × ℕ) :=
  if ascii '.' ∈ text ∨ ascii 'e' ∈ text ∨ ascii 'E' ∈ text then
    match parseF64 text with
    | some value => .ok (.float value, pos)
    | none => jsonError "invalid JSON number" pos
  else
    let negative := text.head? = some (ascii '-')
    let digits := if negative then text.tail else text
    let value : ℤ := if negative then -digitsValue digits else digitsValue digits
    match parseI64 value with
    | some value => .ok (.int value, pos)
    | none =>
      if jsonValidateIntDigitsLimit limit digits then .ok (.bigInt value, pos)
      else jsonError (limitMessage limit digits) pos

/-- `parse_number`: an integer without a fraction and an exponent, else a float. -/
def parseNumber (start : ℕ) : Except JsonFault (JsonNode × ℕ) := do
  let pos ← parseIntPart source (parseMinus source start)
  let pos ← parseFraction source pos
  let pos ← parseExponent source pos
  numberNode parseF64 limit ((source.drop start).take (pos - start)) pos

end Numbers

/-! ### Arrays and objects -/

section Containers

variable (value : ℕ → Except JsonFault (JsonNode × ℕ))

/-- The rounds of the loop of an array. -/
def parseElements : ℕ → Option ℕ → List JsonNode → ℕ → Except JsonFault (List JsonNode × ℕ)
  | 0, _, _, _ => .error .outOfFuel
  | fuel + 1, trailingCommaPos, values, pos =>
    match if peek source pos = some (ascii ']') then trailingCommaPos else none with
    | some commaPos => jsonError "Illegal trailing comma before end of array" commaPos
    | none => do
      let (node, pos) ← value pos
      let pos := skipWs source pos
      match peek source pos with
      | none => jsonError "Expecting ',' delimiter" pos
      | some byte =>
        if byte = ascii ',' then
          let next := skipWs source (pos + 1)
          if peek source next = none then jsonError "Expecting value" next
          else parseElements fuel (some pos) (values ++ [node]) next
        else if byte = ascii ']' then .ok (values ++ [node], pos + 1)
        else jsonError "Expecting ',' delimiter" pos

def parseArray (pos : ℕ) : Except JsonFault (JsonNode × ℕ) := do
  let pos ← expect source (ascii '[') "Expecting value" pos
  let pos := skipWs source pos
  if peek source pos = some (ascii ']') then return (.array [], pos + 1)
  let (values, pos) ← parseElements source value (source.length + 1) none [] pos
  return (.array values, pos)

/-- A key, a colon and a value. -/
def parseMember (pos : ℕ) : Except JsonFault ((String × JsonNode) × ℕ) :=
  if peek source pos ≠ some (ascii '"') then
    jsonError "Expecting property name enclosed in double quotes" pos
  else do
    let (key, pos) ← parseString source pos
    let pos ← expect source (ascii ':') "Expecting ':' delimiter" (skipWs source pos)
    let pos := skipWs source pos
    if peek source pos = none then jsonError "Expecting value" pos
    else do
      let (node, pos) ← value pos
      return ((key, node), pos)

/-- The rounds of the loop of an object. -/
def parseMembers : ℕ → Option ℕ → List (String × JsonNode) → ℕ → Except JsonFault (List (String × JsonNode) × ℕ)
  | 0, _, _, _ => .error .outOfFuel
  | fuel + 1, trailingCommaPos, values, pos =>
    match if peek source pos = some (ascii '}') then trailingCommaPos else none with
    | some commaPos => jsonError "Illegal trailing comma before end of object" commaPos
    | none => do
      let (member, pos) ← parseMember source value pos
      let pos := skipWs source pos
      match peek source pos with
      | none => jsonError "Expecting ',' delimiter" pos
      | some byte =>
        if byte = ascii ',' then
          let next := skipWs source (pos + 1)
          if peek source next = none then
            jsonError "Expecting property name enclosed in double quotes" next
          else parseMembers fuel (some pos) (values ++ [member]) next
        else if byte = ascii '}' then .ok (values ++ [member], pos + 1)
        else jsonError "Expecting ',' delimiter" pos

def parseObject (pos : ℕ) : Except JsonFault (JsonNode × ℕ) := do
  let pos ← expect source (ascii '{') "Expecting value" pos
  let pos := skipWs source pos
  if peek source pos = some (ascii '}') then return (.object [], pos + 1)
  let (values, pos) ← parseMembers source value (source.length + 1) none [] pos
  return (.object values, pos)

end Containers

/-! ### Values -/

/-- The value of `Infinity`. -/
def infinity : Binary64 := ⟨0x7FF0000000000000⟩

/-- The value of `-Infinity`. -/
def negInfinity : Binary64 := ⟨0xFFF0000000000000⟩

/-- The value of `NaN`. -/
def nan : Binary64 := ⟨0x7FF8000000000000⟩

variable (parseF64 : List UInt8 → Option Binary64) (limit : ℤ)

/-- The levels are what is left of the depth limit. -/
def parseValue : ℕ → ℕ → Except JsonFault (JsonNode × ℕ)
  | 0, pos => jsonError "maximum recursion depth exceeded" pos
  | levels + 1, pos =>
    let pos := skipWs source pos
    if startsWith source (asciiBytes "-Infinity") pos then .ok (.float negInfinity, pos + 9)
    else
      match peek source pos with
      | none => jsonError "Expecting value" pos
      | some byte =>
        if byte = ascii 'n' then parseLiteral source (asciiBytes "null") .null pos
        else if byte = ascii 't' then parseLiteral source (asciiBytes "true") (.bool true) pos
        else if byte = ascii 'f' then parseLiteral source (asciiBytes "false") (.bool false) pos
        else if byte = ascii 'N' then parseLiteral source (asciiBytes "NaN") (.float nan) pos
        else if byte = ascii 'I' then
          parseLiteral source (asciiBytes "Infinity") (.float infinity) pos
        else if byte = ascii '"' then do
          let (text, pos) ← parseString source pos
          return (.string text, pos)
        else if byte = ascii '[' then parseArray source (parseValue levels) pos
        else if byte = ascii '{' then parseObject source (parseValue levels) pos
        else if byte = ascii '-' ∨ isDigit byte then parseNumber source parseF64 limit pos
        else jsonError "Expecting value" pos

/-- `parse`: one value with nothing but whitespace behind it. -/
def parse (depthLimit : ℕ) : Except JsonFault JsonNode := do
  let (value, pos) ← parseValue source parseF64 limit (max depthLimit 1) (skipWs source 0)
  let pos := skipWs source pos
  if pos ≠ source.length then jsonError "Extra data" pos else return value

end JsonParser

end Pyrs
