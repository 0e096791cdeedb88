import Pyrs.Model.Json

/-!
# The grammar of JSON

The grammar of RFC 8259 over the bytes of a text, with the literals `NaN`, `Infinity` and
`-Infinity` and the escapes of lone surrogates, and the node that each derivation denotes.  A
relation holds of a text, what its first part denotes and the rest of the text.
-/

namespace Pyrs

namespace JsonGrammar

def Ws (text rest : List UInt8) : Prop :=
  ∃ spaces, (∀ byte ∈ spaces, isWs byte = true) ∧ text = spaces ++ rest

/-! ## Strings -/

/-- So many hexadecimal digits, behind others with a value. -/
inductive HexDigits : ℕ → ℕ → List UInt8 → ℕ → List UInt8 → Prop
  | nil {value : ℕ} {rest : List UInt8} : HexDigits 0 value rest value rest
  | cons {count value digit code : ℕ} {byte : UInt8} {text rest : List UInt8}
      (hdigit : hexDigit byte = some digit)
      (h : HexDigits count (value * 16 + digit) text code rest) :
      HexDigits (count + 1) value (byte :: text) code rest

def Hex (text : List UInt8) (code : ℕ) (rest : List UInt8) : Prop := HexDigits 4 0 text code rest

def unicodeEscape (text : List UInt8) : List UInt8 := ascii '\\' :: ascii 'u' :: text

inductive CharText : List UInt8 → Char → List UInt8 → Prop
  | unescaped {ch : Char} {rest : List UInt8} (hcontrol : 0x20 ≤ ch.toNat) (hquote : ch ≠ '"')
      (hbackslash : ch ≠ '\\') : CharText (String.utf8EncodeChar ch ++ rest) ch rest
  | escape {letter : UInt8} {ch : Char} {rest : List UInt8} (h : simpleEscape letter = some ch) :
      CharText (ascii '\\' :: letter :: rest) ch rest
  | unicode {text rest : List UInt8} {code : ℕ} (h : Hex text code rest)
      (hhigh : isHighSurrogate code = false) (hlow : isLowSurrogate code = false) :
      CharText (unicodeEscape text) (Char.ofNat code) rest
  | pair {text next rest : List UInt8} {high low : ℕ} (hhigh : Hex text high (unicodeEscape next))
      (hisHigh : isHighSurrogate high = true) (hlow : Hex next low rest)
      (hisLow : isLowSurrogate low = true) :
      CharText (unicodeEscape text)
        (Char.ofNat (0x10000 + (high - 0xD800) * 0x400 + (low - 0xDC00))) rest
  /-- A high surrogate is alone where no low one follows. -/
  | lone {text rest : List UInt8} {code : ℕ} (h : Hex text code rest)
      (hcode : isHighSurrogate code = true ∨ isLowSurrogate code = true)
      (hnext : isHighSurrogate code = true → ∀ next low rest', rest = unicodeEscape next →
        Hex next low rest' → isLowSurrogate low = false) :
      CharText (unicodeEscape text) (Char.ofNat (internalSurrogateBase + (code - 0xD800))) rest

/-- The text of a string behind its first quote. -/
inductive StringText : List UInt8 → List Char → List UInt8 → Prop
  | quote {rest : List UInt8} : StringText (ascii '"' :: rest) [] rest
  | char {text next rest : List UInt8} {ch : Char} {chars : List Char} (hch : CharText text ch next)
      (h : StringText next chars rest) : StringText text (ch :: chars) rest

/-! ## Numbers -/

def Digits (text : List UInt8) : Prop := text ≠ [] ∧ ∀ byte ∈ text, isDigit byte = true

/-- Zero, or digits of which the first is not zero. -/
def IntText (text : List UInt8) : Prop :=
  Digits text ∧ (text = [ascii '0'] ∨ text.head? ≠ some (ascii '0'))

def FractionText (text : List UInt8) : Prop := ∃ digits, Digits digits ∧ text = ascii '.' :: digits

def ExponentText (text : List UInt8) : Prop :=
  ∃ letter sign digits, (letter = ascii 'e' ∨ letter = ascii 'E') ∧
    (sign = [] ∨ sign = [ascii '+'] ∨ sign = [ascii '-']) ∧ Digits digits ∧
      text = letter :: (sign ++ digits)

/-- The exact value of an integer. -/
def integerValue (minus digits : List UInt8) : ℤ :=
  if minus = [] then digitsValue digits else -digitsValue digits

def integerNode (value : ℤ) : JsonNode :=
  match parseI64 value with
  | some value => .int value
  | none => .bigInt value

/-- An integer outside 64 bits has no more digits than the limit, where there is one. -/
def WithinLimit (limit : ℤ) (minus digits : List UInt8) : Prop :=
  (parseI64 (integerValue minus digits)).isSome ∨ jsonValidateIntDigitsLimit limit digits = true

/-- A number with a fraction or an exponent. -/
def FloatText (text : List UInt8) : Prop :=
  ∃ minus digits fraction exponent, (minus = [] ∨ minus = [ascii '-']) ∧ IntText digits ∧
    (fraction = [] ∨ FractionText fraction) ∧ (exponent = [] ∨ ExponentText exponent) ∧
      fraction ++ exponent ≠ [] ∧ text = minus ++ digits ++ fraction ++ exponent

section

variable (floatValue : List UInt8 → Binary64) (limit : ℤ)

inductive NumberText : List UInt8 → JsonNode → Prop
  | integer {minus digits : List UInt8} (hminus : minus = [] ∨ minus = [ascii '-'])
      (hdigits : IntText digits) (hlimit : WithinLimit limit minus digits) :
      NumberText (minus ++ digits) (integerNode (integerValue minus digits))
  | float {text : List UInt8} (h : FloatText text) : NumberText text (.float (floatValue text))

/-- The library function for floats takes every such number. -/
def ParsesFloats (parseF64 : List UInt8 → Option Binary64) : Prop :=
  ∀ text, FloatText text → parseF64 text = some (floatValue text)

/-! ## Values -/

def literals : List (List UInt8 × JsonNode) :=
  [(asciiBytes "null", .null), (asciiBytes "true", .bool true), (asciiBytes "false", .bool false),
    (asciiBytes "NaN", .float JsonParser.nan), (asciiBytes "Infinity", .float JsonParser.infinity),
    (asciiBytes "-Infinity", .float JsonParser.negInfinity)]

mutual

inductive ValueText : List UInt8 → JsonNode → List UInt8 → Prop
  | literal {text rest : List UInt8} {node : JsonNode} (h : (text, node) ∈ literals) :
      ValueText (text ++ rest) node rest
  | string {text rest : List UInt8} {chars : List Char} (h : StringText text chars rest) :
      ValueText (ascii '"' :: text) (.string (String.ofList chars)) rest
  | number {text rest : List UInt8} {node : JsonNode} (h : NumberText floatValue limit text node) :
      ValueText (text ++ rest) node rest
  | emptyArray {text rest : List UInt8} (h : Ws text (ascii ']' :: rest)) :
      ValueText (ascii '[' :: text) (.array []) rest
  | array {text rest : List UInt8} {nodes : List JsonNode} (h : ElementsText text nodes rest) :
      ValueText (ascii '[' :: text) (.array nodes) rest
  | emptyObject {text rest : List UInt8} (h : Ws text (ascii '}' :: rest)) :
      ValueText (ascii '{' :: text) (.object []) rest
  | object {text rest : List UInt8} {members : List (String × JsonNode)}
      (h : MembersText text members rest) : ValueText (ascii '{' :: text) (.object members) rest

/-- The values of an array, up to its last bracket. -/
inductive ElementsText : List UInt8 → List JsonNode → List UInt8 → Prop
  | last {text first next rest : List UInt8} {node : JsonNode} (hws : Ws text first)
      (hvalue : ValueText first node next) (hend : Ws next (ascii ']' :: rest)) :
      ElementsText text [node] rest
  | more {text first next others rest : List UInt8} {node : JsonNode} {nodes : List JsonNode}
      (hws : Ws text first) (hvalue : ValueText first node next)
      (hcomma : Ws next (ascii ',' :: others)) (h : ElementsText others nodes rest) :
      ElementsText text (node :: nodes) rest

/-- The members of an object, up to its last brace. -/
inductive MembersText : List UInt8 → List (String × JsonNode) → List UInt8 → Prop
  | last {text next rest : List UInt8} {member : String × JsonNode}
      (hmember : MemberText text member next) (hend : Ws next (ascii '}' :: rest)) :
      MembersText text [member] rest
  | more {text next others rest : List UInt8} {member : String × JsonNode}
      {members : List (String × JsonNode)} (hmember : MemberText text member next)
      (hcomma : Ws next (ascii ',' :: others)) (h : MembersText others members rest) :
      MembersText text (member :: members) rest

inductive MemberText : List UInt8 → String × JsonNode → List UInt8 → Prop
  | member {text key next value first rest : List UInt8} {chars : List Char} {node : JsonNode}
      (hws : Ws text (ascii '"' :: key)) (hkey : StringText key chars next)
      (hcolon : Ws next (ascii ':' :: value)) (hws' : Ws value first)
      (hvalue : ValueText first node rest) : MemberText text (String.ofList chars, node) rest

end

/-- A whole text. -/
def TextOf (text : List UInt8) (node : JsonNode) : Prop :=
  ∃ first next, Ws text first ∧ ValueText floatValue limit first node next ∧ Ws next []

end

end JsonGrammar

end Pyrs
