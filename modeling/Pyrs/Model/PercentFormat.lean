import Pyrs.Model.BigIntFloats
import Pyrs.Model.BigIntText
import Pyrs.Model.IntegerKernels

/-!
# Percent formatting

`string_percent_format` and `string_percent_format_runtime` of `vm/ops.rs`: one loop over the
characters of the template, with what is left of the positional arguments.  The operands are those
without instances; what is asked of other parts of the program, and of `snprintf`, is a parameter.
-/

namespace Pyrs

/-- The values on the right of `%`. -/
inductive PercentValue
  | none
  | int (value : IntValue)
  | float (value : Binary64)
  | str (text : String)
  | tuple (values : List PercentValue)
  | dict (entries : List (PercentValue × PercentValue))

/-- The errors by their kind, with their message. -/
inductive PercentError
  | valueError (message : String)
  | typeError (message : String)
  | keyError (key : String)
  | overflowError (message : String)
  | new (message : String)
  | panicked
deriving DecidableEq

/-- A text or an exception. -/
abbrev PercentResult := Except PercentError

/-- The texts of values, and the format of C. -/
structure PercentTexts where
  formatValue : PercentValue → String
  formatRepr : PercentValue → String
  snprintf : String → Binary64 → PercentResult String

namespace PercentFormat

/-! ## Values -/

/-- The integer operations of the format. -/
def bigint {α : Type} : Option α → PercentResult α
  | some value => .ok value
  | none => .error .panicked

def valueToInt : PercentValue → PercentResult Int64
  | .int (.int value) => .ok value
  | .int (.bigInt value _) =>
    match value.toI64 with
    | some value => .ok value
    | none => .error (.overflowError "integer overflow")
  | .int (.bool value) => .ok (if value then 1 else 0)
  | _ => .error (.typeError "unsupported operand type")

/-- An integer or a boolean as a big integer. -/
def intLikeToBigint : PercentValue → PercentResult BigInt
  | .int value => .ok value.intLikeToBigint
  | _ => .error (.typeError "expected integer")

/-- The sign in front of a number. -/
def signChars (negative forceSign spaceSign : Bool) : List Char :=
  if negative then ['-'] else if forceSign then ['+'] else if spaceSign then [' '] else []

/-- The digits of an integer in a base that is a power of two. -/
def formatRadix (value : PercentValue) (radix : UInt32) (digits : List Char → List Char)
    (unsupported : String) (base : List Char) (forceSign spaceSign alternate : Bool) :
    PercentResult String := do
  let integer ← intLikeToBigint value
  match ← bigint (integer.abs.toStrRadix radix) with
  | none => .error (.new unsupported)
  | some text =>
    return String.ofList (signChars integer.isNegative forceSign spaceSign ++
      (if alternate then base else []) ++ digits text.toList)

/-- A float in one of its conversions. -/
def formatFloat (texts : PercentTexts) (value : PercentValue) (conversion : Char)
    (precision : Option ℕ) (forceSign spaceSign alternate : Bool) : PercentResult String := do
  let number ← match value with
    | .int (.bool flag) => .ok (Binary64.ofNat false (if flag then 1 else 0))
    | .int (.int number) => .ok (Binary64.ofInt number.toInt)
    | .int (.bigInt number _) =>
      if number.toF64.isFinite then .ok number.toF64
      else .error (.overflowError "int too large to convert to float")
    | .float number => .ok number
    | _ => .error (.new "must be real number")
  let precisionSpec := match precision with
    | some precision => '.' :: Nat.toDigits 10 precision
    | none => []
  texts.snprintf (String.ofList ('%' :: signChars false forceSign spaceSign ++
    (if alternate then ['#'] else []) ++ precisionSpec ++ [conversion])) number

/-- The text of a character. -/
def formatChar : PercentValue → PercentResult String
  | .int (.int code) =>
    if h : 0 ≤ code.toInt ∧ code.toInt.toNat.isValidChar then
      .ok (String.ofList [Char.ofNatAux code.toInt.toNat h.2])
    else .error (.new "%c arg not in range")
  | .str text =>
    match text.toList with
    | [ch] => .ok (String.ofList [ch])
    | _ => .error (.new "%c requires int or char")
  | _ => .error (.new "%c requires int or char")

/-- The first characters, as many as the precision says. -/
def truncated (text : String) : Option ℕ → String
  | some limit => String.ofList (text.toList.take limit)
  | none => text

/-- `format_percent_value`: one value in one conversion. -/
def formatPercentValue (texts : PercentTexts) (value : PercentValue) (conversion : Char)
    (precision : Option ℕ) (forceSign spaceSign alternate : Bool) : PercentResult String :=
  match conversion with
  | 's' => .ok (truncated (match value with
      | .str text => text
      | other => texts.formatValue other) precision)
  | 'r' | 'a' => .ok (truncated (texts.formatRepr value) precision)
  | 'd' | 'i' | 'u' => do
    let integer ← intLikeToBigint value
    let text := (← bigint integer.display).toList
    return String.ofList
      (if text.head? = some '-' then text else signChars false forceSign spaceSign ++ text)
  | 'e' | 'E' | 'f' | 'F' | 'g' | 'G' =>
    formatFloat texts value conversion precision forceSign spaceSign alternate
  | 'x' => formatRadix value 16 id "unsupported operand type for hex formatting" ['0', 'x']
      forceSign spaceSign alternate
  | 'X' => formatRadix value 16 (List.map Char.toUpper) "unsupported operand type for hex formatting"
      ['0', 'X'] forceSign spaceSign alternate
  | 'o' => formatRadix value 8 id "unsupported operand type for octal formatting" ['0', 'o']
      forceSign spaceSign alternate
  | 'c' => formatChar value
  | _ => .error (.valueError "unsupported format character")

/-- The conversions that zeros pad. -/
def isNumericPercentConversion (conversion : Char) : Bool :=
  conversion ∈ ['d', 'i', 'u', 'x', 'X', 'o', 'e', 'E', 'f', 'F', 'g', 'G']

def applyPercentWidth (text : List Char) (width : Option ℕ) (leftAlign zeroPad : Bool)
    (conversion : Char) : List Char :=
  match width with
  | none => text
  | some width =>
    if width ≤ text.length then text
    else
      let padCount := width - text.length
      let padChar := if zeroPad && isNumericPercentConversion conversion then '0' else ' '
      if leftAlign then text ++ List.replicate padCount ' '
      else
        match text with
        | [] => List.replicate padCount padChar
        | sign :: rest =>
          if padChar = '0' ∧ (sign = '-' ∨ sign = '+' ∨ sign = ' ') then
            sign :: (List.replicate padCount '0' ++ rest)
          else List.replicate padCount padChar ++ sign :: rest

/-! ## Specifications -/

/-- The flags of a specifier. -/
structure Flags where
  leftAlign : Bool := false
  zeroPad : Bool := false
  forceSign : Bool := false
  spaceSign : Bool := false
  alternate : Bool := false
deriving DecidableEq

/-- The characters of the flags. -/
def flagChars : List Char := ['#', '0', '-', ' ', '+']

/-- One flag more. -/
def Flags.set (flags : Flags) : Char → Flags
  | '-' => { flags with leftAlign := true }
  | '0' => { flags with zeroPad := true }
  | '+' => { flags with forceSign := true }
  | ' ' => { flags with spaceSign := true }
  | '#' => { flags with alternate := true }
  | _ => flags

/-- The flags in front of the width. -/
def takeFlags (flags : Flags) : List Char → Flags × List Char
  | [] => (flags, [])
  | c :: chars => if c ∈ flagChars then takeFlags (flags.set c) chars else (flags, c :: chars)

/-- The key in parentheses, where there is one. -/
def takeKey : List Char → PercentResult (Option String × List Char)
  | '(' :: chars =>
    match chars.dropWhile (· != ')') with
    | [] => .error (.valueError "incomplete format key")
    | _ :: rest => .ok (some (String.ofList (chars.takeWhile (· != ')'))), rest)
  | chars => .ok (none, chars)

/-- The next argument, or the error that there is none. -/
def nextArg : List PercentValue → PercentResult (PercentValue × List PercentValue)
  | [] => .error (.typeError "not enough arguments for format string")
  | value :: args => .ok (value, args)

/-- The argument of a `*`. -/
def starArg (key : Option String) (args : List PercentValue) :
    PercentResult (Int64 × List PercentValue) := do
  if key.isSome then throw (.typeError "format requires a mapping")
  let (value, args) ← nextArg args
  return (← valueToInt value, args)

/-- The number of digits, or the message where it does not fit. -/
def parseUsize (digits : List Char) (message : String) : PercentResult ℕ :=
  match checkedU64 (Nat.ofDigitChars 10 digits 0) with
  | some value => .ok value
  | none => .error (.valueError message)

/-- A part of a specification, with the characters and the arguments behind it. -/
structure Taken (α : Type) where
  value : α
  chars : List Char
  args : List PercentValue

/-- The width, and whether it asks for the left side. -/
def takeWidth (key : Option String) (chars : List Char) (args : List PercentValue) :
    PercentResult (Taken (Option ℕ × Bool)) :=
  match chars with
  | '*' :: chars => do
    let (width, args) ← starArg key args
    return ⟨(some width.toInt.natAbs, decide (width < 0)), chars, args⟩
  | chars => do
    let digits := chars.takeWhile Char.isDigit
    let width ← if digits = [] then pure none
      else (parseUsize digits "invalid width in format string").map some
    return ⟨(width, false), chars.dropWhile Char.isDigit, args⟩

/-- What stands behind a point. -/
def takePrecision (key : Option String) (chars : List Char) (args : List PercentValue) :
    PercentResult (Taken (Option ℕ)) :=
  match chars with
  | '.' :: '*' :: chars => do
    let (precision, args) ← starArg key args
    return ⟨if 0 ≤ precision then some precision.toInt.toNat else none, chars, args⟩
  | '.' :: chars => do
    let digits := chars.takeWhile Char.isDigit
    let precision ← if digits = [] then pure 0
      else parseUsize digits "invalid precision in format string"
    return ⟨some precision, chars.dropWhile Char.isDigit, args⟩
  | chars => return ⟨none, chars, args⟩

/-- A specifier without its conversion. -/
structure Spec where
  flags : Flags
  width : Option ℕ
  precision : Option ℕ
  conversion : Char

/-- The key, the flags, the width and the precision. -/
def takeSpec (key : Option String) (chars : List Char) (args : List PercentValue) :
    PercentResult (Taken Spec) := do
  let (flags, chars) := takeFlags {} chars
  let ⟨(width, left), chars, args⟩ ← takeWidth key chars args
  let ⟨precision, chars, args⟩ ← takePrecision key chars args
  match chars.dropWhile fun c => c = 'h' || c = 'l' || c = 'L' with
  | [] => .error (.valueError "incomplete format")
  | conversion :: chars =>
    return ⟨⟨{ flags with leftAlign := flags.leftAlign || left }, width, precision, conversion⟩,
      chars, args⟩

/-! ## The loop -/

/-- The entries of a dict operand, and of none other. -/
def mappingOf : PercentValue → Option (List (PercentValue × PercentValue))
  | .dict entries => some entries
  | _ => none

/-- The value of a key. -/
def mappingLookup (mapping : Option (List (PercentValue × PercentValue))) (key : String) :
    PercentResult PercentValue :=
  match mapping with
  | none => .error (.typeError "format requires a mapping")
  | some entries =>
    match entries.findSome? fun entry => match entry.1 with
      | .str name => if name = key then some entry.2 else none
      | _ => none with
    | some value => .ok value
    | none => .error (.keyError key)

/-- The items of a tuple, or the value alone. -/
def percentFormatPositionalArgs : PercentValue → List PercentValue
  | .tuple values => values
  | right => [right]

/-- The value of a conversion, and the arguments behind it.  The runtime formatter has none left
behind a mapping key. -/
def conversionValue (runtime : Bool) (mapping : Option (List (PercentValue × PercentValue)))
    (key : Option String) (args : List PercentValue) :
    PercentResult (PercentValue × List PercentValue) :=
  match key with
  | some key => do return (← mappingLookup mapping key, if runtime then [] else args)
  | none => nextArg args

/-- A conversion, from behind its `%`. -/
def formatConversion (texts : PercentTexts) (runtime : Bool)
    (mapping : Option (List (PercentValue × PercentValue))) (chars : List Char)
    (args : List PercentValue) : PercentResult (Taken (Bool × List Char)) := do
  let (key, chars) ← takeKey chars
  let ⟨spec, chars, args⟩ ← takeSpec key chars args
  let (value, args) ← conversionValue runtime mapping key args
  let formatted ← formatPercentValue texts value spec.conversion spec.precision spec.flags.forceSign
    spec.flags.spaceSign spec.flags.alternate
  return ⟨(key.isSome, applyPercentWidth formatted.toList spec.width spec.flags.leftAlign
    (spec.flags.zeroPad && !spec.flags.leftAlign) spec.conversion), chars, args⟩

/-- The loop over the template.  Every round takes a character, so that there are no more rounds
than characters. -/
def formatLoop (texts : PercentTexts) (runtime : Bool)
    (mapping : Option (List (PercentValue × PercentValue))) :
    ℕ → List Char → List PercentValue → Bool → PercentResult (List Char)
  | _, [], args, usedMapping =>
    if !usedMapping && !args.isEmpty && !(runtime && mapping.isSome) then
      .error (.typeError "not all arguments converted during string formatting")
    else .ok []
  | 0, _ :: _, _, _ => .error .panicked
  | rounds + 1, c :: chars, args, usedMapping =>
    if c ≠ '%' then do
      return c :: (← formatLoop texts runtime mapping rounds chars args usedMapping)
    else
      match chars with
      | [] => .error (.valueError "incomplete format")
      | '%' :: chars => do
        return '%' :: (← formatLoop texts runtime mapping rounds chars args usedMapping)
      | chars => do
        let ⟨(keyed, out), chars, args⟩ ← formatConversion texts runtime mapping chars args
        return out ++ (← formatLoop texts runtime mapping rounds chars args (usedMapping || keyed))

/-- The loop over the template and the check behind it. -/
def percentFormat (texts : PercentTexts) (runtime : Bool) (format : String) (right : PercentValue) :
    PercentResult String := do
  let out ← formatLoop texts runtime (mappingOf right) format.toList.length format.toList
    (percentFormatPositionalArgs right) false
  return String.ofList out

end PercentFormat

open PercentFormat

def stringPercentFormat (texts : PercentTexts) (format : String) (right : PercentValue) :
    PercentResult String := percentFormat texts false format right

def stringPercentFormatRuntime (texts : PercentTexts) (format : String) (right : PercentValue) :
    PercentResult String := percentFormat texts true format right

end Pyrs
