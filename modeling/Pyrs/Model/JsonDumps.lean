import Pyrs.Model.Json
import Mathlib.Data.Nat.Digits.Defs

/-!
# JSON serialization

`json_serialize_value` over the objects of a heap.  An object of another type has no `default`
callback and no backing value, and the keys are not sorted.  The rendering of a float and of a text
in a note are those of the runtime.
-/

namespace Pyrs

/-- The values that are serialized. -/
inductive DumpsValue
  | none
  | bool (value : Bool)
  | int (value : Int64)
  | bigInt (value : ℤ)
  | float (value : Binary64)
  | str (value : String)
  | list (id : ℕ)
  | tuple (id : ℕ)
  | dict (id : ℕ)
  | other (typeName : String)

/-- The objects of the heap. -/
inductive DumpsObject
  | list (values : List DumpsValue)
  | tuple (values : List DumpsValue)
  | dict (entries : List (DumpsValue × DumpsValue))

/-- What an object is of. -/
abbrev DumpsHeap : Type := ℕ → Option DumpsObject

/-- The options of `dumps`. -/
structure JsonDumpsOptions where
  skipkeys : Bool
  ensureAscii : Bool
  allowNan : Bool
  itemSeparator : String
  keySeparator : String
  indent : Option String

/-- The options by default, for an indentation; it takes the space from the separator of items. -/
def JsonDumpsOptions.default (ensureAscii : Bool) (indent : Option String) : JsonDumpsOptions where
  skipkeys := false
  ensureAscii := ensureAscii
  allowNan := true
  itemSeparator := if indent.isSome then "," else ", "
  keySeparator := ": "
  indent := indent

/-- A message and the notes on the way out. -/
structure DumpsError where
  message : String
  notes : List String

/-- Fails with a message. -/
def dumpsError {α : Type} (message : String) : Except DumpsError α := .error ⟨message, []⟩

/-- `json_append_exception_note`. -/
def withNote {α : Type} (note : String) : Except DumpsError α → Except DumpsError α
  | .ok value => .ok value
  | .error error => .error { error with notes := error.notes ++ [note] }

/-! ## Strings -/

/-- `{:04x}` of a code unit. -/
def hexUnit (unit : ℕ) : String :=
  String.ofList [Nat.digitChar (unit / 4096 % 16), Nat.digitChar (unit / 256 % 16),
    Nat.digitChar (unit / 16 % 16), Nat.digitChar (unit % 16)]

/-- A `\u` escape. -/
def escapeUnit (unit : ℕ) : String := "\\u" ++ hexUnit unit

/-- The surrogate that an internal character stands for. -/
def surrogateCodeUnitFromInternalChar (ch : Char) : Option ℕ :=
  if internalSurrogateBase ≤ ch.toNat ∧ ch.toNat < internalSurrogateBase + 0x800 then
    some (0xD800 + (ch.toNat - internalSurrogateBase))
  else none

/-- `char::encode_utf16`. -/
def encodeUtf16 (ch : Char) : List ℕ :=
  if ch.toNat < 0x10000 then [ch.toNat]
  else [0xD800 + (ch.toNat - 0x10000) / 0x400, 0xDC00 + (ch.toNat - 0x10000) % 0x400]

/-- One character of a string. -/
def jsonEscapeChar (ensureAscii : Bool) (ch : Char) : String :=
  match surrogateCodeUnitFromInternalChar ch with
  | some unit => if ensureAscii then escapeUnit unit else String.singleton ch
  | none =>
    if ch = '"' then "\\\""
    else if ch = '\\' then "\\\\"
    else if ch = Char.ofNat 0x08 then "\\b"
    else if ch = Char.ofNat 0x0C then "\\f"
    else if ch = '\n' then "\\n"
    else if ch = '\r' then "\\r"
    else if ch = '\t' then "\\t"
    else if ch.toNat ≤ 0x1F then escapeUnit ch.toNat
    else if ensureAscii ∧ (0x80 ≤ ch.toNat ∨ ch.toNat = 0x7F) then
      String.join ((encodeUtf16 ch).map escapeUnit)
    else String.singleton ch

def jsonEscapeString (text : String) (ensureAscii : Bool) : String :=
  "\"" ++ String.join (text.toList.map (jsonEscapeChar ensureAscii)) ++ "\""

/-! ## Values -/

/-- The decimal text of an integer. -/
def decimalText (value : ℤ) : String :=
  if value < 0 then "-" ++ String.ofList (Nat.toDigits 10 value.natAbs)
  else String.ofList (Nat.toDigits 10 value.natAbs)

/-- The text of a float that is not finite. -/
def jsonNonfiniteFloatLiteral (value : Binary64) : String :=
  if value.isNaN then "NaN" else if value.sign then "-Infinity" else "Infinity"

/-- How the error names the float. -/
def jsonNonfiniteFloatErrorLiteral (value : Binary64) : String :=
  if value.isNaN then "nan" else if value.sign then "-inf" else "inf"

/-- How the error names a type. -/
def jsonTypeName : DumpsValue → String
  | .none => "NoneType"
  | .bool _ => "bool"
  | .int _ | .bigInt _ => "int"
  | .float _ => "float"
  | .str _ => "str"
  | .list _ => "list"
  | .tuple _ => "tuple"
  | .dict _ => "dict"
  | .other typeName => typeName

/-- `str::repeat`. -/
def repeatText (text : String) (count : ℕ) : String := String.join (List.replicate count text)

/-- The parts of an array or an object, in a line or each in a line of its own. -/
def joinJsonParts (options : JsonDumpsOptions) (opening closing : String) (depth : ℕ) :
    List String → String
  | [] => opening ++ closing
  | part :: parts =>
    match options.indent with
    | some unit =>
      let childIndent := repeatText unit (depth + 1)
      opening ++ "\n" ++ childIndent ++ part ++
        String.join (parts.map fun part => options.itemSeparator ++ "\n" ++ childIndent ++ part) ++
          "\n" ++ repeatText unit depth ++ closing
    | none =>
      opening ++ part ++ String.join (parts.map fun part => options.itemSeparator ++ part) ++ closing

section

variable (formatFloat : Binary64 → String) (formatRepr : String → String)
  (options : JsonDumpsOptions) (heap : DumpsHeap)

/-- A float, or the error for one that is not finite. -/
def serializeFloat (value : Binary64) : Except DumpsError String :=
  if value.isFinite then .ok (formatFloat value)
  else if options.allowNan then .ok (jsonNonfiniteFloatLiteral value)
  else dumpsError ("Out of range float values are not JSON compliant: " ++
    jsonNonfiniteFloatErrorLiteral value)

/-- The text of a key; a key that is skipped has none. -/
def jsonEncodeObjectKey (key : DumpsValue) : Except DumpsError (Option String) :=
  match key with
  | .str text => .ok (some text)
  | .int value => .ok (some (decimalText value.toInt))
  | .bigInt value => .ok (some (decimalText value))
  | .float value => (serializeFloat formatFloat options value).map some
  | .bool value => .ok (some (if value then "true" else "false"))
  | .none => .ok (some "null")
  | key =>
    if options.skipkeys then .ok none
    else dumpsError ("keys must be str, int, float, bool or None, not " ++ jsonTypeName key)

/-- The keys are encoded before the values are serialized. -/
def encodeEntries : List (DumpsValue × DumpsValue) → Except DumpsError (List (String × DumpsValue))
  | [] => .ok []
  | (key, value) :: entries => do
    let encodedKey ← jsonEncodeObjectKey formatFloat options key
    let mapped ← encodeEntries entries
    match encodedKey with
    | some encodedKey => return (encodedKey, value) :: mapped
    | none => return mapped

/-- The items in order, with a note on the one that fails. -/
def serializeItems (serialize : DumpsValue → Except DumpsError String) (kind : String) :
    ℕ → List DumpsValue → Except DumpsError (List String)
  | _, [] => .ok []
  | index, value :: values => do
    let part ← withNote ("when serializing " ++ kind ++ " item " ++ toString index) (serialize value)
    let parts ← serializeItems serialize kind (index + 1) values
    return part :: parts

/-- The entries in order, with a note on the one that fails. -/
def serializeEntries (serialize : DumpsValue → Except DumpsError String) :
    List (String × DumpsValue) → Except DumpsError (List String)
  | [] => .ok []
  | (key, value) :: entries => do
    let part ← withNote ("when serializing dict item " ++ formatRepr key) (serialize value)
    let parts ← serializeEntries serialize entries
    return (jsonEscapeString key options.ensureAscii ++ options.keySeparator ++ part) :: parts

/-- `json_enter_marker`. -/
def enterMarker (markers : List ℕ) (id : ℕ) : Except DumpsError (List ℕ) :=
  if id ∈ markers then dumpsError "Circular reference detected" else .ok (id :: markers)

/-- The levels are what is left of the recursion limit. -/
def jsonSerializeValueAtDepth : ℕ → ℕ → List ℕ → DumpsValue → Except DumpsError String
  | 0, _, _, _ => dumpsError "maximum recursion depth exceeded"
  | levels + 1, depth, markers, value =>
    match value with
    | .none => .ok "null"
    | .bool value => .ok (if value then "true" else "false")
    | .int value => .ok (decimalText value.toInt)
    | .bigInt value => .ok (decimalText value)
    | .float value => serializeFloat formatFloat options value
    | .str value => .ok (jsonEscapeString value options.ensureAscii)
    | .list id => do
      let markers ← enterMarker markers id
      match heap id with
      | some (.list values) =>
        let parts ← serializeItems (jsonSerializeValueAtDepth levels (depth + 1) markers) "list" 0 values
        return joinJsonParts options "[" "]" depth parts
      | _ => dumpsError "json unsupported type"
    | .tuple id => do
      let markers ← enterMarker markers id
      match heap id with
      | some (.tuple values) =>
        let parts ← serializeItems (jsonSerializeValueAtDepth levels (depth + 1) markers) "tuple" 0 values
        return joinJsonParts options "[" "]" depth parts
      | _ => dumpsError "json unsupported type"
    | .dict id => do
      let markers ← enterMarker markers id
      match heap id with
      | some (.dict entries) =>
        let mapped ← encodeEntries formatFloat options entries
        let parts ← serializeEntries formatRepr options
          (jsonSerializeValueAtDepth levels (depth + 1) markers) mapped
        return joinJsonParts options "\x7b" "\x7d" depth parts
      | _ => dumpsError "json unsupported type"
    | .other typeName =>
      dumpsError ("Object of type " ++ typeName ++ " is not JSON serializable")

/-- The levels are the effective recursion limit. -/
def jsonSerializeValue (recursionLimit : ℕ) (value : DumpsValue) : Except DumpsError String :=
  jsonSerializeValueAtDepth formatFloat formatRepr options heap recursionLimit 0 [] value

end

end Pyrs
