import Pyrs.Library.Utf8Positions
import Pyrs.Model.Json

/-!
# The scanner of JSON values

`scan_once` of a JSON decoder, over the characters of a string.
-/

namespace Pyrs

namespace JsonScanner

/-- The attributes of a `JSONDecodeError`, its document aside. -/
structure JsonDecodeError where
  msg : String
  pos : ℕ
  lineno : ℕ
  colno : ℕ
  deriving DecidableEq

inductive ScanFault
  | stopIteration (value : ℤ)
  | recursionLimit
  | decode (error : JsonDecodeError)
  | outOfFuel
  deriving DecidableEq

/-- `json_decode_error_runtime_error`: the line and the column are those behind the characters that
begin in front of the position. -/
def jsonDecodeError (message : String) (source : List Char) (pos : ℕ) : JsonDecodeError :=
  let front := source.take (Utf8.charIndex source pos)
  ⟨message, pos, front.count '\n' + 1, (front.reverse.takeWhile (· != '\n')).length + 1⟩

def isRecursionMessage (message : String) : Bool :=
  "maximum recursion depth exceeded".toList <:+: message.toList

section

variable (parseF64 : List UInt8 → Option Binary64) (limit : ℤ) (depthLimit : ℕ)

/-- `parse_json_node_from_index_with_limit_detail`. -/
def parseJsonNodeFromIndex (source : List UInt8) (idx : ℕ) : Except JsonFault (JsonNode × ℕ) :=
  if idx > source.length then jsonError "Expecting value" source.length
  else JsonParser.parseValue source parseF64 limit (max depthLimit 1) idx

/-- The exception that a failure of the parser raises. -/
def scanFault (source : List Char) : JsonFault → ScanFault
  | .outOfFuel => .outOfFuel
  | .error ⟨message, pos⟩ =>
    if isRecursionMessage message then .recursionLimit
    else if message = "Expecting value" then .stopIteration pos
    else .decode (jsonDecodeError message source pos)

/-- `builtin_json_scanner_scan_once`, for an index that is an integer. -/
def scanOnce (source : List Char) (idx : ℤ) : Except ScanFault (JsonNode × ℕ) :=
  if idx < 0 then .error (.stopIteration 0)
  else
    (parseJsonNodeFromIndex parseF64 limit depthLimit (Utf8.encode source) idx.toNat).mapError
      (scanFault source)

end

end JsonScanner

end Pyrs
