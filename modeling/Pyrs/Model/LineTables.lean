import Mathlib.Algebra.Group.Nat.Defs
import Mathlib.Data.List.Basic

/-!
# Line tables

The reader of the compressed table of locations that a code object carries.  Machine arithmetic
wraps around, as it does in a release build.
-/

namespace Pyrs

/-- A range of lines and columns. -/
structure Location where
  line : ℕ
  column : ℕ
  endLine : ℕ
  endColumn : ℕ
  deriving DecidableEq, Repr

namespace Location

/-- A location with its end. -/
def withEnd (line column endLine endColumn : ℕ) : Location := ⟨line, column, endLine, endColumn⟩

/-- No location. -/
def unknown : Location := ⟨0, 0, 0, 0⟩

end Location

namespace LineTable

def PY_CODE_LOCATION_INFO_ONE_LINE0 : ℕ := 10
def PY_CODE_LOCATION_INFO_ONE_LINE2 : ℕ := 12
def PY_CODE_LOCATION_INFO_NO_COLUMNS : ℕ := 13
def PY_CODE_LOCATION_INFO_LONG : ℕ := 14
def PY_CODE_LOCATION_INFO_NONE : ℕ := 15

/-- The readers return a value, with the bytes behind it. -/
def readByteFromLinetable : List UInt8 → Except String (Int32 × List UInt8)
  | [] => .error "invalid linetable: truncated payload while reading byte"
  | value :: rest => .ok (Int32.ofNat value.toNat, rest)

/-- The loop of `read_varint_from_linetable`.  The hardware reduces a shift modulo 32. -/
def readVarint (value : UInt32) (shift : ℕ) :
    List UInt8 → Except String (UInt32 × List UInt8)
  | [] => .error "invalid linetable: truncated payload while reading varint"
  | read :: rest =>
    let value := value ||| ((read &&& 0x3F).toUInt32 <<< UInt32.ofNat (shift % 32))
    if read &&& 0x40 = 0 then .ok (value, rest)
    else readVarint value (min (shift + 6) (2 ^ 32 - 1)) rest

def readVarintFromLinetable (table : List UInt8) : Except String (Int32 × List UInt8) := do
  let (value, rest) ← readVarint 0 0 table
  return (value.toInt32, rest)

def readSignedVarintFromLinetable (table : List UInt8) :
    Except String (Int32 × List UInt8) := do
  let (value, rest) ← readVarintFromLinetable table
  let value := value.toUInt32
  return (if value &&& 1 = 1 then -(value >>> 1).toInt32 else (value >>> 1).toInt32, rest)

/-- What an entry says, with `-1` for what it does not. -/
structure Span where
  startLine : Int32
  startColumn : Int32
  endLine : Int32
  endColumn : Int32

/-- The payload of an entry behind its first byte: its span, and the line that the next entry
counts from. -/
def readPayload (infoKind : ℕ) (computedLine : Int32) (table : List UInt8) :
    Except String ((Span × Int32) × List UInt8) := do
  if infoKind = PY_CODE_LOCATION_INFO_NONE then
    return ((⟨-1, -1, -1, -1⟩, computedLine), table)
  else if infoKind = PY_CODE_LOCATION_INFO_LONG then
    let (lineDelta, table) ← readSignedVarintFromLinetable table
    let startLine := computedLine + lineDelta
    let (endLineDelta, table) ← readVarintFromLinetable table
    let (startColumn, table) ← readVarintFromLinetable table
    let (endColumn, table) ← readVarintFromLinetable table
    return ((⟨startLine, startColumn - 1, startLine + endLineDelta, endColumn - 1⟩, startLine),
      table)
  else if infoKind = PY_CODE_LOCATION_INFO_NO_COLUMNS then
    let (lineDelta, table) ← readSignedVarintFromLinetable table
    let startLine := computedLine + lineDelta
    return ((⟨startLine, -1, startLine, -1⟩, startLine), table)
  else if PY_CODE_LOCATION_INFO_ONE_LINE0 ≤ infoKind ∧
      infoKind ≤ PY_CODE_LOCATION_INFO_ONE_LINE2 then
    let startLine := computedLine + (Int32.ofNat infoKind - 10)
    let (startColumn, table) ← readByteFromLinetable table
    let (endColumn, table) ← readByteFromLinetable table
    return ((⟨startLine, startColumn, startLine, endColumn⟩, startLine), table)
  else
    let (second, table) ← readByteFromLinetable table
    if second &&& 0x80 ≠ 0 then
      throw "invalid linetable: short-form payload overlaps entry marker"
    else
      let startColumn := (Int32.ofNat infoKind <<< 3) ||| (second >>> 4)
      let endColumn := startColumn + (second &&& 0x0F)
      return ((⟨computedLine, startColumn, computedLine, endColumn⟩, computedLine), table)

/-- A column counts from one, and is zero where it is missing. -/
def columnOneBased (column : Int32) : ℕ := if column < 0 then 0 else column.toNatClampNeg + 1

/-- The location of a span. -/
def Span.location (span : Span) : Location :=
  if span.startLine < 0 then .unknown
  else .withEnd span.startLine.toNatClampNeg (columnOneBased span.startColumn)
    span.endLine.toNatClampNeg (columnOneBased span.endColumn)

/-- `for slot in &mut locations[start..stop] { *slot = location; }` -/
def fillSlots (locations : List Location) (start stop : ℕ) (location : Location) : List Location :=
  (List.range' start (stop - start)).foldl (fun slots i => slots.set i location) locations

/-- The loop over the entries.  Each entry takes a byte at least, so that the bytes that are left
are enough fuel. -/
def decodeEntries (instructionCount : ℕ) :
    ℕ → List UInt8 → ℕ → Int32 → List Location → Except String (List Location)
  | 0, _, _, _, locations => .ok locations
  | _ + 1, [], _, _, locations => .ok locations
  | fuel + 1, first :: rest, instructionIndex, computedLine, locations =>
    if instructionIndex < instructionCount then
      if first &&& 0x80 = 0 then .error "invalid linetable: expected entry marker byte"
      else do
        let codeUnits := (first &&& 0x07).toNat + 1
        let infoKind := (first >>> 3 &&& 0x0F).toNat
        let ((span, computedLine), rest) ← readPayload infoKind computedLine rest
        let entryEnd := min (instructionIndex + codeUnits) instructionCount
        decodeEntries instructionCount fuel rest entryEnd computedLine
          (fillSlots locations instructionIndex entryEnd span.location)
    else .ok locations

/-- `decode_cpython_linetable_locations`. -/
def decodeCpythonLinetableLocations (linetable : List UInt8) (firstlineno : Int32)
    (instructionCount : ℕ) : Except String (List Location) :=
  decodeEntries instructionCount linetable.length linetable 0 firstlineno
    (List.replicate instructionCount .unknown)

end LineTable

end Pyrs
