import Mathlib.Algebra.Group.Int.Defs
import Pyrs.Model.LineTables

/-!
# Line tables with checked arithmetic

The reader of line tables once more, as a debug build runs it: an operation on an `i32` whose result
does not fit, and a shift by more bits than the number has, end the program.
-/

namespace Pyrs

namespace LineTable

/-- A computation may end with a panic, which is no result at all, or with an error. -/
abbrev Checked (α : Type) : Type := ExceptT String Option α

namespace Checked

variable {α : Type}

/-- The panic of an overflow. -/
def panic : Checked α := ExceptT.mk none

/-- The result of an operation on an `i32`. -/
def i32 (value : ℤ) : Checked ℤ := if -2 ^ 31 ≤ value ∧ value < 2 ^ 31 then pure value else panic

def readByteFromLinetable : List UInt8 → Checked (ℤ × List UInt8)
  | [] => throw "invalid linetable: truncated payload while reading byte"
  | value :: rest => pure (value.toNat, rest)

/-- The loop of `read_varint_from_linetable`. -/
def readVarint (value : UInt32) (shift : ℕ) : List UInt8 → Checked (UInt32 × List UInt8)
  | [] => throw "invalid linetable: truncated payload while reading varint"
  | read :: rest =>
    if shift < 32 then
      let value := value ||| ((read &&& 0x3F).toUInt32 <<< UInt32.ofNat shift)
      if read &&& 0x40 = 0 then pure (value, rest)
      else readVarint value (min (shift + 6) (2 ^ 32 - 1)) rest
    else panic

def readVarintFromLinetable (table : List UInt8) : Checked (ℤ × List UInt8) := do
  let (value, rest) ← readVarint 0 0 table
  return (value.toInt32.toInt, rest)

def readSignedVarintFromLinetable (table : List UInt8) : Checked (ℤ × List UInt8) := do
  let (value, rest) ← readVarintFromLinetable table
  let value := (Int32.ofInt value).toUInt32
  if value &&& 1 = 1 then return (← i32 (-(value >>> 1).toInt32.toInt), rest)
  else return ((value >>> 1).toInt32.toInt, rest)

/-- A span of numbers that fit. -/
def span (startLine startColumn endLine endColumn : ℤ) : Span :=
  ⟨.ofInt startLine, .ofInt startColumn, .ofInt endLine, .ofInt endColumn⟩

/-- The payload of an entry behind its first byte: its span, and the line that the next entry
counts from. -/
def readPayload (infoKind : ℕ) (computedLine : ℤ) (table : List UInt8) :
    Checked ((Span × ℤ) × List UInt8) := do
  if infoKind = PY_CODE_LOCATION_INFO_NONE then
    return ((span (-1) (-1) (-1) (-1), computedLine), table)
  else if infoKind = PY_CODE_LOCATION_INFO_LONG then
    let (lineDelta, table) ← readSignedVarintFromLinetable table
    let startLine ← i32 (computedLine + lineDelta)
    let (endLineDelta, table) ← readVarintFromLinetable table
    let (startColumn, table) ← readVarintFromLinetable table
    let startColumn ← i32 (startColumn - 1)
    let (endColumn, table) ← readVarintFromLinetable table
    let endColumn ← i32 (endColumn - 1)
    let endLine ← i32 (startLine + endLineDelta)
    return ((span startLine startColumn endLine endColumn, startLine), table)
  else if infoKind = PY_CODE_LOCATION_INFO_NO_COLUMNS then
    let (lineDelta, table) ← readSignedVarintFromLinetable table
    let startLine ← i32 (computedLine + lineDelta)
    return ((span startLine (-1) startLine (-1), startLine), table)
  else if PY_CODE_LOCATION_INFO_ONE_LINE0 ≤ infoKind ∧
      infoKind ≤ PY_CODE_LOCATION_INFO_ONE_LINE2 then
    let lineDelta ← i32 (infoKind - 10)
    let startLine ← i32 (computedLine + lineDelta)
    let (startColumn, table) ← readByteFromLinetable table
    let (endColumn, table) ← readByteFromLinetable table
    return ((span startLine startColumn startLine endColumn, startLine), table)
  else
    let (second, table) ← readByteFromLinetable table
    let second := second.toNat
    if second &&& 0x80 ≠ 0 then
      throw "invalid linetable: short-form payload overlaps entry marker"
    else
      let startColumn := infoKind <<< 3 ||| second >>> 4
      let endColumn ← i32 (startColumn + (second &&& 0x0F : ℕ))
      return ((span computedLine startColumn computedLine endColumn, computedLine), table)

/-- The loop over the entries.  Each entry takes a byte at least, so that the bytes that are left
are enough fuel. -/
def decodeEntries (instructionCount : ℕ) :
    ℕ → List UInt8 → ℕ → ℤ → List Location → Checked (List Location)
  | 0, _, _, _, locations => pure locations
  | _ + 1, [], _, _, locations => pure locations
  | fuel + 1, first :: rest, instructionIndex, computedLine, locations =>
    if instructionIndex < instructionCount then
      if first &&& 0x80 = 0 then throw "invalid linetable: expected entry marker byte"
      else do
        let codeUnits := (first &&& 0x07).toNat + 1
        let infoKind := (first >>> 3 &&& 0x0F).toNat
        let ((span, computedLine), rest) ← readPayload infoKind computedLine rest
        let entryEnd := min (instructionIndex + codeUnits) instructionCount
        decodeEntries instructionCount fuel rest entryEnd computedLine
          (fillSlots locations instructionIndex entryEnd span.location)
    else pure locations

/-- `decode_cpython_linetable_locations`. -/
def decodeCpythonLinetableLocations (linetable : List UInt8) (firstlineno : Int32)
    (instructionCount : ℕ) : Checked (List Location) :=
  decodeEntries instructionCount linetable.length linetable 0 firstlineno.toInt
    (List.replicate instructionCount .unknown)

end Checked

end LineTable

end Pyrs
