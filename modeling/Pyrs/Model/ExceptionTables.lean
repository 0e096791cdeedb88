import Mathlib.Algebra.Group.Nat.Defs
import Mathlib.Data.List.Basic

/-!
# Exception tables

The reader of the exception table that a code object carries: its entries are numbers in groups of
six bits, the highest group first.
-/

namespace Pyrs

structure ExceptionHandler where
  start : ℕ
  «end» : ℕ
  target : ℕ
  depth : ℕ
  pushLasti : Bool
  deriving DecidableEq, Repr

namespace ExceptionTable

def truncated : String := "truncated exception table while parsing varint"

/-- The loop of `parse_varint`, behind a byte that it has read.  A shift to the left drops the bits
that leave the number. -/
def parseGroups (value : UInt32) (byte : UInt8) : List UInt8 → Except String (UInt32 × List UInt8)
  | [] => if byte &&& 0x40 = 0 then .ok (value, []) else .error truncated
  | next :: rest =>
    if byte &&& 0x40 = 0 then .ok (value, next :: rest)
    else parseGroups (value <<< 6 ||| (next &&& 0x3F).toUInt32) next rest

/-- A number, with the bytes behind it. -/
def parseVarint : List UInt8 → Except String (UInt32 × List UInt8)
  | [] => .error truncated
  | byte :: rest => parseGroups (byte &&& 0x3F).toUInt32 byte rest

def saturatingAdd (a b : ℕ) : ℕ := min (a + b) (2 ^ 64 - 1)

/-- One entry, with the bytes behind it. -/
def parseEntry (instructionCount : ℕ) (bytes : List UInt8) :
    Except String (ExceptionHandler × List UInt8) := do
  let (start, bytes) ← parseVarint bytes
  let (size, bytes) ← parseVarint bytes
  let (target, bytes) ← parseVarint bytes
  let (depthAndLasti, bytes) ← parseVarint bytes
  let start := start.toNat
  let target := target.toNat
  let stop := saturatingAdd start size.toNat
  let depth := depthAndLasti.toNat >>> 1
  let pushLasti := depthAndLasti.toNat &&& 1 = 1
  if start > instructionCount ∨ stop > instructionCount ∨ target > instructionCount then
    throw (s!"exception table entry out of range (start={start}, end={stop}, target={target}, " ++
      s!"instruction_count={instructionCount})")
  else if start ≥ stop then
    throw s!"invalid exception table entry range [{start}, {stop})"
  else return (⟨start, stop, target, depth, pushLasti⟩, bytes)

/-- The loop over the entries.  Each takes a byte at least, so that the bytes that are left are
enough rounds. -/
def parseEntries (instructionCount : ℕ) :
    ℕ → List UInt8 → Except String (List ExceptionHandler)
  | _, [] => .ok []
  | 0, _ :: _ => .error "out of rounds"
  | rounds + 1, byte :: bytes => do
    let (handler, bytes) ← parseEntry instructionCount (byte :: bytes)
    let handlers ← parseEntries instructionCount rounds bytes
    return handler :: handlers

/-- `parse_exception_table`. -/
def parseExceptionTable (bytes : List UInt8) (instructionCount : ℕ) :
    Except String (List ExceptionHandler) :=
  parseEntries instructionCount bytes.length bytes

end ExceptionTable

end Pyrs
