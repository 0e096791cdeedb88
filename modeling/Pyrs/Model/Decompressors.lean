import Mathlib.Algebra.Group.Nat.Defs
import Pyrs.Library.Streaming

/-!
# Decompressor objects

`BZ2Decompressor` and the objects of `zlib.decompressobj`, with the state that they keep between
calls.  The C libraries are parameters: `BZ2_bzBuffToBuffDecompress` is a function, `inflate` a
machine that each call starts anew.
-/

namespace Pyrs

/-- An exception, or the end of the rounds of a loop. -/
inductive StreamFault
  | error (message : String)
  | outOfFuel
deriving DecidableEq, Repr

/-- `c_uint::MAX`. -/
def cUintMax : ℕ := 2 ^ 32 - 1

namespace Bz2

def bzOk : ℤ := 0

def bzOutbuffFull : ℤ := -8

/-- The error for a code of the library. -/
def bz2Error (action : String) (code : ℤ) : StreamFault :=
  .error ("_bz2 error during " ++ action ++ ": code " ++ toString code)

/-- What a `BZ2Decompressor` keeps between calls. -/
structure Bz2DecompressorState where
  eof : Bool
  unusedData : List UInt8
  needsInput : Bool
deriving DecidableEq, Repr

/-- What `__init__` stores. -/
def Bz2DecompressorState.new : Bz2DecompressorState :=
  { eof := false, unusedData := [], needsInput := true }

/-- `BZ2_bzBuffToBuffDecompress` takes a source and the room for the output, and gives its code and
what it has written. -/
abbrev BuffToBuffDecompress := List UInt8 → ℕ → ℤ × List UInt8

variable (buffToBuffDecompress : BuffToBuffDecompress)

/-- The loop that doubles the room. -/
def decompressRounds (payload : List UInt8) : ℕ → ℕ → Except StreamFault (List UInt8)
  | 0, _ => .error .outOfFuel
  | fuel + 1, outCap =>
    if cUintMax < outCap then .error (.error "output buffer too large")
    else if (buffToBuffDecompress payload outCap).1 = bzOk then
      .ok (buffToBuffDecompress payload outCap).2
    else if (buffToBuffDecompress payload outCap).1 = bzOutbuffFull then
      decompressRounds payload fuel (outCap * 2)
    else .error (bz2Error "decompress" (buffToBuffDecompress payload outCap).1)

/-- The room of the first attempt. -/
def firstOutCap (payload : List UInt8) : ℕ := max (payload.length * 6 + 1024) 64

/-- The room is beyond `c_uint::MAX` after 23 rounds. -/
def bz2DecompressBytes (payload : List UInt8) : Except StreamFault (List UInt8) :=
  if cUintMax < payload.length then .error (.error "input is too large")
  else decompressRounds buffToBuffDecompress payload 23 (firstOutCap payload)

def builtinBz2DecompressorDecompress (state : Bz2DecompressorState) (payload : List UInt8)
    (maxLength : ℤ) : Except StreamFault (List UInt8 × Bz2DecompressorState) :=
  if state.eof then .ok ([], { state with unusedData := state.unusedData ++ payload })
  else do
    let out ← bz2DecompressBytes buffToBuffDecompress payload
    return (if 0 ≤ maxLength ∧ maxLength < out.length then out.take maxLength.toNat else out,
      { eof := true, unusedData := [], needsInput := true })

/-- The object as its caller sees it. -/
def decompressor : Decompressor Bz2DecompressorState UInt8 StreamFault where
  call := builtinBz2DecompressorDecompress buffToBuffDecompress
  eof := Bz2DecompressorState.eof
  unusedData := Bz2DecompressorState.unusedData
  unconsumedTail := fun _ => []
  unlimited := fun limit => limit < 0

end Bz2

namespace Zlib

def zOk : ℤ := 0

def zStreamEnd : ℤ := 1

def zNeedDict : ℤ := 2

def zBufError : ℤ := -5

/-- The room of one call of `inflate`. -/
def zChunkSize : ℕ := 32 * 1024

/-- The error for a code of the library. -/
def zlibErrorMessage (action : String) (code : ℤ) : StreamFault :=
  .error ("zlib.error: " ++ action ++ " failed with code " ++ toString code)

/-- What a decompress object keeps between calls. -/
structure ZlibDecompressObjectState where
  wbits : ℤ
  eof : Bool
  unusedData : List UInt8
  unconsumedTail : List UInt8
deriving DecidableEq, Repr

/-- What `decompressobj` stores. -/
def ZlibDecompressObjectState.new (wbits : ℤ) : ZlibDecompressObjectState :=
  { wbits, eof := false, unusedData := [], unconsumedTail := [] }

/-- What one call of `inflate` leaves: its code, how much of the input it has consumed and what it
has written. -/
structure Inflated (Stream : Type) where
  stream : Stream
  code : ℤ
  consumed : ℕ
  written : List UInt8

/-- The library: `inflateInit2_` fails with a code, `inflate` takes the input and the room. -/
structure Inflate (Stream : Type) where
  inflateInit2 : ℤ → Except ℤ Stream
  inflate : Stream → List UInt8 → ℕ → Inflated Stream

variable {Stream : Type} (library : Inflate Stream)

/-- The loop over `inflate`: the output, whether the stream has ended, and the input left. -/
def inflateRounds : ℕ → Stream → List UInt8 → List UInt8 →
    Except StreamFault (List UInt8 × Bool × List UInt8)
  | 0, _, _, _ => .error .outOfFuel
  | fuel + 1, stream, input, out =>
    let inflated := library.inflate stream input zChunkSize
    let input := input.drop inflated.consumed
    let out := out ++ inflated.written
    if inflated.code = zStreamEnd then .ok (out, true, input)
    else if inflated.code = zOk then
      if input = [] ∧ inflated.written = [] then .ok (out, false, input)
      else inflateRounds fuel inflated.stream input out
    else if inflated.code = zBufError then
      if input = [] then .ok (out, false, input)
      else inflateRounds fuel inflated.stream input out
    else if inflated.code = zNeedDict then
      .error (.error "zlib.error: stream requires a dictionary")
    else .error (zlibErrorMessage "inflate" inflated.code)

/-- `zlib_inflate_bytes`: the output, whether the stream ended, and what is behind it. -/
def zlibInflateBytes (fuel : ℕ) (payload : List UInt8) (wbits : ℤ) (requireEof : Bool) :
    Except StreamFault (List UInt8 × Bool × List UInt8) :=
  if cUintMax < payload.length then .error (.error "input is too large")
  else
    match library.inflateInit2 wbits with
    | .error code => .error (zlibErrorMessage "inflateInit2" code)
    | .ok stream => do
      let (out, eof, remaining) ← inflateRounds library fuel stream payload []
      if requireEof && !eof then throw (.error "zlib.error: incomplete or truncated stream")
      return (out, eof, if eof then remaining else [])

def builtinZlibDecompressObjectDecompress (fuel : ℕ) (state : ZlibDecompressObjectState)
    (payload : List UInt8) (maxLength : ℤ) :
    Except StreamFault (List UInt8 × ZlibDecompressObjectState) :=
  if state.eof then .ok ([], { state with unusedData := state.unusedData ++ payload })
  else do
    let (out, eof, unused) ← zlibInflateBytes library fuel payload state.wbits false
    return (if 0 < maxLength ∧ maxLength < out.length then out.take maxLength.toNat else out,
      { state with eof, unusedData := unused, unconsumedTail := [] })

/-- The object as its caller sees it. -/
def decompressObject (fuel : ℕ) : Decompressor ZlibDecompressObjectState UInt8 StreamFault where
  call := builtinZlibDecompressObjectDecompress library fuel
  eof := ZlibDecompressObjectState.eof
  unusedData := ZlibDecompressObjectState.unusedData
  unconsumedTail := ZlibDecompressObjectState.unconsumedTail
  unlimited := fun limit => limit ≤ 0

end Zlib

end Pyrs
