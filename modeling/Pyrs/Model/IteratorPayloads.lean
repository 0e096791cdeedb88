import Pyrs.Library.Iteration
import Pyrs.Model.FixedBytes
import Pyrs.Model.MemoryViews
import Pyrs.Properties.RangeObjects

/-!
# Iterators as payloads of bytes

The branch of `value_to_bytes_payload` in `vm/mod.rs` that drains an iterator, and the step of the
same kinds of iterators in `vm/vm_native_dispatch.rs`.  The backing store of an iterator is what it
holds at the moment.  The position `index` stands with the kinds that read it; that of a range and
of a reversed list is only counted.
-/

namespace Pyrs

namespace IteratorPayloads

open Slices MemoryViews SteppedRange

/-- The values that iterators give. -/
inductive Value where
  | int (value : IntValue)
  | str (char : Char)
  /-- A `bytes` of one byte. -/
  | bytes (byte : UInt8)
  /-- A `float` from the bits of an `f32` or of an `f64`. -/
  | single (bits : UInt32)
  | double (bits : UInt64)
  /-- An instance, with the integer behind it when its class is one of integers. -/
  | instance (identity : ℕ) (backing : Option Value)
  | object (identity : ℕ)

/-- A byte as a value. -/
def Value.ofByte (byte : UInt8) : Value := .int (.int (Int64.ofNat byte.toNat))

/-- The errors by their constructor; `new` is that with a message only. -/
inductive Fault where
  | typeError (message : String)
  | valueError (message : String)
  | overflowError (message : String)
  | indexError (message : String)
  | notImplementedError (message : String)
  | new (message : String)
  | panicked

/-- An error of a call of the program itself. -/
abbrev Outcome := Except Fault

def okOrElse {α : Type} (fault : Fault) : Option α → Outcome α
  | some value => .ok value
  | none => .error fault

/-- The kinds that have a payload.  `ω` is what the functions of a `map` read and change. -/
inductive Iterator (ω : Type) where
  | list (items : List Value) (index : ℕ)
  | listReverse (items : List Value) (nextIndex : ℤ)
  | tuple (items : List Value) (index : ℕ)
  | bytes (items : List UInt8) (index : ℕ)
  | byteArray (items : List UInt8) (index : ℕ)
  | memoryView (view : MemoryViewObject) (hsource : view.source.length ≤ usizeMax) (index : ℕ)
  | map (values : List Value) (exhausted : Bool) (world : ω) (index : ℕ)
  | range (current stop step : BigInt)
  | rangeObject (start stop step : BigInt) (index : UInt64)
  | set (items : List Value) (index : ℕ)
  | str (text : List Char) (index : ℕ)

/-! ## Elements of memory views -/

/-- The formats of memoryviews. -/
inductive MemoryViewCastFormat where
  | unsignedByte | signedByte | char | unsignedShort | signedShort | unsignedInt | signedInt
  | unsignedLong | signedLong | unsignedLongLong | signedLongLong | float | double
deriving DecidableEq

namespace MemoryViewCastFormat

/-- The bytes of an item. -/
def itemsize : MemoryViewCastFormat → ℕ
  | unsignedByte | signedByte | char => 1
  | unsignedShort | signedShort => 2
  | unsignedInt | signedInt | float => 4
  | unsignedLong | signedLong => 8
  | unsignedLongLong | signedLongLong | double => 8

/-- The formats of integers, and whether they have a sign. -/
def integerSignedness : MemoryViewCastFormat → Option Bool
  | unsignedByte | unsignedShort | unsignedInt | unsignedLong | unsignedLongLong => some false
  | signedByte | signedShort | signedInt | signedLong | signedLongLong => some true
  | char | float | double => none

end MemoryViewCastFormat

open MemoryViewCastFormat in

def parseMemoryviewCastFormat : String → Option MemoryViewCastFormat
  | "B" => some unsignedByte
  | "b" => some signedByte
  | "c" => some char
  | "H" => some unsignedShort
  | "h" => some signedShort
  | "I" => some unsignedInt
  | "i" => some signedInt
  | "L" => some unsignedLong
  | "l" => some signedLong
  | "Q" => some unsignedLongLong
  | "q" => some signedLongLong
  | "f" => some float
  | "d" => some double
  | _ => none

def memoryviewFormatForView (itemsize : ℕ) (format : Option String) :
    Outcome MemoryViewCastFormat := do
  let formatSpec := format.getD "B"
  let castFormat ← okOrElse
    (.notImplementedError s!"memoryview: format {formatSpec} not supported")
    (parseMemoryviewCastFormat formatSpec)
  if castFormat.itemsize ≠ max itemsize 1 then
    .error (.notImplementedError "memoryview: unsupported format")
  else return castFormat

/-- Elements are in the order of a little-endian machine. -/
def memoryviewDecodeElement (chunk : List UInt8) (format : MemoryViewCastFormat) (itemsize : ℕ) :
    Outcome Value :=
  if chunk.length ≠ max itemsize 1 ∨ format.itemsize ≠ max itemsize 1 then
    .error (.notImplementedError "memoryview: unsupported format")
  else
    match format.integerSignedness with
    | some signed => do
      let value ← okOrElse .panicked (bigintFromBytes chunk true signed)
      return .int (IntValue.bigintToValue value)
    | none =>
      match format with
      | .char => do return .bytes (← okOrElse .panicked chunk.head?)
      | .float => return .single (UInt32.ofNat (Decoding.fromLeBytes chunk))
      | _ => return .double (UInt64.ofNat (Decoding.fromLeBytes chunk))

/-- The element at a position of a layout. -/
def memoryviewRead (source : List UInt8) (origin : ℤ) (logicalLen : ℕ) (stride : I64)
    (format : MemoryViewCastFormat) (itemsize index : ℕ) : Outcome Value := do
  let fault := Fault.indexError "index out of range"
  let offset ← okOrElse fault (memoryviewElementOffset origin logicalLen stride (asIsize index).val)
  let stop ← okOrElse fault (checkedUsize (offset + itemsize))
  let chunk ← okOrElse fault
    (if stop ≤ source.length then some ((source.take stop).drop offset) else none)
  memoryviewDecodeElement chunk format itemsize

/-- What a view gives at a position, if it has an element there. -/
def memoryviewElement (view : MemoryViewObject) (index : ℕ) : Outcome (Option Value) :=
  let (shape, _) := memoryviewShapeAndStridesFromParts view.start view.length view.shape
    view.strides view.itemsize view.source.length
  if shape.length > 1 then
    .error (.new "NotImplementedError: multi-dimensional sub-views are not implemented")
  else do
    let itemsize := max view.itemsize 1
    let format ← memoryviewFormatForView itemsize view.format
    match memoryviewLayout1d view with
    | none => return none
    | some (origin, logicalLen, stride, _) =>
      if index ≥ logicalLen then return none
      else return some (← memoryviewRead view.source origin logicalLen stride format itemsize index)

/-! ## Steps -/

section Steps

variable {ω : Type} (evaluate : ω → Outcome (Option Value × ω))

/-- The value at a position of a store. -/
def stepSequence (items : List Value) (index : ℕ) (iterator : ℕ → Iterator ω) :
    Option Value × Iterator ω :=
  if index ≥ items.length then (none, iterator index) else (items[index]?, iterator (index + 1))

/-- `next` on an iterator.  `evaluate` takes a value from every iterator that a `map` has and calls
its function; there is none when one of them is at its end. -/
def Iterator.next : Iterator ω → Outcome (Option Value × Iterator ω)
  | list items index => .ok (stepSequence items index (list items))
  | listReverse items nextIndex =>
    if nextIndex < 0 then .ok (none, listReverse items nextIndex)
    else if nextIndex.toNat ≥ items.length then .ok (none, listReverse items (-1))
    else .ok (items[nextIndex.toNat]?, listReverse items (nextIndex - 1))
  | tuple items index => .ok (stepSequence items index (tuple items))
  | bytes items index => .ok (stepSequence (items.map Value.ofByte) index (bytes items))
  | byteArray items index => .ok (stepSequence (items.map Value.ofByte) index (byteArray items))
  | memoryView view hsource index => do
    match ← memoryviewElement view index with
    | none => return (none, memoryView view hsource index)
    | some value => return (some value, memoryView view hsource (index + 1))
  | map values exhausted world index =>
    if index < values.length then .ok (values[index]?, map values exhausted world (index + 1))
    else if exhausted then .ok (none, map values exhausted world index)
    else do
      match ← evaluate world with
      | (none, world) => return (none, map values true world index)
      | (some value, world) =>
        return (some value, map (values ++ [value]) exhausted world (index + 1))
  | range current stop step => do
    match ← okOrElse .panicked (RangeObjects.RangeIterator.next ⟨current, stop, step⟩) with
    | (value, iterator) =>
      return (value.map Value.int, range iterator.current iterator.stop iterator.step)
  | rangeObject start stop step index =>
    if step.isZero then .error (.valueError "range() arg 3 must not be zero")
    else do
      let offset ← okOrElse .panicked (step.mul (BigInt.fromU64 index))
      let current ← okOrElse .panicked (start.add offset)
      let done := if step.isNegative then current.cmpTotal stop != .gt
        else current.cmpTotal stop != .lt
      if done then return (none, rangeObject start stop step index)
      else
        return (some (.int (IntValue.bigintToValue current)),
          rangeObject start stop step (UInt64.ofNat (min (index.toNat + 1) usizeMax)))
  | set items index => .ok (stepSequence items index (set items))
  | str text index => .ok (stepSequence (text.map Value.str) index (str text))

end Steps

/-! ## Draining -/

/-- A slice of a store. -/
def slice {α : Type} (items : List α) (start stop : ℕ) : Outcome (List α) :=
  if start ≤ stop ∧ stop ≤ items.length then .ok ((items.take stop).drop start)
  else .error .panicked

/-- Whether a range goes on. -/
def cursorBefore (cursor stop step : BigInt) : Bool :=
  if step.isNegative then cursor.cmpTotal stop == .gt else cursor.cmpTotal stop == .lt

lemma cursorBefore_iff {cursor stop step : BigInt} (hstep : step.toInt ≠ 0) :
    cursorBefore cursor stop step = true ↔ Before step.toInt cursor.toInt stop.toInt := by
  have hdone := RangeObjects.RangeIterator.done_iff ⟨cursor, stop, step⟩ hstep
  dsimp only at hdone
  rw [← not_iff_not, ← hdone, cursorBefore]
  split <;> rw [bne_iff_ne, beq_iff_eq]

-- The proof of termination uses the names.
set_option linter.unusedVariables false in
/-- The loop over a range: the values up to the stop and the cursor behind them. -/
def rangeLoop (stop step : BigInt) (hstep : step.toInt ≠ 0) (cursor : BigInt) :
    Option (List Value × BigInt) :=
  if hbefore : cursorBefore cursor stop step = true then
    match hnext : cursor.add step with
    | none => none
    | some next => do
      let (values, last) ← rangeLoop stop step hstep next
      return (.int (IntValue.bigintToValue cursor) :: values, last)
  else some ([], cursor)
termination_by count cursor.toInt stop.toInt step.toInt
decreasing_by
  obtain ⟨sum, hsum, hvalue⟩ := BigInt.add_spec cursor step
  rw [hsum] at hnext
  obtain rfl := Option.some.inj hnext
  rw [count_succ hstep ((cursorBefore_iff hstep).1 hbefore), hvalue]
  exact Nat.lt_succ_self _

/-- The cursor after so many steps. -/
def advance (step : BigInt) : ℕ → BigInt → Option BigInt
  | 0, cursor => some cursor
  | n + 1, cursor => do advance step n (← cursor.add step)

section Draining

variable {ω : Type}

/-- The items from a position on. -/
def drainSequence (items : List Value) (index : ℕ) (iterator : ℕ → Iterator ω) :
    Outcome (List Value × Iterator ω) := do
  return (← slice items (min index items.length) items.length, iterator items.length)

/-- The values that the payload is made of, and the iterator behind them. -/
def Iterator.drain : Iterator ω → Outcome (List Value × Iterator ω)
  | list items index => drainSequence items index (list items)
  | listReverse items nextIndex =>
    if nextIndex < 0 then .ok ([], listReverse items nextIndex)
    else do
      let last := min nextIndex.toNat (items.length - 1)
      return ((← slice items 0 (last + 1)).reverse, listReverse items (-1))
  | tuple items index => drainSequence items index (tuple items)
  | bytes items index => drainSequence (items.map Value.ofByte) index (bytes items)
  | byteArray items index => drainSequence (items.map Value.ofByte) index (byteArray items)
  | memoryView view hsource index => do
    let (viewStart, viewEnd) := memoryviewBounds view.start view.length view.source.length
    let viewLen := viewEnd - viewStart
    let out ← slice view.source (viewStart + min index viewLen) viewEnd
    return (out.map Value.ofByte, memoryView view hsource viewLen)
  | map values exhausted world index => drainSequence values index (map values exhausted world)
  | range current stop step =>
    if hzero : step.isZero = true then
      .error (.valueError "range() arg 3 must not be zero")
    else do
      let (out, cursor) ← okOrElse .panicked
        (rangeLoop stop step (hzero ∘ BigInt.isZero_iff.2) current)
      return (out, range cursor stop step)
  | rangeObject start stop step index =>
    if hzero : step.isZero = true then
      .error (.valueError "range() arg 3 must not be zero")
    else do
      let cursor ← okOrElse .panicked (advance step index.toNat start)
      let (out, _) ← okOrElse .panicked
        (rangeLoop stop step (hzero ∘ BigInt.isZero_iff.2) cursor)
      return (out,
        rangeObject start stop step (UInt64.ofNat (min (index.toNat + out.length) usizeMax)))
  | set items index => do
    let start := min index items.length
    let out := items.drop start
    -- No store is so long that the sum saturates.
    return (out, set items (start + out.length))
  | str text index => drainSequence (text.map Value.str) index (str text)

end Draining

/-! ## The payload -/

/-- `value_to_int` of a value of a payload. -/
def valueToInt : Value → Outcome Int64
  | .int (.int number) => .ok number
  | .int (.bool flag) => .ok (if flag then 1 else 0)
  | .int (.bigInt number _) => okOrElse (.overflowError "integer overflow") number.toI64
  | .instance _ (some backing) => valueToInt backing
  | _ => .error (.typeError "unsupported operand type")

/-- `value_to_bytes_payload` of an iterator. -/
def valueToBytesPayload {ω : Type} (iterator : Iterator ω) : Outcome (List UInt8) := do
  let (values, _) ← iterator.drain
  values.mapM fun value => do
    let byte ← valueToInt value
    if 0 ≤ byte ∧ byte ≤ 255 then return byte.toUInt64.toUInt8
    else .error (.valueError "byte must be in range(0, 256)")

end IteratorPayloads

end Pyrs
