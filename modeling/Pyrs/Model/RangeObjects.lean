import Pyrs.Model.IntegerKernels
import Pyrs.Model.Slices

/-!
# Range objects

The length, the elements, the reverse iterator and the subscripts of a range, from
`vm/vm_runtime_methods.rs`, with the iterator that it makes from `vm/vm_native_dispatch.rs`.  As in
the other operations on big integers, there is no result where a machine integer overflows.
-/

namespace Pyrs

namespace RangeObjects

/-- The parts of a range; the constructor refuses the step zero. -/
structure RangeObject where
  start : BigInt
  stop : BigInt
  step : BigInt
  step_ne_zero : step.isZero = false

def rangeObjectLenBigint (start stop step : BigInt) : Option BigInt :=
  if step.isNegative then
    if start.cmpTotal stop ≠ .gt then some BigInt.zero
    else do
      let distance ← start.sub stop
      let numerator ← distance.sub BigInt.one
      let stepAbs := step.negated
      let (quotient, _) ← (← numerator.divModFloor stepAbs)
      quotient.add BigInt.one
  else if start.cmpTotal stop ≠ .lt then some BigInt.zero
  else do
    let distance ← stop.sub start
    let numerator ← distance.sub BigInt.one
    let (quotient, _) ← (← numerator.divModFloor step)
    quotient.add BigInt.one

def rangeObjectIndexValue (start step : BigInt) (index : Int64) : Option IntValue := do
  let offset ← step.mul (BigInt.fromI64 index)
  return IntValue.bigintToValue (← start.add offset)

/-! ## The iterator -/

/-- The state of an iterator of the kind `Range`. -/
structure RangeIterator where
  current : BigInt
  stop : BigInt
  step : BigInt

/-- The value that an iterator gives next, if there is one, and the iterator behind it. -/
def RangeIterator.next (iterator : RangeIterator) : Option (Option IntValue × RangeIterator) :=
  let done := if iterator.step.isNegative then iterator.current.cmpTotal iterator.stop != .gt
    else iterator.current.cmpTotal iterator.stop != .lt
  if done then some (none, iterator)
  else do
    let current ← iterator.current.add iterator.step
    return (some (IntValue.bigintToValue iterator.current), { iterator with current := current })

def rangeReverseIterator (range : RangeObject) : Option RangeIterator := do
  let len ← rangeObjectLenBigint range.start range.stop range.step
  if len.isZero then return ⟨range.start, range.start, BigInt.one⟩
  else
    let lastOffset ← len.sub BigInt.one
    let current ← range.start.add (← range.step.mul lastOffset)
    let stop ← range.start.sub range.step
    return ⟨current, stop, range.step.negated⟩

/-! ## Subscripts -/

/-- The errors by their constructor; `new` is that with a message only. -/
inductive RuntimeError where
  | indexError (message : String)
  | overflowError (message : String)
  | new (message : String)
  | slice (fault : Slices.Fault)
  | panicked
deriving DecidableEq

/-- The branch of `classify_runtime_error_message` that the messages of a range reach. -/
def classifyRuntimeErrorMessage (message : String) : String :=
  if "index out of range".toList <:+: message.toList then "IndexError" else "RuntimeError"

/-- `exception_name`; a panic and an error of `slice_indices` have their own. -/
def RuntimeError.exceptionName : RuntimeError → String
  | indexError _ => "IndexError"
  | overflowError _ => "OverflowError"
  | new message => classifyRuntimeErrorMessage message
  | slice (.valueError _) => "ValueError"
  | slice .overflow | panicked => "panic"

/-- A panic where a computation of big integers overflows. -/
def orPanicked {α : Type} : Option α → Except RuntimeError α
  | some value => .ok value
  | none => .error .panicked

def valueToInt : IntValue → Except RuntimeError Int64
  | .int value => .ok value
  | .bool value => .ok (if value then 1 else 0)
  | .bigInt _ _ => .error (.overflowError "integer overflow")

/-- The positions of a slice. -/
def indices (length : ℕ) (lower upper step : Option Slices.I64) : Except RuntimeError (List ℕ) :=
  match Slices.sliceIndices length lower upper step with
  | .ok indices => .ok indices
  | .error fault => .error (.slice fault)

/-- An element of a list in `getitem_value`. -/
def listGetitem {α : Type} (values : List α) (index : IntValue) : Except RuntimeError α := do
  let index := (← valueToInt index).toInt
  let index := if index < 0 then index + values.length else index
  if index < 0 then .error (.indexError "list index out of range")
  else match values[index.toNat]? with
    | some value => .ok value
    | none => .error (.indexError "list index out of range")

/-- A slice of a list; an index that is no position of the list would be a panic. -/
def listSlice {α : Type} (values : List α) (lower upper step : Option Slices.I64) :
    Except RuntimeError (List α) := do
  (← indices values.length lower upper step).mapM fun idx => orPanicked values[idx]?

/-- A range at an index; one below zero counts from the end. -/
def rangeGetitem (range : RangeObject) (index : IntValue) : Except RuntimeError IntValue := do
  let length ← orPanicked (rangeObjectLenBigint range.start range.stop range.step)
  match length.toI64 with
  | none => .error (.new "range too large for indexing")
  | some length =>
    let index := (← valueToInt index).toInt
    let index := if index < 0 then index + length.toInt else index
    if index < 0 ∨ index ≥ length.toInt then .error (.new "range index out of range")
    else orPanicked (rangeObjectIndexValue range.start range.step (Int64.ofInt index))

/-- A slice of a range is a list. -/
def rangeSlice (range : RangeObject) (lower upper step : Option Slices.I64) :
    Except RuntimeError (List IntValue) := do
  let length ← orPanicked (rangeObjectLenBigint range.start range.stop range.step)
  match length.toI64 with
  | none => .error (.new "range too large for slicing")
  | some length =>
    if length < 0 then .error (.new "range too large for slicing")
    else
      (← indices length.toInt.toNat lower upper step).mapM fun (idx : ℕ) =>
        orPanicked (rangeObjectIndexValue range.start range.step (Int64.ofInt idx))

end RangeObjects

end Pyrs
