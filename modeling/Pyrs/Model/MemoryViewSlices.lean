import Pyrs.Model.MemoryViews

/-!
# Slices of memory views

The slice of a `memoryview` in `getitem_value` of `vm/vm_runtime_methods.rs`: of rows, of a
contiguous view, of a strided view, and of a view without a layout, whose bytes are copied.
-/

namespace Pyrs

namespace MemoryViews

open Slices

/-- The exceptions of slicing a view. -/
inductive ViewFault where
  | typeError (message : String)
  | runtimeError (message : String)
  | slice (fault : Fault)
deriving DecidableEq, Repr

/-- `ok_or_else` with the error of an operation that is not supported. -/
def okOrUnsupported {α : Type} : Option α → Except ViewFault α
  | some value => .ok value
  | none => .error (.typeError "subscript unsupported type")

/-- A checked operation whose result is kept as an `isize`. -/
def toIsize (value : ℤ) : Option I64 := if h : IsIsize value then some ⟨value, h⟩ else none

/-- The positions of a slice. -/
def viewIndices (length : ℕ) (lower upper step : Option I64) : Except ViewFault (List ℕ) :=
  match sliceIndices length lower upper step with
  | .ok indices => .ok indices
  | .error fault => .error (.slice fault)

def saturatingMul (left right : ℕ) : ℕ := min (left * right) usizeMax

/-- A new start is not negative; `as usize` keeps it. -/
def newStart (start : ℤ) (fault : ViewFault) : Except ViewFault ℕ :=
  if start < 0 then .error fault else .ok start.toNat

/-- A view of several dimensions: the rows are selected. -/
def sliceRows (view : MemoryViewObject) (shape strides : List I64) (lower upper step : Option I64) :
    Except ViewFault MemoryViewObject :=
  match shape, strides with
  | rows :: _, baseStride :: _ => do
    if shape.length ≠ strides.length then okOrUnsupported none
    else
      let rows ← okOrUnsupported (usizeTryFrom rows)
      let indices ← viewIndices rows lower upper step
      let origin ← okOrUnsupported (isizeTryFrom view.start)
      let start ← match indices.head? with
        | some first => do
          let delta ← okOrUnsupported (checkedIsize (baseStride * asIsize first))
          okOrUnsupported (checkedIsize (origin + delta))
        | none => .ok origin
      let start ← newStart start (.typeError "subscript unsupported type")
      let stepValue := step.elim 1 (·.val)
      let newShape := shape.set 0 (asIsize indices.length)
      let newStrides := strides.set 0 (← okOrUnsupported (toIsize (baseStride * stepValue)))
      let byteLen ← okOrUnsupported (memoryviewLogicalNbytes newShape view.itemsize)
      return { view with
        start := start, length := some byteLen, shape := some newShape,
        strides := some newStrides, contiguous := view.contiguous && stepValue == 1 }
  | _, _ => okOrUnsupported none

/-- A view whose stride is the item size, with the step one. -/
def sliceContiguous (view : MemoryViewObject) (origin : ℤ) (logicalLen : ℕ) (stride : I64)
    (itemsize : ℕ) (lower upper : Option I64) : Except ViewFault MemoryViewObject :=
  match sliceBoundsForStepOne logicalLen lower upper with
  | .error fault => .error (.slice fault)
  | .ok (startIdx, stopIdx) => do
    let startDelta ← okOrUnsupported (checkedIsize (stride * asIsize startIdx))
    let start ← okOrUnsupported (checkedIsize (origin + startDelta))
    let start ← newStart start (.runtimeError "subscript unsupported type")
    return { view with
      start := start, length := some (saturatingMul (stopIdx - startIdx) itemsize),
      shape := none, strides := none }

/-- A slice of a view with strides. -/
def sliceStrided (view : MemoryViewObject) (origin : ℤ) (logicalLen : ℕ) (stride : I64)
    (itemsize : ℕ) (lower upper step : Option I64) : Except ViewFault MemoryViewObject := do
  let indices ← viewIndices logicalLen lower upper step
  let (start, newStride) ← match indices.head? with
    | some first => do
      let firstDelta ← okOrUnsupported (checkedIsize (stride * asIsize first))
      let start ← okOrUnsupported (checkedIsize (origin + firstDelta))
      let strideScaled ← okOrUnsupported (toIsize (stride * step.elim 1 (·.val)))
      pure (start, strideScaled)
    | none => pure (origin, stride)
  let start ← newStart start (.runtimeError "subscript unsupported type")
  return { view with
    start := start, length := some (saturatingMul indices.length itemsize),
    shape := some [asIsize indices.length], strides := some [newStride], contiguous := false }

/-- A view without a layout: the selected bytes become a new source. -/
def sliceCopied (view : MemoryViewObject) (lower upper step : Option I64) :
    Except ViewFault MemoryViewObject := do
  let (viewStart, viewEnd) := memoryviewBounds view.start view.length view.source.length
  let indices ← viewIndices (viewEnd - viewStart) lower upper step
  let result := indices.filterMap fun idx => view.source[viewStart + idx]?
  return { view with
    source := result, start := 0, length := none, shape := none, strides := none,
    contiguous := false }

/-- The slice of a view, as a view. -/
def getitemSlice (view : MemoryViewObject) (lower upper step : Option I64) :
    Except ViewFault MemoryViewObject :=
  let (shape, strides) := memoryviewShapeAndStridesFromParts view.start view.length view.shape
    view.strides view.itemsize view.source.length
  if shape.length > 1 then sliceRows view shape strides lower upper step
  else match memoryviewLayout1d view with
    | some (origin, logicalLen, stride, itemsize) =>
      if step.elim 1 (·.val) = 1 ∧ stride = asIsize itemsize then
        sliceContiguous view origin logicalLen stride itemsize lower upper
      else sliceStrided view origin logicalLen stride itemsize lower upper step
    | none => sliceCopied view lower upper step

/-- A view of a whole source, as `memoryview` and `cast` make it. -/
def allocMemoryviewWith (source : List UInt8) (itemsize : ℕ) (format : Option String) :
    MemoryViewObject :=
  ⟨source, itemsize, format, none, none, true, false, 0, none⟩

end MemoryViews

end Pyrs
