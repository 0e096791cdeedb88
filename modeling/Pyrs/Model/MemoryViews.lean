import Pyrs.Model.Slices

/-!
# Memory views

The layout of a `memoryview` over the bytes of its source, the offsets of its elements and the two
ways of gathering their bytes, from `vm/mod.rs`.  A `usize` is a natural number.  A checked
operation that overflows gives nothing, and so does an allocation that is larger than there can be.
-/

namespace Pyrs

namespace MemoryViews

open Slices

/-- A view: where it begins, its shape and its strides. -/
structure MemoryViewObject where
  /-- The bytes of the source at the moment. -/
  source : List UInt8
  itemsize : ℕ
  format : Option String
  shape : Option (List I64)
  strides : Option (List I64)
  contiguous : Bool
  released : Bool
  start : ℕ
  length : Option ℕ

/-! ## Machine integers -/

/-- `usize::MAX`. -/
def usizeMax : ℕ := 2 ^ 64 - 1

/-- A checked operation on an `isize`. -/
def checkedIsize (value : ℤ) : Option ℤ := if IsIsize value then some value else none

/-- `isize::try_from` -/
def isizeTryFrom (value : ℕ) : Option ℤ := if value < 2 ^ 63 then some value else none

/-- `usize::try_from` -/
def usizeTryFrom (value : ℤ) : Option ℕ := if 0 ≤ value then some value.toNat else none

/-- A checked operation on a `usize`. -/
def checkedUsize (value : ℕ) : Option ℕ := if value ≤ usizeMax then some value else none

lemma isIsize_bmod (value : ℕ) : IsIsize ((value : ℤ).bmod 18446744073709551616) := by
  have hlow := Int.le_bmod (x := value) (m := 18446744073709551616) (by decide)
  have hhigh := Int.bmod_lt (x := value) (m := 18446744073709551616) (by decide)
  unfold IsIsize
  omega

/-- `as isize`, modulo `2 ^ 64` -/
def asIsize (value : ℕ) : I64 := ⟨(value : ℤ).bmod 18446744073709551616, isIsize_bmod value⟩

/-- `Vec::with_capacity` -/
def withCapacity (capacity : ℕ) : Option Unit := if capacity < 2 ^ 63 then some () else none

/-! ## Layout -/

def memoryviewBounds (start : ℕ) (length : Option ℕ) (sourceLen : ℕ) : ℕ × ℕ :=
  (min start sourceLen,
    match length with
    | some length => min (min (min start sourceLen + length) usizeMax) sourceLen
    | none => sourceLen)

def memoryviewShapeAndStridesFromParts (start : ℕ) (length : Option ℕ)
    (shape strides : Option (List I64)) (itemsize sourceLen : ℕ) : List I64 × List I64 :=
  let byDefault :=
    let itemsize := max itemsize 1
    let (start, stop) := memoryviewBounds start length sourceLen
    let span := stop - start
    let logicalLen := if span % itemsize = 0 then span / itemsize else span
    ([asIsize logicalLen], [asIsize itemsize])
  match shape, strides with
  | some shape, some strides =>
    if !shape.isEmpty && shape.length == strides.length then (shape, strides) else byDefault
  | _, _ => byDefault

/-- The offset of the first element, the number of elements, the stride and the item size. -/
def memoryviewLayout1dFromParts (start : ℕ) (length : Option ℕ) (itemsize : ℕ)
    (shape strides : Option (List I64)) (sourceLen : ℕ) : Option (ℤ × ℕ × I64 × ℕ) :=
  let itemsize := max itemsize 1
  match memoryviewShapeAndStridesFromParts start length shape strides itemsize sourceLen with
  | ([extent], [stride]) => do
    let logicalLen ← usizeTryFrom extent
    let origin ← isizeTryFrom start
    if logicalLen = 0 then return (origin, 0, stride, itemsize)
    let tailDelta ← checkedIsize (stride * (asIsize (logicalLen - 1)).val)
    let tail ← checkedIsize (origin + tailDelta)
    let first := min origin tail
    let last := max origin tail
    let itemsizeIsize ← isizeTryFrom itemsize
    let highest ← checkedIsize (last + (itemsizeIsize - 1))
    if first < 0 ∨ highest < 0 then none
    else
      let sourceLenIsize ← isizeTryFrom sourceLen
      if highest ≥ sourceLenIsize then none
      else return (origin, logicalLen, stride, itemsize)
  | _ => none

def memoryviewLayout1d (view : MemoryViewObject) : Option (ℤ × ℕ × I64 × ℕ) :=
  memoryviewLayout1dFromParts view.start view.length view.itemsize view.shape view.strides
    view.source.length

/-! ## Elements -/

def memoryviewNormalizeIndex (logicalLen : ℕ) (index : ℤ) : Option ℕ := do
  let normalized ← if index < 0 then checkedIsize (index + asIsize logicalLen) else some index
  if normalized < 0 then none
  else
    let normalized ← usizeTryFrom normalized
    if normalized ≥ logicalLen then none else return normalized

def memoryviewElementOffset (origin : ℤ) (logicalLen : ℕ) (stride index : ℤ) : Option ℕ := do
  let normalized ← memoryviewNormalizeIndex logicalLen index
  let delta ← checkedIsize (stride * asIsize normalized)
  let offset ← checkedIsize (origin + delta)
  if offset < 0 then none else usizeTryFrom offset

/-- The bytes of the item at an offset. -/
def itemBytes (source : List UInt8) (itemsize : ℕ) (itemsizeIsize offset : ℤ) :
    Option (List UInt8) :=
  if offset < 0 then none
  else do
    let stop ← checkedIsize (offset + itemsizeIsize)
    let sourceLen ← isizeTryFrom source.length
    if stop > sourceLen then none
    else
      let offset ← usizeTryFrom offset
      let stop ← checkedUsize (offset + itemsize)
      if offset ≤ stop ∧ stop ≤ source.length then
        return (source.take stop).drop offset
      else none

/-- A loop over the items along one dimension. -/
def collectItems (source : List UInt8) (itemsize : ℕ) (itemsizeIsize base stride : ℤ)
    (count : ℕ) (out : List UInt8) : Option (List UInt8) :=
  (List.range count).foldlM (fun out index => do
    let offset ← checkedIsize (base + (← checkedIsize (stride * asIsize index)))
    return out ++ (← itemBytes source itemsize itemsizeIsize offset)) out

def memoryviewCollectBytes (source : List UInt8) (origin : ℤ) (logicalLen : ℕ) (stride : ℤ)
    (itemsize : ℕ) : Option (List UInt8) :=
  if logicalLen = 0 then some []
  else do
    withCapacity (← checkedUsize (logicalLen * itemsize))
    collectItems source itemsize (← isizeTryFrom itemsize) origin stride logicalLen []

def memoryviewLogicalNbytes (shape : List I64) (itemsize : ℕ) : Option ℕ := do
  let elements ← shape.foldlM (fun elements (dim : I64) => do
    checkedUsize (elements * (← usizeTryFrom dim))) 1
  checkedUsize (elements * max itemsize 1)

def memoryviewCollectBytesRecursive (source : List UInt8) (itemsize : ℕ) :
    List I64 → List I64 → ℤ → List UInt8 → Option (List UInt8)
  | [dim], [stride], base, out => do
    let count ← usizeTryFrom dim
    collectItems source itemsize (← isizeTryFrom itemsize) base stride count out
  | dim :: dims, stride :: strides, base, out =>
    if dims.length ≠ strides.length then none
    else do
      let count ← usizeTryFrom dim
      (List.range count).foldlM (fun out index => do
        let rowBase ← checkedIsize (base + (← checkedIsize (stride * asIsize index)))
        memoryviewCollectBytesRecursive source itemsize dims strides rowBase out) out
  | _, _, _, _ => none

def memoryviewCollectBytesForView (view : MemoryViewObject) : Option (List UInt8) := do
  let itemsize := max view.itemsize 1
  let (shape, strides) := memoryviewShapeAndStridesFromParts view.start view.length view.shape
    view.strides itemsize view.source.length
  withCapacity (← memoryviewLogicalNbytes shape itemsize)
  memoryviewCollectBytesRecursive view.source itemsize shape strides (← isizeTryFrom view.start) []

end MemoryViews

end Pyrs
