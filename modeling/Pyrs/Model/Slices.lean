import Mathlib.Algebra.Order.Ring.Int

/-!
# Slice positions

`slice_indices` and `slice_bounds_for_step_one` of `vm/mod.rs`.  An `isize` is an integer; a sum
that is none is an overflow, which ends the computation.
-/

namespace Pyrs

namespace Slices

/-- An `i64`, which is also an `isize`. -/
abbrev I64 := {value : ℤ // -2 ^ 63 ≤ value ∧ value < 2 ^ 63}

/-- The numbers of an `isize`. -/
def IsIsize (value : ℤ) : Prop := -2 ^ 63 ≤ value ∧ value < 2 ^ 63

instance (value : ℤ) : Decidable (IsIsize value) := inferInstanceAs (Decidable (_ ∧ _))

/-- The exceptions of slicing. -/
inductive Fault where
  | valueError (message : String)
  | overflow
deriving DecidableEq, Repr

/-- The result of an operation on machine integers. -/
def checked (value : ℤ) : Except Fault ℤ :=
  if IsIsize value then .ok value else .error .overflow

/-- A bound of a sequence for a positive step. -/
def forwardBound (length bound : ℤ) : Except Fault ℤ := do
  let bound ← if bound < 0 then checked (bound + length) else .ok bound
  return if bound < 0 then 0 else if bound > length then length else bound

/-- A bound of a sequence for a negative step; the missing upper one is not shifted. -/
def backwardBound (length bound : ℤ) (shifted : Bool) : Except Fault ℤ := do
  let bound ← if shifted && bound < 0 then checked (bound + length) else .ok bound
  return if bound < -1 then -1 else if bound ≥ length then length - 1 else bound

/-- A loop of `slice_indices`: upwards for a positive step, downwards for a negative one. -/
def collectIndices (length stop step : ℤ) (hstep : step ≠ 0) (i : ℤ) : Except Fault (List ℕ) :=
  if (if step > 0 then i < stop else i > stop) then
    if IsIsize (i + step) then do
      let later ← collectIndices length stop step hstep (i + step)
      return if 0 ≤ i ∧ i < length then i.toNat :: later else later
    else .error .overflow
  else .ok []
termination_by (if step > 0 then stop - i else i - stop).toNat
decreasing_by split_ifs at * <;> omega

def sliceIndices (length : ℕ) (lower upper step : Option I64) : Except Fault (List ℕ) :=
  let step := step.elim 1 (·.val)
  if hstep : step = 0 then .error (.valueError "slice step cannot be zero")
  else do
    let (start, stop) ← if step > 0 then do
        let start ← forwardBound length (lower.elim 0 (·.val))
        let stop ← forwardBound length (upper.elim length (·.val))
        pure (start, stop)
      else do
        let start ← backwardBound length (lower.elim (length - 1) (·.val)) true
        let stop ← backwardBound length (upper.elim (-1) (·.val)) upper.isSome
        pure (start, stop)
    collectIndices length stop step hstep start

def sliceBoundsForStepOne (length : ℕ) (lower upper : Option I64) : Except Fault (ℕ × ℕ) := do
  let start ← forwardBound length (lower.elim 0 (·.val))
  let stop ← forwardBound length (upper.elim length (·.val))
  return (start.toNat, stop.toNat)

end Slices

end Pyrs
