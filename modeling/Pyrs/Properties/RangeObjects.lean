import Pyrs.Model.RangeObjects
import Pyrs.Properties.IntegerOperators
import Pyrs.Properties.Slices

/-!
# Ranges as lists

The length of a range is the number of its elements, its reverse iterator gives them backwards, and
a subscript of it is that of their list.
-/

namespace Pyrs

/-- The big integer of an integer. -/
def BigInt.ofInt (value : ℤ) : BigInt :=
  if h : value = 0 then BigInt.zero
  else ⟨if value < 0 then -1 else 1, magnitudeLimbs value.natAbs, magnitudeLimbs_getLast _, by
    split <;> simp [magnitudeLimbs_eq_nil, h]⟩

lemma BigInt.ofInt_toInt (value : ℤ) : (BigInt.ofInt value).toInt = value := by
  rw [ofInt]
  split
  · next hzero => rw [zero_toInt, hzero]
  · rw [toInt]
    exact signed_magnitudeLimbs value

lemma BigInt.eq_ofInt (value : BigInt) : value = BigInt.ofInt value.toInt :=
  BigInt.toInt_injective (BigInt.ofInt_toInt _).symm

namespace RangeObjects

open SteppedRange

/-- The value of an integer. -/
def intValue (value : ℤ) : IntValue := IntValue.bigintToValue (BigInt.ofInt value)

lemma bigintToValue_eq (value : BigInt) :
    IntValue.bigintToValue value = intValue value.toInt := by
  rw [intValue, ← BigInt.eq_ofInt]

namespace RangeObject

variable (range : RangeObject)

lemma step_toInt_ne_zero : range.step.toInt ≠ 0 := fun h => by
  have := range.step_ne_zero
  rw [BigInt.isZero_iff.2 h] at this
  cases this

/-- How many elements a range has. -/
def size : ℕ := count range.start.toInt range.stop.toInt range.step.toInt

/-- The elements of a range. -/
def elementValues : List IntValue :=
  (elements range.start.toInt range.stop.toInt range.step.toInt).map intValue

lemma length_elementValues : range.elementValues.length = range.size := by
  rw [elementValues, List.length_map, length_elements]
  rfl

lemma getElem_elementValues {i : ℕ} (h : i < range.elementValues.length) :
    range.elementValues[i] = intValue (range.start.toInt + i * range.step.toInt) := by
  simp only [elementValues, List.getElem_map, getElem_elements]

end RangeObject

/-! ## The length -/

/-- The rounded quotient of the distance counts the steps. -/
lemma quotient_eq {q r distance divisor : ℤ} (hdivisor : 0 < divisor)
    (hparts : distance - 1 = q * divisor + r)
    (hr : 0 ≤ r ∧ r < divisor ∨ divisor < r ∧ r ≤ 0) :
    (distance + divisor - 1) / divisor = q + 1 := by
  have hbounds : 0 ≤ r ∧ r < divisor := by omega
  have hsum : distance + divisor - 1 = r + divisor * (q + 1) := by
    linear_combination hparts
  rw [hsum, Int.add_mul_ediv_left _ _ hdivisor.ne', Int.ediv_eq_zero_of_lt hbounds.1 hbounds.2,
    zero_add]

lemma quotient_nonneg {q r distance divisor : ℤ} (hdivisor : 0 < divisor) (hdistance : 0 < distance)
    (hparts : distance - 1 = q * divisor + r)
    (hr : 0 ≤ r ∧ r < divisor ∨ divisor < r ∧ r ≤ 0) : 0 ≤ q := by
  by_contra hneg
  have hmul := Int.mul_le_mul_of_nonneg_right (show q ≤ -1 by omega) hdivisor.le
  omega

theorem rangeObjectLenBigint_spec (start stop step : BigInt) (hstep : step.toInt ≠ 0) :
    ∃ len, rangeObjectLenBigint start stop step = some len ∧
      len.toInt = count start.toInt stop.toInt step.toInt := by
  -- Both directions divide the distance less one by the size of the step.
  have hdivide : ∀ (distance divisor : BigInt), 0 < divisor.toInt → 0 < distance.toInt →
      ∃ len, ((distance.sub BigInt.one).bind fun numerator =>
        (numerator.divModFloor divisor).bind fun parts =>
          parts.bind fun parts => parts.1.add BigInt.one) = some len ∧
        len.toInt = ((distance.toInt + divisor.toInt - 1) / divisor.toInt).toNat := by
    intro distance divisor hdivisor hdistance
    obtain ⟨numerator, hnumerator, hnumeratorValue⟩ := BigInt.sub_spec distance BigInt.one
    obtain ⟨q, r, hparts, hvalue, hr⟩ := BigInt.divModFloor_parts numerator hdivisor.ne'
    obtain ⟨len, hlen, hlenValue⟩ := BigInt.add_spec q BigInt.one
    rw [BigInt.one_toInt] at hnumeratorValue hlenValue
    rw [hnumeratorValue] at hvalue
    refine ⟨len, ?_, ?_⟩
    · simp only [hnumerator, hparts, Option.bind_some, hlen]
    · have hnonneg := quotient_nonneg hdivisor hdistance hvalue hr
      rw [quotient_eq hdivisor hvalue hr, hlenValue]
      omega
  rw [rangeObjectLenBigint]
  by_cases hnegative : step.isNegative = true
  · have hneg := BigInt.isNegative_iff.1 hnegative
    rw [if_pos hnegative]
    by_cases hend : start.cmpTotal stop = .gt
    · have hlt := BigInt.cmpTotal_gt_iff.1 hend
      obtain ⟨distance, hdistance, hdistanceValue⟩ := BigInt.sub_spec start stop
      obtain ⟨len, hlen, hlenValue⟩ := hdivide distance step.negated
        (by rw [BigInt.negated_toInt]; omega) (by omega)
      refine ⟨len, ?_, ?_⟩
      · rw [if_neg (not_not.2 hend), hdistance]
        exact hlen
      · rw [hlenValue, BigInt.negated_toInt, hdistanceValue, count, if_neg hneg.not_gt]
        rfl
    · refine ⟨BigInt.zero, if_pos hend, ?_⟩
      rw [BigInt.zero_toInt, count_eq_zero hstep]
      · rfl
      · rw [Before, if_neg hneg.not_gt]
        exact fun hlt => hend (BigInt.cmpTotal_gt_iff.2 hlt)
  · have hpos : 0 < step.toInt :=
      lt_of_le_of_ne (not_lt.1 (hnegative ∘ BigInt.isNegative_iff.2)) hstep.symm
    rw [if_neg hnegative]
    by_cases hend : start.cmpTotal stop = .lt
    · have hlt := BigInt.cmpTotal_lt_iff.1 hend
      obtain ⟨distance, hdistance, hdistanceValue⟩ := BigInt.sub_spec stop start
      obtain ⟨len, hlen, hlenValue⟩ := hdivide distance step hpos (by omega)
      refine ⟨len, ?_, ?_⟩
      · rw [if_neg (not_not.2 hend), hdistance]
        exact hlen
      · rw [hlenValue, hdistanceValue, count, if_pos hpos]
    · refine ⟨BigInt.zero, if_pos hend, ?_⟩
      rw [BigInt.zero_toInt, count_eq_zero hstep]
      · rfl
      · rw [Before, if_pos hpos]
        exact fun hlt => hend (BigInt.cmpTotal_lt_iff.2 hlt)

theorem rangeObjectIndexValue_spec (start step : BigInt) (index : Int64) :
    rangeObjectIndexValue start step index =
      some (intValue (start.toInt + index.toInt * step.toInt)) := by
  obtain ⟨offset, hoffset, hoffsetValue⟩ := BigInt.mul_spec step (BigInt.fromI64 index)
  obtain ⟨sum, hsum, hsumValue⟩ := BigInt.add_spec start offset
  rw [BigInt.fromI64_toInt] at hoffsetValue
  simp only [rangeObjectIndexValue, hoffset, hsum, Option.bind_eq_bind, Option.bind_some]
  rw [bigintToValue_eq, hsumValue, hoffsetValue, mul_comm]
  rfl

/-! ## The reverse iterator -/

namespace RangeIterator

/-- What an iterator gives when it is asked so many times, until it ends. -/
def yields : ℕ → RangeIterator → Option (List IntValue × RangeIterator)
  | 0, iterator => some ([], iterator)
  | n + 1, iterator => do
    match ← iterator.next with
    | (none, iterator) => return ([], iterator)
    | (some value, iterator) =>
      let (values, last) ← yields n iterator
      return (value :: values, last)

lemma done_iff (iterator : RangeIterator) (hstep : iterator.step.toInt ≠ 0) :
    (if iterator.step.isNegative then iterator.current.cmpTotal iterator.stop != .gt
      else iterator.current.cmpTotal iterator.stop != .lt) = true ↔
      ¬ Before iterator.step.toInt iterator.current.toInt iterator.stop.toInt := by
  unfold Before
  by_cases hnegative : iterator.step.isNegative = true
  · have hneg := BigInt.isNegative_iff.1 hnegative
    rw [if_pos hnegative, if_neg hneg.not_gt, bne_iff_ne, Ne, BigInt.cmpTotal_gt_iff]
  · have hpos : 0 < iterator.step.toInt :=
      lt_of_le_of_ne (not_lt.1 (hnegative ∘ BigInt.isNegative_iff.2)) hstep.symm
    rw [if_neg hnegative, if_pos hpos, bne_iff_ne, Ne, BigInt.cmpTotal_lt_iff]

lemma next_of_before {iterator : RangeIterator} (hstep : iterator.step.toInt ≠ 0)
    (h : Before iterator.step.toInt iterator.current.toInt iterator.stop.toInt) :
    ∃ current, current.toInt = iterator.current.toInt + iterator.step.toInt ∧
      iterator.next = some (some (intValue iterator.current.toInt),
        { iterator with current := current }) := by
  obtain ⟨current, hcurrent, hvalue⟩ := BigInt.add_spec iterator.current iterator.step
  refine ⟨current, hvalue, ?_⟩
  rw [next, if_neg fun hdone => (done_iff iterator hstep).1 hdone h, hcurrent, bigintToValue_eq]
  rfl

lemma next_of_not_before {iterator : RangeIterator} (hstep : iterator.step.toInt ≠ 0)
    (h : ¬ Before iterator.step.toInt iterator.current.toInt iterator.stop.toInt) :
    iterator.next = some (none, iterator) :=
  if_pos ((done_iff iterator hstep).2 h)

/-- The iterator gives the elements from its current one on, and then ends. -/
theorem yields_eq (n : ℕ) (iterator : RangeIterator) (hstep : iterator.step.toInt ≠ 0) :
    ∃ last, iterator.yields n = some (((elements iterator.current.toInt iterator.stop.toInt
        iterator.step.toInt).map intValue).take n, last) ∧
      (count iterator.current.toInt iterator.stop.toInt iterator.step.toInt ≤ n →
        last.next = some (none, last)) := by
  induction n generalizing iterator with
  | zero =>
    refine ⟨iterator, rfl, fun hcount => next_of_not_before hstep fun h => ?_⟩
    rw [count_succ hstep h] at hcount
    omega
  | succ n ih =>
    by_cases h : Before iterator.step.toInt iterator.current.toInt iterator.stop.toInt
    · obtain ⟨current, hcurrent, hnext⟩ := next_of_before hstep h
      obtain ⟨last, hlast, hend⟩ := ih { iterator with current := current } hstep
      dsimp only at hlast hend
      rw [hcurrent] at hlast hend
      refine ⟨last, ?_, fun hcount => hend ?_⟩
      · rw [yields, hnext, Option.bind_eq_bind, Option.bind_some]
        dsimp only
        rw [hlast, elements_cons hstep h]
        rfl
      · rw [count_succ hstep h] at hcount
        omega
    · have hnext := next_of_not_before hstep h
      refine ⟨iterator, ?_, fun _ => hnext⟩
      rw [yields, hnext, elements_of_not_before hstep h]
      rfl

end RangeIterator

theorem rangeReverseIterator_spec (range : RangeObject) :
    ∃ iterator, rangeReverseIterator range = some iterator ∧
      ∀ n, ∃ last, iterator.yields n = some (range.elementValues.reverse.take n, last) ∧
        (range.size ≤ n → last.next = some (none, last)) := by
  have hstep := range.step_toInt_ne_zero
  obtain ⟨len, hlen, hlenValue⟩ := rangeObjectLenBigint_spec range.start range.stop range.step hstep
  rw [rangeReverseIterator, hlen, Option.bind_eq_bind, Option.bind_some]
  by_cases hempty : len.isZero = true
  · have hzero : count range.start.toInt range.stop.toInt range.step.toInt = 0 := by
      have := BigInt.isZero_iff.1 hempty
      omega
    have hone : BigInt.one.toInt ≠ 0 := by
      rw [BigInt.one_toInt]
      decide
    have hend : ¬ Before BigInt.one.toInt range.start.toInt range.start.toInt := by
      rw [BigInt.one_toInt, Before, if_pos one_pos]
      exact lt_irrefl _
    have hvalues : range.elementValues = [] := by
      rw [← List.length_eq_zero_iff, RangeObject.length_elementValues]
      exact hzero
    refine ⟨_, if_pos hempty, fun n => ?_⟩
    obtain ⟨last, hlast, hlastEnd⟩ :=
      RangeIterator.yields_eq n ⟨range.start, range.start, BigInt.one⟩ hone
    dsimp only at hlast hlastEnd
    rw [elements_of_not_before hone hend] at hlast
    rw [count_eq_zero hone hend] at hlastEnd
    exact ⟨last, by rw [hlast, hvalues]; rfl, fun _ => hlastEnd (Nat.zero_le n)⟩
  · have hpos : 0 < count range.start.toInt range.stop.toInt range.step.toInt := by
      have : len.toInt ≠ 0 := hempty ∘ BigInt.isZero_iff.2
      omega
    obtain ⟨lastOffset, hlastOffset, hlastOffsetValue⟩ := BigInt.sub_spec len BigInt.one
    obtain ⟨distance, hdistance, hdistanceValue⟩ := BigInt.mul_spec range.step lastOffset
    obtain ⟨current, hcurrent, hcurrentValue⟩ := BigInt.add_spec range.start distance
    obtain ⟨stop, hstop, hstopValue⟩ := BigInt.sub_spec range.start range.step
    have hcurrentEq : current.toInt = range.start.toInt +
        (count range.start.toInt range.stop.toInt range.step.toInt - 1 : ℕ) *
          range.step.toInt := by
      rw [hcurrentValue, hdistanceValue, hlastOffsetValue, hlenValue, BigInt.one_toInt,
        Nat.cast_sub hpos, mul_comm]
      rfl
    refine ⟨⟨current, stop, range.step.negated⟩, ?_, fun n => ?_⟩
    · rw [if_neg hempty]
      simp only [hlastOffset, hdistance, hcurrent, hstop, Option.bind_some]
      rfl
    · have hnegated : range.step.negated.toInt ≠ 0 := by
        rw [BigInt.negated_toInt]
        exact neg_ne_zero.2 hstep
      obtain ⟨last, hlast, hlastEnd⟩ :=
        RangeIterator.yields_eq n ⟨current, stop, range.step.negated⟩ hnegated
      have hcount := congrArg List.length (elements_reverse hstep hpos)
      rw [List.length_reverse, length_elements, length_elements] at hcount
      dsimp only at hlast hlastEnd
      rw [hcurrentEq, hstopValue, BigInt.negated_toInt] at hlast hlastEnd
      rw [elements_reverse hstep hpos, List.map_reverse] at hlast
      rw [hcount] at hlastEnd
      exact ⟨last, hlast, hlastEnd⟩

/-! ## Subscripts -/

/-- The kind of an error, without its message. -/
def named {α : Type} (result : Except RuntimeError α) : Except String α :=
  result.mapError RuntimeError.exceptionName

lemma rangeGetitem_eq (range : RangeObject) (hsize : range.size < 2 ^ 63) (index : IntValue) :
    named (rangeGetitem range index) = named (listGetitem range.elementValues index) := by
  obtain ⟨len, hlen, hlenValue⟩ :=
    rangeObjectLenBigint_spec range.start range.stop range.step range.step_toInt_ne_zero
  have hlenSize : len.toInt = range.size := hlenValue
  obtain ⟨length, hlength, hlengthValue⟩ := BigInt.toI64_eq_some (a := len) (by omega) (by omega)
  rw [rangeGetitem, hlen, orPanicked, Results.ok_bind, hlength, listGetitem]
  dsimp only
  cases valueToInt index with
  | error error => rfl
  | ok index =>
    rw [Results.ok_bind, Results.ok_bind, hlengthValue, hlenSize, RangeObject.length_elementValues]
    generalize (if index.toInt < 0 then index.toInt + (range.size : ℤ) else index.toInt) = position
    by_cases hneg : position < 0
    · rw [if_pos (.inl hneg), if_pos hneg]
      exact congrArg Except.error (by decide)
    · obtain ⟨position, rfl⟩ := Int.eq_ofNat_of_zero_le (not_lt.1 hneg)
      rw [if_neg hneg, Int.toNat_natCast]
      by_cases hin : position < range.size
      · have hin' : position < range.elementValues.length := by
          rwa [RangeObject.length_elementValues]
        have hposition : (Int64.ofInt position).toInt = position :=
          Int64.toInt_ofInt_of_le (by omega) (by omega)
        rw [if_neg (by omega), rangeObjectIndexValue_spec, hposition,
          List.getElem?_eq_getElem hin', RangeObject.getElem_elementValues]
        rfl
      · rw [if_pos (by omega), List.getElem?_eq_none (by
          rw [RangeObject.length_elementValues]
          omega)]
        exact congrArg Except.error (by decide)

/-- `slice_indices` gives positions only. -/
lemma lt_of_mem_indices {length : ℕ} {lower upper step : Option Slices.I64}
    (hlength : length < 2 ^ 63) {positions : List ℕ}
    (h : indices length lower upper step = .ok positions) {position : ℕ}
    (hposition : position ∈ positions) : position < length := by
  rw [indices] at h
  by_cases hstep : step.elim 1 (·.val) = 0
  · rw [Slices.sliceIndices, dif_pos hstep] at h
    cases h
  · rw [Slices.sliceIndices_eq hlength hstep] at h
    by_cases hfits : Slices.StepFits length lower upper (step.elim 1 (·.val))
    · rw [if_pos hfits] at h
      obtain rfl := Except.ok.inj h
      obtain ⟨x, hx, rfl⟩ := List.mem_map.1 hposition
      have := Slice.mem_positions (Int.natCast_nonneg length) hstep hx
      omega
    · rw [if_neg hfits] at h
      cases h

lemma rangeSlice_eq (range : RangeObject) (hsize : range.size < 2 ^ 63)
    (lower upper step : Option Slices.I64) :
    rangeSlice range lower upper step = listSlice range.elementValues lower upper step := by
  obtain ⟨len, hlen, hlenValue⟩ :=
    rangeObjectLenBigint_spec range.start range.stop range.step range.step_toInt_ne_zero
  have hlenSize : len.toInt = range.size := hlenValue
  obtain ⟨length, hlength, hlengthValue⟩ := BigInt.toI64_eq_some (a := len) (by omega) (by omega)
  have hnonneg : ¬ length < 0 := by
    rw [Int64.lt_iff_toInt_lt, hlengthValue, hlenSize, Int64.toInt_zero]
    omega
  rw [rangeSlice, hlen, orPanicked, Results.ok_bind, hlength, listSlice]
  dsimp only
  rw [if_neg hnonneg, hlengthValue, hlenSize, Int.toNat_natCast,
    RangeObject.length_elementValues]
  cases hindices : indices range.size lower upper step with
  | error error => rfl
  | ok positions =>
    rw [Results.ok_bind, Results.ok_bind]
    refine Results.mapM_congr_of_mem fun position hmem => ?_
    have hlt := lt_of_mem_indices hsize hindices hmem
    have hposition : (Int64.ofInt position).toInt = position :=
      Int64.toInt_ofInt_of_le (by omega) (by omega)
    have hin : position < range.elementValues.length := by
      rwa [RangeObject.length_elementValues]
    rw [rangeObjectIndexValue_spec, hposition, List.getElem?_eq_getElem hin,
      RangeObject.getElem_elementValues]

/-- **A range is the list of its elements.**  Its length is the number of steps before the stop, the
reverse iterator gives them backwards and ends, and an index or a slice selects what it selects of
the list; where an index is out of range, both errors are of one kind. -/
theorem range_objects_sound (range : RangeObject) :
    (∃ len, rangeObjectLenBigint range.start range.stop range.step = some len ∧
        len.toInt = range.elementValues.length) ∧
      (∀ i : ℕ, i < range.elementValues.length ↔
        Before range.step.toInt (range.start.toInt + i * range.step.toInt) range.stop.toInt) ∧
      (∀ i (h : i < range.elementValues.length),
        range.elementValues[i] = intValue (range.start.toInt + i * range.step.toInt)) ∧
      (∃ iterator, rangeReverseIterator range = some iterator ∧
        ∀ n, ∃ last, iterator.yields n = some (range.elementValues.reverse.take n, last) ∧
          (range.elementValues.length ≤ n → last.next = some (none, last))) ∧
      (∀ index : Int64, rangeObjectIndexValue range.start range.step index =
        some (intValue (range.start.toInt + index.toInt * range.step.toInt))) ∧
      (range.elementValues.length < 2 ^ 63 →
        (∀ index, named (rangeGetitem range index) =
          named (listGetitem range.elementValues index)) ∧
        ∀ lower upper step,
          rangeSlice range lower upper step = listSlice range.elementValues lower upper step) := by
  have hlength := range.length_elementValues
  refine ⟨?_, fun i => ?_, fun i h => range.getElem_elementValues h, ?_,
    rangeObjectIndexValue_spec range.start range.step, fun hsize => ?_⟩
  · rw [hlength]
    exact rangeObjectLenBigint_spec range.start range.stop range.step range.step_toInt_ne_zero
  · rw [hlength]
    exact lt_count_iff range.step_toInt_ne_zero
  · rw [hlength]
    exact rangeReverseIterator_spec range
  · rw [hlength] at hsize
    exact ⟨rangeGetitem_eq range hsize, rangeSlice_eq range hsize⟩

/-- An index of `range(0)`, and that of the empty list. -/
theorem rangeGetitem_message :
    rangeGetitem ⟨BigInt.zero, BigInt.zero, BigInt.one, rfl⟩ (.int 0) =
        .error (.new "range index out of range") ∧
      RangeObject.elementValues ⟨BigInt.zero, BigInt.zero, BigInt.one, rfl⟩ = [] ∧
      listGetitem ([] : List IntValue) (.int 0) =
        .error (.indexError "list index out of range") := by
  refine ⟨rfl, ?_, rfl⟩
  rw [RangeObject.elementValues, BigInt.zero_toInt, BigInt.one_toInt]
  rfl

end RangeObjects

end Pyrs
