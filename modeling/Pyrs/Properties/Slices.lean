import Pyrs.Library.SteppedRanges
import Pyrs.Library.Results
import Pyrs.Model.Slices

/-!
# The positions of a slice

`slice_indices` goes through the positions that a slice selects, and takes one step more than there
are positions.  That step is the only one that can leave the machine integers.
-/

namespace Pyrs

namespace Slices

open SteppedRange

variable {length : ℕ} {lower upper : Option I64} {step : ℤ}

/-- The value of a bound. -/
abbrev bound (value : Option I64) : Option ℤ := value.map (·.val)

/-! ## Bounds -/

lemma checked_eq {value : ℤ} (h : IsIsize value) : checked value = .ok value := if_pos h

lemma forwardBound_eq (hlength : length < 2 ^ 63) (hstep : 0 < step) {value : ℤ}
    (hvalue : IsIsize value) :
    forwardBound length value = .ok (Slice.clamp length step value) := by
  unfold forwardBound Slice.clamp Slice.limits
  rw [if_neg (not_lt.2 hstep.le)]
  unfold IsIsize at hvalue
  by_cases hneg : value < 0
  · rw [if_pos hneg, if_pos hneg, checked_eq (by unfold IsIsize; omega), Results.ok_bind]
    refine congrArg Except.ok ?_
    dsimp only
    split_ifs <;> omega
  · rw [if_neg hneg, if_neg hneg, Results.ok_bind]
    refine congrArg Except.ok ?_
    dsimp only
    split_ifs <;> omega

lemma backwardBound_eq (hlength : length < 2 ^ 63) (hstep : step < 0) {value : ℤ}
    (hvalue : IsIsize value) :
    backwardBound length value true = .ok (Slice.clamp length step value) := by
  unfold backwardBound Slice.clamp Slice.limits
  rw [if_pos hstep, Bool.true_and]
  unfold IsIsize at hvalue
  by_cases hneg : value < 0
  · rw [if_pos (decide_eq_true hneg), if_pos hneg, checked_eq (by unfold IsIsize; omega),
      Results.ok_bind]
    refine congrArg Except.ok ?_
    dsimp only
    split_ifs <;> omega
  · rw [if_neg (by simpa using hneg), if_neg hneg, Results.ok_bind]
    refine congrArg Except.ok ?_
    dsimp only
    split_ifs <;> omega

lemma forwardStart_eq (hlength : length < 2 ^ 63) (hstep : 0 < step) :
    forwardBound length (lower.elim 0 (·.val)) = .ok (Slice.start length (bound lower) step) := by
  cases lower with
  | some value => exact forwardBound_eq hlength hstep value.2
  | none =>
    rw [Option.elim_none, forwardBound_eq hlength hstep ⟨by decide, by decide⟩]
    refine congrArg Except.ok ?_
    simp only [Slice.clamp, Slice.start, Slice.limits, Option.map_none, Option.elim_none,
      if_neg (not_lt.2 hstep.le), if_neg (lt_irrefl (0 : ℤ))]
    omega

lemma forwardStop_eq (hlength : length < 2 ^ 63) (hstep : 0 < step) :
    forwardBound length (upper.elim length (·.val)) =
      .ok (Slice.stop length (bound upper) step) := by
  cases upper with
  | some value => exact forwardBound_eq hlength hstep value.2
  | none =>
    rw [Option.elim_none, forwardBound_eq hlength hstep ⟨by omega, by omega⟩]
    refine congrArg Except.ok ?_
    simp only [Slice.clamp, Slice.stop, Slice.limits, Option.map_none, Option.elim_none,
      if_neg (not_lt.2 hstep.le), if_neg (not_lt.2 (Int.natCast_nonneg length))]
    omega

/-- Without a bound a slice that steps back begins at the last position, before an empty sequence
at -1. -/
lemma backwardStart_eq (hlength : length < 2 ^ 63) (hstep : step < 0) :
    backwardBound length (lower.elim (length - 1) (·.val)) true =
      .ok (Slice.start length (bound lower) step) := by
  cases lower with
  | some value => exact backwardBound_eq hlength hstep value.2
  | none =>
    rw [Option.elim_none, backwardBound_eq hlength hstep ⟨by omega, by omega⟩]
    refine congrArg Except.ok ?_
    simp only [Slice.clamp, Slice.start, Slice.limits, Option.map_none, Option.elim_none,
      if_pos hstep]
    split_ifs <;> omega

lemma backwardStop_eq (hlength : length < 2 ^ 63) (hstep : step < 0) :
    backwardBound length (upper.elim (-1) (·.val)) upper.isSome =
      .ok (Slice.stop length (bound upper) step) := by
  cases upper with
  | some value => exact backwardBound_eq hlength hstep value.2
  | none =>
    refine congrArg Except.ok ?_
    simp only [Slice.stop, Slice.limits, Option.map_none, Option.elim_none, if_pos hstep]
    split_ifs <;> omega

/-! ## The loop -/

lemma before_iff {stop step i : ℤ} : (if step > 0 then i < stop else i > stop) ↔
    Before step i stop := by
  unfold Before
  split <;> simp only [gt_iff_lt]

/-- The loop collects the elements of the range when the step from each of them is an `isize`. -/
lemma collectIndices_eq {stop i : ℤ} (hstep : step ≠ 0)
    (hmem : ∀ x ∈ elements i stop step, 0 ≤ x ∧ x < length) :
    collectIndices length stop step hstep i =
      if ∀ x ∈ elements i stop step, IsIsize (x + step) then
        .ok ((elements i stop step).map Int.toNat) else .error .overflow := by
  induction hcount : count i stop step generalizing i with
  | zero =>
    have hend : ¬ Before step i stop := fun h => by
      rw [count_succ hstep h] at hcount
      cases hcount
    rw [collectIndices, if_neg (mt before_iff.1 hend), elements_of_not_before hstep hend]
    rfl
  | succ n ih =>
    have hbefore : Before step i stop := by
      by_contra hend
      rw [count_eq_zero hstep hend] at hcount
      cases hcount
    have hcons := elements_cons hstep hbefore
    rw [hcons] at hmem
    have hi := hmem i List.mem_cons_self
    rw [collectIndices, if_pos (before_iff.2 hbefore), hcons]
    simp only [List.forall_mem_cons]
    by_cases hnext : IsIsize (i + step)
    · rw [count_succ hstep hbefore] at hcount
      rw [if_pos hnext, ih (fun x hx => hmem x (List.mem_cons_of_mem _ hx))
        (Nat.succ.inj hcount)]
      by_cases hlater : ∀ x ∈ elements (i + step) stop step, IsIsize (x + step)
      · rw [if_pos hlater, if_pos ⟨hnext, hlater⟩, Results.ok_bind, if_pos hi]
        rfl
      · rw [if_neg hlater, if_neg fun h => hlater h.2]
        rfl
    · rw [if_neg hnext, if_neg fun h => hnext h.1]

/-- The step behind the last selected position is below the greatest `isize`. -/
def StepFits (length : ℕ) (lower upper : Option I64) (step : ℤ) : Prop :=
  0 < step → Slice.start length (bound lower) step < Slice.stop length (bound upper) step →
    Slice.start length (bound lower) step +
      ((Slice.stop length (bound upper) step - Slice.start length (bound lower) step - 1) / step +
        1) * step < 2 ^ 63

instance : Decidable (StepFits length lower upper step) :=
  inferInstanceAs (Decidable (_ → _ → _))

/-- For a positive step the greatest sum is that of the last element. -/
lemma forall_isIsize_iff_of_pos {start stop : ℤ} (hpos : 0 < step) (hstart : 0 ≤ start) :
    (∀ x ∈ elements start stop step, IsIsize (x + step)) ↔
      (start < stop → start + ((stop - start - 1) / step + 1) * step < 2 ^ 63) := by
  have hcount := count_of_pos start stop hpos
  constructor
  · intro h hlt
    have hnonneg : 0 ≤ (stop - start - 1) / step :=
      Int.ediv_nonneg (by omega) hpos.le
    obtain ⟨last, hlast⟩ := Int.eq_ofNat_of_zero_le hnonneg
    have hmem : start + last * step ∈ elements start stop step :=
      mem_elements.2 ⟨last, by rw [hcount, hlast]; omega, rfl⟩
    have hfits := (h _ hmem).2
    rw [hlast]
    linarith [hfits, add_mul (last : ℤ) 1 step]
  · intro h x hx
    have hbounds := start_le_of_mem hpos hx
    obtain ⟨i, hi, rfl⟩ := mem_elements.1 hx
    have hlt : start < stop := by omega
    have hlast : (i : ℤ) + 1 ≤ (stop - start - 1) / step + 1 := by
      rw [hcount] at hi
      omega
    have hmul := Int.mul_le_mul_of_nonneg_right hlast hpos.le
    have hfits := h hlt
    rw [add_mul, one_mul] at hmul
    exact ⟨by omega, by omega⟩

lemma forall_isIsize_iff (hlength : length < 2 ^ 63) (hstep : step ≠ 0)
    (hisize : IsIsize step) :
    (∀ x ∈ Slice.positions length (bound lower) (bound upper) step, IsIsize (x + step)) ↔
      StepFits length lower upper step := by
  unfold StepFits
  rcases lt_or_gt_of_ne hstep with hneg | hpos
  · refine iff_of_true (fun x hx => ?_) fun hpos => absurd hpos hneg.not_gt
    have := Slice.mem_positions (Int.natCast_nonneg length) hstep hx
    unfold IsIsize at *
    omega
  · have hstart := Slice.start_mem (bound lower) step (Int.natCast_nonneg length)
    rw [Slice.limits, if_neg hpos.not_gt] at hstart
    rw [forall_prop_of_true hpos]
    exact forall_isIsize_iff_of_pos hpos hstart.1

/-! ## The functions -/

/-- `slice_indices` collects the positions that the slice selects, or overflows. -/
theorem sliceIndices_eq (hlength : length < 2 ^ 63) {step : Option I64}
    (hstep : step.elim 1 (·.val) ≠ 0) :
    sliceIndices length lower upper step =
      if StepFits length lower upper (step.elim 1 (·.val)) then
        .ok ((Slice.positions length (bound lower) (bound upper) (step.elim 1 (·.val))).map
          Int.toNat)
      else .error .overflow := by
  have hisize : IsIsize (step.elim 1 (·.val)) := by
    cases step with
    | none => exact ⟨by decide, by decide⟩
    | some value => exact value.2
  have hmem : ∀ x ∈ Slice.positions length (bound lower) (bound upper) (step.elim 1 (·.val)),
      0 ≤ x ∧ x < length := fun x hx =>
    Slice.mem_positions (Int.natCast_nonneg length) hstep hx
  have hloop := collectIndices_eq hstep hmem
  rw [sliceIndices, dif_neg hstep]
  rcases lt_or_gt_of_ne hstep with hneg | hpos
  · rw [if_neg (not_lt.2 hneg.le), backwardStart_eq hlength hneg, backwardStop_eq hlength hneg]
    refine hloop.trans (if_congr ?_ rfl rfl)
    exact forall_isIsize_iff hlength hstep hisize
  · rw [if_pos hpos, forwardStart_eq hlength hpos, forwardStop_eq hlength hpos]
    refine hloop.trans (if_congr ?_ rfl rfl)
    exact forall_isIsize_iff hlength hstep hisize

/-- A range of step one is an interval. -/
lemma elements_one (start stop : ℕ) :
    (elements start stop 1).map Int.toNat = List.range' start (stop - start) := by
  have hcount : count start stop 1 = stop - start := by
    rw [count, if_pos one_pos, Int.ediv_one]
    omega
  rw [elements, hcount, List.range'_eq_map_range, List.map_map]
  refine List.map_congr_left fun i _ => ?_
  simp only [Function.comp_apply, mul_one]
  omega

lemma sliceBoundsForStepOne_ok (lower upper : Option I64) (hlength : length < 2 ^ 63) :
    sliceBoundsForStepOne length lower upper =
      .ok ((Slice.start length (bound lower) 1).toNat,
        (Slice.stop length (bound upper) 1).toNat) := by
  rw [sliceBoundsForStepOne, forwardStart_eq hlength one_pos, forwardStop_eq hlength one_pos]
  rfl

/-- The two bounds for the step one enclose the positions that the slice selects. -/
theorem sliceBoundsForStepOne_eq (hlength : length < 2 ^ 63) :
    ∃ start stop, sliceBoundsForStepOne length lower upper = .ok (start, stop) ∧
      start ≤ length ∧ stop ≤ length ∧
      (Slice.positions length (bound lower) (bound upper) 1).map Int.toNat =
        List.range' start (stop - start) := by
  have hstart := Slice.start_mem (bound lower) 1 (Int.natCast_nonneg length)
  have hstop := Slice.stop_mem (bound upper) 1 (Int.natCast_nonneg length)
  rw [Slice.limits, if_neg (by decide)] at hstart hstop
  refine ⟨(Slice.start length (bound lower) 1).toNat, (Slice.stop length (bound upper) 1).toNat,
    sliceBoundsForStepOne_ok lower upper hlength, by omega, by omega, ?_⟩
  rw [← elements_one, Int.toNat_of_nonneg hstart.1, Int.toNat_of_nonneg hstop.1]
  rfl

/-- The two functions give the positions that the slice selects exactly when no overflow stands
behind the last of them. -/
theorem slices_iff (hlength : length < 2 ^ 63) {step : Option I64}
    (hstep : step.elim 1 (·.val) ≠ 0) :
    (sliceIndices length lower upper step =
        .ok ((Slice.positions length (bound lower) (bound upper) (step.elim 1 (·.val))).map
          Int.toNat) ∧
      ∃ start stop, sliceBoundsForStepOne length lower upper = .ok (start, stop) ∧
        start ≤ length ∧ stop ≤ length ∧
        (Slice.positions length (bound lower) (bound upper) 1).map Int.toNat =
          List.range' start (stop - start)) ↔
      StepFits length lower upper (step.elim 1 (·.val)) := by
  rw [and_iff_left (sliceBoundsForStepOne_eq hlength), sliceIndices_eq hlength hstep]
  constructor
  · intro h
    by_contra hfits
    rw [if_neg hfits] at h
    cases h
  · exact fun hfits => if_pos hfits

theorem slices_iff_backwards :
    (sliceIndices 3 none none (some ⟨-2, by decide⟩) =
        .ok ((Slice.positions 3 none none (-2)).map Int.toNat) ∧
      ∃ start stop, sliceBoundsForStepOne 3 none none = .ok (start, stop) ∧
        start ≤ 3 ∧ stop ≤ 3 ∧
        (Slice.positions 3 none none 1).map Int.toNat = List.range' start (stop - start)) ↔
      StepFits 3 none none (-2) :=
  slices_iff (by decide) (by decide)

/-- The slice `[1::9223372036854775807]` of two items. -/
theorem sliceIndices_greatestStep :
    sliceIndices 2 (some ⟨1, by decide⟩) none (some ⟨2 ^ 63 - 1, by decide⟩) = .error .overflow ∧
      Slice.positions 2 (some 1) none (2 ^ 63 - 1) = [1] :=
  ⟨(sliceIndices_eq (by decide) (by decide)).trans (if_neg (by decide)), by decide⟩

end Slices

end Pyrs
