import Mathlib.Tactic.Ring
import Mathlib.Tactic.Linarith

/-!
# Stepped ranges and slices

The integers from a start towards a stop in steps of one size, and the positions that a slice of a
sequence selects.  A range of step zero is empty.
-/

namespace SteppedRange

/-- A step in its direction has not reached the stop. -/
def Before (step x stop : ℤ) : Prop := if 0 < step then x < stop else stop < x

instance (step x stop : ℤ) : Decidable (Before step x stop) := by
  unfold Before
  infer_instance

/-- How many steps from the start stand before the stop. -/
def count (start stop step : ℤ) : ℕ :=
  if 0 < step then ((stop - start + step - 1) / step).toNat
  else ((start - stop - step - 1) / -step).toNat

/-- The integers of a range, in order. -/
def elements (start stop step : ℤ) : List ℤ :=
  (List.range (count start stop step)).map fun (i : ℕ) => start + i * step

variable {start stop step : ℤ}

/-! ## Counting -/

lemma lt_toNat_div_iff {step distance : ℤ} (hstep : 0 < step) {i : ℕ} :
    i < ((distance + step - 1) / step).toNat ↔ i * step < distance := by
  have h : (i : ℤ) + 1 ≤ (distance + step - 1) / step ↔ (i + 1) * step ≤ distance + step - 1 :=
    Int.le_ediv_iff_mul_le hstep
  rw [add_mul, one_mul] at h
  constructor
  · intro hlt
    have := h.1 (by omega)
    omega
  · intro hlt
    have := h.2 (by omega)
    omega

/-- The elements that the count counts are the steps before the stop. -/
theorem lt_count_iff (hstep : step ≠ 0) {i : ℕ} :
    i < count start stop step ↔ Before step (start + i * step) stop := by
  unfold count Before
  by_cases hpos : 0 < step
  · rw [if_pos hpos, if_pos hpos, lt_toNat_div_iff hpos]
    omega
  · have hneg : 0 < -step := by omega
    have hdistance : start - stop - step - 1 = (start - stop) + -step - 1 := by ring
    rw [if_neg hpos, if_neg hpos, hdistance, lt_toNat_div_iff hneg, mul_neg]
    omega

theorem count_eq_iff (hstep : step ≠ 0) {n : ℕ} :
    count start stop step = n ↔ ∀ i : ℕ, i < n ↔ Before step (start + i * step) stop := by
  constructor
  · rintro rfl i
    exact lt_count_iff hstep
  · intro h
    have hiff : ∀ i, i < count start stop step ↔ i < n := fun i => by rw [lt_count_iff hstep, h i]
    exact Nat.le_antisymm (Nat.not_lt.1 fun hlt => Nat.lt_irrefl _ ((hiff n).1 hlt))
      (Nat.not_lt.1 fun hlt => Nat.lt_irrefl _ ((hiff _).2 hlt))

lemma count_eq_zero (hstep : step ≠ 0) (h : ¬ Before step start stop) :
    count start stop step = 0 := by
  by_contra hne
  have := (lt_count_iff hstep).1 (Nat.pos_of_ne_zero hne)
  rw [Nat.cast_zero, zero_mul, add_zero] at this
  exact h this

/-- A range whose start is not at its end has one element more than that from the next one. -/
lemma count_succ (hstep : step ≠ 0) (h : Before step start stop) :
    count start stop step = count (start + step) stop step + 1 := by
  rw [count_eq_iff hstep]
  rintro (_ | i)
  · simpa using h
  · rw [Nat.add_lt_add_iff_right, lt_count_iff hstep]
    have hshift : start + step + i * step = start + ((i + 1 : ℕ) : ℤ) * step := by
      push_cast
      ring
    rw [hshift]

/-! ## Elements -/

@[simp]
theorem length_elements : (elements start stop step).length = count start stop step := by
  simp [elements]

theorem getElem_elements {i : ℕ} (h : i < (elements start stop step).length) :
    (elements start stop step)[i] = start + i * step := by
  simp [elements]

theorem elements_of_not_before (hstep : step ≠ 0) (h : ¬ Before step start stop) :
    elements start stop step = [] := by
  rw [elements, count_eq_zero hstep h]
  rfl

theorem elements_cons (hstep : step ≠ 0) (h : Before step start stop) :
    elements start stop step = start :: elements (start + step) stop step := by
  rw [elements, count_succ hstep h, List.range_succ_eq_map, List.map_cons, List.map_map]
  congr 1
  · simp
  · refine List.map_congr_left fun i _ => ?_
    simp only [Function.comp_apply]
    push_cast
    ring

theorem mem_elements {x : ℤ} : x ∈ elements start stop step ↔
    ∃ i : ℕ, i < count start stop step ∧ x = start + i * step := by
  simp only [elements, List.mem_map, List.mem_range, eq_comm]

lemma before_of_mem (hstep : step ≠ 0) {x : ℤ} (h : x ∈ elements start stop step) :
    Before step x stop := by
  obtain ⟨i, hi, rfl⟩ := mem_elements.1 h
  exact (lt_count_iff hstep).1 hi

lemma start_le_of_mem (hpos : 0 < step) {x : ℤ} (h : x ∈ elements start stop step) :
    start ≤ x ∧ x < stop := by
  have hbefore := before_of_mem hpos.ne' h
  obtain ⟨i, -, rfl⟩ := mem_elements.1 h
  rw [Before, if_pos hpos] at hbefore
  have := Int.mul_nonneg (Int.natCast_nonneg i) hpos.le
  omega

lemma le_start_of_mem (hneg : step < 0) {x : ℤ} (h : x ∈ elements start stop step) :
    stop < x ∧ x ≤ start := by
  have hbefore := before_of_mem hneg.ne h
  obtain ⟨i, -, rfl⟩ := mem_elements.1 h
  rw [Before, if_neg hneg.not_gt] at hbefore
  have := Int.mul_nonneg (Int.natCast_nonneg i) (Int.neg_nonneg.2 hneg.le)
  rw [mul_neg] at this
  omega

/-- The elements backwards, from the last one to the one in front of the first. -/
theorem elements_reverse (hstep : step ≠ 0) (hpos : 0 < count start stop step) :
    elements (start + (count start stop step - 1 : ℕ) * step) (start - step) (-step) =
      (elements start stop step).reverse := by
  have hcount : count (start + (count start stop step - 1 : ℕ) * step) (start - step) (-step) =
      count start stop step := by
    rw [count_eq_iff (neg_ne_zero.2 hstep)]
    intro i
    have hdistance : start + (count start stop step - 1 : ℕ) * step + i * -step - (start - step) =
        ((count start stop step : ℤ) - i) * step := by
      rw [Nat.cast_sub hpos]
      push_cast
      ring
    unfold Before
    rcases lt_or_gt_of_ne hstep with hneg | hstepPos
    · have hsign : ((count start stop step : ℤ) - i) * step < 0 ↔
          (0 : ℤ) < count start stop step - i := by
        rw [mul_neg_iff]
        omega
      rw [← hdistance] at hsign
      rw [if_pos (neg_pos.2 hneg)]
      omega
    · have hsign : 0 < ((count start stop step : ℤ) - i) * step ↔
          (0 : ℤ) < count start stop step - i := mul_pos_iff_of_pos_right hstepPos
      rw [← hdistance] at hsign
      rw [if_neg (by omega)]
      omega
  refine List.ext_getElem (by simp [hcount]) fun i hi hi' => ?_
  rw [length_elements, hcount] at hi
  rw [List.getElem_reverse, getElem_elements, getElem_elements, length_elements,
    show count start stop step - 1 - i = count start stop step - (1 + i) by omega,
    Nat.cast_sub hpos, Nat.cast_sub (by omega)]
  push_cast
  ring

/-- For a positive step the range ends where the last multiple of the step is below the stop. -/
lemma count_of_pos (start stop : ℤ) (hpos : 0 < step) :
    count start stop step = ((stop - start - 1) / step + 1).toNat := by
  have hsplit : stop - start + step - 1 = stop - start - 1 + step * 1 := by ring
  rw [count, if_pos hpos, hsplit, Int.add_mul_ediv_left _ _ hpos.ne']

end SteppedRange

/-! ## Slices -/

namespace Slice

open SteppedRange

/-- The first and the last bound of a sequence in the direction of a step. -/
def limits (length step : ℤ) : ℤ × ℤ := if step < 0 then (-1, length - 1) else (0, length)

/-- A given bound counts from the end when it is negative, and is moved between the limits. -/
def clamp (length step bound : ℤ) : ℤ :=
  if bound < 0 then max (bound + length) (limits length step).1
  else min bound (limits length step).2

/-- Where a slice begins: without a bound at the end that the step leads away from. -/
def start (length : ℤ) (lower : Option ℤ) (step : ℤ) : ℤ :=
  lower.elim (if step < 0 then (limits length step).2 else (limits length step).1)
    (clamp length step)

/-- Where a slice ends: without a bound at the end that the step leads to. -/
def stop (length : ℤ) (upper : Option ℤ) (step : ℤ) : ℤ :=
  upper.elim (if step < 0 then (limits length step).1 else (limits length step).2)
    (clamp length step)

/-- The positions of a sequence that a slice selects, in order. -/
def positions (length : ℤ) (lower upper : Option ℤ) (step : ℤ) : List ℤ :=
  elements (start length lower step) (stop length upper step) step

variable {length : ℤ} {lower upper : Option ℤ} {step : ℤ}

lemma clamp_mem (hlength : 0 ≤ length) (bound : ℤ) :
    (limits length step).1 ≤ clamp length step bound ∧
      clamp length step bound ≤ (limits length step).2 := by
  unfold clamp limits
  split <;> split <;> dsimp only <;> omega

lemma start_mem (lower : Option ℤ) (step : ℤ) (hlength : 0 ≤ length) :
    (limits length step).1 ≤ start length lower step ∧
      start length lower step ≤ (limits length step).2 := by
  cases lower with
  | none =>
    simp only [start, limits, Option.elim_none]
    split <;> dsimp only <;> omega
  | some bound => exact clamp_mem hlength bound

lemma stop_mem (upper : Option ℤ) (step : ℤ) (hlength : 0 ≤ length) :
    (limits length step).1 ≤ stop length upper step ∧
      stop length upper step ≤ (limits length step).2 := by
  cases upper with
  | none =>
    simp only [stop, limits, Option.elim_none]
    split <;> dsimp only <;> omega
  | some bound => exact clamp_mem hlength bound

/-- A slice selects positions of the sequence. -/
theorem mem_positions (hlength : 0 ≤ length) (hstep : step ≠ 0) {x : ℤ}
    (h : x ∈ positions length lower upper step) : 0 ≤ x ∧ x < length := by
  have hstart := start_mem lower step hlength
  have hstop := stop_mem upper step hlength
  rcases lt_or_gt_of_ne hstep with hneg | hpos
  · have := le_start_of_mem hneg h
    simp only [limits, if_pos hneg] at hstart hstop
    omega
  · have := start_le_of_mem hpos h
    simp only [limits, if_neg hpos.not_gt] at hstart hstop
    omega

/-- A slice selects no more positions than there are. -/
theorem length_positions_le (hlength : 0 ≤ length) (hstep : step ≠ 0) :
    ((positions length lower upper step).length : ℤ) ≤ length := by
  rcases Nat.eq_zero_or_pos (positions length lower upper step).length with hzero | hpos
  · omega
  · obtain ⟨n, hn⟩ := Nat.exists_eq_succ_of_ne_zero hpos.ne'
    have hfirst := mem_positions hlength hstep (List.getElem_mem hpos)
    have hlast := mem_positions hlength hstep
      (List.getElem_mem (show n < (positions length lower upper step).length by omega))
    simp only [positions, getElem_elements] at hfirst hlast
    have hnonneg := Int.natCast_nonneg n
    rcases lt_or_gt_of_ne hstep with hneg | hpos
    · have := Int.mul_le_mul_of_nonneg_left (show 1 ≤ -step by omega) hnonneg
      rw [mul_neg, mul_one] at this
      omega
    · have := Int.mul_le_mul_of_nonneg_left (show 1 ≤ step by omega) hnonneg
      rw [mul_one] at this
      omega

end Slice
