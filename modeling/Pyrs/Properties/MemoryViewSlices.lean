import Mathlib.Data.List.Forall2
import Pyrs.Model.MemoryViewSlices
import Pyrs.Properties.MemoryViewLayout
import Pyrs.Properties.Slices

/-!
# Slicing memory views

The elements of a slice of a view are those of the view at the positions that the slice selects, in
a view that is contiguous and in one with strides.  The slices of slices follow by induction, since
the slice of a view with a layout has a layout.
-/

namespace Pyrs

namespace MemoryViews

open Slices SteppedRange

/-! ## Layouts of new views -/

/-- The step of a slice. -/
abbrev stepValue (step : Option I64) : ℤ := step.elim 1 (·.val)

/-- The positions that a slice selects. -/
abbrev selected (count : ℕ) (lower upper step : Option I64) : List ℤ :=
  Slice.positions count (Slices.bound lower) (Slices.bound upper) (stepValue step)

/-- A view whose elements all lie in the source has a layout. -/
theorem layout_of_fits {start : ℕ} {length : Option ℕ} {size : ℕ}
    {shape strides : Option (List I64)} {sourceLen count : ℕ} (extent : I64) {stride : I64}
    (hparts : memoryviewShapeAndStridesFromParts start length shape strides (max size 1) sourceLen =
      ([extent], [stride]))
    (hextent : extent.val = count) (hfits : Fits start count stride (max size 1) sourceLen) :
    memoryviewLayout1dFromParts start length size shape strides sourceLen =
      some ((start : ℤ), count, stride, max size 1) := by
  have hstart := hfits.origin_lt
  have hcountLt := hfits.count_lt
  rw [memoryviewLayout1dFromParts]
  dsimp only
  rw [hparts]
  dsimp only
  rw [usizeTryFrom_val hextent, isizeTryFrom_eq_some.2 ⟨by exact_mod_cast hstart, rfl⟩]
  simp only [Option.bind_eq_bind, Option.bind_some]
  by_cases hzero : count = 0
  · rw [if_pos hzero, hzero]
    rfl
  · have hlast : (asIsize (count - 1)).val = (count - 1 : ℕ) := asIsize_val (by omega)
    obtain ⟨hdelta, htail⟩ := hfits.isIsize_delta (i := count - 1) (by omega)
    have hfirst := hfits.inside 0 (by omega)
    have hinside := hfits.inside (count - 1) (by omega)
    have hsource := hfits.sourceLen_lt (by omega)
    rw [Nat.cast_zero, mul_zero, add_zero] at hfirst
    rw [if_neg hzero, hlast, checkedIsize_eq hdelta]
    simp only [Option.bind_some]
    rw [checkedIsize_eq htail, isizeTryFrom_eq_some.2 ⟨by omega, rfl⟩]
    simp only [Option.bind_some]
    rw [checkedIsize_eq (by unfold IsIsize; omega), isizeTryFrom_eq_some.2 ⟨hsource, rfl⟩]
    simp only [Option.bind_some]
    rw [if_neg (by omega), if_neg (by omega)]
    rfl

/-- A view whose elements are among those of another one fits as well. -/
lemma Fits.of_elements {origin newOrigin : ℤ} {count newCount : ℕ} {stride newStride : ℤ}
    {itemsize sourceLen : ℕ} (h : Fits origin count stride itemsize sourceLen)
    (hcount : newCount < 2 ^ 63) (hlow : 0 ≤ newOrigin) (hhigh : newOrigin < 2 ^ 63)
    (hstride : IsIsize newStride)
    (helements : ∀ i : ℕ, i < newCount → ∃ j : ℕ, j < count ∧
      newOrigin + newStride * i = origin + stride * j) :
    Fits newOrigin newCount newStride itemsize sourceLen where
  count_lt := hcount
  origin_nonneg := hlow
  origin_lt := hhigh
  stride_isize := hstride
  itemsize_pos := h.itemsize_pos
  sourceLen_lt hpos := by
    obtain ⟨j, hj, -⟩ := helements 0 hpos
    exact h.sourceLen_lt (by omega)
  inside i hi := by
    obtain ⟨j, hj, heq⟩ := helements i hi
    rw [heq]
    exact h.inside j hj

/-- The slice is within the machine integers: the step behind the last selected position, and the
stride of the slice when it selects anything. -/
def SliceFits (count : ℕ) (stride : I64) (lower upper step : Option I64) : Prop :=
  StepFits count lower upper (stepValue step) ∧
    (selected count lower upper step ≠ [] → IsIsize (stride * stepValue step))

/-! ## Selected positions -/

section Selected

variable {count : ℕ} {lower upper step : Option I64}

lemma getElem_selected {k : ℕ} (h : k < (selected count lower upper step).length) :
    (selected count lower upper step)[k] =
      Slice.start count (Slices.bound lower) (stepValue step) + k * stepValue step :=
  getElem_elements h

/-- A selected position is one of the view. -/
lemma selected_position (hstep : stepValue step ≠ 0) {k : ℕ}
    (h : k < (selected count lower upper step).length) :
    ∃ j : ℕ, j < count ∧
      Slice.start count (Slices.bound lower) (stepValue step) + k * stepValue step = j := by
  have hmem := Slice.mem_positions (Int.natCast_nonneg count) hstep (List.getElem_mem h)
  rw [getElem_selected h] at hmem
  obtain ⟨j, hj⟩ := Int.eq_ofNat_of_zero_le hmem.1
  exact ⟨j, by omega, hj⟩

lemma length_selected_le (count : ℕ) (lower upper : Option I64) (hstep : stepValue step ≠ 0) :
    (selected count lower upper step).length ≤ count := by
  exact_mod_cast Slice.length_positions_le (Int.natCast_nonneg count) hstep

end Selected

/-! ## The two branches -/

section Branches

variable {view : MemoryViewObject} {origin : ℤ} {count : ℕ} {stride : I64} {itemsize : ℕ}
  {lower upper step : Option I64}

/-- The slice has a layout, in which its elements are the selected ones of the view. -/
def Selects (view sliced : MemoryViewObject) (origin : ℤ) (count : ℕ) (stride : I64) (itemsize : ℕ)
    (lower upper step : Option I64) : Prop :=
  sliced.source = view.source ∧ ∃ newOrigin newStride,
    memoryviewLayout1d sliced =
      some (newOrigin, (selected count lower upper step).length, newStride, itemsize) ∧
    ∀ k (h : k < (selected count lower upper step).length),
      newOrigin + newStride * k = origin + stride * (selected count lower upper step)[k]

lemma toIsize_eq {value : ℤ} (h : IsIsize value) : toIsize value = some ⟨value, h⟩ := dif_pos h

/-- A view whose bounds span a number of items has them as its elements. -/
lemma layout_of_span {start m size sourceLen : ℕ} {length : Option ℕ} (hstart : start < 2 ^ 63)
    (hsource : sourceLen < 2 ^ 63) (hfit : 0 < m → start + m * max size 1 ≤ sourceLen)
    (hspan : (memoryviewBounds start length sourceLen).2 -
      (memoryviewBounds start length sourceLen).1 = m * max size 1) :
    memoryviewLayout1dFromParts start length size none none sourceLen =
      some ((start : ℤ), m, asIsize (max size 1), max size 1) := by
  have hitem : 0 < max size 1 := by omega
  have hm : m < 2 ^ 63 := by
    rcases Nat.eq_zero_or_pos m with rfl | hpos
    · decide
    · have := hfit hpos
      have := Nat.le_mul_of_pos_right m hitem
      omega
  refine layout_of_fits (asIsize m) ?_ (asIsize_val hm) ?_
  · rw [memoryviewShapeAndStridesFromParts]
    dsimp only
    rw [hspan, max_eq_left (Nat.succ_le_of_lt hitem), if_pos (Nat.mul_mod_left m _),
      Nat.mul_div_cancel m hitem]
    intro shape strides h
    cases h
  · refine ⟨hm, Int.natCast_nonneg _, by omega, (asIsize (max size 1)).2, hitem, fun _ => hsource,
      fun i hi => ?_⟩
    have hend := hfit (by omega)
    have hmul := Nat.mul_le_mul_right (max size 1) (Nat.succ_le_of_lt hi)
    have hone := Nat.le_mul_of_pos_left (max size 1) (show 0 < m by omega)
    rw [asIsize_val (by omega)]
    rw [Nat.succ_mul] at hmul
    constructor
    · positivity
    · rw [mul_comm]
      exact_mod_cast (by omega)

/-- A view of a stretch of items. -/
lemma layout_contiguous {start m size sourceLen : ℕ} (hstart : start < 2 ^ 63)
    (hsource : sourceLen < 2 ^ 63) (hfit : 0 < m → start + m * max size 1 ≤ sourceLen) :
    memoryviewLayout1dFromParts start (some (saturatingMul m (max size 1))) size none none
      sourceLen = some ((start : ℤ), m, asIsize (max size 1), max size 1) := by
  refine layout_of_span hstart hsource hfit ?_
  rw [memoryviewBounds, saturatingMul, usizeMax]
  dsimp only
  rcases Nat.eq_zero_or_pos m with rfl | hpos
  · omega
  · have := hfit hpos
    omega

theorem sliceContiguous_spec
    (hlayout : memoryviewLayout1d view = some (origin, count, stride, itemsize))
    (hsource : view.source.length < 2 ^ 63) (hstep : stepValue step = 1)
    (hstride : stride = asIsize itemsize) :
    ∃ sliced, sliceContiguous view origin count stride itemsize lower upper = .ok sliced ∧
      Selects view sliced origin count stride itemsize lower upper step := by
  obtain ⟨hview, hstart, hitemsize, -⟩ := layout_fits hlayout
  have hcount := hview.count_lt
  have hstartMem := Slice.start_mem (Slices.bound lower) 1 (Int.natCast_nonneg count)
  have hstopMem := Slice.stop_mem (Slices.bound upper) 1 (Int.natCast_nonneg count)
  rw [Slice.limits, if_neg (by decide)] at hstartMem hstopMem
  obtain ⟨start, hfrom⟩ := Int.eq_ofNat_of_zero_le hstartMem.1
  obtain ⟨stop, hto⟩ := Int.eq_ofNat_of_zero_le hstopMem.1
  have hbounds := sliceBoundsForStepOne_ok lower upper hcount
  rw [hfrom, hto, Int.toNat_natCast, Int.toNat_natCast] at hbounds
  have hstartLe : start ≤ count := by omega
  have hstopLe : stop ≤ count := by omega
  have hlength : (selected count lower upper step).length = stop - start := by
    rw [selected, Slice.positions, length_elements, hstep, hfrom, hto, SteppedRange.count,
      if_pos one_pos, Int.ediv_one]
    omega
  have hposition : ∀ k (h : k < (selected count lower upper step).length),
      (selected count lower upper step)[k] = start + k := by
    intro k h
    rw [getElem_selected h, hstep, hfrom, mul_one]
  -- The items end in the source, so that the start of each of them is an `isize`.
  have hend : ∀ i : ℕ, i ≤ count → 0 < count →
      stride.val = itemsize ∧ origin + itemsize * i ≤ view.source.length := by
    intro i hi hpos
    have hlast := hview.inside (count - 1) (by omega)
    have hfirst := hview.inside 0 hpos
    rw [Nat.cast_zero, mul_zero, add_zero] at hfirst
    have hval : stride.val = itemsize := by
      rw [hstride]
      exact asIsize_val (by omega)
    have hmul : (itemsize : ℤ) * i ≤ itemsize * count :=
      Int.mul_le_mul_of_nonneg_left (by exact_mod_cast hi) (Int.natCast_nonneg _)
    have hsplit : (itemsize : ℤ) * count = itemsize * (count - 1 : ℕ) + itemsize := by
      rw [Nat.cast_sub (by omega)]
      push_cast
      ring
    rw [hval] at hlast
    exact ⟨hval, by omega⟩
  have horigin := hview.origin_nonneg
  have hlow : 0 ≤ stride * (start : ℤ) ∧ origin + stride * (start : ℤ) < 2 ^ 63 := by
    rcases Nat.eq_zero_or_pos count with hzero | hpos
    · have hstartZero : start = 0 := by omega
      have := hview.origin_lt
      rw [hstartZero, Nat.cast_zero, mul_zero]
      omega
    · obtain ⟨hval, hle⟩ := hend start hstartLe hpos
      rw [hval]
      exact ⟨by positivity, by omega⟩
  obtain ⟨newOrigin, hnew⟩ :=
    Int.eq_ofNat_of_zero_le (show 0 ≤ origin + stride * (start : ℤ) by omega)
  refine ⟨{ view with
    start := newOrigin, length := some (saturatingMul (stop - start) itemsize),
    shape := none, strides := none }, ?_, rfl, newOrigin, stride, ?_, ?_⟩
  · rw [sliceContiguous, hbounds]
    dsimp only
    rw [asIsize_val (by omega), checkedIsize_eq (by unfold IsIsize; omega),
      okOrUnsupported, Results.ok_bind, checkedIsize_eq (by unfold IsIsize; omega),
      okOrUnsupported, Results.ok_bind, hnew, newStart, if_neg (by omega), Results.ok_bind]
    rfl
  · rw [hlength, hstride, hitemsize]
    refine layout_contiguous (by dsimp only; omega) hsource fun hpos => ?_
    obtain ⟨hval, hle⟩ := hend stop hstopLe (by omega)
    rw [← hitemsize]
    rw [hval] at hnew
    have hsplit : (itemsize : ℤ) * stop = itemsize * start + (stop - start : ℕ) * itemsize := by
      rw [Nat.cast_sub (by omega)]
      ring
    zify
    omega
  · intro k hk
    rw [hposition k hk, ← hnew]
    ring

theorem sliceStrided_spec
    (hlayout : memoryviewLayout1d view = some (origin, count, stride, itemsize))
    (hstep : stepValue step ≠ 0) (hfits : SliceFits count stride lower upper step) :
    ∃ sliced, sliceStrided view origin count stride itemsize lower upper step = .ok sliced ∧
      Selects view sliced origin count stride itemsize lower upper step := by
  obtain ⟨hview, hstart, hitemsize, -⟩ := layout_fits hlayout
  have hcount := hview.count_lt
  have hle := length_selected_le count lower upper hstep
  have hindices : viewIndices count lower upper step =
      .ok ((selected count lower upper step).map Int.toNat) := by
    rw [viewIndices, sliceIndices_eq hcount hstep, if_pos hfits.1]
  obtain ⟨hstartLt, rfl⟩ := isizeTryFrom_eq_some.1 hstart
  rw [sliceStrided, hindices, Results.ok_bind]
  by_cases hempty : selected count lower upper step = []
  · -- Nothing is selected: the origin and the stride stay.
    refine ⟨{ view with
      start := view.start, length := some (saturatingMul 0 itemsize),
      shape := some [asIsize 0], strides := some [stride], contiguous := false }, ?_, rfl,
      view.start, stride, ?_, ?_⟩
    · rw [hempty]
      rfl
    · rw [hempty, hitemsize]
      refine layout_of_fits (asIsize 0) rfl (asIsize_val (by decide)) ?_
      rw [← hitemsize]
      exact hview.of_elements (by decide) (by dsimp only; omega) (by dsimp only; omega) stride.2
        fun i hi => absurd hi (by simp)
    · intro k hk
      rw [hempty] at hk
      cases hk
  · have hpos : 0 < (selected count lower upper step).length := List.length_pos_iff.2 hempty
    have hscaled := hfits.2 hempty
    obtain ⟨first, hfirst, hfirstEq⟩ := selected_position hstep hpos
    rw [Nat.cast_zero, zero_mul, add_zero] at hfirstEq
    obtain ⟨hdelta, hoffset⟩ := hview.isIsize_delta hfirst
    have hinside := hview.inside first hfirst
    obtain ⟨newOrigin, hnew⟩ := Int.eq_ofNat_of_zero_le hinside.1
    have hnewLt := hoffset.2
    rw [hnew] at hnewLt
    have hhead : ((selected count lower upper step).map Int.toNat).head? = some first := by
      rw [List.head?_map, List.head?_eq_getElem?, List.getElem?_eq_getElem hpos,
        getElem_selected hpos, Nat.cast_zero, zero_mul, add_zero, hfirstEq]
      rfl
    have helements : ∀ k : ℕ, k < (selected count lower upper step).length →
        ∃ j : ℕ, j < count ∧ (newOrigin : ℤ) + stride * stepValue step * k =
          view.start + stride * j := by
      intro k hk
      obtain ⟨j, hj, hjEq⟩ := selected_position hstep hk
      refine ⟨j, hj, ?_⟩
      rw [← hnew, ← hjEq, hfirstEq]
      ring
    refine ⟨{ view with
      start := newOrigin,
      length := some (saturatingMul (selected count lower upper step).length itemsize),
      shape := some [asIsize (selected count lower upper step).length],
      strides := some [⟨stride * stepValue step, hscaled⟩], contiguous := false }, ?_, rfl,
      newOrigin, ⟨stride * stepValue step, hscaled⟩, ?_, ?_⟩
    · rw [hhead]
      dsimp only
      rw [asIsize_val (by omega), checkedIsize_eq hdelta, okOrUnsupported, Results.ok_bind,
        checkedIsize_eq hoffset, okOrUnsupported, Results.ok_bind, toIsize_eq hscaled,
        okOrUnsupported, Results.ok_bind, hnew, List.length_map]
      rfl
    · rw [hitemsize]
      refine layout_of_fits (asIsize _) rfl (asIsize_val (by omega)) ?_
      rw [← hitemsize]
      exact hview.of_elements (by omega) (by dsimp only; omega) (by dsimp only; omega) hscaled
        helements
    · intro k hk
      rw [getElem_selected hk, hfirstEq, ← hnew]
      ring

/-- A slice with strides succeeds within the machine integers only. -/
lemma sliceFits_of_sliceStrided {sliced : MemoryViewObject} (hcount : count < 2 ^ 63)
    (hstep : stepValue step ≠ 0)
    (h : sliceStrided view origin count stride itemsize lower upper step = .ok sliced) :
    SliceFits count stride lower upper step := by
  obtain ⟨indices, hindices, h⟩ := Results.bind_eq_ok.1 h
  rw [viewIndices, sliceIndices_eq hcount hstep] at hindices
  by_cases hfits : StepFits count lower upper (stepValue step)
  · rw [if_pos hfits] at hindices
    obtain rfl := Except.ok.inj hindices
    refine ⟨hfits, fun hne => ?_⟩
    obtain ⟨first, later, hcons⟩ := List.exists_cons_of_ne_nil hne
    rw [selected, stepValue] at hcons
    rw [hcons] at h
    dsimp only [List.map_cons, List.head?_cons] at h
    obtain ⟨delta, -, h⟩ := Results.bind_eq_ok.1 h
    obtain ⟨start, -, h⟩ := Results.bind_eq_ok.1 h
    obtain ⟨scaled, hscaled, -⟩ := Results.bind_eq_ok.1 h
    by_contra hover
    rw [toIsize, dif_neg hover] at hscaled
    cases hscaled
  · rw [if_neg hfits] at hindices
    cases hindices

/-- With the step one nothing overflows. -/
lemma sliceFits_one (hcount : count < 2 ^ 63) (hstep : stepValue step = 1) :
    SliceFits count stride lower upper step := by
  rw [SliceFits, hstep]
  refine ⟨fun _ hlt => ?_, fun _ => ?_⟩
  · have hstop := Slice.stop_mem (Slices.bound upper) 1 (Int.natCast_nonneg count)
    rw [Slice.limits, if_neg (by decide)] at hstop
    rw [Int.ediv_one, mul_one]
    omega
  · rw [mul_one]
    exact stride.2

/-! ## One slice -/

lemma parts_max (start : ℕ) (length : Option ℕ) (shape strides : Option (List I64))
    (size sourceLen : ℕ) :
    memoryviewShapeAndStridesFromParts start length shape strides (max size 1) sourceLen =
      memoryviewShapeAndStridesFromParts start length shape strides size sourceLen := by
  have hmax : max (max size 1) 1 = max size 1 := by omega
  simp only [memoryviewShapeAndStridesFromParts, hmax]

lemma getitemSlice_of_layout
    (hlayout : memoryviewLayout1d view = some (origin, count, stride, itemsize)) :
    getitemSlice view lower upper step =
      if stepValue step = 1 ∧ stride = asIsize itemsize then
        sliceContiguous view origin count stride itemsize lower upper
      else sliceStrided view origin count stride itemsize lower upper step := by
  obtain ⟨-, -, -, extent, hparts, -⟩ := layout_fits hlayout
  rw [parts_max] at hparts
  rw [getitemSlice, hparts]
  dsimp only
  rw [if_neg (by simp), hlayout]

theorem getitemSlice_spec
    (hlayout : memoryviewLayout1d view = some (origin, count, stride, itemsize))
    (hsource : view.source.length < 2 ^ 63) (hstep : stepValue step ≠ 0)
    (hfits : SliceFits count stride lower upper step) :
    ∃ sliced, getitemSlice view lower upper step = .ok sliced ∧
      Selects view sliced origin count stride itemsize lower upper step := by
  rw [getitemSlice_of_layout hlayout]
  by_cases hcontiguous : stepValue step = 1 ∧ stride = asIsize itemsize
  · rw [if_pos hcontiguous]
    exact sliceContiguous_spec hlayout hsource hcontiguous.1 hcontiguous.2
  · rw [if_neg hcontiguous]
    exact sliceStrided_spec hlayout hstep hfits

/-- A slice that succeeds is that of the selected elements. -/
theorem selects_of_getitemSlice {sliced : MemoryViewObject}
    (hlayout : memoryviewLayout1d view = some (origin, count, stride, itemsize))
    (hsource : view.source.length < 2 ^ 63) (hstep : stepValue step ≠ 0)
    (h : getitemSlice view lower upper step = .ok sliced) :
    Selects view sliced origin count stride itemsize lower upper step := by
  have hcount := (layout_fits hlayout).1.count_lt
  have hfits : SliceFits count stride lower upper step := by
    rw [getitemSlice_of_layout hlayout] at h
    split at h
    · next hcontiguous => exact sliceFits_one hcount hcontiguous.1
    · exact sliceFits_of_sliceStrided hcount hstep h
  obtain ⟨result, hresult, hselects⟩ := getitemSlice_spec hlayout hsource hstep hfits
  obtain rfl := Except.ok.inj (hresult.symm.trans h)
  exact hselects

end Branches

/-! ## Elements -/

/-- The elements of a view, as indexing gives them. -/
def memoryviewElements (view : MemoryViewObject) : Option (List (List UInt8)) := do
  let (origin, logicalLen, stride, itemsize) ← memoryviewLayout1d view
  (List.range logicalLen).mapM fun (i : ℕ) => do
    let offset ← memoryviewElementOffset origin logicalLen stride i
    if offset + itemsize ≤ view.source.length then
      some ((view.source.drop offset).take itemsize)
    else none

/-- A view with a layout has all its elements. -/
lemma memoryviewElements_eq {view : MemoryViewObject} {origin : ℤ} {count : ℕ} {stride : I64}
    {itemsize : ℕ} (hlayout : memoryviewLayout1d view = some (origin, count, stride, itemsize)) :
    memoryviewElements view = some ((List.range count).map fun (i : ℕ) =>
      chunk view.source itemsize (origin + stride * i)) := by
  obtain ⟨hview, -⟩ := layout_fits hlayout
  rw [memoryviewElements, hlayout, Option.bind_eq_bind, Option.bind_some]
  refine Results.mapM_eq_pure fun i hi => ?_
  have hi := List.mem_range.1 hi
  have hinside := hview.inside i hi
  rw [hview.elementOffset_eq hi, Option.bind_eq_bind, Option.bind_some, if_pos (by omega)]
  rfl

/-- The elements of the slice stand at the selected positions of those of the view. -/
lemma Selects.elements {view sliced : MemoryViewObject} {origin : ℤ} {count : ℕ} {stride : I64}
    {itemsize : ℕ} {lower upper step : Option I64} (hstep : stepValue step ≠ 0)
    (h : Selects view sliced origin count stride itemsize lower upper step) :
    ∃ picked, memoryviewElements sliced = some picked ∧
      List.Forall₂ (fun (position : ℤ) item =>
        ((List.range count).map fun (i : ℕ) =>
          chunk view.source itemsize (origin + stride * i))[position.toNat]? = some item)
        (selected count lower upper step) picked := by
  obtain ⟨hsource, newOrigin, newStride, hlayout, hposition⟩ := h
  refine ⟨_, memoryviewElements_eq hlayout, ?_⟩
  rw [List.forall₂_iff_get]
  refine ⟨by simp, fun k hk hk' => ?_⟩
  obtain ⟨j, hj, hjEq⟩ := selected_position hstep hk
  rw [← getElem_selected hk] at hjEq
  have hoffset := hposition k hk
  rw [hjEq] at hoffset
  simp only [List.get_eq_getElem, hjEq, List.getElem_map, List.getElem_range, hoffset, hsource,
    Int.toNat_natCast]
  rw [List.getElem?_map, List.getElem?_range hj]
  rfl

/-! ## Slices of slices -/

/-- The views that slicing makes of a view, any number of times. -/
inductive SlicedFrom (view : MemoryViewObject) : MemoryViewObject → Prop
  | whole : SlicedFrom view view
  | slice {before after : MemoryViewObject} {lower upper step : Option I64}
      (hbefore : SlicedFrom view before) (hstep : stepValue step ≠ 0)
      (hslice : getitemSlice before lower upper step = .ok after) : SlicedFrom view after

/-- A whole source of items has a layout. -/
lemma layout_alloc {source : List UInt8} {itemsize : ℕ} (format : Option String)
    (hsource : source.length < 2 ^ 63) (hdvd : itemsize ∣ source.length) :
    (memoryviewLayout1d (allocMemoryviewWith source itemsize format)).isSome := by
  have hmax : max itemsize 1 ∣ source.length := by
    rcases Nat.eq_zero_or_pos itemsize with rfl | hpos
    · exact one_dvd _
    · rwa [max_eq_left (Nat.succ_le_of_lt hpos)]
  obtain ⟨m, hm⟩ := hmax
  rw [Nat.mul_comm] at hm
  have hspan : (memoryviewBounds 0 none source.length).2 -
      (memoryviewBounds 0 none source.length).1 = m * max itemsize 1 := by
    simp only [memoryviewBounds, Nat.zero_min, Nat.sub_zero, hm]
  have hlayout := layout_of_span (show 0 < 2 ^ 63 by decide) hsource (fun _ => by omega) hspan
  exact Option.isSome_iff_exists.2 ⟨_, hlayout⟩

/-- A view that slicing makes has a layout over the same source. -/
theorem SlicedFrom.layout {view sliced : MemoryViewObject} (h : SlicedFrom view sliced)
    (hsource : view.source.length < 2 ^ 63) (hview : (memoryviewLayout1d view).isSome) :
    sliced.source = view.source ∧ (memoryviewLayout1d sliced).isSome := by
  induction h with
  | whole => exact ⟨rfl, hview⟩
  | slice _ hstep hslice ih =>
    obtain ⟨hsame, hsome⟩ := ih
    obtain ⟨⟨origin, count, stride, itemsize⟩, hlayout⟩ := Option.isSome_iff_exists.1 hsome
    obtain ⟨hafter, _, _, hlayoutAfter, -⟩ :=
      selects_of_getitemSlice hlayout (by rwa [hsame]) hstep hslice
    exact ⟨hafter.trans hsame, Option.isSome_iff_exists.2 ⟨_, hlayoutAfter⟩⟩

/-- **A slice of slices selects elements.**  Of every view that slicing makes of a whole source, a
further slice within the machine integers succeeds and has the elements that Python's rule selects,
in its order. -/
theorem memoryview_slices (source : List UInt8) (itemsize : ℕ) (format : Option String)
    (hsource : source.length < 2 ^ 63) (hdvd : itemsize ∣ source.length) (view : MemoryViewObject)
    (hview : SlicedFrom (allocMemoryviewWith source itemsize format) view)
    (lower upper step : Option I64) (hstep : stepValue step ≠ 0) :
    ∃ origin stride size items,
      memoryviewLayout1d view = some (origin, items.length, stride, size) ∧
      memoryviewElements view = some items ∧
      (SliceFits items.length stride lower upper step →
        ∃ sliced picked, getitemSlice view lower upper step = .ok sliced ∧
          memoryviewElements sliced = some picked ∧
          List.Forall₂ (fun (position : ℤ) item => items[position.toNat]? = some item)
            (selected items.length lower upper step) picked) := by
  obtain ⟨hsame, hsome⟩ := hview.layout hsource (layout_alloc format hsource hdvd)
  obtain ⟨⟨origin, count, stride, size⟩, hlayout⟩ := Option.isSome_iff_exists.1 hsome
  refine ⟨origin, stride, size, (List.range count).map fun (i : ℕ) =>
    chunk view.source size (origin + stride * i), ?_, memoryviewElements_eq hlayout, ?_⟩
  · rw [List.length_map, List.length_range]
    exact hlayout
  · rw [List.length_map, List.length_range]
    intro hfits
    obtain ⟨sliced, hsliced, hselects⟩ :=
      getitemSlice_spec hlayout (by rw [hsame]; exact hsource) hstep hfits
    obtain ⟨picked, hpicked, helements⟩ := hselects.elements hstep
    exact ⟨sliced, picked, hsliced, hpicked, helements⟩

/-- `memoryview(bytes([1, 2, 3, 4, 5, 6]))[::-2][:0:-1]` -/
theorem memoryview_slices_backwards :
    ∃ first second, getitemSlice (allocMemoryviewWith [1, 2, 3, 4, 5, 6] 1 none) none none
        (some ⟨-2, by decide⟩) = .ok first ∧
      getitemSlice first none (some ⟨0, by decide⟩) (some ⟨-1, by decide⟩) = .ok second ∧
      memoryviewElements first = some [[6], [4], [2]] ∧
      memoryviewElements second = some [[2], [4]] := by
  have hindices : sliceIndices 6 none none (some ⟨-2, by decide⟩) = .ok [5, 3, 1] :=
    (sliceIndices_eq (by decide) (by decide)).trans (by decide)
  have hlayout : memoryviewLayout1d (allocMemoryviewWith [1, 2, 3, 4, 5, 6] 1 none) =
      some (0, 6, ⟨1, by decide⟩, 1) := by decide
  have hfirst : getitemSlice (allocMemoryviewWith [1, 2, 3, 4, 5, 6] 1 none) none none
      (some ⟨-2, by decide⟩) = .ok { allocMemoryviewWith [1, 2, 3, 4, 5, 6] 1 none with
        start := 5, length := some 3, shape := some [asIsize 3],
        strides := some [⟨-2, by decide⟩], contiguous := false } := by
    rw [getitemSlice_of_layout hlayout, if_neg (by decide), sliceStrided, viewIndices, hindices]
    rfl
  obtain ⟨origin, stride, size, items, hview, hitems, hslices⟩ :=
    memoryview_slices [1, 2, 3, 4, 5, 6] 1 none (by decide) (by decide) _
      (.slice .whole (by decide) hfirst) none (some ⟨0, by decide⟩) (some ⟨-1, by decide⟩)
      (by decide)
  obtain rfl : [[6], [4], [2]] = items := Option.some.inj hitems
  obtain rfl : (⟨-2, by decide⟩ : I64) = stride :=
    (Prod.mk.inj (Prod.mk.inj (Prod.mk.inj (Option.some.inj hview)).2).2).1
  obtain ⟨second, picked, hsecond, hpicked, hforall⟩ :=
    hslices ⟨fun h => absurd h (by decide), fun _ => by decide⟩
  refine ⟨_, second, hfirst, hsecond, rfl, hpicked.trans ?_⟩
  change List.Forall₂ _ [2, 1] picked at hforall
  obtain ⟨a, rest, ha, hrest, rfl⟩ := List.forall₂_cons_left_iff.1 hforall
  obtain ⟨b, rest, hb, hnil, rfl⟩ := List.forall₂_cons_left_iff.1 hrest
  obtain rfl := List.forall₂_nil_left_iff.1 hnil
  obtain rfl := Option.some.inj ha
  obtain rfl := Option.some.inj hb
  rfl

/-- The stride of `[::4611686018427387904][::2]` overflows, though one byte is selected. -/
theorem getitemSlice_strideOverflow :
    ∃ view, getitemSlice (allocMemoryviewWith [7] 1 none) none none
        (some ⟨4611686018427387904, by decide⟩) = .ok view ∧
      getitemSlice view none none (some ⟨2, by decide⟩) =
        .error (.typeError "subscript unsupported type") ∧
      selected 1 none none (some ⟨2, by decide⟩) = [0] := by
  have hfirst : sliceIndices 1 none none (some ⟨4611686018427387904, by decide⟩) = .ok [0] :=
    (sliceIndices_eq (by decide) (by decide)).trans (by decide)
  have hsecond : sliceIndices 1 none none (some ⟨2, by decide⟩) = .ok [0] :=
    (sliceIndices_eq (by decide) (by decide)).trans (by decide)
  refine ⟨{ allocMemoryviewWith [7] 1 none with
    start := 0, length := some 1, shape := some [asIsize 1],
    strides := some [⟨4611686018427387904, by decide⟩], contiguous := false }, ?_, ?_, by decide⟩
  · have hlayout : memoryviewLayout1d (allocMemoryviewWith [7] 1 none) =
        some (0, 1, ⟨1, by decide⟩, 1) := by decide
    rw [getitemSlice_of_layout hlayout, if_neg (by decide), sliceStrided, viewIndices, hfirst]
    rfl
  · have hlayout : memoryviewLayout1d { allocMemoryviewWith [7] 1 none with
        start := 0, length := some 1, shape := some [asIsize 1],
        strides := some [⟨4611686018427387904, by decide⟩], contiguous := false } =
        some (0, 1, ⟨4611686018427387904, by decide⟩, 1) := by decide
    rw [getitemSlice_of_layout hlayout, if_neg (by decide), sliceStrided, viewIndices, hsecond]
    rfl

end MemoryViews

end Pyrs
