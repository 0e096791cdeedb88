import Mathlib.Tactic.Linarith
import Mathlib.Algebra.Order.Group.MinMax
import Pyrs.Model.MemoryViews

/-!
# The layout of a memory view

The layout checks the first and the last element of a view.  All others lie between them, so that no
later operation on the offset of an element overflows or leaves the source.
-/

namespace Pyrs

namespace MemoryViews

open Slices

/-! ## Machine integers -/

lemma checkedIsize_eq {value : ℤ} (h : IsIsize value) : checkedIsize value = some value := if_pos h

lemma checkedIsize_eq_some {value result : ℤ} :
    checkedIsize value = some result ↔ IsIsize value ∧ value = result := by
  unfold checkedIsize
  split <;> simp_all

lemma isizeTryFrom_eq_some {value : ℕ} {result : ℤ} :
    isizeTryFrom value = some result ↔ value < 2 ^ 63 ∧ (value : ℤ) = result := by
  unfold isizeTryFrom
  split <;> simp_all

lemma usizeTryFrom_eq_some {value : ℤ} {result : ℕ} :
    usizeTryFrom value = some result ↔ value = result := by
  unfold usizeTryFrom
  split
  · rw [Option.some.injEq]
    omega
  · simp only [reduceCtorEq, false_iff]
    omega

lemma usizeTryFrom_natCast (value : ℕ) : usizeTryFrom value = some value :=
  usizeTryFrom_eq_some.2 rfl

lemma asIsize_val {value : ℕ} (h : value < 2 ^ 63) : (asIsize value).val = value := by
  have hself := Int.bmod_eq_of_le_mul_two (x := value) (y := 18446744073709551616) (by omega)
    (by omega)
  delta asIsize
  dsimp only
  rw [hself]

/-! ## Layout -/

/-- All elements lie in the source. -/
structure Fits (origin : ℤ) (count : ℕ) (stride : ℤ) (itemsize sourceLen : ℕ) : Prop where
  count_lt : count < 2 ^ 63
  origin_nonneg : 0 ≤ origin
  origin_lt : origin < 2 ^ 63
  stride_isize : IsIsize stride
  itemsize_pos : 0 < itemsize
  sourceLen_lt : 0 < count → sourceLen < 2 ^ 63
  inside : ∀ i : ℕ, i < count → 0 ≤ origin + stride * i ∧
    origin + stride * i + itemsize ≤ sourceLen

/-- A linear function lies between its values at the ends. -/
lemma linear_between (origin stride : ℤ) {i last : ℕ} (h : i ≤ last) :
    min origin (origin + stride * last) ≤ origin + stride * i ∧
      origin + stride * i ≤ max origin (origin + stride * last) := by
  have hle : (i : ℤ) ≤ last := by exact_mod_cast h
  rcases le_total 0 stride with hstride | hstride
  · have hlow := Int.mul_nonneg hstride (Int.natCast_nonneg i)
    have hhigh := Int.mul_le_mul_of_nonneg_left hle hstride
    omega
  · have hlow := Int.mul_nonneg (Int.neg_nonneg.2 hstride) (Int.natCast_nonneg i)
    have hhigh := Int.mul_le_mul_of_nonneg_left hle (Int.neg_nonneg.2 hstride)
    rw [neg_mul] at hlow hhigh
    rw [neg_mul] at hhigh
    omega

/-- What a layout says about the view. -/
theorem layout_fits {start : ℕ} {length : Option ℕ} {size : ℕ} {shape strides : Option (List I64)}
    {sourceLen : ℕ} {origin : ℤ} {count : ℕ} {stride : I64} {itemsize : ℕ}
    (h : memoryviewLayout1dFromParts start length size shape strides sourceLen =
      some (origin, count, stride, itemsize)) :
    Fits origin count stride itemsize sourceLen ∧ isizeTryFrom start = some origin ∧
      itemsize = max size 1 ∧
      ∃ extent, memoryviewShapeAndStridesFromParts start length shape strides (max size 1)
        sourceLen = ([extent], [stride]) ∧ extent.val = count := by
  rw [memoryviewLayout1dFromParts] at h
  dsimp only at h
  split at h
  · next extent step hparts =>
    obtain ⟨extent', hextent, h⟩ := Option.bind_eq_some_iff.1 h
    obtain ⟨origin', horigin, h⟩ := Option.bind_eq_some_iff.1 h
    have hcount := usizeTryFrom_eq_some.1 hextent
    obtain ⟨hstart, rfl⟩ := isizeTryFrom_eq_some.1 horigin
    have hlt := extent.2.2
    split at h
    · next hzero =>
      cases h
      refine ⟨⟨by omega, by omega, by omega, stride.2, by omega, by omega, by omega⟩, horigin, rfl,
        extent, hparts, ?_⟩
      rw [hcount, hzero]
    · next hpos =>
      have hlast : (asIsize (extent' - 1)).val = (extent' - 1 : ℕ) := asIsize_val (by omega)
      obtain ⟨tailDelta, hdelta, h⟩ := Option.bind_eq_some_iff.1 h
      obtain ⟨tail, htail, h⟩ := Option.bind_eq_some_iff.1 h
      obtain ⟨itemsizeIsize, hitemsize, h⟩ := Option.bind_eq_some_iff.1 h
      obtain ⟨highest, hhighest, h⟩ := Option.bind_eq_some_iff.1 h
      obtain ⟨-, rfl⟩ := checkedIsize_eq_some.1 hdelta
      obtain ⟨-, rfl⟩ := checkedIsize_eq_some.1 htail
      obtain ⟨hsmall, rfl⟩ := isizeTryFrom_eq_some.1 hitemsize
      obtain ⟨-, rfl⟩ := checkedIsize_eq_some.1 hhighest
      split at h
      · cases h
      next hfirst =>
      obtain ⟨sourceLenIsize, hsource, h⟩ := Option.bind_eq_some_iff.1 h
      obtain ⟨hsourceLen, rfl⟩ := isizeTryFrom_eq_some.1 hsource
      split at h
      · cases h
      next hend =>
      cases h
      rw [hlast] at hfirst hend
      refine ⟨⟨by omega, by omega, by omega, stride.2, by omega, fun _ => hsourceLen,
        fun i hi => ?_⟩, horigin, rfl, extent, hparts, hcount⟩
      have hbetween := linear_between start stride.val (show i ≤ count - 1 by omega)
      omega
  · cases h

/-! ## Elements -/

namespace Fits

variable {origin : ℤ} {count : ℕ} {stride : ℤ} {itemsize sourceLen : ℕ}

lemma isIsize_delta (h : Fits origin count stride itemsize sourceLen) {i : ℕ} (hi : i < count) :
    IsIsize (stride * i) ∧ IsIsize (origin + stride * i) := by
  have hinside := h.inside i hi
  have hsource := h.sourceLen_lt (by omega)
  have hnonneg := h.origin_nonneg
  have hlt := h.origin_lt
  unfold IsIsize
  omega

/-- An index is normalized exactly when it is one of the view. -/
lemma normalizeIndex_eq (h : Fits origin count stride itemsize sourceLen) (index : ℤ)
    (hindex : IsIsize index) :
    memoryviewNormalizeIndex count index =
      if -count ≤ index ∧ index < count then
        some (if index < 0 then index + count else index).toNat
      else none := by
  have hcount := asIsize_val h.count_lt
  have hlt := h.count_lt
  have hfinish : ∀ normalized : ℤ, (if normalized < 0 then none
      else do
        let normalized ← usizeTryFrom normalized
        if normalized ≥ count then none else pure normalized) =
      if 0 ≤ normalized ∧ normalized < count then some normalized.toNat else none := by
    intro normalized
    by_cases hneg : normalized < 0
    · rw [if_pos hneg, if_neg (by omega)]
    · obtain ⟨value, rfl⟩ := Int.eq_ofNat_of_zero_le (not_lt.1 hneg)
      rw [if_neg hneg, usizeTryFrom_natCast, Option.bind_eq_bind, Option.bind_some]
      by_cases hge : value ≥ count
      · rw [if_pos hge, if_neg (by omega)]
      · rw [if_neg hge, if_pos (by omega)]
        rfl
  unfold IsIsize at hindex
  rw [memoryviewNormalizeIndex]
  by_cases hneg : index < 0
  · rw [if_pos hneg, if_pos hneg, hcount, checkedIsize_eq (by unfold IsIsize; omega),
      Option.bind_eq_bind, Option.bind_some]
    exact (hfinish _).trans (if_congr (by omega) rfl rfl)
  · rw [if_neg hneg, if_neg hneg, Option.bind_eq_bind, Option.bind_some]
    exact (hfinish _).trans (if_congr (by omega) rfl rfl)

lemma elementOffset_eq (h : Fits origin count stride itemsize sourceLen) {i : ℕ} (hi : i < count) :
    memoryviewElementOffset origin count stride i = some (origin + stride * i).toNat := by
  have hlt := h.count_lt
  obtain ⟨hdelta, hoffset⟩ := h.isIsize_delta hi
  have hnormalize := h.normalizeIndex_eq i ⟨by omega, by omega⟩
  rw [if_pos ⟨by omega, by omega⟩, if_neg (by omega), Int.toNat_natCast] at hnormalize
  have hnonneg := (h.inside i hi).1
  rw [memoryviewElementOffset, hnormalize, Option.bind_eq_bind, Option.bind_some,
    asIsize_val (by omega), checkedIsize_eq hdelta, Option.bind_eq_bind, Option.bind_some,
    checkedIsize_eq hoffset, Option.bind_some, if_neg (not_lt.2 hnonneg), usizeTryFrom,
    if_pos hnonneg]

/-- An index from the end stands for that from the beginning. -/
lemma elementOffset_negative (h : Fits origin count stride itemsize sourceLen) {i : ℕ}
    (hi : i < count) : memoryviewElementOffset origin count stride ((i : ℤ) - count) =
      memoryviewElementOffset origin count stride i := by
  have hlt := h.count_lt
  have hindex := h.normalizeIndex_eq i ⟨by omega, by omega⟩
  have hnegative := h.normalizeIndex_eq (i - count) ⟨by omega, by omega⟩
  rw [if_pos ⟨by omega, by omega⟩, if_neg (by omega)] at hindex
  rw [if_pos ⟨by omega, by omega⟩, if_pos (by omega), sub_add_cancel] at hnegative
  rw [memoryviewElementOffset, memoryviewElementOffset, hindex, hnegative]

lemma elementOffset_eq_none (h : Fits origin count stride itemsize sourceLen) {index : ℤ}
    (hindex : IsIsize index) (hout : ¬ (-count ≤ index ∧ index < count)) :
    memoryviewElementOffset origin count stride index = none := by
  rw [memoryviewElementOffset, h.normalizeIndex_eq _ hindex, if_neg hout]
  rfl

end Fits

/-! ## Gathering the bytes -/

/-- The bytes of the item at an offset of the source. -/
def chunk (source : List UInt8) (itemsize : ℕ) (offset : ℤ) : List UInt8 :=
  (source.drop offset.toNat).take itemsize

namespace Fits

variable {origin : ℤ} {count : ℕ} {stride : ℤ} {itemsize : ℕ} {source : List UInt8}

lemma length_chunk (h : Fits origin count stride itemsize source.length) {i : ℕ} (hi : i < count) :
    (chunk source itemsize (origin + stride * i)).length = itemsize := by
  have hinside := h.inside i hi
  rw [chunk, List.length_take, List.length_drop]
  omega

lemma itemBytes_eq (h : Fits origin count stride itemsize source.length) {i : ℕ} (hi : i < count) :
    itemBytes source itemsize itemsize (origin + stride * i) =
      some (chunk source itemsize (origin + stride * i)) := by
  have hinside := h.inside i hi
  have hsource := h.sourceLen_lt (by omega)
  obtain ⟨offset, hoffset⟩ := Int.eq_ofNat_of_zero_le hinside.1
  rw [hoffset] at hinside ⊢
  have hstop : checkedUsize (offset + itemsize) = some (offset + itemsize) :=
    if_pos (by unfold usizeMax; omega)
  rw [itemBytes, if_neg (by omega), checkedIsize_eq (by unfold IsIsize; omega),
    isizeTryFrom_eq_some.2 ⟨hsource, rfl⟩, usizeTryFrom_natCast]
  simp only [Option.bind_eq_bind, Option.bind_some, hstop]
  rw [if_neg (by omega), if_pos (by omega), List.drop_take, Nat.add_sub_cancel_left]
  rfl

lemma collectItems_eq (h : Fits origin count stride itemsize source.length) {n : ℕ}
    (hn : n ≤ count) (out : List UInt8) :
    collectItems source itemsize itemsize origin stride n out =
      some (out ++ (List.range n).flatMap fun (i : ℕ) =>
        chunk source itemsize (origin + stride * i)) := by
  have hlt := h.count_lt
  rw [collectItems]
  induction n with
  | zero => simp
  | succ n ih =>
    obtain ⟨hdelta, hoffset⟩ := h.isIsize_delta hn
    rw [List.range_succ, List.foldlM_append, ih (by omega), List.flatMap_append]
    simp only [Option.bind_eq_bind, Option.bind_some, List.foldlM_cons,
      asIsize_val (show n < 2 ^ 63 by omega), checkedIsize_eq hdelta, checkedIsize_eq hoffset,
      h.itemBytes_eq hn]
    simp

lemma length_flatMap_chunk (h : Fits origin count stride itemsize source.length) :
    ((List.range count).flatMap fun (i : ℕ) =>
      chunk source itemsize (origin + stride * i)).length = count * itemsize := by
  have hlengths : (List.range count).map (fun (i : ℕ) =>
      (chunk source itemsize (origin + stride * i)).length) =
        (List.range count).map fun _ => itemsize :=
    List.map_congr_left fun i hi => h.length_chunk (List.mem_range.1 hi)
  rw [List.length_flatMap, hlengths, List.map_const', List.sum_replicate_nat, List.length_range]

end Fits

lemma usizeTryFrom_val {extent : I64} {count : ℕ} (h : extent.val = count) :
    usizeTryFrom extent = some count := usizeTryFrom_eq_some.2 h

/-- **A layout that is found is safe.**  An index has an offset exactly when it is one of the view,
and the item there lies in the source; both ways of gathering the bytes give the items one after the
other, as long as there is room for so many bytes. -/
theorem memoryview_layout_sound (view : MemoryViewObject) (origin : ℤ) (count : ℕ) (stride : I64)
    (itemsize : ℕ) (hlayout : memoryviewLayout1d view = some (origin, count, stride, itemsize)) :
    (∀ index : I64,
        (memoryviewElementOffset origin count stride index).isSome ↔
          -count ≤ index.val ∧ index.val < count) ∧
      (∀ (index : I64) (offset : ℕ),
        memoryviewElementOffset origin count stride index = some offset →
          offset + itemsize ≤ view.source.length) ∧
      (count * itemsize < 2 ^ 63 → itemsize < 2 ^ 63 →
        ∃ bytes, memoryviewCollectBytes view.source origin count stride itemsize = some bytes ∧
          bytes.length = count * itemsize ∧
          bytes = (List.range count).flatMap (fun (i : ℕ) =>
            (memoryviewElementOffset origin count stride i).elim [] fun offset =>
              (view.source.drop offset).take itemsize) ∧
          memoryviewCollectBytesForView view = some bytes) := by
  obtain ⟨hfits, hstart, hitemsize, extent, hparts, hextent⟩ := layout_fits hlayout
  have hcount := hfits.count_lt
  -- An index from the end stands for one from the beginning.
  have hoffset : ∀ index : I64, (-count ≤ index.val ∧ index.val < count) →
      ∃ i : ℕ, i < count ∧ memoryviewElementOffset origin count stride index =
        some (origin + stride * i).toNat := by
    rintro ⟨index, hindex⟩ ⟨hlow, hhigh⟩
    dsimp only at hlow hhigh ⊢
    by_cases hneg : index < 0
    · obtain ⟨i, hi⟩ := Int.eq_ofNat_of_zero_le (show 0 ≤ index + count by omega)
      obtain rfl : index = (i : ℤ) - count := by omega
      refine ⟨i, by omega, ?_⟩
      rw [hfits.elementOffset_negative (by omega), hfits.elementOffset_eq (by omega)]
    · obtain ⟨i, rfl⟩ := Int.eq_ofNat_of_zero_le (not_lt.1 hneg)
      exact ⟨i, by omega, hfits.elementOffset_eq (by omega)⟩
  refine ⟨fun index => ⟨fun hsome => ?_, fun hin => ?_⟩, fun index offset hsome => ?_,
    fun htotal hsize => ?_⟩
  · by_contra hout
    rw [hfits.elementOffset_eq_none index.2 hout] at hsome
    cases hsome
  · obtain ⟨i, -, hi⟩ := hoffset index hin
    rw [hi]
    rfl
  · by_cases hin : -count ≤ index.val ∧ index.val < count
    · obtain ⟨i, hi, heq⟩ := hoffset index hin
      obtain rfl := Option.some.inj (heq.symm.trans hsome)
      have hinside := hfits.inside i hi
      omega
    · rw [hfits.elementOffset_eq_none index.2 hin] at hsome
      cases hsome
  · refine ⟨(List.range count).flatMap fun (i : ℕ) =>
      chunk view.source itemsize (origin + stride * i), ?_, hfits.length_flatMap_chunk, ?_, ?_⟩
    · rw [memoryviewCollectBytes]
      by_cases hzero : count = 0
      · rw [if_pos hzero, hzero]
        rfl
      · have hroom : checkedUsize (count * itemsize) = some (count * itemsize) :=
          if_pos (by unfold usizeMax; omega)
        have hcapacity : withCapacity (count * itemsize) = some () := if_pos htotal
        rw [if_neg hzero, hroom, isizeTryFrom_eq_some.2 ⟨hsize, rfl⟩]
        simp only [Option.bind_eq_bind, Option.bind_some, hcapacity]
        rw [hfits.collectItems_eq le_rfl, List.nil_append]
    · rw [List.flatMap_def, List.flatMap_def]
      refine congrArg _ (List.map_congr_left fun i hi => ?_)
      rw [hfits.elementOffset_eq (List.mem_range.1 hi)]
      rfl
    · have hnbytes : memoryviewLogicalNbytes [extent] itemsize = some (count * itemsize) := by
        have hone : checkedUsize (1 * count) = some count := by
          rw [one_mul]
          exact if_pos (by unfold usizeMax; omega)
        have hroom : checkedUsize (count * max itemsize 1) = some (count * itemsize) := by
          rw [max_eq_left hfits.itemsize_pos]
          exact if_pos (by unfold usizeMax; omega)
        rw [memoryviewLogicalNbytes, List.foldlM_cons, usizeTryFrom_val hextent,
          Option.bind_eq_bind, Option.bind_some, hone]
        exact hroom
      have hcapacity : withCapacity (count * itemsize) = some () := if_pos htotal
      rw [memoryviewCollectBytesForView, hparts]
      dsimp only
      rw [← hitemsize, hnbytes, hstart]
      simp only [Option.bind_eq_bind, Option.bind_some, hcapacity, memoryviewCollectBytesRecursive,
        usizeTryFrom_val hextent, isizeTryFrom_eq_some.2 ⟨hsize, rfl⟩]
      rw [hfits.collectItems_eq le_rfl, List.nil_append]

/-- The layout of three bytes that are read backwards. -/
theorem memoryview_layout_sound_reversed :
    (∀ index : I64, (memoryviewElementOffset 2 3 (-1) index).isSome ↔
        -(3 : ℕ) ≤ index.val ∧ index.val < (3 : ℕ)) ∧
      (∀ (index : I64) (offset : ℕ), memoryviewElementOffset 2 3 (-1) index = some offset →
        offset + 1 ≤ [(1 : UInt8), 2, 3].length) ∧
      (3 * 1 < 2 ^ 63 → 1 < 2 ^ 63 →
        ∃ bytes, memoryviewCollectBytes [1, 2, 3] 2 3 (-1) 1 = some bytes ∧ bytes.length = 3 * 1 ∧
          bytes = (List.range 3).flatMap (fun (i : ℕ) =>
            (memoryviewElementOffset 2 3 (-1) i).elim [] fun offset =>
              ([1, 2, 3].drop offset).take 1) ∧
          memoryviewCollectBytesForView ⟨[1, 2, 3], 1, none, some [⟨3, by decide⟩],
            some [⟨-1, by decide⟩], false, false, 2, none⟩ = some bytes) :=
  memoryview_layout_sound ⟨[1, 2, 3], 1, none, some [⟨3, by decide⟩], some [⟨-1, by decide⟩], false,
    false, 2, none⟩ 2 3 ⟨-1, by decide⟩ 1 (by decide)

/-- A view of `2 ^ 62` items of four bytes, all of which are the same. -/
theorem memoryviewCollectBytes_overflow :
    memoryviewLayout1d ⟨[1, 2, 3, 4], 4, none, some [⟨2 ^ 62, by decide⟩], some [⟨0, by decide⟩],
        false, false, 0, none⟩ = some (0, 2 ^ 62, ⟨0, by decide⟩, 4) ∧
      memoryviewCollectBytes [1, 2, 3, 4] 0 (2 ^ 62) 0 4 = none := by
  decide

end MemoryViews

end Pyrs
