import Pyrs.Model.IteratorPayloads
import Pyrs.Properties.FixedBytes
import Pyrs.Properties.MemoryViewSlices

/-!
# Draining is stepping to the end

For most kinds the values of a payload are those that `next` gives until the end.  The exceptions
are a reversed list that has become shorter, a `map` that has values to come, and a view whose
elements are not the bytes of its span.

The condition for a view is about the bytes of its source and the parts of the view: it says which
bytes the elements are read from, and does not name what the loop of `next` or the drain computes.
The loop over a range runs until the cursor is at the stop, which the steps of a range of big
integers reach.
-/

namespace Pyrs

namespace IteratorPayloads

open Iteration MemoryViews SteppedRange
open Decoding (fromLeBytes fromLeBytes_lt)
open Slices (I64)

variable {ω : Type} (evaluate : ω → Outcome (Option Value × ω))

/-- The drain takes what the iterator gives until its end, and the iterator is then at its end. -/
def DrainsAsStepped (iterator : Iterator ω) : Prop :=
  ∃ values last drained, iterator.drain = .ok (values, drained) ∧
    Gives (Iterator.next evaluate) iterator values last ∧
    Exhausted (Iterator.next evaluate) drained

/-! ## Stores -/

lemma drop_min {α : Type} (items : List α) (index : ℕ) :
    items.drop (min index items.length) = items.drop index := by
  rcases Nat.le_total index items.length with hle | hle
  · rw [Nat.min_eq_left hle]
  · rw [Nat.min_eq_right hle, List.drop_length, List.drop_eq_nil_of_le hle]

lemma slice_drop {α : Type} (items : List α) (index : ℕ) :
    slice items (min index items.length) items.length = .ok (items.drop index) := by
  rw [slice, if_pos ⟨Nat.min_le_right _ _, Nat.le_refl _⟩, List.take_length, drop_min]

lemma drainSequence_eq (items : List Value) (index : ℕ) (position : ℕ → Iterator ω) :
    drainSequence items index position = .ok (items.drop index, position items.length) := by
  rw [drainSequence, slice_drop]
  rfl

/-- An iterator over a store, whatever this has become. -/
lemma drainsAsStepped_sequence {items : List Value} {position : ℕ → Iterator ω} {index : ℕ}
    (hnext : ∀ i, (position i).next evaluate = .ok (stepSequence items i position))
    (hdrain : (position index).drain = drainSequence items index position) :
    DrainsAsStepped evaluate (position index) := by
  have hitems : ∀ i (h : i < items.length),
      (position i).next evaluate = .ok (some items[i], position (i + 1)) := fun i h => by
    rw [hnext, stepSequence, if_neg (Nat.not_le.2 h), List.getElem?_eq_getElem h]
  have hend : ∀ i, items.length ≤ i → Exhausted (Iterator.next evaluate) (position i) :=
    fun i h => ⟨position i, by rw [hnext, stepSequence, if_pos h]⟩
  obtain ⟨last, hgives⟩ := gives_drop hitems index (hend _ (Nat.le_max_right _ _))
  exact ⟨_, last, _, hdrain.trans (drainSequence_eq items index position), hgives,
    hend _ (Nat.le_refl _)⟩

lemma drain_set (items : List Value) (index : ℕ) :
    (Iterator.set items index : Iterator ω).drain =
      drainSequence items index (Iterator.set items) := by
  have hlength : min index items.length + (items.drop (min index items.length)).length =
      items.length := by
    rw [List.length_drop]
    omega
  rw [drainSequence_eq, Iterator.drain, hlength, drop_min]
  rfl

/-! ## Reversed lists -/

lemma gives_listReverse (items : List Value) {n : ℕ} (hn : n ≤ items.length) :
    Gives (Iterator.next evaluate) (.listReverse items ((n : ℤ) - 1)) (items.take n).reverse
      (.listReverse items (-1)) := by
  induction n with
  | zero =>
    refine .done ?_
    rw [Iterator.next, if_pos (by omega)]
    rfl
  | succ n ih =>
    have hlt : n < items.length := hn
    have hindex : ((n + 1 : ℕ) : ℤ) - 1 = n := by omega
    rw [List.take_add_one, List.getElem?_eq_getElem hlt, Option.toList_some, List.reverse_append,
      List.reverse_singleton, List.singleton_append, hindex]
    refine .step ?_ (ih hlt.le)
    rw [Iterator.next, if_neg (by omega), Int.toNat_natCast, if_neg (Nat.not_le.2 hlt),
      List.getElem?_eq_getElem hlt]

/-- The position of a reversed list has to be one of the list. -/
lemma drainsAsStepped_listReverse (items : List Value) (nextIndex : ℤ) :
    DrainsAsStepped evaluate (.listReverse items nextIndex) ↔ nextIndex < items.length := by
  have hend : ∀ position : ℤ, position < 0 → (Iterator.listReverse items position).next evaluate =
      .ok (none, .listReverse items position) := fun position hneg => by
    rw [Iterator.next, if_pos hneg]
  by_cases hneg : nextIndex < 0
  · refine iff_of_true ⟨[], _, _, ?_, .done (hend _ hneg), _, hend _ hneg⟩ (by omega)
    rw [Iterator.drain, if_pos hneg]
  · obtain ⟨n, rfl⟩ := Int.eq_ofNat_of_zero_le (Int.not_lt.1 hneg)
    by_cases hlt : n < items.length
    · have hgives := gives_listReverse evaluate items hlt
      rw [Nat.succ_eq_add_one, Nat.cast_add, Nat.cast_one, add_sub_cancel_right] at hgives
      refine iff_of_true ⟨_, _, .listReverse items (-1), ?_, hgives, _, hend _ (by decide)⟩
        (by omega)
      rw [Iterator.drain, if_neg hneg, Int.toNat_natCast, Nat.min_eq_left (by omega)]
      dsimp only
      rw [slice, if_pos ⟨Nat.zero_le _, hlt⟩, List.drop_zero]
      rfl
    · refine iff_of_false ?_ (by omega)
      rintro ⟨values, last, drained, hdrain, hgives, -⟩
      have hnext : (Iterator.listReverse items (n : ℤ)).next evaluate =
          .ok (none, .listReverse items (-1)) := by
        rw [Iterator.next, if_neg hneg, Int.toNat_natCast, if_pos (Nat.not_lt.1 hlt)]
      obtain ⟨rfl, -⟩ := hgives.unique (.done hnext)
      rw [Iterator.drain, if_neg hneg, Int.toNat_natCast, Nat.min_eq_right (by omega)] at hdrain
      dsimp only at hdrain
      by_cases hempty : items.length = 0
      · rw [slice, if_neg (by omega)] at hdrain
        cases hdrain
      · rw [slice, if_pos ⟨Nat.zero_le _, by omega⟩, Nat.sub_add_cancel (Nat.pos_of_ne_zero hempty),
          List.take_length, List.drop_zero] at hdrain
        have hnil := congrArg Prod.fst (Except.ok.inj hdrain)
        exact hempty (List.length_eq_zero_iff.2 (List.reverse_eq_nil_iff.1 hnil))

/-! ## Memory views -/

/-- The bytes between the bounds of a view. -/
def spanBytes (view : MemoryViewObject) : List UInt8 :=
  let (viewStart, viewEnd) := memoryviewBounds view.start view.length view.source.length
  (view.source.take viewEnd).drop viewStart

/-- The bytes at an offset of a source are an integer of a format, and the integer is the byte. -/
structure ElementIsByte (source : List UInt8) (format : MemoryViewCastFormat)
    (itemsize offset : ℕ) (byte : UInt8) : Prop where
  inside : offset + itemsize ≤ source.length
  integer : ∃ signed, format.integerSignedness = some signed ∧
    fromLeBytes ((source.take (offset + itemsize)).drop offset) = byte.toNat ∧
      (signed = true → 2 * byte.toNat < 256 ^ itemsize)

/-- A view of at most one dimension whose elements from a position on are integers, as many as the
bytes of its span from there on, and each the byte at its position. -/
structure BytewiseFrom (view : MemoryViewObject) (index : ℕ) : Prop where
  flat : (memoryviewShapeAndStridesFromParts view.start view.length view.shape view.strides
    view.itemsize view.source.length).1.length ≤ 1
  elements : ∃ format, memoryviewFormatForView (max view.itemsize 1) view.format = .ok format ∧
    match memoryviewLayout1d view with
    | none => (spanBytes view).length ≤ index
    | some (origin, count, stride, _) => count ≤ (spanBytes view).length ∧
      ∀ i (h : i < (spanBytes view).length), index ≤ i → i < count ∧
        ∃ offset, memoryviewElementOffset origin count stride (asIsize i).val = some offset ∧
          ElementIsByte view.source format (max view.itemsize 1) offset (spanBytes view)[i]

lemma itemsize_of_formatForView {itemsize : ℕ} {format : MemoryViewCastFormat}
    {spec : Option String} (h : memoryviewFormatForView (max itemsize 1) spec = .ok format) :
    format.itemsize = max itemsize 1 := by
  rw [memoryviewFormatForView] at h
  obtain ⟨castFormat, -, h⟩ := Results.bind_eq_ok.1 h
  split at h
  · cases h
  · next hsize =>
    obtain rfl := Except.ok.inj h
    simpa using hsize

lemma bigintToValue_eq_ofByte_iff {value : BigInt} {byte : UInt8} :
    IntValue.bigintToValue value = .int (Int64.ofNat byte.toNat) ↔
      value.toInt = byte.toNat := by
  have hlt := byte.toNat_lt
  have hbyte : (Int64.ofNat byte.toNat).toInt = byte.toNat :=
    Int64.toInt_ofNat_of_lt (by omega)
  have hholds := IntValue.bigintToValue_holds value
  constructor
  · intro h
    rw [h] at hholds
    rw [← hbyte]
    exact hholds.symm
  · intro h
    cases hvalue : IntValue.bigintToValue value with
    | bool flag =>
      rw [hvalue] at hholds
      exact hholds.elim
    | int number =>
      rw [hvalue] at hholds
      exact congrArg _ (Int64.toInt_inj.1 (hholds.trans (h.trans hbyte.symm)))
    | bigInt number large =>
      rw [hvalue] at hholds
      exact absurd ⟨by omega, by omega⟩ hholds.2

/-- Decoding gives a byte just where the element is an integer with its value. -/
lemma memoryviewDecodeElement_eq_ofByte_iff {chunk : List UInt8} {format : MemoryViewCastFormat}
    {itemsize : ℕ} (hitemsize : format.itemsize = max itemsize 1)
    (hchunk : chunk.length = max itemsize 1) {byte : UInt8} :
    memoryviewDecodeElement chunk format itemsize = .ok (Value.ofByte byte) ↔
      ∃ signed, format.integerSignedness = some signed ∧ fromLeBytes chunk = byte.toNat ∧
        (signed = true → 2 * byte.toNat < 256 ^ max itemsize 1) := by
  unfold memoryviewDecodeElement
  rw [if_neg (by simp [hitemsize, hchunk])]
  cases hsigned : format.integerSignedness with
  | some signed =>
    have hsmall : chunk.length < 2 ^ 61 := by
      rw [hchunk, ← hitemsize]
      cases format <;> decide
    obtain ⟨value, hvalue, hvalueInt⟩ := bigintFromBytes_spec hsmall true signed
    have hfirst : lowestFirst true chunk = chunk := rfl
    rw [hfirst, hchunk] at hvalueInt
    have hbound := fromLeBytes_lt chunk
    rw [hchunk] at hbound
    simp only [hvalue, okOrElse, Results.ok_bind, Option.some.injEq, exists_eq_left']
    have hinj : ((return .int (IntValue.bigintToValue value)) : Outcome Value) =
        .ok (Value.ofByte byte) ↔ value.toInt = byte.toNat := by
      rw [← bigintToValue_eq_ofByte_iff]
      exact ⟨fun h => Value.int.inj (Except.ok.inj h), fun h => by rw [h]; rfl⟩
    have hcast : ((256 ^ max itemsize 1 : ℕ) : ℤ) = 256 ^ max itemsize 1 := by push_cast; rfl
    rw [hinj, hvalueInt, ← hcast]
    generalize 256 ^ max itemsize 1 = size at hbound
    cases signed with
    | false => simp
    | true =>
      simp only [true_and, forall_const]
      split <;> omega
  | none =>
    refine iff_of_false (fun h => ?_) fun h => by
      obtain ⟨_, h, _⟩ := h
      cases h
    cases format with
    | char =>
      obtain ⟨first, -, h⟩ := Results.bind_eq_ok.1 h
      cases h
    | float => cases h
    | double => cases h
    | unsignedByte => cases hsigned
    | signedByte => cases hsigned
    | unsignedShort => cases hsigned
    | signedShort => cases hsigned
    | unsignedInt => cases hsigned
    | signedInt => cases hsigned
    | unsignedLong => cases hsigned
    | signedLong => cases hsigned
    | unsignedLongLong => cases hsigned
    | signedLongLong => cases hsigned

/-- Reading at a position gives a byte just where the element at its offset is that byte. -/
lemma memoryviewRead_eq_ofByte_iff {source : List UInt8} (hsource : source.length ≤ usizeMax)
    {origin : ℤ} {count : ℕ} {stride : I64} {format : MemoryViewCastFormat} {size i : ℕ}
    (hitemsize : format.itemsize = max size 1) {byte : UInt8} :
    memoryviewRead source origin count stride format (max size 1) i = .ok (Value.ofByte byte) ↔
      ∃ offset, memoryviewElementOffset origin count stride (asIsize i).val = some offset ∧
        ElementIsByte source format (max size 1) offset byte := by
  rw [memoryviewRead]
  cases hoffset : memoryviewElementOffset origin count stride (asIsize i).val with
  | none => exact iff_of_false (fun h => by cases h) fun ⟨offset, h, _⟩ => by cases h
  | some offset =>
    simp only [okOrElse, Results.ok_bind, Option.some.injEq, exists_eq_left']
    by_cases hinside : offset + max size 1 ≤ source.length
    · have hstop : checkedUsize (offset + max size 1) = some (offset + max size 1) :=
        if_pos (hinside.trans hsource)
      have hlength : ((source.take (offset + max size 1)).drop offset).length =
          max (max size 1) 1 := by
        rw [List.length_drop, List.length_take]
        omega
      simp only [hstop, Results.ok_bind, if_pos hinside]
      rw [memoryviewDecodeElement_eq_ofByte_iff (by omega) hlength, Nat.max_assoc, Nat.max_self]
      exact ⟨fun h => ⟨hinside, h⟩, fun h => h.integer⟩
    · refine iff_of_false (fun h => ?_) fun h => hinside h.inside
      cases hstop : checkedUsize (offset + max size 1) with
      | none =>
        rw [hstop] at h
        cases h
      | some stop =>
        have heq : stop = offset + max size 1 := by
          rw [checkedUsize] at hstop
          split at hstop
          · exact (Option.some.inj hstop).symm
          · cases hstop
        rw [hstop] at h
        simp only [Results.ok_bind, heq, if_neg hinside] at h
        cases h

section Elements

variable {view : MemoryViewObject} {i : ℕ}

lemma memoryviewElement_of_dimensions (hdims : ¬(memoryviewShapeAndStridesFromParts view.start
    view.length view.shape view.strides view.itemsize view.source.length).1.length ≤ 1) :
    memoryviewElement view i =
      .error (.new "NotImplementedError: multi-dimensional sub-views are not implemented") := by
  unfold memoryviewElement
  exact if_pos (Nat.lt_of_not_le hdims)

variable (hflat : (memoryviewShapeAndStridesFromParts view.start view.length view.shape
  view.strides view.itemsize view.source.length).1.length ≤ 1)

include hflat

lemma memoryviewElement_of_format_error {fault : Fault}
    (hformat : memoryviewFormatForView (max view.itemsize 1) view.format = .error fault) :
    memoryviewElement view i = .error fault := by
  unfold memoryviewElement
  dsimp only
  rw [if_neg (Nat.not_lt.2 hflat), hformat]
  rfl

variable {format : MemoryViewCastFormat}
variable (hformat : memoryviewFormatForView (max view.itemsize 1) view.format = .ok format)

include hformat

lemma memoryviewElement_of_layout_none (hlayout : memoryviewLayout1d view = none) :
    memoryviewElement view i = .ok none := by
  unfold memoryviewElement
  dsimp only
  rw [if_neg (Nat.not_lt.2 hflat), hformat, Results.ok_bind, hlayout]
  rfl

lemma memoryviewElement_of_layout {origin : ℤ} {count : ℕ} {stride : I64} {size : ℕ}
    (hlayout : memoryviewLayout1d view = some (origin, count, stride, size)) :
    memoryviewElement view i = if i ≥ count then .ok none
      else (memoryviewRead view.source origin count stride format (max view.itemsize 1) i).map
        some := by
  unfold memoryviewElement
  dsimp only
  rw [if_neg (Nat.not_lt.2 hflat), hformat, Results.ok_bind, hlayout]
  dsimp only
  split
  · rfl
  · cases memoryviewRead view.source origin count stride format (max view.itemsize 1) i with
    | error fault => rfl
    | ok value => rfl

end Elements

/-- Where a view has no element, it has none behind. -/
lemma memoryviewElement_eq_none {view : MemoryViewObject} {i j : ℕ} (hij : i ≤ j)
    (h : memoryviewElement view i = .ok none) : memoryviewElement view j = .ok none := by
  rw [memoryviewElement] at h ⊢
  dsimp only at h ⊢
  split at h
  · cases h
  · next hshape =>
    rw [if_neg hshape]
    cases hformat : memoryviewFormatForView (max view.itemsize 1) view.format with
    | error fault =>
      rw [hformat] at h
      cases h
    | ok format =>
      rw [hformat, Results.ok_bind] at h
      rw [Results.ok_bind]
      cases hlayout : memoryviewLayout1d view with
      | none => rfl
      | some layout =>
        obtain ⟨origin, count, stride, size⟩ := layout
        rw [hlayout] at h
        dsimp only at h ⊢
        by_cases hcount : i ≥ count
        · rw [if_pos (by omega)]
          rfl
        · rw [if_neg hcount] at h
          cases hread : memoryviewRead view.source origin count stride format
              (max view.itemsize 1) i with
          | error fault =>
            rw [hread] at h
            cases h
          | ok value =>
            rw [hread] at h
            cases h

section Views

variable (view : MemoryViewObject) (hsource : view.source.length ≤ usizeMax)

lemma drain_memoryView (index : ℕ) :
    (Iterator.memoryView view hsource index : Iterator ω).drain =
      .ok (((spanBytes view).drop index).map Value.ofByte,
        .memoryView view hsource (spanBytes view).length) := by
  generalize hbounds : memoryviewBounds view.start view.length view.source.length = bounds
  obtain ⟨viewStart, viewEnd⟩ := bounds
  have hstop : viewStart ≤ viewEnd ∧ viewEnd ≤ view.source.length := by
    rw [memoryviewBounds.eq_def] at hbounds
    obtain ⟨rfl, rfl⟩ := Prod.mk.inj hbounds
    cases view.length with
    | none => exact ⟨Nat.min_le_right _ _, Nat.le_refl _⟩
    | some length =>
      dsimp only
      omega
  have hspan : spanBytes view = (view.source.take viewEnd).drop viewStart := by
    rw [spanBytes, hbounds]
  have hlength : (spanBytes view).length = viewEnd - viewStart := by
    rw [hspan, List.length_drop, List.length_take, Nat.min_eq_left hstop.2]
  rw [Iterator.drain, hbounds]
  dsimp only
  rw [slice, if_pos ⟨by omega, hstop.2⟩, hlength, ← List.drop_drop, ← hspan, ← hlength, drop_min]
  rfl

lemma reads_memoryView :
    Iteration.Reads (Iterator.next evaluate) (Iterator.memoryView view hsource)
      (memoryviewElement view) := by
  intro i
  rw [Iterator.next]
  cases memoryviewElement view i with
  | error fault => rfl
  | ok value => cases value <;> rfl

/-- The drain takes the bytes of the span, so `next` must give them too. -/
lemma drainsAsStepped_memoryView_elements (index : ℕ) :
    DrainsAsStepped evaluate (.memoryView view hsource index) ↔
      ∀ i, min index (spanBytes view).length ≤ i →
        memoryviewElement view i = .ok ((spanBytes view)[i]?.map Value.ofByte) := by
  have hreads := reads_memoryView evaluate view hsource
  constructor
  · rintro ⟨values, last, drained, hdrain, hgives, hend⟩ i hi
    rw [drain_memoryView] at hdrain
    cases hdrain
    have hnone := (hreads.exhausted_iff _).1 hend
    by_cases hlt : i < (spanBytes view).length
    · have hread := (hreads.gives_iff.1 hgives).1 (i - index) (by
        rw [List.length_map, List.length_drop]
        omega)
      rwa [show index + (i - index) = i by omega, List.getElem?_map, List.getElem?_drop,
        show index + (i - index) = i by omega] at hread
    · rw [List.getElem?_eq_none (Nat.not_lt.1 hlt)]
      exact memoryviewElement_eq_none (Nat.not_lt.1 hlt) hnone
  · intro h
    refine ⟨_, _, _, drain_memoryView view hsource index, hreads.gives_iff.2 ⟨fun i _ => ?_, rfl⟩,
      (hreads.exhausted_iff _).2 ?_⟩
    · rw [List.getElem?_map, List.getElem?_drop]
      exact h _ (by omega)
    · rw [h _ (Nat.min_le_right _ _), List.getElem?_eq_none (Nat.le_refl _)]
      rfl

/-- From the position on, a view has to be one of the bytes of its span. -/
lemma drainsAsStepped_memoryView (index : ℕ) :
    DrainsAsStepped evaluate (.memoryView view hsource index) ↔ BytewiseFrom view index := by
  rw [drainsAsStepped_memoryView_elements]
  by_cases hflat : (memoryviewShapeAndStridesFromParts view.start view.length view.shape
      view.strides view.itemsize view.source.length).1.length ≤ 1
  · cases hformat : memoryviewFormatForView (max view.itemsize 1) view.format with
    | error fault =>
      refine iff_of_false (fun h => ?_) fun h => ?_
      · have helement := h _ (Nat.min_le_right _ _)
        rw [memoryviewElement_of_format_error hflat hformat] at helement
        cases helement
      · obtain ⟨format, hok, -⟩ := h.elements
        rw [hformat] at hok
        cases hok
    | ok format =>
      have hitemsize := itemsize_of_formatForView hformat
      cases hlayout : memoryviewLayout1d view with
      | none =>
        have helement (i : ℕ) : memoryviewElement view i = .ok none :=
          memoryviewElement_of_layout_none hflat hformat hlayout
        constructor
        · refine fun h => ⟨hflat, format, hformat, ?_⟩
          rw [hlayout]
          dsimp only
          by_contra hlt
          have hbyte := h _ (Nat.min_le_left _ _)
          rw [helement, List.getElem?_eq_getElem (by omega)] at hbyte
          cases hbyte
        · rintro ⟨-, format', -, hlength⟩ i hi
          rw [hlayout] at hlength
          dsimp only at hlength
          rw [helement, List.getElem?_eq_none (by omega)]
          rfl
      | some layout =>
        obtain ⟨origin, count, stride, size⟩ := layout
        have helement (i : ℕ) : memoryviewElement view i = _ :=
          memoryviewElement_of_layout hflat hformat hlayout
        have hread (i : ℕ) (hi : i < (spanBytes view).length) :
            memoryviewElement view i = .ok ((spanBytes view)[i]?.map Value.ofByte) ↔
              i < count ∧ ∃ offset, memoryviewElementOffset origin count stride (asIsize i).val =
                some offset ∧ ElementIsByte view.source format (max view.itemsize 1) offset
                  (spanBytes view)[i] := by
          rw [helement, List.getElem?_eq_getElem hi, Option.map_some]
          by_cases hcount : i ≥ count
          · rw [if_pos hcount]
            exact iff_of_false (fun h => by cases h) fun h => absurd h.1 (Nat.not_lt.2 hcount)
          · rw [if_neg hcount, and_iff_right (Nat.lt_of_not_le hcount),
              ← memoryviewRead_eq_ofByte_iff hsource hitemsize]
            cases memoryviewRead view.source origin count stride format (max view.itemsize 1) i with
            | error fault => exact iff_of_false (fun h => by cases h) fun h => by cases h
            | ok value =>
              exact ⟨fun h => congrArg _ (Option.some.inj (Except.ok.inj h)),
                fun h => congrArg _ (congrArg some (Except.ok.inj h))⟩
        constructor
        · refine fun h => ⟨hflat, format, hformat, ?_⟩
          rw [hlayout]
          dsimp only
          refine ⟨?_, fun i hi hindex => (hread i hi).1 (h i (by omega))⟩
          by_contra hlt
          have hend := h _ (Nat.min_le_right _ _)
          rw [helement, if_neg (by omega), List.getElem?_eq_none le_rfl] at hend
          cases hbyte : memoryviewRead view.source origin count stride format (max view.itemsize 1)
              (spanBytes view).length with
          | error fault =>
            rw [hbyte] at hend
            cases hend
          | ok value =>
            rw [hbyte] at hend
            cases hend
        · rintro ⟨-, format', hformat', hbytes⟩ i hi
          obtain rfl := Except.ok.inj (hformat.symm.trans hformat')
          rw [hlayout] at hbytes
          dsimp only at hbytes
          obtain ⟨hcount, hbytes⟩ := hbytes
          by_cases hlt : i < (spanBytes view).length
          · exact (hread i hlt).2 (hbytes i hlt (by omega))
          · rw [helement, if_pos (by omega), List.getElem?_eq_none (by omega)]
            rfl
  · refine iff_of_false (fun h => ?_) fun h => hflat h.flat
    have helement := h _ (Nat.min_le_right _ _)
    rw [memoryviewElement_of_dimensions hflat] at helement
    cases helement

end Views

/-! ## Maps -/

/-- A map must have nothing to come. -/
lemma drainsAsStepped_map (values : List Value) (exhausted : Bool) (world : ω) (index : ℕ) :
    DrainsAsStepped evaluate (.map values exhausted world index) ↔
      exhausted = true ∨ ∃ later, evaluate world = .ok (none, later) := by
  have hitems : ∀ i (h : i < values.length),
      (Iterator.map values exhausted world i).next evaluate =
        .ok (some values[i], .map values exhausted world (i + 1)) := fun i h => by
    rw [Iterator.next, if_pos h, List.getElem?_eq_getElem h]
  have hend : ∀ i, values.length ≤ i →
      (Exhausted (Iterator.next evaluate) (.map values exhausted world i) ↔
        exhausted = true ∨ ∃ later, evaluate world = .ok (none, later)) := fun i h => by
    unfold Exhausted
    rw [Iterator.next, if_neg (Nat.not_lt.2 h)]
    cases exhausted with
    | true => exact iff_of_true ⟨_, rfl⟩ (.inl rfl)
    | false =>
      rw [if_neg Bool.false_ne_true, or_iff_right Bool.false_ne_true]
      cases evaluate world with
      | error fault => exact iff_of_false (fun ⟨_, h⟩ => nomatch h) fun ⟨_, h⟩ => nomatch h
      | ok result =>
        obtain ⟨value, later⟩ := result
        cases value with
        | none => exact iff_of_true ⟨_, rfl⟩ ⟨later, rfl⟩
        | some value => exact iff_of_false (fun ⟨_, h⟩ => nomatch h) fun ⟨_, h⟩ => nomatch h
  have hdrain := drainSequence_eq values index (Iterator.map values exhausted world)
  constructor
  · rintro ⟨_, last, drained, hdrained, -, hexhausted⟩
    rw [Iterator.drain, hdrain] at hdrained
    cases hdrained
    exact (hend _ (Nat.le_refl _)).1 hexhausted
  · intro h
    obtain ⟨last, hgives⟩ := gives_drop hitems index ((hend _ (Nat.le_max_right _ _)).2 h)
    exact ⟨_, last, _, hdrain, hgives, (hend _ (Nat.le_refl _)).2 h⟩

/-! ## Ranges -/

lemma step_toInt_ne_zero {step : BigInt} (hstep : step.isZero = false) : step.toInt ≠ 0 := by
  intro h
  rw [BigInt.isZero_iff.2 h] at hstep
  cases hstep

/-- The elements of a range as values. -/
def rangeValues (start stop step : ℤ) : List Value :=
  (elements start stop step).map fun value => .int (RangeObjects.intValue value)

lemma length_rangeValues (start stop step : ℤ) :
    (rangeValues start stop step).length = count start stop step := by
  rw [rangeValues, List.length_map, length_elements]

lemma getElem_rangeValues {start stop step : ℤ} {i : ℕ}
    (h : i < (rangeValues start stop step).length) :
    (rangeValues start stop step)[i] = .int (RangeObjects.intValue (start + i * step)) := by
  simp only [rangeValues, List.getElem_map, getElem_elements]

/-- The loop collects the elements and stops at the first value that is none. -/
lemma rangeLoop_spec {step : BigInt} (stop : BigInt) (hstep : step.toInt ≠ 0) (cursor : BigInt) :
    ∃ last, rangeLoop stop step hstep cursor =
        some (rangeValues cursor.toInt stop.toInt step.toInt, last) ∧
      ¬ Before step.toInt last.toInt stop.toInt := by
  induction hn : count cursor.toInt stop.toInt step.toInt generalizing cursor with
  | zero =>
    have hbefore : ¬ Before step.toInt cursor.toInt stop.toInt := fun h => by
      rw [count_succ hstep h] at hn
      cases hn
    refine ⟨cursor, ?_, hbefore⟩
    rw [rangeLoop, dif_neg (hbefore ∘ (cursorBefore_iff hstep).1), rangeValues,
      elements_of_not_before hstep hbefore]
    rfl
  | succ n ih =>
    have hbefore : Before step.toInt cursor.toInt stop.toInt := by
      by_contra h
      rw [count_eq_zero hstep h] at hn
      cases hn
    obtain ⟨next, hnext, hvalue⟩ := BigInt.add_spec cursor step
    rw [count_succ hstep hbefore] at hn
    obtain ⟨last, hlast, hend⟩ := ih next (by rw [hvalue]; exact Nat.succ.inj hn)
    refine ⟨last, ?_, hend⟩
    rw [rangeLoop, dif_pos ((cursorBefore_iff hstep).2 hbefore)]
    split
    · next hnone =>
      rw [hnext] at hnone
      cases hnone
    · next other hother =>
      rw [hnext] at hother
      obtain rfl := Option.some.inj hother
      rw [hlast, hvalue, RangeObjects.bigintToValue_eq]
      simp only [rangeValues, elements_cons hstep hbefore]
      rfl

lemma next_range {stop step : BigInt} (hstep : step.toInt ≠ 0) (cursor : ℤ) :
    (Iterator.range (BigInt.ofInt cursor) stop step).next evaluate =
      .ok (if Before step.toInt cursor stop.toInt then
        (some (.int (RangeObjects.intValue cursor)),
          .range (BigInt.ofInt (cursor + step.toInt)) stop step)
      else (none, .range (BigInt.ofInt cursor) stop step)) := by
  have hcursor := BigInt.ofInt_toInt cursor
  rw [Iterator.next]
  by_cases hbefore : Before step.toInt cursor stop.toInt
  · obtain ⟨current, hcurrent, hnext⟩ := @RangeObjects.RangeIterator.next_of_before
      ⟨BigInt.ofInt cursor, stop, step⟩ hstep (by dsimp only; rwa [hcursor])
    dsimp only at hcurrent hnext
    rw [if_pos hbefore, hnext, BigInt.eq_ofInt current, hcurrent, hcursor]
    rfl
  · have hnext := @RangeObjects.RangeIterator.next_of_not_before
      ⟨BigInt.ofInt cursor, stop, step⟩ hstep (by dsimp only; rwa [hcursor])
    rw [if_neg hbefore, hnext]
    rfl

lemma exhausted_range {stop step : BigInt} (hstep : step.toInt ≠ 0) {cursor : ℤ}
    (h : ¬ Before step.toInt cursor stop.toInt) :
    Exhausted (Iterator.next evaluate) (.range (BigInt.ofInt cursor) stop step) := by
  have hnext := @next_range _ evaluate stop _ hstep cursor
  rw [if_neg h] at hnext
  exact ⟨_, hnext⟩

lemma drainsAsStepped_range (current stop step : BigInt) :
    DrainsAsStepped evaluate (.range current stop step) ↔ step.isZero = false := by
  by_cases hzero : step.isZero = true
  · refine iff_of_false ?_ (by simp [hzero])
    rintro ⟨values, last, drained, hdrain, -⟩
    rw [Iterator.drain, dif_pos hzero] at hdrain
    cases hdrain
  · have hstep := hzero ∘ BigInt.isZero_iff.2
    refine iff_of_true ?_ (Bool.eq_false_iff.2 hzero)
    obtain ⟨cursor, hloop, hcursor⟩ := rangeLoop_spec stop hstep current
    let position (i : ℕ) : Iterator ω :=
      .range (BigInt.ofInt (current.toInt + i * step.toInt)) stop step
    have hfirst : position 0 = .range current stop step := by
      simp only [position, Nat.cast_zero, zero_mul, add_zero, ← BigInt.eq_ofInt]
    have hitems : ∀ i (h : i < (rangeValues current.toInt stop.toInt step.toInt).length),
        (position i).next evaluate =
          .ok (some (rangeValues current.toInt stop.toInt step.toInt)[i], position (i + 1)) := by
      intro i h
      rw [length_rangeValues] at h
      simp only [position]
      rw [next_range evaluate hstep, if_pos ((lt_count_iff hstep).1 h), getElem_rangeValues,
        Nat.cast_add, Nat.cast_one, add_mul, one_mul, add_assoc]
    have hend : Exhausted (Iterator.next evaluate)
        (position (max 0 (rangeValues current.toInt stop.toInt step.toInt).length)) := by
      rw [Nat.zero_max, length_rangeValues]
      exact exhausted_range evaluate hstep fun h => lt_irrefl _ ((lt_count_iff hstep).2 h)
    obtain ⟨last, hgives⟩ := gives_drop hitems 0 hend
    rw [hfirst, List.drop_zero] at hgives
    refine ⟨_, last, .range cursor stop step, ?_, hgives, ?_⟩
    · rw [Iterator.drain, dif_neg hzero, hloop]
      rfl
    · rw [BigInt.eq_ofInt cursor]
      exact exhausted_range evaluate hstep hcursor

/-! ## Range objects -/

lemma advance_spec (step : BigInt) (n : ℕ) (cursor : BigInt) :
    ∃ last, advance step n cursor = some last ∧
      last.toInt = cursor.toInt + n * step.toInt := by
  induction n generalizing cursor with
  | zero => exact ⟨cursor, rfl, by simp⟩
  | succ n ih =>
    obtain ⟨next, hnext, hvalue⟩ := BigInt.add_spec cursor step
    obtain ⟨last, hlast, hlastValue⟩ := ih next
    refine ⟨last, ?_, ?_⟩
    · rw [advance, hnext]
      exact hlast
    · rw [hlastValue, hvalue, Nat.cast_add, Nat.cast_one, add_mul, one_mul, add_assoc,
        add_comm step.toInt]

lemma next_rangeObject {step : BigInt} (start stop : BigInt) (hzero : step.isZero = false)
    (index : UInt64) :
    (Iterator.rangeObject start stop step index).next evaluate =
      .ok (if index.toNat < count start.toInt stop.toInt step.toInt then
        (some (.int (RangeObjects.intValue (start.toInt + index.toNat * step.toInt))),
          .rangeObject start stop step (UInt64.ofNat (min (index.toNat + 1) usizeMax)))
      else (none, .rangeObject start stop step index)) := by
  have hstep := step_toInt_ne_zero hzero
  obtain ⟨offset, hoffset, hoffsetValue⟩ := BigInt.mul_spec step (BigInt.fromU64 index)
  obtain ⟨current, hcurrent, hcurrentValue⟩ := BigInt.add_spec start offset
  rw [hoffsetValue, BigInt.fromU64_toInt, mul_comm] at hcurrentValue
  have hdone := RangeObjects.RangeIterator.done_iff ⟨current, stop, step⟩ hstep
  dsimp only at hdone
  rw [hcurrentValue] at hdone
  rw [Iterator.next, if_neg (by simp [hzero]), hoffset, okOrElse, Results.ok_bind, hcurrent,
    okOrElse, Results.ok_bind]
  dsimp only
  by_cases hlt : index.toNat < count start.toInt stop.toInt step.toInt
  · rw [if_pos hlt, if_neg (not_not.2 ((lt_count_iff hstep).1 hlt) ∘ hdone.1),
      RangeObjects.bigintToValue_eq, hcurrentValue]
    rfl
  · rw [if_neg hlt, if_pos (hdone.2 (hlt ∘ (lt_count_iff hstep).2))]
    rfl

/-- The elements of a range from one of its positions on. -/
lemma rangeValues_drop {start stop step : ℤ} (hstep : step ≠ 0) (k : ℕ) :
    rangeValues (start + k * step) stop step = (rangeValues start stop step).drop k := by
  have hshift : ∀ i : ℕ, start + k * step + i * step = start + ((k + i : ℕ) : ℤ) * step := by
    intro i
    push_cast
    ring
  have hcount : count (start + k * step) stop step = count start stop step - k := by
    refine (count_eq_iff hstep).2 fun i => ?_
    rw [hshift, ← lt_count_iff hstep]
    omega
  refine List.ext_getElem ?_ fun i h h' => ?_
  · rw [List.length_drop, length_rangeValues, length_rangeValues, hcount]
  · rw [List.getElem_drop, getElem_rangeValues, getElem_rangeValues, hshift]

/-- A range must have no more elements than an index can count. -/
lemma drainsAsStepped_rangeObject (start stop step : BigInt) (index : UInt64) :
    DrainsAsStepped evaluate (.rangeObject start stop step index) ↔
      step.isZero = false ∧ count start.toInt stop.toInt step.toInt ≤ usizeMax := by
  have husize : usizeMax = 2 ^ 64 - 1 := rfl
  by_cases hzero : step.isZero = true
  · refine iff_of_false ?_ (by simp [hzero])
    rintro ⟨values, last, drained, hdrain, -⟩
    rw [Iterator.drain, dif_pos hzero] at hdrain
    cases hdrain
  have hfalse := Bool.eq_false_iff.2 hzero
  have hstep := step_toInt_ne_zero hfalse
  have hnext := next_rangeObject evaluate start stop hfalse
  rw [and_iff_right hfalse]
  have hwidth : UInt64.size = 2 ^ 64 := rfl
  by_cases hsize : count start.toInt stop.toInt step.toInt ≤ usizeMax
  · refine iff_of_true ?_ hsize
    have hend : ∀ position : ℕ, count start.toInt stop.toInt step.toInt ≤ position →
        position ≤ usizeMax → Exhausted (Iterator.next evaluate)
          (.rangeObject start stop step (UInt64.ofNat position)) := by
      intro position hle hmax
      refine ⟨.rangeObject start stop step (UInt64.ofNat position), ?_⟩
      rw [hnext, UInt64.toNat_ofNat_of_lt' (by omega), if_neg (Nat.not_lt.2 hle)]
    obtain ⟨cursor, hcursor, hcursorValue⟩ := advance_spec step index.toNat start
    obtain ⟨behind, hloop, -⟩ := rangeLoop_spec stop hstep cursor
    rw [hcursorValue, rangeValues_drop hstep] at hloop
    have hitems : ∀ i (h : i < (rangeValues start.toInt stop.toInt step.toInt).length),
        (Iterator.rangeObject start stop step (UInt64.ofNat i)).next evaluate =
          .ok (some (rangeValues start.toInt stop.toInt step.toInt)[i],
            .rangeObject start stop step (UInt64.ofNat (i + 1))) := by
      intro i h
      rw [length_rangeValues] at h
      have hposition : (UInt64.ofNat i).toNat = i := UInt64.toNat_ofNat_of_lt' (by omega)
      rw [hnext, hposition, if_pos h, getElem_rangeValues, Nat.min_eq_left (by omega)]
    have hindex := index.toNat_lt
    obtain ⟨last, hgives⟩ := gives_drop hitems index.toNat (by
      rw [length_rangeValues]
      exact hend _ (Nat.le_max_right _ _) (by omega))
    rw [UInt64.ofNat_toNat] at hgives
    refine ⟨_, last, _, ?_, hgives, hend (min (index.toNat +
      ((rangeValues start.toInt stop.toInt step.toInt).drop index.toNat).length) usizeMax) ?_
      (Nat.min_le_right _ _)⟩
    · rw [Iterator.drain, dif_neg hzero, hcursor, okOrElse, Results.ok_bind, hloop]
      rfl
    · rw [List.length_drop, length_rangeValues]
      omega
  · refine iff_of_false ?_ hsize
    rintro ⟨values, last, drained, -, hgives, -⟩
    have hall : ∀ state : Iterator ω, (∃ position, state = .rangeObject start stop step position) →
        ∃ value later, state.next evaluate = .ok (some value, later) ∧
          ∃ position, later = .rangeObject start stop step position := by
      rintro state ⟨position, rfl⟩
      have hlt := position.toNat_lt
      have hvalue := hnext position
      rw [if_pos (by omega)] at hvalue
      exact ⟨_, _, hvalue, _, rfl⟩
    exact not_gives_of_forall hall ⟨index, rfl⟩ hgives

/-! ## All kinds -/

/-- Where the payload takes what `next` would have given. -/
def Iterator.Drainable : Iterator ω → Prop
  | listReverse items nextIndex => nextIndex < items.length
  | memoryView view _ index => BytewiseFrom view index
  | map _ exhausted world _ => exhausted = true ∨ ∃ later, evaluate world = .ok (none, later)
  | range _ _ step => step.isZero = false
  | rangeObject start stop step _ =>
    step.isZero = false ∧ count start.toInt stop.toInt step.toInt ≤ usizeMax
  | _ => True

/-- **A drained iterator gives what stepping would have given**, and is then at its end, exactly
where its kind allows it. -/
theorem drainsAsStepped_iff (iterator : Iterator ω) :
    DrainsAsStepped evaluate iterator ↔ iterator.Drainable evaluate := by
  cases iterator with
  | list items index =>
    exact iff_of_true (drainsAsStepped_sequence evaluate (fun _ => rfl) rfl) trivial
  | listReverse items nextIndex => exact drainsAsStepped_listReverse evaluate items nextIndex
  | tuple items index =>
    exact iff_of_true (drainsAsStepped_sequence evaluate (fun _ => rfl) rfl) trivial
  | bytes items index =>
    exact iff_of_true (drainsAsStepped_sequence evaluate (fun _ => rfl) rfl) trivial
  | byteArray items index =>
    exact iff_of_true (drainsAsStepped_sequence evaluate (fun _ => rfl) rfl) trivial
  | memoryView view hsource index =>
    exact drainsAsStepped_memoryView evaluate view hsource index
  | map values exhausted world index =>
    exact drainsAsStepped_map evaluate values exhausted world index
  | range current stop step => exact drainsAsStepped_range evaluate current stop step
  | rangeObject start stop step index =>
    exact drainsAsStepped_rangeObject evaluate start stop step index
  | set items index =>
    exact iff_of_true (drainsAsStepped_sequence evaluate (fun _ => rfl) (drain_set items index))
      trivial
  | str text index =>
    exact iff_of_true (drainsAsStepped_sequence evaluate (fun _ => rfl) rfl) trivial

/-- A list of three values is emptied under its reversed iterator: the drain panics where `next` is
at its end. -/
theorem drain_emptiedReversed :
    (Iterator.listReverse [] 2 : Iterator Unit).drain = .error .panicked ∧
      (Iterator.listReverse [] 2 : Iterator Unit).next (fun _ => .ok (none, ())) =
        .ok (none, .listReverse [] (-1)) :=
  ⟨rfl, rfl⟩

end IteratorPayloads

end Pyrs
