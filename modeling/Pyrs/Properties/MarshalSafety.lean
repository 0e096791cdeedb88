import Pyrs.Model.Marshal

/-!
# Safety of the marshal reader

A length of the input is an `i32`, and a negative one is a size near `2 ^ 64`: the vector of a
container has no room for so many items, and the end of a byte sequence overflows unless the
sequence starts near the front of the input.  Nothing else in the reader can go wrong but by an
error.
-/

namespace Pyrs

open Decoding

namespace MarshalSafety

/-! ## Decoders that do not fail -/

/-- A decoder ends in neither a value nor an error of the program. -/
def Fails {α : Type} (decoder : Read α) (reader : MarshalReader) : Prop :=
  decoder reader = .error .panic ∨ decoder reader = .error .outOfFuel

/-- A cursor in a slice of bytes. -/
structure Valid (reader : MarshalReader) : Prop where
  offset_le : reader.offset ≤ reader.data.length
  length_lt : reader.data.length < 2 ^ 63

/-- A cursor that has moved on in the same bytes. -/
structure Follows (reader next : MarshalReader) : Prop where
  data_eq : next.data = reader.data
  le : reader.offset ≤ next.offset
  offset_le : reader.offset ≤ reader.data.length → next.offset ≤ next.data.length

def Advances {α : Type} (decoder : Read α) : Prop :=
  ∀ reader value next, decoder reader = .ok (value, next) → Follows reader next

def Total {α : Type} (decoder : Read α) : Prop := ∀ reader, Valid reader → ¬Fails decoder reader

variable {α β : Type} {reader next last : MarshalReader}

lemma Follows.refl (reader : MarshalReader) : Follows reader reader := ⟨rfl, le_rfl, id⟩

lemma Follows.trans (h : Follows reader next) (h' : Follows next last) : Follows reader last :=
  ⟨h'.data_eq.trans h.data_eq, h.le.trans h'.le, fun hle => h'.offset_le (h.offset_le hle)⟩

lemma Follows.valid (h : Follows reader next) (hvalid : Valid reader) : Valid next :=
  ⟨h.offset_le hvalid.offset_le, h.data_eq ▸ hvalid.length_lt⟩

lemma bind_apply (decoder : Read α) (rest : α → Read β) (reader : MarshalReader) :
    (decoder >>= rest) reader = (decoder reader >>= fun result => rest result.1 result.2) := rfl

lemma bind_eq_ok {decoder : Read α} {rest : α → Read β} {value : β}
    (h : (decoder >>= rest) reader = .ok (value, last)) :
    ∃ first next, decoder reader = .ok (first, next) ∧ rest first next = .ok (value, last) := by
  rw [bind_apply] at h
  cases hfirst : decoder reader with
  | error error => rw [hfirst] at h; cases h
  | ok result => rw [hfirst] at h; exact ⟨result.1, result.2, rfl, h⟩

lemma fails_bind {decoder : Read α} {rest : α → Read β} :
    Fails (decoder >>= rest) reader ↔
      Fails decoder reader ∨ ∃ first next, decoder reader = .ok (first, next) ∧
        Fails (rest first) next := by
  constructor
  · intro h
    rw [Fails, bind_apply] at h
    cases hfirst : decoder reader with
    | error error =>
      rw [hfirst] at h
      rcases h with h | h
      · cases h
        exact .inl (.inl hfirst)
      · cases h
        exact .inl (.inr hfirst)
    | ok result =>
      rw [hfirst] at h
      exact .inr ⟨result.1, result.2, rfl, h⟩
  · rintro (h | ⟨first, next, hfirst, h⟩)
    · rw [Fails, bind_apply]
      rcases h with h | h
      · exact .inl (by rw [h]; rfl)
      · exact .inr (by rw [h]; rfl)
    · rw [Fails, bind_apply, hfirst]
      exact h

lemma not_fails_pure (value : α) : ¬Fails (pure value : Read α) reader := by
  rintro (h | h) <;> cases h

lemma not_fails_fail (text : String) : ¬Fails (Read.fail text : Read α) reader := by
  rintro (h | h) <;> cases h

lemma Advances.pure (value : α) : Advances (pure value : Read α) := by
  intro reader _ next h
  cases h
  exact .refl reader

lemma Advances.fail (text : String) : Advances (Read.fail text : Read α) := by
  intro reader _ next h
  cases h

lemma Advances.throw (error : MarshalError) : Advances (throw error : Read α) := by
  intro reader _ next h
  cases h

lemma Advances.bind {decoder : Read α} {rest : α → Read β} (h : Advances decoder)
    (hrest : ∀ value, Advances (rest value)) : Advances (decoder >>= rest) := by
  intro reader value last hrun
  obtain ⟨first, next, hfirst, hlast⟩ := bind_eq_ok hrun
  exact (h _ _ _ hfirst).trans (hrest _ _ _ _ hlast)

lemma Total.pure (value : α) : Total (pure value : Read α) := fun _ _ => not_fails_pure value

lemma Total.fail (text : String) : Total (Read.fail text : Read α) :=
  fun _ _ => not_fails_fail text

lemma Total.bind {decoder : Read α} {rest : α → Read β} (h : Total decoder)
    (hadvances : Advances decoder) (hrest : ∀ value, Total (rest value)) :
    Total (decoder >>= rest) := by
  intro reader hvalid hfails
  rcases fails_bind.1 hfails with hfirst | ⟨first, next, hfirst, hfails⟩
  · exact h reader hvalid hfirst
  · exact hrest first next ((hadvances _ _ _ hfirst).valid hvalid) hfails

/-- Behind a decoder that is total only the rest can fail. -/
lemma Total.fails_bind {decoder : Read α} {rest : α → Read β} (h : Total decoder)
    (hvalid : Valid reader) :
    Fails (decoder >>= rest) reader ↔
      ∃ first next, decoder reader = .ok (first, next) ∧ Fails (rest first) next := by
  rw [MarshalSafety.fails_bind]
  exact or_iff_right (h reader hvalid)

/-- A rest that is total does not fail. -/
lemma fails_bind_total {decoder : Read α} {rest : α → Read β} (hadvances : Advances decoder)
    (hrest : ∀ value, Total (rest value)) (hvalid : Valid reader) :
    Fails (decoder >>= rest) reader ↔ Fails decoder reader := by
  rw [MarshalSafety.fails_bind]
  refine or_iff_left ?_
  rintro ⟨first, next, hfirst, hfails⟩
  exact hrest first next ((hadvances _ _ _ hfirst).valid hvalid) hfails

/-! ## Bytes -/

lemma readU8_eq (reader : MarshalReader) :
    readU8 reader = match reader.data[reader.offset]? with
      | some byte => .ok (byte, { reader with offset := reader.offset + 1 })
      | none => .error (.message "unexpected end of data") := by
  show (match reader.data[reader.offset]? with
    | some byte => (do set { reader with offset := reader.offset + 1 }; return byte : Read UInt8)
    | none => Read.fail "unexpected end of data") reader = _
  cases reader.data[reader.offset]? with
  | none => rfl
  | some byte => rfl

lemma readU8_advances : Advances readU8 := by
  intro reader value next h
  rw [readU8_eq] at h
  split at h
  · next byte hbyte =>
    cases h
    have hlt := (List.getElem?_eq_some_iff.1 hbyte).1
    exact ⟨rfl, Nat.le_succ _, fun _ => hlt⟩
  · cases h

lemma readU8_total : Total readU8 := by
  intro reader _ hfails
  rw [Fails, readU8_eq] at hfails
  split at hfails <;> rcases hfails with h | h <;> cases h

lemma readExact_eq (size : ℕ) (reader : MarshalReader) :
    readExact size reader =
      if reader.offset + size ≤ reader.data.length then
        .ok ((reader.data.drop reader.offset).take size,
          { reader with offset := reader.offset + size })
      else if 2 ^ 64 ≤ reader.offset + size then .error .panic
      else .error (.message "unexpected end of data") := by
  show (if reader.offset + size ≤ reader.data.length then (do
      set { reader with offset := reader.offset + size }
      return (reader.data.drop reader.offset).take size : Read (List UInt8))
    else if 2 ^ 64 ≤ reader.offset + size then throw .panic
    else Read.fail "unexpected end of data") reader = _
  split
  · rfl
  · split
    · rfl
    · rfl

lemma readExact_advances (size : ℕ) : Advances (readExact size) := by
  intro reader value next h
  rw [readExact_eq] at h
  split at h
  · next hle =>
    cases h
    exact ⟨rfl, Nat.le_add_right _ _, fun _ => hle⟩
  · split at h <;> cases h

/-- The end of a slice overflows from the size of the machine words on. -/
lemma fails_readExact {size : ℕ} (hvalid : Valid reader) :
    Fails (readExact size) reader ↔ 2 ^ 64 ≤ reader.offset + size := by
  have hlength := hvalid.length_lt
  rw [Fails, readExact_eq]
  split
  · refine iff_of_false ?_ (by omega)
    rintro (h | h) <;> cases h
  · split
    · next hoverflow => exact iff_of_true (.inl rfl) hoverflow
    · next hfits =>
      refine iff_of_false ?_ hfits
      rintro (h | h) <;> cases h

lemma readExact_total {size : ℕ} (h : size < 2 ^ 32) : Total (readExact size) := by
  intro reader hvalid hfails
  have hle := hvalid.offset_le
  have hlt := hvalid.length_lt
  have := (fails_readExact hvalid).1 hfails
  omega

lemma readI32_advances : Advances readI32 := (readExact_advances 4).bind fun _ => .pure _

lemma readI32_total : Total readI32 :=
  (readExact_total (by norm_num)).bind (readExact_advances 4) fun _ => .pure _

lemma readU16_advances : Advances readU16 := (readExact_advances 2).bind fun _ => .pure _

lemma readU16_total : Total readU16 :=
  (readExact_total (by norm_num)).bind (readExact_advances 2) fun _ => .pure _

lemma readF64_advances : Advances readF64 := (readExact_advances 8).bind fun _ => .pure _

lemma readF64_total : Total readF64 :=
  (readExact_total (by norm_num)).bind (readExact_advances 8) fun _ => .pure _

lemma readTimes_advances {read : Read α} (h : Advances read) (count : ℕ) :
    Advances (readTimes read count) := by
  induction count with
  | zero => exact .pure []
  | succ count ih => exact h.bind fun _ => ih.bind fun _ => .pure _

lemma readTimes_total {read : Read α} (h : Total read) (hadvances : Advances read) (count : ℕ) :
    Total (readTimes read count) := by
  induction count with
  | zero => exact .pure []
  | succ count ih =>
    exact h.bind hadvances fun _ => ih.bind (readTimes_advances hadvances count) fun _ => .pure _

lemma decodeUtf8_advances (bytes : List UInt8) (message : String) :
    Advances (decodeUtf8 bytes message) := by
  rw [decodeUtf8]
  split
  · exact .pure _
  · exact .fail _

lemma decodeUtf8_total (bytes : List UInt8) (message : String) :
    Total (decodeUtf8 bytes message) := by
  rw [decodeUtf8]
  split
  · exact .pure _
  · exact .fail _

lemma usizeOfU8_lt (value : UInt8) : usizeOfU8 value < 2 ^ 32 :=
  value.toNat_lt.trans (by norm_num)

/-! ## Lengths -/

/-- A negative length is a size near `2 ^ 64`. -/
lemma usizeOfI32_eq (length : Int32) :
    0 ≤ length.toInt ∧ usizeOfI32 length < 2 ^ 31 ∨
      length.toInt < 0 ∧ (usizeOfI32 length : ℤ) = 2 ^ 64 + length.toInt ∧
        2 ^ 63 ≤ usizeOfI32 length := by
  have hlow := length.le_toInt
  have hhigh := length.toInt_lt
  rw [usizeOfI32]
  omega

lemma readBytesLong_advances : Advances readBytesLong :=
  readI32_advances.bind fun _ => readExact_advances _

/-- The end of a byte sequence overflows where its negative length does not reach back before the
front of the input. -/
lemma fails_readBytesLong (hvalid : Valid reader) :
    Fails readBytesLong reader ↔ ∃ length bytes, readI32 reader = .ok (length, bytes) ∧
      length.toInt < 0 ∧ -length.toInt ≤ bytes.offset := by
  rw [readBytesLong, readI32_total.fails_bind hvalid]
  refine exists_congr fun length => exists_congr fun bytes => and_congr_right fun hlength => ?_
  have hbytes := (readI32_advances _ _ _ hlength).valid hvalid
  have hle := hbytes.offset_le
  have hlt := hbytes.length_lt
  rw [fails_readExact hbytes]
  rcases usizeOfI32_eq length with ⟨hpos, hsize⟩ | ⟨hneg, hsize, -⟩
  · omega
  · omega

/-! ## Fields -/

/-- What a record is made of. -/
inductive Field
  | object
  | number

/-- A record is read field for field. -/
def readFields (read : Read PyObject) (rest : List PyObject → List Int32 → Read β) :
    List Field → List PyObject → List Int32 → Read β
  | [], objects, numbers => rest objects numbers
  | .object :: fields, objects, numbers => do
    let object ← read
    readFields read rest fields (objects ++ [object]) numbers
  | .number :: fields, objects, numbers => do
    let number ← readI32
    readFields read rest fields objects (numbers ++ [number])

/-- The reader of a record starts to read one of its objects. -/
inductive FieldStart (read : Read PyObject) : List Field → MarshalReader → MarshalReader → Prop
  | here {fields : List Field} {reader : MarshalReader} :
      FieldStart read (.object :: fields) reader reader
  | object {fields : List Field} {reader next last : MarshalReader} {value : PyObject}
      (hread : read reader = .ok (value, next)) (h : FieldStart read fields next last) :
      FieldStart read (.object :: fields) reader last
  | number {fields : List Field} {reader next last : MarshalReader} {value : Int32}
      (hread : readI32 reader = .ok (value, next)) (h : FieldStart read fields next last) :
      FieldStart read (.number :: fields) reader last

variable {read : Read PyObject}

lemma fieldStart_nil : ¬FieldStart read [] reader last := by
  intro h
  cases h

/-- A record fails where one of its objects fails. -/
lemma fieldStart_object {fields : List Field} :
    (∃ last, FieldStart read (.object :: fields) reader last ∧ Fails read last) ↔
      Fails read reader ∨ ∃ value next, read reader = .ok (value, next) ∧
        ∃ last, FieldStart read fields next last ∧ Fails read last := by
  constructor
  · rintro ⟨last, h, hfails⟩
    cases h with
    | here => exact .inl hfails
    | object hread h => exact .inr ⟨_, _, hread, last, h, hfails⟩
  · rintro (hfails | ⟨value, next, hread, last, h, hfails⟩)
    · exact ⟨reader, .here, hfails⟩
    · exact ⟨last, .object hread h, hfails⟩

lemma fieldStart_number {fields : List Field} :
    (∃ last, FieldStart read (.number :: fields) reader last ∧ Fails read last) ↔
      ∃ value next, readI32 reader = .ok (value, next) ∧
        ∃ last, FieldStart read fields next last ∧ Fails read last := by
  constructor
  · rintro ⟨last, h, hfails⟩
    cases h with
    | number hread h => exact ⟨_, _, hread, last, h, hfails⟩
  · rintro ⟨value, next, hread, last, h, hfails⟩
    exact ⟨last, .number hread h, hfails⟩

lemma fails_readFields (hadvances : Advances read) {rest : List PyObject → List Int32 → Read β}
    (hrest : ∀ objects numbers, Total (rest objects numbers)) {fields : List Field}
    {objects : List PyObject} {numbers : List Int32} (hvalid : Valid reader) :
    Fails (readFields read rest fields objects numbers) reader ↔
      ∃ last, FieldStart read fields reader last ∧ Fails read last := by
  induction fields generalizing objects numbers reader with
  | nil =>
    refine iff_of_false (hrest objects numbers reader hvalid) ?_
    rintro ⟨last, h, -⟩
    exact fieldStart_nil h
  | cons field fields ih =>
    cases field with
    | object =>
      rw [readFields, fails_bind, fieldStart_object]
      refine or_congr_right (exists_congr fun value => exists_congr fun next =>
        and_congr_right fun hread => ih ?_)
      exact (hadvances _ _ _ hread).valid hvalid
    | number =>
      rw [readFields, readI32_total.fails_bind hvalid, fieldStart_number]
      refine exists_congr fun value => exists_congr fun next => and_congr_right fun hread => ih ?_
      exact (readI32_advances _ _ _ hread).valid hvalid

lemma fails_readTimes (hadvances : Advances read) {count : ℕ} (hvalid : Valid reader) :
    Fails (readTimes read count) reader ↔
      ∃ last, FieldStart read (List.replicate count .object) reader last ∧ Fails read last := by
  induction count generalizing reader with
  | zero =>
    refine iff_of_false (not_fails_pure _) ?_
    rintro ⟨last, h, -⟩
    exact fieldStart_nil h
  | succ count ih =>
    rw [readTimes, fails_bind, List.replicate_succ, fieldStart_object]
    refine or_congr_right (exists_congr fun value => exists_congr fun next =>
      and_congr_right fun hread => ?_)
    have hnext := (hadvances _ _ _ hread).valid hvalid
    rw [fails_bind_total (readTimes_advances hadvances count) (fun _ => .pure _) hnext, ih hnext]

/-- A vector has room for the items that a positive length counts. -/
lemma fails_readSequence (hadvances : Advances read) {length : Int32} (hvalid : Valid reader) :
    Fails (readSequence read (usizeOfI32 length)) reader ↔
      length.toInt < 0 ∨ 0 ≤ length.toInt ∧
        ∃ last, FieldStart read (List.replicate (usizeOfI32 length) .object) reader last ∧
          Fails read last := by
  rw [readSequence]
  rcases usizeOfI32_eq length with ⟨hpos, hsize⟩ | ⟨hneg, -, hsize⟩
  · rw [if_neg (by omega), fails_readTimes hadvances hvalid]
    refine ⟨fun h => .inr ⟨hpos, h⟩, ?_⟩
    rintro (hneg | ⟨-, h⟩)
    · exact absurd hneg (not_lt.2 hpos)
    · exact h
  · rw [if_pos hsize]
    exact iff_of_true (.inl rfl) (.inl hneg)

/-! ## Entries -/

/-- The reader of a dict starts to read a key or a value. -/
inductive EntryStart (read : Read PyObject) : MarshalReader → MarshalReader → Prop
  | key {reader : MarshalReader} : EntryStart read reader reader
  | value {reader next : MarshalReader} {key : PyObject} (hkey : read reader = .ok (key, next))
      (hnull : key ≠ .null) : EntryStart read reader next
  | entry {reader next rest last : MarshalReader} {key value : PyObject}
      (hkey : read reader = .ok (key, next)) (hnull : key ≠ .null)
      (hvalue : read next = .ok (value, rest)) (h : EntryStart read rest last) :
      EntryStart read reader last

/-- What a round of the loop does behind a key. -/
lemma readEntries_succ (fuel : ℕ) : readEntries read (fuel + 1) = do
    let key ← read
    match key with
    | .null => return []
    | key => do
      let value ← read
      return (key, value) :: (← readEntries read fuel) := rfl

lemma readEntries_advances (hadvances : Advances read) (fuel : ℕ) :
    Advances (readEntries read fuel) := by
  induction fuel with
  | zero => exact .throw _
  | succ fuel ih =>
    rw [readEntries_succ]
    refine hadvances.bind fun key => ?_
    split
    · exact .pure _
    · exact hadvances.bind fun _ => ih.bind fun _ => .pure _

/-- The rounds of the loop are enough, because a key takes a byte. -/
lemma fails_readEntries (hadvances : Advances read)
    (hstrict : ∀ reader value next, read reader = .ok (value, next) → reader.offset < next.offset)
    {fuel : ℕ} (hvalid : Valid reader) (hfuel : reader.data.length - reader.offset < fuel) :
    Fails (readEntries read fuel) reader ↔
      ∃ last, EntryStart read reader last ∧ Fails read last := by
  induction fuel generalizing reader with
  | zero => exact absurd hfuel (Nat.not_lt_zero _)
  | succ fuel ih =>
    rw [readEntries_succ, fails_bind]
    by_cases hfirst : Fails read reader
    · exact iff_of_true (.inl hfirst) ⟨reader, .key, hfirst⟩
    rw [or_iff_right hfirst]
    -- what is left of the bytes behind a key and its value is enough for the other rounds
    have hrest : ∀ {key value : PyObject} {next rest : MarshalReader},
        read reader = .ok (key, next) → read next = .ok (value, rest) →
        (Fails (readEntries read fuel) rest ↔
          ∃ last, EntryStart read rest last ∧ Fails read last) := by
      intro key value next rest hkey hvalue
      have hnext := (hadvances _ _ _ hkey).valid hvalid
      have hlast := (hadvances _ _ _ hvalue).valid hnext
      have hdata := (hadvances _ _ _ hvalue).data_eq.trans (hadvances _ _ _ hkey).data_eq
      have hkeyLt := hstrict _ _ _ hkey
      have hvalueLt := hstrict _ _ _ hvalue
      have hle := hlast.offset_le
      rw [hdata] at hle
      exact ih hlast (by rw [hdata]; omega)
    constructor
    · rintro ⟨key, next, hkey, hfails⟩
      by_cases hnull : key = .null
      · subst hnull
        exact absurd hfails (not_fails_pure _)
      have hround : Fails (read >>= fun value => readEntries read fuel >>= fun entries =>
          pure ((key, value) :: entries)) next := by
        cases key with
        | null => exact absurd rfl hnull
        | _ => exact hfails
      rcases fails_bind.1 hround with hvalue | ⟨value, rest, hvalue, hfails⟩
      · exact ⟨next, .value hkey hnull, hvalue⟩
      · have hnext := (hadvances _ _ _ hkey).valid hvalid
        rw [fails_bind_total (readEntries_advances hadvances fuel) (fun _ => .pure _)
          ((hadvances _ _ _ hvalue).valid hnext), hrest hkey hvalue] at hfails
        obtain ⟨last, hlast, hfails⟩ := hfails
        exact ⟨last, .entry hkey hnull hvalue hlast, hfails⟩
    · rintro ⟨last, h, hfails⟩
      have hround : ∀ {key : PyObject} {next : MarshalReader}, read reader = .ok (key, next) →
          key ≠ .null → Fails (read >>= fun value => readEntries read fuel >>= fun entries =>
            pure ((key, value) :: entries)) next → ∃ key next, read reader = .ok (key, next) ∧
          Fails (match key with
            | .null => return []
            | key => do
              let value ← read
              return (key, value) :: (← readEntries read fuel) : Read _) next := by
        intro key next hkey hnull hfails
        refine ⟨key, next, hkey, ?_⟩
        cases key with
        | null => exact absurd rfl hnull
        | _ => exact hfails
      cases h with
      | key => exact absurd hfails hfirst
      | value hkey hnull => exact hround hkey hnull (fails_bind.2 (.inl hfails))
      | entry hkey hnull hvalue h =>
        refine hround hkey hnull (fails_bind.2 (.inr ⟨_, _, hvalue, ?_⟩))
        exact fails_bind.2 (.inl ((hrest hkey hvalue).2 ⟨last, h, hfails⟩))

/-! ## Objects -/

/-- What a code object is made of. -/
def codeFields : List Field :=
  List.replicate 5 .number ++ List.replicate 8 .object ++ [.number] ++ List.replicate 2 .object

/-- The reader of a value starts to read an object that is part of it. -/
def ObjectStart (allowCode : Bool) (read : Read PyObject) (type : Char)
    (reader last : MarshalReader) : Prop :=
  match type with
  | '(' | '[' | '<' | '>' => ∃ length items, readI32 reader = .ok (length, items) ∧
      0 ≤ length.toInt ∧ FieldStart read (List.replicate (usizeOfI32 length) .object) items last
  | ')' => ∃ length items, readU8 reader = .ok (length, items) ∧
      FieldStart read (List.replicate (usizeOfU8 length) .object) items last
  | '{' => EntryStart read reader last
  | 'c' => allowCode = true ∧ FieldStart read codeFields reader last
  | ':' => FieldStart read (List.replicate 3 .object) reader last
  | _ => False

/-- A value starts with a length that overflows: any negative one for a container, and for a byte
sequence or a string one that does not reach back before the front of the input. -/
def NegativeLength (type : Char) (reader : MarshalReader) : Prop :=
  match type with
  | '(' | '[' | '<' | '>' => ∃ length items, readI32 reader = .ok (length, items) ∧ length.toInt < 0
  | 's' | 'a' | 'A' | 'u' | 't' => ∃ length bytes, readI32 reader = .ok (length, bytes) ∧
      length.toInt < 0 ∧ -length.toInt ≤ bytes.offset
  | _ => False

/-- The fields of a code object, once all of them are read. -/
def codeOf : List PyObject → List Int32 → Read PyObject
  | [code, consts, names, localsplusnames, localspluskinds, filename, name, qualname, linetable,
      exceptiontable], [argcount, posonlyargcount, kwonlyargcount, stacksize, flags, firstlineno] => do
    let code ← asBytes "code object missing bytes" code
    let consts ← asItems "code consts must be tuple/list" consts
    let names ← parseStrList (← asItems "code names must be tuple/list" names)
    let localsplusnames ←
      parseStrList (← asItems "localsplusnames must be tuple/list" localsplusnames)
    let localspluskinds ← asBytes "localspluskinds must be bytes" localspluskinds
    let filename ← asStr "filename must be string" filename
    let name ← asStr "name must be string" name
    let qualname ← asStr "qualname must be string" qualname
    let linetable ← asBytes "linetable must be bytes" linetable
    let exceptiontable ← asBytes "exceptiontable must be bytes" exceptiontable
    return .code
      { argcount, posonlyargcount, kwonlyargcount, stacksize, flags, code, consts, names,
        localsplusnames, localspluskinds, filename, name, qualname, firstlineno, linetable,
        exceptiontable }
  | _, _ => Read.fail "code object"

lemma readCode_eq : readCode read = readFields read codeOf codeFields [] [] := rfl

/-- A decoder that only looks at what was read. -/
structure Inspects (decoder : Read α) : Prop where
  total : Total decoder
  advances : Advances decoder

lemma Inspects.pure (value : α) : Inspects (pure value : Read α) := ⟨.pure value, .pure value⟩

lemma Inspects.fail (text : String) : Inspects (Read.fail text : Read α) :=
  ⟨.fail text, .fail text⟩

lemma Inspects.bind {decoder : Read α} {rest : α → Read β} (h : Inspects decoder)
    (hrest : ∀ value, Inspects (rest value)) : Inspects (decoder >>= rest) :=
  ⟨h.total.bind h.advances fun value => (hrest value).total,
    h.advances.bind fun value => (hrest value).advances⟩

lemma asBytes_inspects (message : String) (value : PyObject) :
    Inspects (asBytes message value) := by
  unfold asBytes
  split
  · exact .pure _
  · exact .fail _

lemma asItems_inspects (message : String) (value : PyObject) :
    Inspects (asItems message value) := by
  unfold asItems
  split
  · exact .pure _
  · exact .pure _
  · exact .fail _

lemma asStr_inspects (message : String) (value : PyObject) : Inspects (asStr message value) := by
  unfold asStr
  split
  · exact .pure _
  · exact .fail _

lemma parseStrList_inspects (items : List PyObject) : Inspects (parseStrList items) := by
  induction items with
  | nil => exact .pure []
  | cons item items ih => exact (asStr_inspects _ item).bind fun _ => ih.bind fun _ => .pure _

lemma codeOf_inspects (objects : List PyObject) (numbers : List Int32) :
    Inspects (codeOf objects numbers) := by
  unfold codeOf
  split
  · exact (asBytes_inspects _ _).bind fun _ => (asItems_inspects _ _).bind fun _ =>
      (asItems_inspects _ _).bind fun _ => (parseStrList_inspects _).bind fun _ =>
      (asItems_inspects _ _).bind fun _ => (parseStrList_inspects _).bind fun _ =>
      (asBytes_inspects _ _).bind fun _ => (asStr_inspects _ _).bind fun _ =>
      (asStr_inspects _ _).bind fun _ => (asStr_inspects _ _).bind fun _ =>
      (asBytes_inspects _ _).bind fun _ => (asBytes_inspects _ _).bind fun _ => .pure _
  · exact .fail _

lemma readFields_advances (hadvances : Advances read)
    {rest : List PyObject → List Int32 → Read β}
    (hrest : ∀ objects numbers, Advances (rest objects numbers)) (fields : List Field)
    (objects : List PyObject) (numbers : List Int32) :
    Advances (readFields read rest fields objects numbers) := by
  induction fields generalizing objects numbers with
  | nil => exact hrest objects numbers
  | cons field fields ih =>
    cases field with
    | object => exact hadvances.bind fun _ => ih _ _
    | number => exact readI32_advances.bind fun _ => ih _ _

lemma readU8_inspects : Inspects readU8 := ⟨readU8_total, readU8_advances⟩

lemma readI32_inspects : Inspects readI32 := ⟨readI32_total, readI32_advances⟩

lemma readF64_inspects : Inspects readF64 := ⟨readF64_total, readF64_advances⟩

lemma readShort_inspects (length : UInt8) : Inspects (readExact (usizeOfU8 length)) :=
  ⟨readExact_total (usizeOfU8_lt length), readExact_advances _⟩

lemma decodeUtf8_inspects (bytes : List UInt8) (message : String) :
    Inspects (decodeUtf8 bytes message) :=
  ⟨decodeUtf8_total bytes message, decodeUtf8_advances bytes message⟩

lemma readStringShort_inspects : Inspects readStringShort :=
  readU8_inspects.bind fun length => (readShort_inspects length).bind fun _ =>
    decodeUtf8_inspects _ _

lemma readFloatText_inspects (parse : String → Option Binary64) :
    Inspects (readFloatText parse) := by
  refine readU8_inspects.bind fun length => (readShort_inspects length).bind fun bytes =>
    (decodeUtf8_inspects _ _).bind fun text => ?_
  split
  · exact .pure _
  · exact .fail _

lemma readLongObject_inspects : Inspects readLongObject := by
  refine readI32_inspects.bind fun n => ?_
  split
  · exact .pure _
  · refine Inspects.bind ⟨readTimes_total readU16_total readU16_advances _,
      readTimes_advances readU16_advances _⟩ fun digits => ?_
    dsimp only
    split
    · exact .pure _
    · exact .pure _

lemma get_inspects : Inspects (get : Read MarshalReader) := by
  refine ⟨fun reader _ => ?_, fun reader value next h => ?_⟩
  · rintro (h | h) <;> cases h
  · cases h
    exact .refl reader

lemma storeRef_some (value : PyObject) (index : ℕ) (reader : MarshalReader) :
    storeRef value (some index) reader =
      if reader.kept.length ≤ index then .error (.message "invalid marshal reference")
      else .ok (.unit, { reader with kept := reader.kept.set index value }) := by
  show (if reader.kept.length ≤ index then Read.fail "invalid marshal reference"
    else set { reader with kept := reader.kept.set index value } : Read PUnit) reader = _
  split
  · rfl
  · rfl

lemma readRef_inspects : Inspects readRef := by
  refine readI32_inspects.bind fun index => get_inspects.bind fun reader => ?_
  split
  · exact .pure _
  · exact .fail _

lemma storeRef_inspects (value : PyObject) (index : Option ℕ) :
    Inspects (storeRef value index) := by
  cases index with
  | none => exact .pure _
  | some index =>
    refine ⟨fun reader _ hfails => ?_, fun reader result next h => ?_⟩
    · rw [Fails, storeRef_some] at hfails
      split at hfails <;> rcases hfails with h | h <;> cases h
    · rw [storeRef_some] at h
      split at h
      · cases h
      · cases h
        exact ⟨rfl, le_rfl, id⟩

/-! ## Values -/

section

variable (parse : String → Option Binary64) {allowCode : Bool} {fuel : ℕ} {type : Char}

lemma readSequence_advances (hadvances : Advances read) (size : ℕ) :
    Advances (readSequence read size) := by
  rw [readSequence]
  split
  · exact .throw _
  · exact readTimes_advances hadvances size

lemma readValue_advances (hadvances : Advances read) :
    Advances (readValue parse allowCode read fuel type) := by
  have hitems : ∀ f : List PyObject → PyObject,
      Advances (do return f (← readSequence read (usizeOfI32 (← readI32)))) := fun f =>
    readI32_advances.bind fun _ => (readSequence_advances hadvances _).bind fun _ => .pure _
  have hstring : Advances (do return .str (← readStringLong) : Read PyObject) :=
    (readBytesLong_advances.bind fun _ => decodeUtf8_advances _ _).bind fun _ => .pure _
  have hshort : Advances (do return .str (← readStringShort) : Read PyObject) :=
    readStringShort_inspects.advances.bind fun _ => .pure _
  unfold readValue
  split
  iterate 6 exact .pure _
  · exact readI32_advances.bind fun _ => .pure _
  · exact readLongObject_inspects.advances
  · exact readF64_advances.bind fun _ => .pure _
  · exact readF64_advances.bind fun _ => readF64_advances.bind fun _ => .pure _
  · exact (readFloatText_inspects parse).advances
  · exact readBytesLong_advances.bind fun _ => .pure _
  iterate 4 exact hstring
  iterate 2 exact hshort
  · exact hitems .tuple
  · exact readU8_advances.bind fun _ => (readSequence_advances hadvances _).bind fun _ => .pure _
  · exact hitems .list
  · exact (readEntries_advances hadvances fuel).bind fun _ => .pure _
  · exact hitems .set
  · exact hitems .frozenSet
  · split
    · rw [readCode_eq]
      exact readFields_advances hadvances (fun _ _ => (codeOf_inspects _ _).advances) _ _ _
    · exact .fail _
  · exact hadvances.bind fun _ => hadvances.bind fun _ => hadvances.bind fun _ => .pure _
  · exact .fail _

/-- The value of a container fails where its length is negative or one of its items fails. -/
lemma fails_items (hadvances : Advances read) (hvalid : Valid reader)
    (f : List PyObject → PyObject) :
    Fails (do return f (← readSequence read (usizeOfI32 (← readI32)))) reader ↔
      (∃ length items, readI32 reader = .ok (length, items) ∧ length.toInt < 0) ∨
        ∃ last, (∃ length items, readI32 reader = .ok (length, items) ∧ 0 ≤ length.toInt ∧
          FieldStart read (List.replicate (usizeOfI32 length) .object) items last) ∧
            Fails read last := by
  have hround : ∀ {length next}, readI32 reader = .ok (length, next) →
      (Fails (do return f (← readSequence read (usizeOfI32 length))) next ↔
        length.toInt < 0 ∨ 0 ≤ length.toInt ∧
          ∃ last, FieldStart read (List.replicate (usizeOfI32 length) .object) next last ∧
            Fails read last) := by
    intro length next hlength
    have hnext := (readI32_advances _ _ _ hlength).valid hvalid
    rw [fails_bind_total (readSequence_advances hadvances _) (fun _ => .pure _) hnext,
      fails_readSequence hadvances hnext]
  rw [readI32_total.fails_bind hvalid]
  constructor
  · rintro ⟨length, next, hlength, hfails⟩
    rcases (hround hlength).1 hfails with hneg | ⟨hpos, last, hlast, hfails⟩
    · exact .inl ⟨length, next, hlength, hneg⟩
    · exact .inr ⟨last, ⟨length, next, hlength, hpos, hlast⟩, hfails⟩
  · rintro (⟨length, next, hlength, hneg⟩ | ⟨last, ⟨length, next, hlength, hpos, hlast⟩, hfails⟩)
    · exact ⟨length, next, hlength, (hround hlength).2 (.inl hneg)⟩
    · exact ⟨length, next, hlength, (hround hlength).2 (.inr ⟨hpos, last, hlast, hfails⟩)⟩

/-- The length of a short tuple is a byte. -/
lemma fails_fewItems (hadvances : Advances read) (hvalid : Valid reader)
    (f : List PyObject → PyObject) :
    Fails (do return f (← readSequence read (usizeOfU8 (← readU8)))) reader ↔
      ∃ last, (∃ length items, readU8 reader = .ok (length, items) ∧
        FieldStart read (List.replicate (usizeOfU8 length) .object) items last) ∧
          Fails read last := by
  have hround : ∀ {length next}, readU8 reader = .ok (length, next) →
      (Fails (do return f (← readSequence read (usizeOfU8 length))) next ↔
        ∃ last, FieldStart read (List.replicate (usizeOfU8 length) .object) next last ∧
          Fails read last) := by
    intro length next hlength
    have hnext := (readU8_advances _ _ _ hlength).valid hvalid
    have hlt := usizeOfU8_lt length
    rw [fails_bind_total (readSequence_advances hadvances _) (fun _ => .pure _) hnext,
      readSequence, if_neg (by omega), fails_readTimes hadvances hnext]
  rw [readU8_total.fails_bind hvalid]
  constructor
  · rintro ⟨length, next, hlength, hfails⟩
    obtain ⟨last, hlast, hfails⟩ := (hround hlength).1 hfails
    exact ⟨last, ⟨length, next, hlength, hlast⟩, hfails⟩
  · rintro ⟨last, ⟨length, next, hlength, hlast⟩, hfails⟩
    exact ⟨length, next, hlength, (hround hlength).2 ⟨last, hlast, hfails⟩⟩

/-- A slice is a record of its bounds. -/
lemma readSlice_eq : readSlice read = readFields read
    (fun objects _ => match objects with
      | [lower, upper, step] => return .slice (bound lower) (bound upper) (bound step)
      | _ => Read.fail "slice") (List.replicate 3 .object) [] [] := rfl

/-- A value fails where its length is negative, or where an object that is part of it fails. -/
lemma fails_readValue (hadvances : Advances read)
    (hstrict : ∀ reader value next, read reader = .ok (value, next) → reader.offset < next.offset)
    (hvalid : Valid reader) (hfuel : reader.data.length - reader.offset < fuel) :
    Fails (readValue parse allowCode read fuel type) reader ↔
      NegativeLength type reader ∨
        ∃ last, ObjectStart allowCode read type reader last ∧ Fails read last := by
  have hleaf : ∀ {decoder : Read PyObject}, Inspects decoder →
      (Fails decoder reader ↔ False ∨ ∃ last : MarshalReader, False ∧ Fails read last) :=
    fun hdecoder => iff_of_false (hdecoder.total reader hvalid) (by simp)
  have hbytes : ∀ {rest : List UInt8 → Read PyObject}, (∀ bytes, Inspects (rest bytes)) →
      (Fails (readBytesLong >>= rest) reader ↔
        (∃ length bytes, readI32 reader = .ok (length, bytes) ∧
          length.toInt < 0 ∧ -length.toInt ≤ bytes.offset) ∨
            ∃ last : MarshalReader, False ∧ Fails read last) := by
    intro rest hrest
    rw [fails_bind_total readBytesLong_advances (fun bytes => (hrest bytes).total) hvalid,
      fails_readBytesLong hvalid]
    simp
  have hstring : (Fails (do return PyObject.str (← readStringLong)) reader ↔
      (∃ length bytes, readI32 reader = .ok (length, bytes) ∧
        length.toInt < 0 ∧ -length.toInt ≤ bytes.offset) ∨
          ∃ last : MarshalReader, False ∧ Fails read last) := by
    have hassoc :
        (do return .str (← readStringLong) : Read PyObject) = readBytesLong >>= fun bytes =>
        decodeUtf8 bytes "invalid utf8" >>= fun text => pure (.str text) := by
      rw [readStringLong, bind_assoc]
    rw [hassoc]
    exact hbytes fun _ => (decodeUtf8_inspects _ _).bind fun _ => .pure _
  have hshort : Inspects (do return .str (← readStringShort) : Read PyObject) :=
    readStringShort_inspects.bind fun _ => .pure _
  unfold readValue
  split
  iterate 6 exact hleaf (.pure _)
  · exact hleaf (readI32_inspects.bind fun _ => .pure _)
  · exact hleaf readLongObject_inspects
  · exact hleaf (readF64_inspects.bind fun _ => .pure _)
  · exact hleaf (readF64_inspects.bind fun _ => readF64_inspects.bind fun _ => .pure _)
  · exact hleaf (readFloatText_inspects parse)
  · exact hbytes fun _ => .pure _
  iterate 4 exact hstring
  iterate 2 exact hleaf hshort
  · exact fails_items hadvances hvalid .tuple
  · exact (fails_fewItems hadvances hvalid .tuple).trans (false_or _).symm.to_iff
  · exact fails_items hadvances hvalid .list
  · show _ ↔ False ∨ ∃ last, EntryStart read reader last ∧ Fails read last
    rw [false_or, fails_bind_total (readEntries_advances hadvances fuel) (fun _ => .pure _) hvalid,
      fails_readEntries hadvances hstrict hvalid hfuel]
  · exact fails_items hadvances hvalid .set
  · exact fails_items hadvances hvalid .frozenSet
  · show _ ↔ False ∨ ∃ last, (allowCode = true ∧ FieldStart read codeFields reader last) ∧
      Fails read last
    rw [false_or]
    split
    · next hallow =>
      rw [readCode_eq, fails_readFields hadvances (fun _ _ => (codeOf_inspects _ _).total) hvalid]
      simp only [hallow, true_and]
    · next hallow =>
      refine iff_of_false (not_fails_fail _) ?_
      rintro ⟨last, ⟨hcode, -⟩, -⟩
      exact hallow hcode
  · show _ ↔ False ∨ ∃ last, FieldStart read (List.replicate 3 .object) reader last ∧
      Fails read last
    rw [false_or, readSlice_eq, fails_readFields hadvances _ hvalid]
    intro objects numbers
    split
    · exact .pure _
    · exact .fail _
  · refine iff_of_false (not_fails_fail _) ?_
    unfold NegativeLength ObjectStart
    split <;> simp_all

/-! ## Objects -/

def typeOf (code : UInt8) : Char := Char.ofNat (code &&& 0x7f).toNat

/-- An object starts with a byte of its type; a flag in it reserves a reference. -/
inductive ValueStart (reader : MarshalReader) (type : Char) : Option ℕ → MarshalReader → Prop
  | plain {code : UInt8} (hcode : reader.data[reader.offset]? = some code)
      (htype : typeOf code = type) (hflag : code &&& 0x80 = 0) :
      ValueStart reader type none { reader with offset := reader.offset + 1 }
  | kept {code : UInt8} (hcode : reader.data[reader.offset]? = some code)
      (htype : typeOf code = type) (hflag : code &&& 0x80 ≠ 0) :
      ValueStart reader type (some reader.kept.length)
        { reader with offset := reader.offset + 1, kept := reader.kept ++ [PyObject.null] }

/-- What the reader does behind the byte of a type. -/
def readBody (read : Read PyObject) (allowCode : Bool) (fuel : ℕ) (type : Char)
    (index : Option ℕ) : Read PyObject :=
  if type = 'r' then readRef
  else do
    let value ← readValue parse allowCode read fuel type
    storeRef value index
    return value

lemma ValueStart.follows {index : Option ℕ} (h : ValueStart reader type index next) :
    Follows reader next ∧ next.offset = reader.offset + 1 := by
  cases h with
  | plain hcode =>
    exact ⟨⟨rfl, Nat.le_succ _, fun _ => (List.getElem?_eq_some_iff.1 hcode).1⟩, rfl⟩
  | kept hcode =>
    exact ⟨⟨rfl, Nat.le_succ _, fun _ => (List.getElem?_eq_some_iff.1 hcode).1⟩, rfl⟩

lemma FieldStart.follows (hadvances : Advances read) {fields : List Field}
    (h : FieldStart read fields reader last) : Follows reader last := by
  induction h with
  | here => exact .refl _
  | object hread _ ih => exact (hadvances _ _ _ hread).trans ih
  | number hread _ ih => exact (readI32_advances _ _ _ hread).trans ih

lemma EntryStart.follows (hadvances : Advances read) (h : EntryStart read reader last) :
    Follows reader last := by
  induction h with
  | key => exact .refl _
  | value hkey => exact hadvances _ _ _ hkey
  | entry hkey _ hvalue _ ih =>
    exact (hadvances _ _ _ hkey).trans ((hadvances _ _ _ hvalue).trans ih)

lemma ObjectStart.follows (hadvances : Advances read)
    (h : ObjectStart allowCode read type reader last) : Follows reader last := by
  have hitems : (∃ length items, readI32 reader = .ok (length, items) ∧ 0 ≤ length.toInt ∧
      FieldStart read (List.replicate (usizeOfI32 length) .object) items last) →
      Follows reader last := by
    rintro ⟨length, items, hlength, -, h⟩
    exact (readI32_advances _ _ _ hlength).trans (h.follows hadvances)
  unfold ObjectStart at h
  split at h
  iterate 4 exact hitems h
  · obtain ⟨length, items, hlength, h⟩ := h
    exact (readU8_advances _ _ _ hlength).trans (h.follows hadvances)
  · exact EntryStart.follows hadvances h
  · exact h.2.follows hadvances
  · exact FieldStart.follows hadvances h
  · exact h.elim

/-- The start of an object is unique, and there is none at the end of the bytes. -/
lemma readObjectFrom_succ (fuel : ℕ) (reader : MarshalReader) :
    readObjectFrom parse allowCode (fuel + 1) reader = .error (.message "unexpected end of data") ∧
        (∀ type index body, ¬ValueStart reader type index body) ∨
      ∃ type index body, ValueStart reader type index body ∧
        (∀ type' index' body', ValueStart reader type' index' body' →
          type' = type ∧ index' = index ∧ body' = body) ∧
        readObjectFrom parse allowCode (fuel + 1) reader =
          readBody parse (readObjectFrom parse allowCode fuel) allowCode fuel type index body := by
  cases hbyte : reader.data[reader.offset]? with
  | none =>
    refine .inl ⟨?_, ?_⟩
    · rw [readObjectFrom, bind_apply, readU8_eq, hbyte]
      rfl
    · intro type index body h
      cases h with
      | plain hcode => rw [hbyte] at hcode; cases hcode
      | kept hcode => rw [hbyte] at hcode; cases hcode
  | some code =>
    have hunique : ∀ {code' : UInt8}, reader.data[reader.offset]? = some code' → code' = code :=
      fun hcode => Option.some.inj (hcode.symm.trans hbyte)
    right
    by_cases hflag : code &&& 0x80 = 0
    · refine ⟨typeOf code, none, _, .plain hbyte rfl hflag, ?_, ?_⟩
      · intro type index body h
        cases h with
        | plain hcode htype => rw [← htype, hunique hcode]; exact ⟨rfl, rfl, rfl⟩
        | kept hcode _ hflag' => rw [hunique hcode] at hflag'; exact absurd hflag hflag'
      · rw [readObjectFrom, bind_apply, readU8_eq, hbyte]
        show (if code &&& 0x80 ≠ 0 then _ else _ : Read PyObject) _ = _
        rw [if_neg (not_not.2 hflag)]
        rfl
    · refine ⟨typeOf code, some reader.kept.length, _, .kept hbyte rfl hflag, ?_, ?_⟩
      · intro type index body h
        cases h with
        | plain hcode _ hflag' => rw [hunique hcode] at hflag'; exact absurd hflag' hflag
        | kept hcode htype => rw [← htype, hunique hcode]; exact ⟨rfl, rfl, rfl⟩
      · rw [readObjectFrom, bind_apply, readU8_eq, hbyte]
        show (if code &&& 0x80 ≠ 0 then _ else _ : Read PyObject) _ = _
        rw [if_pos hflag]
        rfl

lemma readBody_advances (hadvances : Advances read) (index : Option ℕ) :
    Advances (readBody parse read allowCode fuel type index) := by
  rw [readBody]
  split
  · exact readRef_inspects.advances
  · exact (readValue_advances parse hadvances).bind fun value =>
      (storeRef_inspects value index).advances.bind fun _ => .pure _

/-- An object takes a byte at least. -/
lemma readObjectFrom_advances (fuel : ℕ) :
    Advances (readObjectFrom parse allowCode fuel) ∧
      ∀ reader value next, readObjectFrom parse allowCode fuel reader = .ok (value, next) →
        reader.offset < next.offset := by
  induction fuel with
  | zero =>
    refine ⟨.throw _, ?_⟩
    intro reader value next h
    cases h
  | succ fuel ih =>
    have hsteps : ∀ reader value last,
        readObjectFrom parse allowCode (fuel + 1) reader = .ok (value, last) →
        Follows reader last ∧ reader.offset < last.offset := by
      intro reader value last h
      rcases @readObjectFrom_succ parse allowCode fuel reader with
        ⟨herror, -⟩ | ⟨type, index, body, hstart, -, hbody⟩
      · rw [herror] at h
        cases h
      · rw [hbody] at h
        have hlast := readBody_advances parse ih.1 index body value last h
        obtain ⟨hfollows, hoffset⟩ := hstart.follows
        have hle := hlast.le
        exact ⟨hfollows.trans hlast, by omega⟩
    exact ⟨fun reader value last h => (hsteps reader value last h).1,
      fun reader value last h => (hsteps reader value last h).2⟩

/-- The reader of an object starts to read the object at `last`: the object itself, or one that is
part of it. -/
inductive Starts (allowCode : Bool) : ℕ → MarshalReader → MarshalReader → Prop
  | here {fuel : ℕ} {reader : MarshalReader} : Starts allowCode (fuel + 1) reader reader
  | inner {fuel : ℕ} {reader body next last : MarshalReader} {type : Char} {index : Option ℕ}
      (hvalue : ValueStart reader type index body)
      (hobject : ObjectStart allowCode (readObjectFrom parse allowCode fuel) type body next)
      (h : Starts allowCode fuel next last) : Starts allowCode (fuel + 1) reader last

/-- The object at a cursor starts with a length that overflows. -/
def Overflows (reader : MarshalReader) : Prop :=
  ∃ type index body, ValueStart reader type index body ∧ NegativeLength type body

lemma fails_readBody (hadvances : Advances read)
    (hstrict : ∀ reader value next, read reader = .ok (value, next) → reader.offset < next.offset)
    {index : Option ℕ} (hvalid : Valid reader)
    (hfuel : reader.data.length - reader.offset < fuel) :
    Fails (readBody parse read allowCode fuel type index) reader ↔
      NegativeLength type reader ∨
        ∃ last, ObjectStart allowCode read type reader last ∧ Fails read last := by
  rw [readBody]
  split
  · next htype =>
    subst htype
    refine iff_of_false (readRef_inspects.total reader hvalid) ?_
    rintro (h | ⟨last, h, -⟩)
    · exact h
    · exact h
  · rw [fails_bind_total (readValue_advances parse hadvances) _ hvalid,
      fails_readValue parse hadvances hstrict hvalid hfuel]
    exact fun value => ((storeRef_inspects value index).bind fun _ => .pure _).total

/-- The reader fails where an object that it starts to read has a length that overflows. -/
lemma fails_readObjectFrom (hvalid : Valid reader)
    (hfuel : reader.data.length - reader.offset < fuel) :
    Fails (readObjectFrom parse allowCode fuel) reader ↔
      ∃ last, Starts parse allowCode fuel reader last ∧ Overflows last := by
  induction fuel generalizing reader with
  | zero => exact absurd hfuel (Nat.not_lt_zero _)
  | succ fuel ih =>
    obtain ⟨hadvances, hstrict⟩ := @readObjectFrom_advances parse allowCode fuel
    rcases @readObjectFrom_succ parse allowCode fuel reader with
      ⟨herror, hnone⟩ | ⟨type, index, body, hstart, hunique, hbody⟩
    · refine iff_of_false ?_ ?_
      · rintro (h | h) <;> rw [herror] at h <;> cases h
      · rintro ⟨last, h, hoverflows⟩
        cases h with
        | here =>
          obtain ⟨type, index, body, hstart, -⟩ := hoverflows
          exact hnone _ _ _ hstart
        | inner hvalue => exact hnone _ _ _ hvalue
    · obtain ⟨hfollows, hoffset⟩ := hstart.follows
      have hnext := hfollows.valid hvalid
      have hdata := hfollows.data_eq
      have hle := hnext.offset_le
      have hbodyFuel : body.data.length - body.offset < fuel := by
        rw [hdata] at hle ⊢
        omega
      have hinner : ∀ {next}, ObjectStart allowCode (readObjectFrom parse allowCode fuel) type body
          next → (Fails (readObjectFrom parse allowCode fuel) next ↔
            ∃ last, Starts parse allowCode fuel next last ∧ Overflows last) := by
        intro next hobject
        have hbehind := ObjectStart.follows hadvances hobject
        have hoffset := hbehind.le
        refine ih (hbehind.valid hnext) ?_
        rw [hbehind.data_eq]
        omega
      rw [show Fails (readObjectFrom parse allowCode (fuel + 1)) reader ↔
          Fails
            (readBody parse (readObjectFrom parse allowCode fuel) allowCode fuel type index) body
        by rw [Fails, Fails, hbody], fails_readBody parse hadvances hstrict hnext hbodyFuel]
      constructor
      · rintro (hneg | ⟨next, hobject, hfails⟩)
        · exact ⟨reader, .here, type, index, body, hstart, hneg⟩
        · obtain ⟨last, hlast, hoverflows⟩ := (hinner hobject).1 hfails
          exact ⟨last, .inner hstart hobject hlast, hoverflows⟩
      · rintro ⟨last, h, hoverflows⟩
        cases h with
        | here =>
          obtain ⟨type', index', body', hstart', hneg⟩ := hoverflows
          obtain ⟨rfl, rfl, rfl⟩ := hunique _ _ _ hstart'
          exact .inl hneg
        | inner hvalue hobject h =>
          obtain ⟨rfl, rfl, rfl⟩ := hunique _ _ _ hvalue
          exact .inr ⟨_, hobject, (hinner hobject).2 ⟨last, h, hoverflows⟩⟩

end

end MarshalSafety

open MarshalSafety

variable (parse : String → Option Binary64) (allowCode : Bool)

lemma marshalLoadObject_eq (bytes : List UInt8) :
    marshalLoadObject parse allowCode bytes =
      (readObjectFrom parse allowCode (bytes.length + 1) ⟨bytes, 0, []⟩).map Prod.fst := by
  show (readObjectFrom parse allowCode (bytes.length + 1) ⟨bytes, 0, []⟩ >>= fun result =>
    pure result.1) = _
  cases readObjectFrom parse allowCode (bytes.length + 1) ⟨bytes, 0, []⟩ with
  | error error => rfl
  | ok result => rfl

lemma returns_iff {α : Type} {decoder : Read α} {reader : MarshalReader} :
    ((∃ object, (decoder reader).map Prod.fst = .ok object) ∨
        ∃ text, (decoder reader).map Prod.fst = .error (.message text)) ↔
      ¬Fails decoder reader := by
  rw [Fails]
  cases decoder reader with
  | ok result => simp [Except.map]
  | error error =>
    cases error with
    | message text => simp [Except.map]
    | panic => simp [Except.map]
    | outOfFuel => simp [Except.map]

/-- The reader of a slice of bytes returns an object or an error unless it comes to an object with
a negative length that overflows.  The length of a slice is below `2 ^ 63`. -/
theorem marshalLoadObject_returns_iff {bytes : List UInt8} (hlength : bytes.length < 2 ^ 63) :
    ((∃ object, marshalLoadObject parse allowCode bytes = .ok object) ∨
        ∃ text, marshalLoadObject parse allowCode bytes = .error (.message text)) ↔
      ∀ last, Starts parse allowCode (bytes.length + 1) ⟨bytes, 0, []⟩ last → ¬Overflows last := by
  have hvalid : Valid ⟨bytes, 0, []⟩ := ⟨Nat.zero_le _, hlength⟩
  rw [marshalLoadObject_eq, returns_iff,
    fails_readObjectFrom parse hvalid (show bytes.length - 0 < bytes.length + 1 by omega)]
  simp only [not_exists, not_and]

/-- The bytes of `b'hi'`, behind their length. -/
def hiBytes : List UInt8 := [tag 's', 2, 0, 0, 0, 0x68, 0x69]

theorem marshalLoadObject_returns_hi :
    ((∃ object, marshalLoadObject (fun _ => none) true hiBytes = .ok object) ∨
        ∃ text, marshalLoadObject (fun _ => none) true hiBytes = .error (.message text)) ↔
      ∀ last, Starts (fun _ => none) true 8 ⟨hiBytes, 0, []⟩ last → ¬Overflows last :=
  marshalLoadObject_returns_iff (fun _ => none) true (show 7 < 2 ^ 63 by norm_num)

/-- A tuple whose length is `-1`. -/
theorem marshalLoadObject_panics :
    ¬∀ (parse : String → Option Binary64) (allowCode : Bool) (bytes : List UInt8),
      bytes.length < 2 ^ 63 →
      (∃ object, marshalLoadObject parse allowCode bytes = .ok object) ∨
        ∃ text, marshalLoadObject parse allowCode bytes = .error (.message text) := by
  intro h
  have hpanic : marshalLoadObject (fun _ => none) true [tag '(', 0xff, 0xff, 0xff, 0xff] =
      .error .panic := rfl
  rcases h (fun _ => none) true [tag '(', 0xff, 0xff, 0xff, 0xff] (by decide) with
    ⟨object, hload⟩ | ⟨text, hload⟩
  · rw [hpanic] at hload
    cases hload
  · rw [hpanic] at hload
    cases hload

end Pyrs
