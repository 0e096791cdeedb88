import Pyrs.Model.Marshal
import Mathlib.Data.Nat.Digits.Lemmas

/-!
# The marshal round trip

What `MarshalWriter` writes for an object, `MarshalReader` reads back, wherever the bytes stand in
its data.  The proof goes over the object: the reader of an object decodes its bytes with any fuel
that is no less than their number.
-/

namespace Pyrs

open Decoding

/-! ## Writable objects -/

mutual

/-- The objects that can be written and read back: no big integer, no length above `i32::MAX`, no
null as the key of a dict or the bound of a slice. -/
def PyObject.Writable : PyObject → Prop
  | .bigInt _ => False
  | .str value => (stringBytes value).length < 2 ^ 31
  | .bytes value => value.length < 2 ^ 31
  | .tuple items | .list items | .set items | .frozenSet items =>
    items.length < 2 ^ 31 ∧ WritableItems items
  | .dict entries => WritableEntries entries
  | .code code => WritableCode code
  | .slice lower upper step => WritableBound lower ∧ WritableBound upper ∧ WritableBound step
  | _ => True

def WritableItems : List PyObject → Prop
  | [] => True
  | item :: items => item.Writable ∧ WritableItems items

def WritableEntries : List (PyObject × PyObject) → Prop
  | [] => True
  | (key, value) :: entries =>
    (key ≠ .null ∧ key.Writable) ∧ value.Writable ∧ WritableEntries entries

def WritableBound : Option PyObject → Prop
  | some value => value ≠ .null ∧ value.Writable
  | none => True

def WritableCode : CpythonCode PyObject → Prop
  | ⟨_, _, _, _, _, code, consts, names, localsplusnames, localspluskinds, filename, name, qualname,
      _, linetable, exceptiontable⟩ =>
    (consts.length < 2 ^ 31 ∧ WritableItems consts) ∧
    (∀ bytes ∈ [code, localspluskinds, linetable, exceptiontable], bytes.length < 2 ^ 31) ∧
    (∀ text ∈ [filename, name, qualname], (stringBytes text).length < 2 ^ 31) ∧
    ∀ texts ∈ [names, localsplusnames], texts.length < 2 ^ 31 ∧
      ∀ text ∈ texts, (stringBytes text).length < 2 ^ 31

end

/-! ## Numbers -/

lemma decodes_readExact (bytes : List UInt8) : Decodes (readExact bytes.length) bytes bytes := by
  intro before after kept
  have hle : before.length + bytes.length ≤ (before ++ (bytes ++ after)).length := by
    simp only [List.length_append]
    omega
  have htake : ((before ++ (bytes ++ after)).drop before.length).take bytes.length = bytes := by
    rw [List.drop_left, List.take_left]
  simp only [readExact, bind, StateT.bind, get, getThe, MonadStateOf.get, StateT.get, pure,
    Except.pure, Except.bind, if_pos hle, set, htake]
  rfl

lemma decodes_readU8 (byte : UInt8) : Decodes readU8 [byte] byte := by
  intro before after kept
  have hget : (before ++ ([byte] ++ after))[before.length]? = some byte := by
    simp
  simp only [readU8, bind, StateT.bind, get, getThe, MonadStateOf.get, StateT.get, pure,
    Except.pure, Except.bind, hget, set, List.length_singleton]
  rfl

lemma decodes_readI32 (value : Int32) : Decodes readI32 (writeI32 value) value := by
  have hlength : (writeI32 value).length = 4 := length_leBytes 4 _
  have hread := decodes_readExact (writeI32 value)
  rw [hlength] at hread
  have hvalue : (UInt32.ofNat (fromLeBytes (writeI32 value))).toInt32 = value := by
    rw [writeI32, fromLeBytes_leBytes value.toUInt32.toNat_lt, UInt32.ofNat_toNat]
    rfl
  rw [readI32]
  have hmap := hread.map fun bytes => (UInt32.ofNat (fromLeBytes bytes)).toInt32
  rwa [hvalue] at hmap

lemma decodes_readU16 {value : ℕ} (h : value < 2 ^ 16) :
    Decodes readU16 (writeU16 value) value := by
  have hlength : (writeU16 value).length = 2 := length_leBytes 2 _
  have hread := decodes_readExact (writeU16 value)
  rw [hlength] at hread
  have hmap := hread.map fromLeBytes
  rwa [writeU16, fromLeBytes_leBytes h] at hmap

lemma decodes_readF64 (value : Binary64) : Decodes readF64 (writeF64 value) value := by
  have hlength : (writeF64 value).length = 8 := length_leBytes 8 _
  have hread := decodes_readExact (writeF64 value)
  rw [hlength] at hread
  have hmap := hread.map fun bytes => (⟨UInt64.ofNat (fromLeBytes bytes)⟩ : Binary64)
  have hvalue : fromLeBytes (writeF64 value) = value.bits.toNat :=
    fromLeBytes_leBytes value.bits.toNat_lt
  rw [hvalue, UInt64.ofNat_toNat] at hmap
  exact hmap

lemma usizeOfI32_ofNat {length : ℕ} (h : length < 2 ^ 31) :
    usizeOfI32 (Int32.ofNat length) = length := by
  rw [usizeOfI32, Int32.toInt_ofNat_of_lt h]
  omega

/-- A length that is written is read as a size. -/
lemma writeLength_eq {length : ℕ} (h : length < 2 ^ 31) (message : String) :
    writeLength length message = .ok (writeI32 (Int32.ofNat length)) := if_pos h

lemma decodes_readTimes {α : Type} {read : Read α} {write : α → List UInt8} (items : List α)
    (h : ∀ item ∈ items, Decodes read (write item) item) :
    Decodes (readTimes read items.length) (items.flatMap write) items := by
  induction items with
  | nil => exact Decodes.pure []
  | cons item items ih =>
    have htail := ih fun other hother => h other (List.mem_cons_of_mem _ hother)
    exact (h item List.mem_cons_self).bind (htail.map fun rest => item :: rest)

/-! ## Integers -/

lemma toI64_toInt (value : Int64) : toI64 value.toInt = some value := by
  rw [toI64, if_pos ⟨value.le_toInt, value.toInt_lt⟩, Int64.ofInt_toInt]

/-- The number that the digits of a long stand for. -/
lemma foldr_digits (n : ℕ) :
    (Nat.digits (2 ^ 15) n).foldr (fun digit value => value * 2 ^ 15 + digit) 0 = n := by
  have hdigits := Nat.ofDigits_digits (2 ^ 15) n
  rw [Nat.ofDigits_eq_foldr] at hdigits
  refine Eq.trans ?_ hdigits
  congr 1
  funext digit value
  simp only [Nat.cast_id]
  ring

lemma length_digits_lt (value : Int64) :
    (Nat.digits (2 ^ 15) value.toInt.natAbs).length < 2 ^ 31 := by
  have hle := value.le_toInt
  have hlt := value.toInt_lt
  have hlength : (Nat.digits (2 ^ 15) value.toInt.natAbs).length ≤ 5 := by
    rw [Nat.digits_length_le_iff (by decide)]
    omega
  omega

/-- The count of the digits of a long, with its sign. -/
lemma count_spec {count : ℕ} (hpos : 0 < count) (hlt : count < 2 ^ 31) (negative : Bool) :
    (if negative then -Int32.ofNat count else Int32.ofNat count).toInt =
      if negative then -(count : ℤ) else count := by
  cases negative with
  | false => exact Int32.toInt_ofNat_of_lt hlt
  | true =>
    simp only [if_true]
    rw [Int32.neg_ofNat, Int32.toInt_ofInt_of_le (by omega) (by omega)]

lemma decodes_readLongObject (value : Int64) :
    ∃ bytes, writeLong value = .ok bytes ∧ Decodes readLongObject bytes (.int value) := by
  rw [writeLong]
  by_cases hzero : value = 0
  · subst hzero
    refine ⟨_, rfl, ?_⟩
    exact (decodes_readI32 0).bind_last (Decodes.pure _)
  set digits := Nat.digits (2 ^ 15) value.toInt.natAbs with hdigits
  have hlength : digits.length < 2 ^ 31 := length_digits_lt value
  have hne : value.toInt.natAbs ≠ 0 := by
    intro habs
    exact hzero (Int64.toInt_inj.1 (Int.natAbs_eq_zero.1 habs))
  have hpos : 0 < digits.length :=
    List.length_pos_of_ne_nil (Nat.digits_ne_nil_iff_ne_zero.2 hne)
  set count : Int32 := if value < 0 then -Int32.ofNat digits.length else Int32.ofNat digits.length
    with hcount
  have hsign : value < 0 ↔ value.toInt < 0 := Int64.lt_iff_toInt_lt
  have hcountInt :
      count.toInt = if value.toInt < 0 then -(digits.length : ℤ) else digits.length := by
    have hspec := count_spec hpos hlength (decide (value.toInt < 0))
    simp only [decide_eq_true_eq] at hspec
    rw [hcount]
    simp only [hsign]
    exact hspec
  have hcountNe : count ≠ 0 := by
    intro heq
    rw [heq] at hcountInt
    change (0 : ℤ) = _ at hcountInt
    split at hcountInt <;> omega
  have hcountAbs : count.toInt.natAbs = digits.length := by
    rw [hcountInt]
    split <;> omega
  have hcountSign : count < 0 ↔ value.toInt < 0 := by
    rw [Int32.lt_iff_toInt_lt, hcountInt]
    change _ < (0 : ℤ) ↔ _
    split <;> omega
  refine ⟨writeI32 count ++ digits.flatMap writeU16, ?_, ?_⟩
  · rw [if_neg hzero]
    simp only [if_pos hlength, ← hcount]
    rfl
  · refine (decodes_readI32 count).bind ?_
    have hread :
        Decodes (readTimes readU16 count.toInt.natAbs) (digits.flatMap writeU16) digits := by
      rw [hcountAbs]
      refine decodes_readTimes digits fun digit hdigit => decodes_readU16 ?_
      exact (Nat.digits_lt_base (by decide) hdigit).trans (by decide)
    have hvalue : (if count < 0 then
        -((digits.foldr (fun digit value => value * 2 ^ 15 + digit) 0 : ℕ) : ℤ)
        else ((digits.foldr (fun digit value => value * 2 ^ 15 + digit) 0 : ℕ) : ℤ)) =
          value.toInt := by
      simp only [hcountSign, hdigits, foldr_digits]
      split <;> omega
    rw [if_neg hcountNe]
    refine hread.bind_last ?_
    simp only [hvalue, toI64_toInt]
    exact Decodes.pure _

/-! ## Texts -/

lemma fromUTF8_stringBytes (value : String) :
    String.fromUTF8? (stringBytes value).toByteArray = some value := by
  have hbytes : (stringBytes value).toByteArray = value.toByteArray := by
    refine ByteArray.ext ?_
    rw [List.data_toByteArray, stringBytes, String.toUTF8_eq_toByteArray]
  rw [hbytes, String.fromUTF8?, dif_pos value.isValidUTF8]
  rfl

lemma decodes_decodeUtf8 (value : String) (message : String) :
    Decodes (decodeUtf8 (stringBytes value) message) [] value := by
  rw [decodeUtf8, fromUTF8_stringBytes]
  exact Decodes.pure value

lemma writeBytesLong_eq {bytes : List UInt8} (h : bytes.length < 2 ^ 31) :
    writeBytesLong bytes = .ok (writeI32 (Int32.ofNat bytes.length) ++ bytes) := by
  rw [writeBytesLong, writeLength_eq h]
  rfl

lemma decodes_readBytesLong {bytes : List UInt8} (h : bytes.length < 2 ^ 31) :
    Decodes readBytesLong (writeI32 (Int32.ofNat bytes.length) ++ bytes) bytes := by
  refine (decodes_readI32 _).bind ?_
  rw [usizeOfI32_ofNat h]
  exact decodes_readExact bytes

lemma decodes_readStringLong {value : String} (h : (stringBytes value).length < 2 ^ 31) :
    Decodes readStringLong (writeI32 (Int32.ofNat (stringBytes value).length) ++ stringBytes value)
      value :=
  (decodes_readBytesLong h).bind_last (decodes_decodeUtf8 value _)

/-! ## Objects -/

section

variable (parse : String → Option Binary64)

/-- The reader of an object decodes what is written for it. -/
def RoundTrips (written : Written) (object : PyObject) : Prop :=
  ∃ bytes, written = .ok bytes ∧
    ∀ fuel, bytes.length ≤ fuel → Decodes (readObjectFrom parse true fuel) bytes object

def ItemsRoundTrip (written : Written) (items : List PyObject) : Prop :=
  ∃ bytes, written = .ok bytes ∧ ∀ fuel, bytes.length ≤ fuel →
    Decodes (readTimes (readObjectFrom parse true fuel) items.length) bytes items

variable {parse}

/-- The bytes of a value behind its tag. -/
lemma roundTrips_tag {type : Char} (hflag : tag type &&& 0x80 = 0)
    (htype : Char.ofNat (tag type &&& 0x7f).toNat = type) (href : type ≠ 'r') {object : PyObject}
    {bytes : List UInt8} (h : ∀ fuel, bytes.length ≤ fuel →
      Decodes (readValue parse true (readObjectFrom parse true fuel) fuel type) bytes object) :
    RoundTrips parse (.ok (tag type :: bytes)) object := by
  refine ⟨tag type :: bytes, rfl, fun fuel hfuel => ?_⟩
  obtain ⟨fuel, rfl⟩ : ∃ rest, fuel = rest + 1 :=
    ⟨fuel - 1, by rw [List.length_cons] at hfuel; omega⟩
  rw [readObjectFrom]
  refine (decodes_readU8 (tag type)).bind ?_
  have hnone : (tag type &&& 0x80 ≠ 0) = False := by simp [hflag]
  simp only [hnone, if_false]
  refine (Decodes.pure none).bind_nil ?_
  rw [htype, if_neg href]
  refine (h fuel (Nat.le_of_succ_le_succ hfuel)).bind_last ?_
  exact (Decodes.pure PUnit.unit).bind_nil (Decodes.pure object)

lemma roundTrips_int (value : Int64) : RoundTrips parse (writeInt value) (.int value) := by
  rw [writeInt]
  by_cases hsmall : -2 ^ 31 ≤ value.toInt ∧ value.toInt ≤ 2 ^ 31 - 1
  · rw [if_pos hsmall]
    refine roundTrips_tag (by decide) (by decide) (by decide) fun fuel _ => ?_
    have hvalue : value.toInt32.toInt64 = value := by
      refine Int64.toInt_inj.1 ?_
      rw [Int32.toInt_toInt64, Int64.toInt_toInt32]
      exact Int.bmod_eq_of_le (by omega) (by omega)
    have hmap := (decodes_readI32 value.toInt32).map fun n => PyObject.int n.toInt64
    rw [hvalue] at hmap
    exact hmap
  · rw [if_neg hsmall]
    obtain ⟨bytes, hwrite, hread⟩ := decodes_readLongObject value
    rw [hwrite]
    exact roundTrips_tag (by decide) (by decide) (by decide) fun fuel _ => hread

lemma roundTrips_str {value : String} (h : (stringBytes value).length < 2 ^ 31) :
    RoundTrips parse (writeStr value) (.str value) := by
  rw [writeStr, writeBytesLong_eq h]
  exact roundTrips_tag (by decide) (by decide) (by decide) fun fuel _ =>
    (decodes_readStringLong h).map PyObject.str

lemma roundTrips_bytes {value : List UInt8} (h : value.length < 2 ^ 31) :
    RoundTrips parse (writeBytes value) (.bytes value) := by
  rw [writeBytes, writeBytesLong_eq h]
  exact roundTrips_tag (by decide) (by decide) (by decide) fun fuel _ =>
    (decodes_readBytesLong h).map PyObject.bytes

/-- A sequence of items behind a tag and their number. -/
lemma roundTrips_sequence {type : Char} {make : List PyObject → PyObject}
    (hflag : tag type &&& 0x80 = 0) (htype : Char.ofNat (tag type &&& 0x7f).toNat = type)
    (href : type ≠ 'r')
    (hvalue : ∀ read fuel, readValue parse true read fuel type = (do
      return make (← readSequence read (usizeOfI32 (← readI32)))))
    {items : List PyObject} {written : Written} (hlength : items.length < 2 ^ 31)
    (hitems : ItemsRoundTrip parse written items) (message : String) :
    RoundTrips parse (writeSequence type items.length message written) (make items) := by
  obtain ⟨bytes, rfl, hread⟩ := hitems
  rw [writeSequence, writeLength_eq hlength]
  refine roundTrips_tag hflag htype href fun fuel hfuel => ?_
  rw [hvalue]
  refine (decodes_readI32 _).bind ?_
  rw [usizeOfI32_ofNat hlength, readSequence, if_neg (by omega)]
  refine (hread fuel ?_).map make
  rw [List.length_append] at hfuel
  omega

lemma itemsRoundTrip_nil : ItemsRoundTrip parse (.ok []) [] :=
  ⟨[], rfl, fun _ _ => Decodes.pure []⟩

lemma itemsRoundTrip_cons {item : PyObject} {items : List PyObject} {first rest : Written}
    (hitem : RoundTrips parse first item) (hitems : ItemsRoundTrip parse rest items) :
    ItemsRoundTrip parse (do return (← first) ++ (← rest)) (item :: items) := by
  obtain ⟨bytes, rfl, hread⟩ := hitem
  obtain ⟨others, rfl, hreads⟩ := hitems
  refine ⟨bytes ++ others, rfl, fun fuel hfuel => ?_⟩
  rw [List.length_append] at hfuel
  exact (hread fuel (by omega)).bind ((hreads fuel (by omega)).map fun rest => item :: rest)

lemma itemsRoundTrip_strs {values : List String}
    (h : ∀ value ∈ values, (stringBytes value).length < 2 ^ 31) :
    ItemsRoundTrip parse (writeStrs values) (values.map PyObject.str) := by
  induction values with
  | nil => exact itemsRoundTrip_nil
  | cons value values ih =>
    exact itemsRoundTrip_cons (roundTrips_str (h value List.mem_cons_self))
      (ih fun other hother => h other (List.mem_cons_of_mem _ hother))

lemma roundTrips_tuple {items : List PyObject} {written : Written} (hlength : items.length < 2 ^ 31)
    (hitems : ItemsRoundTrip parse written items) (message : String) :
    RoundTrips parse (writeSequence '(' items.length message written) (.tuple items) :=
  roundTrips_sequence (by decide) (by decide) (by decide) (fun _ _ => rfl) hlength hitems message

lemma roundTrips_names {values : List String} (hlength : values.length < 2 ^ 31)
    (h : ∀ value ∈ values, (stringBytes value).length < 2 ^ 31) :
    RoundTrips parse (writeNames values) (.tuple (values.map PyObject.str)) := by
  rw [writeNames, ← List.length_map PyObject.str]
  exact roundTrips_tuple (by rwa [List.length_map]) (itemsRoundTrip_strs h) _

lemma decodes_parseStrList (values : List String) :
    Decodes (parseStrList (values.map PyObject.str)) [] values := by
  induction values with
  | nil => exact Decodes.pure []
  | cons value values ih =>
    exact (Decodes.pure value).bind_nil (ih.map fun rest => value :: rest)

/-! ### Dicts, slices and code objects -/

lemma roundTrips_null : RoundTrips parse (.ok [tag '0']) .null :=
  roundTrips_tag (by decide) (by decide) (by decide) fun _ _ => Decodes.pure PyObject.null

/-- The entries of a dict, before the null that ends it. -/
def EntriesRoundTrip (parse : String → Option Binary64) (written : Written)
    (entries : List (PyObject × PyObject)) : Prop :=
  ∃ bytes, written = .ok bytes ∧ entries.length ≤ bytes.length ∧
    ∀ fuel turns, bytes.length + 1 ≤ fuel → entries.length + 1 ≤ turns →
      Decodes (readEntries (readObjectFrom parse true fuel) turns) (bytes ++ [tag '0']) entries

lemma entriesRoundTrip_nil : EntriesRoundTrip parse (.ok []) [] := by
  refine ⟨[], rfl, le_rfl, fun fuel turns hfuel hturns => ?_⟩
  obtain ⟨turns, rfl⟩ : ∃ rest, turns = rest + 1 := ⟨turns - 1, by
    rw [List.length_nil] at hturns
    omega⟩
  obtain ⟨bytes, hbytes, hread⟩ := @roundTrips_null parse
  obtain rfl := Except.ok.inj hbytes
  exact (hread fuel hfuel).bind_last (Decodes.pure [])

/-- What is read takes at least a byte. -/
lemma RoundTrips.length_pos {object : PyObject} {bytes : List UInt8}
    (h : ∀ fuel, bytes.length ≤ fuel → Decodes (readObjectFrom parse true fuel) bytes object) :
    0 < bytes.length := by
  by_contra hzero
  have hfail := h 0 (Nat.le_of_not_lt hzero) [] [] []
  cases hfail

lemma entriesRoundTrip_cons {key value : PyObject} {entries : List (PyObject × PyObject)}
    {first second rest : Written} (hkey : RoundTrips parse first key) (hne : key ≠ .null)
    (hvalue : RoundTrips parse second value) (hentries : EntriesRoundTrip parse rest entries) :
    EntriesRoundTrip parse (do return (← first) ++ ((← second) ++ (← rest)))
      ((key, value) :: entries) := by
  obtain ⟨keyBytes, rfl, hreadKey⟩ := hkey
  obtain ⟨valueBytes, rfl, hreadValue⟩ := hvalue
  obtain ⟨bytes, rfl, hlength, hread⟩ := hentries
  have hpos := RoundTrips.length_pos hreadKey
  refine ⟨keyBytes ++ (valueBytes ++ bytes), rfl, ?_, fun fuel turns hfuel hturns => ?_⟩
  · simp only [List.length_cons, List.length_append]
    omega
  · obtain ⟨turns, rfl⟩ : ∃ left, turns = left + 1 := ⟨turns - 1, by
      rw [List.length_cons] at hturns
      omega⟩
    simp only [List.length_append] at hfuel
    have hrest := hread fuel turns (by omega) (Nat.le_of_succ_le_succ hturns)
    have hnext : Decodes (do
        let value ← readObjectFrom parse true fuel
        return (key, value) :: (← readEntries (readObjectFrom parse true fuel) turns))
        (valueBytes ++ (bytes ++ [tag '0'])) ((key, value) :: entries) :=
      (hreadValue fuel (by omega)).bind (hrest.map fun rest => (key, value) :: rest)
    rw [readEntries, List.append_assoc, List.append_assoc]
    refine (hreadKey fuel (by omega)).bind ?_
    cases key with
    | null => exact absurd rfl hne
    | _ => exact hnext

lemma roundTrips_dict {entries : List (PyObject × PyObject)} {written : Written}
    (h : EntriesRoundTrip parse written entries) :
    RoundTrips parse (do return tag '{' :: ((← written) ++ [tag '0'])) (.dict entries) := by
  obtain ⟨bytes, rfl, hlength, hread⟩ := h
  refine roundTrips_tag (by decide) (by decide) (by decide) fun fuel hfuel => ?_
  rw [List.length_append, List.length_singleton] at hfuel
  exact (hread fuel fuel hfuel (by omega)).map PyObject.dict

/-- A bound of a slice, where none is a null. -/
def BoundRoundTrips (parse : String → Option Binary64) (written : Written) (limit : Option PyObject) :
    Prop :=
  ∃ object, bound object = limit ∧ RoundTrips parse written object

lemma roundTrips_slice {lower upper step : Option PyObject} {first second third : Written}
    (hlower : BoundRoundTrips parse first lower) (hupper : BoundRoundTrips parse second upper)
    (hstep : BoundRoundTrips parse third step) :
    RoundTrips parse (do return tag ':' :: ((← first) ++ ((← second) ++ (← third))))
      (.slice lower upper step) := by
  obtain ⟨low, rfl, lowBytes, rfl, hlow⟩ := hlower
  obtain ⟨up, rfl, upBytes, rfl, hup⟩ := hupper
  obtain ⟨by_, rfl, stepBytes, rfl, hby⟩ := hstep
  refine roundTrips_tag (by decide) (by decide) (by decide) fun fuel hfuel => ?_
  simp only [List.length_append] at hfuel
  refine (hlow fuel (by omega)).bind ((hup fuel (by omega)).bind ?_)
  exact (hby fuel (by omega)).map fun third => PyObject.slice (bound low) (bound up) (bound third)

lemma roundTrips_code {code : CpythonCode PyObject} (h : WritableCode code)
    (hconsts : ItemsRoundTrip parse (writeObjects code.consts) code.consts) :
    RoundTrips parse (writeCode code) (.code code) := by
  obtain ⟨argcount, posonlyargcount, kwonlyargcount, stacksize, flags, code, consts, names,
    localsplusnames, localspluskinds, filename, name, qualname, firstlineno, linetable,
    exceptiontable⟩ := code
  obtain ⟨⟨hconstsLength, -⟩, hbytes, htexts, hnames⟩ := h
  obtain ⟨codeBytes, hcode, rcode⟩ :=
    @roundTrips_bytes parse _ (hbytes code (by simp))
  obtain ⟨constBytes, hconst, rconst⟩ :=
    roundTrips_tuple hconstsLength hconsts "tuple constant too large"
  obtain ⟨nameBytes, hname, rname⟩ := @roundTrips_names parse _
    (hnames names (by simp)).1 (hnames names (by simp)).2
  obtain ⟨localBytes, hlocal, rlocal⟩ := @roundTrips_names parse _
    (hnames localsplusnames (by simp)).1 (hnames localsplusnames (by simp)).2
  obtain ⟨kindBytes, hkind, rkind⟩ :=
    @roundTrips_bytes parse _ (hbytes localspluskinds (by simp))
  obtain ⟨fileBytes, hfile, rfile⟩ := @roundTrips_str parse _ (htexts filename (by simp))
  obtain ⟨ownBytes, hown, rown⟩ := @roundTrips_str parse _ (htexts name (by simp))
  obtain ⟨qualBytes, hqual, rqual⟩ := @roundTrips_str parse _ (htexts qualname (by simp))
  obtain ⟨lineBytes, hline, rline⟩ :=
    @roundTrips_bytes parse _ (hbytes linetable (by simp))
  obtain ⟨exceptBytes, hexcept, rexcept⟩ :=
    @roundTrips_bytes parse _ (hbytes exceptiontable (by simp))
  rw [writeCode]
  simp only [hcode, hconst, hname, hlocal, hkind, hfile, hown, hqual, hline, hexcept]
  refine roundTrips_tag (by decide) (by decide) (by decide) fun fuel hfuel => ?_
  simp only [List.length_append] at hfuel
  simp only [List.append_assoc]
  -- the numbers of the header, then the objects, of which each is shorter than the whole
  refine (decodes_readI32 argcount).bind ((decodes_readI32 posonlyargcount).bind ?_)
  refine (decodes_readI32 kwonlyargcount).bind ((decodes_readI32 stacksize).bind ?_)
  refine (decodes_readI32 flags).bind ((rcode fuel (by omega)).bind ?_)
  refine (rconst fuel (by omega)).bind ((rname fuel (by omega)).bind ?_)
  refine (rlocal fuel (by omega)).bind ((rkind fuel (by omega)).bind ?_)
  refine (rfile fuel (by omega)).bind ((rown fuel (by omega)).bind ?_)
  refine (rqual fuel (by omega)).bind ((decodes_readI32 firstlineno).bind ?_)
  refine (rline fuel (by omega)).bind ((rexcept fuel (by omega)).bind_last ?_)
  -- the conversions read nothing
  refine (Decodes.pure code).bind_nil ((Decodes.pure consts).bind_nil ?_)
  refine (Decodes.pure (names.map PyObject.str)).bind_nil ((decodes_parseStrList names).bind_nil ?_)
  refine (Decodes.pure (localsplusnames.map PyObject.str)).bind_nil ?_
  refine (decodes_parseStrList localsplusnames).bind_nil ?_
  refine (Decodes.pure localspluskinds).bind_nil ((Decodes.pure filename).bind_nil ?_)
  refine (Decodes.pure name).bind_nil ((Decodes.pure qualname).bind_nil ?_)
  refine (Decodes.pure linetable).bind_nil ((Decodes.pure exceptiontable).bind_nil ?_)
  exact Decodes.pure _

/-! ### All objects -/

variable (parse)

mutual

lemma roundTrips_object (object : PyObject) (h : object.Writable) :
    RoundTrips parse (writeObject object) object :=
  match object, h with
  | .null, _ => roundTrips_null
  | .none, _ =>
    roundTrips_tag (by decide) (by decide) (by decide) fun _ _ => Decodes.pure PyObject.none
  | .stopIteration, _ =>
    roundTrips_tag (by decide) (by decide) (by decide) fun _ _ =>
      Decodes.pure PyObject.stopIteration
  | .ellipsis, _ =>
    roundTrips_tag (by decide) (by decide) (by decide) fun _ _ => Decodes.pure PyObject.ellipsis
  | .bool false, _ =>
    roundTrips_tag (by decide) (by decide) (by decide) fun _ _ => Decodes.pure (PyObject.bool false)
  | .bool true, _ =>
    roundTrips_tag (by decide) (by decide) (by decide) fun _ _ => Decodes.pure (PyObject.bool true)
  | .int value, _ => roundTrips_int value
  | .bigInt _, h => h.elim
  | .float value, _ =>
    roundTrips_tag (by decide) (by decide) (by decide) fun _ _ =>
      (decodes_readF64 value).map PyObject.float
  | .complex real imag, _ =>
    roundTrips_tag (by decide) (by decide) (by decide) fun _ _ =>
      (decodes_readF64 real).bind ((decodes_readF64 imag).map (PyObject.complex real))
  | .str _, h => roundTrips_str h
  | .bytes _, h => roundTrips_bytes h
  | .tuple items, h => roundTrips_tuple h.1 (itemsRoundTrip_objects items h.2) _
  | .list items, h =>
    roundTrips_sequence (by decide) (by decide) (by decide) (fun _ _ => rfl) h.1
      (itemsRoundTrip_objects items h.2) _
  | .dict entries, h => roundTrips_dict (entriesRoundTrip_objects entries h)
  | .set items, h =>
    roundTrips_sequence (by decide) (by decide) (by decide) (fun _ _ => rfl) h.1
      (itemsRoundTrip_objects items h.2) _
  | .frozenSet items, h =>
    roundTrips_sequence (by decide) (by decide) (by decide) (fun _ _ => rfl) h.1
      (itemsRoundTrip_objects items h.2) _
  | .code code, h => roundTrips_codeObject code h
  | .slice lower upper step, h =>
    roundTrips_slice (boundRoundTrips_object lower h.1) (boundRoundTrips_object upper h.2.1)
      (boundRoundTrips_object step h.2.2)

lemma itemsRoundTrip_objects (items : List PyObject) (h : WritableItems items) :
    ItemsRoundTrip parse (writeObjects items) items :=
  match items, h with
  | [], _ => itemsRoundTrip_nil
  | item :: items, h =>
    itemsRoundTrip_cons (roundTrips_object item h.1) (itemsRoundTrip_objects items h.2)

lemma entriesRoundTrip_objects (entries : List (PyObject × PyObject))
    (h : WritableEntries entries) :
    EntriesRoundTrip parse (writeEntries entries) entries :=
  match entries, h with
  | [], _ => entriesRoundTrip_nil
  | (key, value) :: entries, h =>
    entriesRoundTrip_cons (roundTrips_object key h.1.2) h.1.1 (roundTrips_object value h.2.1)
      (entriesRoundTrip_objects entries h.2.2)

lemma boundRoundTrips_object (limit : Option PyObject) (h : WritableBound limit) :
    BoundRoundTrips parse (writeBound limit) limit :=
  match limit, h with
  | none, _ => ⟨.null, rfl, roundTrips_null⟩
  | some value, h =>
    ⟨value, by cases value <;> first | exact absurd rfl h.1 | rfl, roundTrips_object value h.2⟩

lemma roundTrips_codeObject (code : CpythonCode PyObject) (h : WritableCode code) :
    RoundTrips parse (writeCode code) (.code code) :=
  match code, h with
  | ⟨_, _, _, _, _, _, consts, _, _, _, _, _, _, _, _, _⟩, h =>
    roundTrips_code h (itemsRoundTrip_objects consts h.1.2)

end

/-- What is dumped of an object is loaded again, whatever follows it, and the reader stands behind
it. -/
theorem load_dump {object : PyObject} (h : object.Writable) :
    ∃ bytes, marshalDumpObject object = .ok bytes ∧ ∀ rest : List UInt8,
      MarshalReader.readObject parse true ⟨bytes ++ rest, 0, []⟩ =
        .ok (object, ⟨bytes ++ rest, bytes.length, []⟩) := by
  obtain ⟨bytes, hwrite, hread⟩ := roundTrips_object parse object h
  refine ⟨bytes, hwrite, fun rest => ?_⟩
  have hfuel : bytes.length ≤ (bytes ++ rest).length - 0 + 1 := by
    rw [List.length_append]
    omega
  have hdecodes := hread _ hfuel [] rest []
  rw [List.length_nil, Nat.zero_add, List.nil_append] at hdecodes
  exact hdecodes

theorem load_dump_nested :
    ∃ bytes, marshalDumpObject (.tuple [.dict [(.int (-5), .slice .none (some .ellipsis) .none)],
        .list [.bytes [1, 2], .float ⟨3⟩]]) = .ok bytes ∧ ∀ rest : List UInt8,
      MarshalReader.readObject (fun _ => .none) true ⟨bytes ++ rest, 0, []⟩ =
        .ok (.tuple [.dict [(.int (-5), .slice .none (some .ellipsis) .none)],
          .list [.bytes [1, 2], .float ⟨3⟩]], ⟨bytes ++ rest, bytes.length, []⟩) := by
  refine load_dump _ ⟨by decide, ⟨⟨?_, trivial⟩, ?_, trivial⟩, ⟨by decide, ?_⟩, trivial⟩
  · exact PyObject.noConfusion
  · exact ⟨trivial, ⟨PyObject.noConfusion, trivial⟩, trivial⟩
  · exact ⟨(by decide : (2 : ℕ) < 2 ^ 31), trivial, trivial⟩

end

end Pyrs
