import Pyrs.Library.Decoding
import Pyrs.Model.Numbers
import Mathlib.Data.Nat.Digits.Defs

/-!
# Key values

The values that can be keys, the equality that the containers use of them, and their lookup hash.
An instance stands for the value in one of its backing-storage attributes.  The hasher is any
function of the bytes that are fed to it.
-/

namespace Pyrs

open Decoding

/-- The values that keys are made of. -/
inductive KeyValue
  | none
  | number (value : Number)
  | complex (real imag : Binary64)
  | str (text : String)
  | bytes (values : List UInt8)
  | byteArray (values : List UInt8)
  | tuple (values : List KeyValue)
  | frozenSet (values : List KeyValue)
  | instanceObject (id : UInt64) (attrs : List (String × KeyValue))

/-! ## Backing storage -/

def strBackingStorageAttr : String := "__pyrs_str_storage__"

def intBackingStorageAttr : String := "__pyrs_int_storage__"

def floatBackingStorageAttr : String := "__pyrs_float_storage__"

def complexBackingStorageAttr : String := "__pyrs_complex_storage__"

def bytesBackingStorageAttr : String := "__pyrs_bytes_storage__"

def tupleBackingStorageAttr : String := "__pyrs_tuple_storage__"

namespace KeyValue

/-- What the storage of a `str` may hold. -/
def isStr : KeyValue → Bool
  | .str _ => true
  | _ => false

/-- What the storage of an `int` may hold. -/
def isInt : KeyValue → Bool
  | .number (.int _) | .number (.bigInt _) => true
  | _ => false

/-- What the storage of a `float` may hold. -/
def isFloat : KeyValue → Bool
  | .number (.float _) => true
  | _ => false

/-- What the storage of a `complex` may hold. -/
def isComplex : KeyValue → Bool
  | .complex _ _ => true
  | _ => false

/-- What the storage of a `bytes` may hold. -/
def isBytes : KeyValue → Bool
  | .bytes _ => true
  | _ => false

/-- What the storage of a `tuple` may hold. -/
def isTuple : KeyValue → Bool
  | .tuple _ => true
  | _ => false

/-- The value that an instance stands for.  An integer, bytes or tuple attribute of another type
ends the search; another attribute of another type is passed. -/
def instanceHashableBackingValue (attrs : List (String × KeyValue)) : Option KeyValue :=
  match (attrs.lookup strBackingStorageAttr).filter isStr with
  | some value => some value
  | Option.none =>
    match attrs.lookup intBackingStorageAttr with
    | some value => if value.isInt then some value else Option.none
    | Option.none =>
      match (attrs.lookup floatBackingStorageAttr).filter isFloat with
      | some value => some value
      | Option.none =>
        match (attrs.lookup complexBackingStorageAttr).filter isComplex with
        | some value => some value
        | Option.none =>
          match attrs.lookup bytesBackingStorageAttr with
          | some value => if value.isBytes then some value else Option.none
          | Option.none =>
            match attrs.lookup tupleBackingStorageAttr with
            | some value => if value.isTuple then some value else Option.none
            | Option.none => Option.none

/-- The bytes behind an instance. -/
def instanceBytesStorage (attrs : List (String × KeyValue)) : Option (List UInt8) :=
  match attrs.lookup bytesBackingStorageAttr with
  | some (.bytes values) | some (.byteArray values) => some values
  | _ => Option.none

/-- The backing value of an instance. -/
def backing : KeyValue → Option KeyValue
  | .instanceObject _ attrs => instanceHashableBackingValue attrs
  | _ => Option.none

lemma sizeOf_lookup {attrs : List (String × KeyValue)} {name : String} {value : KeyValue}
    (h : attrs.lookup name = some value) : sizeOf value < sizeOf attrs := by
  induction attrs with
  | nil => cases h
  | cons attr attrs ih =>
    obtain ⟨other, first⟩ := attr
    rw [List.lookup_cons] at h
    split at h
    · obtain rfl := Option.some.inj h
      simp only [List.cons.sizeOf_spec, Prod.mk.sizeOf_spec]
      omega
    · have hlt := ih h
      simp only [List.cons.sizeOf_spec]
      omega

lemma sizeOf_instanceHashableBackingValue {attrs : List (String × KeyValue)} {value : KeyValue}
    (h : instanceHashableBackingValue attrs = some value) : sizeOf value < sizeOf attrs := by
  have hfilter : ∀ {name : String} {p : KeyValue → Bool} {found : KeyValue},
      (attrs.lookup name).filter p = some found → sizeOf found < sizeOf attrs :=
    fun hfound => sizeOf_lookup (Option.filter_eq_some_iff.1 hfound).1
  have hcheck : ∀ {name : String} {p : KeyValue → Bool} {found : KeyValue},
      attrs.lookup name = some found → (if p found then some found else Option.none) = some value →
        sizeOf value < sizeOf attrs := by
    intro name p found hfound hvalue
    split at hvalue
    · obtain rfl := Option.some.inj hvalue
      exact sizeOf_lookup hfound
    · cases hvalue
  rw [instanceHashableBackingValue] at h
  split at h
  · obtain rfl := Option.some.inj h
    exact hfilter ‹_›
  split at h
  · exact hcheck ‹_› h
  split at h
  · obtain rfl := Option.some.inj h
    exact hfilter ‹_›
  split at h
  · obtain rfl := Option.some.inj h
    exact hfilter ‹_›
  split at h
  · exact hcheck ‹_› h
  split at h
  · exact hcheck ‹_› h
  · cases h

lemma sizeOf_backing {value other : KeyValue} (h : value.backing = some other) :
    sizeOf other < sizeOf value := by
  cases value with
  | instanceObject id attrs =>
    have hlt := sizeOf_instanceHashableBackingValue h
    simp only [instanceObject.sizeOf_spec]
    omega
  | _ => cases h

end KeyValue

/-! ## Hashes -/

def hashMix64 (value : UInt64) : UInt64 :=
  let value := value ^^^ (value >>> 30)
  let value := value * 0xbf58476d1ce4e5b9
  let value := value ^^^ (value >>> 27)
  let value := value * 0x94d049bb133111eb
  value ^^^ (value >>> 31)

/-- The bits of a float, of which the zeros have the same. -/
def normalizedBits (value : Binary64) : UInt64 := if value.isZero then 0 else value.bits

/-- `to_i64`: an integer that fits. -/
def bigIntToI64 (value : ℤ) : Option Int64 :=
  if -2 ^ 63 ≤ value ∧ value < 2 ^ 63 then some (Int64.ofInt value) else none

/-- `to_f64`: the limbs, from the last one on, each sum and product rounded. -/
def bigIntToF64 (value : ℤ) : Binary64 :=
  Binary64.withSign (decide (value < 0))
    ((Nat.digits (2 ^ 32) value.natAbs).foldr
      (fun limb value => (value.scaleNat (2 ^ 32)).addNat limb) (Binary64.ofNat false 0))

/-- The float of a big integer, where it is exact. -/
def exactF64 (value : ℤ) : Option Binary64 :=
  let asFloat := bigIntToF64 value
  if asFloat.isFinite && fromF64Integral asFloat == some value then some asFloat else none

/-- The bits that a number is hashed by, where it is one of a float. -/
def fastNumericHashBits : Number → Option UInt64
  | .bool value => some (Number.boolToF64 value).bits
  | .int value => some (Number.int64ToF64 value).bits
  | .bigInt value =>
    match bigIntToI64 value with
    | some small => some (Number.int64ToF64 small).bits
    | none => (exactF64 value).map normalizedBits
  | .float value => some (normalizedBits value)

/-- What a `u64` feeds to a hasher. -/
def hashU64 (value : UInt64) : List UInt8 := leBytes 8 value.toNat

/-- What a `usize` feeds to a hasher. -/
def hashUsize (value : ℕ) : List UInt8 := leBytes 8 value

/-- What a big integer feeds to the hasher: its sign, and its limbs behind their number. -/
def hashBigInt (value : ℤ) : List UInt8 :=
  let limbs := Nat.digits (2 ^ 32) value.natAbs
  let sign : UInt8 := if value < 0 then 255 else if value = 0 then 0 else 1
  sign :: (hashUsize limbs.length ++ limbs.flatMap (leBytes 4))

section Hash

variable (hasher : List UInt8 → UInt64)

/-- The hash of a number. -/
def numberHash (value : Number) : Option UInt64 :=
  match fastNumericHashBits value with
  | some bits => some (hashMix64 (((1 : UInt64) <<< 56) ^^^ bits))
  | none =>
    match value with
    | .bigInt integer =>
      match exactF64 integer with
      | some asFloat => some (hasher (1 :: hashU64 (normalizedBits asFloat)))
      | none => some (hasher (1 :: 255 :: hashBigInt integer))
    | _ => none

mutual

/-- `value_hash_key`, which `value_lookup_hash` calls. -/
def valueHashKey : KeyValue → Option UInt64
  | .none => some (hashMix64 0)
  | .number value => numberHash hasher value
  | .complex real imag =>
    some (hasher (2 :: (hashU64 (normalizedBits real) ++ hashU64 (normalizedBits imag))))
  | .str text => some (hasher (3 :: (text.toUTF8.data.toList ++ [255])))
  | .tuple values => (hashItems values).map fun hashes => hasher (4 :: hashes.flatMap hashU64)
  | .frozenSet values =>
    (hashItems values).map fun hashes =>
      hasher (5 :: (hashU64 (hashes.foldl (· ^^^ ·) 0) ++ hashUsize values.length))
  | .bytes values => some (hasher (6 :: (hashUsize values.length ++ values)))
  | .byteArray _ => none
  | .instanceObject id attrs =>
    match _hbacking : KeyValue.instanceHashableBackingValue attrs with
    | some value => valueHashKey value
    | none => some (hasher (11 :: hashU64 id))
termination_by value => sizeOf value
decreasing_by
  all_goals first
    | decreasing_tactic
    | (have hlt := KeyValue.sizeOf_instanceHashableBackingValue ‹_›
       simp only [KeyValue.instanceObject.sizeOf_spec]
       omega)

/-- The hashes of the items, in order. -/
def hashItems : List KeyValue → Option (List UInt64)
  | [] => some []
  | value :: values => do
    let hash ← valueHashKey value
    return hash :: (← hashItems values)
termination_by values => sizeOf values

end

/-! ## Equality -/

mutual

/-- The equality of values. -/
def valueEq : KeyValue → KeyValue → Bool
  | .none, .none => true
  | .number a, .number b => a.eq b
  | .complex aReal aImag, .complex bReal bImag =>
    aReal.bits == bReal.bits && aImag.bits == bImag.bits
  | .str a, .str b => a == b
  | .tuple a, .tuple b => valueEqItems a b
  | .frozenSet a, .frozenSet b => a.length == b.length && containsAll b a
  | .bytes a, .bytes b | .byteArray a, .byteArray b | .bytes a, .byteArray b
  | .byteArray b, .bytes a => a == b
  | .instanceObject a left, .instanceObject b right =>
    match KeyValue.instanceBytesStorage left, KeyValue.instanceBytesStorage right with
    | some left, some right => left == right
    | _, _ => a == b
  | .instanceObject _ attrs, .byteArray values | .byteArray values, .instanceObject _ attrs
  | .instanceObject _ attrs, .bytes values | .bytes values, .instanceObject _ attrs =>
    KeyValue.instanceBytesStorage attrs == some values
  | _, _ => false
termination_by a b => 2 * (sizeOf a + sizeOf b)

/-- `==` of items, one after the other. -/
def valueEqItems : List KeyValue → List KeyValue → Bool
  | [], [] => true
  | a :: left, b :: right => valueEq a b && valueEqItems left right
  | _, _ => false
termination_by left right => 2 * (sizeOf left + sizeOf right)

/-- The members of a set that a bucket of the index leads to, or all where the value has no hash. -/
def contains (lookup : Option UInt64) : List KeyValue → KeyValue → Bool
  | [], _ => false
  | item :: items, value =>
    ((lookup.isNone || valueHashKey hasher item == lookup) && valueKeyEqual item value) ||
      contains lookup items value
termination_by items value => 2 * (sizeOf items + sizeOf value)

/-- Each value equals one of the set. -/
def containsAll (set : List KeyValue) : List KeyValue → Bool
  | [] => true
  | value :: values => contains (valueHashKey hasher value) set value && containsAll set values
termination_by values => 2 * (sizeOf set + sizeOf values)

def valueKeyEqual (left right : KeyValue) : Bool :=
  valueEq left right ||
    match _hleft : left.backing with
    | some value => valueKeyEqual value right
    | none =>
      match _hright : right.backing with
      | some value => valueKeyEqual left value
      | none =>
        match left, right with
        | .number left, .number right => left.keyEqual right
        | .complex leftReal leftImag, .complex rightReal rightImag =>
          floatKeyEqual leftReal rightReal && floatKeyEqual leftImag rightImag
        | .tuple left, .tuple right => left.length == right.length && keyEqualItems left right
        | .frozenSet left, .frozenSet right =>
          left.length == right.length &&
            matchAll left right (List.replicate right.length false)
        | _, _ => false
termination_by 2 * (sizeOf left + sizeOf right) + 1
decreasing_by
  all_goals first
    | decreasing_tactic
    | (have hlt := KeyValue.sizeOf_backing ‹_›
       omega)

/-- `value_key_equal` of items, one after the other. -/
def keyEqualItems : List KeyValue → List KeyValue → Bool
  | a :: left, b :: right => valueKeyEqual a b && keyEqualItems left right
  | _, _ => true
termination_by left right => 2 * (sizeOf left + sizeOf right)

/-- The flags of the members once the first unmatched one that equals a value is matched. -/
def matchOne (value : KeyValue) : List KeyValue → List Bool → Option (List Bool)
  | item :: items, matched :: flags =>
    if !matched && valueKeyEqual value item then some (true :: flags)
    else (matchOne value items flags).map (matched :: ·)
  | _, _ => none
termination_by items _ => 2 * (sizeOf value + sizeOf items)

/-- The loop of `frozenset_key_equal`. -/
def matchAll : List KeyValue → List KeyValue → List Bool → Bool
  | [], _, _ => true
  | value :: values, items, flags =>
    match matchOne value items flags with
    | some flags => matchAll values items flags
    | none => false
termination_by values items _ => 2 * (sizeOf values + sizeOf items)

end

end Hash

end Pyrs
