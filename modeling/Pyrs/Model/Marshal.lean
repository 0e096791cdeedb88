import Pyrs.Library.Binary64
import Pyrs.Library.Decoding
import Mathlib.Data.Nat.Digits.Defs

/-!
# Marshal

The objects that a code object holds, the bytes that `MarshalWriter` makes of them, and the reader
of the bytes.  The reader takes a fuel, which bounds the depth of the objects; the bytes that are
left are enough of it, because each object takes one.
-/

namespace Pyrs

open Decoding

/-- The payload of a code object, over the objects that are its constants. -/
structure CpythonCode (Object : Type) where
  argcount : Int32
  posonlyargcount : Int32
  kwonlyargcount : Int32
  stacksize : Int32
  flags : Int32
  code : List UInt8
  consts : List Object
  names : List String
  localsplusnames : List String
  localspluskinds : List UInt8
  filename : String
  name : String
  qualname : String
  firstlineno : Int32
  linetable : List UInt8
  exceptiontable : List UInt8

/-- The objects that the marshal format writes. -/
inductive PyObject
  | null
  | none
  | stopIteration
  | ellipsis
  | bool (value : Bool)
  | int (value : Int64)
  | bigInt (value : ℤ)
  | float (value : Binary64)
  | complex (real imag : Binary64)
  | str (value : String)
  | bytes (value : List UInt8)
  | tuple (items : List PyObject)
  | list (items : List PyObject)
  | dict (entries : List (PyObject × PyObject))
  | set (items : List PyObject)
  | frozenSet (items : List PyObject)
  | code (code : CpythonCode PyObject)
  | slice (lower upper step : Option PyObject)

/-- A message, a panic, or the end of the fuel. -/
inductive MarshalError
  | message (text : String)
  | panic
  | outOfFuel

/-- The byte of a type. -/
def tag (type : Char) : UInt8 := UInt8.ofNat type.toNat

/-- A text in UTF-8. -/
def stringBytes (value : String) : List UInt8 := value.toUTF8.data.toList

/-! ## Writing -/

/-- What a writer gives: bytes or an error. -/
abbrev Written : Type := Except MarshalError (List UInt8)

def writeI32 (value : Int32) : List UInt8 := leBytes 4 value.toUInt32.toNat

def writeU16 (value : ℕ) : List UInt8 := leBytes 2 value

/-- A float, in eight bytes. -/
def writeF64 (value : Binary64) : List UInt8 := leBytes 8 value.bits.toNat

/-- A length, which an `i32` must hold. -/
def writeLength (length : ℕ) (message : String) : Written :=
  if length < 2 ^ 31 then .ok (writeI32 (Int32.ofNat length)) else .error (.message message)

/-- Bytes behind their length. -/
def writeBytesLong (bytes : List UInt8) : Written := do
  return (← writeLength bytes.length "byte sequence too large for marshal") ++ bytes

/-- A bytes object. -/
def writeBytes (value : List UInt8) : Written := do
  return tag 's' :: (← writeBytesLong value)

/-- A text object. -/
def writeStr (value : String) : Written := do
  return tag 'u' :: (← writeBytesLong (stringBytes value))

/-- The digits in base `2 ^ 15`; their count has the sign. -/
def writeLong (value : Int64) : Written := do
  if value = 0 then return writeI32 0
  let digits := Nat.digits (2 ^ 15) value.toInt.natAbs
  if digits.length < 2 ^ 31 then
    let count := Int32.ofNat digits.length
    return writeI32 (if value < 0 then -count else count) ++ digits.flatMap writeU16
  else .error (.message "long constant too large")

/-- An integer: in four bytes where it fits, else in digits. -/
def writeInt (value : Int64) : Written := do
  if -2 ^ 31 ≤ value.toInt ∧ value.toInt ≤ 2 ^ 31 - 1 then
    return tag 'i' :: writeI32 value.toInt32
  else return tag 'l' :: (← writeLong value)

/-- A sequence of written items, with its tag and its length. -/
def writeSequence (type : Char) (length : ℕ) (message : String) (items : Written) : Written := do
  let size ← writeLength length message
  return tag type :: (size ++ (← items))

/-- The texts of a tuple of names. -/
def writeStrs : List String → Written
  | [] => return []
  | value :: values => do return (← writeStr value) ++ (← writeStrs values)

/-- A tuple of strings. -/
def writeNames (values : List String) : Written :=
  writeSequence '(' values.length "tuple constant too large" (writeStrs values)

mutual

/-- `write_object`: the tag of an object and what stands behind it. -/
def writeObject : PyObject → Written
  | .null => return [tag '0']
  | .none => return [tag 'N']
  | .stopIteration => return [tag 'S']
  | .ellipsis => return [tag '.']
  | .bool false => return [tag 'F']
  | .bool true => return [tag 'T']
  | .int value => writeInt value
  | .bigInt _ => .error (.message "cannot marshal bigint constants outside i64 range")
  | .float value => return tag 'g' :: writeF64 value
  | .complex real imag => return tag 'y' :: (writeF64 real ++ writeF64 imag)
  | .str value => writeStr value
  | .bytes value => writeBytes value
  | .tuple items =>
    writeSequence '(' items.length "tuple constant too large" (writeObjects items)
  | .list items => writeSequence '[' items.length "list constant too large" (writeObjects items)
  | .dict entries => do return tag '{' :: ((← writeEntries entries) ++ [tag '0'])
  | .set items => writeSequence '<' items.length "set constant too large" (writeObjects items)
  | .frozenSet items =>
    writeSequence '>' items.length "frozenset constant too large" (writeObjects items)
  | .code code => writeCode code
  | .slice lower upper step => do
    return tag ':' :: ((← writeBound lower) ++ ((← writeBound upper) ++ (← writeBound step)))

/-- The items of a tuple, a list or a set. -/
def writeObjects : List PyObject → Written
  | [] => return []
  | item :: items => do return (← writeObject item) ++ (← writeObjects items)

/-- The entries of a dict, each key before its value. -/
def writeEntries : List (PyObject × PyObject) → Written
  | [] => return []
  | (key, value) :: entries => do
    return (← writeObject key) ++ ((← writeObject value) ++ (← writeEntries entries))

/-- A bound of a slice, or `None`. -/
def writeBound : Option PyObject → Written
  | some value => writeObject value
  | .none => return [tag '0']

/-- The fields of a code object, in the order of the format. -/
def writeCode : CpythonCode PyObject → Written
  | ⟨argcount, posonlyargcount, kwonlyargcount, stacksize, flags, code, consts, names,
      localsplusnames, localspluskinds, filename, name, qualname, firstlineno, linetable,
      exceptiontable⟩ => do
    let header := writeI32 argcount ++ (writeI32 posonlyargcount ++ (writeI32 kwonlyargcount ++
      (writeI32 stacksize ++ writeI32 flags)))
    let code ← writeBytes code
    let consts ← writeSequence '(' consts.length "tuple constant too large" (writeObjects consts)
    let names ← writeNames names
    let localsplusnames ← writeNames localsplusnames
    let localspluskinds ← writeBytes localspluskinds
    let filename ← writeStr filename
    let name ← writeStr name
    let qualname ← writeStr qualname
    let linetable ← writeBytes linetable
    let exceptiontable ← writeBytes exceptiontable
    return tag 'c' :: (header ++ (code ++ (consts ++ (names ++ (localsplusnames ++
      (localspluskinds ++ (filename ++ (name ++ (qualname ++ (writeI32 firstlineno ++
        (linetable ++ exceptiontable)))))))))))

end

def marshalDumpObject (object : PyObject) : Written := writeObject object

/-! ## Reading -/

/-- A position in the data; it keeps the references. -/
abbrev MarshalReader : Type := Cursor (List PyObject)

/-- A reader over the bytes and the references that were stored. -/
abbrev Read (α : Type) : Type := Decoder MarshalError (List PyObject) α

/-- Fails with a message. -/
def Read.fail {α : Type} (text : String) : Read α := throw (.message text)

def readU8 : Read UInt8 := do
  let self ← get
  match self.data[self.offset]? with
  | some byte =>
    set { self with offset := self.offset + 1 }
    return byte
  | .none => Read.fail "unexpected end of data"

/-- The slice of the data from the offset on; where its end is past the data, it may overflow. -/
def readExact (size : ℕ) : Read (List UInt8) := do
  let self ← get
  let stop := self.offset + size
  if stop ≤ self.data.length then
    set { self with offset := stop }
    return (self.data.drop self.offset).take size
  else if 2 ^ 64 ≤ stop then throw .panic
  else Read.fail "unexpected end of data"

def readI32 : Read Int32 := do
  return (UInt32.ofNat (fromLeBytes (← readExact 4))).toInt32

def readU16 : Read ℕ := do
  return fromLeBytes (← readExact 2)

/-- A float, from eight bytes. -/
def readF64 : Read Binary64 := do
  return ⟨UInt64.ofNat (fromLeBytes (← readExact 8))⟩

/-- `as usize`: a negative number is a large one. -/
def usizeOfI32 (value : Int32) : ℕ := (value.toInt % 2 ^ 64).toNat

/-- A short length. -/
def usizeOfU8 (value : UInt8) : ℕ := value.toNat

/-- Reads a number of items. -/
def readTimes {α : Type} (read : Read α) : ℕ → Read (List α)
  | 0 => return []
  | count + 1 => do
    let item ← read
    return item :: (← readTimes read count)

/-- `i64::try_from`. -/
def toI64 (value : ℤ) : Option Int64 :=
  if -2 ^ 63 ≤ value ∧ value < 2 ^ 63 then some (Int64.ofInt value) else .none

/-- An integer in digits of 15 bits, with the sign in their number. -/
def readLongObject : Read PyObject := do
  let n ← readI32
  if n = 0 then return .int 0
  let digits ← readTimes readU16 n.toInt.natAbs
  let magnitude : ℕ := digits.foldr (fun digit value => value * 2 ^ 15 + digit) 0
  let value : ℤ := if n < 0 then -magnitude else magnitude
  match toI64 value with
  | some integer => return .int integer
  | .none => return .bigInt value

/-- Bytes behind their length. -/
def readBytesLong : Read (List UInt8) := do
  readExact (usizeOfI32 (← readI32))

/-- A text, or the message. -/
def decodeUtf8 (bytes : List UInt8) (message : String) : Read String :=
  match String.fromUTF8? bytes.toByteArray with
  | some value => return value
  | .none => Read.fail message

/-- A text behind a length of four bytes. -/
def readStringLong : Read String := do
  decodeUtf8 (← readBytesLong) "invalid utf8"

/-- A text behind a length of one byte. -/
def readStringShort : Read String := do
  decodeUtf8 (← readExact (usizeOfU8 (← readU8))) "invalid utf8"

/-- A number that the code parses from its text. -/
def readFloatText (parse : String → Option Binary64) : Read PyObject := do
  let text ← decodeUtf8 (← readExact (usizeOfU8 (← readU8))) "invalid marshal float string"
  match parse text with
  | some value => return .float value
  | .none => Read.fail "invalid marshal float literal"

/-- A vector with room for the items, which then are read; room for too many overflows. -/
def readSequence (read : Read PyObject) (size : ℕ) : Read (List PyObject) :=
  if 2 ^ 63 ≤ size then throw .panic else readTimes read size

/-- The entries of a dict up to the null that ends them. -/
def readEntries (read : Read PyObject) : ℕ → Read (List (PyObject × PyObject))
  | 0 => throw .outOfFuel
  | fuel + 1 => do
    match ← read with
    | .null => return []
    | key => do
      let value ← read
      return (key, value) :: (← readEntries read fuel)

/-- The bytes of an object, or the message. -/
def asBytes (message : String) : PyObject → Read (List UInt8)
  | .bytes value => return value
  | _ => Read.fail message

/-- The items of a tuple or a list, or the message. -/
def asItems (message : String) : PyObject → Read (List PyObject)
  | .tuple items | .list items => return items
  | _ => Read.fail message

/-- The text of an object, or the message. -/
def asStr (message : String) : PyObject → Read String
  | .str value => return value
  | _ => Read.fail message

/-- The texts of a list of names. -/
def parseStrList : List PyObject → Read (List String)
  | [] => return []
  | item :: items => do
    let value ← asStr "expected string in list" item
    return value :: (← parseStrList items)

/-- The fields of a code object, each checked for its type. -/
def readCode (read : Read PyObject) : Read PyObject := do
  let argcount ← readI32
  let posonlyargcount ← readI32
  let kwonlyargcount ← readI32
  let stacksize ← readI32
  let flags ← readI32
  let code ← read
  let consts ← read
  let names ← read
  let localsplusnames ← read
  let localspluskinds ← read
  let filename ← read
  let name ← read
  let qualname ← read
  let firstlineno ← readI32
  let linetable ← read
  let exceptiontable ← read
  let code ← asBytes "code object missing bytes" code
  let consts ← asItems "code consts must be tuple/list" consts
  let names ← parseStrList (← asItems "code names must be tuple/list" names)
  let localsplusnames ←
    parseStrList (← asItems "localsplusnames must be tuple/list" localsplusnames)
  let localspluskinds ← asBytes "localspluskinds must be bytes" localspluskinds
  let filename ← asStr "filename must be string" filename
  let name ← asStr "name must be string" name
  let qualname ← asStr "qualname must be string" qualname
  let linetable ← asBytes "linetable must be bytes" linetable
  let exceptiontable ← asBytes "exceptiontable must be bytes" exceptiontable
  return .code
    { argcount, posonlyargcount, kwonlyargcount, stacksize, flags, code, consts, names,
      localsplusnames, localspluskinds, filename, name, qualname, firstlineno, linetable,
      exceptiontable }

/-- A bound of a slice. -/
def bound : PyObject → Option PyObject
  | .null => .none
  | value => some value

/-- The bounds of a slice. -/
def readSlice (read : Read PyObject) : Read PyObject := do
  let lower ← read
  let upper ← read
  let step ← read
  return .slice (bound lower) (bound upper) (bound step)

/-- A reference to an object that was read with a flag. -/
def readRef : Read PyObject := do
  let index := usizeOfI32 (← readI32)
  match (← get).kept[index]? with
  | some value => return value
  | .none => Read.fail "invalid marshal reference"

/-- The place of an object among the references, taken before its parts are read. -/
def reserveRef : Read ℕ := do
  let self ← get
  set { self with kept := self.kept ++ [PyObject.null] }
  return self.kept.length

/-- The object in the place that was reserved for it. -/
def storeRef (value : PyObject) : Option ℕ → Read PUnit
  | .none => return
  | some index => do
    let self ← get
    if self.kept.length ≤ index then Read.fail "invalid marshal reference"
    else set { self with kept := self.kept.set index value }

/-- How an unknown type is shown: an ASCII character in quotes. -/
def debugChar (type : Char) : String :=
  let quote := String.singleton (Char.ofNat 39)
  let body :=
    if type.toNat = 9 then "\\t" else if type.toNat = 13 then "\\r"
    else if type.toNat = 10 then "\\n" else if type.toNat = 39 then "\\" ++ quote
    else if type.toNat = 92 then "\\\\" else if type.toNat = 0 then "\\0"
    else if type.toNat < 32 ∨ type.toNat = 127 then
      "\\u\x7b" ++ String.ofList (Nat.toDigits 16 type.toNat) ++ "\x7d"
    else type.toString
  quote ++ body ++ quote

section

variable (parse : String → Option Binary64) (allowCode : Bool)

/-- The value of a type, over the reader of the objects in it. -/
def readValue (read : Read PyObject) (fuel : ℕ) (type : Char) : Read PyObject :=
  match type with
  | '0' => return .null
  | 'N' => return .none
  | 'S' => return .stopIteration
  | '.' => return .ellipsis
  | 'F' => return .bool false
  | 'T' => return .bool true
  | 'i' => do return .int (← readI32).toInt64
  | 'l' => readLongObject
  | 'g' => do return .float (← readF64)
  | 'y' => do
    let real ← readF64
    return .complex real (← readF64)
  | 'f' => readFloatText parse
  | 's' => do return .bytes (← readBytesLong)
  | 'a' | 'A' | 'u' | 't' => do return .str (← readStringLong)
  | 'z' | 'Z' => do return .str (← readStringShort)
  | '(' => do return .tuple (← readSequence read (usizeOfI32 (← readI32)))
  | ')' => do return .tuple (← readSequence read (usizeOfU8 (← readU8)))
  | '[' => do return .list (← readSequence read (usizeOfI32 (← readI32)))
  | '{' => do return .dict (← readEntries read fuel)
  | '<' => do return .set (← readSequence read (usizeOfI32 (← readI32)))
  | '>' => do return .frozenSet (← readSequence read (usizeOfI32 (← readI32)))
  | 'c' => if allowCode then readCode read else Read.fail "code objects not allowed"
  | ':' => readSlice read
  | other => Read.fail ("unsupported marshal type " ++ debugChar other)

/-- `read_object`, with as many levels as there is fuel. -/
def readObjectFrom : ℕ → Read PyObject
  | 0 => throw .outOfFuel
  | fuel + 1 => do
    let code ← readU8
    let refIndex ← if code &&& 0x80 ≠ 0 then some <$> reserveRef else pure .none
    let type := Char.ofNat (code &&& 0x7f).toNat
    if type = 'r' then readRef
    else do
      let value ← readValue parse allowCode (readObjectFrom fuel) fuel type
      storeRef value refIndex
      return value

/-- `read_object`; the fuel covers every byte that is left. -/
def MarshalReader.readObject : Read PyObject := do
  let self ← get
  readObjectFrom parse allowCode (self.data.length - self.offset + 1)

def marshalLoadObject (bytes : List UInt8) : Except MarshalError PyObject := do
  let (object, _) ← MarshalReader.readObject parse allowCode ⟨bytes, 0, []⟩
  return object

end

end Pyrs
