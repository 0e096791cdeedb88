import Mathlib
import Pyrs.Library.Decoding
import Pyrs.Model.Json

/-!
# Unpickling

`fast_pickle_decode_bytes`: the frames of a stream, and the stack machine over its payload.  The
values refer to objects of a heap; an object is at the place of its id.  A run stops where the code
returns `None`, or where it would panic.  The arithmetic is checked, as it is in a build with
overflow checks; an index into the bytes is a natural number, since a vector is shorter than
`2 ^ 63`.
-/

namespace Pyrs.Unpickling

open Decoding

/-- The values that the fast decoder makes. -/
inductive PickleValue
  | none
  | bool (value : Bool)
  | int (value : Int64)
  | str (value : String)
  | bytes (id : ℕ)
  | tuple (id : ℕ)
  | list (id : ℕ)
  | dict (id : ℕ)
deriving DecidableEq

/-- An entry of a dict.  A key that is not hashable has no hash. -/
structure PickleEntry where
  key : PickleValue
  value : PickleValue
  hash : Option UInt64

/-- The objects of its heap. -/
inductive PickleObject
  | bytes (values : List UInt8)
  | tuple (values : List PickleValue)
  | list (values : List PickleValue)
  | dict (entries : List PickleEntry)

/-- The objects in the order of their allocation. -/
abbrev PickleHeap : Type := List PickleObject

/-- The ways to panic. -/
inductive PicklePanic
  | splitOff
  | shiftOverflow
  | addOverflow
  | borrowError
  | stackOverflow

/-- The decoder gives up, or it panics. -/
inductive PickleStop
  | refused
  | panic (cause : PicklePanic)

/-- The decoder gives up. -/
def refuse {α : Type} : Except PickleStop α := .error .refused

/-- The decoder panics. -/
def panicWith {α : Type} (cause : PicklePanic) : Except PickleStop α := .error (.panic cause)

/-- `?` on an option. -/
def orRefuse {α : Type} : Option α → Except PickleStop α
  | some value => .ok value
  | none => refuse

/-! ## Keys -/

/-- What is fed to the hasher.  The hashes of the elements are those of a tuple. -/
inductive PickleHashInput
  | none
  | number (value : ℤ)
  | str (text : String)
  | tuple (hashes : List UInt64)
  | bytes (values : List UInt8)

section Keys

variable (hash : PickleHashInput → UInt64) (heap : PickleHeap) (borrowed : ℕ)

/-- `ObjRef::kind`, while an object is borrowed for a change. -/
def kind (id : ℕ) : Except PickleStop PickleObject :=
  if id = borrowed then panicWith .borrowError else orRefuse heap[id]?

/-- The elements up to the first one without a hash. -/
def hashKeys (hashKey : PickleValue → Except PickleStop (Option UInt64)) :
    List PickleValue → Except PickleStop (Option (List UInt64))
  | [] => return some []
  | value :: values => do
    match ← hashKey value with
    | none => return none
    | some first =>
      match ← hashKeys hashKey values with
      | none => return none
      | some hashes => return some (first :: hashes)

/-- `value_hash_key`, as deep as the stack allows. -/
def valueHashKey : ℕ → PickleValue → Except PickleStop (Option UInt64)
  | 0, _ => panicWith .stackOverflow
  | levels + 1, value =>
    match value with
    | .none => return some (hash .none)
    | .bool value => return some (hash (.number (if value then 1 else 0)))
    | .int value => return some (hash (.number value.toInt))
    | .str text => return some (hash (.str text))
    | .bytes id => do
      match ← kind heap borrowed id with
      | .bytes values => return some (hash (.bytes values))
      | _ => return none
    | .tuple id => do
      match ← kind heap borrowed id with
      | .tuple values =>
        match ← hashKeys (valueHashKey levels) values with
        | some hashes => return some (hash (.tuple hashes))
        | none => return none
      | _ => return none
    | .list _ | .dict _ => return none

/-- The elements up to the first ones that differ. -/
def allEqual (equal : PickleValue → PickleValue → Except PickleStop Bool) :
    List PickleValue → List PickleValue → Except PickleStop Bool
  | left :: lefts, right :: rights => do
    if ← equal left right then allEqual equal lefts rights else return false
  | _, _ => return true

/-- Items are equal one after the other. -/
def valuesEqual (equal : PickleValue → PickleValue → Except PickleStop Bool)
    (left right : List PickleValue) : Except PickleStop Bool :=
  if left.length = right.length then allEqual equal left right else .ok false

/-- The place of the first entry that passes a test. -/
def position (test : PickleEntry → Except PickleStop Bool) :
    List PickleEntry → Except PickleStop (Option ℕ)
  | [] => return none
  | entry :: entries => do
    if ← test entry then return some 0
    else return (← position test entries).map (· + 1)

/-- Entries with another hash are not compared. -/
def sameKey (equal : PickleValue → PickleValue → Except PickleStop Bool) (key : PickleValue)
    (keyHash : UInt64) (entry : PickleEntry) : Except PickleStop Bool :=
  if entry.hash = some keyHash then equal entry.key key else .ok false

/-- `find_index`: without a hash, or without entries that have one, every entry is compared. -/
def findIndex (hashKey : PickleValue → Except PickleStop (Option UInt64))
    (equal : PickleValue → PickleValue → Except PickleStop Bool) (entries : List PickleEntry)
    (key : PickleValue) : Except PickleStop (Option ℕ) := do
  match ← hashKey key with
  | some keyHash =>
    if entries.any fun entry => entry.hash.isSome then position (sameKey equal key keyHash) entries
    else position (fun entry => equal entry.key key) entries
  | none => position (fun entry => equal entry.key key) entries

/-- Each entry of a dict is found in the other one, with an equal value. -/
def entriesEqual (find : PickleValue → Except PickleStop (Option ℕ))
    (equal : PickleValue → PickleValue → Except PickleStop Bool) (others : List PickleEntry) :
    List PickleEntry → Except PickleStop Bool
  | [] => return true
  | entry :: entries => do
    match (← find entry.key).bind (others[·]?) with
    | none => return false
    | some other =>
      if ← equal other.value entry.value then entriesEqual find equal others entries
      else return false

mutual

/-- The equality of values. -/
def valueEqual : ℕ → PickleValue → PickleValue → Except PickleStop Bool
  | 0, _, _ => panicWith .stackOverflow
  | levels + 1, left, right =>
    match left, right with
    | .none, .none => return true
    | .bool left, .bool right => return left == right
    | .bool left, .int right => return (if left then 1 else 0) == right
    | .int left, .int right => return left == right
    | .int left, .bool right => return left == (if right then 1 else 0)
    | .str left, .str right => return left == right
    | .bytes left, .bytes right => do
      match ← kind heap borrowed left, ← kind heap borrowed right with
      | .bytes left, .bytes right => return left == right
      | _, _ => return false
    | .tuple left, .tuple right => do
      match ← kind heap borrowed left, ← kind heap borrowed right with
      | .tuple left, .tuple right => valuesEqual (valueEqual levels) left right
      | _, _ => return false
    | .list left, .list right => do
      match ← kind heap borrowed left, ← kind heap borrowed right with
      | .list left, .list right => valuesEqual (valueEqual levels) left right
      | _, _ => return false
    | .dict left, .dict right => do
      match ← kind heap borrowed left, ← kind heap borrowed right with
      | .dict left, .dict right =>
        if left.length = right.length then
          entriesEqual
            (findIndex (valueHashKey hash heap borrowed levels) (valueKeyEqual levels) right)
            (valueEqual levels) right left
        else return false
      | _, _ => return false
    | _, _ => return false

/-- `value_key_equal`, as deep as the stack allows. -/
def valueKeyEqual : ℕ → PickleValue → PickleValue → Except PickleStop Bool
  | 0, _, _ => panicWith .stackOverflow
  | levels + 1, left, right => do
    if ← valueEqual levels left right then return true
    else
      match left, right with
      | .tuple left, .tuple right =>
        match ← kind heap borrowed left, ← kind heap borrowed right with
        | .tuple left, .tuple right => valuesEqual (valueKeyEqual levels) left right
        | _, _ => return false
      | _, _ => return false

end

/-- What goes deeper comes to a pair of objects again, and never returns. -/
def stackLevels (heap : PickleHeap) : ℕ := 2 * (heap.length * heap.length) + 2

/-- `DictObject::insert`, into the entries of the borrowed dict. -/
def insertEntry (entries : List PickleEntry) (key value : PickleValue) :
    Except PickleStop (List PickleEntry) := do
  let equal := valueKeyEqual hash heap borrowed (stackLevels heap)
  match ← valueHashKey hash heap borrowed (stackLevels heap) key with
  | none =>
    match ← position (fun entry => equal entry.key key) entries with
    | some index => return entries.modify index fun entry => { entry with value := value }
    | none => return entries ++ [⟨key, value, none⟩]
  | some keyHash =>
    match ← position (sameKey equal key keyHash) entries with
    | some index =>
      return entries.modify index fun entry => { entry with value := value, hash := some keyHash }
    | none => return entries ++ [⟨key, value, some keyHash⟩]

/-- The pairs of the items, one after the other; an item is left over at the end of an odd list. -/
def insertPairs : List PickleEntry → List PickleValue → Except PickleStop (List PickleEntry)
  | entries, key :: value :: items => do
    insertPairs (← insertEntry hash heap borrowed entries key value) items
  | entries, _ => return entries

end Keys

/-! ## Opcodes -/

/-- The instructions of the decoder, with their arguments. -/
inductive PickleOp
  | push (value : PickleValue)
  | bytes (data : List UInt8)
  | emptyList
  | emptyDict
  | mark
  | tuple (count : ℕ)
  | tupleMark
  | append
  | appends
  | setItem
  | setItems
  | put (slot : ℕ)
  | get (slot : ℕ)
  | memoize
  | stop

/-- `payload.get(idx..idx + count)`. -/
def slice (payload : List UInt8) (idx count : ℕ) : Except PickleStop (List UInt8) :=
  if idx + count ≤ payload.length then .ok ((payload.drop idx).take count) else refuse

/-- The bytes up to a newline, and the index behind it. -/
def readLine (payload : List UInt8) (idx : ℕ) : Except PickleStop (List UInt8 × ℕ) :=
  let line := (payload.drop idx).takeWhile (· ≠ ascii '\n')
  if idx + line.length < payload.length then .ok (line, idx + line.length + 1) else refuse

/-- `str::from_utf8`. -/
def utf8Text (data : List UInt8) : Except PickleStop String :=
  orRefuse (String.fromUTF8? data.toByteArray)

/-- The value of digits, of which there is one at least. -/
def parseDigitsText (digits : List Char) : Option ℕ :=
  if digits ≠ [] ∧ ∀ ch ∈ digits, ch.isDigit then
    some (digits.foldl (fun value ch => value * 10 + (ch.toNat - 48)) 0)
  else none

/-- `str::parse::<i64>`. -/
def parseI64Text (text : String) : Option Int64 := do
  let value ← match text.toList with
    | '-' :: digits => (parseDigitsText digits).map fun value => -(value : ℤ)
    | '+' :: digits => (parseDigitsText digits).map fun value => (value : ℤ)
    | digits => (parseDigitsText digits).map fun value => (value : ℤ)
  parseI64 value

/-- `str::parse::<usize>`. -/
def parseUsizeText (text : String) : Option ℕ := do
  let value ← match text.toList with
    | '+' :: digits => parseDigitsText digits
    | digits => parseDigitsText digits
  if value < 2 ^ 64 then some value else none

/-- The last byte of a long has its sign bit. -/
def isNegative (data : List UInt8) : Bool := data.getLast?.any fun byte => byte &&& 0x80 ≠ 0

/-- A negative value is shifted down by the width of the bytes, in 128 bits. -/
def fastPickleDecodeI64 (data : List UInt8) : Except PickleStop Int64 :=
  if data = [] then .ok 0
  else if 16 < data.length then refuse
  else if isNegative data then
    if data.length = 16 then panicWith .shiftOverflow
    else orRefuse (parseI64 (fromLeBytes data - 2 ^ (8 * data.length)))
  else orRefuse (parseI64 (fromLeBytes data))

section Fetch

variable (payload : List UInt8)

/-- A length of some bytes, and the data that is as long. -/
def readSized (width idx : ℕ) : Except PickleStop (List UInt8 × ℕ) := do
  let count := fromLeBytes (← slice payload idx width)
  let data ← slice payload (idx + width) count
  return (data, idx + width + count)

/-- A place of the memo, in bytes. -/
def readSlot (width idx : ℕ) : Except PickleStop (ℕ × ℕ) :=
  return (fromLeBytes (← slice payload idx width), idx + width)

/-- A place of the memo, in digits. -/
def readSlotLine (idx : ℕ) : Except PickleStop (ℕ × ℕ) := do
  let (line, idx) ← readLine payload idx
  let slot ← orRefuse (parseUsizeText (← utf8Text line))
  return (slot, idx)

/-- The boolean or integer of a line. -/
def lineValue (text : String) : Except PickleStop PickleValue :=
  if text = "00" then .ok (.bool false)
  else if text = "01" then .ok (.bool true)
  else (orRefuse (parseI64Text text)).map .int

/-- The operation at an index, and the index behind it. -/
def fetch (idx : ℕ) : Except PickleStop (PickleOp × ℕ) := do
  let opcode ← orRefuse payload[idx]?
  let idx := idx + 1
  if opcode = ascii 'N' then return (.push .none, idx)
  else if opcode = 0x88 then return (.push (.bool true), idx)
  else if opcode = 0x89 then return (.push (.bool false), idx)
  else if opcode = ascii 'K' then
    let byte ← orRefuse payload[idx]?
    return (.push (.int (Int64.ofNat byte.toNat)), idx + 1)
  else if opcode = ascii 'J' then
    let data ← slice payload idx 4
    return (.push (.int (UInt32.ofNat (fromLeBytes data)).toInt32.toInt64), idx + 4)
  else if opcode = ascii 'I' then
    let (line, idx) ← readLine payload idx
    return (.push (← lineValue (← utf8Text line)), idx)
  else if opcode = 0x8a then
    let (data, idx) ← readSized payload 1 idx
    return (.push (.int (← fastPickleDecodeI64 data)), idx)
  else if opcode = 0x8b then
    let (data, idx) ← readSized payload 4 idx
    return (.push (.int (← fastPickleDecodeI64 data)), idx)
  else if opcode = 0x8c then
    let (data, idx) ← readSized payload 1 idx
    return (.push (.str (← utf8Text data)), idx)
  else if opcode = ascii 'X' then
    let (data, idx) ← readSized payload 4 idx
    return (.push (.str (← utf8Text data)), idx)
  else if opcode = ascii 'C' then
    let (data, idx) ← readSized payload 1 idx
    return (.bytes data, idx)
  else if opcode = ascii 'B' then
    let (data, idx) ← readSized payload 4 idx
    return (.bytes data, idx)
  else if opcode = ascii ']' then return (.emptyList, idx)
  else if opcode = ascii '}' then return (.emptyDict, idx)
  else if opcode = ascii ')' then return (.tuple 0, idx)
  else if opcode = ascii '(' then return (.mark, idx)
  else if opcode = 0x85 then return (.tuple 1, idx)
  else if opcode = 0x86 then return (.tuple 2, idx)
  else if opcode = 0x87 then return (.tuple 3, idx)
  else if opcode = ascii 't' then return (.tupleMark, idx)
  else if opcode = ascii 'a' then return (.append, idx)
  else if opcode = ascii 'e' then return (.appends, idx)
  else if opcode = ascii 's' then return (.setItem, idx)
  else if opcode = ascii 'u' then return (.setItems, idx)
  else if opcode = ascii 'p' then
    let (slot, idx) ← readSlotLine payload idx
    return (.put slot, idx)
  else if opcode = ascii 'g' then
    let (slot, idx) ← readSlotLine payload idx
    return (.get slot, idx)
  else if opcode = ascii 'q' then
    let (slot, idx) ← readSlot payload 1 idx
    return (.put slot, idx)
  else if opcode = ascii 'r' then
    let (slot, idx) ← readSlot payload 4 idx
    return (.put slot, idx)
  else if opcode = ascii 'h' then
    let (slot, idx) ← readSlot payload 1 idx
    return (.get slot, idx)
  else if opcode = ascii 'j' then
    let (slot, idx) ← readSlot payload 4 idx
    return (.get slot, idx)
  else if opcode = 0x94 then return (.memoize, idx)
  else if opcode = ascii '.' then return (.stop, idx)
  else refuse

end Fetch

/-! ## The stack machine -/

/-- The top of the stack, and of the marks, is at the end. -/
structure PickleState where
  heap : PickleHeap
  stack : List PickleValue
  marks : List ℕ
  memo : List (ℕ × PickleValue)
  memoNext : ℕ

namespace PickleState

variable (state : PickleState)

/-- A value is pushed. -/
def push (value : PickleValue) : PickleState := { state with stack := state.stack ++ [value] }

/-- A new object, and the state that has it. -/
def alloc (object : PickleObject) : PickleState := { state with heap := state.heap ++ [object] }

/-- The top of the stack. -/
def pop : Except PickleStop (PickleValue × PickleState) := do
  let value ← orRefuse state.stack.getLast?
  return (value, { state with stack := state.stack.dropLast })

/-- The top of the stack, which stays. -/
def last : Except PickleStop PickleValue := orRefuse state.stack.getLast?

/-- The values that are popped last come first. -/
def popValues : ℕ → PickleState → List PickleValue → Except PickleStop (List PickleValue × PickleState)
  | 0, state, values => .ok (values, state)
  | count + 1, state, values => do
    let (value, state) ← state.pop
    popValues count state (value :: values)

/-- `marks.pop()` and `stack.split_off(mark)`. -/
def splitMark : Except PickleStop (List PickleValue × PickleState) := do
  let mark ← orRefuse state.marks.getLast?
  if mark ≤ state.stack.length then
    return (state.stack.drop mark,
      { state with marks := state.marks.dropLast, stack := state.stack.take mark })
  else panicWith .splitOff

/-- A new tuple is pushed. -/
def pushTuple (values : List PickleValue) : PickleState :=
  (state.alloc (.tuple values)).push (.tuple state.heap.length)

/-- The values are put at the end of the list on the top of the stack. -/
def extendList (values : List PickleValue) : Except PickleStop PickleState := do
  match ← state.last with
  | .list id =>
    match state.heap[id]? with
    | some (.list items) => return { state with heap := state.heap.set id (.list (items ++ values)) }
    | _ => refuse
  | _ => refuse

/-- The pairs are inserted into the dict on the top of the stack. -/
def extendDict (hash : PickleHashInput → UInt64) (items : List PickleValue) :
    Except PickleStop PickleState := do
  match ← state.last with
  | .dict id =>
    match state.heap[id]? with
    | some (.dict entries) =>
      let entries ← insertPairs hash state.heap id entries items
      return { state with heap := state.heap.set id (.dict entries) }
    | _ => refuse
  | _ => refuse

/-- `value + 1` of a `usize`. -/
def addOne (value : ℕ) : Except PickleStop ℕ :=
  if value + 1 < 2 ^ 64 then .ok (value + 1) else panicWith .addOverflow

/-- The top of the stack is stored in a place of the memo. -/
def memoPut (slot : ℕ) : Except PickleStop PickleState := do
  let value ← state.last
  let memoNext ← if state.memoNext ≤ slot then addOne slot else .ok state.memoNext
  return { state with memo := (slot, value) :: state.memo, memoNext := memoNext }

/-- The value in a place of the memo is pushed. -/
def memoGet (slot : ℕ) : Except PickleStop PickleState :=
  return state.push (← orRefuse (state.memo.lookup slot))

/-- The top of the stack is stored in the next place of the memo. -/
def memoize : Except PickleStop PickleState := do
  let value ← state.last
  let memoNext ← addOne state.memoNext
  return { state with memo := (state.memoNext, value) :: state.memo, memoNext := memoNext }

/-- An operation other than the last one. -/
def perform (hash : PickleHashInput → UInt64) : PickleOp → Except PickleStop PickleState
  | .push value => return state.push value
  | .bytes data => return (state.alloc (.bytes data)).push (.bytes state.heap.length)
  | .emptyList => return (state.alloc (.list [])).push (.list state.heap.length)
  | .emptyDict => return (state.alloc (.dict [])).push (.dict state.heap.length)
  | .mark => return { state with marks := state.marks ++ [state.stack.length] }
  | .tuple count => do
    let (values, state) ← popValues count state []
    return state.pushTuple values
  | .tupleMark => do
    let (values, state) ← state.splitMark
    return state.pushTuple values
  | .append => do
    let (value, state) ← state.pop
    state.extendList [value]
  | .appends => do
    let (values, state) ← state.splitMark
    state.extendList values
  | .setItem => do
    let (items, state) ← popValues 2 state []
    state.extendDict hash items
  | .setItems => do
    let (items, state) ← state.splitMark
    if items.length % 2 ≠ 0 then refuse else state.extendDict hash items
  | .put slot => state.memoPut slot
  | .get slot => state.memoGet slot
  | .memoize => state.memoize
  | .stop => refuse

end PickleState

section Decode

variable (hash : PickleHashInput → UInt64)

/-- The loop over the payload; each round takes a byte. -/
def decodeLoop (payload : List UInt8) :
    ℕ → PickleState → ℕ → Except PickleStop (PickleValue × PickleHeap)
  | 0, _, _ => refuse
  | rounds + 1, state, idx =>
    if idx < payload.length then do
      let (op, idx) ← fetch payload idx
      match op with
      | .stop =>
        if idx ≠ payload.length then refuse
        else do
          let (value, state) ← state.pop
          return (value, state.heap)
      | op => decodeLoop payload rounds (← state.perform hash op) idx
    else refuse

def fastPickleDecodePayload (payload : List UInt8) : Except PickleStop (PickleValue × PickleHeap) :=
  decodeLoop hash payload (payload.length + 1) ⟨[], [], [], [], 0⟩ 0

/-- How many bytes an opcode of a stream outside of frames takes, with its argument. -/
def rawOpcodeLength (data : List UInt8) (idx : ℕ) : Option ℕ := do
  let opcode ← data[idx]?
  let counted (width : ℕ) : Option ℕ :=
    if idx + 1 + width ≤ data.length then
      some (1 + width + fromLeBytes ((data.drop (idx + 1)).take width))
    else none
  if opcode ∈ [ascii 'N', 0x88, 0x89, ascii ']', ascii '}', ascii ')', ascii '(', ascii 'e',
      ascii 'u', ascii 't', 0x85, 0x86, 0x87, ascii '.', ascii 'a', ascii 's', 0x94] then some 1
  else if opcode ∈ [ascii 'K', ascii 'h', ascii 'q'] then some 2
  else if opcode ∈ [ascii 'J', ascii 'j', ascii 'r'] then some 5
  else if opcode ∈ [ascii 'X', ascii 'B', 0x8b] then counted 4
  else if opcode ∈ [0x8a, 0x8c, ascii 'C'] then counted 1
  else if opcode ∈ [ascii 'I', ascii 'p', ascii 'g'] then
    let line := (data.drop (idx + 1)).takeWhile (· ≠ ascii '\n')
    if idx + 1 + line.length < data.length then some (line.length + 2) else none
  else none

def fastPickleCopyRawStreamOpcode (data : List UInt8) (idx : ℕ) (payload : List UInt8) :
    Except PickleStop (List UInt8 × ℕ) := do
  let length ← orRefuse (rawOpcodeLength data idx)
  if idx + length ≤ data.length then
    return (payload ++ (data.drop idx).take length, idx + length)
  else refuse

/-- The frame at an index; the index behind it is computed first. -/
def copyFrame (data : List UInt8) (idx : ℕ) (payload : List UInt8) :
    Except PickleStop (List UInt8 × ℕ) := do
  let length := fromLeBytes (← slice data (idx + 1) 8)
  if 2 ^ 64 ≤ idx + 9 + length then panicWith .addOverflow
  else
    let frame ← slice data (idx + 9) length
    return (payload ++ frame, idx + 9 + length)

/-- The frame or the opcode at an index. -/
def copyPart (data : List UInt8) (idx : ℕ) (payload : List UInt8) :
    Except PickleStop (List UInt8 × ℕ) :=
  if data[idx]? = some 0x95 then copyFrame data idx payload
  else fastPickleCopyRawStreamOpcode data idx payload

/-- The loop over the parts of a stream; each round takes a byte. -/
def copyParts (data : List UInt8) : ℕ → ℕ → List UInt8 → Except PickleStop (List UInt8)
  | 0, _, _ => refuse
  | rounds + 1, idx, payload =>
    if idx < data.length then do
      let (payload, idx) ← copyPart data idx payload
      copyParts data rounds idx payload
    else .ok payload

/-- The first protocol that the decoder takes. -/
def pickleMinFastProtocol : ℕ := 3

/-- The last protocol that the decoder takes. -/
def pickleMaxFastProtocol : ℕ := 5

/-- The payload of a stream; from protocol 4 on it is in frames, and in opcodes between them. -/
def streamPayload (data : List UInt8) : Except PickleStop (List UInt8) :=
  match data with
  | first :: protocol :: rest =>
    if first ≠ 0x80 then refuse
    else if protocol.toNat < pickleMinFastProtocol ∨ pickleMaxFastProtocol < protocol.toNat then
      refuse
    else if 4 ≤ protocol.toNat then copyParts data (data.length + 1) 2 []
    else .ok rest
  | _ => refuse

def fastPickleDecodeBytes (data : List UInt8) : Except PickleStop (PickleValue × PickleHeap) := do
  fastPickleDecodePayload hash (← streamPayload data)

end Decode

end Pyrs.Unpickling
