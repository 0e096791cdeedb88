import Mathlib.Data.List.Basic
import Mathlib.Data.Nat.Bitwise

/-!
# Character classes

The class items of a compiled pattern, and the interpreter that asks them about a character.  What
the standard library knows of letters is a parameter: the lower case of a character, the
alphanumeric characters and the white space.
-/

namespace Pyrs

namespace Sre

def SRE_OP_FAILURE : ℤ := 0
def SRE_OP_CATEGORY : ℤ := 8
def SRE_OP_CHARSET : ℤ := 9
def SRE_OP_BIGCHARSET : ℤ := 10
def SRE_OP_IN : ℤ := 13
def SRE_OP_LITERAL : ℤ := 16
def SRE_OP_NEGATE : ℤ := 21
def SRE_OP_RANGE : ℤ := 22
def SRE_OP_IN_IGNORE : ℤ := 31
def SRE_OP_LITERAL_IGNORE : ℤ := 32
def SRE_OP_IN_LOC_IGNORE : ℤ := 35
def SRE_OP_LITERAL_LOC_IGNORE : ℤ := 36
def SRE_OP_IN_UNI_IGNORE : ℤ := 39
def SRE_OP_LITERAL_UNI_IGNORE : ℤ := 40
def SRE_OP_RANGE_UNI_IGNORE : ℤ := 42

def SRE_CATEGORY_DIGIT : ℤ := 0
def SRE_CATEGORY_NOT_DIGIT : ℤ := 1
def SRE_CATEGORY_SPACE : ℤ := 2
def SRE_CATEGORY_NOT_SPACE : ℤ := 3
def SRE_CATEGORY_WORD : ℤ := 4
def SRE_CATEGORY_NOT_WORD : ℤ := 5
def SRE_CATEGORY_LINEBREAK : ℤ := 6
def SRE_CATEGORY_NOT_LINEBREAK : ℤ := 7
def SRE_CATEGORY_LOC_WORD : ℤ := 8
def SRE_CATEGORY_LOC_NOT_WORD : ℤ := 9
def SRE_CATEGORY_UNI_DIGIT : ℤ := 10
def SRE_CATEGORY_UNI_NOT_DIGIT : ℤ := 11
def SRE_CATEGORY_UNI_SPACE : ℤ := 12
def SRE_CATEGORY_UNI_NOT_SPACE : ℤ := 13
def SRE_CATEGORY_UNI_WORD : ℤ := 14
def SRE_CATEGORY_UNI_NOT_WORD : ℤ := 15
def SRE_CATEGORY_UNI_LINEBREAK : ℤ := 16
def SRE_CATEGORY_UNI_NOT_LINEBREAK : ℤ := 17

def SRE_CODE_SIZE_BYTES : ℕ := 4
def SRE_CODE_BITS : ℕ := SRE_CODE_SIZE_BYTES * 8
def SRE_CHARSET_WORDS : ℕ := 256 / SRE_CODE_BITS
def SRE_BIGCHARSET_MAPPING_WORDS : ℕ := 256 / SRE_CODE_SIZE_BYTES

/-! ## Characters -/

def INTERNAL_SURROGATE_BASE : ℕ := 0x10F800
def INTERNAL_SURROGATE_LIMIT : ℕ := INTERNAL_SURROGATE_BASE + 0x800

/-- A string holds a surrogate as a character of a range that stands for the surrogates. -/
def canonicalCodepointForInternalChar (ch : Char) : ℕ :=
  if INTERNAL_SURROGATE_BASE ≤ ch.toNat ∧ ch.toNat < INTERNAL_SURROGATE_LIMIT then
    0xD800 + (ch.toNat - INTERNAL_SURROGATE_BASE)
  else ch.toNat

/-- `char::from_u32`: a surrogate is no character. -/
def charFromU32 (value : ℕ) : Option Char :=
  if value.isValidChar then some (Char.ofNat value) else none

def isAsciiDigit (ch : Char) : Bool := '0' ≤ ch && ch ≤ '9'

def isAsciiAlphanumeric (ch : Char) : Bool :=
  isAsciiDigit ch || ('a' ≤ ch && ch ≤ 'z') || ('A' ≤ ch && ch ≤ 'Z')

/-- Space, tab, line feed, form feed and carriage return. -/
def isAsciiWhitespace (ch : Char) : Bool := ch.toNat ∈ [0x20, 0x09, 0x0A, 0x0C, 0x0D]

section

variable (toLowercase : Char → List Char) (isAlphanumeric isWhitespace : Char → Bool)

def sreCharEqualIgnoreCase (left right : Char) : Bool :=
  left == right || toLowercase left == toLowercase right

def sreCharIsWordAscii (ch : Char) : Bool := ch == '_' || isAsciiAlphanumeric ch

def sreCharIsWordUnicode (ch : Char) : Bool := ch == '_' || isAlphanumeric ch

/-- `sre_category_matches`; no character is in a category that is not known. -/
def sreCategoryMatches (category : ℤ) (ch : Char) : Bool :=
  if category = SRE_CATEGORY_DIGIT then isAsciiDigit ch
  else if category = SRE_CATEGORY_NOT_DIGIT then !isAsciiDigit ch
  else if category = SRE_CATEGORY_SPACE then isAsciiWhitespace ch
  else if category = SRE_CATEGORY_NOT_SPACE then !isAsciiWhitespace ch
  else if category = SRE_CATEGORY_WORD then sreCharIsWordAscii ch
  else if category = SRE_CATEGORY_NOT_WORD then !sreCharIsWordAscii ch
  else if category = SRE_CATEGORY_LINEBREAK then ch == '\n'
  else if category = SRE_CATEGORY_NOT_LINEBREAK then ch != '\n'
  else if category = SRE_CATEGORY_LOC_WORD then sreCharIsWordAscii ch
  else if category = SRE_CATEGORY_LOC_NOT_WORD then !sreCharIsWordAscii ch
  else if category = SRE_CATEGORY_UNI_DIGIT then isAsciiDigit ch
  else if category = SRE_CATEGORY_UNI_NOT_DIGIT then !isAsciiDigit ch
  else if category = SRE_CATEGORY_UNI_SPACE then isWhitespace ch
  else if category = SRE_CATEGORY_UNI_NOT_SPACE then !isWhitespace ch
  else if category = SRE_CATEGORY_UNI_WORD then sreCharIsWordUnicode isAlphanumeric ch
  else if category = SRE_CATEGORY_UNI_NOT_WORD then !sreCharIsWordUnicode isAlphanumeric ch
  else if category = SRE_CATEGORY_UNI_LINEBREAK then ch == '\n'
  else if category = SRE_CATEGORY_UNI_NOT_LINEBREAK then ch != '\n'
  else false

/-! ## Words -/

def sreReadUsize (code : List ℤ) (index : ℕ) : Option ℕ := do
  let raw ← code[index]?
  if raw < 0 then none else some raw.toNat

def sreReadU32 (code : List ℤ) (index : ℕ) : Option ℕ := do
  let raw ← code[index]?
  if 0 ≤ raw ∧ raw.toNat < 2 ^ 32 then some raw.toNat else none

/-- `sre_bitmap_contains`: one bit of the words of a set. -/
def sreBitmapContains (code : List ℤ) (wordsStart bitIndex : ℕ) : Option Bool := do
  let word ← sreReadU32 code (wordsStart + bitIndex / SRE_CODE_BITS)
  return word &&& (1 <<< (bitIndex % SRE_CODE_BITS)) != 0

/-- The bytes of a word stand in the order of a little-endian machine. -/
def sreBigcharsetMappingByte (code : List ℤ) (mappingStart byteIndex : ℕ) : Option ℕ := do
  let word ← sreReadU32 code (mappingStart + byteIndex / SRE_CODE_SIZE_BYTES)
  return word / 256 ^ (byteIndex % SRE_CODE_SIZE_BYTES) % 256

/-- A `checked_add` or `checked_mul`. -/
def checkedUsize (value : ℕ) : Option ℕ := if value < 2 ^ 64 then some value else none

/-! ## Classes -/

/-- What the interpreter does behind an item. -/
inductive ClassStep
  | done (result : Bool)
  | next (idx : ℕ)

/-- An item that takes the character ends the class. -/
def ClassStep.item (isMatch ok : Bool) (idx : ℕ) : ClassStep :=
  if isMatch then .done ok else .next idx

/-- The loop, behind a step. -/
def ClassStep.continueWith (loop : ℕ → Option Bool) : ClassStep → Option Bool
  | .done result => some result
  | .next idx => loop idx

/-- The classes that ignore case. -/
def sreIgnoreCase (op : ℤ) : Bool :=
  op = SRE_OP_IN_IGNORE ∨ op = SRE_OP_IN_LOC_IGNORE ∨ op = SRE_OP_IN_UNI_IGNORE

/-- One character of a class. -/
def sreClassLiteral (code : List ℤ) (op : ℤ) (ch : Char) (ok : Bool) (idx : ℕ) :
    Option ClassStep := do
  let value ← sreReadU32 code idx
  let expected ← charFromU32 value
  let isMatch :=
    if sreIgnoreCase op then sreCharEqualIgnoreCase toLowercase ch expected else ch == expected
  return .item isMatch ok (idx + 1)

/-- The first character of the lower case, which a range is asked for. -/
def lowerFirst (ch : Char) : Char := (toLowercase ch).head?.getD ch

/-- A range of a class; with `SRE_OP_RANGE_UNI_IGNORE` also for the lower case. -/
def sreClassRange (code : List ℤ) (op opcode : ℤ) (ch : Char) (ok : Bool) (idx : ℕ) :
    Option ClassStep := do
  let lo ← charFromU32 (← sreReadU32 code idx)
  let hi ← charFromU32 (← sreReadU32 code (idx + 1))
  let isMatch : Bool :=
    if sreIgnoreCase op ∨ opcode = SRE_OP_RANGE_UNI_IGNORE then
      lowerFirst toLowercase ch ≥ lowerFirst toLowercase lo ∧
        lowerFirst toLowercase ch ≤ lowerFirst toLowercase hi
    else ch ≥ lo ∧ ch ≤ hi
  return .item isMatch ok (idx + 2)

/-- A category of a class. -/
def sreClassCategory (code : List ℤ) (ch : Char) (ok : Bool) (idx : ℕ) : Option ClassStep := do
  let category ← code[idx]?
  return .item (sreCategoryMatches isAlphanumeric isWhitespace category ch) ok (idx + 1)

/-- A set of the first 256 characters. -/
def sreClassCharset (code : List ℤ) (ch : Char) (ok : Bool) (idx : ℕ) : Option ClassStep := do
  let isMatch ← if ch.toNat < 256 then sreBitmapContains code idx ch.toNat else some false
  if isMatch then return .done ok
  else return .next (← checkedUsize (idx + SRE_CHARSET_WORDS))

/-- A set of the characters below 65536, as blocks of 256. -/
def sreClassBigcharset (code : List ℤ) (ch : Char) (ok : Bool) (idx : ℕ) : Option ClassStep := do
  let blockCount ← sreReadUsize code idx
  let mappingStart := idx + 1
  let block ←
    if ch.toNat < 0x10000 then
      (sreBigcharsetMappingByte code mappingStart (ch.toNat >>> 8)).map some
    else some none
  let idx ← checkedUsize (mappingStart + SRE_BIGCHARSET_MAPPING_WORDS)
  let isMatch ←
    match block with
    | some blockIndex =>
      if blockIndex < blockCount then do
        let blockWordsOffset ← checkedUsize (blockIndex * SRE_CHARSET_WORDS)
        let blockStart ← checkedUsize (idx + blockWordsOffset)
        sreBitmapContains code blockStart (ch.toNat &&& 0xff)
      else some false
    | none => some false
  if isMatch then return .done ok
  else return .next (← checkedUsize (idx + (← checkedUsize (blockCount * SRE_CHARSET_WORDS))))

/-- The loop over the items.  Each of them moves the index, so that the words of the class are
enough fuel. -/
def sreClassLoop (code : List ℤ) (classEnd : ℕ) (op : ℤ) (ch : Char) :
    ℕ → ℕ → Bool → Option Bool
  | 0, _, ok => some !ok
  | fuel + 1, idx, ok =>
    if idx < classEnd then do
      let opcode ← code[idx]?
      let continueWith :=
        ClassStep.continueWith fun idx => sreClassLoop code classEnd op ch fuel idx ok
      let idx := idx + 1
      if opcode = SRE_OP_FAILURE then some !ok
      else if opcode = SRE_OP_NEGATE then sreClassLoop code classEnd op ch fuel idx !ok
      else if opcode = SRE_OP_LITERAL ∨ opcode = SRE_OP_LITERAL_IGNORE ∨
          opcode = SRE_OP_LITERAL_LOC_IGNORE ∨ opcode = SRE_OP_LITERAL_UNI_IGNORE then
        continueWith (← sreClassLiteral toLowercase code op ch ok idx)
      else if opcode = SRE_OP_RANGE ∨ opcode = SRE_OP_RANGE_UNI_IGNORE then
        continueWith (← sreClassRange toLowercase code op opcode ch ok idx)
      else if opcode = SRE_OP_CATEGORY then
        continueWith (← sreClassCategory isAlphanumeric isWhitespace code ch ok idx)
      else if opcode = SRE_OP_CHARSET then continueWith (← sreClassCharset code ch ok idx)
      else if opcode = SRE_OP_BIGCHARSET then continueWith (← sreClassBigcharset code ch ok idx)
      else none
    else some !ok

/-- `sre_class_matches`. -/
def sreClassMatches (code : List ℤ) (classStart classEnd : ℕ) (op : ℤ) (ch : Char) : Option Bool :=
  sreClassLoop toLowercase isAlphanumeric isWhitespace code classEnd op ch (classEnd - classStart)
    classStart true

end

end Sre

end Pyrs
