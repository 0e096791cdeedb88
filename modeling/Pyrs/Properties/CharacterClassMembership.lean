import Pyrs.Model.CharacterClasses
import Mathlib.Tactic.IntervalCases
import Mathlib.Tactic.Ring

/-!
# Membership in character classes

A class is a list of items, each a set of characters, and the words that the compiler of patterns
emits for them.  `sreClassMatches` answers for the union of the items, except that it has no answer
where it meets a surrogate, and that it asks some items about the character that is there and not
about its lower case.
-/

namespace Pyrs

namespace Sre

/-! ## Classes -/

inductive ClassOp
  | in_
  | inIgnore
  | inUniIgnore

def ClassOp.opcode : ClassOp → ℤ
  | in_ => SRE_OP_IN
  | inIgnore => SRE_OP_IN_IGNORE
  | inUniIgnore => SRE_OP_IN_UNI_IGNORE

abbrev CodePoint : Type := Fin 0x110000

/-- The 256 bits of a charset. -/
def Bitmap : Type := Fin 8 → UInt32

inductive Item
  | literal (value : CodePoint)
  | range (lo hi : CodePoint)
  | category (kind : ℤ)
  | charset (words : Bitmap)
  | bigcharset (mapping : Fin 256 → UInt8) (blocks : List Bitmap)
      (mapping_lt : ∀ i, (mapping i).toNat < blocks.length)

def Bitmap.encode (words : Bitmap) : List ℤ := List.ofFn fun i => ((words i).toNat : ℤ)

/-- Four bytes of the mapping of a big charset. -/
def mappingWord (mapping : Fin 256 → UInt8) (i : Fin 64) : ℤ :=
  let byte (k : ℕ) (h : k < 4) : ℕ := (mapping ⟨4 * i.val + k, by omega⟩).toNat
  byte 0 (by omega) + 256 * byte 1 (by omega) + 256 ^ 2 * byte 2 (by omega) +
    256 ^ 3 * byte 3 (by omega)

def Item.encode : Item → List ℤ
  | literal value => [SRE_OP_LITERAL, value.val]
  | range lo hi => [SRE_OP_RANGE, lo.val, hi.val]
  | category kind => [SRE_OP_CATEGORY, kind]
  | charset words => SRE_OP_CHARSET :: words.encode
  | bigcharset mapping blocks _ =>
    SRE_OP_BIGCHARSET :: blocks.length ::
      (List.ofFn (mappingWord mapping) ++ blocks.flatMap Bitmap.encode)

def encodeClass (negate : Bool) (items : List Item) : List ℤ :=
  (if negate then [SRE_OP_NEGATE] else []) ++ (items.flatMap Item.encode ++ [SRE_OP_FAILURE])

/-! ## Membership -/

def Bitmap.contains (words : Bitmap) (bit : ℕ) : Bool :=
  if h : bit < 256 then (words ⟨bit / 32, by omega⟩).toNat.testBit (bit % 32) else false

def IsSurrogate (code : ℕ) : Prop := 0xD800 ≤ code ∧ code < 0xE000

instance (code : ℕ) : Decidable (IsSurrogate code) := inferInstanceAs (Decidable (_ ∧ _))

section

variable (toLowercase : Char → List Char) (isAlphanumeric isWhitespace : Char → Bool)

/-- The items that are a set of code points, or a set of characters. -/
def Item.holds (code : ℕ) (ch : Char) : Item → Bool
  | literal value => code = value.val
  | range lo hi => lo.val ≤ code ∧ code ≤ hi.val
  | category kind => sreCategoryMatches isAlphanumeric isWhitespace kind ch
  | charset words => words.contains code
  | bigcharset mapping blocks h =>
    if hcode : code < 0x10000 then
      (blocks.get ⟨(mapping ⟨code / 256, by omega⟩).toNat, h _⟩).contains (code % 256)
    else false

/-- A character is in an item with the code point that Python gives it. -/
def Item.contains (ch : Char) (item : Item) : Bool :=
  item.holds isAlphanumeric isWhitespace (canonicalCodepointForInternalChar ch) ch

def asciiLower (ch : Char) : Char :=
  if 'A' ≤ ch ∧ ch ≤ 'Z' then Char.ofNat (ch.toNat + 32) else ch

/-- The character that a class is about.  The lower case of one character is the first of the
characters that a string has as lower case. -/
def lowered (op : ClassOp) (ch : Char) : Char :=
  match op with
  | .in_ => ch
  | .inIgnore => asciiLower ch
  | .inUniIgnore => lowerFirst toLowercase ch

/-! ## What the interpreter asks -/

/-- A literal and a range are compared with the lower case of a character where the case is
ignored, and all other items with the character. -/
def Item.accepts (op : ClassOp) (ch : Char) : Item → Bool
  | literal value => (charFromU32 value.val).any fun expected =>
    if sreIgnoreCase op.opcode then sreCharEqualIgnoreCase toLowercase ch expected
    else ch == expected
  | range lo hi => (charFromU32 lo.val).any fun lo => (charFromU32 hi.val).any fun hi =>
    if sreIgnoreCase op.opcode then
      lowerFirst toLowercase ch ≥ lowerFirst toLowercase lo ∧
        lowerFirst toLowercase ch ≤ lowerFirst toLowercase hi
    else ch ≥ lo ∧ ch ≤ hi
  | item => item.holds isAlphanumeric isWhitespace ch.toNat ch

def Item.HasSurrogateBound : Item → Prop
  | literal value => IsSurrogate value.val
  | range lo hi => IsSurrogate lo.val ∨ IsSurrogate hi.val
  | category _ | charset _ | bigcharset _ _ _ => False

instance (item : Item) : Decidable item.HasSurrogateBound := by
  cases item <;> unfold Item.HasSurrogateBound <;> infer_instance

/-- No literal or range that has a surrogate as a bound is met in front of an item that takes the
character. -/
def ReadsThrough (op : ClassOp) (ch : Char) : List Item → Prop
  | [] => True
  | item :: items => ¬ item.HasSurrogateBound ∧
      (item.accepts toLowercase isAlphanumeric isWhitespace op ch ∨ ReadsThrough op ch items)

/-- An item that is asked about a character and answers otherwise than for its lower case. -/
def Item.TellsApart (op : ClassOp) (ch : Char) (item : Item) : Prop :=
  item.accepts toLowercase isAlphanumeric isWhitespace op ch ≠
    item.contains isAlphanumeric isWhitespace (lowered toLowercase op ch)

instance (op : ClassOp) (ch : Char) (item : Item) :
    Decidable (item.TellsApart toLowercase isAlphanumeric isWhitespace op ch) :=
  inferInstanceAs (Decidable (_ ≠ _))

/-- No item tells the character and its lower case apart, or that does not matter: an item that does
not tells them apart has them both, or one item has the first only and another the second. -/
def Indifferent (op : ClassOp) (ch : Char) (items : List Item) : Prop :=
  let tellsApart := Item.TellsApart toLowercase isAlphanumeric isWhitespace op ch
  let holdsLower := Item.contains isAlphanumeric isWhitespace (lowered toLowercase op ch)
  (∀ item ∈ items, ¬ tellsApart item) ∨ (∃ item ∈ items, ¬ tellsApart item ∧ holdsLower item) ∨
    (∃ item ∈ items, tellsApart item ∧ holdsLower item) ∧
      ∃ item ∈ items, tellsApart item ∧ ¬ holdsLower item

instance (op : ClassOp) (ch : Char) (items : List Item) :
    Decidable (Indifferent toLowercase isAlphanumeric isWhitespace op ch items) := by
  unfold Indifferent
  infer_instance

instance (op : ClassOp) (ch : Char) (items : List Item) :
    Decidable (ReadsThrough toLowercase isAlphanumeric isWhitespace op ch items) := by
  induction items with
  | nil => exact inferInstanceAs (Decidable True)
  | cons item items ih => exact inferInstanceAs (Decidable (_ ∧ (_ ∨ _)))

end

/-! ## Words of a program -/

variable {code rest : List ℤ} {idx : ℕ}

lemma getElem?_of_drop {tail : List ℤ} (h : code.drop idx = tail) (k : ℕ) :
    code[idx + k]? = tail[k]? := by
  rw [← h, List.getElem?_drop]

lemma drop_of_drop {front : List ℤ} (h : code.drop idx = front ++ rest) :
    code.drop (idx + front.length) = rest := by
  rw [← List.drop_drop, h, List.drop_left]

lemma sreReadU32_eq {value : ℕ} (h : code[idx]? = some (value : ℤ)) (hvalue : value < 2 ^ 32) :
    sreReadU32 code idx = some value := by
  simp only [sreReadU32, h, Option.bind_eq_bind, Option.bind_some, Int.toNat_natCast]
  exact if_pos ⟨Int.natCast_nonneg _, hvalue⟩

lemma Bitmap.length_encode (words : Bitmap) : words.encode.length = 8 := List.length_ofFn

lemma and_shiftLeft_ne_zero (word bit : ℕ) : (word &&& (1 <<< bit) != 0) = word.testBit bit := by
  rw [Nat.one_shiftLeft, Nat.and_two_pow]
  cases word.testBit bit <;> simp

lemma sreBitmapContains_eq {words : Bitmap} (h : code.drop idx = words.encode ++ rest) {bit : ℕ}
    (hbit : bit < 256) : sreBitmapContains code idx bit = some (words.contains bit) := by
  have hbits : SRE_CODE_BITS = 32 := rfl
  have hindex : bit / 32 < 8 := by omega
  have hword : code[idx + bit / 32]? = some (((words ⟨bit / 32, hindex⟩).toNat : ℕ) : ℤ) := by
    rw [getElem?_of_drop h, List.getElem?_append_left (by rwa [Bitmap.length_encode]),
      Bitmap.encode, List.getElem?_ofFn, dif_pos hindex]
  rw [sreBitmapContains, hbits, sreReadU32_eq hword (UInt32.toNat_lt _), Bitmap.contains,
    dif_pos hbit, ← and_shiftLeft_ne_zero]
  rfl

lemma mappingWord_byte (mapping : Fin 256 → UInt8) (i : Fin 64) {k : ℕ} (hk : k < 4) :
    (mappingWord mapping i).toNat < 2 ^ 32 ∧
      (mappingWord mapping i).toNat / 256 ^ k % 256 =
        (mapping ⟨4 * i.val + k, by omega⟩).toNat := by
  have hbyte : ∀ j, (mapping j).toNat < 256 := fun j => UInt8.toNat_lt _
  have h0 := hbyte ⟨4 * i.val + 0, by omega⟩
  have h1 := hbyte ⟨4 * i.val + 1, by omega⟩
  have h2 := hbyte ⟨4 * i.val + 2, by omega⟩
  have h3 := hbyte ⟨4 * i.val + 3, by omega⟩
  simp only [mappingWord]
  constructor
  · omega
  · interval_cases k <;> omega

lemma sreBigcharsetMappingByte_eq {mapping : Fin 256 → UInt8}
    (h : code.drop idx = List.ofFn (mappingWord mapping) ++ rest) {byte : ℕ} (hbyte : byte < 256) :
    sreBigcharsetMappingByte code idx byte = some (mapping ⟨byte, hbyte⟩).toNat := by
  have hsize : SRE_CODE_SIZE_BYTES = 4 := rfl
  have hindex : byte / 4 < 64 := by omega
  obtain ⟨hlt, hvalue⟩ := mappingWord_byte mapping ⟨byte / 4, hindex⟩ (k := byte % 4) (by omega)
  have hnonneg : ((mappingWord mapping ⟨byte / 4, hindex⟩).toNat : ℤ) =
      mappingWord mapping ⟨byte / 4, hindex⟩ :=
        Int.toNat_of_nonneg (by simp only [mappingWord]; omega)
  have hword : code[idx + byte / 4]? =
      some ((mappingWord mapping ⟨byte / 4, hindex⟩).toNat : ℤ) := by
    rw [getElem?_of_drop h, List.getElem?_append_left (by rwa [List.length_ofFn]),
      List.getElem?_ofFn, dif_pos hindex, hnonneg]
  rw [sreBigcharsetMappingByte, hsize, sreReadU32_eq hword hlt]
  refine congrArg some (hvalue.trans ?_)
  congr 3
  exact Nat.div_add_mod byte 4

lemma drop_blocks (blocks : List Bitmap) (b : ℕ) :
    (blocks.flatMap Bitmap.encode).drop (b * 8) = (blocks.drop b).flatMap Bitmap.encode := by
  induction blocks generalizing b with
  | nil => simp
  | cons block blocks ih =>
    obtain _ | b := b
    · rfl
    · rw [List.flatMap_cons, List.drop_succ_cons, ← ih, show (b + 1) * 8 = 8 + b * 8 by ring,
        ← List.drop_drop, List.drop_left' (Bitmap.length_encode block)]

lemma length_blocks (blocks : List Bitmap) :
    (blocks.flatMap Bitmap.encode).length = blocks.length * 8 := by
  induction blocks with
  | nil => rfl
  | cons block blocks ih =>
    rw [List.flatMap_cons, List.length_append, ih, Bitmap.length_encode, List.length_cons]
    ring

lemma sreBitmapContains_block {blocks : List Bitmap}
    (h : code.drop idx = blocks.flatMap Bitmap.encode ++ rest) (b : Fin blocks.length) {bit : ℕ}
    (hbit : bit < 256) :
    sreBitmapContains code (idx + b * 8) bit = some ((blocks.get b).contains bit) := by
  have hdrop : code.drop (idx + b * 8) =
      (blocks.get b).encode ++ ((blocks.drop (b + 1)).flatMap Bitmap.encode ++ rest) := by
    rw [← List.drop_drop, h, List.drop_append_of_le_length (by rw [length_blocks]; omega),
      drop_blocks, List.drop_eq_getElem_cons b.isLt, List.flatMap_cons, List.append_assoc]
    rfl
  exact sreBitmapContains_eq hdrop hbit

/-! ## Items -/

variable {toLowercase : Char → List Char} {isAlphanumeric isWhitespace : Char → Bool}
  {op : ClassOp} {ch : Char} {ok : Bool}

lemma charFromU32_eq_none_iff (value : CodePoint) :
    charFromU32 value.val = none ↔ IsSurrogate value.val := by
  have hlt := value.isLt
  rw [charFromU32]
  simp only [Nat.isValidChar, IsSurrogate]
  split <;> simp <;> omega

lemma sreReadU32_codePoint {value : CodePoint} (h : code[idx]? = some (value.val : ℤ)) :
    sreReadU32 code idx = some value.val :=
  sreReadU32_eq h (by have := value.isLt; omega)

/-- What the interpreter does at an item: it has no answer, it ends, or it goes on behind it. -/
def itemStep (toLowercase : Char → List Char) (isAlphanumeric isWhitespace : Char → Bool)
    (op : ClassOp) (ch : Char) (ok : Bool) (idx : ℕ) (item : Item) : Option ClassStep :=
  if item.HasSurrogateBound then none
  else some (.item (item.accepts toLowercase isAlphanumeric isWhitespace op ch) ok idx)

lemma sreClassLiteral_eq {value : CodePoint} (h : code[idx]? = some (value.val : ℤ)) :
    sreClassLiteral toLowercase code op.opcode ch ok idx =
      itemStep toLowercase isAlphanumeric isWhitespace op ch ok (idx + 1) (.literal value) := by
  simp only [sreClassLiteral, sreReadU32_codePoint h, itemStep, Item.HasSurrogateBound,
    Item.accepts, ← charFromU32_eq_none_iff, Option.bind_eq_bind, Option.bind_some]
  cases charFromU32 value.val <;> simp

lemma sreClassRange_eq {lo hi : CodePoint} (hlo : code[idx]? = some (lo.val : ℤ))
    (hhi : code[idx + 1]? = some (hi.val : ℤ)) :
    sreClassRange toLowercase code op.opcode SRE_OP_RANGE ch ok idx =
      itemStep toLowercase isAlphanumeric isWhitespace op ch ok (idx + 2) (.range lo hi) := by
  have hopcode : SRE_OP_RANGE ≠ SRE_OP_RANGE_UNI_IGNORE := by decide
  simp only [sreClassRange, sreReadU32_codePoint hlo, sreReadU32_codePoint hhi, itemStep,
    Item.HasSurrogateBound, Item.accepts, ← charFromU32_eq_none_iff, Option.bind_eq_bind,
    Option.bind_some, hopcode, or_false]
  cases charFromU32 lo.val <;> cases charFromU32 hi.val <;> simp

lemma itemStep_of_not (item : Item) (h : ¬ item.HasSurrogateBound) :
    itemStep toLowercase isAlphanumeric isWhitespace op ch ok idx item =
      some (.item (item.accepts toLowercase isAlphanumeric isWhitespace op ch) ok idx) :=
  if_neg h

lemma sreClassCategory_eq {kind : ℤ} (h : code[idx]? = some kind) :
    sreClassCategory isAlphanumeric isWhitespace code ch ok idx =
      itemStep toLowercase isAlphanumeric isWhitespace op ch ok (idx + 1) (.category kind) := by
  rw [itemStep_of_not (.category kind) not_false, sreClassCategory, h]
  rfl

lemma checkedUsize_eq {value : ℕ} (h : value < 2 ^ 64) : checkedUsize value = some value :=
  if_pos h

lemma sreClassCharset_eq {words : Bitmap} (h : code.drop idx = words.encode ++ rest)
    (hidx : idx + 8 < 2 ^ 64) :
    sreClassCharset code ch ok idx =
      itemStep toLowercase isAlphanumeric isWhitespace op ch ok (idx + 8) (.charset words) := by
  have hwords : SRE_CHARSET_WORDS = 8 := rfl
  rw [itemStep_of_not (.charset words) not_false]
  simp only [sreClassCharset, hwords, checkedUsize_eq hidx, Item.accepts, Item.holds]
  by_cases hlt : ch.toNat < 256
  · simp only [if_pos hlt, sreBitmapContains_eq h hlt, Option.bind_eq_bind, Option.bind_some]
    cases words.contains ch.toNat <;> rfl
  · rw [if_neg hlt, Bitmap.contains, dif_neg hlt]
    rfl

lemma sreClassBigcharset_eq {mapping : Fin 256 → UInt8} {blocks : List Bitmap}
    {mapping_lt : ∀ i, (mapping i).toNat < blocks.length}
    (h : code.drop idx = (blocks.length : ℤ) ::
      (List.ofFn (mappingWord mapping) ++ (blocks.flatMap Bitmap.encode ++ rest)))
    (hidx : idx + 65 + blocks.length * 8 < 2 ^ 64) :
    sreClassBigcharset code ch ok idx =
      itemStep toLowercase isAlphanumeric isWhitespace op ch ok (idx + 65 + blocks.length * 8)
        (.bigcharset mapping blocks mapping_lt) := by
  have hwords : SRE_CHARSET_WORDS = 8 := rfl
  have hmapping : SRE_BIGCHARSET_MAPPING_WORDS = 64 := rfl
  have hcount : sreReadUsize code idx = some blocks.length := by
    have hget : code[idx]? = some (blocks.length : ℤ) := getElem?_of_drop h 0
    simp only [sreReadUsize, hget, Option.bind_eq_bind, Option.bind_some, Int.toNat_natCast]
    exact if_neg (by omega)
  have hdropMapping : code.drop (idx + 1) = List.ofFn (mappingWord mapping) ++
      (blocks.flatMap Bitmap.encode ++ rest) := by
    rw [← List.drop_drop, h]
    rfl
  have hdropBlocks : code.drop (idx + 1 + 64) = blocks.flatMap Bitmap.encode ++ rest := by
    have := drop_of_drop hdropMapping
    rwa [List.length_ofFn] at this
  rw [itemStep_of_not (.bigcharset mapping blocks mapping_lt) not_false]
  simp only [sreClassBigcharset, hcount, hmapping, hwords, Item.accepts, Item.holds,
    Option.bind_eq_bind, Option.bind_some,
    checkedUsize_eq (show idx + 1 + 64 < 2 ^ 64 by omega),
    checkedUsize_eq (show blocks.length * 8 < 2 ^ 64 by omega),
    checkedUsize_eq (show idx + 1 + 64 + blocks.length * 8 < 2 ^ 64 by omega)]
  by_cases hlt : ch.toNat < 0x10000
  · have hindex : ch.toNat / 256 < 256 := by omega
    have hand : ch.toNat &&& 0xff = ch.toNat % 256 := Nat.and_two_pow_sub_one_eq_mod _ 8
    have hblock := mapping_lt ⟨ch.toNat / 256, hindex⟩
    have hbit := sreBitmapContains_block hdropBlocks ⟨_, hblock⟩
      (Nat.mod_lt ch.toNat (show 0 < 256 by decide))
    have hbyte : sreBigcharsetMappingByte code (idx + 1) (ch.toNat >>> 8) =
        some (mapping ⟨ch.toNat / 256, hindex⟩).toNat := by
      rw [Nat.shiftRight_eq_div_pow]
      exact sreBigcharsetMappingByte_eq hdropMapping hindex
    simp only [if_pos hlt, dif_pos hlt, hbyte, Option.map_some, Option.bind_some, if_pos hblock,
      checkedUsize_eq (show (mapping ⟨ch.toNat / 256, hindex⟩).toNat * 8 < 2 ^ 64 by omega),
      checkedUsize_eq (show idx + 1 + 64 + (mapping ⟨ch.toNat / 256, hindex⟩).toNat * 8 < 2 ^ 64
        by omega), hand, hbit]
    cases (blocks.get ⟨_, hblock⟩).contains (ch.toNat % 256) <;> rfl
  · rw [if_neg hlt, dif_neg hlt]
    rfl

/-! ## The loop -/

lemma Item.length_encode_pos (item : Item) : 0 < item.encode.length := by
  cases item <;> exact Nat.succ_pos _

section

/-- At the words of an item, the loop does its step. -/
lemma sreClassLoop_item {item : Item} {fuel classEnd : ℕ}
    (h : code.drop idx = item.encode ++ rest) (hend : idx < classEnd)
    (hidx : idx + item.encode.length < 2 ^ 64) :
    sreClassLoop toLowercase isAlphanumeric isWhitespace code classEnd op.opcode ch (fuel + 1) idx
        ok =
      (itemStep toLowercase isAlphanumeric isWhitespace op ch ok (idx + item.encode.length)
        item).bind (ClassStep.continueWith fun idx =>
          sreClassLoop toLowercase isAlphanumeric isWhitespace code classEnd op.opcode ch fuel idx
            ok) := by
  have hget := fun k => getElem?_of_drop h k
  rw [sreClassLoop, if_pos hend]
  cases item with
  | literal value =>
    have hopcode : code[idx]? = some SRE_OP_LITERAL := hget 0
    have hstep : sreClassLiteral toLowercase code op.opcode ch ok (idx + 1) =
        itemStep toLowercase isAlphanumeric isWhitespace op ch ok
          (idx + (Item.literal value).encode.length) (.literal value) :=
      sreClassLiteral_eq (hget 1)
    rw [hopcode, ← hstep]
    rfl
  | range lo hi =>
    have hopcode : code[idx]? = some SRE_OP_RANGE := hget 0
    have hstep : sreClassRange toLowercase code op.opcode SRE_OP_RANGE ch ok (idx + 1) =
        itemStep toLowercase isAlphanumeric isWhitespace op ch ok
          (idx + (Item.range lo hi).encode.length) (.range lo hi) :=
      sreClassRange_eq (hget 1) (hget 2)
    rw [hopcode, ← hstep]
    rfl
  | category kind =>
    have hopcode : code[idx]? = some SRE_OP_CATEGORY := hget 0
    have hstep : sreClassCategory isAlphanumeric isWhitespace code ch ok (idx + 1) =
        itemStep toLowercase isAlphanumeric isWhitespace op ch ok
          (idx + (Item.category kind).encode.length) (.category kind) :=
      sreClassCategory_eq (hget 1)
    rw [hopcode, ← hstep]
    rfl
  | charset words =>
    have hopcode : code[idx]? = some SRE_OP_CHARSET := hget 0
    have hlength : (Item.charset words).encode.length = 1 + 8 := by
      rw [Item.encode, List.length_cons, Bitmap.length_encode]
    have hwords : code.drop (idx + 1) = words.encode ++ rest := by
      rw [← List.drop_drop, h]
      rfl
    rw [hlength, ← Nat.add_assoc] at hidx ⊢
    rw [hopcode, ← sreClassCharset_eq hwords hidx]
    rfl
  | bigcharset mapping blocks mapping_lt =>
    have hopcode : code[idx]? = some SRE_OP_BIGCHARSET := hget 0
    have hlength : (Item.bigcharset mapping blocks mapping_lt).encode.length =
        1 + 65 + blocks.length * 8 := by
      simp only [Item.encode, List.length_cons, List.length_append, List.length_ofFn,
        length_blocks]
      omega
    have hwords : code.drop (idx + 1) = (blocks.length : ℤ) ::
        (List.ofFn (mappingWord mapping) ++ (blocks.flatMap Bitmap.encode ++ rest)) := by
      rw [← List.drop_drop, h, Item.encode]
      simp
    rw [hlength, ← Nat.add_assoc, ← Nat.add_assoc] at hidx ⊢
    rw [hopcode, ← sreClassBigcharset_eq hwords hidx]
    rfl

/-- From an item on, the loop has an answer when it reads through the items, and the answer is
that of their union. -/
lemma sreClassLoop_items {items : List Item} {fuel classEnd : ℕ}
    (h : code.drop idx = items.flatMap Item.encode ++ SRE_OP_FAILURE :: rest)
    (hend : idx + (items.flatMap Item.encode).length < classEnd)
    (hfuel : (items.flatMap Item.encode).length < fuel) (hclass : classEnd < 2 ^ 64) :
    sreClassLoop toLowercase isAlphanumeric isWhitespace code classEnd op.opcode ch fuel idx ok =
      if ReadsThrough toLowercase isAlphanumeric isWhitespace op ch items then
        some (if items.any (Item.accepts toLowercase isAlphanumeric isWhitespace op ch) then ok
          else !ok)
      else none := by
  obtain _ | fuel := fuel
  · exact absurd hfuel (Nat.not_lt_zero _)
  induction items generalizing idx fuel with
  | nil =>
    have hopcode : code[idx]? = some SRE_OP_FAILURE := getElem?_of_drop h 0
    rw [sreClassLoop, if_pos (by simpa using hend), hopcode]
    rfl
  | cons item items ih =>
    have hpos := item.length_encode_pos
    simp only [List.flatMap_cons, List.length_append, List.append_assoc] at h hend hfuel
    rw [sreClassLoop_item h (by omega) (by omega), itemStep]
    by_cases hsurrogate : item.HasSurrogateBound
    · rw [if_pos hsurrogate, if_neg (fun hreads => hreads.1 hsurrogate)]
      rfl
    · rw [if_neg hsurrogate, Option.bind_some, List.any_cons]
      cases haccept : item.accepts toLowercase isAlphanumeric isWhitespace op ch with
      | true =>
        rw [if_pos ⟨hsurrogate, Or.inl haccept⟩]
        rfl
      | false =>
        obtain _ | fuel := fuel
        · omega
        · have hreads : ReadsThrough toLowercase isAlphanumeric isWhitespace op ch (item :: items) ↔
              ReadsThrough toLowercase isAlphanumeric isWhitespace op ch items := by
            simp [ReadsThrough, hsurrogate, haccept]
          have hloop := ih (drop_of_drop h) (by omega) fuel (by omega)
          simp only [hreads, Bool.false_or]
          exact hloop

end

/-- `sre_class_matches` at a class of a program. -/
lemma sreClassMatches_encodeClass {before after : List ℤ} {negate : Bool} {items : List Item}
    (h : (before ++ (encodeClass negate items ++ after)).length < 2 ^ 64) :
    sreClassMatches toLowercase isAlphanumeric isWhitespace
        (before ++ (encodeClass negate items ++ after)) before.length
        (before.length + (encodeClass negate items).length) op.opcode ch =
      if ReadsThrough toLowercase isAlphanumeric isWhitespace op ch items then
        some (xor negate
          (items.any (Item.accepts toLowercase isAlphanumeric isWhitespace op ch)))
      else none := by
  have hdrop : (before ++ (encodeClass negate items ++ after)).drop before.length =
      encodeClass negate items ++ after := List.drop_left
  generalize hcode : before ++ (encodeClass negate items ++ after) = code at h hdrop
  have hlength : before.length + (encodeClass negate items).length < 2 ^ 64 := by
    rw [← hcode, List.length_append, List.length_append] at h
    omega
  rw [sreClassMatches, Nat.add_sub_cancel_left]
  cases negate with
  | false =>
    have hitems : code.drop before.length =
        items.flatMap Item.encode ++ SRE_OP_FAILURE :: after := by
      rw [hdrop]
      simp [encodeClass]
    have hclass : (encodeClass false items).length = (items.flatMap Item.encode).length + 1 := by
      simp [encodeClass]
    rw [hclass] at hlength ⊢
    rw [sreClassLoop_items hitems (by omega) (by omega) hlength]
    cases items.any (Item.accepts toLowercase isAlphanumeric isWhitespace op ch) <;> rfl
  | true =>
    have hopcode : code[before.length]? = some SRE_OP_NEGATE := getElem?_of_drop hdrop 0
    have hitems : code.drop (before.length + 1) =
        items.flatMap Item.encode ++ SRE_OP_FAILURE :: after := by
      rw [← List.drop_drop, hdrop]
      simp [encodeClass]
    have hclass : (encodeClass true items).length =
        (items.flatMap Item.encode).length + 1 + 1 := by
      simp [encodeClass]
    rw [hclass] at hlength ⊢
    rw [sreClassLoop, if_pos (by omega), hopcode]
    refine (sreClassLoop_items hitems (by omega) (by omega) hlength).trans ?_
    cases items.any (Item.accepts toLowercase isAlphanumeric isWhitespace op ch) <;> rfl

/-- Items that are asked about different characters have the same union. -/
lemma any_accepts_eq_iff {items : List Item} :
    items.any (Item.accepts toLowercase isAlphanumeric isWhitespace op ch) =
        items.any (Item.contains isAlphanumeric isWhitespace (lowered toLowercase op ch)) ↔
      Indifferent toLowercase isAlphanumeric isWhitespace op ch items := by
  simp only [Indifferent, Item.TellsApart, not_not]
  rw [Bool.eq_iff_iff, List.any_eq_true, List.any_eq_true]
  constructor
  · intro hsame
    by_cases hboth : ∃ item ∈ items,
        item.accepts toLowercase isAlphanumeric isWhitespace op ch = true ∧
          item.contains isAlphanumeric isWhitespace (lowered toLowercase op ch) = true
    · obtain ⟨item, hitem, haccepts, hcontains⟩ := hboth
      exact .inr (.inl ⟨item, hitem, haccepts.trans hcontains.symm, hcontains⟩)
    by_cases hsome : ∃ item ∈ items,
        item.accepts toLowercase isAlphanumeric isWhitespace op ch = true
    · -- The items that take the two characters are different ones.
      obtain ⟨other, hother, hcontains⟩ := hsame.1 hsome
      obtain ⟨item, hitem, haccepts⟩ := hsome
      exact .inr (.inr ⟨⟨other, hother, fun heq => hboth ⟨other, hother, heq.trans hcontains,
        hcontains⟩, hcontains⟩, item, hitem, fun heq => hboth ⟨item, hitem, haccepts,
        heq.symm.trans haccepts⟩, fun hcontains => hboth ⟨item, hitem, haccepts, hcontains⟩⟩)
    · refine .inl fun item hitem => Bool.eq_iff_iff.2 ⟨fun haccepts => ?_, fun hcontains => ?_⟩
      · exact absurd ⟨item, hitem, haccepts⟩ hsome
      · exact absurd (hsame.2 ⟨item, hitem, hcontains⟩) hsome
  · rintro (hall | ⟨item, hitem, heq, hcontains⟩ | ⟨⟨item, hitem, -, hcontains⟩, other, hother,
      hapart, hnot⟩)
    · exact exists_congr fun item => and_congr_right fun hitem => by rw [hall item hitem]
    · exact iff_of_true ⟨item, hitem, heq.trans hcontains⟩ ⟨item, hitem, hcontains⟩
    · refine iff_of_true ⟨other, hother, ?_⟩ ⟨item, hitem, hcontains⟩
      rw [Bool.not_eq_true] at hnot
      rwa [hnot, ne_eq, Bool.not_eq_false] at hapart

/-- The small vowels, and the digits. -/
def vowels : List Item :=
  [.charset fun i => if i = 3 then 0x208222 else 0, .range ⟨0x30, by decide⟩ ⟨0x39, by decide⟩]

def asciiLowercase (ch : Char) : List Char := [asciiLower ch]

end Sre

end Pyrs
