import Pyrs.Model.TextCodecs
import Pyrs.Properties.JsonSoundness

/-!
# Round trips of the text codecs

The strings of code points that come back from their bytes, and the bytes that come back from the
text that `surrogateescape` decodes them to.
-/

namespace Pyrs

namespace TextCodec

open JsonParser (charFromU32_of_valid isHighSurrogate_iff isLowSurrogate_iff surrogatePairScalar_eq)

/-! ## Strings -/

abbrev Codepoint := Fin 0x110000

def Codepoint.IsSurrogate (codepoint : Codepoint) : Prop :=
  0xD800 ≤ codepoint.val ∧ codepoint.val ≤ 0xDFFF

instance (codepoint : Codepoint) : Decidable codepoint.IsSurrogate :=
  inferInstanceAs (Decidable (_ ∧ _))

/-- The number of the character that a code point is held as. -/
def internalCode (codepoint : Codepoint) : ℕ :=
  if codepoint.IsSurrogate then internalSurrogateBase + (codepoint.val - 0xD800) else codepoint.val

lemma internalCode_valid (codepoint : Codepoint) : (internalCode codepoint).isValidChar := by
  have hlt := codepoint.isLt
  rw [internalCode, internalSurrogateBase]
  split_ifs with h
  · exact .inr ⟨by omega, by obtain ⟨h, h'⟩ := h; omega⟩
  · rw [Codepoint.IsSurrogate] at h
    rcases Nat.lt_or_ge codepoint.val 0xD800 with hlow | hlow
    · exact .inl hlow
    · exact .inr ⟨by omega, hlt⟩

def internalChar (codepoint : Codepoint) : Char := Char.ofNat (internalCode codepoint)

/-- A Python string as the machine holds it. -/
def internalText (codepoints : List Codepoint) : List Char := codepoints.map internalChar

lemma toNat_internalChar (codepoint : Codepoint) :
    (internalChar codepoint).toNat = internalCode codepoint :=
  Utf8.toNat_ofNat (internalCode_valid codepoint)

/-- The codecs take a character for a surrogate. -/
def HoldsSurrogate (ch : Char) : Prop := internalSurrogateBase ≤ ch.toNat

instance (ch : Char) : Decidable (HoldsSurrogate ch) := inferInstanceAs (Decidable (_ ≤ _))

lemma holdsSurrogate_internalChar (codepoint : Codepoint) :
    HoldsSurrogate (internalChar codepoint) ↔
    codepoint.IsSurrogate ∨ internalSurrogateBase ≤ codepoint.val := by
  rw [HoldsSurrogate, toNat_internalChar, internalCode]
  split_ifs with h
  · exact ⟨fun _ => .inl h, fun _ => Nat.le_add_right _ _⟩
  · exact ⟨.inr, fun hor => hor.resolve_left h⟩

lemma surrogateCodepoint_of_holds {ch : Char} (h : HoldsSurrogate ch) :
    surrogateCodepointFromInternalChar ch = some (0xD800 + (ch.toNat - internalSurrogateBase)) := by
  have hvalid := @Utf8.toNat_lt_surrogates ch
  rw [HoldsSurrogate, internalSurrogateBase] at h
  rw [surrogateCodepointFromInternalChar, internalSurrogateBase, if_pos (by omega)]

lemma surrogateCodepoint_of_not {ch : Char} (h : ¬HoldsSurrogate ch) :
    surrogateCodepointFromInternalChar ch = none := if_neg fun hle => h hle.1

/-! ## UTF-8 -/

lemma encodeUtf8Text_cons (errors : ErrorHandler) (ch : Char) (text : List Char) :
    encodeUtf8Text (ch :: text) errors = (do
      let bytes ← encodeUtf8Char errors ch
      let rest ← encodeUtf8Text text errors
      return bytes ++ rest) := rfl

lemma encodeUtf8Char_of_not {errors : ErrorHandler} {ch : Char} (h : ¬HoldsSurrogate ch) :
    encodeUtf8Char errors ch = .ok (String.utf8EncodeChar ch) := by
  rw [encodeUtf8Char, surrogateCodepoint_of_not h]

lemma encodeUtf8Text_of_not {errors : ErrorHandler} {text : List Char}
    (h : ∀ ch ∈ text, ¬HoldsSurrogate ch) :
    encodeUtf8Text text errors = .ok (Utf8.encode text) := by
  induction text with
  | nil => rfl
  | cons ch text ih =>
    rw [encodeUtf8Text_cons, encodeUtf8Char_of_not (h ch List.mem_cons_self),
      ih fun ch hch => h ch (List.mem_cons_of_mem _ hch)]
    rfl

lemma encodeUtf8Text_strict {text : List Char} {bytes : List UInt8}
    (h : encodeUtf8Text text .strict = .ok bytes) : ∀ ch ∈ text, ¬HoldsSurrogate ch := by
  induction text generalizing bytes with
  | nil => exact nofun
  | cons ch text ih =>
    rw [encodeUtf8Text_cons] at h
    by_cases hch : HoldsSurrogate ch
    · rw [encodeUtf8Char, surrogateCodepoint_of_holds hch] at h
      cases h
    · rw [encodeUtf8Char_of_not hch] at h
      intro other hother
      rcases List.mem_cons.1 hother with rfl | hother
      · exact hch
      · cases hrest : encodeUtf8Text text .strict with
        | error fault =>
          rw [hrest] at h
          cases h
        | ok rest => exact ih hrest other hother

/-- The bytes of a character under `surrogatepass`. -/
def passedBytes (ch : Char) : List UInt8 :=
  if HoldsSurrogate ch then
    pushUtf8CodepointAllowSurrogate (0xD800 + (ch.toNat - internalSurrogateBase))
  else String.utf8EncodeChar ch

lemma encodeUtf8Text_surrogatepass (text : List Char) :
    encodeUtf8Text text .surrogatepass = .ok (text.flatMap passedBytes) := by
  induction text with
  | nil => rfl
  | cons ch text ih =>
    have hch : encodeUtf8Char .surrogatepass ch = .ok (passedBytes ch) := by
      rw [passedBytes]
      split_ifs with h
      · rw [encodeUtf8Char, surrogateCodepoint_of_holds h]
      · exact encodeUtf8Char_of_not h
    rw [encodeUtf8Text_cons, hch, ih]
    rfl

lemma or_low {n : ℕ} (h : n < 64) : 0x80 ||| n = 0x80 + n :=
  (Nat.two_pow_add_eq_or_of_lt (i := 6) h 2).symm

lemma and_low (n : ℕ) : n &&& 0x3F = n % 64 := Nat.and_two_pow_sub_one_eq_mod n 6

lemma internalChar_surrogate {ch : Char} {code : ℕ} (hch : ch.toNat = internalSurrogateBase + code)
    (hlt : code < 0x800) : internalCharFromCodepoint (0xD800 + code) = some ch := by
  have hsub : 0xD800 + code - 0xD800 = code := by omega
  have hvalid : ch.toNat.isValidChar := ch.valid
  rw [internalCharFromCodepoint, if_pos (by omega), hsub, ← hch, charFromU32_of_valid hvalid,
    Char.ofNat_toNat]

lemma surrogate_bits {code : ℕ} (hlt : code < 0x800) :
    ((0xED : UInt8).toNat &&& 0x0F) <<< 12 ||| (0xA0 + code / 64 &&& 0x3F) <<< 6 |||
      (0x80 + code % 64 &&& 0x3F) = 0xD800 + code := by
  have hlead : ((0xED : UInt8).toNat &&& 0x0F) <<< 12 = 2 ^ 12 * 13 := rfl
  have hsecond : (0xA0 + code / 64) % 64 = 32 + code / 64 := by omega
  have hthird : (0x80 + code % 64) % 64 = code % 64 := by omega
  have hsum : 2 ^ 12 * 13 + (32 + code / 64) * 2 ^ 6 = 2 ^ 6 * (864 + code / 64) := by omega
  rw [hlead, and_low, and_low, hsecond, hthird, Nat.shiftLeft_eq,
    ← Nat.two_pow_add_eq_or_of_lt (by omega), hsum, ← Nat.two_pow_add_eq_or_of_lt (by omega)]
  omega

/-- The bytes of a surrogate, and the character that is read back from them. -/
lemma passedBytes_holds {ch : Char} (h : HoldsSurrogate ch) (more : List UInt8) :
    ∃ second third, passedBytes ch = [0xED, second, third] ∧ 0xA0 ≤ second ∧
      decodeUtf8SurrogatepassUnit (passedBytes ch ++ more) = some (ch, 3) := by
  have hvalid := @Utf8.toNat_lt_surrogates ch
  obtain ⟨code, hcode⟩ : ∃ code, ch.toNat - internalSurrogateBase = code := ⟨_, rfl⟩
  have hch : ch.toNat = 0x10F800 + code := by
    rw [HoldsSurrogate, internalSurrogateBase] at h
    rw [internalSurrogateBase] at hcode
    omega
  have hlt : code < 0x800 := by omega
  have hfirst : 0xE0 ||| ((0xD800 + code) >>> 12 &&& 0x0F) = 0xED := by
    have hshift : (0xD800 + code) >>> 12 = 13 := by
      rw [Nat.shiftRight_eq_div_pow]
      omega
    rw [hshift]
    rfl
  have hsecond : 0x80 ||| ((0xD800 + code) >>> 6 &&& 0x3F) = 0xA0 + code / 64 := by
    rw [and_low, or_low (Nat.mod_lt _ (by decide)), Nat.shiftRight_eq_div_pow]
    omega
  have hthird : 0x80 ||| ((0xD800 + code) &&& 0x3F) = 0x80 + code % 64 := by
    rw [and_low, or_low (Nat.mod_lt _ (by decide))]
    omega
  have hpassed : passedBytes ch =
      [0xED, UInt8.ofNat (0xA0 + code / 64), UInt8.ofNat (0x80 + code % 64)] := by
    rw [passedBytes, if_pos h, hcode, pushUtf8CodepointAllowSurrogate, if_neg (by omega),
      if_neg (by omega), if_pos (by omega), hfirst, hsecond, hthird]
    rfl
  have hsecondNat := @Utf8.ofNat_toNat (0xA0 + code / 64) (by omega)
  have hthirdNat := @Utf8.ofNat_toNat (0x80 + code % 64) (by omega)
  refine ⟨_, _, hpassed, ?_, ?_⟩
  · rw [UInt8.le_iff_toNat_le, hsecondNat]
    exact Nat.le_add_right _ _
  · have hrange : ¬((0xED : UInt8) ≠ 0xED ∨ UInt8.ofNat (0xA0 + code / 64) < 0xA0 ∨
        0xBF < UInt8.ofNat (0xA0 + code / 64) ∨ UInt8.ofNat (0x80 + code % 64) < 0x80 ∨
        0xBF < UInt8.ofNat (0x80 + code % 64)) := by
      rintro (hne | hlow | hhigh | hlow | hhigh)
      · exact hne rfl
      · have hlow := UInt8.lt_iff_toNat_lt.1 hlow
        rw [hsecondNat] at hlow
        have hlt : 160 + code / 64 < 160 := hlow
        omega
      · have hhigh := UInt8.lt_iff_toNat_lt.1 hhigh
        rw [hsecondNat] at hhigh
        have hlt : 191 < 160 + code / 64 := hhigh
        omega
      · have hlow := UInt8.lt_iff_toNat_lt.1 hlow
        rw [hthirdNat] at hlow
        have hlt : 128 + code % 64 < 128 := hlow
        omega
      · have hhigh := UInt8.lt_iff_toNat_lt.1 hhigh
        rw [hthirdNat] at hhigh
        have hlt : 191 < 128 + code % 64 := hhigh
        omega
    rw [hpassed]
    change decodeUtf8SurrogatepassUnit (_ :: _ :: _ :: more) = _
    rw [decodeUtf8SurrogatepassUnit, if_neg hrange, hsecondNat, hthirdNat, surrogate_bits hlt,
      internalChar_surrogate hch hlt]
    rfl

lemma passedBytes_of_not {ch : Char} (h : ¬HoldsSurrogate ch) :
    passedBytes ch = String.utf8EncodeChar ch := if_neg h

lemma encode_concat (chars : List Char) (ch : Char) :
    Utf8.encode (chars ++ [ch]) = Utf8.encode chars ++ String.utf8EncodeChar ch := by
  rw [Utf8.encode, Utf8.encode, List.flatMap_append, List.flatMap_singleton]

/-- The rounds over the bytes of a text, behind others that hold no surrogate. -/
lemma decodeUtf8Rounds_surrogatepass (text : List Char) {fuel : ℕ} {normals out : List Char}
    (hfuel : text.length < fuel) :
    decodeUtf8Rounds .surrogatepass fuel (Utf8.encode normals ++ text.flatMap passedBytes) out =
      .ok (out ++ normals ++ text) := by
  induction text generalizing fuel normals out with
  | nil =>
    obtain ⟨fuel, rfl⟩ : ∃ rounds, fuel = rounds + 1 := ⟨fuel - 1, by omega⟩
    rw [List.flatMap_nil, List.append_nil, List.append_nil, decodeUtf8Rounds]
    cases normals with
    | nil => rw [if_pos (by rfl), List.append_nil]
    | cons ch normals =>
      have hne : Utf8.encode (ch :: normals) ≠ [] := fun h =>
        Utf8.utf8EncodeChar_ne_nil ch (List.append_eq_nil_iff.1 h).1
      rw [if_neg hne, Utf8.fromUtf8_eq_ok]
  | cons ch text ih =>
    rw [List.flatMap_cons]
    by_cases hch : HoldsSurrogate ch
    · obtain ⟨fuel, rfl⟩ : ∃ rounds, fuel = rounds + 1 := ⟨fuel - 1, by omega⟩
      obtain ⟨second, third, hbytes, hle, hunit⟩ :=
        passedBytes_holds hch (text.flatMap passedBytes)
      have hnone : Utf8.decodeChar (passedBytes ch ++ text.flatMap passedBytes) = none := by
        rw [hbytes]
        exact Utf8.decodeChar_surrogate hle _
      have hrest : passedBytes ch ++ text.flatMap passedBytes ≠ [] := by
        rw [hbytes]
        exact nofun
      have hne : Utf8.encode normals ++ (passedBytes ch ++ text.flatMap passedBytes) ≠ [] :=
        fun h => hrest (List.append_eq_nil_iff.1 h).2
      have hdrop : (passedBytes ch ++ text.flatMap passedBytes).drop 3 =
          text.flatMap passedBytes := by
        rw [hbytes]
        rfl
      rw [decodeUtf8Rounds, if_neg hne, Utf8.fromUtf8_append hnone, if_neg hrest]
      dsimp only
      rw [List.take_left, Utf8.fromUtf8_eq_ok, List.drop_left]
      dsimp only [bind, Except.bind]
      rw [hunit]
      dsimp only
      have hrounds := @ih fuel [] (out ++ normals ++ [ch])
        (by rw [List.length_cons] at hfuel; omega)
      rw [hdrop, ← List.nil_append (text.flatMap passedBytes)]
      refine hrounds.trans ?_
      rw [List.append_nil, List.append_assoc, List.singleton_append]
    · rw [passedBytes_of_not hch, ← List.append_assoc, ← encode_concat,
        ih (by rw [List.length_cons] at hfuel; omega)]
      simp only [List.append_assoc, List.singleton_append]

lemma length_le_passed (text : List Char) : text.length ≤ (text.flatMap passedBytes).length := by
  induction text with
  | nil => exact le_rfl
  | cons ch text ih =>
    have hpos : 0 < (passedBytes ch).length := by
      by_cases hch : HoldsSurrogate ch
      · obtain ⟨second, third, hbytes, -⟩ := passedBytes_holds hch []
        rw [hbytes]
        exact Nat.succ_pos _
      · rw [passedBytes_of_not hch, String.length_utf8EncodeChar]
        exact ch.utf8Size_pos
    rw [List.flatMap_cons, List.length_append, List.length_cons]
    omega

lemma decodeUtf8Bytes_surrogatepass (text : List Char) :
    decodeUtf8Bytes (text.flatMap passedBytes) .surrogatepass = .ok text := by
  have hrounds := @decodeUtf8Rounds_surrogatepass text ((text.flatMap passedBytes).length + 1) [] []
    (by have := length_le_passed text; omega)
  rw [decodeUtf8Bytes, if_neg (by decide)]
  exact hrounds

lemma decodeUtf8Bytes_strict (text : List Char) :
    decodeUtf8Bytes (Utf8.encode text) .strict = .ok text := by
  rw [decodeUtf8Bytes, if_pos rfl, Utf8.fromUtf8_eq_ok]

/-! ## UTF-16 -/

lemma decodeItems_some (message : String) (errors : ErrorHandler) (text : List Char) :
    decodeItems message errors (text.map some) = .ok text := by
  induction text with
  | nil => rfl
  | cons ch text ih =>
    rw [List.map_cons, decodeItems, ih]
    rfl

lemma encodeUtf16_lt {ch : Char} {unit : ℕ} (h : unit ∈ encodeUtf16 ch) : unit < 0x10000 := by
  have hvalid := @Utf8.toNat_lt_surrogates ch
  rw [encodeUtf16] at h
  split_ifs at h with hlt
  · rw [List.mem_singleton.1 h]
    exact hlt
  · rcases List.mem_cons.1 h with rfl | h
    · have hshift : (ch.toNat - 0x10000) >>> 10 < 2 ^ 10 := by
        rw [Nat.shiftRight_eq_div_pow]
        omega
      exact Nat.or_lt_two_pow (by decide : 0xD800 < 2 ^ 16) (hshift.trans (by decide))
    · rw [List.mem_singleton.1 h]
      exact Nat.or_lt_two_pow (by decide : 0xDC00 < 2 ^ 16)
        ((Nat.and_lt_two_pow _ (by decide : 0x3FF < 2 ^ 10)).trans (by decide))

lemma u16Units_bytes {bigEndian : Bool} {units : List ℕ} (h : ∀ unit ∈ units, unit < 0x10000) :
    u16Units bigEndian (units.flatMap (if bigEndian then u16ToBeBytes else u16ToLeBytes)) =
      (units, []) := by
  induction units with
  | nil => rfl
  | cons unit units ih =>
    have hunit := h unit List.mem_cons_self
    have hrest := ih fun unit hmem => h unit (List.mem_cons_of_mem _ hmem)
    have hlow : (UInt8.ofNat unit).toNat = unit % 256 := UInt8.toNat_ofNat'
    have hhigh := @Utf8.ofNat_toNat (unit / 256) (by omega)
    have hunits : unit / 256 * 256 + unit % 256 = unit := by omega
    cases bigEndian with
    | false =>
      change u16Units false (_ :: _ :: units.flatMap u16ToLeBytes) = _
      rw [u16Units, show u16Units false (units.flatMap u16ToLeBytes) = _ from hrest, if_neg nofun,
        hlow, hhigh, hunits]
    | true =>
      change u16Units true (_ :: _ :: units.flatMap u16ToBeBytes) = _
      rw [u16Units, show u16Units true (units.flatMap u16ToBeBytes) = _ from hrest, if_pos rfl,
        hlow, hhigh, hunits]

/-- The units of a character. -/
lemma decodeUtf16_append (ch : Char) (units : List ℕ) :
    decodeUtf16 (encodeUtf16 ch ++ units) = some ch :: decodeUtf16 units := by
  have hvalid := @Utf8.toNat_lt_surrogates ch
  rw [encodeUtf16]
  split_ifs with hlt
  · have hunit : ch.toNat < 0xD800 ∨ 0xDFFF < ch.toNat := by omega
    rw [List.singleton_append]
    cases units with
    | nil => rw [decodeUtf16, decodeUtf16, if_pos hunit, Char.ofNat_toNat]
    | cons unit units => rw [decodeUtf16, if_pos hunit, Char.ofNat_toNat]
  · obtain ⟨code, hcode⟩ : ∃ code, ch.toNat - 0x10000 = code := ⟨_, rfl⟩
    have hhigh : 0xD800 ||| code >>> 10 = 0xD800 + code / 1024 := by
      rw [Nat.shiftRight_eq_div_pow]
      exact (Nat.two_pow_add_eq_or_of_lt (i := 10) (by omega) 54).symm
    have hlow : 0xDC00 ||| (code &&& 0x3FF) = 0xDC00 + code % 1024 := by
      have hand : code &&& 0x3FF = code % 1024 := Nat.and_two_pow_sub_one_eq_mod code 10
      rw [hand]
      exact (Nat.two_pow_add_eq_or_of_lt (i := 10) (by omega) 55).symm
    have hisLow : isLowSurrogate (0xDC00 + code % 1024) = true :=
      isLowSurrogate_iff.2 ⟨by omega, by omega⟩
    have hisHigh : isHighSurrogate (0xD800 + code / 1024) = true :=
      isHighSurrogate_iff.2 ⟨by omega, by omega⟩
    have hpair : 0x10000 + (0xD800 + code / 1024 - 0xD800) * 0x400 +
        (0xDC00 + code % 1024 - 0xDC00) = ch.toNat := by omega
    rw [hcode, hhigh, hlow, List.cons_append, List.singleton_append, decodeUtf16,
      if_neg (by omega), if_pos ⟨hisHigh, hisLow⟩, surrogatePairScalar_eq hisLow, hpair,
      Char.ofNat_toNat]

lemma decodeUtf16_text (text : List Char) :
    decodeUtf16 (text.flatMap encodeUtf16) = text.map some := by
  induction text with
  | nil => rfl
  | cons ch text ih => rw [List.flatMap_cons, decodeUtf16_append, ih, List.map_cons]

lemma decodeUtf16Bytes_text (text : List Char) (errors : ErrorHandler) (bigEndian : Bool) :
    decodeUtf16Bytes ((text.flatMap encodeUtf16).flatMap
      (if bigEndian then u16ToBeBytes else u16ToLeBytes)) errors bigEndian = .ok text := by
  have hunits : ∀ unit ∈ text.flatMap encodeUtf16, unit < 0x10000 := by
    intro unit hmem
    obtain ⟨ch, -, hch⟩ := List.mem_flatMap.1 hmem
    exact encodeUtf16_lt hch
  rw [decodeUtf16Bytes, u16Units_bytes hunits]
  change decodeItems _ errors (decodeUtf16 (text.flatMap encodeUtf16 ++ [])) = _
  rw [List.append_nil, decodeUtf16_text, decodeItems_some]

/-! ## UTF-32 -/

lemma u32Units_bytes {bigEndian : Bool} (text : List Char) :
    u32Units bigEndian (text.flatMap fun ch =>
      if bigEndian then u32ToBeBytes ch.toNat else u32ToLeBytes ch.toNat) =
        (text.map Char.toNat, []) := by
  induction text with
  | nil => rfl
  | cons ch text ih =>
    have hvalid := @Utf8.toNat_lt_surrogates ch
    have hfirst : (UInt8.ofNat ch.toNat).toNat = ch.toNat % 256 := UInt8.toNat_ofNat'
    have hsecond : (UInt8.ofNat (ch.toNat / 256)).toNat = ch.toNat / 256 % 256 := UInt8.toNat_ofNat'
    have hthird := @Utf8.ofNat_toNat (ch.toNat / 65536) (by omega)
    have hfourth := @Utf8.ofNat_toNat (ch.toNat / 16777216) (by omega)
    have hcode :
        ((ch.toNat / 16777216 * 256 + ch.toNat / 65536) * 256 + ch.toNat / 256 % 256) * 256 +
        ch.toNat % 256 = ch.toNat := by omega
    cases bigEndian with
    | false =>
      change u32Units false (_ :: _ :: _ :: _ :: text.flatMap fun ch => u32ToLeBytes ch.toNat) = _
      rw [u32Units, show u32Units false (text.flatMap fun ch => u32ToLeBytes ch.toNat) = _ from ih,
        if_neg nofun, hfirst, hsecond, hthird, hfourth, hcode]
      rfl
    | true =>
      change u32Units true (_ :: _ :: _ :: _ :: text.flatMap fun ch => u32ToBeBytes ch.toNat) = _
      rw [u32Units, show u32Units true (text.flatMap fun ch => u32ToBeBytes ch.toNat) = _ from ih,
        if_pos rfl, hfirst, hsecond, hthird, hfourth, hcode]
      rfl

lemma decodeUtf32Bytes_text (text : List Char) (errors : ErrorHandler) (bigEndian : Bool) :
    decodeUtf32Bytes (text.flatMap fun ch =>
      if bigEndian then u32ToBeBytes ch.toNat else u32ToLeBytes ch.toNat) errors bigEndian =
        .ok text := by
  have hchars : (text.map Char.toNat).map charFromU32 = text.map some := by
    rw [List.map_map]
    refine List.map_congr_left fun ch _ => ?_
    have hvalid : ch.toNat.isValidChar := ch.valid
    change charFromU32 ch.toNat = some ch
    rw [charFromU32_of_valid hvalid, Char.ofNat_toNat]
  rw [decodeUtf32Bytes, u32Units_bytes]
  change (decodeItems _ errors ((text.map Char.toNat).map charFromU32) >>= _) = _
  rw [hchars, decodeItems_some]
  exact congrArg Except.ok (List.append_nil text)

/-! ## The strings that come back -/

def IsHigh (codepoint : Codepoint) : Prop := isHighSurrogate codepoint.val = true

def IsLow (codepoint : Codepoint) : Prop := isLowSurrogate codepoint.val = true

/-- Encoding is strict about surrogates and `surrogatepass` is not, and what has been encoded is
decoded again. -/
structure RoundTrips (encoding : Encoding) (codepoints : List Codepoint) : Prop where
  encodes : (∃ bytes, encodeTextBytes (internalText codepoints) encoding .strict = .ok bytes) ↔
    ∀ codepoint ∈ codepoints, ¬codepoint.IsSurrogate
  decodes : ∀ bytes, encodeTextBytes (internalText codepoints) encoding .strict = .ok bytes →
    decodeTextBytes bytes encoding .strict = .ok (internalText codepoints)
  passes : ∃ bytes, encodeTextBytes (internalText codepoints) encoding .surrogatepass = .ok bytes ∧
    ((∀ before high low after, codepoints = before ++ high :: low :: after →
        IsHigh high → ¬IsLow low) →
      decodeTextBytes bytes encoding .surrogatepass = .ok (internalText codepoints))

/-- The encoders that go through the characters of UTF-8 take those of the internal range for
surrogates, the others take surrogates for characters. -/
def Translates (encoding : Encoding) (codepoints : List Codepoint) : Prop :=
  match encoding with
  | .utf8 | .utf8Sig => (∃ codepoint ∈ codepoints, codepoint.IsSurrogate) ∨
      ∀ codepoint ∈ codepoints, codepoint.val < internalSurrogateBase
  | _ => ∀ codepoint ∈ codepoints, ¬codepoint.IsSurrogate

/-- A codec that encodes and decodes every text. -/
lemma roundTrips_of_total {encoding : Encoding} (encode : List Char → List UInt8)
    (hencode : ∀ text errors, encodeTextBytes text encoding errors = .ok (encode text))
    (hdecode : ∀ text errors, decodeTextBytes (encode text) encoding errors = .ok text)
    (codepoints : List Codepoint) : RoundTrips encoding codepoints ↔
      ∀ codepoint ∈ codepoints, ¬codepoint.IsSurrogate := by
  constructor
  · intro h
    exact h.encodes.1 ⟨_, hencode _ _⟩
  · intro h
    refine ⟨⟨fun _ => h, fun _ => ⟨_, hencode _ _⟩⟩, ?_, ⟨_, hencode _ _, fun _ => hdecode _ _⟩⟩
    intro bytes hbytes
    rw [hencode] at hbytes
    cases hbytes
    exact hdecode _ _

/-- The codecs over the characters of UTF-8, with a signature or without. -/
lemma roundTrips_of_utf8 {encoding : Encoding} (signed : List UInt8 → List UInt8)
    (hencode : ∀ text errors, encodeTextBytes text encoding errors =
      (encodeUtf8Text text errors).map signed)
    (hdecode : ∀ bytes errors, decodeTextBytes (signed bytes) encoding errors =
      decodeUtf8Bytes bytes errors)
    (codepoints : List Codepoint) : RoundTrips encoding codepoints ↔
      (∃ codepoint ∈ codepoints, codepoint.IsSurrogate) ∨
        ∀ codepoint ∈ codepoints, codepoint.val < internalSurrogateBase := by
  have hstrict : (∃ bytes, encodeTextBytes (internalText codepoints) encoding .strict = .ok bytes) ↔
      ∀ codepoint ∈ codepoints, ¬codepoint.IsSurrogate ∧
        codepoint.val < internalSurrogateBase := by
    have hall : (∀ ch ∈ internalText codepoints, ¬HoldsSurrogate ch) ↔
        ∀ codepoint ∈ codepoints, ¬codepoint.IsSurrogate ∧
          codepoint.val < internalSurrogateBase := by
      simp only [internalText, List.forall_mem_map, holdsSurrogate_internalChar, not_or, not_le]
    rw [← hall]
    constructor
    · rintro ⟨bytes, hbytes⟩
      rw [hencode] at hbytes
      cases hutf8 : encodeUtf8Text (internalText codepoints) .strict with
      | error fault =>
        rw [hutf8] at hbytes
        cases hbytes
      | ok encoded => exact encodeUtf8Text_strict hutf8
    · intro h
      exact ⟨_, by rw [hencode, encodeUtf8Text_of_not h]; rfl⟩
  constructor
  · intro h
    by_cases hsurrogate : ∃ codepoint ∈ codepoints, codepoint.IsSurrogate
    · exact .inl hsurrogate
    · refine .inr fun codepoint hmem => ?_
      refine (hstrict.1 (h.encodes.2 fun other hother hsur => ?_) codepoint hmem).2
      exact hsurrogate ⟨other, hother, hsur⟩
  · intro h
    refine ⟨hstrict.trans ⟨fun hall c hc => (hall c hc).1, fun hall c hc => ⟨hall c hc, ?_⟩⟩,
      ?_, ?_⟩
    · rcases h with ⟨other, hother, hsur⟩ | hlt
      · exact absurd hsur (hall other hother)
      · exact hlt c hc
    · intro bytes hbytes
      rw [hencode] at hbytes
      cases hutf8 : encodeUtf8Text (internalText codepoints) .strict with
      | error fault =>
        rw [hutf8] at hbytes
        cases hbytes
      | ok encoded =>
        rw [hutf8] at hbytes
        cases hbytes
        rw [encodeUtf8Text_of_not (encodeUtf8Text_strict hutf8)] at hutf8
        cases hutf8
        rw [hdecode, decodeUtf8Bytes_strict]
    · refine ⟨signed ((internalText codepoints).flatMap passedBytes), ?_, fun _ => ?_⟩
      · rw [hencode, encodeUtf8Text_surrogatepass]
        rfl
      · rw [hdecode, decodeUtf8Bytes_surrogatepass]

/-- Which strings a codec of Unicode brings back. -/
theorem roundTrips_iff {encoding : Encoding} (hascii : encoding ≠ .ascii)
    (hlatin : encoding ≠ .latin1) (codepoints : List Codepoint) :
    RoundTrips encoding codepoints ↔ Translates encoding codepoints := by
  cases encoding with
  | utf8 =>
    refine roundTrips_of_utf8 id (fun text errors => ?_) (fun _ _ => rfl) codepoints
    change encodeUtf8Text text errors = _
    cases encodeUtf8Text text errors <;> rfl
  | utf8Sig =>
    refine roundTrips_of_utf8 (utf8Signature ++ ·) (fun text errors => ?_)
      (fun bytes errors => ?_) codepoints
    · change (encodeUtf8Text text errors >>= _) = _
      cases encodeUtf8Text text errors <;> rfl
    · change decodeUtf8Bytes (if utf8Signature <+: utf8Signature ++ bytes then _ else _) errors = _
      rw [if_pos (List.prefix_append _ _)]
      rfl
  | utf16 =>
    refine roundTrips_of_total _ (fun _ _ => rfl) (fun text errors => ?_) codepoints
    obtain ⟨payload, hpayload⟩ : ∃ payload, (text.flatMap encodeUtf16).flatMap u16ToLeBytes =
      payload := ⟨_, rfl⟩
    have hnot : ¬[0xFE, 0xFF] <+: ([0xFF, 0xFE] : List UInt8) ++ payload := fun h =>
      absurd (List.cons.inj h.choose_spec).1 (by decide)
    rw [hpayload, decodeTextBytes, if_neg hnot, if_pos (List.prefix_append _ _)]
    change decodeUtf16Bytes payload errors false = _
    rw [← hpayload]
    exact decodeUtf16Bytes_text text errors false
  | utf16Le =>
    refine roundTrips_of_total _ (fun _ _ => rfl) (fun text errors => ?_) codepoints
    exact decodeUtf16Bytes_text text errors false
  | utf16Be =>
    refine roundTrips_of_total _ (fun _ _ => rfl) (fun text errors => ?_) codepoints
    exact decodeUtf16Bytes_text text errors true
  | utf32 =>
    refine roundTrips_of_total _ (fun _ _ => rfl) (fun text errors => ?_) codepoints
    obtain ⟨payload, hpayload⟩ : ∃ payload, (text.flatMap fun ch => u32ToLeBytes ch.toNat) =
      payload := ⟨_, rfl⟩
    have hnot : ¬[0x00, 0x00, 0xFE, 0xFF] <+: ([0xFF, 0xFE, 0x00, 0x00] : List UInt8) ++ payload :=
      fun h => absurd (List.cons.inj h.choose_spec).1 (by decide)
    rw [hpayload, decodeTextBytes, if_neg hnot, if_pos (List.prefix_append _ _)]
    change decodeUtf32Bytes payload errors false = _
    rw [← hpayload]
    exact decodeUtf32Bytes_text text errors false
  | utf32Le =>
    refine roundTrips_of_total _ (fun _ _ => rfl) (fun text errors => ?_) codepoints
    exact decodeUtf32Bytes_text text errors false
  | utf32Be =>
    refine roundTrips_of_total _ (fun _ _ => rfl) (fun text errors => ?_) codepoints
    exact decodeUtf32Bytes_text text errors true
  | ascii => exact absurd rfl hascii
  | latin1 => exact absurd rfl hlatin

/-- A letter and a surrogate in UTF-8. -/
theorem roundTrips_iff_surrogate :
    RoundTrips .utf8 [0x41, 0xDC80] ↔ Translates .utf8 [0x41, 0xDC80] :=
  roundTrips_iff (by decide) (by decide) [0x41, 0xDC80]

/-- UTF-16 encodes a surrogate strictly, and UTF-8 does not encode the last code point. -/
theorem roundTrips_fails : ¬RoundTrips .utf16 [0xD800] ∧ ¬RoundTrips .utf8 [0x10FFFF] := by
  rw [roundTrips_iff (by decide) (by decide), roundTrips_iff (by decide) (by decide)]
  refine ⟨fun h => h 0xD800 List.mem_cons_self (by decide), ?_⟩
  rintro (⟨codepoint, hmem, hsurrogate⟩ | h)
  · rw [List.mem_singleton.1 hmem] at hsurrogate
    exact absurd hsurrogate (by decide)
  · exact absurd (h 0x10FFFF List.mem_cons_self) (by decide)

/-! ## `surrogateescape` -/

/-- The character that a byte is escaped to. -/
def escapeChar (byte : UInt8) : Char :=
  Char.ofNat (internalSurrogateBase + (0x400 + byte.toNat))

lemma toNat_escapeChar (byte : UInt8) :
    (escapeChar byte).toNat = internalSurrogateBase + (0x400 + byte.toNat) := by
  have hlt := byte.toNat_lt
  refine Utf8.toNat_ofNat (.inr ⟨?_, ?_⟩) <;> rw [internalSurrogateBase] <;> omega

lemma escapeBytes_eq (bytes : List UInt8) : escapeBytes bytes = .ok (bytes.map escapeChar) := by
  induction bytes with
  | nil => rfl
  | cons byte bytes ih =>
    have hlt := byte.toNat_lt
    have hcode : 0xDC00 + byte.toNat = 0xD800 + (0x400 + byte.toNat) := by omega
    rw [escapeBytes, hcode, internalChar_surrogate (toNat_escapeChar byte) (by omega), ih]
    rfl

/-- Bytes, and the text that they are decoded to.  A byte is escaped where no character begins, or
within an ill-formed sequence. -/
inductive Escaped : List UInt8 → List Char → Prop
  | nil : Escaped [] []
  | char {ch : Char} {bytes : List UInt8} {text : List Char} (h : Escaped bytes text) :
      Escaped (String.utf8EncodeChar ch ++ bytes) (ch :: text)
  | byte {byte : UInt8} {bytes : List UInt8} {text : List Char} (hbyte : 0x80 ≤ byte)
      (hfirst : Utf8.decodeChar (byte :: bytes) = none ∨ Utf8.isContinuation byte)
      (h : Escaped bytes text) : Escaped (byte :: bytes) (escapeChar byte :: text)

lemma Escaped.chars {bytes : List UInt8} {text : List Char} (h : Escaped bytes text)
    (chars : List Char) : Escaped (Utf8.encode chars ++ bytes) (chars ++ text) := by
  induction chars with
  | nil => exact h
  | cons ch chars ih =>
    rw [Utf8.encode, List.flatMap_cons, List.append_assoc]
    exact .char ih

lemma Escaped.continuations {bytes part : List UInt8} {text : List Char} (h : Escaped bytes text)
    (hpart : ∀ byte ∈ part, Utf8.isContinuation byte) :
    Escaped (part ++ bytes) (part.map escapeChar ++ text) := by
  induction part with
  | nil => exact h
  | cons byte part ih =>
    have hbyte := hpart byte List.mem_cons_self
    exact .byte ((Utf8.isContinuation_iff byte).1 hbyte).1 (.inr hbyte)
      (ih fun other hmem => hpart other (List.mem_cons_of_mem _ hmem))

lemma decodeUtf8Rounds_surrogateescape {fuel : ℕ} {bytes : List UInt8}
    (hfuel : bytes.length < fuel) (out : List Char) :
    ∃ text, decodeUtf8Rounds .surrogateescape fuel bytes out = .ok (out ++ text) ∧
      Escaped bytes text := by
  induction fuel generalizing bytes out with
  | zero => omega
  | succ fuel ih =>
    rw [decodeUtf8Rounds]
    by_cases hnil : bytes = []
    · subst hnil
      exact ⟨[], by rw [if_pos rfl, List.append_nil], .nil⟩
    obtain ⟨chars, rest, rfl, hrest⟩ := Utf8.exists_encode_append bytes
    rw [if_neg hnil, Utf8.fromUtf8_append hrest]
    cases rest with
    | nil =>
      rw [if_pos rfl]
      have hescaped := Escaped.nil.chars chars
      rw [List.append_nil chars] at hescaped
      exact ⟨chars, rfl, hescaped⟩
    | cons first rest =>
      obtain ⟨part, hpart, hcontinues⟩ := Utf8.errorLen_part first rest
      rw [if_neg nofun]
      dsimp only
      rw [List.take_left, Utf8.fromUtf8_eq_ok, List.drop_left]
      dsimp only [bind, Except.bind]
      rw [hpart, escapeBytes_eq]
      dsimp only
      have hfirst := Utf8.le_of_decodeChar hrest
      cases hlen : Utf8.errorLen (first :: rest) with
      | none =>
        rw [hlen, Option.getD_none, List.take_length] at hpart
        obtain rfl : rest = part := (List.cons.inj hpart).2
        have hescaped := Escaped.nil.continuations hcontinues
        rw [List.append_nil, List.append_nil] at hescaped
        exact ⟨chars ++ (first :: rest).map escapeChar, by rw [← List.append_assoc]; rfl,
          (Escaped.byte hfirst (.inl hrest) hescaped).chars chars⟩
      | some len =>
        rw [hlen, Option.getD_some] at hpart
        have hsplit := List.take_append_drop len (first :: rest)
        rw [hpart, List.cons_append] at hsplit
        have hshort : ((first :: rest).drop len).length < fuel := by
          have hlength := congrArg List.length hsplit
          rw [List.length_append] at hfuel
          rw [List.length_cons, List.length_append] at hlength
          omega
        obtain ⟨text, hrun, hescaped⟩ := ih hshort (out ++ chars ++ (first :: part).map escapeChar)
        refine ⟨chars ++ ((first :: part).map escapeChar ++ text), ?_, ?_⟩
        · dsimp only
          rw [hrun]
          simp only [List.append_assoc]
        · refine Escaped.chars ?_ chars
          rw [← hsplit] at hrest ⊢
          exact .byte hfirst (.inl hrest) (hescaped.continuations hcontinues)

/-- Bytes of a character from `U+10F800` on, which the encoder takes for a surrogate. -/
def HasLast (bytes : List UInt8) : Prop :=
  ∃ before third fourth after, bytes = before ++ 0xF4 :: 0x8F :: third :: fourth :: after ∧
    (0xA0 ≤ third ∧ third ≤ 0xBF) ∧ 0x80 ≤ fourth ∧ fourth ≤ 0xBF

lemma HasLast.append {part bytes : List UInt8} (h : HasLast bytes) : HasLast (part ++ bytes) := by
  obtain ⟨before, third, fourth, after, rfl, hrange⟩ := h
  exact ⟨part ++ before, third, fourth, after, (List.append_assoc _ _ _).symm, hrange⟩

/-- Behind its first byte a character has no byte that others begin with. -/
lemma HasLast.of_continuations {part bytes : List UInt8}
    (hpart : ∀ byte ∈ part, Utf8.isContinuation byte) (h : HasLast (part ++ bytes)) :
    HasLast bytes := by
  induction part with
  | nil => exact h
  | cons byte part ih =>
    refine ih (fun other hmem => hpart other (List.mem_cons_of_mem _ hmem)) ?_
    obtain ⟨before, third, fourth, after, hbytes, hrange⟩ := h
    cases before with
    | nil =>
      obtain ⟨rfl, -⟩ := List.cons.inj hbytes
      exact absurd (hpart 0xF4 List.mem_cons_self) (by decide)
    | cons first before => exact ⟨before, third, fourth, after, (List.cons.inj hbytes).2, hrange⟩

lemma exists_utf8EncodeChar (ch : Char) : ∃ first part, String.utf8EncodeChar ch = first :: part ∧
    ∀ byte ∈ part, Utf8.isContinuation byte := by
  rcases Nat.lt_or_ge ch.toNat 0x80 with hlt | hle
  · exact ⟨_, [], Utf8.utf8EncodeChar_ascii hlt, nofun⟩
  · obtain ⟨first, part, hbytes, -, hpart⟩ := Utf8.utf8EncodeChar_leads hle
    exact ⟨first, part, hbytes, hpart⟩

lemma hasLast_char {ch : Char} {bytes : List UInt8}
    (h : HasLast (String.utf8EncodeChar ch ++ bytes)) : HoldsSurrogate ch ∨ HasLast bytes := by
  obtain ⟨first, part, hch, hpart⟩ := exists_utf8EncodeChar ch
  obtain ⟨before, third, fourth, after, hbytes, hrange⟩ := h
  cases before with
  | nil =>
    left
    rw [List.nil_append] at hbytes
    obtain ⟨other, hother⟩ := Utf8.exists_last hrange.1.1 hrange.1.2 hrange.2.1 hrange.2.2
    have hsame : some ch = some other := by
      rw [← Utf8.decodeChar_append ch bytes, hbytes, ← Utf8.decodeChar_append other after, hother]
      rfl
    cases hsame
    exact Utf8.last_iff.2 ⟨third, fourth, hrange.1.1, hother⟩
  | cons head before =>
    right
    rw [hch, List.cons_append, List.cons_append] at hbytes
    exact HasLast.of_continuations hpart
      ⟨before, third, fourth, after, (List.cons.inj hbytes).2, hrange⟩

lemma hasLast_of_holds {ch : Char} (h : HoldsSurrogate ch) (bytes : List UInt8) :
    HasLast (String.utf8EncodeChar ch ++ bytes) := by
  obtain ⟨third, fourth, hthird, hbytes⟩ := Utf8.last_iff.1 h
  obtain ⟨first, part, hch, hpart⟩ := exists_utf8EncodeChar ch
  rw [hbytes] at hch
  obtain ⟨-, rfl⟩ := List.cons.inj hch
  have hthird' := (Utf8.isContinuation_iff third).1 (hpart third (by simp))
  have hfourth := (Utf8.isContinuation_iff fourth).1 (hpart fourth (by simp))
  exact ⟨[], third, fourth, bytes, by rw [hbytes]; rfl, ⟨hthird, hthird'.2⟩, hfourth⟩

lemma hasLast_byte {byte : UInt8} {bytes : List UInt8}
    (hfirst : Utf8.decodeChar (byte :: bytes) = none ∨ Utf8.isContinuation byte)
    (h : HasLast (byte :: bytes)) : HasLast bytes := by
  obtain ⟨before, third, fourth, after, hbytes, hrange⟩ := h
  cases before with
  | nil =>
    obtain ⟨rfl, rfl⟩ := List.cons.inj hbytes
    obtain ⟨ch, hch⟩ := Utf8.exists_last hrange.1.1 hrange.1.2 hrange.2.1 hrange.2.2
    rcases hfirst with hnone | hcontinues
    · have hsome := Utf8.decodeChar_append ch after
      rw [hch] at hsome
      exact absurd (hnone.symm.trans hsome) nofun
    · exact absurd hcontinues (by decide)
  | cons head before => exact ⟨before, third, fourth, after, (List.cons.inj hbytes).2, hrange⟩

lemma encodeUtf8Char_escapeChar {byte : UInt8} (h : 0x80 ≤ byte) :
    encodeUtf8Char .surrogateescape (escapeChar byte) = .ok [byte] := by
  have hle : 0x80 ≤ byte.toNat := UInt8.le_iff_toNat_le.1 h
  have hlt := byte.toNat_lt
  have hholds : HoldsSurrogate (escapeChar byte) := by
    rw [HoldsSurrogate, toNat_escapeChar]
    exact Nat.le_add_right _ _
  have hcode : 0xD800 + ((escapeChar byte).toNat - internalSurrogateBase) =
      0xDC00 + byte.toNat := by
    rw [toNat_escapeChar]
    omega
  rw [encodeUtf8Char, surrogateCodepoint_of_holds hholds, hcode]
  dsimp only
  rw [if_pos ⟨by omega, by omega⟩, Nat.add_sub_cancel_left, UInt8.ofNat_toNat]

lemma encode_escaped {bytes : List UInt8} {text : List Char} (h : Escaped bytes text)
    (hlast : ¬HasLast bytes) : encodeUtf8Text text .surrogateescape = .ok bytes := by
  induction h with
  | nil => rfl
  | @char ch bytes text h ih =>
    have hch : ¬HoldsSurrogate ch := fun hholds => hlast (hasLast_of_holds hholds bytes)
    rw [encodeUtf8Text_cons, encodeUtf8Char_of_not hch, ih fun hrest => hlast hrest.append]
    rfl
  | byte hbyte hfirst h ih =>
    rw [encodeUtf8Text_cons, encodeUtf8Char_escapeChar hbyte,
      ih fun hrest => hlast (@HasLast.append [_] _ hrest)]
    rfl

/-- A character from `U+10F800` on is encoded to one byte. -/
lemma encodeUtf8Char_holds {ch : Char} (h : HoldsSurrogate ch) {bytes : List UInt8}
    (hbytes : encodeUtf8Char .surrogateescape ch = .ok bytes) : bytes.length = 1 := by
  rw [encodeUtf8Char, surrogateCodepoint_of_holds h] at hbytes
  dsimp only at hbytes
  split_ifs at hbytes
  · cases hbytes
    rfl
  · cases hbytes

lemma encode_escaped_length {bytes encoded : List UInt8} {text : List Char} (h : Escaped bytes text)
    (hencoded : encodeUtf8Text text .surrogateescape = .ok encoded) :
    encoded.length ≤ bytes.length ∧ (encoded.length = bytes.length → ¬HasLast bytes) := by
  induction h generalizing encoded with
  | nil =>
    cases hencoded
    refine ⟨le_rfl, fun _ => ?_⟩
    rintro ⟨before, third, fourth, after, hbytes, -⟩
    exact List.cons_ne_nil _ _ (List.append_eq_nil_iff.1 hbytes.symm).2
  | @char ch bytes text h ih =>
    rw [encodeUtf8Text_cons] at hencoded
    cases hfirst : encodeUtf8Char .surrogateescape ch with
    | error fault =>
      rw [hfirst] at hencoded
      cases hencoded
    | ok first =>
      cases hrest : encodeUtf8Text text .surrogateescape with
      | error fault =>
        rw [hfirst, hrest] at hencoded
        cases hencoded
      | ok rest =>
        rw [hfirst, hrest] at hencoded
        cases hencoded
        obtain ⟨hle, hsame⟩ := ih hrest
        rw [List.length_append, List.length_append]
        by_cases hholds : HoldsSurrogate ch
        · obtain ⟨third, fourth, -, hbytes⟩ := Utf8.last_iff.1 hholds
          have hone := encodeUtf8Char_holds hholds hfirst
          rw [hbytes, hone]
          change 1 + _ ≤ 4 + _ ∧ (1 + _ = 4 + _ → _)
          exact ⟨by omega, fun heq => by omega⟩
        · rw [encodeUtf8Char_of_not hholds] at hfirst
          cases hfirst
          refine ⟨by omega, fun heq hlast => ?_⟩
          exact (hasLast_char hlast).elim hholds (hsame (by omega))
  | @byte byte bytes text hbyte hfirst h ih =>
    rw [encodeUtf8Text_cons, encodeUtf8Char_escapeChar hbyte] at hencoded
    cases hrest : encodeUtf8Text text .surrogateescape with
    | error fault =>
      rw [hrest] at hencoded
      cases hencoded
    | ok rest =>
      rw [hrest] at hencoded
      cases hencoded
      obtain ⟨hle, hsame⟩ := ih hrest
      change rest.length + 1 ≤ bytes.length + 1 ∧ (rest.length + 1 = bytes.length + 1 → _)
      exact ⟨by omega, fun heq hlast => hsame (by omega) (hasLast_byte hfirst hlast)⟩

/-- The bytes are decoded to a text that is encoded to them. -/
def EscapesExactly (encoding : Encoding) (bytes : List UInt8) : Prop :=
  ∃ text, decodeTextBytes bytes encoding .surrogateescape = .ok text ∧
    encodeTextBytes text encoding .surrogateescape = .ok bytes

lemma ascii_surrogateescape (bytes : List UInt8) : ∃ text,
    decodeTextBytes bytes .ascii .surrogateescape = .ok text ∧
      encodeTextBytes text .ascii .surrogateescape =
        .ok (bytes.map fun byte => if byte ≤ 0x7F then byte else Pyrs.ascii '?') := by
  induction bytes with
  | nil => exact ⟨[], rfl, rfl⟩
  | cons byte bytes ih =>
    obtain ⟨text, hdecode, hencode⟩ := ih
    change decodeItems _ _ _ = _ at hdecode
    change encodeChars _ _ = _ at hencode
    by_cases hbyte : byte ≤ 0x7F
    · have hle : byte.toNat ≤ 127 := UInt8.le_iff_toNat_le.1 hbyte
      have hval : (Char.ofNat byte.toNat).toNat = byte.toNat := Utf8.toNat_ofNat (.inl (by omega))
      refine ⟨Char.ofNat byte.toNat :: text, ?_, ?_⟩
      · change decodeItems _ _ (decodeUpTo 0x7F byte :: bytes.map (decodeUpTo 0x7F)) = _
        rw [decodeUpTo, if_pos hbyte, decodeItems, hdecode]
        rfl
      · change encodeChars _ _ = _
        rw [encodeChars, hencode, encodeUpTo, if_pos (by omega), hval, UInt8.ofNat_toNat,
          List.map_cons, if_pos hbyte]
        rfl
    · refine ⟨replacementChar :: text, ?_, ?_⟩
      · change decodeItems _ _ (decodeUpTo 0x7F byte :: bytes.map (decodeUpTo 0x7F)) = _
        rw [decodeUpTo, if_neg hbyte, decodeItems, hdecode]
        rfl
      · change encodeChars _ _ = _
        rw [encodeChars, hencode, List.map_cons, if_neg hbyte]
        rfl

/-- Under `surrogateescape` the bytes that come back are those without a character from `U+10F800`
on for UTF-8, and those of ASCII for ASCII. -/
theorem escapesExactly_iff (bytes : List UInt8) :
    (EscapesExactly .utf8 bytes ↔ ¬HasLast bytes) ∧
      (EscapesExactly .ascii bytes ↔ ∀ byte ∈ bytes, byte ≤ 0x7F) := by
  constructor
  · obtain ⟨text, hrun, hescaped⟩ :=
      @decodeUtf8Rounds_surrogateescape (bytes.length + 1) bytes (Nat.lt_succ_self _) []
    rw [List.nil_append] at hrun
    have hdecode : decodeTextBytes bytes .utf8 .surrogateescape = .ok text := by
      change decodeUtf8Bytes bytes .surrogateescape = _
      rw [decodeUtf8Bytes, if_neg (by decide), hrun]
    constructor
    · rintro ⟨text', htext', hencoded⟩
      rw [hdecode] at htext'
      cases htext'
      exact (encode_escaped_length hescaped hencoded).2 rfl
    · exact fun hlast => ⟨text, hdecode, encode_escaped hescaped hlast⟩
  · obtain ⟨text, hdecode, hencode⟩ := ascii_surrogateescape bytes
    have hmap : (bytes.map fun byte => if byte ≤ 0x7F then byte else Pyrs.ascii '?') = bytes ↔
        ∀ byte ∈ bytes, byte ≤ 0x7F := by
      have hid : (bytes.map fun byte => if byte ≤ 0x7F then byte else Pyrs.ascii '?') =
          bytes.map id ↔ _ := List.map_inj_left
      rw [List.map_id] at hid
      rw [hid]
      refine forall₂_congr fun byte hmem => ?_
      by_cases hbyte : byte ≤ 0x7F
      · rw [if_pos hbyte]
        exact iff_of_true rfl hbyte
      · rw [if_neg hbyte]
        refine iff_of_false (fun heq => hbyte ?_) hbyte
        rw [show byte = Pyrs.ascii '?' from heq.symm]
        decide
    rw [← hmap]
    constructor
    · rintro ⟨text', htext', hencoded⟩
      rw [hdecode] at htext'
      cases htext'
      rw [hencode] at hencoded
      exact Except.ok.inj hencoded
    · intro heq
      rw [heq] at hencode
      exact ⟨text, hdecode, hencode⟩

/-- The last code point in UTF-8, and a byte that is not ASCII. -/
theorem escapesExactly_fails :
    ¬EscapesExactly .utf8 [0xF4, 0x8F, 0xBF, 0xBF] ∧ ¬EscapesExactly .ascii [0x80] := by
  rw [(escapesExactly_iff _).1, (escapesExactly_iff _).2]
  refine ⟨not_not.2 ⟨[], 0xBF, 0xBF, [], rfl, by decide, by decide⟩, fun h => ?_⟩
  exact absurd (h 0x80 List.mem_cons_self) (by decide)

end TextCodec

end Pyrs
