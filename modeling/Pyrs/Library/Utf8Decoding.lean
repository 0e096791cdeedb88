import Pyrs.Library.Utf8

/-!
# Decoding UTF-8

The first character of bytes, their longest well-formed prefix, and behind it the maximal subpart
of an ill-formed sequence.
-/

namespace Utf8

/-! ## The numbers in the bytes of a character -/

lemma utf8EncodeChar_two {ch : Char} (h : 0x80 ≤ ch.toNat) (h' : ch.toNat < 0x800) :
    String.utf8EncodeChar ch = [UInt8.ofNat (ch.toNat / 64 % 32 + 0xc0),
      UInt8.ofNat (ch.toNat % 64 + 0x80)] := by
  have hval : ch.val.toNat = ch.toNat := rfl
  rw [String.utf8EncodeChar, hval]
  rw [if_neg (by omega), if_pos (by omega)]

lemma utf8EncodeChar_three {ch : Char} (h : 0x800 ≤ ch.toNat) (h' : ch.toNat < 0x10000) :
    String.utf8EncodeChar ch = [UInt8.ofNat (ch.toNat / 4096 % 16 + 0xe0),
      UInt8.ofNat (ch.toNat / 64 % 64 + 0x80), UInt8.ofNat (ch.toNat % 64 + 0x80)] := by
  have hval : ch.val.toNat = ch.toNat := rfl
  rw [String.utf8EncodeChar, hval]
  rw [if_neg (by omega), if_neg (by omega), if_pos (by omega)]

lemma utf8EncodeChar_four {ch : Char} (h : 0x10000 ≤ ch.toNat) :
    String.utf8EncodeChar ch = [UInt8.ofNat (ch.toNat / 262144 % 8 + 0xf0),
      UInt8.ofNat (ch.toNat / 4096 % 64 + 0x80), UInt8.ofNat (ch.toNat / 64 % 64 + 0x80),
      UInt8.ofNat (ch.toNat % 64 + 0x80)] := by
  have hval : ch.val.toNat = ch.toNat := rfl
  rw [String.utf8EncodeChar, hval]
  rw [if_neg (by omega), if_neg (by omega), if_neg (by omega)]

lemma ofNat_toNat {n : ℕ} (h : n < 256) : (UInt8.ofNat n).toNat = n :=
  (UInt8.toNat_ofNat').trans (Nat.mod_eq_of_lt h)

lemma toNat_ofNat {n : ℕ} (h : n.isValidChar) : (Char.ofNat n).toNat = n := by
  rw [Char.ofNat, dif_pos h]
  rfl

lemma toNat_lt_surrogates {ch : Char} :
    ch.toNat < 0xD800 ∨ 0xDFFF < ch.toNat ∧ ch.toNat < 0x110000 :=
  ch.valid

/-! ## The first character -/

/-- The character that the bytes begin with. -/
def decodeChar (bytes : List UInt8) : Option Char := bytes.toByteArray.utf8DecodeChar? 0

@[simp] lemma decodeChar_append (ch : Char) (rest : List UInt8) :
    decodeChar (String.utf8EncodeChar ch ++ rest) = some ch := by
  rw [decodeChar, List.toByteArray_append]
  exact ByteArray.utf8DecodeChar?_utf8EncodeChar_append

lemma eq_of_decodeChar {bytes : List UInt8} {ch : Char} (h : decodeChar bytes = some ch) :
    ∃ rest, bytes = String.utf8EncodeChar ch ++ rest := by
  obtain ⟨more, hmore⟩ := ByteArray.exists_of_utf8DecodeChar?_eq_some h
  refine ⟨more.data.toList, List.toByteArray_inj.1 ?_⟩
  rw [List.toByteArray_append, hmore]
  congr 1
  ext1
  simp

lemma utf8EncodeChar_ne_nil (ch : Char) : String.utf8EncodeChar ch ≠ [] := by
  intro h
  have hlength := congrArg List.length h
  rw [String.length_utf8EncodeChar] at hlength
  have hpos := ch.utf8Size_pos
  rw [hlength] at hpos
  exact absurd hpos (lt_irrefl 0)

lemma decodeChar_ascii {byte : UInt8} (h : byte < 0x80) (rest : List UInt8) :
    ∃ ch, decodeChar (byte :: rest) = some ch := by
  have hlt : byte.toNat < 0x80 := UInt8.lt_iff_toNat_lt.1 h
  have hval : (Char.ofNat byte.toNat).toNat = byte.toNat :=
    toNat_ofNat (.inl (by omega))
  have hencode : String.utf8EncodeChar (Char.ofNat byte.toNat) = [byte] := by
    rw [utf8EncodeChar_ascii (by omega), hval, UInt8.ofNat_toNat]
  refine ⟨Char.ofNat byte.toNat, ?_⟩
  have happend := decodeChar_append (Char.ofNat byte.toNat) rest
  rwa [hencode] at happend

/-- The first byte tells how many bytes a character has. -/
lemma utf8EncodeChar_cases (ch : Char) :
    (ch.toNat < 0x80 ∧ String.utf8EncodeChar ch = [UInt8.ofNat ch.toNat]) ∨
    (0x80 ≤ ch.toNat ∧ ch.toNat < 0x800 ∧ String.utf8EncodeChar ch =
      [UInt8.ofNat (ch.toNat / 64 % 32 + 0xc0), UInt8.ofNat (ch.toNat % 64 + 0x80)]) ∨
    (0x800 ≤ ch.toNat ∧ ch.toNat < 0x10000 ∧ String.utf8EncodeChar ch =
      [UInt8.ofNat (ch.toNat / 4096 % 16 + 0xe0), UInt8.ofNat (ch.toNat / 64 % 64 + 0x80),
        UInt8.ofNat (ch.toNat % 64 + 0x80)]) ∨
    (0x10000 ≤ ch.toNat ∧ String.utf8EncodeChar ch =
      [UInt8.ofNat (ch.toNat / 262144 % 8 + 0xf0), UInt8.ofNat (ch.toNat / 4096 % 64 + 0x80),
        UInt8.ofNat (ch.toNat / 64 % 64 + 0x80), UInt8.ofNat (ch.toNat % 64 + 0x80)]) := by
  rcases Nat.lt_or_ge ch.toNat 0x80 with hone | hone
  · exact .inl ⟨hone, utf8EncodeChar_ascii hone⟩
  rcases Nat.lt_or_ge ch.toNat 0x800 with htwo | htwo
  · exact .inr (.inl ⟨hone, htwo, utf8EncodeChar_two hone htwo⟩)
  rcases Nat.lt_or_ge ch.toNat 0x10000 with hthree | hthree
  · exact .inr (.inr (.inl ⟨htwo, hthree, utf8EncodeChar_three htwo hthree⟩))
  · exact .inr (.inr (.inr ⟨hthree, utf8EncodeChar_four hthree⟩))

/-- A surrogate is not the code of a character. -/
lemma decodeChar_surrogate {second : UInt8} (h : 0xA0 ≤ second) (rest : List UInt8) :
    decodeChar (0xED :: second :: rest) = none := by
  cases hdecode : decodeChar (0xED :: second :: rest) with
  | none => rfl
  | some ch =>
    obtain ⟨more, hmore⟩ := eq_of_decodeChar hdecode
    have hsecond : 0xA0 ≤ second.toNat := UInt8.le_iff_toNat_le.1 h
    have hvalid := @toNat_lt_surrogates ch
    rcases utf8EncodeChar_cases ch with ⟨hlt, hbytes⟩ | ⟨-, -, hbytes⟩ | ⟨hge, hlt, hbytes⟩ |
        ⟨-, hbytes⟩ <;> rw [hbytes] at hmore <;>
      have hfirst := congrArg UInt8.toNat (List.cons.inj hmore).1
    · rw [ofNat_toNat (by omega)] at hfirst
      have hlead : 237 = ch.toNat := hfirst
      omega
    · rw [ofNat_toNat (by omega)] at hfirst
      have hlead : 237 = ch.toNat / 64 % 32 + 0xc0 := hfirst
      omega
    · have hnext := congrArg UInt8.toNat (List.cons.inj (List.cons.inj hmore).2).1
      rw [ofNat_toNat (by omega)] at hfirst hnext
      have hlead : 237 = ch.toNat / 4096 % 16 + 0xe0 := hfirst
      omega
    · rw [ofNat_toNat (by omega)] at hfirst
      have hlead : 237 = ch.toNat / 262144 % 8 + 0xf0 := hfirst
      omega

/-- From `U+10F800` on a character begins with these bytes, and no other does. -/
lemma last_iff {ch : Char} : 0x10F800 ≤ ch.toNat ↔ ∃ third fourth : UInt8, 0xA0 ≤ third ∧
    String.utf8EncodeChar ch = [0xF4, 0x8F, third, fourth] := by
  have hvalid := @toNat_lt_surrogates ch
  constructor
  · intro h
    have hlead : ch.toNat / 262144 % 8 + 0xf0 = 0xF4 := by omega
    have hsecond : ch.toNat / 4096 % 64 + 0x80 = 0x8F := by omega
    refine ⟨UInt8.ofNat (ch.toNat / 64 % 64 + 0x80), UInt8.ofNat (ch.toNat % 64 + 0x80), ?_, ?_⟩
    · rw [UInt8.le_iff_toNat_le, ofNat_toNat (by omega)]
      change 0xA0 ≤ _
      omega
    · rw [utf8EncodeChar_four (by omega), hlead, hsecond]
      rfl
  · rintro ⟨third, fourth, hthird, hbytes⟩
    have hle : 0xA0 ≤ third.toNat := UInt8.le_iff_toNat_le.1 hthird
    rcases utf8EncodeChar_cases ch with
      ⟨-, hcases⟩ | ⟨-, -, hcases⟩ | ⟨-, -, hcases⟩ | ⟨hge, hcases⟩
    · rw [hcases] at hbytes
      exact absurd (congrArg List.length hbytes) (by simp)
    · rw [hcases] at hbytes
      exact absurd (congrArg List.length hbytes) (by simp)
    · rw [hcases] at hbytes
      exact absurd (congrArg List.length hbytes) (by simp)
    · rw [hcases, List.cons.injEq, List.cons.injEq, List.cons.injEq] at hbytes
      obtain ⟨hfirst, hsecond, hnext, -⟩ := hbytes
      replace hfirst := congrArg UInt8.toNat hfirst
      replace hsecond := congrArg UInt8.toNat hsecond
      replace hnext := congrArg UInt8.toNat hnext
      rw [ofNat_toNat (by omega)] at hfirst hsecond hnext
      have hlead : ch.toNat / 262144 % 8 + 0xf0 = 244 := hfirst
      have hnumber : ch.toNat / 4096 % 64 + 0x80 = 143 := hsecond
      omega

/-- Such bytes are a character. -/
lemma exists_last {third fourth : UInt8} (h : 0xA0 ≤ third) (hthird : third ≤ 0xBF)
    (hfourth : 0x80 ≤ fourth) (hfourth' : fourth ≤ 0xBF) :
    ∃ ch, String.utf8EncodeChar ch = [0xF4, 0x8F, third, fourth] := by
  have hlow : 0xA0 ≤ third.toNat := UInt8.le_iff_toNat_le.1 h
  have hhigh : third.toNat ≤ 0xBF := UInt8.le_iff_toNat_le.1 hthird
  have hlow' : 0x80 ≤ fourth.toNat := UInt8.le_iff_toNat_le.1 hfourth
  have hhigh' : fourth.toNat ≤ 0xBF := UInt8.le_iff_toNat_le.1 hfourth'
  have hch := @toNat_ofNat (0x10F000 + (third.toNat - 0x80) * 64 + (fourth.toNat - 0x80))
    (.inr ⟨by omega, by omega⟩)
  refine ⟨Char.ofNat (0x10F000 + (third.toNat - 0x80) * 64 + (fourth.toNat - 0x80)), ?_⟩
  generalize hcode : 0x10F000 + (third.toNat - 0x80) * 64 + (fourth.toNat - 0x80) = code at hch ⊢
  have hlead : code / 262144 % 8 + 0xf0 = 0xF4 := by omega
  have hsecond : code / 4096 % 64 + 0x80 = 0x8F := by omega
  have hthird : code / 64 % 64 + 0x80 = third.toNat := by omega
  have hfourth : code % 64 + 0x80 = fourth.toNat := by omega
  rw [utf8EncodeChar_four (by omega), hch, hlead, hsecond, hthird, hfourth, UInt8.ofNat_toNat,
    UInt8.ofNat_toNat]
  rfl

/-! ## Well-formed prefixes -/

/-- The characters of the longest well-formed prefix, and the bytes behind it. -/
def validRun : ℕ → List UInt8 → List Char × List UInt8
  | 0, bytes => ([], bytes)
  | fuel + 1, bytes =>
    match decodeChar bytes with
    | none => ([], bytes)
    | some ch =>
      let (chars, rest) := validRun fuel (bytes.drop ch.utf8Size)
      (ch :: chars, rest)

lemma drop_utf8Size (ch : Char) (rest : List UInt8) :
    (String.utf8EncodeChar ch ++ rest).drop ch.utf8Size = rest := by
  rw [← String.length_utf8EncodeChar, List.drop_left]

lemma validRun_encode {chars : List Char} {rest : List UInt8} (hrest : decodeChar rest = none)
    {fuel : ℕ} (hfuel : chars.length ≤ fuel) :
    validRun fuel (encode chars ++ rest) = (chars, rest) := by
  induction chars generalizing fuel with
  | nil =>
    cases fuel with
    | zero => rfl
    | succ fuel =>
      rw [encode, List.flatMap_nil, List.nil_append, validRun, hrest]
  | cons ch chars ih =>
    obtain ⟨fuel, rfl⟩ : ∃ rounds, fuel = rounds + 1 :=
      ⟨fuel - 1, by rw [List.length_cons] at hfuel; omega⟩
    rw [encode, List.flatMap_cons, List.append_assoc, validRun, decodeChar_append]
    dsimp only
    rw [drop_utf8Size]
    have hrun := ih (Nat.le_of_succ_le_succ hfuel)
    rw [encode] at hrun
    rw [hrun]

/-- Bytes are those of characters, and others that do not begin with one. -/
lemma exists_encode_append (bytes : List UInt8) :
    ∃ chars rest, bytes = encode chars ++ rest ∧ decodeChar rest = none := by
  induction hlength : bytes.length using Nat.strong_induction_on generalizing bytes with
  | _ length ih =>
    cases hdecode : decodeChar bytes with
    | none => exact ⟨[], bytes, rfl, hdecode⟩
    | some ch =>
      obtain ⟨more, rfl⟩ := eq_of_decodeChar hdecode
      have hpos := ch.utf8Size_pos
      rw [List.length_append, String.length_utf8EncodeChar] at hlength
      obtain ⟨chars, rest, rfl, hrest⟩ := ih more.length (by omega) more rfl
      exact ⟨ch :: chars, rest, by rw [encode, encode, List.flatMap_cons, List.append_assoc], hrest⟩

lemma length_le_encode (chars : List Char) : chars.length ≤ (encode chars).length := by
  induction chars with
  | nil => exact le_rfl
  | cons ch chars ih =>
    have hpos := ch.utf8Size_pos
    rw [encode, List.flatMap_cons, List.length_append, String.length_utf8EncodeChar,
      List.length_cons]
    rw [encode] at ih
    omega

/-! ## Ill-formed sequences -/

instance (byte : UInt8) : Decidable (isContinuation byte) :=
  inferInstanceAs (Decidable (byte &&& 0b11000000 = 0b10000000))

/-- The second bytes of a character with such a first byte. -/
def secondRange (first : UInt8) : UInt8 × UInt8 :=
  if first = 0xE0 then (0xA0, 0xBF)
  else if first = 0xED then (0x80, 0x9F)
  else if first = 0xF0 then (0x90, 0xBF)
  else if first = 0xF4 then (0x80, 0x8F)
  else (0x80, 0xBF)

/-- The length of the maximal subpart that ill-formed bytes begin with, or nothing where they end
within a character. -/
def errorLen : List UInt8 → Option ℕ
  | [] => none
  | first :: rest =>
    if first < 0xC2 ∨ 0xF4 < first then some 1
    else
      match rest with
      | [] => none
      | second :: rest =>
        if first < 0xE0 ∨ second < (secondRange first).1 ∨ (secondRange first).2 < second then
          some 1
        else
          match rest with
          | [] => none
          | third :: rest =>
            if first < 0xF0 ∨ ¬isContinuation third then some 2
            else if rest = [] then none
            else some 3

section

set_option maxRecDepth 4000

lemma isContinuation_iff (byte : UInt8) : isContinuation byte ↔ 0x80 ≤ byte ∧ byte ≤ 0xBF :=
  forall_byte (P := fun byte => byte &&& 0b11000000 = 0b10000000 ↔ 0x80 ≤ byte ∧ byte ≤ 0xBF)
    (by decide) byte

end

lemma secondRange_bounds (first : UInt8) :
    0x80 ≤ (secondRange first).1 ∧ (secondRange first).2 ≤ 0xBF := by
  rw [secondRange]
  split_ifs <;> decide

lemma isContinuation_of_secondRange {first second : UInt8}
    (h : ¬(first < 0xE0 ∨ second < (secondRange first).1 ∨ (secondRange first).2 < second)) :
    isContinuation second := by
  obtain ⟨-, h⟩ := not_or.1 h
  obtain ⟨hlow, hhigh⟩ := not_or.1 h
  exact (isContinuation_iff second).2
    ⟨UInt8.le_trans (secondRange_bounds first).1 (UInt8.not_lt.1 hlow),
      UInt8.le_trans (UInt8.not_lt.1 hhigh) (secondRange_bounds first).2⟩

/-- The subpart has a first byte and continuation bytes behind it. -/
lemma errorLen_part (first : UInt8) (rest : List UInt8) :
    ∃ part, (first :: rest).take ((errorLen (first :: rest)).getD (first :: rest).length) =
      first :: part ∧ ∀ byte ∈ part, isContinuation byte := by
  rw [errorLen.eq_def]
  dsimp only
  split_ifs with hfirst
  · exact ⟨[], rfl, nofun⟩
  cases rest with
  | nil => exact ⟨[], rfl, nofun⟩
  | cons second rest =>
    dsimp only
    split_ifs with hsecond
    · exact ⟨[], rfl, nofun⟩
    have hcontinues := isContinuation_of_secondRange hsecond
    have hone : ∀ byte ∈ [second], isContinuation byte := by
      intro byte hbyte
      rwa [List.mem_singleton.1 hbyte]
    cases rest with
    | nil => exact ⟨[second], rfl, hone⟩
    | cons third rest =>
      dsimp only
      split_ifs with hthird hrest
      · exact ⟨[second], rfl, hone⟩
      · subst hrest
        refine ⟨[second, third], rfl, ?_⟩
        intro byte hbyte
        rcases List.mem_cons.1 hbyte with rfl | hbyte
        · exact hcontinues
        · rw [List.mem_singleton.1 hbyte]
          exact not_not.1 (not_or.1 hthird).2
      · refine ⟨[second, third], rfl, ?_⟩
        intro byte hbyte
        rcases List.mem_cons.1 hbyte with rfl | hbyte
        · exact hcontinues
        · rw [List.mem_singleton.1 hbyte]
          exact not_not.1 (not_or.1 hthird).2

/-- Bytes that begin with no character do not begin with an ASCII byte. -/
lemma le_of_decodeChar {first : UInt8} {rest : List UInt8}
    (h : decodeChar (first :: rest) = none) : 0x80 ≤ first := by
  by_contra hlt
  obtain ⟨ch, hch⟩ := decodeChar_ascii (UInt8.not_le.1 hlt) rest
  rw [hch] at h
  cases h

/-! ## `from_utf8` -/

/-- How far bytes are well formed, and the length of the ill-formed part behind that. -/
structure Utf8Error where
  validUpTo : ℕ
  errorLen : Option ℕ
deriving DecidableEq, Repr

def fromUtf8 (bytes : List UInt8) : Except Utf8Error (List Char) :=
  let (chars, rest) := validRun bytes.length bytes
  if rest = [] then .ok chars else .error ⟨bytes.length - rest.length, errorLen rest⟩

lemma decodeChar_nil : decodeChar [] = none := rfl

lemma fromUtf8_append {chars : List Char} {rest : List UInt8} (hrest : decodeChar rest = none) :
    fromUtf8 (encode chars ++ rest) =
      if rest = [] then .ok chars else .error ⟨(encode chars).length, errorLen rest⟩ := by
  have hle := length_le_encode chars
  have hrun : validRun (encode chars ++ rest).length (encode chars ++ rest) = (chars, rest) :=
    validRun_encode hrest (by rw [List.length_append]; omega)
  rw [fromUtf8, hrun]
  dsimp only
  rw [List.length_append, Nat.add_sub_cancel]

lemma fromUtf8_eq_ok (chars : List Char) : fromUtf8 (encode chars) = .ok chars := by
  have h := @fromUtf8_append chars [] decodeChar_nil
  rwa [List.append_nil, if_pos rfl] at h

end Utf8
