import Mathlib.Data.UInt

/-!
# The bytes of a character

A character below `0x80` is its own byte.  Another one has a first byte whose high bits count the
bytes, and continuation bytes behind it.
-/

namespace Utf8

def isContinuation (byte : UInt8) : Prop := byte &&& 0b11000000 = 0b10000000

/-- The first byte of a character of two, three or four bytes. -/
inductive Leads : UInt8 → ℕ → Prop
  | two {byte : UInt8} (h : byte >>> 5 = 0b110) : Leads byte 1
  | three {byte : UInt8} (h : byte >>> 4 = 0b1110) : Leads byte 2
  | four {byte : UInt8} (h : byte >>> 3 = 0b11110) : Leads byte 3

lemma forall_byte {P : UInt8 → Prop} (h : ∀ n : Fin 256, P (UInt8.ofFin n)) (byte : UInt8) :
    P byte := h byte.toFin

section

set_option maxRecDepth 4000

lemma isContinuation_six (byte : UInt8) : isContinuation (byte &&& 0x3f ||| 0x80) :=
  forall_byte (P := fun byte => (byte &&& 0x3f ||| 0x80) &&& 0b11000000 = 0b10000000)
    (by decide) byte

lemma lead_two (byte : UInt8) : (byte &&& 0x1f ||| 0xc0) >>> 5 = 0b110 :=
  forall_byte (P := fun byte => (byte &&& 0x1f ||| 0xc0) >>> 5 = 0b110) (by decide) byte

lemma lead_three (byte : UInt8) : (byte &&& 0x0f ||| 0xe0) >>> 4 = 0b1110 :=
  forall_byte (P := fun byte => (byte &&& 0x0f ||| 0xe0) >>> 4 = 0b1110) (by decide) byte

lemma lead_four (byte : UInt8) : (byte &&& 0x07 ||| 0xf0) >>> 3 = 0b11110 :=
  forall_byte (P := fun byte => (byte &&& 0x07 ||| 0xf0) >>> 3 = 0b11110) (by decide) byte

lemma le_of_shiftRight {byte : UInt8}
    (h : byte >>> 5 = 0b110 ∨ byte >>> 4 = 0b1110 ∨ byte >>> 3 = 0b11110) : 0x80 ≤ byte :=
  forall_byte (P := fun byte => byte >>> 5 = 0b110 ∨ byte >>> 4 = 0b1110 ∨ byte >>> 3 = 0b11110 →
    0x80 ≤ byte) (by decide) byte h

lemma shiftRight_unique (byte : UInt8) :
    ¬(byte >>> 5 = 0b110 ∧ byte >>> 4 = 0b1110) ∧ ¬(byte >>> 5 = 0b110 ∧ byte >>> 3 = 0b11110) ∧
      ¬(byte >>> 4 = 0b1110 ∧ byte >>> 3 = 0b11110) :=
  forall_byte (P := fun byte => ¬(byte >>> 5 = 0b110 ∧ byte >>> 4 = 0b1110) ∧
    ¬(byte >>> 5 = 0b110 ∧ byte >>> 3 = 0b11110) ∧
      ¬(byte >>> 4 = 0b1110 ∧ byte >>> 3 = 0b11110)) (by decide) byte

end

lemma Leads.le {byte : UInt8} {count : ℕ} (h : Leads byte count) : 0x80 ≤ byte := by
  cases h with
  | two h => exact le_of_shiftRight (.inl h)
  | three h => exact le_of_shiftRight (.inr (.inl h))
  | four h => exact le_of_shiftRight (.inr (.inr h))

lemma Leads.unique {byte : UInt8} {count count' : ℕ} (h : Leads byte count)
    (h' : Leads byte count') : count = count' := by
  obtain ⟨htwo, htwoFour, hthree⟩ := shiftRight_unique byte
  cases h with
  | two h =>
    cases h' with
    | two => rfl
    | three h' => exact absurd ⟨h, h'⟩ htwo
    | four h' => exact absurd ⟨h, h'⟩ htwoFour
  | three h =>
    cases h' with
    | two h' => exact absurd ⟨h', h⟩ htwo
    | three => rfl
    | four h' => exact absurd ⟨h, h'⟩ hthree
  | four h =>
    cases h' with
    | two h' => exact absurd ⟨h', h⟩ htwoFour
    | three h' => exact absurd ⟨h', h⟩ hthree
    | four => rfl

lemma utf8EncodeChar_ascii {ch : Char} (h : ch.toNat < 0x80) :
    String.utf8EncodeChar ch = [UInt8.ofNat ch.toNat] := by
  have hval : ch.val ≤ 127 := UInt32.le_iff_toNat_le.2 (Nat.le_of_lt_succ h)
  exact String.utf8EncodeChar_eq_singleton (if_pos hval)

/-- A character that is not ASCII has a first byte that counts the others. -/
lemma utf8EncodeChar_leads {ch : Char} (h : 0x80 ≤ ch.toNat) :
    ∃ first rest, String.utf8EncodeChar ch = first :: rest ∧ Leads first rest.length ∧
      ∀ byte ∈ rest, isContinuation byte := by
  have hone : ch.utf8Size ≠ 1 := by
    intro hsize
    have hle : ch.toNat ≤ 127 := UInt32.le_iff_toNat_le.1 (Char.utf8Size_eq_one_iff.1 hsize)
    omega
  rcases ch.utf8Size_eq with hsize | hsize | hsize | hsize
  · exact absurd hsize hone
  · rw [String.utf8EncodeChar_eq_cons_cons hsize]
    refine ⟨_, _, rfl, .two (lead_two _), ?_⟩
    intro byte hbyte
    obtain rfl := List.mem_singleton.1 hbyte
    exact isContinuation_six _
  · rw [String.utf8EncodeChar_eq_cons_cons_cons hsize]
    refine ⟨_, _, rfl, .three (lead_three _), ?_⟩
    intro byte hbyte
    simp only [List.mem_cons, List.not_mem_nil, or_false] at hbyte
    rcases hbyte with rfl | rfl <;> exact isContinuation_six _
  · rw [String.utf8EncodeChar_eq_cons_cons_cons_cons hsize]
    refine ⟨_, _, rfl, .four (lead_four _), ?_⟩
    intro byte hbyte
    simp only [List.mem_cons, List.not_mem_nil, or_false] at hbyte
    rcases hbyte with rfl | rfl | rfl <;> exact isContinuation_six _

/-- The bytes of characters, one after the other. -/
def encode (chars : List Char) : List UInt8 := chars.flatMap String.utf8EncodeChar

lemma toByteArray_encode (chars : List Char) : (encode chars).toByteArray = chars.utf8Encode := by
  rw [encode, List.utf8Encode]

lemma fromUTF8_encode (chars : List Char) :
    String.fromUTF8? (encode chars).toByteArray = some (String.ofList chars) := by
  rw [toByteArray_encode, String.fromUTF8?,
    dif_pos (ByteArray.isValidUTF8_utf8Encode)]
  rw [String.fromUTF8]
  congr 1

/-- Bytes that are a text are the bytes of its characters. -/
lemma encode_of_fromUTF8 {bytes : List UInt8} {text : String}
    (h : String.fromUTF8? bytes.toByteArray = some text) : bytes = encode text.toList := by
  rw [String.fromUTF8?] at h
  split at h
  · next hvalid =>
    cases h
    have hbytes :
        (String.fromUTF8 bytes.toByteArray hvalid).toList.utf8Encode = bytes.toByteArray :=
      String.utf8Encode_toList
    rw [← toByteArray_encode] at hbytes
    exact (List.toByteArray_inj.1 hbytes).symm
  · cases h

end Utf8
