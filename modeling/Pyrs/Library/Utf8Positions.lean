import Pyrs.Library.Utf8Decoding

/-!
# Characters and bytes as positions in a text

A position counts the characters of a text or the bytes of its encoding.  `byteIndex` goes from the
former to the latter.  `charIndex` counts the characters that begin in front of a byte.
-/

namespace Utf8

instance (byte : UInt8) : Decidable (isContinuation byte) := by
  unfold isContinuation
  infer_instance

variable {chars : List Char} {idx idx' pos pos' : ℕ}

/-- Where the bytes of a character begin. -/
def byteIndex (chars : List Char) (idx : ℕ) : ℕ := (encode (chars.take idx)).length

/-- How many characters begin in front of a byte. -/
def charIndex (chars : List Char) (pos : ℕ) : ℕ :=
  ((encode chars).take pos).countP fun byte => ¬ isContinuation byte

/-- A byte below `0x80` is a character of its own. -/
lemma not_isContinuation_of_lt {byte : UInt8} (h : byte < 0x80) : ¬ isContinuation byte :=
  fun hbyte => absurd ((isContinuation_iff byte).1 hbyte).1 (UInt8.not_le.2 h)

set_option maxRecDepth 4000 in
lemma isContinuation_shiftRight (byte : UInt8) (h : isContinuation byte) :
    byte >>> 5 ≠ 0b110 ∧ byte >>> 4 ≠ 0b1110 ∧ byte >>> 3 ≠ 0b11110 := by
  revert byte
  exact forall_byte (by decide)

lemma Leads.not_isContinuation {byte : UInt8} {count : ℕ} (h : Leads byte count) :
    ¬ isContinuation byte := by
  intro hbyte
  obtain ⟨htwo, hthree, hfour⟩ := isContinuation_shiftRight byte hbyte
  cases h with
  | two h => exact htwo h
  | three h => exact hthree h
  | four h => exact hfour h

lemma encode_cons (ch : Char) : encode (ch :: chars) = String.utf8EncodeChar ch ++ encode chars :=
  List.flatMap_cons

lemma encode_append (chars chars' : List Char) :
    encode (chars ++ chars') = encode chars ++ encode chars' := List.flatMap_append

/-- A character has one byte that is not a continuation, the first. -/
lemma utf8EncodeChar_parts (ch : Char) : ∃ first rest, String.utf8EncodeChar ch = first :: rest ∧
    ¬ isContinuation first ∧ ∀ byte ∈ rest, isContinuation byte := by
  by_cases hsmall : ch.toNat < 0x80
  · refine ⟨_, [], utf8EncodeChar_ascii hsmall, not_isContinuation_of_lt ?_, nofun⟩
    rw [UInt8.lt_iff_toNat_lt, ofNat_toNat (by omega)]
    exact hsmall
  · obtain ⟨first, rest, hch, hleads, hrest⟩ := utf8EncodeChar_leads (Nat.le_of_not_lt hsmall)
    exact ⟨first, rest, hch, hleads.not_isContinuation, hrest⟩

lemma countP_encode (chars : List Char) :
    (encode chars).countP (fun byte => ¬ isContinuation byte) = chars.length := by
  induction chars with
  | nil => rfl
  | cons ch chars ih =>
    obtain ⟨first, rest, hch, hfirst, hrest⟩ := utf8EncodeChar_parts ch
    have hnone : rest.countP (fun byte => ¬ isContinuation byte) = 0 :=
      List.countP_eq_zero.2 fun byte hbyte => by simpa using hrest byte hbyte
    rw [encode_cons, hch, List.countP_append, ih, List.countP_cons_of_pos (by simpa using hfirst),
      hnone, List.length_cons]
    omega

lemma take_byteIndex (chars : List Char) (idx : ℕ) :
    (encode chars).take (byteIndex chars idx) = encode (chars.take idx) := by
  have hsplit : encode chars = encode (chars.take idx) ++ encode (chars.drop idx) := by
    rw [← encode_append, List.take_append_drop]
  rw [hsplit]
  exact List.take_left' rfl

lemma byteIndex_le (chars : List Char) (idx : ℕ) : byteIndex chars idx ≤ (encode chars).length := by
  rw [byteIndex, ← take_byteIndex]
  exact List.length_take_le' ..

@[simp] lemma charIndex_byteIndex (h : idx ≤ chars.length) :
    charIndex chars (byteIndex chars idx) = idx := by
  rw [charIndex, take_byteIndex, countP_encode, List.length_take_of_le h]

lemma charIndex_le (chars : List Char) (pos : ℕ) : charIndex chars pos ≤ pos :=
  Nat.le_trans List.countP_le_length (List.length_take_le ..)

lemma le_byteIndex (h : idx ≤ chars.length) : idx ≤ byteIndex chars idx := by
  have := charIndex_le chars (byteIndex chars idx)
  rwa [charIndex_byteIndex h] at this

/-- A byte is the first of a character or a continuation. -/
lemma byteIndex_or_isContinuation (h : pos < (encode chars).length) :
    (∃ idx ≤ chars.length, byteIndex chars idx = pos) ∨
      ∃ byte, (encode chars)[pos]? = some byte ∧ isContinuation byte := by
  induction chars generalizing pos with
  | nil => exact absurd h (Nat.not_lt_zero _)
  | cons ch chars ih =>
    obtain ⟨first, rest, hch, -, hrest⟩ := utf8EncodeChar_parts ch
    rw [encode_cons, List.length_append] at h
    rcases Nat.lt_or_ge pos (String.utf8EncodeChar ch).length with hlt | hge
    · rcases pos with - | pos
      · exact .inl ⟨0, Nat.zero_le _, rfl⟩
      · right
        rw [hch, List.length_cons, Nat.add_lt_add_iff_right] at hlt
        refine ⟨rest[pos], ?_, hrest _ (List.getElem_mem hlt)⟩
        rw [encode_cons, hch, List.cons_append, List.getElem?_cons_succ,
          List.getElem?_append_left hlt, List.getElem?_eq_getElem hlt]
    · obtain ⟨behind, rfl⟩ := Nat.exists_eq_add_of_le hge
      rcases ih (Nat.lt_of_add_lt_add_left h) with ⟨idx, hidx, rfl⟩ | ⟨byte, hbyte, hcontinues⟩
      · refine .inl ⟨idx + 1, Nat.succ_le_succ hidx, ?_⟩
        rw [byteIndex, List.take_succ_cons, encode_cons, List.length_append]
        rfl
      · refine .inr ⟨byte, ?_, hcontinues⟩
        rw [encode_cons, List.getElem?_append_right (Nat.le_add_right _ _),
          Nat.add_sub_cancel_left]
        exact hbyte

end Utf8
