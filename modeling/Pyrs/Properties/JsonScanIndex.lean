import Pyrs.Model.JsonScanner

/-!
# The index of `scan_once`

Python counts the characters of a string, and `JsonParser` its bytes.  `scan_once` takes the index
for a position of the parser and returns a position of the parser, so that it reads a string like
Python exactly when nothing but ASCII stands in front of what it reads and in what it has read.
-/

namespace Pyrs

namespace JsonScanner

open Utf8 (byteIndex charIndex encode isContinuation)

variable (parseF64 : List UInt8 → Option Binary64) (limit : ℤ) (depthLimit : ℕ)
  (source : List Char)

/-- The parser, from a character of a string on. -/
def parseFromChar (idx : ℕ) : Except JsonFault (JsonNode × ℕ) :=
  JsonParser.parseValue (encode source) parseF64 limit (max depthLimit 1) (byteIndex source idx)

/-- A fault that raises a `JSONDecodeError`. -/
def IsDecodeMessage (message : String) : Prop :=
  isRecursionMessage message = false ∧ message ≠ "Expecting value"

/-- The parser has read a value up to a byte, or raises a decode error there. -/
inductive StopsAt : Except JsonFault (JsonNode × ℕ) → ℕ → Prop
  | value (node : JsonNode) (pos : ℕ) : StopsAt (.ok (node, pos)) pos
  | fault (message : String) (pos : ℕ) (h : IsDecodeMessage message) :
      StopsAt (.error (.error ⟨message, pos⟩)) pos

/-- What the parser returns, with its position counted in characters. -/
def inCharacters : Except JsonFault (JsonNode × ℕ) → Except ScanFault (JsonNode × ℕ)
  | .ok (node, pos) => .ok (node, charIndex source pos)
  | .error (.error ⟨message, pos⟩) =>
    .error (.decode { jsonDecodeError message source pos with pos := charIndex source pos })
  | .error .outOfFuel => .error .outOfFuel

/-- `scan_once` returns the value that begins at the character, with the character behind it, or
raises the decode error at the character where it is. -/
def ScansAt (idx : ℕ) : Prop :=
  ∀ pos, StopsAt (parseFromChar parseF64 limit depthLimit source idx) pos →
    scanOnce parseF64 limit depthLimit source idx =
      inCharacters source (parseFromChar parseF64 limit depthLimit source idx)

variable {parseF64 limit depthLimit source} {result : Except JsonFault (JsonNode × ℕ)}
  {idx pos pos' : ℕ}

/-! ## What stops the parser -/

lemma StopsAt.unique (h : StopsAt result pos) (h' : StopsAt result pos') : pos = pos' := by
  cases h with
  | value node pos =>
    cases h'
    rfl
  | fault message pos hmessage =>
    cases h'
    rfl

/-- A result that reads like another one in characters stops at a byte of that number. -/
lemma StopsAt.of_mapError {other : Except JsonFault (JsonNode × ℕ)} (h : StopsAt result pos)
    (heq : other.mapError (scanFault source) = inCharacters source result) :
    StopsAt other (charIndex source pos) := by
  cases h with
  | value node pos =>
    cases other with
    | ok read =>
      obtain rfl := Except.ok.inj heq
      exact .value node _
    | error fault => cases heq
  | fault message pos hmessage =>
    cases other with
    | ok read => cases heq
    | error fault =>
      have hfault := Except.error.inj heq
      cases fault with
      | outOfFuel => cases hfault
      | error error =>
        obtain ⟨message', pos'⟩ := error
        rw [scanFault] at hfault
        split at hfault
        · cases hfault
        case isFalse hrecursion =>
        split at hfault
        · cases hfault
        case isFalse hexpecting =>
          have hdecode := ScanFault.decode.inj hfault
          have hpos : pos' = charIndex source pos := congrArg JsonDecodeError.pos hdecode
          rw [← hpos]
          exact .fault message' pos' ⟨Bool.eq_false_iff.2 hrecursion, hexpecting⟩

lemma scanOnce_eq (h : idx ≤ source.length) :
    scanOnce parseF64 limit depthLimit source idx =
      (JsonParser.parseValue (encode source) parseF64 limit (max depthLimit 1) idx).mapError
        (scanFault source) := by
  have hle : idx ≤ (encode source).length := Nat.le_trans h (Utf8.length_le_encode source)
  rw [scanOnce, if_neg (by omega), parseJsonNodeFromIndex, Int.toNat_natCast,
    if_neg (Nat.not_lt.2 hle)]

/-- No value and no malformed one begins inside of a character. -/
lemma not_stopsAt_continuation {bytes : List UInt8} {byte : UInt8} {levels : ℕ}
    (hbyte : bytes[idx]? = some byte) (hcontinues : isContinuation byte) :
    ¬ StopsAt (JsonParser.parseValue bytes parseF64 limit (levels + 1) idx) pos := by
  have hne : ∀ other : UInt8, other < 0x80 → byte ≠ other := by
    rintro other hother rfl
    exact Utf8.not_isContinuation_of_lt hother hcontinues
  have hws : isWs byte = false := by
    simp [isWs, hne (ascii ' ') (by decide), hne (ascii '\n') (by decide),
      hne (ascii '\r') (by decide), hne (ascii '\t') (by decide)]
  have hdigit : isDigit byte = false := decide_eq_false fun hrange =>
    Utf8.not_isContinuation_of_lt (UInt8.lt_of_le_of_lt hrange.2 (by decide)) hcontinues
  obtain ⟨hlt, rfl⟩ := List.getElem?_eq_some_iff.1 hbyte
  have hdrop := List.drop_eq_getElem_cons hlt
  have hskip : JsonParser.skipWs bytes idx = idx := by
    rw [JsonParser.skipWs, hdrop, List.takeWhile_cons_of_neg (by simp [hws])]
    rfl
  have hminus : JsonParser.startsWith bytes (asciiBytes "-Infinity") idx = false := by
    rw [JsonParser.startsWith, hdrop]
    refine decide_eq_false fun heq => hne (ascii '-') (by decide) ?_
    exact (List.cons.inj heq).1
  have hvalue : JsonParser.parseValue bytes parseF64 limit (levels + 1) idx =
      jsonError "Expecting value" idx := by
    rw [JsonParser.parseValue, hskip, hminus, JsonParser.peek, hbyte]
    simp [hne (ascii 'n') (by decide), hne (ascii 't') (by decide), hne (ascii 'f') (by decide),
      hne (ascii 'N') (by decide), hne (ascii 'I') (by decide), hne (ascii '"') (by decide),
      hne (ascii '[') (by decide), hne (ascii '{') (by decide), hne (ascii '-') (by decide), hdigit]
  rw [hvalue]
  rintro ⟨⟩
  rename_i hmessage
  exact hmessage.2 rfl

/-! ## The index -/

/-- Where `scan_once` reads every value like Python, as many bytes as characters stand in front of
each. -/
lemma byteIndex_eq_of_scansAt
    (h : ∀ idx ≤ source.length, ScansAt parseF64 limit depthLimit source idx)
    (hidx : idx ≤ source.length)
    (hstops : StopsAt (parseFromChar parseF64 limit depthLimit source idx) pos) :
    byteIndex source idx = idx := by
  induction idx using Nat.strongRecOn generalizing pos with
  | ind idx ih =>
    by_contra hne
    have hlt : idx < byteIndex source idx :=
      Nat.lt_of_le_of_ne (Utf8.le_byteIndex hidx) (Ne.symm hne)
    have hscan := h idx hidx pos hstops
    rw [scanOnce_eq hidx] at hscan
    have hbyte := hstops.of_mapError hscan
    -- The parser has read the same at the byte of that number, where an earlier character begins.
    rcases Utf8.byteIndex_or_isContinuation
      (Nat.lt_of_lt_of_le hlt (Utf8.byteIndex_le source idx)) with ⟨idx', hidx', heq⟩ | hinside
    · have hle : idx' ≤ idx := heq ▸ Utf8.le_byteIndex hidx'
      have hne' : idx' ≠ idx := fun hsame => hne (hsame ▸ heq)
      have hstops' : StopsAt (parseFromChar parseF64 limit depthLimit source idx')
          (charIndex source pos) := by
        rw [parseFromChar, heq]
        exact hbyte
      exact hne' ((ih idx' (Nat.lt_of_le_of_ne hle hne') hidx' hstops').symm.trans heq)
    · obtain ⟨byte, hget, hcontinues⟩ := hinside
      obtain ⟨levels, hlevels⟩ : ∃ levels, max depthLimit 1 = levels + 1 :=
        ⟨max depthLimit 1 - 1, by omega⟩
      rw [hlevels] at hbyte
      exact not_stopsAt_continuation hget hcontinues hbyte

/-- `scan_once` reads every value and reports every decode error of a string like Python exactly
when as many bytes as characters stand in front of each of them, and in front of where it ends. -/
theorem scansAt_iff (parseF64 : List UInt8 → Option Binary64) (limit : ℤ) (depthLimit : ℕ)
    (source : List Char) :
    (∀ idx ≤ source.length, ScansAt parseF64 limit depthLimit source idx) ↔
      ∀ idx ≤ source.length, ∀ pos,
        StopsAt (parseFromChar parseF64 limit depthLimit source idx) pos →
          byteIndex source idx = idx ∧ charIndex source pos = pos := by
  constructor
  case mp =>
    intro h idx hidx pos hstops
    have hindex := byteIndex_eq_of_scansAt h hidx hstops
    have hscan := h idx hidx pos hstops
    rw [scanOnce_eq hidx] at hscan
    have hchars := hstops.of_mapError hscan
    rw [parseFromChar, hindex] at hstops
    exact ⟨hindex, hchars.unique hstops⟩
  case mpr =>
    intro h idx hidx pos hstops
    obtain ⟨hindex, hchars⟩ := h idx hidx pos hstops
    rw [scanOnce_eq hidx]
    rw [parseFromChar, hindex] at hstops ⊢
    generalize JsonParser.parseValue (encode source) parseF64 limit (max depthLimit 1) idx = result
      at hstops
    cases hstops with
    | value node pos => rw [inCharacters, hchars, Except.mapError]
    | fault message pos hmessage =>
      rw [inCharacters, hchars, Except.mapError, scanFault, if_neg (by simp [hmessage.1]),
        if_neg hmessage.2]
      rfl

/-- A value behind a character that is not ASCII. -/
theorem not_scansAt_accent :
    ¬ ScansAt (fun _ => none) 4300 1000 ['é', 'n', 'u', 'l', 'l'] 1 := by
  intro h
  have hstops : StopsAt (parseFromChar (fun _ => none) 4300 1000 ['é', 'n', 'u', 'l', 'l'] 1) 6 :=
    .value .null 6
  cases h 6 hstops

end JsonScanner

end Pyrs
