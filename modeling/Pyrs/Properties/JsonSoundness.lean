import Pyrs.Library.Results
import Mathlib.Data.List.TakeWhile
import Pyrs.Library.Utf8
import Pyrs.Properties.JsonGrammar

/-!
# Soundness of the JSON parser

What the parser accepts is derivable, and its position does not leave the source.
-/

namespace Pyrs

open JsonGrammar

namespace JsonParser

/-! ## Positions -/

/-- A position behind another one, inside the source. -/
structure Moves (source : List UInt8) (pos next : ℕ) : Prop where
  le : pos ≤ next
  next_le : pos ≤ source.length → next ≤ source.length

variable {source : List UInt8} {pos next last : ℕ}

lemma Moves.refl (pos : ℕ) : Moves source pos pos := ⟨le_rfl, id⟩

lemma Moves.trans (h : Moves source pos next) (h' : Moves source next last) :
    Moves source pos last := ⟨h.le.trans h'.le, fun hle => h'.next_le (h.next_le hle)⟩

lemma peek_eq (pos : ℕ) : peek source pos = (source.drop pos).head? := by
  rw [peek, List.head?_drop]

lemma drop_of_peek {byte : UInt8} (h : peek source pos = some byte) :
    source.drop pos = byte :: source.drop (pos + 1) := by
  obtain ⟨hlt, hbyte⟩ := List.getElem?_eq_some_iff.1 h
  rw [List.drop_eq_getElem_cons hlt, hbyte]

lemma peek_of_drop {byte : UInt8} {rest : List UInt8} (h : source.drop pos = byte :: rest) :
    peek source pos = some byte ∧ source.drop (pos + 1) = rest := by
  have hpeek : peek source pos = some byte := by rw [peek_eq, h]; rfl
  refine ⟨hpeek, ?_⟩
  rw [drop_of_peek hpeek] at h
  exact (List.cons.inj h).2

lemma Moves.succ {byte : UInt8} (h : peek source pos = some byte) : Moves source pos (pos + 1) :=
  ⟨Nat.le_succ pos, fun _ => (List.getElem?_eq_some_iff.1 h).1⟩

lemma moves_add {count : ℕ} (h : count ≤ (source.drop pos).length) :
    Moves source pos (pos + count) := by
  rw [List.length_drop] at h
  exact ⟨Nat.le_add_right _ _, fun hle => by omega⟩

lemma moves_skip (p : UInt8 → Bool) :
    Moves source pos (pos + ((source.drop pos).takeWhile p).length) :=
  moves_add (List.takeWhile_sublist p).length_le

lemma drop_skip (p : UInt8 → Bool) :
    source.drop (pos + ((source.drop pos).takeWhile p).length) = (source.drop pos).dropWhile p := by
  rw [← List.drop_drop]
  conv_lhs => rw [← List.takeWhile_append_dropWhile (p := p) (l := source.drop pos)]
  rw [List.drop_append, List.takeWhile_append_dropWhile, Nat.sub_self]
  simp

lemma drop_skipWs : source.drop (skipWs source pos) = (source.drop pos).dropWhile isWs :=
  drop_skip isWs

lemma moves_skipWs : Moves source pos (skipWs source pos) := moves_skip isWs

lemma ws_dropWhile (text : List UInt8) : Ws text (text.dropWhile isWs) :=
  ⟨text.takeWhile isWs, fun _ hbyte => List.mem_takeWhile_imp hbyte,
    List.takeWhile_append_dropWhile.symm⟩

lemma ws_skipWs : Ws (source.drop pos) (source.drop (skipWs source pos)) := by
  rw [drop_skipWs]
  exact ws_dropWhile _

lemma startsWith_iff {text : List UInt8} :
    startsWith source text pos = true ↔
      source.drop pos = text ++ source.drop (pos + text.length) := by
  rw [startsWith, decide_eq_true_iff, ← List.drop_drop]
  constructor
  · intro h
    conv_lhs => rw [← List.take_append_drop text.length (source.drop pos), h]
  · intro h
    rw [h, List.take_left']
    rfl

lemma moves_startsWith {text : List UInt8} (h : startsWith source text pos = true) :
    Moves source pos (pos + text.length) := by
  refine moves_add ?_
  rw [startsWith_iff.1 h, List.length_append]
  exact Nat.le_add_right _ _

lemma expect_eq_ok {byte : UInt8} {message : String}
    (h : expect source byte message pos = .ok next) :
      peek source pos = some byte ∧ next = pos + 1 := by
  rw [expect] at h
  split at h
  · next hpeek => exact ⟨hpeek, (Except.ok.inj h).symm⟩
  · cases h

/-! ## Characters -/

lemma charFromU32_eq_some {code : ℕ} {ch : Char} (h : charFromU32 code = some ch) :
    ch = Char.ofNat code := by
  by_cases hvalid : code.isValidChar
  · rw [charFromU32, dif_pos hvalid] at h
    cases h
    rw [Char.ofNat, dif_pos hvalid]
  · rw [charFromU32, dif_neg hvalid] at h
    cases h

lemma charFromU32_of_valid {code : ℕ} (h : code.isValidChar) :
    charFromU32 code = some (Char.ofNat code) := by
  rw [charFromU32, dif_pos h, Char.ofNat, dif_pos h]

lemma isHighSurrogate_iff {code : ℕ} :
    isHighSurrogate code = true ↔ 0xD800 ≤ code ∧ code ≤ 0xDBFF := by
  rw [isHighSurrogate, decide_eq_true_iff]

lemma isLowSurrogate_iff {code : ℕ} :
    isLowSurrogate code = true ↔ 0xDC00 ≤ code ∧ code ≤ 0xDFFF := by
  rw [isLowSurrogate, decide_eq_true_iff]

lemma internalChar_of_surrogate {code : ℕ}
    (h : isHighSurrogate code = true ∨ isLowSurrogate code = true) :
    internalCharFromCodepoint code = charFromU32 (internalSurrogateBase + (code - 0xD800)) := by
  rw [isHighSurrogate_iff, isLowSurrogate_iff] at h
  rw [internalCharFromCodepoint, if_pos (by omega)]

lemma surrogatePairScalar_eq {high low : ℕ} (h : isLowSurrogate low = true) :
    surrogatePairScalar high low = 0x10000 + (high - 0xD800) * 0x400 + (low - 0xDC00) := by
  rw [isLowSurrogate_iff] at h
  have hlt : low - 0xDC00 < 2 ^ 10 := by omega
  rw [surrogatePairScalar, ← Nat.shiftLeft_add_eq_or_of_lt hlt, Nat.shiftLeft_eq, Nat.add_assoc]

lemma validChar_eq_ok {ch : Option Char} {found : Char}
    (h : validChar ch pos = .ok (found, next)) : ch = some found ∧ next = pos := by
  cases ch with
  | none => cases h
  | some ch => cases h; exact ⟨rfl, rfl⟩

/-- Digits have one value and one rest. -/
lemma HexDigits.unique {count value code code' : ℕ} {text rest rest' : List UInt8}
    (h : HexDigits count value text code rest) (h' : HexDigits count value text code' rest') :
    code = code' ∧ rest = rest' := by
  induction h with
  | nil =>
    cases h'
    exact ⟨rfl, rfl⟩
  | cons hdigit _ ih =>
    cases h' with
    | cons hdigit' h' =>
      obtain rfl := Option.some.inj (hdigit.symm.trans hdigit')
      exact ih h'

lemma parseHexDigits_sound {count value code : ℕ}
    (h : parseHexDigits source count value pos = .ok (code, next)) :
    HexDigits count value (source.drop pos) code (source.drop next) ∧ Moves source pos next := by
  induction count generalizing value pos with
  | zero =>
    cases h
    exact ⟨.nil, .refl _⟩
  | succ count ih =>
    rw [parseHexDigits] at h
    split at h
    · cases h
    · next byte hpeek =>
      split at h
      · next digit hdigit =>
        obtain ⟨hrest, hmoves⟩ := ih h
        rw [drop_of_peek hpeek]
        exact ⟨.cons hdigit hrest, (Moves.succ hpeek).trans hmoves⟩
      · cases h

lemma parseUnicodeEscape_sound {ch : Char}
    (h : parseUnicodeEscape source pos = .ok (ch, next)) :
    CharText (unicodeEscape (source.drop pos)) ch (source.drop next) ∧ Moves source pos next := by
  rw [parseUnicodeEscape] at h
  obtain ⟨⟨code, behind⟩, hcode, h⟩ := Results.bind_eq_ok.1 h
  obtain ⟨htext, hmoves⟩ := parseHexDigits_sound hcode
  have halone : (isHighSurrogate code = true ∨ isLowSurrogate code = true) →
      (isHighSurrogate code = true → ∀ next low rest', source.drop behind = unicodeEscape next →
        Hex next low rest' → isLowSurrogate low = false) →
      validChar (internalCharFromCodepoint code) behind = .ok (ch, next) →
      CharText (unicodeEscape (source.drop pos)) ch (source.drop next) ∧ Moves source pos next := by
    intro hsurrogate hnext h
    obtain ⟨hch, rfl⟩ := validChar_eq_ok h
    rw [internalChar_of_surrogate hsurrogate] at hch
    rw [charFromU32_eq_some hch]
    exact ⟨.lone htext hsurrogate hnext, hmoves⟩
  dsimp only at h
  split at h
  · next hhigh =>
    split at h
    · next hescape =>
      obtain ⟨⟨low, last⟩, hlow, h⟩ := Results.bind_eq_ok.1 h
      obtain ⟨hlowText, hlowMoves⟩ := parseHexDigits_sound hlow
      have hbehind : source.drop behind = unicodeEscape (source.drop (behind + 2)) := by
        rw [drop_of_peek hescape.1, drop_of_peek hescape.2]
        rfl
      have htwo : Moves source behind (behind + 2) :=
        (Moves.succ hescape.1).trans (Moves.succ hescape.2)
      dsimp only at h
      split at h
      · next hisLow =>
        obtain ⟨hch, rfl⟩ := validChar_eq_ok h
        rw [charFromU32_eq_some hch, surrogatePairScalar_eq hisLow]
        refine ⟨.pair ?_ hhigh hlowText hisLow, hmoves.trans (htwo.trans hlowMoves)⟩
        rw [← hbehind]
        exact htext
      · next hisLow =>
        refine halone (.inl hhigh) ?_ h
        intro _ next' low' rest' hnext hlow'
        rw [hbehind] at hnext
        rw [← (List.cons.inj (List.cons.inj hnext).2).2] at hlow'
        rw [← (HexDigits.unique hlowText hlow').1]
        exact Bool.eq_false_iff.2 hisLow
    · next hescape =>
      refine halone (.inl hhigh) ?_ h
      intro _ next' low' rest' hnext _
      obtain ⟨hfirst, hnext⟩ := peek_of_drop hnext
      exact absurd ⟨hfirst, (peek_of_drop hnext).1⟩ hescape
  · next hhigh =>
    split at h
    · next hlow => exact halone (.inr hlow) (fun hhigh' => absurd hhigh' hhigh) h
    · next hlow =>
      obtain ⟨hch, rfl⟩ := validChar_eq_ok h
      rw [charFromU32_eq_some hch]
      exact ⟨.unicode htext (Bool.eq_false_iff.2 hhigh) (Bool.eq_false_iff.2 hlow), hmoves⟩

lemma parseEscape_sound {ch : Char} (h : parseEscape source pos = .ok (ch, next)) :
    CharText (ascii '\\' :: source.drop pos) ch (source.drop next) ∧ Moves source pos next := by
  rw [parseEscape] at h
  split at h
  · cases h
  · next letter hpeek =>
    rw [drop_of_peek hpeek]
    split at h
    · next ch' hescape =>
      cases h
      exact ⟨.escape hescape, .succ hpeek⟩
    · split at h
      · next hletter =>
        obtain ⟨htext, hmoves⟩ := parseUnicodeEscape_sound h
        rw [hletter]
        exact ⟨htext, (Moves.succ hpeek).trans hmoves⟩
      · cases h

lemma parseContinuation_sound {count : ℕ} {bytes : List UInt8}
    (h : parseContinuation source count pos = .ok (bytes, next)) :
    source.drop pos = bytes ++ source.drop next ∧ bytes.length = count ∧ Moves source pos next := by
  induction count generalizing pos bytes with
  | zero =>
    cases h
    exact ⟨rfl, rfl, .refl _⟩
  | succ count ih =>
    rw [parseContinuation] at h
    split at h
    · cases h
    · next byte hpeek =>
      split at h
      · obtain ⟨⟨others, last⟩, hothers, h⟩ := Results.bind_eq_ok.1 h
        cases h
        obtain ⟨hdrop, hlength, hmoves⟩ := ih hothers
        rw [drop_of_peek hpeek, hdrop, List.length_cons, hlength]
        exact ⟨rfl, rfl, (Moves.succ hpeek).trans hmoves⟩
      · cases h

lemma utf8Width_eq_some {first : UInt8} {width : ℕ} :
    utf8Width first = some width ↔ ∃ count, Utf8.Leads first count ∧ width = count + 1 := by
  constructor
  · intro h
    rw [utf8Width] at h
    split at h
    · next hfirst => exact ⟨1, .two hfirst, (Option.some.inj h).symm⟩
    · split at h
      · next hfirst => exact ⟨2, .three hfirst, (Option.some.inj h).symm⟩
      · split at h
        · next hfirst => exact ⟨3, .four hfirst, (Option.some.inj h).symm⟩
        · cases h
  · rintro ⟨count, hleads, rfl⟩
    obtain ⟨htwo, htwoFour, hthree⟩ := Utf8.shiftRight_unique first
    cases hleads with
    | two h => rw [utf8Width, if_pos h]
    | three h => rw [utf8Width, if_neg fun h' => htwo ⟨h', h⟩, if_pos h]
    | four h =>
      rw [utf8Width, if_neg fun h' => htwoFour ⟨h', h⟩, if_neg fun h' => hthree ⟨h', h⟩, if_pos h]

/-- A character of which the first byte counts the bytes. -/
lemma pushUtf8Char_sound {first : UInt8} {ch : Char}
    (h : pushUtf8Char source first pos = .ok (ch, next)) :
    first :: source.drop pos = String.utf8EncodeChar ch ++ source.drop next ∧
      0x80 ≤ ch.toNat ∧ Moves source pos next := by
  rw [pushUtf8Char] at h
  split at h
  · cases h
  · next width hwidth =>
    obtain ⟨count, hleads, rfl⟩ := utf8Width_eq_some.1 hwidth
    obtain ⟨⟨bytes, last⟩, hbytes, h⟩ := Results.bind_eq_ok.1 h
    obtain ⟨hdrop, hlength, hmoves⟩ := parseContinuation_sound hbytes
    dsimp only at h
    split at h
    · next found hfound =>
      cases h
      obtain ⟨text, htext, hhead⟩ := Option.bind_eq_some_iff.1 hfound
      have hencode := Utf8.encode_of_fromUTF8 htext
      cases hchars : text.toList with
      | nil => rw [hchars] at hhead; cases hhead
      | cons ch' chars =>
        rw [hchars] at hhead hencode
        rw [Option.some.inj hhead, Utf8.encode, List.flatMap_cons] at hencode
        have hlarge : 0x80 ≤ ch.toNat := by
          by_contra hsmall
          rw [Utf8.utf8EncodeChar_ascii (not_le.1 hsmall)] at hencode
          have hle := hleads.le
          rw [(List.cons.inj hencode).1] at hle
          have hle := UInt8.le_iff_toNat_le.1 hle
          rw [UInt8.toNat_ofNat', Nat.mod_eq_of_lt (by omega)] at hle
          exact hsmall hle
        obtain ⟨lead, rest, hch, hlead, -⟩ := Utf8.utf8EncodeChar_leads hlarge
        rw [hch] at hencode ⊢
        rw [List.cons_append] at hencode
        obtain ⟨hfirst, hbytesEq⟩ := List.cons.inj hencode
        -- the first byte counts the bytes that were read, so no other character follows
        rw [← hfirst] at hlead ⊢
        have hcount : rest.length = count := hlead.unique hleads
        have hrest : bytes = rest := by
          have hlengths := congrArg List.length hbytesEq
          rw [List.length_append, hlength, hcount] at hlengths
          rw [hbytesEq, List.eq_nil_of_length_eq_zero
            (l := List.flatMap String.utf8EncodeChar chars) (by omega), List.append_nil]
        refine ⟨?_, hlarge, hmoves⟩
        rw [hdrop, hrest, List.cons_append]
    · cases h

lemma ascii_char_of_lt {byte : UInt8} (h : byte < 0x80) :
    (Char.ofNat byte.toNat).toNat = byte.toNat ∧
      String.utf8EncodeChar (Char.ofNat byte.toNat) = [byte] := by
  have hlt : byte.toNat < 0x80 := UInt8.lt_iff_toNat_lt.1 h
  have htoNat : (Char.ofNat byte.toNat).toNat = byte.toNat := by
    rw [Char.ofNat, dif_pos (show byte.toNat.isValidChar from .inl (by omega))]
    rfl
  refine ⟨htoNat, ?_⟩
  rw [Utf8.utf8EncodeChar_ascii (by rw [htoNat]; exact hlt), htoNat, UInt8.ofNat_toNat]

lemma parseStringFrom_sound {start fuel : ℕ} {out text : String}
    (h : parseStringFrom source start fuel out pos = .ok (text, next)) :
    ∃ chars, text = out ++ String.ofList chars ∧
      StringText (source.drop pos) chars (source.drop next) ∧ Moves source pos next := by
  induction fuel generalizing out pos with
  | zero => cases h
  | succ fuel ih =>
    -- a character, and then the other rounds
    have hround : ∀ {ch : Char} {last : ℕ}, CharText (source.drop pos) ch (source.drop last) →
        Moves source pos last → parseStringFrom source start fuel (out.push ch) last =
          .ok (text, next) →
        ∃ chars, text = out ++ String.ofList chars ∧
          StringText (source.drop pos) chars (source.drop next) ∧ Moves source pos next := by
      intro ch last hch hmoves h
      obtain ⟨chars, rfl, htext, hmoves'⟩ := ih h
      refine ⟨ch :: chars, ?_, .char hch htext, hmoves.trans hmoves'⟩
      apply String.toList_inj.1
      simp
    rw [parseStringFrom] at h
    split at h
    · cases h
    · next byte hpeek =>
      have hdrop := drop_of_peek hpeek
      have hsucc := Moves.succ hpeek
      split at h
      · next hquote =>
        cases h
        refine ⟨[], ?_, ?_, hsucc⟩
        · simp
        · rw [hdrop, hquote]
          exact .quote
      · next hquote =>
        split at h
        · next hbackslash =>
          obtain ⟨⟨ch, last⟩, hch, h⟩ := Results.bind_eq_ok.1 h
          obtain ⟨htext, hmoves⟩ := parseEscape_sound hch
          refine hround ?_ (hsucc.trans hmoves) h
          rw [hdrop, hbackslash]
          exact htext
        · next hbackslash =>
          split at h
          · cases h
          · next hcontrol =>
            split at h
            · next hascii =>
              obtain ⟨htoNat, hencode⟩ := ascii_char_of_lt hascii
              refine hround ?_ hsucc h
              rw [hdrop, ← List.singleton_append, ← hencode]
              refine .unescaped ?_ ?_ ?_
              · rw [htoNat]
                exact UInt8.le_iff_toNat_le.1 (UInt8.not_lt.1 hcontrol)
              · intro hch
                rw [hch] at hencode
                exact hquote (List.singleton_inj.1 hencode).symm
              · intro hch
                rw [hch] at hencode
                exact hbackslash (List.singleton_inj.1 hencode).symm
            · obtain ⟨⟨ch, last⟩, hch, h⟩ := Results.bind_eq_ok.1 h
              obtain ⟨htext, hlarge, hmoves⟩ := pushUtf8Char_sound hch
              refine hround ?_ (hsucc.trans hmoves) h
              rw [hdrop, htext]
              refine .unescaped (by omega) ?_ ?_
              · rintro rfl
                exact absurd hlarge (by decide)
              · rintro rfl
                exact absurd hlarge (by decide)

lemma parseString_sound {text : String} (h : parseString source pos = .ok (text, next)) :
    ∃ chars, text = String.ofList chars ∧ peek source pos = some (ascii '"') ∧
      StringText (source.drop (pos + 1)) chars (source.drop next) ∧ Moves source pos next := by
  rw [parseString] at h
  obtain ⟨behind, hquote, h⟩ := Results.bind_eq_ok.1 h
  obtain ⟨hpeek, rfl⟩ := expect_eq_ok hquote
  obtain ⟨chars, htext, hstring, hmoves⟩ := parseStringFrom_sound h
  refine ⟨chars, ?_, hpeek, hstring, (Moves.succ hpeek).trans hmoves⟩
  rw [htext, String.empty_append]

/-! ## Numbers -/

/-- The text stands between the positions. -/
structure Takes (source : List UInt8) (pos : ℕ) (text : List UInt8) (next : ℕ) : Prop where
  drop_eq : source.drop pos = text ++ source.drop next
  next_eq : next = pos + text.length

lemma Takes.nil : Takes source pos [] pos := ⟨rfl, rfl⟩

lemma Takes.singleton {byte : UInt8} (h : peek source pos = some byte) :
    Takes source pos [byte] (pos + 1) := ⟨drop_of_peek h, rfl⟩

lemma Takes.append {first second : List UInt8} (h : Takes source pos first next)
    (h' : Takes source next second last) : Takes source pos (first ++ second) last := by
  refine ⟨?_, ?_⟩
  · rw [h.drop_eq, h'.drop_eq, List.append_assoc]
  · rw [h'.next_eq, h.next_eq, List.length_append, Nat.add_assoc]

lemma Takes.moves {text : List UInt8} (h : Takes source pos text next) : Moves source pos next := by
  rw [h.next_eq]
  refine moves_add ?_
  rw [h.drop_eq, List.length_append]
  exact Nat.le_add_right _ _

lemma Takes.take_eq {text : List UInt8} (h : Takes source pos text next) :
    (source.drop pos).take (next - pos) = text := by
  rw [h.next_eq, Nat.add_sub_cancel_left, h.drop_eq, List.take_left]

lemma takes_skipDigits :
    Takes source pos ((source.drop pos).takeWhile isDigit) (skipDigits source pos) := by
  refine ⟨?_, rfl⟩
  rw [skipDigits, drop_skip, List.takeWhile_append_dropWhile]

lemma peekDigit_iff : peekDigit source pos = true ↔
    ∃ byte, peek source pos = some byte ∧ isDigit byte = true := by
  rw [peekDigit, Option.any_eq_true]

/-- The digits behind a first one. -/
lemma takes_digits {byte : UInt8} (h : peek source pos = some byte) (hdigit : isDigit byte = true) :
    Takes source pos (byte :: (source.drop (pos + 1)).takeWhile isDigit)
        (skipDigits source (pos + 1)) ∧
      Digits (byte :: (source.drop (pos + 1)).takeWhile isDigit) := by
  refine ⟨(Takes.singleton h).append takes_skipDigits, List.cons_ne_nil _ _, ?_⟩
  intro digit hmem
  rcases List.mem_cons.1 hmem with rfl | hmem
  · exact hdigit
  · exact List.mem_takeWhile_imp hmem

lemma skipDigits_of_peek {byte : UInt8} (h : peek source pos = some byte)
    (hdigit : isDigit byte = true) : skipDigits source pos = skipDigits source (pos + 1) := by
  rw [skipDigits, drop_of_peek h, List.takeWhile_cons_of_pos hdigit, List.length_cons, skipDigits]
  omega

lemma parseMinus_sound : ∃ minus, (minus = [] ∨ minus = [ascii '-']) ∧
    Takes source pos minus (parseMinus source pos) := by
  rw [parseMinus]
  split
  · next hpeek => exact ⟨_, .inr rfl, .singleton hpeek⟩
  · exact ⟨[], .inl rfl, .nil⟩

lemma parseIntPart_sound (h : parseIntPart source pos = .ok next) :
    ∃ digits, IntText digits ∧ Takes source pos digits next := by
  rw [parseIntPart] at h
  split at h
  · next hpeek =>
    split at h
    · cases h
    · cases h
      refine ⟨[ascii '0'], ⟨⟨List.cons_ne_nil _ _, ?_⟩, .inl rfl⟩, .singleton hpeek⟩
      intro byte hbyte
      rw [List.mem_singleton.1 hbyte]
      decide
  · next hzero =>
    split at h
    · next hdigit =>
      cases h
      obtain ⟨byte, hpeek, hdigit⟩ := peekDigit_iff.1 hdigit
      obtain ⟨htakes, hdigits⟩ := takes_digits hpeek hdigit
      refine ⟨_, ⟨hdigits, .inr ?_⟩, htakes⟩
      rintro hhead
      exact hzero (hpeek.trans hhead)
    · cases h

lemma parseDigits_sound (h : parseDigits source pos = .ok next) :
    ∃ digits, Digits digits ∧ Takes source pos digits next := by
  rw [parseDigits] at h
  split at h
  · next hdigit =>
    cases h
    obtain ⟨byte, hpeek, hdigit⟩ := peekDigit_iff.1 hdigit
    obtain ⟨htakes, hdigits⟩ := takes_digits hpeek hdigit
    rw [skipDigits_of_peek hpeek hdigit]
    exact ⟨_, hdigits, htakes⟩
  · cases h

lemma parseFraction_sound (h : parseFraction source pos = .ok next) :
    ∃ fraction, (fraction = [] ∨ FractionText fraction) ∧ Takes source pos fraction next := by
  rw [parseFraction] at h
  split at h
  · next hpeek =>
    obtain ⟨digits, hdigits, htakes⟩ := parseDigits_sound h
    exact ⟨_, .inr ⟨digits, hdigits, rfl⟩, (Takes.singleton hpeek).append htakes⟩
  · cases h
    exact ⟨[], .inl rfl, .nil⟩

lemma parseExponent_sound (h : parseExponent source pos = .ok next) :
    ∃ exponent, (exponent = [] ∨ ExponentText exponent) ∧ Takes source pos exponent next := by
  rw [parseExponent] at h
  split at h
  · next hletter =>
    obtain ⟨letter, hpeek, hisLetter⟩ : ∃ letter, peek source pos = some letter ∧
        (letter = ascii 'e' ∨ letter = ascii 'E') := by
      rcases hletter with hpeek | hpeek
      · exact ⟨_, hpeek, .inl rfl⟩
      · exact ⟨_, hpeek, .inr rfl⟩
    obtain ⟨digits, hdigits, htakes⟩ := parseDigits_sound h
    obtain ⟨sign, hsign, htakesSign⟩ : ∃ sign,
        (sign = [] ∨ sign = [ascii '+'] ∨ sign = [ascii '-']) ∧
          Takes source (pos + 1) sign (if peek source (pos + 1) = some (ascii '+') ∨
            peek source (pos + 1) = some (ascii '-') then pos + 2 else pos + 1) := by
      split
      · next hsign =>
        rcases hsign with hpeek | hpeek
        · exact ⟨_, .inr (.inl rfl), .singleton hpeek⟩
        · exact ⟨_, .inr (.inr rfl), .singleton hpeek⟩
      · exact ⟨[], .inl rfl, .nil⟩
    refine ⟨_, .inr ⟨letter, sign, digits, hisLetter, hsign, hdigits, rfl⟩, ?_⟩
    exact (Takes.singleton hpeek).append (htakesSign.append htakes)
  · cases h
    exact ⟨[], .inl rfl, .nil⟩

section

variable {parseF64 : List UInt8 → Option Binary64} {floatValue : List UInt8 → Binary64} {limit : ℤ}

/-- A fraction or an exponent has a mark that an integer has not. -/
lemma mark_iff {minus digits fraction exponent : List UInt8}
    (hminus : minus = [] ∨ minus = [ascii '-']) (hdigits : Digits digits)
    (hfraction : fraction = [] ∨ FractionText fraction)
    (hexponent : exponent = [] ∨ ExponentText exponent) :
    (ascii '.' ∈ minus ++ digits ++ fraction ++ exponent ∨
        ascii 'e' ∈ minus ++ digits ++ fraction ++ exponent ∨
        ascii 'E' ∈ minus ++ digits ++ fraction ++ exponent) ↔ fraction ++ exponent ≠ [] := by
  constructor
  · intro hmark hnil
    rw [List.append_assoc, hnil, List.append_nil] at hmark
    have hplain : ∀ byte ∈ minus ++ digits, byte = ascii '-' ∨ isDigit byte = true := by
      intro byte hbyte
      rcases List.mem_append.1 hbyte with hbyte | hbyte
      · rcases hminus with rfl | rfl
        · cases hbyte
        · exact .inl (List.mem_singleton.1 hbyte)
      · exact .inr (hdigits.2 byte hbyte)
    rcases hmark with hmark | hmark | hmark
    · exact absurd (hplain _ hmark) (by decide)
    · exact absurd (hplain _ hmark) (by decide)
    · exact absurd (hplain _ hmark) (by decide)
  · intro hne
    rcases hfraction with rfl | ⟨fractionDigits, -, rfl⟩
    · rcases hexponent with rfl | ⟨letter, sign, exponentDigits, hletter, -, -, rfl⟩
      · exact absurd rfl hne
      · rcases hletter with rfl | rfl
        · exact .inr (.inl (by simp))
        · exact .inr (.inr (by simp))
    · exact .inl (by simp)

lemma numberNode_float {text : List UInt8}
    (hmark : ascii '.' ∈ text ∨ ascii 'e' ∈ text ∨ ascii 'E' ∈ text) :
    numberNode parseF64 limit text pos = match parseF64 text with
      | some value => .ok (.float value, pos)
      | none => jsonError "invalid JSON number" pos := by
  exact if_pos hmark

lemma numberNode_integer {minus digits : List UInt8} (hminus : minus = [] ∨ minus = [ascii '-'])
    (hdigits : Digits digits) :
    numberNode parseF64 limit (minus ++ digits) pos =
      match parseI64 (integerValue minus digits) with
      | some value => .ok (.int value, pos)
      | none =>
        if jsonValidateIntDigitsLimit limit digits then
          .ok (.bigInt (integerValue minus digits), pos)
        else jsonError (limitMessage limit digits) pos := by
  have hmark := (@mark_iff minus digits [] [] hminus hdigits (.inl rfl) (.inl rfl)).not
  rw [List.append_nil, List.append_nil, not_not] at hmark
  rw [numberNode, if_neg (hmark.2 rfl)]
  rcases hminus with rfl | rfl
  · have hhead : ¬digits.head? = some (ascii '-') := by
      intro hhead
      have hmem := hdigits.2 _ (List.mem_of_mem_head? (Option.mem_def.2 hhead))
      exact absurd hmem (by decide)
    cases hvalue : parseI64 (digitsValue digits) with
    | none => simp only [List.nil_append, hhead, integerValue, if_false, if_true, hvalue]
    | some value => simp only [List.nil_append, hhead, integerValue, if_false, if_true, hvalue]
  · cases hvalue : parseI64 (-digitsValue digits) with
    | none =>
      simp only [List.cons_append, List.nil_append, List.head?_cons, List.tail_cons, if_true,
        integerValue, List.cons_ne_nil, if_false, hvalue]
    | some value =>
      simp only [List.cons_append, List.nil_append, List.head?_cons, List.tail_cons, if_true,
        integerValue, List.cons_ne_nil, if_false, hvalue]

lemma numberNode_sound (hparse : ParsesFloats floatValue parseF64)
    {minus digits fraction exponent : List UInt8} {node : JsonNode}
    (hminus : minus = [] ∨ minus = [ascii '-']) (hdigits : IntText digits)
    (hfraction : fraction = [] ∨ FractionText fraction)
    (hexponent : exponent = [] ∨ ExponentText exponent)
    (h : numberNode parseF64 limit (minus ++ digits ++ fraction ++ exponent) pos =
      .ok (node, next)) :
    NumberText floatValue limit (minus ++ digits ++ fraction ++ exponent) node ∧ next = pos := by
  by_cases hne : fraction ++ exponent = []
  · rw [List.append_assoc, hne, List.append_nil, numberNode_integer hminus hdigits.1] at h
    rw [List.append_assoc, hne, List.append_nil]
    split at h
    · next value hvalue =>
      cases h
      refine ⟨?_, rfl⟩
      rw [show JsonNode.int value = integerNode (integerValue minus digits) by
        rw [integerNode, hvalue]]
      exact .integer hminus hdigits (.inl (by rw [hvalue]; rfl))
    · next hvalue =>
      split at h
      · next hlimit =>
        cases h
        refine ⟨?_, rfl⟩
        rw [show JsonNode.bigInt (integerValue minus digits) =
          integerNode (integerValue minus digits) by rw [integerNode, hvalue]]
        exact .integer hminus hdigits (.inr hlimit)
      · cases h
  · rw [numberNode_float ((mark_iff hminus hdigits.1 hfraction hexponent).2 hne)] at h
    split at h
    · next value hvalue =>
      cases h
      have hfloat : FloatText (minus ++ digits ++ fraction ++ exponent) :=
        ⟨minus, digits, fraction, exponent, hminus, hdigits, hfraction, hexponent, hne, rfl⟩
      obtain rfl := Option.some.inj (hvalue.symm.trans (hparse _ hfloat))
      exact ⟨.float hfloat, rfl⟩
    · cases h

lemma parseNumber_sound (hparse : ParsesFloats floatValue parseF64) {node : JsonNode}
    (h : parseNumber source parseF64 limit pos = .ok (node, next)) :
    ∃ text, NumberText floatValue limit text node ∧ Takes source pos text next := by
  rw [parseNumber] at h
  obtain ⟨first, hint, h⟩ := Results.bind_eq_ok.1 h
  obtain ⟨second, hfrac, h⟩ := Results.bind_eq_ok.1 h
  obtain ⟨third, hexp, h⟩ := Results.bind_eq_ok.1 h
  obtain ⟨minus, hminus, htakesMinus⟩ := @parseMinus_sound source pos
  obtain ⟨digits, hdigits, htakesInt⟩ := parseIntPart_sound hint
  obtain ⟨fraction, hfraction, htakesFrac⟩ := parseFraction_sound hfrac
  obtain ⟨exponent, hexponent, htakesExp⟩ := parseExponent_sound hexp
  have htakes := ((htakesMinus.append htakesInt).append htakesFrac).append htakesExp
  rw [htakes.take_eq] at h
  obtain ⟨htext, rfl⟩ := numberNode_sound hparse hminus hdigits hfraction hexponent h
  exact ⟨_, htext, htakes⟩

end

/-! ## Values -/

lemma ws_trans {text middle rest : List UInt8} (h : Ws text middle) (h' : Ws middle rest) :
    Ws text rest := by
  obtain ⟨first, hfirst, rfl⟩ := h
  obtain ⟨second, hsecond, rfl⟩ := h'
  refine ⟨first ++ second, ?_, (List.append_assoc _ _ _).symm⟩
  intro byte hbyte
  rcases List.mem_append.1 hbyte with hbyte | hbyte
  · exact hfirst byte hbyte
  · exact hsecond byte hbyte

/-- White space and then the byte at the position behind it. -/
lemma ws_skipWs_cons {byte : UInt8} (h : peek source (skipWs source pos) = some byte) :
    Ws (source.drop pos) (byte :: source.drop (skipWs source pos + 1)) := by
  rw [← drop_of_peek h]
  exact ws_skipWs

section

variable {parseF64 : List UInt8 → Option Binary64} {floatValue : List UInt8 → Binary64} {limit : ℤ}
  {value : ℕ → Except JsonFault (JsonNode × ℕ)}

/-- What a parser of values accepts is white space and a value. -/
def AcceptsValues (floatValue : List UInt8 → Binary64) (limit : ℤ) (source : List UInt8)
    (value : ℕ → Except JsonFault (JsonNode × ℕ)) : Prop :=
  ∀ {pos next : ℕ} {node : JsonNode}, value pos = .ok (node, next) →
    ∃ first, Ws (source.drop pos) first ∧
      ValueText floatValue limit first node (source.drop next) ∧ Moves source pos next

/-- The round that the loops of arrays and of objects share: an item, and the comma or the closing
bracket behind it. -/
def separatedRound {α : Type} (source : List UInt8) (close : UInt8) (illegal missing : String)
    (item : ℕ → Except JsonFault (α × ℕ))
    (loop : Option ℕ → List α → ℕ → Except JsonFault (List α × ℕ)) (trailing : Option ℕ)
    (values : List α) (pos : ℕ) : Except JsonFault (List α × ℕ) :=
  match if peek source pos = some close then trailing else none with
  | some comma => jsonError illegal comma
  | none => do
    let (value, pos) ← item pos
    let pos := skipWs source pos
    match peek source pos with
    | none => jsonError "Expecting ',' delimiter" pos
    | some byte =>
      if byte = ascii ',' then
        let next := skipWs source (pos + 1)
        if peek source next = none then jsonError missing next
        else loop (some pos) (values ++ [value]) next
      else if byte = close then .ok (values ++ [value], pos + 1)
      else jsonError "Expecting ',' delimiter" pos

lemma parseElements_succ (value : ℕ → Except JsonFault (JsonNode × ℕ)) (fuel : ℕ)
    (trailing : Option ℕ) (values : List JsonNode) :
    parseElements source value (fuel + 1) trailing values pos =
      separatedRound source (ascii ']') "Illegal trailing comma before end of array"
        "Expecting value" value (parseElements source value fuel) trailing values pos := rfl

lemma parseMembers_succ (value : ℕ → Except JsonFault (JsonNode × ℕ)) (fuel : ℕ)
    (trailing : Option ℕ) (values : List (String × JsonNode)) :
    parseMembers source value (fuel + 1) trailing values pos =
      separatedRound source (ascii '}') "Illegal trailing comma before end of object"
        "Expecting property name enclosed in double quotes" (parseMember source value)
        (parseMembers source value fuel) trailing values pos := rfl

section

variable {α : Type} {close : UInt8} {illegal missing : String}
  {item : ℕ → Except JsonFault (α × ℕ)}
  {loop : Option ℕ → List α → ℕ → Except JsonFault (List α × ℕ)} {trailing : Option ℕ}
  {values : List α}

/-- A round that succeeds has read an item, and the rest behind a comma or the close. -/
lemma separatedRound_eq_ok {all : List α}
    (h : separatedRound source close illegal missing item loop trailing values pos =
      .ok (all, next)) :
    ∃ value behind, item pos = .ok (value, behind) ∧
      (peek source (skipWs source behind) = some (ascii ',') ∧
          loop (some (skipWs source behind)) (values ++ [value])
            (skipWs source (skipWs source behind + 1)) = .ok (all, next) ∨
        peek source (skipWs source behind) = some close ∧ all = values ++ [value] ∧
          next = skipWs source behind + 1) := by
  rw [separatedRound] at h
  split at h
  · cases h
  · obtain ⟨⟨value, behind⟩, hitem, hrest⟩ := Results.bind_eq_ok.1 h
    refine ⟨value, behind, hitem, ?_⟩
    dsimp only at hrest
    split at hrest
    · cases hrest
    · next byte hpeek =>
      split at hrest
      · next hcomma =>
        split at hrest
        · cases hrest
        · exact .inl ⟨hcomma ▸ hpeek, hrest⟩
      · split at hrest
        · next hclose =>
          cases hrest
          exact .inr ⟨hclose ▸ hpeek, rfl, rfl⟩
        · cases hrest

/-- A round whose item can be read goes on at the byte behind it. -/
lemma separatedRound_of_item {value : α} {behind : ℕ} {byte : UInt8}
    (hend : ¬peek source pos = some close) (hitem : item pos = .ok (value, behind))
    (hpeek : peek source (skipWs source behind) = some byte) :
    separatedRound source close illegal missing item loop trailing values pos =
      if byte = ascii ',' then
        let next := skipWs source (skipWs source behind + 1)
        if peek source next = none then jsonError missing next
        else loop (some (skipWs source behind)) (values ++ [value]) next
      else if byte = close then .ok (values ++ [value], skipWs source behind + 1)
      else jsonError "Expecting ',' delimiter" (skipWs source behind) := by
  rw [separatedRound, if_neg hend, hitem]
  dsimp only [Results.ok_bind]
  rw [hpeek]

end

lemma elementsText_ws {text text' rest : List UInt8} {nodes : List JsonNode} (hws : Ws text text')
    (h : ElementsText floatValue limit text' nodes rest) :
      ElementsText floatValue limit text nodes rest := by
  cases h with
  | last hws' hvalue hend => exact .last (ws_trans hws hws') hvalue hend
  | more hws' hvalue hcomma h => exact .more (ws_trans hws hws') hvalue hcomma h

lemma memberText_ws {text text' rest : List UInt8} {member : String × JsonNode}
    (hws : Ws text text')
    (h : MemberText floatValue limit text' member rest) :
      MemberText floatValue limit text member rest := by
  cases h with
  | member hws' hkey hcolon hspace hvalue =>
    exact .member (ws_trans hws hws') hkey hcolon hspace hvalue

lemma membersText_ws {text text' rest : List UInt8} {members : List (String × JsonNode)}
    (hws : Ws text text') (h : MembersText floatValue limit text' members rest) :
    MembersText floatValue limit text members rest := by
  cases h with
  | last hmember hend => exact .last (memberText_ws hws hmember) hend
  | more hmember hcomma h => exact .more (memberText_ws hws hmember) hcomma h

lemma parseElements_sound (hvalue : AcceptsValues floatValue limit source value) {fuel : ℕ}
    {trailing : Option ℕ} {values all : List JsonNode}
    (h : parseElements source value fuel trailing values pos = .ok (all, next)) :
    ∃ nodes, all = values ++ nodes ∧
      ElementsText floatValue limit (source.drop pos) nodes (source.drop next) ∧
        Moves source pos next := by
  induction fuel generalizing trailing values pos with
  | zero => cases h
  | succ fuel ih =>
    rw [parseElements_succ] at h
    obtain ⟨node, behind, hnode, hrest⟩ := separatedRound_eq_ok h
    obtain ⟨first, hws, htext, hmoves⟩ := hvalue hnode
    rcases hrest with ⟨hpeek, h⟩ | ⟨hpeek, rfl, rfl⟩
    · have hmoves := hmoves.trans (moves_skipWs.trans (.succ hpeek))
      obtain ⟨nodes, rfl, helements, hothers⟩ := ih h
      refine ⟨node :: nodes, ?_, ?_, hmoves.trans (moves_skipWs.trans hothers)⟩
      · rw [List.append_assoc, List.singleton_append]
      · exact .more hws htext (ws_skipWs_cons hpeek) (elementsText_ws ws_skipWs helements)
    · exact ⟨[node], rfl, .last hws htext (ws_skipWs_cons hpeek),
        hmoves.trans (moves_skipWs.trans (.succ hpeek))⟩

lemma parseMember_sound (hvalue : AcceptsValues floatValue limit source value)
    {member : String × JsonNode} (h : parseMember source value pos = .ok (member, next)) :
    MemberText floatValue limit (source.drop pos) member (source.drop next) ∧
      Moves source pos next := by
  rw [parseMember] at h
  split at h
  · cases h
  · obtain ⟨⟨key, behind⟩, hkey, h⟩ := Results.bind_eq_ok.1 h
    obtain ⟨chars, rfl, hquote, hstring, hmoves⟩ := parseString_sound hkey
    obtain ⟨colon, hcolon, h⟩ := Results.bind_eq_ok.1 h
    obtain ⟨hpeek, rfl⟩ := expect_eq_ok hcolon
    dsimp only at h
    split at h
    · cases h
    · obtain ⟨⟨node, last⟩, hnode, h⟩ := Results.bind_eq_ok.1 h
      obtain ⟨first, hws, htext, hmoves'⟩ := hvalue hnode
      cases h
      refine ⟨?_, hmoves.trans (moves_skipWs.trans ((Moves.succ hpeek).trans
        (moves_skipWs.trans hmoves')))⟩
      rw [drop_of_peek hquote]
      refine .member ⟨[], ?_, rfl⟩ hstring (ws_skipWs_cons hpeek) (ws_trans ws_skipWs hws) htext
      intro byte hbyte
      cases hbyte

lemma parseMembers_sound (hvalue : AcceptsValues floatValue limit source value) {fuel : ℕ}
    {trailing : Option ℕ} {values all : List (String × JsonNode)}
    (h : parseMembers source value fuel trailing values pos = .ok (all, next)) :
    ∃ members, all = values ++ members ∧
      MembersText floatValue limit (source.drop pos) members (source.drop next) ∧
        Moves source pos next := by
  induction fuel generalizing trailing values pos with
  | zero => cases h
  | succ fuel ih =>
    rw [parseMembers_succ] at h
    obtain ⟨member, behind, hmember, hrest⟩ := separatedRound_eq_ok h
    obtain ⟨htext, hmoves⟩ := parseMember_sound hvalue hmember
    rcases hrest with ⟨hpeek, h⟩ | ⟨hpeek, rfl, rfl⟩
    · have hmoves := hmoves.trans (moves_skipWs.trans (.succ hpeek))
      obtain ⟨members, rfl, hmembers, hothers⟩ := ih h
      refine ⟨member :: members, ?_, ?_, hmoves.trans (moves_skipWs.trans hothers)⟩
      · rw [List.append_assoc, List.singleton_append]
      · exact .more htext (ws_skipWs_cons hpeek) (membersText_ws ws_skipWs hmembers)
    · exact ⟨[member], rfl, .last htext (ws_skipWs_cons hpeek),
        hmoves.trans (moves_skipWs.trans (.succ hpeek))⟩

lemma parseArray_sound (hvalue : AcceptsValues floatValue limit source value) {node : JsonNode}
    (h : parseArray source value pos = .ok (node, next)) :
    ValueText floatValue limit (source.drop pos) node (source.drop next) ∧
      Moves source pos next := by
  rw [parseArray] at h
  obtain ⟨behind, hbracket, h⟩ := Results.bind_eq_ok.1 h
  obtain ⟨hpeek, rfl⟩ := expect_eq_ok hbracket
  rw [drop_of_peek hpeek]
  dsimp only at h
  split at h
  · next hend =>
    cases h
    exact ⟨.emptyArray (ws_skipWs_cons hend),
      (Moves.succ hpeek).trans (moves_skipWs.trans (.succ hend))⟩
  · obtain ⟨⟨values, last⟩, hvalues, h⟩ := Results.bind_eq_ok.1 h
    obtain ⟨nodes, hnodes, helements, hmoves⟩ := parseElements_sound hvalue hvalues
    cases h
    rw [hnodes, List.nil_append]
    exact ⟨.array (elementsText_ws ws_skipWs helements),
      (Moves.succ hpeek).trans (moves_skipWs.trans hmoves)⟩

lemma parseObject_sound (hvalue : AcceptsValues floatValue limit source value) {node : JsonNode}
    (h : parseObject source value pos = .ok (node, next)) :
    ValueText floatValue limit (source.drop pos) node (source.drop next) ∧
      Moves source pos next := by
  rw [parseObject] at h
  obtain ⟨behind, hbrace, h⟩ := Results.bind_eq_ok.1 h
  obtain ⟨hpeek, rfl⟩ := expect_eq_ok hbrace
  rw [drop_of_peek hpeek]
  dsimp only at h
  split at h
  · next hend =>
    cases h
    exact ⟨.emptyObject (ws_skipWs_cons hend),
      (Moves.succ hpeek).trans (moves_skipWs.trans (.succ hend))⟩
  · obtain ⟨⟨values, last⟩, hvalues, h⟩ := Results.bind_eq_ok.1 h
    obtain ⟨members, hmembers, htext, hmoves⟩ := parseMembers_sound hvalue hvalues
    cases h
    rw [hmembers, List.nil_append]
    exact ⟨.object (membersText_ws ws_skipWs htext),
      (Moves.succ hpeek).trans (moves_skipWs.trans hmoves)⟩

lemma parseLiteral_sound {text : List UInt8} {node node' : JsonNode}
    (hliteral : (text, node) ∈ literals)
    (h : parseLiteral source text node pos = .ok (node', next)) :
    ValueText floatValue limit (source.drop pos) node' (source.drop next) ∧
      Moves source pos next := by
  rw [parseLiteral] at h
  split at h
  · next hstarts =>
    cases h
    refine ⟨?_, moves_startsWith hstarts⟩
    rw [startsWith_iff.1 hstarts]
    exact .literal hliteral
  · cases h

/-- What holds of every way to go on at the first byte of a value. -/
lemma parseValue_succ {P : Except JsonFault (JsonNode × ℕ) → Prop} {levels start : ℕ}
    (hstart : skipWs source pos = start)
    (hinfinity : startsWith source (asciiBytes "-Infinity") start →
      P (.ok (.float negInfinity, start + 9)))
    (hnone : P (jsonError "Expecting value" start))
    (hliteral : ∀ {text : List UInt8} {node : JsonNode}, (text, node) ∈ literals →
      P (parseLiteral source text node start))
    (hstring : P (parseString source start >>= fun text => pure (.string text.1, text.2)))
    (harray : P (parseArray source (parseValue source parseF64 limit levels) start))
    (hobject : P (parseObject source (parseValue source parseF64 limit levels) start))
    (hnumber : P (parseNumber source parseF64 limit start)) :
    P (parseValue source parseF64 limit (levels + 1) pos) := by
  rw [parseValue, hstart]
  refine iteInduction hinfinity fun _ => ?_
  cases peek source start with
  | none => exact hnone
  | some byte =>
    refine iteInduction (fun _ => hliteral (by simp [literals])) fun _ => ?_
    refine iteInduction (fun _ => hliteral (by simp [literals])) fun _ => ?_
    refine iteInduction (fun _ => hliteral (by simp [literals])) fun _ => ?_
    refine iteInduction (fun _ => hliteral (by simp [literals])) fun _ => ?_
    refine iteInduction (fun _ => hliteral (by simp [literals])) fun _ => ?_
    refine iteInduction (fun _ => hstring) fun _ => ?_
    refine iteInduction (fun _ => harray) fun _ => ?_
    refine iteInduction (fun _ => hobject) fun _ => ?_
    exact iteInduction (fun _ => hnumber) fun _ => hnone

/-- What a parser of values accepts, at every level. -/
lemma parseValue_sound (hparse : ParsesFloats floatValue parseF64) (levels : ℕ) :
    AcceptsValues floatValue limit source (parseValue source parseF64 limit levels) := by
  induction levels with
  | zero =>
    intro pos next node h
    cases h
  | succ levels ih =>
    intro pos next node h
    suffices ValueText floatValue limit (source.drop (skipWs source pos)) node (source.drop next) ∧
        Moves source (skipWs source pos) next from
      ⟨_, ws_skipWs, this.1, moves_skipWs.trans this.2⟩
    generalize hstart : skipWs source pos = start
    refine parseValue_succ (P := fun result => result = .ok (node, next) →
      ValueText floatValue limit (source.drop start) node (source.drop next) ∧
        Moves source start next) hstart ?_ ?_ ?_ ?_ ?_ ?_ ?_ h
    · intro hstarts h
      cases h
      refine ⟨?_, moves_startsWith hstarts⟩
      rw [startsWith_iff.1 hstarts]
      exact .literal (by simp [literals])
    · intro h
      cases h
    · exact fun hliteral => parseLiteral_sound hliteral
    · intro h
      obtain ⟨⟨text, last⟩, htext, h⟩ := Results.bind_eq_ok.1 h
      obtain ⟨chars, rfl, hquote, hstring, hmoves⟩ := parseString_sound htext
      cases h
      rw [drop_of_peek hquote]
      exact ⟨.string hstring, hmoves⟩
    · exact parseArray_sound ih
    · exact parseObject_sound ih
    · intro h
      obtain ⟨text, hnumber, htakes⟩ := parseNumber_sound hparse h
      rw [htakes.drop_eq]
      exact ⟨.number hnumber, htakes.moves⟩

/-- What the parser accepts is the text of the node, and its position is the end of the source. -/
lemma parse_sound (hparse : ParsesFloats floatValue parseF64) {depthLimit : ℕ} {node : JsonNode}
    (h : parse source parseF64 limit depthLimit = .ok node) :
    TextOf floatValue limit source node := by
  rw [parse] at h
  obtain ⟨⟨value, behind⟩, hvalue, h⟩ := Results.bind_eq_ok.1 h
  obtain ⟨first, hws, htext, -⟩ := parseValue_sound hparse _ hvalue
  dsimp only at h
  split at h
  · cases h
  · next hend =>
    cases h
    refine ⟨first, _, ws_trans ?_ hws, htext, ?_⟩
    · exact @ws_skipWs source 0
    · have hskip := @ws_skipWs source behind
      rw [not_not.1 hend, List.drop_length] at hskip
      exact hskip

end

end JsonParser

end Pyrs
