import Pyrs.Properties.LexerProgress
import Pyrs.Properties.TextCodecs

/-!
# The text of a string literal

A literal without a prefix `r` ends at the first closing delimiter that is not behind a backslash,
and its body is a list of pieces, each with the code points that Python gives it.  The lexer finds
the same end and decodes every piece, but not always to these code points: it keeps the low eight
bits of an octal escape, it does not translate the line breaks, and its characters from `U+10F800`
on stand for surrogates.
-/

namespace Pyrs

namespace Lexing

open TextCodec Lexer
open JsonParser (charFromU32_of_valid)

/-! ## What Python reads -/

def delimiter (triple : Bool) (quote : Char) : List Char :=
  List.replicate (if triple then 3 else 1) quote

/-- The body of a literal, behind its opening delimiter, and what follows the closing one.  A
character behind a backslash closes nothing, and neither does a `\r\n`. -/
def splitBody (triple : Bool) (quote : Char) : List Char → Option (List Char × List Char)
  | [] => none
  | ch :: text =>
    if delimiter triple quote <+: ch :: text then
      some ([], (ch :: text).drop (delimiter triple quote).length)
    else if ch = '\\' then
      match text with
      | [] => none
      | '\r' :: '\n' :: text =>
        (splitBody triple quote text).map fun (body, rest) => ('\\' :: '\r' :: '\n' :: body, rest)
      | escaped :: text =>
        (splitBody triple quote text).map fun (body, rest) => ('\\' :: escaped :: body, rest)
    else if triple = false ∧ (ch = '\n' ∨ ch = '\r') then none
    else (splitBody triple quote text).map fun (body, rest) => (ch :: body, rest)

/-- A piece of the body of a literal. -/
inductive Piece
  | plain (ch : Char)
  | lineBreak (crlf : Bool)
  | continuation
  | coded (codepoint : Fin 0x110000)
  | octal (value : ℕ)
  | unknown (ch : Char)
  deriving DecidableEq

namespace Piece

/-- The code points that Python gives a piece. -/
def codes : Piece → List ℕ
  | plain ch => [ch.toNat]
  | lineBreak _ => ['\n'.toNat]
  | continuation => []
  | coded codepoint => [codepoint]
  | octal value => [value]
  | unknown ch => ['\\'.toNat, ch.toNat]

/-- The characters that the lexer gives a piece. -/
def given : Piece → List Char
  | plain ch => [ch]
  | lineBreak crlf => if crlf then ['\r', '\n'] else ['\r']
  | continuation => []
  | coded codepoint => (internalCharFromCodepoint codepoint).toList
  | octal value => [Char.ofNat (value % 256)]
  | unknown ch => ['\\', ch]

/-- The lexer keeps the code points of a piece. -/
def Kept : Piece → Prop
  | plain ch => ch.toNat < internalSurrogateBase
  | lineBreak _ => False
  | continuation => True
  | coded codepoint => codepoint < internalSurrogateBase
  | octal value => value ≤ 0xFF
  | unknown ch => ch.toNat < internalSurrogateBase

instance : DecidablePred Kept := fun piece => by
  cases piece <;> unfold Kept <;> infer_instance

end Piece

def escapeTable : List (Char × ℕ) :=
  [('\\', 0x5C), ('\'', 0x27), ('"', 0x22), ('a', 0x07), ('b', 0x08), ('f', 0x0C), ('n', 0x0A),
    ('r', 0x0D), ('t', 0x09), ('v', 0x0B)]

def readHex : ℕ → ℕ → List Char → Option (ℕ × List Char)
  | 0, value, text => some (value, text)
  | _ + 1, _, [] => none
  | width + 1, value, ch :: text =>
    (hexValue ch).bind fun digit => readHex width (value * 16 + digit) text

def readOctal : ℕ → ℕ → List Char → ℕ × List Char
  | 0, value, text => (value, text)
  | _ + 1, value, [] => (value, [])
  | width + 1, value, ch :: text =>
    if isOctal ch then readOctal width (value * 8 + (ch.toNat - '0'.toNat)) text
    else (value, ch :: text)

def codedPiece (read : ℕ × List Char) : Option (Piece × List Char) :=
  if h : read.1 < 0x110000 then some (.coded ⟨read.1, h⟩, read.2) else none

def dropLineFeed (text : List Char) : List Char :=
  if text.head? = some '\n' then text.tail else text

/-- The piece of an escape sequence, whose backslash was read. -/
def escapePiece (ch : Char) (text : List Char) : Option (Piece × List Char) :=
  match escapeTable.lookup ch with
  | some value => codedPiece (value, text)
  | none =>
    if ch = 'x' then (readHex 2 0 text).bind codedPiece
    else if isOctal ch then
      let (value, text) := readOctal 3 0 (ch :: text)
      some (.octal value, text)
    else if ch = 'u' then (readHex 4 0 text).bind codedPiece
    else if ch = 'U' then (readHex 8 0 text).bind codedPiece
    else if ch = 'N' then none
    else if ch = '\n' then some (.continuation, text)
    else if ch = '\r' then some (.continuation, dropLineFeed text)
    else some (.unknown ch, text)

/-- The first piece of a body, and what follows it.  There is none at an escape sequence that Python
rejects, and none at a `\N`. -/
def firstPiece : List Char → Option (Piece × List Char)
  | [] => none
  | ch :: text =>
    if ch = '\\' then
      match text with
      | [] => none
      | escaped :: text => escapePiece escaped text
    else if ch = '\r' then some (.lineBreak (text.head? = some '\n'), dropLineFeed text)
    else some (.plain ch, text)

/-- A body is a list of pieces. -/
inductive Spells : List Char → List Piece → Prop
  | nil : Spells [] []
  | cons {body later : List Char} {piece : Piece} {pieces : List Piece}
    (first : firstPiece body = some (piece, later)) (rest : Spells later pieces) :
    Spells body (piece :: pieces)

/-- The lexer reads a literal at the text with these code points, and stops before the rest. -/
def Decodes (tables : UnicodeTables) (lexer : Lexer) (quote : Char) (codes : List ℕ)
    (rest : List Char) : Prop :=
  ∃ content later, Lexer.consumeString tables lexer quote false = .ok (content, later) ∧
    content.map canonicalCodepointForInternalChar = codes ∧ later.rest = rest

/-! ## The code points of a piece -/

lemma canonical_eq_iff {ch : Char} :
    canonicalCodepointForInternalChar ch = ch.toNat ↔ ch.toNat < internalSurrogateBase := by
  have hvalid := @Utf8.toNat_lt_surrogates ch
  rw [canonicalCodepointForInternalChar]
  by_cases h : HoldsSurrogate ch
  · rw [surrogateCodepoint_of_holds h, Option.getD_some]
    rw [HoldsSurrogate, internalSurrogateBase] at h
    rw [internalSurrogateBase]
    omega
  · rw [surrogateCodepoint_of_not h, Option.getD_none]
    simpa [HoldsSurrogate] using h

lemma internalChar_of_lt {code : ℕ} (h : code < 0xD800) :
    internalCharFromCodepoint code = some (Char.ofNat code) := by
  rw [internalCharFromCodepoint, if_neg (by omega), charFromU32_of_valid (.inl h)]

lemma internalChar_codepoint (codepoint : Fin 0x110000) :
    ∃ ch, internalCharFromCodepoint codepoint = some ch ∧
      (canonicalCodepointForInternalChar ch = codepoint ↔ codepoint < internalSurrogateBase) := by
  obtain ⟨code, hcode⟩ := codepoint
  dsimp only
  by_cases hsurrogate : 0xD800 ≤ code ∧ code ≤ 0xDFFF
  · have hvalid : (internalSurrogateBase + (code - 0xD800)).isValidChar :=
      .inr (by rw [internalSurrogateBase]; omega)
    refine ⟨Char.ofNat (internalSurrogateBase + (code - 0xD800)), ?_, ?_⟩
    · rw [internalCharFromCodepoint, if_pos hsurrogate, charFromU32_of_valid hvalid]
    · rw [canonicalCodepointForInternalChar, surrogateCodepointFromInternalChar,
        Utf8.toNat_ofNat hvalid, if_pos (by omega), Option.getD_some, internalSurrogateBase]
      omega
  · have hvalid : code.isValidChar := by
      rw [Nat.isValidChar]
      omega
    refine ⟨Char.ofNat code, ?_, ?_⟩
    · rw [internalCharFromCodepoint, if_neg hsurrogate, charFromU32_of_valid hvalid]
    · have hcanonical := @canonical_eq_iff (Char.ofNat code)
      rwa [Utf8.toNat_ofNat hvalid] at hcanonical

namespace Piece

lemma append_eq_iff (piece : Piece) {codes codes' : List ℕ} :
    piece.given.map canonicalCodepointForInternalChar ++ codes = piece.codes ++ codes' ↔
      piece.Kept ∧ codes = codes' := by
  cases piece with
  | plain ch => simp [given, Piece.codes, Kept, canonical_eq_iff]
  | lineBreak crlf =>
    have hcode : canonicalCodepointForInternalChar '\r' ≠ 10 := by decide
    cases crlf <;> simp [given, Piece.codes, Kept, hcode]
  | continuation => simp [given, Piece.codes, Kept]
  | coded codepoint =>
    obtain ⟨ch, hch, hcode⟩ := internalChar_codepoint codepoint
    simp [given, Piece.codes, Kept, hch, hcode]
  | octal value =>
    have hlow : (Char.ofNat (value % 256)).toNat = value % 256 :=
      Utf8.toNat_ofNat (.inl (by omega))
    have hlt : (Char.ofNat (value % 256)).toNat < internalSurrogateBase := by
      rw [hlow, internalSurrogateBase]
      omega
    simp only [given, Piece.codes, Kept, List.map_cons, List.map_nil, List.singleton_append,
      List.cons.injEq, canonical_eq_iff.2 hlt, hlow]
    exact and_congr_left' (by omega)
  | unknown ch =>
    have hcode : canonicalCodepointForInternalChar '\\' = '\\'.toNat := by decide
    simp [given, Piece.codes, Kept, canonical_eq_iff, hcode]

/-- The lexer keeps the code points of a body if it keeps those of every piece. -/
lemma flatMap_eq_iff (pieces : List Piece) :
    (pieces.flatMap given).map canonicalCodepointForInternalChar = pieces.flatMap Piece.codes ↔
      ∀ piece ∈ pieces, piece.Kept := by
  induction pieces with
  | nil => simp
  | cons piece pieces ih =>
    rw [List.flatMap_cons, List.flatMap_cons, List.map_append, append_eq_iff, ih,
      List.forall_mem_cons]

end Piece

/-! ## The body of a literal -/

section body

variable {triple : Bool} {quote ch : Char} {text body later rest : List Char} {piece : Piece}

lemma delimiter_eq_cons (triple : Bool) (quote : Char) :
    delimiter triple quote = quote :: List.replicate (if triple then 2 else 0) quote := by
  cases triple <;> rfl

/-- How a body goes on: it ends, or a line break or a character behind a backslash is passed over,
or any other character. -/
lemma splitBody_cases (h : splitBody triple quote text = some (body, rest)) :
    (body = [] ∧ text = delimiter triple quote ++ rest) ∨
    (∃ text' body', text = '\\' :: '\r' :: '\n' :: text' ∧ body = '\\' :: '\r' :: '\n' :: body' ∧
      splitBody triple quote text' = some (body', rest)) ∨
    (∃ ch text' body', text = '\\' :: ch :: text' ∧ body = '\\' :: ch :: body' ∧
      splitBody triple quote text' = some (body', rest)) ∨
    (∃ ch text' body', ch ≠ '\\' ∧ text = ch :: text' ∧ body = ch :: body' ∧
      ¬delimiter triple quote <+: text ∧ ¬(triple = false ∧ (ch = '\n' ∨ ch = '\r')) ∧
      splitBody triple quote text' = some (body', rest)) := by
  rw [splitBody.eq_def] at h
  split at h
  case h_1 => cases h
  case h_2 ch text =>
  split_ifs at h with hdelimiter hbackslash hbreak
  · obtain ⟨rfl, rfl⟩ := Prod.mk.inj (Option.some.inj h)
    exact .inl ⟨rfl, List.prefix_iff_eq_append.1 hdelimiter |>.symm⟩
  · subst hbackslash
    split at h
    · cases h
    · obtain ⟨⟨body', rest'⟩, hsplit, hbody⟩ := Option.map_eq_some_iff.1 h
      obtain ⟨rfl, rfl⟩ := Prod.mk.inj hbody
      exact .inr (.inl ⟨_, body', rfl, rfl, hsplit⟩)
    · obtain ⟨⟨body', rest'⟩, hsplit, hbody⟩ := Option.map_eq_some_iff.1 h
      obtain ⟨rfl, rfl⟩ := Prod.mk.inj hbody
      exact .inr (.inr (.inl ⟨_, _, body', rfl, rfl, hsplit⟩))
  · obtain ⟨⟨body', rest'⟩, hsplit, hbody⟩ := Option.map_eq_some_iff.1 h
    obtain ⟨rfl, rfl⟩ := Prod.mk.inj hbody
    exact .inr (.inr (.inr ⟨ch, text, body', hbackslash, rfl, rfl, hdelimiter, hbreak, hsplit⟩))

lemma splitBody_head (h : splitBody triple quote text = some (body, rest)) :
    text.head? = body.head? ∨ body = [] ∧ text.head? = some quote := by
  obtain ⟨rfl, rfl⟩ | ⟨text, body, rfl, rfl, -⟩ | ⟨ch, text, body, rfl, rfl, -⟩ |
    ⟨ch, text, body, -, rfl, rfl, -⟩ := splitBody_cases h
  · exact .inr ⟨rfl, by rw [delimiter_eq_cons]; rfl⟩
  · exact .inl rfl
  · exact .inl rfl
  · exact .inl rfl

lemma splitBody_cons (hch : ch ≠ '\\')
    (h : splitBody triple quote text = some (ch :: body, rest)) :
    ∃ text', text = ch :: text' ∧ ¬delimiter triple quote <+: text ∧
      ¬(triple = false ∧ (ch = '\n' ∨ ch = '\r')) ∧
      splitBody triple quote text' = some (body, rest) := by
  obtain ⟨hnil, -⟩ | ⟨text, body', -, hbody, -⟩ | ⟨ch', text, body', -, hbody, -⟩ |
    ⟨ch', text', body', -, htext, hbody, hdelimiter, hbreak, hsplit⟩ := splitBody_cases h
  · cases hnil
  · exact absurd (List.cons.inj hbody).1 hch
  · exact absurd (List.cons.inj hbody).1 hch
  · obtain ⟨rfl, rfl⟩ := List.cons.inj hbody
    exact ⟨text', htext, hdelimiter, hbreak, hsplit⟩

variable (hquote : quote = '\'' ∨ quote = '"')

include hquote in
lemma splitBody_dropLineFeed (h : splitBody triple quote text = some (body, rest)) :
    (text.head? = some '\n' ↔ body.head? = some '\n') ∧
      splitBody triple quote (dropLineFeed text) = some (dropLineFeed body, rest) := by
  have hhead : text.head? = some '\n' ↔ body.head? = some '\n' := by
    rcases splitBody_head h with heq | ⟨rfl, heq⟩
    · rw [heq]
    · rw [heq]
      rcases hquote with rfl | rfl <;> decide
  refine ⟨hhead, ?_⟩
  rw [dropLineFeed, dropLineFeed]
  by_cases hfeed : body.head? = some '\n'
  · rw [if_pos (hhead.2 hfeed), if_pos hfeed]
    obtain ⟨body, rfl⟩ := List.head?_eq_some_iff.1 hfeed
    obtain ⟨text, rfl, -, -, hsplit⟩ := splitBody_cons (by decide) h
    exact hsplit
  · rwa [if_neg (mt hhead.1 hfeed), if_neg hfeed]

lemma readHex_split {width value value' : ℕ} (h : splitBody triple quote text = some (body, rest))
    (hread : readHex width value body = some (value', later)) :
    ∃ text', readHex width value text = some (value', text') ∧
      splitBody triple quote text' = some (later, rest) := by
  induction width generalizing text body value with
  | zero =>
    obtain ⟨rfl, rfl⟩ := Prod.mk.inj (Option.some.inj hread)
    exact ⟨text, rfl, h⟩
  | succ width ih =>
    cases body with
    | nil => cases hread
    | cons ch body =>
      obtain ⟨digit, hdigit, hread⟩ := Option.bind_eq_some_iff.1 hread
      have hch : ch ≠ '\\' := by
        rintro rfl
        rw [show hexValue '\\' = none by decide] at hdigit
        cases hdigit
      obtain ⟨text, rfl, -, -, hsplit⟩ := splitBody_cons hch h
      obtain ⟨text', htext, hlater⟩ := ih hsplit hread
      exact ⟨text', Option.bind_eq_some_iff.2 ⟨digit, hdigit, htext⟩, hlater⟩

include hquote in
lemma readOctal_split (width value : ℕ) (h : splitBody triple quote text = some (body, rest)) :
    (readOctal width value text).1 = (readOctal width value body).1 ∧
      splitBody triple quote (readOctal width value text).2 =
        some ((readOctal width value body).2, rest) := by
  induction width generalizing text body value with
  | zero => exact ⟨rfl, h⟩
  | succ width ih =>
    cases text with
    | nil => cases h
    | cons ch text =>
      by_cases hoctal : isOctal ch
      · have hch : ch ≠ '\\' ∧ ch ≠ quote := by
          constructor <;> rintro rfl
          · exact absurd hoctal (by decide)
          · rcases hquote with rfl | rfl <;> exact absurd hoctal (by decide)
        rcases splitBody_head h with hhead | ⟨-, hhead⟩
        · obtain ⟨body, rfl⟩ := List.head?_eq_some_iff.1 hhead.symm
          obtain ⟨text', heq, -, -, hsplit⟩ := splitBody_cons hch.1 h
          obtain rfl := (List.cons.inj heq).2
          simp only [readOctal, if_pos hoctal]
          exact ih _ hsplit
        · exact absurd (Option.some.inj hhead) hch.2
      · rw [readOctal, if_neg hoctal]
        cases body with
        | nil => exact ⟨rfl, h⟩
        | cons ch' body =>
          rcases splitBody_head h with hhead | ⟨hnil, -⟩
          · obtain rfl := Option.some.inj hhead
            rw [readOctal, if_neg hoctal]
            exact ⟨rfl, h⟩
          · cases hnil

lemma codedPiece_split {value : ℕ} {body : List Char}
    (hpiece : codedPiece (value, body) = some (piece, later))
    (h : splitBody triple quote text = some (body, rest)) :
    ∃ text', codedPiece (value, text) = some (piece, text') ∧
      splitBody triple quote text' = some (later, rest) := by
  rw [codedPiece] at hpiece ⊢
  split_ifs at hpiece ⊢ with hvalue
  obtain ⟨rfl, rfl⟩ := Prod.mk.inj (Option.some.inj hpiece)
  exact ⟨text, rfl, h⟩

lemma hexPiece_split {width : ℕ} {body : List Char}
    (hpiece : (readHex width 0 body).bind codedPiece = some (piece, later))
    (h : splitBody triple quote text = some (body, rest)) :
    ∃ text', (readHex width 0 text).bind codedPiece = some (piece, text') ∧
      splitBody triple quote text' = some (later, rest) := by
  obtain ⟨⟨value, behind⟩, hread, hpiece⟩ := Option.bind_eq_some_iff.1 hpiece
  obtain ⟨text', htext, hsplit⟩ := readHex_split h hread
  rw [htext]
  exact codedPiece_split hpiece hsplit

include hquote in
lemma escapePiece_split (hpiece : escapePiece ch body = some (piece, later))
    (h : splitBody triple quote text = some (body, rest)) :
    ∃ text', escapePiece ch text = some (piece, text') ∧
      splitBody triple quote text' = some (later, rest) := by
  rw [escapePiece] at hpiece ⊢
  split at hpiece
  · exact codedPiece_split hpiece h
  split_ifs at hpiece ⊢ with hx hoctal hu hlong hname hfeed hreturn
  · exact hexPiece_split hpiece h
  · have hread := readOctal_split hquote 2 (0 * 8 + (ch.toNat - '0'.toNat)) h
    simp only [readOctal, if_pos hoctal] at hpiece ⊢
    obtain ⟨rfl, rfl⟩ := Prod.mk.inj (Option.some.inj hpiece)
    exact ⟨_, by rw [hread.1], hread.2⟩
  · exact hexPiece_split hpiece h
  · exact hexPiece_split hpiece h
  · obtain ⟨rfl, rfl⟩ := Prod.mk.inj (Option.some.inj hpiece)
    exact ⟨text, rfl, h⟩
  · obtain ⟨rfl, rfl⟩ := Prod.mk.inj (Option.some.inj hpiece)
    exact ⟨_, rfl, (splitBody_dropLineFeed hquote h).2⟩
  · obtain ⟨rfl, rfl⟩ := Prod.mk.inj (Option.some.inj hpiece)
    exact ⟨text, rfl, h⟩

lemma firstPiece_of_ne (hch : ch ≠ '\\') :
    firstPiece (ch :: text) =
      if ch = '\r' then some (.lineBreak (text.head? = some '\n'), dropLineFeed text)
      else some (.plain ch, text) := by
  rw [firstPiece.eq_def]
  exact if_neg hch

/-- What a piece of a body may stand behind: no closing delimiter, and no unescaped line break of a
literal on one line. -/
structure Inside (triple : Bool) (quote : Char) (text : List Char) : Prop where
  delimiter : ¬delimiter triple quote <+: text
  lineBreak : triple = false → ∀ ch ∈ text.head?, ch ≠ '\n' ∧ ch ≠ '\r'

include hquote in
lemma inside_backslash (text : List Char) : Inside triple quote ('\\' :: text) where
  delimiter := by
    rw [delimiter_eq_cons, List.cons_prefix_cons]
    rcases hquote with rfl | rfl <;> simp
  lineBreak _ := by simp

include hquote in
/-- The first piece of a body is the first piece of the text that the body is split from. -/
lemma firstPiece_split (hpiece : firstPiece body = some (piece, later))
    (h : splitBody triple quote text = some (body, rest)) :
    Inside triple quote text ∧ ∃ text', firstPiece text = some (piece, text') ∧
      splitBody triple quote text' = some (later, rest) := by
  obtain ⟨rfl, -⟩ | ⟨text, body, rfl, rfl, hsplit⟩ | ⟨ch, text, body, rfl, rfl, hsplit⟩ |
    ⟨ch, text, body, hch, rfl, rfl, hdelimiter, hbreak, hsplit⟩ := splitBody_cases h
  · cases hpiece
  · have hcontinuation (text : List Char) :
        firstPiece ('\\' :: '\r' :: '\n' :: text) = some (.continuation, text) := rfl
    rw [hcontinuation] at hpiece
    obtain ⟨rfl, rfl⟩ := Prod.mk.inj (Option.some.inj hpiece)
    exact ⟨inside_backslash hquote _, text, hcontinuation text, hsplit⟩
  · exact ⟨inside_backslash hquote _, escapePiece_split hquote hpiece hsplit⟩
  · have hinside : Inside triple quote (ch :: text) :=
      ⟨hdelimiter, fun htriple => by simpa [htriple] using hbreak⟩
    refine ⟨hinside, ?_⟩
    rw [firstPiece_of_ne hch] at hpiece ⊢
    split_ifs at hpiece ⊢ with hreturn
    · obtain ⟨hhead, hdrop⟩ := splitBody_dropLineFeed hquote hsplit
      obtain ⟨rfl, rfl⟩ := Prod.mk.inj (Option.some.inj hpiece)
      exact ⟨_, by simp only [hhead], hdrop⟩
    · obtain ⟨rfl, rfl⟩ := Prod.mk.inj (Option.some.inj hpiece)
      exact ⟨text, rfl, hsplit⟩

end body

/-! ## The turns of the lexer -/

section turns

variable {tables : UnicodeTables} {start lexer : Lexer} {triple : Bool} {quote ch : Char}
variable {content text text' : List Char} {piece : Piece}

lemma rest_advance (h : lexer.rest = ch :: text) : lexer.advance.rest = text := by
  rw [advance, h]

lemma peekChar_of_rest (h : lexer.rest = ch :: text) : lexer.peekChar = some ch := by
  rw [peekChar, h]
  rfl

lemma lookup_escapeTable (ch : Char) :
    escapeTable.lookup ch = (Lexer.simpleEscape ch).map Char.toNat := by
  rw [Lexer.simpleEscape.eq_def]
  split
  case h_11 =>
    rw [Option.map_none, List.lookup_eq_none_iff]
    simp_all [escapeTable]
  all_goals rfl

lemma simpleEscape_lt {escaped : Char} (h : Lexer.simpleEscape ch = some escaped) :
    escaped.toNat < 0xD800 := by
  rw [Lexer.simpleEscape.eq_def] at h
  split at h <;> cases h <;> decide

lemma hexValue_lt {digit : ℕ} (h : hexValue ch = some digit) : digit < 16 := by
  rw [hexValue] at h
  split_ifs at h with hdigit hlower hupper
  all_goals obtain rfl := Option.some.inj h
  · have hle : ch.toNat ≤ '0'.toNat + 9 := hdigit.2
    omega
  · have hle : ch.toNat ≤ 'a'.toNat + 5 := hlower.2
    omega
  · have hle : ch.toNat ≤ 'A'.toNat + 5 := hupper.2
    omega

lemma readHex_lt {width value value' : ℕ} (h : readHex width value text = some (value', text')) :
    value' < (value + 1) * 16 ^ width := by
  induction width generalizing text value with
  | zero =>
    obtain ⟨rfl, -⟩ := Prod.mk.inj (Option.some.inj h)
    omega
  | succ width ih =>
    cases text with
    | nil => cases h
    | cons ch text =>
      obtain ⟨digit, hdigit, h⟩ := Option.bind_eq_some_iff.1 h
      have hlt := hexValue_lt hdigit
      calc value' < (value * 16 + digit + 1) * 16 ^ width := ih h
        _ ≤ ((value + 1) * 16) * 16 ^ width := Nat.mul_le_mul_right _ (by omega)
        _ = (value + 1) * 16 ^ (width + 1) := by rw [Nat.pow_succ', Nat.mul_assoc]

lemma consumeHex_of_read {message : String} {width value value' : ℕ}
    (h : readHex width value lexer.rest = some (value', text')) :
    ∃ later, consumeHex start message width value lexer = .ok (value', later) ∧
      later.rest = text' := by
  induction width generalizing lexer value with
  | zero =>
    obtain ⟨rfl, rfl⟩ := Prod.mk.inj (Option.some.inj h)
    exact ⟨lexer, rfl, rfl⟩
  | succ width ih =>
    cases hrest : lexer.rest with
    | nil =>
      rw [hrest] at h
      cases h
    | cons ch text =>
      rw [hrest] at h
      obtain ⟨digit, hdigit, h⟩ := Option.bind_eq_some_iff.1 h
      rw [← rest_advance hrest] at h
      simp only [consumeHex, peekChar_of_rest hrest, hdigit]
      exact ih h

lemma consumeOctal_eq (width value : ℕ) (lexer : Lexer) :
    (consumeOctal width value lexer).1 = (readOctal width value lexer.rest).1 ∧
      (consumeOctal width value lexer).2.rest = (readOctal width value lexer.rest).2 := by
  induction width generalizing lexer value with
  | zero => exact ⟨rfl, rfl⟩
  | succ width ih =>
    cases hrest : lexer.rest with
    | nil =>
      rw [consumeOctal, peekChar, hrest]
      exact ⟨rfl, hrest⟩
    | cons ch text =>
      simp only [consumeOctal, peekChar_of_rest hrest, readOctal]
      split_ifs
      · have hlater := ih (value * 8 + (ch.toNat - '0'.toNat)) lexer.advance
        rwa [rest_advance hrest] at hlater
      · exact ⟨rfl, hrest⟩

lemma hexPiece_eq {width : ℕ}
    (h : (readHex width 0 text).bind codedPiece = some (piece, text')) :
    ∃ (value : ℕ) (hvalue : value < 0x110000),
      readHex width 0 text = some (value, text') ∧ piece = .coded ⟨value, hvalue⟩ := by
  obtain ⟨⟨value, behind⟩, hread, hpiece⟩ := Option.bind_eq_some_iff.1 h
  rw [codedPiece] at hpiece
  split_ifs at hpiece with hvalue
  obtain ⟨rfl, rfl⟩ := Prod.mk.inj (Option.some.inj hpiece)
  exact ⟨value, hvalue, hread, rfl⟩

lemma rest_advanceLineFeed (h : lexer.rest = text) :
    (lexer.advanceIf (· == '\n')).rest = dropLineFeed text := by
  subst h
  rw [advanceIf, dropLineFeed]
  cases hrest : lexer.rest with
  | nil => simp [peekChar, hrest]
  | cons ch text =>
    by_cases hch : ch = '\n'
    · simp [peekChar, hrest, hch, rest_advance hrest]
    · simp [peekChar, hrest, hch]

/-- The lexer decodes an escape sequence, or gives its backslash and leaves the character behind. -/
lemma consumeEscapedChar_piece (tables : UnicodeTables) (start : Lexer)
    (hrest : lexer.rest = ch :: text) (hpiece : escapePiece ch text = some (piece, text')) :
    (∃ escaped later, consumeEscapedChar tables start lexer = .ok (escaped, later) ∧
      escaped.toList = piece.given ∧ later.rest = text') ∨
    (piece = .unknown ch ∧ text' = text ∧ Lexer.simpleEscape ch = none ∧
      (ch ≠ '\n' ∧ ch ≠ '\r') ∧
        consumeEscapedChar tables start lexer = .ok (some '\\', lexer)) := by
  have hadvance := rest_advance hrest
  rw [escapePiece, lookup_escapeTable] at hpiece
  simp only [consumeEscapedChar, peekChar_of_rest hrest]
  cases hsimple : Lexer.simpleEscape ch with
  | some escaped =>
    have hlt := simpleEscape_lt hsimple
    rw [hsimple] at hpiece
    dsimp only [Option.map_some] at hpiece
    rw [codedPiece, dif_pos (by omega)] at hpiece
    obtain ⟨rfl, rfl⟩ := Prod.mk.inj (Option.some.inj hpiece)
    refine .inl ⟨some escaped, lexer.advance, rfl, ?_, hadvance⟩
    rw [Piece.given, internalChar_of_lt hlt, Char.ofNat_toNat]
  | none =>
    rw [hsimple] at hpiece
    dsimp only [Option.map_none] at hpiece ⊢
    by_cases hx : ch = 'x'
    · rw [if_pos hx] at hpiece ⊢
      obtain ⟨value, hvalue, hread, rfl⟩ := hexPiece_eq hpiece
      rw [← hadvance] at hread
      obtain ⟨later, hconsume, hlater⟩ := consumeHex_of_read hread
      have hlt := readHex_lt hread
      refine .inl ⟨some (Char.ofNat value), later, by rw [hconsume]; rfl, ?_, hlater⟩
      rw [Piece.given, internalChar_of_lt (Nat.lt_trans hlt (by decide))]
    rw [if_neg hx] at hpiece ⊢
    by_cases hoctal : isOctal ch
    · rw [if_pos hoctal] at hpiece ⊢
      obtain ⟨hvalue, hlater⟩ := consumeOctal_eq 3 0 lexer
      rw [hrest] at hvalue hlater
      obtain ⟨rfl, rfl⟩ := Prod.mk.inj (Option.some.inj hpiece)
      exact .inl ⟨_, _, rfl, by rw [Piece.given, hvalue]; rfl, hlater⟩
    rw [if_neg hoctal] at hpiece ⊢
    by_cases hunicode : ch = 'u' ∨ ch = 'U'
    · have hhex : (readHex (if ch = 'u' then 4 else 8) 0 text).bind codedPiece =
          some (piece, text') := by
        rcases hunicode with rfl | rfl <;> simpa using hpiece
      rw [if_pos hunicode]
      obtain ⟨value, hvalue, hread, rfl⟩ := hexPiece_eq hhex
      rw [← hadvance] at hread
      obtain ⟨later, hconsume, hlater⟩ := consumeHex_of_read hread
      obtain ⟨escaped, hescaped, -⟩ := internalChar_codepoint ⟨value, hvalue⟩
      refine .inl ⟨some escaped, later, ?_, by rw [Piece.given, hescaped], hlater⟩
      rw [hconsume, Results.ok_bind]
      dsimp only at hescaped ⊢
      rw [hescaped]
      rfl
    rw [not_or] at hunicode
    rw [if_neg hunicode.1, if_neg hunicode.2] at hpiece
    rw [if_neg (not_or.2 hunicode)]
    by_cases hname : ch = 'N'
    · rw [if_pos hname] at hpiece
      cases hpiece
    rw [if_neg hname] at hpiece ⊢
    by_cases hfeed : ch = '\n'
    · rw [if_pos hfeed] at hpiece ⊢
      obtain ⟨rfl, rfl⟩ := Prod.mk.inj (Option.some.inj hpiece)
      exact .inl ⟨none, lexer.advance, rfl, rfl, hadvance⟩
    rw [if_neg hfeed] at hpiece ⊢
    by_cases hreturn : ch = '\r'
    · rw [if_pos hreturn] at hpiece ⊢
      obtain ⟨rfl, rfl⟩ := Prod.mk.inj (Option.some.inj hpiece)
      exact .inl ⟨none, _, rfl, rfl, rest_advanceLineFeed hadvance⟩
    rw [if_neg hreturn] at hpiece ⊢
    obtain ⟨rfl, rfl⟩ := Prod.mk.inj (Option.some.inj hpiece)
    exact .inr ⟨rfl, rfl, rfl, ⟨hfeed, hreturn⟩, rfl⟩

/-- One more round of the loop over a literal leaves more rounds than there are characters. -/
lemma consumeTurns_more {raw : Bool} {content' : List Char} {later : Lexer}
    (hpeek : lexer.peekChar = some ch)
    (hturn : stringTurn tables start quote raw triple content () lexer ch =
      .ok (.more content' () later)) :
    consumeTurns start (stringTurn tables start quote raw triple) (lexer.rest.length + 1) content ()
        lexer =
      consumeTurns start (stringTurn tables start quote raw triple) (later.rest.length + 1) content'
        () later := by
  have hshorter := (progresses_stringTurn hpeek hturn).shorter
  dsimp only [Turn.last] at hshorter
  rw [consumeTurns, hpeek]
  dsimp only
  rw [hturn, Results.ok_bind]
  exact consumeTurns_fuel (fun _ _ _ _ _ => progresses_stringTurn) hshorter (Nat.lt_succ_self _)

/-- The loop over a literal that has more rounds than there are characters. -/
def stringLoop (tables : UnicodeTables) (start : Lexer) (quote : Char) (triple : Bool)
    (content : List Char) (lexer : Lexer) : Except LexError (List Char × Lexer) :=
  consumeTurns start (stringTurn tables start quote false triple) (lexer.rest.length + 1) content ()
    lexer

lemma stringLoop_more {content' : List Char} {later : Lexer} (hpeek : lexer.peekChar = some ch)
    (hturn : stringTurn tables start quote false triple content () lexer ch =
      .ok (.more content' () later)) :
    stringLoop tables start quote triple content lexer =
      stringLoop tables start quote triple content' later :=
  consumeTurns_more hpeek hturn

lemma atTriple_iff : lexer.atTriple quote = true ↔ delimiter true quote <+: lexer.rest := by
  rw [atTriple, peekChar, peekCharAt, peekCharAt]
  rcases lexer.rest with _ | ⟨first, _ | ⟨second, _ | ⟨third, rest⟩⟩⟩ <;>
    simp [delimiter, List.replicate, @eq_comm _ quote, and_assoc]

lemma consumeClosing_inside (h : Inside triple quote lexer.rest) :
    consumeClosing quote false triple content () lexer = none := by
  have hdelimiter := h.delimiter
  rw [consumeClosing]
  cases triple with
  | true => rw [if_pos rfl, if_neg (mt atTriple_iff.1 hdelimiter)]
  | false =>
    rw [if_neg Bool.false_ne_true, if_neg]
    intro hpeek
    rw [rest_of_peekChar hpeek] at hdelimiter
    exact hdelimiter ⟨_, rfl⟩

lemma stringTurn_plain (tables : UnicodeTables) (start : Lexer) (content : List Char)
    (hrest : lexer.rest = ch :: text) (hinside : Inside triple quote lexer.rest) (hch : ch ≠ '\\') :
    stringTurn tables start quote false triple content () lexer ch =
      .ok (.more (content ++ [ch]) () lexer.advance) := by
  have hbreak : ¬(ch = '\n' ∧ triple = false) := by
    rintro ⟨rfl, htriple⟩
    exact (hinside.lineBreak htriple '\n' (by rw [hrest]; rfl)).1 rfl
  rw [stringTurn, consumeClosing_inside hinside]
  dsimp only
  rw [if_neg hbreak, consumeContent, if_neg (by simp), if_neg hch]
  rfl

lemma stringTurn_escape (content : List Char) {escaped : Option Char} {later : Lexer}
    (hinside : Inside triple quote lexer.rest)
    (hescape : consumeEscapedChar tables start lexer.advance = .ok (escaped, later)) :
    stringTurn tables start quote false triple content () lexer '\\' =
      .ok (.more (content ++ escaped.toList) () later) := by
  rw [stringTurn, consumeClosing_inside hinside]
  dsimp only
  rw [if_neg (by simp), consumeContent, if_neg (by simp), if_pos rfl, hescape, Results.ok_bind]
  cases escaped <;> rfl

/-- The turns of the lexer over a piece, one or two. -/
lemma stringLoop_piece (hquote : quote = '\'' ∨ quote = '"')
    (hinside : Inside triple quote lexer.rest)
    (hpiece : firstPiece lexer.rest = some (piece, text')) :
    ∃ later, stringLoop tables start quote triple content lexer =
      stringLoop tables start quote triple (content ++ piece.given) later ∧ later.rest = text' := by
  cases hrest : lexer.rest with
  | nil =>
    rw [hrest] at hpiece
    cases hpiece
  | cons ch text =>
    rw [hrest] at hpiece
    have hadvance := rest_advance hrest
    by_cases hch : ch = '\\'
    · subst hch
      cases text with
      | nil => cases hpiece
      | cons ch text =>
        rcases consumeEscapedChar_piece tables start hadvance hpiece with
          ⟨escaped, later, hescape, hgiven, hlater⟩ | ⟨rfl, rfl, hsimple, hbreak, hescape⟩
        · have hturn := stringTurn_escape content hinside hescape
          rw [hgiven] at hturn
          exact ⟨later, stringLoop_more (peekChar_of_rest hrest) hturn, hlater⟩
        · -- The backslash takes a turn, and the character behind it another.
          have hturn := stringTurn_escape content hinside hescape
          have hne : ch ≠ quote ∧ ch ≠ '\\' := by
            constructor <;> rintro rfl
            · rcases hquote with rfl | rfl <;> cases hsimple
            · cases hsimple
          have hbehind : Inside triple quote lexer.advance.rest := by
            rw [hadvance]
            refine ⟨?_, fun _ first hfirst => Option.some.inj hfirst ▸ hbreak⟩
            rw [delimiter_eq_cons, List.cons_prefix_cons]
            exact fun hprefix => hne.1 hprefix.1.symm
          have hplain := stringTurn_plain tables start (content ++ ['\\']) hadvance hbehind hne.2
          refine ⟨lexer.advance.advance, ?_, rest_advance hadvance⟩
          rw [stringLoop_more (peekChar_of_rest hrest) hturn, Option.toList_some,
            stringLoop_more (peekChar_of_rest hadvance) hplain, List.append_assoc]
          rfl
    · have hturn := stringTurn_plain tables start content hrest hinside hch
      rw [firstPiece_of_ne hch] at hpiece
      rw [stringLoop_more (peekChar_of_rest hrest) hturn]
      split_ifs at hpiece with hreturn
      · obtain ⟨rfl, rfl⟩ := Prod.mk.inj (Option.some.inj hpiece)
        subst hreturn
        by_cases hfeed : text.head? = some '\n'
        · obtain ⟨text, rfl⟩ := List.head?_eq_some_iff.1 hfeed
          have htriple : triple = true := by
            by_contra hsingle
            exact (hinside.lineBreak (by simpa using hsingle) '\r' (by rw [hrest]; rfl)).2 rfl
          have hbehind : Inside triple quote lexer.advance.rest := by
            rw [hadvance]
            refine ⟨?_, fun hsingle => by rw [htriple] at hsingle; cases hsingle⟩
            rw [delimiter_eq_cons, List.cons_prefix_cons]
            rcases hquote with rfl | rfl <;> simp
          have hplain :=
            stringTurn_plain tables start (content ++ ['\r']) hadvance hbehind (by decide)
          refine ⟨lexer.advance.advance, ?_, rest_advance hadvance⟩
          rw [stringLoop_more (peekChar_of_rest hadvance) hplain, List.append_assoc]
          rfl
        · refine ⟨lexer.advance, ?_, by rw [dropLineFeed, if_neg hfeed, hadvance]⟩
          simp [Piece.given, hfeed]
      · obtain ⟨rfl, rfl⟩ := Prod.mk.inj (Option.some.inj hpiece)
        exact ⟨lexer.advance, rfl, hadvance⟩

lemma stringLoop_close {rest : List Char} (hrest : lexer.rest = delimiter triple quote ++ rest) :
    ∃ later, stringLoop tables start quote triple content lexer = .ok (content, later) ∧
      later.rest = rest := by
  have hpeek : lexer.peekChar = some quote :=
    peekChar_of_rest (by rw [hrest, delimiter_eq_cons]; rfl)
  have hreads := (reads_iterate hrest).rest
  rw [hrest] at hreads
  have hlater := (List.append_cancel_left hreads).symm
  have hclosing : consumeClosing quote false triple content () lexer =
      some (.done content (advance^[(delimiter triple quote).length] lexer)) := by
    rw [consumeClosing]
    cases triple with
    | true => rw [if_pos rfl, if_pos (atTriple_iff.2 ⟨rest, hrest.symm⟩)]; rfl
    | false => rw [if_neg Bool.false_ne_true, if_pos hpeek]; rfl
  refine ⟨_, ?_, hlater⟩
  simp only [stringLoop, consumeTurns, hpeek, stringTurn, hclosing]
  rfl

/-- The lexer gives a body the characters of its pieces, and stops behind the closing delimiter. -/
lemma stringLoop_body (tables : UnicodeTables) (start : Lexer) (content : List Char)
    {body rest : List Char} {pieces : List Piece}
    (hquote : quote = '\'' ∨ quote = '"') (hspells : Spells body pieces)
    (hsplit : splitBody triple quote lexer.rest = some (body, rest)) :
    ∃ later, stringLoop tables start quote triple content lexer =
      .ok (content ++ pieces.flatMap Piece.given, later) ∧ later.rest = rest := by
  induction hspells generalizing lexer content with
  | nil =>
    obtain ⟨-, hrest⟩ | ⟨_, _, -, hbody, -⟩ | ⟨_, _, _, -, hbody, -⟩ | ⟨_, _, _, -, -, hbody, -⟩ :=
      splitBody_cases hsplit
    · rw [List.flatMap_nil, List.append_nil]
      exact stringLoop_close hrest
    all_goals cases hbody
  | cons first _ ih =>
    obtain ⟨hinside, text', hpiece, hsplit⟩ := firstPiece_split hquote first hsplit
    obtain ⟨later, hloop, hlater⟩ := stringLoop_piece hquote hinside hpiece
    rw [← hlater] at hsplit
    rw [hloop, List.flatMap_cons, ← List.append_assoc]
    exact ih _ hsplit

end turns

/-- The text of a literal behind its opening delimiter. -/
def literalText (lexer : Lexer) (quote : Char) : List Char :=
  lexer.rest.drop (delimiter (lexer.atTriple quote) quote).length

lemma consumeString_eq (tables : UnicodeTables) {lexer : Lexer} {quote : Char}
    (hpeek : lexer.peekChar = some quote) :
    ∃ opened : Lexer, opened.rest = literalText lexer quote ∧
      consumeString tables lexer quote false =
        stringLoop tables lexer quote (lexer.atTriple quote) [] opened := by
  cases htriple : lexer.atTriple quote with
  | true =>
    obtain ⟨behind, hbehind⟩ := atTriple_iff.1 htriple
    have hreads := (reads_iterate hbehind.symm).rest
    refine ⟨advance^[3] lexer, ?_, by rw [consumeString, consumeOpening, htriple]; rfl⟩
    rw [literalText, htriple, hreads, List.drop_left]
    rfl
  | false =>
    refine ⟨lexer.advance, ?_, by rw [consumeString, consumeOpening, htriple]; rfl⟩
    rw [literalText, htriple, rest_of_peekChar hpeek, rest_advance (rest_of_peekChar hpeek)]
    rfl

/-- A literal is decoded as Python does it if and only if the lexer keeps the code points of every
piece of its body. -/
theorem consumeString_decodes_iff (tables : UnicodeTables) {lexer : Lexer} {quote : Char}
    {body rest : List Char} {pieces : List Piece} (hquote : quote = '\'' ∨ quote = '"')
    (hpeek : lexer.peekChar = some quote)
    (hsplit : splitBody (lexer.atTriple quote) quote (literalText lexer quote) = some (body, rest))
    (hspells : Spells body pieces) :
    Decodes tables lexer quote (pieces.flatMap Piece.codes) rest ↔ ∀ piece ∈ pieces, piece.Kept := by
  obtain ⟨opened, hopened, hconsume⟩ := consumeString_eq tables hpeek
  rw [← hopened] at hsplit
  obtain ⟨later, hloop, hrest⟩ :=
    stringLoop_body tables lexer [] hquote hspells hsplit
  rw [List.nil_append, ← hconsume] at hloop
  rw [← Piece.flatMap_eq_iff]
  constructor
  · rintro ⟨content, later', hok, hcodes, -⟩
    obtain ⟨rfl, -⟩ := Prod.mk.inj (Except.ok.inj (hloop.symm.trans hok))
    exact hcodes
  · intro hcodes
    exact ⟨_, later, hloop, hcodes, hrest⟩

theorem consumeString_decodes_iff_escapes :
    Decodes ⟨fun _ => false, fun _ => false, fun _ => none⟩
      (Lexer.new ['"', '\\', 'x', '4', '1', '\\', '"', '\\', 'q', '"', '+']) '"'
      ['A'.toNat, '"'.toNat, '\\'.toNat, 'q'.toNat] ['+'] :=
  have hspells : Spells _ [.coded 0x41, .coded 0x22, .unknown 'q'] :=
    .cons rfl (.cons rfl (.cons rfl .nil))
  (consumeString_decodes_iff _ (.inr rfl) rfl rfl hspells).2 (by decide)

/-- The literal `"\400"` is `U+0100` to Python, and `U+0000` to the lexer. -/
theorem consumeString_octalEscape :
    splitBody false '"' ['\\', '4', '0', '0', '"'] = some (['\\', '4', '0', '0'], []) ∧
      Spells ['\\', '4', '0', '0'] [.octal 0x100] ∧
      ¬Decodes ⟨fun _ => false, fun _ => false, fun _ => none⟩
        (Lexer.new ['"', '\\', '4', '0', '0', '"']) '"' [0x100] [] := by
  refine ⟨rfl, .cons rfl .nil, ?_⟩
  rintro ⟨content, later, hok, hcodes, -⟩
  have hcontent := congrArg (fun result => result.toOption.map Prod.fst) hok
  have hzero : ['\x00'] = content := Option.some.inj hcontent
  rw [← hzero] at hcodes
  revert hcodes
  decide

end Lexing

end Pyrs
