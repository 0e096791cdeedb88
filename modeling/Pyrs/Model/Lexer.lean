import Pyrs.Model.Json

/-!
# The lexer

`Lexer` of `parser/lexer.rs`.  What was read and what is left are lists of characters, the former
with the last character first; the offset is the number of bytes that were read.  The character
classes of Unicode and `lookup_unicode_name` are left to a `UnicodeTables`.  The rounds of a loop are
counted, and a loop has more than there are characters.
-/

namespace Pyrs

namespace Lexing

inductive Keyword
  | pass | «if» | «else» | «while» | «try» | except | «finally» | raise | assert
  | trueLiteral | falseLiteral | noneLiteral | def_ | «class» | «return» | «for» | «in» | is
  | «break» | «continue» | and | or | not | elif | «import» | «from» | «global» | nonlocal | as
  | lambda | «with» | yield | async | await | del
  deriving DecidableEq

inductive TokenKind
  | name | number | string | bytes | newline | indent | dedent | lParen | rParen | lBracket
  | rBracket | lBrace | rBrace | dot | ellipsis | colon | colonEqual | equal | doubleEqual | less
  | lessEqual | greater | greaterEqual | notEqual | comma | plus | minus | arrow | star | doubleStar
  | doubleSlash | slash | slashEqual | plusEqual | minusEqual | starEqual | doubleStarEqual
  | doubleSlashEqual | percentEqual | percent | pipe | pipeEqual | ampersand | ampersandEqual
  | caret | caretEqual | tilde | leftShift | leftShiftEqual | rightShift | rightShiftEqual
  | atSign | atEqual | semicolon | fString | templateString | keyword (keyword : Keyword) | endMarker
  deriving DecidableEq

/-- A token with its text and its place. -/
structure Token where
  kind : TokenKind
  lexeme : List Char
  offset : ℕ
  line : ℕ
  column : ℕ
  deriving DecidableEq

/-- A message with its place. -/
structure LexError where
  message : String
  offset : ℕ
  line : ℕ
  column : ℕ
  deriving DecidableEq

/-- The tables of Unicode. -/
structure UnicodeTables where
  isAlphabetic : Char → Bool
  isNumeric : Char → Bool
  lookupUnicodeName : List Char → Option Char

def UnicodeTables.isAlphanumeric (tables : UnicodeTables) (ch : Char) : Bool :=
  tables.isAlphabetic ch || tables.isNumeric ch

/-- The lexer.  The top of the indent stack comes first. -/
structure Lexer where
  before : List Char
  rest : List Char
  line : ℕ
  column : ℕ
  indentStack : List ℕ
  atLineStart : Bool
  parenLevel : ℕ
  deriving DecidableEq

namespace Lexer

/-- A lexer in front of a source. -/
def new (source : List Char) : Lexer := ⟨[], source, 1, 1, [0], true, 0⟩

/-- The bytes that were read. -/
def offset (lexer : Lexer) : ℕ := (lexer.before.map Char.utf8Size).sum

def peekChar (lexer : Lexer) : Option Char := lexer.rest.head?

def peekCharAt (lexer : Lexer) (idx : ℕ) : Option Char := lexer.rest[idx]?

/-- `advance`, with the line and the column. -/
def advance (lexer : Lexer) : Lexer :=
  match lexer.rest with
  | [] => lexer
  | ch :: rest =>
    { lexer with
      before := ch :: lexer.before
      rest := rest
      line := if ch = '\n' then lexer.line + 1 else lexer.line
      column := if ch = '\n' then 1 else lexer.column + 1 }

/-- Advances as long as a character is one of a class. -/
def advanceWhile (lexer : Lexer) (isOne : Char → Bool) : Lexer :=
  advance^[(lexer.rest.takeWhile isOne).length] lexer

/-- Advances over a character that is one of a class. -/
def advanceIf (lexer : Lexer) (isOne : Char → Bool) : Lexer :=
  if lexer.peekChar.any isOne then lexer.advance else lexer

/-- The text between two states. -/
def textTo (lexer later : Lexer) : List Char :=
  lexer.rest.take (lexer.rest.length - later.rest.length)

/-- An error at the place of the lexer. -/
def error (lexer : Lexer) (message : String) : LexError :=
  ⟨message, lexer.offset, lexer.line, lexer.column⟩

/-- A token at the place of the lexer. -/
def token (lexer : Lexer) (kind : TokenKind) (lexeme : List Char) : Token :=
  ⟨kind, lexeme, lexer.offset, lexer.line, lexer.column⟩

/-! ## Comments, names and numbers -/

def consumeComment (lexer : Lexer) : Lexer := lexer.advanceWhile (· != '\n')

def consumeIdentifier (tables : UnicodeTables) (lexer : Lexer) : Lexer :=
  lexer.advanceWhile fun ch => ch == '_' || tables.isAlphanumeric ch

/-- What the digits of a number go through. -/
def isDigitOrUnderscore (ch : Char) : Bool := ch.isDigit || ch == '_'

/-- `is_ascii_hexdigit` and `to_digit(16)`. -/
def hexValue (ch : Char) : Option ℕ :=
  if '0' ≤ ch ∧ ch ≤ '9' then some (ch.toNat - '0'.toNat)
  else if 'a' ≤ ch ∧ ch ≤ 'f' then some (ch.toNat - 'a'.toNat + 10)
  else if 'A' ≤ ch ∧ ch ≤ 'F' then some (ch.toNat - 'A'.toNat + 10)
  else none

/-- The `j` of a number. -/
def consumeImaginary (lexer : Lexer) : Lexer := lexer.advanceIf (· ∈ ['j', 'J'])

/-- The exponent of a number. -/
def consumeExponent (lexer : Lexer) : Lexer :=
  if lexer.peekChar.any (· ∈ ['e', 'E']) then
    (lexer.advance.advanceIf (· ∈ ['+', '-'])).advanceWhile isDigitOrUnderscore
  else lexer

/-- The digits behind a point; two points are none. -/
def consumeFraction (lexer : Lexer) : Lexer :=
  if lexer.peekChar = some '.' ∧ lexer.peekCharAt 1 ≠ some '.' then
    lexer.advance.advanceWhile isDigitOrUnderscore
  else lexer

def consumeNumber (lexer : Lexer) : Lexer :=
  let zero := lexer.advanceIf (· == '0')
  if lexer.peekChar = some '0' ∧ zero.peekChar.any (· ∈ ['x', 'X', 'o', 'O', 'b', 'B']) then
    (zero.advance.advanceWhile fun ch => ch == '_' || (hexValue ch).isSome).consumeImaginary
  else (zero.advanceWhile isDigitOrUnderscore).consumeFraction.consumeExponent.consumeImaginary

def consumeNumberFromDot (lexer : Lexer) : Lexer :=
  (lexer.advance.advanceWhile isDigitOrUnderscore).consumeExponent.consumeImaginary

/-! ## Escape sequences -/

/-- The escapes of one letter. -/
def simpleEscape : Char → Option Char
  | 'n' => some '\n'
  | 'a' => some '\x07'
  | 'b' => some '\x08'
  | 'f' => some '\x0c'
  | 't' => some '\t'
  | 'r' => some '\r'
  | 'v' => some '\x0b'
  | '\\' => some '\\'
  | '\'' => some '\''
  | '"' => some '"'
  | _ => none

/-- Reads hexadecimal digits onto a value. -/
def consumeHex (start : Lexer) (message : String) : ℕ → ℕ → Lexer → Except LexError (ℕ × Lexer)
  | 0, value, lexer => pure (value, lexer)
  | width + 1, value, lexer =>
    match lexer.peekChar with
    | none => throw (start.error "unterminated escape sequence")
    | some ch =>
      match hexValue ch with
      | none => throw (start.error message)
      | some digit => consumeHex start message width (value * 16 + digit) lexer.advance

/-- A digit of base 8. -/
def isOctal (ch : Char) : Bool := '0' ≤ ch && ch ≤ '7'

/-- Reads at most so many octal digits onto a value. -/
def consumeOctal : ℕ → ℕ → Lexer → ℕ × Lexer
  | 0, value, lexer => (value, lexer)
  | width + 1, value, lexer =>
    match lexer.peekChar with
    | some ch =>
      if isOctal ch then consumeOctal width (value * 8 + (ch.toNat - '0'.toNat)) lexer.advance
      else (value, lexer)
    | none => (value, lexer)

/-- The name of a `\N` escape, which the lexer stands behind. -/
def consumeUnicodeName (tables : UnicodeTables) (start lexer : Lexer) :
    Except LexError (Option Char × Lexer) :=
  let closing := lexer.advanceWhile (· != '}')
  match closing.peekChar with
  | none => throw (start.error "invalid unicode escape")
  | some _ =>
    match tables.lookupUnicodeName (lexer.textTo closing) with
    | some ch =>
      if lexer.textTo closing = [] then throw (start.error "invalid unicode escape")
      else pure (some ch, closing.advance)
    | none => throw (start.error "invalid unicode escape")

/-- `consume_escaped_char`.  The step back over the `N` of a `\N` without a brace leaves it unread.
-/
def consumeEscapedChar (tables : UnicodeTables) (start lexer : Lexer) :
    Except LexError (Option Char × Lexer) :=
  match lexer.peekChar with
  | none => throw (start.error "unterminated escape sequence")
  | some ch =>
    match simpleEscape ch with
    | some escaped => pure (some escaped, lexer.advance)
    | none =>
      if ch = 'x' then do
        let (value, lexer) ← consumeHex start "invalid hex escape" 2 0 lexer.advance
        pure (some (Char.ofNat value), lexer)
      else if isOctal ch then
        let (value, lexer) := consumeOctal 3 0 lexer
        pure (some (Char.ofNat (value % 256)), lexer)
      else if ch = 'u' ∨ ch = 'U' then do
        let (value, lexer) ← consumeHex start "invalid unicode escape" (if ch = 'u' then 4 else 8) 0
          lexer.advance
        match internalCharFromCodepoint value with
        | some escaped => pure (some escaped, lexer)
        | none => throw (start.error "invalid unicode escape")
      else if ch = 'N' then
        if lexer.peekCharAt 1 ≠ some '{' then pure (some '\\', lexer)
        else consumeUnicodeName tables start lexer.advance.advance
      else if ch = '\n' then pure (none, lexer.advance)
      else if ch = '\r' then pure (none, lexer.advance.advanceIf (· == '\n'))
      else pure (some '\\', lexer)

/-! ## Strings -/

/-- An odd number of backslashes stands in front. -/
def rawQuoteIsEscaped (lexer : Lexer) : Bool :=
  (lexer.before.takeWhile (· == '\\')).length % 2 == 1

/-- Three times the character. -/
def atTriple (lexer : Lexer) (quote : Char) : Bool :=
  lexer.peekChar == some quote && lexer.peekCharAt 1 == some quote && lexer.peekCharAt 2 == some quote

/-- A backslash of a raw string, with the line break behind it. -/
def consumeRawBackslash (lexer : Lexer) : Lexer :=
  let lexer := lexer.advance
  if lexer.peekChar = some '\n' then lexer.advance
  else if lexer.peekChar = some '\r' then lexer.advance.advanceIf (· == '\n')
  else lexer

/-- The end of a turn of the loop over a string: the string has ended, or more of it was read. -/
inductive Turn (State : Type)
  | done (content : List Char) (lexer : Lexer)
  | more (content : List Char) (state : State) (lexer : Lexer)

/-- The opening quotes of a string, and whether there are three. -/
def consumeOpening (lexer : Lexer) (quote : Char) : Bool × Lexer :=
  if lexer.atTriple quote then (true, advance^[3] lexer) else (false, lexer.advance)

/-- What a turn does with a character of the content of a string, other than a brace. -/
def consumeContent (tables : UnicodeTables) (start : Lexer) (raw : Bool) (content : List Char)
    (lexer : Lexer) (ch : Char) (double : Char → List Char) : Except LexError (List Char × Lexer) :=
  if ch = '\\' ∧ raw then
    let later := lexer.consumeRawBackslash
    pure (content ++ lexer.textTo later, later)
  else if ch = '\\' then do
    let (escaped, lexer) ← consumeEscapedChar tables start lexer.advance
    pure (content ++ (escaped.map double).getD [], lexer)
  else pure (content ++ [ch], lexer.advance)

/-- The closing quotes of a string, or a quote that a raw string keeps. -/
def consumeClosing {State : Type} (quote : Char) (raw triple : Bool) (content : List Char)
    (state : State) (lexer : Lexer) : Option (Turn State) :=
  if triple then
    if lexer.atTriple quote then some (.done content (advance^[3] lexer)) else none
  else if lexer.peekChar = some quote then
    if raw && lexer.rawQuoteIsEscaped then some (.more (content ++ [quote]) state lexer.advance)
    else some (.done content lexer.advance)
  else none

/-- The loops over strings end in the same way. -/
def consumeTurns {State : Type} (start : Lexer)
    (turn : List Char → State → Lexer → Char → Except LexError (Turn State)) :
    ℕ → List Char → State → Lexer → Except LexError (List Char × Lexer)
  | 0, _, _, _ => throw (start.error "out of fuel")
  | fuel + 1, content, state, lexer =>
    match lexer.peekChar with
    | none => throw (start.error "unterminated string literal")
    | some ch => do
      match ← turn content state lexer ch with
      | .done content lexer => pure (content, lexer)
      | .more content state lexer => consumeTurns start turn fuel content state lexer

/-- One round of the loop of `consume_string`. -/
def stringTurn (tables : UnicodeTables) (start : Lexer) (quote : Char) (raw triple : Bool)
    (content : List Char) (_ : Unit) (lexer : Lexer) (ch : Char) : Except LexError (Turn Unit) :=
  match consumeClosing quote raw triple content () lexer with
  | some turn => pure turn
  | none =>
    if ch = '\n' ∧ triple = false then throw (start.error "unterminated string literal")
    else do
      let (content, lexer) ← consumeContent tables start raw content lexer ch fun ch => [ch]
      pure (.more content () lexer)

/-- `consume_string`. -/
def consumeString (tables : UnicodeTables) (lexer : Lexer) (quote : Char) (raw : Bool) :
    Except LexError (List Char × Lexer) :=
  let (triple, opened) := lexer.consumeOpening quote
  consumeTurns lexer (stringTurn tables lexer quote raw triple) (opened.rest.length + 1) [] () opened

/-! ## Strings with fields -/

/-- Where the loop is in a replacement field. -/
structure FieldState where
  exprDepth : ℕ
  inFormatSpec : Bool
  exprInComment : Bool
  exprQuote : Option Char
  exprTripleQuote : Bool
  exprEscaped : Bool

/-- A turn inside a string of an expression. -/
def fieldQuoteTurn (content : List Char) (state : FieldState) (lexer : Lexer) (ch quote : Char) :
    Turn FieldState :=
  if state.exprTripleQuote then
    if lexer.atTriple quote then
      .more (content ++ [quote, quote, quote])
        { state with exprQuote := none, exprTripleQuote := false, exprEscaped := false }
        (advance^[3] lexer)
    else .more (content ++ [ch]) state lexer.advance
  else if state.exprEscaped then
    .more (content ++ [ch]) { state with exprEscaped := false } lexer.advance
  else if ch = '\\' then .more (content ++ [ch]) { state with exprEscaped := true } lexer.advance
  else if ch = quote then .more (content ++ [ch]) { state with exprQuote := none } lexer.advance
  else .more (content ++ [ch]) state lexer.advance

/-- A turn inside a field, where it does not go on as outside of fields. -/
def fieldTurn (content : List Char) (state : FieldState) (lexer : Lexer) (ch : Char) :
    Option (Turn FieldState) :=
  if state.exprInComment then
    some (.more (content ++ [ch])
      { state with exprInComment := !(ch == '\n' || ch == '\r') } lexer.advance)
  else
    match state.exprQuote with
    | some quote => some (fieldQuoteTurn content state lexer ch quote)
    | none =>
      if ch = ':' ∧ state.exprDepth = 1 ∧ state.inFormatSpec = false then
        some (.more (content ++ [ch]) { state with inFormatSpec := true } lexer.advance)
      else if ch = '#' ∧ (state.inFormatSpec = false ∨ state.exprDepth > 1) then
        some (.more (content ++ [ch]) { state with exprInComment := true } lexer.advance)
      else if ch = '\'' ∨ ch = '"' then
        let later := if lexer.atTriple ch then advance^[3] lexer else lexer.advance
        some (.more (content ++ lexer.textTo later)
          { state with
            exprQuote := some ch
            exprTripleQuote := lexer.atTriple ch
            exprEscaped := false } later)
      else none

/-- A brace: a doubled one stands for itself outside of fields, and another opens or closes. -/
def braceTurn (content : List Char) (state : FieldState) (lexer : Lexer) (ch : Char) :
    Turn FieldState :=
  if state.exprDepth = 0 ∧ lexer.peekCharAt 1 = some ch then
    .more (content ++ [ch, ch]) state lexer.advance.advance
  else
    let depth := if ch = '{' then state.exprDepth + 1 else state.exprDepth - 1
    .more (content ++ [ch])
      { state with
        exprDepth := depth
        inFormatSpec := if depth = (if ch = '{' then 1 else 0) then false else state.inFormatSpec }
      lexer.advance

/-- A backslash inside a field that is not raw, which keeps the character behind it. -/
def fieldBackslash (start : Lexer) (content : List Char) (lexer : Lexer) :
    Except LexError (List Char × Lexer) :=
  match lexer.advance.peekChar with
  | none => throw (start.error "unterminated escape sequence")
  | some next => pure (content ++ ['\\', next], lexer.advance.advance)

/-- One round of the loop of `consume_fstring`. -/
def fstringTurn (tables : UnicodeTables) (start : Lexer) (quote : Char) (raw triple : Bool)
    (content : List Char) (state : FieldState) (lexer : Lexer) (ch : Char) :
    Except LexError (Turn FieldState) :=
  let inside := if state.exprDepth > 0 then fieldTurn content state lexer ch
    else consumeClosing quote raw triple content state lexer
  match inside with
  | some turn => pure turn
  | none =>
    if ch = '\n' ∧ triple = false ∧ state.exprDepth = 0 then
      throw (start.error "unterminated string literal")
    else if ch = '{' ∨ ch = '}' then pure (braceTurn content state lexer ch)
    else do
      let (content, lexer) ←
        if ch = '\\' ∧ raw = false ∧ state.exprDepth > 0 then fieldBackslash start content lexer
        else consumeContent tables start raw content lexer ch fun ch =>
          if ch = '{' ∨ ch = '}' then [ch, ch] else [ch]
      pure (.more content state lexer)

/-- `consume_fstring`. -/
def consumeFstring (tables : UnicodeTables) (lexer : Lexer) (quote : Char) (raw : Bool) :
    Except LexError (List Char × Lexer) :=
  let (triple, opened) := lexer.consumeOpening quote
  consumeTurns lexer (fstringTurn tables lexer quote raw triple) (opened.rest.length + 1) []
    ⟨0, false, false, none, false, false⟩ opened

/-- The kind of a string with a prefix of these letters. -/
def prefixedKind (letters : List Char) : TokenKind :=
  if 'f' ∈ letters then .fString
  else if 't' ∈ letters then .templateString
  else if 'b' ∈ letters then .bytes
  else .string

/-- The letters of a prefix that do not go together. -/
def prefixConflict (letters : List Char) : Option String :=
  if 't' ∈ letters ∧ 'f' ∈ letters then some "'f' and 't' prefixes are incompatible"
  else if 't' ∈ letters ∧ 'b' ∈ letters then some "'b' and 't' prefixes are incompatible"
  else if 't' ∈ letters ∧ 'u' ∈ letters then some "'u' and 't' prefixes are incompatible"
  else if 'f' ∈ letters ∧ 'b' ∈ letters then some "bytes f-strings are not supported"
  else none

/-- `consume_prefixed_string`. -/
def consumePrefixedString (tables : UnicodeTables) (lexer : Lexer) :
    Except LexError (Option (TokenKind × List Char × Lexer)) :=
  let letters := (lexer.rest.take 2).takeWhile Char.isAlpha
  match lexer.peekCharAt letters.length with
  | none => pure none
  | some quote =>
    let lowered := letters.map Char.toLower
    if letters = [] ∨ (quote ≠ '\'' ∧ quote ≠ '"') ∨ ¬lowered.all (· ∈ ['r', 'u', 'b', 'f', 't']) ∨
        ¬lowered.Nodup then pure none
    else
      match prefixConflict lowered with
      | some message => throw (lexer.error message)
      | none => do
        let opened := advance^[letters.length] lexer
        let (content, later) ←
          if 'f' ∈ lowered ∨ 't' ∈ lowered then consumeFstring tables opened quote ('r' ∈ lowered)
          else consumeString tables opened quote ('r' ∈ lowered)
        pure (some (prefixedKind lowered, content, later))

/-! ## Indentation -/

/-- The column behind a character of the leading white space of a line. -/
def indentLevel (level : ℕ) (ch : Char) : ℕ :=
  if ch = ' ' then level + 1
  else if ch = '\t' then level + (8 - level % 8)
  -- A form feed starts the count again.
  else 0

/-- The characters in front of a line. -/
def isIndentation (ch : Char) : Bool := ch ∈ [' ', '\t', '\x0c']

/-- `consume_indentation`, with the level of the line. -/
def consumeIndentation (lexer : Lexer) : ℕ × Lexer :=
  ((lexer.rest.takeWhile isIndentation).foldl indentLevel 0, lexer.advanceWhile isIndentation)

/-- Pops the indents down to a level. -/
def popIndents (lexer : Lexer) (level : ℕ) : List ℕ → Except LexError (List Token × List ℕ)
  | [] => throw (lexer.error "indentation does not match any outer level")
  | top :: stack =>
    if level = top then pure ([], top :: stack)
    else do
      let (tokens, stack) ← popIndents lexer level stack
      pure (lexer.token .dedent [] :: tokens, stack)

/-- `emit_indent_tokens`, with the new indent stack. -/
def emitIndentTokens (lexer : Lexer) (level : ℕ) : Except LexError (List Token × List ℕ) :=
  let current := lexer.indentStack.head?.getD 0
  if level = current then pure ([], lexer.indentStack)
  else if level > current then pure ([lexer.token .indent []], level :: lexer.indentStack)
  else popIndents lexer level lexer.indentStack

/-- What `tokenize` does at the start of a line outside of brackets. -/
def beginLine (lexer : Lexer) : Except LexError (List Token × Lexer) :=
  let (level, lexer) := lexer.consumeIndentation
  if lexer.peekChar.all (· ∈ ['\n', '#']) then pure ([], { lexer with atLineStart := false })
  else do
    let (tokens, stack) ← lexer.emitIndentTokens level
    pure (tokens, { lexer with indentStack := stack, atLineStart := false })

/-! ## Tokens -/

/-- The operators and delimiters, with a longer one before those it begins with. -/
def operators : List (String × TokenKind) :=
  [("...", .ellipsis), ("<<=", .leftShiftEqual), (">>=", .rightShiftEqual),
    ("**=", .doubleStarEqual), ("//=", .doubleSlashEqual),
    (":=", .colonEqual), ("==", .doubleEqual), ("<<", .leftShift), ("<=", .lessEqual),
    (">>", .rightShift), (">=", .greaterEqual), ("!=", .notEqual), ("+=", .plusEqual),
    ("->", .arrow), ("-=", .minusEqual), ("**", .doubleStar), ("*=", .starEqual),
    ("//", .doubleSlash), ("/=", .slashEqual), ("%=", .percentEqual), ("&=", .ampersandEqual),
    ("|=", .pipeEqual), ("^=", .caretEqual), ("@=", .atEqual),
    (";", .semicolon), ("(", .lParen), (")", .rParen), ("[", .lBracket), ("]", .rBracket),
    ("\x7b", .lBrace), ("\x7d", .rBrace), (".", .dot), (":", .colon), ("=", .equal), (",", .comma),
    ("<", .less), (">", .greater), ("+", .plus), ("-", .minus), ("*", .star), ("/", .slash),
    ("%", .percent), ("&", .ampersand), ("|", .pipe), ("^", .caret), ("~", .tilde),
    ("@", .atSign)]

/-- The first operator of the table that stands here. -/
def operator? (lexer : Lexer) : Option (String × TokenKind) :=
  operators.find? fun (text, _) => text.toList.isPrefixOf lexer.rest

/-- The number of open brackets behind a token. -/
def bracketLevel (kind : TokenKind) (level : ℕ) : ℕ :=
  match kind with
  | .lParen | .lBracket | .lBrace => level + 1
  | .rParen | .rBracket | .rBrace => level - 1
  | _ => level

/-- The table of keywords. -/
def keywords : List (String × Keyword) :=
  [("pass", .pass), ("if", .if), ("else", .else), ("while", .while), ("try", .try),
    ("except", .except), ("finally", .finally), ("raise", .raise), ("assert", .assert),
    ("True", .trueLiteral), ("False", .falseLiteral), ("None", .noneLiteral), ("def", .def_),
    ("class", .class), ("return", .return), ("for", .for), ("in", .in), ("is", .is),
    ("break", .break), ("continue", .continue), ("and", .and), ("or", .or), ("not", .not),
    ("elif", .elif), ("import", .import), ("from", .from), ("global", .global),
    ("nonlocal", .nonlocal), ("as", .as), ("lambda", .lambda), ("with", .with), ("yield", .yield),
    ("async", .async), ("await", .await), ("del", .del)]

/-- The kind of a name, which may be a keyword. -/
def nameKind (lexeme : List Char) : TokenKind :=
  match keywords.lookup (String.ofList lexeme) with
  | some keyword => .keyword keyword
  | none => .name

/-- The token that a lexer has read on its way to a later state. -/
def readToken (lexer later : Lexer) (kind : TokenKind) : List Token × Lexer :=
  ([lexer.token kind (lexer.textTo later)], later)

/-- A name, a keyword or a string with a prefix. -/
def consumeWord (tables : UnicodeTables) (lexer : Lexer) : Except LexError (List Token × Lexer) := do
  match ← consumePrefixedString tables lexer with
  | some (kind, content, later) => pure ([lexer.token kind content], later)
  | none =>
    let later := lexer.consumeIdentifier tables
    pure (lexer.readToken later (nameKind (lexer.textTo later)))

/-- One turn of `tokenize` behind the indentation. -/
def consumeChar (tables : UnicodeTables) (lexer : Lexer) (ch : Char) :
    Except LexError (List Token × Lexer) :=
  if ch ∈ [' ', '\t', '\r', '\x0c'] then pure ([], lexer.advance)
  else if ch = '#' then pure ([], lexer.consumeComment)
  else if ch = '\n' then
    if lexer.parenLevel = 0 then
      pure ([lexer.token .newline ['\n']], { lexer.advance with atLineStart := true })
    else pure ([], { lexer.advance with atLineStart := false })
  else if ch = '\\' then
    -- An explicit line joining.
    if lexer.advance.peekChar = some '\n' then
      pure ([], { lexer.advance.advance with atLineStart := false })
    else throw (lexer.error "unexpected character: \\")
  else if ch = '.' ∧ (lexer.peekCharAt 1).any Char.isDigit then
    pure (lexer.readToken lexer.consumeNumberFromDot .number)
  else
    match lexer.operator? with
    | some (text, kind) =>
      let later := advance^[text.length] lexer
      pure ([lexer.token kind text.toList],
        { later with parenLevel := bracketLevel kind lexer.parenLevel })
    | none =>
      if ch = '\'' ∨ ch = '"' then do
        let (content, later) ← consumeString tables lexer ch false
        pure ([lexer.token .string content], later)
      else if ch.isDigit then pure (lexer.readToken lexer.consumeNumber .number)
      else if ch = '_' ∨ tables.isAlphabetic ch then lexer.consumeWord tables
      else throw (lexer.error ("unexpected character: " ++ ch.toString))

/-- One turn of `tokenize`. -/
def step (tables : UnicodeTables) (lexer : Lexer) : Except LexError (List Token × Lexer) := do
  let (indents, lexer) ←
    if lexer.atLineStart ∧ lexer.parenLevel = 0 then lexer.beginLine else pure ([], lexer)
  match lexer.peekChar with
  | none => pure (indents, lexer)
  | some ch => do
    let (tokens, lexer) ← consumeChar tables lexer ch
    pure (indents ++ tokens, lexer)

/-- The tokens behind the last character. -/
def finish (lexer : Lexer) : List Token :=
  List.replicate (lexer.indentStack.length - 1) (lexer.token .dedent [])
    ++ [lexer.token .endMarker []]

/-- The loop of `tokenize`. -/
def tokenizeLoop (tables : UnicodeTables) : ℕ → Lexer → Except LexError (List Token)
  | 0, lexer => throw (lexer.error "out of fuel")
  | fuel + 1, lexer =>
    match lexer.peekChar with
    | none => pure lexer.finish
    | some _ => do
      let (tokens, lexer) ← step tables lexer
      pure (tokens ++ (← tokenizeLoop tables fuel lexer))

end Lexer

def tokenize (tables : UnicodeTables) (source : List Char) : Except LexError (List Token) :=
  Lexer.tokenizeLoop tables (source.length + 1) (Lexer.new source)

end Lexing

end Pyrs
