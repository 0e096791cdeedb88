import Mathlib.Data.Nat.Notation

/-!
# F-strings and template strings

How `parse_fstring_literal` and `parse_template_literal_parts` of `parser/parser.rs` cut a literal
into its text and its replacement fields, and how `parse_string_sequence` merges adjacent templates.
A literal is the list of its characters, and a place in it is what follows there.  What is done with
the text of a field is left to a function: it is trimmed, split into its parts and parsed.
-/

namespace Pyrs

namespace TemplateLiterals

/-! ## Ends of fields -/

/-- Where `find_fstring_field_end` stands in a field. -/
structure FieldScan where
  paren : ℕ := 0
  bracket : ℕ := 0
  brace : ℕ := 0
  inFormatSpec : Bool := false
  inComment : Bool := false
  quote : Option Char := none
  tripleQuote : Bool := false
  escaped : Bool := false
  deriving DecidableEq

namespace FieldScan

/-- No bracket is open. -/
def atTop (scan : FieldScan) : Bool := scan.paren == 0 && scan.bracket == 0 && scan.brace == 0

/-- Three quotes stand here. -/
def startsTriple (quote : Char) (text : List Char) : Bool := [quote, quote, quote].isPrefixOf text

/-- A turn inside a string, with the number of further characters that it reads. -/
def quoteTurn (scan : FieldScan) (quote ch : Char) (rest : List Char) : FieldScan × ℕ :=
  if scan.tripleQuote then
    if startsTriple quote (ch :: rest) then
      ({ scan with quote := none, tripleQuote := false }, 2)
    else (scan, 0)
  else if scan.escaped then ({ scan with escaped := false }, 0)
  else if ch = '\\' then ({ scan with escaped := true }, 0)
  else if ch = quote then ({ scan with quote := none }, 0)
  else (scan, 0)

/-- A bracket opens or closes. -/
def bracketTurn (scan : FieldScan) : Char → FieldScan
  | '(' => { scan with paren := scan.paren + 1 }
  | ')' => { scan with paren := scan.paren - 1 }
  | '[' => { scan with bracket := scan.bracket + 1 }
  | ']' => { scan with bracket := scan.bracket - 1 }
  | '{' => { scan with brace := scan.brace + 1 }
  | '}' => { scan with brace := scan.brace - 1 }
  | _ => scan

/-- A turn, unless the field ends. -/
def turn (scan : FieldScan) (ch : Char) (rest : List Char) : FieldScan × ℕ :=
  if scan.inComment then
    (if ch = '\n' ∨ ch = '\r' then { scan with inComment := false } else scan, 0)
  else
    match scan.quote with
    | some quote => scan.quoteTurn quote ch rest
    | none =>
      if ch = ':' ∧ scan.atTop ∧ !scan.inFormatSpec then ({ scan with inFormatSpec := true }, 0)
      else if ch = '#' ∧ (!scan.inFormatSpec ∨ scan.brace > 0) then
        ({ scan with inComment := true }, 0)
      else if ch = '\'' ∨ ch = '"' then
        let triple := startsTriple ch (ch :: rest)
        ({ scan with quote := some ch, tripleQuote := triple, escaped := false },
          if triple then 2 else 0)
      else (scan.bracketTurn ch, 0)

/-- The field ends at a closing brace outside of comments, strings and brackets. -/
def endsAt (scan : FieldScan) (ch : Char) : Bool :=
  !scan.inComment && scan.quote.isNone && ch == '}' && scan.atTop

end FieldScan

/-- The text in front of the end of a field, and what follows that brace.  The first number counts
the characters that are still to be passed over. -/
def fieldEndFrom : ℕ → FieldScan → List Char → Option (List Char × List Char)
  | _, _, [] => none
  | skip + 1, scan, ch :: chars =>
    (fieldEndFrom skip scan chars).map fun (text, rest) => (ch :: text, rest)
  | 0, scan, ch :: chars =>
    if scan.endsAt ch then some ([], chars)
    else
      let (later, skip) := scan.turn ch chars
      (fieldEndFrom skip later chars).map fun (text, rest) => (ch :: text, rest)

def findFstringFieldEnd (chars : List Char) : Option (List Char × List Char) :=
  fieldEndFrom 0 {} chars

/-- The loop over a field of a template: it counts braces only. -/
def templateFieldEnd : ℕ → List Char → Option (List Char × List Char)
  | _, [] => none
  | depth, ch :: chars =>
    if ch = '{' then
      (templateFieldEnd (depth + 1) chars).map fun (text, rest) => (ch :: text, rest)
    else if ch = '}' then
      if depth - 1 = 0 then some ([], chars)
      else (templateFieldEnd (depth - 1) chars).map fun (text, rest) => (ch :: text, rest)
    else (templateFieldEnd depth chars).map fun (text, rest) => (ch :: text, rest)

/-! ## F-strings -/

/-- What `parse_fstring_literal` concatenates. -/
inductive Piece (α : Type)
  | literal (text : List Char)
  | field (value : α)
  deriving DecidableEq

/-- The text so far is a piece unless it is empty. -/
def literalPiece {α : Type} (literal : List Char) : List (Piece α) :=
  if literal.isEmpty then [] else [.literal literal]

/-- The loop of `parse_fstring_literal`. -/
def fstringLoop {α : Type} (parseField : List Char → Except String α) :
    ℕ → List Char → List Char → Except String (List (Piece α))
  | _, literal, [] => .ok (literalPiece literal)
  | 0, _, _ :: _ => .error "unterminated f-string"
  | rounds + 1, literal, ch :: chars =>
    if ch = '{' then
      match chars with
      | '{' :: chars => fstringLoop parseField rounds (literal ++ ['{']) chars
      | chars =>
        match findFstringFieldEnd chars with
        | none => .error "unterminated f-string"
        | some (text, rest) => do
          let value ← parseField text
          let pieces ← fstringLoop parseField rounds [] rest
          return literalPiece literal ++ .field value :: pieces
    else if ch = '}' then
      match chars with
      | '}' :: chars => fstringLoop parseField rounds (literal ++ ['}']) chars
      | _ => .error "single '\x7d' is not allowed in f-string"
    else fstringLoop parseField rounds (literal ++ [ch]) chars

def parseFstringLiteral {α : Type} (parseField : List Char → Except String α)
    (content : List Char) : Except String (List (Piece α)) :=
  fstringLoop parseField content.length [] content

/-! ## Templates -/

/-- A field of a template string. -/
structure TemplateInterpolation (α : Type) where
  value : α
  expression : List Char
  conversion : Option Char
  formatSpec : Option (List Char)
  deriving DecidableEq

/-- A missing format spec is the empty one. -/
def TemplateInterpolation.normalize {α : Type} (interpolation : TemplateInterpolation α) :
    TemplateInterpolation α :=
  { interpolation with formatSpec := some (interpolation.formatSpec.getD []) }

/-- The strings and the fields between them. -/
structure TemplateLiteralParts (α : Type) where
  strings : List (List Char) := []
  interpolations : List (TemplateInterpolation α) := []
  deriving DecidableEq

/-- The last string is continued, if there is one. -/
def pushLast (text : List Char) : List (List Char) → List (List Char)
  | [] => []
  | [last] => [last ++ text]
  | first :: strings => first :: pushLast text strings

/-- The prefix of a field with `=` goes to the end of the last string. -/
def pushDebugPrefix (debugPrefix : Option (List Char)) (strings : List (List Char)) :
    List (List Char) :=
  match debugPrefix with
  | none => strings
  | some text => pushLast text strings

/-- The loop of `parse_template_literal_parts`. -/
def templateLoop {α : Type}
    (parseField : List Char → Except String (Option (List Char) × TemplateInterpolation α)) :
    ℕ → TemplateLiteralParts α → List Char → List Char →
      Except String (TemplateLiteralParts α)
  | _, parts, literal, [] =>
    let strings := parts.strings ++ [literal]
    if strings.length ≠ parts.interpolations.length + 1 then .error "invalid t-string structure"
    else .ok { strings, interpolations := parts.interpolations.map TemplateInterpolation.normalize }
  | 0, _, _, _ :: _ => .error "unterminated t-string"
  | rounds + 1, parts, literal, ch :: chars =>
    if ch = '{' then
      match chars with
      | '{' :: chars => templateLoop parseField rounds parts (literal ++ ['{']) chars
      | chars =>
        match templateFieldEnd 1 chars with
        | none => .error "unterminated t-string"
        | some (text, rest) => do
          let (debugPrefix, interpolation) ← parseField text
          templateLoop parseField rounds {
            strings := pushDebugPrefix debugPrefix (parts.strings ++ [literal])
            interpolations := parts.interpolations ++ [interpolation] } [] rest
    else if ch = '}' then
      match chars with
      | '}' :: chars => templateLoop parseField rounds parts (literal ++ ['}']) chars
      | _ => .error "single '\x7d' is not allowed in t-string"
    else templateLoop parseField rounds parts (literal ++ [ch]) chars

def parseTemplateLiteralParts {α : Type}
    (parseField : List Char → Except String (Option (List Char) × TemplateInterpolation α))
    (content : List Char) : Except String (TemplateLiteralParts α) :=
  templateLoop parseField content.length {} [] content

/-! ## Adjacent templates -/

/-- The first string of a template continues the last of those in front of it. -/
def mergeTemplate {α : Type} (merged piece : TemplateLiteralParts α) : TemplateLiteralParts α :=
  if merged.strings.isEmpty then piece
  else
    match piece.strings with
    | [] => { merged with interpolations := merged.interpolations ++ piece.interpolations }
    | first :: strings => {
        strings := pushLast first merged.strings ++ strings
        interpolations := merged.interpolations ++ piece.interpolations }

/-- The branch of `parse_string_sequence` for templates. -/
def mergeTemplates {α : Type} (pieces : List (TemplateLiteralParts α)) : TemplateLiteralParts α :=
  pieces.foldl mergeTemplate {}

/-- A sequence of adjacent templates. -/
def parseTemplateSequence {α : Type}
    (parseField : List Char → Except String (Option (List Char) × TemplateInterpolation α))
    (contents : List (List Char)) : Except String (TemplateLiteralParts α) := do
  return mergeTemplates (← contents.mapM (parseTemplateLiteralParts parseField))

end TemplateLiterals

end Pyrs
