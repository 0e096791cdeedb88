import Pyrs.Model.Ast
import Pyrs.Model.TextSplitting

/-!
# Literals and displays that the parser lowers to calls

`parser/parser.rs`: set displays, displays and subscripts with a star, bytes and imaginary literals,
the ellipsis and f-strings.  A construct is taken after its parts have been read: the elements of a
display, and the pieces of an f-string with the fields as Python reads them, which is how
`split_fstring_field_parts` splits them.
-/

namespace Pyrs

/-- An element of a display, with a star or without. -/
inductive SequenceElement (α : Type)
  | expr (expr : α)
  | star (expr : α)

/-- A format specifier is text with replacement fields. -/
inductive FormatSpecPart (α : Type)
  | text (text : String)
  | field (source : String) (expr : α)

/-- The specifier as it is written. -/
def FormatSpecPart.source {α : Type} : FormatSpecPart α → String
  | .text part => part
  | .field written _ => "\x7b" ++ written ++ "\x7d"

/-- The source of a whole specifier. -/
def specSource {α : Type} (parts : List (FormatSpecPart α)) : String :=
  String.join (parts.map FormatSpecPart.source)

/-- A replacement field as `parse_fstring_field` splits it. -/
structure FStringField (α : Type) where
  expr : α
  /-- For `=`: the field up to and with the sign, and its expression without blanks around. -/
  debug : Option (String × String)
  /-- One of `r`, `s` and `a`. -/
  conversion : Option Char
  formatSpec : Option (List (FormatSpecPart α))
  /-- Where the field has such parts: the expression that its whole text is as well, as in
  `x:=5`. -/
  whole : Option α
  whole_parts : whole.isSome → debug.isSome ∨ conversion.isSome ∨
    ∃ parts ∈ formatSpec, specSource parts ≠ ""

/-- A piece of an f-string. -/
inductive FStringPiece (α : Type)
  | text (text : String)
  | field (field : FStringField α)

/-- The constructs, over their subexpressions. -/
inductive Construct (α : Type)
  | set (elements : List (SequenceElement α))
  | list (elements : List (SequenceElement α))
  /-- A tuple, also as the index of a subscript. -/
  | tuple (elements : List (SequenceElement α))
  | bytes (content : String)
  | imaginary (bits : UInt64)
  | ellipsis
  | fstring (pieces : List (FStringPiece α))

/-! ## The same construct over other subexpressions -/

section Map

variable {α β : Type} (f : α → β)

def SequenceElement.map : SequenceElement α → SequenceElement β
  | .expr item => .expr (f item)
  | .star item => .star (f item)

def FormatSpecPart.map : FormatSpecPart α → FormatSpecPart β
  | .text part => .text part
  | .field written item => .field written (f item)

@[simp]
lemma specSource_map (parts : List (FormatSpecPart α)) :
    specSource (parts.map (FormatSpecPart.map f)) = specSource parts := by
  unfold specSource
  rw [List.map_map]
  refine congrArg String.join (List.map_congr_left fun part _ => ?_)
  cases part <;> rfl

def FStringField.map (field : FStringField α) : FStringField β where
  expr := f field.expr
  debug := field.debug
  conversion := field.conversion
  formatSpec := field.formatSpec.map (List.map (FormatSpecPart.map f))
  whole := field.whole.map f
  whole_parts h := by
    refine (field.whole_parts (by simpa using h)).imp_right (Or.imp_right ?_)
    rintro ⟨parts, hparts, hsource⟩
    exact ⟨_, Option.mem_map_of_mem _ hparts, by rwa [specSource_map]⟩

def FStringPiece.map : FStringPiece α → FStringPiece β
  | .text part => .text part
  | .field part => .field (part.map f)

def Construct.map : Construct α → Construct β
  | .set elements => .set (elements.map (SequenceElement.map f))
  | .list elements => .list (elements.map (SequenceElement.map f))
  | .tuple elements => .tuple (elements.map (SequenceElement.map f))
  | .bytes content => .bytes content
  | .imaginary bits => .imaginary bits
  | .ellipsis => .ellipsis
  | .fstring pieces => .fstring (pieces.map (FStringPiece.map f))

end Map

section Parts

variable {α : Type}

/-- An element with a star. -/
def SequenceElement.isStar : SequenceElement α → Bool
  | .expr _ => false
  | .star _ => true

/-- The expression of an element. -/
def SequenceElement.value : SequenceElement α → α
  | .expr item => item
  | .star item => item

/-- Some element has a star. -/
def hasStar (elements : List (SequenceElement α)) : Bool :=
  elements.any SequenceElement.isStar

/-- A replacement field in a specifier. -/
def FormatSpecPart.isField : FormatSpecPart α → Bool
  | .text _ => false
  | .field .. => true

end Parts

/-! ## Lowering -/

def makeNamedCall (name : String) (args : List CallArg) : Expr :=
  .call (.name name) args

def makeSetCall (iterable : Expr) : Expr :=
  .call (.name "set") [.positional iterable]

/-- The loop of `lower_starred_list`. -/
def lowerStarredChunks (acc : Expr) (elements : List (SequenceElement Expr)) : Expr :=
  elements.foldl (fun acc element =>
    let chunk :=
      match element with
      | .expr expr => .list [expr]
      | .star expr => makeNamedCall "list" [.positional expr]
    .binary acc .add chunk) acc

def lowerStarredList (elements : List (SequenceElement Expr)) : Expr :=
  lowerStarredChunks (.list []) elements

def lowerStarredTuple (elements : List (SequenceElement Expr)) : Expr :=
  makeNamedCall "tuple" [.positional (lowerStarredList elements)]

def lowerStarredSet (elements : List (SequenceElement Expr)) : Expr :=
  makeSetCall (lowerStarredList elements)

def makeBytesLiteralExpr (content : String) : Expr :=
  .call (.name "bytes")
    [.positional (.constant (.str content)), .positional (.constant (.str "latin-1"))]

/-- The imaginary literal of `parse_atom`. -/
def makeImagLiteralExpr (bits : UInt64) : Expr :=
  .call (.name "complex")
    [.positional (.constant (.int 0)), .positional (.constant (.float bits))]

/-- The function that a conversion calls. -/
def conversionName : Char → String
  | 'r' => "repr"
  | 'a' => "ascii"
  | _ => "str"

def wrapFstringValue (expr : Expr) (conversion : Option Char) : Expr :=
  match conversion with
  | none => expr
  | some conversion => .call (.name (conversionName conversion)) [.positional expr]

def wrapFstringFormat (value : Expr) (formatSpec : String) : Expr :=
  .call (.name "format") [.positional value, .positional (.constant (.str formatSpec))]

/-- The text of the specifier, at the end of a field that is trimmed. -/
def FStringField.specText {α : Type} (field : FStringField α) : String :=
  (field.formatSpec.map fun parts =>
    String.ofList (TextSplitting.trimEnd (specSource parts).toList)).getD ""

/-- `parse_fstring_field`: a text that is an expression is not split. -/
def lowerFstringField (field : FStringField Expr) : Expr :=
  match field.whole with
  | some expr => wrapFstringFormat (wrapFstringValue expr none) ""
  | none =>
    let value := wrapFstringValue field.expr field.conversion
    let value := wrapFstringFormat value field.specText
    match field.debug with
    | none => value
    | some (_, trimmed) => .binary (.constant (.str (trimmed ++ "="))) .add value

/-- A text, or the expression of a field. -/
def lowerFstringPiece : FStringPiece Expr → Expr
  | .text text => .constant (.str text)
  | .field field => lowerFstringField field

/-- The end of `parse_fstring_literal`. -/
def lowerFstring (pieces : List (FStringPiece Expr)) : Expr :=
  match pieces.map lowerFstringPiece with
  | [] => .constant (.str "")
  | first :: rest => rest.foldl (fun expr piece => .binary expr .add piece) first

/-- What the parser makes of a construct. -/
def Construct.lower : Construct Expr → Expr
  | .set elements =>
    if hasStar elements then lowerStarredSet elements
    else makeSetCall (.list (elements.map SequenceElement.value))
  | .list elements =>
    if hasStar elements then lowerStarredList elements
    else .list (elements.map SequenceElement.value)
  | .tuple elements =>
    if hasStar elements then lowerStarredTuple elements
    else .tuple (elements.map SequenceElement.value)
  | .bytes content => makeBytesLiteralExpr content
  | .imaginary bits => makeImagLiteralExpr bits
  | .ellipsis => .name "Ellipsis"
  | .fstring pieces => lowerFstring pieces

end Pyrs
