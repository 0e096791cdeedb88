import Pyrs.Model.Syntax

/-!
# Texts the compiler puts into constants

The cleaned text of a docstring, and the renderings that the text of an annotation needs.
-/

namespace Pyrs

/-- The two renderings that the compiler takes from Rust's formatting: of a float, and, through
`{:?}`, of an expression that `annotation_expr_to_string` has no case for. -/
structure Formatting where
  float : UInt64 → String
  debug : Expr → String

/-- Tabs widened to the next multiple of eight columns; `column` is the column reached. -/
def expandTabs (column : Nat) : List Char → List Char
  | [] => []
  | ch :: chars =>
    if ch = '\t' then
      let spaces := 8 - column % 8
      List.replicate spaces ' ' ++ expandTabs (column + spaces) chars
    else if ch = '\n' then ch :: expandTabs 0 chars
    else ch :: expandTabs (column + 1) chars

/-- The spaces a line starts with. -/
def leadingSpaces (line : List Char) : Nat :=
  (line.takeWhile (· = ' ')).length

/-- The smallest indentation of the lines after the first that hold more than spaces. -/
def docstringMargin (lines : List (List Char)) : Nat :=
  (((lines.drop 1).filter (·.any (· ≠ ' '))).map leadingSpaces).min?.getD 0

/-- `compile_clean_docstring`. -/
def compileCleanDocstring (doc : String) : String :=
  let lines := (expandTabs 0 doc.toList).splitOn '\n'
  let margin := docstringMargin lines
  let cleaned := match lines with
    | [] => []
    | first :: rest =>
      first.dropWhile (· = ' ') ::
        rest.map fun (line : List Char) => line.drop (min (leadingSpaces line) margin)
  "\n".intercalate (cleaned.map String.ofList)

end Pyrs
