import Mathlib.Algebra.Group.Nat.Defs
import Pyrs.Model.Ast

/-!
# The expression parser

`parser/parser.rs`, from `parse_expr_at` down to `parse_atom`, on the tokens that are left.  The
memo table returns what it stored for a position, which is what `parse_expr_uncached` gives there.
Constructs beside plain expressions are outside: `yield`, comprehensions, starred elements, and
literals other than integers and strings.  Every function takes a bound on the depth of its calls.
-/

namespace Pyrs

/-- The keywords that stand in expressions. -/
inductive Keyword
  | async | await | and | or | not | «in» | is | «if» | «else» | «for» | lambda | yield
  | trueLiteral | falseLiteral | noneLiteral
  | other (lexeme : String)
deriving DecidableEq

/-- A token; the kinds that these functions do not look at are one. -/
inductive Token
  | name (lexeme : String)
  | number (lexeme : String)
  | string (lexeme : String)
  | bytes | fString | templateString | ellipsis
  | lParen | rParen | lBracket | rBracket | lBrace | rBrace
  | dot | colon | colonEqual | equal | comma
  | doubleEqual | notEqual | less | lessEqual | greater | greaterEqual
  | plus | minus | star | doubleStar | slash | doubleSlash | percent | at
  | pipe | ampersand | caret | tilde | leftShift | rightShift
  | keyword (keyword : Keyword)
  | other (lexeme : String)
deriving DecidableEq

/-- The error for constructs that are left to the parser of statements. -/
def outsideFragment : String := "not modelled"

/-- The error of a parser whose depth is used up. -/
def outOfDepth : String := "too deep"

/-- `expect_kind`: one token of the kind, or the message. -/
def expectKind (kind : Token) (message : String) : List Token → Except String (List Token)
  | token :: rest => if token = kind then .ok rest else .error message
  | [] => .error message

/-- What stands behind the element of a comprehension. -/
def isComprehensionStart : List Token → Bool
  | .keyword .for :: _ => true
  | .keyword .async :: .keyword .for :: _ => true
  | _ => false

/-! ## Literals -/

/-- The value of a digit of any base. -/
def digitValue (char : Char) : Option ℕ :=
  if char.isDigit then some (char.toNat - '0'.toNat)
  else if 'a' ≤ char ∧ char ≤ 'z' then some (char.toNat - 'a'.toNat + 10)
  else if 'A' ≤ char ∧ char ≤ 'Z' then some (char.toNat - 'A'.toNat + 10)
  else none

/-- `from_str_radix` of a literal, which has no sign. -/
def fromStrRadix (base : ℕ) (digits : List Char) : Option ℕ :=
  if digits = [] then none
  else
    digits.foldlM
      (fun value char => (digitValue char).bind fun digit =>
        if digit < base then some (base * value + digit) else none) 0

/-- The digits of an integer literal and their base. -/
def radixOf : List Char → List Char × ℕ
  | '0' :: 'x' :: rest => (rest, 16)
  | '0' :: 'X' :: rest => (rest, 16)
  | '0' :: 'o' :: rest => (rest, 8)
  | '0' :: 'O' :: rest => (rest, 8)
  | '0' :: 'b' :: rest => (rest, 2)
  | '0' :: 'B' :: rest => (rest, 2)
  | digits => (digits, 10)

/-- The value of an integer literal; `_` between digits is dropped. -/
def parseIntLiteral (lexeme : String) : Except String Constant :=
  let (digits, base) := radixOf (lexeme.toList.filter (· ≠ '_'))
  match fromStrRadix base digits with
  | some value => if value < 2 ^ 63 then .ok (.int value) else .ok (.bigInt value)
  | none => .error "invalid integer literal"

/-- `parse_number_literal`: an imaginary, a float or an integer. -/
def parseNumberLiteral (lexeme : String) : Except String Constant :=
  let normalized := lexeme.toList.filter (· ≠ '_')
  if normalized.getLast? = some 'j' ∨ normalized.getLast? = some 'J' then .error outsideFragment
  else if (radixOf normalized).2 = 10 ∧
      ('.' ∈ normalized ∨ 'e' ∈ normalized ∨ 'E' ∈ normalized) then
    .error outsideFragment
  else parseIntLiteral lexeme

/-- The strings from here on, joined. -/
def parseStringSequence : List Token → Except String (String × List Token)
  | .string lexeme :: rest =>
    match parseStringSequence rest with
    | .ok (more, rest) => .ok (lexeme ++ more, rest)
    | .error message => .error message
  | .bytes :: _ | .fString :: _ | .templateString :: _ => .error outsideFragment
  | rest => .ok ("", rest)

/-! ## Operators -/

/-- The levels with operators that group to the left. -/
inductive BinaryLevel
  | or | and | bitOr | bitXor | bitAnd | shift | addSub | mul
deriving DecidableEq

/-- The operators of a level, with the expression they build. -/
def BinaryLevel.operator : BinaryLevel → Token → Option (Expr → Expr → Expr)
  | .or, .keyword .or => some (.boolOp .or)
  | .and, .keyword .and => some (.boolOp .and)
  | .bitOr, .pipe => some (.binary · .bitOr ·)
  | .bitXor, .caret => some (.binary · .bitXor ·)
  | .bitAnd, .ampersand => some (.binary · .bitAnd ·)
  | .shift, .leftShift => some (.binary · .lShift ·)
  | .shift, .rightShift => some (.binary · .rShift ·)
  | .addSub, .plus => some (.binary · .add ·)
  | .addSub, .minus => some (.binary · .sub ·)
  | .mul, .star => some (.binary · .mul ·)
  | .mul, .at => some (.binary · .matMul ·)
  | .mul, .slash => some (.binary · .div ·)
  | .mul, .doubleSlash => some (.binary · .floorDiv ·)
  | .mul, .percent => some (.binary · .mod ·)
  | _, _ => none

/-- The comparison operators, with `not in` and `is not` as two tokens each. -/
def parseComparisonOp : List Token → Option (BinaryOp × List Token)
  | .doubleEqual :: rest => some (.eq, rest)
  | .notEqual :: rest => some (.ne, rest)
  | .less :: rest => some (.lt, rest)
  | .lessEqual :: rest => some (.le, rest)
  | .greater :: rest => some (.gt, rest)
  | .greaterEqual :: rest => some (.ge, rest)
  | .keyword .in :: rest => some (.in, rest)
  | .keyword .is :: .keyword .not :: rest => some (.isNot, rest)
  | .keyword .is :: rest => some (.is, rest)
  | .keyword .not :: .keyword .in :: rest => some (.notIn, rest)
  | _ => none

/-- The prefix operators of `parse_unary`, with the expression they build. -/
def prefixOperator : Token → Option (Expr → Expr)
  | .keyword .await => some .await
  | .minus => some (.unary .neg)
  | .plus => some (.unary .pos)
  | .tilde => some (.unary .invert)
  | _ => none

/-! ## The parser -/

/-- The parameters of a lambda read so far. -/
structure LambdaParams where
  posonlyParams : List Parameter
  params : List Parameter
  kwonlyParams : List Parameter
  vararg : Option Parameter
  kwarg : Option Parameter
  sawDefault : Bool
  keywordOnly : Bool
  sawSlash : Bool

/-- No parameter is read yet. -/
def LambdaParams.start : LambdaParams := ⟨[], [], [], none, none, false, false, false⟩

/-- A parameter, to the list it belongs to. -/
def LambdaParams.push (read : LambdaParams) (param : Parameter) : LambdaParams :=
  if read.keywordOnly then { read with kwonlyParams := read.kwonlyParams ++ [param] }
  else
    { read with
      params := read.params ++ [param]
      sawDefault := read.sawDefault || param.default.isSome }

mutual

/-- `parse_expr_uncached`. -/
def parseExprAt : ℕ → List Token → Except String (Expr × List Token)
  | 0, _ => .error outOfDepth
  | depth + 1, tokens =>
    match tokens with
    | .keyword .yield :: _ => .error outsideFragment
    | .keyword .lambda :: rest => parseLambda depth rest
    | _ => parseNamedExpr depth tokens

/-- `parse_named_expr`: an expression or `name := expr`. -/
def parseNamedExpr : ℕ → List Token → Except String (Expr × List Token)
  | 0, _ => .error outOfDepth
  | depth + 1, tokens => do
    let (left, tokens) ← parseIfExpr depth tokens
    match tokens with
    | .colonEqual :: rest =>
      match left with
      | .name target => do
        let (value, tokens) ← parseExprAt depth rest
        .ok (.namedExpr target value, tokens)
      | _ => .error "assignment expression target must be a name"
    | _ => .ok (left, tokens)

/-- `parse_lambda`, behind the keyword. -/
def parseLambda : ℕ → List Token → Except String (Expr × List Token)
  | 0, _ => .error outOfDepth
  | depth + 1, tokens => do
    let (read, tokens) ←
      match tokens with
      | .colon :: _ => .ok (LambdaParams.start, tokens)
      | _ => parseLambdaParams depth .start tokens
    let tokens ← expectKind .colon "expected Colon" tokens
    let (body, tokens) ← parseExprAt depth tokens
    .ok (.lambda read.posonlyParams read.params read.vararg read.kwarg read.kwonlyParams body,
      tokens)

/-- The loop over the parameters of a `lambda`, up to the colon. -/
def parseLambdaParams : ℕ → LambdaParams → List Token → Except String (LambdaParams × List Token)
  | 0, _, _ => .error outOfDepth
  | depth + 1, read, tokens =>
    match tokens with
    | .slash :: rest =>
      if read.sawSlash then .error "multiple '/' in parameters"
      else if read.keywordOnly || read.vararg.isSome || read.kwarg.isSome then
        .error "invalid '/' position"
      else
        parseLambdaSeparator depth
          { read with sawSlash := true, posonlyParams := read.params, params := [] } rest
    | .star :: rest =>
      if read.vararg.isSome then .error "multiple *args parameters"
      else
        match rest with
        | .comma :: rest => parseLambdaParams depth { read with keywordOnly := true } rest
        | .colon :: _ => .ok ({ read with keywordOnly := true }, rest)
        | .name name :: rest =>
          parseLambdaSeparator depth
            { read with vararg := some ⟨name, none, none⟩, keywordOnly := true } rest
        | _ => .error "expected parameter name after *"
    | .doubleStar :: rest =>
      if read.kwarg.isSome then .error "multiple **kwargs parameters"
      else
        match rest with
        | .name name :: rest =>
          parseLambdaSeparator depth { read with kwarg := some ⟨name, none, none⟩ } rest
        | _ => .error "expected parameter name after **"
    | .name name :: .equal :: rest => do
      let (default, tokens) ← parseExprAt depth rest
      parseLambdaSeparator depth (read.push ⟨name, some default, none⟩) tokens
    | .name name :: rest =>
      if !read.keywordOnly && read.sawDefault then .error "non-default parameter follows default"
      else parseLambdaSeparator depth (read.push ⟨name, none, none⟩) rest
    | _ => .error "expected parameter name"

/-- What follows a parameter. -/
def parseLambdaSeparator : ℕ → LambdaParams → List Token → Except String (LambdaParams × List Token)
  | 0, _, _ => .error outOfDepth
  | depth + 1, read, tokens =>
    match tokens with
    | .comma :: .colon :: rest =>
      if read.posonlyParams.isEmpty && read.params.isEmpty && read.kwonlyParams.isEmpty &&
          read.vararg.isNone && read.kwarg.isNone then
        .error "expected parameter name"
      else .ok (read, .colon :: rest)
    | .comma :: rest =>
      if read.kwarg.isSome then .error "**kwargs must be last parameter"
      else parseLambdaParams depth read rest
    | _ => .ok (read, tokens)

/-- `parse_if_expr`: the condition and the other branch bind to the right. -/
def parseIfExpr : ℕ → List Token → Except String (Expr × List Token)
  | 0, _ => .error outOfDepth
  | depth + 1, tokens => do
    let (body, tokens) ← parseBinary depth .or tokens
    match tokens with
    | .keyword .if :: rest => do
      let (test, tokens) ← parseBinary depth .or rest
      match tokens with
      | .keyword .else :: rest => do
        let (orelse, tokens) ← parseExprAt depth rest
        .ok (.ifExpr test body orelse, tokens)
      | _ => .error "expected else"
    | _ => .ok (body, tokens)

/-- `parse_or`, `parse_and`, and `parse_bitwise_or` down to `parse_mul`. -/
def parseBinary : ℕ → BinaryLevel → List Token → Except String (Expr × List Token)
  | 0, _, _ => .error outOfDepth
  | depth + 1, level, tokens => do
    let (left, tokens) ← parseOperand depth level tokens
    parseBinaryLoop depth level left tokens

/-- The function that a level calls for its operands. -/
def parseOperand : ℕ → BinaryLevel → List Token → Except String (Expr × List Token)
  | 0, _, _ => .error outOfDepth
  | depth + 1, level, tokens =>
    match level with
    | .or => parseBinary depth .and tokens
    | .and => parseNot depth tokens
    | .bitOr => parseBinary depth .bitXor tokens
    | .bitXor => parseBinary depth .bitAnd tokens
    | .bitAnd => parseBinary depth .shift tokens
    | .shift => parseBinary depth .addSub tokens
    | .addSub => parseBinary depth .mul tokens
    | .mul => parseUnary depth tokens

/-- The loop of a left-associative level: operators of the level, each with its right operand. -/
def parseBinaryLoop : ℕ → BinaryLevel → Expr → List Token → Except String (Expr × List Token)
  | 0, _, _, _ => .error outOfDepth
  | depth + 1, level, left, tokens =>
    match tokens with
    | [] => .ok (left, [])
    | token :: rest =>
      match level.operator token with
      | some build => do
        let (right, tokens) ← parseOperand depth level rest
        parseBinaryLoop depth level (build left right) tokens
      | none => .ok (left, tokens)

/-- `parse_not`, to the right. -/
def parseNot : ℕ → List Token → Except String (Expr × List Token)
  | 0, _ => .error outOfDepth
  | depth + 1, tokens =>
    match tokens with
    | .keyword .not :: rest => do
      let (operand, tokens) ← parseNot depth rest
      .ok (.unary .not operand, tokens)
    | _ => parseComparison depth tokens

/-- `parse_comparison`: one operand and the comparisons behind it. -/
def parseComparison : ℕ → List Token → Except String (Expr × List Token)
  | 0, _ => .error outOfDepth
  | depth + 1, tokens => do
    let (left, tokens) ← parseBinary depth .bitOr tokens
    match parseComparisonOp tokens with
    | none => .ok (left, tokens)
    | some (op, rest) => do
      let (right, tokens) ← parseBinary depth .bitOr rest
      parseComparisonLoop depth (.binary left op right) right tokens

/-- A chain of comparisons: each operand but the first and the last stands in two of them. -/
def parseComparisonLoop : ℕ → Expr → Expr → List Token → Except String (Expr × List Token)
  | 0, _, _, _ => .error outOfDepth
  | depth + 1, expr, previous, tokens =>
    match parseComparisonOp tokens with
    | none => .ok (expr, tokens)
    | some (op, rest) => do
      let (right, tokens) ← parseBinary depth .bitOr rest
      parseComparisonLoop depth (.boolOp .and expr (.binary previous op right)) right tokens

/-- `parse_unary`: the signs, and `await` below them. -/
def parseUnary : ℕ → List Token → Except String (Expr × List Token)
  | 0, _ => .error outOfDepth
  | depth + 1, tokens =>
    match tokens with
    | [] => parsePower depth []
    | token :: rest =>
      match prefixOperator token with
      | some build => do
        let (operand, tokens) ← parseUnary depth rest
        .ok (build operand, tokens)
      | none => parsePower depth tokens

/-- `parse_power`: its exponent is a unary expression. -/
def parsePower : ℕ → List Token → Except String (Expr × List Token)
  | 0, _ => .error outOfDepth
  | depth + 1, tokens => do
    let (left, tokens) ← parseAtom depth tokens
    match tokens with
    | .doubleStar :: rest => do
      let (right, tokens) ← parseUnary depth rest
      .ok (.binary left .pow right, tokens)
    | _ => .ok (left, tokens)

/-- `parse_atom`: names, constants and what stands in brackets. -/
def parseAtom : ℕ → List Token → Except String (Expr × List Token)
  | 0, _ => .error outOfDepth
  | depth + 1, tokens => do
    let (expr, tokens) ←
      match tokens with
      | .name name :: rest => .ok (.name name, rest)
      | .number lexeme :: rest => do
        let value ← parseNumberLiteral lexeme
        .ok (.constant value, rest)
      | .string _ :: _ | .bytes :: _ | .fString :: _ | .templateString :: _ => do
        let (value, rest) ← parseStringSequence tokens
        .ok (.constant (.str value), rest)
      | .ellipsis :: rest => .ok (.name "Ellipsis", rest)
      | .keyword .trueLiteral :: rest => .ok (.constant (.bool true), rest)
      | .keyword .falseLiteral :: rest => .ok (.constant (.bool false), rest)
      | .keyword .noneLiteral :: rest => .ok (.constant .none, rest)
      | .lParen :: rest => parseParenExpr depth rest
      | .lBracket :: rest => parseListOrComp depth rest
      | .lBrace :: rest => parseDictOrComp depth rest
      | _ => .error "expected expression"
    parseTrailers depth expr tokens

/-- The loop of `parse_atom`. -/
def parseTrailers : ℕ → Expr → List Token → Except String (Expr × List Token)
  | 0, _, _ => .error outOfDepth
  | depth + 1, expr, tokens =>
    match tokens with
    | .lParen :: rest => do
      let (args, tokens) ← parseCallArgs depth rest
      parseTrailers depth (.call expr args) tokens
    | .lBracket :: rest => do
      let (index, tokens) ← parseSubscript depth rest
      parseTrailers depth (.subscript expr index) tokens
    | .dot :: .name name :: rest => parseTrailers depth (.attribute expr name) rest
    | .dot :: _ => .error "expected attribute name"
    | _ => .ok (expr, tokens)

/-- An element of a display, with a star or without. -/
def parseSequenceElement : ℕ → List Token → Except String (Expr × List Token)
  | 0, _ => .error outOfDepth
  | depth + 1, tokens =>
    match tokens with
    | .star :: _ => .error outsideFragment
    | _ => parseExprAt depth tokens

/-- The elements after the first, up to the closing token. -/
def parseElements : ℕ → Token → List Token → Except String (List Expr × List Token)
  | 0, _, _ => .error outOfDepth
  | depth + 1, close, tokens =>
    match tokens with
    | .comma :: rest =>
      if rest.head? = some close then .ok ([], rest)
      else do
        let (element, tokens) ← parseSequenceElement depth rest
        let (elements, tokens) ← parseElements depth close tokens
        .ok (element :: elements, tokens)
    | _ => .ok ([], tokens)

/-- A parenthesized expression, a tuple or a generator. -/
def parseParenExpr : ℕ → List Token → Except String (Expr × List Token)
  | 0, _ => .error outOfDepth
  | depth + 1, tokens =>
    match tokens with
    | .rParen :: rest => .ok (.tuple [], rest)
    | _ => do
      let (first, tokens) ← parseSequenceElement depth tokens
      if isComprehensionStart tokens then .error outsideFragment
      else
        match tokens with
        | .comma :: _ => do
          let (elements, tokens) ← parseElements depth .rParen tokens
          let tokens ← expectKind .rParen "expected RParen" tokens
          .ok (.tuple (first :: elements), tokens)
        | _ => do
          let tokens ← expectKind .rParen "expected RParen" tokens
          .ok (first, tokens)

/-- A list or a list comprehension. -/
def parseListOrComp : ℕ → List Token → Except String (Expr × List Token)
  | 0, _ => .error outOfDepth
  | depth + 1, tokens =>
    match tokens with
    | .rBracket :: rest => .ok (.list [], rest)
    | _ => do
      let (first, tokens) ← parseSequenceElement depth tokens
      if isComprehensionStart tokens then .error outsideFragment
      else do
        let (elements, tokens) ← parseElements depth .rBracket tokens
        let tokens ← expectKind .rBracket "expected RBracket" tokens
        .ok (.list (first :: elements), tokens)

/-- The entries of a dict after the first. -/
def parseDictEntries : ℕ → List Token → Except String (List DictEntry × List Token)
  | 0, _ => .error outOfDepth
  | depth + 1, tokens =>
    match tokens with
    | .comma :: .rBrace :: rest => .ok ([], .rBrace :: rest)
    | .comma :: .doubleStar :: rest => do
      let (mapping, tokens) ← parseExprAt depth rest
      let (entries, tokens) ← parseDictEntries depth tokens
      .ok (.unpack mapping :: entries, tokens)
    | .comma :: rest => do
      let (key, tokens) ← parseExprAt depth rest
      let tokens ← expectKind .colon "expected Colon" tokens
      let (value, tokens) ← parseExprAt depth tokens
      let (entries, tokens) ← parseDictEntries depth tokens
      .ok (.pair key value :: entries, tokens)
    | _ => .ok ([], tokens)

/-- A dict, a set, or a comprehension of one. -/
def parseDictOrComp : ℕ → List Token → Except String (Expr × List Token)
  | 0, _ => .error outOfDepth
  | depth + 1, tokens =>
    match tokens with
    | .rBrace :: rest => .ok (.dict [], rest)
    | .doubleStar :: rest => do
      let (mapping, tokens) ← parseExprAt depth rest
      let (entries, tokens) ← parseDictEntries depth tokens
      let tokens ← expectKind .rBrace "expected RBrace" tokens
      .ok (.dict (.unpack mapping :: entries), tokens)
    | .star :: _ => .error outsideFragment
    | _ => do
      let (key, tokens) ← parseExprAt depth tokens
      match tokens with
      | .colon :: rest => do
        let (value, tokens) ← parseExprAt depth rest
        if isComprehensionStart tokens then .error outsideFragment
        else do
          let (entries, tokens) ← parseDictEntries depth tokens
          let tokens ← expectKind .rBrace "expected RBrace" tokens
          .ok (.dict (.pair key value :: entries), tokens)
      | _ =>
        if isComprehensionStart tokens then .error outsideFragment
        else do
          let (elements, tokens) ← parseElements depth .rBrace tokens
          let tokens ← expectKind .rBrace "expected RBrace" tokens
          .ok (.call (.name "set") [.positional (.list (key :: elements))], tokens)

/-- One item of a subscript: an expression or a slice. -/
def parseSubscriptItem : ℕ → List Token → Except String (Expr × List Token)
  | 0, _ => .error outOfDepth
  | depth + 1, tokens =>
    match tokens with
    | .star :: _ => .error outsideFragment
    | .colon :: _ => parseSlice depth none tokens
    | _ => do
      let (expr, tokens) ← parseExprAt depth tokens
      match tokens with
      | .colon :: _ => parseSlice depth (some expr) tokens
      | _ => .ok (expr, tokens)

/-- A slice, behind its lower bound. -/
def parseSlice : ℕ → Option Expr → List Token → Except String (Expr × List Token)
  | 0, _, _ => .error outOfDepth
  | depth + 1, lower, tokens => do
    let tokens ← expectKind .colon "expected Colon" tokens
    let (upper, tokens) ← parseSliceUpper depth tokens
    let (step, tokens) ← parseSliceStep depth tokens
    .ok (.slice lower upper step, tokens)

/-- The upper bound, unless another colon or the end comes first. -/
def parseSliceUpper : ℕ → List Token → Except String (Option Expr × List Token)
  | 0, _ => .error outOfDepth
  | depth + 1, tokens =>
    match tokens with
    | .colon :: _ | .comma :: _ | .rBracket :: _ => .ok (none, tokens)
    | _ => do
      let (expr, tokens) ← parseExprAt depth tokens
      .ok (some expr, tokens)

/-- The step, after a second colon. -/
def parseSliceStep : ℕ → List Token → Except String (Option Expr × List Token)
  | 0, _ => .error outOfDepth
  | depth + 1, tokens =>
    match tokens with
    | .colon :: .comma :: rest => .ok (none, .comma :: rest)
    | .colon :: .rBracket :: rest => .ok (none, .rBracket :: rest)
    | .colon :: rest => do
      let (expr, tokens) ← parseExprAt depth rest
      .ok (some expr, tokens)
    | _ => .ok (none, tokens)

/-- The items of a subscript after the first. -/
def parseSubscriptItems : ℕ → List Token → Except String (List Expr × List Token)
  | 0, _ => .error outOfDepth
  | depth + 1, tokens =>
    match tokens with
    | .comma :: .rBracket :: rest => .ok ([], .rBracket :: rest)
    | .comma :: rest => do
      let (item, tokens) ← parseSubscriptItem depth rest
      let (items, tokens) ← parseSubscriptItems depth tokens
      .ok (item :: items, tokens)
    | _ => .ok ([], tokens)

/-- The items between the brackets of a subscript. -/
def parseSubscript : ℕ → List Token → Except String (Expr × List Token)
  | 0, _ => .error outOfDepth
  | depth + 1, tokens => do
    let (first, tokens) ← parseSubscriptItem depth tokens
    let (items, rest) ← parseSubscriptItems depth tokens
    let rest ← expectKind .rBracket "expected RBracket" rest
    match tokens with
    | .comma :: _ => .ok (.tuple (first :: items), rest)
    | _ => .ok (first, rest)

/-- The arguments of a call up to the parenthesis. -/
def parseCallArgs : ℕ → List Token → Except String (List CallArg × List Token)
  | 0, _ => .error outOfDepth
  | depth + 1, tokens =>
    match tokens with
    | .rParen :: rest => .ok ([], rest)
    | _ => parseCallArgsLoop depth true tokens

/-- The loop of `parse_call_args`; `first` is whether no argument has been read. -/
def parseCallArgsLoop : ℕ → Bool → List Token → Except String (List CallArg × List Token)
  | 0, _, _ => .error outOfDepth
  | depth + 1, first, tokens => do
    let (arg, tokens) ← parseCallArg depth first tokens
    match tokens with
    | .comma :: .rParen :: rest => .ok ([arg], rest)
    | .comma :: rest => do
      let (args, tokens) ← parseCallArgsLoop depth false rest
      .ok (arg :: args, tokens)
    | _ => do
      let tokens ← expectKind .rParen "expected RParen" tokens
      .ok ([arg], tokens)

/-- One argument: positional, by keyword or with stars. -/
def parseCallArg : ℕ → Bool → List Token → Except String (CallArg × List Token)
  | 0, _, _ => .error outOfDepth
  | depth + 1, first, tokens =>
    match tokens with
    | .star :: rest => do
      let (value, tokens) ← parseExprAt depth rest
      .ok (.star value, tokens)
    | .doubleStar :: rest => do
      let (value, tokens) ← parseExprAt depth rest
      .ok (.doubleStar value, tokens)
    | .name name :: .equal :: rest => do
      let (value, tokens) ← parseExprAt depth rest
      if isComprehensionStart tokens then
        .error "Generator expression must be parenthesized"
      else .ok (.keyword name value, tokens)
    | _ => do
      let (value, tokens) ← parseExprAt depth tokens
      if isComprehensionStart tokens then
        if first then .error outsideFragment
        else .error "Generator expression must be parenthesized"
      else .ok (.positional value, tokens)

end

section Levels

variable (depth : ℕ) (tokens : List Token)

def parseOr : Except String (Expr × List Token) := parseBinary depth .or tokens

def parseAnd : Except String (Expr × List Token) := parseBinary depth .and tokens

def parseBitwiseOr : Except String (Expr × List Token) := parseBinary depth .bitOr tokens

def parseBitwiseXor : Except String (Expr × List Token) := parseBinary depth .bitXor tokens

def parseBitwiseAnd : Except String (Expr × List Token) := parseBinary depth .bitAnd tokens

def parseShift : Except String (Expr × List Token) := parseBinary depth .shift tokens

def parseAddSub : Except String (Expr × List Token) := parseBinary depth .addSub tokens

def parseMul : Except String (Expr × List Token) := parseBinary depth .mul tokens

end Levels

end Pyrs
