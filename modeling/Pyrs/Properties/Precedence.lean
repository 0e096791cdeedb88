import Pyrs.Model.ExpressionParser
import Mathlib.Order.Filter.AtTopBot.Basic

/-!
# The expression parser reads what Python's grammar writes

`Writes` puts an expression tree into tokens with the parentheses that the levels of Python's
grammar ask for and no others.  The parser reads every such tree back, up to one level: `await` is a
prefix operator to it, so that in `await x ** y` it awaits the power.
-/

namespace Pyrs

open Filter hiding bind

section

-- The equations of the parser, which nearly every lemma below asks for, are made here once.
attribute [local simp] parseExprAt parseNamedExpr parseLambda parseLambdaParams
  parseLambdaSeparator parseIfExpr parseBinary parseOperand parseBinaryLoop parseNot
  parseComparison parseComparisonLoop parseUnary parsePower parseAtom parseTrailers
  parseSequenceElement parseElements parseParenExpr parseListOrComp parseDictEntries
  parseDictOrComp parseSubscriptItem parseSlice parseSliceUpper parseSliceStep parseSubscriptItems
  parseSubscript parseCallArgs parseCallArgsLoop parseCallArg

end

/-! ## Levels -/

/-- The levels of Python's grammar, from the loosest; `literal` is for adjacent strings. -/
inductive Precedence
  | expression | disjunction | conjunction | inversion | comparison | bitwiseOr | bitwiseXor
  | bitwiseAnd | shift | sum | term | factor | power | awaitPrimary | primary | literal
deriving DecidableEq

namespace Precedence

def rank : Precedence → ℕ
  | expression => 0
  | disjunction => 1
  | conjunction => 2
  | inversion => 3
  | comparison => 4
  | bitwiseOr => 5
  | bitwiseXor => 6
  | bitwiseAnd => 7
  | shift => 8
  | sum => 9
  | term => 10
  | factor => 11
  | power => 12
  | awaitPrimary => 13
  | primary => 14
  | literal => 15

/-- The level whose function reads the expressions of a level. -/
def code : Precedence → Precedence
  | power | awaitPrimary => factor
  | level => level

/-- The level of the operands that a function reads first. -/
def tighter : Precedence → Precedence
  | expression => disjunction
  | disjunction => conjunction
  | conjunction => inversion
  | inversion => comparison
  | comparison => bitwiseOr
  | bitwiseOr => bitwiseXor
  | bitwiseXor => bitwiseAnd
  | bitwiseAnd => shift
  | shift => sum
  | sum => term
  | term => factor
  | factor | power | awaitPrimary => primary
  | primary | literal => literal

/-- The function of a level. -/
def parse : Precedence → ℕ → List Token → Except String (Expr × List Token)
  | expression => parseExprAt
  | disjunction => parseOr
  | conjunction => parseAnd
  | inversion => parseNot
  | comparison => parseComparison
  | bitwiseOr => parseBitwiseOr
  | bitwiseXor => parseBitwiseXor
  | bitwiseAnd => parseBitwiseAnd
  | shift => parseShift
  | sum => parseAddSub
  | term => parseMul
  | factor | power | awaitPrimary => parseUnary
  | primary | literal => parseAtom

/-- What the function of a level does once it has read a first operand. -/
def loop : Precedence → ℕ → Expr → List Token → Except String (Expr × List Token)
  | disjunction, depth, left, tokens => parseBinaryLoop depth .or left tokens
  | conjunction, depth, left, tokens => parseBinaryLoop depth .and left tokens
  | bitwiseOr, depth, left, tokens => parseBinaryLoop depth .bitOr left tokens
  | bitwiseXor, depth, left, tokens => parseBinaryLoop depth .bitXor left tokens
  | bitwiseAnd, depth, left, tokens => parseBinaryLoop depth .bitAnd left tokens
  | shift, depth, left, tokens => parseBinaryLoop depth .shift left tokens
  | sum, depth, left, tokens => parseBinaryLoop depth .addSub left tokens
  | term, depth, left, tokens => parseBinaryLoop depth .mul left tokens
  | primary, depth, left, tokens => parseTrailers depth left tokens
  | _, _, left, tokens => .ok (left, tokens)

/-- The level of what the loop leaves to others: of every token that goes on with an operand. -/
def after : Precedence → Precedence
  | disjunction => conjunction
  | conjunction => inversion
  | bitwiseOr => bitwiseXor
  | bitwiseXor => bitwiseAnd
  | bitwiseAnd => shift
  | shift => sum
  | sum => term
  | term => factor
  | primary => literal
  | level => level

end Precedence

def BinaryLevel.precedence : BinaryLevel → Precedence
  | .or => .disjunction
  | .and => .conjunction
  | .bitOr => .bitwiseOr
  | .bitXor => .bitwiseXor
  | .bitAnd => .bitwiseAnd
  | .shift => .shift
  | .addSub => .sum
  | .mul => .term

/-- The level at which a token goes on with an expression. -/
def Token.continues : Token → Option Precedence
  | .string _ | .bytes | .fString | .templateString => some .literal
  | .lParen | .lBracket | .dot => some .primary
  | .doubleStar => some .power
  | .star | .at | .slash | .doubleSlash | .percent => some .term
  | .plus | .minus => some .sum
  | .leftShift | .rightShift => some .shift
  | .ampersand => some .bitwiseAnd
  | .caret => some .bitwiseXor
  | .pipe => some .bitwiseOr
  | .doubleEqual | .notEqual | .less | .lessEqual | .greater | .greaterEqual
  | .keyword .in | .keyword .is | .keyword .not => some .comparison
  | .keyword .and => some .conjunction
  | .keyword .or => some .disjunction
  | .keyword .if | .keyword .for | .keyword .async | .colonEqual => some .expression
  | _ => none

/-- The level of the expressions that a token begins. -/
def Token.begins : Token → Option Precedence
  | .name _ | .number _ | .string _ | .lParen | .lBracket | .lBrace
  | .keyword .trueLiteral | .keyword .falseLiteral | .keyword .noneLiteral => some .primary
  | .minus | .plus | .tilde | .keyword .await => some .factor
  | .keyword .not => some .inversion
  | .keyword .lambda => some .expression
  | _ => none

/-- The tokens do not go on with an expression of a level. -/
def Stops (level : Precedence) (tokens : List Token) : Prop :=
  ∀ token ∈ tokens.head?, ∀ binding ∈ token.continues, binding.rank < level.rank

/-- The tokens begin an expression of a level. -/
def Starts (level : Precedence) (tokens : List Token) : Prop :=
  ∃ token rest binding, tokens = token :: rest ∧ token.begins = some binding ∧
    level.rank ≤ binding.rank

/-! ## Writing an expression -/

def intConstant (value : ℕ) : Constant := if value < 2 ^ 63 then .int value else .bigInt value

def decimal (value : ℕ) : String := String.ofList (Nat.toDigits 10 value)

def BinaryOp.isArithmetic : BinaryOp → Option (Precedence × Token)
  | .add => some (.sum, .plus)
  | .sub => some (.sum, .minus)
  | .mul => some (.term, .star)
  | .matMul => some (.term, .at)
  | .div => some (.term, .slash)
  | .floorDiv => some (.term, .doubleSlash)
  | .mod => some (.term, .percent)
  | .lShift => some (.shift, .leftShift)
  | .rShift => some (.shift, .rightShift)
  | .bitAnd => some (.bitwiseAnd, .ampersand)
  | .bitXor => some (.bitwiseXor, .caret)
  | .bitOr => some (.bitwiseOr, .pipe)
  | _ => none

def BinaryOp.comparisonTokens : BinaryOp → Option (List Token)
  | .eq => some [.doubleEqual]
  | .ne => some [.notEqual]
  | .lt => some [.less]
  | .le => some [.lessEqual]
  | .gt => some [.greater]
  | .ge => some [.greaterEqual]
  | .in => some [.keyword .in]
  | .notIn => some [.keyword .not, .keyword .in]
  | .is => some [.keyword .is]
  | .isNot => some [.keyword .is, .keyword .not]
  | _ => none

def UnaryOp.prefixToken : UnaryOp → Option Token
  | .neg => some .minus
  | .pos => some .plus
  | .invert => some .tilde
  | .not => none

def BoolOp.level : BoolOp → BinaryLevel
  | .or => .or
  | .and => .and

def BoolOp.token : BoolOp → Token
  | .or => .keyword .or
  | .and => .keyword .and

/-- What stands between the commas of a lambda's parameters. -/
inductive LambdaItem
  | param (param : Parameter)
  | slash
  | star
  | vararg (name : String)
  | kwarg (name : String)

def positionalItems (posonlyParams params : List Parameter) : List LambdaItem :=
  posonlyParams.map .param ++ (if posonlyParams.isEmpty then [] else [.slash]) ++
    params.map .param

/-- The star stands with a name, or for the keyword-only parameters. -/
def starItems (vararg : Option String) (kwonlyParams : List Parameter) : List LambdaItem :=
  match vararg with
  | some name => [.vararg name]
  | none => if kwonlyParams.isEmpty then [] else [.star]

def lambdaItems (posonlyParams params : List Parameter) (vararg kwarg : Option String)
    (kwonlyParams : List Parameter) : List LambdaItem :=
  positionalItems posonlyParams params ++
    (starItems vararg kwonlyParams ++ kwonlyParams.map .param) ++ (kwarg.map .kwarg).toList

/-- No parameter without a default follows one with a default. -/
def DefaultsLast (params : List Parameter) : Prop :=
  params.Pairwise fun param later => param.default.isSome → later.default.isSome

/-- What is written: a part of an expression, or an expression where a level is asked for. -/
inductive Phrase
  /-- An expression without parentheses around it, with its level. -/
  | form (level : Precedence) (expr : Expr)
  | expr (level : Precedence) (expr : Expr)
  | option (expr : Option Expr)
  /-- Elements, each after a comma. -/
  | elements (elements : List Expr)
  | arg (arg : CallArg)
  | args (args : List CallArg)
  | entry (entry : DictEntry)
  | entries (entries : List DictEntry)
  | subscriptItem (item : Expr)
  | subscriptItems (items : List Expr)
  | index (index : Expr)
  | lambdaItem (item : LambdaItem)
  | lambdaItems (items : List LambdaItem)

def Expr.isAwait : Expr → Bool
  | .await _ => true
  | _ => false

/-- The tokens of a phrase, with no more parentheses than the levels of its parts ask for. -/
inductive Writes : Phrase → List Token → Prop
  | bare {form level : Precedence} {expr tokens} (h : Writes (.form form expr) tokens)
      (hlevel : level.rank ≤ form.rank) : Writes (.expr level expr) tokens
  | paren {form level : Precedence} {expr tokens} (h : Writes (.form form expr) tokens)
      (hlevel : form.rank < level.rank) :
      Writes (.expr level expr) (.lParen :: tokens ++ [.rParen])
  | name (name : String) : Writes (.form .primary (.name name)) [.name name]
  | int (value : ℕ) :
      Writes (.form .primary (.constant (intConstant value))) [.number (decimal value)]
  | str (value : String) : Writes (.form .primary (.constant (.str value))) [.string value]
  | true : Writes (.form .primary (.constant (.bool true))) [.keyword .trueLiteral]
  | false : Writes (.form .primary (.constant (.bool false))) [.keyword .falseLiteral]
  | none : Writes (.form .primary (.constant .none)) [.keyword .noneLiteral]
  | member {value tokens} (name : String) (h : Writes (.expr .primary value) tokens) :
      Writes (.form .primary (.attribute value name)) (tokens ++ [.dot, .name name])
  | callEmpty {func tokens} (h : Writes (.expr .primary func) tokens) :
      Writes (.form .primary (.call func [])) (tokens ++ [.lParen, .rParen])
  | call {func args tokens inner} (h : Writes (.expr .primary func) tokens)
      (hargs : Writes (.args args) inner) :
      Writes (.form .primary (.call func args)) (tokens ++ .lParen :: (inner ++ [.rParen]))
  | subscript {value index tokens inner} (h : Writes (.expr .primary value) tokens)
      (hindex : Writes (.index index) inner) :
      Writes (.form .primary (.subscript value index))
        (tokens ++ .lBracket :: (inner ++ [.rBracket]))
  | tupleEmpty : Writes (.form .primary (.tuple [])) [.lParen, .rParen]
  | tupleOne {element tokens} (h : Writes (.expr .expression element) tokens) :
      Writes (.form .primary (.tuple [element])) (.lParen :: (tokens ++ [.comma, .rParen]))
  | tuple {element other elements tokens inner}
      (h : Writes (.expr .expression element) tokens)
      (hrest : Writes (.elements (other :: elements)) inner) :
      Writes (.form .primary (.tuple (element :: other :: elements)))
        (.lParen :: (tokens ++ inner ++ [.rParen]))
  | listEmpty : Writes (.form .primary (.list [])) [.lBracket, .rBracket]
  | list {element elements tokens inner} (h : Writes (.expr .expression element) tokens)
      (hrest : Writes (.elements elements) inner) :
      Writes (.form .primary (.list (element :: elements)))
        (.lBracket :: (tokens ++ inner ++ [.rBracket]))
  | dictEmpty : Writes (.form .primary (.dict [])) [.lBrace, .rBrace]
  | dict {entry entries tokens inner} (h : Writes (.entry entry) tokens)
      (hrest : Writes (.entries entries) inner) :
      Writes (.form .primary (.dict (entry :: entries)))
        (.lBrace :: (tokens ++ inner ++ [.rBrace]))
  | await {value tokens} (h : Writes (.expr .primary value) tokens) :
      Writes (.form .awaitPrimary (.await value)) (.keyword .await :: tokens)
  | pow {left right tokens inner} (hawait : left.isAwait = Bool.false)
      (h : Writes (.expr .primary left) tokens) (hright : Writes (.expr .factor right) inner) :
      Writes (.form .power (.binary left .pow right)) (tokens ++ .doubleStar :: inner)
  | powAwait {value right tokens inner} (h : Writes (.expr .primary value) tokens)
      (hright : Writes (.expr .factor right) inner) :
      Writes (.form .power (.binary (.await value) .pow right))
        (.keyword .await :: tokens ++ .doubleStar :: inner)
  | unary {op token operand tokens} (hop : UnaryOp.prefixToken op = some token)
      (h : Writes (.expr .factor operand) tokens) :
      Writes (.form .factor (.unary op operand)) (token :: tokens)
  | not {operand tokens} (h : Writes (.expr .inversion operand) tokens) :
      Writes (.form .inversion (.unary .not operand)) (.keyword .not :: tokens)
  | binary {op level token left right tokens inner}
      (hop : BinaryOp.isArithmetic op = some (level, token))
      (h : Writes (.expr level left) tokens)
      (hright : Writes (.expr level.tighter right) inner) :
      Writes (.form level (.binary left op right)) (tokens ++ token :: inner)
  | comparison {op opTokens left right tokens inner}
      (hop : BinaryOp.comparisonTokens op = some opTokens)
      (h : Writes (.expr .bitwiseOr left) tokens)
      (hright : Writes (.expr .bitwiseOr right) inner) :
      Writes (.form .comparison (.binary left op right)) (tokens ++ opTokens ++ inner)
  | boolOp {op left right tokens inner}
      (h : Writes (.expr (BoolOp.level op).precedence left) tokens)
      (hright : Writes (.expr (BoolOp.level op).precedence.tighter right) inner) :
      Writes (.form (BoolOp.level op).precedence (.boolOp op left right))
        (tokens ++ BoolOp.token op :: inner)
  | ifExpr {test body orelse tokens testTokens orelseTokens}
      (h : Writes (.expr .disjunction body) tokens)
      (htest : Writes (.expr .disjunction test) testTokens)
      (horelse : Writes (.expr .expression orelse) orelseTokens) :
      Writes (.form .expression (.ifExpr test body orelse))
        (tokens ++ .keyword .if :: (testTokens ++ .keyword .else :: orelseTokens))
  | lambdaEmpty {body tokens} (h : Writes (.expr .expression body) tokens) :
      Writes (.form .expression (.lambda [] [] Option.none Option.none [] body))
        (.keyword .lambda :: .colon :: tokens)
  | lambda {posonlyParams params : List Parameter} {vararg kwarg : Option String}
      {kwonlyParams : List Parameter} {body inner tokens}
      (hdefaults : DefaultsLast (posonlyParams ++ params))
      (hitems : Writes (.lambdaItems (Pyrs.lambdaItems posonlyParams params vararg kwarg
        kwonlyParams)) inner)
      (h : Writes (.expr .expression body) tokens) :
      Writes (.form .expression (.lambda posonlyParams params
          (vararg.map fun name => ⟨name, Option.none, Option.none⟩)
          (kwarg.map fun name => ⟨name, Option.none, Option.none⟩) kwonlyParams body))
        (.keyword .lambda :: (inner ++ .colon :: tokens))
  | optionNone : Writes (.option Option.none) []
  | optionSome {expr tokens} (h : Writes (.expr .expression expr) tokens) :
      Writes (.option (some expr)) tokens
  | elementsNil : Writes (.elements []) []
  | elementsCons {element elements tokens inner} (h : Writes (.expr .expression element) tokens)
      (hrest : Writes (.elements elements) inner) :
      Writes (.elements (element :: elements)) (.comma :: (tokens ++ inner))
  | positional {value tokens} (h : Writes (.expr .expression value) tokens) :
      Writes (.arg (.positional value)) tokens
  | keyword {value tokens} (name : String) (h : Writes (.expr .expression value) tokens) :
      Writes (.arg (.keyword name value)) (.name name :: .equal :: tokens)
  | star {value tokens} (h : Writes (.expr .expression value) tokens) :
      Writes (.arg (.star value)) (.star :: tokens)
  | doubleStar {value tokens} (h : Writes (.expr .expression value) tokens) :
      Writes (.arg (.doubleStar value)) (.doubleStar :: tokens)
  | argsOne {arg tokens} (h : Writes (.arg arg) tokens) : Writes (.args [arg]) tokens
  | argsCons {arg other args tokens inner} (h : Writes (.arg arg) tokens)
      (hrest : Writes (.args (other :: args)) inner) :
      Writes (.args (arg :: other :: args)) (tokens ++ .comma :: inner)
  | pair {key value tokens inner} (h : Writes (.expr .expression key) tokens)
      (hvalue : Writes (.expr .expression value) inner) :
      Writes (.entry (.pair key value)) (tokens ++ .colon :: inner)
  | unpack {mapping tokens} (h : Writes (.expr .bitwiseOr mapping) tokens) :
      Writes (.entry (.unpack mapping)) (.doubleStar :: tokens)
  | entriesNil : Writes (.entries []) []
  | entriesCons {entry entries tokens inner} (h : Writes (.entry entry) tokens)
      (hrest : Writes (.entries entries) inner) :
      Writes (.entries (entry :: entries)) (.comma :: (tokens ++ inner))
  | item {item tokens} (h : Writes (.expr .expression item) tokens) :
      Writes (.subscriptItem item) tokens
  | slice {lower upper tokens inner} (h : Writes (.option lower) tokens)
      (hupper : Writes (.option upper) inner) :
      Writes (.subscriptItem (.slice lower upper Option.none)) (tokens ++ .colon :: inner)
  | sliceStep {lower upper step tokens inner stepTokens} (h : Writes (.option lower) tokens)
      (hupper : Writes (.option upper) inner)
      (hstep : Writes (.expr .expression step) stepTokens) :
      Writes (.subscriptItem (.slice lower upper (some step)))
        (tokens ++ .colon :: (inner ++ .colon :: stepTokens))
  | subscriptItemsNil : Writes (.subscriptItems []) []
  | subscriptItemsCons {item items tokens inner} (h : Writes (.subscriptItem item) tokens)
      (hrest : Writes (.subscriptItems items) inner) :
      Writes (.subscriptItems (item :: items)) (.comma :: (tokens ++ inner))
  | indexItem {index tokens} (hindex : ∀ element elements, index ≠ .tuple (element :: elements))
      (h : Writes (.subscriptItem index) tokens) : Writes (.index index) tokens
  | indexOne {item tokens} (h : Writes (.subscriptItem item) tokens) :
      Writes (.index (.tuple [item])) (tokens ++ [.comma])
  | indexTuple {item other items tokens inner} (h : Writes (.subscriptItem item) tokens)
      (hrest : Writes (.subscriptItems (other :: items)) inner) :
      Writes (.index (.tuple (item :: other :: items))) (tokens ++ inner)
  | paramPlain (name : String) :
      Writes (.lambdaItem (.param ⟨name, Option.none, Option.none⟩)) [.name name]
  | paramDefault {default tokens} (name : String)
      (h : Writes (.expr .expression default) tokens) :
      Writes (.lambdaItem (.param ⟨name, some default, Option.none⟩))
        (.name name :: .equal :: tokens)
  | slash : Writes (.lambdaItem .slash) [.slash]
  | bareStar : Writes (.lambdaItem .star) [.star]
  | vararg (name : String) : Writes (.lambdaItem (.vararg name)) [.star, .name name]
  | kwarg (name : String) : Writes (.lambdaItem (.kwarg name)) [.doubleStar, .name name]
  | lambdaItemsOne {item tokens} (h : Writes (.lambdaItem item) tokens) :
      Writes (.lambdaItems [item]) tokens
  | lambdaItemsCons {item other items tokens inner} (h : Writes (.lambdaItem item) tokens)
      (hrest : Writes (.lambdaItems (other :: items)) inner) :
      Writes (.lambdaItems (item :: other :: items)) (tokens ++ .comma :: inner)

/-! ## Powers of an awaited value -/

mutual

/-- No power in the expression has an `await` as its left operand. -/
def Expr.plain : Expr → Bool
  | .binary left op right =>
    left.plain && right.plain && !(op == .pow && left.isAwait)
  | .unary _ operand => operand.plain
  | .call func args => func.plain && argsPlain args
  | .list elements => elementsPlain elements
  | .tuple elements => elementsPlain elements
  | .dict entries => entriesPlain entries
  | .subscript value index => value.plain && index.plain
  | .attribute value _ => value.plain
  | .boolOp _ left right => left.plain && right.plain
  | .ifExpr test body orelse => test.plain && body.plain && orelse.plain
  | .lambda posonlyParams params _ _ kwonlyParams body =>
    paramsPlain posonlyParams && paramsPlain params && paramsPlain kwonlyParams && body.plain
  | .await value => value.plain
  | .slice lower upper step => optionPlain lower && optionPlain upper && optionPlain step
  | _ => true

def elementsPlain : List Expr → Bool
  | [] => true
  | element :: elements => element.plain && elementsPlain elements

def optionPlain : Option Expr → Bool
  | none => true
  | some expr => expr.plain

def argsPlain : List CallArg → Bool
  | [] => true
  | arg :: args => arg.plain && argsPlain args

def CallArg.plain : CallArg → Bool
  | .positional value | .keyword _ value | .star value | .doubleStar value => value.plain

def entriesPlain : List DictEntry → Bool
  | [] => true
  | entry :: entries => entry.plain && entriesPlain entries

def DictEntry.plain : DictEntry → Bool
  | .pair key value => key.plain && value.plain
  | .unpack mapping => mapping.plain

def paramsPlain : List Parameter → Bool
  | [] => true
  | param :: params => param.plain && paramsPlain params

def Parameter.plain : Parameter → Bool
  | ⟨_, default, _⟩ => optionPlain default

end

mutual

/-- The tree that the parser makes of an expression's tokens: it awaits the power. -/
def Expr.regroup : Expr → Expr
  | .binary (.await value) .pow right => .await (.binary value.regroup .pow right.regroup)
  | .binary left op right => .binary left.regroup op right.regroup
  | .unary op operand => .unary op operand.regroup
  | .call func args => .call func.regroup (regroupArgs args)
  | .list elements => .list (regroupElements elements)
  | .tuple elements => .tuple (regroupElements elements)
  | .dict entries => .dict (regroupEntries entries)
  | .subscript value index => .subscript value.regroup index.regroup
  | .attribute value name => .attribute value.regroup name
  | .boolOp op left right => .boolOp op left.regroup right.regroup
  | .ifExpr test body orelse => .ifExpr test.regroup body.regroup orelse.regroup
  | .lambda posonlyParams params vararg kwarg kwonlyParams body =>
    .lambda (regroupParams posonlyParams) (regroupParams params) vararg kwarg
      (regroupParams kwonlyParams) body.regroup
  | .await value => .await value.regroup
  | .slice lower upper step =>
    .slice (regroupOption lower) (regroupOption upper) (regroupOption step)
  | expr => expr

def regroupElements : List Expr → List Expr
  | [] => []
  | element :: elements => element.regroup :: regroupElements elements

def regroupOption : Option Expr → Option Expr
  | none => none
  | some expr => some expr.regroup

def regroupArgs : List CallArg → List CallArg
  | [] => []
  | arg :: args => arg.regroup :: regroupArgs args

def CallArg.regroup : CallArg → CallArg
  | .positional value => .positional value.regroup
  | .keyword name value => .keyword name value.regroup
  | .star value => .star value.regroup
  | .doubleStar value => .doubleStar value.regroup

def regroupEntries : List DictEntry → List DictEntry
  | [] => []
  | entry :: entries => entry.regroup :: regroupEntries entries

def DictEntry.regroup : DictEntry → DictEntry
  | .pair key value => .pair key.regroup value.regroup
  | .unpack mapping => .unpack mapping.regroup

def regroupParams : List Parameter → List Parameter
  | [] => []
  | param :: params => param.regroup :: regroupParams params

def Parameter.regroup : Parameter → Parameter
  | ⟨name, default, annotationExpr⟩ => ⟨name, regroupOption default, annotationExpr⟩

end

lemma Expr.exists_of_isAwait {expr : Expr} (h : expr.isAwait = true) :
    ∃ value, expr = .await value := by
  cases expr with
  | await value => exact ⟨value, rfl⟩
  | _ => cases h

mutual

lemma Expr.regroup_eq_iff : ∀ expr : Expr, expr.regroup = expr ↔ expr.plain = true
  | .binary left op right => by
    have hleft := Expr.regroup_eq_iff left
    have hright := Expr.regroup_eq_iff right
    by_cases hpow : op = .pow ∧ left.isAwait = true
    · obtain ⟨rfl, hawait⟩ := hpow
      obtain ⟨value, rfl⟩ := Expr.exists_of_isAwait hawait
      simp [Expr.regroup, Expr.plain, Expr.isAwait]
    · have hregroup : (Expr.binary left op right).regroup =
          .binary left.regroup op right.regroup := by
        rw [Expr.regroup]
        rintro value rfl rfl
        exact hpow ⟨rfl, rfl⟩
      rw [hregroup]
      simp only [Expr.binary.injEq, Expr.plain, hleft, hright, Bool.and_eq_true,
        Bool.not_eq_true', Bool.and_eq_false_iff, beq_eq_false_iff_ne]
      constructor
      · rintro ⟨hl, -, hr⟩
        refine ⟨⟨hl, hr⟩, ?_⟩
        by_cases hop : op = .pow
        · exact .inr (Bool.eq_false_iff.2 fun hawait => hpow ⟨hop, hawait⟩)
        · exact .inl hop
      · rintro ⟨⟨hl, hr⟩, -⟩
        exact ⟨hl, trivial, hr⟩
  | .unary op operand => by
    have hoperand := Expr.regroup_eq_iff operand
    simp [Expr.regroup, Expr.plain, hoperand]
  | .call func args => by
    have hfunc := Expr.regroup_eq_iff func
    have hargs := regroupArgs_eq_iff args
    simp [Expr.regroup, Expr.plain, hfunc, hargs]
  | .list elements => by
    have helements := regroupElements_eq_iff elements
    simp [Expr.regroup, Expr.plain, helements]
  | .tuple elements => by
    have helements := regroupElements_eq_iff elements
    simp [Expr.regroup, Expr.plain, helements]
  | .dict entries => by
    have hentries := regroupEntries_eq_iff entries
    simp [Expr.regroup, Expr.plain, hentries]
  | .subscript value index => by
    have hvalue := Expr.regroup_eq_iff value
    have hindex := Expr.regroup_eq_iff index
    simp [Expr.regroup, Expr.plain, hvalue, hindex]
  | .attribute value name => by
    have hvalue := Expr.regroup_eq_iff value
    simp [Expr.regroup, Expr.plain, hvalue]
  | .boolOp op left right => by
    have hleft := Expr.regroup_eq_iff left
    have hright := Expr.regroup_eq_iff right
    simp [Expr.regroup, Expr.plain, hleft, hright]
  | .ifExpr test body orelse => by
    have htest := Expr.regroup_eq_iff test
    have hbody := Expr.regroup_eq_iff body
    have horelse := Expr.regroup_eq_iff orelse
    simp [Expr.regroup, Expr.plain, htest, hbody, horelse, and_assoc]
  | .lambda posonlyParams params vararg kwarg kwonlyParams body => by
    have hposonly := regroupParams_eq_iff posonlyParams
    have hparams := regroupParams_eq_iff params
    have hkwonly := regroupParams_eq_iff kwonlyParams
    have hbody := Expr.regroup_eq_iff body
    simp [Expr.regroup, Expr.plain, hposonly, hparams, hkwonly, hbody, and_assoc]
  | .await value => by
    have hvalue := Expr.regroup_eq_iff value
    simp [Expr.regroup, Expr.plain, hvalue]
  | .slice lower upper step => by
    have hlower := regroupOption_eq_iff lower
    have hupper := regroupOption_eq_iff upper
    have hstep := regroupOption_eq_iff step
    simp [Expr.regroup, Expr.plain, hlower, hupper, hstep, and_assoc]
  | .name _ | .constant _ | .namedExpr _ _ | .listComp _ _ | .setComp _ _ | .dictComp _ _ _
  | .generatorExp _ _ | .yield _ | .yieldFrom _ | .templateLiteral _ _ => by
    simp [Expr.regroup, Expr.plain]

lemma regroupElements_eq_iff : ∀ elements : List Expr,
    regroupElements elements = elements ↔ elementsPlain elements = true
  | [] => by simp [regroupElements, elementsPlain]
  | element :: elements => by
    have helement := Expr.regroup_eq_iff element
    have helements := regroupElements_eq_iff elements
    simp [regroupElements, elementsPlain, helement, helements]

lemma regroupOption_eq_iff : ∀ option : Option Expr,
    regroupOption option = option ↔ optionPlain option = true
  | none => by simp [regroupOption, optionPlain]
  | some expr => by
    have hexpr := Expr.regroup_eq_iff expr
    simp [regroupOption, optionPlain, hexpr]

lemma regroupArgs_eq_iff : ∀ args : List CallArg,
    regroupArgs args = args ↔ argsPlain args = true
  | [] => by simp [regroupArgs, argsPlain]
  | arg :: args => by
    have harg := CallArg.regroup_eq_iff arg
    have hargs := regroupArgs_eq_iff args
    simp [regroupArgs, argsPlain, harg, hargs]

lemma CallArg.regroup_eq_iff : ∀ arg : CallArg, arg.regroup = arg ↔ arg.plain = true
  | .positional value | .keyword _ value | .star value | .doubleStar value => by
    have hvalue := Expr.regroup_eq_iff value
    simp [CallArg.regroup, CallArg.plain, hvalue]

lemma regroupEntries_eq_iff : ∀ entries : List DictEntry,
    regroupEntries entries = entries ↔ entriesPlain entries = true
  | [] => by simp [regroupEntries, entriesPlain]
  | entry :: entries => by
    have hentry := DictEntry.regroup_eq_iff entry
    have hentries := regroupEntries_eq_iff entries
    simp [regroupEntries, entriesPlain, hentry, hentries]

lemma DictEntry.regroup_eq_iff : ∀ entry : DictEntry, entry.regroup = entry ↔ entry.plain = true
  | .pair key value => by
    have hkey := Expr.regroup_eq_iff key
    have hvalue := Expr.regroup_eq_iff value
    simp [DictEntry.regroup, DictEntry.plain, hkey, hvalue]
  | .unpack mapping => by
    have hmapping := Expr.regroup_eq_iff mapping
    simp [DictEntry.regroup, DictEntry.plain, hmapping]

lemma regroupParams_eq_iff : ∀ params : List Parameter,
    regroupParams params = params ↔ paramsPlain params = true
  | [] => by simp [regroupParams, paramsPlain]
  | param :: params => by
    have hparam := Parameter.regroup_eq_iff param
    have hparams := regroupParams_eq_iff params
    simp [regroupParams, paramsPlain, hparam, hparams]

lemma Parameter.regroup_eq_iff : ∀ param : Parameter,
    param.regroup = param ↔ param.plain = true
  | ⟨name, default, annotationExpr⟩ => by
    have hdefault := regroupOption_eq_iff default
    simp [Parameter.regroup, Parameter.plain, hdefault]

end

/-! ## Reading at a level -/

lemma eventually_of_succ {p : ℕ → Prop} (h : ∀ᶠ depth in atTop, p (depth + 1)) :
    ∀ᶠ depth in atTop, p depth := by
  rw [← map_add_atTop_eq_nat 1]
  exact eventually_map.2 h

/-- The function of the level reads the tokens as the expression and goes on with its loop. -/
def Reads (level : Precedence) (tokens : List Token) (expr : Expr) : Prop :=
  ∀ rest result, Stops level.after rest →
    (∀ᶠ depth in atTop, level.loop depth expr rest = result) →
      ∀ᶠ depth in atTop, level.parse depth (tokens ++ rest) = result

section Stops

variable {level : Precedence} {token : Token} {rest : List Token}

lemma Stops.mono {low high : Precedence} (h : Stops low rest) (hle : low.rank ≤ high.rank) :
    Stops high rest :=
  fun token htoken binding hbinding => (h token htoken binding hbinding).trans_le hle

lemma Stops.false (h : Stops level (token :: rest)) {binding : Precedence}
    (hbinding : token.continues = some binding) (hle : level.rank ≤ binding.rank) : False :=
  absurd (h token rfl binding hbinding) (Nat.not_lt.2 hle)

/-- A token that goes on with nothing ends an expression of any level. -/
lemma stops_of_none (h : token.continues = none) : Stops level (token :: rest) := by
  intro other hother binding hbinding
  obtain rfl : token = other := Option.some.inj hother
  rw [h] at hbinding
  cases hbinding

lemma stops_nil : Stops level [] := fun _ h => absurd h (by simp)

lemma stops_of_lt {binding : Precedence} (h : token.continues = some binding)
    (hlt : binding.rank < level.rank) : Stops level (token :: rest) := by
  intro other hother binding' hbinding
  obtain rfl : token = other := Option.some.inj hother
  rw [h] at hbinding
  obtain rfl := Option.some.inj hbinding
  exact hlt

lemma rank_le_after (level : Precedence) : level.rank ≤ level.after.rank := by
  cases level <;> decide

end Stops

/-! ### The loops -/

lemma operator_continues {level : BinaryLevel} {token : Token} {build : Expr → Expr → Expr}
    (h : level.operator token = some build) :
    token.continues = some level.precedence := by
  unfold BinaryLevel.operator at h
  split at h <;> first | rfl | cases h

lemma precedence_parse (level : BinaryLevel) (depth : ℕ) (tokens : List Token) :
    level.precedence.parse depth tokens = parseBinary depth level tokens := by
  cases level <;> rfl

lemma precedence_loop (level : BinaryLevel) (depth : ℕ) (left : Expr) (tokens : List Token) :
    level.precedence.loop depth left tokens = parseBinaryLoop depth level left tokens := by
  cases level <;> rfl

lemma precedence_after (level : BinaryLevel) :
    level.precedence.after = level.precedence.tighter := by
  cases level <;> rfl

lemma parseOperand_succ (level : BinaryLevel) (depth : ℕ) (tokens : List Token) :
    parseOperand (depth + 1) level tokens = level.precedence.tighter.parse depth tokens := by
  cases level <;> rfl

lemma parseBinaryLoop_stops {level : BinaryLevel} {rest : List Token}
    (h : Stops level.precedence rest) (left : Expr) :
    ∀ᶠ depth in atTop, parseBinaryLoop depth level left rest = .ok (left, rest) := by
  refine eventually_of_succ (.of_forall fun depth => ?_)
  cases rest with
  | nil => rw [parseBinaryLoop]
  | cons token rest =>
    rw [parseBinaryLoop]
    have hoperator : level.operator token = none := by
      cases hoperator : level.operator token with
      | none => rfl
      | some build => exact (h.false (operator_continues hoperator) le_rfl).elim
    simp only [hoperator]

lemma parseTrailers_stops {rest : List Token} (h : Stops .primary rest) (expr : Expr) :
    ∀ᶠ depth in atTop, parseTrailers depth expr rest = .ok (expr, rest) := by
  refine eventually_of_succ (.of_forall fun depth => ?_)
  rw [parseTrailers] <;> intros <;> subst_vars <;> exact h.false rfl le_rfl

lemma parseComparisonOp_stops {rest : List Token} (h : Stops .comparison rest) :
    parseComparisonOp rest = none := by
  unfold parseComparisonOp
  split <;> first | rfl | exact (h.false rfl le_rfl).elim

/-- Where nothing goes on with the expression, the loop of a level ends. -/
lemma loop_stops {level : Precedence} {rest : List Token} (h : Stops level rest) (expr : Expr) :
    ∀ᶠ depth in atTop, level.loop depth expr rest = .ok (expr, rest) := by
  have hbinary : ∀ binary : BinaryLevel, binary.precedence = level →
      ∀ᶠ depth in atTop, level.loop depth expr rest = .ok (expr, rest) := by
    rintro binary rfl
    simp only [precedence_loop]
    exact parseBinaryLoop_stops h expr
  cases level with
  | disjunction => exact hbinary .or rfl
  | conjunction => exact hbinary .and rfl
  | bitwiseOr => exact hbinary .bitOr rfl
  | bitwiseXor => exact hbinary .bitXor rfl
  | bitwiseAnd => exact hbinary .bitAnd rfl
  | shift => exact hbinary .shift rfl
  | sum => exact hbinary .addSub rfl
  | term => exact hbinary .mul rfl
  | primary => exact parseTrailers_stops h expr
  | _ => exact .of_forall fun _ => rfl

namespace Reads

variable {level : Precedence} {tokens rest : List Token} {expr : Expr}

/-- The function of the level stops where no token goes on with the expression. -/
lemma direct (h : Reads level tokens expr) (hrest : Stops level rest) :
    ∀ᶠ depth in atTop, level.parse depth (tokens ++ rest) = .ok (expr, rest) :=
  h rest _ (hrest.mono (rank_le_after level)) (loop_stops hrest expr)

/-! ### From a level to the looser one -/

lemma binary_step {level : BinaryLevel} (h : Reads level.precedence.tighter tokens expr) :
    Reads level.precedence tokens expr := by
  intro rest result hrest hloop
  rw [precedence_after] at hrest
  have hoperand : ∀ᶠ depth in atTop,
      parseOperand depth level (tokens ++ rest) = .ok (expr, rest) := by
    apply eventually_of_succ
    simp only [parseOperand_succ]
    exact h.direct hrest
  simp only [precedence_loop] at hloop
  simp only [precedence_parse]
  apply eventually_of_succ
  filter_upwards [hoperand, hloop] with depth hoperand hloop
  rw [parseBinary, hoperand]
  exact hloop

/-- An expression that is no lambda. -/
lemma parseExprAt_of_named {result : Except String (Expr × List Token)}
    (hstarts : Starts .disjunction tokens)
    (h : ∀ᶠ depth in atTop, parseNamedExpr depth (tokens ++ rest) = result) :
    ∀ᶠ depth in atTop, parseExprAt depth (tokens ++ rest) = result := by
  obtain ⟨token, tail, binding, rfl, hbegins, hrank⟩ := hstarts
  apply eventually_of_succ
  filter_upwards [h] with depth h
  rw [parseExprAt]
  · exact h
  · intro _ heq
    obtain rfl := (List.cons.inj heq).1
    cases hbegins
  · intro _ heq
    obtain rfl := (List.cons.inj heq).1
    cases hbegins
    exact absurd hrank (by decide)

lemma expression_step (hstarts : Starts .disjunction tokens)
    (h : Reads .disjunction tokens expr) : Reads .expression tokens expr := by
  intro rest result hrest hloop
  have hor := h.direct (hrest.mono (by decide))
  have hif : ∀ᶠ depth in atTop, parseIfExpr depth (tokens ++ rest) = .ok (expr, rest) := by
    apply eventually_of_succ
    filter_upwards [hor] with depth hor
    have hor : parseBinary depth .or (tokens ++ rest) = .ok (expr, rest) := hor
    rw [parseIfExpr, hor]
    simp only [bind, Except.bind]
    split
    · exact (hrest.false rfl le_rfl).elim
    · rfl
  have hnamed : ∀ᶠ depth in atTop, parseNamedExpr depth (tokens ++ rest) = .ok (expr, rest) := by
    apply eventually_of_succ
    filter_upwards [hif] with depth hif
    rw [parseNamedExpr, hif]
    simp only [bind, Except.bind]
    split
    · exact (hrest.false rfl le_rfl).elim
    · rfl
  filter_upwards [parseExprAt_of_named hstarts hnamed, hloop] with depth hparse hloop
  exact hparse.trans hloop

lemma inversion_step (hstarts : Starts .comparison tokens)
    (h : Reads .comparison tokens expr) : Reads .inversion tokens expr := by
  intro rest result hrest hloop
  have hcomparison := h.direct (hrest.mono (by decide))
  obtain ⟨token, tail, binding, rfl, hbegins, hrank⟩ := hstarts
  apply eventually_of_succ
  filter_upwards [hcomparison, hloop] with depth hcomparison hloop
  change parseNot (depth + 1) _ = _
  rw [parseNot]
  · exact Eq.trans hcomparison hloop
  · intro _ heq
    obtain rfl := (List.cons.inj heq).1
    cases hbegins
    exact absurd hrank (by decide)

lemma comparison_step (h : Reads .bitwiseOr tokens expr) : Reads .comparison tokens expr := by
  intro rest result hrest hloop
  have hbitwise := h.direct (hrest.mono (by decide))
  apply eventually_of_succ
  filter_upwards [hbitwise, hloop] with depth hbitwise hloop
  have hbitwise : parseBinary depth .bitOr (tokens ++ rest) = .ok (expr, rest) := hbitwise
  change parseComparison (depth + 1) _ = _
  rw [parseComparison, hbitwise]
  simp only [bind, Except.bind, parseComparisonOp_stops hrest]
  exact hloop

/-- An operand with no power after it. -/
lemma power (h : Reads .primary tokens expr) (hrest : Stops .factor rest) :
    ∀ᶠ depth in atTop, parsePower depth (tokens ++ rest) = .ok (expr, rest) := by
  have hatom := h.direct (hrest.mono (by decide))
  apply eventually_of_succ
  filter_upwards [hatom] with depth hatom
  have hatom : parseAtom depth (tokens ++ rest) = .ok (expr, rest) := hatom
  rw [parsePower, hatom]
  simp only [bind, Except.bind]
  split
  · exact (hrest.false rfl (by decide)).elim
  · rfl

lemma prefixOperator_eq_none {token : Token} {binding : Precedence}
    (hbegins : token.begins = some binding) (hrank : Precedence.primary.rank ≤ binding.rank) :
    prefixOperator token = none := by
  unfold prefixOperator
  split
  all_goals first
    | rfl
    | (cases hbegins
       exact absurd hrank (by decide))

/-- An operand after no prefix operator. -/
lemma unary_of_power {result : Except String (Expr × List Token)} (hstarts : Starts .primary tokens)
    (h : ∀ᶠ depth in atTop, parsePower depth (tokens ++ rest) = result) :
    ∀ᶠ depth in atTop, parseUnary depth (tokens ++ rest) = result := by
  obtain ⟨token, tail, binding, rfl, hbegins, hrank⟩ := hstarts
  apply eventually_of_succ
  filter_upwards [h] with depth h
  rw [List.cons_append, parseUnary]
  simp only [prefixOperator_eq_none hbegins hrank]
  exact h

lemma factor_step (hstarts : Starts .primary tokens) (h : Reads .primary tokens expr) :
    Reads .factor tokens expr := by
  intro rest result hrest hloop
  have hunary := unary_of_power hstarts (h.power hrest)
  filter_upwards [hunary, hloop] with depth hunary hloop
  exact hunary.trans hloop

/-- What the operands of a level are, the level is. -/
lemma step (hstarts : Starts level.tighter tokens) (h : Reads level.tighter tokens expr)
    (hlevel : level.code = level) (hne : level ≠ .primary) : Reads level tokens expr := by
  have hbinary : ∀ binary : BinaryLevel, Reads binary.precedence.tighter tokens expr →
      Reads binary.precedence tokens expr := fun _ h => binary_step h
  cases level with
  | expression => exact expression_step hstarts h
  | disjunction => exact hbinary .or h
  | conjunction => exact hbinary .and h
  | inversion => exact inversion_step hstarts h
  | comparison => exact comparison_step h
  | bitwiseOr => exact hbinary .bitOr h
  | bitwiseXor => exact hbinary .bitXor h
  | bitwiseAnd => exact hbinary .bitAnd h
  | shift => exact hbinary .shift h
  | sum => exact hbinary .addSub h
  | term => exact hbinary .mul h
  | factor => exact factor_step hstarts h
  | power => cases hlevel
  | awaitPrimary => cases hlevel
  | primary => exact absurd rfl hne
  | literal => exact h

end Reads

lemma Starts.mono {low high : Precedence} {tokens : List Token} (h : Starts high tokens)
    (hle : low.rank ≤ high.rank) : Starts low tokens := by
  obtain ⟨token, rest, binding, htokens, hbegins, hrank⟩ := h
  exact ⟨token, rest, binding, htokens, hbegins, hle.trans hrank⟩

/-- An expression of a level can stand where a looser one is asked for. -/
lemma Reads.loosen {low high : Precedence} {tokens : List Token} {expr : Expr}
    (hle : low.rank ≤ high.rank) (hlow : low.code = low) (hhigh : high.code = high)
    (hne : high ≠ .literal) (hstarts : Starts high tokens) (h : Reads high tokens expr) :
    Reads low tokens expr := by
  by_cases heq : low = high
  · exact heq ▸ h
  have hnext : low.rank < low.tighter.rank ∧ low.tighter.rank ≤ high.rank ∧
      low.tighter.code = low.tighter ∧ low ≠ .primary := by
    clear hstarts h
    cases low <;> cases high <;> first
      | exact absurd rfl heq
      | exact absurd rfl hne
      | exact absurd hle (by decide)
      | exact absurd hlow (by decide)
      | exact absurd hhigh (by decide)
      | decide
  obtain ⟨hlt, hnextLe, hcode, hprimary⟩ := hnext
  have htighter := Reads.loosen hnextLe hcode hhigh hne hstarts h
  exact Reads.step (hstarts.mono hnextLe) htighter hlow hprimary
termination_by high.rank - low.rank
decreasing_by omega

/-! ## The parts of expressions -/

/-- The tokens of operators go on with nothing looser than their level. -/
lemma arithmetic_operator {op : BinaryOp} {level : Precedence} {token : Token}
    (h : op.isArithmetic = some (level, token)) : ∃ binary : BinaryLevel,
      binary.precedence = level ∧ token.continues = some level ∧
        ∃ build, binary.operator token = some build ∧
          ∀ left right, build left right = .binary left op right := by
  cases op <;> first
    | (cases h; done)
    | (cases h
       first
       | exact ⟨.bitOr, rfl, rfl, _, rfl, fun _ _ => rfl⟩
       | exact ⟨.bitXor, rfl, rfl, _, rfl, fun _ _ => rfl⟩
       | exact ⟨.bitAnd, rfl, rfl, _, rfl, fun _ _ => rfl⟩
       | exact ⟨.shift, rfl, rfl, _, rfl, fun _ _ => rfl⟩
       | exact ⟨.addSub, rfl, rfl, _, rfl, fun _ _ => rfl⟩
       | exact ⟨.mul, rfl, rfl, _, rfl, fun _ _ => rfl⟩)

namespace Reads

variable {level : Precedence} {tokens inner rest : List Token} {expr left right : Expr}

/-- An operator that groups to the left, between its operands. -/
lemma binary {level : BinaryLevel} {token : Token} {build : Expr → Expr → Expr}
    (hop : level.operator token = some build) (hleft : Reads level.precedence tokens left)
    (hright : Reads level.precedence.tighter inner right) :
    Reads level.precedence (tokens ++ token :: inner) (build left right) := by
  intro rest result hrest hloop
  rw [List.append_assoc, List.cons_append]
  have hcontinues := operator_continues hop
  refine hleft _ result (stops_of_lt hcontinues ?_) ?_
  · rw [precedence_after]
    cases level <;> decide
  · have hoperand : ∀ᶠ depth in atTop,
        parseOperand depth level (inner ++ rest) = .ok (right, rest) := by
      apply eventually_of_succ
      simp only [parseOperand_succ]
      exact hright.direct (precedence_after level ▸ hrest)
    simp only [precedence_loop] at hloop ⊢
    apply eventually_of_succ
    filter_upwards [hoperand, hloop] with depth hoperand hloop
    rw [parseBinaryLoop]
    simp only [hop, hoperand]
    exact hloop

lemma comparison {op : BinaryOp} {opTokens : List Token}
    (hop : op.comparisonTokens = some opTokens) (hinner : Starts .bitwiseOr inner)
    (hleft : Reads .bitwiseOr tokens left) (hright : Reads .bitwiseOr inner right) :
    Reads .comparison (tokens ++ opTokens ++ inner) (.binary left op right) := by
  intro rest result hrest hloop
  obtain ⟨token, tail, binding, rfl, hbegins, hrank⟩ := hinner
  have hread : parseComparisonOp (opTokens ++ (token :: tail ++ rest)) =
      some (op, token :: tail ++ rest) := by
    cases op <;> cases hop <;> first
      | rfl
      | (rw [List.singleton_append, parseComparisonOp]
         intro _ heq
         obtain rfl := (List.cons.inj heq).1
         cases hbegins
         exact absurd hrank (by decide))
  have hstops : Stops .bitwiseOr (opTokens ++ (token :: tail ++ rest)) := by
    cases op <;> cases hop <;> exact stops_of_lt rfl (by decide)
  have hleft := hleft.direct hstops
  have hright := hright.direct (hrest.mono (by decide))
  have hend : ∀ᶠ depth in atTop, parseComparisonLoop depth (.binary left op right) right rest =
      .ok (.binary left op right, rest) := by
    refine eventually_of_succ (.of_forall fun depth => ?_)
    rw [parseComparisonLoop, parseComparisonOp_stops hrest]
  rw [List.append_assoc, List.append_assoc]
  apply eventually_of_succ
  filter_upwards [hleft, hright, hend, hloop] with depth hleft hright hend hloop
  have hleft : parseBinary depth .bitOr (tokens ++ (opTokens ++ (token :: tail ++ rest))) =
    .ok (left, _) := hleft
  have hright : parseBinary depth .bitOr (token :: tail ++ rest) = .ok (right, rest) := hright
  change parseComparison (depth + 1) _ = _
  rw [parseComparison, hleft]
  simp only [bind, Except.bind, hread, hright, hend]
  exact hloop

lemma not (h : Reads .inversion tokens expr) :
    Reads .inversion (.keyword .not :: tokens) (.unary .not expr) := by
  intro rest result hrest hloop
  have hoperand := h.direct hrest
  apply eventually_of_succ
  filter_upwards [hoperand, hloop] with depth hoperand hloop
  have hoperand : parseNot depth (tokens ++ rest) = .ok (expr, rest) := hoperand
  change parseNot (depth + 1) (.keyword .not :: (tokens ++ rest)) = _
  rw [parseNot, hoperand]
  exact hloop

/-- A prefix operator before the function of the level itself. -/
lemma unary_prefix {token : Token} {build : Expr → Expr}
    (hop : prefixOperator token = some build)
    (h : ∀ᶠ depth in atTop, parseUnary depth (tokens ++ rest) = .ok (expr, rest)) :
    ∀ᶠ depth in atTop, parseUnary depth (token :: tokens ++ rest) = .ok (build expr, rest) := by
  apply eventually_of_succ
  filter_upwards [h] with depth h
  rw [List.cons_append, parseUnary]
  simp only [hop, h]
  rfl

/-- A power, which a prefix operator takes as its operand. -/
lemma power_pow (hleft : Reads .primary tokens left) (hright : Reads .factor inner right)
    (hrest : Stops .factor rest) : ∀ᶠ depth in atTop,
      parsePower depth (tokens ++ .doubleStar :: inner ++ rest) =
        .ok (.binary left .pow right, rest) := by
  rw [List.append_assoc, List.cons_append]
  have hstops : Stops .primary (.doubleStar :: (inner ++ rest)) := stops_of_lt rfl (by decide)
  have hleft := hleft.direct hstops
  have hright := hright.direct hrest
  apply eventually_of_succ
  filter_upwards [hleft, hright] with depth hleft hright
  have hleft : parseAtom depth (tokens ++ .doubleStar :: (inner ++ rest)) = .ok (left, _) := hleft
  have hright : parseUnary depth (inner ++ rest) = .ok (right, rest) := hright
  rw [parsePower, hleft]
  simp only [bind, Except.bind, hright]

/-- A read that ends where nothing goes on with it, at a level without a loop. -/
lemma of_direct (hafter : level.after = level)
    (hloop : ∀ depth left tokens, level.loop depth left tokens = .ok (left, tokens))
    (h : ∀ rest, Stops level rest →
      ∀ᶠ depth in atTop, level.parse depth (tokens ++ rest) = .ok (expr, rest)) :
    Reads level tokens expr := by
  intro rest result hrest hresult
  rw [hafter] at hrest
  filter_upwards [h rest hrest, hresult] with depth h hresult
  rw [hloop] at hresult
  exact h.trans hresult

lemma factor_of_direct (h : ∀ rest, Stops .factor rest →
    ∀ᶠ depth in atTop, parseUnary depth (tokens ++ rest) = .ok (expr, rest)) :
    Reads .factor tokens expr :=
  of_direct rfl (fun _ _ _ => rfl) h

end Reads

/-! ## Atoms and trailers -/

lemma starts_ne {level : Precedence} {tokens more rest : List Token} {token : Token}
    (h : Starts level tokens) (hbegins : token.begins = none)
    (heq : tokens ++ more = token :: rest) : False := by
  obtain ⟨first, tail, binding, rfl, hfirst, _⟩ := h
  obtain rfl := (List.cons.inj heq).1
  rw [hfirst] at hbegins
  cases hbegins

/-- The tokens read as an expression on their own. -/
structure ReadsExpr (tokens : List Token) (expr : Expr) : Prop where
  starts : Starts .expression tokens
  reads : Reads .expression tokens expr

namespace ReadsExpr

variable {tokens rest : List Token} {expr : Expr}

lemma parse (h : ReadsExpr tokens expr) (hrest : Stops .expression rest) :
    ∀ᶠ depth in atTop, parseExprAt depth (tokens ++ rest) = .ok (expr, rest) :=
  h.reads.direct hrest

lemma element (h : ReadsExpr tokens expr) (hrest : Stops .expression rest) :
    ∀ᶠ depth in atTop, parseSequenceElement depth (tokens ++ rest) = .ok (expr, rest) := by
  apply eventually_of_succ
  filter_upwards [h.parse hrest] with depth hparse
  rw [parseSequenceElement]
  · exact hparse
  · exact fun _ heq => starts_ne h.starts rfl heq

end ReadsExpr

lemma not_comprehension {rest : List Token} (h : Stops .expression rest) :
    isComprehensionStart rest = false := by
  unfold isComprehensionStart
  split
  · exact (h.false rfl le_rfl).elim
  · exact (h.false rfl le_rfl).elim
  · rfl

/-- A token that ends a display or a list of arguments. -/
structure Closes (token : Token) : Prop where
  begins : token.begins = none
  continues : token.continues = none
  ne_comma : token ≠ .comma

lemma closes_rParen : Closes .rParen := ⟨rfl, rfl, by decide⟩

lemma closes_rBracket : Closes .rBracket := ⟨rfl, rfl, by decide⟩

/-- Nothing, or tokens after a comma. -/
def Tail (tokens : List Token) : Prop := tokens = [] ∨ ∃ rest, tokens = .comma :: rest

lemma Tail.stops {tokens rest : List Token} {close : Token} (h : Tail tokens)
    (hclose : close.continues = none) (level : Precedence) :
    Stops level (tokens ++ close :: rest) := by
  obtain rfl | ⟨tail, rfl⟩ := h
  · exact stops_of_none hclose
  · exact stops_of_none rfl

namespace Reads

variable {tokens inner rest : List Token} {expr value : Expr}

lemma atom {token : Token} (h : ∀ depth rest, parseAtom (depth + 1) (token :: rest) =
      parseTrailers depth expr rest) : Reads .primary [token] expr := by
  intro rest result _ hloop
  apply eventually_of_succ
  filter_upwards [hloop] with depth hloop
  exact (h depth rest).trans hloop

/-- A string is joined with the strings after it. -/
lemma str (value : String) : Reads .primary [.string value] (.constant (.str value)) := by
  intro rest result hrest hloop
  have hnone : parseStringSequence rest = .ok ("", rest) := by
    unfold parseStringSequence
    split <;> first | exact (hrest.false rfl le_rfl).elim | rfl
  apply eventually_of_succ
  filter_upwards [hloop] with depth hloop
  have hstring : parseStringSequence (.string value :: rest) = .ok (value, rest) := by
    rw [parseStringSequence, hnone]
    simp
  change parseAtom (depth + 1) (.string value :: rest) = _
  rw [parseAtom]
  simp only [bind, Except.bind, hstring]
  exact hloop

lemma lParen (h : ∀ rest, ∀ᶠ depth in atTop, parseParenExpr depth (inner ++ rest) =
    .ok (expr, rest)) : Reads .primary (.lParen :: inner) expr := by
  intro rest result _ hloop
  apply eventually_of_succ
  filter_upwards [h rest, hloop] with depth h hloop
  change parseAtom (depth + 1) (.lParen :: (inner ++ rest)) = _
  rw [parseAtom]
  simp only [bind, Except.bind, h]
  exact hloop

lemma lBracket (h : ∀ rest, ∀ᶠ depth in atTop, parseListOrComp depth (inner ++ rest) =
    .ok (expr, rest)) : Reads .primary (.lBracket :: inner) expr := by
  intro rest result _ hloop
  apply eventually_of_succ
  filter_upwards [h rest, hloop] with depth h hloop
  change parseAtom (depth + 1) (.lBracket :: (inner ++ rest)) = _
  rw [parseAtom]
  simp only [bind, Except.bind, h]
  exact hloop

lemma lBrace (h : ∀ rest, ∀ᶠ depth in atTop, parseDictOrComp depth (inner ++ rest) =
    .ok (expr, rest)) : Reads .primary (.lBrace :: inner) expr := by
  intro rest result _ hloop
  apply eventually_of_succ
  filter_upwards [h rest, hloop] with depth h hloop
  change parseAtom (depth + 1) (.lBrace :: (inner ++ rest)) = _
  rw [parseAtom]
  simp only [bind, Except.bind, h]
  exact hloop

/-- What follows a value and belongs to it. -/
lemma trailer {token : Token} (hvalue : Reads .primary tokens value)
    (htoken : token.continues = some .primary)
    (h : ∀ rest result, (∀ᶠ depth in atTop, parseTrailers depth expr rest = result) →
      ∀ᶠ depth in atTop, parseTrailers depth value (token :: (inner ++ rest)) = result) :
    Reads .primary (tokens ++ token :: inner) expr := by
  intro rest result _ hloop
  rw [List.append_assoc, List.cons_append]
  exact hvalue _ result (stops_of_lt htoken (by decide)) (h rest result hloop)

lemma member (name : String) (h : Reads .primary tokens value) :
    Reads .primary (tokens ++ [.dot, .name name]) (.attribute value name) := by
  refine h.trailer rfl fun rest result hloop => ?_
  apply eventually_of_succ
  filter_upwards [hloop] with depth hloop
  exact hloop

lemma call {args : List CallArg} (h : Reads .primary tokens value)
    (hargs : ∀ rest, ∀ᶠ depth in atTop, parseCallArgs depth (inner ++ rest) = .ok (args, rest)) :
    Reads .primary (tokens ++ .lParen :: inner) (.call value args) := by
  refine h.trailer rfl fun rest result hloop => ?_
  apply eventually_of_succ
  filter_upwards [hargs rest, hloop] with depth hargs hloop
  rw [parseTrailers, hargs]
  exact hloop

lemma subscript {index : Expr} (h : Reads .primary tokens value)
    (hindex : ∀ rest, ∀ᶠ depth in atTop, parseSubscript depth (inner ++ rest) =
      .ok (index, rest)) :
    Reads .primary (tokens ++ .lBracket :: inner) (.subscript value index) := by
  refine h.trailer rfl fun rest result hloop => ?_
  apply eventually_of_succ
  filter_upwards [hindex rest, hloop] with depth hindex hloop
  rw [parseTrailers, hindex]
  exact hloop

end Reads

/-! ### Displays -/

/-- What `parse_elements` makes of elements after commas. -/
structure ReadsElements (tokens : List Token) (elements : List Expr) : Prop where
  tail : Tail tokens
  parse : ∀ close rest, Closes close → ∀ᶠ depth in atTop,
    parseElements depth close (tokens ++ close :: rest) = .ok (elements, close :: rest)

lemma readsElements_nil : ReadsElements [] [] := by
  refine ⟨.inl rfl, fun close rest hclose => eventually_of_succ (.of_forall fun depth => ?_)⟩
  rw [List.nil_append, parseElements]
  exact fun _ heq => hclose.ne_comma (List.cons.inj heq).1

lemma readsElements_cons {tokens inner : List Token} {element : Expr} {elements : List Expr}
    (h : ReadsExpr tokens element) (hrest : ReadsElements inner elements) :
    ReadsElements (.comma :: (tokens ++ inner)) (element :: elements) := by
  refine ⟨.inr ⟨_, rfl⟩, fun close rest hclose => ?_⟩
  have helement := h.element (@Tail.stops _ rest _ hrest.tail hclose.continues .expression)
  apply eventually_of_succ
  filter_upwards [helement, hrest.parse close rest hclose] with depth helement hparse
  have hhead : (tokens ++ (inner ++ close :: rest)).head? ≠ some close := by
    intro hhead
    obtain ⟨tail, heq⟩ := List.head?_eq_some_iff.1 hhead
    exact starts_ne h.starts hclose.begins heq
  rw [List.cons_append, List.append_assoc, parseElements, if_neg hhead, helement]
  simp only [bind, Except.bind, hparse]

lemma paren_reads {tokens : List Token} {expr : Expr} (h : ReadsExpr tokens expr) :
    Reads .primary (.lParen :: tokens ++ [.rParen]) expr := by
  change Reads .primary (.lParen :: (tokens ++ [.rParen])) expr
  refine Reads.lParen fun rest => ?_
  rw [List.append_assoc, List.singleton_append]
  have hstops : Stops .expression (.rParen :: rest) := stops_of_none rfl
  apply eventually_of_succ
  filter_upwards [h.element hstops] with depth helement
  rw [parseParenExpr, helement]
  · simp only [bind, Except.bind, not_comprehension hstops]
    rfl
  · exact fun _ heq => starts_ne h.starts rfl heq

lemma tupleEmpty_reads : Reads .primary [.lParen, .rParen] (.tuple []) :=
  Reads.lParen fun _ => eventually_of_succ (.of_forall fun _ => rfl)

lemma tupleOne_reads {tokens : List Token} {element : Expr} (h : ReadsExpr tokens element) :
    Reads .primary (.lParen :: (tokens ++ [.comma, .rParen])) (.tuple [element]) := by
  refine Reads.lParen fun rest => ?_
  rw [List.append_assoc]
  have hstops : Stops .expression (.comma :: .rParen :: rest) := stops_of_none rfl
  have hend : ∀ᶠ depth in atTop, parseElements depth .rParen (.comma :: .rParen :: rest) =
      .ok ([], .rParen :: rest) := eventually_of_succ (.of_forall fun _ => rfl)
  apply eventually_of_succ
  filter_upwards [h.element hstops, hend] with depth helement hend
  change parseParenExpr (depth + 1) (tokens ++ .comma :: .rParen :: rest) = _
  rw [parseParenExpr, helement]
  · simp only [bind, Except.bind, not_comprehension hstops, hend]
    rfl
  · exact fun _ heq => starts_ne h.starts rfl heq

lemma tuple_reads {tokens inner : List Token} {element other : Expr} {elements : List Expr}
    (h : ReadsExpr tokens element) (hrest : ReadsElements inner (other :: elements))
    (hinner : inner ≠ []) :
    Reads .primary (.lParen :: (tokens ++ inner ++ [.rParen]))
      (.tuple (element :: other :: elements)) := by
  obtain rfl | ⟨tail, rfl⟩ := hrest.tail
  · exact absurd rfl hinner
  refine Reads.lParen fun rest => ?_
  rw [List.append_assoc, List.append_assoc, List.singleton_append]
  have hstops : Stops .expression (.comma :: (tail ++ .rParen :: rest)) := stops_of_none rfl
  apply eventually_of_succ
  filter_upwards [h.element hstops, hrest.parse .rParen rest closes_rParen] with depth
    helement hparse
  rw [List.cons_append] at hparse ⊢
  rw [parseParenExpr, helement]
  · simp only [bind, Except.bind, not_comprehension hstops, hparse]
    rfl
  · exact fun _ heq => starts_ne h.starts rfl heq

lemma listEmpty_reads : Reads .primary [.lBracket, .rBracket] (.list []) :=
  Reads.lBracket fun _ => eventually_of_succ (.of_forall fun _ => rfl)

lemma list_reads {tokens inner : List Token} {element : Expr} {elements : List Expr}
    (h : ReadsExpr tokens element) (hrest : ReadsElements inner elements) :
    Reads .primary (.lBracket :: (tokens ++ inner ++ [.rBracket]))
      (.list (element :: elements)) := by
  refine Reads.lBracket fun rest => ?_
  rw [List.append_assoc, List.append_assoc, List.singleton_append]
  have hstops : Stops .expression (inner ++ .rBracket :: rest) := hrest.tail.stops rfl _
  apply eventually_of_succ
  filter_upwards [h.element hstops, hrest.parse .rBracket rest closes_rBracket] with depth
    helement hparse
  rw [parseListOrComp, helement]
  · simp only [bind, Except.bind, not_comprehension hstops, hparse]
    rfl
  · exact fun _ heq => starts_ne h.starts rfl heq

/-! ### Dicts -/

/-- What an entry of a dict is made of. -/
inductive ReadsEntry : List Token → DictEntry → Prop
  | pair {tokens inner key value} (hkey : ReadsExpr tokens key) (hvalue : ReadsExpr inner value) :
      ReadsEntry (tokens ++ .colon :: inner) (.pair key value)
  | unpack {tokens mapping} (h : ReadsExpr tokens mapping) :
      ReadsEntry (.doubleStar :: tokens) (.unpack mapping)

structure ReadsEntries (tokens : List Token) (entries : List DictEntry) : Prop where
  tail : Tail tokens
  parse : ∀ rest, ∀ᶠ depth in atTop,
    parseDictEntries depth (tokens ++ .rBrace :: rest) = .ok (entries, .rBrace :: rest)

lemma readsEntries_nil : ReadsEntries [] [] :=
  ⟨.inl rfl, fun _ => eventually_of_succ (.of_forall fun _ => rfl)⟩

lemma readsEntries_cons {tokens inner : List Token} {entry : DictEntry}
    {entries : List DictEntry} (h : ReadsEntry tokens entry)
    (hrest : ReadsEntries inner entries) :
    ReadsEntries (.comma :: (tokens ++ inner)) (entry :: entries) := by
  refine ⟨.inr ⟨_, rfl⟩, fun rest => ?_⟩
  have hstops : Stops .expression (inner ++ .rBrace :: rest) := hrest.tail.stops rfl _
  rw [List.cons_append, List.append_assoc]
  cases h with
  | pair hkey hvalue =>
    rename_i keyTokens valueTokens key value
    rw [List.append_assoc, List.cons_append]
    have hcolon : Stops .expression (.colon :: (valueTokens ++ (inner ++ .rBrace :: rest))) :=
      stops_of_none rfl
    apply eventually_of_succ
    filter_upwards [hkey.parse hcolon, hvalue.parse hstops, hrest.parse rest] with depth
      hkeyParse hvalueParse hparse
    rw [parseDictEntries, hkeyParse]
    · simp only [bind, Except.bind, expectKind, if_true, hvalueParse, hparse]
    · exact fun _ heq => starts_ne hkey.starts rfl heq
    · exact fun _ heq => starts_ne hkey.starts rfl heq
  | unpack hmapping =>
    apply eventually_of_succ
    filter_upwards [hmapping.parse hstops, hrest.parse rest] with depth hmapping hparse
    rw [List.cons_append, parseDictEntries, hmapping]
    simp only [bind, Except.bind, hparse]

lemma dictEmpty_reads : Reads .primary [.lBrace, .rBrace] (.dict []) :=
  Reads.lBrace fun _ => eventually_of_succ (.of_forall fun _ => rfl)

lemma dict_reads {tokens inner : List Token} {entry : DictEntry} {entries : List DictEntry}
    (h : ReadsEntry tokens entry) (hrest : ReadsEntries inner entries) :
    Reads .primary (.lBrace :: (tokens ++ inner ++ [.rBrace])) (.dict (entry :: entries)) := by
  refine Reads.lBrace fun rest => ?_
  rw [List.append_assoc, List.append_assoc, List.singleton_append]
  have hstops : Stops .expression (inner ++ .rBrace :: rest) := hrest.tail.stops rfl _
  cases h with
  | pair hkey hvalue =>
    rename_i keyTokens valueTokens key value
    rw [List.append_assoc, List.cons_append]
    have hcolon : Stops .expression (.colon :: (valueTokens ++ (inner ++ .rBrace :: rest))) :=
      stops_of_none rfl
    apply eventually_of_succ
    filter_upwards [hkey.parse hcolon, hvalue.parse hstops, hrest.parse rest] with depth
      hkeyParse hvalueParse hparse
    rw [parseDictOrComp, hkeyParse]
    · simp only [bind, Except.bind, hvalueParse, not_comprehension hstops, hparse, expectKind,
        if_true]
      rfl
    · exact fun _ heq => starts_ne hkey.starts rfl heq
    · exact fun _ heq => starts_ne hkey.starts rfl heq
    · exact fun _ heq => starts_ne hkey.starts rfl heq
  | unpack hmapping =>
    apply eventually_of_succ
    filter_upwards [hmapping.parse hstops, hrest.parse rest] with depth hmapping hparse
    rw [List.cons_append, parseDictOrComp, hmapping]
    simp only [bind, Except.bind, hparse, expectKind, if_true]

/-! ### Subscripts -/

/-- A slice's bound that may be missing. -/
inductive ReadsOption : List Token → Option Expr → Prop
  | none : ReadsOption [] none
  | some {tokens expr} (h : ReadsExpr tokens expr) : ReadsOption tokens (some expr)

/-- The token ends an item of a subscript. -/
def ItemEnds (token : Token) : Prop := token = .comma ∨ token = .rBracket

lemma ItemEnds.stops {token : Token} (h : ItemEnds token) {level : Precedence}
    {rest : List Token} : Stops level (token :: rest) := by
  obtain rfl | rfl := h <;> exact stops_of_none rfl

structure ReadsItem (tokens : List Token) (item : Expr) : Prop where
  ne_rBracket : ∀ more rest, tokens ++ more = .rBracket :: rest → False
  parse : ∀ token rest, ItemEnds token → ∀ᶠ depth in atTop,
    parseSubscriptItem depth (tokens ++ token :: rest) = .ok (item, token :: rest)

lemma item_reads {tokens : List Token} {item : Expr} (h : ReadsExpr tokens item) :
    ReadsItem tokens item := by
  refine ⟨fun _ _ heq => starts_ne h.starts rfl heq, fun token rest hends => ?_⟩
  apply eventually_of_succ
  filter_upwards [h.parse hends.stops] with depth hparse
  rw [parseSubscriptItem, hparse]
  · simp only [bind, Except.bind]
    obtain rfl | rfl := hends <;> rfl
  · exact fun _ heq => starts_ne h.starts rfl heq
  · exact fun _ heq => starts_ne h.starts rfl heq

/-- What `parse_slice` makes of what follows the lower bound. -/
structure ReadsSlice (tokens : List Token) (lower upper step : Option Expr) : Prop where
  parse : ∀ token rest, ItemEnds token → ∀ᶠ depth in atTop,
    parseSlice depth lower (.colon :: (tokens ++ token :: rest)) =
      .ok (.slice lower upper step, token :: rest)

lemma slice_reads {tokens inner : List Token} {lower upper step : Option Expr}
    (hlower : ReadsOption tokens lower) (h : ReadsSlice inner lower upper step) :
    ReadsItem (tokens ++ .colon :: inner) (.slice lower upper step) := by
  cases hlower with
  | none =>
    refine ⟨fun more rest heq => ?_, fun token rest hends => ?_⟩
    · cases (List.cons.inj heq).1
    · apply eventually_of_succ
      filter_upwards [h.parse token rest hends] with depth hparse
      exact hparse
  | some hexpr =>
    refine ⟨fun more rest heq => ?_, fun token rest hends => ?_⟩
    · rw [List.append_assoc] at heq
      exact starts_ne hexpr.starts rfl heq
    · rw [List.append_assoc, List.cons_append]
      have hcolon : Stops .expression (.colon :: (inner ++ token :: rest)) := stops_of_none rfl
      apply eventually_of_succ
      filter_upwards [hexpr.parse hcolon, h.parse token rest hends] with depth hexprParse hparse
      rw [parseSubscriptItem, hexprParse]
      · simp only [bind, Except.bind]
        exact hparse
      · exact fun _ heq => starts_ne hexpr.starts rfl heq
      · exact fun _ heq => starts_ne hexpr.starts rfl heq

/-- The upper bound of a slice, before a step or the end. -/
lemma upper_reads {tokens : List Token} {upper : Option Expr} (h : ReadsOption tokens upper)
    {token : Token} {rest : List Token} (htoken : token = .colon ∨ ItemEnds token) :
    ∀ᶠ depth in atTop, parseSliceUpper depth (tokens ++ token :: rest) =
      .ok (upper, token :: rest) := by
  have hstops : Stops .expression (token :: rest) := by
    obtain rfl | rfl | rfl := htoken <;> exact stops_of_none rfl
  apply eventually_of_succ
  cases h with
  | none =>
    refine .of_forall fun depth => ?_
    obtain rfl | rfl | rfl := htoken <;> rfl
  | some hexpr =>
    filter_upwards [hexpr.parse hstops] with depth hparse
    rw [parseSliceUpper, hparse]
    · rfl
    · exact fun _ heq => starts_ne hexpr.starts rfl heq
    · exact fun _ heq => starts_ne hexpr.starts rfl heq
    · exact fun _ heq => starts_ne hexpr.starts rfl heq

lemma readsSlice {tokens inner : List Token} {lower upper step : Option Expr}
    (h : ReadsOption tokens upper)
    (hcolon : ∀ token rest, ItemEnds token → ∃ first tail,
      inner ++ token :: rest = first :: tail ∧ (first = .colon ∨ ItemEnds first))
    (hstep : ∀ token rest, ItemEnds token → ∀ᶠ depth in atTop,
      parseSliceStep depth (inner ++ token :: rest) = .ok (step, token :: rest)) :
    ReadsSlice (tokens ++ inner) lower upper step := by
  refine ⟨fun token rest hends => ?_⟩
  obtain ⟨first, tail, heq, hfirst⟩ := hcolon token rest hends
  have hupper : ∀ᶠ depth in atTop, parseSliceUpper depth (tokens ++ (inner ++ token :: rest)) =
      .ok (upper, inner ++ token :: rest) := heq ▸ upper_reads h hfirst
  rw [List.append_assoc]
  apply eventually_of_succ
  filter_upwards [hupper, hstep token rest hends] with depth hupper hstep
  rw [parseSlice]
  simp only [bind, Except.bind, expectKind, if_true, hupper, hstep]

lemma readsSlice_two {tokens : List Token} {lower upper : Option Expr}
    (h : ReadsOption tokens upper) : ReadsSlice tokens lower upper none := by
  rw [← List.append_nil tokens]
  refine readsSlice h (fun token rest hends => ⟨token, rest, rfl, .inr hends⟩)
    fun token rest hends => eventually_of_succ (.of_forall fun depth => ?_)
  obtain rfl | rfl := hends <;> rfl

lemma readsSlice_three {tokens inner : List Token} {lower upper : Option Expr} {step : Expr}
    (h : ReadsOption tokens upper) (hstep : ReadsExpr inner step) :
    ReadsSlice (tokens ++ .colon :: inner) lower upper (some step) := by
  refine readsSlice h (fun token rest hends => ⟨.colon, _, rfl, .inl rfl⟩)
    fun token rest hends => ?_
  have hstops : Stops .expression (token :: rest) := hends.stops
  apply eventually_of_succ
  filter_upwards [hstep.parse hstops] with depth hparse
  rw [List.cons_append, parseSliceStep, hparse]
  · rfl
  · exact fun _ heq => starts_ne hstep.starts rfl heq
  · exact fun _ heq => starts_ne hstep.starts rfl heq

structure ReadsItems (tokens : List Token) (items : List Expr) : Prop where
  tail : Tail tokens
  parse : ∀ rest, ∀ᶠ depth in atTop,
    parseSubscriptItems depth (tokens ++ .rBracket :: rest) = .ok (items, .rBracket :: rest)

lemma readsItems_nil : ReadsItems [] [] :=
  ⟨.inl rfl, fun _ => eventually_of_succ (.of_forall fun _ => rfl)⟩

/-- An item before further items or the end. -/
lemma ReadsItem.before {tokens inner : List Token} {item : Expr} (h : ReadsItem tokens item)
    (hinner : Tail inner) (rest : List Token) : ∀ᶠ depth in atTop,
      parseSubscriptItem depth (tokens ++ (inner ++ .rBracket :: rest)) =
        .ok (item, inner ++ .rBracket :: rest) := by
  obtain rfl | ⟨tail, rfl⟩ := hinner
  · exact h.parse _ rest (.inr rfl)
  · exact h.parse _ _ (.inl rfl)

lemma readsItems_cons {tokens inner : List Token} {item : Expr} {items : List Expr}
    (h : ReadsItem tokens item) (hrest : ReadsItems inner items) :
    ReadsItems (.comma :: (tokens ++ inner)) (item :: items) := by
  refine ⟨.inr ⟨_, rfl⟩, fun rest => ?_⟩
  apply eventually_of_succ
  filter_upwards [h.before hrest.tail rest, hrest.parse rest] with depth hitem hparse
  rw [List.cons_append, List.append_assoc, parseSubscriptItems, hitem]
  · simp only [bind, Except.bind, hparse]
  · exact fun _ heq => h.ne_rBracket _ _ heq

lemma indexItem_reads {tokens : List Token} {item : Expr} (h : ReadsItem tokens item)
    (rest : List Token) : ∀ᶠ depth in atTop,
      parseSubscript depth (tokens ++ .rBracket :: rest) = .ok (item, rest) := by
  have hend : ∀ᶠ depth in atTop, parseSubscriptItems depth (.rBracket :: rest) =
      .ok ([], .rBracket :: rest) := eventually_of_succ (.of_forall fun _ => rfl)
  apply eventually_of_succ
  filter_upwards [h.parse _ rest (.inr rfl), hend] with depth hitem hend
  rw [parseSubscript, hitem]
  simp only [bind, Except.bind, hend, expectKind, if_true]

lemma indexOne_reads {tokens : List Token} {item : Expr} (h : ReadsItem tokens item)
    (rest : List Token) : ∀ᶠ depth in atTop,
      parseSubscript depth (tokens ++ [.comma] ++ .rBracket :: rest) =
        .ok (.tuple [item], rest) := by
  have hend : ∀ᶠ depth in atTop, parseSubscriptItems depth (.comma :: .rBracket :: rest) =
      .ok ([], .rBracket :: rest) := eventually_of_succ (.of_forall fun _ => rfl)
  rw [List.append_assoc, List.singleton_append]
  apply eventually_of_succ
  filter_upwards [h.parse _ (.rBracket :: rest) (.inl rfl), hend] with depth hitem hend
  rw [parseSubscript, hitem]
  simp only [bind, Except.bind, hend, expectKind, if_true]

lemma indexTuple_reads {tokens inner : List Token} {item : Expr} {items : List Expr}
    (h : ReadsItem tokens item) (hrest : ReadsItems inner items) (hinner : inner ≠ [])
    (rest : List Token) : ∀ᶠ depth in atTop,
      parseSubscript depth (tokens ++ inner ++ .rBracket :: rest) =
        .ok (.tuple (item :: items), rest) := by
  obtain rfl | ⟨tail, rfl⟩ := hrest.tail
  · exact absurd rfl hinner
  rw [List.append_assoc]
  apply eventually_of_succ
  filter_upwards [h.parse _ (tail ++ .rBracket :: rest) (.inl rfl), hrest.parse rest] with depth
    hitem hparse
  rw [List.cons_append] at hparse ⊢
  rw [parseSubscript, hitem]
  simp only [bind, Except.bind, hparse, expectKind, if_true]

/-! ### Arguments -/

lemma readsExpr_of_primary {tokens : List Token} {expr : Expr} (hstarts : Starts .primary tokens)
    (h : Reads .primary tokens expr) : ReadsExpr tokens expr :=
  ⟨hstarts.mono (by decide), h.loosen (by decide) rfl rfl (by decide) hstarts⟩

lemma starts_of {level : Precedence} {token : Token} {rest : List Token} {binding : Precedence}
    (hbegins : token.begins = some binding) (hle : level.rank ≤ binding.rank) :
    Starts level (token :: rest) :=
  ⟨token, rest, binding, rfl, hbegins, hle⟩

lemma name_reads (name : String) : Reads .primary [.name name] (.name name) :=
  Reads.atom fun _ _ => rfl

/-- No expression goes on with an equals sign after a name. -/
lemma ReadsExpr.ne_equal {tokens : List Token} {expr : Expr} (h : ReadsExpr tokens expr)
    {name : String} {token : Token} {rest more : List Token} (htoken : token ≠ .equal)
    (heq : tokens ++ token :: rest = .name name :: .equal :: more) : False := by
  obtain ⟨first, tail, binding, rfl, _, _⟩ := h.starts
  obtain ⟨rfl, htail⟩ := List.cons.inj heq
  cases tail with
  | nil => exact htoken (List.cons.inj htail).1
  | cons second tail =>
    obtain ⟨rfl, -⟩ := List.cons.inj htail
    have hname := readsExpr_of_primary (starts_of rfl le_rfl) (name_reads name)
    have hequal : Stops .expression (.equal :: tail) := stops_of_none rfl
    have hwhole := h.parse stops_nil
    have hone := hname.parse hequal
    obtain ⟨depth, hwhole, hone⟩ := (hwhole.and hone).exists
    rw [List.append_nil] at hwhole
    have hsame := hwhole.symm.trans hone
    cases (Prod.mk.inj (Except.ok.inj hsame)).2

/-- The token ends an argument. -/
def ArgEnds (token : Token) : Prop := token = .comma ∨ token = .rParen

lemma ArgEnds.stops {token : Token} (h : ArgEnds token) {level : Precedence}
    {rest : List Token} : Stops level (token :: rest) := by
  obtain rfl | rfl := h <;> exact stops_of_none rfl

structure ReadsArg (tokens : List Token) (arg : CallArg) : Prop where
  ne_rParen : ∀ more rest, tokens ++ more = .rParen :: rest → False
  parse : ∀ first token rest, ArgEnds token → ∀ᶠ depth in atTop,
    parseCallArg depth first (tokens ++ token :: rest) = .ok (arg, token :: rest)

lemma positional_reads {tokens : List Token} {value : Expr} (h : ReadsExpr tokens value) :
    ReadsArg tokens (.positional value) := by
  refine ⟨fun _ _ heq => starts_ne h.starts rfl heq, fun first token rest hends => ?_⟩
  have hstops : Stops .expression (token :: rest) := hends.stops
  have hequal : token ≠ .equal := by
    rintro rfl
    obtain heq | heq := hends <;> cases heq
  apply eventually_of_succ
  filter_upwards [h.parse hstops] with depth hparse
  rw [parseCallArg, hparse]
  · simp only [bind, Except.bind, not_comprehension hstops]
    rfl
  · exact fun _ heq => starts_ne h.starts rfl heq
  · exact fun _ heq => starts_ne h.starts rfl heq
  · exact fun _ _ heq => h.ne_equal hequal heq

lemma keyword_reads {tokens : List Token} {value : Expr} (name : String)
    (h : ReadsExpr tokens value) :
    ReadsArg (.name name :: .equal :: tokens) (.keyword name value) := by
  refine ⟨fun _ _ heq => (by cases (List.cons.inj heq).1), fun first token rest hends => ?_⟩
  have hstops : Stops .expression (token :: rest) := hends.stops
  apply eventually_of_succ
  filter_upwards [h.parse hstops] with depth hparse
  rw [List.cons_append, List.cons_append, parseCallArg, hparse]
  simp only [bind, Except.bind, not_comprehension hstops]
  rfl

lemma star_reads {tokens : List Token} {value : Expr} (h : ReadsExpr tokens value) :
    ReadsArg (.star :: tokens) (.star value) := by
  refine ⟨fun _ _ heq => (by cases (List.cons.inj heq).1), fun first token rest hends => ?_⟩
  have hstops : Stops .expression (token :: rest) := hends.stops
  apply eventually_of_succ
  filter_upwards [h.parse hstops] with depth hparse
  rw [List.cons_append, parseCallArg, hparse]
  rfl

lemma doubleStar_reads {tokens : List Token} {value : Expr} (h : ReadsExpr tokens value) :
    ReadsArg (.doubleStar :: tokens) (.doubleStar value) := by
  refine ⟨fun _ _ heq => (by cases (List.cons.inj heq).1), fun first token rest hends => ?_⟩
  have hstops : Stops .expression (token :: rest) := hends.stops
  apply eventually_of_succ
  filter_upwards [h.parse hstops] with depth hparse
  rw [List.cons_append, parseCallArg, hparse]
  rfl

structure ReadsArgs (tokens : List Token) (args : List CallArg) : Prop where
  ne_rParen : ∀ more rest, tokens ++ more = .rParen :: rest → False
  parse : ∀ first rest, ∀ᶠ depth in atTop,
    parseCallArgsLoop depth first (tokens ++ .rParen :: rest) = .ok (args, rest)

lemma argsOne_reads {tokens : List Token} {arg : CallArg} (h : ReadsArg tokens arg) :
    ReadsArgs tokens [arg] := by
  refine ⟨h.ne_rParen, fun first rest => ?_⟩
  apply eventually_of_succ
  filter_upwards [h.parse first _ rest (.inr rfl)] with depth hparse
  rw [parseCallArgsLoop, hparse]
  simp only [bind, Except.bind, expectKind, if_true]

lemma argsCons_reads {tokens inner : List Token} {arg : CallArg} {args : List CallArg}
    (h : ReadsArg tokens arg) (hrest : ReadsArgs inner args) :
    ReadsArgs (tokens ++ .comma :: inner) (arg :: args) := by
  refine ⟨fun more rest heq => ?_, fun first rest => ?_⟩
  · rw [List.append_assoc] at heq
    exact h.ne_rParen _ _ heq
  rw [List.append_assoc, List.cons_append]
  apply eventually_of_succ
  filter_upwards [h.parse first _ (inner ++ .rParen :: rest) (.inl rfl),
    hrest.parse false rest] with depth harg hparse
  rw [parseCallArgsLoop, harg]
  simp only [bind, Except.bind]
  split
  next heq => exact (hrest.ne_rParen _ _ (List.cons.inj heq).2).elim
  next heq =>
    obtain rfl := (List.cons.inj heq).2
    rw [hparse]
  next hnot => exact (hnot _ rfl).elim

lemma callArgs_reads {tokens : List Token} {args : List CallArg} (h : ReadsArgs tokens args)
    (rest : List Token) : ∀ᶠ depth in atTop,
      parseCallArgs depth (tokens ++ [.rParen] ++ rest) = .ok (args, rest) := by
  rw [List.append_assoc, List.singleton_append]
  apply eventually_of_succ
  filter_upwards [h.parse true rest] with depth hparse
  rw [parseCallArgs]
  · exact hparse
  · exact fun _ heq => h.ne_rParen _ _ heq

/-! ### Integers -/

lemma digitValue_of_isDigit {char : Char} (h : char.isDigit = true) :
    digitValue char = some (char.toNat - '0'.toNat) := by
  rw [digitValue, if_pos h]

lemma isDigit_toNat {char : Char} (h : char.isDigit = true) :
    48 ≤ char.toNat ∧ char.toNat ≤ 57 := by
  rw [Char.isDigit, Bool.and_eq_true, decide_eq_true_eq, decide_eq_true_eq] at h
  exact ⟨h.1, h.2⟩

lemma foldlM_digits {digits : List Char} (h : ∀ char ∈ digits, char.isDigit = true)
    (value : ℕ) :
    digits.foldlM
      (fun value char => (digitValue char).bind fun digit =>
        if digit < 10 then some (10 * value + digit) else none) value =
      some (Nat.ofDigitChars 10 digits value) := by
  induction digits generalizing value with
  | nil => rfl
  | cons char digits ih =>
    have hchar := h char List.mem_cons_self
    have hrange := isDigit_toNat hchar
    have hzero : '0'.toNat = 48 := rfl
    have hlt : char.toNat - '0'.toNat < 10 := by omega
    rw [List.foldlM_cons, digitValue_of_isDigit hchar]
    simp only [Option.bind_some, if_pos hlt, bind]
    exact ih (fun other hother => h other (List.mem_cons_of_mem _ hother)) _

lemma radixOf_digits {digits : List Char} (h : ∀ char ∈ digits, char.isDigit = true) :
    radixOf digits = (digits, 10) := by
  unfold radixOf
  split <;> first
    | rfl
    | exact absurd (h _ (List.mem_cons_of_mem _ List.mem_cons_self)) (by decide)

/-- The decimal digits of a number are read as the number. -/
lemma parseNumberLiteral_decimal (value : ℕ) :
    parseNumberLiteral (decimal value) = .ok (intConstant value) := by
  have hdigits : ∀ char ∈ Nat.toDigits 10 value, char.isDigit = true :=
    fun char hchar => Nat.isDigit_of_mem_toDigits (by decide) (by decide) hchar
  have hnot : ∀ {char : Char}, char.isDigit = false → char ∉ Nat.toDigits 10 value := by
    intro char hchar hmem
    rw [hdigits char hmem] at hchar
    cases hchar
  have hfilter : (decimal value).toList.filter (· ≠ '_') = Nat.toDigits 10 value := by
    rw [decimal, String.toList_ofList]
    refine List.filter_eq_self.2 fun char hchar => ?_
    have hne : char ≠ '_' := by
      rintro rfl
      exact hnot rfl hchar
    simpa using hne
  have hlast : ∀ {char : Char}, char.isDigit = false →
      (Nat.toDigits 10 value).getLast? ≠ some char :=
    fun hchar heq => hnot hchar (List.mem_of_getLast? heq)
  have hstr : fromStrRadix 10 (Nat.toDigits 10 value) = some value := by
    rw [fromStrRadix, if_neg Nat.toDigits_ne_nil, foldlM_digits hdigits,
      Nat.ofDigitChars_ten_toDigits]
  have hint : parseIntLiteral (decimal value) = .ok (intConstant value) := by
    unfold parseIntLiteral
    rw [hfilter, radixOf_digits hdigits]
    simp only [hstr, intConstant]
    split <;> rfl
  unfold parseNumberLiteral
  rw [hfilter]
  dsimp only
  rw [if_neg, if_neg]
  · exact hint
  · rintro ⟨-, h | h | h⟩
    · exact hnot rfl h
    · exact hnot rfl h
    · exact hnot rfl h
  · rintro (h | h)
    · exact hlast rfl h
    · exact hlast rfl h

lemma int_reads (value : ℕ) :
    Reads .primary [.number (decimal value)] (.constant (intConstant value)) := by
  refine Reads.atom fun depth rest => ?_
  rw [parseAtom, parseNumberLiteral_decimal]
  rfl

/-! ### Parameters of a lambda -/

def LambdaItem.regroup : LambdaItem → LambdaItem
  | .param written => .param written.regroup
  | item => item

namespace LambdaParams

/-- The parameters once one more item has been read. -/
def add (read : LambdaParams) : LambdaItem → LambdaParams
  | .param param => read.push param
  | .slash => { read with sawSlash := true, posonlyParams := read.params, params := [] }
  | .star => { read with keywordOnly := true }
  | .vararg name => { read with vararg := some ⟨name, none, none⟩, keywordOnly := true }
  | .kwarg name => { read with kwarg := some ⟨name, none, none⟩ }

/-- The item can follow what has been read. -/
def Accepts (read : LambdaParams) (item : LambdaItem) : Prop :=
  read.kwarg = none ∧
    match item with
    | LambdaItem.param param => param.default = none → read.keywordOnly = false → read.sawDefault = false
    | .slash => read.sawSlash = false ∧ read.keywordOnly = false ∧ read.vararg = none
    | .star | .vararg _ => read.vararg = none
    | .kwarg _ => True

def AcceptsAll : LambdaParams → List LambdaItem → Prop
  | _, [] => True
  | read, item :: items => read.Accepts item ∧ AcceptsAll (read.add item) items

lemma acceptsAll_append {read : LambdaParams} {items others : List LambdaItem} :
    read.AcceptsAll (items ++ others) ↔
      read.AcceptsAll items ∧ (items.foldl add read).AcceptsAll others := by
  induction items generalizing read with
  | nil => simp [AcceptsAll]
  | cons item items ih => simp only [List.cons_append, AcceptsAll, ih, List.foldl_cons, and_assoc]

variable {read : LambdaParams} {params : List Parameter}

lemma foldl_positional (params : List Parameter) (h : read.keywordOnly = false) :
    (params.map LambdaItem.param).foldl add read =
      { read with
        params := read.params ++ params
        sawDefault := read.sawDefault || params.any fun param => param.default.isSome } := by
  induction params generalizing read with
  | nil => simp
  | cons param params ih =>
    have hpush : (read.push param).keywordOnly = false := by
      rw [push, if_neg (by simp [h])]
      exact h
    rw [List.map_cons, List.foldl_cons, show read.add (.param param) = read.push param from rfl,
      ih hpush]
    simp [push, h, Bool.or_assoc]

lemma foldl_keyword (params : List Parameter) (h : read.keywordOnly = true) :
    (params.map LambdaItem.param).foldl add read =
      { read with kwonlyParams := read.kwonlyParams ++ params } := by
  induction params generalizing read with
  | nil => simp
  | cons param params ih =>
    have hpush : (read.push param).keywordOnly = true := by
      rw [push, if_pos h]
      exact h
    rw [List.map_cons, List.foldl_cons, show read.add (.param param) = read.push param from rfl,
      ih hpush]
    simp [push, h]

lemma acceptsAll_positional (hkeyword : read.keywordOnly = false) (hkwarg : read.kwarg = none)
    (hsaw : read.sawDefault = true → ∀ param ∈ params, param.default.isSome)
    (hparams : DefaultsLast params) : read.AcceptsAll (params.map .param) := by
  induction params generalizing read with
  | nil => trivial
  | cons param params ih =>
    obtain ⟨hfirst, hrest⟩ := List.pairwise_cons.1 hparams
    refine ⟨⟨hkwarg, fun hnone _ => ?_⟩, ?_⟩
    · by_contra hne
      have hsome := hsaw (by simpa using hne) param List.mem_cons_self
      rw [hnone] at hsome
      cases hsome
    · have hadd : read.add (.param param) =
          { read with
            params := read.params ++ [param]
            sawDefault := read.sawDefault || param.default.isSome } := by
        simp [add, push, hkeyword]
      rw [hadd]
      refine ih hkeyword hkwarg (fun hor other hother => ?_) hrest
      obtain hread | hparam := Bool.or_eq_true_iff.1 hor
      · exact hsaw hread other (List.mem_cons_of_mem _ hother)
      · exact hfirst other hother hparam

lemma acceptsAll_keyword (hkeyword : read.keywordOnly = true) (hkwarg : read.kwarg = none) :
    read.AcceptsAll (params.map .param) := by
  induction params generalizing read with
  | nil => trivial
  | cons param params ih =>
    refine ⟨⟨hkwarg, fun _ h => absurd (hkeyword.symm.trans h) (by decide)⟩, ?_⟩
    have hadd : read.add (.param param) =
        { read with kwonlyParams := read.kwonlyParams ++ [param] } := by
      simp [add, push, hkeyword]
    rw [hadd]
    exact ih hkeyword hkwarg

lemma positionalItems_read {posonlyParams params : List Parameter}
    (hdefaults : DefaultsLast (posonlyParams ++ params)) :
    start.AcceptsAll (positionalItems posonlyParams params) ∧
      ∃ sawDefault sawSlash, (positionalItems posonlyParams params).foldl add start =
        ⟨posonlyParams, params, [], none, none, sawDefault, false, sawSlash⟩ := by
  obtain ⟨hposonly, hparams, hcross⟩ := List.pairwise_append.1 hdefaults
  cases posonlyParams with
  | nil =>
    have hfold := @foldl_positional start params rfl
    refine ⟨?_, _, _, hfold⟩
    exact acceptsAll_positional rfl rfl (fun h => absurd h (by decide)) hparams
  | cons param posonlyParams =>
    have hfirst := @foldl_positional start (param :: posonlyParams) rfl
    have hitems : positionalItems (param :: posonlyParams) params =
        (param :: posonlyParams).map .param ++ ([.slash] ++ params.map .param) := by
      simp [positionalItems]
    set read := ((param :: posonlyParams).map LambdaItem.param).foldl add start with hread
    have hslash : (read.add .slash).keywordOnly = false := by
      rw [hfirst]
      rfl
    have hsecond := foldl_positional params hslash
    rw [hitems, acceptsAll_append, List.foldl_append, ← hread]
    refine ⟨⟨acceptsAll_positional rfl rfl (fun h => absurd h (by decide)) hposonly, ?_, ?_⟩,
      (param :: posonlyParams).any (fun param => param.default.isSome) ||
        params.any fun param => param.default.isSome, true, ?_⟩
    · rw [hfirst]
      exact ⟨rfl, rfl, rfl, rfl⟩
    · refine acceptsAll_positional hslash (by rw [hfirst]; rfl) (fun hsaw other hother => ?_)
        hparams
      rw [hfirst] at hsaw
      obtain ⟨earlier, hearlier, hdefault⟩ := List.any_eq_true.1 hsaw
      exact hcross earlier hearlier other hother hdefault
    · change (params.map LambdaItem.param).foldl add (read.add .slash) = _
      rw [hsecond, hfirst]
      rfl

lemma keywordItems_read {read : LambdaParams} (vararg : Option String)
    (kwonlyParams : List Parameter) (hvararg : read.vararg = none) (hkwarg : read.kwarg = none)
    (hkwonly : read.kwonlyParams = []) :
    read.AcceptsAll (starItems vararg kwonlyParams ++ kwonlyParams.map .param) ∧
      ∃ keywordOnly,
        (starItems vararg kwonlyParams ++ kwonlyParams.map LambdaItem.param).foldl add read =
          { read with
            vararg := vararg.map fun name => ⟨name, none, none⟩
            kwonlyParams := kwonlyParams
            keywordOnly := keywordOnly } := by
  have hafter : ∀ item, item = .star ∨ (∃ name, item = LambdaItem.vararg name) →
      read.Accepts item ∧ (read.add item).keywordOnly = true ∧ (read.add item).kwarg = none := by
    rintro item (rfl | ⟨name, rfl⟩) <;> exact ⟨⟨hkwarg, hvararg⟩, rfl, hkwarg⟩
  have hstar : ∀ item, item = .star ∨ (∃ name, item = LambdaItem.vararg name) →
      read.AcceptsAll ([item] ++ kwonlyParams.map .param) ∧
        ([item] ++ kwonlyParams.map LambdaItem.param).foldl add read =
          { read.add item with kwonlyParams := (read.add item).kwonlyParams ++ kwonlyParams } := by
    intro item hitem
    obtain ⟨haccepts, hkeyword, hnone⟩ := hafter item hitem
    exact ⟨⟨haccepts, acceptsAll_keyword hkeyword hnone⟩, foldl_keyword kwonlyParams hkeyword⟩
  cases vararg with
  | some name =>
    obtain ⟨haccepts, hfold⟩ := hstar (.vararg name) (.inr ⟨name, rfl⟩)
    refine ⟨haccepts, true, hfold.trans ?_⟩
    simp [add, hkwonly]
  | none =>
    cases kwonlyParams with
    | nil =>
      refine ⟨trivial, read.keywordOnly, ?_⟩
      obtain ⟨posonlyParams, params, read, vararg, kwarg, sawDefault, keywordOnly, sawSlash⟩ := read
      obtain rfl : read = [] := hkwonly
      obtain rfl : vararg = none := hvararg
      rfl
    | cons param kwonlyParams =>
      obtain ⟨haccepts, hfold⟩ := hstar .star (.inl rfl)
      refine ⟨haccepts, true, hfold.trans ?_⟩
      simp [add, hkwonly, hvararg]

/-- A legal list of parameters is accepted, and read as what it is. -/
lemma lambdaItems_read {posonlyParams params kwonlyParams : List Parameter}
    {vararg kwarg : Option String} (hdefaults : DefaultsLast (posonlyParams ++ params)) :
    start.AcceptsAll (lambdaItems posonlyParams params vararg kwarg kwonlyParams) ∧
      ∃ sawDefault keywordOnly sawSlash,
        (lambdaItems posonlyParams params vararg kwarg kwonlyParams).foldl add start =
          ⟨posonlyParams, params, kwonlyParams, vararg.map fun name => ⟨name, none, none⟩,
            kwarg.map fun name => ⟨name, none, none⟩, sawDefault, keywordOnly, sawSlash⟩ := by
  obtain ⟨haccepts, sawDefault, sawSlash, hfold⟩ := positionalItems_read hdefaults
  set read := (positionalItems posonlyParams params).foldl add start with hread
  obtain ⟨hkeyword, keywordOnly, hlast⟩ := keywordItems_read vararg kwonlyParams
    (show read.vararg = none by rw [hfold]) (show read.kwarg = none by rw [hfold])
    (show read.kwonlyParams = [] by rw [hfold])
  have hboth : (positionalItems posonlyParams params ++
      (starItems vararg kwonlyParams ++ kwonlyParams.map LambdaItem.param)).foldl add start =
      ⟨posonlyParams, params, kwonlyParams, vararg.map fun name => ⟨name, none, none⟩, none,
        sawDefault, keywordOnly, sawSlash⟩ := by
    rw [List.foldl_append, ← hread, hlast, hfold]
  refine ⟨acceptsAll_append.2 ⟨acceptsAll_append.2 ⟨haccepts, hkeyword⟩, ?_⟩, sawDefault,
    keywordOnly, sawSlash, ?_⟩
  · rw [hboth]
    cases kwarg with
    | none => trivial
    | some name => exact ⟨⟨rfl, trivial⟩, trivial⟩
  · rw [lambdaItems, List.foldl_append, hboth]
    cases kwarg <;> rfl

end LambdaParams

/-- The tokens after an item: another one, or the colon. -/
def ItemFollows (read : LambdaParams) (rest : List Token) : Prop :=
  (∃ tail, rest = .colon :: tail) ∨
    (read.kwarg = none ∧ ∃ tail, rest = .comma :: tail ∧ ∀ more, tail ≠ .colon :: more)

lemma ItemFollows.stops {read : LambdaParams} {rest : List Token} (h : ItemFollows read rest)
    {level : Precedence} : Stops level rest := by
  obtain ⟨tail, rfl⟩ | ⟨-, tail, rfl, -⟩ := h <;> exact stops_of_none rfl

lemma ItemFollows.ne_equal {read : LambdaParams} {rest more : List Token}
    (h : ItemFollows read rest) (heq : rest = .equal :: more) : False := by
  obtain ⟨tail, rfl⟩ | ⟨-, tail, rfl, -⟩ := h <;> cases heq

structure ReadsLambdaItem (tokens : List Token) (item : LambdaItem) : Prop where
  ne_colon : ∀ more rest, tokens ++ more = .colon :: rest → False
  parse : ∀ (read : LambdaParams) rest result, read.Accepts item →
    ItemFollows (read.add item) rest →
      (∀ᶠ depth in atTop, parseLambdaSeparator depth (read.add item) rest = result) →
        ∀ᶠ depth in atTop, parseLambdaParams depth read (tokens ++ rest) = result

lemma paramPlain_reads (name : String) :
    ReadsLambdaItem [.name name] (.param ⟨name, none, none⟩) := by
  refine ⟨fun _ _ heq => (by cases (List.cons.inj heq).1),
    fun read rest result haccepts hfollows hsep => ?_⟩
  have hcheck : ¬(!read.keywordOnly && read.sawDefault) = true := by
    intro h
    rw [Bool.and_eq_true, Bool.not_eq_true'] at h
    have hsaw := haccepts.2 rfl h.1
    rw [h.2] at hsaw
    cases hsaw
  apply eventually_of_succ
  filter_upwards [hsep] with depth hsep
  rw [List.singleton_append, parseLambdaParams, if_neg hcheck]
  · exact hsep
  · exact fun _ heq => hfollows.ne_equal heq

lemma paramDefault_reads {tokens : List Token} {default : Expr} (name : String)
    (h : ReadsExpr tokens default) :
    ReadsLambdaItem (.name name :: .equal :: tokens) (.param ⟨name, some default, none⟩) := by
  refine ⟨fun _ _ heq => (by cases (List.cons.inj heq).1),
    fun read rest result haccepts hfollows hsep => ?_⟩
  apply eventually_of_succ
  filter_upwards [h.parse hfollows.stops, hsep] with depth hparse hsep
  rw [List.cons_append, List.cons_append, parseLambdaParams, hparse]
  exact hsep

lemma slash_reads : ReadsLambdaItem [.slash] .slash := by
  refine ⟨fun _ _ heq => (by cases (List.cons.inj heq).1),
    fun read rest result haccepts hfollows hsep => ?_⟩
  obtain ⟨hkwarg, hslash, hkeyword, hvararg⟩ := haccepts
  apply eventually_of_succ
  filter_upwards [hsep] with depth hsep
  rw [List.singleton_append, parseLambdaParams,
    if_neg (by rw [hslash]; exact Bool.false_ne_true),
    if_neg (by rw [hkeyword, hvararg, hkwarg]; exact Bool.false_ne_true)]
  exact hsep

lemma vararg_reads (name : String) : ReadsLambdaItem [.star, .name name] (.vararg name) := by
  refine ⟨fun _ _ heq => (by cases (List.cons.inj heq).1),
    fun read rest result haccepts hfollows hsep => ?_⟩
  obtain ⟨hkwarg, hvararg⟩ := haccepts
  have hvararg : read.vararg = none := hvararg
  apply eventually_of_succ
  filter_upwards [hsep] with depth hsep
  change parseLambdaParams (depth + 1) read (.star :: .name name :: rest) = _
  rw [parseLambdaParams, if_neg (by rw [hvararg]; exact Bool.false_ne_true)]
  exact hsep

lemma kwarg_reads (name : String) :
    ReadsLambdaItem [.doubleStar, .name name] (.kwarg name) := by
  refine ⟨fun _ _ heq => (by cases (List.cons.inj heq).1),
    fun read rest result haccepts hfollows hsep => ?_⟩
  obtain ⟨hkwarg, -⟩ := haccepts
  apply eventually_of_succ
  filter_upwards [hsep] with depth hsep
  change parseLambdaParams (depth + 1) read (.doubleStar :: .name name :: rest) = _
  rw [parseLambdaParams, if_neg (by rw [hkwarg]; exact Bool.false_ne_true)]
  exact hsep

lemma parseLambdaSeparator_comma {read : LambdaParams} (hkwarg : read.kwarg = none)
    {tail : List Token} (htail : ∀ more, tail ≠ .colon :: more) (depth : ℕ) :
    parseLambdaSeparator (depth + 1) read (.comma :: tail) = parseLambdaParams depth read tail := by
  rw [parseLambdaSeparator]
  · simp only [hkwarg, Option.isSome_none, Bool.false_eq_true, if_false]
  · exact fun more heq => htail more heq

/-- The bare star takes the comma after it along. -/
lemma bareStar_reads : ReadsLambdaItem [.star] .star := by
  refine ⟨fun _ _ heq => (by cases (List.cons.inj heq).1),
    fun read rest result haccepts hfollows hsep => ?_⟩
  obtain ⟨hkwarg, hvararg⟩ := haccepts
  have hvararg : read.vararg = none := hvararg
  have hnext := (tendsto_add_atTop_nat 1).eventually hsep
  apply eventually_of_succ
  filter_upwards [hnext] with depth hnext
  obtain ⟨tail, rfl⟩ | ⟨hnone, tail, rfl, htail⟩ := hfollows
  · change parseLambdaParams (depth + 1) read (.star :: .colon :: tail) = _
    rw [parseLambdaParams, if_neg (by rw [hvararg]; exact Bool.false_ne_true)]
    exact hnext
  · rw [parseLambdaSeparator_comma hnone htail] at hnext
    change parseLambdaParams (depth + 1) read (.star :: .comma :: tail) = _
    rw [parseLambdaParams, if_neg (by rw [hvararg]; exact Bool.false_ne_true)]
    exact hnext

structure ReadsLambdaItems (tokens : List Token) (items : List LambdaItem) : Prop where
  ne_colon : ∀ more rest, tokens ++ more = .colon :: rest → False
  parse : ∀ (read : LambdaParams) rest, read.AcceptsAll items → ∀ᶠ depth in atTop,
    parseLambdaParams depth read (tokens ++ .colon :: rest) =
      .ok (items.foldl LambdaParams.add read, .colon :: rest)

lemma lambdaItemsOne_reads {tokens : List Token} {item : LambdaItem}
    (h : ReadsLambdaItem tokens item) : ReadsLambdaItems tokens [item] := by
  refine ⟨h.ne_colon, fun read rest haccepts => ?_⟩
  exact h.parse read _ _ haccepts.1 (.inl ⟨_, rfl⟩)
    (eventually_of_succ (.of_forall fun _ => rfl))

lemma lambdaItemsCons_reads {tokens inner : List Token} {item other : LambdaItem}
    {items : List LambdaItem} (h : ReadsLambdaItem tokens item)
    (hrest : ReadsLambdaItems inner (other :: items)) :
    ReadsLambdaItems (tokens ++ .comma :: inner) (item :: other :: items) := by
  refine ⟨fun more rest heq => ?_, fun read rest haccepts => ?_⟩
  · rw [List.append_assoc] at heq
    exact h.ne_colon _ _ heq
  rw [List.append_assoc, List.cons_append]
  have hkwarg : (read.add item).kwarg = none := haccepts.2.1.1
  have htail : ∀ more, inner ++ .colon :: rest ≠ .colon :: more :=
    fun more heq => hrest.ne_colon _ _ heq
  refine h.parse read _ _ haccepts.1 (.inr ⟨hkwarg, _, rfl, htail⟩) ?_
  apply eventually_of_succ
  filter_upwards [hrest.parse (read.add item) rest haccepts.2] with depth hparse
  rw [parseLambdaSeparator_comma hkwarg htail]
  exact hparse

namespace Reads

variable {tokens inner testTokens orelseTokens : List Token} {body test orelse : Expr}

lemma keyword_lambda {expr : Expr} (h : ∀ rest, Stops .expression rest →
    ∀ᶠ depth in atTop, parseLambda depth (inner ++ rest) = .ok (expr, rest)) :
    Reads .expression (.keyword .lambda :: inner) expr := by
  refine of_direct rfl (fun _ _ _ => rfl) fun rest hrest => ?_
  apply eventually_of_succ
  filter_upwards [h rest hrest] with depth hlambda
  change parseExprAt (depth + 1) (.keyword .lambda :: (inner ++ rest)) = _
  rw [parseExprAt]
  exact hlambda

lemma lambdaEmpty (h : ReadsExpr tokens body) :
    Reads .expression (.keyword .lambda :: .colon :: tokens)
      (.lambda [] [] none none [] body) := by
  refine keyword_lambda fun rest hrest => ?_
  apply eventually_of_succ
  filter_upwards [h.parse hrest] with depth hparse
  rw [List.cons_append, parseLambda]
  simp only [bind, Except.bind, expectKind, if_true, hparse]
  rfl

lemma lambda {items : List LambdaItem} (hitems : ReadsLambdaItems inner items)
    (haccepts : LambdaParams.start.AcceptsAll items) (h : ReadsExpr tokens body) :
    Reads .expression (.keyword .lambda :: (inner ++ .colon :: tokens))
      (.lambda (items.foldl LambdaParams.add .start).posonlyParams
        (items.foldl LambdaParams.add .start).params (items.foldl LambdaParams.add .start).vararg
        (items.foldl LambdaParams.add .start).kwarg
        (items.foldl LambdaParams.add .start).kwonlyParams body) := by
  refine keyword_lambda fun rest hrest => ?_
  rw [List.append_assoc, List.cons_append]
  apply eventually_of_succ
  filter_upwards [hitems.parse .start (tokens ++ rest) haccepts, h.parse hrest] with depth hparams
    hparse
  have hne : ∀ more, inner ++ .colon :: (tokens ++ rest) ≠ .colon :: more :=
    fun more heq => hitems.ne_colon _ _ heq
  generalize inner ++ .colon :: (tokens ++ rest) = all at hparams hne ⊢
  rw [parseLambda]
  · simp only [hparams, bind, Except.bind, expectKind, if_true, hparse]
  · exact fun more heq => hne more heq

lemma ifExpr (hstarts : Starts .disjunction tokens) (hbody : Reads .disjunction tokens body)
    (htest : Reads .disjunction testTokens test) (horelse : ReadsExpr orelseTokens orelse) :
    Reads .expression
      (tokens ++ .keyword .if :: (testTokens ++ .keyword .else :: orelseTokens))
      (.ifExpr test body orelse) := by
  refine of_direct rfl (fun _ _ _ => rfl) fun rest hrest => ?_
  have hassoc : tokens ++ .keyword .if :: (testTokens ++ .keyword .else :: orelseTokens) ++ rest =
      tokens ++ .keyword .if :: (testTokens ++ .keyword .else :: (orelseTokens ++ rest)) := by
    simp only [List.append_assoc, List.cons_append]
  rw [hassoc]
  have hifStops : Stops .disjunction
      (.keyword .if :: (testTokens ++ .keyword .else :: (orelseTokens ++ rest))) :=
    stops_of_lt rfl (by decide)
  have helseStops : Stops .disjunction (.keyword .else :: (orelseTokens ++ rest)) :=
    stops_of_none rfl
  have hif : ∀ᶠ depth in atTop, parseIfExpr depth
      (tokens ++ .keyword .if :: (testTokens ++ .keyword .else :: (orelseTokens ++ rest))) =
      .ok (.ifExpr test body orelse, rest) := by
    apply eventually_of_succ
    filter_upwards [hbody.direct hifStops, htest.direct helseStops, horelse.parse hrest] with
      depth hbody htest horelse
    have hbody : parseBinary depth .or (tokens ++ .keyword .if ::
      (testTokens ++ .keyword .else :: (orelseTokens ++ rest))) = .ok (body, _) := hbody
    have htest : parseBinary depth .or (testTokens ++ .keyword .else :: (orelseTokens ++ rest)) =
      .ok (test, _) := htest
    rw [parseIfExpr, hbody]
    simp only [bind, Except.bind, htest, horelse]
  have hnamed : ∀ᶠ depth in atTop, parseNamedExpr depth
      (tokens ++ .keyword .if :: (testTokens ++ .keyword .else :: (orelseTokens ++ rest))) =
      .ok (.ifExpr test body orelse, rest) := by
    apply eventually_of_succ
    filter_upwards [hif] with depth hif
    rw [parseNamedExpr, hif]
    simp only [bind, Except.bind]
    split
    · exact (hrest.false rfl le_rfl).elim
    · rfl
  exact parseExprAt_of_named hstarts hnamed

end Reads

/-! ## Every writing is read -/

lemma regroupParams_eq_map (params : List Parameter) :
    regroupParams params = params.map Parameter.regroup := by
  induction params with
  | nil => rfl
  | cons first params ih => rw [regroupParams, ih, List.map_cons]

lemma map_param_regroup (params : List Parameter) :
    (params.map LambdaItem.param).map LambdaItem.regroup =
      (regroupParams params).map LambdaItem.param := by
  rw [regroupParams_eq_map, List.map_map, List.map_map]
  rfl

/-- Regrouping the parameters keeps the stars and the slash between them. -/
lemma lambdaItems_regroup (posonlyParams params kwonlyParams : List Parameter)
    (vararg kwarg : Option String) :
    (lambdaItems posonlyParams params vararg kwarg kwonlyParams).map LambdaItem.regroup =
      lambdaItems (regroupParams posonlyParams) (regroupParams params) vararg kwarg
        (regroupParams kwonlyParams) := by
  have hslash : (if posonlyParams.isEmpty then [] else [LambdaItem.slash]).map LambdaItem.regroup =
      if (regroupParams posonlyParams).isEmpty then [] else [LambdaItem.slash] := by
    cases posonlyParams <;> rfl
  have hstar : (starItems vararg kwonlyParams).map LambdaItem.regroup =
      starItems vararg (regroupParams kwonlyParams) := by
    cases vararg <;> cases kwonlyParams <;> rfl
  have hkwarg : (kwarg.map LambdaItem.kwarg).toList.map LambdaItem.regroup =
      (kwarg.map LambdaItem.kwarg).toList := by
    cases kwarg <;> rfl
  simp only [lambdaItems, positionalItems, List.map_append, hslash, hstar, hkwarg,
    map_param_regroup]

lemma defaultsLast_regroup {params : List Parameter} (h : DefaultsLast params) :
    DefaultsLast (params.map Parameter.regroup) := by
  have hdefault : ∀ param : Parameter, param.regroup.default.isSome = param.default.isSome := by
    rintro ⟨name, default, annotationExpr⟩
    cases default <;> rfl
  refine List.pairwise_map.2 (h.imp fun hpair => ?_)
  rwa [hdefault, hdefault]

lemma regroup_binary {op : BinaryOp} {left right : Expr} (h : op = .pow → left.isAwait = false) :
    (Expr.binary left op right).regroup = .binary left.regroup op right.regroup := by
  rw [Expr.regroup]
  rintro value rfl rfl
  cases h rfl

/-- What the parser makes of the tokens of a phrase. -/
def Phrase.Read : Phrase → List Token → Prop
  | .form level written, tokens =>
    level ≠ .literal ∧ Starts level.code tokens ∧ Reads level.code tokens written.regroup
  | .expr level written, tokens =>
    level ≠ .literal → Starts level.code tokens ∧ Reads level.code tokens written.regroup
  | .option written, tokens => ReadsOption tokens (regroupOption written)
  | .elements written, tokens => ReadsElements tokens (regroupElements written)
  | .arg written, tokens => ReadsArg tokens written.regroup
  | .args written, tokens => ReadsArgs tokens (regroupArgs written)
  | .entry written, tokens => ReadsEntry tokens written.regroup
  | .entries written, tokens => ReadsEntries tokens (regroupEntries written)
  | .subscriptItem written, tokens => ReadsItem tokens written.regroup
  | .subscriptItems written, tokens => ReadsItems tokens (regroupElements written)
  | .index written, tokens => ∀ rest, ∀ᶠ depth in atTop,
    parseSubscript depth (tokens ++ .rBracket :: rest) = .ok (written.regroup, rest)
  | .lambdaItem written, tokens => ReadsLambdaItem tokens written.regroup
  | .lambdaItems written, tokens => ReadsLambdaItems tokens (written.map LambdaItem.regroup)

lemma Starts.append {level : Precedence} {tokens : List Token} (h : Starts level tokens)
    (more : List Token) : Starts level (tokens ++ more) := by
  obtain ⟨token, rest, binding, rfl, hbegins, hrank⟩ := h
  exact ⟨token, rest ++ more, binding, rfl, hbegins, hrank⟩

namespace Phrase.Read

variable {form level : Precedence} {tokens : List Token} {expr : Expr}

lemma bare (h : (Phrase.form form expr).Read tokens) (hlevel : level.rank ≤ form.rank) :
    (Phrase.expr level expr).Read tokens := by
  intro hne
  obtain ⟨hform, hstarts, hreads⟩ := h
  have hcode : level.code.rank ≤ form.code.rank ∧ level.code.code = level.code ∧
      form.code.code = form.code ∧ form.code ≠ .literal := by
    clear hstarts hreads
    cases level <;> cases form <;> first
      | exact absurd rfl hform
      | exact absurd hlevel (by decide)
      | decide
  obtain ⟨hle, hlow, hhigh, hliteral⟩ := hcode
  exact ⟨hstarts.mono hle, hreads.loosen hle hlow hhigh hliteral hstarts⟩

lemma readsExpr (h : (Phrase.expr .expression expr).Read tokens) :
    ReadsExpr tokens expr.regroup :=
  ⟨(h (by decide)).1, (h (by decide)).2⟩

/-- Between parentheses an expression of any level is a primary. -/
lemma paren (h : (Phrase.form form expr).Read tokens) :
    (Phrase.expr level expr).Read (.lParen :: tokens ++ [.rParen]) := by
  have hprimary : (Phrase.form .primary expr).Read (.lParen :: tokens ++ [.rParen]) :=
    ⟨by decide, starts_of rfl le_rfl, paren_reads (h.bare (Nat.zero_le _)).readsExpr⟩
  intro hne
  refine hprimary.bare ?_ hne
  cases level <;> first
    | exact absurd rfl hne
    | decide

end Phrase.Read

lemma elements_ne_nil {element : Expr} {elements : List Expr} {tokens : List Token}
    (h : Writes (.elements (element :: elements)) tokens) : tokens ≠ [] := by
  cases h
  exact List.cons_ne_nil _ _

lemma subscriptItems_ne_nil {item : Expr} {items : List Expr} {tokens : List Token}
    (h : Writes (.subscriptItems (item :: items)) tokens) : tokens ≠ [] := by
  cases h
  exact List.cons_ne_nil _ _

lemma prefixOperator_await : prefixOperator (.keyword .await) = some Expr.await := rfl

/-- The parser reads the tokens of every phrase, as its regrouped parts. -/
lemma Writes.read {phrase : Phrase} {tokens : List Token} (h : Writes phrase tokens) :
    phrase.Read tokens := by
  induction h with
  | bare _ hlevel ih => exact ih.bare hlevel
  | paren _ _ ih => exact ih.paren
  | name name => exact ⟨by decide, starts_of rfl le_rfl, name_reads name⟩
  | int value => exact ⟨by decide, starts_of rfl le_rfl, int_reads value⟩
  | str value => exact ⟨by decide, starts_of rfl le_rfl, Reads.str value⟩
  | true | false | none =>
    exact ⟨by decide, starts_of rfl le_rfl, Reads.atom fun _ _ => rfl⟩
  | member name _ ih =>
    obtain ⟨hstarts, hreads⟩ := ih (by decide)
    exact ⟨by decide, hstarts.append _, hreads.member name⟩
  | callEmpty _ ih =>
    obtain ⟨hstarts, hreads⟩ := ih (by decide)
    refine ⟨by decide, hstarts.append _, hreads.call fun rest => ?_⟩
    exact eventually_of_succ (.of_forall fun _ => rfl)
  | call _ _ ih ihargs =>
    obtain ⟨hstarts, hreads⟩ := ih (by decide)
    exact ⟨by decide, hstarts.append _, hreads.call (callArgs_reads ihargs)⟩
  | subscript _ _ ih ihindex =>
    obtain ⟨hstarts, hreads⟩ := ih (by decide)
    refine ⟨by decide, hstarts.append _, hreads.subscript fun rest => ?_⟩
    rw [List.append_assoc, List.singleton_append]
    exact ihindex rest
  | tupleEmpty => exact ⟨by decide, starts_of rfl le_rfl, tupleEmpty_reads⟩
  | tupleOne _ ih => exact ⟨by decide, starts_of rfl le_rfl, tupleOne_reads ih.readsExpr⟩
  | tuple _ hrest ih ihrest =>
    exact ⟨by decide, starts_of rfl le_rfl,
      tuple_reads ih.readsExpr ihrest (elements_ne_nil hrest)⟩
  | listEmpty => exact ⟨by decide, starts_of rfl le_rfl, listEmpty_reads⟩
  | list _ _ ih ihrest =>
    exact ⟨by decide, starts_of rfl le_rfl, list_reads ih.readsExpr ihrest⟩
  | dictEmpty => exact ⟨by decide, starts_of rfl le_rfl, dictEmpty_reads⟩
  | dict _ _ ih ihrest => exact ⟨by decide, starts_of rfl le_rfl, dict_reads ih ihrest⟩
  | @await value tokens _ ih =>
    obtain ⟨hstarts, hreads⟩ := ih (by decide)
    have hfactor : Reads .factor tokens value.regroup :=
      hreads.loosen (by decide) rfl rfl (by decide) hstarts
    refine ⟨by decide, starts_of rfl le_rfl, Reads.factor_of_direct fun rest hrest => ?_⟩
    have hparse := Reads.unary_prefix prefixOperator_await (hfactor.direct hrest)
    exact hparse
  | pow hawait _ _ ih ihright =>
    obtain ⟨hstarts, hreads⟩ := ih (by decide)
    obtain ⟨-, hright⟩ := ihright (by decide)
    rw [Phrase.Read, regroup_binary fun _ => hawait]
    refine ⟨by decide, (hstarts.append _).mono (by decide),
      Reads.factor_of_direct fun rest hrest => ?_⟩
    exact Reads.unary_of_power (hstarts.append _) (hreads.power_pow hright hrest)
  | powAwait _ _ ih ihright =>
    obtain ⟨hstarts, hreads⟩ := ih (by decide)
    obtain ⟨-, hright⟩ := ihright (by decide)
    -- the prefix operator takes the whole power
    refine ⟨by decide, starts_of rfl le_rfl, Reads.factor_of_direct fun rest hrest => ?_⟩
    have hpower := Reads.unary_of_power (hstarts.append _) (hreads.power_pow hright hrest)
    have hparse := Reads.unary_prefix prefixOperator_await hpower
    exact hparse
  | @unary op token operand tokens hop _ ih =>
    obtain ⟨-, hreads⟩ := ih (by decide)
    have hprefix : prefixOperator token = some (.unary op) := by
      cases op <;> cases hop <;> rfl
    have hbegins : token.begins = some .factor := by
      cases op <;> cases hop <;> rfl
    refine ⟨by decide, starts_of hbegins le_rfl, Reads.factor_of_direct fun rest hrest => ?_⟩
    have hparse := Reads.unary_prefix hprefix (hreads.direct hrest)
    exact hparse
  | not _ ih => exact ⟨by decide, starts_of rfl le_rfl, (ih (by decide)).2.not⟩
  | binary hop _ _ ih ihright =>
    obtain ⟨level, rfl, -, build, hoperator, hbuild⟩ := arithmetic_operator hop
    have hlevel : level.precedence ≠ .literal ∧ level.precedence.tighter ≠ .literal ∧
        level.precedence.code = level.precedence ∧
          level.precedence.tighter.code = level.precedence.tighter := by
      cases level <;> decide
    obtain ⟨hne, htighter, hcode, htighterCode⟩ := hlevel
    obtain ⟨hstarts, hreads⟩ := ih hne
    obtain ⟨-, hright⟩ := ihright htighter
    rw [hcode] at hstarts hreads
    rw [htighterCode] at hright
    have hpow : ∀ {op : BinaryOp} {level token}, op.isArithmetic = some (level, token) →
        op ≠ .pow := by
      rintro op level token hop rfl
      cases hop
    rw [Phrase.Read, regroup_binary fun heq => absurd heq (hpow hop), hcode, ← hbuild]
    exact ⟨hne, hstarts.append _, Reads.binary hoperator hreads hright⟩
  | comparison hop _ _ ih ihright =>
    obtain ⟨hstarts, hreads⟩ := ih (by decide)
    obtain ⟨hrightStarts, hright⟩ := ihright (by decide)
    have hpow : ∀ {op : BinaryOp} {tokens}, op.comparisonTokens = some tokens → op ≠ .pow := by
      rintro op tokens hop rfl
      cases hop
    rw [Phrase.Read, regroup_binary fun heq => absurd heq (hpow hop)]
    refine ⟨by decide, ?_, Reads.comparison hop hrightStarts hreads hright⟩
    exact ((hstarts.append _).append _).mono (by decide)
  | @boolOp op left right tokens inner _ _ ih ihright =>
    cases op with
    | or =>
      obtain ⟨hstarts, hreads⟩ := ih (by decide)
      have hop : BinaryLevel.or.operator (.keyword .or) = some (.boolOp .or) := rfl
      exact ⟨by decide, hstarts.append _, Reads.binary hop hreads (ihright (by decide)).2⟩
    | and =>
      obtain ⟨hstarts, hreads⟩ := ih (by decide)
      have hop : BinaryLevel.and.operator (.keyword .and) = some (.boolOp .and) := rfl
      exact ⟨by decide, hstarts.append _, Reads.binary hop hreads (ihright (by decide)).2⟩
  | ifExpr _ _ _ ih ihtest ihorelse =>
    obtain ⟨hstarts, hreads⟩ := ih (by decide)
    refine ⟨by decide, (hstarts.append _).mono (by decide), ?_⟩
    exact Reads.ifExpr hstarts hreads (ihtest (by decide)).2 ihorelse.readsExpr
  | lambdaEmpty _ ih =>
    exact ⟨by decide, starts_of rfl le_rfl, Reads.lambdaEmpty ih.readsExpr⟩
  | @lambda posonlyParams params vararg kwarg kwonlyParams body inner tokens hdefaults _ _ ihitems
      ih =>
    rw [Phrase.Read, lambdaItems_regroup] at ihitems
    have hregrouped : DefaultsLast (regroupParams posonlyParams ++ regroupParams params) := by
      rw [regroupParams_eq_map, regroupParams_eq_map, ← List.map_append]
      exact defaultsLast_regroup hdefaults
    obtain ⟨haccepts, sawDefault, keywordOnly, sawSlash, hfold⟩ :=
      @LambdaParams.lambdaItems_read _ _ (regroupParams kwonlyParams) vararg kwarg hregrouped
    have hlambda := Reads.lambda ihitems haccepts ih.readsExpr
    rw [hfold] at hlambda
    exact ⟨by decide, starts_of rfl le_rfl, hlambda⟩
  | optionNone => exact .none
  | optionSome _ ih => exact .some ih.readsExpr
  | elementsNil => exact readsElements_nil
  | elementsCons _ _ ih ihrest => exact readsElements_cons ih.readsExpr ihrest
  | positional _ ih => exact positional_reads ih.readsExpr
  | keyword name _ ih => exact keyword_reads name ih.readsExpr
  | star _ ih => exact star_reads ih.readsExpr
  | doubleStar _ ih => exact doubleStar_reads ih.readsExpr
  | argsOne _ ih => exact argsOne_reads ih
  | argsCons _ _ ih ihrest => exact argsCons_reads ih ihrest
  | pair _ _ ih ihvalue => exact .pair ih.readsExpr ihvalue.readsExpr
  | unpack _ ih =>
    obtain ⟨hstarts, hreads⟩ := ih (by decide)
    exact .unpack ⟨hstarts.mono (by decide),
      hreads.loosen (by decide) rfl rfl (by decide) hstarts⟩
  | entriesNil => exact readsEntries_nil
  | entriesCons _ _ ih ihrest => exact readsEntries_cons ih ihrest
  | item _ ih => exact item_reads ih.readsExpr
  | slice _ _ ih ihupper => exact slice_reads ih (readsSlice_two ihupper)
  | sliceStep _ _ _ ih ihupper ihstep =>
    exact slice_reads ih (readsSlice_three ihupper ihstep.readsExpr)
  | subscriptItemsNil => exact readsItems_nil
  | subscriptItemsCons _ _ ih ihrest => exact readsItems_cons ih ihrest
  | indexItem _ _ ih => exact indexItem_reads ih
  | indexOne _ ih => exact indexOne_reads ih
  | indexTuple _ hrest ih ihrest => exact indexTuple_reads ih ihrest (subscriptItems_ne_nil hrest)
  | paramPlain name => exact paramPlain_reads name
  | paramDefault name _ ih => exact paramDefault_reads name ih.readsExpr
  | slash => exact slash_reads
  | bareStar => exact bareStar_reads
  | vararg name => exact vararg_reads name
  | kwarg name => exact kwarg_reads name
  | lambdaItemsOne _ ih => exact lambdaItemsOne_reads ih
  | lambdaItemsCons _ _ ih ihrest => exact lambdaItemsCons_reads ih ihrest

/-- The parser reads an expression's tokens back as the expression, and reads no more than them,
exactly if no power in it has an `await` on its left. -/
theorem parseExprAt_writes_iff {expr : Expr} {tokens rest : List Token}
    (h : Writes (.expr .expression expr) tokens) (hrest : Stops .expression rest) :
    (∀ᶠ depth in atTop, parseExprAt depth (tokens ++ rest) = .ok (expr, rest)) ↔
      expr.plain = true := by
  rw [← Expr.regroup_eq_iff]
  have hparse := h.read.readsExpr.parse hrest
  constructor
  · intro hsame
    obtain ⟨depth, hparse, hsame⟩ := (hparse.and hsame).exists
    have hok := hparse.symm.trans hsame
    exact (Prod.mk.inj (Except.ok.inj hok)).1
  · intro hregroup
    rwa [hregroup] at hparse

/-- `(x + y) * z ** -x < 1 or y` -/
theorem parseExprAt_nested :
    ∃ tokens, tokens = [.lParen, .name "x", .plus, .name "y", .rParen, .star, .name "z",
        .doubleStar, .minus, .name "x", .less, .number (decimal 1), .keyword .or, .name "y"] ∧
      ∀ᶠ depth in atTop, parseExprAt depth (tokens ++ []) = .ok
        (.boolOp .or (.binary (.binary (.binary (.name "x") .add (.name "y")) .mul
          (.binary (.name "z") .pow (.unary .neg (.name "x")))) .lt (.constant (intConstant 1)))
          (.name "y"), []) := by
  have hname : ∀ name level, level.rank ≤ Precedence.primary.rank →
      Writes (.expr level (.name name)) [.name name] := fun name level h => .bare (.name name) h
  have hsum : Writes (.expr .term (.binary (.name "x") .add (.name "y")))
      [.lParen, .name "x", .plus, .name "y", .rParen] :=
    .paren (.binary rfl (hname "x" _ (by decide)) (hname "y" _ (by decide))) (by decide)
  have hpow : Writes (.expr .factor (.binary (.name "z") .pow (.unary .neg (.name "x"))))
      [.name "z", .doubleStar, .minus, .name "x"] :=
    .bare (.pow rfl (hname "z" _ (by decide))
      (.bare (.unary rfl (hname "x" _ (by decide))) (by decide))) (by decide)
  have hmul : Writes (.form .term (.binary _ .mul _)) _ := .binary rfl hsum hpow
  have hless : Writes (.form .comparison (.binary _ .lt (.constant (intConstant 1)))) _ :=
    .comparison rfl (.bare hmul (by decide)) (.bare (.int 1) (by decide))
  have hor : Writes (.form (BoolOp.level .or).precedence (.boolOp .or _ (.name "y"))) _ :=
    .boolOp (.bare hless (by decide)) (hname "y" _ (by decide))
  exact ⟨_, rfl, (parseExprAt_writes_iff (.bare hor (by decide)) stops_nil).2 rfl⟩

/-- `await x ** 2` is the square of an awaited value to Python, and an awaited square here. -/
theorem parseExprAt_await_pow :
    ∃ expr tokens, Writes (.expr .expression expr) tokens ∧
      ¬∀ᶠ depth in atTop, parseExprAt depth tokens = .ok (expr, []) := by
  refine ⟨.binary (.await (.name "x")) .pow (.constant (intConstant 2)),
    .keyword .await :: [.name "x"] ++ .doubleStar :: [.number (decimal 2)], ?_, fun h => ?_⟩
  · have hname : Writes (.expr .primary (.name "x")) [.name "x"] := .bare (.name "x") (by decide)
    have htwo : Writes (.expr .factor (.constant (intConstant 2))) [.number (decimal 2)] :=
      .bare (.int 2) (by decide)
    exact .bare (.powAwait hname htwo) (by decide)
  · obtain ⟨depth, h⟩ := ((tendsto_add_atTop_nat 60).eventually h).exists
    have hawait : parseExprAt (depth + 60)
        (.keyword .await :: [.name "x"] ++ .doubleStar :: [.number (decimal 2)]) =
          .ok (.await (.binary (.name "x") .pow (.constant (intConstant 2))), []) := rfl
    have hsame := hawait.symm.trans h
    cases (Prod.mk.inj (Except.ok.inj hsame)).1

end Pyrs
