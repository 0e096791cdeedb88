import Mathlib.Data.Finset.Basic

/-!
# The abstract syntax of Python as the parser hands it to the compiler

The declarations follow `ast/mod.rs` constructor by constructor.  Source spans are left out: they
only feed diagnostics and line tables, so an expression here is the `ExprKind` of the source and a
statement its `StmtKind`.
-/

namespace Pyrs

/-! ## Operators and constants -/

/-- `BinaryOp`: arithmetic, bits and comparisons. -/
inductive BinaryOp
  | add | sub | mul | matMul | div | pow | floorDiv | mod | lShift | rShift
  | bitAnd | bitXor | bitOr | eq | ne | lt | le | gt | ge | in | notIn | is | isNot
  deriving DecidableEq, Repr

inductive UnaryOp
  | neg | not | pos | invert
  deriving DecidableEq, Repr

inductive BoolOp
  | and | or
  deriving DecidableEq, Repr

/-- `AugOp`: the operators in front of `=`. -/
inductive AugOp
  | add | sub | mul | matMul | div | mod | floorDiv | pow | lShift | rShift
  | bitAnd | bitXor | bitOr
  deriving DecidableEq, Repr

/-- A literal.  A float is its bit pattern, as the equality of `FloatLiteral` compares it. -/
inductive Constant
  | none
  | bool (value : Bool)
  | int (value : Int)
  | bigInt (value : Int)
  | float (bits : UInt64)
  | str (value : String)
  deriving DecidableEq, Repr

/-- The kinds of type parameters. -/
inductive TypeParamKind
  | typeVar | typeVarTuple | paramSpec
  deriving DecidableEq, Repr

/-- A name that is imported, with its `as`. -/
structure ImportAlias where
  name : String
  asname : Option String
  deriving DecidableEq, Repr

/-! ## Expressions, targets and patterns -/

mutual

/-- `ExprKind`. -/
inductive Expr
  | name (name : String)
  | constant (value : Constant)
  | binary (left : Expr) (op : BinaryOp) (right : Expr)
  | unary (op : UnaryOp) (operand : Expr)
  | call (func : Expr) (args : List CallArg)
  | list (elements : List Expr)
  | tuple (elements : List Expr)
  | dict (entries : List DictEntry)
  | subscript (value index : Expr)
  | attribute (value : Expr) (name : String)
  | boolOp (op : BoolOp) (left right : Expr)
  | ifExpr (test body orelse : Expr)
  | namedExpr (target : String) (value : Expr)
  | lambda (posonlyParams params : List Parameter) (vararg kwarg : Option Parameter)
      (kwonlyParams : List Parameter) (body : Expr)
  | await (value : Expr)
  | listComp (elt : Expr) (clauses : List ComprehensionClause)
  | setComp (elt : Expr) (clauses : List ComprehensionClause)
  | dictComp (key value : Expr) (clauses : List ComprehensionClause)
  | generatorExp (elt : Expr) (clauses : List ComprehensionClause)
  | yield (value : Option Expr)
  | yieldFrom (value : Expr)
  | slice (lower upper step : Option Expr)
  | templateLiteral (strings : List String) (interpolations : List TemplateInterpolation)

/-- An argument of a call. -/
inductive CallArg
  | positional (value : Expr)
  | keyword (name : String) (value : Expr)
  | star (value : Expr)
  | doubleStar (value : Expr)

/-- An entry of a dict display. -/
inductive DictEntry
  | pair (key value : Expr)
  | unpack (mapping : Expr)

/-- A parameter with its default and its annotation. -/
structure Parameter where
  name : String
  default : Option Expr
  annotationExpr : Option Expr

/-- A `for` of a comprehension with its conditions. -/
structure ComprehensionClause where
  isAsync : Bool
  target : AssignTarget
  iter : Expr
  ifs : List Expr

/-- A field of a template string. -/
structure TemplateInterpolation where
  value : Expr
  expression : String
  conversion : Option Char
  formatSpec : Option String

inductive AssignTarget
  | name (name : String)
  | starred (target : AssignTarget)
  | tuple (items : List AssignTarget)
  | list (items : List AssignTarget)
  | subscript (value index : Expr)
  | attribute (value : Expr) (name : String)

end

/-- `Pattern` of a `case`. -/
inductive Pattern
  | wildcard
  | capture (name : String)
  | constant (value : Constant)
  | value (expr : Expr)
  | sequence (items : List Pattern)
  | mapping (entries : List (Expr × Pattern)) (rest : Option String)
  | «class» (cls : Expr) (positional : List Pattern) (keywords : List (String × Pattern))
  | or (options : List Pattern)
  | as (pattern : Pattern) (name : String)
  | star (name : Option String)

/-- A type parameter with its bound and its default. -/
structure TypeParam where
  kind : TypeParamKind
  name : String
  bound : Option Expr
  default : Option Expr

/-! ## Statements -/

mutual

/-- `StmtKind`. -/
inductive Stmt
  | pass
  | expr (value : Expr)
  | ifStmt (test : Expr) (body orelse : List Stmt)
  | assign (targets : List AssignTarget) (value : Expr)
  | augAssign (target : AssignTarget) (op : AugOp) (value : Expr)
  | functionDef (name : String) (typeParams : List TypeParam) (isAsync : Bool)
      (posonlyParams params : List Parameter) (vararg kwarg : Option Parameter)
      (kwonlyParams : List Parameter) (returns : Option Expr) (body : List Stmt)
  | classDef (name : String) (typeParams : List TypeParam) (bases : List CallArg)
      (metaclass : Option Expr) (keywords : List (String × Expr)) (body : List Stmt)
  | typeAlias (name : String) (typeParams : List TypeParam) (value : Expr)
  | decorated (decorators : List Expr) (stmt : Stmt)
  | annAssign (target : AssignTarget) (annotationExpr : Expr) (value : Option Expr) (simple : Bool)
  | returnStmt (value : Option Expr)
  | raise (value cause : Option Expr)
  | assert (test : Expr) (message : Option Expr)
  | tryStmt (body : List Stmt) (handlers : List ExceptHandler) (orelse finalbody : List Stmt)
  | whileStmt (test : Expr) (body orelse : List Stmt)
  | forStmt (isAsync : Bool) (target : AssignTarget) (iter : Expr) (body orelse : List Stmt)
  | importStmt (names : List ImportAlias)
  | importFrom (module : Option String) (names : List ImportAlias) (level : Nat)
  | global (names : List String)
  | nonlocal (names : List String)
  | withStmt (isAsync : Bool) (context : Expr) (target : Option AssignTarget) (body : List Stmt)
  | matchStmt (subject : Expr) (cases : List MatchCase)
  | delete (targets : List AssignTarget)
  | breakStmt
  | continueStmt

/-- An `except` with its name and its body. -/
structure ExceptHandler where
  typeExpr : Option Expr
  name : Option String
  isStar : Bool
  body : List Stmt

/-- A `case` with its guard and its body. -/
structure MatchCase where
  pattern : Pattern
  guard : Option Expr
  body : List Stmt

end

/-- The statements of a module. -/
structure Module where
  body : List Stmt

end Pyrs
