import Pyrs.Model.Text
import Mathlib.Data.Finset.Union
import Mathlib.Data.List.Sort

/-!
# Scopes

What the analyses of `compiler/mod.rs` tell the code generator.  They are a parameter of the model:
what is proved of the emitted code holds whatever they answer.
-/

namespace Pyrs

/-- The kinds of scopes. -/
inductive ScopeType
  | module | function | «class» | lambda
  deriving DecidableEq, Repr

/-- How a compilation fails.  Fuel bounds the nesting that the recursion may enter; it is no part of
the source. -/
inductive CompileFailure
  | error (message : String)
  | outOfFuel
  deriving DecidableEq, Repr

/-- The parameter lists of a function, which the source passes side by side. -/
structure Signature where
  posonlyParams : List Parameter := []
  params : List Parameter := []
  kwonlyParams : List Parameter := []
  vararg : Option Parameter := none
  kwarg : Option Parameter := none

/-- The parameters in the order in which `collect_param_locals` visits them. -/
def Signature.all (sig : Signature) : List Parameter :=
  sig.posonlyParams ++ sig.params ++ sig.kwonlyParams ++ sig.vararg.toList ++ sig.kwarg.toList

/-- What the analysis says about a scope. -/
structure ScopeInfo where
  scopeType : ScopeType
  locals : Finset String
  globals : Finset String
  cellvars : List String
  freevars : List String
  cellvarSet : Finset String
  freevarSet : Finset String
  availableNonlocal : Finset String

/-- The names of a set in the order of `sort`. -/
def sortedNames (names : Finset String) : List String :=
  Quot.lift (List.insertionSort (· ≤ ·))
    (fun _ _ h => ((List.perm_insertionSort _ _).trans (h.trans
      (List.perm_insertionSort _ _).symm)).eq_of_pairwise'
        (List.pairwise_insertionSort _ _) (List.pairwise_insertionSort _ _)) names.val

/-- The expression of a call argument. -/
def CallArg.value : CallArg → Expr
  | .positional value | .keyword _ value | .star value | .doubleStar value => value

/-- The name an alias of a `from` import binds. -/
def ImportAlias.fromBinding (importAlias : ImportAlias) : String :=
  importAlias.asname.getD importAlias.name

/-- The answers of `analyze_scope` for a module, a class and a function, of the searches for
`yield`, `await` and annotated assignments, and of `annotation_expr_to_string`. -/
structure Analyses where
  forModule : Nat → Module → Except CompileFailure ScopeInfo
  forClass : Nat → List Stmt → ScopeInfo → Option String → Except CompileFailure ScopeInfo
  forFunction : Nat → Signature → List Stmt → ScopeInfo → Option String →
    Except CompileFailure ScopeInfo
  bodyHasYield : List Stmt → Bool
  exprHasAwait : Expr → Bool
  bodyContainsAwaitExprs : List Stmt → Bool
  bodyHasAnnAssign : List Stmt → Bool
  annotationExprToString : Formatting → Option String → Expr → String

def ScopeInfo.isLocal (scope : ScopeInfo) (name : String) : Bool := name ∈ scope.locals

def ScopeInfo.isCell (scope : ScopeInfo) (name : String) : Bool := name ∈ scope.cellvarSet

def ScopeInfo.isFree (scope : ScopeInfo) (name : String) : Bool := name ∈ scope.freevarSet

def ScopeInfo.isGlobal (scope : ScopeInfo) (name : String) : Bool := name ∈ scope.globals

end Pyrs
