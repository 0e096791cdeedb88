import Pyrs.Model.Compiler.Statements

/-!
# Modules

The recursion of the compiler is closed here, and `compile_module` is defined over it.
-/

namespace Pyrs

/-- The recursive calls with so much fuel.  Every nested expression, statement or scope takes some
of it. -/
def routines (analyses : Analyses) : Nat → Routines
  | 0 =>
    { compileExpr := fun _ => throw .outOfFuel
      compileStmt := fun _ => throw .outOfFuel
      scopeFuel := 0 }
  | fuel + 1 =>
    { compileExpr := compileExpr analyses (routines analyses fuel)
      compileStmt := compileStmt analyses (routines analyses fuel)
      scopeFuel := fuel + 1 }

/-! ## Future imports -/

def knownFutureFeatures : List String :=
  ["annotations", "nested_scopes", "generators", "division", "absolute_import", "with_statement",
    "print_function", "unicode_literals", "generator_stop", "barry_as_FLUFL"]

/-- The features of one `from __future__ import`, which all have to be known. -/
def checkFutureFeatures (names : List ImportAlias) : CompileM Unit :=
  names.forM fun importAlias =>
    if importAlias.name ∈ knownFutureFeatures then pure ()
    else compileError s!"future feature '{importAlias.name}' is not defined"

/-- The statements behind the docstring of a module, of which `seenNonFuture` says whether one was
no future import; the result says whether `annotations` was imported. -/
def validateFutureStmts (seenNonFuture futureAnnotations : Bool) : List Stmt → CompileM Bool
  | [] => pure futureAnnotations
  | .importFrom (some "__future__") names 0 :: stmts => do
    if seenNonFuture then
      compileError "from __future__ imports must occur at the beginning of the file"
    checkFutureFeatures names
    validateFutureStmts seenNonFuture
      (futureAnnotations || names.any (·.name = "annotations")) stmts
  | _ :: stmts => validateFutureStmts true futureAnnotations stmts

/-- `validate_future_imports`. -/
def validateFutureImports (body : List Stmt) : CompileM Bool :=
  validateFutureStmts false false (if (bodyDocstring body).isSome then body.drop 1 else body)

/-! ## Modules -/

def setFutureImports (futureAnnotationsImport : Bool) : CompileM Unit :=
  modify fun compiler => { compiler with futureAnnotationsImport, futureAnnotations := true }

/-- `Compiler::compile_module`: annotations are always compiled to their text. -/
def compileModuleBody (analyses : Analyses) (routines : Routines) (module : Module) :
    CompileM Unit := do
  setFutureImports (← validateFutureImports module.body)
  if analyses.bodyHasAnnAssign module.body then initAnnotations
  emitDocstring module.body
  compileBodyStmts routines module.body

/-- `compile_module`. -/
def compileModule (analyses : Analyses) (fuel : Nat) (formatting : Formatting) (module : Module) :
    Except CompileFailure CodeObject := do
  let scope ← analyses.forModule fuel module
  let (_, compiler) ← (do
    compileModuleBody analyses (routines analyses fuel) module
    finish : CompileM Unit)
    (Compiler.new "<module>" formatting scope none)
  pure compiler.code

/-- `compile_expression`. -/
def compileExpression (analyses : Analyses) (fuel : Nat) (formatting : Formatting) (expr : Expr) :
    Except CompileFailure CodeObject := do
  let scope ← analyses.forModule fuel ⟨[.expr expr]⟩
  let (_, compiler) ← (do
    (routines analyses fuel).compileExpr expr
    finishExpression : CompileM Unit)
    (Compiler.new "<module>" formatting scope none)
  pure compiler.code

/-- The analyses of a module of plain functions, whose local names are given. -/
def plainAnalyses (locals : Finset String) : Analyses where
  forModule _ _ := .ok ⟨.module, ∅, ∅, [], [], ∅, ∅, ∅⟩
  forClass _ _ _ _ := .ok ⟨.class, ∅, ∅, [], [], ∅, ∅, ∅⟩
  forFunction _ _ _ _ _ := .ok ⟨.function, locals, ∅, [], [], ∅, ∅, ∅⟩
  bodyHasYield _ := false
  exprHasAwait _ := false
  bodyContainsAwaitExprs _ := false
  bodyHasAnnAssign _ := false
  annotationExprToString _ _ _ := ""

end Pyrs
