import Pyrs.Model.Ast

/-!
# Names, and the bodies of comprehensions

The functions of `compiler/mod.rs` that only look at or build syntax: how private names are mangled,
and the statement bodies a comprehension is compiled through.
-/

namespace Pyrs

/-! ## Names -/

/-- `mangle_private_identifier`. -/
def manglePrivateIdentifier (privateName : Option String) (ident : String) : String :=
  match privateName with
  | none => ident
  | some privateName =>
    let chars := ident.toList
    if !(['_', '_'].isPrefixOf chars) || ['_', '_'].isSuffixOf chars || '.' ∈ chars ||
        chars.length < 3 then ident
    else
      let stripped := privateName.toList.dropWhile (· = '_')
      if stripped.isEmpty then ident
      else "_" ++ String.ofList stripped ++ ident

/-- The components of a dotted name. -/
def dottedParts (name : String) : List String :=
  (name.toList.splitOn '.').map String.ofList

/-- The name an `import` binds: its alias, or the first component of the module. -/
def ImportAlias.binding (importAlias : ImportAlias) : String :=
  importAlias.asname.getD ((dottedParts importAlias.name).headD importAlias.name)

/-! ## Comprehension bodies -/

/-- Some `for` of a comprehension is an `async for`. -/
def compClausesAreAsync (clauses : List ComprehensionClause) : Bool :=
  clauses.any (·.isAsync)

/-- The conditions of a clause around the statements below it, the first condition outermost. -/
def wrapInConditions (ifs : List Expr) (nested : List Stmt) : List Stmt :=
  ifs.foldr (fun cond nested => [.ifStmt cond nested []]) nested

/-- `build_comp_stmt_chain`: one loop per clause. -/
def buildCompStmtChain (clauses : List ComprehensionClause) (leaf : List Stmt) : List Stmt :=
  match clauses with
  | [] => leaf
  | first :: clauses =>
    [.forStmt first.isAsync first.target first.iter
      (wrapInConditions first.ifs (buildCompStmtChain clauses leaf)) []]

/-- The body of the function of a list comprehension. -/
def buildListCompBody (elt : Expr) (clauses : List ComprehensionClause) : List Stmt :=
  .assign [.name "__pyrs_comp_result"] (.list []) ::
    buildCompStmtChain clauses
      [.augAssign (.name "__pyrs_comp_result") .add (.list [elt])] ++
    [.returnStmt (some (.name "__pyrs_comp_result"))]

/-- The body of the function of a set comprehension. -/
def buildSetCompBody (elt : Expr) (clauses : List ComprehensionClause) : List Stmt :=
  .assign [.name "__pyrs_comp_result"] (.call (.name "set") []) ::
    buildCompStmtChain clauses
      [.expr (.call (.attribute (.name "__pyrs_comp_result") "add") [.positional elt])] ++
    [.returnStmt (some (.name "__pyrs_comp_result"))]

/-- The body of the function of a dict comprehension. -/
def buildDictCompBody (key value : Expr) (clauses : List ComprehensionClause) : List Stmt :=
  .assign [.name "__pyrs_comp_result"] (.dict []) ::
    buildCompStmtChain clauses
      [.assign [.subscript (.name "__pyrs_comp_result") key] value] ++
    [.returnStmt (some (.name "__pyrs_comp_result"))]

/-- The body of the function of a generator expression. -/
def buildGenexprBody (elt : Expr) (clauses : List ComprehensionClause) : List Stmt :=
  buildCompStmtChain clauses [.expr (.yield (some elt))]

mutual

/-- `rewrite_first_comp_iter_stmt`: the iterable of the first loop becomes the parameter.  The flag
says whether a loop was found. -/
def rewriteFirstCompIterStmt : Stmt → Stmt × Bool
  | .forStmt isAsync target _ body orelse =>
    (.forStmt isAsync target (.name "__pyrs_comp_iter0") body orelse, true)
  | .ifStmt test body orelse =>
    match rewriteFirstCompIterStmts body with
    | (body, true) => (.ifStmt test body orelse, true)
    | (body, false) =>
      let (orelse, found) := rewriteFirstCompIterStmts orelse
      (.ifStmt test body orelse, found)
  | stmt => (stmt, false)

def rewriteFirstCompIterStmts : List Stmt → List Stmt × Bool
  | [] => ([], false)
  | stmt :: stmts =>
    match rewriteFirstCompIterStmt stmt with
    | (stmt, true) => (stmt :: stmts, true)
    | (stmt, false) =>
      let (stmts, found) := rewriteFirstCompIterStmts stmts
      (stmt :: stmts, found)

end

/-- `rewrite_first_comp_iter_to_param`. -/
def rewriteFirstCompIterToParam (body : List Stmt) : List Stmt :=
  (rewriteFirstCompIterStmts body).1

end Pyrs
