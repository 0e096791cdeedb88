import Pyrs.Model.Compiler.Emit

/-!
# Functions, classes and type parameters

The routines of `compiler/mod.rs` that compile a nested code object and emit what builds a function
or a class from it.  Expressions and statements are compiled through `Routines`, which the recursion
of `Pyrs.Model.Compiler.Module` closes.
-/

namespace Pyrs

/-- The recursive calls of the compiler, and the nesting that a scope analysis may enter. -/
structure Routines where
  compileExpr : Expr → CompileM Unit
  compileStmt : Stmt → CompileM Unit
  scopeFuel : Nat

/-! ## Code objects -/

/-- A `from __future__ import` changes the flags of the code. -/
def recordFutureImport : CompileM Unit :=
  modify fun compiler => { compiler with code := { compiler.code with
    futureAnnotationsImport := compiler.futureAnnotationsImport } }

/-- `finish`. -/
def finish : CompileM Unit := do
  recordFutureImport
  emit .loadConst (some 0)
  emit .returnValue none

/-- `finish_expression`. -/
def finishExpression : CompileM Unit := do
  recordFutureImport
  emit .returnValue none

/-- Runs a code generator of its own and returns its code object. -/
def compileNested (compiler : Compiler) (action : CompileM Unit) : CompileM CodeObject := do
  let (_, compiler) ← (action compiler : Except CompileFailure _)
  pure compiler.code

/-- A constant index with `0` and the index of the docstring exchanged. -/
def swapDocConst (docConstIndex arg : Nat) : Nat :=
  if arg = 0 then docConstIndex else if arg = docConstIndex then 0 else arg

/-- A load of the first constant loads the docstring's place, and the other way. -/
def Instruction.swapDocConst (docConstIndex : Nat) : Instruction → Instruction
  | ⟨.loadConst, some arg⟩ => ⟨.loadConst, some (Pyrs.swapDocConst docConstIndex arg)⟩
  | instr => instr

/-- `promote_docstring_constant`. -/
def promoteDocstringConstant (code : CodeObject) (docConstIndex : Nat) : CodeObject :=
  if docConstIndex = 0 then code
  else
    { code with
      constants := (code.constants.set 0 (code.constants.getD docConstIndex .none)).set docConstIndex
        (code.constants.getD 0 .none)
      instructions := code.instructions.map (·.swapDocConst docConstIndex) }

/-- The docstring a body starts with. -/
def bodyDocstring (body : List Stmt) : Option String :=
  match body with
  | .expr (.constant (.str doc)) :: _ => some doc
  | _ => none

section Functions

variable (analyses : Analyses) (routines : Routines)

/-! ## Functions -/

/-- An expression, or `None` where there is none. -/
def compileOptional (expr : Option Expr) : CompileM Unit :=
  match expr with
  | some expr => routines.compileExpr expr
  | none => emit .loadConst (some 0)

/-- The statements of a body behind its docstring. -/
def compileBodyStmts (body : List Stmt) : CompileM Unit :=
  (if (bodyDocstring body).isSome then body.drop 1 else body).forM routines.compileStmt

/-- A body, with `__annotations__` where it has some. -/
def compileAnnotatedBody (body : List Stmt) : CompileM Unit := do
  if analyses.bodyHasAnnAssign body then initAnnotations
  compileBodyStmts routines body

/-- The statements of a function body, after what `compile_function` sets up. -/
def compileFunctionBody (body : List Stmt) : CompileM Unit := do
  (bodyDocstring body).forM fun doc => do
    let _ ← addConst (.str (compileCleanDocstring doc))
  compileAnnotatedBody analyses routines body
  finish

/-- The code generator that `compile_function` starts with. -/
def functionCompiler (outer : Compiler) (scope : ScopeInfo) (name : String) (isAsync : Bool)
    (sig : Signature) (body : List Stmt) : Compiler :=
  let compiler := Compiler.new name outer.formatting scope outer.privateName
  let mangled (param : Parameter) := manglePrivateIdentifier outer.privateName param.name
  let hasYield := analyses.bodyHasYield body
  { compiler with
    futureAnnotations := outer.futureAnnotations
    futureAnnotationsImport := outer.futureAnnotationsImport
    code := { compiler.code with
      posonlyParams := sig.posonlyParams.map mangled
      params := sig.params.map mangled
      kwonlyParams := sig.kwonlyParams.map mangled
      vararg := sig.vararg.map mangled
      kwarg := sig.kwarg.map mangled
      isGenerator := hasYield || isAsync
      isCoroutine := isAsync && !hasYield
      isAsyncGenerator := isAsync && hasYield } }

/-- `compile_function`: the docstring, when there is one, is constant `1` until it is promoted. -/
def compileFunction (name : String) (isAsync : Bool) (sig : Signature) (body : List Stmt) :
    CompileM CodeObject := do
  let outer ← get
  let scope ← analyses.forFunction routines.scopeFuel sig body outer.scope outer.privateName
  let code ← compileNested (functionCompiler analyses outer scope name isAsync sig body)
    (compileFunctionBody analyses routines body)
  pure (if (bodyDocstring body).isSome then promoteDocstringConstant code 1 else code)

/-- The value of an annotation. -/
def emitAnnotationExpr (expr : Expr) : CompileM Unit := do
  let compiler ← get
  if compiler.futureAnnotations then
    emitConst (.str (analyses.annotationExprToString compiler.formatting compiler.privateName expr))
  else
    routines.compileExpr expr

/-- The annotations of a function with the names they are stored under. -/
def annotationItems (sig : Signature) (returns : Option Expr) : List (String × Expr) :=
  sig.all.filterMap (fun param => param.annotationExpr.map (param.name, ·)) ++
    returns.toList.map ("return", ·)

/-- `emit_function_annotations`: whether there were any. -/
def emitFunctionAnnotations (sig : Signature) (returns : Option Expr) : CompileM Bool := do
  let items := annotationItems sig returns
  match items with
  | [] => pure false
  | items =>
    items.forM fun (name, expr) => do
      emitConst (.str name)
      emitAnnotationExpr analyses routines expr
    emit .buildDict (some items.length)
    pure true

/-- The defaults of positional parameters. -/
def positionalDefaults (sig : Signature) : List Expr :=
  (sig.posonlyParams ++ sig.params).filterMap (·.default)

/-- The keyword-only parameters that have a default, with it. -/
def keywordDefaults (sig : Signature) : List (String × Expr) :=
  sig.kwonlyParams.filterMap fun param => param.default.map (param.name, ·)

/-- `emit_function_with_defaults`. -/
def emitFunctionWithDefaults (sig : Signature) (returns : Option Expr) (funcCode : CodeObject) :
    CompileM Unit := do
  let needsClosure := !funcCode.freevars.isEmpty
  if needsClosure then emitClosureTuple funcCode.freevars
  let needsAnnotations ← emitFunctionAnnotations analyses routines sig returns
  (positionalDefaults sig).forM routines.compileExpr
  emit .buildTuple (some (positionalDefaults sig).length)
  (keywordDefaults sig).forM fun (name, default) => do
    emitConst (.str name)
    routines.compileExpr default
  emit .buildDict (some (keywordDefaults sig).length)
  let constIdx ← addConst (.code funcCode)
  emit .makeFunction (some constIdx)
  if needsAnnotations then emit .setFunctionAttribute (some 0x04)
  if needsClosure then emit .setFunctionAttribute (some 0x08)

/-- A helper function whose parameters are the type parameters bound so far, called on the
temporaries that hold them. -/
def emitTypeParamHelper (name : String) (bindings : List (String × String)) (expr : Expr) :
    CompileM Unit := do
  let sig : Signature := { params := bindings.map fun (name, _) => ⟨name, none, none⟩ }
  let helperCode ← compileFunction analyses routines name false sig [.returnStmt (some expr)]
  emitFunctionWithDefaults analyses routines sig none helperCode
  bindings.forM fun (_, temp) => emitLoadName temp
  emit .callFunction (some bindings.length)

/-! ## Type parameters -/

/-- The intrinsic that makes a type parameter. -/
def typeParamIntrinsic : TypeParamKind → Nat
  | .typeVar => 7
  | .paramSpec => 8
  | .typeVarTuple => 9

/-- An expression that sees the type parameters. -/
def emitTypeParamExprWithBindings (expr : Expr) (bindings : List (String × String)) :
    CompileM Unit :=
  if bindings.isEmpty then routines.compileExpr expr
  else emitTypeParamHelper analyses routines "<type_param_expr>" bindings expr

/-- Whether the bound of a type variable lists its constraints. -/
def boundIntrinsic : Expr → Nat
  | .tuple _ => 3
  | _ => 2

/-- A type parameter, with its bound and its default. -/
def emitTypeParamObject (param : TypeParam) (bindings : List (String × String)) :
    CompileM Unit := do
  emitConst (.str param.name)
  match param.kind, param.bound with
  | .typeVar, some bound =>
    emitTypeParamExprWithBindings analyses routines bound bindings
    emit .callIntrinsic2 (some (boundIntrinsic bound))
  | kind, _ => emit .callIntrinsic1 (some (typeParamIntrinsic kind))
  param.default.forM fun default => do
    emitTypeParamExprWithBindings analyses routines default bindings
    emit .callIntrinsic2 (some 5)

/-- `emit_type_param_temps`: the type parameters with the temporaries that hold them. -/
def emitTypeParamTemps (typeParams : List TypeParam) : CompileM (List (String × String)) :=
  typeParams.foldlM (fun bindings param => do
    let temp ← freshTemp "type_param"
    emitTypeParamObject analyses routines param bindings
    emitStoreName temp
    pure (bindings ++ [(param.name, temp)])) []

/-- The type parameters, from their temporaries. -/
def emitTypeParamsTupleFromTemps (bindings : List (String × String)) : CompileM Unit := do
  bindings.forM fun (_, temp) => emitLoadName temp
  emit .buildTuple (some bindings.length)

/-- The temporaries of the type parameters are deleted. -/
def emitDeleteTypeParamTemps (bindings : List (String × String)) : CompileM Unit :=
  bindings.forM fun (_, temp) => emitDeleteName temp

/-- The type parameters, evaluated into a tuple. -/
def emitTypeParamsTuple (typeParams : List TypeParam) : CompileM Unit := do
  let bindings ← emitTypeParamTemps analyses routines typeParams
  emitTypeParamsTupleFromTemps bindings
  emitDeleteTypeParamTemps bindings

/-! ## Definitions -/

/-- A signature without its annotations. -/
def Signature.dropAnnotations (sig : Signature) : Signature :=
  let dropAnnotation (param : Parameter) := { param with annotationExpr := none }
  ⟨sig.posonlyParams.map dropAnnotation, sig.params.map dropAnnotation,
    sig.kwonlyParams.map dropAnnotation, sig.vararg.map dropAnnotation,
    sig.kwarg.map dropAnnotation⟩

/-- `compile_function_def_stmt`. -/
def compileFunctionDefStmt (name : String) (typeParams : List TypeParam) (isAsync : Bool)
    (sig : Signature) (returns : Option Expr) (body : List Stmt) (storeTarget : Bool) :
    CompileM Unit := do
  let dropAnnotations := !typeParams.isEmpty && !(← get).futureAnnotations
  let funcCode ← compileFunction analyses routines name isAsync sig body
  emitFunctionWithDefaults analyses routines (if dropAnnotations then sig.dropAnnotations else sig)
    (if dropAnnotations then none else returns) funcCode
  if !typeParams.isEmpty then
    emitTypeParamsTuple analyses routines typeParams
    emit .callIntrinsic2 (some 4)
  if storeTarget then emitStoreNameScoped name

/-- The docstring of a class or module as `__doc__`. -/
def emitDocstring (body : List Stmt) : CompileM Unit :=
  (bodyDocstring body).forM fun doc => do
    emitConst (.str (compileCleanDocstring doc))
    emitStoreNameScoped "__doc__"

/-- The cell of `__class__`, which a class whose methods refer to it hands on. -/
def emitClassCell : CompileM Unit := do
  if (← get).scope.isCell "__class__" then
    let classDeref ← derefIndex "__class__"
    emit .loadClosure (some classDeref)
    let classcellIdx ← addName "__classcell__"
    emit .storeName (some classcellIdx)

/-- The statements of a class body, after what `compile_class` sets up. -/
def compileClassBody (body : List Stmt) : CompileM Unit := do
  emitDocstring body
  compileAnnotatedBody analyses routines body
  emitClassCell
  finish

/-- `compile_class`. -/
def compileClass (name : String) (body : List Stmt) : CompileM CodeObject := do
  let outer ← get
  let scope ← analyses.forClass routines.scopeFuel body outer.scope (some name)
  compileNested
    { Compiler.new s!"<class {name}>" outer.formatting scope (some name) with
      futureAnnotations := outer.futureAnnotations
      futureAnnotationsImport := outer.futureAnnotationsImport }
    (compileClassBody analyses routines body)

/-- A base in the list that a class statement builds. -/
def emitClassBase (base : CallArg) : CompileM Unit := do
  match base with
  | .positional expr =>
    routines.compileExpr expr
    emit .listAppend none
  | .star expr =>
    routines.compileExpr expr
    emit .listExtend none
  | .keyword _ _ | .doubleStar _ => compileError "invalid class base argument"

/-- The temporaries of a generic class: its type parameters and the tuple of them. -/
structure TypeParamTemps where
  bindings : List (String × String)
  tupleTemp : String

/-- The type parameters of a class, where it has some. -/
def emitClassTypeParams (typeParams : List TypeParam) : CompileM (Option TypeParamTemps) := do
  if typeParams.isEmpty then pure none
  else
    let bindings ← emitTypeParamTemps analyses routines typeParams
    let tupleTemp ← freshTemp "type_params_tuple"
    emitTypeParamsTupleFromTemps bindings
    emitStoreName tupleTemp
    pure (some ⟨bindings, tupleTemp⟩)

/-- What `compile_class_def` emits up to `BuildClass`. -/
def emitBuildClass (name : String) (temps : Option TypeParamTemps) (bases : List CallArg)
    (metaclass : Option Expr) (keywords : List (String × Expr)) (codeIdx : Nat) :
    CompileM Unit := do
  emit .buildList (some 0)
  bases.forM (emitClassBase routines)
  temps.forM fun temps => do
    emitLoadName temps.tupleTemp
    emit .callIntrinsic1 (some 10)
    emit .listAppend none
  let nameIdx ← addConst (.str name)
  emit .loadConst (some nameIdx)
  compileOptional routines metaclass
  keywords.forM fun (name, value) => do
    emitConst (.str name)
    routines.compileExpr value
  emit .buildDict (some keywords.length)
  emit .buildClass (some codeIdx)

/-- `compile_class_def`. -/
def compileClassDef (name : String) (typeParams : List TypeParam) (bases : List CallArg)
    (metaclass : Option Expr) (keywords : List (String × Expr)) (body : List Stmt)
    (storeTarget : Bool) : CompileM Unit := do
  let classCode ← compileClass analyses routines name body
  let codeIdx ← addConst (.code classCode)
  let temps ← emitClassTypeParams analyses routines typeParams
  emitBuildClass routines name temps bases metaclass keywords codeIdx
  match temps with
  | some temps =>
    let classTemp ← freshTemp "class_tp"
    emitStoreName classTemp
    emitLoadName classTemp
    emitLoadName temps.tupleTemp
    let typeParamsIdx ← addName "__type_params__"
    emit .storeAttr (some typeParamsIdx)
    emitLoadName classTemp
    if storeTarget then emitStoreNameScoped name
    emitDeleteName classTemp
    emitDeleteName temps.tupleTemp
    emitDeleteTypeParamTemps temps.bindings
  | none => if storeTarget then emitStoreNameScoped name

/-- `compile_type_alias_stmt`. -/
def compileTypeAliasStmt (name : String) (typeParams : List TypeParam) (value : Expr) :
    CompileM Unit := do
  let bindings ← emitTypeParamTemps analyses routines typeParams
  let tupleTemp ← freshTemp "type_params_tuple"
  emitTypeParamsTupleFromTemps bindings
  emitStoreName tupleTemp
  let valueTemp ← freshTemp "type_alias_value"
  if bindings.isEmpty then routines.compileExpr value
  else emitTypeParamHelper analyses routines "<type_alias_value>" bindings value
  emitStoreName valueTemp
  emitConst (.str name)
  emitLoadName tupleTemp
  emitLoadName valueTemp
  emit .buildTuple (some 3)
  emit .callIntrinsic1 (some 11)
  emitStoreNameScoped name
  emitDeleteName valueTemp
  emitDeleteName tupleTemp
  emitDeleteTypeParamTemps bindings

/-- The definition below decorators, left on the stack. -/
def compileDecoratedTarget (stmt : Stmt) : CompileM Unit :=
  match stmt with
  | .functionDef name typeParams isAsync posonlyParams params vararg kwarg kwonlyParams returns
      body =>
    compileFunctionDefStmt analyses routines name typeParams isAsync
      ⟨posonlyParams, params, kwonlyParams, vararg, kwarg⟩ returns body false
  | .classDef name typeParams bases metaclass keywords body =>
    compileClassDef analyses routines name typeParams bases metaclass keywords body false
  | _ => pure ()

/-- The name a decorated definition binds. -/
def decoratedName : Stmt → Option String
  | .functionDef name _ _ _ _ _ _ _ _ _ | .classDef name _ _ _ _ _ => some name
  | _ => none

/-- `compile_decorated_stmt`. -/
def compileDecoratedStmt (decorators : List Expr) (stmt : Stmt) : CompileM Unit := do
  match decoratedName stmt with
  | none => compileError "decorators can only target function or class definitions"
  | some targetName =>
    let tempNames ← decorators.mapM fun decorator => do
      let temp ← freshTemp "decorator"
      routines.compileExpr decorator
      emitStoreName temp
      pure temp
    compileDecoratedTarget analyses routines stmt
    let decoratedTemp ← freshTemp "decorated"
    emitStoreName decoratedTemp
    tempNames.reverse.forM fun temp => do
      emitLoadName temp
      emitLoadName decoratedTemp
      emit .callFunction (some 1)
      emitStoreName decoratedTemp
    emitLoadName decoratedTemp
    emitStoreNameScoped targetName
    emitDeleteName decoratedTemp
    tempNames.forM emitDeleteName

end Functions

end Pyrs
