import Pyrs.Model.Compiler.Patterns

/-!
# Statements

`compile_stmt` of `compiler/mod.rs` and the control flow below it: conditionals, loops, `with`,
`match`, and the forms of `try`.
-/

namespace Pyrs

section Statements

variable (analyses : Analyses) (routines : Routines)

/-- The loop over the statements of a body. -/
def compileBody (body : List Stmt) : CompileM Unit :=
  body.forM routines.compileStmt

/-! ## Conditionals and loops -/

/-- `if`. -/
def compileIf (test : Expr) (body orelse : List Stmt) : CompileM Unit := do
  routines.compileExpr test
  let jumpIfFalse ← emitJump .jumpIfFalse
  compileBody routines body
  if orelse.isEmpty then
    patchJump jumpIfFalse (← currentIp)
  else
    let jumpToEnd ← emitJump .jump
    patchJump jumpIfFalse (← currentIp)
    compileBody routines orelse
    patchJump jumpToEnd (← currentIp)

/-- The end of a loop, which is the same for `while` and `for`: the jump back, the `else` body, and
the jumps of `break` and `continue`. -/
def finishLoop (loopStart exitJump : Nat) (orelse : List Stmt) : CompileM Unit := do
  emit .jump (some loopStart)
  patchJump exitJump (← currentIp)
  let context ← popLoopContext
  compileBody routines orelse
  resolveLoopContext context (← currentIp)

/-- `while`. -/
def compileWhile (test : Expr) (body orelse : List Stmt) : CompileM Unit := do
  let loopStart ← currentIp
  routines.compileExpr test
  let jumpIfFalse ← emitJump .jumpIfFalse
  pushLoopContext ⟨loopStart, some loopStart, 0, [], []⟩
  compileBody routines body
  finishLoop routines loopStart jumpIfFalse orelse

/-- `for`. -/
def compileFor (target : AssignTarget) (iter : Expr) (body orelse : List Stmt) :
    CompileM Unit := do
  routines.compileExpr iter
  emit .getIter none
  let loopStart ← currentIp
  let jumpIfExhausted ← emitJump .forIter
  compileStoreTargetFromStack routines target
  pushLoopContext ⟨loopStart, some loopStart, 1, [], []⟩
  compileBody routines body
  finishLoop routines loopStart jumpIfExhausted orelse

/-- A call of a named function with one argument. -/
def callName (func : String) (arg : Expr) : Expr :=
  .call (.name func) [.positional arg]

/-- The `try` that fetches the next item of an asynchronous iterator. -/
def asyncForFetch (target : AssignTarget) (iterTemp exhaustedTemp : String) : Stmt :=
  .tryStmt [.assign [target] (.await (callName "anext" (.name iterTemp)))]
    [⟨some (.name "StopAsyncIteration"), none, false,
      [.assign [.name exhaustedTemp] (.constant (.bool true))]⟩] [] []

/-- `compile_async_for`: an asynchronous loop is a `while` loop that fetches the items itself. -/
def compileAsyncFor (target : AssignTarget) (iter : Expr) (body orelse : List Stmt) :
    CompileM Unit := do
  let iterTemp ← freshTemp "aiter"
  let exhaustedTemp ← freshTemp "async_for_exhausted"
  routines.compileStmt (.assign [.name iterTemp] (callName "aiter" iter))
  routines.compileStmt (.assign [.name exhaustedTemp] (.constant (.bool false)))
  routines.compileStmt (.whileStmt (.constant (.bool true))
    (asyncForFetch target iterTemp exhaustedTemp ::
      .ifStmt (.name exhaustedTemp) [.breakStmt] [] :: body) [])
  if !orelse.isEmpty then
    routines.compileStmt (.ifStmt (.name exhaustedTemp) orelse [])

/-! ## With -/

/-- `emit_with_exit`: the call of `__exit__` when no exception is raised. -/
def emitWithExit (ctxTemp : String) : CompileM Unit := do
  emitLoadName ctxTemp
  emitLoadAttr "__exit__"
  emit .loadConst (some 0)
  emit .loadConst (some 0)
  emit .loadConst (some 0)
  emit .callFunction (some 3)
  emit .popTop none

/-- The entry into a `with` statement, up to its body. -/
def emitWithEnter (context : Expr) (target : Option AssignTarget) (ctxTemp excTemp : String) :
    CompileM Unit := do
  routines.compileExpr context
  emitStoreName ctxTemp
  emit .loadConst (some 0)
  emitStoreName excTemp
  emitLoadName ctxTemp
  emitLoadAttr "__enter__"
  emit .callFunction (some 0)
  match target with
  | some target => compileStoreTargetFromStack routines target
  | none => emit .popTop none

/-- The call of `__exit__` on the exception that the handler of a `with` statement receives, whose
result is left on the stack. -/
def emitWithHandlerExit (ctxTemp excTemp : String) : CompileM Unit := do
  emitStoreName excTemp
  emitLoadName ctxTemp
  emitLoadAttr "__exit__"
  emitLoadName excTemp
  emitLoadAttr "__class__"
  emitLoadName excTemp
  emit .loadConst (some 0)
  emit .callFunction (some 3)

/-- `compile_with`. -/
def compileWith (context : Expr) (target : Option AssignTarget) (body : List Stmt) :
    CompileM Unit := do
  let ctxTemp ← freshTemp "ctx"
  let excTemp ← freshTemp "ctx_exc"
  emitWithEnter routines context target ctxTemp excTemp
  pushFinallyReturnContext
  let setupExcept ← emitJump .setupExcept
  compileBody routines body
  let returnContext ← popFinallyReturnContext
  emit .popBlock none
  patchDeferredReturnsTo returnContext (← currentIp)
  emitWithExit ctxTemp
  emitFinallyReturnEpilogue returnContext
  let jumpToEnd ← emitJump .jump
  patchJump setupExcept (← currentIp)
  emitWithHandlerExit ctxTemp excTemp
  let jumpIfNotSuppressed ← emitJump .jumpIfFalse
  emit .clearException none
  let suppressedJump ← emitJump .jump
  patchJump jumpIfNotSuppressed (← currentIp)
  emit .clearException none
  emitLoadName excTemp
  emit .reraise (some 0)
  let endTarget ← currentIp
  patchJump jumpToEnd endTarget
  patchJump suppressedJump endTarget
  emitDeleteName excTemp
  emitDeleteName ctxTemp

/-- The await of a method of an asynchronous context manager. -/
def awaitMethod (ctxTemp method : String) (args : List CallArg) : Expr :=
  .await (.call (.attribute (.name ctxTemp) method) args)

/-- `compile_async_with`: the exit is a `finally` body, which gets no exception. -/
def compileAsyncWith (context : Expr) (target : Option AssignTarget) (body : List Stmt) :
    CompileM Unit := do
  let ctxTemp ← freshTemp "actx"
  routines.compileStmt (.assign [.name ctxTemp] context)
  match target with
  | some target =>
    routines.compileStmt (.assign [target] (awaitMethod ctxTemp "__aenter__" []))
  | none => routines.compileStmt (.expr (awaitMethod ctxTemp "__aenter__" []))
  routines.compileStmt (.tryStmt body [] []
    [.expr (awaitMethod ctxTemp "__aexit__" (List.replicate 3 (.positional (.constant .none))))])

/-! ## Raise and assert -/

/-- `raise`. -/
def compileRaise (value cause : Option Expr) : CompileM Unit := do
  match value, cause with
  | some value, some cause =>
    routines.compileExpr value
    routines.compileExpr cause
    emit .raise (some 2)
  | some value, none =>
    routines.compileExpr value
    emit .raise (some 1)
  | none, some _ => compileError "raise from requires an exception value"
  | none, none => emit .raise (some 0)

/-- `assert`. -/
def compileAssert (test : Expr) (message : Option Expr) : CompileM Unit := do
  routines.compileExpr test
  let jumpIfTrue ← emitJump .jumpIfTrue
  emitLoadName "AssertionError"
  match message with
  | some message =>
    routines.compileExpr message
    emit .callFunction (some 1)
  | none => emit .callFunction (some 0)
  emit .raise (some 1)
  patchJump jumpIfTrue (← currentIp)

/-! ## Match -/

/-- The guard of a case with the jump for its failure. -/
def compileGuard (guard : Option Expr) : CompileM (List Nat) := do
  match guard with
  | some guard =>
    routines.compileExpr guard
    let jump ← emitJump .jumpIfFalse
    pure [jump]
  | none => pure []

/-- A case of a `match` statement: the jump behind its body is returned. -/
def compileMatchCase (subjectTemp : String) (case : MatchCase) : CompileM Nat := do
  compilePatternTest routines subjectTemp case.pattern
  let nextCase ← emitJump .jumpIfFalse
  compilePatternBindings routines subjectTemp case.pattern
  let guardJumps ← compileGuard routines case.guard
  compileBody routines case.body
  let endJump ← emitJump .jump
  patchJumps (nextCase :: guardJumps) (← currentIp)
  pure endJump

/-- `match`. -/
def compileMatch (subject : Expr) (cases : List MatchCase) : CompileM Unit := do
  validateMatchCases cases
  let subjectTemp ← freshTemp "match_subject"
  routines.compileExpr subject
  emitStoreName subjectTemp
  let endJumps ← cases.mapM (compileMatchCase routines subjectTemp)
  patchJumps endJumps (← currentIp)

/-! ## Try -/

/-- The store of the exception under the name of a handler, or its removal from the stack. -/
def emitHandlerName (name : Option String) : CompileM Unit :=
  match name with
  | some name => emitStoreNameScoped name
  | none => emit .popTop none

/-- The body of a handler between the binding of its name and the jump behind it. -/
def emitHandlerBody (name : Option String) (body : List Stmt) : CompileM Unit := do
  emitHandlerName name
  compileBody routines body
  name.forM emitDeleteName
  emit .clearException none

/-- A handler of `try`/`except`: the jump behind it is returned. -/
def compileExceptHandler (handler : ExceptHandler) : CompileM Nat := do
  match handler.typeExpr with
  | some typeExpr =>
    emit .dupTop none
    routines.compileExpr typeExpr
    emit .matchException none
    let nextHandlerJump ← emitJump .jumpIfFalse
    emitHandlerBody routines handler.name handler.body
    let endJump ← emitJump .jump
    patchJump nextHandlerJump (← currentIp)
    pure endJump
  | none =>
    emitHandlerBody routines handler.name handler.body
    emitJump .jump

/-- The body of a `try` with handlers, its `else` body, and the entry of the handlers: the jump
behind the statement is returned. -/
def compileGuardedBody (body orelse : List Stmt) : CompileM Nat := do
  let setupExcept ← emitJump .setupExcept
  compileBody routines body
  emit .popBlock none
  compileBody routines orelse
  let jumpToEnd ← emitJump .jump
  patchJump setupExcept (← currentIp)
  pure jumpToEnd

/-- `compile_try_except`. -/
def compileTryExcept (body : List Stmt) (handlers : List ExceptHandler) (orelse : List Stmt) :
    CompileM Unit := do
  let jumpToEnd ← compileGuardedBody routines body orelse
  let endJumps ← handlers.mapM (compileExceptHandler routines)
  emit .raise (some 1)
  patchJumps (jumpToEnd :: endJumps) (← currentIp)

/-- A handler of `try`/`except*`: the remainder is split, and the handler runs on what matches. -/
def compileExceptStarHandler (remainingName : String) (handler : ExceptHandler) :
    CompileM Unit := do
  if !handler.isStar then
    compileError "cannot mix 'except' and 'except*' in the same try"
  match handler.typeExpr with
  | none => compileError "except* requires an exception type"
  | some typeExpr =>
    emitLoadName remainingName
    routines.compileExpr typeExpr
    emit .matchExceptionStar none
    emitStoreName remainingName
    emit .dupTop none
    let nextHandlerJump ← emitJump .jumpIfNone
    emitHandlerBody routines handler.name handler.body
    let matchedContinueJump ← emitJump .jump
    patchJump nextHandlerJump (← currentIp)
    emit .popTop none
    patchJump matchedContinueJump (← currentIp)

/-- `compile_try_except_star`. -/
def compileTryExceptStar (body : List Stmt) (handlers : List ExceptHandler)
    (orelse : List Stmt) : CompileM Unit := do
  let jumpToEnd ← compileGuardedBody routines body orelse
  let remainingName ← freshTemp "except_star_remaining"
  emitStoreName remainingName
  handlers.forM (compileExceptStarHandler routines remainingName)
  emitLoadName remainingName
  let noReraiseJump ← emitJump .jumpIfNone
  emitLoadName remainingName
  emit .raise (some 1)
  patchJump noReraiseJump (← currentIp)
  patchJump jumpToEnd (← currentIp)

/-- What `compile_try_finally`, `compile_try_except_finally` and `compile_try_except_star_finally`
share: the protected code, the `finally` body for its normal end and for deferred returns, and the
`finally` body once more as a handler. -/
def compileFinally (emitProtected : CompileM Unit) (finalbody : List Stmt) : CompileM Unit := do
  pushFinallyReturnContext
  let setupFinally ← emitJump .setupExcept
  emitProtected
  let returnContext ← popFinallyReturnContext
  emit .popBlock none
  patchDeferredReturnsTo returnContext (← currentIp)
  compileBody routines finalbody
  emitFinallyReturnEpilogue returnContext
  let jumpToEnd ← emitJump .jump
  patchJump setupFinally (← currentIp)
  let finallyExcName ← freshTemp "finally_exc"
  emitStoreName finallyExcName
  compileBody routines finalbody
  emitLoadName finallyExcName
  emit .reraise (some 0)
  patchJump jumpToEnd (← currentIp)

/-- `try` with a `finally`. -/
def compileTryFinally (body finalbody : List Stmt) : CompileM Unit :=
  compileFinally routines (compileBody routines body) finalbody

/-- `try` with handlers and a `finally`. -/
def compileTryExceptFinally (body : List Stmt) (handlers : List ExceptHandler)
    (orelse finalbody : List Stmt) : CompileM Unit :=
  compileFinally routines (compileTryExcept routines body handlers orelse) finalbody

/-- `try` with `except*` and a `finally`. -/
def compileTryExceptStarFinally (body : List Stmt) (handlers : List ExceptHandler)
    (orelse finalbody : List Stmt) : CompileM Unit :=
  compileFinally routines (compileTryExceptStar routines body handlers orelse) finalbody

/-- `compile_try`. -/
def compileTry (body : List Stmt) (handlers : List ExceptHandler) (orelse finalbody : List Stmt) :
    CompileM Unit :=
  if handlers.isEmpty then
    if finalbody.isEmpty then compileError "try requires except or finally"
    else compileTryFinally routines body finalbody
  else if handlers.any (·.isStar) && handlers.any (!·.isStar) then
    compileError "cannot mix 'except' and 'except*' in the same try"
  else if handlers.any (·.isStar) then
    if finalbody.isEmpty then compileTryExceptStar routines body handlers orelse
    else compileTryExceptStarFinally routines body handlers orelse finalbody
  else if finalbody.isEmpty then compileTryExcept routines body handlers orelse
  else compileTryExceptFinally routines body handlers orelse finalbody

/-! ## Imports and returns -/

/-- `emit_import_attr_chain`. -/
def emitImportAttrChain (module : String) : CompileM Unit :=
  ((dottedParts module).drop 1).forM emitLoadAttr

/-- A name of an `import`. -/
def compileImportAlias (importAlias : ImportAlias) : CompileM Unit := do
  let constIdx ← addConst (.str importAlias.name)
  emit .importName (some constIdx)
  if importAlias.asname.isSome && (dottedParts importAlias.name).length > 1 then
    emitImportAttrChain importAlias.name
  emitStoreNameScoped importAlias.binding

/-- A name of a `from … import`. -/
def compileFromAlias (importAlias : ImportAlias) : CompileM Unit := do
  let attrIdx ← addName importAlias.name
  emit .importFromCpython (some attrIdx)
  if importAlias.name = "*" then emit .popTop none
  else emitStoreNameScoped importAlias.fromBinding

/-- A `from` import; those of `__future__` are directives and emit a `Nop`. -/
def compileImportFrom (module : Option String) (names : List ImportAlias) (level : Nat) :
    CompileM Unit :=
  if level = 0 ∧ module = some "__future__" then emit .nop none
  else do
    let importNameIdx ← addName (module.getD "")
    emitConst (.int level)
    names.forM fun importAlias => emitConst (.str importAlias.name)
    emit .buildTuple (some names.length)
    emit .importNameCpython (some importNameIdx)
    names.forM compileFromAlias
    emit .popTop none

/-- `return`; inside a `finally` it waits for the end of it. -/
def compileReturn (value : Option Expr) : CompileM Unit := do
  if !(← inFunction) then compileError "'return' outside function"
  if (← get).code.isAsyncGenerator && value.isSome then
    compileError "'return' with value in async generator"
  compileOptional routines value
  emitReturnOrDefer

/-! ## Statements -/

/-- `compile_stmt`. -/
def compileStmt (stmt : Stmt) : CompileM Unit := do
  match stmt with
  | .pass => emit .nop none
  | .expr expr =>
    routines.compileExpr expr
    emit .popTop none
  | .assign targets value => compileAssignTargets routines targets value
  | .annAssign target annotationExpr value simple =>
    compileAnnAssign analyses routines target annotationExpr value simple
  | .augAssign target op value => compileAugAssign routines target op value
  | .ifStmt test body orelse => compileIf routines test body orelse
  | .whileStmt test body orelse => compileWhile routines test body orelse
  | .functionDef name typeParams isAsync posonlyParams params vararg kwarg kwonlyParams returns
      body =>
    compileFunctionDefStmt analyses routines name typeParams isAsync
      ⟨posonlyParams, params, kwonlyParams, vararg, kwarg⟩ returns body true
  | .classDef name typeParams bases metaclass keywords body =>
    compileClassDef analyses routines name typeParams bases metaclass keywords body true
  | .typeAlias name typeParams value => compileTypeAliasStmt analyses routines name typeParams value
  | .delete targets => compileDelete routines targets
  | .decorated decorators stmt => compileDecoratedStmt analyses routines decorators stmt
  | .returnStmt value => compileReturn routines value
  | .raise value cause => compileRaise routines value cause
  | .assert test message => compileAssert routines test message
  | .tryStmt body handlers orelse finalbody => compileTry routines body handlers orelse finalbody
  | .forStmt isAsync target iter body orelse =>
    if isAsync then compileAsyncFor routines target iter body orelse
    else compileFor routines target iter body orelse
  | .importStmt names => names.forM compileImportAlias
  | .importFrom module names level => compileImportFrom module names level
  | .global _ | .nonlocal _ => pure ()
  | .withStmt isAsync context target body =>
    if isAsync then compileAsyncWith routines context target body
    else compileWith routines context target body
  | .matchStmt subject cases => compileMatch routines subject cases
  | .breakStmt => compileBreak
  | .continueStmt => compileContinue

end Statements

end Pyrs
