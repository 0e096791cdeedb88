import Pyrs.Model.Compiler.Functions

/-!
# Expressions and assignment targets

`compile_expr` of `compiler/mod.rs` with the routines below it, and the routines that store into,
delete and augment targets.
-/

namespace Pyrs

section Expressions

variable (analyses : Analyses) (routines : Routines)

/-! ## Comprehensions -/

/-- The parameters of a comprehension: the first iterable, when there is a clause. -/
def compParams (clauses : List ComprehensionClause) : List Parameter :=
  if clauses.isEmpty then [] else [⟨"__pyrs_comp_iter0", none, none⟩]

/-- `emit_comp_function`: the first iterable is evaluated here and passed as an argument. -/
def emitCompFunction (name : String) (clauses : List ComprehensionClause) (body : List Stmt) :
    CompileM Unit := do
  let outerIter := clauses.head?.map (·.iter)
  let body := if clauses.isEmpty then body else rewriteFirstCompIterToParam body
  let sig : Signature := { params := compParams clauses }
  let isAsyncComp :=
    compClausesAreAsync clauses || analyses.bodyContainsAwaitExprs body ||
      outerIter.any analyses.exprHasAwait
  let compIsGenerator := analyses.bodyHasYield body
  let code := (← get).code
  if isAsyncComp && !compIsGenerator && !code.isCoroutine && !code.isAsyncGenerator then
    compileError "'await' outside function"
  let funcCode ← compileFunction analyses routines name isAsyncComp sig body
  emitFunctionWithDefaults analyses routines sig none funcCode
  outerIter.forM routines.compileExpr
  emit .callFunction (some sig.params.length)
  if isAsyncComp && !compIsGenerator then
    emit .getAwaitable none
    emit .yieldFrom none

/-! ## Calls -/

/-- `pack_call_counts`. -/
def packCallCounts (positional keywords : Nat) : CompileM Nat :=
  if positional > 0xFFFF ∨ keywords > 0xFFFF then compileError "too many call arguments"
  else pure ((keywords <<< 16) ||| positional)

/-- `*` or `**`. -/
def CallArg.isStarred : CallArg → Bool
  | .star _ | .doubleStar _ => true
  | .positional _ | .keyword _ _ => false

/-- An argument by keyword. -/
def CallArg.isKeyword : CallArg → Bool
  | .keyword _ _ => true
  | _ => false

/-- An argument whose value is held by a temporary. -/
inductive TempArg
  | positional (temp : String)
  | keyword (name temp : String)
  | star (temp : String)
  | doubleStar (temp : String)

/-- The argument behind its evaluation, in a temporary. -/
def CallArg.withTemp (arg : CallArg) (temp : String) : TempArg :=
  match arg with
  | .positional _ => .positional temp
  | .keyword name _ => .keyword name temp
  | .star _ => .star temp
  | .doubleStar _ => .doubleStar temp

/-- An argument of a call with unpacking: its value goes into a temporary. -/
def emitTempArg (arg : CallArg) : CompileM TempArg := do
  let temp ← freshTemp "arg"
  routines.compileExpr arg.value
  emitStoreName temp
  pure (arg.withTemp temp)

/-- The part of a temporary that goes into the list of positional arguments. -/
def emitPositionalTemp : TempArg → CompileM Unit
  | .positional temp => do
    emitLoadName temp
    emit .listAppend none
  | .star temp => do
    emitLoadName temp
    emit .listExtend none
  | .keyword _ _ | .doubleStar _ => pure ()

/-- The part of a temporary that goes into the mapping of keyword arguments. -/
def emitKeywordTemp : TempArg → CompileM Unit
  | .keyword name temp => do
    emitConst (.str name)
    emitLoadName temp
    emit .dictSet none
  | .doubleStar temp => do
    emitLoadName temp
    emit .dictUpdate none
  | .positional _ | .star _ => pure ()

/-- The call of a function on the stack with unpacked arguments. -/
def compileStarredCall (args : List CallArg) : CompileM Unit := do
  let temps ← args.mapM (emitTempArg routines)
  emit .buildList (some 0)
  temps.forM emitPositionalTemp
  emit .buildDict (some 0)
  temps.forM emitKeywordTemp
  emit .callFunctionVar none

/-- An argument of a call without unpacking. -/
def emitCallArg : CallArg → CompileM Unit
  | .positional value => routines.compileExpr value
  | .keyword name value => do
    emitConst (.str name)
    routines.compileExpr value
  | .star _ | .doubleStar _ => pure ()

/-- The call of a function on the stack without unpacked arguments. -/
def compilePlainCall (args : List CallArg) : CompileM Unit := do
  args.forM (emitCallArg routines)
  let kwCount := args.countP (·.isKeyword)
  let posCount := args.countP fun arg => !arg.isKeyword && !arg.isStarred
  if kwCount > 0 then
    let packed ← packCallCounts posCount kwCount
    emit .callFunctionKw (some packed)
  else
    emit .callFunction (some posCount)

/-! ## Displays and literals -/

/-- `**` in a dict display. -/
def DictEntry.isUnpack : DictEntry → Bool
  | .unpack _ => true
  | .pair _ _ => false

/-- An entry of a dict display that unpacks a mapping somewhere. -/
def emitDictEntry : DictEntry → CompileM Unit
  | .pair key value => do
    routines.compileExpr key
    routines.compileExpr value
    emit .dictSet none
  | .unpack mapping => do
    routines.compileExpr mapping
    emit .dictUpdate none

/-- An entry of a dict display without unpacking. -/
def emitDictPair : DictEntry → CompileM Unit
  | .pair key value => do
    routines.compileExpr key
    routines.compileExpr value
  | .unpack _ => pure ()

/-- A dict display; with an unpacking the entries are added one by one. -/
def compileDict (entries : List DictEntry) : CompileM Unit := do
  if entries.any (·.isUnpack) then
    emit .buildDict (some 0)
    entries.forM (emitDictEntry routines)
  else
    entries.forM (emitDictPair routines)
    emit .buildDict (some entries.length)

/-- The number of a conversion. -/
def templateConversionCode : Option Char → CompileM Nat
  | none => pure 0
  | some 's' => pure 1
  | some 'r' => pure 2
  | some 'a' => pure 3
  | some other => compileError s!"invalid template interpolation conversion: {other}"

/-- `template_interpolation_arg`. -/
def templateInterpolationArg (conversion : Option Char) (hasFormatSpec : Bool) : CompileM Nat := do
  let conversionCode ← templateConversionCode conversion
  pure (2 ||| (conversionCode <<< 2) ||| (if hasFormatSpec then 1 else 0))

/-- A field of a template string. -/
def emitInterpolation (interpolation : TemplateInterpolation) : CompileM Unit := do
  routines.compileExpr interpolation.value
  emitConst (.str interpolation.expression)
  let formatSpec := interpolation.formatSpec.filter (· ≠ "")
  formatSpec.forM fun spec => emitConst (.str spec)
  let arg ← templateInterpolationArg interpolation.conversion formatSpec.isSome
  emit .buildInterpolation (some arg)

/-- `compile_template_literal`. -/
def compileTemplateLiteral (strings : List String) (interpolations : List TemplateInterpolation) :
    CompileM Unit := do
  if strings.length ≠ interpolations.length + 1 then
    compileError "invalid template literal structure"
  strings.forM fun string => emitConst (.str string)
  emit .buildTuple (some strings.length)
  interpolations.forM (emitInterpolation routines)
  emit .buildTuple (some interpolations.length)
  emit .buildTemplate none

/-! ## Operators -/

/-- The instruction of an operator. -/
def binaryOpcode : BinaryOp → Opcode
  | .add => .binaryAdd
  | .sub => .binarySub
  | .mul => .binaryMul
  | .matMul => .binaryMatMul
  | .div => .binaryDiv
  | .pow => .binaryPow
  | .floorDiv => .binaryFloorDiv
  | .mod => .binaryMod
  | .lShift => .binaryLShift
  | .rShift => .binaryRShift
  | .bitAnd => .binaryAnd
  | .bitXor => .binaryXor
  | .bitOr => .binaryOr
  | .eq => .compareEq
  | .ne => .compareNe
  | .lt => .compareLt
  | .le => .compareLe
  | .gt => .compareGt
  | .ge => .compareGe
  | .in => .compareIn
  | .notIn => .compareNotIn
  | .is => .compareIs
  | .isNot => .compareIsNot

/-- The opcode that takes its right operand from the constants, where there is one. -/
def constOperandOpcode : BinaryOp → Option Opcode
  | .sub => some .binarySubConst
  | .lt => some .compareLtConst
  | _ => none

/-- A binary operation, with a fused instruction for a constant on the right. -/
def compileBinary (left : Expr) (op : BinaryOp) (right : Expr) : CompileM Unit := do
  match constOperandOpcode op, right with
  | some opcode, .constant value =>
    routines.compileExpr left
    let idx ← addConst (constantToValue value)
    emit opcode (some idx)
  | _, _ =>
    routines.compileExpr left
    routines.compileExpr right
    emit (binaryOpcode op) none

/-- The instruction of an operator. -/
def unaryOpcode : UnaryOp → Opcode
  | .neg => .unaryNeg
  | .not => .unaryNot
  | .pos => .unaryPos
  | .invert => .unaryInvert

/-- The jump that skips the right operand. -/
def boolOpJump : BoolOp → Opcode
  | .and => .jumpIfFalse
  | .or => .jumpIfTrue

/-- `compile_bool_op`: the value that decides is left on the stack. -/
def compileBoolOp (op : BoolOp) (left right : Expr) : CompileM Unit := do
  routines.compileExpr left
  emit .dupTop none
  let jump ← emitJump (boolOpJump op)
  emit .popTop none
  routines.compileExpr right
  patchJump jump (← currentIp)

/-- A conditional expression. -/
def compileIfExpr (test body orelse : Expr) : CompileM Unit := do
  routines.compileExpr test
  let jumpIfFalse ← emitJump .jumpIfFalse
  routines.compileExpr body
  let jumpToEnd ← emitJump .jump
  patchJump jumpIfFalse (← currentIp)
  routines.compileExpr orelse
  patchJump jumpToEnd (← currentIp)

/-- `matches!(scope_type, Function | Lambda)`. -/
def inFunction : CompileM Bool := do
  let scopeType := (← get).scope.scopeType
  pure (scopeType = .function ∨ scopeType = .lambda)

/-- `compile_expr`. -/
def compileExpr (expr : Expr) : CompileM Unit := do
  match expr with
  | .name name => emitLoadName name
  | .constant value => emitConst (constantToValue value)
  | .binary left op right => compileBinary routines left op right
  | .unary op operand =>
    routines.compileExpr operand
    emit (unaryOpcode op) none
  | .boolOp op left right => compileBoolOp routines op left right
  | .ifExpr test body orelse => compileIfExpr routines test body orelse
  | .namedExpr target value =>
    routines.compileExpr value
    emit .dupTop none
    emitStoreNameScoped target
  | .lambda posonlyParams params vararg kwarg kwonlyParams body =>
    let sig : Signature := ⟨posonlyParams, params, kwonlyParams, vararg, kwarg⟩
    let funcCode ← compileFunction analyses routines "<lambda>" false sig [.returnStmt (some body)]
    emitFunctionWithDefaults analyses routines sig none funcCode
  | .yield value =>
    if !(← inFunction) then compileError "'yield' outside function"
    compileOptional routines value
    emit .yieldValue none
  | .yieldFrom value =>
    if !(← inFunction) then compileError "'yield from' outside function"
    routines.compileExpr value
    emit .yieldFrom none
  | .await value =>
    let code := (← get).code
    if !code.isCoroutine && !code.isAsyncGenerator then
      compileError "'await' outside function"
    routines.compileExpr value
    emit .getAwaitable none
    emit .yieldFrom none
  | .listComp elt clauses =>
    emitCompFunction analyses routines "<listcomp>" clauses (buildListCompBody elt clauses)
  | .setComp elt clauses =>
    emitCompFunction analyses routines "<setcomp>" clauses (buildSetCompBody elt clauses)
  | .dictComp key value clauses =>
    emitCompFunction analyses routines "<dictcomp>" clauses (buildDictCompBody key value clauses)
  | .generatorExp elt clauses =>
    emitCompFunction analyses routines "<genexpr>" clauses (buildGenexprBody elt clauses)
  | .call func args =>
    routines.compileExpr func
    if args.any (·.isStarred) then compileStarredCall routines args
    else compilePlainCall routines args
  | .list elements =>
    elements.forM routines.compileExpr
    emit .buildList (some elements.length)
  | .tuple elements =>
    elements.forM routines.compileExpr
    emit .buildTuple (some elements.length)
  | .dict entries => compileDict routines entries
  | .subscript value index =>
    routines.compileExpr value
    routines.compileExpr index
    emit .subscript none
  | .attribute value name =>
    routines.compileExpr value
    emitLoadAttr (← mangledName name)
  | .templateLiteral strings interpolations =>
    compileTemplateLiteral routines strings interpolations
  | .slice lower upper step =>
    compileOptional routines lower
    compileOptional routines upper
    compileOptional routines step
    emit .buildSlice none

/-! ## Targets -/

/-- A target with a star. -/
def AssignTarget.isStarred : AssignTarget → Bool
  | .starred _ => true
  | _ => false

/-- The argument of `UnpackEx`: the targets after the star in the upper half of 32 bits, those
before it in the lower half. -/
def packUnpackCounts (before after : Nat) : Nat :=
  ((after <<< 16) ||| before) % 2 ^ 32

/-- The instruction that spreads a value over the items of a target. -/
def emitUnpack (items : List AssignTarget) : CompileM Unit := do
  if items.countP (·.isStarred) > 1 then
    compileError "multiple starred targets in assignment"
  match items.findIdx? (·.isStarred) with
  | some starIdx =>
    emit .unpackEx (some (packUnpackCounts starIdx (items.length - starIdx - 1)))
  | none => emit .unpackSequence (some items.length)

mutual

/-- `compile_store_target_from_stack`. -/
def compileStoreTargetFromStack : AssignTarget → CompileM Unit
  | .name name => emitStoreNameScoped name
  | .starred item => compileStoreTargetFromStack item
  | .tuple items | .list items => do
    emitUnpack items
    compileStoreTargetsReversed items
  | .attribute value name => do
    let temp ← freshTemp "assign"
    emitStoreName temp
    routines.compileExpr value
    emitLoadName temp
    let idx ← addName (← mangledName name)
    emit .storeAttr (some idx)
    emitDeleteName temp
  | .subscript value index => do
    let temp ← freshTemp "assign"
    emitStoreName temp
    routines.compileExpr value
    routines.compileExpr index
    emitLoadName temp
    emit .storeSubscript none
    emit .popTop none
    emitDeleteName temp

/-- The items of a target from the last to the first. -/
def compileStoreTargetsReversed : List AssignTarget → CompileM Unit
  | [] => pure ()
  | item :: items => do
    compileStoreTargetsReversed items
    compileStoreTargetFromStack item

end

/-- The targets of a chained assignment, of which every one but the last stores a copy. -/
def compileStoreTargets : List AssignTarget → CompileM Unit
  | [] => pure ()
  | [target] => compileStoreTargetFromStack routines target
  | target :: targets => do
    emit .dupTop none
    compileStoreTargetFromStack routines target
    compileStoreTargets targets

/-- `compile_assign_targets`. -/
def compileAssignTargets (targets : List AssignTarget) (value : Expr) : CompileM Unit :=
  if targets.isEmpty then pure ()
  else do
    routines.compileExpr value
    compileStoreTargets routines targets

mutual

/-- `compile_delete_target`. -/
def compileDeleteTarget : AssignTarget → CompileM Unit
  | .name name => emitDeleteName name
  | .starred _ => compileError "cannot delete starred target"
  | .attribute value name => do
    routines.compileExpr value
    let idx ← addName (← mangledName name)
    emit .deleteAttr (some idx)
  | .subscript value index => do
    routines.compileExpr value
    routines.compileExpr index
    emit .deleteSubscript none
  | .tuple items | .list items => compileDelete items

/-- `compile_delete`. -/
def compileDelete : List AssignTarget → CompileM Unit
  | [] => pure ()
  | target :: targets => do
    compileDeleteTarget target
    compileDelete targets

end

/-- `compile_ann_assign`. -/
def compileAnnAssign (target : AssignTarget) (annotationExpr : Expr) (value : Option Expr)
    (simple : Bool) : CompileM Unit := do
  match target, simple with
  | .name name, true =>
    ensureLocalName "__annotations__"
    emitLoadName "__annotations__"
    emitConst (.str (← mangledName name))
    emitAnnotationExpr analyses routines annotationExpr
    emit .dictSet none
    emitStoreNameScoped "__annotations__"
  | _, _ =>
    emitAnnotationExpr analyses routines annotationExpr
    emit .popTop none
  value.forM fun expr => compileAssignTargets routines [target] expr

/-- The instruction of an augmented assignment. -/
def augOpcode : AugOp → Opcode
  | .add => .inplaceAdd
  | .sub => .binarySub
  | .mul => .binaryMul
  | .matMul => .binaryMatMul
  | .div => .binaryDiv
  | .mod => .binaryMod
  | .floorDiv => .binaryFloorDiv
  | .pow => .binaryPow
  | .lShift => .binaryLShift
  | .rShift => .binaryRShift
  | .bitAnd => .binaryAnd
  | .bitXor => .binaryXor
  | .bitOr => .binaryOr

/-- `compile_aug_assign`. -/
def compileAugAssign (target : AssignTarget) (op : AugOp) (value : Expr) : CompileM Unit := do
  match target with
  | .name name =>
    emitLoadName name
    routines.compileExpr value
    emit (augOpcode op) none
    emitStoreNameScoped name
  | .subscript container index =>
    let containerTemp ← freshTemp "assign_obj"
    let indexTemp ← freshTemp "assign_idx"
    let valueTemp ← freshTemp "assign_val"
    routines.compileExpr container
    emitStoreName containerTemp
    routines.compileExpr index
    emitStoreName indexTemp
    emitLoadName containerTemp
    emitLoadName indexTemp
    emit .subscript none
    routines.compileExpr value
    emit (augOpcode op) none
    emitStoreName valueTemp
    emitLoadName containerTemp
    emitLoadName indexTemp
    emitLoadName valueTemp
    emit .storeSubscript none
    emit .popTop none
  | .attribute object name =>
    let temp ← freshTemp "assign_obj"
    let valueTemp ← freshTemp "assign_val"
    routines.compileExpr object
    emitStoreName temp
    emitLoadName temp
    emitLoadAttr (← mangledName name)
    routines.compileExpr value
    emit (augOpcode op) none
    emitStoreName valueTemp
    emitLoadName temp
    emitLoadName valueTemp
    let idx ← addName (← mangledName name)
    emit .storeAttr (some idx)
  | .starred _ | .tuple _ | .list _ => compileError "invalid augmented assignment target"

end Expressions

end Pyrs
