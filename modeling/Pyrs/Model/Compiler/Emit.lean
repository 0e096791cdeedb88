import Pyrs.Model.Bytecode
import Pyrs.Model.Scope

/-!
# The state of the code generator

`struct Compiler` of `compiler/mod.rs` with the routines that emit single instructions: names,
constants, jumps and their patching, temporaries, and the contexts of loops and of deferred returns.
The current span and the file name are left out.  An instruction argument is a number without a
bound where the source has a `u32`.
-/

namespace Pyrs

/-- The jumps of a loop that wait for their targets. -/
structure LoopContext where
  start : Nat
  continueTarget : Option Nat
  breakCleanupPops : Nat
  breaks : List Nat
  continues : List Nat

/-- The returns that wait for the end of a `finally`. -/
structure FinallyReturnContext where
  returnValueName : String
  returnFlagName : String
  pendingReturnJumps : List Nat

/-- The code generator of one code object.  The innermost context of a stack comes first. -/
structure Compiler where
  code : CodeObject
  tempCounter : Nat
  loopStack : List LoopContext
  finallyReturnStack : List FinallyReturnContext
  scope : ScopeInfo
  privateName : Option String
  cellIndex : List (String × Nat)
  futureAnnotations : Bool
  futureAnnotationsImport : Bool
  formatting : Formatting

/-- The steps of the compiler over its state. -/
abbrev CompileM := StateT Compiler (Except CompileFailure)

/-- `Err(CompileError::new(message))`. -/
def compileError {α : Type} (message : String) : CompileM α :=
  throw (.error message)

/-- `Compiler::new`.  Cells come before free variables; of two equal names the map keeps the later
index, so the list is searched from its end. -/
def Compiler.new (name : String) (formatting : Formatting) (scope : ScopeInfo)
    (privateName : Option String) : Compiler where
  code := { CodeObject.new name with cellvars := scope.cellvars, freevars := scope.freevars }
  tempCounter := 0
  loopStack := []
  finallyReturnStack := []
  scope := scope
  privateName := privateName
  cellIndex := (scope.cellvars ++ scope.freevars).zipIdx.reverse
  futureAnnotations := false
  futureAnnotationsImport := false
  formatting := formatting

/-! ## Instructions and constants -/

/-- `emit` writes a call with one argument as `CallFunction1`. -/
def emittedInstruction (opcode : Opcode) (arg : Option Nat) : Instruction :=
  if opcode = .callFunction ∧ arg = some 1 then ⟨.callFunction1, none⟩ else ⟨opcode, arg⟩

def emit (opcode : Opcode) (arg : Option Nat) : CompileM Unit :=
  modify fun compiler =>
    { compiler with code := { compiler.code with
        instructions := compiler.code.instructions ++ [emittedInstruction opcode arg] } }

def addConst (value : Value) : CompileM Nat :=
  modifyGet fun compiler =>
    ((compiler.code.addConst value).2,
      { compiler with code := (compiler.code.addConst value).1 })

def addName (name : String) : CompileM Nat :=
  modifyGet fun compiler =>
    ((compiler.code.addName name).2, { compiler with code := (compiler.code.addName name).1 })

def emitConst (value : Value) : CompileM Unit := do
  let idx ← addConst value
  emit .loadConst (some idx)

def constantToValue : Constant → Value
  | .none => .none
  | .bool value => .bool value
  | .int value => .int value
  | .bigInt value => .bigInt value
  | .float bits => .float bits
  | .str value => .str value

/-! ## Names -/

/-- Where a name lives. -/
inductive NameKind
  | local | cell | free | global | name
  deriving DecidableEq, Repr

/-- The name as the class around it mangles it. -/
def mangledName (name : String) : CompileM String := do
  pure (manglePrivateIdentifier (← get).privateName name)

/-- `name_kind`, as a question about the scope. -/
def ScopeInfo.nameKind (scope : ScopeInfo) (name : String) : NameKind :=
  match scope.scopeType with
  | .module | .class => .name
  | .function | .lambda =>
    if scope.isGlobal name then .global
    else if scope.isCell name then .cell
    else if scope.isLocal name then .local
    else if scope.isFree name then .free
    else .global

/-- Where the scope puts a name. -/
def nameKind (name : String) : CompileM NameKind := do
  pure ((← get).scope.nameKind name)

/-- The place of a name among the cells. -/
def derefIndex (name : String) : CompileM Nat := do
  match (← get).cellIndex.lookup name with
  | some idx => pure idx
  | none => compileError s!"unknown closure variable '{name}'"

def emitLoadName (name : String) : CompileM Unit := do
  let mangled ← mangledName name
  let idx ← addName mangled
  match ← nameKind mangled with
  | .local => emit .loadFast (some idx)
  | .cell | .free =>
    let deref ← derefIndex mangled
    emit .loadDeref (some deref)
  | .global => emit .loadGlobal (some (idx <<< 1))
  | .name => emit .loadName (some idx)

def emitStoreName (name : String) : CompileM Unit := do
  let idx ← addName (← mangledName name)
  emit .storeFast (some idx)

def emitDeleteName (name : String) : CompileM Unit := do
  let idx ← addName (← mangledName name)
  emit .deleteName (some idx)

/-- `emit_store_name_scoped`: by the kind of the name. -/
def emitStoreNameScoped (name : String) : CompileM Unit := do
  let mangled ← mangledName name
  let idx ← addName mangled
  match ← nameKind mangled with
  | .global => emit .storeGlobal (some idx)
  | .cell | .free =>
    let deref ← derefIndex mangled
    emit .storeDeref (some deref)
  | .local => emit .storeFast (some idx)
  | .name => emit .storeName (some idx)

/-- The load of an attribute, whose argument carries the index one bit to the left. -/
def emitLoadAttr (name : String) : CompileM Unit := do
  let idx ← addName name
  emit .loadAttr (some (idx <<< 1))

/-- The cells of a closure, in a tuple. -/
def emitClosureTuple (freevars : List String) : CompileM Unit := do
  freevars.forM fun name => do
    let deref ← derefIndex name
    emit .loadClosure (some deref)
  emit .buildTuple (some freevars.length)

/-- Adds a name to the locals of the scope. -/
def Compiler.insertLocal (compiler : Compiler) (name : String) : Compiler :=
  { compiler with scope := { compiler.scope with
      locals := insert (manglePrivateIdentifier compiler.privateName name) compiler.scope.locals } }

/-- `fresh_temp`. -/
def freshTemp (kind : String) : CompileM String :=
  modifyGet fun compiler =>
    let name := s!"__pyrs_{kind}_{compiler.tempCounter}"
    (name, { compiler with tempCounter := compiler.tempCounter + 1 }.insertLocal name)

/-- A name that is stored without a statement for it. -/
def ensureLocalName (name : String) : CompileM Unit :=
  modify fun compiler =>
    if compiler.scope.scopeType = .function ∨ compiler.scope.scopeType = .lambda then
      compiler.insertLocal name
    else compiler

/-- An empty `__annotations__`. -/
def initAnnotations : CompileM Unit := do
  ensureLocalName "__annotations__"
  emit .buildDict (some 0)
  emitStoreNameScoped "__annotations__"

/-! ## Jumps -/

def currentIp : CompileM Nat := do
  pure (← get).code.instructions.length

/-- `emit_jump`: a jump to `0` for now, and its index. -/
def emitJump (opcode : Opcode) : CompileM Nat := do
  let index ← currentIp
  emit opcode (some 0)
  pure index

/-- An instruction with its target. -/
def Instruction.setTarget (instr : Instruction) (target : Nat) : Instruction :=
  { instr with arg := some target }

def patchJump (index target : Nat) : CompileM Unit := do
  let compiler ← get
  match compiler.code.instructions[index]? with
  | some instr =>
    set { compiler with code := { compiler.code with
      instructions := compiler.code.instructions.set index (instr.setTarget target) } }
  | none => compileError "invalid jump patch"

/-- The loop over a list of jumps that all go to one target. -/
def patchJumps (jumps : List Nat) (target : Nat) : CompileM Unit :=
  jumps.forM fun jump => patchJump jump target

/-! ## Loops -/

/-- A loop is entered. -/
def pushLoopContext (context : LoopContext) : CompileM Unit :=
  modify fun compiler => { compiler with loopStack := context :: compiler.loopStack }

/-- A loop is left. -/
def popLoopContext : CompileM LoopContext := do
  let compiler ← get
  match compiler.loopStack with
  | context :: rest =>
    set { compiler with loopStack := rest }
    pure context
  | [] => compileError "loop stack underflow"

/-- The jumps of a loop get their targets. -/
def resolveLoopContext (context : LoopContext) (loopEnd : Nat) : CompileM Unit := do
  patchJumps context.breaks loopEnd
  patchJumps context.continues (context.continueTarget.getD context.start)

/-- A `break` of the innermost loop. -/
def addBreak (jump : Nat) : CompileM Unit :=
  modify fun compiler =>
    match compiler.loopStack with
    | [] => compiler
    | context :: rest =>
      { compiler with loopStack := { context with breaks := context.breaks ++ [jump] } :: rest }

/-- `compile_break`: the jump leaves the blocks of the frame as they are. -/
def compileBreak : CompileM Unit := do
  match (← get).loopStack with
  | [] => compileError "'break' outside loop"
  | context :: _ =>
    (List.replicate context.breakCleanupPops ()).forM fun _ => emit .popTop none
    addBreak (← emitJump .jump)

/-- A `continue` of the innermost loop. -/
def addContinue (jump : Nat) : CompileM Unit := do
  let compiler ← get
  match compiler.loopStack with
  | [] => compileError "'continue' not properly in loop"
  | context :: rest =>
    set { compiler with
      loopStack := { context with continues := context.continues ++ [jump] } :: rest }

/-- `continue`. -/
def compileContinue : CompileM Unit := do
  addContinue (← emitJump .jump)

/-! ## Deferred returns -/

/-- The context of a `finally` with its two temporaries. -/
def addFinallyReturnContext (returnValueName returnFlagName : String) : CompileM Unit :=
  modify fun compiler => { compiler with
    finallyReturnStack := ⟨returnValueName, returnFlagName, []⟩ :: compiler.finallyReturnStack }

/-- A `try` with a `finally` is entered. -/
def pushFinallyReturnContext : CompileM Unit := do
  let returnValueName ← freshTemp "finally_return_value"
  let returnFlagName ← freshTemp "finally_return_flag"
  emitConst (.bool false)
  emitStoreNameScoped returnFlagName
  addFinallyReturnContext returnValueName returnFlagName

/-- A `try` with a `finally` is left. -/
def popFinallyReturnContext : CompileM FinallyReturnContext := do
  let compiler ← get
  match compiler.finallyReturnStack with
  | context :: rest =>
    set { compiler with finallyReturnStack := rest }
    pure context
  | [] => compileError "missing finally return context"

/-- A return that runs the `finally` first. -/
def addPendingReturn (jump : Nat) : CompileM Unit :=
  modify fun compiler =>
    match compiler.finallyReturnStack with
    | [] => compiler
    | context :: rest => { compiler with
        finallyReturnStack :=
          { context with pendingReturnJumps := context.pendingReturnJumps ++ [jump] } :: rest }

/-- `emit_return_or_defer`: inside the body of a `finally` the value and a flag are stored, and the
jump goes to the `finally` body once that is known. -/
def emitReturnOrDefer : CompileM Unit := do
  match (← get).finallyReturnStack with
  | [] => emit .returnValue none
  | context :: _ =>
    emitStoreNameScoped context.returnValueName
    emitConst (.bool true)
    emitStoreNameScoped context.returnFlagName
    addPendingReturn (← emitJump .jump)

/-- The returns of a `try` get their target. -/
def patchDeferredReturnsTo (context : FinallyReturnContext) (target : Nat) : CompileM Unit :=
  patchJumps context.pendingReturnJumps target

/-- Behind a `finally`, the return that waits for it. -/
def emitFinallyReturnEpilogue (context : FinallyReturnContext) : CompileM Unit := do
  emitLoadName context.returnFlagName
  let noReturn ← emitJump .jumpIfFalse
  emitLoadName context.returnValueName
  emitReturnOrDefer
  patchJump noReturn (← currentIp)

end Pyrs
