import Pyrs.Model.Ast

/-!
# Bytecode, code objects and run-time values

`bytecode/mod.rs` together with the part of `runtime/mod.rs` that the compiler's constants and the
exception machinery of the virtual machine use.  Code objects hold constants and constants hold
code objects, so the two are declared together.  Line tables, and the index tables that
`rebuild_layout_indexes` derives from the names for the fast paths of a call, are left out.
-/

namespace Pyrs

/-! ## Instructions -/

inductive Opcode
  | nop | loadConst | loadName | loadFast | loadDeref | loadClosure | loadGlobal | loadAttr
  | storeName | storeFast | storeAttr | storeGlobal | storeDeref
  | deleteName | deleteAttr | deleteSubscript
  | binaryAdd | inplaceAdd | binarySub | binarySubConst | binaryMul | binaryMatMul | binaryDiv
  | binaryPow | binaryFloorDiv | binaryMod | binaryLShift | binaryRShift | binaryAnd | binaryXor
  | binaryOr
  | compareEq | compareNe | compareLt | compareLtConst | compareLe | compareGt | compareGe
  | compareIn | compareNotIn | compareIs | compareIsNot
  | unaryNeg | unaryNot | unaryPos | unaryInvert
  | makeFunction | buildClass
  | callFunction | callFunction1 | callFunctionKw | callFunctionVar
  | importName | importNameCpython | importFromCpython
  | buildList | buildTuple | buildInterpolation | buildTemplate | buildDict | buildSlice
  | unpackSequence | unpackEx | listAppend | listExtend | dictSet | dictUpdate
  | subscript | storeSubscript | dupTop
  | jumpIfFalse | jumpIfTrue | jumpIfNone | jump
  | setupExcept | popBlock | raise | matchException | matchExceptionStar | clearException | reraise
  | popTop | getIter | getAwaitable | forIter | yieldValue | yieldFrom
  | callIntrinsic1 | callIntrinsic2 | setFunctionAttribute | returnValue
  deriving DecidableEq, Repr

/-- An instruction with its argument. -/
structure Instruction where
  opcode : Opcode
  arg : Option Nat
  deriving DecidableEq, Repr

/-! ## Values -/

/-- The built-in functions that `class_from_base_value` takes for a class. -/
inductive BuiltinType
  | type
  | bool | int | float | str | list | tuple | dict | set | frozenSet | enumerate
  | bytes | byteArray | arrayArray | memoryView | complex
  | typesModuleType | classMethod | staticMethod | property | functoolsPartial
  | collectionsCounter | collectionsDeque | collectionsDefaultDict | collectionsOrderedDict
  deriving DecidableEq, Repr

/-- The other built-in functions are no bases, three of them with an error of their own. -/
inductive BuiltinFunction
  | ofType (base : BuiltinType)
  | typingTypeVar | typingTypeVarTuple | typingParamSpec
  | other (name : String)
  deriving DecidableEq, Repr

/-- A reference to a class object.  The classes standing for the built-in exception types and for
the built-in types are memoised in `synthetic_exception_classes` and `synthetic_builtin_classes`, so
the name and the type are the references. -/
inductive ClassRef
  | object
  | syntheticException (name : String)
  | builtin (base : BuiltinType)
  | user (id : Nat)
  deriving DecidableEq, Repr

mutual

/-- The values of constants. -/
inductive Value
  | none
  | bool (value : Bool)
  | int (value : Int)
  | bigInt (value : Int)
  | float (bits : UInt64)
  | str (value : String)
  | tuple (items : List Value)
  | list (items : List Value)
  | code (code : CodeObject)
  | exceptionType (name : String)
  | exception (exc : ExceptionObject)
  | «class» (cls : ClassRef)
  | builtin (function : BuiltinFunction)
  | object (id : Nat)

structure CodeObject where
  name : String
  instructions : List Instruction
  constants : List Value
  names : List String
  cellvars : List String
  freevars : List String
  posonlyParams : List String
  params : List String
  vararg : Option String
  kwarg : Option String
  kwonlyParams : List String
  isGenerator : Bool
  isCoroutine : Bool
  isAsyncGenerator : Bool
  futureAnnotationsImport : Bool

structure ExceptionObject where
  objectId : Nat
  name : String
  message : Option String
  notes : List String
  exceptions : List ExceptionObject
  cause : Option ExceptionObject
  context : Option ExceptionObject
  suppressContext : Bool
  attrs : List (String × Value)

end

/-- `CodeObject::new`: constant `0` is `None`. -/
def CodeObject.new (name : String) : CodeObject where
  name := name
  instructions := []
  constants := [Value.none]
  names := []
  cellvars := []
  freevars := []
  posonlyParams := []
  params := []
  vararg := none
  kwarg := none
  kwonlyParams := []
  isGenerator := false
  isCoroutine := false
  isAsyncGenerator := false
  futureAnnotationsImport := false

/-- `add_const` pushes without looking for an equal constant. -/
def CodeObject.addConst (code : CodeObject) (value : Value) : CodeObject × Nat :=
  ({ code with constants := code.constants ++ [value] }, code.constants.length)

/-- `add_name` returns the index of a name already present. -/
def CodeObject.addName (code : CodeObject) (name : String) : CodeObject × Nat :=
  match code.names.findIdx? (· = name) with
  | some idx => (code, idx)
  | none => ({ code with names := code.names ++ [name] }, code.names.length)

end Pyrs
