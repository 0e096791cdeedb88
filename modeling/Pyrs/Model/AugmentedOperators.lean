import Pyrs.Model.TargetExecution

/-!
# The operators of augmented assignments

What the instructions of `compile_aug_assign` do with their left operand: the arms of
`execute_instruction` of `vm/vm_execution.rs` with `binary_inplace_add_runtime` of
`vm/builtins_core.rs` and `class_of_value` below it.  The result itself is left open; followed is
which operation makes it and whether the operand is updated.
-/

namespace Pyrs

/-! ## Operands -/

/-- The containers of which the language updates some in place. -/
inductive Container
  | list | set | byteArray | dict
  deriving DecidableEq, Repr

/-- What a special method answers: a result, or `NotImplemented`. -/
inductive SpecialAnswer
  | value | notImplemented
  deriving DecidableEq, Repr

/-- A left operand.  An instance may extend a container; `methods` is what `class_attr_lookup` finds
on its class, by what calling it with the right operand answers. -/
inductive AugOperand
  | container (container : Container)
  | instance (backing : Option Container) (methods : String → Option SpecialAnswer)
  | other

/-- What happens to the left operand: a method of its class is called, it is updated and is the
result itself, or a new result is computed. -/
inductive AugStep
  | call (method : String)
  | update (op : AugOp)
  | plain (op : AugOp)
  deriving DecidableEq, Repr

/-! ## The instructions -/

/-- `call_binary_special_method`: of the values followed here, `class_of_value` gives a class to
instances only. -/
def AugOperand.callSpecial (left : AugOperand) (method : String) : Option SpecialAnswer :=
  match left with
  | .instance _ methods => methods method
  | .container _ | .other => none

/-- `binary_inplace_add_runtime`. -/
def binaryInplaceAddRuntime (left : AugOperand) : List AugStep :=
  match left.callSpecial "__iadd__" with
  | some .value => [.call "__iadd__"]
  | some .notImplemented => [.call "__iadd__", .plain .add]
  | none => [.plain .add]

/-- The arms of `execute_instruction` for binary operators. -/
def binaryEffect (opcode : Opcode) (left : AugOperand) : List AugStep :=
  match opcode with
  | .inplaceAdd => binaryInplaceAddRuntime left
  | .binaryAdd => [.plain .add]
  | .binarySub => [.plain .sub]
  | .binaryMul => [.plain .mul]
  | .binaryMatMul => [.plain .matMul]
  | .binaryDiv => [.plain .div]
  | .binaryMod => [.plain .mod]
  | .binaryFloorDiv => [.plain .floorDiv]
  | .binaryPow => [.plain .pow]
  | .binaryLShift => [.plain .lShift]
  | .binaryRShift => [.plain .rShift]
  | .binaryAnd => [.plain .bitAnd]
  | .binaryXor => [.plain .bitXor]
  | .binaryOr => [.plain .bitOr]
  | _ => []

end Pyrs
