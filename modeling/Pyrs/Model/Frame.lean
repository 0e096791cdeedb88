import Pyrs.Model.Bytecode

/-!
# The control flow of one frame

`execute_instruction` and `unwind_exception_internal` of `vm/vm_execution.rs`, as far as they move a
frame of compiled code from one instruction to another.  Which way a conditional jump goes, and which
instruction raises an exception, is left open.  Fused instructions make several steps, and a
`YieldFrom` that yields makes none.
-/

namespace Pyrs

structure Block where
  handler : Nat
  stackLen : Nat
  deriving DecidableEq, Repr

/-- Where a frame is in its code, with the handlers of its blocks, the innermost first. -/
structure Control where
  ip : Nat
  handlers : List Nat

/-- How `execute_instruction` moves within one frame: on to the next instruction, to a target, and
with an exception of any instruction to the innermost handler. -/
inductive Control.Step (code : CodeObject) : Control → Control → Prop
  | next {ip : Nat} {handlers : List Nat} {instr : Instruction}
      (hinstr : code.instructions[ip]? = some instr)
      (hopcode : instr.opcode ∉ [.jump, .setupExcept, .popBlock, .raise, .reraise, .returnValue]) :
      Step code ⟨ip, handlers⟩ ⟨ip + 1, handlers⟩
  | target {ip target : Nat} {handlers : List Nat} {opcode : Opcode}
      (hinstr : code.instructions[ip]? = some ⟨opcode, some target⟩)
      (hopcode : opcode ∈ [.jump, .jumpIfFalse, .jumpIfTrue, .jumpIfNone, .forIter]) :
      Step code ⟨ip, handlers⟩ ⟨target, handlers⟩
  | setupExcept {ip handler : Nat} {handlers : List Nat}
      (hinstr : code.instructions[ip]? = some ⟨.setupExcept, some handler⟩) :
      Step code ⟨ip, handlers⟩ ⟨ip + 1, handler :: handlers⟩
  | popBlock {ip handler : Nat} {handlers : List Nat}
      (hinstr : code.instructions[ip]? = some ⟨.popBlock, none⟩) :
      Step code ⟨ip, handler :: handlers⟩ ⟨ip + 1, handlers⟩
  | unwind {ip handler : Nat} {handlers : List Nat} :
      Step code ⟨ip, handler :: handlers⟩ ⟨handler, handlers⟩

end Pyrs
